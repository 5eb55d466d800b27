import TuwaiqOS.ExclusiveSpaces
import TuwaiqOS.VmCalls

/-!
# Growing an address space and taking it back

Between two calls an address space has no empty table. While pages are added
to it in batches, everything that was there stays as it was, and what is new
lies above the range of the request. If all pages of the range are mapped in
the end, no table is empty again. If the new pages are unmapped and the range
is cleaned up, the space is the one from before, with the same tables and the
same list of frames.
-/

namespace TuwaiqOS.StagedSpaces

open FallibleSteps ResourceLedger FrameAllocator PageTables AddressSpaces ExclusiveSpaces VmCalls
open BootInfoFrameAllocator (books)

/-- An address space between two calls. -/
structure Tight (space : AddressSpace) : Prop where
  /-- Frames in use are exclusive. -/
  exclusive : Exclusive space
  /-- No table lacks its parent. -/
  closed : space.tables.Closed
  /-- No table is empty. -/
  full : space.tables.Full

/-- All mapped pages are valid user pages. -/
def Usable (space : AddressSpace) : Prop :=
  ∀ page leaf,space.tables.leaf page=some leaf →
    leaf.flags.present=true ∧ leaf.flags.userAccessible=true

/-! ## Batches -/

/-- What mapping some pages makes of a space; the first ones are mapped, up
to the first failure. -/
structure MapsPages (space : AddressSpace) (pages : List ℕ) (flags : Flags)
    (result : ℕ×AddressSpace×BootInfoFrameAllocator) : Prop where
  /-- Frames in use are exclusive. -/
  exclusive : Exclusive result.2.1
  /-- No table lacks its parent. -/
  closed : result.2.1.tables.Closed
  /-- The space has grown above the pages. -/
  grown : Grown space result.2.1 (·∈pages)
  /-- The mapped pages were free. -/
  free : ∀ page∈pages.take result.1,space.tables.leaf page=none
  /-- They are mapped now. -/
  mapped : ∀ page∈pages.take result.1,∃ frame,result.2.1.tables.leaf page=some ⟨frame,flags⟩
  /-- The others are as before. -/
  others : ∀ page∉pages.take result.1,result.2.1.tables.leaf page=space.tables.leaf page

variable {space : AddressSpace} {allocator : BootInfoFrameAllocator}

theorem mapsPages_mapPages {rest : Multiset ℕ} (flags : Flags) (pages : List ℕ) (hspace : Exclusive space)
    (hclosed : space.tables.Closed) (hbacks : Backs books allocator (space.ownedFrames+rest)) :
    MapsPages space pages flags (mapPages flags pages space allocator) := by
  induction pages generalizing space allocator with
  | nil =>
    exact ⟨hspace,hclosed,Grown.refl space _,fun _ h => absurd h List.not_mem_nil,
      fun _ h => absurd h List.not_mem_nil,fun _ _ => rfl⟩
  | cons page others ih =>
    have hmaps := mapsPage_mapInAddressSpace hspace hbacks page flags
    have hmoved := moves_mapInAddressSpace space page flags allocator rest hbacks
    have hgrown : Grown space (mapInAddressSpace space page flags allocator).2.1
        (·∈page::others) := hmaps.grown.mono fun other hsame => by
      rw [hsame]
      exact List.mem_cons_self
    rw [mapPages]
    split
    · rename_i reason later hmap
      rw [hmap] at hmaps hgrown
      exact ⟨hmaps.exclusive,hmaps.closed hclosed,hgrown,
        fun _ h => absurd h List.not_mem_nil,fun _ h => absurd h List.not_mem_nil,
        fun other _ => by rw [hmaps.failed (by simp)]⟩
    · rename_i middle next hmap
      rw [hmap] at hmaps hgrown hmoved
      obtain ⟨hfree,⟨frame,hleaf⟩,-⟩ := hmaps.mapped rfl
      have hrest := ih hmaps.exclusive (hmaps.closed hclosed) hmoved
      have hlater : Grown middle (mapPages flags others middle next).2.1 (·∈page::others) :=
        hrest.grown.mono fun other hmem => List.mem_cons_of_mem _ hmem
      have hpage : middle.tables.leaf page=some ⟨frame,flags⟩ := by
        rw [hleaf,Function.update_self]
      refine ⟨hrest.exclusive,hrest.closed,hgrown.trans hlater,?_,?_,?_⟩
      · intro other hmem
        rw [List.take_succ_cons,List.mem_cons] at hmem
        rcases hmem with rfl|hmem
        · exact hfree
        · cases hold : space.tables.leaf other with
          | none => rfl
          | some leaf => rw [← hgrown.leaf other leaf hold,hrest.free other hmem]
      · intro other hmem
        rw [List.take_succ_cons,List.mem_cons] at hmem
        rcases hmem with rfl|hmem
        · exact ⟨frame,hlater.leaf _ _ hpage⟩
        · exact hrest.mapped other hmem
      · intro other hmem
        rw [List.take_succ_cons,List.mem_cons,not_or] at hmem
        rw [hrest.others other hmem.2,hleaf,Function.update_of_ne hmem.1]

/-- At most all pages are mapped. -/
theorem mapPages_count (flags : Flags) (pages : List ℕ) (space : AddressSpace)
    (allocator : BootInfoFrameAllocator) : (mapPages flags pages space allocator).1≤pages.length := by
  induction pages generalizing space allocator with
  | nil => exact le_rfl
  | cons page others ih =>
    rw [mapPages]
    split
    · exact Nat.zero_le _
    · exact Nat.succ_le_succ (ih _ _)

/-- The flags of one page are changed. -/
theorem updateFlagsInAddressSpace_ok {space later : AddressSpace} {page : ℕ} {flags : Flags}
    (hupdate : updateFlagsInAddressSpace space page flags=.ok later) :
    later={space with tables := space.tables.protect flags [page]} := by
  rw [updateFlagsInAddressSpace] at hupdate
  split at hupdate
  · cases hupdate
  rename_i tables htables
  cases hupdate
  obtain ⟨leaf,hleaf,rfl⟩ := Option.map_eq_some_iff.mp htables
  rw [Tables.setLeaf,Tables.protect]
  refine congrArg _ (congrArg _ (funext fun other => ?_))
  by_cases hother : other=page
  · subst hother
    simp [hleaf]
  · simp [hother]

/-- The flags of some pages are changed, up to the first failure. -/
theorem protectPages_spec (flags : Flags) (pages : List ℕ) (space : AddressSpace) :
    ∃ count,(protectPages flags pages space).2=
        {space with tables := space.tables.protect flags (pages.take count)} ∧
      ((protectPages flags pages space).1=true → pages.take count=pages) := by
  induction pages generalizing space with
  | nil =>
    refine ⟨0,?_,fun _ => rfl⟩
    simp [protectPages,Tables.protect]
  | cons page rest ih =>
    rw [protectPages]
    split
    · refine ⟨0,?_,(by simp)⟩
      simp [Tables.protect]
    · rename_i later hupdate
      obtain ⟨count,hlater,hall⟩ := ih later
      refine ⟨count+1,?_,fun hdone => by rw [List.take_succ_cons,hall hdone]⟩
      rw [hlater,updateFlagsInAddressSpace_ok hupdate]
      refine congrArg _ ?_
      rw [Tables.protect,Tables.protect,Tables.protect,List.take_succ_cons]
      refine congrArg _ (funext fun other => ?_)
      by_cases hother : other=page
      · subst hother
        by_cases hmem : other∈rest.take count <;> simp [hmem,Function.comp_def]
      · by_cases hmem : other∈rest.take count <;> simp [hother,hmem]

/-- The flags of mapped pages can be changed. -/
theorem protectPages_mapped (flags : Flags) (pages : List ℕ) (space : AddressSpace)
    (hmapped : ∀ page∈pages,space.tables.leaf page≠none) :
    (protectPages flags pages space).1=true := by
  induction pages generalizing space with
  | nil => rfl
  | cons page rest ih =>
    obtain ⟨hpage,hrest⟩ := List.forall_mem_cons.mp hmapped
    rw [protectPages]
    split
    · rename_i reason hupdate
      obtain ⟨leaf,hleaf⟩ := Option.ne_none_iff_exists'.mp hpage
      rw [updateFlagsInAddressSpace,Tables.updateFlags,hleaf] at hupdate
      cases hupdate
    · rename_i later hupdate
      refine ih _ fun other hother => ?_
      rw [updateFlagsInAddressSpace_ok hupdate]
      dsimp only
      rw [Ne,Tables.leaf_eq_none_iff,Tables.frameAt_protect,← Tables.leaf_eq_none_iff]
      exact hrest other hother

/-! ## A range of pages that is added -/

/-- A space in which some pages of a range have been mapped since an earlier
state of it. -/
structure Staged (before now : AddressSpace) (first count : ℕ) (mapped : ℕ → Prop)
    (flags : ℕ → Flags) : Prop where
  /-- Frames in use are exclusive. -/
  exclusive : Exclusive now
  /-- No table lacks its parent. -/
  closed : now.tables.Closed
  /-- The space has grown above the range. -/
  grown : Grown before now fun page => first≤page ∧ page<first+count
  /-- The mapped pages were free. -/
  free : ∀ page,mapped page → before.tables.leaf page=none
  /-- They have these flags. -/
  leaf : ∀ page,mapped page → ∃ frame,now.tables.leaf page=some ⟨frame,flags page⟩
  /-- The others are as before. -/
  others : ∀ page,¬mapped page → now.tables.leaf page=before.tables.leaf page

namespace Staged

variable {before now : AddressSpace} {first count : ℕ} {mapped : ℕ → Prop} {flags : ℕ → Flags}

theorem refl (hbefore : Exclusive before) (hclosed : before.tables.Closed) (first count : ℕ)
    (flags : ℕ → Flags) : Staged before before first count (fun _ => False) flags :=
  ⟨hbefore,hclosed,Grown.refl before _,fun _ => False.elim,fun _ => False.elim,fun _ _ => rfl⟩

section

variable (hstaged : Staged before now first count mapped flags)
include hstaged

theorem congr {others : ℕ → Prop}
    (hsame : ∀ page,mapped page ↔ others page) : Staged before now first count others flags := by
  rwa [← funext fun page => propext (hsame page)]

/-- Only the flags of mapped pages count. -/
theorem congr_flags {other : ℕ → Flags} (hsame : ∀ page,mapped page → flags page=other page) :
    Staged before now first count mapped other := by
  refine ⟨hstaged.exclusive,hstaged.closed,hstaged.grown,hstaged.free,fun page hpage => ?_,
    hstaged.others⟩
  rw [← hsame page hpage]
  exact hstaged.leaf page hpage

/-- A batch is mapped. -/
theorem map {pages : List ℕ} {batchFlags : Flags} {result : ℕ×AddressSpace×BootInfoFrameAllocator}
    (hmaps : MapsPages now pages batchFlags result)
    (hpages : ∀ page∈pages,first≤page ∧ page<first+count ∧ flags page=batchFlags) :
    Staged before result.2.1 first count
      (fun page => mapped page ∨ page∈pages.take result.1) flags := by
  have hgrown : Grown now result.2.1 fun page => first≤page ∧ page<first+count :=
    hmaps.grown.mono fun page hmem => ⟨(hpages page hmem).1,(hpages page hmem).2.1⟩
  refine ⟨hmaps.exclusive,hmaps.closed,hstaged.grown.trans hgrown,?_,?_,?_⟩
  · intro page hpage
    rcases hpage with hold|hnew
    · exact hstaged.free page hold
    · cases hbefore : before.tables.leaf page with
      | none => rfl
      | some leaf => rw [← hstaged.grown.leaf page leaf hbefore,hmaps.free page hnew]
  · intro page hpage
    rcases hpage with hold|hnew
    · obtain ⟨frame,hframe⟩ := hstaged.leaf page hold
      exact ⟨frame,hgrown.leaf page _ hframe⟩
    · rw [(hpages page (List.mem_of_mem_take hnew)).2.2]
      exact hmaps.mapped page hnew
  · intro page hpage
    rw [not_or] at hpage
    rw [hmaps.others page hpage.2,hstaged.others page hpage.1]

/-- Mapped pages get other flags. -/
theorem protect {pages : List ℕ}
    (batchFlags : Flags) (hpages : ∀ page∈pages,mapped page) :
    Staged before {now with tables := now.tables.protect batchFlags pages} first count mapped
      (fun page => if page∈pages then batchFlags else flags page) := by
  have hplace := now.tables.frameAt_protect batchFlags pages
  have hleaf : ∀ page,page∉pages →
      (now.tables.protect batchFlags pages).leaf page=now.tables.leaf page :=
    fun page hpage => if_neg hpage
  refine ⟨hstaged.exclusive.congr rfl rfl hplace,hstaged.closed.congr hplace,
    ⟨hstaged.grown.root,hstaged.grown.table,fun page leaf hold => ?_,hstaged.grown.fresh,?_⟩,
    hstaged.free,fun page hpage => ?_,fun page hpage => ?_⟩
  · have hout : page∉pages := fun hmem => by
      rw [hstaged.free page (hpages page hmem)] at hold
      cases hold
    exact (hleaf page hout).trans (hstaged.grown.leaf page leaf hold)
  · obtain ⟨extra,hextra,hplaces⟩ := hstaged.grown.owned
    refine ⟨extra,hextra,fun frame => ?_⟩
    simp only [hplace]
    exact hplaces frame
  · obtain ⟨frame,hframe⟩ := hstaged.leaf page hpage
    refine ⟨frame,?_⟩
    rw [Tables.protect]
    dsimp only
    split
    · rw [hframe]
      rfl
    · exact hframe
  · rw [← hstaged.others page hpage]
    exact hleaf page fun hmem => hpage (hpages page hmem)

/-- Some of the mapped pages are unmapped. -/
theorem unmap (hnodup : now.ownedFrames.Nodup) {start pages : ℕ} {records : List UnmapRecord}
    {result : Except String Unit×AddressSpace×BootInfoFrameAllocator}
    (hunmaps : UnmapsRange now start pages records result)
    (hpages : ∀ page,start≤page → page<start+pages → mapped page) :
    Staged before result.2.1 first count
      (fun page => mapped page ∧ ¬(start≤page ∧ page<start+pages)) flags := by
  have hleaf : ∀ page,result.2.1.tables.leaf page=
      if start≤page ∧ page<start+pages then none else now.tables.leaf page := by
    intro page
    rw [hunmaps.tables,Tables.clear]
    simp only [List.mem_range'_1]
  have hclosed : result.2.1.tables.Closed := by
    rw [hunmaps.tables]
    exact hstaged.closed.clear _
  refine ⟨hunmaps.shrunk.exclusive hstaged.exclusive,hclosed,
    hunmaps.shrunk.grown hstaged.exclusive hnodup hstaged.grown (fun key frame hold => ?_)
      fun page leaf hold => ?_,fun page hpage => hstaged.free page hpage.1,
    fun page hpage => ?_,fun page hpage => ?_⟩
  · rw [hunmaps.tables]
    exact hstaged.grown.table key frame hold
  · have hout : ¬(start≤page ∧ page<start+pages) := fun hin => by
      rw [hstaged.free page (hpages page hin.1 hin.2)] at hold
      cases hold
    rw [hleaf,if_neg hout,hstaged.grown.leaf page leaf hold]
  · obtain ⟨frame,hframe⟩ := hstaged.leaf page hpage.1
    exact ⟨frame,by rw [hleaf,if_neg hpage.2,hframe]⟩
  · rw [hleaf]
    split
    · rename_i hin
      rw [hstaged.free page (hpages page hin.1 hin.2)]
    · rename_i hout
      exact hstaged.others page fun hmapped => hpage ⟨hmapped,hout⟩

end

/-- The whole range is mapped: no table is empty. -/
theorem tight (hbefore : Tight before) (hstaged : Staged before now first count mapped flags)
    (hall : ∀ page,first≤page → page<first+count → mapped page) : Tight now := by
  refine ⟨hstaged.exclusive,hstaged.closed,fun height index htable => ?_⟩
  by_cases hold : before.tables.table (height,index)=none
  · obtain ⟨hlow,hhigh,page,hpage,hindex⟩ := hstaged.grown.fresh (height,index) htable hold
    obtain ⟨frame,hframe⟩ := hstaged.leaf page (hall page hpage.1 hpage.2)
    dsimp only at hlow hhigh hindex
    rw [hindex]
    exact hstaged.closed.used (by rw [hframe]; exact Option.some_ne_none _) hlow hhigh
  · exact (hbefore.full height index hold).mono hstaged.grown.within

/-- All new pages are unmapped and the range is cleaned up: the space is the
one from before. -/
theorem cleaned (hbefore : Tight before)
    (hstaged : Staged before now first count (fun _ => False) flags)
    (hnodup : now.ownedFrames.Nodup) {rawStart : ℕ} (hstart : rawStart/4096=first) {removed : List (ℕ×ℕ)}
    {result : Except String ℕ×AddressSpace×BootInfoFrameAllocator}
    (hcleans : CleansTables now rawStart count allocator removed result) : result.2.1=before := by
  have hswept := hcleans.swept
  rw [hstart] at hswept
  have hnow : now.tables.leaf=before.tables.leaf :=
    funext fun page => hstaged.others page not_false
  have htable : ∀ key frame,before.tables.table key=some frame →
      result.2.1.tables.table key=some frame := by
    intro key frame hold
    have hthere : before.tables.table (key.1,key.2)≠none := by
      rw [hold]
      exact Option.some_ne_none frame
    have hstays := hswept.not_removed hstaged.grown.within hbefore.full hthere
    rw [hswept.table_stays hstays,hstaged.grown.table key frame hold]
  have hleaf : result.2.1.tables.leaf=before.tables.leaf := hswept.leaf.trans hnow
  have hgrown := hcleans.shrunk.grown hstaged.exclusive hnodup hstaged.grown htable
    fun page leaf hold => by rw [hleaf,hold]
  refine hgrown.eq_of_tables ?_
  have htables : result.2.1.tables.table=before.tables.table := by
    funext key
    cases hold : before.tables.table key with
    | some frame => exact htable key frame hold
    | none =>
      by_contra hnew
      exact hswept.table_of_before le_rfl hbefore.closed (fun page h => by rwa [← hleaf])
        hstaged.grown.fresh hnew hold
  cases htree : result.2.1.tables with
  | mk table leaf =>
    rw [htree] at htables hleaf
    dsimp only at htables hleaf
    rw [htables,hleaf]

end Staged

/-! ## Zeroed pages -/

/-- Stores of zeros. -/
theorem foldl_store_zero (parts : List (ℕ×ℕ)) (ram : Ram) (address : ℕ) :
    parts.foldl (fun (ram : Ram) part => ram.store part.1 (List.replicate part.2 0)) ram address=
      if ∃ part∈parts,part.1≤address ∧ address<part.1+part.2 then 0 else ram address := by
  induction parts generalizing ram with
  | nil => simp
  | cons part rest ih =>
    rw [List.foldl_cons,ih]
    by_cases hlater : ∃ part∈rest,part.1≤address ∧ address<part.1+part.2
    · rw [if_pos hlater,if_pos]
      obtain ⟨other,hmem,hrange⟩ := hlater
      exact ⟨other,List.mem_cons_of_mem _ hmem,hrange⟩
    · rw [if_neg hlater,Ram.store,List.length_replicate]
      by_cases hfirst : part.1≤address ∧ address<part.1+part.2
      · rw [if_pos hfirst,if_pos ⟨part,List.mem_cons_self,hfirst⟩]
        rw [List.getD_eq_getElem?_getD,List.getElem?_replicate]
        split <;> rfl
      · rw [if_neg hfirst,if_neg]
        rintro ⟨other,hmem,hrange⟩
        rcases List.mem_cons.mp hmem with rfl|hmem
        · exact hfirst hrange
        · exact hlater ⟨other,hmem,hrange⟩

/-- Whole pages are zeroed, and no other byte changes. -/
theorem zeroBytesInAddressSpace_ok {start count : ℕ} {ram later : Ram} (haligned : start%4096=0)
    (hrun : zeroBytesInAddressSpace space start (count*4096) ram=.ok later) :
    (∀ page leaf,start/4096≤page → page<start/4096+count → space.tables.leaf page=some leaf →
      ∀ offset<4096,later (leaf.frame+offset)=0) ∧
      ∀ address,later address=ram address ∨ later address=0 ∧
        ∃ page leaf,start/4096≤page ∧ page<start/4096+count ∧ space.tables.leaf page=some leaf ∧
          leaf.frame≤address ∧ address<leaf.frame+4096 := by
  obtain ⟨parts,hparts,hlater⟩ := bind_ok_iff.mp hrun
  obtain ⟨_,-,hparts⟩ := bind_ok_iff.mp hparts
  rw [chunks_aligned haligned] at hparts
  cases hlater
  refine ⟨fun page leaf hlow hhigh hleaf offset hoffset => ?_,fun address => ?_⟩
  · have hmem : (start+(page-start/4096)*4096,4096)∈
        (List.range count).map fun page => (start+page*4096,4096) :=
      List.mem_map.mpr ⟨page-start/4096,List.mem_range.mpr (by omega),rfl⟩
    obtain ⟨part,hpart,hstep⟩ := mapM_result hparts hmem
    have hpage : (start+(page-start/4096)*4096)/4096=page := by omega
    have hoff : (start+(page-start/4096)*4096)%4096=0 := by omega
    dsimp only at hstep
    rw [translateInAddressSpace,hpage,hleaf,hoff] at hstep
    dsimp only [Option.map_some] at hstep
    split at hstep
    · cases hstep
    split at hstep
    · cases hstep
    cases hstep
    rw [foldl_store_zero,if_pos]
    exact ⟨_,hpart,by dsimp only; omega,by dsimp only; omega⟩
  · rw [foldl_store_zero]
    split
    · rename_i hwritten
      refine Or.inr ⟨rfl,?_⟩
      obtain ⟨part,hpart,hrange⟩ := hwritten
      obtain ⟨chunk,hchunk,hstep⟩ := mapM_mem hparts hpart
      obtain ⟨page,hpage,rfl⟩ := List.mem_map.mp hchunk
      have hcount := List.mem_range.mp hpage
      dsimp only at hstep
      rw [translateInAddressSpace] at hstep
      cases hleaf : space.tables.leaf ((start+page*4096)/4096) with
      | none =>
        rw [hleaf] at hstep
        cases hstep
      | some leaf =>
        rw [hleaf] at hstep
        dsimp only [Option.map_some] at hstep
        split at hstep
        · cases hstep
        split at hstep
        · cases hstep
        cases hstep
        dsimp only at hrange
        exact ⟨_,leaf,by omega,by omega,hleaf,by omega,by omega⟩
    · exact Or.inl rfl

end TuwaiqOS.StagedSpaces
