import TuwaiqOS.AddressSpaces
import TuwaiqOS.FallibleSteps
import TuwaiqOS.TableSweep

/-!
# Address spaces that own their frames exclusively

Every frame that the private tables of an address space refer to, for a
table or for a page, is owned by the space and referred to in one place. The
operations on address spaces keep this, on success and on every failure, and
the frames that they take are new to everybody. What each operation does to
the tables and to the ownership list is stated once here.
-/

namespace TuwaiqOS.ExclusiveSpaces

open FallibleSteps ResourceLedger FrameAllocator PageTables AddressSpaces
open BootInfoFrameAllocator (books)

/-- Nothing is there if what is there would have been kept. -/
theorem none_of_kept {α : Type} {first second : Option α}
    (hkept : ∀ found,first=some found → second=some found) (hnone : second=none) : first=none := by
  cases hfirst : first with
  | none => rfl
  | some found =>
    rw [hkept found hfirst] at hnone
    cases hnone

/-- The space owns its root and all frames that its tables refer to, each in
one place. -/
structure Exclusive (space : AddressSpace) : Prop where
  /-- The root is owned. -/
  root : space.pml4Frame∈space.ownedFrames
  /-- The root is not used below itself. -/
  notRoot : ∀ place,space.tables.frameAt place≠some space.pml4Frame
  /-- Frames in use are owned. -/
  owned : ∀ place frame,space.tables.frameAt place=some frame → frame∈space.ownedFrames
  /-- A frame is used in one place. -/
  once : ∀ place other frame,space.tables.frameAt place=some frame →
    space.tables.frameAt other=some frame → place=other

/-- A space that has grown since another state of it: the tables and pages
that were there are there, new tables lie above the given pages, and the
frames that were added to the list are those in use at new places. -/
structure Grown (before now : AddressSpace) (pages : ℕ → Prop) : Prop where
  /-- The root is the same. -/
  root : now.pml4Frame=before.pml4Frame
  /-- Tables stay. -/
  table : ∀ key frame,before.tables.table key=some frame → now.tables.table key=some frame
  /-- Pages stay mapped as they were. -/
  leaf : ∀ page leaf,before.tables.leaf page=some leaf → now.tables.leaf page=some leaf
  /-- New tables. -/
  fresh : ∀ key,now.tables.table key≠none → before.tables.table key=none →
    1≤key.1 ∧ key.1≤3 ∧ ∃ page,pages page ∧ key.2=page/512^key.1
  /-- New frames. -/
  owned : ∃ extra,now.ownedFrames=before.ownedFrames++extra ∧
    ∀ frame,frame∈extra ↔
      ∃ place,now.tables.frameAt place=some frame ∧ before.tables.frameAt place=none

theorem Grown.refl (space : AddressSpace) (pages : ℕ → Prop) : Grown space space pages :=
  ⟨rfl,fun _ _ h => h,fun _ _ h => h,fun _ h hnone => absurd hnone h,
    ⟨[],(List.append_nil _).symm,fun _ => iff_of_false List.not_mem_nil
      fun ⟨_,hplace,hnone⟩ => Option.some_ne_none _ (hplace.symm.trans hnone)⟩⟩

variable {before now : AddressSpace} {pages : ℕ → Prop} {frame root page count start : ℕ}
  {owned gone : List ℕ} {tables : Tables} {source : TrackingFrameAllocator}
  {records : List UnmapRecord}

theorem Grown.mono {wider : ℕ → Prop} (hgrown : Grown before now pages)
    (hwider : ∀ page,pages page → wider page) : Grown before now wider := by
  refine ⟨hgrown.root,hgrown.table,hgrown.leaf,fun key hkey hnone => ?_,hgrown.owned⟩
  obtain ⟨hlow,hhigh,page,hpage,hindex⟩ := hgrown.fresh key hkey hnone
  exact ⟨hlow,hhigh,page,hwider page hpage,hindex⟩

/-- A place that is in use stays in use with its frame. -/
theorem Grown.frameAt (hgrown : Grown before now pages) {place : Tables.Place}
    (hplace : before.tables.frameAt place=some frame) : now.tables.frameAt place=some frame := by
  cases place with
  | inl key => exact hgrown.table key frame hplace
  | inr page =>
    obtain ⟨leaf,hleaf,hframe⟩ := Option.map_eq_some_iff.mp hplace
    rw [Tables.frameAt,hgrown.leaf page leaf hleaf,Option.map_some,hframe]

theorem Grown.trans {middle : AddressSpace} (hfirst : Grown before middle pages)
    (hsecond : Grown middle now pages) : Grown before now pages := by
  refine ⟨hsecond.root.trans hfirst.root,
    fun key frame h => hsecond.table key frame (hfirst.table key frame h),
    fun page leaf h => hsecond.leaf page leaf (hfirst.leaf page leaf h),fun key hkey hnone => ?_,?_⟩
  · by_cases hmiddle : middle.tables.table key=none
    · exact hsecond.fresh key hkey hmiddle
    · exact hfirst.fresh key hmiddle hnone
  · obtain ⟨first,hfirstOwned,hfirstPlace⟩ := hfirst.owned
    obtain ⟨second,hsecondOwned,hsecondPlace⟩ := hsecond.owned
    refine ⟨first++second,by rw [hsecondOwned,hfirstOwned,List.append_assoc],fun frame => ?_⟩
    rw [List.mem_append,hfirstPlace,hsecondPlace]
    constructor
    · rintro (⟨place,hplace,hnone⟩|⟨place,hplace,hnone⟩)
      · exact ⟨place,hsecond.frameAt hplace,hnone⟩
      · exact ⟨place,hplace,none_of_kept (fun _ => hfirst.frameAt) hnone⟩
    · rintro ⟨place,hplace,hnone⟩
      cases hmiddle : middle.tables.frameAt place with
      | none => exact Or.inr ⟨place,hplace,hmiddle⟩
      | some found =>
        rw [hsecond.frameAt hmiddle] at hplace
        exact Or.inl ⟨place,hmiddle.trans hplace,hnone⟩

/-- The places decide what is exclusive. -/
theorem Exclusive.congr {space later : AddressSpace} (hspace : Exclusive space)
    (hroot : later.pml4Frame=space.pml4Frame) (howned : later.ownedFrames=space.ownedFrames)
    (hsame : ∀ place,later.tables.frameAt place=space.tables.frameAt place) : Exclusive later := by
  refine ⟨?_,fun place => ?_,fun place frame => ?_,fun place other frame => ?_⟩
  · rw [hroot,howned]
    exact hspace.root
  · rw [hsame,hroot]
    exact hspace.notRoot place
  · rw [hsame,howned]
    exact hspace.owned place frame
  · rw [hsame,hsame]
    exact hspace.once place other frame

/-- A grown space with the tables from before has the list from before. -/
theorem Grown.eq_of_tables (hgrown : Grown before now pages) (htables : now.tables=before.tables) :
    now=before := by
  obtain ⟨extra,hextra,hplaces⟩ := hgrown.owned
  have hnone : extra=[] := by
    refine List.eq_nil_iff_forall_not_mem.mpr fun frame hmem => ?_
    obtain ⟨place,hplace,hold⟩ := (hplaces frame).mp hmem
    rw [htables,hold] at hplace
    cases hplace
  have hroot := hgrown.root
  rw [hnone,List.append_nil] at hextra
  cases now
  cases before
  dsimp only at hroot hextra htables
  rw [hroot,hextra,htables]

theorem Grown.within (hgrown : Grown before now pages) :
    Tables.Within before.tables now.tables := by
  intro place hplace
  obtain ⟨frame,hframe⟩ := Option.ne_none_iff_exists'.mp hplace
  rw [hgrown.frameAt hframe]
  exact Option.some_ne_none frame

/-! ## Mapping a page -/

section

variable {allocator : BootInfoFrameAllocator} {space : AddressSpace} {rest : Multiset ℕ}

/-- A tracked frame is new to the owner and to everybody else. -/
theorem fresh_tracking {tracking found : TrackingFrameAllocator}
    (halloc : tracking.allocateFrame=some (frame,found))
    (hbacks : Backs books tracking.inner (tracking.owned+rest)) :
    found.owned=tracking.owned++[frame] ∧ Backs books found.inner (found.owned+rest) ∧
      frame∉tracking.owned := by
  obtain ⟨howned,hmove⟩ := moves_tracking halloc
  have hlater := hmove rest hbacks
  refine ⟨howned,hlater,fun hmem => ?_⟩
  have hnodup := hlater.nodup
  rw [howned,Multiset.coe_nodup,List.nodup_append'] at hnodup
  exact hnodup.2.2 hmem List.mem_cons_self

/-- While the tables above a page are created for a leaf frame. -/
structure Mapping (space : AddressSpace) (rest : Multiset ℕ) (page leafFrame : ℕ)
    (tables : Tables) (source : TrackingFrameAllocator) : Prop where
  /-- The books balance. -/
  backs : Backs books source.inner (source.owned+rest)
  /-- The frames in use are exclusive. -/
  exclusive : Exclusive ⟨space.pml4Frame,source.owned,tables⟩
  /-- The leaf frame is not in use yet. -/
  unused : leafFrame≠space.pml4Frame ∧ ∀ place,tables.frameAt place≠some leafFrame
  /-- The list has the leaf frame and then the new tables. -/
  owned : ∃ extra,source.owned=space.ownedFrames++leafFrame::extra ∧
    ∀ frame,frame∈extra ↔ ∃ key,tables.table key=some frame ∧ space.tables.table key=none
  /-- Tables stay. -/
  table : ∀ key frame,space.tables.table key=some frame → tables.table key=some frame
  /-- Pages stay. -/
  leaf : tables.leaf=space.tables.leaf
  /-- New tables lie above the page. -/
  fresh : ∀ key,tables.table key≠none → space.tables.table key=none →
    1≤key.1 ∧ key.1≤3 ∧ key.2=page/512^key.1
  /-- No table lacks its parent. -/
  closed : space.tables.Closed → tables.Closed

/-- One more place is in use, with a frame that was not. -/
theorem Exclusive.place {later : List ℕ} {fresh : Tables} {spot : Tables.Place}
    (hspace : Exclusive ⟨root,owned,tables⟩)
    (hplaces : fresh.frameAt=Function.update tables.frameAt spot (some frame))
    (hlater : ∀ found∈owned,found∈later) (hin : frame∈later) (hroot : frame≠root)
    (hunused : ∀ place,tables.frameAt place≠some frame) : Exclusive ⟨root,later,fresh⟩ := by
  have hplace : ∀ place found,fresh.frameAt place=some found →
      place=spot ∧ found=frame ∨ tables.frameAt place=some found := by
    intro place found hfound
    rw [hplaces,Function.update_apply] at hfound
    split at hfound
    · rename_i hspot
      exact Or.inl ⟨hspot,(Option.some.inj hfound).symm⟩
    · exact Or.inr hfound
  refine ⟨hlater root hspace.root,fun place hfound => ?_,fun place found hfound => ?_,
    fun place other found hone htwo => ?_⟩
  · rcases hplace place _ hfound with ⟨-,hsame⟩|hold
    · exact hroot hsame.symm
    · exact hspace.notRoot place hold
  · rcases hplace place found hfound with ⟨-,rfl⟩|hold
    · exact hin
    · exact hlater found (hspace.owned place found hold)
  · rcases hplace place found hone with ⟨rfl,rfl⟩|hfirst <;>
      rcases hplace other _ htwo with ⟨rfl,hsame⟩|hsecond
    · rfl
    · exact absurd hsecond (hunused other)
    · exact absurd (hsame▸hfirst) (hunused place)
    · exact hspace.once place other found hfirst hsecond

/-- The creation of one table. -/
theorem Mapping.create {leafFrame height : ℕ} {later : TrackingFrameAllocator}
    (hmapping : Mapping space rest page leafFrame tables source) (hlow : 1≤height)
    (hhigh : height≤3) (habove : height<3 → tables.table (height+1,page/512^(height+1))≠none)
    (hnone : tables.table (height,page/512^height)=none)
    (halloc : source.allocateFrame=some (frame,later)) :
    Mapping space rest page leafFrame (tables.setTable (height,page/512^height) (some frame))
      later := by
  obtain ⟨howned,hbacks,hfresh⟩ := fresh_tracking halloc hmapping.backs
  obtain ⟨extra,hextra,hplaces⟩ := hmapping.owned
  have hthere : ∀ key,tables.table key≠none →
      (tables.setTable (height,page/512^height) (some frame)).table key≠none := by
    intro key hkey
    by_cases hsame : key=(height,page/512^height)
    · rw [hsame,Tables.table_setTable_self]
      exact Option.some_ne_none frame
    · rwa [Tables.table_setTable_other _ hsame]
  refine ⟨hbacks,?_,⟨hmapping.unused.1,?_⟩,⟨extra++[frame],?_,?_⟩,?_,hmapping.leaf,?_,?_⟩
  · rw [howned]
    refine hmapping.exclusive.place (Tables.frameAt_setTable _ _ _)
      (fun _ h => List.mem_append_left _ h) (List.mem_append_right _ List.mem_cons_self) ?_
      fun place h => hfresh (hmapping.exclusive.owned place frame h)
    rintro rfl
    exact hfresh hmapping.exclusive.root
  · intro place hplace
    rw [Tables.frameAt_setTable,Function.update_apply] at hplace
    split at hplace
    · cases hplace
      refine hfresh ?_
      rw [hextra]
      exact List.mem_append_right _ List.mem_cons_self
    · exact hmapping.unused.2 place hplace
  · rw [howned,hextra,List.append_assoc,List.cons_append]
  · intro found
    rw [List.mem_append,List.mem_singleton,hplaces]
    constructor
    · rintro (⟨key,hkey,hbefore⟩|rfl)
      · exact ⟨key,Tables.table_setTable_kept hnone hkey _,hbefore⟩
      · exact ⟨(height,page/512^height),Tables.table_setTable_self _ _ _,
          none_of_kept (hmapping.table _) hnone⟩
    · rintro ⟨key,hkey,hbefore⟩
      by_cases hsame : key=(height,page/512^height)
      · rw [hsame,Tables.table_setTable_self] at hkey
        exact Or.inr (Option.some.inj hkey).symm
      · rw [Tables.table_setTable_other _ hsame] at hkey
        exact Or.inl ⟨key,hkey,hbefore⟩
  · exact fun key found hkey => Tables.table_setTable_kept hnone (hmapping.table key found hkey) _
  · intro key hkey hbefore
    by_cases hsame : key=(height,page/512^height)
    · rw [hsame]
      exact ⟨hlow,hhigh,rfl⟩
    · rw [Tables.table_setTable_other _ hsame] at hkey
      exact hmapping.fresh key hkey hbefore
  · intro hclosed
    have hsource := hmapping.closed hclosed
    refine ⟨fun key hkey => ?_,fun lower index hkey hlower => ?_,fun other hleaf => ?_⟩
    · by_cases hsame : key=(height,page/512^height)
      · rw [hsame]
        exact ⟨hlow,hhigh⟩
      · rw [Tables.table_setTable_other _ hsame] at hkey
        exact hsource.height key hkey
    · by_cases hsame : (lower,index)=(height,page/512^height)
      · obtain ⟨rfl,rfl⟩ := Prod.mk.inj hsame
        rw [Tables.div_pow_succ]
        exact hthere _ (habove hlower)
      · rw [Tables.table_setTable_other _ hsame] at hkey
        exact hthere _ (hsource.above lower index hkey hlower)
    · exact hthere _ (hsource.leaf other hleaf)

/-- A list with more frames that has the frames in use. -/
theorem Exclusive.withOwned {later : List ℕ} (hspace : Exclusive ⟨root,owned,tables⟩)
    (hlater : ∀ frame∈owned,frame=root ∨ (∃ place,tables.frameAt place=some frame) → frame∈later) :
    Exclusive ⟨root,later,tables⟩ :=
  ⟨hlater root hspace.root (Or.inl rfl),hspace.notRoot,
    fun place frame h => hlater frame (hspace.owned place frame h) (Or.inr ⟨place,h⟩),hspace.once⟩

/-- The tables above a page are created for a new leaf frame. -/
theorem mapping_createTables {page frame : ℕ} {tracking : TrackingFrameAllocator}
    (hspace : Exclusive space) (hbacks : Backs books allocator (space.ownedFrames+rest))
    (halloc : (TrackingFrameAllocator.mk allocator space.ownedFrames).allocateFrame=
      some (frame,tracking)) : Mapping space rest page frame
      (Tables.createTables TrackingFrameAllocator.allocateFrame page [3,2,1] space.tables
        tracking).2.1
      (Tables.createTables TrackingFrameAllocator.allocateFrame page [3,2,1] space.tables
        tracking).2.2 := by
  obtain ⟨howned,hlater,hfresh⟩ := fresh_tracking halloc hbacks
  refine Tables.createTables_induct (P := Mapping space rest page frame) ?_ le_rfl (by omega) ?_
  · intro tables source height found later hlow hhigh habove hnone hfound hmapping
    exact hmapping.create hlow hhigh habove hnone hfound
  · refine ⟨hlater,?_,⟨?_,fun place h => hfresh (hspace.owned place frame h)⟩,
      ⟨[],howned,fun _ => iff_of_false List.not_mem_nil
        fun ⟨_,hkey,hnone⟩ => Option.some_ne_none _ (hkey.symm.trans hnone)⟩,fun _ _ h => h,rfl,
      fun key h hnone => absurd hnone h,fun h => h⟩
    · rw [howned]
      exact hspace.withOwned fun frame h _ => List.mem_append_left _ h
    · rintro rfl
      exact hfresh hspace.root

/-- What `map_in_address_space` makes of a space. -/
structure MapsPage (space : AddressSpace) (page : ℕ) (flags : Flags)
    (result : Except String Unit×AddressSpace×BootInfoFrameAllocator) : Prop where
  /-- Frames in use are exclusive. -/
  exclusive : Exclusive result.2.1
  /-- The space has grown above the page. -/
  grown : Grown space result.2.1 fun other => other=page
  /-- No table lacks its parent. -/
  closed : space.tables.Closed → result.2.1.tables.Closed
  /-- On success the page was not mapped and is mapped now, through all of its tables. -/
  mapped : result.1=.ok () → space.tables.leaf page=none ∧
    (∃ frame,result.2.1.tables.leaf=Function.update space.tables.leaf page (some ⟨frame,flags⟩)) ∧
    ∀ height,1≤height → height≤3 → result.2.1.tables.table (height,page/512^height)≠none
  /-- On failure no page is mapped. -/
  failed : result.1≠.ok () → result.2.1.tables.leaf=space.tables.leaf

theorem mapsPage_refused (hspace : Exclusive space) (page : ℕ) (flags : Flags) (reason : String)
    (allocator : BootInfoFrameAllocator) :
    MapsPage space page flags (.error reason,space,allocator) :=
  ⟨hspace,Grown.refl space _,fun h => h,nofun,fun _ => rfl⟩

section

variable (hmapping : Mapping space rest page frame tables source)
include hmapping

/-- The tables are there: the page is mapped. -/
theorem Mapping.install {flags : Flags}
    (hall : ∀ height,1≤height → height≤3 → tables.table (height,page/512^height)≠none)
    (hfree : tables.leaf page=none) :
    MapsPage space page flags (.ok (),
      {space with ownedFrames := source.owned,tables := tables.setLeaf page (some ⟨frame,flags⟩)},
      source.inner) := by
  obtain ⟨extra,hextra,hplaces⟩ := hmapping.owned
  have hpage : space.tables.leaf page=none := by rw [← hmapping.leaf]; exact hfree
  have hin : frame∈source.owned := by
    rw [hextra]
    exact List.mem_append_right _ List.mem_cons_self
  refine ⟨hmapping.exclusive.place (Tables.frameAt_setLeaf _ _ _) (fun _ h => h) hin
    hmapping.unused.1 hmapping.unused.2,?_,?_,fun _ => ⟨hpage,⟨frame,?_⟩,hall⟩,fun h => absurd rfl h⟩
  · refine ⟨rfl,hmapping.table,fun other leaf hleaf => ?_,fun key hkey hnone => ?_,
      ⟨frame::extra,hextra,fun found => ?_⟩⟩
    · have hother : other≠page := by
        rintro rfl
        rw [hpage] at hleaf
        cases hleaf
      change (tables.setLeaf page _).leaf other=_
      rw [Tables.leaf_setLeaf_other _ hother,hmapping.leaf,hleaf]
    · obtain ⟨hlow,hhigh,hindex⟩ := hmapping.fresh key hkey hnone
      exact ⟨hlow,hhigh,page,rfl,hindex⟩
    · rw [List.mem_cons,hplaces]
      constructor
      · rintro (rfl|⟨key,hkey,hnone⟩)
        · refine ⟨.inr page,?_,?_⟩
          · change ((tables.setLeaf page _).leaf page).map Leaf.frame=_
            rw [Tables.leaf_setLeaf_self]
            rfl
          · rw [Tables.frameAt,hpage]
            rfl
        · exact ⟨.inl key,hkey,hnone⟩
      · rintro ⟨key|other,hplace,hnone⟩
        · exact Or.inr ⟨key,hplace,hnone⟩
        · change ((tables.setLeaf page _).leaf other).map Leaf.frame=_ at hplace
          by_cases hother : other=page
          · rw [hother,Tables.leaf_setLeaf_self] at hplace
            exact Or.inl (Option.some.inj hplace).symm
          · rw [Tables.leaf_setLeaf_other _ hother,hmapping.leaf] at hplace
            exact absurd (hplace.symm.trans hnone) (Option.some_ne_none _)
  · intro hclosed
    have htables := hmapping.closed hclosed
    refine ⟨htables.height,htables.above,fun other hleaf => ?_⟩
    by_cases hother : other=page
    · rw [hother]
      have hone := hall 1 le_rfl (by omega)
      rw [pow_one] at hone
      exact hone
    · change (tables.setLeaf page _).leaf other≠none at hleaf
      rw [Tables.leaf_setLeaf_other _ hother] at hleaf
      exact htables.leaf other hleaf
  · rw [← hmapping.leaf]
    rfl

/-- A table is missing, or the page is mapped: the leaf frame goes back. -/
theorem Mapping.abandon {flags : Flags}
    (hfresh : frame∉space.ownedFrames) (reason : String) (allocator : BootInfoFrameAllocator) :
    MapsPage space page flags (.error reason,
      {space with ownedFrames := source.owned.erase frame,tables := tables},allocator) := by
  obtain ⟨extra,hextra,hplaces⟩ := hmapping.owned
  have herase : source.owned.erase frame=space.ownedFrames++extra := by
    rw [hextra,List.erase_append_right _ hfresh,List.erase_cons_head]
  refine ⟨hmapping.exclusive.withOwned fun found hmem hused => ?_,?_,hmapping.closed,nofun,
    fun _ => hmapping.leaf⟩
  · refine (List.mem_erase_of_ne ?_).mpr hmem
    rintro rfl
    rcases hused with hroot|⟨place,hplace⟩
    · exact hmapping.unused.1 hroot
    · exact hmapping.unused.2 place hplace
  · refine ⟨rfl,hmapping.table,fun other leaf hleaf => ?_,fun key hkey hnone => ?_,
      ⟨extra,herase,fun found => ?_⟩⟩
    · change tables.leaf other=_
      rw [hmapping.leaf,hleaf]
    · obtain ⟨hlow,hhigh,hindex⟩ := hmapping.fresh key hkey hnone
      exact ⟨hlow,hhigh,page,rfl,hindex⟩
    · rw [hplaces]
      constructor
      · exact fun ⟨key,hkey,hnone⟩ => ⟨.inl key,hkey,hnone⟩
      · rintro ⟨key|other,hplace,hnone⟩
        · exact ⟨key,hplace,hnone⟩
        · change (tables.leaf other).map Leaf.frame=_ at hplace
          rw [hmapping.leaf] at hplace
          exact absurd (hplace.symm.trans hnone) (Option.some_ne_none _)

end

/-- `map_in_address_space` keeps the frames in use exclusive, whether it
succeeds or fails. -/
theorem mapsPage_mapInAddressSpace (hspace : Exclusive space)
    (hbacks : Backs books allocator (space.ownedFrames+rest)) (page : ℕ) (flags : Flags) :
    MapsPage space page flags (mapInAddressSpace space page flags allocator) := by
  rw [mapInAddressSpace]
  split
  · exact mapsPage_refused hspace page flags _ allocator
  split
  · exact mapsPage_refused hspace page flags _ allocator
  rename_i frame tracking halloc
  have hmapping := @mapping_createTables _ _ _ page _ _ hspace hbacks halloc
  have hcomplete := @Tables.createTables_complete _ TrackingFrameAllocator.allocateFrame page
    [3,2,1] space.tables tracking
  have hfresh := (fresh_tracking halloc hbacks).2.2
  dsimp only [Tables.mapTo]
  split
  · rename_i hdone
    rw [if_pos rfl]
    refine hmapping.install (fun height hlow hhigh => hcomplete hdone.1 height ?_) hdone.2
    interval_cases height <;> simp
  · rw [if_neg Bool.false_ne_true]
    exact hmapping.abandon hfresh _ _

end

/-! ## Giving frames back -/

section

variable {allocator : BootInfoFrameAllocator} {space later : AddressSpace}

/-- Places are cleared, and their frames leave the list. -/
structure Shrunk (space later : AddressSpace) (gone : List ℕ) : Prop where
  /-- The root stays. -/
  root : later.pml4Frame=space.pml4Frame
  /-- The frames leave the list. -/
  owned : later.ownedFrames=space.ownedFrames.filter fun frame => frame∉gone
  /-- What is in use was in use. -/
  places : ∀ place frame,later.tables.frameAt place=some frame →
    space.tables.frameAt place=some frame
  /-- The frames are those of the cleared places. -/
  gone : ∀ frame,frame∈gone ↔
    ∃ place,space.tables.frameAt place=some frame ∧ later.tables.frameAt place=none

/-- A frame that is in use is not one of a cleared place. -/
theorem Shrunk.stays (hshrunk : Shrunk space later gone) (hspace : Exclusive space)
    {place : Tables.Place} (hplace : later.tables.frameAt place=some frame) : frame∉gone := by
  intro hmem
  obtain ⟨other,hother,hnone⟩ := (hshrunk.gone frame).mp hmem
  have hsame := hspace.once place other frame (hshrunk.places place frame hplace) hother
  rw [← hsame,hplace] at hnone
  cases hnone

theorem Shrunk.exclusive (hshrunk : Shrunk space later gone) (hspace : Exclusive space) :
    Exclusive later := by
  refine ⟨?_,fun place h => ?_,fun place frame h => ?_,fun place other frame hone htwo => ?_⟩
  · rw [hshrunk.root,hshrunk.owned]
    refine List.mem_filter.mpr ⟨hspace.root,decide_eq_true fun hmem => ?_⟩
    obtain ⟨place,hplace,-⟩ := (hshrunk.gone _).mp hmem
    exact hspace.notRoot place hplace
  · rw [hshrunk.root] at h
    exact hspace.notRoot place (hshrunk.places place _ h)
  · rw [hshrunk.owned]
    exact List.mem_filter.mpr ⟨hspace.owned place frame (hshrunk.places place frame h),
      decide_eq_true (hshrunk.stays hspace h)⟩
  · exact hspace.once place other frame (hshrunk.places place frame hone)
      (hshrunk.places other frame htwo)

/-- Places are cleared in two steps. -/
theorem Shrunk.trans {last : AddressSpace} {first second : List ℕ}
    (hfirst : Shrunk space later first) (hsecond : Shrunk later last second) :
    Shrunk space last (first++second) := by
  refine ⟨hsecond.root.trans hfirst.root,?_,
    fun place frame h => hfirst.places place frame (hsecond.places place frame h),
    fun frame => ?_⟩
  · rw [hsecond.owned,hfirst.owned,List.filter_filter]
    refine List.filter_congr fun frame _ => ?_
    by_cases hone : frame∈first <;> by_cases htwo : frame∈second <;> simp [hone,htwo]
  · rw [List.mem_append,hfirst.gone,hsecond.gone]
    constructor
    · rintro (⟨place,hplace,hnone⟩|⟨place,hplace,hnone⟩)
      · exact ⟨place,hplace,none_of_kept (hsecond.places place) hnone⟩
      · exact ⟨place,hfirst.places place frame hplace,hnone⟩
    · rintro ⟨place,hplace,hnone⟩
      cases hmiddle : later.tables.frameAt place with
      | none => exact Or.inl ⟨place,hplace,hmiddle⟩
      | some found =>
        rw [hfirst.places place found hmiddle] at hplace
        exact Or.inr ⟨place,hmiddle.trans hplace,hnone⟩

/-- A space that has grown gives back only what it got since. -/
theorem Shrunk.grown (hshrunk : Shrunk space later gone) (hspace : Exclusive space)
    (hnodup : space.ownedFrames.Nodup) (hgrown : Grown before space pages)
    (htable : ∀ key frame,before.tables.table key=some frame → later.tables.table key=some frame)
    (hleaf : ∀ page leaf,before.tables.leaf page=some leaf → later.tables.leaf page=some leaf) :
    Grown before later pages := by
  obtain ⟨extra,hextra,hplaces⟩ := hgrown.owned
  have hbefore : ∀ place frame,before.tables.frameAt place=some frame →
      later.tables.frameAt place=some frame := by
    intro place frame hplace
    cases place with
    | inl key => exact htable key frame hplace
    | inr page =>
      obtain ⟨leaf,hpage,hframe⟩ := Option.map_eq_some_iff.mp hplace
      rw [Tables.frameAt,hleaf page leaf hpage,Option.map_some,hframe]
  have hgone : ∀ frame∈gone,frame∈extra := by
    intro frame hmem
    obtain ⟨place,hplace,hnone⟩ := (hshrunk.gone frame).mp hmem
    exact (hplaces frame).mpr ⟨place,hplace,none_of_kept (hbefore place) hnone⟩
  have hkept : before.ownedFrames.filter (fun frame => frame∉gone)=before.ownedFrames := by
    rw [hextra,List.nodup_append'] at hnodup
    refine List.filter_eq_self.mpr fun frame hmem => decide_eq_true fun hin => ?_
    exact hnodup.2.2 hmem (hgone frame hin)
  refine ⟨hshrunk.root.trans hgrown.root,htable,hleaf,fun key hkey hnone => ?_,
    ⟨extra.filter fun frame => frame∉gone,?_,fun frame => ?_⟩⟩
  · obtain ⟨frame,hframe⟩ := Option.ne_none_iff_exists'.mp hkey
    have hplace : space.tables.table key=some frame := hshrunk.places (.inl key) frame hframe
    exact hgrown.fresh key (by rw [hplace]; exact Option.some_ne_none frame) hnone
  · rw [hshrunk.owned,hextra,List.filter_append,hkept]
  · rw [List.mem_filter,decide_eq_true_eq]
    constructor
    · rintro ⟨hmem,hstays⟩
      obtain ⟨place,hplace,hnone⟩ := (hplaces frame).mp hmem
      refine ⟨place,?_,hnone⟩
      cases hlater : later.tables.frameAt place with
      | none => exact absurd ((hshrunk.gone frame).mpr ⟨place,hplace,hlater⟩) hstays
      | some found => rw [← hplace,hshrunk.places place found hlater]
    · rintro ⟨place,hplace,hnone⟩
      exact ⟨(hplaces frame).mpr ⟨place,hshrunk.places place frame hplace,hnone⟩,
        hshrunk.stays hspace hplace⟩

/-- Frames that the list has are released one after another. -/
theorem foldl_deallocateFrame {frames : List ℕ} (hframes : frames.Nodup)
    {tracking : TrackingFrameDeallocator} (howned : tracking.owned.Nodup)
    (hmem : ∀ frame∈frames,frame∈tracking.owned) :
    frames.foldl TrackingFrameDeallocator.deallocateFrame tracking=
      ⟨frames.foldl BootInfoFrameAllocator.deallocateFrame tracking.inner,
        tracking.owned.filter fun frame => frame∉frames,tracking.released+frames.length,
        tracking.ownershipMismatch⟩ := by
  induction frames generalizing tracking with
  | nil => simp
  | cons frame rest ih =>
    obtain ⟨hfresh,hrest⟩ := List.nodup_cons.mp hframes
    obtain ⟨hfirst,hothers⟩ := List.forall_mem_cons.mp hmem
    have hstep : tracking.deallocateFrame frame=
        ⟨tracking.inner.deallocateFrame frame,tracking.owned.erase frame,tracking.released+1,
          tracking.ownershipMismatch⟩ := by
      rw [TrackingFrameDeallocator.deallocateFrame,if_pos hfirst]
    rw [List.foldl_cons,List.foldl_cons,hstep,ih hrest (howned.erase frame) fun other hother => by
      refine (List.mem_erase_of_ne ?_).mpr (hothers other hother)
      rintro rfl
      exact hfresh hother]
    dsimp only
    rw [howned.erase_eq_filter,List.filter_filter,List.length_cons,Nat.add_assoc,
      Nat.add_comm 1]
    congr 1
    refine List.filter_congr fun other _ => ?_
    by_cases hsame : other=frame <;> simp [hsame]

/-- A user address. -/
theorem checkedUserVirtAddr_ok_iff {raw : ℕ} : checkedUserVirtAddr raw=.ok () ↔
    userSpaceBase ≤ raw ∧ raw<userSpaceBase+userSpaceSize := by
  rw [checkedUserVirtAddr]
  split
  · rename_i hcanonical
    simp only [canonical,Bool.or_eq_false_iff,decide_eq_false_iff_not,not_lt,not_le] at hcanonical
    simp only [reduceCtorEq,userSpaceBase,userSpaceSize,false_iff,not_and,not_lt]
    omega
  · split
    · rename_i houtside
      simp only [reduceCtorEq,false_iff]
      omega
    · simp only [true_iff]
      omega

/-- The result of `clean_up_empty_tables_in_range` when its checks pass: the
empty tables above the pages are gone, and so are their frames. -/
structure CleansTables (space : AddressSpace) (rawStart pageCount : ℕ)
    (allocator : BootInfoFrameAllocator) (removed : List (ℕ×ℕ))
    (result : Except String ℕ×AddressSpace×BootInfoFrameAllocator) : Prop where
  /-- The call succeeds. -/
  ok : result.1=.ok removed.length
  /-- The root stays. -/
  root : result.2.1.pml4Frame=space.pml4Frame
  /-- The tables are swept. -/
  swept : Tables.Swept 3 (fun page => rawStart/4096≤page ∧ page < rawStart/4096+pageCount)
    space.tables result.2.1.tables removed
  /-- The frames of removed tables leave the list. -/
  owned : result.2.1.ownedFrames=
    space.ownedFrames.filter fun frame => frame∉removed.filterMap space.tables.table

theorem cleansTables {rawStart pageCount : ℕ} (hspace : Exclusive space)
    (hclosed : space.tables.Closed) (hnodup : space.ownedFrames.Nodup) (hcount : pageCount≠0)
    (haligned : rawStart%4096=0) (hlow : userSpaceBase ≤ rawStart)
    (hhigh : rawStart+pageCount*4096≤userSpaceBase+userSpaceSize) :
    ∃ removed,CleansTables space rawStart pageCount allocator removed
      (cleanUpEmptyTablesInRange space rawStart pageCount allocator) := by
  have hbase : userSpaceBase+userSpaceSize<2^47 := by decide
  have hfirst : rawStart/4096≤(rawStart+(pageCount*4096-1))/4096 := by omega
  have hlast : ∀ page,page≤(rawStart+(pageCount*4096-1))/4096 ↔
      page < rawStart/4096+pageCount := by
    intro page
    omega
  -- the whole range is below the root table
  have hunder : ∀ page,rawStart/4096≤page → page≤(rawStart+(pageCount*4096-1))/4096 →
      page/512^(3+1)=0 := by
    intro page _ hpage
    rw [hlast] at hpage
    exact Nat.div_eq_of_lt (by norm_num; omega)
  have hcleans : Tables.Cleans TrackingFrameDeallocator.deallocateFrame 3 0 _ _
      (Tables.cleanUp TrackingFrameDeallocator.deallocateFrame 4 0 (rawStart/4096)
        ((rawStart+(pageCount*4096-1))/4096)
        (space.tables,⟨allocator,space.ownedFrames,0,false⟩)) :=
    Tables.cleanUp_cleans le_rfl hfirst hunder hclosed
  obtain ⟨removed,hswept,hsink,-⟩ := hcleans
  have hfound : ∀ frame∈removed.filterMap space.tables.table,
      ∃ key∈removed,space.tables.table key=some frame := fun frame h => List.mem_filterMap.mp h
  have hframes : (removed.filterMap space.tables.table).Nodup := by
    refine List.Nodup.filterMap (fun first second frame hone htwo => ?_) hswept.nodup
    exact Sum.inl.inj (hspace.once (.inl first) (.inl second) frame hone htwo)
  have hcounted : (removed.filterMap space.tables.table).length=removed.length := by
    rw [List.length_filterMap_eq_countP,List.countP_eq_length]
    intro key hkey
    exact Option.isSome_iff_ne_none.mpr (hswept.found key hkey)
  rw [foldl_deallocateFrame hframes hnodup fun frame hmem => by
    obtain ⟨key,-,hkey⟩ := hfound frame hmem
    exact hspace.owned (.inl key) frame hkey] at hsink
  have hchecks : checkedUserVirtAddr rawStart=.ok () ∧
      checkedUserVirtAddr (rawStart+(pageCount*4096-1))=.ok () := by
    rw [checkedUserVirtAddr_ok_iff,checkedUserVirtAddr_ok_iff]
    omega
  refine ⟨removed,?_⟩
  rw [cleanUpEmptyTablesInRange,if_neg (by omega),if_neg (by omega),if_neg (by omega),hchecks.1,
    hchecks.2]
  generalize Tables.cleanUp TrackingFrameDeallocator.deallocateFrame 4 0 _ _ _=cleaned
    at hswept hsink ⊢
  obtain ⟨answer,tables,sink⟩ := cleaned
  dsimp only at hswept hsink
  subst hsink
  refine ⟨?_,rfl,hswept.congr fun page => and_congr_right fun _ => hlast page,rfl⟩
  change Except.ok (0+_)=_
  rw [Nat.zero_add,hcounted]

/-- Cleaning up sweeps the tables above its range, or refuses the range and
changes nothing. -/
theorem cleansTables_or_refused (rawStart pageCount : ℕ) (hspace : Exclusive space)
    (hclosed : space.tables.Closed) (hnodup : space.ownedFrames.Nodup) :
    (∃ removed,CleansTables space rawStart pageCount allocator removed
      (cleanUpEmptyTablesInRange space rawStart pageCount allocator)) ∨
    ∃ reason,cleanUpEmptyTablesInRange space rawStart pageCount allocator=
      (.error reason,space,allocator) := by
  refine or_iff_not_imp_left.mpr fun hrefused => ?_
  rw [cleanUpEmptyTablesInRange]
  split
  · exact ⟨_,rfl⟩
  rename_i hchecks
  dsimp only at hchecks
  split at hchecks
  · cases hchecks
  split at hchecks
  · cases hchecks
  split at hchecks
  · cases hchecks
  obtain ⟨_,hfirst,hlast⟩ := bind_ok_iff.mp hchecks
  rw [checkedUserVirtAddr_ok_iff] at hfirst hlast
  exact absurd (cleansTables hspace hclosed hnodup (by omega) (by omega) hfirst.1 (by omega)) hrefused

/-- Cleaning up clears the places of the removed tables. -/
theorem CleansTables.shrunk {rawStart pageCount : ℕ} {removed : List (ℕ×ℕ)}
    {result : Except String ℕ×AddressSpace×BootInfoFrameAllocator}
    (hcleans : CleansTables space rawStart pageCount allocator removed result) :
    Shrunk space result.2.1 (removed.filterMap space.tables.table) := by
  refine ⟨hcleans.root,hcleans.owned,fun place frame hplace => ?_,fun frame => ?_⟩
  · cases place with
    | inl key => exact (hcleans.swept.table_of hplace).2
    | inr page =>
      rw [Tables.frameAt,hcleans.swept.leaf] at hplace
      exact hplace
  · rw [List.mem_filterMap]
    constructor
    · rintro ⟨key,hkey,hframe⟩
      refine ⟨.inl key,hframe,?_⟩
      rw [Tables.frameAt,hcleans.swept.table,if_pos hkey]
    · rintro ⟨key|page,hplace,hnone⟩
      · refine ⟨key,?_,hplace⟩
        by_contra hstays
        rw [Tables.frameAt,hcleans.swept.table_stays hstays] at hnone
        exact Option.some_ne_none _ (hplace.symm.trans hnone)
      · rw [Tables.frameAt,hcleans.swept.leaf] at hnone
        exact absurd (hplace.symm.trans hnone) (Option.some_ne_none _)

end

/-! ## Unmapping a range -/

section

variable {allocator : BootInfoFrameAllocator} {space : AddressSpace}

/-- A whole number of pages is cut into pages. -/
theorem chunksFrom_aligned {fuel address : ℕ} (hfuel : count≤fuel) (haligned : address%4096=0) :
    chunksFrom fuel address (count*4096)=
      (List.range count).map fun page => (address+page*4096,4096) := by
  induction count generalizing fuel address with
  | zero =>
    cases fuel with
    | zero => rfl
    | succ fuel => simp [chunksFrom]
  | succ count ih =>
    obtain ⟨fuel,rfl⟩ : ∃ less,fuel=less+1 := Nat.exists_eq_succ_of_ne_zero (by omega)
    have hpart : min (4096-address%4096) ((count+1)*4096)=4096 := by omega
    have hlength : (count+1)*4096-4096=count*4096 := by omega
    rw [chunksFrom,if_neg (by omega),hpart]
    dsimp only
    rw [hlength,ih (by omega) (by omega),List.range_succ_eq_map,List.map_cons,List.map_map,
      Nat.zero_mul,Nat.add_zero]
    refine congrArg _ (List.map_congr_left fun page _ => ?_)
    simp only [Function.comp_apply,Prod.mk.injEq,and_true]
    omega

theorem chunks_aligned (haligned : start%4096=0) (count : ℕ) :
    chunks start (count*4096)=(List.range count).map fun page => (start+page*4096,4096) :=
  chunksFrom_aligned (by omega) haligned

/-- A page that a user can read, or write where this is asked for. -/
theorem checkUserPage_ok_iff {requireWritable : Bool} {address : ℕ} :
    checkUserPage space requireWritable address=.ok () ↔
      ∃ leaf,space.tables.leaf (address/4096)=some leaf ∧ leaf.flags.present=true ∧
        leaf.flags.userAccessible=true ∧ (requireWritable=true → leaf.flags.writable=true) := by
  rw [checkUserPage,translateInAddressSpace]
  cases space.tables.leaf (address/4096) with
  | none => simp
  | some leaf =>
    obtain ⟨frame,⟨present,writable,user,noExecute⟩⟩ := leaf
    cases present <;> cases user <;> cases writable <;> cases requireWritable <;> simp

/-- A range that a user can access: it is in the user region, and the pages of
its parts can be accessed. -/
theorem validateUserRange_parts {len : ℕ} {requireWritable : Bool} :
    validateUserRange space start len requireWritable=.ok () ↔
      userSpaceBase ≤ start ∧ start<userSpaceBase+userSpaceSize ∧
        start+len ≤ userSpaceBase+userSpaceSize ∧
        ∀ part∈chunks start len,checkUserPage space requireWritable part.1=.ok () := by
  have hbase : userSpaceBase+userSpaceSize<2^47 := by decide
  rw [validateUserRange,bind_ok_iff,← forM_ok_iff]
  constructor
  · rintro ⟨_,hfirst,hrest⟩
    rw [checkedUserVirtAddr_ok_iff] at hfirst
    dsimp only at hrest
    split at hrest
    · cases hrest
    split at hrest
    · cases hrest
    exact ⟨hfirst.1,hfirst.2,by omega,hrest⟩
  · rintro ⟨hlow,hhigh,hend,hall⟩
    refine ⟨(),checkedUserVirtAddr_ok_iff.mpr ⟨hlow,hhigh⟩,?_⟩
    rw [if_neg (by omega),if_neg (by omega)]
    exact hall

/-- A range of whole pages that a user can access. -/
theorem validateUserRange_ok_iff (haligned : start%4096=0) {requireWritable : Bool} :
    validateUserRange space start (count*4096) requireWritable=.ok () ↔
      userSpaceBase ≤ start ∧ start<userSpaceBase+userSpaceSize ∧
        start+count*4096≤userSpaceBase+userSpaceSize ∧
        ∀ page<count,checkUserPage space requireWritable (start+page*4096)=.ok () := by
  rw [validateUserRange_parts,chunks_aligned haligned]
  simp

/-- The records of a range: one for each page, with its mapping. -/
structure Collected (tables : Tables) (start count : ℕ) (records : List UnmapRecord) : Prop where
  /-- The pages in order. -/
  pages : records.map UnmapRecord.page=List.range' start count
  /-- The mapping of the page. -/
  leaf : ∀ record∈records,tables.leaf record.page=some ⟨record.frame,record.flags⟩
  /-- It is valid. -/
  present : ∀ record∈records,record.flags.present=true

theorem Collected.append {first second : ℕ} {others : List UnmapRecord}
    (hfirst : Collected tables start first records)
    (hsecond : Collected tables (start+first) second others) :
    Collected tables start (first+second) (records++others) := by
  refine ⟨?_,fun record hmem => ?_,fun record hmem => ?_⟩
  · rw [List.map_append,hfirst.pages,hsecond.pages,List.range'_append_1]
  · rcases List.mem_append.mp hmem with hone|htwo
    · exact hfirst.leaf record hone
    · exact hsecond.leaf record htwo
  · rcases List.mem_append.mp hmem with hone|htwo
    · exact hfirst.present record hone
    · exact hsecond.present record htwo

theorem Collected.length (hcollected : Collected tables start count records) :
    records.length=count := by
  have hpages := congrArg List.length hcollected.pages
  rwa [List.length_map,List.length_range'] at hpages

/-- The record of one page. -/
theorem unmapRecord_ok_iff {raw : ℕ} (haligned : raw%4096=0)
    (hraw : raw<userSpaceBase+userSpaceSize) {record : UnmapRecord} :
    unmapRecord space raw=.ok record ↔ record.page=raw/4096 ∧ record.frame%4096=0 ∧
      space.tables.leaf record.page=some ⟨record.frame,record.flags⟩ := by
  have hbase : userSpaceBase+userSpaceSize<2^47 := by decide
  have hcanonical : canonical raw=true := by
    simp only [canonical,Bool.or_eq_true,decide_eq_true_eq]
    omega
  rw [unmapRecord,hcanonical,if_neg (by simp),translateInAddressSpace]
  cases hleaf : space.tables.leaf (raw/4096) with
  | none =>
    simp only [Option.map_none,reduceCtorEq,false_iff,not_and]
    intro hpage _
    rw [hpage,hleaf]
    simp
  | some leaf =>
    simp only [Option.map_some,haligned,Nat.add_zero]
    obtain ⟨page,frame,flags⟩ := record
    dsimp only
    split
    · rename_i hodd
      simp only [reduceCtorEq,false_iff,not_and]
      rintro rfl hframe hsame
      rw [hleaf] at hsame
      cases hsame
      exact hodd hframe
    · rename_i heven
      rw [if_neg (by omega),Except.ok.injEq]
      constructor
      · intro hsame
        cases hsame
        exact ⟨rfl,by omega,hleaf⟩
      · rintro ⟨rfl,-,hsame⟩
        rw [hleaf] at hsame
        cases hsame
        rfl

/-- `collect_unmap_records` returns the records of the range, if there are
pages in it and all are accessible. -/
theorem collectUnmapRecords_ok (hrun : collectUnmapRecords space start count=.ok records) :
    count≠0 ∧ start%4096=0 ∧ userSpaceBase ≤ start ∧ start+count*4096≤userSpaceBase+userSpaceSize ∧
      Collected space.tables (start/4096) count records := by
  rw [collectUnmapRecords] at hrun
  split at hrun
  · cases hrun
  rename_i hrange
  split at hrun
  · cases hrun
  obtain ⟨_,hvalid,hrun⟩ := bind_ok_iff.mp hrun
  have haligned : start%4096=0 := by omega
  obtain ⟨hlow,-,hend,hall⟩ := (validateUserRange_ok_iff haligned).mp hvalid
  have hrecord : ∀ record∈records,∃ page<count,record.page=start/4096+page ∧
      space.tables.leaf record.page=some ⟨record.frame,record.flags⟩ := by
    intro record hmem
    obtain ⟨page,hpage,hstep⟩ := mapM_mem hrun hmem
    rw [List.mem_range] at hpage
    obtain ⟨hindex,-,hleaf⟩ := (unmapRecord_ok_iff (by omega) (by omega)).mp hstep
    exact ⟨page,hpage,by omega,hleaf⟩
  refine ⟨by omega,haligned,hlow,hend,?_,fun record hmem => ?_,fun record hmem => ?_⟩
  · rw [List.range'_eq_map_range]
    refine mapM_map (fun page hpage record hstep => ?_) hrun
    rw [List.mem_range] at hpage
    obtain ⟨hindex,-⟩ := (unmapRecord_ok_iff (by omega) (by omega)).mp hstep
    omega
  · obtain ⟨page,-,-,hleaf⟩ := hrecord record hmem
    exact hleaf
  · obtain ⟨page,hpage,hindex,hleaf⟩ := hrecord record hmem
    obtain ⟨leaf,hfound,hpresent,-⟩ := checkUserPage_ok_iff.mp (hall page hpage)
    rw [show (start+page*4096)/4096=record.page by omega,hleaf] at hfound
    cases hfound
    exact hpresent

/-- The range is collected if all its pages are mapped for the user, to
aligned frames. -/
theorem collectUnmapRecords_isOk (hcount : count≠0) (haligned : start%4096=0)
    (hlow : userSpaceBase ≤ start) (hend : start+count*4096≤userSpaceBase+userSpaceSize)
    (hmapped : ∀ page<count,∃ leaf,space.tables.leaf (start/4096+page)=some leaf ∧ leaf.flags.present=true ∧ leaf.flags.userAccessible=true ∧ leaf.frame%4096=0) :
    ∃ records,collectUnmapRecords space start count=.ok records := by
  have hbase : userSpaceBase+userSpaceSize<2^47 := by decide
  have hvalid : validateUserRange space start (count*4096) false=.ok () := by
    refine (validateUserRange_ok_iff haligned).mpr ⟨hlow,by omega,hend,fun page hpage => ?_⟩
    obtain ⟨leaf,hleaf,hpresent,huser,-⟩ := hmapped page hpage
    refine checkUserPage_ok_iff.mpr ⟨leaf,?_,hpresent,huser,by simp⟩
    rw [show (start+page*4096)/4096=start/4096+page by omega,hleaf]
  obtain ⟨records,hrecords⟩ : ∃ records,(List.range count).mapM (fun page =>
      unmapRecord space (start+page*4096))=.ok records := by
    refine mapM_isOk fun page hpage => ?_
    rw [List.mem_range] at hpage
    obtain ⟨leaf,hleaf,-,-,hframe⟩ := hmapped page hpage
    refine ⟨⟨start/4096+page,leaf.frame,leaf.flags⟩,?_⟩
    exact (unmapRecord_ok_iff (by omega) (by omega)).mpr
      ⟨by dsimp only; omega,hframe,hleaf⟩
  refine ⟨records,?_⟩
  rw [collectUnmapRecords,if_neg (by omega),if_neg (by omega),hvalid]
  exact hrecords

/-- Records that match the tables are all unmapped. -/
theorem unmapMatching_all (hdistinct : (records.map UnmapRecord.page).Nodup)
    (hleaf : ∀ record∈records,tables.leaf record.page=some ⟨record.frame,record.flags⟩)
    (hpresent : ∀ record∈records,record.flags.present=true) : unmapMatching records tables=
      (records.length,tables.clear (records.map UnmapRecord.page)) := by
  induction records generalizing tables with
  | nil => simp [unmapMatching,Tables.clear]
  | cons record rest ih =>
    rw [List.map_cons,List.nodup_cons] at hdistinct
    obtain ⟨hfirst,hothers⟩ := List.forall_mem_cons.mp hleaf
    obtain ⟨hvalid,hvalids⟩ := List.forall_mem_cons.mp hpresent
    have hunmap : tables.unmap record.page=some (record.frame,tables.setLeaf record.page none) := by
      rw [Tables.unmap,hfirst]
      exact if_pos hvalid
    have hrest := @ih (tables.setLeaf record.page none) hdistinct.2 (fun other hmem => by
      rw [Tables.leaf_setLeaf_other]
      · exact hothers other hmem
      · intro hsame
        exact hdistinct.1 (hsame▸List.mem_map_of_mem hmem)) hvalids
    have hclear : (tables.setLeaf record.page none).clear (rest.map UnmapRecord.page)=
        tables.clear (record.page::rest.map UnmapRecord.page) := by
      rw [← Tables.clear_singleton,Tables.clear_clear,List.singleton_append]
    rw [unmapMatching,hunmap]
    dsimp only
    rw [if_pos rfl,hrest,hclear]
    rfl

/-- Distinct frames are all kept when they are sorted. -/
theorem unmapRecordFrames_isSome (hdistinct : (records.map UnmapRecord.frame).Nodup) :
    ∃ frames,unmapRecordFrames records=some frames ∧
      frames.Perm (records.map UnmapRecord.frame) := by
  have hperm := List.perm_insertionSort (·≤·) (records.map UnmapRecord.frame)
  have hsorted : ((records.map UnmapRecord.frame).insertionSort (·≤·)).destutter (·≠·)=
      (records.map UnmapRecord.frame).insertionSort (·≤·) := by
    refine List.destutter_of_isChain _ _ (List.Pairwise.isChain ?_)
    exact (hperm.nodup_iff.mpr hdistinct)
  refine ⟨_,if_pos ?_,?_⟩
  · rw [hsorted,hperm.length_eq,List.length_map]
  · rw [hsorted]
    exact hperm

/-- Owned frames can be removed. -/
theorem planUnmapOwnership_isSome {frames : List ℕ} (howned : owned.Nodup) (hframes : frames.Nodup)
    (hsubset : ∀ frame∈frames,frame∈owned) :
    ∃ removals,planUnmapOwnership owned frames=some removals := by
  have hlength : (ownershipPositions frames 0 owned).length=frames.length := by
    rw [← List.length_map OwnershipRemoval.frame,map_ownershipPositions]
    refine ((List.perm_ext_iff_of_nodup (howned.filter _) hframes).mpr fun frame => ?_).length_eq
    rw [List.mem_filter,decide_eq_true_eq]
    exact ⟨fun h => h.2,fun h => ⟨hsubset frame h,h⟩⟩
  exact ⟨_,if_neg (not_not.mpr hlength)⟩

/-- Removals from a duplicate-free list take out their frames. -/
theorem removeOwned_filter {removals : List OwnershipRemoval} (howned : owned.Nodup)
    (hremovable : Removable removals owned) : removeOwned removals owned=(true,
      owned.filter fun frame => frame∉removals.map OwnershipRemoval.frame) := by
  induction removals generalizing owned with
  | nil => simp [removeOwned]
  | cons removal rest ih =>
    obtain ⟨hfound,hrest⟩ := hremovable
    obtain ⟨hindex,hframe⟩ := List.getElem?_eq_some_iff.mp hfound
    have herase : owned.eraseIdx removal.index=owned.filter (·!=removal.frame) := by
      rw [← howned.erase_eq_filter,← hframe,howned.erase_getElem]
    rw [removeOwned,if_neg (not_not.mpr hfound),ih (howned.eraseIdx _) hrest,herase,
      List.filter_filter]
    congr 1
    refine List.filter_congr fun frame _ => ?_
    by_cases hsame : frame=removal.frame <;> simp [hsame]

/-- The result of a successful `unmap_range_in_address_space_atomic`. -/
structure UnmapsRange (space : AddressSpace) (start count : ℕ) (records : List UnmapRecord)
    (result : Except String Unit×AddressSpace×BootInfoFrameAllocator) : Prop where
  /-- The records of the range. -/
  collected : Collected space.tables start count records
  /-- The call succeeds. -/
  ok : result.1=.ok ()
  /-- The root stays. -/
  root : result.2.1.pml4Frame=space.pml4Frame
  /-- The pages are not mapped any more. -/
  tables : result.2.1.tables=space.tables.clear (List.range' start count)
  /-- Their frames leave the list. -/
  owned : result.2.1.ownedFrames=
    space.ownedFrames.filter fun frame => frame∉records.map UnmapRecord.frame

/-- The frames of collected records are distinct and owned. -/
theorem Collected.frames (hspace : Exclusive space)
    (hcollected : Collected space.tables start count records) :
    (records.map UnmapRecord.page).Nodup ∧ (records.map UnmapRecord.frame).Nodup ∧
      ∀ record∈records,space.tables.frameAt (.inr record.page)=some record.frame := by
  have hpages : (records.map UnmapRecord.page).Nodup := by
    rw [hcollected.pages]
    exact List.nodup_range'
  have hplace : ∀ record∈records,
      space.tables.frameAt (.inr record.page)=some record.frame := by
    intro record hmem
    rw [Tables.frameAt,hcollected.leaf record hmem]
    rfl
  refine ⟨hpages,?_,hplace⟩
  refine (List.nodup_map_iff_inj_on (List.Nodup.of_map _ hpages)).mpr fun first hfirst second hsecond hsame => ?_
  have hpage := Sum.inr.inj (hspace.once _ _ _ (hplace first hfirst)
    (hsame▸hplace second hsecond))
  exact List.inj_on_of_nodup_map hpages hfirst hsecond hpage

/-- Once its records are collected, a range is unmapped. -/
theorem unmapsRange {rawStart count : ℕ} {records : List UnmapRecord} (hspace : Exclusive space)
    (hnodup : space.ownedFrames.Nodup)
    (hcollect : collectUnmapRecords space rawStart count=.ok records) :
    UnmapsRange space (rawStart/4096) count records
      (unmapRangeInAddressSpaceAtomic space rawStart count allocator) := by
  obtain ⟨-,-,-,-,hcollected⟩ := collectUnmapRecords_ok hcollect
  obtain ⟨hpages,hdistinct,hplace⟩ := hcollected.frames hspace
  obtain ⟨frames,hframes,hperm⟩ := unmapRecordFrames_isSome hdistinct
  have hmem : ∀ frame∈frames,frame∈space.ownedFrames := by
    intro frame hframe
    obtain ⟨record,hrecord,rfl⟩ := List.mem_map.mp (hperm.mem_iff.mp hframe)
    exact hspace.owned _ _ (hplace record hrecord)
  obtain ⟨removals,hplan⟩ :=
    planUnmapOwnership_isSome hnodup (hperm.nodup_iff.mpr hdistinct) hmem
  have hunmap := unmapMatching_all hpages hcollected.leaf hcollected.present
  have hremove := removeOwned_filter hnodup (removable_planUnmapOwnership hplan)
  have hremoved := (planUnmapOwnership_frames hnodup hplan).trans hperm
  rw [unmapRangeInAddressSpaceAtomic,hcollect]
  dsimp only
  rw [hframes]
  dsimp only
  rw [hplan,unmapRecordsAtomic,hunmap]
  dsimp only
  rw [if_pos rfl]
  dsimp only [removeUnmappedOwnership]
  rw [hremove]
  refine ⟨hcollected,rfl,rfl,?_,?_⟩
  · rw [← hcollected.pages]
  · refine List.filter_congr fun frame _ => ?_
    rw [decide_eq_decide,hremoved.mem_iff]

/-- A range is unmapped, or the call fails and changes nothing. -/
theorem unmapsRange_or_refused (rawStart count : ℕ) (hspace : Exclusive space)
    (hnodup : space.ownedFrames.Nodup) : (∃ records,UnmapsRange space (rawStart/4096) count records
      (unmapRangeInAddressSpaceAtomic space rawStart count allocator)) ∨
    ∃ reason,unmapRangeInAddressSpaceAtomic space rawStart count allocator=
      (.error reason,space,allocator) := by
  rcases hcollect : collectUnmapRecords space rawStart count with reason|records
  · exact Or.inr ⟨reason,by rw [unmapRangeInAddressSpaceAtomic,hcollect]⟩
  · exact Or.inl ⟨records,unmapsRange hspace hnodup hcollect⟩

/-- Unmapping recorded pages clears their places. -/
theorem Collected.shrunk {later : AddressSpace}
    (hcollected : Collected space.tables start count records)
    (hroot : later.pml4Frame=space.pml4Frame)
    (htables : later.tables=space.tables.clear (List.range' start count))
    (hgone : ∀ frame,frame∈gone ↔ frame∈records.map UnmapRecord.frame)
    (howned : later.ownedFrames=space.ownedFrames.filter fun frame => frame∉gone) :
    Shrunk space later gone := by
  have hleaf : ∀ page,later.tables.leaf page=
      if page∈records.map UnmapRecord.page then none else space.tables.leaf page := by
    intro page
    rw [htables,hcollected.pages]
    rfl
  have htable : later.tables.table=space.tables.table := by
    rw [htables]
    rfl
  refine ⟨hroot,howned,fun place frame hplace => ?_,fun frame => ?_⟩
  · cases place with
    | inl key =>
      rw [Tables.frameAt,htable] at hplace
      exact hplace
    | inr page =>
      rw [Tables.frameAt,hleaf] at hplace
      split at hplace
      · cases hplace
      · exact hplace
  · rw [hgone,List.mem_map]
    constructor
    · rintro ⟨record,hrecord,rfl⟩
      refine ⟨.inr record.page,?_,?_⟩
      · rw [Tables.frameAt,hcollected.leaf record hrecord]
        rfl
      · rw [Tables.frameAt,hleaf,if_pos (List.mem_map_of_mem hrecord)]
        rfl
    · rintro ⟨key|page,hplace,hnone⟩
      · rw [Tables.frameAt,htable] at hnone
        exact absurd (hplace.symm.trans hnone) (Option.some_ne_none _)
      · rw [Tables.frameAt,hleaf] at hnone
        split at hnone
        · rename_i hmem
          obtain ⟨record,hrecord,rfl⟩ := List.mem_map.mp hmem
          rw [Tables.frameAt,hcollected.leaf record hrecord] at hplace
          exact ⟨record,hrecord,Option.some.inj hplace⟩
        · exact absurd (hplace.symm.trans hnone) (Option.some_ne_none _)

theorem UnmapsRange.shrunk {result : Except String Unit×AddressSpace×BootInfoFrameAllocator}
    (hunmaps : UnmapsRange space start count records result) :
    Shrunk space result.2.1 (records.map UnmapRecord.frame) :=
  hunmaps.collected.shrunk hunmaps.root hunmaps.tables (fun _ => Iff.rfl) hunmaps.owned

end

end TuwaiqOS.ExclusiveSpaces
