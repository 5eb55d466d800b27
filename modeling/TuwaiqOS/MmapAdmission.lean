import TuwaiqOS.FrameAdmission
import TuwaiqOS.MemoryCalls
import TuwaiqOS.UserMemory

/-!
# The admission bound of `MMAP`

`MMAP` is admitted if the allocator counts one frame for each page, one for
each table of the lowest level that the region touches, and two more. All
pages of the arena lie below one table of the second and one of the third
level, so the bound covers every table that can be missing, whatever tables
there are. While nobody else allocates, the frames that are counted cover
what is still to be mapped, and if the memory map is aligned they are there.
-/

namespace TuwaiqOS.MmapAdmission

open ResourceLedger FrameAllocator FrameAdmission PageTables AddressSpaces VmCalls ProcessMemory
open ElfImage MmapTransaction MemoryCalls
open FrameConservation (smallPaging backs_smallPaging)
open BootInfoFrameAllocator (books)

/-- `worst_case_frames` of `mmap_in_current_process`. -/
def worstCaseFrames (call : MmapCall) : ℕ :=
  call.pages+((call.finish-1)/2^21-call.start/2^21+1)+2

/-- The tables above the pages of a region of the arena. -/
def tablesAbove (call : MmapCall) : Finset (ℕ×ℕ) :=
  {(3,call.start/2^39),(2,call.start/2^30)}∪
    (Finset.Icc (call.start/2^21) ((call.finish-1)/2^21)).image fun index => (1,index)

/-- A call that was entered is served, and others only give frames back. -/
inductive Unrivalled (entered : Caller) : Caller → Prop where
  /-- The call was just entered. -/
  | start : Unrivalled entered entered
  /-- One more section. -/
  | advance {now later : Caller} (hpast : Unrivalled entered now)
    (hadvance : now.advance=some later) : Unrivalled entered later
  /-- Other tasks run. -/
  | others {now later : Caller} (hpast : Unrivalled entered now) (hbusy : now.Busy)
    (hothers : Interferes now later) (frames : List ℕ)
    (hfreed : later.vm.paging.allocator=
      frames.foldl BootInfoFrameAllocator.deallocateFrame now.vm.paging.allocator) :
    Unrivalled entered later

/-! ## What mapping costs -/

variable {page : ℕ} {stage : MmapStage}

section

variable {P : ℕ → BootInfoFrameAllocator → Prop}
  (halloc : ∀ count allocator frame later,
    BootInfoFrameAllocator.allocateFrame allocator=some (frame,later) →
      P (count+1) allocator → P count later)
  (hfree : ∀ count allocator frame,P count allocator →
    P count (BootInfoFrameAllocator.deallocateFrame allocator frame))
  (hless : ∀ count allocator,P (count+1) allocator → P count allocator)
  {keys : Finset (ℕ×ℕ)}

include halloc in
/-- The tracking allocator pays from the global one. -/
theorem tracking_pays (count : ℕ) (source : TrackingFrameAllocator) (frame : ℕ)
    (later : TrackingFrameAllocator) (hfound : source.allocateFrame=some (frame,later))
    (hpays : P (count+1) source.inner) : P count later.inner := by
  obtain ⟨⟨first,inner⟩,hinner,hpair⟩ := Option.map_eq_some_iff.mp hfound
  cases hpair
  exact halloc count source.inner _ _ hinner hpays

include halloc hfree hless in
/-- Mapping a page costs one frame and the missing tables. -/
theorem mapInAddressSpace_pays (space : AddressSpace) (flags : Flags)
    {allocator : BootInfoFrameAllocator}
    (hkeys : ∀ height,1≤height → height≤3 → (height,page/512^height)∈keys)
    (hpays : P (space.tables.missing keys+1) allocator) :
    P ((mapInAddressSpace space page flags allocator).2.1.tables.missing keys)
      (mapInAddressSpace space page flags allocator).2.2 := by
  rw [mapInAddressSpace]
  split
  · exact hless _ _ hpays
  · split
    · exact hless _ _ hpays
    · rename_i frame tracking hfound
      have hleaf := tracking_pays halloc _ _ _ _ hfound hpays
      have hcreated := Tables.createTables_pays
        (P := fun count source => P count (TrackingFrameAllocator.inner source))
        (tracking_pays halloc) hkeys _ _ hleaf
      rw [Tables.mapTo]
      split
      · exact hcreated
      · exact hfree _ _ _ hcreated

include halloc hfree hless in
/-- Mapping pages costs one frame each and the missing tables. -/
theorem mapPages_pays (flags : Flags) (pages : List ℕ) (space : AddressSpace)
    (allocator : BootInfoFrameAllocator)
    (hkeys : ∀ page∈pages,∀ height,1≤height → height≤3 → (height,page/512^height)∈keys)
    (hpays : P (space.tables.missing keys+pages.length) allocator) :
    P ((mapPages flags pages space allocator).2.1.tables.missing keys)
      (mapPages flags pages space allocator).2.2 := by
  induction pages generalizing space allocator with
  | nil => exact hpays
  | cons page rest ih =>
    obtain ⟨hfirst,hothers⟩ := List.forall_mem_cons.mp hkeys
    -- the frames for the other pages are kept aside
    have hstep := mapInAddressSpace_pays
      (P := fun count allocator => P (count+rest.length) allocator)
      (fun count allocator frame later hfound h =>
        halloc _ allocator frame later hfound (by rwa [Nat.add_right_comm] at h))
      (fun count allocator frame h => hfree _ allocator frame h)
      (fun count allocator h => hless _ allocator (by rwa [Nat.add_right_comm] at h))
      space flags hfirst
      (by rwa [List.length_cons,Nat.add_comm rest.length,← Nat.add_assoc] at hpays)
    rw [mapPages]
    split
    · rename_i reason later hmap
      rw [hmap] at hstep
      have hdrop : ∀ count,P (later.1.tables.missing keys+count) later.2 →
          P (later.1.tables.missing keys) later.2 := by
        intro count
        induction count with
        | zero => exact id
        | succ count ihc => exact fun h => ihc (hless _ _ h)
      exact hdrop _ hstep
    · rename_i middle next hmap
      rw [hmap] at hstep
      exact ih _ _ hothers hstep

end

/-! ## What the allocator counts -/

theorem allocatedCount_allocateFrame {allocator later : BootInfoFrameAllocator} {frame : ℕ}
    (halloc : allocator.allocateFrame=some (frame,later)) :
    later.allocatedCount=allocator.allocatedCount+1 := by
  rw [BootInfoFrameAllocator.allocateFrame] at halloc
  split at halloc
  · cases halloc
    rfl
  · obtain ⟨found,-,hpair⟩ := Option.map_eq_some_iff.mp halloc
    cases hpair
    rfl

/-- The count of an aligned memory map covers this many frames. -/
structure Covers (count : ℕ) (allocator : BootInfoFrameAllocator) : Prop where
  /-- Regions lie in physical memory. -/
  physical : Physical allocator.memoryRegions
  /-- The memory map is aligned. -/
  aligned : Aligned allocator.memoryRegions
  /-- The frames are counted. -/
  counted : count ≤ allocator.framesAvailable

namespace Covers

variable {count : ℕ} {allocator later : BootInfoFrameAllocator} {frame : ℕ}

theorem allocate (halloc : allocator.allocateFrame=some (frame,later))
    (hcovers : Covers (count+1) allocator) : Covers count later := by
  have hregions := BootInfoFrameAllocator.memoryRegions_allocateFrame halloc
  have hcounted := hcovers.counted
  have hspent := framesAvailable_allocateFrame halloc
  refine ⟨?_,?_,by omega⟩ <;> rw [hregions]
  · exact hcovers.physical
  · exact hcovers.aligned

theorem deallocate (hcovers : Covers count allocator) :
    Covers count (allocator.deallocateFrame frame) := by
  have hcounted := hcovers.counted
  refine ⟨hcovers.physical,hcovers.aligned,?_⟩
  rw [framesAvailable_deallocateFrame]
  omega

theorem deallocateAll (frames : List ℕ) (hcovers : Covers count allocator) :
    Covers count (frames.foldl BootInfoFrameAllocator.deallocateFrame allocator) := by
  induction frames generalizing allocator with
  | nil => exact hcovers
  | cons frame rest ih => exact ih hcovers.deallocate

theorem mono {fewer : ℕ} (hcovers : Covers count allocator) (hfewer : fewer ≤ count) :
    Covers fewer allocator :=
  ⟨hcovers.physical,hcovers.aligned,Nat.le_trans hfewer hcovers.counted⟩

/-- Covered frames are there. -/
theorem some (hcovers : Covers (count+1) allocator) : allocator.allocateFrame≠none := by
  obtain ⟨frame,later,halloc,-⟩ :=
    allocateFrame_available hcovers.physical hcovers.aligned hcovers.counted
  rw [halloc]
  exact Option.some_ne_none _

end Covers

/-! ## Mapping succeeds -/

section

variable {keys : Finset (ℕ×ℕ)} {space : AddressSpace} {allocator : BootInfoFrameAllocator}

/-- A free page is mapped if its frame and the missing tables are covered. -/
theorem mapInAddressSpace_covered (flags : Flags)
    (hregion : pml4Index (page*4096)=userRegionPml4Index)
    (hkeys : ∀ height,1≤height → height≤3 → (height,page/512^height)∈keys)
    (hfree : space.tables.leaf page=none) (hcovers : Covers (space.tables.missing keys+1) allocator) :
    (mapInAddressSpace space page flags allocator).1=.ok () := by
  rw [mapInAddressSpace,if_neg (not_not.mpr hregion)]
  have hsome := hcovers.some
  cases halloc : allocator.allocateFrame with
  | none => exact absurd halloc hsome
  | some found =>
    obtain ⟨frame,inner⟩ := found
    have htracking : (TrackingFrameAllocator.mk allocator space.ownedFrames).allocateFrame=
        some (frame,⟨inner,space.ownedFrames++[frame]⟩) := by
      rw [TrackingFrameAllocator.allocateFrame,halloc]
      rfl
    rw [htracking]
    dsimp only
    have hpaid := Tables.createTables_pays
      (P := fun count source => Covers count (TrackingFrameAllocator.inner source))
      (tracking_pays fun _ _ _ _ => Covers.allocate) hkeys space.tables
      ⟨inner,space.ownedFrames++[frame]⟩ (hcovers.allocate halloc)
    have hleaf : (Tables.createTables TrackingFrameAllocator.allocateFrame page [3,2,1]
        space.tables ⟨inner,space.ownedFrames++[frame]⟩).2.1.leaf=space.tables.leaf :=
      Tables.createTables_leaf page [3,2,1] space.tables _
    cases hcreated : (Tables.createTables TrackingFrameAllocator.allocateFrame page [3,2,1]
        space.tables ⟨inner,space.ownedFrames++[frame]⟩).1 with
    | true =>
      have hmapped : (Tables.mapTo TrackingFrameAllocator.allocateFrame space.tables page
          ⟨frame,flags⟩ ⟨inner,space.ownedFrames++[frame]⟩).1=true := by
        rw [Tables.mapTo,if_pos ⟨hcreated,by rw [hleaf,hfree]⟩]
      rw [if_pos hmapped]
    | false =>
      -- a table is missing, so its frame was covered
      obtain ⟨height,hmem,hmissing,hnone⟩ := Tables.createTables_fails hcreated
      have hheight : 1≤height ∧ height≤3 := by
        simp only [List.mem_cons,List.not_mem_nil,or_false] at hmem
        omega
      have hcount : 0<(Tables.createTables TrackingFrameAllocator.allocateFrame page [3,2,1]
          space.tables ⟨inner,space.ownedFrames++[frame]⟩).2.1.missing keys :=
        Finset.card_pos.mpr ⟨_,Finset.mem_filter.mpr
          ⟨hkeys height hheight.1 hheight.2,hmissing⟩⟩
      exact absurd (Option.map_eq_none_iff.mp hnone) (hpaid.mono hcount).some

/-- Free pages are mapped if their frames and the missing tables are
covered. -/
theorem mapPages_covered {rest : Multiset ℕ} (flags : Flags) (pages : List ℕ)
    (hspace : ExclusiveSpaces.Exclusive space)
    (hbacks : Backs books allocator (space.ownedFrames+rest)) (hdistinct : pages.Nodup)
    (hregion : ∀ page∈pages,pml4Index (page*4096)=userRegionPml4Index)
    (hkeys : ∀ page∈pages,∀ height,1≤height → height≤3 → (height,page/512^height)∈keys)
    (hfree : ∀ page∈pages,space.tables.leaf page=none)
    (hcovers : Covers (space.tables.missing keys+pages.length) allocator) :
    (mapPages flags pages space allocator).1=pages.length := by
  induction pages generalizing space allocator with
  | nil => rfl
  | cons page others ih =>
    obtain ⟨hregion,hregions⟩ := List.forall_mem_cons.mp hregion
    obtain ⟨hkey,hkeys⟩ := List.forall_mem_cons.mp hkeys
    obtain ⟨hpage,hpages⟩ := List.forall_mem_cons.mp hfree
    obtain ⟨hnew,hdistinct⟩ := List.nodup_cons.mp hdistinct
    rw [List.length_cons] at hcovers ⊢
    have hmaps := ExclusiveSpaces.mapsPage_mapInAddressSpace hspace hbacks page flags
    have hmoved := moves_mapInAddressSpace space page flags allocator rest hbacks
    have hok := mapInAddressSpace_covered flags hregion hkey hpage
      (hcovers.mono (by omega))
    have hleft := mapInAddressSpace_pays
      (P := fun count allocator => Covers (count+others.length) allocator)
      (fun count allocator frame later halloc h =>
        Covers.allocate halloc (h.mono (by omega)))
      (fun count allocator frame h => h.deallocate)
      (fun count allocator h => h.mono (by omega)) space flags hkey
      (hcovers.mono (by omega))
    obtain ⟨-,⟨frame,hleaf⟩,-⟩ := hmaps.mapped hok
    rw [mapPages]
    split
    · rename_i reason later hmap
      rw [hmap] at hok
      cases hok
    · rename_i middle next hmap
      rw [hmap] at hmaps hmoved hleft hleaf
      have hstill : ∀ other∈others,middle.tables.leaf other=none := by
        intro other hmem
        have hother : other≠page := by
          rintro rfl
          exact hnew hmem
        rw [hleaf,Function.update_of_ne hother]
        exact hpages other hmem
      dsimp only
      rw [ih hmaps.exclusive hmoved hdistinct hregions hkeys hstill hleft]

end

/-! ## A served request -/

section

variable {process : ProcessState} {before : AddressSpace} {call : MmapCall} {spare : ℕ}

/-- The bound counts all tables above the region. -/
theorem card_tablesAbove (call : MmapCall) :
    (tablesAbove call).card+call.pages ≤ worstCaseFrames call := by
  have hunion := Finset.card_union_le {(3,call.start/2^39),(2,call.start/2^30)}
    ((Finset.Icc (call.start/2^21) ((call.finish-1)/2^21)).image fun index => (1,index))
  have hpair := Finset.card_le_two (a := (3,call.start/2^39)) (b := (2,call.start/2^30))
  have himage := Finset.card_image_le (s := Finset.Icc (call.start/2^21) ((call.finish-1)/2^21))
    (f := fun index => (1,index))
  rw [Nat.card_Icc] at himage
  rw [tablesAbove,worstCaseFrames]
  omega

/-- The tables above a page of the region. -/
theorem mem_tablesAbove (hcall : Accepted process before call)
    (hpage : Piece call 0 call.pages page) :
    ∀ height,1≤height → height≤3 → (height,page/512^height)∈tablesAbove call := by
  obtain ⟨haligned,hlow,hhigh⟩ := hcall.region
  have hfinish := hcall.finish
  obtain ⟨hfirst,hlast⟩ := hpage
  rw [userSpaceBase] at hlow hhigh
  rw [userSpaceSize] at hhigh
  intro height hpos hle
  simp only [tablesAbove,Finset.mem_union,Finset.mem_insert,Finset.mem_singleton,
    Finset.mem_image,Finset.mem_Icc,Prod.mk.injEq]
  interval_cases height
  · exact Or.inr ⟨page/512,by omega,rfl,by omega⟩
  · exact Or.inl (Or.inr ⟨rfl,by omega⟩)
  · exact Or.inl (Or.inl ⟨rfl,by omega⟩)

/-- The pages of the region are private. -/
theorem pml4Index_region (hcall : Accepted process before call)
    (hpage : Piece call 0 call.pages page) : pml4Index (page*4096)=userRegionPml4Index := by
  obtain ⟨haligned,hlow,hhigh⟩ := hcall.region
  obtain ⟨hfirst,hlast⟩ := hpage
  rw [userSpaceBase] at hlow hhigh
  rw [userSpaceSize] at hhigh
  rw [userRegionPml4Index,pml4Index,pml4Index,userSpaceBase]
  omega

/-- The frames that are still needed at a stage of a request are covered, and
some to spare. -/
def Funded (call : MmapCall) (spare : ℕ) (vm : VmState) : MmapStage → Prop
  | .checking _ => Covers (worstCaseFrames call+spare) vm.paging.allocator
  | .mapping mapped => ∀ space,vm.process.addressSpace=some space →
    Covers (space.tables.missing (tablesAbove call)+(call.pages-mapped)+spare) vm.paging.allocator
  | .installing mapped => ∀ space,vm.process.addressSpace=some space →
    Covers (space.tables.missing (tablesAbove call)+(call.pages-mapped)+spare) vm.paging.allocator
  | .zeroing _ => Covers spare vm.paging.allocator
  | .protecting _ => Covers spare vm.paging.allocator
  | .committing => Covers spare vm.paging.allocator
  | _ => True

/-- The pages that were checked before a stage were free. -/
def Checked (before : AddressSpace) (call : MmapCall) : MmapStage → Prop
  | .checking checked => ∀ page,Piece call 0 checked page → before.tables.leaf page=none
  | .mapping _ => ∀ page,Piece call 0 call.pages page → before.tables.leaf page=none
  | .installing _ => ∀ page,Piece call 0 call.pages page → before.tables.leaf page=none
  | _ => True

/-- Frames that others give back do not hurt. -/
theorem Funded.others {vm later : VmState} {frames : List ℕ} (hfunded : Funded call spare vm stage)
    (hprocess : later.process=vm.process)
    (hfreed : later.paging.allocator= frames.foldl BootInfoFrameAllocator.deallocateFrame vm.paging.allocator) :
    Funded call spare later stage := by
  unfold Funded at *
  rw [hprocess,hfreed]
  split at hfunded
  · exact hfunded.deallocateAll frames
  · exact fun space hspace => (hfunded space hspace).deallocateAll frames
  · exact fun space hspace => (hfunded space hspace).deallocateAll frames
  · exact hfunded.deallocateAll frames
  · exact hfunded.deallocateAll frames
  · exact hfunded.deallocateAll frames
  · trivial

variable {vm : VmState} {rest : Multiset ℕ}

section

variable (hcall : Accepted process before call)
include hcall

/-- A batch of a funded request is mapped, and the rest stays covered. -/
theorem installing_funded
    (hbacks : Backs books vm.paging.allocator (vm.process.ownedFrames+rest)) {mapped : ℕ}
    (hinv : MmapInv process before call vm (.installing mapped))
    (hchecked : Checked before call (.installing mapped))
    (hfunded : Funded call spare vm (.installing mapped)) :
    (mmapStep call vm (.installing mapped)).1= .next (.mapping (mapped+batchOf call.pages mapped)) ∧
      Funded call spare (mmapStep call vm (.installing mapped)).2
        (.mapping (mapped+batchOf call.pages mapped)) := by
  obtain ⟨now,hprocess,hmapped,hstaged⟩ := hinv
  have hspace : vm.process.addressSpace=some now := by rw [hprocess]
  have hnext : vm.process.mmapNext=call.start := by rw [hprocess,hcall.start]
  have hbatch : mapped+batchOf call.pages mapped ≤ call.pages := by
    rw [batchOf]
    omega
  have hpieces : ∀ page∈List.range' (call.start/4096+mapped) (batchOf call.pages mapped),
      Piece call 0 call.pages page ∧ ¬Piece call 0 mapped page := by
    intro page hmem
    rw [List.mem_range'_1] at hmem
    rw [Piece,Piece]
    omega
  have hcovers : Covers (now.tables.missing (tablesAbove call)+(call.pages-mapped)+spare)
      vm.paging.allocator := hfunded now hspace
  have hkeys := fun page hmem => mem_tablesAbove hcall (hpieces page hmem).1
  have hcount := mapPages_covered mmapStagingFlags
    (List.range' (call.start/4096+mapped) (batchOf call.pages mapped)) hstaged.exclusive
    (backs_now hbacks hprocess) List.nodup_range' (fun page hmem => pml4Index_region hcall (hpieces page hmem).1) hkeys
    (fun page hmem => by
      rw [hstaged.others page (hpieces page hmem).2]
      exact hchecked page (hpieces page hmem).1)
    (hcovers.mono (by rw [List.length_range']; omega))
  have hleft := mapPages_pays
    (P := fun count allocator =>
      Covers (count+(call.pages-(mapped+batchOf call.pages mapped))+spare) allocator)
    (fun count allocator frame later halloc h => Covers.allocate halloc (h.mono (by omega)))
    (fun count allocator frame h => h.deallocate)
    (fun count allocator h => h.mono (by omega)) mmapStagingFlags _ now vm.paging.allocator hkeys
    (hcovers.mono (by rw [List.length_range']; omega))
  rw [List.length_range'] at hcount
  rw [mmapStep,hspace]
  dsimp only
  rw [if_neg (not_not.mpr hnext)]
  refine ⟨if_pos hcount,fun space hsame => ?_⟩
  have hlast := Option.some.inj hsame
  rw [← hlast]
  exact hleft

/-- A section that checks pages. -/
theorem checking_funded {checked : ℕ} {next : MmapStage}
    (hinv : MmapInv process before call vm (.checking checked))
    (hchecked : Checked before call (.checking checked))
    (hfunded : Funded call spare vm (.checking checked))
    (hnext : (mmapStep call vm (.checking checked)).1=.next next) :
    Checked before call next ∧ Funded call spare (mmapStep call vm (.checking checked)).2 next := by
  obtain ⟨now,hprocess,hnow⟩ := hinv
  have hsame : now=before := hnow
  subst hsame
  have hspace : vm.process.addressSpace=some now := by rw [hprocess]
  rw [mmapStep] at hnext ⊢
  split at hnext
  · rename_i hdone
    rw [if_pos hdone]
    cases hnext
    refine ⟨fun page hpage => hchecked page ?_,fun space hother => ?_⟩
    · rw [Piece] at hpage ⊢
      omega
    · -- all tables may be missing
      have hcard := card_tablesAbove call
      have hmissing := space.tables.missing_le_card (tablesAbove call)
      exact Covers.mono hfunded (by omega)
  · rename_i hmore
    rw [if_neg hmore,hspace]
    rw [hspace] at hnext
    dsimp only at hnext ⊢
    split at hnext
    · rename_i hclear
      rw [if_pos hclear]
      cases hnext
      refine ⟨fun page hpage => ?_,hfunded⟩
      by_cases hold : page<call.start/4096+checked
      · exact hchecked page ⟨hpage.1,hold⟩
      · rw [Piece] at hpage
        have hoffset : page-(call.start/4096+checked)∈List.range (batchOf call.pages checked) :=
          List.mem_range.mpr (by omega)
        have hnone := List.all_eq_true.mp hclear.2 _ hoffset
        rw [Option.isNone_iff_eq_none,translateInAddressSpace,Option.map_eq_none_iff,
          hcall.page] at hnone
        rwa [show call.start/4096+(checked+(page-(call.start/4096+checked)))=page by omega]
          at hnone
    · cases hnext

/-- A section keeps what is still needed covered. -/
theorem mmapStep_funded
    (hbacks : Backs books vm.paging.allocator (vm.process.ownedFrames+rest)) {next : MmapStage}
    (hinv : MmapInv process before call vm stage) (hchecked : Checked before call stage)
    (hfunded : Funded call spare vm stage) (hnext : (mmapStep call vm stage).1=.next next) :
    Checked before call next ∧ Funded call spare (mmapStep call vm stage).2 next := by
  cases stage with
  | checking checked => exact checking_funded hcall hinv hchecked hfunded hnext
  | installing mapped =>
    obtain ⟨hdone,hleft⟩ := installing_funded hcall hbacks hinv hchecked hfunded
    rw [hdone] at hnext
    cases hnext
    exact ⟨hchecked,hleft⟩
  | mapping mapped =>
    obtain ⟨now,hprocess,-⟩ := hinv
    have hcovers := hfunded now (by rw [hprocess])
    generalize hafter : mmapStep call vm (.mapping mapped)=after at hnext ⊢
    rw [mmapStep] at hafter
    repeat' split at hafter
    all_goals cases hafter
    all_goals cases hnext
    · exact ⟨trivial,hcovers.mono (by omega)⟩
    all_goals first | exact ⟨hchecked,hfunded⟩ | exact ⟨trivial,trivial⟩
  | _ =>
    generalize hafter : mmapStep call vm _=after at hnext ⊢
    simp only [mmapStep] at hafter
    repeat' split at hafter
    all_goals cases hafter
    all_goals cases hnext
    all_goals first | exact ⟨trivial,trivial⟩ | exact ⟨trivial,hfunded⟩

end

/-! ### A request that does not fail -/

/-- The request has not failed so far. -/
def Forward : MmapStage → Prop
  | .rollingBack _ _ => False
  | .cleaning => False
  | _ => True

theorem batchOf_pos {total done : ℕ} (hmore : ¬total ≤ done) :
    0<batchOf total done ∧ done+batchOf total done ≤ total := by
  rw [batchOf,vmBatchPages]
  omega

/-- The pages of a batch lie in the region. -/
theorem piece_of_batch {done : ℕ} (hmore : ¬call.pages ≤ done)
    (hpage : page∈List.range' (call.start/4096+done) (batchOf call.pages done)) :
    Piece call 0 call.pages page := by
  obtain ⟨-,hbatch⟩ := batchOf_pos hmore
  rw [List.mem_range'_1] at hpage
  rw [Piece]
  omega

/-- Zeroing a batch of a region that is mapped succeeds. -/
theorem zeroing_succeeds (hcall : Accepted process before call) {zeroed : ℕ}
    (hinv : MmapInv process before call vm (.zeroing zeroed)) (hmore : ¬call.pages ≤ zeroed) :
    ∃ now ram,vm.process.addressSpace=some now ∧ zeroBytesInAddressSpace now
      (call.start+zeroed*4096) (batchOf call.pages zeroed*4096) vm.paging.ram=.ok ram := by
  obtain ⟨now,hprocess,hstaged,-⟩ := hinv
  obtain ⟨haligned,hlow,hhigh⟩ := hcall.region
  obtain ⟨hpos,hbatch⟩ := batchOf_pos hmore
  have hvalid : validateUserRange now (call.start+zeroed*4096) (batchOf call.pages zeroed*4096)
      true=.ok () := by
    rw [ExclusiveSpaces.validateUserRange_ok_iff (by omega)]
    refine ⟨by omega,by omega,by omega,fun page hpage => ?_⟩
    have hpiece : Piece call 0 call.pages ((call.start+zeroed*4096+page*4096)/4096) := by
      rw [Piece]
      omega
    obtain ⟨frame,hleaf⟩ := hstaged.leaf _ hpiece
    exact ExclusiveSpaces.checkUserPage_ok_iff.mpr ⟨_,hleaf,rfl,rfl,fun _ => rfl⟩
  obtain ⟨ram,hram⟩ := UserMemory.zeroBytesInAddressSpace_of_valid vm.paging.ram hvalid
  exact ⟨now,ram,by rw [hprocess],hram⟩

/-- Without an injected failure a funded request for a free region does not
fail. -/
theorem mmapStep_forward (hcall : Accepted process before call)
    (hbacks : Backs books vm.paging.allocator (vm.process.ownedFrames+rest))
    (hinv : MmapInv process before call vm stage)
    (hfree : ∀ page,Piece call 0 call.pages page → before.tables.leaf page=none)
    (hfunded : Funded call spare vm stage) (hfail : vm.failAfter=none) (hforward : Forward stage) :
    (mmapStep call vm stage).2.failAfter=none ∧
      ((∃ next,(mmapStep call vm stage).1=.next next ∧ Forward next) ∨
        (mmapStep call vm stage).1=.done call.start ∧
          Covers spare (mmapStep call vm stage).2.paging.allocator) := by
  cases stage with
  | checking checked =>
    obtain ⟨now,hprocess,hnow⟩ := hinv
    have hsame : now=before := hnow
    subst hsame
    have hspace : vm.process.addressSpace=some now := by rw [hprocess]
    have hnext : vm.process.mmapNext=call.start := by rw [hprocess,hcall.start]
    rw [mmapStep,hspace]
    by_cases hdone : call.pages ≤ checked
    · rw [if_pos hdone]
      exact ⟨hfail,Or.inl ⟨_,rfl,trivial⟩⟩
    · obtain ⟨-,hbatch⟩ := batchOf_pos hdone
      have hclear : (List.range (batchOf call.pages checked)).all (fun offset =>
          (translateInAddressSpace now (call.start+(checked+offset)*4096)).isNone)=true := by
        refine List.all_eq_true.mpr fun offset hoffset => ?_
        rw [List.mem_range] at hoffset
        rw [Option.isNone_iff_eq_none,translateInAddressSpace,Option.map_eq_none_iff,hcall.page]
        exact hfree _ (by rw [Piece]; omega)
      rw [if_neg hdone]
      dsimp only
      rw [if_pos ⟨hnext,hclear⟩]
      exact ⟨hfail,Or.inl ⟨_,rfl,trivial⟩⟩
  | mapping mapped =>
    rw [mmapStep,hfail]
    by_cases hdone : call.pages ≤ mapped
    · rw [if_pos hdone]
      exact ⟨hfail,Or.inl ⟨_,rfl,trivial⟩⟩
    · rw [if_neg hdone]
      exact ⟨hfail,Or.inl ⟨_,rfl,trivial⟩⟩
  | installing mapped =>
    obtain ⟨hdone,-⟩ := installing_funded hcall hbacks hinv hfree hfunded
    refine ⟨?_,Or.inl ⟨_,hdone,trivial⟩⟩
    rw [mmapStep]
    split
    · exact hfail
    · split <;> exact hfail
  | zeroing zeroed =>
    by_cases hdone : call.pages ≤ zeroed
    · rw [mmapStep,if_pos hdone]
      refine ⟨hfail,Or.inl ?_⟩
      cases call.writable <;> exact ⟨_,rfl,trivial⟩
    · obtain ⟨now,ram,hspace,hzero⟩ := zeroing_succeeds hcall hinv hdone
      rw [mmapStep,if_neg hdone,hspace]
      dsimp only
      rw [hzero]
      exact ⟨hfail,Or.inl ⟨_,rfl,trivial⟩⟩
  | protecting protectedPages =>
    obtain ⟨now,hprocess,-,hstaged,-⟩ := hinv
    have hspace : vm.process.addressSpace=some now := by rw [hprocess]
    rw [mmapStep,hspace]
    by_cases hdone : call.pages ≤ protectedPages
    · rw [if_pos hdone]
      exact ⟨hfail,Or.inl ⟨_,rfl,trivial⟩⟩
    · have hchanged := StagedSpaces.protectPages_mapped mmapFinalFlags
        (List.range' (call.start/4096+protectedPages) (batchOf call.pages protectedPages)) now
        (fun page hmem => by
          obtain ⟨frame,hleaf⟩ := hstaged.leaf page (piece_of_batch hdone hmem)
          rw [hleaf]
          exact Option.some_ne_none _)
      rw [if_neg hdone]
      refine ⟨hfail,Or.inl ⟨_,if_pos hchanged,trivial⟩⟩
  | committing =>
    obtain ⟨now,hprocess,-⟩ := hinv
    have hnext : vm.process.mmapNext=call.start := by rw [hprocess,hcall.start]
    rw [mmapStep,if_neg (not_not.mpr hnext)]
    exact ⟨hfail,Or.inr ⟨rfl,hfunded⟩⟩
  | rollingBack rolledBack mapped => exact hforward.elim
  | cleaning => exact hforward.elim

end

/-! ## Runs without rivals -/

section

variable {bytes : List UInt8} {regions : List (ℕ×ℕ)} {origin : VmState} {space : AddressSpace}
  {call : MmapCall} {spare : ℕ} {before entered now : Caller}

/-- Serving a call without rivals is serving it. -/
theorem Unrivalled.serving (hserved : Unrivalled entered now) :
    ∃ count,Serving entered count now := by
  induction hserved with
  | start => exact ⟨0,.start⟩
  | advance _ hadvance ih =>
    obtain ⟨count,hpast⟩ := ih
    exact ⟨count+1,hpast.advance hadvance⟩
  | others _ hbusy hothers frames _ ih =>
    obtain ⟨count,hpast⟩ := ih
    exact ⟨count,hpast.others hbusy hothers⟩

/-- What is still needed is covered at every time. -/
theorem Unrivalled.funded (hcall : Accepted origin.process space call)
    (hmapping : Mapping origin space call entered) (hbalanced : entered.Balanced)
    (hjob : entered.job=.mmap call (.checking 0))
    (hcovers : Covers (worstCaseFrames call+spare) entered.vm.paging.allocator)
    (hserved : Unrivalled entered now) :
    ∀ stage,now.job=.mmap call stage → Checked space call stage ∧ Funded call spare now.vm stage := by
  induction hserved with
  | start =>
    intro stage hstage
    rw [hjob] at hstage
    cases hstage
    refine ⟨fun page hpage => ?_,hcovers⟩
    rw [Piece] at hpage
    omega
  | @advance now later hpast hadvance ih =>
    intro next hnext
    obtain ⟨count,hserving⟩ := hpast.serving
    obtain ⟨hkept,hserved|hended⟩ := run_mapping hcall hmapping hbalanced hserving
    · obtain ⟨stage,hstage,hinv,-⟩ := hserved
      obtain ⟨hchecked,hfunded⟩ := ih stage hstage
      rw [Caller.advance,hstage] at hadvance
      cases hadvance
      refine mmapStep_funded hcall hkept.backs hinv hchecked hfunded ?_
      generalize (mmapStep call now.vm stage).1=outcome at hnext ⊢
      cases outcome <;> cases hnext
      rfl
    · exact absurd (busy_of_advance hadvance) hended.not_busy
  | others _ hbusy hothers frames hfreed ih =>
    intro stage hstage
    rw [hothers.job] at hstage
    obtain ⟨hchecked,hfunded⟩ := ih stage hstage
    exact ⟨hchecked,hfunded.others (hothers.process hbusy) hfreed⟩

/-- Without other tasks in between and without an injected failure, a funded
request for a free region succeeds. -/
theorem exists_sections_mapped (hcall : Accepted origin.process space call)
    (hfree : ∀ page,Piece call 0 call.pages page → space.tables.leaf page=none)
    (hjob : now.job=.mmap call stage) (hmapping : Mapping origin space call now)
    (hbalanced : now.Balanced) (hchecked : Checked space call stage)
    (hfunded : Funded call spare now.vm stage) (hfail : now.vm.failAfter=none)
    (hforward : Forward stage) : ∃ count,(now.sections count).job=.idle call.start ∧
      Mapped origin space call (now.sections count) ∧
      Covers spare (now.sections count).vm.paging.allocator ∧
      (now.sections count).vm.failAfter=none := by
  -- the sections that are left get fewer
  induction hleft : ProcessMemory.leftOf now.job using Nat.strong_induction_on generalizing now stage with
  | _ left ih =>
    obtain ⟨found,hfound,hinv,-⟩ := id hmapping
    rw [hjob] at hfound
    cases hfound
    obtain ⟨later,hadvance⟩ : ∃ later,now.advance=some later := by
      rw [Caller.advance,hjob]
      exact ⟨_,rfl⟩
    have hsections : ∀ count,now.sections (count+1)=later.sections count := by
      intro count
      rw [Caller.sections,hadvance]
    obtain ⟨hkept,hended⟩ := advance_mapping hcall hmapping hbalanced hadvance
    obtain ⟨hquiet,hstep⟩ :=
      mmapStep_forward hcall hbalanced.backs hinv hfree hfunded hfail hforward
    have hlater : later={now with
        vm := (mmapStep call now.vm stage).2
        job := FrameConservation.jobAfter (.mmap call) (mmapStep call now.vm stage).1} := by
      rw [Caller.advance,hjob] at hadvance
      exact (Option.some.inj hadvance).symm
    rcases hstep with ⟨next,houtcome,hgoes⟩|⟨houtcome,hcovers⟩
    · obtain ⟨hchecked,hfunded⟩ :=
        mmapStep_funded hcall hbalanced.backs hinv hchecked hfunded houtcome
      have hjob : later.job=.mmap call next := by
        rw [hlater,houtcome]
        rfl
      have hbusy : later.Busy := by
        rw [Caller.Busy,hjob]
        trivial
      have hserved := hended.resolve_right fun hmapped => hmapped.not_busy hbusy
      have hless := less_mapping hmapping hadvance hbusy
      have hvm : later.vm=(mmapStep call now.vm stage).2 := by rw [hlater]
      rw [← hvm] at hfunded hquiet
      obtain ⟨count,hdone⟩ :=
        ih _ (hleft ▸ hless) hjob hserved hkept hchecked hfunded hquiet hgoes rfl
      refine ⟨count+1,?_⟩
      rw [hsections]
      exact hdone
    · have hjob : later.job=.idle call.start := by
        rw [hlater,houtcome]
        rfl
      refine ⟨1,?_⟩
      rw [hsections]
      refine ⟨hjob,hended.resolve_left fun hserved => not_busy hjob hserved.busy,?_,?_⟩
      · change Covers spare later.vm.paging.allocator
        rw [hlater]
        exact hcovers
      · change later.vm.failAfter=none
        rw [hlater]
        exact hquiet

end

deriving instance DecidableEq for MemoryRegion

deriving instance DecidableEq for MmapCall

deriving instance DecidableEq for MmapStage

/-- The request that is being served, and where it is. -/
def mmapJob (caller : Caller) : Option (MmapCall×MmapStage) :=
  match caller.job with
  | .mmap call stage => some (call,stage)
  | _ => none

theorem job_of_mmapJob {caller : Caller} {call : MmapCall}
    (hserved : mmapJob caller=some (call,stage)) : caller.job=.mmap call stage := by
  unfold mmapJob at hserved
  split at hserved
  · rename_i found reached hjob
    cases hserved
    exact hjob
  · cases hserved

/-- The first request of a small process, for five pages. -/
def fivePages : MmapCall := ⟨userMmapBase,userMmapBase+0x5000,5,true,10⟩

/-- Fourteen frames in an aligned region, and 512 that are counted in one that
begins in the middle of a page. -/
def unalignedPaging : Paging :=
  ⟨⟨[⟨0x100000,0x10e000,.usable⟩,⟨0x200800,0x400800,.usable⟩],0,[],0⟩,fun _ => 0⟩

end TuwaiqOS.MmapAdmission
