import TuwaiqOS.MemoryCalls
import TuwaiqOS.SpawnFailure
import TuwaiqOS.UserMemory

/-!
# Calls on memory that fail

`MMAP`, `MUNMAP` and `SPAWN` take frames from the allocator and write to
memory before it is clear that they succeed. Without other tasks in between
each of them returns, and if it fails, the process is as before, its memory
has the same contents and the allocator counts as many frames as before.
-/

namespace TuwaiqOS.UndisturbedCalls

open ResourceLedger FrameAllocator FrameAdmission PageTables AddressSpaces ElfImage VmCalls
open Scheduler ExclusiveSpaces StagedSpaces MmapTransaction ProcessMemory
open MemoryCalls SpawnFailure UserMemory FallibleSteps
open BootInfoFrameAllocator (books)

/-! ## The count of frames -/

section

variable (space : AddressSpace) (rawStart pageCount : ℕ) (allocator : BootInfoFrameAllocator)

/-- Unmapping a range at once moves frames from the space to the count. -/
theorem unmapRange_balance :
    (unmapRangeInAddressSpaceAtomic space rawStart pageCount allocator).2.2.framesAvailable+
        (unmapRangeInAddressSpaceAtomic space rawStart pageCount allocator).2.1.ownedFrames.length=
      allocator.framesAvailable+space.ownedFrames.length := by
  rcases unmapRange_cases space rawStart pageCount allocator rfl with
    ⟨howned,hsame⟩|⟨frames,removals,hplan,hsplit,hreleased⟩
  · rw [howned,hsame]
  have hlength := congrArg Multiset.card hsplit
  rw [Multiset.card_add,Multiset.coe_card,Multiset.coe_card,Multiset.coe_card,List.length_map]
    at hlength
  rw [hreleased,framesAvailable_releaseFrames]
  rw [planUnmapOwnership] at hplan
  split at hplan <;> cases hplan
  rename_i hsame
  rw [List.length_reverse,not_not.mp hsame] at hlength
  omega

/-- Cleaning up moves frames from the space to the count. -/
theorem cleanUp_balance :
    (cleanUpEmptyTablesInRange space rawStart pageCount allocator).2.2.framesAvailable+
        (cleanUpEmptyTablesInRange space rawStart pageCount allocator).2.1.ownedFrames.length=
      allocator.framesAvailable+space.ownedFrames.length := by
  rw [cleanUpEmptyTablesInRange]
  dsimp only
  split
  · rfl
  refine @Tables.cleanUp_keeps _ TrackingFrameDeallocator.deallocateFrame
    (fun sink => sink.inner.framesAvailable+sink.owned.length=
      allocator.framesAvailable+space.ownedFrames.length) (fun sink frame hsink => ?_) 4 0 _ _ _ rfl
  rw [TrackingFrameDeallocator.deallocateFrame]
  split
  · rename_i hmem
    have hpositive := List.length_pos_of_mem hmem
    rw [framesAvailable_deallocateFrame,List.length_erase_of_mem hmem]
    omega
  · exact hsink

end

/-- Each section of `MMAP` moves frames between the count and the caller's
space. -/
theorem mmapStep_balance (call : MmapCall) (vm : VmState) (stage : MmapStage) :
    (mmapStep call vm stage).2.paging.allocator.framesAvailable+
        (mmapStep call vm stage).2.process.ownedFrames.length=
      vm.paging.allocator.framesAvailable+vm.process.ownedFrames.length := by
  refine @mmapStep_keeps (fun allocator owned => allocator.framesAvailable+owned.length=
      vm.paging.allocator.framesAvailable+vm.process.ownedFrames.length)
    (fun flags space page allocator hsum => ?_) (fun space rawStart count allocator hsum => ?_)
    (fun space rawStart count allocator hsum => ?_) call vm stage rfl
  · exact (mapInAddressSpace_balance space page flags allocator).trans hsum
  · exact (unmapRange_balance space rawStart count allocator).trans hsum
  · exact (cleanUp_balance space rawStart count allocator).trans hsum

/-! ## Memory calls -/

section

variable {space : AddressSpace} {before entered caller later : Caller}

/-- A memory call has returned, and it has changed nothing if it failed. -/
structure Returned (before last : Caller) : Prop where
  /-- The call has returned. -/
  job : ∃ answer,last.job=.idle answer
  /-- If it failed, the process is as before. -/
  process : last.job=.idle (-1) → last.vm.process=before.vm.process
  /-- If it failed, the memory of the process is as before. -/
  memory : last.job=.idle (-1) →
    Kept before.vm.process.ownedFrames before.vm.paging.ram last.vm.paging.ram
  /-- If it failed, as many frames are counted as before. -/
  frames : last.job=.idle (-1) →
    last.vm.paging.allocator.framesAvailable=before.vm.paging.allocator.framesAvailable

/-- A call that has not changed what it works on. -/
theorem Returned.of_same {answer : ℤ} (hjob : later.job=.idle answer) (hvm : later.vm=before.vm) :
    Returned before later := by
  refine ⟨⟨answer,hjob⟩,fun _ => ?_,fun _ => ?_,fun _ => ?_⟩ <;> rw [hvm]
  exact Kept.refl _ _

variable {len : ℕ} {writable : Bool} {call : MmapCall}

/-- `MMAP` begins with its checks. -/
theorem enter_mmap_stage {stage : MmapStage}
    (henter : caller.enter (.mmap len writable)=some later) (hjob : later.job=.mmap call stage) :
    stage=.checking 0 := by
  obtain ⟨rax,hidle⟩ := enter_idle henter
  unfold Caller.enter at henter
  rw [hidle] at henter
  dsimp only at henter
  split at henter <;> cases henter <;> cases hjob
  rfl

/-- Sections of `MMAP` without other tasks in between. -/
theorem sections_mapping {origin : VmState}
    (hcall : Accepted origin.process space call) (hmapping : Mapping origin space call entered)
    (hbalanced : entered.Balanced) (count : ℕ) :
    ((entered.sections count).Balanced ∧ (Mapping origin space call (entered.sections count) ∨
        Mapped origin space call (entered.sections count))) ∧
      (entered.sections count).vm.paging.allocator.framesAvailable+
          (entered.sections count).vm.process.ownedFrames.length=
        entered.vm.paging.allocator.framesAvailable+entered.vm.process.ownedFrames.length := by
  refine @sections_keeps entered (fun now => (now.Balanced ∧ (Mapping origin space call now ∨
      Mapped origin space call now)) ∧
    now.vm.paging.allocator.framesAvailable+now.vm.process.ownedFrames.length=
      entered.vm.paging.allocator.framesAvailable+entered.vm.process.ownedFrames.length)
    (fun middle later hmiddle hadvance => ?_) ⟨⟨hbalanced,Or.inl hmapping⟩,rfl⟩ count
  obtain ⟨⟨hkept,hserved|hended⟩,hsum⟩ := hmiddle
  · refine ⟨advance_mapping hcall hserved hkept hadvance,?_⟩
    obtain ⟨stage,hjob,-⟩ := hserved
    rw [Caller.advance,hjob] at hadvance
    cases hadvance
    exact (mmapStep_balance call middle.vm stage).trans hsum
  · exact absurd (busy_of_advance hadvance) hended.not_busy

/-- Without other tasks in between `MMAP` returns, and a failed one has
changed nothing. -/
theorem returned_mmap (hresting : Resting before.vm.process space)
    (hbalanced : before.Balanced) (henter : before.enter (.mmap len writable)=some entered)
    {count : ℕ} (hcount : 6*((len+0xFFF)/4096)+9<count) :
    Returned before (entered.sections count) := by
  have hentered := balanced_enter hbalanced henter
  obtain ⟨hvm,-,hnext⟩ := enter_mmap hresting henter
  obtain ⟨total,hserving,hend⟩ :=
    (show Serving entered 0 entered from .start).sections count
  rcases hnext with hrefused|⟨call,hcall,hpages,-,hmapping⟩
  · rw [(run_refused hrefused hserving).1]
    exact .of_same hrefused hvm
  obtain ⟨⟨-,hstate⟩,hsum⟩ := sections_mapping hcall hmapping hentered count
  have hidle : ¬(entered.sections count).Busy := by
    obtain ⟨stage,hjob,-⟩ := id hmapping
    obtain ⟨hbound,-⟩ := hserving.bounded fun count middle later hpast hadvance hbusy => by
      obtain ⟨-,hserved|hended⟩ := run_mapping hcall hmapping hentered hpast
      · exact less_mapping hserved hadvance hbusy
      · exact absurd (busy_of_advance hadvance) hended.not_busy
    rw [hjob,enter_mmap_stage henter hjob,leftOf,mmapSectionsLeft,hpages] at hbound
    rcases hend with hmore|hidle
    · omega
    · exact hidle
  obtain ⟨⟨hreturn,hsame⟩|⟨hreturn,-⟩,hram⟩ :=
    hstate.resolve_left fun hserved => hidle hserved.busy
  · refine ⟨⟨-1,hreturn⟩,fun _ => hsame,fun _ => ?_,fun _ => ?_⟩
    · rw [ProcessState.ownedFrames_some hresting.has]
      exact hram
    · rw [hsame,hvm] at hsum
      omega
  · have hfailed : (entered.sections count).job≠.idle (-1) := by
      rw [hreturn]
      intro h
      injection h with h
      omega
    exact ⟨⟨_,hreturn⟩,fun h => absurd h hfailed,fun h => absurd h hfailed,
      fun h => absurd h hfailed⟩

/-- Without other tasks in between `MUNMAP` returns, and a failed one has
changed nothing. -/
theorem returned_munmap {ptr len : ℕ} (hresting : Resting before.vm.process space)
    (hbalanced : before.Balanced) (henter : before.enter (.munmap ptr len)=some entered) :
    Returned before (entered.sections (5*(len/4096)+7)) := by
  obtain ⟨-,hanswered⟩ := answered_munmap hresting hbalanced henter
  have hfailed := (alone_munmap hresting hbalanced henter (5*(len/4096)+7)).failed
  refine ⟨?_,fun h => by rw [hfailed h],fun h => by rw [hfailed h]; exact Kept.refl _ _,
    fun h => by rw [hfailed h]⟩
  obtain ⟨-,-,⟨hreturn,-⟩|⟨hreturn,-⟩,-⟩ := hanswered
  · exact ⟨0,hreturn⟩
  · exact ⟨-1,hreturn⟩

/-- A section does not look at what the others hold. -/
theorem advance_others (caller : Caller) (others : Multiset ℕ) :
    ({caller with others := others} : Caller).advance=
      caller.advance.map fun later => {later with others := others} := by
  rw [Caller.advance,Caller.advance]
  split <;> simp_all

/-- Sections do not look at what the others hold. -/
theorem sections_others (caller : Caller) (others : Multiset ℕ) (count : ℕ) :
    ({caller with others := others} : Caller).sections count=
      {caller.sections count with others := others} := by
  induction count generalizing caller with
  | zero => rfl
  | succ count ih =>
    rw [Caller.sections,Caller.sections,advance_others]
    cases caller.advance with
    | none => rfl
    | some later => exact ih later

/-- A call does not look at the last result and what the others hold. -/
theorem enter_others (vm : VmState) (rax : ℤ) (others : Multiset ℕ) (request : Request) :
    (Caller.mk vm (.idle 0) 0).enter request=
      ((Caller.mk vm (.idle rax) others).enter request).map fun later =>
        {later with others := 0} := by
  cases request with
  | mmap | munmap =>
    simp only [Caller.enter]
    split <;> rfl

end

/-! ## Spawns -/

section

variable {space : AddressSpace} {frames : List ℕ} {rest : Multiset ℕ} {kernel : Kernel}
  {allocator : BootInfoFrameAllocator} {paging : Paging}

section

variable (hspace : Exclusive space)
include hspace

/-- The pages of a space are apart from the frames that others hold. -/
theorem leaf_apart
    (hbacks : Backs books allocator (space.ownedFrames+(frames+rest))) {frame page : ℕ}
    (hmem : frame∈frames) {leaf : Leaf} (hleaf : space.tables.leaf page=some leaf) :
    leaf.frame+4096 ≤ frame ∨ frame+4096 ≤ leaf.frame := by
  have howned := hspace.owned (.inr page) leaf.frame (by rw [Tables.frameAt,hleaf]; rfl)
  have hone := BootInfoFrameAllocator.aligned_of_backs hbacks
    (Multiset.mem_add.mpr (Or.inl (Multiset.mem_coe.mpr howned)))
  have htwo := BootInfoFrameAllocator.aligned_of_backs hbacks
    (Multiset.mem_add.mpr (Or.inr (Multiset.mem_add.mpr (Or.inl (Multiset.mem_coe.mpr hmem)))))
  rw [← add_assoc] at hbacks
  have hother : leaf.frame≠frame := by
    intro hsame
    rw [hsame] at howned
    exact hbacks.apart (Multiset.mem_coe.mpr howned) (Multiset.mem_coe.mpr hmem)
  omega

/-- Zeroing through a space does not reach the frames of others. -/
theorem kept_zero (hbacks : Backs books allocator (space.ownedFrames+(frames+rest))) {dest len : ℕ}
    {ram later : Ram} (hrun : zeroBytesInAddressSpace space dest len ram=.ok later) :
    Kept frames ram later := by
  obtain ⟨parts,hparts,hlater⟩ := bind_ok_iff.mp hrun
  rw [forEachMappedChunk_eq] at hparts
  obtain ⟨_,-,hparts⟩ := bind_ok_iff.mp hparts
  cases hlater
  intro frame hmem offset hoffset
  rw [foldl_store_zero,if_neg]
  rintro ⟨part,hpart,hlow,hhigh⟩
  obtain ⟨chunk,hchunk,hstep⟩ := mapM_mem hparts hpart
  obtain ⟨hsize,flags,htranslate⟩ := mappedPart_ok hstep
  obtain ⟨leaf,hleaf,hphysical,-⟩ := translate_some_iff.mp htranslate
  have hpage := (chunksFrom_inside hchunk).2.2
  have hapart := leaf_apart hspace hbacks hmem hleaf
  omega

/-- Writing through a space does not reach the frames of others. -/
theorem kept_write (hbacks : Backs books allocator (space.ownedFrames+(frames+rest))) {dest : ℕ}
    {data : List UInt8} {ram later : Ram}
    (hrun : writeBytesInAddressSpace space dest data ram=.ok later) : Kept frames ram later := by
  have hwritten := writeBytesInAddressSpace_ok (unshared_of_backs hspace hbacks) hrun
  intro frame hmem offset hoffset
  refine hwritten.physical _ fun place _ flags htranslate => ?_
  obtain ⟨leaf,hleaf,hphysical,-⟩ := translate_some_iff.mp htranslate
  have hapart := leaf_apart hspace hbacks hmem hleaf
  omega

end

/-- An operation of a spawn writes to frames of the new space only. -/
theorem perform_kept (op : SpaceOp) (hspace : Exclusive space)
    (hbacks : Backs books paging.allocator (space.ownedFrames+(frames+rest))) :
    Exclusive (op.perform space paging).2.1 ∧
      Kept frames paging.ram (op.perform space paging).2.2.ram := by
  cases op with
  | map page flags =>
    exact ⟨(mapsPage_mapInAddressSpace hspace hbacks page flags).exclusive,Kept.refl _ _⟩
  | zero dest len =>
    rw [SpaceOp.perform]
    split
    · exact ⟨hspace,Kept.refl _ _⟩
    · exact ⟨hspace,kept_zero hspace hbacks (by assumption)⟩
  | write dest data =>
    rw [SpaceOp.perform]
    split
    · exact ⟨hspace,Kept.refl _ _⟩
    · exact ⟨hspace,kept_write hspace hbacks (by assumption)⟩
  | protect page flags =>
    rw [SpaceOp.perform]
    split
    · exact ⟨hspace,Kept.refl _ _⟩
    · rename_i later hupdate
      rw [updateFlagsInAddressSpace_ok hupdate]
      exact ⟨hspace.congr rfl rfl (space.tables.frameAt_protect flags [page]),Kept.refl _ _⟩

/-- What others hold while a process is created. The new space has frames of
its own, in one place each. -/
def Apart (others : Multiset ℕ) (kernel : Kernel) : SpawnStage → Prop
  | .counting _ => Backs books kernel.paging.allocator others
  | .reserving _ => Backs books kernel.paging.allocator others
  | .building _ space _ _ =>
    Exclusive space ∧ Backs books kernel.paging.allocator (space.ownedFrames+others)
  | _ => True

/-- A section of a spawn writes to frames of the new space only. -/
theorem spawnStep_kept {stage : SpawnStage} (hstage : Apart (frames+rest) kernel stage) :
    Apart (frames+rest) (spawnStep kernel stage).2 (spawnStep kernel stage).1 ∧
      Kept frames kernel.paging.ram (spawnStep kernel stage).2.paging.ram := by
  obtain ⟨next,hnext,hspawns⟩ := exists_spawns kernel stage
  rw [hnext]
  cases hspawns with
  | counted request => exact ⟨hstage,Kept.refl _ _⟩
  | planned request space allocator entry ops hnew =>
    have hbacks := moves_newAddressSpace hnew (frames+rest) (by rw [zero_add]; exact hstage)
    exact ⟨⟨(tight_newAddressSpace hnew).1.exclusive,hbacks⟩,Kept.refl _ _⟩
  | faulted request space entry op =>
    obtain ⟨hspace,hbacks⟩ := hstage
    exact ⟨trivial,(perform_kept op hspace hbacks).2⟩
  | performed request space entry op =>
    obtain ⟨hspace,hbacks⟩ := hstage
    obtain ⟨hexclusive,hkept⟩ := perform_kept op hspace hbacks
    exact ⟨⟨hexclusive,moves_perform op space kernel.paging _ hbacks⟩,hkept⟩
  | _ => exact ⟨trivial,Kept.refl _ _⟩

/-- All sections of a spawn. -/
theorem spawnRun_kept (fuel : ℕ) {state : SpawnStage×Kernel}
    (hstage : Apart (frames+rest) state.2 state.1) :
    Kept frames state.2.paging.ram (spawnRun fuel state).2.paging.ram := by
  induction fuel generalizing state with
  | zero => exact Kept.refl _ _
  | succ fuel ih =>
    obtain ⟨hnext,hkept⟩ := spawnStep_kept hstage
    exact hkept.trans (ih hnext) fun _ h => h

/-- A spawn, successful or not, leaves the memory of all others as it is. -/
theorem spawnUserProcess_kept (request : SpawnRequest)
    (hbacks : Backs books kernel.paging.allocator (frames+rest)) :
    Kept frames kernel.paging.ram (kernel.spawnUserProcess request).2.paging.ram :=
  @spawnRun_kept frames rest _ (.counting request,kernel) hbacks

end

end TuwaiqOS.UndisturbedCalls
