import TuwaiqOS.ElfImage
import TuwaiqOS.Utf8Text

/-!
# Anonymous memory calls

`MMAP` and `MUNMAP` run as a sequence of short sections with interrupts off,
and the calling task can be switched away or killed between two of them. A
call is a stage that carries the local variables of the source, and one step
performs the next section. The frames that a call holds in local variables
are visible in its stage, and every step moves frames between the caller's
address space, these variables and the allocator.
-/

namespace TuwaiqOS.VmCalls

open Utf8Text ResourceLedger FrameAllocator PageTables AddressSpaces ElfImage
open BootInfoFrameAllocator (books)

/-- `MAX_MMAP_LEN`. -/
def maxMmapLen : ℕ := 64*1024*1024

/-- `VM_BATCH_PAGES`. -/
def vmBatchPages : ℕ := 4

/-- `TABLE_CLEANUP_BATCH_PAGES`. -/
def tableCleanupBatchPages : ℕ := 512

/-- `ProcessState`, without the open files. -/
structure ProcessState where
  /-- The private address space, until it is reclaimed. -/
  addressSpace : Option AddressSpace
  /-- Where Ring 3 starts. -/
  entryPoint : ℕ
  /-- Top of the user stack. -/
  userStackTop : ℕ
  /-- Set when the process exits by itself. -/
  exitCode : Option ℤ
  /-- Bump pointer of the anonymous-memory arena. -/
  mmapNext : ℕ
  /-- Working directory. -/
  cwd : Text

/-- What the sections of a call work on. -/
structure VmState where
  /-- The calling process. -/
  process : ProcessState
  /-- The allocator and physical memory. -/
  paging : Paging
  /-- `MMAP_FAIL_AFTER_PAGES`, unless it is `u64::MAX`. -/
  failAfter : Option ℕ

/-- Store a changed address space and allocator. -/
def VmState.put (vm : VmState) (space : AddressSpace) (allocator : BootInfoFrameAllocator) :
    VmState :=
  {vm with
    process := {vm.process with addressSpace := some space}
    paging := {vm.paging with allocator := allocator}}

/-- How a step of a call ends. -/
inductive Outcome (Stage : Type) where
  /-- The call goes on. -/
  | next (stage : Stage)
  /-- The call returns this value in `RAX`. -/
  | done (rax : ℤ)
  /-- The call goes on to `exit_with_code`. -/
  | exit (code : ℤ)

/-! ## MMAP -/

/-- The local variables of `mmap_in_current_process` that do not change. -/
structure MmapCall where
  /-- Start of the new region. -/
  start : ℕ
  /-- Its end. -/
  finish : ℕ
  /-- Its number of pages. -/
  pages : ℕ
  /-- The pages stay writable. -/
  writable : Bool
  /-- Frames the caller owned before. -/
  ownedFramesBefore : ℕ

/-- Where `mmap_in_current_process` is. -/
inductive MmapStage where
  /-- Checking that the region is not mapped. -/
  | checking (checkedPages : ℕ)
  /-- At the failure injection before a batch. -/
  | mapping (mappedPages : ℕ)
  /-- About to map a batch. -/
  | installing (mappedPages : ℕ)
  /-- Zeroing the pages. -/
  | zeroing (zeroedPages : ℕ)
  /-- Removing the write permission. -/
  | protecting (protectedPages : ℕ)
  /-- About to move `mmap_next`. -/
  | committing
  /-- In `rollback_mmap_or_exit`, unmapping. -/
  | rollingBack (rolledBack mappedPages : ℕ)
  /-- In `rollback_mmap_or_exit`, at the table cleanup. -/
  | cleaning

/-- `mmap_in_current_process` up to the point where interrupts are enabled. -/
def mmapEnter (len : ℕ) (writable : Bool) (vm : VmState) : Option MmapCall := do
  if len=0 ∨ maxMmapLen<len then failure
  let pages := (len+0xFFF)/4096
  let start := vm.process.mmapNext
  let finish := start+pages*4096
  if 2^64≤finish then failure
  if userMmapLimit<finish then failure
  let p1Tables := (finish-1)/2^21-start/2^21+1
  let worstCaseFrames := pages+p1Tables+2
  let space ← vm.process.addressSpace
  if vm.paging.allocator.framesAvailable<worstCaseFrames then failure
  return ⟨start,finish,pages,writable,space.ownedFrames.length⟩

/-- Map pages up to the first failure, and count them. -/
def mapPages (flags : Flags) : List ℕ → AddressSpace → BootInfoFrameAllocator →
    ℕ×AddressSpace×BootInfoFrameAllocator
  | [],space,allocator => (0,space,allocator)
  | page::rest,space,allocator =>
    match mapInAddressSpace space page flags allocator with
    | (.error _,later) => (0,later)
    | (.ok (),space,allocator) =>
      let mapped := mapPages flags rest space allocator
      (mapped.1+1,mapped.2)

/-- Change the flags of pages up to the first failure. -/
def protectPages (flags : Flags) : List ℕ → AddressSpace → Bool×AddressSpace
  | [],space => (true,space)
  | page::rest,space =>
    match updateFlagsInAddressSpace space page flags with
    | .error _ => (false,space)
    | .ok later => protectPages flags rest later

/-- The flags of a new region while it is set up. -/
def mmapStagingFlags : Flags := ⟨true,true,true,true⟩

/-- The flags of a region that is not writable. -/
def mmapFinalFlags : Flags := ⟨true,false,true,true⟩

/-- Number of pages in the batch after `done` of `total` pages. -/
def batchOf (total done : ℕ) : ℕ := min vmBatchPages (total-done)

/-- The next section of `mmap_in_current_process`. -/
def mmapStep (call : MmapCall) (vm : VmState) : MmapStage → Outcome MmapStage×VmState
  | .checking checked =>
    if call.pages ≤ checked then (.next (.mapping 0),vm)
    else
      match vm.process.addressSpace with
      | none => (.done (-1),vm)
      | some space =>
        if vm.process.mmapNext=call.start ∧ ((List.range (batchOf call.pages checked)).all
            fun offset => (translateInAddressSpace space
              (call.start+(checked+offset)*4096)).isNone) then
          (.next (.checking (checked+batchOf call.pages checked)),vm)
        else (.done (-1),vm)
  | .mapping mapped =>
    if call.pages ≤ mapped then (.next (.zeroing 0),vm)
    else
      match vm.failAfter with
      | none => (.next (.installing mapped),vm)
      | some limit =>
        if limit ≤ mapped then (.next (.rollingBack 0 mapped),{vm with failAfter := none})
        else (.next (.installing mapped),vm)
  | .installing mapped =>
    match vm.process.addressSpace with
    | none => (.next (.rollingBack 0 mapped),vm)
    | some space =>
      if vm.process.mmapNext≠call.start then (.next (.rollingBack 0 mapped),vm)
      else
        let batch := batchOf call.pages mapped
        let installed := mapPages mmapStagingFlags
          (List.range' (call.start/4096+mapped) batch) space vm.paging.allocator
        (if installed.1=batch then .next (.mapping (mapped+batch))
          else .next (.rollingBack 0 (mapped+installed.1)),
          vm.put installed.2.1 installed.2.2)
  | .zeroing zeroed =>
    if call.pages≤zeroed then
      (if call.writable then .next .committing else .next (.protecting 0),vm)
    else
      match vm.process.addressSpace with
      | none => (.next (.rollingBack 0 call.pages),vm)
      | some space =>
        match zeroBytesInAddressSpace space (call.start+zeroed*4096)
            (batchOf call.pages zeroed*4096) vm.paging.ram with
        | .error _ => (.next (.rollingBack 0 call.pages),vm)
        | .ok ram =>
          (.next (.zeroing (zeroed+batchOf call.pages zeroed)),
            {vm with paging := {vm.paging with ram := ram}})
  | .protecting protectedPages =>
    if call.pages≤protectedPages then (.next .committing,vm)
    else
      match vm.process.addressSpace with
      | none => (.next (.rollingBack 0 call.pages),vm)
      | some space =>
        let batch := batchOf call.pages protectedPages
        let changed := protectPages mmapFinalFlags
          (List.range' (call.start/4096+protectedPages) batch) space
        (if changed.1 then .next (.protecting (protectedPages+batch))
          else .next (.rollingBack 0 call.pages),
          vm.put changed.2 vm.paging.allocator)
  | .committing =>
    if vm.process.mmapNext≠call.start then (.next (.rollingBack 0 call.pages),vm)
    else (.done call.start,{vm with process := {vm.process with mmapNext := call.finish}})
  | .rollingBack rolledBack mapped =>
    if mapped ≤ rolledBack then (.next .cleaning,vm)
    else
      match vm.process.addressSpace with
      | none => (.exit 255,vm)
      | some space =>
        let batch := batchOf mapped rolledBack
        let unmapped := unmapRangeInAddressSpaceAtomic space (call.start+rolledBack*4096) batch
          vm.paging.allocator
        (if unmapped.1.isOk then .next (.rollingBack (rolledBack+batch) mapped) else .exit 255,
          vm.put unmapped.2.1 unmapped.2.2)
  | .cleaning =>
    match vm.process.addressSpace with
    | none => (.exit 255,vm)
    | some space =>
      let cleaned := cleanUpEmptyTablesInRange space call.start call.pages vm.paging.allocator
      (if cleaned.1.isOk ∧ cleaned.2.1.ownedFrames.length=call.ownedFramesBefore then .done (-1)
        else .exit 255,
        vm.put cleaned.2.1 cleaned.2.2)

/-! ## MUNMAP -/

/-- The local variables of `munmap_in_current_process` that do not change. -/
structure MunmapCall where
  /-- Start of the range. -/
  ptr : ℕ
  /-- Its number of pages. -/
  pages : ℕ

/-- Where `munmap_in_current_process` is. -/
inductive MunmapStage where
  /-- Collecting the mappings of the range. -/
  | collecting (collected : ℕ) (records : List UnmapRecord)
  /-- About to plan the removals from a snapshot of the ownership list. -/
  | planning (records : List UnmapRecord)
  /-- Unmapping pages. -/
  | unmapping (records : List UnmapRecord) (removals : List OwnershipRemoval) (removed : ℕ)
  /-- A batch failed; about to map the earlier ones again. -/
  | restoring (records : List UnmapRecord)
  /-- About to remove the next batch from the ownership list. -/
  | removing (removals : List OwnershipRemoval)
  /-- The frames of a batch have left the ownership list. -/
  | releasing (frames : List ℕ) (removals : List OwnershipRemoval)
  /-- Cleaning up tables. -/
  | cleaning (cleanedPages : ℕ)

/-- `munmap_in_current_process` up to the point where interrupts are
enabled. -/
def munmapEnter (ptr len : ℕ) (process : ProcessState) : Option MunmapCall :=
  if len=0 ∨ ptr%4096≠0 ∨ len%4096≠0 then none
  else if 2^64≤ptr+len then none
  else if userMmapBase≤ptr ∧ ptr+len≤process.mmapNext ∧ process.addressSpace.isSome then
    some ⟨ptr,len/4096⟩
  else none

/-- The next section of `munmap_in_current_process`. -/
def munmapStep (call : MunmapCall) (vm : VmState) : MunmapStage → Outcome MunmapStage×VmState
  | .collecting collected records =>
    if call.pages ≤ collected then (.next (.planning records),vm)
    else
      match vm.process.addressSpace with
      | none => (.done (-1),vm)
      | some space =>
        let batch := batchOf call.pages collected
        match collectUnmapRecords space (call.ptr+collected*4096) batch with
        | .error _ => (.done (-1),vm)
        | .ok found => (.next (.collecting (collected+batch) (records++found)),vm)
  | .planning records =>
    match unmapRecordFrames records with
    | none => (.done (-1),vm)
    | some frames =>
      match vm.process.addressSpace with
      | none => (.done (-1),vm)
      | some space =>
        match planUnmapOwnership space.ownedFrames frames with
        | none => (.done (-1),vm)
        | some removals => (.next (.unmapping records removals 0),vm)
  | .unmapping records removals removed =>
    if records.length ≤ removed then (.next (.removing removals),vm)
    else
      match vm.process.addressSpace with
      | none => (.next (.restoring (records.take removed)),vm)
      | some space =>
        let batch := batchOf records.length removed
        let unmapped := unmapRecordsAtomic space ((records.drop removed).take batch)
        (if unmapped.1.isOk then .next (.unmapping records removals (removed+batch))
          else .next (.restoring (records.take removed)),
          vm.put unmapped.2 vm.paging.allocator)
  | .restoring records =>
    match vm.process.addressSpace with
    | none => (.exit 255,vm)
    | some space =>
      let restored := restoreUnmapRecords space records
      (if restored.1.isOk then .done (-1) else .exit 255,vm.put restored.2 vm.paging.allocator)
  | .removing removals =>
    if removals.isEmpty then (.next (.cleaning 0),vm)
    else
      match vm.process.addressSpace with
      | none => (.exit 255,vm)
      | some space =>
        let batch := removals.take vmBatchPages
        let removed := removeUnmappedOwnership space batch
        (if removed.1 then
            .next (.releasing (batch.map OwnershipRemoval.frame) (removals.drop vmBatchPages))
          else .exit 255,
          vm.put removed.2 vm.paging.allocator)
  | .releasing frames removals =>
    (.next (.removing removals),
      {vm with paging := {vm.paging with allocator := releaseFrames frames vm.paging.allocator}})
  | .cleaning cleaned =>
    if call.pages ≤ cleaned then (.done 0,vm)
    else
      match vm.process.addressSpace with
      | none => (.exit 255,vm)
      | some space =>
        let batch := min tableCleanupBatchPages (call.pages-cleaned)
        let swept := cleanUpEmptyTablesInRange space (call.ptr+cleaned*4096) batch
          vm.paging.allocator
        (if swept.1.isOk then .next (.cleaning (cleaned+batch)) else .exit 255,
          vm.put swept.2.1 swept.2.2)

/-! ## Frames are moved -/

/-- Frames that a process owns through its address space. -/
def ProcessState.ownedFrames (process : ProcessState) : List ℕ :=
  match process.addressSpace with
  | none => []
  | some space => space.ownedFrames

variable {space : AddressSpace} {call : MunmapCall} {vm : VmState} {removals : List OwnershipRemoval}

theorem ProcessState.ownedFrames_some {process : ProcessState}
    (hspace : process.addressSpace=some space) : process.ownedFrames=space.ownedFrames := by
  rw [ProcessState.ownedFrames,hspace]

/-- Frames in the local variables of `munmap_in_current_process`. -/
def MunmapStage.frames : MunmapStage → List ℕ
  | .releasing frames _ => frames
  | _ => []

/-- The removals that are left can be carried out on the ownership list. -/
def MunmapStage.Valid (owned : List ℕ) : MunmapStage → Prop
  | .unmapping _ removals _ => Removable removals owned
  | .removing removals => Removable removals owned
  | .releasing _ removals => Removable removals owned
  | _ => True

/-- What an outcome says about the stage that follows. -/
def Outcome.Holds {Stage : Type} (P : Stage → Prop) : Outcome Stage → Prop
  | .next stage => P stage
  | _ => True

/-- Frames that stay in local variables. -/
def Outcome.frames (outcome : Outcome MunmapStage) : List ℕ :=
  match outcome with
  | .next stage => stage.frames
  | _ => []

/-- What mapping a page keeps of the allocator and the ownership list holds
after mapping pages. -/
theorem mapPages_keeps {P : BootInfoFrameAllocator → List ℕ → Prop} {flags : Flags}
    (hmap : ∀ space page allocator,P allocator space.ownedFrames →
      P (mapInAddressSpace space page flags allocator).2.2
        (mapInAddressSpace space page flags allocator).2.1.ownedFrames)
    (pages : List ℕ) {allocator : BootInfoFrameAllocator} (hstart : P allocator space.ownedFrames) :
    P (mapPages flags pages space allocator).2.2
      (mapPages flags pages space allocator).2.1.ownedFrames := by
  induction pages generalizing space allocator with
  | nil => exact hstart
  | cons page rest ih =>
    have hfirst := hmap space page allocator hstart
    rw [mapPages]
    split
    · rename_i reason later hmapped
      rw [hmapped] at hfirst
      exact hfirst
    · rename_i later next hmapped
      rw [hmapped] at hfirst
      exact ih hfirst

theorem ownedFrames_protectPages (flags : Flags) (pages : List ℕ) (space : AddressSpace) :
    (protectPages flags pages space).2.ownedFrames=space.ownedFrames := by
  induction pages generalizing space with
  | nil => rfl
  | cons page rest ih =>
    rw [protectPages]
    split
    · rfl
    · rename_i later hupdate
      rw [ih]
      rw [updateFlagsInAddressSpace] at hupdate
      split at hupdate
      · cases hupdate
      · cases hupdate
        rfl

/-- What mapping a page, unmapping a range and cleaning up keep of the
allocator and the ownership list holds after each section of `MMAP`. -/
theorem mmapStep_keeps {P : BootInfoFrameAllocator → List ℕ → Prop}
    (hmap : ∀ flags space page allocator,P allocator space.ownedFrames →
      P (mapInAddressSpace space page flags allocator).2.2
        (mapInAddressSpace space page flags allocator).2.1.ownedFrames)
    (hunmap : ∀ space rawStart count allocator,P allocator space.ownedFrames →
      P (unmapRangeInAddressSpaceAtomic space rawStart count allocator).2.2
        (unmapRangeInAddressSpaceAtomic space rawStart count allocator).2.1.ownedFrames)
    (hclean : ∀ space rawStart count allocator,P allocator space.ownedFrames →
      P (cleanUpEmptyTablesInRange space rawStart count allocator).2.2
        (cleanUpEmptyTablesInRange space rawStart count allocator).2.1.ownedFrames)
    (call : MmapCall) {vm : VmState} (stage : MmapStage)
    (hvm : P vm.paging.allocator vm.process.ownedFrames) :
    P (mmapStep call vm stage).2.paging.allocator (mmapStep call vm stage).2.process.ownedFrames := by
  cases stage with
  | checking | mapping | zeroing =>
    rw [mmapStep]
    repeat' split
    all_goals exact hvm
  | installing mapped =>
    rw [mmapStep]
    split
    · exact hvm
    rename_i space hspace
    split
    · exact hvm
    · rw [ProcessState.ownedFrames_some hspace] at hvm
      exact mapPages_keeps (hmap mmapStagingFlags) _ hvm
  | protecting protectedPages =>
    rw [mmapStep]
    split
    · exact hvm
    split
    · exact hvm
    · rename_i space hspace
      change P vm.paging.allocator (AddressSpace.ownedFrames _)
      rw [ownedFrames_protectPages,← ProcessState.ownedFrames_some hspace]
      exact hvm
  | committing =>
    rw [mmapStep]
    split <;> exact hvm
  | rollingBack rolledBack mapped =>
    rw [mmapStep]
    split
    · exact hvm
    split
    · exact hvm
    · rename_i space hspace
      rw [ProcessState.ownedFrames_some hspace] at hvm
      exact hunmap _ _ _ _ hvm
  | cleaning =>
    rw [mmapStep]
    split
    · exact hvm
    · rename_i space hspace
      rw [ProcessState.ownedFrames_some hspace] at hvm
      exact hclean _ _ _ _ hvm

/-- Each section of `MMAP` moves frames between the caller's address space
and the allocator. -/
theorem moves_mmapStep (call : MmapCall) (vm : VmState) (stage : MmapStage) :
    Moves books vm.paging.allocator vm.process.ownedFrames
      (mmapStep call vm stage).2.paging.allocator
      (mmapStep call vm stage).2.process.ownedFrames := by
  refine @mmapStep_keeps (fun allocator owned => Moves books vm.paging.allocator
    vm.process.ownedFrames allocator owned) (fun flags space page allocator hmoved => ?_)
    (fun space rawStart count allocator hmoved => ?_)
    (fun space rawStart count allocator hmoved => ?_) call vm stage (Moves.refl _ _ _)
  · exact hmoved.trans (moves_mapInAddressSpace space page flags allocator)
  · exact hmoved.trans (moves_unmapRangeInAddressSpaceAtomic space rawStart count allocator)
  · exact hmoved.trans (moves_cleanUpEmptyTablesInRange space rawStart count allocator)

/-- A step of `MUNMAP` moved frames between the caller's address space, its
local variables and the allocator, and left removals that can be carried
out. -/
structure Settles (vm : VmState) (held : List ℕ) (result : Outcome MunmapStage×VmState) :
    Prop where
  /-- The frames are moved. -/
  moves : Moves books vm.paging.allocator (vm.process.ownedFrames+held : Multiset ℕ)
    result.2.paging.allocator (result.2.process.ownedFrames+result.1.frames : Multiset ℕ)
  /-- The next stage is valid. -/
  valid : result.1.Holds (MunmapStage.Valid result.2.process.ownedFrames)

/-- A section that keeps the ownership list and the allocator. -/
theorem settles_of_same {vm later : VmState} {outcome : Outcome MunmapStage}
    (howned : later.process.ownedFrames=vm.process.ownedFrames)
    (hallocator : later.paging.allocator=vm.paging.allocator) (hframes : outcome.frames=[])
    (hvalid : outcome.Holds (MunmapStage.Valid vm.process.ownedFrames)) :
    Settles vm [] (outcome,later) := by
  constructor
  · change Moves books _ _ later.paging.allocator
      (later.process.ownedFrames+outcome.frames : Multiset ℕ)
    rw [howned,hallocator,hframes]
    exact Moves.refl _ _ _
  · change outcome.Holds (MunmapStage.Valid later.process.ownedFrames)
    rw [howned]
    exact hvalid

section

variable (hvalid : Removable removals vm.process.ownedFrames)
include hvalid

/-- A batch leaves the ownership list and is held in local variables. -/
theorem settles_removing : Settles vm [] (munmapStep call vm (.removing removals)) := by
  rw [munmapStep]
  split
  · exact settles_of_same rfl rfl rfl trivial
  split
  · exact settles_of_same rfl rfl rfl trivial
  · rename_i space hspace
    have howned := ProcessState.ownedFrames_some hspace
    rw [howned,← List.take_append_drop vmBatchPages removals] at hvalid
    obtain ⟨hdone,hrest,hsplit⟩ := removeOwned_append hvalid
    dsimp only
    rw [removeUnmappedOwnership,if_pos hdone]
    refine ⟨?_,hrest⟩
    change Moves books _ _ vm.paging.allocator
      ((removeOwned (removals.take vmBatchPages) space.ownedFrames).2+
        ((removals.take vmBatchPages).map OwnershipRemoval.frame : List ℕ) : Multiset ℕ)
    rw [add_comm] at hsplit
    rw [hsplit,howned,Multiset.coe_nil,add_zero]
    exact Moves.refl _ _ _

/-- A batch held in local variables is returned. -/
theorem settles_releasing {frames : List ℕ} :
    Settles vm frames (munmapStep call vm (.releasing frames removals)) := by
  refine ⟨?_,hvalid⟩
  have hmove := BootInfoFrameAllocator.moves_deallocateFrames vm.paging.allocator frames
  exact hmove.frame_left vm.process.ownedFrames

end

/-- Each section of `MUNMAP` settles its frames. -/
theorem settles_munmapStep (call : MunmapCall) {vm : VmState} {stage : MunmapStage}
    (hvalid : stage.Valid vm.process.ownedFrames) :
    Settles vm stage.frames (munmapStep call vm stage) := by
  cases stage with
  | collecting collected records =>
    simp only [munmapStep]
    repeat' split
    all_goals exact settles_of_same rfl rfl rfl trivial
  | planning records =>
    rw [munmapStep]
    repeat' split
    rotate_right
    · rename_i space hspace _ removals hplan
      rw [← ProcessState.ownedFrames_some hspace] at hplan
      exact settles_of_same rfl rfl rfl (removable_planUnmapOwnership hplan)
    all_goals exact settles_of_same rfl rfl rfl trivial
  | unmapping records removals removed =>
    rw [munmapStep]
    split
    · exact settles_of_same rfl rfl rfl hvalid
    split
    · exact settles_of_same rfl rfl rfl trivial
    · rename_i space hspace
      have howned := (ownedFrames_unmapRecordsAtomic space
        ((records.drop removed).take (batchOf records.length removed))).trans
          (ProcessState.ownedFrames_some hspace).symm
      dsimp only
      split
      · exact settles_of_same howned rfl rfl hvalid
      · exact settles_of_same howned rfl rfl trivial
  | restoring records =>
    rw [munmapStep]
    split
    · exact settles_of_same rfl rfl rfl trivial
    · rename_i space hspace
      have howned := (ProcessState.ownedFrames_some hspace).symm
      dsimp only
      split <;> exact settles_of_same howned rfl rfl trivial
  | removing removals => exact settles_removing hvalid
  | releasing frames removals => exact settles_releasing hvalid
  | cleaning cleaned =>
    rw [munmapStep]
    split
    · exact settles_of_same rfl rfl rfl trivial
    split
    · exact settles_of_same rfl rfl rfl trivial
    · rename_i space hspace
      have hmove := moves_cleanUpEmptyTablesInRange space (call.ptr+cleaned*4096)
        (min tableCleanupBatchPages (call.pages-cleaned)) vm.paging.allocator
      rw [← ProcessState.ownedFrames_some hspace] at hmove
      dsimp only
      split <;> exact ⟨hmove.frame 0,trivial⟩

end TuwaiqOS.VmCalls
