import TuwaiqOS.FrameAdmission
import TuwaiqOS.FrameConservation

/-!
# A spawn that fails

Creating a process takes frames for the root table, for page tables, for the
pages of the executable and for the stack, and a failure can follow each of
these steps. At every time the frames that the allocator has counted off are
exactly those of the new address space, so a spawn that fails has given all
of them back, and the task table is changed by the last section of a spawn
that succeeds only.
-/

namespace TuwaiqOS.SpawnFailure

open FrameAllocator FrameAdmission PageTables AddressSpaces ElfImage Scheduler
open FrameConservation (boot smallPaging)

/-- Frames that the allocator of a kernel counts. -/
def available (kernel : Kernel) : ℕ := kernel.paging.allocator.framesAvailable

/-- A spawn up to some stage, with the state before and after each of its
sections. Between two sections other tasks change the kernel in any way. -/
inductive Attempt (request : SpawnRequest) : List (Kernel×Kernel) → SpawnStage → Kernel → Prop where
  /-- The call. -/
  | call (kernel : Kernel) : Attempt request [] (.counting request) kernel
  /-- The next section. -/
  | advance {sections : List (Kernel×Kernel)} {stage : SpawnStage} {kernel : Kernel}
    (hpast : Attempt request sections stage kernel) :
    Attempt request (sections++[(kernel,(spawnStep kernel stage).2)]) (spawnStep kernel stage).1
      (spawnStep kernel stage).2
  /-- Other tasks run. -/
  | others {sections : List (Kernel×Kernel)} {stage : SpawnStage} {kernel : Kernel}
    (hpast : Attempt request sections stage kernel) (later : Kernel) :
    Attempt request sections stage later

/-- What a section adds to the frames that are counted. -/
def change (pair : Kernel×Kernel) : ℤ := (available pair.2 : ℤ)-available pair.1

/-! ## Frames of the new address space -/

/-- A tracked allocation moves one frame from the count to the owner. -/
theorem tracking_balance {source later : TrackingFrameAllocator} {frame total : ℕ}
    (halloc : source.allocateFrame=some (frame,later))
    (hsource : source.inner.framesAvailable+source.owned.length=total) :
    later.inner.framesAvailable+later.owned.length=total := by
  obtain ⟨⟨found,inner⟩,hinner,hpair⟩ := Option.map_eq_some_iff.mp halloc
  cases hpair
  have hspent := framesAvailable_allocateFrame hinner
  rw [List.length_append,List.length_singleton]
  dsimp only
  omega

/-- Mapping a page moves frames from the count to the space, whether it
succeeds or not. -/
theorem mapInAddressSpace_balance (space : AddressSpace) (page : ℕ) (flags : Flags)
    (allocator : BootInfoFrameAllocator) :
    (mapInAddressSpace space page flags allocator).2.2.framesAvailable+
        (mapInAddressSpace space page flags allocator).2.1.ownedFrames.length=
      allocator.framesAvailable+space.ownedFrames.length := by
  rw [mapInAddressSpace]
  split
  · rfl
  split
  · rfl
  rename_i frame tracking halloc
  have hfirst := tracking_balance halloc rfl
  -- the leaf frame stays in the list while tables are created
  have hkept := @Tables.mapTo_keeps _ TrackingFrameAllocator.allocateFrame
    (fun source => frame∈source.owned ∧ source.inner.framesAvailable+source.owned.length=
      allocator.framesAvailable+space.ownedFrames.length)
    (fun source other later hstep hsource =>
      ⟨by rw [(moves_tracking hstep).1]; exact List.mem_append_left _ hsource.1,
        tracking_balance hstep hsource.2⟩)
    space.tables page ⟨frame,flags⟩ _
    ⟨by rw [(moves_tracking halloc).1]; exact List.mem_append_right _ List.mem_cons_self,hfirst⟩
  dsimp only
  split
  · exact hkept.2
  · have herase := List.length_erase_of_mem hkept.1
    have hpositive := List.length_pos_of_mem hkept.1
    rw [framesAvailable_deallocateFrame]
    dsimp only
    omega

/-- An operation of the loader moves frames from the count to the space. -/
theorem perform_balance (op : SpaceOp) (space : AddressSpace) (paging : Paging) :
    (op.perform space paging).2.2.allocator.framesAvailable+
        (op.perform space paging).2.1.ownedFrames.length=
      paging.allocator.framesAvailable+space.ownedFrames.length := by
  cases op with
  | map page flags => exact mapInAddressSpace_balance space page flags paging.allocator
  | zero dest len =>
    rw [SpaceOp.perform]
    split <;> rfl
  | write dest data =>
    rw [SpaceOp.perform]
    split <;> rfl
  | protect page flags =>
    rw [SpaceOp.perform]
    split
    · rfl
    · rename_i later hupdate
      rw [updateFlagsInAddressSpace] at hupdate
      split at hupdate <;> cases hupdate
      rfl

/-- Frames that are released are counted again. -/
theorem framesAvailable_releaseFrames (frames : List ℕ) (allocator : BootInfoFrameAllocator) :
    (releaseFrames frames allocator).framesAvailable=allocator.framesAvailable+frames.length := by
  induction frames generalizing allocator with
  | nil => rfl
  | cons frame rest ih =>
    rw [releaseFrames,List.foldl_cons,← releaseFrames,ih,framesAvailable_deallocateFrame,
      List.length_cons]
    omega

/-- Freeing a space counts all its frames again. -/
theorem freeAddressSpace_balance (space : AddressSpace) (allocator : BootInfoFrameAllocator) :
    (freeAddressSpace space allocator).framesAvailable=
      allocator.framesAvailable+space.ownedFrames.length :=
  framesAvailable_releaseFrames space.ownedFrames allocator

/-- A new space holds the frame that is counted off. -/
theorem newAddressSpace_balance {allocator later : BootInfoFrameAllocator} {space : AddressSpace}
    (hnew : newAddressSpace allocator=.ok (space,later)) :
    later.framesAvailable+space.ownedFrames.length=allocator.framesAvailable := by
  rw [newAddressSpace] at hnew
  split at hnew
  · cases hnew
  · rename_i frame rest halloc
    cases hnew
    exact (framesAvailable_allocateFrame halloc).symm

/-! ## Sections -/

/-- A section that does not finish the spawn with success leaves the task
table alone, and moves frames between the count and the new space. -/
theorem spawnStep_balance (kernel : Kernel) (stage : SpawnStage)
    (hopen : ∀ id,(spawnStep kernel stage).1≠.finished (.ok id)) :
    (spawnStep kernel stage).2.tasks=kernel.tasks ∧
      available (spawnStep kernel stage).2+(spawnStep kernel stage).1.frames.length=
        available kernel+stage.frames.length := by
  obtain ⟨next,hnext,hspawns⟩ := exists_spawns kernel stage
  rw [hnext] at hopen ⊢
  cases hspawns with
  | rejected request space allocator reason hnew => exact ⟨rfl,newAddressSpace_balance hnew⟩
  | planned request space allocator entry ops hnew => exact ⟨rfl,newAddressSpace_balance hnew⟩
  | faulted request space entry op rest reason => exact ⟨rfl,perform_balance op space kernel.paging⟩
  | performed request space entry op rest => exact ⟨rfl,perform_balance op space kernel.paging⟩
  | inserted request space entry id hroom => exact absurd rfl (hopen id)
  | discarded space reason => exact ⟨rfl,freeAddressSpace_balance space _⟩
  | _ => exact ⟨rfl,rfl⟩

variable {request : SpawnRequest} {sections : List (Kernel×Kernel)} {stage : SpawnStage}
  {kernel : Kernel}

/-- A spawn that has not succeeded has changed no task, and has counted off
exactly the frames of the new address space. -/
theorem Attempt.balance (hattempt : Attempt request sections stage kernel) :
    (∃ id,stage=.finished (.ok id)) ∨ (∀ pair∈sections,pair.2.tasks=pair.1.tasks) ∧
      (sections.map change).sum+stage.frames.length=0 := by
  induction hattempt with
  | call kernel => exact Or.inr ⟨by simp,rfl⟩
  | others hpast later ih => exact ih
  | @advance sections stage kernel hpast ih =>
    by_cases hdone : ∃ id,(spawnStep kernel stage).1=.finished (.ok id)
    · exact Or.inl hdone
    · have hopen : ∀ id,(spawnStep kernel stage).1≠.finished (.ok id) :=
        fun id hid => hdone ⟨id,hid⟩
      obtain ⟨htasks,hframes⟩ := spawnStep_balance kernel stage hopen
      rcases ih with ⟨id,hid⟩|⟨hkept,hsum⟩
      · rw [hid] at hopen
        exact absurd rfl (hopen id)
      · refine Or.inr ⟨?_,?_⟩
        · rw [List.forall_mem_append]
          exact ⟨hkept,List.forall_mem_singleton.mpr htasks⟩
        · rw [List.map_append,List.sum_append,List.map_singleton,List.sum_singleton,change]
          dsimp only
          omega

/-- Sections without other tasks in between. -/
theorem Attempt.run (start : Kernel) (fuel : ℕ) {state : SpawnStage×Kernel}
    (hattempt : Attempt request sections state.1 state.2)
    (hsum : (available state.2 : ℤ)=available start+(sections.map change).sum)
    (htasks : (∀ pair∈sections,pair.2.tasks=pair.1.tasks) → state.2.tasks=start.tasks) :
    ∃ all,Attempt request all (spawnRun fuel state).1 (spawnRun fuel state).2 ∧
      (available (spawnRun fuel state).2 : ℤ)=available start+(all.map change).sum ∧
      ((∀ pair∈all,pair.2.tasks=pair.1.tasks) → (spawnRun fuel state).2.tasks=start.tasks) := by
  induction fuel generalizing sections state with
  | zero => exact ⟨sections,hattempt,hsum,htasks⟩
  | succ fuel ih =>
    refine ih hattempt.advance ?_ fun hkept => ?_
    · rw [List.map_append,List.sum_append,List.map_singleton,List.sum_singleton,change]
      dsimp only
      omega
    · rw [List.forall_mem_append] at hkept
      exact (List.forall_mem_singleton.mp hkept.2).trans (htasks hkept.1)

/-- A spawn that ended with an error has changed no task and has taken no
frame. -/
theorem Attempt.failed {reason : String}
    (hattempt : Attempt request sections (.finished (.error reason)) kernel) :
    (∀ pair∈sections,pair.2.tasks=pair.1.tasks) ∧ (sections.map change).sum=0 := by
  rcases hattempt.balance with ⟨id,hid⟩|⟨hkept,hsum⟩
  · cases hid
  · exact ⟨hkept,by simpa [SpawnStage.frames] using hsum⟩

/-- A spawn that fails with interrupts off. -/
theorem spawnUserProcess_failed {reason : String}
    (hend : (kernel.spawnUserProcess request).1=.finished (.error reason)) :
    (kernel.spawnUserProcess request).2.tasks=kernel.tasks ∧
      (kernel.spawnUserProcess request).2.paging.allocator.framesAvailable=
        kernel.paging.allocator.framesAvailable := by
  have hcall : Attempt request [] (SpawnStage.counting request,kernel).1
      (SpawnStage.counting request,kernel).2 := .call kernel
  obtain ⟨all,hattempt,hcount,htasks⟩ := hcall.run kernel
    (SpawnStage.counting request).fuel (by simp) fun _ => rfl
  rw [Kernel.spawnUserProcess] at hend ⊢
  rw [hend] at hattempt
  obtain ⟨hkept,hsum⟩ := hattempt.failed
  rw [hsum,add_zero] at hcount
  exact ⟨htasks hkept,Int.ofNat.inj hcount⟩

/-- A failed spawn leaks nothing. For every executable and every heap
allocation that fails: if a spawn ends with an error, whatever other tasks did
between its sections, no section has changed the task table and together the
sections have taken no frame off the count. With interrupts off, the table and
the count of frames are those from before the call. -/
theorem failed_spawn_leaks_nothing (request : SpawnRequest) :
    (∀ sections reason kernel,Attempt request sections (.finished (.error reason)) kernel →
      (∀ pair∈sections,pair.2.tasks=pair.1.tasks) ∧ (sections.map change).sum=0) ∧
    ∀ (kernel : Kernel) reason,(kernel.spawnUserProcess request).1=.finished (.error reason) →
      (kernel.spawnUserProcess request).2.tasks=kernel.tasks ∧
      (kernel.spawnUserProcess request).2.paging.allocator.framesAvailable=
        kernel.paging.allocator.framesAvailable :=
  ⟨fun _ _ _ hattempt => hattempt.failed,fun _ _ hend => spawnUserProcess_failed hend⟩

/-- The spawn ended with an error. -/
def failed : SpawnStage → Bool
  | .finished (.error _) => true
  | _ => false

theorem failed_spawn_leaks_nothing_boxing :
    ∃ reason,((boot smallPaging 0).spawnUserProcess
        ⟨[],[],tinyElf,.ready,fun number => number≠4⟩).1=.finished (.error reason) ∧
      ((boot smallPaging 0).spawnUserProcess
        ⟨[],[],tinyElf,.ready,fun number => number≠4⟩).2.paging.allocator.framesAvailable=
          smallPaging.allocator.framesAvailable := by
  have hrun : failed ((boot smallPaging 0).spawnUserProcess
      ⟨[],[],tinyElf,.ready,fun number => number≠4⟩).1=true := by
    decide +kernel
  cases hend : ((boot smallPaging 0).spawnUserProcess
      ⟨[],[],tinyElf,.ready,fun number => number≠4⟩).1 with
  | finished result =>
    cases result with
    | error reason =>
      exact ⟨reason,rfl,((failed_spawn_leaks_nothing _).2 _ reason hend).2⟩
    | ok id =>
      rw [hend] at hrun
      cases hrun
  | _ =>
    rw [hend] at hrun
    cases hrun

end TuwaiqOS.SpawnFailure
