import TuwaiqOS.CrashConsistency
import TuwaiqOS.VfsPath

/-!
# The filesystem service: guarded mutations of the published tree

Every mutation takes the writer guard, copies the published tree, changes
the copy, syncs it to disk, publishes it and releases the guard on every way
out. Run alone, a mutation is its change of the tree followed by the sync.
-/

namespace TuwaiqOS.FsService

open BlockProgram FsTree Checkpoint
/-! ## Routines of `fs.rs` -/

/-- `WriterGuard::acquire`: the compare-exchange leaves the flag set in
either case and fails when it was set before. -/
def acquire : FsRoutine Unit := do
  let before ← Routine.act .acquire fun memory => {memory with writerActive := true}
  if before.writerActive then throw "filesystem busy" else pure ()

/-- The drop of a `WriterGuard`. -/
def release : FsRoutine Unit := do
  let _ ← Routine.act .release fun memory => {memory with writerActive := false}

/-- Run a body under the writer guard. The guard is dropped on every way
out of the body. -/
def withWriterGuard (body : FsRoutine Unit) : FsRoutine Unit := do
  acquire
  let outcome ← Routine.attempt body
  release
  Routine.ofExcept outcome

/-- Copy the root pointer under the lock. -/
def snapshot : FsRoutine FsNode := do
  let memory ← Routine.act .snapshot id
  match memory.fs with
  | none => throw "filesystem not initialized"
  | some root => pure root

/-- Replace the root pointer under the lock. -/
def publish (candidate : FsNode) : FsRoutine Unit := do
  let memory ← Routine.act .publish fun memory =>
    {memory with fs := memory.fs.map fun _ => candidate}
  if memory.fs.isNone then throw "filesystem not initialized" else pure ()

/-- The body of `mutate_and_persist`, under the guard. -/
def mutateBody (change : FsNode → Except String FsNode) : FsRoutine Unit := do
  let root ← snapshot
  let candidate ← Routine.ofExcept (change root)
  syncTree candidate
  publish candidate

/-- `mutate_and_persist`. -/
def mutateAndPersist (change : FsNode → Except String FsNode) : FsRoutine Unit :=
  withWriterGuard (mutateBody change)

section

variable (path : Utf8Text.Text)

/-- `create_file_at`. -/
def createFileAt : FsRoutine Unit :=
  mutateAndPersist (FsTree.createFileAt path)

/-- `create_dir_at`. -/
def createDirAt : FsRoutine Unit :=
  mutateAndPersist (FsTree.createDirAt path)

/-- `write_at`. -/
def writeAt (bytes : List UInt8) : FsRoutine Unit :=
  mutateAndPersist (FsTree.writeAt path bytes)

/-- `remove_at`. -/
def removeAt : FsRoutine Unit := mutateAndPersist (FsTree.removeAt path)

end

/-- The body of `sync_to_disk`, under the guard. -/
def syncBody : FsRoutine Unit := do
  let root ← snapshot
  syncTree root

/-- `sync_to_disk`. -/
def syncToDisk : FsRoutine Unit := withWriterGuard syncBody

/-- `init`. -/
def init : FsRoutine Unit := do
  match ← mount with
  | .dir children =>
    let _ ← Routine.act .publish fun memory => {memory with fs := some (.dir children)}
  | .file _ => throw "TuwaiqFS root is not a directory"

variable {machine : FsMachine} {tree : FsNode}

/-- `init` publishes what was mounted. -/
theorem perform_init {later : FsMachine} {children : Children}
    (hmount : Routine.perform mount machine=(.ok (.dir children),later)) :
    Routine.perform init machine=
      (.ok (),{later with memory := {later.memory with fs := some (.dir children)}}) := by
  rw [init,Routine.perform_bind_ok hmount]
  rfl

/-- A kernel that came up published a mounted directory. -/
theorem mount_of_init {later : FsMachine} (hinit : Routine.perform init machine=(.ok (),later)) :
    ∃ children mounted,Routine.perform mount machine=(.ok (.dir children),mounted) ∧
      later={mounted with memory := {mounted.memory with fs := some (.dir children)}} := by
  rcases hmount : Routine.perform mount machine with ⟨reason|tree,mounted⟩
  · rw [init,Routine.perform_bind_error hmount] at hinit
    cases hinit
  · cases tree with
    | file content =>
      rw [init,Routine.perform_bind_ok hmount] at hinit
      cases hinit
    | dir children =>
      rw [perform_init hmount] at hinit
      cases hinit
      exact ⟨children,mounted,rfl,rfl⟩

/-- The call of one mutation. -/
def mutate : Mutation → FsRoutine Unit
  | .createFile path => createFileAt path
  | .createDir path => createDirAt path
  | .write path bytes => writeAt path bytes
  | .remove path => removeAt path

/-- All mutations go through `mutate_and_persist`. -/
theorem mutate_eq (mutation : Mutation) : mutate mutation=mutateAndPersist mutation.apply := by
  cases mutation <;> rfl

/-! ## One mutation at a time -/

/-- An action on the counters of `tuwaiqfs.rs`, which touches neither the
published tree nor the guard. -/
def Quiet (tag : Tag) (action : KernelMemory → KernelMemory) : Prop :=
  tag≠.acquire ∧ tag≠.release ∧ tag≠.publish ∧
    ∀ memory,(action memory).fs=memory.fs ∧ (action memory).writerActive=memory.writerActive

/-- A quiet action before a quiet rest. -/
theorem quiet_act_bind {α : Type} {tag : Tag} {action : KernelMemory → KernelMemory}
    {rest : KernelMemory → FsRoutine α} (hquiet : Quiet tag action)
    (hrest : ∀ memory,Routine.Actions Quiet (rest memory)) :
    Routine.Actions Quiet (Routine.act tag action>>=rest) :=
  Routine.actions_bind (Routine.actions_act hquiet) hrest

theorem quiet_planSync (root : FsNode) : Routine.Actions Quiet (planSync root) := by
  refine Routine.actions_bind trivial fun blob => ?_
  split
  · trivial
  · refine quiet_act_bind ⟨nofun,nofun,nofun,fun _ => ⟨rfl,rfl⟩⟩ fun memory => ?_
    split
    · exact quiet_act_bind ⟨nofun,nofun,nofun,fun _ => ⟨rfl,rfl⟩⟩ fun _ => trivial
    · trivial

theorem quiet_writePayload (lba : ℕ) (blob : List UInt8) (interruptAfter : Option ℕ)
    (count index : ℕ) : Routine.Actions Quiet (writePayload lba blob interruptAfter count index) := by
  induction count generalizing index with
  | zero => trivial
  | succ count ih =>
    refine Routine.actions_bind (fun _ => trivial) fun _ => ?_
    split
    · trivial
    · exact ih (index+1)

theorem quiet_writeCheckpoint (slot generation : ℕ) (blob : List UInt8)
    (interruptAfter : Option ℕ) :
    Routine.Actions Quiet (writeCheckpoint slot generation blob interruptAfter) := by
  refine Routine.actions_bind trivial fun lba => Routine.actions_bind trivial fun header => ?_
  refine Routine.actions_bind (fun _ => trivial) fun _ => ?_
  refine Routine.actions_bind (quiet_writePayload _ _ _ _ _) fun _ => ?_
  exact Routine.actions_bind trivial fun _ => fun _ => trivial

/-- A sync touches neither the published tree nor the guard. -/
theorem quiet_syncTree (root : FsNode) : Routine.Actions Quiet (syncTree root) := by
  have hstores : ∀ target generation,
      Routine.Actions Quiet (do setActiveSlot target; setGeneration generation) :=
    fun target generation => Routine.actions_bind
      (quiet_act_bind ⟨nofun,nofun,nofun,fun _ => ⟨rfl,rfl⟩⟩ fun _ => trivial)
      fun _ => quiet_act_bind ⟨nofun,nofun,nofun,fun _ => ⟨rfl,rfl⟩⟩ fun _ => trivial
  refine Routine.actions_bind (quiet_planSync root) fun plan => ?_
  refine Routine.actions_bind (quiet_writeCheckpoint _ _ _ _) fun _ => ?_
  refine quiet_act_bind ⟨nofun,nofun,nofun,fun _ => ⟨rfl,rfl⟩⟩ fun memory => ?_
  split
  · refine Routine.actions_bind (fun _ => trivial) fun _ => ?_
    exact Routine.actions_bind
      (quiet_act_bind ⟨nofun,nofun,nofun,fun _ => ⟨rfl,rfl⟩⟩ fun _ => trivial)
      fun _ => hstores _ _
  · exact hstores _ _

/-- So the published tree and the guard are as before after a sync. -/
theorem syncTree_keeps (root : FsNode) (machine : FsMachine) :
    (Routine.perform (syncTree root) machine).2.memory.fs=machine.memory.fs ∧
      (Routine.perform (syncTree root) machine).2.memory.writerActive=
        machine.memory.writerActive := by
  have hactions := quiet_syncTree root
  constructor
  · exact Program.run_keeps
      (Program.actions_mono (fun _ _ h memory => (h.2.2.2 memory).1) hactions) machine
  · exact Program.run_keeps
      (Program.actions_mono (fun _ _ h memory => (h.2.2.2 memory).2) hactions) machine

/-- The machine with the guard taken or free. -/
def setGuard (active : Bool) (machine : FsMachine) : FsMachine :=
  {machine with memory := {machine.memory with writerActive := active}}

/-- With the guard free, a guarded body runs with the guard taken and frees
it afterwards. -/
theorem perform_withWriterGuard (hfree : machine.memory.writerActive=false) (body : FsRoutine Unit) :
    Routine.perform (withWriterGuard body) machine=
      ((Routine.perform body (setGuard true machine)).1,
        setGuard false (Routine.perform body (setGuard true machine)).2) := by
  have hacquire : Routine.perform acquire machine=(.ok (),setGuard true machine) := by
    rw [acquire,Routine.perform_act_bind,hfree]
    rfl
  rw [withWriterGuard,Routine.perform_bind_ok hacquire,
    Routine.perform_bind_ok (Routine.perform_attempt body (setGuard true machine))]
  rfl

theorem perform_snapshot (hfs : machine.memory.fs=some tree) :
    Routine.perform snapshot machine=(.ok tree,machine) := by
  rw [snapshot,Routine.perform_act_bind]
  simp only [hfs]
  rfl

theorem perform_publish (hfs : machine.memory.fs=some tree) (candidate : FsNode) :
    Routine.perform (publish candidate) machine=
      (.ok (),{machine with memory := {machine.memory with fs := some candidate}}) := by
  simp only [publish,Routine.perform_act_bind,hfs]
  rfl

/-- What a mutation run alone does: nothing if the change fails, otherwise
the sync, and the new tree is published if the sync succeeds. -/
theorem perform_mutate (hfree : machine.memory.writerActive=false)
    (hfs : machine.memory.fs=some tree) (mutation : Mutation) :
    Routine.perform (mutate mutation) machine=
      match mutation.apply tree with
      | .error reason => (.error reason,machine)
      | .ok candidate =>
        match Routine.perform (syncTree candidate) (setGuard true machine) with
        | (.error reason,later) => (.error reason,setGuard false later)
        | (.ok (),later) => (.ok (),{later with memory :=
            {later.memory with fs := some candidate,writerActive := false}}) := by
  have hsnapshot : Routine.perform snapshot (setGuard true machine)=
      (.ok tree,setGuard true machine) := perform_snapshot hfs
  have hrestore : setGuard false (setGuard true machine)=machine := by
    rw [setGuard,setGuard,← hfree]
  rw [mutate_eq,mutateAndPersist,perform_withWriterGuard hfree,mutateBody,
    Routine.perform_bind_ok hsnapshot]
  rcases mutation.apply tree with reason|candidate
  · rw [Routine.perform_bind_error (Routine.perform_ofExcept (.error reason) _),hrestore]
  · rw [Routine.perform_bind_ok (Routine.perform_ofExcept (.ok candidate) _),Routine.perform_bind]
    obtain ⟨hkeep,-⟩ := syncTree_keeps candidate (setGuard true machine)
    rcases hsync : Routine.perform (syncTree candidate) (setGuard true machine) with ⟨_|_,later⟩
    · simp only [hsync]
    · rw [hsync] at hkeep
      simp only [perform_publish (hkeep.trans hfs),hsync]
      rfl

end TuwaiqOS.FsService
