import TuwaiqOS.VfsMounts

/-!
# Well-formed trees along runs

Two validators guard the tree: the reader of the metadata checks the paths
it finds on the disk, and the VFS normalizes and checks the paths it is
called with. Both admit the same names, so every tree that is ever published
is well formed: it starts as one that `mount` returns, and each mutating call
of the VFS either leaves it or replaces it by a well-formed one.
-/

namespace TuwaiqOS.TreeRuns

open Utf8Text FsTree TreeInvariant TreeCodec BlockProgram Checkpoint VfsPath VfsMounts

/-! ## What well-formedness says about every node -/

/-- A node stands at a path, whether or not a search by names finds it. -/
inductive NodeAt : FsNode → List Text → FsNode → Prop
  /-- The root of the tree. -/
  | here (root : FsNode) : NodeAt root [] root
  /-- A node below an entry of a directory. -/
  | inside {children : Children} {name : Text} {child node : FsNode} {path : List Text} :
      (name,child)∈children → NodeAt child path node → NodeAt (.dir children) (name::path) node

/-- A tree as the rest of the kernel relies on it. -/
structure Tidy (root : FsNode) : Prop where
  /-- The children of a directory have distinct names. -/
  distinct : ∀ path children,NodeAt root path (.dir children) → (children.map Prod.fst).Nodup
  /-- Every name on the path of a node is legal. -/
  names : ∀ path node,NodeAt root path node → ∀ name∈path,NameOk name
  /-- The joined path of a node fits a record. -/
  short : ∀ path node,NodeAt root path node → len (joinSlash path)≤pathMax
  /-- A file fits its length field. -/
  files : ∀ path content,NodeAt root path (.file content) → content.length ≤ maxFileSize

/-- Well-formedness goes down to every node. -/
theorem wellFormed_nodeAt {root node : FsNode} {path : List Text} (hnode : NodeAt root path node)
    {base : ℕ} (hroot : WellFormed base root) :
    WellFormed (pathLength base path) node ∧ (∀ name∈path,NameOk name) ∧
      (path≠[] → pathLength base path≤pathMax) := by
  induction hnode generalizing base with
  | here root => exact ⟨hroot,by simp,fun h => absurd rfl h⟩
  | @inside children name child node path hmem hnode ih =>
    obtain ⟨hname,hlength,hchild⟩ := ((wellFormed_dir base children).mp hroot).2 _ hmem
    obtain ⟨hwell,hnames,hshort⟩ := ih hchild
    refine ⟨hwell,List.forall_mem_cons.mpr ⟨hname,hnames⟩,fun _ => ?_⟩
    by_cases hpath : path=[]
    · subst hpath
      exact hlength
    · exact hshort hpath

/-- A well-formed tree is tidy. -/
theorem tidy_of_treeOk {root : FsNode} (hroot : TreeOk root) : Tidy root := by
  have hdown : ∀ path node,NodeAt root path node → _ := fun path node h =>
    wellFormed_nodeAt h hroot.wellFormed
  refine ⟨fun path children h => ?_,fun path node h => (hdown path node h).2.1,
    fun path node h => ?_,fun path content h => (hdown path _ h).1⟩
  · exact ((wellFormed_dir _ children).mp (hdown path _ h).1).1
  · obtain ⟨-,hnames,hshort⟩ := hdown path node h
    rw [← pathLength_eq_len hnames]
    by_cases hpath : path=[]
    · subst hpath
      exact Nat.zero_le _
    · exact hshort hpath

/-! ## What a mount can return -/

variable {tree : FsNode} {tuwaiqFs : Except String Unit} {volume : Except String Fat32Volume}
  {mounts : List Mount}

theorem loadTreeAt_treeOk {lba length : ℕ} (hload : Routine.MayReturn (loadTreeAt lba length) tree) :
    TreeOk tree := by
  rw [loadTreeAt] at hload
  split at hload
  · rw [← Routine.mayReturn_pure.mp hload]
    exact treeOk_emptyRoot
  · obtain ⟨blob,-,hdecode⟩ := Routine.mayReturn_bind.mp hload
    split at hdecode
    · exact absurd hdecode Routine.not_mayReturn_throw
    · exact (deserializeTree_treeOk hdecode).1

theorem loadCheckpoint_treeOk {slot generation : ℕ}
    (hload : Routine.MayReturn (loadCheckpoint slot) (some (generation,tree))) : TreeOk tree := by
  obtain ⟨lba,-,hload⟩ := Routine.mayReturn_bind.mp hload
  obtain ⟨header,-,hload⟩ := Routine.mayReturn_bind.mp hload
  dsimp only at hload
  repeat' split at hload
  · cases hload
  · cases hload
  · obtain ⟨blob,-,hload⟩ := Routine.mayReturn_bind.mp hload
    repeat' split at hload
    all_goals cases hload
    rename_i hdecode
    exact (deserializeTree_treeOk hdecode).1

theorem loadLatestCheckpoint_treeOk (hload : Routine.MayReturn loadLatestCheckpoint tree) :
    TreeOk tree := by
  obtain ⟨first,hfirst,hload⟩ := Routine.mayReturn_bind.mp hload
  obtain ⟨second,hsecond,hload⟩ := Routine.mayReturn_bind.mp hload
  have hloaded : ∀ slot outcome generation found,
      Routine.MayReturn (Routine.attempt (loadCheckpoint slot)) outcome →
      outcome=.ok (some (generation,found)) → TreeOk found := by
    rintro slot outcome generation found houtcome rfl
    exact loadCheckpoint_treeOk (Routine.mayReturn_attempt.mp houtcome)
  dsimp only at hload
  split at hload
  · exact absurd hload Routine.not_mayReturn_throw
  · rename_i slot generation found hselected
    obtain ⟨_,-,hload⟩ := Routine.mayReturn_bind.mp hload
    obtain ⟨_,-,hload⟩ := Routine.mayReturn_bind.mp hload
    rw [← Routine.mayReturn_pure.mp hload]
    split at hselected
    · split at hselected
      · cases hselected
        exact hloaded 0 _ _ _ hfirst rfl
      · cases hselected
        exact hloaded 1 _ _ _ hsecond rfl
    · cases hselected
      exact hloaded 0 _ _ _ hfirst rfl
    · cases hselected
      exact hloaded 1 _ _ _ hsecond rfl
    · cases hselected

/-- Every tree that `mount` can return is well formed, whatever the disk
holds and whichever accesses fail. -/
theorem mount_treeOk (hmount : Routine.MayReturn mount tree) : TreeOk tree := by
  obtain ⟨superblock,-,hmount⟩ := Routine.mayReturn_bind.mp hmount
  dsimp only at hmount
  repeat' first
    | exact absurd hmount Routine.not_mayReturn_throw
    | exact loadLatestCheckpoint_treeOk hmount
    | exact loadTreeAt_treeOk hmount
    | (cases hmount; exact treeOk_emptyRoot)
    | split at hmount
    | obtain ⟨_,-,hmount⟩ := Routine.mayReturn_bind.mp hmount

/-! ## Runs of the VFS -/

/-- A mutating call of the VFS as a routine: the backend is called if the
path resolves to it. -/
def callVfs (mounts : List Mount) (call : VfsCall) : FsRoutine Unit := do
  let mutation ← Routine.ofExcept (call.mutation mounts)
  FsService.mutate mutation

/-- The machine after a sequence of calls; before each call the fates of the
coming disk writes are set. -/
def runCalls (mounts : List Mount) (calls : List (VfsCall×List WriteFate)) (machine : FsMachine) :
    FsMachine :=
  calls.foldl (fun state step =>
    (Routine.perform (callVfs mounts step.1) {state with fates := step.2}).2) machine

/-- The guard is free and the published tree is well formed. -/
structure Serving (machine : FsMachine) : Prop where
  /-- No writer is active. -/
  free : machine.memory.writerActive=false
  /-- The published tree. -/
  tree : ∃ tree,machine.memory.fs=some tree ∧ TreeOk tree

section

variable (hinit : init tuwaiqFs volume=.ok mounts)
include hinit

/-- The path that a call hands to the backend is legal. -/
theorem legal_of_call {call : VfsCall}
    {mutation : Mutation} (hcall : call.mutation mounts=.ok mutation) :
    LegalPath mutation.path := by
  have hnormalize := mutate_init hinit (VfsCall.mutation_path hcall)
  exact (Normalized.clean ⟨call.cwd,call.path,hnormalize⟩).legal

/-- One call keeps the published tree well formed, whichever writes fail. -/
theorem serving_call {machine : FsMachine} (hserving : Serving machine) (call : VfsCall) :
    Serving (Routine.perform (callVfs mounts call) machine).2 := by
  obtain ⟨tree,hfs,htree⟩ := hserving.tree
  rcases hcall : call.mutation mounts with reason|mutation
  · rw [callVfs,hcall,Routine.perform_bind_error (Routine.perform_ofExcept _ _)]
    exact hserving
  · rw [callVfs,hcall,Routine.perform_bind_ok (Routine.perform_ofExcept _ _),
      FsService.perform_mutate hserving.free hfs]
    rcases happly : mutation.apply tree with reason|candidate
    · exact hserving
    · have hcandidate := apply_treeOk htree (legal_of_call hinit hcall) happly
      have hkeep := (FsService.syncTree_keeps candidate (FsService.setGuard true machine)).1
      rcases hsync : Routine.perform (syncTree candidate) (FsService.setGuard true machine)
        with ⟨_|_,later⟩
      · rw [hsync] at hkeep
        simp only [hsync]
        exact ⟨rfl,tree,hkeep.trans hfs,htree⟩
      · simp only [hsync]
        exact ⟨rfl,candidate,rfl,hcandidate⟩

/-- Every run keeps the published tree well formed. -/
theorem serving_runCalls
    (calls : List (VfsCall×List WriteFate)) {machine : FsMachine} (hserving : Serving machine) :
    Serving (runCalls mounts calls machine) := by
  induction calls generalizing machine with
  | nil => exact hserving
  | cons step calls ih =>
    have hfated : Serving {machine with fates := step.2} := ⟨hserving.free,hserving.tree⟩
    exact ih (serving_call hinit hfated step.1)

end

/-- From any tree that `mount` can return, every sequence of mutating calls
of the VFS leaves a tidy tree published. -/
theorem published_tree_tidy {tuwaiqFs : Except String Unit}
    {volume : Except String Fat32Volume} {mounts : List Mount}
    (hinit : init tuwaiqFs volume=.ok mounts) {machine : FsMachine} {tree : FsNode}
    (hmount : Routine.MayReturn mount tree) (hfs : machine.memory.fs=some tree)
    (hfree : machine.memory.writerActive=false) (calls : List (VfsCall×List WriteFate)) :
    ∃ later,(runCalls mounts calls machine).memory.fs=some later ∧ Tidy later := by
  have hserving : Serving machine := ⟨hfree,tree,hfs,mount_treeOk hmount⟩
  obtain ⟨later,hlater,htree⟩ := (serving_runCalls hinit calls hserving).tree
  exact ⟨later,hlater,tidy_of_treeOk htree⟩

/-- A kernel that has formatted a blank disk and mounted nothing else. -/
def freshMachine : FsMachine :=
  {boot (fun _ => Sector.zero) with memory := {KernelMemory.boot with fs := some emptyRoot}}

/-- `mount` formats a blank disk and returns the empty tree. -/
theorem mayReturn_mount_blank : Routine.MayReturn mount emptyRoot := by
  have hrun := @CrashConsistency.perform_mount_blank (boot fun _ => Sector.zero)
    ⟨rfl,rfl,rfl⟩ rfl
  have hresult := Program.mayReturn_run mount.run (boot fun _ => Sector.zero)
  rw [Routine.perform] at hrun
  rw [hrun] at hresult
  exact hresult

theorem published_tree_tidy_fresh :
    ∃ later,(runCalls [⟨['/'],false,.tuwaiq⟩]
      [(.createDir ['/'] ['d'],[]),(.writeFile ['/','d'] ['f'] [1,2],[.refused "ATA error"])]
      freshMachine).memory.fs=some later ∧ Tidy later := by
  have hinit := init_eq (.ok ()) (.error "no FAT32 volume")
  exact published_tree_tidy hinit mayReturn_mount_blank rfl rfl _

end TuwaiqOS.TreeRuns
