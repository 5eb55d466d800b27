import TuwaiqOS.TaskTable
import TuwaiqOS.TreeFrame
import TuwaiqOS.VfsMounts

/-!
# File system calls and the private data of a process

Ring 3 processes change directories, start programs and mutate files. The
kernel confines a mutation to `/data/<name>` of the calling process, and
names a process that `SPAWN` started after the last component of the path it
read. A program below `/data/a` is confined to `/data/a` as long as programs
that are started from there have the name `a`; under another name it gets the
data of that name.
-/

namespace TuwaiqOS.DataConfinement

open Utf8Text FallibleSteps FsTree TreeInvariant TreeFrame VfsPath VfsMounts
open ElfImage VmCalls Scheduler TaskTable
open FrameConservation (boot smallPaging)

/-- The kernel with its filesystem. -/
structure System where
  /-- Tasks and memory. -/
  kernel : Kernel
  /-- The mount table. -/
  mounts : List Mount
  /-- The published tree of TuwaiqFS. -/
  fs : Option FsNode
  /-- The path from which `SPAWN` read the image of a task. -/
  image : ℕ → Option Text

/-! ## What the kernel knows of the caller -/

/-- The current task, if it is a user process. -/
def currentProcess (kernel : Kernel) : Option (Tcb×ProcessState) :=
  kernel.tasks[kernel.current]?.bind fun tcb => tcb.process.map (Prod.mk tcb)

/-- `current_process_name`. -/
def currentProcessName (kernel : Kernel) : Option Text := do
  let (tcb,_) ← currentProcess kernel
  if nameMax<len tcb.name then none else some tcb.name

/-- `current_working_directory`. -/
def currentWorkingDirectory (kernel : Kernel) : Option Text := do
  let (_,process) ← currentProcess kernel
  if pathMax<len process.cwd then none else some process.cwd

/-- The task with another working directory. -/
def inDirectory (tcb : Tcb) (cwd : Text) : Tcb :=
  {tcb with process := tcb.process.map fun process => {process with cwd := cwd}}

/-- `set_current_working_directory`. -/
def setCurrentWorkingDirectory (kernel : Kernel) (cwd : Text) : Option Kernel := do
  let (tcb,_) ← currentProcess kernel
  some (kernel.setTask kernel.current (inDirectory tcb cwd))

/-- `/data/<name>`. -/
def dataRoot (name : Text) : Text := ['/','d','a','t','a','/']++name

/-- `private_mutation_path`. -/
def privateMutationPath (kernel : Kernel) (path : Text) (allowDataRoot : Bool) : Option Text := do
  let cwd ← currentWorkingDirectory kernel
  let absolute ← (normalize cwd path).toOption
  let name ← currentProcessName kernel
  if normalize ['/'] (dataRoot name)≠.ok (dataRoot name) then none
  else if ((absolute.dropPrefix? (dataRoot name)).any fun suffix => suffix.head?=some '/') ||
      (allowDataRoot && absolute=dataRoot name) then some absolute
  else none

/-! ## System calls -/

/-- A pointer and a length in registers, with what `copy_from_current_user`
returns for them. -/
structure UserBuffer where
  /-- The length. -/
  length : ℕ
  /-- The bytes, if the range is the caller's. -/
  copied : Option (List UInt8)

/-- `copy_user_path`. -/
def copyUserPath (buffer : UserBuffer) : Option Text :=
  if buffer.length=0 ∨ pathMax<buffer.length then none else buffer.copied.bind fromUtf8

/-- `MAX_FILE_IO_LEN`. -/
def maxFileIoLen : ℕ := 4096

/-- The data of `PUT_FILE` by its descriptor, if that could be read. -/
def copyUserData (descriptor : Option UserBuffer) : Option (List UInt8) :=
  descriptor.bind fun buffer => if maxFileIoLen<buffer.length then none else buffer.copied

section

variable (system : System)

/-- A mutating call of the VFS; `sync` is the outcome of persisting the new
tree. -/
def mutateFs (call : VfsCall) (sync : Except String Unit) :
    Except String System := do
  let mutation ← call.mutation system.mounts
  withFs system.fs fun root => do
    let candidate ← mutation.apply root
    sync
    pure {system with fs := some candidate}

/-- The return value of a call without a result: 0, or -1 if it failed. -/
def returning : Option System → ℤ×System
  | none => (-1,system)
  | some later => (0,later)

/-- `sys_put_file`. -/
def sysPutFile (path : Option Text) (data : Option (List UInt8))
    (sync : Except String Unit) : ℤ×System :=
  returning system do
    let path ← path
    let bytes ← data
    let absolute ← privateMutationPath system.kernel path false
    (mutateFs system (.writeFile ['/'] absolute bytes) sync).toOption

/-- `sys_remove`. -/
def sysRemove (path : Option Text) (sync : Except String Unit) : ℤ×System :=
  returning system do
    let path ← path
    let absolute ← privateMutationPath system.kernel path false
    (mutateFs system (.remove ['/'] absolute) sync).toOption

/-- `sys_mkdir`. -/
def sysMkdir (path : Option Text) (sync : Except String Unit) : ℤ×System :=
  returning system do
    let path ← path
    let absolute ← privateMutationPath system.kernel path true
    (mutateFs system (.createDir ['/'] absolute) sync).toOption

/-- `sys_chdir`. -/
def sysChdir (path : Option Text) : ℤ×System :=
  returning system do
    let path ← path
    let cwd ← currentWorkingDirectory system.kernel
    let target ← (normalize cwd path).toOption
    if kind system.mounts system.fs ['/'] target≠.ok .directory then none
    else do
      let kernel ← setCurrentWorkingDirectory system.kernel target
      some {system with kernel := kernel}

/-- The path and the working directory of `SPAWN`. -/
def spawnPath (path : Option Text) : Option (Text×Text) := do
  let path ← path
  let cwd ← currentWorkingDirectory system.kernel
  let absolute ← (normalize cwd path).toOption
  some (absolute,cwd)

/-- The executable that `SPAWN` reads. -/
def spawnImage (absolute : Text) : Option (List UInt8) := do
  let bytes ← (readFile system.mounts system.fs ['/'] absolute).toOption
  if bytes=[] ∨ maxFileSize<bytes.length then none else some bytes

/-- `sys_spawn`; the path is recorded as the image of the new process. -/
def sysSpawn (path : Option Text) (heap : ℕ → Bool) : ℤ×System :=
  match spawnPath system path with
  | none => (-1,system)
  | some (absolute,cwd) =>
    match spawnImage system absolute with
    | none => (-1,system)
    | some bytes =>
      match system.kernel.spawnUserProcess ⟨basename absolute,cwd,bytes,.ready,heap⟩ with
      | (.finished (.ok id),kernel) =>
        (id,{system with kernel := kernel,image := Function.update system.image id (some absolute)})
      | (_,kernel) => (-1,{system with kernel := kernel})

end

/-- A system call with its arguments and the outcomes of the allocations and
of persisting the tree. -/
inductive Call where
  /-- `CHDIR`. -/
  | chdir (path : UserBuffer)
  /-- `SPAWN`. -/
  | spawn (path : UserBuffer) (heap : ℕ → Bool)
  /-- `PUT_FILE`. -/
  | putFile (path : UserBuffer) (data : Option UserBuffer) (sync : Except String Unit)
  /-- `REMOVE`. -/
  | remove (path : UserBuffer) (sync : Except String Unit)
  /-- `MKDIR`. -/
  | mkdir (path : UserBuffer) (sync : Except String Unit)

/-- The return value of a system call and the system afterwards. -/
def dispatch (system : System) : Call → ℤ×System
  | .chdir path => sysChdir system (copyUserPath path)
  | .spawn path heap => sysSpawn system (copyUserPath path) heap
  | .putFile path data sync => sysPutFile system (copyUserPath path) (copyUserData data) sync
  | .remove path sync => sysRemove system (copyUserPath path) sync
  | .mkdir path sync => sysMkdir system (copyUserPath path) sync

/-! ## Runs -/

/-- What happens next: a system call of the current process, a scheduler
operation, or a mutation by the shell. -/
inductive Event where
  /-- The current process makes a system call. -/
  | call (call : Call)
  /-- An operation on the scheduler; a spawn is one of the shell. -/
  | operation (operation : Operation)
  /-- The shell mutates the tree. -/
  | shell (call : VfsCall) (sync : Except String Unit)

/-- The system after an event. -/
def System.after (system : System) : Event → System
  | .call call => (dispatch system call).2
  | .operation operation => {system with kernel := perform system.kernel operation}
  | .shell call sync => ((mutateFs system call sync).toOption).getD system

/-- Scheduler operations are legal. -/
def EventLegal (system : System) : Event → Prop
  | .operation operation => Legal system.kernel operation
  | _ => True

/-- One event that is legal and allowed. -/
def Step (allowed : System → Event → Prop) (system later : System) : Prop :=
  ∃ event,EventLegal system event ∧ allowed system event ∧ later=system.after event

/-- Any number of events. -/
def Run (allowed : System → Event → Prop) : System → System → Prop :=
  Relation.ReflTransGen (Step allowed)

/-- The system after boot. -/
def start (paging : Paging) (kernelPml4Frame : ℕ) (mounts : List Mount) (fs : Option FsNode) :
    System := ⟨boot paging kernelPml4Frame,mounts,fs,fun _ => none⟩

/-- The components of `/data/a`. -/
def dataDir (a : Text) : List Text := [['d','a','t','a'],a]

/-- A path is `/data/a` or below it. -/
def Below (a path : Text) : Prop := dataDir a<+:parts path

/-- A program below `/data/a` has the name `a`. -/
def OwnImage (path : Text) : Prop := ∀ a,Below a path → basename path=a

/-- Only programs with the name of the data directory are started from
there. -/
def SpawnsOwn (system : System) : Event → Prop
  | .call (.spawn path _) => ∀ absolute cwd,spawnPath system (copyUserPath path)=
      some (absolute,cwd) → OwnImage absolute
  | _ => True

/-- Two trees show the same outside of `/data/a`. -/
def SameOutside (a : Text) (before after : Option FsNode) : Prop :=
  (before=none ∧ after=none) ∨ ∃ root result,before=some root ∧ after=some result ∧
    ∀ path,¬dataDir a<+:path → look result path=look root path

/-! ## One call -/

variable {system later : System} {tcb : Tcb} {a path absolute : Text}

theorem parts_dataRoot (hname : a≠[]) (hslash : '/'∉a) : parts (dataRoot a)=dataDir a := by
  have hdata : parts ['/','d','a','t','a']=[['d','a','t','a']] := by decide
  have hown : parts a=[a] := by rw [parts_of_noSlash hslash,if_neg (by simpa using hname)]
  have hjoin := parts_append_slash ['/','d','a','t','a'] a
  rw [hdata,hown] at hjoin
  exact hjoin

/-- A component of a path is a name. -/
theorem name_of_below (hbelow : Below a path) : a≠[] ∧ '/'∉a := by
  obtain ⟨rest,hrest⟩ := hbelow
  have hmem : a∈parts path := by
    rw [← hrest]
    exact .tail _ (.head _)
  obtain ⟨hpiece,hne⟩ := List.mem_filter.mp hmem
  exact ⟨by simpa using hne,slash_notMem_splitOn hpiece⟩

/-- The path of a mutation is normalized and at or below the data directory
of the caller. -/
theorem privateMutationPath_below {allowDataRoot : Bool}
    (hget : system.kernel.tasks[system.kernel.current]? = some tcb) (hname : tcb.name=a)
    (hne : a≠[]) (hslash : '/'∉a)
    (hpath : privateMutationPath system.kernel path allowDataRoot=some absolute) :
    Clean absolute ∧ Below a absolute := by
  obtain ⟨cwd,-,hrest⟩ := Option.bind_eq_some_iff.mp hpath
  obtain ⟨found,hfound,hrest⟩ := Option.bind_eq_some_iff.mp hrest
  obtain ⟨name,hcaller,hrest⟩ := Option.bind_eq_some_iff.mp hrest
  have hsame : name=a := by
    obtain ⟨⟨caller,process⟩,hcurrent,hshort⟩ := Option.bind_eq_some_iff.mp hcaller
    rw [currentProcess,hget,Option.bind_some] at hcurrent
    obtain ⟨_,-,hpair⟩ := Option.map_eq_some_iff.mp hcurrent
    cases hpair
    dsimp only at hshort
    split at hshort
    · cases hshort
    · cases hshort
      exact hname
  subst hsame
  split at hrest
  · cases hrest
  split at hrest
  · rename_i hchild
    cases hrest
    have hclean : Clean absolute := by
      cases hnormalize : normalize cwd path with
      | error reason =>
        rw [hnormalize] at hfound
        cases hfound
      | ok result =>
        rw [hnormalize] at hfound
        cases hfound
        exact Normalized.clean ⟨cwd,path,hnormalize⟩
    refine ⟨hclean,?_⟩
    rw [Bool.or_eq_true,Bool.and_eq_true,decide_eq_true_eq] at hchild
    rcases hchild with hchild|⟨-,hroot⟩
    · obtain ⟨suffix,hsuffix,hstarts⟩ := (Option.any_eq_true _ _).mp hchild
      obtain ⟨first,hjoin,hfirst⟩ := List.dropPrefix?_eq_some_iff.mp hsuffix
      rw [eq_of_beq hfirst] at hjoin
      obtain ⟨rest,hrest⟩ := List.head?_eq_some_iff.mp (of_decide_eq_true hstarts)
      rw [Below,hjoin,hrest,parts_append_slash,parts_dataRoot hne hslash]
      exact List.prefix_append _ _
    · rw [Below,hroot,parts_dataRoot hne hslash]
  · cases hrest

variable {tuwaiqFs sync : Except String Unit} {volume : Except String Fat32Volume}
  {call : VfsCall}

/-- What a mutating call does: it applies one mutation to the tree, with the
normalized path. -/
theorem mutateFs_ok (hinit : init tuwaiqFs volume=.ok system.mounts)
    (hrun : mutateFs system call sync=.ok later) :
    ∃ mutation root candidate,normalize call.cwd call.path=.ok (Mutation.path mutation) ∧
      system.fs=some root ∧ mutation.apply root=.ok candidate ∧
      later={system with fs := some candidate} := by
  obtain ⟨mutation,hmutation,hrest⟩ := bind_ok_iff.mp hrun
  cases hroot : system.fs with
  | none =>
    rw [hroot] at hrest
    cases hrest
  | some root =>
    rw [hroot] at hrest
    obtain ⟨candidate,hcandidate,hrest⟩ := bind_ok_iff.mp hrest
    obtain ⟨_,-,hsame⟩ := bind_ok_iff.mp hrest
    cases hsame
    exact ⟨mutation,root,candidate,mutate_init hinit (VfsCall.mutation_path hmutation),rfl,
      hcandidate,rfl⟩

theorem sameOutside_refl (a : Text) (fs : Option FsNode) : SameOutside a fs fs := by
  cases fs with
  | none => exact .inl ⟨rfl,rfl⟩
  | some root => exact .inr ⟨root,root,rfl,rfl,fun _ _ => rfl⟩

/-- A mutation at a clean path at or below `/data/a` shows nowhere else. -/
theorem sameOutside_mutateFs (hinit : init tuwaiqFs volume=.ok system.mounts)
    (hclean : Clean call.path) (hbelow : Below a call.path)
    (hrun : mutateFs system call sync=.ok later) : SameOutside a system.fs later.fs := by
  obtain ⟨mutation,root,candidate,hnormalize,hroot,hcandidate,rfl⟩ := mutateFs_ok hinit hrun
  refine .inr ⟨root,candidate,hroot,rfl,fun outside houtside => ?_⟩
  have habsolute := (Normalized.clean ⟨_,_,hnormalize⟩).absolute
  have hsplit : splitAbsolutePath mutation.path=.ok (parts mutation.path) := if_pos habsolute
  refine look_apply hcandidate hsplit fun hprefix => houtside ?_
  rw [parts_normalize hclean hnormalize] at hprefix
  exact hbelow.trans hprefix

/-- The mutation of a system call at a path of the caller's data. -/
def mutateOwn (system : System) (allowDataRoot : Bool) (call : Text → VfsCall)
    (sync : Except String Unit) (path : Option Text) : Option System := do
  let path ← path
  let absolute ← privateMutationPath system.kernel path allowDataRoot
  (mutateFs system (call absolute) sync).toOption

theorem mutateOwn_some {allowDataRoot : Bool} {call : Text → VfsCall} {path : Option Text}
    (hrun : mutateOwn system allowDataRoot call sync path=some later) :
    ∃ path absolute,privateMutationPath system.kernel path allowDataRoot=some absolute ∧
      mutateFs system (call absolute) sync=.ok later := by
  obtain ⟨path,-,hrest⟩ := Option.bind_eq_some_iff.mp hrun
  obtain ⟨absolute,habsolute,hrest⟩ := Option.bind_eq_some_iff.mp hrest
  refine ⟨path,absolute,habsolute,?_⟩
  cases hmutate : mutateFs system (call absolute) sync with
  | error reason =>
    rw [hmutate] at hrest
    cases hrest
  | ok changed =>
    rw [hmutate] at hrest
    cases hrest
    rfl

/-- The calls that do not mutate leave the tree as it is. -/
theorem fs_sysSpawn (system : System) (path : Option Text) (heap : ℕ → Bool) :
    (sysSpawn system path heap).2.fs=system.fs := by
  rw [sysSpawn]
  split
  · rfl
  split
  · rfl
  split <;> rfl

theorem sysChdir_cases (system : System) (path : Option Text) :
    (sysChdir system path).2=system ∨ ∃ tcb cwd,
      system.kernel.tasks[system.kernel.current]? = some tcb ∧
      (sysChdir system path).2={system with
        kernel := system.kernel.setTask system.kernel.current (inDirectory tcb cwd)} := by
  rw [sysChdir]
  cases hrun : (do
      let path ← path
      let cwd ← currentWorkingDirectory system.kernel
      let target ← (normalize cwd path).toOption
      if kind system.mounts system.fs ['/'] target≠.ok .directory then none
      else do
        let kernel ← setCurrentWorkingDirectory system.kernel target
        some {system with kernel := kernel} : Option System) with
  | none => exact .inl rfl
  | some later =>
    obtain ⟨_,-,hrest⟩ := Option.bind_eq_some_iff.mp hrun
    obtain ⟨_,-,hrest⟩ := Option.bind_eq_some_iff.mp hrest
    obtain ⟨target,-,hrest⟩ := Option.bind_eq_some_iff.mp hrest
    split at hrest
    · cases hrest
    obtain ⟨kernel,hkernel,hlater⟩ := Option.bind_eq_some_iff.mp hrest
    obtain ⟨⟨tcb,process⟩,hcurrent,hset⟩ := Option.bind_eq_some_iff.mp hkernel
    obtain ⟨found,hfound,hprocess⟩ := Option.bind_eq_some_iff.mp hcurrent
    obtain ⟨_,-,hpair⟩ := Option.map_eq_some_iff.mp hprocess
    cases hpair
    cases hset
    cases hlater
    exact .inr ⟨tcb,target,hfound,rfl⟩

/-- What a system call does: it starts a process, changes the working
directory, or makes one mutation at a path of the caller's data. -/
theorem dispatch_cases (system : System) (call : Call) :
    (∃ path heap,call=.spawn path heap) ∨ (dispatch system call).2=system ∨
      (∃ tcb cwd,system.kernel.tasks[system.kernel.current]? = some tcb ∧
        (dispatch system call).2={system with
          kernel := system.kernel.setTask system.kernel.current (inDirectory tcb cwd)}) ∨
      ∃ allowDataRoot path absolute vfsCall sync,
        privateMutationPath system.kernel path allowDataRoot=some absolute ∧
        VfsCall.path vfsCall=absolute ∧
        mutateFs system vfsCall sync=.ok (dispatch system call).2 := by
  -- the three mutating calls differ in the VFS call they make
  have hown : ∀ (allowDataRoot : Bool) (vfsCall : Text → VfsCall) (sync : Except String Unit)
      (path : Option Text),(∀ path,(vfsCall path).path=path) →
      (returning system (mutateOwn system allowDataRoot vfsCall sync path)).2=system ∨
        ∃ allowed found absolute made outcome,
          privateMutationPath system.kernel found allowed=some absolute ∧
          VfsCall.path made=absolute ∧ mutateFs system made outcome=
            .ok (returning system (mutateOwn system allowDataRoot vfsCall sync path)).2 := by
    intro allowDataRoot vfsCall sync path hpath
    cases hrun : mutateOwn system allowDataRoot vfsCall sync path with
    | none => exact .inl rfl
    | some later =>
      obtain ⟨path,absolute,habsolute,hmutate⟩ := mutateOwn_some hrun
      exact .inr ⟨allowDataRoot,path,absolute,_,sync,habsolute,hpath absolute,hmutate⟩
  cases call with
  | chdir path => exact .inr ((sysChdir_cases system (copyUserPath path)).imp_right .inl)
  | spawn path heap => exact .inl ⟨path,heap,rfl⟩
  | putFile path data sync =>
    rw [dispatch,sysPutFile]
    cases copyUserData data with
    | none => cases copyUserPath path <;> exact .inr (.inl rfl)
    | some bytes =>
      exact .inr ((hown false (VfsCall.writeFile ['/'] · bytes) sync (copyUserPath path)
        fun _ => rfl).imp_right .inr)
  | remove path sync =>
    exact .inr ((hown false (VfsCall.remove ['/']) sync (copyUserPath path)
      fun _ => rfl).imp_right .inr)
  | mkdir path sync =>
    exact .inr ((hown true (VfsCall.createDir ['/']) sync (copyUserPath path)
      fun _ => rfl).imp_right .inr)

/-- Every system call of a process named `a` shows nowhere outside of
`/data/a`. -/
theorem sameOutside_dispatch (hinit : init tuwaiqFs volume=.ok system.mounts)
    (hget : system.kernel.tasks[system.kernel.current]? = some tcb) (hname : tcb.name=a)
    (hne : a≠[]) (hslash : '/'∉a) (call : Call) :
    SameOutside a system.fs (dispatch system call).2.fs := by
  rcases dispatch_cases system call with ⟨path,heap,rfl⟩|hsame|⟨_,_,-,hlater⟩|
    ⟨_,path,absolute,_,_,habsolute,rfl,hmutate⟩
  · rw [dispatch,fs_sysSpawn]
    exact sameOutside_refl a system.fs
  · rw [hsame]
    exact sameOutside_refl a system.fs
  · rw [hlater]
    exact sameOutside_refl a system.fs
  · obtain ⟨hclean,hbelow⟩ := privateMutationPath_below hget hname hne hslash habsolute
    exact sameOutside_mutateFs hinit hclean hbelow hmutate

/-! ## Whole runs -/

/-- What holds along every run: programs that `SPAWN` read have the name of
their path. -/
structure Named (mounts : List Mount) (system : System) : Prop where
  /-- The table is in order. -/
  table : TableOk system.kernel
  /-- Names come from the path of the image. -/
  named : ∀ tcb∈system.kernel.tasks,∀ path,system.image tcb.id=some path →
    tcb.name=basename path ∧ OwnImage path
  /-- Ids from `NEXT_ID` on have no image. -/
  unborn : ∀ id,system.kernel.nextId ≤ id → system.image id=none
  /-- The mount table stays. -/
  mounted : system.mounts=mounts

variable {mounts : List Mount}

section

variable (hnamed : Named mounts system)
include hnamed

theorem Named.operation {operation : Operation}
    (hlegal : Legal system.kernel operation) :
    Named mounts {system with kernel := perform system.kernel operation} := by
  refine ⟨(perform_table hnamed.table hlegal).1,fun next hnext path himage => ?_,
    fun id hid => ?_,hnamed.mounted⟩
  · rcases perform_continues hnamed.table next hnext with ⟨tcb,htcb,hsame⟩|⟨request,_,_,-,rfl⟩
    · dsimp only at himage
      rw [hsame.id] at himage
      rw [hsame.name]
      exact hnamed.named tcb htcb path himage
    · have hnone := hnamed.unborn system.kernel.nextId le_rfl
      exact absurd (hnone.symm.trans himage) nofun
  · exact hnamed.unborn id ((perform_clock hnamed.table operation).2.1.trans hid)

theorem named_sysSpawn {path : Option Text}
    (hown : ∀ absolute cwd,spawnPath system path=some (absolute,cwd) → OwnImage absolute)
    (heap : ℕ → Bool) : Named mounts (sysSpawn system path heap).2 := by
  rw [sysSpawn]
  split
  · exact hnamed
  rename_i absolute cwd hpath
  split
  · exact hnamed
  rename_i bytes _
  generalize hrequest : SpawnRequest.mk (basename absolute) cwd bytes .ready heap=request
  have hlegal : Legal system.kernel (.spawn request) := by
    rw [← hrequest]
    exact .inl rfl
  have hlater := hnamed.operation hlegal
  have hok := fun id => @spawnUserProcess_ok system.kernel request id
  rw [perform] at hlater
  split
  · rename_i id kernel hdone
    rw [hdone] at hok hlater
    obtain ⟨rfl,hnext,space,entry,htasks⟩ := hok id rfl
    refine ⟨hlater.table,fun tcb htcb found himage => ?_,fun id hid => ?_,hnamed.mounted⟩
    · dsimp only at htasks htcb himage
      rw [htasks] at htcb
      rcases List.mem_append.mp htcb with hold|hnew
      · rw [Function.update_of_ne (hnamed.table.below tcb hold).ne] at himage
        exact hnamed.named tcb hold found himage
      · rw [List.mem_singleton.mp hnew] at himage ⊢
        change Function.update system.image system.kernel.nextId (some absolute)
          system.kernel.nextId=some found at himage
        rw [Function.update_self] at himage
        cases himage
        rw [← hrequest]
        exact ⟨rfl,hown absolute cwd hpath⟩
    · have hfar : id≠system.kernel.nextId := by
        dsimp only at hid hnext
        omega
      exact (Function.update_of_ne hfar _ _).trans (hnamed.unborn id (by
        dsimp only at hid hnext
        omega))
  · rename_i stage kernel _ hdone
    rw [hdone] at hlater
    exact hlater

/-- A mutation of the tree leaves tasks and images alone. -/
theorem Named.mutateFs (hrun : mutateFs system call sync=.ok later) : Named mounts later := by
  obtain ⟨mutation,-,hrest⟩ := bind_ok_iff.mp hrun
  cases hroot : system.fs with
  | none =>
    rw [hroot] at hrest
    cases hrest
  | some root =>
    rw [hroot] at hrest
    obtain ⟨candidate,-,hrest⟩ := bind_ok_iff.mp hrest
    obtain ⟨_,-,hsame⟩ := bind_ok_iff.mp hrest
    cases hsame
    exact ⟨hnamed.table,hnamed.named,hnamed.unborn,hnamed.mounted⟩

/-- Every event keeps the names. -/
theorem named_after {event : Event}
    (hlegal : EventLegal system event) (hown : SpawnsOwn system event) :
    Named mounts (system.after event) := by
  cases event with
  | call call =>
    rw [System.after]
    rcases dispatch_cases system call with ⟨path,heap,rfl⟩|hsame|⟨tcb,cwd,hget,hlater⟩|
      ⟨_,_,_,_,_,-,-,hmutate⟩
    · exact named_sysSpawn hnamed hown heap
    · rw [hsame]
      exact hnamed
    · rw [hlater]
      have hid : (inDirectory tcb cwd).id=tcb.id := rfl
      refine ⟨hnamed.table.set hget hid (fun _ => rfl) (fun _ halive => halive) rfl rfl rfl,?_,
        hnamed.unborn,hnamed.mounted⟩
      intro task htask path himage
      rcases List.mem_or_eq_of_mem_set htask with hold|rfl
      · exact hnamed.named task hold path himage
      · exact hnamed.named tcb (List.mem_of_getElem? hget) path himage
    · exact hnamed.mutateFs hmutate
  | operation operation => exact hnamed.operation hlegal
  | shell call sync =>
    rw [System.after]
    cases hmutate : DataConfinement.mutateFs system call sync with
    | error reason => exact hnamed
    | ok changed => exact hnamed.mutateFs hmutate

end

theorem named_run {first : System} (hnamed : Named mounts first) (hrun : Run SpawnsOwn first system) :
    Named mounts system := by
  induction hrun with
  | refl => exact hnamed
  | tail _ hstep ih =>
    obtain ⟨event,hlegal,hown,rfl⟩ := hstep
    exact named_after ih hlegal hown

theorem named_start (paging : Paging) (kernelPml4Frame : ℕ) (mounts : List Mount)
    (fs : Option FsNode) : Named mounts (start paging kernelPml4Frame mounts fs) :=
  ⟨tableOk_boot paging kernelPml4Frame,nofun,fun _ _ => rfl,rfl⟩

/-- Over every run from boot in which programs below `/data/a` are started
under the name `a` only: whatever system call a process makes whose image
`SPAWN` read from a path at or below `/data/a`, the tree outside of `/data/a`
stays as it is. -/
theorem data_confined {paging : Paging} {kernelPml4Frame : ℕ} {tuwaiqFs : Except String Unit}
    {volume : Except String Fat32Volume} {fs : Option FsNode}
    (hinit : init tuwaiqFs volume=.ok mounts)
    (hrun : Run SpawnsOwn (start paging kernelPml4Frame mounts fs) system)
    (hget : system.kernel.tasks[system.kernel.current]? = some tcb)
    (himage : system.image tcb.id=some path) (hbelow : Below a path) (call : Call) :
    SameOutside a system.fs (dispatch system call).2.fs := by
  have hnamed := named_run (named_start paging kernelPml4Frame mounts fs) hrun
  obtain ⟨hname,hown⟩ := hnamed.named tcb (List.mem_of_getElem? hget) path himage
  obtain ⟨hne,hslash⟩ := name_of_below hbelow
  rw [← hnamed.mounted] at hinit
  exact sameOutside_dispatch hinit hget (hname.trans (hown a hbelow)) hne hslash call

/-! ## Two processes -/

instance (a path : Text) : Decidable (Below a path) := inferInstanceAs (Decidable (_<+:_))

/-- A path in user memory. -/
def textBuffer (text : Text) : UserBuffer := ⟨len text,some (asBytes text)⟩

theorem copyUserPath_textBuffer {text : Text} (hne : len text≠0) (hshort : len text≤pathMax) :
    copyUserPath (textBuffer text)=some text := by
  have hlength : ¬(len text=0 ∨ pathMax<len text) := by omega
  rw [copyUserPath,textBuffer,if_neg hlength]
  exact fromUtf8_asBytes text

theorem copyUserData_some {bytes : List UInt8} (hshort : bytes.length ≤ maxFileIoLen) :
    copyUserData (some ⟨bytes.length,some bytes⟩)=some bytes := if_neg (not_lt.mpr hshort)

/-- `/data` with the directories of two programs, one of which is
installed. -/
def installed : FsNode :=
  .dir [(['d','a','t','a'],.dir [(['a'],.dir [(['a'],.file tinyElf)]),(['b'],.dir [])])]

/-- TuwaiqFS at the root. -/
def rootMount : List Mount := [⟨['/'],false,.tuwaiq⟩]

/-- The shell starts the program `a`, which gets the processor. -/
def firstProcess : System :=
  {start smallPaging 0 rootMount (some installed) with
    kernel := ([.spawn ⟨['a'],['/'],tinyElf,.ready,fun _ => true⟩,.switch,.switch,.switch] :
      List Operation).foldl perform (boot smallPaging 0)}

theorem run_firstProcess (allowed : System → Event → Prop)
    (hallowed : ∀ system operation,allowed system (.operation operation)) :
    Run allowed (start smallPaging 0 rootMount (some installed)) firstProcess := by
  have hlift : ∀ (operations : List Operation) (system : System),
      (∀ operation∈operations,∀ kernel,Legal kernel operation) →
      Run allowed system {system with kernel := operations.foldl perform system.kernel} := by
    intro operations
    induction operations with
    | nil => exact fun system _ => .refl
    | cons operation rest ih =>
      intro system hlegal
      refine .head ⟨.operation operation,hlegal operation (.head _) _,hallowed _ _,rfl⟩ ?_
      exact ih _ fun other hother => hlegal other (.tail _ hother)
  exact hlift _ (start smallPaging 0 rootMount (some installed)) (by simp [Legal])

/-- The process starts a program, which gets the processor. -/
def secondProcess (path : Text) (system : System) : System :=
  {(sysSpawn system (some path) fun _ => true).2 with
    kernel := perform (sysSpawn system (some path) fun _ => true).2.kernel .switch}

theorem run_secondProcess {allowed : System → Event → Prop} {path : Text}
    (hne : len path≠0) (hshort : len path≤pathMax)
    (hspawn : allowed system (.call (.spawn (textBuffer path) fun _ => true)))
    (hallowed : ∀ system operation,allowed system (.operation operation)) :
    Run allowed system (secondProcess path system) := by
  have hcall : Step allowed system (sysSpawn system (some path) fun _ => true).2 := by
    refine ⟨.call (.spawn (textBuffer path) fun _ => true),trivial,hspawn,?_⟩
    rw [System.after,dispatch,copyUserPath_textBuffer hne hshort]
  exact .tail (.single hcall) ⟨.operation .switch,trivial,hallowed _ _,rfl⟩

/-- The installed program of `a`. -/
def ownProgram : Text := ['/','d','a','t','a','/','a','/','a']

/-- A directory in the data of `a`. -/
def ownDirectory : Text := ['/','d','a','t','a','/','a','/','d']

/-- The installed program of `a` is started from its file and makes a
directory in its own data. -/
theorem data_confined_mkdir :
    ∃ system : System,currentId system.kernel=some 5 ∧ system.image 5=some ownProgram ∧
      (dispatch system (.mkdir (textBuffer ownDirectory) (.ok ()))).1=0 ∧
      SameOutside ['a'] system.fs
        (dispatch system (.mkdir (textBuffer ownDirectory) (.ok ()))).2.fs := by
  have hcurrent : currentId (secondProcess ownProgram firstProcess).kernel=some 5 := by
    decide +kernel
  have himage : (secondProcess ownProgram firstProcess).image 5=some ownProgram := by
    decide +kernel
  obtain ⟨tcb,hget,hid⟩ := Option.map_eq_some_iff.mp hcurrent
  have hown : SpawnsOwn firstProcess (.call (.spawn (textBuffer ownProgram) fun _ => true)) := by
    intro absolute cwd hpath
    rw [copyUserPath_textBuffer (by decide) (by decide)] at hpath
    have hsame : (spawnPath firstProcess (some ownProgram)).map Prod.fst=some ownProgram := by
      decide +kernel
    rw [hpath] at hsame
    have hsame : absolute=ownProgram := Option.some.inj hsame
    rw [hsame]
    rintro a ⟨rest,hrest⟩
    have hparts : parts ownProgram=[['d','a','t','a'],['a'],['a']] := by decide
    rw [hparts] at hrest
    cases hrest
    decide
  refine ⟨_,hcurrent,himage,?_,?_⟩
  · rw [dispatch,copyUserPath_textBuffer (by decide) (by decide)]
    decide +kernel
  · have hrun := (run_firstProcess SpawnsOwn fun _ _ => trivial).trans
      (run_secondProcess (by decide) (by decide) hown fun _ _ => trivial)
    have hinit : init (.ok ()) (.error "no volume")=.ok rootMount := rfl
    exact data_confined hinit hrun hget (by rw [hid]; exact himage) (by decide) _

/-- A file in the data of `a` with another name. -/
def otherProgram : Text := ['/','d','a','t','a','/','a','/','b']

/-- A file in the data of `b`. -/
def otherFile : Text := ['/','d','a','t','a','/','b','/','x']

/-- The program `a` writes an executable to its own data and starts it. -/
def escaped : System :=
  secondProcess otherProgram
    (sysPutFile firstProcess (some otherProgram) (some tinyElf) (.ok ())).2

theorem run_escaped :
    Run (fun _ _ => True) (start smallPaging 0 rootMount (some installed)) escaped := by
  have hwrite : Step (fun _ _ => True) firstProcess
      (sysPutFile firstProcess (some otherProgram) (some tinyElf) (.ok ())).2 := by
    refine ⟨.call (.putFile (textBuffer otherProgram) (some ⟨tinyElf.length,some tinyElf⟩)
      (.ok ())),trivial,trivial,?_⟩
    rw [System.after,dispatch,copyUserPath_textBuffer (by decide) (by decide),
      copyUserData_some (by decide +kernel)]
  exact ((run_firstProcess _ fun _ _ => trivial).tail hwrite).trans
    (run_secondProcess (by decide) (by decide) trivial fun _ _ => trivial)

/-- What is at a path of the tree. -/
def lookFs (fs : Option FsNode) (path : List Text) : Option (Except String (Option (List UInt8))) :=
  fs.map fun root => look root path

/-- The program that `a` wrote and started is called `b` and writes to
`/data/b`. -/
theorem spawned_file_escapes :
    init (.ok ()) (.error "no volume")=.ok rootMount ∧
      ∃ system,Run (fun _ _ => True) (start smallPaging 0 rootMount (some installed)) system ∧
        ∃ tcb path call,system.kernel.tasks[system.kernel.current]? = some tcb ∧
          system.image tcb.id=some path ∧ Below ['a'] path ∧
          ¬SameOutside ['a'] system.fs (dispatch system call).2.fs := by
  have hcurrent : currentId escaped.kernel=some 5 := by decide +kernel
  have himage : escaped.image 5=some otherProgram := by decide +kernel
  have hbefore : lookFs escaped.fs [['d','a','t','a'],['b'],['x']]=
      some (.error "entry not found") := by decide +kernel
  have hafter : lookFs (sysPutFile escaped (some otherFile) (some [1]) (.ok ())).2.fs
      [['d','a','t','a'],['b'],['x']]=some (.ok (some [1])) := by decide +kernel
  obtain ⟨tcb,hget,hid⟩ := Option.map_eq_some_iff.mp hcurrent
  refine ⟨rfl,escaped,run_escaped,tcb,otherProgram,
    .putFile (textBuffer otherFile) (some ⟨1,some [1]⟩) (.ok ()),hget,by rw [hid]; exact himage,
    by decide,?_⟩
  have hdata : copyUserData (some ⟨1,some [1]⟩)=some [1] := rfl
  rw [dispatch,copyUserPath_textBuffer (by decide) (by decide),hdata]
  rintro (⟨hnone,-⟩|⟨root,result,hroot,hresult,hlook⟩)
  · rw [hnone] at hbefore
    cases hbefore
  · have hkept := hlook [['d','a','t','a'],['b'],['x']] (by decide)
    rw [hroot] at hbefore
    rw [hresult] at hafter
    have hsame := (Option.some.inj hafter).symm.trans (hkept.trans (Option.some.inj hbefore))
    cases hsame

end TuwaiqOS.DataConfinement
