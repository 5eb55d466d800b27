import TuwaiqOS.SystemCalls
import TuwaiqOS.UndisturbedCalls

/-!
# A system call that fails changes nothing

Every system call but `EXIT` returns, whatever its number and its arguments
are. If it returns `-1`, the machine is as it was: the tasks with their
mappings, working directories and arenas, the memory that the caller sees, the
open files, the input queues, the tree, the screen and the number of frames
that are available.
-/

namespace TuwaiqOS.FailedCalls

open ResourceLedger FrameAllocator PageTables AddressSpaces ElfImage VmCalls
open Scheduler UserMemory ExclusiveSpaces MmapTransaction ProcessMemory MemoryCalls
open UndisturbedCalls SpawnFailure InputQueues SystemCalls
open FrameConservation (vmOf storeVm)
open DataConfinement (currentProcess System)
open BootInfoFrameAllocator (books)

/-- The current task of the machine is a user process that makes a system
call. It was spawned from an executable, has made any calls before, and other
tasks have run in between. -/
def Calling (machine : Machine) : Prop :=
  ∃ bytes tcb process rax others,currentProcess machine.kernel=some (tcb,process) ∧
    FileTable.Reaches bytes ⟨vmOf machine.kernel process,.idle rax,others⟩ (machine.files tcb.id)

/-- A system call has changed nothing. -/
structure Unchanged (before later : Machine) : Prop where
  /-- All tasks are as before, with their mappings, working directories and
  arenas. -/
  tasks : later.kernel.tasks=before.kernel.tasks
  /-- The caller is still the current task. -/
  current : later.kernel.current=before.kernel.current
  /-- The caller sees the same memory. -/
  memory : ∀ space,before.space=some space → ∀ address,
    byteAt space later.ram address=byteAt space before.ram address
  /-- The open files are the same. -/
  files : later.files=before.files
  /-- The input queues are the same. -/
  input : later.input=before.input
  /-- The tree is the same. -/
  fs : later.system.fs=before.system.fs
  /-- The screen is the same. -/
  screen : later.screen=before.screen
  /-- As many frames are available. -/
  frames : later.kernel.paging.allocator.framesAvailable=
    before.kernel.paging.allocator.framesAvailable

theorem Unchanged.refl (machine : Machine) : Unchanged machine machine :=
  ⟨rfl,rfl,fun _ _ _ => rfl,rfl,rfl,rfl,rfl,rfl⟩

/-- A call returns, and it has changed nothing if it failed. -/
def Safe (machine : Machine) (result : Option (ℤ×Machine)) : Prop :=
  ∃ answer later,result=some (answer,later) ∧ (answer=-1 → Unchanged machine later)

theorem Safe.of_same {machine : Machine} {result : ℤ×Machine}
    (hsame : result.1=-1 → result.2=machine) : Safe machine (some result) := by
  refine ⟨result.1,result.2,rfl,fun hfailed => ?_⟩
  rw [hsame hfailed]
  exact Unchanged.refl machine

/-! ## The caller -/

/-- What is known of a caller. -/
structure Settled (machine : Machine) (tcb : Tcb) (process : ProcessState) (space : AddressSpace)
    (rax : ℤ) (others : Multiset ℕ) : Prop where
  /-- It is the current task. -/
  current : currentProcess machine.kernel=some (tcb,process)
  /-- It is between two memory calls. -/
  resting : Resting process space
  /-- The books balance. -/
  balanced : Caller.Balanced ⟨vmOf machine.kernel process,.idle rax,others⟩
  /-- Its table of open files is in order. -/
  sound : FileTable.Sound (machine.files tcb.id)

variable {machine : Machine} {tcb : Tcb} {process : ProcessState} {space : AddressSpace} {rax : ℤ}
  {others : Multiset ℕ}

theorem Calling.settled (hcalling : Calling machine) :
    ∃ tcb process space rax others,Settled machine tcb process space rax others := by
  obtain ⟨bytes,tcb,process,rax,others,hcurrent,hreaches⟩ := hcalling
  obtain ⟨hsound,hbalanced,regions,hholds⟩ := FileTable.reaches_invariant hreaches
  cases hholds with
  | resting _ space _ hresting _ =>
    exact ⟨tcb,process,space,rax,others,hcurrent,hresting,hbalanced,hsound⟩
  | mapping _ _ _ _ _ hmapping => exact absurd hmapping.busy (not_busy rfl)
  | unmapping _ _ _ _ _ hunmapping => exact absurd hunmapping.busy (not_busy rfl)

/-- A call that copies its result to the caller. -/
theorem copied_same {answer : ℤ} (hanswer : answer≠-1) {copy : Option Ram}
    (hfailed : (machine.copied answer copy).1=-1) : (machine.copied answer copy).2=machine := by
  cases copy with
  | none => rfl
  | some ram => exact absurd hfailed hanswer

/-- A call on the tree or the tasks that has no result. -/
theorem returning_same {result : Option System}
    (hfailed : (machine.served (DataConfinement.returning machine.system result)).1=-1) :
    (machine.served (DataConfinement.returning machine.system result)).2=machine := by
  cases result with
  | none => rfl
  | some later => cases hfailed

/-- Loading bytes that are all mapped. -/
theorem loadBytes_returns {ram : Ram} {source len : ℕ}
    (hmapped : ∀ offset<len,∃ byte,byteAt space ram (source+offset)=some byte) :
    ∃ bytes,loadBytes space ram source len=some bytes := by
  rw [loadBytes]
  have hall : ∀ offset∈List.range len,∃ byte,byteAt space ram (source+offset)=some byte :=
    fun offset hoffset => hmapped offset (List.mem_range.mp hoffset)
  generalize List.range len=offsets at hall
  induction offsets with
  | nil => exact ⟨[],rfl⟩
  | cons offset rest ih =>
    obtain ⟨⟨byte,hbyte⟩,hrest⟩ := List.forall_mem_cons.mp hall
    obtain ⟨bytes,hbytes⟩ := ih hrest
    refine ⟨byte::bytes,?_⟩
    rw [List.mapM_cons,hbyte,hbytes]
    rfl

/-- A copy to the screen from bytes that are all mapped. -/
theorem copyFramebufferBytesBatched_returns {ram : Ram} {source len : ℕ}
    (hmapped : ∀ offset<len,∃ byte,byteAt space ram (source+offset)=some byte) (copied : ℕ)
    (destination : List UInt8) :
    ∃ bytes,copyFramebufferBytesBatched space ram source len copied destination=some bytes := by
  fun_induction copyFramebufferBytesBatched space ram source len copied destination with
  | case1 copied destination hmore ih =>
    obtain ⟨chunk,hchunk⟩ := @loadBytes_returns space ram (source+copied)
      (min presentCopyChunk (len-copied)) fun offset hoffset => by
        rw [Nat.add_assoc]
        exact hmapped (copied+offset) (by omega)
    rw [hchunk,Option.bind_some]
    exact ih chunk
  | case2 copied destination hmore => exact ⟨destination,rfl⟩

/-- An event has the length that the caller's buffer is checked for. -/
theorem length_toLeBytes (event : InputEvent) : event.toLeBytes.length=encodedEventLen := by
  cases event <;> simp [InputEvent.toLeBytes,int16Bytes,encodedEventLen]

/-- A poll that fails is refused before it looks at the queue, if events can
be copied to a buffer that was checked. -/
theorem sysInputPoll_failed {tick outLen : ℕ} {caller : Option ℕ} {valid : Bool}
    {copy : List UInt8 → Bool} {input : Input Unit}
    (hcopy : valid=true → ∀ event : InputEvent,copy event.toLeBytes=true)
    (hfailed : (InputQueues.sysInputPoll tick caller outLen valid copy input).1=-1) :
    (InputQueues.sysInputPoll tick caller outLen valid copy input).2=(none,input) := by
  unfold InputQueues.sysInputPoll at hfailed ⊢
  split at hfailed
  · rfl
  split at hfailed
  · rename_i howner
    rw [if_pos howner]
  rename_i howner
  rw [if_neg howner]
  split at hfailed
  · rename_i hshort
    rw [if_pos hshort]
  rename_i hlong
  rw [if_neg hlong]
  split at hfailed
  · rename_i hinvalid
    rw [if_pos hinvalid]
  rename_i hvalid
  rw [Bool.not_eq_true,Bool.not_eq_false'] at hvalid
  split at hfailed
  · cases hfailed
  · rw [if_pos (hcopy hvalid _)] at hfailed
    cases hfailed

theorem sysDisplayInfo_same (outPtr outLen : ℕ) : (sysDisplayInfo machine outPtr outLen).1=-1 →
      (sysDisplayInfo machine outPtr outLen).2=machine := by
  rw [sysDisplayInfo]
  split
  · exact fun _ => rfl
  split
  · exact fun _ => rfl
  · exact copied_same (by decide)

theorem sysGetcwd_same (outPtr outLen : ℕ) :
    (sysGetcwd machine outPtr outLen).1=-1 → (sysGetcwd machine outPtr outLen).2=machine := by
  rw [sysGetcwd]
  split
  · exact fun _ => rfl
  split
  · exact fun _ => rfl
  · exact copied_same (by omega)

theorem sysStat_same (pathPtr pathLen outPtr : ℕ) : (sysStat machine pathPtr pathLen outPtr).1=-1 →
      (sysStat machine pathPtr pathLen outPtr).2=machine := by
  rw [sysStat]
  split
  · exact fun _ => rfl
  split
  · exact fun _ => rfl
  split
  · exact fun _ => rfl
  split
  · exact fun _ => rfl
  · exact copied_same (by decide)

theorem sysReaddir_same (pathPtr pathLen specPtr : ℕ) :
    (SystemCalls.sysReaddir machine pathPtr pathLen specPtr).1=-1 →
      (SystemCalls.sysReaddir machine pathPtr pathLen specPtr).2=machine := by
  rw [SystemCalls.sysReaddir]
  dsimp only
  rw [DirectoryListing.sysReaddir]
  split
  · exact fun _ => rfl
  split
  · exact fun _ => rfl
  split
  · exact fun _ => rfl
  split
  · exact fun _ => rfl
  split
  · exact fun _ => rfl
  split
  · exact fun _ => rfl
  split
  · exact fun _ => rfl
  · exact fun hfailed => by omega

/-- A call on the open files that fails. -/
theorem served_failed {ram written : Ram} {table later : FileTable.Table} {answer : ℤ}
    {call : FileTable.FileCall} (hserved : FileTable.Served space ram table call
      (answer,written,later)) (hfailed : answer=-1) : written=ram ∧ later=table := by
  cases call with
  | «open» contents =>
    obtain ⟨hram,⟨data,handle,-,-,hanswer,-⟩|⟨-,htable,-⟩⟩ := hserved
    · omega
    · exact ⟨hram,htable⟩
  | read handle outPtr outLen =>
    obtain ⟨file,-,-,-,hanswer,-⟩|⟨-,hram,htable,-⟩ := hserved
    · omega
    · exact ⟨hram,htable⟩
  | seek handle offset =>
    obtain ⟨hram,⟨file,-,-,hanswer,-⟩|⟨-,htable,-⟩⟩ := hserved
    · omega
    · exact ⟨hram,htable⟩
  | close handle =>
    obtain ⟨hram,⟨file,-,hanswer,-⟩|⟨-,htable,-⟩⟩ := hserved
    · omega
    · exact ⟨hram,htable⟩

namespace Settled

variable (hsettled : Settled machine tcb process space rax others)

include hsettled

theorem space_eq : machine.space=some space := by
  rw [Machine.space,hsettled.current]
  exact hsettled.resting.has

/-- The caller is in the table. -/
theorem task : machine.kernel.tasks[machine.kernel.current]?=some tcb ∧
    tcb.process=some process := by
  have hcurrent := hsettled.current
  rw [currentProcess] at hcurrent
  obtain ⟨found,hfound,hpair⟩ := Option.bind_eq_some_iff.mp hcurrent
  obtain ⟨inner,hinner,hsame⟩ := Option.map_eq_some_iff.mp hpair
  cases hsame
  exact ⟨hfound,hinner⟩

theorem currentTaskId : machine.currentTaskId=some tcb.id := by
  rw [Machine.currentTaskId,hsettled.task.1]
  rfl

theorem backs : Backs books machine.kernel.paging.allocator (space.ownedFrames+others) := by
  have hbacks : Backs books machine.kernel.paging.allocator
      (process.ownedFrames+((([] : List ℕ) : Multiset ℕ)+others)) := hsettled.balanced.backs
  rw [Multiset.coe_nil,zero_add,ProcessState.ownedFrames_some hsettled.resting.has] at hbacks
  exact hbacks

theorem unshared : Unshared space :=
  unshared_of_backs hsettled.resting.tight.exclusive hsettled.backs

/-- The caller sees the same memory if its frames are as before. -/
theorem memory {ram : Ram} (hkept : Kept space.ownedFrames machine.ram ram) :
    ∀ found,machine.space=some found → ∀ address,
      byteAt found ram address=byteAt found machine.ram address := by
  intro found hfound address
  rw [hsettled.space_eq] at hfound
  cases hfound
  rw [byteAt,byteAt]
  cases htranslate : translateInAddressSpace space address with
  | none => rfl
  | some place =>
    obtain ⟨leaf,hleaf,hphysical,-⟩ := translate_some_iff.mp htranslate
    have howned := hsettled.resting.tight.exclusive.owned (.inr (address/4096)) leaf.frame
      (by rw [Tables.frameAt,hleaf]; rfl)
    rw [Option.map_some,Option.map_some,hphysical,hkept leaf.frame howned _ (by omega)]

/-! ## Memory and tasks -/

/-- A memory call. -/
theorem memoryCall_safe {request : Request} {sections : ℕ} (hreturned : ∀ entered,
      (Caller.mk (vmOf machine.kernel process) (.idle rax) others).enter request=some entered →
      Returned ⟨vmOf machine.kernel process,.idle rax,others⟩ (entered.sections sections)) :
    Safe machine (memoryCall machine request sections) := by
  obtain ⟨entered,henter⟩ := @enter_of_idle ⟨vmOf machine.kernel process,.idle rax,others⟩ rax rfl
    request
  have hreturn := hreturned entered henter
  obtain ⟨answer,hjob⟩ := hreturn.job
  refine ⟨answer,machine.withKernel (storeVm machine.kernel tcb (entered.sections sections).vm
    tcb.job),?_,fun hfailed => ?_⟩
  · rw [memoryCall,hsettled.current]
    dsimp only
    rw [enter_others _ rax others,henter,Option.map_some,Option.bind_some,sections_others]
    dsimp only
    rw [hjob]
  · rw [hfailed] at hjob
    have hprocess : (entered.sections sections).vm.process=process := hreturn.process hjob
    have hkept := hreturn.memory hjob
    refine ⟨?_,rfl,hsettled.memory ?_,rfl,rfl,rfl,rfl,hreturn.frames hjob⟩
    · obtain ⟨htask,hown⟩ := hsettled.task
      obtain ⟨hindex,hsame⟩ := List.getElem?_eq_some_iff.mp htask
      have hdoing : Tcb.doing {tcb with process := some process} tcb.job=tcb := by
        rw [← hown]
        rfl
      change machine.kernel.tasks.set machine.kernel.current (Tcb.doing
        {tcb with process := some (entered.sections sections).vm.process} tcb.job)=_
      rw [hprocess,hdoing,← hsame,List.set_getElem_self]
    · rw [← ProcessState.ownedFrames_some hsettled.resting.has]
      exact hkept

theorem sysMmap_safe (len writable : ℕ) : Safe machine (sysMmap machine len writable) := by
  refine hsettled.memoryCall_safe fun entered henter =>
    returned_mmap hsettled.resting hsettled.balanced henter ?_
  rw [mmapSections]
  omega

theorem sysMunmap_safe (ptr len : ℕ) : Safe machine (sysMunmap machine ptr len) :=
  hsettled.memoryCall_safe fun _ henter =>
    returned_munmap hsettled.resting hsettled.balanced henter

/-- `SPAWN` gives back everything if it fails. -/
theorem sysSpawn_safe (path : Option Utf8Text.Text) (heap : ℕ → Bool) :
    Safe machine (some (machine.served (DataConfinement.sysSpawn machine.system path heap))) := by
  rw [DataConfinement.sysSpawn]
  split
  · exact .of_same fun _ => rfl
  rename_i absolute cwd hpath
  split
  · exact .of_same fun _ => rfl
  rename_i bytes himage
  split
  · exact .of_same fun hfailed => absurd hfailed (by simp [Machine.served])
  rename_i stage kernel hopen hspawn
  obtain ⟨result,hresult⟩ := spawnUserProcess_finishes machine.system.kernel
    ⟨VfsPath.basename absolute,cwd,bytes,.ready,heap⟩
  have hkept := spawnUserProcess_kept ⟨VfsPath.basename absolute,cwd,bytes,.ready,heap⟩ hsettled.backs
  have hkeeps := TaskTable.spawnUserProcess_keeps machine.system.kernel
    ⟨VfsPath.basename absolute,cwd,bytes,.ready,heap⟩
  have hfailed := @spawnUserProcess_failed
    ⟨VfsPath.basename absolute,cwd,bytes,.ready,heap⟩ machine.system.kernel
  rw [Machine.kernel] at hkept
  rw [hspawn] at hresult hkept hkeeps hfailed
  cases result with
  | ok id => exact absurd hresult (hopen id)
  | error reason =>
    obtain ⟨htasks,hframes⟩ := hfailed hresult
    have hcurrent := congrArg Kernel.current hkeeps
    exact ⟨-1,_,rfl,fun _ => ⟨htasks,hcurrent,hsettled.memory hkept,rfl,rfl,rfl,rfl,hframes⟩⟩

/-! ## The screen and the input queue -/

/-- A range that was validated can be loaded. -/
theorem byteAt_validated {start len : ℕ}
    (hvalid : validateCurrentUserRange machine.space start len false=true) {offset : ℕ}
    (hoffset : offset<len) (ram : Ram) : ∃ byte,byteAt space ram (start+offset)=some byte := by
  rw [hsettled.space_eq,validateCurrentUserRange_eq_true,validateUserRange_iff] at hvalid
  obtain ⟨leaf,hleaf,-⟩ := checkUserPage_ok_iff.mp (hvalid.2.2.2 offset hoffset)
  rw [byteAt,translateInAddressSpace,hleaf]
  exact ⟨_,rfl⟩

/-- `DISPLAY_PRESENT` does not fault. -/
theorem present_returns (ptr len : ℕ) : ∃ result,present machine ptr len=some result := by
  rw [present]
  split
  · exact ⟨_,rfl⟩
  split
  · exact ⟨_,rfl⟩
  split
  · exact ⟨_,rfl⟩
  split
  · exact ⟨_,rfl⟩
  rename_i hvalid
  rw [Bool.not_eq_true,Bool.not_eq_false'] at hvalid
  rw [hsettled.space_eq,Option.bind_some]
  obtain ⟨bytes,hbytes⟩ := copyFramebufferBytesBatched_returns
    (fun offset hoffset => hsettled.byteAt_validated hvalid hoffset machine.ram) 0 _
  rw [hbytes]
  exact ⟨_,rfl⟩

theorem sysDisplayPresent_safe (ptr len : ℕ) : Safe machine (sysDisplayPresent machine ptr len) := by
  rw [sysDisplayPresent,hsettled.currentTaskId]
  dsimp only
  split
  · exact .of_same fun _ => rfl
  obtain ⟨result,hresult⟩ := hsettled.present_returns ptr len
  rw [hresult,Option.map_some]
  cases result with
  | error reason => exact .of_same fun _ => rfl
  | ok screen => exact .of_same fun hfailed => absurd hfailed (by simp)

/-- `INPUT_POLL` takes no event from the queue that it cannot deliver. -/
theorem sysInputPoll_same (ptr len : ℕ)
    (hfailed : (SystemCalls.sysInputPoll machine ptr len).1=-1) :
    (SystemCalls.sysInputPoll machine ptr len).2=machine := by
  have hsame := sysInputPoll_failed (fun hvalid event => ?_) hfailed
  · rw [SystemCalls.sysInputPoll]
    dsimp only
    rw [hsame]
    rfl
  · rw [hsettled.space_eq] at hvalid ⊢
    obtain ⟨later,hlater⟩ := copyToCurrentUser_checked machine.ram hvalid (length_toLeBytes event).le
    dsimp only
    rw [hlater]
    rfl

/-! ## Open files -/

theorem fileCall_safe (call : FileTable.FileCall) : Safe machine (fileCall machine call) := by
  obtain ⟨⟨answer,written,later⟩,hperform,hserved,-⟩ := FileTable.call_served hsettled.sound
    hsettled.unshared call
  rw [fileCall,hsettled.currentTaskId]
  dsimp only
  rw [hsettled.space_eq,hperform,Option.map_some]
  refine .of_same fun hfailed => ?_
  obtain ⟨hram,htable⟩ := served_failed hserved hfailed
  rw [hram,htable,Function.update_eq_self]
  rfl

end Settled

/-! ## All calls -/

/-- System calls that fail have no effect. The current task is a user process
that was spawned from any executable, has made any calls, and other tasks have
run in between. For every number and all arguments, and whatever the outcomes
of heap allocations and disk writes are: unless the call is `EXIT` it returns,
and if it returns `-1` it has changed nothing. -/
theorem failed_calls_change_nothing (hcalling : Calling machine) (outcomes : Outcomes)
    (num a1 a2 a3 : ℕ) :
    (num≠0 → ∃ answer later,dispatch outcomes machine num a1 a2 a3=some (answer,later)) ∧
      ∀ later,dispatch outcomes machine num a1 a2 a3=some (-1,later) →
        Unchanged machine later := by
  obtain ⟨tcb,process,space,rax,others,hsettled⟩ := hcalling.settled
  have hsafe : num≠0 → Safe machine (dispatch outcomes machine num a1 a2 a3) := by
    intro hnum
    unfold dispatch
    split
    · exact absurd rfl hnum
    · refine .of_same fun _ => ?_
      rw [sysWrite]
      split
      · rfl
      split <;> rfl
    · exact .of_same fun hfailed => absurd hfailed (by simp [sysYield])
    · refine .of_same fun _ => ?_
      rw [sysGetpid]
      split <;> rfl
    · exact hsettled.sysMmap_safe a1 a2
    · exact hsettled.sysMunmap_safe a1 a2
    · exact .of_same (sysDisplayInfo_same a1 a2)
    · exact hsettled.sysDisplayPresent_safe a1 a2
    · exact .of_same (hsettled.sysInputPoll_same a1 a2)
    · exact .of_same fun _ => rfl
    · exact .of_same returning_same
    · exact .of_same (sysGetcwd_same a1 a2)
    · exact hsettled.fileCall_safe _
    · exact hsettled.fileCall_safe _
    · exact hsettled.fileCall_safe _
    · exact hsettled.sysSpawn_safe _ _
    · exact .of_same returning_same
    · exact .of_same returning_same
    · exact .of_same returning_same
    · exact .of_same (sysReaddir_same a1 a2 a3)
    · exact .of_same (sysStat_same a1 a2 a3)
    · exact hsettled.fileCall_safe _
    · exact .of_same fun _ => rfl
  refine ⟨fun hnum => ?_,fun later hfailed => ?_⟩
  · obtain ⟨answer,later,hreturn,-⟩ := hsafe hnum
    exact ⟨answer,later,hreturn⟩
  · have hnum : num≠0 := by
      intro hexit
      rw [hexit,dispatch] at hfailed
      cases hfailed
    obtain ⟨answer,found,hreturn,hsame⟩ := hsafe hnum
    rw [hreturn] at hfailed
    cases hfailed
    exact hsame rfl

/-- A machine with one process. -/
def soloMachine (caller : Caller) : Machine where
  system := {
    kernel := {FrameConservation.boot caller.vm.paging 0 with
      tasks := [⟨1,[],.running,0,some caller.vm.process,0,.idle 0⟩]
      failAfter := caller.vm.failAfter}
    mounts := []
    fs := none
    image := fun _ => none}
  files := fun _ => .empty
  input := .boot
  screen := none

/-- A process asks for five pages, and the injected failure strikes after the
first batch of four. -/
theorem failed_calls_change_nothing_injected :
    ∃ machine later,Calling machine ∧
      dispatch ⟨fun _ => true,.ok ()⟩ machine 4 0x5000 1 0=some (-1,later) ∧
      Unchanged machine later := by
  have hrun : ((spawnAlone tinyElf FrameConservation.smallPaging (some 4)).any fun caller =>
      (dispatch ⟨fun _ => true,.ok ()⟩ (soloMachine caller) 4 0x5000 1 0).any fun result =>
        result.1=-1)=true := by
    decide +kernel
  obtain ⟨caller,hspawn,hrun⟩ := (Option.any_eq_true _ _).mp hrun
  obtain ⟨⟨answer,later⟩,hdispatch,hanswer⟩ := (Option.any_eq_true _ _).mp hrun
  have hspawned := spawned_spawnAlone FrameConservation.backs_smallPaging hspawn
  obtain ⟨rax,hjob⟩ := hspawned.job
  have hcalling : Calling (soloMachine caller) := by
    refine ⟨tinyElf,_,caller.vm.process,rax,caller.others,rfl,.spawned ?_⟩
    have hsame : Caller.mk (vmOf (soloMachine caller).kernel caller.vm.process) (.idle rax)
        caller.others=caller := by
      rw [← hjob]
      rfl
    rw [hsame]
    exact hspawned
  have hfailed : answer=-1 := of_decide_eq_true hanswer
  rw [hfailed] at hdispatch
  exact ⟨soloMachine caller,later,hcalling,hdispatch,
    (failed_calls_change_nothing hcalling _ 4 0x5000 1 0).2 later hdispatch⟩

end TuwaiqOS.FailedCalls
