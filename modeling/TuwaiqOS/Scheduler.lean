import TuwaiqOS.VmCalls

/-!
# Tasks and the scheduler

The task table of `task.rs` with its scheduling functions, and the creation
of user processes. The kernel stack of a task is represented by its job: the
call it is inside of, with the local variables that hold frames. Dropping a
task drops its job without running anything.
-/

namespace TuwaiqOS.Scheduler

open Utf8Text FrameAllocator AddressSpaces ElfImage VmCalls
open BootInfoFrameAllocator (books)

/-- `TIME_SLICE_TICKS`. -/
def timeSliceTicks : ℕ := 5

/-- `REAP_GRACE_TICKS`. -/
def reapGraceTicks : ℕ := 500

/-- `MAX_TASKS`. -/
def maxTasks : ℕ := 64

/-- `USER_STACK_PAGES`. -/
def userStackPages : ℕ := 4

/-- `TaskState`. -/
inductive TaskState where
  /-- Can be scheduled. -/
  | ready
  /-- Has the processor. -/
  | running
  /-- Sleeps or waits for activation. -/
  | blocked
  /-- Is never scheduled again. -/
  | terminated
  deriving DecidableEq

/-! ## Jobs -/

/-- The arguments of `spawn_user_process_with_state`. Kernel heap allocation
number `n` of the call succeeds if `heap n` is true. -/
structure SpawnRequest where
  /-- Name of the process. -/
  name : Text
  /-- Its working directory. -/
  cwd : Text
  /-- The executable. -/
  elfBytes : List UInt8
  /-- `Ready`, or `Blocked` for a suspended process. -/
  initialState : TaskState
  /-- Which heap allocations succeed. -/
  heap : ℕ → Bool

/-- Where `spawn_user_process_with_state` is. -/
inductive SpawnStage where
  /-- At the first check of the task limit. -/
  | counting (request : SpawnRequest)
  /-- Allocating heap objects and the root table. -/
  | reserving (request : SpawnRequest)
  /-- In `build_user_tcb`, with the operations that are left. -/
  | building (request : SpawnRequest) (space : AddressSpace) (entry : ℕ) (ops : List SpaceOp)
  /-- About to take an id. -/
  | numbering (request : SpawnRequest) (space : AddressSpace) (entry : ℕ)
  /-- About to insert the task. -/
  | inserting (request : SpawnRequest) (space : AddressSpace) (entry id : ℕ)
  /-- About to free the address space of a process that did not start. -/
  | discarding (space : AddressSpace) (reason : String)
  /-- Returned. -/
  | finished (result : Except String ℕ)

/-- What a task is doing when it is not in a section with interrupts off. -/
inductive Job where
  /-- In Ring 3, or a kernel task between two commands; the last result. -/
  | idle (rax : ℤ)
  /-- Inside `MMAP`. -/
  | mmap (call : MmapCall) (stage : MmapStage)
  /-- Inside `MUNMAP`. -/
  | munmap (call : MunmapCall) (stage : MunmapStage)
  /-- About to enter the section of `exit_with_code`. -/
  | exiting (code : ℤ)
  /-- In the loop at the end of `exit_with_code`. -/
  | halted
  /-- About to call `schedule`. -/
  | yielding
  /-- Inside `spawn_user_process_with_state`. -/
  | spawning (stage : SpawnStage)
  /-- Inside `kill`, with the address space it took. -/
  | reclaiming (space : AddressSpace)

/-- `Tcb`. The stack is represented by the job. -/
structure Tcb where
  /-- Task id. -/
  id : ℕ
  /-- Name. -/
  name : Text
  /-- Scheduling state. -/
  state : TaskState
  /-- Tick at which a sleeping task is woken, or 0. -/
  wakeAtTick : ℕ
  /-- Set for user processes. -/
  process : Option ProcessState
  /-- Tick at which the task terminated, or 0. -/
  terminatedAtTick : ℕ
  /-- What the task is doing. -/
  job : Job

/-- The kernel's tasks and memory. -/
structure Kernel where
  /-- The allocator and physical memory. -/
  paging : Paging
  /-- The task table. -/
  tasks : List Tcb
  /-- Index of the task that has the processor. -/
  current : ℕ
  /-- `NEXT_ID`. -/
  nextId : ℕ
  /-- `FOREGROUND_WAKE_ID`. -/
  foregroundWakeId : ℕ
  /-- Timer ticks since boot. -/
  ticks : ℕ
  /-- `TICKS_SINCE_SWITCH`. -/
  ticksSinceSwitch : ℕ
  /-- Frame of the loaded root table. -/
  cr3 : ℕ
  /-- Frame of the kernel's own root table. -/
  kernelPml4Frame : ℕ
  /-- `MMAP_FAIL_AFTER_PAGES`, unless it is `u64::MAX`. -/
  failAfter : Option ℕ

/-- Replace a task. -/
def Kernel.setTask (kernel : Kernel) (index : ℕ) (tcb : Tcb) : Kernel :=
  {kernel with tasks := kernel.tasks.set index tcb}

/-- Replace the allocator. -/
def Kernel.setAllocator (kernel : Kernel) (allocator : BootInfoFrameAllocator) : Kernel :=
  {kernel with paging := {kernel.paging with allocator := allocator}}

/-! ## Scheduling -/

/-- The address space of a task. -/
def Tcb.space (tcb : Tcb) : Option AddressSpace := tcb.process.bind ProcessState.addressSpace

/-- The task without its address space. -/
def Tcb.withoutSpace (tcb : Tcb) : Tcb :=
  {tcb with process := tcb.process.map fun process => {process with addressSpace := none}}

/-- Free the address space of a task, if it has one. -/
def freeSpaceOf (allocator : BootInfoFrameAllocator) (tcb : Tcb) : BootInfoFrameAllocator :=
  match tcb.space with
  | none => allocator
  | some space => freeAddressSpace space allocator

/-- `should_reap`. -/
def shouldReap (currentId now : ℕ) (force : Bool) (tcb : Tcb) : Bool :=
  tcb.id≠currentId ∧ tcb.state=.terminated ∧
    (force=true ∨ reapGraceTicks≤now-tcb.terminatedAtTick)

/-- `Scheduler::reap_terminated`. -/
def Kernel.reapTerminated (kernel : Kernel) (force : Bool) : Kernel :=
  match kernel.tasks[kernel.current]? with
  | none => kernel
  | some running =>
    let reaped := shouldReap running.id kernel.ticks force
    let tasks := kernel.tasks.filter fun tcb => !reaped tcb
    {kernel.setAllocator (kernel.tasks.foldl (fun allocator tcb =>
        if reaped tcb then freeSpaceOf allocator tcb else allocator) kernel.paging.allocator) with
      tasks := tasks
      current := tasks.findIdx fun tcb => tcb.id=running.id}

/-- The foreground task of a wake request, or the current task. -/
def requestedNext (tasks : List Tcb) (current currentId requested : ℕ) : ℕ :=
  if requested≠0 then
    (tasks.findIdx? fun tcb => tcb.id=requested ∧ tcb.state=.ready ∧ tcb.id≠currentId).getD current
  else current

/-- The first ready task after the current one in round-robin order, or the
current task. -/
def roundRobinNext (tasks : List Tcb) (current : ℕ) : ℕ :=
  (((List.range' 1 tasks.length).map fun offset => (current+offset)%tasks.length).find?
    fun index => (tasks[index]?.map Tcb.state)=some .ready).getD current

/-- The search for the next task in `prepare_switch`. -/
def selectNext (tasks : List Tcb) (current currentId requested : ℕ) : ℕ :=
  if requestedNext tasks current currentId requested≠current then
    requestedNext tasks current currentId requested
  else roundRobinNext tasks current

/-- `SwitchPlan`, without the stack pointers. -/
structure SwitchPlan where
  /-- Root table of the incoming task. -/
  newCr3 : ℕ
  /-- Address space of an outgoing task that terminated. -/
  reclaim : Option AddressSpace

/-- `Scheduler::prepare_switch`. -/
def Kernel.prepareSwitch (before : Kernel) : Option SwitchPlan×Kernel :=
  let kernel := before.reapTerminated false
  if kernel.tasks.length<2 then (none,kernel)
  else
    match kernel.tasks[kernel.current]? with
    | none => (none,kernel)
    | some tcb =>
      let outgoing := if tcb.state=.running then {tcb with state := .ready} else tcb
      let tasks := kernel.tasks.set kernel.current outgoing
      let next := selectNext tasks kernel.current outgoing.id kernel.foregroundWakeId
      if next=kernel.current then
        (none,{kernel with
          tasks := if outgoing.state=.terminated then tasks
            else tasks.set kernel.current {outgoing with state := .running}
          foregroundWakeId := 0})
      else
        match tasks[next]? with
        | none => (none,kernel)
        | some incoming =>
          let left := if outgoing.state=.terminated then
            tasks.set kernel.current outgoing.withoutSpace else tasks
          (some ⟨((incoming.space.map AddressSpace.pml4Frame).getD kernel.kernelPml4Frame),
              if outgoing.state=.terminated then outgoing.space else none⟩,
            {kernel with
              tasks := left.set next {incoming with state := .running}
              current := next
              foregroundWakeId := 0})

/-- `schedule`. -/
def Kernel.schedule (kernel : Kernel) : Kernel :=
  match kernel.prepareSwitch with
  | (none,later) => later
  | (some plan,later) =>
    {later.setAllocator (match plan.reclaim with
      | none => later.paging.allocator
      | some space => freeAddressSpace space later.paging.allocator) with cr3 := plan.newCr3}

/-- Wake a sleeping task whose time has come. -/
def Tcb.wake (now : ℕ) (tcb : Tcb) : Tcb :=
  if tcb.state=.blocked ∧ tcb.wakeAtTick≠0 ∧ tcb.wakeAtTick≤now then
    {tcb with state := .ready,wakeAtTick := 0}
  else tcb

/-- The timer interrupt with `on_timer_tick`. -/
def Kernel.onTimerTick (kernel : Kernel) : Kernel :=
  let woken := {kernel with
    ticks := kernel.ticks+1
    tasks := kernel.tasks.map (Tcb.wake (kernel.ticks+1))
    ticksSinceSwitch := kernel.ticksSinceSwitch+1}
  if timeSliceTicks≤woken.ticksSinceSwitch then
    Kernel.schedule {woken with ticksSinceSwitch := 0}
  else woken

/-- The task with another job. -/
def Tcb.doing (tcb : Tcb) (job : Job) : Tcb := {tcb with job := job}

/-- The task after the section of `exit_with_code`. -/
def Tcb.exited (tcb : Tcb) (now : ℕ) (code : ℤ) : Tcb :=
  {tcb with
    state := .terminated
    terminatedAtTick := now
    process := tcb.process.map fun process => {process with exitCode := some code}
    job := .halted}

/-- The task after the section of `sleep_ticks`. -/
def Tcb.asleep (tcb : Tcb) (wakeAt : ℕ) : Tcb :=
  {tcb with state := .blocked,wakeAtTick := wakeAt,job := .yielding}

/-- The task after it was killed. -/
def Tcb.killed (tcb : Tcb) (now : ℕ) : Tcb :=
  {tcb with state := .terminated,terminatedAtTick := now}

/-- The section of `exit_with_code`. -/
def Kernel.exitWithCode (kernel : Kernel) (code : ℤ) : Kernel :=
  match kernel.tasks[kernel.current]? with
  | none => kernel
  | some tcb => kernel.setTask kernel.current (tcb.exited kernel.ticks code)

/-- `kill` up to the end of its scheduler section: the address space it took
and the table it left. -/
def Kernel.kill (kernel : Kernel) (id : ℕ) : Except String (Option AddressSpace×Kernel) :=
  if id=1 then .error "cannot kill shell task"
  else
    let isCurrent := (kernel.tasks[kernel.current]?.map Tcb.id)=some id
    let index := kernel.tasks.findIdx fun tcb => tcb.id=id
    match kernel.tasks[index]? with
    | none => .error "task not found"
    | some tcb =>
      let victim := tcb.killed kernel.ticks
      if isCurrent then .ok (none,kernel.setTask index victim)
      else .ok (victim.space,kernel.setTask index victim.withoutSpace)

/-- `activate_task`. -/
def Kernel.activateTask (kernel : Kernel) (id : ℕ) : Kernel :=
  let index := kernel.tasks.findIdx fun tcb => tcb.id=id
  match kernel.tasks[index]? with
  | none => kernel
  | some tcb =>
    if tcb.state≠.blocked ∨ tcb.wakeAtTick≠0 then kernel
    else kernel.setTask index {tcb with state := .ready}

/-! ## What a switch does -/

/-- Whether the task at an index can be selected. -/
def ReadyAt (tasks : List Tcb) (index : ℕ) : Prop :=
  ∃ tcb,tasks[index]? = some tcb ∧ tcb.state=.ready

variable {tasks : List Tcb} {index current currentId requested : ℕ}

theorem readyAt_iff :
    (tasks[index]?.map Tcb.state)=some .ready ↔ ReadyAt tasks index := Option.map_eq_some_iff

/-- A wake request selects the requested task if it is ready and not the
current one. -/
theorem requestedNext_ready (hnext : requestedNext tasks current currentId requested≠current) :
    ∃ incoming,tasks[requestedNext tasks current currentId requested]? = some incoming ∧
      incoming.id=requested ∧ incoming.state=.ready := by
  rw [requestedNext] at hnext ⊢
  split at hnext
  · rename_i hrequested
    rw [if_pos hrequested]
    cases hfind : tasks.findIdx? fun tcb =>
        tcb.id=requested ∧ tcb.state=.ready ∧ tcb.id≠currentId with
    | none =>
      rw [hfind] at hnext
      exact absurd rfl hnext
    | some index =>
      obtain ⟨hlength,hready,-⟩ := List.findIdx?_eq_some_iff_getElem.mp hfind
      have hmatch := of_decide_eq_true hready
      exact ⟨tasks[index],List.getElem?_eq_getElem hlength,hmatch.1,hmatch.2.1⟩
  · exact absurd rfl hnext

/-- The round-robin scan takes the first ready task it meets, and stays only
if no task is ready. -/
theorem roundRobinNext_cases (tasks : List Tcb) (current : ℕ) :
    (∃ offset,1≤offset ∧ offset≤tasks.length ∧
      roundRobinNext tasks current=(current+offset)%tasks.length ∧
      ReadyAt tasks ((current+offset)%tasks.length) ∧
      ∀ other,1≤other → other<offset → ¬ReadyAt tasks ((current+other)%tasks.length)) ∨
    (roundRobinNext tasks current=current ∧
      ∀ other,1≤other → other≤tasks.length → ¬ReadyAt tasks ((current+other)%tasks.length)) := by
  rw [roundRobinNext,List.find?_map]
  cases hfind : (List.range' 1 tasks.length).find? ((fun index =>
      decide ((tasks[index]?.map Tcb.state)=some .ready)) ∘
        fun offset => (current+offset)%tasks.length) with
  | none =>
    refine .inr ⟨rfl,fun other hlow hhigh hready => ?_⟩
    have hnot := List.find?_range'_eq_none.mp hfind other hlow (by omega)
    simp only [Function.comp_apply,readyAt_iff.mpr hready,decide_true,Bool.not_true,
      Bool.false_eq_true] at hnot
  | some offset =>
    obtain ⟨hready,hrange,hfirst⟩ := List.find?_range'_eq_some.mp hfind
    obtain ⟨hlow,hhigh⟩ := List.mem_range'_1.mp hrange
    refine .inl ⟨offset,hlow,by omega,rfl,readyAt_iff.mp (of_decide_eq_true hready),?_⟩
    intro other hother hless hnot
    have hskip := hfirst other hother hless
    simp only [Function.comp_apply,readyAt_iff.mpr hnot,decide_true,Bool.not_true,
      Bool.false_eq_true] at hskip

/-- Every other index is met by the scan. -/
theorem scan_reaches {length : ℕ} (hcurrent : current<length) (hindex : index<length)
    (hother : index≠current) :
    ∃ offset,1≤offset ∧ offset<length ∧ (current+offset)%length=index := by
  rcases Nat.lt_or_gt_of_ne hother with hless|hgreater
  · refine ⟨length-current+index,by omega,by omega,?_⟩
    rw [show current+(length-current+index)=index+length by omega,Nat.add_mod_right,
      Nat.mod_eq_of_lt hindex]
  · refine ⟨index-current,by omega,by omega,?_⟩
    rw [show current+(index-current)=index by omega,Nat.mod_eq_of_lt hindex]

/-- The scan goes to another task exactly if another task is ready. -/
theorem roundRobinNext_ready (hnext : roundRobinNext tasks current≠current) :
    ReadyAt tasks (roundRobinNext tasks current) := by
  rcases roundRobinNext_cases tasks current with ⟨offset,-,-,hvalue,hready,-⟩|⟨hstays,-⟩
  · rw [hvalue]
    exact hready
  · exact absurd hstays hnext

theorem roundRobinNext_stays (hcurrent : current<tasks.length)
    (hnext : roundRobinNext tasks current=current) (hother : index≠current) :
    ¬ReadyAt tasks index := by
  intro hready
  have hindex : index<tasks.length := by
    obtain ⟨tcb,hget,-⟩ := hready
    exact (List.getElem?_eq_some_iff.mp hget).1
  obtain ⟨offset,hlow,hhigh,rfl⟩ := scan_reaches hcurrent hindex hother
  rcases roundRobinNext_cases tasks current with ⟨found,hfound,hlast,hvalue,-,hfirst⟩|⟨-,hnone⟩
  · -- the scan came back to the current task, so it passed all others
    have hround : found=tasks.length := by
      by_contra hshort
      have hmod := hvalue.symm.trans hnext
      rcases Nat.lt_or_ge (current+found) tasks.length with hsmall|hbig
      · rw [Nat.mod_eq_of_lt hsmall] at hmod
        omega
      · rw [Nat.mod_eq_sub_mod hbig,Nat.mod_eq_of_lt (by omega)] at hmod
        omega
    exact hfirst offset hlow (by omega) hready
  · exact hnone offset hlow (by omega) hready

/-- The task selected in place of the current one is ready. -/
theorem selectNext_ready (hnext : selectNext tasks current currentId requested≠current) :
    ∃ incoming,tasks[selectNext tasks current currentId requested]? = some incoming ∧
      incoming.state=.ready := by
  rw [selectNext] at hnext ⊢
  split at hnext
  · rename_i hwoken
    rw [if_pos hwoken]
    obtain ⟨incoming,hget,-,hready⟩ := requestedNext_ready hwoken
    exact ⟨incoming,hget,hready⟩
  · rename_i hstays
    rw [if_neg hstays]
    exact roundRobinNext_ready hnext

/-- The current task is selected again only if no other task is ready. -/
theorem selectNext_stays (hcurrent : current<tasks.length)
    (hnext : selectNext tasks current currentId requested=current) (hother : index≠current) :
    ¬ReadyAt tasks index := by
  rw [selectNext] at hnext
  split at hnext
  · rename_i hwoken
    exact absurd hnext hwoken
  · exact roundRobinNext_stays hcurrent hnext hother

/-- The outgoing task of a switch: ready again if it was running. -/
def Tcb.preempted (tcb : Tcb) : Tcb :=
  if tcb.state=.running then {tcb with state := .ready} else tcb

/-- The current task when no other is ready: it keeps the processor unless
it terminated. -/
def Tcb.resumed (tcb : Tcb) : Tcb :=
  if tcb.preempted.state=.terminated then tcb.preempted
  else {tcb.preempted with state := .running}

/-- The root table of a task. -/
def Kernel.rootOf (kernel : Kernel) (tcb : Tcb) : ℕ :=
  (tcb.space.map AddressSpace.pml4Frame).getD kernel.kernelPml4Frame

/-- A switch to another task, with the table after reaping and the outgoing
task. -/
structure HandsOver (kernel reaped : Kernel) (tcb : Tcb) (index : ℕ) (incoming : Tcb) : Prop where
  /-- The task is another one. -/
  other : index≠reaped.current
  /-- It is the selected one. -/
  selected : index=selectNext (reaped.tasks.set reaped.current tcb.preempted) reaped.current tcb.id
    reaped.foregroundWakeId
  /-- Where it is. -/
  get : reaped.tasks[index]? = some incoming
  /-- It is ready. -/
  ready : incoming.state=.ready
  /-- It gets the processor. -/
  plan : kernel.prepareSwitch=(some ⟨reaped.rootOf incoming,
      if tcb.state=.terminated then tcb.space else none⟩,
    {reaped with
      tasks := (reaped.tasks.set reaped.current (if tcb.state=.terminated then
        tcb.withoutSpace else tcb.preempted)).set index {incoming with state := .running}
      current := index,foregroundWakeId := 0})

/-- Everything `prepare_switch` can do after it has reaped: there is one task
only, no other task is ready, or a ready task gets the processor. -/
theorem prepareSwitch_cases {kernel reaped : Kernel} {tcb : Tcb}
    (hreaped : kernel.reapTerminated false=reaped)
    (hget : reaped.tasks[reaped.current]? = some tcb) :
    (reaped.tasks.length<2 ∧ kernel.prepareSwitch=(none,reaped)) ∨
    ((∀ index,index≠reaped.current → ¬ReadyAt reaped.tasks index) ∧
      kernel.prepareSwitch=(none,{reaped with
        tasks := reaped.tasks.set reaped.current tcb.resumed,foregroundWakeId := 0})) ∨
    (∃ index incoming,HandsOver kernel reaped tcb index incoming) := by
  have hcurrent := (List.getElem?_eq_some_iff.mp hget).1
  have hid : tcb.preempted.id=tcb.id := by
    rw [Tcb.preempted]
    split <;> rfl
  have hdead : tcb.preempted.state=.terminated ↔ tcb.state=.terminated := by
    rw [Tcb.preempted]
    split
    · rename_i hrunning
      rw [hrunning]
      exact ⟨nofun,nofun⟩
    · exact Iff.rfl
  have hswitch := Kernel.prepareSwitch.eq_1 kernel
  rw [hreaped] at hswitch
  dsimp only at hswitch
  by_cases hfew : reaped.tasks.length<2
  · exact .inl ⟨hfew,hswitch.trans (if_pos hfew)⟩
  rw [if_neg hfew,hget] at hswitch
  dsimp only at hswitch
  rw [← Tcb.preempted,hid] at hswitch
  by_cases hnext : selectNext (reaped.tasks.set reaped.current tcb.preempted) reaped.current tcb.id
      reaped.foregroundWakeId=reaped.current
  · refine .inr (.inl ⟨fun index hother hready => ?_,?_⟩)
    · refine selectNext_stays (by rwa [List.length_set]) hnext hother ?_
      obtain ⟨other,hother',hready⟩ := hready
      exact ⟨other,(List.getElem?_set_ne (Ne.symm hother)).trans hother',hready⟩
    · rw [hswitch,if_pos hnext,Tcb.resumed]
      split
      · rfl
      · rw [List.set_set,← hid]
  · obtain ⟨incoming,hincoming,hready⟩ := selectNext_ready hnext
    refine .inr (.inr ⟨_,incoming,hnext,rfl,?_,hready,?_⟩)
    · rwa [List.getElem?_set_ne (Ne.symm hnext)] at hincoming
    · rw [hswitch,if_neg hnext,hincoming]
      dsimp only
      simp only [hdead]
      split
      · rename_i hterminated
        have hsame : tcb.preempted=tcb := by
          rw [Tcb.preempted,if_neg (by rw [hterminated]; nofun)]
        rw [hsame,List.set_set]
        rfl
      · rfl
/-! ## Creating processes -/

/-- The operations of `build_user_tcb`: the executable and the user stack. -/
def buildPlan (elfBytes : List UInt8) : Except String (ℕ×List SpaceOp) := do
  let (entry,ops) ← loadPlan elfBytes
  let stackTop := userSpaceBase+userSpaceSize-0x1000
  let stackBottom := stackTop-userStackPages*4096
  return (entry,ops++(List.range' (stackBottom/4096) userStackPages).map (SpaceOp.map ·
    ⟨true,true,true,true⟩)++[.zero stackBottom (userStackPages*4096)])

/-- `try_user_process_resources`: kernel stack, name, working directory and
file table. -/
def tryUserProcessResources (request : SpawnRequest) : Except String Unit :=
  if request.heap 0=false then .error "kernel stack allocation failed"
  else if request.heap 1=false ∨ request.heap 2=false then
    .error "process string allocation failed"
  else if request.heap 3=false then .error "file table allocation failed"
  else .ok ()

/-- `new_user_tcb`. -/
def newUserTcb (request : SpawnRequest) (space : AddressSpace) (entry id : ℕ) : Tcb where
  id := id
  name := request.name
  state := request.initialState
  wakeAtTick := 0
  process := some {
    addressSpace := some space
    entryPoint := entry
    userStackTop := userSpaceBase+userSpaceSize-0x1000
    exitCode := none
    mmapNext := userMmapBase
    cwd := request.cwd}
  terminatedAtTick := 0
  job := .idle 0

/-- The next section of `spawn_user_process_with_state`. -/
def spawnStep (kernel : Kernel) : SpawnStage → SpawnStage×Kernel
  | .counting request =>
    if maxTasks≤kernel.tasks.length then (.finished (.error "task limit reached"),kernel)
    else (.reserving request,kernel)
  | .reserving request =>
    match tryUserProcessResources request with
    | .error reason => (.finished (.error reason),kernel)
    | .ok () =>
      match newAddressSpace kernel.paging.allocator with
      | .error reason => (.finished (.error reason),kernel)
      | .ok (space,allocator) =>
        (match buildPlan request.elfBytes with
          | .error reason => .discarding space reason
          | .ok (entry,ops) => .building request space entry ops,
          kernel.setAllocator allocator)
  | .building request space entry [] => (.numbering request space entry,kernel)
  | .building request space entry (op::rest) =>
    let performed := op.perform space kernel.paging
    (match performed.1 with
      | .error reason => .discarding performed.2.1 reason
      | .ok () => .building request performed.2.1 entry rest,
      {kernel with paging := performed.2.2})
  | .numbering request space entry =>
    (if request.heap 4 then .inserting request space entry kernel.nextId
      else .discarding space "task control block allocation failed",
      {kernel with nextId := kernel.nextId+1})
  | .inserting request space entry id =>
    if maxTasks≤kernel.tasks.length then (.discarding space "task limit reached",kernel)
    else
      (.finished (.ok id),
        {kernel with tasks := kernel.tasks++[newUserTcb request space entry id]})
  | .discarding space reason =>
    (.finished (.error reason),kernel.setAllocator (freeAddressSpace space
      kernel.paging.allocator))
  | .finished result => (.finished result,kernel)

/-- Sections that are left at most. -/
def SpawnStage.fuel : SpawnStage → ℕ
  | .counting request => 6+(match buildPlan request.elfBytes with
    | .error _ => 0
    | .ok (_,ops) => ops.length)
  | .reserving request => 5+(match buildPlan request.elfBytes with
    | .error _ => 0
    | .ok (_,ops) => ops.length)
  | .building _ _ _ ops => 4+ops.length
  | .numbering _ _ _ => 3
  | .inserting _ _ _ _ => 2
  | .discarding _ _ => 1
  | .finished _ => 0

/-- All sections of a call, without a task switch. -/
def spawnRun : ℕ → SpawnStage×Kernel → SpawnStage×Kernel
  | 0,state => state
  | fuel+1,state => spawnRun fuel (spawnStep state.2 state.1)

/-- `spawn_user_process_with_state` with interrupts off. -/
def Kernel.spawnUserProcess (kernel : Kernel) (request : SpawnRequest) : SpawnStage×Kernel :=
  spawnRun (SpawnStage.counting request).fuel (.counting request,kernel)

/-- What a section of a spawn can do. -/
inductive Spawns (kernel : Kernel) : SpawnStage → SpawnStage×Kernel → Prop where
  /-- There is no room in the table. -/
  | crowded (request : SpawnRequest) :
    Spawns kernel (.counting request) (.finished (.error "task limit reached"),kernel)
  /-- There is room so far. -/
  | counted (request : SpawnRequest) : Spawns kernel (.counting request) (.reserving request,kernel)
  /-- Resources or the root table are refused. -/
  | refused (request : SpawnRequest) (reason : String) :
    Spawns kernel (.reserving request) (.finished (.error reason),kernel)
  /-- The executable is refused. -/
  | rejected (request : SpawnRequest) (space : AddressSpace) (allocator : BootInfoFrameAllocator)
    (reason : String) (hnew : newAddressSpace kernel.paging.allocator=.ok (space,allocator)) :
    Spawns kernel (.reserving request) (.discarding space reason,kernel.setAllocator allocator)
  /-- The executable is to be loaded. -/
  | planned (request : SpawnRequest) (space : AddressSpace) (allocator : BootInfoFrameAllocator)
    (entry : ℕ) (ops : List SpaceOp)
    (hnew : newAddressSpace kernel.paging.allocator=.ok (space,allocator))
    (hplan : buildPlan request.elfBytes=.ok (entry,ops)) :
    Spawns kernel (.reserving request)
      (.building request space entry ops,kernel.setAllocator allocator)
  /-- An operation fails. -/
  | faulted (request : SpawnRequest) (space : AddressSpace) (entry : ℕ) (op : SpaceOp)
    (rest : List SpaceOp) (reason : String) :
    Spawns kernel (.building request space entry (op::rest))
      (.discarding (op.perform space kernel.paging).2.1 reason,
        {kernel with paging := (op.perform space kernel.paging).2.2})
  /-- An operation succeeds. -/
  | performed (request : SpawnRequest) (space : AddressSpace) (entry : ℕ) (op : SpaceOp)
    (rest : List SpaceOp) :
    Spawns kernel (.building request space entry (op::rest))
      (.building request (op.perform space kernel.paging).2.1 entry rest,
        {kernel with paging := (op.perform space kernel.paging).2.2})
  /-- The image is complete. -/
  | built (request : SpawnRequest) (space : AddressSpace) (entry : ℕ) :
    Spawns kernel (.building request space entry []) (.numbering request space entry,kernel)
  /-- An id is taken. -/
  | numbered (request : SpawnRequest) (space : AddressSpace) (entry : ℕ) :
    Spawns kernel (.numbering request space entry)
      (.inserting request space entry kernel.nextId,{kernel with nextId := kernel.nextId+1})
  /-- An id is taken, and the control block is refused. -/
  | unboxed (request : SpawnRequest) (space : AddressSpace) (entry : ℕ) (reason : String) :
    Spawns kernel (.numbering request space entry)
      (.discarding space reason,{kernel with nextId := kernel.nextId+1})
  /-- There is no room in the table any more. -/
  | late (request : SpawnRequest) (space : AddressSpace) (entry id : ℕ) (reason : String) :
    Spawns kernel (.inserting request space entry id) (.discarding space reason,kernel)
  /-- The process is inserted. -/
  | inserted (request : SpawnRequest) (space : AddressSpace) (entry id : ℕ)
    (hroom : kernel.tasks.length < maxTasks) :
    Spawns kernel (.inserting request space entry id) (.finished (.ok id),
      {kernel with tasks := kernel.tasks++[newUserTcb request space entry id]})
  /-- The new space is freed again. -/
  | discarded (space : AddressSpace) (reason : String) :
    Spawns kernel (.discarding space reason) (.finished (.error reason),
      kernel.setAllocator (freeAddressSpace space kernel.paging.allocator))
  /-- The spawn is over. -/
  | ended (result : Except String ℕ) : Spawns kernel (.finished result) (.finished result,kernel)

/-- Every section does one of these. -/
theorem exists_spawns (kernel : Kernel) (stage : SpawnStage) :
    ∃ next,spawnStep kernel stage=next ∧ Spawns kernel stage next := by
  refine ⟨_,rfl,?_⟩
  cases stage with
  | counting request =>
    rw [spawnStep]
    split
    · exact .crowded request
    · exact .counted request
  | reserving request =>
    rw [spawnStep]
    split
    · exact .refused request _
    split
    · exact .refused request _
    rename_i space allocator hnew
    split
    · exact .rejected request space allocator _ hnew
    · rename_i entry ops hplan
      exact .planned request space allocator entry ops hnew hplan
  | building request space entry ops =>
    cases ops with
    | nil => exact .built request space entry
    | cons op rest =>
      rw [spawnStep]
      split
      · exact .faulted request space entry op rest _
      · exact .performed request space entry op rest
  | numbering request space entry =>
    rw [spawnStep]
    split
    · exact .numbered request space entry
    · exact .unboxed request space entry _
  | inserting request space entry id =>
    rw [spawnStep]
    split
    · exact .late request space entry id _
    · rename_i hroom
      exact .inserted request space entry id (not_le.mp hroom)
  | discarding space reason => exact .discarded space reason
  | finished result => exact .ended result

/-- A section leaves less to do. -/
theorem fuel_spawnStep (kernel : Kernel) (stage : SpawnStage) :
    (spawnStep kernel stage).1.fuel ≤ stage.fuel-1 := by
  obtain ⟨next,hnext,hspawns⟩ := exists_spawns kernel stage
  rw [hnext]
  cases hspawns with
  | planned request space allocator entry ops hnew hplan =>
    simp only [SpawnStage.fuel,hplan]
    omega
  | _ => simp only [SpawnStage.fuel,List.length_cons]; omega

theorem spawnRun_finishes {fuel : ℕ} {state : SpawnStage×Kernel} (hfuel : state.1.fuel≤fuel) :
    ∃ result,(spawnRun fuel state).1=.finished result := by
  induction fuel generalizing state with
  | zero =>
    obtain ⟨stage,kernel⟩ := state
    cases stage with
    | finished result => exact ⟨result,rfl⟩
    | _ => simp only [SpawnStage.fuel] at hfuel; omega
  | succ fuel ih =>
    refine ih ?_
    have hless := fuel_spawnStep state.2 state.1
    omega

/-- A spawn with interrupts off returns. -/
theorem spawnUserProcess_finishes (kernel : Kernel) (request : SpawnRequest) :
    ∃ result,(kernel.spawnUserProcess request).1=.finished result :=
  spawnRun_finishes le_rfl

end TuwaiqOS.Scheduler
