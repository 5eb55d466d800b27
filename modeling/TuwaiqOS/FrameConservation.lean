import Mathlib.Logic.Relation
import TuwaiqOS.FrameLedger

/-!
# No frame of a process is lost

The kernel runs in events: a timer interrupt, the next section of the
current task's call, a system call of a user process, or a command of the
shell. Interrupts come between any two sections, so a task can be switched
away from and killed anywhere inside a call. As long as no kill strikes a
process between the section of `MUNMAP` that removes frames from the
ownership list and the one that returns them, every frame handed out is in
the pool, in an address space or in a local variable of a live task. A kill
between these two sections loses the frames for good.
-/

namespace TuwaiqOS.FrameConservation

open ResourceLedger FrameAllocator AddressSpaces ElfImage VmCalls Scheduler FrameLedger
open Utf8Text (Text)
open BootInfoFrameAllocator (books)

/-! ## Events -/

/-- What can happen next. -/
inductive Event where
  /-- A timer interrupt. -/
  | tick
  /-- The current task performs its next section. -/
  | advance
  /-- The current process calls `MMAP`. -/
  | mmap (len : ℕ) (writable : Bool)
  /-- The current process calls `MUNMAP`. -/
  | munmap (ptr len : ℕ)
  /-- The current process calls `SPAWN`, which reads this executable. -/
  | spawn (name : Text) (elfBytes : List UInt8) (heap : ℕ → Bool)
  /-- The current process calls `EXIT`. -/
  | exit (code : ℤ)
  /-- The current task yields. -/
  | yield
  /-- The current kernel task sleeps. -/
  | sleep (ticks : ℕ)
  /-- The shell kills a task. -/
  | kill (id : ℕ)
  /-- The shell spawns a process, with interrupts on. -/
  | launch (request : SpawnRequest)
  /-- The shell activates a suspended process. -/
  | activate (id : ℕ)
  /-- The shell reaps terminated tasks. -/
  | reap
  /-- The shell arms or clears the injected `MMAP` failure. -/
  | inject (failAfter : Option ℕ)
  /-- Input arrives for a foreground process. -/
  | wake (id : ℕ)

/-- The task's job after a step of a call. -/
def jobAfter {Stage : Type} (job : Stage → Job) : Outcome Stage → Job
  | .next stage => job stage
  | .done rax => .idle rax
  | .exit code => .exiting code

/-- The task's job after a section of a spawn. -/
def jobAfterSpawn : SpawnStage → Job
  | .finished (.ok id) => .idle id
  | .finished (.error _) => .idle (-1)
  | stage => .spawning stage

/-- The shell's job after the scheduler section of `kill`. -/
def jobAfterKill : Option AddressSpace → Job
  | none => .idle 0
  | some space => .reclaiming space

section

variable (kernel : Kernel)

/-- The current task with a new job. -/
def withJob (tcb : Tcb) (job : Job) : Kernel :=
  kernel.setTask kernel.current (tcb.doing job)

/-- What the sections of a call of this process work on. -/
def vmOf (process : ProcessState) : VmState :=
  ⟨process,kernel.paging,kernel.failAfter⟩

/-- Store what a section of a call did. -/
def storeVm (tcb : Tcb) (vm : VmState) (job : Job) : Kernel :=
  {kernel.setTask kernel.current (Tcb.doing {tcb with process := some vm.process} job) with
    paging := vm.paging
    failAfter := vm.failAfter}

/-- The current task performs its next section. -/
def advance (tcb : Tcb) : Option Kernel :=
  match tcb.job with
  | .idle _ => none
  | .mmap call stage =>
    tcb.process.map fun process =>
      let stepped := mmapStep call (vmOf kernel process) stage
      storeVm kernel tcb stepped.2 (jobAfter (.mmap call) stepped.1)
  | .munmap call stage =>
    tcb.process.map fun process =>
      let stepped := munmapStep call (vmOf kernel process) stage
      storeVm kernel tcb stepped.2 (jobAfter (.munmap call) stepped.1)
  | .exiting code => some (kernel.exitWithCode code)
  | .halted => some kernel.schedule
  | .yielding => some (withJob kernel tcb (.idle 0)).schedule
  | .spawning stage =>
    let stepped := spawnStep (withJob kernel tcb (.idle 0)) stage
    some (withJob stepped.2 tcb (jobAfterSpawn stepped.1))
  | .reclaiming space =>
    some (withJob (kernel.setAllocator (freeAddressSpace space kernel.paging.allocator)) tcb
      (.idle 0))

/-- A system call of the current process. -/
def systemCall (tcb : Tcb) (process : ProcessState) : Event → Option Kernel
  | .mmap len writable =>
    match mmapEnter len writable (vmOf kernel process) with
    | none => some (withJob kernel tcb (.idle (-1)))
    | some call => some (withJob kernel tcb (.mmap call (.checking 0)))
  | .munmap ptr len =>
    match munmapEnter ptr len process with
    | none => some (withJob kernel tcb (.idle (-1)))
    | some call => some (withJob kernel tcb (.munmap call (.collecting 0 [])))
  | .spawn name elfBytes heap =>
    let spawned := kernel.spawnUserProcess ⟨name,process.cwd,elfBytes,.ready,heap⟩
    some (withJob spawned.2 tcb (jobAfterSpawn spawned.1))
  | .exit code => some (kernel.exitWithCode code)
  | _ => none

/-- A command of the shell. -/
def shellCommand (tcb : Tcb) : Event → Option Kernel
  | .kill id =>
    match kernel.kill id with
    | .error _ => some (withJob kernel tcb (.idle (-1)))
    | .ok (space,later) => some (withJob later tcb (jobAfterKill space))
  | .launch request => some (withJob kernel tcb (.spawning (.counting request)))
  | .activate id => some (kernel.activateTask id)
  | .reap => some (kernel.reapTerminated true)
  | .inject failAfter => some {kernel with failAfter := failAfter}
  | _ => none

/-- What the current task can do between two calls. -/
def command (tcb : Tcb) (event : Event) : Option Kernel :=
  match tcb.process with
  | some process => systemCall kernel tcb process event
  | none => if tcb.id=1 then shellCommand kernel tcb event else none

/-- The next state of the kernel, if the event can happen. -/
def step (event : Event) : Option Kernel :=
  match kernel.tasks[kernel.current]? with
  | none => none
  | some tcb =>
    match event with
    | .tick => some kernel.onTimerTick
    | .wake id => some {kernel with foregroundWakeId := id,ticksSinceSwitch := timeSliceTicks}
    | .advance => advance kernel tcb
    | .yield =>
      match tcb.job with
      | .idle _ => some (Kernel.schedule {withJob kernel tcb (.idle 0) with ticksSinceSwitch := 0})
      | _ => none
    | .sleep ticks =>
      match tcb.job,tcb.process with
      | .idle _,none => some (kernel.setTask kernel.current (tcb.asleep (kernel.ticks+ticks)))
      | _,_ => none
    | event =>
      match tcb.job with
      | .idle _ => command kernel tcb event
      | _ => none

end

/-- A step whose kill, if it is one, is allowed. -/
def Step (mayKill : Kernel → ℕ → Prop) (kernel later : Kernel) : Prop :=
  ∃ event,(∀ id,event=.kill id → mayKill kernel id) ∧ step kernel event=some later

/-- All events of a list, one after another. -/
def run : List Event → Kernel → Option Kernel
  | [],kernel => some kernel
  | event::rest,kernel => (step kernel event).bind (run rest)

/-- The kernel after boot, with the shell, the idle task and the heartbeat. -/
def boot (paging : Paging) (kernelPml4Frame : ℕ) : Kernel where
  paging := paging
  tasks := [⟨1,"shell".toList,.running,0,none,0,.idle 0⟩,⟨2,"idle".toList,.ready,0,none,0,.idle 0⟩,
    ⟨3,"heartbeat".toList,.ready,0,none,0,.idle 0⟩]
  current := 0
  nextId := 4
  foregroundWakeId := 0
  ticks := 0
  ticksSinceSwitch := 0
  cr3 := kernelPml4Frame
  kernelPml4Frame := kernelPml4Frame
  failAfter := none

/-! ## One event -/

/-- The balance with a steady current task. -/
def Kept (reserved : Multiset ℕ) (kernel : Kernel) : Prop :=
  Sound reserved kernel ∧ Steady kernel

variable {reserved : Multiset ℕ} {kernel later : Kernel} {tcb next : Tcb}

/-- The current task changes, and frames move between the allocator and this
task. -/
theorem kept_set (hsound : Sound reserved kernel) (hget : kernel.tasks[kernel.current]? = some tcb)
    (hid : next.id=tcb.id)
    (hmove : Moves books kernel.paging.allocator tcb.held later.paging.allocator next.held)
    (hok : next.Ok) (hpending : next.job.pending=none)
    (hhalted : next.state=.terminated → next.job=.halted)
    (htasks : later.tasks=kernel.tasks.set kernel.current next)
    (hcurrent : later.current=kernel.current) (hnext : later.nextId=kernel.nextId) :
    Kept reserved later := by
  refine ⟨hsound.set hget hid (hmove.frame_left reserved) hok ?_ htasks hnext,next,?_,hhalted⟩
  · intro id htaken
    rw [hpending] at htaken
    cases htaken
  · rw [htasks,hcurrent]
    exact getElem?_set_of_get hget

/-- A live task's frames with another job. -/
theorem held_doing (hlive : tcb.state≠.terminated) (job : Job) :
    (tcb.doing job).held=tcb.ownedFrames+job.frames :=
  Tcb.held_live hlive

variable {event : Event} {job : Job} {process : ProcessState} {id : ℕ} {space : Option AddressSpace}
    {start : Kernel}

/-- The current task gets a job without frames. -/
theorem kept_withJob (hsound : Sound reserved kernel)
    (hget : kernel.tasks[kernel.current]? = some tcb) (hlive : tcb.state≠.terminated)
    (hjob : tcb.job.frames=[]) (hframes : job.frames=[]) (hpending : job.pending=none)
    (hvalid : ∀ call stage,job=.munmap call stage → stage.Valid tcb.ownedFrames)
    (hshell : job.ofShell → tcb.id=1) : Kept reserved (withJob kernel tcb job) := by
  have hid : (tcb.doing job).id=tcb.id := rfl
  refine kept_set hsound hget hid ?_ ⟨fun _ => hvalid,hshell⟩ hpending
    (fun hdead => absurd hdead hlive) rfl rfl rfl
  rw [held_doing hlive,hframes,Tcb.held_live hlive,hjob]
  exact Moves.refl _ _ _

/-- A task with another job than its last loop is not terminated. -/
theorem live_of_steady (hsteady : Steady kernel) (hget : kernel.tasks[kernel.current]? = some tcb)
    (hjob : tcb.job≠.halted) : tcb.state≠.terminated := by
  obtain ⟨found,hfound,hhalted⟩ := hsteady
  cases hfound.symm.trans hget
  exact fun hdead => hjob (hhalted hdead)

theorem kept_idle (hkept : Kept reserved kernel) (hget : kernel.tasks[kernel.current]? = some tcb)
    (hlive : tcb.state≠.terminated) (hframes : tcb.job.frames=[]) (rax : ℤ) :
    Kept reserved (withJob kernel tcb (.idle rax)) :=
  kept_withJob hkept.1 hget hlive hframes rfl rfl nofun nofun

/-- Exiting keeps the ownership list. -/
theorem ownedFrames_exited (tcb : Tcb) (now : ℕ) (code : ℤ) :
    (tcb.exited now code).ownedFrames=tcb.ownedFrames := by
  rw [Tcb.exited,Tcb.ownedFrames,Tcb.ownedFrames]
  cases tcb.process <;> rfl

/-- The section of `exit_with_code` of a task without frames in local
variables. -/
theorem kept_exitWithCode (hkept : Kept reserved kernel)
    (hget : kernel.tasks[kernel.current]? = some tcb) (hlive : tcb.state≠.terminated)
    (hframes : tcb.job.frames=[]) (code : ℤ) : Kept reserved (kernel.exitWithCode code) := by
  have hid : (tcb.exited kernel.ticks code).id=tcb.id := rfl
  have hdead : (tcb.exited kernel.ticks code).state=.terminated := rfl
  rw [Kernel.exitWithCode,hget]
  refine kept_set hkept.1 hget hid ?_ ⟨fun halive => absurd hdead halive,nofun⟩ rfl (fun _ => rfl)
    rfl rfl rfl
  rw [Tcb.held_live hlive,hframes,Tcb.held_dead hdead,ownedFrames_exited,Multiset.coe_nil,add_zero]
  exact Moves.refl _ _ _

/-! ## Sections of calls -/

/-- Store what a section of a call did to the frames. -/
theorem kept_storeVm {vm : VmState}
    (hkept : Kept reserved kernel) (hget : kernel.tasks[kernel.current]? = some tcb)
    (hlive : tcb.state≠.terminated) (hprocess : tcb.process=some process)
    (hmove : Moves books kernel.paging.allocator
      (process.ownedFrames+tcb.job.frames : Multiset ℕ) vm.paging.allocator
      (vm.process.ownedFrames+job.frames : Multiset ℕ))
    (hvalid : ∀ call stage,job=.munmap call stage → stage.Valid vm.process.ownedFrames)
    (hpending : job.pending=none) (hshell : job.ofShell → tcb.id=1) :
    Kept reserved (storeVm kernel tcb vm job) := by
  have hid : (Tcb.doing {tcb with process := some vm.process} job).id=tcb.id := rfl
  refine kept_set hkept.1 hget hid ?_ ⟨fun _ => hvalid,hshell⟩ hpending
    (fun hdead => absurd hdead hlive) rfl rfl rfl
  have hbefore : tcb.ownedFrames=process.ownedFrames := by
    rw [Tcb.ownedFrames,hprocess]
  have hafter : Tcb.state {tcb with process := some vm.process}≠.terminated := hlive
  rw [Tcb.held_live hlive,held_doing hafter,hbefore]
  exact hmove

theorem frames_jobAfter_mmap (call : MmapCall) (outcome : Outcome MmapStage) :
    (jobAfter (.mmap call) outcome).frames=[] ∧ (jobAfter (.mmap call) outcome).pending=none ∧
      ¬(jobAfter (.mmap call) outcome).ofShell ∧
      ∀ other stage,jobAfter (.mmap call) outcome≠.munmap other stage := by
  cases outcome <;> exact ⟨rfl,rfl,id,nofun⟩

theorem frames_jobAfter_munmap (call : MunmapCall) (outcome : Outcome MunmapStage) :
    (jobAfter (.munmap call) outcome).frames=outcome.frames ∧
      (jobAfter (.munmap call) outcome).pending=none ∧
      ¬(jobAfter (.munmap call) outcome).ofShell := by
  cases outcome <;> exact ⟨rfl,rfl,id⟩

/-- A section of a spawn of the shell. -/
theorem kept_spawning {stage : SpawnStage} (hkept : Kept reserved kernel)
    (hget : kernel.tasks[kernel.current]? = some tcb) (hlive : tcb.state≠.terminated)
    (hjob : tcb.job=.spawning stage) :
    Kept reserved (withJob (spawnStep (withJob kernel tcb (.idle 0)) stage).2 tcb
      (jobAfterSpawn (spawnStep (withJob kernel tcb (.idle 0)) stage).1)) := by
  have hmem := List.mem_of_getElem? hget
  have hshell : tcb.id=1 := (hkept.1.ok_of_get hget).shell (by rw [hjob]; trivial)
  -- the local variables of the spawn are taken out of the table
  have hout : Sound (reserved+(stage.frames : Multiset ℕ)) (withJob kernel tcb (.idle 0)) := by
    have hid : (tcb.doing (.idle 0)).id=tcb.id := rfl
    refine hkept.1.set hget hid ?_ ⟨nofun,nofun⟩ nofun rfl rfl
    have hsame : reserved+tcb.held=
        reserved+(stage.frames : Multiset ℕ)+(tcb.doing (.idle 0)).held := by
      rw [held_doing hlive,Tcb.held_live hlive,hjob,add_assoc]
      exact congrArg _ ((add_comm _ _).trans (congrArg _ (add_zero _).symm))
    rw [hsame]
    exact Moves.refl _ _ _
  have hcurrent : (withJob kernel tcb (.idle 0)).tasks[kernel.current]? =
      some (tcb.doing (.idle 0)) := getElem?_set_of_get hget
  have hfresh : Fresh (withJob kernel tcb (.idle 0)) stage := by
    intro id hid
    obtain ⟨hless,hfree⟩ := hkept.1.pending tcb hmem id (by rw [hjob]; exact hid)
    refine ⟨hless,fun task htask => ?_⟩
    have hown := List.mem_of_getElem? hcurrent
    rcases List.mem_or_eq_of_mem_set htask with hold|rfl
    · refine ⟨hfree task hold,fun htaken => ?_⟩
      -- only the shell takes ids ahead, and it is idle now
      have htaskShell : task.id=1 := (hkept.1.ok task hold).shell (by
        cases hkind : task.job with
        | spawning _ => trivial
        | _ => rw [hkind] at htaken; cases htaken)
      have hsame := hout.same htask hown (htaskShell.trans hshell.symm)
      rw [hsame] at htaken
      cases htaken
    · exact ⟨hfree tcb hmem,nofun⟩
  obtain ⟨hstepped,hlater⟩ := sound_spawnStep hout hfresh
  obtain ⟨hindex,added,hadded⟩ := spawnStep_table (withJob kernel tcb (.idle 0)) stage
  generalize spawnStep (withJob kernel tcb (.idle 0)) stage=stepped at *
  have hafter : stepped.2.tasks[stepped.2.current]? = some (tcb.doing (.idle 0)) := by
    rw [hindex,hadded]
    exact List.getElem?_append_left (List.getElem?_eq_some_iff.mp hcurrent).1 |>.trans hcurrent
  have hid : (tcb.doing (jobAfterSpawn stepped.1)).id=
    (tcb.doing (.idle 0)).id := rfl
  have hjobs : (jobAfterSpawn stepped.1).frames=stepped.1.frames ∧
      (jobAfterSpawn stepped.1).pending=stepped.1.pending ∧
      ∀ call stage,jobAfterSpawn stepped.1≠.munmap call stage := by
    rcases stepped.1 with _|_|_|_|_|_|(_|_) <;> exact ⟨rfl,rfl,nofun⟩
  refine ⟨hstepped.set hafter hid ?_ ⟨fun _ call stage h => absurd h (hjobs.2.2 call stage),
    fun _ => hshell⟩ ?_ rfl rfl,(tcb.doing (jobAfterSpawn stepped.1)),?_,
    fun hdead => absurd hdead hlive⟩
  · have hsame : reserved+(stepped.1.frames : Multiset ℕ)+(tcb.doing (.idle 0)).held=
        reserved+(tcb.doing (jobAfterSpawn stepped.1)).held := by
      rw [held_doing hlive,held_doing hlive,hjobs.1,add_assoc]
      exact congrArg _ ((add_comm _ _).trans (congrArg (·+_) (add_zero _)))
    rw [hsame]
    exact Moves.refl _ _ _
  · intro id htaken
    obtain ⟨hless,hfree⟩ := hlater id (hjobs.2.1.symm.trans htaken)
    exact ⟨hless,fun task htask => (hfree task htask).1⟩
  · exact getElem?_set_of_get hafter

/-- The current task's next section keeps the balance. -/
theorem kept_advance (hkept : Kept reserved kernel)
    (hget : kernel.tasks[kernel.current]? = some tcb) (hstep : advance kernel tcb=some later) :
    Kept reserved later := by
  have hok := hkept.1.ok_of_get hget
  rw [advance] at hstep
  split at hstep
  · cases hstep
  · rename_i call stage hjob
    obtain ⟨process,hprocess,rfl⟩ := Option.map_eq_some_iff.mp hstep
    have hlive := live_of_steady hkept.2 hget (by rw [hjob]; simp)
    obtain ⟨hframes,hpending,hshell,hother⟩ := frames_jobAfter_mmap call
      (mmapStep call (vmOf kernel process) stage).1
    have hmove := moves_mmapStep call (vmOf kernel process) stage
    refine kept_storeVm hkept hget hlive hprocess ?_ (fun call stage h => absurd h (hother _ _))
      hpending (fun h => absurd h hshell)
    rw [hframes,hjob]
    exact hmove.frame 0
  · rename_i call stage hjob
    obtain ⟨process,hprocess,rfl⟩ := Option.map_eq_some_iff.mp hstep
    have hlive := live_of_steady hkept.2 hget (by rw [hjob]; simp)
    have howned : tcb.ownedFrames=process.ownedFrames := by
      rw [Tcb.ownedFrames,hprocess]
    have hvalid := hok.valid hlive call stage hjob
    rw [howned] at hvalid
    have hsettles := @settles_munmapStep call (vmOf kernel process) stage hvalid
    obtain ⟨hframes,hpending,hshell⟩ := frames_jobAfter_munmap call
      (munmapStep call (vmOf kernel process) stage).1
    refine kept_storeVm hkept hget hlive hprocess ?_ ?_ hpending (fun h => absurd h hshell)
    · rw [hframes,hjob]
      exact hsettles.moves
    · intro other found hfound
      have hholds := hsettles.valid
      generalize (munmapStep call (vmOf kernel process) stage).1=outcome at hfound hholds
      cases outcome <;> cases hfound
      exact hholds
  · rename_i code hjob
    cases hstep
    have hlive := live_of_steady hkept.2 hget (by rw [hjob]; simp)
    exact kept_exitWithCode hkept hget hlive (by rw [hjob]; rfl) code
  · cases hstep
    exact sound_schedule hkept.1 hkept.2
  · rename_i hjob
    cases hstep
    have hlive := live_of_steady hkept.2 hget (by rw [hjob]; simp)
    have hidle := kept_idle hkept hget hlive (by rw [hjob]; rfl) 0
    exact sound_schedule hidle.1 hidle.2
  · rename_i stage hjob
    cases hstep
    have hlive := live_of_steady hkept.2 hget (by rw [hjob]; simp)
    exact kept_spawning hkept hget hlive hjob
  · rename_i space hjob
    cases hstep
    have hlive := live_of_steady hkept.2 hget (by rw [hjob]; simp)
    have hid : (tcb.doing (.idle 0)).id=tcb.id := rfl
    refine kept_set hkept.1 hget hid ?_ ⟨by simp [Tcb.doing],by simp [Tcb.doing,Job.ofShell]⟩ rfl
      (fun hdead => absurd hdead hlive) rfl rfl
      rfl
    rw [Tcb.held_live hlive,held_doing hlive,hjob]
    exact (moves_freeAddressSpace space kernel.paging.allocator).frame_left tcb.ownedFrames

/-! ## System calls and commands -/

/-- The frames of an address space a task does not have. -/
theorem ownedFrames_of_space (tcb : Tcb) :
    tcb.ownedFrames=(tcb.space.map AddressSpace.ownedFrames).getD [] := by
  rw [Tcb.ownedFrames,Tcb.space]
  cases tcb.process with
  | none => rfl
  | some process =>
    rw [Option.bind_some]
    dsimp only
    rw [ProcessState.ownedFrames]
    cases process.addressSpace <;> rfl

theorem jobAfterSpawn_finished (result : Except String ℕ) :
    ∃ rax,jobAfterSpawn (.finished result)=.idle rax := by
  cases result <;> exact ⟨_,rfl⟩

/-- A system call keeps the balance. -/
theorem kept_systemCall (hkept : Kept reserved kernel)
    (hget : kernel.tasks[kernel.current]? = some tcb) (hlive : tcb.state≠.terminated)
    (hframes : tcb.job.frames=[]) (hstep : systemCall kernel tcb process event=some later) :
    Kept reserved later := by
  cases event with
  | mmap len writable =>
    rw [systemCall] at hstep
    split at hstep <;> cases hstep
    · exact kept_idle hkept hget hlive hframes _
    · exact kept_withJob hkept.1 hget hlive hframes rfl rfl nofun nofun
  | munmap ptr len =>
    rw [systemCall] at hstep
    split at hstep <;> cases hstep
    · exact kept_idle hkept hget hlive hframes _
    · refine kept_withJob hkept.1 hget hlive hframes rfl rfl (fun call stage hjob => ?_) nofun
      cases hjob
      trivial
  | spawn name elfBytes heap =>
    cases hstep
    obtain ⟨result,hresult⟩ := spawnUserProcess_finishes kernel
      ⟨name,process.cwd,elfBytes,.ready,heap⟩
    obtain ⟨hsound,hindex,added,hadded⟩ := sound_spawnUserProcess hkept.1
      ⟨name,process.cwd,elfBytes,.ready,heap⟩
    rw [hresult]
    obtain ⟨rax,hrax⟩ := jobAfterSpawn_finished result
    rw [hrax]
    refine kept_withJob hsound ?_ hlive hframes rfl rfl nofun nofun
    rw [hindex,hadded]
    exact (List.getElem?_append_left (List.getElem?_eq_some_iff.mp hget).1).trans hget
  | exit code =>
    cases hstep
    exact kept_exitWithCode hkept hget hlive hframes code
  | _ => cases hstep

/-- No kill strikes a process between the section that removes frames from
its ownership list and the one that returns them. -/
def SparesRelease (kernel : Kernel) (id : ℕ) : Prop :=
  ∀ tcb∈kernel.tasks,tcb.id=id → ∀ call frames removals,
    tcb.job≠.munmap call (.releasing frames removals)

/-- A task that is not the shell holds frames in local variables only while
it releases them. -/
theorem frames_of_spared (hsound : Sound reserved kernel) (hmem : tcb∈kernel.tasks)
    (hother : tcb.id≠1) (hspare : ∀ call frames removals,
      tcb.job≠.munmap call (.releasing frames removals)) : tcb.job.frames=[] := by
  have hshell := (hsound.ok tcb hmem).shell
  cases hjob : tcb.job with
  | munmap call stage =>
    cases stage with
    | releasing frames removals => exact absurd hjob (hspare call frames removals)
    | _ => rfl
  | spawning | reclaiming => exact absurd (hshell (by rw [hjob]; trivial)) hother
  | _ => rfl

/-- What `kill` does to the table when another task calls it. -/
theorem kill_cases (hget : kernel.tasks[kernel.current]? = some tcb) (hself : tcb.id=1)
    (hkill : kernel.kill id=.ok (space,later)) :
    id≠1 ∧ ∃ index victim,index≠kernel.current ∧ kernel.tasks[index]? = some victim ∧
      victim.id=id ∧ space=victim.space ∧
      later=kernel.setTask index (victim.killed kernel.ticks).withoutSpace := by
  rw [Kernel.kill] at hkill
  split at hkill
  · cases hkill
  rename_i hid
  dsimp only at hkill
  split at hkill
  · cases hkill
  rename_i victim hvictim
  have hmatch := findIdx_found hvictim
  have hfound : victim.id=id := of_decide_eq_true hmatch
  rw [if_neg (by rw [hget]; intro h; exact hid ((Option.some.inj h).symm.trans hself))] at hkill
  obtain ⟨rfl,rfl⟩ := Prod.mk.inj (Except.ok.inj hkill)
  refine ⟨hid,_,victim,?_,hvictim,hfound,rfl,rfl⟩
  intro hindex
  rw [hindex,hget] at hvictim
  cases hvictim
  exact hid (hfound.symm.trans hself)

section

variable (hkept : Kept reserved kernel)
include hkept

/-- The shell's `kill` moves the frames of a spared task into its own local
variables. -/
theorem kept_kill {kernel' : Kernel} (hget : kernel.tasks[kernel.current]? = some tcb)
    (hlive : tcb.state≠.terminated) (hframes : tcb.job.frames=[]) (hself : tcb.id=1)
    (hspare : SparesRelease kernel id) (hkill : kernel.kill id=.ok (space,kernel')) :
    Kept reserved (withJob kernel' tcb (jobAfterKill space)) := by
  obtain ⟨hid,index,victim,hindex,hvictim,hfound,rfl,rfl⟩ := kill_cases hget hself hkill
  have hmem := List.mem_of_getElem? hvictim
  have hjob := frames_of_spared hkept.1 hmem (by rw [hfound]; exact hid)
    (hspare victim hmem hfound)
  have hheld : victim.held=victim.ownedFrames := by
    rw [Tcb.held,hjob,Multiset.coe_nil,ite_self,add_zero]
  have hdead : (victim.killed kernel.ticks).withoutSpace.held=0 := Tcb.held_withoutSpace rfl
  -- the frames leave the table
  have hout : Sound (reserved+(victim.ownedFrames : Multiset ℕ))
      (kernel.setTask index (victim.killed kernel.ticks).withoutSpace) := by
    have hsame : (victim.killed kernel.ticks).withoutSpace.id=victim.id := rfl
    refine hkept.1.set hvictim hsame ?_ ⟨fun halive => absurd rfl halive,
      (hkept.1.ok victim hmem).shell⟩ (hkept.1.pending victim hmem) rfl rfl
    rw [hheld,hdead,add_zero]
    exact Moves.refl _ _ _
  have hcurrent : (kernel.setTask index (victim.killed kernel.ticks).withoutSpace).tasks[
      kernel.current]? = some tcb := (List.getElem?_set_ne hindex).trans hget
  rw [ownedFrames_of_space] at hout
  -- and join the shell's local variables
  have hafter : ∀ job : Job,job.pending=none → (∀ call stage,job≠.munmap call stage) →
      (job.frames : Multiset ℕ)=((victim.space.map AddressSpace.ownedFrames).getD [] : List ℕ) →
      Kept reserved (withJob (kernel.setTask index (victim.killed kernel.ticks).withoutSpace) tcb
        job) := by
    intro job hpending hmunmap hmoved
    have hsame : (tcb.doing job).id=tcb.id := rfl
    refine ⟨hout.set hcurrent hsame ?_ ⟨fun _ call stage h => absurd h (hmunmap call stage),
      fun _ => hself⟩ ?_ rfl rfl,tcb.doing job,?_,fun h => absurd h hlive⟩
    · rw [held_doing hlive,Tcb.held_live hlive,hframes,Multiset.coe_nil,add_zero,hmoved,add_assoc,
        add_comm (tcb.ownedFrames : Multiset ℕ)]
      exact Moves.refl _ _ _
    · exact fun id htaken => absurd (hpending.symm.trans htaken) (by simp)
    · exact getElem?_set_of_get hcurrent
  cases hspace : victim.space with
  | none | some => exact hafter _ rfl (by simp [jobAfterKill]) (by rw [hspace]; rfl)

/-- A command of the shell keeps the balance, if its kill spares releases. -/
theorem kept_shellCommand
    (hget : kernel.tasks[kernel.current]? = some tcb) (hlive : tcb.state≠.terminated)
    (hframes : tcb.job.frames=[]) (hself : tcb.id=1)
    (hspare : ∀ id,event=.kill id → SparesRelease kernel id)
    (hstep : shellCommand kernel tcb event=some later) : Kept reserved later := by
  cases event with
  | kill id =>
    rw [shellCommand] at hstep
    split at hstep <;> cases hstep
    · exact kept_idle hkept hget hlive hframes _
    · rename_i hkill
      exact kept_kill hkept hget hlive hframes hself (hspare id rfl) hkill
  | launch request =>
    cases hstep
    exact kept_withJob hkept.1 hget hlive hframes rfl rfl nofun fun _ => hself
  | activate id =>
    cases hstep
    rw [Kernel.activateTask]
    split
    · exact hkept
    rename_i task htask
    split
    · exact hkept
    rename_i hblocked
    rw [not_or,not_not] at hblocked
    have halike : task.Alike {task with state := .ready} := by
      refine ⟨rfl,rfl,rfl,?_⟩
      rw [hblocked.1]
      exact ⟨nofun,nofun⟩
    refine ⟨hkept.1.alike htask halike rfl rfl rfl,?_⟩
    by_cases hindex : kernel.tasks.findIdx (fun tcb => tcb.id=id)=kernel.current
    · rw [hindex] at htask
      refine ⟨{task with state := .ready},?_,nofun⟩
      rw [hindex]
      exact getElem?_set_of_get htask
    · exact ⟨tcb,(List.getElem?_set_ne hindex).trans hget,fun hdead => absurd hdead hlive⟩
  | reap =>
    cases hstep
    obtain ⟨hsound,hcurrent⟩ := sound_reapTerminated hkept.1 hget true
    exact ⟨hsound,tcb,hcurrent,fun hdead => absurd hdead hlive⟩
  | inject failAfter =>
    cases hstep
    exact ⟨hkept.1.congr rfl rfl rfl,hkept.2⟩
  | _ => cases hstep

/-- Every event whose kill spares releases keeps the balance. -/
theorem kept_step (hspare : ∀ id,event=.kill id → SparesRelease kernel id)
    (hstep : step kernel event=some later) : Kept reserved later := by
  rw [step] at hstep
  split at hstep
  · cases hstep
  rename_i tcb hget
  have hcommand : (match tcb.job with
      | .idle _ => command kernel tcb event
      | _ => none)=some later → Kept reserved later := by
    intro hcommand
    split at hcommand
    · rename_i rax hjob
      have hlive := live_of_steady hkept.2 hget (by rw [hjob]; nofun)
      have hframes : tcb.job.frames=[] := by rw [hjob]; rfl
      rw [command] at hcommand
      split at hcommand
      · exact kept_systemCall hkept hget hlive hframes hcommand
      · split at hcommand
        · rename_i hself
          exact kept_shellCommand hkept hget hlive hframes hself hspare hcommand
        · cases hcommand
    · cases hcommand
  split at hstep
  · cases hstep
    exact sound_onTimerTick hkept.1 hkept.2
  · cases hstep
    exact ⟨hkept.1.congr rfl rfl rfl,hkept.2⟩
  · exact kept_advance hkept hget hstep
  · split at hstep
    · rename_i rax hjob
      cases hstep
      have hlive := live_of_steady hkept.2 hget (by rw [hjob]; nofun)
      have hidle := kept_idle hkept hget hlive (by rw [hjob]; rfl) 0
      exact sound_schedule (hidle.1.congr rfl rfl rfl) hidle.2
    · cases hstep
  · rename_i ticks
    split at hstep
    · rename_i rax hjob hprocess
      cases hstep
      have hlive := live_of_steady hkept.2 hget (by rw [hjob]; nofun)
      have hid : (tcb.asleep (kernel.ticks+ticks)).id=tcb.id := rfl
      have hawake : (tcb.asleep (kernel.ticks+ticks)).state≠.terminated := nofun
      refine kept_set hkept.1 hget hid ?_ ⟨nofun,nofun⟩ rfl nofun rfl rfl rfl
      rw [Tcb.held_live hlive,Tcb.held_live hawake,hjob]
      exact Moves.refl _ _ _
    · cases hstep
  · exact hcommand hstep

end

/-! ## Runs -/

/-- After boot no task holds frames. -/
theorem kept_boot {paging : Paging} (hboot : Backs books paging.allocator reserved)
    (kernelPml4Frame : ℕ) : Kept reserved (boot paging kernelPml4Frame) := by
  have hnone : total Tcb.held (boot paging kernelPml4Frame).tasks=0 := rfl
  have htask : ∀ tcb∈(boot paging kernelPml4Frame).tasks,
      tcb.id<4 ∧ tcb.job=.idle 0 := by
    intro tcb hmem
    simp only [boot,List.mem_cons,List.not_mem_nil,or_false] at hmem
    rcases hmem with rfl|rfl|rfl <;> exact ⟨by decide,rfl⟩
  refine ⟨⟨?_,?_,fun tcb hmem => (htask tcb hmem).1,?_,?_⟩,_,rfl,nofun⟩
  · rw [hnone,add_zero]
    exact hboot
  · exact (by decide : [1,2,3].Nodup)
  · intro tcb hmem id hpending
    rw [(htask tcb hmem).2] at hpending
    cases hpending
  · intro tcb hmem
    exact ⟨by rw [(htask tcb hmem).2]; nofun,by rw [(htask tcb hmem).2]; nofun⟩

/-- A whole run keeps the balance. -/
theorem kept_run (hkept : Kept reserved start)
    (hrun : Relation.ReflTransGen (Step SparesRelease) start kernel) : Kept reserved kernel := by
  induction hrun with
  | refl => exact hkept
  | tail _ hstep ih =>
    obtain ⟨event,hspare,hstep⟩ := hstep
    exact kept_step ih hspare hstep

/-- The events of a list that has only allowed kills are a run. -/
theorem steps_of_run {mayKill : Kernel → ℕ → Prop} {events : List Event}
    (hkill : ∀ kernel id,Event.kill id∈events → mayKill kernel id)
    (hrun : run events start=some kernel) : Relation.ReflTransGen (Step mayKill) start kernel := by
  induction events generalizing start with
  | nil =>
    cases hrun
    exact .refl
  | cons event rest ih =>
    obtain ⟨middle,hstep,hrest⟩ := Option.bind_eq_some_iff.mp hrun
    refine .head ⟨event,?_,hstep⟩ (ih (fun kernel id hmem => hkill kernel id (.tail _ hmem)) hrest)
    rintro id rfl
    exact hkill start id (.head _)

/-- A frame of a task is in its address space or in a local variable of a
live task. -/
theorem mem_held {frame : ℕ} (hmem : frame∈tcb.held) :
    frame∈tcb.ownedFrames ∨ tcb.state≠.terminated ∧ frame∈tcb.job.frames := by
  rw [Tcb.held] at hmem
  rcases Multiset.mem_add.mp hmem with howned|hlocal
  · exact .inl howned
  · split at hlocal
    · exact absurd hlocal (Multiset.notMem_zero _)
    · rename_i hlive
      exact .inr ⟨hlive,hlocal⟩

/-- No frame is lost while kills spare releases: over every run from boot,
each frame handed out beyond those `reserved` by the boot is in the pool, in
an address space or in a local variable of a live task, and none twice. Once
every process is gone, all of these frames are in the pool. -/
theorem frames_conserved {paging : Paging} (hboot : Backs books paging.allocator reserved)
    {kernelPml4Frame : ℕ}
    (hrun : Relation.ReflTransGen (Step SparesRelease) (boot paging kernelPml4Frame) kernel) :
    (∀ frame∈kernel.paging.allocator.bumped,frame∉reserved →
      frame∈kernel.paging.allocator.freed ∨
      ∃ tcb∈kernel.tasks,frame∈tcb.ownedFrames ∨
        tcb.state≠.terminated ∧ frame∈tcb.job.frames) ∧
    (kernel.paging.allocator.freed+reserved+total Tcb.held kernel.tasks).Nodup ∧
    ((∀ tcb∈kernel.tasks,tcb.process=none ∧ tcb.job.frames=[]) →
      (kernel.paging.allocator.bumped : Multiset ℕ)=kernel.paging.allocator.freed+reserved) := by
  have hbacks := (kept_run (kept_boot hboot kernelPml4Frame) hrun).1.backs
  have hbalanced : (kernel.paging.allocator.bumped : Multiset ℕ)=
      kernel.paging.allocator.freed+(reserved+total Tcb.held kernel.tasks) := hbacks.balanced
  refine ⟨?_,?_,?_⟩
  · intro frame hissued hnew
    have hissued : frame∈(kernel.paging.allocator.bumped : Multiset ℕ) := hissued
    rw [hbalanced,Multiset.mem_add,Multiset.mem_add,mem_total] at hissued
    rcases hissued with hfree|hold|⟨tcb,hmem,hheld⟩
    · exact .inl hfree
    · exact absurd hold hnew
    · exact .inr ⟨tcb,hmem,mem_held hheld⟩
  · rw [add_assoc,← hbalanced]
    exact Multiset.coe_nodup.mpr (BootInfoFrameAllocator.nodup_bumped hbacks.sound)
  · intro hgone
    have hnone : total Tcb.held kernel.tasks=0 := by
      refine total_eq_zero fun tcb hmem => ?_
      obtain ⟨hprocess,hframes⟩ := hgone tcb hmem
      rw [Tcb.held,Tcb.ownedFrames,hprocess,hframes,Multiset.coe_nil,ite_self,add_zero]
    rw [hbalanced,hnone,add_zero]

/-- A machine with one usable region of 64 frames. -/
def smallPaging : Paging := ⟨⟨[⟨0x100000,0x140000,.usable⟩],0,[],0⟩,fun _ => 0⟩

theorem backs_smallPaging : Backs books smallPaging.allocator 0 :=
  ⟨List.pairwise_singleton _ _,rfl⟩

/-- The shell starts a process, which maps a page and unmaps it up to the
section that returns its frame. -/
def releasingRun : List Event :=
  [.launch ⟨"app".toList,"/".toList,tinyElf,.ready,fun _ => true⟩]++List.replicate 14 .advance++
    [.wake 4,.tick,.mmap 4096 true]++List.replicate 8 .advance++
    [.munmap userMmapBase 4096]++List.replicate 6 .advance

/-- The process finishes `MUNMAP` and exits, and the shell reaps it. -/
def exitRun : List Event :=
  releasingRun++List.replicate 4 .advance++[.exit 0,.wake 1,.tick,.reap]

/-- After the process exits, its twelve frames are in the pool. -/
theorem frames_conserved_exit :
    ∃ kernel,run exitRun (boot smallPaging 0)=some kernel ∧ kernel.tasks.map Tcb.id=[1,2,3] ∧
      kernel.paging.allocator.next=12 ∧
      (kernel.paging.allocator.bumped : Multiset ℕ)=kernel.paging.allocator.freed+0 := by
  have hrun : ∃ kernel,run exitRun (boot smallPaging 0)=some kernel ∧
      decide (kernel.tasks.map Tcb.id=[1,2,3] ∧ kernel.paging.allocator.next=12 ∧
        ∀ tcb∈kernel.tasks,tcb.process=none ∧ tcb.job.frames=[])=true :=
    (Option.any_eq_true _ _).mp (by decide +kernel)
  obtain ⟨kernel,hrun,hend⟩ := hrun
  obtain ⟨hids,hnext,hgone⟩ := of_decide_eq_true hend
  have hspares : ∀ kernel id,Event.kill id∈exitRun → SparesRelease kernel id := by
    intro kernel id hmem
    simp [exitRun,releasingRun] at hmem
  exact ⟨kernel,hrun,hids,hnext,
    (frames_conserved backs_smallPaging (steps_of_run hspares hrun)).2.2 hgone⟩

/-- The shell kills the process just before the section that returns the
frame of the unmapped page, and reaps it. The frame is nowhere. -/
theorem killed_release_loses_frame :
    Backs books smallPaging.allocator 0 ∧
    ∃ kernel,Relation.ReflTransGen (Step fun _ _ => True) (boot smallPaging 0) kernel ∧
      kernel.tasks.map Tcb.id=[1,2,3] ∧
      0x10a000∈kernel.paging.allocator.bumped ∧ 0x10a000∉kernel.paging.allocator.freed ∧
      ∀ tcb∈kernel.tasks,tcb.process=none ∧ tcb.job.frames=[] := by
  have hrun : ∃ kernel,
      run (releasingRun++[.wake 1,.tick,.kill 4,.advance,.reap]) (boot smallPaging 0)=some kernel ∧
      decide (kernel.tasks.map Tcb.id=[1,2,3] ∧ 0x10a000∈kernel.paging.allocator.bumped ∧
        0x10a000∉kernel.paging.allocator.freed ∧
        ∀ tcb∈kernel.tasks,tcb.process=none ∧ tcb.job.frames=[])=true :=
    (Option.any_eq_true _ _).mp (by decide +kernel)
  obtain ⟨kernel,hrun,hend⟩ := hrun
  exact ⟨backs_smallPaging,kernel,steps_of_run (fun _ _ _ => trivial) hrun,of_decide_eq_true hend⟩

end TuwaiqOS.FrameConservation
