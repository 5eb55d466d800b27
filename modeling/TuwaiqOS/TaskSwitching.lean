import TuwaiqOS.TaskTable

/-!
# Who gets the processor

While the idle task lives, `prepare_switch` always finds a ready task or
leaves the idle task running, so no sleeping or terminated task keeps the
processor. When the idle task and all other ready tasks are killed, a
sleeping task is made running again at once. The round-robin order follows
the positions in the table: no task is overtaken unless a foreground wake-up
moves the current index past it.
-/

namespace TuwaiqOS.TaskSwitching

open ElfImage Scheduler FrameLedger TaskTable
open FrameConservation (boot smallPaging)

variable {kernel later : Kernel} {tcb next : Tcb} {index : ℕ}

/-! ## The idle task -/

/-- A task inside `sleep_ticks` is blocked or has its wake-up tick set. -/
def InSleep (tcb : Tcb) : Prop := tcb.state=.blocked ∨ tcb.wakeAtTick≠0

/-- The idle task only halts and is not killed, and a task inside
`sleep_ticks` does not call it again. -/
def SparesIdle (kernel : Kernel) : Operation → Prop
  | .kill id => id≠2
  | .sleep _ => ∀ tcb,kernel.tasks[kernel.current]? = some tcb → tcb.id≠2 ∧ ¬InSleep tcb
  | .exit _ => currentId kernel≠some 2
  | _ => True

/-- The state in which an operation calls `prepare_switch`. -/
def switchPoint (kernel : Kernel) : Operation → Option Kernel
  | .tick =>
    if timeSliceTicks≤kernel.ticksSinceSwitch+1 then some (woken kernel 0) else none
  | .switch => some kernel
  | .yield => some {kernel with ticksSinceSwitch := 0}
  | _ => none

/-- A task that can run. -/
def Runnable (tcb : Tcb) : Prop := tcb.state=.ready ∨ tcb.state=.running

/-- The idle task is in the table and can run. -/
def IdleOk (kernel : Kernel) : Prop := ∃ tcb∈kernel.tasks,tcb.id=2 ∧ Runnable tcb

theorem Runnable.alive (hrunnable : Runnable tcb) : tcb.state≠.terminated := by
  rintro hdead
  rw [Runnable,hdead] at hrunnable
  rcases hrunnable with h|h <;> cases h

/-- Reaping removes terminated tasks only. -/
theorem IdleOk.reap (hidle : IdleOk kernel) (hok : TableOk kernel) (force : Bool) :
    IdleOk (kernel.reapTerminated force) := by
  obtain ⟨idle,hmem,htwo,hstate⟩ := hidle
  obtain ⟨tcb,hget⟩ := hok.get
  refine ⟨idle,?_,htwo,hstate⟩
  rw [(reapTerminated_eq hok force hget).1,List.mem_filter]
  refine ⟨hmem,?_⟩
  rcases hstate with hready|hrunning
  · simp [shouldReap,hready]
  · simp [shouldReap,hrunning]

/-- What a switch does while the idle task lives: the idle task stays, or a
ready task gets the processor. -/
theorem prepareSwitch_idle {reaped : Kernel} (hok : TableOk reaped) (hidle : IdleOk reaped)
    (hreaped : kernel.reapTerminated false=reaped)
    (hget : reaped.tasks[reaped.current]? = some tcb) :
    (tcb.id=2 ∧ Runnable tcb ∧
      kernel.prepareSwitch=(none,{reaped with
        tasks := reaped.tasks.set reaped.current tcb.resumed,foregroundWakeId := 0})) ∨
    (∃ index incoming,HandsOver kernel reaped tcb index incoming) := by
  obtain ⟨idle,hmem,htwo,hstate⟩ := hidle
  obtain ⟨place,hplace⟩ := List.mem_iff_getElem?.mp hmem
  rcases prepareSwitch_cases hreaped hget with ⟨hfew,-⟩|⟨hnone,hplan⟩|hswitch
  · -- the shell and the idle task are two
    obtain ⟨shell,hshell,hone,-⟩ := hok.shell
    obtain ⟨first,hfirst⟩ := List.mem_iff_getElem?.mp hshell
    have hless := (List.getElem?_eq_some_iff.mp hfirst).1
    have hlast := (List.getElem?_eq_some_iff.mp hplace).1
    have hequal : first=place := by omega
    rw [hequal,hplace] at hfirst
    cases hfirst
    omega
  · left
    -- the idle task is ready unless it is the current one
    have hcurrent : place=reaped.current := by
      by_contra hother
      rcases hstate with hready|hrunning
      · exact hnone place hother ⟨idle,hplace,hready⟩
      · exact hother (hok.running place idle hplace hrunning)
    rw [hcurrent,hget] at hplace
    cases hplace
    exact ⟨htwo,hstate,hplan⟩
  · exact .inr hswitch

theorem state_resumed (hrunnable : Runnable tcb) : tcb.resumed.state=.running := by
  have halive : tcb.preempted.state≠.terminated := fun hdead =>
    hrunnable.alive ((Tcb.Alike.preempted tcb).terminated.mp hdead)
  rw [Tcb.resumed,if_neg halive]

/-- Whenever `prepare_switch` finishes, the current task is running and was
ready or running just before; it stays only if it was not terminated. -/
theorem prepareSwitch_runs (hok : TableOk kernel) (hidle : IdleOk kernel) :
    (∃ tcb,kernel.prepareSwitch.2.tasks[kernel.prepareSwitch.2.current]? = some tcb ∧
      tcb.state=.running ∧ ∃ old∈kernel.tasks,old.id=tcb.id ∧ Runnable old) ∧
    (kernel.prepareSwitch.1=none →
      ∀ tcb,kernel.tasks[kernel.current]? = some tcb → tcb.state≠.terminated) := by
  obtain ⟨tcb,hget,hcurrent,hreaped,-,hsub⟩ := hok.reaped
  rcases prepareSwitch_idle hreaped (hidle.reap hok false) rfl hcurrent with
    ⟨-,hstate,hplan⟩|⟨index,incoming,hother,-,hincoming,hready,hplan⟩
  · rw [hplan]
    refine ⟨⟨tcb.resumed,getElem?_set_of_get hcurrent,state_resumed hstate,tcb,
      List.mem_of_getElem? hget,(Tcb.Alike.resumed tcb).id.symm,hstate⟩,fun _ task htask hdead => ?_⟩
    rw [hget] at htask
    cases htask
    exact hstate.alive hdead
  · rw [hplan]
    refine ⟨⟨{incoming with state := .running},?_,rfl,incoming,
      hsub incoming (List.mem_of_getElem? hincoming),rfl,.inl hready⟩,nofun⟩
    exact getElem?_set_of_get ((List.getElem?_set_ne (Ne.symm hother)).trans hincoming)

/-! ## What an operation does to one task -/

/-- A task goes on as it was, or takes its turn. -/
structure Turns (tcb next : Tcb) : Prop where
  /-- Same id. -/
  id : next.id=tcb.id
  /-- Same wake-up tick. -/
  wakeAt : next.wakeAtTick=tcb.wakeAtTick
  /-- The state is the same, or the task could run and can run. -/
  state : next.state=tcb.state ∨ Runnable tcb ∧ Runnable next

theorem Turns.refl (tcb : Tcb) : Turns tcb tcb := ⟨rfl,rfl,.inl rfl⟩

theorem Turns.preempted (tcb : Tcb) : Turns tcb tcb.preempted := by
  rw [Tcb.preempted]
  split
  · rename_i hrunning
    exact ⟨rfl,rfl,.inr ⟨.inr hrunning,.inl rfl⟩⟩
  · exact Turns.refl tcb

theorem Turns.resumed (hrunnable : Runnable tcb) : Turns tcb tcb.resumed := by
  refine ⟨(Tcb.Alike.resumed tcb).id,?_,.inr ⟨hrunnable,.inr (state_resumed hrunnable)⟩⟩
  rw [Tcb.resumed]
  split <;> exact (Turns.preempted tcb).wakeAt

/-- A switch lets every task go on as it was or take its turn. -/
theorem schedule_turns (hok : TableOk kernel) (hidle : IdleOk kernel) :
    ∀ next∈kernel.schedule.tasks,∃ tcb∈kernel.tasks,Turns tcb next := by
  obtain ⟨tcb,hget,hcurrent,hreaped,-,hsub⟩ := hok.reaped
  rw [(schedule_table kernel).1]
  intro next hnext
  rcases prepareSwitch_idle hreaped (hidle.reap hok false) rfl hcurrent with
    ⟨-,hrunnable,hplan⟩|⟨index,incoming,hother,-,hincoming,hready,hplan⟩
  · rw [hplan] at hnext
    rcases List.mem_or_eq_of_mem_set hnext with hold|rfl
    · exact ⟨next,hsub next hold,Turns.refl next⟩
    · exact ⟨tcb,List.mem_of_getElem? hget,Turns.resumed hrunnable⟩
  · rw [hplan] at hnext
    rcases List.mem_or_eq_of_mem_set hnext with hleft|rfl
    · rcases List.mem_or_eq_of_mem_set hleft with hold|rfl
      · exact ⟨next,hsub next hold,Turns.refl next⟩
      · refine ⟨tcb,List.mem_of_getElem? hget,?_⟩
        split
        · exact ⟨rfl,rfl,.inl rfl⟩
        · exact Turns.preempted tcb
    · exact ⟨incoming,hsub incoming (List.mem_of_getElem? hincoming),rfl,rfl,
        .inr ⟨.inl hready,.inr rfl⟩⟩

/-- Everything an operation can do to a task of the table. -/
inductive Moves (operation : Operation) (kernel later : Kernel) (tcb next : Tcb) : Prop
  /-- The task goes on or takes its turn. -/
  | turns (hturns : Turns tcb next)
  /-- The task was blocked and its time has come. -/
  | wakes (hblocked : tcb.state=.blocked) (htime : tcb.wakeAtTick≤later.ticks)
      (hrunnable : Runnable next)
  /-- The task calls `sleep_ticks`. -/
  | sleeps (ticks : ℕ) (hcall : operation=.sleep ticks) (hcurrent : currentId kernel=some tcb.id)
      (hblocked : next.state=.blocked) (htime : next.wakeAtTick=kernel.ticks+ticks)
  /-- The task is killed or exits. -/
  | dies (hdead : next.state=.terminated) (htime : next.wakeAtTick=tcb.wakeAtTick)
      (hcall : operation=.kill tcb.id ∨ ∃ code,operation=.exit code ∧ currentId kernel=some tcb.id)

/-- A task of the table after waking. -/
theorem moves_wake (hturns : Turns (tcb.wake (kernel.ticks+1)) next)
    (hticks : later.ticks=kernel.ticks+1) : Moves .tick kernel later tcb next := by
  rw [Tcb.wake] at hturns
  split at hturns
  · rename_i hblocked
    refine .wakes hblocked.1 (by rw [hticks]; exact hblocked.2.2) ?_
    rcases hturns.state with hready|⟨-,hrunnable⟩
    · exact .inl hready
    · exact hrunnable
  · exact .turns hturns

theorem IdleOk.woken (hidle : IdleOk kernel) (sinceSwitch : ℕ) :
    IdleOk (woken kernel sinceSwitch) := by
  obtain ⟨idle,hmem,htwo,hrunnable⟩ := hidle
  have hsame : idle.wake (kernel.ticks+1)=idle := by
    rw [Tcb.wake,if_neg]
    rintro ⟨hblocked,-⟩
    rw [Runnable,hblocked] at hrunnable
    rcases hrunnable with h|h <;> cases h
  refine ⟨idle,?_,htwo,hrunnable⟩
  rw [← hsame]
  exact List.mem_map_of_mem hmem

variable {operation : Operation} {id served waiting : ℕ} {start : Kernel} {tasks : List Tcb}

/-- Every task after an operation is new or comes from a task before. -/
theorem perform_moves (hok : TableOk kernel) (hidle : IdleOk kernel) :
    ∀ next∈(perform kernel operation).tasks,kernel.nextId≤next.id ∨
      ∃ tcb∈kernel.tasks,next.id=tcb.id ∧
        Moves operation kernel (perform kernel operation) tcb next := by
  obtain ⟨tcb,hget⟩ := hok.get
  have hmem := List.mem_of_getElem? hget
  have hnow := currentId_of_get hget
  have hstays : ∀ task∈kernel.tasks,kernel.nextId≤task.id ∨ ∃ tcb∈kernel.tasks,task.id=tcb.id ∧
      Moves operation kernel (perform kernel operation) tcb task :=
    fun task htask => .inr ⟨task,htask,rfl,.turns (Turns.refl task)⟩
  intro next hnext
  have hperforms := performs hok operation
  generalize perform kernel operation=later at *
  cases hperforms with
  | spawns request =>
    obtain ⟨-,hsame|⟨-,space,entry,-,hadded⟩⟩ := spawnUserProcess_table kernel request
    · rw [hsame] at hnext
      exact hstays next hnext
    · rw [hadded] at hnext
      rcases List.mem_append.mp hnext with hold|hnew
      · exact hstays next hold
      · rw [List.mem_singleton.mp hnew]
        exact .inl le_rfl
  | stays _ wake since => exact hstays next hnext
  | @edits _ index old changed hold hedits =>
    rcases List.mem_or_eq_of_mem_set hnext with hsame|rfl
    · exact hstays next hsame
    refine .inr ⟨old,List.mem_of_getElem? hold,hedits.keeps.1,?_⟩
    cases hedits with
    | activate hblocked hzero => exact .wakes hblocked (by rw [hzero]; exact Nat.zero_le _) (.inl rfl)
    | sleep hget => exact .sleeps _ rfl (currentId_of_get hget) rfl rfl
    | exit hget => exact .dies rfl rfl (.inr ⟨_,rfl,currentId_of_get hget⟩)
    | kill hshell => exact .dies rfl rfl (.inl rfl)
  | evicts hvictim hshell hother =>
    rcases List.mem_or_eq_of_mem_set hnext with hold|rfl
    · exact hstays next hold
    · exact .inr ⟨_,List.mem_of_getElem? hvictim,rfl,.dies rfl rfl (.inl rfl)⟩
  | switches since hcall =>
    have hsame : TableOk {kernel with ticksSinceSwitch := since} := hok.congr rfl rfl rfl
    obtain ⟨old,hold,hturns⟩ := schedule_turns hsame hidle next hnext
    exact .inr ⟨old,hold,hturns.id,.turns hturns⟩
  | wakes since =>
    obtain ⟨old,hold,rfl⟩ := List.mem_map.mp hnext
    exact .inr ⟨old,hold,(Tcb.Alike.wake (kernel.ticks+1) old).id,moves_wake (Turns.refl _) rfl⟩
  | preempts =>
    obtain ⟨middle,hmiddle,hturns⟩ := schedule_turns (hok.woken 0) (hidle.woken 0) next hnext
    obtain ⟨old,hold,rfl⟩ := List.mem_map.mp hmiddle
    exact .inr ⟨old,hold,hturns.id.trans (Tcb.Alike.wake (kernel.ticks+1) old).id,
      moves_wake hturns (schedule_clock _).1⟩
  | reaps force =>
    rw [(reapTerminated_eq hok force hget).1] at hnext
    exact hstays next (List.mem_filter.mp hnext).1

/-! ## Runs that spare the idle task -/

/-- The idle task stays able to run. -/
theorem idleOk_perform (hok : TableOk kernel) (hidle : IdleOk kernel)
    (hlegal : Legal kernel operation) (hspares : SparesIdle kernel operation) :
    IdleOk (perform kernel operation) := by
  obtain ⟨idle,hmem,htwo,hrunnable⟩ := id hidle
  obtain ⟨next,hnext,hid⟩ := perform_lists hok hlegal hmem (.inl hrunnable.alive)
  refine ⟨next,hnext,hid.trans htwo,?_⟩
  obtain ⟨running,hget⟩ := hok.get
  rcases perform_moves hok hidle next hnext with hnew|⟨tcb,htcb,hsame,hmoves⟩
  · exact absurd (hok.below idle hmem) (by omega)
  · have hidleTcb := hok.same htcb hmem (hsame.symm.trans hid)
    subst hidleTcb
    cases hmoves with
    | turns hturns =>
      rcases hturns.state with hstate|⟨-,hnext⟩
      · rw [Runnable,hstate]
        exact hrunnable
      · exact hnext
    | wakes hblocked htime hnext => exact hnext
    | sleeps ticks hcall hcurrent =>
      subst hcall
      rw [currentId_of_get hget] at hcurrent
      exact absurd ((Option.some.inj hcurrent).trans htwo) (hspares running hget).1
    | dies hdead htime hcall =>
      rcases hcall with rfl|⟨code,rfl,hcurrent⟩
      · exact absurd htwo hspares
      · exact absurd (hcurrent.trans (congrArg some htwo)) hspares

/-- A task that sleeps until a tick. -/
structure Asleep (id wakeAt : ℕ) (kernel : Kernel) : Prop where
  /-- The id is in use. -/
  used : id<kernel.nextId
  /-- The task is blocked until the tick, or it was killed. -/
  waits : ∀ tcb∈kernel.tasks,tcb.id=id →
    (tcb.state=.blocked ∨ tcb.state=.terminated) ∧ tcb.wakeAtTick=wakeAt

/-- A sleeping task sleeps on until its tick has come. -/
theorem asleep_perform {wakeAt : ℕ} (hok : TableOk kernel) (hidle : IdleOk kernel)
    (hspares : SparesIdle kernel operation) (hlate : 0<wakeAt) (hasleep : Asleep id wakeAt kernel)
    (htime : (perform kernel operation).ticks<wakeAt) :
    Asleep id wakeAt (perform kernel operation) := by
  refine ⟨hasleep.used.trans_le (perform_clock hok operation).2.1,fun next hnext hid => ?_⟩
  rcases perform_moves hok hidle next hnext with hnew|⟨tcb,htcb,hsame,hmoves⟩
  · exact absurd hasleep.used (by omega)
  · obtain ⟨hstate,hwake⟩ := hasleep.waits tcb htcb (hsame.symm.trans hid)
    cases hmoves with
    | turns hturns =>
      rcases hturns.state with hkept|⟨hrunnable,-⟩
      · rw [hkept,hturns.wakeAt]
        exact ⟨hstate,hwake⟩
      · rcases hstate with hblocked|hdead
        · rw [Runnable,hblocked] at hrunnable
          rcases hrunnable with h|h <;> cases h
        · exact absurd hdead hrunnable.alive
    | wakes hblocked hcome => omega
    | sleeps ticks hcall hcurrent =>
      subst hcall
      obtain ⟨running,hget⟩ := hok.get
      rw [currentId_of_get hget] at hcurrent
      have hrunning := hok.same (List.mem_of_getElem? hget) htcb (Option.some.inj hcurrent)
      have hcalls := (hspares running hget).2
      rw [hrunning] at hcalls
      exact absurd (.inr (by omega)) hcalls
    | dies hdead hkept => exact ⟨.inr hdead,hkept.trans hwake⟩

/-- A run that spares the idle task keeps the table in order and the idle
task able to run. -/
theorem reaches_idle (hok : TableOk start) (hidle : IdleOk start)
    (hrun : Reaches SparesIdle start kernel) : TableOk kernel ∧ IdleOk kernel := by
  induction hrun with
  | refl => exact ⟨hok,hidle⟩
  | tail _ hstep ih =>
    obtain ⟨operation,hlegal,hspares,rfl⟩ := hstep
    exact ⟨(perform_table ih.1 hlegal).1,idleOk_perform ih.1 ih.2 hlegal hspares⟩

/-- A task sleeps through a whole run until its tick has come. -/
theorem reaches_asleep {wakeAt : ℕ} (hok : TableOk start) (hidle : IdleOk start) (hlate : 0<wakeAt)
    (hasleep : Asleep id wakeAt start) (hrun : Reaches SparesIdle start kernel)
    (htime : kernel.ticks<wakeAt) : Asleep id wakeAt kernel := by
  induction hrun with
  | refl => exact hasleep
  | tail hbefore hstep ih =>
    obtain ⟨hmiddle,halive⟩ := reaches_idle hok hidle hbefore
    obtain ⟨operation,-,hspares,rfl⟩ := hstep
    exact asleep_perform hmiddle halive hspares hlate
      (ih ((perform_clock hmiddle operation).1.trans_lt htime)) htime

theorem idleOk_boot (paging : Paging) (kernelPml4Frame : ℕ) :
    IdleOk (boot paging kernelPml4Frame) :=
  ⟨_,.tail _ (.head _),rfl,.inl rfl⟩

/-- Over every run from boot in which the idle task is not killed: whenever
`prepare_switch` finishes, the current task is running and was ready or
running just before; it reports no switch only if the current task is not
terminated; and a task that called `sleep_ticks` is not running before its
tick has come. -/
theorem sleeping_or_dead_never_runs {paging : Paging} {kernelPml4Frame : ℕ}
    (hrun : Reaches SparesIdle (boot paging kernelPml4Frame) kernel) :
    (∀ operation point,switchPoint kernel operation=some point →
      (∃ tcb,point.prepareSwitch.2.tasks[point.prepareSwitch.2.current]? = some tcb ∧
        tcb.state=.running ∧ ∃ old∈point.tasks,old.id=tcb.id ∧ Runnable old) ∧
      (point.prepareSwitch.1=none →
        ∀ tcb,point.tasks[point.current]? = some tcb → tcb.state≠.terminated)) ∧
    (∀ ticks id later,SparesIdle kernel (.sleep ticks) → currentId kernel=some id →
      0<kernel.ticks+ticks → Reaches SparesIdle (perform kernel (.sleep ticks)) later →
      later.ticks<kernel.ticks+ticks → ∀ tcb∈later.tasks,tcb.id=id → tcb.state≠.running) := by
  obtain ⟨hok,hidle⟩ := reaches_idle (tableOk_boot paging kernelPml4Frame)
    (idleOk_boot paging kernelPml4Frame) hrun
  refine ⟨fun operation point hpoint => ?_,fun ticks id later hspares hcurrent hlate hrest htime => ?_⟩
  · have hready : TableOk point ∧ IdleOk point := by
      cases operation with
      | tick =>
        rw [switchPoint] at hpoint
        split at hpoint
        · cases hpoint
          exact ⟨hok.woken 0,hidle.woken 0⟩
        · cases hpoint
      | switch =>
        cases hpoint
        exact ⟨hok,hidle⟩
      | yield =>
        cases hpoint
        exact ⟨hok.congr rfl rfl rfl,hidle⟩
      | _ => cases hpoint
    exact prepareSwitch_runs hready.1 hready.2
  · obtain ⟨tcb,hget⟩ := hok.get
    have hasleep : Asleep id (kernel.ticks+ticks) (perform kernel (.sleep ticks)) := by
      rw [currentId_of_get hget] at hcurrent
      cases hcurrent
      refine ⟨?_,fun next hnext hid => ?_⟩
      · rw [perform,sleepTicks,hget]
        exact hok.below tcb (List.mem_of_getElem? hget)
      · rw [perform,sleepTicks,hget] at hnext
        obtain ⟨place,hplace⟩ := List.mem_iff_getElem?.mp hnext
        rcases get_set hplace with ⟨-,rfl⟩|⟨hother,hold⟩
        · exact ⟨.inl rfl,rfl⟩
        · exact absurd (place_unique hok.distinct hold hget hid) hother
    have hstart := (@perform_table kernel (.sleep ticks) hok trivial).1
    have hend := reaches_asleep hstart (idleOk_perform hok hidle trivial hspares) hlate hasleep
      hrest htime
    intro next hnext hid hrunning
    rcases (hend.waits next hnext hid).1 with h|h <;> rw [hrunning] at h <;> cases h

/-- The heartbeat sleeps for two ticks; after one of them it is not running. -/
theorem sleeping_or_dead_never_runs_heartbeat :
    let kernel := [.switch,.switch].foldl perform (boot smallPaging 0)
    let later := [.switch,.tick].foldl perform (perform kernel (.sleep 2))
    later.ticks=1 ∧ currentId later=some 1 ∧ ∀ tcb∈later.tasks,tcb.id=3 → tcb.state≠.running := by
  have hrun : Reaches SparesIdle (boot smallPaging 0)
      ([.switch,.switch].foldl perform (boot smallPaging 0)) :=
    reaches_foldl (by simp [Legal,SparesIdle]) _
  have hrest := @reaches_foldl SparesIdle [.switch,.tick] (by simp [Legal,SparesIdle])
    (perform ([.switch,.switch].foldl perform (boot smallPaging 0)) (.sleep 2))
  have hspares : SparesIdle ([.switch,.switch].foldl perform (boot smallPaging 0)) (.sleep 2) := by
    intro tcb hget
    have hfields : (([.switch,.switch].foldl perform (boot smallPaging 0)).tasks[
        ([.switch,.switch].foldl perform (boot smallPaging 0)).current]?.map fun tcb =>
          (tcb.id,tcb.state,tcb.wakeAtTick))=some (3,.running,0) := by decide +kernel
    rw [hget] at hfields
    obtain ⟨hid,hrest⟩ := Prod.mk.inj (Option.some.inj hfields)
    obtain ⟨hstate,hwake⟩ := Prod.mk.inj hrest
    refine ⟨by omega,?_⟩
    rintro (hblocked|hset)
    · rw [hstate] at hblocked
      cases hblocked
    · exact hset hwake
  refine ⟨by decide +kernel,by decide +kernel,?_⟩
  exact (sleeping_or_dead_never_runs hrun).2 2 3 _ hspares (by decide +kernel) (by decide) hrest
    (by decide +kernel)

/-- The shell kills the idle task and the heartbeat and sleeps for ten ticks:
it is running again at once. -/
theorem sleeping_shell_runs :
    let kernel := [.kill 2,.kill 3,.sleep 10].foldl perform (boot smallPaging 0)
    Reaches (fun _ _ => True) (boot smallPaging 0) kernel ∧
      states kernel=[(1,.blocked),(2,.terminated),(3,.terminated)] ∧
      states kernel.prepareSwitch.2=[(1,.running),(2,.terminated),(3,.terminated)] ∧
      kernel.prepareSwitch.2.ticks=0 := by
  exact ⟨reaches_foldl (by simp [Legal]) _,by decide +kernel,by decide +kernel,by decide +kernel⟩

/-! ## Round-robin order -/

/-- How far an index is ahead of another when going round a table. -/
def ahead (length here there : ℕ) : ℕ :=
  if here≤there then there-here else there+length-here

/-- The index where a task stands. -/
def placeOf (tasks : List Tcb) (id : ℕ) : ℕ := tasks.findIdx fun tcb => tcb.id=id

/-- The index that a wake-up request selects in `prepare_switch`, if the
request is honoured. -/
def requestedIndex (kernel : Kernel) : Option ℕ :=
  let reaped := kernel.reapTerminated false
  match reaped.tasks[reaped.current]? with
  | none => none
  | some tcb =>
    let next := requestedNext (reaped.tasks.set reaped.current tcb.preempted) reaped.current tcb.id
      reaped.foregroundWakeId
    if next=reaped.current then none else some next

/-- A wake-up request that is honoured finds its task before the given one
when going round from the current task. -/
def KeepsOrder (kernel : Kernel) (id : ℕ) : Prop :=
  ∀ next∈requestedIndex kernel,
    ahead (kernel.reapTerminated false).tasks.length (kernel.reapTerminated false).current next<
      ahead (kernel.reapTerminated false).tasks.length (kernel.reapTerminated false).current
        (placeOf (kernel.reapTerminated false).tasks id)

instance (kernel : Kernel) (id : ℕ) : Decidable (KeepsOrder kernel id) :=
  inferInstanceAs (Decidable (∀ next∈requestedIndex kernel,_))

/-- The task is ready, or it is the current one. -/
def ReadyOrCurrent (kernel : Kernel) (id : ℕ) : Prop :=
  ∃ index tcb,kernel.tasks[index]? = some tcb ∧ tcb.id=id ∧
    (tcb.state=.ready ∨ index=kernel.current)

/-- One call of `prepare_switch` that does not select `waiting`, or one
wake-up request, with both tasks ready or current. -/
def Turn (waiting served : ℕ) (kernel later : Kernel) : Prop :=
  ReadyOrCurrent later waiting ∧ ReadyOrCurrent later served ∧
    ((∃ id,later=perform kernel (.wake id)) ∨
      KeepsOrder kernel waiting ∧ later=perform kernel .switch ∧ currentId later≠some waiting)

/-- The index lies in the arc that starts at the first place and ends before
the second. -/
def Between (first last index : ℕ) : Prop :=
  first ≤ index ∧ index<last ∨ last<first ∧ (first ≤ index ∨ index<last)

/-- Going round from an index in the arc, one stays in the arc until its end. -/
theorem between_ahead {length first last index next : ℕ} (hlast : last<length)
    (hindex : index<length) (harc : Between first last index) (hmoves : next≠index)
    (hahead : ahead length index next≤ahead length index last) :
    next=last ∨ Between first last next ∧ next≠first := by
  rw [ahead,ahead] at hahead
  rw [Between] at harc ⊢
  split at hahead <;> split at hahead <;> omega

theorem ahead_scan {length index offset : ℕ} (hindex : index<length) (hlow : 1≤offset)
    (hhigh : offset<length) : ahead length index ((index+offset)%length)=offset := by
  rcases Nat.lt_or_ge (index+offset) length with hless|hwraps
  · rw [Nat.mod_eq_of_lt hless,ahead,if_pos (by omega)]
    omega
  · rw [Nat.mod_eq_sub_mod hwraps,Nat.mod_eq_of_lt (by omega),ahead,if_neg (by omega)]
    omega

/-- The scan does not go past a ready task. -/
theorem roundRobinNext_ahead {current place : ℕ} (hcurrent : current<tasks.length)
    (hready : ReadyAt tasks place) (hother : place≠current) : roundRobinNext tasks current≠current ∧
      ahead tasks.length current (roundRobinNext tasks current)≤ahead tasks.length current place := by
  have hplace : place<tasks.length := by
    obtain ⟨tcb,hget,-⟩ := hready
    exact (List.getElem?_eq_some_iff.mp hget).1
  have hmoves : roundRobinNext tasks current≠current :=
    fun hstays => roundRobinNext_stays hcurrent hstays hother hready
  refine ⟨hmoves,?_⟩
  obtain ⟨offset,hlow,hhigh,rfl⟩ := scan_reaches hcurrent hplace hother
  rw [ahead_scan hcurrent hlow hhigh]
  rcases roundRobinNext_cases tasks current with ⟨found,hfound,-,hvalue,-,hfirst⟩|⟨hstays,-⟩
  · have hless : found≤offset := by
      by_contra hlate
      exact hfirst offset hlow (by omega) hready
    rw [hvalue,ahead_scan hcurrent hfound (by omega)]
    exact hless
  · exact absurd hstays hmoves

/-- A task's place in a table with distinct ids. -/
theorem placeOf_eq (hdistinct : (tasks.map Tcb.id).Nodup) (hget : tasks[index]? = some tcb) :
    placeOf tasks tcb.id=index := by
  obtain ⟨first,-,hfirst,hid⟩ := getElem?_findIdx (p := fun task => task.id=tcb.id)
    (List.mem_of_getElem? hget) (decide_eq_true rfl)
  exact place_unique hdistinct hfirst hget (of_decide_eq_true hid)

/-- The current index lies in the arc from where one task stands to where
the other does. -/
def InArc (served waiting : ℕ) (kernel : Kernel) : Prop :=
  ∃ first last servedTcb waitingTcb,
    kernel.tasks[first]? = some servedTcb ∧ servedTcb.id=served ∧
    kernel.tasks[last]? = some waitingTcb ∧ waitingTcb.id=waiting ∧
    Between first last kernel.current

/-- A wake-up request that is honoured or not, or the scan: the switch goes
to another task, not past a ready one. -/
theorem selectNext_ahead {tasks : List Tcb} {current currentId requested place : ℕ}
    (hcurrent : current<tasks.length) (hready : ReadyAt tasks place) (hother : place≠current)
    (hwake : requestedNext tasks current currentId requested≠current →
      ahead tasks.length current (requestedNext tasks current currentId requested)<
        ahead tasks.length current place) : selectNext tasks current currentId requested≠current ∧
      ahead tasks.length current (selectNext tasks current currentId requested)≤
        ahead tasks.length current place := by
  rw [selectNext]
  split
  · rename_i hwoken
    exact ⟨hwoken,(hwake hwoken).le⟩
  · exact roundRobinNext_ahead hcurrent hready hother

/-- A task that is ready or current is not reaped. -/
theorem ReadyOrCurrent.kept (hok : TableOk kernel) (hready : ReadyOrCurrent kernel id)
    (hmem : tcb∈kernel.tasks) (hid : tcb.id=id) : tcb∈(kernel.reapTerminated false).tasks := by
  obtain ⟨running,hget⟩ := hok.get
  obtain ⟨index,found,hfound,hfoundId,hstate⟩ := hready
  have hsame := hok.same hmem (List.mem_of_getElem? hfound) (hid.trans hfoundId.symm)
  subst hsame
  rw [(reapTerminated_eq hok false hget).1,List.mem_filter]
  refine ⟨hmem,?_⟩
  rcases hstate with hready|rfl
  · simp [shouldReap,hready]
  · rw [hget] at hfound
    cases hfound
    simp [shouldReap]

/-- Reaping keeps the current index in the arc. -/
theorem InArc.reap (hok : TableOk kernel) (hserved : ReadyOrCurrent kernel served)
    (hwaiting : ReadyOrCurrent kernel waiting) (harc : InArc served waiting kernel) :
    InArc served waiting (kernel.reapTerminated false) := by
  obtain ⟨first,last,servedTcb,waitingTcb,hfirst,hservedId,hlast,hwaitingId,hbetween⟩ := harc
  obtain ⟨running,hget⟩ := hok.get
  obtain ⟨htasks,hcurrent⟩ := reapTerminated_eq hok false hget
  -- the places that are left keep their order
  have hsub : (kernel.reapTerminated false).tasks.Sublist kernel.tasks := by
    rw [htasks]
    exact List.filter_sublist
  obtain ⟨back,hback⟩ := List.sublist_iff_exists_orderEmbedding_getElem?_eq.mp hsub
  have hplace : ∀ {place old : ℕ} {task : Tcb},
      (kernel.reapTerminated false).tasks[place]? = some task → kernel.tasks[old]? = some task →
      back place=old := fun hnew hold =>
    place_unique hok.distinct ((hback _).symm.trans hnew) hold rfl
  obtain ⟨first',hfirst'⟩ := List.mem_iff_getElem?.mp
    (hserved.kept hok (List.mem_of_getElem? hfirst) hservedId)
  obtain ⟨last',hlast'⟩ := List.mem_iff_getElem?.mp
    (hwaiting.kept hok (List.mem_of_getElem? hlast) hwaitingId)
  refine ⟨first',last',servedTcb,waitingTcb,hfirst',hservedId,hlast',hwaitingId,?_⟩
  rw [← hplace hfirst' hfirst,← hplace hlast' hlast,← hplace hcurrent hget] at hbetween
  simpa only [Between,back.le_iff_le,back.lt_iff_lt] using hbetween

/-- Tables with the same ids have the same places. -/
theorem get_of_ids {others : List Tcb} (hids : others.map Tcb.id=tasks.map Tcb.id)
    (hget : tasks[index]? = some tcb) : ∃ other,others[index]? = some other ∧ other.id=tcb.id := by
  have hid : (others.map Tcb.id)[index]? = some tcb.id := by
    rw [hids,List.getElem?_map,hget]
    rfl
  rw [List.getElem?_map] at hid
  exact Option.map_eq_some_iff.mp hid

/-- The waiting task is ready if the current index is in the arc before it. -/
theorem InArc.ready (hok : TableOk kernel) (hwaiting : ReadyOrCurrent kernel waiting)
    (harc : InArc served waiting kernel) :
    ∀ tcb∈kernel.tasks,tcb.id=waiting → tcb.state=.ready := by
  obtain ⟨first,last,-,waitingTcb,-,-,hlast,hwaitingId,hbetween⟩ := harc
  obtain ⟨index,found,hfound,hid,hstate⟩ := hwaiting
  intro tcb hmem htcb
  rw [hok.same hmem (List.mem_of_getElem? hfound) (htcb.trans hid.symm)]
  refine hstate.resolve_right fun hcurrent => ?_
  have hplace := place_unique hok.distinct hfound hlast (hid.trans hwaitingId.symm)
  rw [Between] at hbetween
  omega

/-- A switch that keeps the order does not select the served task; it selects
the waiting task or stays in the arc. -/
theorem InArc.switch (hok : TableOk kernel) (hdiffer : served≠waiting)
    (hserved : ReadyOrCurrent kernel served) (hwaiting : ReadyOrCurrent kernel waiting)
    (harc : InArc served waiting kernel) (horder : KeepsOrder kernel waiting) :
    currentId (perform kernel .switch)≠some served ∧
      (currentId (perform kernel .switch)≠some waiting →
        InArc served waiting (perform kernel .switch)) := by
  obtain ⟨running,-,hcurrent,htable,-,hsub⟩ := hok.reaped
  have hready : ∀ tcb∈(kernel.reapTerminated false).tasks,tcb.id=waiting → tcb.state=.ready :=
    fun tcb hmem => harc.ready hok hwaiting tcb (hsub tcb hmem)
  obtain ⟨first,last,servedTcb,waitingTcb,hfirst,hservedId,hlast,hwaitingId,hbetween⟩ :=
    harc.reap hok hserved hwaiting
  obtain ⟨hplan,hindex,-,-⟩ := schedule_table kernel
  rw [KeepsOrder,requestedIndex,hcurrent] at horder
  generalize hreaped : kernel.reapTerminated false=reaped at *
  have hin := (List.getElem?_eq_some_iff.mp hcurrent).1
  have hother : last≠reaped.current := by
    rw [Between] at hbetween
    omega
  have hwaits : ReadyAt reaped.tasks last :=
    ⟨waitingTcb,hlast,hready waitingTcb (List.mem_of_getElem? hlast) hwaitingId⟩
  rcases prepareSwitch_cases hreaped hcurrent with ⟨hfew,-⟩|⟨hnone,-⟩|
    ⟨index,incoming,hmoves,hselect,hincoming,-,hswitch⟩
  · have hone := (List.getElem?_eq_some_iff.mp hfirst).1
    have htwo := (List.getElem?_eq_some_iff.mp hlast).1
    have hequal : first=last := by omega
    rw [hequal,hlast] at hfirst
    cases hfirst
    exact absurd (hservedId.symm.trans hwaitingId) hdiffer
  · exact absurd hwaits (hnone last hother)
  · have hahead := @selectNext_ahead (reaped.tasks.set reaped.current running.preempted)
      reaped.current running.id reaped.foregroundWakeId last (by rwa [List.length_set])
      ⟨waitingTcb,(List.getElem?_set_ne (Ne.symm hother)).trans hlast,
        hready waitingTcb (List.mem_of_getElem? hlast) hwaitingId⟩ hother (fun hwoken => by
          have hwake := horder _ (if_neg hwoken)
          rw [← hwaitingId,placeOf_eq htable.distinct hlast] at hwake
          rwa [List.length_set])
    rw [← hselect,List.length_set] at hahead
    have hnow : currentId (perform kernel .switch)=some incoming.id := by
      rw [perform,currentId,hplan,hindex,hswitch]
      dsimp only
      rw [getElem?_set_of_get ((List.getElem?_set_ne (Ne.symm hmoves)).trans hincoming)]
      rfl
    rw [hnow]
    rcases between_ahead (List.getElem?_eq_some_iff.mp hlast).1 hin hbetween hmoves hahead.2 with
      rfl|⟨hstays,hstart⟩
    · rw [hlast] at hincoming
      cases hincoming
      rw [hwaitingId]
      exact ⟨fun h => hdiffer (Option.some.inj h).symm,fun h => absurd rfl h⟩
    · refine ⟨fun h => hstart (place_unique htable.distinct hincoming hfirst
        ((Option.some.inj h).trans hservedId.symm)),fun _ => ?_⟩
      have hids : (perform kernel .switch).tasks.map Tcb.id=reaped.tasks.map Tcb.id := by
        rw [perform,hplan,hswitch]
        have hrunning : Tcb.id {incoming with state := .running}=incoming.id := rfl
        exact (ids_set ((List.getElem?_set_ne (Ne.symm hmoves)).trans hincoming) hrunning).trans
          (ids_set hcurrent (state_outgoing running).2.2)
      obtain ⟨servedNow,hservedNow,hservedSame⟩ := get_of_ids hids hfirst
      obtain ⟨waitingNow,hwaitingNow,hwaitingSame⟩ := get_of_ids hids hlast
      refine ⟨first,last,servedNow,waitingNow,hservedNow,hservedSame.trans hservedId,hwaitingNow,
        hwaitingSame.trans hwaitingId,?_⟩
      have hplaceNow : (perform kernel .switch).current=index := by
        rw [perform,hindex,hswitch]
      rw [hplaceNow]
      exact hstays

/-- While both tasks stay ready or current, the current index stays in the
arc until the waiting task is selected. -/
theorem inArc_turns (hok : TableOk start) (hdiffer : served≠waiting)
    (hserved : ReadyOrCurrent start served) (hwaiting : ReadyOrCurrent start waiting)
    (harc : InArc served waiting start)
    (hrun : Relation.ReflTransGen (Turn waiting served) start kernel) :
    TableOk kernel ∧ ReadyOrCurrent kernel served ∧ ReadyOrCurrent kernel waiting ∧
      InArc served waiting kernel := by
  induction hrun with
  | refl => exact ⟨hok,hserved,hwaiting,harc⟩
  | tail _ hstep ih =>
    obtain ⟨htable,hservedOld,hwaitingOld,harcOld⟩ := ih
    obtain ⟨hwaitingNow,hservedNow,⟨id,rfl⟩|⟨horder,rfl,hother⟩⟩ := hstep
    · exact ⟨htable.congr rfl rfl rfl,hservedNow,hwaitingNow,harcOld⟩
    · exact ⟨(@perform_table _ .switch htable trivial).1,hservedNow,hwaitingNow,
        (harcOld.switch htable hdiffer hservedOld hwaitingOld horder).2 hother⟩

/-- Round-robin order holds as long as no honoured wake-up request passes
over the waiting task: a task that was selected is not selected again before
the waiting one, over any number of switches and wake-up requests while both
are ready or current. -/
theorem served_waits_for_waiting {served waiting : ℕ} {start : Kernel} (hok : TableOk start)
    (hdiffer : served≠waiting) (hselected : currentId start=some served)
    (hserved : ReadyOrCurrent start served) (hwaiting : ReadyOrCurrent start waiting)
    (hrun : Relation.ReflTransGen (Turn waiting served) start kernel)
    (horder : KeepsOrder kernel waiting) :
    currentId (perform kernel .switch)≠some served := by
  obtain ⟨running,hget⟩ := hok.get
  rw [currentId_of_get hget] at hselected
  obtain ⟨last,waitingTcb,hlast,hwaitingId,hstate⟩ := id hwaiting
  have hplaces : start.current≠last := by
    rintro rfl
    rw [hget] at hlast
    cases hlast
    exact hdiffer ((Option.some.inj hselected).symm.trans hwaitingId)
  have harc : InArc served waiting start := by
    refine ⟨start.current,last,running,waitingTcb,hget,Option.some.inj hselected,hlast,hwaitingId,?_⟩
    rw [Between]
    omega
  obtain ⟨htable,hservedNow,hwaitingNow,harcNow⟩ :=
    inArc_turns hok hdiffer hserved hwaiting harc hrun
  exact (harcNow.switch htable hdiffer hservedNow hwaitingNow horder).1

theorem readyOrCurrent_of_any (index : ℕ)
    (hany : (kernel.tasks[index]?.any fun tcb => tcb.id=id ∧ (tcb.state=.ready ∨ index=kernel.current))=true) :
    ReadyOrCurrent kernel id := by
  obtain ⟨tcb,hget,htcb⟩ := (Option.any_eq_true _ _).mp hany
  exact ⟨index,tcb,hget,of_decide_eq_true htcb⟩

/-- After boot the shell does not get the processor again before the
heartbeat, although the idle task is woken. -/
theorem served_waits_for_waiting_heartbeat :
    let kernel := [.wake 2,.switch].foldl perform (boot smallPaging 0)
    currentId kernel=some 2 ∧ currentId (perform kernel .switch)≠some 1 := by
  have hrun : Relation.ReflTransGen (Turn 3 1) (boot smallPaging 0)
      ([.wake 2,.switch].foldl perform (boot smallPaging 0)) := by
    refine .tail (.single ⟨readyOrCurrent_of_any 2 (by decide +kernel),
      readyOrCurrent_of_any 0 (by decide +kernel),.inl ⟨2,rfl⟩⟩) ?_
    exact ⟨readyOrCurrent_of_any 2 (by decide +kernel),readyOrCurrent_of_any 0 (by decide +kernel),
      .inr ⟨by decide +kernel,rfl,by decide +kernel⟩⟩
  exact ⟨by decide +kernel,served_waits_for_waiting (tableOk_boot smallPaging 0) (by decide) rfl
    (readyOrCurrent_of_any 0 (by decide +kernel)) (readyOrCurrent_of_any 2 (by decide +kernel)) hrun
    (by decide +kernel)⟩

/-- Two processes start, and the tasks take their turns up to the last. -/
def twoProcesses : List Operation :=
  [.spawn ⟨"desktop".toList,"/".toList,tinyElf,.ready,fun _ => true⟩,
    .spawn ⟨"app".toList,"/".toList,tinyElf,.ready,fun _ => true⟩,
    .switch,.switch,.switch,.switch]

/-- Process 5 has the processor, input arrives for the foreground process 4,
and process 5 is selected again before the shell, which is ready all along. -/
theorem woken_process_overtakes_shell :
    ∃ start,Reaches (fun _ _ => True) (boot smallPaging 0) start ∧ currentId start=some 5 ∧
      states start=[(1,.ready),(2,.ready),(3,.ready),(4,.ready),(5,.running)] ∧
      states ([.wake 4,.switch].foldl perform start)=
        [(1,.ready),(2,.ready),(3,.ready),(4,.running),(5,.ready)] ∧
      states ([.wake 4,.switch,.switch].foldl perform start)=
        [(1,.ready),(2,.ready),(3,.ready),(4,.ready),(5,.running)] ∧
      currentId ([.wake 4,.switch,.switch].foldl perform start)=some 5 :=
  ⟨twoProcesses.foldl perform (boot smallPaging 0),
    reaches_foldl (by simp [twoProcesses,Legal]) _,by decide +kernel,by decide +kernel,
    by decide +kernel,by decide +kernel,by decide +kernel⟩

end TuwaiqOS.TaskSwitching
