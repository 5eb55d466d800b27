import TuwaiqOS.FrameConservation

/-!
# The task table over runs of scheduler operations

Any sequence of spawns, activations, timer interrupts, switches, sleeps,
exits, kills, wake requests and reaps keeps the table in order: ids are
distinct, the current index denotes a task, only the current task is running
and the shell is alive. A terminated task stays terminated and is removed
only by reaping, as long as `sleep_ticks` is not called by a task that was
killed while it had the processor: the call turns it into a sleeping task.
-/

namespace TuwaiqOS.Scheduler

/-- The process that the rest of a spawn may still insert. -/
def SpawnStage.request : SpawnStage → Option SpawnRequest
  | .counting request => some request
  | .reserving request => some request
  | .building request _ _ _ => some request
  | .numbering request _ _ => some request
  | .inserting request _ _ _ => some request
  | .discarding _ _ => none
  | .finished _ => none

/-- Jobs without local variables that matter. -/
def Job.Calm : Job → Prop
  | .idle _ => True
  | .halted => True
  | .yielding => True
  | _ => False

end TuwaiqOS.Scheduler

namespace TuwaiqOS.TaskTable

open AddressSpaces ElfImage Scheduler FrameLedger
open FrameConservation (boot smallPaging)

/-! ## Operations -/

/-- The operations on the scheduler. -/
inductive Operation where
  /-- `spawn_user_process` or `spawn_user_process_suspended`. -/
  | spawn (request : SpawnRequest)
  /-- `activate_task`. -/
  | activate (id : ℕ)
  /-- The timer interrupt with `on_timer_tick`. -/
  | tick
  /-- `schedule` with its `prepare_switch`. -/
  | switch
  /-- `yield_now`. -/
  | yield
  /-- The section of `sleep_ticks`; the call goes on with `schedule`. -/
  | sleep (ticks : ℕ)
  /-- The section of `exit_with_code`; the call goes on with `schedule`. -/
  | exit (code : ℤ)
  /-- `kill`. -/
  | kill (id : ℕ)
  /-- `request_foreground_wake`. -/
  | wake (id : ℕ)
  /-- `reap_terminated`; `reap_now` if it is forced. -/
  | reap (force : Bool)

section

variable (kernel : Kernel)

/-- `kill` with the release of the address space it took. -/
def kill (id : ℕ) : Kernel :=
  match kernel.kill id with
  | .error _ => kernel
  | .ok (none,later) => later
  | .ok (some space,later) =>
    later.setAllocator (freeAddressSpace space later.paging.allocator)

/-- The section of `sleep_ticks`. -/
def sleepTicks (ticks : ℕ) : Kernel :=
  match kernel.tasks[kernel.current]? with
  | none => kernel
  | some tcb => kernel.setTask kernel.current (tcb.asleep (kernel.ticks+ticks))

/-- The kernel after an operation. -/
def perform : Operation → Kernel
  | .spawn request => (kernel.spawnUserProcess request).2
  | .activate id => kernel.activateTask id
  | .tick => kernel.onTimerTick
  | .switch => kernel.schedule
  | .yield => Kernel.schedule {kernel with ticksSinceSwitch := 0}
  | .sleep ticks => sleepTicks kernel ticks
  | .exit code => kernel.exitWithCode code
  | .kill id => kill kernel id
  | .wake id => {kernel with foregroundWakeId := id,ticksSinceSwitch := timeSliceTicks}
  | .reap force => kernel.reapTerminated force

/-- The id of the task that has the processor. -/
def currentId : Option ℕ := kernel.tasks[kernel.current]?.map Tcb.id

/-- New processes are ready or suspended, and the shell never exits. -/
def Legal : Operation → Prop
  | .spawn request => request.initialState=.ready ∨ request.initialState=.blocked
  | .exit _ => currentId kernel≠some 1
  | _ => True

end

/-- One operation that is legal and allowed. -/
def Step (allowed : Kernel → Operation → Prop) (kernel later : Kernel) : Prop :=
  ∃ operation,Legal kernel operation ∧ allowed kernel operation ∧ later=perform kernel operation

/-- States after any number of operations. -/
def Reaches (allowed : Kernel → Operation → Prop) : Kernel → Kernel → Prop :=
  Relation.ReflTransGen (Step allowed)

/-! ## What a spawn does to the table -/

variable {kernel later : Kernel} {tcb next : Tcb} {index : ℕ}

theorem spawnRun_finished (fuel : ℕ) (result : Except String ℕ) (kernel : Kernel) :
    spawnRun fuel (.finished result,kernel)=(.finished result,kernel) := by
  induction fuel with
  | zero => rfl
  | succ fuel ih => exact ih

theorem spawnRun_discarding (fuel : ℕ) (space : AddressSpace) (reason : String) (kernel : Kernel) :
    (spawnRun fuel (.discarding space reason,kernel)).2.nextId=kernel.nextId ∧
      (spawnRun fuel (.discarding space reason,kernel)).2.tasks=kernel.tasks ∧
      ∀ id,(spawnRun fuel (.discarding space reason,kernel)).1≠.finished (.ok id) := by
  cases fuel with
  | zero => exact ⟨rfl,rfl,fun _ h => by cases h⟩
  | succ fuel =>
    rw [spawnRun,spawnStep,spawnRun_finished]
    exact ⟨rfl,rfl,fun _ h => by cases h⟩

/-- The rest of a spawn leaves the table as it is or succeeds and adds one
process, with the id it took before or the next one. -/
theorem spawnRun_table {fuel : ℕ} {stage : SpawnStage}
    (hpending : ∀ id,stage.pending=some id → id<kernel.nextId) :
    kernel.nextId≤(spawnRun fuel (stage,kernel)).2.nextId ∧
    ((spawnRun fuel (stage,kernel)).2.tasks=kernel.tasks ∧
        (∀ id,(spawnRun fuel (stage,kernel)).1=.finished (.ok id) → stage.request=none) ∨
      kernel.tasks.length < maxTasks ∧ ∃ request space entry id,stage.request=some request ∧
        (stage.pending=some id ∨ stage.pending=none ∧ id=kernel.nextId) ∧
        id<(spawnRun fuel (stage,kernel)).2.nextId ∧ (spawnRun fuel (stage,kernel)).2.tasks=
          kernel.tasks++[newUserTcb request space entry id] ∧
        (spawnRun fuel (stage,kernel)).1=.finished (.ok id)) := by
  induction fuel generalizing kernel stage with
  | zero => exact ⟨le_rfl,.inl ⟨rfl,fun _ hdone => by cases hdone; rfl⟩⟩
  | succ fuel ih =>
    obtain ⟨next,hnext,hspawns⟩ := exists_spawns kernel stage
    rw [spawnRun,hnext]
    cases hspawns with
    | counted request => exact @ih kernel (.reserving request) hpending
    | planned request space allocator entry ops =>
      exact @ih (kernel.setAllocator allocator) (.building request space entry ops) hpending
    | performed request space entry op rest =>
      exact @ih {kernel with paging := (op.perform space kernel.paging).2.2}
        (.building request (op.perform space kernel.paging).2.1 entry rest) hpending
    | built request space entry => exact @ih kernel (.numbering request space entry) hpending
    | numbered request space entry =>
      obtain ⟨hless,hsame|⟨hroom,found,last,start,id,hrequest,hid,hadded⟩⟩ :=
        @ih {kernel with nextId := kernel.nextId+1} (.inserting request space entry kernel.nextId)
          (fun id hid => by cases hid; exact Nat.lt_succ_self _)
      · exact ⟨(Nat.le_succ _).trans hless,.inl hsame⟩
      · refine ⟨(Nat.le_succ _).trans hless,
          .inr ⟨hroom,found,last,start,id,hrequest,.inr ⟨rfl,?_⟩,hadded⟩⟩
        rcases hid with hid|⟨hnone,-⟩
        · exact (Option.some.inj hid).symm
        · cases hnone
    | inserted request space entry id hroom =>
      rw [spawnRun_finished]
      exact ⟨le_rfl,.inr ⟨hroom,request,space,entry,id,rfl,.inl rfl,hpending id rfl,rfl,rfl⟩⟩
    | ended result => rw [spawnRun_finished]; exact ⟨le_rfl,.inl ⟨rfl,fun _ _ => rfl⟩⟩
    | crowded | refused | discarded => rw [spawnRun_finished]; exact ⟨le_rfl,.inl ⟨rfl,fun _ h => by cases h⟩⟩
    | _ =>
      have hdiscards := spawnRun_discarding fuel
      refine ⟨(hdiscards _ _ _).1.symm ▸ ?_,.inl ⟨(hdiscards _ _ _).2.1,fun id hdone => ?_⟩⟩
      · first | exact le_rfl | exact Nat.le_succ _
      · exact absurd hdone ((hdiscards _ _ _).2.2 id)

/-- A spawn leaves the table as it is or adds one process with a fresh id. -/
theorem spawnUserProcess_table (kernel : Kernel) (request : SpawnRequest) :
    kernel.nextId≤(kernel.spawnUserProcess request).2.nextId ∧
    ((kernel.spawnUserProcess request).2.tasks=kernel.tasks ∨
      kernel.tasks.length < maxTasks ∧ ∃ space entry,
        kernel.nextId<(kernel.spawnUserProcess request).2.nextId ∧
        (kernel.spawnUserProcess request).2.tasks=
          kernel.tasks++[newUserTcb request space entry kernel.nextId]) := by
  obtain ⟨hnext,⟨hsame,-⟩|⟨hroom,found,space,entry,id,hrequest,hid,hbelow,hadded,-⟩⟩ :=
    @spawnRun_table kernel (SpawnStage.counting request).fuel (.counting request) nofun
  · exact ⟨hnext,.inl hsame⟩
  · cases hrequest
    rcases hid with hnone|⟨-,rfl⟩
    · cases hnone
    · exact ⟨hnext,.inr ⟨hroom,space,entry,hbelow,hadded⟩⟩

/-- A spawn that succeeds adds one process, which has the returned id. -/
theorem spawnUserProcess_ok {request : SpawnRequest} {id : ℕ}
    (hdone : (kernel.spawnUserProcess request).1=.finished (.ok id)) :
    id=kernel.nextId ∧ kernel.nextId<(kernel.spawnUserProcess request).2.nextId ∧
      ∃ space entry,(kernel.spawnUserProcess request).2.tasks=
        kernel.tasks++[newUserTcb request space entry kernel.nextId] := by
  obtain ⟨-,⟨-,hfails⟩|⟨-,found,space,entry,taken,hrequest,hid,hbelow,hadded,hresult⟩⟩ :=
    @spawnRun_table kernel (SpawnStage.counting request).fuel (.counting request) nofun
  · cases hfails id hdone
  · cases hrequest
    cases hdone.symm.trans hresult
    rcases hid with hnone|⟨-,rfl⟩
    · cases hnone
    · exact ⟨rfl,hbelow,space,entry,hadded⟩

/-- A section of a spawn changes the table, the ids and the memory only. -/
theorem spawnStep_keeps (kernel : Kernel) (stage : SpawnStage) :
    (spawnStep kernel stage).2={kernel with
      paging := (spawnStep kernel stage).2.paging
      tasks := (spawnStep kernel stage).2.tasks
      nextId := (spawnStep kernel stage).2.nextId} := by
  obtain ⟨next,hnext,hspawns⟩ := exists_spawns kernel stage
  rw [hnext]
  cases hspawns <;> rfl

/-- A spawn changes the table, the ids and the memory only. -/
theorem spawnUserProcess_keeps (kernel : Kernel) (request : SpawnRequest) :
    (kernel.spawnUserProcess request).2={kernel with
      paging := (kernel.spawnUserProcess request).2.paging
      tasks := (kernel.spawnUserProcess request).2.tasks
      nextId := (kernel.spawnUserProcess request).2.nextId} := by
  have hrun : ∀ fuel (state : SpawnStage×Kernel),(spawnRun fuel state).2={state.2 with
      paging := (spawnRun fuel state).2.paging
      tasks := (spawnRun fuel state).2.tasks
      nextId := (spawnRun fuel state).2.nextId} := by
    intro fuel
    induction fuel with
    | zero => exact fun state => rfl
    | succ fuel ih =>
      intro state
      rw [spawnRun]
      refine (ih _).trans ?_
      rw [spawnStep_keeps]
  exact hrun _ _

/-! ## The table in order -/

/-- What holds of the table in every state. -/
@[mk_iff]
structure TableOk (kernel : Kernel) : Prop where
  /-- Ids are distinct. -/
  distinct : (kernel.tasks.map Tcb.id).Nodup
  /-- Ids are below `NEXT_ID`. -/
  below : ∀ tcb∈kernel.tasks,tcb.id<kernel.nextId
  /-- The current index denotes a task. -/
  current : kernel.current<kernel.tasks.length
  /-- Only the current task is running. -/
  running : ∀ index tcb,kernel.tasks[index]? = some tcb → tcb.state=.running →
    index=kernel.current
  /-- The shell is in the table and alive. -/
  shell : ∃ tcb∈kernel.tasks,tcb.id=1 ∧ tcb.state≠.terminated
  /-- The table does not outgrow its limit. -/
  bounded : kernel.tasks.length ≤ maxTasks

/-- What an operation can do to the tasks in the table. -/
structure Changes (switches forced : Prop) (kernel later : Kernel) : Prop where
  /-- A terminated task stays so. -/
  dead : ∀ tcb∈kernel.tasks,tcb.state=.terminated →
    ∀ next∈later.tasks,next.id=tcb.id → next.state=.terminated
  /-- Only old enough terminated tasks leave the table, and never the current
  one. -/
  removed : ∀ tcb∈kernel.tasks,(∀ next∈later.tasks,next.id≠tcb.id) →
    tcb.state=.terminated ∧ currentId kernel≠some tcb.id ∧
      (forced ∨ reapGraceTicks≤later.ticks-tcb.terminatedAtTick)
  /-- The current task changes only by a switch, to one that is not
  terminated. -/
  chosen : currentId later≠currentId kernel → switches ∧
    ∀ tcb∈kernel.tasks,currentId later=some tcb.id → tcb.state≠.terminated

variable {switches forced : Prop} {tasks : List Tcb}

theorem Changes.mono {switches' forced' : Prop} (hchanges : Changes switches forced kernel later)
    (hswitches : switches → switches') (hforced : forced → forced') :
    Changes switches' forced' kernel later where
  dead := hchanges.dead
  removed := fun tcb hmem hgone =>
    (hchanges.removed tcb hmem hgone).imp_right (And.imp_right (Or.imp_left hforced))
  chosen := fun hmoved => (hchanges.chosen hmoved).imp_left hswitches

theorem TableOk.get (hok : TableOk kernel) : ∃ tcb,kernel.tasks[kernel.current]? = some tcb :=
  ⟨_,List.getElem?_eq_getElem hok.current⟩

/-- Two tasks with the same id are the same. -/
theorem TableOk.same (hok : TableOk kernel) (hfirst : tcb∈kernel.tasks)
    (hsecond : next∈kernel.tasks) (hid : tcb.id=next.id) : tcb=next :=
  List.inj_on_of_nodup_map hok.distinct hfirst hsecond hid

theorem currentId_of_get (hget : kernel.tasks[kernel.current]? = some tcb) :
    currentId kernel=some tcb.id := by
  rw [currentId,hget]
  rfl

/-- Replacing a task by one with the same id keeps all ids. -/
theorem ids_set (hget : tasks[index]? = some tcb) (hid : next.id=tcb.id) :
    (tasks.set index next).map Tcb.id=tasks.map Tcb.id := by
  obtain ⟨hlength,hvalue⟩ := List.getElem?_eq_some_iff.mp hget
  rw [List.map_set,hid,← hvalue,← List.map_set,List.set_getElem_self]

/-- Every task of the new table is the changed one or an old one elsewhere. -/
theorem get_set {place : ℕ} {found : Tcb} (hfound : (tasks.set index next)[place]? = some found) :
    place=index ∧ found=next ∨ place≠index ∧ tasks[place]? = some found := by
  by_cases hplace : place=index
  · subst hplace
    rw [List.getElem?_set_self'] at hfound
    obtain ⟨old,-,hnew⟩ := Option.map_eq_some_iff.mp hfound
    exact .inl ⟨rfl,hnew.symm⟩
  · rw [List.getElem?_set_ne (Ne.symm hplace)] at hfound
    exact .inr ⟨hplace,hfound⟩

/-- One task changes. -/
theorem TableOk.set (hok : TableOk kernel) (hget : kernel.tasks[index]? = some tcb)
    (hid : next.id=tcb.id) (hrunning : next.state=.running → index=kernel.current)
    (hshell : tcb.id=1 → tcb.state≠.terminated → next.state≠.terminated)
    (htasks : later.tasks=kernel.tasks.set index next) (hcurrent : later.current=kernel.current)
    (hnext : later.nextId=kernel.nextId) : TableOk later := by
  constructor
  · rw [htasks,ids_set hget hid]
    exact hok.distinct
  · intro task htask
    rw [htasks] at htask
    rw [hnext]
    rcases List.mem_or_eq_of_mem_set htask with hold|rfl
    · exact hok.below task hold
    · rw [hid]
      exact hok.below tcb (List.mem_of_getElem? hget)
  · rw [hcurrent,htasks,List.length_set]
    exact hok.current
  · intro place found hfound hstate
    rw [htasks] at hfound
    rw [hcurrent]
    rcases get_set hfound with ⟨rfl,rfl⟩|⟨-,hold⟩
    · exact hrunning hstate
    · exact hok.running place found hold hstate
  · obtain ⟨shell,hmem,hone,halive⟩ := hok.shell
    rw [htasks]
    by_cases hsame : shell=tcb
    · subst hsame
      exact ⟨next,List.mem_of_getElem? (getElem?_set_of_get hget),hid.trans hone,hshell hone halive⟩
    · obtain ⟨place,hplace⟩ := List.mem_iff_getElem?.mp hmem
      have hne : index≠place := by
        rintro rfl
        exact hsame (Option.some.inj (hplace.symm.trans hget))
      exact ⟨shell,List.mem_of_getElem? ((List.getElem?_set_ne hne).trans hplace),hone,halive⟩
  · rw [htasks,List.length_set]
    exact hok.bounded

section

variable (hids : later.tasks.map Tcb.id=kernel.tasks.map Tcb.id)
include hids

/-- Of two tables with the same ids each lists the tasks of the other. -/
theorem listed_of_ids (hmem : tcb∈kernel.tasks) : ∃ next∈later.tasks,next.id=tcb.id := by
  rw [← List.mem_map,hids]
  exact List.mem_map_of_mem hmem

/-- The current index of two tables with the same ids. -/
theorem currentId_congr
    (hcurrent : later.current=kernel.current) : currentId later=currentId kernel := by
  rw [currentId,currentId,← List.getElem?_map,← List.getElem?_map,hids,hcurrent]

/-- The ids and the current index stay, and no terminated task changes its
state. -/
theorem Changes.of_ids (hcurrent : later.current=kernel.current)
    (hdead : ∀ tcb∈kernel.tasks,tcb.state=.terminated → ∀ next∈later.tasks,next.id=tcb.id → next.state=.terminated) :
    Changes switches forced kernel later := by
  refine ⟨hdead,fun tcb hmem hgone => ?_,fun hmoved => absurd (currentId_congr hids hcurrent) hmoved⟩
  obtain ⟨next,hnext,hid⟩ := listed_of_ids hids hmem
  exact absurd hid (hgone next hnext)

end

/-- One task changes and stays terminated if it was. -/
theorem Changes.set (hok : TableOk kernel) (hget : kernel.tasks[index]? = some tcb)
    (hid : next.id=tcb.id) (hdead : tcb.state=.terminated → next.state=.terminated)
    (htasks : later.tasks=kernel.tasks.set index next) (hcurrent : later.current=kernel.current) :
    Changes switches forced kernel later := by
  refine Changes.of_ids (by rw [htasks,ids_set hget hid]) hcurrent ?_
  intro task hmem hterminated found hfound hsame
  rw [htasks] at hfound
  rcases List.mem_or_eq_of_mem_set hfound with hold|rfl
  · rw [hok.same hold hmem hsame]
    exact hterminated
  · have htask := hok.same hmem (List.mem_of_getElem? hget) (hsame.symm.trans hid)
    subst htask
    exact hdead hterminated

/-- Nothing changes in the table. -/
theorem Changes.refl (hok : TableOk kernel) (htasks : later.tasks=kernel.tasks)
    (hcurrent : later.current=kernel.current) : Changes switches forced kernel later := by
  refine Changes.of_ids (by rw [htasks]) hcurrent fun tcb hmem hdead next hnext hid => ?_
  rw [htasks] at hnext
  rw [hok.same hnext hmem hid]
  exact hdead

theorem TableOk.congr (hok : TableOk kernel) (htasks : later.tasks=kernel.tasks)
    (hcurrent : later.current=kernel.current) (hnext : later.nextId=kernel.nextId) :
    TableOk later := by
  rw [tableOk_iff,htasks,hcurrent,hnext,← tableOk_iff]
  exact hok

/-! ## Reaping -/

/-- The place of an id in a table with distinct ids. -/
theorem place_unique (hdistinct : (tasks.map Tcb.id).Nodup) {place other : ℕ}
    (hplace : tasks[place]? = some tcb) (hother : tasks[other]? = some next) (hid : tcb.id=next.id) :
    place=other := by
  have hlength := (List.getElem?_eq_some_iff.mp hplace).1
  refine (List.getElem?_inj (by rwa [List.length_map]) hdistinct).mp ?_
  rw [List.getElem?_map,List.getElem?_map,hplace,hother,Option.map_some,Option.map_some,hid]

/-- The table after reaping, and where the current task is in it. -/
theorem reapTerminated_eq (hok : TableOk kernel) (force : Bool)
    (hget : kernel.tasks[kernel.current]? = some tcb) : (kernel.reapTerminated force).tasks=
      kernel.tasks.filter (fun task => !shouldReap tcb.id kernel.ticks force task) ∧
    (kernel.reapTerminated force).tasks[(kernel.reapTerminated force).current]? = some tcb := by
  rw [Kernel.reapTerminated,hget]
  refine ⟨rfl,?_⟩
  dsimp only
  have hkept : tcb∈kernel.tasks.filter fun task => !shouldReap tcb.id kernel.ticks force task := by
    refine List.mem_filter.mpr ⟨List.mem_of_getElem? hget,?_⟩
    rw [shouldReap]
    simp
  obtain ⟨first,hmem,hfirst,hid⟩ := getElem?_findIdx (p := fun task => task.id=tcb.id) hkept
    (decide_eq_true rfl)
  rw [hok.same (List.mem_filter.mp hmem).1 (List.mem_of_getElem? hget) (of_decide_eq_true hid)]
    at hfirst
  exact hfirst

/-- Reaping keeps the current task and removes terminated ones. -/
theorem reapTerminated_table (hok : TableOk kernel) (force : Bool)
    (hget : kernel.tasks[kernel.current]? = some tcb) : TableOk (kernel.reapTerminated force) ∧
      Changes switches (force=true) kernel (kernel.reapTerminated force) := by
  obtain ⟨htasks,hcurrent⟩ := reapTerminated_eq hok force hget
  have hfields : (kernel.reapTerminated force).nextId=kernel.nextId ∧
      (kernel.reapTerminated force).ticks=kernel.ticks := by
    rw [Kernel.reapTerminated,hget]
    exact ⟨rfl,rfl⟩
  have hsub : ∀ task∈(kernel.reapTerminated force).tasks,task∈kernel.tasks := by
    rw [htasks]
    exact fun task htask => (List.mem_filter.mp htask).1
  have hdistinct : ((kernel.reapTerminated force).tasks.map Tcb.id).Nodup := by
    rw [htasks]
    exact hok.distinct.sublist (List.filter_sublist.map _)
  have hkept : ∀ task∈kernel.tasks,task∉(kernel.reapTerminated force).tasks →
      shouldReap tcb.id kernel.ticks force task=true := by
    intro task htask hgone
    rw [htasks,List.mem_filter,not_and] at hgone
    simpa using hgone htask
  refine ⟨⟨hdistinct,?_,(List.getElem?_eq_some_iff.mp hcurrent).1,?_,?_,?_⟩,?_,?_,?_⟩
  · rw [hfields.1]
    exact fun task htask => hok.below task (hsub task htask)
  · intro place found hfound hstate
    -- the running task is the current one, and ids are distinct
    obtain ⟨old,hold⟩ := List.mem_iff_getElem?.mp (hsub found (List.mem_of_getElem? hfound))
    have hplace := hok.running old found hold hstate
    subst hplace
    rw [hget] at hold
    cases hold
    exact place_unique hdistinct hfound hcurrent rfl
  · obtain ⟨shell,hmem,hone,halive⟩ := hok.shell
    refine ⟨shell,by_contra fun hgone => ?_,hone,halive⟩
    exact halive (of_decide_eq_true (hkept shell hmem hgone)).2.1
  · rw [htasks]
    exact (List.length_filter_le _ _).trans hok.bounded
  · intro task htask hdead found hfound hid
    rw [hok.same (hsub found hfound) htask hid]
    exact hdead
  · intro task htask hgone
    have hreap := of_decide_eq_true (hkept task htask fun hmem => hgone task hmem rfl)
    rw [currentId_of_get hget,hfields.2]
    exact ⟨hreap.2.1,fun hid => hreap.1 (Option.some.inj hid).symm,hreap.2.2⟩
  · intro hmoved
    exact absurd ((currentId_of_get hcurrent).trans (currentId_of_get hget).symm) hmoved

/-! ## Switching -/

theorem running_preempted (tcb : Tcb) : tcb.preempted.state≠.running := by
  rw [Tcb.preempted]
  split
  · simp
  · assumption

/-- The state of the outgoing task of a switch. -/
theorem state_outgoing (tcb : Tcb) :
    (if tcb.state=.terminated then tcb.withoutSpace else tcb.preempted).state≠.running ∧
      ((if tcb.state=.terminated then tcb.withoutSpace else tcb.preempted).state=.terminated ↔
        tcb.state=.terminated) ∧
      (if tcb.state=.terminated then tcb.withoutSpace else tcb.preempted).id=tcb.id := by
  split
  · rename_i hdead
    have hstate : tcb.withoutSpace.state=tcb.state := rfl
    rw [hstate,hdead]
    exact ⟨nofun,Iff.rfl,rfl⟩
  · exact ⟨running_preempted tcb,(Tcb.Alike.preempted tcb).terminated,(Tcb.Alike.preempted tcb).id⟩

variable {middle : Kernel} {now : ℕ}

/-- A change of the tasks that reaping left. -/
theorem Changes.follow (hfirst : Changes switches forced kernel middle)
    (hok : TableOk kernel) (hsub : ∀ task∈middle.tasks,task∈kernel.tasks)
    (hid : currentId middle=currentId kernel) (hticks : later.ticks=middle.ticks)
    (hsecond : Changes switches forced middle later)
    (hids : later.tasks.map Tcb.id=middle.tasks.map Tcb.id) :
    Changes switches forced kernel later := by
  have hback : ∀ tcb∈kernel.tasks,tcb.id∈later.tasks.map Tcb.id → tcb∈middle.tasks := by
    intro tcb hmem hlater
    rw [hids] at hlater
    obtain ⟨old,hold,hsame⟩ := List.mem_map.mp hlater
    rwa [← hok.same (hsub old hold) hmem hsame]
  refine ⟨fun tcb hmem hdead next hnext hsame => ?_,fun tcb hmem hgone => ?_,
    fun hmoved => ?_⟩
  · exact hsecond.dead tcb (hback tcb hmem (hsame▸List.mem_map_of_mem hnext)) hdead next hnext hsame
  · rw [hticks]
    refine hfirst.removed tcb hmem fun next hnext hsame => ?_
    obtain ⟨found,hfound,hfoundId⟩ := listed_of_ids hids hnext
    exact hgone found hfound (hfoundId.trans hsame)
  · rw [← hid] at hmoved
    obtain ⟨hswitches,halive⟩ := hsecond.chosen hmoved
    refine ⟨hswitches,fun tcb hmem hnow => halive tcb (hback tcb hmem ?_) hnow⟩
    obtain ⟨found,hfound,hfoundId⟩ := Option.map_eq_some_iff.mp hnow
    rw [← hfoundId]
    exact List.mem_map_of_mem (List.mem_of_getElem? hfound)

/-- The table, the current index and the clock after `schedule` are those
after `prepare_switch`. -/
theorem schedule_table (kernel : Kernel) : kernel.schedule.tasks=kernel.prepareSwitch.2.tasks ∧
      kernel.schedule.current=kernel.prepareSwitch.2.current ∧
      kernel.schedule.nextId=kernel.prepareSwitch.2.nextId ∧
      kernel.schedule.ticks=kernel.prepareSwitch.2.ticks := by
  rw [Kernel.schedule]
  rcases kernel.prepareSwitch with ⟨_|plan,switched⟩
  · exact ⟨rfl,rfl,rfl,rfl⟩
  · exact ⟨rfl,rfl,rfl,rfl⟩

/-- Switching takes no time and no id, and keeps the kernel's root table. -/
theorem schedule_clock (kernel : Kernel) :
    kernel.schedule.ticks=kernel.ticks ∧ kernel.schedule.nextId=kernel.nextId ∧
      kernel.schedule.kernelPml4Frame=kernel.kernelPml4Frame := by
  have hreap : (kernel.reapTerminated false).ticks=kernel.ticks ∧
      (kernel.reapTerminated false).nextId=kernel.nextId ∧
      (kernel.reapTerminated false).kernelPml4Frame=kernel.kernelPml4Frame := by
    rw [Kernel.reapTerminated]
    split <;> exact ⟨rfl,rfl,rfl⟩
  have hroot : kernel.schedule.kernelPml4Frame=kernel.prepareSwitch.2.kernelPml4Frame := by
    rw [Kernel.schedule]
    rcases kernel.prepareSwitch with ⟨_|plan,switched⟩ <;> rfl
  rw [(schedule_table kernel).2.2.1,(schedule_table kernel).2.2.2,hroot,Kernel.prepareSwitch,
    ← hreap.1,← hreap.2.1,← hreap.2.2]
  dsimp only
  repeat' (split; try exact ⟨rfl,rfl,rfl⟩)
  all_goals exact ⟨rfl,rfl,rfl⟩

/-- What a switch finds after reaping. -/
theorem TableOk.reaped (hok : TableOk kernel) : ∃ tcb,kernel.tasks[kernel.current]? = some tcb ∧
    (kernel.reapTerminated false).tasks[(kernel.reapTerminated false).current]? = some tcb ∧
    TableOk (kernel.reapTerminated false) ∧
    Changes True False kernel (kernel.reapTerminated false) ∧
    ∀ task∈(kernel.reapTerminated false).tasks,task∈kernel.tasks := by
  obtain ⟨tcb,hget⟩ := hok.get
  obtain ⟨htasks,hcurrent⟩ := reapTerminated_eq hok false hget
  obtain ⟨htable,hchanges⟩ := reapTerminated_table hok false hget
  refine ⟨tcb,hget,hcurrent,htable,hchanges.mono id Bool.false_ne_true,?_⟩
  rw [htasks]
  exact fun task htask => (List.mem_filter.mp htask).1

/-- A switch keeps the table in order and gives the processor to no
terminated task. -/
theorem prepareSwitch_table (hok : TableOk kernel) :
    TableOk kernel.prepareSwitch.2 ∧ Changes True False kernel kernel.prepareSwitch.2 := by
  obtain ⟨tcb,hget,hcurrent,hreaped,hforced,hsub⟩ := hok.reaped
  generalize hmiddle : kernel.reapTerminated false=reaped at *
  have hid : currentId reaped=currentId kernel := by
    rw [currentId_of_get hcurrent,currentId_of_get hget]
  rcases prepareSwitch_cases hmiddle hcurrent with ⟨-,hplan⟩|⟨-,hplan⟩|
    ⟨index,incoming,hother,-,hincoming,hready,hplan⟩
  · rw [hplan]
    exact ⟨hreaped,hforced⟩
  · have halike := Tcb.Alike.resumed tcb
    rw [hplan]
    refine ⟨hreaped.set hcurrent halike.id (fun _ => rfl)
      (fun _ halive hdead => halive (halike.terminated.mp hdead)) rfl rfl rfl,?_⟩
    refine hforced.follow hok hsub hid rfl ?_ (ids_set hcurrent halike.id)
    exact Changes.set hreaped hcurrent halike.id halike.terminated.mpr rfl rfl
  · obtain ⟨hstill,hdead,hsame⟩ := state_outgoing tcb
    rw [hplan]
    generalize (if tcb.state=.terminated then tcb.withoutSpace else tcb.preempted)=outgoing at *
    have hleft : (reaped.tasks.set reaped.current outgoing)[index]? = some incoming :=
      (List.getElem?_set_ne (Ne.symm hother)).trans hincoming
    have hrunning : Tcb.id {incoming with state := .running}=incoming.id := rfl
    have hids : ((reaped.tasks.set reaped.current outgoing).set index
        {incoming with state := .running}).map Tcb.id=reaped.tasks.map Tcb.id :=
      (ids_set hleft hrunning).trans (ids_set hcurrent hsame)
    -- first the outgoing task leaves, then the incoming one runs
    have hfirst : TableOk {reaped with tasks := reaped.tasks.set reaped.current outgoing} :=
      hreaped.set hcurrent hsame (fun _ => rfl) (fun _ halive h => halive (hdead.mp h)) rfl rfl rfl
    have hmoved : TableOk {reaped with
        tasks := reaped.tasks.set reaped.current outgoing,current := index} := by
      refine ⟨hfirst.distinct,hfirst.below,(List.getElem?_eq_some_iff.mp hleft).1,?_,hfirst.shell,
        hfirst.bounded⟩
      intro place found hfound hstate
      rcases get_set hfound with ⟨-,rfl⟩|⟨hplace,hold⟩
      · exact absurd hstate hstill
      · exact absurd (hreaped.running place found hold hstate) hplace
    refine ⟨hmoved.set hleft hrunning (fun _ => rfl) (fun _ _ => nofun) rfl rfl rfl,?_⟩
    have hincomingMem := List.mem_of_getElem? hincoming
    have hleave : Changes True False reaped {reaped with
        tasks := reaped.tasks.set reaped.current outgoing} :=
      Changes.set hreaped hcurrent hsame hdead.mpr rfl rfl
    refine hforced.follow hok hsub hid rfl ⟨?_,?_,?_⟩ hids
    · intro task htask hterminated found hfound hfoundId
      rcases List.mem_or_eq_of_mem_set hfound with hold|rfl
      · exact hleave.dead task htask hterminated found hold hfoundId
      · have hready' := hreaped.same hincomingMem htask hfoundId
        rw [hready',hterminated] at hready
        cases hready
    · intro task htask hgone
      obtain ⟨found,hfound,hfoundId⟩ := @listed_of_ids reaped {reaped with
        tasks := (reaped.tasks.set reaped.current outgoing).set index _} task hids htask
      exact absurd hfoundId (hgone found hfound)
    · refine fun _ => ⟨trivial,fun task htask hnow => ?_⟩
      have hnew := @currentId_of_get {reaped with
        tasks := (reaped.tasks.set reaped.current outgoing).set index {incoming with state := .running}
        current := index} _ (getElem?_set_of_get hleft)
      have hsameId : incoming.id=task.id := Option.some.inj (hnew.symm.trans hnow)
      rw [← hreaped.same hincomingMem htask hsameId,hready]
      nofun

theorem schedule_changes (hok : TableOk kernel) :
    TableOk kernel.schedule ∧ Changes True False kernel kernel.schedule := by
  obtain ⟨htable,hdead,hremoved,hchosen⟩ := prepareSwitch_table hok
  obtain ⟨htasks,hcurrent,hnext,hticks⟩ := schedule_table kernel
  have hid : currentId kernel.schedule=currentId kernel.prepareSwitch.2 :=
    currentId_congr (by rw [htasks]) hcurrent
  refine ⟨htable.congr htasks hcurrent hnext,?_,?_,?_⟩
  · rw [htasks]
    exact hdead
  · rw [htasks,hticks]
    exact hremoved
  · rw [hid]
    exact hchosen

/-! ## The timer -/

/-- Waking sleeping tasks before a change. -/
theorem Changes.precede (hrest : Changes switches forced middle later)
    (htasks : middle.tasks=kernel.tasks.map (Tcb.wake now))
    (hcurrent : middle.current=kernel.current) : Changes switches forced kernel later := by
  have halike := fun tcb => Tcb.Alike.wake now tcb
  have hids : middle.tasks.map Tcb.id=kernel.tasks.map Tcb.id := by
    rw [htasks,List.map_map]
    exact List.map_congr_left fun tcb _ => (halike tcb).id
  have hid := currentId_congr hids hcurrent
  have hwoken : ∀ tcb∈kernel.tasks,tcb.wake now∈middle.tasks := by
    rw [htasks]
    exact fun tcb hmem => List.mem_map_of_mem hmem
  refine ⟨fun tcb hmem hdead next hnext hsame => ?_,fun tcb hmem hgone => ?_,
    fun hmoved => ?_⟩
  · exact hrest.dead _ (hwoken tcb hmem) ((halike tcb).terminated.mpr hdead) next hnext
      (hsame.trans (halike tcb).id.symm)
  · obtain ⟨hdead,hother,hold⟩ := hrest.removed _ (hwoken tcb hmem) fun next hnext hsame =>
      hgone next hnext (hsame.trans (halike tcb).id)
    rw [(halike tcb).terminated] at hdead
    rw [hid,(halike tcb).id] at hother
    have hage : (tcb.wake now).terminatedAtTick=tcb.terminatedAtTick := by
      rw [Tcb.wake]
      split <;> rfl
    rw [hage] at hold
    exact ⟨hdead,hother,hold⟩
  · rw [← hid] at hmoved
    obtain ⟨hswitches,halive⟩ := hrest.chosen hmoved
    refine ⟨hswitches,fun tcb hmem hnow hdead => ?_⟩
    exact halive _ (hwoken tcb hmem) (hnow.trans (by rw [(halike tcb).id]))
      ((halike tcb).terminated.mpr hdead)

/-- Waking sleeping tasks keeps the table in order. -/
theorem TableOk.wake (hok : TableOk kernel)
    (htasks : later.tasks=kernel.tasks.map (Tcb.wake now)) (hcurrent : later.current=kernel.current)
    (hnext : later.nextId=kernel.nextId) : TableOk later := by
  have halike := fun tcb => Tcb.Alike.wake now tcb
  constructor
  · rw [htasks,List.map_map]
    rw [show Tcb.id∘Tcb.wake now=Tcb.id from funext fun tcb => (halike tcb).id]
    exact hok.distinct
  · rw [htasks,hnext]
    intro tcb hmem
    obtain ⟨old,hold,rfl⟩ := List.mem_map.mp hmem
    rw [(halike old).id]
    exact hok.below old hold
  · rw [hcurrent,htasks,List.length_map]
    exact hok.current
  · intro place found hfound hstate
    rw [htasks,List.getElem?_map] at hfound
    obtain ⟨old,hold,rfl⟩ := Option.map_eq_some_iff.mp hfound
    rw [hcurrent]
    refine hok.running place old hold ?_
    rw [Tcb.wake] at hstate
    split at hstate
    · cases hstate
    · exact hstate
  · obtain ⟨shell,hmem,hone,halive⟩ := hok.shell
    rw [htasks]
    exact ⟨shell.wake now,List.mem_map_of_mem hmem,(halike shell).id.trans hone,
      fun hdead => halive ((halike shell).terminated.mp hdead)⟩
  · rw [htasks,List.length_map]
    exact hok.bounded

/-- The kernel in the timer interrupt, with sleeping tasks woken. -/
def woken (kernel : Kernel) (sinceSwitch : ℕ) : Kernel :=
  {kernel with
    ticks := kernel.ticks+1
    tasks := kernel.tasks.map (Tcb.wake (kernel.ticks+1))
    ticksSinceSwitch := sinceSwitch}

theorem onTimerTick_eq (kernel : Kernel) :
    kernel.onTimerTick=if timeSliceTicks≤kernel.ticksSinceSwitch+1 then (woken kernel 0).schedule
      else woken kernel (kernel.ticksSinceSwitch+1) := rfl

section

variable (hok : TableOk kernel)
include hok

theorem TableOk.woken (sinceSwitch : ℕ) :
    TableOk (woken kernel sinceSwitch) := hok.wake rfl rfl rfl

/-! ## The other operations -/

/-- A new task with a fresh id that is neither running nor terminated. -/
theorem TableOk.push (hroom : kernel.tasks.length < maxTasks)
    (hstate : tcb.state≠.running) (hid : tcb.id=kernel.nextId)
    (htasks : later.tasks=kernel.tasks++[tcb]) (hcurrent : later.current=kernel.current)
    (hnext : kernel.nextId<later.nextId) : TableOk later := by
  constructor
  · rw [htasks,List.map_append,List.map_singleton,List.nodup_append]
    refine ⟨hok.distinct,List.nodup_singleton _,?_⟩
    intro first hfirst second hsecond
    obtain ⟨task,htask,rfl⟩ := List.mem_map.mp hfirst
    rw [List.mem_singleton.mp hsecond,hid]
    exact (hok.below task htask).ne
  · intro task htask
    rw [htasks] at htask
    rcases List.mem_append.mp htask with hold|hnew
    · exact (hok.below task hold).trans hnext
    · rw [List.mem_singleton.mp hnew,hid]
      exact hnext
  · rw [hcurrent,htasks,List.length_append]
    exact hok.current.trans_le (Nat.le_add_right _ _)
  · intro place found hfound hrunning
    rw [htasks] at hfound
    rw [hcurrent]
    rcases Nat.lt_or_ge place kernel.tasks.length with hless|hlast
    · rw [List.getElem?_append_left hless] at hfound
      exact hok.running place found hfound hrunning
    · rw [List.getElem?_append_right hlast] at hfound
      rw [List.mem_singleton.mp (List.mem_of_getElem? hfound)] at hrunning
      exact absurd hrunning hstate
  · obtain ⟨shell,hmem,hshell⟩ := hok.shell
    exact ⟨shell,by rw [htasks]; exact List.mem_append_left _ hmem,hshell⟩
  · rw [htasks,List.length_append,List.length_singleton]
    exact hroom

/-- The other tasks do not change when one is added. -/
theorem Changes.push (hid : tcb.id=kernel.nextId)
    (htasks : later.tasks=kernel.tasks++[tcb]) (hcurrent : later.current=kernel.current) :
    Changes switches forced kernel later := by
  refine ⟨fun task htask hdead next hnext hsame => ?_,fun task htask hgone => ?_,
    fun hmoved => absurd ?_ hmoved⟩
  · rw [htasks] at hnext
    rcases List.mem_append.mp hnext with hold|hnew
    · rw [hok.same hold htask hsame]
      exact hdead
    · rw [List.mem_singleton.mp hnew,hid] at hsame
      exact absurd hsame.symm (hok.below task htask).ne
  · exact absurd rfl (hgone task (by rw [htasks]; exact List.mem_append_left _ htask))
  · rw [currentId,currentId,hcurrent,htasks,List.getElem?_append_left hok.current]

/-- A new process joins the table, or the table stays as it is. -/
theorem spawn_changes {request : SpawnRequest}
    (hstate : request.initialState=.ready ∨ request.initialState=.blocked) :
    TableOk (kernel.spawnUserProcess request).2 ∧
      Changes switches forced kernel (kernel.spawnUserProcess request).2 := by
  have hindex : (kernel.spawnUserProcess request).2.current=kernel.current := by
    rw [spawnUserProcess_keeps]
  obtain ⟨hnext,hsame|⟨hroom,space,entry,hless,hadded⟩⟩ := spawnUserProcess_table kernel request
  · have hkept : TableOk {(kernel.spawnUserProcess request).2 with nextId := kernel.nextId} :=
      hok.congr hsame hindex rfl
    exact ⟨⟨hkept.distinct,fun tcb hmem => (hkept.below tcb hmem).trans_le hnext,hkept.current,
      hkept.running,hkept.shell,hkept.bounded⟩,Changes.refl hok hsame hindex⟩
  · refine ⟨hok.push hroom ?_ rfl hadded hindex hless,Changes.push hok rfl hadded hindex⟩
    have hinitial : (newUserTcb request space entry kernel.nextId).state=request.initialState := rfl
    rw [hinitial]
    rcases hstate with hready|hblocked
    · rw [hready]
      nofun
    · rw [hblocked]
      nofun

end

/-- What `kill` does: it fails, or it terminates one task other than the
shell and takes the address space unless the task has the processor. -/
theorem kill_cases (kernel : Kernel) (id : ℕ) : (∃ reason,kernel.kill id=.error reason) ∨
    ∃ index victim,kernel.tasks[index]? = some victim ∧ victim.id=id ∧ id≠1 ∧
      (currentId kernel=some id ∧
        kernel.kill id=.ok (none,kernel.setTask index (victim.killed kernel.ticks)) ∨
      currentId kernel≠some id ∧ kernel.kill id=
        .ok (victim.space,kernel.setTask index (victim.killed kernel.ticks).withoutSpace)) := by
  by_cases hid : id=1
  · left
    rw [Kernel.kill,if_pos hid]
    exact ⟨_,rfl⟩
  rw [Kernel.kill,if_neg hid]
  dsimp only
  split
  · exact .inl ⟨_,rfl⟩
  · rename_i victim hfound
    have hmatch := findIdx_found hfound
    refine .inr ⟨_,victim,hfound,of_decide_eq_true hmatch,hid,?_⟩
    by_cases hcurrent : currentId kernel=some id
    · exact .inl ⟨hcurrent,if_pos hcurrent⟩
    · exact .inr ⟨hcurrent,if_neg hcurrent⟩

/-- `activate_task` makes a suspended task ready. -/
theorem activateTask_cases (kernel : Kernel) (id : ℕ) :
    kernel.activateTask id=kernel ∨ ∃ index tcb,kernel.tasks[index]? = some tcb ∧
      tcb.state=.blocked ∧ tcb.wakeAtTick=0 ∧
      kernel.activateTask id=kernel.setTask index {tcb with state := .ready} := by
  rw [Kernel.activateTask]
  split
  · exact .inl rfl
  · rename_i tcb hget
    split
    · exact .inl rfl
    · rename_i hblocked
      rw [not_or,not_not,not_not] at hblocked
      exact .inr ⟨_,tcb,hget,hblocked.1,hblocked.2,rfl⟩

/-- One task before and after an operation that changes only this task and
leaves it its address space. -/
inductive Edits (kernel : Kernel) : Operation → Tcb → Tcb → Prop
  /-- A suspended task is made ready. -/
  | activate {id : ℕ} {tcb : Tcb} (hblocked : tcb.state=.blocked) (htime : tcb.wakeAtTick=0) :
      Edits kernel (.activate id) tcb {tcb with state := .ready}
  /-- The current task goes to sleep. -/
  | sleep {ticks : ℕ} {tcb : Tcb} (hget : kernel.tasks[kernel.current]? = some tcb) :
      Edits kernel (.sleep ticks) tcb (tcb.asleep (kernel.ticks+ticks))
  /-- The current task exits. -/
  | exit {code : ℤ} {tcb : Tcb} (hget : kernel.tasks[kernel.current]? = some tcb) :
      Edits kernel (.exit code) tcb (tcb.exited kernel.ticks code)
  /-- The current task is killed. -/
  | kill {tcb : Tcb} (hshell : tcb.id≠1) :
      Edits kernel (.kill tcb.id) tcb (tcb.killed kernel.ticks)

/-- All that an operation can do. -/
inductive Performs (kernel : Kernel) : Operation → Kernel → Prop
  /-- It starts a process. -/
  | spawns (request : SpawnRequest) :
      Performs kernel (.spawn request) (kernel.spawnUserProcess request).2
  /-- It leaves the table. -/
  | stays (operation : Operation) (wake since : ℕ) :
      Performs kernel operation {kernel with foregroundWakeId := wake,ticksSinceSwitch := since}
  /-- It changes one task. -/
  | edits {operation : Operation} {index : ℕ} {tcb next : Tcb}
      (hget : kernel.tasks[index]? = some tcb) (hedits : Edits kernel operation tcb next) :
      Performs kernel operation (kernel.setTask index next)
  /-- It kills a task that does not have the processor. -/
  | evicts {index : ℕ} {tcb : Tcb} (hget : kernel.tasks[index]? = some tcb) (hshell : tcb.id≠1)
      (hother : currentId kernel≠some tcb.id) :
      Performs kernel (.kill tcb.id)
        ((kernel.setTask index (tcb.killed kernel.ticks).withoutSpace).setAllocator
          (freeSpaceOf kernel.paging.allocator tcb))
  /-- It switches. -/
  | switches {operation : Operation} (since : ℕ) (hcall : operation=.switch ∨ operation=.yield) :
      Performs kernel operation (Kernel.schedule {kernel with ticksSinceSwitch := since})
  /-- It wakes sleeping tasks. -/
  | wakes (since : ℕ) : Performs kernel .tick (woken kernel since)
  /-- It wakes sleeping tasks and switches. -/
  | preempts : Performs kernel .tick (woken kernel 0).schedule
  /-- It reaps. -/
  | reaps (force : Bool) : Performs kernel (.reap force) (kernel.reapTerminated force)

/-- The one case analysis of all operations. -/
theorem performs (hok : TableOk kernel) (operation : Operation) :
    Performs kernel operation (perform kernel operation) := by
  obtain ⟨tcb,hget⟩ := hok.get
  cases operation with
  | spawn request => exact .spawns request
  | activate id =>
    rw [perform]
    rcases activateTask_cases kernel id with hsame|⟨index,task,htask,hblocked,htime,hready⟩
    · rw [hsame]
      exact .stays _ kernel.foregroundWakeId kernel.ticksSinceSwitch
    · rw [hready]
      exact .edits htask (.activate hblocked htime)
  | tick =>
    rw [perform,onTimerTick_eq]
    split
    · exact .preempts
    · exact .wakes _
  | switch => exact .switches kernel.ticksSinceSwitch (.inl rfl)
  | yield => exact .switches 0 (.inr rfl)
  | sleep ticks =>
    rw [perform,sleepTicks,hget]
    exact .edits hget (.sleep hget)
  | exit code =>
    rw [perform,Kernel.exitWithCode,hget]
    exact .edits hget (.exit hget)
  | kill id =>
    rw [perform,kill]
    rcases kill_cases kernel id with ⟨reason,hkill⟩|
      ⟨index,victim,hvictim,rfl,hshell,⟨-,hkill⟩|⟨hother,hkill⟩⟩
    · rw [hkill]
      exact .stays _ kernel.foregroundWakeId kernel.ticksSinceSwitch
    · rw [hkill]
      exact .edits hvictim (.kill hshell)
    · have hevicts := Performs.evicts hvictim hshell hother
      rw [hkill]
      rw [freeSpaceOf] at hevicts
      cases hspace : victim.space with
      | none => rw [hspace] at hevicts; exact hevicts
      | some space => rw [hspace] at hevicts; exact hevicts
  | wake id => exact .stays _ id timeSliceTicks
  | reap force => exact .reaps force

/-! ## Runs -/

/-- Operations that call `prepare_switch`. -/
def Switches : Operation → Prop
  | .tick => True
  | .switch => True
  | .yield => True
  | _ => False

/-- `sleep_ticks` is not called by a terminated task. -/
def SleepsAlive (kernel : Kernel) : Operation → Prop
  | .sleep _ => ∀ tcb,kernel.tasks[kernel.current]? = some tcb → tcb.state≠.terminated
  | _ => True

variable {operation : Operation}

section

variable (hedits : Edits kernel operation tcb next)
include hedits

/-- A changed task keeps its id and its address space, and does not begin to
run. -/
theorem Edits.keeps : next.id=tcb.id ∧ next.space=tcb.space ∧ next.ownedFrames=tcb.ownedFrames ∧
      next.state≠.running := by
  cases hedits with
  | activate | sleep | kill => exact ⟨rfl,rfl,rfl,fun h => by cases h⟩
  | exit hget =>
    rw [Tcb.space,Tcb.space,Tcb.ownedFrames,Tcb.ownedFrames,Tcb.exited]
    cases tcb.process <;> exact ⟨rfl,rfl,rfl,fun h => by cases h⟩

/-- The shell stays alive. -/
theorem Edits.shell (hlegal : Legal kernel operation)
    (hone : tcb.id=1) : next.state≠.terminated := by
  cases hedits with
  | activate hblocked htime => nofun
  | sleep hget => nofun
  | exit hget => exact absurd ((currentId_of_get hget).trans (congrArg some hone)) hlegal
  | kill hshell => exact absurd hone hshell

/-- A terminated task stays so, unless it calls `sleep_ticks`. -/
theorem Edits.dead (halive : SleepsAlive kernel operation) (hdead : tcb.state=.terminated) :
    next.state=.terminated := by
  cases hedits with
  | activate hblocked htime =>
    rw [hblocked] at hdead
    cases hdead
  | sleep hget => exact absurd hdead (halive tcb hget)
  | exit hget => rfl
  | kill hshell => rfl

end

/-- Every operation keeps the table in order. -/
theorem perform_table {operation : Operation} (hok : TableOk kernel)
    (hlegal : Legal kernel operation) : TableOk (perform kernel operation) ∧
      (SleepsAlive kernel operation →
        Changes (Switches operation) (operation=.reap true) kernel (perform kernel operation)) := by
  obtain ⟨running,hrunning⟩ := hok.get
  have hperforms := performs hok operation
  generalize perform kernel operation=later at *
  cases hperforms with
  | spawns request => exact (spawn_changes hok hlegal).imp_right fun h _ => h
  | stays _ wake since => exact ⟨hok.congr rfl rfl rfl,fun _ => Changes.refl hok rfl rfl⟩
  | edits hget hedits =>
    obtain ⟨hid,-,-,hstill⟩ := hedits.keeps
    exact ⟨hok.set hget hid (fun h => absurd h hstill) (fun hone _ => hedits.shell hlegal hone)
      rfl rfl rfl,fun halive => Changes.set hok hget hid (hedits.dead halive) rfl rfl⟩
  | @evicts index tcb hget hshell hother =>
    have hid : (tcb.killed kernel.ticks).withoutSpace.id=tcb.id := rfl
    exact ⟨hok.set hget hid nofun (fun hone => absurd hone hshell) rfl rfl rfl,
      fun _ => Changes.set hok hget hid (fun _ => rfl) rfl rfl⟩
  | switches since hcall =>
    have hsame : TableOk {kernel with ticksSinceSwitch := since} := hok.congr rfl rfl rfl
    obtain ⟨htable,hdead,hremoved,hchosen⟩ := schedule_changes hsame
    have hchanges : Changes True False kernel
        (Kernel.schedule {kernel with ticksSinceSwitch := since}) := ⟨hdead,hremoved,hchosen⟩
    refine ⟨htable,fun _ => hchanges.mono (fun _ => ?_) False.elim⟩
    rcases hcall with rfl|rfl <;> trivial
  | wakes since =>
    have hsame : Changes True False (woken kernel since) (woken kernel since) :=
      Changes.refl (hok.woken since) rfl rfl
    exact ⟨hok.woken since,fun _ => (hsame.precede rfl rfl).mono id False.elim⟩
  | preempts =>
    obtain ⟨htable,hchanges⟩ := schedule_changes (hok.woken 0)
    exact ⟨htable,fun _ => (hchanges.precede rfl rfl).mono id False.elim⟩
  | reaps force =>
    exact (reapTerminated_table hok force hrunning).imp_right fun h _ =>
      h.mono id fun hforce => by rw [hforce]

/-- A task that is alive or current stays in the table. -/
theorem perform_lists (hok : TableOk kernel) (hlegal : Legal kernel operation)
    (hmem : tcb∈kernel.tasks) (hstays : tcb.state≠.terminated ∨ currentId kernel=some tcb.id) :
    ∃ next∈(perform kernel operation).tasks,next.id=tcb.id := by
  by_contra hgone
  have hgone : ∀ next∈(perform kernel operation).tasks,next.id≠tcb.id :=
    fun next hnext hid => hgone ⟨next,hnext,hid⟩
  by_cases hsleeps : SleepsAlive kernel operation
  · obtain ⟨hdead,hother,-⟩ := ((perform_table hok hlegal).2 hsleeps).removed tcb hmem hgone
    exact hstays.elim (fun halive => halive hdead) hother
  · cases operation with
    | sleep ticks =>
      obtain ⟨running,hget⟩ := hok.get
      have hids : (perform kernel (.sleep ticks)).tasks.map Tcb.id=kernel.tasks.map Tcb.id := by
        have hid : (running.asleep (kernel.ticks+ticks)).id=running.id := rfl
        rw [perform,sleepTicks,hget]
        exact ids_set hget hid
      obtain ⟨next,hnext,hid⟩ := listed_of_ids hids hmem
      exact hgone next hnext hid
    | _ => exact hsleeps trivial

/-- A task that stays the same task: its name stays, and no job with local
variables begins. -/
structure Continues (tcb next : Tcb) : Prop where
  /-- Same id. -/
  id : next.id=tcb.id
  /-- Same name. -/
  name : next.name=tcb.name
  /-- A job without local variables stays so. -/
  job : tcb.job.Calm → next.job.Calm

theorem Continues.refl (tcb : Tcb) : Continues tcb tcb := ⟨rfl,rfl,fun h => h⟩

theorem Continues.preempted (tcb : Tcb) : Continues tcb tcb.preempted := by
  rw [Tcb.preempted]
  split <;> exact ⟨rfl,rfl,fun h => h⟩

theorem Continues.resumed (tcb : Tcb) : Continues tcb tcb.resumed := by
  have hcontinues := Continues.preempted tcb
  rw [Tcb.resumed]
  split
  · exact hcontinues
  · exact ⟨hcontinues.id,hcontinues.name,hcontinues.job⟩

/-- After a switch every task is one of those before. -/
theorem schedule_continues (hok : TableOk kernel) :
    ∀ next∈kernel.schedule.tasks,∃ tcb∈kernel.tasks,Continues tcb next := by
  obtain ⟨tcb,hget,hcurrent,-,-,hsub⟩ := hok.reaped
  have hmem := List.mem_of_getElem? hget
  rw [(schedule_table kernel).1]
  intro next hnext
  rcases prepareSwitch_cases rfl hcurrent with ⟨-,hplan⟩|⟨-,hplan⟩|
    ⟨index,incoming,-,-,hincoming,-,hplan⟩
  · rw [hplan] at hnext
    exact ⟨next,hsub next hnext,Continues.refl next⟩
  · rw [hplan] at hnext
    rcases List.mem_or_eq_of_mem_set hnext with hold|rfl
    · exact ⟨next,hsub next hold,Continues.refl next⟩
    · exact ⟨tcb,hmem,Continues.resumed tcb⟩
  · rw [hplan] at hnext
    rcases List.mem_or_eq_of_mem_set hnext with hleft|rfl
    · rcases List.mem_or_eq_of_mem_set hleft with hold|rfl
      · exact ⟨next,hsub next hold,Continues.refl next⟩
      · refine ⟨tcb,hmem,?_⟩
        split
        · exact ⟨rfl,rfl,fun h => h⟩
        · exact Continues.preempted tcb
    · exact ⟨incoming,hsub incoming (List.mem_of_getElem? hincoming),rfl,rfl,fun h => h⟩

/-- A changed task stays the same task. -/
theorem Edits.continues (hedits : Edits kernel operation tcb next) : Continues tcb next := by
  cases hedits with
  | activate hblocked htime => exact ⟨rfl,rfl,fun h => h⟩
  | sleep hget => exact ⟨rfl,rfl,fun _ => trivial⟩
  | exit hget => exact ⟨rfl,rfl,fun _ => trivial⟩
  | kill hshell => exact ⟨rfl,rfl,fun h => h⟩

theorem Continues.wake (now : ℕ) (tcb : Tcb) : Continues tcb (tcb.wake now) := by
  rw [Tcb.wake]
  split <;> exact ⟨rfl,rfl,fun h => h⟩

/-- After an operation every task is one of those before or a new process. -/
theorem perform_continues (hok : TableOk kernel) :
    ∀ next∈(perform kernel operation).tasks,(∃ tcb∈kernel.tasks,Continues tcb next) ∨
      ∃ request space entry,operation=.spawn request ∧
        next=newUserTcb request space entry kernel.nextId := by
  obtain ⟨running,hrunning⟩ := hok.get
  have hset : ∀ {index : ℕ} {old changed : Tcb},kernel.tasks[index]? = some old →
      Continues old changed → ∀ next∈kernel.tasks.set index changed,
        ∃ tcb∈kernel.tasks,Continues tcb next := by
    intro index old changed hold hcontinues next hnext
    rcases List.mem_or_eq_of_mem_set hnext with hsame|rfl
    · exact ⟨next,hsame,Continues.refl next⟩
    · exact ⟨old,List.mem_of_getElem? hold,hcontinues⟩
  have hperforms := performs hok operation
  generalize perform kernel operation=later at *
  intro next hnext
  cases hperforms with
  | spawns request =>
    obtain ⟨-,hsame|⟨-,space,entry,-,hadded⟩⟩ := spawnUserProcess_table kernel request
    · rw [hsame] at hnext
      exact .inl ⟨next,hnext,Continues.refl next⟩
    · rw [hadded] at hnext
      rcases List.mem_append.mp hnext with hold|hnew
      · exact .inl ⟨next,hold,Continues.refl next⟩
      · exact .inr ⟨request,space,entry,rfl,List.mem_singleton.mp hnew⟩
  | stays _ wake since => exact .inl ⟨next,hnext,Continues.refl next⟩
  | edits hget hedits => exact .inl (hset hget hedits.continues next hnext)
  | @evicts index tcb hget hshell hother =>
    have hcontinues : Continues tcb (tcb.killed kernel.ticks).withoutSpace := ⟨rfl,rfl,fun h => h⟩
    exact .inl (hset hget hcontinues next hnext)
  | switches since hcall =>
    have hsame : TableOk {kernel with ticksSinceSwitch := since} := hok.congr rfl rfl rfl
    exact .inl (schedule_continues hsame next hnext)
  | wakes since =>
    obtain ⟨old,hold,rfl⟩ := List.mem_map.mp hnext
    exact .inl ⟨old,hold,Continues.wake _ old⟩
  | preempts =>
    obtain ⟨middle,hmiddle,hid,hname,hjob⟩ := schedule_continues (hok.woken 0) next hnext
    obtain ⟨old,hold,rfl⟩ := List.mem_map.mp hmiddle
    obtain ⟨hidOld,hnameOld,hjobOld⟩ := Continues.wake (kernel.ticks+1) old
    exact .inl ⟨old,hold,hid.trans hidOld,hname.trans hnameOld,fun h => hjob (hjobOld h)⟩
  | reaps force =>
    rw [(reapTerminated_eq hok force hrunning).1] at hnext
    exact .inl ⟨next,(List.mem_filter.mp hnext).1,Continues.refl next⟩

/-- Time does not run backwards, ids are given out once, and the kernel's own
root table stays. -/
theorem perform_clock (hok : TableOk kernel) (operation : Operation) :
    kernel.ticks≤(perform kernel operation).ticks ∧
      kernel.nextId≤(perform kernel operation).nextId ∧
      (perform kernel operation).kernelPml4Frame=kernel.kernelPml4Frame := by
  have hperforms := performs hok operation
  generalize perform kernel operation=later at *
  cases hperforms with
  | spawns request =>
    refine ⟨?_,(spawnUserProcess_table kernel request).1,?_⟩
    all_goals rw [spawnUserProcess_keeps]
  | switches since hcall =>
    obtain ⟨hticks,hnext,hroot⟩ := schedule_clock {kernel with ticksSinceSwitch := since}
    exact ⟨hticks.ge,hnext.ge,hroot⟩
  | wakes since => exact ⟨Nat.le_succ _,le_rfl,rfl⟩
  | preempts =>
    obtain ⟨hticks,hnext,hroot⟩ := schedule_clock (woken kernel 0)
    rw [hticks,hnext,hroot]
    exact ⟨Nat.le_succ _,le_rfl,rfl⟩
  | reaps force =>
    rw [Kernel.reapTerminated]
    split <;> exact ⟨le_rfl,le_rfl,rfl⟩
  | _ => exact ⟨le_rfl,le_rfl,rfl⟩

/-- The table after boot. -/
theorem tableOk_boot (paging : Paging) (kernelPml4Frame : ℕ) :
    TableOk (boot paging kernelPml4Frame) := by
  have hdistinct : ((boot paging kernelPml4Frame).tasks.map Tcb.id).Nodup :=
    (by decide : [1,2,3].Nodup)
  refine ⟨hdistinct,?_,Nat.zero_lt_succ _,?_,⟨_,.head _,rfl,nofun⟩,?_⟩
  · intro tcb hmem
    have hid : tcb.id∈[1,2,3] := List.mem_map_of_mem hmem
    simp only [List.mem_cons,List.not_mem_nil,or_false] at hid
    change tcb.id<4
    omega
  · intro index tcb hget hrunning
    match index with
    | 0 => rfl
    | 1 => cases hget; cases hrunning
    | 2 => cases hget; cases hrunning
    | index+3 => cases hget
  · exact (by decide : 3 ≤ maxTasks)

/-- A whole run keeps the table in order. -/
theorem reaches_table {allowed : Kernel → Operation → Prop} {start : Kernel}
    (hok : TableOk start) (hrun : Reaches allowed start kernel) : TableOk kernel := by
  induction hrun with
  | refl => exact hok
  | tail _ hstep ih =>
    obtain ⟨operation,hlegal,-,rfl⟩ := hstep
    exact (perform_table ih hlegal).1

/-- Operations that are legal and allowed in every state are a run. -/
theorem reaches_foldl {allowed : Kernel → Operation → Prop} {operations : List Operation}
    (hall : ∀ operation∈operations,∀ kernel,Legal kernel operation ∧ allowed kernel operation)
    (start : Kernel) : Reaches allowed start (operations.foldl perform start) := by
  induction operations generalizing start with
  | nil => exact .refl
  | cons operation rest ih =>
    obtain ⟨hlegal,hallowed⟩ := hall operation (.head _) start
    exact .head ⟨operation,hlegal,hallowed,rfl⟩ (ih (fun other hmem => hall other (.tail _ hmem)) _)

/-- Over every run from boot in which no terminated task calls `sleep_ticks`,
the table is in order, and the next operation keeps terminated tasks
terminated, gives them no processor, removes only old enough ones other than
the current one, and leaves the current task in place unless it switches. -/
theorem table_over_runs {paging : Paging} {kernelPml4Frame : ℕ}
    (hrun : Reaches SleepsAlive (boot paging kernelPml4Frame) kernel) :
    TableOk kernel ∧ ∀ operation,Legal kernel operation → SleepsAlive kernel operation →
      Changes (Switches operation) (operation=.reap true) kernel (perform kernel operation) := by
  have hok := reaches_table (tableOk_boot paging kernelPml4Frame) hrun
  exact ⟨hok,fun operation hlegal halive => (perform_table hok hlegal).2 halive⟩

/-- The id and the state of every task. -/
def states (kernel : Kernel) : List (ℕ×TaskState) := kernel.tasks.map fun tcb => (tcb.id,tcb.state)

/-- The shell kills the heartbeat and reaps it. -/
theorem table_over_runs_reap :
    let kernel := perform (boot smallPaging 0) (.kill 3)
    states kernel=[(1,.running),(2,.ready),(3,.terminated)] ∧
      Changes False True kernel (perform kernel (.reap true)) ∧
      states (perform kernel (.reap true))=[(1,.running),(2,.ready)] := by
  have hrun : Reaches SleepsAlive (boot smallPaging 0) (perform (boot smallPaging 0) (.kill 3)) :=
    .single ⟨.kill 3,trivial,trivial,rfl⟩
  refine ⟨by decide +kernel,?_,by decide +kernel⟩
  exact ((table_over_runs hrun).2 (.reap true) trivial trivial).mono id fun _ => trivial

/-- The heartbeat is killed while it has the processor and calls
`sleep_ticks`: it is not terminated any more, and gets the processor again. -/
theorem killed_task_sleeps_and_runs :
    ∃ kernel,Reaches (fun _ _ => True) (boot smallPaging 0) kernel ∧
      states kernel=[(1,.ready),(2,.ready),(3,.terminated)] ∧
      states (perform kernel (.sleep 1))=[(1,.ready),(2,.ready),(3,.blocked)] ∧
      ∃ later,Reaches (fun _ _ => True) (perform kernel (.sleep 1)) later ∧
        states later=[(1,.ready),(2,.ready),(3,.running)] ∧ currentId later=some 3 := by
  refine ⟨[.switch,.switch,.kill 3].foldl perform (boot smallPaging 0),
    reaches_foldl (by simp [Legal]) _,by decide +kernel,by decide +kernel,
    [.switch,.tick,.switch,.switch].foldl perform (perform ([.switch,.switch,.kill 3].foldl perform
      (boot smallPaging 0)) (.sleep 1)),reaches_foldl (by simp [Legal]) _,
    by decide +kernel,by decide +kernel⟩

end TuwaiqOS.TaskTable
