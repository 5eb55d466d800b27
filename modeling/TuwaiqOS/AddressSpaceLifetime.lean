import TuwaiqOS.TaskTable

/-!
# The life of an address space

An address space is freed in four places: after a switch away from a task
that terminated, by `kill`, by reaping, and by a spawn that fails. Every call
of `free_address_space` is logged here with the root table that is loaded at
that moment. Over all runs of scheduler operations the loaded root is the one
of the current task, it is never freed, and each process loses its address
space once.
-/

namespace TuwaiqOS.AddressSpaceLifetime

open ResourceLedger FrameAllocator AddressSpaces ElfImage VmCalls Scheduler FrameLedger TaskTable
open BootInfoFrameAllocator (books)
open FrameConservation (boot smallPaging backs_smallPaging)

/-! ## Calls of `free_address_space` -/

/-- A call of `free_address_space`. -/
structure Release where
  /-- The process whose space it is, if it was started. -/
  owner : Option ℕ
  /-- The address space. -/
  space : AddressSpace
  /-- The root table that is loaded during the call. -/
  cr3 : ℕ

/-- The call for the address space of a task, if it has one. -/
def releaseOf (cr3 : ℕ) (tcb : Tcb) : List Release :=
  match tcb.space with
  | none => []
  | some space => [⟨some tcb.id,space,cr3⟩]

/-- The calls of `reap_terminated`. -/
def reapReleases (kernel : Kernel) (force : Bool) : List Release :=
  match kernel.tasks[kernel.current]? with
  | none => []
  | some running =>
    (kernel.tasks.filter (shouldReap running.id kernel.ticks force)).flatMap (releaseOf kernel.cr3)

/-- The calls of `schedule`: those of its `reap_terminated`, and the one for
the outgoing task after the new root table is loaded. -/
def scheduleReleases (kernel : Kernel) : List Release :=
  reapReleases kernel false++
    match kernel.prepareSwitch.1 with
    | some ⟨newCr3,some space⟩ => [⟨currentId kernel,space,newCr3⟩]
    | _ => []

/-- The calls of `kill`. -/
def killReleases (kernel : Kernel) (id : ℕ) : List Release :=
  match kernel.kill id with
  | .ok (some space,_) => [⟨some id,space,kernel.cr3⟩]
  | _ => []

/-- The calls in the next section of a spawn. -/
def stageReleases (cr3 : ℕ) : SpawnStage → List Release
  | .discarding space _ => [⟨none,space,cr3⟩]
  | _ => []

/-- The calls in the rest of a spawn. -/
def spawnReleases : ℕ → SpawnStage×Kernel → List Release
  | 0,_ => []
  | fuel+1,state =>
    stageReleases state.2.cr3 state.1++spawnReleases fuel (spawnStep state.2 state.1)

/-- The calls of an operation. -/
def releases (kernel : Kernel) : Operation → List Release
  | .spawn request =>
    spawnReleases (SpawnStage.counting request).fuel (.counting request,kernel)
  | .tick =>
    if timeSliceTicks≤kernel.ticksSinceSwitch+1 then scheduleReleases (woken kernel 0) else []
  | .switch => scheduleReleases kernel
  | .yield => scheduleReleases {kernel with ticksSinceSwitch := 0}
  | .kill id => killReleases kernel id
  | .reap force => reapReleases kernel force
  | _ => []

/-- The allocator after some calls. -/
def releaseAll (log : List Release) (allocator : BootInfoFrameAllocator) :
    BootInfoFrameAllocator :=
  log.foldl (fun allocator release => freeAddressSpace release.space allocator) allocator

theorem releaseAll_append (first second : List Release) (allocator : BootInfoFrameAllocator) :
    releaseAll (first++second) allocator=releaseAll second (releaseAll first allocator) :=
  List.foldl_append

theorem releaseAll_releaseOf (cr3 : ℕ) (tcb : Tcb) (allocator : BootInfoFrameAllocator) :
    releaseAll (releaseOf cr3 tcb) allocator=freeSpaceOf allocator tcb := by
  rw [releaseOf,freeSpaceOf]
  cases tcb.space <;> rfl

variable {kernel later : Kernel} {tcb next : Tcb} {index : ℕ} {reserved : Multiset ℕ}
  {operation : Operation} {space : AddressSpace} {stage : SpawnStage} {history : History}

/-- The calls of a switch to another task. -/
theorem scheduleReleases_switched {root : ℕ} (hget : kernel.tasks[kernel.current]? = some tcb)
    (hplan : kernel.prepareSwitch=
      (some ⟨root,if tcb.state=.terminated then tcb.space else none⟩,later)) :
    scheduleReleases kernel=reapReleases kernel false++
      if tcb.state=.terminated then releaseOf root tcb else [] := by
  rw [scheduleReleases,hplan,releaseOf,currentId_of_get hget]
  split_ifs
  · cases tcb.space <;> rfl
  · rfl

/-- The call for a task that `kill` removes. -/
theorem killReleases_evicted {id : ℕ} (hkill : kernel.kill id=.ok (tcb.space,later))
    (hid : tcb.id=id) : killReleases kernel id=releaseOf kernel.cr3 tcb := by
  rw [killReleases,hkill,releaseOf,hid]
  cases tcb.space <;> rfl

/-! ## Each process keeps or loses its address space -/

/-- The address space of a task, if the task has this id. -/
def spaceFor (id : ℕ) (tcb : Tcb) : Multiset AddressSpace :=
  if tcb.id=id then (tcb.space.toList : Multiset AddressSpace) else 0

/-- The address spaces of a process that were freed. -/
def releasedFor (id : ℕ) (log : List Release) : List AddressSpace :=
  log.filterMap fun release => if release.owner=some id then some release.space else none

theorem releasedFor_append (id : ℕ) (first second : List Release) :
    releasedFor id (first++second)=releasedFor id first++releasedFor id second :=
  List.filterMap_append

theorem space_congr (hprocess : next.process=tcb.process) : next.space=tcb.space := by
  rw [Tcb.space,Tcb.space,hprocess]

theorem spaceFor_congr (id : ℕ) (hid : next.id=tcb.id) (hspace : next.space=tcb.space) :
    spaceFor id next=spaceFor id tcb := by
  rw [spaceFor,spaceFor,hid,hspace]

theorem space_withoutSpace (tcb : Tcb) : tcb.withoutSpace.space=none := by
  rw [Tcb.space,Tcb.withoutSpace]
  cases tcb.process <;> rfl

/-- The call for a task frees what the task has. -/
theorem releasedFor_releaseOf (id cr3 : ℕ) (tcb : Tcb) :
    (releasedFor id (releaseOf cr3 tcb) : Multiset AddressSpace)=spaceFor id tcb := by
  rw [releaseOf,spaceFor]
  by_cases hid : tcb.id=id
  · rw [if_pos hid]
    cases tcb.space with
    | none => rfl
    | some space =>
      refine congrArg Multiset.ofList ?_
      exact List.filterMap_cons_some (if_pos (congrArg some hid))
  · rw [if_neg hid]
    cases tcb.space with
    | none => rfl
    | some space =>
      refine congrArg Multiset.ofList ?_
      exact List.filterMap_cons_none (if_neg fun hsome => hid (Option.some.inj hsome))

/-- A log accounts for a change of the table and the allocator: its calls are
all that changes the allocator, and every process keeps its address space or
has it in the log. -/
structure Logged (tasks : List Tcb) (allocator : BootInfoFrameAllocator) (log : List Release)
    (later : List Tcb) (left : BootInfoFrameAllocator) : Prop where
  /-- The calls change the allocator. -/
  allocator : releaseAll log allocator=left
  /-- Address spaces are kept or freed. -/
  conserved : ∀ id,(releasedFor id log : Multiset AddressSpace)+total (spaceFor id) later=
    total (spaceFor id) tasks

section

variable {tasks middle others : List Tcb} {allocator left last : BootInfoFrameAllocator}
  {log more : List Release}

theorem Logged.refl (tasks : List Tcb) (allocator : BootInfoFrameAllocator) :
    Logged tasks allocator [] tasks allocator :=
  ⟨rfl,fun _ => zero_add _⟩

theorem Logged.trans (hfirst : Logged tasks allocator log middle left)
    (hsecond : Logged middle left more others last) :
    Logged tasks allocator (log++more) others last := by
  refine ⟨?_,fun id => ?_⟩
  · rw [releaseAll_append,hfirst.allocator,hsecond.allocator]
  · rw [releasedFor_append,← Multiset.coe_add,add_assoc,hsecond.conserved,hfirst.conserved]

/-- Then a task is replaced that keeps its address space. -/
theorem Logged.set (hlogged : Logged tasks allocator log middle left)
    (hget : middle[index]? = some tcb) (hid : next.id=tcb.id) (hspace : next.space=tcb.space) :
    Logged tasks allocator log (middle.set index next) left :=
  ⟨hlogged.allocator,fun id => by
    rw [total_set hget (spaceFor_congr id hid hspace),hlogged.conserved]⟩

/-- A task loses its address space to the call for it. -/
theorem logged_evict (hget : tasks[index]? = some tcb) (hnone : next.space=none) (cr3 : ℕ) :
    Logged tasks allocator (releaseOf cr3 tcb) (tasks.set index next)
      (freeSpaceOf allocator tcb) := by
  refine ⟨releaseAll_releaseOf cr3 tcb allocator,fun id => ?_⟩
  obtain ⟨rest,hall,hset⟩ := total_split (spaceFor id) hget
  have hgone : spaceFor id next=0 := by
    rw [spaceFor,hnone]
    split <;> rfl
  rw [releasedFor_releaseOf,hset,hall,hgone,zero_add]

theorem logged_filter (gone : Tcb → Bool) (cr3 : ℕ) (tasks : List Tcb)
    (allocator : BootInfoFrameAllocator) :
    Logged tasks allocator ((tasks.filter gone).flatMap (releaseOf cr3))
      (tasks.filter fun tcb => !gone tcb) (tasks.foldl (fun allocator tcb =>
        if gone tcb then freeSpaceOf allocator tcb else allocator) allocator) := by
  refine ⟨?_,fun id => ?_⟩
  · induction tasks generalizing allocator with
    | nil => rfl
    | cons first rest ih =>
      rw [List.foldl_cons,← ih]
      cases hgone : gone first with
      | false => rw [List.filter_cons_of_neg (by rw [hgone]; decide),if_neg (by decide)]
      | true =>
        rw [List.filter_cons_of_pos hgone,if_pos rfl,List.flatMap_cons,releaseAll_append,
          releaseAll_releaseOf]
  · have hfreed : ∀ tasks : List Tcb,(releasedFor id (tasks.flatMap (releaseOf cr3)) :
        Multiset AddressSpace)=total (spaceFor id) tasks := by
      intro tasks
      induction tasks with
      | nil => rfl
      | cons tcb rest ih =>
        rw [List.flatMap_cons,releasedFor_append,← Multiset.coe_add,ih,releasedFor_releaseOf,
          total_cons]
    rw [hfreed]
    exact total_filter _

end

/-- The log of an operation accounts for what it does. -/
def Accounted (kernel : Kernel) (log : List Release) (later : Kernel) : Prop :=
  Logged kernel.tasks kernel.paging.allocator log later.tasks later.paging.allocator

/-- Reaping frees the address spaces of the tasks it removes. -/
theorem accounted_reapTerminated (kernel : Kernel) (force : Bool) :
    Accounted kernel (reapReleases kernel force) (kernel.reapTerminated force) := by
  rw [reapReleases,Kernel.reapTerminated]
  cases kernel.tasks[kernel.current]? with
  | none => exact .refl _ _
  | some running => exact logged_filter _ _ _ _

/-- A switch frees the address space that it takes from the outgoing task. -/
theorem accounted_schedule (hok : TableOk kernel) :
    Accounted kernel (scheduleReleases kernel) kernel.schedule := by
  obtain ⟨tcb,hget,hcurrent,-⟩ := hok.reaped
  rcases prepareSwitch_cases rfl hcurrent with ⟨-,hplan⟩|⟨-,hplan⟩|
    ⟨index,incoming,hother,-,hincoming,-,hplan⟩
  · rw [scheduleReleases,Kernel.schedule,hplan]
    exact (accounted_reapTerminated kernel false).trans (.refl _ _)
  · have halike := Tcb.Alike.resumed tcb
    rw [scheduleReleases,Kernel.schedule,hplan]
    refine (accounted_reapTerminated kernel false).trans ?_
    exact (Logged.refl _ _).set hcurrent halike.id (space_congr halike.process)
  · rw [scheduleReleases_switched hget hplan,Kernel.schedule,hplan]
    refine (accounted_reapTerminated kernel false).trans ?_
    refine Logged.set ?_ ((List.getElem?_set_ne (Ne.symm hother)).trans hincoming) rfl rfl
    by_cases hdead : tcb.state=.terminated
    · -- what the table loses is in the log
      simp only [if_pos hdead]
      exact logged_evict hcurrent (space_withoutSpace tcb) _
    · have halike := Tcb.Alike.preempted tcb
      simp only [if_neg hdead]
      exact (Logged.refl _ _).set hcurrent halike.id (space_congr halike.process)

/-- What a spawn frees was not given to a process. -/
theorem owner_spawnReleases {fuel : ℕ} {state : SpawnStage×Kernel} {release : Release}
    (hmem : release∈spawnReleases fuel state) : release.owner=none := by
  induction fuel generalizing state with
  | zero => cases hmem
  | succ fuel ih =>
    rw [spawnReleases] at hmem
    rcases List.mem_append.mp hmem with hnow|hlater
    · cases hstage : state.1 with
      | discarding space reason =>
        rw [hstage] at hnow
        rw [List.mem_singleton.mp hnow]
      | _ => rw [hstage] at hnow; cases hnow
    · exact ih hlater

theorem releasedFor_spawn (kernel : Kernel) (request : SpawnRequest) (id : ℕ) :
    releasedFor id (releases kernel (.spawn request))=[] := by
  refine List.filterMap_eq_nil_iff.mpr fun release hmem => ?_
  rw [owner_spawnReleases hmem]
  rfl

/-- The logged calls of every operation other than a spawn account for it. -/
theorem accounted_perform (hok : TableOk kernel) (hother : ∀ request,operation≠.spawn request) :
    Accounted kernel (releases kernel operation) (perform kernel operation) := by
  obtain ⟨tcb,hget⟩ := hok.get
  cases operation with
  | spawn request => exact absurd rfl (hother request)
  | activate id =>
    rw [perform]
    rcases activateTask_cases kernel id with hsame|⟨_,_,hold,-,-,hready⟩
    · rw [hsame]
      exact .refl _ _
    · rw [hready]
      exact (Logged.refl _ _).set hold rfl rfl
  | tick =>
    have hwoken : ∀ since,Accounted kernel [] (woken kernel since) := by
      refine fun since => ⟨rfl,fun id => (zero_add _).trans ?_⟩
      rw [total,total,woken,List.map_map]
      refine congrArg List.sum (List.map_congr_left fun tcb _ => ?_)
      have halike := Tcb.Alike.wake (kernel.ticks+1) tcb
      exact spaceFor_congr id halike.id (space_congr halike.process)
    rw [perform,releases,onTimerTick_eq]
    split
    · exact (hwoken 0).trans (accounted_schedule (hok.woken 0))
    · exact hwoken _
  | switch => exact accounted_schedule hok
  | yield =>
    have hsame : TableOk {kernel with ticksSinceSwitch := 0} := hok.congr rfl rfl rfl
    exact accounted_schedule hsame
  | sleep ticks =>
    rw [perform,sleepTicks,hget]
    exact (Logged.refl _ _).set hget rfl rfl
  | exit code =>
    rw [perform,Kernel.exitWithCode,hget]
    exact (Logged.refl _ _).set hget rfl (@Edits.exit kernel code tcb hget).keeps.2.1
  | kill id =>
    rw [perform,releases]
    rcases kill_cases kernel id with
      ⟨_,hkill⟩|⟨_,victim,hvictim,hid,-,⟨-,hkill⟩|⟨-,hkill⟩⟩
    · rw [killReleases,TaskTable.kill,hkill]
      exact .refl _ _
    · rw [killReleases,TaskTable.kill,hkill]
      exact (Logged.refl _ _).set hvictim rfl rfl
    · have hgone := space_withoutSpace (victim.killed kernel.ticks)
      have hevict := @logged_evict _ _ _ _ kernel.paging.allocator hvictim hgone kernel.cr3
      rw [killReleases_evicted hkill hid,TaskTable.kill,hkill]
      rw [freeSpaceOf] at hevict
      cases hspace : victim.space <;> rw [hspace] at hevict <;> exact hevict
  | wake id => exact .refl _ _
  | reap force => exact accounted_reapTerminated kernel force

/-- Through every operation a process keeps its address space or the
operation frees it, unless the operation starts this process. -/
theorem conserved_perform (hok : TableOk kernel) (operation : Operation) {id : ℕ}
    (hid : ∀ request,operation=.spawn request → id≠kernel.nextId) :
    (releasedFor id (releases kernel operation) : Multiset AddressSpace)+
      total (spaceFor id) (perform kernel operation).tasks=total (spaceFor id) kernel.tasks := by
  by_cases hspawn : ∃ request,operation=.spawn request
  · obtain ⟨request,rfl⟩ := hspawn
    rw [releasedFor_spawn]
    refine (zero_add _).trans ?_
    rw [perform]
    obtain ⟨-,hsame|⟨-,space,entry,-,hadded⟩⟩ := spawnUserProcess_table kernel request
    · rw [hsame]
    · have hnew : spaceFor id (newUserTcb request space entry kernel.nextId)=0 :=
        if_neg (hid request rfl).symm
      rw [hadded,total_append,total_cons,hnew,total_nil,add_zero,add_zero]
  · exact (accounted_perform hok fun request hsame => hspawn ⟨request,hsame⟩).conserved id

/-! ## The loaded root table -/

/-- The root table of the current task is loaded. -/
def Loaded (kernel : Kernel) : Prop :=
  kernel.cr3=((kernel.tasks[kernel.current]?.bind Tcb.space).map AddressSpace.pml4Frame).getD
    kernel.kernelPml4Frame

theorem loaded_iff (hget : kernel.tasks[kernel.current]? = some tcb) :
    Loaded kernel ↔ kernel.cr3=kernel.rootOf tcb := by
  rw [Loaded,hget]
  rfl

/-- The current task changes, but not its address space. -/
theorem Loaded.keep (hloaded : Loaded kernel) (hget : kernel.tasks[kernel.current]? = some tcb)
    (hnow : later.tasks[later.current]? = some next) (hspace : next.space=tcb.space)
    (hcr3 : later.cr3=kernel.cr3) (hroot : later.kernelPml4Frame=kernel.kernelPml4Frame) :
    Loaded later := by
  rw [loaded_iff hget] at hloaded
  rw [loaded_iff hnow,hcr3,hloaded,Kernel.rootOf,Kernel.rootOf,hspace,hroot]

/-- Reaping changes the table and the allocator only. -/
theorem reapTerminated_fields (kernel : Kernel) (force : Bool) :
    (kernel.reapTerminated force).cr3=kernel.cr3 ∧
      (kernel.reapTerminated force).kernelPml4Frame=kernel.kernelPml4Frame := by
  rw [Kernel.reapTerminated]
  split <;> exact ⟨rfl,rfl⟩

theorem loaded_schedule (hok : TableOk kernel) (hloaded : Loaded kernel) :
    Loaded kernel.schedule := by
  obtain ⟨tcb,hget,hcurrent,-⟩ := hok.reaped
  obtain ⟨hcr3,hroot⟩ := reapTerminated_fields kernel false
  have hreaped : Loaded (kernel.reapTerminated false) := hloaded.keep hget hcurrent rfl hcr3 hroot
  rw [Kernel.schedule]
  rcases prepareSwitch_cases rfl hcurrent with ⟨-,hplan⟩|⟨-,hplan⟩|
    ⟨index,incoming,hother,-,hincoming,-,hplan⟩
  · rw [hplan]
    exact hreaped
  · have hspace := space_congr (Tcb.Alike.resumed tcb).process
    rw [hplan]
    exact hreaped.keep hcurrent (getElem?_set_of_get hcurrent) hspace rfl rfl
  · rw [hplan]
    exact (@loaded_iff _ {incoming with state := .running} (getElem?_set_of_get
      ((List.getElem?_set_ne (Ne.symm hother)).trans hincoming))).mpr rfl

/-- One task is replaced; if it is the current one it keeps its address
space. -/
theorem Loaded.set (hloaded : Loaded kernel) (hget : kernel.tasks[index]? = some tcb)
    (hspace : index=kernel.current → next.space=tcb.space) :
    Loaded (kernel.setTask index next) := by
  rw [Loaded] at hloaded ⊢
  rw [Kernel.setTask]
  dsimp only
  rw [hloaded]
  by_cases hcurrent : index=kernel.current
  · subst hcurrent
    rw [getElem?_set_of_get hget,hget,Option.bind_some,Option.bind_some,hspace rfl]
  · rw [List.getElem?_set_ne hcurrent]

/-- After every operation the root table of the current task is loaded. -/
theorem loaded_perform (hok : TableOk kernel) (hloaded : Loaded kernel) (operation : Operation) :
    Loaded (perform kernel operation) := by
  obtain ⟨tcb,hget⟩ := hok.get
  have hwoken : ∀ since,Loaded (woken kernel since) := fun since =>
    hloaded.keep hget (List.getElem?_map.trans (congrArg _ hget))
      (space_congr (Tcb.Alike.wake _ tcb).process) rfl rfl
  have hperforms := performs hok operation
  generalize perform kernel operation=later at *
  cases hperforms with
  | spawns request =>
    rw [spawnUserProcess_keeps]
    refine hloaded.keep hget ?_ rfl rfl rfl
    dsimp only
    obtain ⟨-,hsame|⟨-,space,entry,-,hadded⟩⟩ := spawnUserProcess_table kernel request
    · rw [hsame]
      exact hget
    · rw [hadded]
      exact (List.getElem?_append_left hok.current).trans hget
  | stays _ wake since => exact hloaded
  | edits htask hedits => exact hloaded.set htask fun _ => hedits.keeps.2.1
  | evicts hvictim hshell hother =>
    -- the victim is not the current task
    refine hloaded.set hvictim fun hcurrent => absurd ?_ hother
    rw [hcurrent] at hvictim
    exact currentId_of_get hvictim
  | switches since hcall =>
    have hsame : TableOk {kernel with ticksSinceSwitch := since} := hok.congr rfl rfl rfl
    exact loaded_schedule hsame hloaded
  | wakes since => exact hwoken since
  | preempts => exact loaded_schedule (hok.woken 0) (hwoken 0)
  | reaps force =>
    obtain ⟨hcr3,hroot⟩ := reapTerminated_fields kernel force
    exact hloaded.keep hget (reapTerminated_eq hok force hget).2 rfl hcr3 hroot

/-! ## Frames of different processes -/

/-- What keeps root tables apart: the frames are accounted for, every address
space owns its root, and the kernel's own root is not in a usable region. -/
structure Placed (reserved : Multiset ℕ) (kernel : Kernel) : Prop where
  /-- Frames have one owner. -/
  sound : Sound reserved kernel
  /-- No task is inside a call that has frames in its local variables. -/
  calm : ∀ tcb∈kernel.tasks,tcb.job.Calm
  /-- Address spaces own their root. -/
  rooted : ∀ tcb∈kernel.tasks,∀ space,tcb.space=some space → Rooted space
  /-- The kernel's root table is outside the usable regions. -/
  outside : ∀ region∈kernel.paging.allocator.memoryRegions,region.kind=.usable →
    kernel.kernelPml4Frame < region.start ∨ region.finish≤kernel.kernelPml4Frame

/-- A task holds the frames of its address space. -/
theorem mem_held_of_space {frame : ℕ} (hspace : tcb.space=some space)
    (hmem : frame∈space.ownedFrames) : frame∈tcb.held := by
  rw [Tcb.held,Tcb.ownedFrames]
  refine Multiset.mem_add.mpr (.inl ?_)
  obtain ⟨process,hprocess,hsome⟩ := Option.bind_eq_some_iff.mp hspace
  rw [hprocess]
  dsimp only
  rw [ProcessState.ownedFrames_some hsome]
  exact hmem

/-- Frames that are held are not the kernel's root table. -/
theorem outside_of_held {held : Multiset ℕ} {allocator : BootInfoFrameAllocator} {root frame : ℕ}
    (houtside : ∀ region∈allocator.memoryRegions,region.kind=.usable →
      root < region.start ∨ region.finish ≤ root)
    (hbacks : Backs books allocator held) (hmem : frame∈held) : frame≠root := by
  have hissued : frame∈allocator.bumped := by
    have hall : frame∈(allocator.bumped : Multiset ℕ) := by
      change frame∈books.issued allocator
      rw [hbacks.balanced]
      exact Multiset.mem_add.mpr (.inr hmem)
    exact hall
  obtain ⟨region,hregion,husable,hstart,hfinish⟩ := BootInfoFrameAllocator.mem_bumped hissued
  rcases houtside region hregion husable with hbelow|habove <;> omega

/-- The root of a task is not the root of another one. -/
theorem Placed.apart {place : ℕ} {other : Tcb} (hplaced : Placed reserved kernel)
    (hget : kernel.tasks[index]? = some tcb) (hspace : tcb.space=some space)
    (hother : kernel.tasks[place]? = some other) (hplace : place≠index) :
    space.pml4Frame≠kernel.rootOf other := by
  have hmem := List.mem_of_getElem? hget
  have hheld := mem_held_of_space hspace (hplaced.rooted tcb hmem space hspace)
  rw [Kernel.rootOf]
  cases hroot : other.space with
  | none =>
    refine outside_of_held hplaced.outside hplaced.sound.backs ?_
    exact Multiset.mem_add.mpr (.inr (mem_total.mpr ⟨tcb,hmem,hheld⟩))
  | some second =>
    intro hsame
    refine hplaced.sound.backs.holders_apart hget hother hplace hheld ?_
    refine mem_held_of_space hroot ?_
    rw [hsame]
    exact hplaced.rooted other (List.mem_of_getElem? hother) second hroot

/-! ## No loaded root table is freed -/

/-- A call of `free_address_space` on a space that is not loaded. -/
def Release.Safe (release : Release) : Prop := release.space.pml4Frame≠release.cr3

theorem memoryRegions_releaseAll (log : List Release) (allocator : BootInfoFrameAllocator) :
    (releaseAll log allocator).memoryRegions=allocator.memoryRegions := by
  induction log generalizing allocator with
  | nil => rfl
  | cons release rest ih =>
    refine (ih _).trans ?_
    exact BootInfoFrameAllocator.memoryRegions_deallocateFrames allocator release.space.ownedFrames

section

variable (hplaced : Placed reserved kernel)
include hplaced

theorem Placed.reapTerminated (hok : TableOk kernel)
    (force : Bool) : Placed reserved (kernel.reapTerminated force) := by
  obtain ⟨tcb,hget⟩ := hok.get
  have hsub : ∀ task∈(kernel.reapTerminated force).tasks,task∈kernel.tasks := by
    rw [(reapTerminated_eq hok force hget).1]
    exact fun task htask => (List.mem_filter.mp htask).1
  refine ⟨(sound_reapTerminated hplaced.sound hget force).1,fun task htask =>
    hplaced.calm task (hsub task htask),fun task htask => hplaced.rooted task (hsub task htask),?_⟩
  rw [← (accounted_reapTerminated kernel force).allocator,memoryRegions_releaseAll,
    (reapTerminated_fields kernel force).2]
  exact hplaced.outside

/-- The call for a task that is not current is safe. -/
theorem Placed.safe {place : ℕ} {other : Tcb} {release : Release} (hget : kernel.tasks[index]? = some tcb)
    (hother : kernel.tasks[place]? = some other) (hplace : place≠index)
    (hmem : release∈releaseOf (kernel.rootOf other) tcb) : release.Safe := by
  rw [releaseOf] at hmem
  split at hmem
  · cases hmem
  · rename_i space hspace
    rw [List.mem_singleton.mp hmem]
    exact hplaced.apart hget hspace hother hplace

theorem safe_reapReleases (hok : TableOk kernel) (hloaded : Loaded kernel) (force : Bool) :
    ∀ release∈reapReleases kernel force,release.Safe := by
  obtain ⟨tcb,hget⟩ := hok.get
  rw [loaded_iff hget] at hloaded
  rw [reapReleases,hget,hloaded]
  intro release hmem
  obtain ⟨task,hreaped,hrelease⟩ := List.mem_flatMap.mp hmem
  obtain ⟨htask,hgone⟩ := List.mem_filter.mp hreaped
  obtain ⟨index,hindex⟩ := List.mem_iff_getElem?.mp htask
  refine hplaced.safe hindex hget ?_ hrelease
  rintro rfl
  rw [hget] at hindex
  cases hindex
  exact (of_decide_eq_true hgone).1 rfl

theorem safe_scheduleReleases (hok : TableOk kernel)
    (hloaded : Loaded kernel) : ∀ release∈scheduleReleases kernel,release.Safe := by
  obtain ⟨tcb,hget,hcurrent,-⟩ := hok.reaped
  have hreaped := hplaced.reapTerminated hok false
  have hearly := safe_reapReleases hplaced hok hloaded false
  rcases prepareSwitch_cases rfl hcurrent with ⟨-,hplan⟩|⟨-,hplan⟩|
    ⟨index,incoming,hother,-,hincoming,-,hplan⟩
  · rw [scheduleReleases,hplan,List.append_nil]
    exact hearly
  · rw [scheduleReleases,hplan,List.append_nil]
    exact hearly
  · -- the root of the incoming task is loaded before the call
    rw [scheduleReleases_switched hget hplan]
    refine List.forall_mem_append.mpr ⟨hearly,fun release hlate => ?_⟩
    split at hlate
    · exact hreaped.safe hcurrent hincoming hother hlate
    · cases hlate

theorem safe_killReleases (hok : TableOk kernel)
    (hloaded : Loaded kernel) (id : ℕ) : ∀ release∈killReleases kernel id,release.Safe := by
  obtain ⟨running,hrunning⟩ := hok.get
  rw [loaded_iff hrunning] at hloaded
  intro release hmem
  rcases kill_cases kernel id with ⟨_,hkill⟩|⟨index,tcb,hget,hfound,-,⟨-,hkill⟩|⟨hother,hkill⟩⟩
  · rw [killReleases,hkill] at hmem
    cases hmem
  · rw [killReleases,hkill] at hmem
    cases hmem
  rw [killReleases_evicted hkill hfound,hloaded] at hmem
  refine hplaced.safe hget hrunning ?_ hmem
  rintro rfl
  rw [hrunning] at hget
  cases hget
  exact hother ((currentId_of_get hrunning).trans (congrArg some hfound))

end

/-! ## Spawning -/

/-- The address space in the local variables of a spawn. -/
def stageSpace : SpawnStage → Option AddressSpace
  | .building _ space _ _ => some space
  | .numbering _ space _ => some space
  | .inserting _ space _ _ => some space
  | .discarding space _ => some space
  | _ => none

/-- The address space that a spawn builds owns its root. -/
def StageRooted (stage : SpawnStage) : Prop := ∀ space,stageSpace stage=some space → Rooted space

theorem stageRooted_of_none (hnone : stageSpace stage=none) : StageRooted stage := by
  intro space hspace
  rw [hnone] at hspace
  cases hspace

/-- A new space owns its root. -/
theorem rooted_newAddressSpace {allocator later : BootInfoFrameAllocator} {space : AddressSpace}
    (hnew : newAddressSpace allocator=.ok (space,later)) :
    Rooted space ∧ later.memoryRegions=allocator.memoryRegions := by
  rw [newAddressSpace] at hnew
  split at hnew
  · cases hnew
  · rename_i frame rest halloc
    cases hnew
    exact ⟨List.mem_singleton_self frame,BootInfoFrameAllocator.memoryRegions_allocateFrame halloc⟩

/-- A section of a spawn keeps the root and the memory map. -/
theorem rooted_spawnStep (kernel : Kernel) (hrooted : StageRooted stage) :
    StageRooted (spawnStep kernel stage).1 ∧
      (spawnStep kernel stage).2.paging.allocator.memoryRegions=
        kernel.paging.allocator.memoryRegions := by
  obtain ⟨next,hnext,hspawns⟩ := exists_spawns kernel stage
  rw [hnext]
  have hkeep : ∀ {space later},Rooted space → stageSpace later=some space → StageRooted later := by
    intro space later hroot hspace found hfound
    cases hspace.symm.trans hfound
    exact hroot
  cases hspawns with
  | rejected request space allocator reason hnew =>
    obtain ⟨hroot,hregions⟩ := rooted_newAddressSpace hnew
    exact ⟨hkeep hroot rfl,hregions⟩
  | planned request space allocator entry ops hnew =>
    obtain ⟨hroot,hregions⟩ := rooted_newAddressSpace hnew
    exact ⟨hkeep hroot rfl,hregions⟩
  | faulted request space entry op rest reason =>
    obtain ⟨-,hroot,hregions⟩ := perform_keeps op space kernel.paging
    exact ⟨hkeep (hroot (hrooted space rfl)) rfl,hregions⟩
  | performed request space entry op rest =>
    obtain ⟨-,hroot,hregions⟩ := perform_keeps op space kernel.paging
    exact ⟨hkeep (hroot (hrooted space rfl)) rfl,hregions⟩
  | discarded space reason =>
    exact ⟨stageRooted_of_none rfl,BootInfoFrameAllocator.memoryRegions_deallocateFrames _ space.ownedFrames⟩
  | built | numbered | unboxed | late => exact ⟨fun found hfound => hrooted found hfound,rfl⟩
  | _ => exact ⟨stageRooted_of_none rfl,rfl⟩

section

variable (hplaced : Placed (reserved+(stage.frames : Multiset ℕ)) kernel)
include hplaced

/-- A section of a spawn keeps root tables apart. -/
theorem placed_spawnStep (hfresh : Fresh kernel stage) (hrooted : StageRooted stage) :
    Placed (reserved+((spawnStep kernel stage).1.frames : Multiset ℕ)) (spawnStep kernel stage).2 ∧
      Fresh (spawnStep kernel stage).2 (spawnStep kernel stage).1 := by
  obtain ⟨hsound,hnext⟩ := sound_spawnStep hplaced.sound hfresh
  have hroot : (spawnStep kernel stage).2.kernelPml4Frame=kernel.kernelPml4Frame := by
    rw [spawnStep_keeps]
  have houtside := hplaced.outside
  rw [← (rooted_spawnStep kernel hrooted).2,← hroot] at houtside
  obtain ⟨next,hstep,hspawns⟩ := exists_spawns kernel stage
  rw [hstep] at hsound hnext houtside ⊢
  refine ⟨⟨hsound,?_,?_,houtside⟩,hnext⟩
  · cases hspawns with
    | inserted => exact List.forall_mem_append.mpr ⟨hplaced.calm,by simp [newUserTcb,Job.Calm]⟩
    | _ => exact hplaced.calm
  · cases hspawns with
    | inserted request space entry id =>
      refine List.forall_mem_append.mpr ⟨hplaced.rooted,List.forall_mem_singleton.mpr ?_⟩
      exact fun found hfound => hrooted found hfound
    | _ => exact hplaced.rooted

/-- The space that a spawn discards is not loaded. -/
theorem safe_stageReleases
    (hget : kernel.tasks[kernel.current]? = some tcb) (hloaded : Loaded kernel)
    (hrooted : StageRooted stage) : ∀ release∈stageReleases kernel.cr3 stage,release.Safe := by
  intro release hmem
  cases stage with
  | discarding space reason =>
    rw [List.mem_singleton.mp hmem,Release.Safe,(loaded_iff hget).mp hloaded,Kernel.rootOf]
    have hheld : space.pml4Frame∈(space.ownedFrames : Multiset ℕ) := hrooted space rfl
    have hbacks := hplaced.sound.backs
    change Backs books _ (reserved+(space.ownedFrames : Multiset ℕ)+total Tcb.held kernel.tasks)
      at hbacks
    rw [add_assoc,add_comm] at hbacks
    cases hroot : tcb.space with
    | none =>
      refine outside_of_held hplaced.outside hbacks ?_
      exact Multiset.mem_add.mpr (.inl (Multiset.mem_add.mpr (.inl hheld)))
    | some second =>
      intro hsame
      have hcurrent := List.mem_of_getElem? hget
      refine hbacks.apart hheld (mem_total.mpr ⟨tcb,hcurrent,mem_held_of_space hroot ?_⟩)
      rw [hsame]
      exact hplaced.rooted tcb hcurrent second hroot
  | _ => cases hmem

end

theorem safe_spawnReleases {fuel : ℕ} {state : SpawnStage×Kernel}
    (hplaced : Placed (reserved+(state.1.frames : Multiset ℕ)) state.2)
    (hfresh : Fresh state.2 state.1) (hget : state.2.tasks[state.2.current]? = some tcb)
    (hloaded : Loaded state.2) (hrooted : StageRooted state.1) :
    (∀ release∈spawnReleases fuel state,release.Safe) ∧
      Placed (reserved+((spawnRun fuel state).1.frames : Multiset ℕ)) (spawnRun fuel state).2 := by
  induction fuel generalizing state with
  | zero => exact ⟨nofun,hplaced⟩
  | succ fuel ih =>
    obtain ⟨hstep,hnext⟩ := placed_spawnStep hplaced hfresh hrooted
    obtain ⟨hcurrent,added,hadded⟩ := spawnStep_table state.2 state.1
    have hnow : (spawnStep state.2 state.1).2.tasks[(spawnStep state.2 state.1).2.current]? =
        some tcb := by
      rw [hcurrent,hadded]
      exact (List.getElem?_append_left (List.getElem?_eq_some_iff.mp hget).1).trans hget
    have hcr3 : (spawnStep state.2 state.1).2.cr3=state.2.cr3 := by rw [spawnStep_keeps]
    have hroot : (spawnStep state.2 state.1).2.kernelPml4Frame=state.2.kernelPml4Frame := by
      rw [spawnStep_keeps]
    obtain ⟨hsafe,hdone⟩ := ih hstep hnext hnow (hloaded.keep hget hnow rfl hcr3 hroot)
      (rooted_spawnStep state.2 hrooted).1
    refine ⟨fun release hmem => ?_,hdone⟩
    rcases List.mem_append.mp hmem with hearly|hlate
    · exact safe_stageReleases hplaced hget hloaded hrooted release hearly
    · exact hsafe release hlate

/-! ## Every operation -/

theorem held_of_calm (hcalm : tcb.job.Calm) : tcb.held=tcb.ownedFrames := by
  have hframes : tcb.job.frames=[] := by
    cases hjob : tcb.job with
    | idle _ => rfl
    | halted => rfl
    | yielding => rfl
    | _ => rw [hjob] at hcalm; exact hcalm.elim
  rw [Tcb.held,hframes]
  split <;> exact add_zero _

/-- One task changes between calls without local variables. -/
theorem sound_calm (hsound : Sound reserved kernel) (hget : kernel.tasks[index]? = some tcb)
    (hid : next.id=tcb.id) (hcalm : tcb.job.Calm) (hstill : next.job.Calm)
    (hmove : Moves books kernel.paging.allocator tcb.ownedFrames later.paging.allocator
      next.ownedFrames)
    (htasks : later.tasks=kernel.tasks.set index next) (hnext : later.nextId=kernel.nextId) :
    Sound reserved later := by
  refine hsound.set hget hid ?_ ⟨?_,?_⟩ ?_ htasks hnext
  · rw [held_of_calm hcalm,held_of_calm hstill]
    exact hmove.frame_left reserved
  · intro _ call stage hjob
    rw [hjob] at hstill
    exact hstill.elim
  · intro hshell
    cases hjob : next.job with
    | spawning stage => rw [hjob] at hstill; exact hstill.elim
    | reclaiming space => rw [hjob] at hstill; exact hstill.elim
    | _ => rw [hjob] at hshell; exact hshell.elim
  · intro id htaken
    cases hjob : next.job with
    | spawning stage => rw [hjob] at hstill; exact hstill.elim
    | _ => rw [hjob] at htaken; cases htaken

theorem sound_perform (hplaced : Placed reserved kernel) (hok : TableOk kernel)
    (operation : Operation) : Sound reserved (perform kernel operation) := by
  obtain ⟨tcb,hget⟩ := hok.get
  have hsound := hplaced.sound
  have hwoken : ∀ since,Sound reserved (woken kernel since) := fun since =>
    hsound.map (fun tcb => Tcb.Alike.wake (kernel.ticks+1) tcb) rfl rfl rfl
  have hcalm : ∀ {index : ℕ} {tcb : Tcb},kernel.tasks[index]? = some tcb → tcb.job.Calm :=
    fun hget => hplaced.calm _ (List.mem_of_getElem? hget)
  have hperforms := performs hok operation
  generalize perform kernel operation=later at *
  cases hperforms with
  | spawns request => exact (sound_spawnUserProcess hsound request).1
  | stays _ wake since => exact hsound.congr rfl rfl rfl
  | edits htask hedits =>
    obtain ⟨hid,-,howned,-⟩ := hedits.keeps
    have hstill := hedits.continues.job (hcalm htask)
    refine sound_calm hsound htask hid (hcalm htask) hstill ?_ rfl rfl
    rw [howned]
    exact Moves.refl _ _ _
  | @evicts index victim hvictim hshell hother =>
    have hid : (victim.killed kernel.ticks).withoutSpace.id=victim.id := rfl
    have hstill := hcalm hvictim
    refine sound_calm hsound hvictim hid hstill hstill ?_ rfl rfl
    rw [Tcb.ownedFrames_withoutSpace]
    exact moves_freeSpaceOf kernel.paging.allocator victim
  | switches since hcall =>
    have hsame : Sound reserved {kernel with ticksSinceSwitch := since} := hsound.congr rfl rfl rfl
    exact sound_switch hsame hget
  | wakes since => exact hwoken since
  | preempts =>
    obtain ⟨first,hfirst⟩ := (hok.woken 0).get
    exact sound_switch (hwoken 0) hfirst
  | reaps force => exact (sound_reapTerminated hsound hget force).1

/-- A task of the new table has the address space of an old one. -/
theorem space_perform (hok : TableOk kernel) (operation : Operation)
    (hmem : next∈(perform kernel operation).tasks) (hid : next.id<kernel.nextId)
    (hspace : next.space=some space) : ∃ tcb∈kernel.tasks,tcb.space=some space := by
  have hnow : space∈total (spaceFor next.id) (perform kernel operation).tasks := by
    refine mem_total.mpr ⟨next,hmem,?_⟩
    rw [spaceFor,if_pos rfl,hspace]
    exact List.mem_singleton_self space
  have hbefore : space∈total (spaceFor next.id) kernel.tasks := by
    rw [← conserved_perform hok operation fun _ _ => hid.ne]
    exact Multiset.mem_add.mpr (.inr hnow)
  obtain ⟨tcb,htcb,hheld⟩ := mem_total.mp hbefore
  rw [spaceFor] at hheld
  split at hheld
  · exact ⟨tcb,htcb,Option.mem_toList.mp hheld⟩
  · exact absurd hheld (Multiset.notMem_zero space)

/-- Every operation keeps root tables apart and frees only spaces that are
not loaded. -/
theorem placed_perform (hplaced : Placed reserved kernel) (hok : TableOk kernel)
    (hloaded : Loaded kernel) (operation : Operation) : Placed reserved (perform kernel operation) ∧
      ∀ release∈releases kernel operation,release.Safe := by
  obtain ⟨tcb,hget⟩ := hok.get
  by_cases hspawn : ∃ request,operation=.spawn request
  · obtain ⟨request,rfl⟩ := hspawn
    have hstart : Placed (reserved+((SpawnStage.counting request).frames : Multiset ℕ)) kernel := by
      have hnone : ((SpawnStage.counting request).frames : Multiset ℕ)=0 := rfl
      rw [hnone,add_zero]
      exact hplaced
    obtain ⟨hsafe,hdone⟩ := @safe_spawnReleases tcb reserved (SpawnStage.counting request).fuel
      (.counting request,kernel) hstart (fresh_of_none rfl) hget hloaded nofun
    obtain ⟨result,hresult⟩ := spawnUserProcess_finishes kernel request
    rw [Kernel.spawnUserProcess] at hresult
    rw [hresult] at hdone
    have hnone : ((SpawnStage.finished result).frames : Multiset ℕ)=0 := rfl
    rw [hnone,add_zero] at hdone
    exact ⟨hdone,hsafe⟩
  have hother : ∀ request,operation≠.spawn request := fun request hsame => hspawn ⟨request,hsame⟩
  have hold : ∀ next∈(perform kernel operation).tasks,∃ tcb∈kernel.tasks,Continues tcb next := by
    intro next hnext
    rcases perform_continues hok next hnext with hcontinues|⟨request,_,_,hsame,-⟩
    · exact hcontinues
    · exact absurd hsame (hother request)
  refine ⟨⟨sound_perform hplaced hok operation,?_,?_,?_⟩,?_⟩
  · intro next hnext
    obtain ⟨tcb,htcb,hcontinues⟩ := hold next hnext
    exact hcontinues.job (hplaced.calm tcb htcb)
  · intro next hnext space hspace
    obtain ⟨tcb,htcb,hcontinues⟩ := hold next hnext
    have hid : next.id<kernel.nextId := by
      rw [hcontinues.id]
      exact hok.below tcb htcb
    obtain ⟨owner,howner,hsame⟩ := space_perform hok operation hnext hid hspace
    exact hplaced.rooted owner howner space hsame
  · rw [← (accounted_perform hok hother).allocator,memoryRegions_releaseAll,
      (perform_clock hok operation).2.2]
    exact hplaced.outside
  · cases operation with
    | spawn request => exact absurd rfl (hother request)
    | tick =>
      have hwoken := hok.woken 0
      have hlater : Placed reserved (woken kernel 0) ∧ Loaded (woken kernel 0) := by
        have hspace : ∀ tcb : Tcb,(tcb.wake (kernel.ticks+1)).space=tcb.space :=
          fun tcb => space_congr (Tcb.Alike.wake _ tcb).process
        have hnow : (woken kernel 0).tasks[(woken kernel 0).current]? =
            some (tcb.wake (kernel.ticks+1)) := List.getElem?_map.trans (congrArg _ hget)
        refine ⟨⟨hplaced.sound.map (fun tcb => Tcb.Alike.wake _ tcb) rfl rfl rfl,?_,?_,
          hplaced.outside⟩,hloaded.keep hget hnow (hspace tcb) rfl rfl⟩
        · intro next hnext
          obtain ⟨old,hmem,rfl⟩ := List.mem_map.mp hnext
          rw [(Tcb.Alike.wake _ old).job]
          exact hplaced.calm old hmem
        · intro next hnext space hsome
          obtain ⟨old,hmem,rfl⟩ := List.mem_map.mp hnext
          exact hplaced.rooted old hmem space ((hspace old).symm.trans hsome)
      rw [releases]
      split
      · exact safe_scheduleReleases hlater.1 hwoken hlater.2
      · nofun
    | switch => exact safe_scheduleReleases hplaced hok hloaded
    | yield =>
      have hsame : TableOk {kernel with ticksSinceSwitch := 0} := hok.congr rfl rfl rfl
      have hstill : Placed reserved {kernel with ticksSinceSwitch := 0} :=
        ⟨hplaced.sound.congr rfl rfl rfl,hplaced.calm,hplaced.rooted,hplaced.outside⟩
      exact safe_scheduleReleases hstill hsame hloaded
    | kill id => exact safe_killReleases hplaced hok hloaded id
    | reap force => exact safe_reapReleases hplaced hok hloaded force
    | _ => nofun

/-! ## Runs -/

/-- The kernel with all calls of `free_address_space` so far and the address
space that every process was started with. -/
structure History where
  /-- The kernel. -/
  kernel : Kernel
  /-- Ids and address spaces of the processes that were started. -/
  started : List (ℕ×AddressSpace)
  /-- Calls of `free_address_space`. -/
  released : List Release

/-- The processes that an operation started. -/
def starts (kernel : Kernel) : Operation → List (ℕ×AddressSpace)
  | .spawn request => ((kernel.spawnUserProcess request).2.tasks.drop kernel.tasks.length).filterMap
    fun tcb => tcb.space.map (Prod.mk tcb.id)
  | _ => []

/-- The history after an operation. -/
def History.after (history : History) (operation : Operation) : History where
  kernel := perform history.kernel operation
  started := history.started++starts history.kernel operation
  released := history.released++releases history.kernel operation

/-- One legal operation. -/
def History.Step (history later : History) : Prop :=
  ∃ operation,Legal history.kernel operation ∧ later=history.after operation

/-- Any number of operations. -/
def History.Run : History → History → Prop := Relation.ReflTransGen History.Step

instance (kernel : Kernel) (operation : Operation) : Decidable (Legal kernel operation) :=
  match operation with
  | .spawn _ => inferInstanceAs (Decidable (_ ∨ _))
  | .exit _ => inferInstanceAs (Decidable (_≠_))
  | .activate _ => .isTrue trivial
  | .tick => .isTrue trivial
  | .switch => .isTrue trivial
  | .yield => .isTrue trivial
  | .sleep _ => .isTrue trivial
  | .kill _ => .isTrue trivial
  | .wake _ => .isTrue trivial
  | .reap _ => .isTrue trivial

/-- The history after a list of operations, if all of them are legal. -/
def History.follow (history : History) : List Operation → Option History
  | [] => some history
  | operation::rest =>
    if Legal history.kernel operation then (history.after operation).follow rest else none

theorem run_of_follow {operations : List Operation} {later : History}
    (hfollow : history.follow operations=some later) : history.Run later := by
  induction operations generalizing history with
  | nil =>
    cases hfollow
    exact .refl
  | cons operation rest ih =>
    rw [History.follow] at hfollow
    split at hfollow
    · rename_i hlegal
      exact .head ⟨operation,hlegal,rfl⟩ (ih hfollow)
    · cases hfollow

/-- The history at boot. -/
def start (paging : Paging) (kernelPml4Frame : ℕ) : History :=
  ⟨boot paging kernelPml4Frame,[],[]⟩

/-- What holds along every run. -/
structure Orderly (reserved : Multiset ℕ) (history : History) : Prop where
  /-- The table is in order. -/
  table : TableOk history.kernel
  /-- Root tables are apart. -/
  placed : Placed reserved history.kernel
  /-- The root of the current task is loaded. -/
  loaded : Loaded history.kernel
  /-- No loaded space was freed. -/
  safe : ∀ release∈history.released,release.Safe
  /-- Started processes have ids below `NEXT_ID`. -/
  below : ∀ id space,(id,space)∈history.started → id<history.kernel.nextId
  /-- Ids from `NEXT_ID` on occur nowhere in the log. -/
  unborn : ∀ id,history.kernel.nextId ≤ id → releasedFor id history.released=[]
  /-- The space of a started process was freed or is still its own. -/
  kept : ∀ id space,(id,space)∈history.started →
    (releasedFor id history.released : Multiset AddressSpace)+
      total (spaceFor id) history.kernel.tasks={space}

/-- A process that an operation starts takes the next id and has the address
space in the table. -/
theorem starts_cases {id : ℕ} (hmem : (id,space)∈starts kernel operation) :
    ∃ request entry,operation=.spawn request ∧ id=kernel.nextId ∧
      kernel.nextId<(perform kernel operation).nextId ∧ (perform kernel operation).tasks=
        kernel.tasks++[newUserTcb request space entry kernel.nextId] := by
  cases operation with
  | spawn request =>
    rw [starts] at hmem
    obtain ⟨-,hsame|⟨-,built,entry,hnext,hadded⟩⟩ := spawnUserProcess_table kernel request
    · rw [hsame,List.drop_length] at hmem
      cases hmem
    · rw [hadded,List.drop_left] at hmem
      have hnew := List.mem_singleton.mp hmem
      cases hnew
      exact ⟨request,entry,rfl,rfl,hnext,hadded⟩
  | _ => cases hmem

/-- No task has an id from `NEXT_ID` on. -/
theorem total_unborn (hok : TableOk kernel) {id : ℕ} (hid : kernel.nextId ≤ id) :
    total (spaceFor id) kernel.tasks=0 :=
  total_eq_zero fun tcb hmem => if_neg ((hok.below tcb hmem).trans_le hid).ne

theorem orderly_after (horderly : Orderly reserved history)
    (hlegal : Legal history.kernel operation) : Orderly reserved (history.after operation) := by
  obtain ⟨htable,hplaced,hloaded,hsafe,hbelow,hunborn,hkept⟩ := horderly
  obtain ⟨hlater,hreleases⟩ := placed_perform hplaced htable hloaded operation
  have hnext := (perform_clock htable operation).2.1
  refine ⟨(perform_table htable hlegal).1,hlater,loaded_perform htable hloaded operation,?_,?_,?_,?_⟩
  · exact List.forall_mem_append.mpr ⟨hsafe,hreleases⟩
  · intro id space hmem
    rcases List.mem_append.mp hmem with hold|hnew
    · exact (hbelow id space hold).trans_le hnext
    · obtain ⟨request,entry,-,rfl,hless,-⟩ := starts_cases hnew
      exact hless
  · intro id hid
    have hearlier := hnext.trans hid
    refine (releasedFor_append id _ _).trans ?_
    rw [hunborn id hearlier,List.nil_append]
    by_cases hspawn : ∃ request,operation=.spawn request
    · obtain ⟨request,rfl⟩ := hspawn
      exact releasedFor_spawn history.kernel request id
    · have hsum := @conserved_perform _ htable operation id fun request hsame =>
        absurd ⟨request,hsame⟩ hspawn
      rw [total_unborn htable hearlier] at hsum
      exact (Multiset.coe_eq_zero _).mp (add_eq_zero.mp hsum).1
  · intro id space hmem
    change ((releasedFor id (history.released++releases history.kernel operation) :
      List AddressSpace) : Multiset AddressSpace)+_={space}
    rw [releasedFor_append,← Multiset.coe_add]
    rcases List.mem_append.mp hmem with hold|hnew
    · rw [← hkept id space hold,add_assoc]
      exact congrArg _ (conserved_perform htable operation fun _ _ => (hbelow id space hold).ne)
    · -- the process starts with the space that the spawn built
      obtain ⟨request,entry,rfl,rfl,-,hadded⟩ := starts_cases hnew
      have htasks : (history.after (.spawn request)).kernel.tasks=
        history.kernel.tasks++[newUserTcb request space entry history.kernel.nextId] := hadded
      have hown : spaceFor history.kernel.nextId
          (newUserTcb request space entry history.kernel.nextId)={space} := if_pos rfl
      rw [hunborn _ le_rfl,releasedFor_spawn,htasks,total_append,total_unborn htable le_rfl,
        total_cons,hown,total_nil]
      rfl

theorem orderly_run {first : History} (horderly : Orderly reserved first) (hrun : first.Run history) :
    Orderly reserved history := by
  induction hrun with
  | refl => exact horderly
  | tail _ hstep ih =>
    obtain ⟨operation,hlegal,rfl⟩ := hstep
    exact orderly_after ih hlegal

theorem orderly_start {paging : Paging} {root : ℕ} (hbacks : Backs books paging.allocator reserved)
    (houtside : ∀ region∈paging.allocator.memoryRegions,region.kind=.usable →
      root < region.start ∨ region.finish ≤ root) : Orderly reserved (start paging root) := by
  have hnone : ∀ tcb∈(boot paging root).tasks,tcb.process=none ∧ tcb.job=.idle 0 := by
    simp [boot]
  refine ⟨tableOk_boot paging root,⟨?_,?_,?_,houtside⟩,rfl,by simp [start],by simp [start],
    fun _ _ => rfl,by simp [start]⟩
  · exact (FrameConservation.kept_boot hbacks root).1
  · intro tcb hmem
    rw [(hnone tcb hmem).2]
    trivial
  · intro tcb hmem space hspace
    rw [Tcb.space,(hnone tcb hmem).1] at hspace
    cases hspace

/-- Over every run from boot: the root of the current task is loaded; no
loaded space was freed; a process that left the table had its space freed
exactly once, and no process twice; and an operation drops the kernel stack
of no current task. The kernel's own root table is outside the usable regions
and what the kernel has taken from the allocator before is accounted for. -/
theorem spaces_freed_once {paging : Paging} {root : ℕ} {history : History}
    (hbacks : Backs books paging.allocator reserved)
    (houtside : ∀ region∈paging.allocator.memoryRegions,region.kind=.usable →
      root < region.start ∨ region.finish ≤ root)
    (hrun : (start paging root).Run history) :
    Loaded history.kernel ∧
      (∀ release∈history.released,release.Safe) ∧
      (∀ id space,(id,space)∈history.started →
        (releasedFor id history.released).length≤1 ∧
        ((∀ tcb∈history.kernel.tasks,tcb.id≠id) → releasedFor id history.released=[space])) ∧
      (∀ operation,Legal history.kernel operation →
        ∀ tcb,history.kernel.tasks[history.kernel.current]? = some tcb →
          ∃ next∈(perform history.kernel operation).tasks,next.id=tcb.id) := by
  obtain ⟨htable,-,hloaded,hsafe,-,-,hkept⟩ := orderly_run (orderly_start hbacks houtside) hrun
  refine ⟨hloaded,hsafe,fun id space hstarted => ⟨?_,fun hgone => ?_⟩,fun operation hlegal tcb hget => ?_⟩
  · have hcard := congrArg Multiset.card (hkept id space hstarted)
    rw [Multiset.card_add,Multiset.coe_card,Multiset.card_singleton] at hcard
    omega
  · have hnone : total (spaceFor id) history.kernel.tasks=0 :=
      total_eq_zero fun tcb hmem => if_neg (hgone tcb hmem)
    have hsame := hkept id space hstarted
    rw [hnone,add_zero] at hsame
    exact Multiset.coe_eq_singleton.mp hsame
  · exact perform_lists htable hlegal (List.mem_of_getElem? hget) (.inr (currentId_of_get hget))

/-- A process is started, gets the processor, exits and is reaped. -/
def lifetimeRun : List Operation :=
  [.spawn ⟨"app".toList,"/".toList,tinyElf,.ready,fun _ => true⟩,.switch,.switch,.switch,.exit 0,
    .switch,.reap true]

/-- After the run the process is gone and its address space was freed once. -/
theorem spaces_freed_once_exit :
    ∃ history space,(start smallPaging 0).follow lifetimeRun=some history ∧
      history.kernel.tasks.map Tcb.id=[1,2,3] ∧ history.started=[(4,space)] ∧
      Loaded history.kernel ∧ releasedFor 4 history.released=[space] := by
  have hfollow : ∃ history,(start smallPaging 0).follow lifetimeRun=some history ∧
      decide (history.kernel.tasks.map Tcb.id=[1,2,3] ∧ history.started.map Prod.fst=[4])=true :=
    (Option.any_eq_true _ _).mp (by decide +kernel)
  obtain ⟨history,hfollow,hend⟩ := hfollow
  obtain ⟨hids,hstarted⟩ := of_decide_eq_true hend
  have houtside : ∀ region∈smallPaging.allocator.memoryRegions,region.kind=.usable →
      0 < region.start ∨ region.finish≤0 := by
    intro region hregion _
    rw [List.mem_singleton.mp hregion]
    exact .inl (by decide)
  obtain ⟨hloaded,-,honce,-⟩ := spaces_freed_once backs_smallPaging houtside (run_of_follow hfollow)
  obtain ⟨⟨id,space⟩,hsingle,hid⟩ := List.map_eq_singleton_iff.mp hstarted
  change id=4 at hid
  subst hid
  refine ⟨history,space,hfollow,hids,hsingle,hloaded,?_⟩
  have hmem : (4,space)∈history.started := by
    rw [hsingle]
    exact List.mem_singleton_self _
  refine (honce 4 space hmem).2 fun tcb htcb hid => ?_
  have hin : 4∈history.kernel.tasks.map Tcb.id := by
    rw [← hid]
    exact List.mem_map_of_mem htcb
  rw [hids] at hin
  exact absurd hin (by decide)

end TuwaiqOS.AddressSpaceLifetime
