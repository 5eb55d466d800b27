import TuwaiqOS.Scheduler

/-!
# Where the frames of processes are

A frame that was handed out is in the allocator's pool, in the ownership
list of an address space, or in a local variable of a task that is not
terminated. The table keeps this balance when tasks are reaped, switched,
woken and created. Creating a process moves frames from the allocator into
local variables of the creator and then into the table.
-/

namespace TuwaiqOS.Scheduler

open ResourceLedger FrameAllocator AddressSpaces VmCalls

/-! ## Frames held by tasks -/

/-- Frames in the local variables of a spawn. -/
def SpawnStage.frames : SpawnStage → List ℕ
  | .building _ space _ _ => space.ownedFrames
  | .numbering _ space _ => space.ownedFrames
  | .inserting _ space _ _ => space.ownedFrames
  | .discarding space _ => space.ownedFrames
  | _ => []

/-- The id that a spawn has taken for a task it did not insert yet. -/
def SpawnStage.pending : SpawnStage → Option ℕ
  | .inserting _ _ _ id => some id
  | _ => none

/-- Frames in the local variables of a task. -/
def Job.frames : Job → List ℕ
  | .munmap _ stage => stage.frames
  | .spawning stage => stage.frames
  | .reclaiming space => space.ownedFrames
  | _ => []

/-- The id that a task has taken for a task it did not insert yet. -/
def Job.pending : Job → Option ℕ
  | .spawning stage => stage.pending
  | _ => none

/-- Jobs of the shell. -/
def Job.ofShell : Job → Prop
  | .spawning _ => True
  | .reclaiming _ => True
  | _ => False

/-- Frames that a task owns through its address space. -/
def Tcb.ownedFrames (tcb : Tcb) : List ℕ :=
  match tcb.process with
  | none => []
  | some process => process.ownedFrames

/-- Frames that a task has; a terminated task's local variables are lost. -/
def Tcb.held (tcb : Tcb) : Multiset ℕ :=
  tcb.ownedFrames+if tcb.state=.terminated then 0 else (tcb.job.frames : Multiset ℕ)

theorem Tcb.held_live {tcb : Tcb} (hstate : tcb.state≠.terminated) :
    tcb.held=tcb.ownedFrames+tcb.job.frames := by
  rw [Tcb.held,if_neg hstate]

theorem Tcb.held_dead {tcb : Tcb} (hstate : tcb.state=.terminated) : tcb.held=tcb.ownedFrames := by
  rw [Tcb.held,if_pos hstate,add_zero]

/-- The removals a live task has planned can be carried out, and only the
shell spawns in steps and kills. -/
structure Tcb.Ok (tcb : Tcb) : Prop where
  /-- The planned removals fit the ownership list. -/
  valid : tcb.state≠.terminated → ∀ call stage,tcb.job=.munmap call stage →
    stage.Valid tcb.ownedFrames
  /-- Jobs of the shell are the shell's. -/
  shell : tcb.job.ofShell → tcb.id=1

/-- Two tasks that differ in scheduling data only. -/
structure Tcb.Alike (tcb next : Tcb) : Prop where
  /-- Same id. -/
  id : next.id=tcb.id
  /-- Same process. -/
  process : next.process=tcb.process
  /-- Same job. -/
  job : next.job=tcb.job
  /-- Both terminated or none. -/
  terminated : next.state=.terminated ↔ tcb.state=.terminated

variable {tcb next : Tcb}

section

variable (halike : tcb.Alike next)
include halike

theorem Tcb.Alike.ownedFrames : next.ownedFrames=tcb.ownedFrames := by
  rw [Tcb.ownedFrames,Tcb.ownedFrames,halike.process]

theorem Tcb.Alike.held : next.held=tcb.held := by
  rw [Tcb.held,Tcb.held,halike.ownedFrames,halike.job]
  simp only [halike.terminated]

theorem Tcb.Alike.ok (hok : tcb.Ok) : next.Ok where
  valid := fun hstate call stage hjob => by
    rw [halike.ownedFrames]
    exact hok.valid (fun h => hstate (halike.terminated.mpr h)) call stage
      (halike.job.symm.trans hjob)
  shell := fun hshell => by
    rw [halike.id]
    rw [halike.job] at hshell
    exact hok.shell hshell

end

theorem Tcb.Alike.wake (now : ℕ) (tcb : Tcb) : tcb.Alike (tcb.wake now) := by
  rw [Tcb.wake]
  split
  · rename_i hblocked
    refine ⟨rfl,rfl,rfl,?_⟩
    rw [hblocked.1]
    exact ⟨nofun,nofun⟩
  · exact ⟨rfl,rfl,rfl,Iff.rfl⟩

theorem Tcb.Alike.preempted (tcb : Tcb) : tcb.Alike tcb.preempted := by
  rw [Tcb.preempted]
  split
  · rename_i hrunning
    refine ⟨rfl,rfl,rfl,?_⟩
    rw [hrunning]
    exact ⟨(by simp),(by simp)⟩
  · exact ⟨rfl,rfl,rfl,Iff.rfl⟩

theorem Tcb.Alike.resumed (tcb : Tcb) : tcb.Alike tcb.resumed := by
  have halike := Tcb.Alike.preempted tcb
  rw [Tcb.resumed]
  split
  · exact halike
  · rename_i halive
    refine ⟨halike.id,halike.process,halike.job,(by simp),fun hdead => ?_⟩
    exact absurd (halike.terminated.mpr hdead) halive

/-- An ownership list without its address space is empty. -/
theorem Tcb.ownedFrames_withoutSpace (tcb : Tcb) : tcb.withoutSpace.ownedFrames=[] := by
  rw [Tcb.withoutSpace,Tcb.ownedFrames]
  cases tcb.process <;> rfl

/-- A terminated task without its address space has nothing. -/
theorem Tcb.held_withoutSpace (hstate : tcb.state=.terminated) : tcb.withoutSpace.held=0 := by
  have hdead : tcb.withoutSpace.state=.terminated := hstate
  rw [Tcb.held_dead hdead,Tcb.ownedFrames_withoutSpace]
  rfl

/-- Freeing the address space of a task returns what it owns. -/
theorem moves_freeSpaceOf (allocator : BootInfoFrameAllocator) (tcb : Tcb) :
    Moves BootInfoFrameAllocator.books allocator tcb.ownedFrames (freeSpaceOf allocator tcb) 0 := by
  rw [freeSpaceOf,Tcb.ownedFrames,Tcb.space]
  cases tcb.process with
  | none => exact Moves.refl _ _ _
  | some process =>
    rw [Option.bind_some]
    dsimp only
    split
    · rename_i hnone
      rw [ProcessState.ownedFrames,hnone]
      exact Moves.refl _ _ _
    · rename_i space hspace
      rw [ProcessState.ownedFrames_some hspace]
      exact moves_freeAddressSpace space allocator

end TuwaiqOS.Scheduler

namespace TuwaiqOS.FrameLedger

open ResourceLedger FrameAllocator AddressSpaces ElfImage Scheduler
open BootInfoFrameAllocator (books)

/-! ## The table -/

variable {α : Type} {list : List α} {p : α → Bool} {found : α} {stage : SpawnStage}

theorem getElem?_set_of_get {index : ℕ} {old next : α}
    (hget : list[index]? = some old) : (list.set index next)[index]? = some next :=
  List.getElem?_set_self (List.getElem?_eq_some_iff.mp hget).1

/-- The frames issued are in the pool, reserved, or held by a task; ids are
distinct and fresh ids are not in use. -/
structure Sound (reserved : Multiset ℕ) (kernel : Kernel) : Prop where
  /-- The balance. -/
  backs : Backs books kernel.paging.allocator (reserved+total Tcb.held kernel.tasks)
  /-- Ids are distinct. -/
  distinct : (kernel.tasks.map Tcb.id).Nodup
  /-- Ids are below `NEXT_ID`. -/
  below : ∀ tcb∈kernel.tasks,tcb.id<kernel.nextId
  /-- Ids that were taken for later tasks are free. -/
  pending : ∀ tcb∈kernel.tasks,∀ id,tcb.job.pending=some id →
    id<kernel.nextId ∧ ∀ other∈kernel.tasks,other.id≠id
  /-- Every task is in order. -/
  ok : ∀ tcb∈kernel.tasks,tcb.Ok

/-- The task that has the processor is not terminated, or it is in its last
loop. -/
def Steady (kernel : Kernel) : Prop :=
  ∃ tcb,kernel.tasks[kernel.current]? = some tcb ∧ (tcb.state=.terminated → tcb.job=.halted)

variable {reserved other : Multiset ℕ} {kernel later : Kernel} {tcb next : Tcb} {index : ℕ}

section

variable (hsound : Sound reserved kernel)
include hsound

theorem Sound.ok_of_get (hget : kernel.tasks[index]? = some tcb) :
    tcb.Ok := hsound.ok tcb (List.mem_of_getElem? hget)

/-- Two tasks with the same id are the same. -/
theorem Sound.same (hfirst : tcb∈kernel.tasks)
    (hsecond : next∈kernel.tasks) (hid : tcb.id=next.id) : tcb=next :=
  List.inj_on_of_nodup_map hsound.distinct hfirst hsecond hid

/-- One task changes, and frames move between the allocator, the reserve and
this task. -/
theorem Sound.set (hget : kernel.tasks[index]? = some tcb) (hid : next.id=tcb.id)
    (hmove : Moves books kernel.paging.allocator (reserved+tcb.held) later.paging.allocator
      (other+next.held)) (hok : next.Ok) (hpending : ∀ id,next.job.pending=some id →
      id<kernel.nextId ∧ ∀ task∈kernel.tasks,task.id≠id)
    (htasks : later.tasks=kernel.tasks.set index next) (hnext : later.nextId=kernel.nextId) :
    Sound other later := by
  have hids : later.tasks.map Tcb.id=kernel.tasks.map Tcb.id := by
    obtain ⟨hlength,hvalue⟩ := List.getElem?_eq_some_iff.mp hget
    rw [htasks,List.map_set,hid,← hvalue,← List.map_set,List.set_getElem_self]
  have hmem : ∀ task∈later.tasks,task=next ∨ task∈kernel.tasks := by
    intro task htask
    rw [htasks] at htask
    exact (List.mem_or_eq_of_mem_set htask).symm
  have hnone : ∀ id,(∀ task∈kernel.tasks,task.id≠id) → ∀ task∈later.tasks,task.id≠id := by
    intro id hfree task htask
    rcases hmem task htask with rfl|hold
    · rw [hid]
      exact hfree tcb (List.mem_of_getElem? hget)
    · exact hfree task hold
  obtain ⟨rest,hall,hset⟩ := total_split Tcb.held hget
  constructor
  · rw [htasks,hset,← add_assoc]
    refine hmove rest ?_
    rw [add_assoc,← hall]
    exact hsound.backs
  · rw [hids]
    exact hsound.distinct
  · intro task htask
    rw [hnext]
    rcases hmem task htask with rfl|hold
    · rw [hid]
      exact hsound.below tcb (List.mem_of_getElem? hget)
    · exact hsound.below task hold
  · intro task htask id htaken
    rw [hnext]
    rcases hmem task htask with rfl|hold
    · exact ⟨(hpending id htaken).1,hnone id (hpending id htaken).2⟩
    · have hfree := hsound.pending task hold id htaken
      exact ⟨hfree.1,hnone id hfree.2⟩
  · intro task htask
    rcases hmem task htask with rfl|hold
    · exact hok
    · exact hsound.ok task hold

/-- Scheduling data of one task changes. -/
theorem Sound.alike (hget : kernel.tasks[index]? = some tcb)
    (halike : tcb.Alike next) (htasks : later.tasks=kernel.tasks.set index next)
    (hallocator : later.paging.allocator=kernel.paging.allocator)
    (hnext : later.nextId=kernel.nextId) : Sound reserved later := by
  refine hsound.set hget halike.id ?_ (halike.ok (hsound.ok_of_get hget)) ?_ htasks hnext
  · rw [halike.held,hallocator]
    exact Moves.refl _ _ _
  · intro id hid
    rw [halike.job] at hid
    exact hsound.pending tcb (List.mem_of_getElem? hget) id hid

/-- Frames move between the allocator and the reserve. -/
theorem Sound.move
    (hmove : Moves books kernel.paging.allocator reserved later.paging.allocator other)
    (htasks : later.tasks=kernel.tasks) (hnext : kernel.nextId≤later.nextId) :
    Sound other later := by
  obtain ⟨hbacks,hdistinct,hbelow,hpending,hok⟩ := hsound
  constructor
  all_goals rw [htasks]
  · exact hmove _ hbacks
  · exact hdistinct
  · exact fun task htask => (hbelow task htask).trans_le hnext
  · intro task htask id hid
    obtain ⟨hless,hfree⟩ := hpending task htask id hid
    exact ⟨hless.trans_le hnext,hfree⟩
  · exact hok

/-- Data that is not about tasks and frames changes. -/
theorem Sound.congr (htasks : later.tasks=kernel.tasks)
    (hallocator : later.paging.allocator=kernel.paging.allocator)
    (hnext : later.nextId=kernel.nextId) : Sound reserved later :=
  hsound.move (by rw [hallocator]; exact Moves.refl _ _ _) htasks hnext.ge

/-- Scheduling data of all tasks changes. -/
theorem Sound.map {change : Tcb → Tcb}
    (halike : ∀ tcb : Tcb,tcb.Alike (change tcb)) (htasks : later.tasks=kernel.tasks.map change)
    (hallocator : later.paging.allocator=kernel.paging.allocator)
    (hnext : later.nextId=kernel.nextId) : Sound reserved later := by
  have hheld : total Tcb.held later.tasks=total Tcb.held kernel.tasks := by
    rw [htasks,total,total,List.map_map]
    exact congrArg List.sum (List.map_congr_left fun tcb _ => (halike tcb).held)
  have hids : later.tasks.map Tcb.id=kernel.tasks.map Tcb.id := by
    rw [htasks,List.map_map]
    exact List.map_congr_left fun tcb _ => (halike tcb).id
  have hfree : ∀ id,(∀ task∈kernel.tasks,task.id≠id) → ∀ task∈later.tasks,task.id≠id := by
    intro id hnone task htask
    rw [htasks] at htask
    obtain ⟨old,hold,rfl⟩ := List.mem_map.mp htask
    rw [(halike old).id]
    exact hnone old hold
  constructor
  · rw [hheld,hallocator]
    exact hsound.backs
  · rw [hids]
    exact hsound.distinct
  all_goals
    intro task htask
    have htask' := htask
    rw [htasks] at htask'
    obtain ⟨old,hold,rfl⟩ := List.mem_map.mp htask'
  · rw [(halike old).id,hnext]
    exact hsound.below old hold
  · intro id hid
    rw [(halike old).job] at hid
    rw [hnext]
    exact ⟨(hsound.pending old hold id hid).1,hfree id (hsound.pending old hold id hid).2⟩
  · exact (halike old).ok (hsound.ok old hold)

end

/-! ## Reaping -/

theorem getElem?_findIdx (hmem : found∈list) (hfound : p found=true) :
    ∃ first∈list,list[list.findIdx p]? = some first ∧ p first=true := by
  have hlength := List.findIdx_lt_length_of_exists ⟨found,hmem,hfound⟩
  exact ⟨list[list.findIdx p],List.getElem_mem hlength,List.getElem?_eq_getElem hlength,
    List.findIdx_getElem⟩

theorem findIdx_found (hget : list[list.findIdx p]? = some found) : p found=true := by
  obtain ⟨hlength,hvalue⟩ := List.getElem?_eq_some_iff.mp hget
  rw [← hvalue]
  exact List.findIdx_getElem

/-- Reaping returns the frames of the tasks it removes, and keeps the
current one. -/
theorem sound_reapTerminated (hsound : Sound reserved kernel)
    (hget : kernel.tasks[kernel.current]? = some tcb) (force : Bool) :
    Sound reserved (kernel.reapTerminated force) ∧
      (kernel.reapTerminated force).tasks[(kernel.reapTerminated force).current]? = some tcb := by
  rw [Kernel.reapTerminated,hget]
  dsimp only
  have hsub : ∀ task∈kernel.tasks.filter (fun task =>
      !shouldReap tcb.id kernel.ticks force task),task∈kernel.tasks :=
    fun task htask => (List.mem_filter.mp htask).1
  refine ⟨⟨?_,?_,?_,?_,?_⟩,?_⟩
  · have hsweep := @Moves.sweep _ _ _ books Tcb.held kernel.tasks
      (shouldReap tcb.id kernel.ticks force) freeSpaceOf (fun pool task hgone => by
        have hdead : task.state=.terminated := (of_decide_eq_true hgone).2.1
        rw [Tcb.held_dead hdead]
        exact moves_freeSpaceOf pool task) kernel.paging.allocator
    exact (hsweep.frame_left reserved).backs hsound.backs
  · exact hsound.distinct.sublist (List.filter_sublist.map _)
  · exact fun task htask => hsound.below task (hsub task htask)
  · intro task htask id hid
    have hold := hsound.pending task (hsub task htask) id hid
    exact ⟨hold.1,fun task htask => hold.2 task (hsub task htask)⟩
  · exact fun task htask => hsound.ok task (hsub task htask)
  · have hkept : tcb∈kernel.tasks.filter (fun task =>
        !shouldReap tcb.id kernel.ticks force task) := by
      refine List.mem_filter.mpr ⟨List.mem_of_getElem? hget,?_⟩
      rw [shouldReap]
      simp
    obtain ⟨first,hmem,hfirst,hid⟩ := getElem?_findIdx (p := fun task => task.id=tcb.id) hkept
      (decide_eq_true rfl)
    rw [hsound.same (hsub first hmem) (List.mem_of_getElem? hget) (of_decide_eq_true hid)] at hfirst
    exact hfirst

/-! ## Switching -/

/-- A call of `schedule` after reaping: the current task stays, or it leaves
for a ready one and its address space is freed if it terminated. -/
theorem schedule_cases {reaped : Kernel} (hreaped : kernel.reapTerminated false=reaped)
    (hget : reaped.tasks[reaped.current]? = some tcb) :
    kernel.schedule.nextId=reaped.nextId ∧
      ((∃ stayed,tcb.Alike stayed ∧
          kernel.schedule.tasks=reaped.tasks.set reaped.current stayed ∧
          kernel.schedule.current=reaped.current ∧
          kernel.schedule.paging.allocator=reaped.paging.allocator) ∨
        ∃ left index incoming,index≠reaped.current ∧
          ((tcb.Alike left ∧ kernel.schedule.paging.allocator=reaped.paging.allocator) ∨
            (tcb.state=.terminated ∧ left=tcb.withoutSpace ∧
              kernel.schedule.paging.allocator=freeSpaceOf reaped.paging.allocator tcb)) ∧
          reaped.tasks[index]? = some incoming ∧ incoming.state=.ready ∧
          kernel.schedule.tasks=(reaped.tasks.set reaped.current left).set index
            {incoming with state := .running} ∧
          kernel.schedule.current=index) := by
  obtain ⟨hlength,hvalue⟩ := List.getElem?_eq_some_iff.mp hget
  have hself : reaped.tasks.set reaped.current tcb=reaped.tasks := by
    rw [← hvalue,List.set_getElem_self]
  have halike := Tcb.Alike.preempted tcb
  rw [Kernel.schedule]
  rcases prepareSwitch_cases hreaped hget with ⟨-,hplan⟩|⟨-,hplan⟩|
    ⟨index,incoming,hother,-,hincoming,hready,hplan⟩
  · rw [hplan]
    exact ⟨rfl,Or.inl ⟨tcb,⟨rfl,rfl,rfl,Iff.rfl⟩,hself.symm,rfl,rfl⟩⟩
  · rw [hplan]
    exact ⟨rfl,Or.inl ⟨tcb.resumed,Tcb.Alike.resumed tcb,rfl,rfl,rfl⟩⟩
  · rw [hplan]
    refine ⟨rfl,Or.inr ⟨_,index,incoming,hother,?_,hincoming,hready,rfl,rfl⟩⟩
    by_cases hdead : tcb.state=.terminated
    · refine Or.inr ⟨hdead,if_pos hdead,?_⟩
      simp only [hdead,if_true,freeSpaceOf]
      cases tcb.space <;> rfl
    · rw [if_neg hdead]
      refine Or.inl ⟨halike,?_⟩
      simp only [hdead,if_false]
      rfl

section

variable (hsound : Sound reserved kernel)
include hsound

/-- A task switch keeps the balance. -/
theorem sound_switch
    (hget : kernel.tasks[kernel.current]? = some tcb) : Sound reserved kernel.schedule := by
  obtain ⟨hreaped,hcurrent⟩ := sound_reapTerminated hsound hget false
  obtain ⟨hnextId,hcases⟩ := schedule_cases rfl hcurrent
  generalize kernel.reapTerminated false=reaped at *
  rcases hcases with ⟨stayed,halike,htasks,-,hallocator⟩|
    ⟨left,index,incoming,hother,hleft,hincoming,hready,htasks,-⟩
  · exact hreaped.alike hcurrent halike htasks hallocator hnextId
  · -- first the outgoing task, then the incoming one
    have hfirst : Sound reserved {kernel.schedule with
        tasks := reaped.tasks.set reaped.current left} := by
      rcases hleft with ⟨halike,hallocator⟩|⟨hdead,rfl,hallocator⟩
      · exact hreaped.alike hcurrent halike rfl hallocator hnextId
      · have hid : tcb.withoutSpace.id=tcb.id := rfl
        refine hreaped.set hcurrent hid ?_ ?_ ?_ rfl hnextId
        · change Moves books _ _ kernel.schedule.paging.allocator _
          rw [hallocator,Tcb.held_dead hdead,Tcb.held_withoutSpace hdead]
          exact (moves_freeSpaceOf _ tcb).frame_left reserved
        · exact ⟨fun halive => absurd hdead halive,(hreaped.ok_of_get hcurrent).shell⟩
        · exact hreaped.pending tcb (List.mem_of_getElem? hcurrent)
    have hget : (reaped.tasks.set reaped.current left)[index]? = some incoming := by
      rw [List.getElem?_set_ne (Ne.symm hother)]
      exact hincoming
    have halike : incoming.Alike {incoming with state := .running} := by
      refine ⟨rfl,rfl,rfl,?_⟩
      rw [hready]
      exact ⟨nofun,nofun⟩
    exact hfirst.alike hget halike htasks rfl rfl

/-- A task switch keeps the balance, and the task that has the processor
afterwards is steady. -/
theorem sound_schedule (hsteady : Steady kernel) :
    Sound reserved kernel.schedule ∧ Steady kernel.schedule := by
  obtain ⟨tcb,hget,hhalted⟩ := hsteady
  refine ⟨sound_switch hsound hget,?_⟩
  have hcurrent := (sound_reapTerminated hsound hget false).2
  obtain ⟨-,hcases⟩ := schedule_cases rfl hcurrent
  generalize kernel.reapTerminated false=reaped at *
  rcases hcases with ⟨stayed,halike,htasks,hindex,-⟩|
    ⟨left,index,incoming,hother,-,hincoming,-,htasks,hindex⟩
  · refine ⟨stayed,?_,fun hdead => ?_⟩
    · rw [htasks,hindex]
      exact getElem?_set_of_get hcurrent
    · rw [halike.job]
      exact hhalted (halike.terminated.mp hdead)
  · refine ⟨{incoming with state := .running},?_,nofun⟩
    rw [htasks,hindex]
    exact getElem?_set_of_get ((List.getElem?_set_ne (Ne.symm hother)).trans hincoming)

/-- The timer interrupt keeps the balance. -/
theorem sound_onTimerTick (hsteady : Steady kernel) :
    Sound reserved kernel.onTimerTick ∧ Steady kernel.onTimerTick := by
  have hwoken : ∀ since,Sound reserved {kernel with
        ticks := kernel.ticks+1,tasks := kernel.tasks.map (Tcb.wake (kernel.ticks+1))
        ticksSinceSwitch := since} ∧
      Steady {kernel with
        ticks := kernel.ticks+1,tasks := kernel.tasks.map (Tcb.wake (kernel.ticks+1))
        ticksSinceSwitch := since} := by
    intro since
    have hlike := fun tcb => Tcb.Alike.wake (kernel.ticks+1) tcb
    refine ⟨hsound.map hlike rfl rfl rfl,?_⟩
    obtain ⟨tcb,hget,hhalted⟩ := hsteady
    refine ⟨tcb.wake (kernel.ticks+1),?_,fun hdead => ?_⟩
    · exact List.getElem?_map.trans (congrArg _ hget)
    · rw [(hlike tcb).job]
      exact hhalted ((hlike tcb).terminated.mp hdead)
  rw [Kernel.onTimerTick]
  split
  · exact sound_schedule (hwoken 0).1 (hwoken 0).2
  · exact hwoken _

end

/-! ## Creating processes -/

/-- The id that a spawn has taken is not in use and not taken by another. -/
def Fresh (kernel : Kernel) (stage : SpawnStage) : Prop :=
  ∀ id,stage.pending=some id →
    id<kernel.nextId ∧ ∀ tcb∈kernel.tasks,tcb.id≠id ∧ tcb.job.pending≠some id

theorem fresh_of_none (hpending : stage.pending=none) : Fresh kernel stage :=
  fun id hid => by rw [hpending] at hid; cases hid

/-- A new task joins the table with frames from the reserve. -/
theorem Sound.push {frames : Multiset ℕ} (hsound : Sound (reserved+frames) kernel)
    (hheld : tcb.held=frames) (hok : tcb.Ok) (hjob : tcb.job.pending=none)
    (hid : tcb.id<kernel.nextId)
    (hfree : ∀ task∈kernel.tasks,task.id≠tcb.id ∧ task.job.pending≠some tcb.id)
    (htasks : later.tasks=kernel.tasks++[tcb])
    (hallocator : later.paging.allocator=kernel.paging.allocator)
    (hnext : later.nextId=kernel.nextId) : Sound reserved later := by
  have hmem : ∀ task∈later.tasks,task∈kernel.tasks ∨ task=tcb := by
    intro task htask
    rw [htasks] at htask
    exact (List.mem_append.mp htask).imp_right List.mem_singleton.mp
  constructor
  · rw [htasks,hallocator,total_append,total_cons,total_nil,add_zero,hheld,
      add_comm _ frames,← add_assoc]
    exact hsound.backs
  · rw [htasks,List.map_append,List.map_singleton,List.nodup_append]
    refine ⟨hsound.distinct,List.nodup_singleton _,?_⟩
    intro id hmem found hfound
    obtain ⟨task,htask,rfl⟩ := List.mem_map.mp hmem
    rw [List.mem_singleton.mp hfound]
    exact (hfree task htask).1
  · intro task htask
    rw [hnext]
    rcases hmem task htask with hold|rfl
    · exact hsound.below task hold
    · exact hid
  · intro task htask id htaken
    rw [hnext]
    rcases hmem task htask with hold|rfl
    · obtain ⟨hless,hother⟩ := hsound.pending task hold id htaken
      refine ⟨hless,fun found hfound => ?_⟩
      rcases hmem found hfound with hfound|rfl
      · exact hother found hfound
      · rintro rfl
        exact (hfree task hold).2 htaken
    · rw [hjob] at htaken
      cases htaken
  · intro task htask
    rcases hmem task htask with hold|rfl
    · exact hsound.ok task hold
    · exact hok

/-- A section of a spawn moves frames between the allocator, the local
variables of the spawn and the table. -/
theorem sound_spawnStep
    (hsound : Sound (reserved+(stage.frames : Multiset ℕ)) kernel) (hfresh : Fresh kernel stage) :
    Sound (reserved+((spawnStep kernel stage).1.frames : Multiset ℕ)) (spawnStep kernel stage).2 ∧
      Fresh (spawnStep kernel stage).2 (spawnStep kernel stage).1 := by
  obtain ⟨next,hnext,hspawns⟩ := exists_spawns kernel stage
  rw [hnext]
  cases hspawns with
  | rejected request space allocator reason hnew =>
    exact ⟨hsound.move ((moves_newAddressSpace hnew).frame_left reserved) rfl le_rfl,
      fresh_of_none rfl⟩
  | planned request space allocator entry ops hnew =>
    exact ⟨hsound.move ((moves_newAddressSpace hnew).frame_left reserved) rfl le_rfl,
      fresh_of_none rfl⟩
  | faulted request space entry op rest reason =>
    exact ⟨hsound.move ((moves_perform op space kernel.paging).frame_left reserved) rfl le_rfl,
      fresh_of_none rfl⟩
  | performed request space entry op rest =>
    exact ⟨hsound.move ((moves_perform op space kernel.paging).frame_left reserved) rfl le_rfl,
      fresh_of_none rfl⟩
  | numbered request space entry =>
    refine ⟨hsound.move (Moves.refl _ _ _) rfl (Nat.le_succ _),fun id hid => ?_⟩
    cases hid
    refine ⟨Nat.lt_succ_self _,fun tcb htcb => ⟨(hsound.below tcb htcb).ne,fun htaken => ?_⟩⟩
    exact absurd (hsound.pending tcb htcb _ htaken).1 (lt_irrefl _)
  | unboxed request space entry reason =>
    exact ⟨hsound.move (Moves.refl _ _ _) rfl (Nat.le_succ _),fresh_of_none rfl⟩
  | inserted request space entry id hroom =>
    obtain ⟨hless,hfree⟩ := hfresh id rfl
    refine ⟨?_,fresh_of_none rfl⟩
    change Sound (reserved+0) _
    rw [add_zero]
    have hheld : (newUserTcb request space entry id).held=space.ownedFrames := by
      rw [Tcb.held]
      split <;> exact add_zero _
    exact hsound.push hheld ⟨by simp [newUserTcb],by simp [newUserTcb,Job.ofShell]⟩ rfl hless
      hfree rfl rfl rfl
  | discarded space reason =>
    have hmove := (moves_freeAddressSpace space kernel.paging.allocator).frame_left reserved
    exact ⟨hsound.move hmove rfl le_rfl,fresh_of_none rfl⟩
  | _ => exact ⟨hsound,fresh_of_none rfl⟩

/-- A section of a spawn only adds to the table. -/
theorem spawnStep_table (kernel : Kernel) (stage : SpawnStage) :
    (spawnStep kernel stage).2.current=kernel.current ∧
      ∃ added,(spawnStep kernel stage).2.tasks=kernel.tasks++added := by
  obtain ⟨next,hnext,hspawns⟩ := exists_spawns kernel stage
  rw [hnext]
  cases hspawns with
  | inserted => exact ⟨rfl,_,rfl⟩
  | _ => exact ⟨rfl,[],(List.append_nil _).symm⟩

theorem sound_spawnRun {fuel : ℕ} {state : SpawnStage×Kernel}
    (hsound : Sound (reserved+(state.1.frames : Multiset ℕ)) state.2)
    (hfresh : Fresh state.2 state.1) :
    Sound (reserved+((spawnRun fuel state).1.frames : Multiset ℕ)) (spawnRun fuel state).2 ∧
      (spawnRun fuel state).2.current=state.2.current ∧
      ∃ added,(spawnRun fuel state).2.tasks=state.2.tasks++added := by
  induction fuel generalizing state with
  | zero => exact ⟨hsound,rfl,[],(List.append_nil _).symm⟩
  | succ fuel ih =>
    obtain ⟨hnext,hlater⟩ := sound_spawnStep hsound hfresh
    obtain ⟨hcurrent,first,hfirst⟩ := spawnStep_table state.2 state.1
    obtain ⟨hdone,hindex,added,hadded⟩ := ih hnext hlater
    refine ⟨hdone,hindex.trans hcurrent,first++added,?_⟩
    rw [spawnRun,hadded,hfirst,List.append_assoc]

/-- A spawn with interrupts off moves frames from the allocator into the
table. -/
theorem sound_spawnUserProcess (hsound : Sound reserved kernel) (request : SpawnRequest) :
    Sound reserved (kernel.spawnUserProcess request).2 ∧
      (kernel.spawnUserProcess request).2.current=kernel.current ∧
      ∃ added,(kernel.spawnUserProcess request).2.tasks=kernel.tasks++added := by
  rw [← add_zero reserved] at hsound
  obtain ⟨hdone,htable⟩ := @sound_spawnRun reserved _ (.counting request,kernel) hsound
    (fresh_of_none rfl)
  obtain ⟨result,hresult⟩ := spawnUserProcess_finishes kernel request
  change Sound (reserved+((kernel.spawnUserProcess request).1.frames : Multiset ℕ)) _ at hdone
  rw [hresult] at hdone
  exact ⟨by rw [← add_zero reserved]; exact hdone,htable⟩

end TuwaiqOS.FrameLedger
