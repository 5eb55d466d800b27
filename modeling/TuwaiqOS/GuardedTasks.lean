import TuwaiqOS.BlockProgram

/-!
# Tasks whose calls run under one guard

Several tasks run programs on one machine, and a task switch can happen
between any two nodes. Every call first tries to take a guard with one
atomic exchange. If the guard was taken, the call returns at once; otherwise
it runs its body, drops the guard and returns. A task can be killed, and its
call then stays where it is. As long as no task is killed while it holds the
guard, the calls that got it ran one after another, as if alone, and the
guard is taken only while a live task is inside a call.
-/

namespace TuwaiqOS.GuardedTasks

open BlockProgram

variable {Block Memory Tag α β : Type}

/-! ## Single nodes -/

/-- One node of a program is performed, with the tag of its action. -/
inductive Acts : Program Block Memory Tag α → Machine Block Memory → Option Tag →
    Program Block Memory Tag α → Machine Block Memory → Prop where
  /-- A read. -/
  | read {address : ℕ} {next : Except String Block → Program Block Memory Tag α}
      {machine : Machine Block Memory} :
      Acts (.read address next) machine none (next (.ok (machine.disk address))) machine
  /-- A write. -/
  | write {address : ℕ} {block : Block} {next : Except String Unit → Program Block Memory Tag α}
      {machine : Machine Block Memory} :
      Acts (.write address block next) machine none (next machine.fate.answer)
        (machine.store address block machine.fate)
  /-- An atomic action. -/
  | atomic {tag : Tag} {action : Memory → Memory} {next : Memory → Program Block Memory Tag α}
      {machine : Machine Block Memory} :
      Acts (.atomic tag action next) machine (some tag) (next machine.memory)
        {machine with memory := action machine.memory}

/-- The result of a finished program. -/
def finished : Program Block Memory Tag α → Option α
  | .done result => some result
  | _ => none

section

variable {program next : Program Block Memory Tag α} {machine later : Machine Block Memory}
  {tag : Option Tag} {counted : Tag → Bool} {allowed : Tag → (Memory → Memory) → Prop}
  {routine : Routine Block Memory Tag α}

theorem eq_done {result : α} (hfinished : finished program=some result) : program=.done result := by
  cases program with
  | done found =>
    cases hfinished
    rfl
  | read => cases hfinished
  | write => cases hfinished
  | atomic => cases hfinished

/-- A program ends as what is left of it does. -/
theorem Acts.run (hacts : Acts program machine tag next later) :
    program.run machine=next.run later := by
  cases hacts <;> rfl

/-- How many actions with the given tags a program performs. -/
def tally (counted : Tag → Bool) : Program Block Memory Tag α → Machine Block Memory → ℕ
  | .done _,_ => 0
  | .read address next,machine => tally counted (next (.ok (machine.disk address))) machine
  | .write address block next,machine =>
    tally counted (next machine.fate.answer) (machine.store address block machine.fate)
  | .atomic tag action next,machine =>
    (if counted tag then 1 else 0)+
      tally counted (next machine.memory) {machine with memory := action machine.memory}

/-- One if the performed action is counted. -/
def tallyTag (counted : Tag → Bool) : Option Tag → ℕ
  | none => 0
  | some tag => if counted tag then 1 else 0

theorem Acts.tally (hacts : Acts program machine tag next later) :
    tally counted program machine=tallyTag counted tag+tally counted next later := by
  cases hacts with
  | read => exact (Nat.zero_add _).symm
  | write => exact (Nat.zero_add _).symm
  | atomic => rfl

/-- A sequence performs the actions of its parts. -/
theorem tally_bind (counted : Tag → Bool) (program : Program Block Memory Tag α)
    (rest : α → Program Block Memory Tag β) (machine : Machine Block Memory) :
    tally counted (program>>=rest) machine=tally counted program machine+
      tally counted (rest (program.run machine).1) (program.run machine).2 := by
  change tally counted (program.bind rest) machine=_
  induction program generalizing machine with
  | done result => exact (Nat.zero_add _).symm
  | read address next ih => exact ih _ _
  | write address block next ih => exact ih _ _
  | atomic tag action next ih =>
    rw [Program.bind,tally,ih,tally,Nat.add_assoc]
    rfl

/-- A routine that goes on performs the actions of its parts. -/
theorem tally_bind_ok {value : α} (hfirst : routine.perform machine=(.ok value,later))
    (rest : α → Routine Block Memory Tag β) : tally counted (routine>>=rest).run machine=
      tally counted routine.run machine+tally counted (rest value).run later := by
  change tally counted (routine.run>>=ExceptT.bindCont rest) machine=_
  rw [tally_bind,show routine.run.run machine=(.ok value,later) from hfirst]
  rfl

/-- A routine that stops performs the actions up to there. -/
theorem tally_bind_error {reason : String} (hfirst : routine.perform machine=(.error reason,later))
    (rest : α → Routine Block Memory Tag β) :
    tally counted (routine>>=rest).run machine=tally counted routine.run machine := by
  change tally counted (routine.run>>=ExceptT.bindCont rest) machine=_
  rw [tally_bind,show routine.run.run machine=(.error reason,later) from hfirst]
  rfl

/-- A program without counted actions has tally zero. -/
theorem tally_zero (hactions : program.Actions fun tag _ => counted tag=false)
    (machine : Machine Block Memory) : tally counted program machine=0 := by
  induction program generalizing machine with
  | done result => rfl
  | read address next ih => exact ih _ (hactions _) _
  | write address block next ih => exact ih _ (hactions _) _
  | atomic tag action next ih =>
    rw [tally,hactions.1,ih _ (hactions.2 _)]
    rfl

/-- A run that performs no counted action keeps what the others keep. -/
theorem run_keeps_of_tally {View : Type} {view : Memory → View}
    (hactions : program.Actions fun tag action => counted tag=false → ∀ memory,view (action memory)=view memory)
    (htally : tally counted program machine=0) :
    view (program.run machine).2.memory=view machine.memory := by
  induction program generalizing machine with
  | done result => rfl
  | read address next ih => exact ih _ (hactions _) htally
  | write address block next ih =>
    rw [Program.run,ih _ (hactions _) htally,Machine.store]
    split <;> rfl
  | atomic tag action next ih =>
    rw [tally,Nat.add_eq_zero_iff] at htally
    have htag : counted tag=false := by
      by_contra hcounted
      rw [if_pos (Bool.not_eq_false _ ▸ hcounted)] at htally
      omega
    rw [Program.run,ih _ (hactions.2 _) htally.2]
    exact hactions.1 htag machine.memory

/-- A node of a sequence is one of its first part, unless that is done. -/
theorem Acts.bind {rest : α → Program Block Memory Tag β} {next : Program Block Memory Tag β}
    (hacts : Acts (program.bind rest) machine tag next later) :
    (∃ result,program=.done result ∧ Acts (rest result) machine tag next later) ∨
      ∃ left,next=left.bind rest ∧ Acts program machine tag left later := by
  cases program with
  | done result => exact Or.inl ⟨result,rfl,hacts⟩
  | read address next =>
    cases hacts
    exact Or.inr ⟨_,rfl,.read⟩
  | write address block next =>
    cases hacts
    exact Or.inr ⟨_,rfl,.write⟩
  | atomic tag action next =>
    cases hacts
    exact Or.inr ⟨_,rfl,.atomic⟩

section

variable (hacts : Acts program machine tag next later)
include hacts

/-- A node of the first part is a node of the sequence. -/
theorem Acts.bind_first (rest : α → Program Block Memory Tag β) :
    Acts (program.bind rest) machine tag (next.bind rest) later := by
  cases hacts with
  | read => exact .read
  | write => exact .write
  | atomic => exact .atomic

/-- Actions of what is left are actions of the program. -/
theorem Acts.actions (hactions : program.Actions allowed) : next.Actions allowed := by
  cases hacts with
  | read => exact hactions _
  | write => exact hactions _
  | atomic => exact hactions.2 _

/-- A node keeps the memory or performs one of the program's actions on it. -/
theorem Acts.memory (hactions : program.Actions allowed) : tag=none ∧ later.memory=machine.memory ∨
      ∃ performed action,tag=some performed ∧ allowed performed action ∧
        later.memory=action machine.memory := by
  cases hacts with
  | read => exact Or.inl ⟨rfl,rfl⟩
  | write =>
    refine Or.inl ⟨rfl,?_⟩
    rw [Machine.store]
    split <;> rfl
  | atomic => exact Or.inr ⟨_,_,rfl,hactions.1,rfl⟩

end

end

/-! ## Guarded calls -/

/-- A guard, the calls it protects and what they make visible. -/
structure Guard (Block Memory Tag Request Result View : Type) where
  /-- Whether the guard is taken. -/
  locked : Memory → Bool
  /-- Set or clear the guard. -/
  lock : Bool → Memory → Memory
  /-- The tag of the exchange that takes the guard. -/
  acquire : Tag
  /-- The tag of the store that drops it. -/
  release : Tag
  /-- What a call returns if the guard was taken. -/
  busy : Result
  /-- What a call does while it holds the guard. -/
  body : Request → Program Block Memory Tag Result
  /-- The tags of the actions that change the view. -/
  commits : Tag → Bool
  /-- The part of the memory that calls publish. -/
  view : Memory → View
  /-- How often a call with the given result commits. -/
  weight : Request → Result → ℕ

variable {Request Result View Task : Type}

section

variable (guard : Guard Block Memory Tag Request Result View)

/-- Drop the guard and return. -/
def Guard.closing (result : Result) : Program Block Memory Tag Result :=
  .atomic guard.release (guard.lock false) fun _ => .done result

/-- A whole call. -/
def Guard.call (request : Request) : Program Block Memory Tag Result :=
  .atomic guard.acquire (guard.lock true) fun memory =>
    if guard.locked memory then .done guard.busy else (guard.body request).bind guard.closing

/-- What bodies may do with the guard and the view. -/
def Guard.Allowed (tag : Tag) (action : Memory → Memory) : Prop :=
  tag≠guard.acquire ∧ tag≠guard.release ∧ (∀ memory,guard.locked (action memory)=guard.locked memory) ∧
    (guard.commits tag=false → ∀ memory,guard.view (action memory)=guard.view memory)

/-- The guard is a flag that bodies do not touch, and the view changes by
commits only. -/
structure Guard.Lawful : Prop where
  /-- The flag is what it was set to. -/
  locked_lock : ∀ active memory,guard.locked (guard.lock active memory)=active
  /-- Setting a set flag changes nothing. -/
  lock_same : ∀ memory,guard.lock (guard.locked memory) memory=memory
  /-- The flag is not part of the view. -/
  view_lock : ∀ active memory,guard.view (guard.lock active memory)=guard.view memory
  /-- The tags of the exchange and the drop differ. -/
  acquire_ne : guard.acquire≠guard.release
  /-- Taking the guard is no commit. -/
  acquire_silent : guard.commits guard.acquire=false
  /-- Dropping the guard is no commit. -/
  release_silent : guard.commits guard.release=false
  /-- Bodies leave the guard alone. -/
  body_allowed : ∀ request,(guard.body request).Actions guard.Allowed
  /-- A call that found the guard taken commits nothing. -/
  weight_busy : ∀ request,guard.weight request guard.busy=0
  /-- A call commits at most once. -/
  weight_le : ∀ request result,guard.weight request result≤1
  /-- The result of a body tells how often it commits. -/
  weight_body : ∀ request machine,tally guard.commits (guard.body request) machine=
    guard.weight request ((guard.body request).run machine).1

end

/-- A call in progress. -/
structure Call (Block Memory Tag Request Result : Type) where
  /-- The number of the call. -/
  id : ℕ
  /-- What the task asked for. -/
  request : Request
  /-- The nodes still to perform. -/
  rest : Program Block Memory Tag Result

/-- A call that returned. -/
structure Entry (Request Result : Type) where
  /-- The number of the call. -/
  id : ℕ
  /-- What the task asked for. -/
  request : Request
  /-- What it returned. -/
  result : Result

/-- Tasks that share a machine. -/
structure World (Block Memory Tag Request Result Task : Type) where
  /-- The shared machine. -/
  machine : Machine Block Memory
  /-- The call each task is inside of. -/
  calls : Task → Option (Call Block Memory Tag Request Result)
  /-- The tasks that were killed. -/
  terminated : Task → Bool
  /-- The task whose exchange succeeded and whose drop has not run. -/
  holder : Option Task
  /-- The calls that committed, in the order of their commits. -/
  committed : List (ℕ×Request)
  /-- The calls that returned, in that order. -/
  returned : List (Entry Request Result)
  /-- The number of the next call. -/
  count : ℕ

/-- No task is inside a call. -/
def World.start (Tag Request Result Task : Type) (machine : Machine Block Memory) :
    World Block Memory Tag Request Result Task :=
  ⟨machine,fun _ => none,fun _ => false,none,[],[],0⟩

section

variable (guard : Guard Block Memory Tag Request Result View)
  (world : World Block Memory Tag Request Result Task) (task : Task)

/-- Who holds the guard after a node of `task`. -/
def Guard.holderAfter [DecidableEq Tag] (memory : Memory) (task : Task) (tag : Option Tag)
    (holder : Option Task) : Option Task :=
  if tag=some guard.acquire then if guard.locked memory then holder else some task
  else if tag=some guard.release then none
  else holder

/-- The world after `task` performed a node of its call. A finished call
returns. -/
def World.after [DecidableEq Tag] [DecidableEq Task] (tag : Option Tag)
    (machine : Machine Block Memory) (call : Call Block Memory Tag Request Result) :
    World Block Memory Tag Request Result Task where
  machine := machine
  calls := Function.update world.calls task (match finished call.rest with
    | some _ => none
    | none => some call)
  terminated := world.terminated
  holder := guard.holderAfter world.machine.memory task tag world.holder
  committed := world.committed++List.replicate (tallyTag guard.commits tag) (call.id,call.request)
  returned := match finished call.rest with
    | some result => world.returned++[⟨call.id,call.request,result⟩]
    | none => world.returned
  count := world.count

/-- The world after `task` entered a call. -/
def World.entered [DecidableEq Task] (request : Request) : World Block Memory Tag Request Result Task :=
  {world with
    calls := Function.update world.calls task (some ⟨world.count,request,guard.call request⟩)
    count := world.count+1}

end

/-- One step of the tasks. A live task may enter a call or perform its next
node; a task may be killed when `mayKill` allows it. -/
inductive Step [DecidableEq Tag] [DecidableEq Task]
    (guard : Guard Block Memory Tag Request Result View)
    (mayKill : World Block Memory Tag Request Result Task → Task → Prop) :
    World Block Memory Tag Request Result Task → World Block Memory Tag Request Result Task →
      Prop where
  /-- Enter a call. -/
  | enter {world : World Block Memory Tag Request Result Task} (task : Task) (request : Request)
      (halive : world.terminated task=false) (houtside : world.calls task=none) :
      Step guard mayKill world (world.entered guard task request)
  /-- Perform one node. -/
  | act {world : World Block Memory Tag Request Result Task} (task : Task) {id : ℕ}
      {request : Request} {rest next : Program Block Memory Tag Result} {tag : Option Tag}
      {machine : Machine Block Memory} (halive : world.terminated task=false)
      (hcall : world.calls task=some ⟨id,request,rest⟩)
      (hacts : Acts rest world.machine tag next machine) :
      Step guard mayKill world (world.after guard task tag machine ⟨id,request,next⟩)
  /-- Kill a task. -/
  | kill {world : World Block Memory Tag Request Result Task} (task : Task)
      (hmay : mayKill world task) :
      Step guard mayKill world {world with
        terminated := Function.update world.terminated task true}

/-! ## One call after another -/

section

section

variable (guard : Guard Block Memory Tag Request Result View)
  (keep : Machine Block Memory → Prop) (start : Machine Block Memory)
  (world : World Block Memory Tag Request Result Task)

/-- The calls that returned, run one after another on the starting machine:
those that found the guard taken did nothing. `keep` is what every machine
of the run satisfies. -/
inductive Serial : List (Entry Request Result) → Machine Block Memory → Prop where
  /-- No call returned. -/
  | nil : Serial [] start
  /-- A call found the guard taken. -/
  | refused {entries : List (Entry Request Result)} {machine : Machine Block Memory}
      (hserial : Serial entries machine) (id : ℕ) (request : Request) :
      Serial (entries++[⟨id,request,guard.busy⟩]) machine
  /-- A call got the guard. -/
  | performed {entries : List (Entry Request Result)} {machine later : Machine Block Memory}
      {result : Result} (hserial : Serial entries machine) (id : ℕ)
      (request : Request) (hfree : guard.locked machine.memory=false)
      (hrun : (guard.call request).run machine=(result,later)) (hkeep : keep later) :
      Serial (entries++[⟨id,request,result⟩]) later

/-- The commits of the calls that returned. -/
def Guard.commitsOf (entries : List (Entry Request Result)) : List (ℕ×Request) :=
  entries.flatMap fun entry =>
    List.replicate (guard.weight entry.request entry.result) (entry.id,entry.request)

/-- No task holds the guard. -/
structure Free : Prop where
  /-- The guard has no holder. -/
  holder : world.holder=none
  /-- The flag is clear. -/
  unlocked : guard.locked world.machine.memory=false
  /-- Every call has yet to try for the guard. -/
  waiting : ∀ task call,world.calls task=some call → call.rest=guard.call call.request
  /-- The machine is the one the returned calls lead to. -/
  serial : Serial guard keep start world.returned world.machine
  /-- The commits are those of the returned calls. -/
  committed : world.committed=guard.commitsOf world.returned

/-- A live task holds the guard; `before` is the machine when it took it,
`left` what is left of its body and `done` how often it committed. -/
structure Held (task : Task) (call : Call Block Memory Tag Request Result)
    (left : Program Block Memory Tag Result)
    (before : Machine Block Memory) (done : ℕ) : Prop where
  /-- The holder. -/
  holder : world.holder=some task
  /-- The holder is alive. -/
  alive : world.terminated task=false
  /-- The holder is inside a call. -/
  inside : world.calls task=some call
  /-- The call has its body's rest and the drop to perform. -/
  rest : call.rest=left.bind guard.closing
  /-- The body's rest leaves the guard alone. -/
  allowed : left.Actions guard.Allowed
  /-- The flag is set. -/
  locked : guard.locked world.machine.memory=true
  /-- Every other call has yet to try for the guard. -/
  waiting : ∀ other≠task,∀ call,world.calls other=some call → call.rest=guard.call call.request
  /-- The returned calls lead to the machine at the exchange. -/
  serial : Serial guard keep start world.returned before
  /-- The flag was clear then. -/
  unlocked : guard.locked before.memory=false
  /-- The rest of the call leads where the whole call leads. -/
  run : call.rest.run world.machine=(guard.call call.request).run before
  /-- The commits are those of the returned calls and of the holder. -/
  committed : world.committed=guard.commitsOf world.returned++
    List.replicate done (call.id,call.request)
  /-- The rest of the call has the remaining commits. -/
  remaining : done+tally guard.commits call.rest world.machine=
    tally guard.commits (guard.call call.request) before
  /-- Before its first commit the view is as it was. -/
  unseen : done=0 → guard.view world.machine.memory=guard.view before.memory

/-- Every call has a number of its own. -/
structure Numbered : Prop where
  /-- Numbers in use are below the counter. -/
  below : ∀ task call,world.calls task=some call → call.id<world.count
  /-- Calls in progress have distinct numbers. -/
  distinct : ∀ first second call other,world.calls first=some call →
    world.calls second=some other → call.id=other.id → first=second
  /-- Returned calls are no longer in progress. -/
  past : ∀ entry∈world.returned,entry.id<world.count ∧
    ∀ task call,world.calls task=some call → call.id≠entry.id
  /-- Returned calls have distinct numbers. -/
  nodup : (world.returned.map Entry.id).Nodup

/-- The guard is free or held by one live task. -/
def Guarded : Prop :=
  Free guard keep start world ∨
    ∃ task call left before done,Held guard keep start world task call left before done

end

variable {guard : Guard Block Memory Tag Request Result View}
  {world later : World Block Memory Tag Request Result Task}
  {keep : Machine Block Memory → Prop} {start machine : Machine Block Memory}
  {task : Task} {id : ℕ} {request : Request} {rest next : Program Block Memory Tag Result}
  {tag : Option Tag}

/-- The exchange that starts a call. -/
theorem acts_call {before : Machine Block Memory}
    (hacts : Acts (guard.call request) before tag next machine) :
    tag=some guard.acquire ∧
      next=(if guard.locked before.memory then .done guard.busy
        else (guard.body request).bind guard.closing) ∧
      machine={before with memory := guard.lock true before.memory} := by
  cases hacts
  exact ⟨rfl,rfl,rfl⟩

/-- A call that finds the guard taken returns at once. -/
theorem run_busy {before : Machine Block Memory} (hlocked : guard.locked before.memory=true)
    (request : Request) : ((guard.call request).run before).1=guard.busy := by
  rw [Guard.call,Program.run,hlocked]
  rfl

/-- A call that holds the guard is not finished. -/
theorem finished_closing (left : Program Block Memory Tag Result) :
    finished (left.bind guard.closing)=none := by
  cases left <;> rfl

theorem commitsOf_append (entries : List (Entry Request Result)) (entry : Entry Request Result) :
    guard.commitsOf (entries++[entry])=guard.commitsOf entries++
      List.replicate (guard.weight entry.request entry.result) (entry.id,entry.request) := by
  rw [Guard.commitsOf,List.flatMap_append,List.flatMap_singleton]
  rfl

/-- The result of a call tells how often it commits. -/
theorem tally_call (hlaw : guard.Lawful) {before : Machine Block Memory}
    (hfree : guard.locked before.memory=false) (request : Request) :
    tally guard.commits (guard.call request) before=
      guard.weight request ((guard.call request).run before).1 := by
  have hclosing : ∀ result machine,tally guard.commits (guard.closing result) machine=0 := by
    intro result machine
    rw [Guard.closing,tally,hlaw.release_silent]
    rfl
  have htally := tally_bind guard.commits (guard.body request) guard.closing
    {before with memory := guard.lock true before.memory}
  have hrun := Program.run_bind (guard.body request) guard.closing
    {before with memory := guard.lock true before.memory}
  rw [hclosing,hlaw.weight_body] at htally
  rw [Guard.call,tally,Program.run,hlaw.acquire_silent,hfree]
  change 0+tally guard.commits (guard.body request>>=guard.closing) _=
    guard.weight request (Program.run (guard.body request>>=guard.closing) _).1
  rw [htally,hrun]
  exact Nat.zero_add _

/-! ### What the order says -/

/-- The guard is taken only while a live task is inside a call. -/
theorem Guarded.unlocked (hguarded : Guarded guard keep start world)
    (houtside : ∀ task,world.terminated task=false → world.calls task=none) :
    guard.locked world.machine.memory=false := by
  rcases hguarded with hfree|⟨holder,call,left,before,done,hheld⟩
  · exact hfree.unlocked
  · cases (houtside holder hheld.alive).symm.trans hheld.inside

/-- While no task holds the guard, the machine is the one the returned calls
lead to. -/
theorem Guarded.settled (hguarded : Guarded guard keep start world)
    (hunlocked : guard.locked world.machine.memory=false) : Free guard keep start world := by
  rcases hguarded with hfree|⟨holder,call,left,before,done,hheld⟩
  · exact hfree
  · cases hunlocked.symm.trans hheld.locked

/-- At every moment the view is what the committed calls lead to, one after
another. -/
theorem Guarded.explained (hlaw : guard.Lawful) (hview : ∀ first second : Machine Block Memory,
      guard.view first.memory=guard.view second.memory → keep first → keep second)
    (hkeep : keep world.machine) (hguarded : Guarded guard keep start world) :
    ∃ entries last,Serial guard keep start entries last ∧
      guard.view world.machine.memory=guard.view last.memory ∧
      world.committed=guard.commitsOf entries := by
  rcases hguarded with hfree|⟨holder,call,left,before,done,hheld⟩
  · exact ⟨world.returned,world.machine,hfree.serial,rfl,hfree.committed⟩
  · rcases Nat.eq_zero_or_pos done with rfl|hpos
    · refine ⟨world.returned,before,hheld.serial,hheld.unseen rfl,?_⟩
      rw [hheld.committed,List.replicate_zero,List.append_nil]
    · -- The call committed already, so the rest of it keeps the view.
      have hweight := tally_call hlaw hheld.unlocked call.request
      have hle := hlaw.weight_le call.request ((guard.call call.request).run before).1
      have hremaining := hheld.remaining
      have hactions : call.rest.Actions fun tag action => guard.commits tag=false →
          ∀ memory,guard.view (action memory)=guard.view memory := by
        rw [hheld.rest]
        exact Program.actions_bind (Program.actions_mono (fun _ _ h => h.2.2.2) hheld.allowed)
          fun result => ⟨fun _ => hlaw.view_lock false,fun _ => trivial⟩
      have hnone : tally guard.commits call.rest world.machine=0 := by omega
      have hsame := run_keeps_of_tally hactions hnone
      rw [hheld.run] at hsame
      rcases hfinal : (guard.call call.request).run before with ⟨result,last⟩
      rw [hfinal] at hweight hle hsame
      refine ⟨_,last,hheld.serial.performed call.id call.request hheld.unlocked hfinal
        (hview _ _ hsame.symm hkeep),hsame.symm,?_⟩
      have hdone : done=guard.weight call.request result := by
        rw [← hweight]
        omega
      rw [commitsOf_append,hheld.committed,hdone]

variable {other : Task} {number : ℕ} {result : Result}

theorem mem_commitsOf {entries : List (Entry Request Result)} :
    (number,request)∈guard.commitsOf entries ↔ ∃ entry∈entries,entry.id=number ∧
      entry.request=request ∧ guard.weight entry.request entry.result≠0 := by
  simp only [Guard.commitsOf,List.mem_flatMap,List.mem_replicate,Prod.mk.injEq]
  constructor
  · rintro ⟨entry,hentry,hweight,rfl,rfl⟩
    exact ⟨entry,hentry,rfl,rfl,hweight⟩
  · rintro ⟨entry,hentry,rfl,rfl,hweight⟩
    exact ⟨entry,hentry,hweight,rfl,rfl⟩

/-- What committed has returned, or is the holder's call. -/
theorem Guarded.mem_committed (hguarded : Guarded guard keep start world)
    (hmem : (number,request)∈world.committed) :
    (∃ entry∈world.returned,entry.id=number ∧ entry.request=request ∧
      guard.weight entry.request entry.result≠0) ∨
      ∃ task call,world.holder=some task ∧ world.calls task=some call ∧ call.id=number ∧
        call.request=request := by
  rcases hguarded with hfree|⟨holder,call,left,before,done,hheld⟩
  · rw [hfree.committed] at hmem
    exact Or.inl (mem_commitsOf.mp hmem)
  · rw [hheld.committed,List.mem_append,List.mem_replicate] at hmem
    rcases hmem with hreturned|⟨-,hsame⟩
    · exact Or.inl (mem_commitsOf.mp hreturned)
    · cases hsame
      exact Or.inr ⟨holder,call,hheld.holder,hheld.inside,rfl,rfl⟩

/-- A returned call committed exactly if its result says so. -/
theorem Guarded.committed_iff (hnumbered : Numbered world)
    (hguarded : Guarded guard keep start world) {entry : Entry Request Result}
    (hentry : entry∈world.returned) :
    (entry.id,entry.request)∈world.committed ↔ guard.weight entry.request entry.result≠0 := by
  constructor
  · intro hmem
    rcases hguarded.mem_committed hmem with ⟨found,hfound,hid,-,hweight⟩|⟨task,call,-,hcall,hid,-⟩
    · rw [← List.inj_on_of_nodup_map hnumbered.nodup hfound hentry hid]
      exact hweight
    · exact absurd hid ((hnumbered.past entry hentry).2 task call hcall)
  · intro hweight
    have hmem := mem_commitsOf.mpr ⟨entry,hentry,rfl,rfl,hweight⟩
    rcases hguarded with hfree|⟨holder,call,left,before,done,hheld⟩
    · rw [hfree.committed]
      exact hmem
    · rw [hheld.committed]
      exact List.mem_append_left _ hmem

/-- No call commits twice. -/
theorem Guarded.nodup_committed (hlaw : guard.Lawful) (hnumbered : Numbered world)
    (hguarded : Guarded guard keep start world) : (world.committed.map Prod.fst).Nodup := by
  have hsmall : ∀ count≤1,∀ number : ℕ,(List.replicate count number).Sublist [number] := by
    intro count hcount number
    exact List.replicate_sublist_iff.mpr (by simpa using hcount)
  have hsublist : ∀ entries : List (Entry Request Result),
      ((guard.commitsOf entries).map Prod.fst).Sublist (entries.map Entry.id) := by
    intro entries
    induction entries with
    | nil => exact List.Sublist.refl _
    | cons entry entries ih =>
      rw [Guard.commitsOf,List.flatMap_cons,List.map_append,List.map_replicate,List.map_cons]
      exact (hsmall _ (hlaw.weight_le _ _) entry.id).append ih
  rcases hguarded with hfree|⟨holder,call,left,before,done,hheld⟩
  · rw [hfree.committed]
    exact hnumbered.nodup.sublist (hsublist world.returned)
  · have hweight := tally_call hlaw hheld.unlocked call.request
    have hle := hlaw.weight_le call.request ((guard.call call.request).run before).1
    have hremaining := hheld.remaining
    rw [hheld.committed,List.map_append,List.map_replicate]
    refine List.Nodup.sublist ((hsublist world.returned).append (hsmall done (by omega) call.id)) ?_
    refine hnumbered.nodup.append (List.nodup_singleton _) ?_
    rw [List.disjoint_singleton]
    intro hmem
    obtain ⟨entry,hentry,hsame⟩ := List.mem_map.mp hmem
    exact (hnumbered.past entry hentry).2 holder call hheld.inside hsame.symm

/-! ### Steps keep the order -/

variable [DecidableEq Task]

/-- A step of `task` that gives it no number of another call, and returns at
most its own call, keeps all numbers in order. -/
theorem Numbered.update (hnumbered : Numbered world) (hcount : world.count ≤ later.count)
    (hothers : ∀ other≠task,later.calls other=world.calls other)
    (hmine : ∀ found,later.calls task=some found → found.id<later.count ∧
      (∀ other≠task,∀ call,world.calls other=some call → call.id≠found.id) ∧
      ∀ entry∈world.returned,found.id≠entry.id)
    (hreturned : later.returned=world.returned ∨ later.calls task=none ∧ ∃ call entry,
      world.calls task=some call ∧ entry.id=call.id ∧ later.returned=world.returned++[entry]) :
    Numbered later := by
  have hpast : ∀ entry∈world.returned,entry.id<later.count ∧
      ∀ other found,later.calls other=some found → found.id≠entry.id := by
    intro entry hentry
    obtain ⟨hbelow,hnone⟩ := hnumbered.past entry hentry
    refine ⟨hbelow.trans_le hcount,fun other found hfound => ?_⟩
    by_cases hother : other=task
    · exact (hmine found (hother ▸ hfound)).2.2 entry hentry
    · exact hnone other found ((hothers other hother).symm.trans hfound)
  refine ⟨fun other found hfound => ?_,fun first second found other hfirst hsecond hsame => ?_,?_,?_⟩
  · by_cases hother : other=task
    · exact (hmine found (hother ▸ hfound)).1
    · rw [hothers other hother] at hfound
      exact (hnumbered.below other found hfound).trans_le hcount
  · by_cases htask : first=task <;> by_cases htask' : second=task
    · exact htask.trans htask'.symm
    · rw [hothers second htask'] at hsecond
      exact absurd hsame.symm ((hmine found (htask ▸ hfirst)).2.1 second htask' other hsecond)
    · rw [hothers first htask] at hfirst
      exact absurd hsame ((hmine other (htask' ▸ hsecond)).2.1 first htask found hfirst)
    · rw [hothers first htask] at hfirst
      rw [hothers second htask'] at hsecond
      exact hnumbered.distinct first second found other hfirst hsecond hsame
  · rcases hreturned with hsame|⟨hnone,call,entry,hcall,hid,hadded⟩
    · rwa [hsame]
    · rw [hadded,List.forall_mem_append,List.forall_mem_singleton,hid]
      refine ⟨hpast,(hnumbered.below task call hcall).trans_le hcount,fun other found hfound hsame => ?_⟩
      by_cases hother : other=task
      · cases hnone.symm.trans (hother ▸ hfound)
      · rw [hothers other hother] at hfound
        exact hother (hnumbered.distinct other task found call hfound hcall hsame)
  · rcases hreturned with hsame|⟨-,call,entry,hcall,hid,hadded⟩
    · rw [hsame]
      exact hnumbered.nodup
    · rw [hadded,List.map_append,List.map_singleton,hid]
      refine hnumbered.nodup.append (List.nodup_singleton _) (List.disjoint_singleton.mpr fun hmem => ?_)
      obtain ⟨found,hfound,hsame⟩ := List.mem_map.mp hmem
      exact (hnumbered.past found hfound).2 task call hcall hsame.symm

/-- A task that is alive is not the one just killed. -/
theorem ne_of_alive {terminated : Task → Bool}
    (halive : Function.update terminated task true other=false) : other≠task := by
  rintro rfl
  rw [Function.update_self] at halive
  cases halive

theorem entered_calls_other (hother : other≠task) :
    (world.entered guard task request).calls other=world.calls other :=
  Function.update_of_ne hother _ _

/-- A call that was just entered has yet to try for the guard. -/
theorem entered_waiting {call : Call Block Memory Tag Request Result}
    (hcall : (world.entered guard task request).calls other=some call) :
    call.rest=guard.call call.request ∨ other≠task ∧ world.calls other=some call := by
  by_cases hother : other=task
  · simp only [hother,World.entered,Function.update_self] at hcall
    cases hcall
    exact Or.inl rfl
  · rw [entered_calls_other hother] at hcall
    exact Or.inr ⟨hother,hcall⟩

/-! ### A guard without a holder -/

/-- The flag is set and no live task will clear it. -/
structure Orphaned (guard : Guard Block Memory Tag Request Result View)
    (world : World Block Memory Tag Request Result Task) : Prop where
  /-- The flag is set. -/
  locked : guard.locked world.machine.memory=true
  /-- Every call of a live task has yet to try for the guard. -/
  waiting : ∀ task call,world.terminated task=false → world.calls task=some call →
    call.rest=guard.call call.request

/-- Killing the holder leaves the guard without one. -/
theorem Held.kill {holder : Task} {call : Call Block Memory Tag Request Result}
    {left : Program Block Memory Tag Result} {before : Machine Block Memory} {done : ℕ}
    (hheld : Held guard keep start world holder call left before done) :
    Orphaned guard {world with terminated := Function.update world.terminated holder true} := by
  refine ⟨hheld.locked,fun other found hother hfound => ?_⟩
  exact hheld.waiting other (ne_of_alive hother) found hfound

variable [DecidableEq Tag] {mayKill : World Block Memory Tag Request Result Task → Task → Prop}

theorem after_calls_other (hother : other≠task) {call : Call Block Memory Tag Request Result} :
    (world.after guard task tag machine call).calls other=world.calls other :=
  Function.update_of_ne hother _ _

/-- A call that returns is not in progress any more. -/
theorem after_returned {call found : Call Block Memory Tag Request Result}
    (hfinished : finished call.rest=some result)
    (hfound : (world.after guard task tag machine call).calls other=some found) :
    other≠task ∧ world.calls other=some found := by
  by_cases hother : other=task
  · simp only [hother,World.after,hfinished,Function.update_self] at hfound
    cases hfound
  · rw [after_calls_other hother] at hfound
    exact ⟨hother,hfound⟩

/-- Every step keeps all numbers in order. -/
theorem Numbered.step (hnumbered : Numbered world) (hstep : Step guard mayKill world later) :
    Numbered later := by
  cases hstep with
  | enter task request halive houtside =>
    refine hnumbered.update (Nat.le_succ _) (fun _ => entered_calls_other) (fun found hfound => ?_)
      (Or.inl rfl)
    simp only [World.entered,Function.update_self] at hfound
    cases hfound
    exact ⟨Nat.lt_succ_self _,fun other _ call hcall => (hnumbered.below other call hcall).ne,
      fun entry hentry => (hnumbered.past entry hentry).1.ne'⟩
  | @act task id request rest next tag machine halive hcall hacts =>
    refine hnumbered.update le_rfl (fun _ h => after_calls_other h) (fun found hfound => ?_) ?_
    · have hid : found.id=id := by
        simp only [World.after,Function.update_self] at hfound
        split at hfound <;> cases hfound
        rfl
      rw [hid]
      exact ⟨hnumbered.below task _ hcall,
        fun other hother call hfound hsame => hother (hnumbered.distinct other task call _ hfound
          hcall hsame),fun entry hentry => (hnumbered.past entry hentry).2 task _ hcall⟩
    · rcases hfinished : finished next with _|result <;> simp only [World.after,hfinished]
      · exact Or.inl trivial
      · exact Or.inr ⟨Function.update_self _ _ _,_,_,hcall,rfl,rfl⟩
  | kill task hmay => exact ⟨hnumbered.below,hnumbered.distinct,hnumbered.past,hnumbered.nodup⟩

/-- With the guard free, the first node of a call takes it. -/
theorem Free.act (hlaw : guard.Lawful) (hfree : Free guard keep start world)
    (halive : world.terminated task=false) (hcall : world.calls task=some ⟨id,request,rest⟩)
    (hacts : Acts rest world.machine tag next machine) :
    Held guard keep start (world.after guard task tag machine ⟨id,request,next⟩) task
      ⟨id,request,next⟩ (guard.body request) world.machine 0 := by
  have hrest : rest=guard.call request := hfree.waiting task _ hcall
  subst hrest
  obtain ⟨htag,hnext,hmachine⟩ := acts_call hacts
  rw [hfree.unlocked] at hnext
  have hunfinished : finished next=none := by
    rw [hnext]
    exact finished_closing _
  have hsilent : tallyTag guard.commits tag=0 := by
    rw [htag,tallyTag,hlaw.acquire_silent]
    rfl
  constructor
  case holder =>
    rw [World.after,Guard.holderAfter,htag,if_pos rfl,hfree.unlocked]
    rfl
  case alive => exact halive
  case inside => simp only [World.after,hunfinished,Function.update_self]
  case rest => exact hnext
  case allowed => exact hlaw.body_allowed request
  case locked =>
    rw [World.after,hmachine]
    exact hlaw.locked_lock true _
  case waiting =>
    intro other hother call hfound
    rw [after_calls_other hother] at hfound
    exact hfree.waiting other call hfound
  case serial =>
    simp only [World.after,hunfinished]
    exact hfree.serial
  case unlocked => exact hfree.unlocked
  case run => exact hacts.run.symm
  case committed =>
    simp only [World.after,hunfinished,hsilent,List.replicate_zero,List.append_nil]
    exact hfree.committed
  case remaining =>
    rw [hacts.tally,hsilent]
    rfl
  case unseen =>
    intro
    rw [World.after,hmachine]
    exact hlaw.view_lock true _

section

variable {holder : Task} {call : Call Block Memory Tag Request Result}
  {left : Program Block Memory Tag Result} {before : Machine Block Memory} {done : ℕ}

/-- While the guard is held, any other call finds it taken and returns. -/
theorem Held.act_other (hlaw : guard.Lawful)
    (hheld : Held guard keep start world holder call left before done) (hother : task≠holder)
    (hcall : world.calls task=some ⟨id,request,rest⟩)
    (hacts : Acts rest world.machine tag next machine) :
    Held guard keep start (world.after guard task tag machine ⟨id,request,next⟩) holder call left
      before done := by
  have hrest : rest=guard.call request := hheld.waiting task hother _ hcall
  subst hrest
  obtain ⟨htag,hnext,hmachine⟩ := acts_call hacts
  rw [hheld.locked,if_pos rfl] at hnext
  have hsame : machine=world.machine := by
    have hlock := hlaw.lock_same world.machine.memory
    rw [hheld.locked] at hlock
    rw [hmachine,hlock]
  have hsilent : tallyTag guard.commits tag=0 := by
    rw [htag,tallyTag,hlaw.acquire_silent]
    rfl
  have hreturned : (world.after guard task tag machine ⟨id,request,next⟩).returned=
      world.returned++[⟨id,request,guard.busy⟩] := by
    rw [World.after,hnext]
    rfl
  subst hsame
  refine {hheld with holder := ?_,inside := ?_,waiting := ?_,serial := ?_,committed := ?_}
  · rw [World.after,Guard.holderAfter,htag,if_pos rfl,hheld.locked]
    exact hheld.holder
  · exact (after_calls_other hother.symm).trans hheld.inside
  · intro other hholder found hfound
    exact hheld.waiting other hholder found (after_returned (by rw [hnext]; rfl) hfound).2
  · rw [hreturned]
    exact hheld.serial.refused id request
  · rw [hreturned,commitsOf_append,hlaw.weight_busy,List.replicate_zero,List.append_nil]
    simp only [World.after,hsilent,List.replicate_zero,List.append_nil]
    exact hheld.committed

/-- The holder performs a node of its body. -/
theorem Held.act_body (hheld : Held guard keep start world holder call left before done)
    {more : Program Block Memory Tag Result} (hacts : Acts left world.machine tag more machine) :
    Held guard keep start (world.after guard holder tag machine ⟨call.id,call.request,
      more.bind guard.closing⟩) holder ⟨call.id,call.request,more.bind guard.closing⟩ more before
      (done+tallyTag guard.commits tag) := by
  have hcall := hacts.bind_first guard.closing
  rw [← hheld.rest] at hcall
  have hmemory := hacts.memory hheld.allowed
  constructor
  case holder =>
    rw [World.after,Guard.holderAfter]
    rcases hmemory with ⟨rfl,-⟩|⟨performed,action,rfl,⟨hacquire,hrelease,-,-⟩,-⟩
    · exact hheld.holder
    · rw [if_neg (fun h => hacquire (Option.some.inj h)),
        if_neg (fun h => hrelease (Option.some.inj h))]
      exact hheld.holder
  case alive => exact hheld.alive
  case inside =>
    simp only [World.after,finished_closing,Function.update_self]
  case rest => rfl
  case allowed => exact hacts.actions hheld.allowed
  case locked =>
    rw [World.after]
    rcases hmemory with ⟨-,hsame⟩|⟨performed,action,-,⟨-,-,hlock,-⟩,hsame⟩
    · rw [hsame]
      exact hheld.locked
    · rw [hsame,hlock]
      exact hheld.locked
  case waiting =>
    intro other hother found hfound
    rw [after_calls_other hother] at hfound
    exact hheld.waiting other hother found hfound
  case serial =>
    simp only [World.after,finished_closing]
    exact hheld.serial
  case unlocked => exact hheld.unlocked
  case run => exact hcall.run.symm.trans hheld.run
  case committed =>
    simp only [World.after,finished_closing]
    rw [hheld.committed,List.append_assoc,List.replicate_append_replicate]
  case remaining =>
    have htally : tally guard.commits call.rest world.machine=_ := hcall.tally
    have hremaining := hheld.remaining
    dsimp only [World.after]
    omega
  case unseen =>
    intro hnone
    rw [Nat.add_eq_zero_iff] at hnone
    rw [← hheld.unseen hnone.1,World.after]
    rcases hmemory with ⟨-,hsame⟩|⟨performed,action,rfl,⟨-,-,-,hview⟩,hsame⟩
    · rw [hsame]
    · have hsilent : guard.commits performed=false := by
        by_contra hcommits
        rw [tallyTag,if_pos (Bool.not_eq_false _ ▸ hcommits)] at hnone
        omega
      rw [hsame]
      exact hview hsilent _

/-- The holder drops the guard and returns. -/
theorem Held.act_drop (hlaw : guard.Lawful)
    (hheld : Held guard keep start world holder call left before done)
    (hleft : left=.done result) (hacts : Acts (guard.closing result) world.machine tag next machine)
    (hkeep : keep machine) :
    Free guard keep start (world.after guard holder tag machine ⟨call.id,call.request,next⟩) := by
  have hrest : call.rest=guard.closing result := by
    rw [hheld.rest,hleft]
    rfl
  have hrun := hheld.run
  have hremaining := hheld.remaining
  rw [tally_call hlaw hheld.unlocked,← hrun,hrest,hacts.tally,hacts.run] at hremaining
  rw [hrest,hacts.run] at hrun
  cases hacts
  have hreturned : (world.after guard holder (some guard.release) {world.machine with
      memory := guard.lock false world.machine.memory} ⟨call.id,call.request,.done result⟩).returned=
      world.returned++[⟨call.id,call.request,result⟩] := rfl
  have hsilent : tallyTag guard.commits (some guard.release)=0 := by
    rw [tallyTag,hlaw.release_silent]
    rfl
  rw [hsilent] at hremaining
  constructor
  case holder =>
    rw [World.after,Guard.holderAfter,if_neg (fun h => hlaw.acquire_ne (Option.some.inj h).symm),
      if_pos rfl]
  case unlocked => exact hlaw.locked_lock false _
  case waiting =>
    intro other found hfound
    obtain ⟨hother,hfound⟩ := after_returned rfl hfound
    exact hheld.waiting other hother found hfound
  case serial =>
    rw [hreturned]
    exact hheld.serial.performed call.id call.request hheld.unlocked hrun.symm hkeep
  case committed =>
    have hdone : done=guard.weight call.request result := by
      simp only [tally,Program.run] at hremaining
      omega
    rw [hreturned,commitsOf_append,← hdone]
    simp only [World.after,hsilent,List.replicate_zero,List.append_nil]
    exact hheld.committed

end

/-- Every step keeps the guard in order, if it kills no holder. -/
theorem Guarded.step (hlaw : guard.Lawful)
    (hkill : ∀ world task,mayKill world task → world.holder≠some task)
    (hguarded : Guarded guard keep start world) (hstep : Step guard mayKill world later)
    (hkeep : keep later.machine) : Guarded guard keep start later := by
  cases hstep with
  | enter task request halive houtside =>
    rcases hguarded with hfree|⟨holder,call,left,before,done,hheld⟩
    · refine Or.inl ⟨hfree.holder,hfree.unlocked,fun other call hcall => ?_,hfree.serial,
        hfree.committed⟩
      exact (entered_waiting hcall).elim (fun h => h) fun h => hfree.waiting other call h.2
    · have hother : holder≠task := by
        rintro rfl
        cases houtside.symm.trans hheld.inside
      refine Or.inr ⟨holder,call,left,before,done,{hheld with inside := ?_,waiting := ?_}⟩
      · exact (Function.update_of_ne hother _ _).trans hheld.inside
      · intro other hholder found hfound
        exact (entered_waiting hfound).elim (fun h => h) fun h =>
          hheld.waiting other hholder found h.2
  | @act task id request rest next tag machine halive hcall hacts =>
    rcases hguarded with hfree|⟨holder,call,left,before,done,hheld⟩
    · exact Or.inr ⟨task,_,_,_,_,hfree.act hlaw halive hcall hacts⟩
    · by_cases hother : task=holder
      · subst hother
        have hsame := hheld.inside.symm.trans hcall
        cases hsame
        have hrest := hheld.rest
        dsimp only at hrest
        rw [hrest] at hacts
        rcases hacts.bind with ⟨result,hleft,hdrop⟩|⟨more,rfl,hbody⟩
        · exact Or.inl (hheld.act_drop hlaw hleft hdrop hkeep)
        · exact Or.inr ⟨task,_,more,before,_,hheld.act_body hbody⟩
      · exact Or.inr ⟨holder,call,left,before,done,hheld.act_other hlaw hother hcall hacts⟩
  | kill task hmay =>
    rcases hguarded with hfree|⟨holder,call,left,before,done,hheld⟩
    · exact Or.inl {hfree with}
    · refine Or.inr ⟨holder,call,left,before,done,{hheld with alive := ?_}⟩
      have hother : holder≠task := by
        rintro rfl
        exact hkill world holder hmay hheld.holder
      exact (Function.update_of_ne hother _ _).trans hheld.alive

/-- Runs whose every machine satisfies `keep`. -/
def Run (guard : Guard Block Memory Tag Request Result View)
    (mayKill : World Block Memory Tag Request Result Task → Task → Prop)
    (keep : Machine Block Memory → Prop) (start : Machine Block Memory) :
    World Block Memory Tag Request Result Task → Prop :=
  Relation.ReflTransGen (fun world later => Step guard mayKill world later ∧ keep later.machine)
    (World.start Tag Request Result Task start)

theorem Run.keeps (hstart : keep start) (hrun : Run guard mayKill keep start world) :
    keep world.machine := by
  cases hrun with
  | refl => exact hstart
  | tail _ hstep => exact hstep.2

section

variable (hlaw : guard.Lawful)
include hlaw

/-- A run that kills no holder keeps numbers and guard in order. -/
theorem Run.orderly (hkill : ∀ world task,mayKill world task → world.holder≠some task)
    (hstart : guard.locked start.memory=false) (hrun : Run guard mayKill keep start world) :
    Numbered world ∧ Guarded guard keep start world := by
  induction hrun with
  | refl =>
    constructor
    · exact ⟨nofun,nofun,nofun,List.nodup_nil⟩
    · exact Or.inl ⟨rfl,hstart,nofun,.nil,rfl⟩
  | tail _ hstep ih =>
    exact ⟨ih.1.step hstep.1,ih.2.step hlaw hkill hstep.1 hstep.2⟩

/-- Every step leaves the flag set. -/
theorem Orphaned.step (horphaned : Orphaned guard world)
    (hstep : Step guard mayKill world later) : Orphaned guard later := by
  cases hstep with
  | enter task request halive houtside =>
    refine ⟨horphaned.locked,fun other call hother hcall => ?_⟩
    exact (entered_waiting hcall).elim (fun h => h) fun h =>
      horphaned.waiting other call hother h.2
  | @act task id request rest next tag machine halive hcall hacts =>
    have hrest : rest=guard.call request := horphaned.waiting task _ halive hcall
    subst hrest
    obtain ⟨-,hnext,hmachine⟩ := acts_call hacts
    rw [horphaned.locked,if_pos rfl] at hnext
    refine ⟨?_,fun other call hother hfound => ?_⟩
    · rw [World.after,hmachine]
      exact hlaw.locked_lock true _
    · exact horphaned.waiting other call hother (after_returned (by rw [hnext]; rfl) hfound).2
  | kill task hmay =>
    refine ⟨horphaned.locked,fun other call hother hcall => ?_⟩
    have hsame := Function.update_of_ne (ne_of_alive hother) true world.terminated
    exact horphaned.waiting other call (hsame.symm.trans hother) hcall

/-- A guard without a holder is never free again. -/
theorem Orphaned.forever (horphaned : Orphaned guard world)
    (hsteps : Relation.ReflTransGen (Step guard mayKill) world later) :
    guard.locked later.machine.memory=true := by
  have hlater : Orphaned guard later := by
    induction hsteps with
    | refl => exact horphaned
    | tail _ hstep ih => exact ih.step hlaw hstep
  exact hlater.locked

/-- If a task may be killed while no other is inside a call, it can be
killed while it holds the guard. -/
theorem run_orphaned (hstart : guard.locked start.memory=false)
    (hkeep : ∀ machine,keep machine) (task : Task) (request : Request)
    (hmay : ∀ world,(∀ other≠task,world.calls other=none) → mayKill world task) :
    ∃ world,Run guard mayKill keep start world ∧
      (∀ other,world.terminated other=false → world.calls other=none) ∧ Orphaned guard world := by
  have henter := @Step.enter _ _ _ _ _ _ _ _ _ guard mayKill
    (World.start Tag Request Result Task start) task request rfl rfl
  have hcall : ((World.start Tag Request Result Task start).entered guard task request).calls
      task=some ⟨0,request,guard.call request⟩ := Function.update_self _ _ _
  have hfree : Free guard keep start
      ((World.start Tag Request Result Task start).entered guard task request) := by
    refine ⟨rfl,hstart,fun other call hother => ?_,.nil,rfl⟩
    exact (entered_waiting hother).elim (fun h => h) fun h => by cases h.2
  have hacts : Acts (guard.call request) start (some guard.acquire) _ _ := .atomic
  have hheld := hfree.act hlaw rfl hcall hacts
  have hothers : ∀ machine call,∀ other≠task,(((World.start Tag Request Result Task start).entered
      guard task request).after guard task (some guard.acquire) machine call).calls other=none :=
    fun machine call other hother =>
      (after_calls_other hother).trans (entered_calls_other hother)
  refine ⟨_,((Relation.ReflTransGen.single ⟨henter,hkeep _⟩).tail
    ⟨.act task rfl hcall hacts,hkeep _⟩).tail ⟨.kill task (hmay _ (hothers _ _)),hkeep _⟩,?_,hheld.kill⟩
  intro other hother
  have hsame := ne_of_alive hother
  exact (Function.update_of_ne hsame _ _).trans (entered_calls_other hsame)

end

/-! ### A call without interruption -/

/-- The world after `task` finished its call alone. -/
def World.finish (world : World Block Memory Tag Request Result Task) (task : Task) (id : ℕ)
    (request : Request) (rest : Program Block Memory Tag Result)
    (later : World Block Memory Tag Request Result Task) : Prop :=
  later.machine=(rest.run world.machine).2 ∧ later.calls=Function.update world.calls task none ∧
    later.terminated=world.terminated ∧
    later.returned=world.returned++[⟨id,request,(rest.run world.machine).1⟩]

/-- One node, then the rest alone. -/
theorem steps_after (hacts : Acts rest world.machine tag next machine) (hkeep : keep machine)
    (halive : world.terminated task=false) (hcall : world.calls task=some ⟨id,request,rest⟩)
    (hnext : ∀ middle : World Block Memory Tag Request Result Task,middle.machine=machine →
      middle.terminated task=false → middle.calls task=some ⟨id,request,next⟩ →
      finished next=none → ∃ later,Relation.ReflTransGen
        (fun world later => Step guard mayKill world later ∧ keep later.machine) middle later ∧
        middle.finish task id request next later) : ∃ later,Relation.ReflTransGen
      (fun world later => Step guard mayKill world later ∧ keep later.machine) world later ∧
      world.finish task id request rest later := by
  have hstep : Step guard mayKill world (world.after guard task tag machine ⟨id,request,next⟩) :=
    .act task halive hcall hacts
  rcases hfinished : finished next with _|result
  · have hcalls : (world.after guard task tag machine ⟨id,request,next⟩).calls=
        Function.update world.calls task (some ⟨id,request,next⟩) := by
      simp only [World.after,hfinished]
    have hreturned : (world.after guard task tag machine ⟨id,request,next⟩).returned=
        world.returned := by
      simp only [World.after,hfinished]
    obtain ⟨later,hsteps,hmachine,hlater,hterminated,hresult⟩ := hnext
      (world.after guard task tag machine ⟨id,request,next⟩) rfl halive
      (by rw [hcalls,Function.update_self]) hfinished
    refine ⟨later,.head ⟨hstep,hkeep⟩ hsteps,?_,?_,hterminated,?_⟩
    · rw [hmachine,hacts.run]
      rfl
    · rw [hlater,hcalls,Function.update_idem]
    · rw [hresult,hreturned,hacts.run]
      rfl
  · refine ⟨_,.single ⟨hstep,hkeep⟩,?_,?_,rfl,?_⟩
    · rw [hacts.run,eq_done hfinished]
      rfl
    · simp only [World.after,hfinished]
    · rw [hacts.run,eq_done hfinished]
      rfl

section

variable (hview : ∀ first second : Machine Block Memory, guard.view first.memory=guard.view second.memory → keep first → keep second)
include hview

/-- A task whose actions keep the view can finish its call alone. -/
theorem steps_alone
    (hactions : rest.Actions fun _ action => ∀ memory,guard.view (action memory)=guard.view memory)
    (hkeep : keep world.machine) (halive : world.terminated task=false)
    (hcall : world.calls task=some ⟨id,request,rest⟩) (hbegun : finished rest=none) :
    ∃ later,Relation.ReflTransGen
      (fun world later => Step guard mayKill world later ∧ keep later.machine) world later ∧
      world.finish task id request rest later := by
  induction rest generalizing world with
  | done result => cases hbegun
  | read address next ih =>
    refine steps_after .read hkeep halive hcall fun middle hmachine hmiddle hinside hmore => ?_
    exact ih _ (hactions _) (hmachine ▸ hkeep) hmiddle hinside hmore
  | write address block next ih =>
    have hlater : keep (world.machine.store address block world.machine.fate) := by
      refine hview world.machine _ ?_ hkeep
      rw [Machine.store]
      split <;> rfl
    refine steps_after .write hlater halive hcall fun middle hmachine hmiddle hinside hmore => ?_
    exact ih _ (hactions _) (hmachine ▸ hlater) hmiddle hinside hmore
  | atomic tag action next ih =>
    have hlater : keep {world.machine with memory := action world.machine.memory} :=
      hview world.machine _ (hactions.1 _).symm hkeep
    refine steps_after .atomic hlater halive hcall fun middle hmachine hmiddle hinside hmore => ?_
    exact ih _ (hactions.2 _) (hmachine ▸ hlater) hmiddle hinside hmore

/-- A run with one call of one task, which keeps the view. -/
theorem run_call (hactions : (guard.call request).Actions fun _ action =>
      ∀ memory,guard.view (action memory)=guard.view memory) (hkeep : keep start) (task : Task) :
    ∃ world,Run guard mayKill keep start world ∧
      world.machine=((guard.call request).run start).2 ∧ world.calls=(fun _ : Task => none) ∧
      world.returned=[⟨0,request,((guard.call request).run start).1⟩] := by
  have henter := @Step.enter _ _ _ _ _ _ _ _ _ guard mayKill
    (World.start Tag Request Result Task start) task request rfl rfl
  have hbegun : ((World.start Tag Request Result Task start).entered guard task request).calls
      task=some ⟨0,request,guard.call request⟩ := Function.update_self _ _ _
  obtain ⟨world,hsteps,hmachine,hcalls,-,hreturned⟩ := @steps_alone _ _ _ _ _ _ _ guard _ keep task
    0 request _ _ _ mayKill hview hactions hkeep rfl hbegun rfl
  refine ⟨world,.head ⟨henter,hkeep⟩ hsteps,hmachine,?_,hreturned⟩
  rw [hcalls]
  funext other
  by_cases hother : other=task
  · rw [hother,Function.update_self]
  · rw [Function.update_of_ne hother]
    exact Function.update_of_ne hother _ _

end

end

end TuwaiqOS.GuardedTasks
