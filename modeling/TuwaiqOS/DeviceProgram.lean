import TuwaiqOS.FallibleSteps
import Mathlib.Tactic

/-!
# Programs that talk to a device, and tasks that share it

A dialogue is a finite tree of device operations, each continued by the
device's answer. The device is a relation: what it may answer and how it may
change. Several tasks run dialogues on one device, and a task switch can
happen between any two operations. If a task enters a call only while no
other task is inside one, every call that returns did what it does alone.
-/

namespace TuwaiqOS.DeviceProgram

open FallibleSteps

/-- A program over device operations; local computation is invisible. -/
inductive Dialogue (Op : Type) (Answer : Op → Type) (α : Type) where
  /-- Finish with a result. -/
  | done (result : α)
  /-- Perform one operation and continue with its answer. -/
  | call (op : Op) (next : Answer op → Dialogue Op Answer α)

variable {Op : Type} {Answer : Op → Type} {State α β : Type}

namespace Dialogue

/-- Run a second program on the result of the first. -/
def bind : Dialogue Op Answer α → (α → Dialogue Op Answer β) → Dialogue Op Answer β
  | .done result,rest => rest result
  | .call op next,rest => .call op fun answer => bind (next answer) rest

instance : Monad (Dialogue Op Answer) where
  pure := .done
  bind := bind

instance : LawfulMonad (Dialogue Op Answer) := by
  refine LawfulMonad.mk' _ ?_ ?_ ?_
  · intro α program
    change bind program (fun result => .done result)=program
    induction program with
    | done result => rfl
    | call op next ih => exact congrArg _ (funext ih)
  · intro α β result rest
    rfl
  · intro α β γ program first second
    change bind (bind program first) second=bind program fun result => bind (first result) second
    induction program with
    | done result => rfl
    | call op next ih => exact congrArg _ (funext ih)

/-- Every operation is allowed and every result as expected, whatever the
device answers. -/
def Always (allowed : Op → Prop) (expected : α → Prop) : Dialogue Op Answer α → Prop
  | .done result => expected result
  | .call op next => allowed op ∧ ∀ answer,Always allowed expected (next answer)

/-- A sequence does what its parts always do. -/
theorem always_bind {allowed : Op → Prop} {middle : α → Prop} {expected : β → Prop}
    {program : Dialogue Op Answer α} {rest : α → Dialogue Op Answer β}
    (hprogram : program.Always allowed middle)
    (hrest : ∀ result,middle result → (rest result).Always allowed expected) :
    (program>>=rest).Always allowed expected := by
  change (program.bind rest).Always allowed expected
  induction program with
  | done result => exact hrest result hprogram
  | call op next ih => exact ⟨hprogram.1,fun answer => ih answer (hprogram.2 answer)⟩

/-- A weaker condition on results. -/
theorem Always.imp {allowed : Op → Prop} {expected weaker : α → Prop}
    {program : Dialogue Op Answer α} (hprogram : program.Always allowed expected)
    (hweaker : ∀ result,expected result → weaker result) : program.Always allowed weaker := by
  induction program with
  | done result => exact hweaker result hprogram
  | call op next ih => exact ⟨hprogram.1,fun answer => ih answer (hprogram.2 answer)⟩

/-- Run with a device whose answers may depend on all operations so far: the
result and all operations. -/
def play (device : List Op → (op : Op) → Answer op) :
    List Op → Dialogue Op Answer α → α×List Op
  | past,.done result => (result,past)
  | past,.call op next => play device (past++[op]) (next (device past op))

/-- What was asked before is not forgotten. -/
theorem past_subset_play (device : List Op → (op : Op) → Answer op) (past : List Op)
    (program : Dialogue Op Answer α) : past⊆(program.play device past).2 := by
  induction program generalizing past with
  | done result => exact List.Subset.refl _
  | call op next ih => exact List.Subset.trans (List.subset_append_left _ _) (ih _ _)

/-- What a program always does, it does with every device. -/
theorem Always.play {allowed : Op → Prop} {expected : α → Prop} {program : Dialogue Op Answer α}
    (hprogram : program.Always allowed expected) (device : List Op → (op : Op) → Answer op)
    {past : List Op} (hpast : ∀ op∈past,allowed op) :
    expected (program.play device past).1 ∧ ∀ op∈(program.play device past).2,allowed op := by
  induction program generalizing past with
  | done result => exact ⟨hprogram,hpast⟩
  | call op next ih =>
    refine ih _ (hprogram.2 _) fun earlier hmem => ?_
    rcases List.mem_append.mp hmem with hold|hnew
    · exact hpast earlier hold
    · rw [List.mem_singleton.mp hnew]
      exact hprogram.1

end Dialogue

section

variable {ε : Type} {allowed : Op → Prop} {failure : ε → Prop} {success : α → Prop}

/-- Every operation of a fallible program is allowed, every value it returns
satisfies `success` and every failure `failure`. -/
def Guarded (allowed : Op → Prop) (failure : ε → Prop) (success : α → Prop)
    (routine : ExceptT ε (Dialogue Op Answer) α) : Prop :=
  routine.run.Always allowed (Outcome failure success)

/-- The result of a computation without the device. -/
def settled (step : Except ε α) : ExceptT ε (Dialogue Op Answer) α := ExceptT.mk (.done step)

theorem guarded_settled {step : Except ε α} (hstep : Outcome failure success step) :
    Guarded allowed failure success (settled step : ExceptT ε (Dialogue Op Answer) α) := hstep

variable {value : α} {routine : ExceptT ε (Dialogue Op Answer) α}
  {rest : α → ExceptT ε (Dialogue Op Answer) β}

theorem guarded_pure (hvalue : success value) :
    Guarded allowed failure success (pure value : ExceptT ε (Dialogue Op Answer) α) := hvalue

theorem guarded_throw {reason : ε} (hreason : failure reason) :
    Guarded allowed failure success (throw reason : ExceptT ε (Dialogue Op Answer) α) := hreason

/-- Nothing is asked of a program. -/
theorem guarded_any (routine : ExceptT ε (Dialogue Op Answer) α) :
    Guarded (fun _ => True) (fun _ => True) (fun _ => True) routine := by
  have hany : ∀ program : Dialogue Op Answer (Except ε α),
      program.Always (fun _ => True) (Outcome (fun _ => True) fun _ => True) := by
    intro program
    induction program with
    | done result => exact outcome_any result
    | call op next ih => exact ⟨trivial,ih⟩
  exact hany routine.run

/-- A sequence stops at the first failure. -/
theorem guarded_bind {final : β → Prop} (hroutine : Guarded allowed failure success routine)
    (hrest : ∀ value,success value → Guarded allowed failure final (rest value)) :
    Guarded allowed failure final (routine>>=rest) := by
  refine Dialogue.always_bind hroutine fun outcome houtcome => ?_
  cases outcome with
  | error reason => exact houtcome
  | ok value => exact hrest value houtcome

/-- A weaker condition on the value. -/
theorem Guarded.imp {final : α → Prop} (hroutine : Guarded allowed failure success routine)
    (hsuccess : ∀ value,success value → final value) : Guarded allowed failure final routine := by
  refine Dialogue.Always.imp hroutine fun outcome houtcome => ?_
  cases outcome with
  | error reason => exact houtcome
  | ok value => exact hsuccess value houtcome

/-- A choice between two programs. -/
theorem guarded_ite {condition : Prop} [Decidable condition]
    {yes no : ExceptT ε (Dialogue Op Answer) α}
    (hyes : condition → Guarded allowed failure success yes)
    (hno : ¬condition → Guarded allowed failure success no) :
    Guarded allowed failure success (if condition then yes else no) := by
  by_cases hcondition : condition
  · rw [if_pos hcondition]
    exact hyes hcondition
  · rw [if_neg hcondition]
    exact hno hcondition

end

/-! ## Devices that do not change -/

namespace Dialogue

/-- Run with a device that always answers an operation in the same way: the
result and the operations. -/
def eval (device : (op : Op) → Answer op) : Dialogue Op Answer α → α×List Op
  | .done result => (result,[])
  | .call op next => ((eval device (next (device op))).1,op::(eval device (next (device op))).2)

section

variable (device : (op : Op) → Answer op) (program : Dialogue Op Answer α)

theorem play_eval (past : List Op) : program.play (fun _ => device) past=
      ((program.eval device).1,past++(program.eval device).2) := by
  induction program generalizing past with
  | done result => simp [play,eval]
  | call op next ih => simp [play,eval,ih]

theorem eval_bind (rest : α → Dialogue Op Answer β) :
    (program>>=rest).eval device=(((rest (program.eval device).1).eval device).1,
      (program.eval device).2++((rest (program.eval device).1).eval device).2) := by
  change (program.bind rest).eval device=_
  induction program with
  | done result => simp [bind,eval]
  | call op next ih => simp [bind,eval,ih]

end

end Dialogue

section

variable {ε : Type} {device : (op : Op) → Answer op} {value : α} {asked : List Op}
  {routine : ExceptT ε (Dialogue Op Answer) α} {rest : α → ExceptT ε (Dialogue Op Answer) β}

/-- With this device the program succeeds with a value, after these
operations. -/
def Yields (device : (op : Op) → Answer op) (routine : ExceptT ε (Dialogue Op Answer) α)
    (value : α) (asked : List Op) : Prop :=
  routine.run.eval device=(.ok value,asked)

theorem yields_settled_iff {step : Except ε α} {value : α} {asked : List Op} :
    Yields device (settled step : ExceptT ε (Dialogue Op Answer) α) value asked ↔
      step=.ok value ∧ asked=[] := by
  rw [Yields,Prod.mk_inj]
  exact and_congr_right' eq_comm

theorem yields_pure_iff {result : α} :
    Yields device (pure result : ExceptT ε (Dialogue Op Answer) α) value asked ↔
      value=result ∧ asked=[] := by
  refine (@yields_settled_iff _ _ _ _ device (.ok result) value asked).trans ?_
  rw [Except.ok.injEq,eq_comm]

theorem not_yields_throw {reason : ε} :
    ¬Yields device (throw reason : ExceptT ε (Dialogue Op Answer) α) value asked := by
  intro hyields
  cases hyields

/-- A sequence succeeds exactly when its parts do, and asks what they ask. -/
theorem yields_bind_iff {value : β} :
    Yields device (routine>>=rest) value asked ↔ ∃ first before after,
      Yields device routine first before ∧ Yields device (rest first) value after ∧
        asked=before++after := by
  rw [Yields,ExceptT.run_bind,Dialogue.eval_bind]
  cases hfirst : routine.run.eval device with
  | mk outcome before =>
    cases outcome with
    | error reason =>
      constructor
      · intro hyields
        cases hyields
      · rintro ⟨first,early,after,hyields,-⟩
        rw [Yields,hfirst] at hyields
        cases hyields
    | ok first =>
      rw [Prod.mk_inj]
      constructor
      · rintro ⟨hvalue,rfl⟩
        exact ⟨first,before,_,hfirst,Prod.ext hvalue rfl,rfl⟩
      · rintro ⟨other,early,after,hyields,hrest,rfl⟩
        rw [Yields,hfirst] at hyields
        cases hyields
        exact ⟨congrArg Prod.fst hrest,congrArg (before++·) (congrArg Prod.snd hrest)⟩

/-- A step without the device goes before the rest of a sequence. -/
theorem yields_settled_bind_iff {step : Except ε α} {value : β} :
    Yields device (settled step>>=rest) value asked ↔ ∃ first,step=.ok first ∧
      Yields device (rest first) value asked := by
  rw [yields_bind_iff]
  constructor
  · rintro ⟨first,before,after,hstep,hrest,rfl⟩
    obtain ⟨hfirst,rfl⟩ := yields_settled_iff.mp hstep
    exact ⟨first,hfirst,hrest⟩
  · rintro ⟨first,hfirst,hrest⟩
    exact ⟨first,[],asked,yields_settled_iff.mpr ⟨hfirst,rfl⟩,hrest,rfl⟩

end

/-- How a device may answer an operation, and what it is afterwards. -/
abbrev Response (Op : Type) (Answer : Op → Type) (State : Type) :=
  State → (op : Op) → Answer op → State → Prop

/-- The program can finish with the given result and device when it runs alone. -/
inductive Runs (respond : Response Op Answer State) :
    Dialogue Op Answer α → State → α → State → Prop where
  /-- A finished program. -/
  | done {result : α} {state : State} : Runs respond (.done result) state result state
  /-- One operation, then the rest. -/
  | call {op : Op} {next : Answer op → Dialogue Op Answer α} {answer : Answer op}
      {state middle last : State} {result : α} (hrespond : respond state op answer middle)
      (hrest : Runs respond (next answer) middle result last) :
      Runs respond (.call op next) state result last

section

variable {respond : Response Op Answer State}

theorem runs_done_iff {result found : α} {state last : State} :
    Runs respond (.done result) state found last ↔ found=result ∧ last=state := by
  constructor
  · intro hruns
    cases hruns
    exact ⟨rfl,rfl⟩
  · rintro ⟨rfl,rfl⟩
    exact .done

/-- A sequence runs as its parts do, one after the other. -/
theorem runs_bind_iff {program : Dialogue Op Answer α} {rest : α → Dialogue Op Answer β}
    {state last : State} {result : β} : Runs respond (program>>=rest) state result last ↔
      ∃ first middle,Runs respond program state first middle ∧
        Runs respond (rest first) middle result last := by
  change Runs respond (program.bind rest) state result last ↔ _
  constructor
  · intro hruns
    induction program generalizing state with
    | done found => exact ⟨found,state,.done,hruns⟩
    | call op next ih =>
      cases hruns with
      | call hrespond hrest =>
        obtain ⟨first,middle,hfirst,hsecond⟩ := ih _ hrest
        exact ⟨first,middle,.call hrespond hfirst,hsecond⟩
  · rintro ⟨first,middle,hfirst,hsecond⟩
    induction hfirst with
    | done => exact hsecond
    | call hrespond _ ih => exact .call hrespond (ih hsecond)

end

/-! ## Programs that can fail -/

/-- A dialogue that ends with a value or an error message. -/
abbrev Driver (Op : Type) (Answer : Op → Type) := ExceptT String (Dialogue Op Answer)

namespace Driver

/-- Perform one operation. -/
def ask (op : Op) : Driver Op Answer (Answer op) := ExceptT.mk (.call op fun answer => .done (.ok answer))

/-- The driver can return the given result, and leave the given device, when
it runs alone. -/
def Returns (respond : Response Op Answer State) (driver : Driver Op Answer α) (state : State)
    (result : Except String α) (last : State) : Prop :=
  Runs respond driver.run state result last

variable {respond : Response Op Answer State} {state last : State} {value : α}
  {driver : Driver Op Answer α} {result : Except String β}

theorem returns_ask_iff {op : Op} {result : Except String (Answer op)} :
    Returns respond (ask op) state result last ↔
      ∃ answer,respond state op answer last ∧ result=.ok answer := by
  constructor
  · intro hruns
    cases hruns with
    | call hrespond hrest =>
      obtain ⟨rfl,rfl⟩ := runs_done_iff.mp hrest
      exact ⟨_,hrespond,rfl⟩
  · rintro ⟨answer,hrespond,rfl⟩
    exact .call hrespond .done

theorem returns_pure_iff {result : Except String α} :
    Returns respond (pure value) state result last ↔ result=.ok value ∧ last=state :=
  runs_done_iff

theorem returns_throw_iff {reason : String} {result : Except String α} :
    Returns respond (throw reason) state result last ↔ result=.error reason ∧ last=state :=
  runs_done_iff

/-- A sequence stops at the first error. -/
theorem returns_bind_iff {rest : α → Driver Op Answer β} :
    Returns respond (driver>>=rest) state result last ↔
      (∃ reason,Returns respond driver state (.error reason) last ∧ result=.error reason) ∨
        ∃ value middle,Returns respond driver state (.ok value) middle ∧
          Returns respond (rest value) middle result last := by
  rw [Returns,ExceptT.run_bind,runs_bind_iff]
  constructor
  · rintro ⟨reason|value,middle,hfirst,hsecond⟩
    · obtain ⟨rfl,rfl⟩ := runs_done_iff.mp hsecond
      exact Or.inl ⟨reason,hfirst,rfl⟩
    · exact Or.inr ⟨value,middle,hfirst,hsecond⟩
  · rintro (⟨reason,hfirst,rfl⟩|⟨value,middle,hfirst,hsecond⟩)
    · exact ⟨.error reason,last,hfirst,.done⟩
    · exact ⟨.ok value,middle,hfirst,hsecond⟩

/-- An operation goes before the rest of a sequence. -/
theorem returns_ask_bind {op : Op} {rest : Answer op → Driver Op Answer β} :
    Returns respond (ask op>>=rest) state result last ↔
      ∃ answer middle,respond state op answer middle ∧
        Returns respond (rest answer) middle result last := by
  constructor
  · intro hruns
    cases hruns with
    | call hrespond hrest => exact ⟨_,_,hrespond,hrest⟩
  · rintro ⟨answer,middle,hrespond,hrest⟩
    exact .call hrespond hrest

/-- A sequence succeeds if both its parts do. -/
theorem returns_bind_ok {rest : α → Driver Op Answer β} {value : β} :
    Returns respond (driver>>=rest) state (.ok value) last ↔
      ∃ first middle,Returns respond driver state (.ok first) middle ∧
        Returns respond (rest first) middle (.ok value) last := by
  rw [returns_bind_iff]
  constructor
  · rintro (⟨reason,-,herror⟩|hboth)
    · cases herror
    · exact hboth
  · exact Or.inr

/-- A step with one possible outcome goes before the rest of a sequence. -/
theorem returns_sure_bind {next : State}
    (hsure : ∀ result last,Returns respond driver state result last ↔ result=.ok value ∧ last=next)
    {rest : α → Driver Op Answer β} : Returns respond (driver>>=rest) state result last ↔
      Returns respond (rest value) next result last := by
  rw [returns_bind_iff]
  constructor
  · rintro (⟨reason,hfirst,-⟩|⟨first,middle,hfirst,hrest⟩)
    · cases ((hsure _ _).mp hfirst).1
    · obtain ⟨hvalue,rfl⟩ := (hsure _ _).mp hfirst
      cases hvalue
      exact hrest
  · exact fun hrest => Or.inr ⟨value,next,(hsure _ _).mpr ⟨rfl,rfl⟩,hrest⟩

end Driver

/-! ## Tasks -/

/-- A call in progress. -/
structure Call (Op : Type) (Answer : Op → Type) (State Request Result : Type) where
  /-- What the task asked for. -/
  request : Request
  /-- The device when the task entered the call. -/
  before : State
  /-- The operations still to perform. -/
  rest : Dialogue Op Answer Result

/-- A call that returned. -/
structure Record (State Request Result : Type) where
  /-- What the task asked for. -/
  request : Request
  /-- The device when the task entered the call. -/
  before : State
  /-- What the call returned. -/
  result : Result
  /-- The device when it returned. -/
  after : State

/-- Tasks that share a device. -/
structure Tasks (Op : Type) (Answer : Op → Type) (State Request Result Task : Type) where
  /-- The device. -/
  device : State
  /-- The call each task is inside of. -/
  calls : Task → Option (Call Op Answer State Request Result)
  /-- The calls that returned, latest first. -/
  returned : List (Record State Request Result)

/-- A device that no task uses yet. -/
def Tasks.start (State Request Result Task : Type) (device : State) :
    Tasks Op Answer State Request Result Task :=
  ⟨device,fun _ => none,[]⟩

variable {Request Result Task : Type} {task : Task}

/-- The device and the call of one task replaced. -/
def Tasks.put [DecidableEq Task] (tasks : Tasks Op Answer State Request Result Task)
    (device : State) (task : Task) (call : Option (Call Op Answer State Request Result)) :
    Tasks Op Answer State Request Result Task :=
  ⟨device,Function.update tasks.calls task call,tasks.returned⟩

theorem Tasks.put_put [DecidableEq Task] (tasks : Tasks Op Answer State Request Result Task)
    (first second : State) (task : Task) (old new : Option (Call Op Answer State Request Result)) :
    (tasks.put first task old).put second task new=tasks.put second task new := by
  rw [Tasks.put,Tasks.put,Tasks.put,Function.update_idem]

/-- One step of some task. A task may enter a call when `mayEnter` allows
it; any task inside a call may perform its next operation or return. -/
inductive Step [DecidableEq Task] (respond : Response Op Answer State)
    (program : Request → Dialogue Op Answer Result)
    (mayEnter : Request → Tasks Op Answer State Request Result Task → Prop) :
    Tasks Op Answer State Request Result Task → Tasks Op Answer State Request Result Task →
      Prop where
  /-- Enter a call. -/
  | enter {tasks : Tasks Op Answer State Request Result Task} (task : Task) (request : Request)
      (hidle : tasks.calls task=none) (hmay : mayEnter request tasks) :
      Step respond program mayEnter tasks
        (tasks.put tasks.device task (some ⟨request,tasks.device,program request⟩))
  /-- Perform one operation. -/
  | access {tasks : Tasks Op Answer State Request Result Task} (task : Task) {request : Request}
      {before device : State} {op : Op} {next : Answer op → Dialogue Op Answer Result}
      {answer : Answer op} (hcall : tasks.calls task=some ⟨request,before,.call op next⟩)
      (hrespond : respond tasks.device op answer device) :
      Step respond program mayEnter tasks (tasks.put device task (some ⟨request,before,next answer⟩))
  /-- Return. -/
  | leave {tasks : Tasks Op Answer State Request Result Task} (task : Task) {request : Request}
      {before : State} {result : Result}
      (hcall : tasks.calls task=some ⟨request,before,.done result⟩) :
      Step respond program mayEnter tasks {tasks with
        calls := Function.update tasks.calls task none
        returned := ⟨request,before,result,tasks.device⟩::tasks.returned}

/-- Enter only while no task is inside a call and the device is ready for
the request. -/
def Serial (ready : Request → State → Prop) (request : Request)
    (tasks : Tasks Op Answer State Request Result Task) : Prop :=
  (∀ task,tasks.calls task=none) ∧ ready request tasks.device

section

variable {respond : Response Op Answer State} {program : Request → Dialogue Op Answer Result}
  {mayEnter : Request → Tasks Op Answer State Request Result Task → Prop}
  {ready : Request → State → Prop} {tasks later : Tasks Op Answer State Request Result Task}

/-- At most one task is inside a call, it can only finish as it would have
alone, and so did every call that returned. -/
structure OneAtATime (respond : Response Op Answer State)
    (program : Request → Dialogue Op Answer Result) (ready : Request → State → Prop)
    (tasks : Tasks Op Answer State Request Result Task) : Prop where
  /-- Two tasks inside a call are the same task. -/
  alone : ∀ first second,tasks.calls first≠none → tasks.calls second≠none → first=second
  /-- What is left of a call leads where the whole call leads. -/
  inside : ∀ task call,tasks.calls task=some call → ready call.request call.before ∧
    ∀ result last,Runs respond call.rest tasks.device result last →
      Runs respond (program call.request) call.before result last
  /-- Every finished call ran as it would have alone. -/
  returned : ∀ record∈tasks.returned,ready record.request record.before ∧
    Runs respond (program record.request) record.before record.result record.after

theorem oneAtATime_start (device : State) :
    OneAtATime respond program ready
      (Tasks.start State Request Result Task device : Tasks Op Answer State Request Result Task) where
  alone := fun _ _ hfirst => absurd rfl hfirst
  inside := fun _ _ hcall => by cases hcall
  returned := fun _ hmem => by cases hmem

/-- While a task is inside a call, all others are outside. -/
theorem OneAtATime.outside (hinv : OneAtATime respond program ready tasks)
    {call : Call Op Answer State Request Result} (hcall : tasks.calls task=some call)
    (other : Task) (hother : other≠task) : tasks.calls other=none := by
  by_contra hinside
  exact hother (hinv.alone other task hinside (hcall ▸ Option.some_ne_none call))

variable [DecidableEq Task]

/-- If all other tasks are outside, a task may be inside a call. -/
theorem OneAtATime.put (hinv : OneAtATime respond program ready tasks)
    (houtside : ∀ other≠task,tasks.calls other=none) {device : State}
    {call : Call Op Answer State Request Result} (hready : ready call.request call.before)
    (hruns : ∀ result last,Runs respond call.rest device result last →
      Runs respond (program call.request) call.before result last) :
    OneAtATime respond program ready (tasks.put device task (some call)) := by
  have hone : ∀ other,(tasks.put device task (some call)).calls other≠none → other=task := by
    intro other hinside
    by_contra hother
    exact hinside ((Function.update_of_ne hother _ _).trans (houtside other hother))
  refine ⟨fun first second hfirst hsecond => ?_,fun other found hfound => ?_,hinv.returned⟩
  · rw [hone first hfirst,hone second hsecond]
  · rw [hone other (hfound ▸ Option.some_ne_none found)] at hfound
    dsimp only [Tasks.put] at hfound
    rw [Function.update_self] at hfound
    cases hfound
    exact ⟨hready,hruns⟩

/-- One step keeps the calls one at a time. -/
theorem OneAtATime.step (hinv : OneAtATime respond program ready tasks)
    (hstep : Step respond program (Serial ready) tasks later) :
    OneAtATime respond program ready later := by
  cases hstep with
  | enter task request hidle hmay =>
    exact hinv.put (fun other _ => hmay.1 other) hmay.2 fun _ _ hruns => hruns
  | access task hcall hrespond =>
    obtain ⟨hready,hruns⟩ := hinv.inside _ _ hcall
    exact hinv.put (hinv.outside hcall) hready
      fun result last hrest => hruns result last (.call hrespond hrest)
  | leave task hcall =>
    have houtside : ∀ other,Function.update tasks.calls task none other=none := fun other => by
      by_cases hother : other=task
      · rw [hother,Function.update_self]
      · rw [Function.update_of_ne hother,hinv.outside hcall other hother]
    refine ⟨fun first _ hfirst => absurd (houtside first) hfirst,fun other call hother => ?_,?_⟩
    · cases (houtside other).symm.trans hother
    · intro record hmem
      rcases List.mem_cons.mp hmem with rfl|hold
      · obtain ⟨hready,hruns⟩ := hinv.inside _ _ hcall
        exact ⟨hready,hruns _ _ .done⟩
      · exact hinv.returned record hold

/-- In every run that enters calls one at a time, every call that returned
ran as it would have alone. -/
theorem serial_returned {device : State}
    (hrun : Relation.ReflTransGen (Step respond program (Serial ready))
      (Tasks.start State Request Result Task device) tasks) :
    ∀ record∈tasks.returned,ready record.request record.before ∧
      Runs respond (program record.request) record.before record.result record.after := by
  have hinv : OneAtATime respond program ready tasks := by
    induction hrun with
    | refl => exact oneAtATime_start device
    | tail _ hstep ih => exact ih.step hstep
  exact hinv.returned

/-- While no other task is scheduled, a task performs the first part of what
is left of its call. -/
theorem steps_of_runs {request : Request} {before last : State} {first : α}
    {start : Dialogue Op Answer α} (rest : α → Dialogue Op Answer Result)
    (hcall : tasks.calls task=some ⟨request,before,start>>=rest⟩)
    (hruns : Runs respond start tasks.device first last) :
    Relation.ReflTransGen (Step respond program mayEnter) tasks
      (tasks.put last task (some ⟨request,before,rest first⟩)) := by
  obtain ⟨device,calls,returned⟩ := tasks
  dsimp only at hcall hruns
  induction hruns generalizing calls with
  | done => rw [Tasks.put,Function.update_eq_self_iff.mpr hcall.symm]
  | @call op next answer state middle final found hrespond _ ih =>
    have hstep := @Step.access _ _ _ _ _ _ _ respond program mayEnter ⟨state,calls,returned⟩ task
      request before middle op (fun answer => next answer>>=rest) answer hcall hrespond
    have hsteps := ih (Function.update calls task (some ⟨request,before,next answer>>=rest⟩))
      (Function.update_self _ _ _)
    have hput := Tasks.put_put ⟨state,calls,returned⟩ middle final task
      (some ⟨request,before,next answer>>=rest⟩) (some ⟨request,before,rest found⟩)
    exact .head hstep (hput ▸ hsteps)

/-- The same for a driver whose first part succeeds. -/
theorem steps_of_returns {program : Request → Dialogue Op Answer (Except String β)}
    {mayEnter : Request → Tasks Op Answer State Request (Except String β) Task → Prop}
    {tasks : Tasks Op Answer State Request (Except String β) Task} {request : Request}
    {before last : State} {first : α} (rest : α → Driver Op Answer β)
    (hcall : tasks.calls task=some ⟨request,before,(driver>>=rest).run⟩)
    (hruns : Driver.Returns respond driver tasks.device (.ok first) last) :
    Relation.ReflTransGen (Step respond program mayEnter) tasks
      (tasks.put last task (some ⟨request,before,(rest first).run⟩)) := by
  rw [ExceptT.run_bind] at hcall
  have hsteps : Relation.ReflTransGen (Step respond program mayEnter) tasks _ :=
    steps_of_runs _ hcall hruns
  exact hsteps

/-- While no other task is scheduled, a task finishes what is left of its
call and returns. -/
theorem steps_to_return (task : Task) {request : Request} {before last : State} {result : Result}
    {rest : Dialogue Op Answer Result} (hcall : tasks.calls task=some ⟨request,before,rest⟩)
    (hruns : Runs respond rest tasks.device result last) :
    Relation.ReflTransGen (Step respond program mayEnter) tasks
      ⟨last,Function.update tasks.calls task none,
        ⟨request,before,result,last⟩::tasks.returned⟩ := by
  have hbind : rest>>=Dialogue.done=rest := bind_pure rest
  rw [← hbind] at hcall
  have hleave := @Step.leave _ _ _ _ _ _ _ respond program mayEnter
    (tasks.put last task (some ⟨request,before,.done result⟩)) task request before result
    (Function.update_self _ _ _)
  rw [Tasks.put,Function.update_idem] at hleave
  exact (steps_of_runs _ hcall hruns).tail hleave

/-- A task that enters and is not interrupted performs a whole call. -/
theorem steps_of_call (task : Task) (request : Request) {last : State} {result : Result}
    (hidle : tasks.calls task=none) (hmay : mayEnter request tasks)
    (hruns : Runs respond (program request) tasks.device result last) :
    Relation.ReflTransGen (Step respond program mayEnter) tasks
      ⟨last,tasks.calls,⟨request,tasks.device,result,last⟩::tasks.returned⟩ := by
  have hreturn := @steps_to_return _ _ _ _ _ _ respond program mayEnter
    (tasks.put tasks.device task (some ⟨request,tasks.device,program request⟩)) _ task request
    tasks.device last result _ (Function.update_self _ _ _) hruns
  have hcalls : Function.update (tasks.put tasks.device task (some ⟨request,tasks.device,
      program request⟩)).calls task none=tasks.calls := by
    rw [Tasks.put,Function.update_idem,Function.update_eq_self_iff.mpr hidle.symm]
  rw [hcalls] at hreturn
  exact .head (.enter task request hidle hmay) hreturn

end

end TuwaiqOS.DeviceProgram
