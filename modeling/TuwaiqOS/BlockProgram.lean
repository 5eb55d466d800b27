import Mathlib.Tactic

/-!
# Programs over a block device and a shared memory

A program is a finite tree of device reads, device writes and atomic memory
actions. Sequential execution threads one machine through the tree: its
disk, its memory, the fate of the writes still to come and the log of the
writes that reached the device. A write may be refused before the transfer
or be reported as failed after it. Power loss keeps a prefix of the log and
loses the memory. The step granularity of the tree is also the granularity
at which several programs can be interleaved.
-/

namespace TuwaiqOS.BlockProgram

/-- What happens to one write that a program issues. -/
inductive WriteFate where
  /-- The block is stored and the program is told so. -/
  | stored
  /-- The program is told of a failure and nothing was transferred. -/
  | refused (reason : String)
  /-- The block is stored, yet the program is told of a failure. -/
  | unconfirmed (reason : String)
  deriving DecidableEq

/-- The answer a program gets for a write of the given fate. -/
def WriteFate.answer : WriteFate → Except String Unit
  | .stored => .ok ()
  | .refused reason => .error reason
  | .unconfirmed reason => .error reason

/-- Whether the block of a write of the given fate reaches the device. -/
def WriteFate.lands : WriteFate → Bool
  | .stored => true
  | .refused _ => false
  | .unconfirmed _ => true

/-- A program: every device access and every atomic memory action is one
node, local computation is invisible. Actions carry a tag that names the
step of the source they stand for. -/
inductive Program (Block Memory Tag : Type) (α : Type) where
  /-- Finish with a result. -/
  | done (result : α)
  /-- Read one block. -/
  | read (address : ℕ) (next : Except String Block → Program Block Memory Tag α)
  /-- Write one block. -/
  | write (address : ℕ) (block : Block) (next : Except String Unit → Program Block Memory Tag α)
  /-- Replace the memory in one indivisible step and continue with its old value. -/
  | atomic (tag : Tag) (action : Memory → Memory) (next : Memory → Program Block Memory Tag α)

/-- The disk, the memory, the fates of the coming writes and the log of
the writes that reached the disk. Writes past the listed fates are stored. -/
structure Machine (Block Memory : Type) where
  /-- Contents of every block address. -/
  disk : ℕ → Block
  /-- Volatile shared memory. -/
  memory : Memory
  /-- Fates of the next writes, in program order. -/
  fates : List WriteFate
  /-- Writes that reached the device, oldest first. -/
  written : List (ℕ×Block)

variable {Block Memory Tag α β : Type}

/-- The machine after one write of the given fate. -/
def Machine.store (machine : Machine Block Memory) (address : ℕ) (block : Block)
    (fate : WriteFate) : Machine Block Memory :=
  if fate.lands then
    {machine with disk := Function.update machine.disk address block,
                  fates := machine.fates.tail,
                  written := machine.written++[(address,block)]}
  else {machine with fates := machine.fates.tail}

/-- The fate of the next write. -/
def Machine.fate (machine : Machine Block Memory) : WriteFate :=
  machine.fates.headD .stored

namespace Program

/-- Run a second program on the result of the first. -/
def bind : Program Block Memory Tag α → (α → Program Block Memory Tag β) →
    Program Block Memory Tag β
  | .done result,rest => rest result
  | .read address next,rest => .read address fun block => bind (next block) rest
  | .write address block next,rest => .write address block fun answer => bind (next answer) rest
  | .atomic tag action next,rest => .atomic tag action fun memory => bind (next memory) rest

instance : Monad (Program Block Memory Tag) where
  pure := .done
  bind := bind

instance : LawfulMonad (Program Block Memory Tag) := by
  refine LawfulMonad.mk' _ ?_ ?_ ?_
  · intro α program
    change bind program (fun result => .done result)=program
    induction program with
    | done result => rfl
    | read address next ih => exact congrArg _ (funext ih)
    | write address block next ih => exact congrArg _ (funext ih)
    | atomic tag action next ih => exact congrArg _ (funext ih)
  · intro α β result rest
    rfl
  · intro α β γ program first second
    change bind (bind program first) second=bind program fun result => bind (first result) second
    induction program with
    | done result => rfl
    | read address next ih => exact congrArg _ (funext ih)
    | write address block next ih => exact congrArg _ (funext ih)
    | atomic tag action next ih => exact congrArg _ (funext ih)

/-- Sequential execution on one machine. Reads never fail. -/
def run : Program Block Memory Tag α → Machine Block Memory → α×Machine Block Memory
  | .done result,machine => (result,machine)
  | .read address next,machine => run (next (.ok (machine.disk address))) machine
  | .write address block next,machine =>
    run (next machine.fate.answer) (machine.store address block machine.fate)
  | .atomic _ action next,machine =>
    run (next machine.memory) {machine with memory := action machine.memory}

/-- Running a sequence is running its parts one after the other. -/
theorem run_bind (program : Program Block Memory Tag α)
    (rest : α → Program Block Memory Tag β) (machine : Machine Block Memory) :
    run (program>>=rest) machine= run (rest (run program machine).1) (run program machine).2 := by
  change run (bind program rest) machine=_
  induction program generalizing machine with
  | done result => rfl
  | read address next ih => exact ih _ _
  | write address block next ih => exact ih _ _
  | atomic tag action next ih => exact ih _ _

/-- Every atomic action of the program, on every path, satisfies `allowed`. -/
def Actions (allowed : Tag → (Memory → Memory) → Prop) : Program Block Memory Tag α → Prop
  | .done _ => True
  | .read _ next => ∀ block,Actions allowed (next block)
  | .write _ _ next => ∀ answer,Actions allowed (next answer)
  | .atomic tag action next => allowed tag action ∧ ∀ memory,Actions allowed (next memory)

variable {program : Program Block Memory Tag α} {rest : α → Program Block Memory Tag β}

/-- A weaker condition on actions. -/
theorem actions_mono {allowed weaker : Tag → (Memory → Memory) → Prop}
    (hweaker : ∀ tag action,allowed tag action → weaker tag action)
    (hprogram : program.Actions allowed) : program.Actions weaker := by
  induction program with
  | done result => trivial
  | read address next ih => exact fun block => ih block (hprogram block)
  | write address block next ih => exact fun answer => ih answer (hprogram answer)
  | atomic tag action next ih =>
    exact ⟨hweaker tag action hprogram.1,fun memory => ih memory (hprogram.2 memory)⟩

/-- The actions of a sequence are those of its parts. -/
theorem actions_bind {allowed : Tag → (Memory → Memory) → Prop} (hprogram : program.Actions allowed)
    (hrest : ∀ result,(rest result).Actions allowed) : (program>>=rest).Actions allowed := by
  change (bind program rest).Actions allowed
  induction program with
  | done result => exact hrest result
  | read address next ih => exact fun block => ih block (hprogram block)
  | write address block next ih => exact fun answer => ih answer (hprogram answer)
  | atomic tag action next ih =>
    exact ⟨hprogram.1,fun memory => ih memory (hprogram.2 memory)⟩

/-- What every atomic action keeps, the whole run keeps. -/
theorem run_keeps {γ : Type} {view : Memory → γ}
    (hkeeps : program.Actions fun _ action => ∀ memory,view (action memory)=view memory)
    (machine : Machine Block Memory) : view (run program machine).2.memory=view machine.memory := by
  induction program generalizing machine with
  | done result => rfl
  | read address next ih => exact ih _ (hkeeps _) machine
  | write address block next ih =>
    rw [run,ih _ (hkeeps _),Machine.store]
    split <;> rfl
  | atomic tag action next ih =>
    rw [run,ih _ (hkeeps.2 _)]
    exact hkeeps.1 machine.memory

/-- The program can finish with a result, for some answers of the device,
whatever it does, and some contents of the memory at every action. -/
def MayReturn : Program Block Memory Tag α → α → Prop
  | .done result,value => result=value
  | .read _ next,value => ∃ answer,MayReturn (next answer) value
  | .write _ _ next,value => ∃ answer,MayReturn (next answer) value
  | .atomic _ _ next,value => ∃ memory,MayReturn (next memory) value

/-- A sequence finishes with what its second part makes of a result of the
first. -/
theorem mayReturn_bind {value : β} : (program>>=rest).MayReturn value ↔
      ∃ result,program.MayReturn result ∧ (rest result).MayReturn value := by
  change (bind program rest).MayReturn value ↔ _
  induction program with
  | done result => simp only [bind,MayReturn,exists_eq_left']
  | read address next ih => simp only [bind,MayReturn,ih,exists_and_right,exists_comm]
  | write address block next ih => simp only [bind,MayReturn,ih,exists_and_right,exists_comm]
  | atomic tag action next ih => simp only [bind,MayReturn,ih,exists_and_right,exists_comm]

/-- What an execution returns can be returned. -/
theorem mayReturn_run (program : Program Block Memory Tag α) (machine : Machine Block Memory) :
    program.MayReturn (run program machine).1 := by
  induction program generalizing machine with
  | done result => rfl
  | read address next ih => exact ⟨_,ih _ _⟩
  | write address block next ih => exact ⟨_,ih _ _⟩
  | atomic tag action next ih => exact ⟨_,ih _ _⟩

/-- Every write is allowed by the memory of its moment, and every result is
expected with the memory it leaves, whatever the device answers. -/
def Traced (allowed : Memory → ℕ → Prop) (expected : α → Memory → Prop) :
    Program Block Memory Tag α → Memory → Prop
  | .done result,memory => expected result memory
  | .read _ next,memory => ∀ answer,Traced allowed expected (next answer) memory
  | .write address _ next,memory =>
    allowed memory address ∧ ∀ answer,Traced allowed expected (next answer) memory
  | .atomic _ action next,memory => Traced allowed expected (next memory) (action memory)

/-- The writes of a sequence are those of its parts. -/
theorem traced_bind {allowed : Memory → ℕ → Prop} {middle : α → Memory → Prop}
    {expected : β → Memory → Prop} {memory : Memory}
    (hprogram : program.Traced allowed middle memory)
    (hrest : ∀ result later,middle result later → (rest result).Traced allowed expected later) :
    (program>>=rest).Traced allowed expected memory := by
  change (bind program rest).Traced allowed expected memory
  induction program generalizing memory with
  | done result => exact hrest result memory hprogram
  | read address next ih => exact fun answer => ih answer (hprogram answer)
  | write address block next ih =>
    exact ⟨hprogram.1,fun answer => ih answer (hprogram.2 answer)⟩
  | atomic tag action next ih => exact ih memory hprogram

variable {machine : Machine Block Memory} {reason : String} {address : ℕ}

/-- What reaches the device in an execution was allowed when it was written. -/
theorem Traced.written {allowed : Memory → ℕ → Prop} {expected : α → Memory → Prop}
    (hprogram : program.Traced allowed expected machine.memory) :
    ∃ stored,(run program machine).2.written=machine.written++stored ∧
      ∀ write∈stored,∃ memory,allowed memory write.1 := by
  induction program generalizing machine with
  | done result => exact ⟨[],(List.append_nil _).symm,fun _ hmem => absurd hmem List.not_mem_nil⟩
  | read address next ih => exact ih _ (hprogram _)
  | write address block next ih =>
    have hmemory : (machine.store address block machine.fate).memory=machine.memory := by
      rw [Machine.store]
      split <;> rfl
    obtain ⟨stored,hstored,hallowed⟩ := @ih machine.fate.answer
      (machine.store address block machine.fate) (by rw [hmemory]; exact hprogram.2 _)
    by_cases hlands : machine.fate.lands=true
    · refine ⟨(address,block)::stored,?_,List.forall_mem_cons.mpr ⟨⟨_,hprogram.1⟩,hallowed⟩⟩
      rw [run,hstored,Machine.store,if_pos hlands,List.append_assoc]
      rfl
    · refine ⟨stored,?_,hallowed⟩
      rw [run,hstored,Machine.store,if_neg hlands]
  | atomic tag action next ih => exact @ih _ {machine with memory := action machine.memory} hprogram

end Program

/-- A program that may stop with an error text. -/
abbrev Routine (Block Memory Tag : Type) (α : Type) : Type :=
  ExceptT String (Program Block Memory Tag) α

namespace Routine

variable {routine : Routine Block Memory Tag α} {value : α}

/-- Read one block, stopping if the device reports an error. -/
def readBlock (address : ℕ) : Routine Block Memory Tag Block :=
  ExceptT.mk (.read address .done)

/-- Write one block, stopping if the device reports an error. -/
def writeBlock (address : ℕ) (block : Block) : Routine Block Memory Tag Unit :=
  ExceptT.mk (.write address block .done)

/-- Replace the memory indivisibly and return its old value. -/
def act (tag : Tag) (action : Memory → Memory) : Routine Block Memory Tag Memory :=
  ExceptT.mk (.atomic tag action fun memory => .done (.ok memory))

/-- Run a routine and keep its outcome as a value. -/
def attempt (routine : Routine Block Memory Tag α) :
    Routine Block Memory Tag (Except String α) :=
  ExceptT.mk (routine.run>>=fun outcome => .done (.ok outcome))

/-- Continue with a result that was computed without the machine. -/
def ofExcept (outcome : Except String α) : Routine Block Memory Tag α :=
  ExceptT.mk (.done outcome)

/-- Write a list of blocks in order, stopping at the first error. -/
def writeAll : List (ℕ×Block) → Routine Block Memory Tag Unit
  | [] => pure ()
  | (address,block)::rest => do
    writeBlock address block
    writeAll rest

/-- Writing a joined list is writing its parts in order. -/
theorem writeAll_append (first second : List (ℕ×Block)) :
    (writeAll (first++second) : Routine Block Memory Tag Unit)=
      (do writeAll first; writeAll second) := by
  induction first with
  | nil => simp [writeAll]
  | cons write first ih => simp [writeAll,ih]

/-- Every atomic action of the routine satisfies `allowed`. -/
def Actions (allowed : Tag → (Memory → Memory) → Prop) (routine : Routine Block Memory Tag α) :
    Prop := Program.Actions allowed routine.run

section

variable {allowed : Tag → (Memory → Memory) → Prop}

theorem actions_act {tag : Tag} {action : Memory → Memory} (hallowed : allowed tag action) :
    Actions allowed (act tag action : Routine Block Memory Tag Memory) :=
  ⟨hallowed,fun _ => trivial⟩

theorem actions_bind {rest : α → Routine Block Memory Tag β} (hroutine : Actions allowed routine)
    (hrest : ∀ value,Actions allowed (rest value)) : Actions allowed (routine>>=rest) := by
  refine Program.actions_bind hroutine fun outcome => ?_
  cases outcome with
  | ok value => exact hrest value
  | error reason => trivial

end

/-- Every write of the routine is allowed by the memory of its moment; where
it ends, `success` holds of its value and the memory, or `failure` of the
memory. -/
def Traced (allowed : Memory → ℕ → Prop) (failure : Memory → Prop) (success : α → Memory → Prop)
    (routine : Routine Block Memory Tag α) (memory : Memory) : Prop :=
  routine.run.Traced allowed (fun outcome later => match outcome with
    | .ok value => success value later
    | .error _ => failure later) memory

section

variable {allowed : Memory → ℕ → Prop} {failure : Memory → Prop} {success : α → Memory → Prop}
  {memory : Memory}

theorem traced_pure (hvalue : success value memory) :
    Traced allowed failure success (pure value : Routine Block Memory Tag α) memory := hvalue

section

variable (hfailure : failure memory)
include hfailure

theorem traced_throw :
    Traced allowed failure success (throw reason : Routine Block Memory Tag α) memory := hfailure

theorem traced_ofExcept_bind {outcome : Except String β} {rest : β → Routine Block Memory Tag α}
    (hrest : ∀ value,outcome=.ok value → Traced allowed failure success (rest value) memory) :
    Traced allowed failure success (ofExcept outcome>>=rest) memory := by
  cases outcome with
  | error reason => exact hfailure
  | ok value => exact hrest value rfl

theorem traced_readBlock_bind {rest : Block → Routine Block Memory Tag α}
    (hrest : ∀ block,Traced allowed failure success (rest block) memory) :
    Traced allowed failure success (readBlock address>>=rest) memory := by
  intro answer
  cases answer with
  | error reason => exact hfailure
  | ok block => exact hrest block

theorem traced_writeBlock_bind {block : Block} {rest : Unit → Routine Block Memory Tag α}
    (hallowed : allowed memory address)
    (hrest : Traced allowed failure success (rest ()) memory) :
    Traced allowed failure success (writeBlock address block>>=rest) memory := by
  refine ⟨hallowed,fun answer => ?_⟩
  cases answer with
  | error reason => exact hfailure
  | ok _ => exact hrest

end

/-- An action goes before the rest of a sequence. -/
theorem traced_act_bind {tag : Tag} {action : Memory → Memory}
    {rest : Memory → Routine Block Memory Tag α}
    (hrest : Traced allowed failure success (rest memory) (action memory)) :
    Traced allowed failure success (act tag action>>=rest) memory := hrest

theorem traced_bind {rest : α → Routine Block Memory Tag β} {final : β → Memory → Prop}
    (hroutine : Traced allowed failure success routine memory)
    (hrest : ∀ value later,success value later → Traced allowed failure final (rest value) later) :
    Traced allowed failure final (routine>>=rest) memory := by
  refine Program.traced_bind hroutine fun outcome later houtcome => ?_
  cases outcome with
  | error reason => exact houtcome
  | ok value => exact hrest value later houtcome

/-- An attempt writes what its routine writes. -/
theorem traced_attempt {stopped : Memory → Prop}
    (hroutine : Traced allowed stopped success routine memory) :
    Traced allowed failure (fun _ _ => True) (attempt routine) memory :=
  Program.traced_bind hroutine fun _ _ _ => trivial

end

/-- The routine can succeed with a value. -/
def MayReturn (routine : Routine Block Memory Tag α) (value : α) : Prop :=
  Program.MayReturn routine.run (.ok value)

/-- A sequence succeeds only if both parts do. -/
theorem mayReturn_bind {rest : α → Routine Block Memory Tag β} {value : β} :
    MayReturn (routine>>=rest) value ↔
      ∃ first,MayReturn routine first ∧ MayReturn (rest first) value := by
  change Program.MayReturn (routine.run>>=ExceptT.bindCont rest) (.ok value) ↔ _
  rw [Program.mayReturn_bind]
  constructor
  · rintro ⟨outcome,hfirst,hrest⟩
    cases outcome with
    | error reason => cases hrest
    | ok first => exact ⟨first,hfirst,hrest⟩
  · rintro ⟨first,hfirst,hrest⟩
    exact ⟨.ok first,hfirst,hrest⟩

theorem mayReturn_pure {first : α} :
    MayReturn (pure first : Routine Block Memory Tag α) value ↔ first=value :=
  ⟨fun h => Except.ok.inj h,fun h => congrArg Except.ok h⟩

theorem not_mayReturn_throw :
    ¬MayReturn (throw reason : Routine Block Memory Tag α) value := fun h => by cases h

/-- A kept outcome is one that the routine can have. -/
theorem mayReturn_attempt {outcome : Except String α} :
    MayReturn (attempt routine) outcome ↔ Program.MayReturn routine.run outcome := by
  change Program.MayReturn (routine.run>>=_) _ ↔ _
  rw [Program.mayReturn_bind]
  constructor
  · rintro ⟨found,hfound,hsame⟩
    cases hsame
    exact hfound
  · exact fun h => ⟨outcome,h,rfl⟩

/-- Sequential execution of a routine. -/
def perform (routine : Routine Block Memory Tag α) (machine : Machine Block Memory) :
    Except String α×Machine Block Memory := Program.run routine.run machine

@[simp] theorem perform_pure (value : α) (machine : Machine Block Memory) :
    perform (pure value : Routine Block Memory Tag α) machine=(.ok value,machine) := rfl

@[simp] theorem perform_ofExcept (outcome : Except String α) (machine : Machine Block Memory) :
    perform (ofExcept outcome : Routine Block Memory Tag α) machine=(outcome,machine) := rfl

@[simp] theorem perform_readBlock (address : ℕ) (machine : Machine Block Memory) :
    perform (readBlock address : Routine Block Memory Tag Block) machine=
      (.ok (machine.disk address),machine) := rfl

@[simp] theorem perform_writeBlock (address : ℕ) (block : Block)
    (machine : Machine Block Memory) :
    perform (writeBlock address block : Routine Block Memory Tag Unit) machine=
      (machine.fate.answer,machine.store address block machine.fate) := rfl

@[simp] theorem perform_act (tag : Tag) (action : Memory → Memory)
    (machine : Machine Block Memory) :
    perform (act tag action : Routine Block Memory Tag Memory) machine=
      (.ok machine.memory,{machine with memory := action machine.memory}) := rfl

/-- A routine continues only past a successful first part. -/
theorem perform_bind (routine : Routine Block Memory Tag α)
    (rest : α → Routine Block Memory Tag β) (machine : Machine Block Memory) :
    perform (routine>>=rest) machine=
      match perform routine machine with
      | (.ok value,later) => perform (rest value) later
      | (.error reason,later) => (.error reason,later) := by
  change Program.run (routine.run>>=ExceptT.bindCont rest) machine=_
  rw [Program.run_bind]
  rcases hfirst : Program.run routine.run machine with ⟨outcome,later⟩
  rw [perform,hfirst]
  cases outcome <;> rfl

/-- The first part succeeded. -/
theorem perform_bind_ok {later : Machine Block Memory}
    (hfirst : perform routine machine=(.ok value,later)) (rest : α → Routine Block Memory Tag β) :
    perform (routine>>=rest) machine=perform (rest value) later := by
  rw [perform_bind,hfirst]

/-- The first part failed. -/
theorem perform_bind_error {later : Machine Block Memory}
    (hfirst : perform routine machine=(.error reason,later)) (rest : α → Routine Block Memory Tag β) :
    perform (routine>>=rest) machine=(.error reason,later) := by
  rw [perform_bind,hfirst]

@[simp] theorem perform_act_bind (tag : Tag) (action : Memory → Memory)
    (rest : Memory → Routine Block Memory Tag β) (machine : Machine Block Memory) :
    perform (act tag action>>=rest) machine=
      perform (rest machine.memory) {machine with memory := action machine.memory} := rfl

/-- A kept outcome never stops the routine that keeps it. -/
@[simp] theorem perform_attempt (routine : Routine Block Memory Tag α)
    (machine : Machine Block Memory) :
    perform (attempt routine) machine=
      (.ok (perform routine machine).1,(perform routine machine).2) := by
  change Program.run (routine.run>>=_) machine=_
  rw [Program.run_bind]
  rfl

end Routine

/-- The disk after a list of writes, oldest first. -/
def applyWrites (writes : List (ℕ×Block)) (disk : ℕ → Block) : ℕ → Block :=
  writes.foldl (fun contents write => Function.update contents write.1 write.2) disk

@[simp] theorem applyWrites_nil (disk : ℕ → Block) : applyWrites [] disk=disk := rfl

@[simp] theorem applyWrites_cons (write : ℕ×Block) (writes : List (ℕ×Block))
    (disk : ℕ → Block) :
    applyWrites (write::writes) disk=
      applyWrites writes (Function.update disk write.1 write.2) := rfl

theorem applyWrites_append (first second : List (ℕ×Block)) (disk : ℕ → Block) :
    applyWrites (first++second) disk=applyWrites second (applyWrites first disk) :=
  List.foldl_append

/-- An address that no write names keeps its contents. -/
theorem applyWrites_other {writes : List (ℕ×Block)} (hother : ∀ write∈writes,write.1≠address)
    (disk : ℕ → Block) : applyWrites writes disk address=disk address := by
  induction writes generalizing disk with
  | nil => rfl
  | cons write writes ih =>
    rw [applyWrites_cons,ih (fun later h => hother later (List.mem_cons_of_mem _ h))]
    exact Function.update_of_ne (hother write List.mem_cons_self).symm _ _

/-- Consecutive addresses written once each hold what was written. -/
theorem applyWrites_run (start : ℕ) (blocks : ℕ → Block) {count index : ℕ}
    (hindex : index<count) (disk : ℕ → Block) :
    applyWrites ((List.range count).map fun i => (start+i,blocks i)) disk (start+index)=
      blocks index := by
  induction count with
  | zero => omega
  | succ count ih =>
    rw [List.range_succ,List.map_append,applyWrites_append]
    simp only [List.map_cons,List.map_nil,applyWrites_cons,applyWrites_nil]
    by_cases hlast : index=count
    · rw [hlast]
      exact Function.update_self _ _ _
    · rw [Function.update_of_ne (by omega)]
      exact ih (by omega)

namespace Routine

variable {routine : Routine Block Memory Tag α} {value : α}

/-- The machine after a list of writes that were all stored. -/
def stored (writes : List (ℕ×Block)) (machine : Machine Block Memory) : Machine Block Memory :=
  {machine with disk := applyWrites writes machine.disk,
                written := machine.written++writes}

/-- Without faults a list of writes is stored completely. -/
theorem perform_writeAll (writes : List (ℕ×Block)) {machine : Machine Block Memory}
    (hfates : machine.fates=[]) : perform (writeAll writes : Routine Block Memory Tag Unit) machine=
      (.ok (),stored writes machine) := by
  induction writes generalizing machine with
  | nil => simp only [writeAll,perform_pure,stored,applyWrites_nil,List.append_nil]
  | cons write writes ih =>
    have hfate : machine.fate=.stored := by rw [Machine.fate,hfates]; rfl
    have hfirst : perform (writeBlock write.1 write.2 : Routine Block Memory Tag Unit) machine=
        (.ok (),machine.store write.1 write.2 .stored) := by
      rw [perform_writeBlock,hfate]
      rfl
    rw [writeAll,perform_bind_ok hfirst,ih (by simp [Machine.store,WriteFate.lands,hfates])]
    simp [stored,Machine.store,WriteFate.lands,hfates]

/-- The answer to `count` writes of the given fates, and how many of them
reach the disk: the first failure stops the list. -/
def landing : List WriteFate → ℕ → Except String Unit×ℕ
  | _,0 => (.ok (),0)
  | fates,count+1 =>
    match fates.headD .stored with
    | .stored => ((landing fates.tail count).1,(landing fates.tail count).2+1)
    | .refused reason => (.error reason,0)
    | .unconfirmed reason => (.error reason,1)

/-- Of `count` writes only the last one fails, after its transfer. -/
def LastUnconfirmed : List WriteFate → ℕ → Prop
  | _,0 => False
  | fates,1 => ∃ reason,fates.headD .stored=.unconfirmed reason
  | fates,count+2 => fates.headD .stored=.stored ∧ LastUnconfirmed fates.tail (count+1)

theorem landing_le (fates : List WriteFate) (count : ℕ) : (landing fates count).2 ≤ count := by
  induction count generalizing fates with
  | zero => exact le_rfl
  | succ count ih =>
    rw [landing]
    split
    · exact Nat.succ_le_succ (ih fates.tail)
    · exact Nat.zero_le _
    · exact Nat.succ_le_succ (Nat.zero_le _)

/-- Success means that everything reached the disk. -/
theorem landing_ok {fates : List WriteFate} {count : ℕ}
    (hok : (landing fates count).1=.ok ()) : (landing fates count).2=count := by
  induction count generalizing fates with
  | zero => rfl
  | succ count ih =>
    rw [landing] at hok ⊢
    split at hok
    · exact congrArg Nat.succ (ih hok)
    · cases hok
    · cases hok

/-- Everything reaches the disk despite a failure exactly when only the last
write fails, and that after its transfer. -/
theorem landing_failed_iff (fates : List WriteFate) (count : ℕ) :
    ((landing fates count).2=count ∧ (landing fates count).1≠.ok ()) ↔
      LastUnconfirmed fates count := by
  induction count generalizing fates with
  | zero =>
    constructor
    · exact fun h => h.2 rfl
    · exact False.elim
  | succ count ih =>
    rw [landing]
    rcases hfate : fates.headD .stored with _|reason|reason
    · have hrest := ih fates.tail
      cases count with
      | zero =>
        constructor
        · exact fun h => absurd rfl h.2
        · rintro ⟨reason,hreason⟩
          rw [hfate] at hreason
          cases hreason
      | succ count =>
        rw [LastUnconfirmed,← hrest]
        simp only [Nat.add_right_cancel_iff,hfate,true_and]
    · constructor
      · exact fun h => absurd h.1 (Nat.succ_ne_zero count).symm
      · cases count with
        | zero =>
          rintro ⟨reason,hreason⟩
          rw [hfate] at hreason
          cases hreason
        | succ count =>
          intro h
          have hstored := hfate.symm.trans h.1
          cases hstored
    · cases count with
      | zero => exact ⟨fun _ => ⟨reason,hfate⟩,fun _ => ⟨rfl,fun h => by cases h⟩⟩
      | succ count =>
        constructor
        · intro h
          have hone : 1=count+1+1 := h.1
          omega
        · intro h
          have hstored := hfate.symm.trans h.1
          cases hstored

/-- Under any faults a list of writes leaves a prefix of itself on the
disk. -/
theorem perform_writeAll_landing (writes : List (ℕ×Block)) (machine : Machine Block Memory) :
    ∃ fates,perform (writeAll writes : Routine Block Memory Tag Unit) machine=
      ((landing machine.fates writes.length).1,
        {stored (writes.take (landing machine.fates writes.length).2) machine with
          fates := fates}) := by
  induction writes generalizing machine with
  | nil => exact ⟨machine.fates,by simp [writeAll,landing,stored]⟩
  | cons write writes ih =>
    have hfate : machine.fate=machine.fates.headD .stored := rfl
    rw [writeAll,perform_bind,perform_writeBlock,List.length_cons,landing,← hfate]
    rcases machine.fate with _|reason|reason
    · obtain ⟨fates,hrest⟩ := ih (machine.store write.1 write.2 .stored)
      refine ⟨fates,?_⟩
      change perform (writeAll writes) (machine.store write.1 write.2 .stored)=_
      rw [hrest]
      simp [Machine.store,WriteFate.lands,stored]
    · exact ⟨machine.fates.tail,by simp [WriteFate.answer,Machine.store,WriteFate.lands,stored]⟩
    · exact ⟨machine.fates.tail,by simp [WriteFate.answer,Machine.store,WriteFate.lands,stored]⟩

/-- Without faults one write is stored and the routine goes on. -/
theorem perform_writeBlock_bind (hfates : machine.fates=[]) (address : ℕ) (block : Block)
    (rest : Unit → Routine Block Memory Tag β) : perform (writeBlock address block>>=rest) machine=
      perform (rest ()) (stored [(address,block)] machine) := by
  have hfirst := @perform_writeAll Block Memory Tag [(address,block)] machine hfates
  rw [writeAll,writeAll,bind_pure_unit] at hfirst
  exact perform_bind_ok hfirst rest

/-- The disk left by a power loss after `count` writes of a routine. -/
def crashDisk (routine : Routine Block Memory Tag α) (machine : Machine Block Memory)
    (count : ℕ) : ℕ → Block :=
  applyWrites ((perform routine {machine with written := []}).2.written.take count) machine.disk

end Routine

end TuwaiqOS.BlockProgram
