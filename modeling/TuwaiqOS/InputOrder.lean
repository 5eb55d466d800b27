import TuwaiqOS.CoalescingQueue
import TuwaiqOS.InputOwnership

/-!
# What the input queue delivers

While a process is in the foreground, `push` and `poll` work on the bounded
queue of its events. The queue is a coalescing queue of 64 places in which
mouse moves are mergeable. So nothing is reordered, and nothing is lost but
moves that were superseded while they waited at the end and events that were
counted as dropped. The labels of the model number the pushes, and the run
without labels, which is the code, delivers the same events.
-/

namespace TuwaiqOS.InputOrder

open InputQueues InputOwnership CoalescingQueue

/-- A call of `push` or `poll`, with the tick at which it is made. -/
inductive Op where
  /-- `push`. -/
  | push (tick : ℕ) (event : InputEvent)
  /-- `poll`. -/
  | poll (tick : ℕ)

/-- The input state with what has happened since the hand-off. -/
structure Session where
  /-- The state, with pushes numbered. -/
  input : Input ℕ
  /-- What has happened. -/
  trace : List (Entry InputEvent)

/-- A process has just come to the foreground. -/
def Session.start (id : ℕ) (input : Input ℕ) : Session :=
  ⟨setForegroundProcessId (some id) input,[]⟩

/-- One call. A pushed event counts as dropped if `DROPPED_EVENTS` goes up. -/
def Session.perform (session : Session) : Op → Session
  | .push tick event =>
    let number := (offered session.trace).length
    let later := push tick number event session.input
    ⟨later,session.trace++[offerEntry number event
      (later.telemetry.droppedEvents=session.input.telemetry.droppedEvents)]⟩
  | .poll tick =>
    match poll tick session.input with
    | (none,later) => ⟨later,session.trace⟩
    | (some (number,event),later) => ⟨later,session.trace++[.delivered number event]⟩

/-- Calls one after another. -/
def Session.run (session : Session) (ops : List Op) : Session := ops.foldl Session.perform session

theorem Session.run_cons (session : Session) (op : Op) (rest : List Op) :
    session.run (op::rest)=(session.perform op).run rest := rfl

/-- The same calls without labels: the events that are returned, and the
state. -/
def deliver : List Op → Input Unit → List InputEvent×Input Unit
  | [],input => ([],input)
  | .push tick event::rest,input => deliver rest (push tick () event input)
  | .poll tick::rest,input =>
    match poll tick input with
    | (none,later) => deliver rest later
    | (some (_,event),later) =>
      let others := deliver rest later
      (event::others.1,others.2)

/-- The pushed events. -/
def pushed : List Op → List InputEvent
  | [] => []
  | .push _ event::rest => event::pushed rest
  | .poll _::rest => pushed rest

/-- Queued events without their ticks. -/
def queued {σ : Type} (input : Input σ) : List (σ×InputEvent) :=
  input.queue.map fun item => (item.1,item.2.event)

/-! ## One call -/

section

variable {input : Input ℕ}

theorem endsInMove_eq (input : Input ℕ) :
    endsInMove input.queue=endsMergeable InputEvent.isMove (queued input) := by
  rw [endsInMove,endsMergeable,queued,List.getLast?_map]
  cases input.queue.getLast? <;> rfl

/-- What `push` does to the queue and the counters. -/
structure Pushes (number : ℕ) (event : InputEvent) (input later : Input ℕ) : Prop where
  /-- The event is offered to the queue. -/
  queue : queued later=(offer InputEvent.isMove 64 number event (queued input)).2
  /-- It is dropped if this is counted, and only then. -/
  dropped : later.telemetry.droppedEvents=input.telemetry.droppedEvents+
    if (offer InputEvent.isMove 64 number event (queued input)).1 then 0 else 1
  /-- One more event is queued or counted. -/
  counted : later.queue.length+later.telemetry.coalescedMouseMoves+later.telemetry.droppedEvents=
    input.queue.length+input.telemetry.coalescedMouseMoves+input.telemetry.droppedEvents+1
  /-- The process stays in the foreground. -/
  foreground : later.foreground=input.foreground

theorem pushes_push (howner : input.foreground≠0) (tick number : ℕ) (event : InputEvent) :
    Pushes number event input (push tick number event input) := by
  have hid : foregroundProcessId input=some input.foreground := if_neg howner
  have hlength : (queued input).length=input.queue.length := List.length_map _
  have hpositive : endsInMove input.queue=true → 0 < input.queue.length := by
    cases input.queue <;> simp [endsInMove]
  have hoffer : offer InputEvent.isMove 64 number event (queued input)=
      if event.isMove && endsInMove input.queue then (true,(queued input).dropLast++[(number,event)])
      else if input.queue.length<64 then (true,queued input++[(number,event)])
      else (false,queued input) := by
    rw [offer,endsInMove_eq,hlength]
  unfold push
  rw [hid]
  dsimp only
  split_ifs at hoffer ⊢ with hmerge
  · have hsome := hpositive (Bool.and_eq_true _ _▸hmerge).2
    refine ⟨by rw [hoffer]; simp [queued,List.map_dropLast],by rw [hoffer]; rfl,?_,rfl⟩
    simp only [List.length_append,List.length_dropLast,List.length_singleton]
    omega
  · refine ⟨by rw [hoffer]; simp [queued],by rw [hoffer]; rfl,?_,rfl⟩
    simp only [List.length_append,List.length_singleton]
    omega
  · refine ⟨by rw [hoffer]; rfl,by rw [hoffer]; rfl,?_,rfl⟩
    dsimp only
    omega

/-- A call of `poll`. -/
theorem Session.perform_poll (session : Session) (tick : ℕ) :
    session.perform (.poll tick)=⟨(InputQueues.poll tick session.input).2,
      session.trace++((InputQueues.poll tick session.input).1.map fun item =>
        Entry.delivered item.1 item.2).toList⟩ := by
  rw [Session.perform]
  rcases InputQueues.poll tick session.input with ⟨_|⟨number,event⟩,later⟩
  · simp
  · rfl

/-- What `poll` does to the queue and the counters. -/
theorem poll_cases_queue (tick : ℕ) (input : Input ℕ) :
    poll tick input=(none,input) ∧ queued input=[] ∨
      ∃ number event,(poll tick input).1=some (number,event) ∧
        queued input=(number,event)::queued (poll tick input).2 ∧
        (poll tick input).2.foreground=input.foreground ∧
        (poll tick input).2.telemetry.coalescedMouseMoves=input.telemetry.coalescedMouseMoves ∧
        (poll tick input).2.telemetry.droppedEvents=input.telemetry.droppedEvents := by
  rw [poll]
  cases hqueue : input.queue with
  | nil => exact Or.inl ⟨rfl,by rw [queued,hqueue]; rfl⟩
  | cons first rest =>
    obtain ⟨number,found⟩ := first
    refine Or.inr ⟨number,found.event,rfl,by rw [queued,hqueue]; rfl,rfl,?_,?_⟩
    · dsimp only
      split <;> rfl
    · dsimp only
      split <;> rfl

end

/-! ## Sessions -/

/-- The number of dropped events in a trace. -/
def drops : List (Entry InputEvent) → ℕ
  | [] => 0
  | .dropped _ _::rest => drops rest+1
  | _::rest => drops rest

theorem drops_append (first second : List (Entry InputEvent)) :
    drops (first++second)=drops first+drops second := by
  induction first with
  | nil => simp [drops]
  | cons entry first ih =>
    cases entry with
    | dropped number event =>
      rw [List.cons_append,drops,drops,ih]
      omega
    | _ => exact ih

/-- What holds after every call. -/
structure Tracks (session : Session) : Prop where
  /-- A process is in the foreground. -/
  owner : session.input.foreground≠0
  /-- The queue has run as a coalescing queue. -/
  run : Run InputEvent.isMove 64 session.trace (queued session.input)
  /-- All pushes are accounted for. -/
  total : (offered session.trace).length=(delivered session.trace).length+
    session.input.queue.length+session.input.telemetry.coalescedMouseMoves+
      session.input.telemetry.droppedEvents
  /-- Dropped events are counted. -/
  dropped : session.input.telemetry.droppedEvents=drops session.trace

section

variable {session : Session}

theorem tracks_start {id : ℕ} (hid : id≠0) (input : Input ℕ) : Tracks (Session.start id input) :=
  ⟨hid,.start,rfl,rfl⟩

section

variable (htracks : Tracks session)
include htracks

theorem Tracks.push (tick : ℕ) (event : InputEvent) :
    Tracks (session.perform (.push tick event)) := by
  have hpushes := pushes_push htracks.owner tick (offered session.trace).length event
  have hrun := htracks.run.offer event
  have htotal := htracks.total
  have hcounted := hpushes.counted
  have hdropped := hpushes.dropped
  rw [← hpushes.queue] at hrun
  unfold Session.perform
  dsimp only
  generalize InputQueues.push tick (offered session.trace).length event session.input=later at *
  generalize (offer InputEvent.isMove 64 (offered session.trace).length event
    (queued session.input)).1=isAccepted at *
  have hsame : decide (later.telemetry.droppedEvents=session.input.telemetry.droppedEvents)=
      isAccepted := by
    rw [hdropped]
    cases isAccepted <;> simp
  rw [hsame]
  refine ⟨by rw [hpushes.foreground]; exact htracks.owner,hrun,?_,?_⟩
  · rw [offered_append,delivered_append]
    cases isAccepted <;>
      simp only [offerEntry,Bool.false_eq_true,if_false,if_true,offered,delivered,
        List.length_append,List.length_singleton,List.length_nil] <;> omega
  · rw [hdropped,htracks.dropped,drops_append]
    cases isAccepted <;> rfl

theorem Tracks.poll (tick : ℕ) : Tracks (session.perform (.poll tick)) := by
  have hrun := htracks.run
  have htotal := htracks.total
  have hbefore := htracks.dropped
  have howner := htracks.owner
  unfold Session.perform
  rcases poll_cases_queue tick session.input with ⟨hnone,-⟩|
    ⟨number,event,hsome,hqueue,hforeground,hcoalesced,hdropped⟩
  · dsimp only
    rw [hnone]
    exact htracks
  · have hlength : session.input.queue.length=
        (InputQueues.poll tick session.input).2.queue.length+1 := by
      have hsizes := congrArg List.length hqueue
      simpa [queued] using hsizes
    rw [hqueue] at hrun
    have htake := hrun.take
    dsimp only
    generalize InputQueues.poll tick session.input=answer at *
    obtain ⟨found,later⟩ := answer
    dsimp only at *
    rw [hsome]
    refine ⟨by rw [hforeground]; exact howner,htake,?_,?_⟩
    · rw [offered_append,delivered_append]
      simp only [offered,delivered,List.append_nil,List.length_append,List.length_singleton]
      omega
    · rw [hdropped,hbefore,drops_append]
      rfl

/-- Every run of calls. -/
theorem Tracks.run_ops (ops : List Op) : Tracks (session.run ops) := by
  induction ops generalizing session with
  | nil => exact htracks
  | cons op rest ih =>
    cases op with
    | push tick event => exact ih (htracks.push tick event)
    | poll tick => exact ih (htracks.poll tick)

end

/-- The events that were offered are those that were pushed. -/
theorem offered_run (session : Session) (ops : List Op) :
    (offered (session.run ops).trace).map Prod.snd=
      (offered session.trace).map Prod.snd++pushed ops := by
  induction ops generalizing session with
  | nil => simp [Session.run,pushed]
  | cons op rest ih =>
    refine (ih (session.perform op)).trans ?_
    cases op with
    | push tick event =>
      rw [pushed,Session.perform]
      dsimp only
      rw [offered_append,List.map_append,List.append_assoc]
      congr 1
      rw [offerEntry]
      split <;> rfl
    | poll tick =>
      rw [pushed,Session.perform]
      split
      · rfl
      · rw [offered_append]
        simp [offered]

/-- The run without labels returns the same events. -/
theorem deliver_run (session : Session) (ops : List Op) :
    (delivered session.trace).map Prod.snd++(deliver ops (relabel (fun _ => ()) session.input)).1=
        (delivered (session.run ops).trace).map Prod.snd ∧
      (deliver ops (relabel (fun _ => ()) session.input)).2=
        relabel (fun _ => ()) (session.run ops).input := by
  induction ops generalizing session with
  | nil => exact ⟨List.append_nil _,rfl⟩
  | cons op rest ih =>
    have hrest := ih (session.perform op)
    cases op with
    | push tick event =>
      rw [Session.perform] at hrest
      dsimp only at hrest
      rw [relabel_push,delivered_append] at hrest
      have hnone : delivered [offerEntry (offered session.trace).length event
          (decide ((push tick (offered session.trace).length event
            session.input).telemetry.droppedEvents=session.input.telemetry.droppedEvents))]=[] := by
        rw [offerEntry]
        split <;> rfl
      rw [hnone,List.append_nil] at hrest
      exact hrest
    | poll tick =>
      have hperform := session.perform_poll tick
      rw [deliver,relabel_poll,session.run_cons]
      cases hfound : (poll tick session.input).1 with
      | none =>
        rw [hfound,Option.map_none,Option.toList_none,List.append_nil] at hperform
        rw [hperform] at hrest ⊢
        exact hrest
      | some item =>
        rw [hfound] at hperform
        rw [hperform] at hrest ⊢
        rw [delivered_append,List.map_append,List.append_assoc] at hrest
        exact hrest

end

/-- While process `id` is in the foreground, after any calls of `push` and
`poll`: at most 64 events are queued; what was delivered and then what is queued
are the pushes in order, without the moves that another move superseded while
they were queued last and without the events that were dropped; dropped events
are those counted, and every push is delivered, queued or counted. Key and
button events that were not dropped are all there, and the code, which has no
push numbers, delivers these events and ends in this state. -/
theorem input_queue_exact (id : ℕ) (hid : id≠0) (input : Input ℕ) (ops : List Op) :
    let session := (Session.start id input).run ops
    session.input.queue.length ≤ 64 ∧
      (offered session.trace).map Prod.fst=List.range (pushed ops).length ∧
      (offered session.trace).map Prod.snd=pushed ops ∧
      delivered session.trace++queued session.input=kept InputEvent.isMove session.trace ∧
      ((delivered session.trace++queued session.input).map Prod.fst).Pairwise (·<·) ∧
      (∀ number event,(number,event)∈offered session.trace → event.isMove=false →
        ¬Dropped session.trace number →
          (number,event)∈delivered session.trace++queued session.input) ∧
      session.input.telemetry.droppedEvents=drops session.trace ∧
      (pushed ops).length=(delivered session.trace).length+session.input.queue.length+
        session.input.telemetry.coalescedMouseMoves+session.input.telemetry.droppedEvents ∧
      deliver ops (relabel (fun _ => ()) (Session.start id input).input)=
        ((delivered session.trace).map Prod.snd,relabel (fun _ => ()) session.input) := by
  intro session
  have htracks : Tracks session := (tracks_start hid input).run_ops ops
  have hholds := htracks.run.holds
  have hpushed : (offered session.trace).map Prod.snd=pushed ops :=
    offered_run (Session.start id input) ops
  have hcount : (offered session.trace).length=(pushed ops).length := by
    rw [← hpushed,List.length_map]
  have hbounded : (queued session.input).length ≤ 64 := hholds.bounded
  have hdeliver := deliver_run (Session.start id input) ops
  refine ⟨?_,?_,hpushed,hholds.exact,hholds.ascending,?_,htracks.dropped,?_,?_⟩
  · rwa [queued,List.length_map] at hbounded
  · rw [hholds.numbered,hcount]
  · intro number event
    exact hholds.mem_of_not_merges
  · rw [← hcount]
    exact htracks.total
  · exact Prod.ext hdeliver.1 hdeliver.2

/-- Two moves, of which the second supersedes the first, a key and a poll. -/
theorem input_queue_exact_two_moves :
    let ops := [Op.push 0 (.mouseMove 1 1),.push 1 (.mouseMove 2 2),.push 2 (.keyDown 30),.poll 3]
    let session := (Session.start 7 InputQueues.Input.boot).run ops
    (7 : ℕ)≠0 ∧ session.input.queue.length ≤ 64 ∧
      (offered session.trace).map Prod.snd=pushed ops ∧
      (pushed ops).length=(delivered session.trace).length+session.input.queue.length+
        session.input.telemetry.coalescedMouseMoves+session.input.telemetry.droppedEvents := by
  intro ops session
  have hexact := input_queue_exact 7 (by decide) InputQueues.Input.boot ops
  exact ⟨by decide,hexact.1,hexact.2.2.1,hexact.2.2.2.2.2.2.2.1⟩

end TuwaiqOS.InputOrder
