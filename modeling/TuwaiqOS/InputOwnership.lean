import TuwaiqOS.InputQueues

/-!
# Input never crosses owners

Every queued event is labelled with the step that pushed it and its place
among the events of that step. A hand-off empties both queues and only the
owner's queue is fed, so the owner at the step of a label is the owner for
as long as the event is queued. Labels come out in the order in which they
went in, hence none comes out twice.
-/

namespace TuwaiqOS.InputOwnership

open InputQueues

/-! ## Labels do not influence the code -/

section

variable {σ τ : Type} (change : σ → τ)

/-- The same state with other labels. -/
def relabel (input : Input σ) : Input τ :=
  ⟨input.keys,input.foreground,input.shellQueue.map (Prod.map change id),
    input.queue.map (Prod.map change id),input.telemetry,input.decoder,input.mouse,
    input.mouseTelemetry,input.wakeRequest⟩

/-- The same delivery with another label. -/
def relabelDelivery : Delivery σ → Delivery τ
  | .toProcess id label event => .toProcess id (change label) event
  | .toShell label event => .toShell (change label) event

theorem endsInMove_map (queue : List (σ×Queued)) :
    endsInMove (queue.map (Prod.map change id))=endsInMove queue := by
  rw [endsInMove,endsInMove,List.getLast?_map]
  cases queue.getLast? with
  | none => rfl
  | some last => rfl

theorem relabel_push (tick : ℕ) (label : σ) (event : InputEvent) (input : Input σ) :
    relabel change (push tick label event input)=
      push tick (change label) event (relabel change input) := by
  rw [push,push,show foregroundProcessId (relabel change input)=foregroundProcessId input from rfl]
  cases foregroundProcessId input with
  | none => rfl
  | some owner =>
    simp only [relabel,endsInMove_map,List.length_map]
    split_ifs <;> simp only [List.map_append,List.map_dropLast,List.map_cons,List.map_nil,
      Prod.map_apply,id]

theorem relabel_pushKeyEvent (tick : ℕ) (label : σ) (event : KeyEvent) (input : Input σ) :
    relabel change (pushKeyEvent tick label event input)=
      pushKeyEvent tick (change label) event (relabel change input) := by
  rw [pushKeyEvent,pushKeyEvent]
  cases keyCode event with
  | none => rfl
  | some code => exact relabel_push change tick label (.keyDown code) input

theorem relabel_onScancode (tick : ℕ) (label : σ) (byte : UInt8) (input : Input σ) :
    relabel change (onScancode tick label byte input)=
      onScancode tick (change label) byte (relabel change input) := by
  rw [onScancode,onScancode,show (relabel change input).keys=input.keys from rfl]
  rcases decodeScancode byte input.keys with ⟨event,keys⟩
  cases event with
  | none => rfl
  | some event =>
    dsimp only
    rw [route,route,show foregroundOwner {relabel change input with keys := keys}=
      foregroundOwner {input with keys := keys} from rfl]
    cases foregroundOwner {input with keys := keys} with
    | shell =>
      simp only [pushShell,relabel,List.length_map]
      split_ifs <;> simp only [List.map_append,List.map_cons,List.map_nil,Prod.map_apply,id]
    | desktop => exact relabel_pushKeyEvent change tick label event _

theorem relabel_pushAll (tick : ℕ) (label : ℕ → σ) (events : List InputEvent) (ordinal : ℕ)
    (input : Input σ) : relabel change (pushAll tick label ordinal events input)=
      pushAll tick (change∘label) ordinal events (relabel change input) := by
  induction events generalizing ordinal input with
  | nil => rfl
  | cons event rest ih => rw [pushAll,pushAll,ih,relabel_push,Function.comp_apply]

theorem relabel_onByte (screen : Option (ℕ×ℕ)) (tick : ℕ) (label : ℕ → σ) (byte : UInt8)
    (input : Input σ) : relabel change (onByte screen tick label byte input)=
      onByte screen tick (change∘label) byte (relabel change input) := by
  rw [onByte,onByte,show (relabel change input).decoder=input.decoder from rfl]
  rcases input.decoder.feed byte with ⟨packet,decoder⟩
  cases packet with
  | none => rfl
  | some packet =>
    dsimp only
    rw [handlePacket,handlePacket]
    by_cases hoverflow : packet.1 &&& (0x40 ||| 0x80)≠0
    · rw [if_pos hoverflow,if_pos hoverflow]
      rfl
    · rw [if_neg hoverflow,if_neg hoverflow]
      dsimp only
      rw [show (relabel change input).mouse=input.mouse from rfl]
      cases decodedPacket screen packet input.mouse with
      | none => rfl
      | some decoded => exact relabel_pushAll change tick label _ 0 _

theorem relabel_poll (tick : ℕ) (input : Input σ) : poll tick (relabel change input)=
      ((poll tick input).1.map (Prod.map change id),relabel change (poll tick input).2) := by
  rcases input with ⟨keys,foreground,shellQueue,queue,telemetry,decoder,mouse,counts,wake⟩
  cases queue <;> rfl

theorem relabel_sysInputPoll (tick : ℕ) (caller : Option ℕ) (outLen : ℕ) (valid : Bool)
    (copy : List UInt8 → Bool) (input : Input σ) :
    sysInputPoll tick caller outLen valid copy (relabel change input)=
      ((sysInputPoll tick caller outLen valid copy input).1,
        (sysInputPoll tick caller outLen valid copy input).2.1.map (Prod.map change id),
        relabel change (sysInputPoll tick caller outLen valid copy input).2.2) := by
  cases caller with
  | none => rfl
  | some callerPid =>
    rw [sysInputPoll,sysInputPoll,relabel_poll,
      show foregroundProcessId (relabel change input)=foregroundProcessId input from rfl]
    rcases poll tick input with ⟨event,later⟩
    rcases event with _|⟨label,event⟩
    · dsimp only [Option.map_none]
      split_ifs <;> rfl
    · dsimp only [Option.map_some,Prod.map_apply,id]
      split_ifs <;> rfl

/-- A step does not depend on the labels. -/
theorem relabel_step (screen : Option (ℕ×ℕ)) (tick : ℕ) (label : ℕ → σ) (input : Input σ)
    (action : Action) : step screen tick (change∘label) (relabel change input) action=
      (relabel change (step screen tick label input action).1,
        (step screen tick label input action).2.map (relabelDelivery change)) := by
  cases action with
  | scancode byte => exact congrArg (·,none) (relabel_onScancode change tick _ byte input).symm
  | mouseByte byte => exact congrArg (·,none) (relabel_onByte change screen tick label byte input).symm
  | setForeground processId => cases processId <;> rfl
  | inputPoll caller outLen valid copy =>
    simp only [step,relabel_sysInputPoll]
    rcases sysInputPoll tick caller outLen valid copy input with ⟨answer,event,later⟩
    cases event <;> cases caller <;> rfl
  | pollKey =>
    rcases input with ⟨keys,foreground,shellQueue,queue,telemetry,decoder,mouse,counts,wake⟩
    cases shellQueue <;> rfl
  | pushKey event => exact congrArg (·,none) (relabel_pushKeyEvent change tick _ event input).symm

/-! ## Runs -/

section

variable (screen : Option (ℕ×ℕ)) (ticks : ℕ → ℕ) (actions : ℕ → Action)

/-- The state before step `n` when the events of step `n` get the labels
`label n`. -/
def stateWith (label : ℕ → ℕ → σ) : ℕ → Input σ
  | 0 => .boot
  | n+1 => (step screen (ticks n) (label n) (stateWith label n) (actions n)).1

section

variable (label : ℕ → ℕ → σ) (n : ℕ)

/-- What step `n` delivers. -/
def deliveryWith : Option (Delivery σ) :=
  (step screen (ticks n) (label n) (stateWith screen ticks actions label n) (actions n)).2

/-- Every run of the code is seen, with labels, as the labelled run. -/
theorem relabel_stateWith : stateWith screen ticks actions (fun m => change∘label m) n=
      relabel change (stateWith screen ticks actions label n) := by
  induction n with
  | zero => rfl
  | succ n ih => rw [stateWith,ih,relabel_step,stateWith]

theorem relabel_deliveryWith : deliveryWith screen ticks actions (fun m => change∘label m) n=
      (deliveryWith screen ticks actions label n).map (relabelDelivery change) := by
  rw [deliveryWith,relabel_stateWith,relabel_step,deliveryWith]

end

end

end

/-- Where an event was pushed: the step, and the place among the events of
that step. -/
structure Origin where
  /-- The step. -/
  step : ℕ
  /-- The place. -/
  ordinal : ℕ
  deriving DecidableEq

/-- The first event was pushed before the second. -/
def Origin.Before (first second : Origin) : Prop :=
  first.step<second.step ∨ first.step=second.step ∧ first.ordinal<second.ordinal

theorem Origin.Before.trans {first second third : Origin} (hfirst : first.Before second)
    (hsecond : second.Before third) : first.Before third := by
  unfold Origin.Before at *
  omega

theorem Origin.Before.irrefl {origin : Origin} : ¬origin.Before origin := by
  unfold Origin.Before
  omega

/-- An event of the shell queue or of the process queue. -/
abbrev Pushed := KeyEvent⊕InputEvent

/-- All queued events with their labels. -/
def pending (input : Input Origin) : List (Origin×Pushed) :=
  input.shellQueue.map (fun entry => (entry.1,.inl entry.2))++
    input.queue.map fun entry => (entry.1,.inr entry.2.event)

/-- The events that an action pushes, in order. -/
def produced {σ : Type} (screen : Option (ℕ×ℕ)) (input : Input σ) : Action → List Pushed
  | .scancode byte =>
    match (decodeScancode byte input.keys).1 with
    | none => []
    | some event =>
      if input.foreground=0 then [.inl event]
      else ((keyCode event).map fun code => .inr (.keyDown code)).toList
  | .mouseByte byte =>
    match (input.decoder.feed byte).1 with
    | none => []
    | some packet =>
      match decodedPacket screen packet input.mouse with
      | none => []
      | some decoded => (packetEvents decoded).map .inr
  | .pushKey event => ((keyCode event).map fun code => .inr (.keyDown code)).toList
  | _ => []

/-- The action is a hand-off. -/
def HandsOff : Action → Prop
  | .setForeground _ => True
  | _ => False

/-! ## What pushing and polling keep -/

/-- What holds of the queues: each event fits its label, labels increase
and lie before the limit, and only the owner's queue is in use. -/
structure Ordered (fits : Origin → Pushed → Prop) (limit : Origin) (input : Input Origin) :
    Prop where
  /-- Every event fits its label. -/
  fitting : ∀ entry∈pending input,fits entry.1 entry.2
  /-- Labels increase. -/
  increasing : (pending input).Pairwise fun first second => first.1.Before second.1
  /-- They lie before the limit. -/
  limited : ∀ entry∈pending input,entry.1.Before limit
  /-- The process queue is in use only if a process is in the foreground. -/
  processOnly : input.queue≠[] → input.foreground≠0
  /-- The shell queue is in use only if none is. -/
  shellOnly : input.shellQueue≠[] → input.foreground=0

section

variable {fits fits' : Origin → Pushed → Prop} {limit next : Origin} {input later : Input Origin}

section

variable (hordered : Ordered fits limit input)
include hordered

/-- With a process in the foreground only its queue is in use. -/
theorem Ordered.pending_process (howner : input.foreground≠0) : input.shellQueue=[] ∧
      pending input=input.queue.map fun entry => (entry.1,.inr entry.2.event) := by
  have hempty : input.shellQueue=[] := by_contra fun hused => howner (hordered.shellOnly hused)
  exact ⟨hempty,by rw [pending,hempty]; rfl⟩

/-- Without one only the shell's queue is. -/
theorem Ordered.pending_shell (howner : input.foreground=0) : input.queue=[] ∧
      pending input=input.shellQueue.map fun entry => (entry.1,.inl entry.2) := by
  have hempty : input.queue=[] := by_contra fun hused => hordered.processOnly hused howner
  exact ⟨hempty,by rw [pending,hempty,List.map_nil,List.append_nil]⟩

/-- Weaker conditions and a later limit. -/
theorem Ordered.imp (hfits : ∀ entry∈pending input,fits entry.1 entry.2 → fits' entry.1 entry.2)
    (hlimit : ∀ origin : Origin,origin.Before limit → origin.Before next) :
    Ordered fits' next input :=
  ⟨fun entry h => hfits entry h (hordered.fitting entry h),hordered.increasing,
    fun entry h => hlimit _ (hordered.limited entry h),hordered.processOnly,hordered.shellOnly⟩

/-- Only the queues and the owner matter. -/
theorem Ordered.congr (hqueue : later.queue=input.queue)
    (hshell : later.shellQueue=input.shellQueue) (howner : later.foreground=input.foreground) :
    Ordered fits limit later := by
  have hpending : pending later=pending input := by rw [pending,pending,hqueue,hshell]
  exact ⟨hpending▸hordered.fitting,hpending▸hordered.increasing,hpending▸hordered.limited,
    by rw [hqueue,howner]; exact hordered.processOnly,
    by rw [hshell,howner]; exact hordered.shellOnly⟩

/-- Part of what is pending stays and a new event comes behind it. -/
theorem Ordered.extend (hnext : limit.Before next)
    {kept : List (Origin×Pushed)} (hkept : kept.Sublist (pending input)) {event : Pushed}
    (hfits : fits limit event) (hpending : pending later=kept++[(limit,event)])
    (hprocess : later.queue≠[] → later.foreground≠0)
    (hshell : later.shellQueue≠[] → later.foreground=0) : Ordered fits next later := by
  refine ⟨?_,?_,?_,hprocess,hshell⟩ <;> rw [hpending]
  · intro entry hentry
    rcases List.mem_append.mp hentry with hmem|hmem
    · exact hordered.fitting entry (hkept.subset hmem)
    · rw [List.mem_singleton.mp hmem]
      exact hfits
  · refine List.pairwise_append.mpr ⟨hordered.increasing.sublist hkept,List.pairwise_singleton _ _,?_⟩
    intro entry hentry last hlast
    rw [List.mem_singleton.mp hlast]
    exact hordered.limited entry (hkept.subset hentry)
  · intro entry hentry
    rcases List.mem_append.mp hentry with hmem|hmem
    · exact (hordered.limited entry (hkept.subset hmem)).trans hnext
    · rw [List.mem_singleton.mp hmem]
      exact hnext

/-- Taking the first event leaves later ones. -/
theorem Ordered.remove {first : Origin×Pushed} (hpending : pending input=first::pending later)
    (hprocess : later.queue≠[] → later.foreground≠0)
    (hshell : later.shellQueue≠[] → later.foreground=0) :
    Ordered fits limit later ∧ ∀ entry∈pending later,first.1.Before entry.1 := by
  have hfitting := hordered.fitting
  have hincreasing := hordered.increasing
  have hlimited := hordered.limited
  rw [hpending] at hfitting hincreasing hlimited
  obtain ⟨hfirst,hrest⟩ := List.pairwise_cons.mp hincreasing
  exact ⟨⟨fun entry h => hfitting entry (List.mem_cons_of_mem _ h),hrest,
    fun entry h => hlimited entry (List.mem_cons_of_mem _ h),hprocess,hshell⟩,hfirst⟩

/-- The process queue keeps part of itself and gets a new event. -/
theorem Ordered.enqueue (hnext : limit.Before next)
    (howner : input.foreground≠0) {kept : List (Origin×Queued)} (hkept : kept.Sublist input.queue)
    {queued : Queued} (hfits : fits limit (.inr queued.event))
    (hqueue : later.queue=kept++[(limit,queued)]) (hshell : later.shellQueue=input.shellQueue)
    (hforeground : later.foreground=input.foreground) : Ordered fits next later := by
  obtain ⟨hempty,hpending⟩ := hordered.pending_process howner
  have hlater : pending later=
      kept.map (fun entry => (entry.1,.inr entry.2.event))++[(limit,.inr queued.event)] := by
    rw [pending,hshell,hempty,hqueue,List.map_append]
    rfl
  refine hordered.extend hnext ?_ hfits hlater (fun _ => by rwa [hforeground]) fun hused => ?_
  · rw [hpending]
    exact hkept.map _
  · rw [hshell] at hused
    exact absurd hempty hused

/-- Pushing an event that fits its label. -/
theorem Ordered.push (hnext : limit.Before next)
    (tick : ℕ) {event : InputEvent} (hfits : input.foreground≠0 → fits limit (.inr event)) :
    Ordered fits next (push tick limit event input) ∧
      (push tick limit event input).foreground=input.foreground := by
  have hskip : Ordered fits next input := hordered.imp (fun _ _ h => h) fun _ h => h.trans hnext
  unfold InputQueues.push foregroundProcessId
  by_cases howner : input.foreground=0
  · rw [if_pos howner]
    exact ⟨hskip,rfl⟩
  · rw [if_neg howner]
    dsimp only
    split_ifs
    · exact ⟨hordered.enqueue hnext howner (List.dropLast_sublist _) (hfits howner) rfl rfl rfl,rfl⟩
    · exact ⟨hordered.enqueue hnext howner (List.Sublist.refl _) (hfits howner) rfl rfl rfl,rfl⟩
    · exact ⟨hskip.congr rfl rfl rfl,rfl⟩

/-- Pushing the code of a key, if it has one. -/
theorem Ordered.pushKeyEvent (hnext : limit.Before next)
    (tick : ℕ) {event : KeyEvent} (hfits : ∀ code,keyCode event=some code →
      input.foreground≠0 → fits limit (.inr (.keyDown code))) :
    Ordered fits next (pushKeyEvent tick limit event input) ∧
      (pushKeyEvent tick limit event input).foreground=input.foreground := by
  rw [InputQueues.pushKeyEvent]
  rcases hcode : keyCode event with _|code
  · exact ⟨hordered.imp (fun _ _ h => h) fun _ h => h.trans hnext,rfl⟩
  · exact hordered.push hnext tick (hfits code hcode)

/-- Routing a key to its owner. -/
theorem Ordered.route (hnext : limit.Before next)
    (tick : ℕ) {event : KeyEvent} (hshell : input.foreground=0 → fits limit (.inl event))
    (hprocess : ∀ code,keyCode event=some code →
      input.foreground≠0 → fits limit (.inr (.keyDown code))) :
    Ordered fits next (route tick limit event input) ∧
      (route tick limit event input).foreground=input.foreground := by
  unfold InputQueues.route foregroundOwner foregroundProcessId
  by_cases howner : input.foreground=0
  · obtain ⟨hempty,hpending⟩ := hordered.pending_shell howner
    simp only [if_pos howner,Option.isSome_none,Bool.false_eq_true,if_false]
    rw [pushShell]
    split_ifs
    · refine ⟨hordered.extend hnext (List.Sublist.refl _) (hshell howner) ?_
        (fun hused => absurd hempty hused) (fun _ => howner),rfl⟩
      rw [hpending,pending,hempty,List.map_append,List.map_nil,List.append_nil]
      rfl
    · exact ⟨hordered.imp (fun _ _ h => h) fun _ h => h.trans hnext,rfl⟩
  · simp only [if_neg howner,Option.isSome_some,if_true]
    exact hordered.pushKeyEvent hnext tick hprocess

end

/-- Pushing a list of events. -/
theorem Ordered.pushAll {n : ℕ} (tick : ℕ) {events : List InputEvent} {ordinal : ℕ}
    (hordered : Ordered fits ⟨n,ordinal⟩ input)
    (hfits : ∀ index event,events[index]?=some event → fits ⟨n,ordinal+index⟩ (.inr event)) :
    Ordered fits ⟨n,ordinal+events.length⟩ (pushAll tick (Origin.mk n) ordinal events input) ∧
      (pushAll tick (Origin.mk n) ordinal events input).foreground=input.foreground := by
  induction events generalizing ordinal input with
  | nil => exact ⟨hordered,rfl⟩
  | cons event rest ih =>
    have hnext : (⟨n,ordinal⟩ : Origin).Before ⟨n,ordinal+1⟩ := Or.inr ⟨rfl,Nat.lt_succ_self _⟩
    obtain ⟨hfirst,hsame⟩ := hordered.push hnext tick fun _ => hfits 0 event rfl
    obtain ⟨hrest,howner⟩ := ih hfirst fun index later hlater => by
      have hfit := hfits (index+1) later hlater
      rwa [show ordinal+(index+1)=ordinal+1+index by omega] at hfit
    rw [InputQueues.pushAll,List.length_cons,show ordinal+(rest.length+1)=ordinal+1+rest.length by omega]
    exact ⟨hrest,howner.trans hsame⟩

/-- Pushing the events of a packet. -/
theorem Ordered.handlePacket {n : ℕ} {screen : Option (ℕ×ℕ)} (tick : ℕ)
    {packet : UInt8×UInt8×UInt8} (hordered : Ordered fits ⟨n,0⟩ input)
    (hfits : ∀ decoded,decodedPacket screen packet input.mouse=some decoded →
      ∀ index event,(packetEvents decoded)[index]?=some event → fits ⟨n,index⟩ (.inr event)) :
    Ordered fits ⟨n+1,0⟩ (handlePacket screen tick (Origin.mk n) packet input) ∧
      (handlePacket screen tick (Origin.mk n) packet input).foreground=input.foreground := by
  have hlimit : ∀ place (origin : Origin),origin.Before ⟨n,place⟩ → origin.Before ⟨n+1,0⟩ := by
    intro place origin hbefore
    unfold Origin.Before at *
    dsimp only at *
    omega
  rw [InputQueues.handlePacket]
  by_cases hoverflow : packet.1 &&& (0x40 ||| 0x80)≠0
  · rw [if_pos hoverflow]
    exact ⟨(hordered.imp (fun _ _ h => h) (hlimit 0)).congr rfl rfl rfl,rfl⟩
  · rw [if_neg hoverflow]
    rcases hdecoded : decodedPacket screen packet input.mouse with _|decoded
    · exact ⟨hordered.imp (fun _ _ h => h) (hlimit 0),rfl⟩
    · have hmouse : Ordered fits ⟨n,0⟩
          {input with mouse := ⟨decoded.x,decoded.y,decoded.buttons⟩} := hordered.congr rfl rfl rfl
      obtain ⟨hpushed,howner⟩ := hmouse.pushAll tick fun index event hevent => by
        rw [Nat.zero_add]
        exact hfits decoded hdecoded index event hevent
      exact ⟨hpushed.imp (fun _ _ h => h) (hlimit _),howner⟩

/-- The action is one of the keyboard, of the mouse or a direct push. -/
def Pushes : Action → Prop
  | .scancode _ => True
  | .mouseByte _ => True
  | .pushKey _ => True
  | _ => False

/-- The steps that only push. -/
theorem Ordered.producers {n : ℕ} (screen : Option (ℕ×ℕ)) (tick : ℕ)
    (hordered : Ordered fits ⟨n,0⟩ input) {action : Action} (hpush : Pushes action)
    (hfits : ∀ index event,(produced screen input action)[index]?=some event → fits ⟨n,index⟩ event) :
    Ordered fits ⟨n+1,0⟩ (step screen tick (Origin.mk n) input action).1 ∧
      (step screen tick (Origin.mk n) input action).1.foreground=input.foreground := by
  have hnext : (⟨n,0⟩ : Origin).Before ⟨n+1,0⟩ := Or.inl (Nat.lt_succ_self n)
  have hskip : Ordered fits ⟨n+1,0⟩ input := hordered.imp (fun _ _ h => h) fun _ h => h.trans hnext
  cases action with
  | scancode byte =>
    simp only [step,onScancode]
    simp only [produced] at hfits
    rcases hdecode : decodeScancode byte input.keys with ⟨event,keys⟩
    rw [hdecode] at hfits
    cases event with
    | none => exact ⟨hskip.congr rfl rfl rfl,rfl⟩
    | some event =>
      have hkeys : Ordered fits ⟨n,0⟩ {input with keys := keys} := hordered.congr rfl rfl rfl
      refine hkeys.route hnext tick (fun howner => hfits 0 _ ?_) fun code hcode howner => hfits 0 _ ?_
      · have howned : input.foreground=0 := howner
        simp only [if_pos howned,List.getElem?_cons_zero]
      · have howned : ¬input.foreground=0 := howner
        simp only [if_neg howned,hcode]
        rfl
  | mouseByte byte =>
    simp only [step,onByte]
    simp only [produced] at hfits
    rcases hfeed : input.decoder.feed byte with ⟨packet,decoder⟩
    rw [hfeed] at hfits
    cases packet with
    | none => exact ⟨hskip.congr rfl rfl rfl,rfl⟩
    | some packet =>
      dsimp only at hfits ⊢
      refine Ordered.handlePacket tick ?_ fun decoded hdecoded index event hevent => ?_
      · exact hordered.congr rfl rfl rfl
      · have hmouse : decodedPacket screen packet input.mouse=some decoded := hdecoded
        refine hfits index (.inr event) ?_
        rw [hmouse,List.getElem?_map,hevent]
        rfl
  | pushKey event =>
    refine hordered.pushKeyEvent hnext tick fun code hcode _ => hfits 0 _ ?_
    simp only [produced,hcode]
    rfl
  | _ => exact hpush.elim

/-- What a poll does: nothing, or it takes the first event of the shell's queue
or of that of the caller, who is in the foreground. An event that cannot be
copied out is lost. -/
inductive Polls (input : Input Origin) : Input Origin×Option (Delivery Origin) → Prop where
  /-- Nothing is taken. -/
  | nothing : Polls input (input,none)
  /-- The shell takes a key. -/
  | key {first : Origin×KeyEvent} {rest : List (Origin×KeyEvent)}
      (hqueue : input.shellQueue=first::rest) :
      Polls input ({input with shellQueue := rest},some (.toShell first.1 first.2))
  /-- A process takes an event. -/
  | event {first : Origin×Queued} {rest : List (Origin×Queued)} {telemetry : InputTelemetry}
      {id : ℕ} {delivery : Option (Delivery Origin)} (hqueue : input.queue=first::rest)
      (howner : foregroundProcessId input=some id)
      (hdelivery : delivery=none ∨ delivery=some (.toProcess id first.1 first.2.event)) :
      Polls input ({input with queue := rest,telemetry := telemetry},delivery)

theorem step_polls (screen : Option (ℕ×ℕ)) (tick : ℕ) (label : ℕ → Origin) (input : Input Origin)
    {action : Action} (hpush : ¬Pushes action) (hkeep : ¬HandsOff action) :
    Polls input (step screen tick label input action) := by
  cases action with
  | pollKey =>
    rw [step,pollKey]
    cases hqueue : input.shellQueue with
    | nil => exact .nothing
    | cons first rest => exact .key hqueue
  | inputPoll caller outLen valid copy =>
    rw [step]
    unfold sysInputPoll
    cases caller with
    | none => exact .nothing
    | some id =>
      dsimp only
      split_ifs with howner
      any_goals exact .nothing
      cases hqueue : input.queue with
      | nil =>
        rw [poll,hqueue]
        exact .nothing
      | cons first rest =>
        obtain ⟨telemetry,hpoll⟩ : ∃ telemetry,poll tick input=(some (first.1,first.2.event),
            {input with queue := rest,telemetry := telemetry}) := ⟨_,by rw [poll,hqueue]⟩
        rw [hpoll]
        dsimp only
        split_ifs
        · exact .event hqueue (not_not.mp howner) (Or.inr rfl)
        · exact .event hqueue (not_not.mp howner) (Or.inl rfl)
  | setForeground processId => exact absurd trivial hkeep
  | _ => exact absurd trivial hpush

end

/-! ## Runs keep owners apart -/

/-- The label of a delivered event. -/
def originOf : Delivery Origin → Origin
  | .toProcess _ origin _ => origin
  | .toShell origin _ => origin

/-- The event that is delivered. -/
def eventOf : Delivery Origin → Pushed
  | .toProcess _ _ event => .inr event
  | .toShell _ event => .inl event

/-- The process it is delivered to, none for the shell. -/
def receiverOf : Delivery Origin → Option ℕ
  | .toProcess id _ _ => some id
  | .toShell _ _ => none

section

variable (screen : Option (ℕ×ℕ)) (ticks : ℕ → ℕ) (actions : ℕ → Action)

/-- The state before step `n`, every event labelled with its origin. -/
abbrev stateAt (n : ℕ) : Input Origin := stateWith screen ticks actions Origin.mk n

/-- What step `n` delivers. -/
abbrev deliveryAt (n : ℕ) : Option (Delivery Origin) := deliveryWith screen ticks actions Origin.mk n

/-- What is known before step `n` of a label that is still queued. -/
structure Waiting (n : ℕ) (origin : Origin) (event : Pushed) : Prop where
  /-- It was pushed earlier. -/
  earlier : origin.step<n
  /-- By a step that produced this very event. -/
  source : (produced screen (stateAt screen ticks actions origin.step)
    (actions origin.step))[origin.ordinal]?=some event
  /-- The owner was the same. -/
  owner : (stateAt screen ticks actions origin.step).foreground=
    (stateAt screen ticks actions n).foreground
  /-- There was no hand-off since then. -/
  undisturbed : ∀ m,origin.step ≤ m → m<n → ¬HandsOff (actions m)
  /-- Everything delivered so far had been pushed before it. -/
  undelivered : ∀ m<n,∀ delivery,deliveryAt screen ticks actions m=some delivery →
    (originOf delivery).Before origin

/-- What is known before step `n` of the queues and the deliveries. -/
structure Kept (n : ℕ) : Prop where
  /-- The queued events wait in order. -/
  ordered : Ordered (Waiting screen ticks actions n) ⟨n,0⟩ (stateAt screen ticks actions n)
  /-- Delivered events had been pushed earlier. -/
  delivered : ∀ m<n,∀ delivery,deliveryAt screen ticks actions m=some delivery →
    (originOf delivery).step<n

variable {screen ticks actions} {n : ℕ}

/-- An event that stays queued goes on waiting. -/
theorem Waiting.next {origin : Origin} {event : Pushed}
    (hwaiting : Waiting screen ticks actions n origin event) (hkeep : ¬HandsOff (actions n))
    (howner : (stateAt screen ticks actions (n+1)).foreground=
      (stateAt screen ticks actions n).foreground)
    (hdelivery : ∀ delivery,deliveryAt screen ticks actions n=some delivery →
      (originOf delivery).Before origin) : Waiting screen ticks actions (n+1) origin event := by
  refine ⟨hwaiting.earlier.trans (Nat.lt_succ_self n),hwaiting.source,
    hwaiting.owner.trans howner.symm,?_,?_⟩
  · intro m hlow hhigh
    rcases Nat.lt_succ_iff_lt_or_eq.mp hhigh with hless|rfl
    · exact hwaiting.undisturbed m hlow hless
    · exact hkeep
  · intro m hm delivery hdelivered
    rcases Nat.lt_succ_iff_lt_or_eq.mp hm with hless|rfl
    · exact hwaiting.undelivered m hless delivery hdelivered
    · exact hdelivery delivery hdelivered

/-- An event that has just been pushed waits. -/
theorem Kept.fresh (hkept : Kept screen ticks actions n) (hkeep : ¬HandsOff (actions n))
    (howner : (stateAt screen ticks actions (n+1)).foreground=
      (stateAt screen ticks actions n).foreground)
    (hnone : deliveryAt screen ticks actions n=none) {index : ℕ} {event : Pushed}
    (hproduced : (produced screen (stateAt screen ticks actions n) (actions n))[index]?=
      some event) : Waiting screen ticks actions (n+1) ⟨n,index⟩ event := by
  refine ⟨Nat.lt_succ_self n,hproduced,howner.symm,?_,?_⟩
  · intro m hlow hhigh
    have hsame : m=n := by dsimp only at hlow; omega
    rw [hsame]
    exact hkeep
  · intro m hm delivery hdelivered
    rcases Nat.lt_succ_iff_lt_or_eq.mp hm with hless|rfl
    · exact Or.inl (hkept.delivered m hless delivery hdelivered)
    · rw [hnone] at hdelivered
      cases hdelivered

/-- Steps that deliver nothing keep the account of deliveries. -/
theorem Kept.delivered_of_none (hkept : Kept screen ticks actions n)
    (hnone : deliveryAt screen ticks actions n=none) :
    ∀ m<n+1,∀ delivery,deliveryAt screen ticks actions m=some delivery →
      (originOf delivery).step<n+1 := by
  intro m hm delivery hdelivered
  rcases Nat.lt_succ_iff_lt_or_eq.mp hm with hless|rfl
  · exact (hkept.delivered m hless delivery hdelivered).trans (Nat.lt_succ_self n)
  · rw [hnone] at hdelivered
    cases hdelivered

/-- A later limit. -/
theorem before_next {origin : Origin} (hbefore : origin.Before ⟨n,0⟩) : origin.Before ⟨n+1,0⟩ :=
  hbefore.trans (Or.inl (Nat.lt_succ_self n))

section

variable (hkept : Kept screen ticks actions n)
include hkept

/-- A step that neither pushes nor takes anything. -/
theorem Kept.idle (hkeep : ¬HandsOff (actions n)) (hnone : deliveryAt screen ticks actions n=none)
    (hsame : stateAt screen ticks actions (n+1)=stateAt screen ticks actions n) :
    Kept screen ticks actions (n+1) := by
  refine ⟨?_,hkept.delivered_of_none hnone⟩
  rw [hsame]
  refine hkept.ordered.imp (fun entry _ hwaiting => hwaiting.next hkeep (by rw [hsame]) ?_)
    fun _ => before_next
  intro delivery hdelivered
  rw [hnone] at hdelivered
  cases hdelivered

/-- A step that takes the first event, delivered or not. -/
theorem Kept.taken (hkeep : ¬HandsOff (actions n))
    {first : Origin×Pushed} (hpending : pending (stateAt screen ticks actions n)=
      first::pending (stateAt screen ticks actions (n+1)))
    (hdelivery : ∀ delivery,deliveryAt screen ticks actions n=some delivery →
      originOf delivery=first.1) (howner : (stateAt screen ticks actions (n+1)).foreground=
      (stateAt screen ticks actions n).foreground)
    (hprocess : (stateAt screen ticks actions (n+1)).queue≠[] →
      (stateAt screen ticks actions (n+1)).foreground≠0)
    (hshell : (stateAt screen ticks actions (n+1)).shellQueue≠[] →
      (stateAt screen ticks actions (n+1)).foreground=0) : Kept screen ticks actions (n+1) := by
  obtain ⟨hrest,hfirst⟩ := hkept.ordered.remove hpending hprocess hshell
  have hstep : first.1.step<n := by
    have hlimited := hkept.ordered.limited first (by rw [hpending]; exact List.mem_cons_self)
    unfold Origin.Before at hlimited
    dsimp only at hlimited
    omega
  refine ⟨hrest.imp (fun entry hentry hwaiting => hwaiting.next hkeep howner ?_)
    fun _ => before_next,?_⟩
  · intro delivery hdelivered
    rw [hdelivery delivery hdelivered]
    exact hfirst entry hentry
  · intro m hm delivery hdelivered
    rcases Nat.lt_succ_iff_lt_or_eq.mp hm with hless|rfl
    · exact (hkept.delivered m hless delivery hdelivered).trans (Nat.lt_succ_self n)
    · rw [hdelivery delivery hdelivered]
      exact hstep.trans (Nat.lt_succ_self m)

/-- Keyboard, mouse and direct pushes. -/
theorem Kept.pushed (hpush : Pushes (actions n)) : Kept screen ticks actions (n+1) := by
  have hkeep : ¬HandsOff (actions n) := by
    cases haction : actions n <;> rw [haction] at hpush <;> first | exact not_false | exact hpush.elim
  have hnone : deliveryAt screen ticks actions n=none := by
    rw [deliveryAt,deliveryWith]
    cases haction : actions n <;> rw [haction] at hpush <;> first | rfl | exact hpush.elim
  obtain ⟨-,howner⟩ := @Ordered.producers (fun _ _ => True) _ n screen (ticks n)
    (hkept.ordered.imp (fun _ _ _ => trivial) fun _ h => h) _ hpush fun _ _ _ => trivial
  refine ⟨?_,hkept.delivered_of_none hnone⟩
  refine (Ordered.producers screen (ticks n) ?_ hpush fun index event =>
    hkept.fresh hkeep howner hnone).1
  refine hkept.ordered.imp (fun entry _ hwaiting => hwaiting.next hkeep howner ?_) fun _ h => h
  intro delivery hdelivered
  rw [hnone] at hdelivered
  cases hdelivered

/-- A hand-off leaves both queues empty. -/
theorem Kept.handedOff {processId : Option ℕ}
    (haction : actions n=.setForeground processId) : Kept screen ticks actions (n+1) := by
  have hnone : deliveryAt screen ticks actions n=none := by
    rw [deliveryAt,deliveryWith,haction]
    rfl
  have hempty : pending (stateAt screen ticks actions (n+1))=[] ∧
      (stateAt screen ticks actions (n+1)).queue=[] ∧
      (stateAt screen ticks actions (n+1)).shellQueue=[] := by
    rw [stateAt,stateWith,haction]
    cases processId <;> exact ⟨rfl,rfl,rfl⟩
  obtain ⟨hpending,hqueue,hshell⟩ := hempty
  refine ⟨⟨?_,?_,?_,fun hused => absurd hqueue hused,fun hused => absurd hshell hused⟩,
    hkept.delivered_of_none hnone⟩ <;> rw [hpending]
  · exact fun entry h => absurd h List.not_mem_nil
  · exact List.Pairwise.nil
  · exact fun entry h => absurd h List.not_mem_nil

/-- A poll by the shell or by a process. -/
theorem Kept.polled (hpush : ¬Pushes (actions n))
    (hkeep : ¬HandsOff (actions n)) : Kept screen ticks actions (n+1) := by
  have hpoll : Polls _ (stateAt screen ticks actions (n+1),deliveryAt screen ticks actions n) :=
    step_polls screen (ticks n) (Origin.mk n) _ hpush hkeep
  generalize hresult : (stateAt screen ticks actions (n+1),deliveryAt screen ticks actions n)=
    result at hpoll
  cases hpoll with
  | nothing =>
    obtain ⟨hstate,hdelivery⟩ := Prod.mk.inj hresult
    exact hkept.idle hkeep hdelivery hstate
  | key hqueue =>
    obtain ⟨hstate,hdelivery⟩ := Prod.mk.inj hresult
    have howner := hkept.ordered.shellOnly (by rw [hqueue]; exact List.cons_ne_nil _ _)
    obtain ⟨hempty,-⟩ := hkept.ordered.pending_shell howner
    refine hkept.taken hkeep (by rw [hstate,pending,hqueue]; rfl) (fun delivery hdelivered => ?_)
      (by rw [hstate]) (fun hused => ?_) fun _ => by rwa [hstate]
    · cases hdelivery.symm.trans hdelivered
      rfl
    · rw [hstate] at hused
      exact absurd hempty hused
  | event hqueue _ hevent =>
    obtain ⟨hstate,hdelivery⟩ := Prod.mk.inj hresult
    have howner := hkept.ordered.processOnly (by rw [hqueue]; exact List.cons_ne_nil _ _)
    obtain ⟨hempty,-⟩ := hkept.ordered.pending_process howner
    refine hkept.taken hkeep (by rw [hstate,pending,pending,hqueue,hempty]; rfl)
      (fun delivery hdelivered => ?_) (by rw [hstate]) (fun _ => by rwa [hstate]) fun hused => ?_
    · rcases hevent with rfl|rfl <;> cases hdelivery.symm.trans hdelivered
      rfl
    · rw [hstate] at hused
      exact absurd hempty hused

end

/-- It holds before every step. -/
theorem kept_at (screen : Option (ℕ×ℕ)) (ticks : ℕ → ℕ) (actions : ℕ → Action) (n : ℕ) :
    Kept screen ticks actions n := by
  induction n with
  | zero =>
    refine ⟨⟨?_,List.Pairwise.nil,?_,fun hused => absurd rfl hused,fun _ => rfl⟩,?_⟩
    · exact fun entry h => absurd h List.not_mem_nil
    · exact fun entry h => absurd h List.not_mem_nil
    · exact fun m hm => absurd hm (Nat.not_lt_zero m)
  | succ n hkept =>
    by_cases hpush : Pushes (actions n)
    · exact hkept.pushed hpush
    by_cases hkeep : HandsOff (actions n)
    · cases haction : actions n with
      | setForeground processId => exact hkept.handedOff haction
      | _ => rw [haction] at hkeep; exact hkeep.elim
    · exact hkept.polled hpush hkeep

/-- What a delivery took, and from whose queue. -/
theorem delivered_pending {delivery : Delivery Origin}
    (hdelivery : deliveryAt screen ticks actions n=some delivery) : ¬HandsOff (actions n) ∧
      foregroundProcessId (stateAt screen ticks actions n)=receiverOf delivery ∧
      (originOf delivery,eventOf delivery)∈pending (stateAt screen ticks actions n) := by
  have hpush : ¬Pushes (actions n) ∧ ¬HandsOff (actions n) := by
    rw [deliveryAt,deliveryWith] at hdelivery
    cases haction : actions n <;> rw [haction] at hdelivery <;>
      first | exact ⟨not_false,not_false⟩ | cases hdelivery
  refine ⟨hpush.2,?_⟩
  have hpoll : Polls _ (stateAt screen ticks actions (n+1),deliveryAt screen ticks actions n) :=
    step_polls screen (ticks n) (Origin.mk n) _ hpush.1 hpush.2
  rw [hdelivery] at hpoll
  generalize stateAt screen ticks actions (n+1)=later at hpoll
  cases hpoll with
  | @key first rest hqueue =>
    have howner := (kept_at screen ticks actions n).ordered.shellOnly
      (by rw [hqueue]; exact List.cons_ne_nil _ _)
    refine ⟨if_pos howner,List.mem_append_left _ (List.mem_map.mpr ⟨first,?_,rfl⟩)⟩
    rw [hqueue]
    exact List.mem_cons_self
  | @event first rest telemetry id _ hqueue howner hevent =>
    rcases hevent with hnone|hsome
    · cases hnone
    · cases hsome
      refine ⟨howner,List.mem_append_right _ (List.mem_map.mpr ⟨first,?_,rfl⟩)⟩
      rw [hqueue]
      exact List.mem_cons_self

/-- What is delivered was pushed earlier, for the same owner and without a
hand-off since. -/
theorem delivered_source {delivery : Delivery Origin}
    (hdelivery : deliveryAt screen ticks actions n=some delivery) : (originOf delivery).step<n ∧
      (produced screen (stateAt screen ticks actions (originOf delivery).step)
        (actions (originOf delivery).step))[(originOf delivery).ordinal]?=some (eventOf delivery) ∧
      foregroundProcessId (stateAt screen ticks actions (originOf delivery).step)=
        receiverOf delivery ∧ ∀ m,(originOf delivery).step ≤ m → m ≤ n → ¬HandsOff (actions m) := by
  obtain ⟨hkeep,howner,hmem⟩ := delivered_pending hdelivery
  have hwaiting := (kept_at screen ticks actions n).ordered.fitting _ hmem
  refine ⟨hwaiting.earlier,hwaiting.source,?_,fun m hlow hhigh => ?_⟩
  · rw [← howner,foregroundProcessId,foregroundProcessId,hwaiting.owner]
  · rcases Nat.lt_or_eq_of_le hhigh with hless|rfl
    · exact hwaiting.undisturbed m hlow hless
    · exact hkeep

/-- An event is delivered after all that were delivered before. -/
theorem delivered_in_order {m : ℕ} (hless : m<n) {first second : Delivery Origin}
    (hfirst : deliveryAt screen ticks actions m=some first)
    (hsecond : deliveryAt screen ticks actions n=some second) :
    (originOf first).Before (originOf second) :=
  ((kept_at screen ticks actions n).ordered.fitting _ (delivered_pending hsecond).2.2).undelivered m
    hless first hfirst

end

/-- The events of a run go to the owner at the time of the push and to no
one else: in the run with labels, which is a run of the code, whatever a
process polls was pushed by an earlier step, while the process was in the
foreground and without a hand-off since; the same for the shell; and no
event is delivered twice. -/
theorem input_never_crosses_owners (screen : Option (ℕ×ℕ)) (ticks : ℕ → ℕ)
    (actions : ℕ → Action) :
    (∀ n,stateWith screen ticks actions (fun _ _ => ()) n=
        relabel (fun _ => ()) (stateAt screen ticks actions n) ∧
      deliveryWith screen ticks actions (fun _ _ => ()) n=
        (deliveryAt screen ticks actions n).map (relabelDelivery fun _ => ())) ∧
    (∀ n id origin event,deliveryAt screen ticks actions n=some (.toProcess id origin event) →
      origin.step<n ∧
      (produced screen (stateAt screen ticks actions origin.step)
        (actions origin.step))[origin.ordinal]?=some (.inr event) ∧
      foregroundProcessId (stateAt screen ticks actions origin.step)=some id ∧
      ∀ m,origin.step ≤ m → m ≤ n → ¬HandsOff (actions m)) ∧
    (∀ n origin event,deliveryAt screen ticks actions n=some (.toShell origin event) →
      origin.step<n ∧
      (produced screen (stateAt screen ticks actions origin.step)
        (actions origin.step))[origin.ordinal]?=some (.inl event) ∧
      foregroundProcessId (stateAt screen ticks actions origin.step)=none ∧
      ∀ m,origin.step ≤ m → m ≤ n → ¬HandsOff (actions m)) ∧
    ∀ m n first second,deliveryAt screen ticks actions m=some first →
      deliveryAt screen ticks actions n=some second → originOf first=originOf second → m=n := by
  refine ⟨fun n => ⟨relabel_stateWith (fun _ => ()) screen ticks actions Origin.mk n,
    relabel_deliveryWith (fun _ => ()) screen ticks actions Origin.mk n⟩,
    fun n id origin event hdelivery => delivered_source hdelivery,
    fun n origin event hdelivery => delivered_source hdelivery,?_⟩
  · intro m n first second hfirst hsecond hsame
    by_contra hdifferent
    rcases Nat.lt_or_gt_of_ne hdifferent with hless|hless
    · exact Origin.Before.irrefl (hsame▸delivered_in_order hless hfirst hsecond)
    · exact Origin.Before.irrefl (hsame▸delivered_in_order hless hsecond hfirst)

/-- Task 4 takes the foreground, a key arrives and task 4 polls it; then the
shell takes over, a key arrives and the shell polls it. -/
def handoverRun : ℕ → Action
  | 0 => .setForeground (some 4)
  | 1 => .scancode 0x1E
  | 2 => .inputPoll (some 4) 8 true fun _ => true
  | 3 => .setForeground none
  | 4 => .scancode 0x1E
  | _ => .pollKey

theorem input_never_crosses_owners_handover :
    deliveryAt none (fun n => n) handoverRun 2=some (.toProcess 4 ⟨1,0⟩ (.keyDown 0x61)) ∧
    foregroundProcessId (stateAt none (fun n => n) handoverRun 1)=some 4 ∧
    deliveryAt none (fun n => n) handoverRun 5=some (.toShell ⟨4,0⟩ (.char 0x61)) ∧
    foregroundProcessId (stateAt none (fun n => n) handoverRun 4)=none := by
  have hprocess : deliveryAt none (fun n => n) handoverRun 2=
      some (.toProcess 4 ⟨1,0⟩ (.keyDown 0x61)) := by decide +kernel
  have hshell : deliveryAt none (fun n => n) handoverRun 5=
      some (.toShell ⟨4,0⟩ (.char 0x61)) := by decide +kernel
  obtain ⟨-,htoProcess,htoShell,-⟩ := input_never_crosses_owners none (fun n => n) handoverRun
  exact ⟨hprocess,(htoProcess 2 4 ⟨1,0⟩ _ hprocess).2.2.1,hshell,
    (htoShell 5 ⟨4,0⟩ _ hshell).2.2.1⟩

end TuwaiqOS.InputOwnership
