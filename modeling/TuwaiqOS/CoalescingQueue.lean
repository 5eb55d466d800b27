import Mathlib.Tactic

/-!
# Bounded queues that merge at the end

A queue takes events at its end and gives them out at its front. An event of
a mergeable kind that arrives behind another one replaces it, and an event
that finds the queue full is dropped. A trace records what was accepted,
dropped and delivered. What a run has delivered, followed by what is queued,
is exactly what was offered without the dropped events and without those that
were still waiting at the end when the next one was merged.
-/

namespace TuwaiqOS.CoalescingQueue

variable {α : Type}

/-- What happens to a queue; events are numbered as they are offered. -/
inductive Entry (α : Type) where
  /-- An event was queued or merged. -/
  | accepted (number : ℕ) (event : α)
  /-- An event was dropped. -/
  | dropped (number : ℕ) (event : α)
  /-- An event was given out. -/
  | delivered (number : ℕ) (event : α)

/-- The events that were offered, with their numbers. -/
def offered : List (Entry α) → List (ℕ×α)
  | [] => []
  | .accepted number event::rest => (number,event)::offered rest
  | .dropped number event::rest => (number,event)::offered rest
  | .delivered _ _::rest => offered rest

/-- The events that were given out. -/
def delivered : List (Entry α) → List (ℕ×α)
  | [] => []
  | .delivered number event::rest => (number,event)::delivered rest
  | _::rest => delivered rest

/-- The event with a number was dropped. -/
def Dropped (trace : List (Entry α)) (number : ℕ) : Prop := ∃ event,.dropped number event∈trace

/-- The event was accepted, nothing was accepted since, and it was not given
out. -/
def Waiting (trace : List (Entry α)) (number : ℕ) (event : α) : Prop :=
  ∃ before between,trace=before++.accepted number event::between ∧
    (∀ other next,.accepted other next∉between) ∧ ∀ found,.delivered number found∉between

variable (merges : α → Bool) (capacity : ℕ)

/-- The event with a number is mergeable and was directly followed, among the
accepted ones and while it was waiting, by a mergeable one. -/
def Superseded (trace : List (Entry α)) (number : ℕ) : Prop :=
  ∃ before after event next following,trace=before++.accepted next following::after ∧
    merges following=true ∧ merges event=true ∧ Waiting before number event

/-- The last event of a queue is mergeable. -/
def endsMergeable (queue : List (ℕ×α)) : Bool :=
  match queue.getLast? with
  | some last => merges last.2
  | none => false

/-- Offer an event: whether it is accepted, and the queue. -/
def offer (number : ℕ) (event : α) (queue : List (ℕ×α)) : Bool×List (ℕ×α) :=
  if merges event && endsMergeable merges queue then (true,queue.dropLast++[(number,event)])
  else if queue.length<capacity then (true,queue++[(number,event)])
  else (false,queue)

/-- The entry of an offer. -/
def offerEntry (number : ℕ) (event : α) (isAccepted : Bool) : Entry α :=
  if isAccepted then .accepted number event else .dropped number event

/-- Runs of an empty queue. -/
inductive Run : List (Entry α) → List (ℕ×α) → Prop where
  /-- Nothing has happened. -/
  | start : Run [] []
  /-- An event is offered. -/
  | offer {trace : List (Entry α)} {queue : List (ℕ×α)} (event : α) (hpast : Run trace queue) :
    Run (trace++[offerEntry (offered trace).length event
        (offer merges capacity (offered trace).length event queue).1])
      (offer merges capacity (offered trace).length event queue).2
  /-- The first event is given out. -/
  | take {trace : List (Entry α)} {queue : List (ℕ×α)} {number : ℕ} {event : α}
    (hpast : Run trace ((number,event)::queue)) :
    Run (trace++[.delivered number event]) queue

/-! ## Longer traces -/

section

variable {trace rest : List (Entry α)} {number other : ℕ} {event next : α}

theorem offered_append (first second : List (Entry α)) :
    offered (first++second)=offered first++offered second := by
  induction first with
  | nil => rfl
  | cons entry first ih => cases entry <;> simp [offered,ih]

theorem delivered_append (first second : List (Entry α)) :
    delivered (first++second)=delivered first++delivered second := by
  induction first with
  | nil => rfl
  | cons entry first ih => cases entry <;> simp [delivered,ih]

theorem mem_offered : (number,event)∈offered trace ↔
    .accepted number event∈trace ∨ .dropped number event∈trace := by
  induction trace with
  | nil => simp [offered]
  | cons entry rest ih =>
    cases entry <;> simp only [offered,List.mem_cons,ih,Prod.mk.injEq,Entry.accepted.injEq,
      Entry.dropped.injEq,reduceCtorEq,false_or] <;> tauto

/-- A list that is split at an element, with one more element at its end. -/
theorem concat_eq_split {entry last : Entry α} {before after : List (Entry α)}
    (hsame : trace++[last]=before++entry::after) : (before=trace ∧ entry=last) ∨
      ∃ middle,after=middle++[last] ∧ trace=before++entry::middle := by
  rcases List.eq_nil_or_concat' after with rfl|⟨middle,found,rfl⟩
  · obtain ⟨hbefore,hlast⟩ := List.append_inj' hsame rfl
    exact Or.inl ⟨hbefore.symm,(List.singleton_inj.mp hlast).symm⟩
  · rw [← List.cons_append,← List.append_assoc] at hsame
    obtain ⟨hbefore,hlast⟩ := List.append_inj' hsame rfl
    exact Or.inr ⟨middle,by rw [List.singleton_inj.mp hlast],hbefore⟩

/-- After an event is accepted, it alone is waiting. -/
theorem waiting_accepted :
    Waiting (trace++[.accepted number event]) other next ↔ other=number ∧ next=event := by
  constructor
  · rintro ⟨before,between,hsplit,hnone,-⟩
    rcases concat_eq_split hsplit with ⟨-,hsame⟩|⟨middle,rfl,-⟩
    · cases hsame
      exact ⟨rfl,rfl⟩
    · exact absurd (List.mem_append_right _ List.mem_cons_self) (hnone number event)
  · rintro ⟨rfl,rfl⟩
    exact ⟨trace,[],rfl,by simp,by simp⟩

/-- Otherwise the waiting event goes on waiting, unless it is given out. -/
theorem waiting_other {entry : Entry α} (hentry : ∀ n e,entry≠.accepted n e) :
    Waiting (trace++[entry]) other next ↔
      Waiting trace other next ∧ ∀ found,.delivered other found≠entry := by
  constructor
  · rintro ⟨before,between,hsplit,hnone,hkept⟩
    rcases concat_eq_split hsplit with ⟨-,hsame⟩|⟨middle,rfl,htrace⟩
    · exact absurd hsame.symm (hentry other next)
    · simp only [List.mem_append,List.mem_singleton,not_or] at hnone hkept
      exact ⟨⟨before,middle,htrace,fun n e => (hnone n e).1,fun e => (hkept e).1⟩,
        fun e => (hkept e).2⟩
  · rintro ⟨⟨before,between,rfl,hnone,hkept⟩,hother⟩
    refine ⟨before,between++[entry],by simp,?_,?_⟩
    · simpa [hnone] using fun n e h => hentry n e h.symm
    · simpa [hkept] using hother

/-- A waiting event was offered. -/
theorem Waiting.mem_offered (hwaiting : Waiting trace number event) :
    (number,event)∈offered trace := by
  obtain ⟨before,between,rfl,-⟩ := hwaiting
  exact CoalescingQueue.mem_offered.mpr (Or.inl (by simp))

variable {merges}

/-- One more entry supersedes the waiting event if it accepts another and
both are mergeable. -/
theorem superseded_append {entry : Entry α} :
    Superseded merges (trace++[entry]) number ↔ Superseded merges trace number ∨
      ∃ n e event,entry=.accepted n e ∧ merges e=true ∧ merges event=true ∧
        Waiting trace number event := by
  constructor
  · rintro ⟨before,after,found,n,e,hsplit,hrest⟩
    rcases concat_eq_split hsplit with ⟨rfl,hsame⟩|⟨middle,-,htrace⟩
    · exact Or.inr ⟨n,e,found,hsame.symm,hrest⟩
    · exact Or.inl ⟨before,middle,found,n,e,htrace,hrest⟩
  · rintro (⟨before,after,found,n,e,rfl,hrest⟩|⟨n,e,event,rfl,hrest⟩)
    · exact ⟨before,after++[entry],found,n,e,by simp,hrest⟩
    · exact ⟨trace,[],event,n,e,rfl,hrest⟩

/-- A superseded event was offered. -/
theorem Superseded.mem_offered (hsuperseded : Superseded merges trace number) :
    ∃ event,(number,event)∈offered trace := by
  obtain ⟨before,after,event,next,following,rfl,-,-,hwaiting⟩ := hsuperseded
  refine ⟨event,?_⟩
  rw [offered_append]
  exact List.mem_append_left _ hwaiting.mem_offered

end

/-! ## Runs -/

/-- The events that were neither dropped nor superseded. -/
noncomputable def kept (trace : List (Entry α)) : List (ℕ×α) :=
  open Classical in
  (offered trace).filter fun item => ¬Dropped trace item.1 ∧ ¬Superseded merges trace item.1

/-- What holds in every run. -/
structure Holds (trace : List (Entry α)) (queue : List (ℕ×α)) : Prop where
  /-- The queue is not longer than allowed. -/
  bounded : queue.length ≤ capacity
  /-- Events are numbered in order. -/
  numbered : (offered trace).map Prod.fst=List.range (offered trace).length
  /-- What was given out and what is queued. -/
  exact : delivered trace++queue=kept merges trace
  /-- The last queued event is the one that is waiting. -/
  last : ∀ number event,queue.getLast?=some (number,event) ↔ Waiting trace number event

section

variable {merges : α → Bool} {capacity : ℕ} {trace : List (Entry α)} {queue : List (ℕ×α)}

section

variable (hholds : Holds merges capacity trace queue)
include hholds

/-- Numbers of offered events are below their count. -/
theorem Holds.number_lt {number : ℕ} {event : α}
    (hmem : (number,event)∈offered trace) : number<(offered trace).length := by
  have hfst : number∈(offered trace).map Prod.fst := List.mem_map.mpr ⟨_,hmem,rfl⟩
  rw [hholds.numbered] at hfst
  exact List.mem_range.mp hfst

/-- Numbers of events that were given out or are queued are distinct. -/
theorem Holds.nodup : ((delivered trace++queue).map Prod.fst).Nodup := by
  rw [hholds.exact,kept]
  refine List.Nodup.sublist (List.Sublist.map _ List.filter_sublist) ?_
  rw [hholds.numbered]
  exact List.nodup_range

/-- Numbers of events that were given out or are queued ascend. -/
theorem Holds.ascending : ((delivered trace++queue).map Prod.fst).Pairwise (·<·) := by
  rw [hholds.exact,kept]
  refine List.Pairwise.sublist (List.Sublist.map _ List.filter_sublist) ?_
  rw [hholds.numbered]
  exact List.pairwise_lt_range

/-- An event that is not mergeable and was not dropped was given out or is
queued. -/
theorem Holds.mem_of_not_merges {number : ℕ}
    {event : α} (hmem : (number,event)∈offered trace) (hmerges : merges event=false)
    (hdropped : ¬Dropped trace number) : (number,event)∈delivered trace++queue := by
  classical
  rw [hholds.exact,kept]
  refine List.mem_filter.mpr ⟨hmem,decide_eq_true ⟨hdropped,?_⟩⟩
  rintro ⟨before,after,found,next,following,htrace,-,hfound,hwaiting⟩
  -- numbers are unique, so the superseded event would be this one
  have hoffered : (number,found)∈offered trace := by
    rw [htrace,offered_append]
    exact List.mem_append_left _ hwaiting.mem_offered
  have hnodup : ((offered trace).map Prod.fst).Nodup := by
    rw [hholds.numbered]
    exact List.nodup_range
  have hsame := List.inj_on_of_nodup_map hnodup hmem hoffered rfl
  cases hsame
  rw [hmerges] at hfound
  cases hfound

/-- The numbers of one more offer. -/
theorem Holds.numbered_offer {entry : Entry α}
    {event : α} (hentry : offered [entry]=[((offered trace).length,event)]) :
    (offered (trace++[entry])).map Prod.fst=List.range (offered (trace++[entry])).length := by
  rw [offered_append,hentry,List.map_append,hholds.numbered,List.length_append,
    List.length_singleton,List.range_succ]
  rfl

end

/-- What one more entry keeps, if it affects the numbers in `gone`. -/
theorem kept_append {entry : Entry α} (gone : ℕ → Prop)
    (hgone : ∀ number,(¬Dropped (trace++[entry]) number ∧ ¬Superseded merges (trace++[entry]) number)
      ↔ (¬Dropped trace number ∧ ¬Superseded merges trace number) ∧ ¬gone number) :
    open Classical in
    kept merges (trace++[entry])=((kept merges trace).filter fun found => ¬gone found.1)++
      (offered [entry]).filter fun found =>
        (¬Dropped trace found.1 ∧ ¬Superseded merges trace found.1) ∧ ¬gone found.1 := by
  classical
  simp only [kept,offered_append,List.filter_append,List.filter_filter,hgone,Bool.decide_and,
    Bool.and_comm]

/-- The number of the next event is new. -/
theorem Holds.fresh (hholds : Holds merges capacity trace queue) :
    ¬Dropped trace (offered trace).length ∧ ¬Superseded merges trace (offered trace).length ∧
      ∀ event,¬Waiting trace (offered trace).length event := by
  refine ⟨?_,?_,?_⟩
  · rintro ⟨event,hmem⟩
    exact absurd (hholds.number_lt (mem_offered.mpr (Or.inr hmem))) (lt_irrefl _)
  · intro hsuperseded
    obtain ⟨event,hmem⟩ := hsuperseded.mem_offered
    exact absurd (hholds.number_lt hmem) (lt_irrefl _)
  · intro event hwaiting
    exact absurd (hholds.number_lt hwaiting.mem_offered) (lt_irrefl _)

/-- A queue that ends in a mergeable event. -/
theorem endsMergeable_cases (hends : endsMergeable merges queue=true) :
    ∃ first number event,queue=first++[(number,event)] ∧ merges event=true := by
  rw [endsMergeable] at hends
  split at hends
  · rename_i last hlast
    obtain ⟨first,rfl⟩ := List.getLast?_eq_some_iff.mp hlast
    exact ⟨first,last.1,last.2,rfl,hends⟩
  · cases hends

section

variable (hholds : Holds merges capacity trace queue)
include hholds

/-- An accepted event comes behind what is left without the one that it
replaces. -/
theorem Holds.accept {event : α} {first : List (ℕ×α)} (hroom : first.length<capacity)
    (hfirst : open Classical in (delivered trace++queue).filter (fun found =>
      ¬∃ next,merges event=true ∧ merges next=true ∧ Waiting trace found.1 next)=
        delivered trace++first) :
    Holds merges capacity (trace++[.accepted (offered trace).length event])
      (first++[((offered trace).length,event)]) := by
  classical
  obtain ⟨hdropped,hsuperseded,hwaiting⟩ := hholds.fresh
  refine ⟨by simpa using hroom,hholds.numbered_offer rfl,?_,fun other next => ?_⟩
  · have hkept := @kept_append _ merges trace (.accepted (offered trace).length event)
      (fun number => ∃ next,merges event=true ∧ merges next=true ∧ Waiting trace number next)
      fun number => by simp [superseded_append,Dropped,and_assoc]
    rw [hkept,← hholds.exact,hfirst,delivered_append]
    simp [delivered,offered,hdropped,hsuperseded,hwaiting]
  · rw [waiting_accepted,List.getLast?_concat,Option.some.injEq,Prod.mk.injEq]
    exact and_congr eq_comm eq_comm

/-- A mergeable event replaces a mergeable one at the end. -/
theorem Holds.merge {event : α}
    (hmerges : merges event=true) (hends : endsMergeable merges queue=true) :
    Holds merges capacity (trace++[.accepted (offered trace).length event])
      (queue.dropLast++[((offered trace).length,event)]) := by
  classical
  obtain ⟨first,replaced,old,rfl,hold⟩ := endsMergeable_cases hends
  have hbounded := hholds.bounded
  rw [List.length_append,List.length_singleton] at hbounded
  have hlast : ∀ number,(∃ next,merges event=true ∧ merges next=true ∧ Waiting trace number next) ↔
      number=replaced := by
    intro number
    simp only [← hholds.last,List.getLast?_concat,Option.some.injEq,Prod.mk.injEq]
    constructor
    · rintro ⟨_,-,-,hnumber,-⟩
      exact hnumber.symm
    · exact fun hsame => ⟨old,hmerges,hold,hsame.symm,rfl⟩
  have hnodup := hholds.nodup
  rw [← List.append_assoc,List.map_append,List.nodup_append] at hnodup
  have hothers : ∀ item∈delivered trace++first,item.1≠replaced := fun item hmem =>
    hnodup.2.2 item.1 (List.mem_map_of_mem hmem) replaced (by simp)
  rw [List.dropLast_concat]
  refine hholds.accept hbounded ?_
  simp only [hlast]
  rw [← List.append_assoc,List.filter_append,List.filter_eq_self.mpr (by simpa using hothers)]
  simp

/-- An event is queued behind one that it cannot replace. -/
theorem Holds.enqueue {event : α} (hkeeps : ¬(merges event=true ∧ endsMergeable merges queue=true))
    (hroom : queue.length<capacity) :
    Holds merges capacity (trace++[.accepted (offered trace).length event])
      (queue++[((offered trace).length,event)]) := by
  classical
  refine hholds.accept hroom (List.filter_eq_self.mpr fun found _ => decide_eq_true ?_)
  rintro ⟨next,hmerges,hnext,hwaits⟩
  refine hkeeps ⟨hmerges,?_⟩
  rw [endsMergeable,(hholds.last found.1 next).mpr hwaits]
  exact hnext

/-- An event is dropped. -/
theorem Holds.drop (event : α) :
    Holds merges capacity (trace++[.dropped (offered trace).length event]) queue := by
  classical
  refine ⟨hholds.bounded,hholds.numbered_offer rfl,?_,fun other next => ?_⟩
  · have hkept := @kept_append _ merges trace (.dropped (offered trace).length event)
      (fun number => number=(offered trace).length) fun number => by
        simp [superseded_append,Dropped,exists_or]
        tauto
    have hold : ∀ found∈kept merges trace,found.1≠(offered trace).length := fun found hmem =>
      (hholds.number_lt (List.mem_filter.mp hmem).1).ne
    rw [hkept,List.filter_eq_self.mpr (by simpa using hold),← hholds.exact,delivered_append]
    simp [delivered,offered]
  · rw [waiting_other (by simp),← hholds.last]
    simp

end

/-- The first event is given out. -/
theorem Holds.take {number : ℕ} {event : α}
    (hholds : Holds merges capacity trace ((number,event)::queue)) :
    Holds merges capacity (trace++[.delivered number event]) queue := by
  have hbounded := hholds.bounded
  rw [List.length_cons] at hbounded
  refine ⟨by omega,?_,?_,fun other next => ?_⟩
  · rw [offered_append]
    simp only [offered,List.append_nil]
    exact hholds.numbered
  · have hkept := @kept_append _ merges trace (.delivered number event) (fun _ => False)
      fun other => by simp [superseded_append,Dropped]
    rw [hkept,delivered_append,← hholds.exact]
    simp [delivered,offered]
  · rw [waiting_other (by simp),← hholds.last]
    have hnodup := hholds.nodup
    rw [List.map_append,List.nodup_append,List.map_cons,List.nodup_cons] at hnodup
    cases queue with
    | nil =>
      refine iff_of_false (by simp) ?_
      rintro ⟨hlast,hother⟩
      cases hlast
      exact hother event rfl
    | cons first rest =>
      rw [List.getLast?_cons_cons]
      refine ⟨fun hlast => ⟨hlast,fun found hsame => ?_⟩,And.left⟩
      cases hsame
      exact hnodup.2.1.1 (List.mem_map.mpr ⟨_,List.mem_of_getLast? hlast,rfl⟩)

/-- Every run keeps the queue exact. -/
theorem Run.holds (hrun : Run merges capacity trace queue) : Holds merges capacity trace queue := by
  induction hrun with
  | start =>
    refine ⟨Nat.zero_le _,rfl,rfl,fun number event => ?_⟩
    refine iff_of_false (by simp) ?_
    rintro ⟨before,between,hsplit,-⟩
    simp at hsplit
  | @offer trace queue event hpast ih =>
    rw [CoalescingQueue.offer]
    split
    · rename_i hmerge
      rw [Bool.and_eq_true] at hmerge
      exact ih.merge hmerge.1 hmerge.2
    · rename_i hkeeps
      rw [Bool.and_eq_true] at hkeeps
      split
      · rename_i hroom
        exact ih.enqueue hkeeps hroom
      · exact ih.drop event
  | take hpast ih => exact ih.take

end

end TuwaiqOS.CoalescingQueue
