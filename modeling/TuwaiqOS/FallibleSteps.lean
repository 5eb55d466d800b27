import Mathlib.Data.List.Basic
import Mathlib.Control.Basic

/-!
# Sequences of fallible steps

A step either returns a value or stops with a text. What is known about a
sequence of steps that succeeded, or about a check or a step made for each
element of a list, is what each single step says.
-/

namespace TuwaiqOS.FallibleSteps

/-- A sequence of fallible steps succeeds exactly when each step does. -/
theorem bind_ok_iff {ε α β : Type} {first : Except ε α} {rest : α → Except ε β} {result : β} :
    (first>>=rest)=.ok result ↔ ∃ value,first=.ok value ∧ rest value=.ok result := by
  cases first with
  | error reason =>
    constructor
    · intro h
      cases h
    · rintro ⟨_,h,_⟩
      cases h
  | ok value =>
    constructor
    · exact fun h => ⟨value,rfl,h⟩
    · rintro ⟨_,h,hrest⟩
      cases h
      exact hrest

/-- A step that succeeds hands its value on. -/
theorem bind_of_ok {ε α β : Type} {first : Except ε α} {value : α} (hfirst : first=.ok value)
    (rest : α → Except ε β) : (first>>=rest)=rest value := by
  rw [hfirst]
  rfl

section

variable {ε α β : Type} {failure : ε → Prop} {success : α → Prop}

/-- What a step returns satisfies `success`, and what it stops with `failure`. -/
def Outcome (failure : ε → Prop) (success : α → Prop) : Except ε α → Prop
  | .ok value => success value
  | .error reason => failure reason

theorem Outcome.imp {step : Except ε α} {other : ε → Prop} {wider : α → Prop}
    (houtcome : Outcome failure success step) (hfailure : ∀ reason,failure reason → other reason)
    (hsuccess : ∀ value,success value → wider value) : Outcome other wider step := by
  cases step with
  | error reason => exact hfailure reason houtcome
  | ok value => exact hsuccess value houtcome

/-- Nothing is asked of a step. -/
theorem outcome_any (step : Except ε α) : Outcome (fun _ => True) (fun _ => True) step := by
  cases step <;> trivial

/-- The second step only runs on what the first one returned. -/
theorem outcome_bind {step : Except ε α} {rest : α → Except ε β} {final : β → Prop}
    (hstep : Outcome failure success step) (hrest : ∀ value,success value →
      Outcome failure final (rest value)) : Outcome failure final (step>>=rest) := by
  cases step with
  | error reason => exact hstep
  | ok value => exact hrest value hstep

/-- A choice between two steps. -/
theorem outcome_ite {condition : Prop} [Decidable condition] {yes no : Except ε α}
    (hyes : condition → Outcome failure success yes)
    (hno : ¬condition → Outcome failure success no) :
    Outcome failure success (if condition then yes else no) := by
  by_cases hcondition : condition
  · rw [if_pos hcondition]
    exact hyes hcondition
  · rw [if_neg hcondition]
    exact hno hcondition

end

/-- A check of all elements succeeds exactly when it does for each. -/
theorem forM_ok_iff {α : Type} {list : List α} {check : α → Except String Unit} :
    list.forM check=.ok () ↔ ∀ element∈list,check element=.ok () := by
  induction list with
  | nil => simp only [List.not_mem_nil,false_imp_iff,implies_true,iff_true]; rfl
  | cons first rest ih =>
    change (check first>>=fun _ => rest.forM check)=.ok () ↔ _
    rw [bind_ok_iff,List.forall_mem_cons,← ih]
    constructor
    · rintro ⟨_,hfirst,hrest⟩
      exact ⟨hfirst,hrest⟩
    · exact fun h => ⟨(),h.1,h.2⟩

section

variable {α β : Type} {list : List α} {step : α → Except String β} {results : List β}

theorem mapM_cons_ok {first : α} (hrun : (first::list).mapM step=.ok results) :
    ∃ value values,results=value::values ∧ step first=.ok value ∧ list.mapM step=.ok values := by
  rw [List.mapM_cons] at hrun
  obtain ⟨value,hvalue,hrest⟩ := bind_ok_iff.mp hrun
  obtain ⟨values,hvalues,hsame⟩ := bind_ok_iff.mp hrest
  cases hsame
  exact ⟨value,values,rfl,hvalue,hvalues⟩

/-- Every result comes from an element. -/
theorem mapM_mem (hrun : list.mapM step=.ok results) {result : β} (hmem : result∈results) :
    ∃ element∈list,step element=.ok result := by
  induction list generalizing results with
  | nil =>
    cases hrun
    exact absurd hmem List.not_mem_nil
  | cons first rest ih =>
    obtain ⟨value,values,rfl,hvalue,hvalues⟩ := mapM_cons_ok hrun
    rcases List.mem_cons.mp hmem with rfl|hlater
    · exact ⟨first,List.mem_cons_self,hvalue⟩
    · obtain ⟨element,helement,hstep⟩ := ih hvalues hlater
      exact ⟨element,List.mem_cons_of_mem _ helement,hstep⟩

/-- Every element has its result. -/
theorem mapM_result (hrun : list.mapM step=.ok results) {element : α} (hmem : element∈list) :
    ∃ result∈results,step element=.ok result := by
  induction list generalizing results with
  | nil => exact absurd hmem List.not_mem_nil
  | cons first rest ih =>
    obtain ⟨value,values,rfl,hvalue,hvalues⟩ := mapM_cons_ok hrun
    rcases List.mem_cons.mp hmem with rfl|hlater
    · exact ⟨value,List.mem_cons_self,hvalue⟩
    · obtain ⟨result,hresult,hstep⟩ := ih hvalues hlater
      exact ⟨result,List.mem_cons_of_mem _ hresult,hstep⟩

/-- The results stand in the order of the elements. -/
theorem mapM_map {γ : Type} {view : β → γ} {source : α → γ}
    (hview : ∀ element∈list,∀ result,step element=.ok result → view result=source element)
    (hrun : list.mapM step=.ok results) : results.map view=list.map source := by
  induction list generalizing results with
  | nil =>
    cases hrun
    rfl
  | cons first rest ih =>
    obtain ⟨value,values,rfl,hvalue,hvalues⟩ := mapM_cons_ok hrun
    obtain ⟨hfirst,hrest⟩ := List.forall_mem_cons.mp hview
    rw [List.map_cons,List.map_cons,hfirst value hvalue,ih hrest hvalues]

/-- A step that succeeds for each element succeeds for all. -/
theorem mapM_isOk (hall : ∀ element∈list,∃ result,step element=.ok result) :
    ∃ results,list.mapM step=.ok results := by
  induction list with
  | nil => exact ⟨[],rfl⟩
  | cons first rest ih =>
    obtain ⟨⟨value,hvalue⟩,hrest⟩ := List.forall_mem_cons.mp hall
    obtain ⟨values,hvalues⟩ := ih hrest
    refine ⟨value::values,?_⟩
    rw [List.mapM_cons,hvalue,hvalues]
    rfl

end

end TuwaiqOS.FallibleSteps
