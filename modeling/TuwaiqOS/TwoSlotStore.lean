import Mathlib.Tactic

/-!
# Two alternating slots with generations

A store keeps one value in two slots. A valid slot carries a generation and
a value; a reader selects the valid slot of the higher generation, the first
slot on a tie. A writer that knows the selected slot first makes the other
slot invalid and then valid again with the next generation. Neither step can
make the reader select anything but the old or the new value.
-/

namespace TuwaiqOS.TwoSlotStore

variable {α : Type} {slots later : ℕ → Option (ℕ×α)} {active generation : ℕ} {value : α}

/-- Slot, generation and value that a reader of the two slots selects. -/
def pick (slots : ℕ → Option (ℕ×α)) : Option (ℕ×ℕ×α) :=
  match slots 0,slots 1 with
  | some first,some second =>
    if first.1≥second.1 then some (0,first) else some (1,second)
  | some first,none => some (0,first)
  | none,some second => some (1,second)
  | none,none => none

/-- A slot number other than the given one. -/
def other (slot : ℕ) : ℕ := 1-min slot 1

/-- The selected slot is one of the two and is valid. -/
theorem pick_valid (hpick : pick slots=some (active,generation,value)) :
    active<2 ∧ slots active=some (generation,value) := by
  rw [pick] at hpick
  rcases hfirst : slots 0 with _|first <;> rcases hsecond : slots 1 with _|second <;>
    simp only [hfirst,hsecond] at hpick
  · cases hpick
  · cases hpick
    exact ⟨by decide,hsecond⟩
  · cases hpick
    exact ⟨by decide,hfirst⟩
  · split at hpick
    · cases hpick
      exact ⟨by decide,hfirst⟩
    · cases hpick
      exact ⟨by decide,hsecond⟩

/-- A reader finds something as soon as one slot is valid. -/
theorem pick_isSome {slot : ℕ} (hslot : slot<2) (hvalid : (slots slot).isSome) :
    ∃ active generation value,pick slots=some (active,generation,value) := by
  rw [pick]
  obtain rfl|rfl : slot=0 ∨ slot=1 := by omega
  · obtain ⟨first,hfirst⟩ := Option.isSome_iff_exists.mp hvalid
    rcases slots 1 with _|second <;> simp only [hfirst]
    · exact ⟨_,_,_,rfl⟩
    · split <;> exact ⟨_,_,_,rfl⟩
  · obtain ⟨second,hsecond⟩ := Option.isSome_iff_exists.mp hvalid
    rcases slots 0 with _|first <;> simp only [hsecond]
    · exact ⟨_,_,_,rfl⟩
    · split <;> exact ⟨_,_,_,rfl⟩

/-- A slot beside an invalid one is selected. -/
theorem pick_of_other_none (hactive : active<2) (hvalid : slots active=some (generation,value))
    (hother : slots (other active)=none) : pick slots=some (active,generation,value) := by
  obtain rfl|rfl : active=0 ∨ active=1 := by omega
  · simp only [pick,hvalid,show slots 1=none from hother]
  · simp only [pick,hvalid,show slots 0=none from hother]

/-- Of two valid slots the one of the strictly higher generation is
selected. -/
theorem pick_of_newer {older : ℕ×α} (hactive : active<2)
    (hvalid : slots active=some (generation,value)) (hother : slots (other active)=some older)
    (hnewer : older.1<generation) : pick slots=some (active,generation,value) := by
  obtain rfl|rfl : active=0 ∨ active=1 := by omega
  · simp only [pick,hvalid,show slots 1=some older from hother,if_pos hnewer.le]
  · simp only [pick,hvalid,show slots 0=some older from hother,if_neg (not_le.mpr hnewer)]

theorem other_lt (slot : ℕ) : other slot<2 := by
  rw [other]
  omega

theorem other_other (hactive : active<2) : other (other active)=active := by
  rw [other,other]
  omega

/-- A writer is in step with the slots: the slot and generation it remembers
are valid, and a reader selects the same value. -/
structure InStep (slots : ℕ → Option (ℕ×α)) (active generation : ℕ) (value : α) : Prop where
  /-- The writer remembers one of the two slots. -/
  inRange : active<2
  /-- That slot is valid with the remembered generation. -/
  valid : slots active=some (generation,value)
  /-- A reader selects its value, there or in the other slot. -/
  selected : ∃ slot number,pick slots=some (slot,number,value)

/-- A reader that becomes the writer is in step. -/
theorem InStep.of_pick (hpick : pick slots=some (active,generation,value)) :
    InStep slots active generation value :=
  ⟨(pick_valid hpick).1,(pick_valid hpick).2,active,generation,hpick⟩

section

variable (hstep : InStep slots active generation value)
include hstep

section

variable (hkept : later active=slots active)
include hkept

/-- Making the other slot invalid keeps the writer in step. -/
theorem InStep.invalidated (hinvalid : later (other active)=none) :
    InStep later active generation value :=
  .of_pick (pick_of_other_none hstep.inRange (hkept.trans hstep.valid) hinvalid)

/-- Making the other slot valid with a higher generation moves the reader
there. -/
theorem InStep.committed {next : ℕ} {fresh : α} (hfresh : later (other active)=some (next,fresh))
    (hnext : generation<next) : InStep later (other active) next fresh := by
  have hold : later (other (other active))=some (generation,value) := by
    rw [other_other hstep.inRange,hkept,hstep.valid]
  exact .of_pick (pick_of_newer (other_lt active) hfresh hold hnext)

/-- A writer that does not learn of the move is still in step when the new
value is the old one. -/
theorem InStep.recommitted {next : ℕ} (hfresh : later (other active)=some (next,value))
    (hnext : generation<next) : InStep later active generation value :=
  ⟨hstep.inRange,hkept.trans hstep.valid,(hstep.committed hkept hfresh hnext).selected⟩

end

end

end TuwaiqOS.TwoSlotStore
