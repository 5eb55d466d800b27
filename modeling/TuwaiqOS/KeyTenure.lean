import TuwaiqOS.InputOwnership

/-!
# Keys and hand-offs of the keyboard

A key event goes to the owner of the keyboard. A hand-off drops a pending
`0xE0` but neither the state of the two Shift keys nor the rest of the
sequence: the second byte is then read by the plain table, and a held Shift
capitalises the keys of the next owner. Where no Shift is held at the
hand-off, the events of a tenure are those that a fresh decoder makes of the
tenure's own scancodes.
-/

namespace TuwaiqOS.KeyTenure

open InputQueues InputOwnership

/-! ## Tenures -/

/-- The first step after the last hand-off before step `n`. -/
def tenureStart (actions : ℕ → Action) : ℕ → ℕ
  | 0 => 0
  | n+1 =>
    match actions n with
    | .setForeground _ => n+1
    | _ => tenureStart actions n

/-- The scancodes since then. -/
def tenureBytes (actions : ℕ → Action) : ℕ → List UInt8
  | 0 => []
  | n+1 =>
    match actions n with
    | .setForeground _ => []
    | .scancode byte => tenureBytes actions n++[byte]
    | _ => tenureBytes actions n

/-- No modifier held and no sequence begun. -/
def freshKeys : KeyDecoder := ⟨false,false,false⟩

theorem eq_freshKeys {keys : KeyDecoder} (hshift : shiftActive keys=false)
    (hpending : keys.extendedPending=false) : keys=freshKeys := by
  rcases keys with ⟨left,right,pending⟩
  rw [shiftActive,Bool.or_eq_false_iff] at hshift
  rw [freshKeys,KeyDecoder.mk.injEq]
  exact ⟨hshift.1,hshift.2,hpending⟩

/-- The decoder after a stretch of scancodes. -/
def feedKeys (keys : KeyDecoder) (bytes : List UInt8) : KeyDecoder :=
  bytes.foldl (fun keys byte => (decodeScancode byte keys).2) keys

/-- What a step does to the decoder. -/
def keysAfter (keys : KeyDecoder) : Action → KeyDecoder
  | .scancode byte => (decodeScancode byte keys).2
  | .setForeground _ => {keys with extendedPending := false}
  | _ => keys

/-! ## The decoder along a run -/

theorem keys_push (tick : ℕ) (label : Origin) (event : InputEvent) (input : Input Origin) :
    (push tick label event input).keys=input.keys := by
  unfold push
  split
  · rfl
  · dsimp only
    split_ifs <;> rfl

theorem keys_pushKeyEvent (tick : ℕ) (label : Origin) (event : KeyEvent) (input : Input Origin) :
    (pushKeyEvent tick label event input).keys=input.keys := by
  unfold pushKeyEvent
  split
  · rfl
  · exact keys_push tick label _ input

theorem keys_pushAll (tick : ℕ) (label : ℕ → Origin) (events : List InputEvent) (ordinal : ℕ)
    (input : Input Origin) : (pushAll tick label ordinal events input).keys=input.keys := by
  induction events generalizing ordinal input with
  | nil => rfl
  | cons event rest ih => rw [pushAll,ih,keys_push]

theorem keys_step (screen : Option (ℕ×ℕ)) (tick : ℕ) (label : ℕ → Origin) (input : Input Origin)
    (action : Action) :
    (step screen tick label input action).1.keys=keysAfter input.keys action := by
  cases action with
  | scancode byte =>
    simp only [step,onScancode,keysAfter]
    split
    · rfl
    · unfold route pushShell
      split
      · split <;> rfl
      · exact keys_pushKeyEvent _ _ _ _
  | mouseByte byte =>
    simp only [step,onByte,handlePacket,keysAfter]
    split
    · rfl
    · split
      · rfl
      · split
        · rfl
        · exact keys_pushAll _ _ _ _ _
  | setForeground processId =>
    simp only [step,setForegroundProcessId,keysAfter]
    split <;> rfl
  | inputPoll caller outLen valid copy =>
    have hpolls := step_polls screen tick label input
      (show ¬Pushes (.inputPoll caller outLen valid copy) from not_false) not_false
    generalize step screen tick label input (.inputPoll caller outLen valid copy)=result at hpolls
    cases hpolls <;> rfl
  | pollKey =>
    simp only [step,pollKey]
    split <;> rfl
  | pushKey event => exact keys_pushKeyEvent _ _ _ _

section

variable (screen : Option (ℕ×ℕ)) (ticks : ℕ → ℕ) {actions : ℕ → Action} {m n : ℕ} {byte : UInt8}

/-- The decoder is where the tenure's scancodes bring it from the state at
the hand-off, at which no sequence was begun. -/
theorem keys_tenure (actions : ℕ → Action) (n : ℕ) : (stateAt screen ticks actions n).keys=
      feedKeys (stateAt screen ticks actions (tenureStart actions n)).keys (tenureBytes actions n) ∧
      (stateAt screen ticks actions (tenureStart actions n)).keys.extendedPending=false := by
  induction n with
  | zero => exact ⟨rfl,rfl⟩
  | succ n ih =>
    have hkeys := keys_step screen (ticks n) (Origin.mk n) (stateAt screen ticks actions n) (actions n)
    rw [← stateWith] at hkeys
    rw [tenureStart,tenureBytes]
    cases haction : actions n with
    | setForeground processId =>
      rw [haction] at hkeys
      exact ⟨rfl,congrArg KeyDecoder.extendedPending hkeys⟩
    | scancode byte =>
      rw [haction,keysAfter,ih.1] at hkeys
      exact ⟨by rw [hkeys,feedKeys,feedKeys,List.foldl_append]; rfl,ih.2⟩
    | _ =>
      rw [haction] at hkeys
      exact ⟨hkeys.trans ih.1,ih.2⟩

theorem tenureStart_le (actions : ℕ → Action) (n : ℕ) : tenureStart actions n ≤ n := by
  induction n with
  | zero => exact le_rfl
  | succ n ih =>
    rw [tenureStart]
    split <;> omega

/-- Without a hand-off since, a scancode belongs to the tenure. -/
theorem tenure_of_undisturbed (hbyte : actions m=.scancode byte) (hless : m<n)
    (hkeep : ∀ k,m ≤ k → k<n → ¬HandsOff (actions k)) :
    tenureStart actions n=tenureStart actions m ∧
      tenureBytes actions m++[byte]<+:tenureBytes actions n := by
  induction n, hless using Nat.le_induction with
  | base =>
    rw [tenureStart,tenureBytes,hbyte]
    exact ⟨rfl,List.prefix_refl _⟩
  | succ n hle ih =>
    obtain ⟨hstart,hinitial⟩ := ih fun k hlow hhigh => hkeep k hlow (by omega)
    have hlast := hkeep n (by omega) (by omega)
    rw [tenureStart,tenureBytes]
    cases haction : actions n with
    | setForeground processId =>
      rw [haction] at hlast
      exact absurd trivial hlast
    | scancode later => exact ⟨hstart,hinitial.trans (List.prefix_append _ _)⟩
    | _ => exact ⟨hstart,hinitial⟩

/-- After a hand-off and no scancode since, the tenure has none. -/
theorem tenureBytes_nil (hhand : HandsOff (actions m)) (hless : m<n)
    (hquiet : ∀ k,m<k → k<n → ∀ byte,actions k≠.scancode byte) : tenureBytes actions n=[] := by
  induction n, hless using Nat.le_induction with
  | base =>
    rw [tenureBytes]
    cases haction : actions m with
    | setForeground processId => rfl
    | _ =>
      rw [haction] at hhand
      exact hhand.elim
  | succ n hle ih =>
    have hbefore := ih fun k hlow hhigh => hquiet k hlow (by omega)
    rw [tenureBytes]
    cases haction : actions n with
    | setForeground processId => rfl
    | scancode byte => exact absurd haction (hquiet n (by omega) (by omega) byte)
    | _ => exact hbefore

/-- A queued key was decoded when its last scancode came. -/
theorem pending_decoded {origin : Origin} {event : Pushed}
    (hmem : (origin,event)∈pending (stateAt screen ticks actions n))
    (hbyte : actions origin.step=.scancode byte) :
    ∃ key,(decodeScancode byte (stateAt screen ticks actions origin.step).keys).1=some key ∧
      (event=.inl key ∨ ∃ code,keyCode key=some code ∧ event=.inr (.keyDown code)) := by
  have hsource := ((kept_at screen ticks actions n).ordered.fitting _ hmem).source
  rw [hbyte,produced] at hsource
  cases hkey : (decodeScancode byte (stateAt screen ticks actions origin.step).keys).1 with
  | none =>
    rw [hkey] at hsource
    cases hsource
  | some key =>
    rw [hkey] at hsource
    have hevent := List.mem_of_getElem? hsource
    refine ⟨key,rfl,?_⟩
    dsimp only at hevent
    split at hevent
    · exact Or.inl (List.mem_singleton.mp hevent)
    · rw [Option.mem_toList,Option.map_eq_some_iff] at hevent
      obtain ⟨code,hcode,heq⟩ := hevent
      exact Or.inr ⟨code,hcode,heq.symm⟩

end

/-! ## Events and tenures -/

/-- Over every interleaving of scancodes, hand-offs and the other calls:
while no Shift was held when the tenure began, a key in a queue was decoded,
by a decoder in its first state, from scancodes of the tenure alone; and of
an extended key whose two bytes are split by a hand-off neither owner gets
an event when the second byte alone is no key. -/
theorem keys_within_tenure (screen : Option (ℕ×ℕ)) (ticks : ℕ → ℕ) (actions : ℕ → Action) :
    (∀ n,shiftActive (stateAt screen ticks actions (tenureStart actions n)).keys=false →
      ∀ origin event byte,(origin,event)∈pending (stateAt screen ticks actions n) →
      actions origin.step=.scancode byte →
      tenureStart actions n ≤ origin.step ∧ origin.step<n ∧
      tenureBytes actions origin.step++[byte]<+:tenureBytes actions n ∧
      ∃ key,(decodeScancode byte (feedKeys freshKeys (tenureBytes actions origin.step))).1=some key ∧
        (event=.inl key ∨ ∃ code,keyCode key=some code ∧ event=.inr (.keyDown code))) ∧
    ∀ first hand second byte,first<hand → hand<second → HandsOff (actions hand) →
      actions first=.scancode 0xE0 → actions second=.scancode byte →
      (∀ k,first<k → k<second → ∀ other,actions k≠.scancode other) →
      (stateAt screen ticks actions first).keys.extendedPending=false →
      ∀ n origin event,(origin,event)∈pending (stateAt screen ticks actions n) →
      origin.step≠first ∧
      ((translateScancode byte (stateAt screen ticks actions second).keys).1=none →
        origin.step≠second) := by
  refine ⟨fun n hshift origin event byte hmem hbyte => ?_,
    fun first hand second byte hfirst hsecond hhand hinitial hbyte hquiet hidle n origin event hmem =>
      ⟨fun heq => ?_,fun hnone heq => ?_⟩⟩
  · have hwaiting := (kept_at screen ticks actions n).ordered.fitting _ hmem
    obtain ⟨hstart,hbytes⟩ := tenure_of_undisturbed hbyte hwaiting.earlier hwaiting.undisturbed
    obtain ⟨hkeys,hpending⟩ := keys_tenure screen ticks actions origin.step
    rw [hstart] at hshift
    obtain ⟨key,hkey,hevent⟩ := pending_decoded screen ticks hmem hbyte
    rw [hkeys,eq_freshKeys hshift hpending] at hkey
    rw [hstart]
    exact ⟨tenureStart_le actions _,hwaiting.earlier,hbytes,key,hkey,hevent⟩
  · obtain ⟨key,hkey,-⟩ := pending_decoded screen ticks hmem (heq▸hinitial)
    rw [heq,decodeScancode,hidle] at hkey
    cases hkey
  · obtain ⟨key,hkey,-⟩ := pending_decoded screen ticks hmem (heq▸hbyte)
    obtain ⟨hkeys,hpending⟩ := keys_tenure screen ticks actions second
    rw [tenureBytes_nil hhand hsecond fun k hlow hhigh => hquiet k (hfirst.trans hlow) hhigh] at hkeys
    have hplain : (stateAt screen ticks actions second).keys.extendedPending=false := by
      rw [hkeys]
      exact hpending
    rw [heq,decodeScancode,hplain,if_neg Bool.false_ne_true] at hkey
    split at hkey
    · cases hkey
    · rw [hnone] at hkey
      cases hkey

/-- A scancode for the shell, a hand-off to task 4, and two scancodes for
the task. -/
def straddle (first second third : UInt8) : ℕ → Action
  | 0 => .scancode first
  | 1 => .setForeground (some 4)
  | 2 => .scancode second
  | _ => .scancode third

/-- Arrow up split by the hand-off gives no event; the `a` after it is the
task's own. -/
theorem keys_within_tenure_arrow :
    pending (stateAt none (fun n => n) (straddle 0xE0 0x48 0x1E) 4)=
      [(⟨3,0⟩,.inr (.keyDown 0x61))] ∧
    tenureBytes (straddle 0xE0 0x48 0x1E) 3++[0x1E]<+:tenureBytes (straddle 0xE0 0x48 0x1E) 4 ∧
    (⟨3,0⟩ : Origin).step≠2 := by
  have hpending : pending (stateAt none (fun n => n) (straddle 0xE0 0x48 0x1E) 4)=
      [(⟨3,0⟩,.inr (.keyDown 0x61))] := by decide +kernel
  have hmem := hpending▸List.mem_singleton_self ((⟨3,0⟩,.inr (.keyDown 0x61)) : Origin×Pushed)
  obtain ⟨hkeys,hsplit⟩ := keys_within_tenure none (fun n => n) (straddle 0xE0 0x48 0x1E)
  have hquiet : ∀ k,0<k → k<2 → ∀ other,straddle 0xE0 0x48 0x1E k≠.scancode other := by
    intro k hlow hhigh other heq
    obtain rfl : k=1 := by omega
    cases heq
  exact ⟨hpending,(hkeys 4 (by decide +kernel) _ _ 0x1E hmem rfl).2.2.1,
    (hsplit 0 1 2 0x48 (by decide) (by decide) trivial rfl rfl hquiet rfl 4 _ _ hmem).2
      (by decide +kernel)⟩

/-- The keypad's Enter, split by the hand-off, is an Enter of the new owner,
although the whole key gives no event; and the Shift of the old owner
capitalises the first letter of the new one. -/
theorem split_enter_received :
    translateExtended 0x1C=none ∧
    pending (stateAt none (fun n => n) (straddle 0xE0 0x1C 0) 3)=[(⟨2,0⟩,.inr (.keyDown 0x0D))] ∧
    pending (stateAt none (fun n => n) (straddle 0x2A 0x1E 0) 3)=[(⟨2,0⟩,.inr (.keyDown 0x41))] ∧
    tenureBytes (straddle 0x2A 0x1E 0) 3=[0x1E] ∧
    (decodeScancode 0x1E freshKeys).1=some (.char 0x61) := by
  decide +kernel

end TuwaiqOS.KeyTenure
