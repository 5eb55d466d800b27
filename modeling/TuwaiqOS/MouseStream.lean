import Mathlib.Data.Nat.Bitwise
import TuwaiqOS.InputQueues

/-!
# The mouse along a stream of bytes

Three bytes make a packet; bytes that cannot start one are discarded, and a
packet with an overflowed delta is dropped, its buttons included. What is
reported is consistent nevertheless: the cursor when it has moved, a button
when its recorded state has changed.
-/

namespace TuwaiqOS.MouseStream

open InputQueues

/-- `DECODER`, the cursor and the buttons. -/
structure Driver where
  /-- `bytes` of `PacketDecoder`. -/
  bytes : Fin 3 → UInt8
  /-- `index` of `PacketDecoder`. -/
  index : ℕ
  /-- Cursor and buttons. -/
  mouse : MouseState

/-- `PacketDecoder::feed`, which panics if the index is outside the array. -/
def Driver.feed (driver : Driver) (byte : UInt8) : Option (Option (UInt8×UInt8×UInt8)×Driver) :=
  if driver.index=0 ∧ byte &&& 0x08=0 then some (none,driver)
  else if hindex : driver.index<3 then
    let bytes := Function.update driver.bytes ⟨driver.index,hindex⟩ byte
    if driver.index+1≠3 then some (none,⟨bytes,driver.index+1,driver.mouse⟩)
    else some (some (bytes 0,bytes 1,bytes 2),⟨bytes,0,driver.mouse⟩)
  else none

variable (screen : Option (ℕ×ℕ))

/-- `handle_packet`, with the events that it pushes. -/
def Driver.handlePacket (driver : Driver) (packet : UInt8×UInt8×UInt8) :
    List InputEvent×Driver :=
  match decodedPacket screen packet driver.mouse with
  | none => ([],driver)
  | some decoded =>
    (packetEvents decoded,{driver with mouse := ⟨decoded.x,decoded.y,decoded.buttons⟩})

/-- `on_byte`, with the events that it pushes. -/
def Driver.onByte (driver : Driver) (byte : UInt8) : Option (List InputEvent×Driver) :=
  (driver.feed byte).map fun (packet,later) => match packet with
    | none => ([],later)
    | some packet => later.handlePacket screen packet

/-- All events of a stream of bytes, and the driver after it. -/
def runBytes (bytes : List UInt8) : Option (List InputEvent×Driver) :=
  bytes.foldlM (fun (log,driver) byte => (driver.onByte screen byte).map fun (events,later) =>
    (log++events,later)) ([],⟨fun _ => 0,0,⟨0,0,0⟩⟩)

/-! ## Reports -/

/-- Values reported after one that is known: each differs from the one before. -/
def Reports {α : Type} : α → List α → α → Prop
  | known,[],last => known=last
  | known,next::rest,last => next≠known ∧ Reports next rest last

/-- A value is reported if it has changed. -/
theorem Reports.append {α : Type} {known old new : α} {reported : List α} {changed : Prop}
    [Decidable changed] (hreports : Reports known reported old) (hchanged : changed ↔ new≠old) :
    Reports known (reported++if changed then [new] else []) new := by
  induction reported generalizing known with
  | nil =>
    cases hreports
    split_ifs with hnew
    · exact ⟨hchanged.mp hnew,rfl⟩
    · exact (not_not.mp (mt hchanged.mpr hnew)).symm
  | cons next rest ih => exact ⟨hreports.1,ih hreports.2⟩

/-- The place that a move reports. -/
def movedTo : InputEvent → Option (ℤ×ℤ)
  | .mouseMove x y => some (x,y)
  | _ => none

/-- What an event reports of a button. -/
def buttonState (id : UInt8) : InputEvent → Option Bool
  | .mouseButton button pressed => if button=id then some pressed else none
  | _ => none

/-- The masks and numbers of the buttons. -/
def buttonMasks : List (UInt8×UInt8) := [(0x01,0),(0x02,1),(0x04,2)]

theorem filterMap_packetEvents (decoded : DecodedPacket) :
    (packetEvents decoded).filterMap movedTo=(if decoded.moved then
      [(clamp (-32768) 32767 decoded.x,clamp (-32768) 32767 decoded.y)] else []) ∧
    ∀ button∈buttonMasks,(packetEvents decoded).filterMap (buttonState button.2)=
      if decoded.changedButtons &&& button.1≠0 then [decide (decoded.buttons &&& button.1≠0)]
      else [] := by
  simp only [packetEvents,buttonMasks,List.filter_cons,List.filter_nil]
  split_ifs <;> simp_all [movedTo,buttonState,List.filterMap_cons]

theorem xor_land_ne_zero (old new : UInt8) {button : UInt8×UInt8} (hbutton : button∈buttonMasks) :
    (old^^^new)&&&button.1≠0 ↔ decide (new&&&button.1≠0)≠decide (old&&&button.1≠0) := by
  have hmask : button.1.toNat=2^button.2.toNat := by
    simp only [buttonMasks,List.mem_cons,List.not_mem_nil,or_false] at hbutton
    rcases hbutton with rfl|rfl|rfl <;> rfl
  simp only [Ne,← UInt8.toNat_inj,UInt8.toNat_and,UInt8.toNat_xor,hmask,Nat.and_two_pow,
    Nat.testBit_xor]
  cases old.toNat.testBit button.2.toNat <;> cases new.toNat.testBit button.2.toNat <;> simp

/-! ## Streams -/

/-- A display size from 1 to 32767 each way. -/
abbrev Display := {size : ℕ×ℕ // (0<size.1 ∧ size.1 ≤ 32767) ∧ 0<size.2 ∧ size.2 ≤ 32767}

/-- What holds between two bytes. -/
structure Sound (display : Display) (log : List InputEvent) (driver : Driver) : Prop where
  /-- One of three bytes is expected. -/
  index : driver.index<3
  /-- The cursor is on the screen. -/
  cursor : (0≤driver.mouse.x ∧ driver.mouse.x<display.val.1) ∧
    0≤driver.mouse.y ∧ driver.mouse.y<display.val.2
  /-- Each move leads to another place, the last one to the cursor. -/
  moves : Reports (0,0) (log.filterMap movedTo) (driver.mouse.x,driver.mouse.y)
  /-- The events of a button alternate from a press on, up to its state. -/
  buttons : ∀ button∈buttonMasks,Reports false (log.filterMap (buttonState button.2))
    (driver.mouse.buttons &&& button.1≠0)

/-- What holds after a byte: moves among its events carry the new position. -/
def After (display : Display) (log : List InputEvent) (outcome : List InputEvent×Driver) : Prop :=
  Sound display (log++outcome.1) outcome.2 ∧
    outcome.1.filterMap movedTo⊆[(outcome.2.mouse.x,outcome.2.mouse.y)]

variable {display : Display} {log : List InputEvent} {driver : Driver}

theorem Sound.idle (hsound : Sound display log driver) : After display log ([],driver) :=
  ⟨by rwa [List.append_nil],by simp⟩

theorem Sound.handlePacket (hsound : Sound display log driver) (packet : UInt8×UInt8×UInt8) :
    After display log (driver.handlePacket (some display.val) packet) := by
  obtain ⟨⟨width,height⟩,hsize⟩ := display
  dsimp only at hsize
  unfold Driver.handlePacket
  rcases hdecoded : decodedPacket (some (width,height)) packet driver.mouse with _|decoded
  · exact hsound.idle
  have hplace : (0≤decoded.x ∧ decoded.x<width) ∧ (0≤decoded.y ∧ decoded.y<height) ∧
      (decoded.moved=true ↔ (decoded.x,decoded.y)≠(driver.mouse.x,driver.mouse.y)) ∧
      decoded.changedButtons=driver.mouse.buttons^^^decoded.buttons := by
    simp only [decodedPacket,decodePacket,cursorLimits] at hdecoded
    split at hdecoded <;> cases hdecoded
    refine ⟨?_,?_,by simp [imp_iff_not_or],rfl⟩ <;> simp only [clamp] <;> omega
  obtain ⟨hx,hy,hmoved,hchanged⟩ := hplace
  obtain ⟨hmoves,hbuttons⟩ := filterMap_packetEvents decoded
  have hwhole : clamp (-32768) 32767 decoded.x=decoded.x ∧
      clamp (-32768) 32767 decoded.y=decoded.y := by
    unfold clamp
    omega
  rw [hwhole.1,hwhole.2] at hmoves
  refine ⟨⟨hsound.index,⟨hx,hy⟩,?_,fun button hbutton => ?_⟩,?_⟩
  · rw [List.filterMap_append,hmoves]
    exact hsound.moves.append hmoved
  · rw [List.filterMap_append,hbuttons button hbutton,hchanged]
    exact (hsound.buttons button hbutton).append (xor_land_ne_zero _ _ hbutton)
  · rw [hmoves]
    split_ifs <;> simp

theorem Sound.onByte (hsound : Sound display log driver) (byte : UInt8) :
    ∃ outcome,driver.onByte (some display.val) byte=some outcome ∧ After display log outcome := by
  have hkept : ∀ bytes index,index<3 → Sound display log ⟨bytes,index,driver.mouse⟩ :=
    fun _ _ hindex => ⟨hindex,hsound.cursor,hsound.moves,hsound.buttons⟩
  have hindex := hsound.index
  unfold Driver.onByte Driver.feed
  split_ifs with hsync hnext
  · exact ⟨_,rfl,hsound.idle⟩
  · exact ⟨_,rfl,(hkept _ _ (by omega)).idle⟩
  · exact ⟨_,rfl,(hkept _ 0 (by decide)).handlePacket _⟩

/-- No stream of bytes leaves the packet array; after it the driver and all
reports are sound, and the next byte's move carries the new position. -/
theorem decoding_sound (display : Display) (bytes : List UInt8) :
    ∃ log driver,runBytes (some display.val) bytes=some (log,driver) ∧ Sound display log driver ∧
      ∀ byte,∃ outcome,driver.onByte (some display.val) byte=some outcome ∧
        After display log outcome := by
  induction bytes using List.reverseRecOn with
  | nil =>
    have hstart : Sound display [] ⟨fun _ => 0,0,⟨0,0,0⟩⟩ :=
      ⟨by decide,by have := display.property; dsimp only; omega,rfl,by simp [Reports]⟩
    exact ⟨[],_,rfl,hstart,hstart.onByte⟩
  | append_singleton bytes byte ih =>
    obtain ⟨log,driver,hrun,-,hnext⟩ := ih
    obtain ⟨⟨events,later⟩,hbyte,hlater,-⟩ := hnext byte
    refine ⟨log++events,later,?_,hlater,hlater.onByte⟩
    rw [runBytes,List.foldlM_append,← runBytes,hrun]
    simp [hbyte]

end TuwaiqOS.MouseStream
