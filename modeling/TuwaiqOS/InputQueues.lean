import TuwaiqOS.ByteFields

/-!
# Keyboard, mouse and the two input queues

Scancodes and mouse bytes are decoded in interrupt handlers and go to the
shell's queue or to the queue of the foreground process. Handlers, system
calls and hand-offs run with interrupts disabled, so each is one step. The
events in the queues carry a label of an arbitrary type that no branch
reads: with the one-point type this is the code, with other types the label
tells where an event came from.
-/

namespace TuwaiqOS.InputQueues

open ByteFields

/-! ## Events -/

/-- `KeyEvent`. -/
inductive KeyEvent where
  /-- A character key. -/
  | char (code : UInt8)
  /-- Enter. -/
  | enter
  /-- Backspace. -/
  | backspace
  /-- Arrow up. -/
  | arrowUp
  /-- Arrow down. -/
  | arrowDown
  /-- Tab. -/
  | tab
  /-- Escape. -/
  | escape
  /-- No key. -/
  | none
  deriving DecidableEq

/-- `InputEvent`. -/
inductive InputEvent where
  /-- A key was pressed. -/
  | keyDown (code : UInt8)
  /-- The cursor is at a new place. -/
  | mouseMove (x y : ℤ)
  /-- A button was pressed or released. -/
  | mouseButton (button : UInt8) (pressed : Bool)
  deriving DecidableEq

/-- The event is a mouse move. -/
def InputEvent.isMove : InputEvent → Bool
  | .mouseMove _ _ => true
  | _ => false

/-- `ENCODED_EVENT_LEN`. -/
def encodedEventLen : ℕ := 8

/-- `i16::to_le_bytes`. -/
def int16Bytes (value : ℤ) : List UInt8 := leBytes 2 (value%65536).toNat

/-- `InputEvent::to_le_bytes`. -/
def InputEvent.toLeBytes : InputEvent → List UInt8
  | .keyDown code => [1,code,0,0,0,0,0,0]
  | .mouseMove x y => [2,0,0,0]++int16Bytes x++int16Bytes y
  | .mouseButton button pressed => [3,button,if pressed then 1 else 0,0,0,0,0,0]

/-- The code that `push_key_event` pushes for a key. -/
def keyCode : KeyEvent → Option UInt8
  | .char code => some code
  | .enter => some 0x0D
  | .backspace => some 0x08
  | .tab => some 0x09
  | .arrowUp => some 0x11
  | .arrowDown => some 0x12
  | .escape => some 0x1B
  | .none => none

/-! ## Keyboard decoder -/

/-- The modifier and sequence state of `keyboard.rs`. -/
structure KeyDecoder where
  /-- `LEFT_SHIFT`. -/
  leftShift : Bool
  /-- `RIGHT_SHIFT`. -/
  rightShift : Bool
  /-- `EXTENDED_PENDING`. -/
  extendedPending : Bool
  deriving DecidableEq

/-- `shift_active`. -/
def shiftActive (keys : KeyDecoder) : Bool := keys.leftShift || keys.rightShift

/-- `emit_pair`. -/
def emitPair (normal shifted : UInt8) (keys : KeyDecoder) : KeyEvent :=
  .char (if shiftActive keys then shifted else normal)

/-- `emit_letter`. -/
def emitLetter (lower : UInt8) (keys : KeyDecoder) : KeyEvent :=
  .char (if shiftActive keys then lower-0x61+0x41 else lower)

/-- `translate_extended`. -/
def translateExtended (scancode : UInt8) : Option KeyEvent :=
  if scancode &&& 0x80≠0 then none
  else if scancode=0x48 then some .arrowUp
  else if scancode=0x50 then some .arrowDown
  else none

/-- Scancodes of keys with two characters: digits, punctuation. -/
def pairKeys : List (UInt8×UInt8×UInt8) :=
  [(0x02,0x31,0x21),(0x03,0x32,0x40),(0x04,0x33,0x23),(0x05,0x34,0x24),(0x06,0x35,0x25),
    (0x07,0x36,0x5E),(0x08,0x37,0x26),(0x09,0x38,0x2A),(0x0A,0x39,0x28),(0x0B,0x30,0x29),
    (0x0C,0x2D,0x5F),(0x0D,0x3D,0x2B),(0x29,0x60,0x7E),(0x1A,0x5B,0x7B),(0x1B,0x5D,0x7D),
    (0x2B,0x5C,0x7C),(0x27,0x3B,0x3A),(0x28,0x27,0x22),(0x33,0x2C,0x3C),(0x34,0x2E,0x3E),
    (0x35,0x2F,0x3F)]

/-- Scancodes of the letters, row by row. -/
def letterKeys : List (UInt8×UInt8) :=
  [(0x10,0x71),(0x11,0x77),(0x12,0x65),(0x13,0x72),(0x14,0x74),(0x15,0x79),(0x16,0x75),
    (0x17,0x69),(0x18,0x6F),(0x19,0x70),(0x1E,0x61),(0x1F,0x73),(0x20,0x64),(0x21,0x66),
    (0x22,0x67),(0x23,0x68),(0x24,0x6A),(0x25,0x6B),(0x26,0x6C),(0x2C,0x7A),(0x2D,0x78),
    (0x2E,0x63),(0x2F,0x76),(0x30,0x62),(0x31,0x6E),(0x32,0x6D)]

section

variable (scancode : UInt8) (keys : KeyDecoder)

/-- The character of a scancode, by the two tables. -/
def translateCharacter : Option KeyEvent :=
  match pairKeys.lookup scancode with
  | some (normal,shifted) => some (emitPair normal shifted keys)
  | none => (letterKeys.lookup scancode).map fun lower => emitLetter lower keys

/-- `translate_scancode`. -/
def translateScancode : Option KeyEvent×KeyDecoder :=
  if scancode &&& 0x80≠0 then
    if scancode=0xAA then (none,{keys with leftShift := false})
    else if scancode=0xB6 then (none,{keys with rightShift := false})
    else (none,keys)
  else if scancode=0x2A then (none,{keys with leftShift := true})
  else if scancode=0x36 then (none,{keys with rightShift := true})
  else if scancode=0x1C then (some .enter,keys)
  else if scancode=0x0E then (some .backspace,keys)
  else if scancode=0x0F then (some .tab,keys)
  else if scancode=0x01 then (some .escape,keys)
  else if scancode=0x39 then (some (.char 0x20),keys)
  else (translateCharacter scancode keys,keys)

/-- The key that one scancode completes; the decoding part of `on_scancode`. -/
def decodeScancode : Option KeyEvent×KeyDecoder :=
  if keys.extendedPending then (translateExtended scancode,{keys with extendedPending := false})
  else if scancode=0xE0 then (none,{keys with extendedPending := true})
  else translateScancode scancode keys

end

/-! ## Mouse decoder -/

/-- `PacketDecoder`: the bytes of an unfinished packet. -/
inductive PacketDecoder where
  /-- Between packets. -/
  | start
  /-- The flags have arrived. -/
  | one (flags : UInt8)
  /-- The flags and the first delta have arrived. -/
  | two (flags xRaw : UInt8)
  deriving DecidableEq

/-- `PacketDecoder::feed`. -/
def PacketDecoder.feed (byte : UInt8) : PacketDecoder → Option (UInt8×UInt8×UInt8)×PacketDecoder
  | .start => if byte &&& 0x08=0 then (none,.start) else (none,.one byte)
  | .one flags => (none,.two flags byte)
  | .two flags xRaw => (some (flags,xRaw,byte),.start)

/-- `MouseState`: the cursor and the buttons. -/
structure MouseState where
  /-- `CURSOR_X`. -/
  x : ℤ
  /-- `CURSOR_Y`. -/
  y : ℤ
  /-- `BUTTON_STATE`. -/
  buttons : UInt8
  deriving DecidableEq

/-- `DecodedPacket`. -/
structure DecodedPacket where
  /-- New cursor column. -/
  x : ℤ
  /-- New cursor row. -/
  y : ℤ
  /-- The cursor moved. -/
  moved : Bool
  /-- New state of the buttons. -/
  buttons : UInt8
  /-- Buttons whose state changed. -/
  changedButtons : UInt8

/-- `i32::saturating_add`. -/
def saturatingAdd (first second : ℤ) : ℤ := max (-2^31) (min (2^31-1) (first+second))

/-- `Ord::clamp`. -/
def clamp (low high value : ℤ) : ℤ := max low (min high value)

/-- A delta with its sign flag. -/
def signedDelta (flags sign raw : UInt8) : ℤ :=
  if flags &&& sign≠0 then (raw.toNat : ℤ)-256 else raw.toNat

/-- `decode_packet`. -/
def decodePacket (packet : UInt8×UInt8×UInt8) (previous : MouseState) (maxX maxY : ℤ) :
    Option DecodedPacket :=
  let (flags,xRaw,yRaw) := packet
  if flags &&& (0x40 ||| 0x80)≠0 then none
  else
    let dx := signedDelta flags 0x10 xRaw
    let dy := -signedDelta flags 0x20 yRaw
    let x := clamp 0 (max maxX 0) (saturatingAdd previous.x dx)
    let y := clamp 0 (max maxY 0) (saturatingAdd previous.y dy)
    let buttons := flags &&& 0b111
    some ⟨x,y,x≠previous.x || y≠previous.y,buttons,previous.buttons^^^buttons⟩

/-- The largest cursor position, from `display::info`. -/
def cursorLimits (screen : Option (ℕ×ℕ)) : ℤ×ℤ :=
  match screen with
  | none => (2^31-1,2^31-1)
  | some (width,height) => (min (2^31-1) width-1,min (2^31-1) height-1)

/-- The events of a packet in the order in which `handle_packet` pushes
them. -/
def packetEvents (decoded : DecodedPacket) : List InputEvent :=
  (if decoded.moved then
    [.mouseMove (clamp (-32768) 32767 decoded.x) (clamp (-32768) 32767 decoded.y)] else [])++
  ([(0x01,0),(0x02,1),(0x04,2)].filter fun (mask,_) => decoded.changedButtons &&& mask≠0).map
    fun (mask,id) => .mouseButton id (decoded.buttons &&& mask≠0)

/-! ## State -/

/-- `QueuedInputEvent`. -/
structure Queued where
  /-- The event. -/
  event : InputEvent
  /-- The tick at which it was pushed. -/
  queuedAtTick : ℕ
  deriving DecidableEq

/-- The counters of `input.rs`. -/
structure InputTelemetry where
  /-- `MAX_DEPTH`. -/
  maxDepth : ℕ
  /-- `COALESCED_MOUSE_MOVES`. -/
  coalescedMouseMoves : ℕ
  /-- `DROPPED_EVENTS`. -/
  droppedEvents : ℕ
  /-- `DELIVERED_MOUSE_MOVES`. -/
  deliveredMouseMoves : ℕ
  /-- `MOUSE_AGE_TOTAL_TICKS`. -/
  mouseAgeTotalTicks : ℕ
  /-- `MOUSE_AGE_MAX_TICKS`. -/
  mouseAgeMaxTicks : ℕ
  deriving DecidableEq

/-- The counters of `mouse.rs`. -/
structure MouseTelemetry where
  /-- `RAW_BYTES`. -/
  rawBytes : ℕ
  /-- `COMPLETE_PACKETS`. -/
  completePackets : ℕ
  /-- `DESYNC_BYTES`. -/
  desyncBytes : ℕ
  /-- `OVERFLOW_PACKETS`. -/
  overflowPackets : ℕ
  deriving DecidableEq

/-- The statics of `keyboard.rs`, `input.rs` and `mouse.rs`, with a label on
every queued event. -/
structure Input (σ : Type) where
  /-- Keyboard decoder. -/
  keys : KeyDecoder
  /-- `FOREGROUND_PROCESS_ID`; zero stands for the shell. -/
  foreground : ℕ
  /-- `QUEUE` of `keyboard.rs`. -/
  shellQueue : List (σ×KeyEvent)
  /-- `QUEUE` of `input.rs`. -/
  queue : List (σ×Queued)
  /-- Counters of the queue. -/
  telemetry : InputTelemetry
  /-- `DECODER`. -/
  decoder : PacketDecoder
  /-- Cursor and buttons. -/
  mouse : MouseState
  /-- Counters of the mouse. -/
  mouseTelemetry : MouseTelemetry
  /-- The process of the latest `request_foreground_wake`. -/
  wakeRequest : Option ℕ
  deriving DecidableEq

/-- The statics at power on. -/
def Input.boot {σ : Type} : Input σ :=
  ⟨⟨false,false,false⟩,0,[],[],⟨0,0,0,0,0,0⟩,.start,⟨0,0,0⟩,⟨0,0,0,0⟩,none⟩

section

variable {σ : Type}

/-! ## Owner -/

/-- `ForegroundInputOwner`. -/
inductive ForegroundInputOwner where
  /-- The shell. -/
  | shell
  /-- A process. -/
  | desktop
  deriving DecidableEq

/-- `foreground_process_id`. -/
def foregroundProcessId (input : Input σ) : Option ℕ :=
  if input.foreground=0 then none else some input.foreground

/-- `foreground_owner`. -/
def foregroundOwner (input : Input σ) : ForegroundInputOwner :=
  if (foregroundProcessId input).isSome then .desktop else .shell

/-- `reset_telemetry`. -/
def resetTelemetry (input : Input σ) : Input σ := {input with telemetry := ⟨0,0,0,0,0,0⟩}

/-- `set_foreground_process_id`. -/
def setForegroundProcessId (processId : Option ℕ) (input : Input σ) : Input σ :=
  let cleared := {input with shellQueue := [],queue := []}
  let measured := if processId.isSome then resetTelemetry cleared else cleared
  {measured with keys := {measured.keys with extendedPending := false},
                 foreground := processId.getD 0}

/-! ## Producers -/

/-- `push_shell`. -/
def pushShell (label : σ) (event : KeyEvent) (input : Input σ) : Input σ :=
  if input.shellQueue.length<32 then
    {input with shellQueue := input.shellQueue++[(label,event)]}
  else input

/-- The newest queued event is a mouse move. -/
def endsInMove (queue : List (σ×Queued)) : Bool :=
  match queue.getLast? with
  | some last => last.2.event.isMove
  | none => false

section

variable (tick : ℕ) (label : σ)

/-- `push`. -/
def push (event : InputEvent) (input : Input σ) : Input σ :=
  match foregroundProcessId input with
  | none => input
  | some id =>
    let queued : σ×Queued := (label,⟨event,tick⟩)
    if event.isMove && endsInMove input.queue then
      {input with
        queue := input.queue.dropLast++[queued],wakeRequest := some id,
        telemetry := {input.telemetry with
          coalescedMouseMoves := input.telemetry.coalescedMouseMoves+1}}
    else if input.queue.length<64 then
      {input with
        queue := input.queue++[queued],wakeRequest := some id,
        telemetry := {input.telemetry with
          maxDepth := max input.telemetry.maxDepth (input.queue.length+1)}}
    else
      {input with telemetry := {input.telemetry with
        droppedEvents := input.telemetry.droppedEvents+1}}

/-- `push_key_event`. -/
def pushKeyEvent (event : KeyEvent) (input : Input σ) : Input σ :=
  match keyCode event with
  | none => input
  | some code => push tick label (.keyDown code) input

/-- `route`. -/
def route (event : KeyEvent) (input : Input σ) : Input σ :=
  match foregroundOwner input with
  | .shell => pushShell label event input
  | .desktop => pushKeyEvent tick label event input

/-- `on_scancode`. -/
def onScancode (scancode : UInt8) (input : Input σ) : Input σ :=
  let (event,keys) := decodeScancode scancode input.keys
  match event with
  | none => {input with keys := keys}
  | some event => route tick label event {input with keys := keys}

end

/-- Push several events, the labels counted from `ordinal`. -/
def pushAll (tick : ℕ) (label : ℕ → σ) : ℕ → List InputEvent → Input σ → Input σ
  | _,[],input => input
  | ordinal,event::rest,input =>
    pushAll tick label (ordinal+1) rest (push tick (label ordinal) event input)

/-- What `handle_packet` decodes, given the screen. -/
def decodedPacket (screen : Option (ℕ×ℕ)) (packet : UInt8×UInt8×UInt8) (mouse : MouseState) :
    Option DecodedPacket :=
  decodePacket packet mouse (cursorLimits screen).1 (cursorLimits screen).2

/-- `handle_packet`. -/
def handlePacket (screen : Option (ℕ×ℕ)) (tick : ℕ) (label : ℕ → σ) (packet : UInt8×UInt8×UInt8)
    (input : Input σ) : Input σ :=
  if packet.1 &&& (0x40 ||| 0x80)≠0 then
    {input with mouseTelemetry := {input.mouseTelemetry with
      overflowPackets := input.mouseTelemetry.overflowPackets+1}}
  else
    match decodedPacket screen packet input.mouse with
    | none => input
    | some decoded =>
      pushAll tick label 0 (packetEvents decoded)
        {input with mouse := ⟨decoded.x,decoded.y,decoded.buttons⟩}

/-- `on_byte`. -/
def onByte (screen : Option (ℕ×ℕ)) (tick : ℕ) (label : ℕ → σ) (byte : UInt8) (input : Input σ) :
    Input σ :=
  let desync := if input.decoder=.start ∧ byte &&& 0x08=0 then 1 else 0
  let (packet,decoder) := input.decoder.feed byte
  let counted := {input with
    decoder := decoder,
    mouseTelemetry := {input.mouseTelemetry with
      rawBytes := input.mouseTelemetry.rawBytes+1,
      desyncBytes := input.mouseTelemetry.desyncBytes+desync}}
  match packet with
  | none => counted
  | some packet =>
    handlePacket screen tick label packet {counted with
      mouseTelemetry := {counted.mouseTelemetry with
        completePackets := counted.mouseTelemetry.completePackets+1}}

/-! ## Consumers -/

/-- `poll_key`; the answer is `KeyEvent::None` when the queue is empty. -/
def pollKey (input : Input σ) : Option (σ×KeyEvent)×Input σ :=
  match input.shellQueue with
  | [] => (none,input)
  | first::rest => (some first,{input with shellQueue := rest})

/-- `poll`. -/
def poll (tick : ℕ) (input : Input σ) : Option (σ×InputEvent)×Input σ :=
  match input.queue with
  | [] => (none,input)
  | (label,queued)::rest =>
    let age := tick-queued.queuedAtTick
    let telemetry := if queued.event.isMove then
        {input.telemetry with
          deliveredMouseMoves := input.telemetry.deliveredMouseMoves+1,
          mouseAgeTotalTicks := input.telemetry.mouseAgeTotalTicks+age,
          mouseAgeMaxTicks := max input.telemetry.mouseAgeMaxTicks age}
      else input.telemetry
    (some (label,queued.event),{input with queue := rest,telemetry := telemetry})

/-- `sys_input_poll`: the answer, the event written to the caller and the
state. `valid` is the check of the caller's buffer and `copy` the write to
it. -/
def sysInputPoll (tick : ℕ) (caller : Option ℕ) (outLen : ℕ) (valid : Bool)
    (copy : List UInt8 → Bool) (input : Input σ) : ℤ×Option (σ×InputEvent)×Input σ :=
  match caller with
  | none => (-1,none,input)
  | some callerPid =>
    if foregroundProcessId input≠some callerPid then (-1,none,input)
    else if outLen<encodedEventLen then (-1,none,input)
    else if !valid then (-1,none,input)
    else
      match poll tick input with
      | (none,later) => (0,none,later)
      | (some (label,event),later) =>
        if copy event.toLeBytes then (1,some (label,event),later) else (-1,none,later)

/-! ## Steps -/

/-- What can happen to the queues, each with interrupts disabled. -/
inductive Action where
  /-- The keyboard interrupt with one scancode. -/
  | scancode (byte : UInt8)
  /-- The mouse interrupt with one byte. -/
  | mouseByte (byte : UInt8)
  /-- A call of `set_foreground_process_id`. -/
  | setForeground (processId : Option ℕ)
  /-- A call of `INPUT_POLL` by the current task. -/
  | inputPoll (caller : Option ℕ) (outLen : ℕ) (valid : Bool) (copy : List UInt8 → Bool)
  /-- A call of `poll_key`. -/
  | pollKey
  /-- A direct `push_key_event` of the shell's diagnostics. -/
  | pushKey (event : KeyEvent)

/-- An event that reached a reader. -/
inductive Delivery (σ : Type) where
  /-- Written to the buffer of a process. -/
  | toProcess (id : ℕ) (label : σ) (event : InputEvent)
  /-- Returned to the shell. -/
  | toShell (label : σ) (event : KeyEvent)
  deriving DecidableEq

/-- One step: the new state and what was delivered. -/
def step (screen : Option (ℕ×ℕ)) (tick : ℕ) (label : ℕ → σ) (input : Input σ) :
    Action → Input σ×Option (Delivery σ)
  | .scancode byte => (onScancode tick (label 0) byte input,none)
  | .mouseByte byte => (onByte screen tick label byte input,none)
  | .setForeground processId => (setForegroundProcessId processId input,none)
  | .inputPoll caller outLen valid copy =>
    let (_,event,later) := sysInputPoll tick caller outLen valid copy input
    (later,event.bind fun (label,event) => caller.map fun id => .toProcess id label event)
  | .pollKey =>
    let (event,later) := pollKey input
    (later,event.map fun (label,event) => .toShell label event)
  | .pushKey event => (pushKeyEvent tick (label 0) event input,none)

end

end TuwaiqOS.InputQueues
