import TuwaiqOS.DeviceProgram
import TuwaiqOS.Checkpoint

/-!
# The primary ATA channel

`read_sector` and `write_sector` address the drive through several port
writes, start a command and move 256 words through the data port. The drive
latches the address when the command arrives. Run alone on an idle drive, a
call that returns `Ok` transfers exactly the sector it names, and a failing
write stores the whole sector or nothing. Nothing keeps a second task from
addressing the drive between the first task's address and its command, and
then the transfer goes to the wrong sector.
-/

namespace TuwaiqOS.AtaChannel

open BlockProgram DeviceProgram Checkpoint

/-! ## The drive -/

/-- The task file registers the driver writes. -/
inductive Register where
  /-- `ATA_SECCOUNT`. -/
  | sectorCount
  /-- `ATA_LBA_LO`. -/
  | lbaLow
  /-- `ATA_LBA_MID`. -/
  | lbaMid
  /-- `ATA_LBA_HI`. -/
  | lbaHigh
  /-- `ATA_DRIVE`. -/
  | drive
  deriving DecidableEq

/-- One port access. -/
inductive PortOp where
  /-- `outb` to a register. -/
  | outb (register : Register) (value : UInt8)
  /-- `outb(ATA_CMD)`. -/
  | command (value : UInt8)
  /-- `inb(ATA_STATUS)`. -/
  | status
  /-- `inw(ATA_DATA)`. -/
  | inw
  /-- `outw(ATA_DATA)`. -/
  | outw (word : UInt16)

/-- What an access returns. -/
@[reducible] def PortOp.Answer : PortOp → Type
  | .status => UInt8
  | .inw => UInt16
  | _ => Unit

/-- `CMD_READ`. -/
def cmdRead : UInt8 := 0x20

/-- `CMD_WRITE`. -/
def cmdWrite : UInt8 := 0x30

/-- `STATUS_BSY`. -/
def statusBsy : UInt8 := 0x80

/-- `STATUS_DRQ`. -/
def statusDrq : UInt8 := 0x08

/-- `STATUS_ERR`. -/
def statusErr : UInt8 := 0x01

/-- Contents of the task file. -/
structure Registers where
  /-- Sectors to transfer. -/
  sectorCount : UInt8
  /-- Address bits 0 to 7. -/
  lbaLow : UInt8
  /-- Address bits 8 to 15. -/
  lbaMid : UInt8
  /-- Address bits 16 to 23. -/
  lbaHigh : UInt8
  /-- Address bits 24 to 27 in the low half. -/
  drive : UInt8

/-- The 28-bit address in the registers. -/
def Registers.lba (registers : Registers) : ℕ :=
  registers.drive.toNat%16*2^24+registers.lbaHigh.toNat*2^16+registers.lbaMid.toNat*2^8+
    registers.lbaLow.toNat

/-- How many sectors a command transfers; zero stands for 256. -/
def Registers.sectors (registers : Registers) : ℕ :=
  if registers.sectorCount=0 then 256 else registers.sectorCount.toNat

/-- What the data port does. -/
inductive Phase where
  /-- No transfer is open. -/
  | idle
  /-- The drive has these words for the host. -/
  | reading (words : List UInt16)
  /-- The drive fills sector `lba`, with `left` more sectors to follow, and
  has these words of it. -/
  | writing (lba left : ℕ) (words : List UInt16)
  deriving DecidableEq

/-- The drive offers these words, if any. -/
def Phase.offer (words : List UInt16) : Phase := if words=[] then .idle else .reading words

/-- The channel and its disk. -/
structure Channel where
  /-- The task file. -/
  registers : Registers
  /-- The open transfer. -/
  phase : Phase
  /-- The sectors. -/
  disk : Disk

/-- The words of a buffer, low byte first. -/
def pack : List UInt8 → List UInt16
  | low::high::rest => (low.toUInt16 ||| (high.toUInt16<<<8))::pack rest
  | [low] => [low.toUInt16]
  | [] => []

/-- The bytes of words, low byte first. -/
def unpack : List UInt16 → List UInt8
  | word::rest => word.toUInt8::(word>>>8).toUInt8::unpack rest
  | [] => []

/-- Write a register. -/
def Channel.set (channel : Channel) (register : Register) (value : UInt8) : Channel :=
  {channel with registers := match register with
    | .sectorCount => {channel.registers with sectorCount := value}
    | .lbaLow => {channel.registers with lbaLow := value}
    | .lbaMid => {channel.registers with lbaMid := value}
    | .lbaHigh => {channel.registers with lbaHigh := value}
    | .drive => {channel.registers with drive := value}}

/-- Start a command at the address in the registers. -/
def Channel.start (channel : Channel) (command : UInt8) : Channel :=
  if command=cmdRead then
    {channel with phase := .reading ((List.range channel.registers.sectors).flatMap fun index =>
      pack (channel.disk (channel.registers.lba+index)).bytes)}
  else if command=cmdWrite then
    {channel with phase := .writing channel.registers.lba (channel.registers.sectors-1) []}
  else {channel with phase := .idle}

/-- Take one word from the host; the 256th stores the sector. -/
def Channel.take (channel : Channel) (word : UInt16) : Channel :=
  match channel.phase with
  | .writing lba left words =>
    if words.length+1<256 then {channel with phase := .writing lba left (words++[word])}
    else {channel with
      phase := if left=0 then .idle else .writing (lba+1) (left-1) []
      disk := Function.update channel.disk lba (Sector.ofBlob (unpack (words++[word])) 0)}
  | _ => channel

/-- What the drive may answer. Register writes and commands during an open
transfer may be taken or ignored. -/
def Responds (channel : Channel) : (op : PortOp) → op.Answer → Channel → Prop
  | .outb register value,_,last =>
    last=channel.set register value ∨ channel.phase≠.idle ∧ last=channel
  | .command value,_,last => last=channel.start value ∨ channel.phase≠.idle ∧ last=channel
  | .status,(status : UInt8),last => (status &&& statusDrq≠0 → channel.phase≠.idle) ∧ last=channel
  | .inw,word,last =>
    match channel.phase with
    | .reading (first::rest) => word=first ∧ last={channel with phase := .offer rest}
    | _ => last=channel
  | .outw word,_,last => last=channel.take word

/-! ## The driver -/

/-- Code that accesses the channel. -/
abbrev AtaDriver := Driver PortOp PortOp.Answer

/-- `outb` to a register. -/
def outb (register : Register) (value : UInt8) : AtaDriver Unit := Driver.ask (PortOp.outb register value)

/-- `outb(ATA_CMD)`. -/
def outCommand (value : UInt8) : AtaDriver Unit := Driver.ask (PortOp.command value)

/-- `inb(ATA_STATUS)`. -/
def inStatus : AtaDriver UInt8 := Driver.ask PortOp.status

/-- `inw(ATA_DATA)`. -/
def inw : AtaDriver UInt16 := Driver.ask PortOp.inw

/-- `outw(ATA_DATA)`. -/
def outw (word : UInt16) : AtaDriver Unit := Driver.ask (PortOp.outw word)

/-- The polling loop of `wait_not_busy` and `wait_drq`. -/
def poll (ready : UInt8 → Bool) (timeout : String) : ℕ → AtaDriver Unit
  | 0 => throw timeout
  | count+1 => do
    let status ← inStatus
    if status &&& statusErr≠0 then throw "ata error"
    else if ready status then pure ()
    else poll ready timeout count

/-- `wait_not_busy`. -/
def waitNotBusy : AtaDriver Unit :=
  poll (fun status => status &&& statusBsy=0) "ata busy timeout" 500000

/-- `wait_drq`. -/
def waitDrq : AtaDriver Unit :=
  poll (fun status => status &&& statusDrq≠0) "ata drq timeout" 500000

/-- `select_drive`. -/
def selectDrive (lba : ℕ) : AtaDriver Unit :=
  outb .drive ((0xE0 : UInt8) ||| (UInt8.ofNat (lba>>>24) &&& 0x0F))

/-- `read_words`. -/
def readWords : ℕ → AtaDriver (List UInt8)
  | 0 => pure []
  | count+1 => do
    let word ← inw
    let rest ← readWords count
    pure (word.toUInt8::(word>>>8).toUInt8::rest)

/-- The loop of `write_words` over the words of the buffer. -/
def sendWords : List UInt16 → AtaDriver Unit
  | [] => pure ()
  | word::rest => do
    outw word
    sendWords rest

/-- `write_words`. -/
def writeWords (buffer : List UInt8) : AtaDriver Unit := sendWords (pack buffer)

/-- What `read_sector` and `write_sector` do before their command. -/
def setAddress (lba : ℕ) : AtaDriver Unit := do
  selectDrive lba
  waitNotBusy
  outb .sectorCount 1
  outb .lbaLow (UInt8.ofNat lba)
  outb .lbaMid (UInt8.ofNat (lba>>>8))
  outb .lbaHigh (UInt8.ofNat (lba>>>16))

/-- What `read_sector` does from its command on; the buffer has
256 words. -/
def transferIn : AtaDriver (List UInt8) := do
  outCommand cmdRead
  waitDrq
  let buffer ← readWords 256
  waitNotBusy
  pure buffer

/-- `read_sector`. -/
def readSector (lba : ℕ) : AtaDriver (List UInt8) := do
  setAddress lba
  transferIn

/-- What `write_sector` does from its command on. -/
def transferOut (buffer : List UInt8) : AtaDriver Unit := do
  outCommand cmdWrite
  waitDrq
  writeWords buffer
  waitNotBusy

/-- `write_sector`. -/
def writeSector (lba : ℕ) (buffer : List UInt8) : AtaDriver Unit := do
  setAddress lba
  transferOut buffer

/-! ## Words and addresses -/

theorem low_word (low high : UInt8) : (low.toUInt16 ||| (high.toUInt16<<<8)).toUInt8=low := by
  apply UInt8.toBitVec_inj.mp
  ext index hindex
  simp

theorem high_word (low high : UInt8) :
    ((low.toUInt16 ||| (high.toUInt16<<<8))>>>8).toUInt8=high := by
  apply UInt8.toBitVec_inj.mp
  ext index hindex
  have hword : index<16 := by omega
  have hshifted : 8+index<16 := by omega
  simp [hword,hshifted,BitVec.getLsbD_eq_getElem hindex]

variable {count : ℕ} {value : UInt8} {result : Except String Unit} {sector : Sector}

/-- An even number of bytes survives the way through words. -/
theorem unpack_pack {buffer : List UInt8} (hlength : buffer.length=2*count) :
    unpack (pack buffer)=buffer ∧ (pack buffer).length=count := by
  induction count generalizing buffer with
  | zero =>
    rw [List.length_eq_zero_iff.mp hlength]
    exact ⟨rfl,rfl⟩
  | succ count ih =>
    match buffer,hlength with
    | low::high::rest,hlength =>
      have hrest : rest.length=2*count := by
        simp only [List.length_cons] at hlength
        omega
      rw [pack,unpack,low_word,high_word,(ih hrest).1,List.length_cons,(ih hrest).2]
      exact ⟨rfl,rfl⟩

theorem unpack_pack_sector (sector : Sector) :
    unpack (pack sector.bytes)=sector.bytes ∧ (pack sector.bytes).length=256 :=
  unpack_pack (sector.length.trans (by norm_num))

/-- The drive stores the sector whose words it got. -/
theorem ofBlob_pack (sector : Sector) : Sector.ofBlob (unpack (pack sector.bytes)) 0=sector := by
  obtain ⟨bytes,hlength⟩ := sector
  have hbytes : ByteFields.chunk 512 bytes 0=bytes := by
    rw [ByteFields.chunk_zero,List.take_of_length_le hlength.le,hlength,Nat.sub_self,
      List.replicate_zero,List.append_nil]
  simp only [Sector.ofBlob,(unpack_pack (hlength.trans (by norm_num : 512=2*256))).1,hbytes]

/-- The registers after `setAddress`. -/
def addressed (lba : ℕ) (channel : Channel) : Channel :=
  {channel with registers := ⟨1,UInt8.ofNat lba,UInt8.ofNat (lba>>>8),UInt8.ofNat (lba>>>16),
    (0xE0 : UInt8) ||| (UInt8.ofNat (lba>>>24) &&& 0x0F)⟩}

theorem drive_low (value : UInt8) :
    ((0xE0 : UInt8) ||| (value &&& 0x0F)).toNat%16=value.toNat%16 := by
  have hmask : value.toNat &&& 15=value.toNat%16 := Nat.and_two_pow_sub_one_eq_mod value.toNat 4
  rw [UInt8.toNat_or,UInt8.toNat_and,show (16 : ℕ)=2^4 from rfl,Nat.or_mod_two_pow]
  simp [hmask]

/-- The registers keep 28 bits of an address. -/
theorem lba_addressed_mod (lba : ℕ) (channel : Channel) :
    (addressed lba channel).registers.lba=lba%2^28 := by
  rw [Registers.lba,addressed,drive_low]
  simp only [UInt8.toNat_ofNat',Nat.shiftRight_eq_div_pow]
  omega

/-- Addresses below `2^28` fit the registers. -/
theorem lba_addressed {lba : ℕ} (hlba : lba<2^28) (channel : Channel) :
    (addressed lba channel).registers.lba=lba := by
  rw [lba_addressed_mod,Nat.mod_eq_of_lt hlba]

/-! ## The parts of a transfer, alone -/

section

variable {channel last : Channel}

theorem returns_outb (hidle : channel.phase=.idle) {register : Register} :
    Driver.Returns Responds (outb register value) channel result last ↔
      result=.ok () ∧ last=channel.set register value := by
  rw [outb,Driver.returns_ask_iff]
  constructor
  · rintro ⟨-,hrespond|⟨hbusy,-⟩,rfl⟩
    · exact ⟨rfl,hrespond⟩
    · exact absurd hidle hbusy
  · rintro ⟨rfl,rfl⟩
    exact ⟨(),Or.inl rfl,rfl⟩

theorem returns_outb_bind {α : Type} (hidle : channel.phase=.idle) {register : Register}
    {rest : Unit → AtaDriver α} {result : Except String α} :
    Driver.Returns Responds (outb register value>>=rest) channel result last ↔
      Driver.Returns Responds (rest ()) (channel.set register value) result last :=
  Driver.returns_sure_bind fun _ _ => returns_outb hidle

theorem returns_outCommand (hidle : channel.phase=.idle) :
    Driver.Returns Responds (outCommand value) channel result last ↔
      result=.ok () ∧ last=channel.start value := by
  rw [outCommand,Driver.returns_ask_iff]
  constructor
  · rintro ⟨-,hrespond|⟨hbusy,-⟩,rfl⟩
    · exact ⟨rfl,hrespond⟩
    · exact absurd hidle hbusy
  · rintro ⟨rfl,rfl⟩
    exact ⟨(),Or.inl rfl,rfl⟩

/-- Polling does not change the drive. -/
theorem poll_keeps {ready : UInt8 → Bool} {timeout : String}
    (hpoll : Driver.Returns Responds (poll ready timeout count) channel result last) :
    last=channel := by
  induction count with
  | zero => exact (Driver.returns_throw_iff.mp hpoll).2
  | succ count ih =>
    obtain ⟨status,middle,⟨-,rfl⟩,hrest⟩ := Driver.returns_ask_bind.mp hpoll
    split at hrest
    · exact (Driver.returns_throw_iff.mp hrest).2
    · split at hrest
      · exact (Driver.returns_pure_iff.mp hrest).2
      · exact ih hrest

/-- A failed poll ends a sequence, and the rest finds the drive as it was. -/
theorem poll_bind_cases {α : Type} {ready : UInt8 → Bool} {timeout : String}
    {rest : Unit → AtaDriver α} {result : Except String α}
    (hcall : Driver.Returns Responds (poll ready timeout count>>=rest) channel result last) :
    (∃ reason,result=.error reason) ∧ last=channel ∨
      Driver.Returns Responds (rest ()) channel result last := by
  rcases Driver.returns_bind_iff.mp hcall with ⟨reason,hpoll,hresult⟩|⟨_,middle,hpoll,hrest⟩
  · exact Or.inl ⟨⟨reason,hresult⟩,poll_keeps hpoll⟩
  · rw [poll_keeps hpoll] at hrest
    exact Or.inr hrest

/-- A poll succeeds at once if the drive answers as it wants. -/
theorem poll_succeeds {ready : UInt8 → Bool} {timeout : String} {count : ℕ} {status : UInt8}
    (herror : status &&& statusErr=0) (hready : ready status=true)
    (hdrive : Responds channel .status status channel) :
    Driver.Returns Responds (poll ready timeout (count+1)) channel (.ok ()) channel := by
  refine Driver.returns_ask_bind.mpr ⟨status,channel,hdrive,?_⟩
  rw [if_neg (not_not.mpr herror),if_pos hready]
  exact Driver.returns_pure_iff.mpr ⟨rfl,rfl⟩

theorem returns_waitNotBusy :
    Driver.Returns Responds waitNotBusy channel (.ok ()) last ↔ last=channel := by
  constructor
  · exact poll_keeps
  · rintro rfl
    exact @poll_succeeds _ _ _ 499999 0x50 (by decide) (by decide)
      ⟨fun h => absurd (by decide) h,rfl⟩

theorem returns_waitDrq (hopen : channel.phase≠.idle) :
    Driver.Returns Responds waitDrq channel (.ok ()) last ↔ last=channel := by
  constructor
  · exact poll_keeps
  · rintro rfl
    exact @poll_succeeds _ _ _ 499999 0x58 (by decide) (by decide) ⟨fun _ => hopen,rfl⟩

/-- The words of an open transfer arrive in order. -/
theorem returns_readWords {words : List UInt16} (hphase : channel.phase=.offer words)
    {result : Except String (List UInt8)} :
    Driver.Returns Responds (readWords words.length) channel result last ↔
      result=.ok (unpack words) ∧ last={channel with phase := .idle} := by
  induction words generalizing channel result last with
  | nil =>
    rw [List.length_nil,readWords,Driver.returns_pure_iff,← show channel.phase=.idle from hphase]
    rfl
  | cons word rest ih =>
    have hdrive : ∀ found middle,Responds channel .inw found middle ↔
        found=word ∧ middle={channel with phase := .offer rest} := by
      intro found middle
      rw [Responds,hphase]
      rfl
    rw [List.length_cons,readWords,inw,Driver.returns_ask_bind]
    constructor
    · rintro ⟨found,middle,hanswer,hdone⟩
      obtain ⟨rfl,rfl⟩ := (hdrive found middle).mp hanswer
      rcases Driver.returns_bind_iff.mp hdone with ⟨reason,hread,-⟩|⟨bytes,after,hread,hpure⟩
      · obtain ⟨herror,-⟩ := (ih rfl).mp hread
        cases herror
      · obtain ⟨hbytes,rfl⟩ := (ih rfl).mp hread
        cases hbytes
        exact Driver.returns_pure_iff.mp hpure
    · rintro ⟨rfl,rfl⟩
      refine ⟨word,_,(hdrive _ _).mpr ⟨rfl,rfl⟩,
        Driver.returns_bind_ok.mpr ⟨unpack rest,{channel with phase := .idle},?_,?_⟩⟩
      · exact (ih rfl).mpr ⟨rfl,rfl⟩
      · exact Driver.returns_pure_iff.mpr ⟨rfl,rfl⟩

/-- The last word of a sector stores it. -/
theorem returns_sendWords {words taken : List UInt16} {lba : ℕ} (hwords : words≠[])
    (hphase : channel.phase=.writing lba 0 taken) (hcount : taken.length+words.length=256) :
    Driver.Returns Responds (sendWords words) channel result last ↔
      result=.ok () ∧ last={channel with
        phase := .idle
        disk := Function.update channel.disk lba (Sector.ofBlob (unpack (taken++words)) 0)} := by
  induction words generalizing channel taken with
  | nil => exact absurd rfl hwords
  | cons word rest ih =>
    rw [List.length_cons] at hcount
    rw [sendWords,outw,Driver.returns_ask_bind]
    have htake : channel.take word=if taken.length+1<256 then
        {channel with phase := .writing lba 0 (taken++[word])}
        else {channel with
          phase := .idle
          disk := Function.update channel.disk lba (Sector.ofBlob (unpack (taken++[word])) 0)} := by
      rw [Channel.take,hphase]
      rfl
    by_cases hrest : rest=[]
    · subst hrest
      rw [if_neg (by rw [List.length_nil] at hcount; omega)] at htake
      constructor
      · rintro ⟨_,middle,hmiddle,hdone⟩
        obtain ⟨rfl,rfl⟩ := Driver.returns_pure_iff.mp hdone
        exact ⟨rfl,hmiddle.trans htake⟩
      · rintro ⟨rfl,rfl⟩
        exact ⟨(),_,htake.symm,Driver.returns_pure_iff.mpr ⟨rfl,rfl⟩⟩
    · have hpos := List.length_pos_iff.mpr hrest
      rw [if_pos (by omega)] at htake
      have hnext := @ih (channel.take word) (taken++[word]) hrest (by rw [htake]) (by
        rw [List.length_append,List.length_singleton]
        omega)
      rw [htake,List.append_assoc,List.singleton_append] at hnext
      constructor
      · rintro ⟨_,middle,hmiddle,hdone⟩
        rw [show middle=_ from hmiddle.trans htake] at hdone
        exact hnext.mp hdone
      · intro hlast
        exact ⟨(),_,htake.symm,hnext.mpr hlast⟩

/-- On an idle drive the address goes into the registers, or the call fails
with the disk as it was. -/
theorem setAddress_cases {lba : ℕ} (hidle : channel.phase=.idle)
    (hcall : Driver.Returns Responds (setAddress lba) channel result last) :
    result=.ok () ∧ last=addressed lba channel ∨
      (∃ reason,result=.error reason) ∧ last.disk=channel.disk := by
  rw [setAddress,selectDrive,returns_outb_bind hidle] at hcall
  rcases poll_bind_cases hcall with ⟨hresult,hlast⟩|hrest
  · exact Or.inr ⟨hresult,hlast ▸ rfl⟩
  · rw [returns_outb_bind (by exact hidle),returns_outb_bind (by exact hidle),
      returns_outb_bind (by exact hidle),returns_outb (by exact hidle)] at hrest
    exact Or.inl hrest

/-- An idle drive can be addressed. -/
theorem setAddress_succeeds {lba : ℕ} (hidle : channel.phase=.idle) :
    Driver.Returns Responds (setAddress lba) channel (.ok ()) (addressed lba channel) := by
  rw [setAddress,selectDrive,returns_outb_bind hidle]
  refine Driver.returns_bind_ok.mpr ⟨(),_,returns_waitNotBusy.mpr rfl,?_⟩
  rw [returns_outb_bind (by exact hidle),returns_outb_bind (by exact hidle),
    returns_outb_bind (by exact hidle),returns_outb (by exact hidle)]
  exact ⟨rfl,rfl⟩

end

/-! ## Whole transfers, alone -/

section

variable {channel last : Channel}

/-- A write command for one sector. -/
theorem start_cmdWrite (hcount : channel.registers.sectors=1) :
    channel.start cmdWrite={channel with phase := .writing channel.registers.lba 0 []} := by
  rw [Channel.start,if_neg (by decide),if_pos rfl,hcount]

/-- A read command for one sector. -/
theorem start_cmdRead (hcount : channel.registers.sectors=1) :
    channel.start cmdRead={channel with
      phase := .offer (pack (channel.disk channel.registers.lba).bytes)} := by
  have hwords : pack (channel.disk channel.registers.lba).bytes≠[] := by
    rw [← List.length_pos_iff,(unpack_pack_sector _).2]
    norm_num
  rw [Channel.start,if_pos rfl,hcount,Phase.offer,if_neg hwords]
  simp only [List.range_one,List.flatMap_singleton,Nat.add_zero]

/-- The words of a sector fill an open transfer. -/
theorem returns_writeWords {lba : ℕ} (hphase : channel.phase=.writing lba 0 [])
    (result : Except String Unit) (last : Channel) :
    Driver.Returns Responds (writeWords sector.bytes) channel result last ↔
      result=.ok () ∧ last={channel with
        phase := .idle
        disk := Function.update channel.disk lba sector} := by
  have hlength := (unpack_pack_sector sector).2
  have hwords : pack sector.bytes≠[] := by
    rw [← List.length_pos_iff,hlength]
    norm_num
  rw [writeWords,returns_sendWords hwords hphase (by rw [hlength]; rfl),List.nil_append,ofBlob_pack]

/-- From its command on, a write stores the whole sector at the address in
the registers, or it fails and stores nothing. -/
theorem transferOut_cases (hidle : channel.phase=.idle) (hcount : channel.registers.sectors=1)
    (hcall : Driver.Returns Responds (transferOut sector.bytes) channel result last) :
    (∃ reason,result=.error reason) ∧ last.disk=channel.disk ∨
      last.disk=Function.update channel.disk channel.registers.lba sector := by
  rw [transferOut,Driver.returns_sure_bind fun _ _ => returns_outCommand hidle,
    start_cmdWrite hcount] at hcall
  rcases poll_bind_cases hcall with ⟨hresult,rfl⟩|hrest
  · exact Or.inl ⟨hresult,rfl⟩
  · rw [Driver.returns_sure_bind (returns_writeWords rfl)] at hrest
    exact Or.inr (poll_keeps hrest ▸ rfl)

/-- Such a write can succeed. -/
theorem transferOut_succeeds {sector : Sector} (hidle : channel.phase=.idle)
    (hcount : channel.registers.sectors=1) :
    Driver.Returns Responds (transferOut sector.bytes) channel (.ok ()) {channel with
      disk := Function.update channel.disk channel.registers.lba sector} := by
  rw [transferOut,Driver.returns_sure_bind fun _ _ => returns_outCommand hidle,
    start_cmdWrite hcount]
  refine Driver.returns_bind_ok.mpr ⟨(),_,(returns_waitDrq (by simp)).mpr rfl,?_⟩
  rw [Driver.returns_sure_bind (returns_writeWords rfl),returns_waitNotBusy,← hidle]

/-- From its command on, a read keeps the disk, and what it returns is the
sector at the address in the registers. -/
theorem transferIn_cases (hidle : channel.phase=.idle) (hcount : channel.registers.sectors=1)
    {result : Except String (List UInt8)}
    (hcall : Driver.Returns Responds transferIn channel result last) : last.disk=channel.disk ∧
      ∀ buffer,result=.ok buffer → buffer=(channel.disk channel.registers.lba).bytes := by
  obtain ⟨hbytes,hlength⟩ := unpack_pack_sector (channel.disk channel.registers.lba)
  rw [transferIn,Driver.returns_sure_bind fun _ _ => returns_outCommand hidle,
    start_cmdRead hcount,← hlength] at hcall
  rcases poll_bind_cases hcall with ⟨⟨reason,rfl⟩,rfl⟩|hrest
  · exact ⟨rfl,fun _ hok => by cases hok⟩
  · rw [Driver.returns_sure_bind fun _ _ => returns_readWords rfl,hbytes] at hrest
    rcases poll_bind_cases hrest with ⟨⟨reason,rfl⟩,rfl⟩|hdone
    · exact ⟨rfl,fun _ hok => by cases hok⟩
    · obtain ⟨rfl,rfl⟩ := Driver.returns_pure_iff.mp hdone
      exact ⟨rfl,fun _ hok => (Except.ok.inj hok).symm⟩

/-- Such a read can succeed. -/
theorem transferIn_succeeds (hidle : channel.phase=.idle) (hcount : channel.registers.sectors=1) :
    Driver.Returns Responds transferIn channel
      (.ok (channel.disk channel.registers.lba).bytes) channel := by
  obtain ⟨hbytes,hlength⟩ := unpack_pack_sector (channel.disk channel.registers.lba)
  have hwords : pack (channel.disk channel.registers.lba).bytes≠[] := by
    rw [← List.length_pos_iff,hlength]
    norm_num
  rw [transferIn,Driver.returns_sure_bind fun _ _ => returns_outCommand hidle,
    start_cmdRead hcount,← hlength]
  refine Driver.returns_bind_ok.mpr ⟨(),_,(returns_waitDrq ?_).mpr rfl,?_⟩
  · simp [Phase.offer,hwords]
  · rw [Driver.returns_sure_bind fun _ _ => returns_readWords rfl,hbytes]
    refine Driver.returns_bind_ok.mpr ⟨(),_,returns_waitNotBusy.mpr rfl,?_⟩
    rw [Driver.returns_pure_iff,← hidle]
    exact ⟨rfl,rfl⟩

/-- Alone on an idle drive, `read_sector` returns the sector it names. -/
theorem readSector_alone {lba : ℕ} (hlba : lba<2^28) (hidle : channel.phase=.idle)
    {result : Except String (List UInt8)}
    (hcall : Driver.Returns Responds (readSector lba) channel result last) :
    last.disk=channel.disk ∧ ∀ buffer,result=.ok buffer → buffer=(channel.disk lba).bytes := by
  rcases Driver.returns_bind_iff.mp hcall with ⟨reason,haddress,rfl⟩|⟨_,middle,haddress,hrest⟩
  · rcases setAddress_cases hidle haddress with ⟨hok,-⟩|⟨-,hdisk⟩
    · cases hok
    · exact ⟨hdisk,fun _ hok => by cases hok⟩
  · rcases setAddress_cases hidle haddress with ⟨-,rfl⟩|⟨⟨reason,herror⟩,-⟩
    · have hread := transferIn_cases (by exact hidle) rfl hrest
      rw [lba_addressed hlba] at hread
      exact hread
    · cases herror

/-- Alone on an idle drive, `write_sector` meets one of the write fates: the
whole sector it names is stored, or nothing is and the call fails. -/
theorem writeSector_alone {lba : ℕ} (hlba : lba<2^28) (hidle : channel.phase=.idle)
    (hcall : Driver.Returns Responds (writeSector lba sector.bytes) channel result last) :
    ∃ fate : WriteFate,result=fate.answer ∧
      last.disk=if fate.lands then Function.update channel.disk lba sector else channel.disk := by
  rcases Driver.returns_bind_iff.mp hcall with ⟨reason,haddress,rfl⟩|⟨_,middle,haddress,hrest⟩
  · rcases setAddress_cases hidle haddress with ⟨hok,-⟩|⟨-,hdisk⟩
    · cases hok
    · exact ⟨.refused reason,rfl,hdisk⟩
  · rcases setAddress_cases hidle haddress with ⟨-,rfl⟩|⟨⟨reason,herror⟩,-⟩
    · rcases transferOut_cases (by exact hidle) rfl hrest with ⟨⟨reason,rfl⟩,hdisk⟩|hdisk
      · exact ⟨.refused reason,rfl,hdisk⟩
      · rw [lba_addressed hlba] at hdisk
        cases result with
        | error reason => exact ⟨.unconfirmed reason,rfl,hdisk⟩
        | ok _ => exact ⟨.stored,rfl,hdisk⟩
    · cases herror

end

/-! ## Tasks that share the channel -/

/-- A call of the driver. -/
inductive Request where
  /-- `read_sector`. -/
  | read (lba : ℕ)
  /-- `write_sector`. -/
  | write (lba : ℕ) (sector : Sector)

/-- The sector a call names. -/
def Request.lba : Request → ℕ
  | .read lba => lba
  | .write lba _ => lba

/-- The port accesses of a call; a write returns an empty buffer. -/
def Request.perform : Request → Dialogue PortOp PortOp.Answer (Except String (List UInt8))
  | .read lba => (readSector lba).run
  | .write lba sector => (do
      writeSector lba sector.bytes
      pure [] : AtaDriver (List UInt8)).run

/-- Tasks inside the driver. -/
abbrev AtaTasks (Task : Type) :=
  Tasks PortOp PortOp.Answer Channel Request (Except String (List UInt8)) Task

/-- The drive has no open transfer and the sector is within its reach. -/
def Ready (request : Request) (channel : Channel) : Prop :=
  request.lba<2^28 ∧ channel.phase=.idle

/-- If a call returned `Ok`, it read the sector it names, or changed that
sector to its buffer and no other. -/
def Transferred (record : Record Channel Request (Except String (List UInt8))) : Prop :=
  match record.request,record.result with
  | .read lba,.ok buffer =>
    buffer=(record.before.disk lba).bytes ∧ record.after.disk=record.before.disk
  | .write lba sector,.ok _ => record.after.disk=Function.update record.before.disk lba sector
  | _,.error _ => True

/-- For any number of tasks and any task switches between port accesses: if
a task enters the driver only while no other task is inside it and the drive
is idle, every call that returns `Ok` transferred the sector it names. -/
theorem serial_transfers {Task : Type} [DecidableEq Task] {channel : Channel}
    {tasks : AtaTasks Task}
    (hrun : Relation.ReflTransGen (Step Responds Request.perform (Serial Ready))
      (Tasks.start Channel Request (Except String (List UInt8)) Task channel) tasks) :
    ∀ record∈tasks.returned,Transferred record := by
  intro record hmem
  obtain ⟨⟨hlba,hidle⟩,hruns⟩ := serial_returned hrun record hmem
  obtain ⟨request,before,result,after⟩ := record
  cases request with
  | read lba =>
    obtain ⟨hdisk,hbuffer⟩ := readSector_alone hlba hidle hruns
    cases result with
    | error reason => trivial
    | ok buffer => exact ⟨hbuffer buffer rfl,hdisk⟩
  | write lba sector =>
    cases result with
    | error reason => trivial
    | ok buffer =>
      obtain ⟨_,middle,hwrite,hdone⟩ := Driver.returns_bind_ok.mp hruns
      obtain ⟨-,rfl⟩ := Driver.returns_pure_iff.mp hdone
      obtain ⟨fate,hanswer,hdisk⟩ := writeSector_alone hlba hidle hwrite
      cases fate with
      | stored => exact hdisk
      | refused reason => cases hanswer
      | unconfirmed reason => cases hanswer

/-- A channel with nothing on its disk. -/
def blankChannel : Channel := ⟨⟨0,0,0,0,0⟩,.idle,fun _ => Sector.zero⟩

/-- A sector that starts with a one. -/
def markedSector : Sector := Sector.zero.put 0 [1] (by decide)

theorem markedSector_ne_zero : markedSector≠Sector.zero := by
  intro heq
  have hfirst := congrArg (fun sector : Sector => sector.bytes.head?) heq
  cases hfirst

/-- Alone on an idle drive, a read can succeed. -/
theorem readSector_succeeds {channel : Channel} {lba : ℕ} (hlba : lba<2^28)
    (hidle : channel.phase=.idle) :
    Driver.Returns Responds (readSector lba) channel (.ok (channel.disk lba).bytes)
      (addressed lba channel) := by
  have hread := @transferIn_succeeds (addressed lba channel) hidle rfl
  rw [lba_addressed hlba] at hread
  exact Driver.returns_bind_ok.mpr ⟨(),_,setAddress_succeeds hidle,hread⟩

/-- A lone task reads sector 2048 of a blank disk. -/
theorem serial_transfers_read :
    ∃ tasks : AtaTasks Bool,tasks.returned.map Record.request=[.read 2048] ∧
      ∀ record∈tasks.returned,Transferred record := by
  have hread : Runs Responds (Request.perform (.read 2048)) blankChannel _ _ :=
    readSector_succeeds (by norm_num) rfl
  have hrun : Relation.ReflTransGen (Step Responds Request.perform (Serial Ready))
      (Tasks.start Channel Request (Except String (List UInt8)) Bool blankChannel)
      ⟨addressed 2048 blankChannel,fun _ => none,[⟨.read 2048,blankChannel,
        .ok (blankChannel.disk 2048).bytes,addressed 2048 blankChannel⟩]⟩ :=
    steps_of_call true (Request.read 2048) rfl ⟨fun _ => rfl,by norm_num [Request.lba],rfl⟩ hread
  exact ⟨_,rfl,serial_transfers hrun⟩

/-- Runs with task switches and calls at any time. -/
abbrev Interleaves (channel : Channel) : AtaTasks Bool → Prop :=
  Relation.ReflTransGen (Step Responds Request.perform fun _ _ => True)
    (Tasks.start Channel Request (Except String (List UInt8)) Bool channel)

/-- One task addresses the drive for a write. Before it issues the command,
another task reads a sector. The write then goes where that task read. -/
theorem interrupted_write {channel : Channel} (hidle : channel.phase=.idle) {first second : ℕ}
    (hsecond : second<2^28) (sector : Sector) :
    ∃ tasks,Interleaves channel tasks ∧ tasks.calls=(fun _ => none) ∧
      tasks.device.disk=Function.update channel.disk second sector ∧
      tasks.returned.map (fun record => (record.request,record.result))=
        [(.write first sector,.ok []),(.read second,.ok (channel.disk second).bytes)] := by
  have hperform : Request.perform (.write first sector)=(setAddress first>>=fun _ =>
      (do transferOut sector.bytes; pure [] : AtaDriver (List UInt8))).run := by
    rw [← bind_assoc]
    rfl
  -- The writer addresses the drive.
  have henter : Interleaves channel _ := .single (.enter false (.write first sector) rfl trivial)
  rw [hperform] at henter
  have haddress : Interleaves channel _ := henter.trans
    (steps_of_returns _ (Function.update_self _ _ _) (setAddress_succeeds hidle))
  -- The reader performs a whole call.
  have hread : Interleaves channel _ := haddress.trans (steps_of_call true (Request.read second) rfl trivial
    (@readSector_succeeds (addressed first channel) second hsecond hidle))
  -- The writer goes on with its command.
  have hout := @transferOut_succeeds (addressed second (addressed first channel)) sector hidle rfl
  rw [lba_addressed hsecond] at hout
  have hreturn : Interleaves channel _ := hread.trans (steps_to_return false rfl
    (Driver.returns_bind_ok.mpr ⟨(),_,hout,Driver.returns_pure_iff.mpr ⟨rfl,rfl⟩⟩))
  refine ⟨_,hreturn,?_,rfl,rfl⟩
  funext task
  cases task <;> rfl

/-- A task writes the header of the second checkpoint slot while another
reads sector 2048. Both calls return `Ok`, the slot is unchanged and sector
2048 is overwritten. -/
theorem write_misdirected :
    ∃ tasks,Interleaves blankChannel tasks ∧ tasks.calls=(fun _ => none) ∧
      tasks.returned.map (fun record => (record.request,record.result))=
        [(.write slotBLba markedSector,.ok []),(.read 2048,.ok Sector.zero.bytes)] ∧
      tasks.device.disk slotBLba=Sector.zero ∧ tasks.device.disk 2048=markedSector ∧
      markedSector≠Sector.zero := by
  obtain ⟨tasks,hrun,hcalls,hdisk,hreturned⟩ := @interrupted_write blankChannel rfl slotBLba 2048
    (by norm_num) markedSector
  refine ⟨tasks,hrun,hcalls,hreturned,?_,?_,markedSector_ne_zero⟩
  · rw [hdisk,Function.update_of_ne (by decide)]
    rfl
  · rw [hdisk,Function.update_self]

end TuwaiqOS.AtaChannel
