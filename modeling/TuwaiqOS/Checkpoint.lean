import TuwaiqOS.BlockProgram
import TuwaiqOS.TreeCodec
import TuwaiqOS.TwoSlotStore

/-!
# TuwaiqFS on disk: superblock, checkpoint slots, mount and sync

The superblock selects between the legacy layout and two checkpoint slots. A
slot is a header sector with generation, length, checksum and commit marker,
followed by the serialized tree. `mount`, `format_region` and `sync_tree`
are routines over the disk and the three atomics of `tuwaiqfs.rs`; reading a
slot is also given as a function of the disk alone.
-/

namespace TuwaiqOS.Checkpoint

open ByteFields BlockProgram FsTree TreeCodec

/-! ## Sectors -/

/-- Contents of one disk sector. -/
structure Sector where
  /-- Its bytes. -/
  bytes : List UInt8
  /-- There are 512 of them. -/
  length : bytes.length=512
  deriving DecidableEq

/-- A sector of zeros. -/
def Sector.zero : Sector := ⟨List.replicate 512 0,List.length_replicate⟩

/-- Overwrite the bytes from `offset` on. -/
def Sector.put (sector : Sector) (offset : ℕ) (patch : List UInt8)
    (hfit : offset+patch.length≤512) : Sector :=
  ⟨splice sector.bytes offset patch,by
    rw [length_splice (by rw [sector.length]; exact hfit),sector.length]⟩

/-- The bytes of a field. -/
def Sector.field (sector : Sector) (offset count : ℕ) : List UInt8 :=
  slice sector.bytes offset count

/-- The little-endian value of a field (`from_le_bytes`). -/
def Sector.number (sector : Sector) (offset count : ℕ) : ℕ := leValue (sector.field offset count)

/-- Sector number `index` of a blob, padded with zeros. -/
def Sector.ofBlob (blob : List UInt8) (index : ℕ) : Sector :=
  ⟨chunk 512 blob index,length_chunk 512 blob index⟩

/-- Contents of the disk by logical block address. -/
abbrev Disk := ℕ → Sector

/-! ## Layout -/

/-- `SUPERBLOCK_LBA`. -/
def superblockLba : ℕ := 8192

/-- `LEGACY_METADATA_LBA`. -/
def legacyMetadataLba : ℕ := 8465

/-- `LEGACY_METADATA_SECTORS`. -/
def legacyMetadataSectors : ℕ := 248

/-- `SLOT_A_LBA`. -/
def slotALba : ℕ := 23490

/-- `SLOT_SECTORS`. -/
def slotSectors : ℕ := 512

/-- `SLOT_B_LBA`. -/
def slotBLba : ℕ := slotALba+slotSectors

/-- `VERSION`. -/
def version : ℕ := 3

/-- `LEGACY_VERSION`. -/
def legacyVersion : ℕ := 2

/-- `TQFSv2` and two zero bytes (`MAGIC`). -/
def magic : List UInt8 := [0x54,0x51,0x46,0x53,0x76,0x32,0,0]

/-- `TQCKPT` and two zero bytes (`SLOT_MAGIC`). -/
def slotMagic : List UInt8 := [0x54,0x51,0x43,0x4B,0x50,0x54,0,0]

/-- `SLOT_COMMITTED`. -/
def slotCommitted : ℕ := 0x434F4D54

/-- `slot_lba`. -/
def slotLba : ℕ → Except String ℕ
  | 0 => .ok slotALba
  | 1 => .ok slotBLba
  | _ => .error "invalid checkpoint slot"

/-- `crc32`, one round of the inner loop. -/
def crcRound (crc : UInt32) : UInt32 :=
  let mask := 0-(crc &&& 1)
  (crc>>>1)^^^(0xEDB88320 &&& mask)

/-- `crc32`. -/
def crc32 (bytes : List UInt8) : UInt32 :=
  ~~~(bytes.foldl (fun crc byte => crcRound^[8] (crc^^^byte.toUInt32)) 0xFFFFFFFF)

/-- `build_superblock`. -/
def buildSuperblock : Sector :=
  (((Sector.zero.put 0 magic (by decide)).put 8 (leBytes 4 version) (by decide)).put
    12 (leBytes 4 slotALba) (by decide)).put 16 (leBytes 4 slotSectors) (by decide)

/-- The header sector written by `checkpoint_header`. -/
def headerSector (generation : ℕ) (blob : List UInt8) (committed : Bool) : Sector :=
  let header := (((Sector.zero.put 0 slotMagic (by decide)).put 8 (leBytes 8 generation)
    (by simp)).put 16 (leBytes 4 blob.length) (by simp)).put 20 (leBytes 4 (crc32 blob).toNat)
    (by simp)
  if committed then header.put 24 (leBytes 4 slotCommitted) (by simp) else header

/-- `checkpoint_header`. -/
def checkpointHeader (generation : ℕ) (blob : List UInt8) (committed : Bool) :
    Except String Sector :=
  if blob.length<2^32 then .ok (headerSector generation blob committed)
  else .error "checkpoint length overflow"

/-! ## Kernel memory -/

/-- The statics of `tuwaiqfs.rs` and `fs.rs`. -/
structure KernelMemory where
  /-- `ACTIVE_SLOT`. -/
  activeSlot : ℕ
  /-- `GENERATION`. -/
  generation : ℕ
  /-- `FORMAT_VERSION`. -/
  formatVersion : ℕ
  /-- `FS`, the published tree. -/
  fs : Option FsNode
  /-- `WRITER_ACTIVE`. -/
  writerActive : Bool

/-- The statics at power on. -/
def KernelMemory.boot : KernelMemory := ⟨0,0,version,none,false⟩

/-- The indivisible memory accesses of the two modules. -/
inductive Tag where
  /-- Load of `GENERATION`. -/
  | loadGeneration
  /-- Load of `ACTIVE_SLOT`. -/
  | loadActiveSlot
  /-- Load of `FORMAT_VERSION`. -/
  | loadFormatVersion
  /-- Store to `GENERATION`. -/
  | storeGeneration
  /-- Store to `ACTIVE_SLOT`. -/
  | storeActiveSlot
  /-- Store to `FORMAT_VERSION`. -/
  | storeFormatVersion
  /-- Compare-exchange of `WRITER_ACTIVE`. -/
  | acquire
  /-- Clearing of `WRITER_ACTIVE`. -/
  | release
  /-- Copy of the root pointer under the lock of `FS`. -/
  | snapshot
  /-- Replacement of the root pointer under the lock of `FS`. -/
  | publish
  deriving DecidableEq

/-- A routine of the filesystem modules. -/
abbrev FsRoutine := Routine Sector KernelMemory Tag

/-- The machine the filesystem routines run on. -/
abbrev FsMachine := Machine Sector KernelMemory

/-- Power on with the given disk contents. -/
def boot (disk : Disk) : FsMachine := ⟨disk,.boot,[],[]⟩

/-- Store to `ACTIVE_SLOT`. -/
def setActiveSlot (slot : ℕ) : FsRoutine Unit := do
  let _ ← Routine.act .storeActiveSlot fun memory => {memory with activeSlot := slot}

/-- Store to `GENERATION`. -/
def setGeneration (generation : ℕ) : FsRoutine Unit := do
  let _ ← Routine.act .storeGeneration fun memory => {memory with generation := generation}

/-- Store to `FORMAT_VERSION`. -/
def setFormatVersion (number : ℕ) : FsRoutine Unit := do
  let _ ← Routine.act .storeFormatVersion fun memory => {memory with formatVersion := number}

/-! ## Reading -/

/-- The loop of `read_metadata_at` over `count` sectors, of which
`remaining` bytes are still wanted. -/
def readSectors : ℕ → ℕ → ℕ → FsRoutine (List UInt8)
  | 0,_,_ => pure []
  | count+1,sector,remaining => do
    let buffer ← Routine.readBlock sector
    let take := min remaining 512
    let rest ← readSectors count (sector+1) (remaining-take)
    pure (buffer.bytes.take take++rest)

/-- `read_metadata_at`: sectors are read until `length` bytes are there. -/
def readMetadataAt (lba length : ℕ) : FsRoutine (List UInt8) := do
  if length>maxMetadataBytes then throw "metadata length exceeds reserved region"
  else readSectors ((length+511)/512) lba length

/-- `load_tree_at`. -/
def loadTreeAt (metadataLba metadataLen : ℕ) : FsRoutine FsNode := do
  if metadataLen=0 then pure emptyRoot
  else
    let blob ← readMetadataAt metadataLba metadataLen
    if blob.length<4 ∨ blob.take 4≠treeMagic then
      throw "corrupt TuwaiqFS metadata: bad TREE magic"
    else Routine.ofExcept (deserializeTree (blob.drop 4))

/-- `load_checkpoint`. -/
def loadCheckpoint (slot : ℕ) : FsRoutine (Option (ℕ×FsNode)) := do
  let lba ← Routine.ofExcept (slotLba slot)
  let header ← Routine.readBlock lba
  if header.field 0 8≠slotMagic ∨ header.number 24 4≠slotCommitted then pure none
  else
    let generation := header.number 8 8
    let length := header.number 16 4
    let expectedCrc := header.number 20 4
    if generation=0 ∨ length=0 ∨ length>maxMetadataBytes then pure none
    else
      let blob ← readMetadataAt (lba+1) length
      if (crc32 blob).toNat≠expectedCrc ∨ blob.length<4 ∨ blob.take 4≠treeMagic then pure none
      else
        match deserializeTree (blob.drop 4) with
        | .ok tree => pure (some (generation,tree))
        | .error _ => pure none

/-- `load_latest_checkpoint`. -/
def loadLatestCheckpoint : FsRoutine FsNode := do
  let first ← Routine.attempt (loadCheckpoint 0)
  let second ← Routine.attempt (loadCheckpoint 1)
  let selected : Option (ℕ×ℕ×FsNode) :=
    match first,second with
    | .ok (some a),.ok (some b) => if a.1≥b.1 then some (0,a) else some (1,b)
    | .ok (some a),_ => some (0,a)
    | _,.ok (some b) => some (1,b)
    | _,_ => none
  match selected with
  | none => throw "no valid committed TuwaiqFS checkpoint"
  | some (slot,generation,tree) =>
    setActiveSlot slot
    setGeneration generation
    pure tree

/-! ## Writing -/

/-- The payload loop of `write_checkpoint`: `count` sectors are left, the
next one is number `index`. -/
def writePayload (lba : ℕ) (blob : List UInt8) (interruptAfter : Option ℕ) :
    ℕ → ℕ → FsRoutine Unit
  | 0,_ => pure ()
  | count+1,index => do
    Routine.writeBlock (lba+1+index) (Sector.ofBlob blob index)
    if interruptAfter=some (index+1) then throw "injected interrupted checkpoint"
    else writePayload lba blob interruptAfter count (index+1)

/-- `write_checkpoint`. -/
def writeCheckpoint (slot generation : ℕ) (blob : List UInt8) (interruptAfter : Option ℕ) :
    FsRoutine Unit := do
  let lba ← Routine.ofExcept (slotLba slot)
  let header ← Routine.ofExcept (checkpointHeader generation blob false)
  Routine.writeBlock lba header
  writePayload lba blob interruptAfter ((blob.length+511)/512) 0
  let header ← Routine.ofExcept (checkpointHeader generation blob true)
  Routine.writeBlock lba header

/-- The common front of `sync_tree` and `sync_tree_interrupted`: the blob,
the next generation and the slot to write. -/
def planSync (root : FsNode) : FsRoutine (List UInt8×ℕ×ℕ) := do
  let blob ← Routine.ofExcept (serializeTree root)
  if blob.length>maxMetadataBytes then throw "filesystem metadata too large"
  else
    let atGeneration ← Routine.act .loadGeneration id
    if atGeneration.generation+1<2^64 then
      let atSlot ← Routine.act .loadActiveSlot id
      pure (blob,atGeneration.generation+1,1-min atSlot.activeSlot 1)
    else throw "checkpoint generation exhausted"

/-- `sync_tree`. -/
def syncTree (root : FsNode) : FsRoutine Unit := do
  let (blob,generation,target) ← planSync root
  writeCheckpoint target generation blob none
  let atVersion ← Routine.act .loadFormatVersion id
  if atVersion.formatVersion≠version then
    Routine.writeBlock superblockLba buildSuperblock
    setFormatVersion version
  setActiveSlot target
  setGeneration generation

/-- `sync_tree_interrupted`. -/
def syncTreeInterrupted (root : FsNode) (dataSectors : ℕ) : FsRoutine Unit := do
  let (blob,generation,target) ← planSync root
  match ← Routine.attempt (writeCheckpoint target generation blob (some dataSectors)) with
  | .error reason => throw reason
  | .ok () => throw "interruption point exceeded checkpoint length"

/-- `format_region`. -/
def formatRegion : FsRoutine Unit := do
  Routine.writeBlock superblockLba buildSuperblock
  setFormatVersion version
  setActiveSlot 1
  setGeneration 0
  syncTree emptyRoot

/-- `mount`. -/
def mount : FsRoutine FsNode := do
  let superblock ← Routine.readBlock superblockLba
  if superblock.field 0 8≠magic then
    let slotA ← Routine.readBlock slotALba
    let slotB ← Routine.readBlock slotBLba
    if superblock.bytes.any (·≠0) || slotA.bytes.any (·≠0) || slotB.bytes.any (·≠0) then
      throw "corrupt TuwaiqFS superblock or checkpoint headers"
    else
      formatRegion
      pure emptyRoot
  else
    let found := superblock.number 8 4
    let metadataLba := superblock.number 12 4
    let metadataSectors := superblock.number 16 4
    if found=version then
      if metadataLba≠slotALba ∨ metadataSectors≠slotSectors then
        throw "invalid TuwaiqFS v3 checkpoint geometry"
      else
        setFormatVersion version
        loadLatestCheckpoint
    else if found≠legacyVersion ∨ metadataLba≠legacyMetadataLba ∨
        metadataSectors≠legacyMetadataSectors then
      throw "invalid TuwaiqFS superblock geometry or version"
    else
      let metadataLen := superblock.number 20 4
      if metadataLen>legacyMetadataSectors*512 then
        throw "TuwaiqFS metadata length exceeds reserved region"
      else
        setFormatVersion legacyVersion
        setActiveSlot 0
        setGeneration 0
        loadTreeAt legacyMetadataLba metadataLen

end TuwaiqOS.Checkpoint
