import TuwaiqOS.DeviceProgram
import TuwaiqOS.Checkpoint
import TuwaiqOS.VfsPath

/-!
# The FAT32 volume

`fat32.rs` finds a FAT32 partition, checks its geometry and reads
directories and files by following cluster chains. Every read of a sector
says what it is for, and arithmetic and slices that the source does not check
stop with a fault of their own where they would overflow or leave the buffer.
A chain is followed for at most as many steps as there are clusters.
-/

namespace TuwaiqOS.Fat32

open Utf8Text ByteFields DeviceProgram FsTree VfsPath Checkpoint

/-! ## Reading sectors, arithmetic and slices -/

/-- What a sector is read for. -/
inductive Purpose where
  /-- Partition table and boot sectors. -/
  | boot
  /-- An entry of the file allocation table. -/
  | table
  /-- A sector of a directory or file. -/
  | data
  deriving DecidableEq

/-- One call of `ata::read_sector`. -/
structure ReadSector where
  /-- What it is for. -/
  purpose : Purpose
  /-- The sector. -/
  lba : ℕ
  deriving DecidableEq

/-- How an operation can stop. -/
inductive Fault where
  /-- An `Err` of `fat32.rs`. -/
  | error (reason : String)
  /-- An `Err` of `ata::read_sector`. -/
  | device (reason : String)
  /-- An unchecked operation leaves its integer type. -/
  | overflow
  /-- A slice or index leaves its buffer. -/
  | outOfRange
  deriving DecidableEq

/-- The text that a caller gets; the last two are panics. -/
def Fault.text : Fault → String
  | .error reason => reason
  | .device reason => reason
  | .overflow => "attempt to overflow"
  | .outOfRange => "range out of bounds"

/-- An operation of `fat32.rs`. -/
abbrev FatRoutine := ExceptT Fault (Dialogue ReadSector fun _ => Except String Sector)

/-- `ata::read_sector`. -/
def readSector (purpose : Purpose) (lba : ℕ) : FatRoutine Sector :=
  ExceptT.mk (.call ⟨purpose,lba⟩ fun answer => .done (answer.mapError .device))

/-- `ata::read_sector`, where only success matters. -/
def tryReadSector (purpose : Purpose) (lba : ℕ) : FatRoutine (Option Sector) :=
  ExceptT.mk (.call ⟨purpose,lba⟩ fun answer => .done (.ok answer.toOption))

/-- `a + b` of type `u32`. -/
def add (a b : ℕ) : Except Fault ℕ := if a+b<2^32 then .ok (a+b) else .error .overflow

/-- `a - b` of an unsigned type. -/
def sub (a b : ℕ) : Except Fault ℕ := if b ≤ a then .ok (a-b) else .error .overflow

/-- `a.checked_add(b).ok_or(reason)?` of type `u32`. -/
def checkedAdd (reason : String) (a b : ℕ) : Except Fault ℕ :=
  if a+b<2^32 then .ok (a+b) else .error (.error reason)

/-- `a.checked_mul(b).ok_or(reason)?` of type `u32`. -/
def checkedMul (reason : String) (a b : ℕ) : Except Fault ℕ :=
  if a*b<2^32 then .ok (a*b) else .error (.error reason)

/-- `bytes[index]`. -/
def byteAt (bytes : List UInt8) (index : ℕ) : Except Fault UInt8 :=
  match bytes[index]? with
  | some byte => .ok byte
  | none => .error .outOfRange

/-- `&bytes[start..stop]`. -/
def sliceOf (bytes : List UInt8) (start stop : ℕ) : Except Fault (List UInt8) :=
  if start ≤ stop ∧ stop≤bytes.length then .ok (slice bytes start (stop-start))
  else .error .outOfRange

/-- `le_u16` or `le_u32` of the slice of that width. -/
def leAt (bytes : List UInt8) (start width : ℕ) : Except Fault ℕ := do
  let field ← sliceOf bytes start (start+width)
  pure (leValue field)

/-! ## Mounting -/

/-- `Fat32Volume`. -/
structure Fat32Volume where
  /-- First sector of the partition. -/
  partitionStart : ℕ
  /-- Sectors of the volume. -/
  partitionSectors : ℕ
  /-- Sectors of a cluster. -/
  sectorsPerCluster : ℕ
  /-- First sector of the file allocation table. -/
  fatStart : ℕ
  /-- Its sectors. -/
  fatSectors : ℕ
  /-- First sector of the clusters. -/
  dataStart : ℕ
  /-- Cluster of the root directory. -/
  rootCluster : ℕ
  /-- Number of clusters. -/
  clusterCount : ℕ
  deriving DecidableEq

/-- `MBR_PARTITION_OFFSET`. -/
def mbrPartitionOffset : ℕ := 446

/-- `MBR_PARTITION_COUNT`. -/
def mbrPartitionCount : ℕ := 4

/-- `FAT32_MIN_CLUSTERS`. -/
def fat32MinClusters : ℕ := 65525

/-- `FAT32_EOC`. -/
def fat32Eoc : ℕ := 0x0FFFFFF8

/-- `FAT32_BAD`. -/
def fat32Bad : ℕ := 0x0FFFFFF7

/-- `MAX_DIRECTORY_ENTRIES`. -/
def maxDirectoryEntries : ℕ := 4096

/-- `MAX_READ_FILE_SIZE`. -/
def maxReadFileSize : ℕ := 256*1024

/-- The bits of a cluster number. -/
def clusterMask : ℕ := 0x0FFFFFFF

/-- `u8::is_power_of_two`. -/
def isPowerOfTwo (byte : ℕ) : Bool := (List.range 8).any fun exponent => byte=2^exponent

/-- The fields of a boot sector by which `mount` tells FAT32 from FAT16. -/
def looksLikeFat32 (candidate : List UInt8) : Except Fault Bool := do
  let rootEntries ← leAt candidate 17 2
  let fat16Sectors ← leAt candidate 22 2
  let totalSectors ← leAt candidate 32 4
  pure (rootEntries=0 && fat16Sectors=0 && totalSectors≠0)

/-- One entry of the partition table: its first sector and its length, if
there is a FAT32 boot sector. -/
def partitionAt (mbr : List UInt8) (index : ℕ) : FatRoutine (Option (ℕ×ℕ)) := do
  let offset := mbrPartitionOffset+index*16
  let partitionType ← settled (byteAt mbr (offset+4))
  if partitionType=0x0B ∨ partitionType=0x0C then
    let start ← settled (leAt mbr (offset+8) 4)
    let sectors ← settled (leAt mbr (offset+12) 4)
    if start≠0 ∧ sectors≠0 then
      match ← tryReadSector .boot start with
      | none => pure none
      | some candidate =>
        let found ← settled (looksLikeFat32 candidate.bytes)
        pure (if found then some (start,sectors) else none)
    else pure none
  else pure none

/-- The loop of `mount` over the partition table. -/
def findPartition (mbr : List UInt8) : List ℕ → FatRoutine (Option (ℕ×ℕ))
  | [] => pure none
  | index::rest => do
    match ← partitionAt mbr index with
    | some partition => pure (some partition)
    | none => findPartition mbr rest

/-- The checks of `mount` on the boot sector of the partition. -/
def volumeOf (partitionStart partitionSectors : ℕ) (bpb : List UInt8) :
    Except Fault Fat32Volume := do
  let first ← byteAt bpb 510
  let second ← byteAt bpb 511
  let sectorBytes ← leAt bpb 11 2
  if first≠0x55 ∨ second≠0xAA ∨ sectorBytes≠512 then
    throw (.error "FAT32: invalid boot sector")
  else
    let clusterByte ← byteAt bpb 13
    let sectorsPerCluster := clusterByte.toNat
    let reserved ← leAt bpb 14 2
    let fatByte ← byteAt bpb 16
    let fatCount := fatByte.toNat
    let rootEntries ← leAt bpb 17 2
    let totalSectors ← leAt bpb 32 4
    let fatSectors ← leAt bpb 36 4
    let rootField ← leAt bpb 44 4
    let rootCluster := rootField&&&clusterMask
    if sectorsPerCluster=0 ∨ isPowerOfTwo sectorsPerCluster=false ∨ reserved=0 ∨ fatCount=0 ∨
        rootEntries≠0 ∨ totalSectors=0 ∨ totalSectors>partitionSectors ∨ fatSectors=0 ∨
        rootCluster<2 then
      throw (.error "FAT32: invalid BPB geometry")
    else
      let fatArea ← checkedMul "FAT32: FAT geometry overflow" fatCount fatSectors
      let dataRelative ← checkedAdd "FAT32: data geometry overflow" reserved fatArea
      if dataRelative ≥ totalSectors then throw (.error "FAT32: data region missing")
      else
        let dataSectors ← sub totalSectors dataRelative
        let clusterCount := dataSectors/sectorsPerCluster
        if clusterCount<fat32MinClusters then
          throw (.error "FAT32: volume has non-FAT32 cluster count")
        else if fatSectors*128<clusterCount+2 then
          throw (.error "FAT32: FAT is too small for data region")
        else
          let clusterEnd ← add clusterCount 2
          if rootCluster ≥ clusterEnd then
            throw (.error "FAT32: root cluster outside data region")
          else
            let fatStart ← checkedAdd "FAT32: FAT LBA overflow" partitionStart reserved
            let dataStart ← checkedAdd "FAT32: data LBA overflow" partitionStart dataRelative
            let _ ← checkedAdd "FAT32: partition LBA overflow" partitionStart totalSectors
            pure ⟨partitionStart,totalSectors,sectorsPerCluster,fatStart,fatSectors,dataStart,
              rootCluster,clusterCount⟩

/-- `Fat32Volume::mount`. -/
def mount : FatRoutine Fat32Volume := do
  let mbr ← readSector .boot 0
  let first ← settled (byteAt mbr.bytes 510)
  let second ← settled (byteAt mbr.bytes 511)
  if first≠0x55 ∨ second≠0xAA then throw (.error "FAT32: invalid MBR signature")
  else
    match ← findPartition mbr.bytes (List.range mbrPartitionCount) with
    | none => throw (.error "FAT32: MBR partition not found")
    | some (partitionStart,partitionSectors) =>
      let bpb ← readSector .boot partitionStart
      settled (volumeOf partitionStart partitionSectors bpb.bytes)

/-! ## Clusters -/

section

variable (volume : Fat32Volume)

/-- `validate_cluster`. -/
def validateCluster (cluster : ℕ) : Except Fault Unit :=
  if cluster<2 then .error (.error "FAT32: cluster outside data region")
  else do
    let clusterEnd ← add volume.clusterCount 2
    if cluster ≥ clusterEnd then throw (.error "FAT32: cluster outside data region")
    else pure ()

/-- `cluster_lba`. -/
def clusterLba (cluster : ℕ) : Except Fault ℕ := do
  validateCluster volume cluster
  let index ← sub cluster 2
  let relative ← checkedMul "FAT32: cluster LBA overflow" index volume.sectorsPerCluster
  let lba ← checkedAdd "FAT32: data LBA overflow" volume.dataStart relative
  let partitionEnd ← checkedAdd "FAT32: partition end overflow" volume.partitionStart
    volume.partitionSectors
  if lba ≥ partitionEnd then throw (.error "FAT32: data LBA outside partition") else pure lba

/-- `next_cluster`. -/
def nextCluster (cluster : ℕ) : FatRoutine (Option ℕ) := do
  settled (validateCluster volume cluster)
  let byteOffset ← settled (checkedMul "FAT32: FAT offset overflow" cluster 4)
  let sectorOffset := byteOffset/512
  if sectorOffset≥volume.fatSectors then throw (.error "FAT32: FAT lookup outside table")
  else
    let lba ← settled (add volume.fatStart sectorOffset)
    let sector ← readSector .table lba
    let found ← settled (leAt sector.bytes (byteOffset%512) 4)
    let value := found&&&clusterMask
    if value ≥ fat32Eoc then pure none
    else if value=fat32Bad ∨ value<2 then throw (.error "FAT32: invalid cluster chain")
    else
      settled (validateCluster volume value)
      pure (some value)

/-! ## Directories -/

/-- `DirectoryEntry`. -/
structure DirectoryEntry where
  /-- The short name. -/
  name : Text
  /-- File or directory. -/
  kind : EntryKind
  /-- Where its contents start. -/
  firstCluster : ℕ
  /-- Its length in bytes. -/
  size : ℕ
  deriving DecidableEq

/-- Number of bytes up to the last one that is not a space. -/
def trimmedLength (bytes : List UInt8) : ℕ := (bytes.reverse.dropWhile (·=0x20)).length

/-- One character of a short name. -/
def shortCharacter (byte : UInt8) : Except Fault Char :=
  if ¬(0x21 ≤ byte ∧ byte≤0x7E) ∨ byte=0x2F ∨ byte=0x5C then
    .error (.error "FAT32: unsupported short-name byte")
  else .ok (Char.ofNat byte.toNat)

/-- `append_short_component`: the characters to append. -/
def shortComponent (bytes : List UInt8) : Except Fault Text := do
  let used ← sliceOf bytes 0 (trimmedLength bytes)
  used.mapM shortCharacter

/-- The extension of a short name with its dot, if there is one. -/
def shortExtension (raw : List UInt8) : Except Fault Text := do
  let extensionBytes ← sliceOf raw 8 11
  let extensionLen := trimmedLength extensionBytes
  if extensionLen≠0 then
    let used ← sliceOf raw 8 (8+extensionLen)
    let characters ← shortComponent used
    pure ('.'::characters)
  else pure []

/-- `decode_entry`. -/
def decodeEntry (raw : List UInt8) : Except Fault DirectoryEntry := do
  let baseBytes ← sliceOf raw 0 8
  let base ← shortComponent baseBytes
  let extension ← shortExtension raw
  let name := base++extension
  if name.isEmpty ∨ name=['.'] ∨ name=['.','.'] then
    throw (.error "FAT32: invalid short name")
  else
    let high ← leAt raw 20 2
    let low ← leAt raw 26 2
    let firstCluster := ((high<<<16)|||low)&&&clusterMask
    let attributes ← byteAt raw 11
    let kind : EntryKind := if attributes&&&0x10≠0 then .directory else .file
    if kind=.directory ∧ firstCluster<2 then
      throw (.error "FAT32: directory has invalid cluster")
    else
      let size ← leAt raw 28 4
      pure ⟨name,kind,firstCluster,size⟩

/-- What reading a part of a directory leads to. -/
inductive Scan where
  /-- The end marker was found. -/
  | finished (entries : List DirectoryEntry)
  /-- The directory goes on. -/
  | more (entries : List DirectoryEntry)

/-- The entries so far. -/
def Scan.entries : Scan → List DirectoryEntry
  | .finished entries => entries
  | .more entries => entries

/-- The 32-byte records of a sector (`chunks_exact(32)`). -/
def records (sector : Sector) : List (List UInt8) :=
  (List.range 16).map fun index => sector.field (32*index) 32

/-- The name field of the entry `.`. -/
def dotName : List UInt8 := 0x2E::List.replicate 10 0x20

/-- The name field of the entry `..`. -/
def dotDotName : List UInt8 := 0x2E::0x2E::List.replicate 9 0x20

/-- The loop of `read_directory` over the records of a sector. -/
def scanRecords : List (List UInt8) → List DirectoryEntry → Except Fault Scan
  | [],entries => .ok (.more entries)
  | raw::rest,entries => do
    let first ← byteAt raw 0
    if first=0 then pure (.finished entries)
    else
      let attributes ← byteAt raw 11
      if first=0xE5 ∨ attributes=0x0F ∨ attributes&&&0x08≠0 then scanRecords rest entries
      else
        let nameField ← sliceOf raw 0 11
        if nameField=dotName ∨ nameField=dotDotName then scanRecords rest entries
        else if entries.length≥maxDirectoryEntries then
          throw (.error "FAT32: directory entry limit exceeded")
        else
          let entry ← decodeEntry raw
          scanRecords rest (entries++[entry])

/-- The loop of `read_directory` over the sectors of a cluster, of which
`count` are left. -/
def scanSectors (firstLba : ℕ) : ℕ → ℕ → List DirectoryEntry → FatRoutine Scan
  | 0,_,entries => pure (.more entries)
  | count+1,index,entries => do
    let lba ← settled (add firstLba index)
    let sector ← readSector .data lba
    match ← settled (scanRecords (records sector) entries) with
    | .finished entries => pure (.finished entries)
    | .more entries => scanSectors firstLba count (index+1) entries

/-- The loop of `read_directory` over the clusters of a chain. -/
def readDirectoryFrom (visited cluster : ℕ) (entries : List DirectoryEntry) :
    FatRoutine (List DirectoryEntry) :=
  if 2^32 ≤ visited+1 then throw (.error "FAT32: cluster count overflow")
  else if _hloop : visited+1>volume.clusterCount then
    throw (.error "FAT32: directory cluster loop")
  else do
    let firstLba ← settled (clusterLba volume cluster)
    match ← scanSectors firstLba volume.sectorsPerCluster 0 entries with
    | .finished entries => pure entries
    | .more entries =>
      match ← nextCluster volume cluster with
      | some next => readDirectoryFrom (visited+1) next entries
      | none => pure entries
termination_by volume.clusterCount-visited

/-- `read_directory`. -/
def readDirectory (startCluster : ℕ) : FatRoutine (List DirectoryEntry) := do
  settled (validateCluster volume startCluster)
  readDirectoryFrom volume 0 startCluster []

/-! ## Paths -/

/-- `Located`. -/
inductive Located where
  /-- The root directory. -/
  | root
  /-- An entry of a directory. -/
  | entry (entry : DirectoryEntry)

/-- `eq_ignore_ascii_case`. -/
def eqIgnoreAsciiCase (first second : Text) : Bool :=
  first.map Char.toLower=second.map Char.toLower

/-- The loop of `locate` over the components. -/
def locateFrom (cluster : ℕ) : List Text → FatRoutine Located
  | [] => throw (.error "FAT32: invalid path")
  | component::rest => do
    let entries ← readDirectory volume cluster
    match entries.find? fun entry => eqIgnoreAsciiCase entry.name component with
    | none => throw (.error "FAT32: entry not found")
    | some entry =>
      if rest.isEmpty then pure (.entry entry)
      else if entry.kind≠.directory then throw (.error "FAT32: not a directory")
      else locateFrom entry.firstCluster rest

/-- `locate`. -/
def locate (path : Text) : FatRoutine Located :=
  if path.head?≠some '/' then throw (.error "FAT32: backend path must be absolute")
  else if (parts path).isEmpty then pure .root
  else locateFrom volume volume.rootCluster (parts path)

/-! ## The operations -/

/-- `kind`. -/
def kind (path : Text) : FatRoutine EntryKind := do
  match ← locate volume path with
  | .root => pure .directory
  | .entry entry => pure entry.kind

/-- `Metadata`. -/
structure Metadata where
  /-- File or directory. -/
  kind : EntryKind
  /-- Bytes of a file or entries of a directory. -/
  size : ℕ

/-- `metadata`. -/
def metadata (path : Text) : FatRoutine Metadata := do
  match ← locate volume path with
  | .root =>
    let entries ← readDirectory volume volume.rootCluster
    pure ⟨.directory,entries.length⟩
  | .entry entry =>
    if entry.kind=.file then pure ⟨.file,entry.size⟩
    else
      let entries ← readDirectory volume entry.firstCluster
      pure ⟨.directory,entries.length⟩

/-- A name as it is listed. -/
def DirectoryEntry.display (entry : DirectoryEntry) : Text :=
  if entry.kind=.directory then entry.name++['/'] else entry.name

/-- `list`. -/
def list (path : Text) : FatRoutine (List Text) := do
  let cluster ← match ← locate volume path with
    | .root => pure volume.rootCluster
    | .entry entry =>
      if entry.kind=.directory then pure entry.firstCluster
      else throw (.error "FAT32: not a directory")
  let entries ← readDirectory volume cluster
  pure (entries.map DirectoryEntry.display)

/-- The loop of `read` over the sectors of a cluster, of which `count` are
left. -/
def fillSectors (size firstLba : ℕ) : ℕ → ℕ → List UInt8 → FatRoutine (List UInt8)
  | 0,_,bytes => pure bytes
  | count+1,index,bytes => do
    let lba ← settled (add firstLba index)
    let sector ← readSector .data lba
    let remaining ← settled (sub size bytes.length)
    let part ← settled (sliceOf sector.bytes 0 (min remaining 512))
    if (bytes++part).length=size then pure (bytes++part)
    else fillSectors size firstLba count (index+1) (bytes++part)

/-- The loop of `read` over the clusters of a chain. -/
def readFrom (size visited cluster : ℕ) (bytes : List UInt8) : FatRoutine (List UInt8) :=
  if size≤bytes.length then pure bytes
  else if 2^32 ≤ visited+1 then throw (.error "FAT32: cluster count overflow")
  else if _hloop : visited+1>volume.clusterCount then throw (.error "FAT32: file cluster loop")
  else do
    let firstLba ← settled (clusterLba volume cluster)
    let bytes ← fillSectors size firstLba volume.sectorsPerCluster 0 bytes
    if bytes.length<size then
      match ← nextCluster volume cluster with
      | none => throw (.error "FAT32: truncated file chain")
      | some next => readFrom size (visited+1) next bytes
    else readFrom size (visited+1) cluster bytes
termination_by volume.clusterCount-visited

/-- `read`. -/
def read (path : Text) : FatRoutine (List UInt8) := do
  match ← locate volume path with
  | .root => throw (.error "FAT32: is a directory")
  | .entry entry =>
    if entry.kind=.file then
      if entry.size>maxReadFileSize then throw (.error "FAT32: file exceeds read limit")
      else if entry.size=0 then pure []
      else
        settled (validateCluster volume entry.firstCluster)
        readFrom volume entry.size 0 entry.firstCluster []
    else throw (.error "FAT32: is a directory")

end

end TuwaiqOS.Fat32
