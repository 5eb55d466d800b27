import TuwaiqOS.ByteFields
import TuwaiqOS.AddressSpaces

/-!
# Executable images

The loader of `elf.rs` first checks the header and every program header of
an ELF64 file, and only then changes the address space: for each segment it
maps the pages, zeroes them, copies the file bytes and sets the final flags.
The second pass is kept as a list of operations, so that it can also be
performed one operation at a time.
-/

namespace TuwaiqOS.ElfImage

open ByteFields ResourceLedger FrameAllocator PageTables AddressSpaces
open BootInfoFrameAllocator (books)

/-! ## Headers -/

/-- `EHDR_SIZE`. -/
def ehdrSize : ℕ := 64

/-- `PHDR_SIZE`. -/
def phdrSize : ℕ := 56

/-- `read_u16`, `read_u32` and `read_u64` by their width. -/
def readField (bytes : List UInt8) (offset width : ℕ) : Except String ℕ :=
  if offset+width≤bytes.length then .ok (leValue (slice bytes offset width))
  else .error "truncated ELF header"

/-- `ProgramHeader`. -/
structure ProgramHeader where
  /-- `p_type`. -/
  pType : ℕ
  /-- `p_flags`. -/
  pFlags : ℕ
  /-- `p_offset`. -/
  pOffset : ℕ
  /-- `p_vaddr`. -/
  pVaddr : ℕ
  /-- `p_filesz`. -/
  pFilesz : ℕ
  /-- `p_memsz`. -/
  pMemsz : ℕ

/-- `parse_program_header`. -/
def parseProgramHeader (bytes : List UInt8) (offset : ℕ) : Except String ProgramHeader := do
  if 2^64≤offset+phdrSize then throw "program header offset overflow"
  if bytes.length<offset+phdrSize then throw "program header out of bounds"
  return ⟨← readField bytes offset 4,← readField bytes (offset+4) 4,
    ← readField bytes (offset+8) 8,← readField bytes (offset+16) 8,
    ← readField bytes (offset+32) 8,← readField bytes (offset+40) 8⟩

/-- `in_user_range`. -/
def inUserRange (address len : ℕ) : Bool :=
  address+len<2^64 && userSpaceBase≤address && address+len≤userSpaceBase+userSpaceSize

/-- `segment_page_flags`; `PF_X`, `PF_W` and `PF_R` are the bits 0, 1 and 2. -/
def segmentPageFlags (pFlags : ℕ) : Flags :=
  ⟨true,pFlags.testBit 1,true,!pFlags.testBit 0⟩

/-- The flags pages have while a segment is copied. -/
def stagingFlags : Flags := ⟨true,true,true,false⟩

/-- The checks of the first pass for one program header. Only `PT_LOAD` is
kept; `PT_DYNAMIC` is 2 and `PT_INTERP` is 3. -/
def checkHeader (bytes : List UInt8) (header : ProgramHeader) :
    Except String (Option ProgramHeader) :=
  if header.pType=2 ∨ header.pType=3 then
    .error "ELF: dynamic linking is not supported by this loader"
  else if header.pType≠1 then .ok none
  else if header.pMemsz<header.pFilesz then .error "ELF: segment p_filesz exceeds p_memsz"
  else if 2^64≤header.pOffset+header.pFilesz then .error "ELF: segment file range overflow"
  else if bytes.length<header.pOffset+header.pFilesz then
    .error "ELF: segment file range out of bounds"
  else if inUserRange header.pVaddr header.pMemsz=false then
    .error "ELF: segment virtual address range outside the permitted user region"
  else if header.pFlags.testBit 2=false then
    .error "ELF: segment without PF_R is not supported (nothing this loader maps is ever fully inaccessible)"
  else .ok (some header)

/-- The first pass of `load`: the entry point and the segments. -/
def parse (bytes : List UInt8) : Except String (ℕ×List ProgramHeader) := do
  if bytes.length<ehdrSize then throw "ELF: file too small for a header"
  if slice bytes 0 4≠[0x7f,0x45,0x4c,0x46] then throw "ELF: bad magic"
  if bytes[4]? ≠ some 2 then throw "ELF: not a 64-bit object (ELFCLASS64 required)"
  if bytes[5]? ≠ some 1 then throw "ELF: not little-endian (ELFDATA2LSB required)"
  if bytes[6]? ≠ some 1 then throw "ELF: unsupported e_ident version"
  let eType ← readField bytes 16 2
  let eMachine ← readField bytes 18 2
  let eVersion ← readField bytes 20 4
  let eEntry ← readField bytes 24 8
  let ePhoff ← readField bytes 32 8
  let ePhentsize ← readField bytes 54 2
  let ePhnum ← readField bytes 56 2
  if eType≠2 then
    throw "ELF: unsupported e_type (only ET_EXEC is supported -- no relocations/PIE)"
  if eMachine≠62 then throw "ELF: unsupported e_machine (only EM_X86_64 is supported)"
  if eVersion≠1 then throw "ELF: unsupported e_version"
  if ePhentsize≠phdrSize then
    throw "ELF: unsupported e_phentsize (only the standard 56-byte Elf64_Phdr is supported)"
  if ePhnum=0 then throw "ELF: no program headers (nothing to load)"
  if 2^64≤ePhentsize*ePhnum then throw "ELF: program header table size overflow"
  if 2^64≤ePhoff+ePhentsize*ePhnum then throw "ELF: program header table offset overflow"
  if bytes.length<ePhoff+ePhentsize*ePhnum then
    throw "ELF: program header table out of bounds"
  if inUserRange eEntry 1=false then
    throw "ELF: entry point outside the permitted user address range"
  let headers ← (List.range ePhnum).mapM fun index => do
    checkHeader bytes (← parseProgramHeader bytes (ePhoff+index*phdrSize))
  let segments := headers.reduceOption
  if segments.isEmpty then throw "ELF: no PT_LOAD segments (nothing to load)"
  return (eEntry,segments)

/-! ## Operations on an address space -/

/-- The frame allocator and the bytes of physical memory. -/
structure Paging where
  /-- The global frame allocator. -/
  allocator : BootInfoFrameAllocator
  /-- Physical memory. -/
  ram : Ram

/-- An operation of the second pass. -/
inductive SpaceOp where
  /-- `map_in_address_space`. -/
  | map (page : ℕ) (flags : Flags)
  /-- `zero_bytes_in_address_space`. -/
  | zero (dest len : ℕ)
  /-- `write_bytes_in_address_space`. -/
  | write (dest : ℕ) (data : List UInt8)
  /-- `update_flags_in_address_space`. -/
  | protect (page : ℕ) (flags : Flags)

/-- Perform one operation. -/
def SpaceOp.perform (space : AddressSpace) (paging : Paging) :
    SpaceOp → Except String Unit×AddressSpace×Paging
  | .map page flags =>
    let mapped := mapInAddressSpace space page flags paging.allocator
    (mapped.1,mapped.2.1,{paging with allocator := mapped.2.2})
  | .zero dest len =>
    match zeroBytesInAddressSpace space dest len paging.ram with
    | .error reason => (.error reason,space,paging)
    | .ok ram => (.ok (),space,{paging with ram := ram})
  | .write dest data =>
    match writeBytesInAddressSpace space dest data paging.ram with
    | .error reason => (.error reason,space,paging)
    | .ok ram => (.ok (),space,{paging with ram := ram})
  | .protect page flags =>
    match updateFlagsInAddressSpace space page flags with
    | .error reason => (.error reason,space,paging)
    | .ok later => (.ok (),later,paging)

/-- Perform operations one after another, up to the first failure. -/
def performAll : List SpaceOp → AddressSpace → Paging → Except String Unit×AddressSpace×Paging
  | [],space,paging => (.ok (),space,paging)
  | op::rest,space,paging =>
    match op.perform space paging with
    | (.error reason,later) => (.error reason,later)
    | (.ok (),later) => performAll rest later.1 later.2

/-- The pages of a segment. -/
def segmentPages (header : ProgramHeader) : List ℕ :=
  List.range' (header.pVaddr/4096)
    ((header.pVaddr+header.pMemsz+4095)/4096-header.pVaddr/4096)

/-- The second pass of `load` for one segment. -/
def segmentOps (bytes : List UInt8) (header : ProgramHeader) : List SpaceOp :=
  let finalFlags := segmentPageFlags header.pFlags
  (segmentPages header).map (SpaceOp.map · stagingFlags)++
    [.zero (header.pVaddr/4096*4096) ((segmentPages header).length*4096),
      .write header.pVaddr (slice bytes header.pOffset header.pFilesz)]++
    if finalFlags≠stagingFlags then (segmentPages header).map (SpaceOp.protect · finalFlags)
    else []

/-- Both passes of `load`: the entry point and the operations to perform. -/
def loadPlan (bytes : List UInt8) : Except String (ℕ×List SpaceOp) := do
  let (entry,segments) ← parse bytes
  return (entry,segments.flatMap (segmentOps bytes))

/-- A small executable: one readable and executable page of zeros at the
start of the user region, with the entry point at its first byte. -/
def tinyElf : List UInt8 :=
  [0x7f,0x45,0x4c,0x46,2,1,1]++List.replicate 9 0++leBytes 2 2++leBytes 2 62++leBytes 4 1++
    leBytes 8 userSpaceBase++leBytes 8 64++leBytes 8 0++leBytes 4 0++leBytes 2 64++leBytes 2 56++
    leBytes 2 1++leBytes 6 0++leBytes 4 1++leBytes 4 5++leBytes 8 0++leBytes 8 userSpaceBase++
    leBytes 8 userSpaceBase++leBytes 8 0++leBytes 8 4096++leBytes 8 4096

/-- An operation moves frames between the space and the allocator. -/
theorem moves_perform (op : SpaceOp) (space : AddressSpace) (paging : Paging) :
    Moves books paging.allocator space.ownedFrames (op.perform space paging).2.2.allocator
      (op.perform space paging).2.1.ownedFrames := by
  cases op with
  | map page flags => exact moves_mapInAddressSpace space page flags paging.allocator
  | zero | write =>
    rw [SpaceOp.perform]
    split <;> exact Moves.refl _ _ _
  | protect page flags =>
    rw [SpaceOp.perform]
    split
    · exact Moves.refl _ _ _
    · rename_i later hupdate
      rw [updateFlagsInAddressSpace] at hupdate
      split at hupdate
      · cases hupdate
      · cases hupdate
        exact Moves.refl _ _ _

/-- An operation keeps the root of the space and the memory map. -/
theorem perform_keeps (op : SpaceOp) (space : AddressSpace) (paging : Paging) :
    (op.perform space paging).2.1.pml4Frame=space.pml4Frame ∧
      (Rooted space → Rooted (op.perform space paging).2.1) ∧
      (op.perform space paging).2.2.allocator.memoryRegions=paging.allocator.memoryRegions := by
  cases op with
  | map page flags => exact mapInAddressSpace_keeps space page flags paging.allocator
  | zero | write =>
    rw [SpaceOp.perform]
    split <;> exact ⟨rfl,id,rfl⟩
  | protect page flags =>
    rw [SpaceOp.perform]
    split
    · exact ⟨rfl,id,rfl⟩
    · rename_i later hupdate
      rw [updateFlagsInAddressSpace] at hupdate
      split at hupdate
      · cases hupdate
      · cases hupdate
        exact ⟨rfl,id,rfl⟩

end TuwaiqOS.ElfImage
