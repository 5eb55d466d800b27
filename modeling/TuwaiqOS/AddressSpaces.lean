import Mathlib.Data.List.Sort
import Mathlib.Data.List.Destutter
import TuwaiqOS.FrameAllocator
import TuwaiqOS.PageTables

/-!
# Private address spaces

An address space owns the frames of its page tables and of its mapped pages.
The functions of `paging.rs` that map, unmap, clean up and free are modelled
with the page tables, the ownership list and the allocator; the bytes of
mapped frames are a function of the physical address. Each of them is shown
to move frames between the ownership list and the allocator without losing
or inventing one. Addresses are `u64` values and a page is its number.
-/

namespace TuwaiqOS.AddressSpaces

open ResourceLedger FrameAllocator PageTables
open BootInfoFrameAllocator (books)

/-! ## Address ranges -/

/-- `USER_SPACE_BASE`. -/
def userSpaceBase : ℕ := 0x700000000000

/-- `USER_SPACE_SIZE`. -/
def userSpaceSize : ℕ := 0x40000000

/-- `USER_MMAP_BASE`. -/
def userMmapBase : ℕ := userSpaceBase+0x10000000

/-- `USER_MMAP_LIMIT`. -/
def userMmapLimit : ℕ := userSpaceBase+userSpaceSize-0x100000

/-- `pml4_index`. -/
def pml4Index (address : ℕ) : ℕ := address/2^39%512

/-- `USER_REGION_PML4_INDEX`. -/
def userRegionPml4Index : ℕ := pml4Index userSpaceBase

/-- `VirtAddr::try_new` accepts an address as it is. -/
def canonical (raw : ℕ) : Bool := raw<2^47 || 2^64-2^47 ≤ raw

/-- A private page-table root with every frame it owns. -/
structure AddressSpace where
  /-- Frame of the root table. -/
  pml4Frame : ℕ
  /-- Frames of the root, of the private tables and of the mapped pages. -/
  ownedFrames : List ℕ
  /-- The tables below the private slot of the root. -/
  tables : Tables

/-- Bytes of physical memory by address. -/
abbrev Ram := ℕ → UInt8

/-! ## Creating and mapping -/

/-- `new_address_space`. -/
def newAddressSpace (allocator : BootInfoFrameAllocator) :
    Except String (AddressSpace×BootInfoFrameAllocator) :=
  match allocator.allocateFrame with
  | none => .error "out of physical memory frames"
  | some (frame,later) => .ok (⟨frame,[frame],Tables.empty⟩,later)

/-- `TrackingFrameAllocator`. -/
structure TrackingFrameAllocator where
  /-- The global allocator. -/
  inner : BootInfoFrameAllocator
  /-- The ownership list that records what it hands out. -/
  owned : List ℕ

/-- `TrackingFrameAllocator::allocate_frame`. -/
def TrackingFrameAllocator.allocateFrame (tracking : TrackingFrameAllocator) :
    Option (ℕ×TrackingFrameAllocator) :=
  tracking.inner.allocateFrame.map fun (frame,inner) => (frame,⟨inner,tracking.owned++[frame]⟩)

/-- `TrackingFrameDeallocator`. -/
structure TrackingFrameDeallocator where
  /-- The global allocator. -/
  inner : BootInfoFrameAllocator
  /-- The ownership list. -/
  owned : List ℕ
  /-- Frames returned so far. -/
  released : ℕ
  /-- A frame was reported that the space does not own. -/
  ownershipMismatch : Bool

/-- `TrackingFrameDeallocator::deallocate_frame`. -/
def TrackingFrameDeallocator.deallocateFrame (tracking : TrackingFrameDeallocator) (frame : ℕ) :
    TrackingFrameDeallocator :=
  if frame∈tracking.owned then
    {tracking with
      inner := tracking.inner.deallocateFrame frame
      owned := tracking.owned.erase frame
      released := tracking.released+1}
  else {tracking with ownershipMismatch := true}

/-- `map_in_address_space`. -/
def mapInAddressSpace (space : AddressSpace) (page : ℕ) (flags : Flags)
    (allocator : BootInfoFrameAllocator) :
    Except String Unit×AddressSpace×BootInfoFrameAllocator :=
  if pml4Index (page*4096)≠userRegionPml4Index then
    (.error "refusing to map outside the process's private address-space region",space,allocator)
  else
    match (TrackingFrameAllocator.mk allocator space.ownedFrames).allocateFrame with
    | none => (.error "out of physical memory frames",space,allocator)
    | some (frame,tracking) =>
      let mapped := Tables.mapTo TrackingFrameAllocator.allocateFrame space.tables page
        ⟨frame,flags⟩ tracking
      if mapped.1 then
        (.ok (),{space with ownedFrames := mapped.2.2.owned,tables := mapped.2.1},mapped.2.2.inner)
      else
        -- tables that were created stay owned; the leaf frame goes back
        (.error "page mapping failed: already mapped or invalid page table state",
          {space with ownedFrames := mapped.2.2.owned.erase frame,tables := mapped.2.1},
          mapped.2.2.inner.deallocateFrame frame)

/-- `update_flags_in_address_space`. -/
def updateFlagsInAddressSpace (space : AddressSpace) (page : ℕ) (flags : Flags) :
    Except String AddressSpace :=
  match space.tables.updateFlags page flags with
  | none => .error "flag update failed: page not mapped"
  | some tables => .ok {space with tables := tables}

/-! ## User ranges and their bytes -/

/-- `translate_in_address_space`, for an address of the private region. -/
def translateInAddressSpace (space : AddressSpace) (address : ℕ) : Option (ℕ×Flags) :=
  (space.tables.leaf (address/4096)).map fun leaf => (leaf.frame+address%4096,leaf.flags)

/-- `checked_user_virt_addr`. -/
def checkedUserVirtAddr (raw : ℕ) : Except String Unit :=
  if canonical raw=false then .error "non-canonical user address"
  else if raw<userSpaceBase ∨ userSpaceBase+userSpaceSize ≤ raw then
    .error "address is outside the process user region"
  else .ok ()

/-- The parts of a range that lie in one page each, with their lengths. The
first argument bounds their number. -/
def chunksFrom : ℕ → ℕ → ℕ → List (ℕ×ℕ)
  | 0,_,_ => []
  | fuel+1,address,len =>
    if len=0 then []
    else
      let part := min (4096-address%4096) len
      (address,part)::chunksFrom fuel (address+part) (len-part)

/-- The parts of `[start,start+len)`. -/
def chunks (start len : ℕ) : List (ℕ×ℕ) := chunksFrom (len/4096+2) start len

/-- The checks of `validate_user_range` for the page of one address. -/
def checkUserPage (space : AddressSpace) (requireWritable : Bool) (address : ℕ) :
    Except String Unit :=
  match translateInAddressSpace space address with
  | none => .error "user range contains an unmapped page"
  | some (_,flags) =>
    if flags.present=false then .error "user range contains a non-present page"
    else if flags.userAccessible=false then .error "user range contains a supervisor-only page"
    else if requireWritable=true ∧ flags.writable=false then
      .error "user range contains a read-only page"
    else .ok ()

/-- `validate_user_range`. -/
def validateUserRange (space : AddressSpace) (rawStart len : ℕ) (requireWritable : Bool) :
    Except String Unit := do
  checkedUserVirtAddr rawStart
  if 2^64 ≤ rawStart+len then throw "user range arithmetic overflow"
  if userSpaceBase+userSpaceSize < rawStart+len then
    throw "user range leaves the process user region"
  (chunks rawStart len).forM fun part => checkUserPage space requireWritable part.1

/-- `for_each_mapped_chunk`: the physical address and length of each part. -/
def forEachMappedChunk (space : AddressSpace) (start len : ℕ) :
    Except String (List (ℕ×ℕ)) := do
  validateUserRange space start len true
  (chunks start len).mapM fun part =>
    match translateInAddressSpace space part.1 with
    | none => .error "destination page not mapped in this address space"
    | some (physical,flags) =>
      if flags.writable=false then .error "destination page not writable"
      else if flags.userAccessible=false then .error "destination page not user-accessible"
      else .ok (physical,part.2)

/-- Store bytes at a physical address. -/
def Ram.store (ram : Ram) (physical : ℕ) (bytes : List UInt8) : Ram := fun address =>
  if physical≤address ∧ address<physical+bytes.length then bytes.getD (address-physical) 0
  else ram address

/-- `write_bytes_in_address_space`. -/
def writeBytesInAddressSpace (space : AddressSpace) (dest : ℕ) (data : List UInt8) (ram : Ram) :
    Except String Ram := do
  let parts ← forEachMappedChunk space dest data.length
  return (parts.foldl (fun (state : Ram×List UInt8) part =>
    (state.1.store part.1 (state.2.take part.2),state.2.drop part.2)) (ram,data)).1

/-- `zero_bytes_in_address_space`. -/
def zeroBytesInAddressSpace (space : AddressSpace) (dest len : ℕ) (ram : Ram) :
    Except String Ram := do
  let parts ← forEachMappedChunk space dest len
  return parts.foldl (fun (ram : Ram) part => ram.store part.1 (List.replicate part.2 0)) ram

/-! ## Unmapping -/

/-- `UnmapRecord`. -/
structure UnmapRecord where
  /-- The mapped page. -/
  page : ℕ
  /-- Its frame. -/
  frame : ℕ
  /-- Its flags. -/
  flags : Flags

/-- The record of one page of `collect_unmap_records`. -/
def unmapRecord (space : AddressSpace) (raw : ℕ) : Except String UnmapRecord :=
  if canonical raw=false then .error "non-canonical unmap address"
  else
    match translateInAddressSpace space raw with
    | none => .error "unmap range contains an unmapped page"
    | some (physical,flags) =>
      if physical%4096≠0 then .error "unmap translation was not frame-aligned"
      else if 2^64 ≤ raw+4096 then .error "unmap address overflow"
      else .ok ⟨raw/4096,physical,flags⟩

/-- `collect_unmap_records`: the records that are appended. -/
def collectUnmapRecords (space : AddressSpace) (rawStart pageCount : ℕ) :
    Except String (List UnmapRecord) := do
  if pageCount=0 ∨ rawStart%4096≠0 then throw "unmap range must contain aligned whole pages"
  if 2^64≤pageCount*4096 then throw "unmap range length overflow"
  validateUserRange space rawStart (pageCount*4096) false
  (List.range pageCount).mapM fun page => unmapRecord space (rawStart+page*4096)

/-- `unmap_record_frames`. -/
def unmapRecordFrames (records : List UnmapRecord) : Option (List ℕ) :=
  let frames := ((records.map UnmapRecord.frame).insertionSort (·≤·)).destutter (·≠·)
  if frames.length=records.length then some frames else none

/-- `OwnershipRemoval`. -/
structure OwnershipRemoval where
  /-- Position in the ownership list. -/
  index : ℕ
  /-- The frame expected there. -/
  frame : ℕ

/-- The positions of wanted frames in an ownership list that starts at an
index, in ascending order. -/
def ownershipPositions (wanted : List ℕ) : ℕ → List ℕ → List OwnershipRemoval
  | _,[] => []
  | index,frame::rest =>
    if frame∈wanted then ⟨index,frame⟩::ownershipPositions wanted (index+1) rest
    else ownershipPositions wanted (index+1) rest

/-- `plan_unmap_ownership`. The binary search is membership, as the frames
are sorted, and sorting the ascending positions in descending order reverses
them. -/
def planUnmapOwnership (snapshot sortedFrames : List ℕ) : Option (List OwnershipRemoval) :=
  let removals := ownershipPositions sortedFrames 0 snapshot
  if removals.length≠sortedFrames.length then none else some removals.reverse

/-- `NoFrameAllocator::allocate_frame`. -/
def noFrames (_ : Unit) : Option (ℕ×Unit) := none

/-- Map recorded pages again, without new tables, up to the first failure. -/
def remap : List UnmapRecord → Tables → Bool×Tables
  | [],tables => (true,tables)
  | record::rest,tables =>
    let mapped := Tables.mapTo noFrames tables record.page ⟨record.frame,record.flags⟩ ()
    if mapped.1 then remap rest mapped.2.1 else (false,mapped.2.1)

/-- Unmap recorded pages up to the first that has not its recorded frame,
and count them. -/
def unmapMatching : List UnmapRecord → Tables → ℕ×Tables
  | [],tables => (0,tables)
  | record::rest,tables =>
    match tables.unmap record.page with
    | none => (0,tables)
    | some (actual,later) =>
      if actual=record.frame then
        let removed := unmapMatching rest later
        (removed.1+1,removed.2)
      else (0,(Tables.mapTo noFrames later record.page ⟨actual,record.flags⟩ ()).2.1)

/-- `unmap_records_atomic`. -/
def unmapRecordsAtomic (space : AddressSpace) (records : List UnmapRecord) :
    Except String Unit×AddressSpace :=
  let removed := unmapMatching records space.tables
  if removed.1=records.length then (.ok (),{space with tables := removed.2})
  else
    let restored := remap (records.take removed.1).reverse removed.2
    if restored.1 then
      (.error "atomic unmap batch failed; removed prefix was restored",
        {space with tables := restored.2})
    else (.error "failed to restore atomic unmap batch",{space with tables := restored.2})

/-- `restore_unmap_records`. -/
def restoreUnmapRecords (space : AddressSpace) (records : List UnmapRecord) :
    Except String Unit×AddressSpace :=
  let restored := remap records space.tables
  (if restored.1 then .ok () else .error "failed to restore unmap transaction",
    {space with tables := restored.2})

/-- The loop of `remove_unmapped_ownership` over the ownership list. -/
def removeOwned : List OwnershipRemoval → List ℕ → Bool×List ℕ
  | [],owned => (true,owned)
  | removal::rest,owned =>
    if owned[removal.index]? ≠ some removal.frame then (false,owned)
    else removeOwned rest (owned.eraseIdx removal.index)

/-- `remove_unmapped_ownership`. -/
def removeUnmappedOwnership (space : AddressSpace) (removals : List OwnershipRemoval) :
    Bool×AddressSpace :=
  let removed := removeOwned removals space.ownedFrames
  (removed.1,{space with ownedFrames := removed.2})

/-- `release_frames`. -/
def releaseFrames (frames : List ℕ) (allocator : BootInfoFrameAllocator) :
    BootInfoFrameAllocator :=
  frames.foldl BootInfoFrameAllocator.deallocateFrame allocator

section

variable (space : AddressSpace) (rawStart pageCount : ℕ) (allocator : BootInfoFrameAllocator)

/-- `unmap_range_in_address_space_atomic`. -/
def unmapRangeInAddressSpaceAtomic :
    Except String Unit×AddressSpace×BootInfoFrameAllocator :=
  match collectUnmapRecords space rawStart pageCount with
  | .error reason => (.error reason,space,allocator)
  | .ok records =>
    match unmapRecordFrames records with
    | none => (.error "duplicate frame in unmap transaction",space,allocator)
    | some frames =>
      match planUnmapOwnership space.ownedFrames frames with
      | none =>
        (.error "unmap range contains a frame not owned by this address space",space,allocator)
      | some removals =>
        match unmapRecordsAtomic space records with
        | (.error reason,later) => (.error reason,later,allocator)
        | (.ok (),later) =>
          match removeUnmappedOwnership later removals with
          | (true,last) => (.ok (),last,releaseFrames frames allocator)
          | (false,last) =>
            match restoreUnmapRecords last records with
            | (.error reason,restored) => (.error reason,restored,allocator)
            | (.ok (),restored) =>
              (.error "unmapped leaf frame missing from address-space ownership",restored,
                allocator)

/-! ## Cleaning up and freeing -/

/-- `clean_up_empty_tables_in_range`. -/
def cleanUpEmptyTablesInRange :
    Except String ℕ×AddressSpace×BootInfoFrameAllocator :=
  let checks : Except String Unit := do
    if pageCount=0 ∨ rawStart%4096≠0 then
      throw "page-table cleanup range must contain aligned whole pages"
    if 2^64≤pageCount*4096 then throw "page-table cleanup range overflow"
    if 2^64 ≤ rawStart+(pageCount*4096-1) then throw "page-table cleanup end overflow"
    checkedUserVirtAddr rawStart
    checkedUserVirtAddr (rawStart+(pageCount*4096-1))
  match checks with
  | .error reason => (.error reason,space,allocator)
  | .ok () =>
    let cleaned := Tables.cleanUp TrackingFrameDeallocator.deallocateFrame 4 0 (rawStart/4096)
      ((rawStart+(pageCount*4096-1))/4096) (space.tables,⟨allocator,space.ownedFrames,0,false⟩)
    (if cleaned.2.2.ownershipMismatch then
        .error "cleaned page-table frame was not owned by address space"
      else .ok cleaned.2.2.released,
      {space with ownedFrames := cleaned.2.2.owned,tables := cleaned.2.1},cleaned.2.2.inner)

end

/-- `free_address_space`. -/
def freeAddressSpace (space : AddressSpace) (allocator : BootInfoFrameAllocator) :
    BootInfoFrameAllocator :=
  space.ownedFrames.foldl BootInfoFrameAllocator.deallocateFrame allocator

/-! ## Frames are moved -/

section

variable {allocator later : BootInfoFrameAllocator} {space next : AddressSpace}

/-- A new address space owns the frame of its root. -/
theorem moves_newAddressSpace (hnew : newAddressSpace allocator=.ok (space,later)) :
    Moves books allocator 0 later space.ownedFrames := by
  rw [newAddressSpace] at hnew
  split at hnew
  · cases hnew
  · rename_i frame found halloc
    cases hnew
    exact BootInfoFrameAllocator.moves_allocateFrame halloc

/-- A tracked frame is owned. -/
theorem moves_tracking {tracking found : TrackingFrameAllocator} {frame : ℕ}
    (halloc : tracking.allocateFrame=some (frame,found)) : found.owned=tracking.owned++[frame] ∧
      Moves books tracking.inner tracking.owned found.inner found.owned := by
  obtain ⟨⟨first,inner⟩,hinner,hpair⟩ := Option.map_eq_some_iff.mp halloc
  cases hpair
  refine ⟨rfl,?_⟩
  have hmove := (BootInfoFrameAllocator.moves_allocateFrame hinner).frame_left tracking.owned
  rw [add_zero,← Multiset.coe_singleton,Multiset.coe_add] at hmove
  exact hmove

/-- A tracked release takes the frame from its owner. -/
theorem moves_tracking_deallocateFrame (tracking : TrackingFrameDeallocator) (frame : ℕ) :
    Moves books tracking.inner tracking.owned (tracking.deallocateFrame frame).inner
      (tracking.deallocateFrame frame).owned := by
  rw [TrackingFrameDeallocator.deallocateFrame]
  split
  · rename_i hmem
    have hmove := (BootInfoFrameAllocator.moves_deallocateFrame tracking.inner frame).frame
      ((tracking.owned.erase frame : List ℕ) : Multiset ℕ)
    rw [zero_add,Multiset.singleton_add,Multiset.cons_coe,
      ← Multiset.coe_eq_coe.mpr (List.perm_cons_erase hmem)] at hmove
    exact hmove
  · exact Moves.refl _ _ _

section

variable (space : AddressSpace)

/-- Mapping a page moves frames between the space and the allocator, whether
it succeeds or not. -/
theorem moves_mapInAddressSpace (page : ℕ) (flags : Flags)
    (allocator : BootInfoFrameAllocator) : Moves books allocator space.ownedFrames
      (mapInAddressSpace space page flags allocator).2.2
      (mapInAddressSpace space page flags allocator).2.1.ownedFrames := by
  rw [mapInAddressSpace]
  split
  · exact Moves.refl _ _ _
  · split
    · exact Moves.refl _ _ _
    · rename_i frame tracking halloc
      obtain ⟨howned,hfirst⟩ := moves_tracking halloc
      -- the leaf frame stays in the list while tables are created
      have hkept := @Tables.mapTo_keeps _ TrackingFrameAllocator.allocateFrame
        (fun source => frame∈source.owned ∧
          Moves books allocator space.ownedFrames source.inner source.owned)
        (fun source other last hstep hsource => by
          obtain ⟨hlast,hmove⟩ := moves_tracking hstep
          rw [hlast] at hmove ⊢
          exact ⟨List.mem_append_left _ hsource.1,hsource.2.trans hmove⟩)
        space.tables page ⟨frame,flags⟩ tracking
        ⟨by rw [howned]; exact List.mem_append_right _ List.mem_cons_self,hfirst⟩
      obtain ⟨hmem,hmove⟩ := hkept
      dsimp only
      split
      · exact hmove
      · refine hmove.trans ?_
        have hback := (BootInfoFrameAllocator.moves_deallocateFrame
          (Tables.mapTo TrackingFrameAllocator.allocateFrame space.tables page ⟨frame,flags⟩
            tracking).2.2.inner frame).frame
          (((Tables.mapTo TrackingFrameAllocator.allocateFrame space.tables page ⟨frame,flags⟩
            tracking).2.2.owned.erase frame : List ℕ) : Multiset ℕ)
        rw [zero_add,Multiset.singleton_add,Multiset.cons_coe,
          ← Multiset.coe_eq_coe.mpr (List.perm_cons_erase hmem)] at hback
        exact hback

/-- Cleaning up moves the frames of empty tables to the allocator. -/
theorem moves_cleanUpEmptyTablesInRange (rawStart pageCount : ℕ)
    (allocator : BootInfoFrameAllocator) : Moves books allocator space.ownedFrames
      (cleanUpEmptyTablesInRange space rawStart pageCount allocator).2.2
      (cleanUpEmptyTablesInRange space rawStart pageCount allocator).2.1.ownedFrames := by
  rw [cleanUpEmptyTablesInRange]
  dsimp only
  split
  · exact Moves.refl _ _ _
  · exact @Tables.cleanUp_keeps _ TrackingFrameDeallocator.deallocateFrame
      (fun sink => Moves books allocator space.ownedFrames sink.inner sink.owned)
      (fun sink frame hsink => hsink.trans (moves_tracking_deallocateFrame sink frame))
      4 0 _ _ _ (Moves.refl _ _ _)

/-- Cleaning up changes nothing of the allocator but the pool. -/
theorem allocator_cleanUpEmptyTablesInRange (rawStart pageCount : ℕ)
    (allocator : BootInfoFrameAllocator) :
    ∃ freed,(cleanUpEmptyTablesInRange space rawStart pageCount allocator).2.2=
      {allocator with freed := freed} := by
  rw [cleanUpEmptyTablesInRange]
  dsimp only
  split
  · exact ⟨allocator.freed,rfl⟩
  · refine @Tables.cleanUp_keeps _ TrackingFrameDeallocator.deallocateFrame
      (fun sink => ∃ freed,sink.inner={allocator with freed := freed})
      (fun sink frame hsink => ?_) 4 0 _ _ _ ⟨allocator.freed,rfl⟩
    obtain ⟨freed,hinner⟩ := hsink
    rw [TrackingFrameDeallocator.deallocateFrame]
    split
    · refine ⟨frame::freed,?_⟩
      dsimp only
      rw [hinner]
      rfl
    · exact ⟨freed,hinner⟩

/-- Freeing an address space returns all its frames. -/
theorem moves_freeAddressSpace (allocator : BootInfoFrameAllocator) :
    Moves books allocator space.ownedFrames (freeAddressSpace space allocator) 0 :=
  BootInfoFrameAllocator.moves_deallocateFrames allocator space.ownedFrames

/-! ## The root and the memory map stay -/

/-- The space owns the frame of its root. -/
def Rooted : Prop := space.pml4Frame∈space.ownedFrames

/-- Mapping a page keeps the root, also when it fails and gives the leaf
frame back, and the memory map. -/
theorem mapInAddressSpace_keeps (page : ℕ) (flags : Flags) (allocator : BootInfoFrameAllocator) :
    (mapInAddressSpace space page flags allocator).2.1.pml4Frame=space.pml4Frame ∧
      (Rooted space → Rooted (mapInAddressSpace space page flags allocator).2.1) ∧
      (mapInAddressSpace space page flags allocator).2.2.memoryRegions=allocator.memoryRegions := by
  rw [mapInAddressSpace]
  split
  · exact ⟨rfl,id,rfl⟩
  split
  · exact ⟨rfl,id,rfl⟩
  rename_i frame tracking halloc
  have htracks : ∀ {source found : TrackingFrameAllocator} {taken : ℕ},
      source.allocateFrame=some (taken,found) →
      found.owned=source.owned++[taken] ∧ found.inner.memoryRegions=source.inner.memoryRegions := by
    intro source found taken htaken
    obtain ⟨⟨first,inner⟩,hinner,hpair⟩ := Option.map_eq_some_iff.mp htaken
    cases hpair
    exact ⟨rfl,BootInfoFrameAllocator.memoryRegions_allocateFrame hinner⟩
  -- the list only grows, behind the leaf frame
  have hkept := @Tables.mapTo_keeps _ TrackingFrameAllocator.allocateFrame
    (fun source => (∃ rest,source.owned=space.ownedFrames++frame::rest) ∧
      source.inner.memoryRegions=allocator.memoryRegions)
    (fun source taken found hstep hsource => by
      obtain ⟨⟨rest,hrest⟩,hregions⟩ := hsource
      obtain ⟨howned,hmap⟩ := htracks hstep
      refine ⟨⟨rest++[taken],?_⟩,hmap.trans hregions⟩
      rw [howned,hrest,List.append_assoc,List.cons_append])
    space.tables page ⟨frame,flags⟩ tracking ⟨⟨[],(htracks halloc).1⟩,(htracks halloc).2⟩
  obtain ⟨⟨rest,hrest⟩,hregions⟩ := hkept
  dsimp only
  split
  · refine ⟨rfl,fun hroot => ?_,hregions⟩
    rw [Rooted]
    dsimp only
    rw [hrest]
    exact List.mem_append_left _ hroot
  · refine ⟨rfl,fun hroot => ?_,hregions⟩
    rw [Rooted]
    dsimp only
    rw [hrest]
    by_cases hsame : space.pml4Frame=frame
    · -- the leaf frame was in the list twice
      rw [hsame,List.erase_append_left _ (by rw [← hsame]; exact hroot)]
      exact List.mem_append_right _ List.mem_cons_self
    · exact (List.mem_erase_of_ne hsame).mpr (List.mem_append_left _ hroot)

end

/-! ## Descending removals -/

/-- Removals that all succeed on an ownership list. -/
def Removable : List OwnershipRemoval → List ℕ → Prop
  | [],_ => True
  | removal::rest,owned =>
    owned[removal.index]? = some removal.frame ∧ Removable rest (owned.eraseIdx removal.index)

variable {owned snapshot frames : List ℕ} {removals first rest : List OwnershipRemoval}

/-- Removals from the end of the list to its start do not disturb each
other. -/
theorem removable_of_descending
    (hdescending : removals.Pairwise fun first second => second.index<first.index)
    (hfound : ∀ removal∈removals,owned[removal.index]? = some removal.frame) :
    Removable removals owned := by
  induction removals generalizing owned with
  | nil => trivial
  | cons removal rest ih =>
    obtain ⟨hbelow,hrest⟩ := List.pairwise_cons.mp hdescending
    refine ⟨hfound removal List.mem_cons_self,ih hrest fun other hother => ?_⟩
    rw [List.getElem?_eraseIdx_of_lt (hbelow other hother)]
    exact hfound other (List.mem_cons_of_mem _ hother)

theorem Removable.left (hremovable : Removable (first++rest) owned) : Removable first owned := by
  induction first generalizing owned with
  | nil => trivial
  | cons removal others ih => exact ⟨hremovable.1,ih hremovable.2⟩

/-- Successful removals split the ownership list, also part by part. -/
theorem removeOwned_append (hremovable : Removable (first++rest) owned) :
    (removeOwned first owned).1=true ∧ Removable rest (removeOwned first owned).2 ∧
      ((first.map OwnershipRemoval.frame : List ℕ) : Multiset ℕ)+(removeOwned first owned).2=
        owned := by
  induction first generalizing owned with
  | nil => exact ⟨rfl,hremovable,by rw [List.map_nil,Multiset.coe_nil,zero_add]; rfl⟩
  | cons removal others ih =>
    obtain ⟨hfound,hothers⟩ := hremovable
    obtain ⟨hdone,hrest,hsplit⟩ := ih hothers
    rw [removeOwned,if_neg (not_not.mpr hfound)]
    refine ⟨hdone,hrest,?_⟩
    obtain ⟨hindex,hframe⟩ := List.getElem?_eq_some_iff.mp hfound
    rw [List.map_cons,← Multiset.cons_coe,Multiset.cons_add,hsplit,Multiset.cons_coe,← hframe,
      Multiset.coe_eq_coe]
    exact List.getElem_cons_eraseIdx_perm hindex

theorem mem_ownershipPositions {wanted : List ℕ} {start : ℕ}
    {removal : OwnershipRemoval} (hmem : removal∈ownershipPositions wanted start owned) :
    start ≤ removal.index ∧ owned[removal.index-start]? = some removal.frame ∧
      removal.frame∈wanted := by
  induction owned generalizing start with
  | nil => cases hmem
  | cons frame rest ih =>
    have hlater : removal∈ownershipPositions wanted (start+1) rest →
        start ≤ removal.index ∧ (frame::rest)[removal.index-start]? = some removal.frame ∧
          removal.frame∈wanted := by
      intro hrest
      obtain ⟨hlow,hget,hwanted⟩ := ih hrest
      refine ⟨by omega,?_,hwanted⟩
      rw [show removal.index-start=removal.index-(start+1)+1 by omega]
      exact hget
    rw [ownershipPositions] at hmem
    split at hmem
    · rename_i hframe
      rcases List.mem_cons.mp hmem with rfl|hrest
      · exact ⟨le_rfl,by rw [Nat.sub_self]; rfl,hframe⟩
      · exact hlater hrest
    · exact hlater hmem

theorem ownershipPositions_ascending (wanted : List ℕ) (start : ℕ) (owned : List ℕ) :
    (ownershipPositions wanted start owned).Pairwise fun first second =>
      first.index<second.index := by
  induction owned generalizing start with
  | nil => exact List.Pairwise.nil
  | cons frame rest ih =>
    rw [ownershipPositions]
    split
    · refine List.pairwise_cons.mpr ⟨fun removal hmem => ?_,ih _⟩
      have hlow := (mem_ownershipPositions hmem).1
      change start < removal.index
      omega
    · exact ih _

theorem map_ownershipPositions (wanted : List ℕ) (start : ℕ) (owned : List ℕ) :
    (ownershipPositions wanted start owned).map OwnershipRemoval.frame=
      owned.filter fun frame => frame∈wanted := by
  induction owned generalizing start with
  | nil => rfl
  | cons frame rest ih =>
    rw [ownershipPositions]
    split
    · rename_i hframe
      rw [List.filter_cons_of_pos (by exact decide_eq_true hframe),List.map_cons,ih]
    · rename_i hframe
      rw [List.filter_cons_of_neg (by exact fun h => hframe (of_decide_eq_true h)),ih]

/-- A plan can be carried out on the list it was made for. -/
theorem removable_planUnmapOwnership
    (hplan : planUnmapOwnership snapshot frames=some removals) : Removable removals snapshot := by
  rw [planUnmapOwnership] at hplan
  split at hplan
  · cases hplan
  · cases hplan
    refine removable_of_descending ?_ fun removal hmem => ?_
    · exact List.pairwise_reverse.mpr (ownershipPositions_ascending _ _ _)
    · exact (mem_ownershipPositions (List.mem_reverse.mp hmem)).2.1

/-- A plan for a duplicate-free list removes exactly the wanted frames. -/
theorem planUnmapOwnership_frames
    (hsnapshot : snapshot.Nodup) (hplan : planUnmapOwnership snapshot frames=some removals) :
    (removals.map OwnershipRemoval.frame).Perm frames := by
  rw [planUnmapOwnership] at hplan
  split at hplan
  · cases hplan
  · rename_i hlength
    cases hplan
    rw [not_not] at hlength
    rw [List.map_reverse]
    refine (List.reverse_perm _).trans ?_
    have hpositions := map_ownershipPositions frames 0 snapshot
    have hsubset : (snapshot.filter fun frame => frame∈frames)⊆frames := by
      intro frame hmem
      exact of_decide_eq_true (List.mem_filter.mp hmem).2
    rw [hpositions]
    refine (List.subperm_of_subset (hsnapshot.filter _) hsubset).perm_of_length_le ?_
    rw [← hpositions,List.length_map]
    exact hlength.ge

@[simp] theorem ownedFrames_unmapRecordsAtomic (space : AddressSpace) (records : List UnmapRecord) :
    (unmapRecordsAtomic space records).2.ownedFrames=space.ownedFrames := by
  rw [unmapRecordsAtomic]
  dsimp only
  split
  · rfl
  · split <;> rfl

section

variable (space : AddressSpace) (rawStart pageCount : ℕ) (allocator : BootInfoFrameAllocator)

/-- Unmapping a range at once moves planned frames out of the space, or none. -/
theorem unmapRange_cases {result : Except String Unit×AddressSpace×BootInfoFrameAllocator}
    (hrun : unmapRangeInAddressSpaceAtomic space rawStart pageCount allocator=result) :
    result.2.1.ownedFrames=space.ownedFrames ∧ result.2.2=allocator ∨
      ∃ frames removals,planUnmapOwnership space.ownedFrames frames=some removals ∧
        ((removals.map OwnershipRemoval.frame : List ℕ) : Multiset ℕ)+result.2.1.ownedFrames=
          space.ownedFrames ∧ result.2.2=releaseFrames frames allocator := by
  rw [unmapRangeInAddressSpaceAtomic] at hrun
  subst hrun
  split
  · exact Or.inl ⟨rfl,rfl⟩
  split
  · exact Or.inl ⟨rfl,rfl⟩
  split
  · exact Or.inl ⟨rfl,rfl⟩
  rename_i frames _ _ removals hplan
  have hkept := ownedFrames_unmapRecordsAtomic space (by assumption)
  split
  · rename_i hunmap
    rw [hunmap] at hkept
    exact Or.inl ⟨hkept,rfl⟩
  rename_i unmapped hunmap
  rw [hunmap] at hkept
  dsimp only at hkept
  have hremovable := removable_planUnmapOwnership hplan
  rw [← List.append_nil removals,← hkept] at hremovable
  obtain ⟨hdone,-,hsplit⟩ := removeOwned_append hremovable
  rw [removeUnmappedOwnership,hdone]
  exact Or.inr ⟨frames,removals,hplan,hsplit.trans (congrArg _ hkept),rfl⟩

/-- Unmapping a range at once moves frames. The frames that are released
come from the records, so this needs that the space owns no frame twice. -/
theorem moves_unmapRangeInAddressSpaceAtomic : Moves books allocator space.ownedFrames
      (unmapRangeInAddressSpaceAtomic space rawStart pageCount allocator).2.2
      (unmapRangeInAddressSpaceAtomic space rawStart pageCount allocator).2.1.ownedFrames := by
  refine Moves.of_nodup fun hnodup => ?_
  rw [Multiset.coe_nodup] at hnodup
  rcases unmapRange_cases space rawStart pageCount allocator rfl with
    ⟨howned,hsame⟩|⟨frames,removals,hplan,hsplit,hreleased⟩
  · rw [howned,hsame]
    exact Moves.refl _ _ _
  · have hmove := (BootInfoFrameAllocator.moves_deallocateFrames allocator frames).frame
      (unmapRangeInAddressSpaceAtomic space rawStart pageCount allocator).2.1.ownedFrames
    rw [zero_add,← Multiset.coe_eq_coe.mpr (planUnmapOwnership_frames hnodup hplan),hsplit] at hmove
    rw [hreleased]
    exact hmove

end

end

end TuwaiqOS.AddressSpaces
