import TuwaiqOS.Checkpoint

/-!
# What mount reads, as a function of the disk

Every checkpoint slot is a function of the disk: nothing, or a generation
and a tree. Mounting selects between the slots by the two-slot rule. A
header reads back field by field, a committed checkpoint of a tree that
round-trips reads as that tree, an uncommitted header reads as nothing, and
a slot depends on its own 512 sectors only.
-/

namespace TuwaiqOS.SlotContents

open ByteFields BlockProgram FallibleSteps FsTree TreeCodec TwoSlotStore Checkpoint

/-! ## Reading without errors -/

/-- The `length` bytes stored from sector `lba` on. -/
def storedBytes (disk : Disk) (lba length : ℕ) : List UInt8 :=
  ((List.range ((length+511)/512)).flatMap fun index => (disk (lba+index)).bytes).take length

theorem perform_readSectors (count lba remaining : ℕ) (machine : FsMachine) :
    Routine.perform (readSectors count lba remaining) machine=
      (.ok (((List.range count).flatMap fun index =>
        (machine.disk (lba+index)).bytes).take remaining),machine) := by
  induction count generalizing lba remaining with
  | zero => simp [readSectors]
  | succ count ih =>
    have hshift : (List.range count).flatMap (fun index => (machine.disk (lba+1+index)).bytes)=
        ((List.range count).map Nat.succ).flatMap fun index => (machine.disk (lba+index)).bytes := by
      rw [List.flatMap_map]
      congr 1
      funext index
      rw [Nat.add_assoc,Nat.add_comm 1 index]
    have hfirst : (machine.disk lba).bytes.take (min remaining 512)=
        (machine.disk lba).bytes.take remaining := by
      rw [← (machine.disk lba).length,← List.take_take,List.take_length]
    have hrest : remaining-min remaining 512=remaining-(machine.disk lba).bytes.length := by
      rw [(machine.disk lba).length]
      omega
    rw [readSectors,Routine.perform_bind_ok (Routine.perform_readBlock lba machine)]
    dsimp only
    rw [Routine.perform_bind_ok (ih (lba+1) (remaining-min remaining 512)),
      Routine.perform_pure,List.range_succ_eq_map,List.flatMap_cons,List.take_append,← hshift,
      hfirst,hrest]
    rfl

variable {lba generation : ℕ} {disk : Disk} {blob : List UInt8} {tree : FsNode}

theorem perform_readMetadataAt {length : ℕ} (hlength : length ≤ maxMetadataBytes)
    (machine : FsMachine) : Routine.perform (readMetadataAt lba length) machine=
      (.ok (storedBytes machine.disk lba length),machine) := by
  rw [readMetadataAt,if_neg (not_lt.mpr hlength),perform_readSectors]
  rfl

/-- The tree that a payload decodes to, if it is one. -/
def decodePayload (blob : List UInt8) : Option FsNode :=
  if blob.length<4 ∨ blob.take 4≠treeMagic then none else (deserializeTree (blob.drop 4)).toOption

/-- Generation and tree of a valid committed slot. -/
def slotAt (disk : Disk) (lba : ℕ) : Option (ℕ×FsNode) :=
  let header := disk lba
  if header.field 0 8≠slotMagic ∨ header.number 24 4≠slotCommitted then none
  else if header.number 8 8=0 ∨ header.number 16 4=0 ∨ header.number 16 4>maxMetadataBytes then none
  else
    let blob := storedBytes disk (lba+1) (header.number 16 4)
    if (crc32 blob).toNat≠header.number 20 4 then none
    else (decodePayload blob).map fun tree => (header.number 8 8,tree)

/-- First sector of a slot; slots other than the second count as the first. -/
def slotStart (slot : ℕ) : ℕ := if slot=1 then slotBLba else slotALba

/-- Generation and tree of a slot by number. -/
def slotValue (disk : Disk) (slot : ℕ) : Option (ℕ×FsNode) := slotAt disk (slotStart slot)

variable {slot : ℕ} {changed : Disk} {patch : List UInt8}

theorem slotLba_eq (hslot : slot<2) : slotLba slot=.ok (slotStart slot) := by
  obtain rfl|rfl : slot=0 ∨ slot=1 := by omega
  · rfl
  · rfl

theorem perform_loadCheckpoint (hslot : slot<2) (machine : FsMachine) :
    Routine.perform (loadCheckpoint slot) machine= (.ok (slotValue machine.disk slot),machine) := by
  rw [loadCheckpoint,slotLba_eq hslot,
    Routine.perform_bind_ok (Routine.perform_ofExcept (.ok (slotStart slot)) machine),
    Routine.perform_bind_ok (Routine.perform_readBlock (slotStart slot) machine),slotValue,slotAt]
  dsimp only
  split
  · rfl
  · split
    · rfl
    · rename_i hbounds
      simp only [not_or] at hbounds
      rw [Routine.perform_bind_ok (perform_readMetadataAt (not_lt.mp hbounds.2.2) machine)]
      by_cases hcrc : (crc32 (storedBytes machine.disk (slotStart slot+1)
          ((machine.disk (slotStart slot)).number 16 4))).toNat≠
            (machine.disk (slotStart slot)).number 20 4
      · rw [if_pos (Or.inl hcrc),if_pos hcrc]
        rfl
      · rw [if_neg hcrc,decodePayload]
        split
        · rename_i hbad
          rw [if_pos (hbad.resolve_left hcrc)]
          rfl
        · rename_i hgood
          rw [if_neg fun hbad => hgood (Or.inr hbad)]
          cases deserializeTree _ <;> rfl

/-- Loading the newest checkpoint is selecting between the two slots. -/
theorem perform_loadLatestCheckpoint (machine : FsMachine) :
    Routine.perform loadLatestCheckpoint machine=
      match pick (slotValue machine.disk) with
      | none => (.error "no valid committed TuwaiqFS checkpoint",machine)
      | some (slot,generation,tree) =>
        (.ok tree,{machine with
          memory := {machine.memory with activeSlot := slot,generation := generation}}) := by
  have hfirst := Routine.perform_attempt (loadCheckpoint 0) machine
  rw [perform_loadCheckpoint (by decide)] at hfirst
  have hsecond := Routine.perform_attempt (loadCheckpoint 1) machine
  rw [perform_loadCheckpoint (by decide)] at hsecond
  rw [loadLatestCheckpoint,Routine.perform_bind_ok hfirst,Routine.perform_bind_ok hsecond,pick]
  rcases slotValue machine.disk 0 with _|first <;> rcases slotValue machine.disk 1 with _|second
  · rfl
  · rfl
  · rfl
  · by_cases hnewer : first.1≥second.1
    · simp only [if_pos hnewer]
      rfl
    · simp only [if_neg hnewer]
      rfl

/-! ## Mounting -/

/-- A superblock that `mount` takes for version 3. -/
structure V3Superblock (sector : Sector) : Prop where
  /-- The magic matches. -/
  magicOk : sector.field 0 8=magic
  /-- The version field. -/
  versionOk : sector.number 8 4=version
  /-- The first checkpoint sector. -/
  lbaOk : sector.number 12 4=slotALba
  /-- The sectors of one slot. -/
  sectorsOk : sector.number 16 4=slotSectors

/-- A superblock that `mount` takes for the legacy version. -/
structure V2Superblock (sector : Sector) : Prop where
  /-- The magic matches. -/
  magicOk : sector.field 0 8=magic
  /-- The version field. -/
  versionOk : sector.number 8 4=legacyVersion
  /-- The first metadata sector. -/
  lbaOk : sector.number 12 4=legacyMetadataLba
  /-- The sectors of the metadata region. -/
  sectorsOk : sector.number 16 4=legacyMetadataSectors
  /-- The metadata length stays inside the region. -/
  lengthOk : sector.number 20 4≤legacyMetadataSectors*512

/-- The memory after a successful mount of a version 3 volume. -/
def mountedMemory (memory : KernelMemory) (slot generation : ℕ) : KernelMemory :=
  {memory with formatVersion := version,activeSlot := slot,generation := generation}

/-- Mounting version 3 returns the selected checkpoint or fails. -/
theorem perform_mount_v3 {machine : FsMachine}
    (hsuper : V3Superblock (machine.disk superblockLba)) :
    Routine.perform mount machine=
      match pick (slotValue machine.disk) with
      | none => (.error "no valid committed TuwaiqFS checkpoint",
          {machine with memory := {machine.memory with formatVersion := version}})
      | some (slot,generation,tree) =>
        (.ok tree,{machine with memory := mountedMemory machine.memory slot generation}) := by
  rw [mount,Routine.perform_bind_ok (Routine.perform_readBlock superblockLba machine),
    if_neg (not_not.mpr hsuper.magicOk)]
  dsimp only
  rw [if_pos hsuper.versionOk,if_neg (by rw [hsuper.lbaOk,hsuper.sectorsOk]; simp)]
  change Routine.perform loadLatestCheckpoint
    {machine with memory := {machine.memory with formatVersion := version}}=_
  rw [perform_loadLatestCheckpoint]
  rfl

/-- The tree of the legacy metadata region (`load_tree_at`). -/
def legacyTree (disk : Disk) : Except String FsNode :=
  let length := (disk superblockLba).number 20 4
  if length=0 then .ok emptyRoot
  else
    let blob := storedBytes disk legacyMetadataLba length
    if blob.length<4 ∨ blob.take 4≠treeMagic then
      .error "corrupt TuwaiqFS metadata: bad TREE magic"
    else deserializeTree (blob.drop 4)

/-- Loading the legacy metadata region is a function of the disk. -/
theorem perform_loadTreeAt {machine : FsMachine}
    (hlength : (machine.disk superblockLba).number 20 4≤legacyMetadataSectors*512) :
    Routine.perform (loadTreeAt legacyMetadataLba ((machine.disk superblockLba).number 20 4))
      machine=(legacyTree machine.disk,machine) := by
  have hfit : (machine.disk superblockLba).number 20 4 ≤ maxMetadataBytes :=
    le_trans hlength (by decide)
  rw [loadTreeAt,legacyTree]
  dsimp only
  split
  · rfl
  · rw [Routine.perform_bind_ok (perform_readMetadataAt hfit machine)]
    split
    · rfl
    · rfl

/-- The memory after mounting a legacy volume. -/
def legacyMemory (memory : KernelMemory) : KernelMemory :=
  {memory with formatVersion := legacyVersion,activeSlot := 0,generation := 0}

/-- Mounting a legacy volume returns its metadata tree. -/
theorem perform_mount_v2 {machine : FsMachine}
    (hsuper : V2Superblock (machine.disk superblockLba)) :
    Routine.perform mount machine=
      (legacyTree machine.disk,{machine with memory := legacyMemory machine.memory}) := by
  have hversion : ¬(machine.disk superblockLba).number 8 4=version := by
    rw [hsuper.versionOk]
    decide
  rw [mount,Routine.perform_bind_ok (Routine.perform_readBlock superblockLba machine),
    if_neg (not_not.mpr hsuper.magicOk)]
  dsimp only
  rw [if_neg hversion,if_neg (by rw [hsuper.versionOk,hsuper.lbaOk,hsuper.sectorsOk]; simp),
    if_neg (not_lt.mpr hsuper.lengthOk)]
  exact @perform_loadTreeAt {machine with memory := legacyMemory machine.memory} hsuper.lengthOk

/-- The legacy tree is determined by the superblock and its own region. -/
theorem legacyTree_congr (hsuper : V2Superblock (disk superblockLba))
    (hsame : ∀ address,address<slotALba → changed address=disk address) :
    legacyTree changed=legacyTree disk := by
  have hblock : changed superblockLba=disk superblockLba := hsame superblockLba (by decide)
  have hstored : storedBytes changed legacyMetadataLba ((disk superblockLba).number 20 4)=
      storedBytes disk legacyMetadataLba ((disk superblockLba).number 20 4) := by
    have hlength := hsuper.lengthOk
    rw [legacyMetadataSectors] at hlength
    rw [storedBytes,storedBytes]
    congr 1
    apply List.flatMap_congr
    intro index hindex
    have hcount := List.mem_range.mp hindex
    rw [hsame (legacyMetadataLba+index) (by rw [legacyMetadataLba,slotALba]; omega)]
  rw [legacyTree,legacyTree,hblock]
  dsimp only
  rw [hstored]

/-! ## Fields of written sectors -/

theorem field_put_same (sector : Sector) {offset count : ℕ}
    (hfit : offset+patch.length≤512) (hcount : count=patch.length) :
    (sector.put offset patch hfit).field offset count=patch :=
  slice_splice_same (by rw [sector.length]; omega) hcount

theorem field_put_other (sector : Sector) {offset start count : ℕ} (hfit : offset+patch.length≤512)
    (hapart : start+count≤offset ∨ offset+patch.length ≤ start) :
    (sector.put offset patch hfit).field start count=sector.field start count := by
  have hoffset : offset ≤ sector.bytes.length := by rw [sector.length]; omega
  rcases hapart with hbefore|hafter
  · exact slice_splice_before hbefore hoffset
  · exact slice_splice_after hafter hoffset

theorem headerSector_magic (generation : ℕ) (blob : List UInt8) (committed : Bool) :
    (headerSector generation blob committed).field 0 8=slotMagic := by
  cases committed <;> simp only [headerSector,Bool.false_eq_true,if_false,if_true]
  · rw [field_put_other,field_put_other,field_put_other,field_put_same] <;> simp [slotMagic]
  · rw [field_put_other,field_put_other,field_put_other,field_put_other,field_put_same] <;>
      simp [slotMagic]

theorem headerSector_generation (hgeneration : generation<2^64) (blob : List UInt8)
    (committed : Bool) : (headerSector generation blob committed).number 8 8=generation := by
  have hfield : (headerSector generation blob committed).field 8 8=leBytes 8 generation := by
    cases committed <;> simp only [headerSector,Bool.false_eq_true,if_false,if_true]
    · rw [field_put_other,field_put_other,field_put_same] <;> simp
    · rw [field_put_other,field_put_other,field_put_other,field_put_same] <;> simp
  rw [Sector.number,hfield]
  exact leValue_leBytes (by norm_num at hgeneration ⊢; exact hgeneration)

theorem headerSector_length (generation : ℕ) (hlength : blob.length<2^32) (committed : Bool) :
    (headerSector generation blob committed).number 16 4=blob.length := by
  have hfield : (headerSector generation blob committed).field 16 4=leBytes 4 blob.length := by
    cases committed <;> simp only [headerSector,Bool.false_eq_true,if_false,if_true]
    · rw [field_put_other,field_put_same] <;> simp
    · rw [field_put_other,field_put_other,field_put_same] <;> simp
  rw [Sector.number,hfield]
  exact leValue_leBytes (by norm_num at hlength ⊢; exact hlength)

theorem headerSector_crc (generation : ℕ) (blob : List UInt8) (committed : Bool) :
    (headerSector generation blob committed).number 20 4=(crc32 blob).toNat := by
  have hfield : (headerSector generation blob committed).field 20 4=
      leBytes 4 (crc32 blob).toNat := by
    cases committed <;> simp only [headerSector,Bool.false_eq_true,if_false,if_true]
    · rw [field_put_same]
      simp
    · rw [field_put_other,field_put_same] <;> simp
  rw [Sector.number,hfield]
  exact leValue_leBytes (by norm_num; exact (crc32 blob).toNat_lt)

/-- The commit marker is there exactly in a committed header. -/
theorem headerSector_commit (generation : ℕ) (blob : List UInt8) (committed : Bool) :
    (headerSector generation blob committed).number 24 4=slotCommitted ↔ committed=true := by
  cases committed <;> simp only [headerSector,Bool.false_eq_true,if_false,if_true,iff_false,
    iff_true]
  · rw [Sector.number,field_put_other,field_put_other,field_put_other,field_put_other] <;>
      first | decide | simp
  · rw [Sector.number,field_put_same]
    · decide
    · simp

/-- The superblock written by formatting and migration is version 3. -/
theorem v3_buildSuperblock : V3Superblock buildSuperblock := by
  constructor <;> decide

/-! ## Slots -/

/-- A slot is determined by its own sectors. -/
theorem slotAt_congr
    (hsame : ∀ address,lba≤address → address<lba+slotSectors → changed address=disk address) :
    slotAt changed lba=slotAt disk lba := by
  have hheader : changed lba=disk lba := hsame lba le_rfl (by rw [slotSectors]; omega)
  have hstored : ∀ length,length ≤ maxMetadataBytes →
      storedBytes changed (lba+1) length=storedBytes disk (lba+1) length := by
    intro length hlength
    rw [storedBytes,storedBytes]
    congr 1
    apply List.flatMap_congr
    intro index hindex
    have hcount := List.mem_range.mp hindex
    rw [maxMetadataBytes] at hlength
    rw [hsame (lba+1+index) (by omega) (by rw [slotSectors]; omega)]
  rw [slotAt,slotAt,hheader]
  dsimp only
  split
  · rfl
  · split
    · rfl
    · rename_i hbounds
      simp only [not_or] at hbounds
      rw [hstored _ (not_lt.mp hbounds.2.2)]

/-- A slot without commit marker is not valid. -/
theorem slotAt_uncommitted (hheader : (disk lba).number 24 4≠slotCommitted) :
    slotAt disk lba=none := by
  rw [slotAt]
  exact if_pos (Or.inr hheader)

/-- A valid slot has a positive generation and holds a decoded tree. -/
theorem slotAt_valid (hvalid : slotAt disk lba=some (generation,tree)) :
    0<generation ∧ generation<2^64 ∧ ∃ blob,decodePayload blob=some tree := by
  rw [slotAt] at hvalid
  dsimp only at hvalid
  split at hvalid
  · cases hvalid
  · split at hvalid
    · cases hvalid
    · rename_i hbounds
      simp only [not_or] at hbounds
      split at hvalid
      · cases hvalid
      · obtain ⟨found,hfound,heq⟩ := Option.map_eq_some_iff.mp hvalid
        cases heq
        have hdigits := leValue_lt ((disk lba).field 8 8)
        have hwidth : ((disk lba).field 8 8).length=8 :=
          length_slice (by rw [(disk lba).length]; decide)
        rw [hwidth] at hdigits
        exact ⟨Nat.pos_of_ne_zero hbounds.1,hdigits,_,hfound⟩

/-- A decoded payload is a well-formed tree within the reader's bound. -/
theorem decodePayload_treeOk (hdecode : decodePayload blob=some tree) :
    TreeInvariant.TreeOk tree ∧ TreeInvariant.descendants tree ≤ maxNodeCount := by
  rw [decodePayload] at hdecode
  split at hdecode
  · cases hdecode
  · rcases hread : deserializeTree (blob.drop 4) with reason|found
    · rw [hread] at hdecode
      cases hdecode
    · rw [hread] at hdecode
      cases hdecode
      exact deserializeTree_treeOk hread

/-- The sectors of a blob written in order hold the blob. -/
theorem storedBytes_ofBlob
    (hsectors : ∀ index,index<(blob.length+511)/512 → disk (lba+index)=Sector.ofBlob blob index) :
    storedBytes disk lba blob.length=blob := by
  have hflat : (List.range ((blob.length+511)/512)).flatMap
      (fun index => (disk (lba+index)).bytes)=
        (List.range ((blob.length+511)/512)).flatMap (chunk 512 blob) := by
    apply List.flatMap_congr
    intro index hindex
    rw [hsectors index (List.mem_range.mp hindex)]
    rfl
  rw [storedBytes,hflat]
  exact take_flatMap_chunk (by omega)

/-- A committed checkpoint reads as what its payload decodes to. -/
theorem slotAt_committed (hgeneration : 0<generation) (hbound : generation<2^64)
    (hblob : 0<blob.length) (hfit : blob.length ≤ maxMetadataBytes)
    (hheader : disk lba=headerSector generation blob true)
    (hsectors : ∀ index,index<(blob.length+511)/512 → disk (lba+1+index)=Sector.ofBlob blob index) :
    slotAt disk lba=(decodePayload blob).map fun tree => (generation,tree) := by
  have hlength : blob.length<2^32 := lt_of_le_of_lt hfit (by decide)
  rw [slotAt,hheader]
  dsimp only
  rw [headerSector_magic,headerSector_generation hbound,headerSector_length generation hlength,
    headerSector_crc,storedBytes_ofBlob hsectors,if_neg,if_neg,if_neg]
  · simp
  · simp only [not_or]
    exact ⟨by omega,by omega,not_lt.mpr hfit⟩
  · simp only [not_or,not_not,true_and]
    exact (headerSector_commit generation blob true).mpr rfl

/-- A serialized tree carries the magic, so only its records matter. -/
theorem decodePayload_serializeTree (hblob : serializeTree tree=.ok blob) :
    4≤blob.length ∧ decodePayload blob=(deserializeTree (blob.drop 4)).toOption := by
  obtain ⟨body,hbody,hmagic⟩ := bind_ok_iff.mp hblob
  cases hmagic
  constructor
  · rw [List.length_append]
    exact Nat.le_add_right 4 _
  · rw [decodePayload,if_neg]
    rw [not_or,not_lt,not_not,List.length_append]
    exact ⟨Nat.le_add_right 4 _,rfl⟩

end TuwaiqOS.SlotContents
