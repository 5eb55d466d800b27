import TuwaiqOS.SyncWrites

/-!
# Power loss while syncing, formatting and migrating

A mounted volume and the kernel's slot and generation counters stay in step:
the reader selects exactly the slot and generation the counters name. Every
prefix of a sync leaves a disk that mounts to the old tree, the complete
list one that mounts to the new tree, and this repeats through any history
of syncs, power cuts and remounts. Formatting writes its superblock before
its first checkpoint, and migration trusts whatever the first slot held.
-/

namespace TuwaiqOS.CrashConsistency

open ByteFields BlockProgram FsTree TreeCodec TwoSlotStore Checkpoint SlotContents SyncWrites

/-! ## Version 3 volumes -/

/-- The disk mounts as version 3 with the given tree. -/
def HoldsV3 (disk : Disk) (tree : FsNode) : Prop :=
  V3Superblock (disk superblockLba) ∧
    ∃ slot generation,pick (slotValue disk)=some (slot,generation,tree)

/-- A running kernel whose counters name the selected checkpoint. -/
structure Mounted (machine : FsMachine) (tree : FsNode) : Prop where
  /-- The superblock is version 3. -/
  superblock : V3Superblock (machine.disk superblockLba)
  /-- The slot and generation in memory are in step with the disk. -/
  current : InStep (slotValue machine.disk) machine.memory.activeSlot machine.memory.generation
    tree
  /-- The format version in memory is current. -/
  versionOk : machine.memory.formatVersion=version
  /-- No disk error is pending. -/
  healthy : machine.fates=[]

variable {disk : Disk} {tree next : FsNode} {machine : FsMachine} {blob : List UInt8} {count : ℕ}

/-- A disk that holds a tree mounts to it. -/
theorem mount_of_holdsV3 (hholds : HoldsV3 disk tree) :
    ∃ machine,Routine.perform mount (boot disk)=(.ok tree,machine) ∧ Mounted machine tree := by
  obtain ⟨hsuper,slot,generation,hpick⟩ := hholds
  have hmount := @perform_mount_v3 (boot disk) hsuper
  rw [show (boot disk).disk=disk from rfl,hpick] at hmount
  exact ⟨_,hmount,hsuper,.of_pick hpick,rfl,rfl⟩

/-- Whatever version 3 mounts to, the disk holds. -/
theorem holdsV3_of_mount (hsuper : V3Superblock (disk superblockLba))
    (hmount : Routine.perform mount (boot disk)=(.ok tree,machine)) : HoldsV3 disk tree := by
  have hresult := @perform_mount_v3 (boot disk) hsuper
  rw [show (boot disk).disk=disk from rfl,hmount] at hresult
  rcases hpick : pick (slotValue disk) with _|⟨slot,generation,found⟩
  · rw [hpick] at hresult
    cases hresult
  · rw [hpick] at hresult
    cases hresult
    exact ⟨hsuper,slot,generation,hpick⟩

theorem Mounted.holds (hmounted : Mounted machine tree) :
    HoldsV3 machine.disk tree := ⟨hmounted.superblock,hmounted.current.selected⟩

/-- A mounted volume writes a checkpoint and no superblock. -/
theorem Mounted.syncWrites_eq (hmounted : Mounted machine tree) (blob : List UInt8) :
    syncWrites machine.memory blob=
      checkpointWrites (other machine.memory.activeSlot) (machine.memory.generation+1) blob := by
  rw [syncWrites,if_pos hmounted.versionOk,List.append_nil]

/-- Before the last write of a sync the counters stay in step with the disk
and the old tree. -/
theorem Mounted.prefix_current (hmounted : Mounted machine tree)
    (hfit : blob.length ≤ maxMetadataBytes) (hcount : count<(syncWrites machine.memory blob).length) :
    V3Superblock (applyWrites ((syncWrites machine.memory blob).take count) machine.disk
        superblockLba) ∧
      InStep (slotValue (applyWrites ((syncWrites machine.memory blob).take count) machine.disk))
        machine.memory.activeSlot machine.memory.generation tree := by
  rw [hmounted.syncWrites_eq] at hcount ⊢
  rcases Nat.eq_zero_or_pos count with rfl|hstarted
  · exact ⟨hmounted.superblock,hmounted.current⟩
  · have hkept := @prefix_other _ (machine.memory.generation+1) _
      (other_lt machine.memory.activeSlot) hfit machine.disk count
    rw [other_other hmounted.current.inRange] at hkept
    refine ⟨?_,hmounted.current.invalidated hkept
      (prefix_uncommitted hfit machine.disk hstarted hcount)⟩
    rw [prefix_superblock hfit]
    exact hmounted.superblock

/-- After a complete sync the active slot is as it was, and the other one
holds what the payload decodes to. -/
theorem Mounted.synced_slots (hmounted : Mounted machine tree) (hblob : 0<blob.length)
    (hfit : blob.length ≤ maxMetadataBytes) (hnext : machine.memory.generation+1<2^64) :
    V3Superblock ((synced machine blob).disk superblockLba) ∧
      slotValue (synced machine blob).disk machine.memory.activeSlot=
        slotValue machine.disk machine.memory.activeSlot ∧
      slotValue (synced machine blob).disk (other machine.memory.activeSlot)=
        (decodePayload blob).map fun next => (machine.memory.generation+1,next) := by
  have hactive := hmounted.current.inRange
  have hdisk : (synced machine blob).disk=applyWrites ((checkpointWrites
      (other machine.memory.activeSlot) (machine.memory.generation+1) blob).take
        (checkpointWrites (other machine.memory.activeSlot)
          (machine.memory.generation+1) blob).length) machine.disk := by
    rw [List.take_length,← hmounted.syncWrites_eq]
    rfl
  have hkept := @prefix_other _ (machine.memory.generation+1) _
    (other_lt machine.memory.activeSlot) hfit machine.disk (checkpointWrites
      (other machine.memory.activeSlot) (machine.memory.generation+1) blob).length
  rw [other_other hactive] at hkept
  rw [hdisk]
  refine ⟨?_,hkept,?_⟩
  · rw [prefix_superblock hfit]
    exact hmounted.superblock
  · rw [List.take_length]
    exact slotValue_checkpointWrites (Nat.succ_pos _) hnext hblob hfit machine.disk

/-- After the last write the new checkpoint is selected, provided that its
payload decodes. -/
theorem Mounted.synced_mounted (hmounted : Mounted machine tree) (hblob : 0<blob.length)
    (hfit : blob.length ≤ maxMetadataBytes) (hnext : machine.memory.generation+1<2^64)
    (hdecode : decodePayload blob=some next) : Mounted (synced machine blob) next := by
  obtain ⟨hsuper,hkept,hfresh⟩ := hmounted.synced_slots hblob hfit hnext
  rw [hdecode,Option.map_some] at hfresh
  exact ⟨hsuper,hmounted.current.committed hkept hfresh (Nat.lt_succ_self _),rfl,
    hmounted.healthy⟩

/-- After a complete sync whose payload does not decode, the old counters
are still in step with the disk and the old tree. -/
theorem Mounted.synced_undecodable (hmounted : Mounted machine tree) (hblob : 0<blob.length)
    (hfit : blob.length ≤ maxMetadataBytes) (hnext : machine.memory.generation+1<2^64)
    (hdecode : decodePayload blob=none) : V3Superblock ((synced machine blob).disk superblockLba) ∧
      InStep (slotValue (synced machine blob).disk) machine.memory.activeSlot
        machine.memory.generation tree := by
  obtain ⟨hsuper,hkept,hfresh⟩ := hmounted.synced_slots hblob hfit hnext
  rw [hdecode,Option.map_none] at hfresh
  exact ⟨hsuper,hmounted.current.invalidated hkept hfresh⟩

/-- The blob of a tree that round-trips. -/
theorem RoundTrips.decode (hround : RoundTrips tree) (hblob : serializeTree tree=.ok blob) :
    0<blob.length ∧ decodePayload blob=some tree := by
  obtain ⟨other,hother,hread⟩ := hround
  rw [hblob] at hother
  cases hother
  obtain ⟨hlength,hdecode⟩ := decodePayload_serializeTree hblob
  rw [hread] at hdecode
  exact ⟨by omega,hdecode⟩

/-! ## First-time formatting -/

/-- A region that `mount` takes for unformatted. -/
structure Blank (disk : Disk) : Prop where
  /-- The superblock is all zeros. -/
  superblock : disk superblockLba=Sector.zero
  /-- So is the header sector of the first slot. -/
  slotA : disk slotALba=Sector.zero
  /-- And that of the second. -/
  slotB : disk slotBLba=Sector.zero

/-- All sector writes of `format_region`. -/
def formatWrites : List (ℕ×Sector) :=
  (superblockLba,buildSuperblock)::checkpointWrites 0 1 treeMagic

/-- The memory after formatting. -/
def formattedMemory (memory : KernelMemory) : KernelMemory :=
  {memory with formatVersion := version,activeSlot := 0,generation := 1}

/-- Mounting a blank region formats it. -/
theorem perform_mount_blank {machine : FsMachine} (hblank : Blank machine.disk)
    (hfates : machine.fates=[]) :
    Routine.perform mount machine=
      (.ok emptyRoot,{Routine.stored formatWrites machine with
        memory := formattedMemory machine.memory}) := by
  have hmagic : Sector.zero.field 0 8≠magic := by decide
  have hzero : Sector.zero.bytes.any (·≠0)=false := by
    rw [List.any_eq_false]
    intro byte hbyte
    simp [List.eq_of_mem_replicate hbyte]
  have hformat : Routine.perform formatRegion machine=
      (.ok (),{Routine.stored formatWrites machine with
        memory := formattedMemory machine.memory}) := by
    rw [formatRegion,Routine.perform_writeBlock_bind hfates]
    change Routine.perform (syncTree emptyRoot) {Routine.stored _ machine with
      memory := {machine.memory with formatVersion := version,activeSlot := 1,generation := 0}}=_
    rw [perform_syncTree_ok (by exact hfates)
      (planned_ok.mpr ⟨rfl,by decide,by norm_num,rfl,rfl⟩)]
    simp only [synced,syncWrites,Routine.stored,if_true,List.append_nil,List.append_assoc,
      formatWrites]
    rfl
  rw [mount,Routine.perform_bind_ok (Routine.perform_readBlock superblockLba machine),
    hblank.superblock,if_pos hmagic,
    Routine.perform_bind_ok (Routine.perform_readBlock slotALba machine),
    Routine.perform_bind_ok (Routine.perform_readBlock slotBLba machine),
    hblank.slotA,hblank.slotB,hzero,Bool.or_self,Bool.or_self,if_neg Bool.false_ne_true,
    Routine.perform_bind_ok hformat]
  rfl

/-- The disk after a power loss during formatting. -/
theorem crashDisk_blank (hblank : Blank disk) (count : ℕ) :
    Routine.crashDisk mount (boot disk) count=applyWrites (formatWrites.take count) disk := by
  have hmount := @perform_mount_blank {boot disk with written := []} hblank rfl
  rw [Routine.crashDisk,hmount]
  rfl

/-- A slot whose header sector is zero is not valid. -/
theorem slotAt_zero {lba : ℕ} (hzero : disk lba=Sector.zero) : slotAt disk lba=none := by
  apply slotAt_uncommitted
  rw [hzero]
  decide

/-- The disk with a new superblock and the first `count` writes of a first
checkpoint. -/
def firstWrites (disk : Disk) (blob : List UInt8) (count : ℕ) : Disk :=
  applyWrites ((checkpointWrites 0 1 blob).take count)
    (Function.update disk superblockLba buildSuperblock)

/-- Such a disk is version 3 and has no second checkpoint. -/
theorem firstWrites_spec {disk : Disk} (hslotB : disk slotBLba=Sector.zero) {blob : List UInt8}
    (hfit : blob.length ≤ maxMetadataBytes) (count : ℕ) :
    V3Superblock (firstWrites disk blob count superblockLba) ∧
      slotValue (firstWrites disk blob count) 1=none := by
  have hempty : slotValue (Function.update disk superblockLba buildSuperblock) 1=none := by
    apply slotAt_zero
    rw [Function.update_of_ne (by decide)]
    exact hslotB
  constructor
  · rw [firstWrites,prefix_superblock hfit,Function.update_self]
    exact v3_buildSuperblock
  · exact (@prefix_other 0 1 blob (by decide) hfit _ count).trans hempty

/-- A volume whose only checkpoint is complete: generation one in the first
slot. -/
def firstCheckpoint (disk : Disk) (blob : List UInt8) : Disk :=
  applyWrites (checkpointWrites 0 1 blob) (Function.update disk superblockLba buildSuperblock)

/-- A reader selects that checkpoint. -/
theorem firstCheckpoint_current {disk : Disk} (hslotB : disk slotBLba=Sector.zero)
    {blob : List UInt8} {tree : FsNode} (hblob : 0<blob.length)
    (hfit : blob.length ≤ maxMetadataBytes) (hdecode : decodePayload blob=some tree) :
    V3Superblock (firstCheckpoint disk blob superblockLba) ∧
      pick (slotValue (firstCheckpoint disk blob))=some (0,1,tree) := by
  have hdisk : firstWrites disk blob (checkpointWrites 0 1 blob).length=
      firstCheckpoint disk blob := by
    rw [firstWrites,List.take_length]
    rfl
  have hslot := @slotValue_checkpointWrites 0 1 blob (by decide) (by norm_num) hblob hfit
    (Function.update disk superblockLba buildSuperblock)
  rw [hdecode,Option.map_some] at hslot
  obtain ⟨hsuper,hother⟩ := firstWrites_spec hslotB hfit (checkpointWrites 0 1 blob).length
  rw [hdisk] at hsuper hother
  exact ⟨hsuper,pick_of_other_none (by decide) hslot hother⟩

/-- Formatting leaves a first checkpoint of the empty root. -/
theorem formatted_current (hslotB : disk slotBLba=Sector.zero) :
    V3Superblock (applyWrites formatWrites disk superblockLba) ∧
      pick (slotValue (applyWrites formatWrites disk))=some (0,1,emptyRoot) :=
  @firstCheckpoint_current disk hslotB treeMagic emptyRoot (by decide) (by decide) rfl

/-- So it holds the empty root. -/
theorem holdsV3_formatted (hslotB : disk slotBLba=Sector.zero) :
    HoldsV3 (applyWrites formatWrites disk) emptyRoot :=
  ⟨(formatted_current hslotB).1,0,1,(formatted_current hslotB).2⟩

/-- Formatting that is cut after its superblock and before its committed
header leaves a disk that no later mount accepts. -/
theorem perform_mount_half_formatted (hblank : Blank disk) (hstarted : 0<count)
    (hunfinished : count<4) :
    (Routine.perform mount (boot (Routine.crashDisk mount (boot disk) count))).1=
      .error "no valid committed TuwaiqFS checkpoint" := by
  obtain ⟨count,rfl⟩ := Nat.exists_eq_succ_of_ne_zero hstarted.ne'
  have hdisk : Routine.crashDisk mount (boot disk) count.succ=firstWrites disk treeMagic count :=
    crashDisk_blank hblank count.succ
  obtain ⟨hsuper,hsecond⟩ := @firstWrites_spec disk hblank.slotB treeMagic (by decide) count
  have hfirst : slotValue (firstWrites disk treeMagic count) 0=none := by
    rcases Nat.eq_zero_or_pos count with rfl|hpos
    · apply slotAt_zero
      rw [firstWrites,List.take_zero,applyWrites_nil,Function.update_of_ne (by decide)]
      exact hblank.slotA
    · refine prefix_uncommitted (by decide) _ hpos ?_
      rw [length_checkpointWrites]
      have hcount : (treeMagic.length+511)/512+2=3 := by decide
      omega
  have hnone : pick (slotValue (boot (firstWrites disk treeMagic count)).disk)=none := by
    simp only [pick,boot,hfirst,hsecond]
  rw [hdisk,perform_mount_v3 (by exact hsuper),hnone]

/-- After a power loss during first-time formatting the next mount returns
the empty root exactly when no write or all four writes were made. -/
theorem format_crash_iff {disk : Disk} (hblank : Blank disk) (count : ℕ) :
    (Routine.perform mount (boot (Routine.crashDisk mount (boot disk) count))).1=.ok emptyRoot ↔
      count=0 ∨ 4 ≤ count := by
  constructor
  · intro hmount
    by_contra hpart
    rw [perform_mount_half_formatted hblank (by omega) (by omega)] at hmount
    cases hmount
  · rintro (rfl|hall)
    · rw [crashDisk_blank hblank,List.take_zero,applyWrites_nil,
        perform_mount_blank (by exact hblank) rfl]
    · have hlength : formatWrites.length=4 := by
        rw [formatWrites,List.length_cons,length_checkpointWrites]
        decide
      obtain ⟨machine,hmount,-⟩ := mount_of_holdsV3 (holdsV3_formatted hblank.slotB)
      rw [crashDisk_blank hblank,List.take_of_length_le (by omega),hmount]

/-- A disk of zeros. -/
def zeroDisk : Disk := fun _ => Sector.zero

theorem blank_zeroDisk : Blank zeroDisk := ⟨rfl,rfl,rfl⟩

/-- Formatting that is not cut survives the next mount. -/
theorem format_crash_iff_zeroDisk :
    (Routine.perform mount (boot (Routine.crashDisk mount (boot zeroDisk) 4))).1=.ok emptyRoot :=
  (format_crash_iff blank_zeroDisk 4).mpr (Or.inr le_rfl)

/-- Power lost right after the superblock of a zeroed disk: the volume no
longer mounts. -/
theorem format_cut_after_superblock :
    (Routine.perform mount (boot (Routine.crashDisk mount (boot zeroDisk) 1))).1=
      .error "no valid committed TuwaiqFS checkpoint" :=
  perform_mount_half_formatted blank_zeroDisk (by decide) (by decide)

/-! ## Histories of syncs, power cuts and remounts -/

/-- The kernel is running after some history on a disk, and the given tree
is that of the last sync that returned `Ok` or of the last mount. -/
inductive Reaches (disk : Disk) : FsMachine → FsNode → Prop where
  /-- The first mount. -/
  | mounted {machine : FsMachine} {tree : FsNode}
      (hmount : Routine.perform mount (boot disk)=(.ok tree,machine)) : Reaches disk machine tree
  /-- A sync that returned `Ok`. -/
  | synced {machine later : FsMachine} {tree next : FsNode} (hreach : Reaches disk machine tree)
      (hround : RoundTrips next)
      (hsync : Routine.perform (syncTree next) machine=(.ok (),later)) : Reaches disk later next
  /-- A sync that returned an error. -/
  | failed {machine later : FsMachine} {tree next : FsNode} {reason : String}
      (hreach : Reaches disk machine tree) (hround : RoundTrips next)
      (hsync : Routine.perform (syncTree next) machine=(.error reason,later)) :
      Reaches disk later tree
  /-- Power was lost after `count` writes of a sync, and the disk was
  mounted again. -/
  | remounted {machine later : FsMachine} {tree next found : FsNode} {count : ℕ}
      (hreach : Reaches disk machine tree) (hround : RoundTrips next)
      (hmount : Routine.perform mount (boot (Routine.crashDisk (syncTree next) machine count))=
        (.ok found,later)) : Reaches disk later found

/-- The last write before the power loss was the committed header of the
tree in flight. -/
def CommittedLast (machine : FsMachine) (next : FsNode) (count : ℕ) : Prop :=
  ∃ blob,serializeTree next=.ok blob ∧
    ((Routine.perform (syncTree next) {machine with written := []}).2.written.take count).getLast?=
      some (slotStart (other machine.memory.activeSlot),
        headerSector (machine.memory.generation+1) blob true)

/-- A power loss during a sync leaves the old tree, or the new one when the
committed header was the last write. -/
theorem Mounted.crash_holds (hmounted : Mounted machine tree) (hround : RoundTrips next) (count : ℕ) :
    ∃ found,HoldsV3 (Routine.crashDisk (syncTree next) machine count) found ∧
      (CommittedLast machine next count → found=next) ∧
      (¬CommittedLast machine next count → found=tree) := by
  have hwritten := syncTree_written hmounted.healthy next
  rcases hplan : planned next machine.memory with reason|⟨blob,generation,target⟩
  · -- Nothing is written, so no header is last and the disk is as before.
    rw [hplan] at hwritten
    refine ⟨tree,?_,?_,fun _ => rfl⟩
    · rw [Routine.crashDisk,hwritten,List.take_nil]
      exact hmounted.holds
    · rintro ⟨blob,-,hlast⟩
      rw [hwritten,List.take_nil] at hlast
      cases hlast
  · obtain ⟨hblob,hfit,hnext,-,-⟩ := planned_ok.mp hplan
    obtain ⟨hlength,hdecode⟩ := RoundTrips.decode hround hblob
    rw [hplan] at hwritten
    have hiff : CommittedLast machine next count ↔
        (syncWrites machine.memory blob).length ≤ count := by
      rw [hmounted.syncWrites_eq,← getLast_prefix_iff hfit,CommittedLast,hwritten,
        ← hmounted.syncWrites_eq]
      constructor
      · rintro ⟨found,hfound,hlast⟩
        rw [hblob] at hfound
        cases hfound
        exact hlast
      · exact fun hlast => ⟨blob,hblob,hlast⟩
    rw [hiff,Routine.crashDisk,hwritten]
    by_cases hall : (syncWrites machine.memory blob).length ≤ count
    · have hsynced := (hmounted.synced_mounted hlength hfit hnext hdecode).holds
      refine ⟨next,?_,fun _ => rfl,fun hpart => absurd hall hpart⟩
      dsimp only
      rw [List.take_of_length_le hall]
      exact hsynced
    · obtain ⟨hsuper,hstep⟩ := hmounted.prefix_current hfit (not_le.mp hall)
      exact ⟨tree,⟨hsuper,hstep.selected⟩,fun hyes => absurd hyes hall,fun _ => rfl⟩

/-- A sync keeps the counters in step with the disk, whatever it returns. -/
theorem Mounted.sync {later : FsMachine} {outcome : Except String Unit}
    (hmounted : Mounted machine tree) (hround : RoundTrips next)
    (hsync : Routine.perform (syncTree next) machine=(outcome,later)) :
    Mounted later (if outcome.isOk then next else tree) := by
  rcases hplan : planned next machine.memory with reason|⟨blob,generation,target⟩
  · rw [perform_syncTree_error hplan] at hsync
    cases hsync
    exact hmounted
  · obtain ⟨hblob,hfit,hnext,-,-⟩ := planned_ok.mp hplan
    obtain ⟨hlength,hdecode⟩ := RoundTrips.decode hround hblob
    rw [perform_syncTree_ok hmounted.healthy hplan] at hsync
    cases hsync
    exact hmounted.synced_mounted hlength hfit hnext hdecode

/-- Every history on a version 3 volume keeps the counters in step with the
disk. -/
theorem Reaches.mounted_of_v3 (hsuper : V3Superblock (disk superblockLba))
    (hreach : Reaches disk machine tree) : Mounted machine tree := by
  -- The invariant after a mount, from what the disk held before it.
  have hstep : ∀ {contents : Disk} {wanted found : FsNode} {later : FsMachine},
      HoldsV3 contents wanted → Routine.perform mount (boot contents)=(.ok found,later) →
      Mounted later found := by
    intro contents wanted found later hholds hmount
    obtain ⟨machine,hresult,hmounted⟩ := mount_of_holdsV3 hholds
    rw [hmount] at hresult
    cases hresult
    exact hmounted
  induction hreach with
  | mounted hmount => exact hstep (holdsV3_of_mount hsuper hmount) hmount
  | synced _ hround hsync ih => exact ih.sync hround hsync
  | failed _ hround hsync ih => exact ih.sync hround hsync
  | remounted _ hround hmount ih =>
    obtain ⟨found,hholds,-⟩ := ih.crash_holds hround _
    exact hstep hholds hmount

/-- Crash consistency of version 3: from any disk with a version 3
superblock and a valid committed checkpoint, after any history of syncs,
power cuts and remounts, a power loss after any number of writes of the next
sync leaves a disk that mounts. It mounts to the tree in flight when that
tree's committed header was the last write, and to the last acknowledged
tree otherwise. -/
theorem crash_consistency {disk : Disk} (hsuper : V3Superblock (disk superblockLba))
    (hvalid : ∃ slot found later,
      Routine.perform (loadCheckpoint slot) (boot disk)=(.ok (some found),later)) :
    (∃ tree machine,Routine.perform mount (boot disk)=(.ok tree,machine)) ∧
      ∀ machine tree,Reaches disk machine tree → ∀ next,RoundTrips next → ∀ count,
        ∃ found later,
          Routine.perform mount (boot (Routine.crashDisk (syncTree next) machine count))=
            (.ok found,later) ∧
          (CommittedLast machine next count → found=next) ∧
          (¬CommittedLast machine next count → found=tree) := by
  constructor
  · obtain ⟨slot,value,later,hload⟩ := hvalid
    have hslot : slot<2 := by
      by_contra hlarge
      obtain ⟨slot,rfl⟩ : ∃ smaller,slot=smaller+2 := ⟨slot-2,by omega⟩
      cases hload
    rw [perform_loadCheckpoint hslot] at hload
    have hfound : slotValue disk slot=some value := Except.ok.inj (congrArg Prod.fst hload)
    have hsome : (slotValue disk slot).isSome := by
      rw [hfound]
      rfl
    obtain ⟨active,generation,tree,hpick⟩ := pick_isSome hslot hsome
    obtain ⟨machine,hmount,-⟩ := mount_of_holdsV3 ⟨hsuper,active,generation,hpick⟩
    exact ⟨tree,machine,hmount⟩
  · intro machine tree hreach next hround count
    obtain ⟨found,hholds,hcommitted,huncommitted⟩ :=
      (hreach.mounted_of_v3 hsuper).crash_holds hround count
    obtain ⟨later,hmount,-⟩ := mount_of_holdsV3 hholds
    exact ⟨found,later,hmount,hcommitted,huncommitted⟩

/-- The history of a freshly formatted volume whose next sync is cut after
two writes. -/
theorem crash_consistency_formatted :
    ∃ machine found later,Reaches (applyWrites formatWrites zeroDisk) machine emptyRoot ∧
      Routine.perform mount (boot (Routine.crashDisk (syncTree emptyRoot) machine 2))=
        (.ok found,later) := by
  have hholds : HoldsV3 (applyWrites formatWrites zeroDisk) emptyRoot := holdsV3_formatted rfl
  obtain ⟨machine,hmount,-⟩ := mount_of_holdsV3 hholds
  obtain ⟨slot,generation,hpick⟩ := hholds.2
  obtain ⟨hslot,hvalue⟩ := pick_valid hpick
  have hload := perform_loadCheckpoint hslot (boot (applyWrites formatWrites zeroDisk))
  rw [show slotValue (boot (applyWrites formatWrites zeroDisk)).disk slot=_ from hvalue] at hload
  obtain ⟨found,later,hresult,-⟩ := (crash_consistency hholds.1 ⟨slot,_,_,hload⟩).2 machine
    emptyRoot (.mounted hmount) emptyRoot ⟨treeMagic,rfl,rfl⟩ 2
  exact ⟨machine,found,later,.mounted hmount,hresult⟩

/-! ## Migration of legacy volumes -/

/-- The running kernel after a legacy volume was mounted. -/
def mountedLegacy (disk : Disk) : FsMachine := {boot disk with memory := legacyMemory .boot}

/-- The first sync of a legacy volume writes the second slot and then the
superblock. -/
theorem syncWrites_legacy (disk : Disk) (blob : List UInt8) :
    syncWrites (mountedLegacy disk).memory blob=
      checkpointWrites 1 1 blob++[(superblockLba,buildSuperblock)] := rfl

/-- Until the superblock is written, a legacy volume stays what it was. -/
theorem legacy_cut (hsuper : V2Superblock (disk superblockLba))
    (hfit : blob.length ≤ maxMetadataBytes)
    (hcount : count<(syncWrites (mountedLegacy disk).memory blob).length) :
    (Routine.perform mount (boot (applyWrites
      ((syncWrites (mountedLegacy disk).memory blob).take count) disk))).1=legacyTree disk := by
  rw [syncWrites_legacy] at hcount ⊢
  rw [List.length_append,List.length_singleton] at hcount
  rw [List.take_append_of_le_length (by omega)]
  have hbelow : ∀ address,address<slotALba →
      applyWrites ((checkpointWrites 1 1 blob).take count) disk address=disk address := by
    intro address haddress
    refine prefix_outside hfit (Or.inl (lt_trans haddress ?_)) disk count
    decide
  have hblock : V2Superblock (applyWrites ((checkpointWrites 1 1 blob).take count) disk
      superblockLba) := by
    rw [hbelow superblockLba (by decide)]
    exact hsuper
  rw [perform_mount_v2 (by exact hblock)]
  exact legacyTree_congr hsuper hbelow

/-- The first sync leaves a version 3 superblock, the first slot as it was
and its own checkpoint of generation one in the second. -/
theorem legacy_synced_slots {disk : Disk} {blob : List UInt8} (hblob : 0<blob.length)
    (hfit : blob.length ≤ maxMetadataBytes) :
    V3Superblock ((synced (mountedLegacy disk) blob).disk superblockLba) ∧
      slotValue (synced (mountedLegacy disk) blob).disk 0=slotValue disk 0 ∧
      slotValue (synced (mountedLegacy disk) blob).disk 1=
        (decodePayload blob).map fun tree => (1,tree) := by
  have hdisk : (synced (mountedLegacy disk) blob).disk=
      Function.update (applyWrites (checkpointWrites 1 1 blob) disk) superblockLba
        buildSuperblock := by
    change applyWrites (checkpointWrites 1 1 blob++[(superblockLba,buildSuperblock)]) disk=_
    rw [applyWrites_append]
    rfl
  have houtside : ∀ slot,slotValue (synced (mountedLegacy disk) blob).disk slot=
      slotValue (applyWrites (checkpointWrites 1 1 blob) disk) slot := by
    intro slot
    apply slotAt_congr
    intro address hlow _
    have hstart := slotStart_cases slot
    rw [hdisk,Function.update_of_ne (by rw [superblockLba]; omega)]
  have hfirst := @prefix_other 1 1 blob (by decide) hfit disk (checkpointWrites 1 1 blob).length
  rw [List.take_length] at hfirst
  refine ⟨?_,(houtside 0).trans hfirst,(houtside 1).trans
    (slotValue_checkpointWrites (by decide) (by norm_num) hblob hfit disk)⟩
  rw [hdisk,Function.update_self]
  exact v3_buildSuperblock

/-- After the first sync a reader selects a valid first slot before the new
checkpoint of generation one. -/
theorem legacy_synced {disk : Disk} {blob : List UInt8} (hblob : 0<blob.length)
    (hfit : blob.length ≤ maxMetadataBytes) {next : FsNode} (hdecode : decodePayload blob=some next) :
    (Routine.perform mount (boot (synced (mountedLegacy disk) blob).disk)).1=
      .ok (((slotValue disk 0).map Prod.snd).getD next) := by
  obtain ⟨hsuper,hzero,hone⟩ := @legacy_synced_slots disk blob hblob hfit
  rw [hdecode,Option.map_some] at hone
  rw [perform_mount_v3 (by exact hsuper)]
  have hboot : (boot (synced (mountedLegacy disk) blob).disk).disk=
    (synced (mountedLegacy disk) blob).disk := rfl
  rcases hstale : slotValue disk 0 with _|⟨generation,stale⟩
  · have hpick : pick (slotValue (synced (mountedLegacy disk) blob).disk)=some (1,1,next) := by
      simp only [pick,hone,hzero,hstale]
    rw [hboot,hpick]
    rfl
  · -- A valid generation is at least one, so the first slot wins the comparison.
    have hpos := (slotAt_valid (show slotAt disk (slotStart 0)=_ from hstale)).1
    have hpick : pick (slotValue (synced (mountedLegacy disk) blob).disk)=
        some (0,generation,stale) := by
      simp only [pick,hone,hzero,hstale]
      exact if_pos hpos
    rw [hboot,hpick]
    rfl

/-- The first sync of a mounted legacy volume is safe: after a power cut the
disk mounts to the old or the new tree, and after `Ok` to the new one. -/
def MigrationSafe (disk : Disk) (tree next : FsNode) : Prop :=
  let mounted := (Routine.perform mount (boot disk)).2
  (∀ count,∃ found later,
    Routine.perform mount (boot (Routine.crashDisk (syncTree next) mounted count))=
      (.ok found,later) ∧ (found=tree ∨ found=next)) ∧
  ∀ later,Routine.perform (syncTree next) mounted=(.ok (),later) →
    ∃ again,Routine.perform mount (boot later.disk)=(.ok next,again)

/-- With nothing valid in the first slot the migration is safe. -/
theorem migrationSafe_of_slotA_none (hsuper : V2Superblock (disk superblockLba))
    (htree : legacyTree disk=.ok tree) (hslot : slotValue disk 0=none) (hround : RoundTrips next) :
    MigrationSafe disk tree next := by
  have hmounted : (Routine.perform mount (boot disk)).2=mountedLegacy disk := by
    rw [perform_mount_v2 (by exact hsuper)]
    rfl
  have hwritten := @syncTree_written (mountedLegacy disk) rfl next
  rw [MigrationSafe,hmounted]
  rcases hplan : planned next (mountedLegacy disk).memory with reason|⟨blob,generation,target⟩
  · rw [hplan] at hwritten
    refine ⟨fun count => ⟨tree,_,Prod.ext ?_ rfl,Or.inl rfl⟩,fun later hsync => ?_⟩
    · rw [Routine.crashDisk,hwritten,List.take_nil,applyWrites_nil,
        perform_mount_v2 (by exact hsuper)]
      exact htree
    · rw [perform_syncTree_error hplan] at hsync
      cases hsync
  · obtain ⟨hblob,hfit,-,-,-⟩ := planned_ok.mp hplan
    obtain ⟨hlength,hdecode⟩ := RoundTrips.decode hround hblob
    have hdone := @legacy_synced disk blob hlength hfit next hdecode
    rw [hslot] at hdone
    rw [hplan] at hwritten
    refine ⟨fun count => ?_,fun later hsync => ?_⟩
    · rw [Routine.crashDisk,hwritten]
      by_cases hall : (syncWrites (mountedLegacy disk).memory blob).length ≤ count
      · refine ⟨next,_,Prod.ext ?_ rfl,Or.inr rfl⟩
        dsimp only
        rw [List.take_of_length_le hall]
        exact hdone
      · refine ⟨tree,_,Prod.ext ?_ rfl,Or.inl rfl⟩
        exact (legacy_cut hsuper hfit (not_le.mp hall)).trans htree
    · rw [perform_syncTree_ok rfl hplan] at hsync
      cases hsync
      exact ⟨_,Prod.ext hdone rfl⟩

/-- A directory holding one empty directory `a`. -/
def oneDir : FsNode := .dir [(['a'],.dir [])]

/-- Its payload. -/
def oneDirBlob : List UInt8 := [0x54,0x52,0x45,0x45,2,1,0x61]

theorem serializeTree_oneDir : serializeTree oneDir=.ok oneDirBlob := rfl

theorem roundTrips_oneDir : RoundTrips oneDir :=
  (roundTrips_iff ⟨⟨_,rfl⟩,by decide⟩).mpr (by decide)

/-- A first sync that fits succeeds, and then the next mount shows a valid
first slot instead of the synced tree. -/
theorem migration_shows_slotA (hsuper : V2Superblock (disk superblockLba)) {generation : ℕ}
    {stale : FsNode} (hslot : slotValue disk 0=some (generation,stale)) (hround : RoundTrips next)
    (hblob : serializeTree next=.ok blob) (hfit : blob.length ≤ maxMetadataBytes) :
    ∃ later,Routine.perform (syncTree next) (Routine.perform mount (boot disk)).2=(.ok (),later) ∧
      (Routine.perform mount (boot later.disk)).1=.ok stale := by
  have hmounted : (Routine.perform mount (boot disk)).2=mountedLegacy disk := by
    rw [perform_mount_v2 (by exact hsuper)]
    rfl
  obtain ⟨hlength,hdecode⟩ := RoundTrips.decode hround hblob
  have hplan : planned next (mountedLegacy disk).memory=.ok (blob,1,1) :=
    planned_ok.mpr ⟨hblob,hfit,show 0+1<2^64 by norm_num,rfl,rfl⟩
  refine ⟨_,by rw [hmounted]; exact perform_syncTree_ok rfl hplan,?_⟩
  rw [legacy_synced hlength hfit hdecode,hslot]
  rfl

/-- Migration of a legacy volume: mounting returns its tree, and the first
sync is safe for every tree that round-trips exactly when the first slot
holds no valid committed checkpoint. -/
theorem migration_safe_iff {disk : Disk} {tree : FsNode}
    (hsuper : V2Superblock (disk superblockLba))
    (htree : (Routine.perform (loadTreeAt legacyMetadataLba ((disk superblockLba).number 20 4))
      (boot disk)).1=.ok tree) :
    (Routine.perform mount (boot disk)).1=.ok tree ∧
      ((∀ next,RoundTrips next → MigrationSafe disk tree next) ↔
        (Routine.perform (loadCheckpoint 0) (boot disk)).1=.ok none) := by
  have hlegacy : legacyTree disk=.ok tree := by
    have hload := @perform_loadTreeAt (boot disk) hsuper.lengthOk
    rw [show (boot disk).disk=disk from rfl] at hload
    rwa [hload] at htree
  have hslot : (Routine.perform (loadCheckpoint 0) (boot disk)).1=.ok none ↔
      slotValue disk 0=none := by
    rw [perform_loadCheckpoint (by decide)]
    exact ⟨Except.ok.inj,congrArg Except.ok⟩
  refine ⟨by rw [perform_mount_v2 (by exact hsuper)]; exact hlegacy,?_⟩
  rw [hslot]
  constructor
  · intro hsafe
    by_contra hvalid
    obtain ⟨⟨generation,stale⟩,hstale⟩ := Option.ne_none_iff_exists'.mp hvalid
    -- The stale tree would have to equal each of two different synced trees.
    have hequal : ∀ next,RoundTrips next → ∀ blob,serializeTree next=.ok blob →
        blob.length ≤ maxMetadataBytes → stale=next := by
      intro next hround blob hblob hfit
      obtain ⟨later,hsync,hmount⟩ := migration_shows_slotA hsuper hstale hround hblob hfit
      obtain ⟨again,hagain⟩ := (hsafe next hround).2 later hsync
      rw [hagain] at hmount
      exact (Except.ok.inj hmount).symm
    have hempty := hequal emptyRoot ⟨treeMagic,rfl,rfl⟩ treeMagic rfl (by decide)
    have hone := hequal oneDir roundTrips_oneDir oneDirBlob rfl (by decide)
    rw [hempty] at hone
    cases hone
  · exact fun hnone next hround => migrationSafe_of_slotA_none hsuper hlegacy hnone hround

/-- The superblock of an empty legacy volume. -/
def emptyLegacySuperblock : Sector :=
  Sector.ofBlob (magic++leBytes 4 legacyVersion++leBytes 4 legacyMetadataLba++
    leBytes 4 legacyMetadataSectors) 0

theorem v2_emptyLegacySuperblock : V2Superblock emptyLegacySuperblock := by
  constructor <;> decide

/-- An empty legacy volume over a disk that may hold old checkpoints. -/
def legacyOver (disk : Disk) : Disk := Function.update disk superblockLba emptyLegacySuperblock

theorem loadTreeAt_legacyOver (disk : Disk) : (Routine.perform (loadTreeAt legacyMetadataLba
      ((legacyOver disk superblockLba).number 20 4)) (boot (legacyOver disk))).1=
        .ok emptyRoot := by
  have hlength : (legacyOver disk superblockLba).number 20 4=0 := by
    rw [legacyOver,Function.update_self]
    decide
  rw [hlength]
  rfl

/-- A legacy volume over a zeroed disk migrates safely. -/
theorem migration_safe_zeroDisk :
    MigrationSafe (legacyOver zeroDisk) emptyRoot oneDir := by
  have hsuper : V2Superblock (legacyOver zeroDisk superblockLba) := by
    rw [legacyOver,Function.update_self]
    exact v2_emptyLegacySuperblock
  have hslot : slotValue (legacyOver zeroDisk) 0=none :=
    slotAt_zero (Function.update_of_ne (by decide) _ _)
  refine (migration_safe_iff hsuper (loadTreeAt_legacyOver zeroDisk)).2.mpr ?_ oneDir
    roundTrips_oneDir
  rw [perform_loadCheckpoint (by decide)]
  exact congrArg Except.ok hslot

/-- A legacy volume over an old checkpoint of `oneDir` in the first slot. -/
def staleDisk : Disk := legacyOver (applyWrites (checkpointWrites 0 1 oneDirBlob) zeroDisk)

theorem v2_staleDisk : V2Superblock (staleDisk superblockLba) := by
  rw [staleDisk,legacyOver,Function.update_self]
  exact v2_emptyLegacySuperblock

theorem slotValue_staleDisk : slotValue staleDisk 0=some (1,oneDir) := by
  have hdecode := (RoundTrips.decode roundTrips_oneDir serializeTree_oneDir).2
  have hvalue := @slotValue_checkpointWrites 0 1 oneDirBlob (by decide) (by norm_num) (by decide)
    (by decide) zeroDisk
  rw [hdecode,Option.map_some] at hvalue
  rw [← hvalue]
  apply slotAt_congr
  intro address hlow _
  have hstart : slotStart 0=23490 := rfl
  exact Function.update_of_ne (by rw [superblockLba]; omega) _ _

theorem roundTrips_emptyRoot : RoundTrips emptyRoot := ⟨treeMagic,rfl,rfl⟩

theorem oneDir_ne_emptyRoot : oneDir≠emptyRoot := by
  intro heq
  cases heq

/-- On the legacy volume over an old checkpoint of `oneDir` the empty tree is
synced with `Ok`, and the next mount returns `oneDir`. -/
theorem migration_resurrects_slotA :
    V2Superblock (staleDisk superblockLba) ∧ RoundTrips emptyRoot ∧ ∃ later,
      Routine.perform (syncTree emptyRoot) (Routine.perform mount (boot staleDisk)).2=
        (.ok (),later) ∧
      (Routine.perform mount (boot later.disk)).1=.ok oneDir ∧ oneDir≠emptyRoot := by
  obtain ⟨later,hsync,hmount⟩ := migration_shows_slotA v2_staleDisk slotValue_staleDisk
    roundTrips_emptyRoot rfl (by decide)
  exact ⟨v2_staleDisk,roundTrips_emptyRoot,later,hsync,hmount,oneDir_ne_emptyRoot⟩

end TuwaiqOS.CrashConsistency
