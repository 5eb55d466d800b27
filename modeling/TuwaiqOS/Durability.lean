import TuwaiqOS.FsService

/-!
# Acknowledged mutations and the next mount

After `init` the published tree is what the disk mounts to, and the counters
in memory are in step with the disk. A mutation that returns `Ok` keeps both
as long as the new tree is within the reader's bound on nodes. The writer
has no such bound, so one more node is acknowledged and then lost.
-/

namespace TuwaiqOS.Durability

open BlockProgram FsTree TreeCodec TreeInvariant TwoSlotStore Checkpoint SlotContents SyncWrites
open CrashConsistency VfsPath FsService

/-! ## What a successful mount found -/

/-- A sector without a non-zero byte is the zero sector. -/
theorem sector_eq_zero {sector : Sector} (hzero : sector.bytes.any (·≠0)=false) :
    sector=Sector.zero := by
  rw [List.any_eq_false] at hzero
  obtain ⟨bytes,hlength⟩ := sector
  have hbytes : bytes=List.replicate 512 0 := by
    rw [← hlength]
    exact List.eq_replicate_iff.mpr ⟨rfl,fun byte hbyte => by simpa using hzero byte hbyte⟩
  subst hbytes
  rfl

variable {disk : Disk} {count : ℕ}

/-- Only blank, version 3 and legacy volumes mount. -/
theorem mount_ok_cases {tree : FsNode} (hmount : (Routine.perform mount (boot disk)).1=.ok tree) :
    Blank disk ∨ V3Superblock (disk superblockLba) ∨ V2Superblock (disk superblockLba) := by
  rw [mount,Routine.perform_bind_ok (Routine.perform_readBlock superblockLba (boot disk))] at hmount
  change (Routine.perform (if (disk superblockLba).field 0 8≠magic then _ else _)
    (boot disk)).1=_ at hmount
  split at hmount
  · rw [Routine.perform_bind_ok (Routine.perform_readBlock slotALba (boot disk)),
      Routine.perform_bind_ok (Routine.perform_readBlock slotBLba (boot disk))] at hmount
    split at hmount
    · cases hmount
    · rename_i hzero
      rw [Bool.not_eq_true,Bool.or_eq_false_iff,Bool.or_eq_false_iff] at hzero
      exact Or.inl ⟨sector_eq_zero hzero.1.1,sector_eq_zero hzero.1.2,sector_eq_zero hzero.2⟩
  · rename_i hmagic
    dsimp only at hmount
    split at hmount
    · rename_i hversion
      split at hmount
      · cases hmount
      · rename_i hgeometry
        simp only [not_or,not_not] at hgeometry hmagic
        exact Or.inr (Or.inl ⟨hmagic,hversion,hgeometry.1,hgeometry.2⟩)
    · split at hmount
      · cases hmount
      · rename_i hgeometry
        split at hmount
        · cases hmount
        · rename_i hlength
          simp only [not_or,not_not] at hgeometry hmagic
          exact Or.inr (Or.inr ⟨hmagic,hgeometry.1,hgeometry.2.1,hgeometry.2.2,not_lt.mp hlength⟩)

section

variable (machine : FsMachine) (tree : FsNode)

/-- A mounted legacy volume with nothing valid in the first slot. -/
structure MountedLegacy : Prop where
  /-- The superblock is the legacy one. -/
  superblock : V2Superblock (machine.disk superblockLba)
  /-- The legacy region holds the tree. -/
  stored : legacyTree machine.disk=.ok tree
  /-- The first slot holds no valid checkpoint. -/
  slotA : slotValue machine.disk 0=none
  /-- The format version in memory. -/
  versionOk : machine.memory.formatVersion=legacyVersion
  /-- The active slot in memory. -/
  activeOk : machine.memory.activeSlot=0
  /-- The generation in memory. -/
  generationOk : machine.memory.generation=0
  /-- No disk error is pending. -/
  healthy : machine.fates=[]

/-- A kernel between two calls, without disk errors. -/
structure Idle : Prop where
  /-- The tree is published. -/
  published : machine.memory.fs=some tree
  /-- No mutation is under way. -/
  free : machine.memory.writerActive=false
  /-- No disk error is pending. -/
  healthy : machine.fates=[]

/-- The volume holds the tree. -/
def Volume : Prop :=
  Mounted machine tree ∨ MountedLegacy machine tree

/-- A kernel that serves a tree which its disk mounts to. -/
structure Serving : Prop extends Idle machine tree where
  /-- The tree is well formed. -/
  treeOk : TreeOk tree
  /-- The tree is within the reader's bound. -/
  few : descendants tree ≤ maxNodeCount
  /-- The volume holds it. -/
  volume : Volume machine tree

end

/-- `Mounted` looks at the disk and the three counters only. -/
theorem mounted_of_same {machine later : FsMachine} {tree : FsNode}
    (hmounted : Mounted machine tree) (hdisk : later.disk=machine.disk)
    (hslot : later.memory.activeSlot=machine.memory.activeSlot)
    (hgeneration : later.memory.generation=machine.memory.generation)
    (hversion : later.memory.formatVersion=machine.memory.formatVersion)
    (hfates : later.fates=[]) : Mounted later tree :=
  ⟨by rw [hdisk]; exact hmounted.superblock,
    by rw [hdisk,hslot,hgeneration]; exact hmounted.current,
    by rw [hversion]; exact hmounted.versionOk,hfates⟩

/-- The tree of a legacy region is well formed. -/
theorem legacyTree_treeOk {tree : FsNode} (hstored : legacyTree disk=.ok tree) :
    TreeOk tree ∧ descendants tree ≤ maxNodeCount := by
  rw [legacyTree] at hstored
  dsimp only at hstored
  split at hstored
  · cases hstored
    exact ⟨treeOk_emptyRoot,Nat.zero_le _⟩
  · split at hstored
    · cases hstored
    · exact deserializeTree_treeOk hstored

/-- The tree a version 3 volume holds is well formed. -/
theorem holdsV3_treeOk {tree : FsNode} (hholds : HoldsV3 disk tree) :
    TreeOk tree ∧ descendants tree ≤ maxNodeCount := by
  obtain ⟨-,slot,generation,hpick⟩ := hholds
  obtain ⟨-,-,blob,hdecode⟩ := slotAt_valid (pick_valid hpick).2
  exact decodePayload_treeOk hdecode

/-- After a mount of anything but a legacy volume the counters are in step
with the disk. -/
theorem mount_mounted {machine : FsMachine} {tree : FsNode}
    (hstart : ¬V2Superblock (disk superblockLba))
    (hmount : Routine.perform mount (boot disk)=(.ok tree,machine)) :
    machine.memory.writerActive=false ∧ Mounted machine tree := by
  rcases mount_ok_cases (by rw [hmount]) with hblank|hv3|hv2
  · have hresult := @perform_mount_blank (boot disk) hblank rfl
    rw [hmount] at hresult
    cases hresult
    obtain ⟨hsuper,hcurrent⟩ := formatted_current hblank.slotB
    exact ⟨rfl,hsuper,.of_pick hcurrent,rfl,rfl⟩
  · have hresult := @perform_mount_v3 (boot disk) hv3
    obtain ⟨-,slot,generation,hpick⟩ := holdsV3_of_mount hv3 hmount
    rw [hmount,show (boot disk).disk=disk from rfl,hpick] at hresult
    cases hresult
    exact ⟨rfl,hv3,.of_pick hpick,rfl,rfl⟩
  · exact absurd hv2 hstart

/-- After any mount the kernel serves what the volume holds. -/
theorem mount_volume {machine : FsMachine} {tree : FsNode}
    (hslot : V2Superblock (disk superblockLba) → slotValue disk 0=none)
    (hmount : Routine.perform mount (boot disk)=(.ok tree,machine)) :
    machine.memory.writerActive=false ∧ Volume machine tree := by
  by_cases hv2 : V2Superblock (disk superblockLba)
  · have hresult := @perform_mount_v2 (boot disk) hv2
    rw [hmount] at hresult
    obtain ⟨hstored,hmachine⟩ := Prod.mk.inj hresult
    subst hmachine
    exact ⟨rfl,Or.inr ⟨hv2,hstored.symm,hslot hv2,rfl,rfl,rfl,rfl⟩⟩
  · obtain ⟨hfree,hmounted⟩ := mount_mounted hv2 hmount
    exact ⟨hfree,Or.inl hmounted⟩

/-- The tree of a volume is well formed and within the reader's bound. -/
theorem volume_treeOk {machine : FsMachine} {tree : FsNode} (hvolume : Volume machine tree) :
    TreeOk tree ∧ descendants tree ≤ maxNodeCount := by
  rcases hvolume with hmounted|hlegacy
  · exact holdsV3_treeOk hmounted.holds
  · exact legacyTree_treeOk hlegacy.stored

/-- A volume looks at the disk and the three counters only. -/
theorem volume_of_same {machine later : FsMachine} {tree : FsNode} (hvolume : Volume machine tree)
    (hdisk : later.disk=machine.disk) (hslot : later.memory.activeSlot=machine.memory.activeSlot)
    (hgeneration : later.memory.generation=machine.memory.generation)
    (hversion : later.memory.formatVersion=machine.memory.formatVersion)
    (hfates : later.fates=[]) : Volume later tree := by
  rcases hvolume with hmounted|hlegacy
  · exact Or.inl (mounted_of_same hmounted hdisk hslot hgeneration hversion hfates)
  · refine Or.inr ⟨?_,?_,?_,hversion.trans hlegacy.versionOk,hslot.trans hlegacy.activeOk,
      hgeneration.trans hlegacy.generationOk,hfates⟩
    · rw [hdisk]
      exact hlegacy.superblock
    · rw [hdisk]
      exact hlegacy.stored
    · rw [hdisk]
      exact hlegacy.slotA

theorem Volume.healthy {machine : FsMachine} {tree : FsNode} (hvolume : Volume machine tree) :
    machine.fates=[] := hvolume.elim Mounted.healthy MountedLegacy.healthy

/-- A volume mounts to the tree it holds. -/
theorem volume_mounts {machine : FsMachine} {tree : FsNode} (hvolume : Volume machine tree) :
    (Routine.perform mount (boot machine.disk)).1=.ok tree := by
  rcases hvolume with hmounted|hlegacy
  · obtain ⟨later,hmount,-⟩ := mount_of_holdsV3 hmounted.holds
    rw [hmount]
  · rw [perform_mount_v2 (by exact hlegacy.superblock)]
    exact hlegacy.stored

/-- What a mount leaves on the disk mounts to the same tree: a formatted
region, a legacy volume or a version 3 volume, whatever else the disk holds. -/
theorem mount_again (disk : Disk) : (∃ reason,(Routine.perform mount (boot disk)).1=.error reason) ∨
    (Routine.perform mount (boot (Routine.perform mount (boot disk)).2.disk)).1=
      (Routine.perform mount (boot disk)).1 := by
  rcases hmount : Routine.perform mount (boot disk) with ⟨reason|tree,machine⟩
  · exact Or.inl ⟨reason,rfl⟩
  · refine Or.inr ?_
    by_cases hv2 : V2Superblock (disk superblockLba)
    · have hresult := @perform_mount_v2 (boot disk) hv2
      rw [hmount] at hresult
      cases (Prod.mk.inj hresult).2
      exact congrArg Prod.fst hmount
    · exact volume_mounts (Or.inl (mount_mounted hv2 hmount).2)

/-- `load_checkpoint` finds nothing exactly in an invalid slot. -/
theorem slotValue_of_load (hload : (Routine.perform (loadCheckpoint 0) (boot disk)).1=.ok none) :
    slotValue disk 0=none := by
  rw [perform_loadCheckpoint (by decide)] at hload
  exact Except.ok.inj hload

/-- After `init` the kernel serves what the disk holds. -/
theorem serving_init {machine : FsMachine}
    (hslot : V2Superblock (disk superblockLba) → slotValue disk 0=none)
    (hinit : Routine.perform init (boot disk)=(.ok (),machine)) : ∃ tree,Serving machine tree := by
  obtain ⟨children,mounted,hmount,rfl⟩ := mount_of_init hinit
  obtain ⟨hfree,hvolume⟩ := mount_volume hslot hmount
  obtain ⟨htree,hfew⟩ := volume_treeOk hvolume
  exact ⟨.dir children,⟨rfl,hfree,hvolume.healthy⟩,htree,hfew,
    volume_of_same hvolume rfl rfl rfl rfl hvolume.healthy⟩

/-! ## One sync -/

section

variable {machine : FsMachine} {tree next : FsNode} {blob : List UInt8}

/-- A legacy machine syncs like one that was just mounted. -/
theorem MountedLegacy.synced_disk (hlegacy : MountedLegacy machine tree) (blob : List UInt8) :
    (synced machine blob).disk=(synced (mountedLegacy machine.disk) blob).disk := by
  have hwrites : syncWrites machine.memory blob=
      syncWrites (mountedLegacy machine.disk).memory blob := by
    rw [syncWrites,hlegacy.activeOk,hlegacy.generationOk,hlegacy.versionOk]
    rfl
  change applyWrites (syncWrites machine.memory blob) machine.disk=_
  rw [hwrites]
  rfl

/-- A sync whose payload decodes leaves a version 3 volume of the new tree. -/
theorem synced_volume (hvolume : Volume machine tree)
    (hblob : 0<blob.length) (hfit : blob.length ≤ maxMetadataBytes)
    (hnext : machine.memory.generation+1<2^64) (hdecode : decodePayload blob=some next) :
    Mounted (synced machine blob) next := by
  rcases hvolume with hmounted|hlegacy
  · exact hmounted.synced_mounted hblob hfit hnext hdecode
  · obtain ⟨hsuper,hzero,hone⟩ := @legacy_synced_slots machine.disk blob hblob hfit
    rw [hdecode,Option.map_some] at hone
    rw [hlegacy.slotA] at hzero
    rw [← hlegacy.synced_disk] at hsuper hzero hone
    have hslot : (synced machine blob).memory.activeSlot=1 := by
      change other machine.memory.activeSlot=1
      rw [hlegacy.activeOk]
      rfl
    have hgeneration : (synced machine blob).memory.generation=1 := by
      change machine.memory.generation+1=1
      rw [hlegacy.generationOk]
    refine ⟨hsuper,?_,rfl,hlegacy.healthy⟩
    rw [hslot,hgeneration]
    exact .of_pick (pick_of_other_none (by decide) hone hzero)

/-- A sync whose payload does not decode leaves the old tree or a volume
that does not mount. -/
theorem synced_undecodable (hvolume : Volume machine tree)
    (hblob : 0<blob.length) (hfit : blob.length ≤ maxMetadataBytes)
    (hnext : machine.memory.generation+1<2^64) (hdecode : decodePayload blob=none) :
    (Routine.perform mount (boot (synced machine blob).disk)).1=.ok tree ∨
      (Routine.perform mount (boot (synced machine blob).disk)).1=
        .error "no valid committed TuwaiqFS checkpoint" := by
  rcases hvolume with hmounted|hlegacy
  · obtain ⟨hsuper,hstep⟩ := hmounted.synced_undecodable hblob hfit hnext hdecode
    obtain ⟨again,hagain,-⟩ := mount_of_holdsV3 ⟨hsuper,hstep.selected⟩
    rw [hagain]
    exact Or.inl rfl
  · obtain ⟨hsuper,hzero,hone⟩ := @legacy_synced_slots machine.disk blob hblob hfit
    rw [hdecode,Option.map_none] at hone
    rw [hlegacy.slotA] at hzero
    rw [← hlegacy.synced_disk] at hsuper hzero hone
    have hnone : pick (slotValue (boot (synced machine blob).disk).disk)=none := by
      simp only [boot,pick,hzero,hone]
    rw [perform_mount_v3 (by exact hsuper),hnone]
    exact Or.inr rfl

/-- The payload of a well-formed tree decodes to it within the reader's
bound, and to nothing beyond it. -/
theorem decodePayload_of_treeOk (htree : TreeOk next) (hblob : serializeTree next=.ok blob) :
    decodePayload blob=if descendants next ≤ maxNodeCount then some next else none := by
  obtain ⟨found,hfound,-,hread⟩ := deserialize_serialize htree
  rw [hblob] at hfound
  cases hfound
  rw [(decodePayload_serializeTree hblob).2,hread]
  split <;> rfl

end

/-! ## One mutation -/

/-- The machine after a mutation that returned `Ok`. -/
def acknowledged (machine : FsMachine) (blob : List UInt8) (candidate : FsNode) : FsMachine :=
  {synced machine blob with memory :=
    {(synced machine blob).memory with fs := some candidate,writerActive := false}}

/-- A change whose payload fits is acknowledged with its payload on disk. -/
theorem mutate_acknowledged {machine : FsMachine} {tree candidate : FsNode} {blob : List UInt8}
    (hidle : Idle machine tree) {mutation : Mutation}
    (happly : mutation.apply tree=.ok candidate) (hblob : serializeTree candidate=.ok blob)
    (hfit : blob.length ≤ maxMetadataBytes) (hnext : machine.memory.generation+1<2^64) :
    Routine.perform (mutate mutation) machine=(.ok (),acknowledged machine blob candidate) := by
  have hplan : planned candidate (setGuard true machine).memory=
      .ok (blob,machine.memory.generation+1,other machine.memory.activeSlot) :=
    planned_ok.mpr ⟨hblob,hfit,hnext,rfl,rfl⟩
  rw [perform_mutate hidle.free hidle.published,happly]
  dsimp only
  rw [perform_syncTree_ok (by exact hidle.healthy) hplan]
  rfl

/-- A mutation without disk errors either fails and changes nothing, or is
acknowledged with its payload on disk. -/
theorem mutate_cases {machine : FsMachine} {tree : FsNode} (hidle : Idle machine tree)
    (mutation : Mutation) :
    (∃ reason,Routine.perform (mutate mutation) machine=(.error reason,machine)) ∨
      ∃ candidate blob,mutation.apply tree=.ok candidate ∧ serializeTree candidate=.ok blob ∧
        0<blob.length ∧ blob.length ≤ maxMetadataBytes ∧ machine.memory.generation+1<2^64 ∧
        Routine.perform (mutate mutation) machine=
          (.ok (),acknowledged machine blob candidate) := by
  have hrestore : setGuard false (setGuard true machine)=machine := by
    rw [setGuard,setGuard,← hidle.free]
  rcases happly : mutation.apply tree with reason|candidate
  · rw [perform_mutate hidle.free hidle.published,happly]
    exact Or.inl ⟨reason,rfl⟩
  · rcases hplan : planned candidate machine.memory with reason|⟨blob,generation,target⟩
    · rw [perform_mutate hidle.free hidle.published,happly]
      dsimp only
      rw [perform_syncTree_error (by exact hplan)]
      exact Or.inl ⟨reason,by rw [← hrestore]; rfl⟩
    · obtain ⟨hblob,hfit,hnext,-,-⟩ := planned_ok.mp hplan
      have hlength := (decodePayload_serializeTree hblob).1
      exact Or.inr ⟨candidate,blob,rfl,hblob,by omega,hfit,hnext,
        mutate_acknowledged hidle happly hblob hfit hnext⟩

/-- An acknowledged mutation within the reader's bound keeps the kernel
serving what its disk mounts to. -/
theorem serving_acknowledged {machine : FsMachine} {tree candidate : FsNode} {blob : List UInt8}
    (hserving : Serving machine tree) (hcandidate : TreeOk candidate)
    (hblob : serializeTree candidate=.ok blob) (hlength : 0<blob.length)
    (hfit : blob.length ≤ maxMetadataBytes) (hnext : machine.memory.generation+1<2^64)
    (hfew : descendants candidate ≤ maxNodeCount) :
    Serving (acknowledged machine blob candidate) candidate := by
  have hdecode := decodePayload_of_treeOk hcandidate hblob
  rw [if_pos hfew] at hdecode
  have hmounted := synced_volume hserving.volume hlength hfit hnext hdecode
  exact ⟨⟨rfl,rfl,hmounted.healthy⟩,hcandidate,hfew,
    Or.inl (mounted_of_same hmounted rfl rfl rfl rfl hmounted.healthy)⟩

/-! ## Runs of mutations -/

/-- The published tree is within the reader's bound. -/
def FewNodes (machine : FsMachine) : Prop :=
  ∀ tree,machine.memory.fs=some tree → descendants tree ≤ maxNodeCount

/-- A kernel reached from a mounted disk by mutations on normalized paths,
none of which grows the tree past the reader's bound. -/
inductive Run (disk : Disk) : FsMachine → Prop where
  /-- The kernel after `init`. -/
  | init {machine : FsMachine} (hinit : Routine.perform init (boot disk)=(.ok (),machine)) :
      Run disk machine
  /-- One mutation, whatever it returned. -/
  | step {machine later : FsMachine} {outcome : Except String Unit} (hrun : Run disk machine)
      (mutation : Mutation) (hpath : Normalized mutation.path)
      (hstep : Routine.perform (mutate mutation) machine=(outcome,later))
      (hfew : FewNodes later) : Run disk later

/-- Every kernel of such a run serves what its disk mounts to. -/
theorem Run.serving (hslot : V2Superblock (disk superblockLba) → slotValue disk 0=none)
    {machine : FsMachine} (hrun : Run disk machine) : ∃ tree,Serving machine tree := by
  induction hrun with
  | init hinit => exact serving_init hslot hinit
  | step _ mutation hpath hstep hfew ih =>
    obtain ⟨tree,hserving⟩ := ih
    rcases mutate_cases hserving.toIdle mutation with ⟨reason,hfail⟩|
      ⟨candidate,blob,happly,hblob,hlength,hfit,hnext,hok⟩
    · rw [hstep] at hfail
      cases hfail
      exact ⟨tree,hserving⟩
    · rw [hstep] at hok
      cases hok
      exact ⟨candidate,serving_acknowledged hserving
        (apply_treeOk hserving.treeOk hpath.clean.legal happly) hblob hlength hfit hnext
        (hfew candidate rfl)⟩

/-- Durability of acknowledged mutations. On a volume that is not a legacy
one over a valid first slot, after any run of mutations on normalized paths
that keeps the tree within the reader's bound, a mutation that returns `Ok`
is what the next mount returns exactly when its tree is within that bound;
and exactly then the tree is read back from its own serialization. -/
theorem durable_iff {disk : Disk}
    (hslot : V2Superblock (disk superblockLba) →
      (Routine.perform (loadCheckpoint 0) (boot disk)).1=.ok none)
    {machine later : FsMachine} (hrun : Run disk machine) {mutation : Mutation}
    (hpath : Normalized mutation.path)
    (hok : Routine.perform (mutate mutation) machine=(.ok (),later)) :
    ∃ tree,later.memory.fs=some tree ∧
      ((Routine.perform mount (boot later.disk)).1=.ok tree ↔ descendants tree ≤ maxNodeCount) ∧
      (RoundTrips tree ↔ descendants tree ≤ maxNodeCount) := by
  obtain ⟨tree,hserving⟩ := hrun.serving fun h => slotValue_of_load (hslot h)
  rcases mutate_cases hserving.toIdle mutation with ⟨reason,hfail⟩|
    ⟨candidate,blob,happly,hblob,hlength,hfit,hnext,hdone⟩
  · rw [hok] at hfail
    cases hfail
  · rw [hok] at hdone
    cases hdone
    have hcandidate := apply_treeOk hserving.treeOk hpath.clean.legal happly
    refine ⟨candidate,rfl,?_,roundTrips_iff hcandidate⟩
    constructor
    · intro hmount
      by_contra hmany
      have hdecode := decodePayload_of_treeOk hcandidate hblob
      rw [if_neg hmany] at hdecode
      rcases synced_undecodable hserving.volume hlength hfit hnext hdecode with hold|hnone
      · have hsame : Except.ok candidate=Except.ok tree := hmount.symm.trans hold
        cases hsame
        exact hmany hserving.few
      · have hsame := hmount.symm.trans hnone
        cases hsame
    · intro hfew
      have hnow := serving_acknowledged hserving hcandidate hblob hlength hfit hnext hfew
      have hmounted : Mounted (acknowledged machine blob candidate) candidate := by
        rcases hnow.volume with hmounted|hlegacy
        · exact hmounted
        · exact absurd hlegacy.versionOk (show version≠legacyVersion by decide)
      obtain ⟨again,hagain,-⟩ := mount_of_holdsV3 hmounted.holds
      rw [hagain]

theorem notLegacy_zeroDisk : ¬V2Superblock (zeroDisk superblockLba) :=
  fun h => absurd h.magicOk (by decide)

/-- The first boot formats a blank disk and serves the empty root. -/
theorem init_zeroDisk : ∃ machine,Routine.perform init (boot zeroDisk)=(.ok (),machine) ∧
      machine.memory.fs=some emptyRoot ∧ machine.memory.generation=1 := by
  rw [init,Routine.perform_bind_ok (perform_mount_blank (by exact blank_zeroDisk) rfl)]
  exact ⟨_,rfl,rfl,rfl⟩

/-- A file created on a freshly formatted volume is there after the next
mount. -/
theorem durable_first_file :
    ∃ machine later tree,Run zeroDisk machine ∧
      Routine.perform (mutate (.createFile ['/','x'])) machine=(.ok (),later) ∧
      later.memory.fs=some tree ∧ (Routine.perform mount (boot later.disk)).1=.ok tree := by
  obtain ⟨machine,hinit,hpublished,hgeneration⟩ := init_zeroDisk
  have hrun : Run zeroDisk machine := .init hinit
  obtain ⟨tree,hserving⟩ := serving_init (fun h => absurd h notLegacy_zeroDisk) hinit
  have htree : tree=emptyRoot :=
    Option.some.inj (hserving.published.symm.trans hpublished)
  subst htree
  have hdone := @mutate_acknowledged _ _ (.dir [(['x'],.file [])]) _ hserving.toIdle
    (.createFile ['/','x']) rfl rfl (by decide) (by rw [hgeneration]; norm_num)
  obtain ⟨found,hfound,hmount,-⟩ := durable_iff (fun h => absurd h notLegacy_zeroDisk) hrun
    ⟨['/'],['/','x'],by decide⟩ hdone
  cases hfound
  exact ⟨_,_,_,hrun,hdone,rfl,hmount.mpr (by decide)⟩

/-! ## One node too many -/

/-- A printable letter. -/
def letter (index : ℕ) : Char := Char.ofNat (0x60+index)

/-- The name of file number `index`: two letters. -/
def crowdName (index : ℕ) : Utf8Text.Text := [letter (index/32),letter (index%32)]

/-- A directory of `count` empty files. -/
def crowd (count : ℕ) : Children := (List.range count).map fun index => (crowdName index,.file [])

/-- The names are legal, have two bytes and tell their number. -/
theorem crowdName_ok : ∀ index<1024,NameOk (crowdName index) ∧ Utf8Text.len (crowdName index)=2 ∧
    (crowdName index).map Char.toNat=[0x60+index/32,0x60+index%32] := by decide +kernel

theorem crowdName_injective {first second : ℕ} (hfirst : first<1024) (hsecond : second<1024)
    (hname : crowdName first=crowdName second) : first=second := by
  have hvalue := congrArg (List.map Char.toNat) hname
  rw [(crowdName_ok first hfirst).2.2,(crowdName_ok second hsecond).2.2] at hvalue
  simp only [List.cons.injEq,and_true] at hvalue
  omega

theorem map_fst_crowd (count : ℕ) : (crowd count).map Prod.fst=(List.range count).map crowdName := by
  rw [crowd,List.map_map]
  rfl

theorem nodup_crowd (hcount : count≤1024) : ((crowd count).map Prod.fst).Nodup := by
  rw [map_fst_crowd]
  refine List.Nodup.map_on ?_ List.nodup_range
  intro first hfirst second hsecond hname
  rw [List.mem_range] at hfirst hsecond
  exact crowdName_injective (by omega) (by omega) hname

/-- A directory of at most 1024 such files is well formed. -/
theorem treeOk_crowd (hcount : count≤1024) : TreeOk (.dir (crowd count)) := by
  refine ⟨⟨_,rfl⟩,?_⟩
  rw [wellFormed_dir]
  refine ⟨nodup_crowd hcount,fun entry hmem => ?_⟩
  obtain ⟨index,hindex,rfl⟩ := List.mem_map.mp hmem
  rw [List.mem_range] at hindex
  have hname := crowdName_ok index (by omega)
  refine ⟨hname.1,?_,Nat.zero_le _⟩
  rw [childLength,if_pos rfl,hname.2.1]
  decide

/-- The directory of `count` files with one more, `x`. -/
def overcrowd (count : ℕ) : Children := crowd count++[(['x'],.file [])]

/-- Creating `/x` beside the files succeeds in memory. -/
theorem createFile_crowd (count : ℕ) :
    (Mutation.createFile ['/','x']).apply (.dir (crowd count))=.ok (.dir (overcrowd count)) := by
  have hname : parentAndName ['/','x']=.ok ([],['x']) := by decide
  have hfresh : ['x']∉(crowd count).map Prod.fst := by
    rw [map_fst_crowd]
    intro hmem
    obtain ⟨index,-,heq⟩ := List.mem_map.mp hmem
    exact absurd (congrArg List.length heq) (show ¬2=1 by decide)
  simp only [Mutation.apply,FsTree.createFileAt,hname]
  change (pushChild "file or directory already exists" ['x'] (.file []) (crowd count)>>=
    fun changed => pure (FsNode.dir changed))=_
  rw [pushChild_of_notMem hfresh]
  rfl

theorem treeOk_overcrowd (hcount : count≤1024) : TreeOk (.dir (overcrowd count)) :=
  apply_treeOk (treeOk_crowd hcount) (Normalized.clean ⟨['/'],['/','x'],by decide⟩).legal
    (createFile_crowd count)

/-- The payload of a directory in the root. -/
def payload (children : Children) : List UInt8 :=
  treeMagic++(recordsBelow [] children).flatMap encodeRecord

/-- The two payloads are small; only the first directory is within the
reader's bound. -/
theorem measures_crowd (hcount : count=1024) :
    population (crowd count)=1024 ∧ (payload (crowd count)).length=6148 ∧
      population (overcrowd count)=1025 ∧ (payload (overcrowd count)).length=6153 := by
  subst hcount
  decide +kernel

/-- A volume that holds `count` files. -/
def crowdedDisk (count : ℕ) : Disk := firstCheckpoint zeroDisk (payload (crowd count))

/-- The kernel that mounted the files serves them. -/
theorem serving_crowd (hcount : count=1024) :
    ∃ machine,Run (crowdedDisk count) machine ∧ Serving machine (.dir (crowd count)) ∧
      machine.memory.generation=1 := by
  have hsmall := treeOk_crowd hcount.le
  have hdecode := decodePayload_of_treeOk hsmall (serializeTree_eq hsmall).2
  obtain ⟨hpopulation,hlength,-⟩ := measures_crowd hcount
  rw [descendants,hpopulation,if_pos (by decide)] at hdecode
  obtain ⟨hsuper,hpick⟩ := @firstCheckpoint_current zeroDisk rfl (payload (crowd count)) _
    (by rw [hlength]; decide) (by rw [hlength]; decide) hdecode
  have hmount := @perform_mount_v3 (boot (crowdedDisk count)) hsuper
  rw [show pick (slotValue (boot (crowdedDisk count)).disk)=_ from hpick] at hmount
  have hinit := perform_init hmount
  have hlegacy : ¬V2Superblock (crowdedDisk count superblockLba) := fun h =>
    absurd (hsuper.versionOk.symm.trans h.versionOk) (by decide)
  obtain ⟨tree,hserving⟩ := serving_init (fun h => absurd h hlegacy) hinit
  have htree : .dir (crowd count)=tree := Option.some.inj hserving.published
  rw [← htree] at hserving
  exact ⟨_,.init hinit,hserving,rfl⟩

/-- With the reader's bound reached, one more file is acknowledged and lost. -/
theorem overcrowd_lost (hcount : count=1024) : ∃ machine later,Run (crowdedDisk count) machine ∧
      Routine.perform (mutate (.createFile ['/','x'])) machine=(.ok (),later) ∧
      later.memory.fs=some (.dir (overcrowd count)) ∧
      (Routine.perform mount (boot later.disk)).1=.ok (.dir (crowd count)) ∧
      serializeTree (.dir (overcrowd count))=.ok (payload (overcrowd count)) ∧
      deserializeTree ((payload (overcrowd count)).drop 4)= .error "too many metadata records" := by
  have hbig := treeOk_overcrowd hcount.le
  have hblob := (serializeTree_eq hbig).2
  obtain ⟨-,-,hpopulation,hlength⟩ := measures_crowd hcount
  have hmany : ¬descendants (.dir (overcrowd count)) ≤ maxNodeCount := by
    rw [descendants,hpopulation]
    decide
  have hdecode := decodePayload_of_treeOk hbig hblob
  rw [if_neg hmany] at hdecode
  obtain ⟨found,hfound,-,hread⟩ := deserialize_serialize hbig
  rw [hblob] at hfound
  cases hfound
  rw [if_neg hmany] at hread
  obtain ⟨machine,hrun,hserving,hgeneration⟩ := serving_crowd hcount
  have hnext : machine.memory.generation+1<2^64 := by
    rw [hgeneration]
    norm_num
  have hpos : 0<(payload (overcrowd count)).length := by omega
  have hfit : (payload (overcrowd count)).length ≤ maxMetadataBytes := by
    rw [hlength]
    decide
  have hdone := mutate_acknowledged hserving.toIdle (createFile_crowd count) hblob hfit hnext
  have hmounted : Mounted machine (.dir (crowd count)) := by
    rcases hserving.volume with hmounted|hlegacy
    · exact hmounted
    · exact absurd hlegacy.generationOk (by rw [hgeneration]; decide)
  obtain ⟨hsuper,hstep⟩ := hmounted.synced_undecodable hpos hfit hnext hdecode
  obtain ⟨again,hagain,-⟩ := mount_of_holdsV3 ⟨hsuper,hstep.selected⟩
  exact ⟨machine,_,hrun,hdone,rfl,congrArg Prod.fst hagain,hblob,hread⟩

/-- On a volume with 1024 files, creating `/x` returns `Ok` and publishes
1025 files; the next mount returns the 1024 files without `/x`. The payload
of 1025 records is written although it cannot be read back. -/
theorem durable_loses_node :
    Normalized ['/','x'] ∧ ∃ machine later,Run (crowdedDisk 1024) machine ∧
      Routine.perform (mutate (.createFile ['/','x'])) machine=(.ok (),later) ∧
      later.memory.fs=some (.dir (overcrowd 1024)) ∧
      (Routine.perform mount (boot later.disk)).1=.ok (.dir (crowd 1024)) ∧
      serializeTree (.dir (overcrowd 1024))=.ok (payload (overcrowd 1024)) ∧
      deserializeTree ((payload (overcrowd 1024)).drop 4)=.error "too many metadata records" :=
  ⟨⟨['/'],['/','x'],by decide⟩,overcrowd_lost rfl⟩

end TuwaiqOS.Durability
