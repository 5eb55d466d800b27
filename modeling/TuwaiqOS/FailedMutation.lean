import TuwaiqOS.Durability

/-!
# Mutations under disk errors

A sector write can fail before its transfer or after it. A mutation stops at
the first failed write, so the disk holds a prefix of the checkpoint. Every
proper prefix is invisible to the next mount. The one exception is the
committed header: when its write fails after the transfer, the new tree is
on disk although the mutation reported an error.
-/

namespace TuwaiqOS.FailedMutation

open BlockProgram FsTree TreeCodec TwoSlotStore Checkpoint SlotContents SyncWrites
open CrashConsistency FsService Durability

/-! ## A sync under faults -/

/-- Under any faults a sync of a version 3 volume leaves old counters and a
prefix of the checkpoint if a write failed, and new counters and the
complete checkpoint otherwise. -/
theorem perform_syncTree_faults {root : FsNode} {machine : FsMachine}
    (hversion : machine.memory.formatVersion=version) {blob : List UInt8} {generation target : ℕ}
    (hplan : planned root machine.memory=.ok (blob,generation,target)) {answer : Except String Unit}
    {landed : ℕ}
    (hlanding : Routine.landing machine.fates (syncWrites machine.memory blob).length=
      (answer,landed)) :
    ∃ fates,Routine.perform (syncTree root) machine=
      (answer,if answer.isOk then {synced machine blob with fates := fates}
        else {Routine.stored ((syncWrites machine.memory blob).take landed) machine with
          fates := fates}) := by
  obtain ⟨-,hfit,-,rfl,rfl⟩ := planned_ok.mp hplan
  have hwrites : syncWrites machine.memory blob=checkpointWrites
      (other machine.memory.activeSlot) (machine.memory.generation+1) blob := by
    rw [syncWrites,if_pos hversion,List.append_nil]
  have hfirst := perform_planSync root machine
  rw [hplan] at hfirst
  obtain ⟨fates,hwrite⟩ := @Routine.perform_writeAll_landing Sector KernelMemory Tag
    (syncWrites machine.memory blob) machine
  rw [hlanding] at hwrite
  refine ⟨fates,?_⟩
  rw [syncTree,Routine.perform_bind_ok hfirst]
  dsimp only
  rw [writeCheckpoint_eq (other_lt _) _ hfit,← hwrites]
  cases answer with
  | error reason => exact Routine.perform_bind_error hwrite _
  | ok _ =>
    have hall : landed=(syncWrites machine.memory blob).length := by
      have hdone := Routine.landing_ok (congrArg Prod.fst hlanding)
      rwa [hlanding] at hdone
    have hskip : ¬(Routine.stored (syncWrites machine.memory blob) machine).memory.formatVersion≠
        version := not_not.mpr hversion
    rw [Routine.perform_bind_ok hwrite,hall,List.take_length,Routine.perform_act_bind]
    dsimp only [id]
    rw [if_neg hskip]
    simp only [synced,syncedMemory,← hversion]
    rfl

/-! ## A mutation under faults -/

/-- A kernel that serves the tree of a version 3 volume. -/
structure ServingV3 (machine : FsMachine) (tree : FsNode) : Prop where
  /-- The tree is published. -/
  published : machine.memory.fs=some tree
  /-- No mutation is under way. -/
  free : machine.memory.writerActive=false
  /-- The counters are in step with the disk. -/
  mounted : Mounted machine tree

/-- One mutation whose sector writes meet the given fates. -/
def attemptMutation (mutation : Mutation) (faults : List WriteFate) (machine : FsMachine) :
    Except String Unit×FsMachine :=
  Routine.perform (mutate mutation) {machine with fates := faults}

section

variable (machine : FsMachine) (mutation : Mutation) (faults : List WriteFate)

/-- If the mutation fails, the published tree is as before and so is what a
remount returns. -/
def NoTrace : Prop :=
  ∀ reason later,attemptMutation mutation faults machine=(.error reason,later) →
    later.memory.fs=machine.memory.fs ∧
      (Routine.perform mount (boot later.disk)).1=(Routine.perform mount (boot machine.disk)).1

/-- The only failing write is that of the committed header, it fails after
its transfer, and what it commits is another tree. -/
def CommitUnconfirmed :
    Prop :=
  ∃ tree candidate blob generation target found,machine.memory.fs=some tree ∧
    mutation.apply tree=.ok candidate ∧
    planned candidate machine.memory=.ok (blob,generation,target) ∧
    Routine.LastUnconfirmed faults (checkpointWrites target generation blob).length ∧
    decodePayload blob=some found ∧ found≠tree

end

/-- A mutation with a plan answers as its writes do, and publishes its tree
if they all succeed. -/
theorem attemptMutation_planned {machine : FsMachine} {tree candidate : FsNode}
    {mutation : Mutation} {faults : List WriteFate} {blob : List UInt8}
    {generation target landed : ℕ} {answer : Except String Unit}
    (hserving : ServingV3 machine tree) (happly : mutation.apply tree=.ok candidate)
    (hplan : planned candidate machine.memory=.ok (blob,generation,target))
    (hlanding : Routine.landing faults (syncWrites machine.memory blob).length=(answer,landed)) :
    ∃ fates,attemptMutation mutation faults machine=
      (answer,if answer.isOk then {acknowledged machine blob candidate with fates := fates}
        else {Routine.stored ((syncWrites machine.memory blob).take landed) machine with
          fates := fates}) := by
  obtain ⟨fates,hsync⟩ := @perform_syncTree_faults candidate
    (setGuard true {machine with fates := faults}) hserving.mounted.versionOk blob generation
    target hplan answer landed hlanding
  refine ⟨fates,?_⟩
  rw [attemptMutation,perform_mutate (by exact hserving.free) (by exact hserving.published),happly]
  dsimp only
  rw [hsync]
  cases answer with
  | error reason =>
    have hguard : setGuard false {Routine.stored ((syncWrites machine.memory blob).take landed)
        (setGuard true {machine with fates := faults}) with fates := fates}=
        {Routine.stored ((syncWrites machine.memory blob).take landed) machine with
          fates := fates} := by
      simp only [setGuard,Routine.stored,← hserving.free]
    exact congrArg (Prod.mk _) hguard
  | ok _ => rfl

/-- What a mutation under faults can do to a served version 3 volume. -/
inductive Attempt (machine : FsMachine) (tree : FsNode) (mutation : Mutation)
    (faults : List WriteFate) : Except String Unit → FsMachine → Prop where
  /-- It failed before its first write. -/
  | unplanned (reason : String) (fates : List WriteFate)
      (hunplanned : ∀ candidate plan,mutation.apply tree=.ok candidate →
        planned candidate machine.memory≠.ok plan) :
      Attempt machine tree mutation faults (.error reason) {machine with fates := fates}
  /-- It failed at a write, with some of the checkpoint on disk. -/
  | stopped {candidate : FsNode} {blob : List UInt8} {generation target landed : ℕ}
      (reason : String) (fates : List WriteFate) (happly : mutation.apply tree=.ok candidate)
      (hplan : planned candidate machine.memory=.ok (blob,generation,target))
      (hlanded : landed≤(syncWrites machine.memory blob).length)
      (hlast : landed=(syncWrites machine.memory blob).length ↔
        Routine.LastUnconfirmed faults (syncWrites machine.memory blob).length) :
      Attempt machine tree mutation faults (.error reason)
        {Routine.stored ((syncWrites machine.memory blob).take landed) machine with fates := fates}
  /-- It succeeded. -/
  | done {candidate : FsNode} {blob : List UInt8} {generation target : ℕ}
      (fates : List WriteFate) (happly : mutation.apply tree=.ok candidate)
      (hplan : planned candidate machine.memory=.ok (blob,generation,target))
      (hlast : ¬Routine.LastUnconfirmed faults (syncWrites machine.memory blob).length) :
      Attempt machine tree mutation faults (.ok ())
        {acknowledged machine blob candidate with fates := fates}

/-- Every mutation under faults is one of these attempts. -/
theorem attemptMutation_cases {machine : FsMachine} {tree : FsNode}
    (hserving : ServingV3 machine tree) (mutation : Mutation) (faults : List WriteFate) :
    Attempt machine tree mutation faults (attemptMutation mutation faults machine).1
      (attemptMutation mutation faults machine).2 := by
  have hrestore : setGuard false (setGuard true {machine with fates := faults})=
      {machine with fates := faults} := by
    rw [setGuard,setGuard,← hserving.free]
  rcases happly : mutation.apply tree with reason|candidate
  · rw [attemptMutation,perform_mutate (by exact hserving.free) (by exact hserving.published),happly]
    exact .unplanned reason faults fun _ _ hok => by cases happly.symm.trans hok
  · rcases hplan : planned candidate machine.memory with reason|⟨blob,generation,target⟩
    · rw [attemptMutation,perform_mutate (by exact hserving.free) (by exact hserving.published),
        happly]
      dsimp only
      rw [perform_syncTree_error (by exact hplan)]
      dsimp only
      rw [hrestore]
      refine .unplanned reason faults fun _ _ hok hready => ?_
      rw [← Except.ok.inj (happly.symm.trans hok),hplan] at hready
      cases hready
    · have hle := Routine.landing_le faults (syncWrites machine.memory blob).length
      have hiff := Routine.landing_failed_iff faults (syncWrites machine.memory blob).length
      rcases hlanding : Routine.landing faults (syncWrites machine.memory blob).length with
        ⟨answer,landed⟩
      obtain ⟨fates,hresult⟩ := attemptMutation_planned hserving happly hplan hlanding
      rw [hlanding] at hle hiff
      rw [hresult]
      cases answer with
      | error reason =>
        exact .stopped reason fates happly hplan hle ((and_iff_left (by simp)).symm.trans hiff)
      | ok _ => exact .done fates happly hplan fun hlast => (hiff.mpr hlast).2 rfl

/-! ## What stays on disk -/

section

variable {machine : FsMachine} {tree candidate : FsNode} {blob : List UInt8}
  {generation target landed : ℕ}

section

variable (hmounted : Mounted machine tree)
include hmounted

/-- A stopped checkpoint leaves the old counters in step with the disk,
unless all of it is there and decodes to another tree. -/
theorem stopped_current (hplan : planned candidate machine.memory=.ok (blob,generation,target))
    (hlanded : landed≤(syncWrites machine.memory blob).length)
    (hsame : landed=(syncWrites machine.memory blob).length →
      ∀ found,decodePayload blob=some found → found=tree) :
    V3Superblock (applyWrites ((syncWrites machine.memory blob).take landed) machine.disk
        superblockLba) ∧
      InStep (slotValue (applyWrites ((syncWrites machine.memory blob).take landed) machine.disk))
        machine.memory.activeSlot machine.memory.generation tree := by
  obtain ⟨hblob,hfit,hnext,-,-⟩ := planned_ok.mp hplan
  have hlength := (decodePayload_serializeTree hblob).1
  rcases Nat.lt_or_eq_of_le hlanded with hpart|hall
  · exact hmounted.prefix_current hfit hpart
  · rw [hall,List.take_length]
    rcases hdecode : decodePayload blob with _|found
    · exact hmounted.synced_undecodable (by omega) hfit hnext hdecode
    · obtain ⟨hsuper,hkept,hfresh⟩ := hmounted.synced_slots (by omega) hfit hnext
      rw [hdecode,Option.map_some,hsame hall found hdecode] at hfresh
      exact ⟨hsuper,hmounted.current.recommitted hkept hfresh (Nat.lt_succ_self _)⟩

/-- A complete checkpoint is what the next mount returns, whatever the
mutation reported. -/
theorem stopped_complete
    (hplan : planned candidate machine.memory=.ok (blob,generation,target)) {found : FsNode}
    (hdecode : decodePayload blob=some found) :
    (Routine.perform mount (boot (applyWrites (syncWrites machine.memory blob)
      machine.disk))).1=.ok found := by
  obtain ⟨hblob,hfit,hnext,-,-⟩ := planned_ok.mp hplan
  have hlength := (decodePayload_serializeTree hblob).1
  obtain ⟨again,hagain,-⟩ := mount_of_holdsV3
    (hmounted.synced_mounted (by omega) hfit hnext hdecode).holds
  exact congrArg Prod.fst hagain

/-- The writes of a served version 3 volume are those of its plan. -/
theorem syncWrites_planned (hplan : planned candidate machine.memory=.ok (blob,generation,target)) :
    syncWrites machine.memory blob=checkpointWrites target generation blob := by
  obtain ⟨-,-,-,rfl,rfl⟩ := planned_ok.mp hplan
  exact hmounted.syncWrites_eq blob

end

/-- Without an unconfirmed commit, a stopped checkpoint that is all on disk
holds the published tree. -/
theorem stopped_same {mutation : Mutation} {faults : List WriteFate}
    (hserving : ServingV3 machine tree) (happly : mutation.apply tree=.ok candidate)
    (hplan : planned candidate machine.memory=.ok (blob,generation,target))
    (hlast : landed=(syncWrites machine.memory blob).length ↔
      Routine.LastUnconfirmed faults (syncWrites machine.memory blob).length)
    (hconfirmed : ¬CommitUnconfirmed machine mutation faults)
    (hall : landed=(syncWrites machine.memory blob).length) (found : FsNode)
    (hdecode : decodePayload blob=some found) : found=tree := by
  by_contra hother
  rw [syncWrites_planned hserving.mounted hplan] at hlast hall
  exact hconfirmed ⟨tree,candidate,blob,generation,target,found,hserving.published,happly,hplan,
    hlast.mp hall,hdecode,hother⟩

end

/-! ## Runs under faults -/

/-- A kernel reached from a mounted disk by mutations under disk errors,
where no failing commit goes through unnoticed and every acknowledged tree
round-trips. -/
inductive FaultRun (disk : Disk) : FsMachine → Prop where
  /-- The kernel after `init`. -/
  | init {machine : FsMachine} (hinit : Routine.perform init (boot disk)=(.ok (),machine)) :
      FaultRun disk machine
  /-- One mutation, whatever it returned. -/
  | step {machine later : FsMachine} {outcome : Except String Unit}
      (hrun : FaultRun disk machine) (mutation : Mutation) (faults : List WriteFate)
      (hstep : attemptMutation mutation faults machine=(outcome,later))
      (hconfirmed : ¬CommitUnconfirmed machine mutation faults)
      (hround : outcome=.ok () → ∀ tree,later.memory.fs=some tree → RoundTrips tree) :
      FaultRun disk {later with fates := []}

/-- After `init` of a version 3 or blank volume the kernel serves its tree. -/
theorem servingV3_init {disk : Disk} (hstart : ¬V2Superblock (disk superblockLba))
    {machine : FsMachine} (hinit : Routine.perform init (boot disk)=(.ok (),machine)) :
    ∃ tree,ServingV3 machine tree := by
  obtain ⟨children,mounted,hmount,rfl⟩ := mount_of_init hinit
  obtain ⟨hfree,hmounted⟩ := mount_mounted hstart hmount
  exact ⟨.dir children,rfl,hfree,mounted_of_same hmounted rfl rfl rfl rfl hmounted.healthy⟩

/-- Every kernel of such a run serves the tree of its volume. -/
theorem FaultRun.serving {disk : Disk} (hstart : ¬V2Superblock (disk superblockLba))
    {machine : FsMachine} (hrun : FaultRun disk machine) : ∃ tree,ServingV3 machine tree := by
  induction hrun with
  | init hinit => exact servingV3_init hstart hinit
  | @step machine later outcome _ mutation faults hstep hconfirmed hround ih =>
    obtain ⟨tree,hserving⟩ := ih
    have hattempt := attemptMutation_cases hserving mutation faults
    rw [hstep] at hattempt
    cases hattempt with
    | unplanned reason fates _ =>
      exact ⟨tree,hserving.published,hserving.free,
        mounted_of_same hserving.mounted rfl rfl rfl rfl rfl⟩
    | stopped reason fates happly hplan hlanded hlast =>
      refine ⟨tree,hserving.published,hserving.free,?_⟩
      obtain ⟨hblock,hcurrent⟩ := stopped_current hserving.mounted hplan hlanded
        (stopped_same hserving happly hplan hlast hconfirmed)
      exact ⟨hblock,hcurrent,hserving.mounted.versionOk,rfl⟩
    | done fates happly hplan _ =>
      obtain ⟨hblob,hfit,hnext,-,-⟩ := planned_ok.mp hplan
      obtain ⟨hlength,hdecode⟩ := RoundTrips.decode (hround rfl _ rfl) hblob
      have hmounted := hserving.mounted.synced_mounted hlength hfit hnext hdecode
      exact ⟨_,rfl,rfl,mounted_of_same hmounted rfl rfl rfl rfl rfl⟩

/-- Failed mutations leave no trace, with one exception. After any run under
disk errors without that exception, a mutation leaves no trace under given
faults exactly when they do not fail the committed header after its transfer
with another tree in it. -/
theorem no_trace_iff {disk : Disk} (hstart : ¬V2Superblock (disk superblockLba))
    {machine : FsMachine} (hrun : FaultRun disk machine) (mutation : Mutation)
    (faults : List WriteFate) :
    NoTrace machine mutation faults ↔ ¬CommitUnconfirmed machine mutation faults := by
  obtain ⟨tree,hserving⟩ := hrun.serving hstart
  have hattempt := attemptMutation_cases hserving mutation faults
  obtain ⟨before,hbefore,-⟩ := mount_of_holdsV3 hserving.mounted.holds
  constructor
  · rintro hclean ⟨found,candidate,blob,generation,target,other,hfound,happly,hplan,hlast,hdecode,
      hother⟩
    rw [hserving.published] at hfound
    cases hfound
    rw [← syncWrites_planned hserving.mounted hplan] at hlast
    rcases hresult : attemptMutation mutation faults machine with ⟨outcome,later⟩
    rw [hresult] at hattempt
    cases hattempt with
    | unplanned reason fates hunplanned => exact hunplanned candidate _ happly hplan
    | stopped reason fates happly' hplan' hlanded hlast' =>
      rw [happly] at happly'
      cases happly'
      rw [hplan] at hplan'
      cases hplan'
      -- The whole checkpoint is on disk, so the remount shows its tree.
      have hafter := (hclean _ _ hresult).2
      rw [hlast'.mpr hlast,List.take_length] at hafter
      have hshown := stopped_complete hserving.mounted hplan hdecode
      have hsame := hshown.symm.trans (hafter.trans (congrArg Prod.fst hbefore))
      exact hother (Except.ok.inj hsame)
    | done fates happly' hplan' hlast' =>
      rw [happly] at happly'
      cases happly'
      rw [hplan] at hplan'
      cases hplan'
      exact hlast' hlast
  · intro hconfirmed reason later hresult
    rw [hresult] at hattempt
    cases hattempt with
    | unplanned reason fates _ => exact ⟨rfl,rfl⟩
    | stopped reason fates happly hplan hlanded hlast =>
      refine ⟨rfl,?_⟩
      obtain ⟨hblock,hcurrent⟩ := stopped_current hserving.mounted hplan hlanded
        (stopped_same hserving happly hplan hlast hconfirmed)
      obtain ⟨after,hafter,-⟩ := mount_of_holdsV3 ⟨hblock,hcurrent.selected⟩
      exact (congrArg Prod.fst hafter).trans (congrArg Prod.fst hbefore).symm

/-- The kernel after the first boot is reached without any fault. -/
theorem faultRun_zeroDisk : ∃ machine,FaultRun zeroDisk machine ∧ ServingV3 machine emptyRoot ∧
      planned oneDir machine.memory=.ok (oneDirBlob,2,other machine.memory.activeSlot) := by
  obtain ⟨machine,hinit,hpublished,hgeneration⟩ := init_zeroDisk
  obtain ⟨tree,hserving⟩ := servingV3_init notLegacy_zeroDisk hinit
  have htree : tree=emptyRoot := Option.some.inj (hserving.published.symm.trans hpublished)
  rw [htree] at hserving
  refine ⟨machine,.init hinit,hserving,planned_ok.mpr ?_⟩
  rw [hgeneration]
  exact ⟨rfl,by decide,by norm_num,rfl,rfl⟩

/-- A refused first write leaves no trace of the mutation. -/
theorem no_trace_refused :
    ∃ machine,FaultRun zeroDisk machine ∧
      NoTrace machine (.createDir ['/','a']) [.refused "ata error"] := by
  obtain ⟨machine,hrun,-,-⟩ := faultRun_zeroDisk
  refine ⟨machine,hrun,(no_trace_iff notLegacy_zeroDisk hrun _ _).mpr ?_⟩
  rintro ⟨-,-,blob,generation,target,-,-,-,-,hlast,-⟩
  rw [length_checkpointWrites] at hlast
  exact absurd hlast.1 (by decide)

/-- The committed header of a new directory reaches the disk, but the drive
stays busy after the transfer. The call fails and the published tree is
unchanged, yet the next mount shows the directory. -/
theorem failed_mutation_persists :
    ∃ machine later,FaultRun zeroDisk machine ∧
      attemptMutation (.createDir ['/','a']) [.stored,.stored,.unconfirmed "ata busy timeout"]
        machine=(.error "ata busy timeout",later) ∧
      later.memory.fs=some emptyRoot ∧
      (Routine.perform mount (boot machine.disk)).1=.ok emptyRoot ∧
      (Routine.perform mount (boot later.disk)).1=.ok oneDir ∧ oneDir≠emptyRoot := by
  obtain ⟨machine,hrun,hserving,hplan⟩ := faultRun_zeroDisk
  have hlength : (syncWrites machine.memory oneDirBlob).length=3 := by
    rw [syncWrites_planned hserving.mounted hplan,length_checkpointWrites]
    rfl
  obtain ⟨fates,hresult⟩ := @attemptMutation_planned machine emptyRoot oneDir
    (.createDir ['/','a']) [.stored,.stored,.unconfirmed "ata busy timeout"] oneDirBlob _ _ 3
    (.error "ata busy timeout") hserving rfl hplan (by rw [hlength]; rfl)
  obtain ⟨before,hbefore,-⟩ := mount_of_holdsV3 hserving.mounted.holds
  have hafter := stopped_complete hserving.mounted hplan
    (RoundTrips.decode roundTrips_oneDir serializeTree_oneDir).2
  refine ⟨machine,_,hrun,hresult,hserving.published,congrArg Prod.fst hbefore,?_,?_⟩
  · rw [← hafter,← List.take_of_length_le hlength.le]
    rfl
  · intro heq
    cases heq

end TuwaiqOS.FailedMutation
