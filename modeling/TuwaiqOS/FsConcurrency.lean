import TuwaiqOS.GuardedTasks
import TuwaiqOS.Durability

/-!
# Tasks that mutate the filesystem

Mutations and `sync_to_disk` of several tasks are interleaved between any
two disk accesses and atomic actions. The writer guard makes the calls that
got it run one after another, so every moment's tree is explained by the
mutations that published, in that order, and while the guard is free the
disk mounts to it. The guard is an atomic flag that only its holder clears,
so a task killed while it holds the guard leaves the flag set for good.
-/

namespace TuwaiqOS.FsConcurrency

open BlockProgram FsTree TreeCodec TwoSlotStore Checkpoint SlotContents SyncWrites
open CrashConsistency FsService Durability GuardedTasks

/-! ## The writer guard as a guard -/

/-- A guarded call of `fs.rs`. -/
inductive FsCall where
  /-- `create_file_at`, `create_dir_at`, `write_at` or `remove_at`. -/
  | mutation (change : Mutation)
  /-- `sync_to_disk`. -/
  | sync

/-- The routine of a call. -/
def FsCall.routine : FsCall → FsRoutine Unit
  | .mutation change => mutate change
  | .sync => syncToDisk

/-- What a call does under the guard. -/
def FsCall.body : FsCall → FsRoutine Unit
  | .mutation change => mutateBody change.apply
  | .sync => syncBody

/-- `WRITER_ACTIVE` and the calls it protects; they publish the tree. -/
def writerGuard : Guard Sector KernelMemory Tag FsCall (Except String Unit) (Option FsNode) where
  locked := KernelMemory.writerActive
  lock := fun active memory => {memory with writerActive := active}
  acquire := .acquire
  release := .release
  busy := .error "filesystem busy"
  body := fun request => request.body.run
  commits := fun tag => tag=.publish
  view := KernelMemory.fs
  weight := fun request result =>
    match request,result with
    | .mutation _,.ok () => 1
    | _,_ => 0

/-- A body under the guard is a guarded call. -/
theorem withWriterGuard_run (request : FsCall) :
    (withWriterGuard request.body).run=writerGuard.call request := by
  refine congrArg (Program.atomic Tag.acquire _) (funext fun memory => ?_)
  change Program.bind (if memory.writerActive=true then (throw "filesystem busy" : FsRoutine Unit)
    else pure ()).run (ExceptT.bindCont fun _ => do
      let outcome ← Routine.attempt request.body
      release
      Routine.ofExcept outcome)=
    if memory.writerActive=true then .done (.error "filesystem busy")
      else (request.body.run).bind writerGuard.closing
  by_cases hbusy : memory.writerActive=true
  · rw [if_pos hbusy,if_pos hbusy]
    rfl
  · rw [if_neg hbusy,if_neg hbusy]
    exact bind_assoc request.body.run _ _

/-- The calls of `fs.rs` are guarded calls. -/
theorem routine_run (request : FsCall) : request.routine.run=writerGuard.call request := by
  cases request with
  | mutation change => rw [FsCall.routine,mutate_eq]; exact withWriterGuard_run (.mutation change)
  | sync => exact withWriterGuard_run .sync

theorem allowed_of_quiet {tag : Tag} {action : KernelMemory → KernelMemory}
    (hquiet : Quiet tag action) : writerGuard.Allowed tag action :=
  ⟨hquiet.1,hquiet.2.1,fun memory => (hquiet.2.2.2 memory).2,
    fun _ memory => (hquiet.2.2.2 memory).1⟩

theorem allowed_syncTree (root : FsNode) : Routine.Actions writerGuard.Allowed (syncTree root) :=
  Program.actions_mono (fun _ _ => allowed_of_quiet) (quiet_syncTree root)

theorem allowed_snapshot : Routine.Actions writerGuard.Allowed snapshot := by
  refine Routine.actions_bind (Routine.actions_act ⟨nofun,nofun,fun _ => rfl,fun _ _ => rfl⟩)
    fun memory => ?_
  split <;> trivial

theorem allowed_publish (candidate : FsNode) :
    Routine.Actions writerGuard.Allowed (publish candidate) := by
  refine Routine.actions_bind (Routine.actions_act ⟨nofun,nofun,fun _ => rfl,nofun⟩) fun memory => ?_
  split <;> trivial

/-- A sync publishes nothing. -/
theorem tally_syncTree (root : FsNode) (machine : FsMachine) :
    tally writerGuard.commits (syncTree root).run machine=0 := by
  refine tally_zero (Program.actions_mono (fun tag _ hquiet => ?_) (quiet_syncTree root)) machine
  exact decide_eq_false (p := tag=.publish) hquiet.2.2.1

theorem tally_snapshot (machine : FsMachine) :
    tally writerGuard.commits snapshot.run machine=0 := by
  refine tally_zero (Routine.actions_bind (Routine.actions_act rfl) fun memory => ?_) machine
  split <;> trivial

theorem tally_publish (candidate : FsNode) (machine : FsMachine) :
    tally writerGuard.commits (publish candidate).run machine=1 := by
  rw [publish,tally_bind_ok (Routine.perform_act Tag.publish _ machine)]
  split <;> rfl

/-- A mutation publishes once if it succeeds and not at all if it fails. -/
theorem tally_mutateBody (change : FsNode → Except String FsNode) (machine : FsMachine) :
    tally writerGuard.commits (mutateBody change).run machine=
      if (Routine.perform (mutateBody change) machine).1.isOk then 1 else 0 := by
  rcases hfs : machine.memory.fs with _|root
  · have hsnapshot : Routine.perform snapshot machine=
        (.error "filesystem not initialized",machine) := by
      rw [snapshot,Routine.perform_act_bind]
      simp only [hfs]
      rfl
    rw [mutateBody,tally_bind_error hsnapshot,Routine.perform_bind_error hsnapshot,tally_snapshot]
    rfl
  · rw [mutateBody,tally_bind_ok (perform_snapshot hfs),
      Routine.perform_bind_ok (perform_snapshot hfs),tally_snapshot]
    rcases hchange : change root with reason|candidate
    · rfl
    · have hofExcept := @Routine.perform_ofExcept Sector KernelMemory Tag _ (.ok candidate) machine
      rw [tally_bind_ok hofExcept,Routine.perform_bind_ok hofExcept]
      obtain ⟨hkeep,-⟩ := syncTree_keeps candidate machine
      rcases hsync : Routine.perform (syncTree candidate) machine with ⟨reason|_,later⟩
      · rw [tally_bind_error hsync,Routine.perform_bind_error hsync,tally_syncTree]
        rfl
      · rw [hsync] at hkeep
        rw [tally_bind_ok hsync,Routine.perform_bind_ok hsync,tally_syncTree,tally_publish,
          perform_publish (hkeep.trans hfs)]
        rfl

theorem lawful_writerGuard : writerGuard.Lawful where
  locked_lock := fun _ _ => rfl
  lock_same := fun _ => rfl
  view_lock := fun _ _ => rfl
  acquire_ne := nofun
  acquire_silent := rfl
  release_silent := rfl
  body_allowed := fun request => by
    cases request with
    | mutation change =>
      refine Routine.actions_bind allowed_snapshot fun root => ?_
      refine Routine.actions_bind trivial fun candidate => ?_
      exact Routine.actions_bind (allowed_syncTree candidate) fun _ => allowed_publish candidate
    | sync => exact Routine.actions_bind allowed_snapshot allowed_syncTree
  weight_busy := fun request => by cases request <;> rfl
  weight_le := fun request result => by
    cases request <;> cases result <;> simp [writerGuard]
  weight_body := fun request machine => by
    cases request with
    | mutation change =>
      refine (tally_mutateBody change.apply machine).trans ?_
      change _=writerGuard.weight _ (Routine.perform (mutateBody change.apply) machine).1
      rcases (Routine.perform (mutateBody change.apply) machine).1 with reason|_ <;> rfl
    | sync =>
      change tally writerGuard.commits (snapshot>>=syncTree).run machine=0
      rcases hsnapshot : Routine.perform snapshot machine with ⟨reason|root,later⟩
      · rw [tally_bind_error hsnapshot,tally_snapshot]
      · rw [tally_bind_ok hsnapshot,tally_snapshot,tally_syncTree]

/-! ## Killed tasks -/

/-- Tasks that mutate the filesystem. -/
abbrev FsWorld (Task : Type) := World Sector KernelMemory Tag FsCall (Except String Unit) Task

/-- The shell, which is not inside a mutation itself, kills another task. -/
def ShellKills {Task : Type} (shell : Task) (world : FsWorld Task) (victim : Task) : Prop :=
  victim≠shell ∧ world.calls shell=none

/-- `sync_to_disk` leaves the published tree alone. -/
theorem sync_keeps_view : (writerGuard.call .sync).Actions fun _ action =>
    ∀ memory,writerGuard.view (action memory)=writerGuard.view memory := by
  have hsnapshot : Routine.Actions (fun _ action =>
      ∀ memory,writerGuard.view (action memory)=writerGuard.view memory) snapshot := by
    refine Routine.actions_bind (Routine.actions_act fun _ => rfl) fun memory => ?_
    split <;> trivial
  have hbody : (writerGuard.body .sync).Actions fun _ action =>
      ∀ memory,writerGuard.view (action memory)=writerGuard.view memory :=
    Routine.actions_bind hsnapshot fun root =>
      Program.actions_mono (fun _ _ hquiet memory => (hquiet.2.2.2 memory).1) (quiet_syncTree root)
  refine ⟨fun _ => rfl,fun memory => ?_⟩
  dsimp only
  split
  · trivial
  · exact Program.actions_bind hbody fun _ => ⟨fun _ => rfl,fun _ => trivial⟩

/-- Kills by the shell that spare the holder of the guard. -/
def SparesHolder {Task : Type} (shell : Task) (world : FsWorld Task) (victim : Task) : Prop :=
  ShellKills shell world victim ∧ world.holder≠some victim

/-- For any number of tasks, any task switches, disk errors and kills: if no
kill strikes a task between its successful exchange and its drop, the guard
is free whenever no live task is inside a mutation, and the next one gets it. -/
theorem guard_not_orphaned {Task : Type} [DecidableEq Task] {shell : Task} {start : FsMachine}
    (hfree : start.memory.writerActive=false) {world : FsWorld Task}
    (hrun : Run writerGuard (SparesHolder shell) (fun _ => True) start world)
    (houtside : ∀ task,world.terminated task=false → world.calls task=none) :
    world.machine.memory.writerActive=false ∧
      Routine.perform acquire world.machine=(.ok (),setGuard true world.machine) := by
  obtain ⟨-,hguarded⟩ := hrun.orderly lawful_writerGuard (fun _ _ hkill => hkill.2) hfree
  have hunlocked : world.machine.memory.writerActive=false := hguarded.unlocked houtside
  refine ⟨hunlocked,?_⟩
  rw [acquire,Routine.perform_act_bind,hunlocked]
  rfl

/-- A `sync_to_disk` of one task leaves the guard free. -/
theorem guard_not_orphaned_sync :
    ∃ start,Routine.perform init (boot zeroDisk)=(.ok (),start) ∧ ∃ world : FsWorld Bool,
      Run writerGuard (SparesHolder false) (fun _ => True) start world ∧
        world.returned.length=1 ∧ world.machine.memory.writerActive=false := by
  obtain ⟨start,hinit,-,-⟩ := init_zeroDisk
  obtain ⟨tree,hserving⟩ := serving_init (fun h => absurd h notLegacy_zeroDisk) hinit
  obtain ⟨world,hrun,-,hcalls,hreturned⟩ : ∃ world : FsWorld Bool,
      Run writerGuard (SparesHolder false) (fun _ => True) start world ∧ _ :=
    run_call (fun _ _ _ _ => trivial) sync_keeps_view trivial true
  refine ⟨start,hinit,world,hrun,by rw [hreturned]; rfl,?_⟩
  exact (guard_not_orphaned hserving.free hrun fun task _ => by rw [hcalls]).1

/-- The shell kills a task that has just taken the guard. No live task is
inside a mutation, and from then on every mutation fails. -/
theorem killed_holder_orphans_guard :
    ∃ start : FsMachine,Routine.perform init (boot zeroDisk)=(.ok (),start) ∧
      ∃ world : FsWorld Bool,Run writerGuard (ShellKills false) (fun _ => True) start world ∧
        (∀ task,world.terminated task=false → world.calls task=none) ∧
        ∀ later : FsWorld Bool,
          Relation.ReflTransGen (Step writerGuard (ShellKills false)) world later →
            later.machine.memory.writerActive=true ∧ ∀ request : FsCall,
              (Routine.perform request.routine later.machine).1=.error "filesystem busy" := by
  obtain ⟨start,hinit,-,-⟩ := init_zeroDisk
  obtain ⟨tree,hserving⟩ := serving_init (fun h => absurd h notLegacy_zeroDisk) hinit
  obtain ⟨world,hrun,houtside,horphaned⟩ : ∃ world : FsWorld Bool,
      Run writerGuard (ShellKills false) (fun _ => True) start world ∧ _ :=
    run_orphaned lawful_writerGuard hserving.free (fun _ => trivial) true
      (.mutation (.createDir ['/','a'])) fun world hothers => ⟨nofun,hothers false nofun⟩
  refine ⟨start,hinit,world,hrun,houtside,fun later hsteps => ?_⟩
  have hlocked := horphaned.forever lawful_writerGuard hsteps
  refine ⟨hlocked,fun request => ?_⟩
  rw [Routine.perform,routine_run]
  exact run_busy hlocked request

/-! ## Linearizable mutations -/

/-- What a call does to the tree. -/
def FsCall.apply : FsCall → FsNode → Except String FsNode
  | .mutation change,tree => change.apply tree
  | .sync,tree => .ok tree

/-- The calls applied one after another. -/
def replay : FsNode → List (ℕ×FsCall) → Except String FsNode
  | tree,[] => .ok tree
  | tree,call::rest => do
    let next ← call.2.apply tree
    replay next rest

theorem replay_append (tree : FsNode) (first second : List (ℕ×FsCall)) :
    replay tree (first++second)=(do let next ← replay tree first; replay next second) := by
  induction first generalizing tree with
  | nil => rfl
  | cons call rest ih =>
    rw [List.cons_append,replay,replay,bind_assoc]
    exact congrArg _ (funext ih)

variable {machine : FsMachine} {tree : FsNode}

/-- A `sync_to_disk` that can be planned is acknowledged, and only then. -/
theorem perform_syncToDisk (hidle : Idle machine tree) :
    Routine.perform syncToDisk machine=
      match planned tree machine.memory with
      | .error reason => (.error reason,machine)
      | .ok (blob,_,_) => (.ok (),acknowledged machine blob tree) := by
  have hrestore : setGuard false (setGuard true machine)=machine := by
    rw [setGuard,setGuard,← hidle.free]
  have hsnapshot : Routine.perform snapshot (setGuard true machine)=
      (.ok tree,setGuard true machine) := perform_snapshot hidle.published
  rw [syncToDisk,perform_withWriterGuard hidle.free,syncBody,Routine.perform_bind_ok hsnapshot]
  rcases hplan : planned tree machine.memory with reason|⟨blob,generation,target⟩
  · rw [perform_syncTree_error (by exact hplan),hrestore]
  · rw [perform_syncTree_ok (by exact hidle.healthy) (by exact hplan)]
    simp only [acknowledged,synced,syncedMemory,setGuard,hidle.published]
    rfl

/-- Without disk errors a call either fails and changes nothing, or is
acknowledged with its payload on disk. -/
theorem routine_cases (hidle : Idle machine tree) (request : FsCall) :
    (∃ reason,Routine.perform request.routine machine=(.error reason,machine)) ∨
      ∃ candidate blob,request.apply tree=.ok candidate ∧ serializeTree candidate=.ok blob ∧
        0<blob.length ∧ blob.length ≤ maxMetadataBytes ∧ machine.memory.generation+1<2^64 ∧
        Routine.perform request.routine machine= (.ok (),acknowledged machine blob candidate) := by
  cases request with
  | mutation change => exact mutate_cases hidle change
  | sync =>
    have hsync := perform_syncToDisk hidle
    rcases hplan : planned tree machine.memory with reason|⟨blob,generation,target⟩
    · rw [hplan] at hsync
      exact Or.inl ⟨reason,hsync⟩
    · rw [hplan] at hsync
      obtain ⟨hblob,hfit,hnext,-,-⟩ := planned_ok.mp hplan
      have hlength := (decodePayload_serializeTree hblob).1
      exact Or.inr ⟨tree,blob,rfl,hblob,by omega,hfit,hnext,hsync⟩

/-- The published tree round-trips. -/
def RoundTripping (machine : FsMachine) : Prop :=
  ∀ tree,machine.memory.fs=some tree → RoundTrips tree

/-- The round-trip condition reads the published tree only. -/
theorem roundTripping_congr {first second : FsMachine}
    (hsame : writerGuard.view first.memory=writerGuard.view second.memory)
    (hfirst : RoundTripping first) : RoundTripping second :=
  fun tree htree => hfirst tree (hsame.trans htree)

theorem roundTripping_idle (hidle : Idle machine tree)
    (hround : RoundTrips tree) : RoundTripping machine := by
  intro found hfound
  rw [← Option.some.inj (hidle.published.symm.trans hfound)]
  exact hround

/-- Calls that ran one after another apply their commits to the tree, and
keep the volume in step with it. -/
theorem serial_replay {start last : FsMachine} {initial : FsNode} (hidle : Idle start initial)
    {entries : List (Entry FsCall (Except String Unit))}
    (hserial : Serial writerGuard RoundTripping start entries last) :
    ∃ tree,Idle last tree ∧ replay initial (writerGuard.commitsOf entries)=.ok tree ∧
      (Volume start initial → Volume last tree) := by
  induction hserial with
  | nil => exact ⟨initial,hidle,rfl,fun hvolume => hvolume⟩
  | refused _ id request ih =>
    obtain ⟨tree,hlast,hreplay,hvolume⟩ := ih
    refine ⟨tree,hlast,?_,hvolume⟩
    rw [commitsOf_append,lawful_writerGuard.weight_busy,List.replicate_zero,List.append_nil]
    exact hreplay
  | @performed entries machine later result _ id request hfree hrun hkeep ih =>
    obtain ⟨tree,hlast,hreplay,hvolume⟩ := ih
    rw [← routine_run] at hrun
    rcases routine_cases hlast request with ⟨reason,hfail⟩|
      ⟨candidate,blob,happly,hblob,hlength,hfit,hnext,hok⟩
    · cases hrun.symm.trans hfail
      refine ⟨tree,hlast,?_,hvolume⟩
      have hweight : writerGuard.weight request (.error reason)=0 := by cases request <;> rfl
      rw [commitsOf_append,hweight,List.replicate_zero,List.append_nil]
      exact hreplay
    · cases hrun.symm.trans hok
      refine ⟨candidate,⟨rfl,rfl,hlast.healthy⟩,?_,fun hstart => ?_⟩
      · rw [commitsOf_append,replay_append,hreplay]
        cases request with
        | mutation change =>
          change (do let next ← change.apply tree; Except.ok next)=_
          rw [show change.apply tree=_ from happly]
          rfl
        | sync =>
          cases happly
          rfl
      · have hdecode := (RoundTrips.decode (hkeep candidate rfl) hblob).2
        have hmounted := synced_volume (hvolume hstart) hlength hfit hnext hdecode
        exact Or.inl (mounted_of_same hmounted rfl rfl rfl rfl hmounted.healthy)

/-- After `init` the kernel is between two calls, and its tree round-trips. -/
theorem idle_init {disk : Disk} (hinit : Routine.perform init (boot disk)=(.ok (),machine)) :
    ∃ tree,Idle machine tree ∧ RoundTrips tree := by
  obtain ⟨children,mounted,hmount,rfl⟩ := mount_of_init hinit
  refine ⟨.dir children,?_⟩
  by_cases hlegacy : V2Superblock (disk superblockLba)
  · have hresult := @perform_mount_v2 (boot disk) hlegacy
    rw [hmount] at hresult
    obtain ⟨hstored,rfl⟩ := Prod.mk.inj hresult
    obtain ⟨htree,hfew⟩ := legacyTree_treeOk hstored.symm
    exact ⟨⟨rfl,rfl,rfl⟩,(roundTrips_iff htree).mpr hfew⟩
  · obtain ⟨hfree,hmounted⟩ := mount_mounted hlegacy hmount
    obtain ⟨htree,hfew⟩ := holdsV3_treeOk hmounted.holds
    exact ⟨⟨rfl,hfree,hmounted.healthy⟩,(roundTrips_iff htree).mpr hfew⟩

theorem weight_eq_zero_iff (change : Mutation) (result : Except String Unit) :
    writerGuard.weight (.mutation change) result≠0 ↔ result=.ok () := by
  cases result with
  | error reason => exact ⟨fun h => absurd rfl h,nofun⟩
  | ok _ => exact ⟨fun _ => rfl,fun _ => Nat.one_ne_zero⟩

/-- Linearizable mutations. For any number of tasks whose calls are
interleaved between any two disk accesses and atomic actions, without kills
and disk errors, and with published trees that round-trip: at every moment
the published tree is the initial one with the calls that published applied
in that order; they are distinct calls, a mutation that returned is among
them exactly if it returned `Ok`, and each of them returned or holds the
guard. Whenever the guard is free, a fresh mount returns the published tree,
provided that the disk was not a legacy volume over a valid first slot. -/
theorem mutations_linearizable {disk : Disk} {start : FsMachine}
    (hinit : Routine.perform init (boot disk)=(.ok (),start)) {Task : Type} [DecidableEq Task]
    {world : FsWorld Task} (hrun : Run writerGuard (fun _ _ => False) RoundTripping start world) :
    ∃ initial tree,start.memory.fs=some initial ∧ world.machine.memory.fs=some tree ∧
      replay initial world.committed=.ok tree ∧ (world.committed.map Prod.fst).Nodup ∧
      (∀ entry∈world.returned,∀ change,entry.request=.mutation change →
        ((entry.id,entry.request)∈world.committed ↔ entry.result=.ok ())) ∧
      (∀ id request,(id,request)∈world.committed →
        (∃ entry∈world.returned,entry.id=id ∧ entry.request=request ∧ entry.result=.ok ()) ∨
          ∃ task call,world.holder=some task ∧ world.calls task=some call ∧ call.id=id ∧
            call.request=request) ∧
      ((V2Superblock (disk superblockLba) →
          (Routine.perform (loadCheckpoint 0) (boot disk)).1=.ok none) →
        world.machine.memory.writerActive=false →
          (Routine.perform mount (boot world.machine.disk)).1=.ok tree) := by
  obtain ⟨initial,hidle,hround⟩ := idle_init hinit
  obtain ⟨hnumbered,hguarded⟩ := hrun.orderly lawful_writerGuard (fun _ _ h => h.elim) hidle.free
  have hkeep : RoundTripping world.machine := hrun.keeps (roundTripping_idle hidle hround)
  obtain ⟨entries,last,hserial,hview,hcommitted⟩ := hguarded.explained lawful_writerGuard
    (fun _ _ => roundTripping_congr) hkeep
  obtain ⟨tree,hlast,hreplay,-⟩ := serial_replay hidle hserial
  have hpublished : world.machine.memory.fs=some tree := hview.trans hlast.published
  refine ⟨initial,tree,hidle.published,hpublished,?_,hguarded.nodup_committed lawful_writerGuard
    hnumbered,?_,?_,?_⟩
  · rw [hcommitted]
    exact hreplay
  · intro entry hentry change hchange
    have hiff := hguarded.committed_iff hnumbered hentry
    rw [hiff,hchange,weight_eq_zero_iff]
  · intro id request hmem
    rcases hguarded.mem_committed hmem with ⟨entry,hentry,hid,hrequest,hweight⟩|hholder
    · refine Or.inl ⟨entry,hentry,hid,hrequest,?_⟩
      obtain ⟨number,asked,result⟩ := entry
      cases asked with
      | mutation change => exact (weight_eq_zero_iff change result).mp hweight
      | sync => exact absurd rfl hweight
    · exact Or.inr hholder
  · intro hslot hunlocked
    obtain ⟨served,hserving⟩ := serving_init (fun h => slotValue_of_load (hslot h)) hinit
    have hsame : initial=served := Option.some.inj (hidle.published.symm.trans hserving.published)
    subst hsame
    obtain ⟨found,hfound,-,hvolume⟩ := serial_replay hidle (hguarded.settled hunlocked).serial
    rw [← Option.some.inj (hfound.published.symm.trans hpublished)]
    exact volume_mounts (hvolume hserving.volume)

/-- One task syncs a freshly formatted volume, which then mounts to the
published tree. -/
theorem mutations_linearizable_sync :
    ∃ start,Routine.perform init (boot zeroDisk)=(.ok (),start) ∧ ∃ world : FsWorld Bool,
      Run writerGuard (fun _ _ => False) RoundTripping start world ∧
        world.returned=[⟨0,.sync,.ok ()⟩] ∧ ∃ tree,world.machine.memory.fs=some tree ∧
          (Routine.perform mount (boot world.machine.disk)).1=.ok tree := by
  obtain ⟨start,hinit,hpublished,hgeneration⟩ := init_zeroDisk
  obtain ⟨tree,hidle,hround⟩ := idle_init hinit
  have htree : tree=emptyRoot := Option.some.inj (hidle.published.symm.trans hpublished)
  subst htree
  have hplan : planned emptyRoot start.memory=.ok (treeMagic,2,other start.memory.activeSlot) := by
    rw [planned,hgeneration]
    rfl
  have hsync : Routine.perform syncToDisk start=(.ok (),acknowledged start treeMagic emptyRoot) := by
    rw [perform_syncToDisk hidle,hplan]
  obtain ⟨world,hrun,hmachine,-,hreturned⟩ : ∃ world : FsWorld Bool,
      Run writerGuard (fun _ _ => False) RoundTripping start world ∧ _ :=
    run_call (fun _ _ => roundTripping_congr) sync_keeps_view (roundTripping_idle hidle hround) true
  rw [← routine_run] at hmachine hreturned
  change world.machine=(Routine.perform syncToDisk start).2 at hmachine
  change world.returned=[⟨0,.sync,(Routine.perform syncToDisk start).1⟩] at hreturned
  rw [hsync] at hmachine hreturned
  obtain ⟨-,found,-,hfound,-,-,-,-,hmount⟩ := mutations_linearizable hinit hrun
  refine ⟨start,hinit,world,hrun,hreturned,found,hfound,hmount ?_ ?_⟩
  · exact fun h => absurd h notLegacy_zeroDisk
  · rw [hmachine]
    rfl

/-- One task syncs a legacy volume over an old checkpoint. The call returns
`Ok` and the guard is free, but the disk mounts to the old tree. -/
theorem sync_unpublishes_tree :
    ∃ start,Routine.perform init (boot staleDisk)=(.ok (),start) ∧ ∃ world : FsWorld Bool,
      Run writerGuard (fun _ _ => False) RoundTripping start world ∧
        world.returned=[⟨0,.sync,.ok ()⟩] ∧ world.machine.memory.writerActive=false ∧
        world.machine.memory.fs=some emptyRoot ∧
        (Routine.perform mount (boot world.machine.disk)).1=.ok oneDir ∧ oneDir≠emptyRoot := by
  have hmount : Routine.perform mount (boot staleDisk)=(.ok emptyRoot,mountedLegacy staleDisk) := by
    rw [perform_mount_v2 (by exact v2_staleDisk)]
    exact congrArg (·,mountedLegacy staleDisk) (loadTreeAt_legacyOver
      (applyWrites (checkpointWrites 0 1 oneDirBlob) zeroDisk))
  have hinit := perform_init hmount
  obtain ⟨tree,hidle,hround⟩ := idle_init hinit
  have htree : emptyRoot=tree := Option.some.inj hidle.published
  subst htree
  have hsync : Routine.perform syncToDisk _=(.ok (),acknowledged _ treeMagic emptyRoot) :=
    perform_syncToDisk hidle
  obtain ⟨world,hrun,hmachine,-,hreturned⟩ : ∃ world : FsWorld Bool,
      Run writerGuard (fun _ _ => False) RoundTripping _ world ∧ _ :=
    run_call (fun _ _ => roundTripping_congr) sync_keeps_view (roundTripping_idle hidle hround) true
  rw [← routine_run] at hmachine hreturned
  change world.machine=(Routine.perform syncToDisk _).2 at hmachine
  change world.returned=[⟨0,.sync,(Routine.perform syncToDisk _).1⟩] at hreturned
  rw [hsync] at hmachine hreturned
  refine ⟨_,hinit,world,hrun,hreturned,by rw [hmachine]; rfl,by rw [hmachine]; rfl,?_,
    oneDir_ne_emptyRoot⟩
  have hdecode := (RoundTrips.decode roundTrips_emptyRoot rfl).2
  have hshown := @legacy_synced staleDisk treeMagic (by decide) (by decide) emptyRoot hdecode
  rw [slotValue_staleDisk] at hshown
  rw [hmachine]
  exact hshown

end TuwaiqOS.FsConcurrency
