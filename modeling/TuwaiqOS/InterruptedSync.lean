import TuwaiqOS.CrashConsistency

/-!
# The injected power loss

`sync_tree_interrupted` writes a checkpoint and stops after some payload
sectors. It compares the number it was given with each sector it has written,
so it stops only if that number is one of them. For zero, and for more
sectors than the payload has, the committed header is written as well, and
the next mount shows a tree that was never acknowledged.
-/

namespace TuwaiqOS.InterruptedSync

open BlockProgram FsTree TreeCodec TwoSlotStore Checkpoint SlotContents SyncWrites CrashConsistency

variable {slot generation : ℕ} {blob : List UInt8}

/-- The interruption falls on one of the payload's sectors. -/
def Interrupts (dataSectors : ℕ) (blob : List UInt8) : Prop :=
  1 ≤ dataSectors ∧ dataSectors ≤ (blob.length+511)/512

/-- The payload loop stops behind the sector it was told. -/
theorem writePayload_inside (lba : ℕ) (blob : List UInt8) {dataSectors count index : ℕ}
    (hlow : index<dataSectors) (hhigh : dataSectors ≤ index+count) :
    writePayload lba blob (some dataSectors) count index=
      writePayload lba blob none (dataSectors-index) index>>=fun _ =>
        throw "injected interrupted checkpoint" := by
  induction count generalizing index with
  | zero => omega
  | succ count ih =>
    obtain ⟨left,hleft⟩ : ∃ left,dataSectors-index=left+1 := ⟨dataSectors-index-1,by omega⟩
    rw [hleft,writePayload,writePayload]
    simp only [Option.some.injEq,reduceCtorEq,if_false,bind_assoc]
    by_cases hnow : dataSectors=index+1
    · rw [show left=0 by omega]
      simp only [if_pos hnow,writePayload,pure_bind]
    · simp only [if_neg hnow]
      rw [ih (by omega) (by omega),show dataSectors-(index+1)=left by omega]

/-- A sector that the loop does not reach does not stop it. -/
theorem writePayload_outside (lba : ℕ) (blob : List UInt8) {dataSectors count index : ℕ}
    (houtside : ¬(index<dataSectors ∧ dataSectors ≤ index+count)) :
    writePayload lba blob (some dataSectors) count index=writePayload lba blob none count index := by
  induction count generalizing index with
  | zero => rfl
  | succ count ih =>
    rw [writePayload,writePayload,ih (by omega)]
    simp only [Option.some.injEq,reduceCtorEq,if_false]
    simp only [show dataSectors≠index+1 by omega,if_false]

/-- An interrupted checkpoint is a proper prefix of its writes. -/
theorem writeCheckpoint_inside (hslot : slot<2) (hfit : blob.length ≤ maxMetadataBytes)
    {dataSectors : ℕ} (hinside : Interrupts dataSectors blob) :
    writeCheckpoint slot generation blob (some dataSectors)=
      Routine.writeAll ((checkpointWrites slot generation blob).take (dataSectors+1))>>=fun _ =>
        throw "injected interrupted checkpoint" := by
  have htake : (payloadWrites slot blob).take dataSectors=(List.range dataSectors).map
      fun step => (slotStart slot+1+(0+step),Sector.ofBlob blob (0+step)) := by
    simp only [payloadWrites,← List.map_take,List.take_range,Nat.zero_add,min_eq_left hinside.2]
  have hcount : dataSectors ≤ (payloadWrites slot blob).length := by
    rw [payloadWrites,List.length_map,List.length_range]
    exact hinside.2
  rw [writeCheckpoint_parts hslot generation hfit,
    writePayload_inside _ _ hinside.1 (by rw [Nat.zero_add]; exact hinside.2),Nat.sub_zero,
    writePayload_eq,checkpointWrites,List.take_succ_cons,List.take_append_of_le_length hcount,
    htake,Routine.writeAll]
  simp only [bind_assoc]
  rfl

/-- Otherwise the whole checkpoint is written. -/
theorem writeCheckpoint_outside (hslot : slot<2) (hfit : blob.length ≤ maxMetadataBytes)
    {dataSectors : ℕ} (houtside : ¬Interrupts dataSectors blob) :
    writeCheckpoint slot generation blob (some dataSectors)=
      Routine.writeAll (checkpointWrites slot generation blob) := by
  rw [← writeCheckpoint_eq hslot generation hfit,writeCheckpoint_parts hslot generation hfit,
    writeCheckpoint_parts hslot generation hfit,
    writePayload_outside _ _ (by rw [Nat.zero_add]; exact houtside)]

variable {machine : FsMachine} {tree next found : FsNode} {dataSectors : ℕ}

/-- The interruption does not stop the sync of `next`, which commits
`found`. -/
def Commits (memory : KernelMemory) (next : FsNode) (dataSectors : ℕ) (found : FsNode) : Prop :=
  ∃ blob generation target,planned next memory=.ok (blob,generation,target) ∧
    ¬Interrupts dataSectors blob ∧ decodePayload blob=some found

/-- Under any faults the checkpoint leaves a prefix of its writes, without
the committed header if it is interrupted. -/
theorem perform_writeCheckpoint_landing (hslot : slot<2) (hfit : blob.length ≤ maxMetadataBytes)
    (generation dataSectors : ℕ) (machine : FsMachine) :
    ∃ landed fates answer,
      Routine.perform (writeCheckpoint slot generation blob (some dataSectors)) machine=
        (answer,{Routine.stored ((checkpointWrites slot generation blob).take landed) machine with
          fates := fates}) ∧
      (Interrupts dataSectors blob → landed<(checkpointWrites slot generation blob).length) ∧
      (machine.fates=[] → ¬Interrupts dataSectors blob →
        landed=(checkpointWrites slot generation blob).length) := by
  by_cases hinside : Interrupts dataSectors blob
  · obtain ⟨fates,hwrite⟩ := @Routine.perform_writeAll_landing Sector KernelMemory Tag
      ((checkpointWrites slot generation blob).take (dataSectors+1)) machine
    rw [List.take_take] at hwrite
    rw [writeCheckpoint_inside hslot hfit hinside,Routine.perform_bind,hwrite,
      length_checkpointWrites]
    rcases Routine.landing machine.fates _ with ⟨answer,landed⟩
    have hbelow : min landed (dataSectors+1)<(blob.length+511)/512+2 := by
      have hsectors := hinside.2
      omega
    cases answer <;> exact ⟨_,fates,_,rfl,fun _ => hbelow,fun _ h => absurd hinside h⟩
  · obtain ⟨fates,hwrite⟩ := @Routine.perform_writeAll_landing Sector KernelMemory Tag
      (checkpointWrites slot generation blob) machine
    rw [writeCheckpoint_outside hslot hfit hinside]
    refine ⟨_,fates,_,hwrite,fun h => absurd h hinside,fun hfates _ => Routine.landing_ok ?_⟩
    rw [Routine.perform_writeAll _ hfates] at hwrite
    exact (congrArg Prod.fst hwrite).symm

/-- The machine after the injected power loss. -/
def interrupted (machine : FsMachine) (next : FsNode) (dataSectors : ℕ) : FsMachine :=
  (Routine.perform (syncTreeInterrupted next dataSectors) machine).2

/-- What the next mount of a disk returns. -/
def remounted (disk : Disk) : Except String FsNode := (Routine.perform mount (boot disk)).1

theorem remounted_of_holds {disk : Disk} (hholds : HoldsV3 disk tree) : remounted disk=.ok tree := by
  obtain ⟨later,hmount,-⟩ := mount_of_holdsV3 hholds
  rw [remounted,hmount]

/-- Under any faults an interrupted sync leaves the memory as it was and a
prefix of its writes on the disk. -/
theorem perform_syncTreeInterrupted {generation target : ℕ}
    (hplan : planned next machine.memory=.ok (blob,generation,target)) (dataSectors : ℕ) :
    ∃ landed,(interrupted machine next dataSectors).memory=machine.memory ∧
      (interrupted machine next dataSectors).disk=
        applyWrites ((checkpointWrites target generation blob).take landed) machine.disk ∧
      (Interrupts dataSectors blob → landed<(checkpointWrites target generation blob).length) ∧
      (machine.fates=[] → ¬Interrupts dataSectors blob →
        landed=(checkpointWrites target generation blob).length) := by
  obtain ⟨-,hfit,-,rfl,rfl⟩ := planned_ok.mp hplan
  have hfirst := perform_planSync next machine
  rw [hplan] at hfirst
  obtain ⟨landed,fates,answer,hwrite,hlanded⟩ := perform_writeCheckpoint_landing
    (other_lt machine.memory.activeSlot) hfit (machine.memory.generation+1) dataSectors machine
  refine ⟨landed,?_⟩
  rw [interrupted,syncTreeInterrupted,Routine.perform_bind_ok hfirst]
  dsimp only
  rw [Routine.perform_bind_ok (Routine.perform_attempt _ machine),hwrite]
  cases answer <;> exact ⟨rfl,rfl,hlanded⟩

/-- Without errors the disk then holds what was committed. -/
theorem holds_of_commits (hmounted : Mounted machine tree)
    (hcommits : Commits machine.memory next dataSectors found) :
    HoldsV3 (interrupted machine next dataSectors).disk found := by
  obtain ⟨blob,generation,target,hplan,houtside,hdecode⟩ := hcommits
  obtain ⟨landed,-,hdisk,-,hall⟩ := perform_syncTreeInterrupted hplan dataSectors
  obtain ⟨hblob,hfit,hnext,rfl,rfl⟩ := planned_ok.mp hplan
  have hlength := (decodePayload_serializeTree hblob).1
  rw [hdisk,hall hmounted.healthy houtside,List.take_length,← hmounted.syncWrites_eq]
  exact (hmounted.synced_mounted (by omega) hfit hnext hdecode).holds

/-- Under any faults the counters stay, and the disk holds the old tree if no
other one is committed. -/
theorem holds_unless_commits (hmounted : Mounted machine tree) (faults : List WriteFate)
    (next : FsNode) (dataSectors : ℕ) :
    (interrupted {machine with fates := faults} next dataSectors).memory=machine.memory ∧
      ((∀ found,Commits machine.memory next dataSectors found → found=tree) →
        HoldsV3 (interrupted {machine with fates := faults} next dataSectors).disk tree) := by
  rcases hplan : planned next machine.memory with reason|⟨blob,generation,target⟩
  · have hfirst := perform_planSync next {machine with fates := faults}
    rw [show planned next _=_ from hplan] at hfirst
    rw [interrupted,syncTreeInterrupted,Routine.perform_bind_error hfirst]
    exact ⟨rfl,fun _ => hmounted.holds⟩
  · obtain ⟨landed,hmemory,hdisk,hinside,-⟩ := @perform_syncTreeInterrupted blob
      {machine with fates := faults} next generation target hplan dataSectors
    obtain ⟨hblob,hfit,hnext,rfl,rfl⟩ := planned_ok.mp hplan
    have hlength := (decodePayload_serializeTree hblob).1
    rw [← hmounted.syncWrites_eq] at hdisk hinside
    refine ⟨hmemory,fun hsame => ?_⟩
    rw [hdisk]
    by_cases hpart : landed<(syncWrites machine.memory blob).length
    · obtain ⟨hsuper,hcurrent⟩ := hmounted.prefix_current hfit hpart
      exact ⟨hsuper,hcurrent.selected⟩
    · rw [List.take_of_length_le (not_lt.mp hpart)]
      rcases hdecode : decodePayload blob with _|found
      · obtain ⟨hsuper,hcurrent⟩ :=
          hmounted.synced_undecodable (by omega) hfit hnext hdecode
        exact ⟨hsuper,hcurrent.selected⟩
      · rw [← hsame found ⟨blob,_,_,hplan,fun h => hpart (hinside h),hdecode⟩]
        exact (hmounted.synced_mounted (by omega) hfit hnext hdecode).holds

/-- The injected power loss on a mounted version 3 volume, whatever errors the
disk reports. The counters in memory stay as they are. The next mount returns
the tree from before if the interruption falls on a payload sector, if the
sync is refused, or if what it commits is that tree. If it commits another
tree and the disk has no errors, the next mount returns that one. -/
theorem interrupted_sync (hmounted : Mounted machine tree) (faults : List WriteFate)
    (next : FsNode) (dataSectors : ℕ) :
    (interrupted {machine with fates := faults} next dataSectors).memory=machine.memory ∧
      ((∀ found,Commits machine.memory next dataSectors found → found=tree) →
        remounted (interrupted {machine with fates := faults} next dataSectors).disk=.ok tree) ∧
      ∀ found,Commits machine.memory next dataSectors found →
        remounted (interrupted machine next dataSectors).disk=.ok found := by
  obtain ⟨hmemory,hholds⟩ := holds_unless_commits hmounted faults next dataSectors
  exact ⟨hmemory,fun hsame => remounted_of_holds (hholds hsame),
    fun found hcommits => remounted_of_holds (holds_of_commits hmounted hcommits)⟩

/-- The kernel that mounted a freshly formatted volume. -/
def formatted : FsMachine :=
  {boot (applyWrites formatWrites zeroDisk) with memory := mountedMemory .boot 0 1}

theorem mounted_formatted : Mounted formatted emptyRoot := by
  obtain ⟨hsuper,hpick⟩ := @formatted_current zeroDisk rfl
  exact ⟨hsuper,.of_pick hpick,rfl,rfl⟩

/-- A sync of one directory that is stopped after the first payload sector. -/
theorem interrupted_sync_one :
    remounted (interrupted {formatted with fates := []} oneDir 1).disk=.ok emptyRoot := by
  refine (interrupted_sync mounted_formatted [] oneDir 1).2.1 fun found hcommits => ?_
  obtain ⟨blob,_,_,hplan,houtside,-⟩ := hcommits
  have hblob := (planned_ok.mp hplan).1
  rw [serializeTree_oneDir] at hblob
  cases hblob
  exact absurd ⟨le_rfl,by decide⟩ houtside

/-- Stopped after zero sectors, the same sync commits the directory. -/
theorem zero_sectors_commit :
    Mounted formatted emptyRoot ∧ oneDir≠emptyRoot ∧
      remounted (interrupted formatted oneDir 0).disk=.ok oneDir := by
  have hcommits : Commits formatted.memory oneDir 0 oneDir :=
    ⟨oneDirBlob,2,1,rfl,fun h => absurd h.1 (by decide),
      (RoundTrips.decode roundTrips_oneDir serializeTree_oneDir).2⟩
  exact ⟨mounted_formatted,oneDir_ne_emptyRoot,
    remounted_of_holds (holds_of_commits mounted_formatted hcommits)⟩

end TuwaiqOS.InterruptedSync
