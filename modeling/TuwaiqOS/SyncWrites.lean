import TuwaiqOS.SlotContents

/-!
# The sector writes of a sync and every prefix of them

Without disk errors `sync_tree` writes a fixed list of sectors: the
uncommitted header, the payload and the committed header of the inactive
slot, and on a legacy volume the new superblock. After a proper prefix of
the checkpoint writes the slot is invalid; after all of them it holds the
new tree. The other slot and the superblock never change.
-/

namespace TuwaiqOS.SyncWrites

open BlockProgram FallibleSteps FsTree TreeCodec TwoSlotStore Checkpoint SlotContents

/-- The sectors of a payload with their addresses. -/
def payloadWrites (slot : ℕ) (blob : List UInt8) : List (ℕ×Sector) :=
  (List.range ((blob.length+511)/512)).map fun index =>
    (slotStart slot+1+index,Sector.ofBlob blob index)

/-- All writes of `write_checkpoint`, in program order. -/
def checkpointWrites (slot generation : ℕ) (blob : List UInt8) : List (ℕ×Sector) :=
  (slotStart slot,headerSector generation blob false)::
    (payloadWrites slot blob++[(slotStart slot,headerSector generation blob true)])

/-- All writes of `sync_tree`, in program order. -/
def syncWrites (memory : KernelMemory) (blob : List UInt8) : List (ℕ×Sector) :=
  checkpointWrites (other memory.activeSlot) (memory.generation+1) blob++
    if memory.formatVersion=version then [] else [(superblockLba,buildSuperblock)]

/-- The memory after a sync that returned `Ok`. -/
def syncedMemory (memory : KernelMemory) : KernelMemory :=
  {memory with formatVersion := version,activeSlot := other memory.activeSlot,
               generation := memory.generation+1}

/-! ## The routines as lists of writes -/

theorem writePayload_eq (lba : ℕ) (blob : List UInt8) (count index : ℕ) :
    writePayload lba blob none count index= Routine.writeAll ((List.range count).map fun step =>
        (lba+1+(index+step),Sector.ofBlob blob (index+step))) := by
  induction count generalizing index with
  | zero => rfl
  | succ count ih =>
    rw [writePayload,List.range_succ_eq_map,List.map_cons,List.map_map,Routine.writeAll]
    simp only [reduceCtorEq,if_false,ih,Nat.add_zero]
    congr 2
    funext _
    congr 1
    apply List.map_congr_left
    intro step _
    simp only [Function.comp_apply,Nat.succ_eq_add_one,Nat.add_assoc,Nat.add_comm 1 step]

/-- A checkpoint is a header, the payload and the committed header. -/
theorem writeCheckpoint_parts {slot : ℕ} (hslot : slot<2) (generation : ℕ) {blob : List UInt8}
    (hfit : blob.length ≤ maxMetadataBytes) (interruptAfter : Option ℕ) :
    writeCheckpoint slot generation blob interruptAfter=(do
      Routine.writeBlock (slotStart slot) (headerSector generation blob false)
      writePayload (slotStart slot) blob interruptAfter ((blob.length+511)/512) 0
      Routine.writeBlock (slotStart slot) (headerSector generation blob true)) := by
  have hlength : blob.length<2^32 := lt_of_le_of_lt hfit (by decide)
  have hheader : ∀ committed,checkpointHeader generation blob committed=
      .ok (headerSector generation blob committed) := fun committed => if_pos hlength
  have hok : ∀ {α : Type} (value : α),
      (Routine.ofExcept (.ok value) : FsRoutine α)=pure value := fun _ => rfl
  rw [writeCheckpoint,slotLba_eq hslot,hok,pure_bind,hheader,hheader,hok,hok]
  simp only [pure_bind]

/-- Without interruption a checkpoint is a list of writes. -/
theorem writeCheckpoint_eq {slot : ℕ} (hslot : slot<2) (generation : ℕ) {blob : List UInt8}
    (hfit : blob.length ≤ maxMetadataBytes) : writeCheckpoint slot generation blob none=
      Routine.writeAll (checkpointWrites slot generation blob) := by
  rw [writeCheckpoint_parts hslot generation hfit,writePayload_eq,checkpointWrites,
    Routine.writeAll,Routine.writeAll_append]
  simp only [Nat.zero_add,payloadWrites,Routine.writeAll,bind_pure_unit]

/-- What `sync_tree` decides before its first write. -/
def planned (root : FsNode) (memory : KernelMemory) : Except String (List UInt8×ℕ×ℕ) := do
  let blob ← serializeTree root
  if blob.length>maxMetadataBytes then .error "filesystem metadata too large"
  else if memory.generation+1<2^64 then
    .ok (blob,memory.generation+1,other memory.activeSlot)
  else .error "checkpoint generation exhausted"

theorem perform_planSync (root : FsNode) (machine : FsMachine) :
    Routine.perform (planSync root) machine=(planned root machine.memory,machine) := by
  rw [planSync,planned]
  rcases serializeTree root with reason|blob
  · rfl
  · rw [Routine.perform_bind_ok (Routine.perform_ofExcept (.ok blob) machine)]
    change Routine.perform (if blob.length>maxMetadataBytes then _ else _) machine=
      (if blob.length>maxMetadataBytes then _ else _,machine)
    split
    · rfl
    · rw [Routine.perform_act_bind]
      dsimp only [id]
      split
      · rfl
      · rfl

variable {root : FsNode} {machine : FsMachine} {write : ℕ×Sector}

/-- A plan is the blob of the tree, the next generation and the inactive
slot. -/
theorem planned_ok {memory : KernelMemory} {blob : List UInt8} {generation target : ℕ} :
    planned root memory=.ok (blob,generation,target) ↔
      serializeTree root=.ok blob ∧ blob.length ≤ maxMetadataBytes ∧
        memory.generation+1<2^64 ∧ generation=memory.generation+1 ∧
        target=other memory.activeSlot := by
  rw [planned,bind_ok_iff]
  constructor
  · rintro ⟨found,hfound,hplan⟩
    split at hplan
    · cases hplan
    · split at hplan
      · rename_i hfit hnext
        cases hplan
        exact ⟨hfound,not_lt.mp hfit,hnext,rfl,rfl⟩
      · cases hplan
  · rintro ⟨hblob,hfit,hnext,rfl,rfl⟩
    exact ⟨blob,hblob,by rw [if_neg (not_lt.mpr hfit),if_pos hnext]⟩

/-- The machine after a complete sync of a blob. -/
def synced (machine : FsMachine) (blob : List UInt8) : FsMachine :=
  {Routine.stored (syncWrites machine.memory blob) machine with
    memory := syncedMemory machine.memory}

/-- Without disk errors a planned sync stores all its writes and succeeds. -/
theorem perform_syncTree_ok (hfates : machine.fates=[]) {blob : List UInt8} {generation target : ℕ}
    (hplan : planned root machine.memory=.ok (blob,generation,target)) :
    Routine.perform (syncTree root) machine=(.ok (),synced machine blob) := by
  obtain ⟨hblob,hfit,hnext,rfl,rfl⟩ := planned_ok.mp hplan
  have hfirst := perform_planSync root machine
  rw [hplan] at hfirst
  rw [syncTree,Routine.perform_bind_ok hfirst]
  dsimp only
  rw [writeCheckpoint_eq (other_lt _) _ hfit,
    Routine.perform_bind_ok (Routine.perform_writeAll _ hfates),Routine.perform_act_bind]
  dsimp only [id]
  by_cases hversion : machine.memory.formatVersion=version
  · have hskip : ¬(Routine.stored (checkpointWrites (other machine.memory.activeSlot)
        (machine.memory.generation+1) blob) machine).memory.formatVersion≠version :=
      not_not.mpr hversion
    rw [if_neg hskip]
    simp only [synced,syncWrites,syncedMemory,if_pos hversion,List.append_nil]
    rw [← hversion]
    rfl
  · have hwrite : (Routine.stored (checkpointWrites (other machine.memory.activeSlot)
        (machine.memory.generation+1) blob) machine).memory.formatVersion≠version := hversion
    rw [if_pos hwrite,Routine.perform_writeBlock_bind (by exact hfates)]
    simp only [synced,syncWrites,syncedMemory,if_neg hversion,Routine.stored,applyWrites_append,
      ← List.append_assoc]
    rfl

/-- A sync that cannot be planned fails and changes nothing. -/
theorem perform_syncTree_error {reason : String}
    (hplan : planned root machine.memory=.error reason) :
    Routine.perform (syncTree root) machine=(.error reason,machine) := by
  have hfirst := perform_planSync root machine
  rw [hplan] at hfirst
  rw [syncTree,Routine.perform_bind_error hfirst]

/-- The writes of a sync without disk errors. -/
theorem syncTree_written {machine : FsMachine} (hfates : machine.fates=[]) (root : FsNode) :
    (Routine.perform (syncTree root) {machine with written := []}).2.written=
      match planned root machine.memory with
      | .ok (blob,_,_) => syncWrites machine.memory blob
      | .error _ => [] := by
  rcases hplan : planned root machine.memory with reason|⟨blob,generation,target⟩
  · rw [perform_syncTree_error (by exact hplan)]
  · rw [perform_syncTree_ok (by exact hfates) (by exact hplan)]
    rfl

/-! ## Prefixes of a checkpoint -/

section

variable {slot generation : ℕ} {blob : List UInt8}

theorem length_checkpointWrites (slot generation : ℕ) (blob : List UInt8) :
    (checkpointWrites slot generation blob).length=(blob.length+511)/512+2 := by
  simp only [checkpointWrites,payloadWrites,List.length_cons,List.length_append,List.length_map,
    List.length_range,List.length_nil]

section

variable (hfit : blob.length ≤ maxMetadataBytes)
include hfit

/-- Payload sectors lie behind the header and inside the slot. -/
theorem payloadWrites_address (hwrite : write∈payloadWrites slot blob) :
    slotStart slot<write.1 ∧ write.1<slotStart slot+slotSectors := by
  obtain ⟨index,hindex,rfl⟩ := List.mem_map.mp hwrite
  have hcount := List.mem_range.mp hindex
  rw [maxMetadataBytes] at hfit
  rw [slotSectors]
  dsimp only
  omega

/-- A checkpoint writes inside its own slot only. -/
theorem checkpointWrites_address (hwrite : write∈checkpointWrites slot generation blob) :
    slotStart slot≤write.1 ∧ write.1<slotStart slot+slotSectors := by
  have hheader : slotStart slot<slotStart slot+slotSectors := by
    rw [slotSectors]
    omega
  rcases List.mem_cons.mp hwrite with rfl|hlater
  · exact ⟨le_rfl,hheader⟩
  · rcases List.mem_append.mp hlater with hpayload|hlast
    · obtain ⟨hlow,hhigh⟩ := payloadWrites_address hfit hpayload
      exact ⟨hlow.le,hhigh⟩
    · rw [List.mem_singleton.mp hlast]
      exact ⟨le_rfl,hheader⟩

/-- Sectors outside the slot keep their contents after every prefix. -/
theorem prefix_outside {address : ℕ}
    (houtside : address<slotStart slot ∨ slotStart slot+slotSectors≤address) (disk : Disk)
    (count : ℕ) : applyWrites ((checkpointWrites slot generation blob).take count) disk address=
      disk address := by
  apply applyWrites_other
  intro write hwrite
  have hrange := checkpointWrites_address hfit (List.mem_of_mem_take hwrite)
  omega

end

theorem slotStart_cases (slot : ℕ) : slotStart slot=23490 ∨ slotStart slot=24002 := by
  rw [slotStart]
  split
  · exact Or.inr rfl
  · exact Or.inl rfl

/-- The superblock is in neither slot. -/
theorem prefix_superblock (hfit : blob.length ≤ maxMetadataBytes) (disk : Disk) (count : ℕ) :
    applyWrites ((checkpointWrites slot generation blob).take count) disk superblockLba=
      disk superblockLba := by
  have hstart := slotStart_cases slot
  exact prefix_outside hfit (Or.inl (by rw [superblockLba]; omega)) disk count

/-- The other slot is not touched by any prefix. -/
theorem prefix_other (hslot : slot<2) (hfit : blob.length ≤ maxMetadataBytes) (disk : Disk)
    (count : ℕ) : slotValue (applyWrites ((checkpointWrites slot generation blob).take count) disk)
      (other slot)=slotValue disk (other slot) := by
  apply slotAt_congr
  intro address hlow hhigh
  apply prefix_outside hfit
  obtain rfl|rfl : slot=0 ∨ slot=1 := by omega
  · exact Or.inr hlow
  · exact Or.inl hhigh

/-- Until the last write the slot is invalid. -/
theorem prefix_uncommitted (hfit : blob.length ≤ maxMetadataBytes) (disk : Disk) {count : ℕ}
    (hstarted : 0<count) (hunfinished : count<(checkpointWrites slot generation blob).length) :
    slotValue (applyWrites ((checkpointWrites slot generation blob).take count) disk) slot=
      none := by
  apply slotAt_uncommitted
  obtain ⟨count,rfl⟩ := Nat.exists_eq_succ_of_ne_zero hstarted.ne'
  have hpayload : count≤(payloadWrites slot blob).length := by
    rw [checkpointWrites,List.length_cons,List.length_append,List.length_singleton] at hunfinished
    omega
  rw [checkpointWrites,List.take_succ_cons,List.take_append_of_le_length hpayload,
    applyWrites_cons,applyWrites_other,Function.update_self]
  · exact mt (headerSector_commit generation blob false).mp Bool.false_ne_true
  · intro write hwrite
    exact (payloadWrites_address hfit (List.mem_of_mem_take hwrite)).1.ne'

/-- After all writes the slot holds what the payload decodes to. -/
theorem slotValue_checkpointWrites (hgeneration : 0<generation) (hbound : generation<2^64)
    (hblob : 0<blob.length) (hfit : blob.length ≤ maxMetadataBytes) (disk : Disk) :
    slotValue (applyWrites (checkpointWrites slot generation blob) disk) slot=
      (decodePayload blob).map fun tree => (generation,tree) := by
  have hlast : ∀ contents : Disk,applyWrites [(slotStart slot,headerSector generation blob true)]
      contents=Function.update contents (slotStart slot) (headerSector generation blob true) :=
    fun _ => rfl
  rw [slotValue,checkpointWrites,applyWrites_cons,applyWrites_append,hlast]
  apply slotAt_committed hgeneration hbound hblob hfit
  · exact Function.update_self _ _ _
  · intro index hindex
    rw [Function.update_of_ne (by omega)]
    exact applyWrites_run (slotStart slot+1) (Sector.ofBlob blob) hindex _

/-- The committed header is written last and only last. -/
theorem getLast_prefix_iff (hfit : blob.length ≤ maxMetadataBytes) (count : ℕ) :
    ((checkpointWrites slot generation blob).take count).getLast?=
        some (slotStart slot,headerSector generation blob true) ↔
      (checkpointWrites slot generation blob).length ≤ count := by
  constructor
  · intro hlast
    by_contra hshort
    have hmem := List.mem_of_getLast? hlast
    rcases count with _|count
    · exact absurd hmem List.not_mem_nil
    · have hpayload : count≤(payloadWrites slot blob).length := by
        rw [checkpointWrites,List.length_cons,List.length_append,List.length_singleton] at hshort
        omega
      rw [checkpointWrites,List.take_succ_cons,List.take_append_of_le_length hpayload] at hmem
      rcases List.mem_cons.mp hmem with hheader|hlater
      · have hcommit := (headerSector_commit generation blob true).mpr rfl
        have hsame : headerSector generation blob true=headerSector generation blob false :=
          congrArg Prod.snd hheader
        rw [hsame] at hcommit
        exact Bool.false_ne_true ((headerSector_commit generation blob false).mp hcommit)
      · exact (payloadWrites_address hfit (List.mem_of_mem_take hlater)).1.ne rfl
  · intro hall
    rw [List.take_of_length_le hall,checkpointWrites,← List.cons_append,List.getLast?_concat]

end

end TuwaiqOS.SyncWrites
