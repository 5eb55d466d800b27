import TuwaiqOS.SyncWrites

/-!
# The sectors that TuwaiqFS writes

A sync writes the slot that is not active, and the superblock only as long
as the volume has the legacy format. Which slot that is depends on memory
that a sync changes after its last write and leaves alone when it fails, so
the bound holds along every sequence of syncs, interrupted or not and
whichever sectors cannot be read or written.
-/

namespace TuwaiqOS.ReservedSectors

open BlockProgram FsTree TreeCodec TwoSlotStore Checkpoint SlotContents

/-- First sector of the FAT32 partition. -/
def resourcePartitionLba : ℕ := 24576

/-- The sector belongs to a slot. -/
def InSlot (slot address : ℕ) : Prop :=
  slotStart slot ≤ address ∧ address<slotStart slot+slotSectors

/-- A sector that may be written, given whether the superblock may be. -/
structure MayWrite (superblock : KernelMemory → Prop) (memory : KernelMemory) (address : ℕ) :
    Prop where
  /-- The superblock or a sector of the inactive slot. -/
  target : address=superblockLba ∧ superblock memory ∨ InSlot (other memory.activeSlot) address
  /-- Not a sector of the active slot. -/
  active : ¬InSlot (min memory.activeSlot 1) address
  /-- Not a sector of the boot area. -/
  boot : superblockLba ≤ address
  /-- Not a sector of the legacy metadata. -/
  legacy : ¬(legacyMetadataLba ≤ address ∧ address<legacyMetadataLba+legacyMetadataSectors)
  /-- Not a sector of the FAT32 partition. -/
  resource : address < resourcePartitionLba

/-- The regions of the disk do not overlap. -/
theorem mayWrite_of_target {superblock : KernelMemory → Prop} {memory : KernelMemory} {address : ℕ}
    (htarget : address=superblockLba ∧ superblock memory ∨
      InSlot (other memory.activeSlot) address) : MayWrite superblock memory address := by
  have hslots : slotStart 0=23490 ∧ slotStart 1=24002 := ⟨rfl,rfl⟩
  have hactive : min memory.activeSlot 1=0 ∧ other memory.activeSlot=1 ∨
      min memory.activeSlot 1=1 ∧ other memory.activeSlot=0 := by
    rw [other]
    omega
  have hplace : address=8192 ∨ InSlot (other memory.activeSlot) address :=
    htarget.imp_left fun h => h.1
  refine ⟨htarget,?_,?_,?_,?_⟩ <;>
    rcases hactive with ⟨hmin,hother⟩|⟨hmin,hother⟩ <;> rw [hother] at hplace <;>
    simp only [InSlot,hmin,hslots,slotSectors,superblockLba,legacyMetadataLba,
      legacyMetadataSectors,resourcePartitionLba] at hplace ⊢ <;> omega

/-! ## Routines that write -/

section

variable {allowed : KernelMemory → ℕ → Prop} {failure superblock : KernelMemory → Prop}
  {memory : KernelMemory}

section

variable (hfailure : failure memory)
include hfailure

/-- What is decided before the first write. -/
theorem traced_planSync (root : FsNode) :
    Routine.Traced allowed failure (fun plan later => later=memory ∧
      plan.1.length ≤ maxMetadataBytes ∧ plan.2.2=other memory.activeSlot)
      (planSync root) memory := by
  refine Routine.traced_ofExcept_bind hfailure fun blob _ => ?_
  by_cases hfit : blob.length>maxMetadataBytes
  · rw [if_pos hfit]
    exact Routine.traced_throw hfailure
  rw [if_neg hfit]
  refine Routine.traced_act_bind ?_
  by_cases hnext : memory.generation+1<2^64
  · rw [id,if_pos hnext]
    exact Routine.traced_act_bind (Routine.traced_pure ⟨rfl,Nat.not_lt.mp hfit,rfl⟩)
  · rw [id,if_neg hnext]
    exact Routine.traced_throw hfailure

/-- The payload stays in its slot. -/
theorem traced_writePayload {lba limit : ℕ}
    (hallowed : ∀ index<limit,allowed memory (lba+1+index)) (blob : List UInt8)
    (interruptAfter : Option ℕ) {count index : ℕ} (hcount : index+count ≤ limit) :
    Routine.Traced allowed failure (fun _ later => later=memory)
      (writePayload lba blob interruptAfter count index) memory := by
  induction count generalizing index with
  | zero => exact Routine.traced_pure rfl
  | succ count ih =>
    refine Routine.traced_writeBlock_bind hfailure (hallowed index (by omega)) ?_
    by_cases hstop : interruptAfter=some (index+1)
    · rw [if_pos hstop]
      exact Routine.traced_throw hfailure
    · rw [if_neg hstop]
      exact ih (by omega)

/-- A checkpoint stays in its slot. -/
theorem traced_writeCheckpoint {slot : ℕ} (hslot : slot<2)
    (hallowed : ∀ address,InSlot slot address → allowed memory address) (generation : ℕ)
    {blob : List UInt8} (hfit : blob.length ≤ maxMetadataBytes) (interruptAfter : Option ℕ) :
    Routine.Traced allowed failure (fun _ later => later=memory)
      (writeCheckpoint slot generation blob interruptAfter) memory := by
  have hfirst : allowed memory (slotStart slot) :=
    hallowed _ ⟨le_rfl,Nat.lt_add_of_pos_right (by decide)⟩
  have hpayload : ∀ index<511,allowed memory (slotStart slot+1+index) := fun index hindex =>
    hallowed _ ⟨by omega,by rw [slotSectors]; omega⟩
  have hsectors : 0+(blob.length+511)/512 ≤ 511 := by
    rw [maxMetadataBytes] at hfit
    omega
  refine Routine.traced_ofExcept_bind hfailure fun lba hlba => ?_
  rw [slotLba_eq hslot] at hlba
  cases hlba
  refine Routine.traced_ofExcept_bind hfailure fun header _ => ?_
  refine Routine.traced_writeBlock_bind hfailure hfirst ?_
  refine Routine.traced_bind (traced_writePayload hfailure hpayload blob interruptAfter hsectors)
    fun _ later hlater => ?_
  subst hlater
  refine Routine.traced_ofExcept_bind hfailure fun header _ => ?_
  rw [← bind_pure (Routine.writeBlock _ header)]
  exact Routine.traced_writeBlock_bind hfailure hfirst (Routine.traced_pure rfl)

end

/-- The volume still has the legacy format. -/
def Migrating (memory : KernelMemory) : Prop := memory.formatVersion≠version

/-- A sync writes the inactive slot, and the superblock to migrate. -/
theorem traced_syncTree (hmigrating : ∀ memory,Migrating memory → superblock memory)
    (root : FsNode) (memory : KernelMemory) :
    Routine.Traced (MayWrite superblock) (fun _ => True) (fun _ _ => True) (syncTree root)
      memory := by
  refine Routine.traced_bind (traced_planSync trivial root) fun plan later hlater => ?_
  obtain ⟨blob,generation,target⟩ := plan
  obtain ⟨rfl,hfit,htarget⟩ := hlater
  dsimp only at hfit htarget ⊢
  subst htarget
  refine Routine.traced_bind (traced_writeCheckpoint trivial (other_lt later.activeSlot)
    (fun address haddress => mayWrite_of_target (Or.inr haddress)) generation hfit none)
    fun _ written hwritten => ?_
  subst hwritten
  refine Routine.traced_act_bind ?_
  by_cases hversion : written.formatVersion≠version
  · rw [id,if_pos hversion]
    have hsuperblock : MayWrite superblock written superblockLba :=
      mayWrite_of_target (Or.inl ⟨rfl,hmigrating written hversion⟩)
    exact Routine.traced_writeBlock_bind trivial hsuperblock trivial
  · rw [id,if_neg hversion]
    exact trivial

/-- An interrupted sync writes the inactive slot only. -/
theorem traced_syncTreeInterrupted (root : FsNode) (dataSectors : ℕ) (memory : KernelMemory) :
    Routine.Traced (MayWrite superblock) (fun _ => True) (fun _ _ => True)
      (syncTreeInterrupted root dataSectors) memory := by
  refine Routine.traced_bind (traced_planSync trivial root) fun plan later hlater => ?_
  obtain ⟨blob,generation,target⟩ := plan
  obtain ⟨rfl,hfit,htarget⟩ := hlater
  dsimp only at hfit htarget ⊢
  subst htarget
  refine Routine.traced_bind (Routine.traced_attempt (@traced_writeCheckpoint _ (fun _ => True) _
    trivial _ (other_lt later.activeSlot)
    (fun address haddress => mayWrite_of_target (Or.inr haddress)) generation _ hfit _))
    fun outcome _ _ => ?_
  cases outcome with
  | error reason => exact Routine.traced_throw trivial
  | ok _ => exact Routine.traced_throw trivial

/-- A call of the two routines. -/
inductive SyncCall where
  /-- `sync_tree`. -/
  | sync (root : FsNode)
  /-- `sync_tree_interrupted`. -/
  | interrupted (root : FsNode) (dataSectors : ℕ)

/-- The routine of a call. -/
def SyncCall.routine : SyncCall → FsRoutine Unit
  | .sync root => syncTree root
  | .interrupted root dataSectors => syncTreeInterrupted root dataSectors

/-- A sequence of calls, whatever they return. -/
def syncAll : List SyncCall → FsRoutine Unit
  | [] => pure ()
  | call::rest => do
    let _ ← Routine.attempt call.routine
    syncAll rest

theorem traced_syncAll (calls : List SyncCall) (memory : KernelMemory) :
    Routine.Traced (MayWrite Migrating) (fun _ => True) (fun _ _ => True) (syncAll calls)
      memory := by
  induction calls generalizing memory with
  | nil => exact Routine.traced_pure trivial
  | cons call rest ih =>
    have hcall : Routine.Traced (MayWrite Migrating) (fun _ => True) (fun _ _ => True)
        call.routine memory := by
      cases call with
      | sync root => exact traced_syncTree (fun _ h => h) root memory
      | interrupted root dataSectors =>
        exact traced_syncTreeInterrupted root dataSectors memory
    exact Routine.traced_bind (Routine.traced_attempt hcall) fun _ later _ => ih later

/-! ## Routines of `mount` -/

theorem traced_readSectors (hfailure : failure memory) (count sector remaining : ℕ) :
    Routine.Traced allowed failure (fun _ later => later=memory)
      (readSectors count sector remaining) memory := by
  induction count generalizing sector remaining with
  | zero => exact Routine.traced_pure rfl
  | succ count ih =>
    refine Routine.traced_readBlock_bind hfailure fun buffer => ?_
    exact Routine.traced_bind (ih _ _) fun _ _ hlast => Routine.traced_pure hlast

theorem traced_readMetadataAt (hfailure : failure memory) (lba length : ℕ) :
    Routine.Traced allowed failure (fun _ later => later=memory) (readMetadataAt lba length)
      memory := by
  rw [readMetadataAt]
  split
  · exact Routine.traced_throw hfailure
  · exact traced_readSectors hfailure _ _ _

theorem traced_loadTreeAt (lba length : ℕ) (memory : KernelMemory) :
    Routine.Traced allowed (fun _ => True) (fun _ _ => True) (loadTreeAt lba length) memory := by
  rw [loadTreeAt]
  split
  · exact Routine.traced_pure trivial
  · refine Routine.traced_bind (traced_readMetadataAt trivial _ _) fun blob later _ => ?_
    split
    · exact Routine.traced_throw trivial
    · rw [← bind_pure (Routine.ofExcept _)]
      exact Routine.traced_ofExcept_bind trivial fun _ _ => trivial

/-- Loading a slot writes nothing. -/
theorem traced_loadCheckpoint (slot : ℕ) (memory : KernelMemory) :
    Routine.Traced allowed (fun _ => True) (fun _ _ => True) (loadCheckpoint slot) memory := by
  refine Routine.traced_ofExcept_bind trivial fun lba _ => ?_
  refine Routine.traced_readBlock_bind trivial fun header => ?_
  split
  · exact Routine.traced_pure trivial
  dsimp only
  split
  · exact Routine.traced_pure trivial
  refine Routine.traced_bind (traced_readMetadataAt trivial _ _) fun blob later _ => ?_
  split
  · exact Routine.traced_pure trivial
  split
  · exact Routine.traced_pure trivial
  · exact Routine.traced_pure trivial

theorem traced_loadLatestCheckpoint (memory : KernelMemory) :
    Routine.Traced allowed (fun _ => True) (fun _ _ => True) loadLatestCheckpoint memory := by
  refine Routine.traced_bind (Routine.traced_attempt (traced_loadCheckpoint 0 memory))
    fun first later _ => ?_
  refine Routine.traced_bind (Routine.traced_attempt (traced_loadCheckpoint 1 later))
    fun second later _ => ?_
  dsimp only
  split
  · exact Routine.traced_throw trivial
  · exact trivial

/-- Formatting writes the superblock and then the slot that is not active. -/
theorem traced_formatRegion (memory : KernelMemory) :
    Routine.Traced (MayWrite fun _ => True) (fun _ => True) (fun _ _ => True) formatRegion
      memory := by
  refine Routine.traced_writeBlock_bind trivial (mayWrite_of_target (Or.inl ⟨rfl,trivial⟩)) ?_
  exact traced_syncTree (fun _ _ => trivial) emptyRoot _

/-- `mount` writes nothing but what `format_region` writes. -/
theorem traced_mount (hformat : ∀ memory,Routine.Traced allowed (fun _ => True) (fun _ _ => True)
    formatRegion memory) (memory : KernelMemory) :
    Routine.Traced allowed (fun _ => True) (fun _ _ => True) mount memory := by
  refine Routine.traced_readBlock_bind trivial fun found => ?_
  split
  · refine Routine.traced_readBlock_bind trivial fun slotA => ?_
    refine Routine.traced_readBlock_bind trivial fun slotB => ?_
    split
    · exact Routine.traced_throw trivial
    · exact Routine.traced_bind (hformat _) fun _ _ _ => Routine.traced_pure trivial
  dsimp only
  split
  · split
    · exact Routine.traced_throw trivial
    · exact traced_loadLatestCheckpoint _
  split
  · exact Routine.traced_throw trivial
  split
  · exact Routine.traced_throw trivial
  · exact traced_loadTreeAt _ _ _

end

/-- TuwaiqFS writes its reserved sectors only. In every state and along every
sequence of syncs, whatever the disk answers, a sector that is written lies
in the slot that is not active at that moment, or is the superblock of a
volume that is being migrated; so does everything that reaches the disk.
`mount` writes only what formatting writes: the superblock and the slot that
is not active. -/
theorem writes_reserved (calls : List SyncCall) (memory : KernelMemory) :
    Routine.Traced (MayWrite Migrating) (fun _ => True) (fun _ _ => True) (syncAll calls) memory ∧
    (∀ machine : FsMachine,machine.memory=memory →
      ∃ stored,(Routine.perform (syncAll calls) machine).2.written=machine.written++stored ∧
        ∀ write∈stored,∃ moment,MayWrite Migrating moment write.1) ∧
    Routine.Traced (MayWrite fun _ => True) (fun _ => True) (fun _ _ => True) mount memory ∧
    ∀ allowed : KernelMemory → ℕ → Prop,
      (∀ start,Routine.Traced allowed (fun _ => True) (fun _ _ => True) formatRegion start) →
        Routine.Traced allowed (fun _ => True) (fun _ _ => True) mount memory := by
  have hcalls := traced_syncAll calls memory
  refine ⟨hcalls,?_,traced_mount traced_formatRegion memory,
    fun allowed hformat => traced_mount hformat memory⟩
  intro machine hmemory
  rw [← hmemory] at hcalls
  exact hcalls.written

theorem writes_reserved_interrupted :
    (∃ stored,(Routine.perform (syncAll [.sync emptyRoot,.interrupted emptyRoot 1])
        (Checkpoint.boot fun _ => Sector.zero)).2.written=[]++stored ∧
      ∀ write∈stored,∃ moment,MayWrite Migrating moment write.1) ∧
    Routine.Traced (MayWrite fun _ => True) (fun _ => True) (fun _ _ => True) mount .boot := by
  obtain ⟨-,hwritten,-,hmount⟩ :=
    writes_reserved [.sync emptyRoot,.interrupted emptyRoot 1] .boot
  exact ⟨hwritten (Checkpoint.boot fun _ => Sector.zero) rfl,hmount _ traced_formatRegion⟩

end TuwaiqOS.ReservedSectors
