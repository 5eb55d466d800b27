import TuwaiqOS.MmapTransaction

/-!
# MUNMAP leaves no empty tables

A range is unmapped in batches: the mappings are recorded first, then the
pages are unmapped, the frames leave the ownership list and go back, and the
tables above the range are cleaned up. Every section leads from one of these
states to the next. The recorded mappings still match when they are unmapped,
so nothing is ever mapped again, and the frames that leave the list are the
recorded ones. When the call succeeds, exactly the pages of the range are
gone, and no table is empty.
-/

namespace TuwaiqOS.MunmapTransaction

open ResourceLedger FrameAllocator PageTables AddressSpaces VmCalls
open ExclusiveSpaces StagedSpaces MmapTransaction
open BootInfoFrameAllocator (books)

/-- A range that was accepted. -/
structure Ranged (process : ProcessState) (before : AddressSpace) (call : MunmapCall) : Prop
    extends Resting process before where
  /-- The range starts at a page. -/
  ptr : call.ptr%4096=0
  /-- It starts in the arena. -/
  base : userMmapBase ≤ call.ptr
  /-- It ends below the arena's pointer. -/
  below : call.ptr+call.pages*4096≤process.mmapNext

theorem munmapEnter_some {ptr len : ℕ} {process : ProcessState} {call : MunmapCall}
    {before : AddressSpace} (hresting : Resting process before)
    (henter : munmapEnter ptr len process=some call) :
    Ranged process before call ∧ call.ptr=ptr ∧ call.pages*4096=len := by
  rw [munmapEnter] at henter
  split at henter
  · cases henter
  split at henter
  · cases henter
  split at henter
  · rename_i hshape _ hrange
    cases henter
    have hlen : len/4096*4096=len := by omega
    exact ⟨⟨hresting,by dsimp only; omega,hrange.1,by dsimp only; omega⟩,rfl,hlen⟩
  · cases henter

/-! ## The stages -/

/-- All pages of the range are unmapped, and some frames have left the
list. -/
structure Cleared (before now : AddressSpace) (call : MunmapCall) (records : List UnmapRecord)
    (gone : List ℕ) : Prop where
  /-- The records of the range. -/
  collected : Collected before.tables (call.ptr/4096) call.pages records
  /-- The root stays. -/
  root : now.pml4Frame=before.pml4Frame
  /-- The pages are unmapped. -/
  tables : now.tables=before.tables.clear (List.range' (call.ptr/4096) call.pages)
  /-- The frames have left. -/
  owned : now.ownedFrames=before.ownedFrames.filter fun frame => frame∉gone

/-- Removals that are left. Together with the frames that are gone they are
the recorded ones. -/
def Planned (records : List UnmapRecord) (gone : List ℕ) (removals : List OwnershipRemoval)
    (owned : List ℕ) : Prop :=
  Removable removals owned ∧
    (gone++removals.map OwnershipRemoval.frame).Perm (records.map UnmapRecord.frame)

/-- Every table has an entry, or lies above one of the last pages of the
range. -/
def FullUpTo (tables : Tables) (call : MunmapCall) (cleaned : ℕ) : Prop :=
  ∀ height index,tables.table (height,index)≠none → tables.Used height index ∨
    ∃ page,call.ptr/4096+cleaned≤page ∧ page<call.ptr/4096+call.pages ∧ index=page/512^height

/-- The range is gone from a space. -/
structure Unmapped (before now : AddressSpace) (call : MunmapCall) : Prop where
  /-- Exactly its pages are not mapped any more. -/
  leaf : now.tables.leaf=(before.tables.clear (List.range' (call.ptr/4096) call.pages)).leaf
  /-- They were mapped. -/
  mapped : ∀ page,call.ptr/4096≤page → page<call.ptr/4096+call.pages →
    before.tables.leaf page≠none
  /-- The frames of all cleared places have left the list. -/
  shrunk : ∃ gone,Shrunk before now gone

/-- The address space at a stage of a call. -/
def MunmapAt (before : AddressSpace) (call : MunmapCall) (now : AddressSpace) :
    MunmapStage → Prop
  | .collecting collected records => now=before ∧ collected ≤ call.pages ∧
    Collected before.tables (call.ptr/4096) collected records
  | .planning records => now=before ∧ Collected before.tables (call.ptr/4096) call.pages records
  | .unmapping records removals removed => removed ≤ call.pages ∧
    Collected before.tables (call.ptr/4096) call.pages records ∧
    now={before with tables := before.tables.clear (List.range' (call.ptr/4096) removed)} ∧
    Planned records [] removals before.ownedFrames
  | .restoring _ => False
  | .removing removals => ∃ records gone,Cleared before now call records gone ∧
    Planned records gone removals now.ownedFrames
  | .releasing _ removals => ∃ records gone,Cleared before now call records gone ∧
    Planned records gone removals now.ownedFrames
  | .cleaning cleaned => Exclusive now ∧ now.tables.Closed ∧ Unmapped before now call ∧
    FullUpTo now.tables call cleaned

section

variable (process : ProcessState) (before : AddressSpace) (call : MunmapCall)

/-- The state of a call, relative to the process from before. -/
def MunmapInv (vm : VmState)
    (stage : MunmapStage) : Prop :=
  ∃ now,vm.process={process with addressSpace := some now} ∧ MunmapAt before call now stage

/-- What a section leads to: the call goes on, it returns and the process is
as before because a page of the range is not mapped, or it returns and the
range is gone. -/
def MunmapAfter
    (result : Outcome MunmapStage×VmState) : Prop :=
  match result.1 with
  | .next stage => MunmapInv process before call result.2 stage
  | .done rax => rax=-1 ∧ result.2.process=process ∧
      (∃ page,call.ptr/4096≤page ∧ page<call.ptr/4096+call.pages ∧
        before.tables.leaf page=none) ∨
    rax=0 ∧ ∃ now,result.2.process={process with addressSpace := some now} ∧ Tight now ∧
      Unmapped before now call
  | .exit _ => False

end

variable {stage : MunmapStage} {records : List UnmapRecord} {removals : List OwnershipRemoval}

section

variable {process : ProcessState} {before now : AddressSpace} {call : MunmapCall} {vm : VmState}
  {rest : Multiset ℕ}

variable {allocator : BootInfoFrameAllocator} {cleaned : ℕ}

theorem munmapInv_put {later : AddressSpace}
    (hprocess : vm.process={process with addressSpace := some now})
    (hstage : MunmapAt before call later stage) :
    MunmapInv process before call (vm.put later allocator) stage :=
  ⟨later,by rw [VmState.put,hprocess],hstage⟩

section

variable (hcall : Ranged process before call)
include hcall

/-- The page with an offset in the range. -/
theorem Ranged.page (offset : ℕ) : (call.ptr+offset*4096)/4096=call.ptr/4096+offset := by
  have haligned := hcall.ptr
  omega

theorem Ranged.region :
    userSpaceBase ≤ call.ptr ∧ call.ptr+call.pages*4096≤userSpaceBase+userSpaceSize := by
  have hlow := hcall.base
  have hbelow := hcall.below
  have hend := hcall.limit
  have hbase : userMmapBase=userSpaceBase+0x10000000 := rfl
  have hlimit : userMmapLimit=userSpaceBase+userSpaceSize-0x100000 := rfl
  refine ⟨?_,?_⟩ <;> omega

section

variable (hbacks : Backs books vm.paging.allocator (vm.process.ownedFrames+rest))
include hbacks

theorem after_collecting {collected : ℕ}
    (hinv : MunmapInv process before call vm (.collecting collected records)) :
    MunmapAfter process before call (munmapStep call vm (.collecting collected records)) := by
  obtain ⟨now,hprocess,hsame,hcount,hcollected⟩ := hinv
  subst hsame
  have hspace : vm.process.addressSpace=some now := by rw [hprocess]
  have hnow := backs_now hbacks hprocess
  obtain ⟨hlow,hhigh⟩ := hcall.region
  have haligned := hcall.ptr
  rw [munmapStep]
  split
  · rename_i hdone
    have hall : collected=call.pages := Nat.le_antisymm hcount hdone
    subst hall
    exact ⟨now,hprocess,rfl,hcollected⟩
  rename_i hmore
  rw [hspace]
  dsimp only
  have hbatch : batchOf call.pages collected≠0 ∧
      collected+batchOf call.pages collected ≤ call.pages := by
    rw [batchOf,vmBatchPages]
    omega
  generalize batchOf call.pages collected=batch at hbatch
  split
  · rename_i reason hfailed
    -- a batch whose pages are all mapped is collected
    refine Or.inl ⟨rfl,hprocess.trans hcall.process_eq,?_⟩
    by_contra hall
    obtain ⟨found,hfound⟩ : ∃ found,
        collectUnmapRecords now (call.ptr+collected*4096) batch=.ok found := by
      refine collectUnmapRecords_isOk hbatch.1 (by omega) (by omega) (by omega)
        fun page hpage => ?_
      rw [hcall.page]
      cases hleaf : now.tables.leaf (call.ptr/4096+collected+page) with
      | none => exact absurd ⟨_,by omega,by omega,hleaf⟩ hall
      | some leaf =>
        have howned : leaf.frame∈now.ownedFrames :=
          hcall.tight.exclusive.owned (.inr (call.ptr/4096+collected+page)) leaf.frame
            (by rw [Tables.frameAt,hleaf]; rfl)
        obtain ⟨hpresent,huser⟩ := hcall.user _ leaf hleaf
        exact ⟨leaf,rfl,hpresent,huser,
          BootInfoFrameAllocator.aligned_of_backs hnow (Multiset.mem_add.mpr (Or.inl howned))⟩
    rw [hfound] at hfailed
    cases hfailed
  · rename_i found hfound
    obtain ⟨-,-,-,-,hnew⟩ := collectUnmapRecords_ok hfound
    rw [hcall.page] at hnew
    exact ⟨now,hprocess,rfl,hbatch.2,hcollected.append hnew⟩

theorem after_planning (hinv : MunmapInv process before call vm (.planning records)) :
    MunmapAfter process before call (munmapStep call vm (.planning records)) := by
  obtain ⟨now,hprocess,hsame,hcollected⟩ := hinv
  subst hsame
  have hspace : vm.process.addressSpace=some now := by rw [hprocess]
  have hnodup := Multiset.coe_nodup.mp (backs_now hbacks hprocess).nodup
  obtain ⟨-,hdistinct,hplace⟩ := hcollected.frames hcall.tight.exclusive
  obtain ⟨frames,hframes,hperm⟩ := unmapRecordFrames_isSome hdistinct
  have howned : ∀ frame∈frames,frame∈now.ownedFrames := by
    intro frame hmem
    obtain ⟨record,hrecord,rfl⟩ := List.mem_map.mp (hperm.mem_iff.mp hmem)
    exact hcall.tight.exclusive.owned _ _ (hplace record hrecord)
  obtain ⟨removals,hplan⟩ :=
    planUnmapOwnership_isSome hnodup (hperm.nodup_iff.mpr hdistinct) howned
  rw [munmapStep,hframes,hspace]
  dsimp only
  rw [hplan]
  refine ⟨now,hprocess,Nat.zero_le _,hcollected,?_,removable_planUnmapOwnership hplan,
    (planUnmapOwnership_frames hnodup hplan).trans hperm⟩
  simp [Tables.clear]

end

end

theorem after_unmapping {removed : ℕ}
    (hinv : MunmapInv process before call vm (.unmapping records removals removed)) :
    MunmapAfter process before call (munmapStep call vm (.unmapping records removals removed)) := by
  obtain ⟨now,hprocess,hcount,hcollected,hnow,hplanned⟩ := hinv
  have hspace : vm.process.addressSpace=some now := by rw [hprocess]
  have hlength := hcollected.length
  rw [munmapStep]
  split
  · rename_i hdone
    have hall : removed=call.pages := by omega
    subst hall
    refine ⟨now,hprocess,records,[],⟨hcollected,?_,?_,?_⟩,?_⟩
    all_goals rw [hnow]
    · simp
    · exact hplanned
  rw [hspace]
  dsimp only
  have hbatch : removed+batchOf records.length removed ≤ call.pages := by
    rw [batchOf]
    omega
  generalize batchOf records.length removed=batch at hbatch
  have hpages : ((records.drop removed).take batch).map UnmapRecord.page=
      List.range' (call.ptr/4096+removed) batch := by
    rw [List.map_take,List.map_drop,hcollected.pages,List.drop_range',
      List.take_range'_of_length_ge (by omega)]
    simp
  have hpart : ∀ record∈(records.drop removed).take batch,record∈records :=
    fun record hmem => List.mem_of_mem_drop (List.mem_of_mem_take hmem)
  have hmatch : ∀ record∈(records.drop removed).take batch,
      now.tables.leaf record.page=some ⟨record.frame,record.flags⟩ := by
    intro record hmem
    have hpage : record.page∈List.range' (call.ptr/4096+removed) batch := by
      rw [← hpages]
      exact List.mem_map_of_mem hmem
    rw [List.mem_range'_1] at hpage
    rw [hnow,Tables.clear]
    dsimp only
    rw [if_neg (by rw [List.mem_range'_1]; omega)]
    exact hcollected.leaf record (hpart record hmem)
  have hunmap := unmapMatching_all (by rw [hpages]; exact List.nodup_range') hmatch
    fun record hmem => hcollected.present record (hpart record hmem)
  rw [hpages] at hunmap
  rw [unmapRecordsAtomic,hunmap]
  dsimp only
  rw [if_pos rfl]
  refine munmapInv_put hprocess ⟨hbatch,hcollected,?_,hplanned⟩
  rw [hnow]
  dsimp only
  rw [Tables.clear_clear,List.range'_append_1]

/-- Unmapping pages makes no table empty but those above them. -/
theorem fullUpTo_clear (hfull : before.tables.Full) (call : MunmapCall) :
    FullUpTo (before.tables.clear (List.range' (call.ptr/4096) call.pages)) call 0 := by
  intro height index htable
  obtain ⟨child,hchild,hentry⟩ := hfull height index htable
  rw [Tables.Entry] at hentry
  split at hentry
  · rename_i hone
    subst hone
    by_cases hin : child∈List.range' (call.ptr/4096) call.pages
    · rw [List.mem_range'_1] at hin
      exact Or.inr ⟨child,by omega,by omega,by rw [pow_one,hchild]⟩
    · refine Or.inl ⟨child,hchild,?_⟩
      rw [Tables.Entry,if_pos rfl,Tables.clear]
      dsimp only
      rwa [if_neg hin]
  · rename_i hmore
    refine Or.inl ⟨child,hchild,?_⟩
    rw [Tables.Entry,if_neg hmore]
    exact hentry

theorem after_removing (hcall : Ranged process before call)
    (hbacks : Backs books vm.paging.allocator (vm.process.ownedFrames+rest))
    (hinv : MunmapInv process before call vm (.removing removals)) :
    MunmapAfter process before call (munmapStep call vm (.removing removals)) := by
  obtain ⟨now,hprocess,records,gone,hcleared,hremovable,hperm⟩ := hinv
  have hspace : vm.process.addressSpace=some now := by rw [hprocess]
  have hnodup := Multiset.coe_nodup.mp (backs_now hbacks hprocess).nodup
  rw [munmapStep]
  split
  · rename_i hempty
    rw [List.isEmpty_iff.mp hempty,List.map_nil,List.append_nil] at hperm
    have hshrunk := hcleared.collected.shrunk hcleared.root hcleared.tables
      (fun frame => hperm.mem_iff) hcleared.owned
    have hmapped : ∀ page,call.ptr/4096≤page → page<call.ptr/4096+call.pages →
        before.tables.leaf page≠none := by
      intro page hlow hhigh
      have hmem : page∈records.map UnmapRecord.page := by
        rw [hcleared.collected.pages,List.mem_range'_1]
        exact ⟨hlow,hhigh⟩
      obtain ⟨record,hrecord,rfl⟩ := List.mem_map.mp hmem
      rw [hcleared.collected.leaf record hrecord]
      exact Option.some_ne_none _
    refine ⟨now,hprocess,hshrunk.exclusive hcall.tight.exclusive,?_,⟨?_,hmapped,gone,hshrunk⟩,?_⟩
    all_goals rw [hcleared.tables]
    · exact hcall.tight.closed.clear _
    · exact fullUpTo_clear hcall.tight.full call
  rw [hspace]
  dsimp only [removeUnmappedOwnership]
  rw [← List.take_append_drop vmBatchPages removals] at hremovable hperm
  obtain ⟨hdone,hleft,-⟩ := removeOwned_append hremovable
  have hremoved := removeOwned_filter hnodup hremovable.left
  rw [if_pos hdone]
  rw [List.map_append,← List.append_assoc] at hperm
  refine munmapInv_put hprocess ⟨records,_,⟨hcleared.collected,hcleared.root,hcleared.tables,?_⟩,
    hleft,hperm⟩
  rw [hremoved,hcleared.owned]
  dsimp only
  rw [List.filter_filter]
  refine List.filter_congr fun frame _ => ?_
  by_cases hgone : frame∈gone <;>
    by_cases hbatch : frame∈(removals.take vmBatchPages).map OwnershipRemoval.frame <;>
    simp only [List.mem_append,hgone,hbatch] <;> decide

theorem after_releasing {frames : List ℕ}
    (hinv : MunmapInv process before call vm (.releasing frames removals)) :
    MunmapAfter process before call (munmapStep call vm (.releasing frames removals)) := by
  obtain ⟨now,hprocess,hnow⟩ := hinv
  exact ⟨now,hprocess,hnow⟩

section

variable (hcall : Ranged process before call)
include hcall

/-- Each batch of tables is cleaned up. -/
theorem Ranged.cleans (allocator : BootInfoFrameAllocator)
    (hexclusive : Exclusive now) (hclosed : now.tables.Closed) (hnodup : now.ownedFrames.Nodup) (hmore : ¬call.pages ≤ cleaned) :
    ∃ removed,CleansTables now (call.ptr+cleaned*4096)
      (min tableCleanupBatchPages (call.pages-cleaned)) allocator removed
      (cleanUpEmptyTablesInRange now (call.ptr+cleaned*4096)
        (min tableCleanupBatchPages (call.pages-cleaned)) allocator) := by
  have hbatch : min tableCleanupBatchPages (call.pages-cleaned)≠0 ∧
      cleaned+min tableCleanupBatchPages (call.pages-cleaned) ≤ call.pages := by
    rw [tableCleanupBatchPages]
    omega
  obtain ⟨hlow,hhigh⟩ := hcall.region
  have haligned := hcall.ptr
  generalize min tableCleanupBatchPages (call.pages-cleaned)=batch at hbatch
  exact cleansTables hexclusive hclosed hnodup hbatch.1 (by omega) (by omega) (by omega)

section

variable (hbacks : Backs books vm.paging.allocator (vm.process.ownedFrames+rest))
include hbacks

theorem after_cleaningTables (hinv : MunmapInv process before call vm (.cleaning cleaned)) :
    MunmapAfter process before call (munmapStep call vm (.cleaning cleaned)) := by
  obtain ⟨now,hprocess,hexclusive,hclosed,hunmapped,hfull⟩ := hinv
  have hspace : vm.process.addressSpace=some now := by rw [hprocess]
  rw [munmapStep]
  split
  · rename_i hdone
    refine Or.inr ⟨rfl,now,hprocess,⟨hexclusive,hclosed,fun height index htable => ?_⟩,hunmapped⟩
    rcases hfull height index htable with hused|⟨page,hlow,hhigh,-⟩
    · exact hused
    · omega
  rename_i hmore
  rw [hspace]
  dsimp only
  have hnodup := Multiset.coe_nodup.mp (backs_now hbacks hprocess).nodup
  obtain ⟨removed,hcleans⟩ := hcall.cleans vm.paging.allocator hexclusive hclosed hnodup hmore
  generalize min tableCleanupBatchPages (call.pages-cleaned)=batch at hcleans
  have hswept := hcleans.swept
  rw [hcall.page] at hswept
  have hlater := hswept.closed hclosed
  obtain ⟨gone,hshrunk⟩ := hunmapped.shrunk
  rw [hcleans.ok]
  refine munmapInv_put hprocess ⟨hcleans.shrunk.exclusive hexclusive,hlater,
    ⟨hswept.leaf.trans hunmapped.leaf,hunmapped.mapped,_,hshrunk.trans hcleans.shrunk⟩,
    fun height index htable => ?_⟩
  have hheight := hlater.height _ htable
  dsimp only at hheight
  rcases hfull height index (hswept.within (.inl (height,index)) htable) with
    hused|⟨page,hfirst,hlast,rfl⟩
  · exact Or.inl (hswept.used_of_used hheight.1 hheight.2 htable hused)
  · by_cases hcleaned : page<call.ptr/4096+cleaned+batch
    · exact Or.inl (hswept.full page height ⟨hfirst,hcleaned⟩ hheight.1 hheight.2 htable)
    · exact Or.inr ⟨page,by omega,hlast,rfl⟩

/-- Every section keeps the stages of the call. -/
theorem after_munmapStep (hinv : MunmapInv process before call vm stage) :
    MunmapAfter process before call (munmapStep call vm stage) := by
  cases stage with
  | collecting collected records => exact after_collecting hcall hbacks hinv
  | planning records => exact after_planning hcall hbacks hinv
  | unmapping records removals removed => exact after_unmapping hinv
  | restoring records =>
    obtain ⟨_,-,hstage⟩ := hinv
    exact hstage.elim
  | removing removals => exact after_removing hcall hbacks hinv
  | releasing frames removals => exact after_releasing hinv
  | cleaning cleaned => exact after_cleaningTables hcall hbacks hinv

end

end

/-- The removals that are left can be carried out. -/
theorem MunmapInv.valid (hinv : MunmapInv process before call vm stage) :
    stage.Valid vm.process.ownedFrames := by
  obtain ⟨now,hprocess,hstage⟩ := hinv
  rw [hprocess]
  change stage.Valid now.ownedFrames
  cases stage with
  | unmapping records removals removed =>
    obtain ⟨-,-,hnow,hplanned⟩ := hstage
    rw [hnow]
    exact hplanned.1
  | removing | releasing =>
    obtain ⟨records,gone,-,hplanned⟩ := hstage
    exact hplanned.1
  | collecting | planning | restoring | cleaning => trivial

/-! ## What sections leave alone -/

/-- Pages outside of the range stay mapped. -/
theorem MunmapAt.leaf_eq (hstage : MunmapAt before call now stage) {page : ℕ}
    (hpage : ¬(call.ptr/4096≤page ∧ page<call.ptr/4096+call.pages)) :
    now.tables.leaf page=before.tables.leaf page := by
  have hclear : ∀ removed ≤ call.pages,
      (before.tables.clear (List.range' (call.ptr/4096) removed)).leaf page=
        before.tables.leaf page := by
    intro removed hremoved
    rw [Tables.clear]
    refine if_neg ?_
    rw [List.mem_range'_1]
    omega
  cases stage with
  | collecting collected records => rw [hstage.1]
  | planning records => rw [hstage.1]
  | unmapping records removals removed =>
    obtain ⟨hcount,-,hnow,-⟩ := hstage
    rw [hnow]
    exact hclear removed hcount
  | restoring records => exact hstage.elim
  | removing | releasing =>
    obtain ⟨records,gone,hcleared,-⟩ := hstage
    rw [hcleared.tables]
    exact hclear call.pages le_rfl
  | cleaning cleaned =>
    rw [hstage.2.2.1.leaf]
    exact hclear call.pages le_rfl

/-- Stages in which the call only reads. -/
def Reading : MunmapStage → Prop
  | .collecting _ _ => True
  | .planning _ => True
  | _ => False

/-- While the call only reads, nothing changes. -/
theorem munmapStep_reading (hreading : Reading stage) : (munmapStep call vm stage).2=vm := by
  cases stage with
  | collecting collected records =>
    rw [munmapStep]
    split
    · rfl
    split
    · rfl
    dsimp only
    split <;> rfl
  | planning records =>
    rw [munmapStep]
    split
    · rfl
    split
    · rfl
    split <;> rfl
  | unmapping | restoring | removing | releasing | cleaning => exact hreading.elim

/-- The call goes on reading, or it fails. -/
def Reads : Outcome MunmapStage → Prop
  | .next stage => Reading stage
  | .done rax => rax=-1
  | .exit _ => False

/-- Once the first page was unmapped, nothing is read and the call does not
fail any more. -/
theorem reading_of_reads (hinv : MunmapInv process before call vm stage) :
    Reads (munmapStep call vm stage).1 → Reading stage := by
  cases stage with
  | collecting | planning => exact fun _ => trivial
  | unmapping | removing =>
    rw [munmapStep]
    split
    · exact id
    split
    · exact id
    dsimp only
    split <;> exact id
  | restoring records =>
    obtain ⟨_,-,hstage⟩ := hinv
    exact hstage.elim
  | releasing frames removals => exact id
  | cleaning cleaned =>
    rw [munmapStep]
    split
    · exact fun hfails => absurd (show (0 : ℤ)=-1 from hfails) (by decide)
    split
    · exact id
    dsimp only
    split <;> exact id

/-- What changes are not made. -/
structure Quiet (vm later : VmState) : Prop where
  /-- Memory is not written. -/
  ram : later.paging.ram=vm.paging.ram
  /-- Nothing is taken from the allocator. -/
  allocator : ∃ freed,later.paging.allocator={vm.paging.allocator with freed := freed}
  /-- The process gets no frame. -/
  owned : ∀ frame∈later.process.ownedFrames,frame∈vm.process.ownedFrames

theorem Quiet.refl (vm : VmState) : Quiet vm vm :=
  ⟨rfl,⟨vm.paging.allocator.freed,rfl⟩,fun _ h => h⟩

/-- The pages of a space change, and its list at most shrinks. -/
theorem quiet_put {space later : AddressSpace} (hspace : vm.process.addressSpace=some space)
    (howned : ∀ frame∈later.ownedFrames,frame∈space.ownedFrames)
    (hallocator : ∃ freed,allocator={vm.paging.allocator with freed := freed}) :
    Quiet vm (vm.put later allocator) := by
  refine ⟨rfl,hallocator,fun frame hmem => ?_⟩
  rw [ProcessState.ownedFrames_some hspace]
  exact howned frame hmem

/-- Each section gives back frames at most. -/
theorem quiet_munmapStep (hcall : Ranged process before call)
    (hbacks : Backs books vm.paging.allocator (vm.process.ownedFrames+rest))
    (hinv : MunmapInv process before call vm stage) : Quiet vm (munmapStep call vm stage).2 := by
  obtain ⟨now,hprocess,hstage⟩ := hinv
  have hspace : vm.process.addressSpace=some now := by rw [hprocess]
  have hsame : ∃ freed,vm.paging.allocator={vm.paging.allocator with freed := freed} :=
    ⟨vm.paging.allocator.freed,rfl⟩
  cases stage with
  | collecting | planning =>
    rw [munmapStep_reading (by trivial)]
    exact Quiet.refl vm
  | unmapping records removals removed =>
    rw [munmapStep]
    split
    · exact Quiet.refl vm
    rw [hspace]
    refine quiet_put hspace (fun frame hmem => ?_) hsame
    rwa [ownedFrames_unmapRecordsAtomic] at hmem
  | restoring records => exact hstage.elim
  | removing removals =>
    obtain ⟨records,gone,-,hremovable,-⟩ := hstage
    have hnodup := Multiset.coe_nodup.mp (backs_now hbacks hprocess).nodup
    rw [munmapStep]
    split
    · exact Quiet.refl vm
    rw [hspace]
    refine quiet_put hspace (fun frame hmem => ?_) hsame
    rw [← List.take_append_drop vmBatchPages removals] at hremovable
    rw [removeUnmappedOwnership,removeOwned_filter hnodup hremovable.left] at hmem
    exact List.mem_of_mem_filter hmem
  | releasing frames removals =>
    exact ⟨rfl,BootInfoFrameAllocator.deallocateFrames_eq _ _,fun _ h => h⟩
  | cleaning cleaned =>
    obtain ⟨hexclusive,hclosed,-,-⟩ := hstage
    rw [munmapStep]
    split
    · exact Quiet.refl vm
    rename_i hmore
    rw [hspace]
    refine quiet_put hspace (fun frame hmem => ?_)
      (allocator_cleanUpEmptyTablesInRange now _ _ vm.paging.allocator)
    have hnodup := Multiset.coe_nodup.mp (backs_now hbacks hprocess).nodup
    obtain ⟨removed,hcleans⟩ := hcall.cleans vm.paging.allocator hexclusive hclosed hnodup hmore
    rw [hcleans.owned] at hmem
    exact List.mem_of_mem_filter hmem

/-! ## The call ends -/

/-- A bound on the sections that are left. -/
def sectionsLeft (call : MunmapCall) : MunmapStage → ℕ
  | .collecting collected _ => call.pages-collected+4*call.pages+5
  | .planning _ => 4*call.pages+4
  | .unmapping _ removals removed => call.pages-removed+2*removals.length+call.pages+3
  | .restoring _ => 0
  | .removing removals => 2*removals.length+call.pages+2
  | .releasing _ removals => 2*removals.length+call.pages+3
  | .cleaning cleaned => call.pages-cleaned+1

/-- Each section brings the call closer to its end. -/
theorem sectionsLeft_munmapStep (hcall : Ranged process before call)
    (hbacks : Backs books vm.paging.allocator (vm.process.ownedFrames+rest)) {later : MunmapStage}
    (hinv : MunmapInv process before call vm stage)
    (hstep : (munmapStep call vm stage).1=.next later) :
    sectionsLeft call later<sectionsLeft call stage := by
  have hafter := after_munmapStep hcall hbacks hinv
  rw [MunmapAfter,hstep] at hafter
  obtain ⟨now,hprocess,hstage⟩ := hinv
  have hspace : vm.process.addressSpace=some now := by rw [hprocess]
  cases stage with
  | planning records =>
    rw [munmapStep,hspace] at hstep
    split at hstep
    · cases hstep
    dsimp only at hstep
    split at hstep <;> cases hstep
    obtain ⟨-,-,-,hcollected,-,-,hperm⟩ := hafter
    have hlength := hperm.length_eq
    rw [List.nil_append,List.length_map,List.length_map,hcollected.length] at hlength
    rw [sectionsLeft,sectionsLeft,hlength]
    omega
  | unmapping records removals removed =>
    obtain ⟨-,hcollected,-⟩ := hstage
    simp only [munmapStep,hcollected.length,hspace] at hstep
    repeat' split at hstep
    all_goals cases hstep
    all_goals simp only [sectionsLeft,batchOf,vmBatchPages]
    all_goals omega
  | restoring records => exact hstage.elim
  | removing removals =>
    simp only [munmapStep,hspace] at hstep
    repeat' split at hstep
    all_goals cases hstep
    · rw [sectionsLeft,sectionsLeft]
      omega
    · rename_i hmore _
      have hsome := List.length_pos_iff.mpr (fun hnil => hmore (List.isEmpty_iff.mpr hnil))
      rw [sectionsLeft,sectionsLeft,List.length_drop,vmBatchPages]
      omega
  | collecting | releasing | cleaning =>
    simp only [munmapStep,hspace] at hstep
    repeat' split at hstep
    all_goals cases hstep
    all_goals simp only [sectionsLeft,batchOf,vmBatchPages,tableCleanupBatchPages]
    all_goals omega

end

end TuwaiqOS.MunmapTransaction
