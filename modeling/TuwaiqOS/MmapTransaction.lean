import TuwaiqOS.StagedSpaces

/-!
# MMAP is a transaction

An accepted request is served in sections, and other tasks run between them.
For every stage it is stated what the request has done to the address space
so far, relative to the space from before the call. Every section leads from
one such state to the next, whatever the allocator does: the call ends with
the whole region mapped and zeroed, or with the process as it was before. The
checks of the rollback that would end the process never fail.
-/

namespace TuwaiqOS.MmapTransaction

open ResourceLedger FrameAllocator PageTables AddressSpaces VmCalls
open ExclusiveSpaces StagedSpaces
open BootInfoFrameAllocator (books)

/-- A process between two calls. -/
structure Resting (process : ProcessState) (space : AddressSpace) : Prop where
  /-- It has this address space. -/
  has : process.addressSpace=some space
  /-- No table of the space is empty. -/
  tight : Tight space
  /-- All its pages are valid user pages. -/
  user : Usable space
  /-- The arena's pointer is page-aligned. -/
  aligned : process.mmapNext%4096=0
  /-- It lies in the arena. -/
  low : userMmapBase≤process.mmapNext
  /-- It does not pass the end of the arena. -/
  limit : process.mmapNext≤userMmapLimit

/-- A request that was accepted. -/
structure Accepted (process : ProcessState) (before : AddressSpace) (call : MmapCall) : Prop
    extends Resting process before where
  /-- The region starts at the arena's pointer. -/
  start : call.start=process.mmapNext
  /-- Its end. -/
  finish : call.finish=call.start+call.pages*4096
  /-- It has pages. -/
  pages : call.pages≠0
  /-- It ends inside the arena. -/
  inside : call.finish≤userMmapLimit
  /-- The number of frames from before. -/
  owned : call.ownedFramesBefore=before.ownedFrames.length

theorem mmapEnter_some {len : ℕ} {writable : Bool} {vm : VmState} {call : MmapCall}
    {before : AddressSpace} (hresting : Resting vm.process before)
    (henter : mmapEnter len writable vm=some call) :
    Accepted vm.process before call ∧ call.pages=(len+0xFFF)/4096 ∧ call.writable=writable ∧
      call.pages+((call.finish-1)/2^21-call.start/2^21+1)+2≤vm.paging.allocator.framesAvailable := by
  simp only [mmapEnter,hresting.has,Option.bind_eq_bind,Option.bind_some] at henter
  iterate 4 (split at henter; · cases henter)
  rename_i hlen _ hlimit hcounted
  cases henter
  refine ⟨⟨hresting,rfl,rfl,?_,?_,rfl⟩,rfl,rfl,Nat.le_of_not_lt hcounted⟩
  · change (len+0xFFF)/4096≠0
    omega
  · exact Nat.le_of_not_lt hlimit

/-! ## The stages -/

/-- The pages of the region from one position up to another. -/
def Piece (call : MmapCall) (low high page : ℕ) : Prop :=
  call.start/4096+low≤page ∧ page<call.start/4096+high

/-- The frames of some pages are zero. -/
def Zeroed (space : AddressSpace) (ram : Ram) (pages : ℕ → Prop) : Prop :=
  ∀ page frame,pages page → space.tables.frameAt (.inr page)=some frame →
    ∀ offset<4096,ram (frame+offset)=0

/-- The flags of a region that is handed out. -/
def regionFlags (writable : Bool) : Flags := ⟨true,writable,true,true⟩

/-- The flags of the region while the write permission is removed. -/
def protectedFlags (call : MmapCall) (protectedPages page : ℕ) : Flags :=
  if page<call.start/4096+protectedPages then mmapFinalFlags else mmapStagingFlags

/-- The address space and physical memory at a stage of a request. -/
def MmapAt (before : AddressSpace) (call : MmapCall) (now : AddressSpace) (ram : Ram) :
    MmapStage → Prop
  | .checking _ => now=before
  | .mapping mapped => mapped ≤ call.pages ∧
    Staged before now (call.start/4096) call.pages (Piece call 0 mapped) fun _ => mmapStagingFlags
  | .installing mapped => mapped<call.pages ∧
    Staged before now (call.start/4096) call.pages (Piece call 0 mapped) fun _ => mmapStagingFlags
  | .zeroing zeroed =>
    Staged before now (call.start/4096) call.pages (Piece call 0 call.pages)
        (fun _ => mmapStagingFlags) ∧
      Zeroed now ram (Piece call 0 zeroed)
  | .protecting protectedPages => call.writable=false ∧
    Staged before now (call.start/4096) call.pages (Piece call 0 call.pages)
        (protectedFlags call protectedPages) ∧
      Zeroed now ram (Piece call 0 call.pages)
  | .committing =>
    Staged before now (call.start/4096) call.pages (Piece call 0 call.pages)
        (fun _ => regionFlags call.writable) ∧
      Zeroed now ram (Piece call 0 call.pages)
  | .rollingBack rolledBack mapped => mapped ≤ call.pages ∧
    ∃ flags,(∀ page,(flags page).present=true ∧ (flags page).userAccessible=true) ∧
      Staged before now (call.start/4096) call.pages (Piece call rolledBack mapped) flags
  | .cleaning =>
    ∃ flags,Staged before now (call.start/4096) call.pages (fun _ => False) flags

section

variable (process : ProcessState) (before : AddressSpace) (call : MmapCall)

/-- The state of a request, relative to the process from before. -/
def MmapInv (vm : VmState)
    (stage : MmapStage) : Prop :=
  ∃ now,vm.process={process with addressSpace := some now} ∧
    MmapAt before call now vm.paging.ram stage

/-- What a section leads to: the call goes on, it returns and the process is
as before, or it returns and the region is there. -/
def MmapAfter
    (result : Outcome MmapStage×VmState) : Prop :=
  match result.1 with
  | .next stage => MmapInv process before call result.2 stage
  | .done rax => rax=-1 ∧ result.2.process=process ∨ rax=call.start ∧
    ∃ now,result.2.process={process with addressSpace := some now,mmapNext := call.finish} ∧
      MmapAt before call now result.2.paging.ram .committing
  | .exit _ => False

end

variable {stage : MmapStage} {mapped : ℕ}

section

variable {process : ProcessState} {before now : AddressSpace} {call : MmapCall} {vm : VmState}
  {rest : Multiset ℕ}

theorem Resting.process_eq (hresting : Resting process before) :
    {process with addressSpace := some before}=process := by
  obtain ⟨space,entry,top,code,next,cwd⟩ := process
  have hspace : space=some before := hresting.has
  rw [hspace]

/-- The page with an offset in the region. -/
theorem Accepted.page (hcall : Accepted process before call) (offset : ℕ) :
    (call.start+offset*4096)/4096=call.start/4096+offset := by
  have haligned := hcall.aligned
  have hstart := hcall.start
  omega

theorem Accepted.region (hcall : Accepted process before call) :
    call.start%4096=0 ∧ userSpaceBase ≤ call.start ∧
      call.start+call.pages*4096≤userSpaceBase+userSpaceSize := by
  have haligned := hcall.aligned
  have hlow := hcall.low
  have hstart := hcall.start
  have hfinish := hcall.finish
  have hinside := hcall.inside
  have hbase : userMmapBase=userSpaceBase+0x10000000 := rfl
  have hlimit : userMmapLimit=userSpaceBase+userSpaceSize-0x100000 := rfl
  refine ⟨?_,?_,?_⟩ <;> omega

/-- A request that holds nothing but its space: the stages with a new space
are stored like this. -/
theorem mmapInv_put {later : AddressSpace} {allocator : BootInfoFrameAllocator}
    (hprocess : vm.process={process with addressSpace := some now})
    (hstage : MmapAt before call later vm.paging.ram stage) :
    MmapInv process before call (vm.put later allocator) stage :=
  ⟨later,by rw [VmState.put,hprocess],hstage⟩

theorem backs_now (hbacks : Backs books vm.paging.allocator (vm.process.ownedFrames+rest))
    (hprocess : vm.process={process with addressSpace := some now}) :
    Backs books vm.paging.allocator (now.ownedFrames+rest) := by
  rw [hprocess] at hbacks
  exact hbacks

theorem after_checking (hcall : Accepted process before call) {checked : ℕ}
    (hinv : MmapInv process before call vm (.checking checked)) :
    MmapAfter process before call (mmapStep call vm (.checking checked)) := by
  obtain ⟨now,hprocess,hnow⟩ := hinv
  have hsame : now=before := hnow
  subst hsame
  rw [mmapStep]
  split
  · refine ⟨now,hprocess,Nat.zero_le _,?_⟩
    refine (Staged.refl hcall.tight.exclusive hcall.tight.closed _ _ _).congr fun page => ?_
    refine iff_of_false not_false ?_
    rw [Piece]
    omega
  · have hspace : vm.process.addressSpace=some now := by rw [hprocess]
    rw [hspace]
    dsimp only
    split
    · exact ⟨now,hprocess,rfl⟩
    · exact Or.inl ⟨rfl,hprocess.trans hcall.process_eq⟩

theorem after_mapping (hinv : MmapInv process before call vm (.mapping mapped)) :
    MmapAfter process before call (mmapStep call vm (.mapping mapped)) := by
  obtain ⟨now,hprocess,hmapped,hstaged⟩ := hinv
  rw [mmapStep]
  split
  · rename_i hdone
    have hall : mapped=call.pages := Nat.le_antisymm hmapped hdone
    subst hall
    refine ⟨now,hprocess,hstaged,fun page frame hpage => ?_⟩
    rw [Piece] at hpage
    omega
  rename_i hmore
  have hless : mapped<call.pages := Nat.lt_of_not_le hmore
  split
  · exact ⟨now,hprocess,hless,hstaged⟩
  · split
    · exact ⟨now,hprocess,hmapped,_,fun _ => ⟨rfl,rfl⟩,hstaged⟩
    · exact ⟨now,hprocess,hless,hstaged⟩

theorem after_installing (hcall : Accepted process before call)
    (hbacks : Backs books vm.paging.allocator (vm.process.ownedFrames+rest))
    (hinv : MmapInv process before call vm (.installing mapped)) :
    MmapAfter process before call (mmapStep call vm (.installing mapped)) := by
  obtain ⟨now,hprocess,hmapped,hstaged⟩ := hinv
  have hspace : vm.process.addressSpace=some now := by rw [hprocess]
  have hnext : vm.process.mmapNext=call.start := by rw [hprocess,hcall.start]
  rw [mmapStep,hspace]
  dsimp only
  rw [if_neg (not_not.mpr hnext)]
  generalize hpages : List.range' (call.start/4096+mapped) (batchOf call.pages mapped)=pages
  have hmaps := mapsPages_mapPages mmapStagingFlags pages hstaged.exclusive hstaged.closed
    (backs_now hbacks hprocess)
  have hcount := mapPages_count mmapStagingFlags pages now vm.paging.allocator
  generalize mapPages mmapStagingFlags pages now vm.paging.allocator=installed at hmaps hcount
  have hbatch : mapped+batchOf call.pages mapped ≤ call.pages := by
    rw [batchOf]
    omega
  rw [← hpages,List.length_range'] at hcount
  have hin : ∀ page∈pages,call.start/4096≤page ∧ page<call.start/4096+call.pages ∧
      mmapStagingFlags=mmapStagingFlags := by
    intro page hmem
    rw [← hpages,List.mem_range'_1] at hmem
    exact ⟨by omega,by omega,rfl⟩
  have hlater : Staged before installed.2.1 (call.start/4096) call.pages
      (Piece call 0 (mapped+installed.1)) fun _ => mmapStagingFlags := by
    refine (hstaged.map hmaps hin).congr fun page => ?_
    rw [← hpages,List.take_range'_of_length_ge hcount,List.mem_range'_1,Piece,Piece]
    omega
  split
  · rename_i hdone
    rw [← hdone]
    exact mmapInv_put hprocess ⟨by omega,hlater⟩
  · exact mmapInv_put hprocess ⟨by omega,_,fun _ => ⟨rfl,rfl⟩,hlater⟩

theorem after_zeroing (hcall : Accepted process before call) {zeroed : ℕ}
    (hinv : MmapInv process before call vm (.zeroing zeroed)) :
    MmapAfter process before call (mmapStep call vm (.zeroing zeroed)) := by
  obtain ⟨now,hprocess,hstaged,hzeroed⟩ := hinv
  have hspace : vm.process.addressSpace=some now := by rw [hprocess]
  rw [mmapStep]
  split
  · rename_i hdone
    have hall : Zeroed now vm.paging.ram (Piece call 0 call.pages) := by
      intro page frame hpage
      refine hzeroed page frame ?_
      rw [Piece] at *
      omega
    split
    · rename_i hwritable
      exact ⟨now,hprocess,by rw [regionFlags,hwritable]; exact hstaged,hall⟩
    · rename_i hreadOnly
      refine ⟨now,hprocess,Bool.eq_false_of_not_eq_true hreadOnly,
        hstaged.congr_flags fun page hpage => ?_,hall⟩
      rw [Piece] at hpage
      rw [protectedFlags,if_neg (by omega)]
  rw [hspace]
  dsimp only
  split
  · exact ⟨now,hprocess,le_rfl,_,fun _ => ⟨rfl,rfl⟩,hstaged⟩
  · rename_i ram hzero
    have haligned : (call.start+zeroed*4096)%4096=0 := by
      have := hcall.region.1
      omega
    obtain ⟨hnew,hother⟩ := zeroBytesInAddressSpace_ok haligned hzero
    rw [hcall.page] at hnew
    refine ⟨now,hprocess,hstaged,fun page frame hpage hframe offset hoffset => ?_⟩
    by_cases hold : Piece call 0 zeroed page
    · rcases hother (frame+offset) with hsame|hnull
      · exact hsame.trans (hzeroed page frame hold hframe offset hoffset)
      · exact hnull.1
    · obtain ⟨leaf,hleaf,rfl⟩ := Option.map_eq_some_iff.mp hframe
      rw [Piece] at hpage hold
      exact hnew page leaf (by omega) (by omega) hleaf offset hoffset

theorem after_protecting {protectedPages : ℕ}
    (hinv : MmapInv process before call vm (.protecting protectedPages)) :
    MmapAfter process before call (mmapStep call vm (.protecting protectedPages)) := by
  obtain ⟨now,hprocess,hreadOnly,hstaged,hzeroed⟩ := hinv
  have hspace : vm.process.addressSpace=some now := by rw [hprocess]
  rw [mmapStep]
  split
  · rename_i hdone
    refine ⟨now,hprocess,hstaged.congr_flags fun page hpage => ?_,hzeroed⟩
    rw [Piece] at hpage
    rw [protectedFlags,if_pos (by omega),regionFlags,hreadOnly]
    rfl
  rename_i hmore
  rw [hspace]
  dsimp only
  generalize hpages : List.range' (call.start/4096+protectedPages)
    (batchOf call.pages protectedPages)=pages
  have hbatch : protectedPages+batchOf call.pages protectedPages ≤ call.pages := by
    rw [batchOf]
    omega
  have hin : ∀ page∈pages,Piece call 0 call.pages page := by
    intro page hmem
    rw [← hpages,List.mem_range'_1] at hmem
    rw [Piece]
    omega
  obtain ⟨count,hlater,hall⟩ := protectPages_spec mmapFinalFlags pages now
  generalize protectPages mmapFinalFlags pages now=changed at hlater hall
  have hpart := hstaged.protect mmapFinalFlags fun page hmem =>
    hin page (List.mem_of_mem_take (i := count) hmem)
  have hzeroedLater : Zeroed changed.2 vm.paging.ram (Piece call 0 call.pages) := by
    intro page frame hpage hframe
    rw [hlater,Tables.frameAt_protect] at hframe
    exact hzeroed page frame hpage hframe
  rw [← hlater] at hpart
  split
  · rename_i hdone
    refine mmapInv_put hprocess ⟨hreadOnly,hpart.congr_flags fun page hpage => ?_,hzeroedLater⟩
    rw [hall hdone,← hpages]
    simp only [List.mem_range'_1,protectedFlags]
    split_ifs <;> first | rfl | omega
  · refine mmapInv_put hprocess ⟨le_rfl,_,fun page => ?_,hpart⟩
    dsimp only [protectedFlags]
    split_ifs <;> exact ⟨rfl,rfl⟩

section

variable (hcall : Accepted process before call)
include hcall

theorem after_committing (hinv : MmapInv process before call vm .committing) :
    MmapAfter process before call (mmapStep call vm .committing) := by
  obtain ⟨now,hprocess,hnow⟩ := hinv
  have hnext : vm.process.mmapNext=call.start := by rw [hprocess,hcall.start]
  rw [mmapStep,if_neg (not_not.mpr hnext)]
  exact Or.inr ⟨rfl,now,by rw [hprocess],hnow⟩

section

variable (hbacks : Backs books vm.paging.allocator (vm.process.ownedFrames+rest))
include hbacks

theorem after_rollingBack {rolledBack : ℕ}
    (hinv : MmapInv process before call vm (.rollingBack rolledBack mapped)) :
    MmapAfter process before call (mmapStep call vm (.rollingBack rolledBack mapped)) := by
  obtain ⟨now,hprocess,hmapped,flags,hflags,hstaged⟩ := hinv
  have hspace : vm.process.addressSpace=some now := by rw [hprocess]
  have hnow := backs_now hbacks hprocess
  obtain ⟨haligned,hlow,hhigh⟩ := hcall.region
  rw [mmapStep]
  split
  · refine ⟨now,hprocess,flags,hstaged.congr fun page => iff_of_false ?_ not_false⟩
    rw [Piece]
    omega
  rename_i hmore
  rw [hspace]
  dsimp only
  have hbatch : batchOf mapped rolledBack≠0 ∧ rolledBack+batchOf mapped rolledBack ≤ mapped := by
    rw [batchOf,vmBatchPages]
    omega
  generalize batchOf mapped rolledBack=batch at hbatch
  obtain ⟨records,hcollect⟩ : ∃ records,
      collectUnmapRecords now (call.start+rolledBack*4096) batch=.ok records := by
    refine collectUnmapRecords_isOk hbatch.1 (by omega) (by omega) (by omega) fun page hpage => ?_
    rw [hcall.page]
    obtain ⟨frame,hleaf⟩ := hstaged.leaf (call.start/4096+rolledBack+page) (by rw [Piece]; omega)
    have howned : frame∈now.ownedFrames :=
      hstaged.exclusive.owned (.inr (call.start/4096+rolledBack+page)) frame
        (by rw [Tables.frameAt,hleaf]; rfl)
    exact ⟨_,hleaf,(hflags _).1,(hflags _).2,
      BootInfoFrameAllocator.aligned_of_backs hnow (Multiset.mem_add.mpr (Or.inl howned))⟩
  have hnodup := Multiset.coe_nodup.mp hnow.nodup
  have hunmaps := @unmapsRange vm.paging.allocator _ _ _ _ hstaged.exclusive hnodup hcollect
  rw [hcall.page] at hunmaps
  have hlater := hstaged.unmap hnodup hunmaps fun page hfirst hlast => by
    rw [Piece]
    omega
  rw [hunmaps.ok]
  refine mmapInv_put hprocess ⟨hmapped,flags,hflags,hlater.congr fun page => ?_⟩
  rw [Piece,Piece]
  omega

theorem after_cleaning (hinv : MmapInv process before call vm .cleaning) :
    MmapAfter process before call (mmapStep call vm .cleaning) := by
  obtain ⟨now,hprocess,flags,hstaged⟩ := hinv
  have hspace : vm.process.addressSpace=some now := by rw [hprocess]
  have hnodup := Multiset.coe_nodup.mp (backs_now hbacks hprocess).nodup
  obtain ⟨haligned,hlow,hhigh⟩ := hcall.region
  obtain ⟨removed,hcleans⟩ := @cleansTables vm.paging.allocator _ _ _ hstaged.exclusive
    hstaged.closed hnodup hcall.pages haligned hlow hhigh
  have hback := hstaged.cleaned hcall.tight hnodup rfl hcleans
  rw [mmapStep,hspace]
  dsimp only
  rw [hcleans.ok,hback,if_pos ⟨rfl,hcall.owned.symm⟩]
  refine Or.inl ⟨rfl,?_⟩
  rw [VmState.put,hprocess]
  exact hcall.process_eq

/-- Every section keeps the transaction, whatever the allocator has. -/
theorem after_mmapStep (hinv : MmapInv process before call vm stage) :
    MmapAfter process before call (mmapStep call vm stage) := by
  cases stage with
  | checking checked => exact after_checking hcall hinv
  | mapping mapped => exact after_mapping hinv
  | installing mapped => exact after_installing hcall hbacks hinv
  | zeroing zeroed => exact after_zeroing hcall hinv
  | protecting protectedPages => exact after_protecting hinv
  | committing => exact after_committing hcall hinv
  | rollingBack rolledBack mapped => exact after_rollingBack hcall hbacks hinv
  | cleaning => exact after_cleaning hcall hbacks hinv

end

end

end

/-! ## Other tasks -/

section

variable {before now : AddressSpace} {call : MmapCall} {ram later : Ram}

theorem Zeroed.congr {pages : ℕ → Prop} (hzeroed : Zeroed now ram pages) (hnow : Exclusive now)
    (hram : ∀ frame∈now.ownedFrames,∀ offset<4096,later (frame+offset)=ram (frame+offset)) :
    Zeroed now later pages := by
  intro page frame hpage hframe offset hoffset
  rw [hram frame (hnow.owned _ frame hframe) offset hoffset]
  exact hzeroed page frame hpage hframe offset hoffset

/-- A request only depends on the memory of its own frames. -/
theorem MmapAt.congr (hstage : MmapAt before call now ram stage)
    (hram : ∀ frame∈now.ownedFrames,∀ offset<4096,later (frame+offset)=ram (frame+offset)) :
    MmapAt before call now later stage := by
  cases stage with
  | zeroing | committing => exact ⟨hstage.1,hstage.2.congr hstage.1.exclusive hram⟩
  | protecting protectedPages =>
    exact ⟨hstage.1,hstage.2.1,hstage.2.2.congr hstage.2.1.exclusive hram⟩
  | checking | mapping | installing | rollingBack | cleaning => exact hstage

end

/-! ## Frames from before -/

/-- The memory of some frames is the same. -/
def Kept (frames : List ℕ) (ram later : Ram) : Prop :=
  ∀ frame∈frames,∀ offset<4096,later (frame+offset)=ram (frame+offset)

theorem Kept.refl (frames : List ℕ) (ram : Ram) : Kept frames ram ram := fun _ _ _ _ => rfl

theorem Kept.trans {frames others : List ℕ} {ram middle later : Ram}
    (hfirst : Kept frames ram middle) (hsecond : Kept others middle later)
    (hothers : ∀ frame∈frames,frame∈others) : Kept frames ram later :=
  fun frame hmem offset hoffset =>
    (hsecond frame (hothers frame hmem) offset hoffset).trans (hfirst frame hmem offset hoffset)

section

variable {process : ProcessState} {before : AddressSpace} {call : MmapCall} {vm : VmState}
  {rest : Multiset ℕ}

theorem owned_of_grown {now : AddressSpace} {pages : ℕ → Prop} (hgrown : Grown before now pages)
    {frame : ℕ} (hmem : frame∈before.ownedFrames) : frame∈now.ownedFrames := by
  obtain ⟨extra,howned,-⟩ := hgrown.owned
  rw [howned]
  exact List.mem_append_left extra hmem

/-- Nothing from before is touched while the request is served. -/
theorem MmapAt.grown {now : AddressSpace} {ram : Ram} (hstage : MmapAt before call now ram stage) :
    ∃ pages,Grown before now pages := by
  cases stage with
  | checking checked =>
    have hsame : now=before := hstage
    rw [hsame]
    exact ⟨_,Grown.refl before fun _ => True⟩
  | mapping mapped => exact ⟨_,hstage.2.grown⟩
  | installing mapped => exact ⟨_,hstage.2.grown⟩
  | zeroing zeroed => exact ⟨_,hstage.1.grown⟩
  | protecting protectedPages => exact ⟨_,hstage.2.1.grown⟩
  | committing => exact ⟨_,hstage.1.grown⟩
  | rollingBack rolledBack mapped =>
    obtain ⟨-,flags,-,hstaged⟩ := hstage
    exact ⟨_,hstaged.grown⟩
  | cleaning =>
    obtain ⟨flags,hstaged⟩ := hstage
    exact ⟨_,hstaged.grown⟩

/-- The process keeps its frames while the request is served. -/
theorem MmapInv.owned (hinv : MmapInv process before call vm stage) {frame : ℕ}
    (hmem : frame∈before.ownedFrames) : frame∈vm.process.ownedFrames := by
  obtain ⟨now,hprocess,hstage⟩ := hinv
  obtain ⟨pages,hgrown⟩ := hstage.grown
  rw [hprocess]
  exact owned_of_grown hgrown hmem

/-- Only the frames of the region are written. -/
theorem kept_mmapStep (hcall : Accepted process before call)
    (hbacks : Backs books vm.paging.allocator (vm.process.ownedFrames+rest))
    (hinv : MmapInv process before call vm stage) :
    Kept before.ownedFrames vm.paging.ram (mmapStep call vm stage).2.paging.ram := by
  have hsame : ∀ later : VmState,later.paging.ram=vm.paging.ram →
      Kept before.ownedFrames vm.paging.ram later.paging.ram := by
    intro later hram
    rw [hram]
    exact Kept.refl _ _
  cases stage with
  | zeroing zeroed =>
    obtain ⟨now,hprocess,hstaged,-⟩ := hinv
    have hspace : vm.process.addressSpace=some now := by rw [hprocess]
    have hnow := backs_now hbacks hprocess
    rw [mmapStep]
    split
    · exact hsame vm rfl
    rename_i hmore
    rw [hspace]
    dsimp only
    split
    · exact hsame vm rfl
    rename_i ram hzero
    have haligned : (call.start+zeroed*4096)%4096=0 := by
      have := hcall.region.1
      omega
    obtain ⟨-,hother⟩ := zeroBytesInAddressSpace_ok haligned hzero
    rw [hcall.page] at hother
    intro frame hmem offset hoffset
    rcases hother (frame+offset) with hram|⟨-,page,leaf,hlow,hhigh,hleaf,hfirst,hlast⟩
    · exact hram
    exfalso
    have hpage : Piece call 0 call.pages page := by
      rw [batchOf] at hhigh
      rw [Piece]
      omega
    have hplace : now.tables.frameAt (.inr page)=some leaf.frame := by
      rw [Tables.frameAt,hleaf]
      rfl
    have hnew : before.tables.frameAt (.inr page)=none := by
      rw [Tables.frameAt,hstaged.free page hpage]
      rfl
    obtain ⟨extra,howned,hextra⟩ := hstaged.grown.owned
    have hnodup := Multiset.coe_nodup.mp hnow.nodup
    rw [howned] at hnodup
    have hlater : frame∈now.ownedFrames := owned_of_grown hstaged.grown hmem
    have hone := BootInfoFrameAllocator.aligned_of_backs hnow
      (Multiset.mem_add.mpr (Or.inl (Multiset.mem_coe.mpr hlater)))
    have htwo := BootInfoFrameAllocator.aligned_of_backs hnow
      (Multiset.mem_add.mpr (Or.inl (Multiset.mem_coe.mpr
        (hstaged.exclusive.owned _ leaf.frame hplace))))
    -- both frames are aligned, so a common byte makes them equal
    have heq : leaf.frame=frame := by omega
    rw [heq] at hplace
    exact (List.nodup_append.mp hnodup).2.2 frame hmem frame
      ((hextra frame).mpr ⟨_,hplace,hnew⟩) rfl
  | checking | mapping | installing | protecting | committing | rollingBack | cleaning =>
    refine hsame _ ?_
    rw [mmapStep]
    repeat' split
    all_goals rfl

/-- The pages of a new region are user pages. -/
theorem usable_map {now : AddressSpace} {ram : Ram} (hbefore : Usable before)
    (hmapped : MmapAt before call now ram .committing) : Usable now := by
  intro page leaf hleaf
  by_cases hpage : Piece call 0 call.pages page
  · obtain ⟨frame,hnew⟩ := hmapped.1.leaf page hpage
    rw [hnew] at hleaf
    cases hleaf
    exact ⟨rfl,rfl⟩
  · rw [hmapped.1.others page hpage] at hleaf
    exact hbefore page leaf hleaf

/-! ## The call ends -/

/-- A bound on the sections that are left, whether the request fails or
not. -/
def mmapSectionsLeft (call : MmapCall) : MmapStage → ℕ
  | .checking checked => call.pages-checked+5*call.pages+8
  | .mapping mapped => 2*(call.pages-mapped)+3*call.pages+7
  | .installing mapped => 2*(call.pages-mapped)+3*call.pages+6
  | .zeroing zeroed => call.pages-zeroed+2*call.pages+5
  | .protecting protectedPages => call.pages-protectedPages+call.pages+4
  | .committing => call.pages+3
  | .rollingBack rolledBack mapped => mapped-rolledBack+2
  | .cleaning => 1

/-- Each section brings the call closer to its end. -/
theorem mmapSectionsLeft_mmapStep {later : MmapStage} (hinv : MmapInv process before call vm stage)
    (hstep : (mmapStep call vm stage).1=.next later) :
    mmapSectionsLeft call later < mmapSectionsLeft call stage := by
  obtain ⟨now,hprocess,hstage⟩ := hinv
  have hspace : vm.process.addressSpace=some now := by rw [hprocess]
  cases stage with
  | checking | zeroing | protecting | rollingBack =>
    rw [mmapStep,hspace] at hstep
    dsimp only at hstep
    repeat' split at hstep
    all_goals cases hstep
    all_goals simp only [mmapSectionsLeft,batchOf,vmBatchPages]
    all_goals omega
  | mapping mapped =>
    obtain ⟨hmapped,-⟩ := hstage
    rw [mmapStep] at hstep
    repeat' split at hstep
    all_goals cases hstep
    all_goals rw [mmapSectionsLeft,mmapSectionsLeft]
    all_goals omega
  | installing mapped =>
    obtain ⟨hmore,-⟩ := hstage
    have hcount := mapPages_count mmapStagingFlags
      (List.range' (call.start/4096+mapped) (batchOf call.pages mapped)) now vm.paging.allocator
    rw [mmapStep,hspace] at hstep
    rw [List.length_range',batchOf,vmBatchPages] at hcount
    dsimp only at hstep
    repeat' split at hstep
    all_goals cases hstep
    all_goals simp only [mmapSectionsLeft,batchOf,vmBatchPages]
    all_goals omega
  | committing =>
    rw [mmapStep] at hstep
    split at hstep
    all_goals cases hstep
    rw [mmapSectionsLeft,mmapSectionsLeft]
    omega
  | cleaning =>
    rw [mmapStep,hspace] at hstep
    dsimp only at hstep
    split at hstep <;> cases hstep

end

end TuwaiqOS.MmapTransaction
