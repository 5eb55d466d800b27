import TuwaiqOS.MmapAdmission

/-!
# The records of `MUNMAP` and the kernel heap

`MUNMAP` reserves one record for each page of its range before it looks at
the pages, and the reservation must not fail. Ranges are only bounded by the
arena's pointer, which moves by what `MMAP` returns and never goes back. The
records fit in the kernel heap as long as a process has been given fewer pages
than the heap has room for. The arena is larger than that, and with enough
memory a process that maps one region after the other reaches its end.
-/

namespace TuwaiqOS.UnmapRecords

open ResourceLedger FrameAllocator FrameAdmission AddressSpaces ElfImage VmCalls
open ProcessMemory MmapTransaction MemoryCalls MmapAdmission
open FrameConservation (smallPaging backs_smallPaging)
open BootInfoFrameAllocator (books)

/-- `HEAP_SIZE`. -/
def heapSize : ℕ := 4*1024*1024

/-- Size of an `UnmapRecord`: page, frame and flags. -/
def unmapRecordSize : ℕ := 24

/-- What `munmap_in_current_process` reserves with `Vec::with_capacity`. -/
def recordBytes (call : MunmapCall) : ℕ := unmapRecordSize*call.pages

section

variable {bytes : List UInt8} {regions : List (ℕ×ℕ)} {caller before entered : Caller}

/-- The arena's pointer is its base and all that was handed out. -/
theorem next_eq_handedOut (hpast : History bytes caller regions) :
    caller.vm.process.mmapNext=userMmapBase+handedOut regions := by
  induction hpast with
  | spawned hspawned =>
    obtain ⟨_,_,_,_,_,_,_,_,-,-,-,-,hprocess⟩ := hspawned.built
    rw [← Option.some.inj hprocess]
    rfl
  | step hpast hstep ih =>
    obtain ⟨hbalanced,hholds⟩ := holds_history hpast
    rw [(holds_step hholds hbalanced hstep).2.2,ih]
    simp only [handedOut,List.map_append,List.sum_append]
    omega

/-- The records of `MUNMAP` fit in the kernel heap exactly if the range has at
most 174762 pages. They take at most 4712448 bytes, and they fit whenever the
process has been given at most 174762 pages since it was spawned. -/
theorem records_fit_iff {ptr len : ℕ} {call : MunmapCall} {stage : MunmapStage}
    (hpast : History bytes before regions)
    (henter : before.enter (.munmap ptr len)=some entered)
    (haccepted : entered.job=.munmap call stage) :
    (recordBytes call ≤ heapSize ↔ len ≤ 174762*4096) ∧ recordBytes call ≤ 4712448 ∧
      (handedOut regions ≤ 174762*4096 → recordBytes call ≤ heapSize) := by
  obtain ⟨-,space,-,-,hresting,-⟩ := resting_enter hpast henter
  have hnext := next_eq_handedOut hpast
  have hlimit := hresting.limit
  obtain ⟨-,-,⟨hrefused,-⟩|⟨served,-,hcall,-,hlen,hjob,-⟩⟩ := enter_munmap hresting henter
  · rw [hrefused] at haccepted
    cases haccepted
  rw [hjob] at haccepted
  cases haccepted
  have hbase := hcall.base
  have hbelow := hcall.below
  have harena : userMmapLimit=userMmapBase+0x2ff00000 := rfl
  simp only [recordBytes,unmapRecordSize,heapSize]
  omega

/-- A call inside the arena is served. -/
theorem enter_munmap_job {rax : ℤ} {ptr len : ℕ} {call : MunmapCall}
    (hjob : caller.job=.idle rax) (hserved : munmapEnter ptr len caller.vm.process=some call) :
    caller.enter (.munmap ptr len)=
      some {caller with job := .munmap call (.collecting 0 [])} := by
  unfold Caller.enter
  rw [hjob]
  dsimp only
  rw [hserved]

theorem records_fit_iff_five_pages :
    ∃ before entered regions,History tinyElf before regions ∧
      before.enter (.munmap userMmapBase 0x5000)=some entered ∧
      entered.job=.munmap ⟨userMmapBase,5⟩ (.collecting 0 []) ∧
      recordBytes ⟨userMmapBase,5⟩ ≤ heapSize := by
  have hrun : ((spawnAlone tinyElf smallPaging none).any fun first =>
      (first.enter (.mmap 0x5000 true)).any fun entered =>
        Caller.returns (entered.sections 20) userMmapBase &&
        (entered.sections 20).vm.process.mmapNext=userMmapBase+0x5000 &&
        (entered.sections 20).vm.process.addressSpace.isSome)=true := by
    decide +kernel
  obtain ⟨first,hspawn,hrun⟩ := (Option.any_eq_true _ _).mp hrun
  obtain ⟨entered,henter,hrun⟩ := (Option.any_eq_true _ _).mp hrun
  simp only [Bool.and_eq_true,decide_eq_true_eq] at hrun
  obtain ⟨⟨hreturns,hnext⟩,hspace⟩ := hrun
  have hstart : History tinyElf first [] := .spawned (spawned_spawnAlone backs_smallPaging hspawn)
  obtain ⟨count,hserving,-⟩ := (show Serving entered 0 entered from .start).sections 20
  obtain ⟨regions,hpast⟩ := History.serving (hstart.step (.call _ henter)) hserving
  have hserved : munmapEnter userMmapBase 0x5000 (entered.sections 20).vm.process=
      some ⟨userMmapBase,5⟩ := by
    rw [munmapEnter,if_neg (by decide),if_neg (by decide),if_pos]
    rw [hnext]
    exact ⟨le_rfl,le_rfl,hspace⟩
  have hmunmap := enter_munmap_job (Caller.job_of_returns hreturns) hserved
  exact ⟨_,_,regions,hpast,hmunmap,rfl,((records_fit_iff hpast hmunmap rfl).1).mpr (by decide)⟩

/-! ## Mapping one region after the other -/

/-- A process outside of calls with a free arena from an address on. -/
structure Ready (bytes : List UInt8) (caller : Caller) (next spare : ℕ) : Prop where
  /-- It has a past. -/
  past : ∃ regions,History bytes caller regions
  /-- It is outside of calls. -/
  idle : ∃ rax,caller.job=.idle rax
  /-- The arena's pointer. -/
  pointer : caller.vm.process.mmapNext=next
  /-- The rest of the arena is free. -/
  clear : ∀ space,caller.vm.process.addressSpace=some space → ∀ page,next ≤ page*4096 →
    page*4096<userMmapLimit → space.tables.leaf page=none
  /-- No failure is injected. -/
  quiet : caller.vm.failAfter=none
  /-- There are frames. -/
  covers : Covers spare caller.vm.paging.allocator

/-- A process that was just spawned. -/
theorem ready_spawned {spare : ℕ} (hspawned : Spawned bytes caller)
    (hapart : ∀ page∈elfPages bytes++stackPages,
      ¬(userMmapBase ≤ page*4096 ∧ page*4096<userMmapLimit))
    (hquiet : caller.vm.failAfter=none) (hcovers : Covers spare caller.vm.paging.allocator) :
    Ready bytes caller userMmapBase spare := by
  have hpast : History bytes caller [] := .spawned hspawned
  refine ⟨⟨[],hpast⟩,hspawned.job,next_eq_handedOut hpast,
    fun space hspace page hlow hhigh => ?_,hquiet,hcovers⟩
  by_contra hmapped
  exact hapart page (leaf_spawned hspawned hspace hmapped) ⟨hlow,hhigh⟩

/-- A request that is counted is admitted. -/
theorem mmapEnter_admitted {vm : VmState} {space : AddressSpace} {pages : ℕ}
    (hspace : vm.process.addressSpace=some space) (hpages : 0<pages)
    (hmax : pages*4096 ≤ maxMmapLen) (hlimit : vm.process.mmapNext+pages*4096 ≤ userMmapLimit)
    (hcounted : pages+(pages/512+2)+2 ≤ vm.paging.allocator.framesAvailable) :
    mmapEnter (pages*4096) true vm=some ⟨vm.process.mmapNext,vm.process.mmapNext+pages*4096,
      pages,true,space.ownedFrames.length⟩ := by
  have hcount : (pages*4096+0xFFF)/4096=pages := by omega
  have hsmall : userMmapLimit<2^64 := by decide
  simp only [mmapEnter,hspace,hcount,Option.bind_eq_bind,Option.bind_some]
  rw [if_neg (by omega),if_neg (by omega),if_neg (by omega),if_neg (by omega)]
  rfl

/-- A ready process maps some pages. -/
theorem Ready.map {next spare pages : ℕ}
    (hready : Ready bytes caller next (pages+(pages/512+2)+2+spare)) (hpages : 0<pages)
    (hmax : pages*4096 ≤ maxMmapLen) (hlimit : next+pages*4096 ≤ userMmapLimit) :
    ∃ later,Ready bytes later (next+pages*4096) spare := by
  obtain ⟨regions,hpast⟩ := hready.past
  obtain ⟨rax,hjob⟩ := hready.idle
  obtain ⟨entered,henter⟩ := enter_of_idle hjob (.mmap (pages*4096) true)
  obtain ⟨hbefore,space,-,-,hresting,-⟩ := resting_enter hpast henter
  have hpointer := hready.pointer
  have hcounted := hready.covers.counted
  have hadmitted := mmapEnter_admitted hresting.has hpages hmax (by omega) (by omega)
  generalize hcall : MmapCall.mk caller.vm.process.mmapNext
    (caller.vm.process.mmapNext+pages*4096) pages true space.ownedFrames.length=call at hadmitted
  have hbalanced := balanced_enter hbefore henter
  obtain ⟨haccepted,-⟩ := mmapEnter_some hresting hadmitted
  have hentered : entered={caller with job := .mmap call (.checking 0)} := by
    unfold Caller.enter at henter
    rw [hjob] at henter
    dsimp only at henter
    rw [hadmitted] at henter
    exact (Option.some.inj henter).symm
  have hvm : entered.vm=caller.vm := by rw [hentered]
  have hserved : entered.job=.mmap call (.checking 0) := by rw [hentered]
  have hmapping : Mapping caller.vm space call entered := by
    rw [hentered]
    exact ⟨_,rfl,⟨space,hresting.process_eq.symm,rfl⟩,Kept.refl _ _⟩
  have hstart : call.start=next := by rw [← hcall,← hpointer]
  have hfinish : call.finish=next+pages*4096 := by rw [← hcall,← hpointer]
  have hcount : call.pages=pages := by rw [← hcall]
  have hfree : ∀ page,Piece call 0 call.pages page → space.tables.leaf page=none := by
    intro page hpage
    rw [Piece] at hpage
    have haligned := haccepted.region.1
    exact hready.clear space hresting.has page (by omega) (by omega)
  have hworst : worstCaseFrames call ≤ pages+(pages/512+2)+2 := by
    have haligned := haccepted.region.1
    rw [worstCaseFrames,hstart,hfinish,hcount]
    omega
  have hfunded : Funded call spare entered.vm (.checking 0) := by
    rw [hvm]
    exact hready.covers.mono (by omega)
  obtain ⟨count,hdone,hmapped,hcovers,hquiet⟩ := exists_sections_mapped haccepted hfree hserved
    hmapping hbalanced (fun page hpage => by rw [Piece] at hpage; omega) hfunded
    (by rw [hvm]; exact hready.quiet) trivial
  obtain ⟨total,hserving,-⟩ := (show Serving entered 0 entered from .start).sections count
  obtain ⟨later,hlater⟩ := History.serving (hpast.step (.call _ henter)) hserving
  generalize entered.sections count=last at *
  obtain ⟨⟨hfailed,-⟩|⟨-,now,hprocess,hnow⟩,-⟩ := hmapped
  · rw [hfailed] at hdone
    cases hdone
  refine ⟨last,⟨later,hlater⟩,⟨_,hdone⟩,by rw [hprocess,← hfinish],?_,hquiet,hcovers⟩
  intro found hfound page hlow hhigh
  rw [hprocess] at hfound
  cases hfound
  rw [hnow.1.others page]
  · exact hready.clear space hresting.has page (by omega) hhigh
  · have haligned := haccepted.region.1
    rw [Piece]
    omega

/-- A ready process maps 64 MiB some times. -/
theorem Ready.rounds {next spare rounds : ℕ} (hready : Ready bytes caller next (rounds*16420+spare))
    (hlimit : next+rounds*maxMmapLen ≤ userMmapLimit) :
    ∃ later,Ready bytes later (next+rounds*maxMmapLen) spare := by
  induction rounds generalizing caller next with
  | zero =>
    rw [Nat.zero_mul,Nat.zero_add] at hready
    exact ⟨caller,by rwa [Nat.zero_mul]⟩
  | succ rounds ih =>
    have hmax : 16384*4096=maxMmapLen := rfl
    rw [Nat.succ_mul] at hlimit ⊢
    have hfunded : Ready bytes caller next (16384+(16384/512+2)+2+(rounds*16420+spare)) := by
      rwa [Nat.succ_mul,Nat.add_right_comm,Nat.add_comm] at hready
    obtain ⟨mapped,hmapped⟩ := hfunded.map (by omega) (by omega) (by omega)
    rw [hmax] at hmapped
    obtain ⟨later,hlater⟩ := ih hmapped (by omega)
    exact ⟨later,by rwa [Nat.add_assoc,Nat.add_comm maxMmapLen] at hlater⟩

end

/-- A machine with 1 GiB of memory. -/
def largePaging : Paging := ⟨⟨[⟨0x100000,0x40100000,.usable⟩],0,[],0⟩,fun _ => 0⟩

/-- After 64 MiB were mapped eleven times, one call asks for more records than
the kernel heap holds. -/
theorem records_exceed_heap :
    ∃ before entered regions,History tinyElf before regions ∧
      before.enter (.munmap userMmapBase (11*maxMmapLen))=some entered ∧
      entered.job=.munmap ⟨userMmapBase,180224⟩ (.collecting 0 []) ∧
      heapSize < recordBytes ⟨userMmapBase,180224⟩ := by
  have hbacks : Backs books largePaging.allocator 0 := ⟨List.pairwise_singleton _ _,rfl⟩
  have hrun : ((spawnAlone tinyElf largePaging none).any fun first =>
      first.vm.failAfter.isNone &&
      first.vm.paging.allocator.memoryRegions=[⟨0x100000,0x40100000,.usable⟩] &&
      200000 ≤ first.vm.paging.allocator.framesAvailable)=true := by
    decide +kernel
  have hapart : ∀ page∈elfPages tinyElf++stackPages,
      ¬(userMmapBase ≤ page*4096 ∧ page*4096<userMmapLimit) := by
    decide +kernel
  obtain ⟨first,hspawn,hrun⟩ := (Option.any_eq_true _ _).mp hrun
  simp only [Bool.and_eq_true,decide_eq_true_eq,Option.isNone_iff_eq_none] at hrun
  obtain ⟨⟨hquiet,hregions⟩,hcounted⟩ := hrun
  have hcovers : Covers (11*16420+0) first.vm.paging.allocator := by
    refine ⟨?_,?_,by omega⟩ <;> rw [hregions]
    · simp [Physical]
    · simp [Aligned]
  have hready := ready_spawned (spawned_spawnAlone hbacks hspawn) hapart hquiet hcovers
  obtain ⟨before,hbefore⟩ := hready.rounds (by decide)
  obtain ⟨regions,hpast⟩ := hbefore.past
  obtain ⟨rax,hjob⟩ := hbefore.idle
  obtain ⟨entered,henter⟩ := enter_of_idle hjob (.munmap userMmapBase (11*maxMmapLen))
  obtain ⟨-,space,-,-,hresting,-⟩ := resting_enter hpast henter
  have hserved : munmapEnter userMmapBase (11*maxMmapLen) before.vm.process=
      some ⟨userMmapBase,180224⟩ := by
    rw [munmapEnter,if_neg (by decide),if_neg (by decide),if_pos]
    · rfl
    · rw [hbefore.pointer,hresting.has]
      exact ⟨le_rfl,le_rfl,rfl⟩
  exact ⟨before,_,regions,hpast,enter_munmap_job hjob hserved,rfl,by decide⟩

end TuwaiqOS.UnmapRecords
