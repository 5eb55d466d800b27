import TuwaiqOS.ProcessMemory

/-!
# MMAP and MUNMAP over the life of a process

From the time a process is spawned on, its executable and its stack stay
mapped, the arena grows by whole regions, and everything below the arena's
pointer was returned by `MMAP`. From this follow the contracts of both calls:
`MMAP` returns fresh zeroed memory or leaves the process as it was, and
`MUNMAP` removes exactly a mapped range of the arena or changes nothing.
Neither call ever ends the process.
-/

namespace TuwaiqOS.MemoryCalls

open FrameAllocator PageTables AddressSpaces ElfImage VmCalls Scheduler
open StagedSpaces MmapTransaction MunmapTransaction ProcessMemory
open FrameConservation (smallPaging backs_smallPaging)
open BootInfoFrameAllocator (books)

variable {last : AddressSpace} {call : MunmapCall} {request : Request} {len ptr : ℕ}

section

variable {bytes : List UInt8} {regions : List (ℕ×ℕ)} {process : ProcessState}
  {space : AddressSpace} {caller later before entered now : Caller} {count : ℕ}

/-! ## Every step -/

/-- A process rests again after a successful `MMAP`. -/
theorem resting_map {call : MmapCall} {ram : Ram} (hcall : Accepted process space call)
    (hmapped : MmapAt space call last ram .committing) :
    Resting {process with addressSpace := some last,mmapNext := call.finish} last := by
  have haligned := hcall.region.1
  have hfinish := hcall.finish
  have hlow := hcall.low
  have hstart := hcall.start
  refine ⟨rfl,hmapped.1.tight hcall.tight fun page hfirst hlast => ?_,usable_map hcall.user hmapped,
    ?_,?_,hcall.inside⟩
  · rw [Piece]
    omega
  · dsimp only
    omega
  · dsimp only
    omega

/-- A process rests again after a successful `MUNMAP`. -/
theorem resting_unmap (hcall : Ranged process space call) (htight : Tight last)
    (hunmapped : Unmapped space last call) :
    Resting {process with addressSpace := some last} last := by
  refine ⟨rfl,htight,fun page leaf hleaf => ?_,hcall.aligned,hcall.low,hcall.limit⟩
  rw [hunmapped.leaf] at hleaf
  dsimp only [Tables.clear] at hleaf
  split at hleaf
  · cases hleaf
  · exact hcall.user page leaf hleaf

/-- Calls are made from outside of calls. -/
theorem enter_idle (henter : caller.enter request=some later) : ∃ rax,caller.job=.idle rax := by
  unfold Caller.enter at henter
  split at henter
  · exact ⟨_,‹_›⟩
  · exact ⟨_,‹_›⟩
  · cases henter

/-- A process outside of calls makes a call. -/
theorem enter_of_idle {rax : ℤ} (hjob : caller.job=.idle rax) (request : Request) :
    ∃ entered,caller.enter request=some entered := by
  unfold Caller.enter
  rw [hjob]
  cases request with
  | mmap len writable => dsimp only; split <;> exact ⟨_,rfl⟩
  | munmap ptr len => dsimp only; split <;> exact ⟨_,rfl⟩

/-- A call to `MMAP` is refused or served. -/
theorem enter_mmap {writable : Bool} (hresting : Resting caller.vm.process space)
    (henter : caller.enter (.mmap len writable)=some later) :
    later.vm=caller.vm ∧ later.others=caller.others ∧ (later.job=.idle (-1) ∨
      ∃ call,Accepted caller.vm.process space call ∧ call.pages=(len+0xFFF)/4096 ∧
        call.writable=writable ∧ Mapping caller.vm space call later) := by
  obtain ⟨rax,hjob⟩ := enter_idle henter
  unfold Caller.enter at henter
  rw [hjob] at henter
  dsimp only at henter
  split at henter
  · cases henter
    exact ⟨rfl,rfl,Or.inl rfl⟩
  · rename_i call hcall
    cases henter
    obtain ⟨haccepted,hpages,hwritable,-⟩ := mmapEnter_some hresting hcall
    exact ⟨rfl,rfl,Or.inr ⟨call,haccepted,hpages,hwritable,_,rfl,
      ⟨space,hresting.process_eq.symm,rfl⟩,Kept.refl _ _⟩⟩

/-- A call to `MUNMAP` is refused or served. -/
theorem enter_munmap (hresting : Resting caller.vm.process space)
    (henter : caller.enter (.munmap ptr len)=some later) :
    later.vm=caller.vm ∧ later.others=caller.others ∧
      (later.job=.idle (-1) ∧ munmapEnter ptr len caller.vm.process=none ∨
      ∃ call,munmapEnter ptr len caller.vm.process=some call ∧
        Ranged caller.vm.process space call ∧ call.ptr=ptr ∧ call.pages*4096=len ∧
        later.job=.munmap call (.collecting 0 []) ∧ Unmapping caller.vm space call later) := by
  obtain ⟨rax,hjob⟩ := enter_idle henter
  unfold Caller.enter at henter
  rw [hjob] at henter
  dsimp only at henter
  split at henter
  · rename_i hnone
    cases henter
    exact ⟨rfl,rfl,Or.inl ⟨rfl,hnone⟩⟩
  · rename_i call hcall
    cases henter
    obtain ⟨hranged,hptr,hlen⟩ := munmapEnter_some hresting hcall
    exact ⟨rfl,rfl,Or.inr ⟨call,hcall,hranged,hptr,hlen,rfl,_,rfl,
      ⟨space,hresting.process_eq.symm,rfl,Nat.zero_le _,rfl,nofun,nofun⟩,Kept.refl _ _⟩⟩

/-- A call that was entered is booked. -/
theorem balanced_enter (hbalanced : before.Balanced) (henter : before.enter request=some entered) :
    entered.Balanced := by
  obtain ⟨rax,hjob⟩ := enter_idle henter
  rw [Caller.Balanced,hjob] at hbalanced
  unfold Caller.enter at henter
  rw [hjob] at henter
  cases request with
  | mmap | munmap =>
    dsimp only at henter
    split at henter <;> cases henter <;> exact hbalanced

/-- The arena's pointer stays while `MMAP` is served. -/
theorem Mapping.next {origin : VmState} {call : MmapCall}
    (hmapping : Mapping origin space call caller) :
    caller.vm.process.mmapNext=origin.process.mmapNext := by
  obtain ⟨stage,-,⟨last,hprocess,-⟩,-⟩ := hmapping
  rw [hprocess]

/-- The arena's pointer stays while `MUNMAP` is served. -/
theorem Unmapping.next {origin : VmState} {call : MunmapCall}
    (hunmapping : Unmapping origin space call caller) :
    caller.vm.process.mmapNext=origin.process.mmapNext := by
  obtain ⟨stage,-,⟨last,hprocess,-⟩,-⟩ := hunmapping
  rw [hprocess]

/-- Total length of some regions. -/
def handedOut (regions : List (ℕ×ℕ)) : ℕ := (regions.map fun region => region.2-region.1).sum

/-- A step keeps the books and what holds at every time, and the arena's
pointer moves by exactly what is returned. -/
theorem holds_step (hholds : Holds bytes regions caller) (hbalanced : caller.Balanced)
    (hstep : Step caller later) :
    later.Balanced ∧ Holds bytes (regions++returned caller later) later ∧
      later.vm.process.mmapNext=caller.vm.process.mmapNext+handedOut (returned caller later) := by
  cases hholds with
  | resting rax space hjob hresting harena =>
    have hnone : returned caller later=[] := by rw [returned,hjob]
    rw [hnone,List.append_nil]
    cases hstep with
    | call request henter =>
      refine ⟨balanced_enter hbalanced henter,?_⟩
      cases request with
      | mmap len writable =>
        obtain ⟨hvm,-,hrefused|⟨call,hcall,-,-,hmapping⟩⟩ := enter_mmap hresting henter
        · exact ⟨.resting (-1) space hrefused (by rwa [hvm]) (by rwa [hvm]),by rw [hvm]; rfl⟩
        · exact ⟨.mapping caller.vm space call hcall harena hmapping,by rw [hvm]; rfl⟩
      | munmap ptr len =>
        obtain ⟨hvm,-,⟨hrefused,-⟩|⟨call,-,hcall,-,-,-,hunmapping⟩⟩ := enter_munmap hresting henter
        · exact ⟨.resting (-1) space hrefused (by rwa [hvm]) (by rwa [hvm]),by rw [hvm]; rfl⟩
        · exact ⟨.unmapping caller.vm space call hcall harena hunmapping,by rw [hvm]; rfl⟩
    | advance hadvance => exact absurd (busy_of_advance hadvance) (not_busy hjob)
    | others hothers =>
      refine ⟨hothers.balanced,.resting rax space (hothers.job.trans hjob) ?_ ?_,hothers.next⟩
      · refine ⟨hothers.space.trans hresting.has,hresting.tight,hresting.user,?_,?_,?_⟩
        all_goals rw [hothers.next]
        exacts [hresting.aligned,hresting.low,hresting.limit]
      · refine ⟨harena.mapped,?_,?_,?_⟩
        all_goals rw [hothers.next]
        exacts [harena.apart,harena.covered,harena.inside]
  | mapping origin space call hcall harena hmapping =>
    obtain ⟨stage,hjob,-⟩ := id hmapping
    cases hstep with
    | call request henter =>
      rw [enter_busy hmapping.busy] at henter
      cases henter
    | advance hadvance =>
      obtain ⟨hkept,hserved|⟨⟨hreturn,hsame⟩|⟨hreturn,last,hprocess,hmapped⟩,-⟩⟩ :=
        advance_mapping hcall hmapping hbalanced hadvance
      · obtain ⟨next,hnext,-⟩ := id hserved
        have hnone : returned caller later=[] := by rw [returned,hjob,hnext]
        rw [hnone,List.append_nil,Mapping.next hmapping,Mapping.next hserved]
        exact ⟨hkept,.mapping origin space call hcall harena hserved,rfl⟩
      · have hnone : returned caller later=[] := by rw [returned,hjob,hreturn]; rfl
        rw [hnone,List.append_nil,Mapping.next hmapping]
        refine ⟨hkept,.resting (-1) space hreturn ?_ ?_,?_⟩ <;> rw [hsame]
        · exact hcall.toResting
        · exact harena
        · rfl
      · have hregion : returned caller later=[(call.start,call.finish)] := by
          rw [returned,hjob,hreturn]
          exact if_neg (by omega)
        have hstart := hcall.start
        have hfinish := hcall.finish
        rw [hregion,Mapping.next hmapping]
        refine ⟨hkept,.resting call.start last hreturn ?_ ?_,?_⟩ <;> rw [hprocess]
        · exact resting_map hcall hmapped
        · exact harena.map hcall hmapped
        · simp only [handedOut,List.map_cons,List.map_nil,List.sum_cons,List.sum_nil]
          omega
    | others hothers =>
      have hnone : returned caller later=[] := by rw [returned,hothers.job,hjob]
      rw [hnone,List.append_nil]
      exact ⟨hothers.balanced,
        .mapping origin space call hcall harena (others_mapping hmapping hothers),hothers.next⟩
  | unmapping origin space call hcall harena hunmapping =>
    obtain ⟨stage,hjob,-⟩ := id hunmapping
    have hnone : returned caller later=[] := by rw [returned,hjob]
    rw [hnone,List.append_nil]
    cases hstep with
    | call request henter =>
      rw [enter_busy hunmapping.busy] at henter
      cases henter
    | advance hadvance =>
      rw [Unmapping.next hunmapping]
      obtain ⟨hkept,hserved|⟨⟨hreturn,hsame,-⟩|⟨hreturn,last,hprocess,htight,hunmapped⟩,-⟩⟩ :=
        advance_unmapping hcall hunmapping hbalanced hadvance
      · exact ⟨hkept,.unmapping origin space call hcall harena hserved,Unmapping.next hserved⟩
      · refine ⟨hkept,.resting (-1) space hreturn ?_ ?_,?_⟩ <;> rw [hsame]
        · exact hcall.toResting
        · exact harena
        · rfl
      · refine ⟨hkept,.resting 0 last hreturn ?_ ?_,?_⟩ <;> rw [hprocess]
        · exact resting_unmap hcall htight hunmapped
        · exact harena.unmap hcall hunmapped
        · rfl
    | others hothers =>
      exact ⟨hothers.balanced,
        .unmapping origin space call hcall harena (others_unmapping hunmapping hothers),hothers.next⟩

/-- What holds in every history. -/
theorem holds_history (hpast : History bytes caller regions) :
    caller.Balanced ∧ Holds bytes regions caller := by
  induction hpast with
  | spawned hspawned => exact ⟨hspawned.balanced,holds_spawned hspawned⟩
  | step _ hstep ih =>
    obtain ⟨hbalanced,hholds,-⟩ := holds_step ih.2 ih.1 hstep
    exact ⟨hbalanced,hholds⟩

/-- A call finds the process at rest. -/
theorem resting_enter (hpast : History bytes before regions)
    (henter : before.enter request=some entered) :
    before.Balanced ∧ ∃ space rax,before.job=.idle rax ∧ Resting before.vm.process space ∧
      Arena bytes regions before.vm.process space := by
  obtain ⟨hbalanced,hholds⟩ := holds_history hpast
  refine ⟨hbalanced,?_⟩
  cases hholds with
  | resting rax space hjob hresting harena => exact ⟨space,rax,hjob,hresting,harena⟩
  | mapping origin space call hcall harena hmapping =>
    rw [enter_busy hmapping.busy] at henter
    cases henter
  | unmapping origin space call hcall harena hunmapping =>
    rw [enter_busy hunmapping.busy] at henter
    cases henter

/-- A process outside of calls with this result. -/
def Caller.returns (caller : Caller) (rax : ℤ) : Bool :=
  match caller.job with
  | .idle result => result=rax
  | _ => false

variable {rax : ℤ} {origin : VmState}

theorem Caller.job_of_returns {caller : Caller} (hreturns : returns caller rax=true) :
    caller.job=.idle rax := by
  unfold returns at hreturns
  split at hreturns
  · rename_i result hjob
    rw [hjob,of_decide_eq_true hreturns]
  · cases hreturns

/-! ## MMAP is all or nothing -/

/-- Sections leave the books of the others alone. -/
theorem others_sections (caller : Caller) (count : ℕ) :
    (caller.sections count).others=caller.others := by
  refine @sections_keeps caller (fun later => later.others=caller.others)
    (fun middle later hsame hadvance => ?_) rfl count
  rw [Caller.advance] at hadvance
  split at hadvance
  · cases hadvance
    exact hsame
  · cases hadvance
    exact hsame
  · cases hadvance

/-- The executable and the stack are mapped at every time. -/
theorem mapped_holds (hholds : Holds bytes regions caller) :
    ∃ space,caller.vm.process.addressSpace=some space ∧
      ∀ page∈elfPages bytes++stackPages,space.tables.leaf page≠none := by
  cases hholds with
  | resting rax space hjob hresting harena => exact ⟨space,hresting.has,harena.mapped⟩
  | mapping origin space call hcall harena hmapping =>
    obtain ⟨stage,-,⟨last,hprocess,hstage⟩,-⟩ := hmapping
    obtain ⟨pages,hgrown⟩ := hstage.grown
    refine ⟨last,by rw [hprocess],fun page hpage => ?_⟩
    obtain ⟨leaf,hleaf⟩ := Option.ne_none_iff_exists'.mp (harena.mapped page hpage)
    rw [hgrown.leaf page leaf hleaf]
    exact Option.some_ne_none leaf
  | unmapping origin space call hcall harena hunmapping =>
    obtain ⟨stage,-,⟨last,hprocess,hstage⟩,-⟩ := hunmapping
    refine ⟨last,by rw [hprocess],fun page hpage => ?_⟩
    have hapart := harena.apart page hpage
    have haligned := hcall.ptr
    have hbase := hcall.base
    have hbelow := hcall.below
    rw [hstage.leaf_eq (by omega)]
    exact harena.mapped page hpage

/-- What a successful `MMAP` returns: the region from the arena's pointer from
before to the new one. -/
structure Fresh (bytes : List UInt8) (regions : List (ℕ×ℕ)) (before now : ProcessState) (ram : Ram)
    (len : ℕ) (writable : Bool) (rax : ℤ) : Prop where
  /-- The call returns the start of the region. -/
  start : rax=before.mmapNext
  /-- The region has the requested length, rounded up to whole pages. -/
  length : now.mmapNext=before.mmapNext+(len+4095)/4096*4096
  /-- It is not empty. -/
  nonempty : before.mmapNext<now.mmapNext
  /-- It is page-aligned. -/
  aligned : before.mmapNext%4096=0
  /-- It starts in the arena. -/
  low : userMmapBase≤before.mmapNext
  /-- It ends in the arena. -/
  high : now.mmapNext≤userMmapLimit
  /-- It is apart from the executable and the stack. -/
  apart : ∀ page∈elfPages bytes++stackPages,
    ¬(before.mmapNext≤page*4096 ∧ page*4096<now.mmapNext)
  /-- It lies above all regions from before. -/
  earlier : ∀ region∈regions,region.2≤before.mmapNext
  /-- Its pages are mapped with the flags of the request, and are zero. -/
  pages : ∃ space,now.addressSpace=some space ∧
    ∀ page,before.mmapNext≤page*4096 → page*4096<now.mmapNext →
      ∃ frame,space.tables.leaf page=some ⟨frame,⟨true,writable,true,true⟩⟩ ∧
        ∀ offset<4096,ram (frame+offset)=0

/-- `MMAP` gives fresh private memory and `MUNMAP` can only take `MMAP` memory
away. The process was spawned from any executable and has made any calls. Its
executable and its stack are mapped. The arena's pointer never goes back. A
call to `MMAP` that succeeds returns a fresh region. Every page that a
successful `MUNMAP` removes lies in regions that were returned before. -/
theorem mmap_fresh_munmap_confined (hpast : History bytes before regions) :
    (∃ space,before.vm.process.addressSpace=some space ∧
      ∀ page∈elfPages bytes++stackPages,space.tables.leaf page≠none) ∧
    (∀ later,Step before later → before.vm.process.mmapNext≤later.vm.process.mmapNext) ∧
    (∀ len writable entered count now rax,before.enter (.mmap len writable)=some entered →
      Serving entered count now → now.job=.idle rax → rax≠-1 →
      Fresh bytes regions before.vm.process now.vm.process now.vm.paging.ram len writable rax) ∧
    ∀ ptr len entered count now,before.enter (.munmap ptr len)=some entered →
      Serving entered count now → now.job=.idle 0 →
      ∃ space last,before.vm.process.addressSpace=some space ∧
        now.vm.process.addressSpace=some last ∧
        ∀ page,space.tables.leaf page≠none → last.tables.leaf page=none →
          ∀ address,address/4096=page → ∃ region∈regions,region.1≤address ∧ address < region.2 := by
  obtain ⟨hbalanced,hholds⟩ := holds_history hpast
  refine ⟨mapped_holds hholds,fun later hstep => ?_,
    fun len writable entered count now rax henter hserving hreturn hrax => ?_,
    fun ptr len entered count now henter hserving hreturn => ?_⟩
  · rw [(holds_step hholds hbalanced hstep).2.2]
    exact Nat.le_add_right _ _
  · obtain ⟨hbalanced,space,-,-,hresting,harena⟩ := resting_enter hpast henter
    obtain ⟨-,-,hrefused|⟨call,hcall,hpages,hwritable,hmapping⟩⟩ := enter_mmap hresting henter
    · rw [(run_refused hrefused hserving).1,hrefused] at hreturn
      cases hreturn
      exact absurd rfl hrax
    obtain ⟨-,hended⟩ := run_mapping hcall hmapping (balanced_enter hbalanced henter) hserving
    rcases hended with hserved|⟨⟨hfailed,-⟩|⟨hstart,last,hprocess,hmapped⟩,-⟩
    · exact absurd hserved.busy (not_busy hreturn)
    · rw [hfailed] at hreturn
      cases hreturn
      exact absurd rfl hrax
    rw [hstart] at hreturn
    cases hreturn
    have haligned := hcall.aligned
    have hfinish := hcall.finish
    have hnonempty := hcall.pages
    have hregion := hcall.start
    refine ⟨by rw [hregion],?_,?_,haligned,hcall.low,?_,fun page hpage => ?_,harena.inside,last,?_,
      fun page hlow hhigh => ?_⟩
    · rw [hprocess,← hpages,← hregion]
      exact hfinish
    · rw [hprocess]
      dsimp only
      omega
    · rw [hprocess]
      exact hcall.inside
    · rw [hprocess,← hregion]
      exact harena.region_apart hcall hmapped hpage
    · rw [hprocess]
    · rw [hprocess] at hhigh
      dsimp only at hhigh
      have hpiece : Piece call 0 call.pages page := by
        rw [Piece]
        omega
      obtain ⟨frame,hleaf⟩ := hmapped.1.leaf page hpiece
      rw [hwritable] at hleaf
      refine ⟨frame,hleaf,hmapped.2 page frame hpiece ?_⟩
      rw [Tables.frameAt,hleaf]
      rfl
  · obtain ⟨hbalanced,space,-,-,hresting,harena⟩ := resting_enter hpast henter
    obtain ⟨-,-,⟨hrefused,-⟩|⟨call,-,hcall,-,-,-,hunmapping⟩⟩ := enter_munmap hresting henter
    · rw [(run_refused hrefused hserving).1,hrefused] at hreturn
      cases hreturn
    obtain ⟨-,hended⟩ := run_unmapping hcall hunmapping (balanced_enter hbalanced henter) hserving
    rcases hended with hserved|⟨⟨hfailed,-⟩|⟨-,last,hprocess,-,hunmapped⟩,-⟩
    · exact absurd hserved.busy (not_busy hreturn)
    · rw [hfailed] at hreturn
      cases hreturn
    refine ⟨space,last,hresting.has,by rw [hprocess],fun page hmapped hnone address haddress => ?_⟩
    have hpage : call.ptr/4096≤page ∧ page<call.ptr/4096+call.pages := by
      by_contra hout
      rw [hunmapped.leaf,Tables.clear] at hnone
      dsimp only at hnone
      rw [if_neg (by rw [List.mem_range'_1]; exact hout)] at hnone
      exact hmapped hnone
    have haligned := hcall.ptr
    have hbase := hcall.base
    have hbelow := hcall.below
    exact harena.covered address (by omega) (by omega)

/-- A call is part of the process's history. -/
theorem History.serving (hpast : History bytes entered regions)
    (hserving : Serving entered count now) : ∃ later,History bytes now later := by
  induction hserving with
  | start => exact ⟨regions,hpast⟩
  | advance _ hadvance ih =>
    obtain ⟨later,hlater⟩ := ih
    exact ⟨_,hlater.step (.advance hadvance)⟩
  | others _ _ hothers ih =>
    obtain ⟨later,hlater⟩ := ih
    exact ⟨_,hlater.step (.others hothers)⟩

/-- Requests that are made one after another, with their results. -/
def Answers (caller : Caller) : List (Request×ℤ) → Bool
  | [] => true
  | (request,rax)::rest =>
    (caller.enter request).any fun entered =>
      Caller.returns (entered.sections 20) rax && Answers (entered.sections 20) rest

/-- The first of some requests. -/
theorem answers_cons {rest : List (Request×ℤ)} (hpast : History bytes caller regions)
    (hanswers : Answers caller ((request,rax)::rest)=true) :
    ∃ entered count now later,caller.enter request=some entered ∧ Serving entered count now ∧
      now.job=.idle rax ∧ now=entered.sections 20 ∧ History bytes now later ∧
      Answers now rest=true := by
  obtain ⟨entered,henter,hrun⟩ := (Option.any_eq_true _ _).mp hanswers
  obtain ⟨hreturns,hrest⟩ := (Bool.and_eq_true _ _).mp hrun
  obtain ⟨count,hserving,-⟩ := Serving.start.sections 20
  obtain ⟨later,hlater⟩ := History.serving (hpast.step (.call request henter)) hserving
  exact ⟨entered,count,_,later,henter,hserving,Caller.job_of_returns hreturns,rfl,hlater,hrest⟩

/-- A process maps two pages read-only and unmaps the second one. -/
theorem mmap_fresh_munmap_confined_two_pages :
    ∃ before entered count middle later served more last,History tinyElf before [] ∧
      before.enter (.mmap 0x1801 false)=some entered ∧ Serving entered count middle ∧
      Fresh tinyElf [] before.vm.process middle.vm.process middle.vm.paging.ram 0x1801 false
        userMmapBase ∧
      History tinyElf middle later ∧
      middle.enter (.munmap (userMmapBase+0x1000) 0x1000)=some served ∧ Serving served more last ∧
      last.job=.idle 0 ∧ ∃ space left,middle.vm.process.addressSpace=some space ∧
        last.vm.process.addressSpace=some left ∧
        ∀ page,space.tables.leaf page≠none → left.tables.leaf page=none →
          ∀ address,address/4096=page → ∃ region∈later,region.1≤address ∧ address < region.2 := by
  have hrun : ((spawnAlone tinyElf smallPaging none).any (Answers ·
      [(.mmap 0x1801 false,userMmapBase),(.munmap (userMmapBase+0x1000) 0x1000,0)]))=true := by
    decide +kernel
  obtain ⟨before,hspawn,hrun⟩ := (Option.any_eq_true _ _).mp hrun
  have hpast : History tinyElf before [] :=
    .spawned (spawned_spawnAlone backs_smallPaging hspawn)
  obtain ⟨entered,count,middle,later,henter,hserving,hreturn,-,hlater,hrest⟩ :=
    answers_cons hpast hrun
  obtain ⟨served,more,last,-,hserved,hmore,hzero,-,-,-⟩ := answers_cons hlater hrest
  have hfresh := (mmap_fresh_munmap_confined hpast).2.2.1 _ _ entered count middle _ henter
    hserving hreturn (by decide)
  have hgone := (mmap_fresh_munmap_confined hlater).2.2.2 _ _ served more last hserved hmore hzero
  exact ⟨before,entered,count,middle,later,served,more,last,hpast,henter,hserving,hfresh,hlater,
    hserved,hmore,hzero,hgone⟩

/-! ## MUNMAP is a transaction -/

/-- The ranges that can be unmapped. -/
structure Unmappable (process : ProcessState) (space : AddressSpace) (ptr len : ℕ) : Prop where
  /-- The range is not empty. -/
  nonempty : len≠0
  /-- It starts at a page. -/
  start : ptr%4096=0
  /-- It has whole pages. -/
  whole : len%4096=0
  /-- It lies in the arena. -/
  base : userMmapBase≤ptr
  /-- Its end does not overflow. -/
  overflow : ptr+len<2^64
  /-- It lies below the arena's pointer. -/
  below : ptr+len≤process.mmapNext
  /-- All its pages are mapped. -/
  mapped : ∀ page,ptr/4096≤page → page<(ptr+len)/4096 → space.tables.leaf page≠none

/-- What a successful `MUNMAP` makes of an address space. -/
structure Removed (before now : AddressSpace) (ptr len : ℕ) : Prop where
  /-- Exactly the leaves of the range are gone. -/
  leaf : ∀ page,now.tables.leaf page=
    if ptr/4096≤page ∧ page<(ptr+len)/4096 then none else before.tables.leaf page
  /-- A table is left if a page below it is still mapped, and only then. -/
  table : ∀ height index frame,now.tables.table (height,index)=some frame ↔
    before.tables.table (height,index)=some frame ∧
      ∃ page,now.tables.leaf page≠none ∧ page/512^height=index
  /-- The root stays. -/
  root : now.pml4Frame=before.pml4Frame
  /-- The frames of these leaves and tables have left the ownership list. -/
  owned : ∃ gone : List ℕ,now.ownedFrames=before.ownedFrames.filter (fun frame => frame∉gone) ∧
    ∀ frame,frame∈gone ↔
      (∃ page leaf,ptr/4096≤page ∧ page<(ptr+len)/4096 ∧ before.tables.leaf page=some leaf ∧
        leaf.frame=frame) ∨
      ∃ key,before.tables.table key=some frame ∧ now.tables.table key=none

/-- A range that is gone from a space without empty tables. -/
theorem removed_of_unmapped (hcall : Ranged process space call) (htight : Tight last)
    (hunmapped : Unmapped space last call) : Removed space last call.ptr (call.pages*4096) := by
  have haligned := hcall.ptr
  have hend : (call.ptr+call.pages*4096)/4096=call.ptr/4096+call.pages := by omega
  obtain ⟨gone,hshrunk⟩ := hunmapped.shrunk
  have hleaf : ∀ page,last.tables.leaf page=
      if call.ptr/4096≤page ∧ page<call.ptr/4096+call.pages then none
      else space.tables.leaf page := by
    intro page
    rw [hunmapped.leaf,Tables.clear]
    dsimp only
    simp only [List.mem_range'_1]
  refine ⟨?_,fun height index frame => ?_,hshrunk.root,gone,hshrunk.owned,fun frame => ?_⟩
  · rw [hend]
    exact hleaf
  · constructor
    · intro htable
      have hthere : last.tables.table (height,index)≠none := by
        rw [htable]
        exact Option.some_ne_none frame
      obtain ⟨hlow,hhigh⟩ := htight.closed.height _ hthere
      exact ⟨hshrunk.places (.inl (height,index)) frame htable,
        (htight.full.table_iff htight.closed hlow hhigh).mp hthere⟩
    · rintro ⟨htable,hpage⟩
      have hbefore : space.tables.table (height,index)≠none := by
        rw [htable]
        exact Option.some_ne_none frame
      obtain ⟨hlow,hhigh⟩ := hcall.tight.closed.height _ hbefore
      obtain ⟨other,hother⟩ := Option.ne_none_iff_exists'.mp
        ((htight.full.table_iff htight.closed hlow hhigh).mpr hpage)
      have hsame := hshrunk.places (.inl (height,index)) other hother
      rw [hother,← hsame]
      exact htable
  · rw [hend,hshrunk.gone]
    constructor
    · rintro ⟨key|page,hplace,hnone⟩
      · exact Or.inr ⟨key,hplace,hnone⟩
      · obtain ⟨leaf,hold,hframe⟩ := Option.map_eq_some_iff.mp hplace
        have hnow : last.tables.leaf page=none := Option.map_eq_none_iff.mp hnone
        rw [hleaf] at hnow
        split at hnow
        · rename_i hin
          exact Or.inl ⟨page,leaf,hin.1,hin.2,hold,hframe⟩
        · rw [hold] at hnow
          cases hnow
    · rintro (⟨page,leaf,hlow,hhigh,hold,rfl⟩|⟨key,hplace,hnone⟩)
      · refine ⟨.inr page,?_,?_⟩
        · rw [Tables.frameAt,hold]
          rfl
        · rw [Tables.frameAt,hleaf,if_pos ⟨hlow,hhigh⟩]
          rfl
      · exact ⟨.inl key,hplace,hnone⟩

/-- `MUNMAP` has returned: the range was unmappable and is removed, or it was
not and the process is as before. In both cases the memory that is left has
the same contents. -/
def Answered (before now : Caller) (ptr len : ℕ) : Prop :=
  ∃ space,before.vm.process.addressSpace=some space ∧
    (now.job=.idle 0 ∧ Unmappable before.vm.process space ptr len ∧
        (∃ last,now.vm.process={before.vm.process with addressSpace := some last} ∧
          Removed space last ptr len) ∨
      now.job=.idle (-1) ∧ ¬Unmappable before.vm.process space ptr len ∧
        now.vm.process=before.vm.process) ∧
    Kept now.vm.process.ownedFrames before.vm.paging.ram now.vm.paging.ram

/-- A refused range is not unmappable. -/
theorem not_unmappable_of_refused (hresting : Resting process space)
    (hrefused : munmapEnter ptr len process=none) : ¬Unmappable process space ptr len := by
  intro hrange
  rw [munmapEnter,if_neg,if_neg,if_pos] at hrefused
  · cases hrefused
  · exact ⟨hrange.base,hrange.below,by rw [hresting.has]; rfl⟩
  · exact Nat.not_le.mpr hrange.overflow
  · rintro (hempty|hstart|hwhole)
    · exact hrange.nonempty hempty
    · exact hstart hrange.start
    · exact hwhole hrange.whole

/-- An accepted range is unmappable if all its pages are mapped, and only
then. -/
theorem unmappable_iff (haccepted : munmapEnter ptr len process=some call) :
    Unmappable process space ptr len ↔
      ∀ page,ptr/4096≤page → page<(ptr+len)/4096 → space.tables.leaf page≠none := by
  refine ⟨Unmappable.mapped,fun hmapped => ?_⟩
  rw [munmapEnter] at haccepted
  split at haccepted
  · cases haccepted
  split at haccepted
  · cases haccepted
  split at haccepted
  · rename_i hshape hend hrange
    exact ⟨by omega,by omega,by omega,hrange.1,by omega,hrange.2.1,hmapped⟩
  · cases haccepted

/-- A bound on the sections of a call to `MUNMAP`. -/
theorem sections_unmapping (hcall : Ranged origin.process space call)
    (hbalanced : entered.Balanced) (hunmapping : Unmapping origin space call entered)
    (hjob : entered.job=.munmap call (.collecting 0 [])) (hserving : Serving entered count now) :
    count≤5*call.pages+6 := by
  obtain ⟨hcount,-⟩ := hserving.bounded fun count middle later hpast hadvance hbusy => by
    obtain ⟨hkept,hserved|hended⟩ := run_unmapping hcall hunmapping hbalanced hpast
    · exact less_unmapping hcall hserved hkept hadvance hbusy
    · exact absurd (busy_of_advance hadvance) hended.not_busy
  rw [hjob,leftOf,sectionsLeft] at hcount
  omega

/-- The state of a call without other tasks in between: nothing has changed
while the call only reads, and nothing was taken from the allocator. -/
structure Alone (origin : VmState) (caller : Caller) : Prop where
  /-- While the call reads. -/
  reading : ∀ call stage,caller.job=.munmap call stage → Reading stage → caller.vm=origin
  /-- After it has failed. -/
  failed : caller.job=.idle (-1) → caller.vm=origin
  /-- Only the pool changes. -/
  pool : ∃ freed,caller.vm.paging.allocator={origin.paging.allocator with freed := freed}

/-- A section without other tasks. -/
theorem alone_advance (hcall : Ranged origin.process space call)
    (hbalanced : caller.Balanced) (hunmapping : Unmapping origin space call caller)
    (halone : Alone origin caller) (hadvance : caller.advance=some later) : Alone origin later := by
  obtain ⟨stage,hstage,hinv,-⟩ := hunmapping
  rw [Caller.advance,hstage] at hadvance
  cases hadvance
  have hreads := reading_of_reads hinv
  have hquiet := quiet_munmapStep hcall hbalanced.backs hinv
  have hsame : Reading stage → (munmapStep call caller.vm stage).2=origin := fun hreading =>
    (munmapStep_reading hreading).trans (halone.reading call stage hstage hreading)
  refine ⟨fun other next hnext hreading => hsame (hreads ?_),fun hfailed => hsame (hreads ?_),?_⟩
  · generalize (munmapStep call caller.vm stage).1=outcome at hnext ⊢
    cases outcome <;> cases hnext
    exact hreading
  · generalize (munmapStep call caller.vm stage).1=outcome at hfailed ⊢
    cases outcome <;> cases hfailed
    rfl
  · obtain ⟨before,hbefore⟩ := halone.pool
    obtain ⟨after,hafter⟩ := hquiet.allocator
    refine ⟨after,?_⟩
    dsimp only
    rw [hafter,hbefore]

/-- A list is made of what a filter keeps and of the rest. -/
theorem coe_eq_filter_add (owned : List ℕ) (keep : ℕ → Bool) :
    (owned : Multiset ℕ)=owned.filter keep+
      (owned.filter fun frame => frame∉owned.filter keep : List ℕ) := by
  have hrest : (owned.filter fun frame => frame∉owned.filter keep)=
      owned.filter fun frame => !keep frame := by
    refine List.filter_congr fun frame hmem => ?_
    cases hkeep : keep frame <;> simp [List.mem_filter,hmem,hkeep]
  rw [hrest,Multiset.coe_add]
  exact (Multiset.coe_eq_coe.mpr (List.filter_append_perm keep owned)).symm

/-- An answer keeps a part of the frames. -/
theorem Answered.owned (hanswered : Answered before now ptr len) :
    ∃ keep : ℕ → Bool,now.vm.process.ownedFrames=before.vm.process.ownedFrames.filter keep := by
  obtain ⟨space,hspace,⟨-,-,last,hprocess,hremoved⟩|⟨-,-,hsame⟩,-⟩ := hanswered
  · obtain ⟨gone,howned,-⟩ := hremoved.owned
    refine ⟨fun frame => frame∉gone,?_⟩
    rw [hprocess,ProcessState.ownedFrames_some hspace]
    exact howned
  · refine ⟨fun _ => true,?_⟩
    rw [hsame,List.filter_true]

section

variable (hresting : Resting before.vm.process space)
include hresting

section

variable (hbalanced : before.Balanced)
include hbalanced

/-- A call to `MUNMAP`, refused or served, at every time. -/
theorem serving_munmap
    (henter : before.enter (.munmap ptr len)=some entered) (hserving : Serving entered count now) :
    count≤5*(len/4096)+6 ∧ now.Balanced ∧ (∀ code,now.job≠.exiting code) ∧
      (now.Busy ∨ Answered before now ptr len) := by
  have hentered := balanced_enter hbalanced henter
  obtain ⟨hvm,-,hnext⟩ := enter_munmap hresting henter
  rcases hnext with ⟨hrefused,hnone⟩|⟨call,haccepted,hcall,rfl,rfl,hstart,hunmapping⟩
  · obtain ⟨rfl,rfl⟩ := run_refused hrefused hserving
    rw [hrefused]
    refine ⟨Nat.zero_le _,hentered,nofun,Or.inr ⟨space,hresting.has,Or.inr ⟨hrefused,
      not_unmappable_of_refused hresting hnone,by rw [hvm]⟩,?_⟩⟩
    rw [hvm]
    exact Kept.refl _ _
  have hcount := sections_unmapping hcall hentered hunmapping hstart hserving
  obtain ⟨hkept,hserved|hended⟩ := run_unmapping hcall hunmapping hentered hserving
  · have hbusy := hserved.busy
    obtain ⟨stage,hstage,-⟩ := hserved
    refine ⟨by omega,hkept,fun code hexit => ?_,Or.inl hbusy⟩
    rw [hstage] at hexit
    cases hexit
  have haligned := hcall.ptr
  have hend : (call.ptr+call.pages*4096)/4096=call.ptr/4096+call.pages := by omega
  obtain ⟨⟨hreturn,hsame,page,hlow,hhigh,hnone⟩|⟨hreturn,last,hprocess,htight,hunmapped⟩,hram⟩ :=
    hended
  · refine ⟨by omega,hkept,fun code hexit => ?_,Or.inr ⟨space,hresting.has,
      Or.inr ⟨hreturn,fun hrange => ?_,hsame⟩,hram⟩⟩
    · rw [hreturn] at hexit
      cases hexit
    · exact hrange.mapped page hlow (by omega) hnone
  · refine ⟨by omega,hkept,fun code hexit => ?_,Or.inr ⟨space,hresting.has,
      Or.inl ⟨hreturn,?_,last,hprocess,removed_of_unmapped hcall htight hunmapped⟩,hram⟩⟩
    · rw [hreturn] at hexit
      cases hexit
    · rw [unmappable_iff haccepted]
      intro page hlow hhigh
      exact hunmapped.mapped page hlow (by omega)

/-- A call to `MUNMAP` without other tasks in between. -/
theorem alone_munmap (henter : before.enter (.munmap ptr len)=some entered) (count : ℕ) :
    Alone before.vm (entered.sections count) := by
  have hentered := balanced_enter hbalanced henter
  obtain ⟨hvm,-,hnext⟩ := enter_munmap hresting henter
  have hstart : Alone before.vm entered :=
    ⟨fun _ _ _ _ => hvm,fun _ => hvm,before.vm.paging.allocator.freed,by rw [hvm]⟩
  rcases hnext with ⟨hrefused,-⟩|⟨call,-,hcall,-,-,-,hunmapping⟩
  · obtain ⟨total,hserving,-⟩ := Serving.start.sections count
    rw [(run_refused hrefused hserving).1]
    exact hstart
  refine (@sections_keeps entered (fun later => (later.Balanced ∧
    (Unmapping before.vm space call later ∨ Freed before.vm space call later)) ∧
      Alone before.vm later) (fun middle later hmiddle hadvance => ?_)
    ⟨⟨hentered,Or.inl hunmapping⟩,hstart⟩ count).2
  obtain ⟨⟨hbalanced,hserved|hended⟩,halone⟩ := hmiddle
  · exact ⟨advance_unmapping hcall hserved hbalanced hadvance,
      alone_advance hcall hbalanced hserved halone hadvance⟩
  · exact absurd (busy_of_advance hadvance) hended.not_busy

/-- A call to `MUNMAP` without other tasks in between is answered. -/
theorem answered_munmap (henter : before.enter (.munmap ptr len)=some entered) :
    (entered.sections (5*(len/4096)+7)).Balanced ∧
      Answered before (entered.sections (5*(len/4096)+7)) ptr len := by
  obtain ⟨total,hserving,hend⟩ := Serving.start.sections (5*(len/4096)+7)
  obtain ⟨hcount,hlast,-,hanswer⟩ := serving_munmap hresting hbalanced henter hserving
  have hidle : ¬(entered.sections (5*(len/4096)+7)).Busy := by
    rcases hend with hmore|hidle
    · omega
    · exact hidle
  exact ⟨hlast,hanswer.resolve_left hidle⟩

end

/-- The pool has grown by the frames that have left the ownership list. -/
theorem pool_munmap (hbefore : before.Balanced)
    (henter : before.enter (.munmap ptr len)=some entered) {count : ℕ}
    (hbalanced : (entered.sections count).Balanced)
    (hanswered : Answered before (entered.sections count) ptr len) :
    ((entered.sections count).vm.paging.allocator.freed : Multiset ℕ)=
      before.vm.paging.allocator.freed+(before.vm.process.ownedFrames.filter fun frame =>
        frame∉(entered.sections count).vm.process.ownedFrames : List ℕ) := by
  have halone := alone_munmap hresting hbefore henter count
  obtain ⟨rax,hjob⟩ := enter_idle henter
  obtain ⟨-,hothers,-⟩ := enter_munmap hresting henter
  have hsame := (others_sections entered count).trans hothers
  generalize entered.sections count=last at *
  -- nothing was issued, so the books of both sides are the same
  have hframes : last.job.frames=[] := by
    obtain ⟨-,-,⟨hreturn,-⟩|⟨hreturn,-⟩,-⟩ := hanswered <;> rw [hreturn] <;> rfl
  have hissued : (last.vm.paging.allocator.bumped : Multiset ℕ)=
      before.vm.paging.allocator.bumped := by
    obtain ⟨freed,hfreed⟩ := halone.pool
    rw [hfreed]
    rfl
  have hnow := hbalanced.balanced
  have hthen := hbefore.balanced
  rw [hframes,hsame] at hnow
  rw [hjob] at hthen
  change (last.vm.paging.allocator.bumped : Multiset ℕ)=last.vm.paging.allocator.freed+
    (last.vm.process.ownedFrames+0+before.others) at hnow
  change (before.vm.paging.allocator.bumped : Multiset ℕ)=before.vm.paging.allocator.freed+
    (before.vm.process.ownedFrames+0+before.others) at hthen
  rw [hissued,hthen,add_zero,add_zero,← add_assoc,← add_assoc] at hnow
  have hequal := add_right_cancel hnow
  obtain ⟨keep,hkeep⟩ := hanswered.owned
  have hparts := coe_eq_filter_add before.vm.process.ownedFrames keep
  rw [← hkeep] at hparts
  rw [hparts,add_left_comm,add_comm] at hequal
  exact (add_right_cancel hequal).symm

end

end

end TuwaiqOS.MemoryCalls
