import TuwaiqOS.FrameConservation
import TuwaiqOS.FrameOwnership
import TuwaiqOS.MunmapTransaction

/-!
# The memory of a process from its start on

A process is spawned from an executable and then calls `MMAP` and `MUNMAP`
with any arguments. Its calls run in sections, and between two of them the
other tasks allocate and free frames, write their own memory and arm the
injected failure. A failed `MMAP` leaves the process as it was and the
rollback never ends it. A successful `MMAP` returns fresh zeroed memory, and
`MUNMAP` only takes away what an earlier `MMAP` returned.
-/

namespace TuwaiqOS.ProcessMemory

open ResourceLedger FrameAllocator PageTables AddressSpaces ElfImage VmCalls Scheduler
open ExclusiveSpaces StagedSpaces MmapTransaction MunmapTransaction
open FrameConservation (jobAfter)
open BootInfoFrameAllocator (books)

/-! ## Calls and other tasks -/

/-- A user process with what its calls work on, and the frames that the rest
of the system holds. -/
structure Caller where
  /-- The process, the allocator and physical memory. -/
  vm : VmState
  /-- Where the process is. -/
  job : Job
  /-- Frames of everybody else. -/
  others : Multiset ℕ

/-- A memory call. -/
inductive Request where
  /-- `MMAP`. -/
  | mmap (len : ℕ) (writable : Bool)
  /-- `MUNMAP`. -/
  | munmap (ptr len : ℕ)

/-- The process makes a call. -/
def Caller.enter (caller : Caller) (request : Request) : Option Caller :=
  match caller.job,request with
  | .idle _,.mmap len writable =>
    match mmapEnter len writable caller.vm with
    | none => some {caller with job := .idle (-1)}
    | some call => some {caller with job := .mmap call (.checking 0)}
  | .idle _,.munmap ptr len =>
    match munmapEnter ptr len caller.vm.process with
    | none => some {caller with job := .idle (-1)}
    | some call => some {caller with job := .munmap call (.collecting 0 [])}
  | _,_ => none

/-- The process performs the next section of its call. -/
def Caller.advance (caller : Caller) : Option Caller :=
  match caller.job with
  | .mmap call stage =>
    let stepped := mmapStep call caller.vm stage
    some {caller with vm := stepped.2,job := jobAfter (.mmap call) stepped.1}
  | .munmap call stage =>
    let stepped := munmapStep call caller.vm stage
    some {caller with vm := stepped.2,job := jobAfter (.munmap call) stepped.1}
  | _ => none

/-- The process is inside a call. -/
def Caller.Busy (caller : Caller) : Prop :=
  match caller.job with
  | .mmap _ _ => True
  | .munmap _ _ => True
  | _ => False

/-- Every frame that was issued is in the pool, with the process or with
somebody else. -/
def Caller.Balanced (caller : Caller) : Prop :=
  Backs books caller.vm.paging.allocator
    (caller.vm.process.ownedFrames+caller.job.frames+caller.others)

/-- What happens between two sections. Frames move between the allocator and
the others in any way, and the injected failure is armed or cleared. Inside a
call the process does not change otherwise and the others do not write to its
frames; between two calls it runs, and can do anything but change its
mappings. -/
structure Interferes (caller later : Caller) : Prop where
  /-- The process stays where it is. -/
  job : later.job=caller.job
  /-- Its mappings and frames stay. -/
  space : later.vm.process.addressSpace=caller.vm.process.addressSpace
  /-- The arena's pointer stays. -/
  next : later.vm.process.mmapNext=caller.vm.process.mmapNext
  /-- The books balance. -/
  balanced : later.Balanced
  /-- Inside a call nothing else of the process changes. -/
  process : caller.Busy → later.vm.process=caller.vm.process
  /-- Inside a call its frames are not written. -/
  ram : caller.Busy → ∀ frame∈caller.vm.process.ownedFrames,∀ offset<4096,
    later.vm.paging.ram (frame+offset)=caller.vm.paging.ram (frame+offset)

/-- What can happen next. -/
inductive Step (caller later : Caller) : Prop where
  /-- A call. -/
  | call (request : Request) (henter : caller.enter request=some later)
  /-- A section. -/
  | advance (hadvance : caller.advance=some later)
  /-- Other tasks, or the process outside of calls. -/
  | others (hothers : Interferes caller later)

/-- A call that was entered has performed a number of sections since, and
other tasks have run between them. -/
inductive Serving (entered : Caller) : ℕ → Caller → Prop where
  /-- The call was just entered. -/
  | start : Serving entered 0 entered
  /-- One more section. -/
  | advance {count : ℕ} {now later : Caller} (hpast : Serving entered count now)
    (hadvance : now.advance=some later) : Serving entered (count+1) later
  /-- Other tasks run. -/
  | others {count : ℕ} {now later : Caller} (hpast : Serving entered count now)
    (hbusy : now.Busy) (hothers : Interferes now later) : Serving entered count later

/-- Perform up to some sections of a call without other tasks in between. -/
def Caller.sections : ℕ → Caller → Caller
  | 0,caller => caller
  | count+1,caller =>
    match caller.advance with
    | none => caller
    | some later => later.sections count

/-! ## Spawned processes -/

/-- Pages of the segments of an executable. -/
def elfPages (bytes : List UInt8) : List ℕ :=
  match parse bytes with
  | .error _ => []
  | .ok (_,segments) => segments.flatMap segmentPages

/-- Pages of the user stack. -/
def stackPages : List ℕ :=
  List.range' ((userSpaceBase+userSpaceSize-0x1000-userStackPages*4096)/4096) userStackPages

/-- Operations of a spawn succeed one after another, each with the allocator
and the memory that the others have left. -/
inductive Built : AddressSpace → List SpaceOp → AddressSpace → Prop where
  /-- Nothing is left. -/
  | done (space : AddressSpace) : Built space [] space
  /-- The next operation. -/
  | next {space last : AddressSpace} {op : SpaceOp} {rest : List SpaceOp} (paging : Paging)
    (others : Multiset ℕ) (hbacks : Backs books paging.allocator (space.ownedFrames+others))
    (hperform : (op.perform space paging).1=.ok ())
    (hrest : Built (op.perform space paging).2.1 rest last) : Built space (op::rest) last

/-- A process that was spawned from an executable and runs. -/
structure Spawned (bytes : List UInt8) (caller : Caller) : Prop where
  /-- The new address space was built. -/
  built : ∃ allocator later root space entry ops request id,
    newAddressSpace allocator=.ok (root,later) ∧ request.elfBytes=bytes ∧
    buildPlan request.elfBytes=.ok (entry,ops) ∧ Built root ops space ∧
    (newUserTcb request space entry id).process=some caller.vm.process
  /-- The process is outside of calls. -/
  job : ∃ rax,caller.job=.idle rax
  /-- The books balance. -/
  balanced : caller.Balanced

/-- The region that a step returns, if it ends an `MMAP` with success. -/
def returned (caller later : Caller) : List (ℕ×ℕ) :=
  match caller.job,later.job with
  | .mmap call _,.idle rax => if rax=-1 then [] else [(call.start,call.finish)]
  | _,_ => []

/-- A process that was spawned from an executable, some time later, with the
regions that its calls to `MMAP` have returned. -/
inductive History (bytes : List UInt8) : Caller → List (ℕ×ℕ) → Prop where
  /-- The process was spawned. -/
  | spawned {caller : Caller} (hspawned : Spawned bytes caller) : History bytes caller []
  /-- One more step. -/
  | step {caller later : Caller} {regions : List (ℕ×ℕ)} (hpast : History bytes caller regions)
    (hstep : Step caller later) : History bytes later (regions++returned caller later)

/-! ## A spawned process rests -/

variable {page entry : ℕ} {paging : Paging} {ops : List SpaceOp} {last : AddressSpace}
  {call : MmapCall}

section

variable {space : AddressSpace} {rest : Multiset ℕ}

/-- A new space is empty. -/
theorem tight_newAddressSpace {allocator later : BootInfoFrameAllocator}
    (hnew : newAddressSpace allocator=.ok (space,later)) :
    Tight space ∧ space.tables=Tables.empty := by
  obtain ⟨hexclusive,htables⟩ := FrameOwnership.exclusive_newAddressSpace hnew
  refine ⟨⟨hexclusive,?_,?_⟩,htables⟩ <;> rw [htables]
  · exact Tables.closed_empty
  · exact Tables.full_empty

/-- A space with one more page. -/
theorem tight_of_mapsPage {flags : Flags}
    {result : Except String Unit×AddressSpace×BootInfoFrameAllocator} (hspace : Tight space)
    (hmaps : MapsPage space page flags result) (hok : result.1=.ok ()) : Tight result.2.1 := by
  obtain ⟨-,⟨frame,hleaf⟩,-⟩ := hmaps.mapped hok
  have hclosed := hmaps.closed hspace.closed
  refine ⟨hmaps.exclusive,hclosed,fun height index htable => ?_⟩
  by_cases hold : space.tables.table (height,index)=none
  · obtain ⟨hlow,hhigh,other,rfl,hindex⟩ := hmaps.grown.fresh (height,index) htable hold
    dsimp only at hlow hhigh hindex
    rw [hindex]
    refine hclosed.used ?_ hlow hhigh
    rw [hleaf,Function.update_self]
    exact Option.some_ne_none _
  · exact (hspace.full height index hold).mono hmaps.grown.within

/-- A space with other flags. -/
theorem tight_protect (hspace : Tight space) (flags : Flags) (pages : List ℕ) :
    Tight {space with tables := space.tables.protect flags pages} := by
  have hplace := space.tables.frameAt_protect flags pages
  refine ⟨hspace.exclusive.congr rfl rfl hplace,hspace.closed.congr hplace,
    fun height index htable => (hspace.full height index htable).mono fun place hused => ?_⟩
  rw [hplace]
  exact hused

/-- An operation sets flags of a user page only. -/
def ForUser : SpaceOp → Prop
  | .map _ flags => flags.present=true ∧ flags.userAccessible=true
  | .protect _ flags => flags.present=true ∧ flags.userAccessible=true
  | _ => True

/-- A successful operation of a spawn keeps the pages usable. -/
theorem usable_perform {op : SpaceOp} (hspace : Tight space) (husable : Usable space)
    (hop : ForUser op) (hbacks : Backs books paging.allocator (space.ownedFrames+rest))
    (hperform : (op.perform space paging).1=.ok ()) : Usable (op.perform space paging).2.1 := by
  cases op with
  | map page flags =>
    obtain ⟨-,⟨frame,hleaf⟩,-⟩ :=
      (mapsPage_mapInAddressSpace hspace.exclusive hbacks page flags).mapped hperform
    intro other leaf hother
    change (mapInAddressSpace space page flags paging.allocator).2.1.tables.leaf other=some leaf
      at hother
    rw [hleaf] at hother
    by_cases hsame : other=page
    · rw [hsame,Function.update_self] at hother
      cases hother
      exact hop
    · rw [Function.update_of_ne hsame] at hother
      exact husable other leaf hother
  | zero | write =>
    rw [SpaceOp.perform]
    split <;> exact husable
  | protect page flags =>
    rw [SpaceOp.perform]
    split
    · exact husable
    · rename_i later hupdate
      rw [updateFlagsInAddressSpace_ok hupdate]
      intro other leaf hother
      dsimp only [Tables.protect] at hother
      split at hother
      · obtain ⟨old,-,rfl⟩ := Option.map_eq_some_iff.mp hother
        exact hop
      · exact husable other leaf hother

/-- A successful operation of a spawn leaves no empty table, keeps the pages
and maps its page. -/
theorem tight_perform {op : SpaceOp} (hspace : Tight space)
    (hbacks : Backs books paging.allocator (space.ownedFrames+rest))
    (hperform : (op.perform space paging).1=.ok ()) : Tight (op.perform space paging).2.1 ∧
      (∀ page,space.tables.leaf page≠none → (op.perform space paging).2.1.tables.leaf page≠none) ∧
      ∀ page flags,op=.map page flags → (op.perform space paging).2.1.tables.leaf page≠none := by
  cases op with
  | map page flags =>
    have hmaps := mapsPage_mapInAddressSpace hspace.exclusive hbacks page flags
    obtain ⟨-,⟨frame,hleaf⟩,-⟩ := hmaps.mapped hperform
    refine ⟨tight_of_mapsPage hspace hmaps hperform,fun other hother => ?_,
      fun other otherFlags hsame => ?_⟩
    · obtain ⟨leaf,hold⟩ := Option.ne_none_iff_exists'.mp hother
      have hkept := hmaps.grown.leaf other leaf hold
      change (mapInAddressSpace space page flags paging.allocator).2.1.tables.leaf other≠none
      rw [hkept]
      exact Option.some_ne_none leaf
    · cases hsame
      change (mapInAddressSpace space page flags paging.allocator).2.1.tables.leaf page≠none
      rw [hleaf,Function.update_self]
      exact Option.some_ne_none _
  | zero | write =>
    rw [SpaceOp.perform]
    split <;> exact ⟨hspace,fun _ h => h,(by simp)⟩
  | protect page flags =>
    rw [SpaceOp.perform]
    split
    · exact ⟨hspace,fun _ h => h,(by simp)⟩
    · rename_i later hupdate
      rw [updateFlagsInAddressSpace_ok hupdate]
      refine ⟨tight_protect hspace flags [page],fun other hother => ?_,(by simp)⟩
      dsimp only
      rw [Ne,Tables.leaf_eq_none_iff,Tables.frameAt_protect,← Tables.leaf_eq_none_iff]
      exact hother

section

variable (hbuilt : Built space ops last)
include hbuilt

/-- All operations of a spawn. -/
theorem tight_built (hspace : Tight space) :
    Tight last ∧ (∀ page,space.tables.leaf page≠none → last.tables.leaf page≠none) ∧
      ∀ page flags,.map page flags∈ops → last.tables.leaf page≠none := by
  induction hbuilt with
  | done space => exact ⟨hspace,fun _ h => h,fun _ _ h => absurd h List.not_mem_nil⟩
  | next paging others hbacks hperform hrest ih =>
    obtain ⟨htight,hkept,hmapped⟩ := tight_perform hspace hbacks hperform
    obtain ⟨hlast,hstays,hothers⟩ := ih htight
    refine ⟨hlast,fun page hpage => hstays page (hkept page hpage),fun page flags hmem => ?_⟩
    rcases List.mem_cons.mp hmem with hsame|hlater
    · exact hstays page (hmapped page flags hsame.symm)
    · exact hothers page flags hlater

/-- Nothing else is mapped. -/
theorem leaf_built (hspace : Tight space) (hpage : last.tables.leaf page≠none) :
    space.tables.leaf page≠none ∨ ∃ flags,.map page flags∈ops := by
  induction hbuilt with
  | done space => exact Or.inl hpage
  | @next space last op ops paging others hbacks hperform hrest ih =>
    have htight := (tight_perform hspace hbacks hperform).1
    rcases ih htight hpage with hmapped|⟨flags,hmem⟩
    · cases op with
      | map other flags =>
        obtain ⟨-,⟨frame,hleaf⟩,-⟩ :=
          (mapsPage_mapInAddressSpace hspace.exclusive hbacks other flags).mapped hperform
        by_cases hsame : page=other
        · exact Or.inr ⟨flags,by rw [hsame]; exact List.mem_cons_self⟩
        · refine Or.inl ?_
          change (mapInAddressSpace space other flags paging.allocator).2.1.tables.leaf page≠none
            at hmapped
          rw [hleaf,Function.update_of_ne hsame] at hmapped
          exact hmapped
      | zero | write =>
        rw [SpaceOp.perform] at hmapped
        split at hmapped <;> exact Or.inl hmapped
      | protect other flags =>
        rw [SpaceOp.perform] at hmapped
        split at hmapped
        · exact Or.inl hmapped
        · rename_i later hupdate
          rw [updateFlagsInAddressSpace_ok hupdate] at hmapped
          dsimp only at hmapped
          rw [Ne,Tables.leaf_eq_none_iff,Tables.frameAt_protect,← Tables.leaf_eq_none_iff]
            at hmapped
          exact Or.inl hmapped
    · exact Or.inr ⟨flags,List.mem_cons_of_mem _ hmem⟩

theorem usable_built (hspace : Tight space) (husable : Usable space)
    (hops : ∀ op∈ops,ForUser op) : Usable last := by
  induction hbuilt with
  | done space => exact husable
  | next paging others hbacks hperform hrest ih =>
    obtain ⟨hfirst,hlater⟩ := List.forall_mem_cons.mp hops
    exact ih (tight_perform hspace hbacks hperform).1
      (usable_perform hspace husable hfirst hbacks hperform) hlater

end

/-- The operations of a spawn: those of the segments, and those of the
stack. -/
theorem mem_buildPlan {bytes : List UInt8} (hplan : buildPlan bytes=.ok (entry,ops))
    (op : SpaceOp) : op∈ops ↔ ((∃ start segments,parse bytes=.ok (start,segments) ∧
          ∃ header∈segments,op∈segmentOps bytes header) ∨
        ∃ page∈stackPages,SpaceOp.map page ⟨true,true,true,true⟩=op) ∨
      op=.zero (userSpaceBase+userSpaceSize-0x1000-userStackPages*4096) (userStackPages*4096) := by
  rw [buildPlan,loadPlan] at hplan
  rcases hparse : parse bytes with reason|⟨start,segments⟩
  · rw [hparse] at hplan
    cases hplan
  · rw [hparse] at hplan
    cases hplan
    simp only [List.mem_append,List.mem_flatMap,List.mem_map,List.mem_singleton,stackPages,
      Except.ok.injEq,Prod.mk.injEq]
    refine or_congr_left (or_congr_left ⟨fun h => ⟨_,_,⟨rfl,rfl⟩,h⟩,?_⟩)
    rintro ⟨_,_,⟨rfl,rfl⟩,h⟩
    exact h

theorem mem_elfPages {bytes : List UInt8} : page∈elfPages bytes ↔
    ∃ start segments,parse bytes=.ok (start,segments) ∧ ∃ header∈segments,
      page∈segmentPages header := by
  rw [elfPages]
  rcases parse bytes with reason|⟨start,segments⟩
  · simp
  · simp

/-- What a segment maps. -/
theorem map_mem_segmentOps {bytes : List UInt8} {header : ProgramHeader} {flags : Flags} :
    SpaceOp.map page flags∈segmentOps bytes header ↔
      page∈segmentPages header ∧ flags=stagingFlags := by
  simp only [segmentOps,List.mem_append,List.mem_map,List.mem_cons,SpaceOp.map.injEq,
    reduceCtorEq,List.not_mem_nil,or_false]
  split <;> simp [eq_comm]

/-- A spawn sets flags of user pages only. -/
theorem buildPlan_forUser {bytes : List UInt8} (hplan : buildPlan bytes=.ok (entry,ops)) :
    ∀ op∈ops,ForUser op := by
  intro op hop
  rcases (mem_buildPlan hplan op).mp hop with (⟨-,-,-,header,-,hsegment⟩|⟨page,-,rfl⟩)|rfl
  · rw [segmentOps] at hsegment
    rcases List.mem_append.mp hsegment with hbytes|hflags
    · rcases List.mem_append.mp hbytes with hmaps|hwrites
      · obtain ⟨page,-,rfl⟩ := List.mem_map.mp hmaps
        exact ⟨rfl,rfl⟩
      · rcases List.mem_cons.mp hwrites with rfl|hwrite
        · trivial
        · rw [List.mem_singleton.mp hwrite]
          trivial
    · split at hflags
      · obtain ⟨page,-,rfl⟩ := List.mem_map.mp hflags
        exact ⟨rfl,rfl⟩
      · exact absurd hflags List.not_mem_nil
  · exact ⟨rfl,rfl⟩
  · trivial

/-- A spawn maps the pages of the executable and of the stack. -/
theorem buildPlan_maps_iff {bytes : List UInt8} (hplan : buildPlan bytes=.ok (entry,ops)) :
    (∃ flags,SpaceOp.map page flags∈ops) ↔ page∈elfPages bytes++stackPages := by
  rw [List.mem_append,mem_elfPages]
  simp only [mem_buildPlan hplan,map_mem_segmentOps,SpaceOp.map.injEq,reduceCtorEq,or_false]
  constructor
  · rintro ⟨flags,⟨start,segments,hparse,header,hheader,hpage,-⟩|⟨_,hpage,rfl,-⟩⟩
    · exact Or.inl ⟨start,segments,hparse,header,hheader,hpage⟩
    · exact Or.inr hpage
  · rintro (⟨start,segments,hparse,header,hheader,hpage⟩|hpage)
    · exact ⟨_,Or.inl ⟨start,segments,hparse,header,hheader,hpage,rfl⟩⟩
    · exact ⟨_,Or.inr ⟨page,hpage,rfl,rfl⟩⟩

/-- Operations that succeed without other tasks in between build a space. -/
theorem built_performAll (hbacks : Backs books paging.allocator (space.ownedFrames+rest))
    (hrun : (performAll ops space paging).1=.ok ()) :
    Built space ops (performAll ops space paging).2.1 ∧
      Backs books (performAll ops space paging).2.2.allocator
        ((performAll ops space paging).2.1.ownedFrames+rest) := by
  induction ops generalizing space paging with
  | nil => exact ⟨.done space,hbacks⟩
  | cons op others ih =>
    have hlater := moves_perform op space paging _ hbacks
    have hnext := @Built.next space
    rw [performAll] at *
    cases hperform : op.perform space paging with
    | mk result after =>
      rw [hperform] at hrun hlater
      cases result with
      | error reason => cases hrun
      | ok done =>
        obtain ⟨hbuilt,hlast⟩ := ih hlater hrun
        refine ⟨hnext paging rest hbacks (by rw [hperform]) ?_,hlast⟩
        rw [hperform]
        exact hbuilt

/-- A process is spawned without other tasks in between. -/
def spawnAlone (bytes : List UInt8) (paging : Paging) (failAfter : Option ℕ) : Option Caller :=
  match newAddressSpace paging.allocator,buildPlan bytes with
  | .ok (root,later),.ok (entry,ops) =>
    let built := performAll ops root {paging with allocator := later}
    match built.1,(newUserTcb ⟨[],[],bytes,.ready,fun _ => true⟩ built.2.1 entry 0).process with
    | .ok (),some process => some ⟨⟨process,built.2.2,failAfter⟩,.idle 0,0⟩
    | _,_ => none
  | _,_ => none

theorem spawned_spawnAlone {bytes : List UInt8} {failAfter : Option ℕ} {caller : Caller}
    (hbacks : Backs books paging.allocator 0)
    (hspawn : spawnAlone bytes paging failAfter=some caller) : Spawned bytes caller := by
  rw [spawnAlone] at hspawn
  split at hspawn
  · rename_i root later entry ops hnew hplan
    dsimp only at hspawn
    split at hspawn
    · rename_i process hbuilt hprocess
      cases hspawn
      have hroot : Backs books (Paging.mk later paging.ram).allocator (root.ownedFrames+0) :=
        moves_newAddressSpace hnew 0 hbacks
      obtain ⟨hspace,hlast⟩ := built_performAll hroot hbuilt
      refine ⟨⟨_,later,root,_,entry,ops,_,0,hnew,rfl,hplan,hspace,hprocess⟩,⟨0,rfl⟩,?_⟩
      cases hprocess
      rw [Caller.Balanced,add_zero]
      exact hlast
    · cases hspawn
  · cases hspawn

end

/-! ## Inside a call -/

section

variable (origin : VmState) (before : AddressSpace)

/-- An accepted `MMAP` is being served. -/
def Mapping (call : MmapCall) (caller : Caller) : Prop :=
  ∃ stage,caller.job=.mmap call stage ∧ MmapInv origin.process before call caller.vm stage ∧
    Kept before.ownedFrames origin.paging.ram caller.vm.paging.ram

/-- An `MMAP` has returned: the process is as before, or the region is there.
The memory from before is the same. -/
def Mapped (call : MmapCall) (caller : Caller) : Prop :=
  (caller.job=.idle (-1) ∧ caller.vm.process=origin.process ∨ caller.job=.idle call.start ∧
    ∃ now,caller.vm.process=
        {origin.process with addressSpace := some now,mmapNext := call.finish} ∧
      MmapAt before call now caller.vm.paging.ram .committing) ∧
    Kept before.ownedFrames origin.paging.ram caller.vm.paging.ram

/-- An accepted `MUNMAP` is being served. -/
def Unmapping (call : MunmapCall) (caller : Caller) : Prop :=
  ∃ stage,caller.job=.munmap call stage ∧ MunmapInv origin.process before call caller.vm stage ∧
    Kept caller.vm.process.ownedFrames origin.paging.ram caller.vm.paging.ram

/-- A `MUNMAP` has returned: the process is as before and a page of the range
is not mapped, or the range is gone. The memory that is left is the same. -/
def Freed (call : MunmapCall) (caller : Caller) : Prop :=
  (caller.job=.idle (-1) ∧ caller.vm.process=origin.process ∧
      (∃ page,call.ptr/4096≤page ∧ page<call.ptr/4096+call.pages ∧
        before.tables.leaf page=none) ∨
    caller.job=.idle 0 ∧ ∃ now,caller.vm.process={origin.process with addressSpace := some now} ∧
      Tight now ∧ Unmapped before now call) ∧
    Kept caller.vm.process.ownedFrames origin.paging.ram caller.vm.paging.ram

end

section

variable {origin : VmState} {before : AddressSpace} {caller later entered now : Caller} {count : ℕ}

/-- Nobody makes a call from inside a call. -/
theorem enter_busy (hbusy : caller.Busy) (request : Request) : caller.enter request=none := by
  have hjob : ∀ rax,caller.job≠.idle rax := by
    intro rax hidle
    rw [Caller.Busy,hidle] at hbusy
    exact hbusy
  rw [Caller.enter]
  · exact fun rax _ _ hidle => absurd hidle (hjob rax)
  · exact fun rax _ _ hidle => absurd hidle (hjob rax)

/-- There is a next section as long as the process is inside a call. -/
theorem advance_isSome_iff : caller.advance.isSome ↔ caller.Busy := by
  rw [Caller.advance,Caller.Busy]
  split <;> simp_all

theorem busy_of_advance (hadvance : caller.advance=some later) : caller.Busy := by
  rw [← advance_isSome_iff,hadvance]
  rfl

/-- A process that has returned from a call is outside of calls. -/
theorem not_busy {rax : ℤ} (hjob : caller.job=.idle rax) : ¬caller.Busy := by
  rw [Caller.Busy,hjob]
  exact id

/-- The books, with the frames in local variables counted with the others. -/
theorem Caller.Balanced.backs (hbalanced : caller.Balanced) : Backs books caller.vm.paging.allocator
      (caller.vm.process.ownedFrames+(caller.job.frames+caller.others)) := by
  rw [← add_assoc]
  exact hbalanced

theorem Mapping.busy (hmapping : Mapping origin before call caller) : caller.Busy := by
  obtain ⟨stage,hjob,-⟩ := hmapping
  rw [Caller.Busy,hjob]
  trivial

theorem Unmapping.busy {call : MunmapCall} (hunmapping : Unmapping origin before call caller) :
    caller.Busy := by
  obtain ⟨stage,hjob,-⟩ := hunmapping
  rw [Caller.Busy,hjob]
  trivial

theorem Mapped.not_busy (hmapped : Mapped origin before call caller) : ¬caller.Busy := by
  rcases hmapped.1 with ⟨hjob,-⟩|⟨hjob,-⟩ <;> exact ProcessMemory.not_busy hjob

theorem Freed.not_busy {call : MunmapCall} (hfreed : Freed origin before call caller) :
    ¬caller.Busy := by
  rcases hfreed.1 with ⟨hjob,-⟩|⟨hjob,-⟩ <;> exact ProcessMemory.not_busy hjob

/-- A section of `MMAP`. -/
theorem advance_mapping (hcall : Accepted origin.process before call)
    (hmapping : Mapping origin before call caller) (hbalanced : caller.Balanced)
    (hadvance : caller.advance=some later) :
    later.Balanced ∧ (Mapping origin before call later ∨ Mapped origin before call later) := by
  obtain ⟨stage,hjob,hinv,hkept⟩ := hmapping
  rw [Caller.advance,hjob] at hadvance
  cases hadvance
  have hmoves := moves_mmapStep call caller.vm stage
  have hafter := after_mmapStep hcall hbalanced.backs hinv
  have hram := hkept.trans (kept_mmapStep hcall hbalanced.backs hinv) fun _ h => h
  have hframes := (FrameConservation.frames_jobAfter_mmap call
    (mmapStep call caller.vm stage).1).1
  refine ⟨?_,?_⟩
  · rw [Caller.Balanced,hjob] at hbalanced
    rw [Caller.Balanced]
    dsimp only
    rw [hframes,add_assoc]
    rw [add_assoc] at hbalanced
    exact hmoves _ hbalanced
  · generalize mmapStep call caller.vm stage=after at hafter hram ⊢
    rcases after with ⟨stage|rax|code,vm⟩
    · exact Or.inl ⟨stage,rfl,hafter,hram⟩
    · rcases hafter with ⟨rfl,hback⟩|⟨rfl,hthere⟩
      · exact Or.inr ⟨Or.inl ⟨rfl,hback⟩,hram⟩
      · exact Or.inr ⟨Or.inr ⟨rfl,hthere⟩,hram⟩
    · exact hafter.elim

/-- Other tasks run while `MMAP` is served. -/
theorem others_mapping (hmapping : Mapping origin before call caller)
    (hothers : Interferes caller later) : Mapping origin before call later := by
  have hbusy := hmapping.busy
  obtain ⟨stage,hjob,hinv,hkept⟩ := hmapping
  have hram := hothers.ram hbusy
  refine ⟨stage,hothers.job.trans hjob,?_,hkept.trans hram fun _ h => hinv.owned h⟩
  obtain ⟨space,hprocess,hstage⟩ := hinv
  refine ⟨space,(hothers.process hbusy).trans hprocess,hstage.congr ?_⟩
  rw [hprocess] at hram
  exact hram

/-- A section of `MUNMAP`. -/
theorem advance_unmapping {call : MunmapCall} (hcall : Ranged origin.process before call)
    (hunmapping : Unmapping origin before call caller) (hbalanced : caller.Balanced)
    (hadvance : caller.advance=some later) : later.Balanced ∧
      (Unmapping origin before call later ∨ Freed origin before call later) := by
  obtain ⟨stage,hjob,hinv,hkept⟩ := hunmapping
  rw [Caller.advance,hjob] at hadvance
  cases hadvance
  have hmoves := (settles_munmapStep call hinv.valid).moves
  have hafter := after_munmapStep hcall hbalanced.backs hinv
  have hquiet := quiet_munmapStep hcall hbalanced.backs hinv
  have hram : Kept (munmapStep call caller.vm stage).2.process.ownedFrames origin.paging.ram
      (munmapStep call caller.vm stage).2.paging.ram := by
    rw [hquiet.ram]
    exact fun frame hmem => hkept frame (hquiet.owned frame hmem)
  have hframes := (FrameConservation.frames_jobAfter_munmap call
    (munmapStep call caller.vm stage).1).1
  refine ⟨?_,?_⟩
  · rw [Caller.Balanced,hjob] at hbalanced
    rw [Caller.Balanced]
    dsimp only
    rw [hframes]
    exact hmoves _ hbalanced
  · generalize munmapStep call caller.vm stage=after at hafter hram ⊢
    rcases after with ⟨stage|rax|code,vm⟩
    · exact Or.inl ⟨stage,rfl,hafter,hram⟩
    · rcases hafter with ⟨rfl,hback⟩|⟨rfl,hthere⟩
      · exact Or.inr ⟨Or.inl ⟨rfl,hback⟩,hram⟩
      · exact Or.inr ⟨Or.inr ⟨rfl,hthere⟩,hram⟩
    · exact hafter.elim

/-- Other tasks run while `MUNMAP` is served. -/
theorem others_unmapping {call : MunmapCall} (hunmapping : Unmapping origin before call caller)
    (hothers : Interferes caller later) : Unmapping origin before call later := by
  have hbusy := hunmapping.busy
  obtain ⟨stage,hjob,⟨space,hprocess,hstage⟩,hkept⟩ := hunmapping
  have hsame := hothers.process hbusy
  refine ⟨stage,hothers.job.trans hjob,⟨space,hsame.trans hprocess,hstage⟩,?_⟩
  rw [hsame]
  exact hkept.trans (hothers.ram hbusy) fun _ h => h

/-- The rule for served calls: what sections and other tasks keep until the
call has ended. -/
theorem Serving.served {inside ended : Caller → Prop} (hended : ∀ now,ended now → ¬now.Busy)
    (hsection : ∀ now later,inside now → now.Balanced → now.advance=some later →
      later.Balanced ∧ (inside later ∨ ended later))
    (hothers : ∀ now later,inside now → Interferes now later → inside later)
    (hentered : inside entered) (hbalanced : entered.Balanced)
    (hserving : Serving entered count now) : now.Balanced ∧ (inside now ∨ ended now) := by
  induction hserving with
  | start => exact ⟨hbalanced,Or.inl hentered⟩
  | advance hpast hadvance ih =>
    obtain ⟨hkept,hserved|hdone⟩ := ih
    · exact hsection _ _ hserved hkept hadvance
    · exact absurd (busy_of_advance hadvance) (hended _ hdone)
  | others hpast hbusy hinterferes ih =>
    obtain ⟨-,hserved|hdone⟩ := ih
    · exact ⟨hinterferes.balanced,Or.inl (hothers _ _ hserved hinterferes)⟩
    · exact absurd hbusy (hended _ hdone)

/-- All of a served `MMAP`. -/
theorem run_mapping (hcall : Accepted origin.process before call)
    (hmapping : Mapping origin before call entered) (hbalanced : entered.Balanced)
    (hserving : Serving entered count now) :
    now.Balanced ∧ (Mapping origin before call now ∨ Mapped origin before call now) :=
  hserving.served (fun _ => Mapped.not_busy) (fun _ _ => advance_mapping hcall)
    (fun _ _ => others_mapping) hmapping hbalanced

/-- All of a served `MUNMAP`. -/
theorem run_unmapping {call : MunmapCall} (hcall : Ranged origin.process before call)
    (hunmapping : Unmapping origin before call entered) (hbalanced : entered.Balanced)
    (hserving : Serving entered count now) :
    now.Balanced ∧ (Unmapping origin before call now ∨ Freed origin before call now) :=
  hserving.served (fun _ => Freed.not_busy) (fun _ _ => advance_unmapping hcall)
    (fun _ _ => others_unmapping) hunmapping hbalanced

/-- Nothing happens inside a call that was refused. -/
theorem run_refused {rax : ℤ} (hjob : entered.job=.idle rax)
    (hserving : Serving entered count now) : now=entered ∧ count=0 := by
  induction hserving with
  | start => exact ⟨rfl,rfl⟩
  | advance hpast hadvance ih =>
    rw [ih.1] at hadvance
    exact absurd (busy_of_advance hadvance) (not_busy hjob)
  | others hpast hbusy hothers ih =>
    rw [ih.1] at hbusy
    exact absurd hbusy (not_busy hjob)

/-- A bound on the sections of a call that are left. -/
def leftOf : Job → ℕ
  | .mmap call stage => mmapSectionsLeft call stage
  | .munmap call stage => sectionsLeft call stage
  | _ => 0

/-- A call has a bounded number of sections if each of them that does not end
it leaves fewer. -/
theorem Serving.bounded (hless : ∀ count middle later,Serving entered count middle →
      middle.advance=some later → later.Busy → leftOf later.job<leftOf middle.job)
    (hserving : Serving entered count now) :
    count ≤ leftOf entered.job+1 ∧ (now.Busy → count+leftOf now.job ≤ leftOf entered.job) := by
  induction hserving with
  | start => exact ⟨Nat.zero_le _,fun _ => by omega⟩
  | @advance count middle later hpast hadvance ih =>
    have hleft := ih.2 (busy_of_advance hadvance)
    refine ⟨by omega,fun hmore => ?_⟩
    have hfewer := hless count middle later hpast hadvance hmore
    omega
  | others hpast hbusy hothers ih =>
    rw [hothers.job]
    exact ⟨ih.1,fun _ => ih.2 hbusy⟩

/-- A call that is not over after a section goes on with a stage. -/
theorem next_of_busy {Stage : Type} {resume : Stage → Job} {outcome : Outcome Stage}
    (hjob : later.job=jobAfter resume outcome) (hbusy : later.Busy) :
    ∃ next,outcome=.next next ∧ later.job=resume next := by
  rw [Caller.Busy,hjob] at hbusy
  cases outcome with
  | next next => exact ⟨next,rfl,hjob⟩
  | done rax => exact hbusy.elim
  | exit code => exact hbusy.elim

/-- A section after which `MMAP` goes on. -/
theorem advance_mmap {stage : MmapStage} (hjob : caller.job=.mmap call stage)
    (hadvance : caller.advance=some later) (hbusy : later.Busy) :
    ∃ next,(mmapStep call caller.vm stage).1=.next next ∧ later.job=.mmap call next := by
  rw [Caller.advance,hjob] at hadvance
  exact next_of_busy (congrArg Caller.job (Option.some.inj hadvance).symm) hbusy

/-- A section after which `MUNMAP` goes on. -/
theorem advance_munmap {call : MunmapCall} {stage : MunmapStage}
    (hjob : caller.job=.munmap call stage) (hadvance : caller.advance=some later)
    (hbusy : later.Busy) :
    ∃ next,(munmapStep call caller.vm stage).1=.next next ∧ later.job=.munmap call next := by
  rw [Caller.advance,hjob] at hadvance
  exact next_of_busy (congrArg Caller.job (Option.some.inj hadvance).symm) hbusy

/-- A section of `MMAP` leaves fewer. -/
theorem less_mapping (hmapping : Mapping origin before call caller)
    (hadvance : caller.advance=some later) (hbusy : later.Busy) :
    leftOf later.job<leftOf caller.job := by
  obtain ⟨stage,hjob,hinv,-⟩ := hmapping
  obtain ⟨next,hstep,hnext⟩ := advance_mmap hjob hadvance hbusy
  rw [hjob,hnext]
  exact mmapSectionsLeft_mmapStep hinv hstep

/-- A section of `MUNMAP` leaves fewer. -/
theorem less_unmapping {call : MunmapCall} (hcall : Ranged origin.process before call)
    (hunmapping : Unmapping origin before call caller) (hbalanced : caller.Balanced)
    (hadvance : caller.advance=some later) (hbusy : later.Busy) :
    leftOf later.job<leftOf caller.job := by
  obtain ⟨stage,hjob,hinv,-⟩ := hunmapping
  obtain ⟨next,hstep,hnext⟩ := advance_munmap hjob hadvance hbusy
  rw [hjob,hnext]
  exact sectionsLeft_munmapStep hcall hbalanced.backs hinv hstep

/-- Sections without other tasks in between are a way to serve a call. -/
theorem Serving.sections (hserving : Serving entered count now) (more : ℕ) :
    ∃ total,Serving entered total (now.sections more) ∧
      (total=count+more ∨ ¬(now.sections more).Busy) := by
  induction more generalizing now count with
  | zero => exact ⟨count,hserving,Or.inl rfl⟩
  | succ more ih =>
    rw [Caller.sections]
    cases hadvance : now.advance with
    | none =>
      refine ⟨count,hserving,Or.inr fun hbusy => ?_⟩
      rw [← advance_isSome_iff,hadvance] at hbusy
      cases hbusy
    | some later =>
      obtain ⟨total,htotal,hend⟩ := ih (hserving.advance hadvance)
      refine ⟨total,htotal,hend.imp_left fun h => ?_⟩
      omega

/-- What a section keeps holds after some sections. -/
theorem sections_keeps {P : Caller → Prop}
    (hstep : ∀ caller later,P caller → caller.advance=some later → P later)
    (hcaller : P caller) (count : ℕ) : P (caller.sections count) := by
  induction count generalizing caller with
  | zero => exact hcaller
  | succ count ih =>
    rw [Caller.sections]
    split
    · exact hcaller
    · rename_i later hadvance
      exact ih (hstep caller later hcaller hadvance)

end

/-! ## What holds at every time -/

/-- The arena of a process: the executable and the stack are mapped outside
of the part that was handed out, and this part is made of the regions that
were returned. -/
structure Arena (bytes : List UInt8) (regions : List (ℕ×ℕ)) (process : ProcessState)
    (space : AddressSpace) : Prop where
  /-- The executable and the stack are mapped. -/
  mapped : ∀ page∈elfPages bytes++stackPages,space.tables.leaf page≠none
  /-- None of their pages was handed out. -/
  apart : ∀ page∈elfPages bytes++stackPages,
    ¬(userMmapBase≤page*4096 ∧ page*4096<process.mmapNext)
  /-- What was handed out was returned. -/
  covered : ∀ address,userMmapBase≤address → address<process.mmapNext →
    ∃ region∈regions,region.1≤address ∧ address < region.2
  /-- What was returned was handed out. -/
  inside : ∀ region∈regions,region.2≤process.mmapNext

/-- The state of a process, relative to the last time it was outside of
calls. -/
inductive Holds (bytes : List UInt8) (regions : List (ℕ×ℕ)) (caller : Caller) : Prop where
  /-- Outside of calls. -/
  | resting (rax : ℤ) (space : AddressSpace) (hjob : caller.job=.idle rax)
    (hresting : Resting caller.vm.process space)
    (harena : Arena bytes regions caller.vm.process space)
  /-- Inside `MMAP`. -/
  | mapping (origin : VmState) (before : AddressSpace) (call : MmapCall)
    (hcall : Accepted origin.process before call)
    (harena : Arena bytes regions origin.process before)
    (hmapping : Mapping origin before call caller)
  /-- Inside `MUNMAP`. -/
  | unmapping (origin : VmState) (before : AddressSpace) (call : MunmapCall)
    (hcall : Ranged origin.process before call)
    (harena : Arena bytes regions origin.process before)
    (hunmapping : Unmapping origin before call caller)

section

variable {bytes : List UInt8} {regions : List (ℕ×ℕ)} {process : ProcessState}
  {before : AddressSpace} {caller later : Caller}

section

variable (harena : Arena bytes regions process before)
include harena

/-- The pages of a region that was mapped were free. -/
theorem Arena.region_apart {now : AddressSpace} {ram : Ram} (hcall : Accepted process before call)
    (hmapped : MmapAt before call now ram .committing) (hpage : page∈elfPages bytes++stackPages) :
    ¬(call.start≤page*4096 ∧ page*4096<call.finish) := by
  rintro ⟨hlow,hhigh⟩
  have haligned := hcall.region.1
  have hfinish := hcall.finish
  refine harena.mapped page hpage (hmapped.1.free page ?_)
  rw [Piece]
  omega

/-- After a successful `MMAP`. -/
theorem Arena.map {now : AddressSpace} {ram : Ram}
    (hcall : Accepted process before call) (hmapped : MmapAt before call now ram .committing) :
    Arena bytes (regions++[(call.start,call.finish)])
      {process with addressSpace := some now,mmapNext := call.finish} now := by
  have hstart := hcall.start
  have hfinish := hcall.finish
  refine ⟨fun page hpage => ?_,fun page hpage => ?_,fun address hlow hhigh => ?_,
    fun region hregion => ?_⟩
  · obtain ⟨leaf,hleaf⟩ := Option.ne_none_iff_exists'.mp (harena.mapped page hpage)
    rw [hmapped.1.grown.leaf page leaf hleaf]
    exact Option.some_ne_none leaf
  · have hregion := harena.region_apart hcall hmapped hpage
    have hold := harena.apart page hpage
    dsimp only
    omega
  · dsimp only at hhigh
    by_cases hnew : call.start≤address
    · exact ⟨_,List.mem_append_right _ List.mem_cons_self,hnew,hhigh⟩
    · obtain ⟨region,hregion,hin⟩ := harena.covered address hlow (by omega)
      exact ⟨region,List.mem_append_left _ hregion,hin⟩
  · rcases List.mem_append.mp hregion with hold|hnew
    · have hinside := harena.inside region hold
      dsimp only
      omega
    · rw [List.mem_singleton.mp hnew]

/-- After a successful `MUNMAP`. -/
theorem Arena.unmap {call : MunmapCall} {now : AddressSpace} (hcall : Ranged process before call)
    (hunmapped : Unmapped before now call) :
    Arena bytes regions {process with addressSpace := some now} now := by
  refine ⟨fun page hpage => ?_,harena.apart,harena.covered,harena.inside⟩
  have hold := harena.apart page hpage
  have haligned := hcall.ptr
  have hbase := hcall.base
  have hbelow := hcall.below
  rw [hunmapped.leaf,Tables.clear]
  dsimp only
  rw [if_neg]
  · exact harena.mapped page hpage
  · rw [List.mem_range'_1]
    omega

end

/-- A process is spawned with its executable and its stack only. -/
theorem leaf_spawned (hspawned : Spawned bytes caller) {space : AddressSpace}
    (hhas : caller.vm.process.addressSpace=some space) (hpage : space.tables.leaf page≠none) :
    page∈elfPages bytes++stackPages := by
  obtain ⟨⟨allocator,rest,root,built,entry,ops,request,id,hnew,hbytes,hplan,hbuilt,hprocess⟩,
    -,-⟩ := hspawned
  rw [hbytes] at hplan
  obtain ⟨hroot,htables⟩ := tight_newAddressSpace hnew
  have hspace : space=built := by
    rw [← Option.some.inj hprocess] at hhas
    exact (Option.some.inj hhas).symm
  rw [hspace] at hpage
  rcases leaf_built hbuilt hroot hpage with hold|⟨flags,hmem⟩
  · rw [htables] at hold
    exact absurd rfl hold
  · exact (buildPlan_maps_iff hplan).mp ⟨_,hmem⟩

/-- A process is spawned with an untouched arena. -/
theorem holds_spawned (hspawned : Spawned bytes caller) : Holds bytes [] caller := by
  obtain ⟨⟨allocator,rest,root,space,entry,ops,request,id,hnew,hbytes,hplan,hbuilt,hprocess⟩,
    ⟨rax,hjob⟩,-⟩ := hspawned
  rw [hbytes] at hplan
  obtain ⟨hroot,htables⟩ := tight_newAddressSpace hnew
  have husable : Usable root := by
    intro page leaf hleaf
    rw [htables] at hleaf
    cases hleaf
  obtain ⟨htight,-,hmapped⟩ := tight_built hbuilt hroot
  have hlast := usable_built hbuilt hroot husable (buildPlan_forUser hplan)
  have hspace : caller.vm.process.addressSpace=some space := by
    rw [← Option.some.inj hprocess]
  have hnext : caller.vm.process.mmapNext=userMmapBase := by
    rw [← Option.some.inj hprocess]
  refine .resting rax space hjob ⟨hspace,htight,hlast,?_,?_,?_⟩ ⟨fun page hpage => ?_,fun page _ => ?_,
    fun address hlow hhigh => ?_,nofun⟩
  · rw [hnext]
    decide
  · rw [hnext]
  · rw [hnext]
    decide
  · obtain ⟨flags,hmem⟩ := (buildPlan_maps_iff hplan).mpr hpage
    exact hmapped page flags hmem
  · rw [hnext]
    omega
  · rw [hnext] at hhigh
    omega

end

end TuwaiqOS.ProcessMemory
