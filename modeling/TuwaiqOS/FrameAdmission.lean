import TuwaiqOS.FrameAllocator

/-!
# What the frame allocator promises and delivers

`usable_frame_count` counts the frames of the usable regions, and
`usable_frame_at` finds the frame of an index by going through the same
regions. Counting divides lengths only, while a frame must begin at an aligned
address. The two agree exactly if every usable region that holds a frame
begins at an aligned address. Then admission is sound: as many allocations as
were promised succeed, with different frames.
-/

namespace TuwaiqOS.FrameAdmission

open ResourceLedger FrameAllocator
open BootInfoFrameAllocator (books)

/-- `can_allocate_frames`. -/
def canAllocateFrames (allocator : BootInfoFrameAllocator) (required : ℕ) : Bool :=
  required ≤ allocator.framesAvailable

/-- Usable regions are not upside down, and lie in the 52 bits of physical
addresses; `PhysAddr::new` panics on others. -/
def Physical (regions : List MemoryRegion) : Prop :=
  ∀ region∈regions,region.kind=.usable → region.start ≤ region.finish ∧ region.finish ≤ 2^52

/-- Usable regions that hold a frame begin at an aligned address. -/
def Aligned (regions : List MemoryRegion) : Prop :=
  ∀ region∈regions,region.kind=.usable → 4096 ≤ region.finish-region.start →
    region.start%4096=0

/-- An allocator that was set up with a memory map, after any sequence of
calls, with the frames that are allocated. Frames are given back by those who
have them. -/
inductive History (regions : List MemoryRegion) : BootInfoFrameAllocator → Multiset ℕ → Prop where
  /-- `init`. -/
  | init : History regions ⟨regions,0,[],0⟩ 0
  /-- `allocate_frame`. A call that fails changes nothing. -/
  | allocate {allocator later : BootInfoFrameAllocator} {held : Multiset ℕ} {frame : ℕ}
    (hpast : History regions allocator held)
    (halloc : allocator.allocateFrame=some (frame,later)) : History regions later ({frame}+held)
  /-- `deallocate_frame`. -/
  | deallocate {allocator : BootInfoFrameAllocator} {held : Multiset ℕ} {frame : ℕ}
    (hpast : History regions allocator ({frame}+held)) :
    History regions (allocator.deallocateFrame frame) held

/-- `allocate_frame`, called a number of times. -/
def allocateMany : ℕ → BootInfoFrameAllocator → Option (List ℕ×BootInfoFrameAllocator)
  | 0,allocator => some ([],allocator)
  | count+1,allocator =>
    match allocator.allocateFrame with
    | none => none
    | some (frame,later) => (allocateMany count later).map fun rest => (frame::rest.1,rest.2)

section

variable {regions : List MemoryRegion} {region : MemoryRegion}

/-- A usable region counts its frames. -/
theorem usableFrameCount_usable (hkind : region.kind=.usable)
    (hends : region.start ≤ region.finish) (rest : List MemoryRegion) :
    usableFrameCount (region::rest)=(region.finish-region.start)/4096+usableFrameCount rest := by
  simp [usableFrameCount,hkind,hends]

theorem usableFrameCount_other (hkind : region.kind≠.usable) (rest : List MemoryRegion) :
    usableFrameCount (region::rest)=usableFrameCount rest := by
  simp [usableFrameCount,hkind]

/-- In an aligned map every index below the count has a frame, and no other
has one. -/
theorem usableFrameIn_isSome_iff (hphysical : Physical regions) (haligned : Aligned regions)
    (index : ℕ) : (usableFrameIn regions index).isSome ↔ index<usableFrameCount regions := by
  induction regions generalizing index with
  | nil => simp [usableFrameIn,usableFrameCount]
  | cons region rest ih =>
    have hrest := ih (fun other hmem => hphysical other (List.mem_cons_of_mem _ hmem))
      fun other hmem => haligned other (List.mem_cons_of_mem _ hmem)
    rw [usableFrameIn]
    by_cases hkind : region.kind=.usable
    · obtain ⟨hends,-⟩ := hphysical region List.mem_cons_self hkind
      rw [if_neg (not_not.mpr hkind),if_neg (Nat.not_lt.mpr hends),
        usableFrameCount_usable hkind hends]
      by_cases hindex : index<(region.finish-region.start)/4096
      · have hstart := haligned region List.mem_cons_self hkind (by omega)
        rw [if_pos hindex,if_pos (by omega)]
        exact iff_of_true rfl (by omega)
      · rw [if_neg hindex,hrest]
        omega
    · rw [if_pos hkind,usableFrameCount_other hkind]
      exact hrest index

/-- A frame that is found is counted, in every map. -/
theorem lt_count_of_usableFrameIn {index frame : ℕ}
    (hframe : usableFrameIn regions index=some frame) : index<usableFrameCount regions := by
  induction regions generalizing index with
  | nil => cases hframe
  | cons region rest ih =>
    rcases usableFrameIn_cons hframe with ⟨hkind,hlow,-⟩|⟨hkind,hhigh,hlater⟩|⟨hkind,hlater⟩
    · rw [usableFrameCount_usable hkind (by omega)]
      omega
    · have hless := ih hlater
      by_cases hends : region.start ≤ region.finish
      · rw [usableFrameCount_usable hkind hends]
        omega
      · rw [usableFrameIn,if_neg (not_not.mpr hkind),if_pos (Nat.lt_of_not_le hends)] at hframe
        cases hframe
    · rw [usableFrameCount_other hkind]
      exact ih hlater

/-- In any other map an index below the count has none. -/
theorem exists_missing (hphysical : Physical regions) (hunaligned : ¬Aligned regions) :
    ∃ index<usableFrameCount regions,usableFrameIn regions index=none := by
  induction regions with
  | nil => exact absurd (fun region hmem => absurd hmem List.not_mem_nil) hunaligned
  | cons region rest ih =>
    have hsmaller : Physical rest := fun other hmem => hphysical other (List.mem_cons_of_mem _ hmem)
    by_cases hkind : region.kind=.usable
    · obtain ⟨hends,-⟩ := hphysical region List.mem_cons_self hkind
      rw [usableFrameCount_usable hkind hends]
      by_cases hbad : 4096 ≤ region.finish-region.start ∧ region.start%4096≠0
      · refine ⟨0,by omega,?_⟩
        rw [usableFrameIn,if_neg (not_not.mpr hkind),if_neg (Nat.not_lt.mpr hends),
          if_pos (by omega),if_neg (by omega)]
      · have hlater : ¬Aligned rest := by
          intro haligned
          refine hunaligned (List.forall_mem_cons.mpr ⟨fun _ hsize => ?_,haligned⟩)
          by_contra hstart
          exact hbad ⟨hsize,hstart⟩
        obtain ⟨index,hindex,hnone⟩ := ih hsmaller hlater
        refine ⟨(region.finish-region.start)/4096+index,by omega,?_⟩
        rw [usableFrameIn,if_neg (not_not.mpr hkind),if_neg (Nat.not_lt.mpr hends),
          if_neg (by omega),Nat.add_sub_cancel_left]
        exact hnone
    · have hlater : ¬Aligned rest := by
        intro haligned
        exact hunaligned (List.forall_mem_cons.mpr ⟨fun husable => absurd husable hkind,haligned⟩)
      obtain ⟨index,hindex,hnone⟩ := ih hsmaller hlater
      refine ⟨index,by rwa [usableFrameCount_other hkind],?_⟩
      rw [usableFrameIn,if_pos hkind]
      exact hnone

/-- Counting and finding agree exactly for aligned maps. -/
theorem agree_iff_aligned (hphysical : Physical regions) :
    (∀ index,(usableFrameIn regions index).isSome ↔ index<usableFrameCount regions) ↔
      Aligned regions := by
  constructor
  · intro hagree
    by_contra hunaligned
    obtain ⟨index,hindex,hnone⟩ := exists_missing hphysical hunaligned
    have hsome := (hagree index).mpr hindex
    rw [hnone] at hsome
    cases hsome
  · exact fun haligned => usableFrameIn_isSome_iff hphysical haligned

end

/-- An allocation takes one frame off the count. -/
theorem framesAvailable_allocateFrame {allocator later : BootInfoFrameAllocator} {frame : ℕ}
    (halloc : allocator.allocateFrame=some (frame,later)) :
    allocator.framesAvailable=later.framesAvailable+1 := by
  have hregions := BootInfoFrameAllocator.memoryRegions_allocateFrame halloc
  rw [BootInfoFrameAllocator.framesAvailable,BootInfoFrameAllocator.framesAvailable,hregions]
  rw [BootInfoFrameAllocator.allocateFrame] at halloc
  split at halloc
  · rename_i first rest hfreed
    cases halloc
    rw [hfreed,List.length_cons]
    dsimp only
    omega
  · rename_i hfreed
    obtain ⟨found,hfound,hpair⟩ := Option.map_eq_some_iff.mp halloc
    have hcounted := lt_count_of_usableFrameIn hfound
    cases hpair
    dsimp only
    omega

/-- A frame that is given back is counted. -/
theorem framesAvailable_deallocateFrame (allocator : BootInfoFrameAllocator) (frame : ℕ) :
    (allocator.deallocateFrame frame).framesAvailable=allocator.framesAvailable+1 := by
  simp only [BootInfoFrameAllocator.framesAvailable,BootInfoFrameAllocator.deallocateFrame,
    List.length_cons]
  omega

section

variable {regions : List MemoryRegion} {allocator : BootInfoFrameAllocator} {held : Multiset ℕ}

/-- The books balance at every time. -/
theorem History.backs (hregions : FrameAllocator.Disjoint regions)
    (hpast : History regions allocator held) :
    allocator.memoryRegions=regions ∧ Backs books allocator held := by
  induction hpast with
  | init => exact ⟨rfl,hregions,rfl⟩
  | @allocate allocator later held frame _ halloc ih =>
    refine ⟨(BootInfoFrameAllocator.memoryRegions_allocateFrame halloc).trans ih.1,?_⟩
    refine BootInfoFrameAllocator.moves_allocateFrame halloc held ?_
    rw [zero_add]
    exact ih.2
  | @deallocate allocator held frame _ ih =>
    refine ⟨ih.1,?_⟩
    have hfreed := BootInfoFrameAllocator.moves_deallocateFrame allocator frame held ih.2
    rwa [zero_add] at hfreed

/-- One allocation takes one frame off the count. -/
theorem allocateFrame_available (hphysical : Physical allocator.memoryRegions)
    (haligned : Aligned allocator.memoryRegions) {count : ℕ}
    (havailable : count+1 ≤ allocator.framesAvailable) :
    ∃ frame later,allocator.allocateFrame=some (frame,later) ∧ count ≤ later.framesAvailable := by
  rw [BootInfoFrameAllocator.framesAvailable] at havailable
  rw [BootInfoFrameAllocator.allocateFrame]
  cases hfreed : allocator.freed with
  | cons frame rest =>
    rw [hfreed,List.length_cons] at havailable
    refine ⟨frame,_,rfl,?_⟩
    rw [BootInfoFrameAllocator.framesAvailable]
    dsimp only
    omega
  | nil =>
    rw [hfreed,List.length_nil] at havailable
    have hsome := (usableFrameIn_isSome_iff hphysical haligned allocator.next).mpr (by omega)
    obtain ⟨frame,hframe⟩ := Option.isSome_iff_exists.mp hsome
    refine ⟨frame,⟨allocator.memoryRegions,allocator.next+1,[],allocator.allocatedCount+1⟩,?_,?_⟩
    · dsimp only
      rw [BootInfoFrameAllocator.usableFrameAt,hframe]
      rfl
    · rw [BootInfoFrameAllocator.framesAvailable]
      dsimp only
      omega

/-- As many allocations as are available succeed. -/
theorem allocateMany_available (hregions : FrameAllocator.Disjoint regions)
    (hphysical : Physical regions) (haligned : Aligned regions) {count : ℕ}
    (hpast : History regions allocator held) (havailable : count ≤ allocator.framesAvailable) :
    ∃ frames later,allocateMany count allocator=some (frames,later) ∧ frames.length=count ∧
      History regions later ((frames : Multiset ℕ)+held) := by
  induction count generalizing allocator held with
  | zero =>
    refine ⟨[],allocator,rfl,rfl,?_⟩
    rw [Multiset.coe_nil,zero_add]
    exact hpast
  | succ count ih =>
    obtain ⟨hsame,-⟩ := History.backs hregions hpast
    have hboth : Physical allocator.memoryRegions ∧ Aligned allocator.memoryRegions := by
      rw [hsame]
      exact ⟨hphysical,haligned⟩
    obtain ⟨frame,middle,halloc,hleft⟩ := allocateFrame_available hboth.1 hboth.2 havailable
    obtain ⟨frames,later,hmany,hlength,hlater⟩ := ih (hpast.allocate halloc) hleft
    refine ⟨frame::frames,later,?_,?_,?_⟩
    · rw [allocateMany,halloc]
      dsimp only
      rw [hmany]
      rfl
    · rw [List.length_cons,hlength]
    · rw [← Multiset.cons_coe,← Multiset.singleton_add,add_assoc,add_left_comm]
      exact hlater

/-- Counting matches delivery exactly for aligned maps. For disjoint usable
regions, every frame lies whole in a usable region and has one index; the
indices with a frame are those below the count exactly if the map is aligned;
and then, after any history, as many allocations as were admitted succeed with
frames that are all different and that nobody has. -/
theorem admission_exact_iff (hregions : FrameAllocator.Disjoint regions)
    (hphysical : Physical regions) :
    (∀ first second frame,usableFrameIn regions first=some frame →
      usableFrameIn regions second=some frame → first=second) ∧
    (∀ index frame,usableFrameIn regions index=some frame → frame%4096=0 ∧
      ∃ region∈regions,region.kind=.usable ∧ region.start ≤ frame ∧
        frame+4096 ≤ region.finish) ∧
    ((∀ index,(usableFrameIn regions index).isSome ↔ index<usableFrameCount regions) ↔
      Aligned regions) ∧
    (Aligned regions → ∀ allocator held count,History regions allocator held →
      canAllocateFrames allocator count=true →
        ∃ frames later,allocateMany count allocator=some (frames,later) ∧ frames.length=count ∧
          frames.Nodup ∧ ∀ frame∈frames,frame∉held) := by
  refine ⟨fun first second frame => usableFrameIn_injective hregions,
    fun index frame hframe => ⟨usableFrameIn_aligned hframe,usableFrameIn_within hframe⟩,
    agree_iff_aligned hphysical,
    fun haligned allocator held count hpast hcan => ?_⟩
  have havailable : count ≤ allocator.framesAvailable := of_decide_eq_true hcan
  obtain ⟨frames,later,hmany,hlength,hlater⟩ :=
    allocateMany_available hregions hphysical haligned hpast havailable
  have hbacks := (History.backs hregions hlater).2
  have hnodup : ((frames : Multiset ℕ)+held).Nodup := by
    rw [← add_zero ((frames : Multiset ℕ)+held)] at hbacks
    exact hbacks.nodup
  refine ⟨frames,later,hmany,hlength,?_,fun frame hmem hheld => ?_⟩
  · exact Multiset.coe_nodup.mp (Multiset.nodup_of_le (Multiset.le_add_right _ _) hnodup)
  · exact Multiset.disjoint_left.mp (Multiset.nodup_add.mp hnodup).2.2
      (Multiset.mem_coe.mpr hmem) hheld

end

/-- A map with one aligned region of two frames and one of half a frame. -/
def oddMap : List MemoryRegion := [⟨0x1000,0x3000,.usable⟩,⟨0x3100,0x3900,.usable⟩]

theorem admission_exact_iff_oddMap :
    canAllocateFrames ⟨oddMap,0,[],0⟩ 2=true ∧
      ∃ frames later,allocateMany 2 ⟨oddMap,0,[],0⟩=some (frames,later) ∧ frames.Nodup := by
  have hregions : FrameAllocator.Disjoint oddMap := by
    simp [FrameAllocator.Disjoint,oddMap]
  have hphysical : Physical oddMap := by
    simp [Physical,oddMap]
  have haligned : Aligned oddMap := by
    simp [Aligned,oddMap]
  obtain ⟨frames,later,hmany,-,hnodup,-⟩ :=
    (admission_exact_iff hregions hphysical).2.2.2 haligned _ _ 2 .init (by decide)
  exact ⟨by decide,frames,later,hmany,hnodup⟩

/-- A usable region that begins in the middle of a page: two frames are
promised, and not one can be allocated. -/
theorem unaligned_region_not_delivered :
    FrameAllocator.Disjoint [⟨0x1800,0x3800,.usable⟩] ∧ Physical [⟨0x1800,0x3800,.usable⟩] ∧
      canAllocateFrames ⟨[⟨0x1800,0x3800,.usable⟩],0,[],0⟩ 2=true ∧
      BootInfoFrameAllocator.allocateFrame ⟨[⟨0x1800,0x3800,.usable⟩],0,[],0⟩=none := by
  refine ⟨List.pairwise_singleton _ _,?_,by decide,by decide⟩
  simp [Physical]

end TuwaiqOS.FrameAdmission
