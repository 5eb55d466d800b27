import Mathlib.Data.List.Nodup
import Mathlib.Tactic
import TuwaiqOS.ResourceLedger

/-!
# The physical frame allocator

`BootInfoFrameAllocator` hands out the frames of the usable regions that the
bootloader reported, in order, and reuses freed frames first. A frame is
named by its start address. The last element of the source's `freed` vector
is the head of the list here.
-/

namespace TuwaiqOS.FrameAllocator

open ResourceLedger

/-- Kinds of the bootloader's memory regions. -/
inductive MemoryRegionKind where
  /-- Free RAM. -/
  | usable
  /-- Used by the bootloader. -/
  | bootloader
  /-- Of another UEFI type. -/
  | unknownUefi (code : ℕ)
  /-- Of another BIOS type. -/
  | unknownBios (code : ℕ)
  deriving DecidableEq

/-- A region of the bootloader's memory map. -/
structure MemoryRegion where
  /-- First address. -/
  start : ℕ
  /-- End address, which is not part of the region. -/
  finish : ℕ
  /-- What the region is. -/
  kind : MemoryRegionKind

/-- The allocator's state. -/
structure BootInfoFrameAllocator where
  /-- The bootloader's memory map. -/
  memoryRegions : List MemoryRegion
  /-- Cursor over the usable frames. -/
  next : ℕ
  /-- Frames that were freed, the last one first. -/
  freed : List ℕ
  /-- Frames handed out so far, reused ones included. -/
  allocatedCount : ℕ

/-- `usable_frame_at` over the rest of the memory map. -/
def usableFrameIn : List MemoryRegion → ℕ → Option ℕ
  | [],_ => none
  | region::rest,index =>
    if region.kind≠.usable then usableFrameIn rest index
    else if region.finish < region.start then none
    else if index<(region.finish-region.start)/4096 then
      -- `PhysFrame::from_start_address` refuses an unaligned address
      if (region.start+index*4096)%4096=0 then some (region.start+index*4096) else none
    else usableFrameIn rest (index-(region.finish-region.start)/4096)

/-! ## Distinct frames -/

/-- Usable regions do not overlap. -/
def Disjoint (regions : List MemoryRegion) : Prop :=
  regions.Pairwise fun first second => first.kind=.usable → second.kind=.usable →
    first.finish ≤ second.start ∨ second.finish≤first.start

/-- A frame of a memory map is in its first region or in the others. -/
theorem usableFrameIn_cons {region : MemoryRegion} {rest : List MemoryRegion} {index frame : ℕ}
    (hframe : usableFrameIn (region::rest) index=some frame) :
    (region.kind=.usable ∧ index<(region.finish-region.start)/4096 ∧
        frame=region.start+index*4096 ∧ frame%4096=0) ∨
      (region.kind=.usable ∧ (region.finish-region.start)/4096 ≤ index ∧
        usableFrameIn rest (index-(region.finish-region.start)/4096)=some frame) ∨
      (region.kind≠.usable ∧ usableFrameIn rest index=some frame) := by
  rw [usableFrameIn] at hframe
  split at hframe
  · rename_i hkind
    exact Or.inr (Or.inr ⟨hkind,hframe⟩)
  · rename_i hkind
    rw [not_not] at hkind
    split at hframe
    · cases hframe
    · split at hframe
      · rename_i hlow
        split at hframe
        · rename_i haligned
          cases hframe
          exact Or.inl ⟨hkind,hlow,rfl,haligned⟩
        · cases hframe
      · exact Or.inr (Or.inl ⟨hkind,by omega,hframe⟩)

variable {regions : List MemoryRegion}

/-- A usable frame lies in a usable region. -/
theorem usableFrameIn_within {index frame : ℕ} (hframe : usableFrameIn regions index=some frame) :
    ∃ region∈regions,region.kind=.usable ∧ region.start≤frame ∧ frame+4096 ≤ region.finish := by
  induction regions generalizing index with
  | nil => cases hframe
  | cons region rest ih =>
    rcases usableFrameIn_cons hframe with ⟨hkind,hlow,rfl,-⟩|⟨-,-,hlater⟩|⟨-,hlater⟩
    · exact ⟨region,List.mem_cons_self,hkind,by omega,by omega⟩
    all_goals
      obtain ⟨found,hmem,hfound⟩ := ih hlater
      exact ⟨found,List.mem_cons_of_mem _ hmem,hfound⟩

/-- A usable frame is aligned. -/
theorem usableFrameIn_aligned {index frame : ℕ}
    (hframe : usableFrameIn regions index=some frame) : frame%4096=0 := by
  induction regions generalizing index with
  | nil => cases hframe
  | cons region rest ih =>
    rcases usableFrameIn_cons hframe with ⟨-,-,-,haligned⟩|⟨-,-,hlater⟩|⟨-,hlater⟩
    · exact haligned
    all_goals exact ih hlater

/-- Two indices of the same usable frame are equal. -/
theorem usableFrameIn_injective (hregions : Disjoint regions)
    {first second frame : ℕ} (hfirst : usableFrameIn regions first=some frame)
    (hsecond : usableFrameIn regions second=some frame) : first=second := by
  induction regions generalizing first second with
  | nil => cases hfirst
  | cons region rest ih =>
    obtain ⟨haway,hrest⟩ := List.pairwise_cons.mp hregions
    -- a frame of this region is in no later one
    have hoff : ∀ index other,region.kind=.usable → other<(region.finish-region.start)/4096 →
        usableFrameIn rest index≠some (region.start+other*4096) := by
      intro index other hkind hother hframe
      obtain ⟨found,hmem,hfound,hlow,hhigh⟩ := usableFrameIn_within hframe
      rcases haway found hmem hkind hfound with hbefore|hafter <;> omega
    rcases usableFrameIn_cons hfirst with ⟨hkind,hlow,hsame,-⟩|⟨hkind,hlow,hlater⟩|⟨hkind,hlater⟩ <;>
      rcases usableFrameIn_cons hsecond with ⟨hkind',hlow',hsame',-⟩|⟨hkind',hlow',hlater'⟩|
        ⟨hkind',hlater'⟩
    · omega
    · exact absurd (hlater'.trans (congrArg some hsame)) (hoff _ _ hkind hlow)
    · exact absurd hkind hkind'
    · exact absurd (hlater.trans (congrArg some hsame')) (hoff _ _ hkind hlow')
    · have hequal := ih hrest hlater hlater'
      omega
    · exact absurd hkind hkind'
    · exact absurd hkind' hkind
    · exact absurd hkind' hkind
    · exact ih hrest hlater hlater'

/-! ## The allocator -/

/-- Frames of the usable regions that are not upside down. -/
def usableFrameCount (regions : List MemoryRegion) : ℕ :=
  ((regions.filter fun region => region.kind=.usable ∧ region.start ≤ region.finish).map
    fun region => (region.finish-region.start)/4096).sum

namespace BootInfoFrameAllocator

section

variable (allocator : BootInfoFrameAllocator)

/-- `usable_frame_at`. -/
def usableFrameAt (index : ℕ) : Option ℕ :=
  usableFrameIn allocator.memoryRegions index

/-- `frames_available`. -/
def framesAvailable : ℕ :=
  allocator.freed.length+(usableFrameCount allocator.memoryRegions-allocator.next)

/-- `allocate_frame`. -/
def allocateFrame : Option (ℕ×BootInfoFrameAllocator) :=
  match allocator.freed with
  | frame::rest =>
    some (frame,{allocator with freed := rest,allocatedCount := allocator.allocatedCount+1})
  | [] =>
    (allocator.usableFrameAt allocator.next).map fun frame =>
      (frame,{allocator with
        next := allocator.next+1,allocatedCount := allocator.allocatedCount+1})

/-- `deallocate_frame`. -/
def deallocateFrame (frame : ℕ) : BootInfoFrameAllocator :=
  {allocator with freed := frame::allocator.freed}

/-- Frames the cursor has passed. -/
def bumped : List ℕ :=
  (List.range allocator.next).filterMap allocator.usableFrameAt

end

/-- The cursor passes no frame twice. -/
theorem nodup_bumped {allocator : BootInfoFrameAllocator}
    (hregions : Disjoint allocator.memoryRegions) : allocator.bumped.Nodup := by
  refine List.Nodup.filterMap ?_ List.nodup_range
  intro first second frame hfirst hsecond
  exact usableFrameIn_injective hregions hfirst hsecond

/-- The books of the allocator: frames the cursor has passed are in the pool
or handed out, and the usable regions do not overlap. -/
def books : Accounts BootInfoFrameAllocator ℕ where
  issued := fun allocator => allocator.bumped
  free := fun allocator => allocator.freed
  sound := fun allocator => Disjoint allocator.memoryRegions
  nodup := fun _ hregions => Multiset.coe_nodup.mpr (nodup_bumped hregions)

variable {allocator later : BootInfoFrameAllocator} {frame : ℕ}

section

variable (halloc : allocator.allocateFrame=some (frame,later))
include halloc

/-- A frame comes from the pool or from the cursor. -/
theorem allocateFrame_cases :
    (∃ rest,allocator.freed=frame::rest ∧ later={allocator with
        freed := rest,allocatedCount := allocator.allocatedCount+1}) ∨
      (allocator.freed=[] ∧ allocator.usableFrameAt allocator.next=some frame ∧
        later={allocator with
          next := allocator.next+1,allocatedCount := allocator.allocatedCount+1}) := by
  rw [allocateFrame] at halloc
  split at halloc
  · rename_i first rest hfreed
    cases halloc
    exact Or.inl ⟨rest,hfreed,rfl⟩
  · rename_i hfreed
    obtain ⟨found,hfound,hpair⟩ := Option.map_eq_some_iff.mp halloc
    cases hpair
    exact Or.inr ⟨hfreed,hfound,rfl⟩

/-- Allocating does not change the memory map. -/
theorem memoryRegions_allocateFrame : later.memoryRegions=allocator.memoryRegions := by
  rcases allocateFrame_cases halloc with ⟨rest,-,rfl⟩|⟨-,-,rfl⟩ <;> rfl

end

/-- Freeing does not change the memory map. -/
theorem memoryRegions_deallocateFrames (allocator : BootInfoFrameAllocator) (frames : List ℕ) :
    (frames.foldl deallocateFrame allocator).memoryRegions=allocator.memoryRegions := by
  induction frames generalizing allocator with
  | nil => rfl
  | cons frame rest ih => exact ih _

/-- Freeing changes nothing but the pool. -/
theorem deallocateFrames_eq (allocator : BootInfoFrameAllocator) (frames : List ℕ) :
    ∃ freed,frames.foldl deallocateFrame allocator={allocator with freed := freed} := by
  induction frames generalizing allocator with
  | nil => exact ⟨allocator.freed,rfl⟩
  | cons frame rest ih => exact ih (allocator.deallocateFrame frame)

/-- A frame the cursor has passed lies in a usable region. -/
theorem mem_bumped (hmem : frame∈allocator.bumped) :
    ∃ region∈allocator.memoryRegions,region.kind=.usable ∧ region.start≤frame ∧
      frame+4096 ≤ region.finish := by
  obtain ⟨index,-,hframe⟩ := List.mem_filterMap.mp hmem
  exact usableFrameIn_within hframe

/-- A frame that somebody holds is aligned. -/
theorem aligned_of_backs {held : Multiset ℕ} (hbacks : Backs books allocator held)
    (hmem : frame∈held) : frame%4096=0 := by
  have hissued : frame∈books.issued allocator := by
    rw [hbacks.balanced]
    exact Multiset.mem_add.mpr (Or.inr hmem)
  obtain ⟨index,-,hframe⟩ := List.mem_filterMap.mp (Multiset.mem_coe.mp hissued)
  exact usableFrameIn_aligned hframe

/-- An allocated frame is held from now on. -/
theorem moves_allocateFrame (halloc : allocator.allocateFrame=some (frame,later)) :
    Moves books allocator 0 later {frame} := by
  intro rest ⟨hregions,hbalanced⟩
  rw [zero_add] at hbalanced
  change (allocator.bumped : Multiset ℕ)=allocator.freed+rest at hbalanced
  rcases allocateFrame_cases halloc with ⟨freed,hfreed,rfl⟩|⟨hfreed,hfresh,rfl⟩
  · refine ⟨hregions,?_⟩
    change (allocator.bumped : Multiset ℕ)=freed+({frame}+rest)
    rw [hbalanced,hfreed,← Multiset.cons_coe,← Multiset.singleton_add,add_assoc,add_left_comm]
  · have hbumped : BootInfoFrameAllocator.bumped {allocator with
        next := allocator.next+1,allocatedCount := allocator.allocatedCount+1}=
          allocator.bumped++[frame] := by
      rw [bumped,bumped,List.range_succ,List.filterMap_append]
      exact congrArg _ (List.filterMap_cons_some hfresh)
    refine ⟨hregions,?_⟩
    change (BootInfoFrameAllocator.bumped _ : Multiset ℕ)=allocator.freed+({frame}+rest)
    rw [hbumped,← Multiset.coe_add,hbalanced,Multiset.coe_singleton,add_assoc,add_comm rest]

/-- A freed frame is in the pool. -/
theorem moves_deallocateFrame (allocator : BootInfoFrameAllocator) (frame : ℕ) :
    Moves books allocator {frame} (allocator.deallocateFrame frame) 0 := by
  intro rest ⟨hregions,hbalanced⟩
  refine ⟨hregions,?_⟩
  rw [zero_add]
  change (allocator.bumped : Multiset ℕ)=allocator.freed+({frame}+rest) at hbalanced
  change (allocator.bumped : Multiset ℕ)=(frame::allocator.freed : List ℕ)+rest
  rw [hbalanced,← Multiset.cons_coe,← Multiset.singleton_add,add_assoc,add_left_comm]

/-- Freed one after another. -/
theorem moves_deallocateFrames (allocator : BootInfoFrameAllocator) (frames : List ℕ) :
    Moves books allocator frames (frames.foldl deallocateFrame allocator) 0 := by
  induction frames generalizing allocator with
  | nil => exact Moves.refl _ _ _
  | cons frame rest ih =>
    rw [← Multiset.cons_coe,← Multiset.singleton_add,List.foldl_cons]
    have hfirst := (moves_deallocateFrame allocator frame).frame (rest : Multiset ℕ)
    rw [zero_add] at hfirst
    exact hfirst.trans (ih _)

end BootInfoFrameAllocator

end TuwaiqOS.FrameAllocator
