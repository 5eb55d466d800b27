import TuwaiqOS.ExclusiveSpaces

/-!
# Removal of ownership in batches

Unmapping plans the removal of its frames once, from a snapshot of the
ownership list, and carries the plan out in batches while the list shrinks.
The plan is in descending order, so a batch leaves the places of all later
ones as they were planned.
-/

namespace TuwaiqOS.OwnershipPlan

open AddressSpaces ExclusiveSpaces

/-- Calls of `remove_unmapped_ownership` for one batch after another: the
answers and the space. -/
def removeBatches (space : AddressSpace) :
    List (List OwnershipRemoval) → List Bool×AddressSpace
  | [] => ([],space)
  | batch::rest =>
    let removed := removeUnmappedOwnership space batch
    let later := removeBatches removed.2 rest
    (removed.1::later.1,later.2)

/-- Batches of a plan for the whole list take out the planned frames. -/
theorem removeBatches_eq {batches : List (List OwnershipRemoval)} {space : AddressSpace}
    (hnodup : space.ownedFrames.Nodup) (hplan : Removable batches.flatten space.ownedFrames) :
    removeBatches space batches=(List.replicate batches.length true,{space with
      ownedFrames := space.ownedFrames.filter fun frame =>
        frame∉batches.flatten.map OwnershipRemoval.frame}) := by
  induction batches generalizing space with
  | nil => simp [removeBatches]
  | cons batch rest ih =>
    rw [List.flatten_cons] at hplan
    have hbatch := removeOwned_filter hnodup hplan.left
    have hrest := (removeOwned_append hplan).2.1
    rw [hbatch] at hrest
    have hlater := @ih {space with ownedFrames := _} (hnodup.filter _) hrest
    rw [removeBatches,removeUnmappedOwnership]
    dsimp only
    rw [hbatch,hlater,List.length_cons,List.replicate_succ,List.filter_filter]
    refine Prod.ext rfl (congrArg (AddressSpace.mk space.pml4Frame · space.tables) ?_)
    refine List.filter_congr fun frame _ => ?_
    simp only [List.flatten_cons,List.map_append,List.mem_append,not_or,Bool.decide_and,
      Bool.and_comm]

/-- A plan is made exactly if the snapshot has all the frames; then every
batch of it, in whatever sizes it is cut, is removed without a mismatch, and
what stays are the other frames of the snapshot in their order. -/
theorem ownership_removed_exactly {snapshot frames : List ℕ} (hsnapshot : snapshot.Nodup)
    (hframes : frames.Pairwise (·<·)) :
    ((∃ removals,planUnmapOwnership snapshot frames=some removals) ↔
      ∀ frame∈frames,frame∈snapshot) ∧
    ∀ removals,planUnmapOwnership snapshot frames=some removals →
      ∀ batches : List (List OwnershipRemoval),batches.flatten=removals →
      ∀ space : AddressSpace,space.ownedFrames=snapshot →
      (∀ answer∈(removeBatches space batches).1,answer=true) ∧
      (removeBatches space batches).2=
        {space with ownedFrames := snapshot.filter fun frame => frame∉frames} := by
  refine ⟨⟨?_,planUnmapOwnership_isSome hsnapshot hframes.nodup⟩,?_⟩
  · rintro ⟨removals,hplan⟩ frame hframe
    have hmem := (planUnmapOwnership_frames hsnapshot hplan).mem_iff.mpr hframe
    have hremovable := removable_planUnmapOwnership hplan
    rw [← List.append_nil removals] at hremovable
    have hsplit := (removeOwned_append hremovable).2.2
    rw [← Multiset.mem_coe,← hsplit]
    exact Multiset.mem_add.mpr (Or.inl hmem)
  · rintro removals hplan batches rfl space rfl
    rw [removeBatches_eq hsnapshot (removable_planUnmapOwnership hplan)]
    refine ⟨fun answer hanswer => List.eq_of_mem_replicate hanswer,?_⟩
    have hsame := fun frame => (planUnmapOwnership_frames hsnapshot hplan).mem_iff (a := frame)
    simp only [hsame]

/-- Two of four frames, removed one by one. -/
theorem ownership_removed_exactly_two :
    (removeBatches ⟨7,[4,9,5,6],.empty⟩ [[⟨3,6⟩],[],[⟨1,9⟩]]).2.ownedFrames=[4,5] := by
  have hremoved := (@ownership_removed_exactly [4,9,5,6] [6,9] (by decide) (by decide)).2 _ rfl
    [[⟨3,6⟩],[],[⟨1,9⟩]] rfl ⟨7,[4,9,5,6],.empty⟩ rfl
  rw [hremoved.2]
  rfl

end TuwaiqOS.OwnershipPlan
