import TuwaiqOS.ExclusiveSpaces

/-!
# One partition of all frames

Any number of address spaces share one frame allocator. Whatever sequence of
operations runs on them, with successes and failures, a frame is still ahead
of the allocator's cursor, or in its pool, or owned by one space, and never
two of these. A frame under the private slot of a space is owned by the space
and used in one place, so two spaces never have a frame in common.
-/

namespace TuwaiqOS.FrameOwnership

open ResourceLedger FrameAllocator PageTables AddressSpaces ExclusiveSpaces
open BootInfoFrameAllocator (books)

/-- Address spaces that share an allocator. -/
structure Machine where
  /-- The live address spaces. -/
  spaces : List AddressSpace
  /-- The allocator of all of them. -/
  allocator : BootInfoFrameAllocator

/-- An operation on the address space at an index. -/
inductive Operation where
  /-- `new_address_space`; the space is the last one of the list. -/
  | newAddressSpace
  /-- `map_in_address_space`. -/
  | map (index page : ℕ) (flags : Flags)
  /-- `unmap_range_in_address_space_atomic`. -/
  | unmapRange (index rawStart pageCount : ℕ)
  /-- `clean_up_empty_tables_in_range`. -/
  | cleanUp (index rawStart pageCount : ℕ)
  /-- `free_address_space`, which consumes the space. -/
  | free (index : ℕ)

/-- One of the spaces is changed together with the allocator, whatever the
answer is. -/
def Machine.change {α : Type} (machine : Machine) (index : ℕ)
    (action : AddressSpace → BootInfoFrameAllocator → α×AddressSpace×BootInfoFrameAllocator) :
    Machine :=
  match machine.spaces[index]? with
  | none => machine
  | some space =>
    let result := action space machine.allocator
    ⟨machine.spaces.set index result.2.1,result.2.2⟩

/-- An operation is performed. -/
def perform (machine : Machine) : Operation → Machine
  | .newAddressSpace =>
    match newAddressSpace machine.allocator with
    | .error _ => machine
    | .ok (space,allocator) => ⟨machine.spaces++[space],allocator⟩
  | .map index page flags =>
    machine.change index fun space allocator => mapInAddressSpace space page flags allocator
  | .unmapRange index rawStart pageCount =>
    machine.change index fun space allocator =>
      unmapRangeInAddressSpaceAtomic space rawStart pageCount allocator
  | .cleanUp index rawStart pageCount =>
    machine.change index fun space allocator =>
      cleanUpEmptyTablesInRange space rawStart pageCount allocator
  | .free index =>
    match machine.spaces[index]? with
    | none => machine
    | some space => ⟨machine.spaces.eraseIdx index,freeAddressSpace space machine.allocator⟩

/-! ## What every operation keeps -/

/-- The allocator and the spaces balance, next to what others hold, and each
space uses its frames exclusively. -/
structure Orderly (reserved : Multiset ℕ) (machine : Machine) : Prop where
  /-- Frames that were issued are in the pool, reserved or owned. -/
  backs : Backs books machine.allocator
    (reserved+total (fun space => (space.ownedFrames : Multiset ℕ)) machine.spaces)
  /-- Frames in use are exclusive. -/
  exclusive : ∀ space∈machine.spaces,Exclusive space
  /-- No table lacks its parent. -/
  closed : ∀ space∈machine.spaces,space.tables.Closed

variable {reserved : Multiset ℕ} {machine : Machine}

variable {space : AddressSpace}

/-- The balance, seen from one of the spaces. -/
theorem Orderly.backs_space (horderly : Orderly reserved machine) {index : ℕ} (hget : machine.spaces[index]? = some space) :
    ∃ rest,Backs books machine.allocator (space.ownedFrames+rest) := by
  have hbacks := horderly.backs
  rw [total_eraseIdx hget,add_left_comm] at hbacks
  exact ⟨_,hbacks⟩

/-- An action that moves frames and keeps a space exclusive keeps order. -/
theorem orderly_change {α : Type} (horderly : Orderly reserved machine) (index : ℕ)
    {action : AddressSpace → BootInfoFrameAllocator → α×AddressSpace×BootInfoFrameAllocator}
    (hmoves : ∀ space allocator,Moves books allocator space.ownedFrames
      (action space allocator).2.2 (action space allocator).2.1.ownedFrames)
    (hkeeps : ∀ space rest,Exclusive space → space.tables.Closed →
      Backs books machine.allocator (space.ownedFrames+rest) →
      Exclusive (action space machine.allocator).2.1 ∧
        (action space machine.allocator).2.1.tables.Closed) :
    Orderly reserved (machine.change index action) := by
  rw [Machine.change]
  split
  · exact horderly
  rename_i space hget
  have hmem := List.mem_of_getElem? hget
  obtain ⟨rest,hbacks⟩ := horderly.backs_space hget
  obtain ⟨hexclusive,hclosed⟩ :=
    hkeeps space rest (horderly.exclusive space hmem) (horderly.closed space hmem) hbacks
  refine ⟨?_,?_,?_⟩
  · have hset : Moves books machine.allocator
        (total (fun space => (space.ownedFrames : Multiset ℕ)) machine.spaces)
        (action space machine.allocator).2.2
        (total (fun space => (space.ownedFrames : Multiset ℕ))
          (machine.spaces.set index (action space machine.allocator).2.1)) :=
      Moves.set hget (hmoves space machine.allocator)
    exact (hset.frame_left reserved).backs horderly.backs
  · intro other hother
    rcases List.mem_or_eq_of_mem_set hother with hold|rfl
    · exact horderly.exclusive other hold
    · exact hexclusive
  · intro other hother
    rcases List.mem_or_eq_of_mem_set hother with hold|rfl
    · exact horderly.closed other hold
    · exact hclosed

/-- A new space uses no frames below its root. -/
theorem exclusive_newAddressSpace {allocator later : BootInfoFrameAllocator} (hnew : newAddressSpace allocator=.ok (space,later)) :
    Exclusive space ∧ space.tables=Tables.empty := by
  rw [newAddressSpace] at hnew
  split at hnew
  · cases hnew
  · cases hnew
    have hplace : ∀ place,Tables.empty.frameAt place=none := by
      intro place
      cases place <;> rfl
    refine ⟨⟨List.mem_cons_self,fun place => ?_,fun place frame h => ?_,
      fun place other frame h _ => ?_⟩,rfl⟩
    · rw [hplace]
      exact Option.some_ne_none _ ∘ Eq.symm
    · rw [hplace] at h
      cases h
    · rw [hplace] at h
      cases h

/-- Every operation keeps order. -/
theorem orderly_perform (horderly : Orderly reserved machine) (operation : Operation) :
    Orderly reserved (perform machine operation) := by
  cases operation with
  | newAddressSpace =>
    rw [perform]
    split
    · exact horderly
    rename_i space later hnew
    obtain ⟨hexclusive,htables⟩ := exclusive_newAddressSpace hnew
    refine ⟨?_,?_,?_⟩
    · have hbacks := moves_newAddressSpace hnew _ (by rw [zero_add]; exact horderly.backs)
      rw [total_append,total_cons,total_nil,add_zero,← add_assoc,add_comm]
      exact hbacks
    · intro other hother
      rcases List.mem_append.mp hother with hold|hlast
      · exact horderly.exclusive other hold
      · rw [List.mem_singleton.mp hlast]
        exact hexclusive
    · intro other hother
      rcases List.mem_append.mp hother with hold|hlast
      · exact horderly.closed other hold
      · rw [List.mem_singleton.mp hlast,htables]
        exact Tables.closed_empty
  | map index page flags =>
    refine orderly_change horderly index (fun space allocator =>
      moves_mapInAddressSpace space page flags allocator) fun space rest hspace hclosed hbacks => ?_
    have hmaps := mapsPage_mapInAddressSpace hspace hbacks page flags
    exact ⟨hmaps.exclusive,hmaps.closed hclosed⟩
  | unmapRange index rawStart pageCount =>
    refine orderly_change horderly index (fun space allocator =>
      moves_unmapRangeInAddressSpaceAtomic space rawStart pageCount allocator)
      fun space rest hspace hclosed hbacks => ?_
    rcases @unmapsRange_or_refused machine.allocator _ rawStart pageCount hspace
      (Multiset.coe_nodup.mp hbacks.nodup) with ⟨records,hunmaps⟩|⟨reason,hrefused⟩
    · refine ⟨hunmaps.shrunk.exclusive hspace,?_⟩
      rw [hunmaps.tables]
      exact hclosed.clear _
    · rw [hrefused]
      exact ⟨hspace,hclosed⟩
  | cleanUp index rawStart pageCount =>
    refine orderly_change horderly index (fun space allocator =>
      moves_cleanUpEmptyTablesInRange space rawStart pageCount allocator)
      fun space rest hspace hclosed hbacks => ?_
    rcases @cleansTables_or_refused machine.allocator _ rawStart pageCount hspace
      hclosed (Multiset.coe_nodup.mp hbacks.nodup) with ⟨removed,hcleans⟩|⟨reason,hrefused⟩
    · exact ⟨hcleans.shrunk.exclusive hspace,hcleans.swept.closed hclosed⟩
    · rw [hrefused]
      exact ⟨hspace,hclosed⟩
  | free index =>
    rw [perform]
    split
    · exact horderly
    rename_i space hget
    refine ⟨?_,fun other hother => horderly.exclusive other (List.mem_of_mem_eraseIdx hother),
      fun other hother => horderly.closed other (List.mem_of_mem_eraseIdx hother)⟩
    have hbacks := horderly.backs
    rw [total_eraseIdx hget,add_left_comm] at hbacks
    have hfreed := moves_freeAddressSpace space machine.allocator _ hbacks
    rw [zero_add] at hfreed
    exact hfreed

/-- A sequence of operations keeps order. -/
theorem orderly_run (horderly : Orderly reserved machine) (operations : List Operation) :
    Orderly reserved (operations.foldl perform machine) := by
  induction operations generalizing machine with
  | nil => exact horderly
  | cons operation rest ih => exact ih (orderly_perform horderly operation)

/-! ## The partition -/

/-- Frames at the next positions of the cursor, which nobody ever had. -/
def neverIssued (allocator : BootInfoFrameAllocator) (count : ℕ) : List ℕ :=
  (List.range' allocator.next count).filterMap allocator.usableFrameAt

/-- Frames that were never issued, frames of the pool and owned frames are
distinct, and used frames are owned and used once. -/
structure Partitioned (machine : Machine) : Prop where
  /-- The never-issued frames, the pool and the ownership lists are disjoint
  from each other and have no duplicates. -/
  distinct : ∀ count,(neverIssued machine.allocator count++machine.allocator.freed++
    machine.spaces.flatMap AddressSpace.ownedFrames).Nodup
  /-- A table or leaf frame of a space is in its ownership list. -/
  owned : ∀ space∈machine.spaces,∀ place frame,space.tables.frameAt place=some frame →
    frame∈space.ownedFrames
  /-- It is used by one table or mapped at one page. -/
  once : ∀ space∈machine.spaces,∀ place other frame,space.tables.frameAt place=some frame →
    space.tables.frameAt other=some frame → place=other
  /-- Two spaces never use the same frame. -/
  apart : ∀ (index other : ℕ) first second,machine.spaces[index]? = some first →
    machine.spaces[other]? = some second → index≠other → ∀ place site frame,
    first.tables.frameAt place=some frame → second.tables.frameAt site≠some frame

/-- Frames ahead of the cursor are different from those behind it. -/
theorem nodup_bumped_neverIssued {allocator : BootInfoFrameAllocator}
    (hregions : FrameAllocator.Disjoint allocator.memoryRegions) (count : ℕ) :
    (allocator.bumped++neverIssued allocator count).Nodup := by
  have hall : ({allocator with next := allocator.next+count} :
      BootInfoFrameAllocator).bumped.Nodup := BootInfoFrameAllocator.nodup_bumped hregions
  have hsplit : List.range (allocator.next+count)=
      List.range allocator.next++List.range' allocator.next count := by
    rw [List.range_eq_range',List.range_eq_range',← List.range'_append_1,Nat.zero_add]
  rw [BootInfoFrameAllocator.bumped] at hall
  dsimp only at hall
  rw [hsplit,List.filterMap_append] at hall
  exact hall

/-- Order gives the partition. -/
theorem Orderly.partitioned (horderly : Orderly reserved machine) : Partitioned machine := by
  refine ⟨fun count => ?_,fun space hmem => (horderly.exclusive space hmem).owned,
    fun space hmem => (horderly.exclusive space hmem).once,?_⟩
  · have hnodup := nodup_bumped_neverIssued horderly.backs.sound count
    have hbalanced := horderly.backs.balanced
    change (machine.allocator.bumped : Multiset ℕ)=machine.allocator.freed+_ at hbalanced
    rw [total_coe] at hbalanced
    have hparts : (reserved+((neverIssued machine.allocator count++machine.allocator.freed++
        machine.spaces.flatMap AddressSpace.ownedFrames : List ℕ) : Multiset ℕ)).Nodup := by
      rw [← Multiset.coe_nodup,← Multiset.coe_add,hbalanced] at hnodup
      rw [← Multiset.coe_add,← Multiset.coe_add]
      convert hnodup using 1
      ac_rfl
    exact Multiset.coe_nodup.mp (Multiset.nodup_of_le (Multiset.le_add_left _ _) hparts)
  · intro index other first second hfirst hsecond hne place site frame hplace hsite
    have hone := (horderly.exclusive first (List.mem_of_getElem? hfirst)).owned place frame hplace
    have htwo := (horderly.exclusive second (List.mem_of_getElem? hsecond)).owned site frame hsite
    exact horderly.backs.holders_apart hfirst hsecond hne.symm hone htwo

end TuwaiqOS.FrameOwnership
