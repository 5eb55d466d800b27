import Mathlib.Tactic

/-!
# Four-level page tables

A page is numbered, a table of height one has 512 pages, and a table of
height `h+1` has 512 tables of height `h`. Mapping a page creates the
missing tables on the way down with frames from an allocator, and cleaning
up a range removes the tables in it that became empty and gives their frames
back. Both are generic in the state that the frames come from and go to, and
whatever one allocation or one release keeps, they keep.
-/

namespace TuwaiqOS.PageTables

/-- Flags of an entry. -/
structure Flags where
  /-- The entry is valid. -/
  present : Bool
  /-- Writes are allowed. -/
  writable : Bool
  /-- Ring 3 can use the page. -/
  userAccessible : Bool
  /-- Instructions are not fetched from the page. -/
  noExecute : Bool
  deriving DecidableEq

/-- An entry that maps a page. -/
structure Leaf where
  /-- Start address of the frame. -/
  frame : ℕ
  /-- Flags of the mapping. -/
  flags : Flags
  deriving DecidableEq

/-- The tables below a root. -/
structure Tables where
  /-- Frame of the table of a height with an index, if it exists. -/
  table : ℕ×ℕ → Option ℕ
  /-- Mapping of a page, if it has one. -/
  leaf : ℕ → Option Leaf

namespace Tables

/-- A root without tables. -/
def empty : Tables := ⟨fun _ => none,fun _ => none⟩

/-- Set or clear the entry of a table. -/
def setTable (tables : Tables) (key : ℕ×ℕ) (frame : Option ℕ) : Tables :=
  {tables with table := Function.update tables.table key frame}

/-- Set or clear the entry of a page. -/
def setLeaf (tables : Tables) (page : ℕ) (leaf : Option Leaf) : Tables :=
  {tables with leaf := Function.update tables.leaf page leaf}

@[simp] theorem table_setTable_self (tables : Tables) (key : ℕ×ℕ) (frame : Option ℕ) :
    (tables.setTable key frame).table key=frame := by
  simp only [setTable,Function.update_self]

variable {key : ℕ×ℕ} {page : ℕ} {tables : Tables}

theorem table_setTable_other (tables : Tables) {other : ℕ×ℕ} (hother : other≠key) (frame : Option ℕ) :
    (tables.setTable key frame).table other=tables.table other := by
  simp only [setTable,Function.update_of_ne hother]

@[simp] theorem leaf_setLeaf_self (tables : Tables) (page : ℕ) (leaf : Option Leaf) :
    (tables.setLeaf page leaf).leaf page=leaf := by
  simp only [setLeaf,Function.update_self]

theorem leaf_setLeaf_other (tables : Tables) {other : ℕ} (hother : other≠page) (leaf : Option Leaf) :
    (tables.setLeaf page leaf).leaf other=tables.leaf other := by
  simp only [setLeaf,Function.update_of_ne hother]

@[simp] theorem leaf_setTable (tables : Tables) (key : ℕ×ℕ) (frame : Option ℕ) :
    (tables.setTable key frame).leaf=tables.leaf := rfl

/-- Something that refers to a frame: the entry of a table or of a page. -/
abbrev Place := (ℕ×ℕ)⊕ℕ

/-- The frame that a place refers to. -/
def frameAt (tables : Tables) : Place → Option ℕ
  | .inl key => tables.table key
  | .inr page => (tables.leaf page).map Leaf.frame

theorem frameAt_setTable (tables : Tables) (key : ℕ×ℕ) (frame : Option ℕ) :
    (tables.setTable key frame).frameAt=Function.update tables.frameAt (.inl key) frame := by
  funext place
  cases place <;> simp [frameAt,setTable,Function.update_apply]

theorem frameAt_setLeaf (tables : Tables) (page : ℕ) (leaf : Option Leaf) :
    (tables.setLeaf page leaf).frameAt=
      Function.update tables.frameAt (.inr page) (leaf.map Leaf.frame) := by
  funext place
  cases place with
  | inl key => simp [frameAt,setLeaf]
  | inr other => by_cases hother : other=page <;> simp [frameAt,setLeaf,hother]

/-- A table that is there stays when a missing one is created. -/
theorem table_setTable_kept {other : ℕ×ℕ} {found : ℕ} (hnone : tables.table key=none)
    (hother : tables.table other=some found) (frame : Option ℕ) :
    (tables.setTable key frame).table other=some found := by
  rw [table_setTable_other]
  · exact hother
  · rintro rfl
    rw [hnone] at hother
    cases hother

/-! ## Mapping -/

section

variable {Source : Type} (allocate : Source → Option (ℕ×Source))

/-- Create the missing tables of the given heights above a page. A failed
allocation leaves the tables that were created before. -/
def createTables (page : ℕ) : List ℕ → Tables → Source → Bool×Tables×Source
  | [],tables,source => (true,tables,source)
  | height::rest,tables,source =>
    match tables.table (height,page/512^height) with
    | some _ => createTables page rest tables source
    | none =>
      match allocate source with
      | none => (false,tables,source)
      | some (frame,later) =>
        createTables page rest (tables.setTable (height,page/512^height) (some frame)) later

/-- Map a page to a frame, unless it is mapped or a table cannot be created. -/
def mapTo (tables : Tables) (page : ℕ) (leaf : Leaf) (source : Source) : Bool×Tables×Source :=
  let created := createTables allocate page [3,2,1] tables source
  if created.1=true ∧ created.2.1.leaf page=none then
    (true,created.2.1.setLeaf page (some leaf),created.2.2)
  else (false,created.2.1,created.2.2)

variable {allocate}

/-- Heights from the given one down to the lowest. -/
def descending : ℕ → List ℕ
  | 0 => []
  | height+1 => (height+1)::descending height

variable {source : Source} {heights : List ℕ} {keys : Finset (ℕ×ℕ)}

/-- Tables are created from the top down: what each creation keeps, with the
table above being there, the creation of all missing tables keeps. -/
theorem createTables_induct {P : Tables → Source → Prop}
    (hstep : ∀ tables source height frame later,1≤height → height≤3 → (height<3 → tables.table (height+1,page/512^(height+1))≠none) → tables.table (height,page/512^height)=none → allocate source=some (frame,later) → P tables source → P (tables.setTable (height,page/512^height) (some frame)) later)
    {height : ℕ} (hheight : height≤3)
    (habove : height<3 → tables.table (height+1,page/512^(height+1))≠none)
    (hstart : P tables source) :
    P (createTables allocate page (descending height) tables source).2.1
      (createTables allocate page (descending height) tables source).2.2 := by
  induction height generalizing tables source with
  | zero => exact hstart
  | succ height ih =>
    rw [descending,createTables]
    split
    · rename_i frame hfound
      exact ih (by omega) (fun _ => by rw [hfound]; exact Option.some_ne_none frame) hstart
    · rename_i hnone
      split
      · exact hstart
      · rename_i frame later halloc
        refine ih (by omega) (fun _ => ?_)
          (hstep tables source (height+1) frame later (by omega) hheight habove hnone halloc hstart)
        rw [table_setTable_self]
        exact Option.some_ne_none frame

/-- What one allocation keeps, the creation of tables keeps. -/
theorem createTables_keeps {P : Source → Prop}
    (hstep : ∀ source frame later,allocate source=some (frame,later) → P source → P later)
    {page : ℕ} {tables : Tables} {source : Source} (hsource : P source) :
    P (createTables allocate page [3,2,1] tables source).2.2 :=
  createTables_induct (P := fun _ source => P source)
    (fun _ source _ frame later _ _ _ _ halloc => hstep source frame later halloc)
    (Nat.le_refl 3) (fun h => absurd h (Nat.lt_irrefl 3)) hsource

/-- Creating tables keeps the tables that are there. -/
theorem createTables_table {frame : ℕ} (hkey : tables.table key=some frame) :
    (createTables allocate page heights tables source).2.1.table key=some frame := by
  induction heights generalizing tables source with
  | nil => exact hkey
  | cons height rest ih =>
    rw [createTables]
    split
    · exact ih hkey
    · rename_i hnone
      split
      · exact hkey
      · exact ih (table_setTable_kept hnone hkey _)

/-- When the creation of tables succeeds, all of them are there. -/
theorem createTables_complete {page : ℕ} {heights : List ℕ} {tables : Tables} {source : Source}
    (hdone : (createTables allocate page heights tables source).1=true) : ∀ height∈heights,
      (createTables allocate page heights tables source).2.1.table (height,page/512^height)≠none := by
  induction heights generalizing tables source with
  | nil => exact fun height hmem => absurd hmem List.not_mem_nil
  | cons first rest ih =>
    rw [createTables] at hdone ⊢
    split at hdone
    · rename_i frame hfound
      rw [List.forall_mem_cons]
      exact ⟨by rw [createTables_table hfound]; exact Option.some_ne_none frame,ih hdone⟩
    · split at hdone
      · cases hdone
      · rename_i frame later halloc
        rw [List.forall_mem_cons]
        refine ⟨?_,ih hdone⟩
        rw [createTables_table (table_setTable_self tables _ (some frame))]
        exact Option.some_ne_none frame

/-- When the creation of tables fails, one of them is missing and no frame
could be allocated for it. -/
theorem createTables_fails (hfail : (createTables allocate page heights tables source).1=false) :
    ∃ height∈heights,
      (createTables allocate page heights tables source).2.1.table (height,page/512^height)=none ∧
      allocate (createTables allocate page heights tables source).2.2=none := by
  induction heights generalizing tables source with
  | nil => cases hfail
  | cons first rest ih =>
    rw [createTables] at hfail ⊢
    split at hfail
    · obtain ⟨height,hmem,hmissing⟩ := ih hfail
      exact ⟨height,List.mem_cons_of_mem _ hmem,hmissing⟩
    · rename_i hnone
      split at hfail
      · rename_i halloc
        exact ⟨first,List.mem_cons_self,hnone,halloc⟩
      · obtain ⟨height,hmem,hmissing⟩ := ih hfail
        exact ⟨height,List.mem_cons_of_mem _ hmem,hmissing⟩

/-- Creating tables maps no page. -/
theorem createTables_leaf (page : ℕ) (heights : List ℕ) (tables : Tables) (source : Source) :
    (createTables allocate page heights tables source).2.1.leaf=tables.leaf := by
  induction heights generalizing tables source with
  | nil => rfl
  | cons first rest ih =>
    rw [createTables]
    split
    · exact ih tables source
    · split
      · rfl
      · rw [ih,leaf_setTable]

/-! ### Counting tables -/

/-- How many of some tables are missing. -/
def missing (tables : Tables) (keys : Finset (ℕ×ℕ)) : ℕ :=
  (keys.filter fun key => tables.table key=none).card

theorem missing_le_card (tables : Tables) (keys : Finset (ℕ×ℕ)) : tables.missing keys ≤ keys.card :=
  Finset.card_filter_le keys _

/-- A table that was missing is there. -/
theorem missing_setTable (hkey : key∈keys) (hnone : tables.table key=none) (frame : ℕ) :
    (tables.setTable key (some frame)).missing keys+1=tables.missing keys := by
  have herase : keys.filter (fun other => (tables.setTable key (some frame)).table other=none)=
      (keys.filter fun other => tables.table other=none).erase key := by
    ext other
    by_cases hsame : other=key
    · simp [hsame]
    · simp [table_setTable_other tables hsame,hsame]
  rw [missing,herase]
  exact Finset.card_erase_add_one (Finset.mem_filter.mpr ⟨hkey,hnone⟩)

/-- Creating tables costs one allocation for each of them that was missing:
if the source can pay for the missing ones before, it can pay for those that
are missing afterwards. -/
theorem createTables_pays {P : ℕ → Source → Prop}
    (hstep : ∀ count source frame later,allocate source=some (frame,later) → P (count+1) source → P count later) (hkeys : ∀ height,1≤height → height≤3 → (height,page/512^height)∈keys)
    (tables : Tables) (source : Source) (hpays : P (tables.missing keys) source) :
    P ((createTables allocate page [3,2,1] tables source).2.1.missing keys)
      (createTables allocate page [3,2,1] tables source).2.2 := by
  refine createTables_induct (P := fun tables source => P (tables.missing keys) source) ?_
    (Nat.le_refl 3) (fun h => absurd h (Nat.lt_irrefl 3)) hpays
  intro tables source height frame later hlow hhigh _ hnone halloc hbefore
  rw [← missing_setTable (hkeys height hlow hhigh) hnone frame] at hbefore
  exact hstep _ source frame later halloc hbefore

/-- What one allocation keeps, a mapping keeps. -/
theorem mapTo_keeps {P : Source → Prop}
    (hstep : ∀ source frame later,allocate source=some (frame,later) → P source → P later)
    {tables : Tables} {page : ℕ} {leaf : Leaf} {source : Source} (hsource : P source) :
    P (mapTo allocate tables page leaf source).2.2 := by
  rw [mapTo]
  have hcreated := @createTables_keeps Source allocate P hstep page tables source hsource
  split <;> exact hcreated

end

section

variable (tables : Tables)

/-- Remove the mapping of a page that has a valid one, and return its frame. -/
def unmap (page : ℕ) : Option (ℕ×Tables) :=
  match tables.leaf page with
  | some leaf => if leaf.flags.present then some (leaf.frame,tables.setLeaf page none) else none
  | none => none

/-- The tables with no mapping for the given pages. -/
def clear (pages : List ℕ) : Tables :=
  {tables with leaf := fun page => if page∈pages then none else tables.leaf page}

theorem clear_singleton (page : ℕ) : tables.clear [page]=tables.setLeaf page none := by
  rw [clear,setLeaf]
  refine congrArg _ (funext fun other => ?_)
  by_cases hsame : other=page <;> simp [hsame]

theorem clear_clear (first second : List ℕ) :
    (tables.clear first).clear second=tables.clear (first++second) := by
  rw [clear,clear,clear]
  refine congrArg _ (funext fun page => ?_)
  by_cases hone : page∈first <;> by_cases htwo : page∈second <;> simp [hone,htwo]

/-- The tables with new flags for those of the given pages that are mapped. -/
def protect (flags : Flags) (pages : List ℕ) : Tables :=
  {tables with leaf := fun page =>
    if page∈pages then (tables.leaf page).map fun leaf => {leaf with flags := flags}
    else tables.leaf page}

end

/-- New flags do not move frames. -/
@[simp] theorem frameAt_protect (tables : Tables) (flags : Flags) (pages : List ℕ) (place : Place) :
    (tables.protect flags pages).frameAt place=tables.frameAt place := by
  cases place with
  | inl key => rfl
  | inr page =>
    rw [frameAt,frameAt,protect]
    dsimp only
    split
    · rw [Option.map_map]
      rfl
    · rfl

/-- A page is mapped if its place refers to a frame. -/
theorem leaf_eq_none_iff : tables.leaf page=none ↔ tables.frameAt (.inr page)=none :=
  Option.map_eq_none_iff.symm

/-- Change the flags of a mapped page. -/
def updateFlags (tables : Tables) (page : ℕ) (flags : Flags) : Option Tables :=
  (tables.leaf page).map fun leaf => tables.setLeaf page (some {leaf with flags := flags})

/-! ## Cleaning up -/

/-- All entries of the table of a height with an index are unused. -/
def unused (tables : Tables) (height index : ℕ) : Bool :=
  (List.range 512).all fun entry =>
    if height=1 then (tables.leaf (index*512+entry)).isNone
    else (tables.table (height-1,index*512+entry)).isNone

section

variable {Sink : Type} (deallocate : Sink → ℕ → Sink)

/-- Clean up the tables below the table of a height with an index that cover
the pages from `first` to `last`, in ascending order, and tell whether the
table itself is unused then. -/
def cleanUp : ℕ → ℕ → ℕ → ℕ → Tables×Sink → Bool×Tables×Sink
  | 0,_,_,_,state => (false,state)
  | height+1,index,first,last,state =>
    if last<first then (false,state)
    else
      let swept :=
        if height=0 then state
        else
          (List.range' (first/512^height%512) (last/512^height%512+1-first/512^height%512)).foldl
            (fun state entry =>
              let child := index*512+entry
              match state.1.table (height,child) with
              | none => state
              | some frame =>
                let cleaned := cleanUp height child (max first (child*512^height))
                  (min last ((child+1)*512^height-1)) state
                if cleaned.1 then
                  (cleaned.2.1.setTable (height,child) none,deallocate cleaned.2.2 frame)
                else cleaned.2)
            state
      (swept.1.unused (height+1) index,swept)

variable {deallocate}

/-- What one release keeps, cleaning up keeps. -/
theorem cleanUp_keeps {P : Sink → Prop} (hstep : ∀ sink frame,P sink → P (deallocate sink frame))
    {height index first last : ℕ} {state : Tables×Sink} (hstate : P state.2) :
    P (cleanUp deallocate height index first last state).2.2 := by
  induction height generalizing index first last state with
  | zero => exact hstate
  | succ height ih =>
    rw [cleanUp]
    split
    · exact hstate
    dsimp only
    split
    · exact hstate
    · -- the entries are swept from left to right
      refine List.foldlRecOn (motive := fun state : Tables×Sink => P state.2) _ _ hstate ?_
      intro state hstate entry _
      split
      · exact hstate
      · split
        · exact hstep _ _ (ih hstate)
        · exact ih hstate

end

end Tables

end TuwaiqOS.PageTables
