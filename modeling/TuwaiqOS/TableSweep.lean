import Mathlib.Data.List.Nodup
import TuwaiqOS.PageTables

/-!
# What cleaning up removes

Cleaning up a range of pages removes exactly the tables above these pages
that have become empty, from the bottom up, and reports the frame of each
removed table once. A table that stays is in use if it lies above one of the
pages. The heights are swept one subtree after another, and sweeps of
separate subtrees compose.
-/

namespace TuwaiqOS.PageTables.Tables

variable {tables later : Tables}

/-! ## Entries of tables -/

/-- A table of a height has an entry for this child: a page for a table of
height one, a table of the next lower height otherwise. -/
def Entry (tables : Tables) (height child : ℕ) : Prop :=
  if height=1 then tables.leaf child≠none else tables.table (height-1,child)≠none

/-- The table of a height with an index has an entry. -/
def Used (tables : Tables) (height index : ℕ) : Prop :=
  ∃ child,child/512=index ∧ tables.Entry height child

theorem unused_iff {height index : ℕ} :
    tables.unused height index=true ↔ ¬tables.Used height index := by
  have hentry : ∀ child,(if height=1 then (tables.leaf child).isNone
      else (tables.table (height-1,child)).isNone)=true ↔ ¬tables.Entry height child := by
    intro child
    rw [Entry]
    split <;> simp
  rw [unused,List.all_eq_true]
  constructor
  · rintro hall ⟨child,hchild,hused⟩
    have hnone := hall (child%512) (List.mem_range.mpr (Nat.mod_lt _ (by decide)))
    rw [show index*512+child%512=child by omega] at hnone
    exact (hentry child).mp hnone hused
  · intro hunused entry hmem
    rw [List.mem_range] at hmem
    refine (hentry _).mpr fun hused => hunused ⟨index*512+entry,by omega,hused⟩

/-- A table on the way to an entry is there, and only the heights one to
three have tables. -/
structure Closed (tables : Tables) : Prop where
  /-- Heights of tables. -/
  height : ∀ key,tables.table key≠none → 1≤key.1 ∧ key.1≤3
  /-- A table has its parent. -/
  above : ∀ height index,tables.table (height,index)≠none → height<3 →
    tables.table (height+1,index/512)≠none
  /-- A mapped page has its table. -/
  leaf : ∀ page,tables.leaf page≠none → tables.table (1,page/512)≠none

theorem closed_empty : Closed empty :=
  ⟨fun _ h => absurd rfl h,fun _ _ h => absurd rfl h,fun _ h => absurd rfl h⟩

/-- Pages are unmapped, and no table is removed. -/
theorem Closed.clear (hclosed : Closed tables) (pages : List ℕ) : Closed (tables.clear pages) := by
  refine ⟨hclosed.height,hclosed.above,fun page hleaf => hclosed.leaf page fun hnone => hleaf ?_⟩
  rw [Tables.clear]
  dsimp only
  split
  · rfl
  · exact hnone

theorem div_pow_succ (page height : ℕ) : page/512^height/512=page/512^(height+1) := by
  rw [Nat.div_div_eq_div_mul,pow_succ]

/-- All tables above a table of a page are there. -/
theorem Closed.upwards (hclosed : Closed tables) {page height top : ℕ} (hheight : height≤top)
    (htop : top≤3) (htable : tables.table (height,page/512^height)≠none) :
    tables.table (top,page/512^top)≠none := by
  induction top, hheight using Nat.le_induction with
  | base => exact htable
  | succ top hle ih =>
    rw [← div_pow_succ]
    exact hclosed.above top _ (ih (by omega)) (by omega)

/-- All places that are in use in one tree are in use in the other. -/
def Within (tables later : Tables) : Prop :=
  ∀ place,tables.frameAt place≠none → later.frameAt place≠none

theorem Entry.mono {height child : ℕ} (hwithin : Within tables later)
    (hentry : tables.Entry height child) : later.Entry height child := by
  rw [Entry] at *
  split
  · rename_i hone
    rw [if_pos hone] at hentry
    rw [Ne,leaf_eq_none_iff] at *
    exact hwithin _ hentry
  · rename_i hmore
    rw [if_neg hmore] at hentry
    exact hwithin (.inl _) hentry

theorem Used.mono {height index : ℕ} (hwithin : Within tables later)
    (hused : tables.Used height index) : later.Used height index := by
  obtain ⟨child,hchild,hentry⟩ := hused
  exact ⟨child,hchild,hentry.mono hwithin⟩

/-- Which places are in use decides what is closed. -/
theorem Closed.congr (hclosed : Closed tables)
    (hsame : ∀ place,later.frameAt place=tables.frameAt place) : Closed later := by
  have htable : later.table=tables.table := funext fun key => hsame (.inl key)
  refine ⟨by rw [htable]; exact hclosed.height,by rw [htable]; exact hclosed.above,
    fun page hleaf => ?_⟩
  rw [htable]
  refine hclosed.leaf page fun hnone => hleaf ?_
  rw [leaf_eq_none_iff] at *
  rw [hsame,hnone]

/-- The tables above a mapped page have entries. -/
theorem Closed.used (hclosed : Closed tables) {page height : ℕ} (hleaf : tables.leaf page≠none)
    (hlow : 1≤height) (hhigh : height≤3) : tables.Used height (page/512^height) := by
  have hone : tables.table (1,page/512^1)≠none := by
    rw [pow_one]
    exact hclosed.leaf page hleaf
  obtain rfl|hmore := Nat.eq_or_lt_of_le hlow
  · exact ⟨page,by rw [pow_one],hleaf⟩
  · refine ⟨page/512^(height-1),?_,?_⟩
    · rw [div_pow_succ,Nat.sub_add_cancel hlow]
    · rw [Entry,if_neg (by omega)]
      exact hclosed.upwards (by omega) (by omega) hone

/-- No table is empty. -/
def Full (tables : Tables) : Prop :=
  ∀ height index,tables.table (height,index)≠none → tables.Used height index

theorem full_empty : Full empty := fun _ _ h => absurd rfl h

/-- Without empty tables, a table is there if a page below it is mapped, and
only then. -/
theorem Full.table_iff (hfull : Full tables) (hclosed : Closed tables) {height index : ℕ}
    (hlow : 1≤height) (hhigh : height≤3) :
    tables.table (height,index)≠none ↔ ∃ page,tables.leaf page≠none ∧ page/512^height=index := by
  constructor
  · intro htable
    induction height generalizing index with
    | zero => omega
    | succ height ih =>
      obtain ⟨child,rfl,hentry⟩ := hfull _ _ htable
      rw [Entry] at hentry
      split at hentry
      · rename_i hone
        exact ⟨child,hentry,by rw [hone,pow_one]⟩
      · obtain ⟨page,hleaf,rfl⟩ := ih (by omega) (by omega) hentry
        exact ⟨page,hleaf,(div_pow_succ page height).symm⟩
  · rintro ⟨page,hleaf,rfl⟩
    refine hclosed.upwards hlow hhigh ?_
    rw [pow_one]
    exact hclosed.leaf page hleaf

/-! ## Sweeps -/

/-- Up to a height, the empty tables above some pages have been removed. -/
structure Swept (top : ℕ) (pages : ℕ → Prop) (tables later : Tables) (removed : List (ℕ×ℕ)) :
    Prop where
  /-- Pages stay mapped. -/
  leaf : later.leaf=tables.leaf
  /-- The other tables stay. -/
  table : ∀ key,later.table key=if key∈removed then none else tables.table key
  /-- No table is removed twice. -/
  nodup : removed.Nodup
  /-- Removed tables were there. -/
  found : ∀ key∈removed,tables.table key≠none
  /-- Removed tables lie above one of the pages. -/
  inside : ∀ key∈removed,1≤key.1 ∧ key.1≤top ∧ ∃ page,pages page ∧ key.2=page/512^key.1
  /-- Removed tables are empty. -/
  empty : ∀ key∈removed,¬later.Used key.1 key.2
  /-- Tables above the pages that stay are in use. -/
  full : ∀ page height,pages page → 1≤height → height≤top →
    later.table (height,page/512^height)≠none → later.Used height (page/512^height)

namespace Swept

variable {top : ℕ} {pages : ℕ → Prop} {removed : List (ℕ×ℕ)}

section

variable (hswept : Swept top pages tables later removed)
include hswept

/-- A table that stays is the one that was there. -/
theorem table_of {key : ℕ×ℕ} {frame : ℕ}
    (hkey : later.table key=some frame) : key∉removed ∧ tables.table key=some frame := by
  rw [hswept.table] at hkey
  split at hkey
  · cases hkey
  · rename_i hstays
    exact ⟨hstays,hkey⟩

theorem table_stays {key : ℕ×ℕ} (hkey : key∉removed) : later.table key=tables.table key := by
  rw [hswept.table,if_neg hkey]

theorem entry_of {height child : ℕ}
    (hentry : later.Entry height child) : tables.Entry height child := by
  rw [Entry] at *
  split
  · rename_i hone
    rw [if_pos hone,hswept.leaf] at hentry
    exact hentry
  · rename_i hmore
    rw [if_neg hmore] at hentry
    obtain ⟨frame,hframe⟩ := Option.ne_none_iff_exists'.mp hentry
    rw [(hswept.table_of hframe).2]
    exact Option.some_ne_none frame

/-- Removing empty tables keeps the others on the way. -/
theorem closed (hclosed : Closed tables) : Closed later := by
  have hthere : ∀ key,later.table key≠none → tables.table key≠none := by
    intro key hkey
    obtain ⟨frame,hframe⟩ := Option.ne_none_iff_exists'.mp hkey
    rw [(hswept.table_of hframe).2]
    exact Option.some_ne_none frame
  refine ⟨fun key h => hclosed.height key (hthere key h),fun height index h hheight => ?_,
    fun page h => ?_⟩
  · have habove := hclosed.above height index (hthere _ h) hheight
    by_cases hgone : (height+1,index/512)∈removed
    · refine absurd ⟨index,rfl,?_⟩ (hswept.empty _ hgone)
      have hheights := hclosed.height _ (hthere _ h)
      rw [Entry,if_neg (by omega)]
      exact h
    · rwa [hswept.table_stays hgone]
  · have habove := hclosed.leaf page (by rw [← hswept.leaf]; exact h)
    by_cases hgone : (1,page/512)∈removed
    · refine absurd ⟨page,rfl,?_⟩ (hswept.empty _ hgone)
      rw [Entry,if_pos rfl]
      exact h
    · rwa [hswept.table_stays hgone]

end

/-- Two sweeps of separate subtrees are one sweep. -/
theorem append {middle : Tables} {others : ℕ → Prop} {rest : List (ℕ×ℕ)}
    (hfirst : Swept top pages tables middle removed) (hsecond : Swept top others middle later rest)
    (hseparate : ∀ page other,pages page → others other → page/512^top≠other/512^top) :
    Swept top (fun page => pages page ∨ others page) tables later (removed++rest) := by
  refine ⟨hsecond.leaf.trans hfirst.leaf,?_,?_,?_,?_,?_,?_⟩
  · intro key
    rw [hsecond.table,hfirst.table]
    by_cases hone : key∈removed <;> by_cases htwo : key∈rest <;> simp [hone,htwo]
  · refine List.nodup_append'.mpr ⟨hfirst.nodup,hsecond.nodup,fun key hone htwo => ?_⟩
    refine hsecond.found key htwo ?_
    rw [hfirst.table,if_pos hone]
  · intro key hmem
    rcases List.mem_append.mp hmem with hone|htwo
    · exact hfirst.found key hone
    · intro hnone
      refine hsecond.found key htwo ?_
      rw [hfirst.table,hnone,ite_self]
  · intro key hmem
    rcases List.mem_append.mp hmem with hone|htwo
    · obtain ⟨hlow,hhigh,page,hpage,hkey⟩ := hfirst.inside key hone
      exact ⟨hlow,hhigh,page,Or.inl hpage,hkey⟩
    · obtain ⟨hlow,hhigh,page,hpage,hkey⟩ := hsecond.inside key htwo
      exact ⟨hlow,hhigh,page,Or.inr hpage,hkey⟩
  · intro key hmem
    rcases List.mem_append.mp hmem with hone|htwo
    · rintro ⟨child,hchild,hentry⟩
      exact hfirst.empty key hone ⟨child,hchild,hsecond.entry_of hentry⟩
    · exact hsecond.empty key htwo
  · intro page height hpage hlow hhigh htable
    rcases hpage with hpage|hpage
    · -- an entry of the first subtree is not above a page of the second
      obtain ⟨frame,hframe⟩ := Option.ne_none_iff_exists'.mp htable
      have hmiddle := (hsecond.table_of hframe).2
      obtain ⟨child,hchild,hentry⟩ := hfirst.full page height hpage hlow hhigh
        (by rw [hmiddle]; exact Option.some_ne_none frame)
      refine ⟨child,hchild,?_⟩
      rw [Entry] at *
      split
      · rename_i hone
        rw [if_pos hone] at hentry
        rwa [hsecond.leaf]
      · rename_i hmore
        rw [if_neg hmore] at hentry
        rw [hsecond.table_stays]
        · exact hentry
        · intro hgone
          obtain ⟨-,-,other,hother,hkey⟩ := hsecond.inside _ hgone
          refine hseparate page other hpage hother ?_
          have hsame : page/512^height=other/512^height := by
            rw [← hchild]
            change child=other/512^(height-1) at hkey
            rw [hkey,div_pow_succ,Nat.sub_add_cancel hlow]
          have hup : ∀ p,p/512^top=p/512^height/512^(top-height) := by
            intro p
            rw [Nat.div_div_eq_div_mul,← pow_add,Nat.add_sub_cancel' hhigh]
          rw [hup page,hup other,hsame]
    · exact hsecond.full page height hpage hlow hhigh htable

/-- Nothing is to be done below a table that is not there. -/
theorem of_none {index : ℕ} (hclosed : Closed tables) (htop : top≤3)
    (hpages : ∀ page,pages page → page/512^top=index) (hnone : tables.table (top,index)=none) :
    Swept top pages tables tables [] := by
  refine ⟨rfl,fun key => by simp,List.nodup_nil,by simp,by simp,by simp,?_⟩
  intro page height hpage hlow hhigh htable
  have habove := hclosed.upwards hhigh htop htable
  rw [hpages page hpage,hnone] at habove
  exact absurd rfl habove

section

variable (hswept : Swept top pages tables later removed)
include hswept

/-- A table above swept subtrees that is in use stays. -/
theorem raise_used {index : ℕ}
    (hpages : ∀ page,pages page → page/512^(top+1)=index) (hused : later.Used (top+1) index) :
    Swept (top+1) pages tables later removed := by
  refine ⟨hswept.leaf,hswept.table,hswept.nodup,hswept.found,?_,hswept.empty,?_⟩
  · intro key hmem
    obtain ⟨hlow,hhigh,hpage⟩ := hswept.inside key hmem
    exact ⟨hlow,by omega,hpage⟩
  · intro page height hpage hlow hhigh htable
    rcases Nat.lt_or_eq_of_le hhigh with hless|rfl
    · exact hswept.full page height hpage hlow (by omega) htable
    · rwa [hpages page hpage]

/-- A table above swept subtrees that is not in use is removed. -/
theorem raise_unused {index : ℕ}
    (hpages : ∀ page,pages page → page/512^(top+1)=index) (hsome : ∃ page,pages page)
    (hthere : tables.table (top+1,index)≠none) (hunused : ¬later.Used (top+1) index) :
    Swept (top+1) pages tables (later.setTable (top+1,index) none) (removed++[(top+1,index)]) := by
  have hfresh : (top+1,index)∉removed := by
    intro hmem
    have hhigh := (hswept.inside _ hmem).2.1
    dsimp only at hhigh
    omega
  -- entries below the removed table are not affected
  have hentry : ∀ height child,height≤top+1 →
      ((later.setTable (top+1,index) none).Entry height child ↔ later.Entry height child) := by
    intro height child hheight
    rw [Entry,Entry]
    split
    · rfl
    · rename_i hmore
      have hother : (height-1,child)≠(top+1,index) := by
        intro hsame
        have := (Prod.mk.inj hsame).1
        omega
      rw [table_setTable_other _ hother]
  refine ⟨hswept.leaf,?_,?_,?_,?_,?_,?_⟩
  · intro key
    by_cases hkey : key=(top+1,index)
    · rw [hkey,table_setTable_self,if_pos (by simp)]
    · rw [table_setTable_other _ hkey,hswept.table]
      simp [hkey]
  · exact List.nodup_append'.mpr ⟨hswept.nodup,List.nodup_singleton _,
      List.disjoint_singleton.mpr hfresh⟩
  · intro key hmem
    rcases List.mem_append.mp hmem with hone|hlast
    · exact hswept.found key hone
    · rw [List.mem_singleton.mp hlast]
      exact hthere
  · intro key hmem
    rcases List.mem_append.mp hmem with hone|hlast
    · obtain ⟨hlow,hhigh,hpage⟩ := hswept.inside key hone
      exact ⟨hlow,by omega,hpage⟩
    · obtain ⟨page,hpage⟩ := hsome
      rw [List.mem_singleton.mp hlast]
      exact ⟨by simp,le_rfl,page,hpage,(hpages page hpage).symm⟩
  · intro key hmem hused
    obtain ⟨child,hchild,hchildEntry⟩ := hused
    rcases List.mem_append.mp hmem with hone|hlast
    · have hhigh := (hswept.inside key hone).2.1
      exact hswept.empty key hone ⟨child,hchild,(hentry _ _ (by omega)).mp hchildEntry⟩
    · rw [List.mem_singleton.mp hlast] at hchild hchildEntry
      exact hunused ⟨child,hchild,(hentry _ _ le_rfl).mp hchildEntry⟩
  · intro page height hpage hlow hhigh htable
    rcases Nat.lt_or_eq_of_le hhigh with hless|rfl
    · have hother : (height,page/512^height)≠(top+1,index) := by
        intro hsame
        have := (Prod.mk.inj hsame).1
        omega
      rw [table_setTable_other _ hother] at htable
      obtain ⟨child,hchild,hused⟩ := hswept.full page height hpage hlow (by omega) htable
      exact ⟨child,hchild,(hentry _ _ hhigh).mpr hused⟩
    · rw [hpages page hpage,table_setTable_self] at htable
      exact absurd rfl htable

/-- What is left after a sweep was there before. -/
theorem within : Within later tables := by
  intro place hplace
  cases place with
  | inl key =>
    obtain ⟨frame,hframe⟩ := Option.ne_none_iff_exists'.mp hplace
    change tables.table key≠none
    rw [(hswept.table_of hframe).2]
    exact Option.some_ne_none frame
  | inr page =>
    rw [frameAt,hswept.leaf] at hplace
    exact hplace

/-- A sweep removes no table of an earlier tree without empty tables. -/
theorem not_removed {before : Tables}
    (hwithin : Within before tables) (hfull : Full before) {height index : ℕ}
    (htable : before.table (height,index)≠none) : (height,index)∉removed := by
  induction height using Nat.strong_induction_on generalizing index with
  | _ height ih =>
    intro hgone
    obtain ⟨child,hchild,hentry⟩ := hfull height index htable
    have hlow := (hswept.inside _ hgone).1
    have htables := hentry.mono hwithin
    refine hswept.empty _ hgone ⟨child,hchild,?_⟩
    rw [Entry] at *
    split
    · rename_i hone
      rw [if_pos hone] at htables
      rwa [hswept.leaf]
    · rename_i hmore
      rw [if_neg hmore] at hentry htables
      rwa [hswept.table_stays (ih (height-1) (by omega) hentry)]

/-- A table in use that stays is still in use: if the sweep removed one of
its entries, it looked at the table. -/
theorem used_of_used {height index : ℕ}
    (hlow : 1≤height) (hhigh : height≤top) (hstays : later.table (height,index)≠none)
    (hused : tables.Used height index) : later.Used height index := by
  obtain ⟨child,hchild,hentry⟩ := hused
  by_cases hkept : later.Entry height child
  · exact ⟨child,hchild,hkept⟩
  rw [Entry] at hentry hkept
  split at hentry
  · rename_i hone
    rw [if_pos hone,hswept.leaf] at hkept
    exact absurd hentry hkept
  · rename_i hmore
    rw [if_neg hmore] at hkept
    have hgone : (height-1,child)∈removed := by
      by_contra hout
      rw [hswept.table_stays hout] at hkept
      exact hkept hentry
    obtain ⟨-,-,page,hpage,hindex⟩ := hswept.inside _ hgone
    have habove : index=page/512^height := by
      dsimp only at hindex
      rw [← hchild,hindex,div_pow_succ,Nat.sub_add_cancel hlow]
    rw [habove] at hstays ⊢
    exact hswept.full page height hpage hlow hhigh hstays

/-- After a sweep of all that was added to an earlier tree, the tables are
those of the earlier tree. -/
theorem table_of_before {before : Tables}
    (htop : top≤3) (hclosed : Closed before) (hleaf : ∀ page,later.leaf page≠none → before.leaf page≠none)
    (hfresh : ∀ key,tables.table key≠none → before.table key=none →
      1≤key.1 ∧ key.1≤top ∧ ∃ page,pages page ∧ key.2=page/512^key.1) {height index : ℕ}
    (htable : later.table (height,index)≠none) : before.table (height,index)≠none := by
  induction height using Nat.strong_induction_on generalizing index with
  | _ height ih =>
    intro hnone
    obtain ⟨hlow,hhigh,page,hpage,hindex⟩ :=
      hfresh (height,index) (hswept.within (.inl (height,index)) htable) hnone
    dsimp only at hlow hhigh hindex
    subst hindex
    obtain ⟨child,hchild,hentry⟩ := hswept.full page height hpage hlow hhigh htable
    rw [← hchild] at hnone
    rw [Entry] at hentry
    split at hentry
    · rename_i hone
      subst hone
      exact hclosed.leaf child (hleaf child hentry) hnone
    · have hbelow := ih (height-1) (by omega) hentry
      have habove := hclosed.above (height-1) child hbelow (by omega)
      rw [Nat.sub_add_cancel hlow] at habove
      exact habove hnone

theorem congr {others : ℕ → Prop}
    (hsame : ∀ page,pages page ↔ others page) : Swept top others tables later removed := by
  rwa [← funext fun page => propext (hsame page)]

end

end Swept

/-! ## Cleaning up sweeps -/

section

variable {Sink : Type} {deallocate : Sink → ℕ → Sink}

/-- One entry of the loop of `cleanUp`, in a table of height `height+2`. -/
def sweepChild (deallocate : Sink → ℕ → Sink) (height index first last : ℕ) (state : Tables×Sink)
    (entry : ℕ) : Tables×Sink :=
  match state.1.table (height+1,index*512+entry) with
  | none => state
  | some frame =>
    let cleaned := cleanUp deallocate (height+1) (index*512+entry)
      (max first ((index*512+entry)*512^(height+1)))
      (min last ((index*512+entry+1)*512^(height+1)-1)) state
    if cleaned.1 then
      (cleaned.2.1.setTable (height+1,index*512+entry) none,deallocate cleaned.2.2 frame)
    else cleaned.2

theorem cleanUp_succ (height index : ℕ) {first last : ℕ} (hrange : first≤last)
    (state : Tables×Sink) : cleanUp deallocate (height+1+1) index first last state=
      (((List.range' (first/512^(height+1)%512)
          (last/512^(height+1)%512+1-first/512^(height+1)%512)).foldl
            (sweepChild deallocate height index first last) state).1.unused (height+1+1) index,
        (List.range' (first/512^(height+1)%512)
          (last/512^(height+1)%512+1-first/512^(height+1)%512)).foldl
            (sweepChild deallocate height index first last) state) := by
  rw [cleanUp,if_neg (by omega),if_neg (by omega)]
  rfl

/-- Whether a cleaned subtree can go, and what it took: the tables are
swept, the frames of the removed ones are released in this order, and the
answer is about the root of the subtree. -/
def Cleans (deallocate : Sink → ℕ → Sink) (height index : ℕ) (pages : ℕ → Prop)
    (state : Tables×Sink) (result : Bool×Tables×Sink) : Prop :=
  ∃ removed,Swept height pages state.1 result.2.1 removed ∧
    result.2.2=(removed.filterMap state.1.table).foldl deallocate state.2 ∧
    result.1=result.2.1.unused (height+1) index

variable {first last : ℕ}

/-- The pages of a range below a table of a height. -/
def Below (first last height child : ℕ) (page : ℕ) : Prop :=
  first≤page ∧ page≤last ∧ page/512^height=child

theorem below_iff {height child page : ℕ} : Below first last height child page ↔
      max first (child*512^height)≤page ∧ page ≤ min last ((child+1)*512^height-1) := by
  have hpos : 0<512^height := by positivity
  have hexpand : (child+1)*512^height=child*512^height+512^height := Nat.succ_mul _ _
  rw [Below,Nat.div_eq_iff hpos,max_le_iff,le_min_iff,hexpand]
  omega

/-- One entry of the loop sweeps the subtree of its child. -/
theorem swept_sweepChild {height index entry : ℕ} {state : Tables×Sink} (hheight : height≤2)
    (hclosed : Closed state.1) (hrec : ∀ child start finish,start≤finish →
      (∀ page,start≤page → page≤finish → page/512^(height+1)=child) →
      Cleans deallocate height child (fun page => start≤page ∧ page≤finish) state
        (cleanUp deallocate (height+1) child start finish state))
    (hsome : ∃ page,Below first last (height+1) (index*512+entry) page) :
    ∃ removed,Swept (height+1) (Below first last (height+1) (index*512+entry)) state.1
        (sweepChild deallocate height index first last state entry).1 removed ∧
      (sweepChild deallocate height index first last state entry).2=
        (removed.filterMap state.1.table).foldl deallocate state.2 := by
  have hunder : ∀ page,Below first last (height+1) (index*512+entry) page →
      page/512^(height+1)=index*512+entry := fun page h => h.2.2
  rw [sweepChild]
  split
  · rename_i hnone
    exact ⟨[],Swept.of_none hclosed (by omega) hunder hnone,rfl⟩
  rename_i frame hframe
  obtain ⟨page,hpage⟩ := hsome
  have hrange := below_iff.mp hpage
  obtain ⟨removed,hswept,hsink,hanswer⟩ := hrec (index*512+entry)
    (max first ((index*512+entry)*512^(height+1)))
    (min last ((index*512+entry+1)*512^(height+1)-1)) (hrange.1.trans hrange.2)
    fun page hlow hhigh => (below_iff.mpr ⟨hlow,hhigh⟩).2.2
  have hbelow := hswept.congr fun page => (@below_iff first last (height+1) _ page).symm
  dsimp only
  rw [hanswer]
  split
  · rename_i hunused
    have hraised := hbelow.raise_unused hunder ⟨page,hpage⟩
      (by rw [hframe]; exact Option.some_ne_none frame) (unused_iff.mp hunused)
    refine ⟨_,hraised,?_⟩
    rw [hsink,List.filterMap_append,List.foldl_append,List.filterMap_cons_some hframe]
    rfl
  · rename_i hused
    refine ⟨removed,hbelow.raise_used hunder ?_,hsink⟩
    by_contra hnone
    exact hused (unused_iff.mpr hnone)

/-- The loop over entries sweeps the subtrees of their children. -/
theorem swept_foldl {height index : ℕ} (hheight : height≤2)
    (hrec : ∀ (state : Tables×Sink),Closed state.1 → ∀ child start finish,start≤finish →
      (∀ page,start≤page → page≤finish → page/512^(height+1)=child) →
      Cleans deallocate height child (fun page => start≤page ∧ page≤finish) state
        (cleanUp deallocate (height+1) child start finish state))
    {entries : List ℕ} (hentries : entries.Nodup)
    (hsome : ∀ entry∈entries,∃ page,Below first last (height+1) (index*512+entry) page)
    {state : Tables×Sink} (hclosed : Closed state.1) : ∃ removed,Swept (height+1)
        (fun page => ∃ entry∈entries,Below first last (height+1) (index*512+entry) page) state.1
        (entries.foldl (sweepChild deallocate height index first last) state).1 removed ∧
      (entries.foldl (sweepChild deallocate height index first last) state).2=
        (removed.filterMap state.1.table).foldl deallocate state.2 := by
  induction entries generalizing state with
  | nil =>
    refine ⟨[],⟨rfl,fun key => by simp,List.nodup_nil,by simp,by simp,by simp,?_⟩,rfl⟩
    rintro page _ ⟨entry,hentry,-⟩
    exact absurd hentry List.not_mem_nil
  | cons entry rest ih =>
    obtain ⟨hfresh,hrest⟩ := List.nodup_cons.mp hentries
    obtain ⟨hone,hothers⟩ := List.forall_mem_cons.mp hsome
    obtain ⟨first',hfirst,hsinkFirst⟩ :=
      swept_sweepChild hheight hclosed (fun child => hrec state hclosed child) hone
    obtain ⟨second,hsecond,hsinkSecond⟩ := ih hrest hothers (hfirst.closed hclosed)
    rw [List.foldl_cons]
    refine ⟨first'++second,(hfirst.append hsecond ?_).congr fun page => ?_,?_⟩
    · rintro page other ⟨-,-,hpage⟩ ⟨later,hlater,-,-,hother⟩
      rw [hpage,hother]
      intro hsame
      have hequal : entry=later := by omega
      exact hfresh (hequal▸hlater)
    · simp only [List.exists_mem_cons_iff]
    · have hsame : second.filterMap (sweepChild deallocate height index first last state entry).1.table=
          second.filterMap state.1.table := by
        refine List.filterMap_congr fun key hkey => ?_
        refine hfirst.table_stays fun hgone => hsecond.found key hkey ?_
        rw [hfirst.table,if_pos hgone]
      rw [hsinkSecond,hsinkFirst,hsame,List.filterMap_append,List.foldl_append]

/-- Cleaning up a range of pages below one table sweeps the tables above
these pages and tells whether the table itself is unused then. -/
theorem cleanUp_cleans {height index first last : ℕ} (hheight : height≤3) (hrange : first≤last)
    (hunder : ∀ page,first≤page → page≤last → page/512^(height+1)=index)
    {state : Tables×Sink} (hclosed : Closed state.1) :
    Cleans deallocate height index (fun page => first≤page ∧ page≤last) state
      (cleanUp deallocate (height+1) index first last state) := by
  induction height generalizing index first last state with
  | zero =>
    refine ⟨[],⟨?_,fun key => ?_,List.nodup_nil,by simp,by simp,by simp,?_⟩,?_,?_⟩
    · rw [cleanUp,if_neg (by omega)]
      rfl
    · rw [cleanUp,if_neg (by omega)]
      simp
    · intro page height _ hlow hhigh
      omega
    · rw [cleanUp,if_neg (by omega)]
      rfl
    · rw [cleanUp,if_neg (by omega)]
  | succ height ih =>
    -- the children above the range, by their positions in the table
    have hchild : ∀ page,first≤page → page≤last →
        page/512^(height+1)=index*512+page/512^(height+1)%512 := by
      intro page hlow hhigh
      have hindex := hunder page hlow hhigh
      rw [← div_pow_succ] at hindex
      omega
    have hlow := hchild first le_rfl hrange
    have hhigh := hchild last hrange le_rfl
    have hmono : ∀ {page},first≤page → page≤last →
        first/512^(height+1)≤page/512^(height+1) ∧ page/512^(height+1)≤last/512^(height+1) :=
      fun hfirst hlast => ⟨Nat.div_le_div_right hfirst,Nat.div_le_div_right hlast⟩
    have hsome : ∀ entry∈List.range' (first/512^(height+1)%512)
        (last/512^(height+1)%512+1-first/512^(height+1)%512),
        ∃ page,Below first last (height+1) (index*512+entry) page := by
      intro entry hentry
      rw [List.mem_range'_1] at hentry
      have hpos : 0<512^(height+1) := by positivity
      by_cases hfirst : first/512^(height+1)=index*512+entry
      · exact ⟨first,le_rfl,hrange,hfirst⟩
      · refine ⟨(index*512+entry)*512^(height+1),?_,?_,Nat.mul_div_cancel _ hpos⟩
        · have hless : first/512^(height+1) < index*512+entry := by omega
          exact ((Nat.div_lt_iff_lt_mul hpos).mp hless).le
        · have hbound : index*512+entry≤last/512^(height+1) := by omega
          exact (Nat.le_div_iff_mul_le hpos).mp hbound
    have hentries : (List.range' (first/512^(height+1)%512)
        (last/512^(height+1)%512+1-first/512^(height+1)%512)).Nodup := List.nodup_range'
    obtain ⟨removed,hswept,hsink⟩ := swept_foldl (by omega)
      (fun state hclosed child start finish hrange hunder =>
        ih (by omega) hrange hunder hclosed) hentries hsome hclosed
    rw [cleanUp_succ height index hrange state,Cleans]
    generalize (List.range' _ _).foldl (sweepChild deallocate height index first last) state=
      swept at hswept hsink ⊢
    dsimp only
    refine ⟨removed,hswept.congr fun page => ⟨?_,?_⟩,hsink,?_⟩
    · rintro ⟨entry,-,hfirst,hlast,-⟩
      exact ⟨hfirst,hlast⟩
    · rintro ⟨hfirst,hlast⟩
      have hpage := hchild page hfirst hlast
      have hbounds := hmono hfirst hlast
      refine ⟨page/512^(height+1)%512,?_,hfirst,hlast,hpage⟩
      rw [List.mem_range'_1]
      omega
    · rfl

end

end TuwaiqOS.PageTables.Tables
