import Mathlib.Algebra.BigOperators.Group.List.Basic
import Mathlib.Algebra.Order.Group.Multiset
import Mathlib.Data.Multiset.AddSub

/-!
# Resources lent out by a pool

A pool issues resources, and what it issued is either free again or held by
somebody. An operation moves resources when it keeps this balance, whatever
the other holders have. Moves compose, and they lift from one holder to a
list of holders, where one of them changes, a new one joins, or some are
swept away.
-/

namespace TuwaiqOS.ResourceLedger

variable {Pool Holder α : Type}

/-- The books of a pool. -/
structure Accounts (Pool α : Type) where
  /-- All resources the pool ever took into circulation. -/
  issued : Pool → Multiset α
  /-- Those of them that the pool has. -/
  free : Pool → Multiset α
  /-- The pool's source of resources is in order. -/
  sound : Pool → Prop
  /-- A pool in order issues no resource twice. -/
  nodup : ∀ pool,sound pool → (issued pool).Nodup

variable {accounts : Accounts Pool α}

/-- The pool is in order, and what it issued is free or held. -/
structure Backs (accounts : Accounts Pool α) (pool : Pool) (held : Multiset α) : Prop where
  /-- The pool is in order. -/
  sound : accounts.sound pool
  /-- Nothing is lost and nothing appears. -/
  balanced : accounts.issued pool=accounts.free pool+held

/-- The pool and a holder change together so that the balance is kept for
anything that others hold. -/
def Moves (accounts : Accounts Pool α) (pool : Pool) (held : Multiset α) (later : Pool)
    (kept : Multiset α) : Prop :=
  ∀ rest,Backs accounts pool (held+rest) → Backs accounts later (kept+rest)

namespace Moves

variable {pool middle later : Pool} {held between kept : Multiset α}

theorem refl (accounts : Accounts Pool α) (pool : Pool) (held : Multiset α) :
    Moves accounts pool held pool held := fun _ hbacks => hbacks

theorem trans (hfirst : Moves accounts pool held middle between)
    (hsecond : Moves accounts middle between later kept) : Moves accounts pool held later kept :=
  fun rest hbacks => hsecond rest (hfirst rest hbacks)

section

variable (hmove : Moves accounts pool held later kept)
include hmove

/-- A move does not touch what others hold. -/
theorem frame (other : Multiset α) : Moves accounts pool (held+other) later (kept+other) := by
  intro rest hbacks
  rw [add_assoc] at hbacks ⊢
  exact hmove _ hbacks

theorem frame_left (other : Multiset α) : Moves accounts pool (other+held) later (other+kept) := by
  rw [add_comm other held,add_comm other kept]
  exact hmove.frame other

theorem backs (hbacks : Backs accounts pool held) : Backs accounts later kept := by
  rw [← add_zero held] at hbacks
  rw [← add_zero kept]
  exact hmove 0 hbacks

end

end Moves

/-- No holder has a resource twice. -/
theorem Backs.nodup {pool : Pool} {held rest : Multiset α}
    (hbacks : Backs accounts pool (held+rest)) : held.Nodup := by
  have hissued := accounts.nodup pool hbacks.sound
  rw [hbacks.balanced] at hissued
  refine Multiset.nodup_of_le ?_ hissued
  exact (Multiset.le_add_right held rest).trans (Multiset.le_add_left _ _)

/-- A move can use that the holder has no resource twice. -/
theorem Moves.of_nodup {pool later : Pool} {held kept : Multiset α}
    (hmove : held.Nodup → Moves accounts pool held later kept) :
    Moves accounts pool held later kept :=
  fun rest hbacks => hmove hbacks.nodup rest hbacks

/-! ## Lists of holders -/

/-- All that a list of holders has. -/
def total (held : Holder → Multiset α) (holders : List Holder) : Multiset α :=
  (holders.map held).sum

variable {held : Holder → Multiset α} {holders : List Holder}

@[simp] theorem total_nil : total held ([] : List Holder)=0 := rfl

@[simp] theorem total_cons (holder : Holder) :
    total held (holder::holders)=held holder+total held holders := by
  rw [total,List.map_cons,List.sum_cons]
  rfl

@[simp] theorem total_append (others : List Holder) :
    total held (holders++others)=total held holders+total held others := by
  rw [total,List.map_append,List.sum_append]
  rfl

variable {resource : α} {next : Holder}

/-- What is held altogether is held by one of the holders. -/
theorem mem_total : resource∈total held holders ↔ ∃ holder∈holders,resource∈held holder := by
  induction holders with
  | nil => simp only [total_nil,Multiset.notMem_zero,List.not_mem_nil,false_and,exists_false]
  | cons first others ih =>
    rw [total_cons,Multiset.mem_add,ih,List.exists_mem_cons_iff]

/-- Holders with lists hold the lists one after another. -/
theorem total_coe (owned : Holder → List α) :
    total (fun holder => (owned holder : Multiset α)) holders=holders.flatMap owned := by
  induction holders with
  | nil => rfl
  | cons first others ih => rw [total_cons,ih,List.flatMap_cons,Multiset.coe_add]

/-- Holders that hold nothing hold nothing altogether. -/
theorem total_eq_zero (hnone : ∀ holder∈holders,held holder=0) : total held holders=0 := by
  refine Multiset.eq_zero_of_forall_notMem fun resource hmem => ?_
  obtain ⟨holder,hholder,hheld⟩ := mem_total.mp hmem
  rw [hnone holder hholder] at hheld
  exact Multiset.notMem_zero _ hheld

variable {index : ℕ} {holder : Holder}

/-- One holder and all the others. -/
theorem total_split (held : Holder → Multiset α) (hget : holders[index]? = some holder) :
    ∃ rest,total held holders=held holder+rest ∧
      ∀ next,total held (holders.set index next)=held next+rest := by
  induction holders generalizing index with
  | nil => cases hget
  | cons first others ih =>
    cases index with
    | zero =>
      cases hget
      exact ⟨total held others,total_cons _,fun next => total_cons next⟩
    | succ index =>
      obtain ⟨rest,hall,hset⟩ := ih hget
      refine ⟨held first+rest,?_,fun next => ?_⟩
      · rw [total_cons,hall,add_left_comm]
      · rw [List.set_cons_succ,total_cons,hset,add_left_comm]

/-- A holder is replaced by one that has the same. -/
theorem total_set (hget : holders[index]? = some holder)
    (hsame : held next=held holder) : total held (holders.set index next)=total held holders := by
  obtain ⟨rest,hall,hset⟩ := total_split held hget
  rw [hset,hsame,hall]

/-- One holder and the list without it. -/
theorem total_eraseIdx (hget : holders[index]? = some holder) :
    total held holders=held holder+total held (holders.eraseIdx index) := by
  induction holders generalizing index with
  | nil => cases hget
  | cons first others ih =>
    cases index with
    | zero =>
      cases hget
      exact total_cons _
    | succ index => rw [List.eraseIdx_cons_succ,total_cons,total_cons,ih hget,add_left_comm]

/-- Some holders and the others. -/
theorem total_filter (gone : Holder → Bool) :
    total held (holders.filter gone)+total held (holders.filter fun holder => !gone holder)=
      total held holders := by
  induction holders with
  | nil => rfl
  | cons holder others ih =>
    rw [total_cons,← ih]
    cases hgone : gone holder with
    | false =>
      rw [List.filter_cons_of_neg (by rw [hgone]; decide),
        List.filter_cons_of_pos (by rw [hgone]; rfl),total_cons,add_left_comm]
    | true =>
      rw [List.filter_cons_of_pos hgone,List.filter_cons_of_neg (by rw [hgone]; decide),total_cons,
        add_assoc]

/-- What one part holds the other does not. -/
theorem Backs.apart {pool : Pool} {first second rest : Multiset α}
    (hbacks : Backs accounts pool (first+second+rest)) (hmem : resource∈first) :
    resource∉second := by
  have hdisjoint := (Multiset.nodup_add.mp hbacks.nodup).2.2
  exact Multiset.disjoint_left.mp hdisjoint hmem

/-- What one holder has no other holder has. -/
theorem Backs.holders_apart {pool : Pool} {reserved : Multiset α} {place : ℕ} {other : Holder} (hbacks : Backs accounts pool (reserved+total held holders))
    (hget : holders[index]? = some holder) (hother : holders[place]? = some other)
    (hplace : place≠index) (hmem : resource∈held holder) : resource∉held other := by
  rw [total_eraseIdx hget,add_comm reserved] at hbacks
  have hrest : other∈holders.eraseIdx index :=
    List.mem_eraseIdx_iff_getElem?.mpr ⟨place,hplace,hother⟩
  exact fun hheld => hbacks.apart hmem (mem_total.mpr ⟨other,hrest,hheld⟩)

namespace Moves

variable {pool later : Pool}

/-- One holder of the list moves. -/
theorem set (hget : holders[index]? = some holder)
    (hmove : Moves accounts pool (held holder) later (held next)) :
    Moves accounts pool (total held holders) later (total held (holders.set index next)) := by
  obtain ⟨rest,hall,hset⟩ := total_split held hget
  rw [hall,hset]
  exact hmove.frame rest

/-- Holders that give everything back are swept away, one after another. -/
theorem sweep {gone : Holder → Bool} {release : Pool → Holder → Pool}
    (hrelease : ∀ pool holder,gone holder=true →
      Moves accounts pool (held holder) (release pool holder) 0) (pool : Pool) :
    Moves accounts pool (total held holders)
      (holders.foldl (fun pool holder => if gone holder then release pool holder else pool) pool)
      (total held (holders.filter fun holder => !gone holder)) := by
  induction holders generalizing pool with
  | nil => exact Moves.refl _ _ _
  | cons holder others ih =>
    rw [List.foldl_cons,total_cons]
    cases hgone : gone holder with
    | false =>
      rw [List.filter_cons_of_pos (by rw [hgone]; rfl),total_cons]
      exact (ih pool).frame_left _
    | true =>
      rw [List.filter_cons_of_neg (by rw [hgone]; decide)]
      have hfirst := (hrelease pool holder hgone).frame (total held others)
      rw [zero_add] at hfirst
      exact hfirst.trans (ih _)

end Moves

end TuwaiqOS.ResourceLedger
