import Mathlib.Data.List.Basic
import Mathlib.Data.List.Nodup

/-!
# Following links

A partial function links each place to at most one other. Following it from a
start gives a list of places, which is complete when the last place has no
link. A complete list never comes back to a place it has passed, so neither
does any list of places from the same start.
-/

namespace TuwaiqOS.FollowedLinks

variable {α : Type}

/-- The first `count` places from a start, if there are so many. -/
def follow (next : α → Option α) : ℕ → α → Option (List α)
  | 0,_ => some []
  | 1,start => some [start]
  | count+2,start => do
    let following ← next start
    let rest ← follow next (count+1) following
    return start::rest

variable {next : α → Option α}

variable {count : ℕ} {start : α} {places : List α}

theorem follow_succ_succ :
    follow next (count+2) start=some places ↔ ∃ following rest,next start=some following ∧
      follow next (count+1) following=some rest ∧ places=start::rest := by
  rw [follow]
  constructor
  · intro hfollow
    obtain ⟨following,hlink,hrest⟩ := Option.bind_eq_some_iff.mp hfollow
    obtain ⟨rest,hfound,hplaces⟩ := Option.bind_eq_some_iff.mp hrest
    cases hplaces
    exact ⟨following,rest,hlink,hfound,rfl⟩
  · rintro ⟨following,rest,hlink,hfound,rfl⟩
    simp [hlink,hfound]

/-- A list of places, each but the last linked to the one after it. The last
has no link. -/
inductive Complete (next : α → Option α) : List α → Prop where
  /-- A place without a link. -/
  | last {place : α} (hend : next place=none) : Complete next [place]
  /-- One more place in front. -/
  | step {place following : α} {rest : List α} (hlink : next place=some following)
      (hrest : Complete next (following::rest)) : Complete next (place::following::rest)

/-- There is one complete list from a start. -/
theorem Complete.unique {rest others : List α} (hfirst : Complete next (start::rest))
    (hsecond : Complete next (start::others)) : rest=others := by
  induction rest generalizing start others with
  | nil =>
    cases hfirst with
    | last hend =>
      cases hsecond with
      | last _ => rfl
      | step hlink _ => simp [hend] at hlink
  | cons following rest ih =>
    cases hfirst with
    | step hlink hrest =>
      cases hsecond with
      | last hend => simp [hend] at hlink
      | step hother hothers =>
        rw [hlink] at hother
        cases hother
        rw [ih hrest hothers]

/-- The places from some point on are complete too. -/
theorem Complete.suffix {before after : List α} {place : α}
    (hplaces : Complete next (before++place::after)) : Complete next (place::after) := by
  induction before with
  | nil => exact hplaces
  | cons first before ih =>
    refine ih ?_
    cases before with
    | nil | cons =>
      cases hplaces with
      | step _ hrest => exact hrest

/-- A complete list has no place twice: from both one would go on in the same
way, but one of them is nearer to the end. -/
theorem Complete.nodup (hplaces : Complete next places) : places.Nodup := by
  induction hplaces with
  | last _ => exact List.nodup_singleton _
  | @step place following rest hlink hrest ih =>
    refine List.nodup_cons.mpr ⟨fun hmem => ?_,ih⟩
    obtain ⟨before,after,hsplit⟩ := List.append_of_mem hmem
    have hagain : Complete next (place::after) := by
      rw [hsplit] at hrest
      exact hrest.suffix
    have hsame := hagain.unique (.step hlink hrest)
    have hlength := congrArg List.length hsplit
    rw [← hsame,List.length_append,List.length_cons] at hlength
    omega

/-- The chain from a start ends. -/
def Ends (next : α → Option α) (start : α) : Prop := ∃ rest,Complete next (start::rest)

/-- What is found from a start begins the complete list. -/
theorem isPrefix_of_follow {rest : List α} (hfollow : follow next count start=some places)
    (hplaces : Complete next (start::rest)) : places<+:start::rest := by
  induction count generalizing start places rest with
  | zero =>
    cases hfollow
    exact List.nil_prefix
  | succ count ih =>
    cases count with
    | zero =>
      cases hfollow
      exact ⟨rest,rfl⟩
    | succ count =>
      obtain ⟨following,found,hlink,hfound,rfl⟩ := follow_succ_succ.mp hfollow
      cases hplaces with
      | last hend => simp [hend] at hlink
      | step hother hrest =>
        rw [hlink] at hother
        cases hother
        exact List.cons_prefix_cons.mpr ⟨rfl,ih hfound hrest⟩

/-- From a start whose chain ends no place is found twice. -/
theorem nodup_of_follow (hends : Ends next start) (hfollow : follow next count start=some places) :
    places.Nodup := by
  obtain ⟨rest,hplaces⟩ := hends
  exact hplaces.nodup.sublist (isPrefix_of_follow hfollow hplaces).sublist

end TuwaiqOS.FollowedLinks
