import Mathlib.Data.List.Pairwise
import Mathlib.Tactic.Common

/-!
# Collections where the first arrival wins

Arrivals are kept one after the other, unless something kept already conflicts
with them.  What is kept in the end depends on the order of the arrivals exactly
if two different arrivals conflict (`converges_iff`).
-/

namespace NostrQ.Foundation

variable {α : Type*} (conflicts : α → α → Prop)

def Agreeing (xs : List α) : Prop :=
  ∀ x ∈ xs, ∀ y ∈ xs, conflicts x y → x = y

variable {conflicts} in
theorem Agreeing.congr {xs ys : List α} (h : Agreeing conflicts xs)
    (hmem : ∀ x, x ∈ ys ↔ x ∈ xs) : Agreeing conflicts ys :=
  fun x hx y hy => h x ((hmem x).mp hx) y ((hmem y).mp hy)

variable [DecidableRel conflicts]

def keep (kept : List α) (x : α) : List α :=
  if ∃ y ∈ kept, conflicts y x then kept else kept ++ [x]

def firstWins (arrivals : List α) : List α :=
  arrivals.foldl (keep conflicts) []

variable {conflicts} {kept arrivals : List α} {x y : α}

theorem mem_keep_of_mem (h : x ∈ kept) : x ∈ keep conflicts kept y := by
  unfold keep
  split
  · exact h
  · exact List.mem_append_left _ h

theorem mem_of_mem_keep (h : x ∈ keep conflicts kept y) : x ∈ kept ∨ x = y := by
  unfold keep at h
  split at h
  · exact Or.inl h
  · rcases List.mem_append.mp h with hold | hnew
    · exact Or.inl hold
    · exact Or.inr (List.mem_singleton.mp hnew)

theorem mem_keep_or_conflict (kept : List α) (x : α) :
    x ∈ keep conflicts kept x ∨ ∃ y ∈ kept, conflicts y x := by
  unfold keep
  split
  · next hconflict => exact Or.inr hconflict
  · exact Or.inl (by simp)

theorem pairwise_keep (h : kept.Pairwise fun x y => ¬ conflicts x y) :
    (keep conflicts kept x).Pairwise fun x y => ¬ conflicts x y := by
  unfold keep
  split
  · exact h
  · next hnone =>
      rw [List.pairwise_append]
      refine ⟨h, List.pairwise_singleton _ _, ?_⟩
      intro y hy last hlast hconflict
      rw [List.mem_singleton.mp hlast] at hconflict
      exact hnone ⟨y, hy, hconflict⟩

/-! ## A whole sequence of arrivals -/

theorem mem_foldl_keep_of_mem (h : x ∈ kept) :
    x ∈ arrivals.foldl (keep conflicts) kept := by
  induction arrivals generalizing kept with
  | nil => exact h
  | cons first rest ih => exact ih (mem_keep_of_mem h)

theorem mem_of_mem_foldl_keep (h : x ∈ arrivals.foldl (keep conflicts) kept) :
    x ∈ kept ∨ x ∈ arrivals := by
  induction arrivals generalizing kept with
  | nil => exact Or.inl h
  | cons first rest ih =>
      rcases ih h with hkept | hrest
      · rcases mem_of_mem_keep hkept with hold | rfl
        · exact Or.inl hold
        · exact Or.inr List.mem_cons_self
      · exact Or.inr (List.mem_cons_of_mem _ hrest)

theorem mem_foldl_keep_or_conflict (h : x ∈ arrivals) :
    x ∈ arrivals.foldl (keep conflicts) kept ∨
      ∃ y ∈ arrivals.foldl (keep conflicts) kept, conflicts y x := by
  induction arrivals generalizing kept with
  | nil => contradiction
  | cons first rest ih =>
      rcases List.mem_cons.mp h with rfl | hrest
      · have hstay : ∀ z ∈ keep conflicts kept x,
            z ∈ rest.foldl (keep conflicts) (keep conflicts kept x) :=
          fun z hz => mem_foldl_keep_of_mem hz
        have hmeets : x ∈ keep conflicts kept x ∨ ∃ y ∈ kept, conflicts y x :=
          mem_keep_or_conflict kept x
        rcases hmeets with hkept | ⟨y, hy, hconflict⟩
        · exact Or.inl (hstay x hkept)
        · exact Or.inr ⟨y, hstay y (mem_keep_of_mem hy), hconflict⟩
      · exact ih hrest

theorem mem_of_mem_firstWins (h : x ∈ firstWins conflicts arrivals) :
    x ∈ arrivals :=
  (mem_of_mem_foldl_keep h).resolve_left (by simp)

theorem pairwise_firstWins (arrivals : List α) :
    (firstWins conflicts arrivals).Pairwise fun x y => ¬ conflicts x y := by
  have fold : ∀ kept : List α,
      (kept.Pairwise fun x y => ¬ conflicts x y) →
      (arrivals.foldl (keep conflicts) kept).Pairwise
        fun x y => ¬ conflicts x y := by
    induction arrivals with
    | nil => exact fun _ h => h
    | cons first rest ih => exact fun kept h => ih _ (pairwise_keep h)
  exact fold [] .nil

theorem head_mem_firstWins (x : α) (rest : List α) :
    x ∈ firstWins conflicts (x :: rest) := by
  have hfirst : x ∈ keep conflicts [] x := by simp [keep]
  exact @mem_foldl_keep_of_mem _ conflicts _ _ rest x hfirst

theorem Agreeing.mem_firstWins (h : Agreeing conflicts arrivals) :
    x ∈ firstWins conflicts arrivals ↔ x ∈ arrivals := by
  refine ⟨mem_of_mem_firstWins, fun hx => ?_⟩
  have hmeets : x ∈ firstWins conflicts arrivals ∨
      ∃ y ∈ firstWins conflicts arrivals, conflicts y x :=
    mem_foldl_keep_or_conflict hx
  rcases hmeets with hkept | ⟨y, hy, hconflict⟩
  · exact hkept
  · rwa [h y (mem_of_mem_firstWins hy) x hx hconflict] at hy

/--
Deliver some items, each carrying at most one arrival.  All sequences of the same
items, whatever their order and repetitions, keep the same arrivals if and only
if no two different arrivals conflict.
-/
theorem converges_iff {ι : Type*} (hsymm : ∀ x y, conflicts x y → conflicts y x)
    (carried : ι → Option α) (items : List ι) :
    (∀ first second : List ι, (∀ i, i ∈ first ↔ i ∈ items) →
      (∀ i, i ∈ second ↔ i ∈ items) →
      ∀ x, x ∈ firstWins conflicts (first.filterMap carried) ↔
        x ∈ firstWins conflicts (second.filterMap carried)) ↔
    Agreeing conflicts (items.filterMap carried) := by
  constructor
  · intro h x hx y hy hconflict
    have first_kept : ∀ {z : α}, z ∈ items.filterMap carried →
        ∃ i, (∀ j, j ∈ i :: items ↔ j ∈ items) ∧
          z ∈ firstWins conflicts ((i :: items).filterMap carried) := by
      intro z hz
      obtain ⟨i, hi, hcarried⟩ := List.mem_filterMap.mp hz
      refine ⟨i, fun j => by simpa using fun heq : j = i => heq ▸ hi, ?_⟩
      rw [List.filterMap_cons_some hcarried]
      exact head_mem_firstWins z _
    obtain ⟨i, hi, hxkept⟩ := first_kept hx
    obtain ⟨j, hj, hykept⟩ := first_kept hy
    -- Both orders keep what either of them delivers first.
    have hxkept' := (h (i :: items) (j :: items) hi hj x).mp hxkept
    by_contra hne
    have : Std.Symm fun x y : α => ¬ conflicts x y :=
      ⟨fun _ _ hno hback => hno (hsymm _ _ hback)⟩
    exact (pairwise_firstWins _).forall hxkept' hykept hne hconflict
  · intro h first second hfirst hsecond x
    have same : ∀ {items' : List ι}, (∀ i, i ∈ items' ↔ i ∈ items) →
        (x ∈ firstWins conflicts (items'.filterMap carried) ↔
          x ∈ items.filterMap carried) := by
      intro items' hitems'
      have hmem : ∀ y, y ∈ items'.filterMap carried ↔
          y ∈ items.filterMap carried := fun y => by
        simp only [List.mem_filterMap, hitems']
      rw [(h.congr hmem).mem_firstWins, hmem]
    rw [same hfirst, same hsecond]

end NostrQ.Foundation
