import Mathlib.Data.Fintype.Card

/-!
# Quorums

Values are written to some of several replicas and read from some of them, and
no replica forgets.  Where every write quorum meets every read quorum, a read
finds exactly the values that were ever written.
-/

namespace NostrQ.Foundation

variable {R α : Type*}

/-- Which replicas complete a write, and which complete a read. -/
structure Quorums (R : Type*) where
  writes : Finset R → Prop
  reads : Finset R → Prop
  meet : ∀ written asked, writes written → reads asked →
    ∃ r ∈ written, r ∈ asked

namespace Quorums

variable [Fintype R]

def counted [DecidableEq R] (w r : Nat) (h : Fintype.card R < w + r) :
    Quorums R where
  writes written := w ≤ written.card
  reads asked := r ≤ asked.card
  meet written asked hw hr := by
    have hcard : (Finset.univ : Finset R).card < written.card + asked.card := by
      rw [Finset.card_univ]
      omega
    obtain ⟨x, hx⟩ := Finset.inter_nonempty_of_card_lt_card_add_card
      (Finset.subset_univ written) (Finset.subset_univ asked) hcard
    rw [Finset.mem_inter] at hx
    exact ⟨x, hx.1, hx.2⟩

instance [DecidableEq R] (w r : Nat) (h : Fintype.card R < w + r) :
    DecidablePred (counted w r h).writes :=
  fun written => inferInstanceAs (Decidable (w ≤ written.card))

instance [DecidableEq R] (w r : Nat) (h : Fintype.card R < w + r) :
    DecidablePred (counted w r h).reads :=
  fun asked => inferInstanceAs (Decidable (r ≤ asked.card))

end Quorums

abbrev Replicas (R α : Type*) := R → List α

namespace Replicas

def empty : Replicas R α := fun _ => []

section Operations

variable [DecidableEq R]

def write (replicas : Replicas R α) (accepting : List R) (a : α) :
    Replicas R α :=
  fun r => if r ∈ accepting then replicas r ++ [a] else replicas r

def read (replicas : Replicas R α) (asked : List R) : List α :=
  asked.flatMap replicas

end Operations

/-- The replicas hold what was written, each value on a write quorum. -/
structure Hold (Q : Quorums R) (replicas : Replicas R α) (written : List α) :
    Prop where
  sound : ∀ r, ∀ a ∈ replicas r, a ∈ written
  spread : ∀ a ∈ written, ∃ holders, Q.writes holders ∧
    ∀ r ∈ holders, a ∈ replicas r

variable {Q : Quorums R} {replicas : Replicas R α} {written : List α}

theorem hold_empty (Q : Quorums R) : (empty : Replicas R α).Hold Q [] where
  sound _ _ h := by contradiction
  spread _ h := by contradiction

variable [DecidableEq R]

theorem Hold.write (h : replicas.Hold Q written) {accepting : List R}
    (hquorum : Q.writes accepting.toFinset) (a : α) :
    (replicas.write accepting a).Hold Q (written ++ [a]) where
  sound r b hb := by
    unfold Replicas.write at hb
    split at hb
    · rcases List.mem_append.mp hb with hold | hnew
      · exact List.mem_append_left _ (h.sound r b hold)
      · exact List.mem_append_right _ hnew
    · exact List.mem_append_left _ (h.sound r b hb)
  spread b hb := by
    have kept : ∀ r, b ∈ replicas r → b ∈ replicas.write accepting a r := by
      intro r hr
      unfold Replicas.write
      split
      · exact List.mem_append_left _ hr
      · exact hr
    rcases List.mem_append.mp hb with hold | hnew
    · obtain ⟨holders, hwrites, hholders⟩ := h.spread b hold
      exact ⟨holders, hwrites, fun r hr => kept r (hholders r hr)⟩
    · refine ⟨accepting.toFinset, hquorum, fun r hr => ?_⟩
      rw [Replicas.write, if_pos (List.mem_toFinset.mp hr)]
      exact List.mem_append_right _ hnew

/-- A read that asks a read quorum finds all that was written. -/
theorem Hold.mem_read (h : replicas.Hold Q written) {asked : List R}
    (hquorum : Q.reads asked.toFinset) (a : α) :
    a ∈ replicas.read asked ↔ a ∈ written := by
  rw [read, List.mem_flatMap]
  constructor
  · rintro ⟨r, -, hr⟩
    exact h.sound r a hr
  · intro ha
    obtain ⟨holders, hwrites, hholders⟩ := h.spread a ha
    obtain ⟨r, hr, hasked⟩ := Q.meet _ _ hwrites hquorum
    exact ⟨r, List.mem_toFinset.mp hasked, hholders r hr⟩

end Replicas

end NostrQ.Foundation
