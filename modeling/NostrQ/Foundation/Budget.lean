import Mathlib.Data.List.Infix
import Mathlib.Tactic.Common

/-!
# Budgets of attempts

An item is worked on in rounds.  A round is a run and the failure that ends it:
one that leaves another try as long as the budget lasts, and a final one after
that.  A fresh budget may be granted once the last one is exhausted.
-/

namespace NostrQ.Foundation.Budget

/-- What is seen of the work; a run knows how many rounds are spent already. -/
inductive Mark where
  | ran (spent : Nat)
  | retry
  | exhausted
  | granted
  deriving DecidableEq, Repr

def Mark.isFailure : Mark → Bool
  | .retry => true
  | .exhausted => true
  | _ => false

def failures (log : List Mark) : Nat := log.countP Mark.isFailure

@[simp] theorem failures_append (first last : List Mark) :
    failures (first ++ last) = failures first + failures last :=
  List.countP_append

/-- Where an item stands between two marks. -/
inductive Stage where
  | ready (spent : Nat)
  | running (spent : Nat)
  | closed
  deriving DecidableEq, Repr

def next (limit : Nat) : Stage → Mark → Option Stage
  | .ready spent, .ran before =>
      if before = spent then some (.running spent) else none
  | .running spent, .retry =>
      if spent + 1 < limit then some (.ready (spent + 1)) else none
  | .running spent, .exhausted =>
      if spent + 1 = limit then some .closed else none
  | .closed, .granted => some (.ready 0)
  | _, _ => none

/-- The log leads from an unspent budget to the stage. -/
inductive Follows (limit : Nat) : List Mark → Stage → Prop where
  | start : Follows limit [] (.ready 0)
  | step {log : List Mark} {stage after : Stage} {mark : Mark} :
      Follows limit log stage → next limit stage mark = some after →
      Follows limit (log ++ [mark]) after

def rounds (count : Nat) : List Mark :=
  (List.range count).flatMap fun spent => [.ran spent, .retry]

def budget (limit : Nat) : List Mark :=
  rounds (limit - 1) ++ [.ran (limit - 1), .exhausted, .granted]

def behind (limit : Nat) : Stage → List Mark
  | .ready spent => rounds spent
  | .running spent => rounds spent ++ [.ran spent]
  | .closed => rounds (limit - 1) ++ [.ran (limit - 1), .exhausted]

def Within (limit : Nat) : Stage → Prop
  | .ready spent => spent < limit
  | .running spent => spent < limit
  | .closed => True

/-! ## What a mark can be -/

inductive Step (limit : Nat) : Stage → Mark → Stage → Prop where
  | run {spent : Nat} : Step limit (.ready spent) (.ran spent) (.running spent)
  | retry {spent : Nat} : spent + 1 < limit →
      Step limit (.running spent) .retry (.ready (spent + 1))
  | exhaust {spent : Nat} : spent + 1 = limit →
      Step limit (.running spent) .exhausted .closed
  | grant : Step limit .closed .granted (.ready 0)

variable {limit : Nat} {log : List Mark} {stage after : Stage} {mark : Mark}

theorem next_eq_some :
    next limit stage mark = some after ↔ Step limit stage mark after := by
  constructor
  · intro h
    unfold next at h
    split at h
    · split at h
      · next heq =>
          cases h
          exact heq ▸ .run
      · contradiction
    · split at h
      · next hlt =>
          cases h
          exact .retry hlt
      · contradiction
    · split at h
      · next heq =>
          cases h
          exact .exhaust heq
      · contradiction
    · cases h
      exact .grant
    · contradiction
  · intro h
    cases h with
    | run => simp [next]
    | retry hlt => simp [next, hlt]
    | exhaust heq => simp [next, heq]
    | grant => rfl

theorem Follows.extend (h : Follows limit log stage)
    (hstep : Step limit stage mark after) :
    Follows limit (log ++ [mark]) after :=
  h.step (next_eq_some.mpr hstep)

theorem Follows.within (h : Follows limit log stage) (hlimit : 0 < limit) :
    Within limit stage := by
  induction h with
  | start => exact hlimit
  | step _ hnext ih =>
      cases next_eq_some.mp hnext with
      | run => exact ih
      | retry hlt => exact hlt
      | exhaust _ => trivial
      | grant => exact hlimit

/-! ## Logs are made of whole budgets -/

theorem rounds_succ (count : Nat) :
    rounds (count + 1) = rounds count ++ [.ran count, .retry] := by
  simp [rounds, List.range_succ]

theorem rounds_mono {first last : Nat} (h : first ≤ last) :
    rounds first <+: rounds last := by
  induction last, h using Nat.le_induction with
  | base => exact List.prefix_rfl
  | succ last _ ih =>
      rw [rounds_succ]
      exact ih.trans (List.prefix_append _ _)

theorem run_within {spent : Nat} (h : spent < limit) :
    rounds spent ++ [.ran spent] <+: budget limit := by
  rcases (Nat.le_sub_one_of_lt h).eq_or_lt with rfl | hlt
  · refine (List.prefix_append_right_inj _).mpr ?_
    exact List.prefix_append [_] _
  · have hnext : rounds spent ++ [.ran spent] <+: rounds (spent + 1) := by
      rw [rounds_succ]
      exact (List.prefix_append_right_inj _).mpr (List.prefix_append [_] _)
    exact (hnext.trans (rounds_mono hlt)).trans (List.prefix_append _ _)

theorem behind_within (h : Within limit stage) :
    behind limit stage <+: budget limit := by
  cases stage with
  | ready spent =>
      exact (rounds_mono (Nat.le_sub_one_of_lt h)).trans
        (List.prefix_append _ _)
  | running spent => exact run_within h
  | closed =>
      exact (List.prefix_append_right_inj _).mpr (List.prefix_append [_, _] _)

theorem behind_step (h : Step limit stage mark after) :
    behind limit stage ++ [mark] = behind limit after ∨
      behind limit stage ++ [mark] = budget limit ∧ after = .ready 0 := by
  cases h with
  | run => exact Or.inl rfl
  | retry _ =>
      refine Or.inl ?_
      simp [behind, rounds_succ]
  | @exhaust spent heq =>
      refine Or.inl ?_
      have hlast : limit - 1 = spent := by omega
      simp [behind, hlast]
  | grant =>
      refine Or.inr ⟨?_, rfl⟩
      simp [behind, budget]

theorem Follows.split (h : Follows limit log stage) :
    ∃ count, log =
      (List.replicate count (budget limit)).flatten ++ behind limit stage := by
  induction h with
  | start => exact ⟨0, rfl⟩
  | step _ hnext ih =>
      obtain ⟨count, rfl⟩ := ih
      rcases behind_step (next_eq_some.mp hnext) with hsame | ⟨hwhole, rfl⟩
      · exact ⟨count, by rw [List.append_assoc, hsame]⟩
      · refine ⟨count + 1, ?_⟩
        rw [List.append_assoc, hwhole, List.replicate_succ', List.flatten_concat]
        exact (List.append_nil _).symm

/-- Budgets follow one another, the last one perhaps not finished. -/
theorem Follows.whole_budgets (h : Follows limit log stage) (hlimit : 0 < limit) :
    ∃ count, log <+: (List.replicate count (budget limit)).flatten := by
  obtain ⟨count, rfl⟩ := h.split
  refine ⟨count + 1, ?_⟩
  rw [List.replicate_succ', List.flatten_concat]
  exact (List.prefix_append_right_inj _).mpr
    (behind_within (h.within hlimit))

end NostrQ.Foundation.Budget
