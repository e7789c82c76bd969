import Mathlib.Algebra.BigOperators.Ring.List
import Mathlib.Algebra.Ring.Nat
import NostrQ.Foundation.Transition

/-!
# What a run costs

A potential pays for the steps of a system: what a step costs, and what it adds
to the potential, is covered by the income that the step brings.  Over a whole
run the costs then stay below the income.
-/

namespace NostrQ.Foundation.System

variable {σ α : Type*} (S : System σ α)

/-- A run with the steps it took, oldest first. -/
inductive Trace (P : σ → α → Prop) : List α → σ → Prop where
  | init {s : σ} : S.init s → Trace P [] s
  | step {s s' : σ} {a : α} {taken : List α} :
      Trace P taken s → P s a → S.step s a = some s' →
      Trace P (taken ++ [a]) s'

variable {S} {P : σ → α → Prop} {s : σ} {taken : List α}

theorem Trace.reach (h : S.Trace P taken s) : S.Reach P s := by
  induction h with
  | init h₀ => exact .init h₀
  | step _ hp hs ih => exact .step ih hp hs

theorem Reach.trace (h : S.Reach P s) : ∃ taken, S.Trace P taken s := by
  induction h with
  | init h₀ => exact ⟨[], .init h₀⟩
  | step _ hp hs ih =>
      obtain ⟨taken, htaken⟩ := ih
      exact ⟨_, .step htaken hp hs⟩

theorem Trace.of_run [∀ s a, Decidable (P s a)] {s' : σ} {more : List α}
    (h : S.Trace P taken s) (hrun : S.run P s more = some s') :
    S.Trace P (taken ++ more) s' := by
  induction more generalizing s taken with
  | nil =>
      simp only [run, Option.some.injEq] at hrun
      rw [List.append_nil]
      exact hrun ▸ h
  | cons a more ih =>
      simp only [run] at hrun
      split at hrun
      · next hp =>
          obtain ⟨mid, hmid, hrest⟩ := Option.bind_eq_some_iff.mp hrun
          rw [List.append_cons]
          exact ih (.step h hp hmid) hrest
      · contradiction

def total (quantity : α → Nat) (taken : List α) : Nat :=
  (taken.map quantity).sum

@[simp] theorem total_nil (quantity : α → Nat) : total quantity [] = 0 := rfl

@[simp] theorem total_concat (quantity : α → Nat) (taken : List α) (a : α) :
    total quantity (taken ++ [a]) = total quantity taken + quantity a := by
  simp [total]

theorem total_mul (n : Nat) (quantity : α → Nat) (taken : List α) :
    total (fun a => n * quantity a) taken = n * total quantity taken :=
  List.sum_map_mul_left taken quantity n

/-- The steps taken cost no more than they bring. -/
theorem Trace.balance (potential : σ → Nat) (cost income : α → Nat)
    (h : S.Trace P taken s) (hinit : ∀ s, S.init s → potential s = 0)
    (hstep : ∀ s a s', S.Reach P s → P s a → S.step s a = some s' →
      potential s' + cost a ≤ potential s + income a) :
    potential s + total cost taken ≤ total income taken := by
  induction h with
  | init h₀ => simp [hinit _ h₀]
  | step hr hp hs ih =>
      have hpaid := hstep _ _ _ hr.reach hp hs
      rw [total_concat, total_concat]
      omega

/-- Steps that each lower a rank are no more than the rank at the start. -/
theorem Trace.descends {n : Nat} (rank : σ → Nat) (h : S.Trace P taken s)
    (hinit : ∀ s, S.init s → rank s ≤ n)
    (hstep : ∀ s a s', P s a → S.step s a = some s' → rank s' < rank s) :
    rank s + taken.length ≤ n := by
  induction h with
  | init h₀ => simpa using hinit _ h₀
  | step _ hp hs ih =>
      have hlower := hstep _ _ _ hp hs
      rw [List.length_append, List.length_singleton]
      omega

end NostrQ.Foundation.System
