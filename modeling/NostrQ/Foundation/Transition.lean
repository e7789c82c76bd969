import Mathlib.Tactic.Common

/-!
# Executable transition systems

A system has a set of initial states and a partial step function.  Runs are
restricted by a condition on each step, taken in the state before it: the
assumptions of a result about runs are such conditions.
-/

namespace NostrQ.Foundation

structure System (σ α : Type*) where
  init : σ → Prop
  step : σ → α → Option σ

namespace System

variable {σ α : Type*} (S : System σ α)

/-- The states reached by the runs whose every step satisfies `P`. -/
inductive Reach (P : σ → α → Prop) : σ → Prop where
  | init {s : σ} : S.init s → Reach P s
  | step {s s' : σ} {a : α} :
      Reach P s → P s a → S.step s a = some s' → Reach P s'

def startingIn (init : σ → Prop) : System σ α := { S with init := init }

def Free (_ : σ) (_ : α) : Prop := True

instance (s : σ) (a : α) : Decidable (Free s a) :=
  inferInstanceAs (Decidable True)

variable {S}

/--
The induction over runs.  The step may use that the state before it is
reachable, hence any invariant proved earlier.
-/
theorem Reach.invariant {P : σ → α → Prop} {I : σ → Prop} {s : σ}
    (h : S.Reach P s) (hinit : ∀ s, S.init s → I s)
    (hstep : ∀ s a s', S.Reach P s → I s → P s a →
      S.step s a = some s' → I s') : I s := by
  induction h with
  | init h₀ => exact hinit _ h₀
  | step hr hp hs ih => exact hstep _ _ _ hr ih hp hs

theorem Reach.mono {P Q : σ → α → Prop} {s : σ} (h : S.Reach P s)
    (hPQ : ∀ s a, P s a → Q s a) : S.Reach Q s := by
  induction h with
  | init h₀ => exact .init h₀
  | step _ hp hs ih => exact .step ih (hPQ _ _ hp) hs

theorem Reach.restart {P : σ → α → Prop} {init : σ → Prop} {s : σ}
    (h : (S.startingIn init).Reach P s) (hinit : ∀ s, init s → S.init s) :
    S.Reach P s := by
  induction h with
  | init h₀ => exact .init (hinit _ h₀)
  | step _ hp hs ih => exact .step ih hp hs

theorem Reach.after {P : σ → α → Prop} {s s' : σ} (h : S.Reach P s)
    (hlater : (S.startingIn fun start => start = s).Reach P s') :
    S.Reach P s' := by
  induction hlater with
  | init h₀ => exact h₀ ▸ h
  | step _ hp hs ih => exact .step ih hp hs

/-! ## Executing a run -/

/-- Take the steps in order, stopping where one is disabled or breaks `P`. -/
def run (S : System σ α) (P : σ → α → Prop) [∀ s a, Decidable (P s a)] :
    σ → List α → Option σ
  | s, [] => some s
  | s, a :: rest =>
      if P s a then (S.step s a).bind fun s' => S.run P s' rest else none

theorem Reach.of_run {P : σ → α → Prop} [∀ s a, Decidable (P s a)]
    {s s' : σ} {actions : List α} (h : S.Reach P s)
    (hrun : S.run P s actions = some s') : S.Reach P s' := by
  induction actions generalizing s with
  | nil =>
      simp only [run, Option.some.injEq] at hrun
      exact hrun ▸ h
  | cons a rest ih =>
      simp only [run] at hrun
      split at hrun
      · next hp =>
          obtain ⟨mid, hmid, hrest⟩ := Option.bind_eq_some_iff.mp hrun
          exact ih (.step h hp hmid) hrest
      · contradiction

/-- A run that ends in a state where a test succeeds. -/
theorem Reach.of_run_check {P : σ → α → Prop} [∀ s a, Decidable (P s a)]
    {s : σ} (h : S.Reach P s) (actions : List α) (test : σ → Bool)
    (hrun : (S.run P s actions).any test = true) :
    ∃ s', S.Reach P s' ∧ test s' = true := by
  cases hs' : S.run P s actions with
  | none => simp [hs'] at hrun
  | some s' =>
      rw [hs', Option.any_some] at hrun
      exact ⟨s', h.of_run hs', hrun⟩

end System

end NostrQ.Foundation
