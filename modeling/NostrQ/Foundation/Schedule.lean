import Mathlib.Data.List.TakeWhile
import NostrQ.Foundation.Transition

/-!
# Schedules

The steps that a run takes, in order, and what came before and after one of
them.  An invariant may relate the state to the steps taken so far, and a log
may justify each of its entries by those before it.
-/

namespace NostrQ.Foundation

namespace Schedule

variable {α : Type*} [DecidableEq α] {a b : α} {actions : List α}

def before (a : α) (actions : List α) : List α :=
  actions.takeWhile (· ≠ a)

def after (a : α) (actions : List α) : List α :=
  actions.dropWhile (· ≠ a)

@[simp] theorem before_append_after (a : α) (actions : List α) :
    before a actions ++ after a actions = actions :=
  List.takeWhile_append_dropWhile

theorem mem_of_mem_before (h : b ∈ before a actions) : b ∈ actions := by
  rw [← before_append_after a actions]
  exact List.mem_append_left _ h

theorem after_of_not_mem (h : a ∉ actions) : after a actions = [] := by
  rw [after, List.dropWhile_eq_nil_iff]
  intro b hb
  exact decide_eq_true (ne_of_mem_of_not_mem hb h)

theorem before_concat (h : a ∈ actions) (b : α) :
    before a (actions ++ [b]) = before a actions := by
  obtain ⟨first, last, rfl, hfirst⟩ := List.eq_append_cons_of_mem h
  have hall : ∀ c ∈ first, decide (c ≠ a) = true := fun c hc =>
    decide_eq_true (ne_of_mem_of_not_mem hc hfirst)
  simp only [before, List.append_assoc, List.cons_append]
  rw [List.takeWhile_append_of_pos hall, List.takeWhile_append_of_pos hall]
  simp

theorem after_concat (h : a ∈ actions) (b : α) :
    after a (actions ++ [b]) = after a actions ++ [b] := by
  have hsplit := before_append_after a (actions ++ [b])
  rw [before_concat h] at hsplit
  apply (List.append_right_inj (before a actions)).mp
  rw [hsplit, ← List.append_assoc, before_append_after]

theorem before_concat_self (h : a ∉ actions) :
    before a (actions ++ [a]) = actions := by
  have hall : ∀ c ∈ actions, decide (c ≠ a) = true := fun c hc =>
    decide_eq_true (ne_of_mem_of_not_mem hc h)
  rw [before, List.takeWhile_append_of_pos hall]
  simp

theorem after_concat_self (h : a ∉ actions) :
    after a (actions ++ [a]) = [a] := by
  have hsplit := before_append_after a (actions ++ [a])
  rw [before_concat_self h] at hsplit
  exact List.append_cancel_left hsplit

/-! ## Logs -/

section Logs

omit [DecidableEq α]

variable {P Q : List α → α → Prop} {log past later : List α} {x : α}

theorem concat_eq_append_cons_iff :
    log ++ [x] = past ++ a :: later ↔
      past = log ∧ a = x ∧ later = [] ∨
        ∃ later', later = later' ++ [x] ∧ log = past ++ a :: later' := by
  constructor
  · intro h
    rcases List.eq_nil_or_concat later with rfl | ⟨later', y, rfl⟩
    · obtain ⟨rfl, hx⟩ := List.append_inj' h rfl
      exact Or.inl ⟨rfl, by simpa using hx.symm, rfl⟩
    · rw [List.concat_eq_append, ← List.cons_append, ← List.append_assoc] at h
      obtain ⟨rfl, hx⟩ := List.append_inj' h rfl
      exact Or.inr ⟨later', by simpa using hx.symm, rfl⟩
  · rintro (⟨rfl, rfl, rfl⟩ | ⟨later', rfl, rfl⟩) <;> simp

/-- Every entry of a log is related by `P` to the entries before it. -/
def Justified (P : List α → α → Prop) (log : List α) : Prop :=
  ∀ past a later, log = past ++ a :: later → P past a

theorem justified_nil : Justified P [] := by
  intro past a later h
  simp at h

theorem justified_concat :
    Justified P (log ++ [x]) ↔ Justified P log ∧ P log x := by
  constructor
  · intro h
    refine ⟨fun past a later hlog => ?_, h log x [] rfl⟩
    exact h past a (later ++ [x]) (by simp [hlog])
  · rintro ⟨h, hx⟩ past a later hlog
    rcases concat_eq_append_cons_iff.mp hlog with ⟨rfl, rfl, -⟩ | ⟨later', -, h'⟩
    · exact hx
    · exact h past a later' h'

theorem Justified.mono (h : Justified P log)
    (hPQ : ∀ past a, P past a → Q past a) : Justified Q log :=
  fun past a later hlog => hPQ past a (h past a later hlog)

end Logs

end Schedule

namespace System

variable {σ α : Type*} {S : System σ α}

/--
The induction over a run that keeps the steps taken so far in view.
-/
theorem run_history {P : σ → α → Prop} [∀ s a, Decidable (P s a)]
    {I : List α → σ → Prop} {s s' : σ} {actions : List α}
    (hrun : S.run P s actions = some s') (hinit : I [] s)
    (hstep : ∀ past s a s', I past s → P s a → S.step s a = some s' →
      I (past ++ [a]) s') : I actions s' := by
  have extend : ∀ (rest past : List α) (s : σ), I past s →
      S.run P s rest = some s' → I (past ++ rest) s' := by
    intro rest
    induction rest with
    | nil =>
        intro past s hs hrun
        simp only [run, Option.some.injEq] at hrun
        simpa [← hrun] using hs
    | cons a rest ih =>
        intro past s hs hrun
        simp only [run] at hrun
        split at hrun
        · next hp =>
            obtain ⟨next, hnext, hrest⟩ := Option.bind_eq_some_iff.mp hrun
            have := ih (past ++ [a]) next (hstep past s a next hs hp hnext) hrest
            simpa using this
        · contradiction
  simpa using extend actions [] s hinit hrun

end System

end NostrQ.Foundation
