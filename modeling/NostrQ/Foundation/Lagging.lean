import Mathlib.Algebra.GroupWithZero.Nat
import NostrQ.Foundation.Broadcast

/-!
# Receivers that lag

A channel keeps the last values sent, as many as its capacity.  A receiver that
has fallen further behind is told how many values it has missed, and goes on
with the oldest one kept.  What it has been handed accounts for everything that
was sent while it listened, value by value or as missed.
-/

namespace NostrQ.Foundation

inductive Received (α : Type*) where
  | value (a : α)
  | lagged (missed : Nat)
  deriving DecidableEq

namespace Received

variable {α : Type*}

def value? : Received α → Option α
  | .value a => some a
  | .lagged _ => none

def missed : Received α → Nat
  | .value _ => 0
  | .lagged n => n

def values (results : List (Received α)) : List α := results.filterMap value?

def totalMissed (results : List (Received α)) : Nat :=
  (results.map missed).sum

variable {results : List (Received α)} {r : Received α} {a : α} {n : Nat}

@[simp] theorem values_nil : values ([] : List (Received α)) = [] := rfl

@[simp] theorem values_concat_value :
    values (results ++ [.value a]) = values results ++ [a] := by
  simp [values, value?]

@[simp] theorem values_concat_lagged :
    values (results ++ [.lagged n]) = values results := by
  simp [values, value?]

@[simp] theorem totalMissed_nil : totalMissed ([] : List (Received α)) = 0 :=
  rfl

@[simp] theorem totalMissed_concat :
    totalMissed (results ++ [r]) = totalMissed results + r.missed := by
  simp [totalMissed]

/-- The results stand for the values, some of them only counted. -/
inductive Covers : List (Received α) → List α → Prop where
  | nil : Covers [] []
  | value {results : List (Received α)} {sent : List α} (a : α) :
      Covers results sent → Covers (results ++ [.value a]) (sent ++ [a])
  | lagged {results : List (Received α)} {sent : List α} (skipped : List α) :
      Covers results sent →
        Covers (results ++ [.lagged skipped.length]) (sent ++ skipped)

variable {sent : List α}

theorem Covers.values_sublist (h : Covers results sent) :
    (values results).Sublist sent := by
  induction h with
  | nil => exact List.Sublist.refl []
  | value a _ ih =>
      rw [values_concat_value]
      exact ih.append_right [a]
  | lagged skipped _ ih =>
      rw [values_concat_lagged]
      exact ih.trans (List.sublist_append_left _ _)

theorem Covers.length (h : Covers results sent) :
    (values results).length + totalMissed results = sent.length := by
  induction h with
  | nil => rfl
  | value a _ ih =>
      simp only [values_concat_value, totalMissed_concat, missed,
        List.length_append, List.length_singleton]
      omega
  | lagged skipped _ ih =>
      simp only [values_concat_lagged, totalMissed_concat, missed,
        List.length_append]
      omega

theorem Covers.values_eq (h : Covers results sent)
    (hmissed : totalMissed results = 0) : values results = sent := by
  apply h.values_sublist.eq_of_length
  have hlength := h.length
  omega

end Received

namespace Broadcast

variable {α : Type*} (tx : Broadcast α)

/-- The next value; or how many were overwritten, for a receiver that lags. -/
def recvWithin (capacity live : Nat) : Option (Received α × Nat) :=
  if live + capacity < tx.sent.length then
    some (.lagged (tx.sent.length - capacity - live),
      tx.sent.length - capacity)
  else (tx.recv live).map fun (a, live) => (.value a, live)

def InTime (capacity live : Nat) : Prop := tx.sent.length ≤ live + capacity

instance (capacity live : Nat) : Decidable (tx.InTime capacity live) :=
  inferInstanceAs (Decidable (_ ≤ _))

variable {tx} {capacity live live' : Nat} {a : α} {n : Nat}
  {r : Received α}

theorem recvWithin_cases (h : tx.recvWithin capacity live = some (r, live')) :
    (∃ a, r = .value a ∧ live' = live + 1 ∧ tx.InTime capacity live ∧
        tx.backlog live = a :: tx.backlog live') ∨
      ∃ skipped, r = .lagged skipped.length ∧ 0 < skipped.length ∧
        ¬ tx.InTime capacity live ∧ live' = live + skipped.length ∧
        live' + capacity = tx.sent.length ∧
        tx.backlog live = skipped ++ tx.backlog live' := by
  unfold recvWithin at h
  split at h
  · next hlag =>
      simp only [Option.some.injEq, Prod.mk.injEq] at h
      obtain ⟨rfl, rfl⟩ := h
      have hskipped : ((tx.backlog live).take
          (tx.sent.length - capacity - live)).length =
            tx.sent.length - capacity - live := by
        rw [List.length_take, backlog, List.length_drop]
        omega
      refine Or.inr ⟨_, by rw [hskipped], by omega, ?_, by omega, by omega, ?_⟩
      · simp only [InTime]
        omega
      · have hdrop : tx.backlog (tx.sent.length - capacity) =
            (tx.backlog live).drop (tx.sent.length - capacity - live) := by
          rw [backlog, backlog, List.drop_drop]
          congr 1
          omega
        rw [hdrop, List.take_append_drop]
  · next hlag =>
      obtain ⟨⟨a, next⟩, hrecv, heq⟩ := Option.map_eq_some_iff.mp h
      cases heq
      obtain ⟨rfl, hbacklog⟩ := recv_eq_some hrecv
      exact Or.inl ⟨a, rfl, rfl, Nat.le_of_not_lt hlag, hbacklog⟩

theorem recvWithin_eq_none :
    tx.recvWithin capacity live = none ↔ tx.backlog live = [] := by
  unfold recvWithin
  split
  · next hlag =>
      have hlength : (tx.backlog live).length ≠ 0 := by
        rw [backlog, List.length_drop]
        omega
      constructor
      · intro h
        contradiction
      · intro h
        rw [h] at hlength
        exact absurd rfl hlength
  · simp [recv_eq_none]

theorem InTime.value (hin : tx.InTime capacity live)
    (h : tx.recvWithin capacity live = some (r, live')) :
    ∃ a, r = .value a ∧ tx.recv live = some (a, live') := by
  unfold recvWithin at h
  rw [if_neg (Nat.not_lt_of_le hin)] at h
  obtain ⟨⟨a, next⟩, hrecv, heq⟩ := Option.map_eq_some_iff.mp h
  cases heq
  exact ⟨a, rfl, hrecv⟩

end Broadcast

end NostrQ.Foundation
