import Mathlib.Tactic.Common

/-!
# A registry of held keys

A set of keys guards against holding a key twice: a holder enters the key before
it goes on, gives it to another, and removes it when it is done.  The set is
consulted at entry only, so exclusion rests on who may remove which key.
-/

namespace NostrQ.Foundation

variable {κ : Type*} {keys : List κ} {holders : List (Option κ)}

/-- Every held key is registered, and it is held once. -/
structure Registered (keys : List κ) (holders : List (Option κ)) : Prop where
  registered : ∀ (i : Nat) (key : κ), holders[i]? = some (some key) → key ∈ keys
  once : ∀ (i j : Nat) (key : κ), holders[i]? = some (some key) →
    holders[j]? = some (some key) → i = j

theorem getElem?_set_cases {α : Type*} {l : List α} {i j : Nat} {x y : α}
    (h : (l.set i x)[j]? = some y) :
    (j = i ∧ x = y) ∨ (j ≠ i ∧ l[j]? = some y) := by
  by_cases heq : i = j
  · subst heq
    obtain ⟨hlt, hget⟩ := List.getElem?_eq_some_iff.mp h
    rw [List.getElem_set_self] at hget
    exact Or.inl ⟨rfl, hget⟩
  · rw [List.getElem?_set_ne heq] at h
    exact Or.inr ⟨fun hj => heq hj.symm, h⟩

theorem getElem?_concat_cases {α : Type*} {l : List α} {j : Nat} {x y : α}
    (h : (l ++ [x])[j]? = some y) :
    l[j]? = some y ∨ (j = l.length ∧ x = y) := by
  rw [List.getElem?_append] at h
  split at h
  · exact Or.inl h
  · next hlength =>
      obtain ⟨hlt, hget⟩ := List.getElem?_eq_some_iff.mp h
      rw [List.length_singleton] at hlt
      have hj : j = l.length := by omega
      subst hj
      simp only [Nat.sub_self, List.getElem_cons_zero] at hget
      exact Or.inr ⟨rfl, hget⟩

namespace Registered

theorem of_forall_none (h : ∀ holder ∈ holders, holder = none) :
    Registered keys holders := by
  have hnone : ∀ (i : Nat) (key : κ), holders[i]? ≠ some (some key) := by
    intro i key hi
    have hkey := h _ (List.mem_of_getElem? hi)
    contradiction
  exact ⟨fun i key hi => absurd hi (hnone i key),
    fun i _ key hi _ => absurd hi (hnone i key)⟩

theorem enter (h : Registered keys holders) {key : κ} (hnew : key ∉ keys)
    (i : Nat) : Registered (key :: keys) (holders.set i (some key)) where
  registered := by
    intro j other hj
    rcases getElem?_set_cases hj with ⟨-, heq⟩ | ⟨-, hold⟩
    · cases heq
      exact List.mem_cons_self
    · exact List.mem_cons_of_mem _ (h.registered j other hold)
  once := by
    intro j k other hj hk
    rcases getElem?_set_cases hj with ⟨rfl, heq⟩ | ⟨-, hold⟩ <;>
      rcases getElem?_set_cases hk with ⟨rfl, heq'⟩ | ⟨-, hold'⟩
    · rfl
    · cases heq
      exact absurd (h.registered k key hold') hnew
    · cases heq'
      exact absurd (h.registered j key hold) hnew
    · exact h.once j k other hold hold'

theorem leave [DecidableEq κ] (h : Registered keys holders) {i : Nat} {key : κ}
    (hi : holders[i]? = some (some key)) :
    Registered (keys.filter fun other => other ≠ key) (holders.set i none) where
  registered := by
    intro j other hj
    rcases getElem?_set_cases hj with ⟨-, heq⟩ | ⟨hne, hold⟩
    · contradiction
    · have hother : other ≠ key := by
        rintro rfl
        exact hne (h.once j i other hold hi)
      exact List.mem_filter.mpr
        ⟨h.registered j other hold, by simpa using hother⟩
  once := by
    intro j k other hj hk
    rcases getElem?_set_cases hj with ⟨-, heq⟩ | ⟨-, hold⟩
    · contradiction
    · rcases getElem?_set_cases hk with ⟨-, heq⟩ | ⟨-, hold'⟩
      · contradiction
      · exact h.once j k other hold hold'

theorem handOver (h : Registered keys holders) {i : Nat} {key : κ}
    (hi : holders[i]? = some (some key)) :
    Registered keys (holders.set i none ++ [some key]) := by
  have hheld : ∀ {j : Nat} {other : κ},
      (holders.set i none ++ [some key])[j]? = some (some other) →
      (j ≠ i ∧ holders[j]? = some (some other)) ∨
        (j = holders.length ∧ other = key) := by
    intro j other hj
    rcases getElem?_concat_cases hj with hset | ⟨hlength, heq⟩
    · rcases getElem?_set_cases hset with ⟨-, heq⟩ | hold
      · contradiction
      · exact Or.inl hold
    · rw [List.length_set] at hlength
      exact Or.inr ⟨hlength, (Option.some.inj heq).symm⟩
  have honly : ∀ {j : Nat}, holders[j]? = some (some key) → j = i :=
    fun hj => h.once _ i key hj hi
  constructor
  · intro j other hj
    rcases hheld hj with ⟨-, hold⟩ | ⟨-, rfl⟩
    · exact h.registered j other hold
    · exact h.registered i other hi
  · intro j k other hj hk
    rcases hheld hj with ⟨hne, hold⟩ | ⟨rfl, rfl⟩ <;>
      rcases hheld hk with ⟨hne', hold'⟩ | ⟨rfl, heq⟩
    · exact h.once j k other hold hold'
    · subst heq
      exact absurd (honly hold) hne
    · exact absurd (honly hold') hne'
    · rfl

end Registered

end NostrQ.Foundation
