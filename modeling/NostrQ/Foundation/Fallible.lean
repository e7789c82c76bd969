import Mathlib.Data.List.Forall2

/-!
# Fallible steps

A step after another one succeeds when both do; a list of steps succeeds when
each of them does, with their results in order.
-/

namespace NostrQ.Foundation

variable {ε ε' α β γ : Type}

theorem exists_of_bind_ok {x : Except ε α} {f : α → Except ε β} {y : β}
    (h : x >>= f = .ok y) : ∃ a, x = .ok a ∧ f a = .ok y := by
  cases x with
  | error e => contradiction
  | ok a => exact ⟨a, rfl, h⟩

theorem of_mapError_ok {x : Except ε α} {describe : ε → ε'} {a : α}
    (h : x.mapError describe = .ok a) : x = .ok a := by
  cases x with
  | error e => contradiction
  | ok a' =>
      cases h
      rfl

section Lists

variable {f : α → Except ε β} {xs : List α} {ys : List β}

theorem forall₂_of_mapM_ok (h : xs.mapM f = .ok ys) :
    List.Forall₂ (fun x y => f x = .ok y) xs ys := by
  induction xs generalizing ys with
  | nil =>
      cases h
      exact .nil
  | cons x xs ih =>
      rw [List.mapM_cons] at h
      obtain ⟨y, hx, h⟩ := exists_of_bind_ok h
      obtain ⟨rest, hxs, h⟩ := exists_of_bind_ok h
      cases h
      exact .cons hx (ih hxs)

theorem exists_of_mapM_ok (h : xs.mapM f = .ok ys) {y : β} (hy : y ∈ ys) :
    ∃ x ∈ xs, f x = .ok y := by
  have hall := forall₂_of_mapM_ok h
  clear h
  induction hall with
  | nil => contradiction
  | cons hx _ ih =>
      rcases List.mem_cons.mp hy with rfl | hy
      · exact ⟨_, List.mem_cons_self, hx⟩
      · obtain ⟨x, hmem, hfx⟩ := ih hy
        exact ⟨x, List.mem_cons_of_mem _ hmem, hfx⟩

theorem map_eq_of_mapM_ok (h : xs.mapM f = .ok ys) {input : α → γ}
    {output : β → γ} (hkeeps : ∀ x y, f x = .ok y → output y = input x) :
    ys.map output = xs.map input := by
  have hall := forall₂_of_mapM_ok h
  clear h
  induction hall with
  | nil => rfl
  | cons hx _ ih =>
      rw [List.map_cons, List.map_cons, hkeeps _ _ hx, ih]

end Lists

end NostrQ.Foundation
