import Mathlib.Data.List.Basic
import Mathlib.Tactic.Common

/-!
# Bounded pipes

A pipe holds at most as much as its capacity: what does not fit is not written,
and what has not been written is not read.
-/

namespace NostrQ.Foundation

structure Pipe (β : Type*) (capacity : Nat) where
  content : List β
  fits : content.length ≤ capacity

namespace Pipe

variable {β : Type*} {capacity : Nat}

def empty (β : Type*) (capacity : Nat) : Pipe β capacity := ⟨[], Nat.zero_le _⟩

def push? (p : Pipe β capacity) (chunk : List β) : Option (Pipe β capacity) :=
  if h : (p.content ++ chunk).length ≤ capacity then some ⟨p.content ++ chunk, h⟩
  else none

def pop? (p : Pipe β capacity) (n : Nat) : Option (List β × Pipe β capacity) :=
  if n ≤ p.content.length then
    some (p.content.take n, ⟨p.content.drop n,
      List.length_drop ▸ Nat.le_trans (Nat.sub_le _ _) p.fits⟩)
  else none

def Full (p : Pipe β capacity) : Prop := p.content.length = capacity

variable {p p' : Pipe β capacity} {chunk : List β}

@[ext] theorem ext_content (h : p.content = p'.content) : p = p' := by
  cases p
  cases p'
  cases h
  rfl

@[simp] theorem content_empty : (empty β capacity).content = [] := rfl

theorem push?_eq_some :
    p.push? chunk = some p' ↔ p'.content = p.content ++ chunk := by
  unfold push?
  constructor
  · intro h
    split at h
    · cases h
      rfl
    · contradiction
  · intro h
    have hroom : (p.content ++ chunk).length ≤ capacity := h ▸ p'.fits
    rw [dif_pos hroom]
    exact congrArg some (ext_content h.symm)

theorem pop?_eq_some {n : Nat} :
    p.pop? n = some (chunk, p') ↔
      p.content = chunk ++ p'.content ∧ chunk.length = n := by
  unfold pop?
  constructor
  · intro h
    split at h
    · next hle =>
        cases h
        exact ⟨(List.take_append_drop n p.content).symm,
          List.length_take_of_le hle⟩
    · contradiction
  · rintro ⟨hcontent, rfl⟩
    have hle : chunk.length ≤ p.content.length := by
      rw [hcontent, List.length_append]
      omega
    rw [if_pos hle]
    simp only [hcontent, List.take_left, Option.some.injEq, Prod.mk.injEq,
      true_and]
    exact ext_content (by simp)

end Pipe

end NostrQ.Foundation
