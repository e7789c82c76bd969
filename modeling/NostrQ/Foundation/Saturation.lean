import Mathlib.Algebra.Order.Ring.Nat
import Mathlib.Algebra.Order.Monoid.Unbundled.Pow
import NostrQ.Foundation.Numeric

/-!
# Saturating words and capped growth

Operations on machine words that stop at the end of the range, and a quantity
that grows by a constant factor until it reaches a cap.  Under the cap neither
a limit on the number of factors nor one on the product can be seen, as long as
the limit is not reached first.
-/

namespace NostrQ.Foundation

/-! ## Words -/

def saturatingSub (a b : U32) : U32 := ⟨a.val - b.val, by omega⟩

def saturatingMul (a b : U64) : U64 :=
  ⟨min (a.val * b.val) 18446744073709551615, by omega⟩

/-- A shift by the width of the word or more is an overflow. -/
def checkedShl (a : U64) (shift : U32) : Option U64 :=
  if shift.val < 64 then some (Fin.ofNat 18446744073709551616 (a.val <<< shift.val))
  else none

@[simp] theorem saturatingSub_val (a b : U32) :
    (saturatingSub a b).val = a.val - b.val :=
  rfl

@[simp] theorem saturatingMul_val (a b : U64) :
    (saturatingMul a b).val = min (a.val * b.val) 18446744073709551615 :=
  rfl

theorem checkedShl_one (shift : U32) (h : shift.val < 64) :
    ∃ power, checkedShl 1 shift = some power ∧ power.val = 2 ^ shift.val := by
  refine ⟨_, if_pos h, ?_⟩
  have hone : (1 : U64).val <<< shift.val = 2 ^ shift.val := by
    rw [Nat.shiftLeft_eq]
    exact Nat.one_mul _
  have hfits : 2 ^ shift.val < 18446744073709551616 :=
    Nat.pow_lt_pow_right (by omega) h
  rw [Fin.val_ofNat, hone, Nat.mod_eq_of_lt hfits]

/-! ## Growth under a cap -/

theorem min_capped {α : Type*} [LinearOrder α] {cap top : α} (h : cap ≤ top)
    (a : α) : min (min a top) cap = min a cap := by
  rw [min_assoc, min_eq_right h]

section Growth

variable {α : Type*} [Semiring α] [LinearOrder α] {cap base ratio : α}
  {n limit : ℕ}

/-- What `base` has grown to after `n` steps, or the cap. -/
def capped (cap base ratio : α) (n : ℕ) : α := min (base * ratio ^ n) cap

theorem capped_le : capped cap base ratio n ≤ cap := min_le_right _ _

theorem capped_eq_cap (h : cap ≤ base * ratio ^ n) :
    capped cap base ratio n = cap :=
  min_eq_right h

theorem capped_zero (h : 0 ≤ cap) : capped cap 0 ratio n = 0 := by
  rw [capped, zero_mul, min_eq_left h]

variable [IsOrderedRing α]

theorem capped_mono_base (cap : α) (hratio : 0 ≤ ratio) (n : ℕ) :
    Monotone fun base => capped cap base ratio n := by
  intro base base' hle
  have hgrown : base * ratio ^ n ≤ base' * ratio ^ n :=
    mul_le_mul_of_nonneg_right hle (pow_nonneg hratio n)
  exact min_le_min_right cap hgrown

private theorem grown_mono (hbase : 0 ≤ base) (hratio : 1 ≤ ratio) {m n : ℕ}
    (h : m ≤ n) : base * ratio ^ m ≤ base * ratio ^ n :=
  mul_le_mul_of_nonneg_left (pow_le_pow_right₀ hratio h) hbase

theorem capped_mono (cap : α) (hbase : 0 ≤ base) (hratio : 1 ≤ ratio) :
    Monotone (capped cap base ratio) := by
  intro m n hle
  exact min_le_min_right cap (grown_mono hbase hratio hle)

theorem capped_min (hbase : 0 ≤ base) (hratio : 1 ≤ ratio)
    (h : cap ≤ base * ratio ^ limit) (n : ℕ) :
    capped cap base ratio (min n limit) = capped cap base ratio n := by
  rcases le_total n limit with hle | hle
  · rw [min_eq_left hle]
  · have hreached := h.trans (grown_mono hbase hratio hle)
    rw [min_eq_right hle, capped_eq_cap h, capped_eq_cap hreached]

end Growth

end NostrQ.Foundation
