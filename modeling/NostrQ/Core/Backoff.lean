import NostrQ.Core.Queue
import NostrQ.Foundation.Saturation

/-!
# Backoff

`backoffSecs` doubles the base with each attempt up to an hour, and its two
saturations stay above the hour.
-/

namespace NostrQ.Core

open NostrQ.Foundation

/-- The same on machine words; `none` where an operation overflows. -/
def backoffSecs? (retryBaseSeconds : U64) (attempt : U32) : Option U64 :=
  (checkedShl 1 (min (saturatingSub attempt 1) 20)).map fun factor =>
    min (saturatingMul retryBaseSeconds factor) 3600

variable (base : U64) (attempt : U32)

private theorem hour_le {base : U64} (h : base.val ≠ 0) :
    3600 ≤ base.val * 2 ^ 20 := by
  omega

theorem backoffSecs_eq_clamped :
    backoffSecs base attempt =
      min (base.val * 2 ^ min (attempt.val - 1) 20) 3600 := by
  unfold backoffSecs
  dsimp only
  rw [min_capped (by decide), Nat.shiftLeft_eq, Nat.one_mul]

theorem backoffSecs_eq_capped :
    backoffSecs base attempt = capped 3600 base.val 2 (attempt.val - 1) := by
  rw [backoffSecs_eq_clamped]
  change capped 3600 base.val 2 (min (attempt.val - 1) 20) = _
  by_cases hzero : base.val = 0
  · rw [hzero, capped_zero (Nat.zero_le 3600), capped_zero (Nat.zero_le 3600)]
  · exact capped_min (Nat.zero_le _) (by decide) (hour_le hzero) _

theorem backoffSecs_eq_exact :
    backoffSecs base attempt =
      min (base.val * 2 ^ (max attempt.val 1 - 1)) 3600 := by
  have hexponent : max attempt.val 1 - 1 = attempt.val - 1 := by omega
  rw [hexponent, backoffSecs_eq_capped, capped]

theorem backoffSecs_eq_saturated :
    backoffSecs base attempt =
      min (min (base.val * 2 ^ (attempt.val - 1)) 18446744073709551615)
        3600 := by
  rw [backoffSecs_eq_capped, min_capped (by decide), capped]

theorem backoffSecs_le : backoffSecs base attempt ≤ 3600 := by
  rw [backoffSecs_eq_capped]
  exact capped_le

theorem backoffSecs_mono_base :
    Monotone fun base => backoffSecs base attempt := by
  intro base base' hle
  simp only [backoffSecs_eq_capped]
  exact capped_mono_base 3600 (Nat.zero_le 2) _ hle

theorem backoffSecs_mono : Monotone (backoffSecs base) := by
  intro attempt attempt' hle
  simp only [backoffSecs_eq_capped]
  exact capped_mono 3600 (Nat.zero_le _) (by decide)
    (Nat.sub_le_sub_right hle 1)

/-- No operation overflows, and the words show what the numbers say. -/
theorem backoffSecs?_eq :
    (backoffSecs? base attempt).map Fin.val =
      some (backoffSecs base attempt) := by
  have hshift : (min (saturatingSub attempt 1) 20 : U32).val =
      min (attempt.val - 1) 20 :=
    Fin.coe_min _ _
  obtain ⟨power, hpower, hvalue⟩ :=
    checkedShl_one (min (saturatingSub attempt 1) 20) (by omega)
  have hmin : (min (saturatingMul base power) 3600).val =
      min (saturatingMul base power).val 3600 :=
    Fin.coe_min _ _
  rw [backoffSecs?, hpower, Option.map_some, Option.map_some, hmin,
    saturatingMul_val, hvalue, hshift, min_capped (by decide),
    backoffSecs_eq_clamped]

end NostrQ.Core
