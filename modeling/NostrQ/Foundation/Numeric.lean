import Mathlib.Algebra.GroupWithZero.Nat
import Mathlib.Data.Fin.Basic
import Mathlib.Order.Fin.Basic
import Mathlib.Data.Nat.Init
import Mathlib.Tactic.Common

/-!
# Machine integers and their decimal text

`U32` and `U64` are the unsigned machine words.  Signed 64-bit values are kept
as `Int`; `toI64` is the two's-complement reading that a cast or a wrapping
addition performs.  The readers below accept what a standard integer parser
accepts: an optional sign, at least one decimal digit, and a value in range.
-/

namespace NostrQ.Foundation

abbrev U32 := Fin 4294967296

abbrev U64 := Fin 18446744073709551616

instance neZeroU32 : NeZero 4294967296 := ⟨by decide⟩

instance neZeroU64 : NeZero 18446744073709551616 := ⟨by decide⟩

/-- Reduce to the signed 64-bit range, as `as i64` and wrapping addition do. -/
def toI64 (n : Int) : Int :=
  (n + 9223372036854775808) % 18446744073709551616 - 9223372036854775808

def InI64 (n : Int) : Prop :=
  -9223372036854775808 ≤ n ∧ n < 9223372036854775808

instance (n : Int) : Decidable (InI64 n) :=
  inferInstanceAs (Decidable (_ ∧ _))

def toU64 (n : Int) : U64 := ⟨(n % 18446744073709551616).toNat, by omega⟩

@[simp] theorem toU64_toI64 (n : U64) : toU64 (toI64 n.val) = n := by
  have hlt := n.isLt
  apply Fin.ext
  unfold toU64 toI64
  simp only
  omega

theorem inI64_toI64 (n : Int) : InI64 (toI64 n) := by
  unfold InI64 toI64
  omega

theorem toI64_le {n : Int} (h : -9223372036854775808 ≤ n) : toI64 n ≤ n := by
  unfold toI64
  omega

/-- The result of an operation whose overflow is caught; `none` where it is. -/
def checkedI64 (n : Int) : Option Int := if InI64 n then some n else none

theorem checkedI64_eq_some {n m : Int} :
    checkedI64 n = some m ↔ InI64 n ∧ n = m := by
  unfold checkedI64
  split <;> simp_all

theorem checkedI64_isSome {n : Int} : (checkedI64 n).isSome ↔ InI64 n := by
  unfold checkedI64
  split <;> simp_all

theorem toI64_of_lt {n : Int} (h₀ : 0 ≤ n) (h : n < 9223372036854775808) :
    toI64 n = n := by
  unfold toI64
  omega

theorem toI64_of_ge {n : Int} (h : 9223372036854775808 ≤ n)
    (htop : n < 18446744073709551616) :
    toI64 n = n - 18446744073709551616 := by
  unfold toI64
  omega

/-! ## Decimal text -/

def readDigits : List Char → Option Nat
  | [] => none
  | digit :: digits =>
      if (digit :: digits).all Char.isDigit then
        some (Nat.ofDigitChars 10 (digit :: digits) 0)
      else none

def readUnsigned (text : String) : Option Nat :=
  match text.toList with
  | '+' :: digits => readDigits digits
  | digits => readDigits digits

def readSigned (text : String) : Option Int :=
  match text.toList with
  | '-' :: digits => (readDigits digits).map fun n => -(n : Int)
  | '+' :: digits => (readDigits digits).map Int.ofNat
  | digits => (readDigits digits).map Int.ofNat

def parseU32 (text : String) : Option U32 :=
  (readUnsigned text).bind fun n =>
    if h : n < 4294967296 then some ⟨n, h⟩ else none

def parseI64 (text : String) : Option Int :=
  (readSigned text).filter fun n => decide (InI64 n)

def showInt : Int → String
  | .ofNat n => n.repr
  | .negSucc n => "-" ++ (n + 1).repr

theorem readDigits_toDigits (n : Nat) :
    readDigits (Nat.toDigits 10 n) = some n := by
  have hne : Nat.toDigits 10 n ≠ [] := Nat.toDigits_ne_nil
  have hall : (Nat.toDigits 10 n).all Char.isDigit = true := by
    rw [List.all_eq_true]
    intro c hc
    exact Nat.isDigit_of_mem_toDigits (by omega) (by omega) hc
  have hvalue : Nat.ofDigitChars 10 (Nat.toDigits 10 n) 0 = n :=
    Nat.ofDigitChars_toDigits (by omega) (by omega)
  cases hdigits : Nat.toDigits 10 n with
  | nil => exact absurd hdigits hne
  | cons digit digits =>
      rw [hdigits] at hall hvalue
      simp only [readDigits, hall, if_true, hvalue]

private theorem toDigits_ne_sign (n : Nat) (c : Char) (rest : List Char)
    (hc : c.isDigit = false) : Nat.toDigits 10 n ≠ c :: rest := by
  intro h
  have hmem : c ∈ Nat.toDigits 10 n := by simp [h]
  have hdigit := Nat.isDigit_of_mem_toDigits (b := 10) (by omega) (by omega) hmem
  rw [hc] at hdigit
  contradiction

@[simp] theorem readUnsigned_repr (n : Nat) :
    readUnsigned n.repr = some n := by
  unfold readUnsigned
  rw [Nat.toList_repr]
  split
  · next digits h =>
      exact absurd h (toDigits_ne_sign n '+' digits (by decide))
  · exact readDigits_toDigits n

@[simp] theorem readSigned_showInt (n : Int) :
    readSigned (showInt n) = some n := by
  cases n with
  | ofNat n =>
      unfold readSigned showInt
      rw [Nat.toList_repr]
      split
      · next digits h =>
          exact absurd h (toDigits_ne_sign n '-' digits (by decide))
      · next digits h =>
          exact absurd h (toDigits_ne_sign n '+' digits (by decide))
      · rw [readDigits_toDigits]
        rfl
  | negSucc n =>
      unfold readSigned showInt
      have hsign : "-".toList = ['-'] := by decide
      rw [String.toList_append, Nat.toList_repr, hsign]
      simp only [List.cons_append, List.nil_append, readDigits_toDigits]
      rfl

@[simp] theorem parseU32_repr (n : U32) : parseU32 n.val.repr = some n := by
  simp [parseU32]

@[simp] theorem parseI64_showInt {n : Int} (h : InI64 n) :
    parseI64 (showInt n) = some n := by
  simp [parseI64, h]

example : parseU32 "4294967295" = some 4294967295 := by decide
example : parseU32 "4294967296" = none := by decide

end NostrQ.Foundation
