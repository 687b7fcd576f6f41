import Arithmetization.Decimal
import Mathlib.Algebra.Group.Nat.Defs

/-! # Numbers are written in decimal

A block of digits is the list of the last digits of a number, and its length leaves room for all of
them. Without the zeros at its beginning it is therefore the decimal text that the standard library
gives the number.
-/

namespace Arithmetization.Decimal

/-- The last decimal digits of a number, one at a time. -/
def lastDigits : (count : Nat) → Nat → List Char
  | 0, _ => []
  | count + 1, n => lastDigits count (n / 10) ++ [Nat.digitChar (n % 10)]

/-- Leading digits belong to the quotient by the power of ten of the others. -/
theorem lastDigits_add (first rest n : Nat) :
    lastDigits (first + rest) n = lastDigits first (n / 10 ^ rest) ++ lastDigits rest n := by
  induction rest generalizing n with
  | zero => simp [lastDigits]
  | succ rest ih =>
    have quotient : n / 10 / 10 ^ rest = n / 10 ^ (rest + 1) := by
      rw [Nat.div_div_eq_div_mul, Nat.pow_succ, Nat.mul_comm]
    rw [← Nat.add_assoc, lastDigits, lastDigits, ih, quotient, List.append_assoc]

theorem lastDigits_mod (count n : Nat) : lastDigits count (n % 10 ^ count) = lastDigits count n := by
  induction count generalizing n with
  | zero => rfl
  | succ count ih =>
    have power : 10 ^ (count + 1) = 10 * 10 ^ count := by rw [Nat.pow_succ, Nat.mul_comm]
    have quotient : n % 10 ^ (count + 1) / 10 = n / 10 % 10 ^ count := by
      rw [power]
      exact Nat.mod_mul_right_div_self n 10 (10 ^ count)
    have digit : n % 10 ^ (count + 1) % 10 = n % 10 := by
      rw [power]
      exact Nat.mod_mul_right_mod n 10 (10 ^ count)
    rw [lastDigits, lastDigits, quotient, digit, ih]

theorem block_eq_lastDigits (level n : Nat) : block level n = lastDigits (2 ^ level) n := by
  induction level generalizing n with
  | zero => rfl
  | succ level ih =>
    have halves : 2 ^ (level + 1) = 2 ^ level + 2 ^ level := by rw [Nat.pow_succ]; omega
    rw [halves, lastDigits_add, ← ih, ← lastDigits_mod (2 ^ level) n, ← ih]
    rfl

theorem lastDigits_zero (count : Nat) : lastDigits count 0 = List.replicate count '0' := by
  induction count with
  | zero => rfl
  | succ count ih =>
    rw [lastDigits, Nat.zero_div, ih, List.replicate_succ']
    rfl

/-- The zeros before a number that fits into the given count of digits are exactly what its digits
lack. -/
theorem dropWhile_lastDigits {count n : Nat} (positive : 0 < n) (fits : n < 10 ^ count) :
    (lastDigits count n).dropWhile (· = '0') = Nat.toDigits 10 n := by
  induction count generalizing n with
  | zero => rw [Nat.pow_zero] at fits; omega
  | succ count ih =>
    have digit : n % 10 < 10 := Nat.mod_lt n (by decide)
    rw [lastDigits, List.dropWhile_append]
    rcases Nat.eq_zero_or_pos (n / 10) with none | some
    · have small : n < 10 := by omega
      have nonzero : Nat.digitChar n ≠ '0' := by
        rw [ne_eq, Nat.digitChar_eq_zero]
        omega
      rw [none, lastDigits_zero, Nat.mod_eq_of_lt small, Nat.toDigits_of_lt_base small]
      simp [nonzero]
    · have fits' : n / 10 < 10 ^ count := by
        rw [Nat.pow_succ] at fits
        omega
      have front := ih some fits'
      have split := Nat.toDigits_append_toDigits (b := 10) (by decide) some digit
      rw [Nat.toDigits_of_lt_base digit, Nat.div_add_mod] at split
      rw [front, if_neg (by simp), split]

/-- A digit holds more than three bits, so the block of a number has room for all its digits. -/
theorem lt_pow_level (n : Nat) : n < 10 ^ 2 ^ level n := by
  have room : n.log2 / 3 + 1 < 2 ^ level n := Nat.lt_log2_self
  calc
    n < 2 ^ (n.log2 + 1) := Nat.lt_log2_self
    _ ≤ 2 ^ (3 * 2 ^ level n) := Nat.pow_le_pow_right (by decide) (by omega)
    _ = 8 ^ 2 ^ level n := Nat.pow_mul 2 3 _
    _ ≤ 10 ^ 2 ^ level n := Nat.pow_le_pow_left (by decide) _

theorem digits_eq_toDigits (n : Nat) : digits n = Nat.toDigits 10 n := by
  rw [digits, block_eq_lastDigits]
  rcases Nat.eq_zero_or_pos n with rfl | positive
  · rw [lastDigits_zero, Nat.toDigits_zero]
    rfl
  · rw [dropWhile_lastDigits positive (lt_pow_level n)]
    split
    · next empty => exact (Nat.toDigits_ne_nil empty).elim
    · next c rest found => exact found.symm

/-- The text of a number is its standard decimal text. -/
theorem text_eq_toString (n : Nat) : text n = toString n := by
  rw [text, digits_eq_toDigits, Nat.toString_eq_ofList_toDigits]

theorem toList_toString (n : Nat) : (toString n).toList = digits n := by
  rw [← text_eq_toString, text, String.toList_ofList]

end Arithmetization.Decimal

/-- A text stands for itself where it is put into another text. -/
@[simp] theorem Arithmetization.toString_string (s : String) : toString s = s := rfl
