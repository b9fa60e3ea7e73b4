import Mathlib.Data.Nat.Bitwise
import Mathlib.Tactic.Ring
import Mathlib.Tactic.SplitIfs

/-!
# Numbers in fields of hexadecimal digits

Text formats write a number into a field of a fixed width, the digit of the highest value first. A
reader goes over the field and appends each digit to the value it has so far.

## Main definitions

* `hexDigits upper n value`: the field of `n` digits, with capital or small letters.
* `isHexDigit`, `hexDigitValue`

## Main results

* `isHexDigit_hexDigit`, `hexDigitValue_hexDigit`
* `mod_pow_succ_eq`: a value is read a digit at a time.
-/

namespace TwistedOS

/-- The byte is a digit, or a letter from a to f. -/
def isHexDigit (byte : UInt8) : Bool :=
  (0x30 ≤ byte && byte ≤ 0x39) || (0x61 ≤ byte && byte ≤ 0x66) || (0x41 ≤ byte && byte ≤ 0x46)

/-- The value of a hexadecimal digit. -/
def hexDigitValue (byte : UInt8) : ℕ :=
  if 0x30 ≤ byte ∧ byte ≤ 0x39 then (byte - 0x30).toNat
  else if 0x61 ≤ byte ∧ byte ≤ 0x66 then (byte - 0x61 + 10).toNat
  else (byte - 0x41 + 10).toNat

/-- The digit of a value below 16. -/
def hexDigit (upper : Bool) (value : ℕ) : UInt8 :=
  if value < 10 then 0x30 + UInt8.ofNat value
  else (if upper then 0x41 else 0x61) + UInt8.ofNat (value - 10)

/-- A field of `n` digits. -/
def hexDigits (upper : Bool) : (n value : ℕ) → List UInt8
  | 0, _ => []
  | n + 1, value => hexDigit upper (value / 16 ^ n % 16) :: hexDigits upper n value

variable {upper : Bool} {n value : ℕ}

@[simp] theorem length_hexDigits : (hexDigits upper n value).length = n := by
  induction n with
  | zero => rfl
  | succ n ih => rw [hexDigits, List.length_cons, ih]

theorem isHexDigit_hexDigit (h : value < 16) : isHexDigit (hexDigit upper value) = true := by
  have hall : ∀ upper : Bool, ∀ d : Fin 16, isHexDigit (hexDigit upper d) = true := by decide
  exact hall upper ⟨value, h⟩

theorem hexDigitValue_hexDigit (h : value < 16) : hexDigitValue (hexDigit upper value) = value := by
  have hall : ∀ upper : Bool, ∀ d : Fin 16, hexDigitValue (hexDigit upper d) = d := by decide
  exact hall upper ⟨value, h⟩

/-- The digits have the values below 16. -/
theorem hexDigitValue_lt {byte : UInt8} (h : isHexDigit byte = true) : hexDigitValue byte < 16 := by
  simp only [isHexDigit, Bool.or_eq_true, Bool.and_eq_true, decide_eq_true_eq,
    UInt8.le_iff_toNat_le] at h
  rw [hexDigitValue]
  split_ifs with hdigit hsmall
  all_goals
    simp only [UInt8.le_iff_toNat_le, UInt8.toNat_add, UInt8.toNat_sub, UInt8.reduceToNat] at *
    omega

/-- A digit is appended to a value by a shift. -/
theorem shiftLeft_or_digit {digit : ℕ} (h : digit < 16) :
    value <<< 4 ||| digit = value * 16 + digit := by
  rw [← Nat.shiftLeft_add_eq_or_of_lt h, Nat.shiftLeft_eq]

/-- The lowest digits of a value, with one more digit in front. -/
theorem mod_pow_succ_eq (a : ℕ) : (a * 16 + value / 16 ^ n % 16) * 16 ^ n + value % 16 ^ n =
    a * 16 ^ (n + 1) + value % 16 ^ (n + 1) := by
  rw [Nat.mod_pow_succ]
  ring

end TwistedOS
