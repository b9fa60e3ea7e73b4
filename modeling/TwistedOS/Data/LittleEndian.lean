import Mathlib.Algebra.Ring.Nat

/-!
# Numbers in lists of bytes

An unsigned number of a fixed width, its least significant byte first.

## Main definitions

* `littleEndian`, `littleEndianValue`.

## Main results

* `littleEndianValue_littleEndian`.
-/

namespace TwistedOS

/-- The `n` low bytes of a number. -/
def littleEndian : (n value : ℕ) → List UInt8
  | 0, _ => []
  | n + 1, value => UInt8.ofNat value :: littleEndian n (value / 256)

/-- The value of bytes. -/
def littleEndianValue : List UInt8 → ℕ
  | [] => 0
  | byte :: bytes => byte.toNat + 256 * littleEndianValue bytes

variable {n value : ℕ}

@[simp] theorem length_littleEndian : (littleEndian n value).length = n := by
  induction n generalizing value with
  | zero => rfl
  | succ n ih => rw [littleEndian, List.length_cons, ih]

/-- A number that fits is read back. -/
theorem littleEndianValue_littleEndian (h : value < 256 ^ n) :
    littleEndianValue (littleEndian n value) = value := by
  induction n generalizing value with
  | zero =>
    rw [pow_zero, Nat.lt_one_iff] at h
    rw [h]
    rfl
  | succ n ih =>
    rw [pow_succ] at h
    have hbyte : (UInt8.ofNat value).toNat = value % 256 := UInt8.toNat_ofNat'
    rw [littleEndian, littleEndianValue, ih (Nat.div_lt_of_lt_mul (Nat.mul_comm .. ▸ h)), hbyte]
    exact Nat.mod_add_div ..

end TwistedOS
