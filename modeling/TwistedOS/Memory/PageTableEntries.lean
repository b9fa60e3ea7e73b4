import Mathlib.Tactic.IntervalCases
import TwistedOS.Memory.VirtualMemoryManager

/-!
# The fields of page table entries

What the words built by `buildNonLeafEntryValue` and `buildLeafEntryValue` mean: an entry is
present, it has the address it was built with, and its access bits are those asked for. An entry
above the last level is never a large page.

## Main results

* `testBit_buildNonLeafEntryValue`, `testBit_buildLeafEntryValue`: the bits of the words.
* `entryAddress_buildNonLeafEntryValue`, `entryAddress_buildLeafEntryValue`.
-/

namespace TwistedOS

/-! ### Masks -/

theorem testBit_clearBits (value mask i : ℕ) :
    (clearBits value mask).testBit i = (value.testBit i && !mask.testBit i) := by
  rw [clearBits, Nat.testBit_xor, Nat.testBit_and]
  cases value.testBit i <;> simp

/-- The bits of a mask, from its bits below `64`. -/
private theorem testBit_mask {mask : ℕ} (hmask : mask < 2 ^ 64) {f : ℕ → Bool}
    (hlow : ∀ i < 64, mask.testBit i = f i) (hhigh : ∀ i, 64 ≤ i → f i = false) (i : ℕ) :
    mask.testBit i = f i := by
  by_cases hi : i < 64
  · exact hlow i hi
  · rw [hhigh i (by omega)]
    exact Nat.testBit_eq_false_of_lt (hmask.trans_le (Nat.pow_le_pow_right (by decide) (by omega)))

theorem testBit_physPageAddrMask (i : ℕ) :
    physPageAddrMask.testBit i = decide (12 ≤ i ∧ i < 52) :=
  testBit_mask (f := fun i => decide (12 ≤ i ∧ i < 52)) (by decide) (by decide) (by grind) i

/-- The mask of an entry's address keeps the bits 12 to 51. -/
theorem and_physPageAddrMask (x : ℕ) : x &&& physPageAddrMask = x % 2 ^ 52 / 2 ^ 12 * 2 ^ 12 := by
  refine Nat.eq_of_testBit_eq fun i => ?_
  rw [Nat.testBit_and, testBit_physPageAddrMask, Nat.testBit_mul_two_pow, Nat.testBit_div_two_pow,
    Nat.testBit_mod_two_pow]
  by_cases hi : 12 ≤ i
  · simp [hi, Bool.and_comm]
  · simp [hi]

theorem testBit_validPhysicalAddrMask (i : ℕ) :
    validPhysicalAddrMask.testBit i = decide (12 ≤ i ∧ i < 32) :=
  testBit_mask (f := fun i => decide (12 ≤ i ∧ i < 32)) (by decide) (by decide) (by grind) i

theorem testBit_leafAllowedFlagMask (i : ℕ) :
    leafAllowedFlagMask.testBit i = decide (i < 12) :=
  testBit_mask (f := fun i => decide (i < 12)) (by decide) (by decide) (by grind) i

theorem testBit_nonLeafAllowedFlagMask (i : ℕ) :
    nonLeafAllowedFlagMask.testBit i = decide (i < 6 ∨ 9 ≤ i ∧ i < 12) :=
  testBit_mask (f := fun i => decide (i < 6 ∨ 9 ≤ i ∧ i < 12)) (by decide) (by decide) (by grind) i

theorem testBit_entryFlagPresent (i : ℕ) : entryFlagPresent.testBit i = decide (i = 0) :=
  testBit_mask (f := fun i => decide (i = 0)) (by decide) (by decide) (by grind) i

theorem testBit_entryFlagWriteable (i : ℕ) : entryFlagWriteable.testBit i = decide (i = 1) :=
  testBit_mask (f := fun i => decide (i = 1)) (by decide) (by decide) (by grind) i

theorem testBit_entryFlagUser (i : ℕ) : entryFlagUser.testBit i = decide (i = 2) :=
  testBit_mask (f := fun i => decide (i = 2)) (by decide) (by decide) (by grind) i

/-! ### Built entries -/

theorem testBit_buildNonLeafEntryValue (address flags : ℕ) (user : Bool) (i : ℕ) :
    (buildNonLeafEntryValue address flags user).testBit i =
      ((decide (12 ≤ i ∧ i < 32) && address.testBit i) ||
        (decide (i < 6 ∨ 9 ≤ i ∧ i < 12) && flags.testBit i) || decide (i = 0 ∨ i = 1) ||
        (user && decide (i = 2))) := by
  unfold buildNonLeafEntryValue
  cases user <;>
    simp only [Nat.testBit_or, Nat.testBit_and, testBit_validPhysicalAddrMask,
      testBit_nonLeafAllowedFlagMask, testBit_entryFlagPresent, testBit_entryFlagWriteable,
      testBit_entryFlagUser, if_true, Bool.false_eq_true, if_false] <;>
    grind

theorem testBit_buildLeafEntryValue (address flags : ℕ) (user writeable : Bool) (i : ℕ) :
    (buildLeafEntryValue address flags user writeable).testBit i =
      if i = 0 then true else if i = 1 then writeable else if i = 2 then user
      else if i < 12 then flags.testBit i else decide (i < 32) && address.testBit i := by
  unfold buildLeafEntryValue
  cases user <;> cases writeable <;>
    simp only [Nat.testBit_or, Nat.testBit_and, testBit_clearBits, testBit_validPhysicalAddrMask,
      testBit_leafAllowedFlagMask, testBit_entryFlagPresent, testBit_entryFlagWriteable,
      testBit_entryFlagUser, if_true, Bool.false_eq_true, if_false] <;>
    grind

/-- A page address below 4 GiB has bits `12` to `31` only. -/
theorem testBit_page {address i : ℕ} (halign : address % pageSize = 0)
    (hlt : address < 2 ^ 32) (hi : ¬ (12 ≤ i ∧ i < 32)) : address.testBit i = false := by
  by_cases hlow : i < 12
  · have hmod : (address % 2 ^ 12).testBit i = address.testBit i := by
      rw [Nat.testBit_mod_two_pow]
      simp [hlow]
    rw [← hmod, show address % 2 ^ 12 = 0 from halign, Nat.zero_testBit]
  · exact Nat.testBit_eq_false_of_lt (hlt.trans_le (Nat.pow_le_pow_right (by decide) (by omega)))

/-- An entry whose bits `12` to `51` are those of a page below 4 GiB has its address. -/
theorem entryAddress_eq {entry address : ℕ} (halign : address % pageSize = 0)
    (hlt : address < 2 ^ 32)
    (hbits : ∀ i, 12 ≤ i → i < 52 → entry.testBit i = (decide (i < 32) && address.testBit i)) :
    entryAddress entry = address := by
  refine Nat.eq_of_testBit_eq fun i => ?_
  rw [entryAddress, Nat.testBit_and, testBit_physPageAddrMask]
  by_cases hi : 12 ≤ i ∧ i < 52
  · rw [hbits i hi.1 hi.2, decide_eq_true hi, Bool.and_true]
    by_cases hi32 : i < 32
    · simp [hi32]
    · rw [testBit_page halign hlt (by omega)]
      simp
  · rw [testBit_page halign hlt (by omega)]
    simp [hi]

theorem entryAddress_buildNonLeafEntryValue {address : ℕ} (halign : address % pageSize = 0)
    (hlt : address < 2 ^ 32) (flags : ℕ) (user : Bool) :
    entryAddress (buildNonLeafEntryValue address flags user) = address := by
  refine entryAddress_eq halign hlt fun i hlo hhi => ?_
  rw [testBit_buildNonLeafEntryValue]
  grind

theorem entryAddress_buildLeafEntryValue {address : ℕ} (halign : address % pageSize = 0)
    (hlt : address < 2 ^ 32) (flags : ℕ) (user writeable : Bool) :
    entryAddress (buildLeafEntryValue address flags user writeable) = address := by
  refine entryAddress_eq halign hlt fun i hlo hhi => ?_
  rw [testBit_buildLeafEntryValue]
  grind

/-- Only the address bits of the first argument matter. -/
theorem buildNonLeafEntryValue_entryAddress (entry flags : ℕ) (user : Bool) :
    buildNonLeafEntryValue (entryAddress entry) flags user =
      buildNonLeafEntryValue entry flags user := by
  refine Nat.eq_of_testBit_eq fun i => ?_
  simp only [testBit_buildNonLeafEntryValue, entryAddress, Nat.testBit_and,
    testBit_physPageAddrMask]
  grind

theorem buildLeafEntryValue_entryAddress (entry flags : ℕ) (user writeable : Bool) :
    buildLeafEntryValue (entryAddress entry) flags user writeable =
      buildLeafEntryValue entry flags user writeable := by
  refine Nat.eq_of_testBit_eq fun i => ?_
  simp only [testBit_buildLeafEntryValue, entryAddress, Nat.testBit_and,
    testBit_physPageAddrMask]
  by_cases hi : i < 32 ∧ 12 ≤ i
  · have hmask : 12 ≤ i ∧ i < 52 := by omega
    simp [hmask]
  · grind

section

variable (address flags : ℕ)

include address

@[simp] theorem entryPresent_buildNonLeafEntryValue (user : Bool) :
    entryPresent (buildNonLeafEntryValue address flags user) = true := by
  rw [entryPresent, testBit_buildNonLeafEntryValue]
  simp

@[simp] theorem entrySize_buildNonLeafEntryValue (user : Bool) :
    entrySize (buildNonLeafEntryValue address flags user) = false := by
  simp [entrySize, testBit_buildNonLeafEntryValue]

@[simp] theorem entryUserAccess_buildNonLeafEntryValue (user : Bool) :
    entryUserAccess (buildNonLeafEntryValue address flags user) =
      (entryUserAccess flags || user) := by
  simp [entryUserAccess, testBit_buildNonLeafEntryValue]

@[simp] theorem entryPresent_buildLeafEntryValue (user writeable : Bool) :
    entryPresent (buildLeafEntryValue address flags user writeable) = true := by
  rw [entryPresent, testBit_buildLeafEntryValue, if_pos rfl]

@[simp] theorem entryUserAccess_buildLeafEntryValue (user writeable : Bool) :
    entryUserAccess (buildLeafEntryValue address flags user writeable) = user := by
  simp [entryUserAccess, testBit_buildLeafEntryValue]

@[simp] theorem entryWriteable_buildLeafEntryValue (user writeable : Bool) :
    entryWriteable (buildLeafEntryValue address flags user writeable) = writeable := by
  simp [entryWriteable, testBit_buildLeafEntryValue]

end

@[simp] theorem entryPresent_zero : entryPresent 0 = false := by simp [entryPresent]

/-! ### Table addresses -/

theorem normalizeTablePhysicalAddress_eq {t : ℕ} (h0 : t ≠ 0) (halign : t % pageSize = 0)
    (hlt : t < 0xC0000000) : normalizeTablePhysicalAddress t = t := by
  have hlow : t &&& (pageSize - 1) = 0 := by
    rw [show pageSize - 1 = 2 ^ 12 - 1 from rfl, Nat.and_two_pow_sub_one_eq_mod]
    exact halign
  have hhigh : t &&& 0xFFFF000000000000 = 0 := by
    refine Nat.eq_of_testBit_eq fun i => ?_
    rw [Nat.testBit_and, Nat.zero_testBit]
    by_cases hi : i < 48
    · have hmask : Nat.testBit 0xFFFF000000000000 i = false := by
        revert i
        decide
      rw [hmask, Bool.and_false]
    · have hpow : 2 ^ 48 ≤ 2 ^ i := Nat.pow_le_pow_right (by decide) (by omega)
      rw [Nat.testBit_eq_false_of_lt (by omega), Bool.false_and]
  rw [normalizeTablePhysicalAddress, if_pos]
  simp only [isValidTablePhysicalAddress, h0, hlow, hhigh, if_false, ne_eq, not_true_eq_false, hlt,
    decide_true]

theorem isValidTablePhysicalAddress_spec {address : ℕ} (h : isValidTablePhysicalAddress address) :
    address ≠ 0 ∧ address % pageSize = 0 ∧ address < 0xC0000000 := by
  rw [isValidTablePhysicalAddress] at h
  split_ifs at h with hzero hmod hhigh
  rw [not_not, show pageSize - 1 = 2 ^ 12 - 1 from rfl, Nat.and_two_pow_sub_one_eq_mod] at hmod
  exact ⟨hzero, hmod, of_decide_eq_true h⟩

/-- A table address that has been normalised begins a page. -/
theorem normalizeTablePhysicalAddress_mod (address : ℕ) :
    normalizeTablePhysicalAddress address % pageSize = 0 := by
  rw [normalizeTablePhysicalAddress]
  dsimp only
  split_ifs with hvalid hclear
  · exact (isValidTablePhysicalAddress_spec hvalid).2.1
  · exact (isValidTablePhysicalAddress_spec hclear).2.1
  · rfl

end TwistedOS
