import TwistedOS.Data.ByteMemory
import TwistedOS.Memory.PhysicalMemoryManager

/-!
# The bytes of physical memory

The words of the physical memory seen as bytes, for what the kernel reads and writes in the pages
of programs: images are read as structures of bytes, and ranges of bytes are copied and cleared.

## Main definitions

* `PhysicalMemoryManager.bytes`, `PhysicalMemoryManager.writeBytes`.

## Main results

* `PhysicalMemoryManager.writeBytes_physicalMemory`: the words outside the range stay.
-/

namespace TwistedOS

namespace PhysicalMemoryManager

/-- The byte at a physical address. -/
def bytes (m : PhysicalMemoryManager) : ByteMemory := fun a =>
  UInt8.ofNat (m.physicalMemory (a / 8 * 8) / 256 ^ (a % 8))

/-- The word that eight bytes make up. -/
def packWord (byte : ℕ → UInt8) : ℕ → ℕ
  | 0 => 0
  | n + 1 => (byte 0).toNat + 256 * packWord (fun i => byte (i + 1)) n

/-- Writes `size` bytes from an address on. -/
def writeBytes (m : PhysicalMemoryManager) (address size : ℕ) (content : ℕ → UInt8) :
    PhysicalMemoryManager :=
  { m with physicalMemory := fun w =>
      if w + 8 ≤ address ∨ address + size ≤ w then m.physicalMemory w
      else packWord (fun i => if address ≤ w + i ∧ w + i < address + size then
        content (w + i - address) else m.bytes (w + i)) 8 }

variable (m : PhysicalMemoryManager) {address size a : ℕ} {content : ℕ → UInt8}

/-- A byte of a word that has been put together. -/
theorem packWord_byte {n i : ℕ} (hi : i < n) (byte : ℕ → UInt8) :
    UInt8.ofNat (packWord byte n / 256 ^ i) = byte i := by
  induction n generalizing i byte with
  | zero => exact absurd hi (Nat.not_lt_zero i)
  | succ n ih =>
    have hbyte := (byte 0).toNat_lt
    cases i with
    | zero =>
      rw [pow_zero, Nat.div_one, packWord, ← UInt8.toNat_inj, UInt8.toNat_ofNat']
      omega
    | succ i =>
      have hdiv : packWord byte (n + 1) / 256 ^ (i + 1) =
          packWord (fun i => byte (i + 1)) n / 256 ^ i := by
        rw [pow_succ', ← Nat.div_div_eq_div_mul, packWord]
        congr 1
        omega
      rw [hdiv]
      exact ih (by omega) fun i => byte (i + 1)

/-- The words that do not meet the range stay. -/
theorem writeBytes_physicalMemory {w : ℕ} (hw : w + 8 ≤ address ∨ address + size ≤ w) :
    (m.writeBytes address size content).physicalMemory w = m.physicalMemory w :=
  if_pos hw

end PhysicalMemoryManager

end TwistedOS
