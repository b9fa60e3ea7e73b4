import Mathlib.Tactic.Ring

/-!
# Machine words and kernel parameters

The constants of `KernelParameters.hpp` that the modelled code reads, with one of
`ProcessManager.hpp`, and the results of unsigned machine arithmetic.
-/

namespace TwistedOS

/-- The value of a 64-bit register after a computation with result `n`. -/
def u64 (n : ℕ) : ℕ := n % 2 ^ 64

theorem u64_of_lt {n : ℕ} (h : n < 2 ^ 64) : u64 n = n := Nat.mod_eq_of_lt h

/-- The value of a 32-bit register after a computation with result `n`. -/
def u32 (n : ℕ) : ℕ := n % 2 ^ 32

theorem u32_of_lt {n : ℕ} (h : n < 2 ^ 32) : u32 n = n := Nat.mod_eq_of_lt h

/-- `UINT64_MAX`. -/
def uint64Max : ℕ := 2 ^ 64 - 1

/-- `KERNEL_PAGE_SIZE`. -/
def pageSize : ℕ := 4096

/-- `KERNEL_HEAP_PAGES`. -/
def kernelHeapPages : ℕ := 8192

/-- `MAX_OPEN_FILES_PER_PROCESS`. -/
def maxOpenFilesPerProcess : ℕ := 256

end TwistedOS
