import Mathlib
import TwistedOS.Boot.BootMemoryManager
import TwistedOS.Memory.BuddyOperations

/-!
# The hand-over to the kernel

What the kernel gets from the boot loader: the blocks of the page tables and of the stack, the page
tables, the stack pointer and the cursor in the memory map, from which the physical memory manager
selects the range that it manages.

The stack is mapped and entered with a page count where a size is expected, so that the stack
pointer is the end of the first page of the stack.

## Main definitions

* `BootInput.WellFormed`: what the firmware promises.
* `HandsOver`: the kernel gets memory that is its own.

## Main results

* `BootInput.stackPointer_eq`: the stack pointer is the end of the first page of the stack.
* `BootInput.handsOver_never`: no memory map leads to a correct hand-over.
-/

namespace TwistedOS

open RadixTree

/-! ### The hand-over -/

/-- The addresses of a descriptor. -/
def EfiMemoryDescriptor.range (desc : EfiMemoryDescriptor) : Set ℕ :=
  Set.Ico desc.physicalStart (desc.physicalStart + desc.numberOfPages * pageSize)

/-- The addresses of a block. -/
def blockRange (block : ℕ × ℕ) : Set ℕ := Set.Ico block.1 (block.1 + block.2 * pageSize)

/-- The addresses of the range that the physical memory manager selects. -/
def managedRange (boot : BootMemoryMap) : Set ℕ :=
  Set.Ico (PhysicalMemoryManager.selectedRange boot).physicalAddressStart
    ((PhysicalMemoryManager.selectedRange boot).physicalAddressStart +
      (PhysicalMemoryManager.selectedRange boot).totalNumberOfPages * pageSize)

/-- A set of addresses within one conventional descriptor. -/
def InConventional (memoryMap : List EfiMemoryDescriptor) (s : Set ℕ) : Prop :=
  ∃ desc ∈ memoryMap, desc.type = .conventionalMemory ∧ s ⊆ desc.range

/-- The page to which the tables of the boot loader translate a virtual address. -/
def BootMemoryManager.translatedPage (m : BootMemoryManager) (virtualAddress : ℕ) : Option ℕ :=
  (lookup (fun depth table (index : Fin 512) => translationEntry depth (m.entry table index)) 0
    m.pageMapL4Table (pagePath virtualAddress)).map fun walk => (translationOf walk).page

/-- The kernel reads the cursor of the boot loader. -/
structure BootMemoryManager.HandedOver (m : BootMemoryManager) (boot : BootMemoryMap) : Prop where
  descriptors : boot.descriptors = m.memoryMap
  nextPageAddress : boot.nextPageAddress = m.nextPageAddress
  currentDescriptor : boot.currentDescriptor = m.currentDescriptor
  remainingPagesInDescriptor : boot.remainingPagesInDescriptor = m.remainingPagesInDescriptor

/-- What the firmware promises: page-aligned, pairwise disjoint descriptors, and a kernel image
outside the conventional ones. -/
structure BootInput.WellFormed (input : BootInput) : Prop where
  aligned : ∀ desc ∈ input.memoryMap, desc.physicalStart % pageSize = 0
  disjoint : input.memoryMap.Pairwise fun d e => Disjoint d.range e.range
  kernel : ∀ desc ∈ input.memoryMap, desc.type = .conventionalMemory →
    Disjoint desc.range
      (Set.Ico input.kernelBuffer (input.kernelBuffer + input.kernelSize))

/-- The kernel is entered only if every request was served, and with memory that is its own. The
fields state the whole of it, although `rsp` alone refutes it. -/
structure HandsOver (input : BootInput) : Prop where
  served : input.setupForKernel.manager.exhausted = false
  inside : ∀ block ∈ input.setupForKernel.manager.returned,
    InConventional input.memoryMap (blockRange block)
  disjoint : input.setupForKernel.manager.returned.Pairwise fun b c =>
    Disjoint (blockRange b) (blockRange c)
  rsp : input.setupForKernel.rsp =
    input.setupForKernel.stackPhysicalAddr + kernelStackPages * pageSize
  described : ∀ desc ∈ input.memoryMap, ∀ i < desc.numberOfPages,
    input.setupForKernel.manager.translatedPage (desc.physicalStart + i * pageSize) =
      some (desc.physicalStart + i * pageSize)
  frameBuffer : ∀ i, i * pageSize < input.frameBufferBase % pageSize + input.frameBufferSize →
    input.setupForKernel.manager.translatedPage
        (input.frameBufferBase / pageSize * pageSize + i * pageSize) =
      some (input.frameBufferBase / pageSize * pageSize + i * pageSize)
  kernel : ∀ i, i * pageSize < input.kernelSize →
    input.setupForKernel.manager.translatedPage (kernelBaseVirtualAddr + i * pageSize) =
      some (input.kernelBuffer + i * pageSize)
  managed : ∀ boot, input.setupForKernel.manager.HandedOver boot →
    (PhysicalMemoryManager.selectedRange boot).totalNumberOfPages ≠ 0 →
      InConventional input.memoryMap (managedRange boot) ∧
      managedRange boot ⊆ Set.Iio pmmBuddyPhysicalLimit ∧
      ∀ block ∈ input.setupForKernel.manager.returned,
        Disjoint (blockRange block) (managedRange boot)

namespace BootInput

/-! ### The stack pointer -/

/-- The page count of the stack is taken for its size: the stack pointer is the end of the first
page. -/
theorem stackPointer_eq (input : BootInput) :
    input.setupForKernel.rsp =
      u64 ((input.setupForKernel.stackPhysicalAddr &&& physPageAddrMask) + pageSize) := by
  have hpages : u64 (kernelStackPages + pageSize - 1) / pageSize = 1 := by decide
  change u64 ((input.setupForKernel.stackPhysicalAddr &&& physPageAddrMask) +
    u64 (kernelStackPages + pageSize - 1) / pageSize * pageSize) = _
  rw [hpages, one_mul]

/-- The stack pointer is never the end of the stack. -/
theorem stackPointer_ne (input : BootInput) :
    input.setupForKernel.rsp ≠
      input.setupForKernel.stackPhysicalAddr + kernelStackPages * pageSize := by
  rw [stackPointer_eq, and_physPageAddrMask]
  generalize input.setupForKernel.stackPhysicalAddr = address
  simp only [u64, kernelStackPages, pageSize]
  omega

/-- On no memory map does the kernel get what it should: the stack pointer is always the end of the
first page of the stack. -/
theorem handsOver_never (input : BootInput) : ¬ HandsOver input := fun h =>
  stackPointer_ne input h.rsp

/-- A conventional descriptor of 256 MiB, the kernel image behind it and a framebuffer. -/
def oneRange : BootInput where
  memoryMap :=
    [⟨.bootServicesCode, 0, 0x100, by decide⟩,
      ⟨.conventionalMemory, 0x100000, 0x10000, by decide⟩,
      ⟨.loaderData, 0x10100000, 0x400, by decide⟩]
  frameBufferBase := 0xC0000000
  frameBufferSize := 0x300000
  kernelBuffer := 0x10100000
  kernelSize := 0x80000
  memory := fun _ => 0

theorem oneRange_wellFormed : oneRange.WellFormed where
  aligned := by decide
  disjoint := by
    simp [oneRange, EfiMemoryDescriptor.range, Set.Ico_disjoint_Ico, pageSize]
  kernel := by
    simp [oneRange, EfiMemoryDescriptor.range, Set.Ico_disjoint_Ico, pageSize]

/-- A well-formed memory map on which the stack pointer is the end of the first page of the
stack. -/
theorem not_handsOver_oneRange :
    oneRange.WellFormed ∧ ¬ HandsOver oneRange :=
  ⟨oneRange_wellFormed, fun h => stackPointer_ne oneRange h.rsp⟩

end BootInput

end TwistedOS
