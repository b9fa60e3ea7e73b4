import TwistedOS.Data.TouchingRanges
import TwistedOS.Elf.ElfAddressSpace
import TwistedOS.Memory.PageTableRelease

/-!
# Releasing the memory of an ELF image

An ELF address space is torn down from its regions: the pages that they meet are collected as ranges
of physical addresses, touching ranges are merged, and each range is freed as one block. The heap
and the stack are freed as they were allocated, and then the tables of the lower half of the page
map.

## Main definitions

* `regionRange`, `collectRanges`: the ranges of the regions.
* `cleanUpElf`, `freeElfRegionsExcludingMainImage`.
-/

namespace TwistedOS

open TouchingRanges

/-- The physical pages of a region, from its first address to its end. -/
def regionRange (region : ElfMemoryRegion) : Option (ℕ × ℕ) :=
  if region.physicalAddress = 0 ∨ region.size = 0 then none
  else
    let start := alignDownToPage region.physicalAddress
    let pageCount :=
      u64 (region.virtualAddress % pageSize + region.size + pageSize - 1) / pageSize
    if pageCount = 0 then none else some (start, u64 (start + pageCount * pageSize))

/-- The merged ranges of the regions. Only as many are kept as there may be regions. -/
def collectRanges (regions : List ElfMemoryRegion) : List (ℕ × ℕ) :=
  regions.foldl (fun ranges region =>
    match regionRange region with
    | none => ranges
    | some range =>
      if (mergeTouching ranges.length range ranges).2.length < maxMemoryRegions then
        insertRange ranges range
      else (mergeTouching ranges.length range ranges).2) []

/-- The call that frees a range of addresses: the address and the number of pages. -/
def freeCall (range : ℕ × ℕ) : ℕ × ℕ := (range.1, (range.2 - range.1) / pageSize)

/-- The call for a block of `size` bytes, if there is one. -/
def blockCalls (address size : ℕ) : List (ℕ × ℕ) :=
  if address ≠ 0 ∧ size ≠ 0 then [(address, u64 (size + pageSize - 1) / pageSize)] else []

/-- The calls for the ranges of an address space. -/
def regionCalls (regions : List ElfMemoryRegion) : List (ℕ × ℕ) :=
  ((collectRanges regions).filter fun range => range.1 < range.2).map freeCall

/-- The calls for the heap and the stack. -/
def heapStackCalls (as : VirtualAddressSpaceElf) : List (ℕ × ℕ) :=
  blockCalls as.heapPhysicalAddress as.heapSize ++ blockCalls as.stackPhysicalAddress as.stackSize

/-- `CleanUpELF`. -/
def cleanUpElf (fuel : ℕ) (m : PhysicalMemoryManager) (as : VirtualAddressSpaceElf) :
    Option PhysicalMemoryManager :=
  (m.freeAll fuel (regionCalls as.memoryRegions ++ heapStackCalls as)).bind fun m =>
    m.freePageTableHierarchy fuel as.pageMapL4TableAddr

/-- The first address behind the main image, or its start if it has no pages. -/
def mainEnd (mainImageAddress mainImageSize : ℕ) : ℕ :=
  let mainStart := alignDownToPage mainImageAddress
  let mainPages := u64 (mainImageSize + pageSize - 1) / pageSize
  if mainPages ≠ 0 ∧ mainPages ≤ (uint64Max - mainStart) / pageSize then
    mainStart + mainPages * pageSize
  else mainStart

/-- The parts of a range outside the main image. -/
def partsOutside (mainStart mainEnd : ℕ) (range : ℕ × ℕ) : List (ℕ × ℕ) :=
  if range.2 ≤ range.1 then []
  else if mainEnd ≤ mainStart ∨ range.2 ≤ mainStart ∨ mainEnd ≤ range.1 then [range]
  else
    (if range.1 < mainStart then [(range.1, mainStart)] else []) ++
      if mainEnd < range.2 then [(mainEnd, range.2)] else []

/-- The calls for the ranges outside the main image. -/
def otherRegionCalls (regions : List ElfMemoryRegion) (mainImageAddress mainImageSize : ℕ) :
    List (ℕ × ℕ) :=
  ((collectRanges regions).flatMap (partsOutside (alignDownToPage mainImageAddress)
    (mainEnd mainImageAddress mainImageSize))).map freeCall

/-- `FreeELFRegionsExcludingMainImage`. -/
def freeElfRegionsExcludingMainImage (fuel : ℕ) (m : PhysicalMemoryManager)
    (regions : List ElfMemoryRegion) (mainImageAddress mainImageSize : ℕ) :
    Option PhysicalMemoryManager :=
  m.freeAll fuel (otherRegionCalls regions mainImageAddress mainImageSize)

end TwistedOS
