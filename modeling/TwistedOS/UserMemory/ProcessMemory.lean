import TwistedOS.Memory.VirtualMemoryManager

/-!
# The memory of a user process

The records that a process keeps of its memory mappings, the layout of its image, heap and stack,
and the search for a free range of virtual addresses, from `TranslationLayer.cpp`. All addresses are
64-bit words, and sums of them wrap around.

## Main definitions

* `VirtualAddressSpace`, `ProcessMemoryMapping`, `UserMemory`: the state.
* `rangesOverlap`, `alignUpToPageBoundary`.
* `UserMemory.mappingOverlapsReservedProcessLayout`, `UserMemory.findAvailableMappingSlot`,
  `UserMemory.registerProcessMapping`, `UserMemory.rangeHasAnyMappedPage`,
  `UserMemory.findFreeMappingAddress`.
-/

namespace TwistedOS

/-- `MAX_MEMORY_MAPPINGS_PER_PROCESS`. -/
def maxMemoryMappingsPerProcess : ℕ := 1024

/-- `MMAP_DEFAULT_BASE`. -/
def mmapDefaultBase : ℕ := 0x1000000

/-- `MMAP_HIGH_BASE`. -/
def mmapHighBase : ℕ := 0x100000000

/-- `MMAP_PROBE_STEP`. -/
def mmapProbeStep : ℕ := pageSize * 512

/-- Where the image, the heap and the stack of a process lie. `memoryRegions` are the virtual
address and the size of each region of an ELF image; an image of another type has none. -/
structure VirtualAddressSpace where
  memoryRegions : List (ℕ × ℕ)
  codeVirtualAddressStart : ℕ
  codeSize : ℕ
  heapPhysicalAddress : ℕ
  heapVirtualAddressStart : ℕ
  heapSize : ℕ
  stackVirtualAddressStart : ℕ
  stackSize : ℕ
  pageMapL4TableAddr : ℕ
  deriving Repr

/-- A record of a memory mapping. -/
structure ProcessMemoryMapping where
  inUse : Bool
  virtualAddressStart : ℕ
  length : ℕ
  physicalAddressStart : ℕ
  isAnonymous : Bool
  deriving DecidableEq, Repr

/-- The record of an empty slot, `ProcessMemoryMapping {}`. -/
def ProcessMemoryMapping.empty : ProcessMemoryMapping := ⟨false, 0, 0, 0, false⟩

/-- The running user process, as far as its memory goes, and the allocator. -/
structure UserMemory where
  pmm : PhysicalMemoryManager
  addressSpace : VirtualAddressSpace
  memoryMappings : ℕ → ProcessMemoryMapping
  programBreak : ℕ

/-! ### Ranges -/

/-- `AlignDownToPageBoundary`. -/
def alignDownToPageBoundary (address : ℕ) : ℕ := address &&& physPageAddrMask

/-- `AlignUpToPageBoundary`. -/
def alignUpToPageBoundary (value : ℕ) : ℕ :=
  if value = 0 then 0
  else if uint64Max - (pageSize - 1) < value then 0
  else (value + pageSize - 1) &&& physPageAddrMask

/-- `RangesOverlap`. Two ranges, of which one wraps around, count as overlapping. -/
def rangesOverlap (startA lengthA startB lengthB : ℕ) : Bool :=
  if lengthA = 0 ∨ lengthB = 0 then false
  else
    let endA := u64 (startA + lengthA)
    let endB := u64 (startB + lengthB)
    if endA < startA ∨ endB < startB then true
    else decide (startA < endB ∧ startB < endA)

/-- `IsVirtualAddressMapped`. -/
def PhysicalMemoryManager.isVirtualAddressMapped (m : PhysicalMemoryManager)
    (pageMapL4TableAddr address : ℕ) : Bool :=
  if pageMapL4TableAddr = 0 then false
  else
    let pml4Address := normalizeTablePhysicalAddress pageMapL4TableAddr
    if pml4Address = 0 then false
    else
      let pml4Entry := m.entry pml4Address (pml4Index address)
      if ¬ entryPresent pml4Entry then false
      else
        let pdptAddress := normalizeTablePhysicalAddress (entryAddress pml4Entry)
        if pdptAddress = 0 then false
        else
          let pdptEntry := m.entry pdptAddress (pdptIndex address)
          if ¬ entryPresent pdptEntry then false
          else if entrySize pdptEntry then true
          else
            let pdAddress := normalizeTablePhysicalAddress (entryAddress pdptEntry)
            if pdAddress = 0 then false
            else
              let pdEntry := m.entry pdAddress (pdIndex address)
              if ¬ entryPresent pdEntry then false
              else if entrySize pdEntry then true
              else
                let ptAddress := normalizeTablePhysicalAddress (entryAddress pdEntry)
                if ptAddress = 0 then false
                else entryPresent (m.entry ptAddress (ptIndex address))

/-- The ranges of the image, the heap and the stack. -/
def VirtualAddressSpace.reservedRanges (a : VirtualAddressSpace) : List (ℕ × ℕ) :=
  a.memoryRegions ++ [(a.codeVirtualAddressStart, a.codeSize),
    (a.heapVirtualAddressStart, a.heapSize), (a.stackVirtualAddressStart, a.stackSize)]

namespace UserMemory

/-! ### Records -/

/-- The slots of the mapping table. -/
def slots : List ℕ := List.range maxMemoryMappingsPerProcess

/-- Stores a record in a slot. -/
def setMapping (s : UserMemory) (slot : ℕ) (mapping : ProcessMemoryMapping) : UserMemory :=
  { s with memoryMappings := Function.update s.memoryMappings slot mapping }

/-- Replaces the allocator and its memory. -/
def setPmm (s : UserMemory) (m : PhysicalMemoryManager) : UserMemory := { s with pmm := m }

/-- The address of the first table of the process. -/
def pageMapL4TableAddr (s : UserMemory) : ℕ := s.addressSpace.pageMapL4TableAddr

/-- `MappingOverlapsReservedProcessLayout`. -/
def mappingOverlapsReservedProcessLayout (s : UserMemory) (mappingStart mappingLength : ℕ) : Bool :=
  s.addressSpace.reservedRanges.any fun r => rangesOverlap mappingStart mappingLength r.1 r.2

/-- `FindAvailableMappingSlot`. -/
def findAvailableMappingSlot (s : UserMemory) : Option ℕ :=
  slots.find? fun i => !(s.memoryMappings i).inUse

/-- `RegisterProcessMapping`. -/
def registerProcessMapping (s : UserMemory) (mappingStart mappingLength physicalStart : ℕ)
    (isAnonymous : Bool) : UserMemory × Bool :=
  match s.findAvailableMappingSlot with
  | none => (s, false)
  | some slot =>
    (s.setMapping slot ⟨true, mappingStart, mappingLength, physicalStart, isAnonymous⟩, true)

/-! ### The search for a free range -/

/-- `RangeHasAnyMappedPage`. A range that wraps around counts as mapped. -/
def rangeHasAnyMappedPage (s : UserMemory) (mappingStart mappingLength : ℕ) : Bool :=
  if mappingLength = 0 then true
  else if s.pageMapL4TableAddr = 0 then true
  else
    let rangeStart := alignDownToPageBoundary mappingStart
    let rangeEnd := alignUpToPageBoundary (u64 (mappingStart + mappingLength))
    if rangeEnd ≤ rangeStart then true
    else
      (List.range ((rangeEnd - rangeStart) / pageSize)).any fun i =>
        s.pmm.isVirtualAddressMapped s.pageMapL4TableAddr (rangeStart + i * pageSize)

/-- The largest end of a region of an ELF image. -/
def highestELFEnd (a : VirtualAddressSpace) : ℕ :=
  a.memoryRegions.foldl
    (fun highest r =>
      let regionStart := alignDownToPageBoundary r.1
      let regionEnd := alignUpToPageBoundary (u64 (r.1 + r.2))
      if regionEnd > regionStart ∧ regionEnd > highest then regionEnd else highest) 0

/-- The address at which the search starts. -/
def firstCandidate (s : UserMemory) (startHint : ℕ) : ℕ :=
  let candidate := alignDownToPageBoundary startHint
  let candidate :=
    if candidate = 0 then
      let elfEnd := highestELFEnd s.addressSpace
      let suggestedStart :=
        if elfEnd ≠ 0 ∧ elfEnd ≤ uint64Max - pageSize then elfEnd + pageSize else 0
      let suggestedStart :=
        if suggestedStart = 0 then
          let heapEnd := alignUpToPageBoundary
            (u64 (s.addressSpace.heapVirtualAddressStart + s.addressSpace.heapSize))
          if heapEnd ≠ 0 ∧ heapEnd ≤ uint64Max - pageSize then heapEnd + pageSize else 0
        else suggestedStart
      if suggestedStart ≠ 0 then suggestedStart else mmapDefaultBase
    else candidate
  if startHint = 0 ∧ candidate < mmapHighBase then mmapHighBase else candidate

/-- The ranges that a new mapping must not overlap: image, heap, stack and the recorded mappings. -/
def occupiedRanges (s : UserMemory) : List (ℕ × ℕ) :=
  s.addressSpace.reservedRanges ++
    ((slots.map s.memoryMappings).filter fun mapping => mapping.inUse).map fun mapping =>
      (mapping.virtualAddressStart, mapping.length)

/-- `UpdateOverlapEnd`: whether a range so far overlaps, and the largest end of those that do. -/
def updateOverlapEnd (candidate mappingLength : ℕ) (acc : Bool × ℕ) (r : ℕ × ℕ) : Bool × ℕ :=
  if r.2 = 0 then acc
  else if ¬ rangesOverlap candidate mappingLength r.1 r.2 then acc
  else
    let regionEnd := alignUpToPageBoundary (u64 (r.1 + r.2))
    let regionEnd := if regionEnd = 0 then u64 (r.1 + r.2) else regionEnd
    (true, if regionEnd > acc.2 then regionEnd else acc.2)

/-- What overlaps a candidate range. -/
def overlapOf (s : UserMemory) (candidate mappingLength : ℕ) : Bool × ℕ :=
  s.occupiedRanges.foldl (updateOverlapEnd candidate mappingLength) (false, 0)

/-- The candidate is the address that the search returns. -/
def isFreeCandidate (s : UserMemory) (candidate mappingLength : ℕ) : Bool :=
  !(s.overlapOf candidate mappingLength).1 && !s.rangeHasAnyMappedPage candidate mappingLength

/-- The address at which the search goes on behind a candidate; there may be none. -/
def nextCandidate (s : UserMemory) (candidate mappingLength : ℕ) : Option ℕ :=
  let (hasOverlap, overlapEnd) := s.overlapOf candidate mappingLength
  let next :=
    if hasOverlap then alignUpToPageBoundary overlapEnd
    else if uint64Max - mmapProbeStep < candidate then 0
    else alignUpToPageBoundary (candidate + mmapProbeStep)
  if next = 0 then none else some next

/-- The loop of `findFreeMappingAddress`. -/
def findFreeLoop (s : UserMemory) (mappingLength : ℕ) : ℕ → ℕ → ℕ
  | 0, _ => 0
  | attempts + 1, candidate =>
    if s.isFreeCandidate candidate mappingLength then candidate
    else
      match s.nextCandidate candidate mappingLength with
      | none => 0
      | some next => findFreeLoop s mappingLength attempts next

/-- `FindFreeMappingAddress`; the address `0` reports failure. -/
def findFreeMappingAddress (s : UserMemory) (startHint mappingLength : ℕ) : ℕ :=
  s.findFreeLoop mappingLength (1024 * 1024) (s.firstCandidate startHint)

end UserMemory

end TwistedOS
