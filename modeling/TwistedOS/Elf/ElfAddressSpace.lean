import TwistedOS.Elf.ElfManager
import TwistedOS.Memory.PhysicalBytes
import TwistedOS.Memory.VirtualMemoryManager

/-!
# Address spaces of ELF images

The loadable segments of an image become regions of the address space. The part of a segment that is
in the file is mapped in place, where the image lies in physical memory; the rest of its last page
is cleared there, and pages are allocated for what is left of the segment.

## Main definitions

* `ElfMemoryRegion`, `VirtualAddressSpaceElf`.
* `ElfLoad.appendElfLoadSegments`: the regions of the segments of an image.
* `VirtualAddressSpaceElf.init`: maps the regions, the heap and the stack.
-/

namespace TwistedOS

/-- `USER_PROCESS_STACK_SIZE`. -/
def userProcessStackSize : ℕ := 64 * pageSize

/-- `USER_PROCESS_HEAP_SIZE`. -/
def userProcessHeapSize : ℕ := 2 * pageSize

/-- `USER_PROCESS_VIRTUAL_BASE`. -/
def userProcessVirtualBase : ℕ := 0x400000

/-- `USER_PROCESS_VIRTUAL_STACK_TOP`. -/
def userProcessVirtualStackTop : ℕ := 0x00007FFFFFFFFFFF

/-- `ELF_INTERPRETER_LOAD_BIAS`. -/
def elfInterpreterLoadBias : ℕ := 0x100000000

/-- `VirtualAddressSpaceELF::MaxMemoryRegions`. -/
def maxMemoryRegions : ℕ := 16

/-- `AlignUpToPage`. -/
def alignUpToPage (value : ℕ) : ℕ := u64 (value + pageSize - 1) / pageSize * pageSize

/-- `AlignDownToPage`. -/
def alignDownToPage (value : ℕ) : ℕ := value / pageSize * pageSize

/-- `ELFMemoryRegion`. -/
structure ElfMemoryRegion where
  physicalAddress : ℕ
  virtualAddress : ℕ
  size : ℕ
  writable : Bool
  deriving DecidableEq, Repr

/-- `VirtualAddressSpaceELF`. -/
structure VirtualAddressSpaceElf where
  codePhysicalAddress : ℕ
  codeSize : ℕ
  codeVirtualAddressStart : ℕ
  heapPhysicalAddress : ℕ
  heapSize : ℕ
  heapVirtualAddressStart : ℕ
  stackPhysicalAddress : ℕ
  stackSize : ℕ
  stackVirtualAddressStart : ℕ
  pageMapL4TableAddr : ℕ
  memoryRegions : List ElfMemoryRegion
  deriving DecidableEq, Repr

/-- The memory and the regions while segments are appended. -/
structure ElfLoad where
  manager : PhysicalMemoryManager
  memoryRegions : List ElfMemoryRegion

/-! ### Segments -/

/-- Clears a range of bytes unless it starts at a null pointer. -/
def zeroPhysicalBackedBuffer (m : PhysicalMemoryManager) (destination size : ℕ) :
    Option PhysicalMemoryManager :=
  if destination = 0 then none
  else if size = 0 then some m
  else some (m.writeBytes destination size fun _ => 0)

/-- `GetELFLoadBias`. -/
def getElfLoadBias (header : ElfHeader) (isInterpreter : Bool) : ℕ :=
  if header.type ≠ elfTypeDyn then 0
  else if isInterpreter then elfInterpreterLoadBias else userProcessVirtualBase

namespace ElfLoad

/-- Appends a region if there is room. -/
def addMemoryRegion (s : ElfLoad) (region : ElfMemoryRegion) : ElfLoad × Bool :=
  if maxMemoryRegions ≤ s.memoryRegions.length then (s, false)
  else ({ s with memoryRegions := s.memoryRegions ++ [region] }, true)

/-- The region of the part of a segment that is in the file. -/
def addFileRegion (s : ElfLoad) (imageAddress segmentVirtualAddress : ℕ)
    (header : ElfProgramHeader64) : ElfLoad × Bool :=
  if header.fileSize = 0 then (s, true)
  else
    s.addMemoryRegion
      { physicalAddress := u64 (imageAddress + header.offset)
        virtualAddress := segmentVirtualAddress
        size := header.fileSize
        writable := header.isWritableSegment }

/-- Clears the rest of the page behind the part that is in the file, within the image, and appends
its region. -/
def addBssTail (s : ElfLoad) (imageAddress bssVirtualStart bssTailBytes : ℕ)
    (header : ElfProgramHeader64) : ElfLoad × Bool :=
  let bssTailPhysical := u64 (imageAddress + header.offset + header.fileSize)
  match zeroPhysicalBackedBuffer s.manager bssTailPhysical bssTailBytes with
  | none => (s, false)
  | some m =>
    { s with manager := m }.addMemoryRegion
      { physicalAddress := bssTailPhysical
        virtualAddress := bssVirtualStart
        size := bssTailBytes
        writable := header.isWritableSegment }

/-- Allocates and clears pages for the rest of the segment and appends their region. -/
def addBss (fuel : ℕ) (s : ElfLoad) (bssVirtualStart bssRemaining : ℕ)
    (header : ElfProgramHeader64) : Option (ElfLoad × Bool) :=
  let bssPages := u64 (bssRemaining + pageSize - 1) / pageSize
  match s.manager.allocatePagesFromDescriptor bssPages with
  | (m, 0) => some ({ s with manager := m }, false)
  | (m, bssPhysical) =>
    let s := { s with manager := m.writeBytes bssPhysical (bssPages * pageSize) fun _ => 0 }
    match s.addMemoryRegion
      { physicalAddress := bssPhysical
        virtualAddress := bssVirtualStart
        size := bssRemaining
        writable := header.isWritableSegment } with
    | (s, true) => some (s, true)
    | (s, false) =>
      (s.manager.freePagesFromDescriptor fuel bssPhysical bssPages).map fun r =>
        ({ s with manager := r.1 }, false)

/-- The part of a segment that is not in the file. -/
def addBssRegions (fuel : ℕ) (s : ElfLoad) (imageAddress segmentVirtualAddress : ℕ)
    (header : ElfProgramHeader64) : Option (ElfLoad × Bool) :=
  if header.memorySize ≤ header.fileSize then some (s, true)
  else
    let bssVirtualStart := u64 (segmentVirtualAddress + header.fileSize)
    let bssRemaining := header.memorySize - header.fileSize
    let bssTailBytes :=
      if bssVirtualStart % pageSize = 0 then 0
      else min bssRemaining (pageSize - bssVirtualStart % pageSize)
    match (if bssTailBytes = 0 then (s, true)
      else s.addBssTail imageAddress bssVirtualStart bssTailBytes header) with
    | (s, false) => some (s, false)
    | (s, true) =>
      if bssRemaining = bssTailBytes then some (s, true)
      else addBss fuel s (u64 (bssVirtualStart + bssTailBytes)) (bssRemaining - bssTailBytes) header

/-- Appends the regions of one program header; the result is `false` on failure. -/
def appendSegment (fuel : ℕ) (s : ElfLoad) (imageAddress imageSize loadBias : ℕ)
    (header : ElfProgramHeader64) : Option (ElfLoad × Bool) :=
  if ¬ header.isLoadableSegment then some (s, true)
  else if ¬ header.validateProgramSegment imageSize then some (s, false)
  else if uint64Max - loadBias < header.virtualAddress then some (s, false)
  else
    let segmentVirtualAddress := header.virtualAddress + loadBias
    match s.addFileRegion imageAddress segmentVirtualAddress header with
    | (s, false) => some (s, false)
    | (s, true) => s.addBssRegions fuel imageAddress segmentVirtualAddress header

/-- The loop over the program headers from `index` on. They are read from memory one by one. -/
def appendSegments (fuel imageAddress imageSize loadBias : ℕ) (header : ElfHeader) :
    (remaining index : ℕ) → ElfLoad → Option (ElfLoad × Bool)
  | 0, _, s => some (s, true)
  | remaining + 1, index, s =>
    match s.appendSegment fuel imageAddress imageSize loadBias
        (programHeaderAt s.manager.bytes imageAddress header index) with
    | some (s, true) =>
      appendSegments fuel imageAddress imageSize loadBias header remaining (index + 1) s
    | r => r

/-- `AppendELFLoadSegmentsToAddressSpace`. -/
def appendElfLoadSegments (fuel : ℕ) (s : ElfLoad) (imageAddress imageSize : ℕ)
    (header : ElfHeader) (loadBias : ℕ) : Option (ElfLoad × Bool) :=
  if ¬ header.validateProgramHeaderTable imageSize ∨ imageAddress = 0 then some (s, false)
  else
    appendSegments fuel imageAddress imageSize loadBias header header.programHeaderEntryCount 0 s

end ElfLoad

/-! ### Page tables -/

/-- The number of pages that a range of virtual addresses meets. -/
def getRequiredPageCount (virtualAddress size : ℕ) : ℕ :=
  if size = 0 then 0 else u64 (virtualAddress % pageSize + size + pageSize - 1) / pageSize

/-- Maps consecutive pages; the access of a page is given by its virtual address. -/
def mapUserPages (pageMapL4TableAddr physicalAddress virtualAddress : ℕ) (writable : ℕ → Bool) :
    ℕ → PhysicalMemoryManager → PhysicalMemoryManager × Bool
  | 0, m => (m, true)
  | pages + 1, m =>
    match mapUserPages pageMapL4TableAddr physicalAddress virtualAddress writable pages m with
    | (m, false) => (m, false)
    | (m, true) =>
      m.mapPage pageMapL4TableAddr (u64 (physicalAddress + pages * pageSize))
        (u64 (virtualAddress + pages * pageSize))
        ⟨true, writable (u64 (virtualAddress + pages * pageSize))⟩

/-- `MapUserRange`. -/
def mapUserRange (m : PhysicalMemoryManager)
    (pageMapL4TableAddr physicalAddress virtualAddress size : ℕ) : PhysicalMemoryManager × Bool :=
  mapUserPages pageMapL4TableAddr (physicalAddress &&& physPageAddrMask)
    (virtualAddress &&& physPageAddrMask) (fun _ => true) (getRequiredPageCount virtualAddress size)
    m

/-- The end of a region, or the last address. -/
def ElfMemoryRegion.endAddress (region : ElfMemoryRegion) : ℕ :=
  if region.size = 0 then region.virtualAddress
  else if uint64Max - region.size < region.virtualAddress then uint64Max
  else region.virtualAddress + region.size

namespace VirtualAddressSpaceElf

/-- Some writable region meets the page. -/
def isPageWritableInAnyRegion (regions : List ElfMemoryRegion) (virtualPageBase : ℕ) : Bool :=
  let virtualPageEnd :=
    if uint64Max - pageSize < virtualPageBase then uint64Max else virtualPageBase + pageSize
  regions.any fun region => region.writable && decide (region.size ≠ 0 ∧
    region.virtualAddress < virtualPageEnd ∧ virtualPageBase < region.endAddress)

/-- Maps a region; `regions` are all regions of the address space. -/
def mapRegion (regions : List ElfMemoryRegion) (pageMapL4TableAddr : ℕ)
    (m : PhysicalMemoryManager) (region : ElfMemoryRegion) : PhysicalMemoryManager × Bool :=
  mapUserPages pageMapL4TableAddr (region.physicalAddress &&& physPageAddrMask)
    (region.virtualAddress &&& physPageAddrMask)
    (fun page => region.writable || isPageWritableInAnyRegion regions page)
    (getRequiredPageCount region.virtualAddress region.size) m

/-- Maps regions one after the other until one fails. -/
def mapRegions (regions : List ElfMemoryRegion) (pageMapL4TableAddr : ℕ) :
    List ElfMemoryRegion → PhysicalMemoryManager → PhysicalMemoryManager × Bool
  | [], m => (m, true)
  | region :: rest, m =>
    match mapRegion regions pageMapL4TableAddr m region with
    | (m, false) => (m, false)
    | (m, true) => mapRegions regions pageMapL4TableAddr rest m

/-- Maps the regions, the heap and the stack into a page table, which becomes that of the address
space. -/
def init (as : VirtualAddressSpaceElf) (m : PhysicalMemoryManager) (pageMapL4TableAddr : ℕ) :
    PhysicalMemoryManager × Option VirtualAddressSpaceElf :=
  if pageMapL4TableAddr = 0 ∨ as.memoryRegions = [] then (m, none)
  else
    match mapRegions as.memoryRegions pageMapL4TableAddr as.memoryRegions m with
    | (m, false) => (m, none)
    | (m, true) =>
      match mapUserRange m pageMapL4TableAddr as.heapPhysicalAddress as.heapVirtualAddressStart
          as.heapSize with
      | (m, false) => (m, none)
      | (m, true) =>
        match mapUserRange m pageMapL4TableAddr as.stackPhysicalAddress
            as.stackVirtualAddressStart as.stackSize with
        | (m, false) => (m, none)
        | (m, true) => (m, some { as with pageMapL4TableAddr := pageMapL4TableAddr })

end VirtualAddressSpaceElf

end TwistedOS
