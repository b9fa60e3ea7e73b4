import TwistedOS.Elf.ElfAddressSpace
import TwistedOS.Logic.LogicLayer
import TwistedOS.Memory.AddressTranslation
import TwistedOS.UserMemory.ProcessMemory

/-!
# Copies between the kernel and user memory

`CopyFromUserToKernel` and `CopyFromKernelToUser` first look for the range in the regions of the
process that runs, then walk through its page tables for every page, and last let the processor
copy the bytes with these tables. A copy that the processor cannot make ends in a page fault.

The kernel reads the tables of the process where they are in physical memory. Bits 44 to 51 of an
address in a table are bits of the kernel to it.

## Main definitions

* `UserProcess`, `CopyState`.
* `PhysicalMemoryManager.isUserAccessiblePageMapped`.
* `CopyState.isUserAddressRangeMappedByPageTables`, `CopyState.isUserAddressRangeAccessible`.
* `CopyState.copyFromUserToKernel`, `CopyState.copyFromKernelToUser`.
-/

namespace TwistedOS

/-- `TABLE_ADDRESS_SOFTWARE_BITS_MASK` and `MAPPED_ADDRESS_SOFTWARE_BITS_MASK`. -/
def addressSoftwareBitsMask : ℕ := 0x000FF00000000000

/-- `IsValidMappedPhysicalAddress`. -/
def isValidMappedPhysicalAddress (address : ℕ) : Bool :=
  if address = 0 then false
  else if address &&& (pageSize - 1) ≠ 0 then false
  else if address &&& 0xFFFF000000000000 ≠ 0 then false
  else decide (address < 0x100000000)

/-- `NormalizeMappedPhysicalAddress`. -/
def normalizeMappedPhysicalAddress (address : ℕ) : ℕ :=
  if isValidMappedPhysicalAddress address then address
  else
    let sanitizedAddress := clearBits address addressSoftwareBitsMask
    if isValidMappedPhysicalAddress sanitizedAddress then sanitizedAddress else 0

/-- `IsLowerCanonicalUserRange`. -/
def isLowerCanonicalUserRange (address count : ℕ) : Bool :=
  if count = 0 then isLowerCanonicalUserAddress address
  else
    let endInclusive := u64 (address + (count - 1))
    if endInclusive < address then false
    else isLowerCanonicalUserAddress address && isLowerCanonicalUserAddress endInclusive

/-- `IsRangeWithin`. -/
def isRangeWithin (rangeStart rangeSize address count : ℕ) : Bool :=
  if rangeSize = 0 then false
  else if address < rangeStart then false
  else
    let rangeEnd := u64 (rangeStart + rangeSize)
    if rangeEnd < rangeStart then false
    else
      let accessEnd := u64 (address + count)
      if accessEnd < address then false else decide (accessEnd ≤ rangeEnd)

/-- `IsRangeWithinAnyELFRegion`. -/
def isRangeWithinAnyElfRegion (addressSpace : VirtualAddressSpace) (address count : ℕ) : Bool :=
  addressSpace.memoryRegions.any fun region =>
    if region.2 = 0 then false
    else
      let regionStart := alignDownToPage region.1
      let regionEnd := alignUpToPage (u64 (region.1 + region.2))
      if regionEnd ≤ regionStart then false
      else isRangeWithin regionStart (regionEnd - regionStart) address count

namespace PhysicalMemoryManager

variable (m : PhysicalMemoryManager)

/-- `IsUserAccessiblePageMapped`. -/
def isUserAccessiblePageMapped (pageMapL4TableAddr address : ℕ) : Bool :=
  if pageMapL4TableAddr = 0 then false
  else
    let pml4Address := normalizeTablePhysicalAddress pageMapL4TableAddr
    if pml4Address = 0 then false
    else
      let pml4Entry := m.entry pml4Address (pml4Index address)
      if !entryPresent pml4Entry || !entryUserAccess pml4Entry then false
      else
        let pdptAddress := normalizeTablePhysicalAddress (entryAddress pml4Entry)
        if pdptAddress = 0 then false
        else
          let pdptEntry := m.entry pdptAddress (pdptIndex address)
          if !entryPresent pdptEntry || !entryUserAccess pdptEntry then false
          else if entrySize pdptEntry then
            let largePageAddress := normalizeMappedPhysicalAddress (entryAddress pdptEntry)
            !(decide (largePageAddress = 0) || largePageAddress &&& (2 ^ 30 - 1) != 0)
          else
            let pdAddress := normalizeTablePhysicalAddress (entryAddress pdptEntry)
            if pdAddress = 0 then false
            else
              let pdEntry := m.entry pdAddress (pdIndex address)
              if !entryPresent pdEntry || !entryUserAccess pdEntry then false
              else if entrySize pdEntry then
                let largePageAddress := normalizeMappedPhysicalAddress (entryAddress pdEntry)
                !(decide (largePageAddress = 0) || largePageAddress &&& (2 ^ 21 - 1) != 0)
              else
                let ptAddress := normalizeTablePhysicalAddress (entryAddress pdEntry)
                if ptAddress = 0 then false
                else
                  let ptEntry := m.entry ptAddress (ptIndex address)
                  if !entryPresent ptEntry || !entryUserAccess ptEntry then false
                  else
                    let pageAddress := normalizeMappedPhysicalAddress (entryAddress ptEntry)
                    !(decide (pageAddress = 0) || pageAddress &&& (pageSize - 1) != 0)

/-- The loop of `IsUserAddressRangeMappedByPageTables` over the pages, for at most `fuel` pages. -/
def pagesMapped (pageMapL4TableAddr endPage : ℕ) : ℕ → ℕ → Bool
  | 0, _ => false
  | fuel + 1, pageAddress =>
    if endPage < pageAddress then true
    else if !m.isUserAccessiblePageMapped pageMapL4TableAddr pageAddress then false
    else if uint64Max - pageSize < pageAddress then true
    else pagesMapped pageMapL4TableAddr endPage fuel (pageAddress + pageSize)

/-! ### The processor -/

/-- The byte that the processor reads at a virtual address. -/
def loadByte (pageMapL4TableAddr virtualAddress : ℕ) : Option UInt8 :=
  (m.translation pageMapL4TableAddr virtualAddress).map fun t =>
    m.bytes (t.page + virtualAddress % pageSize)

/-- The memory once the processor has written a byte, in supervisor mode. -/
def storeByte (writeProtect : Bool) (pageMapL4TableAddr virtualAddress : ℕ) (byte : UInt8) :
    Option PhysicalMemoryManager :=
  match m.translation pageMapL4TableAddr virtualAddress with
  | none => none
  | some t =>
    if writeProtect && !t.writeable then none
    else some (m.writeBytes (t.page + virtualAddress % pageSize) 1 fun _ => byte)

/-- `memcpy` in supervisor mode; nothing is returned where a page fault ends it. -/
def memcpy (writeProtect : Bool) (pageMapL4TableAddr : ℕ) :
    PhysicalMemoryManager → ℕ → ℕ → ℕ → Option PhysicalMemoryManager
  | m, _, _, 0 => some m
  | m, destination, source, count + 1 =>
    (m.loadByte pageMapL4TableAddr source).bind fun byte =>
      (m.storeByte writeProtect pageMapL4TableAddr destination byte).bind fun m' =>
        memcpy writeProtect pageMapL4TableAddr m' (u64 (destination + 1)) (u64 (source + 1)) count

end PhysicalMemoryManager

/-! ### The logic layer -/

/-- The part of `Process` that the checks of user ranges read. -/
structure UserProcess where
  /-- `Level` is `PROCESS_LEVEL_USER`. -/
  isUser : Bool
  /-- `FileType` is `FILE_TYPE_ELF`. -/
  isElf : Bool
  addressSpace : Option VirtualAddressSpace
  memoryMappings : ℕ → ProcessMemoryMapping

/-- `IsRangeWithinAnyProcessMapping`. -/
def UserProcess.isRangeWithinAnyProcessMapping (p : UserProcess) (address count : ℕ) : Bool :=
  (List.range maxMemoryMappingsPerProcess).any fun slot =>
    let mapping := p.memoryMappings slot
    mapping.inUse && isRangeWithin mapping.virtualAddressStart mapping.length address count

/-- The part of `LogicLayer` and of the processor that copies use. -/
structure CopyState where
  memory : PhysicalMemoryManager
  /-- `PM` is not null. -/
  hasProcessManager : Bool := true
  /-- `Resource` is not null. -/
  hasResource : Bool := true
  runningProcess : Option UserProcess
  /-- `CR3`. -/
  currentPageTable : ℕ
  kernelPageMapL4TableAddr : ℕ
  /-- The bit `WP` of `CR0`: the processor checks the writes of supervisor mode. -/
  writeProtect : Bool

namespace CopyState

variable (s : CopyState)

/-- `LoadPageTable`. -/
def loadPageTable (pageMapL4TableAddr : ℕ) : CopyState :=
  if pageMapL4TableAddr = 0 then s else { s with currentPageTable := pageMapL4TableAddr }

/-- Replaces the memory. -/
def setMemory (memory : PhysicalMemoryManager) : CopyState := { s with memory := memory }

/-- The state once a check has loaded the page table of the kernel and restored the one before. -/
def afterTableCheck : CopyState :=
  if s.hasResource then
    (s.loadPageTable s.kernelPageMapL4TableAddr).loadPageTable s.currentPageTable
  else s

/-- `IsUserAddressRangeMappedByPageTables`. -/
def isUserAddressRangeMappedByPageTables (p : UserProcess) (address count : ℕ) :
    CopyState × Bool :=
  match p.addressSpace with
  | none => (s, false)
  | some addressSpace =>
    if count = 0 then (s, true)
    else if addressSpace.pageMapL4TableAddr = 0 then (s, false)
    else
      let startPage := alignDownToPage address
      let endPage := alignDownToPage (u64 (address + (count - 1)))
      (s.afterTableCheck, s.memory.pagesMapped addressSpace.pageMapL4TableAddr endPage
        (endPage / pageSize + 2) startPage)

/-- `IsUserAddressRangeAccessible`. -/
def isUserAddressRangeAccessible (p : UserProcess) (address count : ℕ) : CopyState × Bool :=
  if count = 0 then (s, true)
  else
    match p.addressSpace with
    | none => (s, false)
    | some addressSpace =>
      if !p.isUser then (s, false)
      else if !isLowerCanonicalUserRange address count then (s, false)
      else if p.isElf && isRangeWithinAnyElfRegion addressSpace address count then (s, true)
      else if !p.isElf && isRangeWithin addressSpace.codeVirtualAddressStart addressSpace.codeSize
        address count then (s, true)
      else if isRangeWithin addressSpace.heapVirtualAddressStart addressSpace.heapSize address
        count then (s, true)
      else if isRangeWithin addressSpace.stackVirtualAddressStart addressSpace.stackSize address
        count then (s, true)
      else if p.isRangeWithinAnyProcessMapping address count then (s, true)
      else s.isUserAddressRangeMappedByPageTables p address count

/-- The copy of `CopyFromUserToKernel` and `CopyFromKernelToUser` with the tables of the process. -/
def copyWithTables (userPageTable destination source count : ℕ) : Option (CopyState × Bool) :=
  if s.currentPageTable = 0 then some (s, false)
  else
    ((s.memory.memcpy s.writeProtect (entryAddress userPageTable) destination source count)).map
      fun memory => (s.setMemory memory, true)

/-- The checks that `CopyFromUserToKernel` and `CopyFromKernelToUser` share, for the range of the
user, and the copy. -/
def checkedCopy (userAddress destination source count : ℕ) : Option (CopyState × Bool) :=
  if (source = 0 ∧ count ≠ 0) ∨ (destination = 0 ∧ count ≠ 0) then some (s, false)
  else if count = 0 then some (s, true)
  else if !s.hasProcessManager then some (s, false)
  else
    match s.runningProcess with
    | none => some (s, false)
    | some p =>
      match s.isUserAddressRangeAccessible p userAddress count with
      | (s, false) => some (s, false)
      | (s, true) =>
        match s.hasResource, p.addressSpace with
        | true, some addressSpace =>
          if addressSpace.pageMapL4TableAddr = 0 then some (s, false)
          else
            match s.isUserAddressRangeMappedByPageTables p userAddress count with
            | (s, false) => some (s, false)
            | (s, true) =>
              s.copyWithTables addressSpace.pageMapL4TableAddr destination source count
        | _, _ => some (s, false)

/-- `CopyFromUserToKernel`. -/
def copyFromUserToKernel (userSource kernelDestination count : ℕ) : Option (CopyState × Bool) :=
  s.checkedCopy userSource kernelDestination userSource count

/-- `CopyFromKernelToUser`. -/
def copyFromKernelToUser (kernelSource userDestination count : ℕ) : Option (CopyState × Bool) :=
  s.checkedCopy userDestination userDestination kernelSource count

end CopyState

end TwistedOS
