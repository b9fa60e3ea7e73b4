import TwistedOS.Memory.AddressTranslation

/-!
# The memory manager of the boot loader

The boot loader takes pages from the conventional descriptors of the firmware's memory map, one
descriptor after the other, for page tables and for the stack of the kernel. It maps every described
page and the framebuffer to itself and the kernel image to `KERNEL_BASE_VIRTUAL_ADDR`, and it hands
its cursor over to the kernel.

The blocks that were returned, and whether a request could not be served, are recorded beside the
state of the source.

## Main definitions

* `BootMemoryManager`, `BootMemoryManager.allocateAvailablePagesFromMemoryMap`.
* `BootMemoryManager.mapPage`, `BootMemoryManager.identityMapRange`, `BootMemoryManager.mapRange`,
  `BootMemoryManager.identityMapMemoryMap`.
* `BootInput.setupForKernel`: from the end of the boot services to the entry of the kernel.
-/

namespace TwistedOS

/-- `KERNEL_BASE_VIRTUAL_ADDR`. -/
def kernelBaseVirtualAddr : ℕ := 0xFFFFFFFF80000000

/-- `KERNEL_STACK_PAGES`. -/
def kernelStackPages : ℕ := 128

/-- The class `MemoryManager` of the boot loader, with the memory. -/
structure BootMemoryManager where
  memoryMap : List EfiMemoryDescriptor
  pageMapL4Table : ℕ
  nextPageAddress : ℕ
  currentDescriptor : ℕ
  remainingPagesInDescriptor : ℕ
  memory : ℕ → ℕ
  /-- The addresses and page counts of the blocks returned so far, the last one first. -/
  returned : List (ℕ × ℕ)
  /-- Some request found no descriptor that could serve it. -/
  exhausted : Bool

/-- What the boot loader gets from the firmware, and the files that it has loaded. -/
structure BootInput where
  memoryMap : List EfiMemoryDescriptor
  frameBufferBase : ℕ
  frameBufferSize : ℕ
  kernelBuffer : ℕ
  kernelSize : ℕ
  memory : ℕ → ℕ

/-- The state in which the kernel is entered. -/
structure KernelEntry where
  manager : BootMemoryManager
  /-- The first block of the stack. -/
  stackPhysicalAddr : ℕ
  kernelEndVirtual : ℕ
  /-- The stack pointer. -/
  rsp : ℕ

namespace BootMemoryManager

/-! ### Pages -/

/-- The search for a conventional descriptor with `pages` pages, from the descriptor `i` on. -/
def findDescriptor (pages : ℕ) :
    List EfiMemoryDescriptor → ℕ → Option (ℕ × EfiMemoryDescriptor)
  | [], _ => none
  | desc :: rest, i =>
    if desc.type = .conventionalMemory ∧ pages ≤ desc.numberOfPages then some (i, desc)
    else findDescriptor pages rest (i + 1)

/-- Records a block. -/
def recordBlock (m : BootMemoryManager) (address pages : ℕ) : BootMemoryManager :=
  { m with returned := (address, pages) :: m.returned }

/-- The rest of `AllocateAvailablePagesFromMemoryMap`, which takes the next pages. -/
def takeNextPages (m : BootMemoryManager) (pages : ℕ) : BootMemoryManager × ℕ :=
  let page := m.nextPageAddress
  ({ m with
      remainingPagesInDescriptor := u64 (m.remainingPagesInDescriptor + 2 ^ 64 - pages)
      nextPageAddress := u64 (page + pages * pageSize) }.recordBlock page pages, page)

/-- Takes pages from the current descriptor, or from the next one that has as many. If there is
none, the loop falls through to the code for the current descriptor. -/
def allocateAvailablePagesFromMemoryMap (m : BootMemoryManager) (pages : ℕ) :
    BootMemoryManager × ℕ :=
  if m.remainingPagesInDescriptor < pages then
    match findDescriptor pages (m.memoryMap.drop (m.currentDescriptor + 1))
        (m.currentDescriptor + 1) with
    | some (i, desc) =>
      ({ m with
          currentDescriptor := i
          remainingPagesInDescriptor := desc.numberOfPages - pages
          nextPageAddress := u64 (desc.physicalStart + pages * pageSize) }.recordBlock
        desc.physicalStart pages, desc.physicalStart)
    | none => { m with exhausted := true }.takeNextPages pages
  else m.takeNextPages pages

/-! ### Page tables -/

/-- The entry at an index of a table. -/
def entry (m : BootMemoryManager) (table index : ℕ) : ℕ := m.memory (table + 8 * index)

/-- Stores an entry. -/
def storeEntry (m : BootMemoryManager) (table index value : ℕ) : BootMemoryManager :=
  { m with memory := Function.update m.memory (table + 8 * index) value }

/-- Fills a page with zeros. -/
def clearPage (m : BootMemoryManager) (address : ℕ) : BootMemoryManager :=
  { m with memory := fun a => if address ≤ a ∧ a < address + pageSize then 0 else m.memory a }

/-- An entry with the fields `present` and `writeable` set and `user_access` cleared. -/
def bootEntry (value : ℕ) : ℕ :=
  clearBits (value ||| (entryFlagPresent ||| entryFlagWriteable)) entryFlagUser

/-- One of the three upper levels of a walk: the address of the next table, after it has been
created. -/
def enterTable (m : BootMemoryManager) (table index : ℕ) : BootMemoryManager × ℕ :=
  if entryPresent (m.entry table index) then (m, entryAddress (m.entry table index))
  else
    let (m, newTable) := m.allocateAvailablePagesFromMemoryMap 1
    let m := (m.clearPage newTable).storeEntry table index (bootEntry newTable)
    (m, entryAddress (m.entry table index))

/-- Maps a page unless its virtual page is mapped already. -/
def mapPage (m : BootMemoryManager) (physicalAddr virtualAddr : ℕ) : BootMemoryManager :=
  let (m, pageDirectoryPointerTable) := m.enterTable m.pageMapL4Table (pml4Index virtualAddr)
  let (m, pageDirectoryTable) := m.enterTable pageDirectoryPointerTable (pdptIndex virtualAddr)
  let (m, pageTable) := m.enterTable pageDirectoryTable (pdIndex virtualAddr)
  if entryPresent (m.entry pageTable (ptIndex virtualAddr)) then m
  else
    m.storeEntry pageTable (ptIndex virtualAddr) (bootEntry (physicalAddr &&& physPageAddrMask))

/-- Maps `pages` consecutive pages. -/
def mapPages (physical virtual : ℕ) : ℕ → BootMemoryManager → BootMemoryManager
  | 0, m => m
  | pages + 1, m =>
    (mapPages physical virtual pages m).mapPage (u64 (physical + pages * pageSize))
      (u64 (virtual + pages * pageSize))

/-- Maps a range of addresses to itself; the result is the end of the range. -/
def identityMapRange (m : BootMemoryManager) (baseAddr size : ℕ) : BootMemoryManager × ℕ :=
  let rangeStart := baseAddr &&& physPageAddrMask
  let pages := u64 (size + pageSize - 1) / pageSize
  let rangeEnd := u64 (rangeStart + pages * pageSize)
  (mapPages rangeStart rangeStart ((rangeEnd - rangeStart) / pageSize) m, rangeEnd)

/-- Maps a range of pages; the result is the end of the range. -/
def mapRange (m : BootMemoryManager) (physicalAddr virtualAddr pages : ℕ) :
    BootMemoryManager × ℕ :=
  let rangeStartPhysical := physicalAddr &&& physPageAddrMask
  let rangeStartVirtual := virtualAddr &&& physPageAddrMask
  (mapPages rangeStartPhysical rangeStartVirtual pages m,
    u64 (rangeStartVirtual + pages * pageSize))

/-- Maps the kernel image. -/
def mapKernelToHigherHalf (m : BootMemoryManager) (physicalAddr size : ℕ) :
    BootMemoryManager × ℕ :=
  m.mapRange physicalAddr kernelBaseVirtualAddr (u64 (size + pageSize - 1) / pageSize)

/-- Maps every described page to itself. -/
def identityMapMemoryMap (m : BootMemoryManager) : BootMemoryManager :=
  m.memoryMap.foldl (fun m desc => mapPages desc.physicalStart desc.physicalStart
    desc.numberOfPages m) m

/-- The constructor: the first page becomes the table of the first level. -/
def construct (memoryMap : List EfiMemoryDescriptor) (memory : ℕ → ℕ) : BootMemoryManager :=
  let (m, pageMapL4Table) := allocateAvailablePagesFromMemoryMap
    { memoryMap := memoryMap, pageMapL4Table := 0, nextPageAddress := 0, currentDescriptor := 0
      remainingPagesInDescriptor := 0, memory := memory, returned := [], exhausted := false } 1
  { m with pageMapL4Table := pageMapL4Table }.clearPage pageMapL4Table

end BootMemoryManager

/-- The part of `SetupForKernel` after the boot services have ended, up to the jump to the
kernel. -/
def BootInput.setupForKernel (input : BootInput) : KernelEntry :=
  let memoryMgr := BootMemoryManager.construct input.memoryMap input.memory
  let memoryMgr := memoryMgr.identityMapMemoryMap
  let (memoryMgr, _) := memoryMgr.identityMapRange input.frameBufferBase input.frameBufferSize
  let (memoryMgr, kernelEndVirtual) :=
    memoryMgr.mapKernelToHigherHalf input.kernelBuffer input.kernelSize
  let (memoryMgr, stackPhysicalAddr) :=
    memoryMgr.allocateAvailablePagesFromMemoryMap kernelStackPages
  let (memoryMgr, stackVirtualAddrEnd) :=
    memoryMgr.identityMapRange stackPhysicalAddr kernelStackPages
  { manager := memoryMgr
    stackPhysicalAddr := stackPhysicalAddr
    kernelEndVirtual := kernelEndVirtual
    rsp := stackVirtualAddrEnd }

end TwistedOS
