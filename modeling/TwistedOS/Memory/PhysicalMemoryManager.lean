import TwistedOS.KernelParameters

/-!
# The physical memory manager

The buddy allocator of `PhysicalMemoryManager.cpp`. One range of the boot memory map is managed;
its free blocks are the nodes of singly linked lists, one list for each order, and the link of a
node is the first word of the free block itself. The machine word at a physical address is
`physicalMemory`, a null pointer is `0`, and every address computation is done modulo `2 ^ 64`.

The only loop of the allocator that a corrupted memory could keep from ending is the walk along a
free list; it takes the number of nodes it may visit as `fuel` and returns `none` when they do not
suffice.

## Main definitions

* `BootMemoryMap`: the firmware's memory map and how far the boot loader has used it.
* `PhysicalMemoryManager`: the allocator together with the memory that holds its free blocks.
* `PhysicalMemoryManager.initializeMemoryDescriptors`,
  `PhysicalMemoryManager.allocatePagesFromDescriptor`,
  `PhysicalMemoryManager.freePagesFromDescriptor`.
-/

namespace TwistedOS

/-- `MAX_BUDDY_ORDERS`. -/
def maxBuddyOrders : ℕ := 52

/-- `PMM_BUDDY_PHYSICAL_LIMIT`. -/
def pmmBuddyPhysicalLimit : ℕ := 0xC0000000

/-! ### The boot memory map -/

/-- `EFI_MEMORY_TYPE`. -/
inductive EfiMemoryType
  | reservedMemoryType | loaderCode | loaderData | bootServicesCode | bootServicesData
  | runtimeServicesCode | runtimeServicesData | conventionalMemory | unusableMemory
  | acpiReclaimMemory | acpiMemoryNvs | memoryMappedIo | memoryMappedIoPortSpace | palCode
  | persistentMemory | unacceptedMemoryType
  deriving DecidableEq, Repr

/-- One entry of the firmware's memory map: a range of the 64-bit physical address space. -/
structure EfiMemoryDescriptor where
  type : EfiMemoryType
  physicalStart : ℕ
  numberOfPages : ℕ
  end_lt : physicalStart + numberOfPages * pageSize < 2 ^ 64

/-- The memory map handed over by the boot loader. The loader has used up the descriptors below
`currentDescriptor`; of that one, `remainingPagesInDescriptor` pages from `nextPageAddress` on are
left. -/
structure BootMemoryMap where
  descriptors : List EfiMemoryDescriptor
  nextPageAddress : ℕ
  currentDescriptor : ℕ
  remainingPagesInDescriptor : ℕ
  end_lt : nextPageAddress + remainingPagesInDescriptor * pageSize < 2 ^ 64

/-! ### The state of the allocator -/

/-- The range of physical memory that the allocator manages. -/
structure MemoryDescriptor where
  physicalAddressStart : ℕ
  totalNumberOfPages : ℕ
  numberOfFreePages : ℕ
  bitMap : ℕ
  deriving DecidableEq, Repr

/-- The allocator and the memory in which its free blocks are linked. -/
structure PhysicalMemoryManager where
  memoryDescriptorInfo : MemoryDescriptor
  buddyFreeLists : ℕ → ℕ
  buddyMaxOrder : ℕ
  /-- The word at a physical address; for a free block, its `Next` pointer. -/
  physicalMemory : ℕ → ℕ

namespace PhysicalMemoryManager

/-- The loop of `floorLog2Pages`, with `remaining` orders left below the last one. -/
def floorLog2PagesLoop (pages : ℕ) : ℕ → ℕ → ℕ
  | 0, order => order
  | remaining + 1, order =>
    if 2 ^ (order + 1) ≤ pages then floorLog2PagesLoop pages remaining (order + 1) else order

/-- The largest order below `MAX_BUDDY_ORDERS` whose blocks have at most `pages` pages. -/
def floorLog2Pages (pages : ℕ) : ℕ :=
  if pages ≤ 1 then 0 else floorLog2PagesLoop pages (maxBuddyOrders - 1) 0

/-- The smallest order whose blocks have at least `pages` pages, or the last order. -/
def ceilLog2Pages (pages : ℕ) : ℕ :=
  if pages ≤ 1 then 0
  else
    let order := floorLog2Pages pages
    if 2 ^ order < pages ∧ order + 1 < maxBuddyOrders then order + 1 else order

/-- The number of pages of a block of the given order. -/
def pagesForOrder (order : ℕ) : ℕ := 2 ^ order

/-- Stores the head of the free list of an order. -/
def setHead (m : PhysicalMemoryManager) (order head : ℕ) : PhysicalMemoryManager :=
  { m with buddyFreeLists := Function.update m.buddyFreeLists order head }

/-- Stores the `Next` pointer of a free block. -/
def setNext (m : PhysicalMemoryManager) (block next : ℕ) : PhysicalMemoryManager :=
  { m with physicalMemory := Function.update m.physicalMemory block next }

/-- Stores the number of free pages. -/
def setNumberOfFreePages (m : PhysicalMemoryManager) (pages : ℕ) : PhysicalMemoryManager :=
  { m with memoryDescriptorInfo := { m.memoryDescriptorInfo with numberOfFreePages := pages } }

/-- Links a block in front of the free list of an order. -/
def pushBlock (m : PhysicalMemoryManager) (order blockAddress : ℕ) : PhysicalMemoryManager :=
  (m.setNext blockAddress (m.buddyFreeLists order)).setHead order blockAddress

/-- The walk of `removeBlockFromFreeList`, standing at the node `current` behind `previous`. -/
def removeBlockLoop (m : PhysicalMemoryManager) (order blockAddress : ℕ) :
    ℕ → ℕ → ℕ → Option (PhysicalMemoryManager × Bool)
  | 0, _, _ => none
  | fuel + 1, previous, current =>
    if current = 0 then some (m, false)
    else if current = blockAddress then
      if previous = 0 then some (m.setHead order (m.physicalMemory current), true)
      else some (m.setNext previous (m.physicalMemory current), true)
    else removeBlockLoop m order blockAddress fuel current (m.physicalMemory current)

/-- Unlinks a block from the free list of an order, if it is there. -/
def removeBlockFromFreeList (fuel : ℕ) (m : PhysicalMemoryManager) (order blockAddress : ℕ) :
    Option (PhysicalMemoryManager × Bool) :=
  m.removeBlockLoop order blockAddress fuel 0 (m.buddyFreeLists order)

/-- The address lies in the managed range. -/
def isAddressInManagedRange (m : PhysicalMemoryManager) (address : ℕ) : Bool :=
  let baseAddress := m.memoryDescriptorInfo.physicalAddressStart
  let endAddress := u64 (baseAddress + m.memoryDescriptorInfo.totalNumberOfPages * pageSize)
  decide (baseAddress ≤ address ∧ address < endAddress)

/-! ### Initialization -/

/-- Lowers an order until the offset is a multiple of its block size. -/
def alignOrder (offset : ℕ) : ℕ → ℕ
  | 0 => 0
  | order + 1 =>
    if offset % pagesForOrder (order + 1) ≠ 0 then alignOrder offset order else order + 1

/-- The loop that cuts the range into blocks. Every round links at least one page, so that
`remainingPages` rounds suffice. -/
def initializeBuddyLoop :
    ℕ → PhysicalMemoryManager → (remainingPages currentOffset : ℕ) → PhysicalMemoryManager
  | 0, m, _, _ => m
  | fuel + 1, m, remainingPages, currentOffset =>
    if remainingPages = 0 then m
    else
      let order := alignOrder currentOffset (floorLog2Pages remainingPages)
      let blockAddress :=
        u64 (m.memoryDescriptorInfo.physicalAddressStart + currentOffset * pageSize)
      let blockPages := pagesForOrder order
      initializeBuddyLoop fuel (m.pushBlock order blockAddress)
        (remainingPages - blockPages) (currentOffset + blockPages)

/-- Cuts the managed range into free blocks. -/
def initializeBuddyAllocator (m : PhysicalMemoryManager) : PhysicalMemoryManager :=
  let m := { m with buddyFreeLists := fun _ => 0, buddyMaxOrder := 0 }
  let total := m.memoryDescriptorInfo.totalNumberOfPages
  if total = 0 then m
  else
    let m := { m with buddyMaxOrder := floorLog2Pages total }
    let m := initializeBuddyLoop total m total 0
    { m with memoryDescriptorInfo :=
      { m.memoryDescriptorInfo with bitMap := m.memoryDescriptorInfo.physicalAddressStart } }

/-- The range that descriptor `i` offers to the allocator: nothing if the boot loader has used it
up, what is left of it if the loader stands in it, and only the part below the physical limit. -/
def candidateRange (boot : BootMemoryMap) (i : ℕ) (desc : EfiMemoryDescriptor) :
    Option (ℕ × ℕ) :=
  if desc.type ≠ .conventionalMemory then none
  else if i < boot.currentDescriptor then none
  else if i = boot.currentDescriptor ∧ boot.remainingPagesInDescriptor = 0 then none
  else
    let candidatePhysicalStart :=
      if i = boot.currentDescriptor then boot.nextPageAddress else desc.physicalStart
    let candidatePages :=
      if i = boot.currentDescriptor then boot.remainingPagesInDescriptor else desc.numberOfPages
    if pmmBuddyPhysicalLimit ≤ candidatePhysicalStart then none
    else
      let candidateEnd := u64 (candidatePhysicalStart + candidatePages * pageSize)
      if pmmBuddyPhysicalLimit < candidateEnd then
        let clipped := (pmmBuddyPhysicalLimit - candidatePhysicalStart) / pageSize
        if clipped = 0 then none else some (candidatePhysicalStart, clipped)
      else some (candidatePhysicalStart, candidatePages)

/-- The loop over the memory map that keeps the longest candidate range. -/
def selectRange (boot : BootMemoryMap) :
    List EfiMemoryDescriptor → ℕ → MemoryDescriptor → MemoryDescriptor
  | [], _, best => best
  | desc :: rest, i, best =>
    match candidateRange boot i desc with
    | some (start, pages) =>
      if best.totalNumberOfPages < pages then
        selectRange boot rest (i + 1)
          { physicalAddressStart := start, totalNumberOfPages := pages,
            numberOfFreePages := pages, bitMap := 0 }
      else selectRange boot rest (i + 1) best
    | none => selectRange boot rest (i + 1) best

/-- Selects the range to manage and cuts it into free blocks. The memory holds arbitrary words
before. -/
def initializeMemoryDescriptors (boot : BootMemoryMap) (physicalMemory : ℕ → ℕ) :
    PhysicalMemoryManager :=
  initializeBuddyAllocator
    { memoryDescriptorInfo := selectRange boot boot.descriptors 0
        { physicalAddressStart := 0, totalNumberOfPages := 0, numberOfFreePages := 0,
          bitMap := 0 }
      buddyFreeLists := fun _ => 0
      buddyMaxOrder := 0
      physicalMemory := physicalMemory }

/-! ### Allocation -/

/-- The first order from `currentOrder` on, among `count` orders, with a free block. -/
def findFreeOrder (m : PhysicalMemoryManager) : ℕ → ℕ → Option ℕ
  | 0, _ => none
  | count + 1, currentOrder =>
    if m.buddyFreeLists currentOrder = 0 then findFreeOrder m count (currentOrder + 1)
    else some currentOrder

/-- Halves a block `steps` times, down from order `requestedOrder + steps`, and links the upper
halves. -/
def splitLoop (blockAddress requestedOrder : ℕ) :
    ℕ → PhysicalMemoryManager → PhysicalMemoryManager
  | 0, m => m
  | steps + 1, m =>
    let currentOrder := requestedOrder + steps
    let buddyAddress := u64 (blockAddress + pagesForOrder currentOrder * pageSize)
    splitLoop blockAddress requestedOrder steps (m.pushBlock currentOrder buddyAddress)

/-- Allocates a block of at least `pages` pages; the address `0` reports failure. -/
def allocatePagesFromDescriptor (m : PhysicalMemoryManager) (pages : ℕ) :
    PhysicalMemoryManager × ℕ :=
  if pages = 0 then (m, 0)
  else if m.memoryDescriptorInfo.bitMap = 0 then (m, 0)
  else if m.memoryDescriptorInfo.numberOfFreePages < pages then (m, 0)
  else
    let requestedOrder := ceilLog2Pages pages
    if m.buddyMaxOrder < requestedOrder then (m, 0)
    else
      match m.findFreeOrder (m.buddyMaxOrder + 1 - requestedOrder) requestedOrder with
      | none => (m, 0)
      | some currentOrder =>
        let blockAddress := m.buddyFreeLists currentOrder
        let m := m.setHead currentOrder (m.physicalMemory blockAddress)
        let m := splitLoop blockAddress requestedOrder (currentOrder - requestedOrder) m
        let allocatedPages := pagesForOrder requestedOrder
        if m.memoryDescriptorInfo.numberOfFreePages < allocatedPages then (m, 0)
        else
          (m.setNumberOfFreePages (m.memoryDescriptorInfo.numberOfFreePages - allocatedPages),
            blockAddress)

/-! ### Deallocation -/

/-- Merges a block with its buddy as long as the buddy lies in the range and is free, for at most
`steps` orders; returns the merged block. -/
def mergeLoop (fuel : ℕ) :
    ℕ → PhysicalMemoryManager → (currentAddress currentOrder : ℕ) →
      Option (PhysicalMemoryManager × ℕ × ℕ)
  | 0, m, currentAddress, currentOrder => some (m, currentAddress, currentOrder)
  | steps + 1, m, currentAddress, currentOrder =>
    let baseAddress := m.memoryDescriptorInfo.physicalAddressStart
    let currentOrderPages := pagesForOrder currentOrder
    let currentBlockIndex := (currentAddress - baseAddress) / pageSize
    let buddyBlockIndex := currentBlockIndex ^^^ currentOrderPages
    if m.memoryDescriptorInfo.totalNumberOfPages < u64 (buddyBlockIndex + currentOrderPages) then
      some (m, currentAddress, currentOrder)
    else
      let buddyAddress := u64 (baseAddress + buddyBlockIndex * pageSize)
      match m.removeBlockFromFreeList fuel currentOrder buddyAddress with
      | none => none
      | some (m, false) => some (m, currentAddress, currentOrder)
      | some (m, true) =>
        mergeLoop fuel steps m
          (if buddyAddress < currentAddress then buddyAddress else currentAddress)
          (currentOrder + 1)

/-- Frees the block of `pages` pages at an address; the result is `false` on invalid input. -/
def freePagesFromDescriptor (fuel : ℕ) (m : PhysicalMemoryManager) (address pages : ℕ) :
    Option (PhysicalMemoryManager × Bool) :=
  if address = 0 ∨ pages = 0 then some (m, false)
  else if m.memoryDescriptorInfo.bitMap = 0 then some (m, false)
  else if ¬ m.isAddressInManagedRange address then some (m, false)
  else
    let baseAddress := m.memoryDescriptorInfo.physicalAddressStart
    if (address - baseAddress) % pageSize ≠ 0 then some (m, false)
    else
      let order := ceilLog2Pages pages
      if m.buddyMaxOrder < order then some (m, false)
      else
        let blockPages := pagesForOrder order
        let startPage := (address - baseAddress) / pageSize
        if m.memoryDescriptorInfo.totalNumberOfPages < u64 (startPage + blockPages) then
          some (m, false)
        else if startPage % blockPages ≠ 0 then some (m, false)
        else
          match mergeLoop fuel (m.buddyMaxOrder - order) m address order with
          | none => none
          | some (m, currentAddress, currentOrder) =>
            let m := m.pushBlock currentOrder currentAddress
            let freePages := u64 (m.memoryDescriptorInfo.numberOfFreePages + blockPages)
            let total := m.memoryDescriptorInfo.totalNumberOfPages
            some (m.setNumberOfFreePages (if total < freePages then total else freePages), true)

end PhysicalMemoryManager

end TwistedOS
