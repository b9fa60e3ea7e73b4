import Mathlib.Data.List.Range
import TwistedOS.Data.ByteMemory
import TwistedOS.KernelParameters

/-!
# The kernel heap manager

The slab allocator of `KernelHeapManager.cpp`. The heap is an array of slabs of one page. A *small*
slab holds objects of one of seven sizes, whose free ones are linked through their first word; the
small slabs of a class with free objects form a doubly linked list of slab indices. A *large*
allocation takes a run of slabs, a head and tails. Every allocation starts with a header of twelve
bytes in front of the payload.

List indices are `int32_t` in the source, with `-1` for none; they are integers here. Addresses are
computed modulo `2 ^ 64` and a null pointer is `0`.

## Main definitions

* `SlabDescriptor`, `KernelHeapManager`: the state, with the memory of the heap.
* `KernelHeapManager.construct`: the state after the constructor.
* `KernelHeapManager.kmalloc`, `KernelHeapManager.kfree`.
-/

namespace TwistedOS

/-- `SlabState`. -/
inductive SlabState
  | free | small | largeHead | largeTail
  deriving DecidableEq, Repr

/-- The bookkeeping of one slab. `ownerOrSpan` is the number of slabs of a run at its head and the
head's index at its tails. -/
structure SlabDescriptor where
  state : SlabState
  classIndex : ℕ
  ownerOrSpan : ℕ
  totalObjects : ℕ
  freeObjects : ℕ
  freeList : ℕ
  prevAvailable : ℤ
  nextAvailable : ℤ
  deriving DecidableEq, Repr

/-- The descriptor of a free slab. -/
def SlabDescriptor.reset : SlabDescriptor where
  state := .free
  classIndex := 0
  ownerOrSpan := 0
  totalObjects := 0
  freeObjects := 0
  freeList := 0
  prevAvailable := -1
  nextAvailable := -1

/-- The descriptor of the head of a run. -/
def SlabDescriptor.largeHead (span : ℕ) : SlabDescriptor :=
  { SlabDescriptor.reset with state := .largeHead, ownerOrSpan := span, totalObjects := 1 }

/-- The descriptor of a tail of a run. -/
def SlabDescriptor.largeTail (head : ℕ) : SlabDescriptor :=
  { SlabDescriptor.reset with state := .largeTail, ownerOrSpan := head }

@[simp] theorem SlabDescriptor.state_largeHead (span : ℕ) :
    (largeHead span).state = .largeHead := rfl

@[simp] theorem SlabDescriptor.ownerOrSpan_largeHead (span : ℕ) :
    (largeHead span).ownerOrSpan = span := rfl

@[simp] theorem SlabDescriptor.state_largeTail (head : ℕ) :
    (largeTail head).state = .largeTail := rfl

@[simp] theorem SlabDescriptor.ownerOrSpan_largeTail (head : ℕ) :
    (largeTail head).ownerOrSpan = head := rfl

/-- The allocator together with the memory it manages. -/
structure KernelHeapManager where
  heapStart : ℕ
  heapEnd : ℕ
  managedHeapSize : ℕ
  slabCount : ℕ
  slabs : ℕ → SlabDescriptor
  classAvailableHead : ℕ → ℤ
  memory : ByteMemory

namespace KernelHeapManager

/-- `KERNEL_HEAP_SIZE`. -/
def kernelHeapSize : ℕ := kernelHeapPages * pageSize

/-- `ALLOCATION_MAGIC`. -/
def allocationMagic : ℕ := 0x4B484D47

/-- `LARGE_CLASS_SENTINEL`. -/
def largeClassSentinel : ℕ := 0xFFFF

/-- `SLAB_CLASS_SIZES`. -/
def slabClassSizes : List ℕ := [64, 128, 256, 512, 1024, 2048, 4096]

/-- `SLAB_CLASS_COUNT`. -/
def slabClassCount : ℕ := 7

/-- `sizeof(AllocationHeader)`. -/
def headerSize : ℕ := 12

/-- `SIZE_MAX`. -/
def sizeMax : ℕ := 2 ^ 64 - 1

/-! ### Construction -/

/-- The number of bytes managed. -/
def getManagedHeapSize (heapStart heapEnd : ℕ) : ℕ :=
  if heapEnd ≤ heapStart then if heapStart = 0 then 0 else kernelHeapSize
  else if heapEnd - heapStart < kernelHeapSize then heapEnd - heapStart else kernelHeapSize

/-- The end of the heap after a missing or too large one has been replaced. -/
def effectiveHeapEnd (heapStart heapEnd : ℕ) : ℕ :=
  if heapStart = 0 then heapEnd
  else
    let expectedEnd := u64 (heapStart + kernelHeapSize)
    if expectedEnd ≤ heapStart then heapEnd
    else if heapEnd ≤ heapStart then expectedEnd
    else if kernelHeapSize < heapEnd - heapStart then expectedEnd
    else heapEnd

/-- The constructor, over a memory with arbitrary contents: every slab is free. -/
def construct (heapStart heapEnd : ℕ) (memory : ByteMemory) : KernelHeapManager :=
  let heapEnd := effectiveHeapEnd heapStart heapEnd
  { heapStart := heapStart
    heapEnd := heapEnd
    managedHeapSize := getManagedHeapSize heapStart heapEnd
    slabCount := getManagedHeapSize heapStart heapEnd / pageSize
    slabs := fun _ => .reset
    classAvailableHead := fun _ => -1
    memory := memory }

/-! ### Stores -/

/-- Changes the descriptor of a slab. -/
def modifySlab (s : KernelHeapManager) (i : ℕ) (f : SlabDescriptor → SlabDescriptor) :
    KernelHeapManager :=
  { s with slabs := Function.update s.slabs i (f (s.slabs i)) }

/-- Stores the head of the list of available slabs of a class. -/
def setHead (s : KernelHeapManager) (classIndex : ℕ) (head : ℤ) : KernelHeapManager :=
  { s with classAvailableHead := Function.update s.classAvailableHead classIndex head }

/-- Stores an unsigned value of `n` bytes. -/
def storeMemory (s : KernelHeapManager) (a n value : ℕ) : KernelHeapManager :=
  { s with memory := s.memory.store a n value }

/-! ### Slabs and classes -/

/-- The class whose objects have room for a header and `size` bytes, or `SLAB_CLASS_COUNT`. -/
def selectClassIndex (size : ℕ) : ℕ :=
  if sizeMax - headerSize < size then slabClassCount
  else slabClassSizes.findIdx fun classSize => decide (size + headerSize ≤ classSize)

/-- The object size of a class, and `0` for an invalid class. -/
def getClassObjectSize (classIndex : ℕ) : ℕ := slabClassSizes.getD classIndex 0

/-- The address of a slab. -/
def getSlabBaseAddress (s : KernelHeapManager) (i : ℕ) : ℕ := u64 (s.heapStart + i * pageSize)

/-- Puts a slab in front of the available list of a class, unless it is linked already. -/
def linkSlabIntoClassList (s : KernelHeapManager) (i classIndex : ℕ) : KernelHeapManager :=
  if (s.slabs i).prevAvailable ≠ -1 ∨ (s.slabs i).nextAvailable ≠ -1 ∨
      s.classAvailableHead classIndex = i then s
  else
    let headIndex := s.classAvailableHead classIndex
    let s := s.modifySlab i fun d => { d with prevAvailable := -1, nextAvailable := headIndex }
    let s := if headIndex ≠ -1 then
      s.modifySlab headIndex.toNat fun d => { d with prevAvailable := i } else s
    s.setHead classIndex i

/-- Takes a slab out of the available list of a class. -/
def unlinkSlabFromClassList (s : KernelHeapManager) (i classIndex : ℕ) : KernelHeapManager :=
  let prevIndex := (s.slabs i).prevAvailable
  let nextIndex := (s.slabs i).nextAvailable
  let s :=
    if prevIndex ≠ -1 then
      s.modifySlab prevIndex.toNat fun d => { d with nextAvailable := nextIndex }
    else if s.classAvailableHead classIndex = i then s.setHead classIndex nextIndex
    else s
  let s := if nextIndex ≠ -1 then
    s.modifySlab nextIndex.toNat fun d => { d with prevAvailable := prevIndex } else s
  s.modifySlab i fun d => { d with prevAvailable := -1, nextAvailable := -1 }

/-- Links the first `count` objects of a slab, each in front of those before; returns the memory and
the head of the list. -/
def buildFreeList (slabBaseAddress objectSize : ℕ) (memory : ByteMemory) : ℕ → ByteMemory × ℕ
  | 0 => (memory, 0)
  | count + 1 =>
    let (memory, freeList) := buildFreeList slabBaseAddress objectSize memory count
    let objectAddress := u64 (slabBaseAddress + count * objectSize)
    (memory.store objectAddress 8 freeList, objectAddress)

/-- Turns a slab into a small slab of a class with all its objects free. -/
def initializeSmallSlab (s : KernelHeapManager) (i classIndex : ℕ) : KernelHeapManager × Bool :=
  if s.slabCount ≤ i ∨ slabClassCount ≤ classIndex then (s, false)
  else
    let objectSize := getClassObjectSize classIndex
    if objectSize = 0 then (s, false)
    else
      let objectsPerSlab := pageSize / objectSize
      if objectsPerSlab = 0 then (s, false)
      else
        let (memory, freeList) :=
          buildFreeList (s.getSlabBaseAddress i) objectSize s.memory objectsPerSlab
        let s := s.modifySlab i fun _ =>
          { state := .small, classIndex := classIndex, ownerOrSpan := 1,
            totalObjects := objectsPerSlab, freeObjects := objectsPerSlab,
            freeList := freeList, prevAvailable := -1, nextAvailable := -1 }
        let s := { s with memory := memory }
        (s.linkSlabIntoClassList i classIndex, true)

/-- The scan of `findFreeSlabRun` over `remaining` slabs from `slabIndex` on, with a run of
`runLength` free slabs from `runStart` behind it. -/
def findFreeSlabRunLoop (s : KernelHeapManager) (slabSpan : ℕ) :
    (remaining slabIndex runStart runLength : ℕ) → Option ℕ
  | 0, _, _, _ => none
  | remaining + 1, slabIndex, runStart, runLength =>
    if (s.slabs slabIndex).state ≠ .free then
      findFreeSlabRunLoop s slabSpan remaining (slabIndex + 1) runStart 0
    else
      let runStart := if runLength = 0 then slabIndex else runStart
      if runLength + 1 = slabSpan then some runStart
      else findFreeSlabRunLoop s slabSpan remaining (slabIndex + 1) runStart (runLength + 1)

/-- The first run of `slabSpan` free slabs; the result `-1` of the source is `none`. -/
def findFreeSlabRun (s : KernelHeapManager) (slabSpan : ℕ) : Option ℕ :=
  if slabSpan = 0 ∨ s.slabCount < slabSpan then none
  else findFreeSlabRunLoop s slabSpan s.slabCount 0 0 0

/-- Resets the descriptors of `count` slabs from `startSlab` on. -/
def resetSlabs (startSlab : ℕ) : ℕ → KernelHeapManager → KernelHeapManager
  | 0, s => s
  | count + 1, s => (resetSlabs startSlab count s).modifySlab (startSlab + count) fun _ => .reset

/-- Gives a run of slabs back. -/
def releaseSlabRun (s : KernelHeapManager) (startSlab slabSpan : ℕ) : KernelHeapManager :=
  if slabSpan = 0 ∨ s.slabCount < startSlab + slabSpan then s
  else resetSlabs startSlab slabSpan s

/-! ### Allocation -/

/-- Writes the header of an allocation and returns the address of its payload. -/
def writeHeader (s : KernelHeapManager) (header slabIndex classIndex : ℕ) :
    KernelHeapManager × ℕ :=
  let s := s.storeMemory header 4 allocationMagic
  let s := s.storeMemory (header + 4) 4 slabIndex
  let s := s.storeMemory (header + 8) 2 classIndex
  let s := s.storeMemory (header + 10) 2 0
  (s, u64 (header + headerSize))

/-- The available slab of a class, after a free slab has been turned into one if there was none;
`none` when that is impossible. -/
def availableSlab (s : KernelHeapManager) (classIndex : ℕ) : KernelHeapManager × Option ℕ :=
  if s.classAvailableHead classIndex ≠ -1 then
    (s, some (s.classAvailableHead classIndex).toNat)
  else
    match s.findFreeSlabRun 1 with
    | none => (s, none)
    | some newSlabIndex =>
      match s.initializeSmallSlab newSlabIndex classIndex with
      | (s, false) => (s, none)
      | (s, true) =>
        if s.classAvailableHead classIndex = -1 then (s, none)
        else (s, some (s.classAvailableHead classIndex).toNat)

/-- Takes the first free object of a slab: the part of `kmalloc` behind the test of the free
list. -/
def takeObject (s : KernelHeapManager) (i classIndex : ℕ) : KernelHeapManager × ℕ :=
  let objectNode := (s.slabs i).freeList
  let s := s.modifySlab i fun d =>
    { d with freeList := s.memory.load objectNode 8, freeObjects := d.freeObjects - 1 }
  let s := if (s.slabs i).freeObjects = 0 then s.unlinkSlabFromClassList i classIndex else s
  s.writeHeader objectNode i classIndex

/-- The part of `kmalloc` that serves a request from a small slab. -/
def kmallocSmall (s : KernelHeapManager) (classIndex : ℕ) : KernelHeapManager × ℕ :=
  match s.availableSlab classIndex with
  | (s, none) => (s, 0)
  | (s, some i) =>
    if (s.slabs i).freeList = 0 ∨ (s.slabs i).freeObjects = 0 then (s, 0)
    else s.takeObject i classIndex

/-- Marks `count` slabs behind the head of a run as its tails. -/
def markTails (head : ℕ) : ℕ → KernelHeapManager → KernelHeapManager
  | 0, s => s
  | count + 1, s =>
    (markTails head count s).modifySlab (head + (count + 1)) fun _ => .largeTail head

/-- Takes a run of slabs: the part of `kmalloc` behind the search for a run. -/
def takeRun (s : KernelHeapManager) (largeSlabIndex slabSpanNeeded : ℕ) : KernelHeapManager × ℕ :=
  let s := s.modifySlab largeSlabIndex fun _ => .largeHead slabSpanNeeded
  let s := markTails largeSlabIndex (slabSpanNeeded - 1) s
  s.writeHeader (s.getSlabBaseAddress largeSlabIndex) largeSlabIndex largeClassSentinel

/-- The part of `kmalloc` that serves a request from a run of slabs. -/
def kmallocLarge (s : KernelHeapManager) (size : ℕ) : KernelHeapManager × ℕ :=
  if sizeMax - headerSize < size then (s, 0)
  else
    let slabSpanNeeded := u64 (size + headerSize + (pageSize - 1)) / pageSize
    if slabSpanNeeded = 0 then (s, 0)
    else
      match s.findFreeSlabRun slabSpanNeeded with
      | none => (s, 0)
      | some largeSlabIndex => s.takeRun largeSlabIndex slabSpanNeeded

/-- Allocates `size` bytes; the address `0` reports failure. -/
def kmalloc (s : KernelHeapManager) (size : ℕ) : KernelHeapManager × ℕ :=
  if size = 0 then (s, 0)
  else if s.slabCount = 0 then (s, 0)
  else
    let classIndex := selectClassIndex size
    if classIndex < slabClassCount then s.kmallocSmall classIndex else s.kmallocLarge size

/-! ### Deallocation -/

/-- The part of `kfree` for the header of a run of slabs. -/
def kfreeLarge (s : KernelHeapManager) (headerAddress slabIndex : ℕ) : KernelHeapManager :=
  if (s.slabs slabIndex).state ≠ .largeHead then s
  else
    let slabSpan := (s.slabs slabIndex).ownerOrSpan
    if slabSpan = 0 ∨ s.slabCount < slabIndex + slabSpan then s
    else if headerAddress ≠ s.getSlabBaseAddress slabIndex then s
    else (s.storeMemory headerAddress 4 0).releaseSlabRun slabIndex slabSpan

/-- Puts an object back in front of the free list of its slab: the part of `kfree` behind the last
check. -/
def putObject (s : KernelHeapManager) (headerAddress slabIndex classIndex : ℕ) :
    KernelHeapManager :=
  let s := s.storeMemory headerAddress 4 0
  let s := if (s.slabs slabIndex).freeObjects = 0 then
    s.linkSlabIntoClassList slabIndex classIndex else s
  let s := s.storeMemory headerAddress 8 (s.slabs slabIndex).freeList
  let s := s.modifySlab slabIndex fun d =>
    { d with freeList := headerAddress, freeObjects := d.freeObjects + 1 }
  if (s.slabs slabIndex).freeObjects = (s.slabs slabIndex).totalObjects then
    (s.unlinkSlabFromClassList slabIndex classIndex).releaseSlabRun slabIndex 1
  else s

/-- The part of `kfree` for the header of an object of a small slab. -/
def kfreeSmall (s : KernelHeapManager) (headerAddress slabIndex classIndex : ℕ) :
    KernelHeapManager :=
  if slabClassCount ≤ classIndex then s
  else if (s.slabs slabIndex).state ≠ .small ∨
      (s.slabs slabIndex).classIndex ≠ classIndex % 2 ^ 8 then s
  else
    let slabBaseAddress := s.getSlabBaseAddress slabIndex
    let objectSize := getClassObjectSize classIndex
    if objectSize = 0 then s
    else if headerAddress < slabBaseAddress ∨ u64 (slabBaseAddress + pageSize) ≤ headerAddress then s
    else if (headerAddress - slabBaseAddress) % objectSize ≠ 0 then s
    else if (s.slabs slabIndex).totalObjects ≤ (s.slabs slabIndex).freeObjects then s
    else s.putObject headerAddress slabIndex classIndex

/-- Frees the allocation whose payload starts at `ptr`. -/
def kfree (s : KernelHeapManager) (ptr : ℕ) : KernelHeapManager :=
  if ptr = 0 then s
  else if s.managedHeapSize = 0 ∨ s.slabCount = 0 then s
  else
    let heapBase := s.heapStart
    let heapLimit := u64 (heapBase + s.slabCount * pageSize)
    if ptr < u64 (heapBase + headerSize) ∨ heapLimit ≤ ptr then s
    else
      let headerAddress := ptr - headerSize
      if headerAddress < heapBase ∨ heapLimit ≤ headerAddress then s
      else if s.memory.load headerAddress 4 ≠ allocationMagic then s
      else
        let slabIndex := s.memory.load (headerAddress + 4) 4
        if s.slabCount ≤ slabIndex then s
        else if s.memory.load (headerAddress + 8) 2 = largeClassSentinel then
          s.kfreeLarge headerAddress slabIndex
        else s.kfreeSmall headerAddress slabIndex (s.memory.load (headerAddress + 8) 2)

end KernelHeapManager

end TwistedOS
