import TwistedOS.UserMemory.ProcessMemory

/-!
# The memory system calls

`mmap` and `munmap` of `TranslationLayer.cpp`, for the running user process. The files that can be
mapped differ in what their `MemoryMap` operation does: most of them refuse, so that the file is
copied into new pages, and the frame buffer maps its own pages.

A call that frees pages takes the fuel of the allocator and returns `none` when it does not suffice.

## Main definitions

* `UserMemory.handleMmap`, `UserMemory.handleMunmap`.
-/

namespace TwistedOS

/-- The error codes that the memory system calls return. -/
inductive LinuxError
  | efault | enomem | einval | ebadf | enodev | enosys
  /-- An error code that the operations of a file return. -/
  | fileError (code : ℕ)
  deriving DecidableEq, Repr

/-- `LINUX_PROT_WRITE`. -/
def linuxProtWrite : ℕ := 0x2

/-- `LINUX_MAP_SHARED`. -/
def linuxMapShared : ℕ := 0x01

/-- `LINUX_MAP_PRIVATE`. -/
def linuxMapPrivate : ℕ := 0x02

/-- `LINUX_MAP_FIXED`. -/
def linuxMapFixed : ℕ := 0x10

/-- `LINUX_MAP_ANONYMOUS`. -/
def linuxMapAnonymous : ℕ := 0x20

/-- `USER_FRAMEBUFFER_MMAP_BASE`. -/
def userFramebufferMmapBase : ℕ := 0x0000700000000000

/-- The frame buffer device. -/
structure FrameBuffer where
  valid : Bool
  buffer : ℕ
  bufferSizeBytes : ℕ
  deriving Repr

/-- The `MemoryMap` operation of a file. -/
inductive MemoryMapOperation
  /-- Returns `LINUX_ERR_ENOSYS`. -/
  | notImplemented
  /-- Returns another error. -/
  | refused (error : LinuxError)
  /-- Maps the pages of the frame buffer. -/
  | frameBuffer (device : FrameBuffer)

/-- An open file. -/
structure OpenFile where
  memoryMap : Option MemoryMapOperation
  hasRead : Bool
  /-- The words of the pages that the file is copied to, from an offset on and for a length, with
  zeros behind the end of the file, or the error of a read that fails. -/
  populate : ℕ → ℕ → Except LinuxError (ℕ → ℕ)

namespace PhysicalMemoryManager

/-- Maps `count` pages from page `index` of a range on; the result is the page at which this has
failed. -/
def mapPages (pageMapL4Table physicalStart virtualStart : ℕ) (flags : PageMappingFlags) :
    ℕ → ℕ → PhysicalMemoryManager → PhysicalMemoryManager × Option ℕ
  | 0, _, m => (m, none)
  | count + 1, index, m =>
    match m.mapPage pageMapL4Table (u64 (physicalStart + index * pageSize))
        (u64 (virtualStart + index * pageSize)) flags with
    | (m, false) => (m, some index)
    | (m, true) => mapPages pageMapL4Table physicalStart virtualStart flags count (index + 1) m

/-- Unmaps `count` pages from an address on. -/
def unmapPages (pageMapL4Table : ℕ) : ℕ → ℕ → PhysicalMemoryManager → PhysicalMemoryManager
  | 0, _, m => m
  | count + 1, virtualAddress, m =>
    unmapPages pageMapL4Table count (virtualAddress + pageSize)
      (m.unmapPage pageMapL4Table virtualAddress).1

end PhysicalMemoryManager

namespace UserMemory

/-- `FreePagesFromDescriptor`, whose result the system calls ignore. -/
def freePages (fuel : ℕ) (s : UserMemory) (address pages : ℕ) : Option UserMemory :=
  (s.pmm.freePagesFromDescriptor fuel address pages).map fun r => s.setPmm r.1

/-! ### munmap -/

/-- The end of a mapping. -/
def mappingEnd (mapping : ProcessMemoryMapping) : ℕ :=
  u64 (mapping.virtualAddressStart + mapping.length)

/-- The part of a mapping that lies in a range. -/
def overlapStart (unmapStart : ℕ) (mapping : ProcessMemoryMapping) : ℕ :=
  if unmapStart > mapping.virtualAddressStart then unmapStart else mapping.virtualAddressStart

@[inherit_doc overlapStart]
def overlapEnd (unmapEnd : ℕ) (mapping : ProcessMemoryMapping) : ℕ :=
  if unmapEnd < mappingEnd mapping then unmapEnd else mappingEnd mapping

/-- The number of records that a record leaves behind when a range is unmapped. -/
def resultingMappings (unmapStart unmapEnd : ℕ) (mapping : ProcessMemoryMapping) : ℕ :=
  if ¬ mapping.inUse then 0
  else if mappingEnd mapping ≤ mapping.virtualAddressStart then 0
  else if overlapStart unmapStart mapping ≥ overlapEnd unmapEnd mapping then 1
  else
    let trimsLeft := decide (overlapStart unmapStart mapping > mapping.virtualAddressStart)
    let trimsRight := decide (overlapEnd unmapEnd mapping < mappingEnd mapping)
    if trimsLeft && trimsRight then 2 else if trimsLeft || trimsRight then 1 else 0

/-- Frees the pages of the part of a mapping that lies in a range. -/
def freeOverlap (fuel unmapStart unmapEnd : ℕ) (s : UserMemory)
    (mapping : ProcessMemoryMapping) : Option UserMemory :=
  let start := overlapStart unmapStart mapping
  if mapping.isAnonymous ∧ mapping.physicalAddressStart ≠ 0 then
    let physicalOverlapStart :=
      u64 (mapping.physicalAddressStart + (start - mapping.virtualAddressStart))
    let overlapPages := (overlapEnd unmapEnd mapping - start) / pageSize
    if overlapPages ≠ 0 then s.freePages fuel physicalOverlapStart overlapPages else some s
  else some s

/-- Frees and unmaps the part of a mapping that lies in a range. -/
def releaseOverlap (fuel unmapStart unmapEnd : ℕ) (s : UserMemory)
    (mapping : ProcessMemoryMapping) : Option UserMemory :=
  let start := overlapStart unmapStart mapping
  let overlapLength := overlapEnd unmapEnd mapping - start
  (freeOverlap fuel unmapStart unmapEnd s mapping).map fun s =>
    s.setPmm (s.pmm.unmapPages s.pageMapL4TableAddr ((overlapLength + pageSize - 1) / pageSize)
      start)

/-- The part of a mapping behind an unmapped range. -/
def rightMapping (unmapEnd : ℕ) (mapping : ProcessMemoryMapping) : ProcessMemoryMapping :=
  { mapping with
    inUse := true
    virtualAddressStart := overlapEnd unmapEnd mapping
    length := mappingEnd mapping - overlapEnd unmapEnd mapping
    physicalAddressStart :=
      if mapping.physicalAddressStart ≠ 0 then
        u64 (mapping.physicalAddressStart +
          (overlapEnd unmapEnd mapping - mapping.virtualAddressStart))
      else mapping.physicalAddressStart }

/-- The part of a mapping in front of an unmapped range. -/
def leftMapping (unmapStart : ℕ) (mapping : ProcessMemoryMapping) : ProcessMemoryMapping :=
  { mapping with length := overlapStart unmapStart mapping - mapping.virtualAddressStart }

/-- Removes, trims or splits the record of a slot; the result is `false` if there is no slot for a
second record. -/
def trimMapping (unmapStart unmapEnd : ℕ) (s : UserMemory) (slot : ℕ) : UserMemory × Bool :=
  let mapping := s.memoryMappings slot
  let trimsLeft := decide (overlapStart unmapStart mapping > mapping.virtualAddressStart)
  let trimsRight := decide (overlapEnd unmapEnd mapping < mappingEnd mapping)
  match trimsLeft, trimsRight with
  | false, false => (s.setMapping slot .empty, true)
  | false, true => (s.setMapping slot (rightMapping unmapEnd mapping), true)
  | true, false => (s.setMapping slot (leftMapping unmapStart mapping), true)
  | true, true =>
    match s.findAvailableMappingSlot with
    | none => (s, false)
    | some freeSlot =>
      ((s.setMapping freeSlot (rightMapping unmapEnd mapping)).setMapping slot
        (leftMapping unmapStart mapping), true)

/-- The record of a slot is in use and overlaps the range. -/
def overlapsRange (unmapStart unmapEnd : ℕ) (mapping : ProcessMemoryMapping) : Bool :=
  mapping.inUse && decide (mapping.virtualAddressStart < mappingEnd mapping) &&
    decide (overlapStart unmapStart mapping < overlapEnd unmapEnd mapping)

/-- The second loop of `handleMunmap`, over the slots of a list. -/
def unmapSlots (fuel unmapStart unmapEnd : ℕ) :
    List ℕ → UserMemory → Option (UserMemory × Except LinuxError Unit)
  | [], s => some (s, .ok ())
  | slot :: rest, s =>
    if overlapsRange unmapStart unmapEnd (s.memoryMappings slot) then
      match releaseOverlap fuel unmapStart unmapEnd s (s.memoryMappings slot) with
      | none => none
      | some s =>
        match s.trimMapping unmapStart unmapEnd slot with
        | (s, false) => some (s, .error .enomem)
        | (s, true) => unmapSlots fuel unmapStart unmapEnd rest s
    else unmapSlots fuel unmapStart unmapEnd rest s

/-- `HandleMunmapSystemCall`. -/
def handleMunmap (fuel : ℕ) (s : UserMemory) (address length : ℕ) :
    Option (UserMemory × Except LinuxError Unit) :=
  if length = 0 then some (s, .error .einval)
  else if address % pageSize ≠ 0 then some (s, .error .einval)
  else
    let unmapLength := alignUpToPageBoundary length
    if unmapLength = 0 then some (s, .error .einval)
    else
      let unmapEnd := u64 (address + unmapLength)
      if unmapEnd < address then some (s, .error .einval)
      else if maxMemoryMappingsPerProcess <
          (slots.map fun i => resultingMappings address unmapEnd (s.memoryMappings i)).sum then
        some (s, .error .enomem)
      else if s.pageMapL4TableAddr = 0 then some (s, .error .efault)
      else unmapSlots fuel address unmapEnd slots s

/-! ### mmap -/

/-- Allocates pages, fills them and maps them at a free range. -/
def mapNewPages (fuel : ℕ) (s : UserMemory) (mappingStart mappingLength protection : ℕ)
    (contents : Except LinuxError (ℕ → ℕ)) : Option (UserMemory × Except LinuxError ℕ) :=
  let pageCount := mappingLength / pageSize
  match s.pmm.allocatePagesFromDescriptor pageCount with
  | (m, 0) => some (s.setPmm m, .error .enomem)
  | (m, physicalAllocation) =>
    let failWith (s : UserMemory) (error : LinuxError) :=
      (s.freePages fuel physicalAllocation pageCount).map fun s => (s, Except.error error)
    match contents with
    | .error error => failWith (s.setPmm m) error
    | .ok words =>
      let s := s.setPmm (m.fillPages physicalAllocation pageCount words)
      if s.pageMapL4TableAddr = 0 then failWith s .efault
      else
        let writable := decide (protection &&& linuxProtWrite ≠ 0)
        match s.pmm.mapPages s.pageMapL4TableAddr physicalAllocation mappingStart ⟨true, writable⟩
            pageCount 0 with
        | (m, some _) => failWith (s.setPmm m) .efault
        | (m, none) =>
          match (s.setPmm m).registerProcessMapping mappingStart mappingLength physicalAllocation
              true with
          | (s, false) => failWith s .enomem
          | (s, true) => some (s, .ok mappingStart)

/-- `FrameBuffer::MemoryMap`. -/
def frameBufferMemoryMap (s : UserMemory) (device : FrameBuffer) (length offset : ℕ) :
    UserMemory × Except LinuxError ℕ :=
  if ¬ device.valid ∨ device.buffer = 0 then (s, .error .enodev)
  else if device.bufferSizeBytes < offset then (s, .error .einval)
  else if device.bufferSizeBytes - offset < length then (s, .error .einval)
  else if s.pageMapL4TableAddr = 0 then (s, .error .efault)
  else
    let physicalStartAddress := u64 (device.buffer + offset)
    let inPageOffset := physicalStartAddress % pageSize
    let physicalBaseAddress := physicalStartAddress - inPageOffset
    let mappingSizeBytes := u64 (inPageOffset + length)
    let requiredPages := u64 (mappingSizeBytes + pageSize - 1) / pageSize
    let virtualAddress := u64 (userFramebufferMmapBase + offset)
    let virtualBaseAddress := virtualAddress - virtualAddress % pageSize
    match s.pmm.mapPages s.pageMapL4TableAddr physicalBaseAddress virtualBaseAddress ⟨true, true⟩
        requiredPages 0 with
    | (m, some _) => (s.setPmm m, .error .efault)
    | (m, none) => (s.setPmm m, .ok (u64 (virtualBaseAddress + inPageOffset)))

/-- The range at which a new mapping is placed, after a range asked for with `LINUX_MAP_FIXED` has
been unmapped. -/
def chooseMappingStart (fuel : ℕ) (s : UserMemory) (address mappingLength flags : ℕ) :
    Option (UserMemory × Except LinuxError ℕ) :=
  if flags &&& linuxMapFixed ≠ 0 then
    if address % pageSize ≠ 0 then some (s, .error .einval)
    else if s.mappingOverlapsReservedProcessLayout address mappingLength then
      some (s, .error .einval)
    else
      match s.handleMunmap fuel address mappingLength with
      | none => none
      | some (s, .error error) => some (s, .error error)
      | some (s, .ok ()) => some (s, .ok address)
  else
    let mappingStart := s.findFreeMappingAddress address mappingLength
    some (s, if mappingStart = 0 then .error .enomem else .ok mappingStart)

/-- `HandleMmapSystemCall`. `files` are the open files of the process; `offset` is the bit pattern
of a signed number. -/
def handleMmap (fuel : ℕ) (files : ℕ → Option OpenFile) (s : UserMemory)
    (address length protection flags fileDescriptor offset : ℕ) :
    Option (UserMemory × Except LinuxError ℕ) :=
  if length = 0 then some (s, .error .einval)
  else if 2 ^ 63 ≤ offset ∨ offset % pageSize ≠ 0 then some (s, .error .einval)
  else
    let sharingType := flags &&& (linuxMapPrivate ||| linuxMapShared)
    if sharingType = 0 ∨ sharingType = linuxMapPrivate ||| linuxMapShared then
      some (s, .error .einval)
    else
      let mappingLength := alignUpToPageBoundary length
      if mappingLength = 0 then some (s, .error .einval)
      else
        match s.chooseMappingStart fuel address mappingLength flags with
        | none => none
        | some (s, .error error) => some (s, .error error)
        | some (s, .ok mappingStart) =>
          if flags &&& linuxMapAnonymous ≠ 0 then
            s.mapNewPages fuel mappingStart mappingLength protection (.ok fun _ => 0)
          else if maxOpenFilesPerProcess ≤ fileDescriptor then some (s, .error .ebadf)
          else
            match files fileDescriptor with
            | none => some (s, .error .ebadf)
            | some openFile =>
              match openFile.memoryMap with
              | none => some (s, .error .enodev)
              | some .notImplemented =>
                if ¬ openFile.hasRead then some (s, .error .enosys)
                else
                  s.mapNewPages fuel mappingStart mappingLength protection
                    (openFile.populate offset length)
              | some (.refused error) => some (s, .error error)
              | some (.frameBuffer device) =>
                match s.frameBufferMemoryMap device length offset with
                | (s, .error error) => some (s, .error error)
                | (s, .ok fileMappedAddress) =>
                  if fileMappedAddress = 0 then some (s, .error .efault)
                  else
                    let registeredStart := alignDownToPageBoundary fileMappedAddress
                    let registeredLength :=
                      alignUpToPageBoundary (u64 (fileMappedAddress - registeredStart + length))
                    if registeredLength = 0 then some (s, .error .einval)
                    else
                      match s.registerProcessMapping registeredStart registeredLength 0 false with
                      | (s, false) => some (s, .error .enomem)
                      | (s, true) => some (s, .ok fileMappedAddress)

end UserMemory

end TwistedOS
