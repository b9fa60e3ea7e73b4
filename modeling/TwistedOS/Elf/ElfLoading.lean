import TwistedOS.Data.RecordedRuns
import TwistedOS.Elf.ElfAddressSpace
import TwistedOS.Memory.PageMapCopy

/-!
# Loading an ELF image

How a process is created from an image, or replaced by one: the file is copied into pages of its
own, its header is read, the program headers are walked for the address of the table, and the
segments of the image and of its interpreter become regions that are mapped into a new page map.
What the loader does with physical memory is recorded: the buffers that are set aside, the bytes of
images that are read, the bytes that are cleared for segments, and the pages that are mapped for
them. When the load fails nothing more of this happens, and the release of what was allocated is
left out.

## Main definitions

* `PageBuffer`, `ElfAccess`, `Contained`: nothing outside the buffers of the load is used.
* `translateElfFileOffsetToVirtualAddress`, `mapElf`, `ElfLoader.createUserProcess`,
  `ElfLoader.changeProcessExecution`.

## Main results

* `result_appendLoadSegments`, `result_forEach_mapRegionStep`: the recorded loops have the results
  of `ElfLoad.appendElfLoadSegments` and `VirtualAddressSpaceElf.mapRegions`.
-/

namespace TwistedOS

open Recorded

/-- `ELF_INTERPRETER_PATH_MAX`. -/
def elfInterpreterPathMax : ℕ := 256

/-- `sizeof(ELFHeader)`. -/
def sizeofElfHeader : ℕ := 64

/-! ### Accesses -/

/-- A buffer for `size` bytes, rounded up to whole pages. -/
structure PageBuffer where
  address : ℕ
  size : ℕ
  deriving DecidableEq, Repr

namespace PageBuffer

/-- The number of pages of a buffer. -/
def pages (b : PageBuffer) : ℕ := (b.size + pageSize - 1) / pageSize

/-- The first address behind the pages of a buffer. -/
def endAddress (b : PageBuffer) : ℕ := b.address + b.pages * pageSize

/-- The range of bytes lies in the pages of the buffer. -/
def Holds (b : PageBuffer) (address size : ℕ) : Prop :=
  b.address ≤ address ∧ address + size ≤ b.endAddress

end PageBuffer

/-- What the loader does with physical memory. -/
inductive ElfAccess
  /-- The buffer of an image, or the block for the part of a segment that is not in the file. -/
  | own (buffer : PageBuffer)
  /-- Bytes of the image in a buffer are read. -/
  | read (image : PageBuffer) (address size : ℕ)
  /-- Bytes are cleared, in the buffer of an image or in a block. -/
  | clear (buffer : PageBuffer) (address size : ℕ)
  /-- A physical page is mapped for a segment. -/
  | map (page : ℕ)
  deriving DecidableEq, Repr

/-- The buffers of a load. -/
def ownedBuffers (accesses : List ElfAccess) : List PageBuffer :=
  accesses.filterMap fun
    | .own buffer => some buffer
    | _ => none

/-- Bytes are read and cleared in the buffer that they belong to, and a page that is mapped belongs
to one of the buffers. -/
def ElfAccess.Within (owned : List PageBuffer) : ElfAccess → Prop
  | .own _ => True
  | .read image address size => image.Holds address size
  | .clear buffer address size => buffer.Holds address size
  | .map page => ∃ buffer ∈ owned, buffer.Holds page pageSize

/-- The load uses nothing outside its buffers. -/
def Contained (accesses : List ElfAccess) : Prop :=
  ∀ access ∈ accesses, access.Within (ownedBuffers accesses)

/-- An ELF file: its size and its bytes. -/
structure ElfFile where
  size : ℕ
  content : ℕ → UInt8
  size_lt : size < 2 ^ 64

/-! ### The walk over the program headers -/

/-- The program header at an address. -/
def programHeader (mem : ByteMemory) (entry : ℕ) : ElfProgramHeader64 where
  type := mem.load entry 4
  flags := mem.load (entry + 4) 4
  offset := mem.load (entry + 8) 8
  virtualAddress := mem.load (entry + 16) 8
  fileSize := mem.load (entry + 32) 8
  memorySize := mem.load (entry + 40) 8

/-- `GetProgramHeaderTable`. -/
def getProgramHeaderTable (address : ℕ) (header : ElfHeader) : ℕ :=
  if address = 0 then 0 else u64 (address + header.programHeaderOffset)

namespace ElfProgramHeader64

/-- The virtual address of a file offset, if the segment contains it. -/
def translate (header : ElfProgramHeader64) (fileOffset : ℕ) : Option ℕ :=
  if header.memorySize = 0 ∨ header.fileSize = 0 then none
  else if header.type ≠ elfProgramHeaderLoad then none
  else
    let segmentFileEnd := u64 (header.offset + header.fileSize)
    if segmentFileEnd < header.offset then none
    else if fileOffset < header.offset ∨ segmentFileEnd ≤ fileOffset then none
    else some (u64 (header.virtualAddress + (fileOffset - header.offset)))

/-- The fields that are read for this, by their offsets and sizes: each is read only when the ones
before it do not rule the segment out. -/
def fieldsRead (header : ElfProgramHeader64) (fileOffset : ℕ) : List (ℕ × ℕ) :=
  (40, 8) :: if header.memorySize = 0 then [] else
    (32, 8) :: if header.fileSize = 0 then [] else
      (0, 4) :: if header.type ≠ elfProgramHeaderLoad then [] else
        (8, 8) :: if (header.translate fileOffset).isSome then [(16, 8)] else []

/-- The number of bytes of a segment in the last page of its part in the file that are cleared. -/
def bssTailBytes (header : ElfProgramHeader64) (loadBias : ℕ) : ℕ :=
  let bssVirtualStart := u64 (header.virtualAddress + loadBias + header.fileSize)
  let bssRemaining := header.memorySize - header.fileSize
  if bssVirtualStart % pageSize = 0 then 0
  else min bssRemaining (pageSize - bssVirtualStart % pageSize)

end ElfProgramHeader64

/-- A round of the walk; nothing happens once the address has been found. -/
def translateStep (mem : ByteMemory) (image : PageBuffer) (programHeaders fileOffset : ℕ)
    (index : ℕ) (found : Option ℕ) : Recorded ElfAccess (Option ℕ) :=
  if found.isSome then ⟨[], some found⟩
  else
    let entry := u64 (programHeaders + index * sizeofElfProgramHeader64)
    let header := programHeader mem entry
    ⟨(header.fieldsRead fileOffset).map fun field => .read image (entry + field.1) field.2,
      some (header.translate fileOffset)⟩

/-- `TranslateELFFileOffsetToVirtualAddress`. -/
def translateElfFileOffsetToVirtualAddress (mem : ByteMemory) (image : PageBuffer)
    (programHeaders programHeaderCount fileOffset : ℕ) : Recorded ElfAccess (Option ℕ) :=
  if programHeaders = 0 then ⟨[], some none⟩
  else
    forEach (translateStep mem image programHeaders fileOffset) (List.range programHeaderCount) none

/-! ### The extent of the image -/

/-- The address of a program header of an image whose table has been checked. -/
def entryAddressOf (image : PageBuffer) (header : ElfHeader) (index : ℕ) : ℕ :=
  image.address + header.programHeaderOffset + index * sizeofElfProgramHeader64

/-- The access that reads a program header. -/
def readEntryOf (image : PageBuffer) (header : ElfHeader) (index : ℕ) : ElfAccess :=
  .read image (entryAddressOf image header index) sizeofElfProgramHeader64

/-- The addresses between which the segments lie. -/
structure SegmentBounds where
  lowestVirtualAddress : ℕ
  highestVirtualEnd : ℕ
  hasLoadableSegment : Bool

/-- Takes a segment into account, if it is valid. -/
def SegmentBounds.addSegment (bounds : SegmentBounds) (imageSize mainLoadBias : ℕ)
    (header : ElfProgramHeader64) : Option SegmentBounds :=
  if ¬ header.isLoadableSegment then some bounds
  else if ¬ header.validateProgramSegment imageSize then none
  else if uint64Max - mainLoadBias < header.virtualAddress then none
  else
    let segmentStart := header.virtualAddress + mainLoadBias
    if uint64Max - header.memorySize < segmentStart then none
    else
      let segmentEnd := alignUpToPage (segmentStart + header.memorySize)
      some
        { lowestVirtualAddress :=
            if !bounds.hasLoadableSegment || decide (segmentStart < bounds.lowestVirtualAddress)
            then segmentStart else bounds.lowestVirtualAddress
          highestVirtualEnd :=
            if !bounds.hasLoadableSegment || decide (bounds.highestVirtualEnd < segmentEnd)
            then segmentEnd else bounds.highestVirtualEnd
          hasLoadableSegment := true }

/-- The first part of `MapELF`: the program header table and the loadable segments are checked. -/
def checkSegments (mem : ByteMemory) (image : PageBuffer) (header : ElfHeader) :
    Recorded ElfAccess SegmentBounds :=
  if ¬ header.validateProgramHeaderTable image.size ∨ image.address = 0 then fail
  else
    (forEach (fun index bounds => ⟨[readEntryOf image header index],
        bounds.addSegment image.size (getElfLoadBias header false)
          (programHeaderAt mem image.address header index)⟩)
      (List.range header.programHeaderEntryCount) ⟨0, 0, false⟩).bind fun bounds =>
    if bounds.hasLoadableSegment then ⟨[], some bounds⟩ else fail

/-- Allocates the stack and the heap. -/
def allocateStackAndHeap (m : PhysicalMemoryManager) (image : PageBuffer) (bounds : SegmentBounds) :
    Option (PhysicalMemoryManager × VirtualAddressSpaceElf) :=
  let (m, processStack) := m.allocatePagesFromDescriptor (userProcessStackSize / pageSize)
  let (m, processHeap) := m.allocatePagesFromDescriptor (userProcessHeapSize / pageSize)
  let heapStart := alignUpToPage bounds.highestVirtualEnd
  let stackStart := userProcessVirtualStackTop + 1 - userProcessStackSize
  if processStack = 0 ∨ processHeap = 0 then none
  else if stackStart < u64 (heapStart + userProcessHeapSize) then none
  else
    some (m,
      { codePhysicalAddress := image.address
        codeSize := image.size
        codeVirtualAddressStart := bounds.lowestVirtualAddress
        heapPhysicalAddress := processHeap
        heapSize := userProcessHeapSize
        heapVirtualAddressStart := heapStart
        stackPhysicalAddress := processStack
        stackSize := userProcessStackSize
        stackVirtualAddressStart := stackStart
        pageMapL4TableAddr := 0
        memoryRegions := [] })

/-! ### Segments -/

namespace ElfLoad

/-- The accesses of `addBss`. -/
def bssAccesses (s : ElfLoad) (bssRemaining : ℕ) : List ElfAccess :=
  let bssPages := u64 (bssRemaining + pageSize - 1) / pageSize
  match s.manager.allocatePagesFromDescriptor bssPages with
  | (_, 0) => []
  | (_, bssPhysical) =>
    let block : PageBuffer := ⟨bssPhysical, bssPages * pageSize⟩
    [.own block, .clear block bssPhysical (bssPages * pageSize)]

/-- The accesses of `addBssRegions`. -/
def bssRegionAccesses (s : ElfLoad) (image : PageBuffer) (segmentVirtualAddress : ℕ)
    (header : ElfProgramHeader64) : List ElfAccess :=
  if header.memorySize ≤ header.fileSize then []
  else
    let bssVirtualStart := u64 (segmentVirtualAddress + header.fileSize)
    let bssRemaining := header.memorySize - header.fileSize
    let bssTailBytes :=
      if bssVirtualStart % pageSize = 0 then 0
      else min bssRemaining (pageSize - bssVirtualStart % pageSize)
    let bssTailPhysical := u64 (image.address + header.offset + header.fileSize)
    (if bssTailBytes = 0 ∨ bssTailPhysical = 0 then []
      else [ElfAccess.clear image bssTailPhysical bssTailBytes]) ++
    match (if bssTailBytes = 0 then (s, true)
      else s.addBssTail image.address bssVirtualStart bssTailBytes header) with
    | (_, false) => []
    | (s, true) =>
      if bssRemaining = bssTailBytes then [] else s.bssAccesses (bssRemaining - bssTailBytes)

/-- The accesses of `appendSegment`, besides reading the program header. -/
def segmentAccesses (s : ElfLoad) (image : PageBuffer) (loadBias : ℕ)
    (header : ElfProgramHeader64) : List ElfAccess :=
  if ¬ header.isLoadableSegment then []
  else if ¬ header.validateProgramSegment image.size then []
  else if uint64Max - loadBias < header.virtualAddress then []
  else
    let segmentVirtualAddress := header.virtualAddress + loadBias
    match s.addFileRegion image.address segmentVirtualAddress header with
    | (_, false) => []
    | (s, true) => s.bssRegionAccesses image segmentVirtualAddress header

end ElfLoad

/-- A round of the loop of `AppendELFLoadSegmentsToAddressSpace`. -/
def appendStep (fuel : ℕ) (image : PageBuffer) (header : ElfHeader) (loadBias index : ℕ)
    (s : ElfLoad) : Recorded ElfAccess ElfLoad :=
  let programHeader := programHeaderAt s.manager.bytes image.address header index
  { events := readEntryOf image header index :: s.segmentAccesses image loadBias programHeader
    result :=
      match s.appendSegment fuel image.address image.size loadBias programHeader with
      | some (s, true) => some s
      | _ => none }

/-- `AppendELFLoadSegmentsToAddressSpace`, with its accesses. -/
def appendLoadSegments (fuel : ℕ) (image : PageBuffer) (header : ElfHeader) (loadBias : ℕ)
    (s : ElfLoad) : Recorded ElfAccess ElfLoad :=
  if ¬ header.validateProgramHeaderTable image.size ∨ image.address = 0 then fail
  else
    forEach (appendStep fuel image header loadBias) (List.range header.programHeaderEntryCount) s

/-! ### The interpreter -/

/-- The accesses of `interpreterPathLoop`. -/
def interpreterPathReads (mem : ByteMemory) (image : PageBuffer) (header : ElfHeader)
    (bufferSize : ℕ) : (remaining index : ℕ) → List ElfAccess
  | 0, _ => []
  | remaining + 1, index =>
    let programHeader := programHeaderAt mem image.address header index
    readEntryOf image header index ::
      if programHeader.type ≠ elfProgramHeaderInterp ∨ programHeader.fileSize = 0 then
        interpreterPathReads mem image header bufferSize remaining (index + 1)
      else if ¬ rangeFitsInImage programHeader.offset programHeader.fileSize image.size then []
      else if bufferSize < programHeader.fileSize then []
      else [.read image (image.address + programHeader.offset) programHeader.fileSize]

/-- `GetInterpreterPath`, with its accesses. -/
def readInterpreterPath (mem : ByteMemory) (image : PageBuffer) (header : ElfHeader) :
    Recorded ElfAccess (Option (List UInt8)) where
  events :=
    if image.address = 0 ∨ ¬ header.validateProgramHeaderTable image.size then []
    else
      interpreterPathReads mem image header elfInterpreterPathMax header.programHeaderEntryCount 0
  result :=
    some (getInterpreterPath mem image.address image.size header elfInterpreterPathMax)

/-- Copies a file into new pages, which are cleared before. -/
def copyImage (m : PhysicalMemoryManager) (file : ElfFile) :
    Recorded ElfAccess (PhysicalMemoryManager × PageBuffer) :=
  let pages := u64 (file.size + pageSize - 1) / pageSize
  match m.allocatePagesFromDescriptor pages with
  | (_, 0) => fail
  | (m, address) =>
    ⟨[.own ⟨address, file.size⟩],
      some ((m.writeBytes address (pages * pageSize) fun _ => 0).writeBytes address file.size
        file.content, ⟨address, file.size⟩)⟩

/-- Reads the header of the image in a buffer. -/
def readHeader (mem : ByteMemory) (image : PageBuffer) : Recorded ElfAccess ElfHeader :=
  ⟨[.read image image.address sizeofElfHeader], some (parseElf mem image.address)⟩

/-- The part of `MapELF` that loads the file of an interpreter. -/
def loadInterpreter (fuel : ℕ) (s : ElfLoad) (file : ElfFile) : Recorded ElfAccess ElfLoad :=
  (copyImage s.manager file).bind fun (m, interpreter) =>
    (readHeader m.bytes interpreter).bind fun interpreterHeader =>
      if ¬ interpreterHeader.validateElf64 then fail
      else
        appendLoadSegments fuel interpreter interpreterHeader
          (getElfLoadBias interpreterHeader true) { s with manager := m }

/-- The part of `MapELF` for the interpreter of an image, if there is one. The regular files with
data are `lookup`. -/
def appendInterpreter (fuel : ℕ) (lookup : List UInt8 → Option ElfFile) (image : PageBuffer)
    (header : ElfHeader) (s : ElfLoad) : Recorded ElfAccess ElfLoad :=
  (readInterpreterPath s.manager.bytes image header).bind fun
    | none => ⟨[], some s⟩
    | some interpreterPath =>
      match lookup interpreterPath with
      | none => fail
      | some file => loadInterpreter fuel s file

/-! ### The page map -/

/-- A round of the loop of `VirtualAddressSpaceELF::Init` over the pages of a region. The page that
is recorded is the one in the entry of the page table. -/
def mapPageStep (regions : List ElfMemoryRegion) (pageMapL4TableAddr : ℕ) (region : ElfMemoryRegion)
    (pageIndex : ℕ) (m : PhysicalMemoryManager) : Recorded ElfAccess PhysicalMemoryManager :=
  let physicalPage := u64 ((region.physicalAddress &&& physPageAddrMask) + pageIndex * pageSize)
  let virtualPage := u64 ((region.virtualAddress &&& physPageAddrMask) + pageIndex * pageSize)
  match m.mapPage pageMapL4TableAddr physicalPage virtualPage ⟨true, region.writable ||
    VirtualAddressSpaceElf.isPageWritableInAnyRegion regions virtualPage⟩ with
  | (_, false) => fail
  | (m, true) => ⟨[.map (physicalPage &&& validPhysicalAddrMask)], some m⟩

/-- A round of the loop over the regions. -/
def mapRegionStep (regions : List ElfMemoryRegion) (pageMapL4TableAddr : ℕ)
    (region : ElfMemoryRegion) : PhysicalMemoryManager → Recorded ElfAccess PhysicalMemoryManager :=
  forEach (mapPageStep regions pageMapL4TableAddr region)
    (List.range (getRequiredPageCount region.virtualAddress region.size))

/-- `VirtualAddressSpaceELF::Init`, with its accesses for segments. -/
def initAddressSpace (as : VirtualAddressSpaceElf) (m : PhysicalMemoryManager)
    (pageMapL4TableAddr : ℕ) :
    Recorded ElfAccess (PhysicalMemoryManager × VirtualAddressSpaceElf) where
  events :=
    if pageMapL4TableAddr = 0 ∨ as.memoryRegions = [] then []
    else (forEach (mapRegionStep as.memoryRegions pageMapL4TableAddr) as.memoryRegions m).events
  result :=
    match as.init m pageMapL4TableAddr with
    | (m, some as) => some (m, as)
    | (_, none) => none

/-- The last part of `MapELF`: the regions are mapped into a copy of the page map at
`pageMapL4Table`. -/
def mapSegments (fuel pageMapL4Table : ℕ) (as : VirtualAddressSpaceElf) (s : ElfLoad) :
    Recorded ElfAccess (PhysicalMemoryManager × VirtualAddressSpaceElf) :=
  match s.manager.copyPageMapL4Table fuel pageMapL4Table with
  | none => fail
  | some (m, processPageMapL4TableAddr) =>
    initAddressSpace { as with memoryRegions := s.memoryRegions } m processPageMapL4TableAddr

/-- `MapELF`. -/
def mapElf (fuel : ℕ) (lookup : List UInt8 → Option ElfFile) (pageMapL4Table : ℕ)
    (m : PhysicalMemoryManager) (image : PageBuffer) (header : ElfHeader) :
    Recorded ElfAccess (PhysicalMemoryManager × VirtualAddressSpaceElf) :=
  (checkSegments m.bytes image header).bind fun bounds =>
    match allocateStackAndHeap m image bounds with
    | none => fail
    | some (m, as) =>
      (appendLoadSegments fuel image header (getElfLoadBias header false) ⟨m, []⟩).bind fun s =>
        (appendInterpreter fuel lookup image header s).bind (mapSegments fuel pageMapL4Table as)

/-! ### The recorded loops

They have the results of the loops of the loader. -/

section Results

variable {fuel loadBias pageMapL4TableAddr : ℕ} {image : PageBuffer} {header : ElfHeader}
  {regions : List ElfMemoryRegion} {region : ElfMemoryRegion}

/-- The state with which a loop has ended, if it has not failed. -/
def succeeded {σ : Type*} : σ × Bool → Option σ
  | (s, true) => some s
  | (_, false) => none

theorem result_appendStep (index : ℕ) (s : ElfLoad) :
    (appendStep fuel image header loadBias index s).result =
      (s.appendSegment fuel image.address image.size loadBias
        (programHeaderAt s.manager.bytes image.address header index)).bind succeeded := by
  simp only [appendStep]
  split
  · rename_i hcall
    rw [hcall]
    rfl
  · rename_i hfailed
    rcases hcall : s.appendSegment fuel image.address image.size loadBias
      (programHeaderAt s.manager.bytes image.address header index) with _ | ⟨t, added | added⟩
    · rfl
    · rfl
    · exact absurd hcall (hfailed t)

theorem result_forEach_appendStep (remaining index : ℕ) (s : ElfLoad) :
    (forEach (appendStep fuel image header loadBias) (List.range' index remaining) s).result =
      (ElfLoad.appendSegments fuel image.address image.size loadBias header remaining index
        s).bind succeeded := by
  induction remaining generalizing index s with
  | zero => rfl
  | succ remaining ih =>
    rw [List.range'_succ, forEach, result_bind, result_appendStep, ElfLoad.appendSegments]
    rcases s.appendSegment fuel image.address image.size loadBias
      (programHeaderAt s.manager.bytes image.address header index) with _ | ⟨t, added | added⟩
    · rfl
    · rfl
    · exact ih (index + 1) t

theorem result_appendLoadSegments (s : ElfLoad) :
    (appendLoadSegments fuel image header loadBias s).result =
      (s.appendElfLoadSegments fuel image.address image.size header loadBias).bind succeeded := by
  unfold appendLoadSegments ElfLoad.appendElfLoadSegments
  split_ifs
  · rfl
  · rw [List.range_eq_range']
    exact result_forEach_appendStep _ 0 s

/-- The loop over the pages of a region. -/
theorem result_mapRegionStep (m : PhysicalMemoryManager) :
    (mapRegionStep regions pageMapL4TableAddr region m).result =
      succeeded (VirtualAddressSpaceElf.mapRegion regions pageMapL4TableAddr m region) := by
  unfold mapRegionStep VirtualAddressSpaceElf.mapRegion
  generalize getRequiredPageCount region.virtualAddress region.size = pages
  induction pages with
  | zero => rfl
  | succ pages ih =>
    rw [List.range_succ, forEach_append, result_bind, ih, mapUserPages]
    split
    · rename_i hfailed
      rw [hfailed]
      rfl
    · rename_i m' hmapped
      rw [hmapped]
      simp only [succeeded, Option.bind_some, forEach, result_bind, mapPageStep]
      split
      · rename_i hfailed
        rw [hfailed]
        rfl
      · rename_i m'' hmapped
        rw [hmapped]
        rfl

theorem result_forEach_mapRegionStep (l : List ElfMemoryRegion) (m : PhysicalMemoryManager) :
    (forEach (mapRegionStep regions pageMapL4TableAddr) l m).result =
      succeeded (VirtualAddressSpaceElf.mapRegions regions pageMapL4TableAddr l m) := by
  induction l generalizing m with
  | nil => rfl
  | cons region l ih =>
    rw [forEach, result_bind, result_mapRegionStep, VirtualAddressSpaceElf.mapRegions]
    rcases VirtualAddressSpaceElf.mapRegion regions pageMapL4TableAddr m region with
      ⟨m', mapped | mapped⟩
    · rfl
    · exact ih m'

end Results

/-! ### Processes -/

namespace ElfLoader

/-- What `CreateUserProcess` and `ChangeProcessExecution` do with an image until it is mapped. An
image without the magic number is a raw binary, which has no segments. -/
def loadImage (fuel : ℕ) (lookup : List UInt8 → Option ElfFile) (pageMapL4Table : ℕ)
    (m : PhysicalMemoryManager) (image : PageBuffer) :
    Recorded ElfAccess (PhysicalMemoryManager × VirtualAddressSpaceElf) :=
  (readHeader m.bytes image).bind fun header =>
    if ¬ header.validateElf then fail
    else
      (translateElfFileOffsetToVirtualAddress m.bytes image
        (getProgramHeaderTable image.address header) header.programHeaderEntryCount
        header.programHeaderOffset).bind fun _ =>
      mapElf fuel lookup pageMapL4Table m image header

/-- `CreateUserProcess` up to the address space; the image is in a buffer of the caller. -/
def createUserProcess (fuel : ℕ) (lookup : List UInt8 → Option ElfFile) (pageMapL4Table : ℕ)
    (m : PhysicalMemoryManager) (codeAddr codeSize : ℕ) :
    Recorded ElfAccess (PhysicalMemoryManager × VirtualAddressSpaceElf) :=
  if codeAddr = 0 ∨ codeSize = 0 then fail
  else
    (⟨[.own ⟨codeAddr, codeSize⟩], some ()⟩ : Recorded ElfAccess Unit).bind fun _ =>
      loadImage fuel lookup pageMapL4Table m ⟨codeAddr, codeSize⟩

/-- `ChangeProcessExecution` from the copy of the file to the address space. -/
def changeProcessExecution (fuel : ℕ) (lookup : List UInt8 → Option ElfFile) (pageMapL4Table : ℕ)
    (m : PhysicalMemoryManager) (file : ElfFile) :
    Recorded ElfAccess (PhysicalMemoryManager × VirtualAddressSpaceElf) :=
  (copyImage m file).bind fun (m, image) => loadImage fuel lookup pageMapL4Table m image

end ElfLoader

end TwistedOS
