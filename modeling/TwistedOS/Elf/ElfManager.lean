import TwistedOS.Data.ByteMemory
import TwistedOS.KernelParameters

/-!
# ELF files

The headers of 64-bit ELF files as `ELFManager.cpp` reads and checks them. A file is given by the
memory that holds it, the address of its first byte and its size.

## Main definitions

* `ElfHeader`, `ElfProgramHeader64`, `parseElf`, `programHeaderAt`.
* `ElfHeader.validateProgramHeaderTable`, `ElfProgramHeader64.validateProgramSegment`.
* `getInterpreterPath`: the path in the header of the interpreter.
-/

namespace TwistedOS

/-- `ELF_TYPE_DYN`. -/
def elfTypeDyn : ℕ := 3

/-- `ELF_PROGRAM_HEADER_LOAD`. -/
def elfProgramHeaderLoad : ℕ := 1

/-- `ELF_PROGRAM_HEADER_INTERP`. -/
def elfProgramHeaderInterp : ℕ := 3

/-- `sizeof(ELFProgramHeader64)`. -/
def sizeofElfProgramHeader64 : ℕ := 56

/-- The fields of `ELFHeader` that the kernel uses. -/
structure ElfHeader where
  magic : List UInt8
  fileClass : ℕ
  data : ℕ
  type : ℕ
  version : ℕ
  entry : ℕ
  programHeaderOffset : ℕ
  programHeaderEntrySize : ℕ
  programHeaderEntryCount : ℕ
  deriving DecidableEq

/-- The fields of `ELFProgramHeader64` that the kernel uses. -/
structure ElfProgramHeader64 where
  type : ℕ
  flags : ℕ
  offset : ℕ
  virtualAddress : ℕ
  fileSize : ℕ
  memorySize : ℕ
  deriving DecidableEq, Repr

/-- The range lies in a file. -/
def rangeFitsInImage (offset size imageSize : ℕ) : Bool :=
  decide (offset ≤ imageSize ∧ size ≤ imageSize - offset)

/-- The header of the file at an address. -/
def parseElf (mem : ByteMemory) (address : ℕ) : ElfHeader where
  magic := [mem address, mem (address + 1), mem (address + 2), mem (address + 3)]
  fileClass := mem.load (address + 4) 1
  data := mem.load (address + 5) 1
  type := mem.load (address + 16) 2
  version := mem.load (address + 20) 4
  entry := mem.load (address + 24) 8
  programHeaderOffset := mem.load (address + 32) 8
  programHeaderEntrySize := mem.load (address + 54) 2
  programHeaderEntryCount := mem.load (address + 56) 2

/-- An entry of the program header table of the file at an address. -/
def programHeaderAt (mem : ByteMemory) (imageAddress : ℕ) (header : ElfHeader) (index : ℕ) :
    ElfProgramHeader64 :=
  let entry := imageAddress + header.programHeaderOffset + index * sizeofElfProgramHeader64
  { type := mem.load entry 4
    flags := mem.load (entry + 4) 4
    offset := mem.load (entry + 8) 8
    virtualAddress := mem.load (entry + 16) 8
    fileSize := mem.load (entry + 32) 8
    memorySize := mem.load (entry + 40) 8 }

namespace ElfHeader

/-- The magic number. -/
def validateElf (header : ElfHeader) : Bool := decide (header.magic = [0x7F, 0x45, 0x4C, 0x46])

/-- A 64-bit little-endian file of the current version. -/
def validateElf64 (header : ElfHeader) : Bool :=
  header.validateElf && decide (header.fileClass = 2 ∧ header.data = 1 ∧ header.version = 1)

/-- The program header table is there and lies in the file. -/
def validateProgramHeaderTable (header : ElfHeader) (imageSize : ℕ) : Bool :=
  header.validateElf64 &&
    decide (header.programHeaderEntryCount ≠ 0 ∧
      header.programHeaderEntrySize = sizeofElfProgramHeader64) &&
    rangeFitsInImage header.programHeaderOffset
      (header.programHeaderEntryCount * header.programHeaderEntrySize) imageSize

end ElfHeader

namespace ElfProgramHeader64

/-- The segment is to be loaded. -/
def isLoadableSegment (header : ElfProgramHeader64) : Bool :=
  decide (header.type = elfProgramHeaderLoad ∧ header.memorySize ≠ 0)

/-- The flag `ELF_PROGRAM_HEADER_FLAG_WRITE`. -/
def isWritableSegment (header : ElfProgramHeader64) : Bool := header.flags.testBit 1

/-- The part of the segment that is in the file fits. -/
def validateProgramSegment (header : ElfProgramHeader64) (imageSize : ℕ) : Bool :=
  decide (header.memorySize ≠ 0 ∧ header.fileSize ≤ header.memorySize) &&
    rangeFitsInImage header.offset header.fileSize imageSize

end ElfProgramHeader64

/-- The loop of `GetInterpreterPath` over the program headers from `index` on. -/
def interpreterPathLoop (mem : ByteMemory) (imageAddress imageSize : ℕ) (header : ElfHeader)
    (bufferSize : ℕ) : (remaining index : ℕ) → Option (List UInt8)
  | 0, _ => none
  | remaining + 1, index =>
    let programHeader := programHeaderAt mem imageAddress header index
    if programHeader.type ≠ elfProgramHeaderInterp ∨ programHeader.fileSize = 0 then
      interpreterPathLoop mem imageAddress imageSize header bufferSize remaining (index + 1)
    else if ¬ rangeFitsInImage programHeader.offset programHeader.fileSize imageSize then none
    else if bufferSize < programHeader.fileSize then none
    else
      let path := (List.range programHeader.fileSize).map fun i =>
        mem (imageAddress + programHeader.offset + i)
      if 0 ∈ path then some (path.takeWhile (· ≠ 0)) else none

/-- The path of the interpreter, up to its terminator. -/
def getInterpreterPath (mem : ByteMemory) (imageAddress imageSize : ℕ) (header : ElfHeader)
    (bufferSize : ℕ) : Option (List UInt8) :=
  if imageAddress = 0 ∨ bufferSize = 0 then none
  else if ¬ header.validateProgramHeaderTable imageSize then none
  else
    interpreterPathLoop mem imageAddress imageSize header bufferSize
      header.programHeaderEntryCount 0

end TwistedOS
