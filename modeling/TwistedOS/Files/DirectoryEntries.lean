import Mathlib.Data.List.DropRight
import TwistedOS.Data.PathSegments
import TwistedOS.Data.PlacedBytes
import TwistedOS.KernelParameters

/-!
# The records of a directory block

A directory block of an ext2 file system consists of records with an inode number, a length, and the
length, the type and the bytes of a name. The manager scans a block from one record to the next and
stops at a length that is too small or leads out of the block. A new record is put behind a record
that is longer than its name needs; a record is removed by adding its length to the one before it,
or, for the first record, by clearing its inode number.

## Main definitions

* `entryOffsets`: the records that a scan of a block meets.
* `findEntry`, `insertEntry`, `removeEntry`, `hasEntries`, `parentEntry`, `updateDotDot`.
* `newDirectoryBlock`, `newParentBlock`.
* `parsePath`.
-/

namespace TwistedOS

/-- The value of a 16-bit register after a computation with result `n`. -/
def u16 (n : ℕ) : ℕ := n % 2 ^ 16

/-- `ExtendedFileSystemEntryType`. -/
inductive ExtendedFileSystemEntryType
  | unknown
  | regularFile
  | directory
  | symbolicLink
  | other
  deriving DecidableEq, Repr

/-- `AlignTo4`. -/
def alignTo4 (value : ℕ) : ℕ := u16 ((value + 3) / 4 * 4)

/-! ### Records -/

variable (block : ByteMemory) (size offset : ℕ)

/-- `EntryInode`. -/
def entryInode : ℕ := block.load offset 4

/-- `EntryLength`. -/
def entryLength : ℕ := block.load (offset + 4) 2

/-- `NameLength`. -/
def entryNameLength : ℕ := (block (offset + 6)).toNat

/-- `EntryType`. -/
def entryType : ℕ := (block (offset + 7)).toNat

/-- The bytes of the name of a record. -/
def entryName : List UInt8 := block.loadBytes (offset + 8) (entryNameLength block offset)

/-- A scan meets a record at an offset and goes on behind it. -/
def HasEntry : Prop :=
  offset + 8 ≤ size ∧ 8 ≤ entryLength block offset ∧ offset + entryLength block offset ≤ size

instance : Decidable (HasEntry block size offset) := inferInstanceAs (Decidable (_ ∧ _))

/-- The offsets of the records that a scan meets from an offset on. -/
def entryOffsets (offset : ℕ) : List ℕ :=
  if _h : HasEntry block size offset then
    offset :: entryOffsets (offset + entryLength block offset)
  else []
  termination_by size - offset
  decreasing_by
    obtain ⟨hin, hlength, -⟩ := _h
    omega

/-- The name of a record is `.`. -/
def isDot : Bool := entryNameLength block offset = 1 ∧ block (offset + 8) = 0x2E

/-- The name of a record is `..`. -/
def isDotDot : Bool :=
  entryNameLength block offset = 2 ∧ block (offset + 8) = 0x2E ∧ block (offset + 9) = 0x2E

/-- The name of a record lies in the record and is `name`. -/
def nameMatches (name : List UInt8) : Bool :=
  entryNameLength block offset = name.length ∧ 8 + name.length ≤ entryLength block offset ∧
    entryName block offset = name

/-! ### Searches -/

/-- The inode number and the type of the first record with a name. -/
def findEntry (name : List UInt8) : Option (ℕ × ℕ) :=
  ((entryOffsets block size 0).find? fun offset =>
    decide (entryInode block offset ≠ 0) && nameMatches block offset name).map fun offset =>
      (entryInode block offset, entryType block offset)

/-- The block has records besides `.` and `..`. -/
def hasEntries : Bool :=
  (entryOffsets block size 0).any fun offset =>
    decide (entryInode block offset ≠ 0) && !isDot block offset && !isDotDot block offset

/-- The inode number of the first record `..`. -/
def parentEntry : Option ℕ :=
  ((entryOffsets block size 0).find? fun offset =>
    decide (entryInode block offset ≠ 0) && isDotDot block offset).map (entryInode block)

/-! ### Changes -/

/-- A record for a name, with its length. -/
def writeEntry (length inode type : ℕ) (name : List UInt8) : ByteMemory :=
  ((((block.store offset 4 inode).store (offset + 4) 2 length).store (offset + 6) 1
    name.length).store (offset + 7) 1 type).storeBytes (offset + 8) name

/-- The length that the record at an offset needs. -/
def minimumLength : ℕ := alignTo4 (u16 (8 + entryNameLength block offset))

/-- Puts a record behind the first one that leaves room for it. `clearTail` clears what is left of
the record behind the name. -/
def insertEntry (clearTail : Bool) (name : List UInt8) (inode type : ℕ) : Option ByteMemory :=
  ((entryOffsets block size 0).find? fun offset =>
    decide (u16 (minimumLength block offset + alignTo4 (u16 (8 + name.length))) ≤
      entryLength block offset)).map fun offset =>
    let minimum := minimumLength block offset
    let remaining := u16 (entryLength block offset - minimum)
    let newOffset := u16 (offset + minimum)
    let written := writeEntry (block.store (offset + 4) 2 minimum) newOffset remaining inode type
      name
    if clearTail then
      written.storeBytes (newOffset + 8 + name.length)
        (List.replicate (remaining - 8 - name.length) 0)
    else written

/-- Removes the first record with a name and an inode number among records with a previous one. -/
def removeEntryFrom (name : List UInt8) (inode : ℕ) : Option ℕ → List ℕ → Option ByteMemory
  | _, [] => none
  | previous, offset :: offsets =>
    if entryInode block offset = inode ∧ nameMatches block offset name then
      match previous with
      | some previous => some (block.store (previous + 4) 2
          (entryLength block previous + entryLength block offset))
      | none => some (block.store offset 4 0)
    else removeEntryFrom name inode (some offset) offsets

/-- The part of `RemoveDirectoryEntry` for a block. -/
def removeEntry (name : List UInt8) (inode : ℕ) : Option ByteMemory :=
  removeEntryFrom block name inode none (entryOffsets block size 0)

/-- The part of `UpdateDotDotEntry` for a block. -/
def updateDotDot (parent : ℕ) : Option ByteMemory :=
  ((entryOffsets block size 0).find? (isDotDot block)).map fun offset => block.store offset 4 parent

/-- The block of a new directory. -/
def newDirectoryBlock (inode parent : ℕ) : ByteMemory :=
  writeEntry (writeEntry (fun _ => 0) 0 12 inode 2 [0x2E]) 12 (u16 (size - 12)) parent 2
    [0x2E, 0x2E]

/-- A new block of a directory, with one record. -/
def newParentBlock (inode type : ℕ) (name : List UInt8) : ByteMemory :=
  writeEntry (fun _ => 0) 0 (u16 size) inode type name

/-! ### Paths -/

/-- `MAX_PATH_CHARS`, `MAX_PATH_SEGMENTS` and `MAX_SEGMENT_CHARS` of the manager. -/
def maxPathChars : ℕ := 1024

@[inherit_doc maxPathChars]
def maxPathSegments : ℕ := 64

@[inherit_doc maxPathChars]
def maxSegmentChars : ℕ := 255

/-- `ParsePath`: the segments of a path, the last of which is not `.` or `..`. -/
def parsePath (path : List UInt8) : Option (List (List UInt8)) :=
  let pathBuffer := (path.dropWhile (· = 0x2F)).take (maxPathChars - 1)
  let segments := (Text.segments 0x2F (pathBuffer.rdropWhile (· = 0x2F))).map Prod.fst
  if segments = [] ∨ maxPathSegments < segments.length ∨
      (segments.any fun segment => decide (maxSegmentChars < segment.length)) ∨
      segments.getLast? = some [0x2E] ∨ segments.getLast? = some [0x2E, 0x2E] then none
  else some segments

end TwistedOS
