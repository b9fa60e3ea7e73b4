import TwistedOS.Data.FallibleUpdates
import TwistedOS.Files.DirectoryEntries
import TwistedOS.Files.DiskBytes

/-!
# Changes of an ext2 file system

`CreateFile`, `DeleteFile` and `RenameFile` of `ExtendedFileSystemManager` change the partition of
the manager and the counters that it keeps in memory. A call that fails keeps what it has written
until then.

Buffers are modelled as memories. A buffer that is filled from the disk holds zeros behind the bytes
that were read. The code does not check that the bits of a group fit into the buffer of a bitmap, or
a new inode into the one of its size: with a superblock where they do not it leaves the buffer, and
the memories below stand for what it does only where they fit (`FitsBuffers`).

## Main definitions

* `ExtendedFileSystemManager`, `ExtendedFileSystemManager.initializeFrom`, `FileSystemUpdate`.
* `ExtendedFileSystemManager.createFile`, `ExtendedFileSystemManager.deleteFile`.
* `ExtendedFileSystemManager.renameFile`.
-/

namespace TwistedOS

/-- `EXT2_SUPERBLOCK_OFFSET_BYTES` and `EXT2_SUPERBLOCK_SIZE_BYTES`. -/
def superblockOffset : ℕ := 1024

@[inherit_doc superblockOffset]
def superblockSize : ℕ := 1024

/-- `EXT2_ROOT_INODE_NUMBER`. -/
def rootInodeNumber : ℕ := 2

/-- The memory that holds bytes from `0` on, and zeros behind them. -/
def bufferOf (bytes : List UInt8) : ByteMemory := fun i => bytes.getD i 0

/-- An `ExtendedFileSystemManager` and the disk. A manager is initialized over a partition that can
be read. -/
structure ExtendedFileSystemManager where
  partition : DiskPartition
  disk : ByteMemory
  initialized : Bool
  ready : initialized = true → partition.Ready
  blockSizeBytes : ℕ
  inodesCount : ℕ
  blocksCount : ℕ
  freeBlocksCount : ℕ
  freeInodesCount : ℕ
  firstDataBlock : ℕ
  blocksPerGroup : ℕ
  inodesPerGroup : ℕ
  inodeSizeBytes : ℕ

/-- An operation of an `ExtendedFileSystemManager`; it fails where the code returns false. -/
abbrev FileSystemUpdate (α : Type) := FallibleUpdate ExtendedFileSystemManager α

namespace ExtendedFileSystemManager

open FallibleUpdate

variable (m : ExtendedFileSystemManager)

/-- Replaces the disk. -/
def setDisk (disk : ByteMemory) : ExtendedFileSystemManager := { m with disk := disk }

/-- Replaces `FreeBlocksCount`. -/
def setFreeBlocks (count : ℕ) : ExtendedFileSystemManager := { m with freeBlocksCount := count }

/-- Replaces `FreeInodesCount`. -/
def setFreeInodes (count : ℕ) : ExtendedFileSystemManager := { m with freeInodesCount := count }

/-- The bytes of the partition. -/
def image : ByteMemory := fun offset => m.disk (m.partition.position offset)

/-- The file system as it is read. -/
def fileSystem : ExtendedFileSystem where
  initialized := m.initialized
  image := m.image
  partitionSectorCount := m.partition.sectorCount
  blockSizeBytes := m.blockSizeBytes
  inodeSizeBytes := m.inodeSizeBytes
  inodesPerGroup := m.inodesPerGroup

instance (partition : DiskPartition) : Decidable partition.Ready :=
  inferInstanceAs (Decidable (_ ∧ _))

/-- `Initialize`, over a partition. -/
def initializeFrom (partition : DiskPartition) (disk : ByteMemory) :
    Option ExtendedFileSystemManager :=
  if hready : partition.Ready then
    match partition.readBytesFromDisk disk superblockOffset superblockSize with
    | none => none
    | some bytes =>
      let superBlock := bufferOf bytes
      if superBlock.load 56 2 ≠ 0xEF53 then none
      else some
        { partition := partition
          disk := disk
          initialized := true
          ready := fun _ => hready
          -- the processor takes the count of a shift modulo 32
          blockSizeBytes := u32 (1024 * 2 ^ (superBlock.load 24 4 % 32))
          inodesCount := superBlock.load 0 4
          blocksCount := superBlock.load 4 4
          freeBlocksCount := superBlock.load 12 4
          freeInodesCount := superBlock.load 16 4
          firstDataBlock := superBlock.load 20 4
          blocksPerGroup := superBlock.load 32 4
          inodesPerGroup := superBlock.load 40 4
          inodeSizeBytes := if superBlock.load 88 2 = 0 then 128 else superBlock.load 88 2 }
  else none

/-- The sectors of the partition that can be accessed. -/
def readable (sector : ℕ) : Bool :=
  decide (m.partition.startLBA + sector < m.partition.controller.sectorLimit)

/-! ### Bytes, descriptors and inodes -/

/-- `ReadBytesFromDisk`. -/
def readBytesFromDisk (offset size : ℕ) : FileSystemUpdate ByteMemory :=
  reading fun m => (m.partition.readBytesFromDisk m.disk offset size).map bufferOf

/-- `WriteBytesToDisk`, from the start of a buffer. -/
def writeBytesToDisk (offset size : ℕ) (buffer : ByteMemory) : FileSystemUpdate Unit :=
  changing fun m =>
    let r := m.partition.writeBytesToDisk m.disk offset (buffer.loadBytes 0 size)
    (m.setDisk r.1, r.2)

/-- Reads a block. -/
def readBlock (block : ℕ) : FileSystemUpdate ByteMemory := do
  let m ← get
  guard (block * m.blockSizeBytes ≤ maxDiskOffset)
  readBytesFromDisk (block * m.blockSizeBytes) m.blockSizeBytes

/-- Writes a block. -/
def writeBlock (block : ℕ) (data : ByteMemory) : FileSystemUpdate Unit := do
  let m ← get
  guard (block * m.blockSizeBytes ≤ maxDiskOffset)
  writeBytesToDisk (block * m.blockSizeBytes) m.blockSizeBytes data

/-- The offset of a group descriptor. -/
def groupDescriptorOffset (group : ℕ) : ℕ :=
  (if m.blockSizeBytes = 1024 then 2 * m.blockSizeBytes else m.blockSizeBytes) +
    group * groupDescriptorSize

/-- `ReadGroupDescriptor`. -/
def readGroupDescriptor (group : ℕ) : FileSystemUpdate ByteMemory := do
  let m ← get
  guard (m.groupDescriptorOffset group ≤ maxDiskOffset)
  readBytesFromDisk (m.groupDescriptorOffset group) groupDescriptorSize

/-- `WriteGroupDescriptor`. -/
def writeGroupDescriptor (group : ℕ) (descriptor : ByteMemory) : FileSystemUpdate Unit := do
  let m ← get
  guard (m.groupDescriptorOffset group ≤ maxDiskOffset)
  writeBytesToDisk (m.groupDescriptorOffset group) groupDescriptorSize descriptor

/-- `WriteUpdatedSuperblockCounters`. -/
def writeUpdatedSuperblockCounters : FileSystemUpdate Unit := do
  let superBlock ← readBytesFromDisk superblockOffset superblockSize
  let m ← get
  writeBytesToDisk superblockOffset superblockSize
    ((superBlock.store 12 4 m.freeBlocksCount).store 16 4 m.freeInodesCount)

/-- `ReadInodeData`. -/
def readInodeData (inodeNumber : ℕ) : FileSystemUpdate ByteMemory :=
  reading fun m => (m.fileSystem.readInode m.readable inodeNumber).map bufferOf

/-- `WriteInodeData`. -/
def writeInodeData (inodeNumber : ℕ) (inodeData : ByteMemory) : FileSystemUpdate Unit := do
  guard (inodeNumber ≠ 0)
  let m ← get
  let descriptor ← readGroupDescriptor ((inodeNumber - 1) / m.inodesPerGroup)
  guard (descriptor.load 8 4 ≠ 0)
  guard (m.fileSystem.inodeOffset inodeNumber (descriptor.load 8 4) ≤ maxDiskOffset)
  writeBytesToDisk (m.fileSystem.inodeOffset inodeNumber (descriptor.load 8 4)) m.inodeSizeBytes
    inodeData

/-- The mode of an inode has the bit of directories. -/
def isDirectoryInode (inodeData : ByteMemory) : Bool := inodeData.load 0 2 &&& 0x4000 ≠ 0

/-- The type of an inode, from its mode. -/
def inodeType (inodeData : ByteMemory) : ℕ := inodeData.load 0 2 &&& 0xF000

/-- A direct block pointer of an inode. -/
def directPointer (inodeData : ByteMemory) (index : ℕ) : ℕ := inodeData.load (40 + index * 4) 4

/-- The direct blocks of an inode. -/
def directBlocks (inodeData : ByteMemory) : List ℕ :=
  ((List.range 12).map (directPointer inodeData)).filter (· ≠ 0)

/-! ### Directories -/

/-- Reads blocks one after the other until something is found in one of them. -/
def searchBlocks {β : Type} (search : ByteMemory → Option β) :
    List ℕ → FileSystemUpdate (Option (ℕ × β))
  | [] => pure none
  | block :: blocks => do
    let data ← readBlock block
    match search data with
    | some found => pure (some (block, found))
    | none => searchBlocks search blocks

/-- The direct blocks of an inode that must be a directory. -/
def directoryBlocks (directoryInode : ℕ) : FileSystemUpdate (List ℕ) := do
  let directoryInodeData ← readInodeData directoryInode
  guard (isDirectoryInode directoryInodeData)
  pure (directBlocks directoryInodeData)

/-- `FindEntryInDirectory` without `IsDirectory`: the inode number and the type in the record. -/
def findRecordInDirectory (directoryInode : ℕ) (entryName : List UInt8) :
    FileSystemUpdate (Option (ℕ × ℕ)) := do
  let m ← get
  let blocks ← directoryBlocks directoryInode
  let found ← searchBlocks (findEntry · m.blockSizeBytes entryName) blocks
  pure (found.map Prod.snd)

/-- `FindEntryInDirectory`: the inode number, and whether it is a directory. -/
def findEntryInDirectory (directoryInode : ℕ) (entryName : List UInt8) :
    FileSystemUpdate (Option (ℕ × Bool)) := do
  let found ← findRecordInDirectory directoryInode entryName
  match found with
  | none => pure none
  | some (inode, type) =>
    if type = 2 then pure (some (inode, true))
    else if type = 1 ∨ type = 7 then pure (some (inode, false))
    else do
      let childInodeData ← readInodeData inode
      pure (some (inode, isDirectoryInode childInodeData))

/-- `ResolveParentInode`: the directory at the end of the segments. -/
def resolveParentInode : ℕ → List (List UInt8) → FileSystemUpdate ℕ
  | currentInode, [] => pure currentInode
  | currentInode, segment :: segments => do
    let found ← findEntryInDirectory currentInode segment
    match found with
    | some (childInode, true) => resolveParentInode childInode segments
    | _ => failure

/-! ### Bitmaps -/

/-- What the allocation of inodes and the one of blocks differ in. -/
structure BitmapKind where
  /-- The field of the bitmap in a group descriptor. -/
  bitmapField : ℕ
  /-- The field of the free count in a group descriptor. -/
  freeField : ℕ
  perGroup : ExtendedFileSystemManager → ℕ
  /-- The number of the first bit of the first group. -/
  first : ExtendedFileSystemManager → ℕ
  /-- All numbers are below. -/
  limit : ExtendedFileSystemManager → ℕ
  freeCount : ExtendedFileSystemManager → ℕ
  setFreeCount : ExtendedFileSystemManager → ℕ → ExtendedFileSystemManager

/-- The bitmaps of inodes. -/
def inodeBitmaps : BitmapKind where
  bitmapField := 4
  freeField := 14
  perGroup := inodesPerGroup
  first _ := 1
  limit m := m.inodesCount + 1
  freeCount := freeInodesCount
  setFreeCount := setFreeInodes

/-- The bitmaps of blocks. -/
def blockBitmaps : BitmapKind where
  bitmapField := 0
  freeField := 12
  perGroup := blocksPerGroup
  first := firstDataBlock
  limit := blocksCount
  freeCount := freeBlocksCount
  setFreeCount := setFreeBlocks

/-- A bit of a bitmap. -/
def bitSet (bitmap : ByteMemory) (bit : ℕ) : Bool := (bitmap (bit / 8)).toNat.testBit (bit % 8)

/-- A bitmap with one bit changed. -/
def changeBit (bitmap : ByteMemory) (bit : ℕ) (value : Bool) : ByteMemory :=
  let mask : UInt8 := UInt8.ofNat (2 ^ (bit % 8))
  Function.update bitmap (bit / 8)
    (if value then bitmap (bit / 8) ||| mask else bitmap (bit / 8) &&& ~~~ mask)

namespace BitmapKind

variable (kind : BitmapKind)

/-- The number of a bit of a group. -/
def number (m : ExtendedFileSystemManager) (group bit : ℕ) : ℕ :=
  u32 (group * kind.perGroup m + bit + kind.first m)

/-- The first clear bit of a bitmap, among those whose numbers are below the limit. The code looks
at all bits of the group, also at those behind the buffer of a block. -/
def freeBit (m : ExtendedFileSystemManager) (group : ℕ) (bitmap : ByteMemory) : Option ℕ :=
  ((List.range (kind.perGroup m)).takeWhile fun bit =>
    kind.number m group bit < kind.limit m).find? fun bit => !bitSet bitmap bit

/-- The content of the bitmap that a descriptor names. -/
def readBitmap (descriptor : ByteMemory) : FileSystemUpdate ByteMemory := do
  guard (descriptor.load kind.bitmapField 4 ≠ 0)
  readBlock (descriptor.load kind.bitmapField 4)

/-- Writes back a descriptor with a new free count. -/
def writeCounts (group : ℕ) (descriptor : ByteMemory) (free : ℕ) : FileSystemUpdate Unit :=
  writeGroupDescriptor group (descriptor.store kind.freeField 2 free)

/-- `AllocateInodeInGroup` and `AllocateBlockInGroup`. -/
def allocateInGroup (countAsDirectory : Bool) (group : ℕ) : FileSystemUpdate ℕ := do
  let descriptor ← readGroupDescriptor group
  guard (descriptor.load kind.freeField 2 ≠ 0)
  let bitmap ← kind.readBitmap descriptor
  let m ← get
  match kind.freeBit m group bitmap with
  | none => failure
  | some bit => do
    writeBlock (descriptor.load kind.bitmapField 4) (changeBit bitmap bit true)
    let counted := if countAsDirectory then descriptor.store 16 2 (descriptor.load 16 2 + 1)
      else descriptor
    kind.writeCounts group counted (descriptor.load kind.freeField 2 - 1)
    guard (kind.freeCount m ≠ 0)
    changing fun m => (kind.setFreeCount m (kind.freeCount m - 1), true)
    writeUpdatedSuperblockCounters <|> do
      changing fun m => (kind.setFreeCount m (u32 (kind.freeCount m + 1)), true)
      failure
    pure (kind.number m group bit)

/-- `AllocateInodeNearGroup` and `AllocateBlockNearGroup`: the groups in turn, from one on. -/
def allocateFrom (countAsDirectory : Bool) (preferredGroup groupCount : ℕ) :
    List ℕ → FileSystemUpdate ℕ
  | [] => failure
  | groupOffset :: groupOffsets =>
    kind.allocateInGroup countAsDirectory (u32 (preferredGroup + groupOffset) % groupCount) <|>
      allocateFrom countAsDirectory preferredGroup groupCount groupOffsets

@[inherit_doc allocateFrom]
def allocateNearGroup (countAsDirectory : Bool) (preferredGroup groupCount : ℕ) :
    FileSystemUpdate ℕ :=
  kind.allocateFrom countAsDirectory preferredGroup groupCount (List.range groupCount)

/-- `FreeInode` and `FreeBlock`, for a bit of a group. -/
def freeInGroup (countAsDirectory : Bool) (group bit : ℕ) : FileSystemUpdate Unit := do
  let descriptor ← readGroupDescriptor group
  let bitmap ← kind.readBitmap descriptor
  let m ← get
  guard (bit / 8 < m.blockSizeBytes ∧ bitSet bitmap bit = true)
  writeBlock (descriptor.load kind.bitmapField 4) (changeBit bitmap bit false)
  guard (countAsDirectory = true → descriptor.load 16 2 ≠ 0)
  let counted := if countAsDirectory then descriptor.store 16 2 (descriptor.load 16 2 - 1)
    else descriptor
  kind.writeCounts group counted (descriptor.load kind.freeField 2 + 1)
  changing fun m => (kind.setFreeCount m (u32 (kind.freeCount m + 1)), true)
  writeUpdatedSuperblockCounters

end BitmapKind

/-- `InodeGroupCount`. -/
def inodeGroupCount : ℕ := u32 (m.inodesCount + m.inodesPerGroup - 1) / m.inodesPerGroup

/-- `BlockGroupCount`. -/
def blockGroupCount : ℕ := u32 (m.blocksCount + m.blocksPerGroup - 1) / m.blocksPerGroup

/-- `AllocateInodeNearGroup`. -/
def allocateInodeNearGroup (preferredGroup : ℕ) (countAsDirectory : Bool) : FileSystemUpdate ℕ := do
  let m ← get
  inodeBitmaps.allocateNearGroup countAsDirectory preferredGroup m.inodeGroupCount

/-- `AllocateBlockNearGroup`. -/
def allocateBlockNearGroup (preferredGroup : ℕ) : FileSystemUpdate ℕ := do
  let m ← get
  blockBitmaps.allocateNearGroup false preferredGroup m.blockGroupCount

/-- `FreeBlock`. -/
def freeBlock (blockNumber : ℕ) : FileSystemUpdate Unit := do
  let m ← get
  guard (m.firstDataBlock ≤ blockNumber ∧ blockNumber < m.blocksCount)
  blockBitmaps.freeInGroup false ((blockNumber - m.firstDataBlock) / m.blocksPerGroup)
    ((blockNumber - m.firstDataBlock) % m.blocksPerGroup)

/-- `FreeInode`. -/
def freeInode (inodeNumber : ℕ) (isDirectory : Bool) : FileSystemUpdate Unit := do
  let m ← get
  guard (inodeNumber ≠ 0 ∧ inodeNumber ≤ m.inodesCount)
  inodeBitmaps.freeInGroup isDirectory ((inodeNumber - 1) / m.inodesPerGroup)
    ((inodeNumber - 1) % m.inodesPerGroup)

/-! ### `CreateFile` -/

/-- The manager is initialized, with sizes that are not zero. -/
def isUsable : Bool :=
  m.initialized && m.blockSizeBytes != 0 && m.inodeSizeBytes != 0 && m.inodesPerGroup != 0 &&
    m.blocksPerGroup != 0

/-- The mode of a new inode. -/
def newInodeMode : ExtendedFileSystemEntryType → ℕ
  | .directory => 0x41ED
  | .symbolicLink => 0xA1FF
  | _ => 0x81A4

/-- The type in the record of a new inode. -/
def newEntryType : ExtendedFileSystemEntryType → ℕ
  | .directory => 2
  | .symbolicLink => 7
  | _ => 1

/-- A new inode, in a buffer of at least 44 bytes. -/
def newInodeData (type : ExtendedFileSystemEntryType) (dataBlock : ℕ) : ByteMemory :=
  let zeros : ByteMemory := fun _ => 0
  ((((zeros.store 0 2 (newInodeMode type)).store 4 4 0).store 26 2
    (if type = .directory then 2 else 1)).store 28 4
      (if type = .directory then m.blockSizeBytes / 512 else 0)).store 40 4
        (if type = .directory then dataBlock else 0)

/-- The inode of a directory that has got a new block. -/
def withNewBlock (inodeData : ByteMemory) (index block : ℕ) : ByteMemory :=
  ((inodeData.store (40 + index * 4) 4 block).store 4 4
    (inodeData.load 4 4 + m.blockSizeBytes)).store 28 4
      (inodeData.load 28 4 + m.blockSizeBytes / 512)

/-- The part of `CreateFile` that puts a record into the parent; the inode of the parent may have
got a new block. -/
def addToParent (parentInode : ℕ) (parentInodeData : ByteMemory) (name : List UInt8)
    (inode type : ℕ) : FileSystemUpdate ByteMemory := do
  let m ← get
  let found ← searchBlocks (insertEntry · m.blockSizeBytes false name inode type)
    (directBlocks parentInodeData)
  match found with
  | some (block, data) => do
    writeBlock block data
    pure parentInodeData
  | none =>
    match (List.range 12).find? fun index => directPointer parentInodeData index = 0 with
    | none => failure
    | some index => do
      let block ← allocateBlockNearGroup ((parentInode - 1) / m.inodesPerGroup)
      writeBlock block (newParentBlock m.blockSizeBytes inode type name)
      pure (m.withNewBlock parentInodeData index block)

/-- The number of links of an inode changed. -/
def withLinks (inodeData : ByteMemory) (links : ℕ) : ByteMemory := inodeData.store 26 2 links

/-- The part of `CreateFile` that makes the block of a new directory. -/
def makeDirectoryBlock (inode parentInode : ℕ) : FileSystemUpdate ℕ := do
  let m ← get
  let block ← allocateBlockNearGroup ((inode - 1) / m.inodesPerGroup)
  writeBlock block (newDirectoryBlock m.blockSizeBytes inode parentInode)
  pure block

/-- The part of `CreateFile` that makes the new inode. -/
def makeInode (parentInode : ℕ) (type : ExtendedFileSystemEntryType) : FileSystemUpdate ℕ := do
  let m ← get
  let inode ← allocateInodeNearGroup ((parentInode - 1) / m.inodesPerGroup)
    (decide (type = .directory))
  let makeBlock := if type = .directory then makeDirectoryBlock inode parentInode else pure 0
  let block ← makeBlock
  writeInodeData inode (m.newInodeData type block)
  pure inode

/-- `CreateFile`. -/
def createFile (path : List UInt8) (type : ExtendedFileSystemEntryType) :
    FileSystemUpdate Unit := do
  guard (type = .directory ∨ type = .regularFile ∨ type = .symbolicLink)
  let m ← get
  guard (m.isUsable = true)
  match parsePath path with
  | none => failure
  | some segments => do
    let name := segments.getLastD []
    let parentInode ← resolveParentInode rootInodeNumber segments.dropLast
    let existing ← findEntryInDirectory parentInode name
    guard (existing = none)
    let inode ← makeInode parentInode type
    let parentInodeData ← readInodeData parentInode
    let added ← addToParent parentInode parentInodeData name inode (newEntryType type)
    writeInodeData parentInode
      (if type = .directory then withLinks added (added.load 26 2 + 1) else added)

/-! ### `DeleteFile` -/

/-- Removes a record from the blocks of a directory: `RemoveDirectoryEntry`. -/
def removeDirectoryEntry (parentInodeData : ByteMemory) (name : List UInt8) (inode : ℕ) :
    FileSystemUpdate Unit := do
  let m ← get
  let found ← searchBlocks (removeEntry · m.blockSizeBytes name inode)
    (directBlocks parentInodeData)
  match found with
  | none => failure
  | some (block, data) => writeBlock block data

/-- Frees blocks one after the other. -/
def freeBlocks : List ℕ → FileSystemUpdate Unit
  | [] => pure ()
  | block :: blocks => do
    freeBlock block
    freeBlocks blocks

/-- The pointers of a pointer block. -/
def pointersOf (pointerBlock : ByteMemory) : List ℕ :=
  ((List.range (m.blockSizeBytes / 4)).map fun index => pointerBlock.load (index * 4) 4).filter
    (· ≠ 0)

/-- Frees the blocks of a pointer block, and it. -/
def freeIndirectBlock (pointerBlock : ℕ) : FileSystemUpdate Unit := do
  let data ← readBlock pointerBlock
  freeBlocks (m.pointersOf data)
  freeBlock pointerBlock

/-- Frees the direct blocks and the blocks of the single indirect block; there may be no others. -/
def freeInodeBlocks (targetInodeData : ByteMemory) : FileSystemUpdate Unit := do
  let m ← get
  freeBlocks (directBlocks targetInodeData)
  onlyIf (targetInodeData.load 88 4 ≠ 0) (m.freeIndirectBlock (targetInodeData.load 88 4))
  guard (targetInodeData.load 92 4 = 0 ∧ targetInodeData.load 96 4 = 0)

/-- The search of a target: an entry that is there, of the wanted kind. -/
def findTarget (parentInode : ℕ) (name : List UInt8) (directory : Bool) :
    FileSystemUpdate ℕ := do
  let found ← findEntryInDirectory parentInode name
  match found with
  | none => failure
  | some (targetInode, isDirectory) => do
    guard (targetInode ≠ 0 ∧ isDirectory = directory)
    pure targetInode

/-- A directory to be deleted has no records besides `.` and `..`. -/
def checkEmpty (directoryInodeData : ByteMemory) : FileSystemUpdate Unit := do
  let found ← searchBlocks
    (fun data => if hasEntries data m.blockSizeBytes then some () else none)
    (directBlocks directoryInodeData)
  guard (found = none)

/-- Takes a link from the parent of a directory. -/
def removeLink (parentInode : ℕ) (parentInodeData : ByteMemory) : FileSystemUpdate Unit := do
  guard (parentInodeData.load 26 2 ≠ 0)
  writeInodeData parentInode (withLinks parentInodeData (parentInodeData.load 26 2 - 1))

/-- `DeleteFile`. -/
def deleteFile (path : List UInt8) (type : ExtendedFileSystemEntryType) :
    FileSystemUpdate Unit := do
  guard (type = .directory ∨ type = .regularFile)
  let m ← get
  guard (m.isUsable = true)
  match parsePath path with
  | none => failure
  | some segments => do
    let name := segments.getLastD []
    let parentInode ← resolveParentInode rootInodeNumber segments.dropLast
    let targetInode ← findTarget parentInode name (decide (type = .directory))
    let targetInodeData ← readInodeData targetInode
    guard (inodeType targetInodeData = if type = .directory then 0x4000 else 0x8000)
    onlyIf (type = .directory) (m.checkEmpty targetInodeData)
    let parentInodeData ← readInodeData parentInode
    removeDirectoryEntry parentInodeData name targetInode
    onlyIf (type = .directory) (removeLink parentInode parentInodeData)
    freeInodeBlocks targetInodeData
    writeInodeData targetInode fun _ => 0
    freeInode targetInode (decide (type = .directory))

/-! ### `RenameFile` -/

/-- `AddDirectoryEntry`. -/
def addDirectoryEntry (parentInode : ℕ) (name : List UInt8) (inode type : ℕ) :
    FileSystemUpdate Unit := do
  guard (name ≠ [] ∧ name.length ≤ 255 ∧ inode ≠ 0)
  let m ← get
  let parentInodeData ← readInodeData parentInode
  let found ← searchBlocks (insertEntry · m.blockSizeBytes true name inode type)
    (directBlocks parentInodeData)
  match found with
  | none => failure
  | some (block, data) => writeBlock block data

/-- `UpdateDotDotEntry`. -/
def updateDotDotEntry (directoryInode newParent : ℕ) : FileSystemUpdate Unit := do
  let m ← get
  let directoryInodeData ← readInodeData directoryInode
  let found ← searchBlocks (updateDotDot · m.blockSizeBytes newParent)
    (directBlocks directoryInodeData)
  match found with
  | none => failure
  | some (block, data) => writeBlock block data

/-- `GetParentDirectoryInode`. -/
def getParentDirectoryInode (directoryInode : ℕ) : FileSystemUpdate ℕ := do
  let m ← get
  let blocks ← directoryBlocks directoryInode
  let found ← searchBlocks (parentEntry · m.blockSizeBytes) blocks
  match found with
  | none => failure
  | some (_, parent) => pure parent

/-- The loop of `RenameFile` over the parents of the new parent, for at most `fuel` rounds: whether
it ends at the root, and not at the target or with an error. -/
def ancestorCheck (targetInode : ℕ) : (fuel : ℕ) → (cursor : ℕ) → Option Bool
  | 0, _ => none
  | fuel + 1, cursor =>
    if cursor = targetInode then some false
    else if cursor = rootInodeNumber then some true
    else
      match ((getParentDirectoryInode cursor).runFrom m).1 with
      | none => some false
      | some parent =>
        if parent = 0 ∨ parent = cursor then some false else ancestorCheck targetInode fuel parent

/-- What `RenameFile` has found before its changes. -/
structure RenamePlan where
  oldParent : ℕ
  oldName : List UInt8
  newParent : ℕ
  newName : List UInt8
  targetInode : ℕ
  deriving DecidableEq

/-- `RenameFile` up to the loop over the parents; nothing is planned for equal paths. -/
def planRename (oldPath newPath : List UInt8) (type : ExtendedFileSystemEntryType) :
    FileSystemUpdate (Option RenamePlan) := do
  guard (type = .directory ∨ type = .regularFile)
  let m ← get
  guard (m.isUsable = true)
  match parsePath oldPath, parsePath newPath with
  | some oldSegments, some newSegments =>
    if oldSegments = newSegments then pure none else do
      let oldParent ← resolveParentInode rootInodeNumber oldSegments.dropLast
      let newParent ← resolveParentInode rootInodeNumber newSegments.dropLast
      let targetInode ← findTarget oldParent (oldSegments.getLastD [])
        (decide (type = .directory))
      let destination ← findRecordInDirectory newParent (newSegments.getLastD [])
      guard (destination = none)
      guard (type = .directory → newParent ≠ targetInode)
      pure (some ⟨oldParent, oldSegments.getLastD [], newParent, newSegments.getLastD [],
        targetInode⟩)
  | _, _ => failure

/-- A directory that has got another parent: its record `..` and the links of the parents. -/
def moveDirectory (plan : RenamePlan) : FileSystemUpdate Unit := do
  updateDotDotEntry plan.targetInode plan.newParent
  let oldParentInodeData ← readInodeData plan.oldParent
  let newParentInodeData ← readInodeData plan.newParent
  guard (oldParentInodeData.load 26 2 ≠ 0)
  writeInodeData plan.oldParent
    (withLinks oldParentInodeData (oldParentInodeData.load 26 2 - 1))
  writeInodeData plan.newParent
    (withLinks newParentInodeData (newParentInodeData.load 26 2 + 1))

/-- `RemoveDirectoryEntry` of `RenameFile`. -/
def removeFromDirectory (parentInode : ℕ) (name : List UInt8) (inode : ℕ) :
    FileSystemUpdate Unit := do
  let parentInodeData ← readInodeData parentInode
  removeDirectoryEntry parentInodeData name inode

/-- The changes of `RenameFile`. -/
def performRename (plan : RenamePlan) (type : ExtendedFileSystemEntryType) :
    FileSystemUpdate Unit := do
  addDirectoryEntry plan.newParent plan.newName plan.targetInode
    (if type = .directory then 2 else 1)
  removeFromDirectory plan.oldParent plan.oldName plan.targetInode <|> do
    removeFromDirectory plan.newParent plan.newName plan.targetInode <|> pure ()
    failure
  onlyIf (type = .directory ∧ plan.oldParent ≠ plan.newParent) (moveDirectory plan)

/-- `RenameFile`, with at most `fuel` rounds of the loop over the parents: the result and the
manager afterwards, if the loop ends. -/
def renameFile (fuel : ℕ) (oldPath newPath : List UInt8) (type : ExtendedFileSystemEntryType) :
    Option (Option Unit × ExtendedFileSystemManager) :=
  match ((planRename oldPath newPath type).runFrom m).1 with
  | none => some (none, m)
  | some none => some (some (), m)
  | some (some plan) =>
    match (if type = .directory then m.ancestorCheck plan.targetInode fuel plan.newParent
      else some true) with
    | none => none
    | some false => some (none, m)
    | some true => some ((performRename plan type).runFrom m)

end ExtendedFileSystemManager

end TwistedOS
