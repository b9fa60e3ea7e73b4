import Mathlib.Data.List.GetD
import TwistedOS.Files.FileSystemUpdates

/-!
# The steps of file system changes

What a read returns, for each of the operations that `CreateFile`, `DeleteFile` and `RenameFile` are
put together from. Only ranges that can be accessed are read.

## Main definitions

* `ExtendedFileSystemManager.buffer`: the bytes of the partition that a read returns.
* `ExtendedFileSystemManager.imageOfBlocks`: small images.

## Main results

* `ExtendedFileSystemManager.yields_readBytesFromDisk`,
  `ExtendedFileSystemManager.yields_searchBlocks_some`.
-/

namespace TwistedOS

/-- A buffer holds the bytes that were read, and zeros behind them. -/
theorem bufferOf_loadBytes (mem : ByteMemory) (a n : ℕ) :
    bufferOf (mem.loadBytes a n) = fun i => if i < n then mem (a + i) else 0 := by
  funext i
  rw [bufferOf]
  split_ifs with hi
  · rw [List.getD_eq_getElem _ _ (by rwa [ByteMemory.length_loadBytes]),
      ByteMemory.getElem_loadBytes]
  · exact List.getD_eq_default _ _ (by rw [ByteMemory.length_loadBytes]; omega)

namespace ExtendedFileSystemManager

open FallibleUpdate

variable (m : ExtendedFileSystemManager)

/-- The bytes of a range of the partition in a buffer. -/
def buffer (offset size : ℕ) : ByteMemory := fun i => if i < size then m.image (offset + i) else 0

variable {m} {m' : ExtendedFileSystemManager} {offset size block : ℕ} {data : ByteMemory} {u : Unit}

theorem yields_readBytesFromDisk (hinit : m.initialized = true) :
    (readBytesFromDisk offset size).Yields m data m' ↔
      m.partition.Covers offset size ∧ data = m.buffer offset size ∧ m' = m := by
  rw [readBytesFromDisk, yields_reading, DiskPartition.readBytesFromDisk_eq (m.ready hinit)]
  by_cases hcovers : m.partition.Covers offset size
  · have hbuffer : bufferOf (m.disk.loadBytes (m.partition.position offset) size) =
        m.buffer offset size := by
      rw [bufferOf_loadBytes]
      funext i
      rw [buffer, image, DiskPartition.position, DiskPartition.position, Nat.add_assoc]
    rw [if_pos hcovers, Option.map_some, Option.some.injEq, hbuffer]
    tauto
  · rw [if_neg hcovers]
    simp [hcovers]

theorem yields_readBlock (hinit : m.initialized = true) :
    (readBlock block).Yields m data m' ↔
      (block * m.blockSizeBytes ≤ maxDiskOffset ∧
        m.partition.Covers (block * m.blockSizeBytes) m.blockSizeBytes) ∧
      data = m.buffer (block * m.blockSizeBytes) m.blockSizeBytes ∧ m' = m := by
  rw [readBlock, yields_get_bind, yields_guard_bind, yields_readBytesFromDisk hinit, and_assoc]

/-! ### Searches through blocks -/

/-- The blocks of a directory are those of its inode. -/
theorem yields_directoryBlocks {directoryInode : ℕ} {blocks : List ℕ} :
    (directoryBlocks directoryInode).Yields m blocks m' ↔ ∃ data,
      (m.fileSystem.readInode m.readable directoryInode).map bufferOf = some data ∧
        isDirectoryInode data = true ∧ blocks = directBlocks data ∧ m' = m := by
  rw [directoryBlocks, yields_bind]
  simp only [yields_guard_bind, yields_pure, readInodeData, yields_reading]
  constructor
  · rintro ⟨data, _, ⟨hdata, rfl⟩, hdirectory, rfl, rfl⟩
    exact ⟨data, hdata, hdirectory, rfl, rfl⟩
  · rintro ⟨data, hdata, hdirectory, rfl, rfl⟩
    exact ⟨data, m', ⟨hdata, rfl⟩, hdirectory, rfl, rfl⟩

/-- What is found is in a block that can be read. -/
theorem yields_searchBlocks_some {β : Type} {search : ByteMemory → Option β} {blocks : List ℕ}
    {found : β} (hinit : m.initialized = true)
    (h : (searchBlocks search blocks).Yields m (some (block, found)) m') :
    block ∈ blocks ∧ m' = m ∧ search (m.buffer (block * m.blockSizeBytes) m.blockSizeBytes) =
      some found := by
  induction blocks with
  | nil =>
    rw [searchBlocks, yields_pure] at h
    cases h.1
  | cons b blocks ih =>
    rw [searchBlocks, yields_bind] at h
    obtain ⟨data, m₁, hread, h⟩ := h
    obtain ⟨-, rfl, rfl⟩ := (yields_readBlock hinit).mp hread
    rcases hsearch : search (m₁.buffer (b * m₁.blockSizeBytes) m₁.blockSizeBytes) with _ | r
    · rw [hsearch] at h
      obtain ⟨hmem, hrest⟩ := ih h
      exact ⟨List.mem_cons_of_mem b hmem, hrest⟩
    · rw [hsearch] at h
      obtain ⟨heq, rfl⟩ := yields_pure.mp h
      cases heq
      exact ⟨List.mem_cons_self, rfl, hsearch⟩

/-! ### Images of one group -/

/-- The content of blocks of 1024 bytes, one after the other. -/
def imageOfBlocks (blocks : List ByteMemory) : ByteMemory := fun offset =>
  blocks.getD (offset / 1024) (fun _ => 0) (offset % 1024)

/-- The superblock of a file system with 16 inodes and 16 blocks of 1024 bytes. -/
def smallSuperblock (freeBlocks freeInodes : ℕ) : ByteMemory :=
  let zeros : ByteMemory := fun _ => 0
  ((((((((zeros.store 0 4 16).store 4 4 16).store 12 4 freeBlocks).store 16 4 freeInodes).store
    20 4 1).store 32 4 16).store 40 4 16).store 56 2 0xEF53).store 88 2 128

/-- The descriptor of its group: the bitmaps are in the blocks 3 and 4, the inodes in 5 and 6. -/
def smallDescriptor (freeBlocks freeInodes directories : ℕ) : ByteMemory :=
  let zeros : ByteMemory := fun _ => 0
  (((((zeros.store 0 4 3).store 4 4 4).store 8 4 5).store 12 2 freeBlocks).store
    14 2 freeInodes).store 16 2 directories

/-- An inode with at most one block. -/
def smallInode (mode size links block : ℕ) : ByteMemory :=
  let zeros : ByteMemory := fun _ => 0
  ((((zeros.store 0 2 mode).store 4 4 size).store 26 2 links).store 28 4
    (if block = 0 then 0 else 2)).store 40 4 block

/-- A block of the inode table, with the inodes behind a number. -/
def smallInodeBlock (inode : ℕ → ByteMemory) (first : ℕ) : ByteMemory := fun offset =>
  inode (first + offset / 128) (offset % 128)

/-- A partition of 32 sectors at the start of the disk. -/
def smallPartition : DiskPartition where
  controller := DiskPartition.wholeController
  partitionConfigured := true
  startLBA := 0
  sectorCount := 32
  end_le := by decide

end ExtendedFileSystemManager

end TwistedOS
