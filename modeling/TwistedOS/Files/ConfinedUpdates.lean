import TwistedOS.Files.DirectoryTraversal

/-!
# What file system calls leave alone

`CreateFile`, `DeleteFile` and `RenameFile` may fail after they have written to the disk, and what
they write depends on bitmaps, descriptors and directories that may hold anything. Whether they fail
or not, they write into the partition only, and the manager keeps the partition and the sizes that
it has read from the superblock.

The sizes of the superblock are not checked by the code against the buffers of a call: the bitmap of
a group is read into a buffer of one block, and a new inode has a buffer of the size of an inode.
The result is about file systems whose sizes fit, on which no call leaves its buffers.

## Main definitions

* `ExtendedFileSystemManager.FitsBuffers`: the sizes fit the buffers.
* `ExtendedFileSystemManager.Confined`: what stays.
* `ExtendedFileSystemManager.CallRun`: sequences of calls.

## Main results

* `ExtendedFileSystemManager.CallRun.confined`.
* `ExtendedFileSystemManager.unchanged_or_checked`: calls that are refused change nothing.
-/

namespace TwistedOS

/-! ### Writing to the partition -/

namespace DiskPartition

variable (p : DiskPartition)

/-- A byte of the disk lies in a sector of the partition. -/
def Holds (a : ℕ) : Prop :=
  controllerSectorSize * p.startLBA ≤ a ∧
    a < controllerSectorSize * (p.startLBA + p.sectorCount)

variable {p} {disk written : ByteMemory} {a offset sector : ℕ} {bytes buffer source : List UInt8}

theorem length_sectorBuffer_le {sectorStart : ℕ}
    (hfits : sectorStart + bytes.length ≤ controllerSectorSize)
    (h : p.sectorBuffer disk sector sectorStart bytes = some buffer) :
    buffer.length ≤ controllerSectorSize := by
  obtain ⟨old, hold, rfl⟩ := Option.map_eq_some_iff.mp h
  have hlength : old.length = controllerSectorSize := by
    split_ifs at hold with hpart
    · rw [IDEController.readBlocks, Option.ite_none_left_eq_some] at hold
      rw [← Option.some.inj hold.2, ByteMemory.length_loadBytes, Nat.mul_one]
    · rw [← Option.some.inj hold, List.length_replicate]
  simp only [List.length_append, List.length_take, List.length_drop, hlength]
  omega

/-- A sector of the partition is written. -/
theorem writeBlock_outside (hin : sector < p.sectorCount)
    (hbuffer : buffer.length ≤ controllerSectorSize)
    (h : p.controller.writeBlock disk (p.absoluteSector sector) buffer = some written)
    (ha : ¬ p.Holds a) : written a = disk a := by
  rw [IDEController.writeBlock, absoluteSector_eq hin] at h
  split_ifs at h
  rw [← Option.some.inj h]
  refine ByteMemory.storeBytes_apply_of_notMem ?_
  rw [Holds] at ha
  simp only [controllerSectorSize] at *
  omega

/-- The loop of `WriteBytesToDisk`, also where it stops early. -/
theorem writeSectors_outside (ha : ¬ p.Holds a) (rounds : ℕ)
    (hin : sector + rounds ≤ p.sectorCount) :
    (p.writeSectors offset rounds disk source sector).1 a = disk a := by
  induction rounds generalizing disk source sector with
  | zero => rfl
  | succ rounds ih =>
    rw [writeSectors]
    split_ifs with hlarge
    · rfl
    · split
      next => rfl
      next buffer hbuffer =>
        split
        next => rfl
        next written hwritten =>
          have hstart := @sectorStartOffset_lt offset sector
          have hlength := length_sectorBuffer_le (by
            rw [List.length_take]
            omega) hbuffer
          rw [ih (by omega), writeBlock_outside (by omega) hlength hwritten ha]

theorem writeBytesToDisk_outside (ha : ¬ p.Holds a) :
    (p.writeBytesToDisk disk offset source).1 a = disk a := by
  rw [writeBytesToDisk]
  split_ifs with hready hempty hin
  · rfl
  · rfl
  · refine writeSectors_outside ha _ ?_
    have := hin.2
    have hle : offset / controllerSectorSize ≤
        (offset + source.length - 1) / controllerSectorSize := Nat.div_le_div_right (by omega)
    omega
  · rfl

end DiskPartition

namespace ExtendedFileSystemManager

open FallibleUpdate

/-! ### What stays -/

/-- The partition, the sizes of the file system and the rest of the disk are the same. -/
structure Confined (m₀ m : ExtendedFileSystemManager) : Prop where
  kept : m = { m₀ with
    disk := m.disk
    freeBlocksCount := m.freeBlocksCount
    freeInodesCount := m.freeInodesCount }
  outside : ∀ a, ¬ m₀.partition.Holds a → m.disk a = m₀.disk a

/-- The buffers of a call hold what the call looks up and changes in them: a block has a bit for
each inode and for each block of a group, and an inode has its first pointer. -/
structure FitsBuffers (m : ExtendedFileSystemManager) : Prop where
  blockSize : 1024 ≤ m.blockSizeBytes
  inodeSize : 44 ≤ m.inodeSizeBytes
  inodeBits : m.inodesPerGroup ≤ 8 * m.blockSizeBytes
  blockBits : m.blocksPerGroup ≤ 8 * m.blockSizeBytes

variable {m m₀ : ExtendedFileSystemManager} {α : Type} {offset size block group inode type : ℕ}
  {data : ByteMemory} {name : List UInt8} {P : ExtendedFileSystemManager → Prop}

theorem Confined.refl (m : ExtendedFileSystemManager) : Confined m m := ⟨rfl, fun _ _ => rfl⟩

theorem Confined.fitsBuffers (h : Confined m₀ m) (hfits : m₀.FitsBuffers) : m.FitsBuffers := by
  rw [h.kept]
  exact ⟨hfits.blockSize, hfits.inodeSize, hfits.inodeBits, hfits.blockBits⟩

/-- The bit that an allocation takes lies in the buffer of the bitmap, with all bits before it. -/
theorem FitsBuffers.freeBit_lt {kind : BitmapKind}
    (hkind : kind = inodeBitmaps ∨ kind = blockBitmaps) (hfits : m.FitsBuffers) {bit : ℕ}
    {bitmap : ByteMemory} (hbit : kind.freeBit m group bitmap = some bit) :
    bit / 8 < m.blockSizeBytes := by
  have hrange := List.takeWhile_subset _ (List.mem_of_find?_eq_some hbit)
  have hlt : bit < kind.perGroup m := List.mem_range.mp hrange
  have hle : kind.perGroup m ≤ 8 * m.blockSizeBytes := by
    rcases hkind with rfl | rfl
    · exact hfits.inodeBits
    · exact hfits.blockBits
  omega

theorem Confined.setFreeCount {kind : BitmapKind}
    (hkind : kind = inodeBitmaps ∨ kind = blockBitmaps) (h : Confined m₀ m) (count : ℕ) :
    Confined m₀ (kind.setFreeCount m count) := by
  rcases hkind with rfl | rfl
  · exact ⟨congrArg (setFreeInodes · count) h.kept, h.outside⟩
  · exact ⟨congrArg (setFreeBlocks · count) h.kept, h.outside⟩

theorem keeps_writeBytesToDisk : Keeps (Confined m₀) (writeBytesToDisk offset size data) :=
  .changing fun _ h => ⟨congrArg (setDisk · _) h.kept, fun a ha =>
    (DiskPartition.writeBytesToDisk_outside
      ((congrArg partition h.kept).symm ▸ ha)).trans (h.outside a ha)⟩

/-! ### Reading -/

theorem keeps_readBlock : Keeps P (readBlock block) :=
  .bind .get fun _ => .bind (.guard _) fun _ => .reading _

theorem keeps_readGroupDescriptor : Keeps P (readGroupDescriptor group) :=
  .bind .get fun _ => .bind (.guard _) fun _ => .reading _

theorem keeps_searchBlocks (search : ByteMemory → Option α) (blocks : List ℕ) :
    Keeps P (searchBlocks search blocks) := by
  induction blocks with
  | nil => exact .pure _
  | cons block blocks ih =>
    refine .bind keeps_readBlock fun data => ?_
    cases search data with
    | some found => exact .pure _
    | none => exact ih

theorem keeps_findEntryInDirectory : Keeps P (findEntryInDirectory inode name) := by
  refine .bind (.bind .get fun _ => .bind (.bind (.reading _) fun _ => .bind (.guard _)
    fun _ => .pure _) fun _ => .bind (keeps_searchBlocks _ _) fun _ => .pure _) fun found => ?_
  rcases found with _ | ⟨inode, type⟩
  · exact .pure _
  · dsimp only
    split_ifs
    · exact .pure _
    · exact .pure _
    · exact .bind (.reading _) fun _ => .pure _

theorem keeps_resolveParentInode (segments : List (List UInt8)) :
    Keeps P (resolveParentInode inode segments) := by
  induction segments generalizing inode with
  | nil => exact .pure _
  | cons segment segments ih =>
    refine .bind keeps_findEntryInDirectory fun found => ?_
    rcases found with _ | ⟨child, _ | _⟩
    · exact .failure
    · exact .failure
    · exact ih

theorem keeps_findTarget {directory : Bool} : Keeps P (findTarget inode name directory) := by
  refine .bind keeps_findEntryInDirectory fun found => ?_
  cases found with
  | none => exact .failure
  | some target => exact .bind (.guard _) fun _ => .pure _

theorem keeps_checkEmpty : Keeps P (checkEmpty m data) :=
  .bind (keeps_searchBlocks _ _) fun _ => .guard _

/-! ### Writing -/

theorem keeps_writeBlock : Keeps (Confined m₀) (writeBlock block data) :=
  .bind .get fun _ => .bind (.guard _) fun _ => keeps_writeBytesToDisk

theorem keeps_writeGroupDescriptor : Keeps (Confined m₀) (writeGroupDescriptor group data) :=
  .bind .get fun _ => .bind (.guard _) fun _ => keeps_writeBytesToDisk

theorem keeps_writeUpdatedSuperblockCounters :
    Keeps (Confined m₀) writeUpdatedSuperblockCounters :=
  .bind (.reading _) fun _ => .bind .get fun _ => keeps_writeBytesToDisk

theorem keeps_writeInodeData : Keeps (Confined m₀) (writeInodeData inode data) :=
  .bind (.guard _) fun _ => .bind .get fun _ => .bind keeps_readGroupDescriptor fun _ =>
    .bind (.guard _) fun _ => .bind (.guard _) fun _ => keeps_writeBytesToDisk

/-- A block in which something is found is replaced. -/
theorem keeps_replaceBlock (search : ByteMemory → Option ByteMemory) (blocks : List ℕ) :
    Keeps (Confined m₀) (do
      let found ← searchBlocks search blocks
      match found with
      | none => failure
      | some (block, data) => writeBlock block data) := by
  refine .bind (keeps_searchBlocks _ _) fun found => ?_
  cases found with
  | none => exact .failure
  | some replaced => exact keeps_writeBlock

theorem keeps_allocateFrom {kind : BitmapKind}
    (hkind : kind = inodeBitmaps ∨ kind = blockBitmaps) (countAsDirectory : Bool)
    (preferredGroup groupCount : ℕ) (groupOffsets : List ℕ) : Keeps (Confined m₀)
      (kind.allocateFrom countAsDirectory preferredGroup groupCount groupOffsets) := by
  induction groupOffsets with
  | nil => exact .failure
  | cons groupOffset groupOffsets ih =>
    refine .orElse ?_ ih
    refine .bind keeps_readGroupDescriptor fun _ => .bind (.guard _) fun _ =>
      .bind (.bind (.guard _) fun _ => keeps_readBlock) fun _ => .bind .get fun m => ?_
    split
    · exact .failure
    · exact .bind keeps_writeBlock fun _ => .bind keeps_writeGroupDescriptor fun _ =>
        .bind (.guard _) fun _ => .bind (.changing fun _ h => h.setFreeCount hkind _) fun _ =>
          .bind (.orElse keeps_writeUpdatedSuperblockCounters
            (.bind (.changing fun _ h => h.setFreeCount hkind _) fun _ => .failure)) fun _ =>
            .pure _

theorem keeps_allocateBlockNearGroup : Keeps (Confined m₀) (allocateBlockNearGroup group) :=
  .bind .get fun _ => keeps_allocateFrom (.inr rfl) _ _ _ _

theorem keeps_freeInGroup {kind : BitmapKind}
    (hkind : kind = inodeBitmaps ∨ kind = blockBitmaps) (countAsDirectory : Bool) (bit : ℕ) :
    Keeps (Confined m₀) (kind.freeInGroup countAsDirectory group bit) :=
  .bind keeps_readGroupDescriptor fun _ => .bind (.bind (.guard _) fun _ => keeps_readBlock)
    fun _ => .bind .get fun _ => .bind (.guard _) fun _ => .bind keeps_writeBlock fun _ =>
      .bind (.guard _) fun _ => .bind keeps_writeGroupDescriptor fun _ =>
        .bind (.changing fun _ h => h.setFreeCount hkind _) fun _ =>
          keeps_writeUpdatedSuperblockCounters

theorem keeps_freeBlocks (blocks : List ℕ) : Keeps (Confined m₀) (freeBlocks blocks) := by
  induction blocks with
  | nil => exact .pure _
  | cons block blocks ih =>
    exact .bind (.bind .get fun _ => .bind (.guard _) fun _ => keeps_freeInGroup (.inr rfl) _ _)
      fun _ => ih

/-! ### The calls -/

theorem keeps_makeInode {entryType : ExtendedFileSystemEntryType} :
    Keeps (Confined m₀) (makeInode inode entryType) := by
  refine .bind .get fun _ => .bind (.bind .get fun _ => keeps_allocateFrom (.inl rfl) _ _ _ _)
    fun _ => .bind ?_ fun _ => .bind keeps_writeInodeData fun _ => .pure _
  split_ifs
  · exact .bind .get fun _ => .bind keeps_allocateBlockNearGroup fun _ =>
      .bind keeps_writeBlock fun _ => .pure _
  · exact .pure _

theorem keeps_addToParent {parentInodeData : ByteMemory} :
    Keeps (Confined m₀) (addToParent block parentInodeData name inode type) := by
  refine .bind .get fun _ => .bind (keeps_searchBlocks _ _) fun found => ?_
  cases found with
  | some replaced => exact .bind keeps_writeBlock fun _ => .pure _
  | none =>
    dsimp only
    split
    · exact .failure
    · exact .bind keeps_allocateBlockNearGroup fun _ => .bind keeps_writeBlock fun _ => .pure _

theorem keeps_createFile (path : List UInt8) (entryType : ExtendedFileSystemEntryType) :
    Keeps (Confined m₀) (createFile path entryType) := by
  refine .bind (.guard _) fun _ => .bind .get fun m => .bind (.guard _) fun _ => ?_
  cases parsePath path with
  | none => exact .failure
  | some segments =>
    exact .bind (keeps_resolveParentInode _) fun _ => .bind keeps_findEntryInDirectory fun _ =>
      .bind (.guard _) fun _ => .bind keeps_makeInode fun _ => .bind (.reading _) fun _ =>
        .bind keeps_addToParent fun _ => keeps_writeInodeData

/-- The part of `DeleteFile` that frees the blocks. -/
theorem keeps_freeInodeBlocks : Keeps (Confined m₀) (freeInodeBlocks data) :=
  .bind .get fun _ => .bind (keeps_freeBlocks _) fun _ =>
    .bind (.onlyIf (.bind keeps_readBlock fun _ => .bind (keeps_freeBlocks _) fun _ =>
      .bind .get fun _ => .bind (.guard _) fun _ => keeps_freeInGroup (.inr rfl) _ _))
      fun _ => .guard _

theorem keeps_deleteFile (path : List UInt8) (entryType : ExtendedFileSystemEntryType) :
    Keeps (Confined m₀) (deleteFile path entryType) := by
  refine .bind (.guard _) fun _ => .bind .get fun m => .bind (.guard _) fun _ => ?_
  cases parsePath path with
  | none => exact .failure
  | some segments =>
    exact .bind (keeps_resolveParentInode _) fun _ => .bind keeps_findTarget fun _ =>
      .bind (.reading _) fun _ => .bind (.guard _) fun _ => .bind (.onlyIf keeps_checkEmpty)
        fun _ => .bind (.reading _) fun _ => .bind (.bind .get fun _ => keeps_replaceBlock _ _)
          fun _ => .bind (.onlyIf (.bind (.guard _) fun _ => keeps_writeInodeData)) fun _ =>
            .bind keeps_freeInodeBlocks fun _ => .bind keeps_writeInodeData fun _ =>
              .bind .get fun _ => .bind (.guard _) fun _ => keeps_freeInGroup (.inl rfl) _ _

theorem keeps_performRename (plan : RenamePlan) (entryType : ExtendedFileSystemEntryType) :
    Keeps (Confined m₀) (performRename plan entryType) := by
  have hremove : ∀ parent name, Keeps (Confined m₀)
      (removeFromDirectory parent name plan.targetInode) :=
    fun _ _ => .bind (.reading _) fun _ => .bind .get fun _ => keeps_replaceBlock _ _
  exact .bind (.bind (.guard _) fun _ => .bind .get fun _ => .bind (.reading _) fun _ =>
      keeps_replaceBlock _ _) fun _ =>
    .bind (.orElse (hremove _ _) (.bind (.orElse (hremove _ _) (.pure _)) fun _ => .failure))
      fun _ => .onlyIf (.bind (.bind .get fun _ => .bind (.reading _) fun _ =>
        keeps_replaceBlock _ _) fun _ => .bind (.reading _) fun _ => .bind (.reading _) fun _ =>
          .bind (.guard _) fun _ => .bind keeps_writeInodeData fun _ => keeps_writeInodeData)

/-! ### Refused calls -/

/-- A usable volume on which the path has these segments and leads to this parent directory. -/
def ReachesParent (m : ExtendedFileSystemManager) (path : List UInt8)
    (segments : List (List UInt8)) (parent : ℕ) : Prop :=
  m.isUsable = true ∧ parsePath path = some segments ∧
    (resolveParentInode rootInodeNumber segments.dropLast).Yields m parent m

/-- What `CreateFile` checks before it changes anything. -/
def ChecksCreate (m : ExtendedFileSystemManager) (path : List UInt8)
    (type : ExtendedFileSystemEntryType) : Prop :=
  (type = .directory ∨ type = .regularFile ∨ type = .symbolicLink) ∧
    ∃ segments parent, m.ReachesParent path segments parent ∧
      (findEntryInDirectory parent (segments.getLastD [])).Yields m none m

/-- What `DeleteFile` checks before it changes anything. -/
def ChecksDelete (m : ExtendedFileSystemManager) (path : List UInt8)
    (type : ExtendedFileSystemEntryType) : Prop :=
  (type = .directory ∨ type = .regularFile) ∧
    ∃ segments parent target data, m.ReachesParent path segments parent ∧
      (findTarget parent (segments.getLastD []) (decide (type = .directory))).Yields m target m ∧
      (readInodeData target).Yields m data m ∧
      inodeType data = (if type = .directory then 0x4000 else 0x8000) ∧
      (onlyIf (type = .directory) (m.checkEmpty data)).Yields m () m

/-- The checks that both calls start with. -/
theorem reachesParent_of_changed {p : Prop} [Decidable p] {path : List UInt8}
    {f : ExtendedFileSystemManager → List (List UInt8) → ℕ → FileSystemUpdate Unit}
    (h : (runFrom (do
      guard p
      let m ← get
      guard (m.isUsable = true)
      match parsePath path with
      | none => failure
      | some segments => do
        let parent ← resolveParentInode rootInodeNumber segments.dropLast
        f m segments parent) m).2 ≠ m) :
    p ∧ ∃ segments parent, m.ReachesParent path segments parent ∧
      ((f m segments parent).runFrom m).2 ≠ m := by
  obtain ⟨_, hp, h⟩ := (Keeps.guard _).exists_of_changed h
  obtain ⟨_, ⟨⟩, h⟩ := Keeps.get.exists_of_changed h
  obtain ⟨_, husable, h⟩ := (Keeps.guard _).exists_of_changed h
  refine ⟨(yields_guard.mp hp).1, ?_⟩
  split at h
  next => exact absurd rfl h
  next segments hsegments =>
    obtain ⟨parent, hparent, h⟩ := (keeps_resolveParentInode _).exists_of_changed h
    exact ⟨segments, parent, ⟨(yields_guard.mp husable).1, hsegments, hparent⟩, h⟩

variable {path : List UInt8} {entryType : ExtendedFileSystemEntryType}

theorem checksCreate_of_changed
    (h : ((createFile path entryType).runFrom m).2 ≠ m) : m.ChecksCreate path entryType := by
  obtain ⟨htype, segments, parent, hparent, h⟩ := reachesParent_of_changed h
  obtain ⟨existing, hexisting, h⟩ := keeps_findEntryInDirectory.exists_of_changed h
  obtain ⟨_, hnone, -⟩ := (Keeps.guard _).exists_of_changed h
  obtain rfl := (yields_guard.mp hnone).1
  exact ⟨htype, segments, parent, hparent, hexisting⟩

theorem checksDelete_of_changed
    (h : ((deleteFile path entryType).runFrom m).2 ≠ m) : m.ChecksDelete path entryType := by
  obtain ⟨htype, segments, parent, hparent, h⟩ := reachesParent_of_changed h
  obtain ⟨target, htarget, h⟩ := keeps_findTarget.exists_of_changed h
  obtain ⟨data, hdata, h⟩ := (Keeps.reading _).exists_of_changed h
  obtain ⟨_, hkind, h⟩ := (Keeps.guard _).exists_of_changed h
  obtain ⟨_, hempty, -⟩ := (Keeps.onlyIf keeps_checkEmpty).exists_of_changed h
  exact ⟨htype, segments, parent, target, data, hparent, htarget, hdata,
    (yields_guard.mp hkind).1, hempty⟩

/-- **Refused calls change nothing.** A call that makes a file or removes one either leaves the disk
and the counters as they are or has made all of its checks with success. -/
theorem unchanged_or_checked (m : ExtendedFileSystemManager) (path : List UInt8)
    (entryType : ExtendedFileSystemEntryType) :
    (((createFile path entryType).runFrom m).2 = m ∨ m.ChecksCreate path entryType) ∧
      (((deleteFile path entryType).runFrom m).2 = m ∨ m.ChecksDelete path entryType) :=
  ⟨or_iff_not_imp_left.mpr checksCreate_of_changed,
    or_iff_not_imp_left.mpr checksDelete_of_changed⟩

/-! ### Runs -/

/-- The managers that calls lead to, whether they fail or not. -/
inductive CallRun (m₀ : ExtendedFileSystemManager) : ExtendedFileSystemManager → Prop
  | start : CallRun m₀ m₀
  | create {m : ExtendedFileSystemManager} (h : CallRun m₀ m) (path : List UInt8)
    (type : ExtendedFileSystemEntryType) : CallRun m₀ ((createFile path type).runFrom m).2
  | delete {m : ExtendedFileSystemManager} (h : CallRun m₀ m) (path : List UInt8)
    (type : ExtendedFileSystemEntryType) : CallRun m₀ ((deleteFile path type).runFrom m).2
  | rename {m : ExtendedFileSystemManager} (h : CallRun m₀ m) {fuel : ℕ}
    {oldPath newPath : List UInt8} {type : ExtendedFileSystemEntryType}
    {r : Option Unit × ExtendedFileSystemManager}
    (hrun : m.renameFile fuel oldPath newPath type = some r) : CallRun m₀ r.2

theorem CallRun.confined_of_run (h : CallRun m₀ m) : Confined m₀ m := by
  induction h with
  | start => exact .refl _
  | create _ path type ih => exact keeps_createFile path type _ ih
  | delete _ path type ih => exact keeps_deleteFile path type _ ih
  | @rename m _ fuel oldPath newPath type r hrun ih =>
    rw [renameFile] at hrun
    split at hrun
    · exact Option.some.inj hrun ▸ ih
    · exact Option.some.inj hrun ▸ ih
    · split at hrun
      · exact absurd hrun (by simp)
      · exact Option.some.inj hrun ▸ ih
      · exact Option.some.inj hrun ▸ keeps_performRename _ _ _ ih

/-- **Calls keep to the partition.** On a file system whose sizes fit the buffers, whatever the disk
holds, and whether calls fail or not, no call changes a byte of the disk outside of the partition or
the sizes of the file system, which go on to fit. -/
theorem CallRun.confined (h : CallRun m₀ m) (hfits : m₀.FitsBuffers) :
    Confined m₀ m ∧ m.FitsBuffers :=
  ⟨h.confined_of_run, h.confined_of_run.fitsBuffers hfits⟩

/-- A file is created in a directory and deleted again. -/
theorem CallRun.confined_loopManager :
    let m := ((deleteFile [0x2F, 0x74, 0x2F, 0x78] .regularFile).runFrom
      ((createFile [0x2F, 0x74, 0x2F, 0x78] .regularFile).runFrom loopManager).2).2
    Confined loopManager m ∧ m.FitsBuffers :=
  CallRun.confined (.delete (.create .start _ _) _ _)
    ⟨by decide +kernel, by decide +kernel, by decide +kernel, by decide +kernel⟩

end ExtendedFileSystemManager

end TwistedOS
