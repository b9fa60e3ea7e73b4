import TwistedOS.Data.ByteMemory

/-!
# Reading an ext2 inode

`ExtendedFileSystemManager` reads the content of an inode as a whole or over a range. Both walk the
logical blocks of the inode, find the data block of each through up to three levels of pointer
blocks, and read zeros where there is none. A pointer block that the controller cannot read counts
as one without an entry, so that its data is read as zeros.

The sectors that the controller reads in a call are a parameter of the call. The buffer of an inode
is modelled by the bytes that were read into it; the rest of it is zero.

## Main definitions

* `ExtendedFileSystem`, `ExtendedFileSystem.loadInodeData`, `ExtendedFileSystem.loadInodeDataRange`.
* `ExtendedFileSystem.content` — the content of an inode.
* `ExtendedFileSystem.FindsBlocks` — a call finds the data blocks of a range.

## Main results

* `ExtendedFileSystem.loadInodeData_eq`, `ExtendedFileSystem.loadInodeDataRange_eq`.
-/

namespace TwistedOS

/-- `CONTROLLER_SECTOR_SIZE_BYTES`. -/
def controllerSectorSize : ℕ := 512

/-- The largest byte offset on a disk. -/
def maxDiskOffset : ℕ := 0xFFFFFFFF

/-- `EXT2_GROUP_DESCRIPTOR_SIZE`. -/
def groupDescriptorSize : ℕ := 32

/-- The size of the buffers for an inode. -/
def inodeBufferSize : ℕ := 256

/-- The largest target that a symbolic link keeps in its inode. -/
def inlineTargetSize : ℕ := 60

/-- `ReadLE32`. -/
def readLE32 (data : List UInt8) (offset : ℕ) : ℕ :=
  ByteMemory.load (fun i => data.getD i 0) offset 4

/-- `ReadLE16`. -/
def readLE16 (data : List UInt8) (offset : ℕ) : ℕ :=
  ByteMemory.load (fun i => data.getD i 0) offset 2

/-- An inode that is a symbolic link, by its mode. -/
def isSymlinkInode (inodeData : List UInt8) : Bool :=
  readLE16 inodeData 0 &&& 0xF000 = 0xA000

/-- The size of the content of an inode. -/
def inodeSize (inodeData : List UInt8) : ℕ := readLE32 inodeData 4

/-- An ext2 file system in a partition, `ExtendedFileSystemManager`. -/
structure ExtendedFileSystem where
  initialized : Bool := true
  image : ByteMemory
  partitionSectorCount : ℕ
  blockSizeBytes : ℕ
  inodeSizeBytes : ℕ
  inodesPerGroup : ℕ

namespace ExtendedFileSystem

variable (fs : ExtendedFileSystem) (readable : ℕ → Bool)

/-- The bytes of the image from an offset on. -/
def bytesAt (offset size : ℕ) : List UInt8 := (List.range size).map fun i => fs.image (offset + i)

/-- The sectors that hold a range of bytes. -/
def sectorsOf (offset size : ℕ) : List ℕ :=
  List.range' (offset / controllerSectorSize)
    ((offset + size - 1) / controllerSectorSize - offset / controllerSectorSize + 1)

/-- `ReadBytesFromDisk`. -/
def readBytesFromDisk (offset size : ℕ) : Option (List UInt8) :=
  if size = 0 then some []
  else if (sectorsOf offset size).all fun sector =>
      decide (sector < fs.partitionSectorCount) && readable sector then
    some (fs.bytesAt offset size)
  else none

/-- The offset of the descriptor of the group that an inode belongs to. -/
def groupDescriptorOffset (inodeNumber : ℕ) : ℕ :=
  ((if fs.blockSizeBytes = 1024 then 2 * fs.blockSizeBytes else fs.blockSizeBytes) +
    (inodeNumber - 1) / fs.inodesPerGroup * groupDescriptorSize) % 2 ^ 32

/-- The offset of an inode in the inode table of its group. -/
def inodeOffset (inodeNumber inodeTableBlock : ℕ) : ℕ :=
  inodeTableBlock * fs.blockSizeBytes +
    (inodeNumber - 1) % fs.inodesPerGroup * fs.inodeSizeBytes

/-- `ReadInode`, into a buffer of `inodeBufferSize` bytes. -/
def readInode (inodeNumber : ℕ) : Option (List UInt8) :=
  if !fs.initialized ∨ inodeBufferSize < fs.inodeSizeBytes ∨ inodeNumber = 0 ∨
      fs.inodesPerGroup = 0 ∨ fs.blockSizeBytes = 0 then none
  else
    match fs.readBytesFromDisk readable (fs.groupDescriptorOffset inodeNumber)
      groupDescriptorSize with
    | none => none
    | some descriptor =>
      if readLE32 descriptor 8 = 0 then none
      else if maxDiskOffset < fs.inodeOffset inodeNumber (readLE32 descriptor 8) then none
      else fs.readBytesFromDisk readable (fs.inodeOffset inodeNumber (readLE32 descriptor 8))
        fs.inodeSizeBytes

/-- `PointersPerBlock`. -/
def pointersPerBlock : ℕ := fs.blockSizeBytes / 4

/-- `ReadPointerFromBlock`: no data block when the pointer block cannot be read. -/
def readPointerFromBlock (pointerBlock index : ℕ) : ℕ :=
  if pointerBlock = 0 ∨ fs.pointersPerBlock ≤ index then 0
  else if maxDiskOffset < pointerBlock * fs.blockSizeBytes then 0
  else
    match fs.readBytesFromDisk readable (pointerBlock * fs.blockSizeBytes) fs.blockSizeBytes with
    | none => 0
    | some block => readLE32 block (index * 4)

/-- `ResolveDataBlockNumber`, with `0` for no data block. -/
def resolveDataBlockNumber (inodeData : List UInt8) (logical : ℕ) : ℕ :=
  let span := fs.pointersPerBlock
  if logical < 12 then readLE32 inodeData (40 + logical * 4)
  else if logical - 12 < span then
    fs.readPointerFromBlock readable (readLE32 inodeData 88) (logical - 12)
  else if logical - 12 - span < span ^ 2 then
    let index := logical - 12 - span
    fs.readPointerFromBlock readable
      (fs.readPointerFromBlock readable (readLE32 inodeData 92) (index / span)) (index % span)
  else if logical - 12 - span - span ^ 2 < span ^ 3 then
    let index := logical - 12 - span - span ^ 2
    fs.readPointerFromBlock readable
      (fs.readPointerFromBlock readable
        (fs.readPointerFromBlock readable (readLE32 inodeData 96) (index / span ^ 2))
        (index % span ^ 2 / span))
      (index % span ^ 2 % span)
  else 0

/-- The bytes of a logical block that one round of the loops over the blocks reads. -/
def readBlockPart (inodeData : List UInt8) (logical offset size : ℕ) : Option (List UInt8) :=
  let dataBlock := fs.resolveDataBlockNumber readable inodeData logical
  if dataBlock = 0 then some (List.replicate size 0)
  else if maxDiskOffset < dataBlock * fs.blockSizeBytes + offset then none
  else fs.readBytesFromDisk readable (dataBlock * fs.blockSizeBytes + offset) size

/-- The loops over the blocks of an inode, from an offset inside a logical block on. A round without
bytes does not occur for an offset inside the block. -/
def readBlocks (inodeData : List UInt8) (remaining logical offset : ℕ) : Option (List UInt8) :=
  if remaining = 0 ∨ fs.blockSizeBytes ≤ offset then some []
  else
    match fs.readBlockPart readable inodeData logical offset
      (min remaining (fs.blockSizeBytes - offset)) with
    | none => none
    | some bytes =>
      (readBlocks inodeData (remaining - min remaining (fs.blockSizeBytes - offset))
        (logical + 1) 0).map (bytes ++ ·)
  termination_by remaining

/-- `ReadInodePayload`. -/
def readInodePayload (inodeData : List UInt8) (size : ℕ) : Option (List UInt8) :=
  if isSymlinkInode inodeData ∧ size ≤ inlineTargetSize then
    some ((List.range size).map fun i => inodeData.getD (40 + i) 0)
  else if fs.blockSizeBytes = 0 ∨ fs.blockSizeBytes % 4 ≠ 0 then none
  else fs.readBlocks readable inodeData size 0 0

/-- `LoadInodeData`. -/
def loadInodeData (inodeNumber size : ℕ) : Option (List UInt8) :=
  if !fs.initialized ∨ size = 0 then none
  else
    match fs.readInode readable inodeNumber with
    | none => none
    | some inodeData =>
      if inodeSize inodeData < size then none else fs.readInodePayload readable inodeData size

/-- `LoadInodeDataRange`. -/
def loadInodeDataRange (inodeNumber start size : ℕ) : Option (List UInt8) :=
  if !fs.initialized ∨ fs.blockSizeBytes = 0 then none
  else if size = 0 then some []
  else
    match fs.readInode readable inodeNumber with
    | none => none
    | some inodeData =>
      if inodeSize inodeData < start ∨ inodeSize inodeData - start < size then none
      else if isSymlinkInode inodeData ∧ inodeSize inodeData ≤ inlineTargetSize then
        some ((List.range size).map fun i => inodeData.getD (40 + start + i) 0)
      else if fs.blockSizeBytes % 4 ≠ 0 then none
      else fs.readBlocks readable inodeData size (start / fs.blockSizeBytes)
        (start % fs.blockSizeBytes)

/-! ### The content of an inode -/

/-- A controller that reads every sector. -/
def everySector : ℕ → Bool := fun _ => true

/-- The byte at a position of the blocks of an inode. -/
def blockByte (inodeData : List UInt8) (position : ℕ) : UInt8 :=
  let dataBlock := fs.resolveDataBlockNumber everySector inodeData (position / fs.blockSizeBytes)
  if dataBlock = 0 then 0
  else fs.image (dataBlock * fs.blockSizeBytes + position % fs.blockSizeBytes)

/-- The byte at a position of the content of an inode. -/
def payloadByte (inodeData : List UInt8) (position : ℕ) : UInt8 :=
  if isSymlinkInode inodeData ∧ inodeSize inodeData ≤ inlineTargetSize then
    inodeData.getD (40 + position) 0
  else fs.blockByte inodeData position

/-- The content of an inode on the disk. -/
def content (inodeNumber : ℕ) : List UInt8 :=
  match fs.readInode everySector inodeNumber with
  | none => []
  | some inodeData => (List.range (inodeSize inodeData)).map (fs.payloadByte inodeData)

/-- The controller reads what a call needs to find the data blocks of a range. -/
def FindsBlocks (inodeNumber start size : ℕ) : Prop :=
  ∀ inodeData ∈ fs.readInode everySector inodeNumber, ∀ logical,
    start / fs.blockSizeBytes ≤ logical → logical * fs.blockSizeBytes < start + size →
      fs.resolveDataBlockNumber readable inodeData logical =
        fs.resolveDataBlockNumber everySector inodeData logical

variable {fs readable} {inodeData bytes : List UInt8}
  {inodeNumber offset size start remaining logical : ℕ}

/-- What is read from the disk are the bytes of the image. -/
theorem eq_bytesAt_of_readBytesFromDisk
    (h : fs.readBytesFromDisk readable offset size = some bytes) :
    bytes = fs.bytesAt offset size := by
  rw [readBytesFromDisk] at h
  split_ifs at h with hsize
  · obtain rfl := Option.some.inj h
    rw [hsize]
    rfl
  · exact (Option.some.inj h).symm

/-- A controller that reads every sector reads what another one does. -/
theorem readBytesFromDisk_everySector
    (h : fs.readBytesFromDisk readable offset size = some bytes) :
    fs.readBytesFromDisk everySector offset size = some bytes := by
  rw [readBytesFromDisk] at h ⊢
  split_ifs at h with hsize hsectors
  · rw [if_pos hsize]
    exact h
  · rw [if_neg hsize, if_pos]
    · exact h
    · rw [List.all_eq_true] at hsectors ⊢
      intro sector hsector
      have hread := Bool.and_eq_true_iff.mp (hsectors sector hsector)
      exact Bool.and_eq_true_iff.mpr ⟨hread.1, rfl⟩

theorem readInode_everySector (h : fs.readInode readable inodeNumber = some inodeData) :
    fs.readInode everySector inodeNumber = some inodeData := by
  rw [readInode] at h ⊢
  split_ifs at h ⊢
  rcases hread : fs.readBytesFromDisk readable (fs.groupDescriptorOffset inodeNumber)
    groupDescriptorSize with _ | descriptor
  · rw [hread] at h
    exact absurd h (by simp)
  · rw [hread] at h
    rw [readBytesFromDisk_everySector hread]
    dsimp only at h ⊢
    split_ifs at h ⊢
    exact readBytesFromDisk_everySector h

/-- The bytes of the blocks of an inode over a range. -/
def blockBytes (fs : ExtendedFileSystem) (inodeData : List UInt8) (start size : ℕ) : List UInt8 :=
  (List.range size).map fun i => fs.blockByte inodeData (start + i)

theorem blockBytes_append {n : ℕ} (h : n ≤ size) :
    fs.blockBytes inodeData start n ++ fs.blockBytes inodeData (start + n) (size - n) =
      fs.blockBytes inodeData start size := by
  have hsize : size = n + (size - n) := by omega
  rw [blockBytes, blockBytes, blockBytes]
  conv_rhs => rw [hsize, List.range_add, List.map_append, List.map_map]
  congr 1
  refine List.map_congr_left fun i _ => ?_
  rw [Function.comp_apply, Nat.add_assoc]

/-- One round reads the bytes of its block. -/
theorem readBlockPart_eq (hoffset : offset + size ≤ fs.blockSizeBytes)
    (hblock : fs.resolveDataBlockNumber readable inodeData logical =
      fs.resolveDataBlockNumber everySector inodeData logical)
    (h : fs.readBlockPart readable inodeData logical offset size = some bytes) :
    bytes = fs.blockBytes inodeData (logical * fs.blockSizeBytes + offset) size := by
  have hbyte : ∀ i < size, fs.blockByte inodeData (logical * fs.blockSizeBytes + offset + i) =
      if fs.resolveDataBlockNumber everySector inodeData logical = 0 then 0
      else fs.image (fs.resolveDataBlockNumber everySector inodeData logical * fs.blockSizeBytes +
        offset + i) := by
    intro i hi
    have hposition : logical * fs.blockSizeBytes + offset + i =
        offset + i + fs.blockSizeBytes * logical := by ring
    have hlt : offset + i < fs.blockSizeBytes := by omega
    rw [blockByte, hposition, Nat.add_mul_div_left _ _ (by omega), Nat.div_eq_of_lt hlt,
      Nat.zero_add, Nat.add_mul_mod_self_left, Nat.mod_eq_of_lt hlt, Nat.add_assoc]
  rw [readBlockPart, hblock] at h
  rw [blockBytes, List.map_congr_left fun i hi => hbyte i (List.mem_range.mp hi)]
  split_ifs at h ⊢ with hzero hlarge
  · obtain rfl := Option.some.inj h
    rw [List.map_const', List.length_range]
  · exact eq_bytesAt_of_readBytesFromDisk h

/-- The loop over the blocks reads the bytes of the blocks. -/
theorem readBlocks_eq (hoffset : offset < fs.blockSizeBytes)
    (hfinds : ∀ block, logical ≤ block →
      block * fs.blockSizeBytes < logical * fs.blockSizeBytes + offset + remaining →
      fs.resolveDataBlockNumber readable inodeData block =
        fs.resolveDataBlockNumber everySector inodeData block)
    (h : fs.readBlocks readable inodeData remaining logical offset = some bytes) :
    bytes = fs.blockBytes inodeData (logical * fs.blockSizeBytes + offset) remaining := by
  induction remaining using Nat.strong_induction_on generalizing logical offset bytes with
  | _ remaining ih =>
    rw [readBlocks] at h
    split_ifs at h with hend
    · obtain rfl := hend.resolve_right (by omega)
      obtain rfl := Option.some.inj h
      rfl
    · set n := min remaining (fs.blockSizeBytes - offset) with hn
      have hpos : 0 < n := by omega
      rcases hpart : fs.readBlockPart readable inodeData logical offset n with _ | part
      · rw [hpart] at h
        exact absurd h (by simp)
      · rw [hpart] at h
        obtain ⟨rest, hrest, rfl⟩ := Option.map_eq_some_iff.mp h
        have hpart_eq : part = fs.blockBytes inodeData (logical * fs.blockSizeBytes + offset) n :=
          readBlockPart_eq (by omega) (hfinds logical le_rfl (by omega)) hpart
        have hle : n ≤ remaining := by omega
        rw [hpart_eq]
        conv_rhs => rw [← blockBytes_append hle]
        congr 1
        rcases Nat.eq_zero_or_pos (remaining - n) with hzero | hmore
        · rw [hzero, readBlocks, if_pos (.inl rfl)] at hrest
          rw [hzero, ← Option.some.inj hrest]
          rfl
        · have hnext : (logical + 1) * fs.blockSizeBytes =
              logical * fs.blockSizeBytes + offset + n := by
            rw [Nat.add_mul, Nat.one_mul]
            omega
          rw [← hnext]
          refine ih (remaining - n) (by omega) (by omega) (fun block hblock hlt => ?_) hrest
          exact hfinds block (by omega) (by omega)

theorem length_readBlockPart
    (h : fs.readBlockPart readable inodeData logical offset size = some bytes) :
    bytes.length = size := by
  rw [readBlockPart] at h
  split_ifs at h
  · rw [← Option.some.inj h, List.length_replicate]
  · rw [eq_bytesAt_of_readBytesFromDisk h, bytesAt, List.length_map, List.length_range]

theorem length_readBlocks_le
    (h : fs.readBlocks readable inodeData remaining logical offset = some bytes) :
    bytes.length ≤ remaining := by
  induction remaining using Nat.strong_induction_on generalizing logical offset bytes with
  | _ remaining ih =>
    rw [readBlocks] at h
    split_ifs at h with hend
    · rw [← Option.some.inj h]
      exact Nat.zero_le _
    rcases hpart : fs.readBlockPart readable inodeData logical offset
      (min remaining (fs.blockSizeBytes - offset)) with _ | part
    · rw [hpart] at h
      exact absurd h (by simp)
    rw [hpart] at h
    obtain ⟨rest, hrest, rfl⟩ := Option.map_eq_some_iff.mp h
    have hle := ih _ (by omega) hrest
    rw [List.length_append, length_readBlockPart hpart]
    omega

/-- No more bytes are read than are asked for. -/
theorem length_loadInodeDataRange_le
    (h : fs.loadInodeDataRange readable inodeNumber start size = some bytes) :
    bytes.length ≤ size := by
  rw [loadInodeDataRange] at h
  by_cases hready : (!fs.initialized) = true ∨ fs.blockSizeBytes = 0
  · rw [if_pos hready] at h
    exact absurd h (by simp)
  rw [if_neg hready] at h
  by_cases hsize : size = 0
  · rw [if_pos hsize] at h
    rw [← Option.some.inj h]
    exact Nat.zero_le _
  rw [if_neg hsize] at h
  rcases hread : fs.readInode readable inodeNumber with _ | inodeData
  · rw [hread] at h
    exact absurd h (by simp)
  rw [hread] at h
  dsimp only at h
  split_ifs at h
  · rw [← Option.some.inj h, List.length_map, List.length_range]
  · exact length_readBlocks_le h

theorem content_eq (h : fs.readInode everySector inodeNumber = some inodeData) :
    fs.content inodeNumber =
      (List.range (inodeSize inodeData)).map (fs.payloadByte inodeData) := by
  rw [content, h]

/-- A part of the content of an inode. -/
theorem take_drop_content (h : fs.readInode everySector inodeNumber = some inodeData)
    (hle : start + size ≤ inodeSize inodeData) :
    ((fs.content inodeNumber).drop start).take size =
      (List.range size).map fun i => fs.payloadByte inodeData (start + i) := by
  rw [content_eq h]
  refine List.ext_getElem ?_ fun i hi hi' => ?_
  · simp only [List.length_take, List.length_drop, List.length_map, List.length_range]
    omega
  · simp

/-- A whole inode that is read has the content of the inode. -/
theorem loadInodeData_eq (hfinds : fs.FindsBlocks readable inodeNumber 0 size)
    (hsize : size = (fs.content inodeNumber).length)
    (h : fs.loadInodeData readable inodeNumber size = some bytes) :
    bytes = fs.content inodeNumber := by
  rw [loadInodeData] at h
  split_ifs at h
  rcases hread : fs.readInode readable inodeNumber with _ | inodeData
  · rw [hread] at h
    exact absurd h (by simp)
  · have hideal := readInode_everySector hread
    have hlength : size = inodeSize inodeData := by
      rw [hsize, content_eq hideal]
      simp
    rw [hread] at h
    dsimp only at h
    rw [if_neg (by omega), readInodePayload] at h
    rw [content_eq hideal, ← hlength]
    split_ifs at h with hlink hblock
    · obtain rfl := Option.some.inj h
      refine List.map_congr_left fun i _ => ?_
      rw [payloadByte, if_pos (hlength ▸ hlink)]
    · have hpos : 0 < fs.blockSizeBytes := by omega
      rw [readBlocks_eq hpos (fun block _ hlt => hfinds inodeData hideal block (by simp)
        (by simpa using hlt)) h]
      refine List.map_congr_left fun i _ => ?_
      rw [payloadByte, if_neg (hlength ▸ hlink), Nat.zero_mul, Nat.zero_add]

/-- A range of an inode that is read has the content of the inode. -/
theorem loadInodeDataRange_eq (hfinds : fs.FindsBlocks readable inodeNumber start size)
    (h : fs.loadInodeDataRange readable inodeNumber start size = some bytes) :
    bytes = ((fs.content inodeNumber).drop start).take size := by
  rw [loadInodeDataRange] at h
  by_cases hready : (!fs.initialized) = true ∨ fs.blockSizeBytes = 0
  · rw [if_pos hready] at h
    exact absurd h (by simp)
  rw [if_neg hready] at h
  by_cases hsize : size = 0
  · rw [if_pos hsize] at h
    obtain rfl := Option.some.inj h
    rw [hsize, List.take_zero]
  rw [if_neg hsize] at h
  rcases hread : fs.readInode readable inodeNumber with _ | inodeData
  · rw [hread] at h
    exact absurd h (by simp)
  · have hideal := readInode_everySector hread
    rw [hread] at h
    dsimp only at h
    split_ifs at h with hrange hlink
    · obtain rfl := Option.some.inj h
      rw [take_drop_content hideal (by omega)]
      refine List.map_congr_left fun i _ => ?_
      rw [payloadByte, if_pos hlink, Nat.add_assoc]
    · have hpos : 0 < fs.blockSizeBytes := by omega
      have hstart : start / fs.blockSizeBytes * fs.blockSizeBytes + start % fs.blockSizeBytes =
          start := Nat.div_add_mod' ..
      rw [take_drop_content hideal (by omega), readBlocks_eq (Nat.mod_lt _ hpos)
        (fun block hle hlt => hfinds inodeData hideal block hle (hstart ▸ hlt)) h, hstart]
      refine List.map_congr_left fun i _ => ?_
      rw [payloadByte, if_neg hlink]

end ExtendedFileSystem

end TwistedOS
