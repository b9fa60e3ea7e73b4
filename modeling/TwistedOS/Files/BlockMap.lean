import TwistedOS.Files.ExtendedFileSystem
import Mathlib.Tactic.Ring

/-!
# The block map of an inode

The bytes of an inode are those of its data blocks, which are found through no, one, two or three
levels of pointer blocks; where there is no block the bytes are zero. A symbolic link without a data
block keeps its target in the inode, in the place of the pointers.

`LoadInodeDataRange` takes the target from the inode when the link is short, `LoadInodeData` when
the part that is asked for is short. Neither looks whether the link owns a data block. Both read a
pointer block that begins behind the largest offset of a disk as one without an entry, though the
blocks that it points to can well be in reach, so that the content below it is read as zeros.

## Main definitions

* `ExtendedFileSystem.mappedBlock` — the block map.
* `ExtendedFileSystem.KeepsTarget`, `ExtendedFileSystem.storedContent`.
* `ExtendedFileSystem.ReadsPointers` — the pointer blocks of an inode can be read.
* `ExtendedFileSystem.inReach` — the pointer blocks above a logical block begin within the limit.
* `ExtendedFileSystem.ReadsAgree` — both ways of reading return the content.

## Main results

* `ExtendedFileSystem.resolveThrough_eq` — the walk through the pointer blocks.
* `ExtendedFileSystem.ReadsPointers.content_eq_storedContent` — the content is that of the map.
* `ExtendedFileSystem.readsAgree_iff`.
-/

namespace TwistedOS

namespace ExtendedFileSystem

variable (fs : ExtendedFileSystem) (readable : ℕ → Bool)

/-! ### The map -/

/-- An entry of a pointer block. Block `0` stands for no block. -/
def pointerEntry (block index : ℕ) : ℕ :=
  if block = 0 then 0 else fs.image.load (block * fs.blockSizeBytes + index * 4) 4

/-- The data block at an index below levels of pointer blocks. -/
def mappedThrough : (levels pointer index : ℕ) → ℕ
  | 0, pointer, _ => pointer
  | levels + 1, pointer, index =>
    mappedThrough levels (fs.pointerEntry pointer (index / fs.pointersPerBlock ^ levels))
      (index % fs.pointersPerBlock ^ levels)

/-- The levels of pointer blocks above a logical block, with the pointer in the inode and the index
of the block below it. -/
def mapRoot (inodeData : List UInt8) (logical : ℕ) : ℕ × ℕ × ℕ :=
  if logical < 12 then (0, readLE32 inodeData (40 + logical * 4), 0)
  else if logical - 12 < fs.pointersPerBlock then (1, readLE32 inodeData 88, logical - 12)
  else if logical - 12 - fs.pointersPerBlock < fs.pointersPerBlock ^ 2 then
    (2, readLE32 inodeData 92, logical - 12 - fs.pointersPerBlock)
  else if logical - 12 - fs.pointersPerBlock - fs.pointersPerBlock ^ 2 <
      fs.pointersPerBlock ^ 3 then
    (3, readLE32 inodeData 96, logical - 12 - fs.pointersPerBlock - fs.pointersPerBlock ^ 2)
  else (0, 0, 0)

/-- The data block of a logical block, or `0`. -/
def mappedBlock (inodeData : List UInt8) (logical : ℕ) : ℕ :=
  fs.mappedThrough (fs.mapRoot inodeData logical).1 (fs.mapRoot inodeData logical).2.1
    (fs.mapRoot inodeData logical).2.2

/-- The byte at a position of the data blocks of an inode. -/
def mappedByte (inodeData : List UInt8) (position : ℕ) : UInt8 :=
  let dataBlock := fs.mappedBlock inodeData (position / fs.blockSizeBytes)
  if dataBlock = 0 then 0
  else fs.image (dataBlock * fs.blockSizeBytes + position % fs.blockSizeBytes)

/-- The sectors of the data blocks and pointer blocks of an inode: those that it owns, less those of
the block for its attributes. -/
def dataSectors (inodeData : List UInt8) : ℕ :=
  readLE32 inodeData 28 -
    if readLE32 inodeData 104 = 0 then 0 else fs.blockSizeBytes / controllerSectorSize

/-- A symbolic link that keeps its target in the inode. -/
def KeepsTarget (inodeData : List UInt8) : Prop :=
  isSymlinkInode inodeData = true ∧ fs.dataSectors inodeData = 0 ∧
    inodeSize inodeData ≤ inlineTargetSize

instance (inodeData : List UInt8) : Decidable (fs.KeepsTarget inodeData) :=
  inferInstanceAs (Decidable (_ ∧ _))

/-- The byte at a position of the content of an inode. -/
def storedByte (inodeData : List UInt8) (position : ℕ) : UInt8 :=
  if fs.KeepsTarget inodeData then inodeData.getD (40 + position) 0
  else fs.mappedByte inodeData position

/-- The content that the block map gives to an inode. -/
def storedContent (inodeData : List UInt8) : List UInt8 :=
  (List.range (inodeSize inodeData)).map (fs.storedByte inodeData)

/-! ### Readable images -/

/-- The pointer blocks above an index can be read. -/
def ReadsPath : (levels pointer index : ℕ) → Prop
  | 0, _, _ => True
  | levels + 1, pointer, index =>
    (pointer ≠ 0 →
      (fs.readBytesFromDisk readable (pointer * fs.blockSizeBytes) fs.blockSizeBytes).isSome) ∧
    ReadsPath levels (fs.pointerEntry pointer (index / fs.pointersPerBlock ^ levels))
      (index % fs.pointersPerBlock ^ levels)

/-- The pointer blocks of the content of an inode can be read. -/
def ReadsPointers (inodeData : List UInt8) : Prop :=
  ∀ logical, logical * fs.blockSizeBytes < inodeSize inodeData →
    fs.ReadsPath readable (fs.mapRoot inodeData logical).1 (fs.mapRoot inodeData logical).2.1
      (fs.mapRoot inodeData logical).2.2

/-- The pointer blocks above an index begin within the limit of the offsets. -/
def reachesPath : (levels pointer index : ℕ) → Bool
  | 0, _, _ => true
  | levels + 1, pointer, index =>
    decide (pointer * fs.blockSizeBytes ≤ maxDiskOffset) &&
      reachesPath levels (fs.pointerEntry pointer (index / fs.pointersPerBlock ^ levels))
        (index % fs.pointersPerBlock ^ levels)

/-- The pointer blocks above a logical block begin within the limit of the offsets. -/
def inReach (inodeData : List UInt8) (logical : ℕ) : Bool :=
  fs.reachesPath (fs.mapRoot inodeData logical).1 (fs.mapRoot inodeData logical).2.1
    (fs.mapRoot inodeData logical).2.2

/-- What is read of an inode, as a whole or over a range, is its content. -/
def ReadsAgree (inodeNumber : ℕ) (inodeData : List UInt8) : Prop :=
  (∀ start size bytes, start + size ≤ inodeSize inodeData →
    fs.loadInodeDataRange readable inodeNumber start size = some bytes →
      bytes = ((fs.storedContent inodeData).drop start).take size) ∧
  ∀ size bytes, 0 < size → size ≤ inodeSize inodeData →
    fs.loadInodeData readable inodeNumber size = some bytes →
      bytes = (fs.storedContent inodeData).take size

variable {fs readable} {inodeData bytes : List UInt8}
  {inodeNumber start size logical pointer index levels : ℕ}

/-- A value that is read from the image. -/
theorem readLE32_bytesAt {offset : ℕ} (h : index + 4 ≤ size) :
    readLE32 (fs.bytesAt offset size) index = fs.image.load (offset + index) 4 :=
  ByteMemory.load_eq_of_bytes fun i hi => by
    rw [bytesAt, List.getD_eq_getElem?_getD, List.getElem?_map, List.getElem?_range (by omega),
      Nat.add_assoc]
    rfl

/-! ### The walk -/

variable (fs readable) in
/-- The walk of the code through levels of pointer blocks. -/
def resolveThrough : (levels pointer index : ℕ) → ℕ
  | 0, pointer, _ => pointer
  | levels + 1, pointer, index =>
    resolveThrough levels
      (fs.readPointerFromBlock readable pointer (index / fs.pointersPerBlock ^ levels))
      (index % fs.pointersPerBlock ^ levels)

theorem resolveThrough_zero : fs.resolveThrough readable levels 0 index = 0 := by
  induction levels generalizing index with
  | zero => rfl
  | succ levels ih => rw [resolveThrough, readPointerFromBlock, if_pos (.inl rfl), ih]

/-- The four cases of the code are one walk from the root of the map. -/
theorem resolveDataBlockNumber_eq_resolveThrough :
    fs.resolveDataBlockNumber readable inodeData logical =
      fs.resolveThrough readable (fs.mapRoot inodeData logical).1
        (fs.mapRoot inodeData logical).2.1 (fs.mapRoot inodeData logical).2.2 := by
  rw [resolveDataBlockNumber, mapRoot]
  dsimp only
  split_ifs <;> simp only [resolveThrough, pow_zero, pow_one, Nat.div_one]

theorem mapRoot_index_lt :
    (fs.mapRoot inodeData logical).2.2 <
      fs.pointersPerBlock ^ (fs.mapRoot inodeData logical).1 := by
  rw [mapRoot]
  split_ifs <;> simp_all only [pow_zero, pow_one, Nat.zero_lt_one]

/-- A pointer block that can be read gives its entries, if it begins within the limit. -/
theorem readPointerFromBlock_eq (hindex : index < fs.pointersPerBlock)
    (h : pointer ≠ 0 →
      (fs.readBytesFromDisk readable (pointer * fs.blockSizeBytes) fs.blockSizeBytes).isSome) :
    fs.readPointerFromBlock readable pointer index =
      if pointer * fs.blockSizeBytes ≤ maxDiskOffset then fs.pointerEntry pointer index else 0 := by
  rw [readPointerFromBlock, pointerEntry]
  by_cases hzero : pointer = 0
  · rw [if_pos (.inl hzero), if_pos hzero, ite_self]
  obtain ⟨block, hblock⟩ := Option.isSome_iff_exists.mp (h hzero)
  rw [if_neg (by omega), if_neg hzero, hblock, eq_bytesAt_of_readBytesFromDisk hblock]
  by_cases hreach : pointer * fs.blockSizeBytes ≤ maxDiskOffset
  · rw [if_neg (by omega), if_pos hreach]
    exact readLE32_bytesAt (by rw [pointersPerBlock] at hindex; omega)
  · rw [if_pos (by omega), if_neg hreach]

/-- The walk ends at the block of the map, or without a block where a pointer block is out of
reach. -/
theorem resolveThrough_eq (hindex : index < fs.pointersPerBlock ^ levels)
    (h : fs.ReadsPath readable levels pointer index) :
    fs.resolveThrough readable levels pointer index =
      if fs.reachesPath levels pointer index then fs.mappedThrough levels pointer index
      else 0 := by
  induction levels generalizing pointer index with
  | zero => rfl
  | succ levels ih =>
    have hspan : 0 < fs.pointersPerBlock ^ levels :=
      Nat.pos_of_ne_zero fun hzero => by simp [pow_succ, hzero] at hindex
    have hentry : index / fs.pointersPerBlock ^ levels < fs.pointersPerBlock :=
      Nat.div_lt_of_lt_mul (by rwa [← pow_succ])
    rw [resolveThrough, readPointerFromBlock_eq hentry h.1, reachesPath]
    by_cases hreach : pointer * fs.blockSizeBytes ≤ maxDiskOffset
    · rw [if_pos hreach, ih (Nat.mod_lt _ hspan) h.2, decide_eq_true hreach, Bool.true_and]
      rfl
    · rw [if_neg hreach, decide_eq_false hreach, Bool.false_and, resolveThrough_zero]
      rfl

theorem resolveDataBlockNumber_eq
    (h : fs.ReadsPath readable (fs.mapRoot inodeData logical).1 (fs.mapRoot inodeData logical).2.1
      (fs.mapRoot inodeData logical).2.2) :
    fs.resolveDataBlockNumber readable inodeData logical =
      if fs.inReach inodeData logical then fs.mappedBlock inodeData logical else 0 := by
  rw [resolveDataBlockNumber_eq_resolveThrough, resolveThrough_eq mapRoot_index_lt h]
  rfl

/-! ### Agreement -/

theorem readsPath_everySector (h : fs.ReadsPath readable levels pointer index) :
    fs.ReadsPath everySector levels pointer index := by
  induction levels generalizing pointer index with
  | zero => trivial
  | succ levels ih =>
    refine ⟨fun hpointer => ?_, ih h.2⟩
    obtain ⟨block, hblock⟩ := Option.isSome_iff_exists.mp (h.1 hpointer)
    exact Option.isSome_iff_exists.mpr ⟨block, readBytesFromDisk_everySector hblock⟩

/-- A link that owns data blocks has, as far as the inode could keep its target, the bytes of its
pointers for content. -/
def PointersSpellTarget (fs : ExtendedFileSystem) (inodeData : List UInt8) : Prop :=
  ∀ i < min (inodeSize inodeData) inlineTargetSize,
    inodeData.getD (40 + i) 0 = fs.mappedByte inodeData i

/-- What the two ways of reading need of an inode to return its content. -/
structure FollowsMap (fs : ExtendedFileSystem) (inodeData : List UInt8) : Prop where
  target : isSymlinkInode inodeData = true → ¬fs.KeepsTarget inodeData →
    fs.PointersSpellTarget inodeData
  /-- An inode that is read through its blocks has zeros below a pointer block out of reach. -/
  zeros : ¬(isSymlinkInode inodeData = true ∧ inodeSize inodeData ≤ inlineTargetSize) →
    fs.blockSizeBytes % 4 = 0 → ∀ position < inodeSize inodeData,
      fs.inReach inodeData (position / fs.blockSizeBytes) = false →
        fs.mappedByte inodeData position = 0

namespace ReadsPointers

variable (h : fs.ReadsPointers readable inodeData)

include h

theorem resolve_eq {position : ℕ} (hlt : position < inodeSize inodeData) :
    fs.resolveDataBlockNumber readable inodeData (position / fs.blockSizeBytes) =
      if fs.inReach inodeData (position / fs.blockSizeBytes) then
        fs.mappedBlock inodeData (position / fs.blockSizeBytes) else 0 :=
  resolveDataBlockNumber_eq (h _ ((Nat.div_mul_le_self ..).trans_lt hlt))

theorem everySector : fs.ReadsPointers everySector inodeData :=
  fun logical hlt => readsPath_everySector (h logical hlt)

theorem findsBlocks (hread : fs.readInode readable inodeNumber = some inodeData)
    (hle : start + size ≤ inodeSize inodeData) :
    fs.FindsBlocks readable inodeNumber start size := by
  intro inodeData' hread' block _ hlt
  obtain rfl := Option.some.inj ((readInode_everySector hread).symm.trans hread')
  have hpath := h block (by omega)
  rw [resolveDataBlockNumber_eq hpath, resolveDataBlockNumber_eq (readsPath_everySector hpath)]

/-- The blocks that are read hold the bytes of the map, where they are in reach. -/
theorem blockByte_eq {position : ℕ} (hlt : position < inodeSize inodeData) :
    fs.blockByte inodeData position =
      if fs.inReach inodeData (position / fs.blockSizeBytes) then fs.mappedByte inodeData position
      else 0 := by
  rw [blockByte, mappedByte, h.everySector.resolve_eq hlt]
  by_cases hreach : fs.inReach inodeData (position / fs.blockSizeBytes) = true
  · rw [if_pos hreach, if_pos hreach]
  · rw [if_neg hreach, if_neg hreach]
    exact if_pos rfl

theorem payloadByte_eq
    (hblock : ¬(isSymlinkInode inodeData = true ∧ inodeSize inodeData ≤ inlineTargetSize) →
      fs.blockSizeBytes % 4 = 0)
    (hmap : fs.FollowsMap inodeData) {position : ℕ} (hlt : position < inodeSize inodeData) :
    fs.payloadByte inodeData position = fs.storedByte inodeData position := by
  rw [payloadByte, storedByte]
  by_cases hshort : isSymlinkInode inodeData = true ∧ inodeSize inodeData ≤ inlineTargetSize
  · rw [if_pos hshort]
    split_ifs with hkeeps
    · rfl
    · exact hmap.target hshort.1 hkeeps position (Nat.lt_min.mpr ⟨hlt, by omega⟩)
  · rw [if_neg hshort, if_neg fun hkeeps => hshort ⟨hkeeps.1, hkeeps.2.2⟩, h.blockByte_eq hlt]
    split_ifs with hreach
    · rfl
    · exact (hmap.zeros hshort (hblock hshort) position hlt (by simpa using hreach)).symm

/-- The content that the code finds is the one of the map. -/
theorem content_eq_storedContent (hread : fs.readInode readable inodeNumber = some inodeData)
    (hblock : ¬(isSymlinkInode inodeData = true ∧ inodeSize inodeData ≤ inlineTargetSize) →
      fs.blockSizeBytes % 4 = 0)
    (hmap : fs.FollowsMap inodeData) :
    fs.content inodeNumber = fs.storedContent inodeData := by
  rw [content_eq (readInode_everySector hread), storedContent]
  exact List.map_congr_left fun i hi => h.payloadByte_eq hblock hmap (List.mem_range.mp hi)

end ReadsPointers

variable (fs) in
theorem take_drop_storedContent (hle : start + size ≤ inodeSize inodeData) :
    ((fs.storedContent inodeData).drop start).take size =
      (List.range size).map fun i => fs.storedByte inodeData (start + i) := by
  refine List.ext_getElem ?_ fun i hi hi' => ?_
  · simp only [storedContent, List.length_take, List.length_drop, List.length_map,
      List.length_range]
    omega
  · simp [storedContent]

section

variable (hread : fs.readInode readable inodeNumber = some inodeData)

include hread

theorem ready_of_readInode : fs.initialized = true ∧ fs.blockSizeBytes ≠ 0 := by
  rw [readInode] at hread
  split_ifs at hread with hready
  simp only [not_or] at hready
  exact ⟨by simpa using hready.1, hready.2.2.2.2⟩

theorem loadInodeData_eq_readInodePayload (hpos : 0 < size) (hle : size ≤ inodeSize inodeData) :
    fs.loadInodeData readable inodeNumber size = fs.readInodePayload readable inodeData size := by
  have hready := (ready_of_readInode hread).1
  rw [loadInodeData, if_neg (by simp [hready]; omega), hread]
  exact if_neg (by omega)

/-- A whole read agrees with the content. -/
theorem readInodePayload_eq (hpointers : fs.ReadsPointers readable inodeData)
    (hmap : fs.FollowsMap inodeData) (hle : size ≤ inodeSize inodeData)
    (hbytes : fs.readInodePayload readable inodeData size = some bytes) :
    bytes = (fs.storedContent inodeData).take size := by
  have hzero : 0 + size ≤ inodeSize inodeData := by omega
  have htake := take_drop_storedContent fs hzero
  rw [List.drop_zero] at htake
  rw [htake]
  rw [readInodePayload] at hbytes
  split_ifs at hbytes with hlink hblock
  · obtain rfl := Option.some.inj hbytes
    refine List.map_congr_left fun i hi => ?_
    have hi := List.mem_range.mp hi
    rw [Nat.zero_add, storedByte]
    split_ifs with hkeeps
    · rfl
    · exact hmap.target hlink.1 hkeeps i (Nat.lt_min.mpr ⟨by omega, by omega⟩)
  · have hfinds := hpointers.findsBlocks hread hzero
    have hlong : ¬(isSymlinkInode inodeData = true ∧ inodeSize inodeData ≤ inlineTargetSize) :=
      fun hshort => hlink ⟨hshort.1, hle.trans hshort.2⟩
    rw [readBlocks_eq (by omega) (fun block _ hlt => hfinds inodeData
      (readInode_everySector hread) block (by simp) (by simpa using hlt)) hbytes]
    refine List.map_congr_left fun i hi => ?_
    have hi := List.mem_range.mp hi
    rw [Nat.zero_mul, ← hpointers.payloadByte_eq (fun _ => by omega) hmap (by omega), payloadByte,
      if_neg hlong]

/-- A byte below a pointer block out of reach is read as zero. -/
theorem loadInodeDataRange_of_not_inReach {position : ℕ}
    (hpointers : fs.ReadsPointers readable inodeData)
    (hlong : ¬(isSymlinkInode inodeData = true ∧ inodeSize inodeData ≤ inlineTargetSize))
    (hblock : fs.blockSizeBytes % 4 = 0) (hlt : position < inodeSize inodeData)
    (hreach : fs.inReach inodeData (position / fs.blockSizeBytes) = false) :
    fs.loadInodeDataRange readable inodeNumber position 1 = some [0] := by
  have hready := ready_of_readInode hread
  have hoffset : position % fs.blockSizeBytes < fs.blockSizeBytes :=
    Nat.mod_lt _ (Nat.pos_of_ne_zero hready.2)
  have hresolve := hpointers.resolve_eq hlt
  rw [hreach, if_neg Bool.false_ne_true] at hresolve
  have hmin : min 1 (fs.blockSizeBytes - position % fs.blockSizeBytes) = 1 := by omega
  rw [loadInodeDataRange, if_neg (by simp [hready]), if_neg one_ne_zero, hread]
  dsimp only
  rw [if_neg (by omega), if_neg hlong, if_neg (by omega), readBlocks, if_neg (by omega), hmin,
    readBlockPart, hresolve, readBlocks]
  rfl

end

/-- On an image whose pointer blocks can be read, both ways of reading an inode return the content
that the block map gives to it just when its pointers spell its target, if it is a link that owns
data blocks, and its content is zero below every pointer block that begins behind the largest
offset. -/
theorem readsAgree_iff (hread : fs.readInode readable inodeNumber = some inodeData)
    (hpointers : fs.ReadsPointers readable inodeData) :
    fs.ReadsAgree readable inodeNumber inodeData ↔ fs.FollowsMap inodeData := by
  refine ⟨fun hagree => ⟨fun hlink hkeeps i hi => ?_, fun hlong hblock position hlt hreach => ?_⟩,
    fun hmap => ⟨fun start size bytes hle hbytes => ?_, fun size bytes hpos hle hbytes => ?_⟩⟩
  · -- the part that could be kept in the inode is taken from there
    set size := min (inodeSize inodeData) inlineTargetSize with hsize
    have hload : fs.loadInodeData readable inodeNumber size =
        some ((List.range size).map fun i => inodeData.getD (40 + i) 0) := by
      rw [loadInodeData_eq_readInodePayload hread (by omega) (by omega), readInodePayload,
        if_pos ⟨hlink, Nat.min_le_right ..⟩]
    have hbytes := hagree.2 size _ (by omega) (by omega) hload
    have hzero : 0 + size ≤ inodeSize inodeData := by omega
    have htake := take_drop_storedContent fs hzero
    rw [List.drop_zero] at htake
    rw [htake] at hbytes
    have hbyte := List.map_inj_left.mp hbytes i (List.mem_range.mpr hi)
    rwa [Nat.zero_add, storedByte, if_neg hkeeps] at hbyte
  · have hbytes := hagree.1 position 1 _ (by omega)
      (loadInodeDataRange_of_not_inReach hread hpointers hlong hblock hlt hreach)
    rw [take_drop_storedContent fs (by omega)] at hbytes
    have hbyte : 0 = fs.storedByte inodeData position := (List.cons.inj hbytes).1
    rw [hbyte, storedByte, if_neg fun hkeeps => hlong ⟨hkeeps.1, hkeeps.2.2⟩]
  · rw [loadInodeDataRange_eq (hpointers.findsBlocks hread hle) hbytes]
    rcases Nat.eq_zero_or_pos size with rfl | hpos
    · rw [List.take_zero, List.take_zero]
    have hready := ready_of_readInode hread
    rw [hpointers.content_eq_storedContent hread (fun hlong => ?_) hmap]
    by_contra hblock
    rw [loadInodeDataRange, if_neg (by simp [hready]), if_neg (by omega), hread] at hbytes
    dsimp only at hbytes
    rw [if_neg (by omega), if_neg hlong, if_pos hblock] at hbytes
    exact absurd hbytes (by simp)
  · rw [loadInodeData_eq_readInodePayload hread hpos hle] at hbytes
    exact readInodePayload_eq hread hpointers hmap hle hbytes

/-! ### A long link -/

/-- A disk with a link of 100 bytes, number 12, whose target is in block 5. -/
def linkDisk : ExtendedFileSystem where
  image := fun address =>
    if address = 2056 then 3
    else if address = 4481 then 0xA1
    else if address = 4484 then 100
    else if address = 4508 then 2
    else if address = 4520 then 5
    else if 5120 ≤ address ∧ address < 5220 then 65
    else 0
  partitionSectorCount := 12
  blockSizeBytes := 1024
  inodeSizeBytes := 128
  inodesPerGroup := 16

/-- The inode of the link. -/
def linkInode : List UInt8 := (linkDisk.readInode everySector 12).getD []

theorem readInode_linkDisk : linkDisk.readInode everySector 12 = some linkInode := by
  have hsome : (linkDisk.readInode everySector 12).isSome = true := by decide +kernel
  obtain ⟨inodeData, hread⟩ := Option.isSome_iff_exists.mp hsome
  rw [linkInode, hread]
  rfl

theorem readsPointers_linkDisk : linkDisk.ReadsPointers everySector linkInode := by
  intro logical hlt
  have hsize : inodeSize linkInode = 100 := by decide +kernel
  have hlogical : logical = 0 := by
    rw [hsize, show linkDisk.blockSizeBytes = 1024 from rfl] at hlt
    omega
  subst hlogical
  trivial

/-- The first byte of the link that is read is one of its pointers. -/
theorem not_readsAgree_linkDisk : linkDisk.readInode everySector 12 = some linkInode ∧
    linkDisk.ReadsPointers everySector linkInode ∧
      ¬linkDisk.ReadsAgree everySector 12 linkInode := by
  refine ⟨readInode_linkDisk, readsPointers_linkDisk, fun hagree => ?_⟩
  have hload : linkDisk.loadInodeData everySector 12 1 = some [5] := by decide +kernel
  have hcontent : (linkDisk.storedContent linkInode).take 1 = [65] := by decide +kernel
  have hbytes := hagree.2 1 [5] (by decide) (by decide +kernel) hload
  exact absurd (hbytes.trans hcontent) (by decide)

theorem readsAgree_iff_linkDisk :
    linkDisk.ReadsAgree everySector 12 linkInode ↔ linkDisk.FollowsMap linkInode :=
  readsAgree_iff readInode_linkDisk readsPointers_linkDisk

end ExtendedFileSystem

end TwistedOS
