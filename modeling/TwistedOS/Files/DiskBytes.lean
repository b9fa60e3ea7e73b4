import TwistedOS.Data.PlacedBytes
import TwistedOS.Files.ExtendedFileSystem

/-!
# Bytes of a partition

The controller reads and writes whole sectors. `ReadBytesFromDisk` reads the rest of the first
sector, then batches of sectors that are wanted whole, then what is left of the last sector;
`WriteBytesToDisk` goes from sector to sector, and reads those that it writes in part.

The sectors below a limit can be accessed: the controller of the kernel takes addresses of 28 bits,
the callers check that an address has 32.

## Main definitions

* `IDEController`, `DiskPartition`.
* `DiskPartition.readBytesFromDisk`, `DiskPartition.writeBytesToDisk`.
* `DiskPartition.Covers` — a range lies in the part of the partition that can be accessed.

## Main results

* `DiskPartition.readBytesFromDisk_eq`, `DiskPartition.writeBytesToDisk_of_covers`.
* `DiskPartition.byteAccess_exact` — access to bytes is exact.
* `DiskPartition.readBytesFromDisk_eq_fileSystem` — the reads of the file system.
-/

namespace TwistedOS

open ByteMemory

/-- A controller that returns stored sectors, `IDEController`. -/
structure IDEController where
  initialized : Bool
  /-- The sectors below are accessible. -/
  sectorLimit : ℕ
  sectorLimit_le : sectorLimit ≤ 2 ^ 32

namespace IDEController

variable (controller : IDEController) (disk : ByteMemory)

/-- `ReadBlocks`. -/
def readBlocks (lba sectorCount : ℕ) : Option (List UInt8) :=
  if !controller.initialized ∨ sectorCount = 0 ∨ 255 < sectorCount ∨
      controller.sectorLimit ≤ lba ∨ controller.sectorLimit ≤ lba + (sectorCount - 1) then none
  else some (disk.loadBytes (controllerSectorSize * lba) (controllerSectorSize * sectorCount))

/-- `WriteBlock`. -/
def writeBlock (lba : ℕ) (buffer : List UInt8) : Option ByteMemory :=
  if !controller.initialized ∨ controller.sectorLimit ≤ lba then none
  else some (disk.storeBytes (controllerSectorSize * lba) buffer)

end IDEController

/-- The partition of an `ExtendedFileSystemManager`. The last sector of a partition has an address
of 64 bits. -/
structure DiskPartition where
  controller : IDEController
  partitionConfigured : Bool
  startLBA : ℕ
  sectorCount : ℕ
  end_le : startLBA + sectorCount ≤ 2 ^ 64

namespace DiskPartition

variable (p : DiskPartition) (disk : ByteMemory)

/-- `AbsoluteSector`. -/
def absoluteSector (sector : ℕ) : ℕ := (p.startLBA + sector) % 2 ^ 64

/-- Reads sectors of the partition whose first address has 32 bits. -/
def readSectors (sector count : ℕ) : Option (List UInt8) :=
  if 0xFFFFFFFF < p.absoluteSector sector then none
  else p.controller.readBlocks disk (p.absoluteSector sector) count

/-- The part of `ReadBytesFromDisk` that reads the rest of the first sector. -/
def readHead (offset size : ℕ) : Option (List UInt8) :=
  if offset % controllerSectorSize = 0 then some []
  else
    (p.readSectors disk (offset / controllerSectorSize) 1).map fun sectorBuffer =>
      (sectorBuffer.drop (offset % controllerSectorSize)).take
        (min (controllerSectorSize - offset % controllerSectorSize) size)

/-- `NextSector` after the first sector. -/
def sectorAfterHead (offset : ℕ) : ℕ :=
  offset / controllerSectorSize + if offset % controllerSectorSize = 0 then 0 else 1

/-- `BatchSectors`. -/
def batchSectors (size copied endSector nextSector : ℕ) : ℕ :=
  min (min ((size - copied) / controllerSectorSize) (endSector - nextSector + 1)) 255

/-- The loop of `ReadBytesFromDisk` over batches of sectors. -/
def readBatches (size endSector : ℕ) (copied : List UInt8) (nextSector : ℕ) :
    Option (List UInt8 × ℕ) :=
  if _h : copied.length + controllerSectorSize ≤ size ∧ nextSector ≤ endSector ∧
      (size - copied.length) / controllerSectorSize ≠ 0 then
    match p.readSectors disk nextSector (batchSectors size copied.length endSector nextSector) with
    | none => none
    | some batch =>
      readBatches size endSector (copied ++ batch)
        (nextSector + batchSectors size copied.length endSector nextSector)
  else some (copied, nextSector)
termination_by endSector + 1 - nextSector
decreasing_by
  simp only [batchSectors, controllerSectorSize] at *
  omega

/-- The last loop of `ReadBytesFromDisk`, over `rounds` sectors. -/
def readTail (size : ℕ) : (rounds : ℕ) → List UInt8 → ℕ → Option (List UInt8)
  | 0, copied, _ => some copied
  | rounds + 1, copied, sector =>
    match p.readSectors disk sector 1 with
    | none => none
    | some sectorBuffer =>
      readTail size rounds
        (copied ++ sectorBuffer.take (min (size - copied.length) controllerSectorSize)) (sector + 1)

/-- `StartSector` and `EndSectorInclusive` are in the partition. -/
def InPartition (offset size : ℕ) : Prop :=
  offset / controllerSectorSize < p.sectorCount ∧
    (offset + size - 1) / controllerSectorSize < p.sectorCount

instance (offset size : ℕ) : Decidable (p.InPartition offset size) :=
  inferInstanceAs (Decidable (_ ∧ _))

/-- `ReadBytesFromDisk`. -/
def readBytesFromDisk (offset size : ℕ) : Option (List UInt8) :=
  if !p.controller.initialized ∨ !p.partitionConfigured then none
  else if size = 0 then some []
  else if ¬p.InPartition offset size then none
  else
    let endSector := (offset + size - 1) / controllerSectorSize
    match p.readHead disk offset size with
    | none => none
    | some head =>
      match p.readBatches disk size endSector head (sectorAfterHead offset) with
      | none => none
      | some (copied, nextSector) =>
        if copied.length = size then some copied
        else p.readTail disk size (endSector + 1 - nextSector) copied nextSector

/-- What a round of `WriteBytesToDisk` puts into a sector: bytes at an offset, over those that are
there. A sector that is written whole is not read. -/
def sectorBuffer (sector sectorStart : ℕ) (bytes : List UInt8) : Option (List UInt8) :=
  (if sectorStart ≠ 0 ∨ bytes.length ≠ controllerSectorSize then
    p.controller.readBlocks disk (p.absoluteSector sector) 1
  else some (List.replicate controllerSectorSize 0)).map fun buffer =>
    buffer.take sectorStart ++ bytes ++ buffer.drop (sectorStart + bytes.length)

/-- `SectorStartOffset`. -/
def sectorStartOffset (offset sector : ℕ) : ℕ :=
  if sector = offset / controllerSectorSize then offset % controllerSectorSize else 0

/-- The loop of `WriteBytesToDisk`, over `rounds` sectors, with the bytes that are left. -/
def writeSectors (offset : ℕ) :
    (rounds : ℕ) → ByteMemory → List UInt8 → ℕ → ByteMemory × Bool
  | 0, disk, _, _ => (disk, true)
  | rounds + 1, disk, source, sector =>
    let sectorStart := sectorStartOffset offset sector
    let bytes := source.take (min source.length (controllerSectorSize - sectorStart))
    if 0xFFFFFFFF < p.absoluteSector sector then (disk, false)
    else
      match p.sectorBuffer disk sector sectorStart bytes with
      | none => (disk, false)
      | some buffer =>
        match p.controller.writeBlock disk (p.absoluteSector sector) buffer with
        | none => (disk, false)
        | some written =>
          writeSectors offset rounds written (source.drop bytes.length) (sector + 1)

/-- `WriteBytesToDisk`. -/
def writeBytesToDisk (offset : ℕ) (source : List UInt8) : ByteMemory × Bool :=
  if !p.controller.initialized ∨ !p.partitionConfigured then (disk, false)
  else if source.length = 0 then (disk, true)
  else if ¬p.InPartition offset source.length then (disk, false)
  else
    p.writeSectors offset
      ((offset + source.length - 1) / controllerSectorSize + 1 - offset / controllerSectorSize)
      disk source (offset / controllerSectorSize)

/-! ### Sectors -/

/-- The position of a byte of the partition on the disk. -/
def position (offset : ℕ) : ℕ := controllerSectorSize * p.startLBA + offset

/-- Every byte of a range is in the partition and has a sector that can be accessed. -/
def Covers (offset size : ℕ) : Prop :=
  ∀ byte, offset ≤ byte → byte < offset + size →
    byte < controllerSectorSize * p.sectorCount ∧
      p.startLBA + byte / controllerSectorSize < p.controller.sectorLimit

/-- The partition is configured, with a controller that is initialized. -/
def Ready : Prop := p.controller.initialized = true ∧ p.partitionConfigured = true

variable {p disk} {offset size sector count nextSector endSector rounds : ℕ}
  {copied source : List UInt8}

theorem covers_iff (hsize : size ≠ 0) : p.Covers offset size ↔
    p.InPartition offset size ∧
      p.startLBA + (offset + size - 1) / controllerSectorSize < p.controller.sectorLimit := by
  simp only [Covers, InPartition, controllerSectorSize]
  constructor
  · intro h
    have hfirst := h offset le_rfl (by omega)
    have hlast := h (offset + size - 1) (by omega) (by omega)
    exact ⟨by omega, hlast.2⟩
  · rintro ⟨⟨-, hlast⟩, hlimit⟩ byte hle hlt
    omega

theorem covers_zero : p.Covers offset 0 := fun _ hle hlt => absurd hle (Nat.not_le_of_lt hlt)

instance (offset size : ℕ) : Decidable (p.Covers offset size) :=
  decidable_of_iff (size = 0 ∨ p.InPartition offset size ∧
      p.startLBA + (offset + size - 1) / controllerSectorSize < p.controller.sectorLimit) <| by
    by_cases hsize : size = 0
    · subst hsize
      exact iff_of_true (.inl rfl) covers_zero
    · rw [covers_iff hsize, or_iff_right hsize]

theorem absoluteSector_eq (h : sector < p.sectorCount) :
    p.absoluteSector sector = p.startLBA + sector :=
  Nat.mod_eq_of_lt (by have := p.end_le; omega)

/-- Sectors of the partition are read when the last one is accessible. -/
theorem readSectors_eq (hinit : p.controller.initialized = true) (hpos : 0 < count)
    (hle : count ≤ 255) (hin : sector + count ≤ p.sectorCount) :
    p.readSectors disk sector count =
      if p.startLBA + sector + count ≤ p.controller.sectorLimit then
        some (disk.loadBytes (p.position (controllerSectorSize * sector))
          (controllerSectorSize * count))
      else none := by
  have hlimit := p.controller.sectorLimit_le
  rw [readSectors, absoluteSector_eq (by omega), IDEController.readBlocks, hinit, position,
    ← Nat.mul_add]
  split_ifs <;> first | rfl | (exfalso; simp at *; omega)

/-! ### Reading -/

/-- The bytes of a range up to a sector are read. -/
structure ReadUpTo (p : DiskPartition) (disk : ByteMemory) (offset size : ℕ)
    (copied : List UInt8) (nextSector : ℕ) : Prop where
  copied_eq : copied = disk.loadBytes (p.position offset)
    (min size (controllerSectorSize * nextSector - offset))
  offset_le : offset ≤ controllerSectorSize * nextSector
  accessible : offset < controllerSectorSize * nextSector →
    p.startLBA + nextSector ≤ p.controller.sectorLimit

namespace ReadUpTo

section

variable (h : ReadUpTo p disk offset size copied nextSector)

include h

theorem length_eq : copied.length = min size (controllerSectorSize * nextSector - offset) := by
  rw [h.copied_eq, length_loadBytes]

/-- More sectors are read, and what is wanted of them is taken. -/
theorem append (haccessible : p.startLBA + nextSector + count ≤ p.controller.sectorLimit) {n : ℕ}
    (hn : copied.length + n = min size (controllerSectorSize * (nextSector + count) - offset))
    (hmore : copied.length < size) :
    ReadUpTo p disk offset size
      (copied ++ disk.loadBytes (p.position (controllerSectorSize * nextSector)) n)
      (nextSector + count) := by
  have hlength := h.length_eq
  have hle := h.offset_le
  refine ⟨?_, ?_, fun _ => by omega⟩
  · have hposition : p.position (controllerSectorSize * nextSector) =
        p.position offset + copied.length := by
      simp only [position, controllerSectorSize] at *
      omega
    have hcopied : disk.loadBytes (p.position offset) copied.length = copied := by
      conv_rhs => rw [h.copied_eq, ← hlength]
    rw [← hn, loadBytes_add, hposition, hcopied]
  · rw [Nat.mul_add]
    omega

/-- Once all is read, the range was accessible. -/
theorem eq_of_length_eq (hsize : size ≠ 0) (hin : p.InPartition offset size)
    (hlength : copied.length = size) :
    some copied =
      if p.Covers offset size then some (disk.loadBytes (p.position offset) size) else none := by
  have hmin := h.length_eq
  have haccessible := h.accessible
  rw [if_pos ((covers_iff hsize).mpr ⟨hin, ?_⟩), ← hlength]
  · conv_lhs => rw [h.copied_eq, ← hmin]
  · simp only [controllerSectorSize] at *
    omega

end

end ReadUpTo

variable (disk) in
theorem readHead_cases (hinit : p.controller.initialized = true)
    (hin : p.InPartition offset size) :
    (∃ head, p.readHead disk offset size = some head ∧
      ReadUpTo p disk offset size head (sectorAfterHead offset)) ∨
    (p.readHead disk offset size = none ∧
      p.controller.sectorLimit ≤ p.startLBA + (offset + size - 1) / controllerSectorSize) := by
  have hfirst := hin.1
  rw [readHead, sectorAfterHead]
  by_cases hhead : offset % controllerSectorSize = 0
  · rw [if_pos hhead, if_pos hhead]
    refine .inl ⟨[], rfl, ?_, ?_, fun hlt => ?_⟩
    · have hzero : controllerSectorSize * (offset / controllerSectorSize + 0) - offset = 0 := by
        simp only [controllerSectorSize] at *
        omega
      rw [hzero, Nat.min_zero]
      rfl
    · simp only [controllerSectorSize] at *
      omega
    · simp only [controllerSectorSize] at *
      omega
  · rw [if_neg hhead, if_neg hhead, readSectors_eq hinit Nat.one_pos (by omega) hfirst]
    split_ifs with hlimit
    · refine .inl ⟨_, rfl, ?_, ?_, fun _ => hlimit⟩
      · dsimp only
        rw [drop_loadBytes, take_loadBytes]
        · congr 1
          · simp only [position, controllerSectorSize] at *
            omega
          · simp only [controllerSectorSize] at *
            omega
        · simp only [controllerSectorSize] at *
          omega
      · simp only [controllerSectorSize] at *
        omega
    · refine .inr ⟨rfl, ?_⟩
      simp only [controllerSectorSize] at *
      omega

/-- The batches. What is left is less than a sector. -/
theorem readBatches_cases (hinit : p.controller.initialized = true)
    (hend : endSector = (offset + size - 1) / controllerSectorSize)
    (hin : endSector < p.sectorCount) (h : ReadUpTo p disk offset size copied nextSector) :
    (∃ copied' nextSector',
      p.readBatches disk size endSector copied nextSector = some (copied', nextSector') ∧
        ReadUpTo p disk offset size copied' nextSector') ∨
    (p.readBatches disk size endSector copied nextSector = none ∧
      p.controller.sectorLimit ≤ p.startLBA + endSector) := by
  induction hrounds : endSector + 1 - nextSector using Nat.strong_induction_on
    generalizing copied nextSector with
  | _ rounds ih =>
    rw [readBatches]
    split_ifs with hmore
    · have hlength := h.length_eq
      have hle := h.offset_le
      set n := batchSectors size copied.length endSector nextSector with hn
      have hbatch : 0 < n ∧ n ≤ 255 ∧ nextSector + n ≤ endSector + 1 ∧
          copied.length + controllerSectorSize * n ≤ size := by
        simp only [hn, batchSectors, controllerSectorSize] at *
        omega
      obtain ⟨hpos, h255, hsectors, hsize⟩ := hbatch
      rw [readSectors_eq hinit hpos h255 (by omega)]
      by_cases hlimit : p.startLBA + nextSector + n ≤ p.controller.sectorLimit
      · rw [if_pos hlimit]
        refine ih (endSector + 1 - (nextSector + n)) (by omega) (h.append hlimit ?_ ?_) rfl
        · simp only [controllerSectorSize] at *
          omega
        · simp only [controllerSectorSize] at *
          omega
      · rw [if_neg hlimit]
        exact .inr ⟨rfl, by omega⟩
    · exact .inl ⟨copied, nextSector, rfl, h⟩

theorem readTail_cases (hinit : p.controller.initialized = true) (hsize : size ≠ 0)
    (hend : endSector = (offset + size - 1) / controllerSectorSize)
    (hin : endSector < p.sectorCount) (hrounds : nextSector + rounds = endSector + 1)
    (h : ReadUpTo p disk offset size copied nextSector) :
    (∃ copied', p.readTail disk size rounds copied nextSector = some copied' ∧
      ReadUpTo p disk offset size copied' (endSector + 1)) ∨
    (p.readTail disk size rounds copied nextSector = none ∧
      p.controller.sectorLimit ≤ p.startLBA + endSector) := by
  induction rounds generalizing copied nextSector with
  | zero => exact .inl ⟨copied, rfl, hrounds ▸ h⟩
  | succ rounds ih =>
    have hlength := h.length_eq
    have hle := h.offset_le
    have hmore : copied.length < size := by
      simp only [controllerSectorSize] at *
      omega
    rw [readTail, readSectors_eq hinit Nat.one_pos (by omega) (by omega)]
    by_cases hlimit : p.startLBA + nextSector + 1 ≤ p.controller.sectorLimit
    · rw [if_pos hlimit]
      dsimp only
      rw [take_loadBytes (by simp only [controllerSectorSize]; omega)]
      refine ih (by omega) (h.append hlimit ?_ hmore)
      simp only [controllerSectorSize] at *
      omega
    · rw [if_neg hlimit]
      exact .inr ⟨rfl, by omega⟩

/-- A range that is covered is read; any other is not. -/
theorem readBytesFromDisk_eq (hready : p.Ready) : p.readBytesFromDisk disk offset size =
    if p.Covers offset size then some (disk.loadBytes (p.position offset) size) else none := by
  have hnot : ¬((!p.controller.initialized) = true ∨ (!p.partitionConfigured) = true) := by
    simp [hready.1, hready.2]
  rw [readBytesFromDisk, if_neg hnot]
  by_cases hsize : size = 0
  · subst hsize
    rw [if_pos rfl, if_pos covers_zero]
    rfl
  rw [if_neg hsize]
  by_cases hin : p.InPartition offset size
  swap
  · rw [if_pos hin, if_neg fun hcovers => hin ((covers_iff hsize).mp hcovers).1]
  rw [if_neg (not_not_intro hin)]
  have hlimited : p.controller.sectorLimit ≤
      p.startLBA + (offset + size - 1) / controllerSectorSize → ¬p.Covers offset size :=
    fun hlimit hcovers => Nat.not_lt_of_le hlimit ((covers_iff hsize).mp hcovers).2
  dsimp only
  obtain ⟨head, hhead, hread⟩ | ⟨hhead, hlimit⟩ := readHead_cases disk hready.1 hin
  swap
  · rw [hhead, if_neg (hlimited hlimit)]
  rw [hhead]
  dsimp only
  obtain ⟨copied, nextSector, hbatches, hread⟩ | ⟨hbatches, hlimit⟩ :=
    readBatches_cases hready.1 rfl hin.2 hread
  swap
  · rw [hbatches, if_neg (hlimited hlimit)]
  rw [hbatches]
  dsimp only
  have hlength := hread.length_eq
  by_cases hall : copied.length = size
  · rw [if_pos hall]
    exact hread.eq_of_length_eq hsize hin hall
  rw [if_neg hall]
  have hrounds : nextSector + ((offset + size - 1) / controllerSectorSize + 1 - nextSector) =
      (offset + size - 1) / controllerSectorSize + 1 := by
    simp only [controllerSectorSize] at *
    omega
  obtain ⟨copied', htail, hread⟩ | ⟨htail, hlimit⟩ :=
    readTail_cases hready.1 hsize rfl hin.2 hrounds hread
  · have hlength := hread.length_eq
    rw [htail]
    refine hread.eq_of_length_eq hsize hin ?_
    simp only [controllerSectorSize] at *
    omega
  · rw [htail, if_neg (hlimited hlimit)]

/-! ### Writing -/

variable (disk) in
/-- The buffer of a round, once stored, changes the bytes of the round only. -/
theorem storeBytes_sectorBuffer (hinit : p.controller.initialized = true)
    (hin : sector < p.sectorCount) (hlimit : p.startLBA + sector < p.controller.sectorLimit)
    {sectorStart : ℕ} {bytes : List UInt8}
    (hfits : sectorStart + bytes.length ≤ controllerSectorSize) :
    ∃ buffer, p.sectorBuffer disk sector sectorStart bytes = some buffer ∧
      disk.storeBytes (p.position (controllerSectorSize * sector)) buffer =
        disk.storeBytes (p.position (controllerSectorSize * sector) + sectorStart) bytes := by
  set a := p.position (controllerSectorSize * sector) with ha
  rw [sectorBuffer]
  split_ifs with hpart
  · have hread : p.controller.readBlocks disk (p.absoluteSector sector) 1 =
        some (disk.loadBytes a controllerSectorSize) := by
      rw [IDEController.readBlocks, absoluteSector_eq hin, if_neg (by simp [hinit]; omega),
        Nat.mul_one, Nat.mul_add, ha, position]
    refine ⟨_, congrArg _ hread, ?_⟩
    dsimp only
    have hkept : disk.loadBytes (a + (sectorStart + bytes.length))
        (controllerSectorSize - (sectorStart + bytes.length)) =
        (disk.storeBytes (a + sectorStart) bytes).loadBytes (a + (sectorStart + bytes.length))
          (controllerSectorSize - (sectorStart + bytes.length)) :=
      loadBytes_congr fun b hb _ =>
        (storeBytes_apply_of_notMem (.inr (by omega))).symm
    rw [take_loadBytes (by omega), drop_loadBytes,
      storeBytes_append, storeBytes_append, storeBytes_loadBytes,
      List.length_append, length_loadBytes, hkept, storeBytes_loadBytes]
  · have hwhole : sectorStart = 0 ∧ bytes.length = controllerSectorSize := by omega
    refine ⟨bytes, ?_, by rw [hwhole.1, Nat.add_zero]⟩
    simp [hwhole.1, hwhole.2]

theorem sectorStartOffset_lt : sectorStartOffset offset sector < controllerSectorSize := by
  rw [sectorStartOffset]
  split_ifs
  · exact Nat.mod_lt _ (by decide)
  · decide

/-- A round starts at the offset of the range or at the start of a sector. -/
theorem add_sectorStartOffset (hfirst : offset / controllerSectorSize ≤ sector) :
    controllerSectorSize * sector + sectorStartOffset offset sector =
      offset + (controllerSectorSize * sector - offset) := by
  rw [sectorStartOffset]
  split_ifs with heq
  · have hdiv := Nat.div_add_mod offset controllerSectorSize
    rw [heq]
    omega
  · simp only [controllerSectorSize] at *
    omega

theorem writeSectors_of_covers (hinit : p.controller.initialized = true)
    (hin : (offset + size - 1) / controllerSectorSize < p.sectorCount)
    (hlimit : p.startLBA + (offset + size - 1) / controllerSectorSize < p.controller.sectorLimit)
    (hrounds : sector + rounds = (offset + size - 1) / controllerSectorSize + 1)
    (hfirst : offset / controllerSectorSize ≤ sector)
    (hsource : source.length = size - (controllerSectorSize * sector - offset)) :
    p.writeSectors offset rounds disk source sector =
      (disk.storeBytes (p.position (offset + (controllerSectorSize * sector - offset))) source,
        true) := by
  induction rounds generalizing disk source sector with
  | zero =>
    have hdone : source = [] := by
      refine List.eq_nil_of_length_eq_zero ?_
      simp only [controllerSectorSize] at *
      omega
    rw [hdone]
    rfl
  | succ rounds ih =>
    have hsector : sector < p.sectorCount := by omega
    have haccess : p.startLBA + sector < p.controller.sectorLimit := by omega
    have hlimit_le := p.controller.sectorLimit_le
    set sectorStart := sectorStartOffset offset sector with hstart
    set bytes := source.take (min source.length (controllerSectorSize - sectorStart)) with hbytes
    have hstart_eq := add_sectorStartOffset hfirst
    have hstart_lt : sectorStart < controllerSectorSize := sectorStartOffset_lt
    rw [← hstart] at hstart_eq
    have hlength : bytes.length = min source.length (controllerSectorSize - sectorStart) := by
      rw [hbytes, List.length_take]
      omega
    obtain ⟨buffer, hbuffer, hstore⟩ := storeBytes_sectorBuffer disk hinit hsector haccess
      (show sectorStart + bytes.length ≤ controllerSectorSize by omega)
    have hwrite : p.controller.writeBlock disk (p.absoluteSector sector) buffer =
        some (disk.storeBytes (p.position (controllerSectorSize * sector + sectorStart)) bytes) := by
      rw [IDEController.writeBlock, absoluteSector_eq hsector, if_neg (by simp [hinit]; omega),
        Nat.mul_add, ← position, hstore, position, position, Nat.add_assoc]
    rw [writeSectors, if_neg (by rw [absoluteSector_eq hsector]; omega), hbuffer]
    dsimp only
    rw [hwrite]
    have hrest : (source.drop bytes.length).length =
        size - (controllerSectorSize * (sector + 1) - offset) := by
      rw [List.length_drop]
      simp only [controllerSectorSize] at *
      omega
    refine (ih (by omega) (by omega) hrest).trans (congrArg (·, true) ?_)
    have hsplit : source = bytes ++ source.drop bytes.length := by
      rw [hlength, hbytes, List.take_append_drop]
    conv_rhs => rw [hsplit, storeBytes_append, ← hstart_eq]
    rcases Nat.lt_or_ge source.length (controllerSectorSize - sectorStart) with hlast | hmore
    · have hnone : source.drop bytes.length = [] := List.drop_eq_nil_of_le (by omega)
      rw [hnone]
      rfl
    · congr 1
      simp only [position, controllerSectorSize] at *
      omega

/-- What is written to a range that is covered is stored there. -/
theorem writeBytesToDisk_of_covers (hready : p.Ready) (hcovers : p.Covers offset source.length) :
    p.writeBytesToDisk disk offset source =
      (disk.storeBytes (p.position offset) source, true) := by
  have hnot : ¬((!p.controller.initialized) = true ∨ (!p.partitionConfigured) = true) := by
    simp [hready.1, hready.2]
  rw [writeBytesToDisk, if_neg hnot]
  by_cases hsize : source.length = 0
  · rw [if_pos hsize, List.eq_nil_of_length_eq_zero hsize]
    rfl
  obtain ⟨hin, hlimit⟩ := (covers_iff hsize).mp hcovers
  have hstart : controllerSectorSize * (offset / controllerSectorSize) - offset = 0 :=
    Nat.sub_eq_zero_of_le (Nat.mul_div_le ..)
  have hle : offset / controllerSectorSize ≤ (offset + source.length - 1) / controllerSectorSize :=
    Nat.div_le_div_right (by omega)
  rw [if_neg hsize, if_neg (not_not_intro hin),
    writeSectors_of_covers hready.1 hin.2 hlimit (by omega) le_rfl (by rw [hstart]; omega),
    hstart, Nat.add_zero]

/-- The loop fails at a last sector that cannot be accessed, or before. -/
theorem writeSectors_eq_false (hin : endSector < p.sectorCount)
    (hrounds : sector + rounds = endSector + 1) (hle : sector ≤ endSector)
    (hlimit : p.controller.sectorLimit ≤ p.startLBA + endSector) :
    (p.writeSectors offset rounds disk source sector).2 = false := by
  induction rounds generalizing disk source sector with
  | zero => omega
  | succ rounds ih =>
    rw [writeSectors]
    split_ifs with hlarge
    · rfl
    · split
      next => rfl
      next buffer _ =>
        rcases hwrite : p.controller.writeBlock disk (p.absoluteSector sector) buffer
          with _ | written
        · rfl
        · have haccess : p.startLBA + sector < p.controller.sectorLimit := by
            rw [IDEController.writeBlock, absoluteSector_eq (by omega)] at hwrite
            split_ifs at hwrite with hno
            omega
          exact ih (by omega) (by omega)

/-- A write succeeds just when its range is covered. -/
theorem writeBytesToDisk_snd (hready : p.Ready) :
    (p.writeBytesToDisk disk offset source).2 = decide (p.Covers offset source.length) := by
  by_cases hcovers : p.Covers offset source.length
  · rw [writeBytesToDisk_of_covers hready hcovers, decide_eq_true hcovers]
  have hsize : source.length ≠ 0 := fun hzero => hcovers (hzero ▸ covers_zero)
  have hnot : ¬((!p.controller.initialized) = true ∨ (!p.partitionConfigured) = true) := by
    simp [hready.1, hready.2]
  rw [writeBytesToDisk, if_neg hnot, if_neg hsize, decide_eq_false hcovers]
  split_ifs with hin
  swap
  · rfl
  have hlimit := fun hlimit => hcovers ((covers_iff hsize).mpr ⟨hin, hlimit⟩)
  have hle : offset / controllerSectorSize ≤ (offset + source.length - 1) / controllerSectorSize :=
    Nat.div_le_div_right (by omega)
  exact writeSectors_eq_false hin.2 (by omega) hle (Nat.le_of_not_lt hlimit)

/-! ### Exactness -/

/-- Ranges without a common byte. -/
def Apart (offset size offset' size' : ℕ) : Prop :=
  offset + size ≤ offset' ∨ offset' + size' ≤ offset

/-- A read succeeds just when its range lies in the partition and can be accessed, and it returns
the bytes of the range. A write succeeds just then, and it stores its bytes and changes no other
byte of the disk: they are read back, and the reads of other ranges are the same as before. -/
theorem byteAccess_exact (hready : p.Ready) (disk : ByteMemory) :
    (∀ offset size, p.readBytesFromDisk disk offset size =
      if p.Covers offset size then some (disk.loadBytes (p.position offset) size) else none) ∧
    (∀ offset source, ((p.writeBytesToDisk disk offset source).2 = true ↔
      p.Covers offset source.length)) ∧
    ∀ offset source, p.Covers offset source.length →
      (∀ (i : ℕ) (hi : i < source.length),
        (p.writeBytesToDisk disk offset source).1 (p.position offset + i) = source[i]) ∧
      (∀ address, address < p.position offset ∨ p.position offset + source.length ≤ address →
        (p.writeBytesToDisk disk offset source).1 address = disk address) ∧
      p.readBytesFromDisk (p.writeBytesToDisk disk offset source).1 offset source.length =
        some source ∧
      ∀ offset' size, Apart offset source.length offset' size →
        p.readBytesFromDisk (p.writeBytesToDisk disk offset source).1 offset' size =
          p.readBytesFromDisk disk offset' size := by
  refine ⟨fun offset size => readBytesFromDisk_eq hready, fun offset source => ?_,
    fun offset source hcovers => ?_⟩
  · rw [writeBytesToDisk_snd hready, decide_eq_true_iff]
  · rw [writeBytesToDisk_of_covers hready hcovers]
    refine ⟨fun i hi => storeBytes_apply_of_mem hi,
      fun address haddress => storeBytes_apply_of_notMem haddress, ?_,
      fun offset' size hapart => ?_⟩
    · rw [readBytesFromDisk_eq hready, if_pos hcovers, loadBytes_storeBytes]
    · rw [readBytesFromDisk_eq hready, readBytesFromDisk_eq hready,
        loadBytes_congr fun b hle hlt => storeBytes_apply_of_notMem ?_]
      simp only [Apart, position] at *
      omega

/-- A controller that accesses all sectors with an address of 32 bits. -/
def wholeController : IDEController where
  initialized := true
  sectorLimit := 2 ^ 32
  sectorLimit_le := le_rfl

/-- A partition of two sectors, the last ones that can be accessed. -/
def lastSectors : DiskPartition where
  controller := wholeController
  partitionConfigured := true
  startLBA := 2 ^ 32 - 2
  sectorCount := 2
  end_le := by decide

theorem byteAccess_exact_lastSectors : lastSectors.Ready ∧ ∀ offset size,
    lastSectors.readBytesFromDisk (fun _ => 7) offset size =
      if lastSectors.Covers offset size then
        some (loadBytes (fun _ => 7) (lastSectors.position offset) size)
      else none :=
  ⟨⟨rfl, rfl⟩, (byteAccess_exact ⟨rfl, rfl⟩ _).1⟩

/-! ### The file system -/

/-- The file system reads the bytes of its partition in this way. -/
theorem readBytesFromDisk_eq_fileSystem {fs : ExtendedFileSystem} (hready : p.Ready)
    (himage : ∀ offset, fs.image offset = disk (p.position offset))
    (hcount : fs.partitionSectorCount = p.sectorCount) :
    p.readBytesFromDisk disk offset size =
      fs.readBytesFromDisk
        (fun sector => decide (p.startLBA + sector < p.controller.sectorLimit)) offset size := by
  rw [readBytesFromDisk_eq hready, ExtendedFileSystem.readBytesFromDisk]
  by_cases hsize : size = 0
  · subst hsize
    rw [if_pos covers_zero, if_pos rfl]
    rfl
  rw [if_neg hsize]
  have hbytes : disk.loadBytes (p.position offset) size = fs.bytesAt offset size := by
    refine List.map_congr_left fun i _ => ?_
    rw [himage, position, position, Nat.add_assoc]
  rw [hbytes]
  refine if_congr ?_ rfl rfl
  have hle : offset / controllerSectorSize ≤ (offset + size - 1) / controllerSectorSize :=
    Nat.div_le_div_right (by omega)
  rw [covers_iff hsize, List.all_eq_true]
  simp only [ExtendedFileSystem.sectorsOf, List.mem_range'_1, Bool.and_eq_true, decide_eq_true_eq,
    hcount, InPartition]
  constructor
  · rintro ⟨⟨-, hlast⟩, hlimit⟩ sector ⟨-, hlt⟩
    omega
  · intro h
    have hfirst := h (offset / controllerSectorSize) (by omega)
    have hlast := h ((offset + size - 1) / controllerSectorSize) (by omega)
    exact ⟨⟨hfirst.1, hlast.1⟩, hlast.2⟩

end DiskPartition

end TwistedOS
