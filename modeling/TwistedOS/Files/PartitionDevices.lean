import Mathlib.Algebra.Order.Group.Nat
import TwistedOS.Data.PlacedBytes
import TwistedOS.Files.ExtendedFileSystem
import TwistedOS.KernelParameters

/-!
# Partition block devices

Reads and writes of a partition go through its sectors one after the other. A sector that is covered
in part is read before it is written. The transfer ends at the first sector that fails; it reports
the bytes before this sector, but advances the offset of the file only when it went through to the
end.

In each call any sectors may fail, to be read or to be written. A sector that fails to be written
keeps its bytes.

## Main definitions

* `PartitionBlockDevice`, `SectorFailures`.
* `PartitionBlockDevice.readFileOperation`, `PartitionBlockDevice.writeFileOperation`.
* `PartitionBlockDevice.ReadExact`, `PartitionBlockDevice.WriteExact`.
* `PartitionBlockDevice.ReadMeets`, `PartitionBlockDevice.WriteMeets`: when a call is exact.
* `PartitionBlockDevice.readAll`, `PartitionBlockDevice.writeAll`: sequences of calls.

## Main results

* `PartitionBlockDevice.readSectors_spec`, `PartitionBlockDevice.writeSectors_spec`.
* `PartitionBlockDevice.partitionAccess_iff`.
-/

namespace TwistedOS

open ByteMemory

/-- `PARTITION_SECTOR_SIZE`. -/
def partitionSectorSize : ℕ := 512

/-- The sectors that fail in a call, by their numbers on the disk. -/
structure SectorFailures where
  readFails : ℕ → Bool
  writeFails : ℕ → Bool

/-- `PartitionBlockDevice`. The last sector of a partition has a number of 64 bits. -/
structure PartitionBlockDevice where
  startLBA : ℕ
  sectorCount : ℕ
  end_le : startLBA + sectorCount ≤ 2 ^ 64

namespace PartitionBlockDevice

section Operations

variable (d : PartitionBlockDevice) (f : SectorFailures) (disk : ByteMemory)

/-- `DeviceSizeBytes`. -/
def deviceSizeBytes : ℕ := u64 (d.sectorCount * partitionSectorSize)

/-- `StartLBA + RelativeSectorIndex`, for an offset in the partition. -/
def absoluteSector (offset : ℕ) : ℕ := u64 (d.startLBA + offset / partitionSectorSize)

/-- `Chunk`: the bytes of a transfer in the sector of an offset. -/
def chunkSize (offset remaining : ℕ) : ℕ :=
  min (partitionSectorSize - offset % partitionSectorSize) remaining

/-- The bytes of the sector of an offset. -/
def sectorBytes (offset : ℕ) : List UInt8 :=
  disk.loadBytes (partitionSectorSize * d.absoluteSector offset) partitionSectorSize

theorem chunkSize_pos {offset remaining : ℕ} (h : remaining ≠ 0) : 0 < chunkSize offset remaining :=
  lt_min (Nat.sub_pos_of_lt (Nat.mod_lt _ (by decide))) (Nat.pos_of_ne_zero h)

/-- The loop of `PartitionReadFileOperation`, from an offset on: the bytes, and whether it went
through to the end. -/
def readSectors (offset remaining : ℕ) : List UInt8 × Bool :=
  if _h : remaining = 0 then ([], true)
  else if 0xFFFFFFFF < d.absoluteSector offset ∨ f.readFails (d.absoluteSector offset) then
    ([], false)
  else
    let chunk := chunkSize offset remaining
    let bytes := ((d.sectorBytes disk offset).drop (offset % partitionSectorSize)).take chunk
    let rest := readSectors (offset + chunk) (remaining - chunk)
    (bytes ++ rest.1, rest.2)
termination_by remaining
decreasing_by exact Nat.sub_lt (Nat.pos_of_ne_zero _h) (chunkSize_pos _h)

/-- What a file operation returns, with the bytes that were read and the offset of the file. -/
structure ReadOutcome where
  result : ℤ
  bytes : List UInt8
  offset : ℕ
  deriving DecidableEq, Repr

/-- `PartitionReadFileOperation`. -/
def readFileOperation (offset count : ℕ) : ReadOutcome :=
  if d.deviceSizeBytes ≤ offset then ⟨0, [], offset⟩
  else
    let r := d.readSectors f disk offset (min count (d.deviceSizeBytes - offset))
    if r.2 then ⟨r.1.length, r.1, u64 (offset + r.1.length)⟩
    else if r.1.length = 0 then ⟨-5, [], offset⟩
    else ⟨r.1.length, r.1, offset⟩

/-- The loop of `PartitionWriteFileOperation`: the disk, the number of bytes written, and whether it
went through to the end. -/
def writeSectors (disk : ByteMemory) (offset : ℕ) (source : List UInt8) : ByteMemory × ℕ × Bool :=
  if _h : source.length = 0 then (disk, 0, true)
  else
    let sector := d.absoluteSector offset
    let sectorOffset := offset % partitionSectorSize
    let chunk := chunkSize offset source.length
    let isPartial := sectorOffset ≠ 0 ∨ chunk < partitionSectorSize
    if 0xFFFFFFFF < sector ∨ (isPartial ∧ f.readFails sector) ∨ f.writeFails sector then
      (disk, 0, false)
    else
      let buffer := if isPartial then d.sectorBytes disk offset
        else List.replicate partitionSectorSize 0
      let written := buffer.take sectorOffset ++ source.take chunk ++
        buffer.drop (sectorOffset + chunk)
      let rest := writeSectors (disk.storeBytes (partitionSectorSize * sector) written)
        (offset + chunk) (source.drop chunk)
      (rest.1, chunk + rest.2.1, rest.2.2)
termination_by source.length
decreasing_by
  rw [List.length_drop]
  exact Nat.sub_lt (Nat.pos_of_ne_zero _h) (chunkSize_pos _h)

/-- What a write returns, with the disk and the offset of the file. -/
structure WriteOutcome where
  result : ℤ
  disk : ByteMemory
  offset : ℕ

/-- `PartitionWriteFileOperation`, with the bytes that are passed. -/
def writeFileOperation (offset : ℕ) (source : List UInt8) : WriteOutcome :=
  if d.deviceSizeBytes ≤ offset then ⟨0, disk, offset⟩
  else
    let r := d.writeSectors f disk offset (source.take (d.deviceSizeBytes - offset))
    if r.2.2 then ⟨r.2.1, r.1, u64 (offset + r.2.1)⟩
    else if r.2.1 = 0 then ⟨-5, r.1, offset⟩
    else ⟨r.2.1, r.1, offset⟩

/-! ### What the operations are for -/

/-- The size of the partition. -/
def size : ℕ := d.sectorCount * partitionSectorSize

/-- The place of an offset on the disk. -/
def position (offset : ℕ) : ℕ := d.startLBA * partitionSectorSize + offset

/-- The sector of an offset can be read. -/
def Reads (offset : ℕ) : Prop :=
  d.startLBA + offset / partitionSectorSize ≤ 0xFFFFFFFF ∧
    f.readFails (d.startLBA + offset / partitionSectorSize) = false

/-- The sector of an offset can be written, as a part of a range. -/
def Writes (start stop offset : ℕ) : Prop :=
  d.startLBA + offset / partitionSectorSize ≤ 0xFFFFFFFF ∧
    f.writeFails (d.startLBA + offset / partitionSectorSize) = false ∧
      (offset / partitionSectorSize * partitionSectorSize < start ∨
          stop < (offset / partitionSectorSize + 1) * partitionSectorSize →
        f.readFails (d.startLBA + offset / partitionSectorSize) = false)

/-- A read returns the bytes of the partition, all of them when no sector fails, and advances the
offset by what it returns. -/
structure ReadExact (offset count : ℕ) : Prop where
  data : ∀ n : ℕ, (d.readFileOperation f disk offset count).result = n →
    n ≤ d.size - offset ∧
      (d.readFileOperation f disk offset count).bytes = disk.loadBytes (d.position offset) n
  full : (∀ a, offset ≤ a → a < offset + min count (d.size - offset) → d.Reads f a) →
    (d.readFileOperation f disk offset count).result = (min count (d.size - offset) : ℕ)
  advance : ∀ n : ℕ, 0 < n → (d.readFileOperation f disk offset count).result = n →
    (d.readFileOperation f disk offset count).offset = offset + n

/-- A write changes the bytes that it reports, all of them when no sector fails, and advances the
offset by what it reports. -/
structure WriteExact (offset : ℕ) (source : List UInt8) : Prop where
  data : (d.writeFileOperation f disk offset source).result.toNat ≤ d.size - offset ∧
    (d.writeFileOperation f disk offset source).disk = disk.storeBytes (d.position offset)
      (source.take (d.writeFileOperation f disk offset source).result.toNat)
  full : (∀ a, offset ≤ a → a < offset + min source.length (d.size - offset) →
      d.Writes f offset (offset + min source.length (d.size - offset)) a) →
    (d.writeFileOperation f disk offset source).result = (min source.length (d.size - offset) : ℕ)
  advance : ∀ n : ℕ, 0 < n → (d.writeFileOperation f disk offset source).result = n →
    (d.writeFileOperation f disk offset source).offset = offset + n

end Operations

variable {d : PartitionBlockDevice} {f : SectorFailures} {disk : ByteMemory}
  {offset remaining count start stop a : ℕ} {source : List UInt8}

/-! ### Sectors -/

theorem absoluteSector_eq (h : offset < d.size) :
    d.absoluteSector offset = d.startLBA + offset / partitionSectorSize := by
  have hend := d.end_le
  refine u64_of_lt ?_
  simp only [size, partitionSectorSize] at *
  omega

/-- A chunk ends in the sector in which it starts. -/
theorem chunkSize_le : offset % partitionSectorSize + chunkSize offset remaining ≤
    partitionSectorSize := by
  simp only [chunkSize, partitionSectorSize]
  omega

theorem chunkSize_le_remaining : chunkSize offset remaining ≤ remaining := Nat.min_le_right ..

/-- After a chunk the transfer is done, or goes on with a sector. -/
theorem chunkSize_eq_or : chunkSize offset remaining = remaining ∨
    (offset + chunkSize offset remaining) % partitionSectorSize = 0 := by
  simp only [chunkSize, partitionSectorSize]
  omega

theorem div_eq_of_lt_chunkSize (hle : offset ≤ a) (hlt : a < offset + chunkSize offset remaining) :
    a / partitionSectorSize = offset / partitionSectorSize := by
  simp only [chunkSize, partitionSectorSize] at *
  omega

theorem Reads.congr (h : d.Reads f offset)
    (hsector : a / partitionSectorSize = offset / partitionSectorSize) : d.Reads f a := by
  rwa [Reads, hsector]

theorem Writes.congr (h : d.Writes f start stop offset)
    (hsector : a / partitionSectorSize = offset / partitionSectorSize) :
    d.Writes f start stop a := by
  rwa [Writes, hsector]

theorem not_reads_iff (h : offset < d.size) : ¬d.Reads f offset ↔
    0xFFFFFFFF < d.absoluteSector offset ∨ f.readFails (d.absoluteSector offset) = true := by
  rw [absoluteSector_eq h, Reads, not_and_or, Nat.not_le, Bool.not_eq_false]

/-- The bytes of a chunk in its sector. -/
theorem take_drop_sectorBytes (h : offset < d.size) :
    ((d.sectorBytes disk offset).drop (offset % partitionSectorSize)).take
      (chunkSize offset remaining) =
        disk.loadBytes (d.position offset) (chunkSize offset remaining) := by
  have hchunk : chunkSize offset remaining ≤
      partitionSectorSize - offset % partitionSectorSize := Nat.min_le_left ..
  rw [sectorBytes, drop_loadBytes, take_loadBytes hchunk, absoluteSector_eq h]
  congr 1
  simp only [position, partitionSectorSize]
  omega

/-! ### Reads -/

variable (d f disk) in
/-- A read gets the bytes before the first sector that fails. -/
theorem readSectors_spec (h : offset + remaining ≤ d.size) :
    ∃ n ≤ remaining, d.readSectors f disk offset remaining =
        (disk.loadBytes (d.position offset) n, decide (n = remaining)) ∧
      (∀ a, offset ≤ a → a < offset + n → d.Reads f a) ∧
        (n < remaining → ¬d.Reads f (offset + n)) := by
  induction remaining using Nat.strong_induction_on generalizing offset with
  | _ remaining ih =>
    rw [readSectors]
    by_cases hzero : remaining = 0
    · subst hzero
      exact ⟨0, le_rfl, rfl, fun a hle hlt => absurd hle (Nat.not_le_of_lt hlt),
        fun hlt => absurd hlt (Nat.lt_irrefl 0)⟩
    have hin : offset < d.size := by omega
    rw [dif_neg hzero]
    by_cases hfails : ¬d.Reads f offset
    · rw [if_pos ((not_reads_iff hin).mp hfails)]
      refine ⟨0, Nat.zero_le _, ?_, fun a hle hlt => absurd hle (Nat.not_le_of_lt hlt),
        fun _ => hfails⟩
      rw [decide_eq_false (Ne.symm hzero)]
      rfl
    have hpos : 0 < chunkSize offset remaining := chunkSize_pos hzero
    have hle : chunkSize offset remaining ≤ remaining := chunkSize_le_remaining
    have hnext : offset + chunkSize offset remaining + (remaining - chunkSize offset remaining) ≤
        d.size := by omega
    obtain ⟨n, hn, hrest, hreads, hstop⟩ :=
      ih _ (Nat.sub_lt (Nat.pos_of_ne_zero hzero) hpos) hnext
    rw [if_neg fun hbad => hfails ((not_reads_iff hin).mpr hbad)]
    refine ⟨chunkSize offset remaining + n, by omega, ?_, fun a hle' hlt => ?_, fun hlt => ?_⟩
    · dsimp only
      rw [hrest, take_drop_sectorBytes hin, loadBytes_add, position, position,
        Nat.add_assoc, decide_eq_decide.mpr (by omega : n = remaining - chunkSize offset remaining ↔
          chunkSize offset remaining + n = remaining)]
    · by_cases hfirst : a < offset + chunkSize offset remaining
      · exact (not_not.mp hfails).congr (div_eq_of_lt_chunkSize hle' hfirst)
      · exact hreads a (Nat.le_of_not_lt hfirst) (by omega)
    · rw [← Nat.add_assoc]
      exact hstop (by omega)

/-! ### Writes -/

/-- A chunk covers its sector in part when the sector reaches out of the range. -/
theorem isPartial_iff (hstart : start ≤ offset)
    (hboundary : offset = start ∨ offset % partitionSectorSize = 0) :
    offset % partitionSectorSize ≠ 0 ∨ chunkSize offset remaining < partitionSectorSize ↔
      offset / partitionSectorSize * partitionSectorSize < start ∨
        offset + remaining < (offset / partitionSectorSize + 1) * partitionSectorSize := by
  simp only [chunkSize, partitionSectorSize] at *
  omega

theorem not_writes_iff (h : offset < d.size) (hstart : start ≤ offset)
    (hboundary : offset = start ∨ offset % partitionSectorSize = 0) :
    ¬d.Writes f start (offset + remaining) offset ↔
      0xFFFFFFFF < d.absoluteSector offset ∨
        ((offset % partitionSectorSize ≠ 0 ∨ chunkSize offset remaining < partitionSectorSize) ∧
          f.readFails (d.absoluteSector offset) = true) ∨
        f.writeFails (d.absoluteSector offset) = true := by
  rw [absoluteSector_eq h, Writes, isPartial_iff hstart hboundary, not_and_or, not_and_or,
    Nat.not_le, Bool.not_eq_false, Classical.not_imp, Bool.not_eq_false, or_comm (b := _ ∧ _)]

/-- The buffer that is written back changes a chunk of its sector. -/
theorem storeBytes_sector {chunk buffer : List UInt8} (h : offset < d.size)
    (hlength : chunk.length = chunkSize offset remaining)
    (hbuffer : buffer = if offset % partitionSectorSize ≠ 0 ∨
      chunkSize offset remaining < partitionSectorSize then d.sectorBytes disk offset
      else List.replicate partitionSectorSize 0) :
    disk.storeBytes (partitionSectorSize * d.absoluteSector offset)
      (buffer.take (offset % partitionSectorSize) ++ chunk ++
        buffer.drop (offset % partitionSectorSize + chunkSize offset remaining)) =
      disk.storeBytes (d.position offset) chunk := by
  have hposition : d.position offset = partitionSectorSize * d.absoluteSector offset +
      offset % partitionSectorSize := by
    rw [absoluteSector_eq h]
    simp only [position, partitionSectorSize]
    omega
  have hchunk := @chunkSize_le offset remaining
  rw [hposition]
  split_ifs at hbuffer with hpartial
  · have hsector := Nat.mod_lt offset (show 0 < partitionSectorSize by decide)
    rw [hbuffer, sectorBytes, take_loadBytes hsector.le, drop_loadBytes,
      storeBytes_append, storeBytes_append, storeBytes_loadBytes,
      length_loadBytes, List.length_append, length_loadBytes, hlength]
    refine Eq.trans (congrArg _ (loadBytes_congr fun b hb _ => ?_))
      storeBytes_loadBytes
    exact (storeBytes_apply_of_notMem (.inr (by omega))).symm
  · obtain ⟨hsector, hwhole⟩ := not_or.mp hpartial
    have hfull : chunkSize offset remaining = partitionSectorSize := by omega
    rw [not_not.mp hsector, hfull, List.take_zero, List.nil_append, Nat.zero_add, hbuffer,
      List.drop_of_length_le (by rw [List.length_replicate]), List.append_nil, Nat.add_zero]

@[simp] theorem writeSectors_nil : d.writeSectors f disk offset [] = (disk, 0, true) := by
  rw [writeSectors, dif_pos List.length_nil]

variable (d f) in
/-- A write changes the bytes before the first sector that fails. -/
theorem writeSectors_spec (h : offset + source.length ≤ d.size) (hstart : start ≤ offset)
    (hboundary : offset = start ∨ offset % partitionSectorSize = 0) :
    ∃ n ≤ source.length, d.writeSectors f disk offset source =
        (disk.storeBytes (d.position offset) (source.take n), n, decide (n = source.length)) ∧
      (∀ a, offset ≤ a → a < offset + n → d.Writes f start (offset + source.length) a) ∧
        (n < source.length → ¬d.Writes f start (offset + source.length) (offset + n)) := by
  induction hremaining : source.length using Nat.strong_induction_on
    generalizing disk offset source with
  | _ remaining ih =>
    subst hremaining
    rw [writeSectors]
    by_cases hzero : source.length = 0
    · rw [dif_pos hzero, List.length_eq_zero_iff.mp hzero]
      exact ⟨0, le_rfl, rfl, fun a hle hlt => absurd hle (Nat.not_le_of_lt hlt),
        fun hlt => absurd hlt (Nat.lt_irrefl 0)⟩
    have hin : offset < d.size := by omega
    rw [dif_neg hzero]
    by_cases hfails : ¬d.Writes f start (offset + source.length) offset
    · rw [if_pos ((not_writes_iff hin hstart hboundary).mp hfails)]
      refine ⟨0, Nat.zero_le _, ?_, fun a hle hlt => absurd hle (Nat.not_le_of_lt hlt),
        fun _ => hfails⟩
      rw [decide_eq_false (Ne.symm hzero)]
      rfl
    have hpos : 0 < chunkSize offset source.length := chunkSize_pos hzero
    have hle : chunkSize offset source.length ≤ source.length := chunkSize_le_remaining
    have hlength : (source.take (chunkSize offset source.length)).length =
        chunkSize offset source.length := by rw [List.length_take, Nat.min_eq_left hle]
    have hdrop : (source.drop (chunkSize offset source.length)).length =
        source.length - chunkSize offset source.length := List.length_drop ..
    rw [if_neg fun hbad => hfails ((not_writes_iff hin hstart hboundary).mpr hbad)]
    dsimp only
    rw [storeBytes_sector hin hlength rfl]
    rcases @chunkSize_eq_or offset source.length with hlast | hnext
    · refine ⟨source.length, le_rfl, ?_, fun a hle' hlt => ?_, fun hlt => absurd hlt
        (Nat.lt_irrefl _)⟩
      · rw [hlast, List.drop_length, writeSectors_nil, decide_eq_true rfl]
        rfl
      · exact (not_not.mp hfails).congr (div_eq_of_lt_chunkSize hle' (hlast ▸ hlt))
    · obtain ⟨written, hwritten⟩ : ∃ written, written =
          disk.storeBytes (d.position offset) (source.take (chunkSize offset source.length)) :=
        ⟨_, rfl⟩
      have hrestFits : offset + chunkSize offset source.length +
          (source.drop (chunkSize offset source.length)).length ≤ d.size := by omega
      obtain ⟨n, hn, hrest, hwrites, hstop⟩ := @ih
        (source.drop (chunkSize offset source.length)).length (by omega) written _ _ hrestFits
        (by omega) (.inr hnext) rfl
      rw [hwritten] at hrest
      have hend : offset + chunkSize offset source.length +
          (source.drop (chunkSize offset source.length)).length = offset + source.length := by
        omega
      rw [hend] at hwrites hstop
      refine ⟨chunkSize offset source.length + n, by omega, ?_, fun a hle' hlt => ?_,
        fun hlt => ?_⟩
      · rw [hrest, List.take_add, storeBytes_append, hlength, position, position,
          Nat.add_assoc, decide_eq_decide.mpr (by omega :
            n = (source.drop (chunkSize offset source.length)).length ↔
              chunkSize offset source.length + n = source.length)]
      · by_cases hfirst : a < offset + chunkSize offset source.length
        · exact (not_not.mp hfails).congr (div_eq_of_lt_chunkSize hle' hfirst)
        · exact hwrites a (Nat.le_of_not_lt hfirst) (by omega)
      · rw [← Nat.add_assoc]
        exact hstop (by omega)

/-! ### Calls -/

variable (d) in
/-- `BytesToRead`, `BytesToWrite`. -/
def attempted (offset length : ℕ) : ℕ := min length (d.deviceSizeBytes - offset)

theorem deviceSizeBytes_le : d.deviceSizeBytes ≤ d.size := Nat.mod_le ..

theorem deviceSizeBytes_lt : d.deviceSizeBytes < 2 ^ 64 := Nat.mod_lt _ (by decide)

theorem attempted_le : d.attempted offset count ≤ min count (d.size - offset) :=
  min_le_min_left _ (Nat.sub_le_sub_right deviceSizeBytes_le _)

/-- Unless the size of the partition does not fit into 64 bits, all that is left is attempted. The
size that is used then ends with a sector. -/
theorem attempted_eq_or : d.attempted offset count = min count (d.size - offset) ∨
    (offset + d.attempted offset count) % partitionSectorSize = 0 ∨
      d.attempted offset count = 0 := by
  have hmod : d.deviceSizeBytes % partitionSectorSize = 0 := by
    simp only [deviceSizeBytes, u64, partitionSectorSize]
    omega
  have hle := d.deviceSizeBytes_le
  simp only [attempted, partitionSectorSize] at *
  omega

/-- What is returned for a part of what was attempted. -/
def outcomeResult (n attempted : ℕ) : ℤ := if n = 0 ∧ attempted ≠ 0 then -5 else n

theorem eq_of_outcomeResult {n m attempted : ℕ} (h : outcomeResult n attempted = m) : n = m := by
  rw [outcomeResult] at h
  split_ifs at h
  exact Int.natCast_inj.mp h

theorem toNat_outcomeResult {n attempted : ℕ} : (outcomeResult n attempted).toNat = n := by
  rw [outcomeResult]
  split_ifs with h
  · exact h.1.symm
  · exact Int.toNat_natCast n

variable (d f disk offset count) in
theorem readFileOperation_spec : ∃ n ≤ d.attempted offset count,
    d.readFileOperation f disk offset count =
        ⟨outcomeResult n (d.attempted offset count), disk.loadBytes (d.position offset) n,
          if n = d.attempted offset count then offset + n else offset⟩ ∧
      (∀ a, offset ≤ a → a < offset + n → d.Reads f a) ∧
        (n < d.attempted offset count → ¬d.Reads f (offset + n)) := by
  rw [readFileOperation]
  by_cases hend : d.deviceSizeBytes ≤ offset
  · have hzero : d.attempted offset count = 0 := by
      rw [attempted]
      omega
    rw [if_pos hend, hzero]
    exact ⟨0, le_rfl, rfl, fun a hle hlt => absurd hle (Nat.not_le_of_lt hlt),
      fun hlt => absurd hlt (Nat.lt_irrefl 0)⟩
  have hsize := d.deviceSizeBytes_le
  have hlimit := d.deviceSizeBytes_lt
  have hwhole : d.attempted offset count ≤ d.deviceSizeBytes - offset := Nat.min_le_right ..
  obtain ⟨n, hn, hread, hreads, hstop⟩ := d.readSectors_spec f disk
    (show offset + d.attempted offset count ≤ d.size by omega)
  rw [if_neg hend]
  refine ⟨n, hn, ?_, hreads, hstop⟩
  rw [attempted] at hread hn hwhole ⊢
  rw [hread, outcomeResult]
  dsimp only
  rw [length_loadBytes]
  by_cases hall : n = min count (d.deviceSizeBytes - offset)
  · rw [decide_eq_true hall, if_pos rfl, if_pos hall, if_neg (by omega), u64_of_lt (by omega)]
  · rw [decide_eq_false hall, if_neg (by decide), if_neg hall]
    by_cases hzero : n = 0
    · subst hzero
      rw [if_pos rfl, if_pos ⟨rfl, Ne.symm hall⟩]
      rfl
    · rw [if_neg hzero, if_neg fun h => hzero h.1]

variable (d f disk offset source) in
theorem writeFileOperation_spec : ∃ n ≤ d.attempted offset source.length,
    d.writeFileOperation f disk offset source =
        ⟨outcomeResult n (d.attempted offset source.length),
          disk.storeBytes (d.position offset) (source.take n),
          if n = d.attempted offset source.length then offset + n else offset⟩ ∧
      (∀ a, offset ≤ a → a < offset + n →
        d.Writes f offset (offset + d.attempted offset source.length) a) ∧
        (n < d.attempted offset source.length →
          ¬d.Writes f offset (offset + d.attempted offset source.length) (offset + n)) := by
  rw [writeFileOperation]
  by_cases hend : d.deviceSizeBytes ≤ offset
  · have hzero : d.attempted offset source.length = 0 := by
      rw [attempted]
      omega
    rw [if_pos hend, hzero]
    exact ⟨0, le_rfl, rfl, fun a hle hlt => absurd hle (Nat.not_le_of_lt hlt),
      fun hlt => absurd hlt (Nat.lt_irrefl 0)⟩
  have hsize := d.deviceSizeBytes_le
  have hlimit := d.deviceSizeBytes_lt
  have hlength : (source.take (d.deviceSizeBytes - offset)).length =
      d.attempted offset source.length := by
    rw [attempted, List.length_take, Nat.min_comm]
  have hwhole : d.attempted offset source.length ≤ d.deviceSizeBytes - offset := Nat.min_le_right ..
  obtain ⟨n, hn, hwrite, hwrites, hstop⟩ := @writeSectors_spec d f disk offset
    offset (source.take (d.deviceSizeBytes - offset)) (by omega) le_rfl (.inl rfl)
  rw [hlength] at hn hwrite hwrites hstop
  rw [if_neg hend]
  refine ⟨n, hn, ?_, hwrites, hstop⟩
  rw [hwrite, outcomeResult, List.take_take, Nat.min_eq_left (hn.trans hwhole)]
  dsimp only
  by_cases hall : n = d.attempted offset source.length
  · rw [decide_eq_true hall, if_pos rfl, if_pos hall, if_neg (by omega), u64_of_lt (by omega)]
  · rw [decide_eq_false hall, if_neg (by decide), if_neg hall]
    by_cases hzero : n = 0
    · subst hzero
      rw [if_pos rfl, if_pos ⟨rfl, Ne.symm hall⟩]
    · rw [if_neg hzero, if_neg fun h => hzero h.1]

variable (d f) in
/-- No sector fails but the first, and when none fails at all the size of the partition fits into 64
bits as far as the transfer goes. -/
structure ReadMeets (offset count : ℕ) : Prop where
  whole : d.Reads f offset → ∀ a, offset ≤ a → a < offset + d.attempted offset count → d.Reads f a
  sized : (∀ a, offset ≤ a → a < offset + min count (d.size - offset) → d.Reads f a) →
    d.attempted offset count = min count (d.size - offset)

variable (d f) in
/-- `ReadMeets`, for a write. -/
structure WriteMeets (offset length : ℕ) : Prop where
  whole : d.Writes f offset (offset + d.attempted offset length) offset →
    ∀ a, offset ≤ a → a < offset + d.attempted offset length →
      d.Writes f offset (offset + d.attempted offset length) a
  sized : (∀ a, offset ≤ a → a < offset + min length (d.size - offset) →
      d.Writes f offset (offset + min length (d.size - offset)) a) →
    d.attempted offset length = min length (d.size - offset)

section Transfer

variable {P P' : ℕ → Prop} {n attempted total : ℕ}

/-- A transfer that stops at the first sector that fails is complete and advances the offset when it
does not stop after it has begun. -/
theorem transfer_iff (hn : n ≤ attempted) (hattempted : attempted ≤ total)
    (hbefore : ∀ a, offset ≤ a → a < offset + n → P a) (hstop : n < attempted → ¬P (offset + n))
    (hfirst : 0 < attempted → P' offset → P offset) :
    ((∀ a, offset ≤ a → a < offset + total → P' a) → outcomeResult n attempted = (total : ℕ)) ∧
      (∀ m : ℕ, 0 < m → outcomeResult n attempted = m →
        (if n = attempted then offset + n else offset) = offset + m) ↔
    (P offset → ∀ a, offset ≤ a → a < offset + attempted → P a) ∧
      ((∀ a, offset ≤ a → a < offset + total → P' a) → attempted = total) := by
  constructor
  · rintro ⟨hfull, hadvance⟩
    refine ⟨fun hP a hle hlt => ?_, fun hall => ?_⟩
    · have hdone : n = attempted := by
        by_contra hne
        have hlt : n < attempted := by omega
        have hpos : n ≠ 0 := fun hzero => hstop hlt (by rwa [hzero])
        have h := hadvance n (Nat.pos_of_ne_zero hpos) (if_neg fun h => hpos h.1)
        rw [if_neg hne] at h
        omega
      exact hbefore a hle (hdone ▸ hlt)
    · have h := eq_of_outcomeResult (hfull hall)
      omega
  · rintro ⟨hwhole, hsized⟩
    have hdone : 0 < attempted → P offset → n = attempted := fun _ hP => by
      by_contra hne
      have hlt : n < attempted := by omega
      exact hstop hlt (hwhole hP (offset + n) (Nat.le_add_right ..) (by omega))
    refine ⟨fun hall => ?_, fun m hm hresult => ?_⟩
    · have htotal := hsized hall
      have h : n = attempted := by
        by_cases hzero : 0 < attempted
        · exact hdone hzero (hfirst hzero (hall offset le_rfl (by omega)))
        · omega
      rw [outcomeResult, if_neg (by omega), h, htotal]
    · have h := eq_of_outcomeResult hresult
      rw [if_pos (hdone (by omega) (hbefore offset le_rfl (by omega))), h]

end Transfer

/-- Whether a sector is written in part depends on the end of the range when this is in it. -/
theorem Writes.of_stop_le {stop' : ℕ} (h : d.Writes f start stop' a)
    (hstop : stop' = stop ∨ (a < stop ∧ stop ≤ stop' ∧ stop % partitionSectorSize = 0)) :
    d.Writes f start stop a := by
  refine ⟨h.1, h.2.1, fun hpartial => h.2.2 ?_⟩
  simp only [partitionSectorSize] at *
  omega

variable (d f disk offset count) in
theorem readExact_iff : d.ReadExact f disk offset count ↔ d.ReadMeets f offset count := by
  obtain ⟨n, hn, hread, hbefore, hstop⟩ := d.readFileOperation_spec f disk offset count
  have hiff := transfer_iff hn attempted_le hbefore hstop fun _ => id
  constructor
  · rintro ⟨-, hfull, hadvance⟩
    rw [hread] at hfull hadvance
    exact ⟨(hiff.mp ⟨hfull, hadvance⟩).1, (hiff.mp ⟨hfull, hadvance⟩).2⟩
  · rintro ⟨hwhole, hsized⟩
    obtain ⟨hfull, hadvance⟩ := hiff.mpr ⟨hwhole, hsized⟩
    refine ⟨fun m hresult => ?_, by rwa [hread], by rwa [hread]⟩
    rw [hread] at hresult ⊢
    have hm := eq_of_outcomeResult hresult
    have hle : n ≤ d.size - offset := (hn.trans attempted_le).trans (Nat.min_le_right ..)
    exact ⟨hm ▸ hle, hm ▸ rfl⟩

variable (d f disk offset source) in
theorem writeExact_iff :
    d.WriteExact f disk offset source ↔ d.WriteMeets f offset source.length := by
  obtain ⟨n, hn, hwrite, hbefore, hstop⟩ := d.writeFileOperation_spec f disk offset source
  have hextends : 0 < d.attempted offset source.length →
      d.Writes f offset (offset + min source.length (d.size - offset)) offset →
      d.Writes f offset (offset + d.attempted offset source.length) offset := fun hpos h => by
    have hle := @attempted_le d offset source.length
    refine h.of_stop_le ?_
    rcases @attempted_eq_or d offset source.length with heq | hmod | hzero
    · exact .inl (by rw [heq])
    · exact .inr ⟨by omega, by omega, hmod⟩
    · omega
  have hiff := transfer_iff hn attempted_le hbefore hstop hextends
  constructor
  · rintro ⟨-, hfull, hadvance⟩
    rw [hwrite] at hfull hadvance
    exact ⟨(hiff.mp ⟨hfull, hadvance⟩).1, (hiff.mp ⟨hfull, hadvance⟩).2⟩
  · rintro ⟨hwhole, hsized⟩
    obtain ⟨hfull, hadvance⟩ := hiff.mpr ⟨hwhole, hsized⟩
    refine ⟨?_, by rwa [hwrite], by rwa [hwrite]⟩
    have hle : n ≤ d.size - offset := (hn.trans attempted_le).trans (Nat.min_le_right ..)
    rw [hwrite]
    dsimp only
    rw [toNat_outcomeResult]
    exact ⟨hle, rfl⟩

/-! ### Sequences of calls -/

variable (d) in
/-- Reads, one after the other: all bytes that they return, and the offset of the file at the
end. -/
def readAll (disk : ByteMemory) : ℕ → List (SectorFailures × ℕ) → List UInt8 × ℕ
  | offset, [] => ([], offset)
  | offset, call :: calls =>
    let r := d.readFileOperation call.1 disk offset call.2
    let rest := readAll disk r.offset calls
    (r.bytes ++ rest.1, rest.2)

variable (d) in
/-- Each of the reads meets the condition, at the offset at which it starts. -/
def ReadsMeet (disk : ByteMemory) : ℕ → List (SectorFailures × ℕ) → Prop
  | _, [] => True
  | offset, call :: calls =>
    d.ReadMeets call.1 offset call.2 ∧
      ReadsMeet disk (d.readFileOperation call.1 disk offset call.2).offset calls

variable (d) in
/-- Writes, one after the other: the disk, all bytes that they report as written, and the offset of
the file at the end. -/
def writeAll : ByteMemory → ℕ → List (SectorFailures × List UInt8) →
    ByteMemory × List UInt8 × ℕ
  | disk, offset, [] => (disk, [], offset)
  | disk, offset, call :: calls =>
    let r := d.writeFileOperation call.1 disk offset call.2
    let rest := writeAll r.disk r.offset calls
    (rest.1, call.2.take r.result.toNat ++ rest.2.1, rest.2.2)

variable (d) in
/-- Each of the writes meets the condition, at the offset at which it starts. -/
def WritesMeet : ByteMemory → ℕ → List (SectorFailures × List UInt8) → Prop
  | _, _, [] => True
  | disk, offset, call :: calls =>
    d.WriteMeets call.1 offset call.2.length ∧
      WritesMeet (d.writeFileOperation call.1 disk offset call.2).disk
        (d.writeFileOperation call.1 disk offset call.2).offset calls

/-- A read that meets the condition goes on where the one before it ended. -/
theorem readFileOperation_of_meets (h : d.ReadMeets f offset count) :
    ∃ n, (d.readFileOperation f disk offset count).bytes = disk.loadBytes (d.position offset) n ∧
      (d.readFileOperation f disk offset count).offset = offset + n := by
  obtain ⟨n, hn, hread, hbefore, hstop⟩ := d.readFileOperation_spec f disk offset count
  rw [hread]
  refine ⟨n, rfl, ?_⟩
  by_cases hzero : n = 0
  · subst hzero
    exact ite_self _
  · have hfirst := hbefore offset le_rfl (by omega)
    refine if_pos (by_contra fun hne => ?_)
    exact hstop (by omega) (h.whole hfirst _ (Nat.le_add_right ..) (by omega))

/-- A write that meets the condition goes on where the one before it ended. -/
theorem writeFileOperation_of_meets (h : d.WriteMeets f offset source.length) :
    ∃ n ≤ source.length, (d.writeFileOperation f disk offset source).result.toNat = n ∧
      (d.writeFileOperation f disk offset source).disk =
          disk.storeBytes (d.position offset) (source.take n) ∧
        (d.writeFileOperation f disk offset source).offset = offset + n := by
  obtain ⟨n, hn, hwrite, hbefore, hstop⟩ := d.writeFileOperation_spec f disk offset source
  rw [hwrite]
  refine ⟨n, hn.trans (Nat.min_le_left ..), toNat_outcomeResult, rfl, ?_⟩
  by_cases hzero : n = 0
  · subst hzero
    exact ite_self _
  · have hfirst := hbefore offset le_rfl (by omega)
    refine if_pos (by_contra fun hne => ?_)
    exact hstop (by omega) (h.whole hfirst _ (Nat.le_add_right ..) (by omega))

/-- Reads that meet the condition return consecutive bytes. -/
theorem readAll_consecutive {calls : List (SectorFailures × ℕ)} (h : d.ReadsMeet disk offset calls) :
    ∃ n, d.readAll disk offset calls = (disk.loadBytes (d.position offset) n, offset + n) := by
  induction calls generalizing offset with
  | nil => exact ⟨0, rfl⟩
  | cons call calls ih =>
    obtain ⟨n, hbytes, hoffset⟩ := @readFileOperation_of_meets _ _ disk _ _ h.1
    obtain ⟨m, hrest⟩ := ih h.2
    refine ⟨n + m, ?_⟩
    rw [readAll, hrest, hbytes, hoffset, loadBytes_add, position, position,
      Nat.add_assoc, Nat.add_assoc]

/-- Writes that meet the condition change consecutive bytes. -/
theorem writeAll_consecutive {calls : List (SectorFailures × List UInt8)}
    (h : d.WritesMeet disk offset calls) : ∃ written, d.writeAll disk offset calls =
      (disk.storeBytes (d.position offset) written, written, offset + written.length) := by
  induction calls generalizing disk offset with
  | nil => exact ⟨[], rfl⟩
  | cons call calls ih =>
    obtain ⟨n, hn, hresult, hdisk, hoffset⟩ := @writeFileOperation_of_meets _ _ disk _ _ h.1
    obtain ⟨written, hrest⟩ := ih h.2
    refine ⟨call.2.take n ++ written, ?_⟩
    have hlength : (call.2.take n).length = n := by rw [List.length_take, Nat.min_eq_left hn]
    rw [writeAll, hrest, hresult, hdisk, hoffset, storeBytes_append,
      List.length_append, hlength, position, position, Nat.add_assoc, Nat.add_assoc]

/-- Reads and writes are exact, call by call, just under the condition; sequences of calls that all
meet it transfer consecutive bytes. -/
theorem partitionAccess_iff (d : PartitionBlockDevice) (disk : ByteMemory) (offset : ℕ) :
    (∀ f count, d.ReadExact f disk offset count ↔ d.ReadMeets f offset count) ∧
    (∀ f source, d.WriteExact f disk offset source ↔ d.WriteMeets f offset source.length) ∧
    (∀ calls, d.ReadsMeet disk offset calls →
      ∃ n, d.readAll disk offset calls = (disk.loadBytes (d.position offset) n, offset + n)) ∧
    ∀ calls, d.WritesMeet disk offset calls → ∃ written, d.writeAll disk offset calls =
      (disk.storeBytes (d.position offset) written, written, offset + written.length) :=
  ⟨fun f count => d.readExact_iff f disk offset count,
    fun f source => d.writeExact_iff f disk offset source,
    fun _ => readAll_consecutive, fun _ => writeAll_consecutive⟩

/-! ### A sector that fails after another one -/

/-- A partition with two sectors. -/
def twoSectors : PartitionBlockDevice where
  startLBA := 1
  sectorCount := 2
  end_le := by decide

/-- The second sector of `twoSectors` cannot be read. -/
def secondSectorFails : SectorFailures where
  readFails := (· == 2)
  writeFails := fun _ => false

/-- The first sector is returned, and the next read starts with it again. -/
theorem not_readExact_twoSectors :
    ¬twoSectors.ReadExact secondSectorFails (fun _ => 0) 0 1024 := by
  intro h
  have hread : twoSectors.readFileOperation secondSectorFails (fun _ => 0) 0 1024 =
      ⟨512, List.replicate 512 0, 0⟩ := by
    decide +kernel
  have hadvance := h.advance 512 (by decide) (by rw [hread]; rfl)
  rw [hread] at hadvance
  exact absurd hadvance (by decide)

end PartitionBlockDevice

end TwistedOS
