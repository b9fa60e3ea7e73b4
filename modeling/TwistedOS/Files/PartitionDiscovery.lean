import TwistedOS.Data.ByteMemory
import TwistedOS.KernelParameters

/-!
# Discovery of partitions

Two scans over the entries of a GUID partition table. `EnumeratePartitions` keeps the header in a
buffer of its own and reads a sector again only when the next entry is in another one.
`LocateRootFileSystemPartition` reads the sector of every entry into the buffer of the header, from
which it goes on to take the place and the size of the entries; the two agree as long as the sectors
of the table hold at the places of these fields what the header holds there.

A scan goes over at least 128 and at most 256 entries, whatever number the header gives.

## Main definitions

* `GptHeader`, `GptEntry`, `ScannedDisk`.
* `ScannedDisk.enumeratePartitions`, `ScannedDisk.locateRootFileSystemPartition`.
* `ScannedDisk.partitions`, `ScannedDisk.rootPartition`: what the scans are for.
* `ScannedDisk.KeepsHeader`.

## Main results

* `ScannedDisk.enumerateFrom_facts`, `ScannedDisk.locateFrom_facts`.
* `ScannedDisk.discovery_agrees`.
-/

namespace TwistedOS

/-! ### The table -/

/-- `GptHeader`, with the fields that the scans read. -/
structure GptHeader where
  signature : List UInt8
  partitionEntryLBA : ℕ
  numberOfPartitionEntries : ℕ
  sizeOfPartitionEntry : ℕ
  deriving DecidableEq, Repr

namespace GptHeader

/-- The header that a sector holds. -/
def ofSector (buffer : ByteMemory) : GptHeader where
  signature := (List.range 8).map buffer
  partitionEntryLBA := buffer.load 72 8
  numberOfPartitionEntries := buffer.load 80 4
  sizeOfPartitionEntry := buffer.load 84 4

variable (header : GptHeader)

/-- The checks of both scans, with `SignatureMatchesGpt`: the signature is "EFI PART". -/
def isAccepted : Bool :=
  decide (header.signature = [0x45, 0x46, 0x49, 0x20, 0x50, 0x41, 0x52, 0x54] ∧
    128 ≤ header.sizeOfPartitionEntry ∧ header.numberOfPartitionEntries ≠ 0)

/-- `EntryCount`. -/
def entryCount : ℕ :=
  if header.numberOfPartitionEntries < 128 then 128
  else if 256 < header.numberOfPartitionEntries then 256
  else header.numberOfPartitionEntries

/-- The sector of an entry and the place of the entry in it, unless the entry is skipped. -/
def entryPlace (index : ℕ) : Option (ℕ × ℕ) :=
  let entryByteOffset := index * header.sizeOfPartitionEntry
  let entryLBA := u64 (header.partitionEntryLBA + entryByteOffset / 512)
  let entryOffset := entryByteOffset % 512
  if 0xFFFFFFFF < entryLBA ∨ 512 < entryOffset + 128 then none else some (entryLBA, entryOffset)

end GptHeader

/-- `RootFileSystemPartitionInfo`. -/
structure RootFileSystemPartitionInfo where
  startLBA : ℕ
  sectorCount : ℕ
  partitionIndex : ℕ
  devicePath : List Char
  deriving DecidableEq, Repr

/-- `BuildPartitionDevicePath`, for a buffer of 16 bytes. -/
def buildPartitionDevicePath (partitionIndex : ℕ) : List Char :=
  let digits := Nat.toDigits 10 partitionIndex
  if 16 < 8 + digits.length + 1 then [] else "/dev/sda".toList ++ digits

/-- `GptPartitionEntryPrefix`, with the fields that the scans read. -/
structure GptEntry where
  typeGuid : List UInt8
  firstLBA : ℕ
  lastLBA : ℕ
  name : List ℕ
  deriving DecidableEq, Repr

namespace GptEntry

/-- The entry at a place in a sector. -/
def ofSector (buffer : ByteMemory) (offset : ℕ) : GptEntry where
  typeGuid := (List.range 16).map fun i => buffer (offset + i)
  firstLBA := buffer.load (offset + 32) 8
  lastLBA := buffer.load (offset + 40) 8
  name := (List.range 36).map fun i => buffer.load (offset + 56 + 2 * i) 2

variable (entry : GptEntry)

/-- `IsZeroGuid`. -/
def isZeroGuid : Bool := entry.typeGuid.all (· = 0)

/-- The entry is neither empty nor reversed. -/
def isUsed : Bool := !entry.isZeroGuid && decide (entry.firstLBA ≤ entry.lastLBA)

/-- `GuidMatchesLinuxFilesystemType`. -/
def isLinuxType : Bool :=
  decide (entry.typeGuid = [0xAF, 0x3D, 0xC6, 0x0F, 0x83, 0x84, 0x72, 0x47, 0x8E, 0x79, 0x3D, 0x69,
    0xD8, 0x47, 0x7D, 0xE4])

/-- `PartitionEntryNameMatchesRootFs`: the name is "ROOTFS". -/
def isRootName : Bool := decide (entry.name.take 7 = [0x52, 0x4F, 0x4F, 0x54, 0x46, 0x53, 0])

/-- The partition of an entry, with its number. -/
def info (partitionIndex : ℕ) : RootFileSystemPartitionInfo where
  startLBA := entry.firstLBA
  sectorCount := u64 (entry.lastLBA - entry.firstLBA + 1)
  partitionIndex := partitionIndex
  devicePath := buildPartitionDevicePath partitionIndex

end GptEntry

/-- A disk and its controller: a block is `none` where it cannot be read. -/
structure ScannedDisk where
  controllerReady : Bool := true
  readBlock : ℕ → Option ByteMemory

namespace ScannedDisk

variable (disk : ScannedDisk)

/-- `PartitionContainsExt2`. -/
def partitionContainsExt2 (startLBA : ℕ) : Bool :=
  if 0xFFFFFFFF < startLBA ∨ 0xFFFFFFFF < startLBA + 2 then false
  else
    match disk.readBlock (startLBA + 2) with
    | none => false
    | some buffer => decide (buffer.load 56 2 = 0xEF53)

/-! ### `EnumeratePartitions` -/

/-- `MAX_PARTITION_DEVICE_COUNT`. -/
def maxPartitionDeviceCount : ℕ := 64

/-- The variables of `EnumeratePartitions`, with the array of the caller and the one of the
partition manager. -/
structure Enumeration where
  cachedEntryLBA : ℕ := 2 ^ 64 - 1
  entrySectorBuffer : ByteMemory := fun _ => 0
  partitionCount : ℕ := 0
  partitionInfos : List RootFileSystemPartitionInfo := []
  cachedPartitions : List RootFileSystemPartitionInfo := []

namespace Enumeration

variable (s : Enumeration)

/-- The sector of an entry is in the buffer. -/
def fetch (entryLBA : ℕ) : Option Enumeration :=
  if entryLBA = s.cachedEntryLBA then some s
  else
    (disk.readBlock entryLBA).map fun buffer =>
      { s with
        cachedEntryLBA := entryLBA
        entrySectorBuffer := buffer }

/-- A partition has been found. -/
def record (maxPartitionCount : ℕ) (entry : GptEntry) : Enumeration :=
  { s with
    partitionCount := s.partitionCount + 1
    partitionInfos :=
      if s.partitionCount < maxPartitionCount then
        s.partitionInfos ++ [entry.info (s.partitionCount + 1)]
      else s.partitionInfos
    cachedPartitions :=
      if s.cachedPartitions.length < maxPartitionDeviceCount then
        s.cachedPartitions ++ [entry.info (s.cachedPartitions.length + 1)]
      else s.cachedPartitions }

/-- The end of a round. -/
def examine (maxPartitionCount entryOffset : ℕ) : Enumeration :=
  if (GptEntry.ofSector s.entrySectorBuffer entryOffset).isUsed then
    s.record maxPartitionCount (GptEntry.ofSector s.entrySectorBuffer entryOffset)
  else s

end Enumeration

/-- The loop of `EnumeratePartitions`. -/
def enumerateFrom (header : GptHeader) (maxPartitionCount : ℕ) :
    List ℕ → Enumeration → Bool × Enumeration
  | [], s => (true, s)
  | index :: rest, s =>
    match header.entryPlace index with
    | none => enumerateFrom header maxPartitionCount rest s
    | some place =>
      match s.fetch disk place.1 with
      | none => (false, s)
      | some fetched =>
        enumerateFrom header maxPartitionCount rest (fetched.examine maxPartitionCount place.2)

/-- The header in the first sector, if both scans accept it. -/
def acceptedHeader : Option ByteMemory :=
  if !disk.controllerReady then none
  else (disk.readBlock 1).filter fun buffer => (GptHeader.ofSector buffer).isAccepted

/-- `EnumeratePartitions`. -/
def enumeratePartitions (maxPartitionCount : ℕ) : Bool × Enumeration :=
  match disk.acceptedHeader with
  | none => (false, {})
  | some buffer =>
    disk.enumerateFrom (GptHeader.ofSector buffer) maxPartitionCount
      (List.range (GptHeader.ofSector buffer).entryCount) {}

/-! ### `LocateRootFileSystemPartition` -/

/-- The variables of `LocateRootFileSystemPartition`. -/
structure Location where
  sectorBuffer : ByteMemory
  discoveredPartitionOrdinal : ℕ := 0
  ext2Fallback : Option RootFileSystemPartitionInfo := none
  linuxTypeFallback : Option RootFileSystemPartitionInfo := none
  highestPartitionLastLBA : ℕ := 0

/-- How the loop of `LocateRootFileSystemPartition` ends. -/
inductive LocationEnd where
  | failed
  | selected (info : RootFileSystemPartitionInfo)
  | exhausted (s : Location)

namespace Location

variable (s : Location)

/-- A sector has been read. -/
def setSector (buffer : ByteMemory) : Location := { s with sectorBuffer := buffer }

/-- `Candidate`. -/
def candidate (entry : GptEntry) : RootFileSystemPartitionInfo :=
  entry.info (s.discoveredPartitionOrdinal + 1)

/-- An entry that is not selected at once. -/
def consider (entry : GptEntry) : Location :=
  { s with
    discoveredPartitionOrdinal := s.discoveredPartitionOrdinal + 1
    ext2Fallback :=
      if s.ext2Fallback.isNone && disk.partitionContainsExt2 entry.firstLBA then
        some (s.candidate entry)
      else s.ext2Fallback
    linuxTypeFallback :=
      if s.linuxTypeFallback.isNone && entry.isLinuxType then some (s.candidate entry)
      else s.linuxTypeFallback
    highestPartitionLastLBA := max s.highestPartitionLastLBA entry.lastLBA }

end Location

/-- The entry is named ROOTFS, and its partition has the signature of ext2. -/
def isRootEntry (entry : GptEntry) : Bool :=
  entry.isRootName && disk.partitionContainsExt2 entry.firstLBA

/-- The loop of `LocateRootFileSystemPartition`. The fields of the header are taken from the buffer
in each round. -/
def locateFrom : List ℕ → Location → LocationEnd
  | [], s => .exhausted s
  | index :: rest, s =>
    match (GptHeader.ofSector s.sectorBuffer).entryPlace index with
    | none => locateFrom rest s
    | some place =>
      match disk.readBlock place.1 with
      | none => .failed
      | some buffer =>
        let entry := GptEntry.ofSector buffer place.2
        if !entry.isUsed then locateFrom rest (s.setSector buffer)
        else if disk.isRootEntry entry then .selected (s.candidate entry)
        else locateFrom rest ((s.setSector buffer).consider disk entry)

/-- `ProbeStartLBA`. -/
def probeStartLBA (highestPartitionLastLBA : ℕ) : ℕ :=
  if 2048 ≤ highestPartitionLastLBA then
    u64 (u64 (highestPartitionLastLBA + 1) + 2048 - 1) / 2048 * 2048
  else 2048

/-- The search for the signature of ext2 where no partition is. All addresses up to `ProbeLimitLBA`
are among the first 1025. -/
def probe (highestPartitionLastLBA : ℕ) : Option RootFileSystemPartitionInfo :=
  let probed := (List.range 1025).map (probeStartLBA highestPartitionLastLBA + 2048 * ·)
  (probed.find? fun lba => decide (lba ≤ 0x200000) && disk.partitionContainsExt2 lba).map fun lba =>
    { startLBA := lba
      sectorCount := u32 (0xFFFFFFFF - lba + 1)
      partitionIndex := 0
      devicePath := [] }

/-- What is returned after the loop. -/
def finishLocation : LocationEnd → Option RootFileSystemPartitionInfo
  | .failed => none
  | .selected info => some info
  | .exhausted s =>
    (s.ext2Fallback.or s.linuxTypeFallback).or (disk.probe s.highestPartitionLastLBA)

/-- `LocateRootFileSystemPartition`. -/
def locateRootFileSystemPartition : Option RootFileSystemPartitionInfo :=
  match disk.acceptedHeader with
  | none => none
  | some buffer =>
    disk.finishLocation (disk.locateFrom (List.range (GptHeader.ofSector buffer).entryCount)
      { sectorBuffer := buffer })

/-! ### What the scans are for -/

/-- An entry, and the partition that it describes. -/
structure Discovered where
  entry : GptEntry
  info : RootFileSystemPartitionInfo

/-- The entry of an index, unless it is skipped, empty or reversed. -/
def usedEntry (header : GptHeader) (index : ℕ) : Option GptEntry :=
  (header.entryPlace index).bind fun place =>
    ((disk.readBlock place.1).map fun buffer => GptEntry.ofSector buffer place.2).filter
      GptEntry.isUsed

/-- Entries with consecutive numbers. -/
def number (entries : List GptEntry) (first : ℕ) : List Discovered :=
  (entries.zipIdx first).map fun p => ⟨p.1, p.1.info p.2⟩

/-- The partitions of the first `count` entries, numbered from 1. -/
def partitions (header : GptHeader) (count : ℕ) : List Discovered :=
  number ((List.range count).filterMap (disk.usedEntry header)) 1

/-- The first partition that is named ROOTFS and has the signature of ext2, else the first with the
signature, else the first of Linux type. -/
def rootPartition (discovered : List Discovered) : Option RootFileSystemPartitionInfo :=
  ((discovered.find? fun d => disk.isRootEntry d.entry).or
    ((discovered.find? fun d => disk.partitionContainsExt2 d.entry.firstLBA).or
      (discovered.find? fun d => d.entry.isLinuxType))).map Discovered.info

/-- The sectors of all entries that are not skipped can be read. -/
def TableReadable (header : GptHeader) : Prop :=
  ∀ index < header.entryCount, ∀ place, header.entryPlace index = some place →
    (disk.readBlock place.1).isSome

/-- The sector of an entry holds the place and the size of the entries where the header does. -/
def SectorKeepsHeader (header : GptHeader) (index : ℕ) : Prop :=
  ∀ place buffer, header.entryPlace index = some place → disk.readBlock place.1 = some buffer →
    (GptHeader.ofSector buffer).partitionEntryLBA = header.partitionEntryLBA ∧
      (GptHeader.ofSector buffer).sizeOfPartitionEntry = header.sizeOfPartitionEntry

/-- Up to the first entry that is named ROOTFS and has the signature of ext2, the sectors of the
entries hold the place and the size of the entries where the header does. -/
def KeepsHeader (header : GptHeader) : List ℕ → Prop
  | [] => True
  | index :: rest =>
    (∃ entry ∈ disk.usedEntry header index, disk.isRootEntry entry) ∨
      disk.SectorKeepsHeader header index ∧ KeepsHeader header rest

/-! ### Numbered entries -/

section Number

variable {disk} {header : GptHeader} {entry : GptEntry} {entries : List GptEntry}
  {index first : ℕ} {indices : List ℕ} {place : ℕ × ℕ} {buffer : ByteMemory}

@[simp] theorem number_nil : number [] first = [] := rfl

@[simp] theorem number_cons :
    number (entry :: entries) first = ⟨entry, entry.info first⟩ :: number entries (first + 1) := rfl

variable (disk) in
theorem usedEntry_of_skipped (h : header.entryPlace index = none) :
    disk.usedEntry header index = none := by
  rw [usedEntry, h, Option.bind_none]

theorem usedEntry_of_read (hplace : header.entryPlace index = some place)
    (hread : disk.readBlock place.1 = some buffer) :
    disk.usedEntry header index =
      if (GptEntry.ofSector buffer place.2).isUsed then some (GptEntry.ofSector buffer place.2)
      else none := by
  rw [usedEntry, hplace, Option.bind_some, hread, Option.map_some, Option.filter_some]

/-- An entry that is not skipped is in a sector whose number has 32 bits. -/
theorem entryPlace_lba_le (h : header.entryPlace index = some place) : place.1 ≤ 0xFFFFFFFF := by
  rw [GptHeader.entryPlace] at h
  split_ifs at h with hskip
  cases h
  exact Nat.le_of_not_lt fun hlt => hskip (.inl hlt)

end Number

/-! ### The first scan -/

section Enumerate

variable {disk} {header : GptHeader} {maxPartitionCount : ℕ} {s : Enumeration}

/-- The buffer of the scan holds the sector that it is said to hold. -/
def Enumeration.BufferExact (disk : ScannedDisk) (s : Enumeration) : Prop :=
  s.cachedEntryLBA ≤ 0xFFFFFFFF → disk.readBlock s.cachedEntryLBA = some s.entrySectorBuffer

/-- No sector has the number that the buffer starts with. -/
theorem Enumeration.bufferExact_start (disk : ScannedDisk) :
    ({} : Enumeration).BufferExact disk := by
  intro hle
  have hnot : ¬ (2 ^ 64 - 1 ≤ 0xFFFFFFFF) := by omega
  exact absurd hle hnot

/-- The variables of the scan after a sector has been fetched. -/
def Enumeration.holding (s : Enumeration) (entryLBA : ℕ) (buffer : ByteMemory) : Enumeration :=
  { s with
    cachedEntryLBA := entryLBA
    entrySectorBuffer := buffer }

theorem Enumeration.examine_holding (entryLBA entryOffset : ℕ) (buffer : ByteMemory) :
    (s.holding entryLBA buffer).examine maxPartitionCount entryOffset =
      if (GptEntry.ofSector buffer entryOffset).isUsed then
        (s.holding entryLBA buffer).record maxPartitionCount (GptEntry.ofSector buffer entryOffset)
      else s.holding entryLBA buffer := rfl

theorem Enumeration.fetch_eq (h : s.BufferExact disk) {entryLBA : ℕ} {buffer : ByteMemory}
    (hle : entryLBA ≤ 0xFFFFFFFF) (hread : disk.readBlock entryLBA = some buffer) :
    s.fetch disk entryLBA = some (s.holding entryLBA buffer) := by
  rw [fetch]
  split_ifs with hcached
  · subst hcached
    rw [h hle] at hread
    cases hread
    rfl
  · rw [hread]
    rfl

/-- What a scan has added for the partitions that it has found. -/
structure EnumerationFacts (maxPartitionCount : ℕ) (s after : Enumeration)
    (found : List Discovered) : Prop where
  partitionCount_eq : after.partitionCount = s.partitionCount + found.length
  partitionInfos_eq : after.partitionInfos = s.partitionInfos ++
    (found.map Discovered.info).take (maxPartitionCount - s.partitionCount)
  cachedPartitions_eq : after.cachedPartitions = s.cachedPartitions ++
    (found.map Discovered.info).take (maxPartitionDeviceCount - s.cachedPartitions.length)

theorem EnumerationFacts.refl (maxPartitionCount : ℕ) (s : Enumeration) :
    EnumerationFacts maxPartitionCount s s [] :=
  ⟨rfl, by simp, by simp⟩

theorem EnumerationFacts.of_holding {entryLBA : ℕ} {buffer : ByteMemory} {after : Enumeration}
    {found : List Discovered}
    (h : EnumerationFacts maxPartitionCount (s.holding entryLBA buffer) after found) :
    EnumerationFacts maxPartitionCount s after found :=
  ⟨h.partitionCount_eq, h.partitionInfos_eq, h.cachedPartitions_eq⟩

/-- The numbers of the two arrays agree as long as both have room. -/
def Enumeration.CacheCounts (s : Enumeration) : Prop :=
  s.cachedPartitions.length = min s.partitionCount maxPartitionDeviceCount

theorem Enumeration.CacheCounts.record (h : s.CacheCounts) (entry : GptEntry) :
    (s.record maxPartitionCount entry).CacheCounts := by
  rw [CacheCounts] at h ⊢
  rw [Enumeration.record]
  dsimp only
  split_ifs with hlt
  · rw [List.length_append, List.length_singleton]
    omega
  · omega

/-- A partition is recorded before those that come after it. -/
theorem EnumerationFacts.record {after : Enumeration} {found : List Discovered} {entry : GptEntry}
    (h : EnumerationFacts maxPartitionCount (s.record maxPartitionCount entry) after found)
    (hcounts : s.CacheCounts) :
    EnumerationFacts maxPartitionCount s after
      (⟨entry, entry.info (s.partitionCount + 1)⟩ :: found) where
  partitionCount_eq := by
    rw [h.partitionCount_eq, Enumeration.record, List.length_cons]
    dsimp only
    omega
  partitionInfos_eq := by
    rw [h.partitionInfos_eq, Enumeration.record]
    dsimp only
    split_ifs with hlt
    · obtain ⟨room, hroom⟩ := Nat.exists_eq_add_of_lt hlt
      rw [show maxPartitionCount - s.partitionCount = room + 1 by omega,
        show maxPartitionCount - (s.partitionCount + 1) = room by omega, List.map_cons,
        List.take_succ_cons, List.append_assoc, List.singleton_append]
    · rw [show maxPartitionCount - s.partitionCount = 0 by omega,
        show maxPartitionCount - (s.partitionCount + 1) = 0 by omega, List.take_zero,
        List.take_zero]
  cachedPartitions_eq := by
    rw [h.cachedPartitions_eq, Enumeration.record]
    dsimp only
    rw [Enumeration.CacheCounts] at hcounts
    split_ifs with hlt
    · obtain ⟨room, hroom⟩ := Nat.exists_eq_add_of_lt hlt
      have hnumber : s.cachedPartitions.length = s.partitionCount := by omega
      rw [show maxPartitionDeviceCount - s.cachedPartitions.length = room + 1 by omega,
        List.length_append, List.length_singleton,
        show maxPartitionDeviceCount - (s.cachedPartitions.length + 1) = room by omega,
        List.map_cons, List.take_succ_cons, List.append_assoc, List.singleton_append, hnumber]
    · rw [show maxPartitionDeviceCount - s.cachedPartitions.length = 0 by omega, List.take_zero,
        List.take_zero]

/-- The scan goes through when it can read the sectors, and finds the used entries in order. -/
theorem enumerateFrom_facts (indices : List ℕ)
    (hread : ∀ index ∈ indices, ∀ place, header.entryPlace index = some place →
      (disk.readBlock place.1).isSome)
    (hbuffer : s.BufferExact disk) (hcounts : s.CacheCounts) :
    (disk.enumerateFrom header maxPartitionCount indices s).1 = true ∧
      EnumerationFacts maxPartitionCount s
        (disk.enumerateFrom header maxPartitionCount indices s).2
        (number (indices.filterMap (disk.usedEntry header)) (s.partitionCount + 1)) := by
  induction indices generalizing s with
  | nil => exact ⟨rfl, .refl maxPartitionCount s⟩
  | cons index rest ih =>
    have hrest := fun i hi => hread i (List.mem_cons_of_mem index hi)
    rw [enumerateFrom]
    cases hplace : header.entryPlace index with
    | none =>
      rw [List.filterMap_cons_none (usedEntry_of_skipped disk hplace)]
      exact ih hrest hbuffer hcounts
    | some place =>
      obtain ⟨buffer, hblock⟩ :=
        Option.isSome_iff_exists.mp (hread index List.mem_cons_self place hplace)
      have hentry := usedEntry_of_read hplace hblock
      dsimp only
      rw [Enumeration.fetch_eq hbuffer (entryPlace_lba_le hplace) hblock]
      dsimp only
      rw [Enumeration.examine_holding]
      split_ifs at hentry ⊢ with hused
      · rw [List.filterMap_cons_some hentry, number_cons]
        have hcounts' : (s.holding place.1 buffer).CacheCounts := hcounts
        obtain ⟨hok, hfacts⟩ := ih hrest (s := (s.holding place.1 buffer).record maxPartitionCount
          (GptEntry.ofSector buffer place.2)) (fun _ => hblock) (hcounts'.record _)
        exact ⟨hok, (hfacts.record hcounts').of_holding⟩
      · rw [List.filterMap_cons_none hentry]
        obtain ⟨hok, hfacts⟩ := ih hrest (s := s.holding place.1 buffer) (fun _ => hblock) hcounts
        exact ⟨hok, hfacts.of_holding⟩

end Enumerate

/-! ### The second scan -/

section Locate

variable {disk} {header : GptHeader} {s : Location} {entry : GptEntry} {found : List Discovered}
  {outcome : LocationEnd}

/-- The highest last sector of partitions, or a given one. -/
def highestLastLBA (found : List Discovered) (highest : ℕ) : ℕ :=
  (found.map fun d => d.entry.lastLBA).foldl max highest

/-- How a scan ends that finds partitions. -/
structure LocationFacts (disk : ScannedDisk) (s : Location) (found : List Discovered)
    (outcome : LocationEnd) : Prop where
  selected : ∀ d, (found.find? fun d => disk.isRootEntry d.entry) = some d →
    outcome = .selected d.info
  exhausted : (found.find? fun d => disk.isRootEntry d.entry) = none →
    ∃ after, outcome = .exhausted after ∧
      after.ext2Fallback = s.ext2Fallback.or
        ((found.find? fun d => disk.partitionContainsExt2 d.entry.firstLBA).map
          Discovered.info) ∧
      after.linuxTypeFallback = s.linuxTypeFallback.or
        ((found.find? fun d => d.entry.isLinuxType).map Discovered.info) ∧
      after.highestPartitionLastLBA = highestLastLBA found s.highestPartitionLastLBA

theorem LocationFacts.nil (s : Location) : LocationFacts disk s [] (.exhausted s) where
  selected d hd := by cases hd
  exhausted _ := ⟨s, rfl, by simp, by simp, rfl⟩

theorem LocationFacts.of_setSector {buffer : ByteMemory}
    (h : LocationFacts disk (s.setSector buffer) found outcome) :
    LocationFacts disk s found outcome :=
  ⟨h.selected, h.exhausted⟩

/-- A fallback that is set for the first entry with a property. -/
theorem or_find?_cons {p : Discovered → Bool} {d : Discovered}
    (fallback : Option RootFileSystemPartitionInfo) :
    (if fallback.isNone && p d then some d.info else fallback).or
        ((found.find? p).map Discovered.info) =
      fallback.or (((d :: found).find? p).map Discovered.info) := by
  rw [List.find?_cons]
  cases fallback <;> cases p d <;> simp

/-- An entry that is not selected comes before those that follow. -/
theorem LocationFacts.consider
    (h : LocationFacts disk (s.consider disk entry) found outcome)
    (hroot : disk.isRootEntry entry = false) :
    LocationFacts disk s
      (⟨entry, entry.info (s.discoveredPartitionOrdinal + 1)⟩ :: found) outcome where
  selected d hd := by
    rw [List.find?_cons_of_neg (by simp [hroot])] at hd
    exact h.selected d hd
  exhausted hnone := by
    rw [List.find?_cons_of_neg (by simp [hroot])] at hnone
    obtain ⟨after, houtcome, hext2, hlinux, hhighest⟩ := h.exhausted hnone
    refine ⟨after, houtcome, ?_, ?_, hhighest⟩
    · rw [hext2, ← or_find?_cons]
      rfl
    · rw [hlinux, ← or_find?_cons]
      rfl

theorem LocationFacts.select (hroot : disk.isRootEntry entry = true) :
    LocationFacts disk s
      (⟨entry, entry.info (s.discoveredPartitionOrdinal + 1)⟩ :: found)
      (.selected (s.candidate entry)) where
  selected d hd := by
    rw [List.find?_cons_of_pos (by simpa using hroot)] at hd
    cases hd
    rfl
  exhausted hnone := by
    rw [List.find?_cons_of_pos (by simpa using hroot)] at hnone
    cases hnone

/-- The entries are where the header says, as far as the buffer tells. -/
def Location.HoldsHeader (s : Location) (header : GptHeader) : Prop :=
  (GptHeader.ofSector s.sectorBuffer).partitionEntryLBA = header.partitionEntryLBA ∧
    (GptHeader.ofSector s.sectorBuffer).sizeOfPartitionEntry = header.sizeOfPartitionEntry

theorem Location.HoldsHeader.entryPlace_eq (h : s.HoldsHeader header) (index : ℕ) :
    (GptHeader.ofSector s.sectorBuffer).entryPlace index = header.entryPlace index := by
  rw [GptHeader.entryPlace, GptHeader.entryPlace, h.1, h.2]

/-- The scan goes over the used entries in order, as long as the sectors keep the fields of the
header. -/
theorem locateFrom_facts (indices : List ℕ)
    (hread : ∀ index ∈ indices, ∀ place, header.entryPlace index = some place →
      (disk.readBlock place.1).isSome)
    (hkeeps : disk.KeepsHeader header indices) (hheader : s.HoldsHeader header) :
    LocationFacts disk s
      (number (indices.filterMap (disk.usedEntry header)) (s.discoveredPartitionOrdinal + 1))
      (disk.locateFrom indices s) := by
  induction indices generalizing s with
  | nil => exact .nil s
  | cons index rest ih =>
    have hrest := fun i hi => hread i (List.mem_cons_of_mem index hi)
    rw [locateFrom, hheader.entryPlace_eq]
    rw [KeepsHeader] at hkeeps
    cases hplace : header.entryPlace index with
    | none =>
      have hentry := usedEntry_of_skipped disk hplace
      rw [List.filterMap_cons_none hentry]
      rcases hkeeps with ⟨entry, hmem, -⟩ | ⟨-, hkeeps⟩
      · rw [hentry] at hmem
        cases hmem
      · exact ih hrest hkeeps hheader
    | some place =>
      obtain ⟨buffer, hblock⟩ :=
        Option.isSome_iff_exists.mp (hread index List.mem_cons_self place hplace)
      have hentry := usedEntry_of_read hplace hblock
      dsimp only
      rw [hblock]
      dsimp only
      cases hused : (GptEntry.ofSector buffer place.2).isUsed with
      | false =>
        rw [hused, if_neg Bool.false_ne_true] at hentry
        rw [List.filterMap_cons_none hentry, Bool.not_false, if_pos rfl]
        rcases hkeeps with ⟨entry, hmem, -⟩ | ⟨hsector, hkeeps⟩
        · rw [hentry] at hmem
          cases hmem
        · exact (ih hrest hkeeps (s := s.setSector buffer)
            (hsector place buffer hplace hblock)).of_setSector
      | true =>
        rw [hused, if_pos rfl] at hentry
        rw [List.filterMap_cons_some hentry, number_cons, Bool.not_true,
          if_neg Bool.false_ne_true]
        cases hroot : disk.isRootEntry (GptEntry.ofSector buffer place.2) with
        | true =>
          rw [if_pos rfl]
          exact .select hroot
        | false =>
          rw [if_neg Bool.false_ne_true]
          rcases hkeeps with ⟨entry, hmem, hisRoot⟩ | ⟨hsector, hkeeps⟩
          · rw [hentry] at hmem
            cases hmem
            rw [hroot] at hisRoot
            cases hisRoot
          · have hfacts := ih hrest hkeeps
              (s := (s.setSector buffer).consider disk (GptEntry.ofSector buffer place.2))
              (hsector place buffer hplace hblock)
            exact (hfacts.consider hroot).of_setSector

/-- What is returned after the scan. -/
theorem LocationFacts.finishLocation_eq
    (h : LocationFacts disk s found outcome) (hext2 : s.ext2Fallback = none)
    (hlinux : s.linuxTypeFallback = none) :
    disk.finishLocation outcome =
      (disk.rootPartition found).or
        (disk.probe (highestLastLBA found s.highestPartitionLastLBA)) := by
  rw [rootPartition]
  cases hfind : found.find? fun d => disk.isRootEntry d.entry with
  | some d =>
    rw [h.selected d hfind]
    rfl
  | none =>
    obtain ⟨after, rfl, hafter, hafter', hhighest⟩ := h.exhausted hfind
    rw [hext2, Option.none_or] at hafter
    rw [hlinux, Option.none_or] at hafter'
    rw [finishLocation, hafter, hafter', hhighest, Option.none_or, Option.map_or]

end Locate

/-! ### Both scans -/

section Discovery

variable {disk} {buffer : ByteMemory}

/-- On a disk whose table can be read, the first scan reports the used entries below the adjusted
number, in order and numbered from 1, as far as the arrays have room. The second scan selects among
the same partitions, as long as the sectors before the selected entry keep the fields of the header;
where there is none to select, it probes the rest of the disk. -/
theorem discovery_agrees (hheader : disk.acceptedHeader = some buffer)
    (hread : disk.TableReadable (GptHeader.ofSector buffer)) (maxPartitionCount : ℕ) :
    let header := GptHeader.ofSector buffer
    let found := disk.partitions header header.entryCount
    let scan := disk.enumeratePartitions maxPartitionCount
    (scan.1 = true ∧ scan.2.partitionCount = found.length ∧
      scan.2.partitionInfos = (found.map Discovered.info).take maxPartitionCount ∧
      scan.2.cachedPartitions = (found.map Discovered.info).take maxPartitionDeviceCount) ∧
    (disk.KeepsHeader header (List.range header.entryCount) →
      disk.locateRootFileSystemPartition =
        (disk.rootPartition found).or (disk.probe (highestLastLBA found 0))) := by
  intro header found scan
  have hindices : ∀ index ∈ List.range header.entryCount, ∀ place,
      header.entryPlace index = some place → (disk.readBlock place.1).isSome :=
    fun index hindex => hread index (List.mem_range.mp hindex)
  refine ⟨?_, fun hkeeps => ?_⟩
  · have hscan : scan = disk.enumerateFrom header maxPartitionCount
        (List.range header.entryCount) {} := by
      simp only [scan, header, enumeratePartitions, hheader]
    obtain ⟨hok, hcount, hinfos, hcached⟩ := enumerateFrom_facts (s := {})
      (List.range header.entryCount) hindices (Enumeration.bufferExact_start disk) rfl
    rw [hscan]
    exact ⟨hok, hcount.trans (Nat.zero_add _), hinfos.trans (List.nil_append _),
      hcached.trans (List.nil_append _)⟩
  · have hlocate : disk.locateRootFileSystemPartition = disk.finishLocation
        (disk.locateFrom (List.range header.entryCount) { sectorBuffer := buffer }) := by
      simp only [header, locateRootFileSystemPartition, hheader]
    have hfacts := locateFrom_facts (s := { sectorBuffer := buffer })
      (List.range header.entryCount) hindices hkeeps ⟨rfl, rfl⟩
    rw [hlocate]
    exact hfacts.finishLocation_eq rfl rfl

/-- A sector with a header. -/
def headerSector (number : UInt8) : ByteMemory := fun i =>
  if i < 8 then [0x45, 0x46, 0x49, 0x20, 0x50, 0x41, 0x52, 0x54].getD i 0
  else if i = 72 then 2
  else if i = 80 then number
  else if i = 84 then 128
  else 0

/-- All sectors of the disk are alike. -/
def uniformDisk : ScannedDisk where
  readBlock := fun _ => some (headerSector 128)

theorem keepsHeader_uniformDisk (indices : List ℕ) :
    uniformDisk.KeepsHeader (GptHeader.ofSector (headerSector 128)) indices := by
  induction indices with
  | nil => trivial
  | cons index rest ih =>
    refine .inr ⟨fun place buffer hplace hblock => ?_, ih⟩
    cases hblock
    exact ⟨rfl, rfl⟩

theorem discovery_agrees_uniformDisk :
    (uniformDisk.enumeratePartitions 64).2.partitionCount =
      (uniformDisk.partitions (GptHeader.ofSector (headerSector 128)) 128).length ∧
    uniformDisk.locateRootFileSystemPartition =
      (uniformDisk.rootPartition
        (uniformDisk.partitions (GptHeader.ofSector (headerSector 128)) 128)).or
      (uniformDisk.probe (highestLastLBA
        (uniformDisk.partitions (GptHeader.ofSector (headerSector 128)) 128) 0)) := by
  have hheader : uniformDisk.acceptedHeader = some (headerSector 128) := rfl
  have hagrees := discovery_agrees hheader (fun _ _ _ _ => rfl) 64
  exact ⟨hagrees.1.2.1, hagrees.2 (keepsHeader_uniformDisk _)⟩

/-- A table with two entries. The second is named ROOTFS and its partition has the signature of
ext2. -/
def twoEntryDisk (number : UInt8) : ScannedDisk where
  readBlock := fun lba => some fun i =>
    if lba = 1 then headerSector number i
    else if lba = 2 then
      if i = 0 ∨ i = 128 then 1
      else if i = 160 ∨ i = 168 then 100
      else if 184 ≤ i then
        [0x52, 0, 0x4F, 0, 0x4F, 0, 0x54, 0, 0x46, 0, 0x53].getD (i - 184) 0
      else 0
    else if lba = 102 then if i = 56 then 0x53 else if i = 57 then 0xEF else 0
    else 0

/-- Where the header gives one entry, the first scan reports a second one. Where it gives 128, the
second scan misses the partition that is named ROOTFS. -/
theorem not_discovery_twoEntries :
    ((twoEntryDisk 1).enumeratePartitions 64).2.partitionCount = 2 ∧
    ((twoEntryDisk 1).partitions (GptHeader.ofSector (headerSector 1)) 1).length = 1 ∧
    (twoEntryDisk 128).locateRootFileSystemPartition = none ∧
    (twoEntryDisk 128).rootPartition
        ((twoEntryDisk 128).partitions (GptHeader.ofSector (headerSector 128)) 128) =
      some
        { startLBA := 100
          sectorCount := 1
          partitionIndex := 2
          devicePath := "/dev/sda2".toList } := by
  refine ⟨?_, ?_, ?_, ?_⟩ <;> decide +kernel

end Discovery

end ScannedDisk

end TwistedOS
