import Mathlib.Data.List.TakeWhile
import TwistedOS.Files.RamFileSystem

/-!
# Archives of the initial RAM file system

The "newc" format as its writers produce it, and what `EnumerateEntries` finds in an archive of any
list of entries: all of them up to the first one whose name begins with the name of the trailer.

## Main definitions

* `CpioEntry`, `CpioEntry.encode`, `CpioArchive.bytes`: the format.
* `MemoryImage`: bytes of an object in memory.
* `MemoryImage.EnumeratedInside`, `CpioArchive.ListedExactly`.

## Main results

* `parseEntryAtOffset_encode`
* `CpioArchive.enumerateEntries_eq`
* `ramFileSystem_exact_iff`
-/

namespace TwistedOS

/-- A file of an archive. The sizes of name and data fit into the fields of the header. -/
structure CpioEntry where
  name : List UInt8
  data : List UInt8
  mode : UInt32
  inode : UInt32 := 0
  uid : UInt32 := 0
  gid : UInt32 := 0
  nLink : UInt32 := 1
  mTime : UInt32 := 0
  devMajor : UInt32 := 0
  devMinor : UInt32 := 0
  rDevMajor : UInt32 := 0
  rDevMinor : UInt32 := 0
  /-- The check sum of an entry of the second kind. -/
  check : Option UInt32 := none
  name_ne_zero : 0 ∉ name := by decide
  name_lt : name.length + 1 < 2 ^ 32 := by decide
  data_lt : data.length < 2 ^ 32 := by decide

/-- A file as the user of an enumeration sees it. -/
structure ArchiveFile where
  name : List UInt8
  data : List UInt8
  mode : ℕ
  type : RamFileSystemEntryType
  deriving DecidableEq, Repr

/-- The zeros behind a part of `n` bytes, up to a multiple of four. -/
def cpioPadding (n : ℕ) : List UInt8 := List.replicate ((4 - n % 4) % 4) 0

namespace CpioEntry

variable (entry : CpioEntry)

/-- The values of the fields of the header, in their order. -/
def fields : List ℕ :=
  [entry.inode.toNat, entry.mode.toNat, entry.uid.toNat, entry.gid.toNat, entry.nLink.toNat,
    entry.mTime.toNat, entry.data.length, entry.devMajor.toNat, entry.devMinor.toNat,
    entry.rDevMajor.toNat, entry.rDevMinor.toNat, entry.name.length + 1,
    (entry.check.getD 0).toNat]

/-- The mark of the entry. -/
def magic : List UInt8 := if entry.check = none then cpioMagic else cpioCrcMagic

/-- The bytes of an entry, with capital or small letters in the fields. -/
def encode (upper : Bool) : List UInt8 :=
  entry.magic ++ entry.fields.flatMap (hexDigits upper 8) ++ (entry.name ++ [0]) ++
    cpioPadding (cpioHeaderSize + (entry.name.length + 1)) ++ entry.data ++
    cpioPadding entry.data.length

/-- The trailer. -/
def trailer : CpioEntry where
  name := trailerName
  data := []
  mode := 0

/-- What the user sees of the entry. -/
def file : ArchiveFile :=
  ⟨entry.name, entry.data, entry.mode.toNat, .decodeEntryType entry.mode.toNat⟩

/-- The name is taken for the one of the trailer. -/
def namesTrailer : Bool := trailerName.isPrefixOf entry.name

end CpioEntry

/-- What an entry given to a callback stands for: the name up to the zero byte, and the data. -/
def RamFileSystemEntry.file (archive : List UInt8) (entry : RamFileSystemEntry) : ArchiveFile :=
  ⟨(archive.drop entry.name).takeWhile (· ≠ 0), (archive.drop entry.data).take entry.size,
    entry.mode, entry.type⟩

/-- The bytes of an object in memory. Places in it are differences of pointers, so that it has fewer
than `2 ^ 63` of them. -/
structure MemoryImage where
  bytes : List UInt8
  length_lt : bytes.length < 2 ^ 63

/-- An archive: entries, the trailer, and padding. It is an object in memory. -/
structure CpioArchive where
  entries : List CpioEntry
  upper : Bool
  padding : List UInt8
  length_lt : (entries.flatMap (CpioEntry.encode · upper) ++
    (CpioEntry.trailer.encode upper ++ padding)).length < 2 ^ 63

/-- The bytes of an archive. -/
def CpioArchive.bytes (archive : CpioArchive) : List UInt8 :=
  archive.entries.flatMap (CpioEntry.encode · archive.upper) ++
    (CpioEntry.trailer.encode archive.upper ++ archive.padding)

/-- Every enumeration ends, reads nothing outside the archive, and gives the callback entries whose
names and data lie inside it. -/
def MemoryImage.EnumeratedInside (image : MemoryImage) : Prop :=
  ∀ initramfsAddress callback, ∃ result entries,
    enumerateEntries initramfsAddress image.bytes callback = some (result, entries) ∧
      ∀ entry ∈ entries, entry.Inside image.bytes

/-- An enumeration that the callback does not end returns true and meets exactly the entries. -/
def CpioArchive.ListedExactly (archive : CpioArchive) : Prop :=
  ∀ initramfsAddress callback, initramfsAddress ≠ 0 →
    (∀ called, EntryCallback.stops callback called = false) → ∃ called,
      enumerateEntries initramfsAddress archive.bytes callback = some (true, called) ∧
        called.map (·.file archive.bytes) = archive.entries.map CpioEntry.file

variable {archive rest : List UInt8} {offset : ℕ} {upper : Bool} {entry : CpioEntry}

/-! ### The bytes of an entry -/

theorem length_cpioPadding (n : ℕ) : (cpioPadding n).length = (4 - n % 4) % 4 :=
  List.length_replicate ..

theorem length_flatMap_hexDigits (values : List ℕ) :
    (values.flatMap (hexDigits upper 8)).length = 8 * values.length := by
  induction values with
  | nil => rfl
  | cons value values ih =>
    rw [List.flatMap_cons, List.length_append, length_hexDigits, ih, List.length_cons]
    omega

theorem drop_flatMap_hexDigits (values : List ℕ) (i : ℕ) :
    (values.flatMap (hexDigits upper 8)).drop (8 * i) =
      (values.drop i).flatMap (hexDigits upper 8) := by
  induction i generalizing values with
  | zero => rfl
  | succ i ih =>
    cases values with
    | nil => simp
    | cons value values =>
      rw [List.flatMap_cons, List.drop_succ_cons, ← ih, Nat.mul_succ, Nat.add_comm,
        ← List.drop_drop, List.drop_left' length_hexDigits]

theorem CpioEntry.length_magic : entry.magic.length = 6 := by
  rw [CpioEntry.magic]
  split <;> rfl

/-- The part of an entry in front of the name. -/
theorem CpioEntry.length_header :
    (entry.magic ++ entry.fields.flatMap (hexDigits upper 8)).length = cpioHeaderSize := by
  rw [List.length_append, length_magic, length_flatMap_hexDigits]
  rfl

theorem CpioEntry.length_encode : (entry.encode upper).length =
    cpioHeaderSize + (entry.name.length + 1) +
      (4 - (cpioHeaderSize + (entry.name.length + 1)) % 4) % 4 + entry.data.length +
      (4 - entry.data.length % 4) % 4 := by
  rw [encode, List.length_append, List.length_append, List.length_append, List.length_append,
    length_header, List.length_append, List.length_singleton, length_cpioPadding,
    length_cpioPadding]

section

variable (h : archive.drop offset = entry.encode upper ++ rest)

include h

/-- The bytes from a field of the header on. -/
theorem CpioEntry.drop_field (i : ℕ) (hi : i < entry.fields.length) :
    ∃ behind, archive.drop (offset + (6 + 8 * i)) =
      hexDigits upper 8 entry.fields[i] ++ behind := by
  have hfields : (entry.fields.flatMap (hexDigits upper 8)).drop (8 * i) =
      hexDigits upper 8 entry.fields[i] ++
        (entry.fields.drop (i + 1)).flatMap (hexDigits upper 8) := by
    rw [drop_flatMap_hexDigits, List.drop_eq_getElem_cons hi, List.flatMap_cons]
  have hlength : 8 * i ≤ (entry.fields.flatMap (hexDigits upper 8)).length := by
    rw [length_flatMap_hexDigits]
    omega
  rw [← List.drop_drop, h, encode, ← List.drop_drop]
  simp only [List.append_assoc]
  rw [List.drop_left' length_magic, List.drop_append_of_le_length hlength, hfields,
    List.append_assoc]
  exact ⟨_, rfl⟩

/-- The bytes from the name on, and those from the data on. -/
theorem CpioEntry.drop_name :
    ∃ behind, archive.drop (offset + cpioHeaderSize) = entry.name ++ 0 :: behind := by
  rw [← List.drop_drop, h, encode]
  simp only [List.append_assoc]
  rw [← List.append_assoc, List.drop_left' length_header, List.singleton_append]
  exact ⟨_, rfl⟩

theorem CpioEntry.drop_data :
    ∃ behind, archive.drop (offset + (cpioHeaderSize + (entry.name.length + 1) +
      (4 - (cpioHeaderSize + (entry.name.length + 1)) % 4) % 4)) = entry.data ++ behind := by
  have hlength : (entry.magic ++ entry.fields.flatMap (hexDigits upper 8) ++ (entry.name ++ [0]) ++
      cpioPadding (cpioHeaderSize + (entry.name.length + 1))).length =
      cpioHeaderSize + (entry.name.length + 1) +
        (4 - (cpioHeaderSize + (entry.name.length + 1)) % 4) % 4 := by
    rw [List.length_append, List.length_append, length_header, List.length_append,
      List.length_singleton, length_cpioPadding]
  rw [← List.drop_drop, h, encode, List.append_assoc, List.append_assoc, List.drop_left' hlength]
  exact ⟨_, rfl⟩

end

/-! ### Reads of the bytes of an entry -/

theorem getElem?_of_drop {byte : UInt8} {behind : List UInt8}
    (h : archive.drop offset = byte :: behind) :
    archive[offset]? = some byte ∧ archive.drop (offset + 1) = behind := by
  constructor
  · rw [← Nat.add_zero offset, ← List.getElem?_drop, h, List.getElem?_cons_zero]
  · rw [← List.drop_drop, h, List.drop_one, List.tail_cons]

theorem parseHexDigits_hexDigits {behind : List UInt8} {n field value v k : ℕ}
    (h : archive.drop field = hexDigits upper n v ++ behind) (hvalue : value < 16 ^ k)
    (hk : k + n ≤ 8) :
    parseHexDigits archive n field value = some (value * 16 ^ n + v % 16 ^ n, true) := by
  induction n generalizing field value k with
  | zero => rw [parseHexDigits, Nat.pow_zero, Nat.mul_one, Nat.mod_one, Nat.add_zero]
  | succ n ih =>
    have hdigit : v / 16 ^ n % 16 < 16 := Nat.mod_lt _ (by decide)
    have hpow : (16 : ℕ) ^ k ≤ 16 ^ 7 := Nat.pow_le_pow_right (by decide) (by omega)
    have hfits : value <<< 4 < 2 ^ 64 := by
      rw [Nat.shiftLeft_eq]
      omega
    rw [hexDigits, List.cons_append] at h
    obtain ⟨hbyte, hrest⟩ := getElem?_of_drop h
    rw [parseHexDigits, hbyte, Option.bind_some, if_pos (isHexDigit_hexDigit hdigit),
      u64_of_lt hfits, hexDigitValue_hexDigit hdigit, shiftLeft_or_digit hdigit,
      ih (k := k + 1) hrest (by rw [Nat.pow_succ]; omega) (by omega), mod_pow_succ_eq]

theorem CpioEntry.parseHexField_field (h : archive.drop offset = entry.encode upper ++ rest)
    (i : ℕ) (hi : i < entry.fields.length) (hlt : entry.fields[i] < 2 ^ 32) :
    parseHexField archive (offset + (6 + 8 * i)) = some (entry.fields[i], true) := by
  obtain ⟨behind, hdrop⟩ := entry.drop_field h i hi
  rw [parseHexField, parseHexDigits_hexDigits (k := 0) hdrop (by decide) (by decide),
    Nat.zero_mul, Nat.zero_add, Nat.mod_eq_of_lt (show entry.fields[i] < 16 ^ 8 from hlt)]

theorem matchesLiteral_of_drop {bytes behind literal : List UInt8}
    (h : archive.drop offset = bytes ++ behind) (hlength : literal.length = bytes.length) :
    matchesLiteral archive offset literal = some (decide (bytes = literal)) := by
  induction literal generalizing offset bytes with
  | nil =>
    rw [List.length_eq_zero_iff.mp hlength.symm, decide_eq_true rfl]
    rfl
  | cons character literal ih =>
    cases bytes with
    | nil => cases hlength
    | cons byte bytes =>
      obtain ⟨hbyte, hrest⟩ := getElem?_of_drop h
      rw [matchesLiteral, hbyte, Option.bind_some]
      by_cases hne : byte ≠ character
      · rw [if_pos hne, decide_eq_false fun heq => hne (List.cons.inj heq).1]
      · rw [if_neg hne, ih hrest (Nat.succ.inj hlength), not_not.mp hne]
        simp

/-- A terminated name is compared with a literal that has no zero. -/
theorem matchesLiteral_name {name behind literal : List UInt8} (hzero : 0 ∉ literal)
    (h : archive.drop offset = name ++ 0 :: behind) :
    matchesLiteral archive offset literal = some (literal.isPrefixOf name) := by
  induction literal generalizing offset name with
  | nil => rw [List.isPrefixOf_nil_left]; rfl
  | cons character literal ih =>
    cases name with
    | nil =>
      have hne : (0 : UInt8) ≠ character := fun heq => hzero (heq ▸ List.mem_cons_self)
      rw [matchesLiteral, (getElem?_of_drop h).1, Option.bind_some, if_pos hne]
      rfl
    | cons byte name =>
      obtain ⟨hbyte, hrest⟩ := getElem?_of_drop h
      rw [matchesLiteral, hbyte, Option.bind_some, List.isPrefixOf_cons_cons]
      by_cases hne : byte ≠ character
      · rw [if_pos hne, beq_eq_false_iff_ne.mpr (Ne.symm hne), Bool.false_and]
      · rw [if_neg hne, ih (fun hmem => hzero (List.mem_cons_of_mem _ hmem)) hrest,
          beq_iff_eq.mpr (not_not.mp hne).symm, Bool.true_and]

theorem CpioEntry.matchesMagic_encode (h : archive.drop offset = entry.encode upper ++ rest) :
    matchesMagic archive offset = some true := by
  have hmagic : ∃ behind, archive.drop offset = entry.magic ++ behind := by
    rw [h, encode]
    simp only [List.append_assoc]
    exact ⟨_, rfl⟩
  obtain ⟨behind, hdrop⟩ := hmagic
  have hlength : cpioMagic.length = entry.magic.length := by rw [length_magic]; rfl
  have hcrcLength : cpioCrcMagic.length = entry.magic.length := by rw [length_magic]; rfl
  rw [matchesMagic, matchesLiteral_of_drop hdrop hlength, matchesLiteral_of_drop hdrop hcrcLength,
    magic]
  cases entry.check <;> rfl

/-- A name without a zero is what is in front of its zero byte. -/
theorem takeWhile_name {name behind : List UInt8} (hzero : 0 ∉ name) :
    (name ++ 0 :: behind).takeWhile (· ≠ 0) = name := by
  have hall : ∀ byte ∈ name, decide (byte ≠ 0) = true := fun byte hbyte =>
    decide_eq_true fun heq => hzero (heq ▸ hbyte)
  rw [List.takeWhile_append_of_pos hall, List.takeWhile_cons_of_neg (by decide), List.append_nil]

/-! ### One entry -/

/-- Where the data of an entry begin. -/
def CpioEntry.dataStart (entry : CpioEntry) : ℕ :=
  cpioHeaderSize + (entry.name.length + 1) +
    (4 - (cpioHeaderSize + (entry.name.length + 1)) % 4) % 4

section

variable (hsize : archive.length < 2 ^ 63) (haligned : offset % 4 = 0)
  (h : archive.drop offset = entry.encode upper ++ rest)

include hsize haligned h

theorem parseBody_encode {mode : ℕ} :
    parseBody archive offset (entry.name.length + 1) entry.data.length mode = some
      (if entry.namesTrailer then .trailer (offset + (entry.encode upper).length)
      else .entry ⟨offset + cpioHeaderSize, offset + entry.dataStart, entry.data.length, mode,
        .decodeEntryType mode⟩ (offset + (entry.encode upper).length)) := by
  have hheader : cpioHeaderSize = 110 := rfl
  have hname := entry.name_lt
  have hdata := entry.data_lt
  have hstart : entry.dataStart = cpioHeaderSize + (entry.name.length + 1) +
      (4 - (cpioHeaderSize + (entry.name.length + 1)) % 4) % 4 := rfl
  have hencode := @CpioEntry.length_encode upper entry
  have hfits : offset + (entry.encode upper).length ≤ archive.length := by
    have hlength := congrArg List.length h
    rw [List.length_drop, List.length_append] at hlength
    omega
  have hnameOffset : u64 (offset + cpioHeaderSize) = offset + cpioHeaderSize :=
    u64_of_lt (by omega)
  have hnameEnd : u64 (offset + cpioHeaderSize + (entry.name.length + 1)) =
      offset + cpioHeaderSize + (entry.name.length + 1) := u64_of_lt (by omega)
  have halign : alignUpToFour (offset + cpioHeaderSize + (entry.name.length + 1)) =
      offset + entry.dataStart := by
    rw [alignUpToFour_of_lt _ (by omega)]
    omega
  have hdataEnd : u64 (offset + entry.dataStart + entry.data.length) =
      offset + entry.dataStart + entry.data.length := u64_of_lt (by omega)
  have hend : alignUpToFour (offset + entry.dataStart + entry.data.length) =
      offset + (entry.encode upper).length := by
    rw [alignUpToFour_of_lt _ (by omega)]
    omega
  have hbounds : ¬(archive.length < offset + cpioHeaderSize + (entry.name.length + 1) ∨
      archive.length < offset + entry.dataStart ∨
      archive.length < offset + entry.dataStart + entry.data.length ∨
      archive.length < offset + (entry.encode upper).length) := by omega
  obtain ⟨behind, hdrop⟩ := entry.drop_name h
  have hlast : archive[offset + cpioHeaderSize + (entry.name.length + 1 - 1)]? = some 0 := by
    rw [← List.getElem?_drop, hdrop, Nat.add_sub_cancel,
      List.getElem?_append_right (Nat.le_refl _), Nat.sub_self, List.getElem?_cons_zero]
  simp only [parseBody, hnameOffset, hnameEnd, halign, hdataEnd, hend]
  rw [if_neg hbounds, hlast, Option.bind_some, if_neg fun hne => hne rfl,
    matchesLiteral_name (by decide) hdrop, Option.map_some, CpioEntry.namesTrailer]

/-- Parsing at an entry of the archive finds the trailer when the name begins like it, and otherwise
gives the entry; the next one begins behind its bytes. -/
theorem parseEntryAtOffset_encode :
    parseEntryAtOffset archive offset = some
      (if entry.namesTrailer then .trailer (offset + (entry.encode upper).length)
      else .entry ⟨offset + cpioHeaderSize, offset + entry.dataStart, entry.data.length,
        entry.mode.toNat, .decodeEntryType entry.mode.toNat⟩
        (offset + (entry.encode upper).length)) := by
  have hlength : entry.fields.length = 13 := rfl
  have hname := entry.parseHexField_field h 11 (by omega) entry.name_lt
  have hfile := entry.parseHexField_field h 6 (by omega) entry.data_lt
  have hmode := entry.parseHexField_field h 1 (by omega) entry.mode.toNat_lt
  rw [parseEntryAtOffset, entry.matchesMagic_encode h]
  change (parseHexField archive (offset + cpioNameSizeOffset)) = _ at hname
  change (parseHexField archive (offset + cpioFileSizeOffset)) = _ at hfile
  change (parseHexField archive (offset + cpioModeOffset)) = _ at hmode
  rw [Option.bind_some, Bool.not_true, if_neg Bool.false_ne_true, hname, Option.bind_some, hfile,
    Option.bind_some, hmode, Option.bind_some]
  exact parseBody_encode hsize haligned h

end

/-- The entry that parsing gives stands for the one of the archive. -/
theorem CpioEntry.file_eq (h : archive.drop offset = entry.encode upper ++ rest) :
    RamFileSystemEntry.file archive ⟨offset + cpioHeaderSize, offset + entry.dataStart,
      entry.data.length, entry.mode.toNat, .decodeEntryType entry.mode.toNat⟩ = entry.file := by
  obtain ⟨behindName, hname⟩ := entry.drop_name h
  obtain ⟨behindData, hdata⟩ := entry.drop_data h
  rw [RamFileSystemEntry.file, CpioEntry.file, hname, takeWhile_name entry.name_ne_zero,
    CpioEntry.dataStart, hdata, List.take_left]

/-! ### The whole archive -/

theorem CpioEntry.length_encode_mod : (entry.encode upper).length % 4 = 0 := by
  rw [length_encode]
  omega

theorem CpioEntry.header_le (h : archive.drop offset = entry.encode upper ++ rest) :
    offset + cpioHeaderSize ≤ archive.length := by
  have hlength := congrArg List.length h
  rw [List.length_drop, List.length_append, length_encode] at hlength
  have hheader : cpioHeaderSize = 110 := rfl
  omega

/-- A round of an enumeration at an entry of the archive. -/
theorem enumerateFrom_entry {callback : EntryCallback} {rounds : ℕ}
    {called : List RamFileSystemEntry} (hsize : archive.length < 2 ^ 63) (haligned : offset % 4 = 0)
    (h : archive.drop offset = entry.encode upper ++ rest)
    (hgoes : ∀ called, EntryCallback.stops callback called = false) :
    enumerateFrom archive callback (rounds + 1) offset called =
      if entry.namesTrailer then some (true, called)
      else enumerateFrom archive callback rounds (offset + (entry.encode upper).length)
        (called ++ [⟨offset + cpioHeaderSize, offset + entry.dataStart, entry.data.length,
          entry.mode.toNat, .decodeEntryType entry.mode.toNat⟩]) := by
  have hfits := entry.header_le h
  have hheader : cpioHeaderSize = 110 := rfl
  rw [enumerateFrom, u64_of_lt (show offset + cpioHeaderSize < 2 ^ 64 by omega), if_pos hfits,
    parseEntryAtOffset_encode hsize haligned h]
  by_cases htrailer : entry.namesTrailer = true
  · rw [if_pos htrailer, if_pos htrailer]
    rfl
  · rw [if_neg htrailer, if_neg htrailer, Option.bind_some]
    dsimp only
    rw [hgoes, if_neg Bool.false_ne_true]

/-- An enumeration from an entry of the archive on meets the entries up to the first one that is
taken for the trailer. -/
theorem enumerateFrom_encode {callback : EntryCallback} {entries : List CpioEntry}
    {padding : List UInt8} {rounds : ℕ} {called : List RamFileSystemEntry}
    (hsize : archive.length < 2 ^ 63) (haligned : offset % 4 = 0)
    (h : archive.drop offset = entries.flatMap (CpioEntry.encode · upper) ++
      (CpioEntry.trailer.encode upper ++ padding))
    (hgoes : ∀ called, EntryCallback.stops callback called = false)
    (hrounds : archive.length < offset + rounds) :
    ∃ met, enumerateFrom archive callback rounds offset called = some (true, called ++ met) ∧
      met.map (·.file archive) =
        (entries.takeWhile fun e => !e.namesTrailer).map CpioEntry.file := by
  induction entries generalizing offset rounds called with
  | nil =>
    have hfits := CpioEntry.trailer.header_le h
    obtain ⟨rounds, rfl⟩ : ∃ n, rounds = n + 1 := ⟨rounds - 1, by omega⟩
    have htrailer : CpioEntry.trailer.namesTrailer = true := by decide
    refine ⟨[], ?_, rfl⟩
    rw [enumerateFrom_entry hsize haligned h hgoes, if_pos htrailer, List.append_nil]
  | cons entry entries ih =>
    rw [List.flatMap_cons, List.append_assoc] at h
    have hfits := entry.header_le h
    obtain ⟨rounds, rfl⟩ : ∃ n, rounds = n + 1 := ⟨rounds - 1, by omega⟩
    rw [enumerateFrom_entry hsize haligned h hgoes]
    by_cases htrailer : entry.namesTrailer = true
    · refine ⟨[], ?_, ?_⟩
      · rw [if_pos htrailer, List.append_nil]
      · rw [List.takeWhile_cons_of_neg (by simp [htrailer])]
        rfl
    · have hmod := @CpioEntry.length_encode_mod upper entry
      have hpos : 0 < (entry.encode upper).length := by
        rw [CpioEntry.length_encode]
        omega
      have hrest : archive.drop (offset + (entry.encode upper).length) =
          entries.flatMap (·.encode upper) ++ (CpioEntry.trailer.encode upper ++ padding) := by
        rw [← List.drop_drop, h, List.drop_left]
      have hless : archive.length < offset + (entry.encode upper).length + rounds := by omega
      obtain ⟨met, hmet, hfiles⟩ := ih (by omega) hrest hless
      rw [if_neg htrailer, hmet, List.append_assoc]
      refine ⟨_, rfl, ?_⟩
      rw [List.takeWhile_cons_of_pos (by simp [htrailer]), List.singleton_append, List.map_cons,
        List.map_cons, entry.file_eq h, hfiles]

/-- An enumeration of an archive meets its entries up to the first one that is taken for the
trailer. -/
theorem CpioArchive.enumerateEntries_eq (archive : CpioArchive) {initramfsAddress : ℕ}
    {callback : EntryCallback} (haddress : initramfsAddress ≠ 0)
    (hgoes : ∀ called, EntryCallback.stops callback called = false) :
    ∃ met, enumerateEntries initramfsAddress archive.bytes callback = some (true, met) ∧
      met.map (·.file archive.bytes) =
        (archive.entries.takeWhile fun e => !e.namesTrailer).map CpioEntry.file := by
  have hsmall : ¬archive.bytes.length < cpioHeaderSize := by
    have hheader : cpioHeaderSize = 110 := rfl
    rw [bytes, List.length_append, List.length_append, CpioEntry.length_encode]
    omega
  rw [enumerateEntries, if_neg (not_or.mpr ⟨haddress, hsmall⟩)]
  exact enumerateFrom_encode archive.length_lt rfl rfl hgoes (by omega)

theorem MemoryImage.enumeratedInside (image : MemoryImage) : image.EnumeratedInside :=
  fun initramfsAddress callback => enumerateEntries_inside initramfsAddress callback image.length_lt

/-- An archive is listed exactly if and only if no name begins like the one of the trailer. -/
theorem CpioArchive.listedExactly_iff (archive : CpioArchive) :
    archive.ListedExactly ↔ ∀ entry ∈ archive.entries, ¬trailerName <+: entry.name := by
  have hnames : ∀ entry : CpioEntry, (!entry.namesTrailer) = true ↔ ¬trailerName <+: entry.name :=
    fun entry => by rw [Bool.not_eq_true', ← Bool.not_eq_true, CpioEntry.namesTrailer,
      List.isPrefixOf_iff_prefix]
  constructor
  · intro hexact
    obtain ⟨called, hcalled, hfiles⟩ := hexact 1 none (by decide) fun _ => rfl
    obtain ⟨met, hmet, hmetFiles⟩ :=
      archive.enumerateEntries_eq Nat.one_ne_zero
        fun called => (rfl : EntryCallback.stops none called = _)
    obtain rfl : called = met := (Prod.ext_iff.mp (Option.some.inj (hcalled.symm.trans hmet))).2
    have hlength := congrArg List.length (hfiles.symm.trans hmetFiles)
    rw [List.length_map, List.length_map] at hlength
    have hall : archive.entries.takeWhile (fun e => !e.namesTrailer) = archive.entries :=
      (List.takeWhile_prefix _).eq_of_length hlength.symm
    intro entry hentry
    exact (hnames entry).mp (List.takeWhile_eq_self_iff.mp hall entry hentry)
  · intro hno initramfsAddress callback haddress hgoes
    obtain ⟨met, hmet, hfiles⟩ := archive.enumerateEntries_eq haddress hgoes
    refine ⟨met, hmet, ?_⟩
    rw [hfiles, List.takeWhile_eq_self_iff.mpr fun entry hentry =>
      (hnames entry).mpr (hno entry hentry)]

/-- Enumerations read and give out only what is in the archive, and they are exact for the archives
without a name that begins like the one of the trailer. -/
theorem ramFileSystem_exact_iff (image : MemoryImage) (archive : CpioArchive) :
    image.EnumeratedInside ∧
      (archive.ListedExactly ↔ ∀ entry ∈ archive.entries, ¬trailerName <+: entry.name) :=
  ⟨image.enumeratedInside, archive.listedExactly_iff⟩

/-- An archive with one file, whose name is longer than the one of the trailer. -/
def trailerLikeArchive : CpioArchive where
  entries := [{ name := trailerName ++ [0x2E], data := [0x61], mode := 0o100644 }]
  upper := true
  padding := []
  length_lt := by decide +kernel

theorem not_listedExactly_trailerLike : ¬trailerLikeArchive.ListedExactly := by
  intro hexact
  obtain ⟨called, hcalled, hfiles⟩ := hexact 1 none (by decide) fun _ => rfl
  have hnone : enumerateEntries 1 trailerLikeArchive.bytes none = some (true, []) := by
    decide +kernel
  obtain rfl : called = [] := (Prod.ext_iff.mp (Option.some.inj (hcalled.symm.trans hnone))).2
  exact absurd (congrArg List.length hfiles) (by decide)

end TwistedOS
