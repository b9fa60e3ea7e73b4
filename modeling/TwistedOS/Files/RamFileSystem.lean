import TwistedOS.Data.HexDigits
import TwistedOS.KernelParameters

/-!
# The initial RAM file system

`RamFileSystemManager` reads a cpio archive of the "newc" format in place: a header of fields of
eight hexadecimal digits, the name with its zero byte, the data, each padded to a multiple of four
bytes. An entry is given to a callback by the addresses of its name and its data, here by their
places in the archive. A byte is read through `archive[place]?`, and a read outside the archive is
no result; neither is an enumeration that goes on for more rounds than the archive has bytes.

## Main definitions

* `parseEntryAtOffset`, `enumerateEntries`.
* `RamFileSystemEntry.Inside`: name and data are in the archive.

## Main results

* `enumerateFrom_inside`: an enumeration ends, reads nothing but the archive, and gives the callback
  what lies inside it.
-/

namespace TwistedOS

/-- `RamFileSystemEntryType`. -/
inductive RamFileSystemEntryType
  | unknown
  | regularFile
  | directory
  | symbolicLink
  | other
  deriving DecidableEq, Repr

/-- `RamFileSystemEntry`. -/
structure RamFileSystemEntry where
  name : ℕ
  data : ℕ
  size : ℕ
  mode : ℕ
  type : RamFileSystemEntryType
  deriving DecidableEq, Repr

/-- `sizeof(CpioNewcHeader)`. -/
def cpioHeaderSize : ℕ := 110

/-- The offsets of the fields of a `CpioNewcHeader` that are read. -/
def cpioModeOffset : ℕ := 14

@[inherit_doc cpioModeOffset]
def cpioFileSizeOffset : ℕ := 54

@[inherit_doc cpioModeOffset]
def cpioNameSizeOffset : ℕ := 94

/-- "070701", the mark of an entry. -/
def cpioMagic : List UInt8 := [0x30, 0x37, 0x30, 0x37, 0x30, 0x31]

/-- "070702", the mark of an entry with a check sum. -/
def cpioCrcMagic : List UInt8 := [0x30, 0x37, 0x30, 0x37, 0x30, 0x32]

/-- "TRAILER!!!" -/
def trailerName : List UInt8 := [0x54, 0x52, 0x41, 0x49, 0x4C, 0x45, 0x52, 0x21, 0x21, 0x21]

/-- The loop of `ParseHexField`: the value, and whether the field is valid. -/
def parseHexDigits (archive : List UInt8) : (length field value : ℕ) → Option (ℕ × Bool)
  | 0, _, value => some (value, true)
  | length + 1, field, value =>
    archive[field]?.bind fun character =>
      if isHexDigit character then
        parseHexDigits archive length (field + 1)
          (u64 (value <<< 4) ||| hexDigitValue character)
      else some (0, false)

/-- `ParseHexField` of eight digits. -/
def parseHexField (archive : List UInt8) (field : ℕ) : Option (ℕ × Bool) :=
  parseHexDigits archive 8 field 0

/-- `MatchesLiteral` for the whole literal. -/
def matchesLiteral (archive : List UInt8) : (value : ℕ) → (literal : List UInt8) → Option Bool
  | _, [] => some true
  | value, character :: literal =>
    archive[value]?.bind fun byte =>
      if byte ≠ character then some false else matchesLiteral archive (value + 1) literal

/-- `AlignUpToFour`. -/
def alignUpToFour (value : ℕ) : ℕ := u64 (value + 3) / 4 * 4

/-- `DecodeEntryType`. -/
def RamFileSystemEntryType.decodeEntryType (mode : ℕ) : RamFileSystemEntryType :=
  let fileTypeBits := mode &&& 0o170000
  if fileTypeBits = 0o100000 then .regularFile
  else if fileTypeBits = 0o040000 then .directory
  else if fileTypeBits = 0o120000 then .symbolicLink
  else if fileTypeBits = 0 then .unknown
  else .other

/-- What `ParseEntryAtOffset` tells its caller. -/
inductive ParsedEntry
  | failed
  | trailer (nextOffset : ℕ)
  | entry (entry : RamFileSystemEntry) (nextOffset : ℕ)
  deriving DecidableEq, Repr

/-- The mark of an entry: the second one is looked for when the first one is not there. -/
def matchesMagic (archive : List UInt8) (offset : ℕ) : Option Bool :=
  (matchesLiteral archive offset cpioMagic).bind fun isMagic =>
    if isMagic then some true else matchesLiteral archive offset cpioCrcMagic

/-- The part of `ParseEntryAtOffset` behind the header. -/
def parseBody (archive : List UInt8) (offset nameSize fileSize mode : ℕ) : Option ParsedEntry :=
  let nameOffset := u64 (offset + cpioHeaderSize)
  let nameEndOffset := u64 (nameOffset + nameSize)
  let alignedNameEnd := alignUpToFour nameEndOffset
  let dataEndOffset := u64 (alignedNameEnd + fileSize)
  let entryEndOffset := alignUpToFour dataEndOffset
  if archive.length < nameEndOffset ∨ archive.length < alignedNameEnd ∨
      archive.length < dataEndOffset ∨ archive.length < entryEndOffset then some .failed
  else
    archive[nameOffset + (nameSize - 1)]?.bind fun last =>
      if last ≠ 0 then some .failed
      else
        (matchesLiteral archive nameOffset trailerName).map fun reachedTrailer =>
          if reachedTrailer then .trailer entryEndOffset
          else .entry ⟨nameOffset, alignedNameEnd, fileSize, mode, .decodeEntryType mode⟩
            entryEndOffset

/-- `ParseEntryAtOffset`. -/
def parseEntryAtOffset (archive : List UInt8) (offset : ℕ) : Option ParsedEntry :=
  (matchesMagic archive offset).bind fun isMagic =>
    if !isMagic then some .failed
    else
      (parseHexField archive (offset + cpioNameSizeOffset)).bind fun nameSize =>
        (parseHexField archive (offset + cpioFileSizeOffset)).bind fun fileSize =>
          (parseHexField archive (offset + cpioModeOffset)).bind fun mode =>
            if !(nameSize.2 && fileSize.2 && mode.2) ∨ nameSize.1 = 0 then some .failed
            else parseBody archive offset nameSize.1 fileSize.1 mode.1

/-- `RamFileSystemEntryCallback`, by the entries that it was called with so far: whether it lets the
enumeration go on. A null pointer is no callback. -/
abbrev EntryCallback := Option (List RamFileSystemEntry → Bool)

/-- The callback ends the enumeration. -/
def EntryCallback.stops (callback : EntryCallback) (called : List RamFileSystemEntry) : Bool :=
  match callback with
  | none => false
  | some continues => !continues called

/-- The loop of `EnumerateEntries`: its result, and the entries that it met. -/
def enumerateFrom (archive : List UInt8) (callback : EntryCallback) :
    (rounds offset : ℕ) → List RamFileSystemEntry → Option (Bool × List RamFileSystemEntry)
  | 0, _, _ => none
  | rounds + 1, offset, called =>
    if u64 (offset + cpioHeaderSize) ≤ archive.length then
      (parseEntryAtOffset archive offset).bind fun parsed =>
        match parsed with
        | .failed => some (false, called)
        | .trailer _ => some (true, called)
        | .entry entry nextOffset =>
          if callback.stops (called ++ [entry]) then some (true, called ++ [entry])
          else enumerateFrom archive callback rounds nextOffset (called ++ [entry])
    else some (false, called)

/-- `EnumerateEntries`, for an archive at an address. -/
def enumerateEntries (initramfsAddress : ℕ) (archive : List UInt8) (callback : EntryCallback) :
    Option (Bool × List RamFileSystemEntry) :=
  if initramfsAddress = 0 ∨ archive.length < cpioHeaderSize then some (false, [])
  else enumerateFrom archive callback (archive.length + 1) 0 []

/-- The name with its zero byte and the data are in the archive. -/
structure RamFileSystemEntry.Inside (archive : List UInt8) (entry : RamFileSystemEntry) : Prop where
  name_terminated : ∃ n, archive[entry.name + n]? = some 0
  data_le : entry.data + entry.size ≤ archive.length

variable {archive : List UInt8} {offset nameSize fileSize mode : ℕ}

/-! ### Reads -/

theorem getElem?_isSome_of_lt (h : offset < archive.length) : ∃ byte, archive[offset]? = some byte :=
  ⟨archive[offset], List.getElem?_eq_getElem h⟩

theorem parseHexDigits_bound {length field value k : ℕ} (h : field + length ≤ archive.length)
    (hvalue : value < 16 ^ k) (hk : k + length ≤ 8) :
    ∃ result, parseHexDigits archive length field value = some result ∧ result.1 < 2 ^ 32 := by
  induction length generalizing field value k with
  | zero =>
    refine ⟨_, rfl, hvalue.trans_le ?_⟩
    exact Nat.pow_le_pow_right (n := 16) (by decide) hk
  | succ length ih =>
    obtain ⟨byte, hbyte⟩ := getElem?_isSome_of_lt (show field < archive.length by omega)
    rw [parseHexDigits, hbyte, Option.bind_some]
    by_cases hdigit : isHexDigit byte = true
    · have hlt := hexDigitValue_lt hdigit
      have hpow : (16 : ℕ) ^ k ≤ 16 ^ 7 := Nat.pow_le_pow_right (by decide) (by omega)
      have hfits : value <<< 4 < 2 ^ 64 := by
        rw [Nat.shiftLeft_eq]
        omega
      rw [if_pos hdigit, u64_of_lt hfits, shiftLeft_or_digit hlt]
      refine ih (k := k + 1) (by omega) ?_ (by omega)
      rw [Nat.pow_succ]
      omega
    · rw [if_neg hdigit]
      exact ⟨_, rfl, by decide⟩

theorem parseHexField_bound (archive : List UInt8) (field : ℕ) (h : field + 8 ≤ archive.length) :
    ∃ result, parseHexField archive field = some result ∧ result.1 < 2 ^ 32 :=
  parseHexDigits_bound (k := 0) h (by decide) (by decide)

/-- A literal is compared with bytes of the archive. -/
theorem matchesLiteral_of_le {value : ℕ} {literal : List UInt8}
    (h : value + literal.length ≤ archive.length) :
    ∃ result, matchesLiteral archive value literal = some result := by
  induction literal generalizing value with
  | nil => exact ⟨true, rfl⟩
  | cons character literal ih =>
    rw [List.length_cons] at h
    obtain ⟨byte, hbyte⟩ := getElem?_isSome_of_lt (show value < archive.length by omega)
    rw [matchesLiteral, hbyte, Option.bind_some]
    by_cases hne : byte ≠ character
    · exact ⟨false, if_pos hne⟩
    · rw [if_neg hne]
      exact ih (by omega)

/-- A comparison with a literal that has no zero ends at a zero. -/
theorem matchesLiteral_of_terminated {value n : ℕ} {literal : List UInt8} (hzero : 0 ∉ literal)
    (hend : archive[value + n]? = some 0) :
    ∃ result, matchesLiteral archive value literal = some result := by
  induction literal generalizing value n with
  | nil => exact ⟨true, rfl⟩
  | cons character literal ih =>
    have hlt : value + n < archive.length := (List.getElem?_eq_some_iff.mp hend).1
    obtain ⟨byte, hbyte⟩ := getElem?_isSome_of_lt (show value < archive.length by omega)
    rw [matchesLiteral, hbyte, Option.bind_some]
    by_cases hne : byte ≠ character
    · exact ⟨false, if_pos hne⟩
    · rw [if_neg hne]
      cases n with
      | zero =>
        have hbyte' : (0 : UInt8) = byte := Option.some.inj (hend.symm.trans hbyte)
        exact absurd (hbyte'.trans (not_not.mp hne)) fun h => hzero (h ▸ List.mem_cons_self)
      | succ n =>
        refine ih (n := n) (fun hmem => hzero (List.mem_cons_of_mem _ hmem)) ?_
        rw [← hend]
        congr 1
        omega

theorem alignUpToFour_of_lt (value : ℕ) (h : value + 3 < 2 ^ 64) :
    alignUpToFour value = (value + 3) / 4 * 4 := by
  rw [alignUpToFour, u64_of_lt h]

/-! ### One entry -/

section

variable (hsize : archive.length < 2 ^ 63) (hoffset : offset + cpioHeaderSize ≤ archive.length)

include hsize hoffset

theorem parseBody_cases (hpos : 0 < nameSize) (hname : nameSize < 2 ^ 32)
    (hfile : fileSize < 2 ^ 32) :
    parseBody archive offset nameSize fileSize mode = some .failed ∨
      (∃ next, parseBody archive offset nameSize fileSize mode = some (.trailer next)) ∨
      ∃ entry next, parseBody archive offset nameSize fileSize mode = some (.entry entry next) ∧
        entry.Inside archive ∧ offset < next ∧ next ≤ archive.length := by
  have hheader : cpioHeaderSize = 110 := rfl
  have hnameOffset : u64 (offset + cpioHeaderSize) = offset + cpioHeaderSize :=
    u64_of_lt (by omega)
  have hnameEnd : u64 (offset + cpioHeaderSize + nameSize) = offset + cpioHeaderSize + nameSize :=
    u64_of_lt (by omega)
  have haligned := alignUpToFour_of_lt (offset + cpioHeaderSize + nameSize) (by omega)
  have hdataEnd : u64 (alignUpToFour (offset + cpioHeaderSize + nameSize) + fileSize) =
      alignUpToFour (offset + cpioHeaderSize + nameSize) + fileSize := u64_of_lt (by omega)
  have hend := alignUpToFour_of_lt
    (alignUpToFour (offset + cpioHeaderSize + nameSize) + fileSize) (by omega)
  simp only [parseBody, hnameOffset, hnameEnd, hdataEnd]
  by_cases hbounds : archive.length < offset + cpioHeaderSize + nameSize ∨
      archive.length < alignUpToFour (offset + cpioHeaderSize + nameSize) ∨
      archive.length < alignUpToFour (offset + cpioHeaderSize + nameSize) + fileSize ∨
      archive.length <
        alignUpToFour (alignUpToFour (offset + cpioHeaderSize + nameSize) + fileSize)
  · exact .inl (if_pos hbounds)
  rw [if_neg hbounds]
  simp only [not_or, Nat.not_lt] at hbounds
  obtain ⟨byte, hbyte⟩ := getElem?_isSome_of_lt
    (show offset + cpioHeaderSize + (nameSize - 1) < archive.length by omega)
  rw [hbyte, Option.bind_some]
  by_cases hlast : byte ≠ 0
  · exact .inl (if_pos hlast)
  obtain rfl : byte = 0 := not_not.mp hlast
  have hzero : 0 ∉ trailerName := by decide
  obtain ⟨reached, hreached⟩ := matchesLiteral_of_terminated hzero hbyte
  rw [if_neg hlast, hreached, Option.map_some]
  cases reached
  · exact .inr (.inr ⟨_, _, rfl, ⟨⟨_, hbyte⟩, hbounds.2.2.1⟩, by omega, hbounds.2.2.2⟩)
  · exact .inr (.inl ⟨_, rfl⟩)

/-- Parsing where a header fits reads the archive only. An entry that it finds is inside, and the
next one begins behind its start. -/
theorem parseEntryAtOffset_cases :
    parseEntryAtOffset archive offset = some .failed ∨
      (∃ next, parseEntryAtOffset archive offset = some (.trailer next)) ∨
      ∃ entry next, parseEntryAtOffset archive offset = some (.entry entry next) ∧
        entry.Inside archive ∧ offset < next ∧ next ≤ archive.length := by
  have hheader : cpioHeaderSize = 110 := rfl
  have hmagic : ∃ isMagic, matchesMagic archive offset = some isMagic := by
    have hfits : offset + cpioMagic.length ≤ archive.length := by
      simp only [cpioMagic, List.length_cons, List.length_nil]
      omega
    obtain ⟨first, hfirst⟩ := matchesLiteral_of_le hfits
    rw [matchesMagic, hfirst, Option.bind_some]
    cases first
    · exact matchesLiteral_of_le
        (by simp only [cpioCrcMagic, List.length_cons, List.length_nil]; omega)
    · exact ⟨true, rfl⟩
  obtain ⟨isMagic, hmagic⟩ := hmagic
  obtain ⟨name, hname, hnameSize⟩ := parseHexField_bound archive
    (offset + cpioNameSizeOffset) (by simp only [cpioNameSizeOffset]; omega)
  obtain ⟨file, hfile, hfileSize⟩ := parseHexField_bound archive
    (offset + cpioFileSizeOffset) (by simp only [cpioFileSizeOffset]; omega)
  obtain ⟨mode, hmode, -⟩ := parseHexField_bound archive
    (offset + cpioModeOffset) (by simp only [cpioModeOffset]; omega)
  rw [parseEntryAtOffset, hmagic, Option.bind_some]
  cases isMagic
  · exact .inl rfl
  rw [hname, hfile, hmode, Bool.not_true, if_neg Bool.false_ne_true]
  simp only [Option.bind_some]
  split_ifs with hvalid
  · exact .inl rfl
  · exact parseBody_cases hsize hoffset (Nat.pos_of_ne_zero (not_or.mp hvalid).2) hnameSize
      hfileSize

end

/-! ### The enumeration -/

/-- An enumeration ends, reads nothing but the archive, and meets only entries that lie inside
it. -/
theorem enumerateFrom_inside (callback : EntryCallback) (hsize : archive.length < 2 ^ 63)
    {rounds : ℕ} {called : List RamFileSystemEntry} (hoffset : offset ≤ archive.length)
    (hrounds : archive.length < offset + rounds) (hcalled : ∀ e ∈ called, e.Inside archive) :
    ∃ result entries, enumerateFrom archive callback rounds offset called =
      some (result, entries) ∧ ∀ e ∈ entries, e.Inside archive := by
  have hheader : cpioHeaderSize = 110 := rfl
  induction rounds generalizing offset called with
  | zero => omega
  | succ rounds ih =>
    rw [enumerateFrom, u64_of_lt (show offset + cpioHeaderSize < 2 ^ 64 by omega)]
    by_cases hfits : offset + cpioHeaderSize ≤ archive.length
    · rw [if_pos hfits]
      obtain hparsed | ⟨next, hparsed⟩ | ⟨entry, next, hparsed, hinside, hlt, hle⟩ :=
        parseEntryAtOffset_cases hsize hfits
      · rw [hparsed]
        exact ⟨_, _, rfl, hcalled⟩
      · rw [hparsed]
        exact ⟨_, _, rfl, hcalled⟩
      · have hcalled' : ∀ e ∈ called ++ [entry], e.Inside archive := by
          intro e he
          rcases List.mem_append.mp he with he | he
          · exact hcalled e he
          · exact List.mem_singleton.mp he ▸ hinside
        rw [hparsed, Option.bind_some]
        by_cases hstops : callback.stops (called ++ [entry]) = true
        · exact ⟨_, _, if_pos hstops, hcalled'⟩
        · dsimp only
          rw [if_neg hstops]
          exact ih hle (by omega) hcalled'
    · rw [if_neg hfits]
      exact ⟨_, _, rfl, hcalled⟩

theorem enumerateEntries_inside (initramfsAddress : ℕ) (callback : EntryCallback)
    (hsize : archive.length < 2 ^ 63) :
    ∃ result entries, enumerateEntries initramfsAddress archive callback =
      some (result, entries) ∧ ∀ e ∈ entries, e.Inside archive := by
  rw [enumerateEntries]
  split_ifs
  · exact ⟨_, _, rfl, by simp⟩
  · exact enumerateFrom_inside callback hsize (Nat.zero_le _) (by omega) (by simp)

end TwistedOS
