import TwistedOS.Data.LittleEndian
import TwistedOS.Files.PathResolution
import TwistedOS.KernelParameters

/-!
# The records of `getdents64`

A record has a header of 19 bytes, a name with its terminator, and zero bytes up to a length that is
a multiple of 8. A reader of a buffer goes from record to record by the lengths in their headers.

## Main definitions

* `LinuxDirent64`, `LinuxDirent64.bytes`.
* `parseRecords`: the records of a buffer.

## Main results

* `parseRecords_bytes`: records that are written one after the other are read back.
-/

namespace TwistedOS

/-- `sizeof(LinuxDirent64Header)`. -/
def linuxDirent64HeaderSize : ℕ := 19

/-- `AlignUpValue(Value, 8)`. -/
def alignUpTo8 (value : ℕ) : ℕ := if value % 8 = 0 then value else value + (8 - value % 8)

/-- `BuildLinuxDirentTypeFromNode`. -/
def buildLinuxDirentTypeFromNode : FileType → UInt8
  | .dir => 4
  | .symlink => 10
  | .dev => 2
  | .file => 8

/-- A name is a C string. -/
abbrev FileName := {name : List UInt8 // stringTerminator ∉ name}

/-- `LinuxDirent64Header` with the name after it. -/
structure LinuxDirent64 where
  inode : UInt64
  offset : UInt64
  type : UInt8
  name : FileName
  deriving DecidableEq

/-- `RecordLength`, for a name. -/
def recordLength (name : FileName) : ℕ :=
  alignUpTo8 (linuxDirent64HeaderSize + name.1.length + 1)

namespace LinuxDirent64

variable (record : LinuxDirent64)

/-- The bytes of a record. Its length is stored in 16 bits. -/
def bytes : List UInt8 :=
  littleEndian 8 record.inode.toNat ++ littleEndian 8 record.offset.toNat ++
    littleEndian 2 (recordLength record.name) ++ [record.type] ++ record.name.1 ++
    List.replicate (recordLength record.name - linuxDirent64HeaderSize - record.name.1.length) 0

end LinuxDirent64

/-- The first record of a buffer, if it is well formed, with its length: the length is a multiple of
8, in the buffer, and the name ends in the record. -/
def parseRecord (buffer : List UInt8) : Option (LinuxDirent64 × ℕ) :=
  let length := littleEndianValue ((buffer.drop 16).take 2)
  let body := (buffer.take length).drop linuxDirent64HeaderSize
  if length % 8 = 0 ∧ linuxDirent64HeaderSize < length ∧ length ≤ buffer.length ∧
      stringTerminator ∈ body then
    some (⟨UInt64.ofNat (littleEndianValue (buffer.take 8)),
      UInt64.ofNat (littleEndianValue ((buffer.drop 8).take 8)), buffer.getD 18 0,
      ⟨body.takeWhile (· ≠ stringTerminator), fun hmem => by
        simpa using List.mem_takeWhile_imp hmem⟩⟩, length)
  else none

theorem parseRecord_length {buffer : List UInt8} {parsed : LinuxDirent64 × ℕ}
    (h : parseRecord buffer = some parsed) : 0 < parsed.2 ∧ parsed.2 ≤ buffer.length := by
  rw [parseRecord] at h
  split_ifs at h with hwell
  rw [← Option.some_inj.mp h]
  exact ⟨Nat.zero_lt_of_lt hwell.2.1, hwell.2.2.1⟩

/-- The records that fill a buffer, if it has such. -/
def parseRecords (buffer : List UInt8) : Option (List LinuxDirent64) :=
  if buffer = [] then some []
  else
    match _h : parseRecord buffer with
    | none => none
    | some (record, length) => (parseRecords (buffer.drop length)).map (record :: ·)
termination_by buffer.length
decreasing_by
  have hlength := parseRecord_length _h
  rw [List.length_drop]
  omega

variable {record : LinuxDirent64} {records : List LinuxDirent64} {rest : List UInt8} {name : FileName}

theorem recordLength_mod : recordLength name % 8 = 0 := by
  rw [recordLength, alignUpTo8]
  split_ifs <;> omega

theorem le_recordLength : linuxDirent64HeaderSize + name.1.length + 1 ≤ recordLength name := by
  rw [recordLength, alignUpTo8]
  split_ifs <;> omega

theorem LinuxDirent64.length_bytes : record.bytes.length = recordLength record.name := by
  have hle := @le_recordLength record.name
  simp only [LinuxDirent64.bytes, List.length_append, length_littleEndian, List.length_singleton,
    List.length_replicate]
  rw [linuxDirent64HeaderSize] at *
  omega

/-- A record is read back, whatever follows it. -/
theorem parseRecord_bytes (h : recordLength record.name < 2 ^ 16) :
    parseRecord (record.bytes ++ rest) = some (record, recordLength record.name) := by
  obtain ⟨padding, hpadding⟩ := Nat.exists_eq_add_of_lt (Nat.lt_of_succ_le
    (@le_recordLength record.name))
  have hzeros : recordLength record.name - linuxDirent64HeaderSize - record.name.1.length =
      padding + 1 := by omega
  have hbytes : record.bytes = littleEndian 8 record.inode.toNat ++
      (littleEndian 8 record.offset.toNat ++ (littleEndian 2 (recordLength record.name) ++
        record.type :: (record.name.1 ++ 0 :: List.replicate padding 0))) := by
    simp only [LinuxDirent64.bytes, hzeros, List.replicate_succ, List.append_assoc,
      List.cons_append, List.nil_append]
  have hoffset : (record.bytes ++ rest).drop 8 = littleEndian 8 record.offset.toNat ++
      (littleEndian 2 (recordLength record.name) ++
        record.type :: (record.name.1 ++ 0 :: List.replicate padding 0)) ++ rest := by
    rw [hbytes, List.append_assoc]
    exact List.drop_left' length_littleEndian
  have hlength : (record.bytes ++ rest).drop 16 = littleEndian 2 (recordLength record.name) ++
      (record.type :: (record.name.1 ++ 0 :: List.replicate padding 0) ++ rest) := by
    rw [show 16 = 8 + 8 from rfl, ← List.drop_drop, hoffset, List.append_assoc, List.append_assoc]
    exact List.drop_left' length_littleEndian
  have htype : (record.bytes ++ rest).drop 18 =
      record.type :: (record.name.1 ++ 0 :: List.replicate padding 0) ++ rest := by
    rw [show 18 = 16 + 2 from rfl, ← List.drop_drop, hlength]
    exact List.drop_left' length_littleEndian
  have hvalue : littleEndianValue (((record.bytes ++ rest).drop 16).take 2) =
      recordLength record.name := by
    rw [hlength, List.take_left' length_littleEndian, littleEndianValue_littleEndian h]
  have hbody : ((record.bytes ++ rest).take (recordLength record.name)).drop
      linuxDirent64HeaderSize = record.name.1 ++ 0 :: List.replicate padding 0 := by
    have hheader : record.bytes = littleEndian 8 record.inode.toNat ++
        littleEndian 8 record.offset.toNat ++ littleEndian 2 (recordLength record.name) ++
          [record.type] ++ (record.name.1 ++ 0 :: List.replicate padding 0) := by
      simp only [hbytes, List.append_assoc, List.cons_append, List.nil_append]
    rw [List.take_left' record.length_bytes, hheader]
    exact List.drop_left' (by simp [linuxDirent64HeaderSize])
  have hname : (record.name.1 ++ 0 :: List.replicate padding 0).takeWhile
      (· ≠ stringTerminator) = record.name.1 := by
    have hinner : ∀ byte ∈ record.name.1, decide (byte ≠ stringTerminator) = true :=
      fun byte hbyte => decide_eq_true fun heq => record.name.2 (heq ▸ hbyte)
    rw [List.takeWhile_append_of_pos hinner, List.takeWhile_cons_of_neg (by decide),
      List.append_nil]
  have hle := @le_recordLength record.name
  have hwhole : recordLength record.name ≤ (record.bytes ++ rest).length := by
    rw [List.length_append, record.length_bytes]
    exact Nat.le_add_right ..
  have htypeAt : (record.bytes ++ rest).getD 18 0 = record.type := by
    rw [List.getD_eq_getElem?_getD, ← Nat.add_zero 18, ← List.getElem?_drop, htype]
    rfl
  have hinodeValue : littleEndianValue ((record.bytes ++ rest).take 8) = record.inode.toNat := by
    rw [hbytes, List.append_assoc, List.take_left' length_littleEndian,
      littleEndianValue_littleEndian record.inode.toNat_lt]
  have hoffsetValue : littleEndianValue (((record.bytes ++ rest).drop 8).take 8) =
      record.offset.toNat := by
    rw [hoffset, List.append_assoc, List.take_left' length_littleEndian,
      littleEndianValue_littleEndian record.offset.toNat_lt]
  simp only [parseRecord, hvalue, hbody, htypeAt, hinodeValue, hoffsetValue, hname,
    UInt64.ofNat_toNat]
  rw [if_pos ⟨recordLength_mod, by omega, hwhole, by simp [stringTerminator]⟩]

/-- Records that fill a buffer are read back. -/
theorem parseRecords_bytes (h : ∀ record ∈ records, recordLength record.name < 2 ^ 16) :
    parseRecords (records.map LinuxDirent64.bytes).flatten = some records := by
  induction records with
  | nil => rw [List.map_nil, List.flatten_nil, parseRecords, if_pos rfl]
  | cons record records ih =>
    have hne : record.bytes ++ (records.map LinuxDirent64.bytes).flatten ≠ [] := fun hnil => by
      have hlength := congrArg List.length hnil
      have hle := @le_recordLength record.name
      rw [List.length_append, record.length_bytes, List.length_nil] at hlength
      omega
    rw [List.map_cons, List.flatten_cons, parseRecords, if_neg hne]
    have hparse := @parseRecord_bytes record (records.map LinuxDirent64.bytes).flatten
      (h record (List.mem_cons_self ..))
    split
    · rename_i hnone
      rw [hparse] at hnone
      exact absurd hnone (Option.some_ne_none _)
    · rename_i hsome
      rw [hparse, Option.some_inj, Prod.mk.injEq] at hsome
      obtain ⟨rfl, rfl⟩ := hsome
      rw [List.drop_left' record.length_bytes,
        ih fun r hr => h r (List.mem_cons_of_mem _ hr), Option.map_some]

end TwistedOS
