import Mathlib.Data.List.Nodup
import TwistedOS.Files.DirectoryRecords

/-!
# Listing a directory

A descriptor of a directory keeps the number of the entries that `getdents64` has passed. The
entries are `.`, `..` and the children of the dentry, in the order of its array. A new child is put
at the end; the removal of a child moves all later ones down, and a renamed child is removed and put
at the end.

An entry is known by a key; a key is not used again. Removing or renaming an entry that was passed
makes the next entry be skipped, unless none is left.

## Main definitions

* `DirectoryEntry`, `DirectoryScan`, `DirectoryScan.listing`.
* `DirectoryScan.handleGetdents64`, `DirectoryScan.apply`.
* `DirectoryScan.Admits`: the steps after which the listing is complete.
* `DirectoryScan.Listed`, `DirectoryScan.CallCorrect`.

## Main results

* `gather_eq_some`, `gather_eq_none`.
* `DirectoryScan.Scanned.apply`, `DirectoryScan.listed_run`.
-/

namespace TwistedOS

/-- What an entry of a listing is. A child is known by a number. -/
inductive ListingKey
  | dot
  | dotDot
  | child (id : ℕ)
  deriving DecidableEq, Repr

/-- A name with the inode that it stands for. -/
structure NamedNode where
  name : FileName
  node : UInt64
  nodeType : FileType
  deriving DecidableEq

/-- An entry of a listing. -/
structure DirectoryEntry extends NamedNode where
  key : ListingKey
  deriving DecidableEq

namespace DirectoryEntry

/-- `RecordLength`. -/
def recordLength (entry : DirectoryEntry) : ℕ := TwistedOS.recordLength entry.name

/-- The record of an entry at an index. -/
def record (entry : DirectoryEntry) (index : ℕ) : LinuxDirent64 where
  inode := entry.node
  offset := UInt64.ofNat (index + 1)
  type := buildLinuxDirentTypeFromNode entry.nodeType
  name := entry.name

/-- The entry under a new name. -/
def withName (entry : DirectoryEntry) (name : FileName) : DirectoryEntry := { entry with name }

end DirectoryEntry

/-- The length of all records. -/
def recordsLength (entries : List DirectoryEntry) : ℕ :=
  (entries.map DirectoryEntry.recordLength).sum

/-- The loop of `getdents64`: the entries whose records fit into a buffer, or nothing when it
reaches a record that is larger than the buffer. -/
def gather (bufferSize cursor : ℕ) : List DirectoryEntry → Option (List DirectoryEntry)
  | [] => some []
  | entry :: entries =>
    if bufferSize < entry.recordLength then none
    else if bufferSize < cursor + entry.recordLength then some []
    else (gather bufferSize (cursor + entry.recordLength) entries).map (entry :: ·)

/-- The records of entries from an index on. -/
def records : ℕ → List DirectoryEntry → List LinuxDirent64
  | _, [] => []
  | index, entry :: entries => entry.record index :: records (index + 1) entries

/-- A descriptor of a directory, with the entries that it has returned. -/
structure DirectoryScan where
  node : UInt64
  parentNode : UInt64
  children : List DirectoryEntry
  /-- The next number of a child. -/
  nextId : ℕ
  writeOnly : Bool
  /-- `CurrentOffset`. -/
  offset : ℕ
  returned : List DirectoryEntry

/-- What happens to a directory, and calls of `getdents64` on the descriptor. In a call the
allocation of a buffer may fail, and the copy to the user. -/
inductive DirectoryOperation
  | getdents64 (bufferSize : ℕ) (allocated copied : Bool)
  | create (data : NamedNode)
  | remove (id : ℕ)
  | rename (id : ℕ) (name : FileName)

section Gather

variable {bufferSize cursor index : ℕ} {entries taken : List DirectoryEntry}

@[simp] theorem recordsLength_nil : recordsLength [] = 0 := rfl

@[simp] theorem recordsLength_cons {entry : DirectoryEntry} :
    recordsLength (entry :: entries) = entry.recordLength + recordsLength entries := by
  rw [recordsLength, List.map_cons, List.sum_cons, recordsLength]

theorem DirectoryEntry.recordLength_pos (entry : DirectoryEntry) : 0 < entry.recordLength :=
  Nat.zero_lt_of_lt (@le_recordLength entry.name)

/-- The loop takes entries from the front, as many as fit; the next one fits into the buffer, but
not behind them. -/
theorem gather_eq_some (hcursor : cursor ≤ bufferSize)
    (h : gather bufferSize cursor entries = some taken) :
    taken <+: entries ∧ cursor + recordsLength taken ≤ bufferSize ∧
      ∀ next after, entries = taken ++ next :: after → next.recordLength ≤ bufferSize ∧
        bufferSize < cursor + recordsLength taken + next.recordLength := by
  induction entries generalizing cursor taken with
  | nil =>
    rw [gather, Option.some_inj] at h
    subst h
    exact ⟨List.prefix_rfl, hcursor, fun next after heq => absurd heq (by simp)⟩
  | cons entry entries ih =>
    rw [gather] at h
    split_ifs at h with hlarge hfull
    · rw [Option.some_inj] at h
      subst h
      refine ⟨List.nil_prefix, hcursor, fun next after heq => ?_⟩
      obtain ⟨rfl, -⟩ := List.cons_eq_cons.mp heq
      exact ⟨Nat.le_of_not_lt hlarge, hfull⟩
    · obtain ⟨rest, hrest, rfl⟩ := Option.map_eq_some_iff.mp h
      obtain ⟨hfront, hfits, hnext⟩ := ih (Nat.le_of_not_lt hfull) hrest
      rw [recordsLength_cons, ← Nat.add_assoc]
      refine ⟨(List.prefix_cons_inj entry).mpr hfront, hfits, fun next after heq => ?_⟩
      rw [List.cons_append, List.cons_eq_cons] at heq
      exact hnext next after heq.2

/-- The loop fails when it reaches a record that is larger than the buffer. -/
theorem gather_eq_none (hcursor : cursor ≤ bufferSize)
    (h : gather bufferSize cursor entries = none) : ∃ before entry after,
      entries = before ++ entry :: after ∧ cursor + recordsLength before ≤ bufferSize ∧
        bufferSize < entry.recordLength := by
  induction entries generalizing cursor with
  | nil => exact absurd h (Option.some_ne_none _)
  | cons entry entries ih =>
    rw [gather] at h
    split_ifs at h with hlarge hfull
    · exact ⟨[], entry, entries, rfl, hcursor, hlarge⟩
    · obtain ⟨before, next, after, rfl, hfits, hnext⟩ :=
        ih (Nat.le_of_not_lt hfull) (Option.map_eq_none_iff.mp h)
      refine ⟨entry :: before, next, after, rfl, ?_, hnext⟩
      rwa [recordsLength_cons, ← Nat.add_assoc]

theorem mem_records {record : LinuxDirent64} (h : record ∈ records index entries) :
    ∃ entry ∈ entries, record.name = entry.name := by
  induction entries generalizing index with
  | nil => exact absurd h List.not_mem_nil
  | cons entry entries ih =>
    rcases List.mem_cons.mp h with rfl | h
    · exact ⟨entry, List.mem_cons_self .., rfl⟩
    · obtain ⟨other, hother, hname⟩ := ih h
      exact ⟨other, List.mem_cons_of_mem _ hother, hname⟩

theorem length_records : ((records index entries).map LinuxDirent64.bytes).flatten.length =
    recordsLength entries := by
  induction entries generalizing index with
  | nil => rfl
  | cons entry entries ih =>
    rw [records, List.map_cons, List.flatten_cons, List.length_append, ih, recordsLength_cons,
      LinuxDirent64.length_bytes]
    rfl

/-- Each entry that is taken has others before it that fit. -/
theorem exists_of_mem_prefix (h : taken <+: entries) {entry : DirectoryEntry}
    (hentry : entry ∈ taken) : ∃ before after, entries = before ++ entry :: after ∧
      recordsLength before + entry.recordLength ≤ recordsLength taken := by
  obtain ⟨rest, rfl⟩ := h
  obtain ⟨before, after, rfl⟩ := List.append_of_mem hentry
  refine ⟨before, after ++ rest, by simp, ?_⟩
  rw [recordsLength, recordsLength, List.map_append, List.sum_append, List.map_cons, List.sum_cons]
  omega

end Gather

namespace DirectoryScan

variable (s : DirectoryScan)

/-- A new descriptor. -/
def start (node parentNode : UInt64) (writeOnly : Bool) (entries : List NamedNode) :
    DirectoryScan where
  node := node
  parentNode := parentNode
  children := entries.zipIdx.map fun entry => ⟨entry.1, .child entry.2⟩
  nextId := entries.length
  writeOnly := writeOnly
  offset := 0
  returned := []

/-- The entry `.`. -/
def dotEntry : DirectoryEntry := ⟨⟨⟨[pathDot], by decide⟩, s.node, .dir⟩, .dot⟩

/-- The entry `..`. -/
def dotDotEntry : DirectoryEntry := ⟨⟨⟨[pathDot, pathDot], by decide⟩, s.parentNode, .dir⟩, .dotDot⟩

/-- All entries, in the order of their indices. -/
def listing : List DirectoryEntry := s.dotEntry :: s.dotDotEntry :: s.children

/-- The entries that the descriptor has not passed. -/
def remaining : List DirectoryEntry := s.listing.drop s.offset

/-- The entries that the descriptor has passed. -/
def passed : List DirectoryEntry := s.listing.take s.offset

/-- Entries are returned. -/
def returning (entries : List DirectoryEntry) : DirectoryScan :=
  { s with offset := s.offset + entries.length, returned := s.returned ++ entries }

/-- What a call returns, with the bytes in the buffer of the user. -/
structure Getdents64Outcome where
  result : ℤ
  buffer : List UInt8
  scan : DirectoryScan

/-- `HandleGetdents64SystemCall`. -/
def handleGetdents64 (bufferSize : ℕ) (allocated copied : Bool) : Getdents64Outcome :=
  if bufferSize = 0 then ⟨0, [], s⟩
  else if s.writeOnly then ⟨-9, [], s⟩
  else if 4096 < bufferSize ∧ allocated = false then ⟨-12, [], s⟩
  else
    match gather bufferSize 0 s.remaining with
    | none => ⟨-22, [], s⟩
    | some entries =>
      if entries = [] then ⟨0, [], s⟩
      else if copied = false then ⟨-14, [], s⟩
      else
        ⟨recordsLength entries, ((records s.offset entries).map LinuxDirent64.bytes).flatten,
          s.returning entries⟩

/-- `AppendChild`. -/
def appendChild (entry : DirectoryEntry) : DirectoryScan :=
  { s with children := s.children ++ [entry] }

/-- `RemoveChild`. -/
def removeChild (id : ℕ) : DirectoryScan :=
  { s with children := s.children.eraseP fun entry => entry.key = .child id }

/-- A file is created. -/
def create (data : NamedNode) : DirectoryScan :=
  { s with children := s.children ++ [⟨data, .child s.nextId⟩], nextId := s.nextId + 1 }

/-- A child is removed and put at the end, under a new name. -/
def rename (id : ℕ) (name : FileName) : DirectoryScan :=
  match s.children.find? fun entry => entry.key = .child id with
  | none => s
  | some entry => (s.removeChild id).appendChild (entry.withName name)

/-- A step. -/
def apply : DirectoryOperation → DirectoryScan
  | .getdents64 bufferSize allocated copied => (s.handleGetdents64 bufferSize allocated copied).scan
  | .create data => s.create data
  | .remove id => s.removeChild id
  | .rename id name => s.rename id name

/-- A run. -/
def run (s : DirectoryScan) (operations : List DirectoryOperation) : DirectoryScan :=
  operations.foldl apply s

/-- A call reaches no record larger than its buffer but the first one, and no record whose length
does not fit into 16 bits. An entry that is removed or renamed was not passed, or no entry is
left. -/
def Admits (s : DirectoryScan) : DirectoryOperation → Prop
  | .getdents64 bufferSize _ _ =>
    ∀ before entry after, s.remaining = before ++ entry :: after →
      recordsLength before ≤ bufferSize →
        (before ≠ [] → entry.recordLength ≤ bufferSize) ∧
          (recordsLength before + entry.recordLength ≤ bufferSize → entry.recordLength < 2 ^ 16)
  | .create _ => True
  | .remove id => s.remaining = [] ∨ ∀ entry ∈ s.passed, entry.key ≠ .child id
  | .rename id _ => s.remaining = [] ∨ ∀ entry ∈ s.passed, entry.key ≠ .child id

/-- Every step of a run is admitted. -/
def AllAdmitted (s : DirectoryScan) : List DirectoryOperation → Prop
  | [] => True
  | operation :: operations => s.Admits operation ∧ AllAdmitted (s.apply operation) operations

/-- No entry is returned twice; when the descriptor has passed all entries, each one that was there
from the start was returned. -/
structure Listed (initial s : DirectoryScan) : Prop where
  once : (s.returned.map DirectoryEntry.key).Nodup
  complete : s.remaining = [] → ∀ entry ∈ s.listing,
    entry.key ∈ initial.listing.map DirectoryEntry.key →
      (s.returned.map DirectoryEntry.key).count entry.key = 1

/-- A call returns the next entries: its buffer is filled by their records. An error returns none,
and `EINVAL` says that the next record does not fit. A zero says that no entry is left, or that the
buffer has no byte. -/
structure CallCorrect (bufferSize : ℕ) (outcome : Getdents64Outcome) : Prop where
  entries : ∃ entries, outcome.scan = s.returning entries ∧ entries <+: s.remaining ∧
    parseRecords outcome.buffer = some (records s.offset entries) ∧
      (outcome.result ≤ 0 → entries = [])
  filled : 0 ≤ outcome.result → outcome.result = outcome.buffer.length
  fits : outcome.buffer.length ≤ bufferSize
  invalid : outcome.result = -22 → ∃ entry after, s.remaining = entry :: after ∧
    bufferSize < entry.recordLength
  finished : outcome.result = 0 → bufferSize = 0 ∨ s.remaining = []

/-! ### Calls -/

variable {s} {bufferSize : ℕ} {allocated copied : Bool}

theorem CallCorrect.idle {result : ℤ} (hinvalid : result ≠ -22)
    (hzero : result = 0 → bufferSize = 0 ∨ s.remaining = []) (hresult : result ≤ 0) :
    s.CallCorrect bufferSize ⟨result, [], s⟩ where
  entries := ⟨[], by simp [returning], List.nil_prefix, by rw [parseRecords, if_pos rfl]; rfl,
    fun _ => rfl⟩
  filled h := le_antisymm hresult h
  fits := Nat.zero_le _
  invalid h := absurd h hinvalid
  finished := hzero

/-- A call that is admitted is correct. -/
theorem callCorrect_handleGetdents64
    (h : s.Admits (.getdents64 bufferSize allocated copied)) :
    s.CallCorrect bufferSize (s.handleGetdents64 bufferSize allocated copied) := by
  rw [handleGetdents64]
  by_cases hzero : bufferSize = 0
  · rw [if_pos hzero]
    exact .idle (by decide) (fun _ => .inl hzero) le_rfl
  by_cases hwrite : s.writeOnly = true
  · rw [if_neg hzero, if_pos hwrite]
    exact .idle (by decide) (fun h => absurd h (by decide)) (by decide)
  by_cases hallocated : 4096 < bufferSize ∧ allocated = false
  · rw [if_neg hzero, if_neg hwrite, if_pos hallocated]
    exact .idle (by decide) (fun h => absurd h (by decide)) (by decide)
  rw [if_neg hzero, if_neg hwrite, if_neg hallocated]
  cases hgather : gather bufferSize 0 s.remaining with
  | none =>
    obtain ⟨before, entry, after, hremaining, hfits, hlarge⟩ :=
      gather_eq_none (Nat.zero_le _) hgather
    rw [Nat.zero_add] at hfits
    have hfirst : before = [] := by
      by_contra hne
      exact Nat.not_le_of_lt hlarge ((h before entry after hremaining hfits).1 hne)
    subst hfirst
    dsimp only
    exact ⟨⟨[], by simp [returning], List.nil_prefix, by rw [parseRecords, if_pos rfl]; rfl,
      fun _ => rfl⟩, fun hresult : (0 : ℤ) ≤ -22 => absurd hresult (by decide),
      Nat.zero_le _, fun _ => ⟨entry, after, hremaining, hlarge⟩,
      fun hresult : (-22 : ℤ) = 0 => absurd hresult (by decide)⟩
  | some entries =>
    obtain ⟨hfront, hfits, hnext⟩ := gather_eq_some (Nat.zero_le _) hgather
    rw [Nat.zero_add] at hfits hnext
    dsimp only
    split_ifs with hnil hcopied
    · refine .idle (by decide) (fun _ => .inr ?_) le_rfl
      subst hnil
      by_contra hne
      obtain ⟨next, after, heq⟩ := List.exists_cons_of_ne_nil hne
      obtain ⟨hle, hlt⟩ := hnext next after heq
      rw [recordsLength_nil, Nat.zero_add] at hlt
      omega
    · exact .idle (by decide) (fun h => absurd h (by decide)) (by decide)
    · have hpos : 0 < recordsLength entries := by
        obtain ⟨entry, rest, rfl⟩ := List.exists_cons_of_ne_nil hnil
        have := entry.recordLength_pos
        rw [recordsLength_cons]
        omega
      refine ⟨⟨entries, rfl, hfront, parseRecords_bytes fun record hrecord => ?_, fun hle => ?_⟩,
        fun _ => ?_, ?_, fun hinvalid => ?_, fun hfinished => ?_⟩
      · obtain ⟨entry, hentry, hname⟩ := mem_records hrecord
        obtain ⟨before, after, heq, hle⟩ := exists_of_mem_prefix hfront hentry
        rw [hname]
        exact (h before entry after heq (by omega)).2 (by omega)
      · dsimp only at hle
        omega
      · rw [length_records]
      · rwa [length_records]
      · dsimp only at hinvalid
        omega
      · dsimp only at hfinished
        omega

/-! ### Runs -/

/-- The keys of the children are different, and are not used again. What remains was not returned;
what was passed was, unless it is newer than the scan. -/
structure Scanned (first : ℕ) (s : DirectoryScan) : Prop where
  keys : (s.listing.map DirectoryEntry.key).Nodup
  bounded : ∀ entry ∈ s.listing ++ s.returned, ∀ id, entry.key = .child id → id < s.nextId
  first_le : first ≤ s.nextId
  once : (s.returned.map DirectoryEntry.key).Nodup
  fresh : ∀ entry ∈ s.remaining, entry.key ∉ s.returned.map DirectoryEntry.key
  passed : ∀ entry ∈ s.passed, (∀ id, entry.key = .child id → id < first) →
    entry.key ∈ s.returned.map DirectoryEntry.key

theorem passed_append_remaining : s.passed ++ s.remaining = s.listing := List.take_append_drop ..

namespace Scanned

variable {first : ℕ}

theorem returning (h : Scanned first s) {entries : List DirectoryEntry}
    (hfront : entries <+: s.remaining) : Scanned first (s.returning entries) := by
  obtain ⟨rest, hremaining⟩ := hfront
  have hlisting : s.listing = s.passed ++ (entries ++ rest) := by
    rw [hremaining, passed_append_remaining]
  have hpassed : (s.returning entries).passed = s.passed ++ entries := by
    change s.listing.take (s.offset + entries.length) = _
    rw [List.take_add, ← DirectoryScan.remaining, ← hremaining, List.take_left,
      ← DirectoryScan.passed]
  have hrest : (s.returning entries).remaining = rest := by
    change s.listing.drop (s.offset + entries.length) = _
    rw [← List.drop_drop, ← DirectoryScan.remaining, ← hremaining, List.drop_left]
  have hkeys := h.keys
  rw [hlisting, List.map_append, List.map_append, List.nodup_append', List.nodup_append'] at hkeys
  obtain ⟨-, ⟨hentries, -, hapart⟩, -⟩ := hkeys
  refine ⟨h.keys, fun entry hentry => h.bounded entry ?_, h.first_le, ?_, fun entry hentry => ?_,
    fun entry hentry hold => ?_⟩
  · change entry ∈ s.listing ++ (s.returned ++ entries) at hentry
    rw [hlisting] at hentry ⊢
    simp only [List.mem_append] at hentry ⊢
    tauto
  · change ((s.returned ++ entries).map DirectoryEntry.key).Nodup
    rw [List.map_append, List.nodup_append']
    refine ⟨h.once, hentries, fun key hreturned hnew => ?_⟩
    obtain ⟨entry, hentry, rfl⟩ := List.mem_map.mp hnew
    exact h.fresh entry (hremaining ▸ List.mem_append_left _ hentry) hreturned
  · rw [hrest] at hentry
    change entry.key ∉ (s.returned ++ entries).map DirectoryEntry.key
    rw [List.map_append, List.mem_append, not_or]
    exact ⟨h.fresh entry (hremaining ▸ List.mem_append_right _ hentry),
      fun hmem => hapart hmem (List.mem_map_of_mem hentry)⟩
  · rw [hpassed] at hentry
    change entry.key ∈ (s.returned ++ entries).map DirectoryEntry.key
    rw [List.map_append]
    rcases List.mem_append.mp hentry with hentry | hentry
    · exact List.mem_append_left _ (h.passed entry hentry hold)
    · exact List.mem_append_right _ (List.mem_map_of_mem hentry)

theorem create (h : Scanned first s) (data : NamedNode) : Scanned first (s.create data) := by
  have hlisting : (s.create data).listing = s.listing ++ [⟨data, .child s.nextId⟩] := rfl
  have hnew : ∀ entry ∈ s.listing ++ s.returned, entry.key ≠ .child s.nextId :=
    fun entry hentry hkey => Nat.lt_irrefl _ (h.bounded entry hentry _ hkey)
  refine ⟨?_, fun entry hentry id hid => ?_, h.first_le.trans (Nat.le_succ _), h.once,
    fun entry hentry => ?_, fun entry hentry hold => ?_⟩
  · rw [hlisting, List.map_append, List.nodup_append']
    refine ⟨h.keys, List.nodup_singleton _, fun key hkey hlast => ?_⟩
    obtain ⟨entry, hentry, rfl⟩ := List.mem_map.mp hkey
    exact hnew entry (List.mem_append_left _ hentry) (List.mem_singleton.mp hlast)
  · rw [hlisting, List.append_assoc, List.mem_append, List.mem_append, List.mem_singleton] at hentry
    rcases hentry with hentry | rfl | hentry
    · exact (h.bounded entry (List.mem_append_left _ hentry) id hid).trans (Nat.lt_succ_self _)
    · rw [ListingKey.child.injEq] at hid
      exact hid ▸ Nat.lt_succ_self _
    · exact (h.bounded entry (List.mem_append_right _ hentry) id hid).trans (Nat.lt_succ_self _)
  · change entry ∈ (s.listing ++ [_]).drop s.offset at hentry
    rw [List.drop_append] at hentry
    rcases List.mem_append.mp hentry with hentry | hentry
    · exact h.fresh entry hentry
    · rw [List.mem_singleton.mp (List.mem_of_mem_drop hentry)]
      intro hmem
      obtain ⟨other, hother, hkey⟩ := List.mem_map.mp hmem
      exact hnew other (List.mem_append_right _ hother) hkey
  · change entry ∈ (s.listing ++ [_]).take s.offset at hentry
    rw [List.take_append] at hentry
    rcases List.mem_append.mp hentry with hentry | hentry
    · exact h.passed entry hentry hold
    · rw [List.mem_singleton.mp (List.mem_of_mem_take hentry)] at hold
      exact absurd (hold s.nextId rfl) (Nat.not_lt_of_le h.first_le)

end Scanned

section Removal

variable {id : ℕ}

theorem listing_removeChild : (s.removeChild id).listing =
    s.listing.eraseP fun entry => entry.key = .child id := by
  have hdot : ¬decide (s.dotEntry.key = .child id) = true := by simp [dotEntry]
  have hdotDot : ¬decide (s.dotDotEntry.key = .child id) = true := by simp [dotDotEntry]
  rw [listing, listing,
    List.eraseP_cons_of_neg (p := fun entry : DirectoryEntry => entry.key = .child id) hdot,
    List.eraseP_cons_of_neg (p := fun entry : DirectoryEntry => entry.key = .child id) hdotDot]
  rfl

/-- The removal of an entry that was not passed, or when none is left. -/
theorem removeChild_parts
    (h : s.remaining = [] ∨ ∀ entry ∈ s.passed, entry.key ≠ .child id) :
    (s.removeChild id).passed ⊆ s.passed ∧ (s.removeChild id).remaining =
      s.remaining.eraseP fun entry => entry.key = .child id := by
  have hremove : s.listing.eraseP (fun entry => entry.key = .child id) ⊆ s.listing :=
    List.eraseP_subset
  by_cases hnil : s.remaining = []
  · have hle : s.listing.length ≤ s.offset := List.drop_eq_nil_iff.mp hnil
    have hpassed : s.passed = s.listing := List.take_of_length_le hle
    constructor
    · rw [hpassed]
      intro entry hentry
      have hmem := List.mem_of_mem_take hentry
      rw [listing_removeChild] at hmem
      exact hremove hmem
    · rw [hnil, List.eraseP_nil]
      refine List.drop_eq_nil_iff.mpr ?_
      rw [listing_removeChild]
      exact (List.length_eraseP_le).trans hle
  · have hkeys := h.resolve_left hnil
    have hlength : s.passed.length = s.offset := by
      refine List.length_take_of_le (Nat.le_of_lt ?_)
      exact Nat.lt_of_not_le fun hle => hnil (List.drop_eq_nil_iff.mpr hle)
    have hlisting : (s.removeChild id).listing =
        s.passed ++ s.remaining.eraseP fun entry => entry.key = .child id := by
      rw [listing_removeChild, ← passed_append_remaining, List.eraseP_append_right]
      exact fun entry hentry => by simpa using hkeys entry hentry
    constructor
    · change (s.removeChild id).listing.take s.offset ⊆ _
      rw [hlisting, List.take_left' hlength]
      exact List.Subset.refl _
    · change (s.removeChild id).listing.drop s.offset = _
      rw [hlisting, List.drop_left' hlength]

variable {first : ℕ}

section

variable (h : Scanned first s)
  (hadmits : s.remaining = [] ∨ ∀ entry ∈ s.passed, entry.key ≠ .child id)

include h hadmits

theorem Scanned.removeChild : Scanned first (s.removeChild id) := by
  obtain ⟨hpassed, hremaining⟩ := removeChild_parts hadmits
  have hsub : (s.removeChild id).listing.Sublist s.listing := by
    rw [listing_removeChild]
    exact List.eraseP_sublist
  refine ⟨h.keys.sublist (hsub.map _), fun entry hentry => h.bounded entry ?_, h.first_le, h.once,
    fun entry hentry => h.fresh entry ?_, fun entry hentry => h.passed entry (hpassed hentry)⟩
  · rcases List.mem_append.mp hentry with hentry | hentry
    · exact List.mem_append_left _ (hsub.mem hentry)
    · exact List.mem_append_right _ hentry
  · rw [hremaining] at hentry
    exact List.mem_of_mem_eraseP hentry

/-- An entry is renamed: the others keep their order, and it is the last one. -/
theorem Scanned.rename {name : FileName} : Scanned first (s.rename id name) := by
  rw [DirectoryScan.rename]
  cases hfind : s.children.find? fun entry => entry.key = .child id with
  | none => exact h
  | some renamed =>
    obtain ⟨hkey, before, after, hchildren, hbefore⟩ := List.find?_eq_some_iff_append.mp hfind
    have hkey' : renamed.key = .child id := of_decide_eq_true hkey
    have hlisting : s.listing = s.dotEntry :: s.dotDotEntry :: before ++ renamed :: after := by
      rw [listing, hchildren]
      rfl
    have hremoved : (s.removeChild id).listing =
        s.dotEntry :: s.dotDotEntry :: before ++ after := by
      rw [listing_removeChild, hlisting, List.eraseP_append_right, List.eraseP_cons_of_pos]
      · exact hkey
      · simpa [dotEntry, dotDotEntry] using hbefore
    have hnew : ((s.removeChild id).appendChild (renamed.withName name)).listing =
        (s.removeChild id).listing ++ [renamed.withName name] := rfl
    have hold : renamed ∈ s.listing := hlisting ▸ List.mem_append_right _ (List.mem_cons_self ..)
    have hbase := h.removeChild hadmits
    have hlength : (s.removeChild id).listing.length + 1 = s.listing.length := by
      rw [hremoved, hlisting]
      simp only [List.length_append, List.length_cons]
      omega
    refine ⟨?_, fun entry hentry => ?_, h.first_le, h.once, fun entry hentry => ?_,
      fun entry hentry hfirst => ?_⟩
    · have hkeys := h.keys
      rw [hlisting, List.map_append, List.map_cons (l := after), List.nodup_middle,
        ← List.map_append, ← hremoved] at hkeys
      rw [hnew, List.map_append, List.map_singleton, List.nodup_append_comm]
      exact hkeys
    · rw [hnew, List.append_assoc, List.mem_append, List.mem_append, List.mem_singleton] at hentry
      rcases hentry with hentry | rfl | hentry
      · exact hbase.bounded entry (List.mem_append_left _ hentry)
      · exact h.bounded renamed (List.mem_append_left _ hold)
      · exact h.bounded entry (List.mem_append_right _ hentry)
    · change entry ∈ ((s.removeChild id).listing ++ [renamed.withName name]).drop s.offset at hentry
      rw [List.drop_append] at hentry
      rcases List.mem_append.mp hentry with hentry | hentry
      · exact hbase.fresh entry hentry
      · rw [List.mem_singleton.mp (List.mem_of_mem_drop hentry)]
        have hlt : s.offset - (s.removeChild id).listing.length < 1 := by
          by_contra hge
          rw [List.drop_of_length_le (by rw [List.length_singleton]; omega)] at hentry
          exact List.not_mem_nil hentry
        have hmore : s.remaining ≠ [] := fun hnil => by
          have := List.drop_eq_nil_iff.mp hnil
          omega
        rw [← passed_append_remaining] at hold
        exact h.fresh renamed ((List.mem_append.mp hold).resolve_left fun hpassed =>
          hadmits.resolve_left hmore renamed hpassed hkey')
    · change entry ∈ ((s.removeChild id).listing ++ [renamed.withName name]).take s.offset at hentry
      rw [List.take_append] at hentry
      rcases List.mem_append.mp hentry with hentry | hentry
      · exact hbase.passed entry hentry hfirst
      · rw [List.mem_singleton.mp (List.mem_of_mem_take hentry)] at hfirst ⊢
        have hpos : 0 < s.offset - (s.removeChild id).listing.length := by
          by_contra hzero
          rw [Nat.eq_zero_of_not_pos hzero, List.take_zero] at hentry
          exact List.not_mem_nil hentry
        have hnone : s.remaining = [] := List.drop_eq_nil_iff.mpr (by omega)
        rw [← passed_append_remaining, hnone, List.append_nil] at hold
        exact h.passed renamed hold hfirst

end

end Removal

section Runs

variable {first : ℕ}

/-- Every admitted step keeps the scan. -/
theorem Scanned.apply (h : Scanned first s) {operation : DirectoryOperation}
    (hadmits : s.Admits operation) : Scanned first (s.apply operation) := by
  cases operation with
  | getdents64 bufferSize allocated copied =>
    obtain ⟨entries, hscan, hfront, -⟩ := (callCorrect_handleGetdents64 hadmits).entries
    rw [DirectoryScan.apply, hscan]
    exact h.returning hfront
  | create data => exact h.create data
  | remove id => exact h.removeChild hadmits
  | rename id name => exact h.rename hadmits

theorem Scanned.run (h : Scanned first s) {operations : List DirectoryOperation}
    (hadmitted : s.AllAdmitted operations) : Scanned first (s.run operations) := by
  induction operations generalizing s with
  | nil => exact h
  | cons operation operations ih => exact ih (h.apply hadmitted.1) hadmitted.2

variable {node parentNode : UInt64} {writeOnly : Bool} {entries : List NamedNode}

theorem keys_start : (start node parentNode writeOnly entries).listing.map DirectoryEntry.key =
    .dot :: .dotDot :: (List.range entries.length).map .child := by
  have hchildren : (start node parentNode writeOnly entries).children.map DirectoryEntry.key =
      (entries.zipIdx.map Prod.snd).map ListingKey.child := by
    rw [start, List.map_map, List.map_map]
    rfl
  rw [listing, List.map_cons, List.map_cons, hchildren, List.zipIdx_map_snd,
    ← List.range_eq_range']
  rfl

theorem Scanned.start : Scanned entries.length (start node parentNode writeOnly entries) where
  keys := by
    rw [keys_start]
    refine List.nodup_cons.mpr ⟨by simp, List.nodup_cons.mpr ⟨by simp, ?_⟩⟩
    exact List.nodup_range.map fun i j h => ListingKey.child.inj h
  bounded := fun entry hentry id hid => by
    have hmem := List.mem_map_of_mem (f := DirectoryEntry.key) hentry
    rw [List.map_append, keys_start, hid] at hmem
    simpa [DirectoryScan.start] using hmem
  first_le := le_rfl
  once := .nil
  fresh := fun _ _ => List.not_mem_nil
  passed := fun _ h => absurd h List.not_mem_nil

theorem Scanned.listed (h : Scanned entries.length s) :
    Listed (DirectoryScan.start node parentNode writeOnly entries) s where
  once := h.once
  complete := fun hnone entry hentry hinitial => by
    refine List.count_eq_one_of_mem h.once (h.passed entry ?_ fun id hid => ?_)
    · rw [← passed_append_remaining, hnone, List.append_nil] at hentry
      exact hentry
    · rw [keys_start, hid] at hinitial
      simpa using hinitial

/-- In a run of which every step is admitted the listing is complete, without duplicates, and every
call that is admitted then is correct. -/
theorem listed_run (node parentNode : UInt64) (writeOnly : Bool) (entries : List NamedNode)
    {operations : List DirectoryOperation}
    (hadmitted : (start node parentNode writeOnly entries).AllAdmitted operations) :
    Listed (start node parentNode writeOnly entries)
        ((start node parentNode writeOnly entries).run operations) ∧
      ∀ bufferSize allocated copied,
        ((start node parentNode writeOnly entries).run operations).Admits
            (.getdents64 bufferSize allocated copied) →
          ((start node parentNode writeOnly entries).run operations).CallCorrect bufferSize
            (((start node parentNode writeOnly entries).run operations).handleGetdents64 bufferSize
              allocated copied) :=
  ⟨(Scanned.start.run hadmitted).listed, fun _ _ _ h => callCorrect_handleGetdents64 h⟩

/-- A buffer with place for all records that are left. -/
theorem admits_of_fits {bufferSize : ℕ} (hfits : recordsLength s.remaining ≤ bufferSize)
    (hsize : bufferSize < 2 ^ 16) (allocated copied : Bool) :
    s.Admits (.getdents64 bufferSize allocated copied) := by
  intro before entry after hremaining _
  obtain ⟨front, back, heq, hle⟩ := exists_of_mem_prefix (List.prefix_refl s.remaining)
    (hremaining ▸ List.mem_append_right _ (List.mem_cons_self ..) : entry ∈ s.remaining)
  exact ⟨fun _ => by omega, fun _ => by omega⟩

end Runs

/-! ### Removals during a scan -/

/-- A file with a name of one letter. -/
def letterFile (letter : UInt8) (h : stringTerminator ∉ [letter]) : NamedNode :=
  ⟨⟨[letter], h⟩, 1, .file⟩

/-- A directory with the files `a` and `b`. -/
def twoFiles : DirectoryScan := start 1 1 false
  [letterFile 97 (by decide), letterFile 98 (by decide)]

/-- All entries are returned before one is removed. -/
theorem listed_twoFiles :
    Listed twoFiles (twoFiles.run [.getdents64 4096 true true, .remove 0]) ∧
      ∀ bufferSize allocated copied,
        (twoFiles.run [.getdents64 4096 true true, .remove 0]).Admits
            (.getdents64 bufferSize allocated copied) →
          (twoFiles.run [.getdents64 4096 true true, .remove 0]).CallCorrect bufferSize
            ((twoFiles.run [.getdents64 4096 true true, .remove 0]).handleGetdents64 bufferSize
              allocated copied) :=
  listed_run 1 1 false _ ⟨admits_of_fits (by decide) (by decide) true true,
    .inl (by decide +kernel), trivial⟩

/-- The file `a` is returned and removed, and `b` is not returned. -/
theorem not_listed_twoFiles : ¬Listed twoFiles
    (twoFiles.run [.getdents64 72 true true, .remove 0, .getdents64 72 true true]) := by
  intro h
  have hmissing := h.complete (by decide +kernel) ⟨letterFile 98 (by decide), .child 1⟩
    (by decide +kernel) (by decide +kernel)
  exact absurd hmissing (by decide +kernel)

end DirectoryScan

end TwistedOS
