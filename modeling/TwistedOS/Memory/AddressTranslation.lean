import TwistedOS.Memory.PageMapping

/-!
# Address translation

The processor translates a virtual address by walking through the tables of four levels: an entry
that is not present ends the walk without a result, a large page at the second or third level and
any entry of the last level end it with a page of physical memory. A page may be accessed by user
mode, or written, if every entry on the way allows it.

## Main definitions

* `PhysicalMemoryManager.translation`: the translation of a virtual address.
* `PhysicalMemoryManager.PageTree`: tables that do not overlap, with access bits that are set as
  `MapPage` sets them.
* `PhysicalMemoryManager.FitsEntries`: tables and large pages below `MAX_SUPPORTED_PHYSICAL_ADDR`.

## Main results

* `translationEntry_splitGigaPage`, `translationEntry_splitMegaPage`: the entries that replace a
  large page.
* `framePage_splitGigaPage`, `framePage_splitMegaPage`: they lead to the same pages.
-/

namespace TwistedOS

open RadixTree

/-! ### Entries -/

/-- What an entry means to the processor at a level. -/
def translationEntry (depth entry : ℕ) : RadixEntry ℕ ℕ PageTag :=
  if entryPresent entry = false then .empty
  else if depth = 0 ∨ depth < 3 ∧ entrySize entry = false then
    .table (entryAddress entry) (pageTag entry)
  else .leaf (entryAddress entry) (pageTag entry)

@[simp] theorem translationEntry_zero (depth : ℕ) : translationEntry depth 0 = .empty := by
  simp [translationEntry]

@[simp] theorem entryWriteable_buildNonLeafEntryValue (address flags : ℕ) (user : Bool) :
    entryWriteable (buildNonLeafEntryValue address flags user) = true := by
  simp [entryWriteable, testBit_buildNonLeafEntryValue]

theorem translationEntry_nonLeaf {depth address : ℕ} (hdepth : depth < 3)
    (halign : address % pageSize = 0) (hlt : address < 2 ^ 32) (flags : ℕ) (user : Bool) :
    translationEntry depth (buildNonLeafEntryValue address flags user) =
      .table address ⟨entryUserAccess flags || user, true⟩ := by
  rw [translationEntry, if_neg (by simp), if_pos (by simp [hdepth]),
    entryAddress_buildNonLeafEntryValue halign hlt, pageTag,
    entryUserAccess_buildNonLeafEntryValue, entryWriteable_buildNonLeafEntryValue]

/-- The entry of the last level that maps a page. -/
theorem translationEntry_leaf {address : ℕ} (halign : address % pageSize = 0)
    (hlt : address < 2 ^ 32) (flags : ℕ) (user writeable : Bool) :
    translationEntry 3 (buildLeafEntryValue address flags user writeable) =
      .leaf address ⟨user, writeable⟩ := by
  rw [translationEntry, if_neg (by simp), if_neg (by omega),
    entryAddress_buildLeafEntryValue halign hlt, pageTag, entryUserAccess_buildLeafEntryValue,
    entryWriteable_buildLeafEntryValue]

/-- What a table entry says about the word. -/
theorem translationEntry_eq_table {depth entry c : ℕ} {g : PageTag}
    (h : translationEntry depth entry = .table c g) :
    entryPresent entry = true ∧ (depth = 0 ∨ depth < 3 ∧ entrySize entry = false) ∧
      c = entryAddress entry ∧ g = pageTag entry := by
  unfold translationEntry at h
  split_ifs at h with hpresent htable
  obtain ⟨rfl, rfl⟩ := RadixEntry.table.inj h
  exact ⟨by simpa using hpresent, htable, rfl, rfl⟩

theorem translationEntry_eq_leaf {depth entry b : ℕ} {g : PageTag}
    (h : translationEntry depth entry = .leaf b g) :
    entryPresent entry = true ∧ ¬ (depth = 0 ∨ depth < 3 ∧ entrySize entry = false) ∧
      b = entryAddress entry ∧ g = pageTag entry := by
  unfold translationEntry at h
  split_ifs at h with hpresent htable
  obtain ⟨rfl, rfl⟩ := RadixEntry.leaf.inj h
  exact ⟨by simpa using hpresent, htable, rfl, rfl⟩

/-! ### Large pages -/

/-- Clearing the low bits rounds down. -/
theorem clearBits_two_pow_sub_one (value k : ℕ) :
    clearBits value (2 ^ k - 1) = value / 2 ^ k * 2 ^ k := by
  refine Nat.eq_of_testBit_eq fun i => ?_
  rw [testBit_clearBits, Nat.testBit_two_pow_sub_one, Nat.testBit_mul_two_pow,
    Nat.testBit_div_two_pow]
  by_cases hi : k ≤ i
  · simp [hi, Nat.sub_add_cancel hi]
  · simp [hi, Nat.lt_of_not_le hi]

/-- A page below 4 GiB fits into an entry. -/
theorem and_validPhysicalAddrMask {address : ℕ} (halign : address % pageSize = 0)
    (hlt : address < 2 ^ 32) : address &&& validPhysicalAddrMask = address := by
  refine Nat.eq_of_testBit_eq fun i => ?_
  rw [Nat.testBit_and, testBit_validPhysicalAddrMask]
  by_cases hi : 12 ≤ i ∧ i < 32
  · simp [hi]
  · rw [testBit_page halign hlt hi, Bool.false_and]

theorem entryAddress_mod (entry : ℕ) : entryAddress entry % pageSize = 0 := by
  refine Nat.eq_of_testBit_eq fun i => ?_
  rw [show pageSize = 2 ^ 12 from rfl, Nat.testBit_mod_two_pow, entryAddress, Nat.testBit_and,
    testBit_physPageAddrMask, Nat.zero_testBit]
  by_cases hi : i < 12
  · simp [Nat.not_le.mpr hi]
  · simp [hi]

/-- The large page of an entry, without the bits of the entry that are not part of its address. -/
private theorem largePageBase {entry : ℕ} (k : ℕ) (hlt : entryAddress entry < 2 ^ 32) :
    clearBits (entry &&& physPageAddrMask &&& validPhysicalAddrMask) (2 ^ k - 1) =
      entryAddress entry / 2 ^ k * 2 ^ k := by
  change clearBits (entryAddress entry &&& validPhysicalAddrMask) _ = _
  rw [and_validPhysicalAddrMask (entryAddress_mod entry) hlt, clearBits_two_pow_sub_one]

/-- A page below 4 GiB with flags that make it a large page. -/
private theorem translationEntry_or {address flags : ℕ} (halign : address % pageSize = 0)
    (hlt : address < 2 ^ 32) (hflags : flags < 2 ^ 12) (hpresent : flags.testBit 0 = true)
    (hsize : flags.testBit 7 = true) :
    translationEntry 2 (address ||| flags) =
      .leaf address ⟨flags.testBit 2, flags.testBit 1⟩ := by
  have hlow : ∀ i < 12, (address ||| flags).testBit i = flags.testBit i := by
    intro i hi
    rw [Nat.testBit_or, testBit_page halign hlt (by omega), Bool.false_or]
  have haddress : entryAddress (address ||| flags) = address := by
    refine entryAddress_eq halign hlt fun i hlo hhi => ?_
    have hflag : flags.testBit i = false :=
      Nat.testBit_eq_false_of_lt (hflags.trans_le (Nat.pow_le_pow_right (by decide) hlo))
    rw [Nat.testBit_or, hflag, Bool.or_false]
    by_cases hi : i < 32
    · simp [hi]
    · rw [testBit_page halign hlt (by omega), Bool.and_false]
  have hentrySize : entrySize (address ||| flags) = true := by
    rw [entrySize, hlow 7 (by decide), hsize]
  rw [translationEntry, if_neg, if_neg, haddress, pageTag, entryUserAccess, entryWriteable,
    hlow 2 (by decide), hlow 1 (by decide)]
  · simp [hentrySize]
  · rw [entryPresent, hlow 0 (by decide), hpresent]
    decide

namespace PhysicalMemoryManager

/-- The entries that replace a page of 1 GiB. -/
theorem translationEntry_splitGigaPage {entry : ℕ} (hlt : entryAddress entry < 2 ^ 32)
    (j : Fin 512) : translationEntry 2 (splitGigaPage entry j) =
      .leaf (entryAddress entry / 2 ^ 30 * 2 ^ 30 + j * 2 ^ 21) (pageTag entry) := by
  have hbase : clearBits (entry &&& physPageAddrMask &&& validPhysicalAddrMask)
      (0x40000000 - 1) = entryAddress entry / 2 ^ 30 * 2 ^ 30 := largePageBase 30 hlt
  have hj := j.isLt
  have halign : (entryAddress entry / 2 ^ 30 * 2 ^ 30 + j * 2 ^ 21) % pageSize = 0 := by
    simp only [pageSize]
    omega
  have hpage : entryAddress entry / 2 ^ 30 * 2 ^ 30 + j * 2 ^ 21 < 2 ^ 32 := by omega
  rw [splitGigaPage, hbase, show (0x200000 : ℕ) = 2 ^ 21 from rfl,
    and_validPhysicalAddrMask halign hpage, pageTag]
  generalize entryAddress entry / 2 ^ 30 * 2 ^ 30 + j * 2 ^ 21 = page at halign hpage ⊢
  cases entryWriteable entry <;> cases entryUserAccess entry <;>
    simp only [↓reduceIte, Bool.false_eq_true, Nat.or_assoc] <;>
    exact translationEntry_or halign hpage (by decide) (by decide) (by decide)

/-- The entries that replace a page of 2 MiB. -/
theorem translationEntry_splitMegaPage {entry : ℕ} (hlt : entryAddress entry < 2 ^ 32)
    (j : Fin 512) : translationEntry 3 (splitMegaPage entry j) =
      .leaf (entryAddress entry / 2 ^ 21 * 2 ^ 21 + j * 2 ^ 12) (pageTag entry) := by
  have hbase : clearBits (entry &&& physPageAddrMask &&& validPhysicalAddrMask) (0x200000 - 1) =
      entryAddress entry / 2 ^ 21 * 2 ^ 21 := largePageBase 21 hlt
  have hj := j.isLt
  rw [splitMegaPage, hbase, show pageSize = 2 ^ 12 from rfl, translationEntry_leaf _ (by omega),
    pageTag]
  simp only [pageSize]
  omega

end PhysicalMemoryManager

/-! ### Pages -/

/-- The page at which a walk ends: what is left of the path chooses a page within a large one. -/
def framePage (address : ℕ) : List (Fin 512) → ℕ
  | [] => address
  | [pt] => address / 2 ^ 21 * 2 ^ 21 + pt * 2 ^ 12
  | pd :: pt :: _ => address / 2 ^ 30 * 2 ^ 30 + pd * 2 ^ 21 + pt * 2 ^ 12

theorem framePage_splitGigaPage (address : ℕ) (pd pt : Fin 512) :
    framePage (address / 2 ^ 30 * 2 ^ 30 + pd * 2 ^ 21) [pt] = framePage address [pd, pt] := by
  have hpd := pd.isLt
  have hdvd : (address / 2 ^ 30 * 2 ^ 30 + pd * 2 ^ 21) / 2 ^ 21 * 2 ^ 21 =
      address / 2 ^ 30 * 2 ^ 30 + pd * 2 ^ 21 := by omega
  simp only [framePage, hdvd]

theorem framePage_splitMegaPage (address : ℕ) (pt : Fin 512) :
    framePage (address / 2 ^ 21 * 2 ^ 21 + pt * 2 ^ 12) [] = framePage address [pt] := rfl

/-- The physical page to which a virtual page is translated, and who may access it. -/
structure Translation where
  page : ℕ
  userAccess : Bool
  writeable : Bool
  deriving DecidableEq, Repr

/-- The result of a walk: every entry on the way must allow an access. -/
def translationOf (walk : List PageTag × ℕ × List (Fin 512)) : Translation where
  page := framePage walk.2.1 walk.2.2
  userAccess := walk.1.all PageTag.userAccess
  writeable := walk.1.all PageTag.writeable

namespace PhysicalMemoryManager

/-- What the entries of the tables mean to the processor. -/
def translationEntries (m : PhysicalMemoryManager) (depth table : ℕ) (index : Fin 512) :
    RadixEntry ℕ ℕ PageTag :=
  translationEntry depth (m.entry table index)

/-- The translation of a virtual address, of which the bits 12 to 47 count. -/
def translation (m : PhysicalMemoryManager) (root virtualAddress : ℕ) : Option Translation :=
  (lookup m.translationEntries 0 root (pagePath virtualAddress)).map translationOf

/-- The tables below `root` do not overlap, every entry that leads to a table is writeable, and an
entry that user mode may use is reached through such entries. -/
structure PageTree (m : PhysicalMemoryManager) (root : ℕ) : Prop where
  root_mod : root % pageSize = 0
  tree : IsTree m.translationEntries root
  writeable : ∀ p t i c g, reach m.translationEntries 0 root p = some t →
    m.translationEntries p.length t i = .table c g → g.writeable = true
  user : ∀ p t i c g, reach m.translationEntries 0 root p = some t →
    m.translationEntries p.length t i = .table c g →
    ∀ j g', (m.translationEntries (p.length + 1) c j).tag? = some g' → g'.userAccess = true →
      g.userAccess = true

/-- All tables and large pages lie below `MAX_SUPPORTED_PHYSICAL_ADDR`. -/
structure FitsEntries (m : PhysicalMemoryManager) (root : ℕ) : Prop where
  table_lt : ∀ p t, reach m.translationEntries 0 root p = some t → t < 2 ^ 32
  large_lt : ∀ p t i b g, p.length < 3 → reach m.translationEntries 0 root p = some t →
    m.translationEntries p.length t i = .leaf b g → b < 2 ^ 32

/-- The blocks of `live` are allocated, and no table is a page that the allocator may give out. -/
structure TablesInUse (m : PhysicalMemoryManager) (root : ℕ) (live : List DyadicBlock) :
    Prop where
  valid : Valid m live
  start_mod : m.memoryDescriptorInfo.physicalAddressStart % pageSize = 0
  end_le : m.pageAddress m.memoryDescriptorInfo.totalNumberOfPages ≤ pmmBuddyPhysicalLimit
  notFree : ∀ p t, reach m.translationEntries 0 root p = some t → ∀ k, m.PageFree k →
    m.pageAddress k ≠ t

end PhysicalMemoryManager

end TwistedOS
