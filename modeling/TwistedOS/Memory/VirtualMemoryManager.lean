import Mathlib.Data.Nat.Bitwise
import TwistedOS.Memory.PhysicalMemoryManager

/-!
# The virtual memory manager

The page tables of `VirtualMemoryManager.cpp`. The tables lie in physical memory, and an entry is
the machine word at `table + 8 * index`. Mapping a page enters the tables of the four levels one
after another; a missing table is allocated, a large page in the way is split, and a table that
user mode could not enter so far becomes accessible to it if the new page is.

## Main definitions

* `buildNonLeafEntryValue`, `buildLeafEntryValue`: the words of entries.
* `PhysicalMemoryManager.mapPage`, `PhysicalMemoryManager.protectPage`,
  `PhysicalMemoryManager.unmapPage`.
-/

namespace TwistedOS

/-! ### Entries -/

/-- `PHYS_PAGE_ADDR_MASK`. -/
def physPageAddrMask : ℕ := 0x000FFFFFFFFFF000

/-- `VALID_PHYSICAL_ADDR_MASK`. -/
def validPhysicalAddrMask : ℕ := 0x00000000FFFFF000

/-- `ENTRY_FLAG_PRESENT`. -/
def entryFlagPresent : ℕ := 1 <<< 0

/-- `ENTRY_FLAG_WRITEABLE`. -/
def entryFlagWriteable : ℕ := 1 <<< 1

/-- `ENTRY_FLAG_USER`. -/
def entryFlagUser : ℕ := 1 <<< 2

/-- The bit of an entry that makes it a large page, `ENTRY_FLAG_PAT` in the last level. -/
def entryFlagSize : ℕ := 1 <<< 7

/-- `LEAF_ALLOWED_FLAG_MASK`: the bits below the address. -/
def leafAllowedFlagMask : ℕ := 0xFFF

/-- `NON_LEAF_ALLOWED_FLAG_MASK`: the bits below the address without dirty, size and global. -/
def nonLeafAllowedFlagMask : ℕ := 0xE3F

/-- `value & ~mask`. -/
def clearBits (value mask : ℕ) : ℕ := value ^^^ (value &&& mask)

/-- `BuildNonLeafEntryValue`. -/
def buildNonLeafEntryValue (physicalAddress existingFlags : ℕ) (userAccess : Bool) : ℕ :=
  let sanitizedFlags := existingFlags &&& nonLeafAllowedFlagMask
  let sanitizedFlags := sanitizedFlags ||| (entryFlagPresent ||| entryFlagWriteable)
  let sanitizedFlags := if userAccess then sanitizedFlags ||| entryFlagUser else sanitizedFlags
  (physicalAddress &&& validPhysicalAddrMask) ||| sanitizedFlags

/-- `BuildLeafEntryValue`. -/
def buildLeafEntryValue (physicalAddress existingFlags : ℕ) (userAccess writeable : Bool) : ℕ :=
  let sanitizedFlags := existingFlags &&& leafAllowedFlagMask
  let sanitizedFlags := sanitizedFlags ||| entryFlagPresent
  let sanitizedFlags :=
    if userAccess then sanitizedFlags ||| entryFlagUser
    else clearBits sanitizedFlags entryFlagUser
  let sanitizedFlags :=
    if writeable then sanitizedFlags ||| entryFlagWriteable
    else clearBits sanitizedFlags entryFlagWriteable
  (physicalAddress &&& validPhysicalAddrMask) ||| sanitizedFlags

/-- The field `present` of an entry. -/
def entryPresent (entry : ℕ) : Bool := entry.testBit 0

/-- The field `writeable` of an entry. -/
def entryWriteable (entry : ℕ) : Bool := entry.testBit 1

/-- The field `user_access` of an entry. -/
def entryUserAccess (entry : ℕ) : Bool := entry.testBit 2

/-- The field `size` of an entry. -/
def entrySize (entry : ℕ) : Bool := entry.testBit 7

/-- The address in an entry. -/
def entryAddress (entry : ℕ) : ℕ := entry &&& physPageAddrMask

/-- `IsValidTablePhysicalAddress`. -/
def isValidTablePhysicalAddress (address : ℕ) : Bool :=
  if address = 0 then false
  else if address &&& (pageSize - 1) ≠ 0 then false
  else if address &&& 0xFFFF000000000000 ≠ 0 then false
  else decide (address < 0xC0000000)

/-- `NormalizeTablePhysicalAddress`. -/
def normalizeTablePhysicalAddress (address : ℕ) : ℕ :=
  if isValidTablePhysicalAddress address then address
  else
    let sanitizedAddress := clearBits address 0x000FF00000000000
    if isValidTablePhysicalAddress sanitizedAddress then sanitizedAddress else 0

/-- The fields `pml4_index`, `pdpt_index`, `pd_index` and `pt_index` of a virtual address. -/
def pml4Index (virtualAddress : ℕ) : ℕ := virtualAddress / 2 ^ 39 % 512

@[inherit_doc pml4Index]
def pdptIndex (virtualAddress : ℕ) : ℕ := virtualAddress / 2 ^ 30 % 512

@[inherit_doc pml4Index]
def pdIndex (virtualAddress : ℕ) : ℕ := virtualAddress / 2 ^ 21 % 512

@[inherit_doc pml4Index]
def ptIndex (virtualAddress : ℕ) : ℕ := virtualAddress / 2 ^ 12 % 512

/-- `PageMappingFlags`. -/
structure PageMappingFlags where
  userAccess : Bool
  writeable : Bool
  deriving DecidableEq, Repr

namespace PhysicalMemoryManager

/-! ### Memory -/

/-- The entry at an index of a table. -/
def entry (m : PhysicalMemoryManager) (table index : ℕ) : ℕ := m.physicalMemory (table + 8 * index)

/-- Stores an entry. -/
def storeEntry (m : PhysicalMemoryManager) (table index value : ℕ) : PhysicalMemoryManager :=
  { m with physicalMemory := Function.update m.physicalMemory (table + 8 * index) value }

/-- Fills `pages` pages with words. -/
def fillPages (m : PhysicalMemoryManager) (address pages : ℕ) (words : ℕ → ℕ) :
    PhysicalMemoryManager :=
  { m with physicalMemory := fun a =>
      if address ≤ a ∧ a < address + pages * pageSize then words ((a - address) / 8)
      else m.physicalMemory a }

/-! ### Mapping -/

/-- The entries of the page directory that replaces a page of 1 GiB. -/
def splitGigaPage (pdptEntry subIndex : ℕ) : ℕ :=
  let gigaPagePhysBase := pdptEntry &&& physPageAddrMask &&& validPhysicalAddrMask
  let gigaPagePhysBase := clearBits gigaPagePhysBase (0x40000000 - 1)
  let subPhys := gigaPagePhysBase + subIndex * 0x200000
  let entryValue := subPhys &&& validPhysicalAddrMask
  let entryValue := entryValue ||| (entryFlagPresent ||| entryFlagSize)
  let entryValue :=
    if entryWriteable pdptEntry then entryValue ||| entryFlagWriteable else entryValue
  if entryUserAccess pdptEntry then entryValue ||| entryFlagUser else entryValue

/-- The entries of the page table that replaces a page of 2 MiB. -/
def splitMegaPage (pdEntry subIndex : ℕ) : ℕ :=
  let megaPagePhysBase := pdEntry &&& physPageAddrMask &&& validPhysicalAddrMask
  let megaPagePhysBase := clearBits megaPagePhysBase (0x200000 - 1)
  let pagePhys := megaPagePhysBase + subIndex * pageSize
  buildLeafEntryValue pagePhys 0 (entryUserAccess pdEntry) (entryWriteable pdEntry)

/-- Makes an entry of one of the three upper levels present. -/
def ensurePresent (m : PhysicalMemoryManager) (table index : ℕ) (flags : PageMappingFlags) :
    PhysicalMemoryManager × Bool :=
  if entryPresent (m.entry table index) then (m, true)
  else
    match m.allocatePagesFromDescriptor 1 with
    | (m, 0) => (m, false)
    | (m, newTable) =>
      ((m.fillPages newTable 1 fun _ => 0).storeEntry table index
        (buildNonLeafEntryValue newTable 0 flags.userAccess), true)

/-- Replaces a large page by a table of smaller pages; the result is the address of the table. -/
def splitLargePage (splitEntry : ℕ → ℕ → ℕ) (m : PhysicalMemoryManager) (table index : ℕ)
    (flags : PageMappingFlags) : PhysicalMemoryManager × Option ℕ :=
  let oldEntry := m.entry table index
  match m.allocatePagesFromDescriptor 1 with
  | (m, 0) => (m, none)
  | (m, newTable) =>
    let newEntry := buildNonLeafEntryValue newTable 0 (entryUserAccess oldEntry || flags.userAccess)
    ((m.fillPages newTable 1 (splitEntry oldEntry)).storeEntry table index newEntry,
      some (entryAddress newEntry))

/-- Makes a table accessible to user mode if the new page is to be; the result is its address. -/
def grantUserAccess (m : PhysicalMemoryManager) (table index : ℕ) (flags : PageMappingFlags) :
    PhysicalMemoryManager × Option ℕ :=
  let oldEntry := m.entry table index
  if flags.userAccess && !entryUserAccess oldEntry then
    let newEntry := buildNonLeafEntryValue oldEntry oldEntry true
    (m.storeEntry table index newEntry, some (entryAddress newEntry))
  else (m, some (entryAddress oldEntry))

/-- The step of `mapPage` through one of the three upper levels: the address of the next table,
after it has been created or made accessible. `split` gives the entries that replace a large page;
the first level has none. -/
def enterTable (split : Option (ℕ → ℕ → ℕ)) (m : PhysicalMemoryManager) (table index : ℕ)
    (flags : PageMappingFlags) : PhysicalMemoryManager × Option ℕ :=
  match m.ensurePresent table index flags with
  | (m, false) => (m, none)
  | (m, true) =>
    match split with
    | none => m.grantUserAccess table index flags
    | some splitEntry =>
      if entrySize (m.entry table index) then splitLargePage splitEntry m table index flags
      else m.grantUserAccess table index flags

/-! ### The cases of a step -/

section Steps

variable {m m' : PhysicalMemoryManager} {table index newTable : ℕ} {flags : PageMappingFlags}
  {splitEntry : ℕ → ℕ → ℕ}

theorem ensurePresent_of_refused (h : ¬ entryPresent (m.entry table index) = true)
    (hcall : m.allocatePagesFromDescriptor 1 = (m, 0)) :
    m.ensurePresent table index flags = (m, false) := by
  rw [ensurePresent, if_neg h, hcall]
  rfl

theorem ensurePresent_of_allocated (h : ¬ entryPresent (m.entry table index) = true)
    (hcall : m.allocatePagesFromDescriptor 1 = (m', newTable)) (hne : newTable ≠ 0) :
    m.ensurePresent table index flags =
      ((m'.fillPages newTable 1 fun _ => 0).storeEntry table index
        (buildNonLeafEntryValue newTable 0 flags.userAccess), true) := by
  obtain ⟨n, rfl⟩ := Nat.exists_eq_succ_of_ne_zero hne
  rw [ensurePresent, if_neg h, hcall]
  rfl

theorem splitLargePage_of_refused (hcall : m.allocatePagesFromDescriptor 1 = (m, 0)) :
    splitLargePage splitEntry m table index flags = (m, none) := by
  rw [splitLargePage, hcall]
  rfl

theorem splitLargePage_of_allocated (hcall : m.allocatePagesFromDescriptor 1 = (m', newTable))
    (hne : newTable ≠ 0) {newEntry : ℕ} (hentry : newEntry = buildNonLeafEntryValue newTable 0
      (entryUserAccess (m.entry table index) || flags.userAccess)) :
    splitLargePage splitEntry m table index flags =
      ((m'.fillPages newTable 1 (splitEntry (m.entry table index))).storeEntry table index newEntry,
        some (entryAddress newEntry)) := by
  obtain ⟨n, rfl⟩ := Nat.exists_eq_succ_of_ne_zero hne
  rw [splitLargePage, hcall, hentry]
  rfl

/-- A step fails where the entry cannot be made present; otherwise it splits a large page or enters
the table. -/
theorem enterTable_cases (split : Option (ℕ → ℕ → ℕ)) {ok : Bool}
    (hensure : m.ensurePresent table index flags = (m', ok)) :
    ok = false ∧ enterTable split m table index flags = (m', none) ∨
    ok = true ∧ (split = none ∨ entrySize (m'.entry table index) = false) ∧
      enterTable split m table index flags = m'.grantUserAccess table index flags ∨
    ok = true ∧ entrySize (m'.entry table index) = true ∧ ∃ splitEntry, split = some splitEntry ∧
      enterTable split m table index flags = splitLargePage splitEntry m' table index flags := by
  rw [enterTable, hensure]
  cases ok with
  | false => exact .inl ⟨rfl, rfl⟩
  | true =>
    cases split with
    | none => exact .inr (.inl ⟨rfl, .inl rfl, rfl⟩)
    | some splitEntry =>
      cases hsize : entrySize (m'.entry table index) with
      | false => exact .inr (.inl ⟨rfl, .inr rfl, if_neg (by simp [hsize])⟩)
      | true => exact .inr (.inr ⟨rfl, rfl, splitEntry, rfl, if_pos hsize⟩)

end Steps

/-- Maps a physical page at a virtual page of the tables below `pageMapL4Table`; the result is
`false` if no table could be allocated. -/
def mapPage (m : PhysicalMemoryManager) (pageMapL4Table physicalAddress virtualAddress : ℕ)
    (flags : PageMappingFlags) : PhysicalMemoryManager × Bool :=
  match enterTable none m pageMapL4Table (pml4Index virtualAddress) flags with
  | (m, none) => (m, false)
  | (m, some pageDirectoryPointerTable) =>
    match enterTable (some splitGigaPage) m pageDirectoryPointerTable (pdptIndex virtualAddress)
        flags with
    | (m, none) => (m, false)
    | (m, some pageDirectoryTable) =>
      match enterTable (some splitMegaPage) m pageDirectoryTable (pdIndex virtualAddress) flags with
      | (m, none) => (m, false)
      | (m, some pageTable) =>
        (m.storeEntry pageTable (ptIndex virtualAddress)
          (buildLeafEntryValue physicalAddress 0 flags.userAccess flags.writeable), true)

/-! ### Existing mappings -/

/-- The last-level table of a virtual page: none if a table is missing or a large page is in the
way. -/
def pageTableOf (m : PhysicalMemoryManager) (pageMapL4Table virtualAddress : ℕ) : Option ℕ :=
  let pml4Entry := m.entry pageMapL4Table (pml4Index virtualAddress)
  if ¬ entryPresent pml4Entry then none
  else
    let pdptEntry := m.entry (entryAddress pml4Entry) (pdptIndex virtualAddress)
    if ¬ entryPresent pdptEntry then none
    else if entrySize pdptEntry then none
    else
      let pdEntry := m.entry (entryAddress pdptEntry) (pdIndex virtualAddress)
      if ¬ entryPresent pdEntry then none
      else if entrySize pdEntry then none
      else some (entryAddress pdEntry)

/-- Changes the access rights of a mapped page; the result is `false` if it is not mapped by an
entry of the last level. -/
def protectPage (m : PhysicalMemoryManager) (pageMapL4Table virtualAddress : ℕ)
    (userAccess writeable : Bool) : PhysicalMemoryManager × Bool :=
  match m.pageTableOf pageMapL4Table virtualAddress with
  | none => (m, false)
  | some pageTable =>
    let ptEntry := m.entry pageTable (ptIndex virtualAddress)
    if ¬ entryPresent ptEntry then (m, false)
    else
      (m.storeEntry pageTable (ptIndex virtualAddress)
        (buildLeafEntryValue ptEntry ptEntry userAccess writeable), true)

/-- Removes the entry of a virtual page in the last level, if there is such a level. -/
def unmapPage (m : PhysicalMemoryManager) (pageMapL4Table virtualAddress : ℕ) :
    PhysicalMemoryManager × Bool :=
  match m.pageTableOf pageMapL4Table virtualAddress with
  | none => (m, false)
  | some pageTable => (m.storeEntry pageTable (ptIndex virtualAddress) 0, true)

end PhysicalMemoryManager

end TwistedOS
