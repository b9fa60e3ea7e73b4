import TwistedOS.Memory.PageTableRelease

/-!
# Copying an address space

`CopyPageMapL4Table` copies the tables of the lower half of an address space and shares those of the
upper half. A new table is linked into the one above it when everything below it has been copied.
Entries are written anew: what the kernel does not take for a page or a table is left out or becomes
an entry that is not present. When no page is left for a table, or the first level names no table,
the tables that can be reached from the new root are freed.

## Main definitions

* `copyLargePage`, `copyPage`: what becomes of the entries.
* `PhysicalMemoryManager.copyPageMapL4Table`.
* `PhysicalMemoryManager.sourceEntries`: what the copy sees of the tables of the lower half.
-/

namespace TwistedOS

/-! ### Entries -/

/-- `MAX_SUPPORTED_PHYSICAL_ADDR`. -/
def maxSupportedPhysicalAddr : ℕ := 0x100000000

/-- `NON_PRESENT_COPY_FLAG_MASK`. -/
def nonPresentCopyFlagMask : ℕ := clearBits leafAllowedFlagMask entryFlagPresent

/-- `IsValidLeafPhysicalAddress`. -/
def isValidLeafPhysicalAddress (physicalAddress : ℕ) : Bool :=
  decide (physicalAddress ≠ 0 ∧ physicalAddress % pageSize = 0 ∧
    physicalAddress < maxSupportedPhysicalAddr)

/-- `SanitizeNonPresentCopiedEntry`. -/
def sanitizeNonPresentCopiedEntry (entryValue : ℕ) : ℕ :=
  (entryValue &&& validPhysicalAddrMask) ||| (entryValue &&& nonPresentCopyFlagMask)

/-- The copy of an entry that maps a large page. -/
def copyLargePage (entry : ℕ) : ℕ :=
  let largePageAddress := entry &&& physPageAddrMask &&& validPhysicalAddrMask
  if isValidLeafPhysicalAddress largePageAddress then
    buildLeafEntryValue largePageAddress entry (entryUserAccess entry) (entryWriteable entry)
  else sanitizeNonPresentCopiedEntry entry

/-- The copy of an entry of the last level. -/
def copyPage (entry : ℕ) : ℕ :=
  if ¬ entryPresent entry then sanitizeNonPresentCopiedEntry entry
  else
    let oldPhysicalAddress := entry &&& physPageAddrMask &&& validPhysicalAddrMask
    if ¬ isValidLeafPhysicalAddress oldPhysicalAddress then sanitizeNonPresentCopiedEntry entry
    else buildLeafEntryValue entry entry (entryUserAccess entry) (entryWriteable entry)

/-- What the copy sees in an entry of the lower half: tables that it copies, and pages that it maps
again. -/
def sourceEntry (depth : ℕ) (index : Fin 512) (entry : ℕ) : RadixEntry ℕ ℕ PageTag :=
  if depth = 0 ∧ 256 ≤ index.val then .empty
  else if entryPresent entry = false then .empty
  else if depth = 0 ∨ depth < 3 ∧ entrySize entry = false then
    if normalizeTablePhysicalAddress (entryAddress entry) = 0 then .empty
    else .table (normalizeTablePhysicalAddress (entryAddress entry)) ⟨entryUserAccess entry, true⟩
  else if isValidLeafPhysicalAddress (entryAddress entry &&& validPhysicalAddrMask) then
    .leaf (entryAddress entry &&& validPhysicalAddrMask) (pageTag entry)
  else .empty

namespace PhysicalMemoryManager

/-! ### Tables -/

/-- The loop over the first `count` entries of a table, which ends when an entry cannot be
copied. -/
def copyEntries (copyEntry : PhysicalMemoryManager → ℕ → PhysicalMemoryManager × Bool) :
    ℕ → PhysicalMemoryManager → PhysicalMemoryManager × Bool
  | 0, m => (m, true)
  | count + 1, m =>
    match copyEntries copyEntry count m with
    | (m, false) => (m, false)
    | (m, true) => copyEntry m count

/-- An entry of the last level. -/
def copyPageEntry (oldTable newTable : ℕ) (m : PhysicalMemoryManager) (index : ℕ) :
    PhysicalMemoryManager × Bool :=
  let entry := m.entry oldTable index
  if ¬ entryPresent entry ∧ entry = 0 then (m, true)
  else (m.storeEntry newTable index (copyPage entry), true)

/-- An entry of one of the two middle levels. A table below it is allocated, copied and then
linked. -/
def copyTableEntry (copyTable : PhysicalMemoryManager → ℕ → ℕ → PhysicalMemoryManager × Bool)
    (oldTable newTable : ℕ) (m : PhysicalMemoryManager) (index : ℕ) :
    PhysicalMemoryManager × Bool :=
  let entry := m.entry oldTable index
  if ¬ entryPresent entry then (m, true)
  else if entrySize entry then (m.storeEntry newTable index (copyLargePage entry), true)
  else
    let oldChild := normalizeTablePhysicalAddress (entryAddress entry)
    if oldChild = 0 then (m.storeEntry newTable index 0, true)
    else
      match m.allocatePagesFromDescriptor 1 with
      | (m, 0) => (m, false)
      | (m, newChild) =>
        match copyTable (m.fillPages newChild 1 fun _ => 0) oldChild newChild with
        | (m, false) => (m, false)
        | (m, true) =>
          (m.storeEntry newTable index
            (buildNonLeafEntryValue newChild entry (entryUserAccess entry)), true)

/-- A table of the last level. -/
def copyPageTable (m : PhysicalMemoryManager) (oldTable newTable : ℕ) :
    PhysicalMemoryManager × Bool :=
  copyEntries (copyPageEntry oldTable newTable) 512 m

/-- A page directory. -/
def copyPageDirectory (m : PhysicalMemoryManager) (oldTable newTable : ℕ) :
    PhysicalMemoryManager × Bool :=
  copyEntries (copyTableEntry copyPageTable oldTable newTable) 512 m

/-- A page directory pointer table. -/
def copyPageDirectoryPointerTable (m : PhysicalMemoryManager) (oldTable newTable : ℕ) :
    PhysicalMemoryManager × Bool :=
  copyEntries (copyTableEntry copyPageDirectory oldTable newTable) 512 m

/-- An entry of the first level. Here a table that is not valid ends the copy, and the new table has
been allocated before this is seen. -/
def copyPageMapL4Entry (pageMapL4Table newPml4 : ℕ) (m : PhysicalMemoryManager) (index : ℕ) :
    PhysicalMemoryManager × Bool :=
  let pml4Entry := m.entry pageMapL4Table index
  if ¬ entryPresent pml4Entry then (m, true)
  else if 256 ≤ index then (m.storeEntry newPml4 index pml4Entry, true)
  else
    match m.allocatePagesFromDescriptor 1 with
    | (m, 0) => (m, false)
    | (m, newPdpt) =>
      let m := m.fillPages newPdpt 1 fun _ => 0
      let oldPdpt := normalizeTablePhysicalAddress (entryAddress pml4Entry)
      if oldPdpt = 0 then (m, false)
      else
        match m.copyPageDirectoryPointerTable oldPdpt newPdpt with
        | (m, false) => (m, false)
        | (m, true) =>
          (m.storeEntry newPml4 index
            (buildNonLeafEntryValue newPdpt pml4Entry (entryUserAccess pml4Entry)), true)

/-- `FreeClonedUserPagingHierarchy`, which frees what `FreePageTableHierarchy` frees. -/
def freeClonedUserPagingHierarchy (fuel : ℕ) (m : PhysicalMemoryManager) (newPml4 : ℕ) :
    Option PhysicalMemoryManager :=
  m.freePageTableHierarchy fuel newPml4

/-- `CopyPageMapL4Table`; the address `0` reports failure. -/
def copyPageMapL4Table (fuel : ℕ) (m : PhysicalMemoryManager) (pageMapL4Table : ℕ) :
    Option (PhysicalMemoryManager × ℕ) :=
  match m.allocatePagesFromDescriptor 1 with
  | (m, 0) => some (m, 0)
  | (m, newPml4) =>
    match copyEntries (copyPageMapL4Entry pageMapL4Table newPml4) 512
        (m.fillPages newPml4 1 fun _ => 0) with
    | (m, true) => some (m, newPml4)
    | (m, false) => (m.freeClonedUserPagingHierarchy fuel newPml4).map fun m => (m, 0)

/-! ### What is copied -/

/-- The tables of the lower half as the copy sees them. -/
def sourceEntries (m : PhysicalMemoryManager) (depth table : ℕ) (index : Fin 512) :
    RadixEntry ℕ ℕ PageTag :=
  sourceEntry depth index (m.entry table index)

/-- The sum over the first `count` slots of a table. -/
def sumUpTo (f : Fin 512 → ℕ) (count : ℕ) : ℕ := (((List.finRange 512).take count).map f).sum

/-- The pages that the copies of the tables below a slot take, when those below a table at the next
level take `below`. -/
def pagesThrough (m : PhysicalMemoryManager) (below : ℕ → ℕ) (depth table : ℕ) (index : Fin 512) :
    ℕ :=
  match (m.sourceEntries depth table index).child with
  | none => 0
  | some child => below child + 1

/-- The pages that the copies of the tables below a table take, which stands `height` levels above
the last one. -/
def pagesBelow (m : PhysicalMemoryManager) : (height depth : ℕ) → ℕ → ℕ
  | 0, _, _ => 0
  | height + 1, depth, table =>
    sumUpTo (m.pagesThrough (m.pagesBelow height (depth + 1)) depth table) 512

end PhysicalMemoryManager

end TwistedOS
