import TwistedOS.Memory.MappedPages
import TwistedOS.UserMemory.UserCopies

/-!
# The permissions of user copies

A copy is refused unless every byte of the range of the user lies in the lower half, in a page that
is present and that user mode may use at every level. Nothing looks at the bit `writeable` of the
entries: this is all that `CopyFromUserToKernel` needs, but `CopyFromKernelToUser` also takes ranges
with pages that user mode may not write.

## Main definitions

* `PhysicalMemoryManager.kernelTranslation`: the translation of an address as the kernel reads it.
* `CopyState.Permits`: user mode may read, or write, every byte of a range.
* `CopyState.ReachesCopy`, `CopyState.Refuses`.

## Main results

* `PhysicalMemoryManager.exists_kernelTranslation`: what `IsUserAccessiblePageMapped` finds.
* `CopyState.checkedCopy_cases`.
* `CopyState.copies_respect_permissions_iff`.
-/

namespace TwistedOS

open RadixTree

/-! ### Addresses without software bits -/

theorem clearBits_eq_self {value mask : ℕ} (h : value &&& mask = 0) :
    clearBits value mask = value := by
  rw [clearBits, h, Nat.xor_zero]

/-- An address below 4 GiB has no software bits. -/
theorem and_addressSoftwareBitsMask {address : ℕ} (h : address < 2 ^ 32) :
    address &&& addressSoftwareBitsMask = 0 := by
  refine Nat.eq_of_testBit_eq fun i => ?_
  rw [Nat.testBit_and, Nat.zero_testBit]
  by_cases hi : i < 44
  · have hmask : addressSoftwareBitsMask.testBit i = false := by
      revert i
      decide
    rw [hmask, Bool.and_false]
  · have hpow : 2 ^ 44 ≤ 2 ^ i := Nat.pow_le_pow_right (by decide) (by omega)
    rw [Nat.testBit_eq_false_of_lt (by omega), Bool.false_and]

/-- A table is where its address without the software bits says. -/
theorem normalizeTablePhysicalAddress_of_ne_zero {address : ℕ}
    (h : normalizeTablePhysicalAddress address ≠ 0) :
    normalizeTablePhysicalAddress address = clearBits address addressSoftwareBitsMask := by
  rw [normalizeTablePhysicalAddress] at h ⊢
  dsimp only at h ⊢
  split_ifs at h ⊢ with hvalid hclear
  · have hlt := (isValidTablePhysicalAddress_spec hvalid).2.2
    rw [clearBits_eq_self (and_addressSoftwareBitsMask (by omega))]
  · rfl
  · exact absurd rfl h

/-- The low bits of an entry are not software bits. -/
theorem testBit_clearBits_low {entry i : ℕ} (hi : i < 44) :
    (clearBits entry addressSoftwareBitsMask).testBit i = entry.testBit i := by
  have hmask : addressSoftwareBitsMask.testBit i = false := by
    revert i
    decide
  rw [testBit_clearBits, hmask, Bool.not_false, Bool.and_true]

theorem entryAddress_clearBits (entry : ℕ) :
    entryAddress (clearBits entry addressSoftwareBitsMask) =
      clearBits (entryAddress entry) addressSoftwareBitsMask := by
  refine Nat.eq_of_testBit_eq fun i => ?_
  rw [entryAddress, entryAddress, Nat.testBit_and, testBit_clearBits, testBit_clearBits,
    Nat.testBit_and, Bool.and_right_comm]

theorem pageTag_clearBits (entry : ℕ) :
    pageTag (clearBits entry addressSoftwareBitsMask) = pageTag entry := by
  rw [pageTag, pageTag, entryUserAccess, entryWriteable, testBit_clearBits_low (by decide),
    testBit_clearBits_low (by decide), entryUserAccess, entryWriteable]

namespace PhysicalMemoryManager

variable (m : PhysicalMemoryManager)

/-- What the entries of the tables mean to the kernel, which takes no notice of software bits. -/
def kernelEntries (depth table : ℕ) (index : Fin 512) : RadixEntry ℕ ℕ PageTag :=
  translationEntry depth (clearBits (m.entry table index) addressSoftwareBitsMask)

/-- The translation of a virtual address as the kernel reads the tables. -/
def kernelTranslation (root virtualAddress : ℕ) : Option Translation :=
  (lookup m.kernelEntries 0 (clearBits root addressSoftwareBitsMask)
    (pagePath virtualAddress)).map translationOf

variable {m} {root v depth table entry : ℕ} {i : Fin 512} {path : List (Fin 512)}

theorem kernelEntries_of_present (hentry : m.entry table i = entry)
    (hpresent : entryPresent entry = true) : m.kernelEntries depth table i =
      if depth = 0 ∨ depth < 3 ∧ entrySize entry = false then
        .table (clearBits (entryAddress entry) addressSoftwareBitsMask) (pageTag entry)
      else .leaf (clearBits (entryAddress entry) addressSoftwareBitsMask) (pageTag entry) := by
  have hpresent' : entryPresent (clearBits entry addressSoftwareBitsMask) = true := by
    rw [entryPresent, testBit_clearBits_low (by decide)]
    exact hpresent
  have hsize : entrySize (clearBits entry addressSoftwareBitsMask) = entrySize entry := by
    rw [entrySize, testBit_clearBits_low (by decide), entrySize]
  rw [kernelEntries, hentry, translationEntry, if_neg (by simp [hpresent']), hsize,
    entryAddress_clearBits, pageTag_clearBits]

/-- A walk ends at a page, and user mode may use every entry on the way. -/
def UserWalk (m : PhysicalMemoryManager) (depth table : ℕ) (path : List (Fin 512)) : Prop :=
  ∃ walk, lookup m.kernelEntries depth table path = some walk ∧
    walk.1.all PageTag.userAccess = true

section

variable (hentry : m.entry table i = entry) (hpresent : entryPresent entry = true)
  (huser : entryUserAccess entry = true)

include hentry hpresent huser

/-- One level of a walk that goes on at a table. -/
theorem UserWalk.cons (htable : depth = 0 ∨ depth < 3 ∧ entrySize entry = false)
    (hnormal : normalizeTablePhysicalAddress (entryAddress entry) ≠ 0)
    (h : m.UserWalk (depth + 1) (normalizeTablePhysicalAddress (entryAddress entry)) path) :
    m.UserWalk depth table (i :: path) := by
  obtain ⟨walk, hwalk, hall⟩ := h
  rw [normalizeTablePhysicalAddress_of_ne_zero hnormal] at hwalk
  have hread := (kernelEntries_of_present hentry hpresent).trans (if_pos htable)
  refine ⟨_, by rw [lookup_cons_of_table hread, hwalk]; rfl, ?_⟩
  simp only [List.all_cons, pageTag, huser, hall, Bool.and_self]

theorem UserWalk.leaf (hleaf : ¬ (depth = 0 ∨ depth < 3 ∧ entrySize entry = false)) :
    m.UserWalk depth table (i :: path) := by
  have hread := (kernelEntries_of_present hentry hpresent).trans (if_neg hleaf)
  refine ⟨_, lookup_cons_of_leaf hread, ?_⟩
  simp only [List.all_cons, List.all_nil, pageTag, huser, Bool.and_self]

end

private theorem passed {refused : Prop} [Decidable refused] {rest : Bool}
    (h : (if refused then false else rest) = true) : ¬ refused ∧ rest = true := by
  split_ifs at h with hrefused
  exact ⟨hrefused, h⟩

/-- Either an entry maps a large page, or the walk goes on. -/
private theorem largeOrPassed {large : Prop} [Decidable large] {mapped rest : Bool}
    (h : (if large then mapped else rest) = true) : large ∨ ¬ large ∧ rest = true := by
  split_ifs at h with hlarge
  · exact .inl hlarge
  · exact .inr ⟨hlarge, h⟩

/-- The check of the bits of an entry is passed. -/
private theorem usable (h : ¬ (!entryPresent entry || !entryUserAccess entry) = true) :
    entryPresent entry = true ∧ entryUserAccess entry = true := by
  simpa using h

/-- A page that `IsUserAccessiblePageMapped` accepts is present, and user mode may use it at every
level. -/
theorem exists_kernelTranslation (h : m.isUserAccessiblePageMapped root v = true) :
    ∃ t, m.kernelTranslation root v = some t ∧ t.userAccess = true := by
  obtain ⟨-, h⟩ := passed h
  obtain ⟨hroot, h⟩ := passed h
  have hwalk : m.UserWalk 0 (normalizeTablePhysicalAddress root) (pagePath v) := by
    obtain ⟨hbits, h⟩ := passed h
    obtain ⟨hpresent, huser⟩ := usable hbits
    obtain ⟨hpdpt, h⟩ := passed h
    refine .cons rfl hpresent huser (.inl rfl) hpdpt ?_
    obtain ⟨hbits, h⟩ := passed h
    obtain ⟨hpresent, huser⟩ := usable hbits
    obtain hsize | ⟨hsize, h⟩ := largeOrPassed h
    · exact .leaf rfl hpresent huser (by simp [hsize])
    obtain ⟨hpd, h⟩ := passed h
    refine .cons rfl hpresent huser (.inr ⟨by decide, by simpa using hsize⟩) hpd ?_
    obtain ⟨hbits, h⟩ := passed h
    obtain ⟨hpresent, huser⟩ := usable hbits
    obtain hsize | ⟨hsize, h⟩ := largeOrPassed h
    · exact .leaf rfl hpresent huser (by simp [hsize])
    obtain ⟨hpt, h⟩ := passed h
    refine .cons rfl hpresent huser (.inr ⟨by decide, by simpa using hsize⟩) hpt ?_
    obtain ⟨hbits, -⟩ := passed h
    obtain ⟨hpresent, huser⟩ := usable hbits
    exact .leaf rfl hpresent huser (by simp)
  obtain ⟨walk, hlookup, hall⟩ := hwalk
  rw [normalizeTablePhysicalAddress_of_ne_zero hroot] at hlookup
  exact ⟨translationOf walk, by rw [kernelTranslation, hlookup]; rfl, hall⟩

/-! ### Ranges -/

/-- All addresses of a page take the same way. -/
theorem isUserAccessiblePageMapped_page (root v : ℕ) :
    m.isUserAccessiblePageMapped root (v / pageSize * pageSize) =
      m.isUserAccessiblePageMapped root v := by
  have h₁ : pml4Index (v / pageSize * pageSize) = pml4Index v := by
    simp only [pml4Index, pageSize]
    omega
  have h₂ : pdptIndex (v / pageSize * pageSize) = pdptIndex v := by
    simp only [pdptIndex, pageSize]
    omega
  have h₃ : pdIndex (v / pageSize * pageSize) = pdIndex v := by
    simp only [pdIndex, pageSize]
    omega
  have h₄ : ptIndex (v / pageSize * pageSize) = ptIndex v := by
    simp only [ptIndex, pageSize]
    omega
  simp only [isUserAccessiblePageMapped, h₁, h₂, h₃, h₄]

/-- The loop looks at every page up to the last one. -/
theorem pagesMapped_iff {endPage : ℕ} (hend : endPage < 2 ^ 47) {fuel page : ℕ}
    (hpage : page % pageSize = 0) (hle : page ≤ endPage + pageSize)
    (hfuel : endPage + pageSize < page + fuel * pageSize) :
    m.pagesMapped root endPage fuel page = true ↔ ∀ q, q % pageSize = 0 → page ≤ q →
      q ≤ endPage → m.isUserAccessiblePageMapped root q = true := by
  induction fuel generalizing page with
  | zero => omega
  | succ fuel ih =>
    rw [pagesMapped]
    split_ifs with hlast hmapped hwrap
    · exact iff_of_true rfl fun q _ hlo hhi => by omega
    · refine iff_of_false id fun h => ?_
      rw [h page hpage le_rfl (by omega)] at hmapped
      simp at hmapped
    · simp only [uint64Max, pageSize] at hwrap
      omega
    · simp only [pageSize] at *
      rw [ih (by omega) (by omega) (by omega)]
      constructor
      · intro h q hq hlo hhi
        obtain rfl | hlt : q = page ∨ page + 4096 ≤ q := by omega
        · simpa using hmapped
        · exact h q hq hlt hhi
      · exact fun h q hq hlo hhi => h q hq (by omega) hhi

/-- The loop over the pages of a range of the lower half looks at the page of every byte. -/
theorem pagesMapped_range_iff {address count : ℕ} (hcount : count ≠ 0)
    (hlower : address + count ≤ 2 ^ 47) :
    m.pagesMapped root (alignDownToPage (u64 (address + (count - 1))))
        (alignDownToPage (u64 (address + (count - 1))) / pageSize + 2)
        (alignDownToPage address) = true ↔
      ∀ i < count, m.isUserAccessiblePageMapped root (address + i) = true := by
  have hu64 : u64 (address + (count - 1)) = address + (count - 1) := Nat.mod_eq_of_lt (by omega)
  rw [hu64]
  simp only [alignDownToPage]
  rw [pagesMapped_iff (by simp only [pageSize]; omega) (by simp only [pageSize]; omega)
    (by simp only [pageSize]; omega) (by simp only [pageSize]; omega)]
  constructor
  · intro h i hi
    rw [← isUserAccessiblePageMapped_page]
    refine h _ ?_ ?_ ?_ <;> simp only [pageSize] <;> omega
  · intro h q hq hlo hhi
    obtain ⟨i, hi, hpage⟩ : ∃ i < count, q = (address + i) / pageSize * pageSize := by
      simp only [pageSize] at *
      obtain hle | hlt := le_or_gt address q
      · exact ⟨q - address, by omega, by omega⟩
      · exact ⟨0, by omega, by omega⟩
    rw [hpage, isUserAccessiblePageMapped_page]
    exact h i hi

end PhysicalMemoryManager

theorem isLowerCanonicalUserRange_iff {address count : ℕ} (haddress : address < 2 ^ 64)
    (hcount : count ≠ 0) (hlt : count < 2 ^ 64) :
    isLowerCanonicalUserRange address count = true ↔ address + count ≤ 2 ^ 47 := by
  have hend : u64 (address + (count - 1)) = (address + (count - 1)) % 2 ^ 64 := rfl
  simp only [isLowerCanonicalUserRange, hcount, if_false, isLowerCanonicalUserAddress]
  split_ifs with hwrap
  · exact iff_of_false id (by omega)
  · rw [Bool.and_eq_true, decide_eq_true_eq, decide_eq_true_eq]
    omega

/-! ### The checks -/

/-- What user mode does with a byte. -/
inductive AccessKind
  | read
  | write
  deriving DecidableEq, Repr

/-- User mode may make an access if every entry on the way allows it. -/
def Translation.allows (t : Translation) : AccessKind → Bool
  | .read => t.userAccess
  | .write => t.userAccess && t.writeable

namespace CopyState

variable (s : CopyState)

/-- Every byte of a range lies in the lower half, in a present page of the process that runs to
which user mode has access. -/
def Permits (access : AccessKind) (address count : ℕ) : Prop :=
  ∀ i < count, ∃ p addressSpace t, s.runningProcess = some p ∧
    p.addressSpace = some addressSpace ∧
    isLowerCanonicalUserAddress (u64 (address + i)) = true ∧
    s.memory.kernelTranslation addressSpace.pageMapL4TableAddr (u64 (address + i)) = some t ∧
    t.allows access = true

/-- The call returns false and has not copied anything. -/
def Refuses (result : Option (CopyState × Bool)) : Prop :=
  ∃ s', result = some (s', false) ∧ s'.memory = s.memory

/-- What is checked before bytes are copied. -/
structure ReachesCopy (userAddress kernelAddress count : ℕ) : Prop where
  user_ne : userAddress ≠ 0
  kernel_ne : kernelAddress ≠ 0
  count_ne : count ≠ 0
  processManager : s.hasProcessManager = true
  resource : s.hasResource = true
  pageTable : s.currentPageTable ≠ 0 ∨ s.kernelPageMapL4TableAddr ≠ 0
  range : isLowerCanonicalUserRange userAddress count = true
  process : ∃ p addressSpace, s.runningProcess = some p ∧ p.isUser = true ∧
    p.addressSpace = some addressSpace ∧ addressSpace.pageMapL4TableAddr ≠ 0 ∧
    ∀ i < count, s.memory.isUserAccessiblePageMapped addressSpace.pageMapL4TableAddr
      (userAddress + i) = true

/-- No page of a range is read-only. -/
def NoReadOnlyPage (address count : ℕ) : Prop :=
  ∀ p addressSpace, s.runningProcess = some p → p.addressSpace = some addressSpace →
    ∀ i < count, ∀ t,
      s.memory.kernelTranslation addressSpace.pageMapL4TableAddr (address + i) = some t →
      t.writeable = true

/-- Copies are refused where user mode has no access of its own. -/
structure RespectsPermissions (userAddress kernelAddress count : ℕ) : Prop where
  fromUser : ¬ s.Permits .read userAddress count →
    s.Refuses (s.copyFromUserToKernel userAddress kernelAddress count)
  toUser : ¬ s.Permits .write userAddress count →
    s.Refuses (s.copyFromKernelToUser kernelAddress userAddress count)

variable {s} {userAddress kernelAddress count : ℕ} {access : AccessKind}

/-- Replaces the page table that the processor uses. -/
def setPageTable (s : CopyState) (pageTable : ℕ) : CopyState :=
  { s with currentPageTable := pageTable }

/-- The kernel leaves its own tables where none were loaded. -/
theorem afterTableCheck_eq (hresource : s.hasResource = true) : s.afterTableCheck =
    s.setPageTable
      (if s.currentPageTable = 0 then s.kernelPageMapL4TableAddr else s.currentPageTable) := by
  rw [afterTableCheck, if_pos hresource, loadPageTable, loadPageTable]
  split_ifs with hcurrent hkernel hkernel
  · rw [hkernel, ← hcurrent]
    rfl
  · rfl
  · rfl
  · rfl

theorem memory_afterTableCheck : s.afterTableCheck.memory = s.memory := by
  rw [afterTableCheck]
  split_ifs
  · rw [loadPageTable, loadPageTable]
    split_ifs <;> rfl
  · rfl

/-- Whether the pages of a range are mapped. -/
theorem isUserAddressRangeMappedByPageTables_eq {p : UserProcess}
    {addressSpace : VirtualAddressSpace} (hspace : p.addressSpace = some addressSpace)
    (hcount : count ≠ 0) (hroot : addressSpace.pageMapL4TableAddr ≠ 0)
    (hlower : userAddress + count ≤ 2 ^ 47) :
    (s.isUserAddressRangeMappedByPageTables p userAddress count).1 = s.afterTableCheck ∧
      ((s.isUserAddressRangeMappedByPageTables p userAddress count).2 = true ↔ ∀ i < count,
        s.memory.isUserAccessiblePageMapped addressSpace.pageMapL4TableAddr
          (userAddress + i) = true) := by
  rw [isUserAddressRangeMappedByPageTables, hspace]
  dsimp only
  rw [if_neg hcount, if_neg hroot]
  exact ⟨rfl, PhysicalMemoryManager.pagesMapped_range_iff hcount hlower⟩

/-- The check of the regions has loaded page tables or not. -/
theorem isUserAddressRangeAccessible_fst (p : UserProcess) (userAddress count : ℕ) :
    (s.isUserAddressRangeAccessible p userAddress count).1 = s ∨
      (s.isUserAddressRangeAccessible p userAddress count).1 = s.afterTableCheck := by
  rw [isUserAddressRangeAccessible]
  rcases p.addressSpace with _ | addressSpace
  · split_ifs <;> exact .inl rfl
  · dsimp only
    split_ifs
    all_goals first
      | exact .inl rfl
      | rw [isUserAddressRangeMappedByPageTables]
        split
        · exact .inl rfl
        · split_ifs
          · exact .inl rfl
          · exact .inr rfl

/-- Accessible ranges lie in the lower half. -/
theorem range_of_accessible {p : UserProcess} (hcount : count ≠ 0)
    (h : (s.isUserAddressRangeAccessible p userAddress count).2 = true) :
    ∃ addressSpace, p.addressSpace = some addressSpace ∧ p.isUser = true ∧
      isLowerCanonicalUserRange userAddress count = true := by
  rw [isUserAddressRangeAccessible, if_neg hcount] at h
  rcases hspace : p.addressSpace with _ | addressSpace
  · rw [hspace] at h
    cases h
  rw [hspace] at h
  dsimp only at h
  by_cases huser : p.isUser = true
  swap
  · rw [if_pos (by simpa using huser)] at h
    cases h
  by_cases hrange : isLowerCanonicalUserRange userAddress count = true
  swap
  · rw [if_neg (by simpa using huser), if_pos (by simpa using hrange)] at h
    cases h
  exact ⟨addressSpace, rfl, huser, hrange⟩

/-- Ranges that are mapped are accessible, whatever the regions of the process are. -/
theorem accessible_of_mapped {p : UserProcess} {addressSpace : VirtualAddressSpace}
    (hspace : p.addressSpace = some addressSpace) (huser : p.isUser = true)
    (hrange : isLowerCanonicalUserRange userAddress count = true)
    (hmapped : (s.isUserAddressRangeMappedByPageTables p userAddress count).2 = true) :
    (s.isUserAddressRangeAccessible p userAddress count).2 = true := by
  rw [isUserAddressRangeAccessible, hspace]
  dsimp only
  rw [if_neg (by simp [huser] : ¬ (!p.isUser) = true),
    if_neg (by simp [hrange] : ¬ (!isLowerCanonicalUserRange userAddress count) = true)]
  split_ifs
  all_goals first
    | rfl
    | exact hmapped

/-- What a check leaves as it is. -/
structure Checked (s s' : CopyState) : Prop where
  memory : s'.memory = s.memory
  resource : s'.hasResource = s.hasResource
  pageTable : s.hasResource = true →
    (s'.currentPageTable ≠ 0 ∨ s'.kernelPageMapL4TableAddr ≠ 0 ↔
      s.currentPageTable ≠ 0 ∨ s.kernelPageMapL4TableAddr ≠ 0)

theorem checked_accessible (p : UserProcess) (userAddress count : ℕ) :
    Checked s (s.isUserAddressRangeAccessible p userAddress count).1 := by
  rcases isUserAddressRangeAccessible_fst (s := s) p userAddress count with h | h
  · rw [h]
    exact ⟨rfl, rfl, fun _ => Iff.rfl⟩
  · rw [h]
    rcases hresource : s.hasResource with _ | _
    · rw [afterTableCheck, if_neg (by simp [hresource])]
      exact ⟨rfl, rfl, fun _ => Iff.rfl⟩
    · rw [afterTableCheck_eq hresource]
      refine ⟨rfl, rfl, fun _ => ?_⟩
      change (if s.currentPageTable = 0 then s.kernelPageMapL4TableAddr
        else s.currentPageTable) ≠ 0 ∨ s.kernelPageMapL4TableAddr ≠ 0 ↔ _
      split_ifs with hzero
      · simp [hzero]
      · rfl

/-- A copy is refused, or all that is checked holds and the processor copies the bytes. -/
theorem checkedCopy_cases (s : CopyState) (source destination : ℕ) (hcount : count ≠ 0)
    (huser : userAddress < 2 ^ 64) (hlt : count < 2 ^ 64)
    (hzero : source = 0 ∨ destination = 0 ↔ userAddress = 0 ∨ kernelAddress = 0) :
    (¬ s.ReachesCopy userAddress kernelAddress count ∧
      s.Refuses (s.checkedCopy userAddress destination source count)) ∨
    (s.ReachesCopy userAddress kernelAddress count ∧ ∃ (root : ℕ) (s' : CopyState),
      s'.memory = s.memory ∧ s.checkedCopy userAddress destination source count =
        (s'.memory.memcpy s'.writeProtect root destination source count).map
          fun memory => (s'.setMemory memory, true)) := by
  rw [checkedCopy]
  by_cases hnull : (source = 0 ∧ count ≠ 0) ∨ (destination = 0 ∧ count ≠ 0)
  · rw [if_pos hnull]
    refine .inl ⟨fun h => ?_, s, rfl, rfl⟩
    rcases hzero.mp (hnull.imp And.left And.left) with h0 | h0
    · exact h.user_ne h0
    · exact h.kernel_ne h0
  rw [if_neg hnull, if_neg hcount]
  by_cases hmanager : s.hasProcessManager = true
  swap
  · rw [if_pos (by simpa using hmanager)]
    exact .inl ⟨fun h => hmanager h.processManager, s, rfl, rfl⟩
  rw [if_neg (by simpa using hmanager)]
  rcases hrun : s.runningProcess with _ | p
  · refine .inl ⟨fun h => ?_, s, rfl, rfl⟩
    obtain ⟨p, -, hrun', -⟩ := h.process
    rw [hrun] at hrun'
    cases hrun'
  have hchecked := checked_accessible (s := s) p userAddress count
  dsimp only
  rcases haccessible : s.isUserAddressRangeAccessible p userAddress count with ⟨s₁, _ | _⟩
  · rw [haccessible] at hchecked
    refine .inl ⟨fun h => ?_, s₁, rfl, hchecked.memory⟩
    obtain ⟨p', addressSpace, hrun', hlevel, hspace, hroot, hpages⟩ := h.process
    obtain rfl : p = p' := Option.some.inj (hrun.symm.trans hrun')
    have hlower := (isLowerCanonicalUserRange_iff huser hcount hlt).mp h.range
    have hmapped := (isUserAddressRangeMappedByPageTables_eq (s := s) hspace hcount hroot hlower).2
    have htrue := accessible_of_mapped hspace hlevel h.range (hmapped.mpr hpages)
    rw [haccessible] at htrue
    cases htrue
  obtain ⟨addressSpace, hspace, hlevel, hrange⟩ :=
    range_of_accessible hcount (congrArg Prod.snd haccessible)
  have hlower := (isLowerCanonicalUserRange_iff huser hcount hlt).mp hrange
  rw [haccessible] at hchecked
  dsimp only at hchecked ⊢
  rcases hresource : s.hasResource with _ | _
  · refine .inl ⟨fun h => ?_, s₁, by rw [hchecked.resource, hresource], hchecked.memory⟩
    simp [h.resource] at hresource
  rw [hchecked.resource, hresource, hspace]
  dsimp only
  have hprocess : ∀ p' addressSpace', s.runningProcess = some p' →
      p'.addressSpace = some addressSpace' → addressSpace' = addressSpace :=
    fun p' addressSpace' hrun' hspace' => by
      obtain rfl : p = p' := Option.some.inj (hrun.symm.trans hrun')
      exact Option.some.inj (hspace'.symm.trans hspace)
  by_cases hroot : addressSpace.pageMapL4TableAddr = 0
  · rw [if_pos hroot]
    refine .inl ⟨fun h => ?_, s₁, rfl, hchecked.memory⟩
    obtain ⟨p', addressSpace', hrun', -, hspace', hroot', -⟩ := h.process
    rw [hprocess p' addressSpace' hrun' hspace'] at hroot'
    exact hroot' hroot
  rw [if_neg hroot]
  obtain ⟨hstate, hmapped⟩ :=
    isUserAddressRangeMappedByPageTables_eq (s := s₁) hspace hcount hroot hlower
  rcases hcheck : s₁.isUserAddressRangeMappedByPageTables p userAddress count with ⟨s₂, _ | _⟩
  · rw [hcheck] at hstate hmapped
    refine .inl ⟨fun h => ?_, s₂, rfl, ?_⟩
    · obtain ⟨p', addressSpace', hrun', -, hspace', -, hpages⟩ := h.process
      rw [hprocess p' addressSpace' hrun' hspace', ← hchecked.memory] at hpages
      exact Bool.false_ne_true (hmapped.mpr hpages)
    · exact (congrArg CopyState.memory hstate).trans
        (memory_afterTableCheck.trans hchecked.memory)
  rw [hcheck] at hstate hmapped
  obtain rfl : s₂ = s₁.afterTableCheck := hstate
  have htables : s₁.afterTableCheck.currentPageTable ≠ 0 ↔
      s.currentPageTable ≠ 0 ∨ s.kernelPageMapL4TableAddr ≠ 0 := by
    rw [← hchecked.pageTable hresource, afterTableCheck_eq (hchecked.resource.trans hresource)]
    change (if s₁.currentPageTable = 0 then s₁.kernelPageMapL4TableAddr
      else s₁.currentPageTable) ≠ 0 ↔ _
    split_ifs with hcurrent
    · simp [hcurrent]
    · simp [hcurrent]
  dsimp only
  rw [copyWithTables]
  by_cases hcurrent : s₁.afterTableCheck.currentPageTable = 0
  · rw [if_pos hcurrent]
    exact .inl ⟨fun h => htables.mpr h.pageTable hcurrent, _, rfl,
      memory_afterTableCheck.trans hchecked.memory⟩
  rw [if_neg hcurrent]
  have hne : userAddress ≠ 0 ∧ kernelAddress ≠ 0 := by
    rw [← not_or, ← hzero]
    exact fun h => hnull (h.imp (⟨·, hcount⟩) (⟨·, hcount⟩))
  refine .inr ⟨⟨hne.1, hne.2, hcount, hmanager, hresource, htables.mp hcurrent, hrange, p,
    addressSpace, hrun, hlevel, hspace, hroot, ?_⟩, _, _,
    memory_afterTableCheck.trans hchecked.memory, rfl⟩
  rw [← hchecked.memory]
  exact hmapped.mp rfl

/-! ### Permissions -/

theorem permits_iff {p : UserProcess} {addressSpace : VirtualAddressSpace}
    (hrun : s.runningProcess = some p) (hspace : p.addressSpace = some addressSpace)
    (hlower : userAddress + count ≤ 2 ^ 47) : s.Permits access userAddress count ↔
      ∀ i < count, ∃ t, s.memory.kernelTranslation addressSpace.pageMapL4TableAddr
        (userAddress + i) = some t ∧ t.allows access = true := by
  refine forall₂_congr fun i hi => ?_
  have hu64 : u64 (userAddress + i) = userAddress + i := Nat.mod_eq_of_lt (by omega)
  rw [hu64]
  constructor
  · rintro ⟨p', addressSpace', t, hrun', hspace', -, ht, hallows⟩
    obtain rfl : p = p' := Option.some.inj (hrun.symm.trans hrun')
    obtain rfl : addressSpace' = addressSpace := Option.some.inj (hspace'.symm.trans hspace)
    exact ⟨t, ht, hallows⟩
  · rintro ⟨t, ht, hallows⟩
    have hcanonical : isLowerCanonicalUserAddress (userAddress + i) = true :=
      decide_eq_true (by omega)
    exact ⟨p, addressSpace, t, hrun, hspace, hcanonical, ht, hallows⟩

section

variable (h : s.ReachesCopy userAddress kernelAddress count) (huser : userAddress < 2 ^ 64)
  (hlt : count < 2 ^ 64)

include h huser hlt

/-- What is checked is all that a copy from user memory needs. -/
theorem ReachesCopy.permits_read : s.Permits .read userAddress count := by
  obtain ⟨p, addressSpace, hrun, -, hspace, -, hpages⟩ := h.process
  have hlower := (isLowerCanonicalUserRange_iff huser h.count_ne hlt).mp h.range
  exact (permits_iff hrun hspace hlower).mpr fun i hi =>
    PhysicalMemoryManager.exists_kernelTranslation (hpages i hi)

/-- A copy to user memory also needs that no page of the range is read-only. -/
theorem ReachesCopy.permits_write_iff :
    s.Permits .write userAddress count ↔ s.NoReadOnlyPage userAddress count := by
  obtain ⟨p, addressSpace, hrun, -, hspace, -, hpages⟩ := h.process
  have hlower := (isLowerCanonicalUserRange_iff huser h.count_ne hlt).mp h.range
  rw [permits_iff hrun hspace hlower]
  constructor
  · intro hpermits p' addressSpace' hrun' hspace' i hi t ht
    obtain rfl : p = p' := Option.some.inj (hrun.symm.trans hrun')
    obtain rfl : addressSpace' = addressSpace := Option.some.inj (hspace'.symm.trans hspace)
    obtain ⟨t', ht', hallows⟩ := hpermits i hi
    obtain rfl : t' = t := Option.some.inj (ht'.symm.trans ht)
    exact (Bool.and_eq_true_iff.mp hallows).2
  · intro hwriteable i hi
    obtain ⟨t, ht, hmay⟩ := PhysicalMemoryManager.exists_kernelTranslation (hpages i hi)
    refine ⟨t, ht, ?_⟩
    rw [Translation.allows, hmay, hwriteable p addressSpace hrun hspace i hi t ht, Bool.and_self]

end

theorem permits_zero : s.Permits access userAddress 0 := fun i hi => absurd hi (Nat.not_lt_zero i)

/-- A call that reaches its copy does not refuse. -/
theorem not_refuses_map {memory : Option PhysicalMemoryManager} {s' : CopyState} :
    ¬ s.Refuses (memory.map fun memory => (s'.setMemory memory, true)) := by
  rintro ⟨s'', h, -⟩
  rcases memory with _ | memory <;> cases h

/-- Every copy from user memory respects the permissions of user mode. A copy to user memory does
if and only if it is refused anyway or no page of the range is read-only. -/
theorem copies_respect_permissions_iff (s : CopyState) {userAddress kernelAddress count : ℕ}
    (huser : userAddress < 2 ^ 64) (hlt : count < 2 ^ 64) :
    s.RespectsPermissions userAddress kernelAddress count ↔
      (s.ReachesCopy userAddress kernelAddress count → s.NoReadOnlyPage userAddress count) := by
  obtain rfl | hcount := Nat.eq_zero_or_pos count
  · exact iff_of_true ⟨(absurd permits_zero ·), (absurd permits_zero ·)⟩ fun h =>
      absurd rfl h.count_ne
  have hfrom := checkedCopy_cases s userAddress kernelAddress
    hcount.ne' huser hlt Iff.rfl
  have hto := checkedCopy_cases s kernelAddress userAddress
    hcount.ne' huser hlt or_comm
  constructor
  · intro h hreaches
    rw [← hreaches.permits_write_iff huser hlt]
    by_contra hpermits
    obtain ⟨hnot, -⟩ | ⟨-, root, s', -, hcopy⟩ := hto
    · exact hnot hreaches
    · have hrefuses := h.toUser hpermits
      rw [copyFromKernelToUser, hcopy] at hrefuses
      exact not_refuses_map hrefuses
  · intro h
    refine ⟨fun hpermits => ?_, fun hpermits => ?_⟩
    · obtain ⟨-, hrefuses⟩ | ⟨hreaches, -⟩ := hfrom
      · exact hrefuses
      · exact absurd (hreaches.permits_read huser hlt) hpermits
    · obtain ⟨-, hrefuses⟩ | ⟨hreaches, -⟩ := hto
      · exact hrefuses
      · exact absurd ((hreaches.permits_write_iff huser hlt).mpr (h hreaches)) hpermits

/-! ### A read-only page -/

/-- A page at `0x200000` that user mode may only read, and one of the kernel in the upper half. -/
def readOnlyPage : PhysicalMemoryManager :=
  PhysicalMemoryManager.withTables [(0x1000, 0x2007), (0x2000, 0x3007), (0x3000, 0x200085),
    (0x1800, 0x4003), (0x4000, 0x5003), (0x5000, 0x400083), (0x400000, 7)]

/-- A process with these tables. -/
def readOnlyProcess : UserProcess where
  isUser := true
  isElf := true
  addressSpace := some
    { memoryRegions := [(0, 0x200000)]
      codeVirtualAddressStart := 0
      codeSize := 0
      heapPhysicalAddress := 0
      heapVirtualAddressStart := 0
      heapSize := 0
      stackVirtualAddressStart := 0
      stackSize := 0
      pageMapL4TableAddr := 0x1000 }
  memoryMappings := fun _ => .empty

/-- The process makes a system call. -/
def readOnlyState (writeProtect : Bool) : CopyState where
  memory := readOnlyPage
  runningProcess := some readOnlyProcess
  currentPageTable := 0x1000
  kernelPageMapL4TableAddr := 0x6000
  writeProtect := writeProtect

theorem not_permits_readOnly (w : Bool) : ¬ (readOnlyState w).Permits .write 0x1000 1 := by
  intro h
  obtain ⟨p, addressSpace, t, hrun, hspace, -, ht, hallows⟩ := h 0 (by decide)
  obtain rfl : readOnlyProcess = p := Option.some.inj hrun
  obtain rfl := Option.some.inj hspace
  have hpage : readOnlyPage.kernelTranslation 0x1000 0x1000 =
      some { page := 0x201000, userAccess := true, writeable := false } := by
    decide +kernel
  obtain rfl := Option.some.inj (hpage.symm.trans ht)
  cases hallows

/-- A copy of the kernel to the read-only page is not refused: it succeeds, and ends in a page fault
where the processor checks the writes of supervisor mode. -/
theorem not_respectsPermissions_readOnly :
    ¬ (readOnlyState false).RespectsPermissions 0x1000 0xFFFF800000000000 1 ∧
      ((readOnlyState false).copyFromKernelToUser 0xFFFF800000000000 0x1000 1).map
        (fun r => (r.2, r.1.memory.bytes 0x201000)) = some (true, 7) ∧
    ¬ (readOnlyState true).RespectsPermissions 0x1000 0xFFFF800000000000 1 ∧
      ((readOnlyState true).copyFromKernelToUser 0xFFFF800000000000 0x1000 1).isNone = true := by
  have hcopies : ((readOnlyState false).copyFromKernelToUser 0xFFFF800000000000 0x1000 1).map
      (fun r => (r.2, r.1.memory.bytes 0x201000)) = some (true, 7) := by
    decide +kernel
  have hfaults : ((readOnlyState true).copyFromKernelToUser 0xFFFF800000000000 0x1000 1).isNone =
      true := by
    decide +kernel
  refine ⟨fun h => ?_, hcopies, fun h => ?_, hfaults⟩
  · obtain ⟨s', hresult, -⟩ := h.toUser (not_permits_readOnly false)
    rw [hresult] at hcopies
    cases hcopies
  · obtain ⟨s', hresult, -⟩ := h.toUser (not_permits_readOnly true)
    rw [hresult] at hfaults
    cases hfaults

/-- Copies from and to the process whose page is read-only. -/
theorem copies_respect_permissions_readOnly :
    (readOnlyState false).RespectsPermissions 0x1000 0xFFFF800000000000 1 ↔
      ((readOnlyState false).ReachesCopy 0x1000 0xFFFF800000000000 1 →
        (readOnlyState false).NoReadOnlyPage 0x1000 1) :=
  copies_respect_permissions_iff _ (by decide) (by decide)

end CopyState

end TwistedOS
