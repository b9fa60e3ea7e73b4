import TwistedOS.Data.RadixSubtree
import TwistedOS.Memory.BuddyCompleteness
import TwistedOS.Memory.PageMapCopy

/-!
# The steps of a copy

While an address space is copied, only pages change that were free before, so that its own tables
keep their words. A table is copied completely if the pages suffice for the tables below it; then
its copy is the root of a tree over the new pages, and keys are looked up in the copy as in the
source.

## Main definitions

* `PhysicalMemoryManager.CopySource`: the tables that are copied are in use.
* `PhysicalMemoryManager.Copying`: the state of memory while pages are given to the copy.
* `PhysicalMemoryManager.CopiesSlot`, `PhysicalMemoryManager.CopiesTable`: what is to be shown of
  the functions that copy entries and tables.

## Main results

* `PhysicalMemoryManager.copiesTable_copyPageDirectoryPointerTable`.
-/

namespace TwistedOS

open RadixTree

/-! ### Entries -/

theorem testBit_nonPresentCopyFlagMask (i : ℕ) :
    nonPresentCopyFlagMask.testBit i = (decide (i < 12) && !decide (i = 0)) := by
  rw [nonPresentCopyFlagMask, testBit_clearBits, testBit_leafAllowedFlagMask,
    testBit_entryFlagPresent]

@[simp] theorem entryPresent_sanitizeNonPresentCopiedEntry (entry : ℕ) :
    entryPresent (sanitizeNonPresentCopiedEntry entry) = false := by
  rw [entryPresent, sanitizeNonPresentCopiedEntry, Nat.testBit_or, Nat.testBit_and,
    Nat.testBit_and, testBit_validPhysicalAddrMask, testBit_nonPresentCopyFlagMask]
  simp

/-- A leaf has the address bits that `VALID_PHYSICAL_ADDR_MASK` leaves. -/
theorem entryAddress_buildLeafEntryValue_self (entry flags : ℕ) (user writeable : Bool) :
    entryAddress (buildLeafEntryValue entry flags user writeable) =
      entryAddress entry &&& validPhysicalAddrMask := by
  refine Nat.eq_of_testBit_eq fun i => ?_
  simp only [entryAddress, Nat.testBit_and, testBit_buildLeafEntryValue, testBit_physPageAddrMask,
    testBit_validPhysicalAddrMask]
  by_cases hi : 12 ≤ i ∧ i < 32
  · have hmask : 12 ≤ i ∧ i < 52 := by omega
    have hlow : ¬ i = 0 ∧ ¬ i = 1 ∧ ¬ i = 2 ∧ ¬ i < 12 := by omega
    simp [hi, hmask, hlow]
  · grind

@[simp] theorem entrySize_buildLeafEntryValue (address flags : ℕ) (user writeable : Bool) :
    entrySize (buildLeafEntryValue address flags user writeable) = entrySize flags := by
  simp [entrySize, testBit_buildLeafEntryValue]

/-- An entry that is not present is no part of the source. -/
theorem sourceEntry_of_not_present {entry : ℕ} (depth : ℕ) (i : Fin 512)
    (h : entryPresent entry = false) : sourceEntry depth i entry = .empty := by
  simp [sourceEntry, h]

theorem sourceEntry_of_page {depth entry : ℕ} {i : Fin 512} (hdepth : depth ≠ 0)
    (hpresent : entryPresent entry = true) (hpage : depth < 3 → entrySize entry = true) :
    sourceEntry depth i entry =
      if isValidLeafPhysicalAddress (entryAddress entry &&& validPhysicalAddrMask) then
        .leaf (entryAddress entry &&& validPhysicalAddrMask) (pageTag entry)
      else .empty := by
  have hleaf : ¬ (depth = 0 ∨ depth < 3 ∧ entrySize entry = false) := by
    rintro (hzero | ⟨hlt, hsize⟩)
    · exact hdepth hzero
    · simp [hpage hlt] at hsize
  rw [sourceEntry, if_neg (fun h => hdepth h.1), if_neg (by simp [hpresent]), if_neg hleaf]

theorem readEntry_of_page {depth entry : ℕ} {i : Fin 512} (hdepth : depth ≠ 0)
    (hpresent : entryPresent entry = true) (hpage : depth < 3 → entrySize entry = true) :
    readEntry depth i entry = .leaf (entryAddress entry) (pageTag entry) := by
  rw [readEntry_of_present (fun h => absurd h hdepth) hpresent, if_neg]
  rintro (hzero | ⟨hlt, hsize⟩)
  · exact hdepth hzero
  · simp [hpage hlt] at hsize

theorem readEntry_of_not_present {entry : ℕ} (depth : ℕ) (i : Fin 512)
    (h : entryPresent entry = false) : readEntry depth i entry = .empty := by
  simp [readEntry, h]

/-- What a slot of the copy means when it holds the copy of a large page. -/
theorem readEntry_copyLargePage {depth entry : ℕ} (i : Fin 512) (hdepth : depth ≠ 0)
    (hpresent : entryPresent entry = true) (hsize : entrySize entry = true) :
    readEntry depth i (copyLargePage entry) = sourceEntry depth i entry := by
  rw [sourceEntry_of_page hdepth hpresent fun _ => hsize, copyLargePage, ← entryAddress]
  by_cases hvalid : isValidLeafPhysicalAddress (entryAddress entry &&& validPhysicalAddrMask) = true
  · obtain ⟨-, hmod, hlt⟩ := of_decide_eq_true hvalid
    rw [if_pos hvalid, if_pos hvalid, readEntry_of_page hdepth (by simp) (by simp [hsize]),
      entryAddress_buildLeafEntryValue hmod hlt]
    simp [pageTag]
  · rw [if_neg hvalid, if_neg hvalid, readEntry_of_not_present _ _ (by simp)]

/-- What a slot of the last level of the copy means. -/
theorem readEntry_copyPage (i : Fin 512) (entry : ℕ) :
    readEntry 3 i (copyPage entry) = sourceEntry 3 i entry := by
  rw [copyPage, ← entryAddress]
  by_cases hpresent : entryPresent entry = true
  · rw [sourceEntry_of_page (by decide) hpresent (by simp), if_neg (not_not.mpr hpresent)]
    by_cases hvalid :
        isValidLeafPhysicalAddress (entryAddress entry &&& validPhysicalAddrMask) = true
    · rw [if_neg (not_not.mpr hvalid), if_pos hvalid, readEntry_of_page (by decide) (by simp)
        (by simp), entryAddress_buildLeafEntryValue_self]
      simp [pageTag]
    · rw [if_pos hvalid, if_neg hvalid, readEntry_of_not_present _ _ (by simp)]
  · rw [if_pos hpresent, sourceEntry_of_not_present _ _ (by simpa using hpresent),
      readEntry_of_not_present _ _ (by simp)]

/-- What a slot of the copy means when it holds a new table. -/
theorem readEntry_newTable {depth address : ℕ} {i : Fin 512} (hdepth : depth < 3)
    (hindex : depth = 0 → i.val < 256) (halign : address % pageSize = 0) (hlt : address < 2 ^ 32)
    (entry : ℕ) :
    readEntry depth i (buildNonLeafEntryValue address entry (entryUserAccess entry)) =
      .table address ⟨entryUserAccess entry, true⟩ := by
  rw [readEntry_nonLeaf hdepth hindex halign hlt, pageTag, entryUserAccess_buildNonLeafEntryValue,
    Bool.or_self, entryWriteable, testBit_buildNonLeafEntryValue]
  simp

@[simp] theorem readEntry_zero (depth : ℕ) (i : Fin 512) : readEntry depth i 0 = .empty := by
  simp [readEntry]

namespace PhysicalMemoryManager

/-! ### Memory while a copy is made -/

/-- The tables that are copied are in use: none of them is a page that the allocator may give
out. -/
structure CopySource (m₀ : PhysicalMemoryManager) (root : ℕ) (live : List DyadicBlock) : Prop where
  valid : Valid m₀ live
  start_mod : m₀.memoryDescriptorInfo.physicalAddressStart % pageSize = 0
  end_le : m₀.pageAddress m₀.memoryDescriptorInfo.totalNumberOfPages ≤ pmmBuddyPhysicalLimit
  maxOrder : m₀.buddyMaxOrder = floorLog2Pages m₀.memoryDescriptorInfo.totalNumberOfPages
  root_mod : root % pageSize = 0
  notFree : ∀ p t, reach m₀.sourceEntries 0 root p = some t → ∀ k, m₀.PageFree k →
    m₀.pageAddress k ≠ t

/-- The pages `S` have been allocated since the state `m₀`, and only pages that were free then have
changed. -/
structure Copying (m₀ : PhysicalMemoryManager) (live : List DyadicBlock) (S : List ℕ)
    (m : PhysicalMemoryManager) : Prop where
  valid : Valid m (unitBlocks S ++ live)
  start : m.memoryDescriptorInfo.physicalAddressStart =
    m₀.memoryDescriptorInfo.physicalAddressStart
  total : m.memoryDescriptorInfo.totalNumberOfPages = m₀.memoryDescriptorInfo.totalNumberOfPages
  maxOrder : m.buddyMaxOrder = m₀.buddyMaxOrder
  memory : ∀ a, (∀ k, m₀.PageFree k → ¬ m₀.InBlock ⟨k, 0⟩ a) →
    m.physicalMemory a = m₀.physicalMemory a

/-- Slots of pages have the same words in both states. -/
def SameSlots (m₀ m m' : PhysicalMemoryManager) (P : ℕ → Fin 512 → Prop) : Prop :=
  ∀ k i, P k i → m'.entry (m₀.pageAddress k) i = m.entry (m₀.pageAddress k) i

variable {m₀ m m' m'' : PhysicalMemoryManager} {live : List DyadicBlock} {S : List ℕ}
  {root t k : ℕ} {p : List (Fin 512)} {i : Fin 512} {P Q : ℕ → Fin 512 → Prop}

theorem SameSlots.trans (h : SameSlots m₀ m m' P) (h' : SameSlots m₀ m' m'' P) :
    SameSlots m₀ m m'' P := fun k i hk => (h' k i hk).trans (h k i hk)

theorem SameSlots.mono (h : SameSlots m₀ m m' P) (hsub : ∀ k i, Q k i → P k i) :
    SameSlots m₀ m m' Q := fun k i hk => h k i (hsub k i hk)

/-- A slot of a page is a word of it. -/
theorem inBlock_slot (m : PhysicalMemoryManager) (k : ℕ) (i : Fin 512) :
    m.InBlock ⟨k, 0⟩ (m.pageAddress k + 8 * i.val) := by
  have := i.isLt
  refine inBlock_page.mpr ⟨Nat.le_add_right _ _, ?_⟩
  simp only [pageSize]
  omega

theorem not_inBlock_slot (m : PhysicalMemoryManager) {k k' : ℕ} (hne : k' ≠ k) (i : Fin 512) :
    ¬ m.InBlock ⟨k, 0⟩ (m.pageAddress k' + 8 * i.val) := by
  have := i.isLt
  rw [inBlock_page]
  simp only [pageAddress, pageSize]
  omega

/-- Slots of different pages are different words. -/
theorem pageSlot_injective (m : PhysicalMemoryManager) {k k' : ℕ} {i j : Fin 512}
    (h : m.pageAddress k + 8 * i.val = m.pageAddress k' + 8 * j.val) : k = k' ∧ i = j := by
  simp only [pageAddress, pageSize] at h
  have := i.isLt
  have := j.isLt
  exact ⟨by omega, by ext; omega⟩

/-- The tables that are copied begin pages. -/
theorem CopySource.table_mod (h : CopySource m₀ root live)
    (hp : reach m₀.sourceEntries 0 root p = some t) : t % pageSize = 0 := by
  rcases List.eq_nil_or_concat' p with rfl | ⟨p, i, rfl⟩
  · obtain rfl : root = t := Option.some.inj hp
    exact h.root_mod
  · obtain ⟨c, hc⟩ := exists_reach_of_concat hp
    rw [reach_concat hc] at hp
    obtain ⟨g, hentry⟩ := RadixEntry.exists_of_child hp
    change sourceEntry _ _ _ = _ at hentry
    rw [sourceEntry] at hentry
    split_ifs at hentry
    rw [← (RadixEntry.table.inj hentry).1]
    exact normalizeTablePhysicalAddress_mod _

namespace Copying

theorem refl (h : Valid m₀ live) : Copying m₀ live [] m₀ :=
  ⟨h, rfl, rfl, rfl, fun _ _ => rfl⟩

section

variable (h : Copying m₀ live S m)

include h

theorem pageAddress : m.pageAddress = m₀.pageAddress := by
  funext i
  simp only [PhysicalMemoryManager.pageAddress, h.start]

theorem inBlock_iff (b : DyadicBlock) (a : ℕ) : m.InBlock b a ↔ m₀.InBlock b a := by
  simp only [InBlock, h.pageAddress]

theorem pageFree (h₀ : Valid m₀ live) (hk : k ∈ S) : m₀.PageFree k := by
  have hmem : (⟨k, 0⟩ : DyadicBlock) ∈ unitBlocks S ++ live :=
    List.mem_append_left _ (mem_unitBlocks.mpr ⟨k, hk, rfl⟩)
  have hend := h.valid.end_le hmem
  rw [DyadicBlock.size_mk, pow_zero, h.total] at hend
  exact (h₀.pageFree_iff k).mpr ⟨hend, h.valid.nodup.2 k hk⟩

/-- A page that is free now was free before, and is none of those that have been allocated. -/
theorem pageFree_of_pageFree (h₀ : Valid m₀ live) (hk : m.PageFree k) : m₀.PageFree k ∧ k ∉ S := by
  obtain ⟨hlt, hnot⟩ := (h.valid.pageFree_iff k).mp hk
  refine ⟨(h₀.pageFree_iff k).mpr ⟨h.total ▸ hlt, fun b hb =>
    hnot b (List.mem_append_right _ hb)⟩, fun hmem => ?_⟩
  exact hnot ⟨k, 0⟩ (List.mem_append_left _ (mem_unitBlocks.mpr ⟨k, hmem, rfl⟩))
    (DyadicBlock.contains_start _)

/-- The free pages, and those that have been allocated. -/
theorem numberOfFreePages_add (h₀ : Valid m₀ live) :
    m.memoryDescriptorInfo.numberOfFreePages + S.length =
      m₀.memoryDescriptorInfo.numberOfFreePages := by
  have hsum := h.valid.numberOfFreePages_add
  have hsum₀ := h₀.numberOfFreePages_add
  have htotal := h.total
  rw [List.map_append, List.sum_append, sum_size_unitBlocks] at hsum
  omega

/-- The words of the tables that are copied. -/
theorem entry_eq (h₀ : CopySource m₀ root live) (hp : reach m₀.sourceEntries 0 root p = some t)
    (i : Fin 512) : m.entry t i = m₀.entry t i := by
  refine h.memory _ fun k hk hin => ?_
  have hne := h₀.notFree p t hp k hk
  have hmod := h₀.table_mod hp
  have hstart := h₀.start_mod
  have := i.isLt
  rw [inBlock_page] at hin
  simp only [PhysicalMemoryManager.pageAddress, pageSize] at *
  omega

/-- A slot of an allocated page is stored. -/
theorem storeEntry (h₀ : Valid m₀ live) (hk : k ∈ S) (i : Fin 512) (value : ℕ) :
    Copying m₀ live S (m.storeEntry (m₀.pageAddress k) i value) ∧
      SameSlots m₀ m (m.storeEntry (m₀.pageAddress k) i value) fun k' j => ¬ (k' = k ∧ j = i) := by
  have hmem : (⟨k, 0⟩ : DyadicBlock) ∈ unitBlocks S ++ live :=
    List.mem_append_left _ (mem_unitBlocks.mpr ⟨k, hk, rfl⟩)
  have hslot : ∀ a, ¬ m₀.InBlock ⟨k, 0⟩ a → a ≠ m₀.pageAddress k + 8 * i.val :=
    fun a ha heq => ha (heq ▸ inBlock_slot m₀ k i)
  refine ⟨⟨h.valid.write fun a ha => Function.update_of_ne (hslot a ?_) _ _, h.start, h.total,
    h.maxOrder, fun a ha => ?_⟩, fun k' j hne => ?_⟩
  · rw [← h.inBlock_iff]
    exact ha _ hmem
  · exact (Function.update_of_ne (hslot a (ha k (h.pageFree h₀ hk))) _ _).trans (h.memory a ha)
  · have hword : m₀.pageAddress k' + 8 * j.val ≠ m₀.pageAddress k + 8 * i.val :=
      fun heq => hne (pageSlot_injective m₀ heq)
    simp only [entry, PhysicalMemoryManager.storeEntry, Function.update_of_ne hword]

/-- A page that the allocator has given out is filled. -/
theorem fill (h₀ : Valid m₀ live) (hvalid : Valid m' (⟨k, 0⟩ :: (unitBlocks S ++ live)))
    (hkeeps : Keeps m m' (unitBlocks S ++ live)) (words : ℕ → ℕ) :
    k ∉ S ∧ Copying m₀ live (k :: S) (m'.fillPages (m₀.pageAddress k) 1 words) ∧
      SameSlots m₀ m (m'.fillPages (m₀.pageAddress k) 1 words) (fun k' _ => k' ∈ S) ∧
      ∀ i : Fin 512, (m'.fillPages (m₀.pageAddress k) 1 words).entry (m₀.pageAddress k) i =
        words i := by
  have hpage : m'.pageAddress = m₀.pageAddress := hkeeps.pageAddress.trans h.pageAddress
  have hfresh : k ∉ S := fun hk => (hvalid.nodup (P := [k])).2 k List.mem_cons_self ⟨k, 0⟩
    (List.mem_append_left _ (mem_unitBlocks.mpr ⟨k, hk, rfl⟩)) (DyadicBlock.contains_start _)
  have hfill : ∀ a, ¬ m₀.InBlock ⟨k, 0⟩ a →
      (m'.fillPages (m₀.pageAddress k) 1 words).physicalMemory a = m'.physicalMemory a := by
    intro a ha
    rw [← hpage]
    refine fillPages_memory (b := ⟨k, 0⟩) (by simp) _ ?_
    rwa [InBlock, hpage]
  refine ⟨hfresh, ⟨hvalid.write fun a ha => hfill a ?_, hkeeps.start.trans h.start,
    hkeeps.total.trans h.total, hkeeps.maxOrder.trans h.maxOrder, fun a ha => ?_⟩,
    fun k' j hk' => ?_, fun j => ?_⟩
  · have hout := ha _ List.mem_cons_self
    rwa [InBlock, hpage] at hout
  · have hend := hvalid.end_le List.mem_cons_self
    rw [DyadicBlock.size_mk, pow_zero, hkeeps.total, h.total] at hend
    have hk : m₀.PageFree k := (h₀.pageFree_iff k).mpr ⟨hend, fun b hb =>
      (hvalid.nodup (P := [k])).2 k List.mem_cons_self b (List.mem_append_right _ hb)⟩
    rw [hfill a (ha k hk), ← h.memory a ha]
    refine hkeeps.memory a ?_
    rintro ⟨j, hj, rfl, hnot⟩
    have hfree := h.pageFree_of_pageFree h₀ ((h.valid.pageFree_iff j).mpr ⟨hj, hnot⟩)
    refine ha j hfree.1 ?_
    rw [h.pageAddress]
    exact inBlock_slot m₀ j 0
  · have hmem : (⟨k', 0⟩ : DyadicBlock) ∈ unitBlocks S ++ live :=
      List.mem_append_left _ (mem_unitBlocks.mpr ⟨k', hk', rfl⟩)
    rw [entry, entry, hfill _ (not_inBlock_slot m₀ (ne_of_mem_of_not_mem hk' hfresh) j)]
    exact hkeeps.memory_eq hmem ((h.inBlock_iff _ _).mpr (inBlock_slot m₀ k' j))
  · have := j.isLt
    rw [entry, PhysicalMemoryManager.fillPages]
    dsimp only
    rw [if_pos ⟨Nat.le_add_right _ _, by simp only [pageSize]; omega⟩]
    congr 1
    omega

/-- A page is allocated and cleared if one is free. -/
theorem allocate (h₀ : CopySource m₀ root live) :
    (m.allocatePagesFromDescriptor 1 = (m, 0) ∧
      S.length = m₀.memoryDescriptorInfo.numberOfFreePages) ∨
    ∃ m' k, m.allocatePagesFromDescriptor 1 = (m', m₀.pageAddress k) ∧ m₀.pageAddress k ≠ 0 ∧
      S.length < m₀.memoryDescriptorInfo.numberOfFreePages ∧ k ∉ S ∧
      Copying m₀ live (k :: S) (m'.fillPages (m₀.pageAddress k) 1 fun _ => 0) ∧
      SameSlots m₀ m (m'.fillPages (m₀.pageAddress k) 1 fun _ => 0) (fun k' _ => k' ∈ S) ∧
      ∀ i : Fin 512, (m'.fillPages (m₀.pageAddress k) 1 fun _ => 0).entry (m₀.pageAddress k) i = 0 := by
  have hcount := h.numberOfFreePages_add h₀.valid
  obtain ⟨free, hlists, -⟩ := h.valid.free
  rcases h.valid.allocate_lists hlists 1 with
    ⟨hfails, -⟩ | ⟨m', k, -, hcall, hvalid, hkeeps, -⟩
  · have hnone := h.valid.numberOfFreePages_eq_zero (by rw [h.maxOrder, h₀.maxOrder, h.total])
      (by rw [h.pageAddress, h.total]; exact h₀.end_le) hfails
    exact .inl ⟨hfails, by omega⟩
  · obtain ⟨hfresh, hcopying, hsame, hclear⟩ := h.fill h₀.valid hvalid hkeeps fun _ => 0
    refine .inr ⟨m', k, by rw [hcall, h.pageAddress], ?_, ?_, hfresh, hcopying, hsame, hclear⟩
    · rw [← h.pageAddress]
      exact hlists.pageAddress_ne_zero k
    · have hcount' := hcopying.numberOfFreePages_add h₀.valid
      rw [List.length_cons] at hcount'
      omega

end

end Copying

/-! ### What has been copied -/

/-- The tables in the pages `C`. -/
def InPages (m₀ : PhysicalMemoryManager) (C : List ℕ) (t : ℕ) : Prop := ∃ k ∈ C, t = m₀.pageAddress k

/-- A slot of the copy in page `k` of a table `old` leads where the slot of the source leads,
through a tree over the pages `C`. -/
structure SlotCopied (m₀ m : PhysicalMemoryManager) (depth old k : ℕ) (i : Fin 512) (C : List ℕ) :
    Prop where
  lookup_eq : ∀ q, lookup m.lowerEntries depth (m₀.pageAddress k) (i :: q) =
    lookup m₀.sourceEntries depth old (i :: q)
  below : ∀ c, (m.lowerEntries depth (m₀.pageAddress k) i).child = some c →
    TreeOver m.lowerEntries (depth + 1) c (m₀.InPages C)
  nil : (m.lowerEntries depth (m₀.pageAddress k) i).child = none → C = []

/-- The first `count` slots have been copied, with the pages `L` below them, and the others are
empty. -/
structure SlotsCopied (m₀ m : PhysicalMemoryManager) (depth old k count : ℕ) (L : List ℕ)
    (C : Fin 512 → List ℕ) : Prop where
  mem_iff : ∀ x, x ∈ L ↔ ∃ i, x ∈ C i
  disjoint : ∀ i j x, x ∈ C i → x ∈ C j → i = j
  copied : ∀ i : Fin 512, i.val < count → SlotCopied m₀ m depth old k i (C i)
  after : ∀ i : Fin 512, count ≤ i.val → C i = [] ∧ m.entry (m₀.pageAddress k) i = 0

/-- The page `k` holds the copy of a table, with the pages `L` below it. -/
structure TableCopied (m₀ m : PhysicalMemoryManager) (depth old k : ℕ) (L : List ℕ) : Prop where
  lookup_eq : ∀ q, lookup m.lowerEntries depth (m₀.pageAddress k) q =
    lookup m₀.sourceEntries depth old q
  tree : TreeOver m.lowerEntries depth (m₀.pageAddress k) (m₀.InPages (k :: L))

variable {depth old count : ℕ} {L C : List ℕ} {D : Fin 512 → List ℕ}

theorem SameSlots.lowerEntries_eq (h : SameSlots m₀ m m' P) (hk : P k i) (d : ℕ) :
    m'.lowerEntries d (m₀.pageAddress k) i = m.lowerEntries d (m₀.pageAddress k) i := by
  rw [lowerEntries, lowerEntries, h k i hk]

/-- A copied slot stays if its word does and the words of the tables below it. -/
theorem SlotCopied.congr (h : SlotCopied m₀ m depth old k i C) (hsame : SameSlots m₀ m m' P)
    (hslot : P k i) (hbelow : ∀ k' ∈ C, ∀ j, P k' j) : SlotCopied m₀ m' depth old k i C := by
  have hentry := hsame.lowerEntries_eq hslot depth
  have hsub : ∀ c, (m.lowerEntries depth (m₀.pageAddress k) i).child = some c →
      TreeOver m'.lowerEntries (depth + 1) c (m₀.InPages C) ∧
        ∀ q, lookup m'.lowerEntries (depth + 1) c q = lookup m.lowerEntries (depth + 1) c q := by
    refine fun c hc => (h.below c hc).congr ?_
    rintro t ⟨k', hk', rfl⟩ d j
    exact hsame.lowerEntries_eq (hbelow k' hk' j) d
  refine ⟨fun q => ?_, fun c hc => (hsub c (hentry ▸ hc)).1, fun hnone => h.nil (hentry ▸ hnone)⟩
  rw [← h.lookup_eq q]
  cases hcase : m.lowerEntries depth (m₀.pageAddress k) i with
  | empty => rw [lookup_cons_of_empty hcase, lookup_cons_of_empty (hentry.trans hcase)]
  | leaf b g => rw [lookup_cons_of_leaf hcase, lookup_cons_of_leaf (hentry.trans hcase)]
  | table c g =>
    rw [lookup_cons_of_table hcase, lookup_cons_of_table (hentry.trans hcase),
      (hsub c (by rw [hcase, RadixEntry.child_table])).2]

/-- A slot that names no table is copied by its word. -/
theorem SlotCopied.of_child_none
    (hentry : m.lowerEntries depth (m₀.pageAddress k) i = m₀.sourceEntries depth old i)
    (hnone : (m₀.sourceEntries depth old i).child = none) :
    SlotCopied m₀ m depth old k i [] := by
  refine ⟨fun q => ?_, fun c hc => ?_, fun _ => rfl⟩
  · rw [lookup, lookup, hentry]
    cases hcase : m₀.sourceEntries depth old i with
    | empty => rfl
    | leaf b g => rfl
    | table c g => simp [hcase] at hnone
  · rw [hentry, hnone] at hc
    simp at hc

/-- A slot that names a table is copied by a table that has been copied. -/
theorem SlotCopied.of_table {c c' : ℕ} {g : PageTag}
    (hentry : m.lowerEntries depth (m₀.pageAddress k) i = .table (m₀.pageAddress c') g)
    (hsource : m₀.sourceEntries depth old i = .table c g)
    (hcopied : TableCopied m₀ m (depth + 1) c c' L) :
    SlotCopied m₀ m depth old k i (L ++ [c']) := by
  have hpages : m₀.InPages (L ++ [c']) = m₀.InPages (c' :: L) := by
    funext t
    simp only [InPages, (List.perm_append_singleton c' L).mem_iff]
  refine ⟨fun q => ?_, fun e he => ?_, fun hnone => ?_⟩
  · rw [lookup_cons_of_table hentry, lookup_cons_of_table hsource, hcopied.lookup_eq]
  · rw [hentry, RadixEntry.child_table] at he
    rw [← Option.some.inj he, hpages]
    exact hcopied.tree
  · simp [hentry] at hnone

namespace SlotsCopied

theorem zero (h : ∀ i : Fin 512, m.entry (m₀.pageAddress k) i = 0) (depth old : ℕ) :
    SlotsCopied m₀ m depth old k 0 [] fun _ => [] :=
  ⟨by simp, by simp, fun i hi => absurd hi (Nat.not_lt_zero _), fun i _ => ⟨rfl, h i⟩⟩

/-- The tables below the slots form a tree with the table itself. -/
theorem tree (h : SlotsCopied m₀ m depth old k count L D) (hk : k ∉ L) :
    TreeOver m.lowerEntries depth (m₀.pageAddress k) (m₀.InPages (k :: L)) := by
  have hnone : ∀ i : Fin 512, (m.lowerEntries depth (m₀.pageAddress k) i).child = none →
      D i = [] := by
    intro i hi
    by_cases hlt : i.val < count
    · exact (h.copied i hlt).nil hi
    · exact (h.after i (Nat.not_lt.mp hlt)).1
  have hnode : TreeOver m.lowerEntries depth (m₀.pageAddress k)
      fun c => c = m₀.pageAddress k ∨ ∃ i, m₀.InPages (D i) c := TreeOver.node ?_ ?_ ?_ ?_
  · refine ⟨hnode.tree, fun c => (hnode.mem_iff c).trans ?_⟩
    simp only [InPages, List.mem_cons, h.mem_iff]
    constructor
    · rintro (rfl | ⟨i, k', hk', rfl⟩)
      · exact ⟨k, .inl rfl, rfl⟩
      · exact ⟨k', .inr ⟨i, hk'⟩, rfl⟩
    · rintro ⟨k', rfl | ⟨i, hk'⟩, rfl⟩
      · exact .inl rfl
      · exact .inr ⟨i, k', hk', rfl⟩
  · intro i c hc
    by_cases hlt : i.val < count
    · exact (h.copied i hlt).below c hc
    · rw [lowerEntries, (h.after i (Nat.not_lt.mp hlt)).2, readEntry_zero] at hc
      simp at hc
  · rintro i hi c ⟨k', hk', -⟩
    rw [hnone i hi] at hk'
    exact List.not_mem_nil hk'
  · rintro i ⟨k', hk', heq⟩
    rw [← m₀.pageAddress_injective heq] at hk'
    exact hk ((h.mem_iff k).mpr ⟨i, hk'⟩)
  · rintro i j c ⟨k₁, hk₁, rfl⟩ ⟨k₂, hk₂, heq⟩
    rw [← m₀.pageAddress_injective heq] at hk₂
    exact h.disjoint i j k₁ hk₁ hk₂

/-- When all slots have been copied, the table has. -/
theorem tableCopied (h : SlotsCopied m₀ m depth old k 512 L D) (hk : k ∉ L) :
    TableCopied m₀ m depth old k L := by
  refine ⟨fun q => ?_, h.tree hk⟩
  cases q with
  | nil => rfl
  | cons i q => exact (h.copied i i.isLt).lookup_eq q

/-- The copied slots stay if no word of the table changes and none of the tables below it. -/
theorem congr (h : SlotsCopied m₀ m depth old k count L D)
    (hsame : SameSlots m₀ m m' fun k' _ => k' ∈ k :: L) :
    SlotsCopied m₀ m' depth old k count L D where
  mem_iff := h.mem_iff
  disjoint := h.disjoint
  copied i hi := (h.copied i hi).congr hsame List.mem_cons_self fun k' hk' _ =>
    List.mem_cons_of_mem k ((h.mem_iff k').mpr ⟨i, hk'⟩)
  after i hi := ⟨(h.after i hi).1, (hsame k i List.mem_cons_self).trans (h.after i hi).2⟩

theorem succ {L' : List ℕ} (h : SlotsCopied m₀ m depth old k i.val L D) (hk : k ∉ L)
    (hsame : SameSlots m₀ m m' fun k' j => k' ∈ k :: L ∧ ¬ (k' = k ∧ j = i))
    (hfresh : ∀ x ∈ L', x ∉ L) (hslot : SlotCopied m₀ m' depth old k i L') :
    SlotsCopied m₀ m' depth old k (i.val + 1) (L' ++ L) (Function.update D i L') := by
  have hDi : D i = [] := (h.after i le_rfl).1
  have hmem : ∀ j x, x ∈ Function.update D i L' j ↔ (j = i ∧ x ∈ L') ∨ x ∈ D j := by
    intro j x
    by_cases hj : j = i
    · obtain rfl := hj
      simp [hDi]
    · simp [hj]
  refine ⟨fun x => ?_, fun j j' x hj hj' => ?_, fun j hj => ?_, fun j hj => ?_⟩
  · rw [List.mem_append, h.mem_iff]
    simp only [hmem, exists_or, exists_and_right, exists_eq, true_and]
  · rw [hmem] at hj hj'
    rcases hj with ⟨rfl, hx⟩ | hx <;> rcases hj' with ⟨rfl, hx'⟩ | hx'
    · rfl
    · exact absurd ((h.mem_iff x).mpr ⟨j', hx'⟩) (hfresh x hx)
    · exact absurd ((h.mem_iff x).mpr ⟨j, hx⟩) (hfresh x hx')
    · exact h.disjoint j j' x hx hx'
  · by_cases hji : j = i
    · obtain rfl := hji
      rwa [Function.update_self]
    · rw [Function.update_of_ne hji]
      have hlt : j.val < i.val := by
        have := Fin.val_ne_of_ne hji
        omega
      refine (h.copied j hlt).congr hsame ⟨List.mem_cons_self, fun hj => hji hj.2⟩
        fun k' hk' j' => ?_
      have hin : k' ∈ L := (h.mem_iff k').mpr ⟨j, hk'⟩
      exact ⟨List.mem_cons_of_mem k hin, fun heq => hk (heq.1 ▸ hin)⟩
  · have hji : j ≠ i := by
      rintro rfl
      omega
    obtain ⟨hnil, hzero⟩ := h.after j (by omega)
    rw [Function.update_of_ne hji]
    exact ⟨hnil, (hsame k j ⟨List.mem_cons_self, fun hj => hji hj.2⟩).trans hzero⟩

end SlotsCopied

/-! ### Functions that copy -/

/-- A slot has been copied with `need` new pages, or there were not as many, and those that there
were have been taken in vain. The new pages and the slot are all that has changed. -/
def SlotOutcome (m₀ : PhysicalMemoryManager) (live : List DyadicBlock) (m : PhysicalMemoryManager)
    (S : List ℕ) (depth old k : ℕ) (i : Fin 512) (need : ℕ) (r : PhysicalMemoryManager × Bool) :
    Prop :=
  ∃ L, Copying m₀ live (L ++ S) r.1 ∧
    SameSlots m₀ m r.1 (fun k' j => k' ∈ S ∧ ¬ (k' = k ∧ j = i)) ∧
    (r.2 = true ↔ S.length + need ≤ m₀.memoryDescriptorInfo.numberOfFreePages) ∧
    (r.2 = true → L.length = need ∧ SlotCopied m₀ r.1 depth old k i L) ∧
    (r.2 = false → SameSlots m₀ m r.1 (fun k' _ => k' ∈ S) ∧
      (S.length < m₀.memoryDescriptorInfo.numberOfFreePages → L ≠ []))

/-- A table has been copied with `need` new pages below it, or there were not as many. -/
def TableOutcome (m₀ : PhysicalMemoryManager) (live : List DyadicBlock) (m : PhysicalMemoryManager)
    (S : List ℕ) (depth old k need : ℕ) (r : PhysicalMemoryManager × Bool) : Prop :=
  ∃ L, Copying m₀ live (L ++ S) r.1 ∧ SameSlots m₀ m r.1 (fun k' _ => k' ∈ S ∧ k' ≠ k) ∧
    (r.2 = true ↔ S.length + need ≤ m₀.memoryDescriptorInfo.numberOfFreePages) ∧
    (r.2 = true → L.length = need ∧ TableCopied m₀ r.1 depth old k L)

/-- The function copies slots of the table that the path `p` leads to. -/
def CopiesSlot (m₀ : PhysicalMemoryManager) (live : List DyadicBlock) (root : ℕ)
    (need : ℕ → Fin 512 → ℕ)
    (copyEntry : ℕ → ℕ → PhysicalMemoryManager → ℕ → PhysicalMemoryManager × Bool)
    (p : List (Fin 512)) : Prop :=
  ∀ m S k old (i : Fin 512), Copying m₀ live S m → k ∈ S → m.entry (m₀.pageAddress k) i = 0 →
    reach m₀.sourceEntries 0 root p = some old →
    SlotOutcome m₀ live m S p.length old k i (need old i) (copyEntry old (m₀.pageAddress k) m i)

/-- The function copies the table that the path `p` leads to. -/
def CopiesTable (m₀ : PhysicalMemoryManager) (live : List DyadicBlock) (root : ℕ) (need : ℕ → ℕ)
    (copyTable : PhysicalMemoryManager → ℕ → ℕ → PhysicalMemoryManager × Bool)
    (p : List (Fin 512)) : Prop :=
  ∀ m S k old, Copying m₀ live S m → k ∈ S → (∀ i : Fin 512, m.entry (m₀.pageAddress k) i = 0) →
    reach m₀.sourceEntries 0 root p = some old →
    TableOutcome m₀ live m S p.length old k (need old) (copyTable m old (m₀.pageAddress k))

theorem sumUpTo_zero (f : Fin 512 → ℕ) : sumUpTo f 0 = 0 := by simp [sumUpTo]

theorem sumUpTo_succ (f : Fin 512 → ℕ) (i : Fin 512) :
    sumUpTo f (i.val + 1) = sumUpTo f i.val + f i := by
  rw [sumUpTo, sumUpTo, List.take_succ_eq_append_getElem (by simp), List.map_append,
    List.sum_append]
  simp

/-- New pages are none of those that were there. -/
theorem Copying.disjoint {L : List ℕ} (h : Copying m₀ live (L ++ S) m) : ∀ x ∈ L, x ∉ S := by
  have hnodup := h.valid.nodup.1
  exact fun x hx hS => (List.nodup_append.mp hnodup).2.2 x hx x hS rfl

/-- The loop over the slots of a table. -/
theorem copiesTable_copyEntries {need : ℕ → Fin 512 → ℕ}
    {copyEntry : ℕ → ℕ → PhysicalMemoryManager → ℕ → PhysicalMemoryManager × Bool}
    (h₀ : CopySource m₀ root live) (hslot : CopiesSlot m₀ live root need copyEntry p) :
    CopiesTable m₀ live root (fun old => sumUpTo (need old) 512)
      (fun m old new => copyEntries (copyEntry old new) 512 m) p := by
  intro m S k old hS hk hzero hold
  -- the first `count` slots, by induction on `count`
  have hloop : ∀ count ≤ 512, ∃ r L, copyEntries (copyEntry old (m₀.pageAddress k)) count m = r ∧
      Copying m₀ live (L ++ S) r.1 ∧ SameSlots m₀ m r.1 (fun k' _ => k' ∈ S ∧ k' ≠ k) ∧
      (r.2 = true ↔ S.length + sumUpTo (need old) count ≤
        m₀.memoryDescriptorInfo.numberOfFreePages) ∧
      (r.2 = true → L.length = sumUpTo (need old) count ∧
        ∃ D, SlotsCopied m₀ r.1 p.length old k count L D) := by
    intro count hcount
    induction count with
    | zero =>
      have hfree := hS.numberOfFreePages_add h₀.valid
      refine ⟨(m, true), [], rfl, hS, fun _ _ _ => rfl, ?_, fun _ => ?_⟩
      · rw [sumUpTo_zero]
        simp only [true_iff]
        omega
      · rw [sumUpTo_zero]
        exact ⟨rfl, _, .zero hzero _ _⟩
    | succ count ih =>
      obtain ⟨⟨m₁, ok⟩, L, hrun, hL, hsame, hok, hdone⟩ := ih (by omega)
      obtain ⟨i, rfl⟩ : ∃ i : Fin 512, i.val = count := ⟨⟨count, by omega⟩, rfl⟩
      rw [sumUpTo_succ, copyEntries, hrun]
      cases ok with
      | false =>
        refine ⟨(m₁, false), L, rfl, hL, hsame, ?_, by simp⟩
        simp only [Bool.false_eq_true, false_iff, not_le] at hok ⊢
        omega
      | true =>
        obtain ⟨hlength, D, hD⟩ := hdone rfl
        have hkL : k ∉ L := fun hmem => hL.disjoint k hmem hk
        obtain ⟨L', hL', hsame', hok', hdone', -⟩ :=
          hslot m₁ (L ++ S) k old i hL (List.mem_append_right _ hk) (hD.after i le_rfl).2 hold
        have hlength' : (L ++ S).length = S.length + sumUpTo (need old) i.val := by
          rw [List.length_append]
          omega
        refine ⟨_, L' ++ L, rfl, by rwa [List.append_assoc], ?_, ?_, fun hok₂ => ?_⟩
        · refine hsame.trans (hsame'.mono fun k' j hk' => ?_)
          exact ⟨List.mem_append_right _ hk'.1, fun heq => hk'.2 heq.1⟩
        · rw [hok']
          omega
        · obtain ⟨hlength₂, hcopied⟩ := hdone' hok₂
          refine ⟨by rw [List.length_append]; omega, _, hD.succ hkL (hsame'.mono ?_) ?_ hcopied⟩
          · rintro k' j ⟨hk', hne⟩
            refine ⟨?_, hne⟩
            rcases List.mem_cons.mp hk' with rfl | hk'
            · exact List.mem_append_right _ hk
            · exact List.mem_append_left _ hk'
          · exact fun x hx hxL => hL'.disjoint x hx (List.mem_append_left _ hxL)
  obtain ⟨r, L, rfl, hL, hsame, hok, hdone⟩ := hloop 512 le_rfl
  refine ⟨L, hL, hsame, hok, fun hok => ?_⟩
  obtain ⟨hlength, D, hD⟩ := hdone hok
  exact ⟨hlength, hD.tableCopied fun hmem => hL.disjoint k hmem hk⟩

/-- The word of a slot that names no table is stored. -/
theorem Copying.storeEntry_outcome {value need : ℕ} (h : Copying m₀ live S m)
    (h₀ : CopySource m₀ root live) (hk : k ∈ S) (hneed : need = 0)
    (hvalue : readEntry depth i value = m₀.sourceEntries depth old i)
    (hnone : (m₀.sourceEntries depth old i).child = none) :
    SlotOutcome m₀ live m S depth old k i need
      (m.storeEntry (m₀.pageAddress k) i value, true) := by
  have hfree := h.numberOfFreePages_add h₀.valid
  obtain ⟨hstore, hsame⟩ := h.storeEntry h₀.valid hk i value
  refine ⟨[], hstore, hsame.mono fun _ _ h => h.2, ?_, fun _ => ⟨hneed.symm, ?_⟩, by simp⟩
  · simp only [true_iff]
    omega
  · refine .of_child_none ?_ hnone
    rw [lowerEntries, entry_storeEntry, hvalue]

/-- A slot that the source leaves empty stays empty. -/
theorem Copying.skip_outcome {need : ℕ} (h : Copying m₀ live S m) (h₀ : CopySource m₀ root live)
    (hneed : need = 0) (hzero : m.entry (m₀.pageAddress k) i = 0)
    (hempty : m₀.sourceEntries depth old i = .empty) :
    SlotOutcome m₀ live m S depth old k i need (m, true) := by
  have hfree := h.numberOfFreePages_add h₀.valid
  refine ⟨[], h, fun _ _ _ => rfl, ?_, fun _ => ⟨hneed.symm, .of_child_none ?_ ?_⟩, by simp⟩
  · simp only [true_iff]
    omega
  · rw [lowerEntries, hzero, readEntry_zero, hempty]
  · rw [hempty, RadixEntry.child_empty]

theorem copiesSlot_copyPageEntry (h₀ : CopySource m₀ root live) (hp : p.length = 3) :
    CopiesSlot m₀ live root (fun _ _ => 0) copyPageEntry p := by
  intro m S k old i hS hk hzero hold
  have hread := readEntry_copyPage i (m₀.entry old i)
  have hchild : (m₀.sourceEntries 3 old i).child = none := by
    rw [sourceEntries, ← hread, readEntry]
    split_ifs <;> simp_all
  rw [copyPageEntry, hS.entry_eq h₀ hold, hp]
  by_cases hskip : ¬ entryPresent (m₀.entry old i) = true ∧ m₀.entry old i = 0
  · rw [if_pos hskip]
    refine hS.skip_outcome h₀ rfl hzero ?_
    rw [sourceEntries, hskip.2, sourceEntry_of_not_present _ _ entryPresent_zero]
  · rw [if_neg hskip]
    exact hS.storeEntry_outcome h₀ hk rfl hread hchild

/-- What the copy sees in a slot of the middle levels. -/
theorem sourceEntries_of_table {e : ℕ} (hdepth : depth < 3) (hindex : depth = 0 → i.val < 256)
    (he : m₀.entry old i = e) (hpresent : entryPresent e = true)
    (hsize : depth = 0 ∨ entrySize e = false) :
    m₀.sourceEntries depth old i = if normalizeTablePhysicalAddress (entryAddress e) = 0 then .empty
      else .table (normalizeTablePhysicalAddress (entryAddress e)) ⟨entryUserAccess e, true⟩ := by
  rw [sourceEntries, he, sourceEntry, if_neg (by omega), if_neg (by simp [hpresent]), if_pos]
  exact hsize.imp_right fun hsize => ⟨hdepth, hsize⟩

section

variable (h₀ : CopySource m₀ root live)

include h₀

theorem CopySource.page_lt (hk : m₀.PageFree k) :
    m₀.pageAddress k % pageSize = 0 ∧ m₀.pageAddress k < 2 ^ 32 := by
  have hstart := h₀.start_mod
  have hend := h₀.end_le
  obtain ⟨hlt, -⟩ := (h₀.valid.pageFree_iff k).mp hk
  simp only [pmmBuddyPhysicalLimit, pageAddress, pageSize] at hstart hend ⊢
  omega

/-- A table that has been copied into a page is linked. -/
theorem Copying.link {c c' e : ℕ} (h : Copying m₀ live S m) (hk : k ∈ S) (hc' : c' ∈ S)
    (hkc : k ∉ c' :: L) (hdepth : depth < 3) (hindex : depth = 0 → i.val < 256)
    (hsource : m₀.sourceEntries depth old i = .table c ⟨entryUserAccess e, true⟩)
    (hcopied : TableCopied m₀ m (depth + 1) c c' L) :
    SlotCopied m₀ (m.storeEntry (m₀.pageAddress k) i
      (buildNonLeafEntryValue (m₀.pageAddress c') e (entryUserAccess e))) depth old k i
      (L ++ [c']) := by
  obtain ⟨halign, hlt⟩ := h₀.page_lt (h.pageFree h₀.valid hc')
  obtain ⟨-, hsame⟩ := h.storeEntry h₀.valid hk i
    (buildNonLeafEntryValue (m₀.pageAddress c') e (entryUserAccess e))
  refine .of_table ?_ hsource ?_
  · rw [lowerEntries, entry_storeEntry, readEntry_newTable hdepth hindex halign hlt]
  · have hwords : ∀ t, m₀.InPages (c' :: L) t → ∀ d j,
        (m.storeEntry (m₀.pageAddress k) i (buildNonLeafEntryValue (m₀.pageAddress c') e
          (entryUserAccess e))).lowerEntries d t j = m.lowerEntries d t j := by
      rintro t ⟨k', hk', rfl⟩ d j
      exact hsame.lowerEntries_eq (fun heq => hkc (heq.1 ▸ hk')) d
    obtain ⟨htree, hlookup⟩ := hcopied.tree.congr hwords
    exact ⟨fun q => (hlookup q).trans (hcopied.lookup_eq q), htree⟩

/-- A table below a slot has been copied, or there were not enough pages, after a page had been
allocated for it. -/
theorem Copying.below_outcome {m₁ : PhysicalMemoryManager} {c c' e need : ℕ}
    {r : PhysicalMemoryManager × Bool} (hk : k ∈ S) (hc' : c' ∉ S)
    (hsame : SameSlots m₀ m m₁ fun k' _ => k' ∈ S) (hdepth : depth < 3)
    (hindex : depth = 0 → i.val < 256)
    (hsource : m₀.sourceEntries depth old i = .table c ⟨entryUserAccess e, true⟩)
    (h : TableOutcome m₀ live m₁ (c' :: S) (depth + 1) c c' need r) :
    (r.2 = true → SlotOutcome m₀ live m S depth old k i (need + 1)
      (r.1.storeEntry (m₀.pageAddress k) i
        (buildNonLeafEntryValue (m₀.pageAddress c') e (entryUserAccess e)), true)) ∧
    (r.2 = false → SlotOutcome m₀ live m S depth old k i (need + 1) (r.1, false)) := by
  obtain ⟨L, hL, hsame', hok, hdone⟩ := h
  rw [List.length_cons] at hok
  have hassoc : L ++ [c'] ++ S = L ++ c' :: S := by rw [List.append_assoc, List.singleton_append]
  have hsame₂ : SameSlots m₀ m r.1 fun k' _ => k' ∈ S := hsame.trans (hsame'.mono fun k' _ hk' =>
    ⟨List.mem_cons_of_mem c' hk', ne_of_mem_of_not_mem hk' hc'⟩)
  constructor
  · intro htrue
    obtain ⟨hlength, hcopied⟩ := hdone htrue
    have hmem : k ∈ L ++ c' :: S := List.mem_append_right _ (List.mem_cons_of_mem c' hk)
    have hkc : k ∉ c' :: L := by
      rw [List.mem_cons, not_or]
      exact ⟨ne_of_mem_of_not_mem hk hc', fun hkL => hL.disjoint k hkL (List.mem_cons_of_mem c' hk)⟩
    obtain ⟨hstore, hsame₃⟩ := hL.storeEntry h₀.valid hmem i
      (buildNonLeafEntryValue (m₀.pageAddress c') e (entryUserAccess e))
    refine ⟨L ++ [c'], hassoc ▸ hstore, (hsame₂.mono fun _ _ h => h.1).trans
      (hsame₃.mono fun _ _ h => h.2), ?_, fun _ => ⟨by simp [hlength], ?_⟩, by simp⟩
    · have := hok.mp htrue
      simp only [true_iff]
      omega
    · exact hL.link h₀ hmem (List.mem_append_right _ List.mem_cons_self) hkc hdepth hindex hsource
        hcopied
  · intro hfalse
    rw [hfalse] at hok
    refine ⟨L ++ [c'], hassoc ▸ hL, hsame₂.mono fun _ _ h => h.1, ?_, by simp,
      fun _ => ⟨hsame₂, by simp⟩⟩
    simp only [Bool.false_eq_true, false_iff, not_le] at hok ⊢
    omega

theorem copiesSlot_copyTableEntry {below : ℕ → ℕ}
    {copyTable : PhysicalMemoryManager → ℕ → ℕ → PhysicalMemoryManager × Bool}
    (hp : 0 < p.length ∧ p.length < 3)
    (hbelow : ∀ i, CopiesTable m₀ live root below copyTable (p ++ [i])) :
    CopiesSlot m₀ live root (m₀.pagesThrough below p.length) (copyTableEntry copyTable) p := by
  intro m S k old i hS hk hzero hold
  obtain ⟨e, he⟩ : ∃ e, e = m₀.entry old i := ⟨_, rfl⟩
  have hneed (hnone : (m₀.sourceEntries p.length old i).child = none) :
      m₀.pagesThrough below p.length old i = 0 := by
    rw [pagesThrough, hnone]
  rw [copyTableEntry, hS.entry_eq h₀ hold, ← he]
  dsimp only
  by_cases hpresent : entryPresent e = true
  · rw [if_neg (not_not.mpr hpresent)]
    by_cases hsize : entrySize e = true
    · -- a large page
      have hread : readEntry p.length i (copyLargePage e) = m₀.sourceEntries p.length old i := by
        rw [readEntry_copyLargePage i hp.1.ne' hpresent hsize, sourceEntries, he]
      have hchild : (m₀.sourceEntries p.length old i).child = none := by
        rw [sourceEntries, ← he, sourceEntry_of_page hp.1.ne' hpresent fun _ => hsize]
        split_ifs <;> rfl
      rw [if_pos hsize]
      exact hS.storeEntry_outcome h₀ hk (hneed hchild) hread hchild
    · have hsource := sourceEntries_of_table hp.2 (fun h => absurd h hp.1.ne') he.symm hpresent
        (.inr (by simpa using hsize))
      rw [if_neg hsize]
      by_cases hnormal : normalizeTablePhysicalAddress (entryAddress e) = 0
      · -- no valid table
        rw [if_pos hnormal] at hsource
        have hchild : (m₀.sourceEntries p.length old i).child = none := by
          rw [hsource, RadixEntry.child_empty]
        rw [if_pos hnormal]
        exact hS.storeEntry_outcome h₀ hk (hneed hchild) (by rw [readEntry_zero, hsource]) hchild
      · -- a table, which is copied into a new page
        rw [if_neg hnormal] at hsource ⊢
        have hthrough : m₀.pagesThrough below p.length old i =
            below (normalizeTablePhysicalAddress (entryAddress e)) + 1 := by
          rw [pagesThrough, hsource]
          rfl
        have hreach : reach m₀.sourceEntries 0 root (p ++ [i]) =
            some (normalizeTablePhysicalAddress (entryAddress e)) := by
          rw [reach_concat hold, hsource, RadixEntry.child_table]
        rw [hthrough]
        rcases hS.allocate h₀ with ⟨hfails, hfull⟩ |
          ⟨m₁, c', hcall, hne, hlt, hfresh, hc', hsame, hclear⟩
        · rw [hfails]
          refine ⟨[], hS, fun _ _ _ => rfl, ?_, by simp, fun _ =>
            ⟨fun _ _ _ => rfl, fun hlt => absurd hfull hlt.ne⟩⟩
          simp only [Bool.false_eq_true, false_iff, not_le]
          omega
        · have houtcome := hbelow i _ (c' :: S) c' _ hc' List.mem_cons_self hclear hreach
          rw [List.length_append, List.length_singleton] at houtcome
          obtain ⟨htrue, hfalse⟩ := Copying.below_outcome (e := e) h₀ hk hfresh hsame hp.2
            (fun h => absurd h hp.1.ne') hsource houtcome
          rw [hcall]
          split
          · rename_i m₂ heq
            exact absurd (Prod.mk.inj heq).2 hne
          · rename_i m₂ newChild _ heq
            obtain ⟨rfl, rfl⟩ := Prod.mk.inj heq
            split
            · rename_i m₃ hrun
              rw [hrun] at hfalse
              exact hfalse rfl
            · rename_i m₃ hrun
              rw [hrun] at htrue
              exact htrue rfl
  · have hempty : m₀.sourceEntries p.length old i = .empty := by
      rw [sourceEntries, ← he, sourceEntry_of_not_present _ _ (by simpa using hpresent)]
    rw [if_pos hpresent]
    exact hS.skip_outcome h₀ (hneed (by rw [hempty, RadixEntry.child_empty])) hzero hempty

theorem copiesTable_copyPageTable (hp : p.length = 3) :
    CopiesTable m₀ live root (m₀.pagesBelow 0 p.length) copyPageTable p := by
  have hzero (old : ℕ) : sumUpTo (fun _ => 0) 512 = m₀.pagesBelow 0 p.length old := by
    rw [pagesBelow]
    decide +kernel
  intro m S k old hS hk hclear hold
  rw [← hzero old]
  exact copiesTable_copyEntries h₀ (copiesSlot_copyPageEntry h₀ hp) m S k old hS hk hclear hold

theorem copiesTable_copyPageDirectory (hp : p.length = 2) :
    CopiesTable m₀ live root (m₀.pagesBelow 1 p.length) copyPageDirectory p := by
  refine copiesTable_copyEntries h₀ (copiesSlot_copyTableEntry h₀ (by omega) fun i => ?_)
  have := copiesTable_copyPageTable (p := p ++ [i]) h₀ (by simp [hp])
  rwa [List.length_append, List.length_singleton] at this

/-- Page directory pointer tables are copied. -/
theorem copiesTable_copyPageDirectoryPointerTable (hp : p.length = 1) :
    CopiesTable m₀ live root (m₀.pagesBelow 2 p.length) copyPageDirectoryPointerTable p := by
  refine copiesTable_copyEntries h₀ (copiesSlot_copyTableEntry h₀ (by omega) fun i => ?_)
  have := copiesTable_copyPageDirectory (p := p ++ [i]) h₀ (by simp [hp])
  rwa [List.length_append, List.length_singleton] at this

end

end PhysicalMemoryManager

end TwistedOS
