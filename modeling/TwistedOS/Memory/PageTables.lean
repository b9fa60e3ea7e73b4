import TwistedOS.Data.RadixTree
import TwistedOS.Memory.AllocatedPages
import TwistedOS.Memory.PageTableEntries

/-!
# Page tables as radix trees

The tables of the lower half of an address space form a radix tree whose keys are the four indices
of a virtual address. `Tables m root tables rest` says that they do, that each of them is a page of
its own of the physical memory manager, and that the blocks of `rest` are allocated besides them.
Entering a table on the way to a virtual page preserves this, possibly with a new table, and it
changes no leaf but a large page that it splits.

## Main definitions

* `pagePath`: the indices of a virtual address.
* `PhysicalMemoryManager.lowerEntries`: the tables of the lower half as a radix tree.
* `PhysicalMemoryManager.Tables`, `PhysicalMemoryManager.LeafKept`.

## Main results

* `PhysicalMemoryManager.Tables.storeEntry`: a store to a slot of a table.
* `PhysicalMemoryManager.Tables.fresh`: the first table of a process.
* `PhysicalMemoryManager.Tables.enterTable`: one level of a walk.
-/

namespace TwistedOS

open RadixTree

/-! ### Paths -/

theorem pml4Index_lt (virtualAddress : ℕ) : pml4Index virtualAddress < 512 :=
  Nat.mod_lt _ (by decide)

theorem pdptIndex_lt (virtualAddress : ℕ) : pdptIndex virtualAddress < 512 :=
  Nat.mod_lt _ (by decide)

theorem pdIndex_lt (virtualAddress : ℕ) : pdIndex virtualAddress < 512 :=
  Nat.mod_lt _ (by decide)

theorem ptIndex_lt (virtualAddress : ℕ) : ptIndex virtualAddress < 512 :=
  Nat.mod_lt _ (by decide)

/-- The indices of a virtual address, from the first level to the last. -/
def pagePath (virtualAddress : ℕ) : List (Fin 512) :=
  [⟨pml4Index virtualAddress, pml4Index_lt virtualAddress⟩,
    ⟨pdptIndex virtualAddress, pdptIndex_lt virtualAddress⟩,
    ⟨pdIndex virtualAddress, pdIndex_lt virtualAddress⟩,
    ⟨ptIndex virtualAddress, ptIndex_lt virtualAddress⟩]

/-- The path of an address determines its page among the first `2 ^ 48` bytes. -/
theorem pagePath_eq_iff {v w : ℕ} :
    pagePath v = pagePath w ↔ v / 2 ^ 12 % 2 ^ 36 = w / 2 ^ 12 % 2 ^ 36 := by
  simp only [pagePath, List.cons.injEq, Fin.mk.injEq, and_true, pml4Index, pdptIndex, pdIndex,
    ptIndex]
  omega

theorem pml4Index_lt_of_lt {v : ℕ} (hv : v < 2 ^ 47) : pml4Index v < 256 := by
  simp only [pml4Index]
  omega

/-! ### The tree of the lower half -/

/-- The access bits of an entry. -/
structure PageTag where
  userAccess : Bool
  writeable : Bool
  deriving DecidableEq, Repr

/-- The access bits of an entry word. -/
def pageTag (entry : ℕ) : PageTag := ⟨entryUserAccess entry, entryWriteable entry⟩

/-- What an entry word of the lower half means at a level. -/
def readEntry (depth : ℕ) (index : Fin 512) (entry : ℕ) : RadixEntry ℕ ℕ PageTag :=
  if depth = 0 ∧ 256 ≤ index.val then .empty
  else if entryPresent entry = false then .empty
  else if depth = 0 ∨ depth < 3 ∧ entrySize entry = false then
    .table (entryAddress entry) (pageTag entry)
  else .leaf (entryAddress entry) (pageTag entry)

theorem readEntry_nonLeaf {depth address : ℕ} {index : Fin 512} (hdepth : depth < 3)
    (hindex : depth = 0 → index.val < 256) (halign : address % pageSize = 0)
    (hlt : address < 2 ^ 32) (flags : ℕ) (user : Bool) :
    readEntry depth index (buildNonLeafEntryValue address flags user) =
      .table address (pageTag (buildNonLeafEntryValue address flags user)) := by
  rw [readEntry, if_neg (by omega), if_neg (by simp), if_pos (by simp [hdepth]),
    entryAddress_buildNonLeafEntryValue halign hlt]

/-- What a present entry of the lower half means. -/
theorem readEntry_of_present {depth entry : ℕ} {i : Fin 512} (hindex : depth = 0 → i.val < 256)
    (hpresent : entryPresent entry = true) :
    readEntry depth i entry = if depth = 0 ∨ depth < 3 ∧ entrySize entry = false then
      .table (entryAddress entry) (pageTag entry)
    else .leaf (entryAddress entry) (pageTag entry) := by
  rw [readEntry, if_neg (by omega), if_neg (by simp [hpresent])]

namespace PhysicalMemoryManager

/-- The tables of the lower half of an address space. -/
def lowerEntries (m : PhysicalMemoryManager) (depth table : ℕ) (index : Fin 512) :
    RadixEntry ℕ ℕ PageTag :=
  readEntry depth index (m.entry table index)

/-- The word is not at the disposal of the page tables: it lies in a block of `rest` or outside the
managed range. -/
def Protected (m : PhysicalMemoryManager) (rest : List DyadicBlock) (a : ℕ) : Prop :=
  (∃ b ∈ rest, m.InBlock b a) ∨
    a < m.pageAddress 0 ∨ m.pageAddress m.memoryDescriptorInfo.totalNumberOfPages ≤ a

/-- The tables below `root` form a tree over the pages `tables`, which are allocated one by one; the
blocks of `rest` are allocated besides. -/
structure Tables (m : PhysicalMemoryManager) (root : ℕ) (tables : List ℕ)
    (rest : List DyadicBlock) : Prop where
  valid : Valid m (unitBlocks tables ++ rest)
  start_aligned : m.memoryDescriptorInfo.physicalAddressStart % pageSize = 0
  end_le : m.pageAddress m.memoryDescriptorInfo.totalNumberOfPages ≤ pmmBuddyPhysicalLimit
  tree : IsTree m.lowerEntries root
  mem_iff : ∀ t, (∃ p, reach m.lowerEntries 0 root p = some t) ↔
    ∃ k ∈ tables, t = m.pageAddress k

/-- The leaf of a key stays, with the same access bits of its own. -/
def LeafKept (m m' : PhysicalMemoryManager) (root : ℕ) (p : List (Fin 512)) : Prop :=
  ∀ r, lookup m.lowerEntries 0 root p = some r →
    ∃ r', lookup m'.lowerEntries 0 root p = some r' ∧ r'.2 = r.2 ∧ r'.1.getLast? = r.1.getLast?

/-- The leaf of the key `p`, if it has one, is not met on the way of the key `path`. -/
def Apart (m : PhysicalMemoryManager) (root : ℕ) (p path : List (Fin 512)) : Prop :=
  ∀ r, lookup m.lowerEntries 0 root p = some r →
    ¬ p.take (p.length - r.2.2.length) <+: path

/-- What a change of the page tables preserves: the managed range and the protected words. -/
structure KeepsProtected (m m' : PhysicalMemoryManager) (rest : List DyadicBlock) : Prop where
  start : m'.memoryDescriptorInfo.physicalAddressStart =
    m.memoryDescriptorInfo.physicalAddressStart
  total : m'.memoryDescriptorInfo.totalNumberOfPages = m.memoryDescriptorInfo.totalNumberOfPages
  maxOrder : m'.buddyMaxOrder = m.buddyMaxOrder
  memory : ∀ a, m.Protected rest a → m'.physicalMemory a = m.physicalMemory a

variable {m m' m'' : PhysicalMemoryManager} {root t : ℕ} {tables tables' : List ℕ}
  {rest : List DyadicBlock} {p q path : List (Fin 512)} {i : Fin 512}

namespace LeafKept

theorem refl (m : PhysicalMemoryManager) (root : ℕ) (p : List (Fin 512)) : LeafKept m m root p :=
  fun r hr => ⟨r, hr, rfl, rfl⟩

theorem trans (h : LeafKept m m' root p) (h' : LeafKept m' m'' root p) :
    LeafKept m m'' root p := by
  intro r hr
  obtain ⟨r', hr', hleaf, htag⟩ := h r hr
  obtain ⟨r'', hr'', hleaf', htag'⟩ := h' r' hr'
  exact ⟨r'', hr'', hleaf'.trans hleaf, htag'.trans htag⟩

theorem of_eq (h : lookup m'.lowerEntries 0 root p = lookup m.lowerEntries 0 root p) :
    LeafKept m m' root p := fun r hr => ⟨r, h.trans hr, rfl, rfl⟩

end LeafKept

/-- A key whose leaf stays is apart from the same keys as before. -/
theorem Apart.of_leafKept {l : List PageTag × ℕ × List (Fin 512)}
    (hapart : Apart m root p path) (hkept : LeafKept m m' root p)
    (hl : lookup m.lowerEntries 0 root p = some l) : Apart m' root p path := by
  obtain ⟨l', hl', hleaf, -⟩ := hkept l hl
  intro r hr
  obtain rfl : l' = r := Option.some.inj (hl'.symm.trans hr)
  rw [hleaf]
  exact hapart l hl

namespace KeepsProtected

theorem pageAddress (h : KeepsProtected m m' rest) : m'.pageAddress = m.pageAddress := by
  funext i
  simp only [PhysicalMemoryManager.pageAddress, h.start]

theorem protected_iff (h : KeepsProtected m m' rest) (a : ℕ) :
    m'.Protected rest a ↔ m.Protected rest a := by
  simp only [Protected, InBlock, h.pageAddress, h.total]

theorem refl (m : PhysicalMemoryManager) (rest : List DyadicBlock) : KeepsProtected m m rest :=
  ⟨rfl, rfl, rfl, fun _ _ => rfl⟩

theorem trans (h : KeepsProtected m m' rest) (h' : KeepsProtected m' m'' rest) :
    KeepsProtected m m'' rest where
  start := h'.start.trans h.start
  total := h'.total.trans h.total
  maxOrder := h'.maxOrder.trans h.maxOrder
  memory a ha := by rw [h'.memory a ((h.protected_iff a).mpr ha), h.memory a ha]

end KeepsProtected

@[simp] theorem entry_storeEntry (m : PhysicalMemoryManager) (table index value : ℕ) :
    (m.storeEntry table index value).entry table index = value := Function.update_self ..

theorem inBlock_page {k a : ℕ} :
    m.InBlock ⟨k, 0⟩ a ↔ m.pageAddress k ≤ a ∧ a < m.pageAddress k + pageSize := by
  simp only [InBlock, DyadicBlock.size_mk, pow_zero, PhysicalMemoryManager.pageAddress,
    Nat.add_mul, Nat.one_mul, Nat.add_assoc]

theorem InBlock.not_of_disjoint {b c : DyadicBlock} {a : ℕ} (hb : m.InBlock b a)
    (hdisj : b.Disjoint c) : ¬ m.InBlock c a := by
  simp only [InBlock, DyadicBlock.Disjoint, PhysicalMemoryManager.pageAddress, pageSize] at *
  omega

/-- Words of allocated blocks lie in the managed range and not in other allocated blocks. -/
theorem Valid.not_protected {live : List DyadicBlock} (h : Valid m (live ++ rest)) {b : DyadicBlock}
    (hb : b ∈ live) {a : ℕ} (ha : m.InBlock b a) : ¬ m.Protected rest a := by
  obtain ⟨free, hlists, -⟩ := h.free
  have hpair := hlists.tiles.pairwise_disjoint
  have hend := hlists.tiles.end_le (List.mem_append_right _ (List.mem_append_left rest hb))
  rw [List.pairwise_append] at hpair
  rintro (⟨c, hc, hin⟩ | hout)
  · exact ha.not_of_disjoint ((List.pairwise_append.mp hpair.2.1).2.2 b hb c hc) hin
  · simp only [InBlock, PhysicalMemoryManager.pageAddress, pageSize] at ha hout
    omega

theorem Protected.cons {a : ℕ} {b : DyadicBlock} (h : m.Protected rest a) :
    m.Protected (b :: rest) a :=
  h.imp_left fun ⟨c, hc, hin⟩ => ⟨c, List.mem_cons_of_mem b hc, hin⟩

theorem KeepsProtected.of_cons {b : DyadicBlock} (h : KeepsProtected m m' (b :: rest)) :
    KeepsProtected m m' rest :=
  ⟨h.start, h.total, h.maxOrder, fun a ha => h.memory a ha.cons⟩

theorem KeepsProtected.mono {rest' : List DyadicBlock} (h : KeepsProtected m m' rest)
    (hsub : ∀ b ∈ rest', b ∈ rest) : KeepsProtected m m' rest' where
  start := h.start
  total := h.total
  maxOrder := h.maxOrder
  memory a ha := h.memory a (ha.imp_left fun ⟨b, hb, hin⟩ => ⟨b, hsub b hb, hin⟩)

/-- The allocator does not touch protected words. -/
theorem Keeps.keepsProtected {live : List DyadicBlock} (h : Keeps m m' (live ++ rest)) :
    KeepsProtected m m' rest where
  start := h.start
  total := h.total
  maxOrder := h.maxOrder
  memory a ha := by
    refine h.memory a ?_
    rintro ⟨i, hi, rfl, hnot⟩
    rcases ha with ⟨b, hb, hin⟩ | hout
    · refine hnot b (List.mem_append_right _ hb) ?_
      simp only [InBlock, PhysicalMemoryManager.pageAddress, pageSize] at hin
      constructor <;> omega
    · simp only [PhysicalMemoryManager.pageAddress, pageSize] at hout
      omega

/-- The allocator does not touch words of allocated blocks. -/
theorem Keeps.memory_eq {live : List DyadicBlock} (h : Keeps m m' live) {b : DyadicBlock}
    (hb : b ∈ live) {a : ℕ} (ha : m.InBlock b a) : m'.physicalMemory a = m.physicalMemory a := by
  refine h.memory a ?_
  rintro ⟨i, -, rfl, hnot⟩
  refine hnot b hb ?_
  simp only [InBlock, PhysicalMemoryManager.pageAddress, pageSize] at ha
  constructor <;> omega

/-- Filling the pages of a block changes no other word. -/
theorem fillPages_memory {b : DyadicBlock} {pages a : ℕ} (hpages : pages ≤ b.size)
    (words : ℕ → ℕ) (ha : ¬ m.InBlock b a) :
    (m.fillPages (m.pageAddress b.start) pages words).physicalMemory a = m.physicalMemory a := by
  refine if_neg fun hin => ha ?_
  simp only [InBlock, PhysicalMemoryManager.pageAddress, pageSize] at hin ⊢
  omega

namespace Tables

/-! ### The pages of the tables -/

section

variable (h : Tables m root tables rest)

include h

theorem page_of_reach (hp : reach m.lowerEntries 0 root p = some t) :
    ∃ k ∈ tables, t = m.pageAddress k :=
  (h.mem_iff t).mp ⟨p, hp⟩

theorem lt_total {k : ℕ} (hk : k ∈ tables) : k < m.memoryDescriptorInfo.totalNumberOfPages := by
  obtain ⟨free, hlists, -⟩ := h.valid.free
  have := hlists.tiles.end_le (b := ⟨k, 0⟩)
    (List.mem_append_right _ (List.mem_append_left _ (mem_unitBlocks.mpr ⟨k, hk, rfl⟩)))
  simp only [DyadicBlock.size_mk, pow_zero] at this
  omega

theorem pageAddress_spec {k : ℕ} (hk : k < m.memoryDescriptorInfo.totalNumberOfPages) :
    m.pageAddress k % pageSize = 0 ∧ m.pageAddress k + pageSize ≤ pmmBuddyPhysicalLimit ∧
      m.pageAddress k ≠ 0 := by
  obtain ⟨free, hlists, -⟩ := h.valid.free
  have halign := h.start_aligned
  have hend := h.end_le
  refine ⟨?_, ?_, hlists.pageAddress_ne_zero k⟩ <;>
  · simp only [PhysicalMemoryManager.pageAddress, pageSize] at *
    omega

/-- The pages from a page on follow one another. -/
theorem nextPage_spec {k i : ℕ} (hk : k + i < m.memoryDescriptorInfo.totalNumberOfPages) :
    u64 (m.pageAddress k + i * pageSize) = m.pageAddress k + i * pageSize ∧
      (m.pageAddress k + i * pageSize) % pageSize = 0 ∧
      m.pageAddress k + i * pageSize < 2 ^ 32 := by
  obtain ⟨halign, hlt, -⟩ := h.pageAddress_spec hk
  have hadd : m.pageAddress (k + i) = m.pageAddress k + i * pageSize := by
    simp only [PhysicalMemoryManager.pageAddress, Nat.add_mul, Nat.add_assoc]
  rw [hadd] at halign hlt
  rw [u64]
  simp only [pmmBuddyPhysicalLimit, pageSize] at *
  omega

section

variable (hp : reach m.lowerEntries 0 root p = some t)

include hp

/-- Reachable tables are pages below 4 GiB. -/
theorem table_spec : t % pageSize = 0 ∧ t < 2 ^ 32 := by
  obtain ⟨k, hk, rfl⟩ := h.page_of_reach hp
  obtain ⟨halign, hlt, -⟩ := h.pageAddress_spec (h.lt_total hk)
  simp only [pmmBuddyPhysicalLimit, pageSize] at *
  exact ⟨halign, by omega⟩

theorem slot_injective {t' : ℕ} {j : Fin 512} (hq : reach m.lowerEntries 0 root q = some t')
    (hslot : t + 8 * i.val = t' + 8 * j.val) : t = t' ∧ i = j := by
  obtain ⟨ht, -⟩ := h.table_spec hp
  obtain ⟨ht', -⟩ := h.table_spec hq
  simp only [pageSize] at ht ht'
  have := i.isLt
  have := j.isLt
  exact ⟨by omega, by ext; omega⟩

/-- A slot of a table lies in the table's page. -/
theorem slot_mem (i : Fin 512) : ∃ b ∈ unitBlocks tables, m.InBlock b (t + 8 * i.val) := by
  obtain ⟨k, hk, rfl⟩ := h.page_of_reach hp
  refine ⟨⟨k, 0⟩, mem_unitBlocks.mpr ⟨k, hk, rfl⟩, inBlock_page.mpr ?_⟩
  have := i.isLt
  simp only [pageSize]
  omega

end

end

/-! ### Writes elsewhere -/

/-- A change that leaves the words of the tables alone, whatever becomes of the other blocks. -/
theorem of_agree {rest' : List DyadicBlock} (h : Tables m root tables rest)
    (hvalid : Valid m' (unitBlocks tables ++ rest'))
    (hstart : m'.memoryDescriptorInfo.physicalAddressStart =
      m.memoryDescriptorInfo.physicalAddressStart)
    (htotal : m'.memoryDescriptorInfo.totalNumberOfPages =
      m.memoryDescriptorInfo.totalNumberOfPages)
    (hmem : ∀ b ∈ unitBlocks tables, ∀ a, m.InBlock b a →
      m'.physicalMemory a = m.physicalMemory a) :
    Tables m' root tables rest' ∧ Agree m.lowerEntries m'.lowerEntries root := by
  have hagree : Agree m.lowerEntries m'.lowerEntries root := by
    intro p t i hp
    obtain ⟨b, hb, hin⟩ := h.slot_mem hp i
    simp only [lowerEntries, entry, hmem b hb _ hin]
  have haddr : m'.pageAddress = m.pageAddress := by
    funext i
    simp only [PhysicalMemoryManager.pageAddress, hstart]
  refine ⟨⟨hvalid, hstart ▸ h.start_aligned, ?_, h.tree.of_reach_eq hagree.reach_eq, ?_⟩, hagree⟩
  · rw [haddr, htotal]
    exact h.end_le
  · intro t
    simp only [hagree.reach_eq, h.mem_iff, haddr]

/-! ### A store to a slot -/

section

variable (h : Tables m root tables rest) (hq : reach m.lowerEntries 0 root q = some t)

include h hq

/-- A store to a slot of a table changes no protected word and no other slot. -/
theorem storeEntry (i : Fin 512) (value : ℕ) :
    Valid (m.storeEntry t i value) (unitBlocks tables ++ rest) ∧
      KeepsProtected m (m.storeEntry t i value) rest ∧
      AgreeOffSlot m.lowerEntries (m.storeEntry t i value).lowerEntries root t i := by
  obtain ⟨b, hb, hin⟩ := h.slot_mem hq i
  refine ⟨h.valid.write fun a ha => ?_, ⟨rfl, rfl, rfl, fun a ha => ?_⟩, fun p t' j hp hne => ?_⟩
  · exact Function.update_of_ne (by rintro rfl; exact ha b (List.mem_append_left _ hb) hin) _ _
  · exact Function.update_of_ne (by rintro rfl; exact h.valid.not_protected hb hin ha) _ _
  · have hslot : t' + 8 * j.val ≠ t + 8 * i.val := fun heq => hne (h.slot_injective hp hq heq)
    simp only [lowerEntries, entry, PhysicalMemoryManager.storeEntry, Function.update_of_ne hslot]

/-- A store that leaves the child of a slot in place. -/
theorem store_of_sameChild (value : ℕ)
    (hchild : (readEntry q.length i value).child = (m.lowerEntries q.length t i).child) :
    Tables (m.storeEntry t i value) root tables rest ∧
      ∀ p, reach (m.storeEntry t i value).lowerEntries 0 root p =
        reach m.lowerEntries 0 root p := by
  obtain ⟨hvalid, -, hoff⟩ := h.storeEntry hq i value
  have hself : (m.storeEntry t i value).lowerEntries q.length t i = readEntry q.length i value := by
    simp only [lowerEntries, entry_storeEntry]
  have hreach := hoff.reach_of_sameChild h.tree hq (by rw [hself, hchild])
  refine ⟨⟨hvalid, h.start_aligned, h.end_le, h.tree.of_reach_eq hreach, fun t' => ?_⟩, hreach⟩
  simp only [hreach]
  exact h.mem_iff t'

end

/-! ### Allocations -/

/-- An allocation fails and changes nothing, or it gives a block besides the tables. -/
theorem allocate (h : Tables m root tables rest) (pages : ℕ) :
    m.allocatePagesFromDescriptor pages = (m, 0) ∨
    ∃ m' k, m.allocatePagesFromDescriptor pages = (m', m.pageAddress k) ∧ m.pageAddress k ≠ 0 ∧
      Tables m' root tables (⟨k, ceilLog2Pages pages⟩ :: rest) ∧ KeepsProtected m m' rest ∧
      Agree m.lowerEntries m'.lowerEntries root := by
  rcases h.valid.allocate pages with hfail | ⟨m', k, halloc, hvalid, hkeeps⟩
  · exact .inl hfail
  · obtain ⟨free, hlists, -⟩ := h.valid.free
    obtain ⟨htables, hagree⟩ := h.of_agree (hvalid.perm List.perm_middle.symm) hkeeps.start
      hkeeps.total fun b hb a ha => hkeeps.memory_eq (List.mem_append_left _ hb) ha
    exact .inr ⟨m', k, halloc, hlists.pageAddress_ne_zero k, htables, hkeeps.keepsProtected, hagree⟩

/-- Pages of an allocated block may be filled. -/
theorem fillPages {b : DyadicBlock} {pages : ℕ} (h : Tables m root tables (b :: rest))
    (hpages : pages ≤ b.size) (words : ℕ → ℕ) :
    Tables (m.fillPages (m.pageAddress b.start) pages words) root tables (b :: rest) ∧
      KeepsProtected m (m.fillPages (m.pageAddress b.start) pages words) rest ∧
      Agree m.lowerEntries (m.fillPages (m.pageAddress b.start) pages words).lowerEntries root := by
  have hvalid : Valid (m.fillPages (m.pageAddress b.start) pages words)
      (unitBlocks tables ++ b :: rest) :=
    h.valid.write fun a ha => fillPages_memory hpages words (ha b (by simp))
  obtain ⟨htables, hagree⟩ := h.of_agree hvalid rfl rfl
    fun c hc a ha => fillPages_memory hpages words fun hin =>
      h.valid.not_protected hc ha (.inl ⟨b, by simp, hin⟩)
  refine ⟨htables, ⟨rfl, rfl, rfl, fun a ha => fillPages_memory hpages words fun hin => ?_⟩, hagree⟩
  have hperm : Valid m ((b :: unitBlocks tables) ++ rest) := h.valid.perm List.perm_middle
  exact hperm.not_protected (by simp) hin ha

/-! ### A new table -/

/-- A page of zeros is a tree of page tables. -/
theorem fresh {k : ℕ} (hvalid : Valid m (⟨k, 0⟩ :: rest))
    (hstart : m.memoryDescriptorInfo.physicalAddressStart % pageSize = 0)
    (hend : m.pageAddress m.memoryDescriptorInfo.totalNumberOfPages ≤ pmmBuddyPhysicalLimit)
    (hzero : ∀ j : Fin 512, m.entry (m.pageAddress k) j = 0) :
    Tables m (m.pageAddress k) [k] rest := by
  have hpath : ∀ p t, reach m.lowerEntries 0 (m.pageAddress k) p = some t →
      p = [] ∧ t = m.pageAddress k := by
    intro p t hp
    cases p with
    | nil => exact ⟨rfl, (Option.some.inj hp).symm⟩
    | cons j p => simp [reach, lowerEntries, readEntry, hzero] at hp
  refine ⟨hvalid, hstart, hend, fun p q t hp hq => ?_, fun t => ⟨?_, ?_⟩⟩
  · rw [(hpath p t hp).1, (hpath q t hq).1]
  · rintro ⟨p, hp⟩
    exact ⟨k, List.mem_singleton_self k, (hpath p t hp).2⟩
  · rintro ⟨k', hk', rfl⟩
    rw [List.mem_singleton.mp hk']
    exact ⟨[], rfl⟩

/-- An allocated page without children may be named by a slot that named no table. -/
theorem attach {k : ℕ} (h : Tables m root tables (⟨k, 0⟩ :: rest))
    (hq : reach m.lowerEntries 0 root q = some t) (hdepth : q.length < 3)
    (hindex : q.length = 0 → i.val < 256) (hnone : (m.lowerEntries q.length t i).child = none)
    (hpage : ∀ j, (m.lowerEntries (q.length + 1) (m.pageAddress k) j).child = none)
    (user : Bool) (hm' : m' = m.storeEntry t i (buildNonLeafEntryValue (m.pageAddress k) 0 user)) :
    Tables m' root (k :: tables) rest ∧ KeepsProtected m m' rest ∧
      reach m'.lowerEntries 0 root q = some t ∧
      reach m'.lowerEntries 0 root (q ++ [i]) = some (m.pageAddress k) ∧
      ∀ p, ¬ (q ++ [i]) <+: p →
        lookup m'.lowerEntries 0 root p = lookup m.lowerEntries 0 root p := by
  obtain ⟨hvalid, hkeeps, hoff⟩ :=
    h.storeEntry hq i (buildNonLeafEntryValue (m.pageAddress k) 0 user)
  rw [← hm'] at hvalid hkeeps hoff
  have hvalid' : Valid m ((⟨k, 0⟩ :: unitBlocks tables) ++ rest) :=
    h.valid.perm List.perm_middle
  have hk : k < m.memoryDescriptorInfo.totalNumberOfPages := by
    obtain ⟨free, hlists, -⟩ := hvalid'.free
    have := hlists.tiles.end_le (b := ⟨k, 0⟩) (by simp)
    simp only [DyadicBlock.size_mk, pow_zero] at this
    omega
  have hfresh : ∀ k' ∈ tables, k' ≠ k := by
    rintro k' hk' rfl
    have hin : m.InBlock ⟨k', 0⟩ (m.pageAddress k') := by
      rw [inBlock_page]
      simp [pageSize]
    exact h.valid.not_protected (mem_unitBlocks.mpr ⟨k', hk', rfl⟩) hin
      (.inl ⟨_, List.mem_cons_self, hin⟩)
  obtain ⟨halign, hlt, -⟩ := h.pageAddress_spec hk
  have hlt32 : m.pageAddress k < 2 ^ 32 := by
    simp only [pmmBuddyPhysicalLimit, pageSize] at hlt
    omega
  -- the slot names the new page, whose words are those stored before
  have hslot : m'.lowerEntries q.length t i =
      .table (m.pageAddress k) (pageTag (buildNonLeafEntryValue (m.pageAddress k) 0 user)) := by
    rw [hm', lowerEntries, entry_storeEntry, readEntry_nonLeaf hdepth hindex halign hlt32]
  have hchildren : ∀ j, (m'.lowerEntries (q.length + 1) (m.pageAddress k) j).child = none := by
    intro j
    obtain ⟨k', hk', ht⟩ := h.page_of_reach hq
    have hne : m.pageAddress k + 8 * j.val ≠ t + 8 * i.val := by
      have := hfresh k' hk'
      have := i.isLt
      have := j.isLt
      rw [ht]
      simp only [PhysicalMemoryManager.pageAddress, pageSize]
      omega
    have hsame : m'.lowerEntries (q.length + 1) (m.pageAddress k) j =
        m.lowerEntries (q.length + 1) (m.pageAddress k) j := by
      simp only [hm', lowerEntries, entry, PhysicalMemoryManager.storeEntry,
        Function.update_of_ne hne]
    rw [hsame, hpage]
  obtain ⟨htree, hpaths⟩ := h.tree.of_newChild hoff hq (by rw [hslot, RadixEntry.child_table])
    (fun p hp => by
      obtain ⟨k', hk', heq⟩ := h.page_of_reach hp
      exact hfresh k' hk' (m.pageAddress_injective heq).symm) hchildren
  have hnew : reach m'.lowerEntries 0 root (q ++ [i]) = some (m.pageAddress k) := by
    rw [reach_concat (hoff.reach_self h.tree hq), hslot, RadixEntry.child_table]
  have haddr : m'.pageAddress = m.pageAddress := hkeeps.pageAddress
  refine ⟨⟨hvalid.perm List.perm_middle, hm' ▸ h.start_aligned, hm' ▸ h.end_le, htree,
    fun t' => ⟨?_, ?_⟩⟩, hkeeps.of_cons, hoff.reach_self h.tree hq, hnew,
    fun p hp => hoff.lookup_of_not_prefix h.tree hq hp⟩
  · rintro ⟨p, hp⟩
    rw [haddr]
    rcases hpaths p t' hp with ⟨-, rfl⟩ | hold
    · exact ⟨k, List.mem_cons_self, rfl⟩
    · obtain ⟨k', hk', heq⟩ := h.page_of_reach hold
      exact ⟨k', List.mem_cons_of_mem _ hk', heq⟩
  · rintro ⟨k', hk', rfl⟩
    rw [haddr]
    rcases List.mem_cons.mp hk' with rfl | hk'
    · exact ⟨_, hnew⟩
    · obtain ⟨p, hp⟩ := (h.mem_iff _).mpr ⟨k', hk', rfl⟩
      refine ⟨p, ?_⟩
      rw [hoff.reach_of_not_prefix h.tree hq, hp]
      rintro ⟨r, rfl⟩
      rw [reach_append, reach_concat hq, hnone] at hp
      simp at hp

/-! ### Leaves through a slot -/

/-- Every leaf stays when a slot keeps its child table. -/
theorem leafKept_of_sameChild (h : Tables m root tables rest)
    (hq : reach m.lowerEntries 0 root q = some t) {value c : ℕ}
    (hold : (m.lowerEntries q.length t i).child = some c)
    (hnew : (readEntry q.length i value).child = some c) (p : List (Fin 512)) :
    LeafKept m (m.storeEntry t i value) root p := by
  obtain ⟨-, -, hoff⟩ := h.storeEntry hq i value
  by_cases hpre : (q ++ [i]) <+: p
  · obtain ⟨r, rfl⟩ := hpre
    intro l hl
    have hself : ((m.storeEntry t i value).lowerEntries q.length t i).child = some c := by
      simp only [lowerEntries, entry_storeEntry, hnew]
    obtain ⟨tags, htags⟩ := lookup_append ((reach_concat hq i).trans hold)
    obtain ⟨tags', htags'⟩ :=
      lookup_append ((reach_concat (hoff.reach_self h.tree hq) i).trans hself)
    have hbelow := (hoff.below h.tree hq hold r).2
    rw [List.length_append, List.length_singleton, Nat.zero_add] at htags htags'
    rw [htags, Option.map_eq_some_iff] at hl
    obtain ⟨l', hl', rfl⟩ := hl
    refine ⟨(tags' ++ l'.1, l'.2), by rw [htags', hbelow, hl', Option.map_some], rfl, ?_⟩
    rw [List.getLast?_append_of_ne_nil _ (lookup_tags_ne_nil hl'),
      List.getLast?_append_of_ne_nil _ (lookup_tags_ne_nil hl')]
  · exact .of_eq (hoff.lookup_of_not_prefix h.tree hq hpre)

/-- A key through a slot that holds no table is not apart from the other keys through it. -/
theorem not_prefix_of_apart (hq : reach m.lowerEntries 0 root q = some t)
    (hnone : (m.lowerEntries q.length t i).child = none) (hpath : (q ++ [i]) <+: path)
    (hapart : Apart m root p path) {l : List PageTag × ℕ × List (Fin 512)}
    (hl : lookup m.lowerEntries 0 root p = some l) : ¬ (q ++ [i]) <+: p := by
  rintro ⟨r, rfl⟩
  refine hapart l hl ?_
  obtain ⟨tags, htags⟩ := lookup_append hq
  rw [List.append_assoc, List.singleton_append, htags, Nat.zero_add] at hl
  cases hentry : m.lowerEntries q.length t i with
  | empty => simp [lookup_cons_of_empty hentry] at hl
  | leaf b g =>
    rw [lookup_cons_of_leaf hentry, Option.map_some, Option.some.injEq] at hl
    subst hl
    have htake : (q ++ [i] ++ r).take ((q ++ [i] ++ r).length - r.length) = q ++ [i] :=
      List.take_left' (by simp only [List.length_append, List.length_singleton]; omega)
    rwa [htake]
  | table c g => simp [hentry] at hnone

end Tables

/-! ### Entering tables -/

/-- What the steps of a walk along the key `path` do: there may be new tables, the words of the
other blocks stay, and so does every leaf that is not met on the way. -/
structure Grows (m m' : PhysicalMemoryManager) (root : ℕ) (tables' : List ℕ)
    (rest : List DyadicBlock) (path : List (Fin 512)) : Prop where
  tables : Tables m' root tables' rest
  keeps : KeepsProtected m m' rest
  leafKept : ∀ p, Apart m root p path → LeafKept m m' root p

namespace Grows

theorem refl (h : Tables m root tables rest) (path : List (Fin 512)) :
    Grows m m root tables rest path := ⟨h, .refl _ _, fun _ _ => .refl _ _ _⟩

theorem trans {tables'' : List ℕ} (h : Grows m m' root tables' rest path)
    (h' : Grows m' m'' root tables'' rest path) : Grows m m'' root tables'' rest path where
  tables := h'.tables
  keeps := h.keeps.trans h'.keeps
  leafKept p hapart r hr := by
    have hkept := h.leafKept p hapart
    exact (hkept.trans (h'.leafKept p (hapart.of_leafKept hkept hr))) r hr

end Grows

namespace Tables

section

variable (hq : reach m.lowerEntries 0 root q = some t) (hdepth : q.length < 3)

include hq hdepth

/-- A new page takes the place of an entry that named no table. -/
theorem grows_attach {k : ℕ} (hm' : Tables m' root tables (⟨k, 0⟩ :: rest)) (words : ℕ → ℕ)
    (hkeeps : KeepsProtected m m' rest) (hagree : Agree m.lowerEntries m'.lowerEntries root)
    (hindex : q.length = 0 → i.val < 256) (hnone : (m.lowerEntries q.length t i).child = none)
    (hwords : ∀ j : Fin 512, (readEntry (q.length + 1) j (words j)).child = none)
    (hpath : (q ++ [i]) <+: path) (user : Bool)
    (hm'' : m'' = (m'.fillPages (m.pageAddress k) 1 words).storeEntry t i
      (buildNonLeafEntryValue (m.pageAddress k) 0 user)) :
    Grows m m'' root (k :: tables) rest path ∧ reach m''.lowerEntries 0 root q = some t ∧
      reach m''.lowerEntries 0 root (q ++ [i]) = some (m.pageAddress k) := by
  rw [← hkeeps.pageAddress] at hm'' ⊢
  obtain ⟨hfill, hkeeps₂, hagree₂⟩ := hm'.fillPages (show 1 ≤ DyadicBlock.size ⟨k, 0⟩ by simp) words
  obtain ⟨m₂, hm₂⟩ : ∃ m₂, m₂ = m'.fillPages (m'.pageAddress k) 1 words := ⟨_, rfl⟩
  simp only [← hm₂] at hfill hkeeps₂ hagree₂ hm''
  have hq₂ : reach m₂.lowerEntries 0 root q = some t := by
    rw [hagree₂.reach_eq, hagree.reach_eq, hq]
  have hslot : m₂.lowerEntries q.length t i = m.lowerEntries q.length t i :=
    (hagree₂ q t i ((hagree.reach_eq q).trans hq)).trans (hagree q t i hq)
  have haddr : m₂.pageAddress = m'.pageAddress := hkeeps₂.pageAddress
  have hpage : ∀ j, (m₂.lowerEntries (q.length + 1) (m₂.pageAddress k) j).child = none := by
    intro j
    have hword : m₂.entry (m₂.pageAddress k) j.val = words j := by
      have := j.isLt
      rw [entry, haddr, hm₂, PhysicalMemoryManager.fillPages]
      dsimp only
      rw [if_pos ⟨by omega, by simp only [pageSize]; omega⟩]
      congr 1
      omega
    rw [lowerEntries, hword, hwords]
  rw [← haddr] at hm''
  obtain ⟨htables, hkeeps₃, hself, hreach, hlookup⟩ :=
    hfill.attach hq₂ hdepth hindex (by rw [hslot, hnone]) hpage user hm''
  rw [haddr] at hreach
  refine ⟨⟨htables, (hkeeps.trans hkeeps₂).trans hkeeps₃, fun p hapart l hl => ?_⟩, hself, hreach⟩
  have hnot := not_prefix_of_apart hq hnone hpath hapart hl
  refine LeafKept.of_eq ?_ l hl
  rw [hlookup p hnot, hagree₂.lookup_eq, hagree.lookup_eq]

section

variable (h : Tables m root tables rest)

include h

/-- An entry on the way is made present, or there is no page left for a table. -/
theorem ensurePresent (hindex : q.length = 0 → i.val < 256) (hpath : (q ++ [i]) <+: path)
    (flags : PageMappingFlags) :
    ∃ m' ok tables', m.ensurePresent t i flags = (m', ok) ∧
      Grows m m' root tables' rest path ∧ reach m'.lowerEntries 0 root q = some t ∧
      (ok = true → entryPresent (m'.entry t i) = true) := by
  by_cases hpresent : entryPresent (m.entry t i) = true
  · exact ⟨m, true, tables, if_pos hpresent, .refl h path, hq, fun _ => hpresent⟩
  have hempty : m.lowerEntries q.length t i = .empty := by
    rw [lowerEntries, readEntry, if_neg (by omega), if_pos (by simpa using hpresent)]
  rcases h.allocate 1 with hfail | ⟨m', k, halloc, hne, htables, hkeeps, hagree⟩
  · exact ⟨m, false, tables, ensurePresent_of_refused hpresent hfail, .refl h path, hq, by simp⟩
  obtain ⟨hgrows, hself, -⟩ := htables.grows_attach hq hdepth (fun _ => 0) hkeeps hagree hindex
    (by rw [hempty, RadixEntry.child_empty])
    (fun j => by simp [readEntry]) hpath flags.userAccess rfl
  exact ⟨_, true, _, ensurePresent_of_allocated hpresent halloc hne, hgrows, hself, fun _ => by
    rw [entry_storeEntry, entryPresent_buildNonLeafEntryValue]⟩

/-- A large page on the way is split, or there is no page left for the table. -/
theorem splitLargePage (hpos : q.length ≠ 0) (hnone : (m.lowerEntries q.length t i).child = none)
    (hpath : (q ++ [i]) <+: path) {split : ℕ → ℕ → ℕ}
    (hwords : ∀ entry (j : Fin 512), (readEntry (q.length + 1) j (split entry j)).child = none)
    (flags : PageMappingFlags) :
    ∃ m' r tables', PhysicalMemoryManager.splitLargePage split m t i flags = (m', r) ∧
      Grows m m' root tables' rest path ∧
      ∀ c, r = some c → reach m'.lowerEntries 0 root (q ++ [i]) = some c := by
  rcases h.allocate 1 with hfail | ⟨m', k, halloc, hne, htables, hkeeps, hagree⟩
  · exact ⟨m, none, tables, splitLargePage_of_refused hfail, .refl h path, by simp⟩
  obtain ⟨hgrows, -, hreach⟩ := htables.grows_attach hq hdepth _ hkeeps hagree
    (fun h0 => absurd h0 hpos) hnone (hwords (m.entry t i)) hpath
    (entryUserAccess (m.entry t i) || flags.userAccess) rfl
  obtain ⟨halign, hlt⟩ := hgrows.tables.table_spec hreach
  refine ⟨_, _, _, splitLargePage_of_allocated halloc hne rfl, hgrows, ?_⟩
  rintro c ⟨rfl⟩
  rw [hreach, entryAddress_buildNonLeafEntryValue halign hlt]

/-- A table on the way becomes accessible to user mode if need be. -/
theorem grantUserAccess (hindex : q.length = 0 → i.val < 256)
    (hchild : (m.lowerEntries q.length t i).child = some (entryAddress (m.entry t i)))
    (path : List (Fin 512)) (flags : PageMappingFlags) :
    ∃ m' r tables', PhysicalMemoryManager.grantUserAccess m t i flags = (m', r) ∧
      Grows m m' root tables' rest path ∧
      ∀ c, r = some c → reach m'.lowerEntries 0 root (q ++ [i]) = some c := by
  have hreach := (reach_concat hq i).trans hchild
  obtain ⟨halign, hlt⟩ := h.table_spec hreach
  rw [PhysicalMemoryManager.grantUserAccess]
  dsimp only
  split_ifs
  · have hnew : (readEntry q.length i (buildNonLeafEntryValue (m.entry t i) (m.entry t i)
        true)).child = some (entryAddress (m.entry t i)) := by
      rw [← buildNonLeafEntryValue_entryAddress, readEntry_nonLeaf hdepth hindex halign hlt,
        RadixEntry.child_table]
    obtain ⟨htables, hsame⟩ := h.store_of_sameChild hq _ (hnew.trans hchild.symm)
    refine ⟨_, _, tables, rfl, ⟨htables, (h.storeEntry hq i _).2.1,
      fun p _ => h.leafKept_of_sameChild hq hchild hnew p⟩, ?_⟩
    rintro c ⟨rfl⟩
    rw [hsame, hreach, ← buildNonLeafEntryValue_entryAddress,
      entryAddress_buildNonLeafEntryValue halign hlt]
  · refine ⟨_, _, tables, rfl, .refl h path, ?_⟩
    rintro c ⟨rfl⟩
    exact hreach

/-- One step of a walk: the next table is entered, or there is no page left for it. -/
theorem enterTable (path : List (Fin 512)) (split : Option (ℕ → ℕ → ℕ))
    (hindex : q.length = 0 → i.val < 256) (hpath : (q ++ [i]) <+: path)
    (hnone : split = none → q.length = 0)
    (hsome : ∀ s, split = some s → q.length ≠ 0 ∧
      ∀ entry (j : Fin 512), (readEntry (q.length + 1) j (s entry j)).child = none)
    (flags : PageMappingFlags) :
    ∃ m' r tables', PhysicalMemoryManager.enterTable split m t i flags = (m', r) ∧
      Grows m m' root tables' rest path ∧
      ∀ c, r = some c → reach m'.lowerEntries 0 root (q ++ [i]) = some c := by
  obtain ⟨m₁, ok, tables₁, hensure, hgrows, hq₁, hpresent⟩ :=
    h.ensurePresent hq hdepth hindex hpath flags
  rcases enterTable_cases split hensure with
    ⟨-, hrun⟩ | ⟨rfl, hlevel, hrun⟩ | ⟨rfl, hsize, s, rfl, hrun⟩
  · exact ⟨m₁, none, tables₁, hrun, hgrows, by simp⟩
  · have hread := readEntry_of_present hindex (hpresent rfl)
    have htable : q.length = 0 ∨ q.length < 3 ∧ entrySize (m₁.entry t i) = false :=
      hlevel.imp hnone fun hsize => ⟨hdepth, hsize⟩
    obtain ⟨m₂, r, tables₂, hgrant, hgrows', hreach⟩ := hgrows.tables.grantUserAccess hq₁ hdepth
      hindex (by rw [lowerEntries, hread, if_pos htable, RadixEntry.child_table]) path flags
    exact ⟨m₂, r, tables₂, hrun.trans hgrant, hgrows.trans hgrows', hreach⟩
  · have hread := readEntry_of_present hindex (hpresent rfl)
    obtain ⟨hpos, hwords⟩ := hsome s rfl
    obtain ⟨m₂, r, tables₂, hlarge, hgrows', hreach⟩ := hgrows.tables.splitLargePage hq₁ hdepth
      hpos (by rw [lowerEntries, hread, if_neg (by simp [hpos, hsize]), RadixEntry.child_leaf])
      hpath hwords flags
    exact ⟨m₂, r, tables₂, hrun.trans hlarge, hgrows.trans hgrows', hreach⟩

end

end

end Tables

end PhysicalMemoryManager

end TwistedOS
