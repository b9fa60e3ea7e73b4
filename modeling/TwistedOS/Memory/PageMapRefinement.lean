import TwistedOS.Memory.AddressTranslation

/-!
# Mapping pages refines a page map

Seen from the processor, mapping a page changes the translation of that page and of no other one:
new tables are empty, the entries that replace a large page lead to the same pages with the same
access bits, and what becomes accessible to user mode on the way to the page leads to entries that
user mode may not use.

## Main definitions

* `PhysicalMemoryManager.MappedTables`: the tables of an address space, with what they rest on.

## Main results

* `PhysicalMemoryManager.PageTree.replace`: a slot is replaced.
* `PhysicalMemoryManager.MappedTables.enterTable`: one level of a walk.
-/

namespace TwistedOS

open RadixTree

namespace PhysicalMemoryManager

/-- The tables below `root` form a tree, and they are in use. -/
structure MappedTables (m : PhysicalMemoryManager) (root : ℕ) (live : List DyadicBlock) : Prop where
  pageTree : PageTree m root
  fits : FitsEntries m root
  inUse : TablesInUse m root live

variable {m m' : PhysicalMemoryManager} {root t : ℕ} {live : List DyadicBlock}
  {q : List (Fin 512)} {i : Fin 512}

/-! ### Tables -/

theorem reach_mod {depth : ℕ} {p : List (Fin 512)} (hroot : root % pageSize = 0)
    (hp : reach m.translationEntries depth root p = some t) : t % pageSize = 0 := by
  induction p generalizing depth root with
  | nil =>
    obtain rfl : root = t := Option.some.inj hp
    exact hroot
  | cons i p ih =>
    rw [reach] at hp
    obtain ⟨c, hc, hp⟩ := Option.bind_eq_some_iff.mp hp
    obtain ⟨g, hentry⟩ := RadixEntry.exists_of_child hc
    obtain ⟨-, -, rfl, -⟩ := translationEntry_eq_table hentry
    exact ih (entryAddress_mod _) hp

/-- Entries of different slots are different words. -/
theorem slot_injective {t t' : ℕ} {i j : Fin 512} (ht : t % pageSize = 0) (ht' : t' % pageSize = 0)
    (h : t + 8 * i.val = t' + 8 * j.val) : t = t' ∧ i = j := by
  simp only [pageSize] at ht ht'
  have := i.isLt
  have := j.isLt
  exact ⟨by omega, by ext; omega⟩

/-- Only the tables of the first three levels lead to others. -/
theorem length_lt_of_table {p : List (Fin 512)} {c : ℕ} {g : PageTag}
    (h : m.translationEntries p.length t i = .table c g) : p.length < 3 := by
  rcases (translationEntry_eq_table h).2.1 with h | h <;> omega

namespace PageTree

section

variable (h : PageTree m root) (hq : reach m.translationEntries 0 root q = some t)

include h hq

/-- A slot of the tree is replaced, possibly by a new table without tables below. -/
theorem replace (hoff : AgreeOffSlot m.translationEntries m'.translationEntries root t i)
    (htree : IsTree m'.translationEntries root)
    (hpaths : ∀ p t', reach m'.translationEntries 0 root p = some t' →
      (∀ j, (m'.translationEntries p.length t' j).child = none) ∨
        reach m.translationEntries 0 root p = some t')
    (hwriteable : ∀ c g, m'.translationEntries q.length t i = .table c g → g.writeable = true)
    (hbelow : ∀ c g, m'.translationEntries q.length t i = .table c g →
      ∀ j g', (m'.translationEntries (q.length + 1) c j).tag? = some g' → g'.userAccess = true →
        g.userAccess = true)
    (habove : ∀ g, (m'.translationEntries q.length t i).tag? = some g → g.userAccess = true →
      ∀ g' ∈ tagsAlong m.translationEntries 0 root q, g'.userAccess = true) :
    PageTree m' root where
  root_mod := h.root_mod
  tree := htree
  writeable p t' j c g hp hentry := by
    rcases hpaths p t' hp with hnone | hold
    · exact absurd (hnone j) (by simp [hentry])
    by_cases hslot : t' = t ∧ j = i
    · obtain ⟨rfl, rfl⟩ := hslot
      obtain rfl := h.tree p q t' hold hq
      exact hwriteable c g hentry
    · rw [hoff p t' j hold hslot] at hentry
      exact h.writeable p t' j c g hold hentry
  user p t' j c g hp hentry j' g' htag huser := by
    rcases hpaths p t' hp with hnone | hold
    · exact absurd (hnone j) (by simp [hentry])
    by_cases hslot : t' = t ∧ j = i
    · obtain ⟨rfl, rfl⟩ := hslot
      obtain rfl := h.tree p q t' hold hq
      exact hbelow c g hentry j' g' htag huser
    rw [hoff p t' j hold hslot] at hentry
    have hchild : reach m.translationEntries 0 root (p ++ [j]) = some c := by
      rw [reach_concat hold, hentry, RadixEntry.child_table]
    by_cases hslot' : c = t ∧ j' = i
    · obtain ⟨rfl, rfl⟩ := hslot'
      obtain rfl := h.tree (p ++ [j]) q c hchild hq
      rw [List.length_append, List.length_singleton] at habove
      refine habove g' htag huser g ?_
      rw [tagsAlong_concat hold hentry]
      exact List.mem_append_right _ (List.mem_singleton_self g)
    · have hsame := hoff (p ++ [j]) c j' hchild hslot'
      rw [List.length_append, List.length_singleton] at hsame
      rw [hsame] at htag
      exact h.user p t' j c g hold hentry j' g' htag huser

/-- Above an entry that user mode may use there are only such entries. -/
theorem user_above {g : PageTag} (htag : (m.translationEntries q.length t i).tag? = some g)
    (huser : g.userAccess = true) :
    ∀ g' ∈ tagsAlong m.translationEntries 0 root q, g'.userAccess = true := by
  induction q using List.reverseRecOn generalizing t i g with
  | nil => simp [tagsAlong]
  | append_singleton q j ih =>
    obtain ⟨t', hq'⟩ := exists_reach_of_concat hq
    rw [reach_concat hq'] at hq
    obtain ⟨g₀, hentry⟩ := RadixEntry.exists_of_child hq
    rw [List.length_append, List.length_singleton] at htag
    have huser₀ := h.user q t' j t g₀ hq' hentry i g htag huser
    rw [tagsAlong_concat hq' hentry]
    intro g' hg'
    rcases List.mem_append.mp hg' with hg' | hg'
    · exact ih hq' (by rw [hentry, RadixEntry.tag?_table]) huser₀ g' hg'
    · rwa [List.mem_singleton.mp hg']

/-- All entries above a table are writeable. -/
theorem writeable_above : ∀ g ∈ tagsAlong m.translationEntries 0 root q, g.writeable = true := by
  induction q using List.reverseRecOn generalizing t with
  | nil => simp [tagsAlong]
  | append_singleton q j ih =>
    obtain ⟨t', hq'⟩ := exists_reach_of_concat hq
    rw [reach_concat hq'] at hq
    obtain ⟨g₀, hentry⟩ := RadixEntry.exists_of_child hq
    rw [tagsAlong_concat hq' hentry]
    intro g hg
    rcases List.mem_append.mp hg with hg | hg
    · exact ih hq' g hg
    · rw [List.mem_singleton.mp hg]
      exact h.writeable q t' j t g₀ hq' hentry

end

end PageTree

/-- A store to a slot changes no other slot. -/
theorem agreeOffSlot_storeEntry (m : PhysicalMemoryManager) (hroot : root % pageSize = 0)
    (ht : t % pageSize = 0) (i : Fin 512) (value : ℕ) :
    AgreeOffSlot m.translationEntries (m.storeEntry t i value).translationEntries root t i := by
  intro p t' j hp hne
  have hslot : t' + 8 * j.val ≠ t + 8 * i.val := fun heq =>
    hne (slot_injective (reach_mod hroot hp) ht heq)
  simp only [translationEntries, entry, PhysicalMemoryManager.storeEntry,
    Function.update_of_ne hslot]

namespace TablesInUse

section

variable (h : TablesInUse m root live)

include h

theorem pageAddress_mod (k : ℕ) : m.pageAddress k % pageSize = 0 := by
  have hstart := h.start_mod
  simp only [pageAddress, pageSize] at hstart ⊢
  omega

theorem page_lt {k : ℕ} (hk : m.PageFree k) : m.pageAddress k < 2 ^ 32 := by
  have hend := h.end_le
  obtain ⟨hlt, -⟩ := (h.valid.pageFree_iff k).mp hk
  simp only [pmmBuddyPhysicalLimit, pageAddress, pageSize] at hend ⊢
  omega

section

variable (ht : t % pageSize = 0) (hused : ∀ k, m.PageFree k → m.pageAddress k ≠ t)

include ht hused

/-- No entry of a table in use is a link of a free block. -/
theorem slot_ne {k : ℕ} (hk : m.PageFree k) (i : Fin 512) : t + 8 * i.val ≠ m.pageAddress k := by
  intro heq
  have hinj := slot_injective (i := i) (j := 0) ht (h.pageAddress_mod k) (by simpa using heq)
  exact hused k hk hinj.1.symm

/-- Links of free blocks keep their words when a slot is stored. -/
theorem valid_storeEntry (i : Fin 512) (value : ℕ) : Valid (m.storeEntry t i value) live :=
  h.valid.congr_links fun _ hk => Function.update_of_ne (h.slot_ne ht hused hk i).symm _ _

end

/-- The allocator gives out a page that was free. -/
theorem allocate :
    m.allocatePagesFromDescriptor 1 = (m, 0) ∨
    ∃ m' k, m.allocatePagesFromDescriptor 1 = (m', m.pageAddress k) ∧ m.pageAddress k ≠ 0 ∧
      Valid m' (⟨k, 0⟩ :: live) ∧ Keeps m m' live ∧ m.PageFree k := by
  obtain ⟨free, hlists, -⟩ := h.valid.free
  rcases h.valid.allocate 1 with hfails | ⟨m', k, hcall, hvalid, hkeeps⟩
  · exact .inl hfails
  have hvalid : Valid m' (⟨k, 0⟩ :: live) := hvalid
  have hend := hvalid.end_le List.mem_cons_self
  have hnodup := (hvalid.nodup (P := [k])).2 k List.mem_cons_self
  rw [DyadicBlock.size_mk, pow_zero, hkeeps.total] at hend
  refine .inr ⟨m', k, hcall, hlists.pageAddress_ne_zero k, hvalid, hkeeps, ?_⟩
  exact (h.valid.pageFree_iff k).mpr ⟨hend, hnodup⟩

end

variable {m'' : PhysicalMemoryManager} {k : ℕ}

/-- A page that is not free is no page that a free list holds later. -/
theorem pageFree_of_allocated (h : TablesInUse m root live) {m₂ : PhysicalMemoryManager}
    (hvalid : Valid m₂ (⟨k, 0⟩ :: live)) (htotal : m₂.memoryDescriptorInfo.totalNumberOfPages =
      m.memoryDescriptorInfo.totalNumberOfPages) {j : ℕ} (hj : m₂.PageFree j) :
    m.PageFree j ∧ j ≠ k := by
  obtain ⟨hlt, hnot⟩ := (hvalid.pageFree_iff j).mp hj
  refine ⟨(h.valid.pageFree_iff j).mpr ⟨htotal ▸ hlt, fun b hb => hnot b (.tail _ hb)⟩, ?_⟩
  rintro rfl
  exact hnot ⟨j, 0⟩ List.mem_cons_self (DyadicBlock.contains_start _)

/-- The words after a new page has been filled and entered in a slot. -/
theorem newTable_words (h : TablesInUse m root live) (hroot : root % pageSize = 0)
    (ht : t % pageSize = 0) (hused : ∀ k, m.PageFree k → m.pageAddress k ≠ t)
    (hvalid : Valid m' (⟨k, 0⟩ :: live)) (hkeeps : Keeps m m' live) (hk : m.PageFree k)
    (words : ℕ → ℕ) (value : ℕ)
    (hm'' : m'' = (m'.fillPages (m.pageAddress k) 1 words).storeEntry t i value) :
    Valid m'' (⟨k, 0⟩ :: live) ∧
      AgreeOffSlot m.translationEntries m''.translationEntries root t i ∧
      ∀ d (j : Fin 512), m''.translationEntries d (m.pageAddress k) j =
        translationEntry d (words j) := by
  have haddr := hkeeps.pageAddress
  obtain ⟨m₂, hm₂⟩ : ∃ m₂, m₂ = m'.fillPages (m'.pageAddress k) 1 words := ⟨_, rfl⟩
  rw [← haddr, ← hm₂] at hm''
  have hvalid₂ : Valid m₂ (⟨k, 0⟩ :: live) := by
    rw [hm₂]
    exact hvalid.write fun a ha => fillPages_memory (b := ⟨k, 0⟩) (by simp) words
      (ha _ List.mem_cons_self)
  have haddr₂ : m₂.pageAddress = m.pageAddress := by
    rw [← haddr, hm₂]
    rfl
  have htotal₂ : m₂.memoryDescriptorInfo.totalNumberOfPages =
      m.memoryDescriptorInfo.totalNumberOfPages := by
    rw [← hkeeps.total, hm₂]
    rfl
  -- the words of the tables: neither links of free pages nor words of the new page
  have hword : ∀ p t' (j : Fin 512), reach m.translationEntries 0 root p = some t' →
      m₂.physicalMemory (t' + 8 * j.val) = m.physicalMemory (t' + 8 * j.val) := by
    intro p t' j hp
    have hmod := reach_mod hroot hp
    have hnot : ¬ m'.InBlock ⟨k, 0⟩ (t' + 8 * j.val) := by
      have hne := h.notFree p t' hp k hk
      have hmodk := h.pageAddress_mod k
      have := j.isLt
      rw [inBlock_page, haddr]
      simp only [pageSize] at *
      omega
    rw [hm₂, fillPages_memory (b := ⟨k, 0⟩) (by simp) words hnot]
    refine hkeeps.memory _ ?_
    rintro ⟨k', hlt, heq, hfree⟩
    exact h.slot_ne hmod (h.notFree p t' hp) ((h.valid.pageFree_iff k').mpr ⟨hlt, hfree⟩) j heq
  refine ⟨?_, fun p t' j hp hne => ?_, fun d j => ?_⟩
  · rw [hm'']
    refine hvalid₂.congr_links fun k' hk' => Function.update_of_ne ?_ _ _
    rw [haddr₂]
    exact (h.slot_ne ht hused (h.pageFree_of_allocated hvalid₂ htotal₂ hk').1 i).symm
  · have hslot : t' + 8 * j.val ≠ t + 8 * i.val := fun heq =>
      hne (slot_injective (reach_mod hroot hp) ht heq)
    simp only [hm'', translationEntries, entry, PhysicalMemoryManager.storeEntry,
      Function.update_of_ne hslot, hword p t' j hp]
  · have hslot : m.pageAddress k + 8 * j.val ≠ t + 8 * i.val := by
      intro heq
      exact hused k hk (slot_injective (h.pageAddress_mod k) ht heq).1
    have := j.isLt
    simp only [hm'', translationEntries, entry, PhysicalMemoryManager.storeEntry,
      Function.update_of_ne hslot]
    rw [hm₂, PhysicalMemoryManager.fillPages, haddr]
    dsimp only
    rw [if_pos ⟨by omega, by simp only [pageSize]; omega⟩]
    congr 2
    omega

end TablesInUse

namespace MappedTables

theorem table_mod (h : MappedTables m root live) {p : List (Fin 512)}
    (hp : reach m.translationEntries 0 root p = some t) : t % pageSize = 0 :=
  reach_mod h.pageTree.root_mod hp

theorem agreeOffSlot_storeEntry (h : MappedTables m root live)
    (hq : reach m.translationEntries 0 root q = some t) (i : Fin 512) (value : ℕ) :
    AgreeOffSlot m.translationEntries (m.storeEntry t i value).translationEntries root t i :=
  m.agreeOffSlot_storeEntry h.pageTree.root_mod (h.table_mod hq) i value

theorem translationEntries_storeEntry (m : PhysicalMemoryManager) (d t : ℕ) (i : Fin 512)
    (value : ℕ) :
    (m.storeEntry t i value).translationEntries d t i = translationEntry d value := by
  rw [translationEntries, entry_storeEntry]

/-- A slot is stored that keeps its child table. -/
theorem storeEntry (h : MappedTables m root live)
    (hq : reach m.translationEntries 0 root q = some t) {value : ℕ}
    (hchild : (translationEntry q.length value).child =
      (m.translationEntries q.length t i).child)
    (hlarge : q.length < 3 → ∀ b g, translationEntry q.length value ≠ .leaf b g)
    (hwriteable : ∀ c g, translationEntry q.length value = .table c g → g.writeable = true)
    (hbelow : ∀ c g, translationEntry q.length value = .table c g →
      ∀ j g', (m.translationEntries (q.length + 1) c j).tag? = some g' → g'.userAccess = true →
        g.userAccess = true)
    (habove : ∀ g, (translationEntry q.length value).tag? = some g → g.userAccess = true →
      ∀ g' ∈ tagsAlong m.translationEntries 0 root q, g'.userAccess = true) :
    MappedTables (m.storeEntry t i value) root live ∧
      ∀ p, reach (m.storeEntry t i value).translationEntries 0 root p =
        reach m.translationEntries 0 root p := by
  have hoff := h.agreeOffSlot_storeEntry hq i value
  have hself := translationEntries_storeEntry m q.length t i value
  have hreach := hoff.reach_of_sameChild h.pageTree.tree hq (by rw [hself, hchild])
  have hvalid := h.inUse.valid_storeEntry (h.table_mod hq) (h.inUse.notFree q t hq) i value
  refine ⟨⟨h.pageTree.replace hq hoff (h.pageTree.tree.of_reach_eq hreach)
    (fun p t' hp => .inr ((hreach p).symm.trans hp)) (by rwa [hself]) ?_ (by rwa [hself]),
    ⟨fun p t' hp => h.fits.table_lt p t' ((hreach p).symm.trans hp), fun p t' j b g hp hp' => ?_⟩,
    ⟨hvalid, h.inUse.start_mod, h.inUse.end_le, fun p t' hp k hk => ?_⟩⟩, hreach⟩
  · intro c g hentry j g' htag
    rw [hself] at hentry
    have hc : reach m.translationEntries 0 root (q ++ [i]) = some c := by
      rw [reach_concat hq, ← hchild, hentry, RadixEntry.child_table]
    have hsame := hoff (q ++ [i]) c j hc fun hslot => by
      have := congrArg List.length (h.pageTree.tree _ _ _ (hslot.1 ▸ hc) hq)
      simp at this
    rw [List.length_append, List.length_singleton] at hsame
    rw [hsame] at htag
    exact hbelow c g hentry j g' htag
  · intro hentry
    rw [hreach] at hp'
    by_cases hslot : t' = t ∧ j = i
    · obtain ⟨rfl, rfl⟩ := hslot
      obtain rfl := h.pageTree.tree p q t' hp' hq
      exact absurd (hself.symm.trans hentry) (hlarge hp b g)
    · rw [hoff p t' j hp' hslot] at hentry
      exact h.fits.large_lt p t' j b g hp hp' hentry
  · rw [hreach] at hp
    exact h.inUse.notFree p t' hp k ((h.inUse.valid.pageFree_iff k).mpr
      ((hvalid.pageFree_iff k).mp hk))

/-! ### New tables -/

variable {m'' : PhysicalMemoryManager} {k : ℕ}

section

variable (h : MappedTables m root live) (hq : reach m.translationEntries 0 root q = some t)
  (hvalid : Valid m' (⟨k, 0⟩ :: live)) (hkeeps : Keeps m m' live) (hk : m.PageFree k)

include h hq hvalid hkeeps hk

theorem newTable_words (words : ℕ → ℕ) (value : ℕ)
    (hm'' : m'' = (m'.fillPages (m.pageAddress k) 1 words).storeEntry t i value) :
    Valid m'' (⟨k, 0⟩ :: live) ∧
      AgreeOffSlot m.translationEntries m''.translationEntries root t i ∧
      ∀ d (j : Fin 512), m''.translationEntries d (m.pageAddress k) j =
        translationEntry d (words j) :=
  h.inUse.newTable_words h.pageTree.root_mod (h.table_mod hq) (h.inUse.notFree q t hq) hvalid
    hkeeps hk words value hm''

/-- A new table is entered in a slot that named no table, and nothing else is translated in
another way. -/
theorem attach {words : ℕ → ℕ} {value : ℕ} {g : PageTag}
    (hm'' : m'' = (m'.fillPages (m.pageAddress k) 1 words).storeEntry t i value)
    (hnone : (m.translationEntries q.length t i).child = none)
    (hvalue : translationEntry q.length value = .table (m.pageAddress k) g)
    (hwriteable : g.writeable = true)
    (hchild : ∀ j : Fin 512, (translationEntry (q.length + 1) (words j)).child = none)
    (hlarge : q.length + 1 < 3 → ∀ (j : Fin 512) b g',
      translationEntry (q.length + 1) (words j) = .leaf b g' → b < 2 ^ 32)
    (hbelow : ∀ (j : Fin 512) g', (translationEntry (q.length + 1) (words j)).tag? = some g' →
      g'.userAccess = true → g.userAccess = true)
    (habove : g.userAccess = true →
      ∀ g' ∈ tagsAlong m.translationEntries 0 root q, g'.userAccess = true) :
    MappedTables m'' root (⟨k, 0⟩ :: live) ∧
      AgreeOffSlot m.translationEntries m''.translationEntries root t i ∧
      m''.translationEntries q.length t i = .table (m.pageAddress k) g := by
  obtain ⟨hvalid'', hoff, hwords⟩ := h.newTable_words hq hvalid hkeeps hk words value hm''
  have hself : m''.translationEntries q.length t i = .table (m.pageAddress k) g := by
    rw [hm'', translationEntries_storeEntry, hvalue]
  have haddr : m''.pageAddress = m.pageAddress := by
    rw [← hkeeps.pageAddress, hm'']
    rfl
  have htotal : m''.memoryDescriptorInfo.totalNumberOfPages =
      m.memoryDescriptorInfo.totalNumberOfPages := by
    rw [← hkeeps.total, hm'']
    rfl
  obtain ⟨htree, hpaths⟩ := h.pageTree.tree.of_newChild hoff hq
    (by rw [hself, RadixEntry.child_table])
    (fun p hp => h.inUse.notFree p _ hp k hk rfl)
    (fun j => by rw [hwords, hchild])
  have hold : ∀ p t', reach m''.translationEntries 0 root p = some t' →
      (∀ j, (m''.translationEntries p.length t' j).child = none) ∨
        reach m.translationEntries 0 root p = some t' := by
    intro p t' hp
    refine (hpaths p t' hp).imp_left ?_
    rintro ⟨rfl, rfl⟩ j
    rw [List.length_append, List.length_singleton, hwords, hchild]
  have hend := h.inUse.end_le
  refine ⟨⟨h.pageTree.replace hq hoff htree hold ?_ ?_ ?_, ⟨fun p t' hp => ?_,
    fun p t' j b g' hp hp' hentry => ?_⟩, ⟨hvalid'', ?_, ?_, fun p t' hp k' hfree => ?_⟩⟩,
    hoff, hself⟩
  · intro c g' hentry
    obtain ⟨-, rfl⟩ := RadixEntry.table.inj (hself.symm.trans hentry)
    exact hwriteable
  · intro c g' hentry j g'' htag
    obtain ⟨rfl, rfl⟩ := RadixEntry.table.inj (hself.symm.trans hentry)
    rw [hwords] at htag
    exact hbelow j g'' htag
  · intro g' htag
    rw [hself, RadixEntry.tag?_table] at htag
    obtain rfl := Option.some.inj htag
    exact habove
  · rcases hpaths p t' hp with ⟨-, rfl⟩ | hp
    · exact h.inUse.page_lt hk
    · exact h.fits.table_lt p t' hp
  · rcases hpaths p t' hp' with ⟨rfl, rfl⟩ | hp'
    · rw [List.length_append, List.length_singleton] at hp hentry
      rw [hwords] at hentry
      exact hlarge hp j b g' hentry
    · by_cases hslot : t' = t ∧ j = i
      · obtain ⟨rfl, rfl⟩ := hslot
        obtain rfl := h.pageTree.tree p q t' hp' hq
        exact absurd (hself.symm.trans hentry) (by simp)
      · rw [hoff p t' j hp' hslot] at hentry
        exact h.fits.large_lt p t' j b g' hp hp' hentry
  · rw [show m''.memoryDescriptorInfo.physicalAddressStart =
      m.memoryDescriptorInfo.physicalAddressStart by rw [← hkeeps.start, hm'']; rfl]
    exact h.inUse.start_mod
  · rwa [haddr, htotal]
  · obtain ⟨hfree, hne⟩ := h.inUse.pageFree_of_allocated hvalid'' htotal hfree
    rw [haddr]
    rcases hpaths p t' hp with ⟨-, rfl⟩ | hp
    · exact fun heq => hne (m.pageAddress_injective heq)
    · exact h.inUse.notFree p t' hp k' hfree

end

end MappedTables

/-! ### The steps of a walk -/

/-- The tables are a tree as before, and every page is translated as before. -/
structure TranslationKept (m m' : PhysicalMemoryManager) (root : ℕ) : Prop where
  tables : ∃ live, MappedTables m' root live
  lookup_eq : ∀ p : List (Fin 512), p.length = 4 →
    (lookup m'.translationEntries 0 root p).map translationOf =
      (lookup m.translationEntries 0 root p).map translationOf

/-- A table that is reached, through entries that user mode may use if the page is to be. -/
structure Entered (m : PhysicalMemoryManager) (root : ℕ) (q : List (Fin 512)) (t : ℕ)
    (flags : PageMappingFlags) : Prop where
  reached : reach m.translationEntries 0 root q = some t
  user : flags.userAccess = true →
    ∀ g ∈ tagsAlong m.translationEntries 0 root q, g.userAccess = true

theorem TranslationKept.trans (h : TranslationKept m m' root)
    (h' : TranslationKept m' m'' root) : TranslationKept m m'' root :=
  ⟨h'.tables, fun p hp => (h'.lookup_eq p hp).trans (h.lookup_eq p hp)⟩

namespace Entered

variable {flags : PageMappingFlags}

theorem nil (m : PhysicalMemoryManager) (root : ℕ) (flags : PageMappingFlags) :
    Entered m root [] root flags := ⟨rfl, fun _ g hg => by simp [tagsAlong] at hg⟩

/-- A slot elsewhere has been stored. -/
theorem of_agreeOffSlot (h : Entered m root q t flags) (htree : IsTree m.translationEntries root)
    (hoff : AgreeOffSlot m.translationEntries m'.translationEntries root t i) :
    Entered m' root q t flags :=
  ⟨hoff.reach_self htree h.reached, by rw [hoff.tagsAlong_self htree h.reached]; exact h.user⟩

theorem concat (h : Entered m root q t flags) {c : ℕ} {g : PageTag}
    (hentry : m.translationEntries q.length t i = .table c g)
    (hg : flags.userAccess = true → g.userAccess = true) :
    Entered m root (q ++ [i]) c flags := by
  refine ⟨by rw [reach_concat h.reached, hentry, RadixEntry.child_table], fun huser g' hg' => ?_⟩
  rw [tagsAlong_concat h.reached hentry] at hg'
  rcases List.mem_append.mp hg' with hg' | hg'
  · exact h.user huser g' hg'
  · rw [List.mem_singleton.mp hg']
    exact hg huser

end Entered

namespace MappedTables

variable {flags : PageMappingFlags}

theorem kept (h : MappedTables m root live) : TranslationKept m m root :=
  ⟨⟨live, h⟩, fun _ _ => rfl⟩

/-- An entry on the way is made present, or there is no page left for a table. -/
theorem ensurePresent (h : MappedTables m root live) (hq : Entered m root q t flags)
    (hdepth : q.length < 3) (i : Fin 512) :
    ∃ m' ok, m.ensurePresent t i flags = (m', ok) ∧ TranslationKept m m' root ∧
      Entered m' root q t flags ∧ (ok = true → entryPresent (m'.entry t i) = true) := by
  by_cases hpresent : entryPresent (m.entry t i) = true
  · exact ⟨m, true, if_pos hpresent, h.kept, hq, fun _ => hpresent⟩
  have hempty : m.translationEntries q.length t i = .empty := by
    rw [translationEntries, translationEntry, if_pos (by simpa using hpresent)]
  rcases h.inUse.allocate with hfails | ⟨m', k, hcall, hne, hvalid, hkeeps, hk⟩
  · exact ⟨m, false, ensurePresent_of_refused hpresent hfails, h.kept, hq, by simp⟩
  obtain ⟨m'', hm''⟩ : ∃ m'', m'' = (m'.fillPages (m.pageAddress k) 1 fun _ => 0).storeEntry t i
    (buildNonLeafEntryValue (m.pageAddress k) 0 flags.userAccess) := ⟨_, rfl⟩
  obtain ⟨htables, hoff, hself⟩ := h.attach hq.reached hvalid hkeeps hk hm''
    (by rw [hempty, RadixEntry.child_empty])
    (translationEntry_nonLeaf hdepth (h.inUse.pageAddress_mod k) (h.inUse.page_lt hk) 0 flags.userAccess)
    rfl (by simp) (by simp) (by simp) (by simpa [entryUserAccess] using hq.user)
  refine ⟨m'', true, hm'' ▸ ensurePresent_of_allocated hpresent hcall hne,
    ⟨⟨_, htables⟩, fun p hp => ?_⟩, hq.of_agreeOffSlot h.pageTree.tree hoff, fun _ => ?_⟩
  · refine hoff.map_lookup_eq h.pageTree.tree hq.reached translationOf (fun r _ => ?_) hp
    rw [lookup_cons_of_empty hempty, lookup_cons_of_table hself]
    have hzero := (h.newTable_words hq.reached hvalid hkeeps hk _ _ hm'').2.2 (q.length + 1)
    cases r with
    | nil => rfl
    | cons j r =>
      rw [lookup_cons_of_empty (by rw [hzero, translationEntry_zero])]
      rfl
  · rw [hm'', entry_storeEntry, entryPresent_buildNonLeafEntryValue]

/-- The smaller pages that replace a large one at a level make up the same pages. -/
def SplitsPage (split : ℕ → ℕ → ℕ) (depth : ℕ) : Prop :=
  ∀ entry, entryAddress entry < 2 ^ 32 → ∀ j : Fin 512, ∃ b,
    translationEntry (depth + 1) (split entry j) = .leaf b (pageTag entry) ∧ b < 2 ^ 32 ∧
      ∀ r : List (Fin 512), depth + 2 + r.length = 4 →
        framePage b r = framePage (entryAddress entry) (j :: r)

theorem splitsPage_splitGigaPage : SplitsPage splitGigaPage 1 := by
  intro entry hlt j
  refine ⟨_, translationEntry_splitGigaPage hlt j, ?_, fun r hr => ?_⟩
  · have := j.isLt
    omega
  · obtain ⟨pt, rfl⟩ := List.length_eq_one_iff.mp (show r.length = 1 by omega)
    exact framePage_splitGigaPage _ j pt

theorem splitsPage_splitMegaPage : SplitsPage splitMegaPage 2 := by
  intro entry hlt j
  refine ⟨_, translationEntry_splitMegaPage hlt j, ?_, fun r hr => ?_⟩
  · have := j.isLt
    omega
  · obtain rfl := List.length_eq_zero_iff.mp (show r.length = 0 by omega)
    exact framePage_splitMegaPage _ j

/-- A large page on the way is split, or there is no page left for the table. -/
theorem splitLargePage (h : MappedTables m root live) (hq : Entered m root q t flags)
    (hdepth : q.length < 3) {i : Fin 512} (hpresent : entryPresent (m.entry t i) = true)
    (hsize : entrySize (m.entry t i) = true) (hpos : q.length ≠ 0) {split : ℕ → ℕ → ℕ}
    (hsplit : SplitsPage split q.length) :
    ∃ m' r, PhysicalMemoryManager.splitLargePage split m t i flags = (m', r) ∧
      TranslationKept m m' root ∧ ∀ c, r = some c → Entered m' root (q ++ [i]) c flags := by
  rcases h.inUse.allocate with hfails | ⟨m', k, hcall, hne, hvalid, hkeeps, hk⟩
  · exact ⟨m, none, splitLargePage_of_refused hfails, h.kept, by simp⟩
  obtain ⟨entry, hentry⟩ : ∃ entry, entry = m.entry t i := ⟨_, rfl⟩
  obtain ⟨g, hg⟩ : ∃ g : PageTag, g = ⟨entryUserAccess entry || flags.userAccess, true⟩ := ⟨_, rfl⟩
  have hleaf : m.translationEntries q.length t i = .leaf (entryAddress entry) (pageTag entry) := by
    rw [translationEntries, ← hentry, translationEntry, if_neg (by simp [hentry, hpresent]),
      if_neg (by simp [hentry, hsize, hpos])]
  have hlt := h.fits.large_lt q t i _ _ hdepth hq.reached hleaf
  have hwords := hsplit entry hlt
  obtain ⟨m'', hm''⟩ : ∃ m'', m'' = (m'.fillPages (m.pageAddress k) 1 (split entry)).storeEntry t i
    (buildNonLeafEntryValue (m.pageAddress k) 0 (entryUserAccess entry || flags.userAccess)) :=
      ⟨_, rfl⟩
  have hvalue := translationEntry_nonLeaf hdepth (h.inUse.pageAddress_mod k) (h.inUse.page_lt hk) 0
    (entryUserAccess entry || flags.userAccess)
  rw [show entryUserAccess 0 = false from rfl, Bool.false_or, ← hg] at hvalue
  obtain ⟨htables, hoff, hself⟩ := h.attach hq.reached hvalid hkeeps hk hm''
    (by rw [hleaf, RadixEntry.child_leaf]) hvalue (by rw [hg])
    (fun j => by
      obtain ⟨b, hb, -⟩ := hwords j
      rw [hb, RadixEntry.child_leaf])
    (fun _ j b' g' hj => by
      obtain ⟨b, hb, hblt, -⟩ := hwords j
      obtain ⟨rfl, -⟩ := RadixEntry.leaf.inj (hb.symm.trans hj)
      exact hblt)
    (fun j g' htag huser => by
      obtain ⟨b, hb, -⟩ := hwords j
      rw [hb, RadixEntry.tag?_leaf] at htag
      obtain rfl := Option.some.inj htag
      rw [hg]
      exact Bool.or_eq_true_iff.mpr (.inl huser))
    (fun huser => by
      rw [hg] at huser
      rcases Bool.or_eq_true_iff.mp huser with huser | huser
      · exact h.pageTree.user_above hq.reached (by rw [hleaf, RadixEntry.tag?_leaf]) huser
      · exact hq.user huser)
  have hentered : Entered m'' root (q ++ [i]) (m.pageAddress k) flags :=
    (hq.of_agreeOffSlot h.pageTree.tree hoff).concat hself fun huser => by
      rw [hg, huser, Bool.or_true]
  refine ⟨m'', some (m.pageAddress k), ?_, ⟨⟨_, htables⟩, fun p hp => ?_⟩, ?_⟩
  · rw [splitLargePage_of_allocated hcall hne rfl, ← hentry, hm'',
      entryAddress_buildNonLeafEntryValue (h.inUse.pageAddress_mod k) (h.inUse.page_lt hk)]
  · refine hoff.map_lookup_eq h.pageTree.tree hq.reached translationOf (fun r hr => ?_) hp
    have hnew := (h.newTable_words hq.reached hvalid hkeeps hk _ _ hm'').2.2 (q.length + 1)
    rw [lookup_cons_of_leaf hleaf, lookup_cons_of_table hself]
    cases r with
    | nil =>
      rw [List.length_nil] at hr
      omega
    | cons j r =>
      obtain ⟨b, hb, -, hframe⟩ := hwords j
      rw [List.length_cons] at hr
      rw [lookup_cons_of_leaf (by rw [hnew, hb])]
      -- the entry of the new table allows whatever the entries of the smaller pages do
      simp only [Option.map_some, translationOf, hframe r (by omega), List.all_append,
        List.all_cons, List.all_nil, Bool.and_true, hg, pageTag, Bool.true_and]
      congr 2
      cases entryUserAccess entry <;> simp
  · rintro c ⟨rfl⟩
    exact hentered

/-- A table on the way becomes accessible to user mode if need be. -/
theorem grantUserAccess (h : MappedTables m root live) (hq : Entered m root q t flags)
    {i : Fin 512} {g : PageTag} (hentry : m.translationEntries q.length t i =
      .table (entryAddress (m.entry t i)) g) :
    ∃ m' r, PhysicalMemoryManager.grantUserAccess m t i flags = (m', r) ∧
      TranslationKept m m' root ∧ ∀ c, r = some c → Entered m' root (q ++ [i]) c flags := by
  obtain ⟨entry, he⟩ : ∃ entry, entry = m.entry t i := ⟨_, rfl⟩
  rw [← he] at hentry
  have hg : g = pageTag entry := by
    rw [translationEntries, ← he] at hentry
    exact (translationEntry_eq_table hentry).2.2.2
  have hchild : reach m.translationEntries 0 root (q ++ [i]) = some (entryAddress entry) := by
    rw [reach_concat hq.reached, hentry, RadixEntry.child_table]
  have hdepth := length_lt_of_table hentry
  have haddress : buildNonLeafEntryValue entry entry true =
      buildNonLeafEntryValue (entryAddress entry) entry true :=
    (buildNonLeafEntryValue_entryAddress entry entry true).symm
  have hmod := entryAddress_mod entry
  have hlt := h.fits.table_lt _ _ hchild
  have hvalue : translationEntry q.length (buildNonLeafEntryValue entry entry true) =
      .table (entryAddress entry) ⟨true, true⟩ := by
    rw [haddress, translationEntry_nonLeaf hdepth hmod hlt, Bool.or_true]
  rw [PhysicalMemoryManager.grantUserAccess, ← he]
  dsimp only
  by_cases hgrant : (flags.userAccess && !entryUserAccess entry) = true
  · rw [if_pos hgrant, haddress, entryAddress_buildNonLeafEntryValue hmod hlt, ← haddress]
    obtain ⟨huser, hnotUser⟩ : flags.userAccess = true ∧ entryUserAccess entry = false := by
      simpa using hgrant
    have hbelow := h.pageTree.user q t i _ g hq.reached hentry
    have hwriteable := h.pageTree.writeable q t i _ g hq.reached hentry
    obtain ⟨htables, -⟩ := h.storeEntry hq.reached (by rw [hvalue, hentry]; rfl)
      (fun _ b g' => by rw [hvalue]; simp)
      (fun c g' hc => by rw [← (RadixEntry.table.inj (hvalue.symm.trans hc)).2])
      (fun c g' hc j g'' _ _ => by rw [← (RadixEntry.table.inj (hvalue.symm.trans hc)).2])
      fun _ _ _ => hq.user huser
    have hoff := h.agreeOffSlot_storeEntry hq.reached i (buildNonLeafEntryValue entry entry true)
    have hself : (m.storeEntry t i (buildNonLeafEntryValue entry entry true)).translationEntries
        q.length t i = .table (entryAddress entry) ⟨true, true⟩ := by
      rw [translationEntries_storeEntry, hvalue]
    refine ⟨_, _, rfl, ⟨⟨live, htables⟩, fun p hp => ?_⟩, ?_⟩
    · refine hoff.map_lookup_eq h.pageTree.tree hq.reached translationOf (fun r _ => ?_) hp
      have hsame := (hoff.below h.pageTree.tree hq.reached
        (by rw [hentry, RadixEntry.child_table]) r).2
      rw [lookup_cons_of_table hself, lookup_cons_of_table hentry, hsame, Option.map_map,
        Option.map_map]
      refine Option.map_congr fun l hl => ?_
      -- user mode is refused by the entry below now, and there is one
      cases r with
      | nil => simp [lookup] at hl
      | cons j r =>
        obtain ⟨g', tags, htag, htags⟩ := exists_tag_of_lookup hl
        have hg' : g'.userAccess = false := by
          refine Bool.eq_false_iff.mpr fun huser' => ?_
          have := hbelow j g' htag huser'
          rw [hg] at this
          exact absurd (this.symm.trans hnotUser) (by decide)
        have huserAccess : (tagsAlong m.translationEntries 0 root q ++
            (⟨true, true⟩ : PageTag) :: l.1).all PageTag.userAccess =
            (tagsAlong m.translationEntries 0 root q ++ g :: l.1).all PageTag.userAccess := by
          simp [htags, hg']
        have hwriteAccess : (tagsAlong m.translationEntries 0 root q ++
            (⟨true, true⟩ : PageTag) :: l.1).all PageTag.writeable =
            (tagsAlong m.translationEntries 0 root q ++ g :: l.1).all PageTag.writeable := by
          simp [hwriteable]
        simp only [Function.comp_apply, translationOf, huserAccess, hwriteAccess]
    · rintro c ⟨rfl⟩
      exact (hq.of_agreeOffSlot h.pageTree.tree hoff).concat hself fun _ => rfl
  · rw [if_neg hgrant]
    refine ⟨_, _, rfl, h.kept, ?_⟩
    rintro c ⟨rfl⟩
    refine hq.concat hentry fun huser => ?_
    rw [hg]
    change entryUserAccess entry = true
    simpa [huser] using hgrant

/-- One step of a walk: the next table is entered, or there is no page left for it. -/
theorem enterTable (h : MappedTables m root live) (split : Option (ℕ → ℕ → ℕ))
    (hq : Entered m root q t flags) (hdepth : q.length < 3)
    (hnone : split = none → q.length = 0)
    (hsome : ∀ s, split = some s → q.length ≠ 0 ∧ SplitsPage s q.length) (i : Fin 512) :
    ∃ m' r, PhysicalMemoryManager.enterTable split m t i flags = (m', r) ∧
      TranslationKept m m' root ∧ ∀ c, r = some c → Entered m' root (q ++ [i]) c flags := by
  obtain ⟨m₁, ok, hensure, hkept, hq₁, hpresent⟩ := h.ensurePresent hq hdepth i
  obtain ⟨live₁, h₁⟩ := hkept.tables
  rcases enterTable_cases split hensure with
    ⟨-, hrun⟩ | ⟨rfl, hlevel, hrun⟩ | ⟨rfl, hsize, s, rfl, hrun⟩
  · exact ⟨m₁, none, hrun, hkept, by simp⟩
  · have htable : q.length = 0 ∨ q.length < 3 ∧ entrySize (m₁.entry t i) = false :=
      hlevel.imp hnone fun hsize => ⟨hdepth, hsize⟩
    obtain ⟨m₂, r, hgrant, hkept', hentered⟩ := h₁.grantUserAccess hq₁ (i := i)
      (g := pageTag (m₁.entry t i)) (by
        rw [translationEntries, translationEntry, if_neg (by simp [hpresent rfl]), if_pos htable])
    exact ⟨m₂, r, hrun.trans hgrant, hkept.trans hkept', hentered⟩
  · obtain ⟨hpos, hsplit⟩ := hsome s rfl
    obtain ⟨m₂, r, hlarge, hkept', hentered⟩ :=
      h₁.splitLargePage hq₁ hdepth (hpresent rfl) hsize hpos hsplit
    exact ⟨m₂, r, hrun.trans hlarge, hkept.trans hkept', hentered⟩

end MappedTables

end PhysicalMemoryManager

end TwistedOS
