import Mathlib.Data.Finset.Card
import TwistedOS.Memory.BuddyCompleteness
import TwistedOS.Memory.MappedPages

/-!
# The tables that a mapping needs

A page is mapped through the three tables above it. A table that is missing, or in whose place there
is a large page, takes a page of the allocator: mapping a page fails exactly if fewer pages are free
than tables are missing, and otherwise it takes as many pages as there were tables missing.

## Main definitions

* `PhysicalMemoryManager.tablePaths`, `PhysicalMemoryManager.missingTables`.
* `PhysicalMemoryManager.AddsTables`: tables are added in pages that were free.

## Main results

* `PhysicalMemoryManager.MappedTables.mapPage_addsTables`.
-/

namespace TwistedOS

open RadixTree

namespace PhysicalMemoryManager

/-- The paths of the tables above a page. -/
def tablePaths (v : ℕ) : Finset (List (Fin 512)) :=
  {[pml4Fin v], [pml4Fin v, pdptFin v], [pml4Fin v, pdptFin v, pdFin v]}

/-- Those of the paths at which there is no table. -/
def missingTables (m : PhysicalMemoryManager) (root : ℕ) (Q : Finset (List (Fin 512))) :
    Finset (List (Fin 512)) :=
  Q.filter fun q => reach m.translationEntries 0 root q = none

/-- Tables are added at the paths `Q`, in pages that were free. -/
structure AddsTables (m m' : PhysicalMemoryManager) (root : ℕ) (Q : Finset (List (Fin 512))) :
    Prop where
  start : m'.memoryDescriptorInfo.physicalAddressStart =
    m.memoryDescriptorInfo.physicalAddressStart
  total : m'.memoryDescriptorInfo.totalNumberOfPages = m.memoryDescriptorInfo.totalNumberOfPages
  maxOrder : m'.buddyMaxOrder = m.buddyMaxOrder
  missing : ∀ q ∈ Q, reach m.translationEntries 0 root q = none
  added : ∀ q ∈ Q, ∃ k, m.PageFree k ∧
    reach m'.translationEntries 0 root q = some (m.pageAddress k)
  others : ∀ q ∉ Q, reach m'.translationEntries 0 root q = reach m.translationEntries 0 root q
  free : m'.memoryDescriptorInfo.numberOfFreePages + Q.card =
    m.memoryDescriptorInfo.numberOfFreePages
  pageFree : ∀ k, m'.PageFree k → m.PageFree k

/-- No block is larger than the managed range allows. -/
def OrdersFit (m : PhysicalMemoryManager) : Prop :=
  m.buddyMaxOrder = floorLog2Pages m.memoryDescriptorInfo.totalNumberOfPages

variable {m m' m'' : PhysicalMemoryManager} {root t : ℕ} {live : List DyadicBlock}
  {Q Q' : Finset (List (Fin 512))} {q x : List (Fin 512)} {i : Fin 512} {flags : PageMappingFlags}

theorem mem_missingTables : q ∈ m.missingTables root Q ↔
    q ∈ Q ∧ reach m.translationEntries 0 root q = none := Finset.mem_filter

theorem card_missingTables_le (h : Q ⊆ Q') :
    (m.missingTables root Q).card ≤ (m.missingTables root Q').card :=
  Finset.card_le_card (Finset.filter_subset_filter _ h)

namespace AddsTables

theorem refl (m : PhysicalMemoryManager) (root : ℕ) : AddsTables m m root ∅ :=
  ⟨rfl, rfl, rfl, by simp, by simp, fun _ _ => rfl, rfl, fun _ hk => hk⟩

section

variable (h : AddsTables m m' root Q)

include h

theorem pageAddress : m'.pageAddress = m.pageAddress := by
  funext k
  simp only [PhysicalMemoryManager.pageAddress, h.start]

theorem ordersFit (hfit : m.OrdersFit) : m'.OrdersFit := by
  rw [OrdersFit, h.maxOrder, h.total, hfit]

theorem reach_ne_none (hq : q ∈ Q) : reach m'.translationEntries 0 root q ≠ none := by
  obtain ⟨k, -, hk⟩ := h.added q hq
  simp [hk]

theorem trans (h' : AddsTables m' m'' root Q') :
    AddsTables m m'' root (Q ∪ Q') where
  start := h'.start.trans h.start
  total := h'.total.trans h.total
  maxOrder := h'.maxOrder.trans h.maxOrder
  missing q hq := by
    by_cases hmem : q ∈ Q
    · exact h.missing q hmem
    · rw [← h.others q hmem]
      exact h'.missing q ((Finset.mem_union.mp hq).resolve_left hmem)
  added q hq := by
    by_cases hmem : q ∈ Q'
    · obtain ⟨k, hk, hreach⟩ := h'.added q hmem
      exact ⟨k, h.pageFree k hk, by rw [hreach, h.pageAddress]⟩
    · rw [h'.others q hmem]
      exact h.added q ((Finset.mem_union.mp hq).resolve_right hmem)
  others q hq := by
    rw [Finset.notMem_union] at hq
    rw [h'.others q hq.2, h.others q hq.1]
  free := by
    have hdisjoint : Disjoint Q Q' := Finset.disjoint_left.mpr fun q hq hq' =>
      h.reach_ne_none hq (h'.missing q hq')
    rw [Finset.card_union_of_disjoint hdisjoint, Nat.add_comm Q.card, ← Nat.add_assoc, h'.free,
      h.free]
  pageFree k hk := h.pageFree k (h'.pageFree k hk)

theorem reach_mono (hq : reach m.translationEntries 0 root q ≠ none) :
    reach m'.translationEntries 0 root q ≠ none := by
  rwa [h.others q fun hmem => hq (h.missing q hmem)]

theorem missingTables_eq (Q' : Finset (List (Fin 512))) :
    m'.missingTables root Q' = m.missingTables root Q' \ Q := by
  ext q
  rw [Finset.mem_sdiff, mem_missingTables, mem_missingTables]
  by_cases hq : q ∈ Q
  · simp [hq, h.reach_ne_none hq]
  · simp [hq, h.others q hq]

/-- When all tables are there in the end, those that were missing have been added. -/
theorem eq_missingTables (hsub : Q ⊆ Q')
    (hall : ∀ q ∈ Q', reach m'.translationEntries 0 root q ≠ none) :
    Q = m.missingTables root Q' := by
  ext q
  rw [mem_missingTables]
  constructor
  · exact fun hq => ⟨hsub hq, h.missing q hq⟩
  · rintro ⟨hq, hnone⟩
    by_contra hnot
    exact hall q hq ((h.others q hnot).trans hnone)

/-- Tables have run out: more are missing than pages were free. -/
theorem lt_card_missingTables (hsub : Q ⊆ Q') (hx : x ∈ Q')
    (hnone : reach m'.translationEntries 0 root x = none)
    (hfree : m'.memoryDescriptorInfo.numberOfFreePages = 0) :
    m.memoryDescriptorInfo.numberOfFreePages < (m.missingTables root Q').card := by
  have hnot : x ∉ Q := fun hmem => h.reach_ne_none hmem hnone
  have hinsert : insert x Q ⊆ m.missingTables root Q' := by
    refine Finset.insert_subset ?_ fun q hq => ?_
    · exact mem_missingTables.mpr ⟨hx, (h.others x hnot).symm.trans hnone⟩
    · exact mem_missingTables.mpr ⟨hsub hq, h.missing q hq⟩
  have hcard := Finset.card_le_card hinsert
  rw [Finset.card_insert_of_notMem hnot] at hcard
  have := h.free
  omega

end

/-- When the tables that were missing in `Q` have been added, the pages that are left are enough for
those of `Q'` exactly if there were enough for both. -/
theorem missing_union_le_iff (h : AddsTables m m' root (m.missingTables root Q)) :
    (m.missingTables root (Q ∪ Q')).card ≤ m.memoryDescriptorInfo.numberOfFreePages ↔
      (m'.missingTables root Q').card ≤ m'.memoryDescriptorInfo.numberOfFreePages := by
  have hmissing : m.missingTables root (Q ∪ Q') =
      m.missingTables root Q ∪ m'.missingTables root Q' := by
    rw [h.missingTables_eq, Finset.union_sdiff_self_eq_union, missingTables, Finset.filter_union]
    rfl
  have hdisjoint : Disjoint (m.missingTables root Q) (m'.missingTables root Q') := by
    rw [h.missingTables_eq]
    exact Finset.disjoint_sdiff
  have hfree := h.free
  rw [hmissing, Finset.card_union_of_disjoint hdisjoint]
  omega

end AddsTables

namespace MappedTables

/-! ### Stores -/

section

variable (h : MappedTables m root live) (hq : reach m.translationEntries 0 root q = some t)

include h hq

/-- A store that keeps the child of a slot adds no table. -/
theorem storeEntry_addsTables (i : Fin 512) {value : ℕ}
    (hchild : (translationEntry q.length value).child = (m.translationEntries q.length t i).child) :
    AddsTables m (m.storeEntry t i value) root ∅ := by
  have hvalid := h.inUse.valid_storeEntry (h.table_mod hq) (h.inUse.notFree q t hq) i value
  refine ⟨rfl, rfl, rfl, by simp, by simp, fun p _ => ?_, rfl, fun k hk => ?_⟩
  · refine (h.agreeOffSlot_storeEntry hq i value).reach_of_sameChild h.pageTree.tree hq ?_ p
    rw [translationEntries_storeEntry, hchild]
  · exact (h.inUse.valid.pageFree_iff k).mpr ((hvalid.pageFree_iff k).mp hk)

/-- A new table is entered in a slot that named no table. -/
theorem newTable_addsTables {k : ℕ} (hvalid : Valid m' (⟨k, 0⟩ :: live)) (hkeeps : Keeps m m' live)
    (hk : m.PageFree k) {words : ℕ → ℕ} {value : ℕ} {g : PageTag}
    (hm'' : m'' = (m'.fillPages (m.pageAddress k) 1 words).storeEntry t i value)
    (hnone : (m.translationEntries q.length t i).child = none)
    (hvalue : translationEntry q.length value = .table (m.pageAddress k) g)
    (hchild : ∀ j : Fin 512, (translationEntry (q.length + 1) (words j)).child = none) :
    AddsTables m m'' root {q ++ [i]} := by
  obtain ⟨hvalid'', hoff, hwords⟩ := h.newTable_words hq hvalid hkeeps hk words value hm''
  have hself : (m''.translationEntries q.length t i).child = some (m.pageAddress k) := by
    rw [hm'', translationEntries_storeEntry, hvalue, RadixEntry.child_table]
  obtain ⟨-, hpaths⟩ := h.pageTree.tree.of_newChild hoff hq hself
    (fun p hp => h.inUse.notFree p _ hp k hk rfl) fun j => by rw [hwords, hchild]
  have hstart : m''.memoryDescriptorInfo.physicalAddressStart =
      m.memoryDescriptorInfo.physicalAddressStart := by
    rw [← hkeeps.start, hm'']
    rfl
  have htotal : m''.memoryDescriptorInfo.totalNumberOfPages =
      m.memoryDescriptorInfo.totalNumberOfPages := by
    rw [← hkeeps.total, hm'']
    rfl
  have hmaxOrder : m''.buddyMaxOrder = m.buddyMaxOrder := by
    rw [← hkeeps.maxOrder, hm'']
    rfl
  have hconcat := reach_concat hq i
  rw [hnone] at hconcat
  refine ⟨hstart, htotal, hmaxOrder, ?_, ?_, fun p hp => ?_, ?_, fun k' hk' =>
    (h.inUse.pageFree_of_allocated hvalid'' htotal hk').1⟩
  · rintro p hp
    rwa [Finset.mem_singleton.mp hp]
  · rintro p hp
    refine ⟨k, hk, ?_⟩
    rw [Finset.mem_singleton.mp hp, reach_concat (hoff.reach_self h.pageTree.tree hq), hself]
  · rw [Finset.mem_singleton] at hp
    cases hnew : reach m''.translationEntries 0 root p with
    | some c =>
      rcases hpaths p c hnew with ⟨rfl, -⟩ | hold
      · exact absurd rfl hp
      · exact hold.symm
    | none =>
      -- a path through the slot has led nowhere
      cases hold : reach m.translationEntries 0 root p with
      | none => rfl
      | some c =>
        have hnot : ¬ (q ++ [i]) <+: p := by
          rintro ⟨r, rfl⟩
          rw [reach_append, hconcat] at hold
          simp at hold
        rw [hoff.reach_of_not_prefix h.pageTree.tree hq hnot, hold] at hnew
        simp at hnew
  · have hsum := h.inUse.valid.numberOfFreePages_add
    have hsum'' := hvalid''.numberOfFreePages_add
    rw [List.map_cons, List.sum_cons, DyadicBlock.size_mk, pow_zero] at hsum''
    rw [Finset.card_singleton]
    omega

end

/-! ### The steps of a walk -/

section

variable (h : MappedTables m root live) (hfit : m.OrdersFit)
  (hq : reach m.translationEntries 0 root q = some t) (hdepth : q.length < 3)

include h hfit hq hdepth

theorem ensurePresent_addsTables {ok : Bool} (hrun : m.ensurePresent t i flags = (m', ok)) :
    (∃ S ⊆ {q ++ [i]}, AddsTables m m' root S) ∧
      (ok = false → reach m'.translationEntries 0 root (q ++ [i]) = none ∧
        m'.memoryDescriptorInfo.numberOfFreePages = 0) := by
  by_cases hpresent : entryPresent (m.entry t i) = true
  · rw [PhysicalMemoryManager.ensurePresent, if_pos hpresent] at hrun
    obtain ⟨rfl, rfl⟩ := Prod.mk.inj hrun
    exact ⟨⟨∅, by simp, .refl m root⟩, by simp⟩
  have hempty : m.translationEntries q.length t i = .empty := by
    rw [translationEntries, translationEntry, if_pos (by simpa using hpresent)]
  rcases h.inUse.allocate with hfails | ⟨m₁, k, hcall, hne, hvalid, hkeeps, hk⟩
  · rw [ensurePresent_of_refused hpresent hfails] at hrun
    obtain ⟨rfl, rfl⟩ := Prod.mk.inj hrun
    refine ⟨⟨∅, by simp, .refl m root⟩, fun _ =>
      ⟨?_, h.inUse.valid.numberOfFreePages_eq_zero hfit h.inUse.end_le hfails⟩⟩
    rw [reach_concat hq, hempty, RadixEntry.child_empty]
  · rw [ensurePresent_of_allocated hpresent hcall hne] at hrun
    obtain ⟨rfl, rfl⟩ := Prod.mk.inj hrun
    refine ⟨⟨_, Finset.Subset.refl _, ?_⟩, by simp⟩
    exact h.newTable_addsTables hq hvalid hkeeps hk rfl (by rw [hempty, RadixEntry.child_empty])
      (translationEntry_nonLeaf hdepth (h.inUse.pageAddress_mod k) (h.inUse.page_lt hk) 0
        flags.userAccess) (by simp)

theorem splitLargePage_addsTables (hpresent : entryPresent (m.entry t i) = true)
    (hsize : entrySize (m.entry t i) = true) (hpos : q.length ≠ 0) {split : ℕ → ℕ → ℕ}
    (hsplit : SplitsPage split q.length) {r : Option ℕ}
    (hrun : PhysicalMemoryManager.splitLargePage split m t i flags = (m', r)) :
    (∃ S ⊆ {q ++ [i]}, AddsTables m m' root S) ∧
      (r = none → reach m'.translationEntries 0 root (q ++ [i]) = none ∧
        m'.memoryDescriptorInfo.numberOfFreePages = 0) := by
  have hleaf : m.translationEntries q.length t i =
      .leaf (entryAddress (m.entry t i)) (pageTag (m.entry t i)) := by
    rw [translationEntries, translationEntry, if_neg (by simp [hpresent]),
      if_neg (by simp [hsize, hpos])]
  rcases h.inUse.allocate with hfails | ⟨m₁, k, hcall, hne, hvalid, hkeeps, hk⟩
  · rw [splitLargePage_of_refused hfails] at hrun
    obtain ⟨rfl, rfl⟩ := Prod.mk.inj hrun
    refine ⟨⟨∅, by simp, .refl m root⟩, fun _ =>
      ⟨?_, h.inUse.valid.numberOfFreePages_eq_zero hfit h.inUse.end_le hfails⟩⟩
    rw [reach_concat hq, hleaf, RadixEntry.child_leaf]
  · rw [splitLargePage_of_allocated hcall hne rfl] at hrun
    obtain ⟨rfl, rfl⟩ := Prod.mk.inj hrun
    refine ⟨⟨_, Finset.Subset.refl _, ?_⟩, by simp⟩
    refine h.newTable_addsTables hq hvalid hkeeps hk rfl (by rw [hleaf, RadixEntry.child_leaf])
      (translationEntry_nonLeaf hdepth (h.inUse.pageAddress_mod k) (h.inUse.page_lt hk) 0
        _) fun j => ?_
    obtain ⟨b, hb, -⟩ := hsplit _ (h.fits.large_lt q t i _ _ hdepth hq hleaf) j
    rw [hb, RadixEntry.child_leaf]

end

theorem grantUserAccess_addsTables (h : MappedTables m root live)
    (hq : reach m.translationEntries 0 root q = some t) {g : PageTag}
    (hentry : m.translationEntries q.length t i = .table (entryAddress (m.entry t i)) g)
    {r : Option ℕ} (hrun : PhysicalMemoryManager.grantUserAccess m t i flags = (m', r)) :
    AddsTables m m' root ∅ ∧ r ≠ none := by
  rw [PhysicalMemoryManager.grantUserAccess] at hrun
  dsimp only at hrun
  split_ifs at hrun
  · obtain ⟨rfl, rfl⟩ := Prod.mk.inj hrun
    refine ⟨h.storeEntry_addsTables hq i ?_, by simp⟩
    have hchild : reach m.translationEntries 0 root (q ++ [i]) =
        some (entryAddress (m.entry t i)) := by
      rw [reach_concat hq, hentry, RadixEntry.child_table]
    rw [hentry, ← buildNonLeafEntryValue_entryAddress, translationEntry_nonLeaf
      (length_lt_of_table hentry) (entryAddress_mod _) (h.fits.table_lt _ _ hchild)]
    rfl
  · obtain ⟨rfl, rfl⟩ := Prod.mk.inj hrun
    exact ⟨.refl m root, by simp⟩

/-- A table is entered, in a new page if need be, or no page is left for it. -/
theorem enterTable_addsTables (h : MappedTables m root live) (hfit : m.OrdersFit)
    (split : Option (ℕ → ℕ → ℕ)) (hq : Entered m root q t flags) (hdepth : q.length < 3)
    (hnone : split = none → q.length = 0)
    (hsome : ∀ s, split = some s → q.length ≠ 0 ∧ SplitsPage s q.length) (i : Fin 512)
    {r : Option ℕ} (hrun : PhysicalMemoryManager.enterTable split m t i flags = (m', r)) :
    (∃ S ⊆ {q ++ [i]}, AddsTables m m' root S) ∧
      (r = none → reach m'.translationEntries 0 root (q ++ [i]) = none ∧
        m'.memoryDescriptorInfo.numberOfFreePages = 0) := by
  obtain ⟨m₁, ok, hensure, hkept, hq₁, hpresent⟩ := h.ensurePresent hq hdepth i
  obtain ⟨live₁, h₁⟩ := hkept.tables
  obtain ⟨⟨S, hS, hadds⟩, hfailed⟩ := h.ensurePresent_addsTables hfit hq.reached hdepth hensure
  rcases enterTable_cases split hensure with
    ⟨rfl, henter⟩ | ⟨rfl, hlevel, henter⟩ | ⟨rfl, hsize, s, rfl, henter⟩
  · obtain ⟨rfl, rfl⟩ := Prod.mk.inj (henter.symm.trans hrun)
    exact ⟨⟨S, hS, hadds⟩, fun _ => hfailed rfl⟩
  · have htable : q.length = 0 ∨ q.length < 3 ∧ entrySize (m₁.entry t i) = false :=
      hlevel.imp hnone fun hsize => ⟨hdepth, hsize⟩
    obtain ⟨hadds', hne⟩ := h₁.grantUserAccess_addsTables hq₁.reached (g := pageTag
      (m₁.entry t i)) (by
        rw [translationEntries, translationEntry, if_neg (by simp [hpresent rfl]), if_pos htable])
      (henter.symm.trans hrun)
    exact ⟨⟨S ∪ ∅, by simpa using hS, hadds.trans hadds'⟩, fun hr => absurd hr hne⟩
  · obtain ⟨hpos, hsplit⟩ := hsome s rfl
    obtain ⟨⟨S', hS', hadds'⟩, hfailed'⟩ := h₁.splitLargePage_addsTables (hadds.ordersFit hfit)
      hq₁.reached hdepth (hpresent rfl) hsize hpos hsplit (henter.symm.trans hrun)
    exact ⟨⟨S ∪ S', Finset.union_subset hS hS', hadds.trans hadds'⟩, hfailed'⟩

/-! ### Mapping a page -/

theorem mem_tablePaths_of_prefix {v : ℕ}
    (h : q ++ [i] <+: [pml4Fin v, pdptFin v, pdFin v]) : q ++ [i] ∈ tablePaths v := by
  simp only [tablePaths, Finset.mem_insert, Finset.mem_singleton]
  obtain ⟨l, hl⟩ := h
  rcases q with _ | ⟨a, _ | ⟨b, _ | ⟨c, q⟩⟩⟩ <;> simp_all

/-- Mapping a page adds tables above it: all of them, or as many as there are free pages. -/
private theorem mapPage_walk (h : MappedTables m root live) (hfit : m.OrdersFit)
    (physicalAddress v : ℕ) {ok : Bool}
    (hrun : m.mapPage root physicalAddress v flags = (m', ok)) :
    (∃ S ⊆ tablePaths v, AddsTables m m' root S) ∧
      (ok = true → ∀ q ∈ tablePaths v, reach m'.translationEntries 0 root q ≠ none) ∧
      (ok = false → (∃ q ∈ tablePaths v, reach m'.translationEntries 0 root q = none) ∧
        m'.memoryDescriptorInfo.numberOfFreePages = 0) := by
  obtain ⟨m₁, ⟨⟨hadds, hmissing⟩, hfails⟩ | ⟨pt, ⟨hkept, hentered, S, hS, hadds⟩, hdone⟩⟩ :=
    mapPage_of_steps (fun m₁ q t => TranslationKept m m₁ root ∧
        Entered m₁ root q t flags ∧ ∃ S ⊆ tablePaths v, AddsTables m m₁ root S)
      (fun m₁ => (∃ S ⊆ tablePaths v, AddsTables m m₁ root S) ∧
        (∃ q ∈ tablePaths v, reach m₁.translationEntries 0 root q = none) ∧
          m₁.memoryDescriptorInfo.numberOfFreePages = 0)
      m root physicalAddress v flags ⟨h.kept, .nil m root flags, ∅, by simp, .refl m root⟩
      fun m₁ q t i hinv hdepth hi => by
        obtain ⟨hkept, hq, S, hS, hadds⟩ := hinv
        obtain ⟨live₁, h₁⟩ := hkept.tables
        obtain ⟨m₂, r, hrun, hkept', hentered⟩ := h₁.enterTable _ hq hdepth levelSplit_eq_none
          (fun _ => levelSplit_eq_some splitsPage_splitGigaPage splitsPage_splitMegaPage hdepth) i
        obtain ⟨⟨S', hS', hadds'⟩, hfailed⟩ := h₁.enterTable_addsTables (hadds.ordersFit hfit) _ hq
          hdepth levelSplit_eq_none
          (fun _ => levelSplit_eq_some splitsPage_splitGigaPage splitsPage_splitMegaPage hdepth) i
          hrun
        have hmem := mem_tablePaths_of_prefix hi
        have hunion : S ∪ S' ⊆ tablePaths v :=
          Finset.union_subset hS (hS'.trans (Finset.singleton_subset_iff.mpr hmem))
        exact ⟨m₂, r, hrun, fun hr => ⟨⟨_, hunion, hadds.trans hadds'⟩,
          ⟨_, hmem, (hfailed hr).1⟩, (hfailed hr).2⟩, fun c hc =>
          ⟨hkept.trans hkept', hentered c hc, _, hunion, hadds.trans hadds'⟩⟩
  · obtain ⟨rfl, rfl⟩ := Prod.mk.inj (hfails.symm.trans hrun)
    exact ⟨hadds, by simp, fun _ => hmissing⟩
  · obtain ⟨rfl, rfl⟩ := Prod.mk.inj (hdone.symm.trans hrun)
    obtain ⟨live₁, h₁⟩ := hkept.tables
    have hpt := hentered.reached
    obtain ⟨pd, hpd⟩ := exists_reach_of_concat (p := [pml4Fin v, pdptFin v]) hpt
    obtain ⟨pdpt, hpdpt⟩ := exists_reach_of_concat (p := [pml4Fin v]) hpd
    have hstore : AddsTables m₁ (m₁.storeEntry pt (ptFin v)
        (buildLeafEntryValue physicalAddress 0 flags.userAccess flags.writeable)) root ∅ :=
      h₁.storeEntry_addsTables hpt (ptFin v)
        ((child_translationEntry_three _).trans (child_translationEntry_three _).symm)
    refine ⟨⟨_, by simpa using hS, hadds.trans hstore⟩, fun _ q hq => hstore.reach_mono ?_, by simp⟩
    simp only [tablePaths, Finset.mem_insert, Finset.mem_singleton] at hq
    rcases hq with rfl | rfl | rfl <;> simp [hpt, hpd, hpdpt]

/-- Mapping a page fails exactly if more tables are missing than pages are free; otherwise the
missing tables are added. -/
theorem mapPage_addsTables (h : MappedTables m root live) (hfit : m.OrdersFit)
    (physicalAddress v : ℕ) {ok : Bool}
    (hrun : m.mapPage root physicalAddress v flags = (m', ok)) :
    (∃ S ⊆ tablePaths v, AddsTables m m' root S) ∧
      (ok = true → AddsTables m m' root (m.missingTables root (tablePaths v))) ∧
      (ok = true ↔ (m.missingTables root (tablePaths v)).card ≤
        m.memoryDescriptorInfo.numberOfFreePages) := by
  obtain ⟨⟨S, hS, hadds⟩, hdone, hfailed⟩ := h.mapPage_walk hfit physicalAddress v hrun
  refine ⟨⟨S, hS, hadds⟩, fun hok => ?_, ?_⟩
  · rwa [← hadds.eq_missingTables hS (hdone hok)]
  · cases ok with
    | true =>
      have hfree := hadds.free
      rw [hadds.eq_missingTables hS (hdone rfl)] at hfree
      simp only [true_iff]
      omega
    | false =>
      obtain ⟨⟨q, hq, hnone⟩, hfree⟩ := hfailed rfl
      simpa using hadds.lt_card_missingTables hS hq hnone hfree

end MappedTables

end PhysicalMemoryManager

end TwistedOS
