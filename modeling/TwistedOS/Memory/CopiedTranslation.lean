import TwistedOS.Memory.FailedCopies
import TwistedOS.Memory.SharedTables

/-!
# The translations of a copy

The copy of an address space translates every address as the source does if nothing is left out: the
copy drops pages at the physical address `0` and tables there, and it makes all entries that lead to
tables writeable. The tables of the lower half are new, so that later calls on one of the two
address spaces do not change the lower half of the other.

## Main definitions

* `PhysicalMemoryManager.CopyableTree`: the tables of a source.
* `PhysicalMemoryManager.CopiedEntirely`: the copy leaves nothing out.
* `PhysicalMemoryManager.CopiesFaithfully`.

## Main results

* `PhysicalMemoryManager.CopyableTree.copiesFaithfully`.
* `PhysicalMemoryManager.not_copiesFaithfully`: what is left out or changed otherwise.
-/

namespace TwistedOS

open RadixTree

/-- An entry that the copy does not leave out or change. -/
theorem sourceEntry_eq {depth entry : ℕ} {i : Fin 512} (hindex : depth = 0 → i.val < 256)
    (htable : ∀ c g, translationEntry depth entry = .table c g →
      c ≠ 0 ∧ c < 0xC0000000 ∧ g.writeable = true)
    (hleaf : ∀ b g, translationEntry depth entry = .leaf b g → b ≠ 0 ∧ b < 2 ^ 32) :
    sourceEntry depth i entry = translationEntry depth entry := by
  have hmod := entryAddress_mod entry
  rw [sourceEntry, if_neg (by omega)]
  rw [translationEntry] at htable hleaf ⊢
  by_cases hpresent : entryPresent entry = false
  · rw [if_pos hpresent, if_pos hpresent]
  rw [if_neg hpresent] at htable hleaf ⊢
  rw [if_neg hpresent]
  by_cases hchild : depth = 0 ∨ depth < 3 ∧ entrySize entry = false
  · rw [if_pos hchild] at htable
    obtain ⟨hne, hlt, hwriteable⟩ := htable _ _ rfl
    have hwriteable : entryWriteable entry = true := hwriteable
    rw [if_pos hchild, if_pos hchild, normalizeTablePhysicalAddress_eq hne hmod hlt, if_neg hne,
      pageTag, hwriteable]
  · rw [if_neg hchild] at hleaf
    obtain ⟨hne, hlt⟩ := hleaf _ _ rfl
    rw [if_neg hchild, if_neg hchild, and_validPhysicalAddrMask hmod hlt, if_pos]
    exact decide_eq_true ⟨hne, hmod, hlt⟩

namespace PhysicalMemoryManager

/-- Tables in use, all of them below `0xC0000000`, and pages of the lower half below 4 GiB. -/
structure CopyableTree (m : PhysicalMemoryManager) (root : ℕ) (live : List DyadicBlock) :
    Prop where
  inUse : TablesInUse m root live
  maxOrder : m.buddyMaxOrder = floorLog2Pages m.memoryDescriptorInfo.totalNumberOfPages
  root_mod : root % pageSize = 0
  tree : IsTree m.translationEntries root
  table_lt : ∀ p t, reach m.translationEntries 0 root p = some t → t < 0xC0000000
  leaf_lt : ∀ p t i b g, OwnPath LowerSlot (p ++ [i]) →
    reach m.translationEntries 0 root p = some t →
    m.translationEntries p.length t i = .leaf b g → b < 2 ^ 32

/-- In the lower half there are no pages at the physical address `0` and no tables there, and every
entry that leads to a table is writeable. -/
structure CopiedEntirely (m : PhysicalMemoryManager) (root : ℕ) : Prop where
  leaf_ne : ∀ p t i b g, OwnPath LowerSlot (p ++ [i]) →
    reach m.translationEntries 0 root p = some t →
    m.translationEntries p.length t i = .leaf b g → b ≠ 0
  table_ne : ∀ p t i c g, p ≠ [] → OwnPath LowerSlot (p ++ [i]) →
    reach m.translationEntries 0 root p = some t →
    m.translationEntries p.length t i = .table c g → c ≠ 0
  writeable : ∀ p t i c g, OwnPath LowerSlot (p ++ [i]) →
    reach m.translationEntries 0 root p = some t →
    m.translationEntries p.length t i = .table c g → g.writeable = true

/-- The roots of an address space and its copy. -/
def SourceAndCopy (root copy x : ℕ) : Prop := x = root ∨ x = copy

/-- After a copy, both address spaces translate every address as the source did. No table of the
lower half of the copy is one of the source, and in whatever states calls on the two lead to, a call
on one of them leaves the lower half of the other alone. -/
structure CopiesFaithfully (m m' : PhysicalMemoryManager) (root copy : ℕ) : Prop where
  translation_eq : ∀ v, m'.translation copy v = m.translation root v
  source_eq : ∀ v, m'.translation root v = m.translation root v
  apart : ∀ p t, p ≠ [] → OwnPath LowerSlot p → reach m'.translationEntries 0 copy p = some t →
    ∀ q, reach m.translationEntries 0 root q ≠ some t
  isolated : ∀ m₁, SpacesRun (SourceAndCopy root copy) m' m₁ → ∀ x y event v,
    SourceAndCopy root copy x → SourceAndCopy root copy y → x ≠ y → pml4Index v < 256 →
    (m₁.afterPageMapEvent x event).translation y v = m₁.translation y v

variable {m m' : PhysicalMemoryManager} {root t k fuel : ℕ} {live : List DyadicBlock} {L : List ℕ}
  {D : Fin 512 → List ℕ} {p q : List (Fin 512)} {i : Fin 512}

/-- An address of the lower half leads through own tables. -/
theorem ownPath_pagePath {v : ℕ} (hv : pml4Index v < 256) : OwnPath LowerSlot (pagePath v) :=
  ownPath_cons.mpr hv

theorem lowerSlot_of_ownPath (h : OwnPath LowerSlot (p ++ [i])) (hp : p.length = 0) :
    i.val < 256 := by
  rw [List.length_eq_zero_iff.mp hp] at h
  have hi : LowerSlot i := ownPath_cons.mp h
  exact hi

/-- Calls on one address space do not change the translations of the lower half of another. -/
theorem OthersKept.translation_eq {roots : ℕ → Prop} {x y v : ℕ} (h : OthersKept m m' roots x)
    (hy : roots y) (hne : y ≠ x) (hv : pml4Index v < 256) :
    m'.translation y v = m.translation y v := by
  rw [translation, translation, h.lookup_eq y _ hy hne (ownPath_pagePath hv)]

/-! ### The source -/

theorem child_sourceEntry {depth entry c : ℕ} (hc : (sourceEntry depth i entry).child = some c) :
    (translationEntry depth entry).child = some (entryAddress entry) ∧
      normalizeTablePhysicalAddress (entryAddress entry) = c ∧ c ≠ 0 ∧
      (depth = 0 → i.val < 256) := by
  obtain ⟨g, hentry⟩ := RadixEntry.exists_of_child hc
  rw [sourceEntry] at hentry
  split_ifs at hentry with hupper hpresent htable hnormal
  obtain ⟨rfl, -⟩ := RadixEntry.table.inj hentry
  rw [translationEntry, if_neg hpresent, if_pos htable, RadixEntry.child_table]
  exact ⟨rfl, rfl, hnormal, by omega⟩

namespace CopyableTree

/-- The tables that are copied are tables of the lower half. -/
theorem reach_of_source (h : CopyableTree m root live)
    (hp : reach m.sourceEntries 0 root p = some t) :
    reach m.translationEntries 0 root p = some t ∧ OwnPath LowerSlot p := by
  induction p using List.reverseRecOn generalizing t with
  | nil => exact ⟨hp, ownPath_nil⟩
  | append_singleton p i ih =>
    obtain ⟨c, hc⟩ := exists_reach_of_concat hp
    obtain ⟨hreach, hown⟩ := ih hc
    rw [reach_concat hc] at hp
    obtain ⟨hchild, hnormal, hne, hindex⟩ := child_sourceEntry hp
    have hnext : reach m.translationEntries 0 root (p ++ [i]) = some (entryAddress (m.entry c i)) :=
      (reach_concat hreach i).trans hchild
    have haddress : entryAddress (m.entry c i) = t := by
      rw [← hnormal, normalizeTablePhysicalAddress_eq _ (entryAddress_mod _) (h.table_lt _ _ hnext)]
      intro hzero
      rw [hzero] at hnormal
      exact hne (hnormal.symm.trans (by decide))
    refine ⟨haddress ▸ hnext, ?_⟩
    cases p with
    | nil => exact ownPath_cons.mpr (hindex rfl)
    | cons j p => exact ownPath_cons.mpr (ownPath_cons.mp hown)

/-- The tables are in use while they are copied. -/
theorem copySource (h : CopyableTree m root live) : CopySource m root live where
  valid := h.inUse.valid
  start_mod := h.inUse.start_mod
  end_le := h.inUse.end_le
  maxOrder := h.maxOrder
  root_mod := h.root_mod
  notFree p t hp := h.inUse.notFree p t (h.reach_of_source hp).1

/-- Nothing of the lower half is left out. -/
theorem lookup_sourceEntries (h : CopyableTree m root live) (hentirely : CopiedEntirely m root)
    (hvalid : ∀ j, m.Pml4Valid root j) (hp : OwnPath LowerSlot p) :
    lookup m.sourceEntries 0 root p = lookup m.translationEntries 0 root p := by
  refine (reach_lookup_congr_of_own (fun q t i hown hq => ?_) hp).2
  refine sourceEntry_eq (lowerSlot_of_ownPath hown) (fun c g hentry => ⟨?_, ?_, ?_⟩)
    fun b g hentry => ⟨?_, ?_⟩
  · rintro rfl
    by_cases hnil : q = []
    · -- the copy has not failed at the entry of the first level
      subst hnil
      obtain rfl : root = t := Option.some.inj hq
      obtain ⟨hpresent, -, hzero, -⟩ := translationEntry_eq_table hentry
      refine hvalid i ⟨lowerSlot_of_ownPath hown rfl, hpresent⟩ ?_
      rw [← hzero]
      decide
    · exact hentirely.table_ne q t i 0 g hnil hown hq hentry rfl
  · refine h.table_lt (q ++ [i]) c ?_
    rw [reach_concat hq]
    exact (congrArg RadixEntry.child hentry).trans (RadixEntry.child_table c g)
  · exact hentirely.writeable q t i c g hown hq hentry
  · exact hentirely.leaf_ne q t i b g hown hq hentry
  · exact h.leaf_lt q t i b g hown hq hentry

end CopyableTree

/-! ### The copy -/

/-- In the lower half the tables of an address space are those that the processor sees. -/
theorem lookup_lowerEntries (m : PhysicalMemoryManager) (hp : OwnPath LowerSlot p) :
    reach m.lowerEntries 0 t p = reach m.translationEntries 0 t p ∧
      lookup m.lowerEntries 0 t p = lookup m.translationEntries 0 t p := by
  refine reach_lookup_congr_of_own (fun q c i hown _ => ?_) hp
  have hindex := lowerSlot_of_ownPath hown
  rw [lowerEntries, readEntry, if_neg (by omega)]
  rfl

/-- Source and copy after a copy that has succeeded. -/
structure Copied (m m' : PhysicalMemoryManager) (live : List DyadicBlock) (root k : ℕ)
    (L : List ℕ) (D : Fin 512 → List ℕ) : Prop where
  copying : Copying m live (L ++ [k]) m'
  slots : SlotsCopied m m' 0 root k 512 L D
  valid : ∀ j, m.Pml4Valid root j
  upper : ∀ i : Fin 512, 256 ≤ i.val → m'.translationEntries 0 (m.pageAddress k) i =
    m.translationEntries 0 root i

namespace Copied

section

variable (h : Copied m m' live root k L D)

include h

section

variable (hm : CopyableTree m root live)

include hm

/-- The tables of the source keep their words. -/
theorem translationEntries_eq (hp : reach m.translationEntries 0 root p = some t) (d : ℕ)
    (i : Fin 512) : m'.translationEntries d t i = m.translationEntries d t i := by
  have hmod := reach_mod hm.root_mod hp
  have hentry : m'.entry t i = m.entry t i := by
    refine h.copying.memory _ fun k' hk' hin => ?_
    have hne := hm.inUse.notFree p t hp k' hk'
    have hmodk := hm.inUse.pageAddress_mod k'
    have := i.isLt
    rw [inBlock_page] at hin
    simp only [pageSize] at *
    omega
  rw [translationEntries, translationEntries, hentry]

theorem reach_lookup_source (p : List (Fin 512)) :
    reach m'.translationEntries 0 root p = reach m.translationEntries 0 root p ∧
      lookup m'.translationEntries 0 root p = lookup m.translationEntries 0 root p :=
  reach_lookup_congr (fun q t i hq => by
    rw [Nat.zero_add]
    exact h.translationEntries_eq hm hq q.length i) p

/-- The upper half of the copy is that of the source. -/
theorem reach_lookup_upper (hi : ¬ LowerSlot i) (p : List (Fin 512)) :
    reach m'.translationEntries 0 (m.pageAddress k) (i :: p) =
        reach m.translationEntries 0 root (i :: p) ∧
      lookup m'.translationEntries 0 (m.pageAddress k) (i :: p) =
        lookup m.translationEntries 0 root (i :: p) := by
  refine reach_lookup_cons_congr (h.upper i (Nat.le_of_not_lt hi)) fun c hc => ?_
  refine reach_lookup_congr (fun q t j hq => h.translationEntries_eq hm (p := i :: q) ?_ _ j) p
  rw [reach_cons_of_child hc, hq]

/-- The pages of the copy were free. -/
theorem pageFree {j : ℕ} (hj : j ∈ k :: L) : m.PageFree j :=
  h.copying.pageFree hm.inUse.valid ((List.perm_append_singleton k L).mem_iff.mpr hj)

end

theorem notMem : k ∉ L :=
  fun hk => h.copying.disjoint k hk (List.mem_singleton_self k)

section

variable (hm : CopyableTree m root live)

include hm

/-- A path in the copy leads to a new table, and no other path of the lower half does, or it leads
to a table of the upper half of the source. -/
theorem reach_cases (hp : reach m'.translationEntries 0 (m.pageAddress k) p = some t) :
    (OwnPath LowerSlot p ∧ reach m'.lowerEntries 0 (m.pageAddress k) p = some t ∧
      ∃ j, m.PageFree j ∧ t = m.pageAddress j) ∨
    ¬ OwnPath LowerSlot p ∧ reach m.translationEntries 0 root p = some t := by
  by_cases hown : OwnPath LowerSlot p
  · have hlower : reach m'.lowerEntries 0 (m.pageAddress k) p = some t :=
      (m'.lookup_lowerEntries hown).1.trans hp
    obtain ⟨j, hj, rfl⟩ := ((h.slots.tree h.notMem).mem_iff t).mp ⟨p, hlower⟩
    exact .inl ⟨hown, hlower, j, h.pageFree hm hj, rfl⟩
  · cases p with
    | nil => exact absurd ownPath_nil hown
    | cons i p =>
      refine .inr ⟨hown, ?_⟩
      rw [← (h.reach_lookup_upper hm (fun hi => hown (ownPath_cons.mpr hi)) p).1, hp]

/-- The copy translates every address as the source does. -/
theorem translation_eq (hentirely : CopiedEntirely m root) (v : ℕ) :
    m'.translation (m.pageAddress k) v = m.translation root v := by
  have hpath : pagePath v = pml4Fin v :: [pdptFin v, pdFin v, ptFin v] := rfl
  rw [translation, translation]
  congr 1
  by_cases hlower : LowerSlot (pml4Fin v)
  · have hown : OwnPath LowerSlot (pagePath v) := ownPath_pagePath hlower
    rw [← (m'.lookup_lowerEntries hown).2, ← hm.lookup_sourceEntries hentirely h.valid hown, hpath,
      (h.slots.copied _ (Fin.isLt _)).lookup_eq]
  · rw [hpath, (h.reach_lookup_upper hm hlower _).2]

theorem separate :
    Separate m'.translationEntries (SourceAndCopy root (m.pageAddress k)) LowerSlot := by
  have hsource (p : List (Fin 512)) := (h.reach_lookup_source hm p).1
  have hfresh : ∀ {q t j}, reach m.translationEntries 0 root q = some t → m.PageFree j →
      t ≠ m.pageAddress j := fun hq hj heq => hm.inUse.notFree _ _ hq _ hj heq.symm
  have htree := (h.slots.tree h.notMem).tree
  refine ⟨?_, ?_⟩
  · rintro x y p q t (rfl | rfl) (rfl | rfl) hp hq
    · rw [hsource] at hp hq
      rw [hm.tree p q t hp hq]
    · rw [hsource] at hp
      rcases h.reach_cases hm hq with ⟨-, -, j, hj, rfl⟩ | ⟨-, hq⟩
      · exact absurd rfl (hfresh hp hj)
      · rw [hm.tree p q t hp hq]
    · rw [hsource] at hq
      rcases h.reach_cases hm hp with ⟨-, -, j, hj, rfl⟩ | ⟨-, hp⟩
      · exact absurd rfl (hfresh hq hj)
      · rw [hm.tree p q t hp hq]
    · rcases h.reach_cases hm hp with ⟨-, hp, j, hj, rfl⟩ | ⟨-, hp⟩ <;>
        rcases h.reach_cases hm hq with ⟨-, hq, j', hj', heq⟩ | ⟨-, hq⟩
      · rw [htree p q _ hp hq]
      · exact absurd rfl (hfresh hq hj)
      · exact absurd heq (hfresh hp hj')
      · rw [hm.tree p q t hp hq]
  · rintro x y p q t (rfl | rfl) (rfl | rfl) hne hown hp hq
    · exact hne rfl
    · rw [hsource] at hp
      rcases h.reach_cases hm hq with ⟨-, -, j, hj, rfl⟩ | ⟨hnot, hq⟩
      · exact hfresh hp hj rfl
      · exact hnot (hm.tree p q t hp hq ▸ hown)
    · rw [hsource] at hq
      rcases h.reach_cases hm hp with ⟨-, -, j, hj, rfl⟩ | ⟨hnot, -⟩
      · exact hfresh hq hj rfl
      · exact hnot hown
    · exact hne rfl

/-- Source and copy are separate address spaces. -/
theorem separateSpaces :
    SeparateSpaces m' (SourceAndCopy root (m.pageAddress k)) (unitBlocks (L ++ [k]) ++ live) := by
  have hsource (p : List (Fin 512)) := (h.reach_lookup_source hm p).1
  have hvalid := hm.inUse.valid
  refine ⟨?_, h.separate hm, ?_, ?_⟩
  · rintro x (rfl | rfl)
    · exact hm.root_mod
    · exact hm.inUse.pageAddress_mod k
  · rintro x p t (rfl | rfl) hp
    · rw [hsource] at hp
      exact (hm.table_lt p t hp).trans (by decide)
    · rcases h.reach_cases hm hp with ⟨-, -, j, hj, rfl⟩ | ⟨-, hp⟩
      · exact hm.inUse.page_lt hj
      · exact (hm.table_lt p t hp).trans (by decide)
  · intro x hx
    refine ⟨h.copying.valid, ?_, ?_, fun p t hp j hj => ?_⟩
    · rw [h.copying.start]
      exact hm.inUse.start_mod
    · rw [h.copying.pageAddress, h.copying.total]
      exact hm.inUse.end_le
    · obtain ⟨hfree, hnot⟩ := h.copying.pageFree_of_pageFree hvalid hj
      rw [h.copying.pageAddress]
      rcases hx with rfl | rfl
      · rw [hsource] at hp
        exact hm.inUse.notFree p t hp j hfree
      · by_cases hown : OwnPath LowerSlot p
        · obtain ⟨j', hj', rfl⟩ := ((h.slots.tree h.notMem).mem_iff t).mp
            ⟨p, (m'.lookup_lowerEntries hown).1.trans hp⟩
          intro heq
          rw [m.pageAddress_injective heq] at hnot
          exact hnot ((List.perm_append_singleton k L).mem_iff.mpr hj')
        · rcases h.reach_cases hm hp with ⟨hlower, -⟩ | ⟨-, hp⟩
          · exact absurd hlower hown
          · exact hm.inUse.notFree p t hp j hfree

end

end

end Copied

/-- A copy that succeeds and leaves nothing out translates like its source, and the lower halves of
the two stay apart. -/
theorem CopyableTree.copiesFaithfully (h : CopyableTree m root live)
    (hentirely : CopiedEntirely m root) (hfuel : m.memoryDescriptorInfo.totalNumberOfPages < fuel)
    {copy : ℕ} (hcopy : m.copyPageMapL4Table fuel root = some (m', copy)) (hne : copy ≠ 0) :
    CopiesFaithfully m m' root copy := by
  obtain ⟨k, L, D, rfl, hcopied⟩ :
      ∃ k L D, copy = m.pageAddress k ∧ Copied m m' live root k L D := by
    rcases h.copySource.copyPageMapL4Table_cases hfuel with ⟨hrun, -⟩ |
      ⟨m₁, k, L, D, hrun, -, hcopying, hslots, hvalid, -, hupper⟩ | ⟨m₁, O, i, hrun, -⟩
    · rw [hcopy] at hrun
      exact absurd (Prod.mk.inj (Option.some.inj hrun)).2 hne
    · rw [hcopy] at hrun
      obtain ⟨rfl, rfl⟩ := Prod.mk.inj (Option.some.inj hrun)
      exact ⟨k, L, D, rfl, hcopying, hslots, hvalid, hupper⟩
    · rw [hcopy] at hrun
      exact absurd (Prod.mk.inj (Option.some.inj hrun)).2 hne
  have hspaces := hcopied.separateSpaces h
  refine ⟨hcopied.translation_eq h hentirely, fun v => ?_, fun p t _ hown hp q hq => ?_,
    fun m₁ hrun x y event v hx hy hxy hv => ?_⟩
  · rw [translation, translation, (hcopied.reach_lookup_source h _).2]
  · rcases hcopied.reach_cases h hp with ⟨-, -, j, hj, rfl⟩ | ⟨hnot, -⟩
    · exact h.inUse.notFree q _ hq j hj rfl
    · exact hnot hown
  · obtain ⟨live₁, h₁⟩ := hrun.separateSpaces hspaces
    exact (h₁.afterPageMapEvent hx event).translation_eq hy hxy.symm hv

/-! ### What is left out -/

/-- All tables that are reached are in the list. -/
def ListsTables (m : PhysicalMemoryManager) (root : ℕ) (tables : List (List (Fin 512) × ℕ)) :
    Prop :=
  ([], root) ∈ tables ∧ ∀ x ∈ tables, ∀ i,
    ((m.translationEntries x.1.length x.2 i).child.all fun c =>
      tables.contains (x.1 ++ [i], c)) = true

theorem ListsTables.mem {tables : List (List (Fin 512) × ℕ)} (h : ListsTables m root tables)
    (hp : reach m.translationEntries 0 root p = some t) : (p, t) ∈ tables := by
  refine mem_of_reach h.1 (fun x hx i c hc => ?_) hp
  have hall := h.2 x hx i
  rw [hc, Option.all_some] at hall
  exact List.contains_iff_mem.mp hall

theorem copyableTree_withTables {tables : List (List (Fin 512) × ℕ)} {words : List (ℕ × ℕ)}
    (hroot : root % pageSize = 0) (hlisted : ListsTables (withTables words) root tables)
    (hpath : ∀ x ∈ tables, ∀ y ∈ tables, x.2 = y.2 → x.1 = y.1)
    (hwords : ∀ k < 7, words.lookup ((withTables words).pageAddress k) = none)
    (htables : ∀ x ∈ tables, x.2 < 0xC0000000 ∧ ∀ k < 7, (withTables words).pageAddress k ≠ x.2)
    (hpages : ∀ x ∈ tables, ∀ i : Fin 512,
      entryAddress ((withTables words).entry x.2 i) < 2 ^ 32) :
    CopyableTree (withTables words) root [] := by
  have hmaxOrder : (initializeMemoryDescriptors sevenPages fun _ => 0).buddyMaxOrder =
      floorLog2Pages (initializeMemoryDescriptors sevenPages
        fun _ => 0).memoryDescriptorInfo.totalNumberOfPages := by
    decide +kernel
  refine ⟨inUse_withTables (fun _ _ => hlisted.mem) hwords fun x hx => (htables x hx).2, hmaxOrder,
    hroot, fun p q t hp hq => hpath _ (hlisted.mem hp) _ (hlisted.mem hq) rfl,
    fun p t hp => (htables _ (hlisted.mem hp)).1, fun p t i b g _ hp hentry => ?_⟩
  rw [(translationEntry_eq_leaf hentry).2.2.1]
  exact hpages _ (hlisted.mem hp) i

theorem listsTables_largePage : ListsTables (largePage 0x200000) 0x1000 largePageTables :=
  ⟨by decide, by decide +kernel⟩

theorem copyableTree_largePage : CopyableTree (largePage 0x200000) 0x1000 [] :=
  copyableTree_withTables (by decide) listsTables_largePage (by decide) (by decide +kernel)
    (by decide +kernel) (by decide +kernel)

/-- A page of 2 MiB is copied. -/
theorem CopyableTree.copiesFaithfully_largePage : ∃ m' copy,
    (largePage 0x200000).copyPageMapL4Table 8 0x1000 = some (m', copy) ∧ copy ≠ 0 ∧
      CopiesFaithfully (largePage 0x200000) m' 0x1000 copy := by
  have hresult : ((largePage 0x200000).copyPageMapL4Table 8 0x1000).map (fun r =>
      decide (r.2 ≠ 0)) = some true := by
    decide +kernel
  obtain ⟨⟨m', copy⟩, hcopy, hne⟩ := Option.map_eq_some_iff.mp hresult
  have hne : copy ≠ 0 := of_decide_eq_true hne
  have hentries : ∀ x ∈ largePageTables, ∀ i : Fin 512,
      entryPresent ((largePage 0x200000).entry x.2 i) = true →
        entryAddress ((largePage 0x200000).entry x.2 i) ≠ 0 ∧
          entryWriteable ((largePage 0x200000).entry x.2 i) = true := by
    decide +kernel
  have hentry {p t} (i : Fin 512)
      (hp : reach (largePage 0x200000).translationEntries 0 0x1000 p = some t)
      (hpresent : entryPresent ((largePage 0x200000).entry t i) = true) :=
    hentries _ (listsTables_largePage.mem hp) i hpresent
  have hentirely : CopiedEntirely (largePage 0x200000) 0x1000 := by
    refine ⟨fun p t i b g _ hp h => ?_, fun p t i c g _ _ hp h => ?_, fun p t i c g _ hp h => ?_⟩
    · obtain ⟨hpresent, -, rfl, -⟩ := translationEntry_eq_leaf h
      exact (hentry i hp hpresent).1
    · obtain ⟨hpresent, -, rfl, -⟩ := translationEntry_eq_table h
      exact (hentry i hp hpresent).1
    · obtain ⟨hpresent, -, -, rfl⟩ := translationEntry_eq_table h
      exact (hentry i hp hpresent).2
  exact ⟨m', copy, hcopy, hne, CopyableTree.copiesFaithfully copyableTree_largePage hentirely
    (by decide) hcopy hne⟩

/-- A table of the last level at the physical address `0`. -/
def tableAtZero : PhysicalMemoryManager :=
  withTables [(0x1000, 0x2003), (0x2000, 0x3003), (0x3000, 0x3), (0, 0x5003)]

/-- A writeable page below an entry that is not writeable. -/
def readOnlyTable : PhysicalMemoryManager :=
  withTables [(0x1000, 0x2003), (0x2000, 0x3001), (0x3000, 0x200083)]

/-- The copy succeeds, and it translates the page at `0` in another way. -/
def CopyDiffers (m : PhysicalMemoryManager) (root : ℕ) : Prop :=
  ∃ m' copy, m.copyPageMapL4Table 8 root = some (m', copy) ∧ copy ≠ 0 ∧
    m'.translation copy 0 ≠ m.translation root 0

theorem copyDiffers_of_result {m : PhysicalMemoryManager} {root : ℕ}
    (h : (m.copyPageMapL4Table 8 root).map (fun r =>
      (decide (r.2 ≠ 0), decide (r.1.translation r.2 0 ≠ m.translation root 0))) =
        some (true, true)) : CopyDiffers m root := by
  obtain ⟨⟨m', copy⟩, hcopy, hresult⟩ := Option.map_eq_some_iff.mp h
  obtain ⟨hne, hdiffers⟩ := Prod.mk.inj hresult
  exact ⟨m', copy, hcopy, of_decide_eq_true hne, of_decide_eq_true hdiffers⟩

/-- The copy drops a page at the physical address `0` and a table there, and it makes a page
writeable that an entry above it protects. -/
theorem not_copiesFaithfully :
    (CopyableTree (largePage 0) 0x1000 [] ∧ CopyDiffers (largePage 0) 0x1000) ∧
    (CopyableTree tableAtZero 0x1000 [] ∧ CopyDiffers tableAtZero 0x1000) ∧
    CopyableTree readOnlyTable 0x1000 [] ∧ CopyDiffers readOnlyTable 0x1000 := by
  refine ⟨⟨?_, copyDiffers_of_result (by decide +kernel)⟩,
    ⟨?_, copyDiffers_of_result (by decide +kernel)⟩, ?_, copyDiffers_of_result (by decide +kernel)⟩
  · have hlisted : ListsTables (largePage 0) 0x1000 largePageTables :=
      ⟨by decide, by decide +kernel⟩
    exact copyableTree_withTables (by decide) hlisted (by decide) (by decide +kernel)
      (by decide +kernel) (by decide +kernel)
  · have hlisted : ListsTables tableAtZero 0x1000 (([0, 0, 0], 0) :: largePageTables) :=
      ⟨by decide, by decide +kernel⟩
    exact copyableTree_withTables (by decide) hlisted (by decide) (by decide +kernel)
      (by decide +kernel) (by decide +kernel)
  · have hlisted : ListsTables readOnlyTable 0x1000 largePageTables :=
      ⟨by decide, by decide +kernel⟩
    exact copyableTree_withTables (by decide) hlisted (by decide) (by decide +kernel)
      (by decide +kernel) (by decide +kernel)

end PhysicalMemoryManager

end TwistedOS
