import Mathlib.Data.Finset.Union
import TwistedOS.Memory.MissingTables
import TwistedOS.UserMemory.PageRanges

/-!
# Ranges in the page map

What the loops of the memory system calls do to the translations of the whole address space, and why
the allocator does not disturb them: no table lies in a page that is free or that the process may
give back.

## Main definitions

* `PhysicalMemoryManager.TablesBeside`: the tables of an address space, beside pages of its
  mappings.
* `PhysicalMemoryManager.MapsPages`: what a loop that maps pages does.

## Main results

* `PhysicalMemoryManager.MappedTables.mapPages`: a range is mapped exactly if there are pages for
  the missing tables.
* `PhysicalMemoryManager.TablesBeside.allocate`, `PhysicalMemoryManager.TablesBeside.freePages`.
-/

namespace TwistedOS

open RadixTree

namespace PhysicalMemoryManager

/-- The tables above `count` pages from page `index` of a range on. -/
def rangeTables (virtualStart index count : ℕ) : Finset (List (Fin 512)) :=
  (Finset.range count).biUnion fun i => tablePaths (u64 (virtualStart + (index + i) * pageSize))

/-- The paths and translations of an address space stay as they are. -/
structure TablesKept (m m' : PhysicalMemoryManager) (root : ℕ) : Prop where
  reach_eq : ∀ p, reach m'.translationEntries 0 root p = reach m.translationEntries 0 root p
  translation_eq : ∀ w, m'.translation root w = m.translation root w

/-- The tables are a tree, and none of them lies in a page that is free or one of `P`. -/
structure TablesBeside (m : PhysicalMemoryManager) (root : ℕ) (P : List ℕ) : Prop where
  mapped : ∃ live, MappedTables m root live
  ordersFit : m.OrdersFit
  avoid : ∀ p t, reach m.translationEntries 0 root p = some t → ∀ k ∈ P, m.pageAddress k ≠ t

/-- A loop over pages maps them all if there are pages for the missing tables, and otherwise fails
on the way. -/
structure MapsPages (m m' : PhysicalMemoryManager) (root physicalStart virtualStart : ℕ)
    (flags : PageMappingFlags) (count index : ℕ) (failedAt : Option ℕ) : Prop where
  mapped : ∃ live, MappedTables m' root live
  adds : ∃ S ⊆ rangeTables virtualStart index count, AddsTables m m' root S
  others : ∀ w, (∀ i, index ≤ i → i < index + count →
    ¬ SamePage (u64 (virtualStart + i * pageSize)) w) → m'.translation root w = m.translation root w
  complete : failedAt = none ↔ (m.missingTables root (rangeTables virtualStart index count)).card ≤
    m.memoryDescriptorInfo.numberOfFreePages
  self : failedAt = none →
    (∀ i j, index ≤ i → i < j → j < index + count →
      ¬ SamePage (u64 (virtualStart + i * pageSize)) (u64 (virtualStart + j * pageSize))) →
    ∀ i, index ≤ i → i < index + count →
      m'.translation root (u64 (virtualStart + i * pageSize)) =
        some ⟨u64 (physicalStart + i * pageSize), flags.userAccess, flags.writeable⟩
  refused : 0 < count → m.memoryDescriptorInfo.numberOfFreePages <
      (m.missingTables root (tablePaths (u64 (virtualStart + index * pageSize)))).card →
    failedAt ≠ none ∧ ∀ w, m'.translation root w = m.translation root w

variable {m m' : PhysicalMemoryManager} {root : ℕ} {live L L' : List DyadicBlock}
  {tables P P' : List ℕ} {others : List DyadicBlock} {flags : PageMappingFlags}

theorem rangeTables_succ (virtualStart index count : ℕ) :
    rangeTables virtualStart index (count + 1) =
      tablePaths (u64 (virtualStart + index * pageSize)) ∪
        rangeTables virtualStart (index + 1) count := by
  ext q
  simp only [rangeTables, Finset.mem_biUnion, Finset.mem_union, Finset.mem_range,
    Nat.exists_lt_succ_left, Nat.add_zero, Nat.add_right_comm index, Nat.add_assoc]

/-! ### Mapping and unmapping ranges -/

theorem translation_congr {v w : ℕ} (h : SamePage v w) :
    m.translation root v = m.translation root w := by
  rw [translation, translation, samePage_iff.mp h]

namespace MappedTables

/-- A failed call changes no translation. -/
theorem mapPage_failed (h : MappedTables m root live) {physicalAddress v : ℕ}
    (hrun : m.mapPage root physicalAddress v flags = (m', false)) (w : ℕ) :
    m'.translation root w = m.translation root w := by
  obtain ⟨m₁, hkept, hfailed | ⟨pt, -, hdone⟩⟩ := h.mapPage_cases physicalAddress v flags
  · obtain ⟨rfl, -⟩ := Prod.mk.inj (hrun.symm.trans hfailed)
    exact hkept.translation_eq w
  · simp [hrun] at hdone

/-- The loop that maps the pages of a range. -/
theorem mapPages (h : MappedTables m root live) (hfit : m.OrdersFit)
    (physicalStart virtualStart : ℕ) (flags : PageMappingFlags) (count index : ℕ)
    (hphysical : ∀ i, index ≤ i → i < index + count →
      u64 (physicalStart + i * pageSize) % pageSize = 0 ∧
        u64 (physicalStart + i * pageSize) < 2 ^ 32) :
    ∃ m' r, PhysicalMemoryManager.mapPages root physicalStart virtualStart flags count index m =
        (m', r) ∧
      MapsPages m m' root physicalStart virtualStart flags count index r := by
  induction count generalizing m live index with
  | zero =>
    exact ⟨m, none, rfl, ⟨live, h⟩, ⟨∅, by simp, .refl m root⟩, fun _ _ => rfl,
      by simp [rangeTables, missingTables], fun _ _ i hi hlt => by omega, fun hpos => by omega⟩
  | succ count ih =>
    obtain ⟨hmod, hlt⟩ := hphysical index le_rfl (by omega)
    obtain ⟨m₁, ok, hrun, ⟨live₁, h₁⟩, hmaps⟩ :=
      h.mapPage hmod hlt (u64 (virtualStart + index * pageSize)) flags
    obtain ⟨⟨S, hS, hadds⟩, hall, hiff⟩ := h.mapPage_addsTables hfit _ _ hrun
    have hunion := rangeTables_succ virtualStart index count
    have hsub : tablePaths (u64 (virtualStart + index * pageSize)) ⊆
        rangeTables virtualStart index (count + 1) := hunion ▸ Finset.subset_union_left
    rw [PhysicalMemoryManager.mapPages, hrun]
    cases ok with
    | false =>
      have hfew : ¬ (m.missingTables root (rangeTables virtualStart index (count + 1))).card ≤
          m.memoryDescriptorInfo.numberOfFreePages := fun hle => by
        simpa using hiff.mpr ((card_missingTables_le hsub).trans hle)
      exact ⟨m₁, some index, rfl, ⟨live₁, h₁⟩, ⟨S, hS.trans hsub, hadds⟩,
        fun w _ => h.mapPage_failed hrun w, by simpa using hfew, by simp, fun _ _ =>
        ⟨by simp, h.mapPage_failed hrun⟩⟩
    | true =>
      have hadds₁ := hall rfl
      obtain ⟨m₂, r, hrun₂, hmaps₂⟩ := ih h₁ (hadds₁.ordersFit hfit) (index + 1)
        fun i hi hlt => hphysical i (by omega) (by omega)
      obtain ⟨S₂, hS₂, hadds₂⟩ := hmaps₂.adds
      refine ⟨m₂, r, hrun₂, hmaps₂.mapped, ⟨_, ?_, hadds.trans hadds₂⟩, fun w hw => ?_, ?_,
        fun hr hdistinct i hi hlt => ?_, fun _ hfew => absurd (hiff.mp rfl) (by omega)⟩
      · rw [hunion]
        exact Finset.union_subset_union hS hS₂
      · rw [hmaps₂.others w fun i hi hlt => hw i (by omega) (by omega),
          hmaps.others w (hw index le_rfl (by omega))]
      · rw [hmaps₂.complete, hunion, hadds₁.missing_union_le_iff]
      · rcases Nat.eq_or_lt_of_le hi with rfl | hi
        · rw [hmaps₂.others _ fun j hj hlt' hsame => hdistinct index j le_rfl (by omega) (by omega)
            hsame.symm, hmaps.self rfl]
        · exact hmaps₂.self hr (fun a b ha hab hb => hdistinct a b (by omega) hab (by omega)) i hi
            (by omega)

/-- The loop that unmaps the pages of a range adds no translation. -/
theorem unmapPages (h : MappedTables m root live) (count v : ℕ) :
    MappedTables (m.unmapPages root count v) root live ∧
      AddsTables m (m.unmapPages root count v) root ∅ ∧
      ∀ w, (m.unmapPages root count v).translation root w = m.translation root w ∨
        (m.unmapPages root count v).translation root w = none := by
  induction count generalizing m v with
  | zero => exact ⟨h, .refl m root, fun _ => .inl rfl⟩
  | succ count ih =>
    obtain ⟨m₁, ok, hrun, h₁, hunmaps⟩ := h.unmapPage v
    have hadds : AddsTables m m₁ root ∅ := by
      rw [PhysicalMemoryManager.unmapPage, pageTableOf_eq_reach m root v] at hrun
      cases hpt : reach m.translationEntries 0 root [pml4Fin v, pdptFin v, pdFin v] with
      | none =>
        rw [hpt] at hrun
        obtain ⟨rfl, -⟩ := Prod.mk.inj hrun
        exact .refl m root
      | some pt =>
        rw [hpt] at hrun
        obtain ⟨rfl, -⟩ := Prod.mk.inj hrun
        exact h.storeEntry_addsTables hpt (ptFin v)
          ((child_translationEntry_three _).trans (child_translationEntry_three _).symm)
    obtain ⟨h₂, hadds₂, htranslation⟩ := ih h₁ (v + pageSize)
    rw [PhysicalMemoryManager.unmapPages, hrun]
    refine ⟨h₂, by simpa using hadds.trans hadds₂, fun w => ?_⟩
    rcases htranslation w with hw | hw
    · by_cases hsame : SamePage v w
      · cases ok with
        | true => exact .inr (hw.trans ((translation_congr hsame).symm.trans (hunmaps.self rfl)))
        | false => exact .inl (by rw [hw, hunmaps.failed rfl])
      · exact .inl (hw.trans (hunmaps.others w hsame))
    · exact .inr hw

/-! ### The allocator -/

/-- Words change in pages that are no tables. -/
theorem of_words (h : MappedTables m root live) (hvalid : Valid m' L)
    (hstart : m'.memoryDescriptorInfo.physicalAddressStart =
      m.memoryDescriptorInfo.physicalAddressStart)
    (htotal : m'.memoryDescriptorInfo.totalNumberOfPages =
      m.memoryDescriptorInfo.totalNumberOfPages)
    (hwords : ∀ p t (j : Fin 512), reach m.translationEntries 0 root p = some t →
      m'.entry t j = m.entry t j)
    (hnotFree : ∀ p t, reach m.translationEntries 0 root p = some t → ∀ k, m'.PageFree k →
      m.pageAddress k ≠ t) :
    MappedTables m' root L ∧ TablesKept m m' root := by
  have hagree : Agree m.translationEntries m'.translationEntries root := by
    intro p t i hp
    simp only [translationEntries, hwords p t i hp]
  have haddr : m'.pageAddress = m.pageAddress := by
    funext k
    simp only [pageAddress, hstart]
  refine ⟨⟨⟨h.pageTree.root_mod, h.pageTree.tree.of_reach_eq hagree.reach_eq,
    fun p t i c g hp hentry => ?_, fun p t i c g hp hentry j g' htag => ?_⟩,
    ⟨fun p t hp => ?_, fun p t i b g hlt hp hentry => ?_⟩,
    ⟨hvalid, hstart ▸ h.inUse.start_mod, by rw [haddr, htotal]; exact h.inUse.end_le,
      fun p t hp k hk => ?_⟩⟩, hagree.reach_eq, fun w => ?_⟩
  · rw [hagree.reach_eq] at hp
    rw [hagree p t i hp] at hentry
    exact h.pageTree.writeable p t i c g hp hentry
  · rw [hagree.reach_eq] at hp
    rw [hagree p t i hp] at hentry
    have hchild : reach m.translationEntries 0 root (p ++ [i]) = some c := by
      rw [reach_concat hp, hentry, RadixEntry.child_table]
    have hsame := hagree (p ++ [i]) c j hchild
    rw [List.length_append, List.length_singleton] at hsame
    rw [hsame] at htag
    exact h.pageTree.user p t i c g hp hentry j g' htag
  · exact h.fits.table_lt p t ((hagree.reach_eq p).symm.trans hp)
  · rw [hagree.reach_eq] at hp
    rw [hagree p t i hp] at hentry
    exact h.fits.large_lt p t i b g hlt hp hentry
  · rw [haddr]
    exact hnotFree p t ((hagree.reach_eq p).symm.trans hp) k hk
  · rw [translation, translation, hagree.lookup_eq]

/-- The allocator writes to pages that are no tables. -/
theorem of_keeps (h : MappedTables m root live) (hkeeps : Keeps m m' L) (hvalid : Valid m' L')
    (hsub : ∀ b ∈ L, b ∈ L')
    (havoid : ∀ k < m.memoryDescriptorInfo.totalNumberOfPages, (∀ b ∈ L, ¬ b.Contains k) →
      ∀ p t, reach m.translationEntries 0 root p = some t → m.pageAddress k ≠ t) :
    MappedTables m' root L' ∧ TablesKept m m' root := by
  refine h.of_words hvalid hkeeps.start hkeeps.total (fun p t j hp => hkeeps.memory _ ?_)
    fun p t hp k hk => ?_
  · rintro ⟨k, hk, heq, hnot⟩
    have hinj := slot_injective (i := j) (j := 0) (h.table_mod hp) (h.inUse.pageAddress_mod k)
      (by simpa using heq)
    exact havoid k hk hnot p t hp hinj.1.symm
  · obtain ⟨hlt, hnot⟩ := (hvalid.pageFree_iff k).mp hk
    exact havoid k (hkeeps.total ▸ hlt) (fun b hb => hnot b (hsub b hb)) p t hp

end MappedTables

namespace TablesBeside

section

variable (h : TablesBeside m root P)

include h

theorem of_kept (hmapped : ∃ live, MappedTables m' root live) (hkept : TablesKept m m' root)
    (hstart : m'.memoryDescriptorInfo.physicalAddressStart =
      m.memoryDescriptorInfo.physicalAddressStart)
    (htotal : m'.memoryDescriptorInfo.totalNumberOfPages =
      m.memoryDescriptorInfo.totalNumberOfPages) (hmaxOrder : m'.buddyMaxOrder = m.buddyMaxOrder)
    (havoid : ∀ k ∈ P', k ∈ P ∨ ∀ p t, reach m.translationEntries 0 root p = some t →
      m.pageAddress k ≠ t) : TablesBeside m' root P' where
  mapped := hmapped
  ordersFit := by rw [OrdersFit, hmaxOrder, htotal, h.ordersFit]
  avoid p t hp k hk := by
    rw [hkept.reach_eq] at hp
    have haddr : m'.pageAddress k = m.pageAddress k := by simp only [pageAddress, hstart]
    rw [haddr]
    rcases havoid k hk with hmem | hnot
    · exact h.avoid p t hp k hmem
    · exact hnot p t hp

/-- An allocated block has no tables in it. -/
theorem allocate {k order : ℕ} (hvalid : Valid m L) (hvalid' : Valid m' (⟨k, order⟩ :: L))
    (hkeeps : Keeps m m' L) :
    TablesBeside m' root (DyadicBlock.elements ⟨k, order⟩ ++ P) ∧ TablesKept m m' root := by
  obtain ⟨live, hmapped⟩ := h.mapped
  have hfree : ∀ j < m.memoryDescriptorInfo.totalNumberOfPages, (∀ b ∈ L, ¬ b.Contains j) →
      ∀ p t, reach m.translationEntries 0 root p = some t → m.pageAddress j ≠ t :=
    fun j hj hnot p t hp => hmapped.inUse.notFree p t hp j ((hvalid.pageFree_iff j).mpr ⟨hj, hnot⟩)
  obtain ⟨hmapped', hkept⟩ := hmapped.of_keeps hkeeps hvalid' (fun b hb => .tail _ hb) hfree
  refine ⟨h.of_kept ⟨_, hmapped'⟩ hkept hkeeps.start hkeeps.total hkeeps.maxOrder fun j hj => ?_,
    hkept⟩
  rcases List.mem_append.mp hj with hj | hj
  · right
    have hnodup := hvalid'.elements.nodup.2 j hj
    have hend := hvalid'.end_le List.mem_cons_self
    have hcontains := DyadicBlock.mem_elements.mp hj
    refine hfree j ?_ hnodup
    have := hkeeps.total
    have hlt := hcontains.2
    omega
  · exact .inl hj

/-- The pages of a block without tables are filled. -/
theorem fillPages {b : DyadicBlock} {pages : ℕ} (hvalid : Valid m (b :: L))
    (hb : ∀ k ∈ b.elements, k ∈ P) (hpages : pages ≤ b.size) (words : ℕ → ℕ) :
    TablesBeside (m.fillPages (m.pageAddress b.start) pages words) root P ∧
      TablesKept m (m.fillPages (m.pageAddress b.start) pages words) root := by
  obtain ⟨live, hmapped⟩ := h.mapped
  have hvalid' : Valid (m.fillPages (m.pageAddress b.start) pages words) (b :: L) :=
    hvalid.write fun a ha => fillPages_memory hpages words (ha b List.mem_cons_self)
  have hword : ∀ p t (j : Fin 512), reach m.translationEntries 0 root p = some t →
      ¬ m.InBlock b (t + 8 * j.val) := by
    -- the slot would lie in a page of the block, which is no table
    intro p t j hp hin
    have hj := j.isLt
    have htable := hmapped.table_mod hp
    have hstart := hmapped.inUse.start_mod
    have hpage : t = m.pageAddress (b.start + (t - m.pageAddress b.start) / pageSize) ∧
        (t - m.pageAddress b.start) / pageSize < b.size := by
      simp only [InBlock, PhysicalMemoryManager.pageAddress, pageSize] at hin htable hstart ⊢
      omega
    refine h.avoid p t hp _ (hb _ (DyadicBlock.mem_elements.mpr ⟨Nat.le_add_right _ _, ?_⟩))
      hpage.1.symm
    exact Nat.add_lt_add_left hpage.2 _
  obtain ⟨hmapped', hkept⟩ := hmapped.of_words hvalid' rfl rfl
    (fun p t j hp => fillPages_memory hpages words (hword p t j hp))
    fun p t hp k hk => hmapped.inUse.notFree p t hp k ((hvalid.pageFree_iff k).mpr
      ((hvalid'.pageFree_iff k).mp hk))
  exact ⟨h.of_kept ⟨_, hmapped'⟩ hkept rfl rfl rfl fun k hk => .inl hk, hkept⟩

/-- Pages without tables are given back. -/
theorem free (hvalid : Valid m (unitBlocks P ++ L)) (hvalid' : Valid m' (unitBlocks P' ++ L))
    (hkeeps : Keeps m m' (unitBlocks P' ++ L)) (hsub : ∀ k ∈ P', k ∈ P) :
    TablesBeside m' root P' ∧ TablesKept m m' root := by
  obtain ⟨live, hmapped⟩ := h.mapped
  have havoid : ∀ k < m.memoryDescriptorInfo.totalNumberOfPages,
      (∀ b ∈ unitBlocks P' ++ L, ¬ b.Contains k) →
      ∀ p t, reach m.translationEntries 0 root p = some t → m.pageAddress k ≠ t := by
    intro k hk hnot p t hp
    by_cases hmem : k ∈ P
    · exact h.avoid p t hp k hmem
    · refine hmapped.inUse.notFree p t hp k ((hvalid.pageFree_iff k).mpr ⟨hk, fun b hb hin => ?_⟩)
      rcases List.mem_append.mp hb with hb | hb
      · obtain ⟨k', hk', rfl⟩ := mem_unitBlocks.mp hb
        obtain rfl : k = k' := DyadicBlock.contains_unit.mp hin
        exact hmem hk'
      · exact hnot b (List.mem_append_right _ hb) hin
  obtain ⟨hmapped', hkept⟩ := hmapped.of_keeps hkeeps hvalid' (fun b hb => hb) havoid
  exact ⟨h.of_kept ⟨_, hmapped'⟩ hkept hkeeps.start hkeeps.total hkeeps.maxOrder fun k hk =>
    .inl (hsub k hk), hkept⟩

/-- A call that frees pages without tables, or is refused. -/
theorem freePages {j pages fuel : ℕ} {ok : Bool} (hvalid : Valid m (unitBlocks P ++ L))
    (hpages : pages ≠ 0) (hj : j < m.memoryDescriptorInfo.totalNumberOfPages)
    (hP : m.FreeAccepted j pages → ∀ k, (freedBlock j pages).Contains k → k ∈ P)
    (hfuel : m.memoryDescriptorInfo.totalNumberOfPages < fuel)
    (hrun : freePagesFromDescriptor fuel m (m.pageAddress j) pages = some (m', ok)) :
    TablesBeside m' root (m.pagesAfterFree P j pages) ∧ TablesKept m m' root := by
  by_cases haccepted : m.FreeAccepted j pages
  · obtain ⟨m₁, hrun₁, hvalid₁, hkeeps₁⟩ := hvalid.free_pages hpages haccepted (hP haccepted) hfuel
    obtain ⟨rfl, -⟩ := Prod.mk.inj (Option.some.inj (hrun.symm.trans hrun₁))
    rw [show P.filter (fun k => ¬ (freedBlock j pages).Contains k) = m.pagesAfterFree P j pages by
      rw [pagesAfterFree, if_pos haccepted]] at hvalid₁ hkeeps₁
    exact h.free hvalid hvalid₁ hkeeps₁ fun k hk => (mem_pagesAfterFree.mp hk).1
  · rw [hvalid.free_refused hj haccepted] at hrun
    obtain ⟨rfl, -⟩ := Prod.mk.inj (Option.some.inj hrun)
    rw [pagesAfterFree, if_neg haccepted]
    exact ⟨h, fun _ => rfl, fun _ => rfl⟩

/-- Tables are added in pages that were free, hence not in pages of `P`. -/
theorem addsTables {S : Finset (List (Fin 512))} (hP : ∀ k ∈ P, ¬ m.PageFree k)
    (hmapped : ∃ live, MappedTables m' root live) (hadds : AddsTables m m' root S) :
    TablesBeside m' root P where
  mapped := hmapped
  ordersFit := hadds.ordersFit h.ordersFit
  avoid p t hp k hk := by
    rw [hadds.pageAddress]
    by_cases hmem : p ∈ S
    · obtain ⟨j, hj, hreach⟩ := hadds.added p hmem
      rw [hp, Option.some.injEq] at hreach
      rw [hreach]
      intro heq
      exact hP k hk (m.pageAddress_injective heq ▸ hj)
    · rw [hadds.others p hmem] at hp
      exact h.avoid p t hp k hk

/-- Unmapping a range leaves the tables where they are. -/
theorem unmapPages (count v : ℕ) :
    TablesBeside (m.unmapPages root count v) root P ∧
      AddsTables m (m.unmapPages root count v) root ∅ ∧
      ∀ w, (m.unmapPages root count v).translation root w = m.translation root w ∨
        (m.unmapPages root count v).translation root w = none := by
  obtain ⟨live, hmapped⟩ := h.mapped
  obtain ⟨hmapped', hadds, htranslation⟩ := hmapped.unmapPages count v
  refine ⟨⟨⟨live, hmapped'⟩, hadds.ordersFit h.ordersFit, fun p t hp k hk => ?_⟩, hadds,
    htranslation⟩
  rw [hadds.others p (by simp)] at hp
  rw [hadds.pageAddress]
  exact h.avoid p t hp k hk

end

end TablesBeside

end PhysicalMemoryManager

end TwistedOS
