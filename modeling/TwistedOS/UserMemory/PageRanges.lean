import TwistedOS.Memory.PageMapping
import TwistedOS.UserMemory.MemorySystemCalls

/-!
# Ranges of pages

The loops of the memory system calls over the pages of a range, and the blocks that they allocate
and free besides the page tables.

## Main results

* `PhysicalMemoryManager.Tables.mapPages`, `PhysicalMemoryManager.Tables.unmapPages`.
* `PhysicalMemoryManager.Tables.freePages`: freeing allocated pages.
-/

namespace TwistedOS

open RadixTree

theorem length_pagePath (v : ℕ) : (pagePath v).length = 4 := rfl

namespace PhysicalMemoryManager

variable {m m' : PhysicalMemoryManager} {root v : ℕ} {tables P : List ℕ}
  {rest others : List DyadicBlock} {p : List (Fin 512)}

namespace ClearsPages

variable {m'' : PhysicalMemoryManager} {S S' : List (Fin 512) → Prop}

theorem trans (h : ClearsPages m m' root S) (h' : ClearsPages m' m'' root S') :
    ClearsPages m m'' root fun p => S p ∨ S' p := by
  intro p hp
  obtain ⟨hoff, hon⟩ := h p hp
  obtain ⟨hoff', hon'⟩ := h' p hp
  by_cases hS : S p <;> by_cases hS' : S' p
  · refine ⟨fun hnot => absurd (.inl hS) hnot, fun _ => ?_⟩
    rcases hon' hS' with hnone | ⟨hsame, -⟩
    · exact .inl hnone
    · rw [hsame]
      exact hon hS
  · refine ⟨fun hnot => absurd (.inl hS) hnot, fun _ => ?_⟩
    rw [hoff' hS']
    exact hon hS
  · refine ⟨fun hnot => absurd (.inr hS') hnot, fun _ => ?_⟩
    rw [← hoff hS]
    exact hon' hS'
  · refine ⟨fun _ => (hoff' hS').trans (hoff hS), fun hor => ?_⟩
    exact absurd hor (by simp [hS, hS'])

theorem congr (h : ClearsPages m m' root S) (hS : ∀ p, S p ↔ S' p) :
    ClearsPages m m' root S' := by
  intro p hp
  rw [← hS]
  exact h p hp

/-- A page that had an entry in the last level has none left. -/
theorem lookup_eq_none (h : ClearsPages m m' root S) (hp : p.length = 4) (hS : S p)
    {tags : List PageTag} {b : ℕ} (hl : lookup m.lowerEntries 0 root p = some (tags, b, [])) :
    lookup m'.lowerEntries 0 root p = none := by
  rcases (h p hp).2 hS with hnone | ⟨-, hlarge⟩
  · exact hnone
  · exact absurd rfl (hlarge _ hl)

end ClearsPages

namespace Tables

/-- The entries of a range of pages are removed. -/
theorem unmapPages (h : Tables m root tables rest) (count : ℕ)
    (hv : ∀ i < count, pml4Index (v + i * pageSize) < 256) :
    Tables (m.unmapPages root count v) root tables rest ∧
      KeepsProtected m (m.unmapPages root count v) rest ∧
      ClearsPages m (m.unmapPages root count v) root
        fun p => ∃ i < count, p = pagePath (v + i * pageSize) := by
  induction count generalizing m v with
  | zero => exact ⟨h, .refl _ _, fun p _ => ⟨fun _ => rfl, by simp⟩⟩
  | succ count ih =>
    obtain ⟨m₁, ok, hrun, htables, hkeeps, hclears⟩ := h.unmapPage (v := v) (by simpa using hv 0)
    obtain ⟨htables', hkeeps', hclears'⟩ := ih (v := v + pageSize) htables fun i hi => by
      have := hv (i + 1) (by omega)
      rwa [Nat.add_one_mul, Nat.add_comm (i * pageSize), ← Nat.add_assoc] at this
    rw [PhysicalMemoryManager.unmapPages, hrun]
    refine ⟨htables', hkeeps.trans hkeeps', (hclears.trans hclears').congr fun p => ?_⟩
    rw [Nat.exists_lt_succ_left]
    simp only [Nat.zero_mul, Nat.add_zero, Nat.add_one_mul, Nat.add_comm (_ * pageSize) pageSize,
      Nat.add_assoc]

/-- Pages of a range are mapped from page `index` on, until there is no page left for a table. -/
theorem mapPages (h : Tables m root tables rest) (physicalStart virtualStart : ℕ)
    (flags : PageMappingFlags) (count index : ℕ)
    (hv : ∀ i, index ≤ i → i < index + count →
      pml4Index (u64 (virtualStart + i * pageSize)) < 256) :
    ∃ m' r tables',
      PhysicalMemoryManager.mapPages root physicalStart virtualStart flags count index m =
        (m', r) ∧
      Tables m' root tables' rest ∧ KeepsProtected m m' rest ∧
      (∀ p, p.length = 4 →
        (∀ i, index ≤ i → i < index + count →
          Apart m root p (pagePath (u64 (virtualStart + i * pageSize)))) →
        LeafKept m m' root p) ∧
      (∀ k, r = some k → index ≤ k ∧ k < index + count) ∧
      (r = none →
        (∀ i j, index ≤ i → i < j → j < index + count →
          pagePath (u64 (virtualStart + i * pageSize)) ≠
            pagePath (u64 (virtualStart + j * pageSize))) →
        ∀ i, index ≤ i → i < index + count → u64 (physicalStart + i * pageSize) % pageSize = 0 →
          u64 (physicalStart + i * pageSize) < 2 ^ 32 →
          ∃ tags : List PageTag,
            lookup m'.lowerEntries 0 root (pagePath (u64 (virtualStart + i * pageSize))) =
              some (tags ++ [⟨flags.userAccess, flags.writeable⟩],
                u64 (physicalStart + i * pageSize), [])) := by
  induction count generalizing m tables index with
  | zero =>
    exact ⟨m, none, tables, rfl, h, .refl _ _, fun _ _ _ => .refl _ _ _, by simp,
      fun _ _ i hi hlt => by omega⟩
  | succ count ih =>
    obtain ⟨m₁, ok, tables₁, hrun, htables, hkeeps, hkept, hleaf⟩ :=
      h.mapPage (hv index le_rfl (by omega)) (u64 (physicalStart + index * pageSize)) flags
    rw [PhysicalMemoryManager.mapPages, hrun]
    cases ok with
    | false =>
      refine ⟨m₁, some index, tables₁, rfl, htables, hkeeps, fun p hp hapart =>
        hkept p hp (hapart index le_rfl (by omega)), ?_, by simp⟩
      rintro k ⟨rfl⟩
      omega
    | true =>
      obtain ⟨m₂, r, tables₂, hrun₂, htables₂, hkeeps₂, hkept₂, hfailed, hleaf₂⟩ :=
        ih htables (index + 1) fun i hi hlt => hv i (by omega) (by omega)
      refine ⟨m₂, r, tables₂, hrun₂, htables₂, hkeeps.trans hkeeps₂, fun p hp hapart l hl => ?_,
        fun k hk => ?_, fun hr hdistinct i hi hlt halign h32 => ?_⟩
      · have hkept₁ := hkept p hp (hapart index le_rfl (by omega))
        refine (hkept₁.trans (hkept₂ p hp fun i hi hlt => ?_)) l hl
        exact (hapart i (by omega) (by omega)).of_leafKept hkept₁ hl
      · have := hfailed k hk
        omega
      · rcases Nat.eq_or_lt_of_le hi with rfl | hi
        · obtain ⟨tags, htags⟩ := hleaf rfl halign h32
          obtain ⟨⟨tags', l⟩, hl, hsame, hlast⟩ := hkept₂ _ (length_pagePath _)
            (fun j hj hlt' r hr => by
              obtain rfl := Option.some.inj (htags.symm.trans hr)
              exact fun hpre => hdistinct index j le_rfl (by omega) (by omega)
                (hpre.eq_of_length (by simp [length_pagePath]))) _ htags
          rw [List.getLast?_concat, List.getLast?_eq_some_iff] at hlast
          obtain ⟨tags'', rfl⟩ := hlast
          obtain rfl : l = _ := hsame
          exact ⟨tags'', hl⟩
        · exact hleaf₂ hr (fun i j hi hij hj => hdistinct i j (by omega) hij (by omega)) i hi
            (by omega) halign h32

/-! ### Allocated pages -/

/-- The blocks besides the tables may be divided in another way. -/
theorem elements {b : DyadicBlock} (h : Tables m root tables (b :: rest)) :
    Tables m root tables (unitBlocks b.elements ++ rest) := by
  refine { h with valid := ?_ }
  have hfront : Valid m (b :: (unitBlocks tables ++ rest)) := h.valid.perm List.perm_middle
  exact hfront.elements.perm (List.perm_append_comm_assoc _ _ _)

/-- Allocated pages are allocated once, and besides the tables and the other blocks. -/
theorem nodup (h : Tables m root tables (unitBlocks P ++ others)) :
    P.Nodup ∧ (∀ k ∈ P, k ∉ tables) ∧ (∀ k ∈ P, ∀ b ∈ others, ¬ b.Contains k) ∧
      ∀ k ∈ P, k < m.memoryDescriptorInfo.totalNumberOfPages := by
  have hperm : Valid m (unitBlocks P ++ (unitBlocks tables ++ others)) :=
    h.valid.perm (List.perm_append_comm_assoc _ _ _)
  obtain ⟨hnodup, hother⟩ := hperm.nodup
  refine ⟨hnodup, fun k hk htable => ?_, fun k hk b hb => hother k hk b
    (List.mem_append_right _ hb), fun k hk => ?_⟩
  · exact hother k hk ⟨k, 0⟩ (List.mem_append_left _ (mem_unitBlocks.mpr ⟨k, htable, rfl⟩))
      (DyadicBlock.contains_start ⟨k, 0⟩)
  · have := hperm.end_le (List.mem_append_left _ (mem_unitBlocks.mpr ⟨k, hk, rfl⟩))
    simp only [DyadicBlock.size_mk, pow_zero] at this
    omega

end Tables

/-- The allocated pages that are left after a call that frees `pages` pages at page `j`. -/
def pagesAfterFree (m : PhysicalMemoryManager) (P : List ℕ) (j pages : ℕ) : List ℕ :=
  if m.FreeAccepted j pages then P.filter fun k => ¬ (freedBlock j pages).Contains k else P

theorem mem_pagesAfterFree {j pages k : ℕ} : k ∈ m.pagesAfterFree P j pages ↔
    k ∈ P ∧ (m.FreeAccepted j pages → ¬ (freedBlock j pages).Contains k) := by
  unfold pagesAfterFree
  split_ifs with h <;> simp [h]

/-- A call that frees allocated pages, or is refused. -/
theorem Tables.freePages {j pages fuel : ℕ} (h : Tables m root tables (unitBlocks P ++ others))
    (hpages : pages ≠ 0) (hj : j < m.memoryDescriptorInfo.totalNumberOfPages)
    (hP : m.FreeAccepted j pages → ∀ k, (freedBlock j pages).Contains k → k ∈ P)
    (hfuel : m.memoryDescriptorInfo.totalNumberOfPages < fuel) :
    ∃ m' ok, freePagesFromDescriptor fuel m (m.pageAddress j) pages = some (m', ok) ∧
      Tables m' root tables (unitBlocks (m.pagesAfterFree P j pages) ++ others) ∧
      KeepsProtected m m' (unitBlocks (m.pagesAfterFree P j pages) ++ others) ∧
      Agree m.lowerEntries m'.lowerEntries root := by
  by_cases haccepted : m.FreeAccepted j pages
  · have hperm : Valid m (unitBlocks P ++ (unitBlocks tables ++ others)) :=
      h.valid.perm (List.perm_append_comm_assoc _ _ _)
    obtain ⟨m', hrun, hvalid, hkeeps⟩ := hperm.free_pages hpages haccepted (hP haccepted) hfuel
    rw [show P.filter (fun k => ¬ (freedBlock j pages).Contains k) = m.pagesAfterFree P j pages by
      rw [pagesAfterFree, if_pos haccepted]] at hvalid hkeeps
    have hrest : ∀ b ∈ unitBlocks tables, b ∈ unitBlocks (m.pagesAfterFree P j pages) ++
        (unitBlocks tables ++ others) := fun b hb => by simp [hb]
    obtain ⟨htables, hagree⟩ := h.of_agree (hvalid.perm (List.perm_append_comm_assoc _ _ _))
      hkeeps.start hkeeps.total fun b hb a ha => hkeeps.memory_eq (hrest b hb) ha
    have hkeeps' : Keeps m m' (unitBlocks tables ++
        (unitBlocks (m.pagesAfterFree P j pages) ++ others)) :=
      Agrees.perm hkeeps (List.perm_append_comm_assoc _ _ _)
    exact ⟨m', true, hrun, htables, hkeeps'.keepsProtected, hagree⟩
  · refine ⟨m, false, h.valid.free_refused hj haccepted, ?_⟩
    rw [pagesAfterFree, if_neg haccepted]
    exact ⟨h, .refl _ _, fun _ _ _ _ => rfl⟩

end PhysicalMemoryManager

end TwistedOS
