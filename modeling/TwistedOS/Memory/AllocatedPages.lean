import TwistedOS.Memory.BuddyOperations

/-!
# Freeing pages of allocated blocks

The allocator does not remember which blocks it has given out: it frees any aligned block of its
range. Seen page by page, the allocated memory is a list of pages; an allocation adds the pages of a
block, and freeing an address either is refused or removes the pages of the block at the address,
which must all be allocated for the allocator to stay sound.

## Main definitions

* `PhysicalMemoryManager.FreeAccepted`: the allocator frees a block at a page.
* `PhysicalMemoryManager.PageFree`: a page on a free list.

## Main results

* `Valid.exchange`, `Valid.elements`, `Valid.free_refused`, `Valid.free_pages`.
* `Valid.pageFree_iff`: a page is free or allocated.
-/

namespace TwistedOS

namespace PhysicalMemoryManager

/-- The block that is freed with `pages` pages at page `j`. -/
def freedBlock (j pages : ℕ) : DyadicBlock := ⟨j, ceilLog2Pages pages⟩

/-- The block of `pages` pages at page `j` is one that the allocator frees. -/
def FreeAccepted (m : PhysicalMemoryManager) (j pages : ℕ) : Prop :=
  ceilLog2Pages pages ≤ m.buddyMaxOrder ∧
    j + (freedBlock j pages).size ≤ m.memoryDescriptorInfo.totalNumberOfPages ∧
    (freedBlock j pages).Aligned

instance (m : PhysicalMemoryManager) (j pages : ℕ) : Decidable (m.FreeAccepted j pages) :=
  inferInstanceAs (Decidable (_ ∧ _ ∧ _))

/-- The page lies in a block on a free list. -/
def PageFree (m : PhysicalMemoryManager) (k : ℕ) : Prop :=
  ∃ order < maxBuddyOrders, ∃ l : List ℕ,
    LinkedChain m.physicalMemory 0 (m.buddyFreeLists order) (l.map m.pageAddress) ∧
      ∃ i ∈ l, (⟨i, order⟩ : DyadicBlock).Contains k

namespace Valid

variable {m : PhysicalMemoryManager} {live live' : List DyadicBlock} {j pages fuel : ℕ}

/-- The allocated memory may be divided into blocks in another way. -/
theorem exchange (h : Valid m live) (haligned : ∀ b ∈ live', b.Aligned)
    (horder : ∀ b ∈ live', b.order ≤ m.buddyMaxOrder)
    (hcover : ∀ i, coverCount live' i = coverCount live i) : Valid m live' where
  bitMap_ne := h.bitMap_ne
  order_le := horder
  free := by
    obtain ⟨free, hlists, hcount⟩ := h.free
    exact ⟨free, { hlists with tiles := hlists.tiles.exchange haligned hcover }, hcount⟩

theorem aligned (h : Valid m live) : ∀ b ∈ live, b.Aligned := by
  obtain ⟨free, hlists, -⟩ := h.free
  exact fun b hb => hlists.tiles.aligned b (List.mem_append_right _ hb)

theorem end_le (h : Valid m live) {b : DyadicBlock} (hb : b ∈ live) :
    b.start + b.size ≤ m.memoryDescriptorInfo.totalNumberOfPages := by
  obtain ⟨free, hlists, -⟩ := h.free
  exact hlists.tiles.end_le (List.mem_append_right _ hb)

/-- An allocated block may be regarded as its pages. -/
theorem elements {b : DyadicBlock} (h : Valid m (b :: live)) :
    Valid m (unitBlocks b.elements ++ live) := by
  refine h.exchange ?_ ?_ (coverCount_elements b live)
  · intro c hc
    rcases List.mem_append.mp hc with hc | hc
    · obtain ⟨k, -, rfl⟩ := mem_unitBlocks.mp hc
      exact one_dvd k
    · exact h.aligned c (List.mem_cons_of_mem b hc)
  · intro c hc
    rcases List.mem_append.mp hc with hc | hc
    · obtain ⟨k, -, rfl⟩ := mem_unitBlocks.mp hc
      exact Nat.zero_le _
    · exact h.order_le c (List.mem_cons_of_mem b hc)

/-- Pages are allocated once, and not within other allocated blocks. -/
theorem nodup {P : List ℕ} (h : Valid m (unitBlocks P ++ live)) :
    P.Nodup ∧ ∀ k ∈ P, ∀ b ∈ live, ¬ b.Contains k := by
  obtain ⟨free, hlists, -⟩ := h.free
  have hle : ∀ i, P.count i + coverCount live i ≤ 1 := by
    intro i
    have hcover := hlists.tiles.cover i
    rw [coverCount_append, coverCount_append, coverCount_unitBlocks] at hcover
    split_ifs at hcover <;> omega
  refine ⟨List.nodup_iff_count_le_one.mpr fun i => by have := hle i; omega, ?_⟩
  intro k hk b hb hcontains
  have hpos := coverCount_pos.mpr ⟨b, hb, hcontains⟩
  have hcount := List.count_pos_iff.mpr hk
  have := hle k
  omega

/-- A block that is too large, misaligned or outside the range is not freed. -/
theorem free_refused (h : Valid m live) (hj : j < m.memoryDescriptorInfo.totalNumberOfPages)
    (hrefused : ¬ m.FreeAccepted j pages) :
    freePagesFromDescriptor fuel m (m.pageAddress j) pages = some (m, false) :=
  free_of_not_passesChecks fun hpasses => hrefused ((h.passesChecks_iff hj).mp hpasses).2

/-- Freeing a block all of whose pages are allocated removes these pages. -/
theorem free_pages {P : List ℕ} (h : Valid m (unitBlocks P ++ live)) (hpages : pages ≠ 0)
    (haccepted : m.FreeAccepted j pages) (hP : ∀ k, (freedBlock j pages).Contains k → k ∈ P)
    (hfuel : m.memoryDescriptorInfo.totalNumberOfPages < fuel) :
    ∃ m', freePagesFromDescriptor fuel m (m.pageAddress j) pages = some (m', true) ∧
      Valid m' (unitBlocks (P.filter fun k => ¬ (freedBlock j pages).Contains k) ++ live) ∧
      Keeps m m' (unitBlocks (P.filter fun k => ¬ (freedBlock j pages).Contains k) ++ live) := by
  obtain ⟨horder, -, haligned⟩ := haccepted
  have hmem : ∀ b ∈ unitBlocks (P.filter fun k => ¬ (freedBlock j pages).Contains k) ++ live,
      b ∈ unitBlocks P ++ live := by
    simp only [List.mem_append, mem_unitBlocks, List.mem_filter]
    rintro b (⟨k, ⟨hk, -⟩, rfl⟩ | hb)
    · exact .inl ⟨k, hk, rfl⟩
    · exact .inr hb
  refine free_cons (i := j) (h.exchange ?_ ?_ fun i => ?_) hpages rfl hfuel
  · exact List.forall_mem_cons.mpr ⟨haligned, fun b hb => h.aligned b (hmem b hb)⟩
  · exact List.forall_mem_cons.mpr ⟨horder, fun b hb => h.order_le b (hmem b hb)⟩
  · have hnodup := h.nodup.1
    rw [coverCount_cons, coverCount_append, coverCount_append, coverCount_unitBlocks,
      coverCount_unitBlocks, hnodup.count, (hnodup.filter _).count]
    change _ + (if (freedBlock j pages).Contains i then 1 else 0) = _
    simp only [List.mem_filter, decide_eq_true_eq]
    by_cases hin : (freedBlock j pages).Contains i
    · simp [hin, hP i hin, Nat.add_comm]
    · simp [hin]

/-- A page of the range lies on a free list or in an allocated block. -/
theorem pageFree_iff (h : Valid m live) (k : ℕ) : m.PageFree k ↔
    k < m.memoryDescriptorInfo.totalNumberOfPages ∧ ∀ b ∈ live, ¬ b.Contains k := by
  obtain ⟨free, hlists, -⟩ := h.free
  have hcover := hlists.tiles.cover k
  rw [coverCount_append] at hcover
  have hfree : m.PageFree k ↔ 0 < coverCount (freeBlocks free) k := by
    rw [coverCount_pos]
    constructor
    · rintro ⟨order, horder, l, hchain, i, hi, hcontains⟩
      have hsame := hchain.unique (hlists.chain order horder)
      rw [List.map_inj_right fun _ _ hij => m.pageAddress_injective hij] at hsame
      exact ⟨⟨i, order⟩, mem_freeBlocks.mpr ⟨horder, hsame ▸ hi⟩, hcontains⟩
    · rintro ⟨b, hb, hcontains⟩
      obtain ⟨horder, hstart⟩ := mem_freeBlocks.mp hb
      exact ⟨b.order, horder, free b.order, hlists.chain b.order horder, b.start, hstart,
        hcontains⟩
  have hlive : (∀ b ∈ live, ¬ b.Contains k) ↔ coverCount live k = 0 := by
    rw [← Nat.le_zero, ← Nat.not_lt, coverCount_pos]
    simp only [not_exists, not_and]
  rw [hfree, hlive]
  split_ifs at hcover <;> omega

/-- Words may be overwritten that are not links of free blocks. -/
theorem congr_links {memory : ℕ → ℕ} (h : Valid m live)
    (hlinks : ∀ k, m.PageFree k → memory (m.pageAddress k) = m.physicalMemory (m.pageAddress k)) :
    Valid { m with physicalMemory := memory } live where
  bitMap_ne := h.bitMap_ne
  order_le := h.order_le
  free := by
    obtain ⟨free, hlists, hcount⟩ := h.free
    refine ⟨free, { hlists with chain := fun order horder => ?_ }, hcount⟩
    refine (hlists.chain order horder).congr fun a ha => ?_
    obtain ⟨i, hi, rfl⟩ := List.mem_map.mp ha
    exact hlinks i ⟨order, horder, free order, hlists.chain order horder, i, hi,
      DyadicBlock.contains_start _⟩

end Valid

end PhysicalMemoryManager

end TwistedOS
