import TwistedOS.Data.DyadicBlock
import TwistedOS.Data.LinkedChain
import TwistedOS.Memory.PhysicalMemoryManager

/-!
# The invariant of the buddy allocator

Between the statements of the allocator the managed range is tiled by the blocks on the free lists
together with the blocks *held*: those of live allocations, and the one the running operation has
in its hands. `FreeLists m n free held` says that the free list of each order `k` is a chain in
memory over the blocks at the page indices `free k`, and that these blocks and the held ones tile
the range. Every statement of the allocator that touches a list moves one block between the two
sides.

## Main definitions

* `PhysicalMemoryManager.pageAddress`: the physical address of a page of the range.
* `freeBlocks free`: the blocks on all free lists.
* `PhysicalMemoryManager.FreeLists`: the invariant.

## Main results

* `FreeLists.pushBlock`, `FreeLists.popHead`, `FreeLists.split`, `FreeLists.merge`.
* `FreeLists.removeBlock_of_mem`, `FreeLists.removeBlock_of_notMem`: the walk along a free list.
* `FreeLists.write`: owners may overwrite the pages of held blocks.
-/

namespace TwistedOS

/-! ### Orders -/

namespace PhysicalMemoryManager

private theorem floorLog2PagesLoop_le (pages remaining order : ℕ) :
    floorLog2PagesLoop pages remaining order ≤ order + remaining := by
  induction remaining generalizing order with
  | zero => rfl
  | succ remaining ih =>
    unfold floorLog2PagesLoop
    split_ifs
    · have := ih (order + 1)
      omega
    · omega

private theorem two_pow_floorLog2PagesLoop_le {pages : ℕ} (remaining order : ℕ)
    (h : 2 ^ order ≤ pages) : 2 ^ floorLog2PagesLoop pages remaining order ≤ pages := by
  induction remaining generalizing order with
  | zero => exact h
  | succ remaining ih =>
    unfold floorLog2PagesLoop
    split_ifs with hnext
    · exact ih (order + 1) hnext
    · exact h

private theorem lt_two_pow_floorLog2PagesLoop {pages : ℕ} (remaining order : ℕ)
    (h : floorLog2PagesLoop pages remaining order < order + remaining) :
    pages < 2 ^ (floorLog2PagesLoop pages remaining order + 1) := by
  induction remaining generalizing order with
  | zero => exact absurd h (lt_irrefl _)
  | succ remaining ih =>
    unfold floorLog2PagesLoop at h ⊢
    split_ifs at h ⊢ with hnext
    · exact ih (order + 1) (by omega)
    · exact Nat.lt_of_not_le hnext

theorem floorLog2Pages_lt (pages : ℕ) : floorLog2Pages pages < maxBuddyOrders := by
  unfold floorLog2Pages
  split_ifs
  · decide
  · have := floorLog2PagesLoop_le pages (maxBuddyOrders - 1) 0
    simp only [maxBuddyOrders] at this ⊢
    omega

theorem two_pow_floorLog2Pages_le {pages : ℕ} (h : 0 < pages) :
    2 ^ floorLog2Pages pages ≤ pages := by
  unfold floorLog2Pages
  split_ifs
  · simpa using Nat.one_le_of_lt h
  · exact two_pow_floorLog2PagesLoop_le _ _ (by simpa using Nat.one_le_of_lt h)

theorem lt_two_pow_of_floorLog2Pages_lt {pages : ℕ}
    (h : floorLog2Pages pages < maxBuddyOrders - 1) : pages < 2 ^ (floorLog2Pages pages + 1) := by
  unfold floorLog2Pages at h ⊢
  split_ifs at h ⊢ with hle
  · simpa using Nat.lt_succ_of_le hle
  · exact lt_two_pow_floorLog2PagesLoop _ _ (by rwa [Nat.zero_add])

theorem lt_two_pow_floorLog2Pages {pages : ℕ} (h : pages < 2 ^ 51) :
    pages < 2 ^ (floorLog2Pages pages + 1) := by
  by_cases hlast : floorLog2Pages pages < maxBuddyOrders - 1
  · exact lt_two_pow_of_floorLog2Pages_lt hlast
  · refine h.trans_le (Nat.pow_le_pow_right two_pos ?_)
    simp only [maxBuddyOrders] at hlast
    omega

theorem ceilLog2Pages_lt (pages : ℕ) : ceilLog2Pages pages < maxBuddyOrders := by
  unfold ceilLog2Pages
  split_ifs with hle
  · decide
  · have := floorLog2Pages_lt pages
    dsimp only
    split_ifs with hnext
    · exact hnext.2
    · exact this

private theorem floorLog2Pages_le_ceilLog2Pages (pages : ℕ) :
    floorLog2Pages pages ≤ ceilLog2Pages pages := by
  unfold ceilLog2Pages
  split_ifs with hle
  · rw [floorLog2Pages, if_pos hle]
  · dsimp only
    split_ifs <;> omega

/-- A block of an order below the last one has as many pages as it was computed for. -/
theorem le_two_pow_of_ceilLog2Pages_lt {pages : ℕ}
    (h : ceilLog2Pages pages < maxBuddyOrders - 1) : pages ≤ 2 ^ ceilLog2Pages pages := by
  have hfloor := (floorLog2Pages_le_ceilLog2Pages pages).trans_lt h
  have hlt := lt_two_pow_of_floorLog2Pages_lt hfloor
  unfold ceilLog2Pages
  split_ifs with hle
  · simpa using hle
  · dsimp only
    split_ifs with hnext
    · exact hlt.le
    · by_contra hgt
      exact hnext ⟨Nat.lt_of_not_le hgt, by omega⟩

/-- A block of the order computed for `pages` pages has at least that many. -/
theorem le_two_pow_ceilLog2Pages {pages : ℕ} (h : pages < 2 ^ 51) :
    pages ≤ 2 ^ ceilLog2Pages pages := by
  by_cases hlast : ceilLog2Pages pages < maxBuddyOrders - 1
  · exact le_two_pow_of_ceilLog2Pages_lt hlast
  · refine h.le.trans (Nat.pow_le_pow_right two_pos ?_)
    simp only [maxBuddyOrders] at hlast
    omega

end PhysicalMemoryManager

/-! ### The blocks on the free lists -/

/-- The blocks on the free lists whose page indices are `free`, list by list. -/
def freeBlocks (free : ℕ → List ℕ) : List DyadicBlock :=
  (List.range maxBuddyOrders).flatMap fun k => (free k).map fun i => ⟨i, k⟩

theorem mem_freeBlocks {free : ℕ → List ℕ} {b : DyadicBlock} :
    b ∈ freeBlocks free ↔ b.order < maxBuddyOrders ∧ b.start ∈ free b.order := by
  cases b with
  | mk i k =>
    simp only [freeBlocks, List.mem_flatMap, List.mem_range, List.mem_map, DyadicBlock.mk.injEq]
    constructor
    · rintro ⟨j, hj, i', hi', rfl, rfl⟩
      exact ⟨hj, hi'⟩
    · rintro ⟨hk, hi⟩
      exact ⟨k, hk, i, hi, rfl, rfl⟩

private theorem flatMap_update_perm {free : ℕ → List ℕ} {k i : ℕ} {l : List ℕ}
    (hl : l.Perm (i :: free k)) (ks : List ℕ) (hks : ks.Nodup) (hk : k ∈ ks) :
    (ks.flatMap fun j => (Function.update free k l j).map fun i => DyadicBlock.mk i j).Perm
      (⟨i, k⟩ :: ks.flatMap fun j => (free j).map fun i => DyadicBlock.mk i j) := by
  induction ks with
  | nil => simp at hk
  | cons j ks ih =>
    obtain ⟨hj, hks⟩ := List.nodup_cons.mp hks
    simp only [List.flatMap_cons]
    by_cases hjk : j = k
    · subst hjk
      have htail : ks.flatMap (fun j' => (Function.update free j l j').map
          fun i => DyadicBlock.mk i j') =
          ks.flatMap fun j' => (free j').map fun i => DyadicBlock.mk i j' := by
        refine List.flatMap_congr fun j' hj' => ?_
        rw [Function.update_of_ne (fun h => hj (by rwa [← h]))]
      rw [Function.update_self, htail, ← List.cons_append]
      exact (hl.map _).append_right _
    · rw [Function.update_of_ne hjk]
      have hmem := (List.mem_cons.mp hk).resolve_left fun h => hjk h.symm
      exact ((ih hks hmem).append_left _).trans List.perm_middle

/-- Adding an index to one of the lists adds one block. -/
theorem freeBlocks_update_perm {free : ℕ → List ℕ} {k i : ℕ} {l : List ℕ}
    (hl : l.Perm (i :: free k)) (hk : k < maxBuddyOrders) :
    (freeBlocks (Function.update free k l)).Perm (⟨i, k⟩ :: freeBlocks free) :=
  flatMap_update_perm hl _ List.nodup_range (List.mem_range.mpr hk)

/-- Removing an index from one of the lists removes one block. -/
theorem freeBlocks_perm_update {free : ℕ → List ℕ} {k i : ℕ} {l : List ℕ}
    (hl : (free k).Perm (i :: l)) (hk : k < maxBuddyOrders) :
    (freeBlocks free).Perm (⟨i, k⟩ :: freeBlocks (Function.update free k l)) := by
  have hl' : (free k).Perm (i :: Function.update free k l k) := by simpa using hl
  have h := freeBlocks_update_perm hl' hk
  simpa using h

namespace PhysicalMemoryManager

/-! ### The fields of the state after a store -/

section Fields

variable (m : PhysicalMemoryManager) (k a b : ℕ)

@[simp] theorem setHead_info :
    (m.setHead k a).memoryDescriptorInfo = m.memoryDescriptorInfo := rfl

@[simp] theorem setHead_maxOrder : (m.setHead k a).buddyMaxOrder = m.buddyMaxOrder := rfl

@[simp] theorem setHead_memory : (m.setHead k a).physicalMemory = m.physicalMemory := rfl

@[simp] theorem setHead_lists :
    (m.setHead k a).buddyFreeLists = Function.update m.buddyFreeLists k a := rfl

@[simp] theorem setNext_info :
    (m.setNext a b).memoryDescriptorInfo = m.memoryDescriptorInfo := rfl

@[simp] theorem setNext_maxOrder : (m.setNext a b).buddyMaxOrder = m.buddyMaxOrder := rfl

@[simp] theorem setNext_memory :
    (m.setNext a b).physicalMemory = Function.update m.physicalMemory a b := rfl

@[simp] theorem setNext_lists : (m.setNext a b).buddyFreeLists = m.buddyFreeLists := rfl

@[simp] theorem pushBlock_info :
    (m.pushBlock k a).memoryDescriptorInfo = m.memoryDescriptorInfo := rfl

@[simp] theorem pushBlock_maxOrder : (m.pushBlock k a).buddyMaxOrder = m.buddyMaxOrder := rfl

end Fields

/-! ### The invariant -/

/-- The physical address of page `i` of the managed range. -/
def pageAddress (m : PhysicalMemoryManager) (i : ℕ) : ℕ :=
  m.memoryDescriptorInfo.physicalAddressStart + i * pageSize

/-- The free list of order `k` is a chain over the blocks at the page indices `free k`, and these
blocks together with the held ones tile the first `n` pages of the managed range. -/
structure FreeLists (m : PhysicalMemoryManager) (n : ℕ) (free : ℕ → List ℕ)
    (held : List DyadicBlock) : Prop where
  start_ne : m.memoryDescriptorInfo.physicalAddressStart ≠ 0
  end_lt : m.pageAddress n < 2 ^ 64
  maxOrder_lt : m.buddyMaxOrder < maxBuddyOrders
  chain : ∀ k < maxBuddyOrders,
    LinkedChain m.physicalMemory 0 (m.buddyFreeLists k) ((free k).map m.pageAddress)
  tiles : Tiles n (freeBlocks free ++ held)

/-- The address lies in a page of the block. -/
def InBlock (m : PhysicalMemoryManager) (b : DyadicBlock) (a : ℕ) : Prop :=
  m.pageAddress b.start ≤ a ∧ a < m.pageAddress (b.start + b.size)

section

variable (m : PhysicalMemoryManager)

include m

theorem pageAddress_injective : Function.Injective m.pageAddress := by
  intro i j h
  simp only [pageAddress, pageSize] at h
  omega

theorem pageAddress_lt_iff {i j : ℕ} : m.pageAddress i < m.pageAddress j ↔ i < j := by
  simp only [pageAddress, pageSize]
  omega

@[simp] theorem pageAddress_sub_div (i : ℕ) :
    (m.pageAddress i - m.memoryDescriptorInfo.physicalAddressStart) / pageSize = i := by
  simp only [pageAddress, pageSize]
  omega

@[simp] theorem pageAddress_sub_mod (i : ℕ) :
    (m.pageAddress i - m.memoryDescriptorInfo.physicalAddressStart) % pageSize = 0 := by
  simp only [pageAddress, pageSize]
  omega

end

/-- The word is the link of a page that lies in none of the held blocks, so that the allocator may
write it. -/
def Touches (m : PhysicalMemoryManager) (n : ℕ) (held : List DyadicBlock) (a : ℕ) : Prop :=
  ∃ i < n, a = m.pageAddress i ∧ ∀ b ∈ held, ¬ b.Contains i

/-- What an operation of the allocator leaves alone: the managed range and every word outside the
links of pages that are not held. -/
structure Agrees (m m' : PhysicalMemoryManager) (n : ℕ) (held : List DyadicBlock) : Prop where
  start : m'.memoryDescriptorInfo.physicalAddressStart =
    m.memoryDescriptorInfo.physicalAddressStart
  total : m'.memoryDescriptorInfo.totalNumberOfPages = m.memoryDescriptorInfo.totalNumberOfPages
  bitMap : m'.memoryDescriptorInfo.bitMap = m.memoryDescriptorInfo.bitMap
  maxOrder : m'.buddyMaxOrder = m.buddyMaxOrder
  memory : ∀ a, ¬ m.Touches n held a → m'.physicalMemory a = m.physicalMemory a

namespace Agrees

variable {m m' m'' : PhysicalMemoryManager} {n : ℕ} {held : List DyadicBlock}

theorem refl (m : PhysicalMemoryManager) (n : ℕ) (held : List DyadicBlock) : Agrees m m n held :=
  ⟨rfl, rfl, rfl, rfl, fun _ _ => rfl⟩

section

variable (h : Agrees m m' n held)

include h

theorem pageAddress : m'.pageAddress = m.pageAddress := by
  funext i
  simp only [PhysicalMemoryManager.pageAddress, h.start]

theorem touches {held' : List DyadicBlock} {a : ℕ} :
    m'.Touches n held' a ↔ m.Touches n held' a := by
  simp only [Touches, h.pageAddress]

theorem trans (h' : Agrees m' m'' n held) : Agrees m m'' n held where
  start := h'.start.trans h.start
  total := h'.total.trans h.total
  bitMap := h'.bitMap.trans h.bitMap
  maxOrder := h'.maxOrder.trans h.maxOrder
  memory a ha := by rw [h'.memory a (by rwa [h.touches]), h.memory a ha]

theorem perm {held' : List DyadicBlock} (hp : held.Perm held') :
    Agrees m m' n held' where
  start := h.start
  total := h.total
  bitMap := h.bitMap
  maxOrder := h.maxOrder
  memory a ha := by
    refine h.memory a fun ⟨i, hi, hai, hheld⟩ => ha ⟨i, hi, hai, fun b hb => ?_⟩
    exact hheld b (hp.mem_iff.mpr hb)

theorem mono {held' : List DyadicBlock} (hsub : ∀ b ∈ held', b ∈ held) : Agrees m m' n held' :=
  { h with
    memory := fun a ha => h.memory a fun ⟨i, hi, hai, hheld⟩ =>
      ha ⟨i, hi, hai, fun b hb => hheld b (hsub b hb)⟩ }

end

theorem of_cons {b : DyadicBlock} (h : Agrees m m' n (b :: held)) : Agrees m m' n held :=
  h.mono fun _ hc => List.mem_cons_of_mem b hc

end Agrees

namespace FreeLists

variable {m : PhysicalMemoryManager} {n : ℕ} {free : ℕ → List ℕ} {held : List DyadicBlock}

section

variable (h : FreeLists m n free held)

include h

theorem pageAddress_ne_zero (i : ℕ) : m.pageAddress i ≠ 0 := by
  have := h.start_ne
  simp only [pageAddress]
  omega

theorem pageAddress_lt {i : ℕ} (hi : i ≤ n) : m.pageAddress i < 2 ^ 64 :=
  (Nat.add_le_add_left (Nat.mul_le_mul_right pageSize hi) _).trans_lt h.end_lt

/-- The number of pages fits a page number. -/
theorem pages_lt : n < 2 ^ 52 := by
  have := h.end_lt
  simp only [pageAddress, pageSize] at this
  omega

theorem u64_pageAddress {i : ℕ} (hi : i ≤ n) :
    u64 (m.memoryDescriptorInfo.physicalAddressStart + i * pageSize) = m.pageAddress i := by
  change u64 (m.pageAddress i) = m.pageAddress i
  rw [u64_of_lt (h.pageAddress_lt hi)]

/-- A reordering of the held blocks changes nothing. -/
theorem perm {held' : List DyadicBlock} (hp : held.Perm held') : FreeLists m n free held' :=
  { h with tiles := h.tiles.perm (hp.append_left _) }

end

/-- A held block may be regarded as its two halves. -/
theorem split {s k : ℕ} (hs : 2 ^ (k + 1) ∣ s) (h : FreeLists m n free (⟨s, k + 1⟩ :: held)) :
    FreeLists m n free (⟨s, k⟩ :: ⟨s + 2 ^ k, k⟩ :: held) := by
  refine { h with tiles := ?_ }
  have hfront := h.tiles.perm (List.perm_middle (a := DyadicBlock.mk s (k + 1)))
  refine ((tiles_split_iff hs).mp hfront).perm ?_
  exact (List.Perm.cons _ List.perm_middle.symm).trans List.perm_middle.symm

/-- Two held halves may be regarded as one block. -/
theorem merge {s k : ℕ} (hs : 2 ^ (k + 1) ∣ s)
    (h : FreeLists m n free (⟨s, k⟩ :: ⟨s + 2 ^ k, k⟩ :: held)) :
    FreeLists m n free (⟨s, k + 1⟩ :: held) := by
  refine { h with tiles := ?_ }
  have hfront := h.tiles.perm (List.perm_middle (a := DyadicBlock.mk s k))
  have hboth := hfront.perm (List.Perm.cons _ (List.perm_middle (a := DyadicBlock.mk (s + 2 ^ k) k)))
  exact ((tiles_split_iff hs).mpr hboth).perm List.perm_middle.symm

/-- The first page of a held block is not the first page of a free one. -/
theorem notMem_free (h : FreeLists m n free held) {b : DyadicBlock} (hb : b ∈ held) {i k : ℕ}
    (hk : k < maxBuddyOrders) (hi : i ∈ free k) : ¬ b.Contains i := by
  intro hbi
  have hfree : 0 < coverCount (freeBlocks free) i :=
    coverCount_pos.mpr ⟨⟨i, k⟩, mem_freeBlocks.mpr ⟨hk, hi⟩, DyadicBlock.contains_start _⟩
  have hheld : 0 < coverCount held i := coverCount_pos.mpr ⟨b, hb, hbi⟩
  have hcover := h.tiles.cover i
  rw [coverCount_append] at hcover
  split_ifs at hcover <;> omega

/-- The next pages of the range may be taken as a held block. -/
theorem extend {k : ℕ} (hk : 2 ^ k ∣ n) (hend : m.pageAddress (n + 2 ^ k) < 2 ^ 64)
    (h : FreeLists m n free held) : FreeLists m (n + 2 ^ k) free (⟨n, k⟩ :: held) :=
  { h with
    end_lt := hend
    tiles := (h.tiles.extend hk).perm List.perm_middle.symm }

/-- Linking a held block into the free list of its order. -/
theorem pushBlock {i k : ℕ} (hk : k < maxBuddyOrders)
    (h : FreeLists m n free (⟨i, k⟩ :: held)) :
    FreeLists (m.pushBlock k (m.pageAddress i)) n (Function.update free k (i :: free k)) held where
  start_ne := h.start_ne
  end_lt := h.end_lt
  maxOrder_lt := h.maxOrder_lt
  chain j hj := by
    have hnot : ∀ j < maxBuddyOrders, m.pageAddress i ∉ (free j).map m.pageAddress := by
      intro j hj hmem
      rw [List.mem_map_of_injective m.pageAddress_injective] at hmem
      exact h.notMem_free List.mem_cons_self hj hmem (DyadicBlock.contains_start ⟨i, k⟩)
    change LinkedChain (Function.update m.physicalMemory _ _) 0
      (Function.update m.buddyFreeLists k (m.pageAddress i) j)
      ((Function.update free k (i :: free k) j).map m.pageAddress)
    by_cases hjk : j = k
    · subst hjk
      rw [Function.update_self, Function.update_self, List.map_cons]
      exact (h.chain j hj).push (h.pageAddress_ne_zero i) (hnot j hj)
    · rw [Function.update_of_ne hjk, Function.update_of_ne hjk]
      exact (h.chain j hj).update_of_notMem _ (hnot j hj)
  tiles := by
    refine h.tiles.perm ?_
    exact List.perm_middle.trans ((freeBlocks_update_perm (.refl _) hk).symm.append_right _)

/-- Taking the first block off a free list. -/
theorem popHead {i k : ℕ} {l : List ℕ} (hk : k < maxBuddyOrders) (hfree : free k = i :: l)
    (h : FreeLists m n free held) :
    FreeLists (m.setHead k (m.physicalMemory (m.pageAddress i))) n (Function.update free k l)
      (⟨i, k⟩ :: held) where
  start_ne := h.start_ne
  end_lt := h.end_lt
  maxOrder_lt := h.maxOrder_lt
  chain j hj := by
    change LinkedChain m.physicalMemory 0
      (Function.update m.buddyFreeLists k (m.physicalMemory (m.pageAddress i)) j)
      ((Function.update free k l j).map m.pageAddress)
    by_cases hjk : j = k
    · subst hjk
      have hchain := h.chain j hj
      rw [hfree] at hchain
      rw [Function.update_self, Function.update_self]
      exact hchain.2.2
    · rw [Function.update_of_ne hjk, Function.update_of_ne hjk]
      exact h.chain j hj
  tiles := by
    refine h.tiles.perm ?_
    exact ((freeBlocks_perm_update (.of_eq hfree) hk).append_right _).trans List.perm_middle.symm

theorem touches_of_free (h : FreeLists m n free held) {i k : ℕ} (hk : k < maxBuddyOrders)
    (hi : i ∈ free k) : m.Touches n held (m.pageAddress i) := by
  refine ⟨i, ?_, rfl, fun b hb => h.notMem_free hb hk hi⟩
  exact h.tiles.lt_of_contains (b := ⟨i, k⟩)
    (List.mem_append_left _ (mem_freeBlocks.mpr ⟨hk, hi⟩)) (DyadicBlock.contains_start _)

/-- The first page of the block in hand lies in no other held block. -/
theorem touches_of_held {b : DyadicBlock} (h : FreeLists m n free (b :: held)) :
    m.Touches n held (m.pageAddress b.start) := by
  refine ⟨b.start, ?_, rfl, fun c hc hcb => ?_⟩
  · exact h.tiles.lt_of_contains (b := b) (by simp) (DyadicBlock.contains_start _)
  · have hfront := h.tiles.perm List.perm_middle
    have hdisj := List.rel_of_pairwise_cons hfront.pairwise_disjoint (List.mem_append_right _ hc)
    have := b.size_pos
    simp only [DyadicBlock.Disjoint] at hdisj
    simp only [DyadicBlock.Contains] at hcb
    omega

theorem agrees_pushBlock {i k : ℕ} (h : FreeLists m n free (⟨i, k⟩ :: held)) :
    Agrees m (m.pushBlock k (m.pageAddress i)) n held := by
  refine ⟨rfl, rfl, rfl, rfl, fun a ha => Function.update_of_ne ?_ _ _⟩
  rintro rfl
  exact ha h.touches_of_held

/-- A block is on one free list only. -/
theorem notMem_of_ne (h : FreeLists m n free held) {i j k : ℕ} (hj : j < maxBuddyOrders)
    (hk : k < maxBuddyOrders) (hjk : j ≠ k) (hi : i ∈ free k) : i ∉ free j := by
  intro hij
  obtain ⟨l₁, l₂, hl⟩ := List.append_of_mem hi
  have hfront := h.tiles.perm
    ((freeBlocks_perm_update (hl ▸ List.perm_middle) hk).append_right held)
  have hrest : (⟨i, j⟩ : DyadicBlock) ∈ freeBlocks (Function.update free k (l₁ ++ l₂)) :=
    mem_freeBlocks.mpr ⟨hj, by rwa [Function.update_of_ne hjk]⟩
  have hdisj := List.rel_of_pairwise_cons hfront.pairwise_disjoint
    (List.mem_append_left held hrest)
  have hpos := Nat.two_pow_pos j
  have hpos' := Nat.two_pow_pos k
  simp only [DyadicBlock.Disjoint, DyadicBlock.size_mk] at hdisj
  omega

/-- A free list has at most as many nodes as the range has pages. -/
theorem length_le (h : FreeLists m n free held) {k : ℕ} (hk : k < maxBuddyOrders) :
    (free k).length ≤ n := by
  have hsize : ∀ bs : List DyadicBlock, bs.length ≤ (bs.map DyadicBlock.size).sum := by
    intro bs
    induction bs with
    | nil => rfl
    | cons b bs ih =>
      have := b.size_pos
      simp only [List.length_cons, List.map_cons, List.sum_cons]
      omega
  have hsub : ((free k).map fun i => DyadicBlock.mk i k).Sublist (freeBlocks free) :=
    List.sublist_flatten_of_mem (List.mem_map.mpr ⟨k, List.mem_range.mpr hk, rfl⟩)
  calc (free k).length
      = ((free k).map fun i => DyadicBlock.mk i k).length := by rw [List.length_map]
    _ ≤ (freeBlocks free).length := hsub.length_le
    _ ≤ (freeBlocks free ++ held).length := by simp
    _ ≤ _ := (hsize _).trans h.tiles.sum_size.le

/-! ### The walk along a free list -/

private theorem removeBlockLoop_of_notMem {k a : ℕ} {l : List ℕ} (fuel previous current : ℕ)
    (hl : LinkedChain m.physicalMemory 0 current l) (ha : a ∉ l) (hfuel : l.length < fuel) :
    m.removeBlockLoop k a fuel previous current = some (m, false) := by
  induction l generalizing fuel previous current with
  | nil =>
    obtain ⟨fuel, rfl⟩ := Nat.exists_eq_add_of_lt hfuel
    obtain rfl : current = 0 := hl
    simp [removeBlockLoop]
  | cons b l ih =>
    obtain ⟨rfl, hne, htail⟩ := hl
    obtain ⟨fuel, rfl⟩ := Nat.exists_eq_succ_of_ne_zero (Nat.ne_zero_of_lt hfuel)
    simp only [List.mem_cons, not_or] at ha
    simp only [removeBlockLoop, hne, Ne.symm ha.1, ↓reduceIte]
    exact ih fuel _ _ htail ha.2 (Nat.lt_of_succ_lt_succ hfuel)

/-- The walk stops at the wanted node and makes its predecessor skip it. -/
private theorem removeBlockLoop_of_mem {k a : ℕ} {l₁ l₂ : List ℕ} (fuel previous current : ℕ)
    (hl : LinkedChain m.physicalMemory 0 current (l₁ ++ a :: l₂)) (ha : a ∉ l₁)
    (hfuel : l₁.length < fuel) :
    m.removeBlockLoop k a fuel previous current =
      some (if l₁.getLastD previous = 0 then m.setHead k (m.physicalMemory a)
        else m.setNext (l₁.getLastD previous) (m.physicalMemory a), true) := by
  induction l₁ generalizing fuel previous current with
  | nil =>
    obtain ⟨fuel, rfl⟩ := Nat.exists_eq_succ_of_ne_zero (Nat.ne_zero_of_lt hfuel)
    obtain ⟨rfl, hne, -⟩ := hl
    by_cases hp : previous = 0 <;> simp [removeBlockLoop, hne, hp]
  | cons b l₁ ih =>
    obtain ⟨rfl, hne, htail⟩ := hl
    obtain ⟨fuel, rfl⟩ := Nat.exists_eq_succ_of_ne_zero (Nat.ne_zero_of_lt hfuel)
    simp only [List.mem_cons, not_or] at ha
    simp only [removeBlockLoop, hne, Ne.symm ha.1, ↓reduceIte, List.getLastD_cons]
    exact ih fuel _ _ htail ha.2 (Nat.lt_of_succ_lt_succ hfuel)

/-- Unlinking a node behind another one of its list. -/
private theorem unlink {p i k : ℕ} {l₁ l₂ : List ℕ} (hk : k < maxBuddyOrders)
    (hfree : free k = l₁ ++ p :: i :: l₂) (h : FreeLists m n free held) :
    FreeLists (m.setNext (m.pageAddress p) (m.physicalMemory (m.pageAddress i))) n
      (Function.update free k (l₁ ++ p :: l₂)) (⟨i, k⟩ :: held) where
  start_ne := h.start_ne
  end_lt := h.end_lt
  maxOrder_lt := h.maxOrder_lt
  chain j hj := by
    change LinkedChain (Function.update m.physicalMemory (m.pageAddress p) _) 0
      (m.buddyFreeLists j) ((Function.update free k (l₁ ++ p :: l₂) j).map m.pageAddress)
    have hchain := h.chain j hj
    by_cases hjk : j = k
    · subst hjk
      rw [hfree, List.map_append, List.map_cons, List.map_cons] at hchain
      rw [Function.update_self, List.map_append, List.map_cons]
      exact hchain.unlink
    · rw [Function.update_of_ne hjk]
      refine hchain.update_of_notMem _ fun hmem => ?_
      rw [List.mem_map_of_injective m.pageAddress_injective] at hmem
      exact h.notMem_of_ne hj hk hjk (by simp [hfree]) hmem
  tiles := by
    refine h.tiles.perm ?_
    have hp : (free k).Perm (i :: (l₁ ++ p :: l₂)) := by
      rw [hfree]
      have hmid : ((l₁ ++ [p]) ++ i :: l₂).Perm (i :: ((l₁ ++ [p]) ++ l₂)) := List.perm_middle
      simpa using hmid
    exact ((freeBlocks_perm_update hp hk).append_right _).trans List.perm_middle.symm

/-- A free block is found and unlinked. -/
theorem removeBlock_of_mem {fuel i k : ℕ} (hk : k < maxBuddyOrders) (hi : i ∈ free k)
    (hfuel : n < fuel) (h : FreeLists m n free held) :
    ∃ m' l, m.removeBlockFromFreeList fuel k (m.pageAddress i) = some (m', true) ∧
      (free k).Perm (i :: l) ∧ FreeLists m' n (Function.update free k l) (⟨i, k⟩ :: held) ∧
      m'.memoryDescriptorInfo = m.memoryDescriptorInfo ∧ Agrees m m' n held := by
  obtain ⟨l₁, l₂, hfree, hi₁⟩ := List.eq_append_cons_of_mem hi
  have hlen := h.length_le hk
  have hchain := h.chain k hk
  rw [hfree, List.map_append, List.map_cons] at hchain
  have hloop := removeBlockLoop_of_mem (k := k) fuel 0 _ hchain
    (by rwa [List.mem_map_of_injective m.pageAddress_injective])
    (by simp only [hfree, List.length_append, List.length_cons, List.length_map] at hlen ⊢; omega)
  rcases List.eq_nil_or_concat l₁ with rfl | ⟨l₁, p, rfl⟩
  · refine ⟨_, l₂, hloop, .of_eq hfree, ?_, rfl, ⟨rfl, rfl, rfl, rfl, fun _ _ => rfl⟩⟩
    simpa using h.popHead hk (by simpa using hfree)
  · have hp : p ∈ free k := by simp [hfree]
    simp only [List.map_append, List.map_cons, List.map_nil, List.concat_eq_append,
      List.getLastD_concat, h.pageAddress_ne_zero p, ↓reduceIte] at hloop
    have hperm : ((l₁ ++ [p]) ++ i :: l₂).Perm (i :: ((l₁ ++ [p]) ++ l₂)) := List.perm_middle
    refine ⟨_, l₁ ++ p :: l₂, hloop, by simpa [hfree] using hperm,
      h.unlink hk (by simpa using hfree), rfl,
      ⟨rfl, rfl, rfl, rfl, fun a ha => Function.update_of_ne ?_ _ _⟩⟩
    rintro rfl
    exact ha (h.touches_of_free hk hp)

/-- A block that is not free is not found. -/
theorem removeBlock_of_notMem {fuel i k : ℕ} (hk : k < maxBuddyOrders) (hi : i ∉ free k)
    (hfuel : n < fuel) (h : FreeLists m n free held) :
    m.removeBlockFromFreeList fuel k (m.pageAddress i) = some (m, false) :=
  removeBlockLoop_of_notMem fuel 0 _ (h.chain k hk)
    (by rwa [List.mem_map_of_injective m.pageAddress_injective])
    (by rw [List.length_map]; exact (h.length_le hk).trans_lt hfuel)

/-! ### Writes by the owners -/

/-- Words inside held blocks may be overwritten. -/
theorem write {memory : ℕ → ℕ} (h : FreeLists m n free held)
    (hmem : ∀ a, (∀ b ∈ held, ¬ m.InBlock b a) → memory a = m.physicalMemory a) :
    FreeLists { m with physicalMemory := memory } n free held where
  start_ne := h.start_ne
  end_lt := h.end_lt
  maxOrder_lt := h.maxOrder_lt
  chain k hk := by
    refine (h.chain k hk).congr fun a ha => hmem a fun b hb hin => ?_
    obtain ⟨i, hi, rfl⟩ := List.mem_map.mp ha
    refine h.notMem_free hb hk hi ?_
    simp only [InBlock, pageAddress, pageSize] at hin
    constructor <;> omega
  tiles := h.tiles

end FreeLists

end PhysicalMemoryManager

end TwistedOS
