import TwistedOS.Data.CoalescedBlocks
import TwistedOS.Memory.BuddyInvariant

/-!
# The operations of the buddy allocator

`Valid m live` is the state of the allocator between two calls when the blocks of `live` are
allocated: the free lists and the live blocks tile the managed range and the counter of free pages
is exact. Initialization establishes it for no live block, an allocation adds one block, freeing a
live block removes it, and none of them writes a word of a live block other than the one freed.

## Main definitions

* `PhysicalMemoryManager.Valid`: the state between two calls.
* `PhysicalMemoryManager.PassesChecks`: what the code checks before it frees a block.

## Main results

* `PhysicalMemoryManager.valid_initializeMemoryDescriptors`
* `PhysicalMemoryManager.Valid.allocate`
* `PhysicalMemoryManager.Valid.free_cons`
-/

namespace TwistedOS

open PhysicalMemoryManager (initializeBuddyLoop mergeLoop splitLoop)
open DyadicBlock (buddy_upper contains_start size size_mk start)

namespace PhysicalMemoryManager

namespace FreeLists

variable {m : PhysicalMemoryManager} {n : ℕ} {free : ℕ → List ℕ} {held : List DyadicBlock}
  {M : ℕ}

/-! ### Buddies on the free lists -/

/-- A block whose buddy is not free may be linked into the free list of its order. -/
theorem coalesced_push {i k : ℕ} (hk : k < maxBuddyOrders) (h : Coalesced M (freeBlocks free))
    (hbuddy : k < M → i ^^^ 2 ^ k ∉ free k) :
    Coalesced M (freeBlocks (Function.update free k (i :: free k))) := by
  refine (h.cons fun hlt hmem => hbuddy hlt ?_).of_subset
    (freeBlocks_update_perm (.refl _) hk).subset
  exact (mem_freeBlocks.mp hmem).2

/-- A block may be taken off its free list. -/
theorem coalesced_pop {i k : ℕ} {l : List ℕ} (hk : k < maxBuddyOrders)
    (hl : (free k).Perm (i :: l)) (h : Coalesced M (freeBlocks free)) :
    Coalesced M (freeBlocks (Function.update free k l)) :=
  h.of_subset fun _ hb => (freeBlocks_perm_update hl hk).symm.subset (List.mem_cons_of_mem _ hb)

/-! ### Splitting -/

/-- Splitting a block in hand down to order `r` leaves its first part of that order in hand. -/
theorem splitLoop {i r : ℕ} (steps : ℕ) (hr : r + steps < maxBuddyOrders)
    (h : FreeLists m n free (⟨i, r + steps⟩ :: held)) :
    ∃ free', FreeLists (splitLoop (m.pageAddress i) r steps m) n free' (⟨i, r⟩ :: held) ∧
      (splitLoop (m.pageAddress i) r steps m).memoryDescriptorInfo =
        m.memoryDescriptorInfo ∧
      Agrees m (splitLoop (m.pageAddress i) r steps m) n held ∧
      (Coalesced M (freeBlocks free) → Coalesced M (freeBlocks free')) := by
  induction steps generalizing m free with
  | zero => exact ⟨free, h, rfl, .refl _ _ _, id⟩
  | succ steps ih =>
    have halign : 2 ^ (r + steps + 1) ∣ i := h.tiles.aligned ⟨i, r + (steps + 1)⟩ (by simp)
    have hend : i + 2 ^ (r + steps + 1) ≤ n :=
      h.tiles.end_le (b := ⟨i, r + (steps + 1)⟩) (by simp)
    rw [pow_succ] at hend
    have hhalf := (h.split halign).perm (List.Perm.swap _ _ _)
    have haddr : u64 (m.pageAddress i + pagesForOrder (r + steps) * pageSize) =
        m.pageAddress (i + 2 ^ (r + steps)) := by
      have hsum : m.pageAddress i + pagesForOrder (r + steps) * pageSize =
          m.pageAddress (i + 2 ^ (r + steps)) := by
        simp only [pageAddress, pagesForOrder]
        ring
      rw [hsum, u64_of_lt (h.pageAddress_lt (by omega))]
    have hpush := hhalf.pushBlock (by omega)
    obtain ⟨free', hfree', hinfo, hagree, hcoalesced⟩ := ih (by omega) hpush
    -- the lower half is in hand, so that the upper half has no buddy
    have hlower : i ∉ free (r + steps) := fun hi =>
      h.notMem_free List.mem_cons_self (by omega) hi (contains_start ⟨i, _⟩)
    have hbuddy : (i + 2 ^ (r + steps)) ^^^ 2 ^ (r + steps) = i :=
      congrArg start (buddy_upper halign)
    simp only [splitLoop, haddr]
    have hsame := hhalf.agrees_pushBlock
    rw [show (m.pushBlock (r + steps) (m.pageAddress (i + 2 ^ (r + steps)))).pageAddress i =
      m.pageAddress i from rfl] at hfree' hinfo hagree
    exact ⟨free', hfree', hinfo, hsame.of_cons.trans hagree, fun hc =>
      hcoalesced (coalesced_push (by omega) hc fun _ => by rwa [hbuddy])⟩

/-! ### Merging -/

/-- One step of the merging: the loop ends unless the buddy lies in the range and is free, in which
case it goes on with both. -/
theorem mergeLoop_succ {fuel i k : ℕ} (steps : ℕ) (hk : k < maxBuddyOrders)
    (hn : n = m.memoryDescriptorInfo.totalNumberOfPages) (hfuel : n < fuel) (halign : 2 ^ k ∣ i)
    (hend : i + 2 ^ k ≤ n) (h : FreeLists m n free held) :
    ((i ^^^ 2 ^ k) + 2 ^ k ≤ n → i ^^^ 2 ^ k ∉ free k) ∧
      mergeLoop fuel (steps + 1) m (m.pageAddress i) k =
        some (m, m.pageAddress i, k) ∨
    (i ^^^ 2 ^ k) + 2 ^ k ≤ n ∧ ∃ m' l, (free k).Perm ((i ^^^ 2 ^ k) :: l) ∧
      FreeLists m' n (Function.update free k l) (⟨i ^^^ 2 ^ k, k⟩ :: held) ∧
      m'.memoryDescriptorInfo = m.memoryDescriptorInfo ∧ Agrees m m' n held ∧
      mergeLoop fuel (steps + 1) m (m.pageAddress i) k =
        mergeLoop fuel steps m'
          (m'.pageAddress (if i ^^^ 2 ^ k < i then i ^^^ 2 ^ k else i)) (k + 1) := by
  have hnlt := h.pages_lt
  have hbound : i ^^^ 2 ^ k ≤ i + 2 ^ k := by
    rw [xor_two_pow_of_dvd halign]
    split_ifs <;> omega
  have hu : u64 ((i ^^^ 2 ^ k) + 2 ^ k) = (i ^^^ 2 ^ k) + 2 ^ k := u64_of_lt (by omega)
  simp only [mergeLoop, pageAddress_sub_div, pagesForOrder, hu, ← hn]
  by_cases hrange : n < (i ^^^ 2 ^ k) + 2 ^ k
  · rw [if_pos hrange]
    exact .inl ⟨fun hle => absurd hrange (Nat.not_lt.mpr hle), rfl⟩
  rw [if_neg hrange, h.u64_pageAddress (by omega)]
  by_cases hfree : i ^^^ 2 ^ k ∈ free k
  · obtain ⟨m', l, hremove, hperm, hlists, hinfo, hagree⟩ := h.removeBlock_of_mem hk hfree hfuel
    refine .inr ⟨Nat.not_lt.mp hrange, m', l, hperm, hlists, hinfo, hagree, ?_⟩
    rw [hremove, hagree.pageAddress, apply_ite m.pageAddress]
    simp only [pageAddress_lt_iff]
  · rw [h.removeBlock_of_notMem hk hfree hfuel]
    exact .inl ⟨fun _ => hfree, rfl⟩

/-- Merging leaves one block in hand, of an order that is still admissible. -/
theorem mergeLoop {fuel i k : ℕ} (steps : ℕ) (hk : k + steps < maxBuddyOrders)
    (hn : n = m.memoryDescriptorInfo.totalNumberOfPages) (hfuel : n < fuel)
    (h : FreeLists m n free (⟨i, k⟩ :: held)) :
    ∃ m' free' i' k',
      mergeLoop fuel steps m (m.pageAddress i) k =
        some (m', m.pageAddress i', k') ∧
      k' ≤ k + steps ∧ FreeLists m' n free' (⟨i', k'⟩ :: held) ∧
      m'.memoryDescriptorInfo = m.memoryDescriptorInfo ∧ Agrees m m' n held ∧
      (Coalesced M (freeBlocks free) → Coalesced M (freeBlocks free')) ∧
      (k' < k + steps → i' ^^^ 2 ^ k' ∉ free' k') := by
  induction steps generalizing m free i k with
  | zero => exact ⟨m, free, i, k, rfl, le_rfl, h, rfl, .refl _ _ _, id, by simp⟩
  | succ steps ih =>
    have halign : 2 ^ k ∣ i := h.tiles.aligned ⟨i, k⟩ (by simp)
    have hend : i + 2 ^ k ≤ n := h.tiles.end_le (b := ⟨i, k⟩) (by simp)
    rcases h.mergeLoop_succ steps (by omega) hn hfuel halign hend with
      ⟨hbuddy, hloop⟩ | ⟨-, m', l, hperm, hlists, hinfo, hagree, hloop⟩
    · refine ⟨m, free, i, k, hloop, by omega, h, rfl, .refl _ _ _, id, fun _ hmem => ?_⟩
      have hfree : (⟨i ^^^ 2 ^ k, k⟩ : DyadicBlock) ∈ freeBlocks free :=
        mem_freeBlocks.mpr ⟨show k < maxBuddyOrders by omega, hmem⟩
      exact hbuddy (h.tiles.end_le (List.mem_append_left _ hfree)) hmem
    · have hmerged : FreeLists m' n (Function.update free k l)
          (⟨if i ^^^ 2 ^ k < i then i ^^^ 2 ^ k else i, k + 1⟩ :: held) := by
        have hxor := xor_two_pow_of_dvd halign
        by_cases hodd : 2 ^ (k + 1) ∣ i
        · rw [if_pos hodd] at hxor
          rw [hxor] at hlists ⊢
          rw [if_neg (by omega)]
          exact (hlists.perm (List.Perm.swap _ _ _)).merge hodd
        · obtain ⟨hdvd, hle⟩ := two_pow_succ_dvd_sub halign hodd
          rw [if_neg hodd] at hxor
          have hpos := Nat.two_pow_pos k
          rw [hxor] at hlists ⊢
          rw [if_pos (by omega)]
          refine FreeLists.merge hdvd ?_
          rwa [Nat.sub_add_cancel hle]
      obtain ⟨m'', free', i', k', hrest, hk', hlists', hinfo', hagree', hcoalesced, hbuddy⟩ :=
        ih (by omega) (by rw [hn, hinfo]) hmerged
      rw [hagree.pageAddress] at hrest hloop
      exact ⟨m'', free', i', k', hloop.trans hrest, by omega, hlists', hinfo'.trans hinfo,
        hagree.of_cons.trans hagree', fun hc => hcoalesced (coalesced_pop (by omega) hperm hc),
        fun hlt => hbuddy (by omega)⟩

/-! ### Cutting up the range -/

private theorem alignOrder_le (offset order : ℕ) : alignOrder offset order ≤ order := by
  induction order with
  | zero => rfl
  | succ order ih =>
    unfold alignOrder
    split_ifs
    · omega
    · rfl

private theorem two_pow_alignOrder_dvd (offset order : ℕ) :
    2 ^ alignOrder offset order ∣ offset := by
  induction order with
  | zero => simp [alignOrder]
  | succ order ih =>
    unfold alignOrder
    split_ifs with hmod
    · exact ih
    · exact Nat.dvd_of_mod_eq_zero (not_not.mp hmod)

private theorem alignOrder_of_dvd {offset order : ℕ} (h : 2 ^ order ∣ offset) :
    alignOrder offset order = order := by
  cases order with
  | zero => rfl
  | succ order =>
    have hmod : offset % pagesForOrder (order + 1) = 0 := Nat.mod_eq_zero_of_dvd h
    simp [alignOrder, hmod]

/-- The loop tiles the pages from `offset` on, in blocks of decreasing order. -/
theorem initializeBuddyLoop {offset remaining : ℕ} (fuel : ℕ) (hfuel : remaining ≤ fuel)
    (hend : m.pageAddress (offset + remaining) < 2 ^ 64) (h : FreeLists m offset free []) :
    ∃ free', FreeLists (initializeBuddyLoop fuel m remaining offset) (offset + remaining) free' [] ∧
      (initializeBuddyLoop fuel m remaining offset).memoryDescriptorInfo =
        m.memoryDescriptorInfo ∧
      (initializeBuddyLoop fuel m remaining offset).buddyMaxOrder =
        m.buddyMaxOrder ∧
      (remaining < 2 ^ 51 → (∀ j, 2 ^ j ≤ remaining → 2 ^ j ∣ offset ∧ free j = []) →
        Coalesced M (freeBlocks free) → Coalesced M (freeBlocks free')) := by
  induction fuel generalizing m free offset remaining with
  | zero =>
    obtain rfl : remaining = 0 := by omega
    exact ⟨free, h, rfl, rfl, fun _ _ => id⟩
  | succ fuel ih =>
    unfold initializeBuddyLoop
    by_cases hzero : remaining = 0
    · subst hzero
      rw [if_pos rfl]
      exact ⟨free, h, rfl, rfl, fun _ _ => id⟩
    · rw [if_neg hzero]
      have hfloor := two_pow_floorLog2Pages_le (Nat.pos_of_ne_zero hzero)
      have hwhole (hdvd : 2 ^ floorLog2Pages remaining ∣ offset) := alignOrder_of_dvd hdvd
      generalize hk : alignOrder offset (floorLog2Pages remaining) = k at hwhole
      have hdvd : 2 ^ k ∣ offset := hk ▸ two_pow_alignOrder_dvd _ _
      have hle : k ≤ floorLog2Pages remaining := hk ▸ alignOrder_le _ _
      have hlt : k < maxBuddyOrders := hle.trans_lt (floorLog2Pages_lt remaining)
      have hsize : 2 ^ k ≤ remaining := (Nat.pow_le_pow_right two_pos hle).trans hfloor
      have hpos := Nat.two_pow_pos k
      have hcut : offset + 2 ^ k + (remaining - 2 ^ k) = offset + remaining := by omega
      have hend' : m.pageAddress (offset + 2 ^ k) < 2 ^ 64 :=
        (Nat.add_le_add_left (Nat.mul_le_mul_right pageSize (by omega)) _).trans_lt hend
      have hpush := (h.extend hdvd hend').pushBlock hlt
      obtain ⟨free', hfree', hinfo, hmax, hcoalesced⟩ :=
        ih (show remaining - 2 ^ k ≤ fuel by omega) (by rw [hcut]; exact hend) hpush
      rw [hcut] at hfree'
      have haddr := h.u64_pageAddress le_rfl
      simp only [pagesForOrder, haddr]
      refine ⟨free', hfree', hinfo, hmax, fun hsmall hlower hc => ?_⟩
      -- fewer than `2 ^ k` pages are left, so that no later block has order `k` or more
      obtain ⟨hdvdFloor, -⟩ := hlower _ hfloor
      obtain rfl := hwhole hdvdFloor
      have hrest := lt_two_pow_floorLog2Pages hsmall
      rw [pow_succ] at hrest
      refine hcoalesced (by omega) (fun j hj => ?_) (coalesced_push hlt hc fun _ => ?_)
      · obtain ⟨hj', hnil⟩ := hlower j (by omega)
        have hjk : j < floorLog2Pages remaining :=
          (Nat.pow_lt_pow_iff_right (by decide)).mp (show 2 ^ j < 2 ^ _ by omega)
        exact ⟨(Nat.dvd_add_right hj').mpr (pow_dvd_pow 2 hjk.le),
          by rwa [Function.update_of_ne hjk.ne]⟩
      · rw [(hlower _ hsize).2]
        exact List.not_mem_nil

end FreeLists

/-! ### The state between two calls -/

/-- The blocks of `live` are allocated, everything else in the managed range is on the free lists,
and the counter of free pages is exact. -/
structure Valid (m : PhysicalMemoryManager) (live : List DyadicBlock) : Prop where
  bitMap_ne : m.memoryDescriptorInfo.bitMap ≠ 0
  order_le : ∀ b ∈ live, b.order ≤ m.buddyMaxOrder
  free : ∃ free, FreeLists m m.memoryDescriptorInfo.totalNumberOfPages free live ∧
    m.memoryDescriptorInfo.numberOfFreePages = ((freeBlocks free).map size).sum

theorem FreeLists.sum_size {m : PhysicalMemoryManager} {n : ℕ} {free : ℕ → List ℕ}
    {held : List DyadicBlock} (h : FreeLists m n free held) :
    ((freeBlocks free).map size).sum + (held.map size).sum = n := by
  rw [← List.sum_append, ← List.map_append, h.tiles.sum_size]

/-- The counter of free pages does not matter for the free lists. -/
theorem FreeLists.setNumberOfFreePages {m m' : PhysicalMemoryManager} {free : ℕ → List ℕ}
    {held : List DyadicBlock}
    (h : FreeLists m' m.memoryDescriptorInfo.totalNumberOfPages free held)
    (hinfo : m'.memoryDescriptorInfo = m.memoryDescriptorInfo) (pages : ℕ) :
    FreeLists (m'.setNumberOfFreePages pages)
      (m'.setNumberOfFreePages pages).memoryDescriptorInfo.totalNumberOfPages free held := by
  change FreeLists _ m'.memoryDescriptorInfo.totalNumberOfPages _ _
  rw [hinfo]
  exact ⟨h.start_ne, h.end_lt, h.maxOrder_lt, h.chain, h.tiles⟩

/-- The operation changed neither the managed range nor a word of a live block. -/
abbrev Keeps (m m' : PhysicalMemoryManager) (live : List DyadicBlock) : Prop :=
  Agrees m m' m.memoryDescriptorInfo.totalNumberOfPages live

/-- Two operations one after the other, the second of which may use more. -/
theorem Keeps.trans_mono {m m₁ m₂ : PhysicalMemoryManager} {live live' : List DyadicBlock}
    (h : Keeps m m₁ live) (h' : Keeps m₁ m₂ live') (hsub : ∀ b ∈ live', b ∈ live) :
    Keeps m m₂ live' :=
  (Agrees.mono h hsub).trans (h.total ▸ h')

theorem findFreeOrder_none {m : PhysicalMemoryManager} {count order : ℕ}
    (h : m.findFreeOrder count order = none) {k : ℕ} (hle : order ≤ k) (hlt : k < order + count) :
    m.buddyFreeLists k = 0 := by
  induction count generalizing order with
  | zero => omega
  | succ count ih =>
    unfold findFreeOrder at h
    split_ifs at h with hhead
    rcases Nat.eq_or_lt_of_le hle with rfl | hnext
    · exact hhead
    · exact ih h hnext (by omega)

theorem findFreeOrder_some {m : PhysicalMemoryManager} {count order k : ℕ}
    (h : m.findFreeOrder count order = some k) :
    order ≤ k ∧ k < order + count ∧ m.buddyFreeLists k ≠ 0 := by
  induction count generalizing order with
  | zero => simp [findFreeOrder] at h
  | succ count ih =>
    unfold findFreeOrder at h
    split_ifs at h with hhead
    · obtain ⟨hle, hlt, hne⟩ := ih h
      exact ⟨by omega, by omega, hne⟩
    · obtain rfl : order = k := Option.some.inj h
      exact ⟨le_rfl, by omega, hhead⟩

/-! ### The checks of a free -/

/-- The checks that `freePagesFromDescriptor` makes before it frees a block. -/
def PassesChecks (m : PhysicalMemoryManager) (address pages : ℕ) : Prop :=
  let startPage := (address - m.memoryDescriptorInfo.physicalAddressStart) / pageSize
  let blockPages := pagesForOrder (ceilLog2Pages pages)
  ¬ (address = 0 ∨ pages = 0) ∧ m.memoryDescriptorInfo.bitMap ≠ 0 ∧
    m.isAddressInManagedRange address ∧
    (address - m.memoryDescriptorInfo.physicalAddressStart) % pageSize = 0 ∧
    ceilLog2Pages pages ≤ m.buddyMaxOrder ∧
    u64 (startPage + blockPages) ≤ m.memoryDescriptorInfo.totalNumberOfPages ∧
    startPage % blockPages = 0

instance (m : PhysicalMemoryManager) (address pages : ℕ) :
    Decidable (m.PassesChecks address pages) :=
  inferInstanceAs (Decidable (_ ∧ _))

section Checks

variable {m : PhysicalMemoryManager} {live : List DyadicBlock} {fuel address pages j : ℕ}

/-- A call that fails a check is refused. -/
theorem free_of_not_passesChecks (h : ¬ m.PassesChecks address pages) :
    freePagesFromDescriptor fuel m address pages = some (m, false) := by
  unfold freePagesFromDescriptor
  dsimp only
  split_ifs with hzero hbitMap hrange hmod horder hend halign
  all_goals first | rfl | skip
  exact absurd ⟨hzero, hbitMap, hrange, not_not.mp hmod, not_lt.mp horder, not_lt.mp hend,
    not_not.mp halign⟩ h

/-- A call that passes the checks frees the block. -/
theorem free_of_passesChecks (fuel : ℕ) (h : m.PassesChecks address pages) :
    freePagesFromDescriptor fuel m address pages =
      (mergeLoop fuel (m.buddyMaxOrder - ceilLog2Pages pages) m address (ceilLog2Pages pages)).map
        fun r =>
          let m := r.1.pushBlock r.2.2 r.2.1
          let freePages :=
            u64 (m.memoryDescriptorInfo.numberOfFreePages + pagesForOrder (ceilLog2Pages pages))
          let total := m.memoryDescriptorInfo.totalNumberOfPages
          (m.setNumberOfFreePages (if total < freePages then total else freePages), true) := by
  obtain ⟨hzero, hbitMap, hrange, hmod, horder, hend, halign⟩ := h
  simp only [freePagesFromDescriptor, hzero, hbitMap, hrange, hmod, halign, not_lt.mpr horder,
    not_lt.mpr hend, if_false, not_true_eq_false, ne_eq]
  cases mergeLoop fuel (m.buddyMaxOrder - ceilLog2Pages pages) m address (ceilLog2Pages pages) with
  | none => rfl
  | some r => rfl

/-- An address that passes the first checks is that of a page of the range. -/
theorem Valid.exists_pageAddress (h : Valid m live) (hrange : m.isAddressInManagedRange address)
    (hmod : (address - m.memoryDescriptorInfo.physicalAddressStart) % pageSize = 0) :
    ∃ j < m.memoryDescriptorInfo.totalNumberOfPages, address = m.pageAddress j := by
  obtain ⟨free, hlists, -⟩ := h.free
  obtain ⟨hge, hlt⟩ : m.memoryDescriptorInfo.physicalAddressStart ≤ address ∧
      address < m.pageAddress m.memoryDescriptorInfo.totalNumberOfPages := by
    have hu := hlists.u64_pageAddress le_rfl
    simpa [isAddressInManagedRange, hu] using hrange
  obtain ⟨j, rfl⟩ : ∃ j, address = m.pageAddress j := by
    refine ⟨(address - m.memoryDescriptorInfo.physicalAddressStart) / pageSize, ?_⟩
    simp only [pageAddress, pageSize] at *
    omega
  exact ⟨j, m.pageAddress_lt_iff.mp hlt, rfl⟩

/-- The block at a page of the range passes the checks if it is aligned and ends in the range. -/
theorem Valid.passesChecks_iff (h : Valid m live)
    (hj : j < m.memoryDescriptorInfo.totalNumberOfPages) :
    m.PassesChecks (m.pageAddress j) pages ↔
      pages ≠ 0 ∧ ceilLog2Pages pages ≤ m.buddyMaxOrder ∧
        j + 2 ^ ceilLog2Pages pages ≤ m.memoryDescriptorInfo.totalNumberOfPages ∧
        2 ^ ceilLog2Pages pages ∣ j := by
  obtain ⟨free, hlists, -⟩ := h.free
  have hrange : m.isAddressInManagedRange (m.pageAddress j) = true := by
    have hu := hlists.u64_pageAddress le_rfl
    simp only [isAddressInManagedRange, hu, m.pageAddress_lt_iff.mpr hj, and_true,
      decide_eq_true_eq]
    exact Nat.le_add_right _ _
  have htotal := hlists.pages_lt
  have hsize : 2 ^ ceilLog2Pages pages ≤ 2 ^ 51 :=
    Nat.pow_le_pow_right (by decide) (Nat.le_of_lt_succ (ceilLog2Pages_lt pages))
  have hu : u64 (j + 2 ^ ceilLog2Pages pages) = j + 2 ^ ceilLog2Pages pages :=
    u64_of_lt (by omega)
  simp only [PassesChecks, hlists.pageAddress_ne_zero j, false_or, h.bitMap_ne, hrange,
    pageAddress_sub_mod, pageAddress_sub_div, pagesForOrder, hu, ne_eq, not_false_eq_true,
    true_and, Nat.dvd_iff_mod_eq_zero]

end Checks

namespace Valid

variable {m : PhysicalMemoryManager} {live : List DyadicBlock}

section

variable (h : Valid m live)

include h

/-- The counter is exact when it adds up with the live blocks to the length of the range. -/
private theorem of_lists {m₁ : PhysicalMemoryManager} {free : ℕ → List ℕ} {live₁ : List DyadicBlock}
    {pages : ℕ} (hlists : FreeLists m₁ m.memoryDescriptorInfo.totalNumberOfPages free live₁)
    (hinfo : m₁.memoryDescriptorInfo = m.memoryDescriptorInfo)
    (horder : ∀ b ∈ live₁, b.order ≤ m₁.buddyMaxOrder)
    (hpages : pages +
    (live₁.map size).sum = m.memoryDescriptorInfo.totalNumberOfPages) :
    Valid (m₁.setNumberOfFreePages pages) live₁ where
  bitMap_ne := by
    change m₁.memoryDescriptorInfo.bitMap ≠ 0
    rw [hinfo]
    exact h.bitMap_ne
  order_le := horder
  free := by
    refine ⟨free, hlists.setNumberOfFreePages hinfo pages, ?_⟩
    · have hsum := hlists.sum_size
      change pages = _
      omega

theorem numberOfFreePages_add :
    m.memoryDescriptorInfo.numberOfFreePages + (live.map size).sum =
      m.memoryDescriptorInfo.totalNumberOfPages := by
  obtain ⟨free, hlists, hcount⟩ := h.free
  rw [hcount, hlists.sum_size]

theorem perm {live' : List DyadicBlock} (hp : live.Perm live') :
    Valid m live' where
  bitMap_ne := h.bitMap_ne
  order_le b hb := h.order_le b (hp.mem_iff.mpr hb)
  free := by
    obtain ⟨free, hlists, hcount⟩ := h.free
    exact ⟨free, hlists.perm hp, hcount⟩

/-- The counter says how many pages the free lists have. -/
theorem numberOfFreePages_eq {free : ℕ → List ℕ}
    (hlists : FreeLists m m.memoryDescriptorInfo.totalNumberOfPages free live) :
    m.memoryDescriptorInfo.numberOfFreePages = ((freeBlocks free).map size).sum := by
  have hsum := hlists.sum_size
  have hadd := h.numberOfFreePages_add
  omega

/-- An allocation either fails, for want of pages or of a large block, and changes nothing, or it
returns the first page of a block of the requested order that was free. It creates no free
buddies. -/
theorem allocate_lists {free : ℕ → List ℕ}
    (hlists : FreeLists m m.memoryDescriptorInfo.totalNumberOfPages free live) (pages : ℕ) :
    (m.allocatePagesFromDescriptor pages = (m, 0) ∧
      (pages = 0 ∨ m.memoryDescriptorInfo.numberOfFreePages < pages ∨
        ∀ k, ceilLog2Pages pages ≤ k → k ≤ m.buddyMaxOrder → free k = [])) ∨
    ∃ m' i free', m.allocatePagesFromDescriptor pages = (m', m.pageAddress i) ∧
      Valid m' (⟨i, ceilLog2Pages pages⟩ :: live) ∧ Keeps m m' live ∧
      FreeLists m' m'.memoryDescriptorInfo.totalNumberOfPages free'
        (⟨i, ceilLog2Pages pages⟩ :: live) ∧
      (Coalesced m.buddyMaxOrder (freeBlocks free) →
        Coalesced m'.buddyMaxOrder (freeBlocks free')) := by
  have hcount := h.numberOfFreePages_eq hlists
  simp only [allocatePagesFromDescriptor]
  generalize ceilLog2Pages pages = r
  split_ifs with hpages hbitMap hfew hmax
  · exact .inl ⟨rfl, .inl hpages⟩
  · exact absurd hbitMap h.bitMap_ne
  · exact .inl ⟨rfl, .inr (.inl hfew)⟩
  · exact .inl ⟨rfl, .inr (.inr fun k hrk hkmax => by omega)⟩
  cases hfind : m.findFreeOrder (m.buddyMaxOrder + 1 - r) r with
  | none =>
    refine .inl ⟨rfl, .inr (.inr fun k hrk hkmax => ?_)⟩
    have hchain := hlists.chain k (hkmax.trans_lt hlists.maxOrder_lt)
    rw [findFreeOrder_none hfind hrk (by omega)] at hchain
    exact List.map_eq_nil_iff.mp hchain.eq_nil_of_null
  | some k =>
    obtain ⟨hrk, hkmax, hhead⟩ := findFreeOrder_some hfind
    have hmaxOrder := hlists.maxOrder_lt
    have hk : k < maxBuddyOrders := by omega
    obtain ⟨l', hl', -⟩ := (hlists.chain k hk).exists_cons_of_ne_null hhead
    obtain ⟨i, l, hfree, hi, -⟩ := List.map_eq_cons_iff.mp hl'
    obtain ⟨steps, rfl⟩ := Nat.exists_eq_add_of_le hrk
    have hpop := hlists.popHead hk hfree
    obtain ⟨free', hsplit, hinfo, hagree, hcoalesced⟩ :=
      hpop.splitLoop (M := m.buddyMaxOrder) steps (by omega)
    simp only [← hi, Nat.add_sub_cancel_left]
    rw [show (m.setHead (r + steps) (m.physicalMemory (m.pageAddress i))).pageAddress i =
      m.pageAddress i from rfl] at hsplit hinfo hagree
    generalize splitLoop (m.pageAddress i) r steps _ = m₁ at hsplit hinfo hagree ⊢
    replace hinfo : m₁.memoryDescriptorInfo = m.memoryDescriptorInfo := hinfo
    -- the block found is as large as the one requested, so that the last check never fails
    have hsum := hlists.sum_size
    have hsum' := hsplit.sum_size
    rw [List.map_cons, List.sum_cons, size_mk] at hsum'
    have henough : ¬ m₁.memoryDescriptorInfo.numberOfFreePages < pagesForOrder r := by
      rw [hinfo, hcount, pagesForOrder]
      omega
    rw [if_neg henough]
    have hkeeps : Keeps m m₁ live :=
      ⟨hagree.start, hagree.total, hagree.bitMap, hagree.maxOrder, hagree.memory⟩
    refine .inr ⟨_, i, free', rfl, h.of_lists hsplit hinfo ?_ ?_, ?_, ?_, fun hc => ?_⟩
    · simp only [List.forall_mem_cons, hkeeps.maxOrder]
      exact ⟨by omega, h.order_le⟩
    · rw [List.map_cons, List.sum_cons, size_mk, hinfo, hcount, pagesForOrder]
      omega
    · exact ⟨hkeeps.start, hkeeps.total, hkeeps.bitMap, hkeeps.maxOrder, hkeeps.memory⟩
    · exact hsplit.setNumberOfFreePages hinfo _
    · exact hkeeps.maxOrder.symm ▸ hcoalesced (FreeLists.coalesced_pop hk (.of_eq hfree) hc)

/-- An allocation either fails and changes nothing, or it returns the first page of a block of the
requested order that was free. -/
theorem allocate (pages : ℕ) :
    m.allocatePagesFromDescriptor pages = (m, 0) ∨
    ∃ m' i, m.allocatePagesFromDescriptor pages = (m', m.pageAddress i) ∧
      Valid m' (⟨i, ceilLog2Pages pages⟩ :: live) ∧ Keeps m m' live := by
  obtain ⟨free, hlists, -⟩ := h.free
  rcases h.allocate_lists hlists pages with ⟨hfails, -⟩ | ⟨m', i, -, hcall, hvalid, hkeeps, -⟩
  · exact .inl hfails
  · exact .inr ⟨m', i, hcall, hvalid, hkeeps⟩

end

/-- Freeing a live block succeeds, and merges it with its buddies. -/
theorem free_cons_lists {fuel i k pages : ℕ} {free : ℕ → List ℕ} (h : Valid m (⟨i, k⟩ :: live))
    (hlists : FreeLists m m.memoryDescriptorInfo.totalNumberOfPages free (⟨i, k⟩ :: live))
    (hpages : pages ≠ 0) (hk : ceilLog2Pages pages = k)
    (hfuel : m.memoryDescriptorInfo.totalNumberOfPages < fuel) :
    ∃ m' free', freePagesFromDescriptor fuel m (m.pageAddress i) pages = some (m', true) ∧
      Valid m' live ∧ Keeps m m' live ∧
      FreeLists m' m'.memoryDescriptorInfo.totalNumberOfPages free' live ∧
      (Coalesced m.buddyMaxOrder (freeBlocks free) →
        Coalesced m'.buddyMaxOrder (freeBlocks free')) := by
  have hmaxOrder := hlists.maxOrder_lt
  have horder : k ≤ m.buddyMaxOrder := h.order_le ⟨i, k⟩ (by simp)
  have hend : i + 2 ^ k ≤ m.memoryDescriptorInfo.totalNumberOfPages :=
    hlists.tiles.end_le (b := ⟨i, k⟩) (by simp)
  have hpos := Nat.two_pow_pos k
  have hpasses : m.PassesChecks (m.pageAddress i) pages := (h.passesChecks_iff (by omega)).mpr
    ⟨hpages, hk ▸ horder, hk ▸ hend, hk ▸ hlists.tiles.aligned ⟨i, k⟩ (by simp)⟩
  have htotal := hlists.pages_lt
  obtain ⟨m₁, free', i', k', hmerge, hk', hlists', hinfo, hagree, hcoalesced, hbuddy⟩ :=
    hlists.mergeLoop (M := m.buddyMaxOrder) (m.buddyMaxOrder - k) (by omega) rfl hfuel
  have hpush := hlists'.pushBlock (by omega)
  have hsame := hlists'.agrees_pushBlock
  rw [hagree.pageAddress] at hpush hsame
  have hsum := h.numberOfFreePages_add
  rw [List.map_cons, List.sum_cons, size_mk] at hsum
  have hfreed : u64 (m.memoryDescriptorInfo.numberOfFreePages + 2 ^ k) =
      m.memoryDescriptorInfo.numberOfFreePages + 2 ^ k := u64_of_lt (by omega)
  have hkeeps := hagree.trans hsame
  refine ⟨(m₁.pushBlock k' (m.pageAddress i')).setNumberOfFreePages
    (m.memoryDescriptorInfo.numberOfFreePages + 2 ^ k), _, ?_, ?_, ?_,
    hpush.setNumberOfFreePages hinfo _, fun hc => ?_⟩
  · rw [free_of_passesChecks fuel hpasses, hk, hmerge, Option.map_some]
    simp only [pagesForOrder, pushBlock_info, hinfo, hfreed]
    rw [if_neg (by omega)]
  · refine h.of_lists hpush hinfo ?_ (by omega)
    rw [hkeeps.maxOrder]
    exact fun b hb => h.order_le b (List.mem_cons_of_mem _ hb)
  · exact ⟨hkeeps.start, hkeeps.total, hkeeps.bitMap, hkeeps.maxOrder, hkeeps.memory⟩
  · have hmax : m₁.buddyMaxOrder = m.buddyMaxOrder := hagree.maxOrder
    refine FreeLists.coalesced_push (by omega) ?_ fun hlt => hbuddy ?_
    · exact hmax.symm ▸ hcoalesced hc
    · have hlt' : k' < m₁.buddyMaxOrder := hlt
      omega

theorem free_cons {fuel i k pages : ℕ} (h : Valid m (⟨i, k⟩ :: live)) (hpages : pages ≠ 0)
    (hk : ceilLog2Pages pages = k) (hfuel : m.memoryDescriptorInfo.totalNumberOfPages < fuel) :
    ∃ m', freePagesFromDescriptor fuel m (m.pageAddress i) pages = some (m', true) ∧
      Valid m' live ∧ Keeps m m' live := by
  obtain ⟨free, hlists, -⟩ := h.free
  obtain ⟨m', -, hcall, hvalid, hkeeps, -⟩ := h.free_cons_lists hlists hpages hk hfuel
  exact ⟨m', hcall, hvalid, hkeeps⟩

/-- Owners may overwrite the words of live blocks. -/
theorem write {memory : ℕ → ℕ} (h : Valid m live)
    (hmem : ∀ a, (∀ b ∈ live, ¬ m.InBlock b a) → memory a = m.physicalMemory a) :
    Valid { m with physicalMemory := memory } live where
  bitMap_ne := h.bitMap_ne
  order_le := h.order_le
  free := by
    obtain ⟨free, hlists, hcount⟩ := h.free
    exact ⟨free, hlists.write hmem, hcount⟩

end Valid

/-! ### Initialization -/

/-- Every candidate range ends below the physical limit. -/
private theorem candidateRange_end_le {boot : BootMemoryMap} {i : ℕ} {desc : EfiMemoryDescriptor}
    {start pages : ℕ} (h : candidateRange boot i desc = some (start, pages)) :
    start + pages * pageSize ≤ pmmBuddyPhysicalLimit := by
  have hraw : (if i = boot.currentDescriptor then boot.nextPageAddress else desc.physicalStart) +
      (if i = boot.currentDescriptor then boot.remainingPagesInDescriptor
        else desc.numberOfPages) * pageSize < 2 ^ 64 := by
    split_ifs
    · exact boot.end_lt
    · exact desc.end_lt
  simp only [candidateRange] at h
  generalize (if i = boot.currentDescriptor then boot.nextPageAddress else desc.physicalStart) = s
    at h hraw
  generalize (if i = boot.currentDescriptor then boot.remainingPagesInDescriptor
    else desc.numberOfPages) = p at h hraw
  rw [u64_of_lt hraw] at h
  split_ifs at h <;> simp only [Option.some.injEq, Prod.mk.injEq] at h <;> obtain ⟨rfl, rfl⟩ := h
  · have hle := Nat.div_mul_le_self (pmmBuddyPhysicalLimit - s) pageSize
    omega
  · exact Nat.le_of_not_lt ‹_›

/-- The selected range ends below the physical limit, as every candidate does, and all its pages
count as free. -/
private theorem selectRange_spec (boot : BootMemoryMap) (descs : List EfiMemoryDescriptor)
    (i : ℕ) (best : MemoryDescriptor)
    (hend : best.physicalAddressStart + best.totalNumberOfPages * pageSize ≤ pmmBuddyPhysicalLimit)
    (hfree : best.numberOfFreePages = best.totalNumberOfPages) :
    (selectRange boot descs i best).physicalAddressStart +
        (selectRange boot descs i best).totalNumberOfPages * pageSize ≤ pmmBuddyPhysicalLimit ∧
      (selectRange boot descs i best).numberOfFreePages =
        (selectRange boot descs i best).totalNumberOfPages := by
  induction descs generalizing i best with
  | nil => exact ⟨hend, hfree⟩
  | cons desc descs ih =>
    unfold selectRange
    cases hcand : candidateRange boot i desc with
    | none => exact ih _ _ hend hfree
    | some cand =>
      dsimp only
      split_ifs
      · exact ih _ _ (candidateRange_end_le hcand) rfl
      · exact ih _ _ hend hfree

/-- The range of the boot memory map that the allocator manages. -/
def selectedRange (boot : BootMemoryMap) : MemoryDescriptor :=
  selectRange boot boot.descriptors 0
    { physicalAddressStart := 0, totalNumberOfPages := 0, numberOfFreePages := 0, bitMap := 0 }

theorem selectedRange_spec (boot : BootMemoryMap) :
    (selectedRange boot).physicalAddressStart +
        (selectedRange boot).totalNumberOfPages * pageSize ≤ pmmBuddyPhysicalLimit ∧
      (selectedRange boot).numberOfFreePages = (selectedRange boot).totalNumberOfPages :=
  selectRange_spec boot _ _ _ (by decide) rfl

section

variable (boot : BootMemoryMap) (physicalMemory : ℕ → ℕ)
  (hpages : (selectedRange boot).totalNumberOfPages ≠ 0)
  (hstart : (selectedRange boot).physicalAddressStart ≠ 0)

include boot physicalMemory hpages hstart

/-- Initialization cuts the whole selected range into blocks without buddies. -/
theorem initializeMemoryDescriptors_lists {M : ℕ} :
    ∃ free, FreeLists (initializeMemoryDescriptors boot physicalMemory)
        (selectedRange boot).totalNumberOfPages free [] ∧
      (initializeMemoryDescriptors boot physicalMemory).memoryDescriptorInfo =
        { selectedRange boot with bitMap := (selectedRange boot).physicalAddressStart } ∧
      (initializeMemoryDescriptors boot physicalMemory).buddyMaxOrder =
        floorLog2Pages (selectedRange boot).totalNumberOfPages ∧
      Coalesced M (freeBlocks free) := by
  have hlimit := (selectedRange_spec boot).1
  change ∃ free, FreeLists
      (initializeBuddyAllocator ⟨selectedRange boot, fun _ => 0, 0, physicalMemory⟩) _ free [] ∧
    (initializeBuddyAllocator
      ⟨selectedRange boot, fun _ => 0, 0, physicalMemory⟩).memoryDescriptorInfo = _ ∧
    (initializeBuddyAllocator
      ⟨selectedRange boot, fun _ => 0, 0, physicalMemory⟩).buddyMaxOrder = _ ∧ _
  generalize selectedRange boot = range at hpages hstart hlimit
  have hsmall : range.totalNumberOfPages < 2 ^ 51 := by
    simp only [pmmBuddyPhysicalLimit, pageSize] at hlimit
    omega
  have hend := hlimit.trans_lt (show pmmBuddyPhysicalLimit < 2 ^ 64 by decide)
  simp only [initializeBuddyAllocator, hpages, ↓reduceIte]
  have hnone : freeBlocks (fun _ => []) = [] := by simp [freeBlocks, List.flatMap_eq_nil_iff]
  have hempty : FreeLists
      ⟨range, fun _ => 0, floorLog2Pages range.totalNumberOfPages, physicalMemory⟩ 0 (fun _ => [])
      [] := by
    refine ⟨hstart, ?_, floorLog2Pages_lt _, fun k _ => rfl, ?_⟩
    · exact (Nat.add_le_add_left (Nat.mul_le_mul_right pageSize (Nat.zero_le _)) _).trans_lt hend
    · rw [hnone]
      exact tiles_nil
  obtain ⟨free, hlists, hinfo, hmax, hcoalesced⟩ :=
    hempty.initializeBuddyLoop (M := M) range.totalNumberOfPages le_rfl (by rwa [Nat.zero_add])
  rw [Nat.zero_add] at hlists
  refine ⟨free, ?_, by rw [hinfo], hmax, hcoalesced hsmall (fun _ _ => ⟨dvd_zero _, rfl⟩) ?_⟩
  · exact ⟨hlists.start_ne, hlists.end_lt, hlists.maxOrder_lt, hlists.chain, hlists.tiles⟩
  · rw [hnone]
    exact fun b hb => absurd hb List.not_mem_nil

/-- Initialization puts the whole selected range on the free lists. -/
theorem valid_initializeMemoryDescriptors :
    Valid (initializeMemoryDescriptors boot physicalMemory) [] ∧
      (initializeMemoryDescriptors boot physicalMemory).memoryDescriptorInfo.totalNumberOfPages =
        (selectedRange boot).totalNumberOfPages := by
  obtain ⟨free, hlists, hinfo, -⟩ :=
    initializeMemoryDescriptors_lists boot physicalMemory hpages hstart (M := 0)
  have hsum := hlists.sum_size
  rw [List.map_nil, List.sum_nil, Nat.add_zero] at hsum
  refine ⟨⟨?_, by simp, free, ?_, ?_⟩, by rw [hinfo]⟩
  · rw [hinfo]
    exact hstart
  · rw [hinfo]
    exact hlists
  · rw [hinfo, hsum]
    exact (selectedRange_spec boot).2

end

end PhysicalMemoryManager

end TwistedOS
