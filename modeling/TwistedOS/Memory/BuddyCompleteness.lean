import TwistedOS.Memory.AllocatedPages
import TwistedOS.Memory.BuddyRuns

/-!
# Completeness of the buddy allocator

Freeing a block merges it with its buddy for as long as the buddy is free, so that no two buddies of
an order below the largest one are ever free at the same time. Hence an allocation succeeds whenever
an aligned run of free pages is long enough, and once all allocations have been freed the free lists
have the blocks that they had at first.

The address `0` of the managed range doubles as the mark of an allocator without a range: a range
that starts there is never used.

## Main definitions

* `PhysicalMemoryManager.OnFreeList`, `PhysicalMemoryManager.HasFreeRun`.
* `PhysicalMemoryManager.Complete`: what holds in every state of a run.

## Main results

* `PhysicalMemoryManager.Run.coalescedInvariant`
* `PhysicalMemoryManager.Run.allocationComplete`
* `PhysicalMemoryManager.not_allocationComplete`
-/

namespace TwistedOS

namespace PhysicalMemoryManager

/-- The block of order `k` at page `i` is on the free list of its order. -/
def OnFreeList (m : PhysicalMemoryManager) (k i : ℕ) : Prop :=
  ∃ l : List ℕ,
    LinkedChain m.physicalMemory 0 (m.buddyFreeLists k) (l.map m.pageAddress) ∧ i ∈ l

/-- Some aligned run of `2 ^ k` pages consists of free pages. -/
def HasFreeRun (m : PhysicalMemoryManager) (k : ℕ) : Prop :=
  ∃ i, pagesForOrder k ∣ i ∧ ∀ j, i ≤ j → j < i + pagesForOrder k → m.PageFree j

/-- Allocation is complete in a state that was reached from a boot memory map. -/
structure Complete (boot : BootMemoryMap) (m : PhysicalMemoryManager) (live : List Allocation) :
    Prop where
  noFreeBuddies : ∀ k < m.buddyMaxOrder, ∀ i, m.OnFreeList k i →
    ¬ m.OnFreeList k (i ^^^ pagesForOrder k)
  allocates_iff : ∀ pages, pages ≠ 0 → ceilLog2Pages pages ≤ m.buddyMaxOrder →
    ((m.allocatePagesFromDescriptor pages).2 ≠ 0 ↔ m.HasFreeRun (ceilLog2Pages pages))
  unchanged : ∀ pages, (m.allocatePagesFromDescriptor pages).2 = 0 →
    (m.allocatePagesFromDescriptor pages).1 = m
  /-- After everything has been freed, the blocks of the boot state are free. -/
  restored : live = [] → ∀ physicalMemory, ∀ k < maxBuddyOrders, ∀ i,
    m.OnFreeList k i ↔ (initializeMemoryDescriptors boot physicalMemory).OnFreeList k i

/-! ### The blocks on the free lists -/

namespace FreeLists

variable {m : PhysicalMemoryManager} {n : ℕ} {free : ℕ → List ℕ} {held : List DyadicBlock}

theorem onFreeList_iff (h : FreeLists m n free held) {k i : ℕ} (hk : k < maxBuddyOrders) :
    m.OnFreeList k i ↔ (⟨i, k⟩ : DyadicBlock) ∈ freeBlocks free := by
  rw [mem_freeBlocks]
  constructor
  · rintro ⟨l, hl, hi⟩
    have hsame := hl.unique (h.chain k hk)
    rw [List.map_inj_right fun _ _ hij => m.pageAddress_injective hij] at hsame
    exact ⟨hk, hsame ▸ hi⟩
  · rintro ⟨-, hi⟩
    exact ⟨free k, h.chain k hk, hi⟩

/-- No free block has more pages than the range. -/
theorem order_le_floorLog2Pages (h : FreeLists m n free held) (hn : n < 2 ^ 51) :
    ∀ b ∈ freeBlocks free, b.order ≤ floorLog2Pages n := by
  intro b hb
  have hend : b.start + 2 ^ b.order ≤ n := h.tiles.end_le (List.mem_append_left _ hb)
  have hlt : 2 ^ b.order < 2 ^ (floorLog2Pages n + 1) :=
    (Nat.le_of_add_left_le hend).trans_lt (lt_two_pow_floorLog2Pages hn)
  exact Nat.lt_succ_iff.mp ((Nat.pow_lt_pow_iff_right (by decide)).mp hlt)

end FreeLists

/-- One page is refused only if none is free. -/
theorem Valid.numberOfFreePages_eq_zero {live : List DyadicBlock} (h : Valid m live)
    (hfit : m.buddyMaxOrder = floorLog2Pages m.memoryDescriptorInfo.totalNumberOfPages)
    (hend : m.pageAddress m.memoryDescriptorInfo.totalNumberOfPages ≤ pmmBuddyPhysicalLimit)
    (hfails : m.allocatePagesFromDescriptor 1 = (m, 0)) :
    m.memoryDescriptorInfo.numberOfFreePages = 0 := by
  obtain ⟨free, hlists, -⟩ := h.free
  rcases h.allocate_lists hlists 1 with ⟨-, hzero | hfew | hempty⟩ | ⟨m', k, -, hcall, -⟩
  · exact absurd hzero one_ne_zero
  · omega
  · have hlt : m.memoryDescriptorInfo.totalNumberOfPages < 2 ^ 51 := by
      simp only [pmmBuddyPhysicalLimit, pageAddress, pageSize] at hend
      omega
    have hnil : freeBlocks free = [] := by
      refine List.eq_nil_iff_forall_not_mem.mpr fun b hb => ?_
      have horder := hlists.order_le_floorLog2Pages hlt b hb
      rw [← hfit] at horder
      have hstart := (mem_freeBlocks.mp hb).2
      rw [hempty b.order (Nat.zero_le _) horder] at hstart
      exact List.not_mem_nil hstart
    rw [h.numberOfFreePages_eq hlists, hnil, List.map_nil, List.sum_nil]
  · rw [hfails, Prod.mk.injEq] at hcall
    exact absurd hcall.2.symm (hlists.pageAddress_ne_zero k)

/-! ### Runs without free buddies -/

/-- The allocator manages the range that was selected from the boot memory map. -/
structure ManagesRange (boot : BootMemoryMap) (m : PhysicalMemoryManager) : Prop where
  start : m.memoryDescriptorInfo.physicalAddressStart = (selectedRange boot).physicalAddressStart
  total : m.memoryDescriptorInfo.totalNumberOfPages = (selectedRange boot).totalNumberOfPages
  maxOrder : m.buddyMaxOrder = floorLog2Pages (selectedRange boot).totalNumberOfPages

theorem ManagesRange.keeps {boot : BootMemoryMap} {m m' : PhysicalMemoryManager}
    {held : List DyadicBlock} (h : ManagesRange boot m) (hkeeps : Keeps m m' held) :
    ManagesRange boot m' :=
  ⟨hkeeps.start.trans h.start, hkeeps.total.trans h.total, hkeeps.maxOrder.trans h.maxOrder⟩

/-- What a run preserves: no two buddies of an order below the largest one are free. -/
structure CoalescedInvariant (boot : BootMemoryMap) (m : PhysicalMemoryManager)
    (live : List Allocation) : Prop where
  runInvariant : RunInvariant m live
  range : ManagesRange boot m
  coalesced : ∃ free, FreeLists m m.memoryDescriptorInfo.totalNumberOfPages free
      (live.map m.liveBlock) ∧ Coalesced m.buddyMaxOrder (freeBlocks free)

namespace CoalescedInvariant

variable {boot : BootMemoryMap} {m m' : PhysicalMemoryManager} {live : List Allocation}
  {pages : ℕ}

theorem atBoot (physicalMemory : ℕ → ℕ) (hpages : (selectedRange boot).totalNumberOfPages ≠ 0)
    (hstart : (selectedRange boot).physicalAddressStart ≠ 0) :
    CoalescedInvariant boot (initializeMemoryDescriptors boot physicalMemory) [] := by
  obtain ⟨free, hlists, hinfo, hmax, hc⟩ :=
    initializeMemoryDescriptors_lists boot physicalMemory hpages hstart
  refine ⟨.boot physicalMemory hpages hstart, ⟨by rw [hinfo], by rw [hinfo], hmax⟩, free, ?_, hc⟩
  rw [hinfo]
  exact hlists

section

variable (h : CoalescedInvariant boot m live)

include h

theorem allocate {a : ℕ} (hcall : m.allocatePagesFromDescriptor pages = (m', a)) (ha : a ≠ 0) :
    CoalescedInvariant boot m' (⟨a, pages⟩ :: live) := by
  obtain ⟨free, hlists, hc⟩ := h.coalesced
  rcases h.runInvariant.valid.allocate_lists hlists pages with
    ⟨hfail, -⟩ | ⟨m₁, i, free', hok, -, hkeeps, hlists', hcoalesced⟩
  · exact absurd (Prod.mk.inj (hcall.symm.trans hfail)).2 ha
  · obtain ⟨rfl, rfl⟩ := Prod.mk.inj (hok.symm.trans hcall)
    refine ⟨h.runInvariant.allocate hcall ha, h.range.keeps hkeeps, free', ?_,
      hcoalesced hc⟩
    have hblock : m₁.liveBlock ⟨m.pageAddress i, pages⟩ = ⟨i, ceilLog2Pages pages⟩ := by
      rw [hkeeps.liveBlock]
      simp only [liveBlock, pageAddress_sub_div]
    rw [List.map_cons, hblock, hkeeps.liveBlock]
    exact hlists'

theorem allocateFails (hcall : m.allocatePagesFromDescriptor pages = (m', 0)) :
    CoalescedInvariant boot m' live := by
  rcases h.runInvariant.valid.allocate pages with hfail | ⟨m₁, i, hok, -, -⟩
  · obtain ⟨rfl, -⟩ := Prod.mk.inj (hfail.symm.trans hcall)
    exact h
  · obtain ⟨free, hlists, -⟩ := h.coalesced
    exact absurd (Prod.mk.inj (hok.symm.trans hcall)).2 (hlists.pageAddress_ne_zero i)

theorem free {x : Allocation} (hx : x ∈ live) {fuel : ℕ}
    (hfuel : m.memoryDescriptorInfo.totalNumberOfPages < fuel) :
    ∃ m', freePagesFromDescriptor fuel m x.address x.pages = some (m', true) ∧
      CoalescedInvariant boot m' (live.erase x) := by
  obtain ⟨free, hlists, hc⟩ := h.coalesced
  have hperm := (List.perm_cons_erase hx).map m.liveBlock
  obtain ⟨m', free', hcall, -, hkeeps, hlists', hcoalesced⟩ :=
    (h.runInvariant.valid.perm hperm).free_cons_lists (hlists.perm hperm)
      (Nat.pos_iff_ne_zero.mp (h.runInvariant.pages x hx).1) rfl hfuel
  have haddr : m.pageAddress (m.liveBlock x).start = x.address :=
    (h.runInvariant.address x hx).symm
  obtain ⟨m₁, hcall₁, hinv⟩ := h.runInvariant.free hx hfuel
  have hcall' : freePagesFromDescriptor fuel m x.address x.pages = some (m', true) := haddr ▸ hcall
  obtain ⟨rfl, -⟩ := Prod.mk.inj (Option.some.inj (hcall₁.symm.trans hcall'))
  refine ⟨m₁, hcall₁, hinv, h.range.keeps hkeeps, free', ?_, hcoalesced hc⟩
  rw [hkeeps.liveBlock]
  exact hlists'

theorem write {memory : ℕ → ℕ}
    (hown : ∀ a, (∀ x ∈ live, ¬ (x.address ≤ a ∧ a < x.block.endAddress)) →
      memory a = m.physicalMemory a) :
    CoalescedInvariant boot { m with physicalMemory := memory } live := by
  obtain ⟨free, hlists, hc⟩ := h.coalesced
  exact ⟨h.runInvariant.write hown, ⟨h.range.start, h.range.total, h.range.maxOrder⟩, free,
    hlists.write fun _ => h.runInvariant.memory_eq_of_notMem hown, hc⟩

end

end CoalescedInvariant

/-- The invariant holds in every state of a run. -/
theorem Run.coalescedInvariant {boot : BootMemoryMap} {m : PhysicalMemoryManager}
    {live : List Allocation} (hpages : (selectedRange boot).totalNumberOfPages ≠ 0)
    (hstart : (selectedRange boot).physicalAddressStart ≠ 0) (h : Run boot m live) :
    CoalescedInvariant boot m live :=
  h.of_keeps
    { start := fun memory => .atBoot memory hpages hstart
      allocate := fun h hcall ha => h.allocate hcall ha
      allocateFails := fun h hcall => h.allocateFails hcall
      free := fun h hx _ hfuel => h.free hx hfuel
      write := fun h hown => h.write hown }

/-! ### Completeness -/

namespace CoalescedInvariant

variable {boot : BootMemoryMap} {m : PhysicalMemoryManager} {live : List Allocation} {pages : ℕ}

section

variable (h : CoalescedInvariant boot m live)

include h

theorem noFreeBuddies {k i : ℕ} (hk : k < m.buddyMaxOrder) (hi : m.OnFreeList k i) :
    ¬ m.OnFreeList k (i ^^^ pagesForOrder k) := by
  obtain ⟨free, hlists, hc⟩ := h.coalesced
  have horder := hk.trans hlists.maxOrder_lt
  rw [hlists.onFreeList_iff horder] at hi ⊢
  exact hc _ hi hk

/-- A block that an allocation returns was a run of free pages. -/
theorem hasFreeRun_of_allocates (hcall : (m.allocatePagesFromDescriptor pages).2 ≠ 0) :
    m.HasFreeRun (ceilLog2Pages pages) := by
  rcases h.runInvariant.valid.allocate pages with hfail | ⟨m', i, -, hvalid, hkeeps⟩
  · rw [hfail] at hcall
    exact absurd rfl hcall
  · have hend := hvalid.end_le (b := ⟨i, ceilLog2Pages pages⟩) List.mem_cons_self
    rw [hkeeps.total] at hend
    refine ⟨i, hvalid.aligned ⟨i, ceilLog2Pages pages⟩ List.mem_cons_self, fun j hij hj => ?_⟩
    refine (h.runInvariant.valid.pageFree_iff j).mpr ⟨hj.trans_le hend, fun b hb hbj => ?_⟩
    obtain ⟨free, hlists, -⟩ := hvalid.free
    have hpairwise := (List.pairwise_append.mp hlists.tiles.pairwise_disjoint).2.1
    have hdisj := List.rel_of_pairwise_cons hpairwise hb
    simp only [DyadicBlock.Disjoint, DyadicBlock.size_mk] at hdisj
    simp only [DyadicBlock.Contains] at hbj
    simp only [pagesForOrder] at hj
    omega

/-- A run of free pages lies in one free block, which an allocation finds. -/
theorem allocates_of_hasFreeRun (hpages : pages ≠ 0)
    (horder : ceilLog2Pages pages ≤ m.buddyMaxOrder) (hrun : m.HasFreeRun (ceilLog2Pages pages)) :
    (m.allocatePagesFromDescriptor pages).2 ≠ 0 := by
  obtain ⟨free, hlists, hc⟩ := h.coalesced
  have htotal := h.runInvariant.total_lt
  have hlarge := hlists.order_le_floorLog2Pages htotal
  obtain ⟨i, hdvd, hfree⟩ := hrun
  obtain ⟨b, hb, hle, -⟩ := hc.exists_covers
    (fun b hb => hlists.tiles.aligned b (List.mem_append_left _ hb)) horder hdvd fun j hij hj => by
      have hpage := (h.runInvariant.valid.pageFree_iff j).mp (hfree j hij hj)
      obtain ⟨b, hb, hbj⟩ := (hlists.tiles.exists_contains_iff j).mpr hpage.1
      rcases List.mem_append.mp hb with hb | hb
      · exact ⟨b, hb, hbj⟩
      · exact absurd hbj (hpage.2 b hb)
  obtain ⟨hlast, hstart⟩ := mem_freeBlocks.mp hb
  rcases h.runInvariant.valid.allocate_lists hlists pages with
    ⟨-, hzero | hfew | hnone⟩ | ⟨m', j, -, hok, -⟩
  · exact absurd hzero hpages
  · have hpos : 0 < (selectedRange boot).totalNumberOfPages := by
      have hend := hlists.tiles.end_le (List.mem_append_left _ hb)
      have hsize := b.size_pos
      rw [h.range.total] at hend
      omega
    have hmax : m.buddyMaxOrder < maxBuddyOrders - 1 := by
      rw [h.range.total] at htotal
      rw [h.range.maxOrder]
      exact (Nat.pow_lt_pow_iff_right (by decide)).mp
        ((two_pow_floorLog2Pages_le hpos).trans_lt htotal)
    have hroom := le_two_pow_of_ceilLog2Pages_lt (horder.trans_lt hmax)
    have hsize : b.size ≤ ((freeBlocks free).map DyadicBlock.size).sum :=
      List.single_le_sum (by simp) _ (List.mem_map_of_mem hb)
    have hpow := Nat.pow_le_pow_right two_pos hle
    rw [← h.runInvariant.valid.numberOfFreePages_eq hlists] at hsize
    simp only [DyadicBlock.size] at hsize
    omega
  · have hbmax : b.order ≤ m.buddyMaxOrder := by
      rw [h.range.maxOrder, ← h.range.total]
      exact hlarge b hb
    rw [hnone b.order hle hbmax] at hstart
    exact absurd hstart List.not_mem_nil
  · rw [hok]
    exact hlists.pageAddress_ne_zero j

end

/-- The free blocks of a state without allocations are determined by the range. -/
theorem onFreeList_of_nil {m' : PhysicalMemoryManager} (h : CoalescedInvariant boot m [])
    (h' : CoalescedInvariant boot m' []) {k i : ℕ} (hk : k < maxBuddyOrders)
    (hi : m.OnFreeList k i) : m'.OnFreeList k i := by
  obtain ⟨free, hlists, hc⟩ := h.coalesced
  obtain ⟨free', hlists', hc'⟩ := h'.coalesced
  have hlarge := hlists.order_le_floorLog2Pages h.runInvariant.total_lt
  have hlarge' := hlists'.order_le_floorLog2Pages h'.runInvariant.total_lt
  rw [hlists.onFreeList_iff hk] at hi
  rw [hlists'.onFreeList_iff hk]
  have htiles := hlists.tiles
  have htiles' := hlists'.tiles
  rw [List.map_nil, List.append_nil, h.range.total] at htiles
  rw [List.map_nil, List.append_nil, h'.range.total] at htiles'
  rw [h.range.total, ← h.range.maxOrder] at hlarge
  rw [h'.range.total, ← h.range.maxOrder] at hlarge'
  rw [h'.range.maxOrder, ← h.range.maxOrder] at hc'
  exact hc.mem_of_tiles hc' htiles htiles' hlarge hlarge' hi

end CoalescedInvariant

/-! ### Boot memory maps without a range -/

private theorem initializeMemoryDescriptors_of_empty {boot : BootMemoryMap}
    (hnone : (selectedRange boot).totalNumberOfPages = 0) (physicalMemory : ℕ → ℕ) :
    initializeMemoryDescriptors boot physicalMemory =
      ⟨selectedRange boot, fun _ => 0, 0, physicalMemory⟩ := by
  change initializeBuddyAllocator ⟨selectedRange boot, fun _ => 0, 0, physicalMemory⟩ = _
  simp [initializeBuddyAllocator, hnone]

private theorem allocate_of_empty {m : PhysicalMemoryManager}
    (hfree : m.memoryDescriptorInfo.numberOfFreePages = 0) (pages : ℕ) :
    m.allocatePagesFromDescriptor pages = (m, 0) := by
  simp only [allocatePagesFromDescriptor]
  split_ifs
  · rfl
  · rfl
  · rfl
  · rfl
  · omega

private theorem notMem_of_nullHead {m : PhysicalMemoryManager} {k i : ℕ} {l : List ℕ}
    (hhead : m.buddyFreeLists k = 0)
    (hl : LinkedChain m.physicalMemory 0 (m.buddyFreeLists k) (l.map m.pageAddress)) : i ∉ l := by
  rw [hhead] at hl
  rw [List.map_eq_nil_iff.mp hl.eq_nil_of_null]
  exact List.not_mem_nil

/-- Without a range nothing is ever allocated. -/
private theorem Run.eq_boot {boot : BootMemoryMap} {m : PhysicalMemoryManager}
    {live : List Allocation} (hnone : (selectedRange boot).totalNumberOfPages = 0)
    (h : Run boot m live) :
    live = [] ∧ ∃ physicalMemory, m = initializeMemoryDescriptors boot physicalMemory := by
  have hfails (physicalMemory : ℕ → ℕ) (pages : ℕ) :
      (initializeMemoryDescriptors boot physicalMemory).allocatePagesFromDescriptor pages =
        (initializeMemoryDescriptors boot physicalMemory, 0) := by
    refine allocate_of_empty ?_ pages
    rw [initializeMemoryDescriptors_of_empty hnone]
    exact (selectedRange_spec boot).2.trans hnone
  induction h with
  | boot physicalMemory => exact ⟨rfl, physicalMemory, rfl⟩
  | allocate pages _ hcall ha ih =>
    obtain ⟨-, physicalMemory, rfl⟩ := ih
    rw [hfails] at hcall
    exact absurd (Prod.mk.inj hcall).2.symm ha
  | allocateFails pages _ hcall ih =>
    obtain ⟨hlive, physicalMemory, rfl⟩ := ih
    rw [hfails] at hcall
    exact ⟨hlive, physicalMemory, (Prod.mk.inj hcall).1.symm⟩
  | free fuel _ hx hcall ih =>
    obtain ⟨rfl, -⟩ := ih
    exact absurd hx List.not_mem_nil
  | write physicalMemory _ hown ih =>
    obtain ⟨hlive, before, rfl⟩ := ih
    refine ⟨hlive, physicalMemory, ?_⟩
    simp only [initializeMemoryDescriptors_of_empty hnone]

private theorem complete_of_empty {boot : BootMemoryMap} (physicalMemory : ℕ → ℕ)
    (hnone : (selectedRange boot).totalNumberOfPages = 0) :
    Complete boot (initializeMemoryDescriptors boot physicalMemory) [] := by
  have hfree : (selectedRange boot).numberOfFreePages = 0 :=
    (selectedRange_spec boot).2.trans hnone
  simp only [initializeMemoryDescriptors_of_empty hnone]
  refine ⟨fun k hk => absurd hk (Nat.not_lt_zero k), fun pages hpages _ => ?_, fun pages _ => ?_,
    fun _ physicalMemory' k _ i => ?_⟩
  · rw [allocate_of_empty hfree]
    refine iff_of_false (fun h => h rfl) ?_
    rintro ⟨i, -, hrun⟩
    have hpos : 0 < pagesForOrder (ceilLog2Pages pages) := Nat.two_pow_pos _
    obtain ⟨order, -, l, hl, j, hj, -⟩ := hrun i le_rfl (by omega)
    exact notMem_of_nullHead rfl hl hj
  · rw [allocate_of_empty hfree]
  · rw [initializeMemoryDescriptors_of_empty hnone]
    refine iff_of_false ?_ ?_
    · rintro ⟨l, hl, hi⟩
      exact notMem_of_nullHead rfl hl hi
    · rintro ⟨l, hl, hi⟩
      exact notMem_of_nullHead rfl hl hi

/-! ### All runs -/

/-- In every state of a run allocation is complete: a request for pages that fits into an aligned run
of free pages is served, and one that does not fit changes nothing. -/
theorem Run.allocationComplete {boot : BootMemoryMap} {m : PhysicalMemoryManager}
    {live : List Allocation}
    (hstart : (selectedRange boot).totalNumberOfPages ≠ 0 →
      (selectedRange boot).physicalAddressStart ≠ 0)
    (h : Run boot m live) : Complete boot m live := by
  by_cases hnone : (selectedRange boot).totalNumberOfPages = 0
  · obtain ⟨rfl, physicalMemory, rfl⟩ := h.eq_boot hnone
    exact complete_of_empty physicalMemory hnone
  · have hinv := h.coalescedInvariant hnone (hstart hnone)
    refine ⟨fun k hk i hi => hinv.noFreeBuddies hk hi, fun pages hpages horder =>
      ⟨hinv.hasFreeRun_of_allocates, hinv.allocates_of_hasFreeRun hpages horder⟩, ?_, ?_⟩
    · intro pages hfails
      rcases hinv.runInvariant.valid.allocate pages with hsame | ⟨m', i, hok, -, -⟩
      · rw [hsame]
      · obtain ⟨free, hlists, -⟩ := hinv.coalesced
        rw [hok] at hfails
        exact absurd hfails (hlists.pageAddress_ne_zero i)
    · rintro rfl physicalMemory k hk i
      have hboot : CoalescedInvariant boot (initializeMemoryDescriptors boot physicalMemory) [] :=
        .atBoot physicalMemory hnone (hstart hnone)
      exact ⟨hinv.onFreeList_of_nil hboot hk, hboot.onFreeList_of_nil hinv hk⟩

/-- The allocator over seven pages after a request for three pages. -/
theorem Run.allocationComplete_sevenPages :
    Complete sevenPages
      (allocatePagesFromDescriptor (initializeMemoryDescriptors sevenPages fun _ => 0) 3).1
      [⟨0x100000, 3⟩] :=
  @Run.allocationComplete sevenPages _ _ (fun _ => by decide)
    (.allocate 3 (.boot fun _ => 0) (Prod.ext rfl (by decide)) (by decide))

/-- A memory map with one descriptor of seven pages from the address `0` on. -/
def sevenPagesFromZero : BootMemoryMap where
  descriptors := [⟨.conventionalMemory, 0, 7, by decide⟩]
  nextPageAddress := 0
  currentDescriptor := 0
  remainingPagesInDescriptor := 7
  end_lt := by decide

/-- In the boot state over seven pages a request for no page fails although pages are free, and
over seven pages from the address `0` on a request for one page fails although pages are free. -/
theorem not_allocationComplete :
    (ceilLog2Pages 0 ≤ (initializeMemoryDescriptors sevenPages fun _ => 0).buddyMaxOrder ∧
      (allocatePagesFromDescriptor (initializeMemoryDescriptors sevenPages fun _ => 0) 0).2 = 0 ∧
      (initializeMemoryDescriptors sevenPages fun _ => 0).HasFreeRun (ceilLog2Pages 0)) ∧
    ceilLog2Pages 1 ≤ (initializeMemoryDescriptors sevenPagesFromZero fun _ => 0).buddyMaxOrder ∧
      (allocatePagesFromDescriptor
        (initializeMemoryDescriptors sevenPagesFromZero fun _ => 0) 1).2 = 0 ∧
      (initializeMemoryDescriptors sevenPagesFromZero fun _ => 0).HasFreeRun (ceilLog2Pages 1) := by
  refine ⟨⟨by decide, rfl, 6, one_dvd _, fun j hj hlt => ⟨0, by decide, [6], ?_, 6, by simp, ?_⟩⟩,
    by decide, by decide, 6, one_dvd _, fun j hj hlt => ⟨0, by decide, [6], ?_, 6, by simp, ?_⟩⟩
  · exact ⟨by decide, by decide, LinkedChain.nil_iff.mpr (by decide)⟩
  · exact ⟨hj, hlt⟩
  · exact ⟨by decide, by decide, LinkedChain.nil_iff.mpr (by decide)⟩
  · exact ⟨hj, hlt⟩

end PhysicalMemoryManager

end TwistedOS
