import TwistedOS.Memory.BuddyOperations

/-!
# Runs of the buddy allocator

A run starts from `initializeMemoryDescriptors` on a boot memory map and performs any sequence of
allocations and of frees of live allocations; in between, the owners overwrite the memory of their
blocks as they like. In every state of a run the free blocks and the live blocks partition the
managed range, and every free that the run may perform next succeeds.

## Main definitions

* `PhysicalMemoryManager.Allocation`, `PhysicalMemoryManager.Run`.
* `PhysicalMemoryManager.Partitioned`: the free and the live blocks partition the range.

## Main results

* `PhysicalMemoryManager.Run.invariant`, `PhysicalMemoryManager.Run.exists_partition`.
-/

namespace TwistedOS

namespace PhysicalMemoryManager

/-- A successful call of `allocatePagesFromDescriptor` whose pages have not been freed. -/
structure Allocation where
  address : ℕ
  pages : ℕ
  deriving DecidableEq, Repr

/-- A block of physical memory: `2 ^ order` pages from an address on. -/
structure MemoryBlock where
  address : ℕ
  order : ℕ
  deriving DecidableEq, Repr

/-- The first address behind a block. -/
def MemoryBlock.endAddress (b : MemoryBlock) : ℕ := b.address + pagesForOrder b.order * pageSize

/-- The block that an allocation occupies. -/
def Allocation.block (x : Allocation) : MemoryBlock := ⟨x.address, ceilLog2Pages x.pages⟩

/-- The states of the allocator that are reached with the allocations of the list live. -/
inductive Run (boot : BootMemoryMap) : PhysicalMemoryManager → List Allocation → Prop
  | boot (physicalMemory : ℕ → ℕ) :
      Run boot (initializeMemoryDescriptors boot physicalMemory) []
  | allocate {m m' live a} (pages : ℕ) (hrun : Run boot m live)
      (hcall : m.allocatePagesFromDescriptor pages = (m', a)) (ha : a ≠ 0) :
      Run boot m' (⟨a, pages⟩ :: live)
  | allocateFails {m m' live} (pages : ℕ) (hrun : Run boot m live)
      (hcall : m.allocatePagesFromDescriptor pages = (m', 0)) : Run boot m' live
  | free {m m' live x ok} (fuel : ℕ) (hrun : Run boot m live) (hx : x ∈ live)
      (hcall : freePagesFromDescriptor fuel m x.address x.pages = some (m', ok)) :
      Run boot m' (live.erase x)
  | write {m live} (physicalMemory : ℕ → ℕ) (hrun : Run boot m live)
      (hown : ∀ a, (∀ x ∈ live, ¬ (x.address ≤ a ∧ a < x.block.endAddress)) →
        physicalMemory a = m.physicalMemory a) :
      Run boot { m with physicalMemory := physicalMemory } live

/-- The free blocks, given list by list through the addresses `free`, and the live blocks. -/
def allBlocks (free : ℕ → List ℕ) (live : List Allocation) : List MemoryBlock :=
  ((List.range maxBuddyOrders).flatMap fun k => (free k).map fun a => ⟨a, k⟩) ++
    live.map Allocation.block

/-- The lists `free` are the free lists of the allocator, and their blocks together with the live
ones partition the managed range. -/
structure Partitioned (m : PhysicalMemoryManager) (free : ℕ → List ℕ) (live : List Allocation) :
    Prop where
  /-- The free list of an order is a chain in memory, and it contains no block twice. -/
  chain : ∀ k < maxBuddyOrders, LinkedChain m.physicalMemory 0 (m.buddyFreeLists k) (free k)
  nodup : ∀ k < maxBuddyOrders, (free k).Nodup
  disjoint : (allBlocks free live).Pairwise fun b c =>
    b.endAddress ≤ c.address ∨ c.endAddress ≤ b.address
  aligned : ∀ b ∈ allBlocks free live, ∃ q,
    b.address = m.memoryDescriptorInfo.physicalAddressStart +
      q * (pagesForOrder b.order * pageSize)
  cover : ∀ a, (∃ b ∈ allBlocks free live, b.address ≤ a ∧ a < b.endAddress) ↔
    m.memoryDescriptorInfo.physicalAddressStart ≤ a ∧
      a < m.memoryDescriptorInfo.physicalAddressStart +
        m.memoryDescriptorInfo.totalNumberOfPages * pageSize
  /-- The block of an allocation has room for the pages asked for. -/
  room : ∀ x ∈ live, 0 < x.pages ∧ x.pages ≤ pagesForOrder x.block.order
  count : m.memoryDescriptorInfo.numberOfFreePages =
    ((List.range maxBuddyOrders).map fun k => (free k).length * pagesForOrder k).sum

/-! ### Valid states along a run -/

/-- The block of an allocation in terms of page indices. -/
def liveBlock (m : PhysicalMemoryManager) (x : Allocation) : DyadicBlock :=
  ⟨(x.address - m.memoryDescriptorInfo.physicalAddressStart) / pageSize, ceilLog2Pages x.pages⟩

/-- What a run preserves: the state is valid, the allocations are pages of the range, and the range
has fewer than `2 ^ 51` pages, so that rounding up an order never fails. -/
structure RunInvariant (m : PhysicalMemoryManager) (live : List Allocation) : Prop where
  valid : Valid m (live.map m.liveBlock)
  address : ∀ x ∈ live, x.address = m.pageAddress (m.liveBlock x).start
  pages : ∀ x ∈ live, 0 < x.pages ∧ x.pages < 2 ^ 51
  total_lt : m.memoryDescriptorInfo.totalNumberOfPages < 2 ^ 51

theorem Agrees.liveBlock {m m' : PhysicalMemoryManager} {n : ℕ} {held : List DyadicBlock}
    (h : Agrees m m' n held) : m'.liveBlock = m.liveBlock := by
  funext x
  simp only [PhysicalMemoryManager.liveBlock, h.start]

namespace RunInvariant

variable {m m' : PhysicalMemoryManager} {live : List Allocation}

theorem boot {boot : BootMemoryMap} (physicalMemory : ℕ → ℕ)
    (hpages : (selectedRange boot).totalNumberOfPages ≠ 0)
    (hstart : (selectedRange boot).physicalAddressStart ≠ 0) :
    RunInvariant (initializeMemoryDescriptors boot physicalMemory) [] := by
  obtain ⟨hvalid, htotal⟩ := valid_initializeMemoryDescriptors boot physicalMemory hpages hstart
  have hlimit := (selectedRange_spec boot).1
  refine ⟨hvalid, by simp, by simp, ?_⟩
  rw [htotal]
  simp only [pageSize, pmmBuddyPhysicalLimit] at hlimit
  omega

private theorem lt_of_allocate {pages a : ℕ}
    (hcall : m.allocatePagesFromDescriptor pages = (m', a)) (ha : a ≠ 0) :
    0 < pages ∧ pages ≤ m.memoryDescriptorInfo.numberOfFreePages := by
  unfold allocatePagesFromDescriptor at hcall
  split_ifs at hcall with hpages hbitMap hfew
  · exact absurd (Prod.mk.inj hcall).2.symm ha
  · exact absurd (Prod.mk.inj hcall).2.symm ha
  · exact absurd (Prod.mk.inj hcall).2.symm ha
  · omega

section

variable (h : RunInvariant m live)

include h

theorem allocate {pages a : ℕ} (hcall : m.allocatePagesFromDescriptor pages = (m', a))
    (ha : a ≠ 0) : RunInvariant m' (⟨a, pages⟩ :: live) := by
  have hfree := h.valid.numberOfFreePages_add
  have htotal := h.total_lt
  obtain ⟨hpos, hle⟩ := lt_of_allocate hcall ha
  rcases h.valid.allocate pages with hfail | ⟨m₁, i, hok, hvalid, hkeeps⟩
  · exact absurd (Prod.mk.inj (hcall.symm.trans hfail)).2 ha
  · obtain ⟨rfl, rfl⟩ := Prod.mk.inj (hok.symm.trans hcall)
    have hblock : m₁.liveBlock ⟨m.pageAddress i, pages⟩ = ⟨i, ceilLog2Pages pages⟩ := by
      rw [hkeeps.liveBlock]
      simp only [liveBlock, pageAddress_sub_div]
    refine ⟨?_, ?_, ?_, by rwa [hkeeps.total]⟩
    · rw [List.map_cons, hblock, hkeeps.liveBlock]
      exact hvalid
    · rw [List.forall_mem_cons, hblock, hkeeps.liveBlock, hkeeps.pageAddress]
      exact ⟨rfl, h.address⟩
    · simp only [List.forall_mem_cons]
      exact ⟨⟨hpos, by omega⟩, h.pages⟩

theorem allocateFails {pages : ℕ} (hcall : m.allocatePagesFromDescriptor pages = (m', 0)) :
    RunInvariant m' live := by
  rcases h.valid.allocate pages with hfail | ⟨m₁, i, hok, -, -⟩
  · obtain ⟨rfl, -⟩ := Prod.mk.inj (hfail.symm.trans hcall)
    exact h
  · obtain ⟨free, hlists, -⟩ := h.valid.free
    exact absurd (Prod.mk.inj (hok.symm.trans hcall)).2 (hlists.pageAddress_ne_zero i)

/-- Freeing a live allocation succeeds and preserves the invariant. -/
theorem free {x : Allocation} (hx : x ∈ live) {fuel : ℕ}
    (hfuel : m.memoryDescriptorInfo.totalNumberOfPages < fuel) :
    ∃ m', freePagesFromDescriptor fuel m x.address x.pages = some (m', true) ∧
      RunInvariant m' (live.erase x) := by
  have hvalid := h.valid.perm ((List.perm_cons_erase hx).map m.liveBlock)
  obtain ⟨m', hcall, hvalid', hkeeps⟩ :=
    hvalid.free_cons (Nat.pos_iff_ne_zero.mp (h.pages x hx).1) rfl hfuel
  refine ⟨m', ?_, ?_, ?_, ?_, ?_⟩
  · rw [h.address x hx]
    exact hcall
  · rw [hkeeps.liveBlock]
    exact hvalid'
  · intro y hy
    rw [hkeeps.liveBlock, hkeeps.pageAddress]
    exact h.address y (List.mem_of_mem_erase hy)
  · exact fun y hy => h.pages y (List.mem_of_mem_erase hy)
  · rw [hkeeps.total]
    exact h.total_lt

/-- What the owners leave alone includes everything outside the live blocks. -/
theorem memory_eq_of_notMem {memory : ℕ → ℕ}
    (hown : ∀ a, (∀ x ∈ live, ¬ (x.address ≤ a ∧ a < x.block.endAddress)) →
      memory a = m.physicalMemory a) {a : ℕ} (ha : ∀ b ∈ live.map m.liveBlock, ¬ m.InBlock b a) :
    memory a = m.physicalMemory a := by
  refine hown a fun x hx hin => ha (m.liveBlock x) (List.mem_map_of_mem hx) ?_
  have haddr := h.address x hx
  simp only [MemoryBlock.endAddress, Allocation.block, pagesForOrder] at hin
  simp only [InBlock, ← haddr]
  refine ⟨hin.1, hin.2.trans_le ?_⟩
  rw [haddr]
  simp only [pageAddress, DyadicBlock.size, liveBlock, Nat.add_mul]
  omega

theorem write {memory : ℕ → ℕ}
    (hown : ∀ a, (∀ x ∈ live, ¬ (x.address ≤ a ∧ a < x.block.endAddress)) →
      memory a = m.physicalMemory a) : RunInvariant { m with physicalMemory := memory } live :=
  ⟨h.valid.write fun _ => h.memory_eq_of_notMem hown, h.address, h.pages, h.total_lt⟩

end

end RunInvariant

/-! ### Calls that return -/

/-- The walk along a free list has the same result for every number of steps that suffices. -/
theorem removeBlockLoop_mono {m : PhysicalMemoryManager} {order a fuel fuel' previous current : ℕ}
    {r : PhysicalMemoryManager × Bool} (hle : fuel ≤ fuel')
    (h : m.removeBlockLoop order a fuel previous current = some r) :
    m.removeBlockLoop order a fuel' previous current = some r := by
  induction fuel generalizing fuel' previous current with
  | zero => simp [removeBlockLoop] at h
  | succ fuel ih =>
    obtain ⟨fuel', rfl⟩ : ∃ f, fuel' = f + 1 := ⟨fuel' - 1, by omega⟩
    simp only [removeBlockLoop] at h ⊢
    split_ifs at h ⊢
    · exact h
    · exact h
    · exact h
    · exact ih (Nat.le_of_succ_le_succ hle) h

theorem mergeLoop_mono {m : PhysicalMemoryManager} {fuel fuel' steps address order : ℕ}
    {r : PhysicalMemoryManager × ℕ × ℕ} (hle : fuel ≤ fuel')
    (h : mergeLoop fuel steps m address order = some r) :
    mergeLoop fuel' steps m address order = some r := by
  induction steps generalizing m address order with
  | zero => exact h
  | succ steps ih =>
    simp only [mergeLoop] at h ⊢
    generalize (address - m.memoryDescriptorInfo.physicalAddressStart) / pageSize ^^^
      pagesForOrder order = buddy at h ⊢
    by_cases hrange : m.memoryDescriptorInfo.totalNumberOfPages < u64 (buddy + pagesForOrder order)
    · rw [if_pos hrange] at h ⊢
      exact h
    · rw [if_neg hrange] at h ⊢
      generalize u64 (m.memoryDescriptorInfo.physicalAddressStart + buddy * pageSize) = b at h ⊢
      cases hremove : removeBlockFromFreeList fuel m order b with
      | none => simp [hremove] at h
      | some p =>
        have hremove' : removeBlockFromFreeList fuel' m order b = some p :=
          removeBlockLoop_mono hle hremove
        rw [hremove] at h
        rw [hremove']
        obtain ⟨m₁, found⟩ := p
        cases found with
        | false => exact h
        | true => exact ih h

theorem freePagesFromDescriptor_mono {m : PhysicalMemoryManager} {fuel fuel' a pages : ℕ}
    {r : PhysicalMemoryManager × Bool} (hle : fuel ≤ fuel')
    (h : freePagesFromDescriptor fuel m a pages = some r) :
    freePagesFromDescriptor fuel' m a pages = some r := by
  simp only [freePagesFromDescriptor] at h ⊢
  split_ifs at h ⊢
  all_goals first | exact h | skip
  cases hmerge : mergeLoop fuel (m.buddyMaxOrder - ceilLog2Pages pages) m a
      (ceilLog2Pages pages) with
  | none => simp [hmerge] at h
  | some p =>
    rw [hmerge] at h
    rw [mergeLoop_mono hle hmerge]
    exact h

/-! ### The partition -/

/-- What holds after the start of the system and is kept by every call of a run. -/
structure Run.Keeps (boot : BootMemoryMap) (P : PhysicalMemoryManager → List Allocation → Prop) :
    Prop where
  start : ∀ physicalMemory, P (initializeMemoryDescriptors boot physicalMemory) []
  allocate {m m' live pages a} : P m live → m.allocatePagesFromDescriptor pages = (m', a) → a ≠ 0 →
    P m' (⟨a, pages⟩ :: live)
  allocateFails {m m' live pages} : P m live → m.allocatePagesFromDescriptor pages = (m', 0) →
    P m' live
  free {m live x} : P m live → x ∈ live → ∀ {fuel},
    m.memoryDescriptorInfo.totalNumberOfPages < fuel →
      ∃ m', freePagesFromDescriptor fuel m x.address x.pages = some (m', true) ∧ P m' (live.erase x)
  write {m live memory} : P m live →
    (∀ a, (∀ x ∈ live, ¬ (x.address ≤ a ∧ a < x.block.endAddress)) →
      memory a = m.physicalMemory a) → P { m with physicalMemory := memory } live

/-- What every call keeps holds in every state of a run. -/
theorem Run.of_keeps {boot : BootMemoryMap} {m : PhysicalMemoryManager} {live : List Allocation}
    {P : PhysicalMemoryManager → List Allocation → Prop} (hkeeps : Run.Keeps boot P)
    (h : Run boot m live) : P m live := by
  induction h with
  | boot physicalMemory => exact hkeeps.start physicalMemory
  | allocate pages _ hcall ha ih => exact hkeeps.allocate ih hcall ha
  | allocateFails pages _ hcall ih => exact hkeeps.allocateFails ih hcall
  | @free m m' live x ok fuel _ hx hcall ih =>
    obtain ⟨m₁, hfree, hinv⟩ := hkeeps.free ih hx (show
      m.memoryDescriptorInfo.totalNumberOfPages <
        max fuel (m.memoryDescriptorInfo.totalNumberOfPages + 1) by omega)
    have hcall' := freePagesFromDescriptor_mono
      (Nat.le_max_left fuel (m.memoryDescriptorInfo.totalNumberOfPages + 1)) hcall
    obtain ⟨rfl, -⟩ := Prod.mk.inj (Option.some.inj (hfree.symm.trans hcall'))
    exact hinv
  | write physicalMemory _ hown ih => exact hkeeps.write ih hown

/-- The invariant holds in every state of a run. -/
theorem Run.invariant {boot : BootMemoryMap} {m : PhysicalMemoryManager} {live : List Allocation}
    (hpages : (selectedRange boot).totalNumberOfPages ≠ 0)
    (hstart : (selectedRange boot).physicalAddressStart ≠ 0) (h : Run boot m live) :
    RunInvariant m live :=
  h.of_keeps
    { start := fun memory => .boot memory hpages hstart
      allocate := fun h hcall ha => h.allocate hcall ha
      allocateFails := fun h hcall => h.allocateFails hcall
      free := fun h hx _ hfuel => h.free hx hfuel
      write := fun h hown => h.write hown }

/-- The memory block of a block of page indices. -/
private def memoryBlock (m : PhysicalMemoryManager) (b : DyadicBlock) : MemoryBlock :=
  ⟨m.pageAddress b.start, b.order⟩

private theorem endAddress_memoryBlock (m : PhysicalMemoryManager) (b : DyadicBlock) :
    (m.memoryBlock b).endAddress = m.pageAddress (b.start + b.size) := by
  simp only [MemoryBlock.endAddress, memoryBlock, pageAddress, pagesForOrder, DyadicBlock.size]
  ring

private theorem allBlocks_eq {m : PhysicalMemoryManager} {live : List Allocation}
    (h : RunInvariant m live) (free : ℕ → List ℕ) :
    allBlocks (fun k => (free k).map m.pageAddress) live =
      (freeBlocks free ++ live.map m.liveBlock).map m.memoryBlock := by
  have hlive : live.map Allocation.block = (live.map m.liveBlock).map m.memoryBlock := by
    rw [List.map_map]
    refine List.map_congr_left fun x hx => ?_
    simp only [Function.comp_apply, memoryBlock, ← h.address x hx]
    rfl
  rw [allBlocks, hlive, List.map_append, freeBlocks, List.map_flatMap]
  simp only [List.map_map, Function.comp_def, memoryBlock]

private theorem contains_memoryBlock (m : PhysicalMemoryManager) (b : DyadicBlock) (a : ℕ) :
    ((m.memoryBlock b).address ≤ a ∧ a < (m.memoryBlock b).endAddress) ↔
      m.memoryDescriptorInfo.physicalAddressStart ≤ a ∧
        b.Contains ((a - m.memoryDescriptorInfo.physicalAddressStart) / pageSize) := by
  rw [endAddress_memoryBlock]
  simp only [memoryBlock, pageAddress, pageSize, DyadicBlock.Contains]
  omega

/-- In a state that satisfies the invariant the blocks partition the range. -/
theorem RunInvariant.partitioned {m : PhysicalMemoryManager} {live : List Allocation}
    (h : RunInvariant m live) : ∃ free, Partitioned m free live := by
  obtain ⟨free, hlists, hcount⟩ := h.valid.free
  refine ⟨fun k => (free k).map m.pageAddress, hlists.chain, fun k hk => (hlists.chain k hk).nodup,
    ?_, ?_, ?_, ?_, ?_⟩
  · rw [allBlocks_eq h, List.pairwise_map]
    refine hlists.tiles.pairwise_disjoint.imp fun {b c} hbc => ?_
    rw [endAddress_memoryBlock, endAddress_memoryBlock]
    simp only [memoryBlock, pageAddress, pageSize, DyadicBlock.Disjoint] at hbc ⊢
    omega
  · rw [allBlocks_eq h]
    intro b hb
    obtain ⟨c, hc, rfl⟩ := List.mem_map.mp hb
    obtain ⟨q, hq⟩ := hlists.tiles.aligned c hc
    refine ⟨q, ?_⟩
    simp only [memoryBlock, pageAddress, hq, pagesForOrder, DyadicBlock.size]
    ring
  · intro a
    rw [allBlocks_eq h]
    simp only [List.mem_map, exists_exists_and_eq_and, contains_memoryBlock]
    have hcover := hlists.tiles.exists_contains_iff
      ((a - m.memoryDescriptorInfo.physicalAddressStart) / pageSize)
    constructor
    · rintro ⟨b, hb, hle, hbc⟩
      have hlt := hcover.mp ⟨b, hb, hbc⟩
      simp only [pageSize] at hlt ⊢
      omega
    · rintro ⟨hle, hlt⟩
      obtain ⟨b, hb, hbc⟩ := hcover.mpr (by simp only [pageSize] at hlt ⊢; omega)
      exact ⟨b, hb, hle, hbc⟩
  · exact fun x hx => ⟨(h.pages x hx).1, le_two_pow_ceilLog2Pages (h.pages x hx).2⟩
  · rw [hcount, freeBlocks, List.map_flatMap, List.flatMap, List.sum_flatten]
    simp [Function.comp_def, DyadicBlock.size, pagesForOrder]

/-- In every state of a run the free blocks and the live blocks partition the managed range, and
every free of a live allocation succeeds. -/
theorem Run.exists_partition {boot : BootMemoryMap} {m : PhysicalMemoryManager}
    {live : List Allocation}
    (hpages : (selectedRange boot).totalNumberOfPages ≠ 0)
    (hstart : (selectedRange boot).physicalAddressStart ≠ 0) (h : Run boot m live) :
    (∃ free, Partitioned m free live) ∧
      ∀ x ∈ live, ∃ fuel m', freePagesFromDescriptor fuel m x.address x.pages = some (m', true) := by
  have hinv := h.invariant hpages hstart
  refine ⟨hinv.partitioned, fun x hx => ?_⟩
  obtain ⟨m', hfree, -⟩ := hinv.free hx (Nat.lt_succ_self _)
  exact ⟨_, m', hfree⟩

/-- A memory map with one descriptor of seven pages, untouched by the boot loader. -/
def sevenPages : BootMemoryMap where
  descriptors := [⟨.conventionalMemory, 0x100000, 7, by decide⟩]
  nextPageAddress := 0x100000
  currentDescriptor := 0
  remainingPagesInDescriptor := 7
  end_lt := by decide

/-- The allocator over seven pages after a request for three pages. -/
theorem Run.exists_partition_sevenPages :
    (∃ free, Partitioned
        (allocatePagesFromDescriptor (initializeMemoryDescriptors sevenPages fun _ => 0) 3).1 free
        [⟨0x100000, 3⟩]) ∧
      ∀ x ∈ [Allocation.mk 0x100000 3], ∃ fuel m', freePagesFromDescriptor fuel
        (allocatePagesFromDescriptor (initializeMemoryDescriptors sevenPages fun _ => 0) 3).1
        x.address x.pages = some (m', true) :=
  @Run.exists_partition sevenPages _ _ (by decide) (by decide)
    (.allocate 3 (.boot fun _ => 0) (Prod.ext rfl (by decide)) (by decide))

end PhysicalMemoryManager

end TwistedOS
