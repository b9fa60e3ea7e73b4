import TwistedOS.Heap.HeapFree

/-!
# Runs of the kernel heap

A run starts from the constructor on a range of pages and performs any sequence of calls of
`kmalloc`, of calls of `kfree` with pointers of live allocations, and of writes to the payloads of
live allocations. Unless the range starts at address `0`, where an object cannot be told from the
null pointer, every state of a run is safe: allocations do not overlap, the free lists and the lists
of available slabs are exact, the runs of slabs are disjoint, a request fails only when there is no
room for it, and a heap without allocations has only free slabs.

## Main definitions

* `KernelHeapManager.HeapRange`, `KernelHeapManager.Run`.
* `KernelHeapManager.HeapSafe`: safety of a state.

## Main results

* `KernelHeapManager.Run.exists_invariant`, `KernelHeapManager.Run.heapSafe`.
* `KernelHeapManager.Run.not_heapSafe_zero`: this fails for a heap at address `0`.
-/

namespace TwistedOS

namespace KernelHeapManager

/-- A nonempty range of pages of the address space. -/
structure HeapRange (heapStart heapEnd : ℕ) : Prop where
  start_aligned : heapStart % pageSize = 0
  end_aligned : heapEnd % pageSize = 0
  start_lt : heapStart < heapEnd
  end_lt : heapEnd < 2 ^ 64

/-- The states of the heap that are reached with the allocations of the list live. -/
inductive Run (heapStart heapEnd : ℕ) : KernelHeapManager → List Allocation → Prop
  | construct (memory : ByteMemory) : Run heapStart heapEnd (construct heapStart heapEnd memory) []
  | kmalloc {s s' live ptr} (size : ℕ) (hrun : Run heapStart heapEnd s live)
      (hcall : s.kmalloc size = (s', ptr)) (hptr : ptr ≠ 0) :
      Run heapStart heapEnd s' (⟨ptr, size⟩ :: live)
  | kmallocFails {s s' live} (size : ℕ) (hrun : Run heapStart heapEnd s live)
      (hcall : s.kmalloc size = (s', 0)) : Run heapStart heapEnd s' live
  | kfree {s live x} (hrun : Run heapStart heapEnd s live) (hx : x ∈ live) :
      Run heapStart heapEnd (s.kfree x.ptr) (live.erase x)
  | write {s live} (memory : ByteMemory) (hrun : Run heapStart heapEnd s live)
      (hown : ∀ a, (∀ x ∈ live, ¬ x.InPayload a) → memory a = s.memory a) :
      Run heapStart heapEnd { s with memory := memory } live

/-- The number of slabs that a request needs at least. -/
def slabsNeeded (size : ℕ) : ℕ := (size + headerSize + (pageSize - 1)) / pageSize

/-- There is no room for a request: no slab of its class has a free object, and there is no run of
enough free slabs. -/
def NoRoom (s : KernelHeapManager) (size : ℕ) : Prop :=
  (selectClassIndex size < slabClassCount → ∀ i, ¬ s.Available (selectClassIndex size) i) ∧
    ∀ i, ¬ s.FreeRun i (slabsNeeded size)

/-- A state of the heap is safe for the allocations of the list. -/
structure HeapSafe (s : KernelHeapManager) (live : List Allocation) : Prop where
  /-- Headers and payloads lie in the heap and do not overlap. -/
  in_range : ∀ x ∈ live, s.heapStart ≤ x.header ∧ x.ptr = x.header + headerSize ∧
    x.ptr + x.size ≤ s.heapStart + s.slabCount * pageSize
  disjoint : live.Pairwise fun x y => x.ptr + x.size ≤ y.header ∨ y.ptr + y.size ≤ x.header
  /-- The free list of a small slab has `freeObjects` nodes, distinct objects that are not live. -/
  freeList : ∀ i < s.slabCount, (s.slabs i).state = .small → ∃ free,
    LinkedChain (fun a => s.memory.load a 8) 0 (s.slabs i).freeList free ∧ free.Nodup ∧
      (s.slabs i).freeObjects = free.length ∧
      ∀ a ∈ free, a ∈ s.objectStarts i (s.slabs i).classIndex ∧ ∀ x ∈ live, x.header ≠ a
  /-- The list of a class consists of the small slabs of the class with free objects. -/
  available : ∀ c < slabClassCount, ∃ l : List ℕ,
    DoublyLinked s.nextSlab s.prevSlab (-1) (s.classAvailableHead c) (l.map (↑)) ∧ l.Nodup ∧
      ∀ i, i ∈ l ↔ s.Available c i
  /-- A head is followed by its tails, a tail belongs to a head, and runs are disjoint. -/
  head : ∀ i < s.slabCount, (s.slabs i).state = .largeHead →
    0 < (s.slabs i).ownerOrSpan ∧ i + (s.slabs i).ownerOrSpan ≤ s.slabCount ∧
      ∀ j, i < j → j < i + (s.slabs i).ownerOrSpan →
        (s.slabs j).state = .largeTail ∧ (s.slabs j).ownerOrSpan = i
  tail : ∀ i < s.slabCount, (s.slabs i).state = .largeTail →
    (s.slabs (s.slabs i).ownerOrSpan).state = .largeHead ∧ (s.slabs i).ownerOrSpan < i ∧
      i < (s.slabs i).ownerOrSpan + (s.slabs (s.slabs i).ownerOrSpan).ownerOrSpan
  runs_disjoint : ∀ i < s.slabCount, ∀ j < s.slabCount, (s.slabs i).state = .largeHead →
    (s.slabs j).state = .largeHead → i ≠ j →
      i + (s.slabs i).ownerOrSpan ≤ j ∨ j + (s.slabs j).ownerOrSpan ≤ i
  /-- A request fails only when there is no room for it. -/
  null : ∀ size, size ≠ 0 → (s.kmalloc size).2 = 0 → s.NoRoom size
  all_free : live = [] → ∀ i < s.slabCount, (s.slabs i).state = .free

variable {s s' : KernelHeapManager} {live live' : List Allocation} {avail : ℕ → List ℕ}

/-! ### The first state -/

private theorem getManagedHeapSize_spec {heapStart heapEnd : ℕ}
    (hrange : HeapRange heapStart heapEnd) (hstart : heapStart ≠ 0) :
    getManagedHeapSize heapStart (effectiveHeapEnd heapStart heapEnd) ≤ kernelHeapSize ∧
      heapStart + getManagedHeapSize heapStart (effectiveHeapEnd heapStart heapEnd) ≤ heapEnd := by
  have hlt := hrange.start_lt
  have hend : heapStart < effectiveHeapEnd heapStart heapEnd ∧
      effectiveHeapEnd heapStart heapEnd ≤ heapEnd := by
    unfold effectiveHeapEnd
    rw [if_neg hstart]
    simp only
    by_cases hwrap : u64 (heapStart + kernelHeapSize) ≤ heapStart
    · rw [if_pos hwrap]
      exact ⟨hlt, le_rfl⟩
    · rw [if_neg hwrap, if_neg (by omega)]
      have hmod : u64 (heapStart + kernelHeapSize) ≤ heapStart + kernelHeapSize := Nat.mod_le _ _
      split_ifs <;> omega
  unfold getManagedHeapSize
  rw [if_neg (by omega)]
  split_ifs <;> omega

theorem construct_invariant {heapStart heapEnd : ℕ} (hrange : HeapRange heapStart heapEnd)
    (hstart : heapStart ≠ 0) (memory : ByteMemory) :
    HeapInvariant (construct heapStart heapEnd memory) [] (fun _ => []) none := by
  obtain ⟨hsize, hlimit⟩ := getManagedHeapSize_spec hrange hstart
  have hend := hrange.end_lt
  refine ⟨⟨hstart, ?_, ?_, rfl, by simp, fun i _ => ?_⟩, ⟨fun c _ => .nil, ?_, ?_⟩,
    fun c hc i => ?_, fun i _ hsmall => ?_⟩
  · simp only [slabBase, construct, pageSize] at *
    omega
  · simp only [construct, kernelHeapSize, pageSize] at *
    omega
  · change held _ [] i = []
    rfl
  · simp
  · exact fun _ _ => ⟨rfl, rfl⟩
  · simp [Available, construct, SlabDescriptor.reset]
  · exact absurd hsmall (by simp [construct, SlabDescriptor.reset])

/-! ### Requests -/

/-- A class chosen for a request has room for it. -/
theorem selectClassIndex_spec {size : ℕ} (hc : selectClassIndex size < slabClassCount) :
    size + headerSize ≤ getClassObjectSize (selectClassIndex size) := by
  unfold selectClassIndex at hc ⊢
  split_ifs at hc ⊢ with hbig
  · exact absurd hc (lt_irrefl _)
  · have hlt : slabClassSizes.findIdx (fun size' => decide (size + headerSize ≤ size')) <
        slabClassSizes.length := hc
    have hfound := List.findIdx_getElem (w := hlt)
    rw [decide_eq_true_eq] at hfound
    rw [getClassObjectSize, List.getD_eq_getElem?_getD, List.getElem?_eq_getElem hlt]
    exact hfound

/-- A request that is served by a small slab needs one slab. -/
theorem slabsNeeded_of_small {size : ℕ} (hc : selectClassIndex size < slabClassCount) :
    slabsNeeded size = 1 := by
  have hroom := selectClassIndex_spec hc
  have hpage := Nat.mul_le_mul_right (getClassObjectSize (selectClassIndex size)) (objects_pos hc)
  rw [objects_mul_size hc] at hpage
  simp only [slabsNeeded, headerSize, pageSize] at *
  omega

/-- A request is served, or the heap stays as it is because there is no room. -/
theorem HeapInvariant.kmalloc (h : HeapInvariant s live avail none) {size : ℕ} (hsize : size ≠ 0) :
    (s.kmalloc size = (s, 0) ∧ s.NoRoom size) ∨
      ∃ s' ptr avail', s.kmalloc size = (s', ptr) ∧ ptr ≠ 0 ∧
        HeapInvariant s' (⟨ptr, size⟩ :: live) avail' none := by
  unfold KernelHeapManager.kmalloc NoRoom
  rw [if_neg hsize]
  have hneeded : 0 < slabsNeeded size := by
    simp only [slabsNeeded, headerSize, pageSize]
    omega
  by_cases hempty : s.slabCount = 0
  · rw [if_pos hempty]
    refine .inl ⟨rfl, fun _ i hi => ?_, fun i hi => ?_⟩
    · have := hi.1
      omega
    · have := hi.1
      omega
  · rw [if_neg hempty]
    by_cases hc : selectClassIndex size < slabClassCount
    · simp only [if_pos hc, slabsNeeded_of_small hc]
      rcases h.kmallocSmall hc (selectClassIndex_spec hc) with ⟨hfail, hfull, hrun⟩ | hok
      · exact .inl ⟨hfail, fun _ => hfull, hrun⟩
      · exact .inr hok
    · simp only [if_neg hc]
      rcases h.kmallocLarge size with ⟨hfail, hrun⟩ | ⟨s', ptr, hcall, hptr, hinv⟩
      · exact .inl ⟨hfail, fun hc' => absurd hc' hc, hrun⟩
      · exact .inr ⟨s', ptr, avail, hcall, hptr, hinv⟩

theorem HeapInvariant.write (h : HeapInvariant s live avail none) {memory : ByteMemory}
    (hown : ∀ a, (∀ x ∈ live, ¬ x.InPayload a) → memory a = s.memory a) :
    HeapInvariant { s with memory := memory } live avail none :=
  ⟨h.slabs.write hown, h.links.congr (fun _ => rfl) (fun _ => rfl) rfl, h.mem_avail,
    h.occupied⟩

/-! ### Safety -/

/-- The invariant holds in every state of a run. -/
theorem Run.exists_invariant {heapStart heapEnd : ℕ} (hrange : HeapRange heapStart heapEnd)
    (hstart : heapStart ≠ 0) (h : Run heapStart heapEnd s live) :
    ∃ avail, HeapInvariant s live avail none := by
  induction h with
  | construct memory => exact ⟨_, construct_invariant hrange hstart memory⟩
  | @kmalloc s s' live ptr size _ hcall hptr ih =>
    obtain ⟨avail, hinv⟩ := ih
    have hsize : size ≠ 0 := by
      rintro rfl
      exact hptr (Prod.mk.inj hcall).2.symm
    rcases hinv.kmalloc hsize with ⟨hfail, -⟩ | ⟨s₁, ptr₁, avail', hok, -, hinv'⟩
    · exact absurd (Prod.mk.inj (hcall.symm.trans hfail)).2 hptr
    · obtain ⟨rfl, rfl⟩ := Prod.mk.inj (hok.symm.trans hcall)
      exact ⟨avail', hinv'⟩
  | @kmallocFails s s' live size _ hcall ih =>
    obtain ⟨avail, hinv⟩ := ih
    by_cases hsize : size = 0
    · subst hsize
      obtain ⟨rfl, -⟩ := Prod.mk.inj hcall
      exact ⟨avail, hinv⟩
    · rcases hinv.kmalloc hsize with ⟨hfail, -⟩ | ⟨s₁, ptr₁, avail', hok, hptr, -⟩
      · obtain ⟨rfl, -⟩ := Prod.mk.inj (hfail.symm.trans hcall)
        exact ⟨avail, hinv⟩
      · exact absurd (Prod.mk.inj (hok.symm.trans hcall)).2 hptr
  | kfree _ hx ih =>
    obtain ⟨avail, hinv⟩ := ih
    exact hinv.kfree hx
  | write memory _ hown ih =>
    obtain ⟨avail, hinv⟩ := ih
    exact ⟨avail, hinv.write hown⟩

/-- A free object is not the header of an allocation. -/
private theorem SmallSlab.header_ne {i : ℕ} {free : List ℕ} (hslab : SmallSlab s live i free)
    {a : ℕ} (ha : a ∈ free) {x : Allocation} (hx : x ∈ live) :
    x.header ≠ a := by
  rintro rfl
  have hin := mem_objectStarts hslab.class_lt (hslab.free_mem ha)
  have hobj := le_getClassObjectSize hslab.class_lt
  have hheld : x ∈ s.held live i :=
    mem_held.mpr ⟨hx, slabIndex_eq hin.1 (by omega)⟩
  exact (List.nodup_append.mp hslab.nodup).2.2 _ ha _ (List.mem_map_of_mem hheld) rfl

/-- A heap without allocations has only free slabs. -/
private theorem HeapInvariant.all_free (h : HeapInvariant s [] avail none) {i : ℕ}
    (hi : i < s.slabCount) : (s.slabs i).state = .free := by
  have hhead : ∀ j < s.slabCount, (s.slabs j).state ≠ .largeHead := by
    intro j hj hstate
    have hslab := h.slabs.slab j hj
    simp only [SlabOk, hstate] at hslab
    obtain ⟨x, hx, -⟩ := hslab.held
    simp [held] at hx
  have hslab := h.slabs.slab i hi
  rcases hcase : (s.slabs i).state with _ | _ | _ | _
  · rfl
  · exact absurd rfl (h.occupied i (by simp) hcase)
  · exact absurd hcase (hhead i hi)
  · simp only [SlabOk, hcase] at hslab
    obtain ⟨-, hlt, hstate, -⟩ := hslab
    exact absurd hstate (hhead _ (by omega))

/-- A state that satisfies the invariant is safe. -/
theorem HeapInvariant.safe (h : HeapInvariant s live avail none) : HeapSafe s live := by
  have hlarge : ∀ i < s.slabCount, (s.slabs i).state = .largeHead → LargeRun s live i := by
    intro i hi hstate
    simpa only [SlabOk, hstate] using h.slabs.slab i hi
  refine ⟨fun x hx => ?_, h.slabs.pairwise_disjoint, fun i hi hstate => ?_, fun c hc => ?_,
    fun i hi hstate => ?_, fun i hi hstate => ?_, fun i hi j hj hi' hj' hij => ?_,
    fun size hsize hnull => ?_, ?_⟩
  · obtain ⟨n, -, hin, hbase, hptr, hend, -⟩ := h.slabs.extent hx
    have hlow := s.slabBase_mono (Nat.zero_le (s.slabIndex x.header))
    have hhigh := s.slabBase_mono hin
    simp only [slabBase, Nat.zero_mul] at *
    exact ⟨by omega, hptr, by omega⟩
  · have hslab := h.slabs.slab i hi
    simp only [SlabOk, hstate] at hslab
    obtain ⟨free, hslab⟩ := hslab
    exact ⟨free, hslab.chain, hslab.chain.nodup, hslab.count, fun a ha =>
      ⟨hslab.free_mem ha, fun x hx => hslab.header_ne ha hx⟩⟩
  · have hlinked := h.links.linked c hc
    exact ⟨avail c, hlinked, (List.nodup_map_iff Nat.cast_injective).mp hlinked.chain.nodup,
      h.mem_avail c hc⟩
  · have hrun := hlarge i hi hstate
    exact ⟨hrun.span_pos, hrun.in_range, hrun.tails⟩
  · have hslab := h.slabs.slab i hi
    simp only [SlabOk, hstate] at hslab
    exact ⟨hslab.2.2.1, hslab.2.1, hslab.2.2.2⟩
  · -- the head of one run is no tail of the other
    have htaili := (hlarge i hi hi').tails j
    have htailj := (hlarge j hj hj').tails i
    rw [hj'] at htaili
    rw [hi'] at htailj
    by_contra hover
    rcases Nat.lt_or_gt_of_ne hij with hlt | hlt
    · exact absurd (htaili hlt (by omega)).1 (by decide)
    · exact absurd (htailj hlt (by omega)).1 (by decide)
  · rcases h.kmalloc hsize with ⟨-, hroom⟩ | ⟨s', ptr, avail', hcall, hptr, -⟩
    · exact hroom
    · rw [hcall] at hnull
      exact absurd hnull hptr
  · rintro rfl i hi
    exact h.all_free hi

/-- Every state of a run is safe, unless the heap starts at address `0`: live allocations lie in the
heap apart from each other and from what is free, whatever is written into their payloads. -/
theorem Run.heapSafe {heapStart heapEnd : ℕ} (hrange : HeapRange heapStart heapEnd)
    (hstart : heapStart ≠ 0) (h : Run heapStart heapEnd s live) : HeapSafe s live := by
  obtain ⟨avail, hinv⟩ := h.exists_invariant hrange hstart
  exact hinv.safe

/-- A heap of two pages after a request for thirty bytes. -/
theorem Run.heapSafe_twoPages :
    HeapSafe ((KernelHeapManager.construct 0x200000 0x202000 fun _ => 0).kmalloc 30).1
      [⟨((KernelHeapManager.construct 0x200000 0x202000 fun _ => 0).kmalloc 30).2, 30⟩] :=
  Run.heapSafe (show HeapRange 0x200000 0x202000 from ⟨by decide, by decide, by decide, by decide⟩)
    (by decide)
    (.kmalloc 30 (.construct fun _ => 0) rfl (by decide))

/-- A heap of one page at address `0` has a free slab and refuses a request for `4000` bytes. -/
theorem Run.not_heapSafe_zero :
    HeapRange 0 4096 ∧ ∃ s live, Run 0 4096 s live ∧ ¬ HeapSafe s live := by
  refine ⟨⟨by decide, by decide, by decide, by decide⟩, _, _, .construct fun _ => 0, fun h => ?_⟩
  refine (h.null 4000 (by decide) (by decide)).2 0 ⟨by decide, fun j _ hj => ?_⟩
  rfl

end KernelHeapManager

end TwistedOS
