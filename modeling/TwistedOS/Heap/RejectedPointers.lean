import TwistedOS.Heap.HeapRuns

/-!
# Pointers that are not live

A call of `kfree` with a pointer that belongs to no live allocation changes nothing. Before it
changes anything, `kfree` compares the address with the bookkeeping of the slab that the supposed
header names: in a small slab it accepts the starts of objects only, and in a run of slabs only the
start of the run. There is the header of a live allocation, or a free object, whose first word is
the address of another object or null. Such an address is a multiple of 64, which the magic word is
not. Whatever is written into payloads does not matter.

## Main definitions

* `KernelHeapManager.CallRun`: the states that are reached by arbitrary calls.

## Main results

* `KernelHeapManager.HeapInvariant.kfree_eq_self`: a pointer that is not live is ignored.
* `KernelHeapManager.CallRun.kfreeIgnores`: this holds in every state that is reached.
-/

namespace TwistedOS

namespace KernelHeapManager

/-- The states that are reached by calls of `kmalloc`, of `kfree` with any pointers and by writes to
the payloads of live allocations, with the allocations that are live then. -/
inductive CallRun (heapStart heapEnd : ℕ) : KernelHeapManager → List Allocation → Prop
  | construct (memory : ByteMemory) :
      CallRun heapStart heapEnd (construct heapStart heapEnd memory) []
  | kmalloc {s s' live ptr} (size : ℕ) (hrun : CallRun heapStart heapEnd s live)
      (hcall : s.kmalloc size = (s', ptr)) (hptr : ptr ≠ 0) :
      CallRun heapStart heapEnd s' (⟨ptr, size⟩ :: live)
  | kmallocFails {s s' live} (size : ℕ) (hrun : CallRun heapStart heapEnd s live)
      (hcall : s.kmalloc size = (s', 0)) : CallRun heapStart heapEnd s' live
  | kfree {s live} (ptr : ℕ) (hrun : CallRun heapStart heapEnd s live) :
      CallRun heapStart heapEnd (s.kfree ptr) (live.filter fun x => x.ptr ≠ ptr)
  | write {s live} (memory : ByteMemory) (hrun : CallRun heapStart heapEnd s live)
      (hown : ∀ a, (∀ x ∈ live, ¬ x.InPayload a) → memory a = s.memory a) :
      CallRun heapStart heapEnd { s with memory := memory } live

variable {s s' : KernelHeapManager} {live : List Allocation} {avail : ℕ → List ℕ} {i c : ℕ}

/-! ### The start of the heap -/

@[simp] theorem heapStart_linkSlabIntoClassList (s : KernelHeapManager) (i c : ℕ) :
    (s.linkSlabIntoClassList i c).heapStart = s.heapStart := by
  unfold linkSlabIntoClassList
  dsimp only
  split_ifs <;> rfl

@[simp] theorem heapStart_unlinkSlabFromClassList (s : KernelHeapManager) (i c : ℕ) :
    (s.unlinkSlabFromClassList i c).heapStart = s.heapStart := by
  unfold unlinkSlabFromClassList
  dsimp only
  split_ifs <;> rfl

@[simp] theorem heapStart_releaseSlabRun (s : KernelHeapManager) (start span : ℕ) :
    (s.releaseSlabRun start span).heapStart = s.heapStart := by
  unfold releaseSlabRun
  split_ifs
  · rfl
  · rw [resetSlabs_eq]

@[simp] theorem heapStart_initializeSmallSlab (s : KernelHeapManager) (i c : ℕ) :
    (s.initializeSmallSlab i c).1.heapStart = s.heapStart := by
  unfold initializeSmallSlab
  dsimp only
  split_ifs <;> simp [modifySlab]

@[simp] theorem heapStart_markTails (head count : ℕ) (s : KernelHeapManager) :
    (markTails head count s).heapStart = s.heapStart := by
  induction count with
  | zero => rfl
  | succ count ih => exact ih

@[simp] theorem heapStart_takeObject (s : KernelHeapManager) (i c : ℕ) :
    (s.takeObject i c).1.heapStart = s.heapStart := by
  unfold takeObject writeHeader
  dsimp only [storeMemory]
  split_ifs <;> simp [modifySlab]

theorem heapStart_kmallocSmall (s : KernelHeapManager) (c : ℕ) :
    (s.kmallocSmall c).1.heapStart = s.heapStart := by
  have havailable : (s.availableSlab c).1.heapStart = s.heapStart := by
    unfold availableSlab
    split_ifs
    · rfl
    rcases s.findFreeSlabRun 1 with _ | j
    · rfl
    have hslab := heapStart_initializeSmallSlab s j c
    dsimp only
    rcases hinit : s.initializeSmallSlab j c with ⟨s₁, _ | _⟩ <;> rw [hinit] at hslab <;>
      dsimp only
    · exact hslab
    · split_ifs <;> exact hslab
  unfold kmallocSmall
  rcases hslab : s.availableSlab c with ⟨s₁, _ | i⟩ <;> rw [hslab] at havailable <;> dsimp only
  · exact havailable
  · split_ifs
    · exact havailable
    · rw [heapStart_takeObject, ← havailable]

theorem heapStart_kmalloc (s : KernelHeapManager) (size : ℕ) :
    (s.kmalloc size).1.heapStart = s.heapStart := by
  unfold kmalloc kmallocLarge
  dsimp only
  split_ifs
  · rfl
  · rfl
  · exact heapStart_kmallocSmall _ _
  · rfl
  · rfl
  · split <;> simp [takeRun, writeHeader, storeMemory, modifySlab]

/-! ### The checks -/

/-- The part of `kfree` for a run of slabs rejects an address, or releases the run that starts
there. -/
theorem kfreeLarge_cases (s : KernelHeapManager) (header i : ℕ) :
    s.kfreeLarge header i = s ∨ (s.slabs i).state = .largeHead ∧ header = s.getSlabBaseAddress i ∧
      s.kfreeLarge header i =
        (s.storeMemory header 4 0).releaseSlabRun i (s.slabs i).ownerOrSpan := by
  unfold kfreeLarge
  dsimp only
  split_ifs with hstate hspan hbase
  · exact .inl rfl
  · exact .inl rfl
  · exact .inl rfl
  · exact .inr ⟨not_not.mp hstate, not_not.mp hbase, rfl⟩

/-- The address is the start of an object of the small slab `i`, which is of class `c`. -/
structure ObjectChecked (s : KernelHeapManager) (header i c : ℕ) : Prop where
  class_lt : c < slabClassCount
  state : (s.slabs i).state = .small
  class_eq : (s.slabs i).classIndex = c
  base_le : s.getSlabBaseAddress i ≤ header
  lt_end : header < u64 (s.getSlabBaseAddress i + pageSize)
  offset : (header - s.getSlabBaseAddress i) % getClassObjectSize c = 0

/-- The part of `kfree` for an object rejects an address, or puts the object back that starts
there. -/
theorem kfreeSmall_cases (s : KernelHeapManager) (header i c : ℕ) :
    s.kfreeSmall header i c = s ∨
      s.ObjectChecked header i c ∧ s.kfreeSmall header i c = s.putObject header i c := by
  unfold kfreeSmall
  dsimp only
  split_ifs with hc hslab hsize hpage hoffset hfull
  · exact .inl rfl
  · exact .inl rfl
  · exact .inl rfl
  · exact .inl rfl
  · exact .inl rfl
  · exact .inl rfl
  · obtain ⟨hstate, hclass⟩ := not_or.mp hslab
    obtain ⟨hbase, hend⟩ := not_or.mp hpage
    have hc : c < slabClassCount := Nat.lt_of_not_le hc
    have hmod : c % 2 ^ 8 = c := Nat.mod_eq_of_lt (hc.trans (by decide))
    refine .inr ⟨⟨hc, not_not.mp hstate, ?_, not_lt.mp hbase, not_le.mp hend,
      not_not.mp hoffset⟩, rfl⟩
    rw [not_not.mp hclass, hmod]

/-- A call of `kfree` changes nothing, or the header before the pointer has passed all checks. -/
theorem kfree_cases (s : KernelHeapManager) (ptr : ℕ) :
    s.kfree ptr = s ∨
    s.heapStart ≤ ptr - headerSize ∧ s.memory.load (ptr - headerSize) 4 = allocationMagic ∧
      ∃ i < s.slabCount, s.kfree ptr = s.kfreeLarge (ptr - headerSize) i ∨
        ∃ c, s.kfree ptr = s.kfreeSmall (ptr - headerSize) i c := by
  unfold kfree
  dsimp only
  split_ifs with hnull hempty hrange hheader hmagic hslab hlarge
  · exact .inl rfl
  · exact .inl rfl
  · exact .inl rfl
  · exact .inl rfl
  · exact .inl rfl
  · exact .inl rfl
  · exact .inr ⟨not_lt.mp fun h => hheader (.inl h), not_not.mp hmagic, _, not_le.mp hslab,
      .inl rfl⟩
  · exact .inr ⟨not_lt.mp fun h => hheader (.inl h), not_not.mp hmagic, _, not_le.mp hslab,
      .inr ⟨_, rfl⟩⟩

theorem heapStart_kfree (s : KernelHeapManager) (ptr : ℕ) :
    (s.kfree ptr).heapStart = s.heapStart := by
  rcases s.kfree_cases ptr with hsame | ⟨-, -, i, -, hcall | ⟨c, hcall⟩⟩
  · rw [hsame]
  · rw [hcall]
    rcases s.kfreeLarge_cases (ptr - headerSize) i with hsame | ⟨-, -, hrelease⟩
    · rw [hsame]
    · rw [hrelease, heapStart_releaseSlabRun]
      rfl
  · rw [hcall]
    rcases s.kfreeSmall_cases (ptr - headerSize) i c with hsame | ⟨-, hput⟩
    · rw [hsame]
    · rw [hput, putObject]
      split_ifs <;> simp [modifySlab, storeMemory]

theorem Run.heapStart_eq {heapStart heapEnd : ℕ} (h : Run heapStart heapEnd s live) :
    s.heapStart = heapStart := by
  induction h with
  | construct memory => rfl
  | @kmalloc s s' live ptr size _ hcall _ ih =>
    rw [← ih, ← heapStart_kmalloc s size, hcall]
  | @kmallocFails s s' live size _ hcall ih => rw [← ih, ← heapStart_kmalloc s size, hcall]
  | kfree _ _ ih => rw [heapStart_kfree, ih]
  | write memory _ _ ih => exact ih

/-! ### Rejected pointers -/

theorem sixtyFour_dvd_getClassObjectSize (hc : c < slabClassCount) :
    64 ∣ getClassObjectSize c := by
  simp only [slabClassCount] at hc
  interval_cases c <;> decide

/-- The first word of a free object is no magic word. -/
theorem SmallSlab.magic_ne {free : List ℕ} (h : SmallSlab s live i free)
    (halign : s.heapStart % pageSize = 0) {a : ℕ} (ha : a ∈ free) :
    s.memory.load a 4 ≠ allocationMagic := by
  have hobject : ∀ b ∈ free, 64 ∣ b := by
    intro b hb
    obtain ⟨k, -, rfl⟩ := List.mem_map.mp (h.free_mem hb)
    have hpage : 64 ∣ pageSize := by decide
    have hstart : 64 ∣ s.heapStart := hpage.trans (Nat.dvd_of_mod_eq_zero halign)
    exact Nat.dvd_add (Nat.dvd_add hstart (hpage.mul_left i))
      ((sixtyFour_dvd_getClassObjectSize h.class_lt).mul_left k)
  have hlink : 64 ∣ s.memory.load a 8 := by
    rcases h.chain.next_mem ha with hnull | hnext
    · rw [hnull]
      exact dvd_zero 64
    · exact hobject _ hnext
  rw [ByteMemory.load_add s.memory a 4 4] at hlink
  intro hmagic
  rw [hmagic, allocationMagic] at hlink
  omega

/-- An object that passes the checks is live or free. -/
theorem SlabsOk.mem_of_objectChecked (h : SlabsOk s live) (hi : i < s.slabCount) {a : ℕ}
    (ha : s.ObjectChecked a i c) :
    ∃ free, SmallSlab s live i free ∧ (a ∈ free ∨ ∃ x ∈ live, x.header = a) := by
  have hslab := h.slab i hi
  simp only [SlabOk, ha.state] at hslab
  obtain ⟨free, hslab⟩ := hslab
  refine ⟨free, hslab, ?_⟩
  have hpage := h.slabBase_lt hi
  have hbase : s.getSlabBaseAddress i = s.slabBase i :=
    u64_of_lt (show s.slabBase i < 2 ^ 64 by omega)
  have hlow := ha.base_le
  have hhigh := ha.lt_end
  have hoffset := ha.offset
  rw [hbase] at hlow hhigh hoffset
  rw [u64_of_lt hpage] at hhigh
  have hmem : a ∈ s.objectStarts i (s.slabs i).classIndex := by
    obtain ⟨k, hk⟩ := Nat.dvd_of_mod_eq_zero hoffset
    refine List.mem_map.mpr ⟨k, List.mem_range.mpr ?_, ?_⟩
    · rw [ha.class_eq]
      have hsize := objects_mul_size ha.class_lt
      refine Nat.lt_of_mul_lt_mul_right (a := getClassObjectSize c) ?_
      rw [hsize, Nat.mul_comm k, ← hk]
      omega
    · rw [ha.class_eq, Nat.mul_comm k, ← hk]
      omega
  rcases List.mem_append.mp (hslab.objects.mem_iff.mpr hmem) with hfree | hheld
  · exact .inl hfree
  · obtain ⟨x, hx, hxa⟩ := List.mem_map.mp hheld
    exact .inr ⟨x, (mem_held.mp hx).1, hxa⟩

/-- A pointer that belongs to no live allocation is ignored. -/
theorem HeapInvariant.kfree_eq_self (h : HeapInvariant s live avail none)
    (halign : s.heapStart % pageSize = 0) {ptr : ℕ} (hptr : ∀ x ∈ live, x.ptr ≠ ptr) :
    s.kfree ptr = s := by
  rcases s.kfree_cases ptr with hsame | ⟨hlow, hmagic, i, hi, hcall⟩
  · exact hsame
  have hheader : ptr - headerSize + headerSize = ptr := by
    have := h.slabs.start_ne
    omega
  have hnot : ∀ x ∈ live, x.header ≠ ptr - headerSize := by
    intro x hx heq
    obtain ⟨-, -, -, -, hxptr, -⟩ := h.slabs.extent hx
    exact hptr x hx (by rw [hxptr, heq, hheader])
  rcases hcall with hcall | ⟨c, hcall⟩ <;> rw [hcall]
  · rcases s.kfreeLarge_cases (ptr - headerSize) i with hsame | ⟨hstate, hbase, -⟩
    · exact hsame
    have hslab := h.slabs.slab i hi
    simp only [SlabOk, hstate] at hslab
    obtain ⟨x, hx, hxbase, -⟩ := hslab.held
    have hpage := h.slabs.slabBase_lt hi
    have hgbase : s.getSlabBaseAddress i = s.slabBase i :=
      u64_of_lt (show s.slabBase i < 2 ^ 64 by omega)
    have hxlive : x ∈ live := (mem_held.mp (hx ▸ List.mem_singleton_self x)).1
    exact absurd (by rw [hxbase, hbase, hgbase]) (hnot x hxlive)
  · rcases s.kfreeSmall_cases (ptr - headerSize) i c with hsame | ⟨hchecked, -⟩
    · exact hsame
    obtain ⟨free, hslab, hfree | ⟨x, hx, hxa⟩⟩ := h.slabs.mem_of_objectChecked hi hchecked
    · exact absurd hmagic (hslab.magic_ne halign hfree)
    · exact absurd hxa (hnot x hx)

/-! ### Arbitrary calls -/

/-- Freeing by pointer removes the allocation that has the pointer. -/
theorem SlabsOk.filter_ptr (h : SlabsOk s live) {x : Allocation} (hx : x ∈ live) :
    (live.filter fun y => y.ptr ≠ x.ptr) = live.erase x := by
  have hdisjoint := h.pairwise_disjoint
  have hpayload : ∀ y ∈ live, y.ptr = y.header + headerSize := fun y hy => by
    obtain ⟨-, -, -, -, hptr, -⟩ := h.extent hy
    exact hptr
  have hnodup : live.Nodup := by
    refine hdisjoint.imp_of_mem fun {y z} hy _ hyz => ?_
    rintro rfl
    have := hpayload y hy
    simp only [headerSize] at this
    omega
  rw [hnodup.erase_eq_filter]
  refine List.filter_congr fun y hy => ?_
  have hiff : y.ptr = x.ptr ↔ y = x := by
    refine ⟨fun hyx => by_contra fun hne => ?_, fun hyx => by rw [hyx]⟩
    have := hpayload x hx
    have := hpayload y hy
    simp only [headerSize] at *
    have hsym : Std.Symm fun y z : Allocation =>
        y.ptr + y.size ≤ z.header ∨ z.ptr + z.size ≤ y.header := ⟨fun _ _ => Or.symm⟩
    rcases hdisjoint.forall hy hx hne with hlt | hlt <;> omega
  rw [Bool.eq_iff_iff]
  simp [hiff]

/-- Calls of `kfree` with pointers that are not live may be left out of a run. -/
theorem CallRun.run {heapStart heapEnd : ℕ} (hrange : HeapRange heapStart heapEnd)
    (hstart : heapStart ≠ 0) (h : CallRun heapStart heapEnd s live) :
    Run heapStart heapEnd s live := by
  induction h with
  | construct memory => exact .construct memory
  | kmalloc size _ hcall hptr ih => exact .kmalloc size ih hcall hptr
  | kmallocFails size _ hcall ih => exact .kmallocFails size ih hcall
  | @kfree s live ptr _ ih =>
    obtain ⟨avail, hinv⟩ := ih.exists_invariant hrange hstart
    by_cases hlive : ∃ x ∈ live, x.ptr = ptr
    · obtain ⟨x, hx, rfl⟩ := hlive
      rw [hinv.slabs.filter_ptr hx]
      exact .kfree ih hx
    · have hnot : ∀ x ∈ live, x.ptr ≠ ptr := fun x hx hxp => hlive ⟨x, hx, hxp⟩
      rw [hinv.kfree_eq_self (ih.heapStart_eq ▸ hrange.start_aligned) hnot,
        List.filter_eq_self.mpr fun x hx => decide_eq_true (hnot x hx)]
      exact ih
  | write memory _ hown ih => exact .write memory ih hown

/-- In every state that is reached, a call of `kfree` with a pointer that belongs to no live
allocation changes nothing. The kernel's heap starts at `KERNEL_HEAP_START`. -/
theorem CallRun.kfreeIgnores {heapStart heapEnd : ℕ} (hrange : HeapRange heapStart heapEnd)
    (hstart : heapStart ≠ 0) (h : CallRun heapStart heapEnd s live) (ptr : ℕ)
    (hptr : ∀ x ∈ live, x.ptr ≠ ptr) : s.kfree ptr = s := by
  have hrun := h.run hrange hstart
  obtain ⟨avail, hinv⟩ := hrun.exists_invariant hrange hstart
  exact hinv.kfree_eq_self (hrun.heapStart_eq ▸ hrange.start_aligned) hptr

/-- The kernel's heap after a request for thirty bytes, and the pointer. -/
def kernelHeap : KernelHeapManager × ℕ :=
  (KernelHeapManager.construct 0xFFFFFFFF82000000 0xFFFFFFFF84000000 fun _ => 0).kmalloc 30

/-- The payload imitates the header of a run of slabs. -/
def imitatedHeader : KernelHeapManager :=
  ((kernelHeap.1.storeMemory kernelHeap.2 4 allocationMagic).storeMemory
    (kernelHeap.2 + 4) 4 0).storeMemory (kernelHeap.2 + 8) 2 largeClassSentinel

/-- The pointer behind the imitated header is ignored. -/
theorem CallRun.kfreeIgnores_imitatedHeader :
    imitatedHeader.kfree (kernelHeap.2 + headerSize) = imitatedHeader := by
  refine CallRun.kfreeIgnores (show HeapRange 0xFFFFFFFF82000000 0xFFFFFFFF84000000 from
    ⟨by decide, by decide, by decide, by decide⟩) (by decide)
    (.write imitatedHeader.memory (.kmalloc 30 (.construct fun _ => 0)
      (show _ = (kernelHeap.1, kernelHeap.2) from rfl) (by decide +kernel)) fun a ha => ?_) _ ?_
  · have hout := ha ⟨kernelHeap.2, 30⟩ List.mem_cons_self
    simp only [Allocation.InPayload] at hout
    simp only [imitatedHeader, storeMemory]
    rw [ByteMemory.store_apply_of_notMem (by omega), ByteMemory.store_apply_of_notMem (by omega),
      ByteMemory.store_apply_of_notMem (by omega)]
  · simp [headerSize]

end KernelHeapManager

end TwistedOS
