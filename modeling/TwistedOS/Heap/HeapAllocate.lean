import TwistedOS.Heap.SlabContents

/-!
# Allocation preserves the heap invariant

The heap invariant joins that of the slabs with that of the lists: the list of a class consists of
the small slabs of the class with free objects. A call of `kmalloc` either leaves the heap as it is
and returns the null pointer, which happens only when the class has no free object and there is no
run of enough free slabs, or returns an allocation that is live from then on.

## Main definitions

* `KernelHeapManager.Available`, `KernelHeapManager.HeapInvariant`.
* `KernelHeapManager.FreeRun`: a run of free slabs.

## Main results

* `KernelHeapManager.findFreeSlabRun_eq_some`, `KernelHeapManager.findFreeSlabRun_eq_none`.
* `KernelHeapManager.HeapInvariant.kmallocSmall`, `KernelHeapManager.HeapInvariant.kmallocLarge`.
-/

namespace TwistedOS

open ByteMemory (load_congr load_store_of_disjoint load_store_self store_apply_of_notMem)

namespace KernelHeapManager

/-- A small slab of class `c` with free objects. -/
def Available (s : KernelHeapManager) (c i : ℕ) : Prop :=
  i < s.slabCount ∧ (s.slabs i).state = .small ∧ (s.slabs i).classIndex = c ∧
    0 < (s.slabs i).freeObjects

/-- The slabs are well formed, the lists of available slabs are `avail`, and every small slab has
an allocation, except that the slab `pending` may have none while a call works on it. -/
structure HeapInvariant (s : KernelHeapManager) (live : List Allocation) (avail : ℕ → List ℕ)
    (pending : Option ℕ) : Prop where
  slabs : SlabsOk s live
  links : Links s avail
  mem_avail : ∀ c < slabClassCount, ∀ i, i ∈ avail c ↔ s.Available c i
  occupied : ∀ i, pending ≠ some i → (s.slabs i).state = .small → s.held live i ≠ []

/-- The slabs from `i` on, `span` of them, are free. -/
def FreeRun (s : KernelHeapManager) (i span : ℕ) : Prop :=
  i + span ≤ s.slabCount ∧ ∀ j, i ≤ j → j < i + span → (s.slabs j).state = .free

variable {s s' : KernelHeapManager} {live live' : List Allocation} {avail : ℕ → List ℕ} {i c : ℕ}
  {pending : Option ℕ}

/-! ### Steps on one slab -/

theorem KeepsSlabs.field {P : ℕ → Prop} (h : KeepsSlabs s s' P) (hi : ¬ P i) {β : Type}
    (f : SlabDescriptor → β) (hf : ∀ d, f d.content = f d) : f (s'.slabs i) = f (s.slabs i) :=
  SlabDescriptor.field_eq f hf (h.content i hi)

theorem KeepsSlabs.available_iff {P : ℕ → Prop} (h : KeepsSlabs s s' P) (hi : ¬ P i) :
    s'.Available c i ↔ s.Available c i := by
  simp only [Available, h.slabCount, h.field hi SlabDescriptor.state fun _ => rfl,
    h.field hi SlabDescriptor.classIndex fun _ => rfl,
    h.field hi SlabDescriptor.freeObjects fun _ => rfl]

/-- The invariant after a step that changes one slab outside runs. -/
theorem HeapInvariant.step {avail' : ℕ → List ℕ} {pending' : Option ℕ}
    (h : HeapInvariant s live avail pending) (hpending : ∀ j, pending = some j → j = i)
    (hkeeps : KeepsSlabs s s' (· = i))
    (hstate : (s.slabs i).state = .free ∨ (s.slabs i).state = .small)
    (hplaced : ∀ x ∈ live', s.slabIndex x.header < s.slabCount)
    (hheld : ∀ j, j ≠ i → s.held live' j = s.held live j) (hslab : SlabOk s' live' i)
    (hlinks : Links s' avail')
    (hother : ∀ c < slabClassCount, ∀ j, j ≠ i → (j ∈ avail' c ↔ j ∈ avail c))
    (hself : ∀ c < slabClassCount, i ∈ avail' c ↔ s'.Available c i)
    (hoccupied : pending' ≠ some i → (s'.slabs i).state = .small → s.held live' i ≠ []) :
    HeapInvariant s' live' avail' pending' where
  slabs := by
    refine h.slabs.update hkeeps hplaced (fun j _ hj => hheld j hj) (fun j hj hji k hk => ?_) ?_
    · rintro rfl
      exact h.slabs.owner_ne hj (Ne.symm hji) hstate hk
    · rintro j hj rfl
      exact hslab
  links := hlinks
  mem_avail c hc j := by
    by_cases hji : j = i
    · subst hji
      exact hself c hc
    · rw [hother c hc j hji, h.mem_avail c hc j, hkeeps.available_iff hji]
  occupied j hj hsmall := by
    rw [hkeeps.held]
    by_cases hji : j = i
    · subst hji
      exact hoccupied hj hsmall
    · rw [hheld j hji]
      refine h.occupied j (fun hpend => hji (hpending j hpend)) ?_
      rwa [hkeeps.field hji SlabDescriptor.state fun _ => rfl] at hsmall

/-- A slab that has no allocation yet may be pending. -/
theorem HeapInvariant.suspend (h : HeapInvariant s live avail none) (i : ℕ) :
    HeapInvariant s live avail (some i) :=
  ⟨h.slabs, h.links, h.mem_avail, fun j _ => h.occupied j (by simp)⟩

/-! ### The scan for free slabs -/

private theorem findFreeSlabRunLoop_eq_some {span remaining index start length k : ℕ}
    (hcount : index + remaining = s.slabCount) (hlength : length ≤ index) (hspan : length < span)
    (hstart : 0 < length → start = index - length)
    (hfree : ∀ j, index - length ≤ j → j < index → (s.slabs j).state = .free)
    (h : s.findFreeSlabRunLoop span remaining index start length = some k) : s.FreeRun k span := by
  induction remaining generalizing index start length with
  | zero => simp [findFreeSlabRunLoop] at h
  | succ remaining ih =>
    rw [findFreeSlabRunLoop] at h
    by_cases hstate : (s.slabs index).state = .free
    · have hfree' : ∀ j, index - length ≤ j → j < index + 1 → (s.slabs j).state = .free := by
        intro j hle hlt
        rcases Nat.lt_succ_iff_lt_or_eq.mp hlt with hlt | rfl
        · exact hfree j hle hlt
        · exact hstate
      have hstart' : (if length = 0 then index else start) = index - length := by
        split_ifs <;> omega
      rw [if_neg (not_not.mpr hstate)] at h
      simp only [hstart'] at h
      by_cases hdone : length + 1 = span
      · rw [if_pos hdone] at h
        obtain rfl : index - length = k := Option.some.inj h
        exact ⟨by omega, fun j hle hlt => hfree' j hle (by omega)⟩
      · rw [if_neg hdone] at h
        refine ih (by omega) (by omega) (by omega) (fun _ => by omega) (fun j hle hlt => ?_) h
        exact hfree' j (by omega) hlt
    · rw [if_pos hstate] at h
      exact ih (by omega) (by omega) (by omega) (by omega) (fun j hle hlt => by omega) h

private theorem findFreeSlabRunLoop_eq_none {span remaining index start length k : ℕ}
    (hcount : index + remaining = s.slabCount) (hlength : length ≤ index) (hspan : length < span)
    (hk : index - length ≤ k)
    (h : s.findFreeSlabRunLoop span remaining index start length = none) : ¬ s.FreeRun k span := by
  rintro ⟨hend, hfree⟩
  induction remaining generalizing index start length with
  | zero => omega
  | succ remaining ih =>
    rw [findFreeSlabRunLoop] at h
    by_cases hstate : (s.slabs index).state = .free
    · rw [if_neg (not_not.mpr hstate)] at h
      simp only at h
      by_cases hdone : length + 1 = span
      · rw [if_pos hdone] at h
        cases h
      · rw [if_neg hdone] at h
        exact ih (by omega) (by omega) (by omega) (by omega) h
    · rw [if_pos hstate] at h
      -- a run that starts at or before this slab would contain it
      by_cases hbefore : k ≤ index
      · exact hstate (hfree index hbefore (by omega))
      · exact ih (by omega) (by omega) (by omega) (by omega) h

theorem findFreeSlabRun_eq_some {span k : ℕ} (h : s.findFreeSlabRun span = some k) :
    0 < span ∧ s.FreeRun k span := by
  unfold findFreeSlabRun at h
  split_ifs at h with hguard
  refine ⟨by omega, findFreeSlabRunLoop_eq_some (by omega) le_rfl (by omega) (by omega) ?_ h⟩
  omega

theorem findFreeSlabRun_eq_none {span k : ℕ} (hspan : 0 < span)
    (h : s.findFreeSlabRun span = none) : ¬ s.FreeRun k span := by
  unfold findFreeSlabRun at h
  split_ifs at h with hguard
  · rintro ⟨hend, -⟩
    omega
  · exact findFreeSlabRunLoop_eq_none (by omega) le_rfl (by omega) (by omega) h

/-! ### Free slabs -/

theorem HeapInvariant.notMem_of_state (h : HeapInvariant s live avail pending)
    (hstate : (s.slabs i).state ≠ .small) : ∀ c < slabClassCount, i ∉ avail c :=
  fun c hc hmem => hstate ((h.mem_avail c hc i).mp hmem).2.1

theorem SlabsOk.held_eq_nil (h : SlabsOk s live) (hi : i < s.slabCount)
    (hstate : (s.slabs i).state = .free) : s.held live i = [] := by
  simpa only [SlabOk, hstate] using h.slab i hi

/-- The list that `buildFreeList` leaves in memory. -/
private theorem buildFreeList_spec {base size : ℕ} (count : ℕ) (mem : ByteMemory) (hsize : 8 ≤ size)
    (hbase : base ≠ 0) (hend : base + count * size < 2 ^ 64) :
    LinkedChain (fun a => (buildFreeList base size mem count).1.load a 8) 0
        (buildFreeList base size mem count).2
        ((List.range count).reverse.map fun k => base + k * size) ∧
      ∀ a, (a < base ∨ base + count * size ≤ a) →
        (buildFreeList base size mem count).1 a = mem a := by
  induction count with
  | zero => exact ⟨rfl, fun _ _ => rfl⟩
  | succ count ih =>
    rw [Nat.succ_mul] at hend
    obtain ⟨hchain, hkeep⟩ := ih (by omega)
    rw [buildFreeList, u64_of_lt (by omega)]
    generalize buildFreeList base size mem count = p at hchain hkeep ⊢
    obtain ⟨mem', freeList⟩ := p
    simp only at hchain hkeep ⊢
    have hlt : freeList < 2 ^ 64 := by
      rcases count with _ | count
      · obtain rfl : freeList = 0 := hchain
        norm_num
      · simp only [List.range_succ, List.reverse_concat, List.map_cons,
          LinkedChain.cons_iff] at hchain
        rw [Nat.succ_mul] at hend
        omega
    refine ⟨?_, fun a ha => ?_⟩
    · simp only [List.range_succ, List.reverse_concat, List.map_cons, LinkedChain.cons_iff]
      refine ⟨trivial, by omega, ?_⟩
      rw [load_store_self (lt_of_lt_of_eq hlt (by norm_num))]
      refine hchain.congr fun a ha => load_store_of_disjoint (.inl ?_)
      obtain ⟨k, hk, rfl⟩ := List.mem_map.mp ha
      have hk' : k < count := by simpa using hk
      have := Nat.mul_le_mul_right size (Nat.succ_le_of_lt hk')
      rw [Nat.succ_mul] at this
      omega
    · rw [Nat.succ_mul] at ha
      rw [store_apply_of_notMem (by omega)]
      exact hkeep a (by omega)

/-- A free slab becomes a small slab, and it is put in front of the list of its class. -/
theorem HeapInvariant.initializeSmallSlab (h : HeapInvariant s live avail none)
    (hi : i < s.slabCount) (hc : c < slabClassCount) (hstate : (s.slabs i).state = .free) :
    ∃ s', s.initializeSmallSlab i c = (s', true) ∧
      HeapInvariant s' live (Function.update avail c (i :: avail c)) (some i) := by
  have hsize := le_getClassObjectSize hc
  have hobjects := objects_pos hc
  have hpage := objects_mul_size hc
  have hheld := h.slabs.held_eq_nil hi hstate
  have hend := h.slabs.end_lt
  have hnext := s.slabBase_mono (show i + 1 ≤ s.slabCount from hi)
  rw [slabBase_succ] at hnext
  have hbase : s.getSlabBaseAddress i = s.slabBase i := u64_of_lt (show s.slabBase i < 2 ^ 64 by
    omega)
  have hbase0 : s.slabBase i ≠ 0 := by
    have := h.slabs.start_ne
    simp only [slabBase]
    omega
  obtain ⟨hchain, hkeep⟩ := buildFreeList_spec (pageSize / getClassObjectSize c)
    s.memory (show 8 ≤ getClassObjectSize c by omega) hbase0 (by rw [hpage]; omega)
  unfold KernelHeapManager.initializeSmallSlab
  rw [if_neg (by omega), if_neg (by omega), if_neg (by omega), hbase]
  generalize buildFreeList (s.slabBase i) (getClassObjectSize c) s.memory
    (pageSize / getClassObjectSize c) = p at hchain hkeep ⊢
  obtain ⟨mem, freeList⟩ := p
  simp only at hchain hkeep ⊢
  set d : SlabDescriptor :=
    { state := .small, classIndex := c, ownerOrSpan := 1,
      totalObjects := pageSize / getClassObjectSize c,
      freeObjects := pageSize / getClassObjectSize c,
      freeList := freeList, prevAvailable := -1, nextAvailable := -1 } with hd
  refine ⟨_, rfl, ?_⟩
  have hnot := h.notMem_of_state (i := i) (by rw [hstate]; decide)
  obtain ⟨hprev, hnextAvail⟩ := h.links.unlinked i hnot
  set s₁ : KernelHeapManager := { s.modifySlab i fun _ => d with memory := mem } with hs₁
  have hslab₁ : ∀ j, s₁.slabs j = if j = i then d else s.slabs j := fun j => by
    simp only [hs₁, modifySlab, Function.update_apply]
  have hlinks₁ : Links s₁ avail := by
    refine h.links.congr (fun j => ?_) (fun j => ?_) rfl
    · rw [hslab₁]
      split_ifs with hj
      · rw [hj, hnextAvail]
      · rfl
    · rw [hslab₁]
      split_ifs with hj
      · rw [hj, hprev]
      · rfl
  obtain ⟨hlinks, hsame⟩ := hlinks₁.link hc hnot
  have hkeeps₁ : KeepsSlabs s s₁ (· = i) := by
    refine ⟨rfl, rfl, rfl, fun j hj => ?_, fun a ha => ?_⟩
    · rw [hslab₁, if_neg hj]
    · refine hkeep a ?_
      rw [hpage]
      exact ha i rfl
  have hkeeps := hkeeps₁.trans (.of_sameContent hsame)
  have hfield : ∀ {β : Type} (f : SlabDescriptor → β), (∀ d, f d.content = f d) →
      f ((s₁.linkSlabIntoClassList i c).slabs i) = f d := fun f hf => by
    rw [← hf, hsame.content, hslab₁, if_pos rfl, hf]
  have hstate' : ((s₁.linkSlabIntoClassList i c).slabs i).state = .small :=
    hfield SlabDescriptor.state fun _ => rfl
  have hclass' : ((s₁.linkSlabIntoClassList i c).slabs i).classIndex = c :=
    hfield SlabDescriptor.classIndex fun _ => rfl
  have hfree' : ((s₁.linkSlabIntoClassList i c).slabs i).freeObjects =
      pageSize / getClassObjectSize c := hfield SlabDescriptor.freeObjects fun _ => rfl
  refine h.step (by simp) hkeeps (.inl hstate) h.slabs.placed (fun _ _ => rfl) ?_ hlinks
    (fun c' hc' j hji => ?_) (fun c' hc' => ?_) (fun hself => absurd rfl hself)
  · simp only [SlabOk, hstate']
    refine ⟨(List.range (pageSize / getClassObjectSize c)).reverse.map fun k =>
        s.slabBase i + k * getClassObjectSize c, by rw [hclass']; exact hc, ?_, ?_, ?_, ?_, ?_, ?_⟩
    · rw [hclass']
      exact hfield SlabDescriptor.totalObjects fun _ => rfl
    · rw [hfree']
      simp
    · rw [show (s₁.linkSlabIntoClassList i c).memory = mem from hsame.memory,
        hfield SlabDescriptor.freeList fun _ => rfl]
      exact hchain
    · rw [hkeeps.held, hheld, hclass', hkeeps.objectStarts, List.map_nil, List.append_nil]
      exact (List.reverse_perm _).map _
    · rw [hkeeps.held, hheld]
      simp
    · rw [hkeeps.held, hheld]
      simp
  · rw [Function.update_apply]
    split_ifs with hcc
    · rw [hcc, List.mem_cons, or_iff_right hji]
    · rfl
  · simp only [Available, hstate', hclass', hfree', hkeeps.slabCount, true_and]
    by_cases hcc : c' = c
    · subst hcc
      simp [hi, hobjects]
    · rw [Function.update_of_ne hcc]
      simp [hnot c' hc', Ne.symm hcc]

/-! ### Taking an object -/

theorem writeHeader_spec (s : KernelHeapManager) (a : ℕ) (hi : i < 2 ^ 32) (hc : c < 2 ^ 16) :
    ∃ mem, s.writeHeader a i c = ({ s with memory := mem }, u64 (a + headerSize)) ∧
      HeaderAt mem a i c ∧ ∀ b, (b < a ∨ a + headerSize ≤ b) → mem b = s.memory b := by
  refine ⟨_, rfl, ⟨?_, ?_, ?_⟩, fun b hb => ?_⟩
  · simp only [storeMemory]
    rw [load_store_of_disjoint (by omega), load_store_of_disjoint (by omega),
      load_store_of_disjoint (by omega), load_store_self (by decide)]
  · simp only [storeMemory]
    rw [load_store_of_disjoint (by omega), load_store_of_disjoint (by omega),
      load_store_self (lt_of_lt_of_eq hi (by norm_num))]
  · simp only [storeMemory]
    rw [load_store_of_disjoint (by omega),
      load_store_self (lt_of_lt_of_eq hc (by norm_num))]
  · simp only [storeMemory, headerSize] at hb ⊢
    rw [store_apply_of_notMem (by omega), store_apply_of_notMem (by omega),
      store_apply_of_notMem (by omega), store_apply_of_notMem (by omega)]

/-- An available slab has a free object. -/
theorem HeapInvariant.smallSlab (h : HeapInvariant s live avail pending) (hi : s.Available c i) :
    ∃ a free, SmallSlab s live i (a :: free) := by
  obtain ⟨hlt, hstate, -, hpos⟩ := hi
  have hslab := h.slabs.slab i hlt
  simp only [SlabOk, hstate] at hslab
  obtain ⟨_ | ⟨a, free⟩, hslab⟩ := hslab
  · simp [hslab.count] at hpos
  · exact ⟨a, free, hslab⟩

/-- The lists after the first free object of a slab has been taken: a slab without further free
objects leaves the list of its class. -/
private theorem HeapInvariant.take_links (h : HeapInvariant s live avail pending)
    (hc : c < slabClassCount) (hi : s.Available c i) {s₁ s₂ : KernelHeapManager}
    (hs₁ : s₁ = s.modifySlab i fun d =>
      { d with
        freeList := s.memory.load (s.slabs i).freeList 8, freeObjects := d.freeObjects - 1 })
    (hs₂ : s₂ = if (s₁.slabs i).freeObjects = 0 then s₁.unlinkSlabFromClassList i c else s₁) :
    ∃ avail', Links s₂ avail' ∧ SameContent s₁ s₂ ∧
      (∀ c' < slabClassCount, ∀ j, j ≠ i → (j ∈ avail' c' ↔ j ∈ avail c')) ∧
      ∀ c' < slabClassCount, i ∈ avail' c' ↔ c' = c ∧ (s₁.slabs i).freeObjects ≠ 0 := by
  have hlinks₁ : Links s₁ avail := by
    refine h.links.congr (fun j => ?_) (fun j => ?_) (by rw [hs₁]; rfl) <;>
    · simp only [hs₁, modifySlab, Function.update_apply]
      split_ifs with hj
      · rw [hj]
      · rfl
  have hmem : ∀ c' < slabClassCount, i ∈ avail c' ↔ c' = c := by
    intro c' hc'
    rw [h.mem_avail c' hc']
    constructor
    · exact fun hi' => hi'.2.2.1.symm.trans hi.2.2.1
    · rintro rfl
      exact hi
  by_cases hzero : (s₁.slabs i).freeObjects = 0
  · rw [if_pos hzero] at hs₂
    obtain ⟨l₁, l₂, havail⟩ := List.append_of_mem ((hmem c hc).mpr rfl)
    obtain ⟨hlinks, hsame⟩ := hlinks₁.unlink hc havail
    have hnodup := (h.links.linked c hc).chain.nodup
    rw [List.nodup_map_iff Nat.cast_injective, havail, List.nodup_middle,
      List.nodup_cons] at hnodup
    refine ⟨_, hs₂ ▸ hlinks, hs₂ ▸ hsame, fun c' hc' j hji => ?_, fun c' hc' => ?_⟩
    · rw [Function.update_apply]
      split_ifs with hcc
      · rw [hcc, havail]
        simp [hji]
      · rfl
    · rw [Function.update_apply]
      split_ifs with hcc
      · simp [hnodup.1, hzero]
      · simp [hmem c' hc', hcc]
  · rw [if_neg hzero] at hs₂
    refine ⟨avail, hs₂ ▸ hlinks₁, hs₂ ▸ .refl s₁, fun _ _ _ _ => Iff.rfl, fun c' hc' => ?_⟩
    rw [hmem c' hc']
    simp [hzero]

/-- Taking an object of an available slab makes it an allocation. -/
theorem HeapInvariant.takeObject (h : HeapInvariant s live avail (some i))
    (hc : c < slabClassCount) (hi : s.Available c i) {size : ℕ}
    (hsize : size + headerSize ≤ getClassObjectSize c) :
    ∃ s' ptr avail', s.takeObject i c = (s', ptr) ∧ ptr ≠ 0 ∧
      HeapInvariant s' (⟨ptr, size⟩ :: live) avail' none := by
  obtain ⟨a, free, hslab⟩ := h.smallSlab hi
  obtain ⟨hlt, hstate, hclass, -⟩ := hi
  have hcount := hslab.count
  obtain ⟨hfirst, ha0, hchain⟩ := hslab.chain
  have ha := hslab.free_mem (a := a) (by simp)
  have hcls := hslab.class_lt
  have hin := mem_objectStarts hcls ha
  have hobj := le_getClassObjectSize hcls
  have hend := h.slabs.end_lt
  have hcountle := h.slabs.count_le
  have hnext := s.slabBase_mono (show i + 1 ≤ s.slabCount from hlt)
  rw [slabBase_succ] at hnext
  obtain ⟨avail', hlinks, hsame, hother, hself⟩ := h.take_links hc ⟨hlt, hstate, hclass, by
    rw [hcount]; simp⟩ rfl rfl
  simp only [KernelHeapManager.takeObject]
  set s₁ := s.modifySlab i fun d =>
    { d with freeList := s.memory.load (s.slabs i).freeList 8, freeObjects := d.freeObjects - 1 }
    with hs₁
  generalize (if (s₁.slabs i).freeObjects = 0 then s₁.unlinkSlabFromClassList i c else s₁) = s₂
    at hlinks hsame ⊢
  rw [show (s.slabs i).freeList = a from hfirst]
  obtain ⟨mem, hwrite, hheader, hkeep⟩ := s₂.writeHeader_spec a (i := i) (c := c)
    (by simp only [kernelHeapPages] at hcountle; omega) (by simp only [slabClassCount] at hc; omega)
  have hptr : u64 (a + headerSize) = a + headerSize :=
    u64_of_lt (by simp only [headerSize]; omega)
  have hx : Allocation.header ⟨a + headerSize, size⟩ = a := Nat.add_sub_cancel ..
  have hindex : s.slabIndex a = i := slabIndex_eq hin.1 (by omega)
  have hkeeps₂ : KeepsSlabs s s₂ (· = i) :=
    (KeepsSlabs.modifySlab (P := (· = i)) s _ rfl).trans (.of_sameContent hsame)
  have hmem₂ : s₂.memory = s.memory := hsame.memory
  have hkeeps : KeepsSlabs s { s₂ with memory := mem } (· = i) := by
    refine ⟨hkeeps₂.heapStart, hkeeps₂.managedHeapSize, hkeeps₂.slabCount, hkeeps₂.content,
      fun b hb => ?_⟩
    have hb' := hb i rfl
    rw [show ({ s₂ with memory := mem } : KernelHeapManager).memory b = mem b from rfl,
      hkeep b (by simp only [headerSize]; omega), hmem₂]
  have hfield : ∀ {β : Type} (f : SlabDescriptor → β), (∀ d, f d.content = f d) →
      f (s₂.slabs i) = f { s.slabs i with
        freeList := s.memory.load (s.slabs i).freeList 8,
        freeObjects := (s.slabs i).freeObjects - 1 } := fun f hf => by
    rw [← hf, hsame.content, hs₁, hf]
    simp only [modifySlab, Function.update_self]
  have hstate' : (s₂.slabs i).state = .small :=
    (hfield SlabDescriptor.state fun _ => rfl).trans hstate
  have hclass' : (s₂.slabs i).classIndex = c :=
    (hfield SlabDescriptor.classIndex fun _ => rfl).trans hclass
  have hfree' : (s₂.slabs i).freeObjects = free.length := by
    rw [hfield SlabDescriptor.freeObjects fun _ => rfl]
    simp [hcount]
  subst hclass
  refine ⟨_, _, avail', hwrite, by rw [hptr]; simp only [headerSize]; omega, ?_⟩
  rw [hptr]
  have hheld : s.held (⟨a + headerSize, size⟩ :: live) i =
      ⟨a + headerSize, size⟩ :: s.held live i := by
    rw [held_cons, hx, hindex, if_pos rfl]
  refine h.step (by simp) hkeeps (.inr hstate) ?_ (fun j hji => ?_) ?_ (hlinks.congr (fun _ => rfl)
    (fun _ => rfl) rfl) hother (fun c' hc' => ?_) fun _ _ => by rw [hheld]; simp
  · rw [List.forall_mem_cons, hx, hindex]
    exact ⟨hlt, h.slabs.placed⟩
  · rw [held_cons, hx, hindex, if_neg (Ne.symm hji)]
  · -- the other objects keep their bytes
    have hbytes : ∀ b ∈ s.objectStarts i (s.slabs i).classIndex, b ≠ a → ∀ n ≤ headerSize,
        ∀ e, b ≤ e → e < b + n → mem e = s.memory e := by
      intro b hb hba n hn e hle hlt
      rw [hkeep e, hmem₂]
      have := objectStarts_disjoint hb ha hba
      simp only [headerSize] at *
      omega
    simp only [SlabOk, hstate']
    have hnodup := hslab.nodup
    rw [List.cons_append, List.nodup_cons, List.mem_append, not_or] at hnodup
    refine ⟨free, by simpa only [hclass'] using hcls, ?_, hfree', ?_, ?_, ?_, ?_⟩
    · simp only [hclass']
      exact (hfield SlabDescriptor.totalObjects fun _ => rfl).trans hslab.total
    · simp only [hfield SlabDescriptor.freeList fun _ => rfl, hfirst]
      refine hchain.congr fun b hb => load_congr ?_
      refine hbytes b (hslab.free_mem (List.mem_cons_of_mem a hb)) ?_ 8 (by simp [headerSize])
      rintro rfl
      exact hnodup.1.1 hb
    · simp only [hkeeps.held, hheld, hclass', hkeeps.objectStarts, List.map_cons, hx]
      exact List.perm_middle.trans hslab.objects
    · simp only [hkeeps.held, hheld, hclass', List.forall_mem_cons]
      exact ⟨hsize, hslab.room⟩
    · simp only [hkeeps.held, hheld, hclass', List.forall_mem_cons, hx]
      refine ⟨hheader, fun y hy => (hslab.header y hy).congr ?_⟩
      refine hbytes y.header (hslab.header_mem hy) ?_ headerSize le_rfl
      intro hya
      exact hnodup.1.2 (hya ▸ List.mem_map_of_mem hy)
  · rw [hself c' hc']
    have hfree₁ : (s₁.slabs i).freeObjects = free.length := by
      simp [hs₁, modifySlab, hcount]
    simp only [Available, hstate', hclass', hfree', hfree₁]
    have hlt' : i < s₂.slabCount := by rwa [hkeeps₂.slabCount]
    rw [eq_comm, Nat.pos_iff_ne_zero]
    simp [hlt']

/-! ### Requests of a small class -/

/-- The slab that serves a request of a class, and the reason if there is none. -/
theorem HeapInvariant.availableSlab (h : HeapInvariant s live avail none) (hc : c < slabClassCount) :
    (s.availableSlab c = (s, none) ∧ (∀ i, ¬ s.Available c i) ∧ ∀ i, ¬ s.FreeRun i 1) ∨
      ∃ s' i avail', s.availableSlab c = (s', some i) ∧ HeapInvariant s' live avail' (some i) ∧
        s'.Available c i := by
  unfold KernelHeapManager.availableSlab
  rcases havail : avail c with _ | ⟨i, l⟩
  · have hhead := (h.links.head_eq_none_iff hc).mpr havail
    rw [if_neg (not_not.mpr hhead)]
    cases hfind : s.findFreeSlabRun 1 with
    | none =>
      refine .inl ⟨rfl, fun i hi => ?_, fun i => findFreeSlabRun_eq_none one_pos hfind⟩
      rw [← h.mem_avail c hc, havail] at hi
      exact List.not_mem_nil hi
    | some i =>
      obtain ⟨-, hend, hfree⟩ := findFreeSlabRun_eq_some hfind
      obtain ⟨s', hinit, hinv⟩ :=
        h.initializeSmallSlab (i := i) (by omega) hc (hfree i le_rfl (by omega))
      have hhead' := hinv.links.head_of_cons (i := i) (l := avail c) hc (by simp)
      refine .inr ⟨s', i, _, ?_, hinv, (hinv.mem_avail c hc i).mp (by simp)⟩
      simp only [hinit, hhead', Int.toNat_natCast]
      rw [if_neg (by omega)]
  · have hhead := h.links.head_of_cons hc havail
    refine .inr ⟨s, i, avail, ?_, h.suspend i, (h.mem_avail c hc i).mp (by simp [havail])⟩
    rw [if_pos (by omega), hhead, Int.toNat_natCast]

/-- A request of a small class is served, or there are no free object and no free slab. -/
theorem HeapInvariant.kmallocSmall (h : HeapInvariant s live avail none) (hc : c < slabClassCount)
    {size : ℕ} (hsize : size + headerSize ≤ getClassObjectSize c) :
    (s.kmallocSmall c = (s, 0) ∧ (∀ i, ¬ s.Available c i) ∧ ∀ i, ¬ s.FreeRun i 1) ∨
      ∃ s' ptr avail', s.kmallocSmall c = (s', ptr) ∧ ptr ≠ 0 ∧
        HeapInvariant s' (⟨ptr, size⟩ :: live) avail' none := by
  rcases h.availableSlab hc with ⟨hnone, hfull⟩ | ⟨s₁, i, avail₁, hsome, h₁, hi⟩
  · exact .inl ⟨by rw [KernelHeapManager.kmallocSmall, hnone], hfull⟩
  · obtain ⟨s', ptr, avail', htake, hptr, hinv⟩ := h₁.takeObject hc hi hsize
    obtain ⟨a, free, hslab⟩ := h₁.smallSlab hi
    refine .inr ⟨s', ptr, avail', ?_, hptr, hinv⟩
    have hguard : ¬ ((s₁.slabs i).freeList = 0 ∨ (s₁.slabs i).freeObjects = 0) := by
      rintro (hzero | hzero)
      · exact hslab.chain.2.1 (hslab.chain.1 ▸ hzero)
      · exact hi.2.2.2.ne' hzero
    simp only [KernelHeapManager.kmallocSmall, hsome]
    rw [if_neg hguard, htake]

/-! ### Requests of several slabs -/

/-- The invariant after a step that changes slabs off the lists only and leaves none of them
small. -/
theorem HeapInvariant.step_unlisted {P : ℕ → Prop} (h : HeapInvariant s live avail pending)
    (hkeeps : KeepsSlabs s s' P)
    (hstate : ∀ i, P i → (s.slabs i).state ≠ .small ∧ (s'.slabs i).state ≠ .small)
    (hlinks : ∀ i, (s'.slabs i).nextAvailable = (s.slabs i).nextAvailable ∧
      (s'.slabs i).prevAvailable = (s.slabs i).prevAvailable)
    (hhead : s'.classAvailableHead = s.classAvailableHead)
    (hheld : ∀ i, ¬ P i → s.held live' i = s.held live i) (hslabs : SlabsOk s' live') :
    HeapInvariant s' live' avail pending where
  slabs := hslabs
  links := h.links.congr (fun i => (hlinks i).1) (fun i => (hlinks i).2) hhead
  mem_avail c hc i := by
    rw [h.mem_avail c hc i]
    by_cases hP : P i
    · have := hstate i hP
      simp only [Available, this.1, this.2, false_and, and_false]
    · exact (hkeeps.available_iff hP).symm
  occupied i hi hsmall := by
    by_cases hP : P i
    · exact absurd hsmall (hstate i hP).2
    · rw [hkeeps.held, hheld i hP]
      refine h.occupied i hi ?_
      rwa [hkeeps.field hP SlabDescriptor.state fun _ => rfl] at hsmall

theorem markTails_slabs (head count : ℕ) (s : KernelHeapManager) (j : ℕ) :
    (markTails head count s).slabs j =
      if head < j ∧ j ≤ head + count then .largeTail head else s.slabs j := by
  induction count with
  | zero => rw [markTails, if_neg (by omega)]
  | succ count ih =>
    simp only [markTails, modifySlab, Function.update_apply, ih]
    grind

theorem markTails_eq (head count : ℕ) (s : KernelHeapManager) :
    markTails head count s = { s with slabs := (markTails head count s).slabs } := by
  induction count with
  | zero => rfl
  | succ count ih =>
    rw [markTails, ih]
    rfl

/-- What `takeRun` does: a header is written, and the run gets its head and its tails. -/
private theorem SlabsOk.takeRun_spec (h : SlabsOk s live) {span : ℕ} (hpos : 0 < span)
    (hrun : i + span ≤ s.slabCount) :
    ∃ slabs mem, s.takeRun i span =
        ({ s with slabs := slabs, memory := mem }, s.slabBase i + headerSize) ∧
      slabs i = .largeHead span ∧ (∀ j, i < j → j < i + span → slabs j = .largeTail i) ∧
      (∀ j, ¬ (i ≤ j ∧ j < i + span) → slabs j = s.slabs j) ∧
      HeaderAt mem (s.slabBase i) i largeClassSentinel ∧
      ∀ b, (b < s.slabBase i ∨ s.slabBase i + pageSize ≤ b) → mem b = s.memory b := by
  have hcount := h.count_le
  have hend := h.end_lt
  simp only [kernelHeapPages] at hcount
  have hnext := s.slabBase_mono (show i + 1 ≤ s.slabCount by omega)
  rw [slabBase_succ] at hnext
  have hbase : u64 (s.slabBase i) = s.slabBase i := u64_of_lt (by omega)
  have hptr : u64 (s.slabBase i + headerSize) = s.slabBase i + headerSize :=
    u64_of_lt (by simp only [headerSize, pageSize] at *; omega)
  unfold KernelHeapManager.takeRun
  set s₁ := s.modifySlab i fun _ => .largeHead span with hs₁
  have hslab : ∀ j, (markTails i (span - 1) s₁).slabs j =
      if i < j ∧ j ≤ i + (span - 1) then .largeTail i
      else if j = i then .largeHead span else s.slabs j := by
    intro j
    rw [markTails_slabs, hs₁]
    simp only [modifySlab, Function.update_apply]
  have hrest : markTails i (span - 1) s₁ =
      { s with slabs := (markTails i (span - 1) s₁).slabs } := by rw [markTails_eq]; rfl
  generalize (markTails i (span - 1) s₁).slabs = slabs at hslab hrest
  simp only [hrest]
  obtain ⟨mem, hwrite, hheader, hkeep⟩ := writeHeader_spec { s with slabs := slabs } (s.slabBase i)
    (i := i) (c := largeClassSentinel) (by omega) (by decide)
  refine ⟨slabs, mem, ?_, ?_, fun j hij hj => ?_, fun j hj => ?_, hheader, fun b hb => ?_⟩
  · rw [show getSlabBaseAddress { s with slabs := slabs } i = s.slabBase i from hbase, hwrite, hptr]
  · rw [hslab, if_neg (by omega), if_pos rfl]
  · rw [hslab, if_pos (by omega)]
  · rw [hslab, if_neg (by omega), if_neg (by omega)]
  · exact hkeep b (by simp only [headerSize, pageSize] at *; omega)

/-- Taking a run of free slabs makes it an allocation. -/
theorem HeapInvariant.takeRun (h : HeapInvariant s live avail none) {size span : ℕ} (hpos : 0 < span)
    (hrun : s.FreeRun i span) (hroom : size + headerSize ≤ span * pageSize) :
    ∃ s' ptr, s.takeRun i span = (s', ptr) ∧ ptr ≠ 0 ∧
      HeapInvariant s' (⟨ptr, size⟩ :: live) avail none := by
  obtain ⟨hend, hfree⟩ := hrun
  obtain ⟨slabs, mem, htake, hhead, htails, hothers, hheader, hkeep⟩ := h.slabs.takeRun_spec hpos hend
  have hx : Allocation.header ⟨s.slabBase i + headerSize, size⟩ = s.slabBase i :=
    Nat.add_sub_cancel ..
  have hindex : s.slabIndex (s.slabBase i) = i := slabIndex_eq le_rfl (by simp [pageSize])
  have hkeeps : KeepsSlabs s { s with slabs := slabs, memory := mem }
      fun j => i ≤ j ∧ j < i + span :=
    ⟨rfl, rfl, rfl, fun j hj => by rw [show SlabDescriptor.content (slabs j) = _ by
      rw [hothers j hj]], fun b hb => hkeep b (hb i ⟨le_rfl, by omega⟩)⟩
  have hcases : ∀ j, i ≤ j → j < i + span → slabs j = .largeHead span ∨ slabs j = .largeTail i := by
    intro j hij hj
    rcases Nat.eq_or_lt_of_le hij with rfl | hij
    · exact .inl hhead
    · exact .inr (htails j hij hj)
  refine ⟨_, _, htake, by simp [headerSize], ?_⟩
  have hheld' : ∀ j, ¬ (i ≤ j ∧ j < i + span) →
      s.held (⟨s.slabBase i + headerSize, size⟩ :: live) j = s.held live j := by
    intro j hj
    rw [held_cons, hx, hindex, if_neg (by omega)]
  refine h.step_unlisted hkeeps (fun j hj => ⟨?_, ?_⟩) (fun j => ?_) rfl hheld' ?_
  · rw [hfree j hj.1 hj.2]
    decide
  · change (slabs j).state ≠ .small
    rcases hcases j hj.1 hj.2 with hj | hj <;> simp [hj]
  · change (slabs j).nextAvailable = _ ∧ (slabs j).prevAvailable = _
    by_cases hj : i ≤ j ∧ j < i + span
    · obtain ⟨hprev, hnext⟩ := h.links.unlinked j
        (h.notMem_of_state (by rw [hfree j hj.1 hj.2]; decide))
      rw [hprev, hnext]
      rcases hcases j hj.1 hj.2 with hj | hj <;> · rw [hj]; exact ⟨rfl, rfl⟩
    · rw [hothers j hj]
      exact ⟨rfl, rfl⟩
  · refine h.slabs.update hkeeps ?_ (fun j _ hP => hheld' j hP) (fun j hj hP k hk hk' => ?_)
      fun j hj hP => ?_
    · rw [List.forall_mem_cons, hx, hindex]
      exact ⟨by omega, h.slabs.placed⟩
    · refine h.slabs.owner_ne hj ?_ (.inl (hfree k hk'.1 hk'.2)) hk
      rintro rfl
      exact hP hk'
    · have hheld := h.slabs.held_eq_nil hj (hfree j hP.1 hP.2)
      rcases Nat.eq_or_lt_of_le hP.1 with rfl | hij
      · refine .of_largeHead (congrArg SlabDescriptor.state hhead) ⟨?_, ?_, ?_,
          ⟨s.slabBase i + headerSize, size⟩, ?_, ?_, ?_, hx.symm ▸ hheader⟩
        · simpa only [hhead, SlabDescriptor.ownerOrSpan_largeHead] using hpos
        · simpa only [hhead, SlabDescriptor.ownerOrSpan_largeHead] using hend
        · simp only [hhead]
          intro k hik hk
          rw [htails k hik hk]
          exact ⟨rfl, rfl⟩
        · rw [hkeeps.held, held_cons, hx, hindex, if_pos rfl, hheld]
        · exact hx
        · simpa only [hhead, SlabDescriptor.ownerOrSpan_largeHead] using hroom
      · have howner : (slabs j).ownerOrSpan = i := congrArg _ (htails j hij hP.2)
        refine .of_largeTail (congrArg SlabDescriptor.state (htails j hij hP.2)) ?_ ?_ ?_ ?_
        · rw [hkeeps.held, held_cons, hx, hindex, if_neg (by omega), hheld]
        · exact howner.trans_lt hij
        · change (slabs (slabs j).ownerOrSpan).state = _
          rw [howner, hhead]
          rfl
        · change j < (slabs j).ownerOrSpan + (slabs (slabs j).ownerOrSpan).ownerOrSpan
          rw [howner, hhead]
          exact hP.2

/-- A request of several slabs is served, or there is no run of enough free slabs. -/
theorem HeapInvariant.kmallocLarge (h : HeapInvariant s live avail none) (size : ℕ) :
    (s.kmallocLarge size = (s, 0) ∧
        ∀ i, ¬ s.FreeRun i ((size + headerSize + (pageSize - 1)) / pageSize)) ∨
      ∃ s' ptr, s.kmallocLarge size = (s', ptr) ∧ ptr ≠ 0 ∧
        HeapInvariant s' (⟨ptr, size⟩ :: live) avail none := by
  have hcount := h.slabs.count_le
  unfold KernelHeapManager.kmallocLarge
  simp only [kernelHeapPages] at hcount
  by_cases hbig : 2 ^ 64 ≤ size + headerSize + (pageSize - 1)
  · -- so large a request fails, whether or not the sum wraps
    refine .inl ⟨?_, fun i hi => ?_⟩
    · by_cases hover : sizeMax - headerSize < size
      · rw [if_pos hover]
      · have hzero : u64 (size + headerSize + (pageSize - 1)) / pageSize = 0 := by
          simp only [u64, sizeMax, headerSize, pageSize] at *
          omega
        simp only [if_neg hover, hzero, if_true]
    · have := hi.1
      simp only [headerSize, pageSize] at *
      omega
  · have hfit : ¬ sizeMax - headerSize < size := by
      simp only [sizeMax, headerSize, pageSize] at *
      omega
    rw [if_neg hfit, u64_of_lt (by omega)]
    have hspan : 0 < (size + headerSize + (pageSize - 1)) / pageSize := by
      simp only [headerSize, pageSize]
      omega
    have hroom : size + headerSize ≤ (size + headerSize + (pageSize - 1)) / pageSize * pageSize := by
      simp only [headerSize, pageSize]
      omega
    generalize (size + headerSize + (pageSize - 1)) / pageSize = span at hspan hroom ⊢
    simp only [if_neg hspan.ne']
    cases hfind : s.findFreeSlabRun span with
    | none => exact .inl ⟨rfl, fun i => findFreeSlabRun_eq_none hspan hfind⟩
    | some i => exact .inr (h.takeRun hspan (findFreeSlabRun_eq_some hfind).2 hroom)

end KernelHeapManager

end TwistedOS
