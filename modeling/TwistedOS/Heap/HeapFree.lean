import TwistedOS.Heap.HeapAllocate

/-!
# Deallocation preserves the heap invariant

A call of `kfree` with the pointer of a live allocation passes all checks. An object goes back to
the free list of its slab, and a slab whose objects are all free becomes a free slab; a run of slabs
becomes free slabs.

## Main results

* `KernelHeapManager.HeapInvariant.putObject`, `KernelHeapManager.HeapInvariant.releaseRun`.
* `KernelHeapManager.HeapInvariant.kfree`.
-/

namespace TwistedOS

namespace KernelHeapManager

variable {s s' : KernelHeapManager} {live live' : List Allocation} {avail : ℕ → List ℕ} {i c : ℕ}
  {pending : Option ℕ}

/-! ### Free slabs -/

theorem resetSlabs_slabs (start count : ℕ) (s : KernelHeapManager) (j : ℕ) :
    (resetSlabs start count s).slabs j =
      if start ≤ j ∧ j < start + count then .reset else s.slabs j := by
  induction count with
  | zero => rw [resetSlabs, if_neg (by omega)]
  | succ count ih =>
    simp only [resetSlabs, modifySlab, Function.update_apply, ih]
    grind

theorem resetSlabs_eq (start count : ℕ) (s : KernelHeapManager) :
    resetSlabs start count s = { s with slabs := (resetSlabs start count s).slabs } := by
  induction count with
  | zero => rfl
  | succ count ih =>
    rw [resetSlabs, ih]
    rfl

theorem SlabsOk.slabBase_lt (h : SlabsOk s live) (hi : i < s.slabCount) :
    s.slabBase i + pageSize < 2 ^ 64 := by
  have hend := h.end_lt
  have hnext := s.slabBase_mono (show i + 1 ≤ s.slabCount from hi)
  rw [slabBase_succ] at hnext
  omega

/-- A small slab without allocations leaves its list and becomes free. -/
theorem HeapInvariant.releaseSlab (h : HeapInvariant s live avail (some i))
    (hc : c < slabClassCount) (hi : s.Available c i) (hheld : s.held live i = []) :
    ∃ avail', HeapInvariant ((s.unlinkSlabFromClassList i c).releaseSlabRun i 1) live avail'
      none := by
  obtain ⟨l₁, l₂, havail⟩ := List.append_of_mem ((h.mem_avail c hc i).mpr hi)
  obtain ⟨hlinks, hsame⟩ := h.links.unlink hc havail
  have hnodup := (h.links.linked c hc).chain.nodup
  rw [List.nodup_map_iff Nat.cast_injective, havail, List.nodup_middle, List.nodup_cons] at hnodup
  have hnot : ∀ c' < slabClassCount, i ∉ Function.update avail c (l₁ ++ l₂) c' := by
    intro c' hc'
    rw [Function.update_apply]
    split_ifs with hcc
    · exact hnodup.1
    · rw [h.mem_avail c' hc']
      exact fun hi' => hcc (hi'.2.2.1.symm.trans hi.2.2.1)
  obtain ⟨hprev, hnext⟩ := hlinks.unlinked i hnot
  have hcount := hsame.slabCount
  rw [releaseSlabRun, if_neg (by rw [hcount]; have := hi.1; omega)]
  change ∃ avail', HeapInvariant
    ((s.unlinkSlabFromClassList i c).modifySlab i fun _ => .reset) _ _ _
  generalize s.unlinkSlabFromClassList i c = s₁ at *
  have hslab : ∀ j, (s₁.modifySlab i fun _ => .reset).slabs j =
      if j = i then .reset else s₁.slabs j := fun j => by
    simp only [modifySlab, Function.update_apply]
  have hkeeps : KeepsSlabs s (s₁.modifySlab i fun _ => .reset) (· = i) :=
    (KeepsSlabs.of_sameContent hsame).trans (.modifySlab (P := (· = i)) s₁ _ rfl)
  refine ⟨_, h.step (by simp) hkeeps (.inr hi.2.1) h.slabs.placed (fun _ _ => rfl) ?_
    (hlinks.congr (fun j => ?_) (fun j => ?_) rfl) (fun c' hc' j hji => ?_) (fun c' hc' => ?_)
    fun _ hsmall => ?_⟩
  · unfold SlabOk
    rw [hslab, if_pos rfl]
    change held _ _ _ = []
    rw [hkeeps.held, hheld]
  · rw [hslab]
    split_ifs with hj
    · rw [hj, hnext]
      rfl
    · rfl
  · rw [hslab]
    split_ifs with hj
    · rw [hj, hprev]
      rfl
    · rfl
  · rw [Function.update_apply]
    split_ifs with hcc
    · rw [hcc, havail]
      simp [hji]
    · rfl
  · have hfree : ¬ Available (s₁.modifySlab i fun _ => .reset) c' i := by
      rintro ⟨-, -, -, hpos⟩
      rw [hslab, if_pos rfl] at hpos
      exact absurd hpos (by decide)
    exact iff_of_false (hnot c' hc') hfree
  · rw [hslab, if_pos rfl] at hsmall
    exact absurd hsmall (by decide)

/-- The run of an allocation becomes free slabs. -/
theorem HeapInvariant.releaseRun (h : HeapInvariant s live avail none)
    (hrun : LargeRun s live i) (hstate : (s.slabs i).state = .largeHead) {x : Allocation}
    (hx : x ∈ s.held live i) :
    HeapInvariant ((s.storeMemory x.header 4 0).releaseSlabRun i (s.slabs i).ownerOrSpan)
      (live.erase x) avail none := by
  have hin := hrun.in_range
  have hpos := hrun.span_pos
  obtain ⟨hbase, -, -⟩ := hrun.payload h.slabs.start_ne hx
  have hindex : s.slabIndex x.header = i := (mem_held.mp hx).2
  have hslabs := resetSlabs_slabs i (s.slabs i).ownerOrSpan (s.storeMemory x.header 4 0)
  have hrest := resetSlabs_eq i (s.slabs i).ownerOrSpan (s.storeMemory x.header 4 0)
  have hguard : ¬ ((s.slabs i).ownerOrSpan = 0 ∨
      (s.storeMemory x.header 4 0).slabCount < i + (s.slabs i).ownerOrSpan) := by
    simp only [storeMemory]
    omega
  rw [releaseSlabRun, if_neg hguard]
  generalize resetSlabs i (s.slabs i).ownerOrSpan (s.storeMemory x.header 4 0) = s₁ at *
  -- the slabs of the run are on no list
  have hcases : ∀ j, i ≤ j → j < i + (s.slabs i).ownerOrSpan → (s.slabs j).state ≠ .small ∧
      s.owner j = i := by
    intro j hij hj
    rcases Nat.eq_or_lt_of_le hij with rfl | hij
    · simp [owner, hstate]
    · obtain ⟨htail, howner⟩ := hrun.tails j hij hj
      simp [owner, htail, howner]
  have hkeeps : KeepsSlabs s s₁ fun j => i ≤ j ∧ j < i + (s.slabs i).ownerOrSpan := by
    refine ⟨by rw [hrest]; rfl, by rw [hrest]; rfl, by rw [hrest]; rfl, fun j hj => ?_,
      fun b hb => ?_⟩
    · rw [hslabs, if_neg hj]
      rfl
    · have := hb i ⟨le_rfl, by omega⟩
      rw [hrest]
      exact ByteMemory.store_apply_of_notMem (by simp only [pageSize] at this; omega)
  have hheld : ∀ j, ¬ (i ≤ j ∧ j < i + (s.slabs i).ownerOrSpan) →
      s.held (live.erase x) j = s.held live j := by
    intro j hj
    rw [held_erase, List.erase_of_not_mem]
    intro hxj
    have := (mem_held.mp hxj).2
    omega
  refine h.step_unlisted hkeeps (fun j hj => ⟨(hcases j hj.1 hj.2).1, ?_⟩) (fun j => ?_)
    (by rw [hrest]; rfl) hheld ?_
  · rw [hslabs, if_pos hj]
    decide
  · rw [hslabs]
    split_ifs with hj
    · obtain ⟨hprev, hnext⟩ :=
        h.links.unlinked j (h.notMem_of_state (hcases j hj.1 hj.2).1)
      rw [hprev, hnext]
      exact ⟨rfl, rfl⟩
    · exact ⟨rfl, rfl⟩
  · refine h.slabs.update hkeeps (fun y hy => h.slabs.placed y (List.mem_of_mem_erase hy))
      (fun j _ hP => hheld j hP) (fun j hj hP k hk hk' => ?_) fun j hj hP => ?_
    · -- a slab outside the run is no tail of it
      rw [(hcases k hk'.1 hk'.2).2] at hk
      by_cases htail : (s.slabs j).state = .largeTail
      · rw [owner, if_pos htail] at hk
        have hslab := h.slabs.slab j hj
        simp only [SlabOk, htail, ← hk] at hslab
        exact hP ⟨hslab.2.1.le, hslab.2.2.2⟩
      · rw [owner, if_neg htail] at hk
        exact hP ⟨hk.le, by omega⟩
    · unfold SlabOk
      rw [hslabs, if_pos hP]
      change held _ _ _ = []
      rw [hkeeps.held, held_erase]
      rcases Nat.eq_or_lt_of_le hP.1 with rfl | hij
      · obtain ⟨y, hy, -⟩ := hrun.held
        obtain rfl : x = y := by simpa [hy] using hx
        rw [hy, List.erase_cons_head]
      · have hslab := h.slabs.slab j hj
        simp only [SlabOk, (hrun.tails j hij hP.2).1] at hslab
        rw [hslab.1]
        rfl

/-! ### Free objects -/

/-- The lists when an object of a slab is about to be freed: a slab without free objects enters the
list of its class. -/
private theorem HeapInvariant.put_links (h : HeapInvariant s live avail pending)
    (hc : c < slabClassCount) (hi : i < s.slabCount) (hstate : (s.slabs i).state = .small)
    (hclass : (s.slabs i).classIndex = c) {a : ℕ} {s₁ s₂ : KernelHeapManager}
    (hs₁ : s₁ = s.storeMemory a 4 0)
    (hs₂ : s₂ = if (s₁.slabs i).freeObjects = 0 then s₁.linkSlabIntoClassList i c else s₁) :
    ∃ avail', Links s₂ avail' ∧ SameContent s₁ s₂ ∧
      (∀ c' < slabClassCount, ∀ j, j ≠ i → (j ∈ avail' c' ↔ j ∈ avail c')) ∧
      ∀ c' < slabClassCount, i ∈ avail' c' ↔ c' = c := by
  have hlinks₁ : Links s₁ avail := by
    rw [hs₁]
    exact h.links.congr (fun _ => rfl) (fun _ => rfl) rfl
  have hfree₁ : (s₁.slabs i).freeObjects = (s.slabs i).freeObjects := by rw [hs₁]; rfl
  by_cases hzero : (s.slabs i).freeObjects = 0
  · have hnot : ∀ c' < slabClassCount, i ∉ avail c' := by
      intro c' hc' hmem
      exact ((h.mem_avail c' hc' i).mp hmem).2.2.2.ne' hzero
    rw [if_pos (hfree₁.trans hzero)] at hs₂
    obtain ⟨hlinks, hsame⟩ := hlinks₁.link hc hnot
    refine ⟨_, hs₂ ▸ hlinks, hs₂ ▸ hsame, fun c' hc' j hji => ?_, fun c' hc' => ?_⟩
    · rw [Function.update_apply]
      split_ifs with hcc
      · rw [hcc, List.mem_cons, or_iff_right hji]
      · rfl
    · rw [Function.update_apply]
      split_ifs with hcc
      · simp [hcc]
      · simp [hnot c' hc', hcc]
  · rw [if_neg (by rw [hfree₁]; exact hzero)] at hs₂
    refine ⟨avail, hs₂ ▸ hlinks₁, hs₂ ▸ .refl s₁, fun _ _ _ _ => Iff.rfl, fun c' hc' => ?_⟩
    rw [h.mem_avail c' hc']
    simp only [Available, hi, hstate, hclass, true_and, Nat.pos_of_ne_zero hzero, and_true, eq_comm]

/-- An allocated object becomes a free object of its slab. -/
private theorem HeapInvariant.push_object (h : HeapInvariant s live avail none)
    (hc : c < slabClassCount) (hi : i < s.slabCount) (hstate : (s.slabs i).state = .small)
    (hclass : (s.slabs i).classIndex = c) {x : Allocation} (hx : x ∈ s.held live i)
    {s₁ s₂ s₄ : KernelHeapManager} (hs₁ : s₁ = s.storeMemory x.header 4 0)
    (hs₂ : s₂ = if (s₁.slabs i).freeObjects = 0 then s₁.linkSlabIntoClassList i c else s₁)
    (hs₄ : s₄ = (s₂.storeMemory x.header 8 (s₂.slabs i).freeList).modifySlab i fun d =>
      { d with freeList := x.header, freeObjects := d.freeObjects + 1 }) :
    (∃ avail', HeapInvariant s₄ (live.erase x) avail' (some i)) ∧ s₄.Available c i ∧
      ∃ free, SmallSlab s₄ (live.erase x) i free := by
  subst hclass
  have hslab := h.slabs.slab i hi
  simp only [SlabOk, hstate] at hslab
  obtain ⟨free, hslab⟩ := hslab
  obtain ⟨avail', hlinks, hsame, hother, hself⟩ := h.put_links hc hi hstate rfl hs₁ hs₂
  have ha := hslab.header_mem hx
  have hin := mem_objectStarts hc ha
  have hobj := le_getClassObjectSize hc
  have hbase := h.slabs.slabBase_lt hi
  have hindex : s.slabIndex x.header = i := (mem_held.mp hx).2
  have hfield₂ : ∀ {β : Type} (f : SlabDescriptor → β), (∀ d, f d.content = f d) →
      f (s₂.slabs i) = f (s.slabs i) := fun f hf => by
    rw [SlabDescriptor.field_eq f hf (hsame.content i), hs₁]
    rfl
  have hlist : (s.slabs i).freeList < 2 ^ 64 := by
    rcases free with _ | ⟨b, free⟩
    · rw [show (s.slabs i).freeList = 0 from hslab.chain]
      norm_num
    · rw [hslab.chain.1]
      have := mem_objectStarts hc (hslab.free_mem (a := b) (by simp))
      omega
  have hkeeps₁ : KeepsSlabs s s₁ (· = i) :=
    hs₁ ▸ KeepsSlabs.storeMemory (P := (· = i)) s 0 rfl hin.1 (by omega)
  have hkeeps₂ : KeepsSlabs s s₂ (· = i) := hkeeps₁.trans (.of_sameContent hsame)
  have hkeeps₃ : KeepsSlabs s (s₂.storeMemory x.header 8 (s₂.slabs i).freeList) (· = i) :=
    hkeeps₂.trans (.storeMemory (P := (· = i)) s₂ _ rfl (by rw [hkeeps₂.slabBase]; omega)
      (by rw [hkeeps₂.slabBase]; omega))
  have hkeeps : KeepsSlabs s s₄ (· = i) :=
    hs₄ ▸ hkeeps₃.trans (.modifySlab (P := (· = i)) _ _ rfl)
  have hmem : s₄.memory = (s.memory.store x.header 4 0).store x.header 8 (s.slabs i).freeList := by
    rw [hs₄]
    change s₂.memory.store x.header 8 (s₂.slabs i).freeList = _
    rw [hfield₂ SlabDescriptor.freeList fun _ => rfl, hsame.memory, hs₁]
    rfl
  have hdesc : s₄.slabs i = { s₂.slabs i with
      freeList := x.header, freeObjects := (s₂.slabs i).freeObjects + 1 } := by
    rw [hs₄]
    simp only [modifySlab, Function.update_self]
    rfl
  have hstate' : (s₄.slabs i).state = .small := by
    rw [hdesc]
    exact (hfield₂ SlabDescriptor.state fun _ => rfl).trans hstate
  have hclass' : (s₄.slabs i).classIndex = (s.slabs i).classIndex := by
    rw [hdesc]
    exact hfield₂ SlabDescriptor.classIndex fun _ => rfl
  have hfree' : (s₄.slabs i).freeObjects = free.length + 1 := by
    rw [hdesc]
    exact congrArg (· + 1) ((hfield₂ SlabDescriptor.freeObjects fun _ => rfl).trans hslab.count)
  -- the other objects keep their bytes
  have hbytes : ∀ b ∈ s.objectStarts i (s.slabs i).classIndex, b ≠ x.header → ∀ n ≤ headerSize,
      ∀ e, b ≤ e → e < b + n → s₄.memory e = s.memory e := by
    intro b hb hba n hn e hle hlt
    have hdisj := objectStarts_disjoint hb ha hba
    simp only [headerSize] at hn
    rw [hmem, ByteMemory.store_apply_of_notMem (by omega),
      ByteMemory.store_apply_of_notMem (by omega)]
  have hnodup := List.nodup_append.mp hslab.nodup
  have hheader_ne : ∀ y ∈ (s.held live i).erase x, y.header ≠ x.header := by
    have hperm := ((List.perm_cons_erase hx).map Allocation.header).nodup_iff.mp hnodup.2.1
    rw [List.map_cons, List.nodup_cons] at hperm
    exact fun y hy hyx => hperm.1 (hyx ▸ List.mem_map_of_mem hy)
  have hsmall : SmallSlab s₄ (live.erase x) i (x.header :: free) := by
    refine ⟨by rw [hclass']; exact hc, ?_, by rw [hfree']; rfl, ?_, ?_, ?_, ?_⟩
    · rw [hclass', hdesc]
      exact (hfield₂ SlabDescriptor.totalObjects fun _ => rfl).trans hslab.total
    · rw [hdesc]
      refine ⟨rfl, ?_, ?_⟩
      · have := h.slabs.start_ne
        simp only [slabBase] at hin
        omega
      · simp only [hmem]
        rw [ByteMemory.load_store_self (lt_of_lt_of_eq hlist (by norm_num))]
        refine hslab.chain.congr fun b hb => ByteMemory.load_congr ?_
        rw [← hmem]
        refine hbytes b (hslab.free_mem hb) (hnodup.2.2 b hb _ (List.mem_map_of_mem hx)) 8
          (by simp [headerSize])
    · rw [hkeeps.held, hclass', hkeeps.objectStarts, held_erase]
      refine List.Perm.trans ?_ hslab.objects
      rw [List.cons_append]
      refine List.perm_middle.symm.trans (List.Perm.append_left free ?_)
      exact ((List.perm_cons_erase hx).map Allocation.header).symm
    · rw [hkeeps.held, hclass', held_erase]
      exact fun y hy => hslab.room y (List.mem_of_mem_erase hy)
    · rw [hkeeps.held, hclass', held_erase]
      refine fun y hy => (hslab.header y (List.mem_of_mem_erase hy)).congr ?_
      exact hbytes y.header (hslab.header_mem (List.mem_of_mem_erase hy)) (hheader_ne y hy)
        headerSize le_rfl
  have havail : s₄.Available (s.slabs i).classIndex i :=
    ⟨by rw [hkeeps.slabCount]; exact hi, hstate', hclass', by rw [hfree']; omega⟩
  refine ⟨⟨avail', h.step (by simp) hkeeps (.inr hstate)
    (fun y hy => h.slabs.placed y (List.mem_of_mem_erase hy)) (fun j hji => ?_) ?_
    (hlinks.congr (fun j => ?_) (fun j => ?_) (by rw [hs₄]; rfl)) hother (fun c' hc' => ?_)
    fun hself => absurd rfl hself⟩, havail, _, hsmall⟩
  · rw [held_erase, List.erase_of_not_mem]
    exact fun hxj => hji ((mem_held.mp hxj).2.symm.trans hindex)
  · simp only [SlabOk, hstate']
    exact ⟨_, hsmall⟩
  · rw [hs₄]
    simp only [modifySlab, Function.update_apply]
    split_ifs with hj
    · rw [hj]
      rfl
    · rfl
  · rw [hs₄]
    simp only [modifySlab, Function.update_apply]
    split_ifs with hj
    · rw [hj]
      rfl
    · rfl
  · rw [hself c' hc']
    constructor
    · rintro rfl
      exact havail
    · exact fun hi' => hi'.2.2.1.symm.trans hclass'

/-- Putting an object back preserves the invariant. -/
theorem HeapInvariant.putObject (h : HeapInvariant s live avail none) (hc : c < slabClassCount)
    (hi : i < s.slabCount) (hstate : (s.slabs i).state = .small)
    (hclass : (s.slabs i).classIndex = c) {x : Allocation} (hx : x ∈ s.held live i) :
    ∃ avail', HeapInvariant (s.putObject x.header i c) (live.erase x) avail' none := by
  obtain ⟨s₁, hs₁⟩ : ∃ s₁, s₁ = s.storeMemory x.header 4 0 := ⟨_, rfl⟩
  obtain ⟨s₂, hs₂⟩ : ∃ s₂, s₂ =
    if (s₁.slabs i).freeObjects = 0 then s₁.linkSlabIntoClassList i c else s₁ := ⟨_, rfl⟩
  obtain ⟨s₄, hs₄⟩ : ∃ s₄, s₄ =
    (s₂.storeMemory x.header 8 (s₂.slabs i).freeList).modifySlab i fun d =>
      { d with freeList := x.header, freeObjects := d.freeObjects + 1 } := ⟨_, rfl⟩
  have hput : s.putObject x.header i c =
      if (s₄.slabs i).freeObjects = (s₄.slabs i).totalObjects then
        (s₄.unlinkSlabFromClassList i c).releaseSlabRun i 1
      else s₄ := by
    rw [hs₄, hs₂, hs₁]
    rfl
  obtain ⟨⟨avail₄, hinv⟩, havail, free, hsmall⟩ := h.push_object hc hi hstate hclass hx hs₁ hs₂ hs₄
  have hlength := hsmall.objects.length_eq
  rw [List.length_append, List.length_map, objectStarts, List.length_map, List.length_range,
    ← hsmall.total, ← hsmall.count] at hlength
  rw [hput]
  split_ifs with hfull
  · exact hinv.releaseSlab hc havail (List.eq_nil_of_length_eq_zero (by omega))
  · refine ⟨avail₄, hinv.slabs, hinv.links, hinv.mem_avail, fun j _ hj => ?_⟩
    by_cases hji : j = i
    · rintro hnone
      rw [← hji, hnone, List.length_nil] at hlength
      exact hfull (by rw [← hji]; omega)
    · exact hinv.occupied j (by simpa [eq_comm] using hji) hj

/-! ### `kfree` -/

/-- Freeing a live allocation preserves the invariant. -/
theorem HeapInvariant.kfree (h : HeapInvariant s live avail none) {x : Allocation} (hx : x ∈ live) :
    ∃ avail', HeapInvariant (s.kfree x.ptr) (live.erase x) avail' none := by
  have hplaced := h.slabs.placed x hx
  have hheld : x ∈ s.held live (s.slabIndex x.header) := mem_held.mpr ⟨hx, rfl⟩
  have hslab := h.slabs.slab _ hplaced
  obtain ⟨n, hn, hin, hbase, hptr, hend, -⟩ := h.slabs.extent hx
  have hmanaged := h.slabs.managed
  have hlimit := h.slabs.end_lt
  have hnext := s.slabBase_mono hin
  have hcount := h.slabs.count_le
  generalize s.slabIndex x.header = i at hplaced hheld hslab hn hin hbase hend hnext
  have hstart := s.slabBase_mono (Nat.zero_le i)
  have hlow : s.heapStart ≤ x.header := by
    simp only [slabBase, Nat.zero_mul] at hstart
    simp only [slabBase] at hbase
    omega
  have hheader : x.ptr - headerSize = x.header := rfl
  have hsize12 : headerSize = 12 := rfl
  have hi : i < 2 ^ 32 := by simp only [kernelHeapPages] at hcount; omega
  have hroom : headerSize ≤ s.slabBase s.slabCount - s.heapStart := by
    have := s.slabBase_mono (show 1 ≤ s.slabCount by omega)
    simp only [slabBase, pageSize, headerSize] at *
    omega
  unfold KernelHeapManager.kfree
  rw [if_neg (by omega),
    if_neg (by rw [hmanaged]; rintro (hzero | hzero) <;> simp [hmanaged, hzero] at hplaced)]
  simp only [show s.heapStart + s.slabCount * pageSize = s.slabBase s.slabCount from rfl,
    u64_of_lt hlimit, hheader]
  rw [u64_of_lt (by omega)]
  unfold SlabOk at hslab
  rcases hcase : (s.slabs i).state with _ | _ | _ | _ <;> simp only [hcase] at hslab
  · simp [hslab] at hheld
  · obtain ⟨free, hslab⟩ := hslab
    obtain ⟨hmagic, hidx, hcls⟩ := hslab.header x hheld
    have hc := hslab.class_lt
    have hobj := mem_objectStarts hc (hslab.header_mem hheld)
    have hsize := le_getClassObjectSize hc
    have hpage := h.slabs.slabBase_lt hplaced
    have hpageEnd := s.slabBase_mono (show i + 1 ≤ s.slabCount from hplaced)
    rw [slabBase_succ] at hpageEnd
    have hsmall : (s.slabs i).classIndex < 7 := hc
    rw [if_neg (by omega), if_neg (by omega), if_neg (not_not.mpr hmagic), hidx, if_neg (by omega),
      hcls, if_neg (by simp only [largeClassSentinel]; omega)]
    unfold kfreeSmall
    have hgbase : s.getSlabBaseAddress i = s.slabBase i := u64_of_lt (show s.slabBase i < 2 ^ 64 by
      omega)
    have hcount' : (s.slabs i).freeObjects < (s.slabs i).totalObjects := by
      have hlength := hslab.objects.length_eq
      have hpos := List.length_pos_of_mem hheld
      rw [List.length_append, List.length_map, objectStarts, List.length_map, List.length_range,
        ← hslab.total, ← hslab.count] at hlength
      omega
    obtain ⟨k, -, hk⟩ := List.mem_map.mp (hslab.header_mem hheld)
    have hmod : (x.header - s.slabBase i) % getClassObjectSize (s.slabs i).classIndex = 0 := by
      rw [← hk, Nat.add_sub_cancel_left, Nat.mul_mod_left]
    simp only [hgbase]
    rw [if_neg (by omega), if_neg (by rw [Nat.mod_eq_of_lt (by omega)]; simp [hcase]),
      if_neg (by omega), u64_of_lt hpage, if_neg (by omega), if_neg (by omega), if_neg (by omega)]
    exact h.putObject hc hplaced hcase rfl hheld
  · obtain ⟨hxbase, -, hxend⟩ := hslab.payload h.slabs.start_ne hheld
    obtain ⟨y, hy, -, -, hmagic, hidx, hcls⟩ := hslab.held
    obtain rfl : x = y := by simpa [hy] using hheld
    have hpage := h.slabs.slabBase_lt hplaced
    have hpageEnd := s.slabBase_mono (show i + 1 ≤ s.slabCount from hplaced)
    rw [slabBase_succ] at hpageEnd
    have hgbase : s.getSlabBaseAddress i = s.slabBase i := u64_of_lt (show s.slabBase i < 2 ^ 64 by
      omega)
    have hpos := hslab.span_pos
    have hrange := hslab.in_range
    rw [if_neg (by simp only [headerSize, pageSize] at *; omega),
      if_neg (by simp only [pageSize] at *; omega), if_neg (not_not.mpr hmagic), hidx,
      if_neg (by omega), if_pos hcls, kfreeLarge, if_neg (not_not.mpr hcase)]
    simp only
    rw [if_neg (by omega), if_neg (by rw [hgbase]; exact not_not.mpr hxbase)]
    exact ⟨avail, h.releaseRun hslab hcase hheld⟩
  · simp [hslab.1] at hheld

end KernelHeapManager

end TwistedOS
