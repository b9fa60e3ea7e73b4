import TwistedOS.Data.DoublyLinked
import TwistedOS.Heap.KernelHeapManager

/-!
# The lists of available slabs

For each class the heap keeps a doubly linked list of slab indices. `Links s avail` says that the
list of class `c` is `avail c`, that no slab is on two lists and that the links of a slab on no list
are cleared. Linking and unlinking a slab change these lists as expected and nothing else about the
heap (`SameContent`).

## Main definitions

* `SlabDescriptor.content`: a descriptor without its links.
* `KernelHeapManager.SameContent`, `KernelHeapManager.Links`.

## Main results

* `KernelHeapManager.Links.link`, `KernelHeapManager.Links.unlink`.
-/

namespace TwistedOS

/-- A descriptor with its list links cleared. -/
def SlabDescriptor.content (d : SlabDescriptor) : SlabDescriptor :=
  { d with prevAvailable := -1, nextAvailable := -1 }

/-- Descriptors with the same content agree in the other fields. -/
theorem SlabDescriptor.field_eq {β : Type} (f : SlabDescriptor → β) (hf : ∀ d, f d.content = f d)
    {d d' : SlabDescriptor} (h : d'.content = d.content) : f d' = f d := by
  rw [← hf, h, hf]

namespace KernelHeapManager

/-- The states differ at most in the lists of available slabs. -/
structure SameContent (s s' : KernelHeapManager) : Prop where
  heapStart : s'.heapStart = s.heapStart
  managedHeapSize : s'.managedHeapSize = s.managedHeapSize
  slabCount : s'.slabCount = s.slabCount
  memory : s'.memory = s.memory
  content : ∀ i, (s'.slabs i).content = (s.slabs i).content

namespace SameContent

variable {s s' s'' : KernelHeapManager}

theorem refl (s : KernelHeapManager) : SameContent s s := ⟨rfl, rfl, rfl, rfl, fun _ => rfl⟩

theorem trans (h : SameContent s s') (h' : SameContent s' s'') : SameContent s s'' :=
  ⟨h'.heapStart.trans h.heapStart, h'.managedHeapSize.trans h.managedHeapSize,
    h'.slabCount.trans h.slabCount, h'.memory.trans h.memory,
    fun i => (h'.content i).trans (h.content i)⟩

theorem modifySlab (s : KernelHeapManager) (i : ℕ) {f : SlabDescriptor → SlabDescriptor}
    (hf : (f (s.slabs i)).content = (s.slabs i).content) : SameContent s (s.modifySlab i f) := by
  refine ⟨rfl, rfl, rfl, rfl, fun j => ?_⟩
  simp only [KernelHeapManager.modifySlab, Function.update_apply]
  split_ifs with hj
  · rw [hf, hj]
  · rfl

theorem setHead (s : KernelHeapManager) (c : ℕ) (z : ℤ) : SameContent s (s.setHead c z) :=
  ⟨rfl, rfl, rfl, rfl, fun _ => rfl⟩

end SameContent

/-- The slab behind a list index. -/
def nextSlab (s : KernelHeapManager) (z : ℤ) : ℤ := (s.slabs z.toNat).nextAvailable

/-- The slab in front of a list index. -/
def prevSlab (s : KernelHeapManager) (z : ℤ) : ℤ := (s.slabs z.toNat).prevAvailable

section

variable (s : KernelHeapManager) (i j : ℕ) (f : SlabDescriptor → SlabDescriptor)

include s i f

theorem nextSlab_modifySlab : (s.modifySlab i f).nextSlab j =
      if j = i then (f (s.slabs i)).nextAvailable else s.nextSlab j := by
  simp only [nextSlab, modifySlab, Int.toNat_natCast, Function.update_apply]
  split_ifs <;> rfl

theorem prevSlab_modifySlab : (s.modifySlab i f).prevSlab j =
      if j = i then (f (s.slabs i)).prevAvailable else s.prevSlab j := by
  simp only [prevSlab, modifySlab, Int.toNat_natCast, Function.update_apply]
  split_ifs <;> rfl

end

@[simp] theorem nextSlab_setHead (s : KernelHeapManager) (c : ℕ) (z : ℤ) :
    (s.setHead c z).nextSlab = s.nextSlab := rfl

@[simp] theorem prevSlab_setHead (s : KernelHeapManager) (c : ℕ) (z : ℤ) :
    (s.setHead c z).prevSlab = s.prevSlab := rfl

/-- The list of available slabs of class `c` is `avail c`. -/
structure Links (s : KernelHeapManager) (avail : ℕ → List ℕ) : Prop where
  linked : ∀ c < slabClassCount,
    DoublyLinked s.nextSlab s.prevSlab (-1) (s.classAvailableHead c) ((avail c).map (↑))
  disjoint : ∀ c < slabClassCount, ∀ c' < slabClassCount, c ≠ c' → ∀ i ∈ avail c, i ∉ avail c'
  unlinked : ∀ i, (∀ c < slabClassCount, i ∉ avail c) →
    (s.slabs i).prevAvailable = -1 ∧ (s.slabs i).nextAvailable = -1

namespace Links

variable {s s' : KernelHeapManager} {avail : ℕ → List ℕ} {i c : ℕ}

private theorem mem_map_cast {l : List ℕ} : (i : ℤ) ∈ l.map (Nat.cast : ℕ → ℤ) ↔ i ∈ l :=
  List.mem_map_of_injective Nat.cast_injective

/-- Only the links and the heads matter. -/
theorem congr (h : Links s avail) (hnext : ∀ i, (s'.slabs i).nextAvailable =
      (s.slabs i).nextAvailable) (hprev : ∀ i, (s'.slabs i).prevAvailable =
      (s.slabs i).prevAvailable) (hhead : s'.classAvailableHead = s.classAvailableHead) :
    Links s' avail where
  linked c hc := by
    rw [hhead]
    exact (h.linked c hc).congr (fun a _ => hnext _) fun a _ => hprev _
  disjoint := h.disjoint
  unlinked i hi := by rw [hnext, hprev]; exact h.unlinked i hi

section

variable (hc : c < slabClassCount)

include hc

section

variable (h : Links s avail)

include h

theorem head_of_cons {l : List ℕ} (havail : avail c = i :: l) : s.classAvailableHead c = i := by
  have hchain := (h.linked c hc).chain
  rw [havail] at hchain
  exact hchain.1

theorem head_eq_none_iff : s.classAvailableHead c = -1 ↔ avail c = [] := by
  have hchain := (h.linked c hc).chain
  constructor
  · intro hhead
    rw [hhead] at hchain
    exact List.map_eq_nil_iff.mp hchain.eq_nil_of_null
  · intro havail
    rw [havail] at hchain
    exact hchain

/-- The head of a list is no slab or one on the list. -/
theorem head_cases :
    s.classAvailableHead c = -1 ∨ ∃ k ∈ avail c, s.classAvailableHead c = (k : ℕ) := by
  rcases havail : avail c with _ | ⟨j, l⟩
  · exact .inl ((h.head_eq_none_iff hc).mpr havail)
  · exact .inr ⟨j, List.mem_cons_self, h.head_of_cons hc havail⟩

/-- A slab on the list of a class is on no other list. -/
private theorem ne_of_mem {c' j : ℕ} (hc' : c' < slabClassCount) (hcc : c' ≠ c) (hj : j ∈ avail c')
    (hi : i ∈ avail c) : j ≠ i := by
  rintro rfl
  exact h.disjoint c' hc' c hc hcc j hj hi

/-- The stores of `linkSlabIntoClassList`, for a slab that is on no list. -/
private theorem link_stores (hi : ∀ c' < slabClassCount, i ∉ avail c') :
    (∀ j : ℕ, (s.linkSlabIntoClassList i c).nextSlab j =
        Function.update s.nextSlab i (s.classAvailableHead c) j) ∧
      (∀ j : ℕ, (s.linkSlabIntoClassList i c).prevSlab j =
        Function.update (Function.update s.prevSlab (s.classAvailableHead c) i) i (-1) j) ∧
      (s.linkSlabIntoClassList i c).classAvailableHead =
        Function.update s.classAvailableHead c i ∧
      SameContent s (s.linkSlabIntoClassList i c) := by
  obtain ⟨hprev, hnext⟩ := h.unlinked i hi
  have hhead : s.classAvailableHead c ≠ i := by
    intro hhead
    obtain hnone | ⟨k, hk, hsome⟩ := h.head_cases hc
    · omega
    · obtain rfl : k = i := by omega
      exact hi c hc hk
  have hguard : ¬ ((s.slabs i).prevAvailable ≠ -1 ∨ (s.slabs i).nextAvailable ≠ -1 ∨
      s.classAvailableHead c = i) := by simp [hprev, hnext, hhead]
  simp only [linkSlabIntoClassList, if_neg hguard]
  obtain hnone | ⟨k, hk, hsome⟩ := h.head_cases hc
  · simp only [hnone, ne_eq, not_true_eq_false, ↓reduceIte, nextSlab_setHead, prevSlab_setHead,
      nextSlab_modifySlab, prevSlab_modifySlab, Function.update_apply, Nat.cast_inj]
    refine ⟨fun j => trivial, fun j => ?_, rfl, ?_⟩
    · rw [if_neg (show (j : ℤ) ≠ -1 by omega)]
    · exact (SameContent.modifySlab s i rfl).trans (.setHead _ c i)
  · have hki : k ≠ i := fun hki => hi c hc (hki ▸ hk)
    simp only [hsome, ne_eq, show ((k : ℕ) : ℤ) ≠ -1 by omega, not_false_eq_true, ↓reduceIte,
      nextSlab_setHead, prevSlab_setHead, nextSlab_modifySlab, prevSlab_modifySlab,
      Function.update_apply, Nat.cast_inj, Int.toNat_natCast]
    refine ⟨fun j => ?_, fun j => ?_, rfl, ?_⟩
    · by_cases hj : j = k
      · subst hj
        simp [modifySlab, nextSlab, hki]
      · simp [hj]
    · by_cases hj : j = k
      · subst hj
        simp [hki]
      · simp [hj]
    · exact ((SameContent.modifySlab s i rfl).trans (.modifySlab _ k rfl)).trans (.setHead _ c i)

/-- Linking a slab that is on no list puts it in front of the list of its class. -/
theorem link (hi : ∀ c' < slabClassCount, i ∉ avail c') :
    Links (s.linkSlabIntoClassList i c) (Function.update avail c (i :: avail c)) ∧
      SameContent s (s.linkSlabIntoClassList i c) := by
  obtain ⟨hnext, hprev, hhead, hsame⟩ := h.link_stores hc hi
  refine ⟨⟨fun c' hc' => ?_, fun c₁ hc₁ c₂ hc₂ hne j hj => ?_, fun j hj => ?_⟩, hsame⟩
  · by_cases hcc : c' = c
    · subst hcc
      rw [hhead, Function.update_self, Function.update_self, List.map_cons]
      refine (h.linked c' hc').push (by omega) (fun hmem => hi c' hc' (mem_map_cast.mp hmem))
        (fun b hb => ?_) fun b hb => ?_
      · obtain ⟨j, -, rfl⟩ := List.mem_map.mp (show b ∈ (i :: avail c').map (↑) from hb)
        exact hnext j
      · obtain ⟨j, -, rfl⟩ := List.mem_map.mp (show b ∈ (i :: avail c').map (↑) from hb)
        exact hprev j
    · rw [hhead, Function.update_of_ne hcc, Function.update_of_ne hcc]
      have hne : ∀ j ∈ avail c', j ≠ i := fun j hj hji => hi c' hc' (hji ▸ hj)
      refine (h.linked c' hc').congr (fun b hb => ?_) fun b hb => ?_
      · obtain ⟨j, hj, rfl⟩ := List.mem_map.mp hb
        rw [hnext, Function.update_of_ne (by exact_mod_cast hne j hj)]
      · obtain ⟨j, hj, rfl⟩ := List.mem_map.mp hb
        rw [hprev, Function.update_of_ne (by exact_mod_cast hne j hj), Function.update_of_ne]
        obtain hnone | ⟨k, hk, hsome⟩ := h.head_cases hc
        · omega
        · rw [hsome]
          exact_mod_cast h.ne_of_mem hc hc' hcc hj hk
  · by_cases h₁ : c₁ = c
    · subst h₁
      rw [Function.update_self] at hj
      rw [Function.update_of_ne hne.symm]
      rcases List.mem_cons.mp hj with rfl | hj
      · exact hi c₂ hc₂
      · exact h.disjoint c₁ hc c₂ hc₂ hne j hj
    · rw [Function.update_of_ne h₁] at hj
      by_cases h₂ : c₂ = c
      · subst h₂
        rw [Function.update_self]
        refine List.not_mem_cons_of_ne_of_not_mem ?_ (h.disjoint c₁ hc₁ c₂ hc₂ hne j hj)
        rintro rfl
        exact hi c₁ hc₁ hj
      · rw [Function.update_of_ne h₂]
        exact h.disjoint c₁ hc₁ c₂ hc₂ hne j hj
  · have hji : j ≠ i := by
      rintro rfl
      exact hj c hc (by simp)
    have hold : ∀ c' < slabClassCount, j ∉ avail c' := by
      intro c' hc' hmem
      refine hj c' hc' ?_
      rw [Function.update_apply]
      split_ifs with hcc
      · exact List.mem_cons_of_mem _ (hcc ▸ hmem)
      · exact hmem
    obtain ⟨hp, hn⟩ := h.unlinked j hold
    have hn' := hnext j
    have hp' := hprev j
    rw [Function.update_of_ne (by exact_mod_cast hji)] at hn' hp'
    rw [Function.update_of_ne] at hp'
    · exact ⟨hp'.trans hp, hn'.trans hn⟩
    · obtain hnone | ⟨k, hk, hsome⟩ := h.head_cases hc
      · omega
      · rw [hsome]
        rintro hjk
        obtain rfl : j = k := by exact_mod_cast hjk
        exact hold c hc hk

/-- The predecessor and the successor stored at a slab are slabs of its list or none. -/
private theorem neighbour_cases {l₁ l₂ : List ℕ} (havail : avail c = l₁ ++ i :: l₂) :
    (s.prevSlab i = -1 ∧ l₁ = [] ∨ ∃ p ∈ avail c, s.prevSlab i = (p : ℕ) ∧ p ≠ i ∧ l₁ ≠ []) ∧
      (s.nextSlab i = -1 ∨ ∃ n ∈ avail c, s.nextSlab i = (n : ℕ) ∧ n ≠ i) := by
  have hlinked := h.linked c hc
  have hnodup := hlinked.chain.nodup
  rw [List.nodup_map_iff Nat.cast_injective, havail] at hnodup
  rw [havail, List.map_append, List.map_cons] at hlinked
  rw [hlinked.prev_eq, hlinked.next_eq, havail]
  constructor
  · rcases List.eq_nil_or_concat l₁ with rfl | ⟨l, p, rfl⟩
    · exact .inl ⟨rfl, rfl⟩
    · refine .inr ⟨p, by simp, by simp, ?_, by simp⟩
      rintro rfl
      simp [List.nodup_append] at hnodup
  · rcases l₂ with _ | ⟨n, l⟩
    · exact .inl rfl
    · refine .inr ⟨n, by simp, by simp, ?_⟩
      rintro rfl
      simp [List.nodup_append] at hnodup

/-- The stores of `unlinkSlabFromClassList`, for a slab on the list. -/
private theorem unlink_stores {l₁ l₂ : List ℕ} (havail : avail c = l₁ ++ i :: l₂) :
    (∀ j : ℕ, j ≠ i → (s.unlinkSlabFromClassList i c).nextSlab j =
        Function.update s.nextSlab (s.prevSlab i) (s.nextSlab i) j) ∧
      (∀ j : ℕ, j ≠ i → (s.unlinkSlabFromClassList i c).prevSlab j =
        Function.update s.prevSlab (s.nextSlab i) (s.prevSlab i) j) ∧
      (s.unlinkSlabFromClassList i c).nextSlab i = -1 ∧
      (s.unlinkSlabFromClassList i c).prevSlab i = -1 ∧
      (s.unlinkSlabFromClassList i c).classAvailableHead =
        Function.update s.classAvailableHead c
          (if s.prevSlab i = -1 then s.nextSlab i else s.classAvailableHead c) ∧
      SameContent s (s.unlinkSlabFromClassList i c) := by
  have hpi : (s.slabs i).prevAvailable = s.prevSlab i := rfl
  have hni : (s.slabs i).nextAvailable = s.nextSlab i := rfl
  obtain ⟨hp, hn⟩ := h.neighbour_cases hc havail
  simp only [unlinkSlabFromClassList, hpi, hni]
  generalize s.prevSlab i = z at hp ⊢
  generalize s.nextSlab i = w at hn ⊢
  -- the predecessor, or the head, skips the slab
  have hfirst : ∃ s₁, (if z ≠ -1 then
          s.modifySlab z.toNat fun d => { d with nextAvailable := w }
        else if s.classAvailableHead c = i then s.setHead c w else s) = s₁ ∧
      (∀ j : ℕ, s₁.nextSlab j = Function.update s.nextSlab z w j) ∧
      (∀ j : ℕ, s₁.prevSlab j = s.prevSlab j) ∧
      s₁.classAvailableHead = Function.update s.classAvailableHead c
        (if z = -1 then w else s.classAvailableHead c) ∧ SameContent s s₁ := by
    refine ⟨_, rfl, ?_⟩
    obtain ⟨rfl, rfl⟩ | ⟨p, -, rfl, -, -⟩ := hp
    · rw [if_neg (by simp), if_pos (h.head_of_cons hc havail)]
      refine ⟨fun j => ?_, fun j => rfl, rfl, .setHead s c w⟩
      rw [Function.update_of_ne (by omega), nextSlab_setHead]
    · rw [if_pos (by omega), if_neg (by omega), Function.update_eq_self]
      refine ⟨fun j => ?_, fun j => ?_, rfl, .modifySlab s _ rfl⟩
      · simp only [nextSlab_modifySlab, Int.toNat_natCast, Function.update_apply, Nat.cast_inj]
      · rw [prevSlab_modifySlab, Int.toNat_natCast]
        split_ifs with hj
        · rw [hj]
          rfl
        · rfl
  obtain ⟨s₁, hs₁, hnext₁, hprev₁, hhead₁, hsame₁⟩ := hfirst
  rw [hs₁]
  -- the successor skips it, too
  have hsecond : ∃ s₂, (if w ≠ -1 then
          s₁.modifySlab w.toNat fun d => { d with prevAvailable := z } else s₁) = s₂ ∧
      (∀ j : ℕ, s₂.nextSlab j = s₁.nextSlab j) ∧
      (∀ j : ℕ, s₂.prevSlab j = Function.update s₁.prevSlab w z j) ∧
      s₂.classAvailableHead = s₁.classAvailableHead ∧ SameContent s₁ s₂ := by
    refine ⟨_, rfl, ?_⟩
    obtain rfl | ⟨n, -, rfl, -⟩ := hn
    · rw [if_neg (by simp)]
      refine ⟨fun j => rfl, fun j => ?_, rfl, .refl s₁⟩
      rw [Function.update_of_ne (by omega)]
    · rw [if_pos (by omega)]
      refine ⟨fun j => ?_, fun j => ?_, rfl, .modifySlab s₁ _ rfl⟩
      · rw [nextSlab_modifySlab, Int.toNat_natCast]
        split_ifs with hj
        · rw [hj]
          rfl
        · rfl
      · simp only [prevSlab_modifySlab, Int.toNat_natCast, Function.update_apply, Nat.cast_inj]
  obtain ⟨s₂, hs₂, hnext₂, hprev₂, hhead₂, hsame₂⟩ := hsecond
  rw [hs₂]
  refine ⟨fun j hj => ?_, fun j hj => ?_, ?_, ?_, hhead₂.trans hhead₁,
    (hsame₁.trans hsame₂).trans (.modifySlab s₂ i rfl)⟩
  · rw [nextSlab_modifySlab, if_neg hj, hnext₂, hnext₁]
  · rw [prevSlab_modifySlab, if_neg hj, hprev₂, Function.update_apply, Function.update_apply,
      hprev₁]
  · rw [nextSlab_modifySlab, if_pos rfl]
  · rw [prevSlab_modifySlab, if_pos rfl]

/-- Unlinking a slab takes it out of the list. -/
theorem unlink {l₁ l₂ : List ℕ} (havail : avail c = l₁ ++ i :: l₂) :
    Links (s.unlinkSlabFromClassList i c) (Function.update avail c (l₁ ++ l₂)) ∧
      SameContent s (s.unlinkSlabFromClassList i c) := by
  obtain ⟨hnext, hprev, hnexti, hprevi, hhead, hsame⟩ := h.unlink_stores hc havail
  obtain ⟨hp, hn⟩ := h.neighbour_cases hc havail
  have hnodup := (h.linked c hc).chain.nodup
  rw [List.nodup_map_iff Nat.cast_injective, havail] at hnodup
  have hlist : ∀ j, j ∈ avail c ↔ j = i ∨ j ∈ l₁ ++ l₂ := by
    intro j
    simp only [havail, List.mem_append, List.mem_cons]
    tauto
  have hi : i ∉ l₁ ++ l₂ := by
    have := List.nodup_middle.mp hnodup
    exact (List.nodup_cons.mp this).1
  -- slabs outside the list keep their links
  have hkeep : ∀ j, j ∉ avail c → (s.unlinkSlabFromClassList i c).nextSlab j = s.nextSlab j ∧
      (s.unlinkSlabFromClassList i c).prevSlab j = s.prevSlab j := by
    intro j hj
    have hji : j ≠ i := fun hji => hj ((hlist j).mpr (.inl hji))
    rw [hnext j hji, hprev j hji]
    constructor
    · refine Function.update_of_ne ?_ _ _
      obtain ⟨hnone, -⟩ | ⟨p, hpmem, hsome, -, -⟩ := hp
      · omega
      · rw [hsome]
        rintro hjp
        obtain rfl : j = p := by exact_mod_cast hjp
        exact hj hpmem
    · refine Function.update_of_ne ?_ _ _
      obtain hnone | ⟨n, hnmem, hsome, -⟩ := hn
      · omega
      · rw [hsome]
        rintro hjn
        obtain rfl : j = n := by exact_mod_cast hjn
        exact hj hnmem
  refine ⟨⟨fun c' hc' => ?_, fun c₁ hc₁ c₂ hc₂ hne j hj => ?_, fun j hj => ?_⟩, hsame⟩
  · by_cases hcc : c' = c
    · subst hcc
      have hlinked := h.linked c' hc'
      rw [havail, List.map_append, List.map_cons] at hlinked
      rw [hhead, Function.update_self, Function.update_self, List.map_append]
      refine hlinked.unlink rfl (fun b hb => ?_) fun b hb => ?_
      · rw [← List.map_append] at hb
        obtain ⟨j, hj, rfl⟩ := List.mem_map.mp hb
        exact hnext j fun hji => hi (hji ▸ hj)
      · rw [← List.map_append] at hb
        obtain ⟨j, hj, rfl⟩ := List.mem_map.mp hb
        exact hprev j fun hji => hi (hji ▸ hj)
    · rw [hhead, Function.update_of_ne hcc, Function.update_of_ne hcc]
      refine (h.linked c' hc').congr (fun b hb => ?_) fun b hb => ?_
      · obtain ⟨j, hj, rfl⟩ := List.mem_map.mp hb
        exact (hkeep j (h.disjoint c' hc' c hc hcc j hj)).1
      · obtain ⟨j, hj, rfl⟩ := List.mem_map.mp hb
        exact (hkeep j (h.disjoint c' hc' c hc hcc j hj)).2
  · have hsub : ∀ c' j, j ∈ Function.update avail c (l₁ ++ l₂) c' → j ∈ avail c' := by
      intro c' j hj
      by_cases hcc : c' = c
      · subst hcc
        rw [Function.update_self] at hj
        exact (hlist j).mpr (.inr hj)
      · rwa [Function.update_of_ne hcc] at hj
    exact fun hj' => h.disjoint c₁ hc₁ c₂ hc₂ hne j (hsub c₁ j hj) (hsub c₂ j hj')
  · by_cases hji : j = i
    · subst hji
      exact ⟨hprevi, hnexti⟩
    · have hold : ∀ c' < slabClassCount, j ∉ avail c' := by
        intro c' hc' hmem
        refine hj c' hc' ?_
        by_cases hcc : c' = c
        · subst hcc
          rw [Function.update_self]
          exact ((hlist j).mp hmem).resolve_left hji
        · rwa [Function.update_of_ne hcc]
      obtain ⟨hn', hp'⟩ := hkeep j (hold c hc)
      obtain ⟨hpj, hnj⟩ := h.unlinked j hold
      exact ⟨hp'.trans hpj, hn'.trans hnj⟩

end

end

end Links

end KernelHeapManager

end TwistedOS
