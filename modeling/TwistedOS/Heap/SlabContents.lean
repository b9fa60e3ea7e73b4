import Mathlib.Data.List.Basic
import Mathlib.Data.List.Perm.Basic
import Mathlib.Tactic.IntervalCases
import TwistedOS.Heap.SlabLists

/-!
# The contents of the slabs

The invariant of the slab heap, slab by slab. A live allocation belongs to the slab of its header. A
free slab and a tail of a run have no allocations; a small slab's free objects and the headers of
its allocations are together its objects; the head of a run has exactly one allocation, and the
slabs behind it are its tails. What holds of a slab depends on the slabs of its run and on the bytes
of its page outside the payloads of its allocations only (`SlabOk.congr`).

## Main definitions

* `KernelHeapManager.Allocation`, `KernelHeapManager.held`: allocations, and those of a slab.
* `KernelHeapManager.SmallSlab`, `KernelHeapManager.LargeRun`, `KernelHeapManager.SlabOk`.
* `KernelHeapManager.KeepsSlabs`: a step that changes some slabs only.

## Main results

* `KernelHeapManager.SlabOk.congr`, `KernelHeapManager.SlabsOk.extent`.
-/

namespace TwistedOS

namespace KernelHeapManager

/-- A successful call of `kmalloc` whose memory has not been freed. -/
structure Allocation where
  ptr : ℕ
  size : ℕ
  deriving DecidableEq, Repr

/-- The address of the header of an allocation. -/
def Allocation.header (x : Allocation) : ℕ := x.ptr - headerSize

/-- An address is a byte of the payload. -/
def Allocation.InPayload (x : Allocation) (a : ℕ) : Prop := x.ptr ≤ a ∧ a < x.ptr + x.size

/-- The address of a slab, computed without wrapping. -/
def slabBase (s : KernelHeapManager) (i : ℕ) : ℕ := s.heapStart + i * pageSize

/-- The slab of an address. -/
def slabIndex (s : KernelHeapManager) (a : ℕ) : ℕ := (a - s.heapStart) / pageSize

/-- The allocations of a slab. -/
def held (s : KernelHeapManager) (live : List Allocation) (i : ℕ) : List Allocation :=
  live.filter fun x => s.slabIndex x.header = i

/-- The addresses of the objects of a slab of a class. -/
def objectStarts (s : KernelHeapManager) (i c : ℕ) : List ℕ :=
  (List.range (pageSize / getClassObjectSize c)).map fun k =>
    s.slabBase i + k * getClassObjectSize c

/-- The head of the run of a slab, and the slab itself if it is in no run. -/
def owner (s : KernelHeapManager) (i : ℕ) : ℕ :=
  if (s.slabs i).state = .largeTail then (s.slabs i).ownerOrSpan else i

/-- The header of an allocation, as `kfree` reads it. -/
structure HeaderAt (mem : ByteMemory) (a slabIndex classIndex : ℕ) : Prop where
  magic : mem.load a 4 = allocationMagic
  slabIndex : mem.load (a + 4) 4 = slabIndex
  classIndex : mem.load (a + 8) 2 = classIndex

/-- A small slab with the free objects `free`. -/
structure SmallSlab (s : KernelHeapManager) (live : List Allocation) (i : ℕ) (free : List ℕ) :
    Prop where
  class_lt : (s.slabs i).classIndex < slabClassCount
  total : (s.slabs i).totalObjects = pageSize / getClassObjectSize (s.slabs i).classIndex
  count : (s.slabs i).freeObjects = free.length
  chain : LinkedChain (fun a => s.memory.load a 8) 0 (s.slabs i).freeList free
  objects : (free ++ (s.held live i).map Allocation.header).Perm
    (s.objectStarts i (s.slabs i).classIndex)
  room : ∀ x ∈ s.held live i, x.size + headerSize ≤ getClassObjectSize (s.slabs i).classIndex
  header : ∀ x ∈ s.held live i, HeaderAt s.memory x.header i (s.slabs i).classIndex

/-- A run of slabs with its head and its only allocation. -/
structure LargeRun (s : KernelHeapManager) (live : List Allocation) (i : ℕ) : Prop where
  span_pos : 0 < (s.slabs i).ownerOrSpan
  in_range : i + (s.slabs i).ownerOrSpan ≤ s.slabCount
  tails : ∀ j, i < j → j < i + (s.slabs i).ownerOrSpan →
    (s.slabs j).state = .largeTail ∧ (s.slabs j).ownerOrSpan = i
  held : ∃ x, s.held live i = [x] ∧ x.header = s.slabBase i ∧
    x.size + headerSize ≤ (s.slabs i).ownerOrSpan * pageSize ∧
    HeaderAt s.memory x.header i largeClassSentinel

/-- The invariant of one slab. -/
def SlabOk (s : KernelHeapManager) (live : List Allocation) (i : ℕ) : Prop :=
  match (s.slabs i).state with
  | .free => s.held live i = []
  | .small => ∃ free, SmallSlab s live i free
  | .largeHead => LargeRun s live i
  | .largeTail => s.held live i = [] ∧ (s.slabs i).ownerOrSpan < i ∧
      (s.slabs (s.slabs i).ownerOrSpan).state = .largeHead ∧
      i < (s.slabs i).ownerOrSpan + (s.slabs (s.slabs i).ownerOrSpan).ownerOrSpan

/-- The invariant of all slabs. -/
structure SlabsOk (s : KernelHeapManager) (live : List Allocation) : Prop where
  start_ne : s.heapStart ≠ 0
  end_lt : s.slabBase s.slabCount < 2 ^ 64
  count_le : s.slabCount ≤ kernelHeapPages
  managed : s.slabCount = s.managedHeapSize / pageSize
  placed : ∀ x ∈ live, s.slabIndex x.header < s.slabCount
  slab : ∀ i < s.slabCount, SlabOk s live i

variable {s s' : KernelHeapManager} {live live' : List Allocation} {i j c : ℕ}

/-! ### Classes and objects -/

theorem le_getClassObjectSize (hc : c < slabClassCount) : 64 ≤ getClassObjectSize c := by
  simp only [slabClassCount] at hc
  interval_cases c <;> decide

theorem objects_mul_size (hc : c < slabClassCount) :
    pageSize / getClassObjectSize c * getClassObjectSize c = pageSize := by
  simp only [slabClassCount] at hc
  interval_cases c <;> rfl

theorem objects_pos (hc : c < slabClassCount) : 0 < pageSize / getClassObjectSize c := by
  simp only [slabClassCount] at hc
  interval_cases c <;> decide

theorem slabBase_succ (s : KernelHeapManager) (i : ℕ) :
    s.slabBase (i + 1) = s.slabBase i + pageSize := by
  simp only [slabBase, Nat.succ_mul, Nat.add_assoc]

theorem slabBase_mono (s : KernelHeapManager) (hij : i ≤ j) : s.slabBase i ≤ s.slabBase j := by
  simp only [slabBase]
  exact Nat.add_le_add_left (Nat.mul_le_mul_right _ hij) _

/-- The slab of an address of a slab. -/
theorem slabIndex_eq {a : ℕ} (hle : s.slabBase i ≤ a) (hlt : a < s.slabBase i + pageSize) :
    s.slabIndex a = i := by
  simp only [slabBase, slabIndex, pageSize] at *
  omega

theorem mem_objectStarts {a : ℕ} (hc : c < slabClassCount) (ha : a ∈ s.objectStarts i c) :
    s.slabBase i ≤ a ∧ a + getClassObjectSize c ≤ s.slabBase i + pageSize := by
  obtain ⟨k, hk, rfl⟩ := List.mem_map.mp ha
  have hmul := Nat.mul_le_mul_right (getClassObjectSize c) (Nat.succ_le_of_lt (List.mem_range.mp hk))
  rw [objects_mul_size hc, Nat.succ_mul] at hmul
  omega

/-- Objects of a slab do not overlap. -/
theorem objectStarts_disjoint {a b : ℕ} (ha : a ∈ s.objectStarts i c) (hb : b ∈ s.objectStarts i c)
    (hab : a ≠ b) : a + getClassObjectSize c ≤ b ∨ b + getClassObjectSize c ≤ a := by
  obtain ⟨k, -, rfl⟩ := List.mem_map.mp ha
  obtain ⟨l, -, rfl⟩ := List.mem_map.mp hb
  rcases Nat.lt_trichotomy k l with h | rfl | h
  · have := Nat.mul_le_mul_right (getClassObjectSize c) (Nat.succ_le_of_lt h)
    rw [Nat.succ_mul] at this
    omega
  · exact absurd rfl hab
  · have := Nat.mul_le_mul_right (getClassObjectSize c) (Nat.succ_le_of_lt h)
    rw [Nat.succ_mul] at this
    omega

theorem nodup_objectStarts (hc : c < slabClassCount) : (s.objectStarts i c).Nodup := by
  refine List.Nodup.map_on (fun k _ l _ hkl => ?_) List.nodup_range
  have hpos := le_getClassObjectSize hc
  exact Nat.eq_of_mul_eq_mul_right (by omega) (Nat.add_left_cancel hkl)

theorem HeaderAt.congr {mem mem' : ByteMemory} {a slab cls : ℕ} (h : HeaderAt mem a slab cls)
    (hmem : ∀ b, a ≤ b → b < a + headerSize → mem' b = mem b) : HeaderAt mem' a slab cls := by
  simp only [headerSize] at hmem
  refine ⟨h.magic ▸ ByteMemory.load_congr fun b _ _ => hmem b (by omega) (by omega),
    h.slabIndex ▸ ByteMemory.load_congr fun b _ _ => hmem b (by omega) (by omega),
    h.classIndex ▸ ByteMemory.load_congr fun b _ _ => hmem b (by omega) (by omega)⟩

/-! ### Allocations of a slab -/

theorem mem_held {x : Allocation} : x ∈ s.held live i ↔ x ∈ live ∧ s.slabIndex x.header = i := by
  simp [held]

theorem held_cons (x : Allocation) : s.held (x :: live) i =
    if s.slabIndex x.header = i then x :: s.held live i else s.held live i := by
  simp only [held, List.filter_cons, decide_eq_true_eq]

theorem held_erase (x : Allocation) : s.held (live.erase x) i = (s.held live i).erase x :=
  List.erase_filter.symm

theorem SmallSlab.header_mem {free : List ℕ} (h : SmallSlab s live i free) {x : Allocation}
    (hx : x ∈ s.held live i) : x.header ∈ s.objectStarts i (s.slabs i).classIndex :=
  h.objects.subset (List.mem_append_right _ (List.mem_map_of_mem hx))

theorem SmallSlab.free_mem {free : List ℕ} (h : SmallSlab s live i free) {a : ℕ} (ha : a ∈ free) :
    a ∈ s.objectStarts i (s.slabs i).classIndex :=
  h.objects.subset (List.mem_append_left _ ha)

theorem SmallSlab.nodup {free : List ℕ} (h : SmallSlab s live i free) :
    (free ++ (s.held live i).map Allocation.header).Nodup :=
  h.objects.nodup_iff.mpr (nodup_objectStarts h.class_lt)

/-- The payload of an allocation of a small slab follows its header inside the object. -/
theorem SmallSlab.payload {free : List ℕ} (h : SmallSlab s live i free) (hstart : s.heapStart ≠ 0)
    {x : Allocation} (hx : x ∈ s.held live i) : x.ptr = x.header + headerSize ∧
      x.ptr + x.size ≤ x.header + getClassObjectSize (s.slabs i).classIndex := by
  have hmem := mem_objectStarts h.class_lt (h.header_mem hx)
  have hroom := h.room x hx
  simp only [slabBase, Allocation.header, headerSize] at *
  omega

/-- The payload of the allocation of a run follows its header inside the run. -/
theorem LargeRun.payload (h : LargeRun s live i) (hstart : s.heapStart ≠ 0) {x : Allocation}
    (hx : x ∈ s.held live i) : x.header = s.slabBase i ∧ x.ptr = x.header + headerSize ∧
      x.ptr + x.size ≤ s.slabBase (i + (s.slabs i).ownerOrSpan) := by
  obtain ⟨y, hy, hbase, hroom, -⟩ := h.held
  obtain rfl : x = y := by simpa [hy] using hx
  refine ⟨hbase, ?_⟩
  simp only [slabBase, Allocation.header, headerSize, Nat.add_mul] at *
  omega

/-! ### Slabs that stay as they are -/

/-- The invariant of a slab depends on the slabs of its run, on its allocations and on the bytes of
its page outside their payloads only. -/
theorem SlabOk.of_largeHead (hstate : (s.slabs i).state = .largeHead) (h : LargeRun s live i) :
    SlabOk s live i := by
  rw [SlabOk, hstate]
  exact h

theorem SlabOk.of_largeTail (hstate : (s.slabs i).state = .largeTail) (hheld : s.held live i = [])
    (hlt : (s.slabs i).ownerOrSpan < i)
    (hhead : (s.slabs (s.slabs i).ownerOrSpan).state = .largeHead)
    (hrun : i < (s.slabs i).ownerOrSpan + (s.slabs (s.slabs i).ownerOrSpan).ownerOrSpan) :
    SlabOk s live i := by
  rw [SlabOk, hstate]
  exact ⟨hheld, hlt, hhead, hrun⟩

theorem SlabOk.congr (h : SlabOk s live i) (hstart : s.heapStart ≠ 0)
    (hstart' : s'.heapStart = s.heapStart) (hcount : s'.slabCount = s.slabCount)
    (hcontent : ∀ k, s.owner k = s.owner i → (s'.slabs k).content = (s.slabs k).content)
    (hheld : s'.held live' i = s.held live i)
    (hmem : ∀ a, s.slabBase i ≤ a → a < s.slabBase i + pageSize →
      (∀ x ∈ s.held live i, ¬ x.InPayload a) → s'.memory a = s.memory a) :
    SlabOk s' live' i := by
  have hfield : ∀ k, s.owner k = s.owner i → (s'.slabs k).state = (s.slabs k).state ∧
      (s'.slabs k).ownerOrSpan = (s.slabs k).ownerOrSpan := fun k hk =>
    ⟨SlabDescriptor.field_eq SlabDescriptor.state (fun _ => rfl) (hcontent k hk),
      SlabDescriptor.field_eq SlabDescriptor.ownerOrSpan (fun _ => rfl) (hcontent k hk)⟩
  have hi := hcontent i rfl
  have hclass : (s'.slabs i).classIndex = (s.slabs i).classIndex :=
    SlabDescriptor.field_eq SlabDescriptor.classIndex (fun _ => rfl) hi
  obtain ⟨hstate, hspan⟩ := hfield i rfl
  have hbase : s'.slabBase = s.slabBase := by
    funext k
    simp only [slabBase, hstart']
  unfold SlabOk at h ⊢
  rw [hstate]
  rcases hcase : (s.slabs i).state with _ | _ | _ | _ <;> simp only [hcase] at h ⊢
  · rwa [hheld]
  · obtain ⟨free, h⟩ := h
    -- a free object or a header is in no payload
    have hkeep : ∀ a, a ∈ s.objectStarts i (s.slabs i).classIndex → ∀ n ≤ 12,
        (∀ x ∈ s.held live i, x.header = a → n ≤ headerSize) → (∀ x ∈ s.held live i,
          x.header = a ∨ a + getClassObjectSize (s.slabs i).classIndex ≤ x.header ∨
            x.header + getClassObjectSize (s.slabs i).classIndex ≤ a) →
        ∀ b, a ≤ b → b < a + n → s'.memory b = s.memory b := by
      intro a ha n hn hown hdisj b hab hb
      have hin := mem_objectStarts h.class_lt ha
      have hsize := le_getClassObjectSize h.class_lt
      refine hmem b (by omega) (by omega) fun x hx hpay => ?_
      obtain ⟨hptr, hend⟩ := h.payload hstart hx
      obtain ⟨hlo, hhi⟩ := hpay
      rcases hdisj x hx with heq | hle | hle
      · have := hown x hx heq
        omega
      · simp only [headerSize] at hptr
        omega
      · omega
    refine ⟨free, by rw [hclass]; exact h.class_lt, ?_, ?_, ?_, ?_, ?_, ?_⟩
    · rw [hclass]
      exact (SlabDescriptor.field_eq SlabDescriptor.totalObjects (fun _ => rfl) hi).trans h.total
    · exact (SlabDescriptor.field_eq SlabDescriptor.freeObjects (fun _ => rfl) hi).trans h.count
    · rw [show (s'.slabs i).freeList = (s.slabs i).freeList from
        SlabDescriptor.field_eq SlabDescriptor.freeList (fun _ => rfl) hi]
      refine h.chain.congr fun a ha => ByteMemory.load_congr ?_
      refine hkeep a (h.free_mem ha) 8 (by omega) (fun _ _ _ => by simp [headerSize]) ?_
      intro x hx
      refine .inr (objectStarts_disjoint (h.free_mem ha) (h.header_mem hx) ?_)
      exact (List.nodup_append.mp h.nodup).2.2 a ha _ (List.mem_map_of_mem hx)
    · rw [hheld, hclass]
      simpa only [objectStarts, hbase] using h.objects
    · rw [hheld, hclass]
      exact h.room
    · rw [hheld, hclass]
      refine fun x hx => (h.header x hx).congr ?_
      refine hkeep x.header (h.header_mem hx) headerSize le_rfl (fun _ _ _ => le_rfl) ?_
      intro y hy
      by_cases hyx : y.header = x.header
      · exact .inl hyx
      · exact .inr (objectStarts_disjoint (h.header_mem hx) (h.header_mem hy) (Ne.symm hyx))
  · have hown : s.owner i = i := by simp [owner, hcase]
    refine ⟨by rw [hspan]; exact h.span_pos, by rw [hspan, hcount]; exact h.in_range, ?_, ?_⟩
    · intro j hij hj
      obtain ⟨htail, howner⟩ := h.tails j hij (by rwa [hspan] at hj)
      obtain ⟨hstate', hspan'⟩ := hfield j (by rw [hown, owner, if_pos htail, howner])
      rw [hstate', hspan']
      exact ⟨htail, howner⟩
    · obtain ⟨x, hx, hx'⟩ := h.held
      have hxmem : x ∈ s.held live i := by simp [hx]
      obtain ⟨hheader, hptr, -⟩ := h.payload hstart hxmem
      refine ⟨x, by rw [hheld, hx], by rw [hbase]; exact hx'.1, by rw [hspan]; exact hx'.2.1,
        hx'.2.2.congr fun b hxb hb => ?_⟩
      refine hmem b (by omega) (by simp only [headerSize, pageSize] at *; omega) fun y hy hpay => ?_
      obtain rfl : y = x := by simpa [hx] using hy
      obtain ⟨hlo, -⟩ := hpay
      omega
  · obtain ⟨hnone, hlt, hhead, hin⟩ := h
    have hown : s.owner i = (s.slabs i).ownerOrSpan := by simp [owner, hcase]
    obtain ⟨hstate', hspan'⟩ := hfield (s.slabs i).ownerOrSpan (by rw [hown]; simp [owner, hhead])
    rw [hspan, hstate', hspan', hheld]
    exact ⟨hnone, hlt, hhead, hin⟩

/-! ### Where allocations lie -/

/-- A live allocation lies in the slab of its header and the tails behind it. -/
theorem SlabsOk.extent (h : SlabsOk s live) {x : Allocation} (hx : x ∈ live) :
    ∃ n, 0 < n ∧ s.slabIndex x.header + n ≤ s.slabCount ∧
      s.slabBase (s.slabIndex x.header) ≤ x.header ∧ x.ptr = x.header + headerSize ∧
      x.ptr + x.size ≤ s.slabBase (s.slabIndex x.header + n) ∧
      ∀ j, s.slabIndex x.header < j → j < s.slabIndex x.header + n →
        (s.slabs j).state = .largeTail := by
  have hplaced := h.placed x hx
  have hheld : x ∈ s.held live (s.slabIndex x.header) := mem_held.mpr ⟨hx, rfl⟩
  have hslab := h.slab _ hplaced
  generalize s.slabIndex x.header = i at hplaced hheld hslab ⊢
  unfold SlabOk at hslab
  rcases hcase : (s.slabs i).state with _ | _ | _ | _ <;> simp only [hcase] at hslab
  · simp [hslab] at hheld
  · obtain ⟨free, hslab⟩ := hslab
    obtain ⟨hptr, hend⟩ := hslab.payload h.start_ne hheld
    have hin := mem_objectStarts hslab.class_lt (hslab.header_mem hheld)
    rw [← slabBase_succ] at hin
    exact ⟨1, one_pos, hplaced, hin.1, hptr, by omega, by omega⟩
  · obtain ⟨hbase, hptr, hend⟩ := hslab.payload h.start_ne hheld
    exact ⟨_, hslab.span_pos, hslab.in_range, hbase.ge, hptr, hend,
      fun j hij hj => (hslab.tails j hij hj).1⟩
  · simp [hslab.1] at hheld

/-- A slab that has an allocation is no tail. -/
theorem SlabsOk.state_ne_tail (h : SlabsOk s live) {x : Allocation} (hx : x ∈ live) :
    (s.slabs (s.slabIndex x.header)).state ≠ .largeTail := by
  intro htail
  have hslab := h.slab _ (h.placed x hx)
  have hheld : x ∈ s.held live (s.slabIndex x.header) := mem_held.mpr ⟨hx, rfl⟩
  simp only [SlabOk, htail] at hslab
  simp [hslab.1] at hheld

/-- The slab of a byte of a payload is a tail or the slab of the allocation. -/
theorem SlabsOk.payload_slab (h : SlabsOk s live) {x : Allocation} (hx : x ∈ live) {a : ℕ}
    (ha : x.InPayload a) (hle : s.slabBase i ≤ a) (hlt : a < s.slabBase i + pageSize) :
    (s.slabs i).state = .largeTail ∨ x ∈ s.held live i := by
  obtain ⟨n, hn, -, hbase, hptr, hend, htails⟩ := h.extent hx
  obtain ⟨hlo, hhi⟩ := ha
  rcases Nat.lt_trichotomy i (s.slabIndex x.header) with hi | rfl | hi
  · have := s.slabBase_mono (show i + 1 ≤ s.slabIndex x.header by omega)
    rw [slabBase_succ] at this
    omega
  · exact .inr (mem_held.mpr ⟨hx, rfl⟩)
  · refine .inl (htails i hi ?_)
    by_contra hge
    have := s.slabBase_mono (show s.slabIndex x.header + n ≤ i by omega)
    omega

/-- Live allocations do not overlap. -/
theorem SlabsOk.pairwise_disjoint (h : SlabsOk s live) :
    live.Pairwise fun x y => x.ptr + x.size ≤ y.header ∨ y.ptr + y.size ≤ x.header := by
  refine List.pairwise_iff_forall_sublist.mpr fun {x y} hsub => ?_
  have hx : x ∈ live := hsub.subset (by simp)
  have hy : y ∈ live := hsub.subset (by simp)
  obtain ⟨n, -, -, hxbase, -, hxend, hxtails⟩ := h.extent hx
  obtain ⟨m, -, -, hybase, -, hyend, hytails⟩ := h.extent hy
  have hxstate := h.state_ne_tail hx
  have hystate := h.state_ne_tail hy
  rcases Nat.lt_trichotomy (s.slabIndex x.header) (s.slabIndex y.header) with hlt | heq | hlt
  · left
    have hle : s.slabIndex x.header + n ≤ s.slabIndex y.header := by
      by_contra hgt
      exact hystate (hxtails _ hlt (by omega))
    have := s.slabBase_mono hle
    omega
  · -- both are allocations of one slab, in which they are different entries
    have hheld : [x, y].Sublist (s.held live (s.slabIndex x.header)) := by
      have := hsub.filter fun z => decide (s.slabIndex z.header = s.slabIndex x.header)
      simpa [held, heq] using this
    have hslab := h.slab _ (h.placed x hx)
    have hxheld := hheld.subset (show x ∈ [x, y] by simp)
    have hyheld := hheld.subset (show y ∈ [x, y] by simp)
    unfold SlabOk at hslab
    rcases hcase : (s.slabs (s.slabIndex x.header)).state with _ | _ | _ | _ <;>
      simp only [hcase] at hslab
    · simp [hslab] at hxheld
    · obtain ⟨free, hslab⟩ := hslab
      have hnodup := ((hheld.map Allocation.header).nodup (List.nodup_append.mp hslab.nodup).2.1)
      have hxy : x.header ≠ y.header := by simpa using hnodup
      have hdisj := objectStarts_disjoint (hslab.header_mem hxheld) (hslab.header_mem hyheld) hxy
      have hxend := (hslab.payload h.start_ne hxheld).2
      have hyend := (hslab.payload h.start_ne hyheld).2
      omega
    · obtain ⟨z, hz, -⟩ := hslab.held
      rw [hz] at hheld
      simpa using hheld.length_le
    · exact absurd hcase hxstate
  · right
    have hle : s.slabIndex y.header + m ≤ s.slabIndex x.header := by
      by_contra hgt
      exact hxstate (hytails _ hlt (by omega))
    have := s.slabBase_mono hle
    omega

/-! ### Steps that change some slabs -/

/-- A step changes the slabs in `P` and the bytes of their pages, and the lists of available
slabs. -/
structure KeepsSlabs (s s' : KernelHeapManager) (P : ℕ → Prop) : Prop where
  heapStart : s'.heapStart = s.heapStart
  managedHeapSize : s'.managedHeapSize = s.managedHeapSize
  slabCount : s'.slabCount = s.slabCount
  content : ∀ i, ¬ P i → (s'.slabs i).content = (s.slabs i).content
  memory : ∀ a, (∀ i, P i → a < s.slabBase i ∨ s.slabBase i + pageSize ≤ a) →
    s'.memory a = s.memory a

namespace KeepsSlabs

variable {s'' : KernelHeapManager} {P : ℕ → Prop}

section

variable (h : KeepsSlabs s s' P)

include h

theorem slabBase : s'.slabBase = s.slabBase := by
  funext i
  simp only [KernelHeapManager.slabBase, h.heapStart]

theorem slabIndex : s'.slabIndex = s.slabIndex := by
  funext a
  simp only [KernelHeapManager.slabIndex, h.heapStart]

theorem held (live : List Allocation) (i : ℕ) : s'.held live i = s.held live i := by
  simp only [KernelHeapManager.held, h.slabIndex]

theorem objectStarts (i c : ℕ) : s'.objectStarts i c = s.objectStarts i c := by
  simp only [KernelHeapManager.objectStarts, h.slabBase]

theorem trans (h' : KeepsSlabs s' s'' P) : KeepsSlabs s s'' P where
  heapStart := h'.heapStart.trans h.heapStart
  managedHeapSize := h'.managedHeapSize.trans h.managedHeapSize
  slabCount := h'.slabCount.trans h.slabCount
  content i hi := (h'.content i hi).trans (h.content i hi)
  memory a ha := (h'.memory a (by rwa [h.slabBase])).trans (h.memory a ha)

end

theorem of_sameContent (h : SameContent s s') : KeepsSlabs s s' P :=
  ⟨h.heapStart, h.managedHeapSize, h.slabCount, fun i _ => h.content i,
    fun a _ => congrFun h.memory a⟩

theorem modifySlab (s : KernelHeapManager) (f : SlabDescriptor → SlabDescriptor) (hi : P i) :
    KeepsSlabs s (s.modifySlab i f) P := by
  refine ⟨rfl, rfl, rfl, fun j hj => ?_, fun _ _ => rfl⟩
  have hji : j ≠ i := fun hji => hj (hji ▸ hi)
  simp only [KernelHeapManager.modifySlab, Function.update_of_ne hji]

theorem storeMemory (s : KernelHeapManager) {a n : ℕ} (value : ℕ) (hi : P i)
    (hle : s.slabBase i ≤ a) (hlt : a + n ≤ s.slabBase i + pageSize) :
    KeepsSlabs s (s.storeMemory a n value) P := by
  refine ⟨rfl, rfl, rfl, fun _ _ => rfl, fun b hb => ?_⟩
  have := hb i hi
  exact ByteMemory.store_apply_of_notMem (by omega)

end KeepsSlabs

/-- The invariant of all slabs after a step, from that of the slabs it changes. -/
theorem SlabsOk.update {P : ℕ → Prop} (h : SlabsOk s live) (hkeeps : KeepsSlabs s s' P)
    (hplaced : ∀ x ∈ live', s.slabIndex x.header < s.slabCount)
    (hheld : ∀ i < s.slabCount, ¬ P i → s.held live' i = s.held live i)
    (hrun : ∀ i < s.slabCount, ¬ P i → ∀ k, s.owner k = s.owner i → ¬ P k)
    (hslab : ∀ i < s.slabCount, P i → SlabOk s' live' i) : SlabsOk s' live' where
  start_ne := by rw [hkeeps.heapStart]; exact h.start_ne
  end_lt := by rw [hkeeps.slabBase, hkeeps.slabCount]; exact h.end_lt
  count_le := by rw [hkeeps.slabCount]; exact h.count_le
  managed := by rw [hkeeps.slabCount, hkeeps.managedHeapSize]; exact h.managed
  placed x hx := by
    rw [hkeeps.slabIndex, hkeeps.slabCount]
    exact hplaced x hx
  slab i hi := by
    rw [hkeeps.slabCount] at hi
    by_cases hP : P i
    · exact hslab i hi hP
    · refine (h.slab i hi).congr h.start_ne hkeeps.heapStart hkeeps.slabCount
        (fun k hk => hkeeps.content k (hrun i hi hP k hk)) ?_ fun a hle hlt _ => ?_
      · rw [hkeeps.held, hheld i hi hP]
      · refine hkeeps.memory a fun j hj => ?_
        rcases Nat.lt_trichotomy i j with hij | rfl | hij
        · have := s.slabBase_mono (show i + 1 ≤ j from hij)
          rw [slabBase_succ] at this
          omega
        · exact absurd hj hP
        · have := s.slabBase_mono (show j + 1 ≤ i from hij)
          rw [slabBase_succ] at this
          omega

/-- A slab in no run is not the owner of another slab. -/
theorem SlabsOk.owner_ne (h : SlabsOk s live) (hi : i < s.slabCount) (hij : j ≠ i)
    (hstate : (s.slabs j).state = .free ∨ (s.slabs j).state = .small) : s.owner j ≠ s.owner i := by
  intro heq
  have hj : s.owner j = j := by rcases hstate with hstate | hstate <;> simp [owner, hstate]
  rw [hj] at heq
  have hslab := h.slab i hi
  by_cases htail : (s.slabs i).state = .largeTail
  · rw [owner, if_pos htail] at heq
    simp only [SlabOk, htail, ← heq] at hslab
    rcases hstate with hstate | hstate <;> simp [hstate] at hslab
  · exact hij (by rw [heq, owner, if_neg htail])

/-- Overwriting payloads preserves the invariant. -/
theorem SlabsOk.write (h : SlabsOk s live) {memory : ByteMemory}
    (hown : ∀ a, (∀ x ∈ live, ¬ x.InPayload a) → memory a = s.memory a) :
    SlabsOk { s with memory := memory } live where
  start_ne := h.start_ne
  end_lt := h.end_lt
  count_le := h.count_le
  managed := h.managed
  placed := h.placed
  slab i hi := by
    by_cases htail : (s.slabs i).state = .largeTail
    · have hslab := h.slab i hi
      simp only [SlabOk, htail] at hslab ⊢
      exact hslab
    · refine (h.slab i hi).congr h.start_ne rfl rfl (fun _ _ => rfl) rfl fun a hle hlt ha => ?_
      refine hown a fun x hx hpay => ?_
      rcases h.payload_slab hx hpay hle hlt with htail' | hheld
      · exact htail htail'
      · exact ha x hheld hpay

end KernelHeapManager

end TwistedOS
