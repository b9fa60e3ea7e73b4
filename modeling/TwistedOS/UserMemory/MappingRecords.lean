import Mathlib.Algebra.BigOperators.Group.Finset.Basic
import TwistedOS.UserMemory.MemorySystemCalls

/-!
# The records of memory mappings

What a change of the mapping table does to the virtual pages that its records cover. Unmapping a
range removes, trims or splits the record of a slot: every record afterwards is a piece of a record
before, at the same physical addresses, and the pieces of the trimmed record lie outside the range.

## Main definitions

* `ProcessMemoryMapping.Regular`, `ProcessMemoryMapping.Covers`, `ProcessMemoryMapping.PieceOf`.
* `UserMemory.CoversOnce`: no virtual address lies in two anonymous records.

## Main results

* `UserMemory.trimMapping_spec`: the records after a range has been unmapped.
* `UserMemory.registerProcessMapping_spec`: the records after a mapping has been recorded.
-/

namespace TwistedOS

namespace ProcessMemoryMapping

/-- A record in use consists of pages of the 64-bit address space. -/
structure Regular (mapping : ProcessMemoryMapping) : Prop where
  start_aligned : mapping.virtualAddressStart % pageSize = 0
  length_aligned : mapping.length % pageSize = 0
  length_pos : 0 < mapping.length
  end_lt : mapping.virtualAddressStart + mapping.length < 2 ^ 64
  physical : mapping.isAnonymous = true → mapping.physicalAddressStart ≠ 0 ∧
    mapping.physicalAddressStart + mapping.length < 2 ^ 64

/-- The address lies in the range of the record. -/
def Covers (mapping : ProcessMemoryMapping) (v : ℕ) : Prop :=
  mapping.inUse = true ∧ mapping.virtualAddressStart ≤ v ∧
    v < mapping.virtualAddressStart + mapping.length

/-- The physical address behind an address that the record covers. -/
def physicalOf (mapping : ProcessMemoryMapping) (v : ℕ) : ℕ :=
  mapping.physicalAddressStart + (v - mapping.virtualAddressStart)

/-- The record `a` is the part of the record `b` from offset `d` on. -/
structure PieceOf (a b : ProcessMemoryMapping) (d : ℕ) : Prop where
  inUse : b.inUse = true
  aligned : d % pageSize = 0
  start : a.virtualAddressStart = b.virtualAddressStart + d
  length_le : d + a.length ≤ b.length
  length_pos : 0 < a.length
  length_aligned : a.length % pageSize = 0
  isAnonymous : a.isAnonymous = b.isAnonymous
  physical : b.isAnonymous = true →
    a.physicalAddressStart = b.physicalAddressStart + d

variable {a b : ProcessMemoryMapping} {d v : ℕ}

theorem PieceOf.refl (hb : b.inUse = true) (hreg : Regular b) : PieceOf b b 0 :=
  ⟨hb, rfl, rfl, by omega, hreg.length_pos, hreg.length_aligned, rfl, fun _ => rfl⟩

theorem PieceOf.trans {c : ProcessMemoryMapping} {e : ℕ} (h : PieceOf a b d) (h' : PieceOf b c e) :
    PieceOf a c (e + d) where
  inUse := h'.inUse
  aligned := by
    have := h.aligned
    have := h'.aligned
    simp only [pageSize] at *
    omega
  start := by
    rw [h.start, h'.start]
    omega
  length_le := by
    have := h.length_le
    have := h'.length_le
    omega
  length_pos := h.length_pos
  length_aligned := h.length_aligned
  isAnonymous := h.isAnonymous.trans h'.isAnonymous
  physical hc := by
    rw [h.physical (h'.isAnonymous.trans hc), h'.physical hc]
    omega

theorem PieceOf.regular (h : PieceOf a b d) (hb : Regular b) : Regular a where
  start_aligned := by
    have := hb.start_aligned
    have := h.aligned
    rw [h.start]
    simp only [pageSize] at *
    omega
  length_aligned := h.length_aligned
  length_pos := h.length_pos
  end_lt := by
    have := hb.end_lt
    have := h.length_le
    rw [h.start]
    omega
  physical ha := by
    have hanon := h.isAnonymous.symm.trans ha
    obtain ⟨hne, hlt⟩ := hb.physical hanon
    have := h.length_le
    rw [h.physical hanon]
    omega

theorem PieceOf.covers (h : PieceOf a b d) (hv : Covers a v) : Covers b v := by
  obtain ⟨-, hle, hlt⟩ := hv
  have := h.length_le
  rw [h.start] at hle hlt
  exact ⟨h.inUse, by omega, by omega⟩

theorem PieceOf.physicalOf_eq (h : PieceOf a b d) (hanon : b.isAnonymous = true)
    (hv : Covers a v) : a.physicalOf v = b.physicalOf v := by
  obtain ⟨-, hle, -⟩ := hv
  rw [h.start] at hle
  simp only [physicalOf, h.physical hanon, h.start]
  omega

end ProcessMemoryMapping

open ProcessMemoryMapping

namespace UserMemory

variable {s s' : UserMemory} {unmapStart unmapEnd slot : ℕ} {mapping : ProcessMemoryMapping}

@[simp] theorem setPmm_pmm (s : UserMemory) (m : PhysicalMemoryManager) :
    (s.setPmm m).pmm = m := rfl

@[simp] theorem setMapping_self (s : UserMemory) (i : ℕ) (mapping : ProcessMemoryMapping) :
    (s.setMapping i mapping).memoryMappings i = mapping := Function.update_self ..

theorem setMapping_of_ne (s : UserMemory) {i j : ℕ} (h : j ≠ i) (mapping : ProcessMemoryMapping) :
    (s.setMapping i mapping).memoryMappings j = s.memoryMappings j := Function.update_of_ne h ..

theorem mem_slots {i : ℕ} : i ∈ slots ↔ i < maxMemoryMappingsPerProcess := List.mem_range

/-! ### The part of a record in a range -/

theorem mappingEnd_eq (h : Regular mapping) :
    mappingEnd mapping = mapping.virtualAddressStart + mapping.length := u64_of_lt h.end_lt

theorem overlapStart_eq (unmapStart : ℕ) (mapping : ProcessMemoryMapping) :
    overlapStart unmapStart mapping = max unmapStart mapping.virtualAddressStart := by
  unfold overlapStart
  split_ifs <;> omega

theorem overlapEnd_eq (h : Regular mapping) (unmapEnd : ℕ) : overlapEnd unmapEnd mapping =
    min unmapEnd (mapping.virtualAddressStart + mapping.length) := by
  rw [overlapEnd, mappingEnd_eq h]
  split_ifs <;> omega

theorem overlapsRange_iff (h : Regular mapping) :
    overlapsRange unmapStart unmapEnd mapping = true ↔
      mapping.inUse = true ∧ max unmapStart mapping.virtualAddressStart <
        min unmapEnd (mapping.virtualAddressStart + mapping.length) := by
  have hpos : mapping.virtualAddressStart < mapping.virtualAddressStart + mapping.length :=
    Nat.lt_add_of_pos_right h.length_pos
  simp only [overlapsRange, mappingEnd_eq h, overlapStart_eq, overlapEnd_eq h, Bool.and_eq_true,
    decide_eq_true_eq, hpos, and_true]

/-- A record overlaps a range when it covers an address of the range. -/
theorem overlapsRange_of_covers (h : Regular mapping) {v : ℕ} (hv : Covers mapping v)
    (hle : unmapStart ≤ v) (hlt : v < unmapEnd) :
    overlapsRange unmapStart unmapEnd mapping = true := by
  obtain ⟨huse, hvle, hvlt⟩ := hv
  exact (overlapsRange_iff h).mpr ⟨huse, by omega⟩

/-! ### Trimming a record -/

/-- No address lies in two anonymous records. -/
def CoversOnce (t : ℕ → ProcessMemoryMapping) : Prop :=
  ∀ i < maxMemoryMappingsPerProcess, ∀ j < maxMemoryMappingsPerProcess, i ≠ j →
    (t i).isAnonymous = true → (t j).isAnonymous = true → ∀ v, Covers (t i) v → ¬ Covers (t j) v

/-- The records of `t'` come from trimming the record of a slot of `t`. -/
structure Trims (unmapStart unmapEnd slot : ℕ) (t t' : ℕ → ProcessMemoryMapping) : Prop where
  source : ∀ j < maxMemoryMappingsPerProcess, (t' j).inUse = true →
    ∃ i < maxMemoryMappingsPerProcess, ∃ d, PieceOf (t' j) (t i) d ∧
      (i ≠ slot → j = i ∧ t' j = t i) ∧
      (i = slot → ∀ v, Covers (t' j) v → v < unmapStart ∨ unmapEnd ≤ v)
  other : ∀ j, (t j).inUse = true → j ≠ slot → t' j = t j
  once : CoversOnce t → CoversOnce t'

theorem findAvailableMappingSlot_some {i : ℕ} (h : s.findAvailableMappingSlot = some i) :
    i < maxMemoryMappingsPerProcess ∧ (s.memoryMappings i).inUse = false := by
  unfold findAvailableMappingSlot at h
  have hfree := List.find?_some h
  rw [Bool.not_eq_true'] at hfree
  exact ⟨mem_slots.mp (List.mem_of_find?_eq_some h), hfree⟩

/-- The pieces in front of a range and behind it. -/
theorem leftMapping_piece (hreg : Regular mapping) (huse : mapping.inUse = true)
    (hstart : unmapStart % pageSize = 0)
    (hlt : mapping.virtualAddressStart < overlapStart unmapStart mapping)
    (hle : overlapStart unmapStart mapping < mapping.virtualAddressStart + mapping.length) :
    PieceOf (leftMapping unmapStart mapping) mapping 0 ∧
      ∀ v, Covers (leftMapping unmapStart mapping) v → v < unmapStart := by
  rw [overlapStart_eq] at hlt hle
  have hleft : (leftMapping unmapStart mapping).length = unmapStart - mapping.virtualAddressStart := by
    simp only [leftMapping, overlapStart_eq]
    omega
  have hsa := hreg.start_aligned
  refine ⟨⟨huse, rfl, rfl, ?_, ?_, ?_, rfl, fun _ => rfl⟩, ?_⟩
  · omega
  · omega
  · simp only [hleft, pageSize] at *
    omega
  · rintro v ⟨-, -, hv⟩
    rw [hleft] at hv
    simp only [leftMapping] at hv
    omega

@[inherit_doc leftMapping_piece]
theorem rightMapping_piece (hreg : Regular mapping) (huse : mapping.inUse = true)
    (hend : unmapEnd % pageSize = 0) (hle : mapping.virtualAddressStart ≤ unmapEnd)
    (hlt : overlapEnd unmapEnd mapping < mappingEnd mapping) :
    PieceOf (rightMapping unmapEnd mapping) mapping (unmapEnd - mapping.virtualAddressStart) ∧
      ∀ v, Covers (rightMapping unmapEnd mapping) v → unmapEnd ≤ v := by
  rw [overlapEnd_eq hreg, mappingEnd_eq hreg] at hlt
  have hstart : (rightMapping unmapEnd mapping).virtualAddressStart = unmapEnd := by
    simp only [rightMapping, overlapEnd_eq hreg]
    omega
  have hlength : (rightMapping unmapEnd mapping).length =
      mapping.virtualAddressStart + mapping.length - unmapEnd := by
    simp only [rightMapping, overlapEnd_eq hreg, mappingEnd_eq hreg]
    omega
  have hsa := hreg.start_aligned
  have hla := hreg.length_aligned
  refine ⟨⟨huse, ?_, ?_, ?_, ?_, ?_, rfl, fun hanon => ?_⟩, ?_⟩
  · simp only [pageSize] at *
    omega
  · omega
  · omega
  · omega
  · simp only [hlength, pageSize] at *
    omega
  · obtain ⟨hne, hphys⟩ := hreg.physical hanon
    have hmin : overlapEnd unmapEnd mapping = unmapEnd := by
      rw [overlapEnd_eq hreg]
      omega
    simp only [rightMapping, hmin, if_pos hne]
    exact u64_of_lt (by omega)
  · rintro v ⟨-, hv, -⟩
    rwa [hstart] at hv

/-- One piece at most stays in the slot. -/
theorem Trims.update {t : ℕ → ProcessMemoryMapping} {a : ProcessMemoryMapping}
    (hreg : ∀ i < maxMemoryMappingsPerProcess, (t i).inUse = true → Regular (t i))
    (hslot : slot < maxMemoryMappingsPerProcess)
    (ha : a.inUse = true → ∃ d, PieceOf a (t slot) d ∧
      ∀ v, Covers a v → v < unmapStart ∨ unmapEnd ≤ v) :
    Trims unmapStart unmapEnd slot t (Function.update t slot a) where
  source j hj huse := by
    by_cases hjs : j = slot
    · subst hjs
      rw [Function.update_self] at huse ⊢
      obtain ⟨d, hpiece, hout⟩ := ha huse
      exact ⟨j, hj, d, hpiece, fun h => absurd rfl h, fun _ => hout⟩
    · rw [Function.update_of_ne hjs] at huse ⊢
      exact ⟨j, hj, 0, .refl huse (hreg j hj huse), fun _ => ⟨rfl, rfl⟩, fun h => absurd h hjs⟩
  other j _ hj := Function.update_of_ne hj ..
  once honce i hi j hj hij hai haj v hvi hvj := by
    have hcovers : ∀ k, (Function.update t slot a k).isAnonymous = true →
        Covers (Function.update t slot a k) v → (t k).isAnonymous = true ∧ Covers (t k) v := by
      intro k hk hv
      by_cases hks : k = slot
      · subst hks
        rw [Function.update_self] at hk hv
        obtain ⟨d, hpiece, -⟩ := ha hv.1
        exact ⟨hpiece.isAnonymous.symm.trans hk, hpiece.covers hv⟩
      · rw [Function.update_of_ne hks] at hk hv
        exact ⟨hk, hv⟩
    obtain ⟨hai', hvi'⟩ := hcovers i hai hvi
    obtain ⟨haj', hvj'⟩ := hcovers j haj hvj
    exact honce i hi j hj hij hai' haj' v hvi' hvj'

/-- One piece stays in the slot, and another one moves to a free slot. -/
theorem Trims.update_update {t : ℕ → ProcessMemoryMapping} {a b : ProcessMemoryMapping} {f d e : ℕ}
    (hreg : ∀ i < maxMemoryMappingsPerProcess, (t i).inUse = true → Regular (t i))
    (hslot : slot < maxMemoryMappingsPerProcess) (hfree : (t f).inUse = false)
    (hlt : unmapStart < unmapEnd)
    (ha : PieceOf a (t slot) d) (hav : ∀ v, Covers a v → v < unmapStart)
    (hb : PieceOf b (t slot) e) (hbv : ∀ v, Covers b v → unmapEnd ≤ v) :
    Trims unmapStart unmapEnd slot t (Function.update (Function.update t f b) slot a) := by
  have hne : f ≠ slot := by
    rintro rfl
    simp [ha.inUse] at hfree
  have hupdate : ∀ k, Function.update (Function.update t f b) slot a k =
      if k = slot then a else if k = f then b else t k := by
    intro k
    simp only [Function.update_apply]
  refine ⟨fun j hj huse => ?_, fun j huse hj => ?_, fun honce i hi j hj hij hai haj v hvi hvj => ?_⟩
  · rw [hupdate] at huse ⊢
    split_ifs at huse ⊢ with hjs hjf
    · exact ⟨slot, hslot, d, ha, fun h => absurd rfl h, fun _ v hv => .inl (hav v hv)⟩
    · exact ⟨slot, hslot, e, hb, fun h => absurd rfl h, fun _ v hv => .inr (hbv v hv)⟩
    · exact ⟨j, hj, 0, .refl huse (hreg j hj huse), fun _ => ⟨rfl, rfl⟩, fun h => absurd h hjs⟩
  · rw [hupdate, if_neg hj, if_neg]
    rintro rfl
    simp [hfree] at huse
  · have hcovers : ∀ k, (Function.update (Function.update t f b) slot a k).isAnonymous = true →
        Covers (Function.update (Function.update t f b) slot a k) v →
        k = slot ∧ (t slot).isAnonymous = true ∧ Covers (t slot) v ∧ v < unmapStart ∨
        k = f ∧ (t slot).isAnonymous = true ∧ Covers (t slot) v ∧ unmapEnd ≤ v ∨
        k ≠ slot ∧ (t k).isAnonymous = true ∧ Covers (t k) v := by
      intro k hk hv
      rw [hupdate] at hk hv
      split_ifs at hk hv with hks hkf
      · exact .inl ⟨hks, ha.isAnonymous.symm.trans hk, ha.covers hv, hav v hv⟩
      · exact .inr (.inl ⟨hkf, hb.isAnonymous.symm.trans hk, hb.covers hv, hbv v hv⟩)
      · exact .inr (.inr ⟨hks, hk, hv⟩)
    rcases hcovers i hai hvi with ⟨rfl, ha₁, hv₁, h₁⟩ | ⟨rfl, ha₁, hv₁, h₁⟩ | ⟨hi₁, ha₁, hv₁⟩ <;>
      rcases hcovers j haj hvj with ⟨rfl, ha₂, hv₂, h₂⟩ | ⟨rfl, ha₂, hv₂, h₂⟩ | ⟨hj₂, ha₂, hv₂⟩
    · exact hij rfl
    · omega
    · exact honce i hi j hj hij ha₁ ha₂ v hv₁ hv₂
    · omega
    · exact hij rfl
    · exact honce slot hslot j hj hj₂.symm ha₁ ha₂ v hv₁ hv₂
    · exact honce i hi j hj hij ha₁ ha₂ v hv₁ hv₂
    · exact honce i hi slot hslot hi₁ ha₁ ha₂ v hv₁ hv₂
    · exact honce i hi j hj hij ha₁ ha₂ v hv₁ hv₂

/-- Trimming the record of a slot that overlaps the range. -/
theorem trimMapping_spec
    (hreg : ∀ i < maxMemoryMappingsPerProcess, (s.memoryMappings i).inUse = true →
      Regular (s.memoryMappings i))
    (hslot : slot < maxMemoryMappingsPerProcess)
    (hover : overlapsRange unmapStart unmapEnd (s.memoryMappings slot) = true)
    (huse : (s.memoryMappings slot).inUse = true)
    (hstart : unmapStart % pageSize = 0) (hend : unmapEnd % pageSize = 0)
    (htrim : s.trimMapping unmapStart unmapEnd slot = (s', true)) :
    Trims unmapStart unmapEnd slot s.memoryMappings s'.memoryMappings ∧
      s'.pmm = s.pmm ∧ s'.addressSpace = s.addressSpace := by
  have hslotreg := hreg slot hslot huse
  obtain ⟨-, hlt⟩ := (overlapsRange_iff hslotreg).mp hover
  have hleft := leftMapping_piece hslotreg huse hstart
  have hright := rightMapping_piece hslotreg huse hend (by omega)
  rw [overlapStart_eq] at hleft
  unfold trimMapping at htrim
  dsimp only at htrim
  rw [overlapStart_eq] at htrim
  cases hL : decide (max unmapStart (s.memoryMappings slot).virtualAddressStart >
      (s.memoryMappings slot).virtualAddressStart) <;>
    cases hR : decide (overlapEnd unmapEnd (s.memoryMappings slot) <
      mappingEnd (s.memoryMappings slot)) <;>
    rw [hL, hR] at htrim <;> simp only [decide_eq_true_eq, decide_eq_false_iff_not] at hL hR
  · obtain rfl := (Prod.mk.inj htrim).1.symm
    exact ⟨.update hreg hslot (by simp [ProcessMemoryMapping.empty]), rfl, rfl⟩
  · obtain rfl := (Prod.mk.inj htrim).1.symm
    obtain ⟨hpiece, hout⟩ := hright hR
    exact ⟨.update hreg hslot fun _ => ⟨_, hpiece, fun v hv => .inr (hout v hv)⟩, rfl, rfl⟩
  · obtain rfl := (Prod.mk.inj htrim).1.symm
    obtain ⟨hpiece, hout⟩ := hleft hL (by omega)
    exact ⟨.update hreg hslot fun _ => ⟨_, hpiece, fun v hv => .inl (hout v hv)⟩, rfl, rfl⟩
  · dsimp only at htrim
    cases hfind : s.findAvailableMappingSlot with
    | none => simp [hfind] at htrim
    | some f =>
      rw [hfind] at htrim
      obtain rfl := (Prod.mk.inj htrim).1.symm
      obtain ⟨hpiece, hout⟩ := hleft hL (by omega)
      obtain ⟨hpiece', hout'⟩ := hright hR
      exact ⟨.update_update hreg hslot (findAvailableMappingSlot_some hfind).2 (by omega) hpiece
        hout hpiece' hout', rfl, rfl⟩

/-- A record that still overlaps the range is another one than the trimmed one, and unchanged. -/
theorem Trims.eq_of_overlaps {t t' : ℕ → ProcessMemoryMapping} {i : ℕ}
    (htrims : Trims unmapStart unmapEnd slot t t')
    (hreg : ∀ i < maxMemoryMappingsPerProcess, (t i).inUse = true → Regular (t i))
    (hi : i < maxMemoryMappingsPerProcess)
    (hover : overlapsRange unmapStart unmapEnd (t' i) = true) : i ≠ slot ∧ t' i = t i := by
  have huse : (t' i).inUse = true := by
    simp only [overlapsRange, Bool.and_eq_true] at hover
    exact hover.1.1
  obtain ⟨i', hi', d, hpiece, hother, hout⟩ := htrims.source i hi huse
  by_cases hslot : i' = slot
  · obtain ⟨-, hlt⟩ :=
      (overlapsRange_iff (hpiece.regular (hreg i' hi' hpiece.inUse))).mp hover
    have := hout hslot (max unmapStart (t' i).virtualAddressStart) ⟨huse, by omega, by omega⟩
    omega
  · obtain ⟨rfl, heq⟩ := hother hslot
    exact ⟨hslot, heq⟩

/-! ### Sums over the records -/

/-- The sum of a quantity over the records. -/
def sumRecords (w : ProcessMemoryMapping → ℕ) (t : ℕ → ProcessMemoryMapping) : ℕ :=
  ∑ i ∈ Finset.range maxMemoryMappingsPerProcess, w (t i)

theorem sumRecords_update (w : ProcessMemoryMapping → ℕ) (t : ℕ → ProcessMemoryMapping) {i : ℕ}
    (hi : i < maxMemoryMappingsPerProcess) (a : ProcessMemoryMapping) :
    sumRecords w (Function.update t i a) + w (t i) = sumRecords w t + w a := by
  have hmem : i ∈ Finset.range maxMemoryMappingsPerProcess := Finset.mem_range.mpr hi
  have hrest : ∑ j ∈ (Finset.range maxMemoryMappingsPerProcess).erase i,
      w (Function.update t i a j) =
        ∑ j ∈ (Finset.range maxMemoryMappingsPerProcess).erase i, w (t j) :=
    Finset.sum_congr rfl fun j hj => by rw [Function.update_of_ne (Finset.ne_of_mem_erase hj)]
  rw [sumRecords, sumRecords, ← Finset.sum_erase_add _ _ hmem, hrest,
    ← Finset.sum_erase_add (Finset.range maxMemoryMappingsPerProcess) (fun j => w (t j)) hmem,
    Function.update_self]
  omega

/-- A sum over the records after the record of a slot has been trimmed. -/
theorem sumRecords_trimMapping {w : ProcessMemoryMapping → ℕ}
    (hw : ∀ mapping, mapping.inUse = false → w mapping = 0)
    (hslot : slot < maxMemoryMappingsPerProcess) (huse : (s.memoryMappings slot).inUse = true)
    (htrim : s.trimMapping unmapStart unmapEnd slot = (s', true)) :
    sumRecords w s'.memoryMappings + w (s.memoryMappings slot) =
      sumRecords w s.memoryMappings +
        ((if overlapStart unmapStart (s.memoryMappings slot) >
            (s.memoryMappings slot).virtualAddressStart then
          w (leftMapping unmapStart (s.memoryMappings slot)) else 0) +
        if overlapEnd unmapEnd (s.memoryMappings slot) < mappingEnd (s.memoryMappings slot) then
          w (rightMapping unmapEnd (s.memoryMappings slot)) else 0) := by
  have hempty : w .empty = 0 := hw _ rfl
  unfold trimMapping at htrim
  dsimp only at htrim
  cases hL : decide (overlapStart unmapStart (s.memoryMappings slot) >
      (s.memoryMappings slot).virtualAddressStart) <;>
    cases hR : decide (overlapEnd unmapEnd (s.memoryMappings slot) <
      mappingEnd (s.memoryMappings slot)) <;>
    rw [hL, hR] at htrim <;> simp only [decide_eq_true_eq, decide_eq_false_iff_not] at hL hR
  · obtain rfl := (Prod.mk.inj htrim).1.symm
    have := sumRecords_update w s.memoryMappings hslot .empty
    rw [if_neg hL, if_neg hR]
    simp only [setMapping]
    omega
  · obtain rfl := (Prod.mk.inj htrim).1.symm
    have := sumRecords_update w s.memoryMappings hslot
      (rightMapping unmapEnd (s.memoryMappings slot))
    rw [if_neg hL, if_pos hR]
    simp only [setMapping]
    omega
  · obtain rfl := (Prod.mk.inj htrim).1.symm
    have := sumRecords_update w s.memoryMappings hslot
      (leftMapping unmapStart (s.memoryMappings slot))
    rw [if_pos hL, if_neg hR]
    simp only [setMapping]
    omega
  · dsimp only at htrim
    cases hfind : s.findAvailableMappingSlot with
    | none => simp [hfind] at htrim
    | some f =>
      rw [hfind] at htrim
      obtain rfl := (Prod.mk.inj htrim).1.symm
      obtain ⟨hf, hfree⟩ := findAvailableMappingSlot_some hfind
      have hne : slot ≠ f := by
        rintro rfl
        simp [huse] at hfree
      have h₁ := sumRecords_update w s.memoryMappings hf
        (rightMapping unmapEnd (s.memoryMappings slot))
      have h₂ := sumRecords_update w (Function.update s.memoryMappings f
        (rightMapping unmapEnd (s.memoryMappings slot))) hslot
        (leftMapping unmapStart (s.memoryMappings slot))
      rw [hw _ hfree] at h₁
      rw [Function.update_of_ne hne] at h₂
      rw [if_pos hL, if_pos hR]
      simp only [setMapping]
      omega

/-! ### A new record -/

/-- Recording a mapping fills a free slot. -/
theorem registerProcessMapping_spec {mappingStart mappingLength physicalStart : ℕ}
    {isAnonymous : Bool}
    (h : s.registerProcessMapping mappingStart mappingLength physicalStart isAnonymous =
      (s', true)) :
    ∃ i < maxMemoryMappingsPerProcess, (s.memoryMappings i).inUse = false ∧
      s' = s.setMapping i ⟨true, mappingStart, mappingLength, physicalStart, isAnonymous⟩ := by
  unfold registerProcessMapping at h
  cases hfind : s.findAvailableMappingSlot with
  | none => simp [hfind] at h
  | some i =>
    rw [hfind] at h
    obtain ⟨hi, hfree⟩ := findAvailableMappingSlot_some hfind
    exact ⟨i, hi, hfree, (Prod.mk.inj h).1.symm⟩

theorem registerProcessMapping_false {mappingStart mappingLength physicalStart : ℕ}
    {isAnonymous : Bool}
    (h : s.registerProcessMapping mappingStart mappingLength physicalStart isAnonymous =
      (s', false)) : s' = s := by
  unfold registerProcessMapping at h
  cases hfind : s.findAvailableMappingSlot with
  | none =>
    rw [hfind] at h
    exact (Prod.mk.inj h).1.symm
  | some i => simp [hfind] at h

end UserMemory

end TwistedOS
