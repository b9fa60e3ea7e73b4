import TwistedOS.UserMemory.MappingOwnership

/-!
# Counting records

The table of mappings has a fixed number of slots. `munmap` counts first how many records a range
would leave behind; when no two records overlap, a record that has to be split is the only one that
meets the range, so that this count leaves a slot for its second part.

## Main definitions

* `UserMemory.coverings`: how many records cover an address.
* `UserMemory.recordsInUse`.

## Main results

* `coverings_trimMapping_le`, `resultingMappings_trimMapping`, `releasedPages_trimMapping`.
* `trimMapping_of_room`: there is a slot for the second part.
-/

namespace TwistedOS

open ProcessMemoryMapping

namespace UserMemory

instance (mapping : ProcessMemoryMapping) (v : ℕ) : Decidable (Covers mapping v) :=
  inferInstanceAs (Decidable (_ ∧ _ ∧ _))

/-- The number of records that cover an address. -/
def coverings (t : ℕ → ProcessMemoryMapping) (v : ℕ) : ℕ :=
  sumRecords (fun mapping => if Covers mapping v then 1 else 0) t

/-- The number of records in use. -/
def recordsInUse (t : ℕ → ProcessMemoryMapping) : ℕ :=
  sumRecords (fun mapping => if mapping.inUse = true then 1 else 0) t

variable {s s' : UserMemory} {t : ℕ → ProcessMemoryMapping} {unmapStart unmapEnd slot i j v : ℕ}
  {mapping : ProcessMemoryMapping}

theorem eq_of_coverings_le_one (h : coverings t v ≤ 1) (hi : i < maxMemoryMappingsPerProcess)
    (hj : j < maxMemoryMappingsPerProcess) (hvi : Covers (t i) v) (hvj : Covers (t j) v) :
    i = j := by
  rw [coverings, sumRecords, Finset.sum_boole, Nat.cast_id, Finset.card_le_one] at h
  exact h i (by simpa using ⟨hi, hvi⟩) j (by simpa using ⟨hj, hvj⟩)

theorem coverings_eq_zero (h : ∀ i < maxMemoryMappingsPerProcess, ¬ Covers (t i) v) :
    coverings t v = 0 := by
  rw [coverings, sumRecords]
  exact Finset.sum_eq_zero fun i hi => if_neg (h i (Finset.mem_range.mp hi))

/-- A new record covers addresses that no record covers. -/
theorem coverings_update_le (h : coverings t v ≤ 1) (hi : i < maxMemoryMappingsPerProcess)
    (hnew : Covers mapping v → ∀ j < maxMemoryMappingsPerProcess, ¬ Covers (t j) v) :
    coverings (Function.update t i mapping) v ≤ 1 := by
  have hsum := sumRecords_update (fun mapping => if Covers mapping v then 1 else 0) t hi mapping
  rw [← coverings, ← coverings] at hsum
  by_cases hv : Covers mapping v
  · rw [coverings_eq_zero (hnew hv), if_pos hv] at hsum
    omega
  · rw [if_neg hv] at hsum
    omega

/-- A slot is left unless all records are in use. -/
theorem findAvailableMappingSlot_isSome
    (h : recordsInUse s.memoryMappings < maxMemoryMappingsPerProcess) :
    s.findAvailableMappingSlot.isSome := by
  by_contra hnone
  rw [Option.not_isSome_iff_eq_none, findAvailableMappingSlot, List.find?_eq_none] at hnone
  have hall : recordsInUse s.memoryMappings = maxMemoryMappingsPerProcess := by
    rw [recordsInUse, sumRecords, Finset.sum_congr rfl fun i hi => if_pos (by
      simpa using hnone i (mem_slots.mpr (Finset.mem_range.mp hi)))]
    simp
  omega

/-! ### Records and ranges -/

theorem not_overlapsRange (hreg : Regular mapping)
    (hout : ∀ v, Covers mapping v → v < unmapStart ∨ unmapEnd ≤ v) :
    overlapsRange unmapStart unmapEnd mapping = false := by
  by_contra hover
  rw [Bool.not_eq_false, overlapsRange_iff hreg] at hover
  obtain ⟨huse, hlt⟩ := hover
  have := hout (max unmapStart mapping.virtualAddressStart) ⟨huse, by omega, by omega⟩
  omega

/-- A record that does not meet the range is left behind. -/
theorem resultingMappings_of_not_overlaps (hreg : mapping.inUse = true → Regular mapping)
    (hnot : overlapsRange unmapStart unmapEnd mapping = false) :
    resultingMappings unmapStart unmapEnd mapping = if mapping.inUse = true then 1 else 0 := by
  rw [resultingMappings]
  by_cases huse : mapping.inUse = true
  · have hlt : mapping.virtualAddressStart < mappingEnd mapping := by
      rw [mappingEnd_eq (hreg huse)]
      exact Nat.lt_add_of_pos_right (hreg huse).length_pos
    rw [overlapsRange, huse, decide_eq_true hlt, Bool.true_and, Bool.true_and,
      decide_eq_false_iff_not, not_lt] at hnot
    rw [if_neg (by simp [huse]), if_neg (by omega), if_pos hnot, if_pos huse]
  · rw [if_pos huse, if_neg huse]

/-- Of a record that meets the range, the parts in front of it and behind it are left behind. -/
theorem resultingMappings_of_overlaps
    (hover : overlapsRange unmapStart unmapEnd mapping = true) :
    resultingMappings unmapStart unmapEnd mapping =
      (if overlapStart unmapStart mapping > mapping.virtualAddressStart then 1 else 0) +
        if overlapEnd unmapEnd mapping < mappingEnd mapping then 1 else 0 := by
  simp only [overlapsRange, Bool.and_eq_true, decide_eq_true_eq] at hover
  obtain ⟨⟨huse, hlt⟩, hlt'⟩ := hover
  rw [resultingMappings, if_neg (by simp [huse]), if_neg (by omega), if_neg (by omega)]
  by_cases hleft : overlapStart unmapStart mapping > mapping.virtualAddressStart <;>
    by_cases hright : overlapEnd unmapEnd mapping < mappingEnd mapping <;> simp [hleft, hright]

/-- The parts of a record that are left behind. -/
theorem trimmed_pieces (hreg : Regular mapping)
    (hover : overlapsRange unmapStart unmapEnd mapping = true)
    (hstart : unmapStart % pageSize = 0) (hend : unmapEnd % pageSize = 0) :
    (overlapStart unmapStart mapping > mapping.virtualAddressStart →
      PieceOf (leftMapping unmapStart mapping) mapping 0 ∧
        ∀ v, Covers (leftMapping unmapStart mapping) v → v < unmapStart) ∧
    (overlapEnd unmapEnd mapping < mappingEnd mapping →
      PieceOf (rightMapping unmapEnd mapping) mapping (unmapEnd - mapping.virtualAddressStart) ∧
        ∀ v, Covers (rightMapping unmapEnd mapping) v → unmapEnd ≤ v) := by
  obtain ⟨huse, hlt⟩ := (overlapsRange_iff hreg).mp hover
  refine ⟨fun hleft => leftMapping_piece hreg huse hstart hleft ?_, fun hright =>
    rightMapping_piece hreg huse hend (by omega) hright⟩
  rw [overlapStart_eq]
  omega

/-! ### Sums over the records of a trimmed table -/

section Trimmed

variable (hreg : Regular (s.memoryMappings slot)) (hslot : slot < maxMemoryMappingsPerProcess)
  (hover : overlapsRange unmapStart unmapEnd (s.memoryMappings slot) = true)
  (hstart : unmapStart % pageSize = 0) (hend : unmapEnd % pageSize = 0)
  (htrim : s.trimMapping unmapStart unmapEnd slot = (s', true))

include hreg hslot hover hstart hend htrim

theorem coverings_trimMapping_le (v : ℕ) :
    coverings s'.memoryMappings v ≤ coverings s.memoryMappings v := by
  obtain ⟨huse, hlt⟩ := (overlapsRange_iff hreg).mp hover
  obtain ⟨hleft, hright⟩ := trimmed_pieces hreg hover hstart hend
  have hsum := sumRecords_trimMapping (w := fun mapping => if Covers mapping v then 1 else 0)
    (fun mapping hm => if_neg fun hv => by simp [hv.1] at hm) hslot huse htrim
  rw [← coverings, ← coverings] at hsum
  -- the two parts are apart
  have hparts : (if overlapStart unmapStart (s.memoryMappings slot) >
        (s.memoryMappings slot).virtualAddressStart then
          (if Covers (leftMapping unmapStart (s.memoryMappings slot)) v then 1 else 0) else 0) +
      (if overlapEnd unmapEnd (s.memoryMappings slot) < mappingEnd (s.memoryMappings slot) then
          (if Covers (rightMapping unmapEnd (s.memoryMappings slot)) v then 1 else 0) else 0) ≤
      if Covers (s.memoryMappings slot) v then 1 else 0 := by
    split_ifs with hl hvl hr hvr hv hv hv hr hvr hv hv hv hr hvr hv hv hv <;> try omega
    · have := (hleft hl).2 v hvl
      have := (hright hr).2 v hvr
      omega
    · exact absurd ((hleft hl).1.covers hvl) hv
    · exact absurd ((hleft hl).1.covers hvl) hv
    · exact absurd ((hleft hl).1.covers hvl) hv
    · exact absurd ((hright hr).1.covers hvr) hv
    · exact absurd ((hright hr).1.covers hvr) hv
  omega

theorem resultingMappings_trimMapping :
    sumRecords (resultingMappings unmapStart unmapEnd) s'.memoryMappings =
      sumRecords (resultingMappings unmapStart unmapEnd) s.memoryMappings := by
  obtain ⟨huse, -⟩ := (overlapsRange_iff hreg).mp hover
  obtain ⟨hleft, hright⟩ := trimmed_pieces hreg hover hstart hend
  have hsum := sumRecords_trimMapping (w := resultingMappings unmapStart unmapEnd)
    (fun mapping hm => if_pos (by simp [hm])) hslot huse htrim
  have hl : overlapStart unmapStart (s.memoryMappings slot) >
      (s.memoryMappings slot).virtualAddressStart →
      resultingMappings unmapStart unmapEnd (leftMapping unmapStart (s.memoryMappings slot)) = 1 := by
    intro hl
    obtain ⟨hpiece, hout⟩ := hleft hl
    rw [resultingMappings_of_not_overlaps (fun _ => hpiece.regular hreg)
      (not_overlapsRange (hpiece.regular hreg) fun v hv => .inl (hout v hv))]
    exact if_pos huse
  have hr : overlapEnd unmapEnd (s.memoryMappings slot) < mappingEnd (s.memoryMappings slot) →
      resultingMappings unmapStart unmapEnd (rightMapping unmapEnd (s.memoryMappings slot)) = 1 := by
    intro hr
    obtain ⟨hpiece, hout⟩ := hright hr
    rw [resultingMappings_of_not_overlaps (fun _ => hpiece.regular hreg)
      (not_overlapsRange (hpiece.regular hreg) fun v hv => .inr (hout v hv))]
    exact if_pos rfl
  rw [resultingMappings_of_overlaps hover, ite_congr rfl hl fun _ => rfl,
    ite_congr rfl hr fun _ => rfl] at hsum
  omega

theorem releasedPages_trimMapping (m : PhysicalMemoryManager) :
    sumRecords (releasedPages m unmapStart unmapEnd) s'.memoryMappings +
        releasedPages m unmapStart unmapEnd (s.memoryMappings slot) =
      sumRecords (releasedPages m unmapStart unmapEnd) s.memoryMappings := by
  obtain ⟨huse, -⟩ := (overlapsRange_iff hreg).mp hover
  obtain ⟨hleft, hright⟩ := trimmed_pieces hreg hover hstart hend
  have hzero : ∀ {mapping}, overlapsRange unmapStart unmapEnd mapping = false →
      releasedPages m unmapStart unmapEnd mapping = 0 :=
    fun hnot => if_neg fun hand => by simp [hnot] at hand
  have hsum := sumRecords_trimMapping (w := releasedPages m unmapStart unmapEnd)
    (fun mapping hm => hzero (by simp [overlapsRange, hm])) hslot huse htrim
  have hl : (if overlapStart unmapStart (s.memoryMappings slot) >
      (s.memoryMappings slot).virtualAddressStart then
        releasedPages m unmapStart unmapEnd (leftMapping unmapStart (s.memoryMappings slot))
        else 0) = 0 := by
    split_ifs with hl
    · exact hzero (not_overlapsRange ((hleft hl).1.regular hreg) fun v hv =>
        .inl ((hleft hl).2 v hv))
    · rfl
  have hr : (if overlapEnd unmapEnd (s.memoryMappings slot) < mappingEnd (s.memoryMappings slot) then
        releasedPages m unmapStart unmapEnd (rightMapping unmapEnd (s.memoryMappings slot))
        else 0) = 0 := by
    split_ifs with hr
    · exact hzero (not_overlapsRange ((hright hr).1.regular hreg) fun v hv =>
        .inr ((hright hr).2 v hv))
    · rfl
  omega

end Trimmed

/-- When the count has left room, there is a slot for the second part of a record. -/
theorem trimMapping_of_room
    (hreg : ∀ i < maxMemoryMappingsPerProcess, (s.memoryMappings i).inUse = true →
      Regular (s.memoryMappings i))
    (hslot : slot < maxMemoryMappingsPerProcess)
    (hover : overlapsRange unmapStart unmapEnd (s.memoryMappings slot) = true)
    (honce : ∀ v, coverings s.memoryMappings v ≤ 1)
    (hroom : sumRecords (resultingMappings unmapStart unmapEnd) s.memoryMappings ≤
      maxMemoryMappingsPerProcess) :
    ∃ s', s.trimMapping unmapStart unmapEnd slot = (s', true) := by
  have huse : (s.memoryMappings slot).inUse = true := by
    simp only [overlapsRange, Bool.and_eq_true] at hover
    exact hover.1.1
  have hslotreg := hreg slot hslot huse
  obtain ⟨-, hlt⟩ := (overlapsRange_iff hslotreg).mp hover
  have hresult := resultingMappings_of_overlaps hover
  unfold trimMapping
  dsimp only
  by_cases hL : overlapStart unmapStart (s.memoryMappings slot) >
      (s.memoryMappings slot).virtualAddressStart <;>
    by_cases hR : overlapEnd unmapEnd (s.memoryMappings slot) < mappingEnd (s.memoryMappings slot)
  · -- the record contains the whole range, so no other record meets it
    have hother : ∀ i < maxMemoryMappingsPerProcess, i ≠ slot →
        resultingMappings unmapStart unmapEnd (s.memoryMappings i) =
          if (s.memoryMappings i).inUse = true then 1 else 0 := by
      intro i hi hne
      refine resultingMappings_of_not_overlaps (hreg i hi) ?_
      by_contra hoveri
      rw [Bool.not_eq_false] at hoveri
      have husei : (s.memoryMappings i).inUse = true := by
        simp only [overlapsRange, Bool.and_eq_true] at hoveri
        exact hoveri.1.1
      obtain ⟨-, hlti⟩ := (overlapsRange_iff (hreg i hi husei)).mp hoveri
      rw [overlapStart_eq] at hL
      rw [overlapEnd_eq hslotreg, mappingEnd_eq hslotreg] at hR
      exact hne (eq_of_coverings_le_one (honce (max unmapStart
        (s.memoryMappings i).virtualAddressStart)) hi hslot ⟨husei, by omega, by omega⟩
        ⟨huse, by omega, by omega⟩)
    rw [if_pos hL, if_pos hR] at hresult
    have hfew : recordsInUse s.memoryMappings <
        sumRecords (resultingMappings unmapStart unmapEnd) s.memoryMappings := by
      rw [recordsInUse, sumRecords, sumRecords]
      refine Finset.sum_lt_sum (fun i hi => ?_) ⟨slot, Finset.mem_range.mpr hslot, ?_⟩
      · by_cases hne : i = slot
        · rw [hne, hresult, if_pos huse]
          omega
        · rw [hother i (Finset.mem_range.mp hi) hne]
      · rw [hresult, if_pos huse]
        omega
    obtain ⟨f, hf⟩ := Option.isSome_iff_exists.mp
      (findAvailableMappingSlot_isSome (lt_of_lt_of_le hfew hroom))
    rw [decide_eq_true hL, decide_eq_true hR, hf]
    exact ⟨_, rfl⟩
  · rw [decide_eq_true hL, decide_eq_false hR]
    exact ⟨_, rfl⟩
  · rw [decide_eq_false hL, decide_eq_true hR]
    exact ⟨_, rfl⟩
  · rw [decide_eq_false hL, decide_eq_false hR]
    exact ⟨_, rfl⟩

end UserMemory

end TwistedOS
