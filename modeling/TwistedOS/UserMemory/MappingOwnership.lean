import TwistedOS.UserMemory.MappingRecords
import TwistedOS.UserMemory.PageRanges

/-!
# Who owns the pages of mappings

The pages that `mmap` has allocated are allocated one by one, besides the page tables and other
blocks: `MappingsOwned s tables P others` says that the pages of the anonymous records are pages of
`P`, each in one record. Pages of `P` in no record are left over from rounded allocations. Unmapping
keeps this as long as a block freed for a part of a record contains no page of another record or of
the rest of this one.

## Main definitions

* `UserMemory.MappingsOwned`: the invariant.
* `UserMemory.ReleaseSafe`: what is freed for a record in a range.

## Main results

* `UserMemory.MappingsOwned.releaseOverlap`, `UserMemory.MappingsOwned.unmapSlots`.
-/

namespace TwistedOS

open RadixTree ProcessMemoryMapping
open PhysicalMemoryManager

namespace UserMemory

/-- The page is one of an anonymous record. -/
def RecordHasPage (m : PhysicalMemoryManager) (mapping : ProcessMemoryMapping) (k : ℕ) : Prop :=
  mapping.isAnonymous = true ∧ ∃ v, v % pageSize = 0 ∧ Covers mapping v ∧
    mapping.physicalOf v = m.pageAddress k

/-- The pages `P` are allocated, and those of the anonymous records are among them. -/
structure MappingsOwned (s : UserMemory) (tables P : List ℕ) (others : List DyadicBlock) : Prop where
  tables : s.pmm.Tables s.pageMapL4TableAddr tables (unitBlocks P ++ others)
  regular : ∀ i < maxMemoryMappingsPerProcess, (s.memoryMappings i).inUse = true →
    Regular (s.memoryMappings i)
  lower : ∀ i < maxMemoryMappingsPerProcess, ∀ v, v % pageSize = 0 →
    Covers (s.memoryMappings i) v → pml4Index v < 256
  once : CoversOnce s.memoryMappings
  owned : ∀ i < maxMemoryMappingsPerProcess, (s.memoryMappings i).isAnonymous = true →
    ∀ v, v % pageSize = 0 → Covers (s.memoryMappings i) v →
      ∃ k ∈ P, (s.memoryMappings i).physicalOf v = s.pmm.pageAddress k
  injective : ∀ i < maxMemoryMappingsPerProcess, ∀ j < maxMemoryMappingsPerProcess,
    ∀ k, ∀ v w, v % pageSize = 0 → w % pageSize = 0 →
      (s.memoryMappings i).isAnonymous = true → (s.memoryMappings j).isAnonymous = true →
      Covers (s.memoryMappings i) v → Covers (s.memoryMappings j) w →
      (s.memoryMappings i).physicalOf v = s.pmm.pageAddress k →
      (s.memoryMappings j).physicalOf w = s.pmm.pageAddress k → v = w

/-- The page at which the part of a record in a range starts. -/
def releasePage (m : PhysicalMemoryManager) (unmapStart : ℕ) (mapping : ProcessMemoryMapping) : ℕ :=
  (mapping.physicalOf (overlapStart unmapStart mapping) -
    m.memoryDescriptorInfo.physicalAddressStart) / pageSize

/-- The number of pages of the part of a record in a range. -/
def releaseCount (unmapStart unmapEnd : ℕ) (mapping : ProcessMemoryMapping) : ℕ :=
  (overlapEnd unmapEnd mapping - overlapStart unmapStart mapping) / pageSize

/-- If the allocator frees a block for the part of an anonymous record in a range, the block has
pages of this part and pages of `spare` only. -/
def ReleaseSafe (m : PhysicalMemoryManager) (spare : ℕ → Prop) (unmapStart unmapEnd : ℕ)
    (mapping : ProcessMemoryMapping) : Prop :=
  let j := releasePage m unmapStart mapping
  let count := releaseCount unmapStart unmapEnd mapping
  overlapsRange unmapStart unmapEnd mapping = true → mapping.isAnonymous = true →
    m.FreeAccepted j count → ∀ k, (freedBlock j count).Contains k →
      k < j + count ∨ spare k

/-- The pages of the block that is allocated for an anonymous record. -/
def blockPages (mapping : ProcessMemoryMapping) : ℕ :=
  if mapping.inUse = true ∧ mapping.isAnonymous = true then
    2 ^ ceilLog2Pages (mapping.length / pageSize)
  else 0

/-- The allocator frees a block for the part of an anonymous record in a range, and the blocks of
this part and of what is left of the record add up to the block of the record. -/
def ReleaseExact (m : PhysicalMemoryManager) (unmapStart unmapEnd : ℕ)
    (mapping : ProcessMemoryMapping) : Prop :=
  overlapsRange unmapStart unmapEnd mapping = true → mapping.isAnonymous = true →
    m.FreeAccepted (releasePage m unmapStart mapping) (releaseCount unmapStart unmapEnd mapping) ∧
    blockPages mapping =
      2 ^ ceilLog2Pages (releaseCount unmapStart unmapEnd mapping) +
        ((if overlapStart unmapStart mapping > mapping.virtualAddressStart then
            blockPages (leftMapping unmapStart mapping) else 0) +
          if overlapEnd unmapEnd mapping < mappingEnd mapping then
            blockPages (rightMapping unmapEnd mapping) else 0)

/-- The number of pages that are freed for the part of a record in a range. -/
def releasedPages (m : PhysicalMemoryManager) (unmapStart unmapEnd : ℕ)
    (mapping : ProcessMemoryMapping) : ℕ :=
  if overlapsRange unmapStart unmapEnd mapping = true ∧ mapping.isAnonymous = true ∧
      m.FreeAccepted (releasePage m unmapStart mapping) (releaseCount unmapStart unmapEnd mapping) then
    2 ^ ceilLog2Pages (releaseCount unmapStart unmapEnd mapping)
  else 0

/-- The pages of `P` that are left when the part of a record in a range has been freed. -/
def pagesAfterRelease (m : PhysicalMemoryManager) (P : List ℕ) (unmapStart unmapEnd : ℕ)
    (mapping : ProcessMemoryMapping) : List ℕ :=
  if mapping.isAnonymous then
    m.pagesAfterFree P (releasePage m unmapStart mapping) (releaseCount unmapStart unmapEnd mapping)
  else P

theorem mem_pagesAfterRelease {m : PhysicalMemoryManager} {P : List ℕ} {unmapStart unmapEnd k : ℕ}
    {mapping : ProcessMemoryMapping} :
    k ∈ pagesAfterRelease m P unmapStart unmapEnd mapping ↔ k ∈ P ∧
      (mapping.isAnonymous = true →
        m.FreeAccepted (releasePage m unmapStart mapping)
          (releaseCount unmapStart unmapEnd mapping) →
        ¬ (freedBlock (releasePage m unmapStart mapping)
          (releaseCount unmapStart unmapEnd mapping)).Contains k) := by
  unfold pagesAfterRelease
  split_ifs with h
  · simp only [mem_pagesAfterFree, h, true_imp_iff]
  · simp [h]

/-- The record of a slot overlaps a range of whole pages. -/
structure Overlaps (s : UserMemory) (unmapStart unmapEnd slot : ℕ) : Prop where
  slot_lt : slot < maxMemoryMappingsPerProcess
  overlaps : overlapsRange unmapStart unmapEnd (s.memoryMappings slot) = true
  start_mod : unmapStart % pageSize = 0
  end_mod : unmapEnd % pageSize = 0

theorem Overlaps.inUse {s : UserMemory} {unmapStart unmapEnd slot : ℕ}
    (h : s.Overlaps unmapStart unmapEnd slot) : (s.memoryMappings slot).inUse = true := by
  have hoverlaps := h.overlaps
  simp only [overlapsRange, Bool.and_eq_true] at hoverlaps
  exact hoverlaps.1.1

namespace MappingsOwned

variable {s s' : UserMemory} {tables P P' : List ℕ} {others : List DyadicBlock}
  {unmapStart unmapEnd slot : ℕ} {mapping : ProcessMemoryMapping}

section

variable (h : MappingsOwned s tables P others)

include h

section

variable (hover : s.Overlaps unmapStart unmapEnd slot)

include hover

/-- The pages of the part of a record in a range. -/
theorem release_spec :
    0 < releaseCount unmapStart unmapEnd (s.memoryMappings slot) ∧
      overlapStart unmapStart (s.memoryMappings slot) % pageSize = 0 ∧
      overlapStart unmapStart (s.memoryMappings slot) +
          releaseCount unmapStart unmapEnd (s.memoryMappings slot) * pageSize =
        overlapEnd unmapEnd (s.memoryMappings slot) ∧
      ∀ i < releaseCount unmapStart unmapEnd (s.memoryMappings slot),
        Covers (s.memoryMappings slot)
            (overlapStart unmapStart (s.memoryMappings slot) + i * pageSize) ∧
          ((s.memoryMappings slot).isAnonymous = true →
            (s.memoryMappings slot).physicalOf
                (overlapStart unmapStart (s.memoryMappings slot) + i * pageSize) =
              s.pmm.pageAddress (releasePage s.pmm unmapStart (s.memoryMappings slot) + i)) := by
  have hstart := hover.start_mod
  have hend := hover.end_mod
  have hreg := h.regular slot hover.slot_lt hover.inUse
  obtain ⟨-, hlt⟩ := (overlapsRange_iff hreg).mp hover.overlaps
  have hsa := hreg.start_aligned
  have hla := hreg.length_aligned
  have howned := h.owned slot hover.slot_lt
  unfold releasePage
  rw [releaseCount, overlapStart_eq, overlapEnd_eq hreg]
  generalize hos : max unmapStart (s.memoryMappings slot).virtualAddressStart = os at *
  generalize hoe : min unmapEnd ((s.memoryMappings slot).virtualAddressStart +
    (s.memoryMappings slot).length) = oe at *
  have hosa : os % pageSize = 0 := by
    simp only [pageSize] at *
    omega
  have hoea : oe % pageSize = 0 := by
    simp only [pageSize] at *
    omega
  have hcovers : ∀ i < (oe - os) / pageSize,
      Covers (s.memoryMappings slot) (os + i * pageSize) := by
    intro i hi
    refine ⟨hover.inUse, ?_, ?_⟩ <;>
    · simp only [pageSize] at *
      omega
  refine ⟨?_, hosa, ?_, fun i hi => ⟨hcovers i hi, fun hanon => ?_⟩⟩
  · simp only [pageSize] at *
    omega
  · simp only [pageSize] at *
    omega
  · have hpos : 0 < (oe - os) / pageSize := by omega
    have hfirst := hcovers 0 hpos
    rw [Nat.zero_mul, Nat.add_zero] at hfirst
    obtain ⟨k, -, hk⟩ := howned hanon os hosa hfirst
    rw [hk, s.pmm.pageAddress_sub_div]
    have hle := hfirst.2.1
    simp only [physicalOf, pageAddress] at hk ⊢
    rw [Nat.add_mul]
    omega

/-- What is freed for the part of a record in a range was allocated for mappings. -/
theorem mem_of_freed
    (hsafe : ReleaseSafe s.pmm (fun k => k ∈ P) unmapStart unmapEnd (s.memoryMappings slot))
    (hanon : (s.memoryMappings slot).isAnonymous = true)
    (haccepted : s.pmm.FreeAccepted (releasePage s.pmm unmapStart (s.memoryMappings slot))
      (releaseCount unmapStart unmapEnd (s.memoryMappings slot))) {k : ℕ}
    (hk : (freedBlock (releasePage s.pmm unmapStart (s.memoryMappings slot))
      (releaseCount unmapStart unmapEnd (s.memoryMappings slot))).Contains k) : k ∈ P := by
  obtain ⟨-, halign, -, hpages⟩ := h.release_spec hover
  rcases hsafe hover.overlaps hanon haccepted k hk with hlt | hspare
  · obtain ⟨i, rfl⟩ := Nat.exists_eq_add_of_le hk.1
    simp only [freedBlock] at hlt ⊢
    have hi : i < releaseCount unmapStart unmapEnd (s.memoryMappings slot) := by omega
    have haligned : (overlapStart unmapStart (s.memoryMappings slot) + i * pageSize) % pageSize =
        0 := by
      simp only [pageSize] at *
      omega
    obtain ⟨k, hk, hk'⟩ := h.owned slot hover.slot_lt hanon _ haligned (hpages i hi).1
    rw [(hpages i hi).2 hanon] at hk'
    rwa [s.pmm.pageAddress_injective hk']
  · exact hspare

/-- The allocator is called for the pages of an anonymous record only. -/
theorem freeOverlap_eq (fuel : ℕ) :
    freeOverlap fuel unmapStart unmapEnd s (s.memoryMappings slot) =
      if (s.memoryMappings slot).isAnonymous = true then
        s.freePages fuel (s.pmm.pageAddress (releasePage s.pmm unmapStart (s.memoryMappings slot)))
          (releaseCount unmapStart unmapEnd (s.memoryMappings slot))
      else some s := by
  obtain ⟨hpos, -, -, hpages⟩ := h.release_spec hover
  by_cases hanon : (s.memoryMappings slot).isAnonymous = true
  · obtain ⟨hne, hphys⟩ := (h.regular slot hover.slot_lt hover.inUse).physical hanon
    have hphysical := (hpages 0 hpos).2 hanon
    obtain ⟨-, hle, hlt⟩ := (hpages 0 hpos).1
    rw [Nat.zero_mul, Nat.add_zero] at hphysical hle hlt
    have hu : u64 ((s.memoryMappings slot).physicalAddressStart +
        (overlapStart unmapStart (s.memoryMappings slot) -
          (s.memoryMappings slot).virtualAddressStart)) =
        s.pmm.pageAddress (releasePage s.pmm unmapStart (s.memoryMappings slot)) := by
      rw [u64_of_lt (by omega)]
      exact hphysical
    rw [releaseCount] at hpos
    simp only [freeOverlap, hu]
    rw [if_pos ⟨hanon, hne⟩, if_pos hpos.ne', if_pos hanon, releaseCount]
  · rw [if_neg hanon]
    exact if_neg fun h => hanon h.1

/-- Freeing and unmapping the part of a record in a range, before the record is trimmed. -/
theorem releaseOverlap {fuel : ℕ}
    (hsafe : ReleaseSafe s.pmm (fun k => k ∈ P) unmapStart unmapEnd (s.memoryMappings slot))
    (hfuel : s.pmm.memoryDescriptorInfo.totalNumberOfPages < fuel) :
    ∃ s', UserMemory.releaseOverlap fuel unmapStart unmapEnd s (s.memoryMappings slot) = some s' ∧
      s'.memoryMappings = s.memoryMappings ∧ s'.addressSpace = s.addressSpace ∧
      s'.pmm.Tables s.pageMapL4TableAddr tables
        (unitBlocks (pagesAfterRelease s.pmm P unmapStart unmapEnd (s.memoryMappings slot)) ++
          others) ∧
      s.pmm.KeepsProtected s'.pmm
        (unitBlocks (pagesAfterRelease s.pmm P unmapStart unmapEnd (s.memoryMappings slot)) ++
          others) ∧
      s.pmm.ClearsPages s'.pmm s.pageMapL4TableAddr fun p =>
        ∃ i < releaseCount unmapStart unmapEnd (s.memoryMappings slot),
          p = pagePath (overlapStart unmapStart (s.memoryMappings slot) + i * pageSize) := by
  have hlower := h.lower slot hover.slot_lt
  have hfreed := h.mem_of_freed hover hsafe
  have hoverlap := h.freeOverlap_eq hover fuel
  obtain ⟨hpos, halign, hsum, hpages⟩ := h.release_spec hover
  generalize hM : s.memoryMappings slot = M at *
  generalize hos : overlapStart unmapStart M = os at *
  generalize hcount : releaseCount unmapStart unmapEnd M = count at *
  have hround : (overlapEnd unmapEnd M - os + pageSize - 1) / pageSize = count := by
    rw [← hsum]
    simp only [pageSize]
    omega
  -- the pages are freed first, if the record has any
  obtain ⟨m₁, hfree, htables₁, hkeeps₁, hagree₁⟩ :
      ∃ m₁, freeOverlap fuel unmapStart unmapEnd s M = some (s.setPmm m₁) ∧
        m₁.Tables s.pageMapL4TableAddr tables
          (unitBlocks (pagesAfterRelease s.pmm P unmapStart unmapEnd M) ++ others) ∧
        s.pmm.KeepsProtected m₁
          (unitBlocks (pagesAfterRelease s.pmm P unmapStart unmapEnd M) ++ others) ∧
        Agree s.pmm.lowerEntries m₁.lowerEntries s.pageMapL4TableAddr := by
    rw [hoverlap]
    by_cases hanon : M.isAnonymous = true
    · have hmem : releasePage s.pmm unmapStart M ∈ P := by
        obtain ⟨k, hk, hk'⟩ := hM ▸ h.owned slot hover.slot_lt (hM ▸ hanon) os halign
          (by simpa [hM] using (hpages 0 hpos).1)
        have hphysical := (hpages 0 hpos).2 hanon
        rw [Nat.zero_mul, Nat.add_zero, Nat.add_zero] at hphysical
        rwa [s.pmm.pageAddress_injective (hphysical.symm.trans hk')]
      obtain ⟨m₁, ok, hrun, htables₁, hkeeps₁, hagree₁⟩ := h.tables.freePages
        (show count ≠ 0 by omega) (h.tables.nodup.2.2.2 _ hmem)
        (fun haccepted k hk => hfreed hanon haccepted hk) hfuel
      refine ⟨m₁, ?_, ?_, ?_, hagree₁⟩
      · rw [if_pos hanon, freePages, hrun, Option.map_some]
      · rwa [pagesAfterRelease, if_pos hanon, hcount]
      · rwa [pagesAfterRelease, if_pos hanon, hcount]
    · rw [if_neg hanon]
      refine ⟨s.pmm, rfl, ?_⟩
      rw [pagesAfterRelease, if_neg hanon]
      exact ⟨h.tables, .refl _ _, fun _ _ _ _ => rfl⟩
  obtain ⟨htables₂, hkeeps₂, hclears⟩ := htables₁.unmapPages (v := os) count fun i hi =>
    hlower _ (by simp only [pageSize] at *; omega) (hpages i hi).1
  refine ⟨s.setPmm (m₁.unmapPages s.pageMapL4TableAddr count os), ?_, rfl, rfl, htables₂,
    hkeeps₁.trans hkeeps₂, fun p hp => ?_⟩
  · simp only [UserMemory.releaseOverlap, hos, hround, hfree, Option.map_some]
    rfl
  · rw [← hagree₁.lookup_eq]
    exact hclears p hp

end

/-- The invariant after the record of a slot has been trimmed. -/
theorem of_trims (htrims : Trims unmapStart unmapEnd slot s.memoryMappings s'.memoryMappings)
    (hroot : s'.pageMapL4TableAddr = s.pageMapL4TableAddr)
    (haddr : s'.pmm.pageAddress = s.pmm.pageAddress)
    (htables : s'.pmm.Tables s.pageMapL4TableAddr tables (unitBlocks P' ++ others))
    (hP : ∀ i < maxMemoryMappingsPerProcess, (s.memoryMappings i).isAnonymous = true →
      ∀ v, v % pageSize = 0 → Covers (s.memoryMappings i) v →
      (i = slot → v < unmapStart ∨ unmapEnd ≤ v) → ∀ k ∈ P,
      (s.memoryMappings i).physicalOf v = s.pmm.pageAddress k → k ∈ P') :
    MappingsOwned s' tables P' others where
  tables := hroot ▸ htables
  regular j hj huse := by
    obtain ⟨i, hi, d, hpiece, -, -⟩ := htrims.source j hj huse
    exact hpiece.regular (h.regular i hi hpiece.inUse)
  lower j hj v hv hcovers := by
    obtain ⟨i, hi, d, hpiece, -, -⟩ := htrims.source j hj hcovers.1
    exact h.lower i hi v hv (hpiece.covers hcovers)
  once := htrims.once h.once
  owned j hj hanon v hv hcovers := by
    obtain ⟨i, hi, d, hpiece, hother, hout⟩ := htrims.source j hj hcovers.1
    have hanon' := hpiece.isAnonymous.symm.trans hanon
    obtain ⟨k, hk, hphys⟩ := h.owned i hi hanon' v hv (hpiece.covers hcovers)
    refine ⟨k, hP i hi hanon' v hv (hpiece.covers hcovers) (fun hslot => hout hslot v hcovers) k hk
      hphys, ?_⟩
    rw [hpiece.physicalOf_eq hanon' hcovers, hphys, haddr]
  injective i hi j hj k v w hv hw hai haj hvi hwj hpi hpj := by
    obtain ⟨i', hi', d, hpiece, -, -⟩ := htrims.source i hi hvi.1
    obtain ⟨j', hj', e, hpiece', -, -⟩ := htrims.source j hj hwj.1
    have hai' := hpiece.isAnonymous.symm.trans hai
    have haj' := hpiece'.isAnonymous.symm.trans haj
    rw [haddr] at hpi hpj
    rw [hpiece.physicalOf_eq hai' hvi] at hpi
    rw [hpiece'.physicalOf_eq haj' hwj] at hpj
    exact h.injective i' hi' j' hj' k v w hv hw hai' haj' (hpiece.covers hvi)
      (hpiece'.covers hwj) hpi hpj

/-- The records of two slots have no page in common. -/
theorem not_recordHasPage {i j k : ℕ} (hi : i < maxMemoryMappingsPerProcess)
    (hj : j < maxMemoryMappingsPerProcess) (hij : i ≠ j)
    (hki : RecordHasPage s.pmm (s.memoryMappings i) k) :
    ¬ RecordHasPage s.pmm (s.memoryMappings j) k := by
  obtain ⟨hai, v, hv, hvi, hpi⟩ := hki
  rintro ⟨haj, w, hw, hwj, hpj⟩
  obtain rfl := h.injective i hi j hj k v w hv hw hai haj hvi hwj hpi hpj
  exact h.once i hi j hj hij hai haj v hvi hwj

/-- The pages of the part of an anonymous record in a range are pages of the record. -/
theorem recordHasPage_release {i : ℕ} (hover : s.Overlaps unmapStart unmapEnd slot)
    (hanon : (s.memoryMappings slot).isAnonymous = true)
    (hi : i < releaseCount unmapStart unmapEnd (s.memoryMappings slot)) :
    RecordHasPage s.pmm (s.memoryMappings slot)
      (releasePage s.pmm unmapStart (s.memoryMappings slot) + i) := by
  obtain ⟨-, halign, -, hpages⟩ := h.release_spec hover
  refine ⟨hanon, _, ?_, (hpages i hi).1, (hpages i hi).2 hanon⟩
  simp only [pageSize] at *
  omega

theorem mem_of_recordHasPage {k : ℕ} (hslot : slot < maxMemoryMappingsPerProcess)
    (hk : RecordHasPage s.pmm (s.memoryMappings slot) k) : k ∈ P := by
  obtain ⟨hanon, v, hv, hcovers, hphys⟩ := hk
  obtain ⟨k', hk', hphys'⟩ := h.owned slot hslot hanon v hv hcovers
  rwa [s.pmm.pageAddress_injective (hphys.symm.trans hphys')]

end

/-- A page of `P` that no record has. -/
def Spare (s : UserMemory) (P : List ℕ) (k : ℕ) : Prop :=
  k ∈ P ∧ ∀ i < maxMemoryMappingsPerProcess, ¬ RecordHasPage s.pmm (s.memoryMappings i) k

section

variable (h : MappingsOwned s tables P others)

include h

section

variable (hover : s.Overlaps unmapStart unmapEnd slot)

include hover

section

variable (hsafe : ReleaseSafe s.pmm (Spare s P) unmapStart unmapEnd (s.memoryMappings slot))

include hsafe

/-- A freed page was one of the part of the record, or none of any record. -/
theorem of_mem_freed {k : ℕ} (hk : k ∈ P)
    (hgone : k ∉ pagesAfterRelease s.pmm P unmapStart unmapEnd (s.memoryMappings slot)) :
    (∃ v, v % pageSize = 0 ∧ unmapStart ≤ v ∧ v < unmapEnd ∧ Covers (s.memoryMappings slot) v ∧
      (s.memoryMappings slot).isAnonymous = true ∧
      (s.memoryMappings slot).physicalOf v = s.pmm.pageAddress k) ∨ Spare s P k := by
  have hreg := h.regular slot hover.slot_lt hover.inUse
  obtain ⟨-, halign, hsum, hpages⟩ := h.release_spec hover
  unfold pagesAfterRelease at hgone
  split_ifs at hgone with hanon
  · rw [mem_pagesAfterFree, not_and, Classical.not_imp, not_not] at hgone
    obtain ⟨haccepted, hcontains⟩ := hgone hk
    rcases hsafe hover.overlaps hanon haccepted k hcontains with hlt | hspare
    · have hge : releasePage s.pmm unmapStart (s.memoryMappings slot) ≤ k := hcontains.1
      obtain ⟨i, rfl⟩ := Nat.exists_eq_add_of_le hge
      have hi : i < releaseCount unmapStart unmapEnd (s.memoryMappings slot) := by omega
      refine .inl ⟨_, ?_, ?_, ?_, (hpages i hi).1, hanon, (hpages i hi).2 hanon⟩
      · simp only [pageSize] at *
        omega
      · rw [overlapStart_eq]
        omega
      · have hmul := Nat.mul_lt_mul_of_pos_right hi (show 0 < pageSize by decide)
        rw [overlapEnd_eq hreg] at hsum
        omega
    · exact .inr hspare
  · exact absurd hk hgone

/-- Freeing and unmapping the part of a record in a range and trimming the record. -/
theorem unmapSlot {fuel : ℕ} (hfuel : s.pmm.memoryDescriptorInfo.totalNumberOfPages < fuel) :
    ∃ s₁, UserMemory.releaseOverlap fuel unmapStart unmapEnd s (s.memoryMappings slot) = some s₁ ∧
      s₁.memoryMappings = s.memoryMappings ∧
      ∀ s₂, s₁.trimMapping unmapStart unmapEnd slot = (s₂, true) →
        s₂.addressSpace = s.addressSpace ∧
        Trims unmapStart unmapEnd slot s.memoryMappings s₂.memoryMappings ∧
        MappingsOwned s₂ tables
          (pagesAfterRelease s.pmm P unmapStart unmapEnd (s.memoryMappings slot)) others ∧
        s.pmm.KeepsProtected s₂.pmm (unitBlocks
          (pagesAfterRelease s.pmm P unmapStart unmapEnd (s.memoryMappings slot)) ++ others) ∧
        s.pmm.ClearsPages s₂.pmm s.pageMapL4TableAddr fun p => ∃ v, v % pageSize = 0 ∧
          unmapStart ≤ v ∧ v < unmapEnd ∧ Covers (s.memoryMappings slot) v ∧ p = pagePath v := by
  have ⟨hslot, hoverlaps, hstart, hend⟩ := hover
  have hreg := h.regular slot hslot hover.inUse
  obtain ⟨hpos, halign, hsum, hpages⟩ := h.release_spec hover
  obtain ⟨s₁, hrun, hmaps, hspace, htables, hkeeps, hclears⟩ := h.releaseOverlap hover
    (fun ho ha hacc k hk => (hsafe ho ha hacc k hk).imp_right And.left) hfuel
  refine ⟨s₁, hrun, hmaps, fun s₂ htrim => ?_⟩
  obtain ⟨htrims, hpmm, hspace₂⟩ := trimMapping_spec (by rw [hmaps]; exact h.regular) hslot
    (by rw [hmaps]; exact hoverlaps) (by rw [hmaps]; exact hover.inUse) hstart hend htrim
  rw [hmaps] at htrims
  rw [← hpmm] at htables hkeeps hclears
  refine ⟨hspace₂.trans hspace, htrims, h.of_trims htrims ?_ hkeeps.pageAddress htables ?_, hkeeps,
    hclears.congr fun p => ⟨?_, ?_⟩⟩
  · simp only [pageMapL4TableAddr, hspace₂, hspace]
  · intro i hi hanon v hv hcovers hout k hk hphys
    by_contra hgone
    rcases h.of_mem_freed hover hsafe hk hgone with
      ⟨w, hw, hle, hlt, hcw, hanon', hpw⟩ | ⟨-, hnone⟩
    · obtain rfl := h.injective i hi slot hslot k v w hv hw hanon hanon' hcovers hcw hphys hpw
      by_cases his : i = slot
      · have := hout his
        omega
      · exact h.once i hi slot hslot his hanon hanon' v hcovers hcw
    · exact hnone i hi ⟨hanon, v, hv, hcovers, hphys⟩
  · rintro ⟨i, hi, rfl⟩
    have hmul := Nat.mul_lt_mul_of_pos_right hi (show 0 < pageSize by decide)
    rw [overlapEnd_eq hreg] at hsum
    refine ⟨_, ?_, ?_, ?_, (hpages i hi).1, rfl⟩
    · simp only [pageSize] at *
      omega
    · rw [overlapStart_eq]
      omega
    · omega
  · rintro ⟨v, hv, hle, hlt, hcovers, rfl⟩
    obtain ⟨-, hvle, hvlt⟩ := hcovers
    rw [overlapEnd_eq hreg] at hsum
    rw [overlapStart_eq] at hsum halign ⊢
    refine ⟨(v - max unmapStart (s.memoryMappings slot).virtualAddressStart) / pageSize, ?_, ?_⟩
    · simp only [pageSize] at *
      omega
    · congr 1
      simp only [pageSize] at *
      omega

end

/-- The pages that are freed for a record are taken from those that are allocated. -/
theorem length_pagesAfterRelease_add
    (hsafe : ReleaseSafe s.pmm (fun k => k ∈ P) unmapStart unmapEnd (s.memoryMappings slot)) :
    (pagesAfterRelease s.pmm P unmapStart unmapEnd (s.memoryMappings slot)).length +
      releasedPages s.pmm unmapStart unmapEnd (s.memoryMappings slot) = P.length := by
  have hfreed := h.mem_of_freed hover hsafe
  unfold pagesAfterRelease releasedPages
  by_cases hanon : (s.memoryMappings slot).isAnonymous = true
  · rw [if_pos hanon, pagesAfterFree]
    by_cases haccepted : s.pmm.FreeAccepted (releasePage s.pmm unmapStart (s.memoryMappings slot))
        (releaseCount unmapStart unmapEnd (s.memoryMappings slot))
    · rw [if_pos haccepted, if_pos ⟨hover.overlaps, hanon, haccepted⟩]
      generalize hB : freedBlock
        (releasePage s.pmm unmapStart (s.memoryMappings slot))
        (releaseCount unmapStart unmapEnd (s.memoryMappings slot)) = B
      have hperm : (P.filter fun k => B.Contains k).Perm B.elements := by
        refine (List.perm_ext_iff_of_nodup (h.tables.nodup.1.filter _) B.nodup_elements).mpr ?_
        intro k
        simp only [List.mem_filter, decide_eq_true_eq, DyadicBlock.mem_elements]
        exact ⟨And.right, fun hk => ⟨hfreed hanon haccepted (hB ▸ hk), hk⟩⟩
      have hlen := hperm.length_eq
      rw [DyadicBlock.elements, List.length_range', ← hB, freedBlock,
        DyadicBlock.size_mk, ← freedBlock, hB] at hlen
      have hsplit := List.length_eq_length_filter_add (l := P) (fun k => decide (B.Contains k))
      simp only [decide_not]
      omega
    · rw [if_neg haccepted, if_neg fun hand => haccepted hand.2.2, Nat.add_zero]
  · rw [if_neg hanon, if_neg fun hand => hanon hand.2.1, Nat.add_zero]

/-- The number of pages that are left when exactly the block of a part has been freed. -/
theorem length_pagesAfterRelease
    (hsafe : ReleaseSafe s.pmm (Spare s P) unmapStart unmapEnd (s.memoryMappings slot))
    (hexact : ReleaseExact s.pmm unmapStart unmapEnd (s.memoryMappings slot)) :
    (pagesAfterRelease s.pmm P unmapStart unmapEnd (s.memoryMappings slot)).length +
        blockPages (s.memoryMappings slot) = P.length +
      ((if overlapStart unmapStart (s.memoryMappings slot) >
            (s.memoryMappings slot).virtualAddressStart then
          blockPages (leftMapping unmapStart (s.memoryMappings slot)) else 0) +
        if overlapEnd unmapEnd (s.memoryMappings slot) < mappingEnd (s.memoryMappings slot) then
          blockPages (rightMapping unmapEnd (s.memoryMappings slot)) else 0) := by
  by_cases hanon : (s.memoryMappings slot).isAnonymous = true
  · obtain ⟨haccepted, hsum⟩ := hexact hover.overlaps hanon
    have hlen := h.length_pagesAfterRelease_add hover
      fun ho ha hacc k hk => (hsafe ho ha hacc k hk).imp_right And.left
    rw [releasedPages, if_pos ⟨hover.overlaps, hanon, haccepted⟩] at hlen
    omega
  · have hleft : blockPages (leftMapping unmapStart (s.memoryMappings slot)) = 0 :=
      if_neg fun hand => hanon hand.2
    have hright : blockPages (rightMapping unmapEnd (s.memoryMappings slot)) = 0 :=
      if_neg fun hand => hanon hand.2
    have hself : blockPages (s.memoryMappings slot) = 0 := if_neg fun hand => hanon hand.2
    rw [pagesAfterRelease, if_neg hanon, hleft, hright, hself]
    split_ifs <;> rfl

/-- What is freed for the other records stays safe when a record has been unmapped. -/
theorem releaseSafe_of_unmapSlot {i : ℕ} (hi : i < maxMemoryMappingsPerProcess) (his : i ≠ slot)
    (hsafe : ReleaseSafe s.pmm (Spare s P) unmapStart unmapEnd (s.memoryMappings slot))
    (hsafei : ReleaseSafe s.pmm (Spare s P) unmapStart unmapEnd (s.memoryMappings i))
    (htrims : Trims unmapStart unmapEnd slot s.memoryMappings s'.memoryMappings)
    (hkeeps : s.pmm.KeepsProtected s'.pmm (unitBlocks
      (pagesAfterRelease s.pmm P unmapStart unmapEnd (s.memoryMappings slot)) ++ others)) :
    ReleaseSafe s'.pmm (Spare s' (pagesAfterRelease s.pmm P unmapStart unmapEnd
      (s.memoryMappings slot))) unmapStart unmapEnd (s'.memoryMappings i) := by
  intro hover' hanon' haccepted k hk
  have ⟨hslot, hoverlaps, hstart, hend⟩ := hover
  have hsame := (htrims.eq_of_overlaps h.regular hi hover').2
  have hpage : releasePage s'.pmm unmapStart (s'.memoryMappings i) =
      releasePage s.pmm unmapStart (s.memoryMappings i) := by
    simp only [releasePage, hkeeps.start, hsame]
  rw [hpage, hsame] at haccepted hk ⊢
  rw [hsame] at hover' hanon'
  have hoveri : s.Overlaps unmapStart unmapEnd i := ⟨hi, hover', hstart, hend⟩
  have haccepted' : s.pmm.FreeAccepted (releasePage s.pmm unmapStart (s.memoryMappings i))
      (releaseCount unmapStart unmapEnd (s.memoryMappings i)) := by
    simpa only [FreeAccepted, hkeeps.maxOrder, hkeeps.total] using haccepted
  have hpos := (h.release_spec hoveri).1
  have hfirst := h.recordHasPage_release hoveri hanon' hpos
  refine (hsafei hover' hanon' haccepted' k hk).imp_right fun hspare => ⟨?_, ?_⟩
  · by_contra hgone
    obtain ⟨hanon, haccepteds, hks⟩ : (s.memoryMappings slot).isAnonymous = true ∧
        s.pmm.FreeAccepted (releasePage s.pmm unmapStart (s.memoryMappings slot))
          (releaseCount unmapStart unmapEnd (s.memoryMappings slot)) ∧
        (freedBlock (releasePage s.pmm unmapStart (s.memoryMappings slot))
          (releaseCount unmapStart unmapEnd (s.memoryMappings slot))).Contains k := by
      simpa only [mem_pagesAfterRelease, hspare.1, true_and, Classical.not_imp, not_not] using hgone
    have hposs := (h.release_spec hover).1
    have hfirsts := h.recordHasPage_release hover hanon hposs
    rw [Nat.add_zero] at hfirst hfirsts
    -- of the two freed blocks, one would contain the first page of the other
    rcases hk.start_or hks with hin | hin
    · rcases hsafei hover' hanon' haccepted' _ hin with hlt | ⟨-, hnone⟩
      · obtain ⟨e, he⟩ := Nat.exists_eq_add_of_le hin.1
        have hhas := h.recordHasPage_release hoveri hanon'
          (i := e) (by
            simp only [freedBlock] at he hlt
            omega)
        refine h.not_recordHasPage hslot hi his.symm hfirsts ?_
        simp only [freedBlock] at he
        rwa [he]
      · exact hnone slot hslot hfirsts
    · rcases hsafe hoverlaps hanon haccepteds _ hin with hlt | ⟨-, hnone⟩
      · obtain ⟨e, he⟩ := Nat.exists_eq_add_of_le hin.1
        have hhas := h.recordHasPage_release hover hanon
          (i := e) (by
            simp only [freedBlock] at he hlt
            omega)
        refine h.not_recordHasPage hi hslot his hfirst ?_
        simp only [freedBlock] at he
        rwa [he]
      · exact hnone i hi hfirst
  · rintro i₁ hi₁ ⟨hanon₁, v, hv, hcovers, hphys⟩
    obtain ⟨i₂, hi₂, e, hpiece₂, -, -⟩ := htrims.source i₁ hi₁ hcovers.1
    have hanon₂ := hpiece₂.isAnonymous.symm.trans hanon₁
    refine hspare.2 i₂ hi₂ ⟨hanon₂, v, hv, hpiece₂.covers hcovers, ?_⟩
    rw [← hpiece₂.physicalOf_eq hanon₂ hcovers, hphys, hkeeps.pageAddress]

end

/-- What is freed for the other records stays exact when a record has been unmapped. -/
theorem releaseExact_of_unmapSlot {i : ℕ} {rest : List DyadicBlock}
    (hi : i < maxMemoryMappingsPerProcess)
    (hexact : ReleaseExact s.pmm unmapStart unmapEnd (s.memoryMappings i))
    (htrims : Trims unmapStart unmapEnd slot s.memoryMappings s'.memoryMappings)
    (hkeeps : s.pmm.KeepsProtected s'.pmm rest) :
    ReleaseExact s'.pmm unmapStart unmapEnd (s'.memoryMappings i) := by
  intro hover hanon
  have hsame := (htrims.eq_of_overlaps h.regular hi hover).2
  rw [hsame] at hover hanon ⊢
  have hpage : releasePage s'.pmm unmapStart (s.memoryMappings i) =
      releasePage s.pmm unmapStart (s.memoryMappings i) := by
    simp only [releasePage, hkeeps.start]
  rw [hpage]
  simpa only [FreeAccepted, hkeeps.maxOrder, hkeeps.total] using
    hexact hover hanon

/-- The second loop of `munmap`: every record that overlaps the range is trimmed. -/
theorem unmapSlots {fuel : ℕ} {ls : List ℕ} (hls : ∀ i ∈ ls, i < maxMemoryMappingsPerProcess)
    (hnodup : ls.Nodup) (hstart : unmapStart % pageSize = 0) (hend : unmapEnd % pageSize = 0)
    (hsafe : ∀ i ∈ ls, ReleaseSafe s.pmm (Spare s P) unmapStart unmapEnd (s.memoryMappings i))
    (hdone : ∀ j < maxMemoryMappingsPerProcess, j ∉ ls → ∀ v, Covers (s.memoryMappings j) v →
      v < unmapStart ∨ unmapEnd ≤ v) (hfuel : s.pmm.memoryDescriptorInfo.totalNumberOfPages < fuel)
    (hrun : UserMemory.unmapSlots fuel unmapStart unmapEnd ls s = some (s', .ok ())) :
    ∃ P', MappingsOwned s' tables P' others ∧ (∀ k ∈ P', k ∈ P) ∧
      s'.addressSpace = s.addressSpace ∧
      s.pmm.KeepsProtected s'.pmm (unitBlocks P' ++ others) ∧
      (∀ j < maxMemoryMappingsPerProcess, (s'.memoryMappings j).inUse = true →
        (∃ i < maxMemoryMappingsPerProcess, ∃ d,
          PieceOf (s'.memoryMappings j) (s.memoryMappings i) d) ∧
        ∀ v, Covers (s'.memoryMappings j) v → v < unmapStart ∨ unmapEnd ≤ v) ∧
      (s.pmm.ClearsPages s'.pmm s.pageMapL4TableAddr fun p =>
        ∃ i < maxMemoryMappingsPerProcess, ∃ v, v % pageSize = 0 ∧ unmapStart ≤ v ∧ v < unmapEnd ∧
          Covers (s.memoryMappings i) v ∧ p = pagePath v) ∧
      ((∀ i ∈ ls, ReleaseExact s.pmm unmapStart unmapEnd (s.memoryMappings i)) →
        P'.length + sumRecords blockPages s.memoryMappings =
          P.length + sumRecords blockPages s'.memoryMappings) := by
  induction ls generalizing s P with
  | nil =>
    simp only [UserMemory.unmapSlots, Option.some.injEq, Prod.mk.injEq, and_true] at hrun
    subst hrun
    have hnone : ∀ j < maxMemoryMappingsPerProcess, ∀ v, Covers (s.memoryMappings j) v →
        v < unmapStart ∨ unmapEnd ≤ v := fun j hj => hdone j hj (by simp)
    refine ⟨P, h, fun _ hk => hk, rfl, .refl _ _, fun j hj huse =>
      ⟨⟨j, hj, 0, .refl huse (h.regular j hj huse)⟩, hnone j hj⟩, fun p _ => ⟨fun _ => rfl, ?_⟩,
      fun _ => rfl⟩
    rintro ⟨i, hi, v, -, hle, hlt, hcovers, -⟩
    have := hnone i hi v hcovers
    omega
  | cons slot ls ih =>
    obtain ⟨hslot, hls⟩ := List.forall_mem_cons.mp hls
    obtain ⟨hsafeslot, hsafels⟩ := List.forall_mem_cons.mp hsafe
    obtain ⟨hnotin, hnodup⟩ := List.nodup_cons.mp hnodup
    rw [UserMemory.unmapSlots] at hrun
    by_cases hover : overlapsRange unmapStart unmapEnd (s.memoryMappings slot) = true
    · have hoverlaps : s.Overlaps unmapStart unmapEnd slot := ⟨hslot, hover, hstart, hend⟩
      obtain ⟨s₁, hrelease, hmaps, hstep⟩ := h.unmapSlot hoverlaps hsafeslot hfuel
      rw [if_pos hover, hrelease] at hrun
      dsimp only at hrun
      cases htrim : s₁.trimMapping unmapStart unmapEnd slot with
      | mk s₂ ok =>
        rw [htrim] at hrun
        cases ok with
        | false => simp at hrun
        | true =>
          obtain ⟨hspace, htrims, howned, hkeeps, hclears⟩ := hstep s₂ htrim
          have hsafe₂ : ∀ i ∈ ls, ReleaseSafe s₂.pmm (Spare s₂ (pagesAfterRelease s.pmm P unmapStart
              unmapEnd (s.memoryMappings slot))) unmapStart unmapEnd (s₂.memoryMappings i) :=
            fun i hi => h.releaseSafe_of_unmapSlot hoverlaps (hls i hi)
              (by rintro rfl; exact hnotin hi) hsafeslot (hsafels i hi) htrims hkeeps
          have hdone₂ : ∀ j < maxMemoryMappingsPerProcess, j ∉ ls → ∀ v,
              Covers (s₂.memoryMappings j) v → v < unmapStart ∨ unmapEnd ≤ v := by
            intro j hj hjls v hv
            obtain ⟨i, hi, d, hpiece, hother, hout⟩ := htrims.source j hj hv.1
            by_cases his : i = slot
            · exact hout his v hv
            · obtain ⟨rfl, heq⟩ := hother his
              rw [heq] at hv
              exact hdone j hj (by simp [his, hjls]) v hv
          obtain ⟨P', howned', hsub, hspace', hkeeps', hrecords, hclears', hcount⟩ :=
            ih howned hls hnodup hsafe₂ hdone₂ (by rwa [hkeeps.total]) hrun
          refine ⟨P', howned', fun k hk => (mem_pagesAfterRelease.mp (hsub k hk)).1,
            hspace'.trans hspace, (hkeeps.mono ?_).trans hkeeps', fun j hj huse => ?_, ?_,
            fun hexact => ?_⟩
          · intro b hb
            rcases List.mem_append.mp hb with hb | hb
            · obtain ⟨k, hk, rfl⟩ := mem_unitBlocks.mp hb
              exact List.mem_append_left _ (mem_unitBlocks.mpr ⟨k, hsub k hk, rfl⟩)
            · exact List.mem_append_right _ hb
          · obtain ⟨⟨i, hi, d, hpiece⟩, hout⟩ := hrecords j hj huse
            obtain ⟨i', hi', d', hpiece', -, -⟩ := htrims.source i hi hpiece.inUse
            exact ⟨⟨i', hi', d' + d, hpiece.trans hpiece'⟩, hout⟩
          · have hroot : s₂.pageMapL4TableAddr = s.pageMapL4TableAddr := by
              simp only [pageMapL4TableAddr, hspace]
            rw [hroot] at hclears'
            refine (hclears.trans hclears').congr fun p => ⟨?_, ?_⟩
            · rintro (⟨v, hv, hle, hlt, hcovers, rfl⟩ | ⟨i, hi, v, hv, hle, hlt, hcovers, rfl⟩)
              · exact ⟨slot, hslot, v, hv, hle, hlt, hcovers, rfl⟩
              · obtain ⟨i', hi', d, hpiece, -, -⟩ := htrims.source i hi hcovers.1
                exact ⟨i', hi', v, hv, hle, hlt, hpiece.covers hcovers, rfl⟩
            · rintro ⟨i, hi, v, hv, hle, hlt, hcovers, rfl⟩
              by_cases his : i = slot
              · subst his
                exact .inl ⟨v, hv, hle, hlt, hcovers, rfl⟩
              · refine .inr ⟨i, hi, v, hv, hle, hlt, ?_, rfl⟩
                rwa [htrims.other i hcovers.1 his]
          · obtain ⟨hexactslot, hexactls⟩ := List.forall_mem_cons.mp hexact
            have hrest := hcount fun i hi =>
              h.releaseExact_of_unmapSlot (hls i hi) (hexactls i hi) htrims hkeeps
            have hsum := sumRecords_trimMapping (w := blockPages)
              (fun mapping hm => if_neg (by simp [hm])) hslot (by rw [hmaps]; exact hoverlaps.inUse)
              htrim
            have hlen := h.length_pagesAfterRelease hoverlaps hsafeslot hexactslot
            rw [hmaps] at hsum
            omega
    · rw [if_neg hover] at hrun
      have hdonels : ∀ j < maxMemoryMappingsPerProcess, j ∉ ls → ∀ v,
          Covers (s.memoryMappings j) v → v < unmapStart ∨ unmapEnd ≤ v := by
        intro j hj hjls v hv
        by_cases hjs : j = slot
        · subst hjs
          by_contra hin
          exact hover (overlapsRange_of_covers (h.regular j hj hv.1) hv (by omega) (by omega))
        · exact hdone j hj (by simp [hjs, hjls]) v hv
      obtain ⟨P', howned, hsub, hspace, hkeeps, hrecords, hclears, hcount⟩ :=
        ih h hls hnodup hsafels hdonels hfuel hrun
      exact ⟨P', howned, hsub, hspace, hkeeps, hrecords, hclears, fun hexact =>
        hcount (List.forall_mem_cons.mp hexact).2⟩

end

end MappingsOwned

end UserMemory

end TwistedOS
