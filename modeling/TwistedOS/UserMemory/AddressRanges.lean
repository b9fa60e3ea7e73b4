import TwistedOS.Memory.PageMapping
import TwistedOS.UserMemory.ProcessMemory

/-!
# Ranges of virtual addresses

What the checks of the memory system calls mean: aligned addresses, overlapping ranges, mapped
pages, and the search for a free range.

## Main results

* `alignUpToPageBoundary_eq`, `rangesOverlap_eq_false`.
* `PhysicalMemoryManager.Tables.normalize_eq`: the address of a table is used as it is.
* `UserMemory.findFreeMappingAddress_spec`: what the search returns is free.
-/

namespace TwistedOS

open RadixTree

/-! ### Alignment -/

theorem alignDownToPageBoundary_eq (x : ℕ) :
    alignDownToPageBoundary x = x % 2 ^ 52 / pageSize * pageSize := and_physPageAddrMask x

theorem alignUpToPageBoundary_mod (x : ℕ) : alignUpToPageBoundary x % pageSize = 0 := by
  unfold alignUpToPageBoundary
  split_ifs
  · rfl
  · rfl
  · rw [and_physPageAddrMask]
    exact Nat.mul_mod_left _ _

/-- Rounding up, where it does not overflow the address bits. -/
theorem alignUpToPageBoundary_eq {x : ℕ} (hx : x ≤ 2 ^ 52 - pageSize) :
    alignUpToPageBoundary x = (x + (pageSize - 1)) / pageSize * pageSize := by
  unfold alignUpToPageBoundary
  split_ifs with h0 hmax
  · subst h0
    rfl
  · simp only [uint64Max, pageSize] at *
    omega
  · rw [and_physPageAddrMask]
    simp only [pageSize] at *
    omega

theorem alignUpToPageBoundary_self (x : ℕ) :
    alignUpToPageBoundary (alignUpToPageBoundary x) = alignUpToPageBoundary x := by
  have hmod := alignUpToPageBoundary_mod x
  have hle : alignUpToPageBoundary x ≤ 2 ^ 52 - pageSize := by
    unfold alignUpToPageBoundary
    split_ifs
    · exact Nat.zero_le _
    · exact Nat.zero_le _
    · rw [and_physPageAddrMask, pageSize]
      omega
  rw [alignUpToPageBoundary_eq hle]
  simp only [pageSize] at *
  omega

theorem u64_mod_pageSize (x : ℕ) : u64 x % pageSize = x % pageSize := by
  simp only [u64, pageSize]
  omega

/-! ### Overlapping ranges -/

/-- Ranges that do not overlap do not wrap around either. -/
theorem rangesOverlap_eq_false {startA lengthA startB lengthB : ℕ} (hA : lengthA ≠ 0)
    (hA' : lengthA < 2 ^ 64) (hB' : lengthB < 2 ^ 64) (hB : lengthB ≠ 0)
    (h : rangesOverlap startA lengthA startB lengthB = false) (hsA : startA < 2 ^ 64)
    (hsB : startB < 2 ^ 64) :
    startA + lengthA < 2 ^ 64 ∧ startB + lengthB < 2 ^ 64 ∧
      (startA + lengthA ≤ startB ∨ startB + lengthB ≤ startA) := by
  simp only [rangesOverlap, hA, hB, or_self, if_false] at h
  split_ifs at h with hwrap
  rw [decide_eq_false_iff_not] at h
  simp only [u64] at h hwrap
  omega

/-! ### Mapped pages -/

namespace PhysicalMemoryManager

variable {m : PhysicalMemoryManager} {root v : ℕ} {tables : List ℕ} {rest : List DyadicBlock}
  {p : List (Fin 512)} {t : ℕ}

theorem Tables.normalize_eq (h : Tables m root tables rest)
    (hp : reach m.lowerEntries 0 root p = some t) :
    t ≠ 0 ∧ normalizeTablePhysicalAddress t = t := by
  obtain ⟨k, hk, rfl⟩ := h.page_of_reach hp
  obtain ⟨halign, hlt, hne⟩ := h.pageAddress_spec (h.lt_total hk)
  refine ⟨hne, normalizeTablePhysicalAddress_eq hne halign ?_⟩
  simp only [pmmBuddyPhysicalLimit, pageSize] at hlt
  omega

end PhysicalMemoryManager

namespace UserMemory

variable {s : UserMemory} {mappingLength candidate c : ℕ}

/-! ### The search for a free range -/

theorem updateOverlapEnd_fst {acc : Bool × ℕ} {r : ℕ × ℕ}
    (h : (updateOverlapEnd candidate mappingLength acc r).1 = false) :
    acc.1 = false ∧ (r.2 ≠ 0 → rangesOverlap candidate mappingLength r.1 r.2 = false) := by
  unfold updateOverlapEnd at h
  split_ifs at h with h0 hover
  · exact ⟨h, fun hr => absurd h0 hr⟩
  · exact ⟨h, fun _ => by simpa using hover⟩

theorem foldl_updateOverlapEnd_fst {rs : List (ℕ × ℕ)} {acc : Bool × ℕ}
    (h : (rs.foldl (updateOverlapEnd candidate mappingLength) acc).1 = false) :
    acc.1 = false ∧ ∀ r ∈ rs, r.2 ≠ 0 →
      rangesOverlap candidate mappingLength r.1 r.2 = false := by
  induction rs generalizing acc with
  | nil => exact ⟨h, by simp⟩
  | cons r rs ih =>
    obtain ⟨hacc, hrest⟩ := ih h
    obtain ⟨hacc', hr⟩ := updateOverlapEnd_fst hacc
    exact ⟨hacc', List.forall_mem_cons.mpr ⟨hr, hrest⟩⟩

/-- A free candidate overlaps nothing, and none of its pages is mapped. -/
theorem isFreeCandidate_spec (h : s.isFreeCandidate candidate mappingLength = true) :
    (∀ r ∈ s.occupiedRanges, r.2 ≠ 0 →
      rangesOverlap candidate mappingLength r.1 r.2 = false) ∧
    s.rangeHasAnyMappedPage candidate mappingLength = false := by
  rw [isFreeCandidate, Bool.and_eq_true, Bool.not_eq_true', Bool.not_eq_true'] at h
  exact ⟨(foldl_updateOverlapEnd_fst h.1).2, h.2⟩

theorem nextCandidate_mod {next : ℕ} (h : s.nextCandidate candidate mappingLength = some next) :
    next % pageSize = 0 := by
  simp only [nextCandidate] at h
  split_ifs at h
  all_goals
    obtain rfl := Option.some.inj h
    first
    | exact alignUpToPageBoundary_mod _
    | rfl

theorem highestELFEnd_mod (a : VirtualAddressSpace) : highestELFEnd a % pageSize = 0 := by
  unfold highestELFEnd
  refine List.foldlRecOn (motive := fun e => e % pageSize = 0) a.memoryRegions _ rfl ?_
  intro e he r _
  dsimp only
  split_ifs
  · exact alignUpToPageBoundary_mod _
  · exact he

theorem firstCandidate_mod (s : UserMemory) (startHint : ℕ) :
    s.firstCandidate startHint % pageSize = 0 := by
  have helf := highestELFEnd_mod s.addressSpace
  have hheap := alignUpToPageBoundary_mod
    (u64 (s.addressSpace.heapVirtualAddressStart + s.addressSpace.heapSize))
  have hhint : alignDownToPageBoundary startHint % pageSize = 0 := by
    rw [alignDownToPageBoundary_eq]
    exact Nat.mul_mod_left _ _
  simp only [firstCandidate]
  split_ifs <;> simp only [mmapHighBase, mmapDefaultBase, pageSize] at * <;> omega

theorem findFreeLoop_spec {attempts : ℕ} (hmod : candidate % pageSize = 0)
    (h : s.findFreeLoop mappingLength attempts candidate = c) (hc : c ≠ 0) :
    c % pageSize = 0 ∧ s.isFreeCandidate c mappingLength = true := by
  induction attempts generalizing candidate with
  | zero => exact absurd h.symm hc
  | succ attempts ih =>
    unfold findFreeLoop at h
    split_ifs at h with hfree
    · subst h
      exact ⟨hmod, hfree⟩
    · cases hnext : s.nextCandidate candidate mappingLength with
      | none =>
        rw [hnext] at h
        exact absurd h.symm hc
      | some next =>
        rw [hnext] at h
        exact ih (nextCandidate_mod hnext) h

/-- The search returns a free candidate, or it fails. -/
theorem findFreeMappingAddress_spec {startHint : ℕ}
    (h : s.findFreeMappingAddress startHint mappingLength = c) (hc : c ≠ 0) :
    c % pageSize = 0 ∧ s.isFreeCandidate c mappingLength = true :=
  findFreeLoop_spec (s.firstCandidate_mod startHint) h hc

end UserMemory

end TwistedOS
