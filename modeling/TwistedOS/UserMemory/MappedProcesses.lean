import TwistedOS.UserMemory.MappedRanges
import TwistedOS.UserMemory.MappingRuns
import TwistedOS.UserMemory.RecordCounts

/-!
# The address space of a process with mappings

What `mmap` and `munmap` keep of a process in every outcome, also when they fail: the pages of the
mappings are allocated besides the page tables, which form a tree, and no two records overlap. A
call of `munmap` that fails changes nothing; one that succeeds takes translations away and leaves
the tables where they are.

## Main definitions

* `UserMemory.MappedProcess`: the invariant.

## Main results

* `UserMemory.MappedProcess.handleMunmap_accepted`, `UserMemory.MappedProcess.mapNewPages`.
-/

namespace TwistedOS

open RadixTree ProcessMemoryMapping
open PhysicalMemoryManager

namespace PhysicalMemoryManager

/-- Translations are taken away, and the tables stay where they are. -/
structure OnlyUnmaps (m m' : PhysicalMemoryManager) (root : ℕ) : Prop where
  reach_eq : ∀ p, reach m'.translationEntries 0 root p = reach m.translationEntries 0 root p
  translation : ∀ w, m'.translation root w = m.translation root w ∨ m'.translation root w = none

namespace OnlyUnmaps

variable {m m' m'' : PhysicalMemoryManager} {root : ℕ}

theorem refl (m : PhysicalMemoryManager) (root : ℕ) : OnlyUnmaps m m root :=
  ⟨fun _ => rfl, fun _ => .inl rfl⟩

theorem trans (h : OnlyUnmaps m m' root) (h' : OnlyUnmaps m' m'' root) : OnlyUnmaps m m'' root where
  reach_eq p := (h'.reach_eq p).trans (h.reach_eq p)
  translation w := (h'.translation w).elim
    (fun hsame => (h.translation w).imp hsame.trans hsame.trans) .inr

theorem missingTables_eq (h : OnlyUnmaps m m' root) (Q : Finset (List (Fin 512))) :
    m'.missingTables root Q = m.missingTables root Q := by
  ext q
  rw [mem_missingTables, mem_missingTables, h.reach_eq]

end OnlyUnmaps

end PhysicalMemoryManager

namespace UserMemory

/-- The mappings of a process own their pages, no two of them overlap, and the tables of its address
space lie apart from the pages that may be given back. -/
structure MappedProcess (s : UserMemory) (tables P : List ℕ) (others : List DyadicBlock) : Prop where
  owned : MappingsOwned s tables P others
  beside : s.pmm.TablesBeside s.pageMapL4TableAddr P
  coverings_le : ∀ v, coverings s.memoryMappings v ≤ 1
  lt : ∀ i < maxMemoryMappingsPerProcess, ∀ v, Covers (s.memoryMappings i) v → v < 2 ^ 47

variable {s s' : UserMemory} {tables P : List ℕ} {others : List DyadicBlock} {fuel : ℕ}
  {unmapStart unmapEnd slot : ℕ}

/-! ### Accepted calls -/

/-- `munmap` gets to the records: the range is one of whole pages that does not wrap around, and the
table of mappings has room for what is left. -/
def MunmapAccepted (s : UserMemory) (address length : ℕ) : Prop :=
  length ≠ 0 ∧ address % pageSize = 0 ∧ alignUpToPageBoundary length ≠ 0 ∧
    address ≤ munmapEnd address length ∧
    sumRecords (resultingMappings address (munmapEnd address length)) s.memoryMappings ≤
      maxMemoryMappingsPerProcess

theorem sum_map_slots (w : ProcessMemoryMapping → ℕ) (t : ℕ → ProcessMemoryMapping) :
    (slots.map fun i => w (t i)).sum = sumRecords w t := by
  rw [slots, sumRecords]
  exact (Multiset.sum_coe _).symm

/-- A call that is not accepted changes nothing. -/
theorem handleMunmap_refused {address length : ℕ} (fuel : ℕ)
    (h : ¬ MunmapAccepted s address length) :
    ∃ e, s.handleMunmap fuel address length = some (s, .error e) := by
  unfold UserMemory.handleMunmap
  dsimp only
  split_ifs with h0 halign hlength hwrap hcount hroot
  · exact ⟨_, rfl⟩
  · exact ⟨_, rfl⟩
  · exact ⟨_, rfl⟩
  · exact ⟨_, rfl⟩
  · exact ⟨_, rfl⟩
  · exact ⟨_, rfl⟩
  · rw [sum_map_slots (resultingMappings address (u64 (address + alignUpToPageBoundary length))),
      not_lt] at hcount
    exact absurd ⟨h0, not_not.mp halign, hlength, not_lt.mp hwrap, hcount⟩ h

/-- An accepted call goes through the records. -/
theorem handleMunmap_eq {address length : ℕ} (fuel : ℕ) (h : MunmapAccepted s address length)
    (hroot : s.pageMapL4TableAddr ≠ 0) : s.handleMunmap fuel address length =
      UserMemory.unmapSlots fuel address (munmapEnd address length) slots s := by
  obtain ⟨h0, halign, hlength, hwrap, hcount⟩ := h
  rw [← sum_map_slots, ← not_lt] at hcount
  unfold munmapEnd at hwrap hcount
  rw [UserMemory.handleMunmap, if_neg h0, if_neg (not_not.mpr halign)]
  dsimp only
  rw [if_neg hlength, if_neg (not_lt.mpr hwrap), if_neg hcount, if_neg hroot]
  rfl

/-- Where no record meets the range, nothing is changed. -/
theorem handleMunmap_of_not_overlaps {address length : ℕ} {r : Except LinuxError Unit}
    (hnone : ∀ i < maxMemoryMappingsPerProcess,
      overlapsRange address (munmapEnd address length) (s.memoryMappings i) = false)
    (hroot : s.pageMapL4TableAddr ≠ 0)
    (hrun : s.handleMunmap fuel address length = some (s', r)) : s' = s := by
  have hslots : ∀ ls : List ℕ, (∀ i ∈ ls, i < maxMemoryMappingsPerProcess) →
      UserMemory.unmapSlots fuel address (munmapEnd address length) ls s = some (s, .ok ()) := by
    intro ls hls
    induction ls with
    | nil => rfl
    | cons slot ls ih =>
      obtain ⟨hslot, hls⟩ := List.forall_mem_cons.mp hls
      rw [UserMemory.unmapSlots, if_neg (by simp [hnone slot hslot])]
      exact ih hls
  by_cases haccepted : MunmapAccepted s address length
  · rw [handleMunmap_eq fuel haccepted hroot, hslots slots fun i hi => mem_slots.mp hi] at hrun
    exact (Prod.mk.inj (Option.some.inj hrun)).1.symm
  · obtain ⟨e, he⟩ := handleMunmap_refused fuel haccepted
    exact (Prod.mk.inj (Option.some.inj (hrun.symm.trans he))).1

/-- `mmap` finds a range: the one asked for, or one that is free. -/
def FindsRange (s : UserMemory) (address length flags : ℕ) : Prop :=
  if flags &&& linuxMapFixed ≠ 0 then
    s.mappingOverlapsReservedProcessLayout address length = false ∧ MunmapAccepted s address length
  else s.findFreeMappingAddress address length ≠ 0

theorem chooseMappingStart_refused {address length flags : ℕ} (fuel : ℕ)
    (h : ¬ FindsRange s address length flags) :
    ∃ e, s.chooseMappingStart fuel address length flags = some (s, .error e) := by
  unfold FindsRange at h
  unfold chooseMappingStart
  split_ifs at h ⊢ with hfixed haddress hreserved
  · exact ⟨_, rfl⟩
  · exact ⟨_, rfl⟩
  · obtain ⟨e, he⟩ := handleMunmap_refused fuel fun haccepted =>
      h ⟨by simpa using hreserved, haccepted⟩
    rw [he]
    exact ⟨e, rfl⟩
  · rw [not_not] at h
    exact ⟨.enomem, by simp [h]⟩

theorem chooseMappingStart_fixed {address length flags : ℕ} (hfixed : flags &&& linuxMapFixed ≠ 0)
    (h : FindsRange s address length flags)
    (hmunmap : s.handleMunmap fuel address length = some (s', .ok ())) :
    s.chooseMappingStart fuel address length flags = some (s', .ok address) := by
  rw [FindsRange, if_pos hfixed] at h
  obtain ⟨hreserved, -, haddress, -⟩ := h
  rw [chooseMappingStart, if_pos hfixed, if_neg (not_not.mpr haddress), if_neg (by simp [hreserved]),
    hmunmap]

theorem chooseMappingStart_free {address length flags : ℕ} (hfixed : ¬ flags &&& linuxMapFixed ≠ 0)
    (h : FindsRange s address length flags) :
    s.chooseMappingStart fuel address length flags =
      some (s, .ok (s.findFreeMappingAddress address length)) := by
  rw [FindsRange, if_neg hfixed] at h
  rw [chooseMappingStart, if_neg hfixed]
  dsimp only
  rw [if_neg h]

namespace MappedProcess

/-! ### munmap -/

section

variable (h : MappedProcess s tables P others) (hover : s.Overlaps unmapStart unmapEnd slot)
  (hsafe : ReleaseSafe s.pmm (MappingsOwned.Spare s P) unmapStart unmapEnd (s.memoryMappings slot))

include h hover hsafe

/-- Freeing and unmapping the part of a record in a range leaves the tables apart from the pages of
the mappings. -/
theorem tablesBeside_releaseOverlap (hfuel : s.pmm.memoryDescriptorInfo.totalNumberOfPages < fuel)
    (hrun : releaseOverlap fuel unmapStart unmapEnd s (s.memoryMappings slot) = some s') :
    s'.pmm.TablesBeside s.pageMapL4TableAddr
        (pagesAfterRelease s.pmm P unmapStart unmapEnd (s.memoryMappings slot)) ∧
      s.pmm.OnlyUnmaps s'.pmm s.pageMapL4TableAddr := by
  have hmem := h.owned.mem_of_freed hover
    fun ho ha hacc k hk => (hsafe ho ha hacc k hk).imp_right And.left
  have hfirst := h.owned.recordHasPage_release hover (i := 0)
  obtain ⟨hpos, -⟩ := h.owned.release_spec hover
  simp only [releaseOverlap, h.owned.freeOverlap_eq hover] at hrun
  obtain ⟨s₁, hfree, rfl⟩ := Option.map_eq_some_iff.mp hrun
  obtain ⟨hbeside, hspace, hkept⟩ : s₁.pmm.TablesBeside s.pageMapL4TableAddr
      (pagesAfterRelease s.pmm P unmapStart unmapEnd (s.memoryMappings slot)) ∧
      s₁.pageMapL4TableAddr = s.pageMapL4TableAddr ∧
      s.pmm.TablesKept s₁.pmm s.pageMapL4TableAddr := by
    unfold pagesAfterRelease
    split_ifs at hfree ⊢ with hanon
    · obtain ⟨⟨m₁, ok⟩, hcall, rfl⟩ := Option.map_eq_some_iff.mp hfree
      have hvalid : Valid s.pmm
          (unitBlocks P ++ (unitBlocks tables ++ others)) :=
        h.owned.tables.valid.perm (List.perm_append_comm_assoc _ _ _)
      have hj := h.owned.tables.nodup.2.2.2 _
        (h.owned.mem_of_recordHasPage hover.slot_lt (hfirst hanon hpos))
      rw [Nat.add_zero] at hj
      obtain ⟨hbeside, hkept⟩ := h.beside.freePages hvalid hpos.ne' hj
        (fun haccepted k hk => hmem hanon haccepted hk) hfuel hcall
      exact ⟨hbeside, rfl, hkept⟩
    · obtain rfl := Option.some.inj hfree
      exact ⟨h.beside, rfl, fun _ => rfl, fun _ => rfl⟩
  rw [hspace]
  obtain ⟨hbeside', hadds, htranslation⟩ := hbeside.unmapPages
    ((overlapEnd unmapEnd (s.memoryMappings slot) - overlapStart unmapStart (s.memoryMappings slot) +
      pageSize - 1) / pageSize) (overlapStart unmapStart (s.memoryMappings slot))
  refine ⟨hbeside', fun p => ?_, fun w => ?_⟩
  · rw [← hkept.reach_eq]
    exact hadds.others p (by simp)
  · rw [← hkept.translation_eq]
    exact htranslation w

/-- One pass of the second loop of `munmap`. -/
theorem unmapSlot
    (hroom : sumRecords (resultingMappings unmapStart unmapEnd) s.memoryMappings ≤
      maxMemoryMappingsPerProcess) (hfuel : s.pmm.memoryDescriptorInfo.totalNumberOfPages < fuel) :
    ∃ s₁ s₂, releaseOverlap fuel unmapStart unmapEnd s (s.memoryMappings slot) = some s₁ ∧
      s₁.trimMapping unmapStart unmapEnd slot = (s₂, true) ∧
      s₂.addressSpace = s.addressSpace ∧
      Trims unmapStart unmapEnd slot s.memoryMappings s₂.memoryMappings ∧
      MappedProcess s₂ tables
        (pagesAfterRelease s.pmm P unmapStart unmapEnd (s.memoryMappings slot)) others ∧
      s.pmm.KeepsProtected s₂.pmm (unitBlocks
        (pagesAfterRelease s.pmm P unmapStart unmapEnd (s.memoryMappings slot)) ++ others) ∧
      s.pmm.OnlyUnmaps s₂.pmm s.pageMapL4TableAddr ∧
      sumRecords (resultingMappings unmapStart unmapEnd) s₂.memoryMappings =
        sumRecords (resultingMappings unmapStart unmapEnd) s.memoryMappings ∧
      sumRecords (releasedPages s.pmm unmapStart unmapEnd) s₂.memoryMappings +
          releasedPages s.pmm unmapStart unmapEnd (s.memoryMappings slot) =
        sumRecords (releasedPages s.pmm unmapStart unmapEnd) s.memoryMappings := by
  have huse := hover.inUse
  obtain ⟨s₁, hrelease, hmaps, hstep⟩ := h.owned.unmapSlot hover hsafe hfuel
  obtain ⟨hbeside, honly⟩ := h.tablesBeside_releaseOverlap hover hsafe hfuel hrelease
  obtain ⟨hslot, hover, hstart, hend⟩ := hover
  have hreg := h.owned.regular slot hslot huse
  rw [← hmaps] at hreg hover
  obtain ⟨s₂, htrim⟩ := trimMapping_of_room (s := s₁) (by rw [hmaps]; exact h.owned.regular) hslot
    hover (by rw [hmaps]; exact h.coverings_le) (by rw [hmaps]; exact hroom)
  obtain ⟨hspace, htrims, howned, hkeeps, -⟩ := hstep s₂ htrim
  have hpmm := (trimMapping_spec (by rw [hmaps]; exact h.owned.regular) hslot hover
    (hmaps ▸ huse) hstart hend htrim).2.1
  have hresulting := resultingMappings_trimMapping hreg hslot hover hstart hend htrim
  have hreleased := releasedPages_trimMapping hreg hslot hover hstart hend htrim s.pmm
  have hcoverings := coverings_trimMapping_le hreg hslot hover hstart hend htrim
  rw [hmaps] at hresulting hreleased hcoverings
  refine ⟨s₁, s₂, hrelease, htrim, hspace, htrims, ⟨howned, ?_, fun v =>
    (hcoverings v).trans (h.coverings_le v), fun j hj v hv => ?_⟩, hkeeps, ?_, hresulting,
    hreleased⟩
  · rw [hpmm, pageMapL4TableAddr, hspace]
    exact hbeside
  · obtain ⟨i, hi, d, hpiece, -, -⟩ := htrims.source j hj hv.1
    exact h.lt i hi v (hpiece.covers hv)
  · rw [hpmm]
    exact honly

end

/-- The second loop of `munmap`: it finds a slot for every part of a record, and takes as many pages
from those of the mappings as it frees. -/
theorem unmapSlots {ls : List ℕ} (h : MappedProcess s tables P others)
    (hls : ∀ i ∈ ls, i < maxMemoryMappingsPerProcess) (hnodup : ls.Nodup)
    (hstart : unmapStart % pageSize = 0) (hend : unmapEnd % pageSize = 0)
    (hsafe : ∀ i ∈ ls, ReleaseSafe s.pmm (MappingsOwned.Spare s P)
      unmapStart unmapEnd (s.memoryMappings i))
    (hroom : sumRecords (resultingMappings unmapStart unmapEnd) s.memoryMappings ≤
      maxMemoryMappingsPerProcess)
    (hfuel : s.pmm.memoryDescriptorInfo.totalNumberOfPages < fuel) :
    ∃ s' P', UserMemory.unmapSlots fuel unmapStart unmapEnd ls s = some (s', .ok ()) ∧
      MappedProcess s' tables P' others ∧ s'.addressSpace = s.addressSpace ∧
      s.pmm.KeepsProtected s'.pmm others ∧ s.pmm.OnlyUnmaps s'.pmm s.pageMapL4TableAddr ∧
      sumRecords (resultingMappings unmapStart unmapEnd) s'.memoryMappings =
        sumRecords (resultingMappings unmapStart unmapEnd) s.memoryMappings ∧
      P'.length + sumRecords (releasedPages s.pmm unmapStart unmapEnd) s.memoryMappings =
        P.length + sumRecords (releasedPages s.pmm unmapStart unmapEnd) s'.memoryMappings := by
  induction ls generalizing s P with
  | nil => exact ⟨s, P, rfl, h, rfl, .refl _ _, .refl _ _, rfl, rfl⟩
  | cons slot ls ih =>
    obtain ⟨hslot, hls⟩ := List.forall_mem_cons.mp hls
    obtain ⟨hsafeslot, hsafels⟩ := List.forall_mem_cons.mp hsafe
    obtain ⟨hnotin, hnodup⟩ := List.nodup_cons.mp hnodup
    rw [UserMemory.unmapSlots]
    by_cases hover : overlapsRange unmapStart unmapEnd (s.memoryMappings slot) = true
    · have hoverlaps : s.Overlaps unmapStart unmapEnd slot := ⟨hslot, hover, hstart, hend⟩
      obtain ⟨s₁, s₂, hrelease, htrim, hspace, htrims, h₂, hkeeps, honly, hresulting, hreleased⟩ :=
        h.unmapSlot hoverlaps hsafeslot hroom hfuel
      have hlength := h.owned.length_pagesAfterRelease_add hoverlaps
        fun ho ha hacc k hk => (hsafeslot ho ha hacc k hk).imp_right And.left
      have hsafe₂ : ∀ i ∈ ls, ReleaseSafe s₂.pmm (MappingsOwned.Spare s₂
          (pagesAfterRelease s.pmm P unmapStart
          unmapEnd (s.memoryMappings slot))) unmapStart unmapEnd (s₂.memoryMappings i) :=
        fun i hi => h.owned.releaseSafe_of_unmapSlot hoverlaps (hls i hi)
          (by rintro rfl; exact hnotin hi) hsafeslot (hsafels i hi) htrims hkeeps
      obtain ⟨s', P', hrun, h', hspace', hkeeps', honly', hresulting', hreleased'⟩ :=
        ih h₂ hls hnodup hsafe₂ (hresulting.trans_le hroom) (by rwa [hkeeps.total])
      have hroot : s₂.pageMapL4TableAddr = s.pageMapL4TableAddr := by
        simp only [pageMapL4TableAddr, hspace]
      have hsame : releasedPages s₂.pmm unmapStart unmapEnd =
          releasedPages s.pmm unmapStart unmapEnd := by
        funext mapping
        refine if_congr ?_ rfl rfl
        simp only [releasePage, FreeAccepted, hkeeps.start, hkeeps.maxOrder,
          hkeeps.total]
      rw [hroot] at honly'
      rw [hsame] at hreleased'
      refine ⟨s', P', ?_, h', hspace'.trans hspace,
        (hkeeps.mono fun b hb => List.mem_append_right _ hb).trans hkeeps', honly.trans honly',
        hresulting'.trans hresulting, ?_⟩
      · rw [if_pos hover, hrelease]
        dsimp only
        rw [htrim]
        exact hrun
      · omega
    · rw [if_neg hover]
      exact ih h hls hnodup hsafels hroom hfuel

/-- The range has no records any more, and the pages that were freed for them are free. -/
structure Unmapped (s s' : UserMemory) (tables : List ℕ) (others : List DyadicBlock)
    (unmapStart unmapEnd : ℕ) : Prop where
  process : ∃ P', MappedProcess s' tables P' others
  addressSpace : s'.addressSpace = s.addressSpace
  total : s'.pmm.memoryDescriptorInfo.totalNumberOfPages =
    s.pmm.memoryDescriptorInfo.totalNumberOfPages
  only : s.pmm.OnlyUnmaps s'.pmm s.pageMapL4TableAddr
  pieces : ∀ j < maxMemoryMappingsPerProcess, ∀ v, Covers (s'.memoryMappings j) v →
    (∃ i < maxMemoryMappingsPerProcess, Covers (s.memoryMappings i) v) ∧
      (v < unmapStart ∨ unmapEnd ≤ v)
  inUse : recordsInUse s'.memoryMappings =
    sumRecords (resultingMappings unmapStart unmapEnd) s.memoryMappings
  free : s'.pmm.memoryDescriptorInfo.numberOfFreePages =
    s.pmm.memoryDescriptorInfo.numberOfFreePages +
      sumRecords (releasedPages s.pmm unmapStart unmapEnd) s.memoryMappings

theorem handleMunmap_accepted {address length : ℕ} (h : MappedProcess s tables P others)
    (haccepted : MunmapAccepted s address length)
    (hsafe : ∀ i < maxMemoryMappingsPerProcess, ReleaseSafe s.pmm (Unclaimed s others) address
      (munmapEnd address length) (s.memoryMappings i))
    (hfuel : s.pmm.memoryDescriptorInfo.totalNumberOfPages < fuel) :
    ∃ s', s.handleMunmap fuel address length = some (s', .ok ()) ∧
      Unmapped s s' tables others address (munmapEnd address length) := by
  have hcall := handleMunmap_eq fuel haccepted h.owned.tables.root_ne_zero
  obtain ⟨-, halign, -, -, hcount⟩ := haccepted
  have hsafe' : ∀ i ∈ slots, ReleaseSafe s.pmm (MappingsOwned.Spare s P) address
      (munmapEnd address length) (s.memoryMappings i) :=
    fun i hi hover hanon haccepted k hk =>
      (hsafe i (mem_slots.mp hi) hover hanon haccepted k hk).imp_right (h.owned.unclaimed_iff k).mp
  have hend : munmapEnd address length % pageSize = 0 := by
    have := alignUpToPageBoundary_mod length
    rw [munmapEnd, u64_mod_pageSize]
    simp only [pageSize] at *
    omega
  obtain ⟨s', P', hrun, h', hspace, hkeeps, honly, hresulting, hreleased⟩ :=
    h.unmapSlots (fun i hi => mem_slots.mp hi) List.nodup_range halign hend hsafe' hcount hfuel
  obtain ⟨-, -, -, -, -, hrecords, -⟩ := h.owned.unmapSlots (fun i hi => mem_slots.mp hi)
    List.nodup_range halign hend hsafe' (fun j hj hnot => absurd (mem_slots.mpr hj) hnot) hfuel hrun
  -- no record that is left meets the range
  have hnone : ∀ j < maxMemoryMappingsPerProcess,
      overlapsRange address (munmapEnd address length) (s'.memoryMappings j) = false := by
    intro j hj
    by_cases huse : (s'.memoryMappings j).inUse = true
    · exact not_overlapsRange (h'.owned.regular j hj huse) (hrecords j hj huse).2
    · simp [overlapsRange, huse]
  refine ⟨s', hcall.trans hrun, ⟨P', h'⟩, hspace, hkeeps.total, honly, fun j hj v hv => ?_, ?_, ?_⟩
  · obtain ⟨⟨i, hi, d, hpiece⟩, hout⟩ := hrecords j hj hv.1
    exact ⟨⟨i, hi, hpiece.covers hv⟩, hout v hv⟩
  · rw [← hresulting, recordsInUse, sumRecords, sumRecords]
    exact Finset.sum_congr rfl fun j hj => (resultingMappings_of_not_overlaps
      (h'.owned.regular j (Finset.mem_range.mp hj)) (hnone j (Finset.mem_range.mp hj))).symm
  · have hzero : sumRecords (releasedPages s.pmm address (munmapEnd address length))
        s'.memoryMappings = 0 := by
      rw [sumRecords]
      exact Finset.sum_eq_zero fun j hj => if_neg (by simp [hnone j (Finset.mem_range.mp hj)])
    have hsum := h.owned.tables.valid.numberOfFreePages_add
    have hsum' := h'.owned.tables.valid.numberOfFreePages_add
    simp only [List.map_append, List.sum_append, sum_size_unitBlocks] at hsum hsum'
    have htotal := hkeeps.total
    omega

/-! ### mmap -/

/-- The pages of an allocated block are not free. -/
theorem not_pageFree_of_block {m : PhysicalMemoryManager} {root : ℕ} {b : DyadicBlock}
    (htables : m.Tables root tables (b :: (unitBlocks P ++ others))) :
    ∀ k ∈ b.elements ++ P, ¬ m.PageFree k := by
  intro k hk hfree
  have hnone := ((htables.valid.pageFree_iff k).mp hfree).2
  rcases List.mem_append.mp hk with hk | hk
  · exact hnone b (by simp) (DyadicBlock.mem_elements.mp hk)
  · exact hnone ⟨k, 0⟩ (by simp [mem_unitBlocks, hk]) (DyadicBlock.contains_start ⟨k, 0⟩)

/-- The block of a call that fails is freed again, and the tables stay apart from the pages. -/
private theorem tablesBeside_freeBlock {m : PhysicalMemoryManager} {root k count : ℕ} {α : Type}
    {a r : α}
    (hbeside : m.TablesBeside root
      (DyadicBlock.elements ⟨k, ceilLog2Pages count⟩ ++ P))
    (htables : m.Tables root tables
      (⟨k, ceilLog2Pages count⟩ :: (unitBlocks P ++ others)))
    (hcount : count ≠ 0) (hfuel : m.memoryDescriptorInfo.totalNumberOfPages < fuel)
    (hrun : ((s.setPmm m).freePages fuel (m.pageAddress k) count).map (fun s => (s, a)) =
      some (s', r)) :
    s'.pmm.TablesBeside root P ∧ r = a := by
  obtain ⟨haccepted, hafter⟩ := htables.pagesAfterFree_eq
  have helements := htables.elements
  rw [← List.append_assoc, ← unitBlocks_append] at helements
  have hend := haccepted.2.1
  have hpos := (freedBlock k count).size_pos
  obtain ⟨s₁, hfree, hs₁⟩ := Option.map_eq_some_iff.mp hrun
  obtain ⟨rfl, rfl⟩ := Prod.mk.inj hs₁
  obtain ⟨⟨m', ok⟩, hcall, rfl⟩ := Option.map_eq_some_iff.mp hfree
  have hfreed := (hbeside.freePages (helements.valid.perm (List.perm_append_comm_assoc _ _ _))
    hcount (by omega) (fun _ j hj => List.mem_append_left _ (DyadicBlock.mem_elements.mpr hj))
    hfuel hcall).1
  rw [hafter] at hfreed
  exact ⟨hfreed, rfl⟩

/-- The tables stay apart from the pages of the mappings when new pages are mapped. -/
theorem tablesBeside_mapNewPages {start length protection : ℕ}
    {contents : Except LinuxError (ℕ → ℕ)} {r : Except LinuxError ℕ}
    (h : MappedProcess s tables P others)
    (hlength : length % pageSize = 0) (hpos : 0 < length) (hend : start + length ≤ 2 ^ 47)
    (hfuel : s.pmm.memoryDescriptorInfo.totalNumberOfPages < fuel)
    (hrun : s.mapNewPages fuel start length protection contents = some (s', r)) :
    (∀ e, r = .error e → s'.pmm.TablesBeside s.pageMapL4TableAddr P) ∧
      ∀ a, r = .ok a → ∃ i k, (s.memoryMappings i).inUse = false ∧
        s'.memoryMappings i = ⟨true, start, length, s.pmm.pageAddress k, true⟩ ∧
        s'.pmm.TablesBeside s.pageMapL4TableAddr (DyadicBlock.elements
          ⟨k, ceilLog2Pages (length / pageSize)⟩ ++ P) := by
  obtain ⟨count, hcount⟩ : ∃ count, count = length / pageSize := ⟨_, rfl⟩
  have hcount0 : count ≠ 0 := by
    simp only [pageSize] at *
    omega
  have hroot := h.owned.tables.root_ne_zero
  unfold UserMemory.mapNewPages at hrun
  dsimp only at hrun
  rw [← hcount] at hrun ⊢
  rcases h.owned.tables.valid.allocate count with hfail | ⟨m₁, k, halloc, hvalid₁, hkeeps₁⟩
  · rw [hfail] at hrun
    obtain ⟨rfl, rfl⟩ : s.setPmm s.pmm = s' ∧ Except.error LinuxError.enomem = r := by
      simpa using hrun
    exact ⟨fun e _ => h.beside, by simp⟩
  obtain ⟨htables₁, -⟩ := h.owned.tables.of_agree (hvalid₁.perm List.perm_middle.symm)
    hkeeps₁.start hkeeps₁.total fun b hb a ha => hkeeps₁.memory_eq (List.mem_append_left _ hb) ha
  obtain ⟨hbeside₁, -⟩ := h.beside.allocate h.owned.tables.valid hvalid₁ hkeeps₁
  have hpadd : m₁.pageAddress = s.pmm.pageAddress := hkeeps₁.pageAddress
  have hne : s.pmm.pageAddress k ≠ 0 := by
    obtain ⟨free, hlists, -⟩ := h.owned.tables.valid.free
    exact hlists.pageAddress_ne_zero k
  obtain ⟨address, haddress⟩ := Nat.exists_eq_succ_of_ne_zero hne
  rw [halloc, haddress] at hrun
  simp only at hrun
  rw [← haddress, ← hpadd] at hrun
  cases contents with
  | error e =>
    obtain ⟨hbeside, rfl⟩ :=
      tablesBeside_freeBlock hbeside₁ htables₁ hcount0 (hkeeps₁.total ▸ hfuel) hrun
    exact ⟨fun _ _ => hbeside, by simp⟩
  | ok words =>
  dsimp only at hrun
  have hcount_le : count ≤ DyadicBlock.size ⟨k, ceilLog2Pages count⟩ := by
    rw [DyadicBlock.size_mk]
    exact le_two_pow_ceilLog2Pages (by simp only [pageSize] at *; omega)
  obtain ⟨htables₂, hkeeps₂, -⟩ := htables₁.fillPages hcount_le words
  obtain ⟨hbeside₂, -⟩ := hbeside₁.fillPages (b := ⟨k, ceilLog2Pages count⟩)
    hvalid₁ (fun j hj => List.mem_append_left _ hj) hcount_le words
  dsimp only at htables₂ hkeeps₂ hbeside₂
  obtain ⟨m₂, hm₂⟩ : ∃ m₂, m₂ = m₁.fillPages (m₁.pageAddress k) count words := ⟨_, rfl⟩
  rw [← hm₂] at htables₂ hkeeps₂ hbeside₂ hrun
  have hphysical : ∀ i, 0 ≤ i → i < 0 + count →
      u64 (m₁.pageAddress k + i * pageSize) % pageSize = 0 ∧
        u64 (m₁.pageAddress k + i * pageSize) < 2 ^ 32 := by
    intro i _ hi
    have hend_le := hvalid₁.end_le List.mem_cons_self
    rw [Nat.zero_add] at hi
    dsimp only at hend_le
    obtain ⟨hself, hpage⟩ := htables₁.nextPage_spec (k := k) (i := i) (by omega)
    rwa [hself]
  rw [if_neg (by exact hroot), setPmm_pmm] at hrun
  obtain ⟨m₃, r₃, tables₃, hmap, htables₃, hkeeps₃, -⟩ := htables₂.mapPages
    (m₁.pageAddress k) start ⟨true, decide (protection &&& linuxProtWrite ≠ 0)⟩ count 0
    fun i _ hi => by
      refine pml4Index_lt_of_lt ?_
      rw [u64]
      simp only [pageSize] at *
      omega
  obtain ⟨live₂, hmapped₂⟩ := hbeside₂.mapped
  obtain ⟨m₃', r₃', hmap', hmaps⟩ := hmapped₂.mapPages hbeside₂.ordersFit (m₁.pageAddress k) start
    ⟨true, decide (protection &&& linuxProtWrite ≠ 0)⟩ count 0 hphysical
  obtain ⟨rfl, rfl⟩ := Prod.mk.inj (hmap.symm.trans hmap')
  obtain ⟨S, -, hadds⟩ := hmaps.adds
  have hbeside₃ := hbeside₂.addsTables (not_pageFree_of_block htables₂) hmaps.mapped hadds
  have hfuel₃ : m₃.memoryDescriptorInfo.totalNumberOfPages < fuel := by
    rw [hkeeps₃.total, hkeeps₂.total, hkeeps₁.total]
    exact hfuel
  have hpadd₃ : m₁.pageAddress = m₃.pageAddress := by
    rw [hkeeps₃.pageAddress, hkeeps₂.pageAddress]
  rw [show (s.setPmm m₂).pageMapL4TableAddr = s.pageMapL4TableAddr from rfl, hmap] at hrun
  rw [← hpadd]
  cases r₃ with
  | some index =>
    rw [hpadd₃] at hrun
    obtain ⟨hbeside, rfl⟩ := tablesBeside_freeBlock hbeside₃ htables₃ hcount0 hfuel₃ hrun
    exact ⟨fun _ _ => hbeside, by simp⟩
  | none =>
    dsimp only at hrun
    rcases hregister : ((s.setPmm m₂).setPmm m₃).registerProcessMapping start length
      (m₁.pageAddress k) true with ⟨s₄, ok⟩
    rw [hregister] at hrun
    cases ok with
    | false =>
      rw [show s₄ = s.setPmm m₃ from registerProcessMapping_false hregister, hpadd₃] at hrun
      obtain ⟨hbeside, rfl⟩ := tablesBeside_freeBlock hbeside₃ htables₃ hcount0 hfuel₃ hrun
      exact ⟨fun _ _ => hbeside, by simp⟩
    | true =>
      obtain ⟨rfl, rfl⟩ : s₄ = s' ∧ Except.ok start = r := by simpa using hrun
      obtain ⟨i, hi, hempty, rfl⟩ := registerProcessMapping_spec hregister
      exact ⟨by simp, fun a _ => ⟨i, k, hempty, by simp, hbeside₃⟩⟩

/-- New pages are mapped at a range in which no record lies. -/
theorem mapNewPages {start length protection : ℕ} {contents : Except LinuxError (ℕ → ℕ)}
    {r : Except LinuxError ℕ} (h : MappedProcess s tables P others)
    (hstart : start % pageSize = 0) (hlength : length % pageSize = 0) (hpos : 0 < length)
    (hend : start + length ≤ 2 ^ 47)
    (hfree : ∀ j < maxMemoryMappingsPerProcess, ∀ v, start ≤ v → v < start + length →
      ¬ Covers (s.memoryMappings j) v)
    (hfuel : s.pmm.memoryDescriptorInfo.totalNumberOfPages < fuel)
    (hrun : s.mapNewPages fuel start length protection contents = some (s', r)) :
    ∃ tables' P', MappedProcess s' tables' P' others ∧ s'.addressSpace = s.addressSpace ∧
      s'.pmm.memoryDescriptorInfo.totalNumberOfPages =
        s.pmm.memoryDescriptorInfo.totalNumberOfPages := by
  obtain ⟨tables', P', howned, hchanges, herror, hok⟩ := h.owned.mapNewPages hstart hlength hpos
    (by omega) (by omega) (fun v hv => pml4Index_lt_of_lt (by have := hv.2.2; omega))
    (fun j hj _ => hfree j hj) hfuel hrun
  obtain ⟨hbeside, hbeside'⟩ := h.tablesBeside_mapNewPages hlength hpos hend hfuel hrun
  have hroot : s'.pageMapL4TableAddr = s.pageMapL4TableAddr := by
    simp only [pageMapL4TableAddr, hchanges.addressSpace]
  refine ⟨tables', P', ?_, hchanges.addressSpace, hchanges.keeps.total⟩
  cases r with
  | error e =>
    obtain ⟨hsame, rfl⟩ := herror e rfl
    exact ⟨howned, hroot ▸ hbeside e rfl, hsame ▸ h.coverings_le, hsame ▸ h.lt⟩
  | ok a =>
    obtain ⟨-, i, hi, k, hempty, hmaps, rfl, -⟩ := hok a rfl
    obtain ⟨i', k', hempty', hrecord, hbeside⟩ := hbeside' a rfl
    obtain ⟨rfl, rfl⟩ : i' = i ∧ k' = k := by
      have hi' : i' = i := by
        by_contra hne
        rw [hmaps, Function.update_of_ne hne] at hrecord
        simp [hrecord] at hempty'
      subst hi'
      rw [hmaps, Function.update_self, ProcessMemoryMapping.mk.injEq] at hrecord
      exact ⟨rfl, (s.pmm.pageAddress_injective hrecord.2.2.2.1).symm⟩
    refine ⟨howned, hroot ▸ hbeside, fun v => ?_, fun j hj v hv => ?_⟩
    · rw [hmaps]
      exact coverings_update_le (h.coverings_le v) hi fun hv j hj => hfree j hj v hv.2.1 hv.2.2
    · rw [hmaps] at hv
      by_cases hji : j = i'
      · rw [hji, Function.update_self] at hv
        have := hv.2.2
        dsimp only at this
        omega
      · rw [Function.update_of_ne hji] at hv
        exact h.lt j hj v hv

theorem of_empty (htables : s.pmm.Tables s.pageMapL4TableAddr tables others)
    (hmapped : ∃ live, MappedTables s.pmm s.pageMapL4TableAddr live)
    (hfit : s.pmm.OrdersFit)
    (hempty : ∀ i < maxMemoryMappingsPerProcess, (s.memoryMappings i).inUse = false) :
    MappedProcess s tables [] others where
  owned := (RunInvariant.of_empty htables hempty).owned
  beside := ⟨hmapped, hfit, by simp⟩
  coverings_le v := by
    rw [coverings_eq_zero fun i hi hv => by simpa [hempty i hi] using hv.1]
    exact Nat.zero_le 1
  lt i hi v hv := absurd hv.1 (by simp [hempty i hi])

end MappedProcess

end UserMemory

end TwistedOS
