import TwistedOS.Elf.ElfRelease
import TwistedOS.UserMemory.MappingRuns

/-!
# Whether tearing down returns what was owned

The calls for the regions of an address space free one block for each maximal run of the addresses
that the regions meet. They return exactly the blocks of the image, of the interpreter and of the
cleared pages if the blocks of these runs, rounded up to powers of two, are pairwise disjoint and
make them up. The heap, the stack and the page tables are always returned exactly.

## Main definitions

* `TouchedBy`: the addresses that regions meet.
* `RunsMakeUp`: the blocks of the maximal runs make up given pages.
* `OwnsElf`: the blocks of an address space.
* `CleansUp`: all blocks of the address space are returned, and nothing else.

## Main results

* `OwnsElf.releasesExactly_iff`.
* `OwnsElf.not_releasesExactly`: an image with a page that no segment meets.
-/

namespace TwistedOS

open TouchingRanges PhysicalMemoryManager

/-! ### The runs of the regions -/

/-- The address lies in a page that a region meets. -/
def TouchedBy (regions : List ElfMemoryRegion) (a : ℕ) : Prop :=
  ∃ region ∈ regions, ∃ range, regionRange region = some range ∧ InRange range a

/-- The regions fit into the table of regions and end before the last pages of the address space. -/
structure RegularRegions (regions : List ElfMemoryRegion) : Prop where
  length_le : regions.length ≤ maxMemoryRegions
  end_lt : ∀ region ∈ regions, region.physicalAddress + region.size + 2 * pageSize < 2 ^ 64

/-- The blocks that are freed for the maximal runs of addresses with a property are pairwise
disjoint and make up the pages `P`. -/
structure RunsMakeUp (m : PhysicalMemoryManager) (p : ℕ → Prop) (P : List ℕ) : Prop where
  owned : ∀ s e b, IsRun p s e → m.AcceptedBlock (freeCall (s, e)) b → ∀ k, b.Contains k → k ∈ P
  disjoint : ∀ s e s' e' b b', IsRun p s e → IsRun p s' e' → (s, e) ≠ (s', e') →
    m.AcceptedBlock (freeCall (s, e)) b → m.AcceptedBlock (freeCall (s', e')) b' →
    ∀ k, b.Contains k → ¬ b'.Contains k
  complete : ∀ k ∈ P, ∃ s e b, IsRun p s e ∧ m.AcceptedBlock (freeCall (s, e)) b ∧ b.Contains k

variable {regions : List ElfMemoryRegion} {l : List (ℕ × ℕ)} {m : PhysicalMemoryManager}
  {P : List ℕ}

/-- The range of a region consists of whole pages. -/
theorem regionRange_spec {region : ElfMemoryRegion} {range : ℕ × ℕ}
    (hend : region.physicalAddress + region.size + 2 * pageSize < 2 ^ 64)
    (h : regionRange region = some range) :
    range.1 < range.2 ∧ range.1 % pageSize = 0 ∧ range.2 % pageSize = 0 := by
  unfold regionRange at h
  by_cases hnone : region.physicalAddress = 0 ∨ region.size = 0
  · simp [hnone] at h
  rw [if_neg hnone] at h
  by_cases hcount : u64 (region.virtualAddress % pageSize + region.size + pageSize - 1) / pageSize = 0
  · simp [hcount] at h
  obtain rfl := Option.some.inj ((if_neg hcount).symm.trans h)
  simp only [alignDownToPage, u64, pageSize] at *
  omega

/-- A region without pages adds no range. -/
theorem collectRanges_append_of_none {region : ElfMemoryRegion} (h : regionRange region = none) :
    collectRanges (regions ++ [region]) = collectRanges regions := by
  rw [collectRanges, List.foldl_append, List.foldl_cons, List.foldl_nil, h]
  rfl

/-- A region with pages adds its range while the table of ranges has room. -/
theorem collectRanges_append_of_some {region : ElfMemoryRegion} {range : ℕ × ℕ}
    (h : regionRange region = some range)
    (hroom : (collectRanges regions).length < maxMemoryRegions) :
    collectRanges (regions ++ [region]) = insertRange (collectRanges regions) range := by
  rw [collectRanges, List.foldl_append, List.foldl_cons, List.foldl_nil, h]
  exact if_pos ((length_mergeTouching_le _ _ _).trans_lt hroom)

theorem collectRanges_spec (h : RegularRegions regions) :
    Apart (collectRanges regions) ∧ (∀ a, Covered (collectRanges regions) a ↔ TouchedBy regions a) ∧
      ∀ r ∈ collectRanges regions, r.1 % pageSize = 0 ∧ r.2 % pageSize = 0 := by
  suffices hfold : (collectRanges regions).length ≤ regions.length ∧
      Apart (collectRanges regions) ∧
      (∀ a, Covered (collectRanges regions) a ↔ TouchedBy regions a) ∧
      ∀ r ∈ collectRanges regions, r.1 % pageSize = 0 ∧ r.2 % pageSize = 0 from hfold.2
  obtain ⟨hlength, hend⟩ := h
  induction regions using List.reverseRecOn with
  | nil =>
    exact ⟨le_rfl, ⟨by simp [collectRanges], by simp [collectRanges]⟩,
      fun a => by simp [collectRanges, Covered, TouchedBy], by simp [collectRanges]⟩
  | append_singleton regions region ih =>
    rw [List.length_append, List.length_singleton] at hlength
    obtain ⟨hle, hapart, hcovered, hmod⟩ := ih (by omega) fun r hr => hend r (by simp [hr])
    have htouched : ∀ a, TouchedBy (regions ++ [region]) a ↔ TouchedBy regions a ∨
        ∃ range, regionRange region = some range ∧ InRange range a := by
      intro a
      simp only [TouchedBy, List.mem_append, List.mem_singleton, or_and_right, exists_or,
        exists_eq_left]
    rw [List.length_append, List.length_singleton]
    cases hrange : regionRange region with
    | none =>
      rw [collectRanges_append_of_none hrange]
      refine ⟨hle.trans (Nat.le_succ _), hapart, fun a => ?_, hmod⟩
      rw [hcovered, htouched, hrange]
      simp
    | some range =>
      obtain ⟨hlt, hstart, hstop⟩ := regionRange_spec (hend region (by simp)) hrange
      rw [collectRanges_append_of_some hrange (hle.trans_lt (by omega))]
      refine ⟨(length_insertRange_le _ _).trans (Nat.succ_le_succ hle),
        apart_insertRange hapart hlt, fun a => ?_,
        forall_insertRange (P := fun a => a % pageSize = 0) ⟨hstart, hstop⟩ hmod⟩
      rw [covered_insertRange hapart hlt, htouched, hcovered, hrange]
      simp [or_comm]

/-- The calls for a collection of ranges, and the runs of the addresses that it covers. -/
theorem exactBlocks_map_iff (hl : Apart l) :
    m.ExactBlocks (l.map freeCall) P ↔ RunsMakeUp m (Covered l) P := by
  have hmem {s e : ℕ} : IsRun (Covered l) s e ↔ (s, e) ∈ l := (mem_iff_isRun hl).symm
  have hsymm : Std.Symm fun r q : ℕ × ℕ => ∀ b b', m.AcceptedBlock (freeCall r) b →
      m.AcceptedBlock (freeCall q) b' → ∀ k, b.Contains k → ¬ b'.Contains k :=
    ⟨fun _ _ h b b' hb hb' k hk hk' => h b' b hb' hb k hk' hk⟩
  constructor
  · rintro ⟨howned, hdisjoint, hcomplete⟩
    have hapart := (hl.pairwise_iff (R := _)).mp (List.pairwise_map.mp hdisjoint)
    refine ⟨fun s e b hrun => howned _ (List.mem_map_of_mem (hmem.mp hrun)) b,
      fun s e s' e' b b' hrun hrun' hne => hapart _ (hmem.mp hrun) _ (hmem.mp hrun') hne b b',
      fun k hk => ?_⟩
    obtain ⟨call, hcall, b, hb, hcontains⟩ := hcomplete k hk
    obtain ⟨⟨s, e⟩, hr, rfl⟩ := List.mem_map.mp hcall
    exact ⟨s, e, b, hmem.mpr hr, hb, hcontains⟩
  · rintro ⟨howned, hdisjoint, hcomplete⟩
    refine ⟨?_, List.pairwise_map.mpr ((hl.pairwise_iff (R := _)).mpr ?_), fun k hk => ?_⟩
    · intro call hcall b hb
      obtain ⟨⟨s, e⟩, hr, rfl⟩ := List.mem_map.mp hcall
      exact howned s e b (hmem.mpr hr) hb
    · rintro ⟨s, e⟩ hr ⟨s', e'⟩ hq hne b b'
      exact hdisjoint s e s' e' b b' (hmem.mpr hr) (hmem.mpr hq) hne
    · obtain ⟨s, e, b, hrun, hb⟩ := hcomplete k hk
      exact ⟨_, List.mem_map_of_mem (hmem.mp hrun), b, hb⟩

/-- The conditions for two descriptions of the same addresses. -/
theorem runsMakeUp_congr {p q : ℕ → Prop} (h : ∀ a, p a ↔ q a) :
    RunsMakeUp m p P ↔ RunsMakeUp m q P := by
  rw [show p = q from funext fun a => propext (h a)]

/-- The calls for a collection of ranges of whole pages may be made. -/
theorem regular_freeCall (hstart : m.memoryDescriptorInfo.physicalAddressStart % pageSize = 0)
    {r : ℕ × ℕ} (hr : r.1 < r.2) (hmod : r.1 % pageSize = 0 ∧ r.2 % pageSize = 0) :
    m.Regular (freeCall r) := by
  refine ⟨hstart.trans hmod.1.symm, ?_⟩
  simp only [freeCall, pageSize] at *
  omega

theorem regionCalls_eq (h : RegularRegions regions) :
    regionCalls regions = (collectRanges regions).map freeCall := by
  rw [regionCalls, List.filter_eq_self.mpr]
  exact fun r hr => by simpa using (collectRanges_spec h).1.nonempty r hr

/-- The calls for all regions, and the runs of the addresses that they meet. -/
theorem exactBlocks_regionCalls_iff (h : RegularRegions regions) :
    m.ExactBlocks (regionCalls regions) P ↔ RunsMakeUp m (TouchedBy regions) P := by
  obtain ⟨hapart, hcovered, -⟩ := collectRanges_spec h
  rw [regionCalls_eq h, exactBlocks_map_iff hapart, runsMakeUp_congr hcovered]

/-! ### The parts outside the main image -/

/-- The parts of a range outside the main image are apart and cover what is left of it. -/
theorem partsOutside_spec (mainStart mainEnd : ℕ) {r : ℕ × ℕ} (hr : r.1 < r.2) :
    Apart (partsOutside mainStart mainEnd r) ∧
      (∀ q ∈ partsOutside mainStart mainEnd r, r.1 ≤ q.1 ∧ q.2 ≤ r.2 ∧
        (q.1 = r.1 ∨ q.1 = mainEnd) ∧ (q.2 = r.2 ∨ q.2 = mainStart)) ∧
      ∀ a, Covered (partsOutside mainStart mainEnd r) a ↔
        InRange r a ∧ ¬ InRange (mainStart, mainEnd) a := by
  have hone : Apart [r] := ⟨by simpa using hr, List.pairwise_singleton _ _⟩
  rw [partsOutside, if_neg (by omega)]
  by_cases hwhole : mainEnd ≤ mainStart ∨ r.2 ≤ mainStart ∨ mainEnd ≤ r.1
  · rw [if_pos hwhole]
    refine ⟨hone, by simp, fun a => ?_⟩
    simp only [Covered, List.mem_singleton, exists_eq_left, InRange]
    omega
  · rw [if_neg hwhole]
    by_cases hfront : r.1 < mainStart <;> by_cases hback : mainEnd < r.2 <;>
      simp only [hfront, hback, if_true, if_false, List.nil_append, List.append_nil,
        List.singleton_append]
    · refine ⟨⟨by simp; omega, by simp [Touch]; omega⟩, by simp; omega, fun a => ?_⟩
      simp only [Covered, List.mem_cons, List.not_mem_nil, or_false, exists_eq_or_imp,
        exists_eq_left, InRange]
      omega
    · refine ⟨⟨by simpa using hfront, List.pairwise_singleton _ _⟩, by simp; omega, fun a => ?_⟩
      simp only [Covered, List.mem_singleton, exists_eq_left, InRange]
      omega
    · refine ⟨⟨by simpa using hback, List.pairwise_singleton _ _⟩, by simp; omega, fun a => ?_⟩
      simp only [Covered, List.mem_singleton, exists_eq_left, InRange]
      omega
    · refine ⟨⟨by simp, List.Pairwise.nil⟩, by simp, fun a => ?_⟩
      simp only [Covered, List.not_mem_nil, false_and, exists_false, InRange, false_iff]
      omega

theorem mainEnd_mod (mainImageAddress mainImageSize : ℕ) :
    mainEnd mainImageAddress mainImageSize % pageSize = 0 := by
  unfold mainEnd
  dsimp only
  split_ifs
  · rw [alignDownToPage, ← Nat.add_mul, Nat.mul_mod_left]
  · exact Nat.mul_mod_left _ _

/-- The address lies in a page of the main image. -/
def InMainImage (mainImageAddress mainImageSize a : ℕ) : Prop :=
  InRange (alignDownToPage mainImageAddress, mainEnd mainImageAddress mainImageSize) a

/-- The parts of the collected ranges. -/
theorem parts_spec (h : RegularRegions regions) (mainImageAddress mainImageSize : ℕ) :
    let parts := (collectRanges regions).flatMap (partsOutside (alignDownToPage mainImageAddress)
      (mainEnd mainImageAddress mainImageSize))
    Apart parts ∧
      (∀ a, Covered parts a ↔
        TouchedBy regions a ∧ ¬ InMainImage mainImageAddress mainImageSize a) ∧
      ∀ r ∈ parts, r.1 % pageSize = 0 ∧ r.2 % pageSize = 0 := by
  obtain ⟨hapart, hcovered, hmod⟩ := collectRanges_spec h
  have hparts (r : ℕ × ℕ) (hr : r ∈ collectRanges regions) :=
    partsOutside_spec (alignDownToPage mainImageAddress)
      (mainEnd mainImageAddress mainImageSize) (hapart.nonempty r hr)
  have hstart : alignDownToPage mainImageAddress % pageSize = 0 := Nat.mul_mod_left _ _
  have hend := mainEnd_mod mainImageAddress mainImageSize
  refine ⟨apart_flatMap hapart (fun r hr => (hparts r hr).1)
    fun r hr q hq => ⟨((hparts r hr).2.1 q hq).1, ((hparts r hr).2.1 q hq).2.1⟩, fun a => ?_, ?_⟩
  · rw [← hcovered]
    constructor
    · rintro ⟨q, hq, hin⟩
      obtain ⟨r, hr, hq⟩ := List.mem_flatMap.mp hq
      obtain ⟨hin, hout⟩ := ((hparts r hr).2.2 a).mp ⟨q, hq, hin⟩
      exact ⟨⟨r, hr, hin⟩, hout⟩
    · rintro ⟨⟨r, hr, hin⟩, hout⟩
      obtain ⟨q, hq, hin⟩ := ((hparts r hr).2.2 a).mpr ⟨hin, hout⟩
      exact ⟨q, List.mem_flatMap.mpr ⟨r, hr, hq⟩, hin⟩
  · intro q hq
    obtain ⟨r, hr, hq⟩ := List.mem_flatMap.mp hq
    obtain ⟨-, -, hfirst, hlast⟩ := (hparts r hr).2.1 q hq
    exact ⟨hfirst.elim (fun heq => heq ▸ (hmod r hr).1) fun heq => heq ▸ hend,
      hlast.elim (fun heq => heq ▸ (hmod r hr).2) fun heq => heq ▸ hstart⟩

/-! ### The calls -/

section Calls

variable {rest : List DyadicBlock} {fuel : ℕ} (hvalid : Valid m (unitBlocks P ++ rest))
  (hstart : m.memoryDescriptorInfo.physicalAddressStart % pageSize = 0)
  (hregions : RegularRegions regions)
  (hfuel : m.memoryDescriptorInfo.totalNumberOfPages < fuel)

include hvalid hstart hregions hfuel

/-- The calls for all regions return given pages exactly if the runs make them up. -/
theorem exists_returnsPages_regionCalls_iff :
    (∃ m', ReturnsPages fuel (regionCalls regions) m P m') ↔
      RunsMakeUp m (TouchedBy regions) P := by
  obtain ⟨hapart, hcovered, hmod⟩ := collectRanges_spec hregions
  rw [← exactBlocks_regionCalls_iff hregions, hvalid.exists_returnsPages_iff ?_ hfuel]
  rw [regionCalls_eq hregions]
  refine List.forall_mem_map.mpr fun r hr => ?_
  exact regular_freeCall hstart (hapart.nonempty r hr) (hmod r hr)

/-- The calls for the regions outside the main image return given pages exactly if the runs outside
of it make them up. -/
theorem exists_returnsPages_otherRegionCalls_iff (mainImageAddress mainImageSize : ℕ) :
    (∃ m', ReturnsPages fuel (otherRegionCalls regions mainImageAddress mainImageSize) m P m') ↔
      RunsMakeUp m (fun a => TouchedBy regions a ∧ ¬ InMainImage mainImageAddress mainImageSize a)
        P := by
  obtain ⟨hapart, hcovered, hmod⟩ := parts_spec hregions mainImageAddress mainImageSize
  rw [otherRegionCalls, hvalid.exists_returnsPages_iff ?_ hfuel, exactBlocks_map_iff hapart,
    runsMakeUp_congr hcovered]
  refine List.forall_mem_map.mpr fun r hr => ?_
  exact regular_freeCall hstart (hapart.nonempty r hr) (hmod r hr)

end Calls

/-! ### Address spaces -/

/-- The block of `size` bytes at an address, as it was allocated. -/
structure HoldsBlock (m : PhysicalMemoryManager) (address size : ℕ) (b : DyadicBlock) : Prop where
  address_eq : address = m.pageAddress b.start
  pages_ne : u64 (size + pageSize - 1) / pageSize ≠ 0
  size_ne : size ≠ 0
  order_eq : b.order = ceilLog2Pages (u64 (size + pageSize - 1) / pageSize)

/-- The blocks of an address space are allocated: `P` are the pages of its image, of its interpreter
and of its cleared pages, and `tables` those of its page tables. -/
structure OwnsElf (m : PhysicalMemoryManager) (as : VirtualAddressSpaceElf) (P : List ℕ)
    (heap stack : DyadicBlock) (tables : List ℕ) (rest : List DyadicBlock) : Prop where
  tables : m.Tables as.pageMapL4TableAddr tables (unitBlocks P ++ heap :: stack :: rest)
  regions : RegularRegions as.memoryRegions
  heap : HoldsBlock m as.heapPhysicalAddress as.heapSize heap
  stack : HoldsBlock m as.stackPhysicalAddress as.stackSize stack

/-- Every call returns pages of the part of the address space that it is made for, and in the end
the pages of the address space have become free, and no others. -/
def CleansUp (fuel : ℕ) (m : PhysicalMemoryManager) (as : VirtualAddressSpaceElf) (P : List ℕ)
    (heap stack : DyadicBlock) (tables : List ℕ) : Prop :=
  ∃ m₁ m₂ m', ReturnsPages fuel (regionCalls as.memoryRegions) m P m₁ ∧
    ReturnsPages fuel (heapStackCalls as) m₁ (heap.elements ++ stack.elements) m₂ ∧
    m₂.freePageTableHierarchy fuel as.pageMapL4TableAddr = some m' ∧
    cleanUpElf fuel m as = some m' ∧
    ∀ k, m'.PageFree k ↔ m.PageFree k ∨ k ∈ P ∨ heap.Contains k ∨ stack.Contains k ∨ k ∈ tables

theorem freeAll_append (fuel : ℕ) (calls calls' : List (ℕ × ℕ)) (m : PhysicalMemoryManager) :
    freeAll fuel (calls ++ calls') m = (freeAll fuel calls m).bind (freeAll fuel calls') := by
  induction calls generalizing m with
  | nil => rfl
  | cons call calls ih =>
    rw [List.cons_append, freeAll, freeAll, Option.bind_assoc]
    exact congrArg _ (funext fun r => ih r.1)

/-- The block can be one that the allocator frees. -/
structure BlockFits (m : PhysicalMemoryManager) (b : DyadicBlock) : Prop where
  order_le : b.order ≤ m.buddyMaxOrder
  end_le : b.start + b.size ≤ m.memoryDescriptorInfo.totalNumberOfPages
  aligned : b.Aligned
  address_ne : m.pageAddress b.start ≠ 0

theorem blockFits {live : List DyadicBlock} {b : DyadicBlock} (h : Valid m live) (hb : b ∈ live) :
    BlockFits m b := by
  obtain ⟨free, hlists, -⟩ := h.free
  exact ⟨h.order_le b hb, h.end_le hb, h.aligned b hb, hlists.pageAddress_ne_zero _⟩

section Keeps

variable {m' : PhysicalMemoryManager} {live : List DyadicBlock} {b : DyadicBlock}
  {address size : ℕ} (hkeeps : Keeps m m' live)

include hkeeps

theorem BlockFits.of_keeps (h : BlockFits m b) : BlockFits m' b :=
  ⟨hkeeps.maxOrder ▸ h.order_le, hkeeps.total ▸ h.end_le, h.aligned,
    hkeeps.pageAddress ▸ h.address_ne⟩

theorem HoldsBlock.of_keeps (h : HoldsBlock m address size b) : HoldsBlock m' address size b :=
  { h with address_eq := hkeeps.pageAddress ▸ h.address_eq }

end Keeps

/-- The call for a block returns its pages. -/
theorem HoldsBlock.returnsPages {address size fuel : ℕ} {b : DyadicBlock} {Q : List ℕ}
    (rest : List DyadicBlock) (hb : HoldsBlock m address size b)
    (hvalid : Valid m (unitBlocks (b.elements ++ Q) ++ rest)) (hfits : BlockFits m b)
    (hfuel : m.memoryDescriptorInfo.totalNumberOfPages < fuel) :
    ∃ m₁, Valid m₁ (unitBlocks Q ++ rest) ∧ Keeps m m₁ (unitBlocks Q ++ rest) ∧
      ∀ calls m', ReturnsPages fuel calls m₁ Q m' →
        ReturnsPages fuel (blockCalls address size ++ calls) m (b.elements ++ Q) m' := by
  obtain ⟨rfl, hpages, hsize, horder⟩ := hb
  obtain ⟨horder_le, hend, haligned, haddress⟩ := hfits
  have hblock : freedBlock b.start (u64 (size + pageSize - 1) / pageSize) = b := by
    rw [freedBlock, ← horder]
  have hfilter : (b.elements ++ Q).filter (fun k => ¬ b.Contains k) = Q := by
    obtain ⟨-, -, hdisjoint⟩ := List.nodup_append.mp hvalid.nodup.1
    rw [List.filter_append, List.filter_eq_nil_iff.mpr, List.nil_append, List.filter_eq_self.mpr]
    · intro k hk
      simpa using fun hc => hdisjoint k (DyadicBlock.mem_elements.mpr hc) k hk rfl
    · intro k hk
      simpa using DyadicBlock.mem_elements.mp hk
  have howned : ∀ k, (freedBlock b.start (u64 (size + pageSize - 1) / pageSize)).Contains k →
      k ∈ b.elements ++ Q := fun k hk =>
    List.mem_append_left _ (DyadicBlock.mem_elements.mpr (hblock ▸ hk))
  obtain ⟨m₁, hrun, hvalid₁, hkeeps⟩ := hvalid.free_pages hpages
    (show m.FreeAccepted b.start _ from
      ⟨horder ▸ horder_le, by rw [hblock]; exact hend, by rw [hblock]; exact haligned⟩) howned hfuel
  rw [hblock, hfilter] at hvalid₁ hkeeps
  refine ⟨m₁, hvalid₁, hkeeps, fun calls m' hcalls => ?_⟩
  rw [blockCalls, if_pos ⟨haddress, hsize⟩, List.singleton_append]
  exact .freed hrun howned (by rwa [hblock, hfilter])

namespace OwnsElf

variable {as : VirtualAddressSpaceElf} {heap stack : DyadicBlock} {tables : List ℕ}
  {rest : List DyadicBlock} {fuel : ℕ}

section

variable (h : OwnsElf m as P heap stack tables rest)

include h

/-- All pages of the address space, one by one. -/
theorem valid_pages :
    Valid m (unitBlocks (P ++ (heap.elements ++ (stack.elements ++ tables))) ++ rest) := by
  have hheap : Valid m (heap :: (stack :: (unitBlocks P ++ (unitBlocks tables ++ rest)))) :=
    h.tables.valid.perm (by
      simp only [List.perm_iff_count, List.count_append, List.count_cons]
      intro b
      omega)
  have hstack : Valid m (stack :: (unitBlocks heap.elements ++
      (unitBlocks P ++ (unitBlocks tables ++ rest)))) :=
    hheap.elements.perm List.perm_middle
  refine hstack.elements.perm ?_
  simp only [unitBlocks_append, List.perm_iff_count, List.count_append]
  intro b
  omega

/-- When the image is gone, the heap and the stack are returned, and then the page tables. -/
theorem cleansUp_of_returnsPages {m₁ : PhysicalMemoryManager}
    (hfuel : m.memoryDescriptorInfo.totalNumberOfPages < fuel)
    (hregions : ReturnsPages fuel (regionCalls as.memoryRegions) m P m₁)
    (hvalid₁ : Valid m₁ (unitBlocks (heap.elements ++ (stack.elements ++ tables)) ++ rest))
    (hkeeps₁ : Keeps m m₁ (unitBlocks (heap.elements ++ (stack.elements ++ tables)) ++ rest)) :
    CleansUp fuel m as P heap stack tables := by
  have hheap := (blockFits h.tables.valid (b := heap) (by simp)).of_keeps hkeeps₁
  have hstack := (blockFits h.tables.valid (b := stack) (by simp)).of_keeps hkeeps₁
  have hfuel₁ : m₁.memoryDescriptorInfo.totalNumberOfPages < fuel := by rwa [hkeeps₁.total]
  obtain ⟨m₂, hvalid₂, hkeeps₂, hcall₂⟩ :=
    (h.heap.of_keeps hkeeps₁).returnsPages (Q := stack.elements) (unitBlocks tables ++ rest)
      (by simpa using hvalid₁) hheap hfuel₁
  obtain ⟨m₃, hvalid₃, hkeeps₃, hcall₃⟩ :=
    ((h.stack.of_keeps hkeeps₁).of_keeps hkeeps₂).returnsPages (Q := [])
      (unitBlocks tables ++ rest) (by simpa using hvalid₂) (hstack.of_keeps hkeeps₂)
      (by rwa [hkeeps₂.total])
  have hlast : ReturnsPages fuel (blockCalls as.stackPhysicalAddress as.stackSize) m₂
      stack.elements m₃ := by
    simpa using hcall₃ [] m₃ (.done m₃)
  have hblocks : ReturnsPages fuel (heapStackCalls as) m₁ (heap.elements ++ stack.elements) m₃ :=
    hcall₂ _ m₃ hlast
  have hkeeps : Keeps m m₃ (unitBlocks tables ++ rest) := by
    refine (hkeeps₁.trans_mono hkeeps₂ fun b hb => ?_).trans_mono hkeeps₃ fun b hb =>
      List.mem_append_right _ hb
    simp only [unitBlocks_append, List.mem_append] at hb ⊢
    tauto
  obtain ⟨htables, -⟩ := h.tables.of_agree hvalid₃ hkeeps.start hkeeps.total fun b hb a ha =>
    hkeeps.memory_eq (List.mem_append_left _ hb) ha
  obtain ⟨m', hfree, hvalid', hkeeps'⟩ := htables.freePageTableHierarchy
    (show m₃.memoryDescriptorInfo.totalNumberOfPages < fuel by rwa [hkeeps.total])
  refine ⟨m₁, m₃, m', hregions, hblocks, hfree, ?_, fun k => ?_⟩
  · rw [cleanUpElf, freeAll_append, hregions.freeAll_eq, Option.bind_some, hblocks.freeAll_eq,
      Option.bind_some, hfree]
  · rw [h.valid_pages.pageFree_iff_of_returned hvalid' (hkeeps'.total.trans hkeeps.total)]
    simp only [List.mem_append, DyadicBlock.mem_elements]

/-- What is freed is what the address space owns if the runs of the regions make it up. -/
theorem cleansUp_iff (hfuel : m.memoryDescriptorInfo.totalNumberOfPages < fuel) :
    CleansUp fuel m as P heap stack tables ↔ RunsMakeUp m (TouchedBy as.memoryRegions) P := by
  have hvalid : Valid m (unitBlocks P ++
      (unitBlocks (heap.elements ++ (stack.elements ++ tables)) ++ rest)) := by
    simpa using h.valid_pages
  have hiff := exists_returnsPages_regionCalls_iff hvalid h.tables.start_aligned h.regions hfuel
  constructor
  · rintro ⟨m₁, -, -, hreturns, -⟩
    exact hiff.mp ⟨m₁, hreturns⟩
  · intro hruns
    obtain ⟨m₁, hreturns⟩ := hiff.mpr hruns
    have hcalls : ∀ call ∈ regionCalls as.memoryRegions, m.Regular call := by
      obtain ⟨hapart, -, hmod⟩ := collectRanges_spec h.regions
      rw [regionCalls_eq h.regions]
      exact List.forall_mem_map.mpr fun r hr =>
        regular_freeCall h.tables.start_aligned (hapart.nonempty r hr) (hmod r hr)
    obtain ⟨hvalid₁, hkeeps₁⟩ := hreturns.valid hvalid hcalls hfuel
    exact h.cleansUp_of_returnsPages hfuel hreturns hvalid₁ hkeeps₁

end

/-- What is freed is what is owned exactly if the runs of the regions make it up: for the whole
address space, and without the main image for the pages `Q` of the interpreter and of the cleared
pages. -/
theorem releasesExactly_iff {I Q : List ℕ} (h : OwnsElf m as (I ++ Q) heap stack tables rest)
    (hfuel : m.memoryDescriptorInfo.totalNumberOfPages < fuel) :
    (CleansUp fuel m as (I ++ Q) heap stack tables ↔
      RunsMakeUp m (TouchedBy as.memoryRegions) (I ++ Q)) ∧
    ((∃ m', ReturnsPages fuel
        (otherRegionCalls as.memoryRegions as.codePhysicalAddress as.codeSize) m Q m' ∧
        freeElfRegionsExcludingMainImage fuel m as.memoryRegions as.codePhysicalAddress
          as.codeSize = some m' ∧ ∀ k, m'.PageFree k ↔ m.PageFree k ∨ k ∈ Q) ↔
      RunsMakeUp m (fun a => TouchedBy as.memoryRegions a ∧
        ¬ InMainImage as.codePhysicalAddress as.codeSize a) Q) := by
  have hvalid : Valid m (unitBlocks Q ++
      (unitBlocks (I ++ (heap.elements ++ (stack.elements ++ tables))) ++ rest)) :=
    h.valid_pages.perm (by
      simp only [unitBlocks_append, List.perm_iff_count, List.count_append]
      intro b
      omega)
  have hcalls : ∀ call ∈
      otherRegionCalls as.memoryRegions as.codePhysicalAddress as.codeSize, m.Regular call := by
    obtain ⟨hapart, -, hmod⟩ := parts_spec h.regions as.codePhysicalAddress as.codeSize
    exact List.forall_mem_map.mpr fun r hr =>
      regular_freeCall h.tables.start_aligned (hapart.nonempty r hr) (hmod r hr)
  refine ⟨h.cleansUp_iff hfuel, ?_⟩
  rw [← exists_returnsPages_otherRegionCalls_iff hvalid h.tables.start_aligned h.regions hfuel]
  constructor
  · rintro ⟨m', hreturns, -⟩
    exact ⟨m', hreturns⟩
  · rintro ⟨m', hreturns⟩
    obtain ⟨hvalid', hkeeps⟩ := hreturns.valid hvalid hcalls hfuel
    exact ⟨m', hreturns, hreturns.freeAll_eq, hvalid.pageFree_iff_of_returned hvalid' hkeeps.total⟩

end OwnsElf

/-! ### An image of two pages -/

/-- A memory map with one descriptor of 127 pages. -/
def twoPageBoot : BootMemoryMap where
  descriptors := [⟨.conventionalMemory, 0x100000, 127, by decide⟩]
  nextPageAddress := 0x100000
  currentDescriptor := 0
  remainingPagesInDescriptor := 127
  end_lt := by decide

/-- The first words of a file whose only segment is the first 256 bytes: the header and one program
header. -/
def twoPageHeaders : List ℕ :=
  [0x10102464C457F, 0, 0x1003E0002, 0x400040, 0x40, 0, 0x38004000000000, 1,
    0x500000001, 0, 0x400000, 0x400000, 0x100, 0x100, 0x1000]

/-- The memory with the image of the file, which has 5000 bytes. -/
def twoPageImage : PhysicalMemoryManager :=
  ((initializeMemoryDescriptors twoPageBoot fun _ => 0).allocatePagesFromDescriptor 2).1.fillPages
    0x17C000 2 fun i => twoPageHeaders.getD i 0

/-- The memory with the stack, the heap and an empty page table besides. -/
def twoPageMemory : PhysicalMemoryManager :=
  ((((twoPageImage.allocatePagesFromDescriptor 64).1.allocatePagesFromDescriptor 2).1
    ).allocatePagesFromDescriptor 1).1.fillPages 0x17E000 1 fun _ => 0

/-- The address space of the image with given regions. -/
def twoPageSpace (regions : List ElfMemoryRegion) : VirtualAddressSpaceElf where
  codePhysicalAddress := 0x17C000
  codeSize := 5000
  codeVirtualAddressStart := 0x400000
  heapPhysicalAddress := 0x178000
  heapSize := userProcessHeapSize
  heapVirtualAddressStart := 0x401000
  stackPhysicalAddress := 0x100000
  stackSize := userProcessStackSize
  stackVirtualAddressStart := userProcessVirtualStackTop + 1 - userProcessStackSize
  pageMapL4TableAddr := 0x17E000
  memoryRegions := regions

/-- The block of a request with a known address. -/
private theorem allocate_at {live : List DyadicBlock} (pages i : ℕ) (h : Valid m live)
    (hstart : m.memoryDescriptorInfo.physicalAddressStart = 0x100000)
    (hcall : (m.allocatePagesFromDescriptor pages).2 = 0x100000 + i * pageSize) :
    Valid (m.allocatePagesFromDescriptor pages).1 (⟨i, ceilLog2Pages pages⟩ :: live) ∧
      (m.allocatePagesFromDescriptor pages).1.memoryDescriptorInfo.physicalAddressStart =
        0x100000 ∧
      (m.allocatePagesFromDescriptor pages).1.memoryDescriptorInfo.totalNumberOfPages =
        m.memoryDescriptorInfo.totalNumberOfPages := by
  rcases h.allocate pages with hfails | ⟨m', j, hok, hvalid, hkeeps⟩
  · rw [hfails] at hcall
    simp only at hcall
    omega
  · rw [hok] at hcall
    obtain rfl : j = i := by
      simp only [pageAddress, hstart, pageSize] at hcall
      omega
    rw [hok]
    exact ⟨hvalid, hkeeps.start.trans hstart, hkeeps.total⟩

/-- The blocks of the address space, whatever its regions are. -/
private theorem ownsElf_twoPages {regions : List ElfMemoryRegion} (h : RegularRegions regions) :
    OwnsElf twoPageMemory (twoPageSpace regions) ([124, 125] ++ []) ⟨120, 1⟩ ⟨0, 6⟩ [126] [] := by
  obtain ⟨m₀, hm₀⟩ : ∃ m, m = initializeMemoryDescriptors twoPageBoot fun _ => 0 := ⟨_, rfl⟩
  have hinfo : m₀.memoryDescriptorInfo.physicalAddressStart = 0x100000 ∧
      m₀.memoryDescriptorInfo.totalNumberOfPages = 127 := by
    rw [hm₀]
    decide +kernel
  have hvalid₀ : Valid m₀ [] :=
    hm₀ ▸ (valid_initializeMemoryDescriptors _ _ (by decide) (by decide)).1
  obtain ⟨hvalid₁, hstart₁, htotal₁⟩ := allocate_at 2 124 hvalid₀ hinfo.1
    (by rw [hm₀]; decide +kernel)
  have himage : twoPageImage = (m₀.allocatePagesFromDescriptor 2).1.fillPages
      0x17C000 2 fun i => twoPageHeaders.getD i 0 := by
    rw [twoPageImage, ← hm₀]
  obtain ⟨m₁, hm₁⟩ : ∃ m, m = (m₀.allocatePagesFromDescriptor 2).1 := ⟨_, rfl⟩
  rw [← hm₁] at hvalid₁ hstart₁ htotal₁ himage
  have hpage (m : PhysicalMemoryManager) (i : ℕ)
      (h : m.memoryDescriptorInfo.physicalAddressStart = 0x100000) :
      m.pageAddress i = 0x100000 + i * pageSize := by
    rw [pageAddress, h]
  have hvalid₂ : Valid twoPageImage [⟨124, ceilLog2Pages 2⟩] := by
    rw [himage]
    refine hvalid₁.write fun a ha => ?_
    have hfill := fillPages_memory (show 2 ≤ DyadicBlock.size ⟨124, 1⟩ by decide)
      (fun i => twoPageHeaders.getD i 0) (ha _ (List.mem_singleton_self _))
    rwa [hpage _ _ hstart₁] at hfill
  obtain ⟨hvalid₃, hstart₃, htotal₃⟩ := allocate_at 64 0 hvalid₂
    (himage ▸ hstart₁) (by decide +kernel)
  obtain ⟨hvalid₄, hstart₄, htotal₄⟩ := allocate_at 2 120 hvalid₃ hstart₃
    (by decide +kernel)
  obtain ⟨hvalid₅, hstart₅, htotal₅⟩ := allocate_at 1 126 hvalid₄ hstart₄
    (by decide +kernel)
  obtain ⟨m₅, hm₅⟩ : ∃ m, m = (((twoPageImage.allocatePagesFromDescriptor 64).1
    ).allocatePagesFromDescriptor 2).1.allocatePagesFromDescriptor 1 := ⟨_, rfl⟩
  have hmemory : twoPageMemory = m₅.1.fillPages 0x17E000 1 fun _ => 0 := by
    rw [twoPageMemory, hm₅]
  rw [← hm₅] at hvalid₅ hstart₅ htotal₅
  have htotal : m₅.1.memoryDescriptorInfo.totalNumberOfPages = 127 := by
    rw [htotal₅, htotal₄, htotal₃, himage]
    exact htotal₁.trans hinfo.2
  have hblocks : Valid m₅.1 (⟨126, 0⟩ :: (unitBlocks ([124, 125] ++ []) ++ [⟨120, 1⟩, ⟨0, 6⟩])) := by
    rw [show ceilLog2Pages 1 = 0 by decide, show ceilLog2Pages 2 = 1 by decide,
      show ceilLog2Pages 64 = 6 by decide] at hvalid₅
    have himageFirst : Valid m₅.1 (⟨124, 1⟩ :: [⟨126, 0⟩, ⟨120, 1⟩, ⟨0, 6⟩]) :=
      hvalid₅.perm (by decide)
    exact himageFirst.elements.perm (by decide)
  have htables : twoPageMemory.Tables (m₅.1.pageAddress 126) [126]
      (unitBlocks ([124, 125] ++ []) ++ [⟨120, 1⟩, ⟨0, 6⟩]) := by
    rw [hmemory]
    refine Tables.fresh (hblocks.write fun a ha => ?_) ?_ ?_ fun j => ?_
    · have hfill := fillPages_memory (show 1 ≤ DyadicBlock.size ⟨126, 0⟩ by decide)
        (fun _ => 0) (ha _ List.mem_cons_self)
      rwa [hpage _ _ hstart₅] at hfill
    · change m₅.1.memoryDescriptorInfo.physicalAddressStart % pageSize = 0
      rw [hstart₅]
      decide
    · change m₅.1.pageAddress m₅.1.memoryDescriptorInfo.totalNumberOfPages ≤ _
      rw [hpage _ _ hstart₅, htotal]
      decide
    · have := j.isLt
      change (m₅.1.fillPages 0x17E000 1 fun _ => 0).entry (m₅.1.pageAddress 126) j = 0
      rw [entry, PhysicalMemoryManager.fillPages, hpage _ _ hstart₅]
      exact if_pos ⟨by simp only [pageSize]; omega, by simp only [pageSize]; omega⟩
  rw [hpage _ _ hstart₅] at htables
  have hstart : twoPageMemory.memoryDescriptorInfo.physicalAddressStart = 0x100000 := by
    rw [hmemory]
    exact hstart₅
  have hheap : HoldsBlock twoPageMemory 0x178000 userProcessHeapSize ⟨120, 1⟩ :=
    ⟨(hpage _ 120 hstart).symm, by decide, by decide, by decide⟩
  have hstack : HoldsBlock twoPageMemory 0x100000 userProcessStackSize ⟨0, 6⟩ :=
    ⟨(hpage _ 0 hstart).symm, by decide, by decide, by decide⟩
  exact ⟨htables, h, hheap, hstack⟩

/-- The two pages of an image that one region covers are returned. -/
theorem OwnsElf.releasesExactly_iff_twoPages :
    CleansUp 128 twoPageMemory (twoPageSpace [⟨0x17C000, 0x400000, 5000, false⟩])
      ([124, 125] ++ []) ⟨120, 1⟩ ⟨0, 6⟩ [126] := by
  have hregions : RegularRegions [⟨0x17C000, 0x400000, 5000, false⟩] :=
    ⟨by decide, by simp [pageSize]⟩
  have howns := ownsElf_twoPages hregions
  obtain ⟨m, hm⟩ : ∃ m, m = twoPageMemory := ⟨_, rfl⟩
  refine (OwnsElf.releasesExactly_iff howns (by decide +kernel)).1.mpr ?_
  have hpage (i : ℕ) : m.pageAddress i = 0x100000 + i * pageSize := by
    rw [pageAddress, show m.memoryDescriptorInfo.physicalAddressStart = 0x100000 by
      rw [hm]
      decide +kernel]
  have haccepted : 124 < m.memoryDescriptorInfo.totalNumberOfPages ∧ m.FreeAccepted 124 2 := by
    rw [hm]
    decide +kernel
  have hblock : ∀ b, m.AcceptedBlock (0x17C000, 2) b ↔ b = ⟨124, 1⟩ := by
    refine fun b => ⟨?_, ?_⟩
    · rintro ⟨j, -, haddress, -, rfl⟩
      rw [hpage, pageSize] at haddress
      obtain rfl : j = 124 := by omega
      rfl
    · rintro rfl
      exact ⟨124, haccepted.1, (hpage 124).symm, haccepted.2, rfl⟩
  have hcontains : ∀ k, DyadicBlock.Contains ⟨124, 1⟩ k ↔ k ∈ [124, 125] ++ [] :=
    fun k => DyadicBlock.mem_elements.symm
  change RunsMakeUp _ (TouchedBy [⟨0x17C000, 0x400000, 5000, false⟩]) _
  rw [← exactBlocks_regionCalls_iff hregions,
    show regionCalls [⟨0x17C000, 0x400000, 5000, false⟩] = [(0x17C000, 2)] by decide, ← hm]
  refine ⟨?_, List.pairwise_singleton _ _, fun k hk => ?_⟩
  · simp only [List.mem_singleton, forall_eq, hblock, hcontains]
    exact fun k hk => hk
  · exact ⟨_, List.mem_singleton_self _, _, (hblock _).mpr rfl, (hcontains k).mpr hk⟩

/-- When the segment does not reach the second page of the image, this page is not returned. -/
theorem OwnsElf.not_releasesExactly :
    (ElfLoad.appendElfLoadSegments 128 ⟨twoPageMemory, []⟩ 0x17C000 5000
      (parseElf twoPageMemory.bytes 0x17C000) 0).map (fun r => (r.1.memoryRegions, r.2)) =
        some ([⟨0x17C000, 0x400000, 256, false⟩], true) ∧
    (((twoPageSpace [⟨0x17C000, 0x400000, 256, false⟩]).init twoPageMemory 0x17E000).2.isSome) ∧
    (cleanUpElf 128
      ((twoPageSpace [⟨0x17C000, 0x400000, 256, false⟩]).init twoPageMemory 0x17E000).1
      (twoPageSpace [⟨0x17C000, 0x400000, 256, false⟩])).map
        (fun m => m.memoryDescriptorInfo.numberOfFreePages + 1) =
      some (initializeMemoryDescriptors twoPageBoot fun _ => 0
        ).memoryDescriptorInfo.numberOfFreePages := by
  refine ⟨?_, ?_, ?_⟩
  · decide +kernel
  · decide +kernel
  · decide +kernel

end TwistedOS
