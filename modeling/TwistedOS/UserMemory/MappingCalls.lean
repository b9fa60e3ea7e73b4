import TwistedOS.UserMemory.AddressRanges
import TwistedOS.UserMemory.MappingOwnership

/-!
# What mmap and munmap do to the mappings

A successful `munmap` leaves no record in its range and clears the pages that had one. The pages of
a new mapping come from one block of the allocator; when the mapping cannot be completed the block
is freed again.

## Main results

* `UserMemory.MappingsOwned.handleMunmap`
* `UserMemory.MappingsOwned.mapNewPages`
-/

namespace TwistedOS

open RadixTree ProcessMemoryMapping
open PhysicalMemoryManager

namespace PhysicalMemoryManager

variable {m m' : PhysicalMemoryManager} {root : ℕ} {tables P : List ℕ} {others : List DyadicBlock}

/-- When a block is freed that was allocated for `pages` pages, the other pages are left. -/
theorem Tables.pagesAfterFree_eq {k pages : ℕ}
    (h : Tables m root tables (⟨k, ceilLog2Pages pages⟩ :: (unitBlocks P ++ others))) :
    m.FreeAccepted k pages ∧
      m.pagesAfterFree (DyadicBlock.elements ⟨k, ceilLog2Pages pages⟩ ++ P) k pages = P := by
  have hfront := h.valid.perm List.perm_middle
  have haccepted : m.FreeAccepted k pages :=
    ⟨hfront.order_le _ List.mem_cons_self, hfront.end_le List.mem_cons_self,
      hfront.aligned _ List.mem_cons_self⟩
  have helements := h.elements
  rw [← List.append_assoc, ← unitBlocks_append] at helements
  have hdisj : ∀ j ∈ P, ¬ (freedBlock k pages).Contains j := by
    have hnodup := helements.nodup.1
    rw [List.nodup_append'] at hnodup
    exact fun j hj hcontains => hnodup.2.2 (DyadicBlock.mem_elements.mpr hcontains) hj
  refine ⟨haccepted, ?_⟩
  rw [pagesAfterFree, if_pos haccepted, List.filter_append,
    List.filter_eq_nil_iff.mpr (by simp +contextual [freedBlock]), List.nil_append,
    List.filter_eq_self.mpr (by simpa using hdisj)]

/-- A block that was allocated for `pages` pages may be freed as such. -/
theorem Tables.freeBlock {k pages fuel : ℕ}
    (h : Tables m root tables (⟨k, ceilLog2Pages pages⟩ :: (unitBlocks P ++ others)))
    (hpages : pages ≠ 0) (hfuel : m.memoryDescriptorInfo.totalNumberOfPages < fuel) :
    ∃ m' ok, freePagesFromDescriptor fuel m (m.pageAddress k) pages = some (m', ok) ∧
      Tables m' root tables (unitBlocks P ++ others) ∧
      KeepsProtected m m' (unitBlocks P ++ others) ∧
      Agree m.lowerEntries m'.lowerEntries root := by
  obtain ⟨haccepted, hafter⟩ := h.pagesAfterFree_eq
  have helements := h.elements
  rw [← List.append_assoc, ← unitBlocks_append] at helements
  have hend := haccepted.2.1
  have hpos := (freedBlock k pages).size_pos
  obtain ⟨m', ok, hrun, htables, hkeeps, hagree⟩ := helements.freePages hpages (j := k)
    (by omega) (fun _ j hj => List.mem_append_left _ (DyadicBlock.mem_elements.mpr hj)) hfuel
  rw [hafter] at htables hkeeps
  exact ⟨m', ok, hrun, htables, hkeeps, hagree⟩

theorem Tables.root_ne_zero {rest : List DyadicBlock} (h : Tables m root tables rest) : root ≠ 0 :=
  (h.normalize_eq (p := []) rfl).1

end PhysicalMemoryManager

namespace UserMemory

/-- The end of the range that a call of `munmap` unmaps. -/
def munmapEnd (address length : ℕ) : ℕ := u64 (address + alignUpToPageBoundary length)

variable {s s' : UserMemory} {tables P : List ℕ} {others : List DyadicBlock} {fuel : ℕ}

/-- The pages of a range. -/
def PageOf (start length v : ℕ) : Prop := v % pageSize = 0 ∧ start ≤ v ∧ v < start + length

/-- A call keeps the layout of the process, the words of the blocks `rest`, and the leaves of all
keys that are apart from the pages of `S`. -/
structure ChangesOnly (s s' : UserMemory) (rest : List DyadicBlock) (S : ℕ → Prop) : Prop where
  addressSpace : s'.addressSpace = s.addressSpace
  keeps : s.pmm.KeepsProtected s'.pmm rest
  leafKept : ∀ p, p.length = 4 →
    (∀ v, S v → s.pmm.Apart s.pageMapL4TableAddr p (pagePath v)) →
    s.pmm.LeafKept s'.pmm s.pageMapL4TableAddr p

/-- Pages of the range are mapped to consecutive pages of memory. -/
def MapsRange (m : PhysicalMemoryManager) (root start length physicalStart : ℕ) : Prop :=
  ∀ v, PageOf start length v → ∃ tags : List PageTag,
    lookup m.lowerEntries 0 root (pagePath v) = some (tags, physicalStart + (v - start), [])

namespace MappingsOwned

section

variable (h : MappingsOwned s tables P others)

include h

theorem handleMunmap {address length : ℕ}
    (hsafe : ∀ i < maxMemoryMappingsPerProcess,
      ReleaseSafe s.pmm (Spare s P) address (munmapEnd address length) (s.memoryMappings i))
    (hfuel : s.pmm.memoryDescriptorInfo.totalNumberOfPages < fuel)
    (hrun : s.handleMunmap fuel address length = some (s', .ok ())) :
    ∃ P', MappingsOwned s' tables P' others ∧ (∀ k ∈ P', k ∈ P) ∧
      s'.addressSpace = s.addressSpace ∧
      s.pmm.KeepsProtected s'.pmm (unitBlocks P' ++ others) ∧
      (∀ j < maxMemoryMappingsPerProcess, (s'.memoryMappings j).inUse = true →
        (∃ i < maxMemoryMappingsPerProcess, ∃ d,
          PieceOf (s'.memoryMappings j) (s.memoryMappings i) d) ∧
        ∀ v, Covers (s'.memoryMappings j) v → v < address ∨ munmapEnd address length ≤ v) ∧
      (s.pmm.ClearsPages s'.pmm s.pageMapL4TableAddr fun p =>
        ∃ i < maxMemoryMappingsPerProcess, ∃ v, v % pageSize = 0 ∧ address ≤ v ∧
          v < munmapEnd address length ∧ Covers (s.memoryMappings i) v ∧ p = pagePath v) ∧
      ((∀ i < maxMemoryMappingsPerProcess,
          ReleaseExact s.pmm address (munmapEnd address length) (s.memoryMappings i)) →
        P'.length + sumRecords blockPages s.memoryMappings =
          P.length + sumRecords blockPages s'.memoryMappings) := by
  unfold UserMemory.handleMunmap at hrun
  dsimp only at hrun
  split_ifs at hrun with h0 halign hlength hwrap hcount hroot
  · simp at hrun
  · simp at hrun
  · simp at hrun
  · simp at hrun
  · simp at hrun
  · simp at hrun
  · rw [not_not] at halign
    have hend : munmapEnd address length % pageSize = 0 := by
      have := alignUpToPageBoundary_mod length
      rw [munmapEnd, u64_mod_pageSize]
      simp only [pageSize] at *
      omega
    obtain ⟨P', howned, hsub, hspace, hkeeps, hrecords, hclears, hexact⟩ :=
      h.unmapSlots (fun i hi => mem_slots.mp hi) List.nodup_range halign hend
        (fun i hi => hsafe i (mem_slots.mp hi))
        (fun j hj hnot => absurd (mem_slots.mpr hj) hnot) hfuel hrun
    exact ⟨P', howned, hsub, hspace, hkeeps, hrecords, hclears, fun hall =>
      hexact fun i hi => hall i (mem_slots.mp hi)⟩

/-- The invariant does not depend on how the allocator serves the other blocks. -/
theorem setPmm {m' : PhysicalMemoryManager} {tables' : List ℕ}
    (htables : m'.Tables s.pageMapL4TableAddr tables' (unitBlocks P ++ others))
    (haddr : m'.pageAddress = s.pmm.pageAddress) :
    MappingsOwned (s.setPmm m') tables' P others where
  tables := htables
  regular := h.regular
  lower := h.lower
  once := h.once
  owned i hi hanon v hv hcovers := by
    obtain ⟨k, hk, hphys⟩ := h.owned i hi hanon v hv hcovers
    exact ⟨k, hk, hphys.trans (congrFun haddr k).symm⟩
  injective i hi j hj k v w hv hw hanon hanon' hcv hcw hpv hpw :=
    h.injective i hi j hj k v w hv hw hanon hanon' hcv hcw (hpv.trans (congrFun haddr k))
      (hpw.trans (congrFun haddr k))

/-- What is left of a call that fails after its block has been allocated: the block is free again,
and the records are as before. -/
theorem of_failed {m₂ : PhysicalMemoryManager} {tables₂ : List ℕ} {S : ℕ → Prop} {a k count : ℕ}
    {e : LinuxError} {r : Except LinuxError ℕ} (hcount : count ≠ 0)
    (hfuel : s.pmm.memoryDescriptorInfo.totalNumberOfPages < fuel) (ha : a = s.pmm.pageAddress k)
    (htables : m₂.Tables s.pageMapL4TableAddr tables₂
      (⟨k, ceilLog2Pages count⟩ :: (unitBlocks P ++ others)))
    (hchanges : ChangesOnly s (s.setPmm m₂) (unitBlocks P ++ others) S)
    (hrun : ((s.setPmm m₂).freePages fuel a count).map (fun s => (s, Except.error e)) =
      some (s', r)) :
    ∃ tables', MappingsOwned s' tables' P others ∧
      ChangesOnly s s' (unitBlocks P ++ others) S ∧ s'.memoryMappings = s.memoryMappings ∧
      r = .error e := by
  obtain ⟨-, hkeeps, hkept⟩ := hchanges
  rw [setPmm_pmm] at hkeeps hkept
  obtain ⟨m₃, ok, hfree, htables₃, hkeeps₃, hagree₃⟩ :=
    htables.freeBlock hcount (hkeeps.total ▸ hfuel)
  rw [show a = m₂.pageAddress k by rw [ha, hkeeps.pageAddress], freePages, setPmm_pmm, hfree,
    Option.map_some, Option.map_some, Option.some.injEq, Prod.mk.injEq] at hrun
  obtain ⟨rfl, rfl⟩ := hrun
  refine ⟨tables₂, h.setPmm htables₃ (hkeeps.trans hkeeps₃).pageAddress, ⟨rfl,
    hkeeps.trans hkeeps₃, fun p hp hapart => (hkept p hp hapart).trans ?_⟩, rfl, rfl⟩
  exact .of_eq (hagree₃.lookup_eq p)

section

variable {mappingStart mappingLength : ℕ}
  (hstart : mappingStart % pageSize = 0) (hlength : mappingLength % pageSize = 0)
  (hpos : 0 < mappingLength) (hsmall : mappingLength < 2 ^ 52)
  (hend : mappingStart + mappingLength < 2 ^ 64)
  (hlower : ∀ v, PageOf mappingStart mappingLength v → pml4Index v < 256)
  (hfree : ∀ j < maxMemoryMappingsPerProcess, (s.memoryMappings j).isAnonymous = true →
    ∀ v, mappingStart ≤ v → v < mappingStart + mappingLength → ¬ Covers (s.memoryMappings j) v)

include hstart hlength hpos hsmall hend hlower hfree

/-- The invariant after a block has been recorded as a mapping. -/
theorem of_register {m' : PhysicalMemoryManager} {tables' : List ℕ} {i k : ℕ}
    (htables : m'.Tables s.pageMapL4TableAddr tables'
      (⟨k, ceilLog2Pages (mappingLength / pageSize)⟩ ::
        (unitBlocks P ++ others))) (haddr : m'.pageAddress = s.pmm.pageAddress) :
    MappingsOwned ((s.setPmm m').setMapping i
        ⟨true, mappingStart, mappingLength, m'.pageAddress k, true⟩) tables'
      (DyadicBlock.elements
        ⟨k, ceilLog2Pages (mappingLength / pageSize)⟩ ++ P) others := by
  have helements := htables.elements
  rw [← List.append_assoc, ← unitBlocks_append] at helements
  have hnodup := helements.nodup
  have hcount : mappingLength / pageSize ≤
      2 ^ ceilLog2Pages (mappingLength / pageSize) :=
    le_two_pow_ceilLog2Pages (by simp only [pageSize]; omega)
  obtain ⟨new, hnew⟩ : ∃ new : ProcessMemoryMapping,
      new = ⟨true, mappingStart, mappingLength, m'.pageAddress k, true⟩ := ⟨_, rfl⟩
  rw [← hnew]
  have hself : ((s.setPmm m').setMapping i new).memoryMappings i = new := by simp
  have hother : ∀ j, j ≠ i →
      ((s.setPmm m').setMapping i new).memoryMappings j = s.memoryMappings j :=
    fun j hj => setMapping_of_ne _ hj _
  -- the pages of the new record
  have hpage : ∀ v, v % pageSize = 0 → Covers new v →
      k + (v - mappingStart) / pageSize ∈ DyadicBlock.elements
        ⟨k, ceilLog2Pages (mappingLength / pageSize)⟩ ∧
      new.physicalOf v = m'.pageAddress (k + (v - mappingStart) / pageSize) := by
    rintro v hv ⟨-, hle, hlt⟩
    rw [hnew] at hle hlt ⊢
    simp only [physicalOf, pageAddress, DyadicBlock.mem_elements,
      DyadicBlock.Contains, DyadicBlock.size_mk, pageSize] at *
    omega
  have hcoversnew : ∀ v, Covers new v → mappingStart ≤ v ∧ v < mappingStart + mappingLength := by
    rintro v ⟨-, hle, hlt⟩
    rw [hnew] at hle hlt
    exact ⟨hle, hlt⟩
  have hregnew : Regular new := by
    have hmem := hnodup.2.2.2 k (List.mem_append_left _ (by
      simpa using DyadicBlock.contains_start
        ⟨k, ceilLog2Pages (mappingLength / pageSize)⟩))
    obtain ⟨-, hle, hne⟩ := htables.pageAddress_spec hmem
    rw [hnew]
    refine ⟨hstart, hlength, hpos, hend, fun _ => ⟨hne, ?_⟩⟩
    simp only [pmmBuddyPhysicalLimit, pageSize] at *
    omega
  refine ⟨helements, fun j hj huse => ?_, fun j hj v hv hcovers => ?_, fun a ha b hb hab haa hab' v
    hva hvb => ?_, fun j hj hanon v hv hcovers => ?_, fun a ha b hb e v w hv hw haa hba hva hwb hpa
    hpb => ?_⟩
  · by_cases hji : j = i
    · rw [hji, hself]
      exact hregnew
    · rw [hother j hji] at huse ⊢
      exact h.regular j hj huse
  · by_cases hji : j = i
    · rw [hji, hself] at hcovers
      obtain ⟨hle, hlt⟩ := hcoversnew v hcovers
      exact hlower v ⟨hv, hle, hlt⟩
    · rw [hother j hji] at hcovers
      exact h.lower j hj v hv hcovers
  · by_cases hai : a = i <;> by_cases hbi : b = i
    · exact hab (hai.trans hbi.symm)
    · rw [hai, hself] at hva
      rw [hother b hbi] at hvb hab'
      exact hfree b hb hab' v (hcoversnew v hva).1 (hcoversnew v hva).2 hvb
    · rw [hbi, hself] at hvb
      rw [hother a hai] at hva haa
      exact hfree a ha haa v (hcoversnew v hvb).1 (hcoversnew v hvb).2 hva
    · rw [hother a hai] at hva haa
      rw [hother b hbi] at hvb hab'
      exact h.once a ha b hb hab haa hab' v hva hvb
  · by_cases hji : j = i
    · rw [hji, hself] at hcovers ⊢
      obtain ⟨hmem, hphys⟩ := hpage v hv hcovers
      exact ⟨_, List.mem_append_left _ hmem, hphys⟩
    · rw [hother j hji] at hcovers hanon ⊢
      obtain ⟨e, he, hphys⟩ := h.owned j hj hanon v hv hcovers
      exact ⟨e, List.mem_append_right _ he, by rw [hphys]; exact (congrFun haddr e).symm⟩
  · have hpageold : ∀ j, j ≠ i → j < maxMemoryMappingsPerProcess →
        (((s.setPmm m').setMapping i new).memoryMappings j).isAnonymous = true → ∀ u,
        u % pageSize = 0 → Covers (((s.setPmm m').setMapping i new).memoryMappings j) u →
        (((s.setPmm m').setMapping i new).memoryMappings j).physicalOf u =
          ((s.setPmm m').setMapping i new).pmm.pageAddress e → e ∈ P := by
      intro j hji hj hanon u hu hcovers hphys
      rw [hother j hji] at hanon hcovers hphys
      obtain ⟨e', he', hphys'⟩ := h.owned j hj hanon u hu hcovers
      rw [hphys', ← haddr] at hphys
      rwa [← pageAddress_injective _ hphys]
    have hpagenew : ∀ u, u % pageSize = 0 → Covers new u →
        new.physicalOf u = ((s.setPmm m').setMapping i new).pmm.pageAddress e →
        e = k + (u - mappingStart) / pageSize := by
      intro u hu hcovers hphys
      rw [(hpage u hu hcovers).2] at hphys
      exact (pageAddress_injective _ hphys).symm
    have happart : ∀ u, u % pageSize = 0 → Covers new u →
        k + (u - mappingStart) / pageSize ∉ P := by
      intro u hu hcovers hmem
      have hapart := hnodup.1
      rw [List.nodup_append'] at hapart
      exact hapart.2.2 (hpage u hu hcovers).1 hmem
    by_cases hai : a = i <;> by_cases hbi : b = i
    · rw [hai, hself] at hva hpa
      rw [hbi, hself] at hwb hpb
      have hv' := hpagenew v hv hva hpa
      have hw' := hpagenew w hw hwb hpb
      have hvle := hcoversnew v hva
      have hwle := hcoversnew w hwb
      simp only [pageSize] at *
      omega
    · rw [hai, hself] at hva hpa
      exact absurd (hpageold b hbi hb hba w hw hwb hpb)
        (hpagenew v hv hva hpa ▸ happart v hv hva)
    · rw [hbi, hself] at hwb hpb
      exact absurd (hpageold a hai ha haa v hv hva hpa)
        (hpagenew w hw hwb hpb ▸ happart w hw hwb)
    · rw [hother a hai] at haa hva hpa
      rw [hother b hbi] at hba hwb hpb
      rw [show ((s.setPmm m').setMapping i new).pmm = m' from rfl, haddr] at hpa hpb
      exact h.injective a ha b hb e v w hv hw haa hba hva hwb hpa hpb

/-- Allocated pages are mapped at a range in which no anonymous record lies, and recorded. -/
theorem mapNewPages {protection : ℕ}
    {contents : Except LinuxError (ℕ → ℕ)} {r : Except LinuxError ℕ}
    (hfuel : s.pmm.memoryDescriptorInfo.totalNumberOfPages < fuel)
    (hrun : s.mapNewPages fuel mappingStart mappingLength protection contents = some (s', r)) :
    ∃ tables' P', MappingsOwned s' tables' P' others ∧
      ChangesOnly s s' (unitBlocks P ++ others) (PageOf mappingStart mappingLength) ∧
      (∀ e, r = .error e → s'.memoryMappings = s.memoryMappings ∧ P' = P) ∧
      ∀ a, r = .ok a → a = mappingStart ∧ ∃ i < maxMemoryMappingsPerProcess, ∃ k,
        (s.memoryMappings i).inUse = false ∧
        s'.memoryMappings = Function.update s.memoryMappings i
          ⟨true, mappingStart, mappingLength, s.pmm.pageAddress k, true⟩ ∧
        P' = DyadicBlock.elements
          ⟨k, ceilLog2Pages (mappingLength / pageSize)⟩ ++ P ∧
        ((∀ v w, PageOf mappingStart mappingLength v → PageOf mappingStart mappingLength w →
            pagePath v = pagePath w → v = w) →
          MapsRange s'.pmm s.pageMapL4TableAddr mappingStart mappingLength
            (s.pmm.pageAddress k)) := by
  obtain ⟨count, hcount⟩ : ∃ count, mappingLength = count * pageSize :=
    ⟨mappingLength / pageSize, by simp only [pageSize] at *; omega⟩
  have hcount0 : count ≠ 0 := by rintro rfl; simp at hcount; omega
  have hdiv : mappingLength / pageSize = count := by
    rw [hcount]
    exact Nat.mul_div_cancel _ (by decide)
  rw [hdiv]
  -- the pages of the range
  have hpage : ∀ i < count, (mappingStart + i * pageSize) % pageSize = 0 ∧
      mappingStart + i * pageSize < mappingStart + mappingLength ∧
      u64 (mappingStart + i * pageSize) = mappingStart + i * pageSize := by
    intro i hi
    have hmul : (i + 1) * pageSize ≤ count * pageSize := Nat.mul_le_mul_right _ hi
    rw [u64]
    simp only [pageSize] at *
    omega
  have hroot := h.tables.root_ne_zero
  unfold UserMemory.mapNewPages at hrun
  dsimp only at hrun
  rw [hdiv] at hrun
  rcases h.tables.allocate count with hfail | ⟨m₁, k, halloc, hne, htables₁, hkeeps₁, hagree₁⟩
  · rw [hfail] at hrun
    obtain ⟨rfl, rfl⟩ : s.setPmm s.pmm = s' ∧ Except.error LinuxError.enomem = r := by
      simpa using hrun
    exact ⟨tables, P, h, ⟨rfl, .refl _ _, fun p _ _ => .refl _ _ _⟩, fun e _ => ⟨rfl, rfl⟩, by simp⟩
  obtain ⟨address, haddress⟩ := Nat.exists_eq_succ_of_ne_zero hne
  rw [halloc, haddress] at hrun
  simp only at hrun
  rw [← haddress] at hrun
  have hpadd : m₁.pageAddress = s.pmm.pageAddress := hkeeps₁.pageAddress
  rw [← hpadd] at hrun haddress hne ⊢
  have hfront : Valid m₁
      (⟨k, ceilLog2Pages count⟩ ::
        (unitBlocks tables ++ (unitBlocks P ++ others))) :=
    htables₁.valid.perm List.perm_middle
  have hend_le := hfront.end_le List.mem_cons_self
  have hcount_le : count ≤ 2 ^ ceilLog2Pages count :=
    le_two_pow_ceilLog2Pages (by simp only [pageSize] at *; omega)
  simp only [DyadicBlock.size_mk] at hend_le
  cases contents with
  | error e =>
    obtain ⟨tables', howned, hchanges, hsame, rfl⟩ :=
      h.of_failed hcount0 hfuel (congrFun hpadd k) htables₁
        ⟨rfl, hkeeps₁, fun p _ _ => .of_eq (hagree₁.lookup_eq p)⟩ hrun
    exact ⟨tables', P, howned, hchanges, fun _ _ => ⟨hsame, rfl⟩, by simp⟩
  | ok words =>
  dsimp only at hrun
  obtain ⟨htables₂, hkeeps₂, hagree₂⟩ := htables₁.fillPages (show count ≤
    DyadicBlock.size ⟨k, ceilLog2Pages count⟩ by simpa using hcount_le) words
  dsimp only at htables₂ hkeeps₂ hagree₂
  obtain ⟨m₂, hm₂⟩ : ∃ m₂, m₂ = m₁.fillPages (m₁.pageAddress k) count words := ⟨_, rfl⟩
  rw [← hm₂] at htables₂ hkeeps₂ hagree₂ hrun
  rw [if_neg (by exact hroot), setPmm_pmm] at hrun
  obtain ⟨m₃, r₃, tables₃, hmap, htables₃, hkeeps₃, hkept₃, -, hleaf₃⟩ := htables₂.mapPages
    (m₁.pageAddress k) mappingStart ⟨true, decide (protection &&& linuxProtWrite ≠ 0)⟩ count 0
    (fun i _ hi => by
      obtain ⟨halign, hlt, hwrap⟩ := hpage i (by omega)
      rw [hwrap]
      exact hlower _ ⟨halign, by omega, hlt⟩)
  rw [show (s.setPmm m₂).pageMapL4TableAddr = s.pageMapL4TableAddr from rfl, hmap] at hrun
  have hchanges₃ : ChangesOnly s (s.setPmm m₃) (unitBlocks P ++ others)
      (PageOf mappingStart mappingLength) := by
    refine ⟨rfl, hkeeps₁.trans (hkeeps₂.trans hkeeps₃.of_cons), fun p hp hapart => ?_⟩
    have hkept : s.pmm.LeafKept m₂ s.pageMapL4TableAddr p :=
      .of_eq ((hagree₂.lookup_eq p).trans (hagree₁.lookup_eq p))
    intro l hl
    refine (hkept.trans (hkept₃ p hp fun i _ hi => ?_)) l hl
    obtain ⟨halign, hlt, hwrap⟩ := hpage i (by omega)
    rw [hwrap]
    exact (hapart _ ⟨halign, by omega, hlt⟩).of_leafKept hkept hl
  cases r₃ with
  | some index =>
    obtain ⟨tables', howned, hchanges, hsame, rfl⟩ :=
      h.of_failed hcount0 hfuel (congrFun hpadd k) htables₃ hchanges₃ hrun
    exact ⟨tables', P, howned, hchanges, fun _ _ => ⟨hsame, rfl⟩, by simp⟩
  | none =>
    dsimp only at hrun
    rcases hregister : ((s.setPmm m₂).setPmm m₃).registerProcessMapping mappingStart mappingLength
      (m₁.pageAddress k) true with ⟨s₄, ok⟩
    rw [hregister] at hrun
    cases ok with
    | false =>
      rw [show s₄ = s.setPmm m₃ from registerProcessMapping_false hregister] at hrun
      obtain ⟨tables', howned, hchanges, hsame, rfl⟩ :=
        h.of_failed hcount0 hfuel (congrFun hpadd k) htables₃ hchanges₃ hrun
      exact ⟨tables', P, howned, hchanges, fun _ _ => ⟨hsame, rfl⟩, by simp⟩
    | true =>
      obtain ⟨rfl, rfl⟩ : s₄ = s' ∧ Except.ok mappingStart = r := by simpa using hrun
      obtain ⟨i, hi, hempty, rfl⟩ := registerProcessMapping_spec hregister
      have hpadd₃ : m₃.pageAddress = m₁.pageAddress := by
        rw [hkeeps₃.pageAddress, hkeeps₂.pageAddress]
      refine ⟨tables₃, DyadicBlock.elements ⟨k, ceilLog2Pages count⟩ ++ P, ?_,
        ⟨rfl, hchanges₃.keeps, hchanges₃.leafKept⟩, by simp, ?_⟩
      · have howned := h.of_register hstart hlength hpos hsmall hend hlower hfree (i := i) (k := k)
          (by rwa [hdiv]) (hpadd₃.trans hpadd)
        rwa [hdiv, hpadd₃] at howned
      · rintro a ⟨rfl⟩
        refine ⟨rfl, i, hi, k, hempty, rfl, rfl, fun hdistinct v hv => ?_⟩
        obtain ⟨halign, hle, hlt⟩ := hv
        obtain ⟨j, hj, rfl⟩ : ∃ j < count, v = mappingStart + j * pageSize := by
          refine ⟨(v - mappingStart) / pageSize, ?_, ?_⟩ <;>
          · simp only [pageSize] at *
            omega
        obtain ⟨hphys, hmod, hlt32⟩ := htables₁.nextPage_spec (k := k) (i := j) (by omega)
        obtain ⟨tags, hl⟩ := hleaf₃ rfl (fun i j _ hij hj heq => by
          obtain ⟨hai, hlti, hwi⟩ := hpage i (by omega)
          obtain ⟨haj, hltj, hwj⟩ := hpage j (by omega)
          rw [hwi, hwj] at heq
          have hsame := hdistinct _ _ ⟨hai, by omega, hlti⟩ ⟨haj, by omega, hltj⟩ heq
          simp only [pageSize] at hsame
          omega) j (by omega) (by omega) (by rwa [hphys]) (by rwa [hphys])
        rw [(hpage j hj).2.2, hphys] at hl
        rw [Nat.add_sub_cancel_left]
        exact ⟨_, hl⟩

end

end

end MappingsOwned

end UserMemory

end TwistedOS
