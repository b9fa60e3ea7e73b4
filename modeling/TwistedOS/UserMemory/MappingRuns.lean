import TwistedOS.Memory.BuddyRuns
import TwistedOS.UserMemory.MappingCalls

/-!
# Runs of mmap and munmap

The records, the page tables and the allocator in every state that successful calls of `mmap` and
`munmap` reach from a process without mappings. The calls differ from the general ones in two ways:
their ranges end in the lower half, and a block that is given back for a part of a mapping has no
page that is still in use, see `UserMemory.ReleaseSafe`. The page tables of a process grow and are
kept until the whole address space is freed.

## Main definitions

* `PhysicalMemoryManager.translate`: the walk through the page tables.
* `UserMemory.ExactlyOwned`: the mappings own their pages.
* `UserMemory.MappingCall`, `UserMemory.MappingRun`.

## Main results

* `UserMemory.MappingRun.exactlyOwned`.
-/

namespace TwistedOS

open RadixTree ProcessMemoryMapping
open PhysicalMemoryManager

namespace PhysicalMemoryManager

/-- The physical address behind an address of the lower half. The indices that the walk leaves over
belong to the offset in a large page. -/
def translate (m : PhysicalMemoryManager) (root v : ℕ) : Option ℕ :=
  (lookup m.lowerEntries 0 root (pagePath v)).map fun l =>
    l.2.1 + v % (pageSize * 512 ^ l.2.2.length)

end PhysicalMemoryManager

namespace UserMemory

/-- The page is allocated, but for no record, page table or block of `others`: an allocation has
been rounded up. -/
def Unclaimed (s : UserMemory) (others : List DyadicBlock) (k : ℕ) : Prop :=
  k < s.pmm.memoryDescriptorInfo.totalNumberOfPages ∧ ¬ s.pmm.PageFree k ∧
    (∀ b ∈ others, ¬ b.Contains k) ∧
    (∀ p, reach s.pmm.lowerEntries 0 s.pageMapL4TableAddr p ≠ some (s.pmm.pageAddress k)) ∧
    ∀ i < maxMemoryMappingsPerProcess, ¬ RecordHasPage s.pmm (s.memoryMappings i) k

/-- The mappings own their pages: no two records overlap, the page tables map what the records
say, and each page of a record is allocated, for this record alone. -/
structure ExactlyOwned (s : UserMemory) (others : List DyadicBlock) : Prop where
  disjoint : ∀ i < maxMemoryMappingsPerProcess, ∀ j < maxMemoryMappingsPerProcess, i ≠ j →
    ∀ v, Covers (s.memoryMappings i) v → ¬ Covers (s.memoryMappings j) v
  mapped : ∀ i < maxMemoryMappingsPerProcess, (s.memoryMappings i).isAnonymous = true →
    ∀ v, Covers (s.memoryMappings i) v →
      s.pmm.translate s.pageMapL4TableAddr v = some ((s.memoryMappings i).physicalOf v)
  allocated : ∀ i < maxMemoryMappingsPerProcess, (s.memoryMappings i).isAnonymous = true →
    ∀ v, v % pageSize = 0 → Covers (s.memoryMappings i) v →
      ∃ k < s.pmm.memoryDescriptorInfo.totalNumberOfPages,
        (s.memoryMappings i).physicalOf v = s.pmm.pageAddress k ∧ ¬ s.pmm.PageFree k ∧
        (∀ b ∈ others, ¬ b.Contains k) ∧
        ∀ p, reach s.pmm.lowerEntries 0 s.pageMapL4TableAddr p ≠ some (s.pmm.pageAddress k)
  injective : ∀ i < maxMemoryMappingsPerProcess, ∀ j < maxMemoryMappingsPerProcess,
    (s.memoryMappings i).isAnonymous = true → (s.memoryMappings j).isAnonymous = true →
    ∀ v w, v % pageSize = 0 → w % pageSize = 0 → Covers (s.memoryMappings i) v →
      Covers (s.memoryMappings j) w →
      (s.memoryMappings i).physicalOf v = (s.memoryMappings j).physicalOf w → i = j ∧ v = w

/-- A range that may be unmapped: it ends in the lower half, and the blocks freed for it have no
pages that are still in use. Where `exact` holds they are also as large as what was allocated. -/
structure ReleasesRange (s : UserMemory) (others : List DyadicBlock) (exact : Prop)
    (address length : ℕ) : Prop where
  end_le : address + length ≤ 2 ^ 47
  safe : ∀ i < maxMemoryMappingsPerProcess, ReleaseSafe s.pmm (Unclaimed s others) address
    (munmapEnd address length) (s.memoryMappings i)
  exact : exact → ∀ i < maxMemoryMappingsPerProcess,
    ReleaseExact s.pmm address (munmapEnd address length) (s.memoryMappings i)

/-- A successful call of `munmap`, or of `mmap` for pages without a file or with a copied one. -/
inductive MappingCall (fuel : ℕ) (others : List DyadicBlock) (exact : Prop)
    (s s' : UserMemory) : Prop
  | munmap (address length : ℕ) (hrange : ReleasesRange s others exact address length)
    (hrun : s.handleMunmap fuel address length = some (s', .ok ()))
  | mmap (files : ℕ → Option OpenFile)
    (address length protection flags fileDescriptor offset a : ℕ)
    (hfile : flags &&& linuxMapAnonymous = 0 → ∀ openFile, files fileDescriptor = some openFile →
      ∀ device, openFile.memoryMap ≠ some (.frameBuffer device))
    (hend : a + length ≤ 2 ^ 47)
    (hrange : flags &&& linuxMapFixed ≠ 0 →
      ReleasesRange s others exact address (alignUpToPageBoundary length))
    (hrun : s.handleMmap fuel files address length protection flags fileDescriptor offset =
      some (s', .ok a))

/-- Finitely many calls. -/
inductive MappingRun (fuel : ℕ) (others : List DyadicBlock) (exact : Prop) (s₀ : UserMemory) :
    UserMemory → Prop
  | refl : MappingRun fuel others exact s₀ s₀
  | step {s s' : UserMemory} (hrun : MappingRun fuel others exact s₀ s)
    (hcall : MappingCall fuel others exact s s') : MappingRun fuel others exact s₀ s'

variable {s s' s₀ : UserMemory} {tables P : List ℕ} {others : List DyadicBlock} {fuel : ℕ}

/-! ### Pages of the lower half -/

theorem pagePath_injective {v w : ℕ} (hv : v % pageSize = 0) (hw : w % pageSize = 0)
    (hv' : v < 2 ^ 47) (hw' : w < 2 ^ 47) (h : pagePath v = pagePath w) : v = w := by
  rw [pagePath_eq_iff] at h
  simp only [pageSize] at hv hw
  omega

theorem pagePath_page (v : ℕ) : pagePath (v - v % pageSize) = pagePath v := by
  rw [pagePath_eq_iff]
  simp only [pageSize]
  omega

theorem covers_page {mapping : ProcessMemoryMapping} {v : ℕ} (hreg : Regular mapping)
    (hv : Covers mapping v) :
    (v - v % pageSize) % pageSize = 0 ∧ Covers mapping (v - v % pageSize) := by
  have hstart := hreg.start_aligned
  obtain ⟨huse, hle, hlt⟩ := hv
  refine ⟨by simp only [pageSize]; omega, huse, ?_, by omega⟩
  simp only [pageSize] at *
  omega

/-- Rounding a length up does not leave the lower half. -/
theorem add_alignUpToPageBoundary_le {a length : ℕ} (ha : a % pageSize = 0)
    (h : a + length ≤ 2 ^ 47) : a + alignUpToPageBoundary length ≤ 2 ^ 47 := by
  rw [alignUpToPageBoundary_eq (by simp only [pageSize]; omega)]
  simp only [pageSize] at *
  omega

theorem le_alignUpToPageBoundary {a length : ℕ}
    (h : a + length ≤ 2 ^ 47) : length ≤ alignUpToPageBoundary length := by
  rw [alignUpToPageBoundary_eq (by simp only [pageSize]; omega)]
  simp only [pageSize]
  omega

theorem munmapEnd_eq {address length : ℕ} (ha : address % pageSize = 0)
    (h : address + length ≤ 2 ^ 47) :
    munmapEnd address length = address + alignUpToPageBoundary length := by
  have := add_alignUpToPageBoundary_le ha h
  rw [munmapEnd, u64]
  omega

/-! ### Pages that belong to no one -/

namespace MappingsOwned

/-- The pages allocated for mappings are those that are neither free nor allocated otherwise. -/
theorem mem_iff (h : MappingsOwned s tables P others) (k : ℕ) :
    k ∈ P ↔ k < s.pmm.memoryDescriptorInfo.totalNumberOfPages ∧ ¬ s.pmm.PageFree k ∧
      (∀ b ∈ others, ¬ b.Contains k) ∧
      ∀ p, reach s.pmm.lowerEntries 0 s.pageMapL4TableAddr p ≠ some (s.pmm.pageAddress k) := by
  obtain ⟨-, htables, hothers, hlt⟩ := h.tables.nodup
  have hfree := h.tables.valid.pageFree_iff k
  have hreach : (∀ p, reach s.pmm.lowerEntries 0 s.pageMapL4TableAddr p ≠
      some (s.pmm.pageAddress k)) ↔ k ∉ tables := by
    constructor
    · intro hnone hk
      obtain ⟨p, hp⟩ := (h.tables.mem_iff _).mpr ⟨k, hk, rfl⟩
      exact hnone p hp
    · intro hk p hp
      obtain ⟨k', hk', heq⟩ := h.tables.page_of_reach hp
      rw [s.pmm.pageAddress_injective heq] at hk
      exact hk hk'
  rw [hreach]
  constructor
  · intro hk
    refine ⟨hlt k hk, ?_, hothers k hk, htables k hk⟩
    rw [hfree]
    rintro ⟨-, hnone⟩
    exact hnone ⟨k, 0⟩ (by simp [mem_unitBlocks, hk]) (DyadicBlock.contains_start ⟨k, 0⟩)
  · rintro ⟨hk, hallocated, hother, htable⟩
    rw [hfree, not_and] at hallocated
    obtain ⟨b, hb, hcontains⟩ : ∃ b ∈ unitBlocks tables ++ (unitBlocks P ++ others),
        b.Contains k := by simpa using hallocated hk
    rcases List.mem_append.mp hb with hb | hb
    · obtain ⟨k', hk', rfl⟩ := mem_unitBlocks.mp hb
      obtain rfl : k = k' := DyadicBlock.contains_unit.mp hcontains
      exact absurd hk' htable
    · rcases List.mem_append.mp hb with hb | hb
      · obtain ⟨k', hk', rfl⟩ := mem_unitBlocks.mp hb
        obtain rfl : k = k' := DyadicBlock.contains_unit.mp hcontains
        exact hk'
      · exact absurd hcontains (hother b hb)

theorem unclaimed_iff (h : MappingsOwned s tables P others) (k : ℕ) :
    Unclaimed s others k ↔ Spare s P k := by
  rw [Spare, h.mem_iff, Unclaimed]
  simp only [and_assoc]

end MappingsOwned

/-! ### The invariant of runs -/

/-- What holds between the calls of a run: all records are those of allocated pages of the lower
half, and the page tables map them. -/
structure RunInvariant (s : UserMemory) (tables P : List ℕ) (others : List DyadicBlock) : Prop where
  owned : MappingsOwned s tables P others
  anonymous : ∀ i < maxMemoryMappingsPerProcess, (s.memoryMappings i).inUse = true →
    (s.memoryMappings i).isAnonymous = true
  lt : ∀ i < maxMemoryMappingsPerProcess, ∀ v, Covers (s.memoryMappings i) v → v < 2 ^ 47
  mapped : ∀ i < maxMemoryMappingsPerProcess, ∀ v, v % pageSize = 0 →
    Covers (s.memoryMappings i) v → ∃ tags : List PageTag,
      lookup s.pmm.lowerEntries 0 s.pageMapL4TableAddr (pagePath v) =
        some (tags, (s.memoryMappings i).physicalOf v, [])

namespace RunInvariant

section

variable (h : RunInvariant s tables P others)

include h

/-- A page of a record is apart from the pages of a range without records. -/
theorem apart {i v w start length : ℕ} (hi : i < maxMemoryMappingsPerProcess)
    (hv : v % pageSize = 0) (hcovers : Covers (s.memoryMappings i) v)
    (hend : start + length ≤ 2 ^ 47)
    (hfree : ∀ u, start ≤ u → u < start + length → ¬ Covers (s.memoryMappings i) u)
    (hw : PageOf start length w) : s.pmm.Apart s.pageMapL4TableAddr (pagePath v) (pagePath w) := by
  obtain ⟨tags, hl⟩ := h.mapped i hi v hv hcovers
  obtain ⟨hwmod, hle, hlt⟩ := hw
  intro l hl' hpre
  obtain rfl := Option.some.inj (hl.symm.trans hl')
  have hpath : pagePath v = pagePath w :=
    hpre.eq_of_length (by simp [length_pagePath])
  have := h.lt i hi v hcovers
  obtain rfl := pagePath_injective hv hwmod this (by omega) hpath
  exact hfree v hle hlt hcovers

/-- A successful `munmap` keeps the invariant; the pages of the range that had a record are no
longer mapped. -/
theorem handleMunmap {exact : Prop} {address length : ℕ} (haddress : address % pageSize = 0)
    (hrange : ReleasesRange s others exact address length)
    (hfuel : s.pmm.memoryDescriptorInfo.totalNumberOfPages < fuel)
    (hrun : s.handleMunmap fuel address length = some (s', .ok ())) :
    ∃ P', RunInvariant s' tables P' others ∧
      s'.addressSpace = s.addressSpace ∧ s.pmm.KeepsProtected s'.pmm others ∧
      (∀ i < maxMemoryMappingsPerProcess, ∀ v,
        address ≤ v → v < address + alignUpToPageBoundary length →
          ¬ Covers (s'.memoryMappings i) v) ∧
      (∀ i < maxMemoryMappingsPerProcess, ∀ v, v % pageSize = 0 → address ≤ v →
        v < address + alignUpToPageBoundary length → Covers (s.memoryMappings i) v →
          lookup s'.pmm.lowerEntries 0 s.pageMapL4TableAddr (pagePath v) = none) ∧
      (exact → P.length = sumRecords blockPages s.memoryMappings →
        P'.length = sumRecords blockPages s'.memoryMappings) := by
  have hend := munmapEnd_eq haddress hrange.end_le
  have hle47 := add_alignUpToPageBoundary_le haddress hrange.end_le
  obtain ⟨P', howned, -, hspace, hkeeps, hrecords, hclears, hcount⟩ := h.owned.handleMunmap
    (fun i hi hover hanon haccepted k hk => (hrange.safe i hi hover hanon haccepted k hk).imp_right
      (h.owned.unclaimed_iff k).mp) hfuel hrun
  rw [hend] at hrecords hclears
  have hroot : s'.pageMapL4TableAddr = s.pageMapL4TableAddr := by
    simp only [pageMapL4TableAddr, hspace]
  refine ⟨P', ⟨howned, fun j hj huse => ?_, fun j hj v hcovers => ?_, fun j hj v hv hcovers => ?_⟩,
    hspace, hkeeps.mono fun b hb => List.mem_append_right _ hb, fun j hj v hle hlt hcovers => ?_,
    fun i hi v hv hle hlt hcovers => ?_, fun hex hlen => ?_⟩
  · obtain ⟨⟨i, hi, d, hpiece⟩, -⟩ := hrecords j hj huse
    exact hpiece.isAnonymous.trans (h.anonymous i hi hpiece.inUse)
  · obtain ⟨⟨i, hi, d, hpiece⟩, -⟩ := hrecords j hj hcovers.1
    exact h.lt i hi v (hpiece.covers hcovers)
  · obtain ⟨⟨i, hi, d, hpiece⟩, hout⟩ := hrecords j hj hcovers.1
    have hcovers' := hpiece.covers hcovers
    obtain ⟨tags, hl⟩ := h.mapped i hi v hv hcovers'
    refine ⟨tags, ?_⟩
    rw [hroot, (hclears _ (length_pagePath v)).1, hl,
      hpiece.physicalOf_eq (h.anonymous i hi hpiece.inUse) hcovers]
    rintro ⟨i', hi', w, hw, hle, hlt, hcoversw, hpath⟩
    have := h.lt i hi v hcovers'
    obtain rfl := pagePath_injective hv hw this (by omega) hpath
    have := hout v hcovers
    omega
  · have := (hrecords j hj hcovers.1).2 v hcovers
    omega
  · obtain ⟨tags, hl⟩ := h.mapped i hi v hv hcovers
    exact hclears.lookup_eq_none (length_pagePath v) ⟨i, hi, v, hv, hle, hlt, hcovers, rfl⟩ hl
  · have := hcount fun i hi => hrange.exact hex i hi
    omega

/-- A successful `mapNewPages` at a range without records keeps the invariant. -/
theorem mapNewPages {start length protection a : ℕ} {contents : Except LinuxError (ℕ → ℕ)}
    (hstart : start % pageSize = 0) (hlength : length % pageSize = 0) (hpos : 0 < length)
    (hend : start + length ≤ 2 ^ 47)
    (hfree : ∀ i < maxMemoryMappingsPerProcess, ∀ v, start ≤ v → v < start + length →
      ¬ Covers (s.memoryMappings i) v)
    (hfuel : s.pmm.memoryDescriptorInfo.totalNumberOfPages < fuel)
    (hrun : s.mapNewPages fuel start length protection contents = some (s', .ok a)) :
    ∃ tables' P', RunInvariant s' tables' P' others ∧
      s'.addressSpace = s.addressSpace ∧ s.pmm.KeepsProtected s'.pmm others ∧
      (P.length = sumRecords blockPages s.memoryMappings →
        P'.length = sumRecords blockPages s'.memoryMappings) := by
  obtain ⟨tables', P', howned, hchanges, -, hok⟩ := h.owned.mapNewPages hstart hlength hpos
    (by omega) (by omega) (fun v hv => pml4Index_lt_of_lt (by have := hv.2.2; omega))
    (fun i hi _ => hfree i hi) hfuel hrun
  obtain ⟨rfl, i, hi, k, hempty, hmaps, hP', hmapped⟩ := hok a rfl
  replace hmapped := hmapped fun v w hv hw => pagePath_injective hv.1 hw.1
    (by have := hv.2.2; omega) (by have := hw.2.2; omega)
  have hroot : s'.pageMapL4TableAddr = s.pageMapL4TableAddr := by
    simp only [pageMapL4TableAddr, hchanges.addressSpace]
  have hrecord : ∀ j, s'.memoryMappings j = if j = i then
      ⟨true, a, length, s.pmm.pageAddress k, true⟩ else s.memoryMappings j := by
    intro j
    rw [hmaps]
    by_cases hji : j = i
    · rw [if_pos hji, hji, Function.update_self]
    · rw [if_neg hji, Function.update_of_ne hji]
  refine ⟨tables', P', ⟨howned, fun j hj huse => ?_, fun j hj v hcovers => ?_,
    fun j hj v hv hcovers => ?_⟩, hchanges.addressSpace,
    hchanges.keeps.mono fun b hb => List.mem_append_right _ hb, fun hlen => ?_⟩
  · rw [hrecord] at huse ⊢
    split_ifs at huse ⊢
    · rfl
    · exact h.anonymous j hj huse
  · rw [hrecord] at hcovers
    split_ifs at hcovers
    · obtain ⟨-, -, hlt⟩ := hcovers
      dsimp only at hlt
      omega
    · exact h.lt j hj v hcovers
  · rw [hrecord] at hcovers ⊢
    rw [hroot]
    split_ifs at hcovers ⊢
    · obtain ⟨-, hle, hlt⟩ := hcovers
      exact hmapped v ⟨hv, hle, hlt⟩
    · obtain ⟨tags, hl⟩ := h.mapped j hj v hv hcovers
      obtain ⟨⟨tags', l⟩, hl', hsame, -⟩ := hchanges.leafKept _ (length_pagePath v)
        (fun w hw => h.apart hj hv hcovers hend (hfree j hj) hw) _ hl
      obtain rfl : l = _ := hsame
      exact ⟨tags', hl'⟩
  · have hsum := sumRecords_update blockPages s.memoryMappings hi
      ⟨true, a, length, s.pmm.pageAddress k, true⟩
    rw [← hmaps] at hsum
    have hold : blockPages (s.memoryMappings i) = 0 := if_neg (by simp [hempty])
    have hnew : blockPages ⟨true, a, length, s.pmm.pageAddress k, true⟩ =
        2 ^ ceilLog2Pages (length / pageSize) := if_pos ⟨rfl, rfl⟩
    have hsize : (DyadicBlock.elements
        ⟨k, ceilLog2Pages (length / pageSize)⟩).length =
        2 ^ ceilLog2Pages (length / pageSize) := by
      simp [DyadicBlock.elements]
    rw [hP', List.length_append]
    omega

end

end RunInvariant

theorem handleMunmap_ok {address length : ℕ}
    (hrun : s.handleMunmap fuel address length = some (s', .ok ())) : address % pageSize = 0 := by
  by_contra haddress
  unfold handleMunmap at hrun
  rw [if_pos haddress] at hrun
  split_ifs at hrun <;> simp at hrun

theorem chooseMappingStart_ok {address length flags start : ℕ}
    (hrun : s.chooseMappingStart fuel address length flags = some (s', .ok start)) :
    start % pageSize = 0 := by
  unfold chooseMappingStart at hrun
  dsimp only at hrun
  split_ifs at hrun with hfixed haddress hreserved hne
  · simp at hrun
  · simp at hrun
  · rw [not_not] at haddress
    rcases hmunmap : s.handleMunmap fuel address length with _ | ⟨s₂, error | _⟩
    · simp [hmunmap] at hrun
    · simp [hmunmap] at hrun
    · rw [hmunmap] at hrun
      obtain ⟨-, rfl⟩ : s₂ = s' ∧ address = start := by simpa using hrun
      exact haddress
  · simp at hrun
  · obtain ⟨-, rfl⟩ : s = s' ∧ s.findFreeMappingAddress address length = start := by
      simpa using hrun
    exact (findFreeMappingAddress_spec rfl hne).1

/-- What `mmap` does when it succeeds for a file that is copied. -/
theorem handleMmap_ok {files : ℕ → Option OpenFile}
    {address length protection flags fileDescriptor offset a : ℕ}
    (hfile : flags &&& linuxMapAnonymous = 0 → ∀ openFile, files fileDescriptor = some openFile →
      ∀ device, openFile.memoryMap ≠ some (.frameBuffer device))
    (hrun : s.handleMmap fuel files address length protection flags fileDescriptor offset =
      some (s', .ok a)) :
    alignUpToPageBoundary length ≠ 0 ∧ ∃ s₁ start contents,
      s.chooseMappingStart fuel address (alignUpToPageBoundary length) flags =
        some (s₁, .ok start) ∧
      s₁.mapNewPages fuel start (alignUpToPageBoundary length) protection contents =
        some (s', .ok a) := by
  unfold handleMmap at hrun
  dsimp only at hrun
  rcases hchoose : s.chooseMappingStart fuel address (alignUpToPageBoundary length) flags with
    _ | ⟨s₁, error | start⟩ <;> rw [hchoose] at hrun <;> dsimp only at hrun
  · split_ifs at hrun <;> simp at hrun
  · split_ifs at hrun <;> simp at hrun
  split_ifs at hrun with h0 hoffset hsharing hlength hanonymous hdescriptor
  · simp at hrun
  · simp at hrun
  · simp at hrun
  · simp at hrun
  · exact ⟨hlength, s₁, start, _, rfl, hrun⟩
  · simp at hrun
  refine ⟨hlength, ?_⟩
  cases hopen : files fileDescriptor with
  | none => simp [hopen] at hrun
  | some openFile =>
    rw [hopen] at hrun
    dsimp only at hrun
    rcases hmap : openFile.memoryMap with _ | (_ | error | device)
    · simp [hmap] at hrun
    · rw [hmap] at hrun
      dsimp only at hrun
      split_ifs at hrun
      · exact ⟨s₁, start, _, rfl, hrun⟩
      · simp at hrun
    · simp [hmap] at hrun
    · exact absurd hmap (hfile (by simpa using hanonymous) openFile hopen device)

/-- The address that `mmap` returns is the start of the range. -/
theorem mapNewPages_ok {start length protection a : ℕ} {contents : Except LinuxError (ℕ → ℕ)}
    (hrun : s.mapNewPages fuel start length protection contents = some (s', .ok a)) :
    a = start := by
  unfold mapNewPages at hrun
  dsimp only at hrun
  have hfailed : ∀ {x : UserMemory} {address count} {e : LinuxError},
      (x.freePages fuel address count).map (fun s => (s, Except.error e)) ≠ some (s', .ok a) := by
    intro x address count e h
    obtain ⟨y, -, hy⟩ := Option.map_eq_some_iff.mp h
    simp at hy
  split at hrun
  · simp at hrun
  split at hrun
  · exact absurd hrun hfailed
  split_ifs at hrun
  · exact absurd hrun hfailed
  split at hrun
  · exact absurd hrun hfailed
  split at hrun
  · exact absurd hrun hfailed
  · exact (Except.ok.inj (Prod.mk.inj (Option.some.inj hrun)).2).symm

/-- No record covers an address of the range that the search has found. -/
theorem MappingsOwned.not_covers_findFreeMappingAddress {address length : ℕ}
    (h : MappingsOwned s tables P others) (hpos : length ≠ 0)
    (hend : s.findFreeMappingAddress address length + length ≤ 2 ^ 47)
    (hne : ¬ s.findFreeMappingAddress address length = 0) :
    ∀ i < maxMemoryMappingsPerProcess, ∀ v, s.findFreeMappingAddress address length ≤ v →
      v < s.findFreeMappingAddress address length + length → ¬ Covers (s.memoryMappings i) v := by
  intro i hi v hle hlt hcovers
  obtain ⟨-, hcandidate⟩ := findFreeMappingAddress_spec rfl hne
  have hreg := h.regular i hi hcovers.1
  have hmem : ((s.memoryMappings i).virtualAddressStart, (s.memoryMappings i).length) ∈
      s.occupiedRanges := by
    refine List.mem_append_right _ (List.mem_map.mpr ⟨s.memoryMappings i, ?_, rfl⟩)
    exact List.mem_filter.mpr ⟨List.mem_map.mpr ⟨i, mem_slots.mpr hi, rfl⟩, hcovers.1⟩
  have hend_lt := hreg.end_lt
  obtain ⟨-, -, hapart⟩ := rangesOverlap_eq_false hpos (by omega) (by omega)
    hreg.length_pos.ne' ((isFreeCandidate_spec hcandidate).1 _ hmem hreg.length_pos.ne')
    (by omega) (by omega)
  obtain ⟨-, hle', hlt'⟩ := hcovers
  omega

/-- The range at which a new mapping is placed has no record in it. -/
theorem RunInvariant.chooseMappingStart {s₁ : UserMemory} {exact : Prop}
    {address length flags start : ℕ} (h : RunInvariant s tables P others)
    (hlength : length % pageSize = 0) (hpos : length ≠ 0) (hend : start + length ≤ 2 ^ 47)
    (hrange : flags &&& linuxMapFixed ≠ 0 → ReleasesRange s others exact address length)
    (hfuel : s.pmm.memoryDescriptorInfo.totalNumberOfPages < fuel)
    (hrun : s.chooseMappingStart fuel address length flags = some (s₁, .ok start)) :
    ∃ P₁, RunInvariant s₁ tables P₁ others ∧ start % pageSize = 0 ∧
      s₁.addressSpace = s.addressSpace ∧ s.pmm.KeepsProtected s₁.pmm others ∧
      (∀ i < maxMemoryMappingsPerProcess, ∀ v, start ≤ v → v < start + length →
        ¬ Covers (s₁.memoryMappings i) v) ∧
      (exact → P.length = sumRecords blockPages s.memoryMappings →
        P₁.length = sumRecords blockPages s₁.memoryMappings) := by
  have hup : alignUpToPageBoundary length = length := by
    rw [alignUpToPageBoundary_eq (by simp only [pageSize]; omega)]
    simp only [pageSize] at *
    omega
  unfold UserMemory.chooseMappingStart at hrun
  dsimp only at hrun
  split_ifs at hrun with hfixed haddress hreserved
  · simp at hrun
  · simp at hrun
  · rcases hmunmap : s.handleMunmap fuel address length with _ | ⟨s₂, error | _⟩
    · simp [hmunmap] at hrun
    · simp [hmunmap] at hrun
    · rw [hmunmap] at hrun
      obtain ⟨rfl, rfl⟩ : s₂ = s₁ ∧ address = start := by simpa using hrun
      rw [not_not] at haddress
      obtain ⟨P₁, hinv, hspace, hkeeps, hfree, -, hcount⟩ :=
        h.handleMunmap haddress (hrange hfixed) hfuel hmunmap
      rw [hup] at hfree
      exact ⟨P₁, hinv, haddress, hspace, hkeeps, hfree, hcount⟩
  · simp at hrun
  · rename_i hne
    obtain ⟨rfl, rfl⟩ : s = s₁ ∧ s.findFreeMappingAddress address length = start := by
      simpa using hrun
    exact ⟨P, h, (findFreeMappingAddress_spec rfl hne).1, rfl, .refl _ _,
      h.owned.not_covers_findFreeMappingAddress hpos hend hne, fun _ hlen => hlen⟩

/-- A call keeps the invariant, and the other blocks as they are. -/
theorem RunInvariant.call {exact : Prop} (h : RunInvariant s tables P others)
    (hfuel : s.pmm.memoryDescriptorInfo.totalNumberOfPages < fuel)
    (hcall : MappingCall fuel others exact s s') :
    ∃ tables' P', RunInvariant s' tables' P' others ∧ s'.addressSpace = s.addressSpace ∧
      s.pmm.KeepsProtected s'.pmm others ∧
      (exact → P.length = sumRecords blockPages s.memoryMappings →
        P'.length = sumRecords blockPages s'.memoryMappings) := by
  cases hcall with
  | munmap address length hrange hrun =>
    obtain ⟨P', hinv, hspace, hkeeps, -, -, hcount⟩ :=
      h.handleMunmap (handleMunmap_ok hrun) hrange hfuel hrun
    exact ⟨tables, P', hinv, hspace, hkeeps, hcount⟩
  | mmap files address length protection flags fileDescriptor offset a hfile hend hrange hrun =>
    obtain ⟨hne, s₁, start, contents, hchoose, hnew⟩ := handleMmap_ok hfile hrun
    obtain rfl := mapNewPages_ok hnew
    have hmod := alignUpToPageBoundary_mod length
    have hend' := add_alignUpToPageBoundary_le (chooseMappingStart_ok hchoose) hend
    obtain ⟨P₁, hinv, hstart, hspace, hkeeps, hfree, hcount⟩ :=
      h.chooseMappingStart hmod hne hend' hrange hfuel hchoose
    obtain ⟨tables', P', hinv', hspace', hkeeps', hcount'⟩ := hinv.mapNewPages hstart hmod
      (Nat.pos_of_ne_zero hne) hend' hfree (by rwa [hkeeps.total]) hnew
    exact ⟨tables', P', hinv', hspace'.trans hspace, hkeeps.trans hkeeps', fun hex hlen =>
      hcount' (hcount hex hlen)⟩

theorem sumRecords_eq_zero
    (hempty : ∀ i < maxMemoryMappingsPerProcess, (s.memoryMappings i).inUse = false) :
    sumRecords blockPages s.memoryMappings = 0 :=
  Finset.sum_eq_zero fun i hi => if_neg (by simp [hempty i (Finset.mem_range.mp hi)])

/-- Every reached state satisfies the invariant. -/
theorem MappingRun.runInvariant {exact : Prop} {tables₀ : List ℕ}
    (hstart : RunInvariant s₀ tables₀ [] others)
    (hfuel : s₀.pmm.memoryDescriptorInfo.totalNumberOfPages < fuel)
    (hempty : sumRecords blockPages s₀.memoryMappings = 0)
    (hrun : MappingRun fuel others exact s₀ s) :
    ∃ tables P, RunInvariant s tables P others ∧ s.addressSpace = s₀.addressSpace ∧
      s₀.pmm.KeepsProtected s.pmm others ∧
      (exact → P.length = sumRecords blockPages s.memoryMappings) := by
  induction hrun with
  | refl => exact ⟨tables₀, [], hstart, rfl, .refl _ _, fun _ => hempty.symm⟩
  | step hrun hcall ih =>
    obtain ⟨tables, P, hinv, hspace, hkeeps, hcount⟩ := ih
    obtain ⟨tables', P', hinv', hspace', hkeeps', hcount'⟩ :=
      hinv.call (by rwa [hkeeps.total]) hcall
    exact ⟨tables', P', hinv', hspace'.trans hspace, hkeeps.trans hkeeps', fun hex =>
      hcount' hex (hcount hex)⟩

theorem RunInvariant.of_empty (htables : s.pmm.Tables s.pageMapL4TableAddr tables others)
    (hempty : ∀ i < maxMemoryMappingsPerProcess, (s.memoryMappings i).inUse = false) :
    RunInvariant s tables [] others := by
  have hnone : ∀ {i v}, i < maxMemoryMappingsPerProcess → ¬ Covers (s.memoryMappings i) v := by
    rintro i v hi ⟨huse, -⟩
    simp [hempty i hi] at huse
  refine ⟨⟨by simpa [unitBlocks] using htables, fun i hi huse => ?_, fun i hi v _ hcovers => ?_,
    fun i hi j _ _ _ _ v hcovers => ?_, fun i hi _ v _ hcovers => ?_,
    fun i hi j _ k v w _ _ _ _ hcovers => ?_⟩, fun i hi huse => ?_, fun i hi v hcovers => ?_,
    fun i hi v _ hcovers => ?_⟩
  · simp [hempty i hi] at huse
  · exact absurd hcovers (hnone hi)
  · exact absurd hcovers (hnone hi)
  · exact absurd hcovers (hnone hi)
  · exact absurd hcovers (hnone hi)
  · simp [hempty i hi] at huse
  · exact absurd hcovers (hnone hi)
  · exact absurd hcovers (hnone hi)

theorem RunInvariant.toExactlyOwned (h : RunInvariant s tables P others) :
    ExactlyOwned s others := by
  refine ⟨fun i hi j hj hij v hv hw => ?_, fun i hi hanon v hv => ?_,
    fun i hi hanon v hmod hv => ?_, fun i hi j hj hanon hanon' v w hmod hmod' hv hw heq => ?_⟩
  · exact h.owned.once i hi j hj hij (h.anonymous i hi hv.1) (h.anonymous j hj hw.1) v hv hw
  · obtain ⟨hmod, hcovers⟩ := covers_page (h.owned.regular i hi hv.1) hv
    obtain ⟨tags, hl⟩ := h.mapped i hi _ hmod hcovers
    have hle := hcovers.2.1
    rw [pagePath_page] at hl
    simp only [PhysicalMemoryManager.translate, hl, Option.map_some, List.length_nil, pow_zero,
      Nat.mul_one, physicalOf, pageSize, Option.some.injEq] at hle ⊢
    omega
  · obtain ⟨k, hk, hphys⟩ := h.owned.owned i hi hanon v hmod hv
    obtain ⟨hlt, hallocated, hother, htable⟩ := (h.owned.mem_iff k).mp hk
    exact ⟨k, hlt, hphys, hallocated, hother, htable⟩
  · obtain ⟨k, -, hphys⟩ := h.owned.owned i hi hanon v hmod hv
    obtain rfl := h.owned.injective i hi j hj k v w hmod hmod' hanon hanon' hv hw hphys
      (heq.symm.trans hphys)
    refine ⟨?_, rfl⟩
    by_contra hij
    exact h.owned.once i hi j hj hij hanon hanon' v hv hw

/-- In every state that successful calls reach from a process without mappings, the mappings own
their pages; a page of a mapping is not mapped any more after `munmap`; and if the calls have given
back as much as they had taken, all pages are free again that have not become page tables. -/
theorem MappingRun.exactlyOwned {exact : Prop} {tables₀ : List ℕ}
    (htables : s₀.pmm.Tables s₀.pageMapL4TableAddr tables₀ others)
    (hempty : ∀ i < maxMemoryMappingsPerProcess, (s₀.memoryMappings i).inUse = false)
    (hfuel : s₀.pmm.memoryDescriptorInfo.totalNumberOfPages < fuel)
    (hrun : MappingRun fuel others exact s₀ s) :
    ExactlyOwned s others ∧
    (∀ address length s', ReleasesRange s others exact address length →
      s.handleMunmap fuel address length = some (s', .ok ()) →
      ∀ i < maxMemoryMappingsPerProcess, ∀ v, address ≤ v → v < address + length →
        Covers (s.memoryMappings i) v →
          s'.pmm.translate s'.pageMapL4TableAddr v = none) ∧
    (exact → (∀ i < maxMemoryMappingsPerProcess, (s.memoryMappings i).inUse = false) →
      ∃ tables, s.pmm.Tables s.pageMapL4TableAddr tables others ∧
        s.pmm.memoryDescriptorInfo.numberOfFreePages + tables.length =
          s₀.pmm.memoryDescriptorInfo.numberOfFreePages + tables₀.length) := by
  have hempty₀ : sumRecords blockPages s₀.memoryMappings = 0 :=
    sumRecords_eq_zero hempty
  obtain ⟨tables, P, hinv, hspace, hkeeps, hcount⟩ :=
    hrun.runInvariant (.of_empty htables hempty) hfuel hempty₀
  refine ⟨hinv.toExactlyOwned, fun address length s' hrange hmunmap i hi v hle hlt hcovers => ?_,
    fun hex hnone => ⟨tables, ?_⟩⟩
  · obtain ⟨P', -, hspace', -, -, hnone, -⟩ := hinv.handleMunmap (handleMunmap_ok hmunmap) hrange
      (by rwa [hkeeps.total]) hmunmap
    obtain ⟨hmod, hcovers'⟩ := covers_page (hinv.owned.regular i hi hcovers.1) hcovers
    have haddress := handleMunmap_ok hmunmap
    have hlength := le_alignUpToPageBoundary hrange.end_le
    have hl := hnone i hi _ hmod (by simp only [pageSize] at *; omega) (by omega) hcovers'
    rw [pagePath_page] at hl
    rw [PhysicalMemoryManager.translate, pageMapL4TableAddr, hspace', ← pageMapL4TableAddr, hl,
      Option.map_none]
  · obtain rfl : P = [] := by
      rw [← List.length_eq_zero_iff, hcount hex]
      exact sumRecords_eq_zero hnone
    have htables' : s.pmm.Tables s.pageMapL4TableAddr tables others := hinv.owned.tables
    refine ⟨htables', ?_⟩
    have hsum := htables'.valid.numberOfFreePages_add
    have hsum₀ := htables.valid.numberOfFreePages_add
    rw [List.map_append, List.sum_append, sum_size_unitBlocks] at hsum hsum₀
    have := hkeeps.total
    omega

/-- A process without mappings on seven pages of memory, one of which is its first table. -/
def sevenPagesProcess : UserMemory :=
  let r := allocatePagesFromDescriptor
    (initializeMemoryDescriptors sevenPages fun _ => 0) 1
  { pmm := r.1.fillPages r.2 1 fun _ => 0
    addressSpace := ⟨[], 0, 0, 0, 0, 0, 0, 0, r.2⟩
    memoryMappings := fun _ => .empty
    programBreak := 0 }

/-- The process after a request for one page. -/
def onePageProcess : UserMemory :=
  ((sevenPagesProcess.handleMmap 8 (fun _ => none) 0 pageSize 3
    (linuxMapPrivate ||| linuxMapAnonymous) 0 0).map Prod.fst).getD sevenPagesProcess

theorem eq_some_getD {α β : Type*} {o : Option (α × β)} {b : β} (d : α)
    (h : o.map Prod.snd = some b) : o = some ((o.map Prod.fst).getD d, b) := by
  obtain ⟨⟨a, _⟩, rfl, rfl⟩ := Option.map_eq_some_iff.mp h
  rfl

private theorem handleMmap_sevenPagesProcess :
    sevenPagesProcess.handleMmap 8 (fun _ => none) 0 pageSize 3
      (linuxMapPrivate ||| linuxMapAnonymous) 0 0 = some (onePageProcess, .ok mmapHighBase) :=
  eq_some_getD sevenPagesProcess (by decide +kernel)

theorem tables_sevenPagesProcess :
    sevenPagesProcess.pmm.Tables sevenPagesProcess.pageMapL4TableAddr [6] [] := by
  obtain ⟨m, hm⟩ : ∃ m, m = initializeMemoryDescriptors
    sevenPages fun _ => 0 := ⟨_, rfl⟩
  have hvalid : Valid m [] :=
    hm ▸ (valid_initializeMemoryDescriptors _ _ (by decide) (by decide)).1
  have haddress : (m.allocatePagesFromDescriptor 1).2 = 0x106000 := by
    rw [hm]
    decide +kernel
  have hinfo : m.memoryDescriptorInfo.physicalAddressStart = 0x100000 ∧
      m.memoryDescriptorInfo.totalNumberOfPages = 7 := by
    rw [hm]
    decide +kernel
  rcases hvalid.allocate 1 with hfail | ⟨m', i, halloc, hvalid', hkeeps⟩
  · rw [hfail] at haddress
    simp at haddress
  · rw [halloc] at haddress
    obtain rfl : i = 6 := by
      simp only [pageAddress, hinfo.1, pageSize] at haddress
      omega
    have hprocess : sevenPagesProcess = ⟨m'.fillPages (m.pageAddress 6) 1 fun _ => 0,
        ⟨[], 0, 0, 0, 0, 0, 0, 0, m.pageAddress 6⟩, fun _ => .empty, 0⟩ := by
      rw [sevenPagesProcess, ← hm, halloc]
    rw [hprocess, ← hkeeps.pageAddress]
    rw [show ceilLog2Pages 1 = 0 by decide] at hvalid'
    refine Tables.fresh (hvalid'.write fun a ha => ?_) ?_ ?_ fun j => ?_
    · exact fillPages_memory (show 1 ≤ DyadicBlock.size ⟨6, 0⟩ by simp)
        (fun _ => 0) (ha _ (by simp))
    · change m'.memoryDescriptorInfo.physicalAddressStart % pageSize = 0
      rw [hkeeps.start, hinfo.1]
      decide
    · change m'.pageAddress m'.memoryDescriptorInfo.totalNumberOfPages ≤ pmmBuddyPhysicalLimit
      rw [hkeeps.pageAddress, hkeeps.total, hinfo.2, pageAddress, hinfo.1]
      decide
    · have := j.isLt
      change (m'.fillPages (m'.pageAddress 6) 1 fun _ => 0).entry (m'.pageAddress 6) j = 0
      rw [entry, fillPages]
      dsimp only
      exact if_pos ⟨by omega, by simp only [pageSize]; omega⟩

/-- The process after a request for two pages. -/
def twoPagesProcess : UserMemory :=
  ((sevenPagesProcess.handleMmap 8 (fun _ => none) 0 (2 * pageSize) 3
    (linuxMapPrivate ||| linuxMapAnonymous) 0 0).map Prod.fst).getD sevenPagesProcess

/-- The process after the second page has been unmapped. -/
def trimmedProcess : UserMemory :=
  ((twoPagesProcess.handleMunmap 8 (mmapHighBase + pageSize) pageSize).map Prod.fst).getD
    twoPagesProcess

instance (m : PhysicalMemoryManager) (unmapStart unmapEnd : ℕ) (mapping : ProcessMemoryMapping) :
    Decidable (ReleaseExact m unmapStart unmapEnd mapping) :=
  inferInstanceAs (Decidable (_ → _ → _ ∧ _))

/-- A block that is not larger than the part of the record has no other pages. -/
theorem releaseSafe_of_size_le {m : PhysicalMemoryManager} {spare : ℕ → Prop}
    {unmapStart unmapEnd : ℕ} {mapping : ProcessMemoryMapping}
    (h : overlapsRange unmapStart unmapEnd mapping = true →
      2 ^ ceilLog2Pages (releaseCount unmapStart unmapEnd mapping) ≤
        releaseCount unmapStart unmapEnd mapping) :
    ReleaseSafe m spare unmapStart unmapEnd mapping :=
  fun hover _ _ _ hk => .inl (hk.2.trans_le (Nat.add_le_add_left (h hover) _))

private theorem run_trimmedProcess : MappingRun 8 [] True sevenPagesProcess trimmedProcess := by
  refine .step (.step .refl (.mmap (fun _ => none) 0 (2 * pageSize) 3
    (linuxMapPrivate ||| linuxMapAnonymous) 0 0 mmapHighBase (fun h => absurd h (by decide))
    (by decide) (fun h => absurd h (by decide))
    (eq_some_getD sevenPagesProcess (by decide +kernel)))) ?_
  refine .munmap (mmapHighBase + pageSize) pageSize ⟨by decide, fun i hi =>
    releaseSafe_of_size_le ?_, fun _ => ?_⟩ (eq_some_getD twoPagesProcess (by decide +kernel))
  · revert i
    decide +kernel
  · decide +kernel

/-- One of two pages is unmapped, and then the other. -/
theorem MappingRun.exactlyOwned_trimmedProcess : ExactlyOwned trimmedProcess [] ∧ ∃ s,
    trimmedProcess.handleMunmap 8 mmapHighBase pageSize = some (s, .ok ()) ∧
    s.pmm.translate s.pageMapL4TableAddr mmapHighBase = none ∧
    ∃ tables, s.pmm.Tables s.pageMapL4TableAddr tables [] ∧
      s.pmm.memoryDescriptorInfo.numberOfFreePages + tables.length = 7 := by
  have hcall := eq_some_getD trimmedProcess (show (trimmedProcess.handleMunmap 8 mmapHighBase
    pageSize).map Prod.snd = some (.ok ()) by decide +kernel)
  have hrange : ReleasesRange trimmedProcess [] True mmapHighBase pageSize := by
    refine ⟨by decide, fun i hi => releaseSafe_of_size_le ?_, fun _ => ?_⟩
    · revert i
      decide +kernel
    · decide +kernel
  obtain ⟨howned, hnone, -⟩ := MappingRun.exactlyOwned tables_sevenPagesProcess (fun _ _ => rfl)
    (by decide) run_trimmedProcess
  refine ⟨howned, _, hcall, hnone _ _ _ hrange hcall 0 (by decide) _ le_rfl (by decide)
    ⟨by decide +kernel, by decide +kernel, by decide +kernel⟩, ?_⟩
  exact (MappingRun.exactlyOwned tables_sevenPagesProcess (fun _ _ => rfl) (by decide)
    (run_trimmedProcess.step (.munmap mmapHighBase pageSize hrange hcall))).2.2 trivial
      (by decide +kernel)

/-- When the page has been unmapped, three pages are not free that were free before: they have
become page tables. -/
theorem MappingRun.not_all_free : ∃ s,
    sevenPagesProcess.handleMmap 8 (fun _ => none) 0 pageSize 3
      (linuxMapPrivate ||| linuxMapAnonymous) 0 0 = some (onePageProcess, .ok mmapHighBase) ∧
    onePageProcess.handleMunmap 8 mmapHighBase pageSize = some (s, .ok ()) ∧
    s.pmm.memoryDescriptorInfo.numberOfFreePages + 3 =
      sevenPagesProcess.pmm.memoryDescriptorInfo.numberOfFreePages := by
  have hresult : (onePageProcess.handleMunmap 8 mmapHighBase pageSize).map (fun r =>
      (r.2, r.1.pmm.memoryDescriptorInfo.numberOfFreePages)) = some (.ok (), 3) := by
    decide +kernel
  obtain ⟨⟨s, r⟩, hrun, hr⟩ := Option.map_eq_some_iff.mp hresult
  obtain ⟨rfl, hfree⟩ := Prod.mk.inj hr
  refine ⟨s, handleMmap_sevenPagesProcess, hrun, ?_⟩
  rw [hfree]
  decide

end UserMemory

end TwistedOS
