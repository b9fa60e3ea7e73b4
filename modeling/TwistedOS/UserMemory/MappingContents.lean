import TwistedOS.Memory.PhysicalBytes
import TwistedOS.UserMemory.MappingRuns

/-!
# What a new mapping holds

The pages of a new mapping are filled before they are mapped, and the page tables that the mapping
needs are taken from other pages. The process therefore finds in the mapping what the pages were
filled with.

## Main definitions

* `UserMemory.userByte`: the byte that a process finds at an address.
* `UserMemory.MapsFile`: a file is mapped.

## Main results

* `UserMemory.userByte_mapNewPages`, `UserMemory.MapsFile.userByte`.
-/

namespace TwistedOS

open RadixTree ProcessMemoryMapping
open PhysicalMemoryManager

namespace UserMemory

/-- The byte that a process finds at an address of the lower half. -/
def userByte (s : UserMemory) (v : ℕ) : Option UInt8 :=
  (s.pmm.translate s.pageMapL4TableAddr v).map s.pmm.bytes

variable {s s' : UserMemory} {tables P : List ℕ} {others rest : List DyadicBlock}
  {fuel start length protection a : ℕ} {contents : Except LinuxError (ℕ → ℕ)}

/-- A successful `mapNewPages` allocates pages, fills them, maps all of them and registers them. -/
theorem mapNewPages_eq_some_ok
    (hrun : s.mapNewPages fuel start length protection contents = some (s', .ok a)) :
    a = start ∧ s'.pageMapL4TableAddr = s.pageMapL4TableAddr ∧ ∃ m physical words,
      s.pmm.allocatePagesFromDescriptor (length / pageSize) = (m, physical) ∧ physical ≠ 0 ∧
      contents = .ok words ∧
      mapPages s.pageMapL4TableAddr physical start
        ⟨true, decide (protection &&& linuxProtWrite ≠ 0)⟩ (length / pageSize) 0
        (m.fillPages physical (length / pageSize) words) = (s'.pmm, none) := by
  have hfailed : ∀ {x : UserMemory} {address count} {e : LinuxError},
      (x.freePages fuel address count).map (fun s => (s, Except.error e)) ≠ some (s', .ok a) := by
    intro x address count e h
    obtain ⟨y, -, hy⟩ := Option.map_eq_some_iff.mp h
    simp at hy
  unfold mapNewPages at hrun
  dsimp only at hrun
  split at hrun
  · simp at hrun
  next m physical hne halloc =>
  split at hrun
  · exact absurd hrun hfailed
  next words =>
  split_ifs at hrun
  · exact absurd hrun hfailed
  split at hrun
  · exact absurd hrun hfailed
  next m₃ hmap =>
  split at hrun
  · exact absurd hrun hfailed
  next s₄ hregister =>
  obtain ⟨rfl, rfl⟩ : s₄ = s' ∧ start = a := by simpa using hrun
  obtain ⟨i, -, -, rfl⟩ := registerProcessMapping_spec hregister
  exact ⟨rfl, rfl, m, physical, words, halloc, hne, rfl, hmap⟩

/-- A byte of pages that were filled and have kept their words. -/
theorem bytes_of_fillPages {m m' : PhysicalMemoryManager} {physical pages n : ℕ} {words : ℕ → ℕ}
    (hphysical : physical % pageSize = 0) (hn : n < pages * pageSize)
    (hkept : m'.physicalMemory ((physical + n) / 8 * 8) =
      (m.fillPages physical pages words).physicalMemory ((physical + n) / 8 * 8)) :
    m'.bytes (physical + n) = UInt8.ofNat (words (n / 8) / 256 ^ (n % 8)) := by
  have hword : (physical + n) / 8 * 8 = physical + n / 8 * 8 := by
    simp only [pageSize] at hphysical
    omega
  have hbyte : (physical + n) % 8 = n % 8 := by
    simp only [pageSize] at hphysical
    omega
  have hinside : physical ≤ physical + n / 8 * 8 ∧
      physical + n / 8 * 8 < physical + pages * pageSize := by omega
  rw [bytes, hkept, hword, hbyte, fillPages]
  dsimp only
  rw [if_pos hinside, Nat.add_sub_cancel_left, Nat.mul_div_cancel _ (by decide)]

/-- The process finds in a new mapping the words that its pages were filled with. -/
theorem userByte_mapNewPages (h : s.pmm.Tables s.pageMapL4TableAddr tables rest)
    (hstart : start % pageSize = 0) (hlength : length % pageSize = 0)
    (hend : start + length ≤ 2 ^ 47)
    (hrun : s.mapNewPages fuel start length protection contents = some (s', .ok a)) :
    ∃ words, contents = .ok words ∧ ∀ i < length,
      s'.userByte (a + i) = some (UInt8.ofNat (words (i / 8) / 256 ^ (i % 8))) := by
  obtain ⟨rfl, hroot, m, physical, words, halloc, hne, hwords, hmap⟩ :=
    mapNewPages_eq_some_ok hrun
  obtain ⟨count, hcount⟩ : ∃ count, length = count * pageSize :=
    ⟨length / pageSize, by simp only [pageSize] at *; omega⟩
  have hdiv : length / pageSize = count := by
    rw [hcount]
    exact Nat.mul_div_cancel _ (by decide)
  rw [hdiv] at halloc hmap
  refine ⟨words, hwords, fun i hi => ?_⟩
  -- the pages are a block of their own
  rcases h.allocate count with hfail | ⟨m₁, k, halloc₁, -, htables₁, hkeeps₁, -⟩
  · rw [hfail] at halloc
    exact absurd (Prod.mk.inj halloc).2.symm hne
  obtain ⟨rfl, rfl⟩ := Prod.mk.inj (halloc₁.symm.trans halloc)
  rw [← hkeeps₁.pageAddress] at hmap
  have hcount_le : count ≤ 2 ^ ceilLog2Pages count :=
    le_two_pow_ceilLog2Pages (by simp only [pageSize] at *; omega)
  have hend_le := htables₁.valid.end_le (List.mem_append_right _ List.mem_cons_self)
  simp only [DyadicBlock.size_mk] at hend_le
  have hj : i / pageSize < count := by
    rw [Nat.div_lt_iff_lt_mul (by decide)]
    omega
  obtain ⟨hphys, hphysical, hlimit⟩ := htables₁.nextPage_spec (k := k) (i := i / pageSize) (by omega)
  obtain ⟨hfill, -, -⟩ := htables₁.fillPages (show count ≤
    DyadicBlock.size ⟨k, ceilLog2Pages count⟩ by simpa using hcount_le) words
  -- the pages of the range
  have hpage : ∀ j < count, (a + j * pageSize) % pageSize = 0 ∧ a + j * pageSize < 2 ^ 47 ∧
      u64 (a + j * pageSize) = a + j * pageSize := by
    intro j hj
    have hmul : (j + 1) * pageSize ≤ count * pageSize := Nat.mul_le_mul_right _ hj
    simp only [u64, pageSize] at *
    omega
  obtain ⟨m₃, r, tables₃, hmap₃, -, hkeeps₃, -, -, hleaf⟩ := hfill.mapPages (m₁.pageAddress k) a
    ⟨true, decide (protection &&& linuxProtWrite ≠ 0)⟩ count 0 fun j _ hj => by
      rw [(hpage j (by omega)).2.2]
      exact pml4Index_lt_of_lt (hpage j (by omega)).2.1
  obtain ⟨rfl, rfl⟩ := Prod.mk.inj (hmap₃.symm.trans hmap)
  obtain ⟨haligned, -, hvirtual⟩ := hpage _ hj
  obtain ⟨tags, hl⟩ := hleaf rfl (fun j j' _ hlt hj' heq => by
      obtain ⟨halign, hlt47, hwrap⟩ := hpage j (by omega)
      obtain ⟨halign', hlt47', hwrap'⟩ := hpage j' (by omega)
      rw [hwrap, hwrap'] at heq
      have hsame := pagePath_injective halign halign' hlt47 hlt47' heq
      simp only [pageSize] at hsame
      omega) (i / pageSize) (Nat.zero_le _) (by omega)
    (by rwa [hphys]) (by rwa [hphys])
  rw [hvirtual, hphys] at hl
  have hsplit : i / pageSize * pageSize + i % pageSize = i := Nat.div_add_mod' i pageSize
  have hoffset : (a + i) % pageSize = i % pageSize := by
    rw [Nat.add_mod, hstart, Nat.zero_add, Nat.mod_mod]
  have hpath : pagePath (a + i) = pagePath (a + i / pageSize * pageSize) := by
    rw [← pagePath_page (a + i), hoffset]
    congr 1
    omega
  have htranslate : s'.pmm.translate s'.pageMapL4TableAddr (a + i) =
      some (m₁.pageAddress k + i) := by
    rw [PhysicalMemoryManager.translate, hroot, hpath, hl, Option.map_some]
    simp only [List.length_nil, pow_zero, Nat.mul_one, hoffset, Option.some.injEq]
    omega
  rw [userByte, htranslate, Option.map_some]
  refine congrArg some (bytes_of_fillPages (by simpa using hphysical) (by omega) (hkeeps₃.memory _ (.inl
    ⟨_, List.mem_cons_self, ?_⟩)))
  have hmul : count * pageSize ≤ 2 ^ ceilLog2Pages count * pageSize :=
    Nat.mul_le_mul_right _ hcount_le
  simp only [InBlock, DyadicBlock.size_mk,
    pageAddress, fillPages, pageSize] at *
  omega

/-- A successful `mmap` of a file without an operation of its own copies the file. -/
theorem handleMmap_notImplemented {files : ℕ → Option OpenFile} {openFile : OpenFile}
    {address flags fileDescriptor offset : ℕ} (hopen : files fileDescriptor = some openFile)
    (hcopied : openFile.memoryMap = some .notImplemented)
    (hfile : flags &&& linuxMapAnonymous = 0)
    (hrun : s.handleMmap fuel files address length protection flags fileDescriptor offset =
      some (s', .ok a)) :
    alignUpToPageBoundary length ≠ 0 ∧ ∃ s₁ start,
      s.chooseMappingStart fuel address (alignUpToPageBoundary length) flags =
        some (s₁, .ok start) ∧
      s₁.mapNewPages fuel start (alignUpToPageBoundary length) protection
        (openFile.populate offset length) = some (s', .ok a) := by
  unfold handleMmap at hrun
  dsimp only at hrun
  rcases hchoose : s.chooseMappingStart fuel address (alignUpToPageBoundary length) flags with
    _ | ⟨s₁, error | start⟩ <;> rw [hchoose] at hrun <;> dsimp only at hrun
  · split_ifs at hrun <;> simp at hrun
  · split_ifs at hrun <;> simp at hrun
  rw [hopen] at hrun
  dsimp only at hrun
  rw [hcopied] at hrun
  dsimp only at hrun
  split_ifs at hrun with h0 hoffset hsharing hlength hanonymous hdescriptor hread
  · simp at hrun
  · simp at hrun
  · simp at hrun
  · simp at hrun
  · exact absurd hfile hanonymous
  · simp at hrun
  · exact ⟨hlength, s₁, start, rfl, hrun⟩
  · simp at hrun

/-- A successful `mmap` of a file, after a run of calls from a process without mappings. As in the
run, the range ends in the lower half, and a range that is unmapped for it is given back whole. -/
inductive MapsFile (openFile : OpenFile) (offset length : ℕ) (s' : UserMemory) (a : ℕ) : Prop
  | mmap {fuel : ℕ} {others : List DyadicBlock} {exact : Prop} {s₀ s : UserMemory}
    {tables₀ : List ℕ} (files : ℕ → Option OpenFile)
    (address protection flags fileDescriptor : ℕ)
    (htables : s₀.pmm.Tables s₀.pageMapL4TableAddr tables₀ others)
    (hempty : ∀ i < maxMemoryMappingsPerProcess, (s₀.memoryMappings i).inUse = false)
    (hfuel : s₀.pmm.memoryDescriptorInfo.totalNumberOfPages < fuel)
    (hrun : MappingRun fuel others exact s₀ s)
    (hopen : files fileDescriptor = some openFile)
    (hfile : flags &&& linuxMapAnonymous = 0) (hend : a + length ≤ 2 ^ 47)
    (hrange : flags &&& linuxMapFixed ≠ 0 →
      ReleasesRange s others exact address (alignUpToPageBoundary length))
    (hcall : s.handleMmap fuel files address length protection flags fileDescriptor offset =
      some (s', .ok a))

/-- The process finds in a mapping of a file what the file was copied to. -/
theorem MapsFile.userByte {openFile : OpenFile} {offset : ℕ}
    (h : MapsFile openFile offset length s' a)
    (hcopied : openFile.memoryMap = some .notImplemented) :
    ∃ words, openFile.populate offset length = .ok words ∧
      ∀ i < alignUpToPageBoundary length,
        s'.userByte (a + i) = some (UInt8.ofNat (words (i / 8) / 256 ^ (i % 8))) := by
  cases h with
  | mmap files address protection flags fileDescriptor htables hempty hfuel hrun hopen hfile hend
      hrange hcall =>
    obtain ⟨tables, P, hinv, -, hkeeps, -⟩ :=
      hrun.runInvariant (.of_empty htables hempty) hfuel (sumRecords_eq_zero hempty)
    obtain ⟨hne, s₁, start, hchoose, hnew⟩ := handleMmap_notImplemented hopen hcopied hfile hcall
    obtain rfl := mapNewPages_ok hnew
    have hmod := alignUpToPageBoundary_mod length
    have hend' := add_alignUpToPageBoundary_le (chooseMappingStart_ok hchoose) hend
    obtain ⟨P₁, hinv₁, hstart, -, -, -, -⟩ :=
      hinv.chooseMappingStart hmod hne hend' hrange (by rwa [hkeeps.total]) hchoose
    exact userByte_mapNewPages hinv₁.owned.tables hstart hmod hend' hnew

end UserMemory

end TwistedOS
