import TwistedOS.Elf.CleanUpExactness
import TwistedOS.Elf.LoadedSegments
import TwistedOS.Memory.AddressTranslation
import TwistedOS.Memory.BuddyRuns
import TwistedOS.UserMemory.MappedRanges

/-!
# When the loader stays within its buffers

Three things can lead the loader out of the buffers of a load. The walk over the program headers for
the address of their table is made before the table is checked. The tail of a segment is cleared up
to the end of a page of virtual addresses, which need not be the end of a page of the image. And a
part of the file whose virtual address lies further into its page than its file offset may reach
into one more page than the file does. The last two cannot happen for a segment whose virtual
address lies as far into its page as its file offset does, as the format asks for.

## Main definitions

* `WalkFits`, `TailsFit`, `RegionFits`: none of the three happens.
* `LoadFits`: a load as a whole.

## Main results

* `tailFits_of_congruent`, `regionFits_of_congruent`: addresses that agree up to whole pages.
* `isSome_mapRegionStep_iff`: how many free pages it takes to map a region as a whole.
* `ElfLoader.contained_iff`: a load stays within its buffers exactly if it fits.
* `ElfLoader.not_contained`: a file with a header that is read beyond its end.
-/

namespace TwistedOS

open PhysicalMemoryManager Recorded

variable {m m' : PhysicalMemoryManager} {image : PageBuffer} {owned : List PageBuffer}

/-! ### The walk over the program headers -/

/-- The first byte of a program header that the walk reads: it reads the sizes before the rest. -/
def ElfProgramHeader64.firstRead (header : ElfProgramHeader64) : ℕ :=
  if header.memorySize = 0 then 40 else if header.fileSize = 0 then 32 else 0

/-- The address of the program header that the walk reads in a round. -/
def walkedEntry (programHeaders index : ℕ) : ℕ :=
  u64 (programHeaders + index * sizeofElfProgramHeader64)

/-- What the walk reads of a program header lies in the image. -/
def EntryFits (mem : ByteMemory) (image : PageBuffer) (programHeaders index : ℕ) : Prop :=
  let entry := walkedEntry programHeaders index
  image.address ≤ entry + (programHeader mem entry).firstRead ∧ entry + 48 ≤ image.endAddress

/-- None of the program headers that the walk has read so far contains the offset. -/
def Unfound (mem : ByteMemory) (programHeaders fileOffset index : ℕ) : Prop :=
  ∀ j < index, (programHeader mem (walkedEntry programHeaders j)).translate fileOffset = none

/-- Every program header up to the first whose segment contains the table is read within the
image. -/
def WalkFits (mem : ByteMemory) (image : PageBuffer) (programHeaders programHeaderCount
    fileOffset : ℕ) : Prop :=
  programHeaders ≠ 0 → ∀ index < programHeaderCount,
    Unfound mem programHeaders fileOffset index → EntryFits mem image programHeaders index

theorem forall_holds_fieldsRead (header : ElfProgramHeader64) (fileOffset entry : ℕ) :
    (∀ field ∈ header.fieldsRead fileOffset, image.Holds (entry + field.1) field.2) ↔
      image.address ≤ entry + header.firstRead ∧ entry + 48 ≤ image.endAddress := by
  unfold ElfProgramHeader64.fieldsRead ElfProgramHeader64.firstRead
  split_ifs <;> simp [PageBuffer.Holds] <;> omega

section Walk

variable (mem : ByteMemory) (image : PageBuffer) (programHeaders fileOffset : ℕ)

/-- The walk over the first headers has found nothing exactly if none of them has the offset. -/
theorem exists_result_translate (n : ℕ) :
    ∃ found, (forEach (translateStep mem image programHeaders fileOffset) (List.range n)
      none).result = some found ∧ (found = none ↔ Unfound mem programHeaders fileOffset n) := by
  unfold Unfound
  induction n with
  | zero => exact ⟨none, rfl, by simp⟩
  | succ n ih =>
    obtain ⟨found, hfound, hnone⟩ := ih
    rw [List.range_succ, forEach_append, result_bind, hfound]
    cases found with
    | some address =>
      refine ⟨some address, rfl, ?_⟩
      simp only [reduceCtorEq, false_iff] at hnone ⊢
      exact fun h => hnone fun j hj => h j (Nat.lt_succ_of_lt hj)
    | none =>
      refine ⟨_, rfl, ?_⟩
      rw [Nat.forall_lt_succ_right, and_iff_right (hnone.mp rfl)]
      exact Iff.rfl

theorem forall_within_translate (n : ℕ) :
    (∀ e ∈ (forEach (translateStep mem image programHeaders fileOffset) (List.range n)
      none).events, e.Within owned) ↔
      ∀ index < n, Unfound mem programHeaders fileOffset index →
        EntryFits mem image programHeaders index := by
  induction n with
  | zero => simp [forEach]
  | succ n ih =>
    obtain ⟨found, hfound, hnone⟩ := exists_result_translate mem image programHeaders fileOffset n
    rw [List.range_succ, forEach_append, forall_events_bind, ih, Nat.forall_lt_succ_right, hfound,
      ← hnone]
    refine and_congr_right fun _ => ?_
    simp only [Option.some.injEq, forall_eq']
    rw [forEach, forall_events_bind]
    cases found with
    | some address => simp [translateStep, forEach]
    | none =>
      simp only [translateStep, Option.isSome_none, Bool.false_eq_true, if_false, forEach,
        List.not_mem_nil, false_imp_iff, implies_true, and_true, true_imp_iff, List.forall_mem_map]
      exact forall_holds_fieldsRead _ fileOffset _

variable (count : ℕ)

theorem exists_result_translateElfFileOffsetToVirtualAddress :
    ∃ found, (translateElfFileOffsetToVirtualAddress mem image programHeaders count
      fileOffset).result = some found := by
  unfold translateElfFileOffsetToVirtualAddress
  split_ifs
  · exact ⟨none, rfl⟩
  · obtain ⟨found, hfound, -⟩ :=
      exists_result_translate mem image programHeaders fileOffset count
    exact ⟨found, hfound⟩

theorem forall_within_translateElfFileOffsetToVirtualAddress :
    (∀ e ∈ (translateElfFileOffsetToVirtualAddress mem image programHeaders count
      fileOffset).events, e.Within owned) ↔
      WalkFits mem image programHeaders count fileOffset := by
  unfold translateElfFileOffsetToVirtualAddress WalkFits
  split_ifs with hnull
  · simp [hnull]
  · rw [imp_iff_right hnull]
    exact forall_within_translate mem image programHeaders fileOffset count

end Walk

/-! ### Reads of checked headers -/

variable {header : ElfHeader} {fuel loadBias : ℕ} {s s' : ElfLoad}

theorem forall_within_checkSegments (mem : ByteMemory) :
    ∀ e ∈ (checkSegments mem image header).events, e.Within owned := by
  unfold checkSegments
  split_ifs with htable
  · simp [fail]
  · rw [not_or, not_not] at htable
    rw [forall_events_bind]
    refine ⟨forall_events_forEach_of fun i hi s => ?_, fun bounds _ => by split_ifs <;> simp [fail]⟩
    rw [List.forall_mem_singleton]
    exact Loading.within_readEntryOf htable.1 (List.mem_range.mp hi)

theorem forall_within_interpreterPathReads (mem : ByteMemory)
    (htable : header.validateProgramHeaderTable image.size) (bufferSize : ℕ)
    {remaining index : ℕ} (hindex : index + remaining ≤ header.programHeaderEntryCount) :
    ∀ e ∈ interpreterPathReads mem image header bufferSize remaining index, e.Within owned := by
  induction remaining generalizing index with
  | zero => simp [interpreterPathReads]
  | succ remaining ih =>
    rw [interpreterPathReads, List.forall_mem_cons]
    refine ⟨Loading.within_readEntryOf htable (by omega), ?_⟩
    split_ifs with hskip hrange hsize
    · exact ih (by omega)
    · simp
    · simp only [rangeFitsInImage, decide_eq_true_eq] at hrange
      rw [List.forall_mem_singleton]
      exact PageBuffer.holds_of_le (by omega)
    · simp

theorem forall_within_readInterpreterPath (mem : ByteMemory) :
    ∀ e ∈ (readInterpreterPath mem image header).events, e.Within owned := by
  simp only [readInterpreterPath]
  split_ifs with htable
  · simp
  · rw [not_or, not_not] at htable
    exact forall_within_interpreterPathReads mem htable.2 _ (Nat.zero_add _).le

/-- A file is copied into a buffer of its own. -/
theorem PhysicalMemoryManager.Managed.copyImage {file : ElfFile} (h : m.Managed)
    (hresult : (copyImage m file).result = some (m', image)) :
    m'.Managed ∧ image.HeldIn m' ∧ image.size ≠ 0 ∧
      (copyImage m file).events = [.own image] ∧ ∀ b : PageBuffer, b.HeldIn m → b.HeldIn m' := by
  have hlt := file.size_lt
  unfold TwistedOS.copyImage at hresult ⊢
  dsimp only at hresult ⊢
  generalize hpages : u64 (file.size + pageSize - 1) / pageSize = pages at *
  cases hcall : m.allocatePagesFromDescriptor pages with
  | mk m₁ address =>
    obtain ⟨hmanaged, hheld, hblock⟩ := h.allocate hcall
    rw [hcall] at hresult
    cases address with
    | zero => simp [fail] at hresult
    | succ n =>
      obtain ⟨rfl, rfl⟩ := Prod.mk.inj (Option.some.inj hresult)
      have hpos : pages ≠ 0 := by
        rintro rfl
        simp [allocatePagesFromDescriptor] at hcall
      -- The size does not wrap around, since then there would be no pages to allocate.
      have hsize : file.size ≠ 0 ∧ file.size ≤ pages * pageSize ∧
          (file.size + pageSize - 1) / pageSize = pages := by
        simp only [u64, pageSize] at *
        omega
      have hbuffer := hblock (Nat.succ_ne_zero n) file.size hsize.2.1
      have hend : (⟨n + 1, file.size⟩ : PageBuffer).endAddress = n + 1 + pages * pageSize := by
        rw [PageBuffer.endAddress, PageBuffer.pages, hsize.2.2]
      obtain ⟨hcleared, hheld₁⟩ := hmanaged.writeBytes hbuffer (a := n + 1)
        (n := pages * pageSize) ⟨le_rfl, hend.ge⟩ fun _ => 0
      obtain ⟨hcopied, hheld₂⟩ := hcleared.writeBytes (hheld₁ _ hbuffer) (a := n + 1)
        (n := file.size) ⟨le_rfl, by rw [hend]; omega⟩ file.content
      exact ⟨hcopied, hheld₂ _ (hheld₁ _ hbuffer), hsize.1, rfl,
        fun b hb => hheld₂ b (hheld₁ b (hheld b hb))⟩

/-- The header of an image lies in its first page. -/
theorem within_readHeader (hsize : image.size ≠ 0) :
    image.Holds image.address sizeofElfHeader := by
  simp only [PageBuffer.Holds, PageBuffer.endAddress, PageBuffer.pages, sizeofElfHeader, pageSize]
  omega

/-! ### The segments -/

/-- All tails of segments of an image that are cleared fit. -/
def TailsFit (fuel : ℕ) (image : PageBuffer) (header : ElfHeader) (loadBias : ℕ) (s : ElfLoad) :
    Prop :=
  header.validateProgramHeaderTable image.size →
    Along (appendStep fuel image header loadBias)
      (fun index s => TailFits image loadBias s
        (programHeaderAt s.manager.bytes image.address header index))
      (List.range header.programHeaderEntryCount) s

theorem Loading.forall_within_appendLoadSegments (h : Loading owned image s)
    (hown : ∀ e ∈ (appendLoadSegments fuel image header loadBias s).events, e.OwnedIn owned) :
    (∀ e ∈ (appendLoadSegments fuel image header loadBias s).events, e.Within owned) ↔
      TailsFit fuel image header loadBias s := by
  have hnull := h.held.address_ne
  unfold appendLoadSegments at *
  split_ifs at * with htable
  · exact iff_of_true (by simp [fail]) fun htrue => absurd htrue (by simpa [hnull] using htable)
  · rw [not_or, not_not] at htable
    have hforall : TailsFit fuel image header loadBias s ↔ _ := imp_iff_right htable.1
    rw [hforall]
    exact forall_events_forEach
      (fun i hi s (hs : Loading owned image s) =>
        hs.forall_within_appendStep htable.1 (List.mem_range.mp hi))
      (fun i _ s s' hs hfits hown hresult => hs.appendStep hfits hown hresult) h hown

theorem Loading.appendLoadSegments (h : Loading owned image s)
    (hfits : TailsFit fuel image header loadBias s)
    (hown : ∀ e ∈ (TwistedOS.appendLoadSegments fuel image header loadBias s).events,
      e.OwnedIn owned)
    (hresult : (TwistedOS.appendLoadSegments fuel image header loadBias s).result = some s') :
    Loading owned image s' := by
  unfold TwistedOS.appendLoadSegments at *
  split_ifs at * with htable
  · simp [fail] at hresult
  · rw [not_or, not_not] at htable
    exact (hfits htable.1).result
      (fun i _ s s' hs hfits hown hresult => hs.appendStep hfits hown hresult) h hown hresult

/-- The tails of the segments of an interpreter fit. -/
def InterpreterFits (fuel : ℕ) (s : ElfLoad) (file : ElfFile) : Prop :=
  ∀ m interpreter, (copyImage s.manager file).result = some (m, interpreter) →
    (parseElf m.bytes interpreter.address).validateElf64 →
    TailsFit fuel interpreter (parseElf m.bytes interpreter.address)
      (getElfLoadBias (parseElf m.bytes interpreter.address) true) ⟨m, s.memoryRegions⟩

section Interpreter

variable {lookup : List UInt8 → Option ElfFile} {file : ElfFile}

/-- The state in which the segments of the interpreter are appended. -/
theorem Loading.interpreter {interpreter : PageBuffer} (h : Loading owned image s)
    (hcopy : (copyImage s.manager file).result = some (m, interpreter))
    (hown : ∀ e ∈ (copyImage s.manager file).events, e.OwnedIn owned) :
    Loading owned interpreter ⟨m, s.memoryRegions⟩ := by
  obtain ⟨hmanaged, hheld, -, hevents, -⟩ := h.managed.copyImage hcopy
  rw [hevents, List.forall_mem_singleton] at hown
  exact ⟨hmanaged, hheld, hown interpreter rfl, h.placed⟩

theorem forall_within_copyImage : ∀ e ∈ (copyImage m file).events, e.Within owned := by
  unfold copyImage
  dsimp only
  split
  · simp [fail]
  · rw [List.forall_mem_singleton]
    exact trivial

theorem Loading.forall_within_loadInterpreter (h : Loading owned image s)
    (hown : ∀ e ∈ (loadInterpreter fuel s file).events, e.OwnedIn owned) :
    (∀ e ∈ (loadInterpreter fuel s file).events, e.Within owned) ↔ InterpreterFits fuel s file := by
  simp only [loadInterpreter, forall_events_bind, Prod.forall] at hown ⊢
  obtain ⟨hownCopy, hownRest⟩ := hown
  rw [and_iff_right forall_within_copyImage, InterpreterFits]
  refine forall_congr' fun m => forall_congr' fun interpreter => imp_congr_right fun hcopy => ?_
  have hloading := h.interpreter hcopy hownCopy
  obtain ⟨-, hownRest⟩ := hownRest m interpreter hcopy
  replace hownRest := hownRest _ rfl
  have hread : ∀ e ∈ (readHeader m.bytes interpreter).events, e.Within owned := by
    rw [readHeader, List.forall_mem_singleton]
    exact within_readHeader (h.managed.copyImage hcopy).2.2.1
  rw [and_iff_right hread]
  simp only [readHeader, Option.some.injEq, forall_eq'] at hownRest ⊢
  split_ifs at hownRest ⊢ with hvalid
  · rw [hloading.forall_within_appendLoadSegments hownRest, imp_iff_right hvalid]
  · exact iff_of_true (by simp [fail]) fun htrue => absurd htrue hvalid

theorem Loading.loadInterpreter (h : Loading owned image s) (hfits : InterpreterFits fuel s file)
    (hown : ∀ e ∈ (TwistedOS.loadInterpreter fuel s file).events, e.OwnedIn owned)
    (hresult : (TwistedOS.loadInterpreter fuel s file).result = some s') :
    ∀ region ∈ s'.memoryRegions, region.PlacedIn owned := by
  obtain ⟨⟨m, interpreter⟩, hcopy, hresult⟩ := result_bind_eq_some.mp hresult
  obtain ⟨interpreterHeader, hheader, hresult⟩ := result_bind_eq_some.mp hresult
  obtain rfl := Option.some.inj hheader
  simp only [TwistedOS.loadInterpreter, forall_events_bind, Prod.forall] at hown
  have hloading := h.interpreter hcopy hown.1
  replace hown := (hown.2 m interpreter hcopy).2 _ rfl
  split_ifs at hresult hown with hvalid
  · exact (hloading.appendLoadSegments (hfits m interpreter hcopy hvalid) hown hresult).placed
  · simp [fail] at hresult

/-- The path of the interpreter of an image, and its file. -/
def interpreterFile (lookup : List UInt8 → Option ElfFile) (image : PageBuffer)
    (header : ElfHeader) (s : ElfLoad) : Option ElfFile :=
  (getInterpreterPath s.manager.bytes image.address image.size header elfInterpreterPathMax).bind
    lookup

theorem Loading.forall_within_appendInterpreter (h : Loading owned image s)
    (hown : ∀ e ∈ (appendInterpreter fuel lookup image header s).events, e.OwnedIn owned) :
    (∀ e ∈ (appendInterpreter fuel lookup image header s).events, e.Within owned) ↔
      ∀ file, interpreterFile lookup image header s = some file → InterpreterFits fuel s file := by
  rw [appendInterpreter, forall_events_bind] at hown ⊢
  rw [and_iff_right (forall_within_readInterpreterPath _)]
  simp only [readInterpreterPath, interpreterFile, Option.some.injEq, forall_eq'] at hown ⊢
  replace hown := hown.2
  cases hpath : getInterpreterPath s.manager.bytes image.address image.size header
    elfInterpreterPathMax with
  | none => simp
  | some path =>
    rw [hpath] at hown
    simp only [Option.bind_some] at hown ⊢
    cases hfile : lookup path with
    | none => simp [fail]
    | some file =>
      rw [hfile] at hown
      simp only [Option.some.injEq, forall_eq'] at hown ⊢
      exact h.forall_within_loadInterpreter hown

theorem Loading.appendInterpreter (h : Loading owned image s)
    (hfits : ∀ file, interpreterFile lookup image header s = some file →
      InterpreterFits fuel s file)
    (hown : ∀ e ∈ (TwistedOS.appendInterpreter fuel lookup image header s).events,
      e.OwnedIn owned)
    (hresult : (TwistedOS.appendInterpreter fuel lookup image header s).result = some s') :
    ∀ region ∈ s'.memoryRegions, region.PlacedIn owned := by
  obtain ⟨path, hpath, hresult⟩ := result_bind_eq_some.mp hresult
  rw [TwistedOS.appendInterpreter, forall_events_bind] at hown
  replace hown := hown.2 path hpath
  simp only [readInterpreterPath, Option.some.injEq] at hpath
  cases path with
  | none => exact Option.some.inj hresult ▸ h.placed
  | some path =>
    dsimp only at hresult hown
    cases hfile : lookup path with
    | none => simp [hfile, fail] at hresult
    | some file =>
      rw [hfile] at hresult hown
      have hfound : interpreterFile lookup image header s = some file := by
        rw [interpreterFile, hpath]
        exact hfile
      exact h.loadInterpreter (hfits file hfound) hown hresult

end Interpreter

/-! ### The pages that are mapped -/

/-- A region that is mapped as a whole and reaches beyond the end of its buffer finds a page of the
load there. -/
def RegionFits (owned : List PageBuffer) (regions : List ElfMemoryRegion) (pageMapL4TableAddr : ℕ)
    (region : ElfMemoryRegion) (m : PhysicalMemoryManager) : Prop :=
  (mapRegionStep regions pageMapL4TableAddr region m).result.isSome →
    ∀ b ∈ owned, b.Regular → b.Holds region.physicalAddress region.size →
      b.endAddress < alignDownToPage region.physicalAddress +
        getRequiredPageCount region.virtualAddress region.size * pageSize →
      ∃ b' ∈ owned, b'.Holds b.endAddress pageSize

section Regions

variable {regions : List ElfMemoryRegion} {pageMapL4TableAddr : ℕ} {region : ElfMemoryRegion}
  {b : PageBuffer}

/-- The pages of a region end in its buffer if its virtual address lies as far into its page as its
physical address does. -/
theorem regionFits_of_congruent
    (h : region.virtualAddress % pageSize = region.physicalAddress % pageSize)
    (m : PhysicalMemoryManager) : RegionFits owned regions pageMapL4TableAddr region m := by
  intro _ b _ hregular hin hover
  obtain ⟨hstart, hend⟩ := hin
  have hmod := PageBuffer.endAddress_mod hregular.aligned
  have hlimit := hregular.end_le
  have hcount : getRequiredPageCount region.virtualAddress region.size * pageSize ≤
      (region.virtualAddress % pageSize + region.size + pageSize - 1) / pageSize * pageSize := by
    rw [getRequiredPageCount]
    split_ifs
    · omega
    · refine Nat.mul_le_mul_right _ (Nat.div_le_div_right (Nat.mod_le _ _))
  simp only [alignDownToPage, pageSize] at *
  omega
/-- In a page map that is a tree, pages of a region are mapped exactly if the free pages are enough
for the tables that they need. -/
theorem isSome_mapPages_iff {m : PhysicalMemoryManager} {live : List DyadicBlock}
    (h : m.MappedTables pageMapL4TableAddr live) (hfit : m.OrdersFit) (index count : ℕ)
    (hphysical : ∀ i, index ≤ i → i < index + count →
      (region.physicalAddress &&& physPageAddrMask) + i * pageSize < 2 ^ 32) :
    (forEach (mapPageStep regions pageMapL4TableAddr region) (List.range' index count)
        m).result.isSome ↔
      (m.missingTables pageMapL4TableAddr
        (rangeTables (region.virtualAddress &&& physPageAddrMask) index count)).card ≤
        m.memoryDescriptorInfo.numberOfFreePages := by
  induction count generalizing m live index with
  | zero => simp [forEach, rangeTables, missingTables]
  | succ count ih =>
    have hlt := hphysical index le_rfl (by omega)
    have hmod : ((region.physicalAddress &&& physPageAddrMask) + index * pageSize) % pageSize =
        0 := by
      rw [and_physPageAddrMask, pageSize]
      omega
    rw [List.range'_succ, forEach, result_bind, rangeTables_succ]
    unfold mapPageStep
    dsimp only
    rw [u64_of_lt (hlt.trans (by decide))]
    split
    · rename_i m₁ hrun
      obtain ⟨-, -, hiff⟩ := h.mapPage_addsTables hfit _ _ hrun
      refine iff_of_false (by simp [fail]) fun hle => ?_
      simpa using hiff.mpr ((card_missingTables_le Finset.subset_union_left).trans hle)
    · rename_i m₁ hrun
      obtain ⟨-, hall, -⟩ := h.mapPage_addsTables hfit _ _ hrun
      obtain ⟨_, _, hmapped, ⟨live₁, h₁⟩, -⟩ := h.mapPage hmod hlt _ _
      obtain ⟨rfl, -⟩ := Prod.mk.inj (hrun.symm.trans hmapped)
      rw [(hall rfl).missing_union_le_iff]
      exact ih h₁ ((hall rfl).ordersFit hfit) (index + 1) fun i hi hlt =>
        hphysical i (by omega) (by omega)

/-- Then the region is mapped as a whole exactly if there are that many free pages. -/
theorem isSome_mapRegionStep_iff {m : PhysicalMemoryManager} {live : List DyadicBlock}
    (h : m.MappedTables pageMapL4TableAddr live) (hfit : m.OrdersFit)
    (hphysical : ∀ i < getRequiredPageCount region.virtualAddress region.size,
      (region.physicalAddress &&& physPageAddrMask) + i * pageSize < 2 ^ 32) :
    (mapRegionStep regions pageMapL4TableAddr region m).result.isSome ↔
      (m.missingTables pageMapL4TableAddr
        (rangeTables (region.virtualAddress &&& physPageAddrMask) 0
          (getRequiredPageCount region.virtualAddress region.size))).card ≤
        m.memoryDescriptorInfo.numberOfFreePages := by
  rw [mapRegionStep, List.range_eq_range']
  exact isSome_mapPages_iff h hfit 0 _ fun i _ hi => hphysical i (by omega)

/-- The page of a region that is recorded when it has been mapped. -/
def ElfMemoryRegion.mappedPage (region : ElfMemoryRegion) (pageIndex : ℕ) : ℕ :=
  u64 ((region.physicalAddress &&& physPageAddrMask) + pageIndex * pageSize) &&&
    validPhysicalAddrMask

theorem mapPageStep_cases (regions : List ElfMemoryRegion) (pageMapL4TableAddr : ℕ)
    (region : ElfMemoryRegion) (pageIndex : ℕ) (m : PhysicalMemoryManager) :
    mapPageStep regions pageMapL4TableAddr region pageIndex m = fail ∨
      ∃ m', mapPageStep regions pageMapL4TableAddr region pageIndex m =
        ⟨[.map (region.mappedPage pageIndex)], some m'⟩ := by
  unfold mapPageStep
  dsimp only
  split
  · exact .inl rfl
  · exact .inr ⟨_, rfl⟩

/-- The pages that are recorded for the first `n` pages of a region: if the last one is among them,
all have been mapped. -/
theorem exists_of_mem_mapPages {n : ℕ} {m : PhysicalMemoryManager} {e : ElfAccess}
    (he : e ∈ (forEach (mapPageStep regions pageMapL4TableAddr region) (List.range n) m).events) :
    ∃ k < n, e = .map (region.mappedPage k) ∧
      (k + 1 = n → (forEach (mapPageStep regions pageMapL4TableAddr region) (List.range n)
        m).result.isSome) := by
  induction n with
  | zero => simp [forEach] at he
  | succ n ih =>
    rw [List.range_succ, forEach_append, mem_events_bind] at he
    rcases he with he | ⟨m', hm', he⟩
    · obtain ⟨k, hk, rfl, -⟩ := ih he
      exact ⟨k, Nat.lt_succ_of_lt hk, rfl, by omega⟩
    · rw [forEach, mem_events_bind] at he
      rcases he with he | ⟨m'', -, he⟩
      · rcases mapPageStep_cases regions pageMapL4TableAddr region n m' with
          hfailed | ⟨m'', hmapped⟩
        · simp [hfailed, fail] at he
        · rw [hmapped] at he
          refine ⟨n, Nat.lt_succ_self n, List.mem_singleton.mp he, fun _ => ?_⟩
          rw [List.range_succ, forEach_append, result_bind, hm', Option.bind_some, forEach,
            result_bind, hmapped]
          rfl
      · simp [forEach] at he

/-- When all pages have been mapped, each of them is recorded. -/
theorem mem_mapPages_of_isSome {n k : ℕ} {m : PhysicalMemoryManager} (hk : k < n)
    (h : (forEach (mapPageStep regions pageMapL4TableAddr region) (List.range n)
      m).result.isSome) :
    ElfAccess.map (region.mappedPage k) ∈
      (forEach (mapPageStep regions pageMapL4TableAddr region) (List.range n) m).events := by
  induction n with
  | zero => exact absurd hk (Nat.not_lt_zero k)
  | succ n ih =>
    obtain ⟨m'', hm''⟩ := Option.isSome_iff_exists.mp h
    rw [List.range_succ, forEach_append] at hm'' ⊢
    obtain ⟨m', hm', hlast⟩ := result_bind_eq_some.mp hm''
    rw [mem_events_bind]
    rcases Nat.lt_succ_iff_lt_or_eq.mp hk with hlt | rfl
    · exact .inl (ih hlt (by rw [hm']; rfl))
    · obtain ⟨t, ht, -⟩ := result_bind_eq_some.mp hlast
      refine .inr ⟨m', hm', ?_⟩
      rw [forEach, mem_events_bind]
      rcases mapPageStep_cases regions pageMapL4TableAddr region k m' with hfailed | ⟨m'', hmapped⟩
      · simp [hfailed, fail] at ht
      · rw [hmapped]
        exact .inl (List.mem_cons_self ..)

/-- A region in a buffer reaches at most one page beyond its end, and its pages follow one another
there. -/
theorem ElfMemoryRegion.mappedPage_eq (hb : b.Regular)
    (hin : b.Holds region.physicalAddress region.size) (hsize : region.size ≠ 0) :
    let count := getRequiredPageCount region.virtualAddress region.size
    b.address ≤ alignDownToPage region.physicalAddress ∧
      alignDownToPage region.physicalAddress + count * pageSize ≤ b.endAddress + pageSize ∧
      ∀ k < count, region.mappedPage k = alignDownToPage region.physicalAddress + k * pageSize := by
  obtain ⟨hnull, haligned, hlimit⟩ := hb
  obtain ⟨hstart, hend⟩ := hin
  have hmod := PageBuffer.endAddress_mod haligned
  have hcount : getRequiredPageCount region.virtualAddress region.size =
      (region.virtualAddress % pageSize + region.size + pageSize - 1) / pageSize := by
    rw [getRequiredPageCount, if_neg hsize, u64_of_lt]
    simp only [pageSize, pmmBuddyPhysicalLimit] at *
    omega
  have hdown : region.physicalAddress &&& physPageAddrMask =
      alignDownToPage region.physicalAddress := by
    rw [and_physPageAddrMask, Nat.mod_eq_of_lt (by simp only [pmmBuddyPhysicalLimit] at *; omega)]
    rfl
  have hbound : b.address ≤ alignDownToPage region.physicalAddress ∧
      alignDownToPage region.physicalAddress +
        (region.virtualAddress % pageSize + region.size + pageSize - 1) / pageSize * pageSize ≤
        b.endAddress + pageSize := by
    simp only [alignDownToPage, pageSize] at *
    omega
  rw [hcount]
  refine ⟨hbound.1, hbound.2, fun k hk => ?_⟩
  have hlt : alignDownToPage region.physicalAddress + k * pageSize ≤ b.endAddress := by
    simp only [pageSize] at *
    omega
  rw [ElfMemoryRegion.mappedPage, hdown, u64_of_lt]
  · exact and_validPhysicalAddrMask (by simp [alignDownToPage, ← Nat.add_mul])
      (hlt.trans_lt (hlimit.trans_lt (by decide)))
  · exact hlt.trans_lt (hlimit.trans_lt (by decide))

/-- The pages that are mapped for a region belong to the load exactly if the region fits. -/
theorem forall_within_mapRegionStep (hregion : region.PlacedIn owned)
    (m : PhysicalMemoryManager) :
    (∀ e ∈ (mapRegionStep regions pageMapL4TableAddr region m).events, e.Within owned) ↔
      RegionFits owned regions pageMapL4TableAddr region m := by
  constructor
  · intro hwithin hmapped b hb hregular hin hover
    obtain ⟨hle, hpage, hpages⟩ := ElfMemoryRegion.mappedPage_eq hregular hin hregion.size_ne
    have hmod := PageBuffer.endAddress_mod hregular.aligned
    have hlast : ∃ k < getRequiredPageCount region.virtualAddress region.size,
        alignDownToPage region.physicalAddress + k * pageSize = b.endAddress := by
      have hend := hin.2
      refine ⟨(b.endAddress - alignDownToPage region.physicalAddress) / pageSize, ?_, ?_⟩ <;>
        simp only [alignDownToPage, pageSize] at * <;> omega
    obtain ⟨k, hk, heq⟩ := hlast
    have := hwithin _ (mem_mapPages_of_isSome hk hmapped)
    rwa [hpages k hk, heq] at this
  · intro hfits e he
    obtain ⟨b, hb, hregular, hin⟩ := hregion.buffer
    obtain ⟨hle, hpage, hpages⟩ := ElfMemoryRegion.mappedPage_eq hregular hin hregion.size_ne
    obtain ⟨k, hk, rfl, hlast⟩ := exists_of_mem_mapPages he
    change ∃ buffer ∈ owned, buffer.Holds (region.mappedPage k) pageSize
    rw [hpages k hk]
    by_cases hinside : alignDownToPage region.physicalAddress + k * pageSize + pageSize ≤
        b.endAddress
    · exact ⟨b, hb, hle.trans (Nat.le_add_right _ _), hinside⟩
    · -- Only the last page can lie behind the end of the buffer.
      have hmod := PageBuffer.endAddress_mod hregular.aligned
      have hend : alignDownToPage region.physicalAddress + k * pageSize = b.endAddress ∧
          k + 1 = getRequiredPageCount region.virtualAddress region.size := by
        simp only [alignDownToPage, pageSize] at *
        omega
      rw [hend.1]
      exact hfits (hlast hend.2) b hb hregular hin (by rw [← hend.2, Nat.add_mul]; omega)

end Regions

/-! ### Loads -/

/-- The regions of an address space fit when they are mapped into the copy of a page map. -/
def RegionsFit (owned : List PageBuffer) (fuel pageMapL4Table : ℕ) (s : ElfLoad) : Prop :=
  ∀ m pageMapL4TableAddr,
    s.manager.copyPageMapL4Table fuel pageMapL4Table = some (m, pageMapL4TableAddr) →
    pageMapL4TableAddr ≠ 0 →
    Along (mapRegionStep s.memoryRegions pageMapL4TableAddr)
      (RegionFits owned s.memoryRegions pageMapL4TableAddr) s.memoryRegions m

/-- The segments of an image and of its interpreter fit, as far as `MapELF` gets. -/
def MapFits (owned : List PageBuffer) (fuel : ℕ) (lookup : List UInt8 → Option ElfFile)
    (pageMapL4Table : ℕ) (m : PhysicalMemoryManager) (image : PageBuffer) (header : ElfHeader) :
    Prop :=
  ∀ bounds m' as, (checkSegments m.bytes image header).result = some bounds →
    allocateStackAndHeap m image bounds = some (m', as) →
    TailsFit fuel image header (getElfLoadBias header false) ⟨m', []⟩ ∧
      ∀ s, (appendLoadSegments fuel image header (getElfLoadBias header false) ⟨m', []⟩).result =
          some s →
        (∀ file, interpreterFile lookup image header s = some file → InterpreterFits fuel s file) ∧
          ∀ s', (appendInterpreter fuel lookup image header s).result = some s' →
            RegionsFit owned fuel pageMapL4Table s'

/-- The load of an image fits. -/
def LoadFits (owned : List PageBuffer) (fuel : ℕ) (lookup : List UInt8 → Option ElfFile)
    (pageMapL4Table : ℕ) (m : PhysicalMemoryManager) (image : PageBuffer) : Prop :=
  let header := parseElf m.bytes image.address
  header.validateElf →
    WalkFits m.bytes image (getProgramHeaderTable image.address header)
      header.programHeaderEntryCount header.programHeaderOffset ∧
    MapFits owned fuel lookup pageMapL4Table m image header

section Loads

variable {lookup : List UInt8 → Option ElfFile} {pageMapL4Table : ℕ}
  {as : VirtualAddressSpaceElf}

theorem forall_within_mapSegments (hplaced : ∀ region ∈ s.memoryRegions, region.PlacedIn owned) :
    (∀ e ∈ (mapSegments fuel pageMapL4Table as s).events, e.Within owned) ↔
      RegionsFit owned fuel pageMapL4Table s := by
  unfold mapSegments
  cases hcopy : s.manager.copyPageMapL4Table fuel pageMapL4Table with
  | none => simp [fail, RegionsFit, hcopy]
  | some r =>
    obtain ⟨m, pageMapL4TableAddr⟩ := r
    have hfits : RegionsFit owned fuel pageMapL4Table s ↔ (pageMapL4TableAddr ≠ 0 →
        Along (mapRegionStep s.memoryRegions pageMapL4TableAddr)
          (RegionFits owned s.memoryRegions pageMapL4TableAddr) s.memoryRegions m) :=
      ⟨fun h => h m pageMapL4TableAddr hcopy, fun h m' root hcall => by
        obtain ⟨rfl, rfl⟩ := Prod.mk.inj (Option.some.inj (hcopy.symm.trans hcall))
        exact h⟩
    rw [hfits]
    simp only [initAddressSpace]
    by_cases hnull : pageMapL4TableAddr = 0
    · simp [hnull]
    · rw [imp_iff_right hnull]
      by_cases hnone : s.memoryRegions = []
      · simp [hnone, Along]
      · rw [if_neg (by simp [hnull, hnone])]
        exact forall_events_forEach (fun region hregion m (_ : True) =>
          forall_within_mapRegionStep (hplaced region hregion) m)
          (fun _ _ _ _ _ _ (_ : ∀ e ∈ _, True) _ => trivial) trivial fun _ _ => trivial

section

variable (hm : m.Managed) (himage : image.HeldIn m) (hmem : image ∈ owned)

include hm himage hmem

/-- The stack and the heap are allocated beside the image. -/
theorem loading_allocateStackAndHeap {bounds : SegmentBounds}
    (hcall : allocateStackAndHeap m image bounds = some (m', as)) :
    Loading owned image ⟨m', []⟩ := by
  simp only [allocateStackAndHeap] at hcall
  cases hstack : m.allocatePagesFromDescriptor (userProcessStackSize / pageSize) with
  | mk m₁ stack =>
    cases hheap : m₁.allocatePagesFromDescriptor (userProcessHeapSize / pageSize) with
    | mk m₂ heap =>
      obtain ⟨hm₁, hheld₁, -⟩ := hm.allocate hstack
      obtain ⟨hm₂, hheld₂, -⟩ := hm₁.allocate hheap
      rw [hstack] at hcall
      simp only [hheap] at hcall
      split_ifs at hcall
      obtain ⟨rfl, -⟩ := Prod.mk.inj (Option.some.inj hcall)
      exact ⟨hm₂, hheld₂ _ (hheld₁ _ himage), hmem, by simp⟩

theorem forall_within_mapElf
    (hown : ∀ e ∈ (mapElf fuel lookup pageMapL4Table m image header).events, e.OwnedIn owned) :
    (∀ e ∈ (mapElf fuel lookup pageMapL4Table m image header).events, e.Within owned) ↔
      MapFits owned fuel lookup pageMapL4Table m image header := by
  rw [mapElf, forall_events_bind] at hown ⊢
  rw [and_iff_right (forall_within_checkSegments _), MapFits]
  refine forall_congr' fun bounds => ?_
  cases hstack : allocateStackAndHeap m image bounds with
  | none => simp [fail]
  | some r =>
    obtain ⟨m', as⟩ := r
    have hloading := loading_allocateStackAndHeap hm himage hmem hstack
    have hforall {p : PhysicalMemoryManager → Prop} : (∀ m₁ as₁,
        (checkSegments m.bytes image header).result = some bounds → some (m', as) = some (m₁, as₁) →
          p m₁) ↔ ((checkSegments m.bytes image header).result = some bounds → p m') :=
      ⟨fun h hbounds => h m' as hbounds rfl, fun h m₁ as₁ hbounds heq => by
        obtain ⟨rfl, -⟩ := Prod.mk.inj (Option.some.inj heq)
        exact h hbounds⟩
    rw [hforall]
    refine imp_congr_right fun hbounds => ?_
    replace hown := hown.2 bounds hbounds
    rw [hstack] at hown
    simp only [forall_events_bind] at hown ⊢
    obtain ⟨hownMain, hown⟩ := hown
    rw [hloading.forall_within_appendLoadSegments hownMain]
    refine and_congr_right fun htails => forall_congr' fun s => imp_congr_right fun hs => ?_
    have hs' := hloading.appendLoadSegments htails hownMain hs
    obtain ⟨hownInterpreter, -⟩ := hown s hs
    rw [hs'.forall_within_appendInterpreter hownInterpreter]
    refine and_congr_right fun hfits => forall_congr' fun t => imp_congr_right fun ht => ?_
    exact forall_within_mapSegments (hs'.appendInterpreter hfits hownInterpreter ht)

theorem forall_within_loadImage (hsize : image.size ≠ 0)
    (hown : ∀ e ∈
    (ElfLoader.loadImage fuel lookup pageMapL4Table m image).events, e.OwnedIn owned) :
    (∀ e ∈ (ElfLoader.loadImage fuel lookup pageMapL4Table m image).events, e.Within owned) ↔
      LoadFits owned fuel lookup pageMapL4Table m image := by
  rw [ElfLoader.loadImage, forall_events_bind] at hown ⊢
  have hread : ∀ e ∈ (readHeader m.bytes image).events, e.Within owned := by
    rw [readHeader, List.forall_mem_singleton]
    exact within_readHeader hsize
  replace hown := hown.2 _ rfl
  rw [and_iff_right hread, LoadFits]
  simp only [readHeader, Option.some.injEq, forall_eq']
  split_ifs at hown ⊢ with hmagic
  · obtain ⟨found, hfound⟩ := exists_result_translateElfFileOffsetToVirtualAddress m.bytes image
      (getProgramHeaderTable image.address (parseElf m.bytes image.address))
      (parseElf m.bytes image.address).programHeaderOffset
      (parseElf m.bytes image.address).programHeaderEntryCount
    rw [forall_events_bind] at hown ⊢
    rw [imp_iff_right hmagic, forall_within_translateElfFileOffsetToVirtualAddress]
    simp only [hfound, Option.some.injEq, forall_eq'] at hown ⊢
    exact and_congr_right fun _ => forall_within_mapElf hm himage hmem hown.2
  · exact iff_of_true (by simp [fail]) fun htrue => absurd htrue hmagic

end

/-- The buffers that a load sets aside are its buffers. -/
theorem ownedIn_ownedBuffers (accesses : List ElfAccess) :
    ∀ e ∈ accesses, e.OwnedIn (ownedBuffers accesses) := by
  rintro e he b rfl
  exact List.mem_filterMap.mpr ⟨_, he, rfl⟩

namespace ElfLoader

/-- A process is created without leaving the buffers of the load exactly if the image fits. -/
theorem contained_createUserProcess_iff (hm : m.Managed) (himage : image.HeldIn m) :
    let accesses := (createUserProcess fuel lookup pageMapL4Table m image.address image.size).events
    Contained accesses ↔ (image.size ≠ 0 →
      LoadFits (ownedBuffers accesses) fuel lookup pageMapL4Table m image) := by
  intro accesses
  have hown := ownedIn_ownedBuffers accesses
  have hnull := himage.address_ne
  by_cases hsize : image.size = 0
  · have hnone : accesses = [] := by
      change (createUserProcess _ _ _ _ _ _).events = []
      rw [createUserProcess, if_pos (.inr hsize)]
      rfl
    exact iff_of_true (by simp [Contained, hnone]) fun hne => absurd hsize hne
  · have haccesses : accesses = .own image ::
        (loadImage fuel lookup pageMapL4Table m image).events := by
      change (createUserProcess _ _ _ _ _ _).events = _
      rw [createUserProcess, if_neg (by simp [hnull, hsize])]
      rfl
    have hmem : image ∈ ownedBuffers accesses :=
      hown _ (haccesses ▸ List.mem_cons_self ..) image rfl
    have hrest : ∀ e ∈ (loadImage fuel lookup pageMapL4Table m image).events,
        e.OwnedIn (ownedBuffers accesses) :=
      fun e he => hown e (haccesses ▸ List.mem_cons_of_mem _ he)
    rw [imp_iff_right hsize, ← forall_within_loadImage hm himage hmem hsize hrest]
    refine ⟨fun h e he => h e (haccesses ▸ List.mem_cons_of_mem _ he), fun h e he => ?_⟩
    rcases List.mem_cons.mp (haccesses ▸ he) with rfl | he
    · exact trivial
    · exact h e he

/-- A process is replaced without leaving the buffers of the load exactly if the copy of the file
fits. -/
theorem contained_changeProcessExecution_iff (hm : m.Managed) (file : ElfFile) :
    let accesses := (changeProcessExecution fuel lookup pageMapL4Table m file).events
    Contained accesses ↔ ∀ m' image, (copyImage m file).result = some (m', image) →
      LoadFits (ownedBuffers accesses) fuel lookup pageMapL4Table m' image := by
  intro accesses
  have hown := ownedIn_ownedBuffers accesses
  change (∀ e ∈ ((copyImage m file).bind _).events, _) ↔ _
  change ∀ e ∈ ((copyImage m file).bind _).events, _ at hown
  rw [forall_events_bind] at hown ⊢
  rw [and_iff_right forall_within_copyImage, Prod.forall]
  refine forall_congr' fun m' => forall_congr' fun image => imp_congr_right fun hcopy => ?_
  obtain ⟨hm', himage, hsize, hevents, -⟩ := hm.copyImage hcopy
  have hmem : image ∈ ownedBuffers accesses :=
    hown.1 (.own image) (hevents ▸ List.mem_cons_self ..) image rfl
  exact forall_within_loadImage hm' himage hmem hsize (hown.2 _ hcopy)

/-- A process is created or replaced without leaving the buffers of the load exactly if the image
fits: for every image in pages that are not free, every file that replaces a process, every page
map that is copied and every file of an interpreter. Creation does nothing for an image of size
`0`, and replacement loads the copy of the file, if it can be allocated. -/
theorem contained_iff (hm : m.Managed) (fuel : ℕ) (lookup : List UInt8 → Option ElfFile)
    (pageMapL4Table : ℕ) :
    (∀ image : PageBuffer, image.HeldIn m →
      let accesses :=
        (createUserProcess fuel lookup pageMapL4Table m image.address image.size).events
      Contained accesses ↔ (image.size ≠ 0 →
        LoadFits (ownedBuffers accesses) fuel lookup pageMapL4Table m image)) ∧
    ∀ file : ElfFile,
      let accesses := (changeProcessExecution fuel lookup pageMapL4Table m file).events
      Contained accesses ↔ ∀ m' image, (copyImage m file).result = some (m', image) →
        LoadFits (ownedBuffers accesses) fuel lookup pageMapL4Table m' image :=
  ⟨fun _ himage => contained_createUserProcess_iff hm himage,
    contained_changeProcessExecution_iff hm⟩

/-- The words of a file with one segment: 120 bytes of the file and 4880 bytes that are cleared. -/
def segmentWords : List ℕ :=
  [0x0102464C457F, 0, 0x100000002, 0, 64, 0, 0x38000000000000, 1,
    0x600000001, 0, 0x400000, 0, 120, 5000]

/-- Memory with the file at `0x200000`. -/
def segmentMemory : PhysicalMemoryManager :=
  initializeMemoryDescriptors twoPageBoot fun a =>
    if a < 0x200000 then 0 else segmentWords.getD ((a - 0x200000) / 8) 0

/-- The buffer of the file. -/
def segmentImage : PageBuffer := ⟨0x200000, 120⟩

theorem managed_segmentMemory : segmentMemory.Managed ∧ segmentImage.HeldIn segmentMemory := by
  obtain ⟨hmanaged, hheld⟩ := managed_initializeMemoryDescriptors twoPageBoot (fun a =>
    if a < 0x200000 then 0 else segmentWords.getD ((a - 0x200000) / 8) 0) (by decide) (by decide)
    (by decide)
  exact ⟨hmanaged, hheld _ ⟨by decide, by decide, by decide⟩ (by decide)⟩

/-- A segment whose tail is cleared is loaded within its buffers. -/
theorem contained_iff_segmentMemory :
    let accesses :=
      (createUserProcess 0 (fun _ => none) 0x300000 segmentMemory 0x200000 120).events
    .clear segmentImage 0x200078 3976 ∈ accesses ∧ .map 0x17E000 ∈ accesses ∧
      Contained accesses := by
  refine ⟨by decide +kernel, by decide +kernel, ((contained_iff managed_segmentMemory.1 0
    (fun _ => none) 0x300000).1 segmentImage managed_segmentMemory.2).mpr fun _ _ => ⟨?_, ?_⟩⟩
  · intro _ index hindex _
    obtain rfl : index = 0 := Nat.lt_one_iff.mp (hindex.trans_eq (by decide +kernel))
    exact ⟨by decide +kernel, by decide +kernel⟩
  · intro bounds m' as _ hstack
    obtain rfl : m' = ((segmentMemory.allocatePagesFromDescriptor 64).1
        |>.allocatePagesFromDescriptor 2).1 := by
      simp only [allocateStackAndHeap] at hstack
      split_ifs at hstack
      exact (Prod.mk.inj (Option.some.inj hstack)).1.symm
    refine ⟨fun _ => ⟨tailFits_of_congruent (by decide +kernel), fun _ _ => trivial⟩,
      fun s hs => ⟨by simp [interpreterFile], fun s' hs' m root _ _ => ?_⟩⟩
    -- There is no interpreter, and the regions are those of the segment.
    obtain rfl : s = s' := by
      obtain ⟨path, -, hrest⟩ := result_bind_eq_some.mp hs'
      cases path with
      | none => exact Option.some.inj hrest
      | some path => simp [fail] at hrest
    have hregions := congrArg (Option.map ElfLoad.memoryRegions) hs
    rw [show Option.map _ _ = some [⟨0x200000, 0x400000, 120, true⟩,
      ⟨0x200078, 0x400078, 3976, true⟩, ⟨0x17E000, 0x401000, 904, true⟩] by decide +kernel,
      Option.map_some, Option.some.injEq] at hregions
    refine Along.of_forall (fun region hregion => regionFits_of_congruent ?_) m
    rw [← hregions] at hregion
    revert region
    decide

/-- Memory with a file header at `0x200000`, whose program header table has the given offset and
number of entries. -/
def headerMemory (programHeaderOffset programHeaderEntryCount : ℕ) : PhysicalMemoryManager :=
  initializeMemoryDescriptors sevenPages fun a =>
    if a = 0x200000 then 0x0102464C457F
    else if a = 0x200020 then programHeaderOffset
    else if a = 0x200038 then programHeaderEntryCount
    else 0

/-- A buffer for the file header alone. -/
def headerImage : PageBuffer := ⟨0x200000, 64⟩

theorem managed_headerMemory (offset count : ℕ) :
    (headerMemory offset count).Managed ∧ headerImage.HeldIn (headerMemory offset count) := by
  obtain ⟨hmanaged, hheld⟩ := managed_initializeMemoryDescriptors sevenPages (fun a =>
    if a = 0x200000 then 0x0102464C457F
    else if a = 0x200020 then offset
    else if a = 0x200038 then count
    else 0) (by decide) (by decide) (by decide)
  exact ⟨hmanaged, hheld _ ⟨by decide, by decide, by decide⟩ (by decide)⟩

/-- A file of 64 bytes with the magic number, whose program header table would lie two pages behind
its start: the entry there is read. -/
theorem not_contained :
    (headerMemory 0x2000 1).Managed ∧ headerImage.HeldIn (headerMemory 0x2000 1) ∧
      ¬ Contained
        (createUserProcess 0 (fun _ => none) 0 (headerMemory 0x2000 1) 0x200000 64).events := by
  obtain ⟨hmanaged, hheld⟩ := managed_headerMemory 0x2000 1
  refine ⟨hmanaged, hheld, fun hcontained => ?_⟩
  obtain ⟨hwalk, -⟩ := (contained_createUserProcess_iff hmanaged hheld).mp hcontained (by decide)
    (by decide +kernel)
  have hentry := hwalk (by decide +kernel) 0 (by decide +kernel)
    fun j hj => absurd hj (Nat.not_lt_zero j)
  exact absurd hentry.2 (by decide +kernel)

end ElfLoader

end Loads

end TwistedOS
