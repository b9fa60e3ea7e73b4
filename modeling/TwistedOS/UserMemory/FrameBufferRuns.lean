import TwistedOS.Memory.PageProtection
import TwistedOS.UserMemory.FrameBufferMapping

/-!
# What mmap shows of the frame buffer

A call of `mmap` for the frame buffer is to show the frame buffer at the address it returns, in
pages that were not in use, or to change nothing. It does so if the driver's own address is the one
asked for with `LINUX_MAP_FIXED`, or else has nothing mapped or recorded, and if there is a slot for
the record and a page for each missing table. When the driver refuses the call, or finds no page for
the first tables, nothing may have been unmapped before.

## Main definitions

* `UserMemory.ShowsFrameBuffer`, `UserMemory.FrameBufferResult`: what is asked of a call.
* `UserMemory.FrameBufferMeets`: the condition under which it is so.
* `UserMemory.FrameBufferCall`, `UserMemory.FrameBufferRun`.

## Main results

* `UserMemory.FrameBufferRun.frameBufferResult`.
-/

namespace TwistedOS

open RadixTree ProcessMemoryMapping
open PhysicalMemoryManager (EmptyTables OrdersFit rangeTables tablePaths translation_congr)

namespace UserMemory

/-! ### Calls -/

/-- The arguments that `mmap` accepts. -/
def ValidRequest (length flags offset : ℕ) : Prop :=
  length ≠ 0 ∧ offset < 2 ^ 63 ∧ offset % pageSize = 0 ∧
    flags &&& (linuxMapPrivate ||| linuxMapShared) ≠ 0 ∧
    flags &&& (linuxMapPrivate ||| linuxMapShared) ≠ linuxMapPrivate ||| linuxMapShared ∧
    alignUpToPageBoundary length ≠ 0

instance (length flags offset : ℕ) : Decidable (ValidRequest length flags offset) :=
  inferInstanceAs (Decidable (_ ∧ _ ∧ _ ∧ _ ∧ _ ∧ _))

/-- The call is one for the frame buffer. -/
def MapsDevice (files : ℕ → Option OpenFile) (flags fileDescriptor : ℕ) (device : FrameBuffer) :
    Prop :=
  flags &&& linuxMapAnonymous = 0 ∧ fileDescriptor < maxOpenFilesPerProcess ∧
    ∃ openFile, files fileDescriptor = some openFile ∧
      openFile.memoryMap = some (.frameBuffer device)

/-- With `LINUX_MAP_FIXED`, no record meets the range asked for. -/
def ReplacesNothing (s : UserMemory) (address length flags : ℕ) : Prop :=
  flags &&& linuxMapFixed ≠ 0 → ∀ i < maxMemoryMappingsPerProcess,
    overlapsRange address (munmapEnd address length) (s.memoryMappings i) = false

/-! ### What is asked of a call -/

/-- The bytes of the frame buffer are found at the address returned; no page of the range was mapped
or recorded, but for those that were replaced; and only pages of the frame buffer have become
accessible. -/
structure ShowsFrameBuffer (s s' : UserMemory) (device : FrameBuffer)
    (address length flags offset a : ℕ) : Prop where
  bytes : ∀ i < length, s'.byteAt (a + i) = some (device.buffer + offset + i)
  fresh : ∀ v, v % pageSize = 0 → a < v + pageSize → v < a + length →
    ¬ (flags &&& linuxMapFixed ≠ 0 ∧ PageOf address (alignUpToPageBoundary length) v) →
    s.pmm.translation s.pageMapL4TableAddr v = none ∧
      ∀ i < maxMemoryMappingsPerProcess, ¬ Covers (s.memoryMappings i) v
  placed : flags &&& linuxMapFixed ≠ 0 → a = address
  exposed : ∀ v t, s'.pmm.translation s'.pageMapL4TableAddr v = some t →
    s.pmm.translation s.pageMapL4TableAddr v ≠ some t →
    ∃ j < device.bufferSizeBytes, t.page ≤ device.buffer + j ∧ device.buffer + j < t.page + pageSize

/-- A call shows the frame buffer, or it leaves the mappings as they were. -/
def FrameBufferResult (s s' : UserMemory) (device : FrameBuffer)
    (address length flags offset : ℕ) : Except LinuxError ℕ → Prop
  | .ok a => ShowsFrameBuffer s s' device address length flags offset a
  | .error _ => s'.memoryMappings = s.memoryMappings ∧
      ∀ v, s'.pmm.translation s'.pageMapL4TableAddr v = s.pmm.translation s.pageMapL4TableAddr v

/-! ### The condition -/

/-- The driver's address will do: it is the one asked for, or its pages are not in use. There is a
slot for the record, and a page for each missing table. -/
structure WindowServes (s : UserMemory) (others : List DyadicBlock) (device : FrameBuffer)
    (address length flags offset : ℕ) : Prop where
  room : (if flags &&& linuxMapFixed ≠ 0 then
      sumRecords (resultingMappings address (munmapEnd address (alignUpToPageBoundary length)))
        s.memoryMappings
    else recordsInUse s.memoryMappings) < maxMemoryMappingsPerProcess
  tables : (s.pmm.missingTables s.pageMapL4TableAddr (rangeTables
      (FrameBuffer.window offset) 0 (device.pages length))).card ≤
    s.pmm.memoryDescriptorInfo.numberOfFreePages +
      if flags &&& linuxMapFixed ≠ 0 then
        sumRecords (releasedPages s.pmm address (munmapEnd address (alignUpToPageBoundary length)))
          s.memoryMappings
      else 0
  fixed : flags &&& linuxMapFixed ≠ 0 →
    address = FrameBuffer.window offset ∧ device.buffer % pageSize = 0 ∧
      ∀ i < maxMemoryMappingsPerProcess, ReleaseSafe s.pmm (Unclaimed s others) address
        (munmapEnd address (alignUpToPageBoundary length)) (s.memoryMappings i)
  unused : ¬ flags &&& linuxMapFixed ≠ 0 →
    ∀ v, PageOf (FrameBuffer.window offset) (device.pages length * pageSize) v →
      s.pmm.translation s.pageMapL4TableAddr v = none ∧
        ∀ i < maxMemoryMappingsPerProcess, ¬ Covers (s.memoryMappings i) v

/-- The condition on a call that gets to the driver. -/
inductive FrameBufferMeets (s : UserMemory) (others : List DyadicBlock) (device : FrameBuffer)
    (address length flags offset : ℕ) : Prop
  | refused (h : ¬ device.Accepts length offset)
    (hkept : ReplacesNothing s address (alignUpToPageBoundary length) flags)
  | noTables (h : device.Accepts length offset)
    (hkept : ReplacesNothing s address (alignUpToPageBoundary length) flags)
    (hfew : s.pmm.memoryDescriptorInfo.numberOfFreePages < (s.pmm.missingTables s.pageMapL4TableAddr
      (tablePaths (FrameBuffer.window offset))).card)
  | served (h : device.Accepts length offset)
    (hserves : WindowServes s others device address length flags offset)

variable {s s' s₀ : UserMemory} {tables P : List ℕ} {others : List DyadicBlock} {fuel : ℕ}
  {device : FrameBuffer} {files : ℕ → Option OpenFile}
  {address length protection flags fileDescriptor offset : ℕ} {r : Except LinuxError ℕ}

/-! ### The window -/

/-- The pages of the frame buffer in the window. -/
theorem translation_window {m m' : PhysicalMemoryManager} {root : ℕ}
    (hmaps : m.MapsPages m' root (device.firstPage offset) (FrameBuffer.window offset) ⟨true, true⟩
      (device.pages length) 0 none)
    (haccepts : device.Accepts length offset) (hoffset : offset % pageSize = 0)
    (hplaced : device.buffer + device.bufferSizeBytes ≤ 2 ^ 32) {v : ℕ}
    (hle : FrameBuffer.window offset ≤ v)
    (hlt : v < FrameBuffer.window offset + device.pages length * pageSize) :
    m'.translation root v = some ⟨device.firstPage offset +
      (v - FrameBuffer.window offset) / pageSize * pageSize, true, true⟩ := by
  obtain ⟨i, hi⟩ : ∃ i, i = (v - FrameBuffer.window offset) / pageSize := ⟨_, rfl⟩
  have hwindow : FrameBuffer.window offset % pageSize = 0 := by
    simp only [FrameBuffer.window, userFramebufferMmapBase, pageSize] at *
    omega
  have hipages : i < device.pages length := by
    simp only [pageSize] at *
    omega
  obtain ⟨hbelow, hphysical, -⟩ := FrameBuffer.page_lt haccepts hplaced hipages
  have hself := hmaps.self rfl (fun _ _ _ hij hj =>
    FrameBuffer.not_samePage haccepts hplaced hoffset hij (by omega)) i (Nat.zero_le _) (by omega)
  obtain ⟨-, -, hsize, hlength⟩ := haccepts
  have hu : u64 (FrameBuffer.window offset + i * pageSize) =
      FrameBuffer.window offset + i * pageSize := u64_of_lt (by omega)
  have hu' : u64 (device.firstPage offset + i * pageSize) = device.firstPage offset + i * pageSize :=
    u64_of_lt (by omega)
  rw [hu, hu'] at hself
  rw [← hi, ← hself]
  refine translation_congr ?_
  simp only [SamePage, pageSize] at *
  omega

/-- A page that is translated in another way than before has bytes of the frame buffer. -/
theorem exposed_window {m m' : PhysicalMemoryManager} {root : ℕ}
    (hmaps : m.MapsPages m' root (device.firstPage offset) (FrameBuffer.window offset) ⟨true, true⟩
      (device.pages length) 0 none)
    (haccepts : device.Accepts length offset) (hoffset : offset % pageSize = 0)
    (hplaced : device.buffer + device.bufferSizeBytes ≤ 2 ^ 32) (hpos : 0 < length) {v : ℕ}
    {t : Translation}
    (hv : m'.translation root v = some t) (hne : m.translation root v ≠ some t) :
    ∃ j < device.bufferSizeBytes, t.page ≤ device.buffer + j ∧
      device.buffer + j < t.page + pageSize := by
  have hexists : ∃ i < device.pages length,
      SamePage (u64 (FrameBuffer.window offset + i * pageSize)) v := by
    by_contra hnone
    refine hne ((hmaps.others v fun i _ hi hsame => hnone ⟨i, by omega, hsame⟩).symm.trans hv)
  obtain ⟨i, hi, hsame⟩ := hexists
  obtain ⟨hbelow, hphysical, hbytes⟩ := FrameBuffer.page_lt haccepts hplaced hi
  rw [u64_of_lt (by omega)] at hsame
  rw [← translation_congr hsame, translation_window hmaps haccepts hoffset
    hplaced (Nat.le_add_right _ _) (by simp only [pageSize] at *; omega), Option.some.injEq] at hv
  rw [← hv]
  obtain ⟨-, -, hsize, hlength⟩ := haccepts
  simp only [FrameBuffer.firstPage, pageSize] at *
  refine ⟨if i = 0 then offset else offset + i * 4096 - device.buffer % 4096, ?_, ?_, ?_⟩ <;>
  · split_ifs <;> omega

/-! ### A call -/

/-- A call for the frame buffer goes on to the driver when a range has been chosen. -/
theorem handleMmap_frameBuffer (hdevice : MapsDevice files flags fileDescriptor device) :
    s.handleMmap fuel files address length protection flags fileDescriptor offset =
      if ValidRequest length flags offset then
        match s.chooseMappingStart fuel address (alignUpToPageBoundary length) flags with
        | none => none
        | some (s, .error error) => some (s, .error error)
        | some (s, .ok _) => some (s.mapFrameBuffer device length offset)
      else some (s, .error .einval) := by
  obtain ⟨hanonymous, hdescriptor, openFile, hfile, hmap⟩ := hdevice
  unfold handleMmap
  dsimp only
  by_cases hvalid : ValidRequest length flags offset
  · obtain ⟨hlength, hlt, haligned, hnone, hboth, hround⟩ := id hvalid
    rw [if_pos hvalid, if_neg hlength, if_neg (by simp only [not_or, not_not]; omega),
      if_neg (by simp only [not_or]; exact ⟨hnone, hboth⟩), if_neg hround]
    rcases s.chooseMappingStart fuel address (alignUpToPageBoundary length) flags with
      _ | ⟨s₁, error | start⟩
    · rfl
    · rfl
    · dsimp only
      rw [if_neg (by simpa using hanonymous), if_neg (not_le.mpr hdescriptor), hfile]
      dsimp only
      rw [hmap]
      dsimp only
      rw [mapFrameBuffer]
      rcases s₁.frameBufferMemoryMap device length offset with ⟨s₂, error | a⟩
      · rfl
      · dsimp only
        split_ifs
        · rfl
        · rfl
        · rcases s₂.registerProcessMapping (alignDownToPageBoundary a)
            (alignUpToPageBoundary (u64 (a - alignDownToPageBoundary a + length))) 0 false with
            ⟨s₃, _ | _⟩ <;> rfl
  · rw [if_neg hvalid]
    by_cases hlength : length = 0
    · rw [if_pos hlength]
    by_cases hoffset : 2 ^ 63 ≤ offset ∨ offset % pageSize ≠ 0
    · rw [if_neg hlength, if_pos hoffset]
    by_cases hsharing : flags &&& (linuxMapPrivate ||| linuxMapShared) = 0 ∨
        flags &&& (linuxMapPrivate ||| linuxMapShared) = linuxMapPrivate ||| linuxMapShared
    · rw [if_neg hlength, if_neg hoffset, if_pos hsharing]
    by_cases hround : alignUpToPageBoundary length = 0
    · rw [if_neg hlength, if_neg hoffset, if_neg hsharing, if_pos hround]
    · simp only [not_or, not_le, not_not] at hoffset hsharing
      exact absurd ⟨hlength, hoffset.1, hoffset.2, hsharing.1, hsharing.2, hround⟩ hvalid

/-- A call for the frame buffer leaves a process in order and has the result it should have. -/
structure FrameBufferDone (s s' : UserMemory) (others : List DyadicBlock) (device : FrameBuffer)
    (address length flags offset : ℕ) (r : Except LinuxError ℕ) : Prop where
  process : ∃ tables P, MappedProcess s' tables P others
  addressSpace : s'.addressSpace = s.addressSpace
  total : s'.pmm.memoryDescriptorInfo.totalNumberOfPages =
    s.pmm.memoryDescriptorInfo.totalNumberOfPages
  result : FrameBufferResult s s' device address length flags offset r

namespace MappedProcess

/-- When nothing is replaced, choosing a range changes nothing. -/
theorem chooseMappingStart_kept (h : MappedProcess s tables P others)
    (hfinds : FindsRange s address length flags) (hkept : ReplacesNothing s address length flags)
    (hfuel : s.pmm.memoryDescriptorInfo.totalNumberOfPages < fuel) :
    ∃ start, s.chooseMappingStart fuel address length flags = some (s, .ok start) := by
  by_cases hfixed : flags &&& linuxMapFixed ≠ 0
  · have haccepted : MunmapAccepted s address length := by
      rw [FindsRange, if_pos hfixed] at hfinds
      exact hfinds.2
    obtain ⟨s₁, hmunmap, -⟩ := h.handleMunmap_accepted haccepted
      (fun i hi hover => absurd hover (by simp [hkept hfixed i hi])) hfuel
    obtain rfl := handleMunmap_of_not_overlaps (hkept hfixed) h.owned.tables.root_ne_zero hmunmap
    exact ⟨address, chooseMappingStart_fixed hfixed hfinds hmunmap⟩
  · exact ⟨_, chooseMappingStart_free hfixed hfinds⟩

section

variable (hplaced : device.buffer + device.bufferSizeBytes ≤ 2 ^ 32)

include hplaced

section

variable (h : MappedProcess s tables P others) (hpos : 0 < length) (hoffset : offset % pageSize = 0)

include h hpos hoffset

/-- The driver refuses the call, or does not find a page for the first tables. -/
theorem mapFrameBuffer_kept
    (hfails : device.Accepts length offset → s.pmm.memoryDescriptorInfo.numberOfFreePages <
      (s.pmm.missingTables s.pageMapL4TableAddr
        (tablePaths (FrameBuffer.window offset))).card)
    (hrun : s.mapFrameBuffer device length offset = (s', r)) :
    FrameBufferDone s s' others device address length flags offset r := by
  by_cases haccepts : device.Accepts length offset
  · obtain ⟨m', failedAt, tables', hmap, hmaps, hprocess, htotal⟩ :=
      h.mapPages_frameBuffer haccepts hoffset hplaced
    have hcount : 0 < device.pages length := by
      simp only [FrameBuffer.pages, pageSize] at *
      omega
    obtain ⟨hlt, -⟩ := FrameBuffer.page_lt haccepts hplaced hcount
    have hu : u64 (FrameBuffer.window offset + 0 * pageSize) = FrameBuffer.window offset := by
      rw [u64_of_lt (by omega), Nat.zero_mul, Nat.add_zero]
    obtain ⟨hne, hsame⟩ := hmaps.refused hcount (by rw [hu]; exact hfails haccepts)
    obtain ⟨index, rfl⟩ := Option.ne_none_iff_exists'.mp hne
    rw [mapFrameBuffer_failed haccepts h.owned.tables.root_ne_zero hoffset hplaced hmap,
      Prod.mk.injEq] at hrun
    obtain ⟨rfl, rfl⟩ := hrun
    exact ⟨⟨tables', P, hprocess⟩, rfl, htotal, rfl, hsame⟩
  · obtain ⟨e, he⟩ := mapFrameBuffer_refused (s := s) haccepts
    rw [he, Prod.mk.injEq] at hrun
    obtain ⟨rfl, rfl⟩ := hrun
    exact ⟨⟨tables, P, h⟩, rfl, rfl, rfl, fun _ => rfl⟩

/-- The window is mapped and recorded. -/
theorem mapFrameBuffer_served (haccepts : device.Accepts length offset)
    (hroom : recordsInUse s.memoryMappings < maxMemoryMappingsPerProcess)
    (htables : (s.pmm.missingTables s.pageMapL4TableAddr (rangeTables
      (FrameBuffer.window offset) 0 (device.pages length))).card ≤
        s.pmm.memoryDescriptorInfo.numberOfFreePages)
    (hfree : ∀ j < maxMemoryMappingsPerProcess, ∀ v, FrameBuffer.window offset ≤ v →
      v < FrameBuffer.window offset + device.pages length * pageSize →
      ¬ Covers (s.memoryMappings j) v) (hrun : s.mapFrameBuffer device length offset = (s', r)) :
    (∃ tables', MappedProcess s' tables' P others) ∧ s'.addressSpace = s.addressSpace ∧
      s'.pmm.memoryDescriptorInfo.totalNumberOfPages =
        s.pmm.memoryDescriptorInfo.totalNumberOfPages ∧
      r = .ok (FrameBuffer.window offset + device.buffer % pageSize) ∧
      s.pmm.MapsPages s'.pmm s.pageMapL4TableAddr (device.firstPage offset)
        (FrameBuffer.window offset) ⟨true, true⟩ (device.pages length) 0 none := by
  obtain ⟨m', failedAt, tables', hmap, hmaps, hprocess, htotal⟩ :=
    h.mapPages_frameBuffer haccepts hoffset hplaced
  obtain rfl := hmaps.complete.mpr htables
  obtain ⟨i, hi, hempty, hdone⟩ := mapFrameBuffer_mapped haccepts h.owned.tables.root_ne_zero hoffset
    hplaced hpos hroom hmap
  rw [hdone, Prod.mk.injEq] at hrun
  obtain ⟨rfl, rfl⟩ := hrun
  have hcount : 0 < device.pages length := by
    simp only [FrameBuffer.pages, pageSize] at *
    omega
  obtain ⟨hlt, -⟩ := FrameBuffer.page_lt haccepts hplaced (i := device.pages length - 1) (by omega)
  refine ⟨⟨tables', hprocess.setMapping_device hi hempty ?_ (Nat.mul_mod_left _ _)
    (Nat.mul_pos hcount (by decide)) ?_ hfree⟩, rfl, htotal, rfl, hmaps⟩
  · simp only [FrameBuffer.window, userFramebufferMmapBase, pageSize] at *
    omega
  · simp only [pageSize] at *
    omega

end

/-- What the window shows once it is mapped, when the range asked for has been unmapped before. -/
theorem showsFrameBuffer_of_mapped {s₁ : UserMemory}
    (hserves : WindowServes s others device address length flags offset)
    (haccepts : device.Accepts length offset) (hpos : 0 < length) (hoffset : offset % pageSize = 0)
    (hroot : s'.pageMapL4TableAddr = s.pageMapL4TableAddr)
    (honly : s.pmm.OnlyUnmaps s₁.pmm s.pageMapL4TableAddr)
    (hmaps : s₁.pmm.MapsPages s'.pmm s.pageMapL4TableAddr (device.firstPage offset)
      (FrameBuffer.window offset) ⟨true, true⟩ (device.pages length) 0 none) :
    ShowsFrameBuffer s s' device address length flags offset
      (FrameBuffer.window offset + device.buffer % pageSize) := by
  have hwindow : FrameBuffer.window offset % pageSize = 0 := by
    simp only [FrameBuffer.window, userFramebufferMmapBase, pageSize] at *
    omega
  have hpages : device.buffer % pageSize + length ≤ device.pages length * pageSize := by
    simp only [FrameBuffer.pages, pageSize]
    omega
  refine ⟨fun i hi => ?_, fun v hv hbelow habove hout => ?_, fun hfixed => ?_, fun v t hv hne => ?_⟩
  · have htranslation := translation_window hmaps haccepts hoffset hplaced
      (v := FrameBuffer.window offset + device.buffer % pageSize + i) (by omega) (by omega)
    rw [byteAt, hroot, htranslation, Option.map_some, Option.some.injEq]
    simp only [FrameBuffer.firstPage, pageSize] at *
    omega
  · by_cases hfixed : flags &&& linuxMapFixed ≠ 0
    · obtain ⟨rfl, haligned, -⟩ := hserves.fixed hfixed
      have hround : length ≤ alignUpToPageBoundary length := by
        obtain ⟨-, -, hsize, hlength⟩ := haccepts
        rw [alignUpToPageBoundary_eq (by simp only [pageSize]; omega)]
        simp only [pageSize]
        omega
      refine absurd ⟨hfixed, hv, ?_, by omega⟩ hout
      simp only [pageSize] at *
      omega
    · refine hserves.unused hfixed v ⟨hv, ?_, by omega⟩
      simp only [pageSize] at *
      omega
  · obtain ⟨rfl, haligned, -⟩ := hserves.fixed hfixed
    rw [haligned, Nat.add_zero]
  · rw [hroot] at hv
    refine exposed_window hmaps haccepts hoffset hplaced hpos hv fun hsame => ?_
    rcases honly.translation v with hkept | hnone
    · exact hne (hkept.symm.trans hsame)
    · rw [hnone] at hsame
      exact absurd hsame (by simp)

/-- The driver's address serves the call. -/
theorem handleMmap_served (h : MappedProcess s tables P others)
    (hvalid : ValidRequest length flags offset)
    (hfinds : FindsRange s address (alignUpToPageBoundary length) flags)
    (haccepts : device.Accepts length offset)
    (hserves : WindowServes s others device address length flags offset)
    (hfuel : s.pmm.memoryDescriptorInfo.totalNumberOfPages < fuel) :
    ∃ s₁ start, s.chooseMappingStart fuel address (alignUpToPageBoundary length) flags =
        some (s₁, .ok start) ∧
      ∀ s' r, s₁.mapFrameBuffer device length offset = (s', r) →
        FrameBufferDone s s' others device address length flags offset r := by
  obtain ⟨hlength, -, hoffset, -⟩ := hvalid
  have hpos : 0 < length := Nat.pos_of_ne_zero hlength
  -- the state in which the driver is called
  obtain ⟨s₁, start, P₁, hchoose, h₁, hspace, htotal, honly, hroom, hfree, hnone⟩ :
      ∃ s₁ start P₁, s.chooseMappingStart fuel address (alignUpToPageBoundary length) flags =
          some (s₁, .ok start) ∧ MappedProcess s₁ tables P₁ others ∧
        s₁.addressSpace = s.addressSpace ∧
        s₁.pmm.memoryDescriptorInfo.totalNumberOfPages =
          s.pmm.memoryDescriptorInfo.totalNumberOfPages ∧
        s.pmm.OnlyUnmaps s₁.pmm s.pageMapL4TableAddr ∧
        recordsInUse s₁.memoryMappings < maxMemoryMappingsPerProcess ∧
        (s.pmm.missingTables s.pageMapL4TableAddr (rangeTables
          (FrameBuffer.window offset) 0 (device.pages length))).card ≤
            s₁.pmm.memoryDescriptorInfo.numberOfFreePages ∧
        ∀ j < maxMemoryMappingsPerProcess, ∀ v, FrameBuffer.window offset ≤ v →
          v < FrameBuffer.window offset + device.pages length * pageSize →
          ¬ Covers (s₁.memoryMappings j) v := by
    have hroom := hserves.room
    have htables := hserves.tables
    by_cases hfixed : flags &&& linuxMapFixed ≠ 0
    · rw [if_pos hfixed] at hroom htables
      obtain ⟨rfl, haligned, hsafe⟩ := hserves.fixed hfixed
      have haccepted : MunmapAccepted s (FrameBuffer.window offset)
          (alignUpToPageBoundary length) := by
        rw [FindsRange, if_pos hfixed] at hfinds
        exact hfinds.2
      obtain ⟨s₁, hmunmap, hunmapped⟩ := h.handleMunmap_accepted haccepted hsafe hfuel
      obtain ⟨P₁, h₁⟩ := hunmapped.process
      refine ⟨s₁, _, P₁, chooseMappingStart_fixed hfixed hfinds hmunmap, h₁,
        hunmapped.addressSpace, hunmapped.total, hunmapped.only, ?_, ?_, fun j hj v hle hlt hv => ?_⟩
      · rwa [hunmapped.inUse]
      · rwa [hunmapped.free]
      · have hend : munmapEnd (FrameBuffer.window offset) (alignUpToPageBoundary length) =
            FrameBuffer.window offset + device.pages length * pageSize := by
          obtain ⟨-, -, hsize, hle'⟩ := haccepts
          have hround : alignUpToPageBoundary length = device.pages length * pageSize := by
            rw [alignUpToPageBoundary_eq (by simp only [pageSize]; omega), FrameBuffer.pages,
              haligned, Nat.zero_add, Nat.add_sub_assoc (by decide)]
          have hsmall : alignUpToPageBoundary length ≤ 2 ^ 33 := by
            rw [hround, FrameBuffer.pages, haligned]
            simp only [pageSize]
            omega
          rw [munmapEnd, alignUpToPageBoundary_self, u64_of_lt (by
            simp only [FrameBuffer.window, userFramebufferMmapBase]
            omega), hround]
        have hout := (hunmapped.pieces j hj v hv).2
        omega
    · rw [if_neg hfixed] at hroom htables
      refine ⟨s, _, P, chooseMappingStart_free hfixed hfinds, h, rfl, rfl, .refl _ _, hroom,
        by omega, fun j hj v hle hlt hv => ?_⟩
      obtain ⟨hmod, hcovers⟩ := covers_page (h.owned.regular j hj hv.1) hv
      refine (hserves.unused hfixed (v - v % pageSize) ⟨hmod, ?_, by omega⟩).2 j hj hcovers
      simp only [FrameBuffer.window, userFramebufferMmapBase, pageSize] at *
      omega
  have hroot : s₁.pageMapL4TableAddr = s.pageMapL4TableAddr := by
    simp only [pageMapL4TableAddr, hspace]
  refine ⟨s₁, start, hchoose, fun s' r hrun => ?_⟩
  rw [← honly.missingTables_eq, ← hroot] at hfree
  obtain ⟨⟨tables', h'⟩, hspace', htotal', rfl, hmaps⟩ :=
    h₁.mapFrameBuffer_served hplaced hpos hoffset haccepts hroom hfree hnone hrun
  rw [hroot] at hmaps
  refine ⟨⟨tables', P₁, h'⟩, hspace'.trans hspace, htotal'.trans htotal, ?_⟩
  exact showsFrameBuffer_of_mapped hplaced hserves haccepts hpos hoffset
    (by simp only [pageMapL4TableAddr, hspace', hspace]) honly hmaps

/-- A call for the frame buffer that meets the condition. -/
theorem handleMmap_device (h : MappedProcess s tables P others)
    (hfuel : s.pmm.memoryDescriptorInfo.totalNumberOfPages < fuel)
    (hdevice : MapsDevice files flags fileDescriptor device)
    (hmeets : ValidRequest length flags offset →
      FindsRange s address (alignUpToPageBoundary length) flags →
      FrameBufferMeets s others device address length flags offset)
    (hrun : s.handleMmap fuel files address length protection flags fileDescriptor offset =
      some (s', r)) : FrameBufferDone s s' others device address length flags offset r := by
  have hsame : ∀ {e}, some (s, Except.error e) = some (s', r) →
      FrameBufferDone s s' others device address length flags offset r := by
    rintro e he
    obtain ⟨rfl, rfl⟩ := Prod.mk.inj (Option.some.inj he)
    exact ⟨⟨tables, P, h⟩, rfl, rfl, rfl, fun _ => rfl⟩
  rw [handleMmap_frameBuffer hdevice] at hrun
  by_cases hvalid : ValidRequest length flags offset
  · rw [if_pos hvalid] at hrun
    by_cases hfinds : FindsRange s address (alignUpToPageBoundary length) flags
    · have hkept : ReplacesNothing s address (alignUpToPageBoundary length) flags →
          (device.Accepts length offset → s.pmm.memoryDescriptorInfo.numberOfFreePages <
            (s.pmm.missingTables s.pageMapL4TableAddr
              (tablePaths (FrameBuffer.window offset))).card) →
          FrameBufferDone s s' others device address length flags offset r := by
        intro hkept hfails
        obtain ⟨start, hchoose⟩ := h.chooseMappingStart_kept hfinds hkept hfuel
        rw [hchoose] at hrun
        exact h.mapFrameBuffer_kept hplaced (Nat.pos_of_ne_zero hvalid.1) hvalid.2.2.1 hfails
          (Option.some.inj hrun)
      cases hmeets hvalid hfinds with
      | refused hrefused hreplaces => exact hkept hreplaces fun haccepts => absurd haccepts hrefused
      | noTables _ hreplaces hfew => exact hkept hreplaces fun _ => hfew
      | served haccepts hserves =>
        obtain ⟨s₁, start, hchoose, hresult⟩ :=
          h.handleMmap_served hplaced hvalid hfinds haccepts hserves hfuel
        rw [hchoose] at hrun
        exact hresult s' r (Option.some.inj hrun)
    · obtain ⟨e, he⟩ := chooseMappingStart_refused fuel hfinds
      rw [he] at hrun
      exact hsame hrun
  · rw [if_neg hvalid] at hrun
    exact hsame hrun

end

end MappedProcess

/-! ### Runs -/

/-- New pages are mapped in the lower half, and no block that is freed for them has a page in
use. -/
structure PlacesPages (s : UserMemory) (others : List DyadicBlock) (address length flags : ℕ) :
    Prop where
  fixed : flags &&& linuxMapFixed ≠ 0 → address + length ≤ 2 ^ 47 ∧
    ∀ i < maxMemoryMappingsPerProcess, ReleaseSafe s.pmm (Unclaimed s others) address
      (munmapEnd address (alignUpToPageBoundary length)) (s.memoryMappings i)
  free : ¬ flags &&& linuxMapFixed ≠ 0 →
    s.findFreeMappingAddress address (alignUpToPageBoundary length) + length ≤ 2 ^ 47

/-- A call of `mmap` or `munmap`, with whatever result, that meets the condition. -/
inductive FrameBufferCall (fuel : ℕ) (others : List DyadicBlock) (s s' : UserMemory) : Prop
  | munmap (address length : ℕ) (r : Except LinuxError Unit)
    (hsafe : ∀ i < maxMemoryMappingsPerProcess, ReleaseSafe s.pmm (Unclaimed s others) address
      (munmapEnd address length) (s.memoryMappings i))
    (hrun : s.handleMunmap fuel address length = some (s', r))
  | mmap (files : ℕ → Option OpenFile)
    (address length protection flags fileDescriptor offset : ℕ) (r : Except LinuxError ℕ)
    (hpages : (∀ device, ¬ MapsDevice files flags fileDescriptor device) →
      ValidRequest length flags offset →
      FindsRange s address (alignUpToPageBoundary length) flags →
      PlacesPages s others address length flags)
    (hrun : s.handleMmap fuel files address length protection flags fileDescriptor offset =
      some (s', r))
    (hdevice : ∀ device, MapsDevice files flags fileDescriptor device →
      device.buffer + device.bufferSizeBytes ≤ 2 ^ 32 ∧ (ValidRequest length flags offset →
        FindsRange s address (alignUpToPageBoundary length) flags →
        FrameBufferMeets s others device address length flags offset))

/-- Finitely many calls that meet the condition. -/
inductive FrameBufferRun (fuel : ℕ) (others : List DyadicBlock) (s₀ : UserMemory) :
    UserMemory → Prop
  | refl : FrameBufferRun fuel others s₀ s₀
  | step {s s' : UserMemory} (hrun : FrameBufferRun fuel others s₀ s)
    (hcall : FrameBufferCall fuel others s s') : FrameBufferRun fuel others s₀ s'

/-- What `mmap` does for pages without a file or with a copied one. -/
theorem handleMmap_newPages (hpages : ∀ device, ¬ MapsDevice files flags fileDescriptor device)
    (hrun : s.handleMmap fuel files address length protection flags fileDescriptor offset =
      some (s', r)) :
    s' = s ∨ ValidRequest length flags offset ∧ ∃ s₁ r₁,
      s.chooseMappingStart fuel address (alignUpToPageBoundary length) flags = some (s₁, r₁) ∧
      (s' = s₁ ∨ ∃ start contents, r₁ = .ok start ∧
        s₁.mapNewPages fuel start (alignUpToPageBoundary length) protection contents =
          some (s', r)) := by
  unfold handleMmap at hrun
  dsimp only at hrun
  by_cases hlength : length = 0
  · rw [if_pos hlength] at hrun
    exact .inl (Prod.mk.inj (Option.some.inj hrun)).1.symm
  by_cases hoffset : 2 ^ 63 ≤ offset ∨ offset % pageSize ≠ 0
  · rw [if_neg hlength, if_pos hoffset] at hrun
    exact .inl (Prod.mk.inj (Option.some.inj hrun)).1.symm
  by_cases hsharing : flags &&& (linuxMapPrivate ||| linuxMapShared) = 0 ∨
      flags &&& (linuxMapPrivate ||| linuxMapShared) = linuxMapPrivate ||| linuxMapShared
  · rw [if_neg hlength, if_neg hoffset, if_pos hsharing] at hrun
    exact .inl (Prod.mk.inj (Option.some.inj hrun)).1.symm
  by_cases hround : alignUpToPageBoundary length = 0
  · rw [if_neg hlength, if_neg hoffset, if_neg hsharing, if_pos hround] at hrun
    exact .inl (Prod.mk.inj (Option.some.inj hrun)).1.symm
  rw [if_neg hlength, if_neg hoffset, if_neg hsharing, if_neg hround] at hrun
  simp only [not_or, not_le, not_not] at hoffset hsharing
  refine .inr ⟨⟨hlength, hoffset.1, hoffset.2, hsharing.1, hsharing.2, hround⟩, ?_⟩
  rcases hchoose : s.chooseMappingStart fuel address (alignUpToPageBoundary length) flags with
    _ | ⟨s₁, error | start⟩ <;> rw [hchoose] at hrun <;> dsimp only at hrun
  · simp at hrun
  · exact ⟨s₁, _, rfl, .inl (Prod.mk.inj (Option.some.inj hrun)).1.symm⟩
  refine ⟨s₁, _, rfl, ?_⟩
  split_ifs at hrun with hanonymous hdescriptor
  · exact .inr ⟨start, _, rfl, hrun⟩
  · exact .inl (Prod.mk.inj (Option.some.inj hrun)).1.symm
  cases hopen : files fileDescriptor with
  | none =>
    rw [hopen] at hrun
    exact .inl (Prod.mk.inj (Option.some.inj hrun)).1.symm
  | some openFile =>
    rw [hopen] at hrun
    dsimp only at hrun
    rcases hmap : openFile.memoryMap with _ | (_ | error | device) <;> rw [hmap] at hrun <;>
      dsimp only at hrun
    · exact .inl (Prod.mk.inj (Option.some.inj hrun)).1.symm
    · split_ifs at hrun
      · exact .inr ⟨start, _, rfl, hrun⟩
      · exact .inl (Prod.mk.inj (Option.some.inj hrun)).1.symm
    · exact .inl (Prod.mk.inj (Option.some.inj hrun)).1.symm
    · exact absurd ⟨not_not.mp hanonymous, not_le.mp hdescriptor, openFile, hopen, hmap⟩
        (hpages device)

namespace MappedProcess

/-- A range that has been chosen for new pages lies in the lower half and has no record in it. -/
theorem chooseMappingStart_pages {s₁ : UserMemory} {r₁ : Except LinuxError ℕ}
    (h : MappedProcess s tables P others) (hvalid : ValidRequest length flags offset)
    (hplaces : FindsRange s address (alignUpToPageBoundary length) flags →
      PlacesPages s others address length flags)
    (hfuel : s.pmm.memoryDescriptorInfo.totalNumberOfPages < fuel)
    (hrun : s.chooseMappingStart fuel address (alignUpToPageBoundary length) flags =
      some (s₁, r₁)) :
    (∃ P₁, MappedProcess s₁ tables P₁ others) ∧ s₁.addressSpace = s.addressSpace ∧
      s₁.pmm.memoryDescriptorInfo.totalNumberOfPages =
        s.pmm.memoryDescriptorInfo.totalNumberOfPages ∧
      ∀ start, r₁ = .ok start → start % pageSize = 0 ∧
        start + alignUpToPageBoundary length ≤ 2 ^ 47 ∧
        ∀ j < maxMemoryMappingsPerProcess, ∀ v, start ≤ v →
          v < start + alignUpToPageBoundary length → ¬ Covers (s₁.memoryMappings j) v := by
  have hround := hvalid.2.2.2.2.2
  by_cases hfinds : FindsRange s address (alignUpToPageBoundary length) flags
  · by_cases hfixed : flags &&& linuxMapFixed ≠ 0
    · obtain ⟨hend, hsafe⟩ := (hplaces hfinds).fixed hfixed
      obtain ⟨-, haccepted⟩ : _ ∧ MunmapAccepted s address (alignUpToPageBoundary length) := by
        rwa [FindsRange, if_pos hfixed] at hfinds
      have haddress := haccepted.2.1
      have hle := add_alignUpToPageBoundary_le haddress hend
      obtain ⟨s₂, hmunmap, hunmapped⟩ := h.handleMunmap_accepted haccepted hsafe hfuel
      rw [chooseMappingStart_fixed hfixed hfinds hmunmap, Option.some.injEq, Prod.mk.injEq] at hrun
      obtain ⟨rfl, rfl⟩ := hrun
      refine ⟨hunmapped.process, hunmapped.addressSpace, hunmapped.total, ?_⟩
      rintro start ⟨rfl⟩
      refine ⟨haddress, hle, fun j hj v hv hlt hcovers => ?_⟩
      have hout := (hunmapped.pieces j hj v hcovers).2
      rw [munmapEnd_eq haddress hle, alignUpToPageBoundary_self] at hout
      omega
    · have hend := (hplaces hfinds).free hfixed
      rw [chooseMappingStart_free hfixed hfinds, Option.some.injEq, Prod.mk.injEq] at hrun
      obtain ⟨rfl, rfl⟩ := hrun
      rw [FindsRange, if_neg hfixed] at hfinds
      have hmod := (findFreeMappingAddress_spec rfl hfinds).1
      have hle := add_alignUpToPageBoundary_le hmod hend
      refine ⟨⟨P, h⟩, rfl, rfl, ?_⟩
      rintro start ⟨rfl⟩
      exact ⟨hmod, hle, h.owned.not_covers_findFreeMappingAddress hround hle hfinds⟩
  · obtain ⟨e, he⟩ := chooseMappingStart_refused fuel hfinds
    rw [he, Option.some.injEq, Prod.mk.injEq] at hrun
    obtain ⟨rfl, rfl⟩ := hrun
    exact ⟨⟨P, h⟩, rfl, rfl, by simp⟩

theorem frameBufferCall (h : MappedProcess s tables P others)
    (hfuel : s.pmm.memoryDescriptorInfo.totalNumberOfPages < fuel)
    (hcall : FrameBufferCall fuel others s s') :
    (∃ tables' P', MappedProcess s' tables' P' others) ∧
      s'.pmm.memoryDescriptorInfo.totalNumberOfPages =
        s.pmm.memoryDescriptorInfo.totalNumberOfPages := by
  cases hcall with
  | munmap address length r hsafe hrun =>
    by_cases haccepted : MunmapAccepted s address length
    · obtain ⟨s₁, hmunmap, hunmapped⟩ := h.handleMunmap_accepted haccepted hsafe hfuel
      obtain ⟨rfl, -⟩ := Prod.mk.inj (Option.some.inj (hmunmap.symm.trans hrun))
      exact ⟨⟨tables, hunmapped.process⟩, hunmapped.total⟩
    · obtain ⟨e, he⟩ := handleMunmap_refused fuel haccepted
      obtain ⟨rfl, -⟩ := Prod.mk.inj (Option.some.inj (he.symm.trans hrun))
      exact ⟨⟨tables, P, h⟩, rfl⟩
  | mmap files address length protection flags fileDescriptor offset r hpages hrun hdevice =>
    by_cases hmaps : ∃ device, MapsDevice files flags fileDescriptor device
    · obtain ⟨device, hmaps⟩ := hmaps
      obtain ⟨hplaced, hmeets⟩ := hdevice device hmaps
      have hdone := h.handleMmap_device hplaced hfuel hmaps hmeets hrun
      exact ⟨hdone.process, hdone.total⟩
    · have hnot := not_exists.mp hmaps
      rcases handleMmap_newPages hnot hrun with rfl | ⟨hvalid, s₁, r₁, hchoose, hdone⟩
      · exact ⟨⟨tables, P, h⟩, rfl⟩
      · obtain ⟨⟨P₁, h₁⟩, -, htotal, hrange⟩ :=
          h.chooseMappingStart_pages hvalid (hpages hnot hvalid) hfuel hchoose
        rcases hdone with rfl | ⟨start, contents, rfl, hnew⟩
        · exact ⟨⟨tables, P₁, h₁⟩, htotal⟩
        · obtain ⟨hstart, hend, hfree⟩ := hrange start rfl
          obtain ⟨tables', P', h', -, htotal'⟩ := h₁.mapNewPages hstart
            (alignUpToPageBoundary_mod length) (Nat.pos_of_ne_zero hvalid.2.2.2.2.2) hend hfree
            (by rwa [htotal]) hnew
          exact ⟨⟨tables', P', h'⟩, htotal'.trans htotal⟩

end MappedProcess

/-- Every reached state satisfies the invariant. -/
theorem FrameBufferRun.mappedProcess (hstart : MappedProcess s₀ tables P others)
    (hfuel : s₀.pmm.memoryDescriptorInfo.totalNumberOfPages < fuel)
    (hrun : FrameBufferRun fuel others s₀ s) :
    (∃ tables' P', MappedProcess s tables' P' others) ∧
      s.pmm.memoryDescriptorInfo.totalNumberOfPages =
        s₀.pmm.memoryDescriptorInfo.totalNumberOfPages := by
  induction hrun with
  | refl => exact ⟨⟨tables, P, hstart⟩, rfl⟩
  | step hrun hcall ih =>
    obtain ⟨⟨tables₁, P₁, h₁⟩, htotal⟩ := ih
    obtain ⟨h', htotal'⟩ := h₁.frameBufferCall (by rwa [htotal]) hcall
    exact ⟨h', htotal'.trans htotal⟩

/-- In every run whose calls meet the condition, a call that maps the frame buffer shows the frame
buffer and displaces nothing, or it changes nothing. -/
theorem FrameBufferRun.frameBufferResult (hstart : MappedProcess s₀ tables P others)
    (hfuel : s₀.pmm.memoryDescriptorInfo.totalNumberOfPages < fuel)
    (hrun : FrameBufferRun fuel others s₀ s)
    (hdevice : MapsDevice files flags fileDescriptor device)
    (hplaced : device.buffer + device.bufferSizeBytes ≤ 2 ^ 32)
    (hmeets : ValidRequest length flags offset →
      FindsRange s address (alignUpToPageBoundary length) flags →
      FrameBufferMeets s others device address length flags offset)
    (hcall : s.handleMmap fuel files address length protection flags fileDescriptor offset =
      some (s', r)) :
    FrameBufferResult s s' device address length flags offset r := by
  obtain ⟨⟨tables₁, P₁, h⟩, htotal⟩ := hrun.mappedProcess hstart hfuel
  exact (h.handleMmap_device hplaced (by rwa [htotal]) hdevice hmeets hcall).result

/-! ### An example -/

/-- A frame buffer that does not start at a page. -/
def unalignedFrameBuffer : FrameBuffer := ⟨true, 0x80000800, 0x10000⟩

/-- The frame buffer is open under descriptor 3. -/
def frameBufferFiles (fileDescriptor : ℕ) : Option OpenFile :=
  if fileDescriptor = 3 then
    some ⟨some (.frameBuffer unalignedFrameBuffer), true, fun _ _ => .error .einval⟩
  else none

theorem emptyTables_sevenPagesProcess : EmptyTables sevenPagesProcess.pmm
    sevenPagesProcess.pageMapL4TableAddr (unitBlocks [6]) := by
  have hvalid := tables_sevenPagesProcess.valid
  have hroot : sevenPagesProcess.pageMapL4TableAddr = sevenPagesProcess.pmm.pageAddress 6 := by
    decide +kernel
  refine ⟨by decide +kernel, by decide +kernel, by decide +kernel, by simpa [unitBlocks] using hvalid,
    by decide +kernel, by decide +kernel, fun k hk heq => ?_⟩
  rw [hroot] at heq
  obtain rfl := sevenPagesProcess.pmm.pageAddress_injective heq
  exact ((hvalid.pageFree_iff 6).mp hk).2 ⟨6, 0⟩ (by simp [unitBlocks])
    (DyadicBlock.contains_start ⟨6, 0⟩)

theorem mappedProcess_sevenPagesProcess : MappedProcess sevenPagesProcess [6] [] [] :=
  .of_empty tables_sevenPagesProcess ⟨_, emptyTables_sevenPagesProcess.mappedTables⟩
    (by unfold OrdersFit; decide +kernel) fun _ _ => rfl

/-- The second page of the frame buffer. -/
theorem FrameBufferRun.frameBufferResult_secondPage : ∃ s',
    sevenPagesProcess.handleMmap 8 frameBufferFiles 0 pageSize 3 linuxMapShared 3 pageSize =
      some (s', .ok 0x700000001800) ∧
    FrameBufferResult sevenPagesProcess s' unalignedFrameBuffer 0 pageSize linuxMapShared pageSize
      (.ok 0x700000001800) := by
  have hresult : (sevenPagesProcess.handleMmap 8 frameBufferFiles 0 pageSize 3 linuxMapShared 3
      pageSize).map Prod.snd = some (.ok 0x700000001800) := by
    decide +kernel
  have hshared : ¬ linuxMapShared &&& linuxMapFixed ≠ 0 := by decide
  have hnone : ∀ v, ∀ i < maxMemoryMappingsPerProcess,
      ¬ Covers (sevenPagesProcess.memoryMappings i) v := fun v i _ hv => Bool.false_ne_true hv.1
  obtain ⟨⟨s', r⟩, hcall, rfl⟩ := Option.map_eq_some_iff.mp hresult
  have hdevice : MapsDevice frameBufferFiles linuxMapShared 3 unalignedFrameBuffer :=
    ⟨by decide, by decide, _, rfl, rfl⟩
  refine ⟨s', hcall, FrameBufferRun.frameBufferResult mappedProcess_sevenPagesProcess
    (by decide) .refl hdevice (by decide) (fun _ _ => .served (by decide)
    ⟨?_, ?_, fun hfixed => absurd hfixed hshared, fun _ v _ =>
      ⟨emptyTables_sevenPagesProcess.translation_eq_none v, hnone v⟩⟩) hcall⟩
  · rw [if_neg hshared]
    decide +kernel
  · rw [if_neg hshared]
    decide +kernel

/-- The driver's address is not the one asked for with `LINUX_MAP_FIXED`. -/
theorem FrameBufferRun.not_placed : ∃ s' a,
    sevenPagesProcess.handleMmap 8 frameBufferFiles 0x40000000 pageSize 3
      (linuxMapShared ||| linuxMapFixed) 3 0 = some (s', .ok a) ∧
    ¬ FrameBufferResult sevenPagesProcess s' unalignedFrameBuffer 0x40000000 pageSize
      (linuxMapShared ||| linuxMapFixed) 0 (.ok a) := by
  have hresult : (sevenPagesProcess.handleMmap 8 frameBufferFiles 0x40000000 pageSize 3
      (linuxMapShared ||| linuxMapFixed) 3 0).map Prod.snd = some (.ok 0x700000000800) := by
    decide +kernel
  obtain ⟨⟨s', r⟩, hcall, rfl⟩ := Option.map_eq_some_iff.mp hresult
  refine ⟨s', _, hcall, fun hshows => ?_⟩
  exact absurd (hshows.placed (by decide)) (by decide)

end UserMemory

end TwistedOS
