import TwistedOS.UserMemory.MappedProcesses

/-!
# Mapping the frame buffer

The driver of the frame buffer maps its pages at an address of its own, `USER_FRAMEBUFFER_MMAP_BASE`
and the offset asked for. `mmap` has chosen a range before, has unmapped the one asked for with
`LINUX_MAP_FIXED`, and records afterwards what the driver has mapped.

## Main definitions

* `FrameBuffer.Accepts`, `FrameBuffer.window`, `FrameBuffer.pages`: the pages that are mapped.
* `UserMemory.mapFrameBuffer`: what `mmap` does when it has chosen a range.

## Main results

* `UserMemory.MappedProcess.mapPages_frameBuffer`: what the driver does.
* `UserMemory.mapFrameBuffer_mapped`: a mapped frame buffer shows the frame buffer.
-/

namespace TwistedOS

open RadixTree ProcessMemoryMapping

namespace FrameBuffer

/-- The driver maps this part of the frame buffer. -/
def Accepts (device : FrameBuffer) (length offset : ℕ) : Prop :=
  device.valid = true ∧ device.buffer ≠ 0 ∧ offset ≤ device.bufferSizeBytes ∧
    length ≤ device.bufferSizeBytes - offset

instance (device : FrameBuffer) (length offset : ℕ) : Decidable (device.Accepts length offset) :=
  inferInstanceAs (Decidable (_ ∧ _ ∧ _ ∧ _))

/-- The address at which the driver maps the part from an offset on. -/
def window (offset : ℕ) : ℕ := userFramebufferMmapBase + offset

/-- The number of pages that the part takes. -/
def pages (device : FrameBuffer) (length : ℕ) : ℕ :=
  (device.buffer % pageSize + length + pageSize - 1) / pageSize

/-- The first of its pages. -/
def firstPage (device : FrameBuffer) (offset : ℕ) : ℕ :=
  device.buffer + offset - device.buffer % pageSize

end FrameBuffer

namespace UserMemory

/-- What `mmap` does for the frame buffer when a range has been chosen. -/
def mapFrameBuffer (s : UserMemory) (device : FrameBuffer) (length offset : ℕ) :
    UserMemory × Except LinuxError ℕ :=
  match s.frameBufferMemoryMap device length offset with
  | (s, .error error) => (s, .error error)
  | (s, .ok fileMappedAddress) =>
    if fileMappedAddress = 0 then (s, .error .efault)
    else
      let registeredStart := alignDownToPageBoundary fileMappedAddress
      let registeredLength :=
        alignUpToPageBoundary (u64 (fileMappedAddress - registeredStart + length))
      if registeredLength = 0 then (s, .error .einval)
      else
        match s.registerProcessMapping registeredStart registeredLength 0 false with
        | (s, false) => (s, .error .enomem)
        | (s, true) => (s, .ok fileMappedAddress)

/-- The physical address of the byte that user mode finds at an address. -/
def byteAt (s : UserMemory) (v : ℕ) : Option ℕ :=
  (s.pmm.translation s.pageMapL4TableAddr v).map fun t => t.page + v % pageSize

variable {s s' : UserMemory} {tables P : List ℕ} {others : List DyadicBlock} {fuel : ℕ}
  {device : FrameBuffer} {length offset : ℕ}

/-! ### The driver -/

theorem frameBufferMemoryMap_refused (h : ¬ device.Accepts length offset) :
    ∃ e, s.frameBufferMemoryMap device length offset = (s, .error e) := by
  unfold frameBufferMemoryMap
  split_ifs with hdevice hoffset hlength hroot
  · exact ⟨_, rfl⟩
  · exact ⟨_, rfl⟩
  · exact ⟨_, rfl⟩
  · exact ⟨_, rfl⟩
  · rw [not_or, not_not] at hdevice
    exact absurd ⟨hdevice.1, hdevice.2, by omega, by omega⟩ h

section

variable (h : device.Accepts length offset)

include h

/-- The loop of the driver, for a frame buffer below 4 GiB. -/
theorem frameBufferMemoryMap_accepted (hroot : s.pageMapL4TableAddr ≠ 0)
    (hoffset : offset % pageSize = 0) (hplaced : device.buffer + device.bufferSizeBytes ≤ 2 ^ 32) :
    s.frameBufferMemoryMap device length offset =
      match s.pmm.mapPages s.pageMapL4TableAddr (device.firstPage offset)
        (FrameBuffer.window offset) ⟨true, true⟩ (device.pages length) 0 with
      | (m, some _) => (s.setPmm m, .error .efault)
      | (m, none) =>
        (s.setPmm m, .ok (FrameBuffer.window offset + device.buffer % pageSize)) := by
  obtain ⟨hvalid, hbuffer, hle, hlength⟩ := h
  have hphysical : u64 (device.buffer + offset) = device.buffer + offset := u64_of_lt (by omega)
  have hmod : (device.buffer + offset) % pageSize = device.buffer % pageSize := by
    simp only [pageSize] at *
    omega
  have hin : device.buffer % pageSize < pageSize := Nat.mod_lt _ (by decide)
  have hsize : u64 (device.buffer % pageSize + length) = device.buffer % pageSize + length :=
    u64_of_lt (by simp only [pageSize] at *; omega)
  have hround : u64 (device.buffer % pageSize + length + pageSize - 1) =
      device.buffer % pageSize + length + pageSize - 1 :=
    u64_of_lt (by simp only [pageSize] at *; omega)
  have hwindow : u64 (userFramebufferMmapBase + offset) = userFramebufferMmapBase + offset :=
    u64_of_lt (by simp only [userFramebufferMmapBase]; omega)
  have haligned : (userFramebufferMmapBase + offset) % pageSize = 0 := by
    simp only [userFramebufferMmapBase, pageSize] at *
    omega
  have haddress : u64 (userFramebufferMmapBase + offset + device.buffer % pageSize) =
      userFramebufferMmapBase + offset + device.buffer % pageSize :=
    u64_of_lt (by simp only [userFramebufferMmapBase, pageSize] at *; omega)
  rw [frameBufferMemoryMap, if_neg (by simp [hvalid, hbuffer]), if_neg (by omega),
    if_neg (by omega), if_neg hroot]
  rcases hmap : s.pmm.mapPages s.pageMapL4TableAddr (device.firstPage offset)
    (FrameBuffer.window offset) ⟨true, true⟩ (device.pages length) 0 with ⟨m, _ | mapped⟩ <;>
  · simp only [FrameBuffer.window, FrameBuffer.pages, FrameBuffer.firstPage] at hmap
    simp only [hphysical, hmod, hsize, hround, hwindow, haligned, Nat.sub_zero, haddress, hmap,
      FrameBuffer.window]

/-- The pages of the window lie in the lower half, and those of the frame buffer below 4 GiB. -/
theorem FrameBuffer.page_lt (hplaced : device.buffer + device.bufferSizeBytes ≤ 2 ^ 32) {i : ℕ}
    (hi : i < device.pages length) :
    FrameBuffer.window offset + i * pageSize + pageSize ≤ 2 ^ 47 ∧
      device.firstPage offset + i * pageSize < device.buffer + offset + length ∧
      i * pageSize < device.buffer % pageSize + length := by
  obtain ⟨-, -, hle, hlength⟩ := h
  simp only [FrameBuffer.pages, FrameBuffer.window, FrameBuffer.firstPage,
    userFramebufferMmapBase, pageSize] at *
  omega

/-- The pages of the window are different ones. -/
theorem FrameBuffer.not_samePage (hplaced : device.buffer + device.bufferSizeBytes ≤ 2 ^ 32)
    (hoffset : offset % pageSize = 0) {i j : ℕ} (hij : i < j) (hj : j < device.pages length) :
    ¬ SamePage (u64 (FrameBuffer.window offset + i * pageSize))
      (u64 (FrameBuffer.window offset + j * pageSize)) := by
  obtain ⟨hlt, -⟩ := FrameBuffer.page_lt h hplaced hj
  rw [u64_of_lt (by simp only [pageSize] at *; omega), u64_of_lt (by omega)]
  simp only [SamePage, FrameBuffer.window, userFramebufferMmapBase, pageSize] at *
  omega

end

namespace MappedProcess

/-- The loop of the driver keeps the mappings as they are. -/
theorem mapPages_frameBuffer (h : MappedProcess s tables P others)
    (haccepts : device.Accepts length offset) (hoffset : offset % pageSize = 0)
    (hplaced : device.buffer + device.bufferSizeBytes ≤ 2 ^ 32) :
    ∃ m' failedAt tables',
      s.pmm.mapPages s.pageMapL4TableAddr (device.firstPage offset) (FrameBuffer.window offset)
        ⟨true, true⟩ (device.pages length) 0 = (m', failedAt) ∧
      s.pmm.MapsPages m' s.pageMapL4TableAddr (device.firstPage offset)
        (FrameBuffer.window offset) ⟨true, true⟩ (device.pages length) 0 failedAt ∧
      MappedProcess (s.setPmm m') tables' P others ∧
      m'.memoryDescriptorInfo.totalNumberOfPages =
        s.pmm.memoryDescriptorInfo.totalNumberOfPages := by
  obtain ⟨live, hmapped⟩ := h.beside.mapped
  have hphysical : ∀ i, 0 ≤ i → i < 0 + device.pages length →
      u64 (device.firstPage offset + i * pageSize) % pageSize = 0 ∧
        u64 (device.firstPage offset + i * pageSize) < 2 ^ 32 := by
    intro i _ hi
    obtain ⟨-, hlt, -⟩ := FrameBuffer.page_lt haccepts hplaced (i := i) (by omega)
    obtain ⟨-, -, hle, hlength⟩ := haccepts
    rw [u64_of_lt (by omega)]
    simp only [FrameBuffer.firstPage, pageSize] at *
    omega
  have hlower : ∀ i, 0 ≤ i → i < 0 + device.pages length →
      pml4Index (u64 (FrameBuffer.window offset + i * pageSize)) < 256 := by
    intro i _ hi
    obtain ⟨hlt, -⟩ := FrameBuffer.page_lt haccepts hplaced (i := i) (by omega)
    refine pml4Index_lt_of_lt ?_
    rw [u64_of_lt (by omega)]
    simp only [pageSize] at *
    omega
  obtain ⟨m', failedAt, hmap, hmaps⟩ := hmapped.mapPages h.beside.ordersFit
    (device.firstPage offset) (FrameBuffer.window offset) ⟨true, true⟩ (device.pages length) 0
    hphysical
  obtain ⟨m'', r, tables', hmap', htables, hkeeps, -⟩ := h.owned.tables.mapPages
    (device.firstPage offset) (FrameBuffer.window offset) ⟨true, true⟩ (device.pages length) 0
    hlower
  obtain ⟨rfl, rfl⟩ := Prod.mk.inj (hmap.symm.trans hmap')
  obtain ⟨S, -, hadds⟩ := hmaps.adds
  refine ⟨m', failedAt, tables', hmap, hmaps, ⟨h.owned.setPmm htables hkeeps.pageAddress,
    h.beside.addsTables (fun k hk => ?_) hmaps.mapped hadds, h.coverings_le, h.lt⟩, hkeeps.total⟩
  exact ((h.owned.mem_iff k).mp hk).2.1

/-- The pages of a device are recorded. -/
theorem setMapping_device {i start : ℕ} (h : MappedProcess s tables P others)
    (hi : i < maxMemoryMappingsPerProcess) (hempty : (s.memoryMappings i).inUse = false)
    (hstart : start % pageSize = 0) (hlength : length % pageSize = 0) (hpos : 0 < length)
    (hend : start + length ≤ 2 ^ 47)
    (hfree : ∀ j < maxMemoryMappingsPerProcess, ∀ v, start ≤ v → v < start + length →
      ¬ Covers (s.memoryMappings j) v) :
    MappedProcess (s.setMapping i ⟨true, start, length, 0, false⟩) tables P others := by
  obtain ⟨new, hnew⟩ : ∃ new : ProcessMemoryMapping, new = ⟨true, start, length, 0, false⟩ :=
    ⟨_, rfl⟩
  rw [← hnew]
  have hself : (s.setMapping i new).memoryMappings i = new := by simp
  have hother : ∀ {j}, j ≠ i → (s.setMapping i new).memoryMappings j = s.memoryMappings j :=
    fun hj => setMapping_of_ne s hj new
  have hcovers : ∀ {v}, Covers new v → start ≤ v ∧ v < start + length := by
    rintro v ⟨-, hle, hlt⟩
    rw [hnew] at hle hlt
    exact ⟨hle, hlt⟩
  -- the new record is not anonymous
  have hanonymous : ∀ {j}, ((s.setMapping i new).memoryMappings j).isAnonymous = true →
      j ≠ i := by
    rintro j hanon rfl
    rw [hself, hnew] at hanon
    exact absurd hanon (by simp)
  refine ⟨⟨h.owned.tables, fun j hj huse => ?_, fun j hj v hv hcov => ?_,
    fun a ha b hb hab haa hba v hva => ?_, fun j hj hanon => ?_,
    fun a ha b hb k v w hv hw haa hba => ?_⟩, h.beside, fun v => ?_, fun j hj v hcov => ?_⟩
  · by_cases hji : j = i
    · rw [hji, hself, hnew]
      exact ⟨hstart, hlength, hpos, by dsimp only; omega, by simp⟩
    · rw [hother hji] at huse ⊢
      exact h.owned.regular j hj huse
  · by_cases hji : j = i
    · rw [hji, hself] at hcov
      exact pml4Index_lt_of_lt (by have := hcovers hcov; omega)
    · rw [hother hji] at hcov
      exact h.owned.lower j hj v hv hcov
  · have hna := hanonymous haa
    have hnb := hanonymous hba
    rw [hother hna] at haa hva
    rw [hother hnb] at hba ⊢
    exact h.owned.once a ha b hb hab haa hba v hva
  · have hne := hanonymous hanon
    rw [hother hne] at hanon ⊢
    exact h.owned.owned j hj hanon
  · have hna := hanonymous haa
    have hnb := hanonymous hba
    rw [hother hna] at haa ⊢
    rw [hother hnb] at hba ⊢
    exact h.owned.injective a ha b hb k v w hv hw haa hba
  · refine coverings_update_le (h.coverings_le v) hi fun hcov j hj => ?_
    exact hfree j hj v (hcovers hcov).1 (hcovers hcov).2
  · by_cases hji : j = i
    · rw [hji, hself] at hcov
      have := hcovers hcov
      omega
    · rw [hother hji] at hcov
      exact h.lt j hj v hcov

end MappedProcess

/-! ### What mmap does with the result -/

theorem mapFrameBuffer_refused (h : ¬ device.Accepts length offset) :
    ∃ e, s.mapFrameBuffer device length offset = (s, .error e) := by
  obtain ⟨e, he⟩ := frameBufferMemoryMap_refused (s := s) h
  exact ⟨e, by rw [mapFrameBuffer, he]⟩

/-- The driver has run out of pages for tables. -/
theorem mapFrameBuffer_failed {m' : PhysicalMemoryManager} {index : ℕ}
    (h : device.Accepts length offset) (hroot : s.pageMapL4TableAddr ≠ 0)
    (hoffset : offset % pageSize = 0)
    (hplaced : device.buffer + device.bufferSizeBytes ≤ 2 ^ 32)
    (hmap : s.pmm.mapPages s.pageMapL4TableAddr (device.firstPage offset)
      (FrameBuffer.window offset) ⟨true, true⟩ (device.pages length) 0 = (m', some index)) :
    s.mapFrameBuffer device length offset = (s.setPmm m', .error .efault) := by
  rw [mapFrameBuffer, frameBufferMemoryMap_accepted h hroot hoffset hplaced, hmap]

theorem registerProcessMapping_of_slot {i : ℕ} (h : s.findAvailableMappingSlot = some i)
    (start length physicalStart : ℕ) (isAnonymous : Bool) :
    s.registerProcessMapping start length physicalStart isAnonymous =
      (s.setMapping i ⟨true, start, length, physicalStart, isAnonymous⟩, true) := by
  unfold registerProcessMapping
  rw [h]

/-- The driver has mapped the pages, and there is a slot for their record. -/
theorem mapFrameBuffer_mapped {m' : PhysicalMemoryManager}
    (h : device.Accepts length offset) (hroot : s.pageMapL4TableAddr ≠ 0)
    (hoffset : offset % pageSize = 0)
    (hplaced : device.buffer + device.bufferSizeBytes ≤ 2 ^ 32) (hpos : 0 < length)
    (hslots : recordsInUse s.memoryMappings < maxMemoryMappingsPerProcess)
    (hmap : s.pmm.mapPages s.pageMapL4TableAddr (device.firstPage offset)
      (FrameBuffer.window offset) ⟨true, true⟩ (device.pages length) 0 = (m', none)) :
    ∃ i < maxMemoryMappingsPerProcess, (s.memoryMappings i).inUse = false ∧
      s.mapFrameBuffer device length offset = ((s.setPmm m').setMapping i
        ⟨true, FrameBuffer.window offset, device.pages length * pageSize, 0, false⟩,
        .ok (FrameBuffer.window offset + device.buffer % pageSize)) := by
  obtain ⟨i, hslot⟩ := Option.isSome_iff_exists.mp (findAvailableMappingSlot_isSome hslots)
  obtain ⟨hi, hempty⟩ := findAvailableMappingSlot_some hslot
  have hin : device.buffer % pageSize < pageSize := Nat.mod_lt _ (by decide)
  obtain ⟨-, -, hle, hlength⟩ := id h
  have hdown : alignDownToPageBoundary (FrameBuffer.window offset + device.buffer % pageSize) =
      FrameBuffer.window offset := by
    rw [alignDownToPageBoundary_eq]
    simp only [FrameBuffer.window, userFramebufferMmapBase, pageSize] at *
    omega
  have hup : alignUpToPageBoundary (u64 (FrameBuffer.window offset + device.buffer % pageSize -
      FrameBuffer.window offset + length)) = device.pages length * pageSize := by
    rw [Nat.add_sub_cancel_left, u64_of_lt (by simp only [pageSize] at *; omega),
      alignUpToPageBoundary_eq (by simp only [pageSize] at *; omega), FrameBuffer.pages,
      Nat.add_sub_assoc (by decide)]
  have hpages : device.pages length * pageSize ≠ 0 := by
    simp only [FrameBuffer.pages, pageSize] at *
    omega
  have hne : FrameBuffer.window offset + device.buffer % pageSize ≠ 0 := by
    simp only [FrameBuffer.window, userFramebufferMmapBase]
    omega
  refine ⟨i, hi, hempty, ?_⟩
  rw [mapFrameBuffer, frameBufferMemoryMap_accepted h hroot hoffset hplaced, hmap]
  dsimp only
  rw [if_neg hne, hdown, hup, if_neg hpages,
    registerProcessMapping_of_slot (s := s.setPmm m') hslot]

end UserMemory

end TwistedOS
