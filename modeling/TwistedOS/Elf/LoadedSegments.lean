import TwistedOS.Elf.ElfLoading
import TwistedOS.Memory.AllocatedPages

/-!
# What the segments of an image become

While the allocator hands out pages below its limit, and none of the pages of a buffer is free, what
is written into the buffer leaves the allocator alone, and every block that is allocated is another
such buffer. Appending the segments of an image keeps this if every tail of a segment that is
cleared ends in the buffer of the image; the regions that result lie in buffers of the load.

## Main definitions

* `PhysicalMemoryManager.Managed`, `PageBuffer.HeldIn`.
* `TailFits`: the tail of a segment that is cleared ends in the buffer of its image.
* `ElfMemoryRegion.PlacedIn`: the bytes of a region lie in a buffer.

## Main results

* `Loading.forall_within_appendStep`, `Loading.appendStep`: a round of the loop over the segments.
-/

namespace TwistedOS

open PhysicalMemoryManager Recorded

/-- The allocator works, and manages whole pages below its limit. -/
structure PhysicalMemoryManager.Managed (m : PhysicalMemoryManager) : Prop where
  valid : ∃ live, Valid m live
  start_aligned : m.memoryDescriptorInfo.physicalAddressStart % pageSize = 0
  end_le : m.pageAddress m.memoryDescriptorInfo.totalNumberOfPages ≤ pmmBuddyPhysicalLimit

/-- The buffer consists of whole pages below the limit. -/
structure PageBuffer.Regular (b : PageBuffer) : Prop where
  address_ne : b.address ≠ 0
  aligned : b.address % pageSize = 0
  end_le : b.endAddress ≤ pmmBuddyPhysicalLimit

/-- None of the pages of the buffer is free. -/
structure PageBuffer.HeldIn (b : PageBuffer) (m : PhysicalMemoryManager) : Prop extends
    b.Regular where
  notFree : ∀ k, m.PageFree k → m.pageAddress k < b.address ∨ b.endAddress ≤ m.pageAddress k

variable {m m' : PhysicalMemoryManager} {b : PageBuffer} {pages a n : ℕ}

/-! ### Buffers -/

theorem PageBuffer.endAddress_mod (h : b.address % pageSize = 0) : b.endAddress % pageSize = 0 := by
  rw [PageBuffer.endAddress, Nat.add_mul_mod_self_right, h]

/-- A buffer of whole pages has room for them. -/
theorem PageBuffer.endAddress_of_pages (a pages : ℕ) :
    (⟨a, pages * pageSize⟩ : PageBuffer).endAddress = a + pages * pageSize := by
  simp only [PageBuffer.endAddress, PageBuffer.pages, pageSize]
  omega

theorem PageBuffer.holds_of_le {offset size : ℕ} (h : offset + size ≤ b.size) :
    b.Holds (b.address + offset) size := by
  simp only [PageBuffer.Holds, PageBuffer.endAddress, PageBuffer.pages, pageSize]
  omega

namespace PhysicalMemoryManager.Managed

/-- An allocation leaves the buffers alone, and the block it returns is a buffer. -/
theorem allocate (h : m.Managed) (hcall : m.allocatePagesFromDescriptor pages = (m', a)) :
    m'.Managed ∧ (∀ b : PageBuffer, b.HeldIn m → b.HeldIn m') ∧
      (a ≠ 0 → ∀ size ≤ pages * pageSize, (⟨a, size⟩ : PageBuffer).HeldIn m') := by
  obtain ⟨⟨live, hvalid⟩, hstart, hlimit⟩ := h
  rcases hvalid.allocate pages with hfails | ⟨m₁, i, hblock, hvalid', hkeeps⟩
  · obtain ⟨rfl, rfl⟩ := Prod.mk.inj (hfails.symm.trans hcall)
    exact ⟨⟨⟨live, hvalid⟩, hstart, hlimit⟩, fun _ hb => hb, fun hne => absurd rfl hne⟩
  obtain ⟨rfl, rfl⟩ := Prod.mk.inj (hblock.symm.trans hcall)
  have hfree (k : ℕ) (hk : m₁.PageFree k) : m.PageFree k := by
    rw [hvalid'.pageFree_iff, hkeeps.total] at hk
    exact (hvalid.pageFree_iff k).mpr ⟨hk.1, fun b hb => hk.2 b (List.mem_cons_of_mem _ hb)⟩
  have hlimit' : m₁.pageAddress m₁.memoryDescriptorInfo.totalNumberOfPages ≤
      pmmBuddyPhysicalLimit := by rwa [hkeeps.pageAddress, hkeeps.total]
  refine ⟨⟨⟨_, hvalid'⟩, hkeeps.start ▸ hstart, hlimit'⟩, fun b hb => ?_, fun hne size hsize => ?_⟩
  · refine ⟨hb.toRegular, fun k hk => ?_⟩
    rw [hkeeps.pageAddress]
    exact hb.notFree k (hfree k hk)
  · have hend := hvalid'.end_le (List.mem_cons_self ..)
    have hpow : (⟨i, ceilLog2Pages pages⟩ : DyadicBlock).size = 2 ^ ceilLog2Pages pages := rfl
    rw [hkeeps.total, hpow] at hend
    have hsmall : 2 ^ ceilLog2Pages pages < 2 ^ 51 := by
      simp only [pageAddress, pageSize, pmmBuddyPhysicalLimit] at hlimit
      omega
    have hpages : pages ≤ 2 ^ ceilLog2Pages pages := le_two_pow_of_ceilLog2Pages_lt
      ((Nat.pow_lt_pow_iff_right (by decide)).mp hsmall)
    refine ⟨⟨hne, ?_, ?_⟩, fun k hk => ?_⟩
    · change m.pageAddress i % pageSize = 0
      rw [pageAddress, Nat.add_mul_mod_self_right, hstart]
    · simp only [PageBuffer.endAddress, PageBuffer.pages, pageAddress, pageSize] at *
      omega
    · have hout := ((hvalid'.pageFree_iff k).mp hk).2 _ (List.mem_cons_self ..)
      rw [hkeeps.pageAddress]
      simp only [DyadicBlock.Contains, hpow, PageBuffer.endAddress, PageBuffer.pages, pageAddress,
        pageSize] at *
      omega

/-- Bytes that are written into a buffer are not those of the allocator. -/
theorem writeBytes (h : m.Managed) (hb : b.HeldIn m) (hin : b.Holds a n) (content : ℕ → UInt8) :
    (m.writeBytes a n content).Managed ∧
      ∀ b' : PageBuffer, b'.HeldIn m → b'.HeldIn (m.writeBytes a n content) := by
  obtain ⟨⟨live, hvalid⟩, hstart, hlimit⟩ := h
  have hvalid' : Valid (m.writeBytes a n content) live := by
    refine hvalid.congr_links fun k hk => writeBytes_physicalMemory m ?_
    have hout := hb.notFree k hk
    have hmod := PageBuffer.endAddress_mod hb.aligned
    have haligned := hb.aligned
    obtain ⟨hle, hend⟩ := hin
    simp only [pageAddress, pageSize] at *
    omega
  refine ⟨⟨⟨live, hvalid'⟩, hstart, hlimit⟩, fun b' hb' => ⟨hb'.toRegular, fun k hk =>
    hb'.notFree k ?_⟩⟩
  exact (hvalid.pageFree_iff k).mpr ((hvalid'.pageFree_iff k).mp hk)

end PhysicalMemoryManager.Managed

/-- The allocator works from the start if the range that it selects begins with a page. -/
theorem PhysicalMemoryManager.managed_initializeMemoryDescriptors (boot : BootMemoryMap)
    (physicalMemory : ℕ → ℕ) (hpages : (selectedRange boot).totalNumberOfPages ≠ 0)
    (hstart : (selectedRange boot).physicalAddressStart ≠ 0)
    (haligned : (selectedRange boot).physicalAddressStart % pageSize = 0) :
    (initializeMemoryDescriptors boot physicalMemory).Managed ∧
      ∀ b : PageBuffer, b.Regular →
        (∀ k < (selectedRange boot).totalNumberOfPages,
          (selectedRange boot).physicalAddressStart + k * pageSize < b.address ∨
            b.endAddress ≤ (selectedRange boot).physicalAddressStart + k * pageSize) →
        b.HeldIn (initializeMemoryDescriptors boot physicalMemory) := by
  obtain ⟨hvalid, htotal⟩ := valid_initializeMemoryDescriptors boot physicalMemory hpages hstart
  obtain ⟨-, -, hinfo, -⟩ :=
    initializeMemoryDescriptors_lists boot physicalMemory hpages hstart (M := 0)
  have haddress (k : ℕ) : (initializeMemoryDescriptors boot physicalMemory).pageAddress k =
      (selectedRange boot).physicalAddressStart + k * pageSize := by rw [pageAddress, hinfo]
  refine ⟨⟨⟨[], hvalid⟩, by rw [hinfo]; exact haligned, ?_⟩, fun b hb hout => ⟨hb, fun k hk => ?_⟩⟩
  · rw [haddress, htotal]
    exact (selectedRange_spec boot).1
  · rw [haddress]
    exact hout k (htotal ▸ ((hvalid.pageFree_iff k).mp hk).1)

/-! ### Segments -/

/-- The header is one of a segment that is appended, unless the table of regions is full. -/
def ElfProgramHeader64.IsAppended (header : ElfProgramHeader64) (imageSize loadBias : ℕ) : Prop :=
  header.isLoadableSegment ∧ header.validateProgramSegment imageSize ∧
    header.virtualAddress ≤ uint64Max - loadBias

/-- What is cleared behind the part of the segment that is in the file lies in the buffer of the
image, provided that there is room for the region of this part. -/
def TailFits (image : PageBuffer) (loadBias : ℕ) (s : ElfLoad) (header : ElfProgramHeader64) :
    Prop :=
  header.IsAppended image.size loadBias →
    header.fileSize = 0 ∨ s.memoryRegions.length < maxMemoryRegions →
    header.offset + header.fileSize + header.bssTailBytes loadBias ≤ image.pages * pageSize

/-- The bytes of the region lie in a buffer of the load. -/
structure ElfMemoryRegion.PlacedIn (owned : List PageBuffer) (region : ElfMemoryRegion) : Prop where
  size_ne : region.size ≠ 0
  buffer : ∃ b ∈ owned, b.Regular ∧ b.Holds region.physicalAddress region.size

/-- The state between two rounds of the loop over the segments of an image. -/
structure Loading (owned : List PageBuffer) (image : PageBuffer) (s : ElfLoad) : Prop where
  managed : s.manager.Managed
  held : image.HeldIn s.manager
  mem : image ∈ owned
  placed : ∀ region ∈ s.memoryRegions, region.PlacedIn owned

/-- The buffers that are set aside belong to the load. -/
def ElfAccess.OwnedIn (owned : List PageBuffer) (access : ElfAccess) : Prop :=
  ∀ b, access = .own b → b ∈ owned

variable {owned : List PageBuffer} {image : PageBuffer} {s s' : ElfLoad}
  {header : ElfProgramHeader64} {loadBias fuel : ℕ}

/-- The part in the file of a segment that is appended lies in the image. -/
theorem ElfProgramHeader64.IsAppended.fileSize_le {imageSize : ℕ}
    (h : header.IsAppended imageSize loadBias) : header.fileSize ≤ header.memorySize ∧
      header.offset + header.fileSize ≤ imageSize := by
  have hvalid := h.2.1
  simp only [validateProgramSegment, rangeFitsInImage, Bool.and_eq_true, decide_eq_true_eq]
    at hvalid
  omega

/-- The tail of a segment fits if its virtual address lies as far into its page as its file offset
does. -/
theorem tailFits_of_congruent
    (h : (header.virtualAddress + loadBias) % pageSize = header.offset % pageSize) :
    TailFits image loadBias s header := by
  intro happended _
  have hsize := happended.fileSize_le.2
  set start := u64 (header.virtualAddress + loadBias + header.fileSize) % pageSize with hstart
  have htail : header.bssTailBytes loadBias = 0 ∨
      start ≠ 0 ∧ header.bssTailBytes loadBias ≤ pageSize - start := by
    unfold ElfProgramHeader64.bssTailBytes
    dsimp only
    split_ifs with hzero
    · exact .inl rfl
    · exact .inr ⟨hzero, Nat.min_le_right _ _⟩
  simp only [PageBuffer.pages, u64, pageSize] at *
  omega

theorem PageBuffer.size_le (b : PageBuffer) : b.size ≤ b.pages * pageSize := by
  simp only [PageBuffer.pages, pageSize]
  omega

namespace Loading

section

variable (h : Loading owned image s)

include h

theorem addMemoryRegion {region : ElfMemoryRegion} (hregion : region.PlacedIn owned) :
    Loading owned image (s.addMemoryRegion region).1 := by
  unfold ElfLoad.addMemoryRegion
  split_ifs with hfull
  · exact h
  · refine ⟨h.managed, h.held, h.mem, fun r hr => ?_⟩
    rcases List.mem_append.mp hr with hr | hr
    · exact h.placed r hr
    · exact List.mem_singleton.mp hr ▸ hregion

/-- A range of the image from an offset on does not wrap around. -/
theorem u64_address {offset : ℕ} (hle : offset ≤ image.pages * pageSize) :
    u64 (image.address + offset) = image.address + offset := by
  have hend := h.held.end_le
  simp only [PageBuffer.endAddress, pmmBuddyPhysicalLimit] at hend
  exact u64_of_lt (by omega)

theorem addFileRegion (happended : header.IsAppended image.size loadBias)
    (segmentVirtualAddress : ℕ) :
    Loading owned image (s.addFileRegion image.address segmentVirtualAddress header).1 := by
  unfold ElfLoad.addFileRegion
  split_ifs with hsize
  · exact h
  · have hle := happended.fileSize_le.2
    have hpages := image.size_le
    refine h.addMemoryRegion ⟨hsize, image, h.mem, h.held.toRegular, ?_⟩
    rw [h.u64_address (by omega)]
    exact PageBuffer.holds_of_le hle

theorem addBssTail {bssTailBytes : ℕ} (hne : bssTailBytes ≠ 0)
    (hfits : header.offset + header.fileSize + bssTailBytes ≤ image.pages * pageSize)
    (bssVirtualStart : ℕ) :
    Loading owned image (s.addBssTail image.address bssVirtualStart bssTailBytes header).1 := by
  have hphysical : u64 (image.address + header.offset + header.fileSize) =
      image.address + (header.offset + header.fileSize) := by
    rw [Nat.add_assoc, h.u64_address (by omega)]
  have hholds : image.Holds (image.address + (header.offset + header.fileSize)) bssTailBytes := by
    simp only [PageBuffer.Holds, PageBuffer.endAddress]
    omega
  have hnull := h.held.address_ne
  simp only [ElfLoad.addBssTail, hphysical, zeroPhysicalBackedBuffer, if_neg hne,
    if_neg (show image.address + (header.offset + header.fileSize) ≠ 0 by omega)]
  obtain ⟨hmanaged, hheld⟩ := h.managed.writeBytes h.held hholds fun _ => 0
  have hcleared : Loading owned image ⟨s.manager.writeBytes
      (image.address + (header.offset + header.fileSize)) bssTailBytes fun _ => 0,
      s.memoryRegions⟩ := ⟨hmanaged, hheld _ h.held, h.mem, h.placed⟩
  exact hcleared.addMemoryRegion ⟨hne, image, h.mem, h.held.toRegular, hholds⟩

theorem addBss {bssVirtualStart bssRemaining : ℕ} (hne : bssRemaining ≠ 0)
    (hlt : bssRemaining < 2 ^ 64) (hown : ∀ e ∈ s.bssAccesses bssRemaining, e.OwnedIn owned)
    (hresult : s.addBss fuel bssVirtualStart bssRemaining header = some (s', true)) :
    Loading owned image s' := by
  simp only [ElfLoad.bssAccesses] at hown
  simp only [ElfLoad.addBss] at hresult
  cases hcall : s.manager.allocatePagesFromDescriptor
    (u64 (bssRemaining + pageSize - 1) / pageSize) with
  | mk m bssPhysical =>
    obtain ⟨hmanaged, hheld, hblock⟩ := h.managed.allocate hcall
    rw [hcall] at hown hresult
    cases bssPhysical with
    | zero => simp at hresult
    | succ n =>
      generalize hpages : u64 (bssRemaining + pageSize - 1) / pageSize = bssPages at *
      have howned := hown _ (List.mem_cons_self ..) _ rfl
      have hbuffer := hblock (Nat.succ_ne_zero n) _ le_rfl
      have hend := PageBuffer.endAddress_of_pages (n + 1) bssPages
      obtain ⟨hmanaged', hheld'⟩ := hmanaged.writeBytes hbuffer (a := n + 1)
        (n := bssPages * pageSize) ⟨le_rfl, hend.ge⟩ fun _ => 0
      have hcleared : Loading owned image ⟨m.writeBytes (n + 1) (bssPages * pageSize) fun _ => 0,
          s.memoryRegions⟩ := ⟨hmanaged', hheld' _ (hheld _ h.held), h.mem, h.placed⟩
      -- The size does not wrap around, since then there would be no pages to allocate.
      have hroom : bssRemaining ≤ bssPages * pageSize := by
        have hpos : bssPages ≠ 0 := by
          rintro rfl
          simp [allocatePagesFromDescriptor] at hcall
        simp only [u64, pageSize] at *
        omega
      have hregion : Loading owned image (ElfLoad.addMemoryRegion ⟨m.writeBytes (n + 1)
          (bssPages * pageSize) fun _ => 0, s.memoryRegions⟩
          ⟨n + 1, bssVirtualStart, bssRemaining, header.isWritableSegment⟩).1 :=
        hcleared.addMemoryRegion ⟨hne, _, howned, hbuffer.toRegular, le_rfl, by
          rw [hend]
          exact Nat.add_le_add_left hroom _⟩
      rcases hadded : ElfLoad.addMemoryRegion ⟨m.writeBytes (n + 1) (bssPages * pageSize) fun _ => 0,
        s.memoryRegions⟩ ⟨n + 1, bssVirtualStart, bssRemaining, header.isWritableSegment⟩ with
        ⟨t, added | added⟩
      · simp only [hadded] at hresult
        obtain ⟨r, -, hfailed⟩ := Option.map_eq_some_iff.mp hresult
        simp at hfailed
      · rw [hadded] at hregion
        simp only [hadded, Option.some.injEq, Prod.mk.injEq, and_true] at hresult
        exact hresult ▸ hregion

end

end Loading

namespace ElfLoad

/-- The state when the tail of a segment has been cleared, if it has one. -/
def afterTail (s : ElfLoad) (imageAddress loadBias : ℕ) (header : ElfProgramHeader64) :
    ElfLoad × Bool :=
  if header.bssTailBytes loadBias = 0 then (s, true)
  else s.addBssTail imageAddress (u64 (header.virtualAddress + loadBias + header.fileSize))
    (header.bssTailBytes loadBias) header

theorem addBssRegions_eq (h : header.fileSize < header.memorySize) :
    s.addBssRegions fuel image.address (header.virtualAddress + loadBias) header =
      match s.afterTail image.address loadBias header with
      | (s, false) => some (s, false)
      | (s, true) =>
        if header.memorySize - header.fileSize = header.bssTailBytes loadBias then some (s, true)
        else
          s.addBss fuel (u64 (u64 (header.virtualAddress + loadBias + header.fileSize) +
            header.bssTailBytes loadBias))
            (header.memorySize - header.fileSize - header.bssTailBytes loadBias) header := by
  rw [addBssRegions, if_neg (by omega)]
  rfl

theorem bssRegionAccesses_eq (h : header.fileSize < header.memorySize) :
    s.bssRegionAccesses image (header.virtualAddress + loadBias) header =
      (if header.bssTailBytes loadBias = 0 ∨
          u64 (image.address + header.offset + header.fileSize) = 0 then []
        else [ElfAccess.clear image (u64 (image.address + header.offset + header.fileSize))
          (header.bssTailBytes loadBias)]) ++
        match s.afterTail image.address loadBias header with
        | (_, false) => []
        | (s, true) =>
          if header.memorySize - header.fileSize = header.bssTailBytes loadBias then []
          else s.bssAccesses
            (header.memorySize - header.fileSize - header.bssTailBytes loadBias) := by
  rw [bssRegionAccesses, if_neg (by omega)]
  rfl

/-- The block of a segment is cleared as far as it has been allocated. -/
theorem forall_within_bssAccesses (s : ElfLoad) (bssRemaining : ℕ) :
    ∀ e ∈ s.bssAccesses bssRemaining, e.Within owned := by
  unfold bssAccesses
  dsimp only
  split
  · simp
  · simp only [List.mem_cons, List.not_mem_nil, or_false, forall_eq_or_imp, forall_eq]
    exact ⟨trivial, le_rfl, (PageBuffer.endAddress_of_pages _ _).ge⟩

end ElfLoad

namespace Loading

theorem addBssRegions (h : Loading owned image s) (hmemory : header.memorySize < 2 ^ 64)
    (hfits : header.offset + header.fileSize + header.bssTailBytes loadBias ≤
      image.pages * pageSize)
    (hown : ∀ e ∈ s.bssRegionAccesses image (header.virtualAddress + loadBias) header,
      e.OwnedIn owned)
    (hresult : s.addBssRegions fuel image.address (header.virtualAddress + loadBias) header =
      some (s', true)) : Loading owned image s' := by
  rcases Nat.lt_or_ge header.fileSize header.memorySize with hfile | hfile
  · have htail : Loading owned image (s.afterTail image.address loadBias header).1 := by
      unfold ElfLoad.afterTail
      split_ifs with hnone
      · exact h
      · exact h.addBssTail hnone hfits _
    rw [ElfLoad.addBssRegions_eq hfile] at hresult
    rw [ElfLoad.bssRegionAccesses_eq hfile, List.forall_mem_append] at hown
    replace hown := hown.2
    generalize s.afterTail image.address loadBias header = after at *
    obtain ⟨t, added | added⟩ := after
    · simp at hresult
    · dsimp only at hresult hown htail
      split_ifs at hresult hown with hdone
      · simp only [Option.some.injEq, Prod.mk.injEq, and_true] at hresult
        exact hresult ▸ htail
      · refine htail.addBss ?_ (by omega) hown hresult
        have hle : header.bssTailBytes loadBias ≤ header.memorySize - header.fileSize := by
          unfold ElfProgramHeader64.bssTailBytes
          dsimp only
          split_ifs <;> omega
        omega
  · rw [ElfLoad.addBssRegions, if_pos hfile] at hresult
    simp only [Option.some.injEq, Prod.mk.injEq, and_true] at hresult
    exact hresult ▸ h

/-- What is cleared for a segment lies in its buffers exactly if its tail does. -/
theorem forall_within_bssRegionAccesses (h : Loading owned image s)
    (hsize : header.offset + header.fileSize ≤ image.size) :
    (∀ e ∈ s.bssRegionAccesses image (header.virtualAddress + loadBias) header, e.Within owned) ↔
      header.offset + header.fileSize + header.bssTailBytes loadBias ≤
        image.pages * pageSize := by
  have hpages := image.size_le
  rcases Nat.lt_or_ge header.fileSize header.memorySize with hlt | hge
  · have hphysical : u64 (image.address + header.offset + header.fileSize) =
        image.address + (header.offset + header.fileSize) := by
      rw [Nat.add_assoc, h.u64_address (by omega)]
    have hnull := h.held.address_ne
    rw [ElfLoad.bssRegionAccesses_eq hlt, List.forall_mem_append, and_iff_left]
    · rw [hphysical]
      split_ifs with hnone
      · simp only [List.not_mem_nil, false_imp_iff, implies_true, true_iff]
        omega
      · simp only [List.mem_singleton, forall_eq, ElfAccess.Within, PageBuffer.Holds,
          PageBuffer.endAddress]
        omega
    · split
      · simp
      · split_ifs
        · simp
        · exact ElfLoad.forall_within_bssAccesses _ _
  · have htail : header.bssTailBytes loadBias = 0 := by
      simp only [ElfProgramHeader64.bssTailBytes, Nat.sub_eq_zero_of_le hge, Nat.zero_min, ite_self]
    rw [ElfLoad.bssRegionAccesses, if_pos hge, htail]
    simp only [List.not_mem_nil, false_imp_iff, implies_true, true_iff]
    omega

theorem addFileRegion_added (s : ElfLoad) (header : ElfProgramHeader64) (a v : ℕ) :
    (s.addFileRegion a v header).2 = true ↔
      header.fileSize = 0 ∨ s.memoryRegions.length < maxMemoryRegions := by
  unfold ElfLoad.addFileRegion ElfLoad.addMemoryRegion
  split_ifs <;> simp <;> omega

/-- What is cleared when a segment is appended lies in its buffers exactly if its tail fits. -/
theorem forall_within_segmentAccesses (h : Loading owned image s) :
    (∀ e ∈ s.segmentAccesses image loadBias header, e.Within owned) ↔
      TailFits image loadBias s header := by
  by_cases happended : header.IsAppended image.size loadBias
  · have hsize := happended.fileSize_le.2
    have hloading := h.addFileRegion happended (header.virtualAddress + loadBias)
    have hadded := addFileRegion_added s header image.address (header.virtualAddress + loadBias)
    obtain ⟨hload, hvalid, hbias⟩ := happended
    rw [ElfLoad.segmentAccesses, if_neg (not_not.mpr hload), if_neg (not_not.mpr hvalid),
      if_neg (Nat.not_lt.mpr hbias)]
    dsimp only
    generalize s.addFileRegion image.address (header.virtualAddress + loadBias) header = after at *
    obtain ⟨t, added | added⟩ := after
    · have hfull := hadded.not.mp (by simp)
      exact iff_of_true (by simp) fun _ hroom => absurd hroom hfull
    · rw [hloading.forall_within_bssRegionAccesses hsize]
      exact ⟨fun hfits _ _ => hfits, fun hfits => hfits ⟨hload, hvalid, hbias⟩ (hadded.mp rfl)⟩
  · have hnone : s.segmentAccesses image loadBias header = [] := by
      unfold ElfLoad.segmentAccesses
      split_ifs with hload hvalid hbias
      · rfl
      · exact absurd ⟨hload, hvalid, Nat.not_lt.mp hbias⟩ happended
      · rfl
      · rfl
    rw [hnone]
    exact iff_of_true (by simp) fun h => absurd h happended

theorem appendSegment (h : Loading owned image s) (hmemory : header.memorySize < 2 ^ 64)
    (hfits : TailFits image loadBias s header)
    (hown : ∀ e ∈ s.segmentAccesses image loadBias header, e.OwnedIn owned)
    (hresult : s.appendSegment fuel image.address image.size loadBias header = some (s', true)) :
    Loading owned image s' := by
  unfold ElfLoad.appendSegment at hresult
  unfold ElfLoad.segmentAccesses at hown
  split_ifs at hresult hown with hload hvalid hbias
  · simp at hresult
  · have happended : header.IsAppended image.size loadBias :=
      ⟨hload, hvalid, Nat.not_lt.mp hbias⟩
    have hloading := h.addFileRegion happended (header.virtualAddress + loadBias)
    have hadded := addFileRegion_added s header image.address (header.virtualAddress + loadBias)
    dsimp only at hresult hown
    generalize s.addFileRegion image.address (header.virtualAddress + loadBias) header = after at *
    obtain ⟨t, added | added⟩ := after
    · simp at hresult
    · exact hloading.addBssRegions hmemory (hfits happended (hadded.mp rfl)) hown hresult
  · simp at hresult
  · simp only [Option.some.injEq, Prod.mk.injEq, and_true] at hresult
    exact hresult ▸ h

/-! ### The loop over the segments -/

variable {elfHeader : ElfHeader} {index : ℕ}

/-- A program header of a table that has been checked lies in the image. -/
theorem within_readEntryOf (htable : elfHeader.validateProgramHeaderTable image.size)
    (hindex : index < elfHeader.programHeaderEntryCount) :
    (readEntryOf image elfHeader index).Within owned := by
  simp only [ElfHeader.validateProgramHeaderTable, rangeFitsInImage, Bool.and_eq_true,
    decide_eq_true_eq] at htable
  obtain ⟨⟨-, -, hentry⟩, hoffset, hfits⟩ := htable
  rw [hentry] at hfits
  have hstep : (index + 1) * sizeofElfProgramHeader64 ≤
      elfHeader.programHeaderEntryCount * sizeofElfProgramHeader64 :=
    Nat.mul_le_mul_right _ hindex
  rw [readEntryOf, entryAddressOf, Nat.add_assoc]
  exact PageBuffer.holds_of_le (by rw [Nat.add_mul, Nat.one_mul] at hstep; omega)

theorem memorySize_programHeaderAt_lt (mem : ByteMemory) (a : ℕ) (elfHeader : ElfHeader)
    (index : ℕ) : (programHeaderAt mem a elfHeader index).memorySize < 2 ^ 64 :=
  ByteMemory.load_lt mem _ 8

/-- A round of the loop uses nothing outside the buffers exactly if the tail of its segment fits. -/
theorem forall_within_appendStep (htable : elfHeader.validateProgramHeaderTable image.size)
    (hindex : index < elfHeader.programHeaderEntryCount) (h : Loading owned image s) :
    (∀ e ∈ (appendStep fuel image elfHeader loadBias index s).events, e.Within owned) ↔
      TailFits image loadBias s
        (programHeaderAt s.manager.bytes image.address elfHeader index) := by
  rw [appendStep, List.forall_mem_cons, and_iff_right (within_readEntryOf htable hindex),
    h.forall_within_segmentAccesses]

/-- A round of the loop whose tail fits keeps what holds between the rounds. -/
theorem appendStep (h : Loading owned image s)
    (hfits : TailFits image loadBias s
      (programHeaderAt s.manager.bytes image.address elfHeader index))
    (hown : ∀ e ∈ (TwistedOS.appendStep fuel image elfHeader loadBias index s).events,
      e.OwnedIn owned)
    (hresult : (TwistedOS.appendStep fuel image elfHeader loadBias index s).result = some s') :
    Loading owned image s' := by
  rw [TwistedOS.appendStep, List.forall_mem_cons] at hown
  simp only [TwistedOS.appendStep] at hresult
  split at hresult
  · rename_i hcall
    obtain rfl := Option.some.inj hresult
    exact h.appendSegment (memorySize_programHeaderAt_lt _ _ _ _) hfits hown.2 hcall
  · simp at hresult

end Loading

end TwistedOS
