import TwistedOS.Memory.AllocatedPages

/-!
# Returning the pages of an owner

An owner of allocated pages returns them by a sequence of calls. The calls are exact if each one
that is accepted frees a block all of whose pages the owner still has, and if in the end nothing is
left. This can be told from the calls: the blocks of those that are accepted are pairwise disjoint
and make up the pages of the owner.

## Main definitions

* `PhysicalMemoryManager.freeAll`: a sequence of calls.
* `PhysicalMemoryManager.ReturnsPages`: the calls return exactly the pages of the owner.
* `PhysicalMemoryManager.ExactBlocks`: the blocks of the accepted calls make up the pages.

## Main results

* `PhysicalMemoryManager.Valid.exists_returnsPages_iff`.
* `PhysicalMemoryManager.ReturnsPages.valid`: the other blocks stay allocated.
-/

namespace TwistedOS

namespace PhysicalMemoryManager

/-- Calls `FreePagesFromDescriptor` one after the other. -/
def freeAll (fuel : ℕ) : List (ℕ × ℕ) → PhysicalMemoryManager → Option PhysicalMemoryManager
  | [], m => some m
  | call :: calls, m =>
    (m.freePagesFromDescriptor fuel call.1 call.2).bind fun r => freeAll fuel calls r.1

/-- The pages `P` of an owner are returned: every call that is accepted frees pages that the owner
still has, and no page is left. -/
inductive ReturnsPages (fuel : ℕ) :
    List (ℕ × ℕ) → PhysicalMemoryManager → List ℕ → PhysicalMemoryManager → Prop
  | done (m : PhysicalMemoryManager) : ReturnsPages fuel [] m [] m
  | refused {calls P m m₁ m' address pages}
      (hcall : m.freePagesFromDescriptor fuel address pages = some (m₁, false))
      (hcalls : ReturnsPages fuel calls m₁ P m') :
      ReturnsPages fuel ((address, pages) :: calls) m P m'
  | freed {calls P m m₁ m' j pages}
      (hcall : m.freePagesFromDescriptor fuel (m.pageAddress j) pages = some (m₁, true))
      (howned : ∀ k, (freedBlock j pages).Contains k → k ∈ P)
      (hcalls : ReturnsPages fuel calls m₁
        (P.filter fun k => ¬ (freedBlock j pages).Contains k) m') :
      ReturnsPages fuel ((m.pageAddress j, pages) :: calls) m P m'

/-- The call frees the block. -/
def AcceptedBlock (m : PhysicalMemoryManager) (call : ℕ × ℕ) (b : DyadicBlock) : Prop :=
  ∃ j < m.memoryDescriptorInfo.totalNumberOfPages, call.1 = m.pageAddress j ∧
    m.FreeAccepted j call.2 ∧ b = freedBlock j call.2

/-- The blocks that the calls free are pairwise disjoint and make up the pages `P`. -/
structure ExactBlocks (m : PhysicalMemoryManager) (calls : List (ℕ × ℕ)) (P : List ℕ) : Prop where
  owned : ∀ call ∈ calls, ∀ b, m.AcceptedBlock call b → ∀ k, b.Contains k → k ∈ P
  disjoint : calls.Pairwise fun c d => ∀ b b', m.AcceptedBlock c b → m.AcceptedBlock d b' →
    ∀ k, b.Contains k → ¬ b'.Contains k
  complete : ∀ k ∈ P, ∃ call ∈ calls, ∃ b, m.AcceptedBlock call b ∧ b.Contains k

/-- A call that may be made: it is aligned to pages and asks for some. -/
def Regular (m : PhysicalMemoryManager) (call : ℕ × ℕ) : Prop :=
  m.memoryDescriptorInfo.physicalAddressStart % pageSize = call.1 % pageSize ∧ call.2 ≠ 0

variable {m m' m₁ : PhysicalMemoryManager} {P : List ℕ} {rest live : List DyadicBlock}
  {calls : List (ℕ × ℕ)} {call : ℕ × ℕ} {b : DyadicBlock} {fuel j pages : ℕ}

theorem Agrees.acceptedBlock_eq {n : ℕ} {held : List DyadicBlock} (h : Agrees m m' n held) :
    m'.AcceptedBlock = m.AcceptedBlock := by
  funext call b
  simp only [AcceptedBlock, FreeAccepted, h.total, h.maxOrder, h.pageAddress]

theorem Agrees.exactBlocks_iff {n : ℕ} {held : List DyadicBlock} (h : Agrees m m' n held) :
    m'.ExactBlocks calls P ↔ m.ExactBlocks calls P := by
  have heq := h.acceptedBlock_eq
  exact ⟨fun ⟨howned, hdisjoint, hcomplete⟩ => ⟨heq ▸ howned, heq ▸ hdisjoint, heq ▸ hcomplete⟩,
    fun ⟨howned, hdisjoint, hcomplete⟩ =>
      ⟨heq.symm ▸ howned, heq.symm ▸ hdisjoint, heq.symm ▸ hcomplete⟩⟩

/-- The block of a call is determined by the call. -/
theorem AcceptedBlock.eq {b' : DyadicBlock} (h : m.AcceptedBlock call b)
    (h' : m.AcceptedBlock call b') : b = b' := by
  obtain ⟨j, -, haddress, -, rfl⟩ := h
  obtain ⟨j', -, haddress', -, rfl⟩ := h'
  rw [m.pageAddress_injective (haddress.symm.trans haddress')]

/-- A call outside the managed range is refused. -/
theorem free_outside {address : ℕ} (h : ¬ m.isAddressInManagedRange address) :
    freePagesFromDescriptor fuel m address pages = some (m, false) := by
  unfold freePagesFromDescriptor
  split_ifs <;> rfl

namespace Valid

/-- A call that frees no block is refused. -/
theorem free_of_not_acceptedBlock (h : Valid m live) (hregular : m.Regular call)
    (hrefused : ∀ b, ¬ m.AcceptedBlock call b) :
    m.freePagesFromDescriptor fuel call.1 call.2 = some (m, false) := by
  obtain ⟨free, hlists, -⟩ := h.free
  by_cases hrange : m.isAddressInManagedRange call.1
  · obtain ⟨j, hjlt, hj⟩ := h.exists_pageAddress hrange (by
      have := hregular.1
      simp only [pageSize] at *
      omega)
    rw [hj]
    exact h.free_refused hjlt fun haccepted =>
      hrefused _ ⟨j, hjlt, hj, haccepted, rfl⟩
  · exact free_outside hrange

/-- A call that frees a block is not refused. -/
theorem free_ne_refused (h : Valid m live) (hpages : pages ≠ 0)
    (hj : j < m.memoryDescriptorInfo.totalNumberOfPages) (haccepted : m.FreeAccepted j pages) :
    freePagesFromDescriptor fuel m (m.pageAddress j) pages ≠ some (m₁, false) := by
  have hpasses := (h.passesChecks_iff hj).mpr ⟨hpages, haccepted⟩
  rw [PhysicalMemoryManager.free_of_passesChecks fuel hpasses, ne_eq, Option.map_eq_some_iff]
  rintro ⟨merged, -, hmerged⟩
  simp at hmerged

/-- A call that is refused frees no block and changes nothing. -/
theorem of_refused (h : Valid m live) (hregular : m.Regular call)
    (hcall : m.freePagesFromDescriptor fuel call.1 call.2 = some (m₁, false)) :
    m₁ = m ∧ ∀ b, ¬ m.AcceptedBlock call b := by
  have hrefused : ∀ b, ¬ m.AcceptedBlock call b := by
    rintro b ⟨j, hj, haddress, hfree, -⟩
    exact h.free_ne_refused hregular.2 hj hfree (haddress ▸ hcall)
  rw [h.free_of_not_acceptedBlock hregular hrefused] at hcall
  exact ⟨(congrArg Prod.fst (Option.some.inj hcall)).symm, hrefused⟩

/-- A call that frees pages of the owner. -/
theorem of_freed (h : Valid m (unitBlocks P ++ rest))
    (hregular : m.Regular (m.pageAddress j, pages))
    (hcall : m.freePagesFromDescriptor fuel (m.pageAddress j) pages = some (m₁, true))
    (howned : ∀ k, (freedBlock j pages).Contains k → k ∈ P)
    (hfuel : m.memoryDescriptorInfo.totalNumberOfPages < fuel) :
    m.AcceptedBlock (m.pageAddress j, pages) (freedBlock j pages) ∧
      Valid m₁ (unitBlocks (P.filter fun k => ¬ (freedBlock j pages).Contains k) ++ rest) ∧
      Keeps m m₁ (unitBlocks (P.filter fun k => ¬ (freedBlock j pages).Contains k) ++ rest) := by
  by_cases haccepted : ∃ b, m.AcceptedBlock (m.pageAddress j, pages) b
  · obtain ⟨b, j', hj, haddress, hfree, rfl⟩ := haccepted
    obtain rfl : j = j' := m.pageAddress_injective haddress
    obtain ⟨m₂, hrun, hvalid, hkeeps⟩ := h.free_pages hregular.2 hfree howned hfuel
    obtain rfl : m₁ = m₂ := by
      rw [hcall] at hrun
      exact congrArg Prod.fst (Option.some.inj hrun)
    exact ⟨⟨j, hj, rfl, hfree, rfl⟩, hvalid, hkeeps⟩
  · push Not at haccepted
    have hrun : m.freePagesFromDescriptor fuel (m.pageAddress j) pages = some (m, false) :=
      h.free_of_not_acceptedBlock hregular haccepted
    rw [hcall] at hrun
    simp at hrun

end Valid

/-! ### Exactness -/

/-- The first call of a list that is refused does not matter. -/
theorem exactBlocks_cons_of_refused (hrefused : ∀ b, ¬ m.AcceptedBlock call b) :
    m.ExactBlocks (call :: calls) P ↔ m.ExactBlocks calls P := by
  constructor
  · rintro ⟨howned, hdisjoint, hcomplete⟩
    refine ⟨fun c hc => howned c (List.mem_cons_of_mem _ hc),
      (List.pairwise_cons.mp hdisjoint).2, fun k hk => ?_⟩
    obtain ⟨c, hc, b, hb, hcontains⟩ := hcomplete k hk
    rcases List.mem_cons.mp hc with rfl | hc
    · exact absurd hb (hrefused b)
    · exact ⟨c, hc, b, hb, hcontains⟩
  · rintro ⟨howned, hdisjoint, hcomplete⟩
    refine ⟨List.forall_mem_cons.mpr ⟨fun b hb => absurd hb (hrefused b), howned⟩,
      List.pairwise_cons.mpr ⟨fun d _ b b' hb => absurd hb (hrefused b), hdisjoint⟩, fun k hk => ?_⟩
    obtain ⟨c, hc, hcontains⟩ := hcomplete k hk
    exact ⟨c, List.mem_cons_of_mem _ hc, hcontains⟩

/-- The first call of a list frees a block, and the others make up the remaining pages. -/
theorem exactBlocks_cons_of_accepted (haccepted : m.AcceptedBlock call b) :
    m.ExactBlocks (call :: calls) P ↔ (∀ k, b.Contains k → k ∈ P) ∧
      m.ExactBlocks calls (P.filter fun k => ¬ b.Contains k) := by
  constructor
  · rintro ⟨howned, hdisjoint, hcomplete⟩
    obtain ⟨hfirst, hrest⟩ := List.pairwise_cons.mp hdisjoint
    refine ⟨howned call List.mem_cons_self b haccepted, ⟨?_, hrest, ?_⟩⟩
    · intro c hc b' hb' k hk
      rw [List.mem_filter]
      exact ⟨howned c (List.mem_cons_of_mem _ hc) b' hb' k hk,
        by simpa using fun hbk => hfirst c hc b b' haccepted hb' k hbk hk⟩
    · intro k hk
      obtain ⟨hk, hnot⟩ : k ∈ P ∧ ¬ b.Contains k := by simpa using hk
      obtain ⟨c, hc, b', hb', hcontains⟩ := hcomplete k hk
      rcases List.mem_cons.mp hc with rfl | hc
      · exact absurd (haccepted.eq hb' ▸ hcontains) hnot
      · exact ⟨c, hc, b', hb', hcontains⟩
  · rintro ⟨hfirst, howned, hdisjoint, hcomplete⟩
    have howned' : ∀ c ∈ calls, ∀ b', m.AcceptedBlock c b' → ∀ k, b'.Contains k →
        k ∈ P ∧ ¬ b.Contains k := by
      intro c hc b' hb' k hk
      simpa using howned c hc b' hb' k hk
    refine ⟨List.forall_mem_cons.mpr ⟨?_, fun c hc b' hb' k hk => (howned' c hc b' hb' k hk).1⟩,
      List.pairwise_cons.mpr ⟨?_, hdisjoint⟩, fun k hk => ?_⟩
    · intro b' hb' k hk
      exact hfirst k (haccepted.eq hb' ▸ hk)
    · intro d hd b₁ b₂ hb₁ hb₂ k hk hk₂
      exact (howned' d hd b₂ hb₂ k hk₂).2 (haccepted.eq hb₁ ▸ hk)
    · by_cases hbk : b.Contains k
      · exact ⟨call, List.mem_cons_self, b, haccepted, hbk⟩
      · obtain ⟨c, hc, hcontains⟩ := hcomplete k (by simpa using ⟨hk, hbk⟩)
        exact ⟨c, List.mem_cons_of_mem _ hc, hcontains⟩

/-- The pages are returned exactly if the calls' blocks make them up. -/
theorem Valid.exists_returnsPages_iff (h : Valid m (unitBlocks P ++ rest))
    (hcalls : ∀ call ∈ calls, m.Regular call)
    (hfuel : m.memoryDescriptorInfo.totalNumberOfPages < fuel) :
    (∃ m', ReturnsPages fuel calls m P m') ↔ m.ExactBlocks calls P := by
  induction calls generalizing m P with
  | nil =>
    constructor
    · rintro ⟨m', hreturns⟩
      cases hreturns
      exact ⟨by simp, List.Pairwise.nil, by simp⟩
    · rintro ⟨-, -, hcomplete⟩
      obtain rfl : P = [] := List.eq_nil_iff_forall_not_mem.mpr fun k hk => by
        simpa using hcomplete k hk
      exact ⟨m, .done m⟩
  | cons call calls ih =>
    obtain ⟨hregular, htail⟩ := List.forall_mem_cons.mp hcalls
    have hregular' {m₁ : PhysicalMemoryManager} {held : List DyadicBlock} (hk : Keeps m m₁ held) :
        ∀ c ∈ calls, m₁.Regular c := fun c hc => ⟨hk.start ▸ (htail c hc).1, (htail c hc).2⟩
    constructor
    · rintro ⟨m', hreturns⟩
      cases hreturns with
      | refused hcall hrest =>
        obtain ⟨rfl, hrefused⟩ := h.of_refused hregular hcall
        exact (exactBlocks_cons_of_refused hrefused).mpr ((ih h htail hfuel).mp ⟨m', hrest⟩)
      | freed hcall howned hrest =>
        obtain ⟨haccepted, hvalid, hkeeps⟩ := h.of_freed hregular hcall howned hfuel
        refine (exactBlocks_cons_of_accepted haccepted).mpr ⟨howned, hkeeps.exactBlocks_iff.mp ?_⟩
        exact (ih hvalid (hregular' hkeeps) (by rwa [hkeeps.total])).mp ⟨m', hrest⟩
    · intro hexact
      by_cases haccepted : ∃ b, m.AcceptedBlock call b
      · obtain ⟨b, hb⟩ := haccepted
        obtain ⟨howned, hexact⟩ := (exactBlocks_cons_of_accepted hb).mp hexact
        obtain ⟨j, hj, haddress, hfree, rfl⟩ := hb
        obtain ⟨m₁, hrun, hvalid, hkeeps⟩ := h.free_pages hregular.2 hfree howned hfuel
        obtain ⟨m', hrest⟩ := (ih hvalid (hregular' hkeeps) (by rwa [hkeeps.total])).mpr
          (hkeeps.exactBlocks_iff.mpr hexact)
        refine ⟨m', ?_⟩
        rw [show call = (m.pageAddress j, call.2) from Prod.ext haddress rfl]
        exact .freed hrun howned hrest
      · push Not at haccepted
        obtain ⟨m', hrest⟩ := (ih h htail hfuel).mpr
          ((exactBlocks_cons_of_refused haccepted).mp hexact)
        exact ⟨m', .refused (h.free_of_not_acceptedBlock hregular haccepted) hrest⟩

namespace ReturnsPages

theorem freeAll_eq (h : ReturnsPages fuel calls m P m') : freeAll fuel calls m = some m' := by
  induction h with
  | done => rfl
  | refused hcall _ ih => rw [freeAll, hcall, Option.bind_some, ih]
  | freed hcall _ _ ih => rw [freeAll, hcall, Option.bind_some, ih]

/-- What the calls leave: only the other blocks are allocated any more, and they are as before. -/
theorem valid (h : ReturnsPages fuel calls m P m') (hvalid : Valid m (unitBlocks P ++ rest))
    (hcalls : ∀ call ∈ calls, m.Regular call)
    (hfuel : m.memoryDescriptorInfo.totalNumberOfPages < fuel) :
    Valid m' rest ∧ Keeps m m' rest := by
  induction h with
  | done => exact ⟨hvalid, .refl _ _ _⟩
  | refused hcall _ ih =>
    obtain ⟨hregular, htail⟩ := List.forall_mem_cons.mp hcalls
    obtain ⟨rfl, -⟩ := hvalid.of_refused hregular hcall
    exact ih hvalid htail hfuel
  | freed hcall howned _ ih =>
    obtain ⟨hregular, htail⟩ := List.forall_mem_cons.mp hcalls
    obtain ⟨-, hvalid₁, hkeeps⟩ := hvalid.of_freed hregular hcall howned hfuel
    obtain ⟨hvalid', hkeeps'⟩ := ih hvalid₁
      (fun c hc => ⟨hkeeps.start ▸ (htail c hc).1, (htail c hc).2⟩) (by rwa [hkeeps.total])
    exact ⟨hvalid', hkeeps.trans_mono hkeeps' fun _ => List.mem_append_right _⟩

end ReturnsPages

/-- When the pages of an owner have been returned, they are free besides those that were. -/
theorem Valid.pageFree_iff_of_returned (h : Valid m (unitBlocks P ++ rest)) (h' : Valid m' rest)
    (htotal : m'.memoryDescriptorInfo.totalNumberOfPages =
      m.memoryDescriptorInfo.totalNumberOfPages) (k : ℕ) :
    m'.PageFree k ↔ m.PageFree k ∨ k ∈ P := by
  rw [h'.pageFree_iff, h.pageFree_iff, htotal]
  constructor
  · rintro ⟨hlt, hrest⟩
    by_cases hk : k ∈ P
    · exact .inr hk
    · refine .inl ⟨hlt, fun b hb hcontains => ?_⟩
      rcases List.mem_append.mp hb with hb | hb
      · obtain ⟨k', hk', rfl⟩ := mem_unitBlocks.mp hb
        obtain rfl : k = k' := by
          simp only [DyadicBlock.Contains, DyadicBlock.size_mk] at hcontains
          omega
        exact hk hk'
      · exact hrest b hb hcontains
  · rintro (⟨hlt, hall⟩ | hk)
    · exact ⟨hlt, fun b hb => hall b (List.mem_append_right _ hb)⟩
    · have hend := h.end_le (b := ⟨k, 0⟩)
        (List.mem_append_left _ (mem_unitBlocks.mpr ⟨k, hk, rfl⟩))
      simp only [DyadicBlock.size_mk] at hend
      exact ⟨by omega, h.nodup.2 k hk⟩

end PhysicalMemoryManager

end TwistedOS
