import TwistedOS.Memory.BuddyRuns

/-!
# Freeing arbitrary pages

`FreePagesFromDescriptor` checks that the block it is given lies in the managed range and is aligned
to its size, but not that it is allocated. A call for pages that are not exactly one live block is
therefore refused if and only if one of these checks fails. As long as every call either fails the
checks or frees exactly one live block, no page is handed out twice.

## Main definitions

* `PhysicalMemoryManager.CheckedRun`: runs with frees of arbitrary arguments.
* `PhysicalMemoryManager.FreesSafely`: a call is refused unless it frees exactly one live block.

## Main results

* `PhysicalMemoryManager.CheckedRun.freesSafely_iff`.
* `PhysicalMemoryManager.CheckedRun.free_of_arguments`: what a call does with any arguments.
-/

namespace TwistedOS

namespace PhysicalMemoryManager

/-- The pages that a call would free are exactly those of one live allocation. -/
def IsLiveBlock (live : List Allocation) (address pages : ℕ) : Prop :=
  ∃ x ∈ live, x.block = ⟨address, ceilLog2Pages pages⟩

/-- A call returns `false` and changes nothing unless it is made for exactly one live block. -/
def FreesSafely (m : PhysicalMemoryManager) (live : List Allocation) (address pages : ℕ) : Prop :=
  ¬ IsLiveBlock live address pages → ∀ fuel, m.memoryDescriptorInfo.totalNumberOfPages < fuel →
    freePagesFromDescriptor fuel m address pages = some (m, false)

/-- Runs with frees of arbitrary arguments that fail the checks or name exactly one live block. -/
inductive CheckedRun (boot : BootMemoryMap) : PhysicalMemoryManager → List Allocation → Prop
  | boot (physicalMemory : ℕ → ℕ) :
      CheckedRun boot (initializeMemoryDescriptors boot physicalMemory) []
  | allocate {m m' live a} (pages : ℕ) (hrun : CheckedRun boot m live)
      (hcall : m.allocatePagesFromDescriptor pages = (m', a)) (ha : a ≠ 0) :
      CheckedRun boot m' (⟨a, pages⟩ :: live)
  | allocateFails {m m' live} (pages : ℕ) (hrun : CheckedRun boot m live)
      (hcall : m.allocatePagesFromDescriptor pages = (m', 0)) : CheckedRun boot m' live
  | free {m m' live} {ok : Bool} (fuel address pages : ℕ) (hrun : CheckedRun boot m live)
      (hsafe : ¬ m.PassesChecks address pages ∨ IsLiveBlock live address pages)
      (hcall : freePagesFromDescriptor fuel m address pages = some (m', ok)) :
      CheckedRun boot m'
        (if ok then live.eraseP fun x => x.block = ⟨address, ceilLog2Pages pages⟩ else live)
  | write {m live} (physicalMemory : ℕ → ℕ) (hrun : CheckedRun boot m live)
      (hown : ∀ a, (∀ x ∈ live, ¬ (x.address ≤ a ∧ a < x.block.endAddress)) →
        physicalMemory a = m.physicalMemory a) :
      CheckedRun boot { m with physicalMemory := physicalMemory } live

/-! ### One call -/

section OneCall

variable {m m' : PhysicalMemoryManager} {live : List Allocation} {fuel address pages : ℕ}

theorem passesChecks_of_free (h : freePagesFromDescriptor fuel m address pages = some (m', true)) :
    m.PassesChecks address pages := by
  by_contra hfails
  rw [free_of_not_passesChecks hfails] at h
  simp at h

/-- What is freed depends on the order of the block only. -/
theorem free_congr {pages' : ℕ} (hpages : pages ≠ 0) (hpages' : pages' ≠ 0)
    (horder : ceilLog2Pages pages = ceilLog2Pages pages') :
    freePagesFromDescriptor fuel m address pages =
      freePagesFromDescriptor fuel m address pages' := by
  simp only [freePagesFromDescriptor, hpages, hpages', horder]

/-- A call is refused whenever it should be if and only if it fails the checks or names exactly one
live block. -/
theorem freesSafely_iff_of_checks : FreesSafely m live address pages ↔
    ¬ m.PassesChecks address pages ∨ IsLiveBlock live address pages := by
  constructor
  · intro hsafe
    by_contra! hboth
    obtain ⟨hpasses, hlive⟩ := hboth
    have hcall := hsafe hlive _ (Nat.lt_succ_self _)
    rw [free_of_passesChecks _ hpasses, Option.map_eq_some_iff] at hcall
    obtain ⟨r, -, hr⟩ := hcall
    simp at hr
  · rintro (hfails | hlive) hnot fuel -
    · exact free_of_not_passesChecks hfails
    · exact absurd hlive hnot

/-! ### Calls that are not refused -/

/-- The loop over the buddies ends for every aligned block of the range. -/
theorem FreeLists.mergeLoop_ne_none {n fuel i k : ℕ} {free : ℕ → List ℕ} {held : List DyadicBlock}
    (steps : ℕ) (hk : k + steps < maxBuddyOrders)
    (hn : n = m.memoryDescriptorInfo.totalNumberOfPages) (hfuel : n < fuel) (halign : 2 ^ k ∣ i)
    (hend : i + 2 ^ k ≤ n) (h : FreeLists m n free held) :
    PhysicalMemoryManager.mergeLoop fuel steps m (m.pageAddress i) k ≠ none := by
  induction steps generalizing m free held i k with
  | zero => simp [PhysicalMemoryManager.mergeLoop]
  | succ steps ih =>
    rcases h.mergeLoop_succ steps (by omega) hn hfuel halign hend with
      ⟨-, hloop⟩ | ⟨hrange, m₁, l, -, hlists, hinfo, -, hloop⟩
    · simp [hloop]
    have hnext : 2 ^ (k + 1) ∣ (if i ^^^ 2 ^ k < i then i ^^^ 2 ^ k else i) ∧
        (if i ^^^ 2 ^ k < i then i ^^^ 2 ^ k else i) + 2 ^ (k + 1) ≤ n := by
      have hpos := Nat.two_pow_pos k
      have hdouble : 2 ^ (k + 1) = 2 ^ k + 2 ^ k := by ring
      have hxor := xor_two_pow_of_dvd halign
      by_cases heven : 2 ^ (k + 1) ∣ i
      · rw [if_pos heven] at hxor
        rw [hxor] at hrange ⊢
        rw [if_neg (by omega)]
        exact ⟨heven, by omega⟩
      · obtain ⟨hdvd, hle⟩ := two_pow_succ_dvd_sub halign heven
        rw [if_neg heven] at hxor
        rw [hxor, if_pos (by omega)]
        exact ⟨hdvd, by omega⟩
    rw [hloop]
    exact ih (by omega) (by rw [hn, hinfo]) hnext.1 hnext.2 hlists

/-- A call that passes the checks returns `true`, whether or not the block is live. -/
theorem Valid.free_of_passesChecks {blocks : List DyadicBlock} (h : Valid m blocks)
    (hfuel : m.memoryDescriptorInfo.totalNumberOfPages < fuel)
    (hpasses : m.PassesChecks address pages) :
    ∃ m', freePagesFromDescriptor fuel m address pages = some (m', true) := by
  obtain ⟨free, hlists, -⟩ := h.free
  have hloop := PhysicalMemoryManager.free_of_passesChecks fuel hpasses
  obtain ⟨j, hj, rfl⟩ := h.exists_pageAddress hpasses.2.2.1 hpasses.2.2.2.1
  obtain ⟨-, horder, hend, halign⟩ := (h.passesChecks_iff hj).mp hpasses
  have hmerge := hlists.mergeLoop_ne_none (m.buddyMaxOrder - ceilLog2Pages pages)
    (by have := hlists.maxOrder_lt; omega) rfl hfuel halign hend
  obtain ⟨r, hr⟩ := Option.ne_none_iff_exists'.mp hmerge
  rw [hr, Option.map_some] at hloop
  exact ⟨_, hloop⟩

end OneCall

/-! ### Runs -/

/-- The requests for which memory was handed out asked for some page. -/
theorem Run.pages_ne {boot : BootMemoryMap} {m : PhysicalMemoryManager} {live : List Allocation}
    (h : Run boot m live) : ∀ x ∈ live, x.pages ≠ 0 := by
  induction h with
  | boot => simp
  | @allocate m m' live a pages _ hcall ha ih =>
    refine List.forall_mem_cons.mpr ⟨?_, ih⟩
    rintro (rfl : pages = 0)
    rw [allocatePagesFromDescriptor, if_pos rfl] at hcall
    exact ha (Prod.mk.inj hcall).2.symm
  | allocateFails _ _ _ ih => exact ih
  | free _ _ _ _ ih => exact fun y hy => ih y (List.mem_of_mem_erase hy)
  | write _ _ _ ih => exact ih

/-- A run whose frees fail the checks or name one live block is a run that frees live allocations
only. -/
theorem CheckedRun.run {boot : BootMemoryMap} {m : PhysicalMemoryManager} {live : List Allocation}
    (h : CheckedRun boot m live) : Run boot m live := by
  induction h with
  | boot physicalMemory => exact .boot physicalMemory
  | allocate pages _ hcall ha ih => exact .allocate pages ih hcall ha
  | allocateFails pages _ hcall ih => exact .allocateFails pages ih hcall
  | @free m m' live ok fuel address pages _ hsafe hcall ih =>
    cases ok with
    | false =>
      have hfails : ¬ m.PassesChecks address pages := fun hpasses => by
        rw [free_of_passesChecks _ hpasses, Option.map_eq_some_iff] at hcall
        obtain ⟨r, -, hr⟩ := hcall
        simp at hr
      rw [free_of_not_passesChecks hfails] at hcall
      obtain rfl := congrArg Prod.fst (Option.some.inj hcall)
      exact ih
    | true =>
      have hpasses := passesChecks_of_free hcall
      obtain ⟨x, hx, hblock⟩ := hsafe.resolve_left (not_not.mpr hpasses)
      obtain ⟨y, l₁, l₂, hl₁, hy, rfl, herase⟩ := List.exists_of_eraseP hx
        (p := fun x => x.block = ⟨address, ceilLog2Pages pages⟩) (by simpa using hblock)
      have hyblock : y.block = ⟨address, ceilLog2Pages pages⟩ := by simpa using hy
      obtain ⟨haddress, horder⟩ := MemoryBlock.mk.inj hyblock
      have hnotMem : y ∉ l₁ := fun hmem => hl₁ y hmem hy
      have hfree := Run.free (x := y) fuel ih (by simp) (by
        rw [haddress, free_congr (ih.pages_ne y (by simp)) (fun hzero => hpasses.1 (.inr hzero))
          horder]
        exact hcall)
      rw [if_pos rfl, herase]
      rwa [List.erase_append_right _ hnotMem, List.erase_cons_head] at hfree
  | write physicalMemory _ hown ih => exact .write physicalMemory ih hown

private theorem bitMap_selectRange (boot : BootMemoryMap) (descs : List EfiMemoryDescriptor)
    (i : ℕ) (best : MemoryDescriptor) (hbest : best.bitMap = 0) :
    (selectRange boot descs i best).bitMap = 0 := by
  induction descs generalizing i best with
  | nil => exact hbest
  | cons desc rest ih =>
    rw [selectRange]
    split
    · split_ifs
      · exact ih _ _ rfl
      · exact ih _ _ hbest
    · exact ih _ _ hbest

/-- Without a range, or with one at the null pointer, the allocator stays inactive. -/
private theorem bitMap_initialize {boot : BootMemoryMap}
    (hnone : (selectedRange boot).totalNumberOfPages = 0 ∨
      (selectedRange boot).physicalAddressStart = 0) (physicalMemory : ℕ → ℕ) :
    (initializeMemoryDescriptors boot physicalMemory).memoryDescriptorInfo.bitMap = 0 := by
  have hbitMap : (selectedRange boot).bitMap = 0 := bitMap_selectRange _ _ _ _ rfl
  have hloop (fuel : ℕ) (m : PhysicalMemoryManager) (remaining offset : ℕ) :
      (initializeBuddyLoop fuel m remaining offset).memoryDescriptorInfo =
        m.memoryDescriptorInfo := by
    induction fuel generalizing m remaining offset with
    | zero => rfl
    | succ fuel ih =>
      rw [initializeBuddyLoop]
      split_ifs
      · rfl
      · exact ih _ _ _
  change (initializeBuddyAllocator
    ⟨selectedRange boot, fun _ => 0, 0, physicalMemory⟩).memoryDescriptorInfo.bitMap = 0
  unfold initializeBuddyAllocator
  dsimp only
  split_ifs with hzero
  · exact hbitMap
  · dsimp only
    rw [hloop]
    exact hnone.resolve_left hzero

/-- Nothing is handed out by an inactive allocator. -/
private theorem Run.eq_nil {boot : BootMemoryMap} {m : PhysicalMemoryManager}
    {live : List Allocation} (hnone : (selectedRange boot).totalNumberOfPages = 0 ∨
      (selectedRange boot).physicalAddressStart = 0) (h : Run boot m live) :
    live = [] ∧ m.memoryDescriptorInfo.bitMap = 0 := by
  have hfails {m : PhysicalMemoryManager} (hm : m.memoryDescriptorInfo.bitMap = 0) (pages : ℕ) :
      m.allocatePagesFromDescriptor pages = (m, 0) := by
    unfold allocatePagesFromDescriptor
    split_ifs <;> rfl
  induction h with
  | boot physicalMemory => exact ⟨rfl, bitMap_initialize hnone physicalMemory⟩
  | allocate pages _ hcall ha ih =>
    rw [hfails ih.2] at hcall
    exact absurd (Prod.mk.inj hcall).2.symm ha
  | allocateFails pages _ hcall ih =>
    rw [hfails ih.2] at hcall
    exact (Prod.mk.inj hcall).1 ▸ ih
  | free _ _ hx _ ih => simp [ih.1] at hx
  | write _ _ _ ih => exact ih

/-- No two live allocations share a page. -/
theorem Run.pairwise_disjoint {boot : BootMemoryMap} {m : PhysicalMemoryManager}
    {live : List Allocation} (h : Run boot m live) :
    live.Pairwise fun x y =>
      x.block.endAddress ≤ y.address ∨ y.block.endAddress ≤ x.address := by
  by_cases hnone : (selectedRange boot).totalNumberOfPages = 0 ∨
      (selectedRange boot).physicalAddressStart = 0
  · rw [(h.eq_nil hnone).1]
    exact List.Pairwise.nil
  · push Not at hnone
    obtain ⟨free, hfree⟩ := (h.invariant hnone.1 hnone.2).partitioned
    exact List.pairwise_map.mp (List.pairwise_append.mp hfree.disjoint).2.1

/-- In every state of a run whose frees fail the checks or name exactly one live block, no page is
handed out twice, and these are the calls for which the code frees nothing that it should not. -/
theorem CheckedRun.freesSafely_iff {boot : BootMemoryMap} {m : PhysicalMemoryManager}
    {live : List Allocation} (h : CheckedRun boot m live) :
    (live.Pairwise fun x y =>
      x.block.endAddress ≤ y.address ∨ y.block.endAddress ≤ x.address) ∧
    ∀ address pages, FreesSafely m live address pages ↔
      ¬ m.PassesChecks address pages ∨ IsLiveBlock live address pages :=
  ⟨h.run.pairwise_disjoint, fun _ _ => freesSafely_iff_of_checks⟩

/-- The allocator over seven pages after a request for three pages. -/
theorem CheckedRun.freesSafely_iff_sevenPages :
    ([⟨0x100000, 3⟩] : List Allocation).Pairwise (fun x y =>
      x.block.endAddress ≤ y.address ∨ y.block.endAddress ≤ x.address) ∧
    ∀ address pages, FreesSafely
        (allocatePagesFromDescriptor (initializeMemoryDescriptors sevenPages fun _ => 0) 3).1
        [⟨0x100000, 3⟩] address pages ↔
      ¬ PassesChecks
        (allocatePagesFromDescriptor (initializeMemoryDescriptors sevenPages fun _ => 0) 3).1
        address pages ∨ IsLiveBlock [⟨0x100000, 3⟩] address pages :=
  @CheckedRun.freesSafely_iff sevenPages _ _
    (.allocate 3 (.boot fun _ => 0) (Prod.ext rfl (by decide)) (by decide))

/-- **Frees of arbitrary arguments.** In every state of such a run a call returns `true` if its
arguments pass the checks, also where nothing is allocated; otherwise it changes nothing. -/
theorem CheckedRun.free_of_arguments {boot : BootMemoryMap} {m : PhysicalMemoryManager}
    {live : List Allocation} (h : CheckedRun boot m live) (address pages : ℕ) {fuel : ℕ}
    (hfuel : m.memoryDescriptorInfo.totalNumberOfPages < fuel) :
    if m.PassesChecks address pages then
      ∃ m', freePagesFromDescriptor fuel m address pages = some (m', true)
    else freePagesFromDescriptor fuel m address pages = some (m, false) := by
  split_ifs with hpasses
  · have hboot : ¬ ((selectedRange boot).totalNumberOfPages = 0 ∨
        (selectedRange boot).physicalAddressStart = 0) :=
      fun hnone => hpasses.2.1 (h.run.eq_nil hnone).2
    push Not at hboot
    exact (h.run.invariant hboot.1 hboot.2).valid.free_of_passesChecks hfuel hpasses
  · exact free_of_not_passesChecks hpasses

/-- A page that is not allocated is freed. -/
theorem CheckedRun.free_of_arguments_notAllocated :
    ∃ m', freePagesFromDescriptor 8 (initializeMemoryDescriptors sevenPages fun _ => 0)
      0x106000 1 = some (m', true) := by
  have h := @CheckedRun.free_of_arguments sevenPages _ _ (.boot fun _ => 0) 0x106000 1 8 (by decide)
  rwa [if_pos (by decide)] at h

/-- A page of seven is allocated, freed and freed again. The second call returns `true`, and then
two requests are both given this page. -/
theorem CheckedRun.not_freesSafely_twice : ∃ m m',
    CheckedRun sevenPages m [] ∧ ¬ FreesSafely m [] 0x106000 1 ∧
    freePagesFromDescriptor 8 m 0x106000 1 = some (m', true) ∧
    (m'.allocatePagesFromDescriptor 1).2 = 0x106000 ∧
    ((m'.allocatePagesFromDescriptor 1).1.allocatePagesFromDescriptor 1).2 = 0x106000 := by
  obtain ⟨m₀, hm₀⟩ : ∃ m, m = initializeMemoryDescriptors sevenPages fun _ => 0 := ⟨_, rfl⟩
  have hresult : ((freePagesFromDescriptor 8 (m₀.allocatePagesFromDescriptor 1).1 0x106000 1).bind
      fun r => (freePagesFromDescriptor 8 r.1 0x106000 1).map fun r' =>
        ((m₀.allocatePagesFromDescriptor 1).2, r.2, decide (r.1.PassesChecks 0x106000 1), r'.2,
          (r'.1.allocatePagesFromDescriptor 1).2,
          ((r'.1.allocatePagesFromDescriptor 1).1.allocatePagesFromDescriptor 1).2)) =
      some (0x106000, true, true, true, 0x106000, 0x106000) := by
    rw [hm₀]
    decide +kernel
  obtain ⟨⟨m, ok⟩, hfree, hrest⟩ := Option.bind_eq_some_iff.mp hresult
  obtain ⟨⟨m', ok'⟩, hagain, hvalues⟩ := Option.map_eq_some_iff.mp hrest
  simp only [Prod.mk.injEq, decide_eq_true_eq] at hvalues
  obtain ⟨haddress, rfl, hpasses, rfl, hfirst, hsecond⟩ := hvalues
  have hone : CheckedRun sevenPages (m₀.allocatePagesFromDescriptor 1).1 [⟨0x106000, 1⟩] :=
    .allocate 1 (hm₀ ▸ .boot fun _ => 0) (Prod.ext rfl haddress) (by decide)
  have hnone : CheckedRun sevenPages m [] :=
    .free 8 0x106000 1 hone (.inr ⟨_, List.mem_singleton_self _, rfl⟩) hfree
  refine ⟨m, m', hnone, ?_, hagain, hfirst, hsecond⟩
  rw [freesSafely_iff_of_checks]
  rintro (hfails | ⟨x, hx, -⟩)
  · exact hfails hpasses
  · exact absurd hx List.not_mem_nil

end PhysicalMemoryManager

end TwistedOS
