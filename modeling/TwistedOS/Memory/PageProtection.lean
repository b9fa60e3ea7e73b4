import TwistedOS.Memory.MappedPages

/-!
# Changing the access to a page

`ProtectPage` changes the entry of the last level only, while the processor allows an access only if
the entries of all levels do. `MapPage` makes the tables above a page accessible to user mode when
the page is; hence in runs in which no page is opened to user mode below tables that are not,
`ProtectPage` has the effect that it reports, and mapping a page leaves the access to all other
pages alone.

## Main definitions

* `PageMapEvent`, `PhysicalMemoryManager.afterPageMapEvent`.
* `PhysicalMemoryManager.ProtectsExactly`, `PhysicalMemoryManager.StepProtectsExactly`.
* `PhysicalMemoryManager.OpensPage`: a page is opened below tables that are not.
* `PhysicalMemoryManager.AllowedPageMapRun`.

## Main results

* `PhysicalMemoryManager.AllowedPageMapRun.protectsExactly_iff`.
-/

namespace TwistedOS

open RadixTree

/-- A call that changes the tables of an address space. -/
inductive PageMapEvent where
  | map (physicalAddress virtualAddress : ℕ) (flags : PageMappingFlags)
  | unmap (virtualAddress : ℕ)
  | protect (virtualAddress : ℕ) (userAccess writeable : Bool)

namespace PhysicalMemoryManager

variable (m : PhysicalMemoryManager) (root : ℕ)

/-- The state after a call. -/
def afterPageMapEvent : PageMapEvent → PhysicalMemoryManager
  | .map physicalAddress virtualAddress flags =>
    (m.mapPage root physicalAddress virtualAddress flags).1
  | .unmap virtualAddress => (m.unmapPage root virtualAddress).1
  | .protect virtualAddress userAccess writeable =>
    (m.protectPage root virtualAddress userAccess writeable).1

/-- The page has an entry of the last level. -/
def HasLastEntry (v : ℕ) : Prop :=
  ∃ pageTable ∈ m.pageTableOf root v, entryPresent (m.entry pageTable (ptIndex v))

/-- The entries of the three upper levels allow the access of user mode to a page. -/
def TablesAllowUser (v : ℕ) : Prop :=
  let pml4Entry := m.entry root (pml4Index v)
  let pdptEntry := m.entry (entryAddress pml4Entry) (pdptIndex v)
  let pdEntry := m.entry (entryAddress pdptEntry) (pdIndex v)
  entryUserAccess pml4Entry ∧ entryUserAccess pdptEntry ∧ entryUserAccess pdEntry

/-- A call opens a page to user mode below tables that are closed to it. -/
def OpensPage : PageMapEvent → Prop
  | .protect v true _ => m.HasLastEntry root v ∧ ¬ m.TablesAllowUser root v
  | _ => False

/-- The call has the effect that it reports: the page has the access asked for and is mapped to the
same physical page, or nothing has changed. -/
structure ProtectsExactly (v : ℕ) (userAccess writeable : Bool)
    (result : PhysicalMemoryManager × Bool) : Prop where
  changed : result.2 = true → ∃ old, m.translation root v = some old ∧
    result.1.translation root v = some ⟨old.page, userAccess, writeable⟩
  failed : result.2 = false → result.1 = m

/-- A change of access has the effect that it reports, and other calls leave the translations of
other pages alone. -/
def StepProtectsExactly : PageMapEvent → Prop
  | .map physicalAddress v flags => ∀ w, ¬ SamePage v w →
    (m.mapPage root physicalAddress v flags).1.translation root w = m.translation root w
  | .unmap v => ∀ w, ¬ SamePage v w →
    (m.unmapPage root v).1.translation root w = m.translation root w
  | .protect v userAccess writeable => ProtectsExactly m root v userAccess writeable
      (m.protectPage root v userAccess writeable)

/-- The top-level table is empty and in use. -/
structure EmptyTables (live : List DyadicBlock) : Prop where
  root_mod : root % pageSize = 0
  root_lt : root < 2 ^ 32
  empty : ∀ i : Fin 512, entryPresent (m.entry root i) = false
  valid : Valid m live
  start_mod : m.memoryDescriptorInfo.physicalAddressStart % pageSize = 0
  end_le : m.pageAddress m.memoryDescriptorInfo.totalNumberOfPages ≤ pmmBuddyPhysicalLimit
  notFree : ∀ k, m.PageFree k → m.pageAddress k ≠ root

/-- The states that calls reach from an empty top-level table, when none of them opens a page to
user mode below tables that are closed to it. -/
inductive AllowedPageMapRun (root : ℕ) : PhysicalMemoryManager → Prop
  | start {m : PhysicalMemoryManager} {live : List DyadicBlock} (h : m.EmptyTables root live) :
    AllowedPageMapRun root m
  | step {m : PhysicalMemoryManager} (event : PageMapEvent) (h : AllowedPageMapRun root m)
    (hallowed : ¬ m.OpensPage root event) : AllowedPageMapRun root (m.afterPageMapEvent root event)

/-! ### Entries of the last level -/

/-- All pages lie below `MAX_SUPPORTED_PHYSICAL_ADDR`. -/
def PagesFit : Prop :=
  ∀ w translated, m.translation root w = some translated → translated.page < 2 ^ 32

variable {m root} {m' : PhysicalMemoryManager} {live : List DyadicBlock} {t v : ℕ}

theorem TranslationKept.pagesFit (h : TranslationKept m m' root) (hfit : m.PagesFit root) :
    m'.PagesFit root :=
  fun w translated hw => hfit w translated ((h.translation_eq w).symm.trans hw)

/-- The bits of an address that an entry cannot hold are dropped. -/
theorem buildLeafEntryValue_and (address flags : ℕ) (user writeable : Bool) :
    buildLeafEntryValue (address &&& validPhysicalAddrMask) flags user writeable =
      buildLeafEntryValue address flags user writeable := by
  refine Nat.eq_of_testBit_eq fun i => ?_
  simp only [testBit_buildLeafEntryValue, Nat.testBit_and, testBit_validPhysicalAddrMask]
  grind

theorem mapPage_and (physicalAddress : ℕ) (flags : PageMappingFlags) :
    m.mapPage root (physicalAddress &&& validPhysicalAddrMask) v flags =
      m.mapPage root physicalAddress v flags := by
  simp only [mapPage, buildLeafEntryValue_and]

theorem and_validPhysicalAddrMask_lt (address : ℕ) : address &&& validPhysicalAddrMask < 2 ^ 32 :=
  Nat.lt_of_le_of_lt Nat.and_le_right (by decide)

theorem and_validPhysicalAddrMask_mod (address : ℕ) :
    (address &&& validPhysicalAddrMask) % pageSize = 0 := by
  refine Nat.eq_of_testBit_eq fun i => ?_
  rw [show pageSize = 2 ^ 12 from rfl, Nat.testBit_mod_two_pow, Nat.testBit_and,
    testBit_validPhysicalAddrMask, Nat.zero_testBit]
  by_cases hi : i < 12
  · simp [Nat.not_le.mpr hi]
  · simp [hi]

/-- The access that the tables above a page allow. -/
theorem all_tagsAlong_iff
    (hq : reach m.translationEntries 0 root [pml4Fin v, pdptFin v, pdFin v] = some t) :
    (tagsAlong m.translationEntries 0 root [pml4Fin v, pdptFin v, pdFin v]).all
      PageTag.userAccess = true ↔ m.TablesAllowUser root v := by
  simp only [reach, Option.bind_eq_some_iff] at hq
  obtain ⟨pdpt, hfirst, pd, hmiddle, t', hlast, hlast'⟩ := hq
  obtain ⟨g₁, hentry₁⟩ := RadixEntry.exists_of_child hfirst
  obtain ⟨g₂, hentry₂⟩ := RadixEntry.exists_of_child hmiddle
  obtain ⟨g₃, hentry₃⟩ := RadixEntry.exists_of_child hlast
  obtain ⟨-, -, rfl, rfl⟩ := translationEntry_eq_table hentry₁
  obtain ⟨-, -, rfl, rfl⟩ := translationEntry_eq_table hentry₂
  obtain ⟨-, -, rfl, rfl⟩ := translationEntry_eq_table hentry₃
  simp only [tagsAlong, hentry₁, hentry₂, hentry₃, List.all_cons, List.all_nil, Bool.and_true,
    Bool.and_eq_true]
  exact Iff.rfl

/-- The translation of a page with an entry of the last level. -/
theorem translation_of_lastEntry (h : MappedTables m root live)
    (hq : reach m.translationEntries 0 root [pml4Fin v, pdptFin v, pdFin v] = some t)
    (hpresent : entryPresent (m.entry t (ptIndex v)) = true) :
    m.translation root v = some ⟨entryAddress (m.entry t (ptIndex v)),
      (tagsAlong m.translationEntries 0 root [pml4Fin v, pdptFin v, pdFin v]).all
        PageTag.userAccess && entryUserAccess (m.entry t (ptIndex v)),
      entryWriteable (m.entry t (ptIndex v))⟩ := by
  have hentry : m.translationEntries 3 t (ptFin v) =
      .leaf (entryAddress (m.entry t (ptIndex v))) (pageTag (m.entry t (ptIndex v))) := by
    rw [translationEntries, translationEntry, show (ptFin v).val = ptIndex v from rfl,
      if_neg (by simp [hpresent]), if_neg (by omega)]
  have hwriteable := h.pageTree.writeable_above hq
  rw [translation, pagePath_eq v, lookup_append_tags hq, Option.map_map]
  refine (congrArg _ (lookup_cons_of_leaf hentry)).trans ?_
  simp only [Option.map_some, Function.comp_apply, translationOf, framePage, List.all_append,
    List.all_cons, List.all_nil, Bool.and_true, List.all_eq_true.mpr hwriteable, Bool.true_and]
  rfl

namespace MappedTables

section

variable (h : MappedTables m root live) (hfit : m.PagesFit root)

include h hfit

/-- Mapping any address keeps the tables and all other translations. -/
theorem afterMap (physicalAddress v : ℕ) (flags : PageMappingFlags) :
    (∃ live', MappedTables (m.mapPage root physicalAddress v flags).1 root live') ∧
      (m.mapPage root physicalAddress v flags).1.PagesFit root ∧
      ∀ w, ¬ SamePage v w →
        (m.mapPage root physicalAddress v flags).1.translation root w = m.translation root w := by
  rw [← mapPage_and]
  have hlt := and_validPhysicalAddrMask_lt physicalAddress
  obtain ⟨m', mapped, hrun, htables, hmaps⟩ :=
    h.mapPage (and_validPhysicalAddrMask_mod physicalAddress) hlt v flags
  obtain ⟨m₁, hkept, hcases⟩ := h.mapPage_cases (physicalAddress &&& validPhysicalAddrMask) v flags
  rw [hrun]
  refine ⟨htables, fun w translated hw => ?_, hmaps.others⟩
  dsimp only at hw
  by_cases hsame : SamePage v w
  · rw [hrun] at hcases
    rcases hcases with hfail | ⟨pt, -, hdone⟩
    · obtain ⟨rfl, -⟩ := Prod.mk.inj hfail
      exact hkept.pagesFit hfit w translated hw
    · obtain ⟨-, rfl⟩ := Prod.mk.inj hdone
      rw [translation, ← samePage_iff.mp hsame, ← translation, hmaps.self rfl] at hw
      rw [← Option.some.inj hw]
      exact hlt
  · rw [hmaps.others w hsame] at hw
    exact hfit w translated hw

/-- Removing a mapping keeps the tables and all other translations. -/
theorem afterUnmap (v : ℕ) :
    (∃ live', MappedTables (m.unmapPage root v).1 root live') ∧
      (m.unmapPage root v).1.PagesFit root ∧
      ∀ w, ¬ SamePage v w →
        (m.unmapPage root v).1.translation root w = m.translation root w := by
  obtain ⟨m', unmapped, hrun, htables, hunmaps⟩ := h.unmapPage v
  rw [hrun]
  refine ⟨⟨live, htables⟩, fun w translated hw => ?_, hunmaps.others⟩
  dsimp only at hw
  by_cases hsame : SamePage v w
  · cases unmapped with
    | true =>
      rw [translation, ← samePage_iff.mp hsame, ← translation, hunmaps.self rfl] at hw
      exact absurd hw (by simp)
    | false =>
      rw [hunmaps.failed rfl] at hw
      exact hfit w translated hw
  · rw [hunmaps.others w hsame] at hw
    exact hfit w translated hw

/-- A change of access has the effect that it reports exactly if it does not open a page below
tables that are closed to user mode; then the tables are kept. -/
theorem afterProtect (v : ℕ) (userAccess writeable : Bool) :
    (ProtectsExactly m root v userAccess writeable (m.protectPage root v userAccess writeable) ↔
      ¬ m.OpensPage root (.protect v userAccess writeable)) ∧
    (¬ m.OpensPage root (.protect v userAccess writeable) →
      MappedTables (m.protectPage root v userAccess writeable).1 root live ∧
      (m.protectPage root v userAccess writeable).1.PagesFit root) := by
  have hopens : m.OpensPage root (.protect v userAccess writeable) ↔
      userAccess = true ∧ m.HasLastEntry root v ∧ ¬ m.TablesAllowUser root v := by
    cases userAccess <;> simp [OpensPage]
  rw [hopens, HasLastEntry, protectPage, pageTableOf_eq_reach m root v]
  cases hq : reach m.translationEntries 0 root [pml4Fin v, pdptFin v, pdFin v] with
  | none => exact ⟨iff_of_true ⟨by simp, fun _ => rfl⟩ (by simp), fun _ => ⟨h, hfit⟩⟩
  | some pt =>
    dsimp only
    by_cases hpresent : entryPresent (m.entry pt (ptIndex v)) = true
    · rw [if_neg (by simp [hpresent])]
      have hold := translation_of_lastEntry h hq hpresent
      have hlt : entryAddress (m.entry pt (ptIndex v)) < 2 ^ 32 := hfit v _ hold
      have hleaf : translationEntry 3 (buildLeafEntryValue (m.entry pt (ptIndex v))
          (m.entry pt (ptIndex v)) userAccess writeable) =
          .leaf (entryAddress (m.entry pt (ptIndex v))) ⟨userAccess, writeable⟩ := by
        rw [← buildLeafEntryValue_entryAddress]
        exact translationEntry_leaf (entryAddress_mod _) hlt _ _ _
      have hnew := h.translation_storeEntry_last hq hleaf
      rw [show (ptFin v).val = ptIndex v from rfl] at hnew
      have hallow := all_tagsAlong_iff hq
      have hexact : ProtectsExactly m root v userAccess writeable (m.storeEntry pt (ptIndex v)
          (buildLeafEntryValue (m.entry pt (ptIndex v)) (m.entry pt (ptIndex v)) userAccess
            writeable), true) ↔ (userAccess = true → m.TablesAllowUser root v) := by
        rw [← hallow]
        constructor
        · rintro ⟨hchanged, -⟩ rfl
          obtain ⟨old, -, htranslated⟩ := hchanged rfl
          have hsame := hnew.symm.trans htranslated
          simpa using congrArg (Option.map Translation.userAccess) hsame
        · intro hall
          refine ⟨fun _ => ⟨_, hold, ?_⟩, by simp⟩
          dsimp only
          rw [hnew]
          cases userAccess with
          | false => rw [Bool.and_false]
          | true => rw [hall rfl, Bool.and_true]
      refine ⟨hexact.trans (by simp [hpresent]), fun hnot => ?_⟩
      have hall : userAccess = true → m.TablesAllowUser root v := by
        simpa [hpresent] using hnot
      rw [← hallow] at hall
      obtain ⟨htables, hothers⟩ := h.storeEntry_last hq (by simp) (pagePath_eq v)
        (buildLeafEntryValue (m.entry pt (ptIndex v)) (m.entry pt (ptIndex v)) userAccess writeable)
        (by
          rw [hleaf]
          rintro g ⟨rfl⟩ huser
          exact List.all_eq_true.mp (hall huser))
      refine ⟨htables, fun w translated hw => ?_⟩
      by_cases hsame : SamePage v w
      · rw [translation, ← samePage_iff.mp hsame, ← translation] at hw
        rw [← Option.some.inj (hnew.symm.trans hw)]
        exact hlt
      · exact hfit w translated ((hothers w hsame).symm.trans hw)
    · rw [if_pos (by simpa using hpresent)]
      exact ⟨iff_of_true ⟨by simp, fun _ => rfl⟩ (by simp [hpresent]), fun _ => ⟨h, hfit⟩⟩

end

end MappedTables

/-! ### Runs -/

/-- An empty top-level table reaches no other table. -/
theorem EmptyTables.mappedTables (h : m.EmptyTables root live) : MappedTables m root live := by
  have hempty (i : Fin 512) : m.translationEntries 0 root i = .empty := by
    rw [translationEntries, translationEntry, if_pos (h.empty i)]
  have hreach {t : ℕ} {p : List (Fin 512)} (hp : reach m.translationEntries 0 root p = some t) :
      p = [] ∧ t = root := by
    cases p with
    | nil => exact ⟨rfl, (Option.some.inj hp).symm⟩
    | cons i p => simp [reach, hempty] at hp
  have hnone {t : ℕ} {p : List (Fin 512)}
      (hp : reach m.translationEntries 0 root p = some t) (i : Fin 512) :
      m.translationEntries p.length t i = .empty := by
    obtain ⟨rfl, rfl⟩ := hreach hp
    exact hempty i
  exact {
    pageTree := {
      root_mod := h.root_mod
      tree := fun p q t hp hq => (hreach hp).1.trans (hreach hq).1.symm
      writeable := fun p t i c g hp hentry => by simp [hnone hp i] at hentry
      user := fun p t i c g hp hentry => by simp [hnone hp i] at hentry }
    fits := {
      table_lt := fun p t hp => (hreach hp).2 ▸ h.root_lt
      large_lt := fun p t i b g _ hp hentry => by simp [hnone hp i] at hentry }
    inUse := {
      valid := h.valid
      start_mod := h.start_mod
      end_le := h.end_le
      notFree := fun p t hp k hk => (hreach hp).2 ▸ h.notFree k hk } }

theorem EmptyTables.translation_eq_none (h : m.EmptyTables root live) (w : ℕ) :
    m.translation root w = none := by
  have hempty : m.translationEntries 0 root (pml4Fin w) = .empty := by
    rw [translationEntries, translationEntry, if_pos (h.empty _)]
  rw [translation, pagePath_eq w, List.cons_append, lookup_cons_of_empty hempty, Option.map_none]

theorem EmptyTables.pagesFit (h : m.EmptyTables root live) : m.PagesFit root := by
  intro w translated hw
  rw [h.translation_eq_none] at hw
  exact absurd hw (by simp)

/-- What holds in every state that allowed calls reach. -/
theorem AllowedPageMapRun.mappedTables (h : AllowedPageMapRun root m) :
    (∃ live, MappedTables m root live) ∧ m.PagesFit root := by
  induction h with
  | start h => exact ⟨⟨_, h.mappedTables⟩, h.pagesFit⟩
  | step event _ hallowed ih =>
    obtain ⟨⟨live, htables⟩, hfit⟩ := ih
    cases event with
    | map physicalAddress v flags =>
      obtain ⟨htables', hfit', -⟩ := htables.afterMap hfit physicalAddress v flags
      exact ⟨htables', hfit'⟩
    | unmap v =>
      obtain ⟨htables', hfit', -⟩ := htables.afterUnmap hfit v
      exact ⟨htables', hfit'⟩
    | protect v userAccess writeable =>
      obtain ⟨htables', hfit'⟩ :=
        (htables.afterProtect hfit v userAccess writeable).2 hallowed
      exact ⟨⟨live, htables'⟩, hfit'⟩

/-- **Changing the access to a page.** In every state that is reached from an empty top-level table
by calls none of which opens a page to user mode below tables that are closed to it, a call has the
effect that it reports and leaves the access to other pages alone if and only if it does not open
such a page either. -/
theorem AllowedPageMapRun.protectsExactly_iff (h : AllowedPageMapRun root m)
    (event : PageMapEvent) :
    m.StepProtectsExactly root event ↔ ¬ m.OpensPage root event := by
  obtain ⟨⟨live, htables⟩, hfit⟩ := h.mappedTables
  cases event with
  | map physicalAddress v flags =>
    exact iff_of_true (htables.afterMap hfit physicalAddress v flags).2.2 fun h => h
  | unmap v => exact iff_of_true (htables.afterUnmap hfit v).2.2 fun h => h
  | protect v userAccess writeable =>
    exact (htables.afterProtect hfit v userAccess writeable).1

/-- Seven free pages and an empty top-level table. -/
def emptyTables : PhysicalMemoryManager := withTables []

private theorem emptyTables_spec : emptyTables.EmptyTables 0x1000 [] := by
  have h : TablesListed [([], 0x1000)] emptyTables 0x1000 :=
    ⟨by decide, by decide, by decide, by decide +kernel⟩
  have hinUse := inUse_withTables (fun _ _ => h.mem) (by decide +kernel) (by decide +kernel)
  exact ⟨by decide, by decide, by decide +kernel, hinUse.valid, hinUse.start_mod, hinUse.end_le,
    hinUse.notFree [] _ rfl⟩

/-- The page at `0` is mapped for user mode; then it becomes read-only. -/
theorem AllowedPageMapRun.protectsExactly_iff_readOnly :
    (emptyTables.afterPageMapEvent 0x1000 (.map 0x5000 0 ⟨true, true⟩)).StepProtectsExactly 0x1000
      (.protect 0 true false) :=
  (AllowedPageMapRun.protectsExactly_iff (.step (.map 0x5000 0 ⟨true, true⟩)
    (.start emptyTables_spec) fun h => h) (.protect 0 true false)).mpr fun h =>
      h.2 ⟨by decide +kernel, by decide +kernel, by decide +kernel⟩

/-- The page at `0` is mapped for the kernel. -/
def kernelPage : PhysicalMemoryManager :=
  emptyTables.afterPageMapEvent 0x1000 (.map 0x5000 0 ⟨false, true⟩)

/-- The page of `kernelPage` after the call that opens it to user mode. -/
def openedPage : PhysicalMemoryManager × Bool := kernelPage.protectPage 0x1000 0 true true

private theorem translation_openedPage :
    openedPage.1.translation 0x1000 0 = some ⟨0x5000, false, true⟩ := by
  decide +kernel

/-- Opening a page of the kernel to user mode is reported to succeed, but user mode cannot access
it; it can when the page beside it has been mapped for user mode. -/
theorem not_protectsExactly :
    emptyTables.EmptyTables 0x1000 [] ∧
      ¬ kernelPage.StepProtectsExactly 0x1000 (.protect 0 true true) ∧ openedPage.2 = true ∧
      openedPage.1.translation 0x1000 0 = some ⟨0x5000, false, true⟩ ∧
      (openedPage.1.afterPageMapEvent 0x1000 (.map 0x6000 0x1000 ⟨true, false⟩)).translation 0x1000
        0 = some ⟨0x5000, true, true⟩ := by
  have hdone : openedPage.2 = true := by decide +kernel
  refine ⟨emptyTables_spec, fun hstep => ?_, hdone, translation_openedPage, by decide +kernel⟩
  have hexact : ProtectsExactly kernelPage 0x1000 0 true true openedPage := hstep
  obtain ⟨old, -, hnew⟩ := hexact.changed hdone
  rw [translation_openedPage] at hnew
  exact absurd hnew (by simp)

end PhysicalMemoryManager

end TwistedOS
