import TwistedOS.Memory.BuddyRuns
import TwistedOS.Memory.PageMapRefinement

/-!
# The page map of an address space

What `MapPage` and `UnmapPage` do to the translations of an address space. Mapping a page gives it
the translation asked for, and it leaves every other page alone even if it fails half-way; removing
a mapping affects its page only.

Page tables and large pages must lie below `MAX_SUPPORTED_PHYSICAL_ADDR`: the entries that
`MapPage` writes hold no higher addresses.

## Main definitions

* `SamePage`: addresses of one page.
* `PhysicalMemoryManager.MapsPage`, `PhysicalMemoryManager.UnmapsPage`: a page map is updated.

## Main results

* `PhysicalMemoryManager.MappedTables.refinesPageMap`.
-/

namespace TwistedOS

open RadixTree

/-- The addresses lie in one page, of which the bits 12 to 47 count. -/
def SamePage (v w : ℕ) : Prop := v / pageSize % 2 ^ 36 = w / pageSize % 2 ^ 36

theorem samePage_iff {v w : ℕ} : SamePage v w ↔ pagePath v = pagePath w := pagePath_eq_iff.symm

namespace PhysicalMemoryManager

/-- A call that maps a page updates the page map at this page, or it fails and changes nothing. -/
structure MapsPage (m m' : PhysicalMemoryManager) (root physicalAddress v : ℕ)
    (flags : PageMappingFlags) (mapped : Bool) : Prop where
  self : mapped = true →
    m'.translation root v = some ⟨physicalAddress, flags.userAccess, flags.writeable⟩
  others : ∀ w, ¬ SamePage v w → m'.translation root w = m.translation root w

/-- A call that removes the mapping of a page affects no other page. -/
structure UnmapsPage (m m' : PhysicalMemoryManager) (root v : ℕ) (unmapped : Bool) : Prop where
  self : unmapped = true → m'.translation root v = none
  failed : unmapped = false → m' = m
  others : ∀ w, ¬ SamePage v w → m'.translation root w = m.translation root w

variable {m m' : PhysicalMemoryManager} {root t v : ℕ} {live : List DyadicBlock}
  {q : List (Fin 512)} {flags : PageMappingFlags}

theorem TranslationKept.translation_eq (h : TranslationKept m m' root) (w : ℕ) :
    m'.translation root w = m.translation root w := h.lookup_eq (pagePath w) rfl

theorem child_translationEntry_three (entry : ℕ) : (translationEntry 3 entry).child = none := by
  rw [translationEntry]
  split_ifs <;> simp_all

namespace MappedTables

section

variable (h : MappedTables m root live)

include h

/-- A store to the last level changes the translation of its page only. -/
theorem storeEntry_last (hq : reach m.translationEntries 0 root q = some t) (hdepth : q.length = 3)
    {i : Fin 512} (hpath : pagePath v = q ++ [i]) (value : ℕ)
    (habove : ∀ g, (translationEntry 3 value).tag? = some g → g.userAccess = true →
      ∀ g' ∈ tagsAlong m.translationEntries 0 root q, g'.userAccess = true) :
    MappedTables (m.storeEntry t i value) root live ∧
      ∀ w, ¬ SamePage v w → (m.storeEntry t i value).translation root w =
        m.translation root w := by
  have hnone := child_translationEntry_three
  have htable (c : ℕ) (g : PageTag) : translationEntry 3 value ≠ .table c g := by
    intro heq
    simpa [heq] using hnone value
  rw [← hdepth] at hnone htable habove
  obtain ⟨htables, -⟩ := h.storeEntry (i := i) hq (by rw [hnone, translationEntries, hnone])
    (fun hlt => absurd hlt (by omega)) (fun c g hc => absurd hc (htable c g))
    (fun c g hc => absurd hc (htable c g)) habove
  refine ⟨htables, fun w hw => ?_⟩
  have hnot : ¬ (q ++ [i]) <+: pagePath w := by
    intro hpre
    refine hw (samePage_iff.mpr ?_)
    rw [hpath]
    exact hpre.eq_of_length (by simp [hdepth, pagePath])
  have hoff := h.agreeOffSlot_storeEntry hq i value
  rw [translation, translation, hoff.lookup_of_not_prefix h.pageTree.tree hq hnot]

/-- Mapping a page enters the three tables above it and stores its entry, or it fails on the way;
what it does before the store changes no translation. -/
theorem mapPage_cases (physicalAddress v : ℕ) (flags : PageMappingFlags) :
    ∃ m₁, TranslationKept m m₁ root ∧
      (m.mapPage root physicalAddress v flags = (m₁, false) ∨
        ∃ pt, Entered m₁ root [pml4Fin v, pdptFin v, pdFin v] pt flags ∧
          m.mapPage root physicalAddress v flags = (m₁.storeEntry pt (ptFin v)
            (buildLeafEntryValue physicalAddress 0 flags.userAccess flags.writeable), true)) := by
  obtain ⟨m₁, ⟨hkept, hrun⟩ | ⟨pt, ⟨hkept, hentered⟩, hrun⟩⟩ := mapPage_of_steps
    (fun m₁ q t => TranslationKept m m₁ root ∧ Entered m₁ root q t flags)
    (fun m₁ => TranslationKept m m₁ root) m root physicalAddress v flags
    ⟨h.kept, .nil m root flags⟩ fun m₁ q t i hinv hdepth _ => by
      obtain ⟨live₁, h₁⟩ := hinv.1.tables
      obtain ⟨m₂, r, hrun, hkept, hentered⟩ := h₁.enterTable _ hinv.2 hdepth levelSplit_eq_none
        (fun _ => levelSplit_eq_some splitsPage_splitGigaPage splitsPage_splitMegaPage hdepth) i
      replace hkept := hinv.1.trans hkept
      exact ⟨m₂, r, hrun, fun _ => hkept, fun c hc => ⟨hkept, hentered c hc⟩⟩
  · exact ⟨m₁, hkept, .inl hrun⟩
  · exact ⟨m₁, hkept, .inr ⟨pt, hentered, hrun⟩⟩

/-- An entry of the last level that is stored is what its page is translated by, with the access
that the tables above allow. -/
theorem translation_storeEntry_last
    (hq : reach m.translationEntries 0 root [pml4Fin v, pdptFin v, pdFin v] = some t)
    {value page : ℕ} {user writeable : Bool}
    (hleaf : translationEntry 3 value = .leaf page ⟨user, writeable⟩) :
    (m.storeEntry t (ptFin v) value).translation root v =
      some ⟨page, (tagsAlong m.translationEntries 0 root
        [pml4Fin v, pdptFin v, pdFin v]).all PageTag.userAccess && user, writeable⟩ := by
  have hoff := h.agreeOffSlot_storeEntry hq (ptFin v) value
  have hself := translationEntries_storeEntry m 3 t (ptFin v) value
  have hwriteable := h.pageTree.writeable_above hq
  rw [translation, pagePath_eq v, lookup_append_tags (hoff.reach_self h.pageTree.tree hq),
    hoff.tagsAlong_self h.pageTree.tree hq, Option.map_map]
  refine (congrArg _ (lookup_cons_of_leaf (hself.trans hleaf))).trans ?_
  simp only [Option.map_some, Function.comp_apply, translationOf, framePage, List.all_append,
    List.all_cons, List.all_nil, Bool.and_true, List.all_eq_true.mpr hwriteable, Bool.true_and]

/-- Mapping a page updates the page map at this page, or it fails. -/
theorem mapPage {physicalAddress : ℕ} (halign : physicalAddress % pageSize = 0)
    (hlt : physicalAddress < 2 ^ 32) (v : ℕ) (flags : PageMappingFlags) :
    ∃ m' mapped, m.mapPage root physicalAddress v flags = (m', mapped) ∧
      (∃ live', MappedTables m' root live') ∧
      MapsPage m m' root physicalAddress v flags mapped := by
  obtain ⟨m₁, hkept, hrun | ⟨pt, hentered, hrun⟩⟩ := h.mapPage_cases physicalAddress v flags
  · exact ⟨m₁, false, hrun, hkept.tables, by simp, fun w _ => hkept.translation_eq w⟩
  · obtain ⟨live₁, h₁⟩ := hkept.tables
    have hleaf := translationEntry_leaf halign hlt 0 flags.userAccess flags.writeable
    obtain ⟨htables, hothers⟩ := h₁.storeEntry_last hentered.reached (by simp)
      (pagePath_eq v) (buildLeafEntryValue physicalAddress 0 flags.userAccess flags.writeable)
      (by
        rw [hleaf]
        rintro g ⟨rfl⟩
        exact hentered.user)
    refine ⟨_, true, hrun, ⟨live₁, htables⟩, fun _ => ?_, fun w hw => ?_⟩
    · rw [h₁.translation_storeEntry_last hentered.reached hleaf]
      cases huser : flags.userAccess with
      | false => rw [Bool.and_false]
      | true => rw [List.all_eq_true.mpr (hentered.user huser), Bool.and_true]
    · exact (hothers w hw).trans (hkept.translation_eq w)

end

/-! ### Existing mappings -/

theorem child_translationEntry {depth entry : ℕ} (hdepth : depth < 3) :
    (translationEntry depth entry).child =
      if entryPresent entry = true ∧ (depth = 0 ∨ entrySize entry = false) then
        some (entryAddress entry) else none := by
  rw [translationEntry]
  by_cases hpresent : entryPresent entry = true
  · rw [if_neg (by simp [hpresent])]
    split_ifs <;> simp_all
  · rw [if_pos (by simpa using hpresent), if_neg (by simp [hpresent]), RadixEntry.child_empty]

/-- The walk to the table of the last level. -/
theorem pageTableOf_eq_reach (m : PhysicalMemoryManager) (root v : ℕ) :
    m.pageTableOf root v =
      reach m.translationEntries 0 root [pml4Fin v, pdptFin v, pdFin v] :=
  Tables.pageTableOf_of_child root fun _ hdepth _ _ _ => child_translationEntry hdepth

/-- Removing a mapping removes the translation of its page, or nothing happens. -/
theorem unmapPage (h : MappedTables m root live) (v : ℕ) :
    ∃ m' unmapped, m.unmapPage root v = (m', unmapped) ∧ MappedTables m' root live ∧
      UnmapsPage m m' root v unmapped := by
  rw [PhysicalMemoryManager.unmapPage, pageTableOf_eq_reach m root v]
  cases hpt : reach m.translationEntries 0 root [pml4Fin v, pdptFin v, pdFin v] with
  | none => exact ⟨m, false, rfl, h, by simp, fun _ => rfl, fun _ _ => rfl⟩
  | some pt =>
    obtain ⟨htables, hothers⟩ := h.storeEntry_last hpt (by simp) (pagePath_eq v) 0 (by simp)
    refine ⟨_, true, rfl, htables, fun _ => ?_, by simp, hothers⟩
    have hoff := h.agreeOffSlot_storeEntry hpt (ptFin v) 0
    have hself := translationEntries_storeEntry m 3 pt (ptFin v) 0
    rw [show ptIndex v = (ptFin v).val from rfl, translation, pagePath_eq v,
      lookup_append_tags (hoff.reach_self h.pageTree.tree hpt)]
    refine (congrArg _ (congrArg _ (lookup_cons_of_empty (hself.trans ?_)))).trans rfl
    exact translationEntry_zero 3

end MappedTables

/-- The tables of an address space refine a page map: mapping and unmapping a page update it at this
page, and the tables stay as they should be. -/
theorem MappedTables.refinesPageMap (h : MappedTables m root live) {physicalAddress : ℕ}
    (halign : physicalAddress % pageSize = 0) (hlt : physicalAddress < 2 ^ 32) (v : ℕ)
    (flags : PageMappingFlags) :
    (∃ m' mapped, m.mapPage root physicalAddress v flags = (m', mapped) ∧
      (∃ live', MappedTables m' root live') ∧
      MapsPage m m' root physicalAddress v flags mapped) ∧
    ∃ m' unmapped, m.unmapPage root v = (m', unmapped) ∧
      (∃ live', MappedTables m' root live') ∧ UnmapsPage m m' root v unmapped := by
  obtain ⟨m', unmapped, hcall, htables, hunmaps⟩ := h.unmapPage v
  exact ⟨h.mapPage halign hlt v flags, m', unmapped, hcall, ⟨live, htables⟩, hunmaps⟩

/-! ### Tables beside the managed range -/

/-- Seven free pages from 1 MiB on, and the words of tables elsewhere. -/
def withTables (words : List (ℕ × ℕ)) : PhysicalMemoryManager :=
  { initializeMemoryDescriptors sevenPages fun _ => 0 with
    physicalMemory := fun a => (words.lookup a).getD 0 }

/-- What has to be checked of an entry if user mode may use none. -/
def EntryFits (tables : List (List (Fin 512) × ℕ)) (m : PhysicalMemoryManager)
    (x : List (Fin 512) × ℕ) (i : Fin 512) : Prop :=
  match m.translationEntries x.1.length x.2 i with
  | .empty => True
  | .leaf _ g => g.userAccess = false
  | .table c g => (x.1 ++ [i], c) ∈ tables ∧ g = ⟨false, true⟩

instance (tables : List (List (Fin 512) × ℕ)) (m : PhysicalMemoryManager)
    (x : List (Fin 512) × ℕ) (i : Fin 512) : Decidable (EntryFits tables m x i) := by
  unfold EntryFits
  split <;> infer_instance

/-- Tables that are listed completely. -/
structure TablesListed (tables : List (List (Fin 512) × ℕ)) (m : PhysicalMemoryManager)
    (root : ℕ) : Prop where
  root_mod : root % pageSize = 0
  root_mem : ([], root) ∈ tables
  path : ∀ x ∈ tables, ∀ y ∈ tables, x.2 = y.2 → x.1 = y.1
  entryFits : ∀ x ∈ tables, ∀ i, EntryFits tables m x i

/-- Tables outside the managed range may be used beside the allocator. -/
theorem inUse_withTables {tables : List (List (Fin 512) × ℕ)} {words : List (ℕ × ℕ)}
    (hmem : ∀ p t, reach (withTables words).translationEntries 0 root p = some t → (p, t) ∈ tables)
    (hwords : ∀ k < 7, words.lookup ((withTables words).pageAddress k) = none)
    (htables : ∀ x ∈ tables, ∀ k < 7, (withTables words).pageAddress k ≠ x.2) :
    TablesInUse (withTables words) root [] := by
  obtain ⟨hvalid, htotal⟩ :=
    valid_initializeMemoryDescriptors sevenPages (fun _ => 0) (by decide) (by decide)
  have hseven : (initializeMemoryDescriptors sevenPages
      fun _ => 0).memoryDescriptorInfo.totalNumberOfPages = 7 := by
    rw [htotal]
    decide
  have hlinks : ∀ k < 7, (initializeMemoryDescriptors sevenPages fun _ => 0).physicalMemory
      ((initializeMemoryDescriptors sevenPages fun _ => 0).pageAddress k) = 0 := by
    decide +kernel
  have hstart : (initializeMemoryDescriptors sevenPages
      fun _ => 0).memoryDescriptorInfo.physicalAddressStart % pageSize = 0 := by
    decide +kernel
  have hend : (initializeMemoryDescriptors sevenPages fun _ => 0).pageAddress
      (initializeMemoryDescriptors sevenPages
        fun _ => 0).memoryDescriptorInfo.totalNumberOfPages ≤ pmmBuddyPhysicalLimit := by
    decide +kernel
  have hvalid' : Valid (withTables words) [] := by
    refine hvalid.congr_links fun k hk => ?_
    have hlt := ((hvalid.pageFree_iff k).mp hk).1
    rw [hseven] at hlt
    rw [hlinks k hlt]
    exact congrArg (fun o => o.getD 0) (hwords k hlt)
  refine ⟨hvalid', hstart, hend, fun p t hp k hk => ?_⟩
  have hlt := ((hvalid'.pageFree_iff k).mp hk).1
  exact htables _ (hmem p t hp) k (hlt.trans_eq hseven)

namespace TablesListed

variable {tables : List (List (Fin 512) × ℕ)}

section

variable (h : TablesListed tables m root)

include h

theorem table_mem {x : List (Fin 512) × ℕ} (hx : x ∈ tables) {i : Fin 512} {c : ℕ} {g : PageTag}
    (hentry : m.translationEntries x.1.length x.2 i = .table c g) :
    (x.1 ++ [i], c) ∈ tables ∧ g = ⟨false, true⟩ := by
  have := h.entryFits x hx i
  rwa [EntryFits, hentry] at this

theorem mem {p : List (Fin 512)} (hp : reach m.translationEntries 0 root p = some t) :
    (p, t) ∈ tables := by
  refine mem_of_reach h.root_mem (fun x hx i c hc => ?_) hp
  obtain ⟨g, hentry⟩ := RadixEntry.exists_of_child hc
  exact (h.table_mem hx hentry).1

theorem not_user {x : List (Fin 512) × ℕ} (hx : x ∈ tables) {i : Fin 512} {g : PageTag}
    (htag : (m.translationEntries x.1.length x.2 i).tag? = some g) : g.userAccess = false := by
  have hfits := h.entryFits x hx i
  rw [EntryFits] at hfits
  cases hentry : m.translationEntries x.1.length x.2 i with
  | empty => simp [hentry] at htag
  | leaf b g' =>
    rw [hentry, RadixEntry.tag?_leaf, Option.some.injEq] at htag
    rwa [hentry, htag] at hfits
  | table c g' =>
    rw [hentry, RadixEntry.tag?_table, Option.some.injEq] at htag
    rw [← htag, (h.table_mem hx hentry).2]

theorem pageTree : PageTree m root where
  root_mod := h.root_mod
  tree p q t hp hq := h.path _ (h.mem hp) _ (h.mem hq) rfl
  writeable p t i c g hp hentry := by rw [(h.table_mem (h.mem hp) hentry).2]
  user p t i c g hp hentry j g' htag huser := by
    have hc := (h.table_mem (h.mem hp) hentry).1
    have hdepth : (p ++ [i]).length = p.length + 1 := by simp
    exact absurd (h.not_user hc (by rwa [hdepth])) (by simp [huser])

theorem fits (htables : ∀ x ∈ tables, x.2 < 2 ^ 32)
    (hlarge : ∀ x ∈ tables, ∀ i : Fin 512, entryAddress (m.entry x.2 i) < 2 ^ 32) :
    FitsEntries m root where
  table_lt p t hp := htables _ (h.mem hp)
  large_lt p t i b g _ hp hentry := by
    rw [(translationEntry_eq_leaf hentry).2.2.1]
    exact hlarge _ (h.mem hp) i

end

end TablesListed

/-- Three tables and a page of 2 MiB. -/
def largePage (address : ℕ) : PhysicalMemoryManager :=
  withTables [(0x1000, 0x2003), (0x2000, 0x3003), (0x3000, address + 0x83)]

/-- The tables of `largePage`. -/
def largePageTables : List (List (Fin 512) × ℕ) := [([], 0x1000), ([0], 0x2000), ([0, 0], 0x3000)]

theorem mappedTables_largePage : MappedTables (largePage 0x200000) 0x1000 [] := by
  have h : TablesListed largePageTables (largePage 0x200000) 0x1000 :=
    ⟨by decide, by decide, by decide, by decide +kernel⟩
  exact ⟨h.pageTree, h.fits (by decide) (by decide +kernel),
    inUse_withTables (fun _ _ => h.mem) (by decide +kernel) (by decide +kernel)⟩

/-- A page of 2 MiB is split. -/
theorem MappedTables.refinesPageMap_largePage :
    (∃ m' mapped, (largePage 0x200000).mapPage 0x1000 0x5000 0x1000 ⟨true, true⟩ = (m', mapped) ∧
      (∃ live', MappedTables m' 0x1000 live') ∧
      MapsPage (largePage 0x200000) m' 0x1000 0x5000 0x1000 ⟨true, true⟩ mapped) ∧
    ∃ m' unmapped, (largePage 0x200000).unmapPage 0x1000 0x1000 = (m', unmapped) ∧
      (∃ live', MappedTables m' 0x1000 live') ∧
      UnmapsPage (largePage 0x200000) m' 0x1000 0x1000 unmapped :=
  MappedTables.refinesPageMap mappedTables_largePage (by decide) (by decide) 0x1000 ⟨true, true⟩

/-- Four tables, one of them above 4 GiB. -/
def highTable : PhysicalMemoryManager :=
  withTables [(0x1000, 0x100000003), (0x100000000, 0x3003), (0x3000, 0x5003), (0x5000, 0x7003)]

/-- Addresses from 4 GiB on are lost: another page of a large page that is split, and the pages
below a table that becomes accessible to user mode, are translated in another way. -/
theorem not_refinesPageMap_of_highAddress :
    (PageTree (largePage 0x100000000) 0x1000 ∧ TablesInUse (largePage 0x100000000) 0x1000 [] ∧
      ∃ m', (largePage 0x100000000).mapPage 0x1000 0 0 ⟨false, false⟩ = (m', true) ∧
        ¬ MapsPage (largePage 0x100000000) m' 0x1000 0 0 ⟨false, false⟩ true) ∧
    PageTree highTable 0x1000 ∧ TablesInUse highTable 0x1000 [] ∧
      ∃ m', highTable.mapPage 0x1000 0 0x1000 ⟨true, false⟩ = (m', true) ∧
        ¬ MapsPage highTable m' 0x1000 0 0x1000 ⟨true, false⟩ true := by
  have hlarge : TablesListed largePageTables (largePage 0x100000000) 0x1000 :=
    ⟨by decide, by decide, by decide, by decide +kernel⟩
  have hhigh : TablesListed [([], 0x1000), ([0], 0x100000000), ([0, 0], 0x3000),
      ([0, 0, 0], 0x5000)] highTable 0x1000 :=
    ⟨by decide, by decide, by decide, by decide +kernel⟩
  refine ⟨⟨hlarge.pageTree, inUse_withTables (fun _ _ => hlarge.mem) (by decide +kernel)
    (by decide +kernel), _,
    Prod.ext rfl (by decide +kernel), fun hmaps => ?_⟩,
    hhigh.pageTree, inUse_withTables (fun _ _ => hhigh.mem) (by decide +kernel) (by decide +kernel), _,
    Prod.ext rfl (by decide +kernel), fun hmaps => ?_⟩
  · have hother := hmaps.others 0x1000 (by unfold SamePage; decide)
    exact absurd hother (by decide +kernel)
  · have hother := hmaps.others 0 (by unfold SamePage; decide)
    exact absurd hother (by decide +kernel)

end PhysicalMemoryManager

end TwistedOS
