import TwistedOS.Memory.PageTables

/-!
# Mapping, protecting and unmapping pages

What the operations on one page of the lower half do to the tree of page tables. Mapping a page
either runs out of pages for tables or gives its key the leaf asked for; removing or changing a
mapping affects the leaf of its key only. In each case the leaves of the other keys stay, unless
they are large pages on the way.

## Main results

* `PhysicalMemoryManager.mapPage_of_steps`: the rule for the walk to a page.
* `PhysicalMemoryManager.Tables.mapPage`, `PhysicalMemoryManager.Tables.unmapPage`.
* `PhysicalMemoryManager.Tables.pageTableOf_eq`: the walk to an existing table.
-/

namespace TwistedOS

open RadixTree

/-! ### Indices -/

/-- The first index of an address. -/
def pml4Fin (v : ℕ) : Fin 512 := ⟨pml4Index v, pml4Index_lt v⟩

@[inherit_doc pml4Fin]
def pdptFin (v : ℕ) : Fin 512 := ⟨pdptIndex v, pdptIndex_lt v⟩

@[inherit_doc pml4Fin]
def pdFin (v : ℕ) : Fin 512 := ⟨pdIndex v, pdIndex_lt v⟩

@[inherit_doc pml4Fin]
def ptFin (v : ℕ) : Fin 512 := ⟨ptIndex v, ptIndex_lt v⟩

theorem pagePath_eq (v : ℕ) :
    pagePath v = [pml4Fin v, pdptFin v, pdFin v] ++ [ptFin v] := rfl

namespace PhysicalMemoryManager

/-! ### The walk to the last level -/

/-- How a large page of a level is split; the first level has none. -/
def levelSplit : ℕ → Option (ℕ → ℕ → ℕ)
  | 0 => none
  | 1 => some splitGigaPage
  | _ => some splitMegaPage

theorem levelSplit_eq_none {depth : ℕ} (h : levelSplit depth = none) : depth = 0 := by
  rcases depth with _ | _ | depth <;> simp_all [levelSplit]

/-- What holds of the two ways to split a large page, each at its level. -/
theorem levelSplit_eq_some {P : (ℕ → ℕ → ℕ) → ℕ → Prop} (hgiga : P splitGigaPage 1)
    (hmega : P splitMegaPage 2) {depth : ℕ} (hdepth : depth < 3) {split : ℕ → ℕ → ℕ}
    (h : levelSplit depth = some split) : depth ≠ 0 ∧ P split depth := by
  obtain rfl | rfl | rfl : depth = 0 ∨ depth = 1 ∨ depth = 2 := by omega
  · simp [levelSplit] at h
  · exact ⟨one_ne_zero, Option.some.inj h ▸ hgiga⟩
  · exact ⟨two_ne_zero, Option.some.inj h ▸ hmega⟩

/-- **The rule for walks.** What holds at the root and of each table that is entered holds of the
table of the last level, to which the entry is stored; otherwise the walk fails on the way. -/
theorem mapPage_of_steps (Inv : PhysicalMemoryManager → List (Fin 512) → ℕ → Prop)
    (Failed : PhysicalMemoryManager → Prop) (m : PhysicalMemoryManager)
    (root physicalAddress v : ℕ) (flags : PageMappingFlags) (hroot : Inv m [] root)
    (hstep : ∀ m q t (i : Fin 512), Inv m q t → q.length < 3 →
      q ++ [i] <+: [pml4Fin v, pdptFin v, pdFin v] →
      ∃ m' r, enterTable (levelSplit q.length) m t i flags = (m', r) ∧
        (r = none → Failed m') ∧ ∀ c, r = some c → Inv m' (q ++ [i]) c) :
    ∃ m', Failed m' ∧ m.mapPage root physicalAddress v flags = (m', false) ∨
      ∃ pt, Inv m' [pml4Fin v, pdptFin v, pdFin v] pt ∧
        m.mapPage root physicalAddress v flags = (m'.storeEntry pt (ptFin v)
          (buildLeafEntryValue physicalAddress 0 flags.userAccess flags.writeable), true) := by
  rw [mapPage]
  obtain ⟨m₁, r₁, hrun₁, hfail₁, hinv₁⟩ := hstep m [] root (pml4Fin v) hroot (by simp) ⟨_, rfl⟩
  change enterTable none m root (pml4Index v) flags = _ at hrun₁
  rw [hrun₁]
  cases r₁ with
  | none => exact ⟨m₁, .inl ⟨hfail₁ rfl, rfl⟩⟩
  | some pdpt =>
    obtain ⟨m₂, r₂, hrun₂, hfail₂, hinv₂⟩ :=
      hstep m₁ _ pdpt (pdptFin v) (hinv₁ pdpt rfl) (by simp) ⟨_, rfl⟩
    change enterTable (some splitGigaPage) m₁ pdpt (pdptIndex v) flags = _ at hrun₂
    dsimp only
    rw [hrun₂]
    cases r₂ with
    | none => exact ⟨m₂, .inl ⟨hfail₂ rfl, rfl⟩⟩
    | some pd =>
      obtain ⟨m₃, r₃, hrun₃, hfail₃, hinv₃⟩ :=
        hstep m₂ _ pd (pdFin v) (hinv₂ pd rfl) (by simp) ⟨_, rfl⟩
      change enterTable (some splitMegaPage) m₂ pd (pdIndex v) flags = _ at hrun₃
      dsimp only
      rw [hrun₃]
      cases r₃ with
      | none => exact ⟨m₃, .inl ⟨hfail₃ rfl, rfl⟩⟩
      | some pt => exact ⟨m₃, .inr ⟨pt, hinv₃ pt rfl, rfl⟩⟩

/-! ### Entries of the lower half -/

theorem entrySize_splitGigaPage (entry j : ℕ) : entrySize (splitGigaPage entry j) = true := by
  have hbit : entryFlagSize.testBit 7 = true := by decide
  unfold splitGigaPage entrySize
  dsimp only
  split_ifs <;> simp [Nat.testBit_or, hbit]

theorem child_splitGigaPage (entry : ℕ) (j : Fin 512) :
    (readEntry 2 j (splitGigaPage entry j)).child = none := by
  rw [readEntry, if_neg (by omega), entrySize_splitGigaPage]
  split_ifs <;> simp_all

theorem child_splitMegaPage (entry : ℕ) (j : Fin 512) :
    (readEntry 3 j (splitMegaPage entry j)).child = none := by
  rw [readEntry, if_neg (by omega)]
  split_ifs <;> simp_all

variable {m m' : PhysicalMemoryManager} {root t v : ℕ} {tables : List ℕ}
  {rest : List DyadicBlock} {p q : List (Fin 512)} {i : Fin 512}

/-- The leaf that a store to the last level gives. -/
theorem readEntry_leaf {address : ℕ} (halign : address % pageSize = 0) (hlt : address < 2 ^ 32)
    (i : Fin 512) (flags : ℕ) (user writeable : Bool) :
    readEntry 3 i (buildLeafEntryValue address flags user writeable) =
      .leaf address ⟨user, writeable⟩ := by
  rw [readEntry, if_neg (by omega), if_neg (by simp), if_neg (by omega),
    entryAddress_buildLeafEntryValue halign hlt, pageTag, entryUserAccess_buildLeafEntryValue,
    entryWriteable_buildLeafEntryValue]

/-- The keys of `S` lose their entries in the last level; no other key of a page is affected. -/
def ClearsPages (m m' : PhysicalMemoryManager) (root : ℕ) (S : List (Fin 512) → Prop) : Prop :=
  ∀ p, p.length = 4 →
    (¬ S p → lookup m'.lowerEntries 0 root p = lookup m.lowerEntries 0 root p) ∧
    (S p → lookup m'.lowerEntries 0 root p = none ∨
      lookup m'.lowerEntries 0 root p = lookup m.lowerEntries 0 root p ∧
        ∀ l, lookup m.lowerEntries 0 root p = some l → l.2.2 ≠ [])

namespace Tables

/-! ### Stores to the last level -/

/-- A store to a slot of a last-level table. -/
theorem store_last (h : Tables m root tables rest)
    (hq : reach m.lowerEntries 0 root q = some t) (hdepth : q.length = 3) (i : Fin 512)
    (value : ℕ) :
    Tables (m.storeEntry t i value) root tables rest ∧
      KeepsProtected m (m.storeEntry t i value) rest ∧
      (∀ p, reach (m.storeEntry t i value).lowerEntries 0 root p =
        reach m.lowerEntries 0 root p) ∧
      (∀ p, p.length = 4 → p ≠ q ++ [i] →
        lookup (m.storeEntry t i value).lowerEntries 0 root p = lookup m.lowerEntries 0 root p) ∧
      ∃ tags : List PageTag,
        lookup (m.storeEntry t i value).lowerEntries 0 root (q ++ [i]) =
          (lookup (m.storeEntry t i value).lowerEntries 3 t [i]).map
            fun r => (tags ++ r.1, r.2) := by
  obtain ⟨-, hkeeps, hoff⟩ := h.storeEntry hq i value
  have hnone : ∀ w, (readEntry q.length i w).child = none := by
    intro w
    rw [readEntry, hdepth]
    split_ifs <;> simp_all
  obtain ⟨htables, hreach⟩ := h.store_of_sameChild hq value
    (by rw [hnone, lowerEntries, hnone])
  refine ⟨htables, hkeeps, hreach, fun p hp hne => ?_, ?_⟩
  · refine hoff.lookup_of_not_prefix h.tree hq fun hpre => hne ?_
    exact (hpre.eq_of_length (by simp [hdepth, hp])).symm
  · obtain ⟨tags, htags⟩ := lookup_append ((hreach q).trans hq)
    rw [Nat.zero_add, hdepth] at htags
    exact ⟨tags, htags [i]⟩

/-! ### Mapping -/

/-- Mapping a page changes no other leaf, and on success its key has the leaf asked for. -/
theorem mapPage (h : Tables m root tables rest) (hv : pml4Index v < 256) (physicalAddress : ℕ)
    (flags : PageMappingFlags) :
    ∃ m' ok tables', m.mapPage root physicalAddress v flags = (m', ok) ∧
      Tables m' root tables' rest ∧ KeepsProtected m m' rest ∧
      (∀ p, p.length = 4 → Apart m root p (pagePath v) → LeafKept m m' root p) ∧
      (ok = true → physicalAddress % pageSize = 0 → physicalAddress < 2 ^ 32 →
        ∃ tags : List PageTag, lookup m'.lowerEntries 0 root (pagePath v) =
          some (tags ++ [⟨flags.userAccess, flags.writeable⟩], physicalAddress, [])) := by
  obtain ⟨m₁, ⟨⟨tables₁, hgrows⟩, hrun⟩ | ⟨pt, ⟨tables₁, hgrows, hreach⟩, hrun⟩⟩ :=
    mapPage_of_steps (fun m₁ q t => ∃ tables₁, Grows m m₁ root tables₁ rest (pagePath v) ∧
        reach m₁.lowerEntries 0 root q = some t)
      (fun m₁ => ∃ tables₁, Grows m m₁ root tables₁ rest (pagePath v))
      m root physicalAddress v flags ⟨tables, .refl h _, rfl⟩ fun m₁ q t i hinv hdepth hi => by
        obtain ⟨tables₁, hgrows, hq⟩ := hinv
        have hindex : q.length = 0 → i.val < 256 := by
          intro hzero
          obtain rfl := List.length_eq_zero_iff.mp hzero
          obtain ⟨_, hl⟩ := hi
          exact (List.cons.inj hl).1 ▸ hv
        obtain ⟨m₂, r, tables₂, hrun, hgrows', hreach⟩ := hgrows.tables.enterTable hq hdepth
          (pagePath v) _ hindex (hi.trans ⟨[ptFin v], rfl⟩) levelSplit_eq_none (fun _ =>
            levelSplit_eq_some (P := fun split depth => ∀ entry (j : Fin 512),
              (readEntry (depth + 1) j (split entry j)).child = none)
              child_splitGigaPage child_splitMegaPage hdepth) flags
        exact ⟨m₂, r, hrun, fun _ => ⟨_, hgrows.trans hgrows'⟩,
          fun c hc => ⟨_, hgrows.trans hgrows', hreach c hc⟩⟩
  · exact ⟨m₁, false, tables₁, hrun, hgrows.tables, hgrows.keeps, fun p _ => hgrows.leafKept p,
      by simp⟩
  · obtain ⟨htables, hkeeps, -, hother, tags, hself⟩ := hgrows.tables.store_last hreach (by simp)
      (ptFin v) (buildLeafEntryValue physicalAddress 0 flags.userAccess flags.writeable)
    refine ⟨_, true, _, hrun, htables, hgrows.keeps.trans hkeeps, fun p hp hapart l hl => ?_,
      fun _ halign hlt => ⟨tags, ?_⟩⟩
    · have hne : p ≠ pagePath v := by
        rintro rfl
        exact hapart l hl (List.take_prefix _ _)
      exact ((hgrows.leafKept p hapart).trans (.of_eq (hother p hp hne))) l hl
    · rw [pagePath_eq]
      refine hself.trans ?_
      rw [lookup_cons_of_leaf (b := physicalAddress) (g := ⟨flags.userAccess, flags.writeable⟩)]
      · rfl
      · rw [lowerEntries, entry_storeEntry, readEntry_leaf halign hlt]

/-! ### Existing mappings -/

/-- The child that an entry of the lower half names. -/
theorem child_readEntry_eq (i : Fin 512) (depth : ℕ) {entry : ℕ} (hdepth : depth < 3)
    (hindex : depth = 0 → i.val < 256) : (readEntry depth i entry).child =
      if entryPresent entry = true ∧ (depth = 0 ∨ entrySize entry = false) then
        some (entryAddress entry) else none := by
  by_cases hpresent : entryPresent entry = true
  · rw [readEntry_of_present hindex hpresent]
    split_ifs <;> simp_all
  · rw [readEntry, if_neg (by omega), if_pos (by simpa using hpresent), if_neg (by simp [hpresent]),
      RadixEntry.child_empty]

/-- The walk to an existing last-level table, for tables whose entries are read in any way in which
an entry names a child when it is present and, below the first level, not large. -/
theorem pageTableOf_of_child {m : PhysicalMemoryManager}
    {entries : ℕ → ℕ → Fin 512 → RadixEntry ℕ ℕ PageTag} (root : ℕ)
    (hchild : ∀ depth < 3, ∀ t i, (depth = 0 → i = pml4Fin v) → (entries depth t i).child =
      if entryPresent (m.entry t i) = true ∧ (depth = 0 ∨ entrySize (m.entry t i) = false) then
        some (entryAddress (m.entry t i)) else none) :
    m.pageTableOf root v = reach entries 0 root [pml4Fin v, pdptFin v, pdFin v] := by
  simp only [pageTableOf, reach, hchild 0 (by omega) _ (pml4Fin v) (fun _ => rfl),
    hchild (0 + 1) (by omega) _ (pdptFin v) (by omega),
    hchild (0 + 1 + 1) (by omega) _ (pdFin v) (by omega)]
  rw [show pml4Index v = (pml4Fin v).val from rfl, show pdptIndex v = (pdptFin v).val from rfl,
    show pdIndex v = (pdFin v).val from rfl]
  generalize m.entry root (pml4Fin v).val = e₁
  cases h₁ : entryPresent e₁
  · simp
  simp only [not_true_eq_false, if_false, true_and, true_or, if_true, Option.bind_some]
  generalize m.entry (entryAddress e₁) (pdptFin v).val = e₂
  cases h₂ : entryPresent e₂
  · simp
  cases h₃ : entrySize e₂
  · simp only [Bool.false_eq_true, not_true_eq_false, if_false, or_true, and_self, if_true,
      Option.bind_some]
    generalize m.entry (entryAddress e₂) (pdFin v).val = e₃
    cases h₄ : entryPresent e₃ <;> cases h₅ : entrySize e₃ <;> simp
  · simp

theorem pageTableOf_eq (m : PhysicalMemoryManager) (root : ℕ) (hv : pml4Index v < 256) :
    m.pageTableOf root v = reach m.lowerEntries 0 root [pml4Fin v, pdptFin v, pdFin v] :=
  pageTableOf_of_child root fun depth hdepth _ i hi =>
    child_readEntry_eq i depth hdepth fun hzero => hi hzero ▸ hv

/-- The entry of a page in the last level is removed, if there is one. -/
theorem unmapPage (h : Tables m root tables rest) (hv : pml4Index v < 256) :
    ∃ m' ok, m.unmapPage root v = (m', ok) ∧
      Tables m' root tables rest ∧ KeepsProtected m m' rest ∧
      ClearsPages m m' root (· = pagePath v) := by
  rw [PhysicalMemoryManager.unmapPage, pageTableOf_eq m root hv]
  cases hpt : reach m.lowerEntries 0 root [pml4Fin v, pdptFin v, pdFin v] with
  | none =>
    refine ⟨m, false, rfl, h, .refl _ _, fun p _ => ⟨fun _ => rfl, ?_⟩⟩
    rintro rfl
    refine .inr ⟨rfl, ?_⟩
    rintro ⟨tags, b, l⟩ hl rfl
    obtain ⟨c, hc⟩ := reach_of_lookup (by rwa [pagePath_eq] at hl)
    simp [hpt] at hc
  | some pt =>
    obtain ⟨htables, hkeeps, -, hother, tags, hself⟩ := h.store_last hpt (by simp) (ptFin v) 0
    refine ⟨_, true, rfl, htables, hkeeps, fun p hp => ⟨hother p hp, ?_⟩⟩
    rintro rfl
    left
    rw [pagePath_eq]
    refine hself.trans ?_
    rw [lookup_cons_of_empty, Option.map_none]
    rw [lowerEntries, entry_storeEntry, readEntry, if_neg (by omega), if_pos (by simp)]

end Tables

end PhysicalMemoryManager

end TwistedOS
