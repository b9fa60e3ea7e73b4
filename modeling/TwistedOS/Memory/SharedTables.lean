import TwistedOS.Data.RadixForest
import TwistedOS.Memory.PageProtection

/-!
# Address spaces that share tables

Address spaces share the tables of their upper halves. The tables of the lower half, with the one of
the first level, belong to one address space each. This is kept by everything that is done to pages
of one of them, and the lower halves of the others are translated as before: what is stored lies in
a table that the changed address space reaches, and a new table is a page that was free.

## Main definitions

* `PhysicalMemoryManager.SeparateSpaces`: the tables of several address spaces.
* `PhysicalMemoryManager.OthersKept`: the lower halves of the other address spaces stay.
* `PhysicalMemoryManager.SpacesRun`: calls on any of the address spaces.

## Main results

* `PhysicalMemoryManager.SeparateSpaces.afterPageMapEvent`.
-/

namespace TwistedOS

open RadixTree

/-- The slots of the first level that lead to the lower half. -/
def LowerSlot (i : Fin 512) : Prop := i.val < 256

namespace PhysicalMemoryManager

/-- The tables of the address spaces with the roots `roots` are in use, and no two of them share a
table of the lower half. -/
structure SeparateSpaces (m : PhysicalMemoryManager) (roots : ℕ → Prop) (live : List DyadicBlock) :
    Prop where
  root_mod : ∀ x, roots x → x % pageSize = 0
  separate : Separate m.translationEntries roots LowerSlot
  table_lt : ∀ x p t, roots x → reach m.translationEntries 0 x p = some t → t < 2 ^ 32
  inUse : ∀ x, roots x → TablesInUse m x live

/-- After a change to the address space `x` the lower halves of the others are as before. -/
structure OthersKept (m m' : PhysicalMemoryManager) (roots : ℕ → Prop) (x : ℕ) : Prop where
  spaces : ∃ live, SeparateSpaces m' roots live
  lookup_eq : ∀ y p, roots y → y ≠ x → OwnPath LowerSlot p →
    lookup m'.translationEntries 0 y p = lookup m.translationEntries 0 y p

/-- The states that calls on the address spaces lead to. -/
inductive SpacesRun (roots : ℕ → Prop) (m : PhysicalMemoryManager) : PhysicalMemoryManager → Prop
  | start : SpacesRun roots m m
  | step {m₁ : PhysicalMemoryManager} {x : ℕ} (event : PageMapEvent) (h : SpacesRun roots m m₁)
    (hx : roots x) : SpacesRun roots m (m₁.afterPageMapEvent x event)

variable {m m' m'' : PhysicalMemoryManager} {roots : ℕ → Prop} {live live' : List DyadicBlock}
  {x t k : ℕ} {q : List (Fin 512)} {i : Fin 512}

theorem OthersKept.trans (h : OthersKept m m' roots x) (h' : OthersKept m' m'' roots x) :
    OthersKept m m'' roots x :=
  ⟨h'.spaces, fun y p hy hne hp => (h'.lookup_eq y p hy hne hp).trans (h.lookup_eq y p hy hne hp)⟩

namespace SeparateSpaces

theorem kept (h : SeparateSpaces m roots live) (x : ℕ) : OthersKept m m roots x :=
  ⟨⟨live, h⟩, fun _ _ _ _ _ => rfl⟩

theorem table_mod (h : SeparateSpaces m roots live) (hx : roots x)
    (hq : reach m.translationEntries 0 x q = some t) : t % pageSize = 0 :=
  reach_mod (h.root_mod x hx) hq

/-! ### Slots -/

section

variable (h : SeparateSpaces m roots live) (hx : roots x)
  (hq : reach m.translationEntries 0 x q = some t)

include h hx hq

/-- A slot of a table of one address space is replaced. -/
theorem replaceSlot
    (hslot : ReplacesSlot m.translationEntries m'.translationEntries roots q.length t i)
    (hvalid : Valid m' live')
    (hstart : m'.memoryDescriptorInfo.physicalAddressStart =
      m.memoryDescriptorInfo.physicalAddressStart)
    (htotal : m'.memoryDescriptorInfo.totalNumberOfPages =
      m.memoryDescriptorInfo.totalNumberOfPages) (hfree : ∀ k, m'.PageFree k → m.PageFree k)
    (hnew : ∀ c, (m'.translationEntries q.length t i).child = some c →
      (∀ y p, roots y → reach m.translationEntries 0 y p ≠ some c) →
      c < 2 ^ 32 ∧ ∀ k, m'.PageFree k → m.pageAddress k ≠ c) :
    OthersKept m m' roots x ∧ reach m'.translationEntries 0 x q = some t := by
  have haddr : m'.pageAddress = m.pageAddress := by
    funext k
    simp only [pageAddress, hstart]
  have hinUse := h.inUse x hx
  refine ⟨⟨⟨live', h.root_mod, h.separate.replaceSlot hx hq hslot, fun y p c hy hp => ?_,
    fun y hy => ⟨hvalid, hstart ▸ hinUse.start_mod, ?_, fun p c hp k hk => ?_⟩⟩,
    fun y p hy hne hp => h.separate.lookup_replaceSlot hx hq hslot hy hne hp⟩,
    h.separate.reach_of_length_le hx hq hslot hx hq le_rfl⟩
  · rcases h.separate.reach_cases hx hq hslot hy hp with hold | ⟨-, hchild, hfresh⟩
    · exact h.table_lt y p c hy hold
    · exact (hnew c hchild hfresh).1
  · rw [haddr, htotal]
    exact hinUse.end_le
  · rw [haddr]
    rcases h.separate.reach_cases hx hq hslot hy hp with hold | ⟨-, hchild, hfresh⟩
    · exact (h.inUse y hy).notFree p c hold k (hfree k hk)
    · exact (hnew c hchild hfresh).2 k hk

/-- A slot is stored that keeps its child table or loses it. -/
theorem storeEntry {value : ℕ}
    (hchild : ∀ c, (translationEntry q.length value).child = some c →
      (m.translationEntries q.length t i).child = some c) :
    OthersKept m (m.storeEntry t i value) roots x ∧
      reach (m.storeEntry t i value).translationEntries 0 x q = some t := by
  have ht := h.table_mod hx hq
  have hself := MappedTables.translationEntries_storeEntry m q.length t i value
  have hvalid := (h.inUse x hx).valid_storeEntry ht ((h.inUse x hx).notFree q t hq) i value
  refine h.replaceSlot (i := i) hx hq ⟨fun y hy => m.agreeOffSlot_storeEntry (h.root_mod y hy) ht i
    value, fun c hc => .inl (hchild c (hself ▸ hc))⟩ hvalid rfl rfl (fun k hk => ?_)
    fun c hc hnew => ?_
  · exact ((h.inUse x hx).valid.pageFree_iff k).mpr ((hvalid.pageFree_iff k).mp hk)
  · rw [hself] at hc
    exact absurd ((reach_concat hq i).trans (hchild c hc)) (hnew x _ hx)

/-- A page that was free becomes a table without children. -/
theorem attach (hvalid : Valid m' (⟨k, 0⟩ :: live)) (hkeeps : Keeps m m' live) (hk : m.PageFree k)
    (words : ℕ → ℕ) {value : ℕ} {g : PageTag}
    (hm'' : m'' = (m'.fillPages (m.pageAddress k) 1 words).storeEntry t i value)
    (hvalue : translationEntry q.length value = .table (m.pageAddress k) g)
    (hchild : ∀ j : Fin 512, (translationEntry (q.length + 1) (words j)).child = none) :
    OthersKept m m'' roots x ∧ reach m''.translationEntries 0 x q = some t ∧
      reach m''.translationEntries 0 x (q ++ [i]) = some (m.pageAddress k) := by
  have hinUse := h.inUse x hx
  have hwords (y : ℕ) (hy : roots y) := (h.inUse y hy).newTable_words (i := i) (h.root_mod y hy)
    (h.table_mod hx hq) (hinUse.notFree q t hq) hvalid hkeeps hk words value hm''
  obtain ⟨hvalid'', -, hpage⟩ := hwords x hx
  have hself : m''.translationEntries q.length t i = .table (m.pageAddress k) g := by
    rw [hm'', MappedTables.translationEntries_storeEntry, hvalue]
  have htotal : m''.memoryDescriptorInfo.totalNumberOfPages =
      m.memoryDescriptorInfo.totalNumberOfPages := by
    rw [← hkeeps.total, hm'']
    rfl
  have hc : ∀ c, (m''.translationEntries q.length t i).child = some c → c = m.pageAddress k := by
    intro c hc
    rw [hself, RadixEntry.child_table] at hc
    exact (Option.some.inj hc).symm
  have hslot : ReplacesSlot m.translationEntries m''.translationEntries roots q.length t i := by
    refine ⟨fun y hy => (hwords y hy).2.1, fun c hnew => .inr ?_⟩
    obtain rfl := hc c hnew
    exact ⟨fun y p hy hp => (h.inUse y hy).notFree p _ hp k hk rfl, fun j => by rw [hpage, hchild]⟩
  obtain ⟨hkept, hreach⟩ := h.replaceSlot hx hq hslot hvalid''
    (by rw [← hkeeps.start, hm'']; rfl) htotal
    (fun j hj => (hinUse.pageFree_of_allocated hvalid'' htotal hj).1) fun c hnew _ => by
      obtain rfl := hc c hnew
      exact ⟨hinUse.page_lt hk, fun j hj heq =>
        (hinUse.pageFree_of_allocated hvalid'' htotal hj).2 (m.pageAddress_injective heq)⟩
  refine ⟨hkept, hreach, ?_⟩
  rw [reach_concat hreach, hself, RadixEntry.child_table]

end

/-! ### The steps of a walk -/

variable {flags : PageMappingFlags}

section

variable (h : SeparateSpaces m roots live) (hx : roots x)
  (hq : reach m.translationEntries 0 x q = some t) (hdepth : q.length < 3)

include h hx hq hdepth

/-- An entry on the way is made present, or there is no page left for a table. -/
theorem ensurePresent (i : Fin 512) (flags : PageMappingFlags) :
    ∃ m' ok, m.ensurePresent t i flags = (m', ok) ∧ OthersKept m m' roots x ∧
      reach m'.translationEntries 0 x q = some t ∧
      (ok = true → entryPresent (m'.entry t i) = true) := by
  have hinUse := h.inUse x hx
  by_cases hpresent : entryPresent (m.entry t i) = true
  · exact ⟨m, true, if_pos hpresent, h.kept x, hq, fun _ => hpresent⟩
  rcases hinUse.allocate with hfails | ⟨m', k, hcall, hne, hvalid, hkeeps, hk⟩
  · exact ⟨m, false, ensurePresent_of_refused hpresent hfails, h.kept x, hq, by simp⟩
  obtain ⟨hkept, hreach, -⟩ := h.attach hx hq hvalid hkeeps hk (fun _ => 0) rfl
    (translationEntry_nonLeaf hdepth (hinUse.pageAddress_mod k) (hinUse.page_lt hk) 0
      flags.userAccess) (by simp)
  exact ⟨_, true, ensurePresent_of_allocated hpresent hcall hne, hkept, hreach, fun _ => by
    rw [entry_storeEntry, entryPresent_buildNonLeafEntryValue]⟩

/-- A large page on the way is split, or there is no page left for the table. -/
theorem splitLargePage (i : Fin 512) {split : ℕ → ℕ → ℕ}
    (hsplit : ∀ entry (j : Fin 512), (translationEntry (q.length + 1) (split entry j)).child = none)
    (flags : PageMappingFlags) :
    ∃ m' r, PhysicalMemoryManager.splitLargePage split m t i flags = (m', r) ∧
      OthersKept m m' roots x ∧
      ∀ c, r = some c → reach m'.translationEntries 0 x (q ++ [i]) = some c := by
  have hinUse := h.inUse x hx
  rcases hinUse.allocate with hfails | ⟨m', k, hcall, hne, hvalid, hkeeps, hk⟩
  · exact ⟨m, none, splitLargePage_of_refused hfails, h.kept x, by simp⟩
  obtain ⟨hkept, -, hreach⟩ := h.attach hx hq hvalid hkeeps hk (split (m.entry t i)) rfl
    (translationEntry_nonLeaf hdepth (hinUse.pageAddress_mod k) (hinUse.page_lt hk) 0
      (entryUserAccess (m.entry t i) || flags.userAccess)) (hsplit (m.entry t i))
  refine ⟨_, _, splitLargePage_of_allocated hcall hne rfl, hkept, ?_⟩
  rintro c ⟨rfl⟩
  rw [hreach, entryAddress_buildNonLeafEntryValue (hinUse.pageAddress_mod k) (hinUse.page_lt hk)]

/-- A table on the way becomes accessible to user mode if need be. -/
theorem grantUserAccess
    (hchild : (m.translationEntries q.length t i).child = some (entryAddress (m.entry t i)))
    (flags : PageMappingFlags) :
    ∃ m' r, PhysicalMemoryManager.grantUserAccess m t i flags = (m', r) ∧
      OthersKept m m' roots x ∧
      ∀ c, r = some c → reach m'.translationEntries 0 x (q ++ [i]) = some c := by
  obtain ⟨entry, he⟩ : ∃ entry, entry = m.entry t i := ⟨_, rfl⟩
  rw [← he] at hchild
  have hmod := entryAddress_mod entry
  have hlt := h.table_lt x _ _ hx ((reach_concat hq i).trans hchild)
  have haddress : buildNonLeafEntryValue entry entry true =
      buildNonLeafEntryValue (entryAddress entry) entry true :=
    (buildNonLeafEntryValue_entryAddress entry entry true).symm
  have hvalue : (translationEntry q.length (buildNonLeafEntryValue entry entry true)).child =
      some (entryAddress entry) := by
    rw [haddress, translationEntry_nonLeaf hdepth hmod hlt, RadixEntry.child_table]
  rw [PhysicalMemoryManager.grantUserAccess, ← he]
  dsimp only
  by_cases hgrant : (flags.userAccess && !entryUserAccess entry) = true
  · rw [if_pos hgrant, haddress, entryAddress_buildNonLeafEntryValue hmod hlt, ← haddress]
    have hsame : ∀ c, (translationEntry q.length (buildNonLeafEntryValue entry entry true)).child =
        some c → (m.translationEntries q.length t i).child = some c := by
      intro c hc
      rw [hchild, ← hc, hvalue]
    obtain ⟨hkept, hreach⟩ := h.storeEntry hx hq hsame
    refine ⟨_, _, rfl, hkept, ?_⟩
    rintro c ⟨rfl⟩
    rw [reach_concat hreach, MappedTables.translationEntries_storeEntry, hvalue]
  · rw [if_neg hgrant]
    refine ⟨_, _, rfl, h.kept x, ?_⟩
    rintro c ⟨rfl⟩
    rw [reach_concat hq, hchild]

/-- One step of a walk: the next table is entered, or there is no page left for it. -/
theorem enterTable (split : Option (ℕ → ℕ → ℕ)) (hnone : split = none → q.length = 0)
    (hsome : ∀ s, split = some s → ∀ entry (j : Fin 512),
      (translationEntry (q.length + 1) (s entry j)).child = none) (i : Fin 512)
    (flags : PageMappingFlags) :
    ∃ m' r, PhysicalMemoryManager.enterTable split m t i flags = (m', r) ∧
      OthersKept m m' roots x ∧
      ∀ c, r = some c → reach m'.translationEntries 0 x (q ++ [i]) = some c := by
  obtain ⟨m₁, ok, hensure, hkept, hq₁, hpresent⟩ := h.ensurePresent hx hq hdepth i flags
  obtain ⟨live₁, h₁⟩ := hkept.spaces
  rcases enterTable_cases split hensure with
    ⟨-, hrun⟩ | ⟨rfl, hlevel, hrun⟩ | ⟨rfl, hsize, s, rfl, hrun⟩
  · exact ⟨m₁, none, hrun, hkept, by simp⟩
  · have htable : q.length = 0 ∨ entrySize (m₁.entry t i) = false := hlevel.imp_left hnone
    have hchild : (translationEntry q.length (m₁.entry t i)).child = _ :=
      MappedTables.child_translationEntry hdepth
    rw [if_pos ⟨hpresent rfl, htable⟩] at hchild
    obtain ⟨m₂, r, hgrant, hkept', hreach⟩ := h₁.grantUserAccess hx hq₁ hdepth hchild flags
    exact ⟨m₂, r, hrun.trans hgrant, hkept.trans hkept', hreach⟩
  · obtain ⟨m₂, r, hlarge, hkept', hreach⟩ :=
      h₁.splitLargePage hx hq₁ hdepth i (hsome s rfl) flags
    exact ⟨m₂, r, hrun.trans hlarge, hkept.trans hkept', hreach⟩

end

/-! ### Calls -/

theorem child_translationEntry_splitGigaPage (entry : ℕ) (j : Fin 512) :
    (translationEntry 2 (splitGigaPage entry j)).child = none := by
  rw [translationEntry, entrySize_splitGigaPage]
  split_ifs <;> simp_all

section

variable (h : SeparateSpaces m roots live) (hx : roots x)

include h hx

/-- An entry of the last level is stored. -/
theorem storeEntry_last (hq : reach m.translationEntries 0 x q = some t) (hdepth : q.length = 3)
    (i : Fin 512) (value : ℕ) : OthersKept m (m.storeEntry t i value) roots x := by
  refine (h.storeEntry hx hq fun c hc => ?_).1
  rw [hdepth, child_translationEntry_three] at hc
  simp at hc

/-- A page is mapped, or there is no page left for a table. -/
theorem mapPage (physicalAddress v : ℕ) (flags : PageMappingFlags) :
    OthersKept m (m.mapPage x physicalAddress v flags).1 roots x := by
  obtain ⟨m₁, ⟨hkept, hrun⟩ | ⟨pt, ⟨hkept, hreach⟩, hrun⟩⟩ := mapPage_of_steps
    (fun m₁ q t => OthersKept m m₁ roots x ∧ reach m₁.translationEntries 0 x q = some t)
    (fun m₁ => OthersKept m m₁ roots x) m x physicalAddress v flags
    ⟨h.kept x, rfl⟩ fun m₁ q t i hinv hdepth _ => by
      obtain ⟨live₁, h₁⟩ := hinv.1.spaces
      obtain ⟨m₂, r, hrun, hkept, hreach⟩ := h₁.enterTable hx hinv.2 hdepth _ levelSplit_eq_none
        (fun _ hs => (levelSplit_eq_some (P := fun split depth => ∀ entry (j : Fin 512),
          (translationEntry (depth + 1) (split entry j)).child = none)
          child_translationEntry_splitGigaPage (fun _ _ => child_translationEntry_three _) hdepth
          hs).2) i flags
      replace hkept := hinv.1.trans hkept
      exact ⟨m₂, r, hrun, fun _ => hkept, fun c hc => ⟨hkept, hreach c hc⟩⟩
  · rwa [hrun]
  · obtain ⟨live₁, h₁⟩ := hkept.spaces
    rw [hrun]
    exact hkept.trans (h₁.storeEntry_last hx hreach (by simp) (ptFin v) _)

/-- Calls on pages of one address space leave the lower halves of the others alone. -/
theorem afterPageMapEvent (event : PageMapEvent) :
    OthersKept m (m.afterPageMapEvent x event) roots x := by
  cases event with
  | map physicalAddress v flags => exact h.mapPage hx physicalAddress v flags
  | unmap v =>
    rw [PhysicalMemoryManager.afterPageMapEvent, unmapPage, MappedTables.pageTableOf_eq_reach]
    cases hpt : reach m.translationEntries 0 x [pml4Fin v, pdptFin v, pdFin v] with
    | none => exact h.kept x
    | some pt => exact h.storeEntry_last hx hpt rfl (ptFin v) 0
  | protect v userAccess writeable =>
    rw [PhysicalMemoryManager.afterPageMapEvent, protectPage, MappedTables.pageTableOf_eq_reach]
    cases hpt : reach m.translationEntries 0 x [pml4Fin v, pdptFin v, pdFin v] with
    | none => exact h.kept x
    | some pt =>
      dsimp only
      split_ifs
      · exact h.storeEntry_last hx hpt rfl (ptFin v) _
      · exact h.kept x

end

end SeparateSpaces

/-- In every run the address spaces stay separate. -/
theorem SpacesRun.separateSpaces (h : SpacesRun roots m m') (hm : SeparateSpaces m roots live) :
    ∃ live', SeparateSpaces m' roots live' := by
  induction h with
  | start => exact ⟨live, hm⟩
  | step event _ hx ih =>
    obtain ⟨live', h'⟩ := ih
    exact (h'.afterPageMapEvent hx event).spaces

end PhysicalMemoryManager

end TwistedOS
