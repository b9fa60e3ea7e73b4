import TwistedOS.Memory.MappedPages
import TwistedOS.Memory.PageMapCopying

/-!
# Failed copies of an address space

A copy that fails frees the tables that its new root leads to. The table of the first level that was
being copied is not linked yet, so that the pages below it and its own page are lost. Nothing is
lost if the pages run out just when a table of the first level is to be allocated, or when there is
none for the root.

## Main definitions

* `PhysicalMemoryManager.pagesBefore`: the pages that the copy takes before an entry of the first
  level.
* `PhysicalMemoryManager.CopyLosesNothing`: every table of the first level that gets a page can be
  copied.

## Main results

* `PhysicalMemoryManager.CopySource.leaksNothing_iff`.
* `PhysicalMemoryManager.not_leaksNothing`: a copy that loses a page.
-/

namespace TwistedOS

open RadixTree

namespace PhysicalMemoryManager

/-! ### The pages that a copy takes -/

/-- The pages that the copy of an entry of the first level takes. -/
def pagesOfPml4Entry (m : PhysicalMemoryManager) (root : ℕ) (i : Fin 512) : ℕ :=
  m.pagesThrough (m.pagesBelow 2 1) 0 root i

/-- The pages that the root and the entries before `count` take. -/
def pagesBefore (m : PhysicalMemoryManager) (root count : ℕ) : ℕ :=
  sumUpTo (m.pagesOfPml4Entry root) count + 1

/-- The entry of the first level is to be copied. -/
def Pml4Copied (m : PhysicalMemoryManager) (root : ℕ) (i : Fin 512) : Prop :=
  i.val < 256 ∧ entryPresent (m.entry root i) = true

/-- If the entry of the first level is to be copied, it names a table. -/
def Pml4Valid (m : PhysicalMemoryManager) (root : ℕ) (i : Fin 512) : Prop :=
  m.Pml4Copied root i → normalizeTablePhysicalAddress (entryAddress (m.entry root i)) ≠ 0

/-- An entry of the first level that is reached, and for whose table there is a page, names a valid
table, and there are pages for all tables below it. -/
def CopyLosesNothing (m : PhysicalMemoryManager) (root : ℕ) : Prop :=
  ∀ i, m.Pml4Copied root i → (∀ j < i, m.Pml4Valid root j) →
    m.pagesBefore root i < m.memoryDescriptorInfo.numberOfFreePages →
    m.Pml4Valid root i ∧
      m.pagesBefore root (i + 1) ≤ m.memoryDescriptorInfo.numberOfFreePages

variable {m₀ m : PhysicalMemoryManager} {live : List DyadicBlock} {S : List ℕ} {root k fuel : ℕ}
  {i : Fin 512}

theorem pagesBefore_succ (m : PhysicalMemoryManager) (root : ℕ) (i : Fin 512) :
    m.pagesBefore root (i.val + 1) = m.pagesBefore root i.val + m.pagesOfPml4Entry root i := by
  rw [pagesBefore, pagesBefore, sumUpTo_succ]
  omega

theorem pagesBefore_mono (m : PhysicalMemoryManager) (root : ℕ) {a b : ℕ} (hab : a ≤ b)
    (hb : b ≤ 512) : m.pagesBefore root a ≤ m.pagesBefore root b := by
  induction b, hab using Nat.le_induction with
  | base => exact le_rfl
  | succ b _ ih =>
    have hstep := m.pagesBefore_succ root ⟨b, by omega⟩
    have := ih (by omega)
    simp only at hstep
    omega

/-! ### The first level -/

/-- An entry of the first level has been copied, or it cannot be copied; then a page is lost if one
was left for its table. -/
def Pml4Outcome (m₀ : PhysicalMemoryManager) (live : List DyadicBlock) (m : PhysicalMemoryManager)
    (S : List ℕ) (root k : ℕ) (i : Fin 512) (r : PhysicalMemoryManager × Bool) : Prop :=
  ∃ L, Copying m₀ live (L ++ S) r.1 ∧
    SameSlots m₀ m r.1 (fun k' j => k' ∈ S ∧ ¬ (k' = k ∧ j = i)) ∧
    (r.2 = true → m₀.Pml4Valid root i ∧ L.length = m₀.pagesOfPml4Entry root i ∧
      S.length + m₀.pagesOfPml4Entry root i ≤ m₀.memoryDescriptorInfo.numberOfFreePages ∧
      SlotCopied m₀ r.1 0 root k i L) ∧
    (r.2 = false → SameSlots m₀ m r.1 (fun k' _ => k' ∈ S) ∧ m₀.Pml4Copied root i ∧
      ¬ (m₀.Pml4Valid root i ∧ S.length + m₀.pagesOfPml4Entry root i ≤
        m₀.memoryDescriptorInfo.numberOfFreePages) ∧
      (L = [] ↔ S.length = m₀.memoryDescriptorInfo.numberOfFreePages))

theorem Pml4Outcome.of_true {m' : PhysicalMemoryManager} (hvalid : m₀.Pml4Valid root i)
    (h : SlotOutcome m₀ live m S 0 root k i (m₀.pagesOfPml4Entry root i) (m', true)) :
    Pml4Outcome m₀ live m S root k i (m', true) := by
  obtain ⟨L, hL, hsame, hok, hdone, -⟩ := h
  obtain ⟨hlength, hcopied⟩ := hdone rfl
  exact ⟨L, hL, hsame, fun _ => ⟨hvalid, hlength, hok.mp rfl, hcopied⟩, by simp⟩

section

variable (h₀ : CopySource m₀ root live)

include h₀

theorem pml4Outcome_copyPageMapL4Entry (hS : Copying m₀ live S m) (hk : k ∈ S)
    (hzero : m.entry (m₀.pageAddress k) i = 0) :
    Pml4Outcome m₀ live m S root k i (copyPageMapL4Entry root (m₀.pageAddress k) m i) := by
  obtain ⟨e, he⟩ : ∃ e, e = m₀.entry root i := ⟨_, rfl⟩
  rw [copyPageMapL4Entry, hS.entry_eq h₀ (p := []) rfl, ← he]
  dsimp only
  by_cases hpresent : entryPresent e = true
  · rw [if_neg (not_not.mpr hpresent)]
    by_cases hupper : 256 ≤ i.val
    · -- the upper half is shared
      have hempty : m₀.sourceEntries 0 root i = .empty := by
        rw [sourceEntries, sourceEntry, if_pos ⟨rfl, hupper⟩]
      have hneed : m₀.pagesOfPml4Entry root i = 0 := by
        rw [pagesOfPml4Entry, pagesThrough, hempty]
        rfl
      rw [if_pos hupper]
      refine .of_true (fun h => absurd h.1 (by omega)) (hS.storeEntry_outcome h₀ hk hneed ?_ ?_)
      · rw [hempty, readEntry, if_pos ⟨rfl, hupper⟩]
      · rw [hempty, RadixEntry.child_empty]
    · have hcopied : m₀.Pml4Copied root i := ⟨by omega, he ▸ hpresent⟩
      have hsource := sourceEntries_of_table (show 0 < 3 by decide) (fun _ => by omega) he.symm
        hpresent (.inl rfl)
      have hneed (hnormal : normalizeTablePhysicalAddress (entryAddress e) ≠ 0) :
          m₀.pagesOfPml4Entry root i =
            m₀.pagesBelow 2 1 (normalizeTablePhysicalAddress (entryAddress e)) + 1 := by
        rw [pagesOfPml4Entry, pagesThrough, hsource, if_neg hnormal]
        rfl
      rw [if_neg hupper]
      rcases hS.allocate h₀ with ⟨hfails, hfull⟩ |
        ⟨m₁, c', hcall, hne, hlt, hfresh, hc', hsame, hclear⟩
      · -- no page is left for the table
        rw [hfails]
        refine ⟨[], hS, fun _ _ _ => rfl, by simp, fun _ =>
          ⟨fun _ _ _ => rfl, hcopied, ?_, by simpa using hfull⟩⟩
        rintro ⟨hvalid, hle⟩
        rw [hneed (he ▸ hvalid hcopied)] at hle
        omega
      · rw [hcall]
        split
        · rename_i m₂ heq
          exact absurd (Prod.mk.inj heq).2 hne
        · rename_i m₂ newPdpt _ heq
          obtain ⟨rfl, rfl⟩ := Prod.mk.inj heq
          have hlost : ∀ L : List ℕ, L ≠ [] →
              (L = [] ↔ S.length = m₀.memoryDescriptorInfo.numberOfFreePages) := by
            intro L hL
            simp only [hL, false_iff]
            omega
          by_cases hnormal : normalizeTablePhysicalAddress (entryAddress e) = 0
          · -- the table is not valid, but the page has been taken
            rw [if_pos hnormal]
            refine ⟨[c'], hc', hsame.mono fun _ _ h => h.1, by simp, fun _ =>
              ⟨hsame, hcopied, fun h => h.1 hcopied (he ▸ hnormal), hlost [c'] (by simp)⟩⟩
          · have hvalid : m₀.Pml4Valid root i := fun _ => he ▸ hnormal
            have hreach : reach m₀.sourceEntries 0 root [i] =
                some (normalizeTablePhysicalAddress (entryAddress e)) := by
              rw [reach, hsource, if_neg hnormal]
              rfl
            have houtcome := copiesTable_copyPageDirectoryPointerTable h₀ (p := [i]) rfl _
              (c' :: S) c' _ hc' List.mem_cons_self hclear hreach
            rw [if_neg hnormal] at hsource ⊢
            obtain ⟨htrue, hfalse⟩ := Copying.below_outcome (e := e) h₀ hk hfresh hsame
              (by decide) (fun _ => by omega) hsource houtcome
            split
            · rename_i m₃ hrun
              rw [hrun] at hfalse
              obtain ⟨L, hL, hsame₂, hok, -, hfailed⟩ := hfalse rfl
              obtain ⟨hsame₃, hlose⟩ := hfailed rfl
              refine ⟨L, hL, hsame₂, by simp, fun _ => ⟨hsame₃, hcopied, fun h => ?_,
                hlost L (hlose hlt)⟩⟩
              rw [hneed hnormal] at h
              exact absurd (hok.mpr h.2) (by simp)
            · rename_i m₃ hrun
              rw [hrun] at htrue
              refine .of_true hvalid ?_
              rw [hneed hnormal]
              exact htrue rfl
  · have hempty : m₀.sourceEntries 0 root i = .empty := by
      rw [sourceEntries, ← he, sourceEntry_of_not_present _ _ (by simpa using hpresent)]
    have hneed : m₀.pagesOfPml4Entry root i = 0 := by
      rw [pagesOfPml4Entry, pagesThrough, hempty]
      rfl
    rw [if_pos hpresent]
    exact .of_true (fun h => absurd (he ▸ h.2) hpresent) (hS.skip_outcome h₀ hneed hzero hempty)

/-- The loop over the first level, for the new root in page `k`: the pages `L` are linked below it,
and the pages `O` are not. -/
theorem copyEntries_pml4 (hS : Copying m₀ live [k] m)
    (hclear : ∀ i : Fin 512, m.entry (m₀.pageAddress k) i = 0) (count : ℕ) (hcount : count ≤ 512) :
    ∃ r L O cnt D, copyEntries (copyPageMapL4Entry root (m₀.pageAddress k)) count m = r ∧
      Copying m₀ live (O ++ (L ++ [k])) r.1 ∧ SlotsCopied m₀ r.1 0 root k cnt L D ∧
      (r.2 = true → O = [] ∧ cnt = count ∧ (∀ j : Fin 512, j.val < count → m₀.Pml4Valid root j) ∧
        L.length + 1 = m₀.pagesBefore root count ∧
        m₀.pagesBefore root count ≤ m₀.memoryDescriptorInfo.numberOfFreePages) ∧
      (r.2 = false → ∃ i, m₀.Pml4Copied root i ∧ (∀ j < i, m₀.Pml4Valid root j) ∧
        m₀.pagesBefore root i ≤ m₀.memoryDescriptorInfo.numberOfFreePages ∧
        ¬ (m₀.Pml4Valid root i ∧
          m₀.pagesBefore root (i + 1) ≤ m₀.memoryDescriptorInfo.numberOfFreePages) ∧
        (O = [] ↔ m₀.pagesBefore root i = m₀.memoryDescriptorInfo.numberOfFreePages)) := by
  induction count with
  | zero =>
    have hfree := hS.numberOfFreePages_add h₀.valid
    have hzero : m₀.pagesBefore root 0 = 1 := by rw [pagesBefore, sumUpTo_zero]
    refine ⟨(m, true), [], [], 0, _, rfl, hS, .zero hclear _ _, fun _ => ⟨rfl, rfl,
      fun j hj => absurd hj (Nat.not_lt_zero _), by rw [hzero]; rfl, ?_⟩, by simp⟩
    rw [hzero]
    rw [List.length_singleton] at hfree
    omega
  | succ count ih =>
    obtain ⟨⟨m₁, ok⟩, L, O, cnt, D, hrun, hL, hD, htrue, hfalse⟩ := ih (by omega)
    obtain ⟨i, rfl⟩ : ∃ i : Fin 512, i.val = count := ⟨⟨count, by omega⟩, rfl⟩
    rw [copyEntries, hrun]
    cases ok with
    | false => exact ⟨(m₁, false), L, O, cnt, D, rfl, hL, hD, by simp, hfalse⟩
    | true =>
      obtain ⟨rfl, rfl, hvalid, hlength, hle⟩ := htrue rfl
      rw [List.nil_append] at hL
      have hmem : k ∈ L ++ [k] := List.mem_append_right _ (List.mem_singleton_self k)
      have hkL : k ∉ L := fun hk => hL.disjoint k hk (List.mem_singleton_self k)
      have hpages : (L ++ [k]).length = m₀.pagesBefore root i.val := by simp [hlength]
      have hperm : ∀ k', k' ∈ k :: L → k' ∈ L ++ [k] :=
        fun k' hk' => (List.perm_append_singleton k L).mem_iff.mpr hk'
      have hbefore : ∀ j < i, m₀.Pml4Valid root j := fun j hj => hvalid j hj
      obtain ⟨L', hL', hsame, hdone, hfailed⟩ :=
        pml4Outcome_copyPageMapL4Entry h₀ hL hmem (hD.after i le_rfl).2
      rw [hpages] at hdone hfailed
      dsimp only
      generalize copyPageMapL4Entry root (m₀.pageAddress k) m₁ i = r at hL' hsame hdone hfailed ⊢
      obtain ⟨m₂, ok⟩ := r
      cases ok with
      | false =>
        obtain ⟨hsame', hcopied, hnot, hlost⟩ := hfailed rfl
        refine ⟨(m₂, false), L, L', i.val, D, rfl, hL', hD.congr (hsame'.mono fun k' _ => hperm k'),
          by simp, fun _ => ⟨i, hcopied, hbefore, hle, ?_, hlost⟩⟩
        rwa [pagesBefore_succ]
      | true =>
        obtain ⟨hvalid', hlength', hle', hcopied⟩ := hdone rfl
        refine ⟨(m₂, true), L' ++ L, [], i.val + 1, _, rfl, by rwa [List.nil_append,
          List.append_assoc], hD.succ hkL (hsame.mono fun k' j hk' => ⟨hperm k' hk'.1, hk'.2⟩)
          (fun x hx hxL => hL'.disjoint x hx (List.mem_append_left _ hxL)) hcopied,
          fun _ => ⟨rfl, rfl, fun j hj => ?_, ?_, ?_⟩, by simp⟩
        · rcases Nat.lt_succ_iff_lt_or_eq.mp hj with hj | hj
          · exact hvalid j hj
          · rwa [Fin.ext hj]
        · rw [pagesBefore_succ, List.length_append]
          omega
        · rw [pagesBefore_succ]
          exact hle'

/-- The entries of the upper half are shared. -/
theorem copyEntries_pml4_upper (hS : Copying m₀ live [k] m)
    (hclear : ∀ i : Fin 512, m.entry (m₀.pageAddress k) i = 0) (count : ℕ) (hcount : count ≤ 512)
    (hrun : (copyEntries (copyPageMapL4Entry root (m₀.pageAddress k)) count m).2 = true) :
    ∀ i : Fin 512, i.val < count → 256 ≤ i.val →
      (copyEntries (copyPageMapL4Entry root (m₀.pageAddress k)) count m).1.translationEntries 0
        (m₀.pageAddress k) i = m₀.translationEntries 0 root i := by
  induction count with
  | zero => exact fun i hi => absurd hi (Nat.not_lt_zero _)
  | succ count ih =>
    obtain ⟨⟨m₁, ok⟩, L, O, cnt, D, hrun₁, hL, hD, htrue, -⟩ :=
      copyEntries_pml4 h₀ hS hclear count (by omega)
    rw [copyEntries, hrun₁] at hrun ⊢
    rw [hrun₁] at ih
    cases ok with
    | false => exact absurd hrun (by simp)
    | true =>
      obtain ⟨rfl, rfl, -⟩ := htrue rfl
      rw [List.nil_append] at hL
      obtain ⟨j, rfl⟩ : ∃ j : Fin 512, j.val = cnt := ⟨⟨cnt, by omega⟩, rfl⟩
      intro i hi hupper
      have hcopy : copyPageMapL4Entry root (m₀.pageAddress k) m₁ j =
          if ¬ entryPresent (m₀.entry root j) then (m₁, true)
          else (m₁.storeEntry (m₀.pageAddress k) j (m₀.entry root j), true) := by
        rw [copyPageMapL4Entry, hL.entry_eq h₀ (p := []) rfl]
        dsimp only
        rw [if_pos (show 256 ≤ j.val by omega)]
      have hzero := (hD.after j le_rfl).2
      dsimp only
      rw [hcopy]
      rcases Nat.lt_succ_iff_lt_or_eq.mp hi with hlt | heq
      · -- a slot that has been copied before
        have hold := ih (by omega) rfl i hlt hupper
        split_ifs
        · have hne : ¬ (k = k ∧ i = j) := fun heq => lt_irrefl _ (heq.2 ▸ hlt)
          have hstored := (hL.storeEntry h₀.valid (List.mem_append_right _
            (List.mem_singleton_self k)) j (m₀.entry root j)).2 k i hne
          exact (congrArg _ hstored).trans hold
        · exact hold
      · obtain rfl := Fin.ext heq
        split_ifs with hpresent
        · rw [translationEntries, translationEntries, entry_storeEntry]
        · have hempty : m₀.translationEntries 0 root i = .empty := by
            rw [translationEntries, translationEntry, if_pos (by simpa using hpresent)]
          exact (congrArg _ hzero).trans ((translationEntry_zero 0).trans hempty.symm)

end

/-- The tables that the new root leads to. -/
theorem Copying.tables {O L : List ℕ} {cnt : ℕ} {D : Fin 512 → List ℕ}
    (h : Copying m₀ live (O ++ (L ++ [k])) m) (h₀ : CopySource m₀ root live)
    (hD : SlotsCopied m₀ m 0 root k cnt L D) :
    Tables m (m₀.pageAddress k) (k :: L) (unitBlocks O ++ live) := by
  have hkL : k ∉ L := by
    have hnodup := (List.nodup_append.mp h.valid.nodup.1).2.1
    exact fun hk => (List.nodup_append.mp hnodup).2.2 k hk k (List.mem_singleton_self k) rfl
  have htree := hD.tree hkL
  refine ⟨h.valid.perm ?_, h.start ▸ h₀.start_mod, ?_, htree.tree, fun t => ?_⟩
  · simp only [unitBlocks_append, unitBlocks_cons, List.perm_iff_count, List.count_append,
      List.count_cons]
    intro b
    simp [unitBlocks]
    omega
  · rw [h.pageAddress, h.total]
    exact h₀.end_le
  · rw [htree.mem_iff t, InPages, h.pageAddress]

/-- A copy that ends at an entry of the first level, with lost pages `O`. -/
structure FailedCopy (m₀ : PhysicalMemoryManager) (live : List DyadicBlock) (root : ℕ)
    (m : PhysicalMemoryManager) (O : List ℕ) (i : Fin 512) : Prop where
  valid : Valid m (unitBlocks O ++ live)
  total : m.memoryDescriptorInfo.totalNumberOfPages = m₀.memoryDescriptorInfo.totalNumberOfPages
  copied : m₀.Pml4Copied root i
  before : ∀ j < i, m₀.Pml4Valid root j
  pagesBefore_le : m₀.pagesBefore root i ≤ m₀.memoryDescriptorInfo.numberOfFreePages
  fails : ¬ (m₀.Pml4Valid root i ∧
    m₀.pagesBefore root (i + 1) ≤ m₀.memoryDescriptorInfo.numberOfFreePages)
  lost : O = [] ↔ m₀.pagesBefore root i = m₀.memoryDescriptorInfo.numberOfFreePages

/-- There is no page for the root, or the copy succeeds, or it ends at an entry of the first level
and frees the tables that are linked. -/
theorem CopySource.copyPageMapL4Table_cases (h₀ : CopySource m₀ root live)
    (hfuel : m₀.memoryDescriptorInfo.totalNumberOfPages < fuel) :
    (m₀.copyPageMapL4Table fuel root = some (m₀, 0) ∧
      m₀.memoryDescriptorInfo.numberOfFreePages = 0) ∨
    (∃ m' k L D, m₀.copyPageMapL4Table fuel root = some (m', m₀.pageAddress k) ∧
      m₀.pageAddress k ≠ 0 ∧ Copying m₀ live (L ++ [k]) m' ∧
      SlotsCopied m₀ m' 0 root k 512 L D ∧ (∀ j, m₀.Pml4Valid root j) ∧
      m₀.pagesBefore root 512 ≤ m₀.memoryDescriptorInfo.numberOfFreePages ∧
      ∀ i : Fin 512, 256 ≤ i.val → m'.translationEntries 0 (m₀.pageAddress k) i =
        m₀.translationEntries 0 root i) ∨
    ∃ m' O i, m₀.copyPageMapL4Table fuel root = some (m', 0) ∧ FailedCopy m₀ live root m' O i := by
  rw [copyPageMapL4Table]
  rcases (Copying.refl h₀.valid).allocate h₀ with ⟨hfails, hfull⟩ |
    ⟨m₁, k, hcall, hne, -, -, hk, -, hclear⟩
  · rw [hfails]
    exact .inl ⟨rfl, hfull.symm⟩
  · obtain ⟨⟨m₂, ok⟩, L, O, cnt, D, hrun, hL, hD, htrue, hfalse⟩ :=
      copyEntries_pml4 h₀ hk hclear 512 le_rfl
    refine .inr ?_
    rw [hcall]
    split
    · rename_i m' heq
      exact absurd (Prod.mk.inj heq).2 hne
    · rename_i m' newPml4 _ heq
      obtain ⟨rfl, rfl⟩ := Prod.mk.inj heq
      rw [hrun]
      cases ok with
      | true =>
        obtain ⟨rfl, rfl, hvalid, -, hle⟩ := htrue rfl
        have hupper := copyEntries_pml4_upper h₀ hk hclear 512 le_rfl
        rw [hrun] at hupper
        exact .inl ⟨m₂, k, L, D, rfl, hne, hL, hD, fun j => hvalid j j.isLt, hle,
          fun i => hupper rfl i i.isLt⟩
      | false =>
        obtain ⟨i, hcopied, hbefore, hle, hnot, hlost⟩ := hfalse rfl
        obtain ⟨m₃, hfree, hvalid, hkeeps⟩ :=
          (hL.tables h₀ hD).freePageTableHierarchy (by rwa [hL.total])
        refine .inr ⟨m₃, O, i, ?_, hvalid, hkeeps.total.trans hL.total, hcopied, hbefore, hle, hnot,
          hlost⟩
        dsimp only
        rw [freeClonedUserPagingHierarchy, hfree, Option.map_some]

/-- A copy that fails returns all pages that it took if and only if every table of the first level
that gets a page can be copied. -/
theorem CopySource.leaksNothing_iff (h : CopySource m root live)
    (hfuel : m.memoryDescriptorInfo.totalNumberOfPages < fuel) :
    ∃ m' a, m.copyPageMapL4Table fuel root = some (m', a) ∧
      ((a = 0 → ∀ k, m'.PageFree k ↔ m.PageFree k) ↔ m.CopyLosesNothing root) := by
  rcases h.copyPageMapL4Table_cases hfuel with ⟨hrun, hnone⟩ |
    ⟨m', k, L, D, hrun, hne, -, -, hvalid, hle, -⟩ | ⟨m', O, i, hrun, hfailed⟩
  · refine ⟨m, 0, hrun, iff_of_true (fun _ _ => Iff.rfl) fun i _ _ hlt => ?_⟩
    rw [hnone] at hlt
    exact absurd hlt (Nat.not_lt_zero _)
  · refine ⟨m', _, hrun, iff_of_true (fun hzero => absurd hzero hne) fun i _ _ _ => ⟨hvalid i, ?_⟩⟩
    exact (m.pagesBefore_mono root i.isLt le_rfl).trans hle
  · refine ⟨m', 0, hrun, ?_⟩
    have hkept : (∀ k, m'.PageFree k ↔ m.PageFree k) ↔ O = [] := by
      have hiff (k : ℕ) : m.PageFree k ↔ m'.PageFree k ∨ k ∈ O :=
        hfailed.valid.pageFree_iff_of_returned h.valid hfailed.total.symm k
      refine ⟨fun hsame => List.eq_nil_iff_forall_not_mem.mpr fun k hk => ?_, ?_⟩
      · have hfree := (hsame k).mpr ((hiff k).mpr (.inr hk))
        exact ((hfailed.valid.pageFree_iff k).mp hfree).2 ⟨k, 0⟩
          (List.mem_append_left _ (mem_unitBlocks.mpr ⟨k, hk, rfl⟩)) (DyadicBlock.contains_start _)
      · rintro rfl k
        rw [hiff]
        simp
    rw [imp_iff_right rfl, hkept, hfailed.lost]
    constructor
    · intro hfull j hj hbefore hlt
      rcases lt_trichotomy j i with hji | rfl | hij
      · have hmono := m.pagesBefore_mono root (show j.val + 1 ≤ i.val from hji) i.isLt.le
        exact ⟨hfailed.before j hji, hmono.trans hfailed.pagesBefore_le⟩
      · exact absurd hfull hlt.ne
      · have hmono := m.pagesBefore_mono root (show i.val ≤ j.val from hij.le) j.isLt.le
        omega
    · intro hnothing
      by_contra hne
      have hlt := lt_of_le_of_ne hfailed.pagesBefore_le hne
      exact hfailed.fails (hnothing i hfailed.copied hfailed.before hlt)

/-- The tables of a page of 2 MiB, beside seven free pages. -/
private theorem copySource_largePage : CopySource (largePage 0x200000) 0x1000 [] := by
  obtain ⟨hvalid, hstart, hend, -⟩ := mappedTables_largePage.inUse
  have hlisted : ∀ x ∈ largePageTables, ∀ i,
      (((largePage 0x200000).sourceEntries x.1.length x.2 i).child.all fun c =>
        decide ((x.1 ++ [i], c) ∈ largePageTables)) = true := by
    decide +kernel
  have hlow : ∀ x ∈ largePageTables, x.2 < (largePage 0x200000).pageAddress 0 := by
    decide +kernel
  refine ⟨hvalid, hstart, hend, by decide +kernel, by decide, fun p t hp k _ => ?_⟩
  have hmem : (p, t) ∈ largePageTables := by
    refine mem_of_reach (by decide) (fun x hx i c hc => ?_) hp
    have hall := hlisted x hx i
    rw [hc, Option.all_some, decide_eq_true_eq] at hall
    exact hall
  have hlt := hlow _ hmem
  simp only [pageAddress] at hlt ⊢
  omega

/-- Three of seven free pages suffice for the copy. -/
theorem CopySource.leaksNothing_iff_largePage :
    ∃ m' a, (largePage 0x200000).copyPageMapL4Table 8 0x1000 = some (m', a) ∧
      ((a = 0 → ∀ k, m'.PageFree k ↔ (largePage 0x200000).PageFree k) ↔
        (largePage 0x200000).CopyLosesNothing 0x1000) :=
  CopySource.leaksNothing_iff copySource_largePage (by decide)

/-- The tables of a page of 2 MiB, beside two free pages. -/
def twoPagesLeft : PhysicalMemoryManager :=
  (((largePage 0x200000).allocatePagesFromDescriptor 4).1.allocatePagesFromDescriptor 1).1

/-- With two free pages the copy fails, and one page is lost. -/
theorem not_leaksNothing : ∃ m', twoPagesLeft.copyPageMapL4Table 8 0x1000 = some (m', 0) ∧
    twoPagesLeft.memoryDescriptorInfo.numberOfFreePages = 2 ∧
    m'.memoryDescriptorInfo.numberOfFreePages = 1 := by
  have hresult : (twoPagesLeft.copyPageMapL4Table 8 0x1000).map (fun r =>
      (r.2, twoPagesLeft.memoryDescriptorInfo.numberOfFreePages,
        r.1.memoryDescriptorInfo.numberOfFreePages)) = some (0, 2, 1) := by
    decide +kernel
  obtain ⟨⟨m', a⟩, hrun, hr⟩ := Option.map_eq_some_iff.mp hresult
  simp only [Prod.mk.injEq] at hr
  obtain ⟨rfl, hbefore, hafter⟩ := hr
  exact ⟨m', hrun, hbefore, hafter⟩

end PhysicalMemoryManager

end TwistedOS
