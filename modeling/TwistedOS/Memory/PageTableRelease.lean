import TwistedOS.Memory.PageMapping
import TwistedOS.Memory.ReturnedPages

/-!
# Freeing page tables

The tables of the lower half of an address space are freed from the last level upwards; what they
map stays. The words of a table are read while the tables below it are freed, so that the proof
follows the pages of the tables that are still allocated, whose words have not changed.

## Main definitions

* `PhysicalMemoryManager.freePageTableHierarchy`.
* `PhysicalMemoryManager.Dismantling`: the tables of which the pages `S` are still allocated.

## Main results

* `PhysicalMemoryManager.Tables.freePageTableHierarchy`: the tables are freed, and nothing else.
-/

namespace TwistedOS

open RadixTree

namespace PhysicalMemoryManager

/-- Frees one page. -/
def freePage (fuel : ℕ) (m : PhysicalMemoryManager) (address : ℕ) :
    Option PhysicalMemoryManager :=
  (m.freePagesFromDescriptor fuel address 1).map Prod.fst

/-- What `FreePageTableHierarchy` does with a present entry: the tables below it are freed and then
the table itself, unless the entry is a large page of one of the two middle levels or a null
pointer. -/
def freeEntry (fuel : ℕ) (freeBelow : PhysicalMemoryManager → ℕ → Option PhysicalMemoryManager)
    (sizeChecked : Bool) (m : PhysicalMemoryManager) (table index : ℕ) :
    Option PhysicalMemoryManager :=
  let entry := m.entry table index
  if ¬ entryPresent entry ∨ sizeChecked ∧ entrySize entry ∨ entryAddress entry = 0 then some m
  else (freeBelow m (entryAddress entry)).bind fun m => m.freePage fuel (entryAddress entry)

/-- The loop over the first `count` entries of a table. -/
def freeEntries (fuel : ℕ) (freeBelow : PhysicalMemoryManager → ℕ → Option PhysicalMemoryManager)
    (sizeChecked : Bool) (table : ℕ) :
    ℕ → PhysicalMemoryManager → Option PhysicalMemoryManager
  | 0, m => some m
  | count + 1, m =>
    (freeEntries fuel freeBelow sizeChecked table count m).bind fun m =>
      m.freeEntry fuel freeBelow sizeChecked table count

/-- The tables of the last level below a page directory. -/
def freePageTables (fuel : ℕ) (m : PhysicalMemoryManager) (pageDirectory : ℕ) :
    Option PhysicalMemoryManager :=
  freeEntries fuel (fun m _ => some m) true pageDirectory 512 m

/-- The tables below a page directory pointer table. -/
def freePageDirectories (fuel : ℕ) (m : PhysicalMemoryManager)
    (pageDirectoryPointerTable : ℕ) : Option PhysicalMemoryManager :=
  freeEntries fuel (freePageTables fuel) true pageDirectoryPointerTable 512 m

/-- Frees the tables of the lower half and the root. -/
def freePageTableHierarchy (fuel : ℕ) (m : PhysicalMemoryManager) (pageMapL4TableAddr : ℕ) :
    Option PhysicalMemoryManager :=
  if pageMapL4TableAddr = 0 then some m
  else
    (freeEntries fuel (freePageDirectories fuel) false pageMapL4TableAddr 256 m).bind fun m =>
      m.freePage fuel pageMapL4TableAddr

/-! ### The tables that are left -/

/-- The pages `S` and the blocks `rest` are allocated, and their words are those of `m₀`. -/
structure Dismantling (m₀ : PhysicalMemoryManager) (rest : List DyadicBlock) (S : List ℕ)
    (m : PhysicalMemoryManager) : Prop where
  valid : Valid m (unitBlocks S ++ rest)
  kept : Keeps m₀ m (unitBlocks S ++ rest)

/-- The page holds a table that is reached through a path that extends `p` by an index with a
property. -/
def TableBelow (m₀ : PhysicalMemoryManager) (root : ℕ) (p : List (Fin 512)) (I : Fin 512 → Prop)
    (k : ℕ) : Prop :=
  ∃ i q, I i ∧ reach m₀.lowerEntries 0 root (p ++ i :: q) = some (m₀.pageAddress k)

/-- A function frees the tables below the table at the path `p`, and these only. -/
def FreesBelow (m₀ : PhysicalMemoryManager) (rest : List DyadicBlock) (root : ℕ)
    (p : List (Fin 512)) (f : PhysicalMemoryManager → ℕ → Option PhysicalMemoryManager) : Prop :=
  ∀ m S t, Dismantling m₀ rest S m → reach m₀.lowerEntries 0 root p = some t →
    (∀ q k, reach m₀.lowerEntries 0 root (p ++ q) = some (m₀.pageAddress k) → k ∈ S) →
    ∃ m' S', f m t = some m' ∧ Dismantling m₀ rest S' m' ∧
      ∀ k, k ∈ S' ↔ k ∈ S ∧ ¬ m₀.TableBelow root p (fun _ => True) k

variable {m₀ m : PhysicalMemoryManager} {rest : List DyadicBlock} {S tables : List ℕ}
  {root t k fuel : ℕ} {p : List (Fin 512)}

namespace Dismantling

/-- The words of a table that is left. -/
theorem entry_eq (h : Dismantling m₀ rest S m) (hk : k ∈ S) (i : Fin 512) :
    m.entry (m₀.pageAddress k) i = m₀.entry (m₀.pageAddress k) i := by
  refine h.kept.memory_eq (b := ⟨k, 0⟩)
    (List.mem_append_left _ (mem_unitBlocks.mpr ⟨k, hk, rfl⟩)) (inBlock_page.mpr ?_)
  have := i.isLt
  simp only [pageSize]
  omega

theorem freePage (h : Dismantling m₀ rest S m) (hk : k ∈ S)
    (hfuel : m₀.memoryDescriptorInfo.totalNumberOfPages < fuel) :
    ∃ m' S', m.freePage fuel (m₀.pageAddress k) = some m' ∧ Dismantling m₀ rest S' m' ∧
      ∀ k', k' ∈ S' ↔ k' ∈ S ∧ k' ≠ k := by
  have hcontains (k' : ℕ) : (freedBlock k 1).Contains k' ↔ k' = k := by
    change k ≤ k' ∧ k' < k + 2 ^ 0 ↔ _
    omega
  have hend := h.valid.end_le (b := ⟨k, 0⟩)
    (List.mem_append_left _ (mem_unitBlocks.mpr ⟨k, hk, rfl⟩))
  obtain ⟨m', hrun, hvalid, hkeeps⟩ := h.valid.free_pages one_ne_zero
    (show m.FreeAccepted k 1 from ⟨Nat.zero_le _, hend, one_dvd k⟩)
    (fun k' hk' => (hcontains k').mp hk' ▸ hk) (h.kept.total ▸ hfuel)
  refine ⟨m', _, by rw [PhysicalMemoryManager.freePage, ← h.kept.pageAddress, hrun, Option.map_some],
    ⟨hvalid, ?_⟩, fun k' => by simp [hcontains]⟩
  refine h.kept.trans_mono hkeeps fun b hb => ?_
  simp only [List.mem_append, mem_unitBlocks, List.mem_filter] at hb ⊢
  exact hb.imp_left fun ⟨k', hk', hb⟩ => ⟨k', hk'.1, hb⟩

end Dismantling

/-- A page that a table is reached in is reached along one path only. -/
theorem TableBelow.not_of_reach (htree : IsTree m₀.lowerEntries root) {q : List (Fin 512)}
    {I : Fin 512 → Prop} (hq : reach m₀.lowerEntries 0 root q = some (m₀.pageAddress k))
    (hnot : ∀ i r, q = p ++ i :: r → ¬ I i) : ¬ m₀.TableBelow root p I k := by
  rintro ⟨i, r, hi, hr⟩
  exact hnot i r (htree _ _ _ hq hr) hi

/-- The loop over the entries of a table. -/
theorem freesBelow_freeEntries (htree : IsTree m₀.lowerEntries root)
    (hpage : ∀ p t, reach m₀.lowerEntries 0 root p = some t →
      ∃ k, t = m₀.pageAddress k ∧ m₀.pageAddress k ≠ 0)
    (hfuel : m₀.memoryDescriptorInfo.totalNumberOfPages < fuel)
    {freeBelow : PhysicalMemoryManager → ℕ → Option PhysicalMemoryManager} (sizeChecked : Bool)
    (hp : p.length < 3) (hsize : sizeChecked = true ↔ p.length ≠ 0)
    (hbelow : ∀ i, FreesBelow m₀ rest root (p ++ [i]) freeBelow)
    (hS : Dismantling m₀ rest S m) (ht : reach m₀.lowerEntries 0 root p = some t)
    (hheld : ∀ q k, reach m₀.lowerEntries 0 root (p ++ q) = some (m₀.pageAddress k) → k ∈ S)
    (count : ℕ) (hcount : count ≤ 512) (hroot : p.length = 0 → count ≤ 256) :
    ∃ m' S', freeEntries fuel freeBelow sizeChecked t count m = some m' ∧
      Dismantling m₀ rest S' m' ∧
      ∀ k, k ∈ S' ↔ k ∈ S ∧ ¬ m₀.TableBelow root p (fun i => i.val < count) k := by
  induction count with
  | zero => exact ⟨m, S, rfl, hS, fun k => by simp [TableBelow]⟩
  | succ count ih =>
    obtain ⟨m₁, S₁, hrun, hS₁, hmem₁⟩ := ih (by omega) (fun h => by have := hroot h; omega)
    obtain ⟨i, hi⟩ : ∃ i : Fin 512, i.val = count := ⟨⟨count, by omega⟩, rfl⟩
    obtain ⟨kt, rfl, -⟩ := hpage p t ht
    have hkt : kt ∈ S₁ := (hmem₁ kt).mpr ⟨hheld [] kt (by rwa [List.append_nil]),
      TableBelow.not_of_reach htree ht fun _ _ heq => by simp at heq⟩
    have hchild : (readEntry p.length i (m₀.entry (m₀.pageAddress kt) i)).child = _ :=
      Tables.child_readEntry_eq i p.length hp (fun h => by have := hroot h; omega)
    have hstep : freeEntries fuel freeBelow sizeChecked (m₀.pageAddress kt) (count + 1) m =
        m₁.freeEntry fuel freeBelow sizeChecked (m₀.pageAddress kt) i := by
      rw [freeEntries, hrun, Option.bind_some, hi]
    have hlast : ∀ k, m₀.TableBelow root p (fun j => j.val < count + 1) k ↔
        m₀.TableBelow root p (fun j => j.val < count) k ∨
          ∃ q, reach m₀.lowerEntries 0 root (p ++ i :: q) = some (m₀.pageAddress k) := by
      intro k
      constructor
      · rintro ⟨j, q, hj, hq⟩
        rcases Nat.lt_succ_iff_lt_or_eq.mp hj with hj | hj
        · exact .inl ⟨j, q, hj, hq⟩
        · obtain rfl : j = i := Fin.ext (hj.trans hi.symm)
          exact .inr ⟨q, hq⟩
      · rintro (⟨j, q, hj, hq⟩ | ⟨q, hq⟩)
        · exact ⟨j, q, Nat.lt_succ_of_lt hj, hq⟩
        · exact ⟨i, q, by omega, hq⟩
    rw [hstep, freeEntry, hS₁.entry_eq hkt]
    by_cases hpresent : entryPresent (m₀.entry (m₀.pageAddress kt) i) = true ∧
        (p.length = 0 ∨ entrySize (m₀.entry (m₀.pageAddress kt) i) = false)
    · -- the entry names a table: what is below it is freed, and then the table
      rw [if_pos hpresent] at hchild
      have hreach : reach m₀.lowerEntries 0 root (p ++ [i]) =
          some (entryAddress (m₀.entry (m₀.pageAddress kt) i)) :=
        (reach_concat ht i).trans hchild
      obtain ⟨kc, hkc, hne⟩ := hpage _ _ hreach
      rw [hkc] at hreach ⊢
      rw [if_neg (by rcases hpresent with ⟨h₁, h₂ | h₂⟩ <;> simp_all)]
      have hin₁ : ∀ q k, reach m₀.lowerEntries 0 root (p ++ [i] ++ q) = some (m₀.pageAddress k) →
          k ∈ S₁ := by
        intro q k hq
        rw [List.append_assoc, List.singleton_append] at hq
        refine (hmem₁ k).mpr ⟨hheld _ k hq, TableBelow.not_of_reach htree hq fun j r heq => ?_⟩
        obtain ⟨rfl, -⟩ := List.cons.inj (List.append_cancel_left heq)
        omega
      obtain ⟨m₂, S₂, hrun₂, hS₂, hmem₂⟩ := hbelow i m₁ S₁ _ hS₁ hreach hin₁
      have hkc₂ : kc ∈ S₂ := (hmem₂ kc).mpr ⟨hin₁ [] kc (by rwa [List.append_nil]),
        TableBelow.not_of_reach htree hreach fun _ _ heq => by simp at heq⟩
      obtain ⟨m₃, S₃, hrun₃, hS₃, hmem₃⟩ := hS₂.freePage hkc₂ hfuel
      refine ⟨m₃, S₃, by rw [hrun₂, Option.bind_some, hrun₃], hS₃, fun k => ?_⟩
      rw [hmem₃, hmem₂, hmem₁, hlast, not_or, and_assoc, and_assoc, and_congr_right_iff]
      refine fun _ => and_congr_right fun _ => ?_
      constructor
      · rintro ⟨hnot, hk⟩ ⟨q, hq⟩
        cases q with
        | nil => exact hk (m₀.pageAddress_injective (Option.some.inj (hq.symm.trans hreach)))
        | cons j q => exact hnot ⟨j, q, trivial, by simpa using hq⟩
      · refine fun hnot => ⟨?_, ?_⟩
        · rintro ⟨j, q, -, hq⟩
          exact hnot ⟨j :: q, by simpa using hq⟩
        · rintro rfl
          exact hnot ⟨[], hreach⟩
    · -- nothing is below the entry
      rw [if_neg hpresent] at hchild
      have hskip : ¬ entryPresent (m₀.entry (m₀.pageAddress kt) i) ∨
          sizeChecked ∧ entrySize (m₀.entry (m₀.pageAddress kt) i) ∨
          entryAddress (m₀.entry (m₀.pageAddress kt) i) = 0 := by
        by_cases hentry : entryPresent (m₀.entry (m₀.pageAddress kt) i) = true
        · simp only [hentry, true_and, not_or, Bool.not_eq_false] at hpresent
          exact .inr (.inl ⟨hsize.mpr hpresent.1, hpresent.2⟩)
        · exact .inl hentry
      rw [if_pos hskip]
      refine ⟨m₁, S₁, rfl, hS₁, fun k => ?_⟩
      rw [hmem₁, hlast, not_or, and_congr_right_iff]
      refine fun _ => ⟨fun hnot => ⟨hnot, ?_⟩, fun hnot => hnot.1⟩
      rintro ⟨q, hq⟩
      rw [reach_append, ht, Option.bind_some, Nat.zero_add, reach] at hq
      change (readEntry _ _ _).child.bind _ = _ at hq
      rw [hchild] at hq
      simp at hq

/-- No table is below one of the last level. -/
theorem not_tableBelow_of_length (hp : p.length = 3) (I : Fin 512 → Prop) :
    ¬ m₀.TableBelow root p I k := by
  rintro ⟨i, q, -, hq⟩
  obtain ⟨t, ht, hq⟩ := Option.bind_eq_some_iff.mp ((reach_append p (i :: q)).symm.trans hq)
  rw [Nat.zero_add, hp, reach] at hq
  obtain ⟨c, hc, -⟩ := Option.bind_eq_some_iff.mp hq
  change (readEntry 3 i _).child = some c at hc
  unfold readEntry at hc
  split_ifs at hc <;> simp_all

namespace Tables

/-- The tables of an address space are freed, and nothing else. -/
theorem freePageTableHierarchy (h : Tables m₀ root tables rest)
    (hfuel : m₀.memoryDescriptorInfo.totalNumberOfPages < fuel) :
    ∃ m', m₀.freePageTableHierarchy fuel root = some m' ∧ Valid m' rest ∧ Keeps m₀ m' rest := by
  have hpage : ∀ p t, reach m₀.lowerEntries 0 root p = some t →
      ∃ k, t = m₀.pageAddress k ∧ m₀.pageAddress k ≠ 0 := by
    intro p t hp
    obtain ⟨k, hk, rfl⟩ := h.page_of_reach hp
    exact ⟨k, rfl, (h.pageAddress_spec (h.lt_total hk)).2.2⟩
  have hlevel {p : List (Fin 512)} {f : PhysicalMemoryManager → ℕ → Option PhysicalMemoryManager}
      (hp : p.length < 3) (hne : p.length ≠ 0)
      (hbelow : ∀ i, FreesBelow m₀ rest root (p ++ [i]) f) :
      FreesBelow m₀ rest root p fun m t => freeEntries fuel f true t 512 m := by
    intro m S t hS ht hheld
    obtain ⟨m', S', hrun, hS', hmem⟩ := freesBelow_freeEntries h.tree hpage hfuel true hp
      (by simpa using hne) hbelow hS ht hheld 512 le_rfl (fun hzero => absurd hzero hne)
    exact ⟨m', S', hrun, hS', by simpa [Fin.isLt] using hmem⟩
  have hdirectory (i j : Fin 512) : FreesBelow m₀ rest root [i, j] (freePageTables fuel) := by
    refine hlevel (by simp) (by simp) fun l m S t hS _ _ => ⟨m, S, rfl, hS, fun k => ?_⟩
    exact (and_iff_left (not_tableBelow_of_length rfl _)).symm
  have hpointer (i : Fin 512) : FreesBelow m₀ rest root [i] (freePageDirectories fuel) :=
    hlevel (by simp) (by simp) fun j => hdirectory i j
  have hstart : Dismantling m₀ rest tables m₀ := ⟨h.valid, .refl _ _ _⟩
  have hheld : ∀ q k, reach m₀.lowerEntries 0 root ([] ++ q) = some (m₀.pageAddress k) →
      k ∈ tables := by
    intro q k hq
    obtain ⟨k', hk', heq⟩ := h.page_of_reach hq
    rwa [m₀.pageAddress_injective heq]
  obtain ⟨kr, hkr, hroot⟩ := h.page_of_reach (p := []) rfl
  obtain ⟨m₁, S₁, hrun₁, hS₁, hmem₁⟩ := freesBelow_freeEntries (p := []) h.tree hpage hfuel
    false (by simp) (by simp) hpointer hstart rfl hheld 256 (by decide) (fun _ => le_rfl)
  have hkr₁ : kr ∈ S₁ := (hmem₁ kr).mpr ⟨hkr, TableBelow.not_of_reach h.tree
    (q := []) (by rw [reach, hroot]) fun _ _ heq => by simp at heq⟩
  obtain ⟨m₂, S₂, hrun₂, hS₂, hmem₂⟩ := hS₁.freePage hkr₁ hfuel
  obtain rfl : S₂ = [] := by
    refine List.eq_nil_iff_forall_not_mem.mpr fun k hk => ?_
    obtain ⟨hk, hne⟩ := (hmem₂ k).mp hk
    obtain ⟨hk, hnot⟩ := (hmem₁ k).mp hk
    obtain ⟨q, hq⟩ := (h.mem_iff _).mpr ⟨k, hk, rfl⟩
    cases q with
    | nil =>
      refine hne (m₀.pageAddress_injective ?_)
      rw [← hroot]
      exact (Option.some.inj hq).symm
    | cons i q =>
      refine hnot ⟨i, q, ?_, hq⟩
      by_contra hlt
      rw [reach] at hq
      change (readEntry 0 i _).child.bind _ = _ at hq
      rw [readEntry, if_pos ⟨rfl, by omega⟩] at hq
      simp at hq
  refine ⟨m₂, ?_, hS₂.valid, hS₂.kept⟩
  rw [PhysicalMemoryManager.freePageTableHierarchy, if_neg, hrun₁, Option.bind_some, hroot, hrun₂]
  rw [hroot]
  exact (h.pageAddress_spec (h.lt_total hkr)).2.2

end Tables

end PhysicalMemoryManager

end TwistedOS
