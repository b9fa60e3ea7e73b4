import Mathlib.Data.List.GetD
import Mathlib.Data.List.Nodup
import Mathlib.Data.List.Perm.Basic
import Mathlib.Order.Interval.Finset.Nat

/-!
# Ranges merged with the ranges that they touch

A collection of half-open ranges is kept such that no two of them touch. A new range is merged with
one that it touches, which leaves the collection, until it touches none. The ranges of such a
collection are the maximal runs of consecutive numbers among the numbers that they cover.

## Main definitions

* `TouchingRanges.insertRange`: the collection with a new range.
* `TouchingRanges.IsRun`: a maximal run of consecutive numbers.

## Main results

* `TouchingRanges.covered_insertRange`, `TouchingRanges.apart_insertRange`.
* `TouchingRanges.mem_iff_isRun`: the ranges are the maximal runs.
-/

namespace TwistedOS

namespace TouchingRanges

/-- Two ranges overlap or one begins where the other ends. -/
def Touch (r q : ℕ × ℕ) : Prop := r.1 ≤ q.2 ∧ q.1 ≤ r.2

instance (r q : ℕ × ℕ) : Decidable (Touch r q) := inferInstanceAs (Decidable (_ ∧ _))

/-- The smallest range around two ranges. -/
def hull (r q : ℕ × ℕ) : ℕ × ℕ := (min q.1 r.1, max q.2 r.2)

/-- Removes the entry at an index by moving the last entry there. -/
def swapRemove (l : List (ℕ × ℕ)) (i : ℕ) : List (ℕ × ℕ) :=
  (l.set i (l.getLastD (0, 0))).dropLast

/-- Merges a range with the first range that it touches, as long as there is one, for at most
`steps` times. -/
def mergeTouching : ℕ → ℕ × ℕ → List (ℕ × ℕ) → (ℕ × ℕ) × List (ℕ × ℕ)
  | 0, r, l => (r, l)
  | steps + 1, r, l =>
    match l.findIdx? fun q => decide (Touch r q) with
    | none => (r, l)
    | some i => mergeTouching steps (hull r (l.getD i (0, 0))) (swapRemove l i)

/-- The collection with a new range behind the others. -/
def insertRange (l : List (ℕ × ℕ)) (r : ℕ × ℕ) : List (ℕ × ℕ) :=
  (mergeTouching l.length r l).2 ++ [(mergeTouching l.length r l).1]

/-- The numbers of a range. -/
def InRange (r : ℕ × ℕ) (a : ℕ) : Prop := r.1 ≤ a ∧ a < r.2

/-- The numbers of the ranges. -/
def Covered (l : List (ℕ × ℕ)) (a : ℕ) : Prop := ∃ r ∈ l, InRange r a

/-- No range is empty, and no two touch. -/
structure Apart (l : List (ℕ × ℕ)) : Prop where
  nonempty : ∀ r ∈ l, r.1 < r.2
  pairwise : l.Pairwise fun r q => ¬ Touch r q

/-- A maximal run of consecutive numbers with a property. -/
structure IsRun (p : ℕ → Prop) (start stop : ℕ) : Prop where
  lt : start < stop
  inside : ∀ a, start ≤ a → a < stop → p a
  before : ∀ a, a + 1 = start → ¬ p a
  behind : ¬ p stop

variable {l l' : List (ℕ × ℕ)} {r q : ℕ × ℕ} {i a : ℕ}

theorem Touch.symm (h : Touch r q) : Touch q r := ⟨h.2, h.1⟩

theorem inRange_hull (h : Touch r q) :
    InRange (hull r q) a ↔ InRange r a ∨ InRange q a := by
  simp only [InRange, hull, Touch] at *
  omega

theorem hull_lt (hr : r.1 < r.2) : (hull r q).1 < (hull r q).2 := by
  simp only [hull]
  omega

/-- Moving the last entry keeps the other entries. -/
theorem swapRemove_perm (hi : i < l.length) :
    l.Perm (l.getD i (0, 0) :: swapRemove l i) := by
  rcases List.eq_nil_or_concat l with rfl | ⟨init, last, rfl⟩
  · simp at hi
  rw [List.concat_eq_append] at hi ⊢
  rw [List.length_append, List.length_singleton] at hi
  rw [swapRemove, List.getLastD_concat]
  rcases Nat.lt_succ_iff_lt_or_eq.mp hi with hlt | rfl
  · have hold : init.Perm (init[i] :: init.eraseIdx i) :=
      (List.getElem_cons_eraseIdx_perm hlt).symm
    have hnew : (init.set i last).Perm (last :: init.eraseIdx i) := by
      have h := List.getElem_cons_eraseIdx_perm (l := init.set i last) (n := i) (by simpa using hlt)
      rw [List.getElem_set_self, List.eraseIdx_set_eq] at h
      exact h.symm
    rw [List.set_append_left _ _ hlt, List.dropLast_concat, List.getD_append _ _ _ _ hlt,
      List.getD_eq_getElem _ _ hlt]
    refine (List.perm_append_singleton last init).trans ((hold.cons last).trans ?_)
    exact (List.Perm.swap ..).trans (hnew.symm.cons _)
  · rw [List.set_append_right _ _ le_rfl, Nat.sub_self, List.set_cons_zero,
      List.dropLast_concat, List.getD_append_right _ _ _ _ le_rfl, Nat.sub_self,
      List.getD_cons_zero]
    exact List.perm_append_singleton last init

theorem apart_perm (h : l.Perm l') (hl : Apart l) : Apart l' where
  nonempty r hr := hl.nonempty r (h.mem_iff.mpr hr)
  pairwise := (h.pairwise_iff fun hrq hqr => hrq hqr.symm).mp hl.pairwise

theorem covered_perm (h : l.Perm l') : Covered l' a ↔ Covered l a := by
  simp only [Covered, h.mem_iff]

theorem covered_cons : Covered (r :: l) a ↔ InRange r a ∨ Covered l a := by
  simp [Covered]

/-- What merging does: the result covers what was covered before, and touches nothing any more. -/
theorem mergeTouching_spec {steps : ℕ} (hsteps : l.length ≤ steps) (hl : Apart l)
    (hr : r.1 < r.2) :
    Apart ((mergeTouching steps r l).1 :: (mergeTouching steps r l).2) ∧
      ∀ a, Covered ((mergeTouching steps r l).1 :: (mergeTouching steps r l).2) a ↔
        Covered (r :: l) a := by
  induction steps generalizing r l with
  | zero =>
    obtain rfl : l = [] := List.eq_nil_of_length_eq_zero (by omega)
    exact ⟨⟨by simpa [mergeTouching] using hr, by simp [mergeTouching]⟩, fun a => Iff.rfl⟩
  | succ steps ih =>
    unfold mergeTouching
    cases hfind : l.findIdx? fun q => decide (Touch r q) with
    | none =>
      have hnone : ∀ q ∈ l, ¬ Touch r q := by simpa using List.findIdx?_eq_none_iff.mp hfind
      exact ⟨⟨List.forall_mem_cons.mpr ⟨hr, hl.nonempty⟩,
        List.pairwise_cons.mpr ⟨hnone, hl.pairwise⟩⟩, fun a => Iff.rfl⟩
    | some i =>
      obtain ⟨hi, htouch, -⟩ := List.findIdx?_eq_some_iff_getElem.mp hfind
      have hperm := swapRemove_perm hi
      rw [List.getD_eq_getElem _ _ hi] at hperm
      dsimp only
      rw [List.getD_eq_getElem _ _ hi]
      have htouch : Touch r l[i] := by simpa using htouch
      have hrest := apart_perm hperm hl
      have hapart : Apart (swapRemove l i) :=
        ⟨fun q hq => hrest.nonempty q (List.mem_cons_of_mem _ hq),
          (List.pairwise_cons.mp hrest.pairwise).2⟩
      have hlength := hperm.length_eq
      rw [List.length_cons] at hlength
      obtain ⟨hresult, hcovered⟩ := ih (by omega) hapart (hull_lt (q := l[i]) hr)
      refine ⟨hresult, fun a => (hcovered a).trans ?_⟩
      rw [covered_cons, covered_cons, inRange_hull htouch, or_assoc,
        ← covered_cons (l := swapRemove l i), covered_perm hperm.symm]

theorem Apart.nodup (hl : Apart l) : l.Nodup :=
  hl.pairwise.imp_of_mem fun {r q} hr _ hapart heq => by
    subst heq
    exact hapart ⟨(hl.nonempty r hr).le, (hl.nonempty r hr).le⟩

/-- A symmetric relation between all ranges of a collection. -/
theorem Apart.pairwise_iff (hl : Apart l) {R : ℕ × ℕ → ℕ × ℕ → Prop} [Std.Symm R] :
    l.Pairwise R ↔ ∀ r ∈ l, ∀ q ∈ l, r ≠ q → R r q :=
  ⟨fun h _ hr _ hq hne => h.forall hr hq hne, fun h => hl.nodup.pairwise_of_forall_ne h⟩

variable (hl : Apart l) (hr : r.1 < r.2)

include hl hr

theorem apart_insertRange : Apart (insertRange l r) :=
  apart_perm (List.perm_append_singleton _ _).symm (mergeTouching_spec le_rfl hl hr).1

theorem covered_insertRange : Covered (insertRange l r) a ↔ InRange r a ∨ Covered l a :=
  (covered_perm (List.perm_append_singleton _ _).symm).trans
    (((mergeTouching_spec le_rfl hl hr).2 a).trans covered_cons)

omit hl hr in
theorem length_mergeTouching_le (steps : ℕ) (r : ℕ × ℕ) (l : List (ℕ × ℕ)) :
    (mergeTouching steps r l).2.length ≤ l.length := by
  induction steps generalizing r l with
  | zero => exact le_rfl
  | succ steps ih =>
    unfold mergeTouching
    split
    · exact le_rfl
    · refine (ih _ _).trans ?_
      rw [swapRemove, List.length_dropLast, List.length_set]
      exact Nat.sub_le _ _

omit hl hr in
theorem length_insertRange_le (l : List (ℕ × ℕ)) (r : ℕ × ℕ) :
    (insertRange l r).length ≤ l.length + 1 := by
  rw [insertRange, List.length_append, List.length_singleton]
  exact Nat.succ_le_succ (length_mergeTouching_le _ _ _)

omit hl hr in
/-- Properties of the ends of ranges are inherited by the merged ranges. -/
theorem forall_mergeTouching {P : ℕ → Prop} {steps : ℕ} (hr : P r.1 ∧ P r.2)
    (hl : ∀ q ∈ l, P q.1 ∧ P q.2) (hsteps : l.length ≤ steps) :
    ∀ q ∈ (mergeTouching steps r l).1 :: (mergeTouching steps r l).2, P q.1 ∧ P q.2 := by
  induction steps generalizing r l with
  | zero => exact List.forall_mem_cons.mpr ⟨hr, hl⟩
  | succ steps ih =>
    unfold mergeTouching
    cases hfind : l.findIdx? fun q => decide (Touch r q) with
    | none => exact List.forall_mem_cons.mpr ⟨hr, hl⟩
    | some i =>
      obtain ⟨hi, -⟩ := List.findIdx?_eq_some_iff_getElem.mp hfind
      have hperm := swapRemove_perm hi
      rw [List.getD_eq_getElem _ _ hi] at hperm
      dsimp only
      rw [List.getD_eq_getElem _ _ hi]
      obtain ⟨hhead, htail⟩ := List.forall_mem_cons.mp fun q hq =>
        hl q (hperm.mem_iff.mpr hq)
      have hlength := hperm.length_eq
      rw [List.length_cons] at hlength
      refine ih ⟨?_, ?_⟩ htail (by omega)
      · exact (min_choice l[i].1 r.1).elim (fun h => by rw [hull, h]; exact hhead.1)
          fun h => by rw [hull, h]; exact hr.1
      · exact (max_choice l[i].2 r.2).elim (fun h => by rw [hull, h]; exact hhead.2)
          fun h => by rw [hull, h]; exact hr.2

omit hl hr in
theorem forall_insertRange {P : ℕ → Prop} (hr : P r.1 ∧ P r.2)
    (hl : ∀ q ∈ l, P q.1 ∧ P q.2) : ∀ q ∈ insertRange l r, P q.1 ∧ P q.2 := fun q hq =>
  forall_mergeTouching hr hl le_rfl q ((List.perm_append_singleton _ _).mem_iff.mp hq)

omit hr in
/-- Parts of the ranges of a collection, with parts of one range that are apart. -/
theorem apart_flatMap {f : ℕ × ℕ → List (ℕ × ℕ)} (hf : ∀ r ∈ l, Apart (f r))
    (hsub : ∀ r ∈ l, ∀ q ∈ f r, r.1 ≤ q.1 ∧ q.2 ≤ r.2) : Apart (l.flatMap f) where
  nonempty q hq := by
    obtain ⟨r, hr, hq⟩ := List.mem_flatMap.mp hq
    exact (hf r hr).nonempty q hq
  pairwise := by
    refine List.pairwise_flatMap.mpr ⟨fun r hr => (hf r hr).pairwise, ?_⟩
    refine hl.pairwise.imp_of_mem fun {r r'} hr hr' hapart q hq q' hq' htouch => hapart ?_
    have h₁ := hsub r hr q hq
    have h₂ := hsub r' hr' q' hq'
    exact ⟨h₁.1.trans (htouch.1.trans h₂.2), h₂.1.trans (htouch.2.trans h₁.2)⟩

/-! ### Runs -/

omit hl hr in
/-- Two maximal runs with a common number are the same. -/
theorem IsRun.eq {p : ℕ → Prop} {s e s' e' : ℕ} (h : IsRun p s e) (h' : IsRun p s' e')
    (ha : s ≤ a ∧ a < e) (ha' : s' ≤ a ∧ a < e') : s = s' ∧ e = e' := by
  have hstart {s e s' e' : ℕ} (h : IsRun p s e) (h' : IsRun p s' e') (ha : s ≤ a ∧ a < e)
      (ha' : s' ≤ a ∧ a < e') : s' ≤ s := by
    by_contra hlt
    exact h'.before (s' - 1) (by omega) (h.inside (s' - 1) (by omega) (by omega))
  have hstop {s e s' e' : ℕ} (h : IsRun p s e) (h' : IsRun p s' e') (ha : s ≤ a ∧ a < e)
      (ha' : s' ≤ a ∧ a < e') : e ≤ e' := by
    by_contra hlt
    exact h'.behind (h.inside e' (by omega) (by omega))
  exact ⟨le_antisymm (hstart h' h ha' ha) (hstart h h' ha ha'),
    le_antisymm (hstop h h' ha ha') (hstop h' h ha' ha)⟩

omit hr in
/-- A range of a collection is a maximal run of the covered numbers. -/
theorem isRun_of_mem (h : r ∈ l) : IsRun (Covered l) r.1 r.2 := by
  have hother : ∀ q ∈ l, q = r ∨ ¬ Touch r q := by
    intro q hq
    rcases eq_or_ne q r with heq | hne
    · exact .inl heq
    · have : Std.Symm fun r q : ℕ × ℕ => ¬ Touch r q := ⟨fun _ _ hrq hqr => hrq hqr.symm⟩
      exact .inr (hl.pairwise.forall h hq hne.symm)
  refine ⟨hl.nonempty r h, fun a hstart hstop => ⟨r, h, hstart, hstop⟩, ?_, ?_⟩
  · rintro a hstart ⟨q, hq, hin⟩
    rcases hother q hq with rfl | hapart
    · exact absurd hin.1 (by omega)
    · exact hapart ⟨by have := hin.2; omega, by have := hin.1; have := hl.nonempty r h; omega⟩
  · rintro ⟨q, hq, hin⟩
    rcases hother q hq with rfl | hapart
    · exact absurd hin.2 (by omega)
    · exact hapart ⟨by have := hin.2; have := hl.nonempty r h; omega, hin.1⟩

omit hr in
/-- The ranges of a collection are the maximal runs of the covered numbers. -/
theorem mem_iff_isRun {s e : ℕ} : (s, e) ∈ l ↔ IsRun (Covered l) s e := by
  refine ⟨fun h => isRun_of_mem hl h, fun h => ?_⟩
  obtain ⟨r, hr, hin⟩ := h.inside s le_rfl h.lt
  obtain ⟨hs, he⟩ := h.eq (isRun_of_mem hl hr) ⟨le_rfl, h.lt⟩ hin
  rwa [hs, he]

end TouchingRanges

end TwistedOS
