import Mathlib.Data.List.Basic

/-!
# Lines in a list

A separator cuts a list into lines; the last line may be unfinished.

## Main definitions

* `DelimitedLines.completed`: the number of elements up to the last separator.
* `DelimitedLines.firstLine`: the number of elements of the first line, its separator included.

## Main results

* `DelimitedLines.completed_append_singleton`, `DelimitedLines.completed_drop`.
* `DelimitedLines.notMem_dropLast_take`: a part of the first line has no separator before its end.
-/

namespace TwistedOS

namespace DelimitedLines

variable {α : Type*} [DecidableEq α] (sep : α)

/-- The number of elements up to the last separator. -/
def completed : List α → ℕ
  | [] => 0
  | a :: l => if a = sep ∨ completed l ≠ 0 then completed l + 1 else 0

/-- The number of elements up to the first separator. -/
def firstLine : List α → ℕ
  | [] => 0
  | a :: l => if a = sep then 1 else firstLine l + 1

variable {sep} {a : α} {l : List α} {n : ℕ}

theorem completed_le_length (sep : α) (l : List α) : completed sep l ≤ l.length := by
  induction l with
  | nil => exact Nat.le_refl _
  | cons a l ih =>
    rw [completed, List.length_cons]
    split_ifs
    · exact Nat.succ_le_succ ih
    · exact Nat.zero_le _

theorem completed_eq_zero_iff : completed sep l = 0 ↔ sep ∉ l := by
  induction l with
  | nil => simp [completed]
  | cons a l ih =>
    rw [completed, List.mem_cons, not_or, ← ih]
    by_cases h : a = sep ∨ completed sep l ≠ 0
    · rw [if_pos h]
      refine iff_of_false (Nat.succ_ne_zero _) fun hboth => ?_
      exact h.elim (fun heq => hboth.1 heq.symm) fun hne => hne hboth.2
    · rw [if_neg h]
      push Not at h
      exact iff_of_true rfl ⟨fun heq => h.1 heq.symm, h.2⟩

/-- A separator completes the list; any other element leaves the last line unfinished. -/
theorem completed_append_singleton (sep : α) (l : List α) (a : α) :
    completed sep (l ++ [a]) = if a = sep then l.length + 1 else completed sep l := by
  induction l with
  | nil => simp [completed]
  | cons b l ih =>
    rw [List.cons_append, completed, ih]
    by_cases ha : a = sep
    · simp [ha]
    · simp only [ha, if_false, completed]

theorem completed_drop (l : List α) (n : ℕ) :
    completed sep (l.drop n) = completed sep l - n := by
  induction l generalizing n with
  | nil => simp [completed]
  | cons a l ih =>
    cases n with
    | zero => rfl
    | succ n =>
      rw [List.drop_succ_cons, ih, completed]
      split_ifs with h
      · omega
      · push Not at h
        omega

/-- The last element of an unfinished line. -/
theorem exists_eq_append_of_completed_lt (h : completed sep l < l.length) :
    ∃ l' a, l = l' ++ [a] ∧ a ≠ sep := by
  obtain ⟨l', a, rfl⟩ := (List.eq_nil_or_concat l).resolve_left fun hnil => by simp [hnil] at h
  rw [List.concat_eq_append] at *
  refine ⟨l', a, rfl, fun ha => ?_⟩
  rw [completed_append_singleton, if_pos ha, List.length_append, List.length_singleton] at h
  exact Nat.lt_irrefl _ h

/-- The last element of a finished line. -/
theorem completed_eq_length_of_last {l' : List α} (h : completed sep l = l.length)
    (hl : l = l' ++ [a]) : a = sep := by
  by_contra ha
  rw [hl, completed_append_singleton, if_neg ha, List.length_append, List.length_singleton] at h
  have := completed_le_length sep l'
  omega

/-- With one separator at most, what is completed is the first line. -/
theorem completed_le_firstLine (h : l.count sep ≤ 1) : completed sep l ≤ firstLine sep l := by
  induction l with
  | nil => exact Nat.le_refl _
  | cons a l ih =>
    rw [completed, firstLine]
    by_cases ha : a = sep
    · rw [ha, List.count_cons_self] at h
      have hnone : sep ∉ l := List.count_eq_zero.mp (by omega)
      refine Nat.le_of_eq ?_
      rw [if_pos (.inl ha), if_pos ha, completed_eq_zero_iff.mpr hnone, Nat.zero_add]
    · rw [List.count_cons_of_ne ha] at h
      rw [if_neg ha]
      have := ih h
      split_ifs <;> omega

/-- A part of the first line has no separator before its end. -/
theorem notMem_dropLast_take (h : n ≤ firstLine sep l) : sep ∉ (l.take n).dropLast := by
  induction l generalizing n with
  | nil => simp
  | cons a l ih =>
    cases n with
    | zero => simp
    | succ n =>
      rw [firstLine] at h
      rw [List.take_succ_cons]
      split_ifs at h with ha
      · obtain rfl : n = 0 := by omega
        simp
      · rcases hrest : l.take n with _ | ⟨b, rest⟩
        · simp
        · rw [List.dropLast_cons_of_ne_nil (List.cons_ne_nil _ _), List.mem_cons, not_or, ← hrest]
          exact ⟨fun heq => ha heq.symm, ih (Nat.le_of_succ_le_succ h)⟩

end DelimitedLines

end TwistedOS
