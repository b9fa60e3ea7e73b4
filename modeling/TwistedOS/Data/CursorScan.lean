import Mathlib.Data.List.DropRight
import Mathlib.Data.List.Infix
import Mathlib.Tactic.SplitIfs

/-!
# Scans with a cursor

Loops that move a cursor over a memory as long as the element under it, or before it, has a
property. What is passed over and what is left are the parts of a window into which lists are cut by
the same property, so that nothing outside the window has a say.

## Main definitions

* `window`: the elements of a memory between two places.
* `advanceWhile`, `retreatWhile`: the loops.

## Main results

* `window_advanceWhile`, `window_advanceWhile_end`, `window_retreatWhile`.
-/

namespace TwistedOS

variable {α : Type*}

/-- The elements of a memory from one place up to another. -/
def window (memory : ℕ → α) (start stop : ℕ) : List α :=
  (List.range' start (stop - start)).map memory

/-- Moves a cursor on, up to an end, while the element under it has a property. -/
def advanceWhile (p : α → Bool) (memory : ℕ → α) (stop cursor : ℕ) : ℕ :=
  if _h : cursor < stop then
    if p (memory cursor) then advanceWhile p memory stop (cursor + 1) else cursor
  else cursor
termination_by stop - cursor

/-- Moves a cursor back, down to a start, while the element before it has a property. -/
def retreatWhile (p : α → Bool) (memory : ℕ → α) (start : ℕ) : ℕ → ℕ
  | 0 => 0
  | cursor + 1 =>
    if start < cursor + 1 ∧ p (memory cursor) then retreatWhile p memory start cursor
    else cursor + 1

variable {p : α → Bool} {memory other : ℕ → α} {start stop cursor : ℕ}

theorem window_of_le (h : stop ≤ start) : window memory start stop = [] := by
  rw [window, Nat.sub_eq_zero_of_le h, List.range'_zero, List.map_nil]

/-- A window begins with the element at its start. -/
theorem window_of_lt (h : start < stop) :
    window memory start stop = memory start :: window memory (start + 1) stop := by
  rw [window, window, show stop - start = stop - (start + 1) + 1 by omega, List.range'_succ,
    List.map_cons]

/-- A window ends with the element before its end. -/
theorem window_succ (h : start ≤ stop) :
    window memory start (stop + 1) = window memory start stop ++ [memory stop] := by
  rw [window, window, Nat.succ_sub h, List.range'_concat, List.map_append, List.map_singleton,
    Nat.one_mul, Nat.add_sub_cancel' h]

/-- A window without its first elements. -/
theorem drop_window {n : ℕ} : (window memory start stop).drop n = window memory (start + n) stop := by
  rw [window, window, ← List.map_drop, List.drop_range', Nat.mul_one, Nat.sub_sub]

theorem le_advanceWhile : cursor ≤ advanceWhile p memory stop cursor := by
  fun_induction advanceWhile p memory stop cursor with
  | case1 cursor _ _ ih => exact (Nat.le_succ cursor).trans ih
  | case2 => exact Nat.le_refl _
  | case3 => exact Nat.le_refl _

theorem advanceWhile_le (h : cursor ≤ stop) : advanceWhile p memory stop cursor ≤ stop := by
  fun_induction advanceWhile p memory stop cursor with
  | case1 cursor hlt _ ih => exact ih hlt
  | case2 => exact h
  | case3 => exact h

/-- What a cursor is moved over is the longest part at the front of the window whose elements have
the property. -/
theorem window_advanceWhile :
    window memory cursor (advanceWhile p memory stop cursor) =
      (window memory cursor stop).takeWhile p := by
  fun_induction advanceWhile p memory stop cursor with
  | case1 cursor hlt hp ih =>
    have hle : cursor + 1 ≤ advanceWhile p memory stop (cursor + 1) := le_advanceWhile
    rw [window_of_lt hlt, List.takeWhile_cons_of_pos hp, ← ih]
    exact window_of_lt hle
  | case2 cursor hlt hp =>
    rw [window_of_lt hlt, List.takeWhile_cons_of_neg hp, window_of_le (Nat.le_refl _)]
  | case3 cursor hlt =>
    rw [window_of_le (Nat.le_refl _), window_of_le (Nat.le_of_not_lt hlt), List.takeWhile_nil]

/-- What is left is the rest of the window. -/
theorem window_advanceWhile_end :
    window memory (advanceWhile p memory stop cursor) stop =
      (window memory cursor stop).dropWhile p := by
  fun_induction advanceWhile p memory stop cursor with
  | case1 cursor hlt hp ih => rw [ih, window_of_lt hlt, List.dropWhile_cons_of_pos hp]
  | case2 cursor hlt hp => rw [window_of_lt hlt, List.dropWhile_cons_of_neg hp]
  | case3 cursor hlt => rw [window_of_le (Nat.le_of_not_lt hlt), List.dropWhile_nil]

/-- What is left when a cursor is moved back is the window without the elements at its end that have
the property. -/
theorem window_retreatWhile (h : start ≤ cursor) :
    window memory start (retreatWhile p memory start cursor) =
      (window memory start cursor).rdropWhile p := by
  induction cursor with
  | zero => rw [retreatWhile, window_of_le (Nat.zero_le _), List.rdropWhile_nil]
  | succ cursor ih =>
    rw [retreatWhile]
    rcases Nat.lt_or_ge start (cursor + 1) with hlt | hge
    · have hle : start ≤ cursor := Nat.le_of_lt_succ hlt
      rw [window_succ hle]
      split_ifs with hp
      · rw [ih hle, List.rdropWhile_concat_pos p _ _ hp.2]
      · rw [window_succ hle, List.rdropWhile_concat_neg p _ _ fun hlast => hp ⟨hlt, hlast⟩]
    · rw [if_neg fun hp => absurd hp.1 (Nat.not_lt.mpr hge), window_of_le hge,
        List.rdropWhile_nil]

/-! ### Reading nothing but the window -/

theorem advanceWhile_congr (h : ∀ i < stop, memory i = other i) :
    advanceWhile p memory stop cursor = advanceWhile p other stop cursor := by
  fun_induction advanceWhile p memory stop cursor with
  | case1 cursor hlt hp ih =>
    rw [ih, advanceWhile.eq_def p other stop cursor, dif_pos hlt, if_pos (h cursor hlt ▸ hp)]
  | case2 cursor hlt hp =>
    rw [advanceWhile, dif_pos hlt, if_neg (h cursor hlt ▸ hp)]
  | case3 cursor hlt => rw [advanceWhile, dif_neg hlt]

theorem retreatWhile_congr (h : ∀ i < cursor, memory i = other i) :
    retreatWhile p memory start cursor = retreatWhile p other start cursor := by
  induction cursor with
  | zero => rfl
  | succ cursor ih =>
    rw [retreatWhile, retreatWhile, h cursor (Nat.lt_succ_self cursor),
      ih fun i hi => h i (Nat.lt_succ_of_lt hi)]

/-! ### Words of a line -/

section Words

variable {q : α → Bool} {l : List α}

/-- A line is cut off before or after the elements at its front are dropped, when these are no ends
of lines. -/
theorem takeWhile_dropWhile_comm (hpq : ∀ a, p a → q a) :
    (l.dropWhile p).takeWhile q = (l.takeWhile q).dropWhile p := by
  induction l with
  | nil => rfl
  | cons a l ih =>
    by_cases hp : p a
    · rw [List.dropWhile_cons_of_pos hp, List.takeWhile_cons_of_pos (hpq a hp),
        List.dropWhile_cons_of_pos hp, ih]
    · rw [List.dropWhile_cons_of_neg hp]
      by_cases hq : q a
      · rw [List.takeWhile_cons_of_pos hq, List.dropWhile_cons_of_neg hp]
      · rw [List.takeWhile_cons_of_neg hq, List.dropWhile_nil]

/-- A line is cut off before or after its first word is dropped. -/
theorem takeWhile_dropWhile_and :
    (l.dropWhile fun a => q a && p a).takeWhile q = (l.takeWhile q).dropWhile p := by
  induction l with
  | nil => rfl
  | cons a l ih =>
    by_cases hq : q a
    · rw [List.takeWhile_cons_of_pos hq]
      by_cases hp : p a
      · rw [List.dropWhile_cons_of_pos (by rw [hq, hp]; rfl), List.dropWhile_cons_of_pos hp, ih]
      · rw [List.dropWhile_cons_of_neg (by simp [hp]), List.dropWhile_cons_of_neg hp,
          List.takeWhile_cons_of_pos hq]
    · rw [List.takeWhile_cons_of_neg hq, List.dropWhile_nil,
        List.dropWhile_cons_of_neg (by simp [hq]), List.takeWhile_cons_of_neg hq]

theorem takeWhile_and :
    (l.takeWhile fun a => q a && p a) = (l.takeWhile q).takeWhile p := by
  rw [List.takeWhile_takeWhile]
  congr 1
  funext a
  rw [Bool.and_comm, Bool.decide_and, Bool.decide_coe, Bool.decide_coe]

end Words

end TwistedOS
