import Mathlib.Data.List.TakeWhile

/-!
# Segments of a separated text

A scanner that skips separators, reads up to the next one and goes on from there finds the
*segments* of a text, each with the text that follows it. Their sequence is that of the nonempty
parts into which the text splits, its *components*.

## Main definitions

* `Text.segments` — the segments, each with the text from its end on.
* `Text.components` — the nonempty parts between separators.

## Main results

* `Text.map_fst_segments` — the scanner finds the components.
* `Text.components_append_cons` — the components on both sides of a separator.
-/

namespace TwistedOS.Text

variable {α : Type*} [DecidableEq α] (sep : α)

/-- The nonempty parts between separators. -/
def components (text : List α) : List (List α) := (text.splitOn sep).filter fun part => part ≠ []

/-- The segments that a scanner finds, each with the text from its end on. -/
def segments (text : List α) : List (List α × List α) :=
  match text with
  | [] => []
  | c :: text =>
    if c = sep then segments text
    else (c :: text.takeWhile (· ≠ sep), text.dropWhile (· ≠ sep)) ::
      segments (text.dropWhile (· ≠ sep))
  termination_by text.length
  decreasing_by
    · simp
    · have := (List.dropWhile_sublist (l := text) fun c => decide (c ≠ sep)).length_le
      simp only [List.length_cons]
      omega

variable {sep} {c : α} {text left right : List α}

@[simp] theorem segments_nil : segments sep ([] : List α) = [] := by rw [segments]

@[simp] theorem segments_cons_self : segments sep (sep :: text) = segments sep text := by
  rw [segments, if_pos rfl]

theorem segments_cons_of_ne (h : c ≠ sep) :
    segments sep (c :: text) = (c :: text.takeWhile (· ≠ sep), text.dropWhile (· ≠ sep)) ::
      segments sep (text.dropWhile (· ≠ sep)) := by
  rw [segments, if_neg h]

@[simp] theorem components_nil : components sep ([] : List α) = [] := rfl

theorem components_append_cons :
    components sep (left ++ sep :: right) = components sep left ++ components sep right := by
  rw [components, List.splitOn_append_cons_self, List.filter_append]
  rfl

@[simp] theorem components_cons_self : components sep (sep :: text) = components sep text := by
  have h := @components_append_cons α _ sep [] text
  rwa [List.nil_append, components_nil, List.nil_append] at h

/-- A nonempty text without separators is its only component. -/
theorem components_of_notMem (h : sep ∉ left) (hleft : left ≠ []) : components sep left = [left] := by
  rw [components, List.splitOn_eq_singleton h]
  simp [hleft]

/-- What the scanner leaves after a segment is empty or starts with a separator. -/
theorem dropWhile_eq_nil_or (text : List α) :
    text.dropWhile (· ≠ sep) = [] ∨ ∃ rest, text.dropWhile (· ≠ sep) = sep :: rest := by
  induction text with
  | nil => exact .inl rfl
  | cons c text ih =>
    by_cases hc : c = sep
    · subst hc
      exact .inr ⟨text, by simp⟩
    · simpa [List.dropWhile_cons, hc] using ih

theorem components_cons_of_ne (h : c ≠ sep) :
    components sep (c :: text) = (c :: text.takeWhile (· ≠ sep)) ::
      components sep (text.dropWhile (· ≠ sep)) := by
  have hsegment : sep ∉ c :: text.takeWhile (· ≠ sep) := by
    rw [List.mem_cons, not_or]
    exact ⟨h.symm, fun hmem => by simpa using List.mem_takeWhile_imp hmem⟩
  have hsplit : c :: text = (c :: text.takeWhile (· ≠ sep)) ++ text.dropWhile (· ≠ sep) := by
    rw [List.cons_append, List.takeWhile_append_dropWhile]
  rcases @dropWhile_eq_nil_or α _ sep text with hrest | ⟨rest, hrest⟩
  · rw [hrest] at hsplit ⊢
    rw [hsplit, List.append_nil, components_of_notMem hsegment (by simp),
      components_nil]
  · rw [hrest] at hsplit ⊢
    rw [hsplit, components_append_cons, components_of_notMem hsegment (by simp),
      components_cons_self]
    rfl

/-- The scanner finds the components. -/
theorem map_fst_segments (text : List α) :
    (segments sep text).map Prod.fst = components sep text := by
  induction text using segments.induct sep with
  | case1 => simp
  | case2 text ih => rw [segments_cons_self, components_cons_self, ih]
  | case3 c text hc ih => rw [segments_cons_of_ne hc, components_cons_of_ne hc, List.map_cons, ih]

/-- The scanner goes on with the text after the segment that it found. This is a suffix that is
empty or starts with a separator. -/
theorem segments_eq_cons {segment rest : List α} {more : List (List α × List α)}
    (h : segments sep text = (segment, rest) :: more) :
    more = segments sep rest ∧ rest <:+ text ∧ (rest = [] ∨ ∃ tail, rest = sep :: tail) := by
  induction text using segments.induct sep with
  | case1 => simp at h
  | case2 text ih =>
    obtain ⟨hmore, hsuffix, hrest⟩ := ih (segments_cons_self.symm.trans h)
    exact ⟨hmore, hsuffix.trans (List.suffix_cons ..), hrest⟩
  | case3 c text hc ih =>
    rw [segments_cons_of_ne hc] at h
    obtain ⟨hhead, rfl⟩ := List.cons.inj h
    obtain ⟨-, rfl⟩ := Prod.mk.inj hhead
    exact ⟨rfl, (List.dropWhile_suffix _).trans (List.suffix_cons ..), dropWhile_eq_nil_or text⟩

end TwistedOS.Text
