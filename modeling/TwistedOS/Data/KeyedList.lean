import Mathlib.Data.List.Nodup
import Mathlib.Data.List.Basic

/-!
# Lists with distinct keys

A list of records that are found by a key: at most one record has a given key. The first record with
a key is then the only one, so that erasing and replacing it are described by membership.

## Main results

* `KeyedList.mem_eraseP`, `KeyedList.mem_of_mem_replaceF`, `KeyedList.map_replaceF`,
  `KeyedList.replaceF_eq_self`.
-/

namespace TwistedOS

namespace KeyedList

variable {α κ : Type*} {key : α → κ} {k : κ} {l : List α} {a b : α}

/-- Erasing the record with a key leaves those with other keys. -/
theorem mem_eraseP [DecidableEq κ] (h : (l.map key).Nodup) :
    a ∈ l.eraseP (fun b => key b = k) ↔ a ∈ l ∧ key a ≠ k := by
  induction l with
  | nil => simp
  | cons b l ih =>
    rw [List.map_cons, List.nodup_cons] at h
    by_cases hb : key b = k
    · rw [List.eraseP_cons_of_pos (by simpa using hb), List.mem_cons]
      refine ⟨fun ha => ⟨.inr ha, fun hk => h.1 ?_⟩, fun ha => ha.1.resolve_left ?_⟩
      · exact List.mem_map.mpr ⟨a, ha, hk.trans hb.symm⟩
      · rintro rfl
        exact ha.2 hb
    · rw [List.eraseP_cons_of_neg (by simpa using hb), List.mem_cons, List.mem_cons, ih h.2]
      refine ⟨?_, fun ha => ha.1.imp_right fun hmem => ⟨hmem, ha.2⟩⟩
      rintro (rfl | ha)
      · exact ⟨.inl rfl, hb⟩
      · exact ⟨.inr ha.1, ha.2⟩

variable {f : α → Option α}

/-- Replacing a record by one with the same key leaves the keys. -/
theorem map_replaceF (hf : ∀ a b, f a = some b → key b = key a) :
    (l.replaceF f).map key = l.map key := by
  induction l with
  | nil => rfl
  | cons a l ih =>
    cases ha : f a with
    | none => rw [List.replaceF_cons_of_none _ ha, List.map_cons, List.map_cons, ih]
    | some b => rw [List.replaceF_cons_of_some _ ha, List.map_cons, List.map_cons, hf a b ha]

theorem mem_of_mem_replaceF (h : b ∈ l.replaceF f) : b ∈ l ∨ ∃ a ∈ l, f a = some b := by
  induction l with
  | nil => simp at h
  | cons a l ih =>
    cases ha : f a with
    | none =>
      rw [List.replaceF_cons_of_none _ ha] at h
      rcases List.mem_cons.mp h with rfl | h
      · exact .inl (List.mem_cons_self ..)
      · refine (ih h).imp (List.mem_cons_of_mem _) ?_
        rintro ⟨c, hc, hcb⟩
        exact ⟨c, List.mem_cons_of_mem _ hc, hcb⟩
    | some a' =>
      rw [List.replaceF_cons_of_some _ ha] at h
      rcases List.mem_cons.mp h with rfl | h
      · exact .inr ⟨a, List.mem_cons_self .., ha⟩
      · exact .inl (List.mem_cons_of_mem _ h)

theorem replaceF_eq_self (hf : ∀ a ∈ l, ∀ b, f a = some b → b = a) : l.replaceF f = l := by
  induction l with
  | nil => rfl
  | cons a l ih =>
    cases ha : f a with
    | none =>
      rw [List.replaceF_cons_of_none _ ha, ih fun b hb => hf b (List.mem_cons_of_mem _ hb)]
    | some b => rw [List.replaceF_cons_of_some _ ha, hf a (List.mem_cons_self ..) b ha]

end KeyedList

end TwistedOS
