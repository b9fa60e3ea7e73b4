import TwistedOS.Data.RadixSubtree

/-!
# Trees that share tables

Several roots may lead to the same tables through some slots, while the slots `own` of a root lead
to tables that no other root leads to. As long as a table is met at one depth only, a store to a
slot of a table that one root leads to cannot change what is looked up through the own slots of
another root, whatever the two share otherwise.

## Main definitions

* `RadixTree.OwnPath`: a path through an own slot.
* `RadixTree.Separate`: the own tables of a root belong to it alone.
* `RadixTree.ReplacesSlot`: a slot keeps its child, loses it, or gets a new table.

## Main results

* `RadixTree.Separate.replaceSlot`, `RadixTree.Separate.lookup_replaceSlot`.
-/

namespace TwistedOS

namespace RadixTree

variable {α β γ ι : Type*}

/-- The path is empty or begins with an own slot. -/
def OwnPath (own : ι → Prop) (p : List ι) : Prop := ∀ i ∈ p.head?, own i

/-- A table is met at one depth only, and the tables that a root reaches through its own slots are
reached from no other root. -/
structure Separate (entries : ℕ → α → ι → RadixEntry α β γ) (roots : α → Prop) (own : ι → Prop) :
    Prop where
  length_eq : ∀ x y p q t, roots x → roots y → reach entries 0 x p = some t →
    reach entries 0 y q = some t → p.length = q.length
  apart : ∀ x y p q t, roots x → roots y → x ≠ y → OwnPath own p → reach entries 0 x p = some t →
    reach entries 0 y q ≠ some t

/-- Of the tables that the roots lead to only slot `i` of `t`, at depth `d`, is replaced: its child,
if it has one, is that from before or a new table without children. -/
structure ReplacesSlot (entries entries' : ℕ → α → ι → RadixEntry α β γ) (roots : α → Prop) (d : ℕ)
    (t : α) (i : ι) : Prop where
  off : ∀ x, roots x → AgreeOffSlot entries entries' x t i
  child : ∀ c, (entries' d t i).child = some c → (entries d t i).child = some c ∨
    (∀ x p, roots x → reach entries 0 x p ≠ some c) ∧ ∀ j, (entries' (d + 1) c j).child = none

variable {entries entries' : ℕ → α → ι → RadixEntry α β γ} {roots : α → Prop} {own : ι → Prop}
  {x y t c : α} {i : ι} {p q : List ι}

/-! ### Paths -/

@[simp] theorem ownPath_nil : OwnPath own [] := by simp [OwnPath]

@[simp] theorem ownPath_cons : OwnPath own (i :: p) ↔ own i := by simp [OwnPath]

theorem OwnPath.of_append (h : OwnPath own (p ++ q)) : OwnPath own p := by
  cases p with
  | nil => exact ownPath_nil
  | cons i p => exact ownPath_cons.mpr (ownPath_cons.mp h)

/-- What is reached and looked up through own slots depends on the slots on the way only. -/
theorem reach_lookup_congr_of_own (h : ∀ p c i, OwnPath own (p ++ [i]) →
    reach entries 0 t p = some c → entries' p.length c i = entries p.length c i)
    (hq : OwnPath own q) :
    reach entries' 0 t q = reach entries 0 t q ∧ lookup entries' 0 t q = lookup entries 0 t q := by
  cases q with
  | nil => exact ⟨rfl, rfl⟩
  | cons i q =>
    refine reach_lookup_cons_congr (h [] t i hq rfl) fun c hchild => ?_
    refine reach_lookup_congr (fun p c' j hp => ?_) q
    have hstep := h (i :: p) c' j (ownPath_cons.mpr (ownPath_cons.mp hq))
      (by rw [reach_cons_of_child hchild, hp])
    rwa [List.length_cons, Nat.add_comm] at hstep

/-! ### Replacing a slot -/

namespace Separate

variable (h : Separate entries roots own) (hx : roots x) (hq : reach entries 0 x q = some t)
  (hslot : ReplacesSlot entries entries' roots q.length t i)
include h hx hq hslot

/-- Tables that are not below the slot are still reached. -/
theorem reach_of_length_le (hy : roots y) (hp : reach entries 0 y p = some c)
    (hle : p.length ≤ q.length) : reach entries' 0 y p = some c := by
  induction p using List.reverseRecOn generalizing c with
  | nil => exact hp
  | append_singleton p j ih =>
    obtain ⟨c', hc'⟩ := exists_reach_of_concat hp
    rw [List.length_append, List.length_singleton] at hle
    have hne : ¬ (c' = t ∧ j = i) := by
      rintro ⟨rfl, -⟩
      have := h.length_eq y x p q c' hy hx hc' hq
      omega
    rw [reach_concat hc'] at hp
    rw [reach_concat (ih hc' (by omega)), hslot.off y hy p c' j hc' hne, hp]

/-- A table that is reached now was reached before, or it is the new table in the slot. -/
theorem reach_cases (hy : roots y) (hp : reach entries' 0 y p = some c) :
    reach entries 0 y p = some c ∨ (∃ r, p = r ++ [i] ∧ reach entries 0 y r = some t) ∧
      (entries' q.length t i).child = some c ∧ ∀ z r, roots z → reach entries 0 z r ≠ some c := by
  induction p using List.reverseRecOn generalizing c with
  | nil => exact .inl hp
  | append_singleton p j ih =>
    obtain ⟨c', hc'⟩ := exists_reach_of_concat hp
    rw [reach_concat hc'] at hp
    rcases ih hc' with hold | ⟨⟨r, rfl, hr⟩, hchild, hnew⟩
    · by_cases heq : c' = t ∧ j = i
      · obtain ⟨rfl, rfl⟩ := heq
        rw [h.length_eq y x p q c' hy hx hold hq] at hp
        rcases hslot.child c hp with hsame | ⟨hnew, -⟩
        · left
          rw [reach_concat hold, h.length_eq y x p q c' hy hx hold hq, hsame]
        · exact .inr ⟨⟨p, rfl, hold⟩, hp, hnew⟩
      · left
        rw [reach_concat hold, ← hslot.off y hy p c' j hold heq, hp]
    · -- the new table has no children
      rcases hslot.child c' hchild with hsame | ⟨-, hnone⟩
      · exact absurd ((reach_concat hq i).trans hsame) (hnew x _ hx)
      · rw [List.length_append, List.length_singleton, h.length_eq y x r q t hy hx hr hq,
          hnone] at hp
        simp at hp

/-- The own tables of a root still belong to it alone. -/
theorem replaceSlot : Separate entries' roots own where
  length_eq y z p r c hy hz hp hr := by
    rcases h.reach_cases hx hq hslot hy hp with hold | ⟨⟨p, rfl, hp'⟩, -, hnew⟩ <;>
      rcases h.reach_cases hx hq hslot hz hr with hold' | ⟨⟨r, rfl, hr'⟩, -, hnew'⟩
    · exact h.length_eq y z p r c hy hz hold hold'
    · exact absurd hold (hnew' y p hy)
    · exact absurd hold' (hnew z r hz)
    · simp [h.length_eq y z p r t hy hz hp' hr']
  apart y z p r c hy hz hne hown hp hr := by
    rcases h.reach_cases hx hq hslot hy hp with hold | ⟨⟨p, rfl, hp'⟩, -, hnew⟩ <;>
      rcases h.reach_cases hx hq hslot hz hr with hold' | ⟨⟨r, rfl, hr'⟩, -, hnew'⟩
    · exact h.apart y z p r c hy hz hne hown hold hold'
    · exact hnew' y p hy hold
    · exact hnew z r hz hold'
    · exact h.apart y z p r t hy hz hne hown.of_append hp' hr'

/-- What another root looks up through its own slots stays. -/
theorem lookup_replaceSlot (hy : roots y) (hne : y ≠ x) (hp : OwnPath own p) :
    lookup entries' 0 y p = lookup entries 0 y p := by
  refine (reach_lookup_congr_of_own (fun r c j hr hc => ?_) hp).2
  refine hslot.off y hy r c j hc ?_
  rintro ⟨rfl, -⟩
  exact h.apart y x r q c hy hx hne hr.of_append hc hq

end Separate

end RadixTree

end TwistedOS
