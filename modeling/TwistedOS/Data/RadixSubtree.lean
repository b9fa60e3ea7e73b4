import TwistedOS.Data.RadixTree

/-!
# Subtrees of radix trees

The tables that can be reached from a table at some depth, when each of them is reached along one
path only. A tree is put together from the trees below the slots of its root, which must not share
tables; and it stays as it is as long as the slots of its own tables do.

## Main definitions

* `RadixTree.TreeOver`: the tables below a table form a tree with given members.

## Main results

* `RadixTree.TreeOver.node`: a tree from the trees below the slots.
* `RadixTree.TreeOver.congr`: readings that agree at the members.
-/

namespace TwistedOS

namespace RadixTree

variable {α β γ ι : Type*}

/-- The tables that are reached from `t` at depth `d` are the members of `S`, each along one
path. -/
structure TreeOver (entries : ℕ → α → ι → RadixEntry α β γ) (d : ℕ) (t : α) (S : α → Prop) :
    Prop where
  tree : ∀ p q c, reach entries d t p = some c → reach entries d t q = some c → p = q
  mem_iff : ∀ c, (∃ p, reach entries d t p = some c) ↔ S c

variable {entries entries' : ℕ → α → ι → RadixEntry α β γ} {t c : α} {i : ι} {d : ℕ}
  {S : α → Prop}

/-- What is reached and looked up depends on the slot and on what is below it. -/
theorem reach_lookup_cons_congr {t' : α} {q : List ι} (hentry : entries' d t' i = entries d t i)
    (hbelow : ∀ c, (entries d t i).child = some c →
      reach entries' (d + 1) c q = reach entries (d + 1) c q ∧
        lookup entries' (d + 1) c q = lookup entries (d + 1) c q) :
    reach entries' d t' (i :: q) = reach entries d t (i :: q) ∧
      lookup entries' d t' (i :: q) = lookup entries d t (i :: q) := by
  cases hcase : entries d t i with
  | empty =>
    rw [hcase] at hentry
    rw [lookup_cons_of_empty hentry, lookup_cons_of_empty hcase, reach, reach, hentry, hcase]
    exact ⟨rfl, rfl⟩
  | leaf b g =>
    rw [hcase] at hentry
    rw [lookup_cons_of_leaf hentry, lookup_cons_of_leaf hcase, reach, reach, hentry, hcase]
    exact ⟨rfl, rfl⟩
  | table c g =>
    rw [hcase] at hentry
    have hchild : (entries d t i).child = some c := by rw [hcase, RadixEntry.child_table]
    have hchild' : (entries' d t' i).child = some c := by rw [hentry, RadixEntry.child_table]
    obtain ⟨hreach, hlookup⟩ := hbelow c hchild
    rw [lookup_cons_of_table hentry, lookup_cons_of_table hcase, hlookup,
      reach_cons_of_child hchild, reach_cons_of_child hchild', hreach]
    exact ⟨rfl, rfl⟩

/-- What is reached and looked up depends on the slots of the tables on the way only. -/
theorem reach_lookup_congr (h : ∀ p c i, reach entries d t p = some c →
    entries' (d + p.length) c i = entries (d + p.length) c i) (q : List ι) :
    reach entries' d t q = reach entries d t q ∧ lookup entries' d t q = lookup entries d t q := by
  induction q generalizing d t with
  | nil => exact ⟨rfl, rfl⟩
  | cons i q ih =>
    refine reach_lookup_cons_congr (h [] t i rfl) fun c hchild => ih fun p c' j hp => ?_
    have hstep := h (i :: p) c' j (by rw [reach_cons_of_child hchild, hp])
    rwa [List.length_cons, ← Nat.add_assoc, Nat.add_right_comm] at hstep

/-- Readings that agree at the members see the same tree. -/
theorem TreeOver.congr (h : TreeOver entries d t S)
    (hagree : ∀ c, S c → ∀ d' i, entries' d' c i = entries d' c i) :
    TreeOver entries' d t S ∧ ∀ q, lookup entries' d t q = lookup entries d t q := by
  have hsame (q : List ι) : reach entries' d t q = reach entries d t q ∧
      lookup entries' d t q = lookup entries d t q :=
    reach_lookup_congr (fun p c i hp => hagree c ((h.mem_iff c).mp ⟨p, hp⟩) _ i) q
  refine ⟨⟨fun p q c hp hq => ?_, fun c => ?_⟩, fun q => (hsame q).2⟩
  · rw [(hsame p).1] at hp
    rw [(hsame q).1] at hq
    exact h.tree p q c hp hq
  · simp only [(hsame _).1, h.mem_iff]

/-- A table with trees below its slots, which share no table, is the root of a tree. -/
theorem TreeOver.node {C : ι → α → Prop}
    (hchild : ∀ i c, (entries d t i).child = some c → TreeOver entries (d + 1) c (C i))
    (hempty : ∀ i, (entries d t i).child = none → ∀ c, ¬ C i c)
    (hroot : ∀ i, ¬ C i t) (hdisjoint : ∀ i j c, C i c → C j c → i = j) :
    TreeOver entries d t fun c => c = t ∨ ∃ i, C i c := by
  have hmem : ∀ i q c, reach entries d t (i :: q) = some c →
      C i c ∧ ∃ e, (entries d t i).child = some e ∧ reach entries (d + 1) e q = some c := by
    intro i q c hq
    rw [reach] at hq
    obtain ⟨e, he, hq⟩ := Option.bind_eq_some_iff.mp hq
    exact ⟨((hchild i e he).mem_iff c).mp ⟨q, hq⟩, e, he, hq⟩
  refine ⟨fun p q c hp hq => ?_, fun c => ⟨?_, ?_⟩⟩
  · cases p with
    | nil =>
      obtain rfl : t = c := Option.some.inj hp
      cases q with
      | nil => rfl
      | cons j q => exact absurd (hmem j q t hq).1 (hroot j)
    | cons i p =>
      obtain ⟨hi, e, he, hp⟩ := hmem i p c hp
      cases q with
      | nil =>
        obtain rfl : t = c := Option.some.inj hq
        exact absurd hi (hroot i)
      | cons j q =>
        obtain ⟨hj, e', he', hq⟩ := hmem j q c hq
        obtain rfl := hdisjoint i j c hi hj
        obtain rfl : e = e' := Option.some.inj (he.symm.trans he')
        rw [(hchild i e he).tree p q c hp hq]
  · rintro ⟨p, hp⟩
    cases p with
    | nil => exact .inl (Option.some.inj hp).symm
    | cons i p => exact .inr ⟨i, (hmem i p c hp).1⟩
  · rintro (rfl | ⟨i, hi⟩)
    · exact ⟨[], rfl⟩
    · cases he : (entries d t i).child with
      | none => exact absurd hi (hempty i he c)
      | some e =>
        obtain ⟨q, hq⟩ := ((hchild i e he).mem_iff c).mpr hi
        exact ⟨i :: q, by rw [reach_cons_of_child he, hq]⟩

end RadixTree

end TwistedOS
