import Mathlib.Data.List.Basic
import Mathlib.Data.List.Induction
import Mathlib.Data.Option.Basic

/-!
# Radix trees of tables

A radix tree is stored in tables: a slot of a table is empty, holds a leaf, or names a child table.
`entries d t i` is what slot `i` of table `t` holds when `t` is met at depth `d`. A key is a list of
slot indices; looking it up leads from the root through child tables to a leaf, possibly with some
indices left over. The tables form a tree when no table can be reached along two paths.

A store to one slot of a reachable table changes the lookups of the keys through that slot only, and
it preserves the tree when the slot keeps its child or gets a new table without children.

## Main definitions

* `RadixEntry`, `RadixTree.reach`, `RadixTree.lookup`, `RadixTree.IsTree`.
* `RadixTree.AgreeOffSlot`, `RadixTree.Agree`: two readings of the tables.

## Main results

* `RadixTree.AgreeOffSlot.lookup_of_not_prefix`.
* `RadixTree.lookup_append`: lookups through a reached table.
* `RadixTree.AgreeOffSlot.reach_of_sameChild`, `RadixTree.IsTree.of_newChild`.
-/

namespace TwistedOS

/-- What a slot of a table holds: nothing, a leaf or a child table, with a tag on the way. -/
inductive RadixEntry (α β γ : Type*)
  | empty
  | leaf (value : β) (tag : γ)
  | table (child : α) (tag : γ)

namespace RadixEntry

variable {α β γ : Type*}

/-- The child table that a slot names. -/
def child : RadixEntry α β γ → Option α
  | table c _ => some c
  | _ => none

/-- The tag of a slot that is not empty. -/
def tag? : RadixEntry α β γ → Option γ
  | empty => none
  | leaf _ g => some g
  | table _ g => some g

@[simp] theorem tag?_empty : (empty : RadixEntry α β γ).tag? = none := rfl

@[simp] theorem tag?_leaf (b : β) (g : γ) : (leaf b g : RadixEntry α β γ).tag? = some g := rfl

@[simp] theorem tag?_table (c : α) (g : γ) : (table c g : RadixEntry α β γ).tag? = some g := rfl

theorem exists_of_child {e : RadixEntry α β γ} {c : α} (h : e.child = some c) :
    ∃ g, e = table c g := by
  cases e with
  | empty => simp [child] at h
  | leaf b g => simp [child] at h
  | table c' g =>
    obtain rfl : c' = c := Option.some.inj h
    exact ⟨g, rfl⟩

@[simp] theorem child_empty : (empty : RadixEntry α β γ).child = none := rfl

@[simp] theorem child_leaf (b : β) (g : γ) : (leaf b g : RadixEntry α β γ).child = none := rfl

@[simp] theorem child_table (c : α) (g : γ) : (table c g : RadixEntry α β γ).child = some c := rfl

end RadixEntry

namespace RadixTree

variable {α β γ ι : Type*}

/-- The table at the end of a path of child tables, from the table `t` at depth `d`. -/
def reach (entries : ℕ → α → ι → RadixEntry α β γ) : ℕ → α → List ι → Option α
  | _, t, [] => some t
  | d, t, i :: p => (entries d t i).child.bind fun c => reach entries (d + 1) c p

/-- The leaf of a key, with the tags met on the way and the indices left over. -/
def lookup (entries : ℕ → α → ι → RadixEntry α β γ) :
    ℕ → α → List ι → Option (List γ × β × List ι)
  | _, _, [] => none
  | d, t, i :: p =>
    match entries d t i with
    | .empty => none
    | .leaf b g => some ([g], b, p)
    | .table c g => (lookup entries (d + 1) c p).map fun r => (g :: r.1, r.2)

/-- No table can be reached from the root along two paths. -/
def IsTree (entries : ℕ → α → ι → RadixEntry α β γ) (root : α) : Prop :=
  ∀ p q t, reach entries 0 root p = some t → reach entries 0 root q = some t → p = q

/-- The readings agree at every table reachable in the first. -/
def Agree (entries entries' : ℕ → α → ι → RadixEntry α β γ) (root : α) : Prop :=
  ∀ p t i, reach entries 0 root p = some t → entries' p.length t i = entries p.length t i

/-- The readings agree at every table reachable in the first, slot `i₀` of `t₀` excepted. -/
def AgreeOffSlot (entries entries' : ℕ → α → ι → RadixEntry α β γ) (root t₀ : α) (i₀ : ι) : Prop :=
  ∀ p t i, reach entries 0 root p = some t → ¬ (t = t₀ ∧ i = i₀) →
    entries' p.length t i = entries p.length t i

/-- The tags met on the way along a path of child tables. -/
def tagsAlong (entries : ℕ → α → ι → RadixEntry α β γ) : ℕ → α → List ι → List γ
  | _, _, [] => []
  | d, t, i :: p =>
    match entries d t i with
    | .table c g => g :: tagsAlong entries (d + 1) c p
    | _ => []

variable {entries entries' : ℕ → α → ι → RadixEntry α β γ} {root t t₀ c : α} {i i₀ : ι}
  {p q r : List ι} {d : ℕ}

/-! ### Paths -/

theorem reach_append (p q : List ι) : reach entries d t (p ++ q) =
    (reach entries d t p).bind fun c => reach entries (d + p.length) c q := by
  induction p generalizing d t with
  | nil => rfl
  | cons i p ih =>
    rw [List.cons_append, reach, reach, Option.bind_assoc, List.length_cons]
    congr 1
    funext c
    rw [ih, Nat.add_right_comm, Nat.add_assoc]

theorem reach_concat (h : reach entries 0 root p = some t) (i : ι) :
    reach entries 0 root (p ++ [i]) = (entries p.length t i).child := by
  rw [reach_append, h, Option.bind_some, reach, Nat.zero_add]
  cases (entries p.length t i).child <;> rfl

/-- A path that reaches a table has reached one before. -/
theorem exists_reach_of_concat (h : reach entries d root (p ++ [i]) = some t) :
    ∃ c, reach entries d root p = some c := by
  rw [reach_append] at h
  obtain ⟨c, hc, -⟩ := Option.bind_eq_some_iff.mp h
  exact ⟨c, hc⟩

theorem reach_cons_of_child (h : (entries d t i).child = some c) :
    reach entries d t (i :: p) = reach entries (d + 1) c p := by
  rw [reach, h, Option.bind_some]

theorem lookup_cons_of_table {g : γ} (h : entries d t i = .table c g) :
    lookup entries d t (i :: p) =
      (lookup entries (d + 1) c p).map fun r => (g :: r.1, r.2) := by
  rw [lookup, h]

theorem lookup_cons_of_leaf {b : β} {g : γ} (h : entries d t i = .leaf b g) :
    lookup entries d t (i :: p) = some ([g], b, p) := by
  rw [lookup, h]

theorem lookup_cons_of_empty (h : entries d t i = .empty) :
    lookup entries d t (i :: p) = none := by
  rw [lookup, h]

theorem tagsAlong_cons_of_table {g : γ} (h : entries d t i = .table c g) :
    tagsAlong entries d t (i :: p) = g :: tagsAlong entries (d + 1) c p := by
  rw [tagsAlong, h]

/-- The first tag of a lookup is the tag of the slot at which it begins. -/
theorem exists_tag_of_lookup {l : List γ × β × List ι} (h : lookup entries d t (i :: p) = some l) :
    ∃ g tags, (entries d t i).tag? = some g ∧ l.1 = g :: tags := by
  cases hentry : entries d t i with
  | empty => simp [lookup_cons_of_empty hentry] at h
  | leaf b g =>
    rw [lookup_cons_of_leaf hentry, Option.some.injEq] at h
    exact ⟨g, [], rfl, by rw [← h]⟩
  | table c g =>
    rw [lookup_cons_of_table hentry, Option.map_eq_some_iff] at h
    obtain ⟨l', -, rfl⟩ := h
    exact ⟨g, l'.1, rfl, rfl⟩

/-- A leaf comes with its own tag at least. -/
theorem lookup_tags_ne_nil {l : List γ × β × List ι} (h : lookup entries d t p = some l) :
    l.1 ≠ [] := by
  cases p with
  | nil => simp [lookup] at h
  | cons i p =>
    obtain ⟨g, tags, -, htags⟩ := exists_tag_of_lookup h
    simp [htags]

/-- A lookup that uses up its key has met a table at every index but the last. -/
theorem reach_of_lookup {tags : List γ} {b : β} (h : lookup entries d t (p ++ [i]) =
    some (tags, b, [])) : ∃ c, reach entries d t p = some c := by
  induction p generalizing d t tags with
  | nil => exact ⟨t, rfl⟩
  | cons j p ih =>
    rw [List.cons_append] at h
    cases hentry : entries d t j with
    | empty => simp [lookup_cons_of_empty hentry] at h
    | leaf b g => simp [lookup_cons_of_leaf hentry] at h
    | table c g =>
      rw [lookup_cons_of_table hentry, Option.map_eq_some_iff] at h
      obtain ⟨⟨tags', l'⟩, hl', heq⟩ := h
      simp only [Prod.mk.injEq] at heq
      obtain ⟨-, rfl⟩ := heq
      rw [reach_cons_of_child (c := c) (by rw [hentry, RadixEntry.child_table])]
      exact ih hl'

/-- A lookup through a table that the path `p` reaches. -/
theorem lookup_append_tags (h : reach entries d t p = some c) (q : List ι) :
    lookup entries d t (p ++ q) = (lookup entries (d + p.length) c q).map
      fun r => (tagsAlong entries d t p ++ r.1, r.2) := by
  induction p generalizing d t with
  | nil =>
    obtain rfl : t = c := Option.some.inj h
    simp [tagsAlong]
  | cons i p ih =>
    cases hentry : entries d t i with
    | empty => simp [reach, hentry] at h
    | leaf b g => simp [reach, hentry] at h
    | table e g =>
      rw [reach_cons_of_child (c := e) (by rw [hentry, RadixEntry.child_table])] at h
      rw [List.cons_append, lookup_cons_of_table hentry, ih h, Option.map_map, List.length_cons,
        tagsAlong_cons_of_table hentry]
      have hd : d + 1 + p.length = d + (p.length + 1) := by omega
      rw [hd]
      rfl

theorem lookup_append (h : reach entries d t p = some c) : ∃ tags : List γ, ∀ q,
    lookup entries d t (p ++ q) =
      (lookup entries (d + p.length) c q).map fun r => (tags ++ r.1, r.2) :=
  ⟨_, lookup_append_tags h⟩

private theorem tagsAlong_append_singleton {g : γ} (h : reach entries d root p = some t)
    (hentry : entries (d + p.length) t i = .table c g) :
    tagsAlong entries d root (p ++ [i]) = tagsAlong entries d root p ++ [g] := by
  induction p generalizing d root with
  | nil =>
    obtain rfl : root = t := Option.some.inj h
    rw [List.length_nil, Nat.add_zero] at hentry
    rw [List.nil_append, tagsAlong_cons_of_table hentry]
    rfl
  | cons j p ih =>
    cases hstep : entries d root j with
    | empty => simp [reach, hstep] at h
    | leaf b g' => simp [reach, hstep] at h
    | table e g' =>
      rw [reach_cons_of_child (c := e) (by rw [hstep, RadixEntry.child_table])] at h
      rw [List.length_cons, ← Nat.add_assoc, Nat.add_right_comm] at hentry
      rw [List.cons_append, tagsAlong_cons_of_table hstep, tagsAlong_cons_of_table hstep,
        ih h hentry, List.cons_append]

/-- The path to a child table has one tag more. -/
theorem tagsAlong_concat {g : γ} (h : reach entries 0 root p = some t)
    (hentry : entries p.length t i = .table c g) :
    tagsAlong entries 0 root (p ++ [i]) = tagsAlong entries 0 root p ++ [g] :=
  tagsAlong_append_singleton h (by rwa [Nat.zero_add])

/-- A list of paths with their tables is complete if it has the root and is closed under
children. -/
theorem mem_of_reach {tables : List (List ι × α)} (hroot : ([], root) ∈ tables)
    (hstep : ∀ x ∈ tables, ∀ i c, (entries x.1.length x.2 i).child = some c →
      (x.1 ++ [i], c) ∈ tables)
    (hp : reach entries 0 root p = some t) : (p, t) ∈ tables := by
  induction p using List.reverseRecOn generalizing t with
  | nil =>
    obtain rfl : root = t := Option.some.inj hp
    exact hroot
  | append_singleton p i ih =>
    obtain ⟨c, hc⟩ := exists_reach_of_concat hp
    rw [reach_concat hc] at hp
    exact hstep _ (ih hc) i t hp

/-! ### Readings that agree -/

/-- Two readings that agree at the steps of a path have the same paths and lookups along it. -/
private theorem eq_of_steps {S : List ι → ι → Prop}
    (h : ∀ p t i, reach entries 0 root p = some t → S p i →
      entries' p.length t i = entries p.length t i)
    {u v : List ι} (hu : reach entries 0 root u = some t)
    (hsteps : ∀ a i b, v = a ++ i :: b → S (u ++ a) i) :
    reach entries' u.length t v = reach entries u.length t v ∧
      lookup entries' u.length t v = lookup entries u.length t v ∧
      tagsAlong entries' u.length t v = tagsAlong entries u.length t v := by
  induction v generalizing u t with
  | nil => exact ⟨rfl, rfl, rfl⟩
  | cons i v ih =>
    have hentry := h u t i hu (by simpa using hsteps [] i v rfl)
    have hstep := reach_concat hu i
    cases hcase : entries u.length t i with
    | empty =>
      rw [hcase] at hentry
      rw [lookup_cons_of_empty hentry, lookup_cons_of_empty hcase, reach, reach, tagsAlong,
        tagsAlong, hentry, hcase]
      exact ⟨rfl, rfl, rfl⟩
    | leaf b g =>
      rw [hcase] at hentry
      rw [lookup_cons_of_leaf hentry, lookup_cons_of_leaf hcase, reach, reach, tagsAlong,
        tagsAlong, hentry, hcase]
      exact ⟨rfl, rfl, rfl⟩
    | table c g =>
      rw [hcase] at hentry hstep
      have := ih (u := u ++ [i]) hstep fun a j b hab => by
        simpa using hsteps (i :: a) j b (by rw [hab, List.cons_append])
      rw [List.length_append, List.length_singleton] at this
      rw [lookup_cons_of_table hentry, lookup_cons_of_table hcase,
        reach_cons_of_child (c := c) (by rw [hentry, RadixEntry.child_table]),
        reach_cons_of_child (c := c) (by rw [hcase, RadixEntry.child_table]),
        tagsAlong_cons_of_table hentry, tagsAlong_cons_of_table hcase, this.1, this.2.1, this.2.2]
      exact ⟨rfl, rfl, rfl⟩

theorem Agree.reach_eq (h : Agree entries entries' root) (p : List ι) :
    reach entries' 0 root p = reach entries 0 root p :=
  (eq_of_steps (S := fun _ _ => True) (fun p t i hp _ => h p t i hp) (u := []) rfl
    fun _ _ _ _ => trivial).1

theorem Agree.lookup_eq (h : Agree entries entries' root) (p : List ι) :
    lookup entries' 0 root p = lookup entries 0 root p :=
  (eq_of_steps (S := fun _ _ => True) (fun p t i hp _ => h p t i hp) (u := []) rfl
    fun _ _ _ _ => trivial).2.1

namespace AgreeOffSlot

/-- The readings agree at every step that is not the step through the slot. -/
private theorem agree_step (h : AgreeOffSlot entries entries' root t₀ i₀)
    (htree : IsTree entries root) (hq : reach entries 0 root q = some t₀) (p : List ι) (t : α)
    (i : ι) (hp : reach entries 0 root p = some t) (hpi : ¬ (p = q ∧ i = i₀)) :
    entries' p.length t i = entries p.length t i := by
  refine h p t i hp ?_
  rintro ⟨rfl, rfl⟩
  exact hpi ⟨htree p q t hp hq, rfl⟩

variable (h : AgreeOffSlot entries entries' root t₀ i₀) (htree : IsTree entries root)
  (hq : reach entries 0 root q = some t₀)
include h htree hq

private theorem of_not_prefix (hnot : ¬ (q ++ [i₀]) <+: p) :
    reach entries' 0 root p = reach entries 0 root p ∧
      lookup entries' 0 root p = lookup entries 0 root p ∧
      tagsAlong entries' 0 root p = tagsAlong entries 0 root p := by
  refine eq_of_steps (h.agree_step htree hq) (u := []) rfl fun a i b hab => ?_
  rintro ⟨rfl, rfl⟩
  exact hnot ⟨b, by simp [hab]⟩

theorem reach_of_not_prefix (hnot : ¬ (q ++ [i₀]) <+: p) :
    reach entries' 0 root p = reach entries 0 root p := (h.of_not_prefix htree hq hnot).1

/-- Keys that do not lead through the slot are looked up as before. -/
theorem lookup_of_not_prefix (hnot : ¬ (q ++ [i₀]) <+: p) :
    lookup entries' 0 root p = lookup entries 0 root p := (h.of_not_prefix htree hq hnot).2.1

omit h htree hq in
private theorem not_prefix_self : ¬ (q ++ [i₀]) <+: q := by
  intro hpre
  have := hpre.length_le
  rw [List.length_append, List.length_singleton] at this
  omega

theorem reach_self : reach entries' 0 root q = some t₀ := by
  rw [h.reach_of_not_prefix htree hq not_prefix_self, hq]

theorem tagsAlong_self : tagsAlong entries' 0 root q = tagsAlong entries 0 root q :=
  (h.of_not_prefix htree hq not_prefix_self).2.2

/-- What is seen of the lookups is decided at the slot. -/
theorem map_lookup_eq {δ : Type*} (view : List γ × β × List ι → δ) {n : ℕ}
    (hslot : ∀ r, q.length + 1 + r.length = n →
      (lookup entries' q.length t₀ (i₀ :: r)).map
          (fun x => view (tagsAlong entries 0 root q ++ x.1, x.2)) =
        (lookup entries q.length t₀ (i₀ :: r)).map
          fun x => view (tagsAlong entries 0 root q ++ x.1, x.2))
    {p : List ι} (hp : p.length = n) :
    (lookup entries' 0 root p).map view = (lookup entries 0 root p).map view := by
  by_cases hpre : (q ++ [i₀]) <+: p
  · obtain ⟨r, rfl⟩ := hpre
    rw [List.append_assoc, List.singleton_append, lookup_append_tags hq,
      lookup_append_tags (h.reach_self htree hq), h.tagsAlong_self htree hq, Nat.zero_add,
      Option.map_map, Option.map_map]
    refine hslot r ?_
    simpa [Nat.add_assoc, Nat.add_comm r.length] using hp
  · rw [h.lookup_of_not_prefix htree hq hpre]

/-- A path that leads through the slot continues with the slot's child. -/
theorem reach_through : reach entries' 0 root (q ++ i₀ :: r) =
    (entries' q.length t₀ i₀).child.bind fun c => reach entries' (q.length + 1) c r := by
  rw [reach_append, h.reach_self htree hq, Option.bind_some, reach, Nat.zero_add]

/-- Below a child table of the slot nothing changes. -/
theorem below (hchild : (entries q.length t₀ i₀).child = some c) (r : List ι) :
    reach entries' (q.length + 1) c r = reach entries (q.length + 1) c r ∧
      lookup entries' (q.length + 1) c r = lookup entries (q.length + 1) c r := by
  have hreach := reach_concat hq i₀
  rw [hchild] at hreach
  have := eq_of_steps (h.agree_step htree hq) (v := r) hreach fun a i b _ => by
    rintro ⟨hpath, -⟩
    have := congrArg List.length hpath
    simp at this
  rw [List.length_append, List.length_singleton] at this
  exact ⟨this.1, this.2.1⟩

/-- A slot that keeps its child keeps all paths. -/
theorem reach_of_sameChild
    (hchild : (entries' q.length t₀ i₀).child = (entries q.length t₀ i₀).child) (p : List ι) :
    reach entries' 0 root p = reach entries 0 root p := by
  by_cases hpre : (q ++ [i₀]) <+: p
  · obtain ⟨r, rfl⟩ := hpre
    rw [List.append_assoc, List.singleton_append, h.reach_through htree hq, hchild, reach_append,
      hq, Option.bind_some, reach, Nat.zero_add]
    cases hc : (entries q.length t₀ i₀).child with
    | none => rfl
    | some c => rw [Option.bind_some, Option.bind_some, (h.below htree hq hc r).1]
  · exact h.reach_of_not_prefix htree hq hpre

end AgreeOffSlot

/-! ### Preservation of the tree -/

theorem IsTree.of_reach_eq (htree : IsTree entries root)
    (hreach : ∀ p, reach entries' 0 root p = reach entries 0 root p) : IsTree entries' root :=
  fun p q t hp hq => htree p q t ((hreach p).symm.trans hp) ((hreach q).symm.trans hq)

/-- The tables stay a tree when a slot without a child gets a new table without children. -/
theorem IsTree.of_newChild (htree : IsTree entries root)
    (h : AgreeOffSlot entries entries' root t₀ i₀) (hq : reach entries 0 root q = some t₀)
    (hchild : (entries' q.length t₀ i₀).child = some c)
    (hnew : ∀ p, reach entries 0 root p ≠ some c)
    (hleafs : ∀ i, (entries' (q.length + 1) c i).child = none) :
    IsTree entries' root ∧ ∀ p t, reach entries' 0 root p = some t →
      p = q ++ [i₀] ∧ t = c ∨ reach entries 0 root p = some t := by
  have hcases : ∀ p t, reach entries' 0 root p = some t →
      p = q ++ [i₀] ∧ t = c ∨ ¬ (q ++ [i₀]) <+: p ∧ reach entries 0 root p = some t := by
    intro p t hp
    by_cases hpre : (q ++ [i₀]) <+: p
    · obtain ⟨r, rfl⟩ := hpre
      rw [List.append_assoc, List.singleton_append, h.reach_through htree hq, hchild,
        Option.bind_some] at hp
      cases r with
      | nil => exact .inl ⟨by simp, (Option.some.inj hp).symm⟩
      | cons i r => simp [reach, hleafs] at hp
    · exact .inr ⟨hpre, (h.reach_of_not_prefix htree hq hpre).symm.trans hp⟩
  refine ⟨fun p p' t hp hp' => ?_, fun p t hp => ?_⟩
  · rcases hcases p t hp with ⟨rfl, rfl⟩ | ⟨-, hold⟩ <;>
      rcases hcases p' _ hp' with ⟨rfl, ht⟩ | ⟨-, hold'⟩
    · rfl
    · exact absurd hold' (hnew p')
    · exact absurd (ht ▸ hold) (hnew p)
    · exact htree p p' t hold hold'
  · rcases hcases p t hp with hself | ⟨-, hold⟩
    · exact .inl hself
    · exact .inr hold

end RadixTree

end TwistedOS
