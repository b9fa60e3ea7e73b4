import Mathlib.Data.List.Nodup
import Mathlib.Logic.Function.Basic

/-!
# Null-terminated chains of nodes

A singly linked list that lives in a memory is a head pointer and a map `next` from nodes to
nodes; it ends at a null node. `LinkedChain next null h l` says that the nodes met from `h` are
exactly those of the list `l`, in order. A chain is determined by its head, so it never visits a
node twice, and it is unaffected by changes of `next` outside its nodes.

## Main definitions

* `LinkedChain next null h l`: the chain of `next` from `h` is the list `l`.

## Main results

* `LinkedChain.unique`, `LinkedChain.nodup`.
* `LinkedChain.congr`: only the successors of the chain's own nodes matter.
* `LinkedChain.push`, `LinkedChain.unlink`.
-/

namespace TwistedOS

variable {α : Type*} {next next' : α → α} {null h : α}

/-- Following `next` from the head meets exactly the nodes of the list, then `null`. -/
def LinkedChain (next : α → α) (null : α) : α → List α → Prop
  | h, [] => h = null
  | h, a :: l => h = a ∧ a ≠ null ∧ LinkedChain next null (next a) l

namespace LinkedChain

@[simp] theorem nil_iff : LinkedChain next null h [] ↔ h = null := Iff.rfl

@[simp] theorem cons_iff {a : α} {l : List α} :
    LinkedChain next null h (a :: l) ↔
      h = a ∧ a ≠ null ∧ LinkedChain next null (next a) l := Iff.rfl

theorem eq_nil_of_null {l : List α} (hl : LinkedChain next null null l) : l = [] := by
  cases l with
  | nil => rfl
  | cons a l => exact absurd hl.1.symm hl.2.1

theorem exists_cons_of_ne_null {l : List α} (hl : LinkedChain next null h l) (hh : h ≠ null) :
    ∃ l', l = h :: l' ∧ LinkedChain next null (next h) l' := by
  cases l with
  | nil => exact absurd hl hh
  | cons a l =>
    obtain ⟨rfl, -, htail⟩ := hl
    exact ⟨l, rfl, htail⟩

theorem ne_null {l : List α} (hl : LinkedChain next null h l) {a : α} (ha : a ∈ l) :
    a ≠ null := by
  induction l generalizing h with
  | nil => simp at ha
  | cons b l ih =>
    rcases List.mem_cons.mp ha with rfl | ha
    · exact hl.2.1
    · exact ih hl.2.2 ha

/-- A chain is determined by its head. -/
theorem unique {l l' : List α} (hl : LinkedChain next null h l)
    (hl' : LinkedChain next null h l') : l = l' := by
  induction l generalizing h l' with
  | nil =>
    obtain rfl : h = null := hl
    exact hl'.eq_nil_of_null.symm
  | cons a l ih =>
    obtain ⟨rfl, hne, htail⟩ := hl
    obtain ⟨m, rfl, hm⟩ := hl'.exists_cons_of_ne_null hne
    rw [ih htail hm]

/-- The part of a chain behind one of its nodes is a chain. -/
theorem of_append_cons {l₁ l₂ : List α} {a : α}
    (hl : LinkedChain next null h (l₁ ++ a :: l₂)) : LinkedChain next null a (a :: l₂) := by
  induction l₁ generalizing h with
  | nil =>
    obtain ⟨rfl, hne, htail⟩ := hl
    exact ⟨rfl, hne, htail⟩
  | cons b l₁ ih => exact ih hl.2.2

/-- The link of a node leads to a node, or it is the end of the list. -/
theorem next_mem {l : List α} (hl : LinkedChain next null h l) {a : α} (ha : a ∈ l) :
    next a = null ∨ next a ∈ l := by
  obtain ⟨l₁, l₂, rfl⟩ := List.append_of_mem ha
  obtain ⟨-, -, hnext⟩ := hl.of_append_cons
  cases l₂ with
  | nil => exact .inl hnext
  | cons b l₂ =>
    rw [hnext.1]
    exact .inr (by simp)

/-- A chain that ends visits no node twice. -/
theorem nodup {l : List α} (hl : LinkedChain next null h l) : l.Nodup := by
  induction l generalizing h with
  | nil => exact List.nodup_nil
  | cons a l ih =>
    refine List.nodup_cons.mpr ⟨fun ha => ?_, ih hl.2.2⟩
    obtain ⟨l₁, l₂, rfl⟩ := List.append_of_mem ha
    have hsuffix : LinkedChain next null a (a :: l₂) :=
      of_append_cons (show LinkedChain next null h ((a :: l₁) ++ a :: l₂) by simpa using hl)
    have hself : LinkedChain next null a (a :: (l₁ ++ a :: l₂)) := ⟨rfl, hl.2.1, hl.2.2⟩
    have hlen := congrArg List.length (hself.unique hsuffix)
    simp only [List.length_cons, List.length_append] at hlen
    omega

/-- A chain depends on the successors of its own nodes only. -/
theorem congr {l : List α} (hl : LinkedChain next null h l)
    (heq : ∀ a ∈ l, next' a = next a) : LinkedChain next' null h l := by
  induction l generalizing h with
  | nil => exact hl
  | cons a l ih =>
    refine ⟨hl.1, hl.2.1, ?_⟩
    rw [heq a List.mem_cons_self]
    exact ih hl.2.2 fun b hb => heq b (List.mem_cons_of_mem a hb)

section Update

variable [DecidableEq α]

theorem update_of_notMem {l : List α} (hl : LinkedChain next null h l) {a : α} (b : α)
    (ha : a ∉ l) : LinkedChain (Function.update next a b) null h l :=
  hl.congr fun c hc => Function.update_of_ne (fun hca => ha (by rwa [← hca])) b next

/-- Insertion of a new node at the head. -/
theorem push {l : List α} (hl : LinkedChain next null h l) {a : α} (hne : a ≠ null)
    (ha : a ∉ l) : LinkedChain (Function.update next a h) null a (a :: l) := by
  refine ⟨rfl, hne, ?_⟩
  rw [Function.update_self]
  exact hl.update_of_notMem h ha

/-- Removal of the node behind `p`: the successor of `p` skips it. -/
theorem unlink {l₁ l₂ : List α} {p a : α} (hl : LinkedChain next null h (l₁ ++ p :: a :: l₂)) :
    LinkedChain (Function.update next p (next a)) null h (l₁ ++ p :: l₂) := by
  induction l₁ generalizing h with
  | nil =>
    have hnodup := nodup hl
    obtain ⟨rfl, hp, -, -, htail⟩ := hl
    refine ⟨rfl, hp, ?_⟩
    rw [Function.update_self]
    simp only [List.nil_append, List.nodup_cons, List.mem_cons, not_or] at hnodup
    exact htail.update_of_notMem _ hnodup.1.2
  | cons b l₁ ih =>
    have hb : b ≠ p := by
      rintro rfl
      have hnodup := nodup hl
      simp at hnodup
    refine ⟨hl.1, hl.2.1, ?_⟩
    rw [Function.update_of_ne hb]
    exact ih hl.2.2

end Update

end LinkedChain

end TwistedOS
