import TwistedOS.Data.LinkedChain

/-!
# Doubly linked chains

A doubly linked list in memory is a chain of `next` whose nodes also know the node before them, the
first one having `null` there. Insertion at the head and removal of any node, by the stores that
programs use for them, are insertion and removal of the represented list.

## Main definitions

* `BackLinked prev p l`: every node of `l` knows the one before it, the first one `p`.
* `DoublyLinked next prev null h l`

## Main results

* `DoublyLinked.push`, `DoublyLinked.unlink`.
-/

namespace TwistedOS

variable {α : Type*} {next next' prev prev' : α → α} {null h p : α}

/-- Every node of the list knows the one before it, and the first one knows `p`. -/
def BackLinked (prev : α → α) : α → List α → Prop
  | _, [] => True
  | p, a :: l => prev a = p ∧ BackLinked prev a l

namespace BackLinked

theorem congr {l : List α} (hl : BackLinked prev p l) (heq : ∀ a ∈ l, prev' a = prev a) :
    BackLinked prev' p l := by
  induction l generalizing p with
  | nil => trivial
  | cons a l ih =>
    refine ⟨(heq a List.mem_cons_self).trans hl.1, ih hl.2 fun b hb => ?_⟩
    exact heq b (List.mem_cons_of_mem a hb)

theorem append_iff {l₁ l₂ : List α} :
    BackLinked prev p (l₁ ++ l₂) ↔ BackLinked prev p l₁ ∧ BackLinked prev (l₁.getLastD p) l₂ := by
  induction l₁ generalizing p with
  | nil => simp [BackLinked]
  | cons a l₁ ih => simp only [List.cons_append, BackLinked, ih, and_assoc, List.getLastD_cons]

end BackLinked

/-- The chain of `next` from `h` is the list `l`, and `prev` leads back along it. -/
structure DoublyLinked (next prev : α → α) (null h : α) (l : List α) : Prop where
  chain : LinkedChain next null h l
  back : BackLinked prev null l

namespace DoublyLinked

theorem nil : DoublyLinked next prev null null [] := ⟨rfl, trivial⟩

theorem congr {l : List α} (hl : DoublyLinked next prev null h l)
    (hnext : ∀ a ∈ l, next' a = next a) (hprev : ∀ a ∈ l, prev' a = prev a) :
    DoublyLinked next' prev' null h l :=
  ⟨hl.chain.congr hnext, hl.back.congr hprev⟩

/-- The predecessor stored at a node. -/
theorem prev_eq {l₁ l₂ : List α} {a : α} (hl : DoublyLinked next prev null h (l₁ ++ a :: l₂)) :
    prev a = l₁.getLastD null :=
  (BackLinked.append_iff.mp hl.back).2.1

theorem next_eq {l₁ l₂ : List α} {a : α} (hl : DoublyLinked next prev null h (l₁ ++ a :: l₂)) :
    next a = (l₂.head?).getD null := by
  obtain ⟨-, -, htail⟩ := hl.chain.of_append_cons
  cases l₂ with
  | nil => exact htail
  | cons b l₂ => exact htail.1

variable [DecidableEq α]

/-- Insertion of a new node at the head: it points to the old head, which points back to it. -/
theorem push {l : List α} {a : α} (hl : DoublyLinked next prev null h l) (hne : a ≠ null)
    (ha : a ∉ l)
    (hnext : ∀ b ∈ a :: l, next' b = Function.update next a h b)
    (hprev : ∀ b ∈ a :: l, prev' b = Function.update (Function.update prev h a) a null b) :
    DoublyLinked next' prev' null a (a :: l) := by
  refine ⟨(hl.chain.push hne ha).congr hnext, ?_, ?_⟩
  · rw [hprev a List.mem_cons_self, Function.update_self]
  · cases l with
    | nil => trivial
    | cons b l =>
      obtain ⟨rfl, -, -⟩ := hl.chain
      have hnodup := hl.chain.nodup
      simp only [List.mem_cons, not_or, List.nodup_cons] at ha hnodup
      refine ⟨?_, hl.back.2.congr fun c hc => ?_⟩
      · rw [hprev h (by simp), Function.update_of_ne (Ne.symm ha.1), Function.update_self]
      · rw [hprev c (by simp [hc]), Function.update_of_ne, Function.update_of_ne]
        · rintro rfl
          exact hnodup.1 hc
        · rintro rfl
          exact ha.2 hc

/-- Removal of a node: its neighbours, where it has any, are linked with each other. -/
theorem unlink {l₁ l₂ : List α} {a h' : α}
    (hl : DoublyLinked next prev null h (l₁ ++ a :: l₂))
    (hhead : h' = if prev a = null then next a else h)
    (hnext : ∀ b ∈ l₁ ++ l₂, next' b = Function.update next (prev a) (next a) b)
    (hprev : ∀ b ∈ l₁ ++ l₂, prev' b = Function.update prev (next a) (prev a) b) :
    DoublyLinked next' prev' null h' (l₁ ++ l₂) := by
  have hnodup := hl.chain.nodup
  have hpa := hl.prev_eq
  have hna := hl.next_eq
  refine ⟨?_, BackLinked.append_iff.mpr ⟨?_, ?_⟩⟩
  · suffices hunlinked :
        LinkedChain (Function.update next (prev a) (next a)) null h' (l₁ ++ l₂) from
      hunlinked.congr hnext
    rcases List.eq_nil_or_concat l₁ with rfl | ⟨l₁, p, rfl⟩
    · rw [List.getLastD_nil] at hpa
      obtain ⟨rfl, hne, htail⟩ := hl.chain
      rw [hhead, if_pos hpa, hpa]
      exact htail.update_of_notMem _ fun hmem => htail.ne_null hmem rfl
    · rw [List.concat_eq_append, List.getLastD_concat] at hpa
      have hp : p ≠ null := hl.chain.ne_null (by simp)
      have hchain := hl.chain
      rw [List.concat_eq_append, List.append_assoc, List.singleton_append] at hchain ⊢
      rw [hhead, hpa, if_neg hp]
      exact hchain.unlink
  · refine (BackLinked.append_iff.mp hl.back).1.congr fun b hb => ?_
    rw [hprev b (List.mem_append_left l₂ hb), Function.update_of_ne]
    rintro rfl
    cases l₂ with
    | nil =>
      have hb' : next a ≠ null := hl.chain.ne_null (List.mem_append_left _ hb)
      exact hb' (by simpa using hna)
    | cons c l₂ =>
      obtain rfl : next a = c := by simpa using hna
      exact (List.nodup_append.mp hnodup).2.2 _ hb _ (by simp) rfl
  · cases l₂ with
    | nil => trivial
    | cons c l₂ =>
      obtain rfl : next a = c := by simpa using hna
      have hback := (BackLinked.append_iff.mp hl.back).2.2.2
      have hnodup' := (List.nodup_append.mp hnodup).2.1
      simp only [List.nodup_cons] at hnodup'
      refine ⟨?_, hback.congr fun b hb => ?_⟩
      · rw [hprev _ (by simp), Function.update_self, hpa]
      · rw [hprev b (by simp [hb]), Function.update_of_ne]
        rintro rfl
        exact hnodup'.2.1 hb

end DoublyLinked

end TwistedOS
