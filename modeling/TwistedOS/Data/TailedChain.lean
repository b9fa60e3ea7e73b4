import TwistedOS.Data.LinkedChain

/-!
# Chains with a tail pointer

A singly linked queue keeps, besides its first node, its last one, so that a node is appended
without a walk. `TailedChain next null h t l` says that the nodes met from `h` are those of `l` and
that `t` is the last of them, or `null` where there is none. The stores by which programs append a
node, take the first one and take out one behind its predecessor do this to the represented list.

## Main definitions

* `TailedChain next null h t l`

## Main results

* `TailedChain.snoc`, `TailedChain.tail`, `TailedChain.unlink`.
-/

namespace TwistedOS

variable {α : Type*} {next next' : α → α} {null h t a b p : α} {l l₁ l₂ : List α}

namespace LinkedChain

/-- The successor of a node is the one behind it in the list. -/
theorem next_eq (hl : LinkedChain next null h (l₁ ++ a :: l₂)) : next a = l₂.head?.getD null := by
  obtain ⟨-, -, hnext⟩ := hl.of_append_cons
  cases l₂ with
  | nil => exact hnext
  | cons b l₂ => exact hnext.1

theorem head_eq (hl : LinkedChain next null h l) : h = l.head?.getD null := by
  cases l with
  | nil => exact hl
  | cons a l => exact hl.1

/-- The head of a chain is `null` exactly when the chain is empty. -/
theorem head_eq_null_iff (hl : LinkedChain next null h l) : h = null ↔ l = [] := by
  constructor
  · rintro rfl
    exact hl.eq_nil_of_null
  · rintro rfl
    exact hl

variable [DecidableEq α]

/-- A node that ends a chain of its own is linked behind the last node. -/
theorem snoc (hl : LinkedChain next null h (l ++ [b])) (ha : a ∉ l ++ [b]) (hne : a ≠ null)
    (hnull : next a = null) : LinkedChain (Function.update next b a) null h (l ++ [b, a]) := by
  induction l generalizing h with
  | nil =>
    have hab : a ≠ b := fun hab => ha (by simp [hab])
    obtain ⟨rfl, hb, -⟩ := hl
    refine ⟨rfl, hb, Function.update_self .., hne, ?_⟩
    rw [Function.update_of_ne hab]
    exact hnull
  | cons c l ih =>
    have hcb : c ≠ b := by
      rintro rfl
      simpa using nodup hl
    refine ⟨hl.1, hl.2.1, ?_⟩
    rw [Function.update_of_ne hcb]
    exact ih hl.2.2 fun hmem => ha (List.mem_cons_of_mem c hmem)

end LinkedChain

/-- Following `next` from `h` meets the nodes of the list, and `t` is the last of them. -/
structure TailedChain (next : α → α) (null h t : α) (l : List α) : Prop where
  chain : LinkedChain next null h l
  tail_eq : t = l.getLastD null

namespace TailedChain

theorem nil : TailedChain next null null null [] := ⟨rfl, rfl⟩

section

variable (hl : TailedChain next null h t l)

include hl

/-- The tail is `null` exactly when the chain is empty. -/
theorem tail_eq_null_iff : t = null ↔ l = [] := by
  constructor
  · intro ht
    rcases List.eq_nil_or_concat l with rfl | ⟨l, b, rfl⟩
    · rfl
    · rw [List.concat_eq_append] at hl
      have htb : t = b := hl.tail_eq.trans (List.getLastD_concat ..)
      exact absurd (htb.symm.trans ht) (hl.chain.ne_null (by simp))
  · rintro rfl
    exact hl.tail_eq

theorem next_tail (hne : l ≠ []) : next t = null := by
  rcases List.eq_nil_or_concat l with rfl | ⟨l, b, rfl⟩
  · exact absurd rfl hne
  · rw [List.concat_eq_append] at hl
    have htb : t = b := hl.tail_eq.trans (List.getLastD_concat ..)
    rw [htb]
    exact hl.chain.next_eq

theorem tail_mem (hne : l ≠ []) : t ∈ l := by
  rw [hl.tail_eq, List.getLastD_eq_getLast?, List.getLast?_eq_getLast_of_ne_nil hne]
  exact List.getLast_mem hne

end

variable [DecidableEq α]

/-- The first node of a queue: its link is cleared and it becomes head and tail. -/
theorem singleton (hne : a ≠ null) : TailedChain (Function.update next a null) null a a [a] :=
  ⟨⟨rfl, hne, Function.update_self ..⟩, rfl⟩

/-- Appending a new node: its link is cleared, and the tail is linked to it. -/
theorem snoc (hl : TailedChain next null h t l) (ht : t ≠ null) (ha : a ∉ l) (hne : a ≠ null) :
    TailedChain (Function.update (Function.update next a null) t a) null h a (l ++ [a]) := by
  rcases List.eq_nil_or_concat l with rfl | ⟨l, b, rfl⟩
  · exact absurd hl.tail_eq ht
  rw [List.concat_eq_append] at hl ha ⊢
  obtain rfl : t = b := hl.tail_eq.trans (List.getLastD_concat ..)
  refine ⟨?_, (List.getLastD_concat ..).symm⟩
  have hcleared : LinkedChain (Function.update next a null) null h (l ++ [t]) :=
    hl.chain.update_of_notMem null ha
  rw [List.append_assoc]
  exact hcleared.snoc ha hne (Function.update_self ..)

/-- Taking the first node: the head moves on, the tail is cleared with the last node, and the link
of the node is cleared. -/
theorem tail (hl : TailedChain next null h t (a :: l)) :
    TailedChain (Function.update next a null) null (next a)
      (if next a = null then null else t) l := by
  have ha : a ∉ l := (List.nodup_cons.mp hl.chain.nodup).1
  obtain ⟨-, -, hchain⟩ := hl.chain
  refine ⟨hchain.update_of_notMem null ha, ?_⟩
  cases l with
  | nil => exact if_pos hchain
  | cons b l =>
    rw [if_neg (hchain.1 ▸ hchain.2.1), hl.tail_eq, List.getLastD_cons, List.getLastD_cons,
      List.getLastD_cons]

/-- Taking out the node behind `p`: the link of `p` skips it, the tail steps back to `p` with the
last node, and the link of the node is cleared. -/
theorem unlink (hl : TailedChain next null h t (l₁ ++ p :: a :: l₂)) :
    TailedChain (Function.update (Function.update next p (next a)) a null) null h
      (if t = a then p else t) (l₁ ++ p :: l₂) := by
  have hnodup := hl.chain.nodup
  have hap : a ∉ l₁ ++ p :: l₂ := by
    simp only [List.nodup_append, List.nodup_cons, List.mem_cons, not_or] at hnodup
    simp only [List.mem_append, List.mem_cons, not_or]
    exact ⟨fun hmem => hnodup.2.2 a hmem a (by simp) rfl, Ne.symm hnodup.2.1.1.1,
      hnodup.2.1.2.1⟩
  refine ⟨hl.chain.unlink.update_of_notMem null hap, ?_⟩
  have ht := hl.tail_eq
  rcases List.eq_nil_or_concat l₂ with rfl | ⟨l₂, b, rfl⟩
  · rw [if_pos (by rw [ht]; simp)]
    simp
  · rw [List.concat_eq_append] at ht hnodup ⊢
    have hb : t = b := by
      rw [ht, ← List.cons_append, ← List.cons_append, ← List.append_assoc, List.getLastD_concat]
    have hab : t ≠ a := by
      rintro rfl
      rw [hb] at hnodup
      exact (List.nodup_cons.mp (List.nodup_cons.mp (List.nodup_append.mp hnodup).2.1).2).1
        (by simp)
    rw [if_neg hab, hb, ← List.cons_append, ← List.append_assoc, List.getLastD_concat]

end TailedChain

end TwistedOS
