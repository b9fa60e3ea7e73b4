import Mathlib.Data.List.Basic
import Mathlib.Data.List.Count
import Mathlib.Tactic.SplitIfs

/-!
# Packets in a list

The elements of a list form packets, each closed by an element that ends it; the last packet may be
open. A packet is known by its number.

## Main definitions

* `Packets.packetIndex`: the number of the packet of a position.
* `Packets.packet`: the elements of a packet.

## Main results

* `Packets.exists_end`: a packet that is not the last one is closed.
* `Packets.packet_eq_filterMap`: a packet, by the positions of its elements.
-/

namespace TwistedOS

namespace Packets

variable {α : Type*} (isEnd : α → Bool)

/-- The number of the packet that an element at a position belongs to. -/
def packetIndex (l : List α) (i : ℕ) : ℕ := (l.take i).countP isEnd

/-- The elements of a packet, its end included. -/
def packet : ℕ → List α → List α
  | _, [] => []
  | 0, a :: l => if isEnd a then [a] else a :: packet 0 l
  | k + 1, a :: l => if isEnd a then packet k l else packet (k + 1) l

variable {isEnd} {l l' : List α} {a : α} {i j k : ℕ}

@[simp] theorem packetIndex_zero : packetIndex isEnd l 0 = 0 := rfl

theorem packetIndex_length : packetIndex isEnd l l.length = l.countP isEnd := by
  rw [packetIndex, List.take_length]

theorem packetIndex_cons_succ : packetIndex isEnd (a :: l) (i + 1) =
    packetIndex isEnd l i + if isEnd a then 1 else 0 := by
  rw [packetIndex, List.take_succ_cons, List.countP_cons, packetIndex]

theorem packetIndex_append (h : i ≤ l.length) :
    packetIndex isEnd (l ++ l') i = packetIndex isEnd l i := by
  rw [packetIndex, List.take_append_of_le_length h, packetIndex]

theorem packetIndex_mono (h : i ≤ j) : packetIndex isEnd l i ≤ packetIndex isEnd l j :=
  (List.take_sublist_take_left h).countP_le

theorem packetIndex_le : packetIndex isEnd l i ≤ l.countP isEnd :=
  (List.take_sublist ..).countP_le

/-- An end has the next packet after it. -/
theorem packetIndex_lt (hj : l[j]? = some a) (ha : isEnd a = true) (h : j < i) :
    packetIndex isEnd l j < packetIndex isEnd l i := by
  have hstep : packetIndex isEnd l (j + 1) = packetIndex isEnd l j + 1 := by
    rw [packetIndex, List.take_add_one, hj, Option.toList_some, List.countP_append, packetIndex,
      List.countP_singleton, if_pos ha]
  have hmono : packetIndex isEnd l (j + 1) ≤ packetIndex isEnd l i := packetIndex_mono h
  omega

/-- The packet of an end has been closed. -/
theorem packetIndex_lt_countP (hj : l[j]? = some a) (ha : isEnd a = true) :
    packetIndex isEnd l j < l.countP isEnd := by
  obtain ⟨hlt, -⟩ := List.getElem?_eq_some_iff.mp hj
  rw [← packetIndex_length]
  exact packetIndex_lt hj ha hlt

/-- Two ends in one packet are the same. -/
theorem eq_of_packetIndex_eq {b : α} (hi : l[i]? = some a) (ha : isEnd a = true)
    (hj : l[j]? = some b) (hb : isEnd b = true)
    (h : packetIndex isEnd l i = packetIndex isEnd l j) : i = j := by
  rcases Nat.lt_trichotomy i j with hlt | heq | hgt
  · exact absurd h (Nat.ne_of_lt (packetIndex_lt hi ha hlt))
  · exact heq
  · exact absurd h (Nat.ne_of_gt (packetIndex_lt hj hb hgt))

/-- A packet that is not the last one is closed. -/
theorem exists_end (h : packetIndex isEnd l i < l.countP isEnd) : ∃ j a, i ≤ j ∧
    l[j]? = some a ∧ isEnd a = true ∧ packetIndex isEnd l j = packetIndex isEnd l i := by
  induction l generalizing i with
  | nil => exact absurd h (Nat.not_lt_zero _)
  | cons b l ih =>
    cases i with
    | zero =>
      by_cases hb : isEnd b = true
      · exact ⟨0, b, Nat.le_refl 0, rfl, hb, rfl⟩
      · rw [List.countP_cons_of_neg hb, packetIndex_zero, ← packetIndex_zero] at h
        obtain ⟨j, a, -, hj, ha, heq⟩ := ih h
        refine ⟨j + 1, a, Nat.zero_le _, hj, ha, ?_⟩
        rw [packetIndex_cons_succ, if_neg hb, heq, packetIndex_zero, packetIndex_zero]
    | succ i =>
      rw [packetIndex_cons_succ, List.countP_cons] at h
      obtain ⟨j, a, hle, hj, ha, heq⟩ := ih (Nat.lt_of_add_lt_add_right h)
      exact ⟨j + 1, a, Nat.succ_le_succ hle, hj, ha,
        by rw [packetIndex_cons_succ, packetIndex_cons_succ, heq]⟩

/-- The elements of a packet are those at its positions. -/
theorem packet_eq_filterMap (l : List α) (k : ℕ) : packet isEnd k l =
    ((List.range l.length).filter fun i => packetIndex isEnd l i = k).filterMap (l[·]?) := by
  induction l generalizing k with
  | nil => cases k <;> rfl
  | cons a l ih =>
    have htail : ((List.map Nat.succ (List.range l.length)).filter fun i =>
          packetIndex isEnd (a :: l) i = k).filterMap ((a :: l)[·]?) =
        ((List.range l.length).filter fun i =>
          packetIndex isEnd l i + (if isEnd a then 1 else 0) = k).filterMap (l[·]?) := by
      rw [List.filter_map, List.filterMap_map]
      simp only [Function.comp_def, Nat.succ_eq_add_one, packetIndex_cons_succ,
        List.getElem?_cons_succ]
    rw [List.length_cons, List.range_succ_eq_map]
    cases k with
    | zero =>
      rw [List.filter_cons_of_pos (by simp), List.filterMap_cons, htail, packet]
      by_cases ha : isEnd a = true
      · simp [ha]
      · simp [ha, ih]
    | succ k =>
      rw [List.filter_cons_of_neg (by simp), htail, packet]
      by_cases ha : isEnd a = true
      · simp [ha, ih]
      · simp [ha, ih]

end Packets

end TwistedOS
