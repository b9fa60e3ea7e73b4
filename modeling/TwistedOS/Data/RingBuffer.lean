import Mathlib.Data.Nat.ModEq
import Mathlib.Data.List.Basic

/-!
# Ring buffers

A queue in an array of fixed size. The elements are read from one offset and written at another, and
both wrap around. The buffer stands for the list of its elements, the oldest first.

## Main definitions

* `RingBuffer`, with `RingBuffer.contents`.
* `RingBuffer.pop`, `RingBuffer.push`, `RingBuffer.unpush`.
* `RingBuffer.popMany`, `RingBuffer.pushMany`.

## Main results

* `RingBuffer.popMany_fst`, `RingBuffer.contents_popMany`.
* `RingBuffer.contents_pushMany`.
-/

namespace TwistedOS

open Function

/-- A queue in an array of `capacity` elements. -/
structure RingBuffer (α : Type*) (capacity : ℕ) where
  cells : ℕ → α
  readOffset : ℕ
  writeOffset : ℕ
  buffered : ℕ
  readOffset_lt : readOffset < capacity
  buffered_le : buffered ≤ capacity
  writeOffset_eq : writeOffset = (readOffset + buffered) % capacity

namespace RingBuffer

variable {α : Type*} {capacity : ℕ} (r : RingBuffer α capacity) {n : ℕ}

/-- A buffer without elements, over cells that hold anything. -/
def blank (cells : ℕ → α) (h : 0 < capacity) : RingBuffer α capacity where
  cells := cells
  readOffset := 0
  writeOffset := 0
  buffered := 0
  readOffset_lt := h
  buffered_le := h.le
  writeOffset_eq := (Nat.zero_mod _).symm

/-- The elements, the oldest first. -/
def contents : List α :=
  (List.range r.buffered).map fun i => r.cells ((r.readOffset + i) % capacity)

/-- The number of free places. -/
def available : ℕ := capacity - r.buffered

@[simp] theorem length_contents : r.contents.length = r.buffered := by
  rw [contents, List.length_map, List.length_range]

theorem capacity_pos (r : RingBuffer α capacity) : 0 < capacity :=
  Nat.zero_lt_of_lt r.readOffset_lt

/-- Removes the oldest element. -/
def pop (h : r.buffered ≠ 0) : RingBuffer α capacity where
  cells := r.cells
  readOffset := (r.readOffset + 1) % capacity
  writeOffset := r.writeOffset
  buffered := r.buffered - 1
  readOffset_lt := Nat.mod_lt _ r.capacity_pos
  buffered_le := (Nat.sub_le ..).trans r.buffered_le
  writeOffset_eq := by
    rw [Nat.mod_add_mod, r.writeOffset_eq]
    congr 1
    omega

/-- Adds an element. -/
def push (a : α) (h : r.buffered ≠ capacity) : RingBuffer α capacity where
  cells := update r.cells r.writeOffset a
  readOffset := r.readOffset
  writeOffset := (r.writeOffset + 1) % capacity
  buffered := r.buffered + 1
  readOffset_lt := r.readOffset_lt
  buffered_le := Nat.lt_of_le_of_ne r.buffered_le h
  writeOffset_eq := by
    rw [r.writeOffset_eq, Nat.mod_add_mod, Nat.add_assoc]

/-- Takes back the newest element. -/
def unpush (h : r.buffered ≠ 0) : RingBuffer α capacity where
  cells := r.cells
  readOffset := r.readOffset
  writeOffset := (r.writeOffset + capacity - 1) % capacity
  buffered := r.buffered - 1
  readOffset_lt := r.readOffset_lt
  buffered_le := (Nat.sub_le ..).trans r.buffered_le
  writeOffset_eq := by
    obtain ⟨n, hn⟩ := Nat.exists_eq_succ_of_ne_zero h
    have hpos := r.capacity_pos
    rw [r.writeOffset_eq, hn, Nat.succ_sub_one, Nat.add_sub_assoc hpos, Nat.mod_add_mod,
      show r.readOffset + n.succ + (capacity - 1) = r.readOffset + n + capacity by omega,
      Nat.add_mod_right]

theorem contents_eq_cons (h : r.buffered ≠ 0) :
    r.contents = r.cells r.readOffset :: (r.pop h).contents := by
  obtain ⟨n, hn⟩ := Nat.exists_eq_succ_of_ne_zero h
  rw [contents, contents, hn, List.range_succ_eq_map, List.map_cons, List.map_map]
  refine congrArg₂ List.cons ?_ ?_
  · rw [Nat.add_zero, Nat.mod_eq_of_lt r.readOffset_lt]
  · rw [show (r.pop h).buffered = n from congrArg (· - 1) hn]
    refine List.map_congr_left fun i _ => ?_
    change r.cells ((r.readOffset + (i + 1)) % capacity) =
      r.cells (((r.readOffset + 1) % capacity + i) % capacity)
    rw [Nat.mod_add_mod, Nat.add_assoc, Nat.add_comm 1]

/-- The place that is written is not one of the places that are in use. -/
theorem writeOffset_ne (h : r.buffered ≠ capacity) {i : ℕ} (hi : i < r.buffered) :
    (r.readOffset + i) % capacity ≠ r.writeOffset := by
  have hle := r.buffered_le
  rw [r.writeOffset_eq]
  intro heq
  have hmod : i ≡ r.buffered [MOD capacity] := Nat.ModEq.add_left_cancel' r.readOffset heq
  have := hmod.eq_of_lt_of_lt (by omega) (by omega)
  omega

theorem contents_push (a : α) (h : r.buffered ≠ capacity) :
    (r.push a h).contents = r.contents ++ [a] := by
  rw [contents, contents, show (r.push a h).buffered = r.buffered + 1 from rfl, List.range_succ,
    List.map_append, List.map_singleton]
  refine congrArg₂ List.append (List.map_congr_left fun i hi => ?_) ?_
  · exact update_of_ne (r.writeOffset_ne h (List.mem_range.mp hi)) ..
  · change [update r.cells r.writeOffset a ((r.readOffset + r.buffered) % capacity)] = [a]
    rw [← r.writeOffset_eq, update_self]

theorem contents_unpush (h : r.buffered ≠ 0) : (r.unpush h).contents = r.contents.dropLast := by
  obtain ⟨n, hn⟩ := Nat.exists_eq_succ_of_ne_zero h
  rw [contents, contents, show (r.unpush h).buffered = n by simp [unpush, hn], hn,
    List.range_succ, List.map_append, List.map_singleton, List.dropLast_concat]
  rfl

/-- Reads up to `n` elements. -/
def popMany : ℕ → RingBuffer α capacity → List α × RingBuffer α capacity
  | 0, r => ([], r)
  | n + 1, r =>
    if h : r.buffered = 0 then ([], r)
    else (r.cells r.readOffset :: (popMany n (r.pop h)).1, (popMany n (r.pop h)).2)

/-- Writes elements as long as there is place. -/
def pushMany : List α → RingBuffer α capacity → RingBuffer α capacity
  | [], r => r
  | a :: l, r => if h : r.buffered = capacity then r else pushMany l (r.push a h)

theorem contents_eq_nil_iff : r.contents = [] ↔ r.buffered = 0 := by
  rw [← List.length_eq_zero_iff, length_contents]

theorem popMany_of_empty (h : r.buffered = 0) (n : ℕ) : popMany n r = ([], r) := by
  cases n with
  | zero => rfl
  | succ n => rw [popMany, dif_pos h]

/-- What is read are the oldest elements. -/
theorem popMany_fst (n : ℕ) : (popMany n r).1 = r.contents.take n := by
  induction n generalizing r with
  | zero => rw [popMany, List.take_zero]
  | succ n ih =>
    rw [popMany]
    split
    · rename_i h
      rw [r.contents_eq_nil_iff.mpr h, List.take_nil]
    · rename_i h
      rw [r.contents_eq_cons h, List.take_succ_cons, ih]

/-- What is read is no longer in the buffer. -/
theorem contents_popMany (n : ℕ) : (popMany n r).2.contents = r.contents.drop n := by
  induction n generalizing r with
  | zero => rw [popMany, List.drop_zero]
  | succ n ih =>
    rw [popMany]
    split
    · rename_i h
      rw [r.contents_eq_nil_iff.mpr h, List.drop_nil]
    · rename_i h
      rw [r.contents_eq_cons h, List.drop_succ_cons, ih]

/-- What is written comes after what was in the buffer, as far as there is place. -/
theorem contents_pushMany (l : List α) :
    (pushMany l r).contents = r.contents ++ l.take r.available := by
  induction l generalizing r with
  | nil => rw [pushMany, List.take_nil, List.append_nil]
  | cons a l ih =>
    rw [pushMany]
    split
    · rename_i h
      rw [available, h, Nat.sub_self, List.take_zero, List.append_nil]
    · rename_i h
      have hle := r.buffered_le
      have hplaces : r.available = (r.push a h).available + 1 := by
        change capacity - r.buffered = capacity - (r.buffered + 1) + 1
        omega
      rw [ih, contents_push, hplaces, List.take_succ_cons, List.append_assoc,
        List.singleton_append]

end RingBuffer

end TwistedOS
