import Mathlib.Algebra.BigOperators.Group.Finset.Basic
import Mathlib.Algebra.Order.BigOperators.Group.Finset
import Mathlib.Data.Nat.Bitwise
import Mathlib.Algebra.BigOperators.Ring.Finset
import Mathlib.Order.Interval.Finset.Nat

/-!
# Tilings of an interval by dyadic blocks

A dyadic block of order `k` is an interval of `2 ^ k` consecutive natural numbers whose first
element is a multiple of `2 ^ k`. A list of blocks *tiles* `[0, n)` when every number below `n`
lies in exactly one block of the list and no other number lies in any. Counting the blocks over
a number makes the two operations of a buddy system, splitting a block into its halves and
merging two halves, plain additive identities.

## Main definitions

* `DyadicBlock`, `DyadicBlock.Contains`, `DyadicBlock.size`, `DyadicBlock.Aligned`.
* `coverCount bs i`: the number of blocks of `bs` over `i`.
* `Tiles n bs`: `bs` consists of aligned blocks and tiles `[0, n)`.

## Main results

* `xor_two_pow_of_dvd`: the index of the buddy.
* `tiles_split_iff`: a block may be exchanged for its two halves.
* `Tiles.pairwise_disjoint`, `Tiles.sum_size`.
-/

namespace TwistedOS

/-- The numbers `start, …, start + 2 ^ order - 1`. -/
structure DyadicBlock where
  start : ℕ
  order : ℕ
  deriving DecidableEq, Repr

namespace DyadicBlock

/-- The number of elements of a block. -/
def size (b : DyadicBlock) : ℕ := 2 ^ b.order

/-- The number `i` lies in the block. -/
def Contains (b : DyadicBlock) (i : ℕ) : Prop := b.start ≤ i ∧ i < b.start + b.size

instance (b : DyadicBlock) (i : ℕ) : Decidable (b.Contains i) :=
  inferInstanceAs (Decidable (_ ∧ _))

/-- The block starts at a multiple of its size. -/
def Aligned (b : DyadicBlock) : Prop := b.size ∣ b.start

instance (b : DyadicBlock) : Decidable b.Aligned := inferInstanceAs (Decidable (_ ∣ _))

/-- The two blocks have no number in common. -/
def Disjoint (b c : DyadicBlock) : Prop :=
  b.start + b.size ≤ c.start ∨ c.start + c.size ≤ b.start

instance (b c : DyadicBlock) : Decidable (b.Disjoint c) := inferInstanceAs (Decidable (_ ∨ _))

theorem size_pos (b : DyadicBlock) : 0 < b.size := Nat.two_pow_pos b.order

@[simp] theorem size_mk (s k : ℕ) : (DyadicBlock.mk s k).size = 2 ^ k := rfl

theorem contains_start (b : DyadicBlock) : b.Contains b.start :=
  ⟨le_rfl, Nat.lt_add_of_pos_right b.size_pos⟩

theorem contains_unit {k i : ℕ} : (⟨k, 0⟩ : DyadicBlock).Contains i ↔ i = k := by
  simp only [Contains, size_mk]
  omega

theorem disjoint_of_not_contains {b c : DyadicBlock}
    (h : ∀ i, b.Contains i → ¬ c.Contains i) : b.Disjoint c := by
  have hb := b.size_pos
  have hc := c.size_pos
  have h₁ := h b.start b.contains_start
  have h₂ := h c.start
  simp only [Contains] at h₁ h₂
  unfold Disjoint
  omega

/-- Of two blocks that meet, one contains the start of the other. -/
theorem Contains.start_or {b c : DyadicBlock} {i : ℕ} (hb : b.Contains i) (hc : c.Contains i) :
    b.Contains c.start ∨ c.Contains b.start := by
  simp only [Contains] at *
  omega

theorem Disjoint.symm {b c : DyadicBlock} (h : b.Disjoint c) : c.Disjoint b := Or.symm h

end DyadicBlock

/-! ### The buddy of an aligned block -/

private theorem mul_two_pow_xor (q k : ℕ) : q * 2 ^ k ^^^ 2 ^ k = (q ^^^ 1) * 2 ^ k := by
  rw [← Nat.shiftLeft_eq, ← Nat.shiftLeft_eq, Nat.shiftLeft_xor_distrib, Nat.one_shiftLeft]

private theorem xor_one_eq (q : ℕ) : q ^^^ 1 = if q % 2 = 0 then q + 1 else q - 1 := by
  split_ifs with hq
  · rw [Nat.xor_one_of_even (Nat.even_iff.mpr hq)]
  · rw [Nat.xor_one_of_odd (Nat.odd_iff.mpr (by omega))]

/-- Flipping bit `k` of a multiple of `2 ^ k` gives the adjacent multiple: the one behind when
the index is a multiple of `2 ^ (k + 1)`, the one in front otherwise. -/
theorem xor_two_pow_of_dvd {i k : ℕ} (hi : 2 ^ k ∣ i) :
    i ^^^ 2 ^ k = if 2 ^ (k + 1) ∣ i then i + 2 ^ k else i - 2 ^ k := by
  obtain ⟨q, rfl⟩ := hi
  have hdvd : 2 ^ (k + 1) ∣ 2 ^ k * q ↔ q % 2 = 0 := by
    rw [pow_succ, Nat.mul_dvd_mul_iff_left (Nat.two_pow_pos k), Nat.dvd_iff_mod_eq_zero]
  rw [Nat.mul_comm, mul_two_pow_xor, xor_one_eq]
  simp only [Nat.mul_comm q, hdvd]
  split_ifs <;> simp [Nat.add_mul, Nat.sub_mul, Nat.mul_comm]

/-- An odd multiple of `2 ^ k` follows a multiple of `2 ^ (k + 1)`. -/
theorem two_pow_succ_dvd_sub {i k : ℕ} (hi : 2 ^ k ∣ i) (hodd : ¬ 2 ^ (k + 1) ∣ i) :
    2 ^ (k + 1) ∣ i - 2 ^ k ∧ 2 ^ k ≤ i := by
  obtain ⟨q, rfl⟩ := hi
  rw [pow_succ] at hodd ⊢
  rw [Nat.mul_dvd_mul_iff_left (Nat.two_pow_pos k)] at hodd
  have hq : q = 2 * (q / 2) + 1 := by omega
  refine ⟨⟨q / 2, ?_⟩, Nat.le_mul_of_pos_right _ (by omega)⟩
  calc 2 ^ k * q - 2 ^ k = 2 ^ k * (2 * (q / 2) + 1) - 2 ^ k := by rw [← hq]
    _ = 2 ^ k * 2 * (q / 2) := by rw [Nat.mul_add, Nat.mul_one, Nat.add_sub_cancel, Nat.mul_assoc]

/-! ### Tilings -/

/-- The number of blocks of the list over `i`. -/
def coverCount (bs : List DyadicBlock) (i : ℕ) : ℕ := bs.countP (fun b => b.Contains i)

@[simp] theorem coverCount_nil (i : ℕ) : coverCount [] i = 0 := rfl

theorem coverCount_cons (b : DyadicBlock) (bs : List DyadicBlock) (i : ℕ) :
    coverCount (b :: bs) i = coverCount bs i + if b.Contains i then 1 else 0 := by
  simp [coverCount, List.countP_cons]

@[simp] theorem coverCount_append (bs cs : List DyadicBlock) (i : ℕ) :
    coverCount (bs ++ cs) i = coverCount bs i + coverCount cs i := by
  simp [coverCount]

theorem coverCount_perm {bs cs : List DyadicBlock} (h : bs.Perm cs) (i : ℕ) :
    coverCount bs i = coverCount cs i :=
  h.countP_eq _

theorem coverCount_pos {bs : List DyadicBlock} {i : ℕ} :
    0 < coverCount bs i ↔ ∃ b ∈ bs, b.Contains i := by
  simp [coverCount, List.countP_pos_iff]

/-! ### Blocks of one number -/

/-- The blocks of order `0` at the given numbers. -/
def unitBlocks (ks : List ℕ) : List DyadicBlock := ks.map fun k => ⟨k, 0⟩

@[simp] theorem unitBlocks_cons (k : ℕ) (ks : List ℕ) :
    unitBlocks (k :: ks) = ⟨k, 0⟩ :: unitBlocks ks := rfl

@[simp] theorem unitBlocks_append (ks ls : List ℕ) :
    unitBlocks (ks ++ ls) = unitBlocks ks ++ unitBlocks ls := List.map_append

theorem mem_unitBlocks {b : DyadicBlock} {ks : List ℕ} :
    b ∈ unitBlocks ks ↔ ∃ k ∈ ks, b = ⟨k, 0⟩ := by
  simp only [unitBlocks, List.mem_map, eq_comm]

theorem sum_size_unitBlocks (ks : List ℕ) :
    ((unitBlocks ks).map DyadicBlock.size).sum = ks.length := by
  induction ks with
  | nil => rfl
  | cons k ks ih => rw [unitBlocks_cons, List.map_cons, List.sum_cons, ih, List.length_cons,
      DyadicBlock.size_mk, pow_zero, Nat.add_comm]

theorem coverCount_unitBlocks (ks : List ℕ) (i : ℕ) : coverCount (unitBlocks ks) i = ks.count i := by
  induction ks with
  | nil => rfl
  | cons k ks ih =>
    rw [unitBlocks_cons, coverCount_cons, ih, List.count_cons]
    congr 1
    simp only [DyadicBlock.Contains, DyadicBlock.size_mk, pow_zero, beq_iff_eq]
    exact if_congr (by omega) rfl rfl

/-- The numbers of a block. -/
def DyadicBlock.elements (b : DyadicBlock) : List ℕ := List.range' b.start b.size

@[simp] theorem DyadicBlock.mem_elements {b : DyadicBlock} {i : ℕ} :
    i ∈ b.elements ↔ b.Contains i := List.mem_range'_1

theorem DyadicBlock.nodup_elements (b : DyadicBlock) : b.elements.Nodup := List.nodup_range'

/-- A block covers the same numbers as the unit blocks at its elements. -/
theorem coverCount_elements (b : DyadicBlock) (bs : List DyadicBlock) (i : ℕ) :
    coverCount (unitBlocks b.elements ++ bs) i = coverCount (b :: bs) i := by
  rw [coverCount_append, coverCount_cons, coverCount_unitBlocks, Nat.add_comm,
    b.nodup_elements.count]
  simp

/-- A block covers a number as often as its two halves do. -/
theorem coverCount_halves (s k : ℕ) (bs : List DyadicBlock) (i : ℕ) :
    coverCount (⟨s, k + 1⟩ :: bs) i = coverCount (⟨s, k⟩ :: ⟨s + 2 ^ k, k⟩ :: bs) i := by
  have hpow : 2 ^ (k + 1) = 2 ^ k + 2 ^ k := by rw [pow_succ]; omega
  have hpos := Nat.two_pow_pos k
  by_cases hlow : i < s + 2 ^ k <;>
    simp [coverCount_cons, DyadicBlock.Contains, hpow, hlow] <;> grind

/-- The blocks are aligned and every number below `n`, and no other, lies in exactly one. -/
structure Tiles (n : ℕ) (bs : List DyadicBlock) : Prop where
  aligned : ∀ b ∈ bs, b.Aligned
  cover : ∀ i, coverCount bs i = if i < n then 1 else 0

theorem Tiles.perm {n : ℕ} {bs cs : List DyadicBlock} (h : Tiles n bs) (hp : bs.Perm cs) :
    Tiles n cs where
  aligned b hb := h.aligned b (hp.mem_iff.mpr hb)
  cover i := by rw [← coverCount_perm hp, h.cover]

theorem tiles_nil : Tiles 0 [] := ⟨by simp, by simp⟩

/-- In a tiling, aligned blocks may be exchanged for others that cover the same numbers. -/
theorem Tiles.exchange {n : ℕ} {as bs cs : List DyadicBlock} (h : Tiles n (as ++ bs))
    (haligned : ∀ c ∈ cs, c.Aligned) (hcover : ∀ i, coverCount cs i = coverCount bs i) :
    Tiles n (as ++ cs) where
  aligned b hb := (List.mem_append.mp hb).elim (fun hb => h.aligned b (List.mem_append_left bs hb))
    (haligned b)
  cover i := by rw [coverCount_append, hcover, ← coverCount_append, h.cover]

/-- A tiling may be continued by an aligned block at its end. -/
theorem Tiles.extend {n k : ℕ} {bs : List DyadicBlock} (h : Tiles n bs) (hk : 2 ^ k ∣ n) :
    Tiles (n + 2 ^ k) (⟨n, k⟩ :: bs) where
  aligned := by
    simp only [List.forall_mem_cons]
    exact ⟨hk, h.aligned⟩
  cover i := by
    have hpos := Nat.two_pow_pos k
    rw [coverCount_cons, h.cover]
    by_cases hi : i < n <;> simp [DyadicBlock.Contains] <;> grind

private theorem aligned_halves_iff {s k : ℕ} (hs : 2 ^ (k + 1) ∣ s) :
    (DyadicBlock.mk s k).Aligned ∧ (DyadicBlock.mk (s + 2 ^ k) k).Aligned := by
  have hk : 2 ^ k ∣ s := (pow_dvd_pow 2 k.le_succ).trans hs
  exact ⟨hk, (Nat.dvd_add_right hk).mpr dvd_rfl⟩

/-- In a tiling, an aligned block may be exchanged for its two halves and back. -/
theorem tiles_split_iff {n s k : ℕ} {bs : List DyadicBlock} (hs : 2 ^ (k + 1) ∣ s) :
    Tiles n (⟨s, k + 1⟩ :: bs) ↔ Tiles n (⟨s, k⟩ :: ⟨s + 2 ^ k, k⟩ :: bs) := by
  constructor
  · intro h
    refine ⟨?_, fun i => by rw [← coverCount_halves, h.cover]⟩
    simp only [List.forall_mem_cons]
    exact ⟨(aligned_halves_iff hs).1, (aligned_halves_iff hs).2,
      fun b hb => h.aligned b (List.mem_cons_of_mem _ hb)⟩
  · intro h
    refine ⟨?_, fun i => by rw [coverCount_halves, h.cover]⟩
    simp only [List.forall_mem_cons]
    exact ⟨hs, fun b hb => h.aligned b (by simp [hb])⟩

namespace Tiles

variable {n : ℕ} {bs : List DyadicBlock}

theorem lt_of_contains (h : Tiles n bs) {b : DyadicBlock} (hb : b ∈ bs) {i : ℕ}
    (hi : b.Contains i) : i < n := by
  have hpos := coverCount_pos.mpr ⟨b, hb, hi⟩
  rw [h.cover] at hpos
  by_contra hlt
  simp [hlt] at hpos

theorem end_le (h : Tiles n bs) {b : DyadicBlock} (hb : b ∈ bs) : b.start + b.size ≤ n := by
  have hpos := b.size_pos
  have hlast : b.Contains (b.start + b.size - 1) := by
    constructor <;> omega
  have := h.lt_of_contains hb hlast
  omega

/-- The numbers in some block of a tiling are exactly those below `n`. -/
theorem exists_contains_iff (h : Tiles n bs) (i : ℕ) : (∃ b ∈ bs, b.Contains i) ↔ i < n := by
  rw [← coverCount_pos, h.cover]
  split_ifs with hi <;> simp [hi]

/-- The blocks of a tiling are pairwise disjoint. -/
theorem pairwise_disjoint (h : Tiles n bs) : bs.Pairwise DyadicBlock.Disjoint := by
  have hle : ∀ i, coverCount bs i ≤ 1 := fun i => by rw [h.cover]; split_ifs <;> omega
  clear h
  induction bs with
  | nil => exact List.Pairwise.nil
  | cons b bs ih =>
    simp only [coverCount_cons] at hle
    refine List.Pairwise.cons (fun c hc => ?_) (ih fun i => by have := hle i; omega)
    refine DyadicBlock.disjoint_of_not_contains fun i hbi hci => ?_
    have hpos : 0 < coverCount bs i := coverCount_pos.mpr ⟨c, hc, hci⟩
    have hsum := hle i
    rw [if_pos hbi] at hsum
    omega

private theorem sum_contains (b : DyadicBlock) (hb : b.start + b.size ≤ n) :
    ∑ i ∈ Finset.range n, (if b.Contains i then 1 else 0) = b.size := by
  rw [← Finset.card_filter]
  have hset : (Finset.range n).filter b.Contains = Finset.Ico b.start (b.start + b.size) := by
    ext i
    simp only [Finset.mem_filter, Finset.mem_range, DyadicBlock.Contains, Finset.mem_Ico]
    omega
  rw [hset, Nat.card_Ico]
  omega

private theorem sum_coverCount (cs : List DyadicBlock)
    (hcs : ∀ b ∈ cs, b.start + b.size ≤ n) :
    ∑ i ∈ Finset.range n, coverCount cs i = (cs.map DyadicBlock.size).sum := by
  induction cs with
  | nil => simp
  | cons b cs ih =>
    simp only [coverCount_cons, Finset.sum_add_distrib, List.map_cons, List.sum_cons]
    rw [ih fun c hc => hcs c (List.mem_cons_of_mem b hc),
      sum_contains b (hcs b List.mem_cons_self), Nat.add_comm]

/-- The sizes of the blocks of a tiling add up to the length of the tiled interval. -/
theorem sum_size (h : Tiles n bs) : (bs.map DyadicBlock.size).sum = n := by
  rw [← sum_coverCount bs fun b hb => h.end_le hb,
    Finset.sum_congr rfl fun i hi => by
      rw [h.cover, if_pos (Finset.mem_range.mp hi)]]
  simp

end Tiles

end TwistedOS
