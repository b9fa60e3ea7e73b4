import TwistedOS.Data.DyadicBlock

/-!
# Coalesced blocks

A collection of disjoint aligned blocks is coalesced up to an order when it has no two buddies of a
smaller order. Then every aligned run of numbers that the blocks cover lies in a single block, and
the blocks are determined by the numbers that they cover.

## Main definitions

* `DyadicBlock.buddy`, `Coalesced`.

## Main results

* `Coalesced.exists_covers`: an aligned run that is covered lies in one block.
* `Coalesced.mem_of_tiles`: coalesced tilings of the same interval have the same blocks.
-/

namespace TwistedOS

namespace DyadicBlock

/-- The block with which a block can be merged. -/
def buddy (b : DyadicBlock) : DyadicBlock := ⟨b.start ^^^ 2 ^ b.order, b.order⟩

/-- All numbers of a block lie in another one. -/
def Covers (c b : DyadicBlock) : Prop := c.start ≤ b.start ∧ b.start + b.size ≤ c.start + c.size

@[simp] theorem buddy_buddy (b : DyadicBlock) : b.buddy.buddy = b := by
  simp [buddy]

theorem buddy_ne (b : DyadicBlock) : b.buddy ≠ b := by
  intro h
  have hstart : b.start ^^^ 2 ^ b.order = b.start := congrArg start h
  have hzero : b.start ^^^ (b.start ^^^ 2 ^ b.order) = 0 := by rw [hstart, Nat.xor_self]
  rw [← Nat.xor_assoc, Nat.xor_self, Nat.zero_xor] at hzero
  exact (Nat.two_pow_pos b.order).ne' hzero

/-- The buddy of a lower half is the upper half. -/
theorem buddy_lower {s k : ℕ} (hs : 2 ^ (k + 1) ∣ s) :
    (⟨s, k⟩ : DyadicBlock).buddy = ⟨s + 2 ^ k, k⟩ := by
  rw [buddy, xor_two_pow_of_dvd ((pow_dvd_pow 2 k.le_succ).trans hs), if_pos hs]

/-- The buddy of an upper half is the lower half. -/
theorem buddy_upper {s k : ℕ} (hs : 2 ^ (k + 1) ∣ s) :
    (⟨s + 2 ^ k, k⟩ : DyadicBlock).buddy = ⟨s, k⟩ := by
  rw [← buddy_lower hs, buddy_buddy]

/-- An aligned block that meets an aligned block of at least its order lies inside it. -/
theorem Aligned.covers {b c : DyadicBlock} (hb : b.Aligned) (hc : c.Aligned)
    (hle : b.order ≤ c.order) {i : ℕ} (hbi : b.Contains i) (hci : c.Contains i) : c.Covers b := by
  obtain ⟨q, hq⟩ := hb
  obtain ⟨p, hp⟩ := hc
  obtain ⟨d, hd⟩ := pow_dvd_pow 2 hle
  rw [Contains, hq] at hbi
  rw [Contains, hp] at hci
  rw [Covers, hq, hp]
  have hpos := b.size_pos
  have hsize : c.size = b.size * d := hd
  rw [hsize] at hci ⊢
  rw [Nat.mul_assoc] at hci ⊢
  have hlow : d * p < q + 1 := by
    refine Nat.lt_of_mul_lt_mul_left (a := b.size) ?_
    rw [Nat.mul_add, Nat.mul_one]
    omega
  have hhigh : q < d * p + d := by
    refine Nat.lt_of_mul_lt_mul_left (a := b.size) ?_
    rw [Nat.mul_add]
    omega
  constructor
  · exact Nat.mul_le_mul_left _ (Nat.lt_succ_iff.mp hlow)
  · rw [← Nat.mul_succ, ← Nat.mul_add]
    exact Nat.mul_le_mul_left _ hhigh

end DyadicBlock

open DyadicBlock

/-- No two buddies of an order below `M` are among the blocks. -/
def Coalesced (M : ℕ) (bs : List DyadicBlock) : Prop :=
  ∀ b ∈ bs, b.order < M → b.buddy ∉ bs

variable {M n : ℕ} {bs cs : List DyadicBlock} {b c : DyadicBlock}

theorem Coalesced.of_subset (h : Coalesced M bs) (hsub : cs ⊆ bs) : Coalesced M cs :=
  fun b hb hlt hbuddy => h b (hsub hb) hlt (hsub hbuddy)

/-- A block without a buddy may be added. -/
theorem Coalesced.cons (h : Coalesced M bs) (hb : b.order < M → b.buddy ∉ bs) :
    Coalesced M (b :: bs) := by
  intro c hc hlt hbuddy
  rcases List.mem_cons.mp hc with rfl | hc
  · rcases List.mem_cons.mp hbuddy with hself | hbuddy
    · exact c.buddy_ne hself
    · exact hb hlt hbuddy
  · rcases List.mem_cons.mp hbuddy with hbc | hbuddy
    · rw [← hbc, buddy_buddy] at hb
      exact hb hlt hc
    · exact h c hc hlt hbuddy

/-- Two blocks of a tiling with a common number are the same. -/
theorem Tiles.eq_of_contains (h : Tiles n bs) (hb : b ∈ bs) (hc : c ∈ bs) {i : ℕ}
    (hbi : b.Contains i) (hci : c.Contains i) : b = c := by
  by_contra hne
  have hsymm : Std.Symm DyadicBlock.Disjoint := ⟨fun _ _ => DyadicBlock.Disjoint.symm⟩
  have hdisj := h.pairwise_disjoint.forall hb hc hne
  simp only [DyadicBlock.Disjoint] at hdisj
  simp only [DyadicBlock.Contains] at hbi hci
  omega

/-- An aligned run whose numbers are all covered lies in one block: otherwise its halves would be
buddies. -/
theorem Coalesced.exists_covers (h : Coalesced M bs) (haligned : ∀ b ∈ bs, b.Aligned) {s k : ℕ}
    (hk : k ≤ M) (hs : 2 ^ k ∣ s) (hcover : ∀ i, s ≤ i → i < s + 2 ^ k → ∃ b ∈ bs, b.Contains i) :
    ∃ b ∈ bs, k ≤ b.order ∧ b.Covers ⟨s, k⟩ := by
  induction k generalizing s with
  | zero =>
    obtain ⟨b, hb, hbs⟩ := hcover s le_rfl (by simp)
    exact ⟨b, hb, Nat.zero_le _, Aligned.covers hs (haligned b hb) (Nat.zero_le _)
      (contains_start _) hbs⟩
  | succ k ih =>
    have hpow : 2 ^ (k + 1) = 2 ^ k + 2 ^ k := by rw [pow_succ, Nat.mul_two]
    have hlow : 2 ^ k ∣ s := (pow_dvd_pow 2 k.le_succ).trans hs
    obtain ⟨b, hb, hbk, hbcovers⟩ := ih (by omega) hlow fun i hi hlt => hcover i hi (by omega)
    obtain ⟨c, hc, hck, hccovers⟩ := ih (by omega) ((Nat.dvd_add_right hlow).mpr dvd_rfl)
      fun i hi hlt => hcover i (by omega) (by omega)
    have hpos := Nat.two_pow_pos k
    have hbs : b.Contains s := by
      have hend : s + 2 ^ k ≤ b.start + b.size := hbcovers.2
      exact ⟨hbcovers.1, by omega⟩
    have hcs : c.Contains (s + 2 ^ k) := by
      have hend : s + 2 ^ k + 2 ^ k ≤ c.start + c.size := hccovers.2
      exact ⟨hccovers.1, by omega⟩
    rcases Nat.lt_or_ge k b.order with hlarge | hsmall
    · exact ⟨b, hb, hlarge, Aligned.covers hs (haligned b hb) hlarge (contains_start _) hbs⟩
    rcases Nat.lt_or_ge k c.order with hlarge | hsmall'
    · exact ⟨c, hc, hlarge, Aligned.covers hs (haligned c hc) hlarge
        ⟨Nat.le_add_right .., by simp only [size_mk]; omega⟩ hcs⟩
    -- both blocks have the order of the halves, and are therefore the halves
    obtain ⟨bstart, border⟩ := b
    obtain ⟨cstart, corder⟩ := c
    obtain rfl : border = k := Nat.le_antisymm hsmall hbk
    obtain rfl : corder = border := Nat.le_antisymm hsmall' hck
    obtain rfl : bstart = s := by
      have := hbcovers
      simp only [Covers, size_mk] at this
      omega
    obtain rfl : cstart = bstart + 2 ^ corder := by
      have := hccovers
      simp only [Covers, size_mk] at this
      omega
    refine absurd ?_ (h _ hb hk)
    rwa [buddy_lower hs]

/-- The blocks of coalesced tilings of the same interval are the same. -/
theorem Coalesced.mem_of_tiles (hcoalesced : Coalesced M bs) (hcoalesced' : Coalesced M cs)
    (hb : Tiles n bs) (hc : Tiles n cs) (horder : ∀ b ∈ bs, b.order ≤ M)
    (horder' : ∀ c ∈ cs, c.order ≤ M) (hmem : b ∈ bs) : b ∈ cs := by
  have hlt : ∀ i, b.Contains i → i < n := fun i hi => hb.lt_of_contains hmem hi
  obtain ⟨c, hcmem, hbc, hcovers⟩ := hcoalesced'.exists_covers hc.aligned (horder b hmem)
    (hb.aligned b hmem) fun i hi hi' => (hc.exists_contains_iff i).mpr (hlt i ⟨hi, hi'⟩)
  obtain ⟨d, hdmem, hcd, hcovers'⟩ := hcoalesced.exists_covers hb.aligned (horder' c hcmem)
    (hc.aligned c hcmem) fun i hi hi' =>
      (hb.exists_contains_iff i).mpr (hc.lt_of_contains hcmem ⟨hi, hi'⟩)
  have hpos := b.size_pos
  have hdb : d.Contains b.start := by
    have h₁ : c.start ≤ b.start ∧ b.start + b.size ≤ c.start + c.size := hcovers
    have h₂ : d.start ≤ c.start ∧ c.start + c.size ≤ d.start + d.size := hcovers'
    constructor <;> omega
  obtain rfl := hb.eq_of_contains hdmem hmem hdb (contains_start b)
  have horders : c.order = d.order := Nat.le_antisymm hcd hbc
  have hstart : c.start = d.start := Nat.le_antisymm hcovers.1 hcovers'.1
  obtain ⟨cstart, corder⟩ := c
  obtain ⟨dstart, dorder⟩ := d
  obtain rfl : corder = dorder := horders
  obtain rfl : cstart = dstart := hstart
  exact hcmem

end TwistedOS
