import Mathlib.Data.List.Basic

/-!
# Streams of codes

A sequence of codes is sent as the symbols of each code, one after the other. A receiver that has
seen some number of symbols has seen some codes whole, and is at a place in the next one.

## Main definitions

* `CodeStream.complete`, `CodeStream.next?`, `CodeStream.place`.

## Main results

* `CodeStream.exists_next`: what the next symbol is, and where the receiver is behind it.
-/

namespace TwistedOS

namespace CodeStream

variable {γ α : Type*} (symbols : γ → List α) {code : γ} {codes : List γ} {n : ℕ}

/-- The codes that are whole within the first `n` symbols. -/
def complete : List γ → ℕ → List γ
  | [], _ => []
  | code :: codes, n =>
    if (symbols code).length ≤ n then code :: complete codes (n - (symbols code).length) else []

/-- The code that the next symbol belongs to. -/
def next? (codes : List γ) (n : ℕ) : Option γ := codes[(complete symbols codes n).length]?

/-- The place of the next symbol in its code. -/
def place (codes : List γ) (n : ℕ) : ℕ := n - ((complete symbols codes n).flatMap symbols).length

variable {symbols}

theorem complete_of_le (h : (symbols code).length ≤ n) :
    complete symbols (code :: codes) n =
      code :: complete symbols codes (n - (symbols code).length) :=
  if_pos h

theorem complete_of_lt (h : n < (symbols code).length) : complete symbols (code :: codes) n = [] :=
  if_neg (Nat.not_le.mpr h)

theorem complete_zero (hsymbols : ∀ code, symbols code ≠ []) : complete symbols codes 0 = [] := by
  cases codes with
  | nil => rfl
  | cons code codes => exact complete_of_lt (List.length_pos_iff.mpr (hsymbols code))

theorem next?_of_le (h : (symbols code).length ≤ n) :
    next? symbols (code :: codes) n = next? symbols codes (n - (symbols code).length) := by
  rw [next?, complete_of_le h, List.length_cons, List.getElem?_cons_succ]
  rfl

theorem place_of_le (h : (symbols code).length ≤ n) :
    place symbols (code :: codes) n = place symbols codes (n - (symbols code).length) := by
  rw [place, complete_of_le h, List.flatMap_cons, List.length_append, ← Nat.sub_sub]
  rfl

theorem next?_of_lt (h : n < (symbols code).length) :
    next? symbols (code :: codes) n = some code := by
  rw [next?, complete_of_lt h]
  rfl

theorem place_of_lt (h : n < (symbols code).length) : place symbols (code :: codes) n = n := by
  rw [place, complete_of_lt h]
  rfl

theorem place_zero : place symbols codes 0 = 0 := Nat.zero_sub _

variable (symbols) in
/-- The next symbol of a stream: it is the one at a place of the code that is next, and it ends this
code or leads to the next place. -/
structure IsNext (codes : List γ) (n : ℕ) (code : γ) (symbol : α) : Prop where
  next?_eq : next? symbols codes n = some code
  symbol_eq : (symbols code)[place symbols codes n]? = some symbol
  inside : place symbols codes n + 1 < (symbols code).length →
    complete symbols codes (n + 1) = complete symbols codes n ∧
      place symbols codes (n + 1) = place symbols codes n + 1
  last : place symbols codes n + 1 = (symbols code).length →
    complete symbols codes (n + 1) = complete symbols codes n ++ [code] ∧
      place symbols codes (n + 1) = 0

theorem exists_next (hsymbols : ∀ code, symbols code ≠ []) {symbol : α}
    (h : (codes.flatMap symbols)[n]? = some symbol) : ∃ code, IsNext symbols codes n code symbol := by
  induction codes generalizing n with
  | nil => cases h
  | cons code codes ih =>
    rw [List.flatMap_cons] at h
    rcases Nat.lt_or_ge n (symbols code).length with hlt | hle
    · rw [List.getElem?_append_left hlt] at h
      refine ⟨code, ⟨next?_of_lt hlt, by rwa [place_of_lt hlt], fun hinside => ?_, fun hlast => ?_⟩⟩
      · rw [place_of_lt hlt] at hinside ⊢
        rw [complete_of_lt hinside, complete_of_lt hlt, place_of_lt hinside]
        exact ⟨rfl, rfl⟩
      · rw [place_of_lt hlt] at hlast
        have hle := Nat.le_of_eq hlast.symm
        rw [complete_of_le hle, complete_of_lt hlt, place_of_le hle, hlast, Nat.sub_self,
          complete_zero hsymbols, place_zero]
        exact ⟨rfl, rfl⟩
    · rw [List.getElem?_append_right hle] at h
      obtain ⟨next, hnext⟩ := ih h
      have hsucc : n + 1 - (symbols code).length = n - (symbols code).length + 1 :=
        Nat.sub_add_comm hle
      have hle' := Nat.le_succ_of_le hle
      refine ⟨next, ⟨?_, ?_, fun hinside => ?_, fun hlast => ?_⟩⟩
      · rw [next?_of_le hle, hnext.next?_eq]
      · rw [place_of_le hle, hnext.symbol_eq]
      · rw [place_of_le hle] at hinside ⊢
        obtain ⟨hcomplete, hplace⟩ := hnext.inside hinside
        rw [complete_of_le hle', complete_of_le hle, place_of_le hle', hsucc, hcomplete, hplace]
        exact ⟨rfl, rfl⟩
      · rw [place_of_le hle] at hlast
        obtain ⟨hcomplete, hplace⟩ := hnext.last hlast
        rw [complete_of_le hle', complete_of_le hle, place_of_le hle', hsucc, hcomplete, hplace]
        exact ⟨rfl, rfl⟩

end CodeStream

end TwistedOS
