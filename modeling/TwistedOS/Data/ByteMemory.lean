import Mathlib.Tactic.Ring

/-!
# Byte-addressed memory

A memory gives the byte at every address. Unsigned values of `n` bytes are loaded and stored in
little-endian order. A load returns what was stored at the same place and is unaffected by stores
elsewhere.

## Main definitions

* `ByteMemory`, `ByteMemory.load`, `ByteMemory.store`.
* `ByteMemory.storeAll` — single bytes stored one after the other, at any addresses.

## Main results

* `ByteMemory.load_store_self`, `ByteMemory.load_store_of_disjoint`, `ByteMemory.load_congr`.
* `ByteMemory.storeAll_apply_of_agree`, `ByteMemory.storeAll_append_of_covered`.
-/

namespace TwistedOS

/-- The byte at every address. -/
abbrev ByteMemory := ℕ → UInt8

namespace ByteMemory

/-- The unsigned value of the `n` bytes from `a` on. -/
def load (mem : ByteMemory) : (a n : ℕ) → ℕ
  | _, 0 => 0
  | a, n + 1 => (mem a).toNat + 256 * load mem (a + 1) n

/-- Writes the `n` low bytes of a value from `a` on. -/
def store (mem : ByteMemory) : (a n value : ℕ) → ByteMemory
  | _, 0, _ => mem
  | a, n + 1, value =>
    Function.update (store mem (a + 1) n (value / 256)) a (UInt8.ofNat value)

variable {mem mem' : ByteMemory} {a b n k value : ℕ}

theorem store_apply_of_notMem (hb : b < a ∨ a + n ≤ b) : store mem a n value b = mem b := by
  induction n generalizing a value with
  | zero => rfl
  | succ n ih =>
    rw [store, Function.update_of_ne (by omega)]
    exact ih (by omega)

theorem load_congr (h : ∀ b, a ≤ b → b < a + n → mem' b = mem b) :
    load mem' a n = load mem a n := by
  induction n generalizing a with
  | zero => rfl
  | succ n ih =>
    rw [load, load, h a le_rfl (by omega), ih fun b hab hbn => h b (by omega) (by omega)]

/-- Equal bytes at two places have the same value. -/
theorem load_eq_of_bytes (h : ∀ i < n, mem' (b + i) = mem (a + i)) :
    load mem' b n = load mem a n := by
  induction n generalizing a b with
  | zero => rfl
  | succ n ih =>
    rw [load, load, show mem' b = mem a from h 0 (by omega), ih fun i hi => ?_]
    rw [Nat.add_assoc, Nat.add_assoc, Nat.add_comm 1 i]
    exact h (i + 1) (by omega)

theorem load_lt (mem : ByteMemory) (a n : ℕ) : load mem a n < 256 ^ n := by
  induction n generalizing a with
  | zero => exact Nat.one_pos
  | succ n ih =>
    have hbyte := (mem a).toNat_lt
    have htail := ih (a + 1)
    rw [load, pow_succ]
    omega

theorem load_add (mem : ByteMemory) (a n k : ℕ) :
    mem.load a (n + k) = mem.load a n + 256 ^ n * mem.load (a + n) k := by
  induction n generalizing a with
  | zero => simp [load]
  | succ n ih =>
    rw [Nat.add_right_comm, load, load, ih, Nat.add_right_comm a 1 n, ← Nat.add_assoc a]
    ring

/-- A load is unaffected by a store to other addresses. -/
theorem load_store_of_disjoint (h : b + k ≤ a ∨ a + n ≤ b) :
    load (store mem a n value) b k = load mem b k :=
  load_congr fun c hbc hck => store_apply_of_notMem (by omega)

/-- A load returns the low bytes of the value last stored at its address. -/
theorem load_store_mod : load (store mem a n value) a n = value % 256 ^ n := by
  induction n generalizing mem a value with
  | zero => simp [load, Nat.mod_one]
  | succ n ih =>
    have htail : load (store mem a (n + 1) value) (a + 1) n =
        load (store mem (a + 1) n (value / 256)) (a + 1) n :=
      load_congr fun c hc _ => by rw [store, Function.update_of_ne (by omega)]
    rw [load, htail, ih, store, Function.update_self, UInt8.toNat_ofNat']
    calc value % 2 ^ 8 + 256 * (value / 256 % 256 ^ n)
        = value % (256 * 256 ^ n) := (Nat.mod_mul ..).symm
      _ = value % 256 ^ (n + 1) := by rw [pow_succ, Nat.mul_comm]

theorem load_store_self (hvalue : value < 256 ^ n) : load (store mem a n value) a n = value := by
  rw [load_store_mod, Nat.mod_eq_of_lt hvalue]

/-! ### Stores of single bytes -/

/-- Stores bytes one after the other, each at its own address. -/
def storeAll (mem : ByteMemory) (stores : List (ℕ × UInt8)) : ByteMemory :=
  stores.foldl (fun mem s => Function.update mem s.1 s.2) mem

variable {stores early late : List (ℕ × UInt8)} {byte : UInt8}

@[simp] theorem storeAll_nil : storeAll mem [] = mem := rfl

@[simp] theorem storeAll_cons {s : ℕ × UInt8} :
    storeAll mem (s :: stores) = storeAll (Function.update mem s.1 s.2) stores := rfl

theorem storeAll_append :
    storeAll mem (early ++ late) = storeAll (storeAll mem early) late :=
  List.foldl_append ..

/-- An address at which every store puts the byte that is there keeps it. -/
theorem storeAll_apply_of_agree (h : ∀ s ∈ stores, s.1 = a → s.2 = mem a) :
    storeAll mem stores a = mem a := by
  induction stores generalizing mem with
  | nil => rfl
  | cons s stores ih =>
    have hhead : Function.update mem s.1 s.2 a = mem a := by
      by_cases hs : s.1 = a
      · rw [← hs, Function.update_self, h s (List.mem_cons_self ..) hs, hs]
      · exact Function.update_of_ne (Ne.symm hs) ..
    rw [storeAll_cons, ih fun t ht hta => ?_, hhead]
    rw [hhead, h t (List.mem_cons_of_mem _ ht) hta]

/-- An address that is stored to, and always with the same byte, holds this byte afterwards. -/
theorem storeAll_apply_of_mem (hmem : ∃ s ∈ stores, s.1 = a)
    (h : ∀ s ∈ stores, s.1 = a → s.2 = byte) : storeAll mem stores a = byte := by
  induction stores generalizing mem with
  | nil =>
    obtain ⟨s, hs, -⟩ := hmem
    exact absurd hs (List.not_mem_nil)
  | cons s stores ih =>
    rw [storeAll_cons]
    have htail : ∀ t ∈ stores, t.1 = a → t.2 = byte :=
      fun t ht => h t (List.mem_cons_of_mem _ ht)
    by_cases hlater : ∃ t ∈ stores, t.1 = a
    · exact ih hlater htail
    · have hs : s.1 = a := by
        obtain ⟨t, ht, hta⟩ := hmem
        rcases List.mem_cons.mp ht with rfl | ht
        · exact hta
        · exact absurd ⟨t, ht, hta⟩ hlater
      rw [storeAll_apply_of_agree fun t ht hta => absurd ⟨t, ht, hta⟩ hlater, ← hs,
        Function.update_self, h s (List.mem_cons_self ..) hs]

/-- What is stored first is of no account where it is stored over. -/
theorem storeAll_append_of_covered (hcover : ∀ s ∈ early, ∃ t ∈ late, t.1 = s.1)
    (h : ∀ t ∈ late, t.1 = a → t.2 = mem a) : storeAll mem (early ++ late) a = mem a := by
  rw [storeAll_append]
  by_cases hlate : ∃ t ∈ late, t.1 = a
  · exact storeAll_apply_of_mem hlate h
  · rw [storeAll_apply_of_agree fun t ht hta => absurd ⟨t, ht, hta⟩ hlate]
    refine storeAll_apply_of_agree fun s hs hsa => ?_
    obtain ⟨t, ht, hts⟩ := hcover s hs
    exact absurd ⟨t, ht, hts.trans hsa⟩ hlate

end ByteMemory

end TwistedOS
