import TwistedOS.Data.ByteMemory
import Mathlib.Data.List.Basic

/-!
# Bytes placed in memory

A chunk is an address with the bytes that are stored from it on. Chunks are laid out upwards in a
part of the memory when each starts where the one before it ends, or later; such chunks do not meet
one another, and a memory that is unchanged in the part still holds them. Words are eight bytes.

## Main definitions

* `ByteMemory.storeBytes`, `ByteMemory.loadBytes`, `ByteMemory.HasBytes`.
* `ByteMemory.storeWords`, `ByteMemory.loadWords`.
* `ByteMemory.LaidOut`.

## Main results

* `ByteMemory.hasBytes_storeBytes`, `ByteMemory.loadWords_storeWords`.
* `ByteMemory.loadBytes_storeBytes`, `ByteMemory.storeBytes_append`.
* `ByteMemory.LaidOut.append`, `ByteMemory.LaidOut.congr`, `ByteMemory.LaidOut.pairwise`.
-/

namespace TwistedOS

namespace ByteMemory

variable {mem mem' : ByteMemory} {a b : ℕ}

/-! ### Bytes -/

/-- Writes bytes from an address on. -/
def storeBytes (mem : ByteMemory) : ℕ → List UInt8 → ByteMemory
  | _, [] => mem
  | a, byte :: bytes => Function.update (storeBytes mem (a + 1) bytes) a byte

/-- The memory holds bytes from an address on. -/
def HasBytes (mem : ByteMemory) : ℕ → List UInt8 → Prop
  | _, [] => True
  | a, byte :: bytes => mem a = byte ∧ HasBytes mem (a + 1) bytes

theorem storeBytes_apply_of_notMem {bytes : List UInt8} (hb : b < a ∨ a + bytes.length ≤ b) :
    storeBytes mem a bytes b = mem b := by
  induction bytes generalizing a with
  | nil => rfl
  | cons byte bytes ih =>
    rw [List.length_cons] at hb
    rw [storeBytes, Function.update_of_ne (by omega)]
    exact ih (by omega)

theorem HasBytes.congr {bytes : List UInt8} (h : HasBytes mem a bytes)
    (heq : ∀ b, a ≤ b → b < a + bytes.length → mem' b = mem b) : HasBytes mem' a bytes := by
  induction bytes generalizing a with
  | nil => trivial
  | cons byte bytes ih =>
    rw [List.length_cons] at heq
    exact ⟨(heq a (Nat.le_refl a) (by omega)).trans h.1,
      ih h.2 fun b hab hb => heq b (by omega) (by omega)⟩

theorem hasBytes_storeBytes {bytes : List UInt8} : HasBytes (storeBytes mem a bytes) a bytes := by
  induction bytes generalizing a with
  | nil => trivial
  | cons byte bytes ih =>
    refine ⟨Function.update_self .., ih.congr fun b hab _ => ?_⟩
    rw [storeBytes, Function.update_of_ne (by omega)]

/-- The bytes from an address on. -/
def loadBytes (mem : ByteMemory) (a n : ℕ) : List UInt8 := (List.range n).map fun i => mem (a + i)

@[simp] theorem length_loadBytes {n : ℕ} : (loadBytes mem a n).length = n := by simp [loadBytes]

@[simp] theorem getElem_loadBytes {n i : ℕ} (hi : i < (loadBytes mem a n).length) :
    (loadBytes mem a n)[i] = mem (a + i) := by
  simp [loadBytes]

theorem loadBytes_congr {n : ℕ} (heq : ∀ b, a ≤ b → b < a + n → mem' b = mem b) :
    loadBytes mem' a n = loadBytes mem a n :=
  List.map_congr_left fun i hi =>
    heq (a + i) (Nat.le_add_right ..) (Nat.add_lt_add_left (List.mem_range.mp hi) a)

theorem loadBytes_add (m n : ℕ) :
    loadBytes mem a (m + n) = loadBytes mem a m ++ loadBytes mem (a + m) n := by
  rw [loadBytes, List.range_add, List.map_append, List.map_map]
  refine congrArg _ (List.map_congr_left fun i _ => ?_)
  rw [Function.comp_apply, Nat.add_assoc]

theorem take_loadBytes {m n : ℕ} (h : m ≤ n) : (loadBytes mem a n).take m = loadBytes mem a m := by
  rw [loadBytes, ← List.map_take, List.take_range, Nat.min_eq_left h]
  rfl

theorem drop_loadBytes {m n : ℕ} : (loadBytes mem a n).drop m = loadBytes mem (a + m) (n - m) := by
  refine List.ext_getElem (by simp) fun i _ _ => ?_
  rw [List.getElem_drop, getElem_loadBytes, getElem_loadBytes, Nat.add_assoc]

theorem storeBytes_apply_of_mem {bytes : List UInt8} {i : ℕ} (hi : i < bytes.length) :
    storeBytes mem a bytes (a + i) = bytes[i] := by
  induction bytes generalizing a i with
  | nil => exact absurd hi (Nat.not_lt_zero i)
  | cons byte bytes ih =>
    cases i with
    | zero => exact Function.update_self ..
    | succ i =>
      have hnext : a + (i + 1) = a + 1 + i := by omega
      rw [storeBytes, Function.update_of_ne (by omega), List.getElem_cons_succ, ← ih]
      exact congrArg _ hnext

theorem loadBytes_storeBytes {bytes : List UInt8} :
    loadBytes (storeBytes mem a bytes) a bytes.length = bytes :=
  List.ext_getElem length_loadBytes fun i _ hi => by
    rw [getElem_loadBytes, storeBytes_apply_of_mem hi]

/-- The bytes that are in memory anyhow change nothing. -/
theorem storeBytes_loadBytes {n : ℕ} : storeBytes mem a (loadBytes mem a n) = mem := by
  funext b
  by_cases hb : b < a ∨ a + n ≤ b
  · exact storeBytes_apply_of_notMem (by rwa [length_loadBytes])
  · obtain ⟨i, rfl⟩ := Nat.exists_eq_add_of_le (show a ≤ b by omega)
    rw [storeBytes_apply_of_mem (by rw [length_loadBytes]; omega), getElem_loadBytes]

theorem storeBytes_append {bytes bytes' : List UInt8} :
    storeBytes mem a (bytes ++ bytes') =
      storeBytes (storeBytes mem a bytes) (a + bytes.length) bytes' := by
  funext b
  by_cases hlow : b < a + bytes.length
  · rw [storeBytes_apply_of_notMem (.inl hlow)]
    by_cases hb : b < a
    · rw [storeBytes_apply_of_notMem (.inl hb), storeBytes_apply_of_notMem (.inl hb)]
    · obtain ⟨i, rfl⟩ := Nat.exists_eq_add_of_le (Nat.le_of_not_lt hb)
      have hi : i < bytes.length := Nat.lt_of_add_lt_add_left hlow
      rw [storeBytes_apply_of_mem hi, storeBytes_apply_of_mem (by rw [List.length_append]; omega),
        List.getElem_append_left hi]
  · obtain ⟨i, rfl⟩ := Nat.exists_eq_add_of_le (Nat.le_of_not_lt hlow)
    by_cases hi : i < bytes'.length
    · have hwhole : bytes.length + i < (bytes ++ bytes').length := by
        rw [List.length_append]
        omega
      rw [storeBytes_apply_of_mem hi, Nat.add_assoc, storeBytes_apply_of_mem hwhole,
        List.getElem_append_right (Nat.le_add_right ..)]
      congr 1
      omega
    · rw [storeBytes_apply_of_notMem (.inr (by rw [List.length_append]; omega)),
        storeBytes_apply_of_notMem (.inr (by omega)),
        storeBytes_apply_of_notMem (.inr (by omega))]

/-! ### Words -/

/-- Writes words from an address on. -/
def storeWords (mem : ByteMemory) : ℕ → List ℕ → ByteMemory
  | _, [] => mem
  | a, word :: words => storeWords (mem.store a 8 word) (a + 8) words

/-- Reads `n` words from an address on. -/
def loadWords (mem : ByteMemory) : ℕ → ℕ → List ℕ
  | _, 0 => []
  | a, n + 1 => mem.load a 8 :: loadWords mem (a + 8) n

theorem storeWords_apply_of_notMem {words : List ℕ} (hb : b < a ∨ a + 8 * words.length ≤ b) :
    storeWords mem a words b = mem b := by
  induction words generalizing mem a with
  | nil => rfl
  | cons word words ih =>
    rw [List.length_cons] at hb
    rw [storeWords, ih (by omega), store_apply_of_notMem (by omega)]

theorem loadWords_congr {n : ℕ} (heq : ∀ b, a ≤ b → b < a + 8 * n → mem' b = mem b) :
    loadWords mem' a n = loadWords mem a n := by
  induction n generalizing a with
  | zero => rfl
  | succ n ih =>
    rw [loadWords, loadWords, load_congr fun b hab hb => heq b hab (by omega),
      ih fun b hab hb => heq b (by omega) (by omega)]

theorem loadWords_add (m n : ℕ) :
    loadWords mem a (m + n) = loadWords mem a m ++ loadWords mem (a + 8 * m) n := by
  induction m generalizing a with
  | zero => simp [loadWords]
  | succ m ih =>
    rw [Nat.add_right_comm, loadWords, loadWords, ih, List.cons_append]
    congr 3
    ring

theorem loadWords_storeWords {words : List ℕ} (h : ∀ word ∈ words, word < 2 ^ 64) :
    loadWords (storeWords mem a words) a words.length = words := by
  induction words generalizing mem a with
  | nil => rfl
  | cons word words ih =>
    have hkept : load (storeWords (mem.store a 8 word) (a + 8) words) a 8 =
        load (mem.store a 8 word) a 8 :=
      load_congr fun b _ hb => storeWords_apply_of_notMem (by omega)
    have hword : word < 256 ^ 8 := (h word (List.mem_cons_self ..)).trans_le (by decide)
    rw [storeWords, List.length_cons, loadWords, hkept, load_store_self hword,
      ih fun w hw => h w (List.mem_cons_of_mem _ hw)]

/-! ### Chunks -/

/-- Chunks follow one another upwards between two addresses, and the memory holds them. -/
def LaidOut (mem : ByteMemory) : ℕ → List (ℕ × List UInt8) → ℕ → Prop
  | low, [], high => low ≤ high
  | low, chunk :: chunks, high =>
    low ≤ chunk.1 ∧ HasBytes mem chunk.1 chunk.2 ∧
      LaidOut mem (chunk.1 + chunk.2.length) chunks high

namespace LaidOut

variable {low mid high : ℕ} {chunks chunks' : List (ℕ × List UInt8)}

theorem le (h : LaidOut mem low chunks high) : low ≤ high := by
  induction chunks generalizing low with
  | nil => exact h
  | cons chunk chunks ih => exact h.1.trans ((Nat.le_add_right ..).trans (ih h.2.2))

theorem mono_left (h : LaidOut mem mid chunks high) (hle : low ≤ mid) :
    LaidOut mem low chunks high := by
  cases chunks with
  | nil => exact hle.trans h
  | cons chunk chunks => exact ⟨hle.trans h.1, h.2⟩

theorem append (h : LaidOut mem low chunks mid) (h' : LaidOut mem mid chunks' high) :
    LaidOut mem low (chunks ++ chunks') high := by
  induction chunks generalizing low with
  | nil => exact h'.mono_left h
  | cons chunk chunks ih => exact ⟨h.1, h.2.1, ih h.2.2⟩

theorem congr (h : LaidOut mem low chunks high)
    (heq : ∀ b, low ≤ b → b < high → mem' b = mem b) : LaidOut mem' low chunks high := by
  induction chunks generalizing low with
  | nil => exact h
  | cons chunk chunks ih =>
    have hle := le h.2.2
    have hlow := h.1
    exact ⟨h.1, h.2.1.congr fun b hab hb => heq b (by omega) (by omega),
      ih h.2.2 fun b hab hb => heq b (by omega) hb⟩

theorem of_mem (h : LaidOut mem low chunks high) {chunk : ℕ × List UInt8} (hc : chunk ∈ chunks) :
    HasBytes mem chunk.1 chunk.2 ∧ low ≤ chunk.1 ∧ chunk.1 + chunk.2.length ≤ high := by
  induction chunks generalizing low with
  | nil => exact absurd hc List.not_mem_nil
  | cons first chunks ih =>
    rcases List.mem_cons.mp hc with rfl | hc
    · exact ⟨h.2.1, h.1, le h.2.2⟩
    · obtain ⟨hbytes, hlow, hhigh⟩ := ih h.2.2 hc
      exact ⟨hbytes, h.1.trans ((Nat.le_add_right ..).trans hlow), hhigh⟩

/-- A chunk ends before each later one. -/
theorem pairwise (h : LaidOut mem low chunks high) :
    chunks.Pairwise fun chunk later => chunk.1 + chunk.2.length ≤ later.1 := by
  induction chunks generalizing low with
  | nil => exact .nil
  | cons chunk chunks ih =>
    exact List.pairwise_cons.mpr ⟨fun later hlater => (of_mem h.2.2 hlater).2.1, ih h.2.2⟩

end LaidOut

end ByteMemory

end TwistedOS
