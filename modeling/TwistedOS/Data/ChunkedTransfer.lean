import Mathlib.Data.List.Basic
import Mathlib.Data.Int.Notation

/-!
# Transfers in chunks

Elements are moved between an object and a list of segments of a memory, through a buffer of a fixed
size: each segment is cut into chunks, and each chunk is moved by a step that may fall short, fail,
or leave the caller asleep. The transfer ends with the first chunk that is not filled. It reports
the elements that the segments before the failure have got.

A transfer is exact when it reports what was moved and does not fall asleep once something was
moved. This depends on the steps for the chunks that are reached, see `Passes`.

## Main definitions

* `ChunkResult`, `Transfer`: the result of a step, and the state of a transfer.
* `transferSegment`, `transferSegments`: the loops over the chunks and over the segments.
* `Passes`: the condition on the steps.

## Main results

* `ChunkStep.exact_transferSegment_iff`, `ChunkStep.exact_transferSegments_iff`.
* `ChunkStep.transferTable_preserves`.
-/

namespace TwistedOS

/-- A part of a segment that is moved by one step; `first` holds for the first part. -/
structure Chunk where
  address : ℕ
  size : ℕ
  first : Bool
  deriving DecidableEq, Repr

/-- How a step ends. -/
inductive ChunkEnd
  /-- The caller is still asleep. -/
  | asleep
  /-- There is an error, which the caller returns. -/
  | failed (code : ℤ)
  /-- Fewer elements are moved than the chunk has. -/
  | ended
  /-- As many elements are moved as the chunk has. -/
  | filled
  deriving DecidableEq, Repr

/-- The result of a step: whether the caller has slept, the elements that the object has given or
taken, and the state. -/
structure ChunkResult (σ β : Type*) where
  state : σ
  slept : Bool
  moved : List β
  outcome : ChunkEnd

/-- A step for the chunk at an address and of a size. -/
structure ChunkStep (σ β : Type*) where
  run : ℕ → ℕ → σ → ChunkResult σ β
  /-- The addresses that can be reached end here. -/
  limit : ℕ
  moved_asleep : ∀ address size s, (run address size s).outcome = .asleep →
    (run address size s).moved = []
  failed_neg : ∀ address size s code, (run address size s).outcome = .failed code → code < 0
  length_filled : ∀ address size s, (run address size s).outcome = .filled →
    (run address size s).moved.length = size
  length_ended : ∀ address size s, (run address size s).outcome = .ended →
    (run address size s).moved.length < size
  le_limit : ∀ address size s, (run address size s).outcome = .filled ∨
    (run address size s).outcome = .ended → (run address size s).moved ≠ [] →
      address + (run address size s).moved.length ≤ limit

/-- The state of a transfer, with the elements that were moved and whether the caller has slept
after some were moved. -/
structure Transfer (σ β : Type*) where
  state : σ
  moved : List β := []
  blocked : Bool := false

/-- How the transfer of a segment ends, and with how many elements. -/
inductive SegmentEnd
  | asleep
  | failed (code : ℤ) (count : ℕ)
  | done (count : ℕ)
  deriving DecidableEq, Repr

/-- The chunks of a segment. -/
def chunksOf (chunkSize : ℕ) (address remaining : ℕ) (first : Bool) : List Chunk :=
  if _h : remaining = 0 ∨ chunkSize = 0 then []
  else
    ⟨address, min remaining chunkSize, first⟩ ::
      chunksOf chunkSize (address + min remaining chunkSize) (remaining - min remaining chunkSize)
        false
termination_by remaining
decreasing_by omega

/-- The chunks of a list of segments. -/
def planOf (chunkSize : ℕ) : List (ℕ × ℕ) → List Chunk
  | [] => []
  | segment :: rest => chunksOf chunkSize segment.1 segment.2 true ++ planOf chunkSize rest

variable {σ β : Type*}

/-- The transfer after a step. -/
def Transfer.apply (t : Transfer σ β) (r : ChunkResult σ β) : Transfer σ β where
  state := r.state
  moved := t.moved ++ r.moved
  blocked := t.blocked || (r.slept && !t.moved.isEmpty)

namespace ChunkStep

variable (step : ChunkStep σ β)

/-- Moves the chunks of a segment, of which `count` elements have been moved. -/
def transferSegment (chunkSize address remaining count : ℕ) (t : Transfer σ β) :
    SegmentEnd × Transfer σ β :=
  if _h : remaining = 0 ∨ chunkSize = 0 then (.done count, t)
  else
    let r := step.run address (min remaining chunkSize) t.state
    match r.outcome with
    | .asleep => (.asleep, t.apply r)
    | .failed code => (.failed code count, t.apply r)
    | .ended => (.done (count + r.moved.length), t.apply r)
    | .filled =>
      transferSegment chunkSize (address + min remaining chunkSize)
        (remaining - min remaining chunkSize) (count + min remaining chunkSize) (t.apply r)
termination_by remaining
decreasing_by omega

/-- What is returned after an error: the number of elements before it, if there are any. -/
def totalOr (total : ℕ) (code : ℤ) : ℤ := if total = 0 then code else total

/-- What is returned after a single segment. -/
def result : SegmentEnd → Option ℤ
  | .asleep => none
  | .failed code count => some (totalOr count code)
  | .done count => some (count : ℤ)

/-- What is returned at the end, where an error may follow the last segment. -/
def endResult (onEnd : Option ℤ) (total : ℕ) : ℤ :=
  match onEnd with
  | none => total
  | some code => totalOr total code

/-- Moves segments, of which `total` elements have been moved. The result is `none` if the caller is
still asleep. -/
def transferSegments (chunkSize : ℕ) (onEnd : Option ℤ) :
    List (ℕ × ℕ) → ℕ → Transfer σ β → Option ℤ × Transfer σ β
  | [], total, t => (some (endResult onEnd total), t)
  | segment :: rest, total, t =>
    match step.transferSegment chunkSize segment.1 segment.2 0 t with
    | (.asleep, t) => (none, t)
    | (.failed code _, t) => (some (totalOr total code), t)
    | (.done count, t) =>
      if count < segment.2 then (some (total + count : ℕ), t)
      else transferSegments chunkSize onEnd rest (total + count) t

/-- Moves the segments that a table gives, each read when it is its turn. A total above `bound` ends
the transfer. -/
def transferTable (chunkSize bound : ℕ) (tooLarge : ℤ) :
    List (σ → Except ℤ (ℕ × ℕ)) → ℕ → Transfer σ β → Option ℤ × Transfer σ β
  | [], total, t => (some total, t)
  | entry :: rest, total, t =>
    match entry t.state with
    | .error code => (some (totalOr total code), t)
    | .ok segment =>
      match step.transferSegment chunkSize segment.1 segment.2 0 t with
      | (.asleep, t) => (none, t)
      | (.failed code _, t) => (some (totalOr total code), t)
      | (.done count, t) =>
        if bound - count < total then (some (totalOr total tooLarge), t)
        else if count < segment.2 then (some (total + count : ℕ), t)
        else transferTable chunkSize bound tooLarge rest (total + count) t

/-- The steps for the chunks that are reached go through: the caller does not sleep once a chunk was
moved, and a step that fails has moved nothing. Where `strict` holds, only the first chunk of a
segment fails. -/
def Passes (strict : Bool) : Bool → List Chunk → σ → Prop
  | _, [], _ => True
  | started, chunk :: rest, s =>
    (started → (step.run chunk.address chunk.size s).slept = false) ∧
    (∀ code, (step.run chunk.address chunk.size s).outcome = .failed code →
      (step.run chunk.address chunk.size s).moved = [] ∧ (strict → chunk.first)) ∧
    ((step.run chunk.address chunk.size s).outcome = .filled →
      Passes strict true rest (step.run chunk.address chunk.size s).state)

/-- The state after chunks that are all filled. -/
def fill : List Chunk → σ → Option σ
  | [], s => some s
  | chunk :: rest, s =>
    if (step.run chunk.address chunk.size s).outcome = .filled then
      fill rest (step.run chunk.address chunk.size s).state
    else none

/-- The segments of a table that are reached. -/
def segmentsRead (chunkSize : ℕ) : List (σ → Except ℤ (ℕ × ℕ)) → σ → List (ℕ × ℕ)
  | [], _ => []
  | entry :: rest, s =>
    match entry s with
    | .error _ => []
    | .ok segment =>
      segment :: match step.fill (chunksOf chunkSize segment.1 segment.2 true) s with
        | none => []
        | some s => segmentsRead chunkSize rest s

/-- The error in a table that is reached. -/
def errorRead (chunkSize : ℕ) : List (σ → Except ℤ (ℕ × ℕ)) → σ → Option ℤ
  | [], _ => none
  | entry :: rest, s =>
    match entry s with
    | .error code => some code
    | .ok segment =>
      match step.fill (chunksOf chunkSize segment.1 segment.2 true) s with
      | none => none
      | some s => errorRead chunkSize rest s

end ChunkStep

/-- A transfer that is exact: the caller has not slept after something was moved, and a call that
returns a number has moved as many elements, and one that returns an error none. -/
structure Transfer.Exact (t : Transfer σ β) (result : Option ℤ) : Prop where
  blocked_eq : t.blocked = false
  length_eq : ∀ n : ℕ, result = some (n : ℤ) → t.moved.length = n
  moved_eq : ∀ code : ℤ, code < 0 → result = some code → t.moved = []

/-- The addresses of chunks, in order. -/
def addressesOf : List Chunk → List ℕ
  | [] => []
  | chunk :: rest => (List.range chunk.size).map (chunk.address + ·) ++ addressesOf rest

variable {chunkSize address remaining count total : ℕ} {first strict started : Bool}
  {t t' : Transfer σ β} {plan rest : List Chunk} {s s' : σ} {chunk : Chunk}

/-! ### Chunks -/

theorem chunksOf_of_done (h : remaining = 0 ∨ chunkSize = 0) :
    chunksOf chunkSize address remaining first = [] := by
  rw [chunksOf, dif_pos h]

theorem chunksOf_of_remaining (h : ¬ (remaining = 0 ∨ chunkSize = 0)) :
    chunksOf chunkSize address remaining first =
      ⟨address, min remaining chunkSize, first⟩ ::
        chunksOf chunkSize (address + min remaining chunkSize)
          (remaining - min remaining chunkSize) false := by
  rw [chunksOf, dif_neg h]

theorem chunksOf_eq_nil_iff (hsize : 0 < chunkSize) :
    chunksOf chunkSize address remaining first = [] ↔ remaining = 0 := by
  by_cases h : remaining = 0 ∨ chunkSize = 0
  · rw [chunksOf_of_done h]
    exact ⟨fun _ => by omega, fun _ => rfl⟩
  · rw [chunksOf_of_remaining h]
    exact ⟨fun hcons => by simp at hcons, fun hzero => absurd (.inl hzero) h⟩

/-- The chunks of a segment have the addresses of the segment. -/
theorem addressesOf_chunksOf (hsize : 0 < chunkSize) (address remaining : ℕ) (first : Bool) :
    addressesOf (chunksOf chunkSize address remaining first) =
      (List.range remaining).map (address + ·) := by
  induction remaining using Nat.strongRecOn generalizing address first with
  | ind remaining ih =>
    by_cases h : remaining = 0 ∨ chunkSize = 0
    · obtain rfl : remaining = 0 := by omega
      rw [chunksOf_of_done h, addressesOf, List.range_zero, List.map_nil]
    · obtain ⟨rest, hrest⟩ := Nat.exists_eq_add_of_le (Nat.min_le_left remaining chunkSize)
      rw [chunksOf_of_remaining h, addressesOf, ih _ (by omega)]
      conv_rhs => rw [hrest, List.range_add, List.map_append, List.map_map]
      rw [show remaining - min remaining chunkSize = rest by omega]
      refine congrArg _ (List.map_congr_left fun i _ => ?_)
      exact Nat.add_assoc ..

theorem zip_append_of_length_le {α : Type*} {l l' : List α} {m : List β}
    (h : m.length ≤ l.length) : (l ++ l').zip m = l.zip m := by
  induction l generalizing m with
  | nil =>
    rw [List.length_eq_zero_iff.mp (Nat.le_zero.mp h), List.zip_nil_right, List.zip_nil_right]
  | cons a l ih =>
    cases m with
    | nil => rw [List.zip_nil_right, List.zip_nil_right]
    | cons b m => rw [List.cons_append, List.zip_cons_cons, List.zip_cons_cons,
        ih (Nat.le_of_succ_le_succ h)]

namespace Transfer

section

variable (r : ChunkResult σ β)

include r

@[simp] theorem apply_state : (t.apply r).state = r.state := rfl

@[simp] theorem apply_moved : (t.apply r).moved = t.moved ++ r.moved := rfl

/-- A step blocks a transfer when the caller sleeps and something was moved before. -/
theorem blocked_apply_iff (h : t.blocked = false) :
    (t.apply r).blocked = false ↔ ((!t.moved.isEmpty) = true → r.slept = false) := by
  rw [apply, h, Bool.false_or]
  cases r.slept <;> simp

theorem blocked_apply (h : t.blocked = true) : (t.apply r).blocked = true := by
  rw [apply, h, Bool.true_or]

end

end Transfer

namespace ChunkStep

variable (step : ChunkStep σ β)

theorem transferSegment_of_done (h : remaining = 0 ∨ chunkSize = 0) :
    step.transferSegment chunkSize address remaining count t = (.done count, t) := by
  rw [transferSegment, dif_pos h]

theorem transferSegment_of_failed {code : ℤ} (h : ¬ (remaining = 0 ∨ chunkSize = 0))
    (hfailed : (step.run address (min remaining chunkSize) t.state).outcome = .failed code) :
    step.transferSegment chunkSize address remaining count t =
      (.failed code count, t.apply (step.run address (min remaining chunkSize) t.state)) := by
  rw [transferSegment, dif_neg h]
  dsimp only
  rw [hfailed]

/-- What is known of the transfer of a segment in any case. -/
structure SegmentFacts (step : ChunkStep σ β) (plan : List Chunk) (address remaining count : ℕ)
    (t : Transfer σ β) (r : SegmentEnd × Transfer σ β) : Prop where
  blocked_of_blocked : t.blocked = true → r.2.blocked = true
  length_of_done : ∀ n, r.1 = .done n →
    r.2.moved.length + count = t.moved.length + n ∧ n ≤ count + remaining
  fill_of_done : r.1 = .done (count + remaining) → step.fill plan t.state = some r.2.state
  done_of_fill : ∀ s', step.fill plan t.state = some s' → r.1 = .done (count + remaining)
  of_failed : ∀ code n, r.1 = .failed code n →
    code < 0 ∧ n + t.moved.length ≤ r.2.moved.length + count
  le_limit : ∀ n, r.1 = .done n → count < n → address + (n - count) ≤ step.limit

theorem segmentFacts (hsize : 0 < chunkSize) (address remaining count : ℕ) (first : Bool)
    (t : Transfer σ β) :
    step.SegmentFacts (chunksOf chunkSize address remaining first) address remaining count t
      (step.transferSegment chunkSize address remaining count t) := by
  induction remaining using Nat.strongRecOn generalizing address count first t with
  | ind remaining ih =>
    by_cases h : remaining = 0 ∨ chunkSize = 0
    · obtain rfl : remaining = 0 := by omega
      rw [step.transferSegment_of_done h, chunksOf_of_done h]
      refine ⟨id, fun n hn => ?_, fun _ => rfl, fun _ _ => rfl, fun code n hn => ?_,
        fun n hn hlt => ?_⟩
      · obtain rfl : count = n := by simpa using hn
        exact ⟨rfl, Nat.le_refl _⟩
      · simp at hn
      · obtain rfl : count = n := by simpa using hn
        omega
    rw [transferSegment, dif_neg h, chunksOf_of_remaining h]
    dsimp only
    generalize hr : step.run address (min remaining chunkSize) t.state = r
    have hmono := fun hblocked => Transfer.blocked_apply (t := t) r hblocked
    cases houtcome : r.outcome with
    | asleep => exact ⟨hmono, by simp, by simp, by simp [fill, hr, houtcome], by simp, by simp⟩
    | failed code =>
      have hneg := step.failed_neg _ _ _ code (hr.symm ▸ houtcome)
      refine ⟨hmono, by simp, by simp, by simp [fill, hr, houtcome], fun code' n hn => ?_, by simp⟩
      obtain ⟨rfl, rfl⟩ : code = code' ∧ count = n := by simpa using hn
      rw [Transfer.apply_moved, List.length_append]
      omega
    | ended =>
      have hlt := step.length_ended address (min remaining chunkSize) t.state (hr.symm ▸ houtcome)
      have hle := step.le_limit address (min remaining chunkSize) t.state
        (.inr (hr.symm ▸ houtcome))
      rw [hr] at hlt hle
      refine ⟨hmono, fun n hn => ?_, fun hn => ?_, by simp [fill, hr, houtcome], by simp,
        fun n hn hpos => ?_⟩
      · obtain rfl : count + r.moved.length = n := by simpa using hn
        rw [Transfer.apply_moved, List.length_append]
        omega
      · have : r.moved.length = remaining := by simpa using hn
        omega
      · obtain rfl : count + r.moved.length = n := by simpa using hn
        have := hle (List.ne_nil_of_length_pos (by omega))
        omega
    | filled =>
      have hlength := step.length_filled address (min remaining chunkSize) t.state
        (hr.symm ▸ houtcome)
      have hle := step.le_limit address (min remaining chunkSize) t.state
        (.inl (hr.symm ▸ houtcome))
      rw [hr] at hlength hle
      obtain ⟨hblocked, hdone, hfill, hfilled, hfailed, hlimit⟩ :=
        ih (remaining - min remaining chunkSize) (by omega) (address + min remaining chunkSize)
          (count + min remaining chunkSize) false (t.apply r)
      rw [Transfer.apply_moved, List.length_append] at hdone hfailed
      have hsum : count + min remaining chunkSize + (remaining - min remaining chunkSize) =
          count + remaining := by omega
      rw [hsum] at hdone hfill hfilled
      dsimp only
      refine ⟨fun hb => hblocked (hmono hb), fun n hn => ?_, fun hn => ?_, fun s' hs' => ?_,
        fun code n hn => ?_, fun n hn hpos => ?_⟩
      · have := hdone n hn
        omega
      · rw [fill]
        dsimp only
        rw [hr, if_pos houtcome]
        exact hfill hn
      · rw [fill] at hs'
        dsimp only at hs'
        rw [hr, if_pos houtcome] at hs'
        exact hfilled s' hs'
      · have := hfailed code n hn
        omega
      · have hn' := hdone n hn
        by_cases hmore : count + min remaining chunkSize < n
        · have := hlimit n hn hmore
          omega
        · have := hle (List.ne_nil_of_length_pos (by omega))
          omega

/-! ### One segment -/

theorem passes_cons : step.Passes strict started (chunk :: plan) s ↔
    (started → (step.run chunk.address chunk.size s).slept = false) ∧
    (∀ code, (step.run chunk.address chunk.size s).outcome = .failed code →
      (step.run chunk.address chunk.size s).moved = [] ∧ (strict → chunk.first)) ∧
    ((step.run chunk.address chunk.size s).outcome = .filled →
      step.Passes strict true plan (step.run chunk.address chunk.size s).state) := Iff.rfl

/-- The transfer of a segment is exact: the caller has not slept after something was moved, and the
number of elements is what was moved. Where `strict` holds, an error comes before everything
else. -/
structure SegmentExact (strict : Bool) (count : ℕ) (t : Transfer σ β)
    (r : SegmentEnd × Transfer σ β) : Prop where
  blocked_eq : r.2.blocked = false
  length_eq : ∀ code n, r.1 = .failed code n → r.2.moved.length + count = t.moved.length + n
  strict_eq : ∀ code n, r.1 = .failed code n → strict → n = 0

theorem segmentExact_iff (hsize : 0 < chunkSize) (strict : Bool) (address remaining count : ℕ)
    (t : Transfer σ β) (ht : t.blocked = false) :
    SegmentExact strict count t (step.transferSegment chunkSize address remaining count t) ↔
      step.Passes strict (!t.moved.isEmpty) (chunksOf chunkSize address remaining (count = 0))
        t.state := by
  induction remaining using Nat.strongRecOn generalizing address count t with
  | ind remaining ih =>
    by_cases h : remaining = 0 ∨ chunkSize = 0
    · rw [step.transferSegment_of_done h, chunksOf_of_done h]
      exact ⟨fun _ => trivial, fun _ => ⟨ht, by simp, by simp⟩⟩
    rw [transferSegment, dif_neg h, chunksOf_of_remaining h, passes_cons]
    dsimp only
    generalize hr : step.run address (min remaining chunkSize) t.state = r
    have hblocked := Transfer.blocked_apply_iff r ht
    cases houtcome : r.outcome with
    | asleep =>
      refine ⟨fun hexact => ⟨hblocked.mp hexact.blocked_eq, by simp, by simp⟩, fun hpasses => ?_⟩
      exact ⟨hblocked.mpr hpasses.1, by simp, by simp⟩
    | ended =>
      refine ⟨fun hexact => ⟨hblocked.mp hexact.blocked_eq, by simp, by simp⟩, fun hpasses => ?_⟩
      exact ⟨hblocked.mpr hpasses.1, by simp, by simp⟩
    | failed code =>
      refine ⟨fun hexact => ⟨hblocked.mp hexact.blocked_eq, fun _ _ => ⟨?_, fun hstrict => ?_⟩,
        by simp⟩, fun hpasses => ⟨hblocked.mpr hpasses.1, fun code' n hn => ?_,
        fun code' n hn => ?_⟩⟩
      · have := hexact.length_eq code count rfl
        rw [Transfer.apply_moved, List.length_append] at this
        exact List.length_eq_zero_iff.mp (by omega)
      · simpa using hexact.strict_eq code count rfl hstrict
      · obtain ⟨rfl, rfl⟩ : code = code' ∧ count = n := by simpa using hn
        rw [Transfer.apply_moved, (hpasses.2.1 code rfl).1, List.append_nil]
      · obtain ⟨rfl, rfl⟩ : code = code' ∧ count = n := by simpa using hn
        exact fun hstrict => by simpa using (hpasses.2.1 code rfl).2 hstrict
    | filled =>
      have hlength := step.length_filled address (min remaining chunkSize) t.state
        (hr.symm ▸ houtcome)
      rw [hr] at hlength
      dsimp only
      cases hslept : (t.apply r).blocked with
      | true =>
        have hfacts := step.segmentFacts hsize (address + min remaining chunkSize)
          (remaining - min remaining chunkSize) (count + min remaining chunkSize) false (t.apply r)
        refine ⟨fun hexact => ?_, fun hpasses => ?_⟩
        · have := hexact.blocked_eq
          rw [hfacts.blocked_of_blocked hslept] at this
          simp at this
        · rw [hblocked.mpr hpasses.1] at hslept
          simp at hslept
      | false =>
        have hnonempty : (!(t.apply r).moved.isEmpty) = true := by
          rw [Transfer.apply_moved, Bool.not_eq_true', List.isEmpty_eq_false_iff]
          refine List.append_ne_nil_of_right_ne_nil _ (List.ne_nil_of_length_pos ?_)
          omega
        have hsegment := ih (remaining - min remaining chunkSize) (by omega)
          (address + min remaining chunkSize) (count + min remaining chunkSize) (t.apply r) hslept
        rw [hnonempty, Transfer.apply_state,
          decide_eq_false (show ¬ count + min remaining chunkSize = 0 by omega)] at hsegment
        refine ⟨fun hexact => ⟨hblocked.mp hslept, by simp, fun _ => hsegment.mp ⟨hexact.blocked_eq,
          fun code n hn => ?_, hexact.strict_eq⟩⟩, fun hpasses => ?_⟩
        · have := hexact.length_eq code n hn
          rw [Transfer.apply_moved, List.length_append]
          omega
        · obtain ⟨hexact, hlengths, hstrict⟩ := hsegment.mpr (hpasses.2.2 rfl)
          refine ⟨hexact, fun code n hn => ?_, hstrict⟩
          have := hlengths code n hn
          rw [Transfer.apply_moved, List.length_append] at this
          omega

/-! ### Several segments -/

theorem passes_append : step.Passes strict started (plan ++ rest) s ↔
    step.Passes strict started plan s ∧ ∀ s', step.fill plan s = some s' →
      step.Passes strict (started || !plan.isEmpty) rest s' := by
  induction plan generalizing started s with
  | nil => simp [Passes, fill]
  | cons chunk plan ih =>
    rw [List.cons_append, passes_cons, passes_cons, fill]
    by_cases hfilled : (step.run chunk.address chunk.size s).outcome = .filled
    · rw [if_pos hfilled, ih]
      simp [hfilled, and_assoc]
    · rw [if_neg hfilled]
      simp [hfilled]

theorem blocked_transferSegments (hsize : 0 < chunkSize) (onEnd : Option ℤ)
    (segments : List (ℕ × ℕ)) (total : ℕ) (ht : t.blocked = true) :
    (step.transferSegments chunkSize onEnd segments total t).2.blocked = true := by
  induction segments generalizing total t with
  | nil => exact ht
  | cons segment segments ih =>
    have hblocked :=
      (step.segmentFacts hsize segment.1 segment.2 0 true t).blocked_of_blocked ht
    rw [transferSegments]
    rcases hsegment : step.transferSegment chunkSize segment.1 segment.2 0 t with
      ⟨_ | _ | count, t'⟩ <;> rw [hsegment] at hblocked
    · exact hblocked
    · exact hblocked
    · dsimp only
      split
      · exact hblocked
      · exact ih _ hblocked

/-- A call that returns an error, or what was moved before it. -/
theorem exact_totalOr_iff {code : ℤ} (hcode : code < 0) :
    t.Exact (some (totalOr total code)) ↔ t.blocked = false ∧ t.moved.length = total := by
  unfold totalOr
  constructor
  · rintro ⟨hblocked, hlength, hmoved⟩
    refine ⟨hblocked, ?_⟩
    split_ifs at hlength hmoved with htotal
    · rw [hmoved code hcode rfl, htotal, List.length_nil]
    · exact hlength total rfl
  · rintro ⟨hblocked, hlength⟩
    refine ⟨hblocked, fun n hn => ?_, fun code' hneg hn => ?_⟩
    · split_ifs at hn
      · have := Option.some.inj hn
        omega
      · have := Option.some.inj hn
        omega
    · split_ifs at hn with htotal
      · exact List.length_eq_zero_iff.mp (hlength.trans htotal)
      · have := Option.some.inj hn
        omega

theorem exact_natCast_iff {n : ℕ} :
    t.Exact (some (n : ℤ)) ↔ t.blocked = false ∧ t.moved.length = n := by
  constructor
  · exact fun h => ⟨h.blocked_eq, h.length_eq n rfl⟩
  · rintro ⟨hblocked, hlength⟩
    refine ⟨hblocked, fun m hm => ?_, fun code hneg hn => ?_⟩
    · have := Option.some.inj hm
      omega
    · have := Option.some.inj hn
      omega

theorem exact_endResult_iff {onEnd : Option ℤ} (hend : ∀ code ∈ onEnd, code < 0) :
    t.Exact (some (endResult onEnd total)) ↔ t.blocked = false ∧ t.moved.length = total := by
  rcases onEnd with _ | code
  · exact exact_natCast_iff
  · exact exact_totalOr_iff (hend code rfl)

/-- The transfer of a list of segments is exact if and only if the steps go through, and errors come
at the start of segments only. -/
theorem exact_transferSegments_iff (hsize : 0 < chunkSize) {onEnd : Option ℤ}
    (hend : ∀ code ∈ onEnd, code < 0) (segments : List (ℕ × ℕ)) (total : ℕ) (t : Transfer σ β)
    (ht : t.blocked = false) (htotal : t.moved.length = total) :
    (step.transferSegments chunkSize onEnd segments total t).2.Exact
        (step.transferSegments chunkSize onEnd segments total t).1 ↔
      step.Passes true (!t.moved.isEmpty) (planOf chunkSize segments) t.state := by
  induction segments generalizing total t with
  | nil =>
    rw [transferSegments, exact_endResult_iff hend]
    exact ⟨fun _ => trivial, fun _ => ⟨ht, htotal⟩⟩
  | cons segment segments ih =>
    have hfacts := step.segmentFacts hsize segment.1 segment.2 0 true t
    have hexact := step.segmentExact_iff hsize true segment.1 segment.2 0 t ht
    rw [decide_eq_true (show (0 : ℕ) = 0 from rfl)] at hexact
    rw [planOf, passes_append, ← hexact, transferSegments]
    rcases hsegment : step.transferSegment chunkSize segment.1 segment.2 0 t with ⟨r, t'⟩
    rw [hsegment] at hfacts
    have hnotfilled : r ≠ .done (0 + segment.2) → ∀ s',
        step.fill (chunksOf chunkSize segment.1 segment.2 true) t.state = some s' →
          step.Passes true (!t.moved.isEmpty || !(chunksOf chunkSize segment.1 segment.2
            true).isEmpty) (planOf chunkSize segments) s' :=
      fun hne s' hs' => absurd (hfacts.done_of_fill s' hs') hne
    rcases r with _ | ⟨code, n⟩ | n
    · refine ⟨fun h => ⟨⟨h.blocked_eq, by simp, by simp⟩, hnotfilled (by simp)⟩, fun h => ?_⟩
      exact ⟨h.1.blocked_eq, by simp, by simp⟩
    · obtain ⟨hneg, hmoved⟩ := hfacts.of_failed code n rfl
      dsimp only at hmoved ⊢
      rw [exact_totalOr_iff hneg]
      refine ⟨fun h => ⟨⟨h.1, fun code' n' hn => ?_, fun code' n' hn _ => ?_⟩,
        hnotfilled (by simp)⟩, fun h => ⟨h.1.blocked_eq, ?_⟩⟩
      · obtain ⟨rfl, rfl⟩ : code = code' ∧ n = n' := by simpa using hn
        have := h.2
        dsimp only
        omega
      · obtain ⟨rfl, rfl⟩ : code = code' ∧ n = n' := by simpa using hn
        have := h.2
        omega
      · have hlength := h.1.length_eq code n rfl
        have hzero := h.1.strict_eq code n rfl rfl
        dsimp only at hlength
        omega
    · obtain ⟨hmoved, hle⟩ := hfacts.length_of_done n rfl
      dsimp only at hmoved hle ⊢
      split_ifs with hlt
      · rw [exact_natCast_iff]
        refine ⟨fun h => ⟨⟨h.1, by simp, by simp⟩, hnotfilled fun heq => ?_⟩, fun h =>
          ⟨h.1.blocked_eq, by dsimp only; omega⟩⟩
        have : n = 0 + segment.2 := by simpa using heq
        omega
      · obtain rfl : n = 0 + segment.2 := by omega
        have hfill := hfacts.fill_of_done rfl
        cases hblocked : t'.blocked with
        | true =>
          refine ⟨fun h => ?_, fun h => ?_⟩
          · have := h.blocked_eq
            rw [step.blocked_transferSegments hsize onEnd segments _ hblocked] at this
            simp at this
          · have := h.1.blocked_eq
            rw [hblocked] at this
            simp at this
        | false =>
          rw [ih (total + (0 + segment.2)) t' hblocked (by omega)]
          have hstarted : (!t'.moved.isEmpty) = (!t.moved.isEmpty ||
              !(chunksOf chunkSize segment.1 segment.2 true).isEmpty) := by
            rw [Bool.eq_iff_iff, Bool.or_eq_true, Bool.not_eq_true', Bool.not_eq_true',
              Bool.not_eq_true', List.isEmpty_eq_false_iff, List.isEmpty_eq_false_iff,
              List.isEmpty_eq_false_iff, Ne, Ne, Ne, chunksOf_eq_nil_iff hsize,
              ← List.length_eq_zero_iff, ← List.length_eq_zero_iff]
            omega
          rw [hstarted]
          refine ⟨fun h => ⟨⟨hblocked, by simp, by simp⟩, fun s' hs' => ?_⟩, fun h => ?_⟩
          · obtain rfl := Option.some.inj (hfill.symm.trans hs')
            exact h
          · exact h.2 _ hfill

/-- The transfer of a single segment is exact if and only if the steps go through. -/
theorem exact_transferSegment_iff (hsize : 0 < chunkSize) (address count : ℕ) (s : σ) :
    (step.transferSegment chunkSize address count 0 ⟨s, [], false⟩).2.Exact
        (result (step.transferSegment chunkSize address count 0 ⟨s, [], false⟩).1) ↔
      step.Passes false false (chunksOf chunkSize address count true) s := by
  have hfacts := step.segmentFacts hsize address count 0 true (t := ⟨s, [], false⟩)
  have hexact := step.segmentExact_iff hsize false address count 0 ⟨s, [], false⟩ rfl
  rw [decide_eq_true (show (0 : ℕ) = 0 from rfl), show (!([] : List β).isEmpty) = false from rfl]
    at hexact
  rw [← hexact]
  rcases hsegment : step.transferSegment chunkSize address count 0 ⟨s, [], false⟩ with ⟨r, t'⟩
  rw [hsegment] at hfacts
  rcases r with _ | ⟨code, n⟩ | n
  · exact ⟨fun h => ⟨h.blocked_eq, by simp, by simp⟩, fun h => ⟨h.blocked_eq, by simp [result],
      by simp [result]⟩⟩
  · rw [result, exact_totalOr_iff (hfacts.of_failed code n rfl).1]
    refine ⟨fun h => ⟨h.1, fun code' n' hn => ?_, by simp⟩, fun h => ⟨h.blocked_eq, ?_⟩⟩
    · obtain ⟨rfl, rfl⟩ : code = code' ∧ n = n' := by simpa using hn
      simpa using h.2
    · simpa using h.length_eq code n rfl
  · rw [result, exact_natCast_iff]
    refine ⟨fun h => ⟨h.1, by simp, by simp⟩, fun h => ⟨h.blocked_eq, ?_⟩⟩
    simpa using (hfacts.length_of_done n rfl).1

/-! ### Tables -/

/-- A table is as good as the segments that are read from it: the total stays below the bound. -/
theorem transferTable_eq (hsize : 0 < chunkSize) {bound : ℕ} {tooLarge : ℤ}
    (entries : List (σ → Except ℤ (ℕ × ℕ))) (total : ℕ) (t : Transfer σ β)
    (hbound : total + entries.length * step.limit ≤ bound) :
    step.transferTable chunkSize bound tooLarge entries total t =
      step.transferSegments chunkSize (step.errorRead chunkSize entries t.state)
        (step.segmentsRead chunkSize entries t.state) total t := by
  induction entries generalizing total t with
  | nil => rfl
  | cons entry entries ih =>
    rw [transferTable, errorRead, segmentsRead]
    rcases hentry : entry t.state with code | segment
    · rfl
    dsimp only
    rw [transferSegments]
    have hfacts := step.segmentFacts hsize segment.1 segment.2 0 true t
    rcases hsegment : step.transferSegment chunkSize segment.1 segment.2 0 t with ⟨r, t'⟩
    rw [hsegment] at hfacts
    rcases r with _ | ⟨code, n⟩ | n
    · rfl
    · rfl
    have hn := (hfacts.length_of_done n rfl).2
    have hlimit : n ≤ step.limit := by
      rcases Nat.eq_zero_or_pos n with rfl | hpos
      · exact Nat.zero_le _
      · have := hfacts.le_limit n rfl hpos
        omega
    rw [List.length_cons, Nat.succ_mul] at hbound
    dsimp only
    rw [if_neg (by omega)]
    split_ifs with hlt
    · rfl
    obtain rfl : n = 0 + segment.2 := by omega
    rw [hfacts.fill_of_done rfl]
    exact ih (total + (0 + segment.2)) t' (by omega)

/-- The error of a table is one of its entries'. -/
theorem errorRead_neg {entries : List (σ → Except ℤ (ℕ × ℕ))}
    (h : ∀ entry ∈ entries, ∀ s code, entry s = .error code → code < 0) (s : σ) :
    ∀ code ∈ step.errorRead chunkSize entries s, code < 0 := by
  induction entries generalizing s with
  | nil => exact fun code hcode => absurd hcode (by simp [errorRead])
  | cons entry entries ih =>
    rw [errorRead]
    rcases hentry : entry s with code | segment
    · rintro code' ⟨⟩
      exact h entry (List.mem_cons_self ..) s code hentry
    · dsimp only
      split
      · exact fun code hcode => absurd hcode (by simp)
      · exact ih (fun entry' hmem => h entry' (List.mem_cons_of_mem _ hmem)) _

/-! ### Places -/

/-- A step relates what it moves to the addresses of its chunk, unless it fails after it has moved
something or sleeps after something was moved. `R` relates the elements that were moved, each with
its address, to the state. -/
def Places (R : List (ℕ × β) → σ → Prop) : Prop :=
  ∀ placed address size s, R placed s →
    (placed ≠ [] → (step.run address size s).slept = false) →
    (∀ code, (step.run address size s).outcome = .failed code →
      (step.run address size s).moved = []) →
    R (placed ++ ((List.range size).map (address + ·)).zip (step.run address size s).moved)
      (step.run address size s).state

variable {step} {R : List (ℕ × β) → σ → Prop} {placed : List (ℕ × β)}

/-- The elements of a step are at most as many as the chunk has, unless it fails. -/
theorem length_moved_le (address size : ℕ) (s : σ)
    (hfailed : ∀ code, (step.run address size s).outcome = .failed code →
      (step.run address size s).moved = []) : (step.run address size s).moved.length ≤ size := by
  cases houtcome : (step.run address size s).outcome with
  | asleep => simp [step.moved_asleep _ _ _ houtcome]
  | failed code => simp [hfailed code houtcome]
  | ended => exact Nat.le_of_lt (step.length_ended _ _ _ houtcome)
  | filled => exact Nat.le_of_eq (step.length_filled _ _ _ houtcome)

/-- When the steps for a segment go through, what is moved is placed at its first addresses. -/
theorem Places.transferSegment (hR : step.Places R) (hsize : 0 < chunkSize)
    (address remaining count : ℕ) (t : Transfer σ β) (h : R placed t.state)
    (hstarted : placed ≠ [] → started = true)
    (hpasses : step.Passes strict started (chunksOf chunkSize address remaining first) t.state) :
    ∃ m, (step.transferSegment chunkSize address remaining count t).2.moved = t.moved ++ m ∧
      m.length ≤ remaining ∧
      R (placed ++ (addressesOf (chunksOf chunkSize address remaining first)).zip m)
        (step.transferSegment chunkSize address remaining count t).2.state := by
  induction remaining using Nat.strongRecOn generalizing address count t placed started first with
  | ind remaining ih =>
    by_cases hdone : remaining = 0 ∨ chunkSize = 0
    · rw [step.transferSegment_of_done hdone, chunksOf_of_done hdone]
      exact ⟨[], by simp, by simp, by simpa using h⟩
    rw [chunksOf_of_remaining hdone, passes_cons] at hpasses
    rw [ChunkStep.transferSegment, dif_neg hdone, chunksOf_of_remaining hdone]
    have hfailed := fun code hcode => (hpasses.2.1 code hcode).1
    have hplaced := hR placed address (min remaining chunkSize) t.state h
      (fun hne => hpasses.1 (hstarted hne)) hfailed
    have hle := length_moved_le address (min remaining chunkSize) t.state hfailed
    have hfull := step.length_filled address (min remaining chunkSize) t.state
    have hrest := hpasses.2.2
    dsimp only at hrest hplaced hle ⊢
    generalize step.run address (min remaining chunkSize) t.state = r at *
    have hstop : ∃ m, (t.apply r).moved = t.moved ++ m ∧ m.length ≤ remaining ∧
        R (placed ++ (addressesOf (⟨address, min remaining chunkSize, first⟩ ::
          chunksOf chunkSize (address + min remaining chunkSize)
            (remaining - min remaining chunkSize) false)).zip m) (t.apply r).state := by
      refine ⟨r.moved, rfl, by omega, ?_⟩
      rw [addressesOf, zip_append_of_length_le (by simpa using hle)]
      exact hplaced
    cases houtcome : r.outcome with
    | asleep => exact hstop
    | failed code => exact hstop
    | ended => exact hstop
    | filled =>
      have hlength := hfull houtcome
      obtain ⟨m, hmoved, hm, hplaced'⟩ := ih (remaining - min remaining chunkSize) (by omega)
        (address + min remaining chunkSize) (count + min remaining chunkSize) (t.apply r) hplaced
        (fun _ => rfl) (hrest houtcome)
      refine ⟨r.moved ++ m, ?_, ?_, ?_⟩
      · dsimp only
        rw [hmoved, Transfer.apply_moved, List.append_assoc]
      · rw [List.length_append]
        omega
      · rw [addressesOf, List.zip_append (by simp [hlength]), ← List.append_assoc]
        exact hplaced'

theorem addressesOf_append : addressesOf (plan ++ rest) = addressesOf plan ++ addressesOf rest := by
  induction plan with
  | nil => rfl
  | cons chunk plan ih => rw [List.cons_append, addressesOf, addressesOf, ih, List.append_assoc]

/-- When the steps for segments go through, what is moved is placed at their first addresses. -/
theorem Places.transferSegments (hR : step.Places R) (hsize : 0 < chunkSize) (onEnd : Option ℤ)
    (segments : List (ℕ × ℕ)) (total : ℕ) (t : Transfer σ β) (h : R placed t.state)
    (hstarted : placed ≠ [] → started = true)
    (hpasses : step.Passes strict started (planOf chunkSize segments) t.state) :
    ∃ m, (step.transferSegments chunkSize onEnd segments total t).2.moved = t.moved ++ m ∧
      m.length ≤ (addressesOf (planOf chunkSize segments)).length ∧
      R (placed ++ (addressesOf (planOf chunkSize segments)).zip m)
        (step.transferSegments chunkSize onEnd segments total t).2.state := by
  induction segments generalizing total t placed started with
  | nil => exact ⟨[], by simp [ChunkStep.transferSegments], Nat.zero_le _, by
    simpa [planOf, addressesOf, ChunkStep.transferSegments] using h⟩
  | cons segment segments ih =>
    rw [planOf, passes_append] at hpasses
    obtain ⟨m, hmoved, hm, hplaced⟩ :=
      hR.transferSegment hsize segment.1 segment.2 0 t h hstarted hpasses.1
    have hlength : (addressesOf (chunksOf chunkSize segment.1 segment.2 true)).length =
        segment.2 := by
      rw [addressesOf_chunksOf hsize, List.length_map, List.length_range]
    have hfacts := step.segmentFacts hsize segment.1 segment.2 0 true t
    rw [planOf, addressesOf_append, ChunkStep.transferSegments]
    rcases hsegment : step.transferSegment chunkSize segment.1 segment.2 0 t with ⟨r, t'⟩
    rw [hsegment] at hmoved hplaced hfacts
    have hstop : ∃ m, t'.moved = t.moved ++ m ∧
        m.length ≤ (addressesOf (chunksOf chunkSize segment.1 segment.2 true) ++
          addressesOf (planOf chunkSize segments)).length ∧
        R (placed ++ (addressesOf (chunksOf chunkSize segment.1 segment.2 true) ++
          addressesOf (planOf chunkSize segments)).zip m) t'.state := by
      refine ⟨m, hmoved, ?_, by rwa [zip_append_of_length_le (by omega)]⟩
      rw [List.length_append]
      omega
    rcases r with _ | ⟨code, n⟩ | n
    · exact hstop
    · exact hstop
    obtain ⟨hn, hle⟩ := hfacts.length_of_done n rfl
    dsimp only at hmoved hn ⊢
    rw [hmoved, List.length_append] at hn
    split_ifs with hlt
    · exact hstop
    obtain rfl : n = 0 + segment.2 := by omega
    have hstarted' : placed ++ (addressesOf (chunksOf chunkSize segment.1 segment.2 true)).zip m ≠
        [] → (started || !(chunksOf chunkSize segment.1 segment.2 true).isEmpty) = true := by
      intro hne
      cases hchunks : chunksOf chunkSize segment.1 segment.2 true with
      | nil =>
        rw [hchunks, addressesOf, List.zip_nil_left, List.append_nil] at hne
        rw [hstarted hne, Bool.true_or]
      | cons chunk plan => simp
    obtain ⟨m', hmoved', hm', hplaced'⟩ := ih (total + (0 + segment.2)) t' hplaced hstarted'
      (hpasses.2 _ (hfacts.fill_of_done rfl))
    refine ⟨m ++ m', by rw [hmoved', hmoved, List.append_assoc], ?_, ?_⟩
    · rw [List.length_append, List.length_append]
      omega
    rw [List.zip_append (by omega), ← List.append_assoc]
    exact hplaced'

/-! ### What every step preserves -/

section Preserved

variable {P : σ → Prop}

/-- The transfer of a segment preserves what its steps preserve. -/
theorem transferSegment_preserves
    (hstep : ∀ address size s, P s → P (step.run address size s).state)
    (chunkSize address remaining count : ℕ) {t : Transfer σ β} (ht : P t.state) :
    P (step.transferSegment chunkSize address remaining count t).2.state := by
  induction remaining using Nat.strongRecOn generalizing address count t with
  | ind remaining ih =>
    rw [ChunkStep.transferSegment]
    split_ifs with h
    · exact ht
    · have happly := hstep address (min remaining chunkSize) t.state ht
      dsimp only
      split
      · exact happly
      · exact happly
      · exact happly
      · exact ih _ (by omega) _ _ happly

/-- The transfer of a table preserves what its steps preserve. -/
theorem transferTable_preserves
    (hstep : ∀ address size s, P s → P (step.run address size s).state)
    (chunkSize bound : ℕ) (tooLarge : ℤ) (entries : List (σ → Except ℤ (ℕ × ℕ))) (total : ℕ)
    {t : Transfer σ β} (ht : P t.state) :
    P (step.transferTable chunkSize bound tooLarge entries total t).2.state := by
  induction entries generalizing total t with
  | nil => exact ht
  | cons entry entries ih =>
    rw [ChunkStep.transferTable]
    rcases entry t.state with code | segment
    · exact ht
    · have hsegment := step.transferSegment_preserves hstep chunkSize segment.1 segment.2 0 ht
      dsimp only
      generalize step.transferSegment chunkSize segment.1 segment.2 0 t = r at hsegment ⊢
      obtain ⟨outcome, t'⟩ := r
      rcases outcome with _ | code | count
      · exact hsegment
      · exact hsegment
      · dsimp only
        split_ifs
        · exact hsegment
        · exact hsegment
        · exact ih _ hsegment

end Preserved

end ChunkStep

end TwistedOS
