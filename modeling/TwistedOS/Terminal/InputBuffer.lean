import TwistedOS.Data.DelimitedLines
import TwistedOS.Data.RingBuffer
import TwistedOS.Terminal.TerminalInput

/-!
# The ring of typed characters

The bytes that are buffered, the oldest first, and how storing, erasing and taking a byte change
them. In canonical mode the committed bytes are those of the finished lines.

## Main definitions

* `Tty.bufferedInput`, `Tty.HasRing`, `Tty.Committed`.

## Main results

* `Tty.HasRing.storeByte`, `Tty.HasRing.eraseByte`, `Tty.HasRing.takeByte`.
* `Tty.copyLoop_spec`: what a reader gets.
-/

namespace TwistedOS

open DelimitedLines Function
open RingBuffer (contents contents_push contents_unpush pop push unpush)

/-! ### The ring -/

namespace Tty

variable {tty : Tty} {r : RingBuffer UInt8 keyboardBufferCapacity} {character : UInt8}

/-- The buffered bytes, the oldest first. -/
def bufferedInput (tty : Tty) : List UInt8 :=
  (List.range tty.bufferedBytes).map fun i =>
    tty.keyboardBuffer ((tty.bufferTail + i) % keyboardBufferCapacity)

/-- The fields of the terminal are those of a ring. -/
structure IsRing (tty : Tty) (r : RingBuffer UInt8 keyboardBufferCapacity) : Prop where
  cells : tty.keyboardBuffer = r.cells
  tail : tty.bufferTail = r.readOffset
  head : tty.bufferHead = r.writeOffset
  buffered : tty.bufferedBytes = r.buffered

/-- The input sides are the same. -/
structure SameInput (tty tty' : Tty) : Prop where
  keyboardBuffer : tty'.keyboardBuffer = tty.keyboardBuffer
  bufferHead : tty'.bufferHead = tty.bufferHead
  bufferTail : tty'.bufferTail = tty.bufferTail
  bufferedBytes : tty'.bufferedBytes = tty.bufferedBytes
  committedBytes : tty'.committedBytes = tty.committedBytes
  termios : tty'.termios = tty.termios

namespace SameInput

variable {tty' tty'' : Tty}

theorem refl (tty : Tty) : SameInput tty tty := ⟨rfl, rfl, rfl, rfl, rfl, rfl⟩

theorem trans (h : SameInput tty tty') (h' : SameInput tty' tty'') : SameInput tty tty'' :=
  ⟨h'.keyboardBuffer.trans h.keyboardBuffer, h'.bufferHead.trans h.bufferHead,
    h'.bufferTail.trans h.bufferTail, h'.bufferedBytes.trans h.bufferedBytes,
    h'.committedBytes.trans h.committedBytes, h'.termios.trans h.termios⟩

theorem moveTo (x y : ℕ) : SameInput tty (tty.moveTo x y) := ⟨rfl, rfl, rfl, rfl, rfl, rfl⟩

theorem clearIfFull : SameInput tty tty.clearIfFull.1 := by
  rw [Tty.clearIfFull, clearScreen]
  split_ifs
  · exact .moveTo _ _
  · exact .refl _
  · exact .refl _

theorem putGlyph : SameInput tty (tty.putGlyph character).1 := by
  have hrow (tty : Tty) (p : Prop) [Decidable p] : SameInput tty (if p then tty.nextRow else tty) := by
    split_ifs
    · exact .moveTo _ _
    · exact .refl _
  rw [Tty.putGlyph]
  exact (((hrow _ _).trans (.moveTo _ _)).trans (hrow _ _)).trans .clearIfFull

/-- Drawing leaves the input side alone. -/
theorem putChar : SameInput tty (tty.putChar character).1 := by
  rw [Tty.putChar]
  split_ifs
  · exact (SameInput.moveTo _ _).trans .clearIfFull
  · exact .moveTo _ _
  · exact .moveTo _ _
  · exact .refl _
  · exact .putGlyph
  · exact .refl _

theorem echo : SameInput tty (tty.echo character).1 := by
  rw [Tty.echo]
  split_ifs
  · exact .putChar
  · exact .refl _

end SameInput

namespace IsRing

variable (h : IsRing tty r)

include h

theorem bufferedInput_eq : tty.bufferedInput = r.contents := by
  rw [bufferedInput, contents, h.cells, h.tail, h.buffered]

theorem length_bufferedInput : tty.bufferedInput.length = tty.bufferedBytes := by
  rw [h.bufferedInput_eq, r.length_contents, h.buffered]

theorem bufferedBytes_le : tty.bufferedBytes ≤ keyboardBufferCapacity :=
  h.buffered.trans_le r.buffered_le

/-- Commits and changes of the mode leave the ring alone. -/
theorem withInput (committedBytes : ℕ) (termios : LinuxTermios) :
    IsRing (tty.withInput tty.keyboardBuffer tty.bufferHead tty.bufferTail tty.bufferedBytes
      committedBytes termios) r := ⟨h.cells, h.tail, h.head, h.buffered⟩

theorem storeByte (character : UInt8) (hroom : r.buffered ≠ keyboardBufferCapacity) :
    IsRing (tty.storeByte character) (r.push character hroom) where
  cells := by rw [Tty.storeByte, Tty.withInput, push, h.cells, h.head]
  tail := by rw [Tty.storeByte, Tty.withInput, push, h.tail]
  head := by rw [Tty.storeByte, Tty.withInput, push, h.head]
  buffered := by rw [Tty.storeByte, Tty.withInput, push, h.buffered]

theorem pred_bufferedBytes (hne : r.buffered ≠ 0) :
    subtract64 tty.bufferedBytes 1 = r.buffered - 1 := by
  rw [h.buffered, subtract64_of_le (Nat.one_le_iff_ne_zero.mpr hne)]

theorem eraseByte (hne : r.buffered ≠ 0) : IsRing tty.eraseByte (r.unpush hne) where
  cells := by rw [Tty.eraseByte, Tty.withInput, unpush, h.cells]
  tail := by rw [Tty.eraseByte, Tty.withInput, unpush, h.tail]
  head := by rw [Tty.eraseByte, Tty.withInput, unpush, h.head]
  buffered := by
    rw [Tty.eraseByte, Tty.withInput, unpush, h.pred_bufferedBytes hne]

theorem takeByte (hne : r.buffered ≠ 0) : IsRing tty.takeByte (r.pop hne) where
  cells := by rw [Tty.takeByte, Tty.withInput, pop, h.cells]
  tail := by rw [Tty.takeByte, Tty.withInput, pop, h.tail]
  head := by rw [Tty.takeByte, Tty.withInput, pop, h.head]
  buffered := by
    rw [Tty.takeByte, Tty.withInput, pop, h.pred_bufferedBytes hne]

/-- What does not change the input side leaves the ring alone. -/
theorem of_sameInput {tty' : Tty} (hsame : SameInput tty tty') : IsRing tty' r :=
  ⟨hsame.keyboardBuffer.trans h.cells, hsame.bufferTail.trans h.tail,
    hsame.bufferHead.trans h.head, hsame.bufferedBytes.trans h.buffered⟩

end IsRing

/-! ### Bytes -/

/-- The fields of the terminal are those of some ring. -/
def HasRing (tty : Tty) : Prop := ∃ r, IsRing tty r

/-- In canonical mode what is committed are the completed lines. -/
def Committed (tty : Tty) : Prop :=
  tty.isCanonicalModeEnabled → tty.committedBytes = completed 10 tty.bufferedInput

theorem SameInput.bufferedInput {tty' : Tty} (h : SameInput tty tty') :
    tty'.bufferedInput = tty.bufferedInput := by
  rw [Tty.bufferedInput, Tty.bufferedInput, h.keyboardBuffer, h.bufferTail, h.bufferedBytes]

theorem isCanonicalModeEnabled_congr {tty' : Tty} (h : tty'.termios = tty.termios) :
    tty'.isCanonicalModeEnabled = tty.isCanonicalModeEnabled := by
  rw [isCanonicalModeEnabled, isCanonicalModeEnabled, h]

theorem HasRing.of_sameInput {tty' : Tty} (h : HasRing tty) (hsame : SameInput tty tty') :
    HasRing tty' := h.imp fun _ hr => hr.of_sameInput hsame

theorem Committed.of_sameInput {tty' : Tty} (h : Committed tty) (hsame : SameInput tty tty') :
    Committed tty' := by
  intro hcanonical
  rw [isCanonicalModeEnabled_congr hsame.termios] at hcanonical
  rw [hsame.committedBytes, hsame.bufferedInput, h hcanonical]

theorem HasRing.length_bufferedInput (h : HasRing tty) :
    tty.bufferedInput.length = tty.bufferedBytes := by
  obtain ⟨r, hr⟩ := h
  exact hr.length_bufferedInput

/-- In canonical mode no more bytes are committed than buffered. -/
theorem Committed.le (h : Committed tty) (hring : HasRing tty)
    (hcanonical : tty.isCanonicalModeEnabled) :
    tty.committedBytes ≤ tty.bufferedBytes := by
  rw [h hcanonical, ← hring.length_bufferedInput]
  exact completed_le_length _ _

/-- A stored byte comes after those that are buffered. -/
theorem HasRing.storeByte (h : HasRing tty) (hroom : tty.bufferedBytes < keyboardBufferCapacity)
    (character : UInt8) : HasRing (tty.storeByte character) ∧
      (tty.storeByte character).bufferedInput = tty.bufferedInput ++ [character] := by
  obtain ⟨r, hr⟩ := h
  have hne : r.buffered ≠ keyboardBufferCapacity := by
    rw [← hr.buffered]
    exact hroom.ne
  have hstore := hr.storeByte character hne
  refine ⟨⟨_, hstore⟩, ?_⟩
  rw [hstore.bufferedInput_eq, contents_push, hr.bufferedInput_eq]

theorem HasRing.eraseByte (h : HasRing tty) (hne : tty.bufferedBytes ≠ 0) :
    HasRing tty.eraseByte ∧ tty.eraseByte.bufferedInput = tty.bufferedInput.dropLast := by
  obtain ⟨r, hr⟩ := h
  rw [hr.buffered] at hne
  have herase := hr.eraseByte hne
  refine ⟨⟨_, herase⟩, ?_⟩
  rw [herase.bufferedInput_eq, contents_unpush, hr.bufferedInput_eq]

theorem HasRing.takeByte (h : HasRing tty) (hne : tty.bufferedBytes ≠ 0) :
    HasRing tty.takeByte ∧
      tty.bufferedInput = tty.keyboardBuffer tty.bufferTail :: tty.takeByte.bufferedInput := by
  obtain ⟨r, hr⟩ := h
  rw [hr.buffered] at hne
  have htake := hr.takeByte hne
  refine ⟨⟨_, htake⟩, ?_⟩
  rw [htake.bufferedInput_eq, hr.bufferedInput_eq, r.contents_eq_cons hne, hr.cells, hr.tail]

theorem termios_takeByte : tty.takeByte.termios = tty.termios := by
  rw [Tty.takeByte, withInput]

/-- The byte that is taken was committed. -/
theorem Committed.takeByte (h : Committed tty) (hring : HasRing tty)
    (hne : tty.getReadableBytes ≠ 0) : Committed tty.takeByte := by
  intro hcanonical
  rw [isCanonicalModeEnabled_congr termios_takeByte] at hcanonical
  rw [getReadableBytes, if_pos hcanonical] at hne
  have hbuffered : tty.bufferedBytes ≠ 0 := by
    have := h.le hring hcanonical
    omega
  have hcommitted : tty.takeByte.committedBytes = tty.committedBytes - 1 := by
    rw [Tty.takeByte, withInput]
    exact if_pos ⟨hcanonical, Nat.pos_of_ne_zero hne⟩
  have hdrop : tty.takeByte.bufferedInput = tty.bufferedInput.drop 1 := by
    rw [(hring.takeByte hbuffered).2, List.drop_succ_cons, List.drop_zero]
  rw [hcommitted, h hcanonical, hdrop, completed_drop]

/-- What the copying loop gives to the reader. -/
theorem copyLoop_spec (vMin remaining bytesCopied : ℕ) (h : Committed tty) (hring : HasRing tty) :
    ∃ n, (copyLoop vMin remaining bytesCopied tty).1 = tty.bufferedInput.take n ∧
      (copyLoop vMin remaining bytesCopied tty).2.bufferedInput = tty.bufferedInput.drop n ∧
      HasRing (copyLoop vMin remaining bytesCopied tty).2 ∧
      Committed (copyLoop vMin remaining bytesCopied tty).2 ∧
      (tty.isCanonicalModeEnabled → n = min remaining tty.committedBytes) := by
  induction remaining generalizing tty bytesCopied with
  | zero =>
    exact ⟨0, List.take_zero.symm, List.drop_zero.symm, hring, h, fun _ => (Nat.zero_min _).symm⟩
  | succ remaining ih =>
    rw [copyLoop]
    by_cases hnone : tty.getReadableBytes = 0
    · rw [if_pos hnone]
      refine ⟨0, List.take_zero.symm, List.drop_zero.symm, hring, h, fun hcanonical => ?_⟩
      rw [getReadableBytes, if_pos hcanonical] at hnone
      rw [hnone, Nat.min_zero]
    rw [if_neg hnone]
    have hbuffered : tty.bufferedBytes ≠ 0 := by
      rw [getReadableBytes] at hnone
      split_ifs at hnone with hcanonical
      · have := h.le hring hcanonical
        omega
      · exact hnone
    obtain ⟨hring', hcons⟩ := hring.takeByte hbuffered
    have h' := h.takeByte hring hnone
    by_cases hstop : ¬ tty.isCanonicalModeEnabled ∧ 0 < vMin ∧ vMin ≤ bytesCopied + 1
    · rw [if_pos hstop, hcons]
      refine ⟨1, ?_, ?_, hring', h', fun hcanonical => absurd hcanonical hstop.1⟩
      · rw [List.take_succ_cons, List.take_zero]
      · rw [List.drop_succ_cons, List.drop_zero]
    · rw [if_neg hstop, hcons]
      obtain ⟨n, hbytes, hrest, hring₂, h₂, hmin⟩ := ih (bytesCopied + 1) h' hring'
      refine ⟨n + 1, ?_, ?_, hring₂, h₂, fun hcanonical => ?_⟩
      · rw [List.take_succ_cons, ← hbytes]
      · rw [List.drop_succ_cons, ← hrest]
      rw [getReadableBytes, if_pos hcanonical] at hnone
      rw [hmin ((isCanonicalModeEnabled_congr termios_takeByte).trans hcanonical)]
      have hcommitted : tty.takeByte.committedBytes = tty.committedBytes - 1 := by
        rw [Tty.takeByte, withInput]
        exact if_pos ⟨hcanonical, Nat.pos_of_ne_zero hnone⟩
      omega

/-! ### Calls -/

theorem HasRing.commit (h : HasRing tty) (n : ℕ) : HasRing (tty.commit n) :=
  h.imp fun _ hr => hr.withInput n tty.termios

/-- A character that takes back another one: none is taken back if all lines are finished. -/
theorem eraseTyped_spec (hring : HasRing tty) (h : Committed tty)
    (hcanonical : tty.isCanonicalModeEnabled) :
    HasRing tty.eraseTyped.tty ∧ Committed tty.eraseTyped.tty ∧
      (completed 10 tty.bufferedInput = tty.bufferedInput.length ∧
          tty.eraseTyped.tty.bufferedInput = tty.bufferedInput ∨
        ∃ a, a ≠ 10 ∧ tty.bufferedInput = tty.eraseTyped.tty.bufferedInput ++ [a]) := by
  have hlength := hring.length_bufferedInput
  have hle := h.le hring hcanonical
  rw [eraseTyped, subtract64_of_le hle]
  split_ifs with hunfinished
  · have hlt : completed 10 tty.bufferedInput < tty.bufferedInput.length := by
      rw [← h hcanonical]
      omega
    obtain ⟨l, a, hl, ha⟩ := exists_eq_append_of_completed_lt hlt
    obtain ⟨hring', herase⟩ := hring.eraseByte (by omega)
    rw [hl, List.dropLast_concat] at herase
    have hcommitted : Committed tty.eraseByte := by
      intro _
      rw [herase, show tty.eraseByte.committedBytes = tty.committedBytes by
        rw [Tty.eraseByte, withInput], h hcanonical, hl, completed_append_singleton, if_neg ha]
    have hecho : SameInput tty.eraseByte (tty.eraseByte.echo 8).1 := .echo
    refine ⟨hring'.of_sameInput hecho, hcommitted.of_sameInput hecho, .inr ⟨a, ha, ?_⟩⟩
    rw [hecho.bufferedInput, herase, hl]
  · refine ⟨hring, h, .inl ⟨?_, rfl⟩⟩
    rw [← h hcanonical]
    omega

/-- A character is refused by a full buffer. -/
theorem storeTyped_of_full (hfull : keyboardBufferCapacity ≤ tty.bufferedBytes) :
    tty.storeTyped character = ⟨tty, [], 0, false⟩ := by
  rw [storeTyped, pushKeyboardInput, if_pos hfull]
  rfl

/-- Typed characters do not change the mode. -/
theorem termios_storeTyped : (tty.storeTyped character).tty.termios = tty.termios := by
  have hstore : (tty.storeByte character).termios = tty.termios := by rw [Tty.storeByte, withInput]
  by_cases hfull : keyboardBufferCapacity ≤ tty.bufferedBytes
  · rw [storeTyped_of_full hfull]
  · rw [storeTyped, pushKeyboardInput, if_neg hfull, pushKeyboardInput]
    dsimp only
    rw [if_neg (by decide)]
    refine (show SameInput _ _ from .echo).termios.trans ?_
    split_ifs
    · exact hstore
    · exact hstore

theorem storeTyped_spec (character : UInt8) (hring : HasRing tty) (h : Committed tty)
    (hroom : tty.bufferedBytes < keyboardBufferCapacity) :
    HasRing (tty.storeTyped character).tty ∧ Committed (tty.storeTyped character).tty ∧
      (tty.storeTyped character).tty.bufferedInput = tty.bufferedInput ++ [character] ∧
      (tty.storeTyped character).bytesStored = 1 := by
  obtain ⟨hring', hstore⟩ := hring.storeByte hroom character
  have hpush : pushKeyboardInput [character] tty = (tty.storeByte character, 1) := by
    rw [pushKeyboardInput, if_neg (Nat.not_le.mpr hroom), pushKeyboardInput]
  -- the state before the character is drawn
  obtain ⟨next, hnext⟩ : ∃ next, next = if character = 10 then
      (tty.storeByte character).commit (tty.storeByte character).bufferedBytes
    else tty.storeByte character := ⟨_, rfl⟩
  have hspec : HasRing next ∧ Committed next ∧
      next.bufferedInput = tty.bufferedInput ++ [character] := by
    rw [hnext]
    split_ifs with hnewline
    · refine ⟨hring'.commit _, fun _ => ?_, hstore⟩
      change (tty.storeByte character).bufferedBytes =
        completed 10 (tty.storeByte character).bufferedInput
      rw [← hring'.length_bufferedInput, hstore, hnewline, completed_append_singleton, if_pos rfl,
        List.length_append, List.length_singleton]
    · refine ⟨hring', fun hcanonical => ?_, hstore⟩
      have htermios : (tty.storeByte character).termios = tty.termios := by
        rw [Tty.storeByte, withInput]
      rw [isCanonicalModeEnabled_congr htermios] at hcanonical
      rw [hstore, completed_append_singleton, if_neg hnewline, ← h hcanonical, Tty.storeByte,
        withInput]
  have hecho : SameInput next (next.echo character).1 := .echo
  have htyped : (tty.storeTyped character).tty = (next.echo character).1 ∧
      (tty.storeTyped character).bytesStored = 1 := by
    rw [storeTyped, hpush, hnext]
    exact ⟨rfl, rfl⟩
  rw [htyped.1, hecho.bufferedInput]
  exact ⟨hspec.1.of_sameInput hecho, hspec.2.1.of_sameInput hecho, hspec.2.2, htyped.2⟩

/-- A change of the mode keeps the buffered bytes. In canonical mode nothing is committed afterwards
if it was not on before. -/
theorem setTermios_spec (hring : HasRing tty) (h : Committed tty) (incoming : LinuxTermios)
    (hnone : ¬ tty.isCanonicalModeEnabled → (tty.setTermios incoming).1.isCanonicalModeEnabled →
      10 ∉ tty.bufferedInput) :
    HasRing (tty.setTermios incoming).1 ∧ Committed (tty.setTermios incoming).1 ∧
      (tty.setTermios incoming).1.bufferedInput = tty.bufferedInput := by
  obtain ⟨next, hnext⟩ : ∃ next, next = tty.withInput tty.keyboardBuffer tty.bufferHead
    tty.bufferTail tty.bufferedBytes tty.committedBytes incoming := ⟨_, rfl⟩
  have hring' : HasRing next := hnext ▸ hring.imp fun _ hr => hr.withInput _ _
  have hinput : next.bufferedInput = tty.bufferedInput := by
    rw [hnext]
    rfl
  have hcommitted : next.committedBytes = tty.committedBytes := by rw [hnext, withInput]
  rw [setTermios, ← hnext] at hnone ⊢
  split_ifs at hnone ⊢ with hon hoff
  · refine ⟨hring'.commit 0, fun hcanonical => ?_, hinput⟩
    have hzero := completed_eq_zero_iff.mpr (hnone hon.1 hcanonical)
    rw [← hinput] at hzero
    exact hzero.symm
  · exact ⟨hring'.commit _, fun hcanonical => absurd hcanonical hoff.2, hinput⟩
  · refine ⟨hring', fun hcanonical => ?_, hinput⟩
    have hwas : tty.isCanonicalModeEnabled := by
      by_contra hraw
      exact hon ⟨hraw, hcanonical⟩
    rw [hcommitted, h hwas, hinput]

/-- Bytes are given to a reader that asked for `count` of them and waited for `required`. -/
structure Delivers (tty : Tty) (count required : ℕ) (bytes : List UInt8) (tty' : Tty) : Prop where
  hasRing : HasRing tty'
  committed : Committed tty'
  append_eq : bytes ++ tty'.bufferedInput = tty.bufferedInput
  of_canonical : tty.isCanonicalModeEnabled →
    bytes = [] ∨ required ≤ tty.committedBytes ∧
      bytes = tty.bufferedInput.take (min count tty.committedBytes)

section

variable (hring : HasRing tty) (h : Committed tty)

include hring h

theorem Delivers.nil (count required : ℕ) : Delivers tty count required [] tty :=
  ⟨hring, h, List.nil_append _, fun _ => .inl rfl⟩

/-- The part behind the loop that waits. -/
theorem finishRead_spec (call : ReadCall)
    (hrequired : tty.isCanonicalModeEnabled → call.requiredBytes ≤ tty.committedBytes) :
    ∃ bytes tty', tty.finishRead call = .returns (.ok bytes) tty' ∧
      Delivers tty call.count call.requiredBytes bytes tty' := by
  rw [finishRead]
  split_ifs
  · exact ⟨[], tty, rfl, .nil hring h _ _⟩
  · obtain ⟨n, hbytes, hrest, hring', h', hmin⟩ := copyLoop_spec call.vMin call.count 0 h hring
    refine ⟨_, _, rfl, hring', h', ?_, fun hcanonical => .inr ⟨hrequired hcanonical, ?_⟩⟩
    · rw [hbytes, hrest, List.take_append_drop]
    · rw [hbytes, hmin hcanonical]

/-- How a round of the loop that waits ends. -/
theorem resumeRead_spec (call : ReadCall) :
    (∃ bytes tty', tty.resumeRead call = .returns (.ok bytes) tty' ∧
        Delivers tty call.count call.requiredBytes bytes tty') ∨
      (∃ error, tty.resumeRead call = .returns (.error error) tty) ∨
      (∃ call', tty.resumeRead call = .sleeps call' ∨ tty.resumeRead call = .blocks call') := by
  rw [resumeRead]
  split_ifs with hwait hnonBlocking htimeout htime
  · exact .inr (.inl ⟨_, rfl⟩)
  · exact .inl (finishRead_spec hring h call fun hcanonical => absurd hcanonical htimeout.1)
  · exact .inr (.inr ⟨_, .inl rfl⟩)
  · exact .inr (.inr ⟨_, .inr rfl⟩)
  · refine .inl (finishRead_spec hring h call fun hcanonical => ?_)
    rw [getReadableBytes, if_pos hcanonical] at hwait
    omega

end

end Tty

end TwistedOS
