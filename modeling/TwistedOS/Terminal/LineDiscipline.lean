import TwistedOS.Terminal.InputBuffer

/-!
# The line discipline

What has been read and what is buffered are always, in order, the characters that were typed and not
erased. In canonical mode the committed bytes are those up to the last buffered newline, unless the
terminal was switched from raw to canonical mode while a newline was buffered: then nothing counts
as committed, and the finished line can be erased. A read returns all committed bytes that fit, so
that it returns one line at most only if no more are buffered or the rest does not fit. A newline is
refused when the buffer is full of an unfinished line.

## Main definitions

* `TerminalRun`, `TerminalEvent`, `TerminalRun.step`: a terminal with its readers.
* `TerminalRun.Disciplined`, `TerminalRun.StepDisciplined`: the line discipline.
* `TerminalRun.Allowed`: the events for which the code follows it.

## Main results

* `TerminalRun.AllowedRun.disciplined`.
-/

namespace TwistedOS

open DelimitedLines Function

/-- A terminal, the readers that wait inside `Read`, the characters that were typed and not erased,
and the bytes that the readers were given. -/
structure TerminalRun where
  tty : Tty
  calls : ℕ → Option ReadCall
  typed : List UInt8
  returned : List UInt8

/-- What happens to a terminal. -/
inductive TerminalEvent where
  | type (character : UInt8)
  | read (process count : ℕ) (isNonBlocking : Bool)
  | resume (process : ℕ)
  | setTermios (incoming : LinuxTermios)

namespace TerminalRun

variable (s : TerminalRun)

/-- A new terminal. -/
def new (frameBuffer : Tty.FrameBuffer) (cursorX cursorY : ℕ) : TerminalRun :=
  ⟨Tty.new frameBuffer cursorX cursorY, fun _ => none, [], []⟩

/-- Takes back the last typed character, unless it has been read or finishes a line. -/
def eraseUnfinished (typed returned : List UInt8) : List UInt8 :=
  match (typed.drop returned.length).getLast? with
  | none => typed
  | some character => if character = 10 then typed else typed.dropLast

/-- The typed characters after another one. -/
def typedAfter (character : UInt8) : List UInt8 :=
  if s.tty.isEraseCharacter (Tty.typedCharacter character) then
    eraseUnfinished s.typed s.returned
  else if (s.tty.pushKeyboardInputChar character).bytesStored = 0 then s.typed
  else s.typed ++ [Tty.typedCharacter character]

/-- The reader that an event lets run, and how its part of `Read` ends. A process that waits inside
`Read` does not enter it again. -/
def outcome : TerminalEvent → Option (ℕ × ReadOutcome)
  | .type _ => none
  | .read process count isNonBlocking =>
    if (s.calls process).isSome then none else some (process, s.tty.read count isNonBlocking)
  | .resume process => (s.calls process).map fun call => (process, s.tty.resumeRead call)
  | .setTermios _ => none

/-- The state after a part of `Read`. -/
def afterRead (process : ℕ) : ReadOutcome → TerminalRun
  | .returns (.ok bytes) tty =>
    ⟨tty, update s.calls process none, s.typed, s.returned ++ bytes⟩
  | .returns (.error _) tty => ⟨tty, update s.calls process none, s.typed, s.returned⟩
  | .sleeps call => ⟨s.tty, update s.calls process (some call), s.typed, s.returned⟩
  | .blocks call => ⟨s.tty, update s.calls process (some call), s.typed, s.returned⟩

/-- The state after an event. -/
def step (event : TerminalEvent) : TerminalRun :=
  match event with
  | .type character =>
    ⟨(s.tty.pushKeyboardInputChar character).tty, s.calls, s.typedAfter character, s.returned⟩
  | .setTermios incoming => ⟨(s.tty.setTermios incoming).1, s.calls, s.typed, s.returned⟩
  | event =>
    match s.outcome event with
    | none => s
    | some (process, outcome) => s.afterRead process outcome

/-! ### The property -/

/-- What holds in a state: the ring holds what was typed and not yet read, and in canonical mode the
committed bytes are the finished lines. -/
structure Disciplined (s : TerminalRun) : Prop where
  bufferedBytes_le : s.tty.bufferedBytes ≤ keyboardBufferCapacity
  bufferTail_lt : s.tty.bufferTail < keyboardBufferCapacity
  bufferHead_eq :
    s.tty.bufferHead = (s.tty.bufferTail + s.tty.bufferedBytes) % keyboardBufferCapacity
  conserved : s.returned ++ s.tty.bufferedInput = s.typed
  committedBytes_eq : s.tty.isCanonicalModeEnabled →
    s.tty.committedBytes = completed 10 s.tty.bufferedInput

/-- What holds of an event: a typed character leaves finished lines alone, and a newline is stored
unless a line is finished; in canonical mode a read returns a part of one finished line. -/
structure StepDisciplined (s : TerminalRun) (event : TerminalEvent) : Prop where
  keepsLines : ∀ character, event = .type character →
    (s.step event).tty.bufferedInput.take (completed 10 s.tty.bufferedInput) =
      s.tty.bufferedInput.take (completed 10 s.tty.bufferedInput)
  storesNewline : ∀ character, event = .type character → Tty.typedCharacter character = 10 →
    10 ∉ s.tty.bufferedInput → (s.tty.pushKeyboardInputChar character).bytesStored ≠ 0
  readsOneLine : ∀ process bytes tty, s.outcome event = some (process, .returns (.ok bytes) tty) →
    s.tty.isCanonicalModeEnabled →
    bytes <+: s.tty.bufferedInput.take (completed 10 s.tty.bufferedInput) ∧ 10 ∉ bytes.dropLast

/-! ### The condition -/

/-- A read of `count` bytes that waits for `requiredBytes` is given bytes of the first line only:
the rest does not fit, or there is no second finished line. -/
def ReadsFirstLine (count requiredBytes : ℕ) : Prop :=
  s.tty.isCanonicalModeEnabled → requiredBytes ≤ s.tty.committedBytes →
    count ≤ firstLine 10 s.tty.bufferedInput ∨ s.tty.bufferedInput.count 10 ≤ 1

/-- A newline is not typed while the buffer is full of an unfinished line; a read does not go beyond
the first line; and the terminal is not switched from raw to canonical mode while a newline is
buffered. -/
def Allowed : TerminalEvent → Prop
  | .type character =>
    Tty.typedCharacter character = 10 → ¬ s.tty.isEraseCharacter (Tty.typedCharacter character) →
      s.tty.bufferedBytes = keyboardBufferCapacity → 10 ∈ s.tty.bufferedInput
  | .read _ count _ => s.ReadsFirstLine count 1
  | .resume process => ∀ call, s.calls process = some call →
      s.ReadsFirstLine call.count call.requiredBytes
  | .setTermios incoming =>
    ¬ s.tty.isCanonicalModeEnabled → (s.tty.setTermios incoming).1.isCanonicalModeEnabled →
      10 ∉ s.tty.bufferedInput

/-- The states that are reached when all events are allowed. -/
inductive AllowedRun : TerminalRun → Prop
  | start (frameBuffer : Tty.FrameBuffer) (cursorX cursorY : ℕ) :
      AllowedRun (new frameBuffer cursorX cursorY)
  | step {s : TerminalRun} (event : TerminalEvent) (h : AllowedRun s) (hallowed : s.Allowed event) :
      AllowedRun (s.step event)

/-! ### The invariant -/

/-- What every event that is allowed preserves. -/
structure Invariant (s : TerminalRun) : Prop where
  hasRing : s.tty.HasRing
  committed : s.tty.Committed
  conserved : s.returned ++ s.tty.bufferedInput = s.typed

namespace Invariant

variable {s : TerminalRun} {character : UInt8}

section

variable (h : Invariant s)

include h

/-- A character that takes back another one. -/
theorem erase (herase : s.tty.isEraseCharacter (Tty.typedCharacter character)) :
    Invariant (s.step (.type character)) ∧
      ((s.step (.type character)).tty.bufferedInput = s.tty.bufferedInput ∨
        ∃ a, a ≠ 10 ∧
          s.tty.bufferedInput = (s.step (.type character)).tty.bufferedInput ++ [a]) := by
  have hcanonical : s.tty.isCanonicalModeEnabled := (Bool.and_eq_true_iff.mp herase).1
  obtain ⟨hring, hcommitted, hcases⟩ := Tty.eraseTyped_spec h.hasRing h.committed hcanonical
  have hstep : s.step (.type character) = ⟨s.tty.eraseTyped.tty, s.calls,
      eraseUnfinished s.typed s.returned, s.returned⟩ := by
    rw [step, typedAfter, if_pos herase, Tty.pushKeyboardInputChar, if_pos herase]
  have hunread : s.typed.drop s.returned.length = s.tty.bufferedInput := by
    rw [← h.conserved, List.drop_left]
  rw [hstep]
  rcases hcases with ⟨hfinished, hsame⟩ | ⟨a, ha, hlast⟩
  · refine ⟨⟨hring, hcommitted, ?_⟩, .inl hsame⟩
    change s.returned ++ s.tty.eraseTyped.tty.bufferedInput = eraseUnfinished s.typed s.returned
    rw [hsame, h.conserved, eraseUnfinished, hunread]
    rcases List.eq_nil_or_concat s.tty.bufferedInput with hnil | ⟨l, b, hl⟩
    · rw [hnil]
      rfl
    · rw [List.concat_eq_append] at hl
      have hb : b = 10 := completed_eq_length_of_last hfinished hl
      rw [hl, List.getLast?_concat, hb]
      rfl
  · refine ⟨⟨hring, hcommitted, ?_⟩, .inr ⟨a, ha, hlast⟩⟩
    change s.returned ++ s.tty.eraseTyped.tty.bufferedInput = eraseUnfinished s.typed s.returned
    rw [eraseUnfinished, hunread, hlast, List.getLast?_concat]
    dsimp only
    rw [if_neg ha, ← h.conserved, hlast, ← List.append_assoc, List.dropLast_concat]

/-- A character that takes back none. -/
theorem store (herase : ¬ s.tty.isEraseCharacter (Tty.typedCharacter character)) :
    Invariant (s.step (.type character)) ∧
      (s.tty.bufferedInput <+: (s.step (.type character)).tty.bufferedInput) ∧
      (s.tty.bufferedBytes ≠ keyboardBufferCapacity →
        (s.tty.pushKeyboardInputChar character).bytesStored ≠ 0) := by
  have hpush : s.tty.pushKeyboardInputChar character =
      s.tty.storeTyped (Tty.typedCharacter character) := by
    rw [Tty.pushKeyboardInputChar, if_neg herase]
  have hstep : s.step (.type character) =
      ⟨(s.tty.storeTyped (Tty.typedCharacter character)).tty, s.calls,
        if (s.tty.storeTyped (Tty.typedCharacter character)).bytesStored = 0 then s.typed
        else s.typed ++ [Tty.typedCharacter character], s.returned⟩ := by
    rw [step, typedAfter, if_neg herase, hpush]
  rw [hstep, hpush]
  by_cases hroom : s.tty.bufferedBytes < keyboardBufferCapacity
  · obtain ⟨hring, hcommitted, hinput, hstored⟩ :=
      Tty.storeTyped_spec (Tty.typedCharacter character) h.hasRing h.committed hroom
    rw [hstored, if_neg one_ne_zero]
    refine ⟨⟨hring, hcommitted, ?_⟩, ?_, fun _ => one_ne_zero⟩
    · change s.returned ++ (s.tty.storeTyped (Tty.typedCharacter character)).tty.bufferedInput = _
      rw [hinput, ← List.append_assoc, h.conserved]
    · change s.tty.bufferedInput <+:
        (s.tty.storeTyped (Tty.typedCharacter character)).tty.bufferedInput
      rw [hinput]
      exact List.prefix_append _ _
  · rw [Tty.storeTyped_of_full (Nat.le_of_not_lt hroom)]
    refine ⟨⟨h.hasRing, h.committed, h.conserved⟩, List.prefix_refl _, fun hne => ?_⟩
    obtain ⟨r, hr⟩ := h.hasRing
    exact absurd (Nat.le_antisymm hr.bufferedBytes_le (Nat.le_of_not_lt hroom)) hne

/-- A part of `Read` gives the oldest bytes to the reader. -/
theorem afterRead {process count required : ℕ} {outcome : ReadOutcome}
    (hspec : (∃ bytes tty', outcome = .returns (.ok bytes) tty' ∧
        s.tty.Delivers count required bytes tty') ∨
      (∃ error, outcome = .returns (.error error) s.tty) ∨
      (∃ call', outcome = .sleeps call' ∨ outcome = .blocks call')) :
    Invariant (s.afterRead process outcome) := by
  obtain ⟨bytes, tty', rfl, hdelivers⟩ | ⟨error, rfl⟩ | ⟨call', rfl | rfl⟩ := hspec
  · refine ⟨hdelivers.hasRing, hdelivers.committed, ?_⟩
    change (s.returned ++ bytes) ++ tty'.bufferedInput = s.typed
    rw [List.append_assoc, hdelivers.append_eq, h.conserved]
  · exact ⟨h.hasRing, h.committed, h.conserved⟩
  · exact ⟨h.hasRing, h.committed, h.conserved⟩
  · exact ⟨h.hasRing, h.committed, h.conserved⟩

/-- What a reader is given that enters `Read`. -/
theorem read_spec (count : ℕ) (isNonBlocking : Bool) :
    (∃ bytes tty', s.tty.read count isNonBlocking = .returns (.ok bytes) tty' ∧
        s.tty.Delivers count (s.tty.beginRead count isNonBlocking).requiredBytes bytes tty') ∨
      (∃ error, s.tty.read count isNonBlocking = .returns (.error error) s.tty) ∨
      (∃ call', s.tty.read count isNonBlocking = .sleeps call' ∨
        s.tty.read count isNonBlocking = .blocks call') := by
  rw [Tty.read]
  split_ifs
  · exact .inl ⟨[], s.tty, rfl, .nil h.hasRing h.committed _ _⟩
  · exact Tty.resumeRead_spec h.hasRing h.committed (s.tty.beginRead count isNonBlocking)

/-- A reader that runs is given the oldest bytes. -/
theorem outcome_spec {event : TerminalEvent} {process : ℕ} {r : ReadOutcome}
    (houtcome : s.outcome event = some (process, r)) (hallowed : s.Allowed event) :
    ∃ count required, s.ReadsFirstLine count required ∧
      ((∃ bytes tty', r = .returns (.ok bytes) tty' ∧
          s.tty.Delivers count required bytes tty') ∨
        (∃ error, r = .returns (.error error) s.tty) ∨
        (∃ call', r = .sleeps call' ∨ r = .blocks call')) := by
  cases event with
  | type character => simp [outcome] at houtcome
  | setTermios incoming => simp [outcome] at houtcome
  | read p count isNonBlocking =>
    rw [outcome] at houtcome
    split_ifs at houtcome
    obtain ⟨-, rfl⟩ := Prod.mk.inj (Option.some.inj houtcome)
    refine ⟨count, (s.tty.beginRead count isNonBlocking).requiredBytes, fun hcanonical hle => ?_,
      h.read_spec count isNonBlocking⟩
    have hone : (s.tty.beginRead count isNonBlocking).requiredBytes = 1 := by
      rw [Tty.beginRead, Tty.requiredBytes]
      exact if_pos hcanonical
    exact hallowed hcanonical (hone ▸ hle)
  | resume p =>
    rw [outcome, Option.map_eq_some_iff] at houtcome
    obtain ⟨call, hcall, heq⟩ := houtcome
    have hp : p = process := (Prod.mk.inj heq).1
    obtain rfl : s.tty.resumeRead call = r := (Prod.mk.inj heq).2
    exact ⟨call.count, call.requiredBytes, hallowed call hcall,
      Tty.resumeRead_spec h.hasRing h.committed call⟩

/-- Every event that is allowed preserves the invariant. -/
theorem step {event : TerminalEvent} (hallowed : s.Allowed event) : Invariant (s.step event) := by
  have hread (houtcomes : s.step event = match s.outcome event with
      | none => s
      | some (process, outcome) => s.afterRead process outcome) : Invariant (s.step event) := by
    rw [houtcomes]
    rcases houtcome : s.outcome event with _ | ⟨process, r⟩
    · exact h
    · obtain ⟨count, required, -, hspec⟩ := h.outcome_spec houtcome hallowed
      exact h.afterRead hspec
  cases event with
  | type character =>
    by_cases herase : s.tty.isEraseCharacter (Tty.typedCharacter character)
    · exact (h.erase herase).1
    · exact (h.store herase).1
  | read process count isNonBlocking => exact hread rfl
  | resume process => exact hread rfl
  | setTermios incoming =>
    obtain ⟨hring, hcommitted, hinput⟩ :=
      Tty.setTermios_spec h.hasRing h.committed incoming hallowed
    refine ⟨hring, hcommitted, ?_⟩
    change s.returned ++ (s.tty.setTermios incoming).1.bufferedInput = s.typed
    rw [hinput, h.conserved]

/-- The invariant says what holds in a state. -/
theorem holds : s.Disciplined := by
  obtain ⟨r, hr⟩ := h.hasRing
  refine ⟨hr.bufferedBytes_le, ?_, ?_, h.conserved, h.committed⟩
  · rw [hr.tail]
    exact r.readOffset_lt
  · rw [hr.head, hr.tail, hr.buffered]
    exact r.writeOffset_eq

/-- A typed character leaves the finished lines alone. -/
theorem keepsLines (character : UInt8) :
    (s.step (.type character)).tty.bufferedInput.take (completed 10 s.tty.bufferedInput) =
      s.tty.bufferedInput.take (completed 10 s.tty.bufferedInput) := by
  have hle := completed_le_length 10 s.tty.bufferedInput
  by_cases herase : s.tty.isEraseCharacter (Tty.typedCharacter character)
  · rcases (h.erase herase).2 with hsame | ⟨a, ha, hlast⟩
    · rw [hsame]
    · have hcompleted := completed_append_singleton 10
        (s.step (.type character)).tty.bufferedInput a
      rw [if_neg ha, ← hlast] at hcompleted
      have hle' : completed 10 s.tty.bufferedInput ≤
          (s.step (.type character)).tty.bufferedInput.length :=
        hcompleted.trans_le (completed_le_length 10 _)
      exact ((congrArg (List.take _) hlast).trans (List.take_append_of_le_length hle')).symm
  · obtain ⟨rest, hrest⟩ := (h.store herase).2.1
    rw [← hrest, List.take_append_of_le_length hle]

theorem stepDisciplined {event : TerminalEvent} (hallowed : s.Allowed event) :
    s.StepDisciplined event where
  keepsLines := by
    rintro character rfl
    exact h.keepsLines character
  storesNewline := by
    rintro character rfl hnewline hnone
    by_cases herase : s.tty.isEraseCharacter (Tty.typedCharacter character)
    · rw [Tty.pushKeyboardInputChar, if_pos herase, Tty.eraseTyped]
      split_ifs
      · exact one_ne_zero
      · exact one_ne_zero
    · refine (h.store herase).2.2 fun hfull => ?_
      exact hnone (hallowed hnewline herase hfull)
  readsOneLine := by
    intro process bytes tty houtcome hcanonical
    obtain ⟨count, required, hfirst, hspec⟩ := h.outcome_spec houtcome hallowed
    obtain ⟨bytes', tty', heq, hdelivers⟩ | ⟨error, heq⟩ | ⟨call', heq | heq⟩ := hspec
    · obtain ⟨hbytes, rfl⟩ := ReadOutcome.returns.inj heq
      obtain rfl := Except.ok.inj hbytes
      rcases hdelivers.of_canonical hcanonical with rfl | ⟨hrequired, rfl⟩
      · exact ⟨List.nil_prefix, List.not_mem_nil⟩
      · rw [h.committed hcanonical]
        refine ⟨List.take_prefix_take_left (Nat.min_le_right _ _), notMem_dropLast_take ?_⟩
        rcases hfirst hcanonical hrequired with hcount | hone
        · exact (Nat.min_le_left _ _).trans hcount
        · exact (Nat.min_le_right _ _).trans (completed_le_firstLine hone)
    · simp at heq
    · simp at heq
    · simp at heq

end

end Invariant

/-- A new terminal has read and stored nothing. -/
theorem invariant_new (frameBuffer : Tty.FrameBuffer) (cursorX cursorY : ℕ) :
    Invariant (new frameBuffer cursorX cursorY) :=
  ⟨⟨RingBuffer.blank (fun _ => 0) (by decide), rfl, rfl, rfl, rfl⟩, fun _ => rfl, rfl⟩

/-- In every run whose events are allowed the terminal follows the line discipline: the ring holds
what was typed and is not read yet, and a read in canonical mode returns a part of one finished
line. -/
theorem AllowedRun.disciplined {s : TerminalRun} (h : AllowedRun s) :
    s.Disciplined ∧ ∀ event, s.Allowed event → s.StepDisciplined event := by
  have hinv : Invariant s := by
    induction h with
    | start frameBuffer cursorX cursorY => exact invariant_new frameBuffer cursorX cursorY
    | step event _ hallowed ih => exact ih.step hallowed
  exact ⟨hinv.holds, fun event hallowed => hinv.stepDisciplined hallowed⟩

/-- The state of a new terminal after events. -/
def after (events : List TerminalEvent) : TerminalRun :=
  events.foldl step (new ⟨0x100000, 640, 400, 640, true⟩ 0 0)

/-- A line of one character has been typed. -/
theorem AllowedRun.disciplined_oneLine :
    (after [.type 97, .type 10]).Disciplined ∧
      ∀ event, (after [.type 97, .type 10]).Allowed event →
        (after [.type 97, .type 10]).StepDisciplined event :=
  AllowedRun.disciplined
    (.step (.type 10) (.step (.type 97) (.start _ 0 0) fun h => absurd h (by decide))
      fun _ _ h => absurd h (by decide +kernel))

/-- Typing the same letter again and again fills the buffer. -/
private theorem after_replicate {n : ℕ} (hn : n ≤ keyboardBufferCapacity) :
    Invariant (after (List.replicate n (.type 97))) ∧
      (after (List.replicate n (.type 97))).tty.bufferedInput = List.replicate n 97 ∧
      (after (List.replicate n (.type 97))).tty.termios = ⟨termiosDefault, defaultControlCharacters⟩
    := by
  induction n with
  | zero => exact ⟨invariant_new _ _ _, rfl, rfl⟩
  | succ n ih =>
    obtain ⟨hinv, hinput, htermios⟩ := ih (Nat.le_of_succ_le hn)
    have hstep : after (List.replicate (n + 1) (.type 97)) =
        (after (List.replicate n (.type 97))).step (.type 97) := by
      rw [after, List.replicate_succ', List.foldl_append]
      rfl
    rw [hstep]
    generalize after (List.replicate n (.type 97)) = s at hinv hinput htermios
    have hroom : s.tty.bufferedBytes < keyboardBufferCapacity := by
      rw [← hinv.hasRing.length_bufferedInput, hinput, List.length_replicate]
      exact hn
    have herase : ¬ s.tty.isEraseCharacter (Tty.typedCharacter 97) := by
      rw [Tty.isEraseCharacter, Tty.getControlCharacter, htermios]
      have hkeys : (Tty.typedCharacter 97 == 8 || Tty.typedCharacter 97 ==
          (if 19 ≤ ccVerase then 0 else defaultControlCharacters ccVerase)) = false := by decide
      rw [hkeys, Bool.and_false]
      exact Bool.false_ne_true
    have hpush : (s.step (.type 97)).tty = (s.tty.storeTyped 97).tty := by
      change (s.tty.pushKeyboardInputChar 97).tty = _
      rw [Tty.pushKeyboardInputChar, if_neg herase]
      rfl
    obtain ⟨-, -, hstored, -⟩ := Tty.storeTyped_spec 97 hinv.hasRing hinv.committed hroom
    refine ⟨(hinv.store herase).1, ?_, ?_⟩
    · rw [hpush, hstored, hinput, List.replicate_succ']
    · rw [hpush, Tty.termios_storeTyped, htermios]

/-- Two lines are given to one reader; a newline typed in raw mode is not committed when the
terminal is switched to canonical mode; and after 1024 letters a newline is refused. -/
theorem not_disciplined :
    (∃ tty, (after [.type 97, .type 10, .type 98, .type 10]).outcome (.read 1 10 false) =
        some (1, .returns (.ok [97, 10, 98, 10]) tty) ∧
      (after [.type 97, .type 10, .type 98, .type 10]).tty.isCanonicalModeEnabled ∧
      ¬ (after [.type 97, .type 10, .type 98, .type 10]).StepDisciplined (.read 1 10 false)) ∧
    (∀ s, s = after [.setTermios ⟨0, defaultControlCharacters⟩, .type 10,
        .setTermios ⟨termiosDefault, defaultControlCharacters⟩] →
      s.tty.isCanonicalModeEnabled ∧ s.tty.committedBytes = 0 ∧ s.tty.bufferedInput = [10] ∧
        ¬ s.Disciplined) ∧
    ∀ s, s = after (List.replicate keyboardBufferCapacity (.type 97)) →
      10 ∉ s.tty.bufferedInput ∧ (s.tty.pushKeyboardInputChar 10).bytesStored = 0 ∧
        ¬ s.StepDisciplined (.type 10) := by
  refine ⟨?_, ?_, ?_⟩
  · obtain ⟨s, hs⟩ : ∃ s, s = after [.type 97, .type 10, .type 98, .type 10] := ⟨_, rfl⟩
    have hcanonical : s.tty.isCanonicalModeEnabled := by
      rw [hs]
      decide +kernel
    have hready : (s.calls 1).isSome = false ∧
        ¬ s.tty.getReadableBytes < (s.tty.beginRead 10 false).requiredBytes ∧
        (Tty.copyLoop (s.tty.beginRead 10 false).vMin 10 0 s.tty).1 = [97, 10, 98, 10] := by
      rw [hs]
      decide +kernel
    obtain ⟨hidle, hready, hcopy⟩ := hready
    have hread : s.outcome (.read 1 10 false) = some (1, .returns (.ok [97, 10, 98, 10])
        (Tty.copyLoop (s.tty.beginRead 10 false).vMin 10 0 s.tty).2) := by
      rw [outcome, hidle, if_neg Bool.false_ne_true, Tty.read, if_neg (by decide), Tty.resumeRead,
        if_neg hready, Tty.finishRead, if_neg fun h => h.1 hcanonical, ← hcopy]
      rfl
    rw [← hs]
    refine ⟨_, hread, hcanonical, fun hdisciplined => ?_⟩
    exact absurd (hdisciplined.readsOneLine 1 _ _ hread hcanonical).2 (by decide)
  · rintro s hs
    have hvalues : s.tty.isCanonicalModeEnabled ∧ s.tty.committedBytes = 0 ∧
        s.tty.bufferedInput = [10] := by
      rw [hs]
      decide +kernel
    obtain ⟨hcanonical, hnone, hinput⟩ := hvalues
    refine ⟨hcanonical, hnone, hinput, fun hdisciplined => ?_⟩
    have heq := hdisciplined.committedBytes_eq hcanonical
    rw [hnone, hinput] at heq
    exact absurd heq (by decide)
  · rintro s hs
    obtain ⟨hinv, hinput, htermios⟩ := after_replicate (Nat.le_refl keyboardBufferCapacity)
    rw [← hs] at hinv hinput htermios
    have hnone : 10 ∉ s.tty.bufferedInput := by
      rw [hinput]
      exact fun hmem => absurd (List.eq_of_mem_replicate hmem) (by decide)
    have hfull : keyboardBufferCapacity ≤ s.tty.bufferedBytes := by
      rw [← hinv.hasRing.length_bufferedInput, hinput, List.length_replicate]
    have hrefused : (s.tty.pushKeyboardInputChar 10).bytesStored = 0 := by
      have herase : ¬ s.tty.isEraseCharacter (Tty.typedCharacter 10) := by
        rw [Tty.isEraseCharacter, Tty.getControlCharacter, htermios]
        have hkeys : (Tty.typedCharacter 10 == 8 || Tty.typedCharacter 10 ==
            (if 19 ≤ ccVerase then 0 else defaultControlCharacters ccVerase)) = false := by decide
        rw [hkeys, Bool.and_false]
        exact Bool.false_ne_true
      rw [Tty.pushKeyboardInputChar, if_neg herase, Tty.storeTyped_of_full hfull]
    exact ⟨hnone, hrefused, fun hdisciplined =>
      hdisciplined.storesNewline 10 rfl rfl hnone hrefused⟩

end TerminalRun

end TwistedOS
