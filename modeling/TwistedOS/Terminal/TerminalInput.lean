import TwistedOS.Logic.ProcessCalls
import TwistedOS.Terminal.Terminal

/-!
# The input of the terminal

Typed characters are kept in a ring of bytes. In canonical mode a reader gets only the bytes that
are committed, which are those up to the last newline; in raw mode it gets all of them, and VMIN and
VTIME say how long it waits. A process that waits inside `Read` blocks, or sleeps for one tick, and
looks again when it runs; what it does then is `Tty.resumeRead`.

## Main definitions

* `Tty.pushKeyboardInputChar`, `Tty.setTermios`.
* `ReadCall`, `ReadOutcome`, `Tty.read`, `Tty.resumeRead`.
-/

namespace TwistedOS

open Function

/-- A reader inside `Read`. -/
structure ReadCall where
  count : ℕ
  isNonBlocking : Bool
  vMin : ℕ
  vTime : ℕ
  requiredBytes : ℕ
  decisecondsWaited : ℕ
  deriving DecidableEq, Repr

/-- How a part of `Read` ends: it returns bytes or an error, or the reader sleeps for one tick or
blocks until there is input. -/
inductive ReadOutcome where
  | returns (result : Except ℤ (List UInt8)) (tty : Tty)
  | sleeps (call : ReadCall)
  | blocks (call : ReadCall)

/-- What a typed character leads to: the number of bytes stored, and whether the readers are told
that there is input. -/
structure KeyboardResult where
  tty : Tty
  drawn : List ScreenCommand
  bytesStored : ℕ
  notified : Bool

/-- The difference of two 64-bit counters. -/
def subtract64 (a b : ℕ) : ℕ := if b ≤ a then a - b else 2 ^ 64 - (b - a)

theorem subtract64_of_le {a b : ℕ} (h : b ≤ a) : subtract64 a b = a - b := if_pos h

namespace Tty

variable (tty : Tty)

/-- `IsCanonicalModeEnabled`. -/
def isCanonicalModeEnabled : Bool := tty.termios.localFlags &&& termiosIcanon ≠ 0

/-- `IsEchoEnabled`. -/
def isEchoEnabled : Bool := tty.termios.localFlags &&& termiosEcho ≠ 0

/-- `GetControlCharacter`. -/
def getControlCharacter (index : ℕ) : UInt8 :=
  if 19 ≤ index then 0 else tty.termios.controlCharacters index

/-- `GetReadableBytes`. -/
def getReadableBytes : ℕ :=
  if tty.isCanonicalModeEnabled then tty.committedBytes else tty.bufferedBytes

/-! ### Typed characters -/

/-- Stores a byte at the head of the ring. -/
def storeByte (character : UInt8) : Tty :=
  tty.withInput (update tty.keyboardBuffer tty.bufferHead character)
    ((tty.bufferHead + 1) % keyboardBufferCapacity) tty.bufferTail (tty.bufferedBytes + 1)
    tty.committedBytes tty.termios

/-- Takes back the byte at the head of the ring. -/
def eraseByte : Tty :=
  tty.withInput tty.keyboardBuffer
    ((tty.bufferHead + keyboardBufferCapacity - 1) % keyboardBufferCapacity) tty.bufferTail
    (subtract64 tty.bufferedBytes 1) tty.committedBytes tty.termios

/-- Removes the byte at the tail of the ring. -/
def takeByte : Tty :=
  tty.withInput tty.keyboardBuffer tty.bufferHead ((tty.bufferTail + 1) % keyboardBufferCapacity)
    (subtract64 tty.bufferedBytes 1)
    (if tty.isCanonicalModeEnabled ∧ 0 < tty.committedBytes then tty.committedBytes - 1
      else tty.committedBytes)
    tty.termios

/-- Commits a number of bytes. -/
def commit (committedBytes : ℕ) : Tty :=
  tty.withInput tty.keyboardBuffer tty.bufferHead tty.bufferTail tty.bufferedBytes committedBytes
    tty.termios

/-- `PushKeyboardInput`. -/
def pushKeyboardInput : List UInt8 → Tty → Tty × ℕ
  | [], tty => (tty, 0)
  | character :: buffer, tty =>
    if keyboardBufferCapacity ≤ tty.bufferedBytes then (tty, 0)
    else
      let r := pushKeyboardInput buffer (tty.storeByte character)
      (r.1, r.2 + 1)

/-- Draws a typed character if echo is on. -/
def echo (character : UInt8) : Tty × List ScreenCommand :=
  if tty.isEchoEnabled then tty.putChar character else (tty, [])

/-- The character that a key is stored as. -/
def typedCharacter (character : UInt8) : UInt8 := if character = 13 then 10 else character

/-- The character takes back another one. -/
def isEraseCharacter (character : UInt8) : Bool :=
  tty.isCanonicalModeEnabled && (character == 8 || character == tty.getControlCharacter ccVerase)

/-- Erases the newest byte that is not committed. -/
def eraseTyped : KeyboardResult :=
  if 0 < subtract64 tty.bufferedBytes tty.committedBytes then
    let r := tty.eraseByte.echo 8
    ⟨r.1, r.2, 1, false⟩
  else ⟨tty, [], 1, false⟩

/-- Stores a character; a newline commits all bytes. -/
def storeTyped (character : UInt8) : KeyboardResult :=
  let r := pushKeyboardInput [character] tty
  if r.2 = 0 then ⟨r.1, [], 0, false⟩
  else
    let tty := if character = 10 then r.1.commit r.1.bufferedBytes else r.1
    let drawn := tty.echo character
    ⟨drawn.1, drawn.2, r.2, character = 10 || !tty.isCanonicalModeEnabled⟩

/-- `PushKeyboardInputChar`. -/
def pushKeyboardInputChar (character : UInt8) : KeyboardResult :=
  if tty.isEraseCharacter (typedCharacter character) then tty.eraseTyped
  else tty.storeTyped (typedCharacter character)

/-! ### Modes -/

/-- `TCSETS`; the second component says whether the readers are told that there is input. -/
def setTermios (incoming : LinuxTermios) : Tty × Bool :=
  let next := tty.withInput tty.keyboardBuffer tty.bufferHead tty.bufferTail tty.bufferedBytes
    tty.committedBytes incoming
  if ¬ tty.isCanonicalModeEnabled ∧ next.isCanonicalModeEnabled then (next.commit 0, false)
  else if tty.isCanonicalModeEnabled ∧ ¬ next.isCanonicalModeEnabled then
    (next.commit tty.bufferedBytes, decide (0 < tty.bufferedBytes))
  else (next, false)

/-! ### Reads -/

/-- The bytes that a reader waits for. -/
def requiredBytes : ℕ :=
  let vMin := (tty.getControlCharacter ccVmin).toNat
  let vTime := (tty.getControlCharacter ccVtime).toNat
  if tty.isCanonicalModeEnabled then 1
  else if vMin = 0 ∧ vTime = 0 then 0
  else if vMin = 0 then 1
  else vMin

/-- A reader enters `Read`. -/
def beginRead (count : ℕ) (isNonBlocking : Bool) : ReadCall where
  count := count
  isNonBlocking := isNonBlocking
  vMin := (tty.getControlCharacter ccVmin).toNat
  vTime := (tty.getControlCharacter ccVtime).toNat
  requiredBytes := tty.requiredBytes
  decisecondsWaited := 0

/-- The loop that copies bytes to the reader, of which `bytesCopied` have been copied. -/
def copyLoop (vMin : ℕ) : ℕ → ℕ → Tty → List UInt8 × Tty
  | 0, _, tty => ([], tty)
  | remaining + 1, bytesCopied, tty =>
    if tty.getReadableBytes = 0 then ([], tty)
    else if ¬ tty.isCanonicalModeEnabled ∧ 0 < vMin ∧ vMin ≤ bytesCopied + 1 then
      ([tty.keyboardBuffer tty.bufferTail], tty.takeByte)
    else
      let r := copyLoop vMin remaining (bytesCopied + 1) tty.takeByte
      (tty.keyboardBuffer tty.bufferTail :: r.1, r.2)

/-- The part of `Read` behind the loop that waits. -/
def finishRead (call : ReadCall) : ReadOutcome :=
  if ¬ tty.isCanonicalModeEnabled ∧ call.vMin = 0 ∧ 0 < call.vTime ∧ tty.getReadableBytes = 0 then
    .returns (.ok []) tty
  else
    let r := copyLoop call.vMin call.count 0 tty
    .returns (.ok r.1) r.2

/-- One round of the loop that waits. -/
def resumeRead (call : ReadCall) : ReadOutcome :=
  if tty.getReadableBytes < call.requiredBytes then
    if call.isNonBlocking then .returns (.error errEagain) tty
    else if ¬ tty.isCanonicalModeEnabled ∧ 0 < call.vTime ∧ call.vTime ≤ call.decisecondsWaited then
      tty.finishRead call
    else if ¬ tty.isCanonicalModeEnabled ∧ 0 < call.vTime then
      .sleeps { call with decisecondsWaited := call.decisecondsWaited + 1 }
    else .blocks call
  else tty.finishRead call

/-- `Read`, up to the first time the reader waits. -/
def read (count : ℕ) (isNonBlocking : Bool) : ReadOutcome :=
  if count = 0 then .returns (.ok []) tty else tty.resumeRead (tty.beginRead count isNonBlocking)

end Tty

end TwistedOS
