import Mathlib.Tactic.SplitIfs
import TwistedOS.Data.CodeStream
import TwistedOS.Devices.EventDevices

/-!
# The keyboard

A keyboard sends the codes of scan code set 1: one byte for most keys, with its high bit set when
the key is released, the same behind the byte E0 for an extended key, and six bytes for the key
Pause. `Keyboard::HandleInterrupt` decodes them byte by byte. It keeps one flag for both Ctrl keys
and one for both Alt keys, but one flag for each Shift key.

## Main definitions

* `Key`, `KeyCode`, `KeyCode.bytes`, `isHeld`: what a keyboard sends, and the keys that are held.
* `Keyboard.handleInterrupt`
* `Keyboard.Agrees`: the flags are those of the keys that are held.
* `KeyCode.SafeAt`: the bytes that keep the flags right.

## Main results

* `Keyboard.Follows.step`: a byte keeps the flags right exactly when it is safe at its place.
-/

namespace TwistedOS

/-! ### Codes -/

/-- A key: whether its codes are extended, and what its codes have below the bit of a release. The
release codes E0 and E1 do not exist, for these bytes begin longer codes. -/
structure Key where
  isExtended : Bool
  scanCodeBase : UInt8
  base_lt : scanCodeBase < 0x80
  base_ne : scanCodeBase ≠ 0x60 ∧ scanCodeBase ≠ 0x61
  deriving DecidableEq, Repr

namespace Key

/-- Left Ctrl. -/
def leftCtrl : Key := ⟨false, 0x1D, by decide, by decide⟩

/-- Right Ctrl. -/
def rightCtrl : Key := ⟨true, 0x1D, by decide, by decide⟩

/-- Left Alt. -/
def leftAlt : Key := ⟨false, 0x38, by decide, by decide⟩

/-- Right Alt. -/
def rightAlt : Key := ⟨true, 0x38, by decide, by decide⟩

/-- Left Shift. -/
def leftShift : Key := ⟨false, 0x2A, by decide, by decide⟩

/-- Right Shift. -/
def rightShift : Key := ⟨false, 0x36, by decide, by decide⟩

/-- The last byte of a code of the key. -/
def scanCode (key : Key) (release : Bool) : UInt8 :=
  if release then key.scanCodeBase ||| 0x80 else key.scanCodeBase

/-- The key with the same byte that is extended, or is not. -/
def twin (key : Key) : Key := { key with isExtended := !key.isExtended }

end Key

/-- A key is pressed or released, or Pause is pressed: it has no code for its release. -/
inductive KeyCode
  | stroke (key : Key) (release : Bool)
  | pause
  deriving DecidableEq, Repr

/-- The bytes of a code. -/
def KeyCode.bytes : KeyCode → List UInt8
  | .stroke key release => (if key.isExtended then [0xE0] else []) ++ [key.scanCode release]
  | .pause => [0xE1, 0x1D, 0x45, 0xE1, 0x9D, 0xC5]

/-- The last of the codes of a key was that of a press. -/
def isHeld (key : Key) (codes : List KeyCode) : Bool :=
  codes.foldl (fun held code =>
    match code with
    | .stroke key' release => if key' = key then !release else held
    | .pause => held) false

/-! ### Decoding -/

/-- `LINUX_EV_KEY`. -/
def linuxEvKey : UInt16 := 1

/-- `LINUX_EV_MSC`. -/
def linuxEvMsc : UInt16 := 4

/-- `LINUX_MSC_SCAN`. -/
def linuxMscScan : UInt16 := 4

/-- `TranslateScanCodeToLinuxKeyCode`: the codes of these keys are those of the scan codes. -/
def translateScanCodeToLinuxKeyCode (scanCodeBase : UInt8) : Option UInt16 :=
  if 0x01 ≤ scanCodeBase ∧ scanCodeBase ≤ 0x53 ∨ scanCodeBase = 0x57 ∨ scanCodeBase = 0x58 then
    some scanCodeBase.toUInt16
  else none

/-- `TranslateExtendedScanCodeToLinuxKeyCode`. -/
def translateExtendedScanCodeToLinuxKeyCode (scanCodeBase : UInt8) : Option UInt16 :=
  List.lookup scanCodeBase
    [(0x1C, 96), (0x1D, 97), (0x35, 98), (0x38, 100), (0x47, 102), (0x48, 103), (0x49, 104),
      (0x4B, 105), (0x4D, 106), (0x4F, 107), (0x50, 108), (0x51, 109), (0x52, 110), (0x53, 111),
      (0x5B, 125), (0x5C, 126), (0x5D, 127)]

/-- `IsAlphabeticalCharacter`. -/
def isAlphabeticalCharacter (character : UInt8) : Bool :=
  (97 ≤ character ∧ character ≤ 122) ∨ (65 ≤ character ∧ character ≤ 90)

/-- `ToggleCharacterCase`. -/
def toggleCharacterCase (character : UInt8) : UInt8 :=
  if 97 ≤ character ∧ character ≤ 122 then character - 32
  else if 65 ≤ character ∧ character ≤ 90 then character + 32
  else character

/-- `KeyboardMapUnshifted`, whose other entries are zero. -/
def keyboardMapUnshifted : List UInt8 :=
  [0, 27, 49, 50, 51, 52, 53, 54, 55, 56, 57, 48, 45, 61, 8, 9, 113, 119, 101, 114, 116, 121,
   117, 105, 111, 112, 91, 93, 10, 0, 97, 115, 100, 102, 103, 104, 106, 107, 108, 59, 39, 96, 0,
   92, 122, 120, 99, 118, 98, 110, 109, 44, 46, 47, 0, 42, 0, 32]

/-- `KeyboardMapShifted`, whose other entries are zero. -/
def keyboardMapShifted : List UInt8 :=
  [0, 27, 33, 64, 35, 36, 37, 94, 38, 42, 40, 41, 95, 43, 8, 9, 81, 87, 69, 82, 84, 89, 85, 73,
   79, 80, 123, 125, 10, 0, 65, 83, 68, 70, 71, 72, 74, 75, 76, 58, 34, 126, 0, 124, 90, 88, 67,
   86, 66, 78, 77, 60, 62, 63, 0, 42, 0, 32]

/-- The `EscapeSequence` of an extended key, or nothing. -/
def escapeSequence (scanCodeBase : UInt8) : List UInt8 :=
  match scanCodeBase with
  | 0x48 => [27, 91, 65]
  | 0x50 => [27, 91, 66]
  | 0x4D => [27, 91, 67]
  | 0x4B => [27, 91, 68]
  | 0x47 => [27, 91, 72]
  | 0x4F => [27, 91, 70]
  | 0x52 => [27, 91, 50, 126]
  | 0x53 => [27, 91, 51, 126]
  | 0x49 => [27, 91, 53, 126]
  | 0x51 => [27, 91, 54, 126]
  | _ => []

/-- What an interrupt of the keyboard finds: a terminal, an event device with a handler, and whether
the device is grabbed. -/
structure KeyboardContext where
  hasTerminal : Bool
  hasDevice : Bool
  isGrabbed : Bool
  deriving DecidableEq, Repr

/-- The flags of `Keyboard`. -/
structure Keyboard where
  leftShiftPressed : Bool
  rightShiftPressed : Bool
  capsLockEnabled : Bool
  ctrlPressed : Bool
  altPressed : Bool
  extendedScanCodeE0 : Bool
  deriving DecidableEq, Repr

/-- What an interrupt leaves: the keyboard, the events that were queued, and the bytes that were
pushed to the terminal. -/
structure KeyboardOutcome where
  keyboard : Keyboard
  events : List LinuxInputEvent
  input : List UInt8
  deriving DecidableEq, Repr

namespace Keyboard

variable (keyboard : Keyboard) (context : KeyboardContext) (scanCode : UInt8)

/-- The flags after `Initialize`. -/
def initial : Keyboard := ⟨false, false, false, false, false, false⟩

/-- `HandleEventInterrupt`. -/
def handleEventInterrupt (isExtended : Bool) : List LinuxInputEvent :=
  let scanCodeBase := scanCode &&& 0x7F
  let linuxKeyCode :=
    if isExtended then translateExtendedScanCodeToLinuxKeyCode scanCodeBase
    else translateScanCodeToLinuxKeyCode scanCodeBase
  match linuxKeyCode with
  | none => []
  | some code =>
    let keyValue := if scanCode &&& 0x80 ≠ 0 then 0 else 1
    [.ofCall linuxEvMsc linuxMscScan (Int32.ofNat scanCodeBase.toNat), .ofCall linuxEvKey code keyValue,
      .ofCall linuxEvSyn linuxSynReport 0]

/-- The character of a press, as the flags have it. -/
def character : UInt8 :=
  let shiftPressed := keyboard.leftShiftPressed || keyboard.rightShiftPressed
  let map := if shiftPressed then keyboardMapShifted else keyboardMapUnshifted
  let character := map.getD scanCode.toNat 0
  if keyboard.capsLockEnabled ∧ isAlphabeticalCharacter character then toggleCharacterCase character
  else character

/-- A character while a Ctrl key is held. -/
def controlCharacter (character : UInt8) : UInt8 :=
  if 97 ≤ character ∧ character ≤ 122 then character - 97 + 1
  else if 65 ≤ character ∧ character ≤ 90 then character - 65 + 1
  else character

/-- A byte behind E0. -/
def handleExtended : Keyboard × List UInt8 :=
  let isRelease := scanCode &&& 0x80 ≠ 0
  let scanCodeBase := scanCode &&& 0x7F
  if scanCodeBase = 0x1D then ({ keyboard with ctrlPressed := !isRelease }, [])
  else if scanCodeBase = 0x38 then ({ keyboard with altPressed := !isRelease }, [])
  else if isRelease ∨ context.hasTerminal = false ∨ context.isGrabbed then (keyboard, [])
  else (keyboard, escapeSequence scanCodeBase)

/-- Any other byte. -/
def handlePlain : Keyboard × List UInt8 :=
  let isRelease := scanCode &&& 0x80 ≠ 0
  let scanCodeBase := scanCode &&& 0x7F
  if scanCode = 0x2A then ({ keyboard with leftShiftPressed := true }, [])
  else if scanCode = 0x36 then ({ keyboard with rightShiftPressed := true }, [])
  else if scanCode = 0xAA then ({ keyboard with leftShiftPressed := false }, [])
  else if scanCode = 0xB6 then ({ keyboard with rightShiftPressed := false }, [])
  else if scanCode = 0x3A then ({ keyboard with capsLockEnabled := !keyboard.capsLockEnabled }, [])
  else if scanCodeBase = 0x1D then ({ keyboard with ctrlPressed := !isRelease }, [])
  else if scanCodeBase = 0x38 then ({ keyboard with altPressed := !isRelease }, [])
  else if isRelease then (keyboard, [])
  else if 128 ≤ scanCode then (keyboard, [])
  else
    let character := keyboard.character scanCode
    if character = 0 ∨ context.hasTerminal = false ∨ context.isGrabbed then (keyboard, [])
    else (keyboard, [if keyboard.ctrlPressed then controlCharacter character else character])

/-- `HandleInterrupt`, behind the read of the data port. -/
def handleInterrupt : KeyboardOutcome :=
  if scanCode = 0xE0 then ⟨{ keyboard with extendedScanCodeE0 := true }, [], []⟩
  else
    let isExtended := keyboard.extendedScanCodeE0
    let keyboard := { keyboard with extendedScanCodeE0 := false }
    let events := if context.hasDevice then handleEventInterrupt scanCode isExtended else []
    let handled :=
      if isExtended then keyboard.handleExtended context scanCode
      else keyboard.handlePlain context scanCode
    ⟨handled.1, events, handled.2⟩

/-! ### The flags behind a byte -/

variable {keyboard context scanCode}

/-- A statement about bytes holds when it holds of 256 numbers. -/
theorem forall_byte {p : UInt8 → Prop} (h : ∀ n : Fin 256, p (UInt8.ofNat n)) (byte : UInt8) :
    p byte := by
  have hbyte := h ⟨byte.toNat, byte.toNat_lt⟩
  rwa [UInt8.ofNat_toNat] at hbyte

theorem base_or_high (byte : UInt8) : (byte &&& 0x7F) ||| (byte &&& 0x80) = byte :=
  forall_byte (p := fun b => (b &&& 0x7F) ||| (b &&& 0x80) = b) (by decide +kernel) byte

theorem high_cases (byte : UInt8) : byte &&& 0x80 = 0 ∨ byte &&& 0x80 = 0x80 :=
  forall_byte (p := fun b => b &&& 0x80 = 0 ∨ b &&& 0x80 = 0x80) (by decide +kernel) byte

theorem base_of_lt {byte : UInt8} (h : byte < 0x80) :
    byte &&& 0x7F = byte ∧ byte &&& 0x80 = 0 ∧
      (byte ||| 0x80) &&& 0x7F = byte ∧ (byte ||| 0x80) &&& 0x80 = 0x80 :=
  forall_byte (p := fun b => b < 0x80 → b &&& 0x7F = b ∧ b &&& 0x80 = 0 ∧
    (b ||| 0x80) &&& 0x7F = b ∧ (b ||| 0x80) &&& 0x80 = 0x80) (by decide +kernel) byte h

/-- A byte is its high bit and the others. -/
theorem eq_iff_parts (a b : UInt8) : a = b ↔ a &&& 0x7F = b &&& 0x7F ∧ a &&& 0x80 = b &&& 0x80 := by
  refine ⟨fun h => ⟨h ▸ rfl, h ▸ rfl⟩, fun ⟨hbase, hhigh⟩ => ?_⟩
  rw [← base_or_high a, hbase, hhigh, base_or_high b]

/-- The flags behind a byte: the bytes of either key write the flags of Ctrl and Alt. -/
def behind (keyboard : Keyboard) (scanCode : UInt8) : Keyboard :=
  let isRelease := scanCode &&& 0x80 ≠ 0
  let scanCodeBase := scanCode &&& 0x7F
  let isPlain := keyboard.extendedScanCodeE0 = false
  { leftShiftPressed :=
      if isPlain ∧ scanCodeBase = 0x2A then !isRelease else keyboard.leftShiftPressed
    rightShiftPressed :=
      if isPlain ∧ scanCodeBase = 0x36 then !isRelease else keyboard.rightShiftPressed
    capsLockEnabled :=
      if isPlain ∧ scanCode = 0x3A then !keyboard.capsLockEnabled else keyboard.capsLockEnabled
    ctrlPressed := if scanCodeBase = 0x1D then !isRelease else keyboard.ctrlPressed
    altPressed := if scanCodeBase = 0x38 then !isRelease else keyboard.altPressed
    extendedScanCodeE0 := scanCode = 0xE0 }

/-- The byte that begins an extended code is that of no key whose flag is kept. -/
theorem behind_escapeCode : keyboard.behind 0xE0 = { keyboard with extendedScanCodeE0 := true } := by
  have hbase : (0xE0 : UInt8) &&& 0x7F = 0x60 := rfl
  simp [behind, hbase]

theorem handleExtended_fst (hextended : keyboard.extendedScanCodeE0 = true) (hne : scanCode ≠ 0xE0) :
    ({ keyboard with extendedScanCodeE0 := false }.handleExtended context scanCode).1 =
      keyboard.behind scanCode := by
  rw [handleExtended, behind]
  split_ifs <;> simp_all

theorem handlePlain_fst (hplain : keyboard.extendedScanCodeE0 = false) (hne : scanCode ≠ 0xE0) :
    ({ keyboard with extendedScanCodeE0 := false }.handlePlain context scanCode).1 =
      keyboard.behind scanCode := by
  have hleftPress : scanCode = 0x2A ↔ scanCode &&& 0x7F = 0x2A ∧ scanCode &&& 0x80 = 0 :=
    eq_iff_parts scanCode 0x2A
  have hrightPress : scanCode = 0x36 ↔ scanCode &&& 0x7F = 0x36 ∧ scanCode &&& 0x80 = 0 :=
    eq_iff_parts scanCode 0x36
  have hleftRelease : scanCode = 0xAA ↔ scanCode &&& 0x7F = 0x2A ∧ scanCode &&& 0x80 = 0x80 :=
    eq_iff_parts scanCode 0xAA
  have hrightRelease : scanCode = 0xB6 ↔ scanCode &&& 0x7F = 0x36 ∧ scanCode &&& 0x80 = 0x80 :=
    eq_iff_parts scanCode 0xB6
  have hcaps : scanCode = 0x3A ↔ scanCode &&& 0x7F = 0x3A ∧ scanCode &&& 0x80 = 0 :=
    eq_iff_parts scanCode 0x3A
  simp only [handlePlain, behind, hleftPress, hrightPress, hleftRelease, hrightRelease, hcaps, hplain,
    decide_eq_false hne, true_and, apply_ite Prod.fst, ite_self]
  generalize scanCode &&& 0x7F = base
  rcases high_cases scanCode with hhigh | hhigh
  all_goals
    simp only [hhigh]
    split_ifs <;> simp_all

/-- An interrupt leaves the flags so, whatever it finds. -/
theorem keyboard_handleInterrupt :
    (keyboard.handleInterrupt context scanCode).keyboard = keyboard.behind scanCode := by
  by_cases hescape : scanCode = 0xE0
  · rw [handleInterrupt, if_pos hescape, hescape, behind_escapeCode]
  · rw [handleInterrupt, if_neg hescape]
    cases hextended : keyboard.extendedScanCodeE0 with
    | true => exact handleExtended_fst hextended hescape
    | false => exact handlePlain_fst hextended hescape

end Keyboard

/-! ### The keys that are held -/

section Held

variable {key key' : Key} {release : Bool} {codes : List KeyCode}

theorem isHeld_stroke : isHeld key (codes ++ [.stroke key' release]) =
    if key' = key then !release else isHeld key codes := by
  rw [isHeld, List.foldl_append]
  rfl

theorem isHeld_pause : isHeld key (codes ++ [.pause]) = isHeld key codes := by
  rw [isHeld, List.foldl_append]
  rfl

theorem KeyCode.bytes_ne_nil (code : KeyCode) : code.bytes ≠ [] := by
  cases code <;> simp [KeyCode.bytes]

theorem Key.scanCode_base (key : Key) (release : Bool) :
    key.scanCode release &&& 0x7F = key.scanCodeBase := by
  obtain ⟨hpress, -, hrelease, -⟩ := Keyboard.base_of_lt key.base_lt
  cases release
  · exact hpress
  · exact hrelease

theorem Key.scanCode_high (key : Key) (release : Bool) :
    (key.scanCode release &&& 0x80 = 0) = (release = false) := by
  obtain ⟨-, hpress, -, hrelease⟩ := Keyboard.base_of_lt key.base_lt
  cases release
  · simp [Key.scanCode, hpress]
  · simp [Key.scanCode, hrelease]

theorem Key.scanCode_ne (key : Key) (release : Bool) : key.scanCode release ≠ 0xE0 := by
  intro h
  have hbase := key.scanCode_base release
  rw [h] at hbase
  exact key.base_ne.1 hbase.symm

end Held

namespace Keyboard

/-- The flags are on when one of the keys of their name is held. -/
structure Agrees (keyboard : Keyboard) (codes : List KeyCode) : Prop where
  ctrl : keyboard.ctrlPressed = (isHeld .leftCtrl codes || isHeld .rightCtrl codes)
  alt : keyboard.altPressed = (isHeld .leftAlt codes || isHeld .rightAlt codes)
  shift : (keyboard.leftShiftPressed || keyboard.rightShiftPressed) =
    (isHeld .leftShift codes || isHeld .rightShift codes)

end Keyboard

/-- The next byte of a code is no release of a Ctrl or Alt key while its twin is held, and none of
the two bytes of Pause that are those of a Ctrl key, while no Ctrl key, or one, is held. -/
def KeyCode.SafeAt (codes : List KeyCode) : KeyCode → ℕ → Prop
  | .stroke key release, place =>
    place + 1 = (KeyCode.stroke key release).bytes.length → release = true →
      key.scanCodeBase = 0x1D ∨ key.scanCodeBase = 0x38 → isHeld key.twin codes = false
  | .pause, 1 => (isHeld .leftCtrl codes || isHeld .rightCtrl codes) = true
  | .pause, 4 => (isHeld .leftCtrl codes || isHeld .rightCtrl codes) = false
  | .pause, _ => True

/-- The byte before a place of a code is the E0 of an extended one. -/
def KeyCode.extendedAt : KeyCode → ℕ → Bool
  | .stroke key _, place => key.isExtended && place = 1
  | .pause, _ => false

section Stroke

variable {key first second : Key} {release : Bool} {codes : List KeyCode} {keyboard : Keyboard}

theorem Key.eq_iff : key = first ↔
    key.isExtended = first.isExtended ∧ key.scanCodeBase = first.scanCodeBase := by
  rw [Key.mk.injEq]

theorem Key.ne_twin (key : Key) : key ≠ key.twin := fun h => by
  have hextended := (Key.eq_iff.mp h).1
  simp [Key.twin] at hextended

theorem Key.twin_twin (key : Key) : key.twin.twin = key := by
  simp [Key.twin]

theorem Keyboard.behind_scanCode : keyboard.behind (key.scanCode release) =
    { leftShiftPressed :=
        if keyboard.extendedScanCodeE0 = false ∧ key.scanCodeBase = 0x2A then !release
        else keyboard.leftShiftPressed
      rightShiftPressed :=
        if keyboard.extendedScanCodeE0 = false ∧ key.scanCodeBase = 0x36 then !release
        else keyboard.rightShiftPressed
      capsLockEnabled :=
        if keyboard.extendedScanCodeE0 = false ∧ key.scanCode release = 0x3A then
          !keyboard.capsLockEnabled
        else keyboard.capsLockEnabled
      ctrlPressed := if key.scanCodeBase = 0x1D then !release else keyboard.ctrlPressed
      altPressed := if key.scanCodeBase = 0x38 then !release else keyboard.altPressed
      extendedScanCodeE0 := false } := by
  have hrelease : (!decide (key.scanCode release &&& 0x80 ≠ 0)) = !release := by
    have hhigh := key.scanCode_high release
    cases release <;> simp_all
  simp only [Keyboard.behind, key.scanCode_base, hrelease, decide_eq_false (key.scanCode_ne release)]

/-- One flag for two keys is right behind a code of a key exactly when the code does not release one
of them while the other is held. -/
theorem flag_eq_iff (htwin : second = first.twin) :
    (if key.scanCodeBase = first.scanCodeBase then !release
      else (isHeld first codes || isHeld second codes)) =
      (isHeld first (codes ++ [.stroke key release]) ||
        isHeld second (codes ++ [.stroke key release])) ↔
    (release = true → key.scanCodeBase = first.scanCodeBase → isHeld key.twin codes = false) := by
  rw [isHeld_stroke, isHeld_stroke, htwin]
  by_cases hbase : key.scanCodeBase = first.scanCodeBase
  · rw [if_pos hbase]
    by_cases hextended : key.isExtended = first.isExtended
    · obtain rfl : key = first := Key.eq_iff.mpr ⟨hextended, hbase⟩
      rw [if_pos rfl, if_neg key.ne_twin]
      cases release <;> simp
    · obtain rfl : key = first.twin :=
        Key.eq_iff.mpr ⟨Bool.eq_not.mpr hextended, hbase⟩
      rw [if_neg first.ne_twin.symm, if_pos rfl, Key.twin_twin]
      cases release <;> simp [hbase]
  · have hfirst : key ≠ first := fun h => hbase (h ▸ rfl)
    have hsecond : key ≠ first.twin := fun h => hbase (h ▸ rfl)
    simp [hbase, hfirst, hsecond]

end Stroke

namespace Keyboard

open CodeStream

variable {keyboard : Keyboard} {context : KeyboardContext} {codes : List KeyCode} {code : KeyCode}
  {scanCode : UInt8} {n : ℕ}

/-- The keyboard has decoded the first bytes of a stream of codes. -/
structure Follows (keyboard : Keyboard) (codes : List KeyCode) (n : ℕ) : Prop where
  extended : ∀ code, next? KeyCode.bytes codes n = some code →
    keyboard.extendedScanCodeE0 = code.extendedAt (place KeyCode.bytes codes n)
  leftShift : keyboard.leftShiftPressed = isHeld .leftShift (complete KeyCode.bytes codes n)
  rightShift : keyboard.rightShiftPressed = isHeld .rightShift (complete KeyCode.bytes codes n)

theorem initial_follows : initial.Follows codes 0 where
  extended code _ := by
    rw [place_zero]
    cases code <;> simp [KeyCode.extendedAt, initial]
  leftShift := by rw [complete_zero KeyCode.bytes_ne_nil]; rfl
  rightShift := by rw [complete_zero KeyCode.bytes_ne_nil]; rfl

theorem initial_agrees : initial.Agrees [] := ⟨rfl, rfl, rfl⟩

/-- The last byte of a code of a key. -/
theorem Follows.stroke (h : keyboard.Follows codes n)
    (hagrees : keyboard.Agrees (complete KeyCode.bytes codes n)) {key : Key} {release : Bool}
    (hextended : keyboard.extendedScanCodeE0 = key.isExtended)
    (hcomplete : complete KeyCode.bytes codes (n + 1) =
      complete KeyCode.bytes codes n ++ [.stroke key release])
    (hplace : place KeyCode.bytes codes (n + 1) = 0) :
    (keyboard.behind (key.scanCode release)).Follows codes (n + 1) ∧
      ((keyboard.behind (key.scanCode release)).Agrees (complete KeyCode.bytes codes (n + 1)) ↔
        (release = true → key.scanCodeBase = 0x1D ∨ key.scanCodeBase = 0x38 →
          isHeld key.twin (complete KeyCode.bytes codes n) = false)) := by
  have hleftKey : key = .leftShift ↔ key.isExtended = false ∧ key.scanCodeBase = 0x2A := Key.eq_iff
  have hrightKey : key = .rightShift ↔ key.isExtended = false ∧ key.scanCodeBase = 0x36 := Key.eq_iff
  have hleft : (keyboard.behind (key.scanCode release)).leftShiftPressed =
      isHeld .leftShift (complete KeyCode.bytes codes (n + 1)) := by
    rw [behind_scanCode, hcomplete, isHeld_stroke, ← h.leftShift]
    simp only [hextended, hleftKey]
  have hright : (keyboard.behind (key.scanCode release)).rightShiftPressed =
      isHeld .rightShift (complete KeyCode.bytes codes (n + 1)) := by
    rw [behind_scanCode, hcomplete, isHeld_stroke, ← h.rightShift]
    simp only [hextended, hrightKey]
  have hctrl : (keyboard.behind (key.scanCode release)).ctrlPressed =
      if key.scanCodeBase = Key.leftCtrl.scanCodeBase then !release
      else (isHeld .leftCtrl (complete KeyCode.bytes codes n) ||
        isHeld .rightCtrl (complete KeyCode.bytes codes n)) := by
    rw [behind_scanCode, ← hagrees.ctrl]
    rfl
  have halt : (keyboard.behind (key.scanCode release)).altPressed =
      if key.scanCodeBase = Key.leftAlt.scanCodeBase then !release
      else (isHeld .leftAlt (complete KeyCode.bytes codes n) ||
        isHeld .rightAlt (complete KeyCode.bytes codes n)) := by
    rw [behind_scanCode, ← hagrees.alt]
    rfl
  refine ⟨⟨fun code _ => ?_, hleft, hright⟩, fun hnew hrelease hbase => ?_, fun hsafe => ⟨?_, ?_, ?_⟩⟩
  · rw [hplace, behind_scanCode]
    cases code <;> simp [KeyCode.extendedAt]
  · rcases hbase with hbase | hbase
    · have hflag := hnew.ctrl
      rw [hctrl, hcomplete] at hflag
      exact (flag_eq_iff rfl).mp hflag hrelease hbase
    · have hflag := hnew.alt
      rw [halt, hcomplete] at hflag
      exact (flag_eq_iff rfl).mp hflag hrelease hbase
  · rw [hctrl, hcomplete]
    exact (flag_eq_iff rfl).mpr fun hrelease hbase => hsafe hrelease (.inl hbase)
  · rw [halt, hcomplete]
    exact (flag_eq_iff rfl).mpr fun hrelease hbase => hsafe hrelease (.inr hbase)
  · rw [hleft, hright]

/-- A byte that writes no flag, inside a code. -/
theorem Follows.inside (h : keyboard.Follows codes n)
    (hnext : IsNext KeyCode.bytes codes n code scanCode)
    (hcomplete : complete KeyCode.bytes codes (n + 1) = complete KeyCode.bytes codes n)
    (hbehind : (keyboard.behind scanCode).extendedScanCodeE0 =
      code.extendedAt (place KeyCode.bytes codes (n + 1)))
    (hleft : (keyboard.behind scanCode).leftShiftPressed = keyboard.leftShiftPressed)
    (hright : (keyboard.behind scanCode).rightShiftPressed = keyboard.rightShiftPressed) :
    (keyboard.behind scanCode).Follows codes (n + 1) where
  extended code' hcode' := by
    rw [next?, hcomplete] at hcode'
    obtain rfl := Option.some.inj (hnext.next?_eq.symm.trans hcode')
    exact hbehind
  leftShift := by rw [hleft, hcomplete, h.leftShift]
  rightShift := by rw [hright, hcomplete, h.rightShift]

/-- The flags that matter do not depend on the byte E0. -/
theorem Agrees.of_extended {done : List KeyCode} {extended : Bool} :
    { keyboard with extendedScanCodeE0 := extended }.Agrees done ↔ keyboard.Agrees done :=
  ⟨fun ⟨hctrl, halt, hshift⟩ => ⟨hctrl, halt, hshift⟩,
    fun ⟨hctrl, halt, hshift⟩ => ⟨hctrl, halt, hshift⟩⟩

/-- The bytes of Pause write no flag, but for the two that are those of a Ctrl key. -/
theorem behind_pause (h : scanCode ∈ KeyCode.pause.bytes) :
    keyboard.behind scanCode =
      { keyboard with
        ctrlPressed :=
          if scanCode = 0x1D then true else if scanCode = 0x9D then false else keyboard.ctrlPressed
        extendedScanCodeE0 := false } := by
  have hmark : (0xE1 : UInt8) &&& 0x7F = 0x61 := rfl
  have hrelease : (0x9D : UInt8) &&& 0x7F = 0x1D ∧ (0x9D : UInt8) &&& 0x80 = 0x80 := ⟨rfl, rfl⟩
  have hpress : (0x1D : UInt8) &&& 0x7F = 0x1D ∧ (0x1D : UInt8) &&& 0x80 = 0 := ⟨rfl, rfl⟩
  have hlock : (0x45 : UInt8) &&& 0x7F = 0x45 ∧ (0xC5 : UInt8) &&& 0x7F = 0x45 := ⟨rfl, rfl⟩
  simp only [KeyCode.bytes, List.mem_cons, List.not_mem_nil, or_false] at h
  rcases h with rfl | rfl | rfl | rfl | rfl | rfl <;> simp [behind, hmark, hrelease, hpress, hlock]

section

variable (h : keyboard.Follows codes n) (hagrees : keyboard.Agrees (complete KeyCode.bytes codes n))

include h hagrees

theorem Follows.pause (hnext : IsNext KeyCode.bytes codes n .pause scanCode) :
    (keyboard.behind scanCode).Follows codes (n + 1) ∧
      ((keyboard.behind scanCode).Agrees (complete KeyCode.bytes codes (n + 1)) ↔
        KeyCode.pause.SafeAt (complete KeyCode.bytes codes n) (place KeyCode.bytes codes n)) := by
  have hsymbol := hnext.symbol_eq
  obtain ⟨hplace, -⟩ := List.getElem?_eq_some_iff.mp hsymbol
  -- Pause is no key that is held, so its end changes nothing either.
  have hheld : ∀ key, isHeld key (complete KeyCode.bytes codes (n + 1)) =
      isHeld key (complete KeyCode.bytes codes n) := fun key => by
    rcases Nat.lt_or_eq_of_le (Nat.succ_le_of_lt hplace) with hlt | heq
    · rw [(hnext.inside hlt).1]
    · rw [(hnext.last heq).1, isHeld_pause]
  have hextended : ∀ code, next? KeyCode.bytes codes (n + 1) = some code →
      code.extendedAt (place KeyCode.bytes codes (n + 1)) = false := fun code hcode => by
    rcases Nat.lt_or_eq_of_le (Nat.succ_le_of_lt hplace) with hlt | heq
    · rw [next?, (hnext.inside hlt).1] at hcode
      obtain rfl := Option.some.inj (hnext.next?_eq.symm.trans hcode)
      rfl
    · rw [(hnext.last heq).2]
      cases code <;> simp [KeyCode.extendedAt]
  rw [behind_pause (List.mem_of_getElem? hsymbol)]
  refine ⟨⟨fun code hcode => (hextended code hcode).symm, ?_, ?_⟩, ?_⟩
  · rw [hheld, ← h.leftShift]
  · rw [hheld, ← h.rightShift]
  obtain ⟨hctrl, halt, hshift⟩ := hagrees
  have hflag : (if scanCode = 0x1D then true else if scanCode = 0x9D then false
      else keyboard.ctrlPressed) = (isHeld .leftCtrl (complete KeyCode.bytes codes n) ||
        isHeld .rightCtrl (complete KeyCode.bytes codes n)) ↔
      KeyCode.pause.SafeAt (complete KeyCode.bytes codes n) (place KeyCode.bytes codes n) := by
    rw [← hctrl]
    obtain hp | hp | hp | hp | hp | hp : place KeyCode.bytes codes n = 0 ∨
        place KeyCode.bytes codes n = 1 ∨ place KeyCode.bytes codes n = 2 ∨
        place KeyCode.bytes codes n = 3 ∨ place KeyCode.bytes codes n = 4 ∨
        place KeyCode.bytes codes n = 5 := by
      have hlength : KeyCode.pause.bytes.length = 6 := rfl
      omega
    all_goals
      rw [hp] at hsymbol ⊢
      obtain rfl := Option.some.inj hsymbol
      simp [KeyCode.SafeAt, hctrl]
  refine Iff.trans ⟨fun hnew => ?_, fun hc => ⟨?_, ?_, ?_⟩⟩ hflag
  · have hc := hnew.ctrl
    rwa [hheld, hheld] at hc
  · rwa [hheld, hheld]
  · rw [hheld, hheld, ← halt]
  · rw [hheld, hheld, ← hshift]

/-- A byte keeps the flags right exactly when it is safe at its place. -/
theorem Follows.step (hnext : IsNext KeyCode.bytes codes n code scanCode) :
    (keyboard.behind scanCode).Follows codes (n + 1) ∧
      ((keyboard.behind scanCode).Agrees (complete KeyCode.bytes codes (n + 1)) ↔
        code.SafeAt (complete KeyCode.bytes codes n) (place KeyCode.bytes codes n)) := by
  cases code with
  | pause => exact h.pause hagrees hnext
  | stroke key release =>
    have hextended := h.extended _ hnext.next?_eq
    have hsymbol := hnext.symbol_eq
    have hinside := hnext.inside
    have hlast := hnext.last
    rw [KeyCode.extendedAt] at hextended
    cases hkey : key.isExtended with
    | false =>
      have hbytes : (KeyCode.stroke key release).bytes = [key.scanCode release] := by
        simp [KeyCode.bytes, hkey]
      rw [hbytes] at hsymbol hlast
      obtain ⟨hplace, hscan⟩ := List.getElem?_eq_some_iff.mp hsymbol
      obtain ⟨hcomplete, hnew⟩ := hlast (by simpa using hplace)
      simp only [List.getElem_singleton] at hscan
      subst hscan
      have hstroke := h.stroke hagrees (by rw [hextended, hkey]; rfl) hcomplete hnew
      refine ⟨hstroke.1, hstroke.2.trans ?_⟩
      rw [KeyCode.SafeAt, hbytes]
      simp [Nat.lt_one_iff.mp hplace]
    | true =>
      have hbytes : (KeyCode.stroke key release).bytes = [0xE0, key.scanCode release] := by
        simp [KeyCode.bytes, hkey]
      rw [hbytes] at hsymbol hinside hlast
      obtain ⟨hplace, -⟩ := List.getElem?_eq_some_iff.mp hsymbol
      obtain hp | hp : place KeyCode.bytes codes n = 0 ∨ place KeyCode.bytes codes n = 1 := by
        simp only [List.length_cons, List.length_nil] at hplace
        omega
      · rw [hp] at hsymbol hinside
        obtain rfl := Option.some.inj hsymbol
        obtain ⟨hcomplete, hnew⟩ := hinside (by simp)
        rw [behind_escapeCode]
        refine ⟨?_, iff_of_true (Agrees.of_extended.mpr (hcomplete ▸ hagrees)) ?_⟩
        · rw [← behind_escapeCode]
          refine h.inside hnext hcomplete ?_ ?_ ?_
          · rw [behind_escapeCode, hnew]
            simp [KeyCode.extendedAt, hkey]
          · rw [behind_escapeCode]
          · rw [behind_escapeCode]
        · rw [KeyCode.SafeAt, hbytes, hp]
          simp
      · rw [hp] at hsymbol hextended hlast
        obtain rfl := Option.some.inj hsymbol
        obtain ⟨hcomplete, hnew⟩ := hlast rfl
        have hstroke := h.stroke hagrees (by rw [hextended, hkey]; rfl) hcomplete hnew
        refine ⟨hstroke.1, hstroke.2.trans ?_⟩
        rw [KeyCode.SafeAt, hbytes, hp]
        simp

end

end Keyboard

end TwistedOS
