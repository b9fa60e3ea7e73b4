import Mathlib.Data.List.Range
import TwistedOS.KernelParameters

/-!
# The terminal

`TTY.cpp` writes characters to a framebuffer, 8 by 16 pixels each, at a cursor that wraps at the end
of a row; the screen is cleared when the cursor would leave it at the bottom. An escape sequence
moves the cursor, erases a part of the screen or sets the colours.

A function that draws returns what it draws as a list of commands, in order. What these do to the
pixels is `Tty.FrameBuffer.render`.

## Main definitions

* `Tty.FrameBuffer`, `LinuxTermios`, `Tty`.
* `ScreenCommand`, with `Tty.FrameBuffer.render`.
* `Tty.putChar`, `Tty.handleOutputChar`, `Tty.writeChars`.
-/

namespace TwistedOS

open Function

/-- `FONT_WIDTH`. -/
def fontWidth : ℕ := 8

/-- `FONT_HEIGHT`. -/
def fontHeight : ℕ := 16

/-- `KEYBOARD_BUFFER_CAPACITY`. -/
def keyboardBufferCapacity : ℕ := 1024

/-- `LINUX_ERR_ENODEV`. -/
def errEnodev : ℤ := -19

/-- `LINUX_TERMIOS_ICANON`. -/
def termiosIcanon : BitVec 32 := 0x2

/-- `LINUX_TERMIOS_ECHO`. -/
def termiosEcho : BitVec 32 := 0x8

/-- `LINUX_TERMIOS_DEFAULT`. -/
def termiosDefault : BitVec 32 := 0x1 ||| termiosIcanon ||| termiosEcho

/-- `LINUX_CC_VERASE`. -/
def ccVerase : ℕ := 2

/-- `LINUX_CC_VTIME`. -/
def ccVtime : ℕ := 5

/-- `LINUX_CC_VMIN`. -/
def ccVmin : ℕ := 6

/-- The geometry of a framebuffer. -/
structure Tty.FrameBuffer where
  bufferSizeBytes : ℕ
  width : ℕ
  height : ℕ
  pixelsPerScanLine : ℕ
  valid : Bool
  deriving DecidableEq, Repr

/-- The fields of `LinuxTermios` that the terminal acts on. -/
structure LinuxTermios where
  localFlags : BitVec 32
  controlCharacters : ℕ → UInt8

/-- `AnsiParseState`. -/
inductive AnsiParseState where
  | normal
  | escape
  | csi
  deriving DecidableEq, Repr

/-- The state of a terminal. The parameters of an escape sequence are those read so far. -/
structure Tty where
  frameBufferDevice : Tty.FrameBuffer
  cursorX : ℕ
  cursorY : ℕ
  textColor : ℕ
  backgroundColor : ℕ
  keyboardBuffer : ℕ → UInt8
  bufferHead : ℕ
  bufferTail : ℕ
  bufferedBytes : ℕ
  committedBytes : ℕ
  termios : LinuxTermios
  outputAnsiState : AnsiParseState
  outputAnsiParams : List ℕ
  outputAnsiCurrentValue : ℕ
  outputAnsiReadingValue : Bool

/-- The control characters of a new terminal. -/
def defaultControlCharacters (index : ℕ) : UInt8 :=
  if index = 0 then 3
  else if index = ccVerase then 127
  else if index = 4 then 4
  else if index = ccVmin then 1
  else 0

/-- The constructor of `TTY`. -/
def Tty.new (frameBuffer : FrameBuffer) (initialCursorX initialCursorY : ℕ) : Tty where
  frameBufferDevice := frameBuffer
  cursorX := initialCursorX
  cursorY := initialCursorY
  textColor := 0xFFFFFFFF
  backgroundColor := 0
  keyboardBuffer := fun _ => 0
  bufferHead := 0
  bufferTail := 0
  bufferedBytes := 0
  committedBytes := 0
  termios := ⟨termiosDefault, defaultControlCharacters⟩
  outputAnsiState := .normal
  outputAnsiParams := []
  outputAnsiCurrentValue := 0
  outputAnsiReadingValue := false

/-- A change of the input side of a terminal. -/
def Tty.withInput (tty : Tty) (keyboardBuffer : ℕ → UInt8)
    (bufferHead bufferTail bufferedBytes committedBytes : ℕ) (termios : LinuxTermios) : Tty :=
  { tty with
    keyboardBuffer := keyboardBuffer
    bufferHead := bufferHead
    bufferTail := bufferTail
    bufferedBytes := bufferedBytes
    committedBytes := committedBytes
    termios := termios }

/-! ### The screen -/

/-- What is drawn: a glyph with its upper left corner at a pixel, or the whole screen in one
colour. -/
inductive ScreenCommand where
  | glyph (x y : ℕ) (character : UInt8) (textColor backgroundColor : ℕ)
  | clear (color : ℕ)
  deriving DecidableEq, Repr

namespace Tty.FrameBuffer

variable (frameBuffer : Tty.FrameBuffer)

/-- `FrameBuffer::Draw`; the pixels are those of the buffer in memory. -/
def draw (pixels : ℕ → ℕ) (x y rgba : ℕ) : ℕ → ℕ :=
  if ¬ frameBuffer.valid then pixels
  else if frameBuffer.width ≤ x ∨ frameBuffer.height ≤ y then pixels
  else
    let pixelIndex := y * frameBuffer.pixelsPerScanLine + x
    if frameBuffer.bufferSizeBytes < pixelIndex * 4 + 4 then pixels
    else update pixels pixelIndex rgba

/-- Draws the pixels of a glyph row by row; `font` is the table of its rows. -/
def drawGlyph (font : ℕ → ℕ) (pixels : ℕ → ℕ) (x y : ℕ) (character : UInt8)
    (textColor backgroundColor : ℕ) : ℕ → ℕ :=
  (List.range fontHeight).foldl (fun pixels row =>
    (List.range fontWidth).foldl (fun pixels col =>
      frameBuffer.draw pixels (u32 (x + col)) (u32 (y + row))
        (if (font (character.toNat * fontHeight + row)).testBit (7 - col) then textColor
          else backgroundColor)) pixels) pixels

/-- Draws every pixel of the screen in one colour. -/
def drawClear (pixels : ℕ → ℕ) (color : ℕ) : ℕ → ℕ :=
  (List.range frameBuffer.height).foldl (fun pixels y =>
    (List.range frameBuffer.width).foldl (fun pixels x => frameBuffer.draw pixels x y color) pixels)
    pixels

/-- The pixels after a command. -/
def execute (font : ℕ → ℕ) (pixels : ℕ → ℕ) : ScreenCommand → ℕ → ℕ
  | .glyph x y character textColor backgroundColor =>
    frameBuffer.drawGlyph font pixels x y character textColor backgroundColor
  | .clear color => frameBuffer.drawClear pixels color

/-- The pixels after commands. -/
def render (font : ℕ → ℕ) (pixels : ℕ → ℕ) (commands : List ScreenCommand) : ℕ → ℕ :=
  commands.foldl (frameBuffer.execute font) pixels

end Tty.FrameBuffer

namespace Tty

variable (tty : Tty)

/-! ### Characters -/

/-- A change of the cursor. -/
def moveTo (x y : ℕ) : Tty := { tty with cursorX := x, cursorY := y }

/-- `ClearScreen`. -/
def clearScreen : Tty × List ScreenCommand :=
  if ¬ tty.frameBufferDevice.valid then (tty, [])
  else (tty.moveTo 0 0, [.clear tty.backgroundColor])

/-- `DrawChar`. -/
def drawChar (x y : ℕ) (character : UInt8) : List ScreenCommand :=
  if ¬ tty.frameBufferDevice.valid then []
  else [.glyph x y character tty.textColor tty.backgroundColor]

/-- Clears the screen when there is no row below that of the cursor. -/
def clearIfFull : Tty × List ScreenCommand :=
  if tty.frameBufferDevice.height ≤ u32 (tty.cursorY + fontHeight) then tty.clearScreen
  else (tty, [])

/-- The start of the next row. -/
def nextRow : Tty := tty.moveTo 0 (u32 (tty.cursorY + fontHeight))

/-- Draws a character at the cursor, in the next row when it does not fit. -/
def putGlyph (character : UInt8) : Tty × List ScreenCommand :=
  let tty := if tty.frameBufferDevice.width < u32 (tty.cursorX + fontWidth) then tty.nextRow else tty
  let glyph := tty.drawChar tty.cursorX tty.cursorY character
  let tty := tty.moveTo (u32 (tty.cursorX + fontWidth)) tty.cursorY
  let tty := if tty.frameBufferDevice.width ≤ tty.cursorX then tty.nextRow else tty
  (tty.clearIfFull.1, glyph ++ tty.clearIfFull.2)

/-- `PutChar`. -/
def putChar (character : UInt8) : Tty × List ScreenCommand :=
  if ¬ tty.frameBufferDevice.valid then (tty, [])
  else if character = 10 then tty.nextRow.clearIfFull
  else if character = 13 then (tty.moveTo 0 tty.cursorY, [])
  else if character = 8 then
    let tty :=
      if fontWidth ≤ tty.cursorX then tty.moveTo (tty.cursorX - fontWidth) tty.cursorY else tty
    (tty, tty.drawChar tty.cursorX tty.cursorY 32)
  else tty.putGlyph character

/-! ### Escape sequences -/

/-- A change of the state of the parser. -/
def parse (state : AnsiParseState) (params : List ℕ) (currentValue : ℕ) (readingValue : Bool) :
    Tty :=
  { tty with
    outputAnsiState := state
    outputAnsiParams := params
    outputAnsiCurrentValue := currentValue
    outputAnsiReadingValue := readingValue }

/-- `ResetAnsiParser`. -/
def resetAnsiParser : Tty := tty.parse .normal [] 0 false

/-- `TranslateAnsiColorCode`. -/
def translateAnsiColorCode (code : ℕ) (isBackground : Bool) : ℕ :=
  let other := if isBackground then 0x00000000 else 0xFFFFFFFF
  let palette := [0x00000000, 0x00AA0000, 0x0000AA00, 0x00AA5500, 0x000000AA, 0x00AA00AA,
    0x0000AAAA, 0x00AAAAAA, 0x00555555, 0x00FF5555, 0x0055FF55, 0x00FFFF55, 0x005555FF, 0x00FF55FF,
    0x0055FFFF, 0x00FFFFFF]
  if 30 ≤ code ∧ code ≤ 37 then palette.getD (code - 30) other
  else if 90 ≤ code ∧ code ≤ 97 then palette.getD (code - 90 + 8) other
  else if 40 ≤ code ∧ code ≤ 47 then palette.getD (code - 40) other
  else if 100 ≤ code ∧ code ≤ 107 then palette.getD (code - 100 + 8) other
  else other

/-- A change of the colours. -/
def withColors (textColor backgroundColor : ℕ) : Tty :=
  { tty with textColor := textColor, backgroundColor := backgroundColor }

/-- The colours after one parameter of the final byte `m`. -/
def selectColor (parameter : ℕ) : Tty :=
  if parameter = 0 then tty.withColors 0xFFFFFFFF 0x00000000
  else if parameter = 39 then tty.withColors 0xFFFFFFFF tty.backgroundColor
  else if parameter = 49 then tty.withColors tty.textColor 0x00000000
  else if (30 ≤ parameter ∧ parameter ≤ 37) ∨ (90 ≤ parameter ∧ parameter ≤ 97) then
    tty.withColors (translateAnsiColorCode parameter false) tty.backgroundColor
  else if (40 ≤ parameter ∧ parameter ≤ 47) ∨ (100 ≤ parameter ∧ parameter ≤ 107) then
    tty.withColors tty.textColor (translateAnsiColorCode parameter true)
  else tty

/-- The number of columns of characters. -/
def maxColumns : ℕ := tty.frameBufferDevice.width / fontWidth

/-- The number of rows of characters. -/
def maxRows : ℕ := tty.frameBufferDevice.height / fontHeight

/-- Draws blanks in the columns from `colStart` up to `colEnd` of a row. -/
def eraseCells (row colStart colEnd : ℕ) : List ScreenCommand :=
  (List.range' colStart (colEnd - colStart)).flatMap fun col =>
    tty.drawChar (col * fontWidth) (row * fontHeight) 32

/-- A coordinate of a cursor position that is given as a parameter from `1` on. -/
def cursorCell (parameter limit : ℕ) : ℕ :=
  let cell := if parameter = 0 then 1 else parameter
  if limit < cell then limit else cell

/-- The final bytes `H` and `f`: sets the cursor. -/
def setCursor : Tty :=
  tty.moveTo
    (u32 (u32 (cursorCell (tty.outputAnsiParams.getD 1 0) tty.maxColumns + (2 ^ 32 - 1)) *
      fontWidth))
    (u32 (u32 (cursorCell (tty.outputAnsiParams.getD 0 0) tty.maxRows + (2 ^ 32 - 1)) * fontHeight))

/-- The final byte `J`: erases the screen, or the part of it behind or up to the cursor. -/
def eraseScreen (mode : ℕ) : Tty × List ScreenCommand :=
  if mode = 2 then tty.clearScreen
  else if mode = 0 then
    let startRow := tty.cursorY / fontHeight
    let startCol := tty.cursorX / fontWidth
    (tty, (List.range' startRow (tty.maxRows - startRow)).flatMap fun row =>
      tty.eraseCells row (if row = startRow then startCol else 0) tty.maxColumns)
  else if mode = 1 then
    let endRow := tty.cursorY / fontHeight
    let endCol := tty.cursorX / fontWidth
    (tty, (List.range (min (endRow + 1) tty.maxRows)).flatMap fun row =>
      tty.eraseCells row 0
        (min ((if row = endRow then endCol else tty.maxColumns - 1) + 1) tty.maxColumns))
  else (tty, [])

/-- The final byte `K`: erases the row of the cursor, or the part of it behind or up to the
cursor. -/
def eraseRow (mode : ℕ) : List ScreenCommand :=
  let row := tty.cursorY / fontHeight
  let cursorCol := tty.cursorX / fontWidth
  if row < tty.maxRows then
    let colStart := if mode = 0 then cursorCol else 0
    let colEnd := if mode = 1 then cursorCol else tty.maxColumns - 1
    if 0 < tty.maxColumns ∧ colStart < tty.maxColumns then
      tty.eraseCells row colStart
        ((if tty.maxColumns ≤ colEnd then tty.maxColumns - 1 else colEnd) + 1)
    else []
  else []

/-- A parameter is complete; at most four are kept. -/
def pushParam (value : ℕ) : Tty :=
  if tty.outputAnsiParams.length < 4 then
    { tty with outputAnsiParams := tty.outputAnsiParams ++ [value] }
  else tty

/-- The last byte of a control sequence, once its parameters are complete. -/
def finalByte (character : UInt8) : Tty × List ScreenCommand :=
  if character = 0x48 ∨ character = 0x66 then (tty.setCursor.resetAnsiParser, [])
  else if character = 0x4A then
    let r := tty.eraseScreen (tty.outputAnsiParams.getD 0 0)
    (r.1.resetAnsiParser, r.2)
  else if character = 0x4B then
    (tty.resetAnsiParser, tty.eraseRow (tty.outputAnsiParams.getD 0 0))
  else if character = 0x6D then
    let params := if tty.outputAnsiParams = [] then [0] else tty.outputAnsiParams
    ((params.foldl selectColor tty).resetAnsiParser, [])
  else (tty.resetAnsiParser, [])

/-- A byte of a control sequence. -/
def handleCsi (character : UInt8) : Tty × List ScreenCommand :=
  if 0x30 ≤ character ∧ character ≤ 0x39 then
    (tty.parse .csi tty.outputAnsiParams
      (min (tty.outputAnsiCurrentValue * 10 + (character.toNat - 0x30)) 255) true, [])
  else if character = 0x3B then
    let tty := tty.pushParam (if tty.outputAnsiReadingValue then tty.outputAnsiCurrentValue else 0)
    (tty.parse .csi tty.outputAnsiParams 0 false, [])
  else
    (if tty.outputAnsiReadingValue then tty.pushParam tty.outputAnsiCurrentValue else tty).finalByte
      character

/-- `HandleOutputChar`. -/
def handleOutputChar (character : UInt8) : Tty × List ScreenCommand :=
  match tty.outputAnsiState with
  | .normal =>
    if character = 0x1B then
      (tty.parse .escape tty.outputAnsiParams tty.outputAnsiCurrentValue
        tty.outputAnsiReadingValue, [])
    else tty.putChar character
  | .escape =>
    if character = 0x5B then (tty.parse .csi [] 0 false, [])
    else ((tty.putChar character).1.resetAnsiParser, (tty.putChar character).2)
  | .csi => tty.handleCsi character

/-! ### Output -/

/-- One round of the loop of `Write`. A byte from `128` on is a negative character. -/
def writeChar (character : UInt8) : Tty × List ScreenCommand :=
  if tty.outputAnsiState = .normal ∧ (32 ≤ character ∧ character < 128) ∧ character ≠ 127 then
    tty.putChar character
  else tty.handleOutputChar character

/-- The loop of `Write`. -/
def writeChars : List UInt8 → Tty → Tty × List ScreenCommand
  | [], tty => (tty, [])
  | character :: characters, tty =>
    let r := tty.writeChar character
    ((writeChars characters r.1).1, r.2 ++ (writeChars characters r.1).2)

/-- `Write` adds a newline to a long output that does not end with one. -/
def endsRow (characters : List UInt8) : Bool :=
  characters.getLast? ≠ some 10 && decide (0 < tty.maxColumns ∧ tty.maxColumns ≤ characters.length)

/-- `Write`, without the serial port and the file offset. -/
def write (characters : List UInt8) : Tty × List ScreenCommand × ℤ :=
  if characters = [] then (tty, [], 0)
  else if ¬ tty.frameBufferDevice.valid then (tty, [], errEnodev)
  else
    let r := writeChars characters tty
    if tty.endsRow characters then
      ((r.1.putChar 10).1, r.2 ++ (r.1.putChar 10).2, characters.length)
    else (r.1, r.2, characters.length)

/-- The terminal and the pixels after `Write`. -/
def writeScreen (font : ℕ → ℕ) (screen : Tty × (ℕ → ℕ)) (characters : List UInt8) :
    Tty × (ℕ → ℕ) :=
  ((screen.1.write characters).1,
    screen.1.frameBufferDevice.render font screen.2 (screen.1.write characters).2.1)

end Tty

end TwistedOS
