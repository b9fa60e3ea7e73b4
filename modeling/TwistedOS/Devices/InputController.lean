import Mathlib.Logic.Function.Basic
import TwistedOS.Devices.Mouse

/-!
# The controller of keyboard and mouse

The controller has one byte at a time for the kernel, marks it as one of the keyboard or of the
mouse, and raises the interrupt of its device. Interrupts are served in any order, and are not
nested. `Keyboard::HandleInterrupt` takes the byte that it finds for one of the keyboard.
`Mouse::HandleInterrupt` takes bytes until there is none, and drops those of the keyboard.

## Main definitions

* `InputSystem`, with its steps `InputSystem.apply`.
* `InputSystem.Faithful`: no byte is lost, and what is decoded agrees with what was sent.
* `InputSystem.Meets`: a handler finds a byte of its own device, and one that keeps the flags right.

## Main results

* `InputSystem.Orderly.faithful_apply_iff`: what a step keeps.
* `InputSystem.Orderly.faithful_run_iff`: what a whole run keeps.
-/

namespace TwistedOS

open CodeStream

/-- The device that a byte is from. -/
inductive ByteOrigin
  | keyboard
  | mouse
  deriving DecidableEq, Repr

/-- A byte of the controller, with `PS2_STATUS_MOUSE_DATA`. -/
structure ControllerByte where
  origin : ByteOrigin
  value : UInt8
  deriving DecidableEq, Repr

/-- What the devices send, the controller, and the drivers. `delivered` counts the bytes that the
controller has had, `pending` the interrupts that were raised and not served, and `reached` has the
bytes that got to the decoder of the keyboard and to the packet of the mouse. -/
structure InputSystem where
  codes : List KeyCode
  packets : List MousePacket
  delivered : ByteOrigin → ℕ
  outputBuffer : Option ControllerByte
  pending : ByteOrigin → ℕ
  isServingMouse : Bool
  keyboard : Keyboard
  mouse : Mouse
  reached : ByteOrigin → List UInt8
  keyboardEvents : List LinuxInputEvent
  input : List UInt8
  /-- The events that the mouse driver hands to `QueueInputEvent`. -/
  mouseEvents : List LinuxInputEvent
  used : List (List UInt8)

/-- The controller has the next byte of a device, an interrupt is served, or the handler of the
mouse does a round. -/
inductive InputStep
  | deliver (origin : ByteOrigin)
  | keyboardInterrupt (context : KeyboardContext)
  | mouseInterrupt
  | mouseRound (hasDevice : Bool)
  deriving DecidableEq, Repr

namespace InputSystem

variable (s : InputSystem)

/-- The start of a run. -/
def start (codes : List KeyCode) (packets : List MousePacket) : InputSystem where
  codes := codes
  packets := packets
  delivered := fun _ => 0
  outputBuffer := none
  pending := fun _ => 0
  isServingMouse := false
  keyboard := .initial
  mouse := .initial
  reached := fun _ => []
  keyboardEvents := []
  input := []
  mouseEvents := []
  used := []

/-- The bytes that a device sends. -/
def stream : ByteOrigin → List UInt8
  | .keyboard => s.codes.flatMap KeyCode.bytes
  | .mouse => s.packets.flatMap MousePacket.bytes

/-- The byte of a device that the kernel has not taken. -/
def waiting (origin : ByteOrigin) : List UInt8 :=
  match s.outputBuffer with
  | none => []
  | some byte => if byte.origin = origin then [byte.value] else []

/-- The controller has the next byte of a device, and raises its interrupt. -/
def deliver (origin : ByteOrigin) : InputSystem :=
  match s.outputBuffer, (s.stream origin)[s.delivered origin]? with
  | none, some value =>
    { s with
      delivered := Function.update s.delivered origin (s.delivered origin + 1)
      outputBuffer := some ⟨origin, value⟩
      pending := Function.update s.pending origin (s.pending origin + 1) }
  | _, _ => s

/-- The data port is read. -/
def takeByte : InputSystem := { s with outputBuffer := none }

/-- An interrupt is served. -/
def serve (origin : ByteOrigin) : InputSystem :=
  { s with pending := Function.update s.pending origin (s.pending origin - 1) }

/-- The decoder of the keyboard is given a byte. -/
def decode (context : KeyboardContext) (value : UInt8) : InputSystem :=
  let outcome := s.keyboard.handleInterrupt context value
  { s with
    keyboard := outcome.keyboard
    reached := Function.update s.reached .keyboard (s.reached .keyboard ++ [value])
    keyboardEvents := s.keyboardEvents ++ outcome.events
    input := s.input ++ outcome.input }

/-- The packet of the mouse is given a byte. -/
def assemble (hasDevice : Bool) (value : UInt8) : InputSystem :=
  let outcome := s.mouse.receive hasDevice value
  { s with
    mouse := outcome.mouse
    reached := Function.update s.reached .mouse
      (s.reached .mouse ++ if outcome.isStored then [value] else [])
    mouseEvents := s.mouseEvents ++ outcome.events
    used := s.used ++ outcome.used.toList }

/-- `Keyboard::HandleInterrupt`, for the byte that the controller has. -/
def keyboardInterrupt (context : KeyboardContext) : InputSystem :=
  match s.outputBuffer with
  | none => s
  | some byte => s.takeByte.decode context byte.value

/-- A round of `Mouse::HandleInterrupt`. -/
def mouseRound (hasDevice : Bool) : InputSystem :=
  match s.outputBuffer with
  | none => { s with isServingMouse := false }
  | some byte =>
    match byte.origin with
    | .keyboard => s.takeByte
    | .mouse => s.takeByte.assemble hasDevice byte.value

/-- A step. An interrupt is served when it is pending and the handler of the mouse has returned. -/
def apply : InputStep → InputSystem
  | .deliver origin => s.deliver origin
  | .keyboardInterrupt context =>
    if s.isServingMouse = false ∧ 0 < s.pending .keyboard then
      (s.serve .keyboard).keyboardInterrupt context
    else s
  | .mouseInterrupt =>
    if s.isServingMouse = false ∧ 0 < s.pending .mouse then
      { s.serve .mouse with isServingMouse := true }
    else s
  | .mouseRound hasDevice => if s.isServingMouse then s.mouseRound hasDevice else s

/-- A run. -/
def run (s : InputSystem) (steps : List InputStep) : InputSystem := steps.foldl apply s

/-- The bytes that the controller has had are those that reached their decoder, in order, and the
one that waits, whose interrupt is pending or being served; the flags are those of the keys that are
held; and the events of each button alternate and agree with the last packet that was used, which
the mouse sent. -/
structure Faithful : Prop where
  reached : ∀ origin,
    (s.stream origin).take (s.delivered origin) = s.reached origin ++ s.waiting origin
  served : ∀ byte, s.outputBuffer = some byte →
    0 < s.pending byte.origin ∨ byte.origin = .mouse ∧ s.isServingMouse = true
  flags : s.keyboard.Agrees (complete KeyCode.bytes s.codes (s.reached .keyboard).length)
  used : s.used.Sublist
    ((complete MousePacket.bytes s.packets (s.reached .mouse).length).map MousePacket.bytes)
  buttons : ∀ button, ButtonsAgree s.mouseEvents s.used button

/-- The next byte of the keyboard keeps the flags right. -/
def KeySafe : Prop :=
  ∀ code, next? KeyCode.bytes s.codes (s.reached .keyboard).length = some code →
    code.SafeAt (complete KeyCode.bytes s.codes (s.reached .keyboard).length)
      (place KeyCode.bytes s.codes (s.reached .keyboard).length)

/-- The handler of the keyboard finds a byte of the keyboard that keeps the flags right, and the
handler of the mouse finds one of the mouse, if they find any. -/
def Meets : InputStep → Prop
  | .keyboardInterrupt _ => s.isServingMouse = false → 0 < s.pending .keyboard →
    ∀ byte, s.outputBuffer = some byte → byte.origin = .keyboard ∧ s.KeySafe
  | .mouseRound _ => s.isServingMouse = true →
    ∀ byte, s.outputBuffer = some byte → byte.origin = .mouse
  | _ => True

/-- Every step of a run does. -/
def AllMeet (s : InputSystem) : List InputStep → Prop
  | [] => True
  | step :: steps => s.Meets step ∧ AllMeet (s.apply step) steps

/-! ### What a step keeps -/

/-- The decoders have followed what was sent. -/
structure Orderly : Prop extends s.Faithful where
  keyboardFollows : s.keyboard.Follows s.codes (s.reached .keyboard).length
  mouseFollows : s.mouse.Follows s.packets (s.reached .mouse).length
  buttonsFollow : ∀ button, s.mouse.ButtonsFollow s.mouseEvents s.used button

variable {s}

theorem start_orderly (codes : List KeyCode) (packets : List MousePacket) :
    (start codes packets).Orderly where
  reached _ := rfl
  served _ h := by cases h
  flags := by
    have hnone : complete KeyCode.bytes codes 0 = [] := complete_zero KeyCode.bytes_ne_nil
    exact (congrArg (Keyboard.Agrees _) hnone).mpr Keyboard.initial_agrees
  used := List.nil_sublist _
  buttons _ := Mouse.initial_buttonsFollow.agree
  keyboardFollows := Keyboard.initial_follows
  mouseFollows := Mouse.initial_follows
  buttonsFollow _ := Mouse.initial_buttonsFollow

section Reached

variable {context : KeyboardContext} {hasDevice : Bool} {value : UInt8}

@[simp] theorem decode_reached_keyboard :
    (s.decode context value).reached .keyboard = s.reached .keyboard ++ [value] := by
  simp [decode]

@[simp] theorem decode_reached_mouse : (s.decode context value).reached .mouse = s.reached .mouse := by
  simp [decode]

@[simp] theorem assemble_reached_mouse : (s.assemble hasDevice value).reached .mouse =
    s.reached .mouse ++ if (s.mouse.receive hasDevice value).isStored then [value] else [] := by
  simp [assemble]

@[simp] theorem assemble_reached_keyboard :
    (s.assemble hasDevice value).reached .keyboard = s.reached .keyboard := by
  simp [assemble]

end Reached

variable {byte : ControllerByte}

theorem waiting_of_none (hbuffer : s.outputBuffer = none) (origin : ByteOrigin) :
    s.waiting origin = [] := by
  rw [waiting, hbuffer]

theorem waiting_origin (hbuffer : s.outputBuffer = some byte) :
    s.waiting byte.origin = [byte.value] := by
  rw [waiting, hbuffer]
  exact if_pos rfl

theorem waiting_of_ne (hbuffer : s.outputBuffer = some byte) {origin : ByteOrigin}
    (hne : byte.origin ≠ origin) : s.waiting origin = [] := by
  rw [waiting, hbuffer]
  exact if_neg hne

/-- The byte that waits is the next one of its device. -/
theorem Faithful.next_eq (h : s.Faithful) (hbuffer : s.outputBuffer = some byte) :
    (s.stream byte.origin)[(s.reached byte.origin).length]? = some byte.value := by
  have hreached := h.reached byte.origin
  rw [waiting_origin hbuffer] at hreached
  obtain ⟨rest, hrest⟩ := List.take_prefix (s.delivered byte.origin) (s.stream byte.origin)
  rw [← hrest, hreached, List.append_assoc, List.getElem?_append_right (Nat.le_refl _), Nat.sub_self]
  rfl

/-- The byte that waits has reached its decoder. -/
theorem Faithful.reached_of_taken (h : s.Faithful) (hbuffer : s.outputBuffer = some byte)
    {s' : InputSystem} (hstream : s'.stream = s.stream) (hdelivered : s'.delivered = s.delivered)
    (hnone : s'.outputBuffer = none)
    (hreached : ∀ origin,
      s'.reached origin = s.reached origin ++ if byte.origin = origin then [byte.value] else [])
    (origin : ByteOrigin) :
    (s'.stream origin).take (s'.delivered origin) = s'.reached origin ++ s'.waiting origin := by
  rw [hstream, hdelivered, h.reached, hreached, waiting_of_none hnone, List.append_nil, waiting,
    hbuffer]

section

variable (h : s.Orderly)

include h

/-- The interrupts that are pending or served change, and none that a byte needs is lost. -/
theorem Orderly.of_served {pending : ByteOrigin → ℕ} {isServingMouse : Bool}
    (hserved : ∀ byte, s.outputBuffer = some byte →
      0 < pending byte.origin ∨ byte.origin = .mouse ∧ isServingMouse = true) :
    Orderly { s with pending := pending, isServingMouse := isServingMouse } :=
  { h with served := hserved }

theorem Orderly.deliver (origin : ByteOrigin) : (s.deliver origin).Orderly := by
  rw [InputSystem.deliver]
  split
  · next value hbuffer hvalue =>
    have hother : ∀ origin', (s.stream origin').take (s.delivered origin') = s.reached origin' :=
      fun origin' => by rw [h.reached, waiting_of_none hbuffer, List.append_nil]
    refine ⟨⟨fun origin' => ?_, fun byte hbyte => ?_, h.flags, h.used, h.buttons⟩,
      h.keyboardFollows, h.mouseFollows, h.buttonsFollow⟩
    · change _ = s.reached origin' ++ if origin = origin' then [value] else []
      rw [← hother origin']
      by_cases heq : origin' = origin
      · subst heq
        dsimp only
        rw [Function.update_self, if_pos rfl, List.take_add_one]
        exact congrArg _ (congrArg Option.toList hvalue)
      · dsimp only
        rw [Function.update_of_ne heq, if_neg (Ne.symm heq), List.append_nil]
        rfl
    · obtain rfl := Option.some.inj hbyte
      dsimp only
      rw [Function.update_self]
      exact .inl (Nat.succ_pos _)
  · exact h

section

variable (hbuffer : s.outputBuffer = some byte)

include hbuffer

/-- The kernel takes a byte of the keyboard for what it is. -/
theorem Orderly.decode (horigin : byte.origin = .keyboard) (context : KeyboardContext) :
    (((s.serve .keyboard).takeByte.decode context byte.value).Faithful ↔ s.KeySafe) ∧
      (s.KeySafe → ((s.serve .keyboard).takeByte.decode context byte.value).Orderly) := by
  have hvalue := h.next_eq hbuffer
  rw [horigin] at hvalue
  obtain ⟨code, hnext⟩ := exists_next KeyCode.bytes_ne_nil hvalue
  obtain ⟨hfollows, hagrees⟩ := h.keyboardFollows.step h.flags hnext
  have hsafe : s.KeySafe ↔ code.SafeAt (complete KeyCode.bytes s.codes (s.reached .keyboard).length)
      (place KeyCode.bytes s.codes (s.reached .keyboard).length) :=
    ⟨fun hkey => hkey code hnext.next?_eq, fun hcode code' hcode' =>
      Option.some.inj (hnext.next?_eq.symm.trans hcode') ▸ hcode⟩
  set s' := (s.serve .keyboard).takeByte.decode context byte.value with hs'
  have hkeyboard : s'.keyboard = s.keyboard.behind byte.value := Keyboard.keyboard_handleInterrupt
  have hlength : (s'.reached .keyboard).length = (s.reached .keyboard).length + 1 := by
    simp [hs', serve, takeByte]
  have hmouse : s'.reached .mouse = s.reached .mouse := by simp [hs', serve, takeByte]
  rw [← hkeyboard, ← hlength] at hfollows hagrees
  rw [hsafe, ← hagrees]
  have horderly (hflags : s'.keyboard.Agrees
      (complete KeyCode.bytes s.codes (s'.reached .keyboard).length)) : s'.Orderly :=
    { reached := h.reached_of_taken hbuffer rfl rfl rfl fun origin => by
        cases origin <;> simp [hs', horigin, serve, takeByte]
      served := fun _ hbyte => by cases hbyte
      flags := hflags
      used := by
        rw [hmouse]
        exact h.used
      buttons := h.buttons
      keyboardFollows := hfollows
      mouseFollows := by
        rw [hmouse]
        exact h.mouseFollows
      buttonsFollow := h.buttonsFollow }
  exact ⟨⟨fun hfaithful => hfaithful.flags, fun hflags => (horderly hflags).toFaithful⟩, horderly⟩

/-- The handler of the keyboard takes a byte of the mouse for one of its own. -/
theorem Orderly.not_faithful_decode (horigin : byte.origin = .mouse) (context : KeyboardContext) :
    ¬((s.serve .keyboard).takeByte.decode context byte.value).Faithful := by
  intro hfaithful
  have hbefore := h.reached .keyboard
  have hafter := hfaithful.reached .keyboard
  rw [waiting_of_ne hbuffer (by rw [horigin]; decide), List.append_nil] at hbefore
  rw [waiting_of_none rfl, List.append_nil, decode_reached_keyboard] at hafter
  have hlength := congrArg List.length (hbefore.symm.trans hafter)
  simp [serve, takeByte] at hlength

/-- The handler of the mouse drops a byte of the keyboard. -/
theorem Orderly.not_faithful_takeByte : ¬s.takeByte.Faithful := by
  intro hfaithful
  have hbefore := h.reached byte.origin
  have hafter := hfaithful.reached byte.origin
  rw [waiting_origin hbuffer] at hbefore
  rw [waiting_of_none rfl, List.append_nil] at hafter
  have hlength := congrArg List.length (hbefore.symm.trans hafter)
  simp [takeByte] at hlength

theorem Orderly.assemble (horigin : byte.origin = .mouse) (hasDevice : Bool) :
    (s.takeByte.assemble hasDevice byte.value).Orderly := by
  have hvalue := h.next_eq hbuffer
  rw [horigin] at hvalue
  obtain ⟨packet, hnext⟩ := exists_next MousePacket.bytes_ne_nil hvalue
  obtain ⟨hstored, hfollows, hused⟩ := h.mouseFollows.receive hnext hasDevice
  set s' := s.takeByte.assemble hasDevice byte.value with hs'
  have hreached : s'.reached .mouse = s.reached .mouse ++ [byte.value] := by
    rw [hs', assemble_reached_mouse]
    exact congrArg _ (if_pos hstored)
  have hlength : (s'.reached .mouse).length = (s.reached .mouse).length + 1 := by
    rw [hreached, List.length_append, List.length_singleton]
  have hkeyboard : s'.reached .keyboard = s.reached .keyboard := by simp [hs', takeByte]
  have hbuttons : ∀ button, s'.mouse.ButtonsFollow s'.mouseEvents s'.used button :=
    fun button => (h.buttonsFollow button).receive
  rw [← hlength] at hfollows hused
  exact
    { reached := h.reached_of_taken hbuffer rfl rfl rfl fun origin => by
        cases origin with
        | keyboard => rw [hkeyboard, horigin]; simp
        | mouse => rw [hreached, horigin]; simp
      served := fun _ hbyte => by cases hbyte
      flags := by
        rw [hkeyboard]
        exact h.flags
      used := by
        have hnew : s'.used = s.used ++ (s.mouse.receive hasDevice byte.value).used.toList := rfl
        rcases hused with ⟨hpacket, hbefore⟩ | ⟨hpacket, hcomplete⟩
        · rw [hnew, hpacket, Option.toList_none, List.append_nil]
          exact h.used.trans (hbefore.sublist.map _)
        · rw [hnew, hpacket, Option.toList_some]
          refine (congrArg _ (congrArg (List.map _) hcomplete)).mpr ?_
          rw [List.map_append]
          exact h.used.append (List.Sublist.refl _)
      buttons := fun button => (hbuttons button).agree
      keyboardFollows := by
        rw [hkeyboard]
        exact h.keyboardFollows
      mouseFollows := hfollows
      buttonsFollow := hbuttons }

end

theorem Orderly.keyboardInterrupt (context : KeyboardContext) :
    (((s.serve .keyboard).keyboardInterrupt context).Faithful ↔
        ∀ byte, s.outputBuffer = some byte → byte.origin = .keyboard ∧ s.KeySafe) ∧
      ((∀ byte, s.outputBuffer = some byte → byte.origin = .keyboard ∧ s.KeySafe) →
        ((s.serve .keyboard).keyboardInterrupt context).Orderly) := by
  cases hbuffer : s.outputBuffer with
  | none =>
    have hnone : (s.serve .keyboard).keyboardInterrupt context = s.serve .keyboard := by
      rw [InputSystem.keyboardInterrupt, serve, hbuffer]
    have horderly : (s.serve .keyboard).Orderly :=
      h.of_served fun _ hbyte => by rw [hbuffer] at hbyte; cases hbyte
    rw [hnone]
    exact ⟨iff_of_true horderly.toFaithful fun _ hbyte => (by cases hbyte), fun _ => horderly⟩
  | some byte =>
    have hsome : (s.serve .keyboard).keyboardInterrupt context =
        (s.serve .keyboard).takeByte.decode context byte.value := by
      rw [InputSystem.keyboardInterrupt, serve, hbuffer]
    rw [hsome]
    cases horigin : byte.origin with
    | keyboard =>
      have hmeets : (∀ byte', some byte = some byte' → byte'.origin = .keyboard ∧ s.KeySafe) ↔
          s.KeySafe :=
        ⟨fun hall => (hall byte rfl).2, fun hsafe _ hbyte => Option.some.inj hbyte ▸ ⟨horigin, hsafe⟩⟩
      rw [hmeets]
      exact h.decode hbuffer horigin context
    | mouse =>
      have hnot : ¬∀ byte', some byte = some byte' → byte'.origin = .keyboard ∧ s.KeySafe :=
        fun hall => ByteOrigin.noConfusion (horigin.symm.trans (hall byte rfl).1)
      exact ⟨iff_of_false (h.not_faithful_decode hbuffer horigin context) hnot,
        fun hall => absurd hall hnot⟩

theorem Orderly.mouseInterrupt : Orderly { s.serve .mouse with isServingMouse := true } := by
  refine h.of_served fun byte hbyte => ?_
  cases horigin : byte.origin with
  | keyboard =>
    obtain hpending | ⟨hmouse, -⟩ := h.served byte hbyte
    · rw [horigin] at hpending
      exact .inl (by simpa [serve] using hpending)
    · exact ByteOrigin.noConfusion (horigin.symm.trans hmouse)
  | mouse => exact .inr ⟨rfl, rfl⟩

theorem Orderly.mouseRound (hasDevice : Bool) :
    ((s.mouseRound hasDevice).Faithful ↔
        ∀ byte, s.outputBuffer = some byte → byte.origin = .mouse) ∧
      ((∀ byte, s.outputBuffer = some byte → byte.origin = .mouse) →
        (s.mouseRound hasDevice).Orderly) := by
  cases hbuffer : s.outputBuffer with
  | none =>
    have hnone : s.mouseRound hasDevice = { s with isServingMouse := false } := by
      rw [InputSystem.mouseRound, hbuffer]
    have horderly : Orderly { s with isServingMouse := false } :=
      h.of_served fun _ hbyte => by rw [hbuffer] at hbyte; cases hbyte
    rw [hnone]
    exact ⟨iff_of_true horderly.toFaithful fun _ hbyte => (by cases hbyte), fun _ => horderly⟩
  | some byte =>
    cases horigin : byte.origin with
    | keyboard =>
      have htaken : s.mouseRound hasDevice = s.takeByte := by
        simp only [InputSystem.mouseRound, hbuffer, horigin]
      have hnot : ¬∀ byte', some byte = some byte' → byte'.origin = .mouse :=
        fun hall => ByteOrigin.noConfusion (horigin.symm.trans (hall byte rfl))
      rw [htaken]
      exact ⟨iff_of_false (h.not_faithful_takeByte hbuffer) hnot, fun hall => absurd hall hnot⟩
    | mouse =>
      have hassembled : s.mouseRound hasDevice = s.takeByte.assemble hasDevice byte.value := by
        simp only [InputSystem.mouseRound, hbuffer, horigin]
      have horderly := h.assemble hbuffer horigin hasDevice
      rw [hassembled]
      exact ⟨iff_of_true horderly.toFaithful fun _ hbyte => Option.some.inj hbyte ▸ horigin,
        fun _ => horderly⟩

/-- What a step keeps: it leaves nothing wrong exactly when the handler that it runs finds a byte of
its own device, and one that keeps the flags right. -/
theorem Orderly.faithful_apply_iff (step : InputStep) :
    ((s.apply step).Faithful ↔ s.Meets step) ∧ (s.Meets step → (s.apply step).Orderly) := by
  have hsame {s' : InputSystem} {p : Prop} (horderly : s'.Orderly) (hp : p) :
      (s'.Faithful ↔ p) ∧ (p → s'.Orderly) :=
    ⟨iff_of_true horderly.toFaithful hp, fun _ => horderly⟩
  cases step with
  | deliver origin => exact hsame (h.deliver origin) trivial
  | keyboardInterrupt context =>
    rw [InputSystem.apply, Meets]
    split_ifs with hserved
    · rw [forall_prop_of_true hserved.1, forall_prop_of_true hserved.2]
      exact h.keyboardInterrupt context
    · exact hsame h fun hserving hpending => absurd ⟨hserving, hpending⟩ hserved
  | mouseInterrupt =>
    rw [InputSystem.apply]
    split_ifs with hserved
    · exact hsame h.mouseInterrupt trivial
    · exact hsame h trivial
  | mouseRound hasDevice =>
    rw [InputSystem.apply, Meets]
    split_ifs with hserving
    · rw [forall_prop_of_true hserving]
      exact h.mouseRound hasDevice
    · exact hsame h fun hserving' => absurd hserving' hserving

/-- Nothing goes wrong in a run exactly when every step meets the condition. -/
theorem Orderly.faithful_run_iff (steps : List InputStep) :
    (∀ earlier, earlier <+: steps → (s.run earlier).Faithful) ↔ s.AllMeet steps := by
  induction steps generalizing s with
  | nil =>
    refine iff_of_true (fun earlier hearlier => ?_) trivial
    rw [List.prefix_nil.mp hearlier]
    exact h.toFaithful
  | cons step steps ih =>
    obtain ⟨hiff, horderly⟩ := h.faithful_apply_iff step
    refine ⟨fun hall => ?_, fun ⟨hmeets, hall⟩ earlier hearlier => ?_⟩
    · have hmeets : s.Meets step := hiff.mp (hall [step] (List.prefix_append [step] steps))
      refine ⟨hmeets, (ih (horderly hmeets)).mp fun earlier hearlier => ?_⟩
      exact hall (step :: earlier) (List.prefix_cons_inj step |>.mpr hearlier)
    · rcases List.prefix_cons_iff.mp hearlier with rfl | ⟨rest, rfl, hrest⟩
      · exact h.toFaithful
      · exact (ih (horderly hmeets)).mpr hall rest hrest

end

/-- For every sequence of codes and packets, and every order of steps: no byte is lost, the flags
are right and the events of the buttons agree in every state of a run exactly when each handler that
is run finds no byte of the other device, and the keyboard's finds no release of a Ctrl or Alt key
while its twin is held and no byte of Pause that switches the flag of Ctrl. -/
theorem inputDecoded_iff (codes : List KeyCode) (packets : List MousePacket)
    (steps : List InputStep) :
    (∀ earlier, earlier <+: steps → ((start codes packets).run earlier).Faithful) ↔
      (start codes packets).AllMeet steps :=
  (start_orderly codes packets).faithful_run_iff steps

/-- The key A. -/
def keyA : Key := ⟨false, 0x1E, by decide, by decide⟩

/-- A packet without buttons or movement. -/
def idlePacket : MousePacket := ⟨0x08, 0, 0, by decide⟩

/-- A byte of the keyboard comes while the handler of the mouse has not returned. -/
def sharedPort : InputSystem :=
  (start [.stroke keyA false] [idlePacket]).run
    [.deliver .mouse, .mouseInterrupt, .mouseRound true, .deliver .keyboard, .mouseRound true]

/-- Both Ctrl keys are pressed, and the right one is released. -/
def bothCtrl : InputSystem :=
  (start [.stroke .leftCtrl false, .stroke .rightCtrl false, .stroke .rightCtrl true] []).run
    (List.replicate 5 [.deliver .keyboard, .keyboardInterrupt ⟨true, true, false⟩]).flatten

/-- The handler of the mouse loses the byte of the keyboard; and the flag of Ctrl is off while the
left key is held. -/
theorem not_faithful_sharedPort : ¬sharedPort.Faithful ∧ ¬bothCtrl.Faithful :=
  ⟨fun h => absurd (h.reached .keyboard) (by decide), fun h => absurd h.flags.ctrl (by decide)⟩

end InputSystem

end TwistedOS
