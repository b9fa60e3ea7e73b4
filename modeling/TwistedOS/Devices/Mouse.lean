import TwistedOS.Devices.Keyboard

/-!
# The mouse

A mouse sends packets of three bytes. `Mouse::HandleInterrupt` assembles them byte by byte, drops a
byte that cannot begin a packet, and queues the events of a packet that is whole: the movement, and
one event for each button whose bit differs from the one of the packet before. A packet whose
movement overflowed is not used.

## Main definitions

* `MousePacket`, `Mouse.receive`.
* `ButtonsAgree`: the events of a button alternate and end as the last used packet says.

## Main results

* `Mouse.ButtonsFollow.receive`, for any byte.
* `Mouse.Follows.receive`, for the next byte of a stream of packets.
-/

namespace TwistedOS

/-! ### Packets -/

/-- `PS2_PACKET_ALWAYS_ONE`. -/
def ps2PacketAlwaysOne : UInt8 := 0x08

/-- `PS2_PACKET_X_OVERFLOW | PS2_PACKET_Y_OVERFLOW`. -/
def ps2PacketOverflow : UInt8 := 0xC0

/-- A button of a mouse. -/
inductive MouseButton
  | left
  | right
  | middle
  deriving DecidableEq, Repr

namespace MouseButton

/-- `PS2_PACKET_LEFT_BUTTON`, `PS2_PACKET_RIGHT_BUTTON` and `PS2_PACKET_MIDDLE_BUTTON`. -/
def mask : MouseButton → UInt8
  | left => 0x01
  | right => 0x02
  | middle => 0x04

/-- `LINUX_BTN_LEFT`, `LINUX_BTN_RIGHT` and `LINUX_BTN_MIDDLE`. -/
def code : MouseButton → UInt16
  | left => 0x110
  | right => 0x111
  | middle => 0x112

end MouseButton

/-- The bit of a button is set in some state of the buttons. -/
def MouseButton.isSet (button : MouseButton) (state : UInt8) : Bool := state &&& button.mask ≠ 0

/-- The bits of the three buttons. -/
def buttonMask : UInt8 := 0x07

/-- A packet of three bytes. -/
structure MousePacket where
  first : UInt8
  second : UInt8
  third : UInt8
  alwaysOne : first &&& ps2PacketAlwaysOne ≠ 0
  deriving DecidableEq, Repr

/-- The bytes of a packet. -/
def MousePacket.bytes (packet : MousePacket) : List UInt8 :=
  [packet.first, packet.second, packet.third]

theorem MousePacket.bytes_ne_nil (packet : MousePacket) : packet.bytes ≠ [] := List.cons_ne_nil _ _

/-! ### Assembly -/

/-- `LINUX_EV_REL`. -/
def linuxEvRel : UInt16 := 2

/-- `LINUX_REL_X`. -/
def linuxRelX : UInt16 := 0

/-- `LINUX_REL_Y`. -/
def linuxRelY : UInt16 := 1

/-- The state of `Mouse` that outlives an interrupt. -/
structure Mouse where
  pendingPacket : ℕ → UInt8
  packetIndex : ℕ
  previousButtonState : UInt8

/-- What a byte leaves: the mouse, the events that were queued, whether the byte went into the
packet, and the packet whose buttons were used, if there was one. -/
structure MouseOutcome where
  mouse : Mouse
  events : List LinuxInputEvent
  isStored : Bool
  used : Option (List UInt8)

/-- The event of a button, if its bit has changed. -/
def buttonEvent (currentButtonState buttonChanges : UInt8) (button : MouseButton) :
    List LinuxInputEvent :=
  if button.isSet buttonChanges then
    [.ofCall linuxEvKey button.code (if button.isSet currentButtonState then 1 else 0)]
  else []

namespace Mouse

variable (mouse : Mouse)

/-- A mouse that was initialized. -/
def initial : Mouse := ⟨fun _ => 0, 0, 0⟩

/-- The bytes of `PendingPacket`. -/
def packetBytes : List UInt8 := [mouse.pendingPacket 0, mouse.pendingPacket 1, mouse.pendingPacket 2]

/-- `HandleEventInterrupt`, for a packet that is pending. -/
def handleEventInterrupt : MouseOutcome :=
  let packet0 := mouse.pendingPacket 0
  if packet0 &&& ps2PacketOverflow ≠ 0 then
    ⟨mouse, [.ofCall linuxEvSyn linuxSynReport 0], true, none⟩
  else
    let deltaX := (mouse.pendingPacket 1).toInt8.toInt32
    let deltaY := -(mouse.pendingPacket 2).toInt8.toInt32
    let currentButtonState := packet0 &&& buttonMask
    let buttonChanges := currentButtonState ^^^ mouse.previousButtonState
    let mouse' := { mouse with previousButtonState := currentButtonState }
    if deltaX = 0 ∧ deltaY = 0 ∧ buttonChanges = 0 then ⟨mouse', [], true, some mouse.packetBytes⟩
    else
      let moves :=
        (if deltaX ≠ 0 then [.ofCall linuxEvRel linuxRelX deltaX] else []) ++
          (if deltaY ≠ 0 then [.ofCall linuxEvRel linuxRelY deltaY] else [])
      let buttons :=
        buttonEvent currentButtonState buttonChanges .left ++
          buttonEvent currentButtonState buttonChanges .right ++
          buttonEvent currentButtonState buttonChanges .middle
      ⟨mouse', moves ++ buttons ++ [.ofCall linuxEvSyn linuxSynReport 0], true,
        some mouse.packetBytes⟩

/-- `PendingPacket[PacketIndex++] = DataByte`. -/
def store (dataByte : UInt8) : Mouse :=
  { mouse with
    pendingPacket := fun i => if i = mouse.packetIndex then dataByte else mouse.pendingPacket i
    packetIndex := mouse.packetIndex + 1 }

/-- A byte that the controller marked as one of the mouse, in a round of `HandleInterrupt`. The
packet is passed on when the event device of the mouse, with a handler, is found. -/
def receive (hasDevice : Bool) (dataByte : UInt8) : MouseOutcome :=
  if mouse.packetIndex = 0 ∧ dataByte &&& ps2PacketAlwaysOne = 0 then ⟨mouse, [], false, none⟩
  else
    let mouse := mouse.store dataByte
    if mouse.packetIndex < 3 then ⟨mouse, [], true, none⟩
    else
      let mouse := { mouse with packetIndex := 0 }
      if hasDevice then mouse.handleEventInterrupt else ⟨mouse, [], true, none⟩

end Mouse

/-! ### The events of a button -/

/-- The values of the events of a button. -/
def buttonValues (button : MouseButton) (events : List LinuxInputEvent) : List Int32 :=
  (events.filter fun event => event.type = linuxEvKey ∧ event.code = button.code).map
    LinuxInputEvent.value

/-- Press and release take turns, beginning with a press. -/
def Alternates (values : List Int32) : Prop :=
  ∀ i (hi : i < values.length), values[i] = if i % 2 = 0 then 1 else 0

/-- The bit of a button in the last of the packets that were used. -/
def lastBit (button : MouseButton) (used : List (List UInt8)) : Bool :=
  button.isSet ((used.getLast?.getD []).headD 0)

/-- The events of a button alternate, and the last one is a press when the last packet that was used
has the bit of the button. -/
structure ButtonsAgree (events : List LinuxInputEvent) (used : List (List UInt8))
    (button : MouseButton) : Prop where
  alternates : Alternates (buttonValues button events)
  agrees : (buttonValues button events).getLast?.getD 0 = if lastBit button used then 1 else 0

section Buttons

variable {button other : MouseButton} {events events' : List LinuxInputEvent} {values : List Int32}
  {current previous : UInt8}

theorem buttonValues_append : buttonValues button (events ++ events') =
    buttonValues button events ++ buttonValues button events' := by
  rw [buttonValues, List.filter_append, List.map_append]
  rfl

theorem Alternates.append (h : Alternates values) :
    Alternates (values ++ [if values.length % 2 = 0 then 1 else 0]) := by
  intro i hi
  rcases Nat.lt_or_ge i values.length with hlt | hge
  · rw [List.getElem_append_left hlt]
    exact h i hlt
  · obtain rfl : i = values.length := by
      rw [List.length_append, List.length_singleton] at hi
      omega
    rw [List.getElem_append_right hge]
    simp

theorem Alternates.getLast (h : Alternates values) :
    values.getLast?.getD 0 = if values.length % 2 = 1 then 1 else 0 := by
  rw [List.getLast?_eq_getElem?]
  rcases Nat.eq_zero_or_pos values.length with hzero | hpos
  · simp [List.length_eq_zero_iff.mp hzero]
  · have hlt := Nat.sub_lt hpos Nat.one_pos
    rw [List.getElem?_eq_getElem hlt, Option.getD_some, h _ hlt]
    congr 1
    rw [eq_iff_iff]
    omega

/-- An event for a bit that has changed keeps turns. -/
theorem Alternates.change {bit next : Bool} (h : Alternates values)
    (hparity : values.length % 2 = if bit then 1 else 0) :
    Alternates (values ++ if next ^^ bit then [if next then 1 else 0] else []) ∧
      (values ++ if next ^^ bit then [if next then 1 else 0] else []).length % 2 =
        if next then 1 else 0 := by
  have happend := h.append
  cases next <;> cases bit <;> simp_all
  all_goals omega

theorem buttonValues_buttonEvent {changes : UInt8} :
    buttonValues button (buttonEvent current changes other) =
      if other = button ∧ button.isSet changes then [if button.isSet current then 1 else 0] else [] := by
  by_cases hchanged : other.isSet changes
  · rw [buttonEvent, if_pos hchanged]
    cases other <;> cases button <;> simp_all [buttonValues, MouseButton.code, LinuxInputEvent.ofCall]
  · rw [buttonEvent, if_neg hchanged, if_neg fun (h : other = button ∧ _) => hchanged (h.1 ▸ h.2)]
    rfl

theorem and_mask_cases (button : MouseButton) (state : UInt8) :
    state &&& button.mask = 0 ∨ state &&& button.mask = button.mask :=
  Keyboard.forall_byte (p := fun b => b &&& button.mask = 0 ∨ b &&& button.mask = button.mask)
    (by cases button <;> decide +kernel) state

/-- The bit of a button has changed when it is set in one of two states. -/
theorem isSet_xor (button : MouseButton) (current previous : UInt8) :
    button.isSet (current ^^^ previous) =
    (button.isSet current ^^ button.isSet previous) := by
  have hxor : (current ^^^ previous) &&& button.mask =
      (current &&& button.mask) ^^^ (previous &&& button.mask) := by
    rw [← UInt8.toNat_inj]
    simp only [UInt8.toNat_and, UInt8.toNat_xor, Nat.and_xor_distrib_right]
  simp only [MouseButton.isSet, hxor]
  rcases and_mask_cases button current with hcurrent | hcurrent <;>
    rcases and_mask_cases button previous with hprevious | hprevious <;>
    rw [hcurrent, hprevious] <;> cases button <;> rfl

theorem isSet_and_buttonMask (state : UInt8) :
    button.isSet (state &&& buttonMask) = button.isSet state := by
  have hmask : buttonMask &&& button.mask = button.mask := by cases button <;> rfl
  rw [MouseButton.isSet, UInt8.and_assoc, hmask]
  rfl

end Buttons

namespace Mouse

open CodeStream

variable {mouse : Mouse} {button : MouseButton} {events : List LinuxInputEvent}
  {used : List (List UInt8)} {hasDevice : Bool} {dataByte : UInt8}

/-- The state of the buttons is that of the last packet that was used, and the events of each button
have led to it. -/
structure ButtonsFollow (mouse : Mouse) (events : List LinuxInputEvent) (used : List (List UInt8))
    (button : MouseButton) : Prop where
  previous : button.isSet mouse.previousButtonState = lastBit button used
  alternates : Alternates (buttonValues button events)
  parity : (buttonValues button events).length % 2 = if lastBit button used then 1 else 0

theorem ButtonsFollow.agree (h : mouse.ButtonsFollow events used button) :
    ButtonsAgree events used button := by
  refine ⟨h.alternates, ?_⟩
  rw [h.alternates.getLast, h.parity]
  cases lastBit button used <;> rfl

theorem initial_buttonsFollow : initial.ButtonsFollow [] [] button where
  previous := rfl
  alternates _ hi := absurd hi (Nat.not_lt_zero _)
  parity := by cases button <;> rfl

/-- An event that is no event of a key is none of a button. -/
theorem buttonValues_ofCall {type code : UInt16} {value : Int32} (htype : type ≠ linuxEvKey) :
    buttonValues button [.ofCall type code value] = [] := by
  simp [buttonValues, LinuxInputEvent.ofCall, htype]

theorem buttonValues_movement {code : UInt16} {value : Int32} {moved : Prop} [Decidable moved] :
    buttonValues button (if moved then [.ofCall linuxEvRel code value] else []) = [] := by
  split_ifs
  · exact buttonValues_ofCall (by decide)
  · rfl

theorem buttonValues_buttonEvents {current changes : UInt8} :
    buttonValues button (buttonEvent current changes .left ++ buttonEvent current changes .right ++
      buttonEvent current changes .middle) =
      if button.isSet changes then [if button.isSet current then 1 else 0] else [] := by
  rw [buttonValues_append, buttonValues_append, buttonValues_buttonEvent, buttonValues_buttonEvent,
    buttonValues_buttonEvent]
  cases button <;> simp

theorem buttonValues_handleEventInterrupt (hused : mouse.pendingPacket 0 &&& ps2PacketOverflow = 0) :
    buttonValues button mouse.handleEventInterrupt.events =
      if button.isSet (mouse.pendingPacket 0) ^^ button.isSet mouse.previousButtonState then
        [if button.isSet (mouse.pendingPacket 0) then 1 else 0] else [] := by
  have hchanges := isSet_xor button (mouse.pendingPacket 0 &&& buttonMask) mouse.previousButtonState
  rw [isSet_and_buttonMask] at hchanges
  rw [← hchanges, ← isSet_and_buttonMask (mouse.pendingPacket 0), handleEventInterrupt,
    if_neg (not_not_intro hused)]
  by_cases hidle : (mouse.pendingPacket 1).toInt8.toInt32 = 0 ∧
      -(mouse.pendingPacket 2).toInt8.toInt32 = 0 ∧
      (mouse.pendingPacket 0 &&& buttonMask) ^^^ mouse.previousButtonState = 0
  · -- Nothing has changed.
    have hunset : button.isSet 0 = false := by cases button <;> rfl
    rw [if_pos hidle, hidle.2.2, hunset]
    rfl
  · rw [if_neg hidle, buttonValues_append, buttonValues_append, buttonValues_append,
      buttonValues_movement, buttonValues_movement, buttonValues_buttonEvents,
      buttonValues_ofCall (by decide), List.nil_append, List.nil_append, List.append_nil]

theorem handleEventInterrupt_of_used (h : mouse.pendingPacket 0 &&& ps2PacketOverflow = 0) :
    mouse.handleEventInterrupt.mouse =
      { mouse with previousButtonState := mouse.pendingPacket 0 &&& buttonMask } ∧
    mouse.handleEventInterrupt.isStored = true ∧
    mouse.handleEventInterrupt.used = some mouse.packetBytes := by
  rw [handleEventInterrupt, if_neg (not_not_intro h)]
  dsimp only
  split_ifs <;> exact ⟨rfl, rfl, rfl⟩

theorem handleEventInterrupt_of_overflow (h : mouse.pendingPacket 0 &&& ps2PacketOverflow ≠ 0) :
    mouse.handleEventInterrupt =
      ⟨mouse, [.ofCall linuxEvSyn linuxSynReport 0], true, none⟩ :=
  if_pos h

/-- A packet keeps the events of each button right. -/
theorem ButtonsFollow.handleEventInterrupt (h : mouse.ButtonsFollow events used button) :
    mouse.handleEventInterrupt.mouse.ButtonsFollow (events ++ mouse.handleEventInterrupt.events)
      (used ++ mouse.handleEventInterrupt.used.toList) button := by
  obtain ⟨hprevious, halternates, hparity⟩ := h
  by_cases hused : mouse.pendingPacket 0 &&& ps2PacketOverflow = 0
  · obtain ⟨hmouse, -, hpacket⟩ := handleEventInterrupt_of_used hused
    have hlast : lastBit button (used ++ [mouse.packetBytes]) =
        button.isSet (mouse.pendingPacket 0) := by
      rw [lastBit, List.getLast?_concat]
      rfl
    rw [hmouse, hpacket, Option.toList_some]
    refine ⟨?_, ?_, ?_⟩
    · rw [hlast]
      exact isSet_and_buttonMask _
    all_goals rw [buttonValues_append, buttonValues_handleEventInterrupt hused, hprevious]
    · exact (halternates.change hparity).1
    · rw [hlast]
      exact (halternates.change hparity).2
  · rw [handleEventInterrupt_of_overflow hused, Option.toList_none, List.append_nil]
    have hvalues : buttonValues button (events ++ [.ofCall linuxEvSyn linuxSynReport 0]) =
        buttonValues button events := by
      rw [buttonValues_append, buttonValues_ofCall (by decide), List.append_nil]
    exact ⟨hprevious, hvalues ▸ halternates, hvalues ▸ hparity⟩

theorem ButtonsFollow.receive (h : mouse.ButtonsFollow events used button) :
    (mouse.receive hasDevice dataByte).mouse.ButtonsFollow
      (events ++ (mouse.receive hasDevice dataByte).events)
      (used ++ (mouse.receive hasDevice dataByte).used.toList) button := by
  rw [Mouse.receive]
  dsimp only
  split_ifs
  · simpa using h
  · simpa using ⟨h.previous, h.alternates, h.parity⟩
  · exact ButtonsFollow.handleEventInterrupt ⟨h.previous, h.alternates, h.parity⟩
  · simpa using ⟨h.previous, h.alternates, h.parity⟩

variable {packets : List MousePacket} {packet : MousePacket} {n : ℕ}

/-- The mouse has stored the first bytes of a stream of packets. -/
structure Follows (mouse : Mouse) (packets : List MousePacket) (n : ℕ) : Prop where
  index : mouse.packetIndex = place MousePacket.bytes packets n
  stored : ∀ packet, next? MousePacket.bytes packets n = some packet →
    ∀ i < place MousePacket.bytes packets n, packet.bytes[i]? = some (mouse.pendingPacket i)

theorem initial_follows : initial.Follows packets 0 where
  index := by rw [place_zero]; rfl
  stored _ _ i hi := by
    rw [place_zero] at hi
    exact absurd hi (Nat.not_lt_zero _)

/-- The event handler stores no byte. -/
theorem handleEventInterrupt_stored : mouse.handleEventInterrupt.isStored = true ∧
    mouse.handleEventInterrupt.mouse.packetIndex = mouse.packetIndex ∧
    ∀ bytes, mouse.handleEventInterrupt.used = some bytes → bytes = mouse.packetBytes := by
  by_cases hused : mouse.pendingPacket 0 &&& ps2PacketOverflow = 0
  · obtain ⟨hmouse, hstored, hpacket⟩ := handleEventInterrupt_of_used hused
    rw [hmouse, hstored, hpacket]
    exact ⟨rfl, rfl, fun _ h => (Option.some.inj h).symm⟩
  · rw [handleEventInterrupt_of_overflow hused]
    exact ⟨rfl, rfl, fun _ h => by cases h⟩

/-- The next byte of a stream of packets is stored, and only a packet that it ends is used. -/
theorem Follows.receive (h : mouse.Follows packets n)
    (hnext : IsNext MousePacket.bytes packets n packet dataByte) (hasDevice : Bool) :
    (mouse.receive hasDevice dataByte).isStored = true ∧
      (mouse.receive hasDevice dataByte).mouse.Follows packets (n + 1) ∧
      ((mouse.receive hasDevice dataByte).used = none ∧
          complete MousePacket.bytes packets n <+: complete MousePacket.bytes packets (n + 1) ∨
        (mouse.receive hasDevice dataByte).used = some packet.bytes ∧
          complete MousePacket.bytes packets (n + 1) =
            complete MousePacket.bytes packets n ++ [packet]) := by
  have hsymbol := hnext.symbol_eq
  have hstored := h.stored packet hnext.next?_eq
  obtain ⟨hplace, hbyte⟩ := List.getElem?_eq_some_iff.mp hsymbol
  have hlength : packet.bytes.length = 3 := rfl
  -- The first byte of a packet has the bit that the mouse looks for.
  have hkept : ¬(mouse.packetIndex = 0 ∧ dataByte &&& ps2PacketAlwaysOne = 0) := by
    rintro ⟨hzero, hbit⟩
    rw [← h.index, hzero] at hsymbol
    obtain rfl := Option.some.inj hsymbol
    exact packet.alwaysOne hbit
  rw [Mouse.receive, if_neg hkept]
  dsimp only
  have hindex : (mouse.store dataByte).packetIndex = place MousePacket.bytes packets n + 1 := by
    rw [← h.index]
    rfl
  have hnew : ∀ i ≤ place MousePacket.bytes packets n,
      packet.bytes[i]? = some ((mouse.store dataByte).pendingPacket i) := fun i hi => by
    rcases Nat.lt_or_eq_of_le hi with hlt | rfl
    · rw [hstored i hlt]
      exact congrArg some (if_neg (by rw [h.index]; exact Nat.ne_of_lt hlt)).symm
    · rw [hsymbol]
      exact congrArg some (if_pos h.index.symm).symm
  by_cases hinside : (mouse.store dataByte).packetIndex < 3
  · rw [if_pos hinside]
    rw [hindex, ← hlength] at hinside
    obtain ⟨hcomplete, hnewPlace⟩ := hnext.inside hinside
    refine ⟨rfl, ⟨?_, fun packet' hpacket' i hi => ?_⟩, .inl ⟨rfl, ?_⟩⟩
    · rw [hnewPlace, hindex]
    · rw [next?, hcomplete] at hpacket'
      obtain rfl := Option.some.inj (hnext.next?_eq.symm.trans hpacket')
      exact hnew i (by omega)
    · exact hcomplete.symm ▸ List.prefix_refl _
  · rw [if_neg hinside]
    have hlast : place MousePacket.bytes packets n + 1 = packet.bytes.length := by
      rw [hindex] at hinside
      omega
    obtain ⟨hcomplete, hnewPlace⟩ := hnext.last hlast
    have hbytes : ({ mouse.store dataByte with packetIndex := 0 } : Mouse).packetBytes =
        packet.bytes := by
      have hfirst := Option.some.inj (hnew 0 (by omega))
      have hsecond := Option.some.inj (hnew 1 (by omega))
      have hthird := Option.some.inj (hnew 2 (by omega))
      rw [packetBytes]
      dsimp only
      rw [← hfirst, ← hsecond, ← hthird]
      rfl
    have hfollows : ∀ mouse : Mouse, mouse.packetIndex = 0 → mouse.Follows packets (n + 1) :=
      fun mouse hindex => ⟨by rw [hnewPlace, hindex], fun _ _ i hi => by
        rw [hnewPlace] at hi
        exact absurd hi (Nat.not_lt_zero i)⟩
    have hbefore : complete MousePacket.bytes packets n <+:
        complete MousePacket.bytes packets (n + 1) := hcomplete ▸ List.prefix_append _ _
    by_cases hdevice : hasDevice = true
    · rw [if_pos hdevice]
      obtain ⟨hisStored, hindex, hused⟩ :=
        @handleEventInterrupt_stored { mouse.store dataByte with packetIndex := 0 }
      refine ⟨hisStored, hfollows _ hindex, ?_⟩
      cases hpacket : (handleEventInterrupt { mouse.store dataByte with packetIndex := 0 }).used with
      | none => exact .inl ⟨rfl, hbefore⟩
      | some bytes => exact .inr ⟨congrArg some ((hused bytes hpacket).trans hbytes), hcomplete⟩
    · rw [if_neg hdevice]
      exact ⟨rfl, hfollows _ rfl, .inl ⟨rfl, hbefore⟩⟩

end Mouse

end TwistedOS
