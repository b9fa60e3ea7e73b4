import TwistedOS.Data.MarkedQueue
import TwistedOS.Data.RingBuffer

/-!
# Input event devices

A keyboard or a mouse queues packets of events, each closed by a `SYN_REPORT`. A device whose queue
is full drops the oldest event for a new one and remembers that it overflowed: it drops the events
of the packet that it is in, and puts a `SYN_DROPPED` in the place of the `SYN_REPORT`.

The oldest event is mostly one of an earlier packet, whose rest is delivered with its `SYN_REPORT`.
Packets are whole in the runs in which the oldest event is dropped only when the packet it belongs
to ends with a `SYN_DROPPED`.

## Main definitions

* `EventDevice`, `EventDevice.queueInputEvent`, `EventDevice.readFileOperation`.
* `EventRun`: a device with its reader, and the history of its events.
* `EventRun.Admitted`, `EventRun.Delivers`.

## Main results

* `EventRun.Refines.apply`: the history describes the device.
* `EventRun.consistent_run`.
* `EventRun.delivers_run`.
-/

namespace TwistedOS

open RingBuffer

/-- `EventDeviceKind`. -/
inductive EventDeviceKind
  | generic
  | keyboard
  | mouse
  deriving DecidableEq, Repr

/-- `LinuxInputEvent`. -/
structure LinuxInputEvent where
  seconds : ℤ
  microseconds : ℤ
  type : UInt16
  code : UInt16
  value : Int32
  deriving DecidableEq, Repr

/-- `LINUX_EV_SYN`. -/
def linuxEvSyn : UInt16 := 0

/-- `LINUX_SYN_REPORT`. -/
def linuxSynReport : UInt16 := 0

/-- `LINUX_SYN_DROPPED`. -/
def linuxSynDropped : UInt16 := 3

/-- `sizeof(LinuxInputEvent)`. -/
def linuxInputEventSize : ℕ := 24

namespace LinuxInputEvent

/-- The event of a call of `QueueInputEvent`. -/
def ofCall (type code : UInt16) (value : Int32) : LinuxInputEvent := ⟨0, 0, type, code, value⟩

/-- The event ends a packet. -/
def isSynReport (event : LinuxInputEvent) : Bool :=
  event.type = linuxEvSyn ∧ event.code = linuxSynReport

/-- The event that stands for the end of a packet that was dropped in part. -/
def synDropped : LinuxInputEvent := ofCall linuxEvSyn linuxSynDropped 0

end LinuxInputEvent

open LinuxInputEvent

/-- `MAX_PENDING_EVENTS`. -/
def maxPendingEvents : ℕ := 1024

/-- `EventDevice`. The pending events are those of a ring: its read offset is `PendingEventHead`,
its write offset is `PendingEventTail`, and `PendingEventCount` events are buffered. -/
structure EventDevice where
  kind : EventDeviceKind
  pendingEvents : RingBuffer LinuxInputEvent maxPendingEvents
  overflowedSinceLastSync : Bool

namespace EventDevice

variable (device : EventDevice)

/-- A device that has just been registered. -/
def registered (kind : EventDeviceKind) : EventDevice where
  kind := kind
  pendingEvents := .blank (fun _ => ofCall 0 0 0) (by decide)
  overflowedSinceLastSync := false

/-- `IsInputDevice`. -/
def isInputDevice : Bool := device.kind = .mouse ∨ device.kind = .keyboard

/-- Stores an event, in a ring with a free place. -/
def pushEvent (event : LinuxInputEvent) (overflowed : Bool)
    (h : device.pendingEvents.buffered ≠ maxPendingEvents) : EventDevice :=
  { device with
    pendingEvents := device.pendingEvents.push event h
    overflowedSinceLastSync := overflowed }

theorem contents_pushEvent {event : LinuxInputEvent} {overflowed : Bool}
    (h : device.pendingEvents.buffered ≠ maxPendingEvents) :
    (device.pushEvent event overflowed h).pendingEvents.contents =
      device.pendingEvents.contents ++ [event] :=
  device.pendingEvents.contents_push event h

/-- Stores an event in a full ring, in place of the oldest one. -/
def replaceEvent (event : LinuxInputEvent) (overflowed : Bool)
    (h : maxPendingEvents ≤ device.pendingEvents.buffered) : EventDevice :=
  { device with
    pendingEvents := (device.pendingEvents.pop fun hzero => absurd h (by rw [hzero]; decide)).push
      event fun hfull => by
        have hle := device.pendingEvents.buffered_le
        have hpos : 0 < maxPendingEvents := by decide
        change device.pendingEvents.buffered - 1 = maxPendingEvents at hfull
        omega
    overflowedSinceLastSync := overflowed }

theorem contents_replaceEvent {event : LinuxInputEvent} {overflowed : Bool}
    (h : maxPendingEvents ≤ device.pendingEvents.buffered) :
    (device.replaceEvent event overflowed h).pendingEvents.contents =
      device.pendingEvents.contents.drop 1 ++ [event] := by
  have hne : device.pendingEvents.buffered ≠ 0 := fun hzero =>
    absurd h (by rw [hzero]; decide)
  rw [replaceEvent, contents_push, contents_eq_cons _ hne, List.drop_one,
    List.tail_cons]

/-- `QueueInputEvent`. The call returns true. -/
def queueInputEvent (type code : UInt16) (value : Int32) : EventDevice :=
  if device.isInputDevice ∧ device.overflowedSinceLastSync ∧
      ¬(type = linuxEvSyn ∧ code = linuxSynReport) then device
  else
    let dropped := device.isInputDevice && device.overflowedSinceLastSync
    let event := if dropped then synDropped else ofCall type code value
    let overflowed := device.overflowedSinceLastSync && !dropped
    if h : maxPendingEvents ≤ device.pendingEvents.buffered then
      device.replaceEvent event (overflowed || device.isInputDevice) h
    else device.pushEvent event overflowed (Nat.ne_of_lt (Nat.lt_of_not_le h))

/-- The device after events were read. -/
def popEvents (n : ℕ) : EventDevice :=
  { device with pendingEvents := (popMany n device.pendingEvents).2 }

/-- What a read returns: the result, the events, and the device. -/
structure ReadOutcome where
  result : ℤ
  events : List LinuxInputEvent
  device : EventDevice

/-- `ReadFileOperation`. A reader that waits for events reads those that it finds later, unless a
signal interrupts it; a call that does not wait is one with `O_NONBLOCK`. -/
def readFileOperation (nonBlocking : Bool) (count : ℕ) : ReadOutcome :=
  if count = 0 then ⟨0, [], device⟩
  else if count < linuxInputEventSize then ⟨-22, [], device⟩
  else if device.pendingEvents.buffered = 0 then ⟨if nonBlocking then -11 else -4, [], device⟩
  else
    let events := (popMany (count / linuxInputEventSize) device.pendingEvents).1
    ⟨events.length * linuxInputEventSize, events, device.popEvents (count / linuxInputEventSize)⟩

theorem readFileOperation_eq (nonBlocking : Bool) (count : ℕ) :
    ∃ result, device.readFileOperation nonBlocking count =
      ⟨result, device.pendingEvents.contents.take (count / linuxInputEventSize),
        device.popEvents (count / linuxInputEventSize)⟩ := by
  rw [readFileOperation]
  by_cases hzero : count = 0
  · rw [if_pos hzero, hzero, Nat.zero_div]
    exact ⟨_, rfl⟩
  by_cases hsmall : count < linuxInputEventSize
  · rw [if_neg hzero, if_pos hsmall, Nat.div_eq_of_lt hsmall]
    exact ⟨_, rfl⟩
  by_cases hempty : device.pendingEvents.buffered = 0
  · rw [if_neg hzero, if_neg hsmall, if_pos hempty, popEvents,
      popMany_of_empty _ hempty, device.pendingEvents.contents_eq_nil_iff.mpr hempty,
      List.take_nil]
    exact ⟨_, rfl⟩
  · rw [if_neg hzero, if_neg hsmall, if_neg hempty, ← popMany_fst]
    exact ⟨_, rfl⟩

end EventDevice

/-- A call of a driver, or a read. -/
inductive EventOperation
  | queue (type code : UInt16) (value : Int32)
  | read (nonBlocking : Bool) (count : ℕ)
  deriving DecidableEq, Repr

namespace EventOperation

/-- The event that is queued. -/
def event? : EventOperation → Option LinuxInputEvent
  | queue type code value => some (ofCall type code value)
  | read _ _ => none

/-- A packet has no other synchronization event than the one that closes it. -/
def FromDriver : EventOperation → Prop
  | queue type code _ => type = linuxEvSyn → code = linuxSynReport
  | read _ _ => True

instance : DecidablePred FromDriver
  | queue type code _ => inferInstanceAs (Decidable (type = linuxEvSyn → code = linuxSynReport))
  | read _ _ => inferInstanceAs (Decidable True)

end EventOperation

/-- A device with the events that were read from it, and the history of its events. -/
structure EventRun where
  device : EventDevice
  received : List LinuxInputEvent
  history : MarkedQueue LinuxInputEvent

namespace EventRun

variable (s : EventRun)

/-- The start of a run. -/
def start (kind : EventDeviceKind) : EventRun := ⟨.registered kind, [], .empty⟩

/-- An event is queued. -/
def queue (type code : UInt16) (value : Int32) : EventRun where
  device := s.device.queueInputEvent type code value
  received := s.received
  history := s.history.put isSynReport synDropped maxPendingEvents (ofCall type code value)

/-- Events are read. -/
def read (outcome : EventDevice.ReadOutcome) : EventRun where
  device := outcome.device
  received := s.received ++ outcome.events
  history := s.history.take outcome.events.length

/-- A step. -/
def apply : EventOperation → EventRun
  | .queue type code value => s.queue type code value
  | .read nonBlocking count => s.read (s.device.readFileOperation nonBlocking count)

/-- A run. -/
def run (s : EventRun) (operations : List EventOperation) : EventRun :=
  operations.foldl apply s

/-- The event of a call is dropped itself, or has a free place, or the oldest event belongs to a
packet whose `SYN_DROPPED` is pending, or to the packet of the call, and this will end with a
`SYN_DROPPED`. -/
def Admitted (s : EventRun) : EventOperation → Prop
  | .queue type code value =>
    MarkedQueue.Admits isSynReport synDropped maxPendingEvents s.device.pendingEvents.contents
      s.device.overflowedSinceLastSync (ofCall type code value)
  | .read _ _ => True

/-- Every call of a run is admitted. -/
def AllAdmitted (s : EventRun) : List EventOperation → Prop
  | [] => True
  | operation :: operations =>
    s.Admitted operation ∧ AllAdmitted (s.apply operation) operations

/-- The ring describes the queued events; events are received in order and at most once; what is
received up to a `SYN_REPORT` is a packet that was queued, or has a `SYN_DROPPED`; a packet of which
an event was discarded has a `SYN_DROPPED` no later than at its end. -/
structure Delivers : Prop where
  queued : s.device.pendingEvents.contents = s.history.queued.map Prod.snd
  received : s.received = s.history.taken.map Prod.snd
  accounted : s.history.Accounted isSynReport synDropped
  whole : MarkedQueue.PacketsWhole isSynReport synDropped s.received s.history.elements
  marked : s.history.LossMarked isSynReport synDropped

/-- The history tells what the device and its reader have. -/
structure Refines : Prop where
  isInputDevice : s.device.isInputDevice = true
  queued : s.device.pendingEvents.contents = s.history.queued.map Prod.snd
  overflowed : s.device.overflowedSinceLastSync = s.history.overflowed
  received : s.received = s.history.taken.map Prod.snd

variable {s} {type code : UInt16} {value : Int32}

theorem isSynReport_ofCall_iff : isSynReport (ofCall type code value) = true ↔
    type = linuxEvSyn ∧ code = linuxSynReport := decide_eq_true_iff

theorem isSynReport_synDropped : isSynReport synDropped = false := rfl

namespace Refines

theorem start {kind : EventDeviceKind} (hkind : kind ≠ .generic) : Refines (start kind) where
  isInputDevice := by cases kind <;> simp_all [EventRun.start, EventDevice.registered,
    EventDevice.isInputDevice]
  queued := rfl
  overflowed := rfl
  received := rfl

theorem queue (h : s.Refines) : (s.queue type code value).Refines := by
  have hlength : s.device.pendingEvents.buffered = s.history.queued.length := by
    rw [← length_contents, h.queued, List.length_map]
  have hskip : (s.device.isInputDevice = true ∧ s.device.overflowedSinceLastSync = true ∧
      ¬(type = linuxEvSyn ∧ code = linuxSynReport)) ↔
      s.history.overflowed = true ∧ isSynReport (ofCall type code value) = false := by
    rw [← h.overflowed, ← @isSynReport_ofCall_iff type code value, Bool.not_eq_true]
    exact and_iff_right h.isInputDevice
  have hdropped : (s.device.isInputDevice && s.device.overflowedSinceLastSync) =
      s.history.overflowed := by
    rw [h.isInputDevice, Bool.true_and, h.overflowed]
  have hkept : (s.device.overflowedSinceLastSync && !s.history.overflowed) = false := by
    rw [h.overflowed, Bool.and_not_self]
  rw [EventRun.queue, EventDevice.queueInputEvent, MarkedQueue.put]
  by_cases hskipped : s.history.overflowed = true ∧ isSynReport (ofCall type code value) = false
  · rw [if_pos (hskip.mpr hskipped), if_pos hskipped]
    exact ⟨h.isInputDevice, h.queued, h.overflowed, h.received⟩
  rw [if_neg (mt hskip.mp hskipped), if_neg hskipped, hdropped]
  dsimp only
  rw [hkept]
  by_cases hfull : maxPendingEvents ≤ s.device.pendingEvents.buffered
  · have hfull' : maxPendingEvents ≤ s.history.queued.length := hlength ▸ hfull
    rw [dif_pos hfull, if_pos hfull']
    refine ⟨h.isInputDevice, ?_, h.isInputDevice, h.received⟩
    refine (s.device.contents_replaceEvent hfull).trans ?_
    change _ = (s.history.queued.drop 1 ++ [(s.history.elements.length, _)]).map Prod.snd
    rw [h.queued, List.map_append, List.map_drop]
    rfl
  · have hfull' : ¬maxPendingEvents ≤ s.history.queued.length := hlength ▸ hfull
    rw [dif_neg hfull, if_neg hfull']
    refine ⟨h.isInputDevice, ?_, rfl, h.received⟩
    refine (s.device.contents_pushEvent (Nat.ne_of_lt (Nat.lt_of_not_le hfull))).trans ?_
    change _ = (s.history.queued ++ [(s.history.elements.length, _)]).map Prod.snd
    rw [h.queued, List.map_append]
    rfl

/-- What a read returns is what it takes from the ring. -/
theorem read (h : s.Refines) {nonBlocking : Bool} {count : ℕ} :
    (s.read (s.device.readFileOperation nonBlocking count)).Refines := by
  obtain ⟨result, hread⟩ := s.device.readFileOperation_eq nonBlocking count
  rw [hread, EventRun.read, h.queued, List.length_take, List.length_map, ← List.map_take]
  refine ⟨h.isInputDevice, (contents_popMany ..).trans ?_, h.overflowed, ?_⟩
  · rw [h.queued, ← List.map_drop]
    exact congrArg _ List.drop_eq_drop_min
  · rw [h.received, List.take_eq_take_min]
    exact (List.map_append ..).symm

theorem apply (h : s.Refines) (operation : EventOperation) : (s.apply operation).Refines := by
  cases operation with
  | queue type code value => exact h.queue
  | read nonBlocking count => exact h.read

theorem run (h : s.Refines) (operations : List EventOperation) : (s.run operations).Refines := by
  induction operations generalizing s with
  | nil => exact h
  | cons operation operations ih => exact ih (h.apply operation)

end Refines

/-- Every state of an admitted run has a history that fits together. -/
theorem consistent_run {operations : List EventOperation} (h : s.Refines)
    (hconsistent : s.history.Consistent isSynReport synDropped)
    (hdriver : ∀ operation ∈ operations, operation.FromDriver)
    (hadmitted : s.AllAdmitted operations) :
    (s.run operations).Refines ∧
      (s.run operations).history.Consistent isSynReport synDropped := by
  induction operations generalizing s with
  | nil => exact ⟨h, hconsistent⟩
  | cons operation operations ih =>
    refine ih (h.apply operation) ?_
      (fun other hmem => hdriver other (List.mem_cons_of_mem _ hmem)) hadmitted.2
    cases operation with
    | queue type code value =>
      have hdropped : ofCall type code value ≠ synDropped := fun heq => by
        have hcode := hdriver _ (List.mem_cons_self ..) (congrArg LinuxInputEvent.type heq)
        exact absurd (hcode.symm.trans (congrArg LinuxInputEvent.code heq)) (by decide)
      have hqueue := hadmitted.1
      rw [Admitted, h.queued, h.overflowed] at hqueue
      exact hconsistent.put (by decide) hdropped hqueue
    | read nonBlocking count => exact hconsistent.take _

theorem elements_apply (operation : EventOperation) :
    (s.apply operation).history.elements = s.history.elements ++ operation.event?.toList := by
  cases operation with
  | queue type code value =>
    change (s.history.put ..).elements = _
    rw [MarkedQueue.put]
    split_ifs <;> rfl
  | read nonBlocking count => exact (List.append_nil _).symm

/-- The history has the calls of the drivers. -/
theorem elements_run (operations : List EventOperation) : (s.run operations).history.elements =
    s.history.elements ++ operations.filterMap EventOperation.event? := by
  induction operations generalizing s with
  | nil => exact (List.append_nil _).symm
  | cons operation operations ih =>
    have hhead : (operation :: operations).filterMap EventOperation.event? =
        operation.event?.toList ++ operations.filterMap EventOperation.event? := by
      cases hevent : operation.event? <;> simp [hevent]
    refine ih.trans ?_
    rw [elements_apply, hhead, List.append_assoc]

/-- In a run of which every call is admitted the events are received in order and at most once, and
a packet that has lost an event has a `SYN_DROPPED` no later than at its end. -/
theorem delivers_run {kind : EventDeviceKind} (hkind : kind ≠ .generic)
    {operations : List EventOperation} (hdriver : ∀ operation ∈ operations, operation.FromDriver)
    (hadmitted : (start kind).AllAdmitted operations) :
    ((start kind).run operations).Delivers ∧
      ((start kind).run operations).history.elements =
        operations.filterMap EventOperation.event? := by
  obtain ⟨hrefines, hconsistent⟩ := consistent_run (.start hkind) .empty hdriver hadmitted
  refine ⟨⟨hrefines.queued, hrefines.received, hconsistent.toAccounted, ?_,
    hconsistent.lossMarked isSynReport_synDropped⟩, elements_run operations⟩
  rw [hrefines.received]
  exact hconsistent.packetsWhole isSynReport_synDropped

/-! ### Overflows -/

/-- What is pending, and whether an event was dropped since the last `SYN_REPORT`. -/
structure Pending (s : EventRun) (events : List LinuxInputEvent) (flag : Bool) : Prop extends
    s.Refines where
  events : s.history.queued.map Prod.snd = events
  flag : s.history.overflowed = flag

variable {event : LinuxInputEvent} {events : List LinuxInputEvent} {flag : Bool}

theorem Pending.admitted (h : s.Pending events flag)
    (hadmits : MarkedQueue.Admits isSynReport synDropped maxPendingEvents events flag
      (ofCall type code value)) : s.Admitted (.queue type code value) := by
  rwa [Admitted, h.queued, h.events, h.overflowed, h.flag]

/-- A call is dropped itself. -/
theorem Pending.skip (h : s.Pending events true) (type code : UInt16) (value : Int32)
    (hinner : isSynReport (ofCall type code value) = false) :
    (s.queue type code value).Pending events true := by
  have hput : (s.queue type code value).history = s.history.skip (ofCall type code value) :=
    if_pos ⟨h.flag, hinner⟩
  exact ⟨h.queue, by rw [hput]; exact h.events, by rw [hput]; exact h.flag⟩

/-- A call drops the oldest event. -/
theorem Pending.replace (h : s.Pending (event :: events) flag) (type code : UInt16) (value : Int32)
    (hfull : events.length + 1 = maxPendingEvents)
    (hkept : flag = true → isSynReport (ofCall type code value) = true) :
    (s.queue type code value).Pending
      (events ++ [if flag then synDropped else ofCall type code value]) true := by
  have hlength := congrArg List.length h.events
  rw [List.length_map, List.length_cons, hfull] at hlength
  have hput : (s.queue type code value).history = s.history.discard.append (ofCall type code value)
      (if flag then synDropped else ofCall type code value) true := by
    rw [queue, MarkedQueue.put, h.flag, if_neg fun hskip => by simp [hkept hskip.1] at hskip,
      if_pos hlength.ge]
  refine ⟨h.queue, ?_, by rw [hput]; rfl⟩
  rw [hput, MarkedQueue.append, MarkedQueue.discard, List.map_append, List.map_drop, h.events]
  rfl

/-- Calls that find a free place. -/
theorem Pending.fill (h : s.Pending events false) (type code : UInt16) (value : Int32) (n : ℕ)
    (hplace : events.length + n ≤ maxPendingEvents) :
    let keys := List.replicate n (EventOperation.queue type code value)
    s.AllAdmitted keys ∧
      (s.run keys).Pending (events ++ List.replicate n (ofCall type code value)) false := by
  induction n generalizing s events with
  | zero => exact ⟨trivial, (List.append_nil events).symm ▸ h⟩
  | succ n ih =>
    have hlength := congrArg List.length h.events
    rw [List.length_map] at hlength
    have hput : (s.queue type code value).history = s.history.append _ _ false :=
      MarkedQueue.put_of_lt h.flag (by omega)
    have hnext : (s.queue type code value).Pending (events ++ [ofCall type code value]) false :=
      ⟨h.queue, by rw [hput, MarkedQueue.append, List.map_append, h.events]; rfl, by rw [hput]; rfl⟩
    obtain ⟨hadmitted, hrun⟩ := ih hnext (by rw [List.length_append, List.length_singleton]; omega)
    rw [List.append_assoc] at hrun
    exact ⟨⟨h.admitted (.inr (.inl (by omega))), hadmitted⟩, hrun⟩

theorem allAdmitted_append {first second : List EventOperation} :
    s.AllAdmitted (first ++ second) ↔ s.AllAdmitted first ∧ (s.run first).AllAdmitted second := by
  induction first generalizing s with
  | nil => exact (and_iff_right trivial).symm
  | cons operation first ih => exact (and_congr_right fun _ => ih).trans and_assoc.symm

/-- A packet with one key more than the queue has place for, another packet, and a read. -/
def longPackets : List EventOperation :=
  List.replicate 1024 (.queue 1 30 1) ++
    [.queue 1 30 1, .queue 0 0 0, .queue 1 30 1, .queue 0 0 0, .read true 48]

theorem delivers_longPackets :
    ((start .keyboard).run longPackets).Delivers ∧
      ((start .keyboard).run longPackets).history.elements =
        longPackets.filterMap EventOperation.event? := by
  refine delivers_run (by decide) (by decide +kernel) ?_
  have hinner : ∀ n, ∀ b ∈ List.replicate n (ofCall 1 30 1),
      MarkedQueue.Inner isSynReport synDropped b := fun n b hb => by
    rw [List.eq_of_mem_replicate hb]
    exact ⟨by decide, by decide⟩
  obtain ⟨hadmitted, hfull⟩ := (show (start .keyboard).Pending [] false from
    ⟨.start (by decide), rfl, rfl⟩).fill 1 30 1 1024 (by decide)
  rw [longPackets, allAdmitted_append, and_iff_right hadmitted]
  have hdropped := hfull.replace 1 30 1 (by rw [List.length_replicate]; rfl) (by decide)
  rw [if_neg (by decide), ← List.replicate_succ'] at hdropped
  have hmarked := hdropped.replace 0 0 0 (by rw [List.length_replicate]; rfl) (by decide)
  have hskipped := hmarked.skip 1 30 1 (by decide)
  exact ⟨hfull.admitted (.inr (.inr (.inl ⟨hinner 1024, by decide⟩))),
    hdropped.admitted (.inr (.inr (.inl ⟨hinner 1024, fun _ => rfl⟩))),
    hmarked.admitted (.inl ⟨rfl, by decide⟩),
    hskipped.admitted (.inr (.inr (.inr ⟨_, List.replicate 1022 _, [], rfl, hinner 1023⟩))),
    trivial, trivial⟩

/-- A run of calls that queue events, in the history. -/
theorem history_run {operations : List EventOperation}
    (hqueue : ∀ operation ∈ operations, operation.event?.isSome) :
    (s.run operations).history = (operations.filterMap EventOperation.event?).foldl
      (fun q event => q.put isSynReport synDropped maxPendingEvents event) s.history := by
  induction operations generalizing s with
  | nil => rfl
  | cons operation operations ih =>
    have hrest := ih (s := s.apply operation) fun other hmem =>
      hqueue other (List.mem_cons_of_mem _ hmem)
    cases operation with
    | queue type code value => exact hrest
    | read nonBlocking count => exact absurd (hqueue _ (List.mem_cons_self ..)) Bool.false_ne_true

/-- A key, and the end of its packet. -/
def keyPacket : List EventOperation := [.queue 1 30 1, .queue 0 0 0]

/-- Packets that fill the queue. -/
def fillingPackets : List EventOperation := (List.replicate 512 keyPacket).flatten

/-- The history when the queue is full. -/
theorem history_fillingPackets : ∃ elements rest,
    ((start .keyboard).run fillingPackets).history =
        ⟨ofCall 1 30 1 :: elements, (0, ofCall 1 30 1) :: (1, ofCall 0 0 0) :: rest, [], [], false⟩ ∧
      rest.length + 2 = maxPendingEvents := by
  obtain ⟨elements, hevents⟩ : ∃ elements, fillingPackets.filterMap EventOperation.event? =
      ofCall 1 30 1 :: ofCall 0 0 0 :: elements := ⟨_, rfl⟩
  have hlength : elements.length + 2 = maxPendingEvents := by
    have h := congrArg List.length hevents
    rw [List.length_cons, List.length_cons] at h
    rw [← h]
    decide +kernel
  refine ⟨ofCall 0 0 0 :: elements, (elements.zipIdx 2).map Prod.swap, ?_, ?_⟩
  · have hplace : ([] : List (ℕ × LinuxInputEvent)).length +
        (ofCall 1 30 1 :: ofCall 0 0 0 :: elements).length ≤ maxPendingEvents := by
      rw [List.length_cons, List.length_cons, List.length_nil, Nat.zero_add, hlength]
    rw [history_run (by decide +kernel), hevents, MarkedQueue.foldl_put_of_le rfl hplace]
    rfl
  · rw [List.length_map, List.length_zipIdx]
    exact hlength

/-- A full queue whose oldest event is a key drops this key for another one. The reader gets the end
of its packet. -/
theorem not_delivers_of_full (h : s.Refines) {elements : List LinuxInputEvent}
    {rest : List (ℕ × LinuxInputEvent)} (hhistory : s.history = ⟨ofCall 1 30 1 :: elements,
      (0, ofCall 1 30 1) :: (1, ofCall 0 0 0) :: rest, [], [], false⟩)
    (hlength : rest.length + 2 = maxPendingEvents) :
    ¬(s.run [.queue 1 30 1, .read true 24]).Delivers := by
  intro hdelivers
  have hput : (s.queue 1 30 1).history = ⟨ofCall 1 30 1 :: elements ++ [ofCall 1 30 1],
      (1, ofCall 0 0 0) :: rest ++ [((ofCall 1 30 1 :: elements).length, ofCall 1 30 1)], [], [0],
      true⟩ := by
    rw [queue, hhistory, MarkedQueue.put, if_neg fun hskip => Bool.false_ne_true hskip.1,
      if_pos (by rw [List.length_cons, List.length_cons, hlength])]
    rfl
  obtain ⟨result, hread⟩ := (s.queue 1 30 1).device.readFileOperation_eq true 24
  have hqueued : (s.queue 1 30 1).Refines := h.queue
  rw [hqueued.queued, hput] at hread
  change ((s.queue 1 30 1).read ((s.queue 1 30 1).device.readFileOperation true 24)).Delivers
    at hdelivers
  have hmarked := hdelivers.marked
  rw [hread, read, hput] at hmarked
  obtain ⟨m, hm, -⟩ := hmarked 0 (List.mem_singleton_self 0) [] (1, ofCall 0 0 0) [] rfl
    (.inr ⟨rfl, rfl⟩)
  exact List.not_mem_nil hm

/-- One more key than the queue has place for. -/
theorem not_delivers_fillingPackets :
    ¬((start .keyboard).run (fillingPackets ++ [.queue 1 30 1, .read true 24])).Delivers := by
  obtain ⟨elements, rest, hhistory, hlength⟩ := history_fillingPackets
  rw [run, List.foldl_append]
  exact not_delivers_of_full ((Refines.start (by decide)).run fillingPackets) hhistory hlength

end EventRun

end TwistedOS
