import TwistedOS.Epoll.EventQueues

/-!
# The epoll system calls

`epoll_create1`, `epoll_ctl` and `epoll_wait`, and the calls that make, copy and close descriptors,
of `TranslationLayer.cpp`; the parts of `CopyProcess` and `KillProcess` of `LogicLayer.cpp` that
concern files and event queues. The calls are those of the process `p`, and fail with `efault` if
there is no such process.

`HandleCloseSystemCall` removes the event queue and the watches of a descriptor. The descriptors
that `execve` closes, and those of a process that dies, are only deleted.

## Main definitions

* `evaluateReadyEvents`, `waitForEvents`: the evaluation of the watches and the wait for an event.
* `EpollState`, with `handleEpollCreate1`, `handleEpollCtl`, `handleEpollWait`, `handleClose`,
  `handleDup2`, `duplicateFromMinimum`, `handleExecve`, `copyProcess` and `killProcess`.
* `EpollCall`, `EpollState.run`.
-/

namespace TwistedOS

open Function

/-- `SYSCALL_IOV_MAX`. -/
def syscallIovMax : ℤ := 1024

/-- `LINUX_EPOLLIN` and `LINUX_POLLIN`. -/
def epollIn : UInt32 := 0x1

/-- `LINUX_EPOLLOUT` and `LINUX_POLLOUT`. -/
def epollOut : UInt32 := 0x4

/-- `LINUX_EPOLLERR` and `LINUX_POLLERR`. -/
def epollErr : UInt32 := 0x8

/-- `LINUX_EPOLLHUP` and `LINUX_POLLHUP`. -/
def epollHup : UInt32 := 0x10

/-- `LINUX_EPOLL_SUPPORTED_EVENTS`. -/
def epollSupportedEvents : UInt32 :=
  epollIn ||| epollOut ||| epollErr ||| epollHup ||| 0x2000 ||| 0xF0000000

/-- `LINUX_EPOLL_CLOEXEC`. -/
def epollCloexec : UInt64 := 0x80000

/-- `LinuxEpollEvent`. -/
structure EpollEvent where
  events : UInt32
  data : UInt64
  deriving DecidableEq, Repr

/-- What a node answers when it is polled: its operation `Poll`, or what the kernel finds in the
node if it has none. -/
inductive NodePoll
  | operation (poll : OpenDescriptor → UInt32 → Except ℤ UInt32)
  | terminal (bufferedInputBytes : ℕ)
  | directory
  | other

/-- The bits of a mask that are kept. -/
def keepBit (events bit : UInt32) : UInt32 := if events &&& bit ≠ 0 then bit else 0

/-- `PollRequestedEvents`. -/
def pollRequestedEvents (events : UInt32) : UInt32 :=
  keepBit events epollIn ||| keepBit events epollOut

/-- `Revents` for what the operation `Poll` returns. -/
def eventsOfPoll (returned : UInt32) : UInt32 :=
  keepBit returned epollIn ||| keepBit returned epollOut ||| keepBit returned epollErr |||
    keepBit returned epollHup

/-- A node without the operation `Poll` can be written to unless the file is only for reading. -/
def writableEvents (file : OpenDescriptor) (events : UInt32) : UInt32 :=
  if file.accessFlags ≠ .read then keepBit events epollOut else 0

/-- `Revents`. -/
def NodePoll.revents (node : NodePoll) (file : OpenDescriptor) (events : UInt32) :
    Except EpollError UInt32 :=
  match node with
  | .operation poll =>
    match poll file (pollRequestedEvents events) with
    | .error code => .error (.fileError code)
    | .ok returned => .ok (eventsOfPoll returned)
  | .terminal bufferedInputBytes =>
    .ok ((if 0 < bufferedInputBytes then keepBit events epollIn else 0) |||
      writableEvents file events)
  | .directory => .ok (writableEvents file events)
  | .other => .ok (keepBit events epollIn ||| writableEvents file events)

/-- What an evaluation of the watches finds: the answers of the nodes, and whether an event can be
copied to a place of the array. -/
structure Observation where
  nodes : ℕ → NodePoll
  writable : ℕ → Bool := fun _ => true

/-- The results of an evaluation, with a watch that stays before them. -/
def keepWatch (watch : EpollWatchTag)
    (r : List EpollWatchTag × Except EpollError (List EpollEvent)) :
    List EpollWatchTag × Except EpollError (List EpollEvent) :=
  (watch :: r.1, r.2)

/-- The results of an evaluation, with an event before them. -/
def reportEvent (event : EpollEvent)
    (r : List EpollWatchTag × Except EpollError (List EpollEvent)) :
    List EpollWatchTag × Except EpollError (List EpollEvent) :=
  (r.1, r.2.map fun events => event :: events)

/-- `EvaluateReadyEvents`, from a place of the array on: the watches afterwards, and the events. -/
def evaluateReadyEvents (observation : Observation) (table : FileTable) (maxEvents : ℕ) :
    ℕ → List EpollWatchTag → List EpollWatchTag × Except EpollError (List EpollEvent)
  | _, [] => ([], .ok [])
  | readyCount, watch :: rest =>
    if maxEvents ≤ readyCount then (watch :: rest, .ok [])
    else if maxOpenFilesPerProcess ≤ watch.fileDescriptor then
      evaluateReadyEvents observation table maxEvents readyCount rest
    else
      match table watch.fileDescriptor with
      | none => evaluateReadyEvents observation table maxEvents readyCount rest
      | some file =>
        match (observation.nodes file.node).revents file watch.events with
        | .error error => (watch :: rest, .error error)
        | .ok revents =>
          if revents &&& watch.events ≠ 0 ∨ revents &&& (epollErr ||| epollHup) ≠ 0 then
            if !observation.writable readyCount then (watch :: rest, .error .efault)
            else
              keepWatch watch (reportEvent
                ⟨revents &&& (watch.events ||| epollErr ||| epollHup), watch.userData⟩
                (evaluateReadyEvents observation table maxEvents (readyCount + 1) rest))
          else keepWatch watch (evaluateReadyEvents observation table maxEvents readyCount rest)

/-- How a process that waits is woken. -/
structure Wakeup where
  interruptedBySignal : Bool
  observation : Observation

/-- The loops of `HandleEpollWaitSystemCall`: the watches afterwards, and the events, or `none` if
the process is still asleep after the wake-ups. -/
def waitForEvents (table : FileTable) (maxEvents : ℕ) (timeoutMilliseconds : ℤ) :
    ℤ → List Wakeup → List EpollWatchTag →
      List EpollWatchTag × Option (Except EpollError (List EpollEvent))
  | remainingMilliseconds, wakeups, watches =>
    if 0 ≤ timeoutMilliseconds ∧ remainingMilliseconds ≤ 0 then (watches, some (.ok []))
    else
      match wakeups with
      | [] => (watches, none)
      | wakeup :: rest =>
        if wakeup.interruptedBySignal then (watches, some (.error .eintr))
        else
          match evaluateReadyEvents wakeup.observation table maxEvents 0 watches with
          | (kept, .ok []) =>
            waitForEvents table maxEvents timeoutMilliseconds (remainingMilliseconds - 10) rest kept
          | (kept, result) => (kept, some result)

/-- How a copy of a file for another descriptor ends. -/
inductive CopyOutcome
  | copied
  | noMemory
  /-- `DuplicatePipeDescriptor` returns an error. -/
  | pipeError (code : ℤ)
  deriving DecidableEq, Repr

/-- How a fork ends. -/
inductive ForkOutcome
  /-- No child is made. -/
  | refused
  /-- The child is killed when only the descriptors below a number have been copied. -/
  | killed (copiedDescriptors : ℕ)
  /-- All descriptors are copied, and there is memory for this number of event queues. -/
  | copied (queueMemory : ℕ)
  deriving DecidableEq, Repr

namespace EpollState

variable (s : EpollState)

/-! ### Descriptors -/

/-- The descriptors from a number on. -/
def descriptorsFrom (minimum : ℕ) : List ℕ :=
  (List.range maxOpenFilesPerProcess).filter fun fileDescriptor => minimum ≤ fileDescriptor

/-- Replaces the file of a descriptor. -/
def setDescriptor (p : ℕ) (table : FileTable) (fileDescriptor : ℕ) (file : Option OpenDescriptor) :
    EpollState :=
  s.setTable p (some (update table fileDescriptor file))

/-- The number of the next file is taken. -/
def takeDescription : EpollState := { s with nextDescription := s.nextDescription + 1 }

/-- `AllocateProcessFileDescriptor`. -/
def handleOpen (p node : ℕ) (accessFlags : FileFlags) (closeOnExec allocated : Bool) :
    Except EpollError ℕ × EpollState :=
  match s.fileTables p with
  | none => (.error .efault, s)
  | some table =>
    match (descriptorsFrom 0).find? fun fileDescriptor => (table fileDescriptor).isNone with
    | none => (.error .emfile, s)
    | some fileDescriptor =>
      if !allocated then (.error .enomem, s)
      else
        (.ok fileDescriptor, (s.setDescriptor p table fileDescriptor
          (some ⟨node, accessFlags, closeOnExec, s.nextDescription⟩)).takeDescription)

/-- `HandleCloseSystemCall`. -/
def handleClose (p fileDescriptor : ℕ) : Except EpollError Unit × EpollState :=
  match s.fileTables p with
  | none => (.error .efault, s)
  | some table =>
    if maxOpenFilesPerProcess ≤ fileDescriptor then (.error .ebadf, s)
    else
      match table fileDescriptor with
      | none => (.error .ebadf, s)
      | some _ =>
        (.ok (), ((s.removeEventQueue p fileDescriptor).removeWatchesForFile p
          fileDescriptor).setDescriptor p table fileDescriptor none)

/-- Puts a copy of a file at a descriptor that is not in use. -/
def copyDescriptor (p : ℕ) (table : FileTable) (source : OpenDescriptor) (fileDescriptor : ℕ)
    (closeOnExec : Bool) : CopyOutcome → Except EpollError ℕ × EpollState
  | .noMemory => (.error .enomem, s)
  | .pipeError code => (.error (.fileError code), s.setDescriptor p table fileDescriptor none)
  | .copied =>
    (.ok fileDescriptor, s.setDescriptor p table fileDescriptor
      (some { source with closeOnExec := closeOnExec }))

/-- `HandleDup2SystemCall`. -/
def handleDup2 (p oldFileDescriptor newFileDescriptor : ℕ) (outcome : CopyOutcome) :
    Except EpollError ℕ × EpollState :=
  match s.fileTables p with
  | none => (.error .efault, s)
  | some table =>
    if maxOpenFilesPerProcess ≤ oldFileDescriptor ∨ maxOpenFilesPerProcess ≤ newFileDescriptor then
      (.error .ebadf, s)
    else
      match table oldFileDescriptor with
      | none => (.error .ebadf, s)
      | some source =>
        if oldFileDescriptor = newFileDescriptor then (.ok newFileDescriptor, s)
        else if (table newFileDescriptor).isSome then
          (s.handleClose p newFileDescriptor).2.copyDescriptor p
            (update table newFileDescriptor none) source newFileDescriptor false outcome
        else s.copyDescriptor p table source newFileDescriptor false outcome

/-- `DuplicateFromMinimum`, for `LINUX_F_DUPFD` and `LINUX_F_DUPFD_CLOEXEC`. -/
def duplicateFromMinimum (p fileDescriptor minimumFileDescriptor : ℕ) (setCloseOnExec : Bool)
    (outcome : CopyOutcome) : Except EpollError ℕ × EpollState :=
  match s.fileTables p with
  | none => (.error .efault, s)
  | some table =>
    if maxOpenFilesPerProcess ≤ fileDescriptor then (.error .ebadf, s)
    else
      match table fileDescriptor with
      | none => (.error .ebadf, s)
      | some source =>
        if maxOpenFilesPerProcess ≤ minimumFileDescriptor then (.error .einval, s)
        else
          match (descriptorsFrom minimumFileDescriptor).find? fun candidate =>
              (table candidate).isNone with
          | none => (.error .emfile, s)
          | some candidate => s.copyDescriptor p table source candidate setCloseOnExec outcome

/-! ### Event queues -/

/-- Makes an event queue and its file at the first of the descriptors that is free and has none.
`memory` says for a descriptor whether there is memory for the file and for the queue. -/
def createAt (p : ℕ) (table : FileTable) (flags : UInt64) (memory : ℕ → Bool × Bool) :
    List ℕ → Except EpollError ℕ × EpollState
  | [] => (.error .emfile, s)
  | fileDescriptor :: rest =>
    if (table fileDescriptor).isSome ∨ s.hasEventQueue p fileDescriptor then
      createAt p table flags memory rest
    else if !(memory fileDescriptor).1 then (.error .enomem, s)
    else
      match s.createEventQueue p fileDescriptor flags (memory fileDescriptor).2 with
      | (false, _) => createAt p table flags memory rest
      | (true, s') =>
        (.ok fileDescriptor, (s'.setDescriptor p table fileDescriptor
          (some ⟨s.nextNode, .readWrite, flags &&& epollCloexec ≠ 0,
            s.nextDescription⟩)).takeDescription)

/-- `HandleEpollCreate1SystemCall`. -/
def handleEpollCreate1 (p : ℕ) (flags : UInt64) (memory : ℕ → Bool × Bool) :
    Except EpollError ℕ × EpollState :=
  match s.fileTables p with
  | none => (.error .efault, s)
  | some table =>
    if flags &&& ~~~epollCloexec ≠ 0 then (.error .einval, s)
    else s.createAt p table flags memory (descriptorsFrom 0)

/-- `HandleEpollCtlSystemCall`; the event is `none` where it cannot be read. -/
def handleEpollCtl (p epollFileDescriptor : ℕ) (operation : ℤ) (targetFileDescriptor : ℕ)
    (event : Option EpollEvent) (allocated : Bool) : Except EpollError Unit × EpollState :=
  match s.fileTables p with
  | none => (.error .efault, s)
  | some table =>
    if maxOpenFilesPerProcess ≤ epollFileDescriptor ∨
        maxOpenFilesPerProcess ≤ targetFileDescriptor then
      (.error .ebadf, s)
    else if (table epollFileDescriptor).isNone then (.error .ebadf, s)
    else if !s.hasEventQueue p epollFileDescriptor then (.error .einval, s)
    else
      match table targetFileDescriptor with
      | none => (.error .ebadf, s)
      | some target =>
        if operation = 2 then
          s.controlEventQueue p epollFileDescriptor .del targetFileDescriptor target 0 0 allocated
        else
          match event with
          | none => (.error .efault, s)
          | some event =>
            if event.events &&& ~~~epollSupportedEvents ≠ 0 then (.error .einval, s)
            else
              s.controlEventQueue p epollFileDescriptor (.ofInt64 operation) targetFileDescriptor
                target event.events event.data allocated

/-- `HandleEpollWaitSystemCall`. `events` is the address of the array, `first` is what the first
evaluation finds, and the result is `none` when the process is still asleep. -/
def handleEpollWait (p epollFileDescriptor events : ℕ) (maxEvents timeoutMilliseconds : ℤ)
    (first : Observation) (wakeups : List Wakeup) :
    Option (Except EpollError (List EpollEvent)) × EpollState :=
  if events = 0 then (some (.error .efault), s)
  else if maxEvents ≤ 0 ∨ syscallIovMax < maxEvents then (some (.error .einval), s)
  else
    match s.fileTables p with
    | none => (some (.error .efault), s)
    | some table =>
      if maxOpenFilesPerProcess ≤ epollFileDescriptor then (some (.error .ebadf), s)
      else if (table epollFileDescriptor).isNone then (some (.error .ebadf), s)
      else
        match s.findEventQueue p epollFileDescriptor with
        | none => (some (.error .einval), s)
        | some queue =>
          match evaluateReadyEvents first table maxEvents.toNat 0 queue.watches with
          | (kept, .ok []) =>
            match waitForEvents table maxEvents.toNat timeoutMilliseconds timeoutMilliseconds
              wakeups kept with
            | (kept, result) => (result, s.setWatches p epollFileDescriptor kept)
          | (kept, result) => (some result, s.setWatches p epollFileDescriptor kept)

/-! ### Processes -/

/-- A process without files is made. -/
def createProcess (p : ℕ) : EpollState :=
  if (s.fileTables p).isSome then s else s.setTable p (some fun _ => none)

/-- The part of `KillProcess` that concerns files. -/
def killProcess (p : ℕ) : EpollState := s.setTable p none

/-- The file table after `execve`. -/
def closeOnExec (table : FileTable) : FileTable :=
  fun fileDescriptor => (table fileDescriptor).filter fun file => !file.closeOnExec

/-- The part of `HandleExecveSystemCall` that concerns files. -/
def handleExecve (p : ℕ) (succeeds : Bool) : EpollState :=
  match s.fileTables p with
  | none => s
  | some table => if succeeds then s.setTable p (some (closeOnExec table)) else s

/-- The descriptors below a number. -/
def copyDescriptors (table : FileTable) (count : ℕ) : FileTable :=
  fun fileDescriptor => if fileDescriptor < count then table fileDescriptor else none

/-- The part of `CopyProcess` that concerns files and event queues. -/
def copyProcess (p child : ℕ) (outcome : ForkOutcome) : Bool × EpollState :=
  match s.fileTables p, s.fileTables child with
  | some table, none =>
    match outcome with
    | .refused => (false, s)
    | .killed count =>
      (false, (s.setTable child (some (copyDescriptors table count))).killProcess child)
    | .copied memory =>
      match (s.setTable child (some table)).duplicateEventQueues p child memory with
      | (true, s') => (true, s')
      | (false, s') => (false, s'.killProcess child)
  | _, _ => (false, s)

end EpollState

/-- A call that concerns files and event queues. -/
inductive EpollCall
  | openFile (p node : ℕ) (accessFlags : FileFlags) (closeOnExec allocated : Bool)
  | close (p fileDescriptor : ℕ)
  | dup2 (p oldFileDescriptor newFileDescriptor : ℕ) (outcome : CopyOutcome)
  | duplicateFromMinimum (p fileDescriptor minimumFileDescriptor : ℕ) (setCloseOnExec : Bool)
    (outcome : CopyOutcome)
  | epollCreate1 (p : ℕ) (flags : UInt64) (memory : ℕ → Bool × Bool)
  | epollCtl (p epollFileDescriptor : ℕ) (operation : ℤ) (targetFileDescriptor : ℕ)
    (event : Option EpollEvent) (allocated : Bool)
  | epollWait (p epollFileDescriptor events : ℕ) (maxEvents timeoutMilliseconds : ℤ)
    (first : Observation) (wakeups : List Wakeup)
  | createProcess (p : ℕ)
  | execve (p : ℕ) (succeeds : Bool)
  | fork (p child : ℕ) (outcome : ForkOutcome)
  | killProcess (p : ℕ)

namespace EpollState

/-- The state after a call. -/
def run (s : EpollState) : EpollCall → EpollState
  | .openFile p node accessFlags closeOnExec allocated =>
    (s.handleOpen p node accessFlags closeOnExec allocated).2
  | .close p fileDescriptor => (s.handleClose p fileDescriptor).2
  | .dup2 p oldFileDescriptor newFileDescriptor outcome =>
    (s.handleDup2 p oldFileDescriptor newFileDescriptor outcome).2
  | .duplicateFromMinimum p fileDescriptor minimumFileDescriptor setCloseOnExec outcome =>
    (s.duplicateFromMinimum p fileDescriptor minimumFileDescriptor setCloseOnExec outcome).2
  | .epollCreate1 p flags memory => (s.handleEpollCreate1 p flags memory).2
  | .epollCtl p epollFileDescriptor operation targetFileDescriptor event allocated =>
    (s.handleEpollCtl p epollFileDescriptor operation targetFileDescriptor event allocated).2
  | .epollWait p epollFileDescriptor events maxEvents timeoutMilliseconds first wakeups =>
    (s.handleEpollWait p epollFileDescriptor events maxEvents timeoutMilliseconds first wakeups).2
  | .createProcess p => s.createProcess p
  | .execve p succeeds => s.handleExecve p succeeds
  | .fork p child outcome => (s.copyProcess p child outcome).2
  | .killProcess p => s.killProcess p

end EpollState

end TwistedOS
