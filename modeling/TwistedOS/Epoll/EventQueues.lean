import TwistedOS.UserMemory.MemorySystemCalls

/-!
# Event queues

The event queues of `SynchronizationManager` and the descriptors that they belong to. A queue is
found by the process and the number of its descriptor. It has a node of its own, to which the file
of the descriptor refers, and a list of watches, each for a descriptor of the same process.

Nodes and opened files are known by number. Which node a path leads to, and whether there is memory,
are arguments of the operations.

## Main definitions

* `OpenDescriptor`, `EpollWatchTag`, `EventQueueKernelObject`, `EpollState`.
* `EpollState.createEventQueue`, `EpollState.removeEventQueue`, `EpollState.removeWatchesForFile`,
  `EpollState.controlEventQueue`, `EpollState.duplicateEventQueues`.
-/

namespace TwistedOS

open Function

/-- The error codes of the calls that concern event queues. -/
inductive EpollError
  | efault | einval | ebadf | enoent | eexist | enomem | emfile | eintr
  /-- An error code of the operations of another file. -/
  | fileError (code : ℤ)
  deriving DecidableEq, Repr

/-- `FileFlags`. -/
inductive FileFlags
  | read | write | readWrite
  deriving DecidableEq, Repr

/-- `File`, with the fields that event queues depend on. The kernel has no field `description`: it
numbers the files that were opened, and a copy of a file keeps the number. -/
structure OpenDescriptor where
  node : ℕ
  accessFlags : FileFlags
  closeOnExec : Bool
  description : ℕ
  deriving DecidableEq, Repr

/-- The `FileTable` of a process. -/
abbrev FileTable := ℕ → Option OpenDescriptor

/-- `EpollWatchTag`. The field `description` is not one of the kernel: it is the file that was open
at the descriptor when the watch was added. -/
structure EpollWatchTag where
  fileDescriptor : ℕ
  events : UInt32
  userData : UInt64
  description : ℕ
  deriving DecidableEq, Repr

/-- `EventQueueKernelObject`. Its list of events stays empty and is left out. -/
structure EventQueueKernelObject where
  processId : ℕ
  fileDescriptor : ℕ
  flags : UInt64
  watches : List EpollWatchTag := []
  node : ℕ
  deriving DecidableEq, Repr

/-- The file tables of the processes that live, the list `EventQueueStore`, and the numbers of the
next node and of the next file. -/
structure EpollState where
  fileTables : ℕ → Option FileTable
  eventQueueStore : List EventQueueKernelObject := []
  nextNode : ℕ := 0
  nextDescription : ℕ := 0

namespace EventQueueKernelObject

variable (queue : EventQueueKernelObject)

/-- The process and the descriptor by which a queue is found. -/
def key : ℕ × ℕ := (queue.processId, queue.fileDescriptor)

/-- `FindWatch`. -/
def findWatch (fileDescriptor : ℕ) : Option EpollWatchTag :=
  queue.watches.find? fun watch => watch.fileDescriptor = fileDescriptor

/-- Replaces the watches. -/
def setWatches (watches : List EpollWatchTag) : EventQueueKernelObject :=
  { queue with watches := watches }

/-- The queue without the watches of a descriptor. -/
def removeWatches (fileDescriptor : ℕ) : EventQueueKernelObject :=
  queue.setWatches (queue.watches.filter fun watch => watch.fileDescriptor ≠ fileDescriptor)

/-- The copy of a queue for another process. -/
def copyFor (processId node : ℕ) : EventQueueKernelObject :=
  { queue with
    processId := processId
    node := node }

end EventQueueKernelObject

/-- `LINUX_EPOLL_CTL_ADD`, `LINUX_EPOLL_CTL_DEL`, `LINUX_EPOLL_CTL_MOD` and the other values of the
32 bits of an operation. -/
inductive EpollOperation
  | add | del | mod | other
  deriving DecidableEq, Repr

/-- The operation that the lower 32 bits of an argument stand for. -/
def EpollOperation.ofInt64 (operation : ℤ) : EpollOperation :=
  if operation % 2 ^ 32 = 1 then .add
  else if operation % 2 ^ 32 = 2 then .del
  else if operation % 2 ^ 32 = 3 then .mod
  else .other

namespace EpollState

variable (s : EpollState)

/-- Replaces the file table of a process. -/
def setTable (processId : ℕ) (table : Option FileTable) : EpollState :=
  { s with fileTables := update s.fileTables processId table }

/-- Replaces the list of event queues. -/
def setStore (store : List EventQueueKernelObject) : EpollState :=
  { s with eventQueueStore := store }

/-- `FindEventQueue`. -/
def findEventQueue (processId fileDescriptor : ℕ) : Option EventQueueKernelObject :=
  s.eventQueueStore.find? fun queue =>
    queue.processId = processId ∧ queue.fileDescriptor = fileDescriptor

/-- `HasEventQueue`. -/
def hasEventQueue (processId fileDescriptor : ℕ) : Bool :=
  (s.findEventQueue processId fileDescriptor).isSome

/-- Appends a queue whose node is new. -/
def pushQueue (queue : EventQueueKernelObject) : EpollState :=
  { s with
    eventQueueStore := s.eventQueueStore ++ [queue]
    nextNode := s.nextNode + 1 }

/-- `CreateEventQueue`. -/
def createEventQueue (processId fileDescriptor : ℕ) (flags : UInt64) (allocated : Bool) :
    Bool × EpollState :=
  if s.hasEventQueue processId fileDescriptor then (false, s)
  else if !allocated then (false, s)
  else
    (true, s.pushQueue
      { processId := processId
        fileDescriptor := fileDescriptor
        flags := flags
        node := s.nextNode })

/-- `RemoveEventQueue`. -/
def removeEventQueue (processId fileDescriptor : ℕ) : EpollState :=
  s.setStore (s.eventQueueStore.eraseP fun queue =>
    queue.processId = processId ∧ queue.fileDescriptor = fileDescriptor)

/-- `RemoveWatchesForFile`. -/
def removeWatchesForFile (processId fileDescriptor : ℕ) : EpollState :=
  s.setStore (s.eventQueueStore.map fun queue =>
    if queue.processId = processId then queue.removeWatches fileDescriptor else queue)

/-- Replaces the watches of the queue of a descriptor. -/
def setWatches (processId fileDescriptor : ℕ) (watches : List EpollWatchTag) : EpollState :=
  s.setStore (s.eventQueueStore.replaceF fun queue =>
    if queue.processId = processId ∧ queue.fileDescriptor = fileDescriptor then
      some (queue.setWatches watches)
    else none)

/-- The watches of a queue after a watch was added, removed or modified. `target` is the file at the
descriptor. -/
def controlWatches (queue : EventQueueKernelObject) (operation : EpollOperation)
    (targetFileDescriptor : ℕ) (target : OpenDescriptor) (events : UInt32) (userData : UInt64)
    (allocated : Bool) : Except EpollError (List EpollWatchTag) :=
  match operation, queue.findWatch targetFileDescriptor with
  | .add, some _ => .error .eexist
  | .add, none =>
    if !allocated then .error .enomem
    else .ok (queue.watches ++ [⟨targetFileDescriptor, events, userData, target.description⟩])
  | .del, none => .error .enoent
  | .del, some _ =>
    .ok (queue.watches.eraseP fun watch => watch.fileDescriptor = targetFileDescriptor)
  | .mod, none => .error .enoent
  | .mod, some _ =>
    .ok (queue.watches.replaceF fun watch =>
      if watch.fileDescriptor = targetFileDescriptor then
        some { watch with
          events := events
          userData := userData }
      else none)
  | .other, _ => .error .einval

/-- `ControlEventQueue`. -/
def controlEventQueue (processId epollFileDescriptor : ℕ) (operation : EpollOperation)
    (targetFileDescriptor : ℕ) (target : OpenDescriptor) (events : UInt32) (userData : UInt64)
    (allocated : Bool) : Except EpollError Unit × EpollState :=
  if targetFileDescriptor = epollFileDescriptor then (.error .einval, s)
  else
    match s.findEventQueue processId epollFileDescriptor with
    | none => (.error .enoent, s)
    | some queue =>
      match controlWatches queue operation targetFileDescriptor target events userData
        allocated with
      | .error error => (.error error, s)
      | .ok watches => (.ok (), s.setWatches processId epollFileDescriptor watches)

/-- Copies queues, as long as there is memory. -/
def duplicateQueues (destProcessId : ℕ) :
    ℕ → List EventQueueKernelObject → EpollState → Bool × EpollState
  | _, [], s => (true, s)
  | 0, _ :: _, s => (false, s)
  | memory + 1, queue :: rest, s =>
    duplicateQueues destProcessId memory rest (s.pushQueue (queue.copyFor destProcessId s.nextNode))

/-- The queues of a process. -/
def queuesOf (processId : ℕ) : List EventQueueKernelObject :=
  s.eventQueueStore.filter fun queue => queue.processId = processId

/-- `DuplicateEventQueuesForProcess`, where there is memory for the given number of queues. -/
def duplicateEventQueues (sourceProcessId destProcessId memory : ℕ) : Bool × EpollState :=
  duplicateQueues destProcessId memory (s.queuesOf sourceProcessId) s

end EpollState

end TwistedOS
