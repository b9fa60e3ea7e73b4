import TwistedOS.Transfer.ByteObjects

/-!
# The descriptors of pipes

`InterProcessComunicationManager` keeps a table of the descriptors that refer to pipes and counts,
for each pipe, those of its read end and those of its write end. A pipe, its two endpoints and its
two inodes are allocated together; they refer to each other by pointers, and they are deleted when
both counts have come down to zero.

The world of the pipes consists of the manager and of the processes that sleep within `PipeRead` or
`PipeWrite`. A process that sleeps makes no other call, and goes on with its loop when it is
resumed. The log of what has happened to the pipes is not part of the kernel.

## Main definitions

* `PipeManager`, with `PipeManager.createPipe`, `PipeManager.duplicatePipeDescriptor` and
  `PipeManager.closePipe`.
* `PipeOperation`, with `PipeOperation.start` and `PipeOperation.resume`.
* `PipeWorld`, with `PipeWorld.step` for each `PipeCall`.
-/

namespace TwistedOS

open Function

/-- `MAX_TRACKED_PIPES`, for 32 processes with 256 open files each. -/
def maxTrackedPipes : ℕ := 32 * 256

namespace TransferError

/-- `LINUX_PIPE_ERR_ENOMEM`. -/
def enomem : ℤ := -12

/-- `LINUX_PIPE_ERR_EMFILE`. -/
def emfile : ℤ := -24

end TransferError

/-! ### The manager -/

/-- `PipeEndpoint`. -/
structure PipeEndpoint where
  /-- The address of the pipe. -/
  pipe : ℕ
  isReadEnd : Bool
  deriving DecidableEq, Repr

/-- `PipeKernelObject`, with the addresses of its endpoints and inodes. -/
structure PipeKernelObject extends Pipe where
  readEndpoint : ℕ
  writeEndpoint : ℕ
  readNode : ℕ
  writeNode : ℕ

/-- `TrackedPipeEndpoint`. -/
structure TrackedPipeEndpoint where
  /-- The address of the process. -/
  owner : ℕ
  fileDescriptor : ℤ
  node : ℕ
  endpoint : ℕ
  deriving DecidableEq, Repr

/-- The part of `InterProcessComunicationManager` for pipes, and the objects in the kernel heap. -/
structure PipeManager where
  /-- The first `PipeEndpointCount` entries of `PipeEndpointList`. -/
  pipeEndpointList : List TrackedPipeEndpoint := []
  pipes : ℕ → Option PipeKernelObject := fun _ => none
  endpoints : ℕ → Option PipeEndpoint := fun _ => none
  /-- The `NodeData` of the inodes with `PipeFileOperations`. -/
  nodes : ℕ → Option ℕ := fun _ => none

/-- What `new` returns in `CreatePipe`, in order, and the bytes that the buffer holds before it is
written. -/
structure NewPipe where
  pipe : ℕ
  readEndpoint : ℕ
  writeEndpoint : ℕ
  readNode : ℕ
  writeNode : ℕ
  cells : ℕ → UInt8 := fun _ => 0

namespace PipeKernelObject

variable (pipe : PipeKernelObject)

/-- The endpoint of an end. -/
def endpoint (isReadEnd : Bool) : ℕ := if isReadEnd then pipe.readEndpoint else pipe.writeEndpoint

/-- The inode of an end. -/
def node (isReadEnd : Bool) : ℕ := if isReadEnd then pipe.readNode else pipe.writeNode

/-- The reference count of an end. -/
def referenceCount (isReadEnd : Bool) : ℕ :=
  if isReadEnd then pipe.readerReferenceCount else pipe.writerReferenceCount

/-- Increments the reference count of an end. -/
def acquire (isReadEnd : Bool) : PipeKernelObject :=
  if isReadEnd then { pipe with readerReferenceCount := pipe.readerReferenceCount + 1 }
  else { pipe with writerReferenceCount := pipe.writerReferenceCount + 1 }

/-- Decrements the reference count of an end unless it is zero. -/
def release (isReadEnd : Bool) : PipeKernelObject :=
  if isReadEnd then { pipe with readerReferenceCount := pipe.readerReferenceCount - 1 }
  else { pipe with writerReferenceCount := pipe.writerReferenceCount - 1 }

/-- Replaces the bytes of the pipe. -/
def setBuffer (buffer : RingBuffer UInt8 4096) : PipeKernelObject := { pipe with buffer := buffer }

end PipeKernelObject

namespace NewPipe

variable (new : NewPipe)

/-- One of the allocations has failed. -/
def hasFailed : Bool :=
  decide (new.pipe = 0 ∨ new.readEndpoint = 0 ∨ new.writeEndpoint = 0 ∨ new.readNode = 0 ∨
    new.writeNode = 0)

theorem bufferSize_pos : 0 < 4096 := by decide

/-- The pipe that `CreatePipe` sets up. -/
def object : PipeKernelObject where
  buffer := .blank new.cells bufferSize_pos
  readerReferenceCount := 1
  writerReferenceCount := 1
  readEndpoint := new.readEndpoint
  writeEndpoint := new.writeEndpoint
  readNode := new.readNode
  writeNode := new.writeNode

end NewPipe

namespace PipeManager

variable (m : PipeManager)

/-- Stores a pipe. -/
def setPipe (p : ℕ) (pipe : PipeKernelObject) : PipeManager :=
  { m with pipes := update m.pipes p (some pipe) }

/-- Replaces the table of descriptors. -/
def setList (list : List TrackedPipeEndpoint) : PipeManager := { m with pipeEndpointList := list }

/-- Stores a new pipe with its endpoints and inodes. -/
def addPipe (new : NewPipe) : PipeManager :=
  { m with
    pipes := update m.pipes new.pipe (some new.object)
    endpoints := update (update m.endpoints new.readEndpoint (some ⟨new.pipe, true⟩))
      new.writeEndpoint (some ⟨new.pipe, false⟩)
    nodes := update (update m.nodes new.readNode (some new.readEndpoint)) new.writeNode
      (some new.writeEndpoint) }

/-- Deletes a pipe with its endpoints and inodes. -/
def deletePipe (p : ℕ) (pipe : PipeKernelObject) : PipeManager :=
  { m with
    pipes := update m.pipes p none
    endpoints := update (update m.endpoints pipe.readEndpoint none) pipe.writeEndpoint none
    nodes := update (update m.nodes pipe.readNode none) pipe.writeNode none }

/-- `CreatePipe`; returns the inodes. -/
def createPipe (owner : ℕ) (readFileDescriptor writeFileDescriptor : ℤ) (new : NewPipe) :
    PipeManager × Except ℤ (ℕ × ℕ) :=
  if owner = 0 ∨ readFileDescriptor < 0 ∨ writeFileDescriptor < 0 then
    (m, .error TransferError.einval)
  else if maxTrackedPipes < m.pipeEndpointList.length + 2 then (m, .error TransferError.emfile)
  else if new.hasFailed then (m, .error TransferError.enomem)
  else
    ((m.addPipe new).setList (m.pipeEndpointList ++
        [⟨owner, readFileDescriptor, new.readNode, new.readEndpoint⟩,
          ⟨owner, writeFileDescriptor, new.writeNode, new.writeEndpoint⟩]),
      .ok (new.readNode, new.writeNode))

/-- An endpoint with its pipe. -/
def findPipe (endpoint : ℕ) : Option (PipeEndpoint × PipeKernelObject) :=
  match m.endpoints endpoint with
  | none => none
  | some e => (m.pipes e.pipe).map fun pipe => (e, pipe)

/-- Some descriptor of the inode and the endpoint is in the table. -/
def isTracked (node endpoint : ℕ) : Bool :=
  m.pipeEndpointList.any fun t => t.node = node ∧ t.endpoint = endpoint

/-- `DuplicatePipeDescriptor`, where the inode is the one of the source file. -/
def duplicatePipeDescriptor (owner : ℕ) (fileDescriptor : ℤ) (node : ℕ) :
    PipeManager × Except ℤ Unit :=
  if owner = 0 ∨ node = 0 ∨ fileDescriptor < 0 then (m, .error TransferError.einval)
  else
    match m.nodes node with
    | none => (m, .ok ())
    | some endpoint =>
      if endpoint = 0 then (m, .error TransferError.ebadf)
      else if !m.isTracked node endpoint then (m, .ok ())
      else if maxTrackedPipes ≤ m.pipeEndpointList.length then (m, .error TransferError.emfile)
      else
        match m.findPipe endpoint with
        | none => (m, .error TransferError.ebadf)
        | some (e, pipe) =>
          ((m.setPipe e.pipe (pipe.acquire e.isReadEnd)).setList
            (m.pipeEndpointList ++ [⟨owner, fileDescriptor, node, endpoint⟩]), .ok ())

/-- Gives up one reference to an end of a pipe, and deletes the pipe with the last one. -/
def releaseEndpoint (endpoint : ℕ) : PipeManager :=
  match m.findPipe endpoint with
  | none => m
  | some (e, pipe) =>
    if (pipe.release e.isReadEnd).readerReferenceCount = 0 ∧
        (pipe.release e.isReadEnd).writerReferenceCount = 0 then
      m.deletePipe e.pipe pipe
    else m.setPipe e.pipe (pipe.release e.isReadEnd)

/-- The entry of a descriptor in the table. -/
def isEntryOf (owner : ℕ) (fileDescriptor : ℤ) (node : ℕ) (t : TrackedPipeEndpoint) : Bool :=
  decide (t.owner = owner ∧ t.fileDescriptor = fileDescriptor ∧ t.node = node)

/-- `ClosePipe`. The entries behind the one that is removed move up. -/
def closePipe (owner : ℕ) (fileDescriptor : ℤ) (node : ℕ) : PipeManager × Bool :=
  if owner = 0 ∨ fileDescriptor < 0 ∨ node = 0 then (m, false)
  else
    match m.pipeEndpointList.find? (isEntryOf owner fileDescriptor node) with
    | none => (m, false)
    | some t =>
      ((m.setList (m.pipeEndpointList.eraseP (isEntryOf owner fileDescriptor node))).releaseEndpoint
        t.endpoint, true)

end PipeManager

/-! ### Calls that sleep -/

/-- `PipeRead` and `PipeWrite`. -/
inductive PipeOperation
  | read (count : ℕ)
  | write (bytes : List UInt8)
  deriving DecidableEq, Repr

namespace PipeFile

/-- The loop that waits for a pipe, after the caller has slept once. -/
def awaitAgain (ready closed : Pipe → Bool) (interrupted : Bool) (file : PipeFile) : Awaited :=
  if interrupted then ⟨file, true, .failed TransferError.eintr⟩
  else { awaitFrom ready closed [] file with slept := true }

/-- The result of a write with the bytes that were accepted. -/
def acceptedBytes (bytes : List UInt8) (r : OperationResult PipeFile ℕ) :
    OperationResult PipeFile (List UInt8) where
  next := r.next
  slept := r.slept
  result := r.result.map fun result => result.map bytes.take

end PipeFile

namespace PipeOperation

/-- The operation is made on the read end. -/
def isRead : PipeOperation → Bool
  | read _ => true
  | write _ => false

/-- The operation from its beginning, with the bytes that it moves. -/
def start (file : PipeFile) : PipeOperation → OperationResult PipeFile (List UInt8)
  | read count => file.read count
  | write bytes => PipeFile.acceptedBytes bytes (file.write bytes)

/-- The operation from where the caller has slept. -/
def resume (file : PipeFile) (interrupted : Bool) :
    PipeOperation → OperationResult PipeFile (List UInt8)
  | read count =>
    PipeFile.takeBytes count (file.awaitAgain PipeFile.hasBytes PipeFile.noWriter interrupted)
  | write bytes =>
    PipeFile.acceptedBytes bytes (PipeFile.putBytes bytes
      (file.awaitAgain PipeFile.hasSpace PipeFile.noReader interrupted))

end PipeOperation

/-! ### The world of the pipes -/

/-- A call in which a process sleeps, and the pipe that it has looked up. -/
structure SleepingCall where
  fileDescriptor : ℤ
  node : ℕ
  pipe : ℕ
  operation : PipeOperation
  deriving DecidableEq, Repr

/-- The bytes in a pipe, and the descriptors of its ends that are in the table. -/
structure PipeCensus where
  bufferedBytes : ℕ
  readers : ℕ
  writers : ℕ
  deriving DecidableEq, Repr

/-- What happens to a pipe, with the state of the pipe right before it. -/
inductive PipeEvent
  | created (pipe : ℕ)
  | returned (pipe count : ℕ) (bytes : List UInt8) (found : PipeCensus)
  | accepted (pipe : ℕ) (bytes : List UInt8) (found : PipeCensus)
  deriving DecidableEq, Repr

/-- The manager, the processes that sleep in calls, and what has happened, the latest first. -/
structure PipeWorld where
  manager : PipeManager := {}
  sleeping : ℕ → Option SleepingCall := fun _ => none
  log : List PipeEvent := []

/-- What the processes and the scheduler may do. -/
inductive PipeCall
  | createPipe (owner : ℕ) (readFileDescriptor writeFileDescriptor : ℤ) (new : NewPipe)
  | duplicatePipeDescriptor (owner : ℕ) (fileDescriptor : ℤ) (node : ℕ)
  | closePipe (owner : ℕ) (fileDescriptor : ℤ) (node : ℕ)
  | operate (owner : ℕ) (fileDescriptor : ℤ) (node : ℕ) (nonblock : Bool)
    (operation : PipeOperation)
  /-- A process that sleeps runs again. -/
  | resume (owner : ℕ) (interruptedBySignal : Bool)
  /-- A process is killed, and does not come back to the call in which it sleeps. -/
  | kill (owner : ℕ)

/-- The number of descriptors of an end of a pipe that are in the table. -/
def PipeManager.trackedDescriptors (m : PipeManager) (p : ℕ) (isReadEnd : Bool) : ℕ :=
  m.pipeEndpointList.countP fun t => m.endpoints t.endpoint = some ⟨p, isReadEnd⟩

namespace PipeWorld

variable (w : PipeWorld)

/-- What a call finds at a pipe. -/
def census (p : ℕ) (pipe : Pipe) : PipeCensus where
  bufferedBytes := pipe.buffer.buffered
  readers := w.manager.trackedDescriptors p true
  writers := w.manager.trackedDescriptors p false

/-- The event of an operation that has moved bytes. -/
def event (p : ℕ) (pipe : Pipe) (bytes : List UInt8) : PipeOperation → PipeEvent
  | .read count => .returned p count bytes (w.census p pipe)
  | .write _ => .accepted p bytes (w.census p pipe)

/-- The end of an operation, or of the part of it before the caller falls asleep. -/
def finish (owner : ℕ) (call : SleepingCall) (pipe : PipeKernelObject)
    (r : OperationResult PipeFile (List UInt8)) : PipeWorld :=
  match r.result with
  | none => { w with sleeping := update w.sleeping owner (some call) }
  | some (.error _) => { w with sleeping := update w.sleeping owner none }
  | some (.ok bytes) =>
    { manager := w.manager.setPipe call.pipe (pipe.setBuffer r.next.pipe.buffer)
      sleeping := update w.sleeping owner none
      log := w.event call.pipe pipe.toPipe bytes call.operation :: w.log }

/-- `PipeRead` and `PipeWrite` on a file over the inode. -/
def operate (owner : ℕ) (fileDescriptor : ℤ) (node : ℕ) (nonblock : Bool)
    (operation : PipeOperation) : PipeWorld :=
  match (w.manager.nodes node).bind w.manager.findPipe with
  | none => w
  | some (e, pipe) =>
    w.finish owner ⟨fileDescriptor, node, e.pipe, operation⟩ pipe
      (operation.start { isReadEnd := e.isReadEnd, nonblock := nonblock, pipe := pipe.toPipe })

/-- `PipeRead` and `PipeWrite` from where the caller has slept. -/
def resume (owner : ℕ) (interruptedBySignal : Bool) : PipeWorld :=
  match w.sleeping owner with
  | none => w
  | some call =>
    match w.manager.pipes call.pipe with
    | none => w
    | some pipe =>
      w.finish owner call pipe
        (call.operation.resume
          { isReadEnd := call.operation.isRead, nonblock := false, pipe := pipe.toPipe }
          interruptedBySignal)

/-- `CreatePipe`, which is logged when it succeeds. -/
def createPipe (owner : ℕ) (readFileDescriptor writeFileDescriptor : ℤ) (new : NewPipe) :
    PipeWorld :=
  match w.manager.createPipe owner readFileDescriptor writeFileDescriptor new with
  | (_, .error _) => w
  | (m, .ok _) => { w with manager := m, log := .created new.pipe :: w.log }

/-- One step of a process or of the scheduler. -/
def step : PipeCall → PipeWorld
  | .createPipe owner readFileDescriptor writeFileDescriptor new =>
    w.createPipe owner readFileDescriptor writeFileDescriptor new
  | .duplicatePipeDescriptor owner fileDescriptor node =>
    { w with manager := (w.manager.duplicatePipeDescriptor owner fileDescriptor node).1 }
  | .closePipe owner fileDescriptor node =>
    { w with manager := (w.manager.closePipe owner fileDescriptor node).1 }
  | .operate owner fileDescriptor node nonblock operation =>
    w.operate owner fileDescriptor node nonblock operation
  | .resume owner interruptedBySignal => w.resume owner interruptedBySignal
  | .kill owner => { w with sleeping := update w.sleeping owner none }

end PipeWorld

end TwistedOS
