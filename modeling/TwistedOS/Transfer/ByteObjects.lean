import TwistedOS.Data.RingBuffer
import TwistedOS.Files.FileContents

/-!
# Objects that are read and written

Pipes, Unix stream sockets and regular files, with the read and write operations that the system
calls use. An operation may put the caller to sleep; what the others do in the meantime is a list of
wakeups, each with the state of the pipe that the caller finds.

An operation that returns bytes has consumed them, or accepted them, and nothing else has changed
since the caller woke up for the last time.

## Main definitions

* `PipeFile`, `SocketFile`, `RegularFile`, `ByteObject`, with `ByteObject.read` and
  `ByteObject.write`.
* `ByteObject.Waits`, `ByteObject.Consumes`, `ByteObject.Accepts`.

## Main results

* `ByteObject.read_delivers`, `ByteObject.write_takes`.
-/

namespace TwistedOS

open RingBuffer (contents contents_popMany contents_pushMany popMany popMany_fst pushMany)

namespace TransferError

/-- `LINUX_ERR_EINTR`. -/
def eintr : ℤ := -4

/-- `LINUX_ERR_EBADF`, also of pipes and sockets. -/
def ebadf : ℤ := -9

/-- `LINUX_PIPE_ERR_EAGAIN` and `LINUX_SOCKET_ERR_EAGAIN`. -/
def eagain : ℤ := -11

/-- `LINUX_ERR_EFAULT`. -/
def efault : ℤ := -14

/-- `LINUX_ERR_EINVAL`. -/
def einval : ℤ := -22

/-- `LINUX_PIPE_ERR_EPIPE` and `LINUX_SOCKET_ERR_EPIPE`. -/
def epipe : ℤ := -32

/-- `LINUX_SOCKET_ERR_ENOTCONN`. -/
def enotconn : ℤ := -107

end TransferError

/-- The end of an operation: the object afterwards, whether the caller has slept, and what is
returned, which is `none` as long as the caller is asleep. -/
structure OperationResult (ω α : Type*) where
  next : ω
  slept : Bool := false
  result : Option (Except ℤ α)

namespace OperationResult

variable {ω ω' α : Type*}

/-- The result of an operation on an object that is part of another one. -/
def lift (f : ω → ω') (r : OperationResult ω α) : OperationResult ω' α where
  next := f r.next
  slept := r.slept
  result := r.result

/-- The bytes that a read returns. -/
def bytes (r : OperationResult ω (List UInt8)) : List UInt8 :=
  match r.result with
  | some (.ok bytes) => bytes
  | _ => []

/-- The number of bytes that a write returns. -/
def count (r : OperationResult ω ℕ) : ℕ :=
  match r.result with
  | some (.ok count) => count
  | _ => 0

end OperationResult

/-! ### Pipes -/

/-- `PipeKernelObject`. -/
structure Pipe where
  /-- `Buffer`, of `LINUX_PIPE_BUFFER_CAPACITY` bytes, with its offsets and `BufferedBytes`. -/
  buffer : RingBuffer UInt8 4096
  readerReferenceCount : ℕ
  writerReferenceCount : ℕ

/-- What a sleeping caller finds when it runs again. -/
structure PipeWakeup where
  pipe : Pipe
  interruptedBySignal : Bool := false

/-- A file over a `PipeEndpoint`. -/
structure PipeFile where
  isReadEnd : Bool
  nonblock : Bool
  pipe : Pipe
  wakeups : List PipeWakeup := []

/-- How the loops that wait for a pipe end. -/
inductive AwaitEnd
  | ready
  /-- The other end is closed. -/
  | closed
  | failed (code : ℤ)
  | asleep
  deriving DecidableEq, Repr

/-- The file, whether the caller has slept, and the end of a loop that waits for a pipe. -/
structure Awaited where
  file : PipeFile
  slept : Bool
  outcome : AwaitEnd

namespace PipeFile

variable (file : PipeFile)

/-- The caller runs again. -/
def wake (wakeup : PipeWakeup) (rest : List PipeWakeup) : PipeFile :=
  { file with
    pipe := wakeup.pipe
    wakeups := rest }

/-- Replaces the bytes of the pipe. -/
def setBuffer (buffer : RingBuffer UInt8 4096) : PipeFile :=
  { file with pipe := { file.pipe with buffer := buffer } }

/-- The loop that sleeps until a pipe is ready or its other end is closed. -/
def awaitFrom (ready closed : Pipe → Bool) (wakeups : List PipeWakeup) (file : PipeFile) :
    Awaited :=
  if ready file.pipe then ⟨file, false, .ready⟩
  else if closed file.pipe then ⟨file, false, .closed⟩
  else if file.nonblock then ⟨file, false, .failed TransferError.eagain⟩
  else
    match wakeups with
    | [] => ⟨file, true, .asleep⟩
    | wakeup :: rest =>
      if wakeup.interruptedBySignal then
        ⟨file.wake wakeup rest, true, .failed TransferError.eintr⟩
      else { awaitFrom ready closed rest (file.wake wakeup rest) with slept := true }

/-- `BufferedBytes` is not zero. -/
def hasBytes (pipe : Pipe) : Bool := decide (pipe.buffer.buffered ≠ 0)

/-- `AvailableSpace` is not zero. -/
def hasSpace (pipe : Pipe) : Bool := decide (pipe.buffer.available ≠ 0)

/-- No writer is left. -/
def noWriter (pipe : Pipe) : Bool := decide (pipe.writerReferenceCount = 0)

/-- No reader is left. -/
def noReader (pipe : Pipe) : Bool := decide (pipe.readerReferenceCount = 0)

/-- The end of `PipeRead`. -/
def takeBytes (count : ℕ) (awaited : Awaited) : OperationResult PipeFile (List UInt8) :=
  match awaited.outcome with
  | .asleep => ⟨awaited.file, awaited.slept, none⟩
  | .failed code => ⟨awaited.file, awaited.slept, some (.error code)⟩
  | .closed => ⟨awaited.file, awaited.slept, some (.ok [])⟩
  | .ready =>
    ⟨awaited.file.setBuffer (popMany count awaited.file.pipe.buffer).2, awaited.slept,
      some (.ok (popMany count awaited.file.pipe.buffer).1)⟩

/-- `PipeRead`. -/
def read (count : ℕ) : OperationResult PipeFile (List UInt8) :=
  if count = 0 then { next := file, result := some (.ok []) }
  else if !file.isReadEnd then { next := file, result := some (.error TransferError.ebadf) }
  else takeBytes count (awaitFrom hasBytes noWriter file.wakeups file)

/-- The end of `PipeWrite`. -/
def putBytes (bytes : List UInt8) (awaited : Awaited) : OperationResult PipeFile ℕ :=
  match awaited.outcome with
  | .asleep => ⟨awaited.file, awaited.slept, none⟩
  | .failed code => ⟨awaited.file, awaited.slept, some (.error code)⟩
  | .closed => ⟨awaited.file, awaited.slept, some (.error TransferError.epipe)⟩
  | .ready =>
    ⟨awaited.file.setBuffer (pushMany bytes awaited.file.pipe.buffer), awaited.slept,
      some (.ok (min bytes.length awaited.file.pipe.buffer.available))⟩

/-- `PipeWrite`. -/
def write (bytes : List UInt8) : OperationResult PipeFile ℕ :=
  if bytes = [] then { next := file, result := some (.ok 0) }
  else if file.isReadEnd then { next := file, result := some (.error TransferError.ebadf) }
  else if noReader file.pipe then { next := file, result := some (.error TransferError.epipe) }
  else putBytes bytes (awaitFrom hasSpace noReader file.wakeups file)

end PipeFile

/-! ### Sockets -/

/-- `UnixSocket`, with the fields that reading and writing use. -/
structure UnixSocket where
  isListening : Bool := false
  isShutdownRead : Bool := false
  isShutdownWrite : Bool := false
  /-- `ReceiveBuffer`, of `LINUX_UNIX_SOCKET_BUFFER_CAPACITY` bytes if there is one. -/
  receiveBuffer : Option (RingBuffer UInt8 65536)

/-- A file over a `Socket` of the Unix domain. -/
structure SocketFile where
  /-- The type is `LINUX_SOCK_STREAM` or `LINUX_SOCK_SEQPACKET`. -/
  isStream : Bool
  socket : UnixSocket
  connectedPeer : Option UnixSocket

namespace UnixSocket

variable (socket : UnixSocket)

/-- The bytes that were received and not read yet. -/
def received : List UInt8 := (socket.receiveBuffer.map contents).getD []

/-- Replaces the received bytes. -/
def setReceiveBuffer (buffer : Option (RingBuffer UInt8 65536)) : UnixSocket :=
  { socket with receiveBuffer := buffer }

end UnixSocket

namespace SocketFile

variable (file : SocketFile)

/-- Replaces the bytes that the socket has received. -/
def setReceived (buffer : Option (RingBuffer UInt8 65536)) : SocketFile :=
  { file with socket := file.socket.setReceiveBuffer buffer }

/-- Replaces the bytes that the peer has received. -/
def setPeerReceived (buffer : Option (RingBuffer UInt8 65536)) : SocketFile :=
  { file with connectedPeer := file.connectedPeer.map (·.setReceiveBuffer buffer) }

/-- The bytes that the peer has received and not read yet. -/
def peerReceived : List UInt8 := (file.connectedPeer.map UnixSocket.received).getD []

/-- The peer sends nothing any more. -/
def peerIsDone : Bool :=
  match file.connectedPeer with
  | none => true
  | some peer => peer.isShutdownWrite

/-- The end of `SocketRead` for a buffer without bytes. -/
def readEmpty : OperationResult SocketFile (List UInt8) where
  next := file
  result := some (if file.peerIsDone then .ok [] else .error TransferError.eagain)

/-- `ReadFromUnixReceiveBuffer` within `SocketRead`. -/
def readReceived (count : ℕ) : OperationResult SocketFile (List UInt8) :=
  match file.socket.receiveBuffer with
  | none => file.readEmpty
  | some buffer =>
    if buffer.buffered = 0 then file.readEmpty
    else
      { next := file.setReceived (some (popMany count buffer).2)
        result := some (.ok (popMany count buffer).1) }

/-- `SocketRead`. -/
def read (count : ℕ) : OperationResult SocketFile (List UInt8) :=
  if count = 0 then { next := file, result := some (.ok []) }
  else if file.socket.isShutdownRead then { next := file, result := some (.ok []) }
  else if file.socket.isListening then
    { next := file, result := some (.error TransferError.eagain) }
  else if file.isStream then file.readReceived count
  else { next := file, result := some (.error TransferError.enotconn) }

/-- `WriteToUnixPeerBuffer`, where the peer listens or not. -/
def writePeer (bytes : List UInt8) : OperationResult SocketFile ℕ :=
  match file.connectedPeer with
  | none => { next := file, result := some (.error TransferError.enotconn) }
  | some peer =>
    if peer.isListening then { next := file, result := some (.error TransferError.eagain) }
    else if peer.isShutdownRead then { next := file, result := some (.error TransferError.epipe) }
    else
      match peer.receiveBuffer with
      | none => { next := file, result := some (.error TransferError.ebadf) }
      | some buffer =>
        if buffer.available = 0 then
          { next := file, result := some (.error TransferError.eagain) }
        else
          { next := file.setPeerReceived (some (pushMany bytes buffer))
            result := some (.ok (min bytes.length buffer.available)) }

/-- `SocketWrite`. -/
def write (bytes : List UInt8) : OperationResult SocketFile ℕ :=
  if bytes = [] then { next := file, result := some (.ok 0) }
  else if file.socket.isShutdownWrite then
    { next := file, result := some (.error TransferError.epipe) }
  else if !file.socket.isListening && file.isStream then file.writePeer bytes
  else { next := file, result := some (.error TransferError.ebadf) }

end SocketFile

/-! ### Regular files -/

/-- A file over the inode of a regular file. The resources are those of the operations to come. -/
structure RegularFile where
  node : FileINode
  currentOffset : ℕ
  resources : ℕ → KernelResources

namespace RegularFile

variable (file : RegularFile)

/-- The file after an operation. -/
def advance (node : FileINode) (count : ℕ) : RegularFile where
  node := node
  currentOffset := file.currentOffset + count
  resources := fun i => file.resources (i + 1)

/-- `DefaultReadFileOperation` with the offset of the file. -/
def read (count : ℕ) : OperationResult RegularFile (List UInt8) :=
  match file.node.read (file.resources 0) file.currentOffset count with
  | (.error code, node) => { next := file.advance node 0, result := some (.error code) }
  | (.ok bytes, node) => { next := file.advance node bytes.length, result := some (.ok bytes) }

/-- `DefaultWriteFileOperation` with the offset of the file. -/
def write (bytes : List UInt8) : OperationResult RegularFile ℕ :=
  match file.node.write (file.resources 0) file.currentOffset bytes with
  | (.error code, node) => { next := file.advance node 0, result := some (.error code) }
  | (.ok count, node) => { next := file.advance node count, result := some (.ok count) }

end RegularFile

/-! ### The objects of a descriptor -/

/-- What a file descriptor refers to. -/
inductive ByteObject
  | pipe (file : PipeFile)
  | socket (file : SocketFile)
  | regular (file : RegularFile)

namespace ByteObject

/-- `FileOps->Read`. -/
def read (count : ℕ) : ByteObject → OperationResult ByteObject (List UInt8)
  | .pipe file => (file.read count).lift .pipe
  | .socket file => (file.read count).lift .socket
  | .regular file => (file.read count).lift .regular

/-- `FileOps->Write`. -/
def write (bytes : List UInt8) : ByteObject → OperationResult ByteObject ℕ
  | .pipe file => (file.write bytes).lift .pipe
  | .socket file => (file.write bytes).lift .socket
  | .regular file => (file.write bytes).lift .regular

end ByteObject

/-! ### What operations do -/

namespace OperationResult

variable {ω ω' : Type*} {Waits : ω → ω → Prop} {Moves : ω → List UInt8 → ω → Prop} {before : ω}
  {count : ℕ} {bytes : List UInt8} {code : ℤ}

/-- A read consumes the bytes that it returns, after the caller has woken up for the last time. -/
structure Delivers (Waits : ω → ω → Prop) (Moves : ω → List UInt8 → ω → Prop) (before : ω)
    (count : ℕ) (r : OperationResult ω (List UInt8)) : Prop where
  woken : ∃ woken, Waits before woken ∧ (r.slept = false → woken = before) ∧
    Moves woken r.bytes r.next
  length_le : r.bytes.length ≤ count
  error_neg : ∀ code, r.result = some (.error code) → code < 0

/-- A write accepts as many bytes as it returns, after the caller has woken up for the last time. -/
structure Takes (Waits : ω → ω → Prop) (Moves : ω → List UInt8 → ω → Prop) (before : ω)
    (bytes : List UInt8) (r : OperationResult ω ℕ) : Prop where
  woken : ∃ woken, Waits before woken ∧ (r.slept = false → woken = before) ∧
    Moves woken (bytes.take r.count) r.next
  count_le : r.count ≤ bytes.length
  error_neg : ∀ code, r.result = some (.error code) → code < 0

theorem Delivers.of_nothing {r : OperationResult ω (List UInt8)} (hwaits : Waits before r.next)
    (hsame : r.slept = false → r.next = before) (hmoves : Moves r.next [] r.next)
    (hbytes : r.bytes = []) (hneg : ∀ code, r.result = some (.error code) → code < 0) :
    r.Delivers Waits Moves before count where
  woken := ⟨r.next, hwaits, hsame, hbytes.symm ▸ hmoves⟩
  length_le := hbytes.symm ▸ Nat.zero_le _
  error_neg := hneg

theorem Takes.of_nothing {r : OperationResult ω ℕ} (hwaits : Waits before r.next)
    (hsame : r.slept = false → r.next = before) (hmoves : Moves r.next [] r.next)
    (hcount : r.count = 0) (hneg : ∀ code, r.result = some (.error code) → code < 0) :
    r.Takes Waits Moves before bytes where
  woken := ⟨r.next, hwaits, hsame, by rwa [hcount, List.take_zero]⟩
  count_le := hcount.symm ▸ Nat.zero_le _
  error_neg := hneg

theorem Delivers.lift {Waits' : ω' → ω' → Prop} {Moves' : ω' → List UInt8 → ω' → Prop}
    {r : OperationResult ω (List UInt8)} (h : r.Delivers Waits Moves before count) (f : ω → ω')
    (hwaits : ∀ a b, Waits a b → Waits' (f a) (f b))
    (hmoves : ∀ a bytes b, Moves a bytes b → Moves' (f a) bytes (f b)) :
    (r.lift f).Delivers Waits' Moves' (f before) count where
  woken :=
    let ⟨woken, hwoken, hsame, hmove⟩ := h.woken
    ⟨f woken, hwaits _ _ hwoken, fun hslept => congrArg f (hsame hslept), hmoves _ _ _ hmove⟩
  length_le := h.length_le
  error_neg := h.error_neg

theorem Takes.lift {Waits' : ω' → ω' → Prop} {Moves' : ω' → List UInt8 → ω' → Prop}
    {r : OperationResult ω ℕ} (h : r.Takes Waits Moves before bytes) (f : ω → ω')
    (hwaits : ∀ a b, Waits a b → Waits' (f a) (f b))
    (hmoves : ∀ a bytes b, Moves a bytes b → Moves' (f a) bytes (f b)) :
    (r.lift f).Takes Waits' Moves' (f before) bytes where
  woken :=
    let ⟨woken, hwoken, hsame, hmove⟩ := h.woken
    ⟨f woken, hwaits _ _ hwoken, fun hslept => congrArg f (hsame hslept), hmoves _ _ _ hmove⟩
  count_le := h.count_le
  error_neg := h.error_neg

end OperationResult

open OperationResult

/-! ### Bytes of pipes -/

namespace PipeFile

/-- The caller may have slept, and woken up to another state of the pipe. -/
inductive Waits : PipeFile → PipeFile → Prop
  | refl (file : PipeFile) : Waits file file
  | wake {file later : PipeFile} {wakeup : PipeWakeup} {rest : List PipeWakeup}
    (hwakeups : file.wakeups = wakeup :: rest) (h : Waits (file.wake wakeup rest) later) :
    Waits file later

/-- The oldest bytes of the pipe are gone, and nothing else has changed. -/
structure Consumes (before : PipeFile) (bytes : List UInt8) (after : PipeFile) : Prop where
  contents_eq : before.pipe.buffer.contents = bytes ++ after.pipe.buffer.contents
  after_eq : after = before.setBuffer after.pipe.buffer

/-- There are new bytes in the pipe, and nothing else has changed. -/
structure Accepts (before : PipeFile) (bytes : List UInt8) (after : PipeFile) : Prop where
  contents_eq : after.pipe.buffer.contents = before.pipe.buffer.contents ++ bytes
  after_eq : after = before.setBuffer after.pipe.buffer

variable {before middle after file : PipeFile} {bytes later : List UInt8} {count : ℕ}

theorem Consumes.refl (file : PipeFile) : file.Consumes [] file := ⟨rfl, rfl⟩

theorem Accepts.refl (file : PipeFile) : file.Accepts [] file :=
  ⟨(List.append_nil _).symm, rfl⟩

theorem Consumes.trans (h : before.Consumes bytes middle) (h' : middle.Consumes later after) :
    before.Consumes (bytes ++ later) after := by
  refine ⟨?_, ?_⟩
  · rw [h.contents_eq, h'.contents_eq, List.append_assoc]
  · rw [h'.after_eq, h.after_eq]
    rfl

theorem Accepts.trans (h : before.Accepts bytes middle) (h' : middle.Accepts later after) :
    before.Accepts (bytes ++ later) after := by
  refine ⟨?_, ?_⟩
  · rw [h'.contents_eq, h.contents_eq, List.append_assoc]
  · rw [h'.after_eq, h.after_eq]
    rfl

/-- What is known of the file that a loop waits for in any case. -/
structure AwaitFacts (file : PipeFile) (awaited : Awaited) : Prop where
  waits : file.Waits awaited.file
  file_eq : awaited.slept = false → awaited.file = file
  failed_neg : ∀ code, awaited.outcome = .failed code → code < 0

/-- The loop that waits for a pipe changes nothing by itself. -/
theorem awaitFacts (ready closed : Pipe → Bool) {wakeups : List PipeWakeup}
    (hwakeups : file.wakeups = wakeups) :
    AwaitFacts file (awaitFrom ready closed wakeups file) := by
  induction wakeups generalizing file with
  | nil =>
    rw [awaitFrom]
    split_ifs
    · exact ⟨.refl file, fun _ => rfl, by simp⟩
    · exact ⟨.refl file, fun _ => rfl, by simp⟩
    · exact ⟨.refl file, fun _ => rfl, by simp [TransferError.eagain]⟩
    · exact ⟨.refl file, fun _ => rfl, by simp⟩
  | cons wakeup rest ih =>
    rw [awaitFrom]
    have hrest : AwaitFacts (file.wake wakeup rest)
        (awaitFrom ready closed rest (file.wake wakeup rest)) := ih rfl
    split_ifs
    · exact ⟨.refl file, fun _ => rfl, by simp⟩
    · exact ⟨.refl file, fun _ => rfl, by simp⟩
    · exact ⟨.refl file, fun _ => rfl, by simp [TransferError.eagain]⟩
    · exact ⟨.wake hwakeups (.refl _), by simp, by simp [TransferError.eintr]⟩
    · exact ⟨.wake hwakeups hrest.waits, by simp, hrest.failed_neg⟩

theorem takeBytes_delivers {awaited : Awaited} (h : AwaitFacts file awaited) (count : ℕ) :
    (takeBytes count awaited).Delivers Waits Consumes file count := by
  rw [takeBytes]
  cases houtcome : awaited.outcome with
  | ready =>
    refine ⟨⟨awaited.file, h.waits, h.file_eq, ?_, rfl⟩, ?_, by simp⟩
    · change awaited.file.pipe.buffer.contents = (popMany count _).1 ++
        (popMany count awaited.file.pipe.buffer).2.contents
      rw [popMany_fst, contents_popMany, List.take_append_drop]
    · change (popMany count awaited.file.pipe.buffer).1.length ≤ count
      rw [popMany_fst]
      exact List.length_take_le ..
  | closed => exact .of_nothing h.waits h.file_eq (.refl _) rfl (by simp)
  | failed code =>
    exact .of_nothing h.waits h.file_eq (.refl _) rfl (by simpa using h.failed_neg code houtcome)
  | asleep => exact .of_nothing h.waits h.file_eq (.refl _) rfl (by simp)

theorem putBytes_takes {awaited : Awaited} (h : AwaitFacts file awaited) (bytes : List UInt8) :
    (putBytes bytes awaited).Takes Waits Accepts file bytes := by
  rw [putBytes]
  cases houtcome : awaited.outcome with
  | ready =>
    refine ⟨⟨awaited.file, h.waits, h.file_eq, ?_, rfl⟩, Nat.min_le_left .., by simp⟩
    change (pushMany bytes awaited.file.pipe.buffer).contents = _ ++
      bytes.take (min bytes.length awaited.file.pipe.buffer.available)
    rw [contents_pushMany, Nat.min_comm, ← List.take_eq_take_min]
  | closed => exact .of_nothing h.waits h.file_eq (.refl _) rfl (by simp [TransferError.epipe])
  | failed code =>
    exact .of_nothing h.waits h.file_eq (.refl _) rfl (by simpa using h.failed_neg code houtcome)
  | asleep => exact .of_nothing h.waits h.file_eq (.refl _) rfl (by simp)

theorem read_delivers (file : PipeFile) (count : ℕ) :
    (file.read count).Delivers Waits Consumes file count := by
  rw [read]
  split_ifs
  · exact .of_nothing (.refl _) (fun _ => rfl) (.refl _) rfl (by simp)
  · exact .of_nothing (.refl _) (fun _ => rfl) (.refl _) rfl (by simp [TransferError.ebadf])
  · exact takeBytes_delivers (awaitFacts _ _ rfl) count

theorem write_takes (file : PipeFile) (bytes : List UInt8) :
    (file.write bytes).Takes Waits Accepts file bytes := by
  rw [write]
  split_ifs
  · exact .of_nothing (.refl _) (fun _ => rfl) (.refl _) rfl (by simp)
  · exact .of_nothing (.refl _) (fun _ => rfl) (.refl _) rfl (by simp [TransferError.ebadf])
  · exact .of_nothing (.refl _) (fun _ => rfl) (.refl _) rfl (by simp [TransferError.epipe])
  · exact putBytes_takes (awaitFacts _ _ rfl) bytes

end PipeFile

/-! ### Bytes of sockets -/

namespace SocketFile

/-- The oldest received bytes are gone, and nothing else has changed. -/
structure Consumes (before : SocketFile) (bytes : List UInt8) (after : SocketFile) : Prop where
  received_eq : before.socket.received = bytes ++ after.socket.received
  after_eq : after = before.setReceived after.socket.receiveBuffer

/-- The peer has received new bytes, and nothing else has changed. -/
structure Accepts (before : SocketFile) (bytes : List UInt8) (after : SocketFile) : Prop where
  peerReceived_eq : after.peerReceived = before.peerReceived ++ bytes
  after_eq : ∃ buffer, after = before.setPeerReceived buffer

variable {before middle after file : SocketFile} {bytes later : List UInt8} {count : ℕ}

theorem Consumes.refl (file : SocketFile) : file.Consumes [] file := ⟨rfl, rfl⟩

theorem Accepts.refl (file : SocketFile) : file.Accepts [] file := by
  refine ⟨(List.append_nil _).symm, file.connectedPeer.bind UnixSocket.receiveBuffer, ?_⟩
  rcases file with ⟨isStream, socket, _ | peer⟩ <;> rfl

theorem Consumes.trans (h : before.Consumes bytes middle) (h' : middle.Consumes later after) :
    before.Consumes (bytes ++ later) after := by
  refine ⟨?_, ?_⟩
  · rw [h.received_eq, h'.received_eq, List.append_assoc]
  · rw [h'.after_eq, h.after_eq]
    rfl

theorem Accepts.trans (h : before.Accepts bytes middle) (h' : middle.Accepts later after) :
    before.Accepts (bytes ++ later) after := by
  obtain ⟨buffer, hmiddle⟩ := h.after_eq
  obtain ⟨buffer', hafter⟩ := h'.after_eq
  refine ⟨?_, buffer', ?_⟩
  · rw [h'.peerReceived_eq, h.peerReceived_eq, List.append_assoc]
  · rw [hafter, hmiddle]
    rcases before with ⟨isStream, socket, _ | peer⟩ <;> rfl

theorem readEmpty_delivers (file : SocketFile) (count : ℕ) :
    file.readEmpty.Delivers Eq Consumes file count := by
  rw [readEmpty]
  split_ifs
  · exact .of_nothing rfl (fun _ => rfl) (.refl _) rfl (by simp)
  · exact .of_nothing rfl (fun _ => rfl) (.refl _) rfl (by simp [TransferError.eagain])

theorem readReceived_delivers (file : SocketFile) (count : ℕ) :
    (file.readReceived count).Delivers Eq Consumes file count := by
  rw [readReceived]
  rcases hbuffer : file.socket.receiveBuffer with _ | buffer
  · exact file.readEmpty_delivers count
  dsimp only
  split_ifs
  · exact file.readEmpty_delivers count
  refine ⟨⟨file, rfl, fun _ => rfl, ?_, rfl⟩, ?_, by simp⟩
  · rw [UnixSocket.received, hbuffer]
    change buffer.contents = (popMany count buffer).1 ++
      (popMany count buffer).2.contents
    rw [popMany_fst, contents_popMany, List.take_append_drop]
  · change (popMany count buffer).1.length ≤ count
    rw [popMany_fst]
    exact List.length_take_le ..

theorem read_delivers (file : SocketFile) (count : ℕ) :
    (file.read count).Delivers Eq Consumes file count := by
  rw [read]
  split_ifs
  · exact .of_nothing rfl (fun _ => rfl) (.refl _) rfl (by simp)
  · exact .of_nothing rfl (fun _ => rfl) (.refl _) rfl (by simp)
  · exact .of_nothing rfl (fun _ => rfl) (.refl _) rfl (by simp [TransferError.eagain])
  · exact file.readReceived_delivers count
  · exact .of_nothing rfl (fun _ => rfl) (.refl _) rfl (by simp [TransferError.enotconn])

theorem writePeer_takes (file : SocketFile) (bytes : List UInt8) :
    (file.writePeer bytes).Takes Eq Accepts file bytes := by
  rw [writePeer]
  rcases hpeer : file.connectedPeer with _ | peer
  · exact .of_nothing rfl (fun _ => rfl) (.refl _) rfl (by simp [TransferError.enotconn])
  dsimp only
  split_ifs
  · exact .of_nothing rfl (fun _ => rfl) (.refl _) rfl (by simp [TransferError.eagain])
  · exact .of_nothing rfl (fun _ => rfl) (.refl _) rfl (by simp [TransferError.epipe])
  rcases hbuffer : peer.receiveBuffer with _ | buffer
  · exact .of_nothing rfl (fun _ => rfl) (.refl _) rfl (by simp [TransferError.ebadf])
  dsimp only
  split_ifs
  · exact .of_nothing rfl (fun _ => rfl) (.refl _) rfl (by simp [TransferError.eagain])
  refine ⟨⟨file, rfl, fun _ => rfl, ?_, _, rfl⟩, Nat.min_le_left .., by simp⟩
  rw [peerReceived, peerReceived, setPeerReceived, hpeer]
  change (pushMany bytes buffer).contents =
    (peer.receiveBuffer.map contents).getD [] ++
      bytes.take (min bytes.length buffer.available)
  rw [hbuffer, contents_pushMany, Nat.min_comm, ← List.take_eq_take_min]
  rfl

theorem write_takes (file : SocketFile) (bytes : List UInt8) :
    (file.write bytes).Takes Eq Accepts file bytes := by
  rw [write]
  split_ifs
  · exact .of_nothing rfl (fun _ => rfl) (.refl _) rfl (by simp)
  · exact .of_nothing rfl (fun _ => rfl) (.refl _) rfl (by simp [TransferError.epipe])
  · exact file.writePeer_takes bytes
  · exact .of_nothing rfl (fun _ => rfl) (.refl _) rfl (by simp [TransferError.ebadf])

end SocketFile

/-! ### Bytes of regular files -/

/-- Bytes that are written one after the other are written together. -/
theorem writtenContent_append (content bytes later : List UInt8) (offset : ℕ) :
    writtenContent (writtenContent content offset bytes) (offset + bytes.length) later =
      writtenContent content offset (bytes ++ later) := by
  by_cases hbytes : bytes = []
  · rw [hbytes, List.nil_append, List.length_nil, Nat.add_zero, writtenContent, writtenContent,
      if_pos rfl, writtenContent]
  by_cases hlater : later = []
  · rw [hlater, List.append_nil, writtenContent, if_pos rfl]
  have happend : bytes ++ later ≠ [] := by simp [hbytes]
  refine ext_getD ?_ fun i _ => ?_
  · rw [length_writtenContent hlater, length_writtenContent hbytes, length_writtenContent happend,
      List.length_append]
    omega
  · rw [getD_writtenContent hlater, getD_writtenContent hbytes, getD_writtenContent happend,
      List.length_append]
    split_ifs
    · rw [List.getD_append_right _ _ _ _ (by omega), Nat.sub_add_eq]
    · omega
    · rw [List.getD_append _ _ _ _ (by omega)]
    · omega
    · omega
    · rfl

namespace FileINode

variable {node : FileINode} {resources : KernelResources} {offset count : ℕ} {bytes : List UInt8}
  {code : ℤ}

/-- The data that is loaded is in the buffer. -/
theorem loadContent_node (node : FileINode) (resources : KernelResources) :
    (node.loadContent resources).2 = node ∨ (node.loadContent resources).2.nodeData.isSome := by
  rw [loadContent]
  rcases node.lazyLoadContext with _ | fs
  · exact .inl rfl
  dsimp only
  split_ifs
  · exact .inl rfl
  · rcases fs.loadInodeData resources.readable node.backingInodeNumber node.nodeSize with _ | data
    · exact .inl rfl
    · exact .inr rfl

theorem ensureLazyLoadedINodeData_node (node : FileINode) (resources : KernelResources) :
    (node.ensureLazyLoadedINodeData resources).2 = node ∨
      (node.ensureLazyLoadedINodeData resources).2.nodeData.isSome := by
  rw [ensureLazyLoadedINodeData]
  split_ifs
  · exact .inl rfl
  · exact .inl rfl
  · exact .inl rfl
  · exact node.loadContent_node resources

theorem readBuffer_eq_error (h : node.readBuffer offset count = .error code) :
    code = FileError.efault := by
  rw [readBuffer] at h
  rcases hdata : node.nodeData with _ | data
  · rw [hdata] at h
    dsimp only at h
    split_ifs at h
    exact (Except.error.inj h).symm
  · rw [hdata] at h
    dsimp only at h
    split_ifs at h

theorem length_readBuffer_le (h : node.readBuffer offset count = .ok bytes) :
    bytes.length ≤ count := by
  rw [readBuffer] at h
  rcases hdata : node.nodeData with _ | data
  · rw [hdata] at h
    dsimp only at h
    split_ifs at h
    rw [← Except.ok.inj h]
    exact Nat.zero_le _
  · rw [hdata] at h
    dsimp only at h
    split_ifs at h
    · rw [← Except.ok.inj h]
      exact Nat.zero_le _
    · rw [← Except.ok.inj h]
      exact (List.length_take_le ..).trans (Nat.min_le_left ..)

/-- What is known of a read in any case: a loaded inode has a buffer. -/
structure ReadFacts (node : FileINode) (count : ℕ) (r : Except ℤ (List UInt8) × FileINode) :
    Prop where
  node_eq : r.2 = node ∨ r.2.nodeData.isSome
  error_neg : ∀ code, r.1 = .error code → code < 0
  length_le : ∀ bytes, r.1 = .ok bytes → bytes.length ≤ count

theorem readBuffer_facts {loaded : FileINode} (h : loaded = node ∨ loaded.nodeData.isSome)
    (offset count : ℕ) : ReadFacts node count (loaded.readBuffer offset count, loaded) where
  node_eq := h
  error_neg := fun code hcode => by
    rw [readBuffer_eq_error hcode]
    decide
  length_le := fun bytes hbytes => length_readBuffer_le hbytes

theorem read_facts (node : FileINode) (resources : KernelResources) (offset count : ℕ) :
    ReadFacts node count (node.read resources offset count) := by
  rw [read]
  split_ifs with hdir hfile hcount
  · exact ⟨.inl rfl, by simp [FileError.eisdir], by simp⟩
  · exact ⟨.inl rfl, by simp [FileError.enosys], by simp⟩
  · exact ⟨.inl rfl, by simp, by simp⟩
  rcases node.backingFileSystem with _ | fs
  · dsimp only
    rw [readLoaded]
    split_ifs
    · have hloaded := node.ensureLazyLoadedINodeData_node resources
      rcases hensure : node.ensureLazyLoadedINodeData resources with ⟨_ | _, loaded⟩ <;>
      rw [hensure] at hloaded
      · exact ⟨hloaded, by simp [FileError.efault], by simp⟩
      · exact readBuffer_facts hloaded offset count
    · exact readBuffer_facts (.inl rfl) offset count
  · dsimp only
    rw [readRange]
    split_ifs
    · exact ⟨.inl rfl, by simp, by simp⟩
    · rcases hload : fs.loadInodeDataRange resources.readable node.backingInodeNumber offset
        (node.readCount offset count) with _ | bytes
      · exact ⟨.inl rfl, by simp [FileError.efault], by simp⟩
      · refine ⟨.inl rfl, by simp, fun bytes' hbytes => ?_⟩
        rw [← Except.ok.inj hbytes]
        exact (ExtendedFileSystem.length_loadInodeDataRange_le hload).trans (Nat.min_le_left ..)

theorem ensureGrown_node (node : FileINode) (resources : KernelResources) (requiredSize : ℕ) :
    (node.ensureGrown resources requiredSize).2 = node ∨
      (node.ensureGrown resources requiredSize).2.nodeData.isSome := by
  rw [ensureGrown]
  split_ifs
  · exact .inl rfl
  · exact .inr rfl

theorem ensureWritableINodeCapacity_node (node : FileINode) (resources : KernelResources)
    (requiredSize : ℕ) : (node.ensureWritableINodeCapacity resources requiredSize).2 = node ∨
      (node.ensureWritableINodeCapacity resources requiredSize).2.nodeData.isSome := by
  rw [ensureWritableINodeCapacity]
  split_ifs
  · exact .inl rfl
  · exact .inl rfl
  · have hloaded := node.ensureLazyLoadedINodeData_node resources
    rcases hensure : node.ensureLazyLoadedINodeData resources with ⟨_ | _, loaded⟩ <;>
      rw [hensure] at hloaded
    · exact hloaded
    · dsimp only
      split_ifs with hroom
      · exact .inr hroom.1
      · rcases loaded.ensureGrown_node resources requiredSize with hsame | hsome
        · rw [hsame]
          exact hloaded
        · exact .inr hsome
  · exact node.ensureGrown_node resources requiredSize

/-- What is known of a write in any case. -/
structure WriteFacts (node : FileINode) (bytes : List UInt8) (r : Except ℤ ℕ × FileINode) :
    Prop where
  node_eq : r.2 = node ∨ r.2.nodeData.isSome
  error_neg : ∀ code, r.1 = .error code → code < 0
  count_eq : ∀ count, r.1 = .ok count → count = bytes.length

theorem write_facts (node : FileINode) (resources : KernelResources) (offset : ℕ)
    (bytes : List UInt8) : WriteFacts node bytes (node.write resources offset bytes) := by
  rw [write]
  split_ifs with hdir hfile hempty
  · exact ⟨.inl rfl, by simp [FileError.eisdir], by simp⟩
  · exact ⟨.inl rfl, by simp [FileError.enosys], by simp⟩
  · exact ⟨.inl rfl, by simp, by simp [hempty]⟩
  · exact ⟨.inl rfl, by simp [FileError.enospc], by simp⟩
  have hloaded := node.ensureWritableINodeCapacity_node resources (offset + bytes.length)
  rcases hensure : node.ensureWritableINodeCapacity resources (offset + bytes.length) with
    ⟨_ | _, loaded⟩ <;> rw [hensure] at hloaded
  · exact ⟨hloaded, by simp [FileError.enospc], by simp⟩
  · exact ⟨.inr rfl, by simp, by simp⟩

end FileINode

namespace RegularFile

/-- The file has these bytes, and its blocks are found on the disk. -/
structure Has (file : RegularFile) (content : List UInt8) : Prop where
  holds : file.node.Holds content
  loads : ∀ i, file.node.LoadsExactly (file.resources i)
  reads : ∀ i offset count, file.node.ReadsExactly (file.resources i) offset count

/-- The offset has moved over the bytes, and the file is the same. -/
structure Consumes (before : RegularFile) (bytes : List UInt8) (after : RegularFile) : Prop where
  currentOffset_eq : after.currentOffset = before.currentOffset + bytes.length
  has : ∀ content, before.Has content → after.Has content ∧
    bytes <+: content.drop before.currentOffset

/-- The offset has moved over the bytes, and they are in the file. -/
structure Accepts (before : RegularFile) (bytes : List UInt8) (after : RegularFile) : Prop where
  currentOffset_eq : after.currentOffset = before.currentOffset + bytes.length
  has : ∀ content, before.Has content →
    after.Has (writtenContent content before.currentOffset bytes)

variable {before middle after file : RegularFile} {bytes later content : List UInt8} {count : ℕ}
  {node : FileINode}

theorem Consumes.refl (file : RegularFile) : file.Consumes [] file :=
  ⟨rfl, fun _ h => ⟨h, List.nil_prefix⟩⟩

theorem Accepts.refl (file : RegularFile) : file.Accepts [] file :=
  ⟨rfl, fun _ h => h⟩

theorem Consumes.trans (h : before.Consumes bytes middle) (h' : middle.Consumes later after) :
    before.Consumes (bytes ++ later) after := by
  refine ⟨?_, fun content hcontent => ?_⟩
  · rw [h'.currentOffset_eq, h.currentOffset_eq, List.length_append, Nat.add_assoc]
  · obtain ⟨hmiddle, rest, hrest⟩ := h.has content hcontent
    obtain ⟨hafter, hlater⟩ := h'.has content hmiddle
    rw [h.currentOffset_eq, ← List.drop_drop, ← hrest, List.drop_left] at hlater
    exact ⟨hafter, hrest ▸ (List.prefix_append_right_inj bytes).mpr hlater⟩

theorem Accepts.trans (h : before.Accepts bytes middle) (h' : middle.Accepts later after) :
    before.Accepts (bytes ++ later) after := by
  refine ⟨?_, fun content hcontent => ?_⟩
  · rw [h'.currentOffset_eq, h.currentOffset_eq, List.length_append, Nat.add_assoc]
  · rw [← writtenContent_append, ← h.currentOffset_eq]
    exact h'.has _ (h.has content hcontent)

/-- An inode that is the same or has a buffer finds its bytes in later operations. -/
theorem has_advance (hloads : ∀ i, file.node.LoadsExactly (file.resources i))
    (hreads : ∀ i offset count, file.node.ReadsExactly (file.resources i) offset count)
    (hnode : node = file.node ∨ node.nodeData.isSome) (hholds : node.Holds content) (count : ℕ) :
    (file.advance node count).Has content := by
  rcases hnode with rfl | hdata
  · exact ⟨hholds, fun i => hloads (i + 1), fun i => hreads (i + 1)⟩
  · refine ⟨hholds, fun i _ _ hnone => ?_, fun i offset count fs hfs => ?_⟩
    · rw [show node.nodeData = none from hnone] at hdata
      exact absurd hdata (by simp)
    · have hnone := (FileINode.backingFileSystem_eq_some.mp hfs).1
      rw [show node.nodeData = none from hnone] at hdata
      exact absurd hdata (by simp)

theorem read_delivers (file : RegularFile) (count : ℕ) :
    (file.read count).Delivers Eq Consumes file count := by
  have hfacts := file.node.read_facts (file.resources 0) file.currentOffset count
  have hkeeps := fun content (h : file.Has content) =>
    h.holds.read (h.reads 0 file.currentOffset count)
  rw [read]
  rcases hread : file.node.read (file.resources 0) file.currentOffset count with
    ⟨code | bytes, node⟩
  · rw [hread] at hfacts hkeeps
    refine ⟨⟨file, rfl, fun _ => rfl, rfl, fun content h => ⟨?_, List.nil_prefix⟩⟩, Nat.zero_le _,
      by simpa using hfacts.error_neg⟩
    exact has_advance h.loads h.reads hfacts.node_eq (hkeeps content h).1.holds 0
  · rw [hread] at hfacts hkeeps
    refine ⟨⟨file, rfl, fun _ => rfl, rfl, fun content h => ⟨?_, ?_⟩⟩, hfacts.length_le bytes rfl,
      by simp⟩
    · exact has_advance h.loads h.reads hfacts.node_eq (hkeeps content h).1.holds bytes.length
    · change bytes <+: content.drop file.currentOffset
      rw [(hkeeps content h).2 bytes rfl]
      exact List.take_prefix ..

theorem write_takes (file : RegularFile) (bytes : List UInt8) :
    (file.write bytes).Takes Eq Accepts file bytes := by
  have hfacts := file.node.write_facts (file.resources 0) file.currentOffset bytes
  have hkeeps := fun content (h : file.Has content) =>
    @FileINode.Holds.write _ content bytes _ file.currentOffset h.holds fun _ => h.loads 0
  rw [write]
  rcases hwrite : file.node.write (file.resources 0) file.currentOffset bytes with
    ⟨code | count, node⟩
  · rw [hwrite] at hfacts hkeeps
    refine ⟨⟨file, rfl, fun _ => rfl, rfl, fun content h => ?_⟩, Nat.zero_le _,
      by simpa using hfacts.error_neg⟩
    exact has_advance h.loads h.reads hfacts.node_eq ((hkeeps content h).1 code node rfl).holds 0
  · rw [hwrite] at hfacts hkeeps
    obtain rfl := hfacts.count_eq count rfl
    refine ⟨⟨file, rfl, fun _ => rfl, ?_, fun content h => ?_⟩, Nat.le_refl _, by simp⟩
    · change file.currentOffset + bytes.length =
        file.currentOffset + (bytes.take bytes.length).length
      rw [List.take_length]
    · change (file.advance node bytes.length).Has (writtenContent content file.currentOffset
        (bytes.take bytes.length))
      rw [List.take_length]
      exact has_advance h.loads h.reads hfacts.node_eq ((hkeeps content h).2 _ node rfl).2.1 _

end RegularFile

/-! ### Bytes of objects -/

namespace ByteObject

/-- The caller may have slept, and woken up to another state of the object. -/
def Waits : ByteObject → ByteObject → Prop
  | .pipe file, .pipe later => file.Waits later
  | .socket file, .socket later => file = later
  | .regular file, .regular later => file = later
  | _, _ => False

/-- The bytes were taken from the object, and nothing else has changed. -/
def Consumes : ByteObject → List UInt8 → ByteObject → Prop
  | .pipe before, bytes, .pipe after => before.Consumes bytes after
  | .socket before, bytes, .socket after => before.Consumes bytes after
  | .regular before, bytes, .regular after => before.Consumes bytes after
  | _, _, _ => False

/-- The object has taken the bytes, and nothing else has changed. -/
def Accepts : ByteObject → List UInt8 → ByteObject → Prop
  | .pipe before, bytes, .pipe after => before.Accepts bytes after
  | .socket before, bytes, .socket after => before.Accepts bytes after
  | .regular before, bytes, .regular after => before.Accepts bytes after
  | _, _, _ => False

variable {before middle after : ByteObject} {bytes later : List UInt8}

theorem Waits.refl (object : ByteObject) : object.Waits object := by
  cases object with
  | pipe file => exact PipeFile.Waits.refl file
  | socket file => rfl
  | regular file => rfl

theorem Consumes.refl (object : ByteObject) : object.Consumes [] object := by
  cases object with
  | pipe file => exact PipeFile.Consumes.refl file
  | socket file => exact SocketFile.Consumes.refl file
  | regular file => exact RegularFile.Consumes.refl file

theorem Accepts.refl (object : ByteObject) : object.Accepts [] object := by
  cases object with
  | pipe file => exact PipeFile.Accepts.refl file
  | socket file => exact SocketFile.Accepts.refl file
  | regular file => exact RegularFile.Accepts.refl file

theorem Consumes.trans (h : before.Consumes bytes middle) (h' : middle.Consumes later after) :
    before.Consumes (bytes ++ later) after := by
  cases before <;> cases middle <;> cases after <;>
    first | exact absurd h id | exact absurd h' id | skip
  · exact PipeFile.Consumes.trans h h'
  · exact SocketFile.Consumes.trans h h'
  · exact RegularFile.Consumes.trans h h'

theorem Accepts.trans (h : before.Accepts bytes middle) (h' : middle.Accepts later after) :
    before.Accepts (bytes ++ later) after := by
  cases before <;> cases middle <;> cases after <;>
    first | exact absurd h id | exact absurd h' id | skip
  · exact PipeFile.Accepts.trans h h'
  · exact SocketFile.Accepts.trans h h'
  · exact RegularFile.Accepts.trans h h'

/-- A read consumes the bytes that it returns. -/
theorem read_delivers (object : ByteObject) (count : ℕ) :
    (object.read count).Delivers Waits Consumes object count := by
  cases object with
  | pipe file => exact (file.read_delivers count).lift _ (fun _ _ h => h) fun _ _ _ h => h
  | socket file => exact (file.read_delivers count).lift _ (fun _ _ h => h) fun _ _ _ h => h
  | regular file => exact (file.read_delivers count).lift _ (fun _ _ h => h) fun _ _ _ h => h

/-- A write accepts as many bytes as it returns. -/
theorem write_takes (object : ByteObject) (bytes : List UInt8) :
    (object.write bytes).Takes Waits Accepts object bytes := by
  cases object with
  | pipe file => exact (file.write_takes bytes).lift _ (fun _ _ h => h) fun _ _ _ h => h
  | socket file => exact (file.write_takes bytes).lift _ (fun _ _ h => h) fun _ _ _ h => h
  | regular file => exact (file.write_takes bytes).lift _ (fun _ _ h => h) fun _ _ _ h => h

end ByteObject

end TwistedOS
