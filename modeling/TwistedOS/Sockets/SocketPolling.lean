import TwistedOS.Epoll.EpollCalls
import TwistedOS.Sockets.SocketStreams

/-!
# Polling of pipes and sockets

`PipePoll` and `SocketPoll` say whether a read or a write can be made at once. They look at the same
fields as the reads and the writes.

## Main definitions

* `PipeFile.poll`, `SocketManager.socketPoll`.
* `PollAgrees`, `PollAgreesExactly`.
* `SocketManager.OnlyStreams`.

## Main results

* `PipeFile.poll_agrees`, `SocketFile.poll_agrees`.
* `SocketManager.Run.onlyStreams`.
* `SocketManager.pollAgrees_of_reachable`, `SocketManager.not_pollAgreesExactly_halfClosed`.
-/

namespace TwistedOS

open Function

/-! ### What polling means -/

/-- What a poll reports agrees with reads and writes that follow at once, where `readNow` and
`writeNow` are those of a descriptor that does not wait. -/
structure PollAgrees {ω : Type*} (poll : UInt32 → UInt32)
    (read readNow : ℕ → OperationResult ω (List UInt8))
    (write writeNow : List UInt8 → OperationResult ω ℕ) : Prop where
  readable : ∀ requested count, poll requested &&& epollIn ≠ 0 → 0 < count →
    (read count).slept = false ∧ (read count).result ≠ none ∧
      (read count).result ≠ some (.error TransferError.eagain)
  writable : ∀ requested bytes, poll requested &&& epollOut ≠ 0 → bytes ≠ [] →
    (write bytes).slept = false ∧ ∃ count, (write bytes).result = some (.ok count) ∧ 1 ≤ count
  /-- Where a read would have to wait, the other events are those of writes that fail. -/
  unreadable : ∀ requested count, (readNow count).result = some (.error TransferError.eagain) →
    poll requested &&& epollIn = 0 ∧
      (poll requested &&& (epollErr ||| epollHup) ≠ 0 → requested &&& epollOut ≠ 0 ∧
        ∀ bytes ≠ [], ∃ code ≠ TransferError.eagain,
          (writeNow bytes).result = some (.error code))
  /-- Where a write would have to wait, the other events are those of reads that find the end. -/
  unwritable : ∀ requested bytes, (writeNow bytes).result = some (.error TransferError.eagain) →
    poll requested &&& epollOut = 0 ∧
      (poll requested &&& (epollErr ||| epollHup) ≠ 0 → requested &&& epollIn ≠ 0 ∧
        ∀ count > 0, (readNow count).result = some (.ok []))

/-- Where a read or a write would have to wait, a poll that asks for it reports nothing. -/
structure PollAgreesExactly {ω : Type*} (poll : UInt32 → UInt32)
    (readNow : ℕ → OperationResult ω (List UInt8)) (writeNow : List UInt8 → OperationResult ω ℕ) :
    Prop where
  unreadable : ∀ requested count, requested &&& epollIn ≠ 0 →
    (readNow count).result = some (.error TransferError.eagain) →
      poll requested &&& (epollIn ||| epollErr ||| epollHup) = 0
  unwritable : ∀ requested bytes, requested &&& epollOut ≠ 0 →
    (writeNow bytes).result = some (.error TransferError.eagain) →
      poll requested &&& (epollOut ||| epollErr ||| epollHup) = 0

/-! ### Pipes -/

namespace PipeFile

variable (file : PipeFile)

/-- `PipePoll`. -/
def poll (requested : UInt32) : UInt32 :=
  if file.isReadEnd then
    if requested &&& epollIn ≠ 0 then
      if hasBytes file.pipe then epollIn
      else if noWriter file.pipe then epollHup
      else 0
    else 0
  else if requested &&& epollOut ≠ 0 then
    if noReader file.pipe then epollErr ||| epollHup
    else if hasSpace file.pipe then epollOut
    else 0
  else 0

/-- The file over the same pipe that does not wait. -/
def nonblocking : PipeFile := { file with nonblock := true }

variable {file} {requested : UInt32} {count : ℕ} {bytes : List UInt8}

theorem poll_in_iff : file.poll requested &&& epollIn ≠ 0 ↔
    requested &&& epollIn ≠ 0 ∧ file.isReadEnd = true ∧ hasBytes file.pipe = true := by
  rw [poll]
  split_ifs <;> simp_all +decide

theorem poll_out_iff : file.poll requested &&& epollOut ≠ 0 ↔
    requested &&& epollOut ≠ 0 ∧ file.isReadEnd = false ∧ noReader file.pipe = false ∧
      hasSpace file.pipe = true := by
  rw [poll]
  split_ifs <;> simp_all +decide

theorem poll_end_iff : file.poll requested &&& (epollErr ||| epollHup) ≠ 0 ↔
    (requested &&& epollIn ≠ 0 ∧ file.isReadEnd = true ∧ hasBytes file.pipe = false ∧
      noWriter file.pipe = true) ∨
    (requested &&& epollOut ≠ 0 ∧ file.isReadEnd = false ∧ noReader file.pipe = true) := by
  rw [poll]
  split_ifs <;> simp_all +decide

/-- A read that would have to wait finds an empty pipe with a writer. -/
theorem of_read_eagain (file : PipeFile) (hnonblock : file.nonblock = true)
    (h : (file.read count).result = some (.error TransferError.eagain)) :
    file.isReadEnd = true ∧ hasBytes file.pipe = false ∧ noWriter file.pipe = false := by
  rw [read] at h
  split_ifs at h with hcount hread
  · cases h
  · cases h
  rw [awaitFrom.eq_def] at h
  split_ifs at h with hbytes hwriter
  · cases h
  · cases h
  · exact ⟨by simpa using hread, by simpa using hbytes, by simpa using hwriter⟩

/-- A write that would have to wait finds a full pipe with a reader. -/
theorem of_write_eagain (file : PipeFile) (hnonblock : file.nonblock = true)
    (h : (file.write bytes).result = some (.error TransferError.eagain)) :
    file.isReadEnd = false ∧ hasSpace file.pipe = false ∧ noReader file.pipe = false := by
  rw [write] at h
  split_ifs at h with hbytes hread hreader
  · cases h
  · cases h
  · cases h
  rw [awaitFrom.eq_def] at h
  split_ifs at h with hspace
  · cases h
  · exact ⟨by simpa using hread, by simpa using hspace, by simpa using hreader⟩

/-- Polling a pipe agrees with reading and writing it. -/
theorem poll_agrees (file : PipeFile) : PollAgrees file.poll file.read file.nonblocking.read
    file.write file.nonblocking.write where
  readable requested count h hcount := by
    obtain ⟨-, hread, hbytes⟩ := poll_in_iff.mp h
    rw [read, if_neg hcount.ne', if_neg (by simp [hread]), awaitFrom.eq_def, if_pos hbytes]
    exact ⟨rfl, by simp [takeBytes], by simp [takeBytes]⟩
  writable requested bytes h hbytes := by
    obtain ⟨-, hread, hreader, hspace⟩ := poll_out_iff.mp h
    rw [write, if_neg hbytes, if_neg (by simp [hread]), if_neg (by simp [hreader]),
      awaitFrom.eq_def, if_pos hspace]
    refine ⟨rfl, _, rfl, ?_⟩
    have hlength := List.length_pos_iff.mpr hbytes
    have havailable := of_decide_eq_true hspace
    dsimp only
    omega
  unreadable requested count h := by
    obtain ⟨hread, hbytes, hwriter⟩ := of_read_eagain file.nonblocking rfl h
    change file.isReadEnd = true at hread
    change hasBytes file.pipe = false at hbytes
    change noWriter file.pipe = false at hwriter
    refine ⟨not_ne_iff.mp fun hin => ?_, fun hend => ?_⟩
    · simp [(poll_in_iff.mp hin).2.2] at hbytes
    · rcases poll_end_iff.mp hend with ⟨-, -, -, hnone⟩ | ⟨-, hwrite, -⟩
      · simp [hnone] at hwriter
      · simp [hwrite] at hread
  unwritable requested bytes h := by
    obtain ⟨hread, hspace, hreader⟩ := of_write_eagain file.nonblocking rfl h
    change file.isReadEnd = false at hread
    change hasSpace file.pipe = false at hspace
    change noReader file.pipe = false at hreader
    refine ⟨not_ne_iff.mp fun hout => ?_, fun hend => ?_⟩
    · simp [(poll_out_iff.mp hout).2.2.2] at hspace
    · rcases poll_end_iff.mp hend with ⟨-, hwrite, -⟩ | ⟨-, -, hnone⟩
      · simp [hwrite] at hread
      · simp [hnone] at hreader

end PipeFile

/-! ### Sockets -/

namespace SocketFile

variable (file : SocketFile)

/-- `ReceiveBufferedBytes`. -/
def bufferedBytes : ℕ := (file.socket.receiveBuffer.map fun r => r.buffered).getD 0

/-- `ReceiveBufferedBytes` of a socket is less than `ReceiveBufferCapacity`. -/
def hasSpace (socket : UnixSocket) : Bool :=
  (socket.receiveBuffer.map fun r => decide (r.buffered < 65536)).getD false

/-- The part of `SocketPoll` for `LINUX_POLLIN` of a Unix socket, with its queue. -/
def pollIn (pending : List ℕ) (requested : UInt32) : UInt32 :=
  if requested &&& epollIn ≠ 0 then
    if file.socket.isListening then
      if pending ≠ [] then epollIn else 0
    else if 0 < file.bufferedBytes then epollIn
    else if file.socket.isShutdownRead then epollHup
    else if file.peerIsDone then epollHup
    else 0
  else 0

/-- The part of `SocketPoll` for `LINUX_POLLOUT` of a Unix socket. -/
def pollOut (requested : UInt32) : UInt32 :=
  if requested &&& epollOut ≠ 0 then
    if file.socket.isShutdownWrite then epollErr
    else
      match file.connectedPeer with
      | none => epollErr ||| epollHup
      | some peer =>
        if peer.isListening then 0
        else if !peer.isShutdownRead && hasSpace peer then epollOut
        else if peer.isShutdownRead then epollErr ||| epollHup
        else 0
  else 0

/-- The part of `SocketPoll` for Unix sockets. -/
def poll (pending : List ℕ) (requested : UInt32) : UInt32 :=
  file.pollIn pending requested ||| file.pollOut requested

variable {file} {pending : List ℕ} {requested : UInt32} {count : ℕ} {bytes : List UInt8}

theorem pollIn_cases (pending : List ℕ) (requested : UInt32)
    (hlistening : file.socket.isListening = false) :
    file.pollIn pending requested = 0 ∨
    (file.pollIn pending requested = epollIn ∧ requested &&& epollIn ≠ 0 ∧
      0 < file.bufferedBytes) ∨
    (file.pollIn pending requested = epollHup ∧ requested &&& epollIn ≠ 0 ∧
      file.bufferedBytes = 0 ∧ (file.socket.isShutdownRead = true ∨ file.peerIsDone = true)) := by
  rw [pollIn]
  split_ifs <;> simp_all

theorem pollOut_cases (file : SocketFile) (requested : UInt32) :
    (file.pollOut requested = 0) ∨
    (file.pollOut requested = epollOut ∧ requested &&& epollOut ≠ 0 ∧
      file.socket.isShutdownWrite = false ∧ ∃ peer, file.connectedPeer = some peer ∧
        peer.isListening = false ∧ peer.isShutdownRead = false ∧ hasSpace peer = true) ∨
    ((file.pollOut requested = epollErr ∨ file.pollOut requested = epollErr ||| epollHup) ∧
      requested &&& epollOut ≠ 0 ∧ (file.socket.isShutdownWrite = true ∨
        file.connectedPeer = none ∨ ∃ peer, file.connectedPeer = some peer ∧
          peer.isListening = false ∧ peer.isShutdownRead = true)) := by
  rw [pollOut]
  rcases hpeer : file.connectedPeer with _ | peer
  · split_ifs <;> simp_all
  · dsimp only
    split_ifs <;> simp_all

theorem bufferedBytes_eq {buffer : RingBuffer UInt8 65536}
    (hbuffer : file.socket.receiveBuffer = some buffer) : file.bufferedBytes = buffer.buffered := by
  rw [bufferedBytes, hbuffer, Option.map_some, Option.getD_some]

theorem readReceived_of_empty (h : file.bufferedBytes = 0) :
    file.readReceived count = file.readEmpty := by
  rw [readReceived]
  rcases hbuffer : file.socket.receiveBuffer with _ | buffer
  · rfl
  · exact if_pos ((bufferedBytes_eq hbuffer).symm.trans h)

theorem readReceived_of_pos (h : 0 < file.bufferedBytes) (count : ℕ) : ∃ bytes,
    (file.readReceived count).slept = false ∧
      (file.readReceived count).result = some (.ok bytes) := by
  rw [readReceived]
  rcases hbuffer : file.socket.receiveBuffer with _ | buffer
  · rw [bufferedBytes, hbuffer] at h
    exact absurd h (lt_irrefl 0)
  · rw [bufferedBytes_eq hbuffer] at h
    dsimp only
    rw [if_neg h.ne']
    exact ⟨_, rfl, rfl⟩

/-- A read that would have to wait finds no bytes and a peer that may still send some. -/
theorem of_read_eagain (hlistening : file.socket.isListening = false)
    (h : (file.read count).result = some (.error TransferError.eagain)) :
    file.socket.isShutdownRead = false ∧ file.bufferedBytes = 0 ∧ file.peerIsDone = false := by
  rw [read] at h
  split_ifs at h with hcount hshut hlisten hstream
  · cases h
  · cases h
  · simp [hlistening] at hlisten
  · obtain hzero | hpos := Nat.eq_zero_or_pos file.bufferedBytes
    · rw [readReceived_of_empty hzero, readEmpty] at h
      refine ⟨by simpa using hshut, hzero, ?_⟩
      by_contra hdone
      simp [hdone] at h
    · obtain ⟨bytes, -, hok⟩ := readReceived_of_pos hpos count
      rw [hok] at h
      cases h
  · cases h

/-- A write that would have to wait finds a peer that was not accepted yet or has no space. -/
theorem of_write_eagain
    (h : (file.write bytes).result = some (.error TransferError.eagain)) :
    file.socket.isShutdownWrite = false ∧ file.isStream = true ∧
      ∃ peer, file.connectedPeer = some peer ∧
        (peer.isListening = true ∨ peer.isShutdownRead = false ∧ hasSpace peer = false) := by
  rw [write] at h
  split_ifs at h with hbytes hshut hstream
  · cases h
  · cases h
  · rw [Bool.and_eq_true] at hstream
    refine ⟨by simpa using hshut, hstream.2, ?_⟩
    rw [writePeer] at h
    rcases hpeer : file.connectedPeer with _ | peer
    · rw [hpeer] at h
      cases h
    rw [hpeer] at h
    refine ⟨peer, rfl, ?_⟩
    dsimp only at h
    split_ifs at h with hlistening hread
    · exact .inl hlistening
    · cases h
    refine .inr ⟨by simpa using hread, ?_⟩
    rw [hasSpace]
    rcases hbuffer : peer.receiveBuffer with _ | buffer
    · rfl
    rw [hbuffer] at h
    dsimp only at h
    split_ifs at h with hfull
    · have hle : ¬buffer.buffered < 65536 := by
        rw [RingBuffer.available] at hfull
        omega
      simp [hle]
    · cases h
  · cases h

section

variable (hlistening : file.socket.isListening = false)

include hlistening

/-- A write fails when the direction is shut down at either side. -/
theorem write_fails (hbytes : bytes ≠ []) (hstream : file.isStream = true)
    (h : file.socket.isShutdownWrite = true ∨
      ∃ peer, file.connectedPeer = some peer ∧ peer.isListening = false ∧
        peer.isShutdownRead = true) :
    (file.write bytes).result = some (.error TransferError.epipe) := by
  rw [write, if_neg hbytes]
  by_cases hshut : file.socket.isShutdownWrite = true
  · rw [if_pos hshut]
  obtain ⟨peer, hpeer, hpeerListening, hread⟩ := h.resolve_left hshut
  rw [if_neg hshut, if_pos (by simp [hlistening, hstream]), writePeer, hpeer]
  dsimp only
  rw [if_neg (by simp [hpeerListening]), if_pos hread]

/-- A read finds the end when the direction is shut down at either side. -/
theorem read_ends (hcount : 0 < count) (hstream : file.isStream = true)
    (hzero : file.bufferedBytes = 0)
    (h : file.socket.isShutdownRead = true ∨ file.peerIsDone = true) :
    (file.read count).result = some (.ok []) := by
  rw [read, if_neg hcount.ne']
  by_cases hshut : file.socket.isShutdownRead = true
  · rw [if_pos hshut]
  rw [if_neg hshut, if_neg (by simp [hlistening]), if_pos hstream, readReceived_of_empty hzero,
    readEmpty, if_pos (h.resolve_left hshut)]

theorem read_of_pos (hcount : 0 < count) (hpos : 0 < file.bufferedBytes) :
    (file.read count).slept = false ∧
      (file.read count).result ≠ none ∧
        (file.read count).result ≠ some (.error TransferError.eagain) := by
  rw [read, if_neg hcount.ne']
  split_ifs with hshut hlisten hstream
  · exact ⟨rfl, by simp, by simp⟩
  · simp [hlistening] at hlisten
  · obtain ⟨bytes, hslept, hok⟩ := readReceived_of_pos hpos count
    exact ⟨hslept, by simp [hok], by simp [hok]⟩
  · exact ⟨rfl, by simp, by simp [TransferError.enotconn, TransferError.eagain]⟩

theorem write_of_space (hbytes : bytes ≠ []) (hstream : file.isStream = true)
    (hshut : file.socket.isShutdownWrite = false) {peer : UnixSocket}
    (hpeer : file.connectedPeer = some peer) (hpeerListening : peer.isListening = false)
    (hread : peer.isShutdownRead = false) (hspace : hasSpace peer = true) :
    (file.write bytes).slept = false ∧
      ∃ count, (file.write bytes).result = some (.ok count) ∧ 1 ≤ count := by
  rw [hasSpace] at hspace
  rcases hbuffer : peer.receiveBuffer with _ | buffer
  · simp [hbuffer] at hspace
  have hlt : buffer.buffered < 65536 := by simpa [hbuffer] using hspace
  have hlength := List.length_pos_iff.mpr hbytes
  rw [write, if_neg hbytes, if_neg (by simp [hshut]), if_pos (by simp [hlistening, hstream]),
    writePeer, hpeer]
  dsimp only
  rw [if_neg (by simp [hpeerListening]), if_neg (by simp [hread]), hbuffer]
  dsimp only
  rw [RingBuffer.available, if_neg (by omega)]
  exact ⟨rfl, _, rfl, by omega⟩

theorem pollIn_of_poll (h : file.poll pending requested &&& epollIn ≠ 0) :
    0 < file.bufferedBytes := by
  rw [poll] at h
  obtain hin | ⟨-, -, hpos⟩ | ⟨hin, -⟩ :=
    pollIn_cases pending requested hlistening
  · obtain hout | ⟨hout, -⟩ | ⟨hout | hout, -⟩ := pollOut_cases file requested <;>
      simp +decide [hin, hout] at h
  · exact hpos
  · obtain hout | ⟨hout, -⟩ | ⟨hout | hout, -⟩ := pollOut_cases file requested <;>
      simp +decide [hin, hout] at h

theorem pollOut_of_poll (h : file.poll pending requested &&& epollOut ≠ 0) :
    file.socket.isShutdownWrite = false ∧ ∃ peer, file.connectedPeer = some peer ∧
      peer.isListening = false ∧ peer.isShutdownRead = false ∧ hasSpace peer = true := by
  rw [poll] at h
  obtain hout | ⟨-, -, hspace⟩ | ⟨hout, -⟩ := pollOut_cases file requested
  · obtain hin | ⟨hin, -⟩ | ⟨hin, -⟩ := pollIn_cases pending requested hlistening <;>
      simp +decide [hin, hout] at h
  · exact hspace
  · obtain hin | ⟨hin, -⟩ | ⟨hin, -⟩ := pollIn_cases pending requested hlistening <;>
      obtain hout | hout := hout <;>
        simp +decide [hin, hout] at h

/-- Polling a Unix socket that does not listen agrees with reading and writing it. -/
theorem poll_agrees (hstream : file.connectedPeer ≠ none → file.isStream = true) :
    PollAgrees (file.poll pending) file.read file.read file.write file.write where
  readable requested count h hcount :=
    read_of_pos hlistening hcount (pollIn_of_poll hlistening h)
  writable requested bytes h hbytes := by
    obtain ⟨hshut, peer, hpeer, hpeerListening, hread, hspace⟩ := pollOut_of_poll hlistening h
    exact write_of_space hlistening hbytes (hstream (by simp [hpeer])) hshut hpeer hpeerListening
      hread hspace
  unreadable requested count h := by
    obtain ⟨hshut, hzero, hdone⟩ := of_read_eagain hlistening h
    have hin : file.pollIn pending requested = 0 := by
      obtain hin | ⟨-, -, hpos⟩ | ⟨-, -, -, hend⟩ :=
        pollIn_cases pending requested hlistening
      · exact hin
      · omega
      · simp [hshut, hdone] at hend
    rw [poll, hin]
    obtain hout | ⟨hout, -⟩ | ⟨hout, hrequested, hfails⟩ :=
      pollOut_cases file requested
    · simp [hout]
    · simp +decide [hout]
    · refine ⟨by obtain hout | hout := hout <;> simp +decide [hout], fun _ => ⟨hrequested,
        fun bytes hbytes => ⟨TransferError.epipe, by decide, ?_⟩⟩⟩
      have hpeer : file.connectedPeer ≠ none := fun hnone => by simp [peerIsDone, hnone] at hdone
      exact write_fails hlistening hbytes (hstream hpeer)
        (hfails.imp_right fun h => h.resolve_left hpeer)
  unwritable requested bytes h := by
    obtain ⟨hshut, hisStream, peer, hpeer, hwaits⟩ := of_write_eagain h
    have hout : file.pollOut requested = 0 := by
      obtain hout | ⟨-, -, -, peer', hpeer', hlisten, hread, hspace⟩ | ⟨-, -, hfails⟩ :=
        pollOut_cases file requested
      · exact hout
      · obtain rfl := Option.some.inj (hpeer.symm.trans hpeer')
        simp [hlisten, hread, hspace] at hwaits
      · simp only [hshut, hpeer, Option.some.injEq, exists_eq_left', reduceCtorEq,
          Bool.false_eq_true, false_or] at hfails
        simp [hfails] at hwaits
    rw [poll, hout]
    obtain hin | ⟨hin, -⟩ | ⟨hin, hrequested, hzero, hend⟩ :=
      pollIn_cases pending requested hlistening
    · simp [hin]
    · simp +decide [hin]
    · exact ⟨by simp +decide [hin], fun _ => ⟨hrequested, fun count hcount =>
        read_ends hlistening hcount hisStream hzero hend⟩⟩

end

end SocketFile

theorem PollAgrees.congr {ω ω' : Type*} {poll : UInt32 → UInt32}
    {read : ℕ → OperationResult ω (List UInt8)} {write : List UInt8 → OperationResult ω ℕ}
    {read' : ℕ → OperationResult ω' (List UInt8)} {write' : List UInt8 → OperationResult ω' ℕ}
    (h : PollAgrees poll read read write write)
    (hread : ∀ count, (read' count).slept = (read count).slept ∧
      (read' count).result = (read count).result)
    (hwrite : ∀ bytes, (write' bytes).slept = (write bytes).slept ∧
      (write' bytes).result = (write bytes).result) :
    PollAgrees poll read' read' write' write' where
  readable requested count := by
    rw [(hread count).1, (hread count).2]
    exact h.readable requested count
  writable requested bytes := by
    rw [(hwrite bytes).1, (hwrite bytes).2]
    exact h.writable requested bytes
  unreadable requested count := by
    simp only [(hread _).2, (hwrite _).2]
    exact h.unreadable requested count
  unwritable requested bytes := by
    simp only [(hread _).2, (hwrite _).2]
    exact h.unwritable requested bytes

namespace SocketManager

/-- `SocketPoll`. -/
def socketPoll (m : SocketManager) (a : ℕ) (requested : UInt32) : UInt32 :=
  match m.sockets a with
  | none => epollErr
  | some s =>
    match s.implementation with
    | .unix u => (m.fileOf s u).poll u.pendingConnections requested
    | .netlink _ => 0
    | .inet _ => requested

/-- `SocketRead` as an operation that does not wait. -/
def readOperation (m : SocketManager) (a count : ℕ) :
    OperationResult SocketManager (List UInt8) where
  next := (m.socketRead a count).1
  result := some (m.socketRead a count).2

/-- `SocketWrite` as an operation that does not wait. -/
def writeOperation (m : SocketManager) (a : ℕ) (bytes : List UInt8) :
    OperationResult SocketManager ℕ where
  next := (m.socketWrite a bytes).1
  result := some (m.socketWrite a bytes).2

/-- A stream socket is at the address. -/
def StreamAt (m : SocketManager) (a : ℕ) : Prop :=
  ∃ s, m.sockets a = some s ∧ s.type.isConnectionBased = true

/-- Only stream sockets listen, have a peer or wait in a queue. -/
structure OnlyStreams (m : SocketManager) : Prop where
  connected : ∀ a s u, m.sockets a = some s → s.implementation = .unix u →
    u.isListening = true ∨ u.connectedPeer ≠ none → s.type.isConnectionBased = true
  pending : ∀ a s u, m.sockets a = some s → s.implementation = .unix u →
    ∀ c ∈ u.pendingConnections, m.StreamAt c

variable {m m' : SocketManager} {a b owner : ℕ} {s : Socket} {u : UnixSocketState}
  {fileDescriptor : ℤ}

theorem StreamAt.modify {f : Socket → Socket} (h : m.StreamAt b) (hf : ∀ s, (f s).type = s.type) :
    (m.modify a f).StreamAt b := by
  obtain ⟨s, hs, htype⟩ := h
  by_cases hb : b = a
  · exact ⟨f s, sockets_modify_eq_some.mpr (.inr ⟨hb, s, hb ▸ hs, rfl⟩), (hf s).symm ▸ htype⟩
  · exact ⟨s, sockets_modify_eq_some.mpr (.inl ⟨hb, hs⟩), htype⟩

theorem type_mapUnix {g : UnixSocketState → UnixSocketState} : (s.mapUnix g).type = s.type := by
  rw [Socket.mapUnix]
  rcases s.implementation <;> rfl

theorem implementation_mapUnix {g : UnixSocketState → UnixSocketState} {u' : UnixSocketState}
    (h : (s.mapUnix g).implementation = .unix u') :
    ∃ u, s.implementation = .unix u ∧ u' = g u := by
  rw [Socket.mapUnix] at h
  rcases himplementation : s.implementation with u | n | n <;> rw [himplementation] at h
  · exact ⟨u, rfl, (SocketImplementation.unix.inj h).symm⟩
  · simp [himplementation] at h
  · simp [himplementation] at h

namespace OnlyStreams

section

variable (h : m.OnlyStreams)

include h

/-- A change of a socket that keeps its type. -/
theorem modify {f : Socket → Socket} (htype : ∀ s, (f s).type = s.type)
    (hf : ∀ s u, m.sockets a = some s → (f s).implementation = .unix u →
      (u.isListening = true ∨ u.connectedPeer ≠ none → s.type.isConnectionBased = true) ∧
        ∀ c ∈ u.pendingConnections, m.StreamAt c) : (m.modify a f).OnlyStreams where
  connected b t u ht hu hpeer := by
    obtain ⟨-, ht⟩ | ⟨rfl, s, hs, rfl⟩ := sockets_modify_eq_some.mp ht
    · exact h.connected b t u ht hu hpeer
    · exact htype s ▸ (hf s u hs hu).1 hpeer
  pending b t u ht hu c hc := by
    obtain ⟨-, ht⟩ | ⟨rfl, s, hs, rfl⟩ := sockets_modify_eq_some.mp ht
    · exact (h.pending b t u ht hu c hc).modify htype
    · exact ((hf s u hs hu).2 c hc).modify htype

theorem modifyUnix {g : UnixSocketState → UnixSocketState}
    (hg : ∀ s u, m.sockets a = some s → s.implementation = .unix u →
      ((g u).isListening = true ∨ (g u).connectedPeer ≠ none → s.type.isConnectionBased = true) ∧
        ∀ c ∈ (g u).pendingConnections, m.StreamAt c) : (m.modifyUnix a g).OnlyStreams :=
  h.modify (fun _ => type_mapUnix) fun s u' hs hu' => by
    obtain ⟨u, hu, rfl⟩ := implementation_mapUnix hu'
    exact hg s u hs hu

/-- A change after which a socket listens, has a peer or has others in its queue only if it did so
before. -/
theorem modifyUnix_less {g : UnixSocketState → UnixSocketState}
    (hg : ∀ s u, m.sockets a = some s → s.implementation = .unix u →
      (g u).isListening = u.isListening ∧
        ((g u).connectedPeer ≠ none → u.connectedPeer ≠ none) ∧
          (g u).pendingConnections ⊆ u.pendingConnections) : (m.modifyUnix a g).OnlyStreams :=
  h.modifyUnix fun s u hs hu => by
    obtain ⟨hlistening, hpeer, hpending⟩ := hg s u hs hu
    rw [hlistening]
    exact ⟨fun hg => h.connected a s u hs hu (hg.imp_right hpeer),
      fun c hc => h.pending a s u hs hu c (hpending hc)⟩

theorem setImplementation {implementation : SocketImplementation}
    (hnot : ∀ u, implementation ≠ .unix u) : (m.setImplementation a implementation).OnlyStreams :=
  h.modify (fun _ => rfl) fun _ u _ hu => absurd hu (hnot u)

theorem addSocket (ha : m.sockets a = none)
    (hs : ∀ u, s.implementation = .unix u → u.isListening = false ∧ u.connectedPeer = none ∧
      u.pendingConnections = []) : (m.addSocket a s).OnlyStreams := by
  have hsockets : ∀ b t, (m.addSocket a s).sockets b = some t →
      (b = a ∧ t = s) ∨ (b ≠ a ∧ m.sockets b = some t) := fun b t ht => by
    change update m.sockets a (some s) b = some t at ht
    rw [update_apply] at ht
    split_ifs at ht with hb
    · exact .inl ⟨hb, (Option.some.inj ht).symm⟩
    · exact .inr ⟨hb, ht⟩
  refine ⟨fun b t u ht hu hpeer => ?_, fun b t u ht hu c hc => ?_⟩
  · obtain ⟨-, rfl⟩ | ⟨-, ht⟩ := hsockets b t ht
    · simp [hs u hu] at hpeer
    · exact h.connected b t u ht hu hpeer
  · obtain ⟨-, rfl⟩ | ⟨-, ht⟩ := hsockets b t ht
    · simp [hs u hu] at hc
    · obtain ⟨r, hr, htype⟩ := h.pending b t u ht hu c hc
      refine ⟨r, (update_of_ne (fun heq => ?_) ..).trans hr, htype⟩
      rw [heq, ha] at hr
      cases hr

theorem forgetSocket : (m.forgetSocket a).OnlyStreams := by
  have hsockets : ∀ b t, (m.forgetSocket a).sockets b = some t → ∃ s, m.sockets b = some s ∧
      (t = s ∨ t = s.mapUnix (·.forget a)) := fun b t ht => by
    dsimp only [SocketManager.forgetSocket] at ht
    split_ifs at ht
    · obtain ⟨s, hs, rfl⟩ := Option.map_eq_some_iff.mp ht
      exact ⟨s, hs, .inr rfl⟩
    · exact ⟨t, ht, .inl rfl⟩
  have hstream : ∀ c, m.StreamAt c → (m.forgetSocket a).StreamAt c := fun c ⟨s, hs, htype⟩ => by
    obtain ⟨t, ht⟩ := Option.isSome_iff_exists.mp
      (isSome_forgetSocket.trans (Option.isSome_iff_exists.mpr ⟨s, hs⟩))
    obtain ⟨s', hs', rfl | rfl⟩ := hsockets c t ht <;>
      obtain rfl := Option.some.inj (hs.symm.trans hs')
    · exact ⟨_, ht, htype⟩
    · exact ⟨_, ht, by rwa [type_mapUnix]⟩
  refine ⟨fun b t u ht hu hpeer => ?_, fun b t u ht hu c hc => hstream c ?_⟩
  · obtain ⟨s, hs, rfl | rfl⟩ := hsockets b t ht
    · exact h.connected b t u hs hu hpeer
    · obtain ⟨v, hv, rfl⟩ := implementation_mapUnix hu
      rw [type_mapUnix]
      refine h.connected b s v hs hv (hpeer.imp_right fun hne hnone => hne ?_)
      rw [UnixSocketState.forget, hnone]
      rfl
  · obtain ⟨s, hs, rfl | rfl⟩ := hsockets b t ht
    · exact h.pending b t u hs hu c hc
    · obtain ⟨v, hv, rfl⟩ := implementation_mapUnix hu
      exact h.pending b s v hs hv c (List.mem_of_mem_filter hc)

end

theorem forgetPeer_less :
    (u.forgetPeer a).isListening = u.isListening ∧
      ((u.forgetPeer a).connectedPeer ≠ none → u.connectedPeer ≠ none) ∧
        (u.forgetPeer a).pendingConnections ⊆ u.pendingConnections := by
  refine ⟨rfl, fun hne hnone => hne ?_, List.Subset.refl _⟩
  rw [UnixSocketState.forgetPeer, hnone]
  rfl

theorem forgetListener (h : m.OnlyStreams) (pending : List ℕ) :
    (m.forgetListener a pending).OnlyStreams := by
  induction pending generalizing m with
  | nil => exact h
  | cons c pending ih => exact ih (h.modifyUnix_less fun _ _ _ _ => forgetPeer_less)

end OnlyStreams

/-- No socket is left with a closed one in its queue. -/
theorem not_mem_pending_of_close (htracked : m.Tracked) {pending : List ℕ}
    (hb : (((m.forgetSocket a).forgetListener a pending).destroySocket a).unixAt b = some u) :
    a ∉ u.pendingConnections := by
  have hclosed := congrArg (fun c => c.pending b) (connections_close htracked (a := a)
    pending)
  rw [pending_eq hb, Connections.close] at hclosed
  rw [hclosed]
  change a ∉ if b = a then [] else (m.connections.pending b).filter (· ≠ a)
  split_ifs <;> simp

theorem OnlyStreams.close (htracked : m.Tracked) (h : m.OnlyStreams) {pending : List ℕ} :
    (((m.forgetSocket a).forgetListener a pending).destroySocket a).OnlyStreams := by
  have hforgot := (h.forgetSocket (a := a)).forgetListener (a := a) pending
  have hsockets : ∀ b t, (((m.forgetSocket a).forgetListener a pending).destroySocket a).sockets b =
      some t → b ≠ a ∧ ((m.forgetSocket a).forgetListener a pending).sockets b = some t :=
    fun b t ht => by
      change update ((m.forgetSocket a).forgetListener a pending).sockets a none b = some t at ht
      rw [update_apply] at ht
      split_ifs at ht with hb
      exact ⟨hb, ht⟩
  refine ⟨fun b t u ht hu hpeer => hforgot.connected b t u (hsockets b t ht).2 hu hpeer,
    fun b t u ht hu c hc => ?_⟩
  obtain ⟨s, hs, htype⟩ := hforgot.pending b t u (hsockets b t ht).2 hu c hc
  have hne : c ≠ a := fun heq => not_mem_pending_of_close htracked (unixAt_eq_some ht hu) (heq ▸ hc)
  exact ⟨s, (update_of_ne hne ..).trans hs, htype⟩

theorem nextPending_subset {client : Option ℕ} {pending rest : List ℕ}
    (h : m.nextPending pending = (client, rest)) : rest ⊆ pending := by
  induction pending with
  | nil =>
    rw [nextPending, Prod.mk.injEq] at h
    exact h.2 ▸ List.Subset.refl _
  | cons c pending ih =>
    rw [nextPending] at h
    split_ifs at h
    · exact (Prod.mk.inj h).2 ▸ List.subset_cons_self ..
    · exact fun b hb => List.mem_cons_of_mem c (ih h hb)

theorem mem_of_nextPending {client : ℕ} {pending rest : List ℕ}
    (h : m.nextPending pending = (some client, rest)) : client ∈ pending := by
  obtain ⟨-, untracked, rfl, -⟩ := nextPending_eq_some h
  simp

/-- A queue of which only a part is left. -/
theorem OnlyStreams.setPending (h : m.OnlyStreams) (hfind : m.findSocket owner fileDescriptor =
    some (a, s)) (hs : s.implementation = .unix u) {pending : List ℕ}
    (hsubset : pending ⊆ u.pendingConnections) :
    (m.modifyUnix a (·.setPending pending)).OnlyStreams :=
  h.modifyUnix_less fun t v ht hv => by
    obtain rfl := Option.some.inj ((findSocket_eq_some hfind).2.symm.trans ht)
    obtain rfl := SocketImplementation.unix.inj (hs.symm.trans hv)
    exact ⟨rfl, id, hsubset⟩

theorem type_of_streamAt (h : m.StreamAt a) (hs : m.sockets a = some s) :
    s.type.isConnectionBased = true := by
  obtain ⟨t, ht, htype⟩ := h
  rwa [← Option.some.inj (ht.symm.trans hs)]

/-- A stream socket may have a peer. -/
theorem OnlyStreams.setPeer (h : m.OnlyStreams) (hstream : m.StreamAt a) {peer : Option ℕ} :
    (m.modifyUnix a (·.setPeer peer)).OnlyStreams :=
  h.modifyUnix fun s u hs hu => ⟨fun _ => type_of_streamAt hstream hs, h.pending a s u hs hu⟩

theorem StreamAt.addSocket (h : m.StreamAt b) (ha : m.sockets a = none) :
    (m.addSocket a s).StreamAt b := by
  obtain ⟨t, ht, htype⟩ := h
  refine ⟨t, (update_of_ne (fun heq => ?_) ..).trans ht, htype⟩
  rw [heq, ha] at ht
  cases ht

theorem Effect.onlyStreams {call : SocketCall} (htracked : m.Tracked) (hadmits : m.Admits call)
    (h : m.OnlyStreams) (heffect : m.Effect call m') : m'.OnlyStreams := by
  cases heffect with
  | unchanged => exact h
  | @created _ _ _ _ _ _ d _ _ hnew =>
    refine h.addSocket hadmits fun u hu => ?_
    cases d with
    | unix =>
      obtain rfl := implementation_unix hnew
      obtain rfl := SocketImplementation.unix.inj hu
      exact ⟨rfl, rfl, rfl⟩
    | inet | netlink =>
      rw [NewSocket.implementation.eq_def] at hnew
      dsimp only at hnew
      split_ifs at hnew
      obtain rfl := Except.ok.inj hnew
      cases hu
  | boundInet | boundNetlink | listenedInet | listenedUnbound | connectedNetlink | shutInet |
    shutNetlink => exact h.setImplementation (by simp)
  | boundUnix | shutUnix | received =>
    exact h.modifyUnix_less fun _ _ _ _ => ⟨rfl, id, List.Subset.refl _⟩
  | listenedUnix hfind himplementation hbound htype hqueue =>
    refine h.modifyUnix fun s u hs hu => ⟨fun _ => ?_, fun c hc => h.pending _ s u hs hu c ?_⟩
    · rwa [← Option.some.inj ((findSocket_eq_some hfind).2.symm.trans hs)]
    · rw [UnixSocketState.listen, UnixSocketState.resize] at hc
      split_ifs at hc
      · exact List.mem_of_mem_take hc
      · exact hc
  | @connectedUnix _ _ _ a _ _ _ _ listener _ _ hfind himplementation htype =>
    have hstream : m.StreamAt a := ⟨_, (findSocket_eq_some hfind).2, htype⟩
    have hqueue : (m.modifyUnix listener fun l =>
        l.setPending (l.pendingConnections ++ [a])).OnlyStreams := by
      refine h.modifyUnix fun s u hs hu => ⟨h.connected _ s u hs hu, fun c hc => ?_⟩
      obtain hc | hc := List.mem_append.mp hc
      · exact h.pending _ s u hs hu c hc
      · exact List.mem_singleton.mp hc ▸ hstream
    exact hqueue.setPeer (hstream.modify fun _ => type_mapUnix)
  | acceptedNone hfind himplementation hlistening hpending =>
    exact h.setPending hfind himplementation (nextPending_subset hpending)
  | acceptedFailed howner hdescriptor hfind himplementation hlistening hpending =>
    exact h.setPending hfind himplementation (nextPending_subset hpending)
  | @accepted _ _ _ _ new listener s _ client pending _ howner hdescriptor hfind himplementation
      hlistening hpending hnew =>
    have htaken := h.setPending hfind himplementation (nextPending_subset hpending)
    have hs := (findSocket_eq_some hfind).2
    have hnone : (m.modifyUnix listener (·.setPending pending)).sockets new.address = none := by
      rw [← Option.not_isSome_iff_eq_none, modifyUnix, isSome_modify,
        Option.not_isSome_iff_eq_none]
      exact hadmits
    have hclient : (m.modifyUnix listener (·.setPending pending)).StreamAt client :=
      (h.pending listener s _ hs himplementation client
        (mem_of_nextPending hpending)).modify fun _ => type_mapUnix
    obtain rfl := implementation_unix hnew
    refine OnlyStreams.setPeer (OnlyStreams.setPeer (htaken.addSocket hnone fun u hu => ?_) ?_)
      ((hclient.addSocket hnone).modify fun _ => type_mapUnix)
    · obtain rfl := SocketImplementation.unix.inj hu
      exact ⟨rfl, rfl, rfl⟩
    · exact ⟨_, update_self .., h.connected listener s _ hs himplementation (.inl hlistening)⟩
  | kept => exact h.modify (fun _ => rfl) fun s u hs hu =>
      ⟨h.connected _ s u hs hu, h.pending _ s u hs hu⟩
  | closed => exact h.close htracked

theorem Run.onlyStreams {Allowed : SocketManager → SocketCall → Prop} (h : Run Allowed m) :
    m.OnlyStreams := by
  induction h with
  | init => exact ⟨fun _ _ _ h => by simp at h, fun _ _ _ h => by simp at h⟩
  | step call h hadmits _ ih => exact (effect_step _ call).onlyStreams h.tracked hadmits ih

/-! ### Reachable sockets -/

theorem read_ne_none (file : SocketFile) (count : ℕ) : (file.read count).slept = false ∧
    (file.read count).result = some ((file.read count).result.getD (.error SocketError.ebadf)) := by
  rw [SocketFile.read]
  split_ifs
  · exact ⟨rfl, rfl⟩
  · exact ⟨rfl, rfl⟩
  · exact ⟨rfl, rfl⟩
  · rw [SocketFile.readReceived]
    rcases file.socket.receiveBuffer with _ | buffer
    · exact ⟨rfl, rfl⟩
    · dsimp only
      split_ifs <;> exact ⟨rfl, rfl⟩
  · exact ⟨rfl, rfl⟩

theorem write_ne_none (file : SocketFile) (bytes : List UInt8) :
    (file.write bytes).slept = false ∧ (file.write bytes).result =
      some ((file.write bytes).result.getD (.error SocketError.ebadf)) := by
  rw [SocketFile.write]
  split_ifs
  · exact ⟨rfl, rfl⟩
  · exact ⟨rfl, rfl⟩
  · rw [SocketFile.writePeer]
    rcases file.connectedPeer with _ | peer
    · exact ⟨rfl, rfl⟩
    dsimp only
    split_ifs
    · exact ⟨rfl, rfl⟩
    · exact ⟨rfl, rfl⟩
    rcases peer.receiveBuffer with _ | buffer
    · exact ⟨rfl, rfl⟩
    · dsimp only
      split_ifs <;> exact ⟨rfl, rfl⟩
  · exact ⟨rfl, rfl⟩

/-- Polling agrees with reading and writing for every pipe, and for every Unix socket that does not
listen in a state that can be reached. -/
theorem pollAgrees_of_reachable :
    (∀ file : PipeFile, PollAgrees file.poll file.read file.nonblocking.read file.write
      file.nonblocking.write) ∧
    ∀ (m : SocketManager) (a : ℕ) (s : Socket) (u : UnixSocketState), Reachable m →
      m.sockets a = some s → s.implementation = .unix u → u.isListening = false →
        PollAgrees (m.socketPoll a) (m.readOperation a) (m.readOperation a) (m.writeOperation a)
          (m.writeOperation a) := by
  refine ⟨PipeFile.poll_agrees, fun m a s u hm ha hs hlistening => ?_⟩
  have hpoll : m.socketPoll a = (m.fileOf s u).poll u.pendingConnections := by
    ext requested : 1
    rw [socketPoll, ha]
    dsimp only
    rw [hs]
  rw [hpoll]
  refine PollAgrees.congr (SocketFile.poll_agrees hlistening fun hpeer => ?_) (fun count => ?_)
    fun bytes => ?_
  · refine hm.onlyStreams.connected a s u ha hs (.inr fun hnone => hpeer ?_)
    rw [fileOf, hnone, Option.bind_none]
  · rw [readOperation, socketRead_eq ha hs]
    exact ⟨(read_ne_none ..).1.symm, (read_ne_none ..).2.symm⟩
  · rw [writeOperation, socketWrite_eq ha hs]
    exact ⟨(write_ne_none ..).1.symm, (write_ne_none ..).2.symm⟩

/-- A connection of which one side does not read any more. -/
def halfClosed : SocketManager := freshConnection.step (.shutdownSocket 1 4 0)

theorem pollAgrees_freshConnection : PollAgrees (freshConnection.socketPoll 2)
    (freshConnection.readOperation 2) (freshConnection.readOperation 2)
    (freshConnection.writeOperation 2) (freshConnection.writeOperation 2) := by
  obtain ⟨s, u, hs, -, hu, hlistening, -⟩ := connected_freshConnection.left
  exact pollAgrees_of_reachable.2 freshConnection 2 s u reachable_freshConnection hs hu hlistening

/-- A poll for both events of the other side reports an error and a hang-up, although a read would
have to wait. -/
theorem not_pollAgreesExactly_halfClosed : Reachable halfClosed ∧
    ¬PollAgreesExactly (halfClosed.socketPoll 2) (halfClosed.readOperation 2)
      (halfClosed.writeOperation 2) := by
  refine ⟨.step _ reachable_freshConnection trivial trivial, fun h => ?_⟩
  have hread : (halfClosed.readOperation 2 1).result = some (.error TransferError.eagain) := by
    have hagain : (halfClosed.socketRead 2 1).2.toOption.isNone = true ∧
        halfClosed.returned (.read 2 1) = TransferError.eagain := by
      decide +kernel
    rw [returned] at hagain
    rw [readOperation]
    rcases hresult : (halfClosed.socketRead 2 1).2 with code | bytes
    · rw [hresult] at hagain
      exact congrArg (fun c => some (Except.error c)) hagain.2
    · rw [hresult] at hagain
      simp [Except.toOption] at hagain
  exact absurd (h.unreadable (epollIn ||| epollOut) 1 (by decide) hread) (by decide +kernel)

end SocketManager

end TwistedOS
