import TwistedOS.Sockets.SocketConnections

/-!
# Streams between Unix sockets

What is written to one of two connected stream sockets is read at the other one. A socket keeps its
buffer when it loses its peer and connects again, so the bytes of the first connection come before
those of the second.

## Main definitions

* `SocketTransfer`, `SocketManager.afterTransfers`.
* `SocketManager.Connected`, `SocketManager.DeliversInOrder`.

## Main results

* `SocketManager.step_read`, `SocketManager.step_write`.
* `SocketManager.deliversInOrder_iff`, `SocketManager.not_deliversInOrder_reconnected`.
-/

namespace TwistedOS

open Function

namespace SocketFile

variable {file : SocketFile} {count : ℕ} {bytes : List UInt8}

theorem readEmpty_next : file.readEmpty.next = file := rfl

/-- A read that returns no bytes changes nothing. -/
theorem read_next (h : (file.read count).bytes = []) : (file.read count).next = file := by
  rw [read] at h ⊢
  split_ifs at h ⊢ with hcount hshut hlistening hstream
  · rfl
  · rfl
  · rfl
  · rw [readReceived] at h ⊢
    rcases hbuffer : file.socket.receiveBuffer with _ | buffer
    · exact readEmpty_next
    rw [hbuffer] at h
    dsimp only at h ⊢
    split_ifs at h ⊢ with hempty
    · exact readEmpty_next
    · have hlength := congrArg List.length h
      change (RingBuffer.popMany count buffer).1.length = 0 at hlength
      rw [RingBuffer.popMany_fst, List.length_take, RingBuffer.length_contents] at hlength
      omega
  · rfl

/-- A write that accepts no bytes changes nothing. -/
theorem write_next (h : (file.write bytes).count = 0) : (file.write bytes).next = file := by
  rw [write] at h ⊢
  split_ifs at h ⊢ with hbytes hshut hstream
  · rfl
  · rfl
  · rw [writePeer] at h ⊢
    rcases hpeer : file.connectedPeer with _ | peer
    · rfl
    rw [hpeer] at h
    dsimp only at h ⊢
    split_ifs at h ⊢
    · rfl
    · rfl
    rcases hbuffer : peer.receiveBuffer with _ | buffer
    · rfl
    rw [hbuffer] at h
    dsimp only at h ⊢
    split_ifs at h ⊢ with hfull
    · rfl
    · have hlength := List.length_pos_iff.mpr hbytes
      change min bytes.length buffer.available = 0 at h
      omega
  · rfl

end SocketFile

/-- A read or a write of a socket. -/
inductive SocketTransfer
  | read (a count : ℕ)
  | write (a : ℕ) (bytes : List UInt8)

namespace SocketTransfer

/-- The socket that is read or written. -/
def side : SocketTransfer → ℕ
  | read a _ => a
  | write a _ => a

/-- The call of the socket manager. -/
def call : SocketTransfer → SocketCall
  | read a count => .socketRead a count
  | write a bytes => .socketWrite a bytes

end SocketTransfer

namespace SocketManager

/-- The buffer of a Unix socket. -/
def receiveBufferOf (m : SocketManager) (a : ℕ) : Option (RingBuffer UInt8 65536) :=
  (m.unixAt a).bind fun u => u.receiveBuffer

/-- The bytes that a socket has received and that were not read yet. -/
def received (m : SocketManager) (a : ℕ) : List UInt8 :=
  ((m.receiveBufferOf a).map RingBuffer.contents).getD []

/-- The bytes that a read of a socket returns. -/
def deliveredAt (m : SocketManager) (a : ℕ) : SocketTransfer → List UInt8
  | .read b count => if b = a then (m.socketRead b count).2.toOption.getD [] else []
  | .write _ _ => []

/-- The bytes that a write of a socket accepts. -/
def acceptedFrom (m : SocketManager) (a : ℕ) : SocketTransfer → List UInt8
  | .read _ _ => []
  | .write b bytes =>
    if b = a then bytes.take ((m.socketWrite b bytes).2.toOption.getD 0) else []

/-- What a transfer returns: a number of bytes or an error. -/
def returned (m : SocketManager) : SocketTransfer → ℤ
  | .read a count =>
    match (m.socketRead a count).2 with
    | .ok bytes => bytes.length
    | .error code => code
  | .write a bytes =>
    match (m.socketWrite a bytes).2 with
    | .ok count => count
    | .error code => code

/-- The sockets after transfers. -/
def afterTransfers (m : SocketManager) : List SocketTransfer → SocketManager
  | [] => m
  | t :: transfers => (m.step t.call).afterTransfers transfers

/-- The bytes that the reads of a socket return, in order. -/
def allDelivered (m : SocketManager) (a : ℕ) : List SocketTransfer → List UInt8
  | [] => []
  | t :: transfers => m.deliveredAt a t ++ (m.step t.call).allDelivered a transfers

/-- The bytes that the writes of a socket accept, in order. -/
def allAccepted (m : SocketManager) (a : ℕ) : List SocketTransfer → List UInt8
  | [] => []
  | t :: transfers => m.acceptedFrom a t ++ (m.step t.call).allAccepted a transfers

/-- A stream socket that has another socket for its peer. -/
def ConnectedTo (m : SocketManager) (a b : ℕ) : Prop :=
  ∃ s u, m.sockets a = some s ∧ s.type.isConnectionBased = true ∧ s.implementation = .unix u ∧
    u.isListening = false ∧ u.connectedPeer = some b

/-- Two stream sockets that are connected to each other. -/
structure Connected (m : SocketManager) (a b : ℕ) : Prop where
  ne : a ≠ b
  left : m.ConnectedTo a b
  right : m.ConnectedTo b a

/-- After transfers of two sockets, each one has received what the other one has accepted, in order
and once. -/
structure DeliversInOrder (m : SocketManager) (a b : ℕ) (transfers : List SocketTransfer) :
    Prop where
  toRight : m.allDelivered b transfers ++ (m.afterTransfers transfers).received b =
    m.allAccepted a transfers
  toLeft : m.allDelivered a transfers ++ (m.afterTransfers transfers).received a =
    m.allAccepted b transfers
  /-- No other socket receives anything. -/
  others : ∀ c, c ≠ a → c ≠ b → (m.afterTransfers transfers).sockets c = m.sockets c
  bounded : ∀ c buffer, (m.afterTransfers transfers).receiveBufferOf c = some buffer →
    buffer.buffered ≤ 65536 ∧ buffer.readOffset < 65536 ∧ buffer.writeOffset < 65536
  /-- A transfer that fails or moves no bytes changes no buffer. -/
  unchanged : ∀ t : SocketTransfer, t.side = a ∨ t.side = b →
    (m.afterTransfers transfers).returned t ≤ 0 →
      ((m.afterTransfers transfers).step t.call).receiveBufferOf =
        (m.afterTransfers transfers).receiveBufferOf

variable {m : SocketManager} {a b c : ℕ} {s : Socket} {u : UnixSocketState} {count : ℕ}
  {bytes : List UInt8} {transfers : List SocketTransfer}

/-! ### One transfer -/

theorem socketRead_eq (ha : m.sockets a = some s) (hs : s.implementation = .unix u) :
    m.socketRead a count =
      (m.modifyUnix a (·.setReceived ((m.fileOf s u).read count).next.socket.receiveBuffer),
        ((m.fileOf s u).read count).result.getD (.error SocketError.ebadf)) := by
  rw [socketRead, ha]
  dsimp only
  rw [hs]

theorem socketWrite_eq (ha : m.sockets a = some s) (hs : s.implementation = .unix u) :
    m.socketWrite a bytes =
      (m.setPeerReceived u.connectedPeer ((m.fileOf s u).write bytes).next,
        ((m.fileOf s u).write bytes).result.getD (.error SocketError.ebadf)) := by
  rw [socketWrite, ha]
  dsimp only
  rw [hs]

theorem getD_bytes (r : OperationResult SocketFile (List UInt8)) (code : ℤ) :
    (r.result.getD (.error code)).toOption.getD [] = r.bytes := by
  rcases r with ⟨next, slept, _ | _ | bytes⟩ <;> rfl

theorem getD_count (r : OperationResult SocketFile ℕ) (code : ℤ) :
    (r.result.getD (.error code)).toOption.getD 0 = r.count := by
  rcases r with ⟨next, slept, _ | _ | count⟩ <;> rfl

theorem receiveBufferOf_modifyUnix {buffer : Option (RingBuffer UInt8 65536)}
    (hu : m.unixAt a = some u) :
    (m.modifyUnix a (·.setReceived buffer)).receiveBufferOf = update m.receiveBufferOf a buffer :=
  funext fun c => by
    rw [receiveBufferOf, unixAt_modifyUnix, update_apply]
    split_ifs with hc
    · rw [hu]
      rfl
    · rfl

theorem connectedTo_setReceived {d : ℕ} {buffer : Option (RingBuffer UInt8 65536)}
    (h : m.ConnectedTo a b) : (m.modifyUnix d (·.setReceived buffer)).ConnectedTo a b := by
  obtain ⟨s, u, ha, htype, hs, hlistening, hpeer⟩ := h
  by_cases hd : a = d
  · subst hd
    refine ⟨s.mapUnix (·.setReceived buffer), u.setReceived buffer, ?_, ?_, ?_, hlistening, hpeer⟩
    · rw [modifyUnix, sockets_modify, update_self, ha, Option.map_some]
    · rw [Socket.mapUnix, hs]
      exact htype
    · rw [Socket.mapUnix, hs]
      rfl
  · refine ⟨s, u, ?_, htype, hs, hlistening, hpeer⟩
    rw [modifyUnix, sockets_modify, update_of_ne hd, ha]

theorem Connected.setReceived {d : ℕ} {buffer : Option (RingBuffer UInt8 65536)}
    (h : m.Connected a b) : (m.modifyUnix d (·.setReceived buffer)).Connected a b :=
  ⟨h.ne, connectedTo_setReceived h.left, connectedTo_setReceived h.right⟩

theorem Connected.symm (h : m.Connected a b) : m.Connected b a := ⟨h.ne.symm, h.right, h.left⟩

theorem ConnectedTo.exists_unix (h : m.ConnectedTo a b) : ∃ u, m.unixAt a = some u :=
  let ⟨_, u, ha, _, hs, _⟩ := h
  ⟨u, unixAt_eq_some ha hs⟩

theorem received_eq (hu : m.unixAt a = some u) : m.received a = u.toUnixSocket.received := by
  rw [received, receiveBufferOf, hu]
  rfl

/-- A read of one of two connected sockets takes bytes out of its buffer. -/
theorem step_read (h : m.Connected a b) (count : ℕ) :
    ∃ buffer, m.step (.socketRead a count) = m.modifyUnix a (·.setReceived buffer) ∧
      m.received a = m.deliveredAt a (.read a count) ++
        ((buffer.map RingBuffer.contents).getD []) ∧
      (m.returned (.read a count) ≤ 0 → buffer = m.receiveBufferOf a) := by
  obtain ⟨s, u, ha, -, hs, -, -⟩ := h.left
  have hu := unixAt_eq_some ha hs
  obtain ⟨woken, hwoken, -, hconsumes⟩ := ((m.fileOf s u).read_delivers count).woken
  subst hwoken
  refine ⟨((m.fileOf s u).read count).next.socket.receiveBuffer, ?_, ?_, fun hnothing => ?_⟩
  · rw [step, socketRead_eq ha hs]
  · rw [received_eq hu, deliveredAt, if_pos rfl, socketRead_eq ha hs, getD_bytes]
    exact hconsumes.received_eq
  · have hbytes : ((m.fileOf s u).read count).bytes = [] := by
      rw [returned, socketRead_eq ha hs] at hnothing
      rw [OperationResult.bytes]
      rcases hresult : ((m.fileOf s u).read count).result with _ | code | bytes
      · rfl
      · rfl
      · rw [hresult] at hnothing
        simpa using hnothing
    rw [SocketFile.read_next hbytes, receiveBufferOf, hu]
    rfl

/-- A write of one of two connected sockets adds bytes to the buffer of the other one. -/
theorem step_write (h : m.Connected a b) (bytes : List UInt8) :
    ∃ buffer, m.step (.socketWrite a bytes) = m.modifyUnix b (·.setReceived buffer) ∧
      (buffer.map RingBuffer.contents).getD [] =
        m.received b ++ m.acceptedFrom a (.write a bytes) ∧
      (m.returned (.write a bytes) ≤ 0 → buffer = m.receiveBufferOf b) := by
  obtain ⟨s, u, ha, -, hs, -, hpeer⟩ := h.left
  obtain ⟨v, hv⟩ := h.right.exists_unix
  obtain ⟨woken, hwoken, -, haccepts⟩ := ((m.fileOf s u).write_takes bytes).woken
  subst hwoken
  have hfile : (m.fileOf s u).connectedPeer = some v.toUnixSocket := by
    rw [fileOf, hpeer, Option.bind_some, unixPeer]
    exact congrArg (Option.map fun u => u.toUnixSocket) hv
  obtain ⟨buffer, hnext⟩ := haccepts.after_eq
  have hnextPeer : ((m.fileOf s u).write bytes).next.connectedPeer =
      some (v.toUnixSocket.setReceiveBuffer buffer) := by
    rw [hnext, SocketFile.setPeerReceived, hfile, Option.map_some]
  refine ⟨buffer, ?_, ?_, fun hnothing => ?_⟩
  · rw [step, socketWrite_eq ha hs]
    simp only [setPeerReceived, hpeer, hnextPeer]
    rfl
  · have hreceived := haccepts.peerReceived_eq
    rw [SocketFile.peerReceived, hnextPeer, SocketFile.peerReceived, hfile] at hreceived
    rw [received_eq hv, acceptedFrom, if_pos rfl, socketWrite_eq ha hs, getD_count]
    exact hreceived
  · have hcount : ((m.fileOf s u).write bytes).count = 0 := by
      rw [returned, socketWrite_eq ha hs] at hnothing
      rw [OperationResult.count]
      rcases hresult : ((m.fileOf s u).write bytes).result with _ | code | count
      · rfl
      · rfl
      · rw [hresult] at hnothing
        simpa using hnothing
    rw [SocketFile.write_next hcount, hfile] at hnextPeer
    rw [receiveBufferOf, hv]
    exact (congrArg UnixSocket.receiveBuffer (Option.some.inj hnextPeer)).symm

/-- What a transfer does to two connected sockets. -/
structure Moves (m : SocketManager) (a b : ℕ) (t : SocketTransfer) : Prop where
  connected : (m.step t.call).Connected a b
  toRight : m.deliveredAt b t ++ (m.step t.call).received b = m.received b ++ m.acceptedFrom a t
  toLeft : m.deliveredAt a t ++ (m.step t.call).received a = m.received a ++ m.acceptedFrom b t
  others : ∀ c, c ≠ a → c ≠ b → (m.step t.call).sockets c = m.sockets c
  unchanged : m.returned t ≤ 0 → (m.step t.call).receiveBufferOf = m.receiveBufferOf

theorem Moves.symm {t : SocketTransfer} (h : m.Moves b a t) : m.Moves a b t :=
  ⟨h.connected.symm, h.toLeft, h.toRight, fun c ha hb => h.others c hb ha, h.unchanged⟩

theorem received_modifyUnix {buffer : Option (RingBuffer UInt8 65536)}
    (hu : m.unixAt a = some u) :
    (m.modifyUnix a (·.setReceived buffer)).received c =
      if c = a then (buffer.map RingBuffer.contents).getD [] else m.received c := by
  rw [received, receiveBufferOf_modifyUnix hu, update_apply]
  split_ifs <;> rfl

theorem sockets_setReceived_of_ne {buffer : Option (RingBuffer UInt8 65536)} (hc : c ≠ a) :
    (m.modifyUnix a (·.setReceived buffer)).sockets c = m.sockets c := by
  rw [modifyUnix, sockets_modify, update_of_ne hc]

theorem moves_left (h : m.Connected a b) {t : SocketTransfer} (ht : t.side = a) :
    m.Moves a b t := by
  obtain ⟨u, hu⟩ := h.left.exists_unix
  obtain ⟨v, hv⟩ := h.right.exists_unix
  have hne := h.ne
  cases t with
  | read a' count =>
    obtain rfl : a' = a := ht
    obtain ⟨buffer, hstep, hreceived, hnothing⟩ := step_read h count
    change m.step (SocketTransfer.read a' count).call = _ at hstep
    refine ⟨hstep ▸ h.setReceived, ?_, ?_, fun c ha hb => ?_, fun hreturned => ?_⟩
    · rw [hstep, received_modifyUnix hu, if_neg hne.symm, deliveredAt, if_neg hne, acceptedFrom,
        List.nil_append, List.append_nil]
    · rw [hstep, received_modifyUnix hu, if_pos rfl, ← hreceived, acceptedFrom, List.append_nil]
    · rw [hstep, sockets_setReceived_of_ne ha]
    · rw [hstep, receiveBufferOf_modifyUnix hu, hnothing hreturned, update_eq_self]
  | write a' bytes =>
    obtain rfl : a' = a := ht
    obtain ⟨buffer, hstep, hreceived, hnothing⟩ := step_write h bytes
    change m.step (SocketTransfer.write a' bytes).call = _ at hstep
    refine ⟨hstep ▸ h.setReceived, ?_, ?_, fun c ha hb => ?_, fun hreturned => ?_⟩
    · rw [hstep, received_modifyUnix hv, if_pos rfl, hreceived, deliveredAt, List.nil_append]
    · rw [hstep, received_modifyUnix hv, if_neg hne, deliveredAt, acceptedFrom, if_neg hne,
        List.nil_append, List.append_nil]
    · rw [hstep, sockets_setReceived_of_ne hb]
    · rw [hstep, receiveBufferOf_modifyUnix hv, hnothing hreturned, update_eq_self]

/-- A transfer of one of two connected sockets. -/
theorem moves (h : m.Connected a b) {t : SocketTransfer} (ht : t.side = a ∨ t.side = b) :
    m.Moves a b t :=
  ht.elim (moves_left h) fun hb => (moves_left h.symm hb).symm

/-! ### All transfers -/

section

variable (h : m.Connected a b) (ht : ∀ t ∈ transfers, t.side = a ∨ t.side = b)

include h ht

theorem connected_afterTransfers : (m.afterTransfers transfers).Connected a b := by
  induction transfers generalizing m with
  | nil => exact h
  | cons t transfers ih =>
    obtain ⟨hhead, htail⟩ := List.forall_mem_cons.mp ht
    exact ih (moves h hhead).connected htail

/-- What is delivered comes out of the buffer, to which what is accepted is added. -/
theorem allDelivered_append :
    m.allDelivered b transfers ++ (m.afterTransfers transfers).received b =
      m.received b ++ m.allAccepted a transfers := by
  induction transfers generalizing m with
  | nil => exact (List.append_nil _).symm
  | cons t transfers ih =>
    obtain ⟨hhead, htail⟩ := List.forall_mem_cons.mp ht
    have hmoves := moves h hhead
    calc m.allDelivered b (t :: transfers) ++ (m.afterTransfers (t :: transfers)).received b
        = m.deliveredAt b t ++ ((m.step t.call).allDelivered b transfers ++
            ((m.step t.call).afterTransfers transfers).received b) := List.append_assoc ..
      _ = m.deliveredAt b t ++ (m.step t.call).received b ++
            (m.step t.call).allAccepted a transfers := by
          rw [ih hmoves.connected htail, List.append_assoc]
      _ = m.received b ++ m.allAccepted a (t :: transfers) := by
          rw [hmoves.toRight, List.append_assoc]
          rfl

theorem sockets_afterTransfers (ha : c ≠ a) (hb : c ≠ b) :
    (m.afterTransfers transfers).sockets c = m.sockets c := by
  induction transfers generalizing m with
  | nil => rfl
  | cons t transfers ih =>
    obtain ⟨hhead, htail⟩ := List.forall_mem_cons.mp ht
    have hmoves := moves h hhead
    exact (ih hmoves.connected htail).trans (hmoves.others c ha hb)

end

/-- Two connected sockets deliver in order what they accept just when no bytes were left in their
buffers. -/
theorem deliversInOrder_iff (h : m.Connected a b) :
    (∀ transfers : List SocketTransfer, (∀ t ∈ transfers, t.side = a ∨ t.side = b) →
      m.DeliversInOrder a b transfers) ↔ m.received a = [] ∧ m.received b = [] := by
  constructor
  · intro hall
    have hnil := hall [] (by simp)
    exact ⟨hnil.toLeft, hnil.toRight⟩
  · rintro ⟨ha, hb⟩ transfers ht
    refine ⟨?_, ?_, fun c => sockets_afterTransfers h ht, fun c buffer _ =>
      ⟨buffer.buffered_le, buffer.readOffset_lt, ?_⟩, fun t hside => ?_⟩
    · rw [allDelivered_append h ht, hb, List.nil_append]
    · rw [allDelivered_append h.symm fun t hmem => (ht t hmem).symm, ha, List.nil_append]
    · rw [buffer.writeOffset_eq]
      exact Nat.mod_lt _ buffer.capacity_pos
    · exact (moves (connected_afterTransfers h ht) hside).unchanged

/-! ### A connection after another one -/

/-- A new connection. -/
def freshConnection : SocketManager :=
  waitingSocket.step (.acceptSocket 1 3 1 4 ⟨3, true, fun _ => 0⟩)

/-- A byte was written over the connection, which was closed before the byte was read; the socket
that has not read it connects again. -/
def reconnected : SocketManager :=
  (((freshConnection.step (.socketWrite 3 [7])).step (.closeSocket 1 4 fun _ => none)).step
    (.connectSocket 2 3 pathAddress)).step (.acceptSocket 1 3 1 4 ⟨4, true, fun _ => 0⟩)

theorem connectedTo_of_map
    (h : (m.sockets a).map (fun s => (s.type.isConnectionBased, s.unix?.map fun u =>
      (u.isListening, u.connectedPeer))) = some (true, some (false, some b))) :
    m.ConnectedTo a b := by
  obtain ⟨s, ha, hs⟩ := Option.map_eq_some_iff.mp h
  obtain ⟨htype, hs⟩ := Prod.mk.inj hs
  obtain ⟨u, hu, hs⟩ := Option.map_eq_some_iff.mp hs
  obtain ⟨hlistening, hpeer⟩ := Prod.mk.inj hs
  refine ⟨s, u, ha, htype, ?_, hlistening, hpeer⟩
  rcases himplementation : s.implementation with v | n | n <;>
    rw [Socket.unix?, himplementation] at hu <;> simp at hu
  rw [hu]

theorem connected_freshConnection : freshConnection.Connected 2 3 :=
  ⟨by decide, connectedTo_of_map (by decide +kernel), connectedTo_of_map (by decide +kernel)⟩

theorem deliversInOrder_freshConnection : freshConnection.Connected 2 3 ∧
    ∀ transfers : List SocketTransfer, (∀ t ∈ transfers, t.side = 2 ∨ t.side = 3) →
      freshConnection.DeliversInOrder 2 3 transfers :=
  ⟨connected_freshConnection,
    (deliversInOrder_iff connected_freshConnection).mpr ⟨by decide +kernel, by decide +kernel⟩⟩

theorem reachable_freshConnection : Reachable freshConnection :=
  .step _ (run_waitingSocket.mono fun _ _ _ => trivial)
    (Option.isNone_iff_eq_none.mp (by decide +kernel)) trivial

theorem reachable_reconnected : Reachable reconnected :=
  .step _ (.step _ (.step _ (.step _ reachable_freshConnection trivial trivial) trivial trivial)
    trivial trivial) (Option.isNone_iff_eq_none.mp (by decide +kernel)) trivial

/-- The byte of the first connection is delivered over the second one. -/
theorem not_deliversInOrder_reconnected :
    Reachable reconnected ∧ reconnected.Connected 2 4 ∧
      ¬∀ transfers : List SocketTransfer, (∀ t ∈ transfers, t.side = 2 ∨ t.side = 4) →
        reconnected.DeliversInOrder 2 4 transfers := by
  refine ⟨reachable_reconnected, ⟨by decide, connectedTo_of_map (by decide +kernel),
    connectedTo_of_map (by decide +kernel)⟩, fun hall => ?_⟩
  have hdelivers := (hall [.read 2 1] (by simp [SocketTransfer.side])).toLeft
  have hread : reconnected.allDelivered 2 [.read 2 1] = [7] := by decide +kernel
  rw [hread] at hdelivers
  cases hdelivers

end SocketManager

end TwistedOS
