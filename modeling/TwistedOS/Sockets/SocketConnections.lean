import TwistedOS.Data.WaitingConnections
import TwistedOS.Sockets.SocketEffects

/-!
# Connections between Unix sockets

A Unix socket that connects waits in the queue of a listening one until it is accepted. The peers
and the queues are consistent as long as every call of `listen` leaves the queue whole and the
socket has no connection of its own, and every call of `accept` that takes a socket from the queue
can create the other side.

## Main definitions

* `SocketManager.connections`.
* `SocketManager.ConnectionsConsistent`, `SocketManager.KeepsConnections`.

## Main results

* `SocketManager.Effect.consistent`.
* `SocketManager.connectionsConsistent_of_run`,
  `SocketManager.not_connectionsConsistent_waitingSocket`.
-/

namespace TwistedOS

open Function

namespace SocketManager

/-- The Unix socket at an address. -/
def unixAt (m : SocketManager) (a : ℕ) : Option UnixSocketState := (m.sockets a).bind Socket.unix?

/-- The connections of the Unix sockets. -/
def connections (m : SocketManager) : Connections ℕ where
  known a := (m.unixAt a).isSome
  listening a := ((m.unixAt a).map fun u => u.isListening).getD false
  pending a := ((m.unixAt a).map fun u => u.pendingConnections).getD []
  peer a := (m.unixAt a).bind fun u => u.connectedPeer

variable {m m' : SocketManager} {a b owner : ℕ} {s : Socket} {u : UnixSocketState}
  {fileDescriptor : ℤ}

/-! ### Changes of the sockets -/

theorem unixAt_eq_some (ha : m.sockets a = some s) (hs : s.implementation = .unix u) :
    m.unixAt a = some u := by
  rw [unixAt, ha, Option.bind_some, Socket.unix?, hs]

theorem unix?_mapUnix {f : UnixSocketState → UnixSocketState} :
    (s.mapUnix f).unix? = s.unix?.map f := by
  rcases h : s.implementation with u | n | n <;>
    simp [Socket.mapUnix, Socket.unix?, Socket.setImplementation, h]

theorem unixAt_modifyUnix {f : UnixSocketState → UnixSocketState} :
    (m.modifyUnix a f).unixAt b = if b = a then (m.unixAt a).map f else m.unixAt b := by
  rw [unixAt, modifyUnix, sockets_modify]
  split_ifs with hb
  · subst hb
    rw [update_self, unixAt]
    rcases m.sockets b with _ | s
    · rfl
    · exact unix?_mapUnix
  · rw [update_of_ne hb, unixAt]

theorem unixAt_modify {f : Socket → Socket}
    (hf : ∀ s, m.sockets a = some s → (f s).unix? = s.unix?) :
    (m.modify a f).unixAt = m.unixAt := funext fun b => by
  rw [unixAt, sockets_modify, unixAt]
  by_cases hb : b = a
  · subst hb
    rw [update_self]
    rcases hs : m.sockets b with _ | s
    · rfl
    · exact hf s hs
  · rw [update_of_ne hb]

theorem unixAt_addSocket :
    (m.addSocket a s).unixAt b = if b = a then s.unix? else m.unixAt b := by
  rw [unixAt, addSocket]
  dsimp only
  split_ifs with hb
  · rw [hb, update_self, Option.bind_some]
  · rw [update_of_ne hb, unixAt]

theorem connections_congr (h : m'.unixAt = m.unixAt) : m'.connections = m.connections := by
  rw [connections, connections, h]

theorem connections_modifyUnix {f : UnixSocketState → UnixSocketState}
    (hf : ∀ u, (f u).isListening = u.isListening ∧
      (f u).pendingConnections = u.pendingConnections ∧ (f u).connectedPeer = u.connectedPeer) :
    (m.modifyUnix a f).connections = m.connections := by
  ext b : 2 <;> simp only [connections, unixAt_modifyUnix]
  all_goals
    split_ifs with hb
    · subst hb
      rcases m.unixAt b with _ | u <;> simp [hf]
    · rfl

theorem connections_setImplementation {implementation : SocketImplementation}
    (hfind : m.findSocket owner fileDescriptor = some (a, s)) (hs : s.unix? = none)
    (h : (s.setImplementation implementation).unix? = none) :
    (m.setImplementation a implementation).connections = m.connections :=
  connections_congr (unixAt_modify fun t ht => by
    obtain rfl := Option.some.inj ((findSocket_eq_some hfind).2.symm.trans ht)
    rw [h, hs])

theorem connections_setPeer (peer : Option ℕ) (ha : m.connections.known a = true) :
    (m.modifyUnix a (·.setPeer peer)).connections =
      { m.connections with peer := update m.connections.peer a peer } := by
  obtain ⟨u, hu⟩ := Option.isSome_iff_exists.mp ha
  ext b : 2 <;> simp only [connections, unixAt_modifyUnix, update_apply]
  all_goals
    split_ifs with hb
    · subst hb
      simp [hu, UnixSocketState.setPeer]
    · rfl

theorem connections_setPending {g : UnixSocketState → List ℕ} (hu : m.unixAt a = some u) :
    (m.modifyUnix a fun u => u.setPending (g u)).connections =
      { m.connections with pending := update m.connections.pending a (g u) } := by
  ext b : 2 <;> simp only [connections, unixAt_modifyUnix, update_apply]
  all_goals
    split_ifs with hb
    · subst hb
      simp [hu, UnixSocketState.setPending]
    · rfl

theorem connections_addSocket (hs : s.unix? = some u) (hlistening : u.isListening = false)
    (hpending : u.pendingConnections = []) (hpeer : u.connectedPeer = none) :
    (m.addSocket a s).connections = m.connections.add a := by
  ext b : 2 <;> simp only [connections, Connections.add, unixAt_addSocket, update_apply]
  all_goals
    split_ifs with hb
    · simp [hs, hlistening, hpending, hpeer]
    · rfl

theorem connections_addSocket_of_none (hs : s.unix? = none) (ha : m.sockets a = none) :
    (m.addSocket a s).connections = m.connections :=
  connections_congr (funext fun b => by
    rw [unixAt_addSocket]
    split_ifs with hb
    · rw [hs, hb, unixAt, ha, Option.bind_none]
    · rfl)

theorem known_of_find (hfind : m.findSocket owner fileDescriptor = some (a, s))
    (hs : s.implementation = .unix u) : m.unixAt a = some u :=
  unixAt_eq_some (findSocket_eq_some hfind).2 hs

theorem peer_forget (a : ℕ) (u : UnixSocketState) :
    (u.forget a).connectedPeer ≠ some a := by
  rw [UnixSocketState.forget]
  dsimp only
  split_ifs with h
  · simp
  · exact h

theorem forgetPeer_eq (h : u.connectedPeer ≠ some a) : u.forgetPeer a = u := by
  rw [UnixSocketState.forgetPeer, if_neg h]

/-- The sockets in the queue have dropped the one that is closed before. -/
theorem unixAt_forgetListener {pending : List ℕ}
    (h : ∀ v, m.unixAt b = some v → v.connectedPeer ≠ some a) :
    (m.forgetListener a pending).unixAt b = m.unixAt b := by
  induction pending generalizing m with
  | nil => rfl
  | cons c pending ih =>
    have hstep : (m.modifyUnix c (·.forgetPeer a)).unixAt b = m.unixAt b := by
      rw [unixAt_modifyUnix]
      split_ifs with hb
      · subst hb
        rcases hv : m.unixAt b with _ | v
        · rfl
        · rw [Option.map_some, forgetPeer_eq (h v hv)]
      · rfl
    exact (ih (hstep ▸ h)).trans hstep

theorem unixAt_forgetSocket (h : m.Tracked) (hb : b ≠ a) :
    (m.forgetSocket a).unixAt b = (m.unixAt b).map (·.forget a) := by
  rw [unixAt, forgetSocket]
  dsimp only
  rcases hs : m.sockets b with _ | s
  · rw [unixAt, hs]
    split_ifs <;> rfl
  · rw [if_pos ⟨hb, h.mem hs⟩, unixAt, hs]
    exact unix?_mapUnix

/-- Closing a socket ends its connections. -/
theorem connections_close (h : m.Tracked) (pending : List ℕ) :
    (((m.forgetSocket a).forgetListener a pending).destroySocket a).connections =
      m.connections.close a := by
  have hunix : ∀ b, (((m.forgetSocket a).forgetListener a pending).destroySocket a).unixAt b =
      if b = a then none else (m.unixAt b).map (·.forget a) := fun b => by
    split_ifs with hb
    · rw [hb, unixAt, destroySocket]
      dsimp only
      rw [update_self, Option.bind_none]
    · rw [← unixAt_forgetSocket h hb, unixAt, destroySocket]
      dsimp only
      rw [update_of_ne hb]
      refine unixAt_forgetListener fun v hv => ?_
      rw [unixAt_forgetSocket h hb] at hv
      obtain ⟨u, -, rfl⟩ := Option.map_eq_some_iff.mp hv
      exact peer_forget a u
  ext b : 2 <;> simp only [connections, Connections.close, hunix, update_apply]
  all_goals
    by_cases hb : b = a
    · simp [hb]
    · obtain hu | ⟨u, hu⟩ := Option.eq_none_or_eq_some (m.unixAt b)
      · simp [hb, hu]
      · simp [hb, hu, UnixSocketState.forget]

/-! ### What the calls must not do -/

/-- A call to `listen` leaves the queue whole, and the socket has no other side; a call to `accept`
that takes a socket from the queue can create the other side, and this socket does not listen. -/
def KeepsConnections (m : SocketManager) : SocketCall → Prop
  | .listenSocket owner fileDescriptor backlog queueAllocated => ∀ a s u,
    m.findSocket owner fileDescriptor = some (a, s) → s.implementation = .unix u →
      s.type.isConnectionBased = true → u.isBound = true →
        (clampBacklog backlog = u.pendingConnectionCapacity ∨ clampBacklog backlog = 0 ∨
          queueAllocated = true) →
        (clampBacklog backlog = u.pendingConnectionCapacity ∨
          u.pendingConnections.length ≤ clampBacklog backlog) ∧
        ∀ b v, u.connectedPeer = some b → m.unixAt b = some v → v.isListening = true
  | .acceptSocket owner fileDescriptor acceptedOwner acceptedFileDescriptor new =>
    ∀ listener s l client pending, m.findSocket owner fileDescriptor = some (listener, s) →
      s.implementation = .unix l → l.isListening = true →
        m.nextPending l.pendingConnections = (some client, pending) → acceptedOwner ≠ 0 →
          0 ≤ acceptedFileDescriptor →
            (m.socketList.length < maxTrackedSockets ∧ new.address ≠ 0 ∧
              new.partsAllocated = true) ∧
            ∀ v, m.unixAt client = some v → v.isListening = false
  | _ => True

theorem implementation_unix {new : NewSocket} {type : SocketType}
    {implementation : SocketImplementation}
    (h : new.implementation .unix type = .ok implementation) : implementation = .unix
      { receiveBuffer := some (.blank new.cells NewSocket.receiveBufferSize_pos) } := by
  rw [NewSocket.implementation] at h
  split_ifs at h
  exact (Except.ok.inj h).symm

theorem isListening_listen {backlog : ℕ} : (u.listen backlog).isListening = true := rfl

theorem connectedPeer_listen {backlog : ℕ} :
    (u.listen backlog).connectedPeer = u.connectedPeer := by
  rw [UnixSocketState.listen, UnixSocketState.resize]
  split_ifs <;> rfl

theorem pendingConnections_listen {backlog : ℕ}
    (h : backlog = u.pendingConnectionCapacity ∨ u.pendingConnections.length ≤ backlog) :
    (u.listen backlog).pendingConnections = u.pendingConnections := by
  rw [UnixSocketState.listen, UnixSocketState.resize]
  split_ifs with hne
  · exact List.take_of_length_le (h.resolve_left hne)
  · rfl

theorem connections_listen {backlog : ℕ} (hu : m.unixAt a = some u)
    (h : backlog = u.pendingConnectionCapacity ∨ u.pendingConnections.length ≤ backlog) :
    (m.modifyUnix a (·.listen backlog)).connections = m.connections.listen a := by
  ext b : 2 <;> simp only [connections, Connections.listen, unixAt_modifyUnix, update_apply]
  all_goals
    split_ifs with hb
    · subst hb
      simp [hu, isListening_listen, connectedPeer_listen, pendingConnections_listen h]
    · rfl

theorem connections_created {new : NewSocket} {domain : SocketDomain} {type : SocketType}
    {implementation : SocketImplementation}
    (hnew : new.implementation domain type = .ok implementation) {protocol : ℤ}
    (ha : m.sockets a = none) :
    (m.addSocket a ⟨type, protocol, owner, fileDescriptor, implementation⟩).connections =
      m.connections.add a ∨
    (m.addSocket a ⟨type, protocol, owner, fileDescriptor, implementation⟩).connections =
      m.connections := by
  cases domain with
  | unix =>
    obtain rfl := implementation_unix hnew
    exact .inl (connections_addSocket rfl rfl rfl rfl)
  | inet | netlink =>
    rw [NewSocket.implementation.eq_def] at hnew
    dsimp only at hnew
    split_ifs at hnew
    obtain rfl := Except.ok.inj hnew
    exact .inr (connections_addSocket_of_none rfl ha)

theorem nextPending_of_tracked {pending : List ℕ} (h : ∀ c ∈ pending, c ∈ m.socketList) :
    m.nextPending pending = (pending.head?, pending.tail) := by
  cases pending with
  | nil => rfl
  | cons c pending => exact if_pos (h c List.mem_cons_self)

section

variable (h : m.unixAt a = some u)

include h

theorem known_eq_true : m.connections.known a = true := by
  simp [connections, h]

theorem listening_eq : m.connections.listening a = u.isListening := by
  simp [connections, h]

theorem pending_eq : m.connections.pending a = u.pendingConnections := by
  simp [connections, h]

theorem peer_eq : m.connections.peer a = u.connectedPeer := by
  simp [connections, h]

end

theorem exists_of_known (h : m.connections.known a = true) : ∃ u, m.unixAt a = some u :=
  Option.isSome_iff_exists.mp h

theorem mem_of_known (htracked : m.Tracked) (h : m.connections.known a = true) :
    a ∈ m.socketList := by
  obtain ⟨u, hu⟩ := exists_of_known h
  obtain ⟨s, hs, -⟩ := Option.bind_eq_some_iff.mp hu
  exact htracked.mem hs

theorem not_known (ha : m.sockets a = none) : m.connections.known a = false := by
  simp [connections, unixAt, ha]

/-- The queue of a socket has only tracked sockets, so none is skipped. -/
theorem nextPending_eq (htracked : m.Tracked) (h : m.connections.Consistent)
    (hu : m.unixAt a = some u) :
    m.nextPending u.pendingConnections =
      (u.pendingConnections.head?, u.pendingConnections.tail) :=
  nextPending_of_tracked fun c hc =>
    mem_of_known htracked (h.pending_known a c (pending_eq hu ▸ hc))

theorem connections_connect {listener : ℕ} {l : UnixSocketState} (hu : m.unixAt a = some u)
    (hl : m.unixAt listener = some l) :
    ((m.modifyUnix listener fun l => l.setPending (l.pendingConnections ++ [a])).modifyUnix a
      (·.setPeer (some listener))).connections = m.connections.connect a listener := by
  have hpending := connections_setPending (g := fun l => l.pendingConnections ++ [a]) hl
  rw [connections_setPeer _ (by rw [hpending]; exact known_eq_true hu), hpending, Connections.connect,
    pending_eq hl]

theorem connections_accept {listener client new : ℕ} {l v : UnixSocketState} {pending : List ℕ}
    (hl : m.unixAt listener = some l) (hclient : m.unixAt client = some v)
    (hnew : m.sockets new = none) (hs : s.unix? = some u) (hlistening : u.isListening = false)
    (hpending : u.pendingConnections = []) (hpeer : u.connectedPeer = none) :
    ((((m.modifyUnix listener (·.setPending pending)).addSocket new s).modifyUnix new
      (·.setPeer (some client))).modifyUnix client (·.setPeer (some new))).connections =
      m.connections.accept listener client pending new := by
  have hne : client ≠ new := fun heq => by
    rw [heq, unixAt, hnew] at hclient
    cases hclient
  have hadded : ((m.modifyUnix listener (·.setPending pending)).addSocket new s).connections =
      { m.connections with pending := update m.connections.pending listener pending }.add new := by
    rw [connections_addSocket hs hlistening hpending hpeer,
      connections_setPending (g := fun _ => pending) hl]
  have hknown : ((m.modifyUnix listener (·.setPending pending)).addSocket new s).connections.known
      new = true := by
    rw [hadded]
    exact update_self ..
  have hknown' : ((m.modifyUnix listener (·.setPending pending)).addSocket new s).connections.known
      client = true := by
    rw [hadded]
    exact (update_of_ne hne ..).trans (known_eq_true hclient)
  have hset := connections_setPeer (some client) hknown
  rw [connections_setPeer (some new) (by rw [hset]; exact hknown'), hset, hadded]
  simp only [Connections.accept, Connections.add, update_idem]

/-- A call that keeps connections leaves them consistent, and serves the sockets that wait. -/
theorem Effect.consistent {call : SocketCall} (htracked : m.Tracked) (hadmits : m.Admits call)
    (hkeeps : m.KeepsConnections call) (h : m.connections.Consistent)
    (heffect : m.Effect call m') :
    m'.connections.Consistent ∧ m.connections.Serves m'.connections := by
  have hsame : m'.connections = m.connections →
      m'.connections.Consistent ∧ m.connections.Serves m'.connections :=
    fun heq => by
      rw [heq]
      exact ⟨h, Connections.serves_refl⟩
  cases heffect with
  | unchanged => exact hsame rfl
  | created hnew =>
    obtain hadd | hnone := connections_created hnew hadmits
    · rw [hadd]
      exact ⟨h.add (not_known hadmits), Connections.serves_add h (not_known hadmits)⟩
    · exact hsame hnone
  | boundInet hfind himplementation =>
    exact hsame (connections_setImplementation hfind (by rw [Socket.unix?, himplementation]) rfl)
  | boundNetlink hfind himplementation =>
    exact hsame (connections_setImplementation hfind (by rw [Socket.unix?, himplementation]) rfl)
  | listenedInet hfind himplementation =>
    exact hsame (connections_setImplementation hfind (by rw [Socket.unix?, himplementation]) rfl)
  | listenedUnbound hfind himplementation =>
    exact hsame (connections_setImplementation hfind (by rw [Socket.unix?, himplementation]) rfl)
  | connectedNetlink hfind himplementation =>
    exact hsame (connections_setImplementation hfind (by rw [Socket.unix?, himplementation]) rfl)
  | shutInet hfind himplementation =>
    exact hsame (connections_setImplementation hfind (by rw [Socket.unix?, himplementation]) rfl)
  | shutNetlink hfind himplementation =>
    exact hsame (connections_setImplementation hfind (by rw [Socket.unix?, himplementation]) rfl)
  | boundUnix | shutUnix | received =>
    exact hsame (connections_modifyUnix fun _ => ⟨rfl, rfl, rfl⟩)
  | listenedUnix hfind himplementation hbound htype hqueue =>
    have hu := known_of_find hfind himplementation
    obtain ⟨hwhole, hpeer⟩ := hkeeps _ _ _ hfind himplementation htype hbound hqueue
    rw [connections_listen hu hwhole]
    refine ⟨h.listen fun b hb => ?_, Connections.serves_listen⟩
    obtain ⟨v, hv⟩ := exists_of_known (h.peer_known _ b hb)
    rw [peer_eq hu] at hb
    rw [listening_eq hv, hpeer b v hb hv]
  | connectedUnix hfind himplementation htype hpeer hlistener hunix hlistening hspace =>
    have hu := known_of_find hfind himplementation
    have hl := unixAt_eq_some (mem_entries.mp (List.mem_of_find?_eq_some hlistener)).2 hunix
    have hnone := (peer_eq hu).trans hpeer
    rw [connections_connect hu hl]
    exact ⟨h.connect (known_eq_true hu) hnone (known_eq_true hl)
      ((listening_eq hl).trans hlistening), Connections.serves_connect hnone⟩
  | acceptedNone hfind himplementation hlistening hpending =>
    have hl := known_of_find hfind himplementation
    rw [nextPending_eq htracked h hl, Prod.mk.injEq, List.head?_eq_none_iff] at hpending
    refine hsame ?_
    rw [connections_setPending (g := fun _ => _) hl, ← hpending.2, hpending.1, List.tail_nil,
      update_eq_iff.mpr ⟨((pending_eq hl).trans hpending.1).symm, fun _ _ => rfl⟩]
  | acceptedFailed howner hdescriptor hfind himplementation hlistening hpending hfailed =>
    exact absurd (hkeeps _ _ _ _ _ hfind himplementation hlistening hpending howner
      hdescriptor).1 hfailed
  | accepted howner hdescriptor hfind himplementation hlistening hpending hnew =>
    have hl := known_of_find hfind himplementation
    have hclient := (hkeeps _ _ _ _ _ hfind himplementation hlistening hpending howner
      hdescriptor).2
    rw [nextPending_eq htracked h hl, Prod.mk.injEq, List.head?_eq_some_iff] at hpending
    obtain ⟨⟨rest, hqueue⟩, htail⟩ := hpending
    rw [hqueue, List.tail_cons] at htail
    subst htail
    have hcons := (pending_eq hl).trans hqueue
    obtain ⟨v, hv⟩ := exists_of_known (h.pending_known _ _ (hcons ▸ List.mem_cons_self))
    obtain rfl := implementation_unix hnew
    rw [connections_accept hl hv hadmits rfl rfl rfl rfl]
    exact ⟨h.accept hcons ((listening_eq hv).trans (hclient v hv)) (not_known hadmits),
      Connections.serves_accept h (known_eq_true hv) (not_known hadmits)⟩
  | kept => exact hsame (connections_congr (unixAt_modify fun _ _ => rfl))
  | closed =>
    rw [connections_close htracked _]
    exact ⟨h.close, Connections.serves_close⟩

/-! ### Runs -/

/-- The peers and the queues of the Unix sockets refer to tracked sockets, the two sides of a
connection to each other, and a socket that waits for a listening one occurs once in its queue. -/
structure ConnectionsConsistent (m : SocketManager) : Prop where
  peer_tracked : ∀ a u b, m.unixAt a = some u → u.connectedPeer = some b →
    b ∈ m.socketList ∧ ∃ v, m.unixAt b = some v
  pending_tracked : ∀ l v a, m.unixAt l = some v → a ∈ v.pendingConnections →
    a ∈ m.socketList ∧ ∃ u, m.unixAt a = some u ∧ u.connectedPeer = some l
  symm : ∀ a u b v, m.unixAt a = some u → u.isListening = false → u.connectedPeer = some b →
    m.unixAt b = some v → v.isListening = false → v.connectedPeer = some a
  once : ∀ a u l v, m.unixAt a = some u → u.connectedPeer = some l → m.unixAt l = some v →
    v.isListening = true → v.pendingConnections.count a = 1

/-- A socket that waits for a listening one still waits for it, or it is connected to a new socket,
or it has no peer, or it is closed. -/
def ServesWaiting (m m' : SocketManager) : Prop :=
  ∀ a u l v, m.unixAt a = some u → u.connectedPeer = some l → m.unixAt l = some v →
    v.isListening = true → ∀ u', m'.unixAt a = some u' →
      (u'.connectedPeer = some l ∧ ∃ v', m'.unixAt l = some v' ∧ v'.isListening = true) ∨
      (∃ b w, m.unixAt b = none ∧ u'.connectedPeer = some b ∧ m'.unixAt b = some w ∧
        w.connectedPeer = some a ∧ w.isListening = false) ∨
      u'.connectedPeer = none

theorem Connections.Consistent.connectionsConsistent (htracked : m.Tracked)
    (h : m.connections.Consistent) : m.ConnectionsConsistent where
  peer_tracked a u b hu hb := by
    have hknown := h.peer_known a b ((peer_eq hu).trans hb)
    exact ⟨mem_of_known htracked hknown, exists_of_known hknown⟩
  pending_tracked l v a hv ha := by
    have hmem := (pending_eq hv).symm ▸ ha
    have hknown := h.pending_known l a hmem
    obtain ⟨u, hu⟩ := exists_of_known hknown
    exact ⟨mem_of_known htracked hknown, u, hu, (peer_eq hu).symm.trans (h.waits l a hmem)⟩
  symm a u b v hu hlistening hb hv hlistening' :=
    (peer_eq hv).symm.trans (h.symm a b ((listening_eq hu).trans hlistening)
      ((peer_eq hu).trans hb) ((listening_eq hv).trans hlistening'))
  once a u l v hu hl hv hlistening := by
    rw [← pending_eq hv]
    exact h.once a l ((peer_eq hu).trans hl) ((listening_eq hv).trans hlistening)

theorem Connections.Serves.servesWaiting (h' : m'.connections.Consistent)
    (h : m.connections.Serves m'.connections) : m.ServesWaiting m' := by
  intro a u l v hu hl hv hlistening u' hu'
  obtain ⟨hpeer, hl'⟩ | ⟨b, hb, hpeer, hpeer', hlistening'⟩ | hnone :=
    h a l ((peer_eq hu).trans hl) ((listening_eq hv).trans hlistening)
  · obtain ⟨v', hv'⟩ := exists_of_known (h'.peer_known a l hpeer)
    exact .inl ⟨(peer_eq hu').symm.trans hpeer, v', hv', (listening_eq hv').symm.trans hl'⟩
  · obtain ⟨w, hw⟩ := exists_of_known (h'.peer_known a b hpeer)
    exact .inr (.inl ⟨b, w, Option.isSome_eq_false_iff.mp hb |> Option.isNone_iff_eq_none.mp,
      (peer_eq hu').symm.trans hpeer, hw, (peer_eq hw).symm.trans hpeer',
      (listening_eq hw).symm.trans hlistening'⟩)
  · exact .inr (.inr ((peer_eq hu').symm.trans hnone))

theorem connections_empty : (({} : SocketManager)).connections = Connections.empty := rfl

/-- The connections are consistent in every run of calls that keep connections. -/
theorem Run.consistent (h : Run KeepsConnections m) : m.connections.Consistent := by
  induction h with
  | init => exact connections_empty ▸ Connections.Consistent.init
  | step call h hadmits hkeeps ih =>
    exact ((effect_step _ call).consistent h.tracked hadmits hkeeps ih).1

/-- In every run of calls that keep connections, the connections are consistent, and a further call
serves the sockets that wait. -/
theorem connectionsConsistent_of_run (h : Run KeepsConnections m) :
    m.ConnectionsConsistent ∧ ∀ call, m.Admits call → m.KeepsConnections call →
      m.ServesWaiting (m.step call) := by
  refine ⟨Connections.Consistent.connectionsConsistent h.tracked h.consistent,
    fun call hadmits hkeeps => ?_⟩
  obtain ⟨h', hserves⟩ := (effect_step m call).consistent h.tracked hadmits hkeeps h.consistent
  exact Connections.Serves.servesWaiting h' hserves

/-- The address of a Unix socket at the path `"a"`. -/
def pathAddress : Option (List UInt8) := some [1, 0, 97, 0]

/-- A stream socket that is bound. -/
def boundSocket : SocketManager :=
  (step {} (.createSocket 1 1 0 1 3 ⟨1, true, fun _ => 0⟩)).step (.bindSocket 1 3 pathAddress true)

/-- The socket listens with room for one connection, and another one waits for it. -/
def waitingSocket : SocketManager :=
  ((boundSocket.step (.listenSocket 1 3 1 true)).step
    (.createSocket 1 1 0 2 3 ⟨2, true, fun _ => 0⟩)).step (.connectSocket 2 3 pathAddress)

theorem keepsConnections_boundSocket :
    boundSocket.KeepsConnections (.listenSocket 1 3 1 true) := by
  intro a s u hfind himplementation _ _ _
  have hblank : (boundSocket.findSocket 1 3).all (fun e => e.2.unix?.all fun u =>
      u.pendingConnections.isEmpty && u.connectedPeer.isNone) = true := by
    decide +kernel
  rw [hfind, Option.all_some, Socket.unix?, himplementation, Option.all_some,
    Bool.and_eq_true, List.isEmpty_iff, Option.isNone_iff_eq_none] at hblank
  refine ⟨.inr (by simp [hblank.1]), fun b v hb => ?_⟩
  rw [hblank.2] at hb
  cases hb

theorem run_waitingSocket : Run KeepsConnections waitingSocket := by
  have hbound : Run KeepsConnections boundSocket :=
    .step _ (.step _ .init rfl trivial) trivial trivial
  exact .step _ (.step _ (.step _ hbound trivial keepsConnections_boundSocket)
    (Option.isNone_iff_eq_none.mp (by decide +kernel)) trivial) trivial trivial

theorem connectionsConsistent_waitingSocket : waitingSocket.ConnectionsConsistent :=
  (connectionsConsistent_of_run run_waitingSocket).1

theorem not_connectionsConsistent {l n : ℕ}
    (ha : (m.unixAt a).map (fun u => u.connectedPeer) = some (some l))
    (hl : (m.unixAt l).map (fun v => (v.isListening, v.pendingConnections.count a)) =
      some (true, n)) (hn : n ≠ 1) : ¬m.ConnectionsConsistent := by
  obtain ⟨u, hu, hpeer⟩ := Option.map_eq_some_iff.mp ha
  obtain ⟨v, hv, hcount⟩ := Option.map_eq_some_iff.mp hl
  rw [Prod.mk.injEq] at hcount
  exact fun h => hn (hcount.2.symm.trans (h.once a u l v hu hpeer hv hcount.1))

/-- The process that waits has created `n` more sockets. -/
def crowdedSocket : ℕ → SocketManager
  | 0 => waitingSocket
  | n + 1 => (crowdedSocket n).step (.createSocket 1 1 0 2 (n + 4) ⟨n + 3, true, fun _ => 0⟩)

theorem socketList_waitingSocket : waitingSocket.socketList = [1, 2] := by decide +kernel

/-- The two sockets are the first ones, and they stay as they are. -/
theorem crowdedSocket_spec (n : ℕ) (hn : n + 2 ≤ maxTrackedSockets) :
    Reachable (crowdedSocket n) ∧
      (∃ l, (crowdedSocket n).socketList = [1, 2] ++ l ∧ l.length = n) ∧
      (∀ a < 3, (crowdedSocket n).sockets a = waitingSocket.sockets a) ∧
      ∀ a, n + 3 ≤ a → (crowdedSocket n).sockets a = none := by
  induction n with
  | zero =>
    have hwaiting : Reachable waitingSocket := run_waitingSocket.mono fun _ _ _ => trivial
    refine ⟨hwaiting, ⟨[], socketList_waitingSocket, rfl⟩, fun _ _ => rfl, fun a ha => ?_⟩
    have hmem := (hwaiting.tracked.mem_iff a).not.mp (by
      rw [socketList_waitingSocket]
      simp
      omega)
    rw [crowdedSocket]
    simpa using hmem
  | succ n ih =>
    obtain ⟨hreachable, ⟨l, hlist, hlength⟩, hsame, hfresh⟩ := ih (by omega)
    have hfull : ¬ maxTrackedSockets ≤ (crowdedSocket n).socketList.length := by
      rw [hlist, List.length_append, hlength, List.length_cons, List.length_singleton]
      omega
    obtain ⟨s, hstep⟩ : ∃ s, crowdedSocket (n + 1) = (crowdedSocket n).addSocket (n + 3) s := by
      rw [crowdedSocket, step, createSocket, if_neg (by omega), if_neg hfull]
      exact ⟨_, rfl⟩
    refine ⟨.step _ hreachable (hfresh _ le_rfl) trivial, ?_, fun a ha => ?_, fun a ha => ?_⟩
    · refine ⟨l ++ [n + 3], ?_, by simp [hlength]⟩
      rw [hstep, addSocket, hlist, List.append_assoc]
    · rw [hstep, addSocket]
      exact (update_of_ne (by omega) ..).trans (hsame a ha)
    · rw [hstep, addSocket]
      exact (update_of_ne (by omega) ..).trans (hfresh a (by omega))

theorem unix?_eq_some : s.unix? = some u ↔ s.implementation = .unix u := by
  rw [Socket.unix?]
  split <;> simp_all

/-- A client is dropped when no more sockets can be tracked. -/
theorem step_acceptSocket_of_full {listener client acceptedOwner : ℕ} {pending : List ℕ}
    {acceptedFileDescriptor : ℤ} (new : NewSocket) (hfull : maxTrackedSockets ≤ m.socketList.length)
    (hvalid : ¬(owner = 0 ∨ acceptedOwner = 0 ∨ fileDescriptor < 0 ∨ acceptedFileDescriptor < 0))
    (hfind : m.findSocket owner fileDescriptor = some (listener, s))
    (hunix : s.implementation = .unix u) (hlistening : u.isListening = true)
    (hnext : m.nextPending u.pendingConnections = (some client, pending)) :
    m.step (.acceptSocket owner fileDescriptor acceptedOwner acceptedFileDescriptor new) =
      m.modifyUnix listener (·.setPending pending) := by
  have hcreate : (m.modifyUnix listener (·.setPending pending)).createSocket s.domain.family
      s.type.number s.protocol acceptedOwner acceptedFileDescriptor new =
      (m.modifyUnix listener (·.setPending pending), .error SocketError.emfile) := by
    rw [createSocket, if_neg fun h => hvalid (h.elim (fun h => .inr (.inl h))
      fun h => .inr (.inr (.inr h)))]
    exact if_pos hfull
  simp only [step, acceptSocket, if_neg hvalid, hfind, hunix, hlistening, hnext, hcreate,
    Bool.not_true, Bool.false_eq_true, if_false]

/-- With a full list the client is in no queue after it has been accepted. -/
theorem not_connectionsConsistent_crowdedSocket {n : ℕ} (hn : n + 2 = maxTrackedSockets) :
    Reachable ((crowdedSocket n).step (.acceptSocket 1 3 1 4 ⟨n + 3, true, fun _ => 0⟩)) ∧
      ¬((crowdedSocket n).step
        (.acceptSocket 1 3 1 4 ⟨n + 3, true, fun _ => 0⟩)).ConnectionsConsistent := by
  obtain ⟨hreachable, ⟨l, hlist, hlength⟩, hsame, hfresh⟩ := crowdedSocket_spec n hn.le
  refine ⟨.step _ hreachable (hfresh _ le_rfl) trivial, ?_⟩
  generalize crowdedSocket n = m at *
  have hunix (a : ℕ) (ha : a < 3) : m.unixAt a = waitingSocket.unixAt a := by
    rw [unixAt, hsame a ha, unixAt]
  obtain ⟨s, u, hfind, hs, hlistening, hpending⟩ : ∃ s u, m.findSocket 1 3 = some (1, s) ∧
      s.implementation = .unix u ∧ u.isListening = true ∧ u.pendingConnections = [2] := by
    have hlistener : ((waitingSocket.sockets 1).any fun s => decide (s.owner = 1) &&
        decide (s.fileDescriptor = 3) && s.unix?.any fun u =>
          u.isListening && decide (u.pendingConnections = [2])) = true := by decide +kernel
    obtain ⟨s, hs, hall⟩ := (Option.any_eq_true _ _).mp hlistener
    simp only [Bool.and_eq_true, decide_eq_true_eq] at hall
    obtain ⟨u, hu, hqueue⟩ := (Option.any_eq_true _ _).mp hall.2
    simp only [Bool.and_eq_true, decide_eq_true_eq] at hqueue
    refine ⟨s, u, ?_, unix?_eq_some.mp hu, hqueue⟩
    rw [findSocket, entries, hlist, List.cons_append, List.filterMap_cons, hsame 1 (by decide), hs]
    exact List.find?_cons_of_pos (by simp [hall.1])
  have hnext : m.nextPending u.pendingConnections = (some 2, []) := by
    rw [hpending, nextPending, if_pos (by simp [hlist])]
  rw [step_acceptSocket_of_full _ (by rw [hlist]; simp [hlength]; omega) (by decide) hfind hs
    hlistening hnext]
  refine not_connectionsConsistent (a := 2) (l := 1) (n := 0) ?_ ?_ (by decide)
  · rw [unixAt_modifyUnix, if_neg (by decide), hunix 2 (by decide)]
    decide +kernel
  · rw [unixAt_modifyUnix, if_pos rfl, hunix 1 (by decide)]
    decide +kernel

/-- The socket that waits is lost when the other one listens again without room, and when it is
accepted while as many sockets as possible are tracked. -/
theorem not_connectionsConsistent_waitingSocket :
    (Reachable (waitingSocket.step (.listenSocket 1 3 0 true)) ∧
      ¬(waitingSocket.step (.listenSocket 1 3 0 true)).ConnectionsConsistent) ∧
    Reachable ((crowdedSocket (maxTrackedSockets - 2)).step
        (.acceptSocket 1 3 1 4 ⟨maxTrackedSockets + 1, true, fun _ => 0⟩)) ∧
      ¬((crowdedSocket (maxTrackedSockets - 2)).step
        (.acceptSocket 1 3 1 4 ⟨maxTrackedSockets + 1, true,
          fun _ => 0⟩)).ConnectionsConsistent := by
  have hwaiting : Reachable waitingSocket := run_waitingSocket.mono fun _ _ _ => trivial
  refine ⟨⟨.step _ hwaiting trivial trivial, ?_⟩, not_connectionsConsistent_crowdedSocket rfl⟩
  exact not_connectionsConsistent (a := 2) (l := 1) (n := 0) (by decide +kernel) (by decide +kernel)
    (by decide)

end SocketManager

end TwistedOS
