import TwistedOS.Sockets.SocketLists

/-!
# What the calls of the socket manager do

A call changes nothing, or it has one of the effects below, with what it has found out before.

## Main definitions

* `SocketManager.Effect`.

## Main results

* `SocketManager.effect_step` — every call has such an effect.
* `SocketManager.Run.tracked`.
-/

namespace TwistedOS

open Function

namespace SocketManager

/-- The effects of the calls. -/
inductive Effect (m : SocketManager) : SocketCall → SocketManager → Prop
  | unchanged (call : SocketCall) : Effect m call m
  | created {domain type protocol : ℤ} {owner : ℕ} {fileDescriptor : ℤ} {new : NewSocket}
      {d : SocketDomain} {t : SocketType} {implementation : SocketImplementation}
      (hnew : new.implementation d t = .ok implementation) :
      Effect m (.createSocket domain type protocol owner fileDescriptor new)
        (m.addSocket new.address ⟨t, protocol, owner, fileDescriptor, implementation⟩)
  | boundInet {owner : ℕ} {fileDescriptor : ℤ} {address : Option (List UInt8)}
      {pathAllocated : Bool} {a : ℕ} {s : Socket} {n : NetworkSocket} {ip port : ℕ}
      (hfind : m.findSocket owner fileDescriptor = some (a, s))
      (himplementation : s.implementation = .inet n)
      (hfree : ∀ t ∈ m.others a, inetInUse ip port t = false) :
      Effect m (.bindSocket owner fileDescriptor address pathAllocated)
        (m.setImplementation a (.inet (n.bindTo ip port)))
  | boundUnix {owner : ℕ} {fileDescriptor : ℤ} {address : Option (List UInt8)}
      {pathAllocated : Bool} {a : ℕ} {s : Socket} {u : UnixSocketState} {path : List UInt8}
      {isAbstract : Bool} (hfind : m.findSocket owner fileDescriptor = some (a, s))
      (himplementation : s.implementation = .unix u)
      (hfree : ∀ t ∈ m.others a, unixInUse path isAbstract t = false) :
      Effect m (.bindSocket owner fileDescriptor address pathAllocated)
        (m.modifyUnix a (·.bindTo path isAbstract))
  | boundNetlink {owner : ℕ} {fileDescriptor : ℤ} {address : Option (List UInt8)}
      {pathAllocated : Bool} {a : ℕ} {s : Socket} {n : NetlinkSocket} {pid groups : ℕ}
      (hfind : m.findSocket owner fileDescriptor = some (a, s))
      (himplementation : s.implementation = .netlink n)
      (hfree : ∀ t ∈ m.others a, netlinkInUse pid t = false) :
      Effect m (.bindSocket owner fileDescriptor address pathAllocated)
        (m.setImplementation a (.netlink (n.bindTo pid groups)))
  | listenedInet {owner : ℕ} {fileDescriptor backlog : ℤ} {queueAllocated : Bool} {a : ℕ}
      {s : Socket} {n : NetworkSocket} (hfind : m.findSocket owner fileDescriptor = some (a, s))
      (himplementation : s.implementation = .inet n) :
      Effect m (.listenSocket owner fileDescriptor backlog queueAllocated)
        (m.setImplementation a (.inet (n.listen (clampBacklog backlog))))
  | listenedUnbound {owner : ℕ} {fileDescriptor backlog : ℤ} {queueAllocated : Bool} {a : ℕ}
      {s : Socket} {n : NetworkSocket} {port : ℕ}
      (hfind : m.findSocket owner fileDescriptor = some (a, s))
      (himplementation : s.implementation = .inet n)
      (hfree : ∀ t ∈ m.others a, portInUse port t = false) :
      Effect m (.listenSocket owner fileDescriptor backlog queueAllocated)
        (m.setImplementation a (.inet ((n.bindTo 0 port).listen (clampBacklog backlog))))
  | listenedUnix {owner : ℕ} {fileDescriptor backlog : ℤ} {queueAllocated : Bool} {a : ℕ}
      {s : Socket} {u : UnixSocketState} (hfind : m.findSocket owner fileDescriptor = some (a, s))
      (himplementation : s.implementation = .unix u) (hbound : u.isBound = true)
      (htype : s.type.isConnectionBased = true)
      (hqueue : clampBacklog backlog = u.pendingConnectionCapacity ∨ clampBacklog backlog = 0 ∨
        queueAllocated = true) :
      Effect m (.listenSocket owner fileDescriptor backlog queueAllocated)
        (m.modifyUnix a (·.listen (clampBacklog backlog)))
  | connectedNetlink {owner : ℕ} {fileDescriptor : ℤ} {address : Option (List UInt8)} {a : ℕ}
      {s : Socket} {n : NetlinkSocket} {pid groups : ℕ}
      (hfind : m.findSocket owner fileDescriptor = some (a, s))
      (himplementation : s.implementation = .netlink n) :
      Effect m (.connectSocket owner fileDescriptor address)
        (m.setImplementation a (.netlink (n.connectTo pid groups)))
  | connectedUnix {owner : ℕ} {fileDescriptor : ℤ} {address : Option (List UInt8)} {a : ℕ}
      {s : Socket} {u : UnixSocketState} {path : List UInt8} {isAbstract : Bool} {listener : ℕ}
      {t : Socket} {l : UnixSocketState} (hfind : m.findSocket owner fileDescriptor = some (a, s))
      (himplementation : s.implementation = .unix u)
      (htype : s.type.isConnectionBased = true) (hpeer : u.connectedPeer = none)
      (hlistener : m.findListener path isAbstract = some (listener, t))
      (hunix : t.implementation = .unix l) (hlistening : l.isListening = true)
      (hspace : l.pendingConnections.length < l.pendingConnectionCapacity) :
      Effect m (.connectSocket owner fileDescriptor address)
        ((m.modifyUnix listener fun l => l.setPending (l.pendingConnections ++ [a])).modifyUnix a
          (·.setPeer (some listener)))
  | acceptedNone {owner : ℕ} {fileDescriptor : ℤ} {acceptedOwner : ℕ}
      {acceptedFileDescriptor : ℤ} {new : NewSocket} {listener : ℕ} {s : Socket}
      {l : UnixSocketState} {pending : List ℕ}
      (hfind : m.findSocket owner fileDescriptor = some (listener, s))
      (himplementation : s.implementation = .unix l) (hlistening : l.isListening = true)
      (hpending : m.nextPending l.pendingConnections = (none, pending)) :
      Effect m (.acceptSocket owner fileDescriptor acceptedOwner acceptedFileDescriptor new)
        (m.modifyUnix listener (·.setPending pending))
  | acceptedFailed {owner : ℕ} {fileDescriptor : ℤ} {acceptedOwner : ℕ}
      {acceptedFileDescriptor : ℤ} {new : NewSocket} {listener : ℕ} {s : Socket}
      {l : UnixSocketState} {client : ℕ} {pending : List ℕ}
      (howner : acceptedOwner ≠ 0) (hdescriptor : 0 ≤ acceptedFileDescriptor)
      (hfind : m.findSocket owner fileDescriptor = some (listener, s))
      (himplementation : s.implementation = .unix l) (hlistening : l.isListening = true)
      (hpending : m.nextPending l.pendingConnections = (some client, pending))
      (hfailed : ¬(m.socketList.length < maxTrackedSockets ∧ new.address ≠ 0 ∧
        new.partsAllocated = true)) :
      Effect m (.acceptSocket owner fileDescriptor acceptedOwner acceptedFileDescriptor new)
        (m.modifyUnix listener (·.setPending pending))
  | accepted {owner : ℕ} {fileDescriptor : ℤ} {acceptedOwner : ℕ} {acceptedFileDescriptor : ℤ}
      {new : NewSocket} {listener : ℕ} {s : Socket} {l : UnixSocketState} {client : ℕ}
      {pending : List ℕ} {implementation : SocketImplementation}
      (howner : acceptedOwner ≠ 0) (hdescriptor : 0 ≤ acceptedFileDescriptor)
      (hfind : m.findSocket owner fileDescriptor = some (listener, s))
      (himplementation : s.implementation = .unix l) (hlistening : l.isListening = true)
      (hpending : m.nextPending l.pendingConnections = (some client, pending))
      (hnew : new.implementation .unix s.type = .ok implementation) :
      Effect m (.acceptSocket owner fileDescriptor acceptedOwner acceptedFileDescriptor new)
        ((((m.modifyUnix listener (·.setPending pending)).addSocket new.address
          ⟨s.type, s.protocol, acceptedOwner, acceptedFileDescriptor, implementation⟩).modifyUnix
            new.address (·.setPeer (some client))).modifyUnix client (·.setPeer (some new.address)))
  | shutUnix {owner : ℕ} {fileDescriptor how : ℤ} {a : ℕ} {read write : Bool} :
      Effect m (.shutdownSocket owner fileDescriptor how)
        (m.modifyUnix a (·.shutdown read write))
  | shutInet {owner : ℕ} {fileDescriptor how : ℤ} {a : ℕ} {s : Socket} {n : NetworkSocket}
      {read write : Bool} (hfind : m.findSocket owner fileDescriptor = some (a, s))
      (himplementation : s.implementation = .inet n) :
      Effect m (.shutdownSocket owner fileDescriptor how)
        (m.setImplementation a (.inet (n.shutdown read write)))
  | shutNetlink {owner : ℕ} {fileDescriptor how : ℤ} {a : ℕ} {s : Socket} {n : NetlinkSocket}
      {read write : Bool} (hfind : m.findSocket owner fileDescriptor = some (a, s))
      (himplementation : s.implementation = .netlink n) :
      Effect m (.shutdownSocket owner fileDescriptor how)
        (m.setImplementation a (.netlink (n.shutdown read write)))
  | kept {owner : ℕ} {fileDescriptor : ℤ} {fileTable : ℕ → Option ℕ} {a : ℕ} {descriptor : ℤ} :
      Effect m (.closeSocket owner fileDescriptor fileTable)
        (m.modify a (·.setDescriptor descriptor))
  | closed {owner : ℕ} {fileDescriptor : ℤ} {fileTable : ℕ → Option ℕ} {a : ℕ} {s : Socket}
      (hfind : m.findSocket owner fileDescriptor = some (a, s)) :
      Effect m (.closeSocket owner fileDescriptor fileTable)
        (((m.forgetSocket a).forgetListener a
          ((s.unix?.map fun u => u.pendingConnections).getD [])).destroySocket a)
  | received {call : SocketCall} {a : ℕ} {buffer : Option (RingBuffer UInt8 65536)} :
      Effect m call (m.modifyUnix a (·.setReceived buffer))

variable {m : SocketManager}

theorem effect_createSocket {domain type protocol : ℤ} {owner : ℕ} {fileDescriptor : ℤ}
    {new : NewSocket} :
    m.Effect (.createSocket domain type protocol owner fileDescriptor new)
      (m.createSocket domain type protocol owner fileDescriptor new).1 := by
  obtain ⟨d, t, implementation, -, -, hnew, heq⟩ | ⟨code, heq⟩ :=
    createSocket_cases m domain type protocol owner fileDescriptor new
  · rw [heq]
    exact .created hnew
  · rw [heq]
    exact .unchanged _

theorem any_eq_false {p : Socket → Bool} {a : ℕ} (h : ¬(m.others a).any p = true) :
    ∀ t ∈ m.others a, p t = false := fun t ht => by
  rw [List.any_eq_true, not_exists] at h
  exact Bool.eq_false_iff.mpr fun hp => h t ⟨ht, hp⟩

theorem effect_bindSocket {owner : ℕ} {fileDescriptor : ℤ} {address : Option (List UInt8)}
    {pathAllocated : Bool} :
    m.Effect (.bindSocket owner fileDescriptor address pathAllocated)
      (m.bindSocket owner fileDescriptor address pathAllocated).1 := by
  rcases address with _ | address
  · exact .unchanged _
  rw [bindSocket]
  rcases hfind : m.findSocket owner fileDescriptor with _ | ⟨a, s⟩
  · split_ifs <;> exact .unchanged _
  dsimp only
  split_ifs
  · exact .unchanged _
  · exact .unchanged _
  rcases himplementation : s.implementation with u | n | n
  · dsimp only
    rw [bindUnix]
    rcases hpath : unixAddressPath (address.drop sockaddrFamilySize) with ⟨path, isAbstract⟩
    dsimp only
    split_ifs with hshort hlong hempty huse hallocated
    · exact .unchanged _
    · exact .unchanged _
    · exact .unchanged _
    · exact .unchanged _
    · exact .unchanged _
    · exact .boundUnix hfind himplementation (any_eq_false huse)
  · dsimp only
    rw [bindInet]
    split_ifs with hshort huse
    · exact .unchanged _
    · exact .unchanged _
    · exact .boundInet hfind himplementation (any_eq_false huse)
  · dsimp only
    rw [bindNetlink]
    split_ifs with hshort huse
    · exact .unchanged _
    · exact .unchanged _
    · exact .boundNetlink hfind himplementation (any_eq_false huse)

theorem effect_listenSocket {owner : ℕ} {fileDescriptor backlog : ℤ} {queueAllocated : Bool} :
    m.Effect (.listenSocket owner fileDescriptor backlog queueAllocated)
      (m.listenSocket owner fileDescriptor backlog queueAllocated).1 := by
  rw [listenSocket]
  rcases hfind : m.findSocket owner fileDescriptor with _ | ⟨a, s⟩
  · split_ifs <;> exact .unchanged _
  dsimp only
  split_ifs with hbad htype
  · exact .unchanged _
  · exact .unchanged _
  rcases himplementation : s.implementation with u | n | n
  · dsimp only
    rw [listenUnix]
    split_ifs with hbound hallocated
    · exact .unchanged _
    · exact .unchanged _
    · refine .listenedUnix hfind himplementation (by simpa using hbound) (by simpa using htype) ?_
      rcases queueAllocated with _ | _
      · simp only [Bool.not_false, and_true, not_and, not_lt] at hallocated
        exact or_iff_not_imp_left.mpr fun hne => .inl (Nat.le_zero.mp (hallocated hne))
      · exact .inr (.inr rfl)
  · dsimp only
    rw [listenInet]
    split_ifs with hbound
    · exact .listenedInet hfind himplementation
    rcases hport : m.ephemeralPort a with _ | port
    · exact .unchanged _
    · have hfree := List.find?_some hport
      exact .listenedUnbound hfind himplementation (any_eq_false (by simpa using hfree))
  · exact .unchanged _

theorem effect_connectUnix {owner : ℕ} {fileDescriptor : ℤ} {address : Option (List UInt8)}
    {a : ℕ} {s : Socket} {u : UnixSocketState} {bytes : List UInt8}
    (hfind : m.findSocket owner fileDescriptor = some (a, s))
    (himplementation : s.implementation = .unix u) (htype : s.type.isConnectionBased = true) :
    m.Effect (.connectSocket owner fileDescriptor address) (m.connectUnix a u bytes).1 := by
  rw [connectUnix]
  rcases hpath : unixAddressPath (bytes.drop sockaddrFamilySize) with ⟨path, isAbstract⟩
  rcases hlistener : m.findListener path isAbstract with _ | ⟨listener, t⟩
  · dsimp only
    rw [hlistener]
    split_ifs <;> exact .unchanged _
  have hlistens := List.find?_some hlistener
  obtain ⟨l, hunix, hlistening⟩ : ∃ l, t.implementation = .unix l ∧ l.isListening = true := by
    rw [listensAt, Bool.and_eq_true] at hlistens
    rcases hl : t.implementation with l | n | n
    · exact ⟨l, rfl, by simpa [Socket.unix?, hl] using hlistens.2⟩
    · simp [Socket.unix?, hl] at hlistens
    · simp [Socket.unix?, hl] at hlistens
  have hunix? : t.unix? = some l := by rw [Socket.unix?, hunix]
  dsimp only
  rw [hlistener]
  dsimp only
  rw [hunix?]
  split_ifs with hshort hlong hpeer hempty hfull
  · exact .unchanged _
  · exact .unchanged _
  · exact .unchanged _
  · exact .unchanged _
  · exact .unchanged _
  · exact .connectedUnix hfind himplementation htype (by simpa using hpeer) hlistener hunix
      hlistening (by simpa using hfull)

theorem effect_connectSocket {owner : ℕ} {fileDescriptor : ℤ} {address : Option (List UInt8)} :
    m.Effect (.connectSocket owner fileDescriptor address)
      (m.connectSocket owner fileDescriptor address).1 := by
  rcases address with _ | address
  · exact .unchanged _
  rw [connectSocket]
  rcases hfind : m.findSocket owner fileDescriptor with _ | ⟨a, s⟩
  · split_ifs <;> exact .unchanged _
  rcases himplementation : s.implementation with u | n | n
  · have hdomain : s.domain = .unix := by rw [Socket.domain, himplementation]
    dsimp only
    rw [himplementation]
    dsimp only
    split_ifs with hbad htype hfamily
    · exact .unchanged _
    · exact .unchanged _
    · exact .unchanged _
    · exact effect_connectUnix hfind himplementation (by simpa [hdomain] using htype)
  · dsimp only
    rw [himplementation]
    split_ifs <;> exact .unchanged _
  · dsimp only
    rw [himplementation]
    dsimp only
    split_ifs with hbad htype hfamily hshort
    · exact .unchanged _
    · exact .unchanged _
    · exact .unchanged _
    · exact .unchanged _
    · exact .connectedNetlink hfind himplementation

theorem ofNumber_family (d : SocketDomain) : SocketDomain.ofNumber d.family = some d := by
  cases d <;> rfl

theorem ofNumber_number (t : SocketType) : SocketType.ofNumber t.number = some t := by
  cases t <;> rfl

theorem effect_acceptSocket {owner : ℕ} {fileDescriptor : ℤ} {acceptedOwner : ℕ}
    {acceptedFileDescriptor : ℤ} {new : NewSocket} :
    m.Effect (.acceptSocket owner fileDescriptor acceptedOwner acceptedFileDescriptor new)
      (m.acceptSocket owner fileDescriptor acceptedOwner acceptedFileDescriptor new).1 := by
  generalize hr :
    m.acceptSocket owner fileDescriptor acceptedOwner acceptedFileDescriptor new = r
  rw [acceptSocket] at hr
  rcases hfind : m.findSocket owner fileDescriptor with _ | ⟨listener, s⟩
  · rw [hfind] at hr
    split_ifs at hr <;> (subst hr; exact .unchanged _)
  rw [hfind] at hr
  split_ifs at hr with hbad
  · subst hr
    exact .unchanged _
  have howner : acceptedOwner ≠ 0 := by omega
  have hdescriptor : 0 ≤ acceptedFileDescriptor := by omega
  rcases himplementation : s.implementation with l | n | n
  · dsimp only at hr
    rw [himplementation] at hr
    dsimp only at hr
    split_ifs at hr with hlistening
    · subst hr
      exact .unchanged _
    have hlistening : l.isListening = true := by simpa using hlistening
    rcases hpending : m.nextPending l.pendingConnections with ⟨_ | client, pending⟩
    · rw [hpending] at hr
      subst hr
      exact .acceptedNone hfind himplementation hlistening hpending
    rw [hpending] at hr
    dsimp only at hr
    have hdomain : s.domain = .unix := by rw [Socket.domain, himplementation]
    obtain ⟨d, t, implementation, hd, ht, hnew, heq⟩ | ⟨code, heq⟩ :=
      createSocket_cases (m.modifyUnix listener (·.setPending pending)) s.domain.family
        s.type.number s.protocol acceptedOwner acceptedFileDescriptor new
    · rw [heq] at hr
      obtain rfl := Option.some.inj ((ofNumber_number s.type).symm.trans ht)
      obtain rfl := Option.some.inj ((ofNumber_family s.domain).symm.trans hd)
      rw [hdomain] at hnew
      subst hr
      exact .accepted howner hdescriptor hfind himplementation hlistening hpending hnew
    · rw [heq] at hr
      subst hr
      refine .acceptedFailed howner hdescriptor hfind himplementation hlistening hpending
        fun ⟨hlength, haddress, hparts⟩ => ?_
      obtain ⟨a, ha⟩ := createSocket_unix (m := m.modifyUnix listener (·.setPending pending))
        howner hdescriptor hlength (hdomain ▸ ofNumber_family s.domain) (ofNumber_number s.type)
        haddress hparts
      rw [hdomain] at heq
      rw [heq] at ha
      cases ha
  · dsimp only at hr
    rw [himplementation] at hr
    subst hr
    exact .unchanged _
  · dsimp only at hr
    rw [himplementation] at hr
    subst hr
    exact .unchanged _

theorem effect_shutdownSocket {owner : ℕ} {fileDescriptor how : ℤ} :
    m.Effect (.shutdownSocket owner fileDescriptor how)
      (m.shutdownSocket owner fileDescriptor how).1 := by
  rw [shutdownSocket]
  rcases hhow : shutdownDirections how with _ | ⟨read, write⟩
  · split_ifs <;> exact .unchanged _
  rcases hfind : m.findSocket owner fileDescriptor with _ | ⟨a, s⟩
  · split_ifs <;> exact .unchanged _
  rcases himplementation : s.implementation with u | n | n
  · dsimp only
    rw [himplementation]
    dsimp only
    split_ifs
    · exact .unchanged _
    · exact .unchanged _
    · exact .shutUnix
  · dsimp only
    rw [himplementation]
    dsimp only
    split_ifs
    · exact .unchanged _
    · exact .unchanged _
    · exact .shutInet hfind himplementation
  · dsimp only
    rw [himplementation]
    dsimp only
    split_ifs
    · exact .unchanged _
    · exact .shutNetlink hfind himplementation

theorem effect_closeSocket {owner : ℕ} {fileDescriptor : ℤ} {fileTable : ℕ → Option ℕ} :
    m.Effect (.closeSocket owner fileDescriptor fileTable)
      (m.closeSocket owner fileDescriptor fileTable).1 := by
  rw [closeSocket]
  rcases hfind : m.findSocket owner fileDescriptor with _ | ⟨a, s⟩
  · split_ifs <;> exact .unchanged _
  dsimp only
  split_ifs
  · exact .unchanged _
  rcases alternateDescriptor fileTable fileDescriptor a with _ | descriptor
  · exact .closed hfind
  · exact .kept

theorem effect_socketRead {a count : ℕ} :
    m.Effect (.socketRead a count) (m.socketRead a count).1 := by
  rw [socketRead]
  rcases m.sockets a with _ | s
  · exact .unchanged _
  rcases himplementation : s.implementation with u | n | n
  · dsimp only
    rw [himplementation]
    exact .received
  · dsimp only
    rw [himplementation]
    exact .unchanged _
  · dsimp only
    rw [himplementation]
    exact .unchanged _

theorem effect_socketWrite {a : ℕ} {bytes : List UInt8} :
    m.Effect (.socketWrite a bytes) (m.socketWrite a bytes).1 := by
  rw [socketWrite]
  rcases m.sockets a with _ | s
  · exact .unchanged _
  rcases himplementation : s.implementation with u | n | n
  · dsimp only
    rw [himplementation]
    dsimp only [setPeerReceived]
    split
    · exact .received
    · exact .unchanged _
  · dsimp only
    rw [himplementation]
    exact .unchanged _
  · dsimp only
    rw [himplementation]
    exact .unchanged _

/-- Every call has one of the effects. -/
theorem effect_step (m : SocketManager) (call : SocketCall) : m.Effect call (m.step call) := by
  cases call with
  | createSocket => exact effect_createSocket
  | bindSocket => exact effect_bindSocket
  | listenSocket => exact effect_listenSocket
  | connectSocket => exact effect_connectSocket
  | acceptSocket => exact effect_acceptSocket
  | shutdownSocket => exact effect_shutdownSocket
  | closeSocket => exact effect_closeSocket
  | socketRead => exact effect_socketRead
  | socketWrite => exact effect_socketWrite

/-! ### The list of sockets -/

theorem Effect.tracked {call : SocketCall} {m' : SocketManager} (h : m.Tracked)
    (hadmits : m.Admits call) (heffect : m.Effect call m') : m'.Tracked := by
  cases heffect with
  | unchanged => exact h
  | created => exact h.addSocket hadmits
  | boundInet | boundUnix | boundNetlink | listenedInet | listenedUnbound | listenedUnix |
    connectedNetlink | acceptedNone | acceptedFailed | shutUnix | shutInet | shutNetlink | kept |
    received => exact h.modify
  | connectedUnix => exact h.modify.modify
  | @accepted _ _ _ _ new listener _ _ _ pending =>
    have hnone : (m.modifyUnix listener (·.setPending pending)).sockets new.address = none := by
      have hsome := isSome_modify (m := m) (a := listener) (b := new.address)
        (f := (Socket.mapUnix · (·.setPending pending)))
      rw [show m.sockets new.address = none from hadmits] at hsome
      simpa [modifyUnix] using hsome
    exact (h.modify.addSocket hnone).modify.modify
  | closed =>
    refine Tracked.destroySocket (h.of_isSome ?_ fun b => ?_)
    · rw [socketList_forgetListener, socketList_forgetSocket]
    · rw [isSome_forgetListener, isSome_forgetSocket]

theorem tracked_empty : Tracked {} := ⟨List.nodup_nil, fun a => by simp⟩

/-- The sockets in the heap are those in the list, in every run. -/
theorem Run.tracked {Allowed : SocketManager → SocketCall → Prop} (h : Run Allowed m) :
    m.Tracked := by
  induction h with
  | init => exact tracked_empty
  | step call _ hadmits _ ih => exact (effect_step _ call).tracked ih hadmits

end SocketManager

end TwistedOS
