import TwistedOS.KernelParameters
import TwistedOS.Transfer.PipeDescriptors
import Mathlib.Data.List.DropRight

/-!
# Sockets

`InterProcessComunicationManager` keeps a list of the sockets, which refer to each other by
pointers. A socket of the Unix domain that connects waits in the queue of a listening socket, and
has this socket for its peer until it is accepted; then the socket that is created for it becomes
its peer.

Sockets are found by the process that has created them and its descriptor. The addresses that `new`
returns are arguments of the calls.

## Main definitions

* `Socket`, `SocketManager`, with `createSocket`, `bindSocket`, `listenSocket`, `connectSocket`,
  `acceptSocket`, `shutdownSocket`, `closeSocket`, `socketRead` and `socketWrite`.
* `SocketCall`, `SocketManager.step`, `SocketManager.Reachable`.
-/

namespace TwistedOS

open Function

/-- `MAX_TRACKED_SOCKETS`, for 32 processes with 256 open files each. -/
def maxTrackedSockets : ℕ := 32 * 256

/-- `LINUX_LISTEN_SOMAXCONN`. -/
def listenSomaxconn : ℤ := 4096

/-- `LINUX_INET_EPHEMERAL_START`. -/
def inetEphemeralStart : ℕ := 49152

/-- `LINUX_INET_EPHEMERAL_END`. -/
def inetEphemeralEnd : ℕ := 65535

/-- `LINUX_SOCKADDR_FAMILY_SIZE`. -/
def sockaddrFamilySize : ℕ := 2

/-- The size of `LinuxSockAddrIn`. -/
def sockaddrInSize : ℕ := 16

/-- The size of `LinuxSockAddrUn`. -/
def sockaddrUnSize : ℕ := 110

/-- The size of `LinuxSockAddrNl`. -/
def sockaddrNlSize : ℕ := 12

namespace SocketError

/-- `LINUX_SOCKET_ERR_EBADF`. -/
def ebadf : ℤ := -9

/-- `LINUX_SOCKET_ERR_EAGAIN`. -/
def eagain : ℤ := -11

/-- `LINUX_SOCKET_ERR_ENOMEM`. -/
def enomem : ℤ := -12

/-- `LINUX_SOCKET_ERR_EINVAL`. -/
def einval : ℤ := -22

/-- `LINUX_SOCKET_ERR_EMFILE`. -/
def emfile : ℤ := -24

/-- `LINUX_SOCKET_ERR_EPIPE`. -/
def epipe : ℤ := -32

/-- `LINUX_SOCKET_ERR_ENAMETOOLONG`. -/
def enametoolong : ℤ := -36

/-- `LINUX_SOCKET_ERR_ENOTSOCK`. -/
def enotsock : ℤ := -88

/-- `LINUX_SOCKET_ERR_ESOCKTNOSUPPORT`. -/
def esocktnosupport : ℤ := -94

/-- `LINUX_SOCKET_ERR_EOPNOTSUPP`. -/
def eopnotsupp : ℤ := -95

/-- `LINUX_SOCKET_ERR_EAFNOSUPPORT`. -/
def eafnosupport : ℤ := -97

/-- `LINUX_SOCKET_ERR_EADDRINUSE`. -/
def eaddrinuse : ℤ := -98

/-- `LINUX_SOCKET_ERR_EISCONN`. -/
def eisconn : ℤ := -106

/-- `LINUX_SOCKET_ERR_ENOTCONN`. -/
def enotconn : ℤ := -107

/-- `LINUX_SOCKET_ERR_ECONNREFUSED`. -/
def econnrefused : ℤ := -111

end SocketError

/-! ### Sockets -/

/-- `LinuxSocketDomain`. -/
inductive SocketDomain
  | unix
  | inet
  | netlink
  deriving DecidableEq, Repr

/-- `LinuxSocketType`. -/
inductive SocketType
  | stream
  | dgram
  | raw
  | seqpacket
  deriving DecidableEq, Repr

namespace SocketDomain

/-- The number of a domain, which is the family of its addresses. -/
def family : SocketDomain → ℕ
  | unix => 1
  | inet => 2
  | netlink => 16

/-- The domain with a number. -/
def ofNumber (number : ℤ) : Option SocketDomain :=
  [unix, inet, netlink].find? fun domain => (domain.family : ℤ) = number

end SocketDomain

namespace SocketType

/-- The number of a type. -/
def number : SocketType → ℕ
  | stream => 1
  | dgram => 2
  | raw => 3
  | seqpacket => 5

/-- The type in the bits of `LINUX_SOCK_TYPE_MASK`. -/
def ofNumber (number : ℤ) : Option SocketType :=
  [stream, dgram, raw, seqpacket].find? fun type => (type.number : ℤ) = number % 16

/-- The sockets with connections. -/
def isConnectionBased (type : SocketType) : Bool := decide (type = stream ∨ type = seqpacket)

end SocketType

/-- `UnixSocket`. -/
structure UnixSocketState extends UnixSocket where
  /-- `Path`, of `PathLength` bytes. -/
  path : Option (List UInt8) := none
  isAbstract : Bool := false
  isBound : Bool := false
  listenBacklog : ℕ := 0
  /-- The first `PendingConnectionCount` entries of `PendingConnections`. -/
  pendingConnections : List ℕ := []
  pendingConnectionCapacity : ℕ := 0
  connectedPeer : Option ℕ := none

/-- `NetworkSocket`. -/
structure NetworkSocket where
  localIp : ℕ := 0
  localPort : ℕ := 0
  remoteIp : ℕ := 0
  remotePort : ℕ := 0
  isBound : Bool := false
  isListening : Bool := false
  listenBacklog : ℕ := 0
  isShutdownRead : Bool := false
  isShutdownWrite : Bool := false

/-- `NetlinkSocket`. -/
structure NetlinkSocket where
  localPid : ℕ := 0
  localGroups : ℕ := 0
  remotePid : ℕ := 0
  remoteGroups : ℕ := 0
  isBound : Bool := false
  isShutdownRead : Bool := false
  isShutdownWrite : Bool := false

/-- What `Implementation` refers to. -/
inductive SocketImplementation
  | unix (socket : UnixSocketState)
  | inet (socket : NetworkSocket)
  | netlink (socket : NetlinkSocket)

/-- `Socket`. The domain is that of the implementation. -/
structure Socket where
  type : SocketType
  protocol : ℤ
  /-- The address of the process. -/
  owner : ℕ
  fileDescriptor : ℤ
  implementation : SocketImplementation

namespace UnixSocketState

variable (u : UnixSocketState)

/-- Replaces the received bytes. -/
def setReceived (buffer : Option (RingBuffer UInt8 65536)) : UnixSocketState :=
  { u with receiveBuffer := buffer }

/-- Replaces the peer. -/
def setPeer (peer : Option ℕ) : UnixSocketState := { u with connectedPeer := peer }

/-- Replaces the queue. -/
def setPending (pending : List ℕ) : UnixSocketState := { u with pendingConnections := pending }

/-- Gives the socket an address. -/
def bindTo (path : List UInt8) (isAbstract : Bool) : UnixSocketState :=
  { u with path := some path, isAbstract := isAbstract, isBound := true }

/-- A queue of another capacity, with as many entries as it can hold. -/
def resize (capacity : ℕ) : UnixSocketState :=
  if capacity ≠ u.pendingConnectionCapacity then
    { u with
      pendingConnections := u.pendingConnections.take capacity
      pendingConnectionCapacity := capacity }
  else u

/-- Lets the socket listen. -/
def listen (backlog : ℕ) : UnixSocketState :=
  { u.resize backlog with isListening := true, listenBacklog := backlog }

/-- Drops a socket from the queue, and as the peer. -/
def forget (a : ℕ) : UnixSocketState :=
  { u with
    connectedPeer := if u.connectedPeer = some a then none else u.connectedPeer
    pendingConnections := u.pendingConnections.filter (· ≠ a) }

/-- Drops a socket as the peer. -/
def forgetPeer (a : ℕ) : UnixSocketState :=
  { u with connectedPeer := if u.connectedPeer = some a then none else u.connectedPeer }

/-- Shuts down one direction or both. -/
def shutdown (read write : Bool) : UnixSocketState :=
  { u with
    isShutdownRead := u.isShutdownRead || read
    isShutdownWrite := u.isShutdownWrite || write }

end UnixSocketState

namespace NetworkSocket

variable (n : NetworkSocket)

/-- Gives the socket an address. -/
def bindTo (ip port : ℕ) : NetworkSocket :=
  { n with localIp := ip, localPort := port, isBound := true }

/-- Lets the socket listen. -/
def listen (backlog : ℕ) : NetworkSocket :=
  { n with isListening := true, listenBacklog := backlog }

/-- Shuts down one direction or both. -/
def shutdown (read write : Bool) : NetworkSocket :=
  { n with
    isShutdownRead := n.isShutdownRead || read
    isShutdownWrite := n.isShutdownWrite || write }

end NetworkSocket

namespace NetlinkSocket

variable (n : NetlinkSocket)

/-- Gives the socket an address. -/
def bindTo (pid groups : ℕ) : NetlinkSocket :=
  { n with localPid := pid, localGroups := groups, isBound := true }

/-- Sets the other side. -/
def connectTo (pid groups : ℕ) : NetlinkSocket :=
  { n with remotePid := pid, remoteGroups := groups }

/-- Shuts down one direction or both. -/
def shutdown (read write : Bool) : NetlinkSocket :=
  { n with
    isShutdownRead := n.isShutdownRead || read
    isShutdownWrite := n.isShutdownWrite || write }

end NetlinkSocket

namespace Socket

variable (s : Socket)

/-- `Domain`. -/
def domain : SocketDomain :=
  match s.implementation with
  | .unix _ => .unix
  | .inet _ => .inet
  | .netlink _ => .netlink

/-- The implementation of a Unix socket. -/
def unix? : Option UnixSocketState :=
  match s.implementation with
  | .unix u => some u
  | _ => none

/-- Replaces the implementation. -/
def setImplementation (implementation : SocketImplementation) : Socket :=
  { s with implementation := implementation }

/-- Changes the implementation of a Unix socket. -/
def mapUnix (f : UnixSocketState → UnixSocketState) : Socket :=
  match s.implementation with
  | .unix u => s.setImplementation (.unix (f u))
  | _ => s

/-- Changes the descriptor. -/
def setDescriptor (fileDescriptor : ℤ) : Socket := { s with fileDescriptor := fileDescriptor }

end Socket

/-! ### Addresses of the Unix domain -/

/-- `ComputeUnixAddressPathLength`: the path in an address and whether it is abstract. -/
def unixAddressPath (path : List UInt8) : List UInt8 × Bool :=
  match path with
  | [] => ([], false)
  | first :: rest =>
    if first = 0 then (if rest = [] then [] else first :: rest, true)
    else ((first :: rest).takeWhile (· ≠ 0), false)

/-- The part of a path that `GetComparableUnixPathLength` leaves. -/
def comparableUnixPath (path : List UInt8) (isAbstract : Bool) : List UInt8 :=
  if isAbstract then path.rdropWhile (· = 0) else path

/-- `AreUnixPathsEqual`. -/
def areUnixPathsEqual (left right : List UInt8) (isAbstract : Bool) : Bool :=
  decide (comparableUnixPath left isAbstract = comparableUnixPath right isAbstract)

/-! ### The manager -/

/-- The part of `InterProcessComunicationManager` for sockets, and the sockets in the kernel
heap. -/
structure SocketManager where
  /-- The first `SocketCount` entries of `SocketList`. -/
  socketList : List ℕ := []
  sockets : ℕ → Option Socket := fun _ => none

/-- What `new` returns in `CreateSocket`: the address of the socket, whether its parts could be
allocated, and the bytes that the buffer holds before it is written. -/
structure NewSocket where
  address : ℕ
  partsAllocated : Bool := true
  cells : ℕ → UInt8 := fun _ => 0

namespace NewSocket

variable (new : NewSocket)

theorem receiveBufferSize_pos : 0 < 65536 := by decide

/-- The implementation that `CreateSocket` sets up. -/
def implementation (domain : SocketDomain) (type : SocketType) : Except ℤ SocketImplementation :=
  match domain with
  | .unix =>
    if !new.partsAllocated then .error SocketError.enomem
    else .ok (.unix { receiveBuffer := some (.blank new.cells receiveBufferSize_pos) })
  | .inet => if !new.partsAllocated then .error SocketError.enomem else .ok (.inet {})
  | .netlink =>
    if type ≠ .dgram ∧ type ≠ .raw then .error SocketError.esocktnosupport
    else if !new.partsAllocated then .error SocketError.enomem
    else .ok (.netlink {})

end NewSocket

namespace SocketManager

variable (m : SocketManager)

/-- Changes a socket. -/
def modify (a : ℕ) (f : Socket → Socket) : SocketManager :=
  { m with sockets := update m.sockets a ((m.sockets a).map f) }

/-- Changes a Unix socket. -/
def modifyUnix (a : ℕ) (f : UnixSocketState → UnixSocketState) : SocketManager :=
  m.modify a (Socket.mapUnix · f)

/-- Replaces the implementation of a socket. -/
def setImplementation (a : ℕ) (implementation : SocketImplementation) : SocketManager :=
  m.modify a (Socket.setImplementation · implementation)

/-- Adds a socket to the list. -/
def addSocket (a : ℕ) (s : Socket) : SocketManager where
  socketList := m.socketList ++ [a]
  sockets := update m.sockets a (some s)

/-- The sockets in the list, with their addresses. -/
def entries : List (ℕ × Socket) :=
  m.socketList.filterMap fun a => (m.sockets a).map fun s => (a, s)

/-- The sockets in the list other than the one at an address. -/
def others (a : ℕ) : List Socket := (m.entries.filter (·.1 ≠ a)).map Prod.snd

/-- The first socket of a process and a descriptor. -/
def findSocket (owner : ℕ) (fileDescriptor : ℤ) : Option (ℕ × Socket) :=
  m.entries.find? fun e => e.2.owner = owner ∧ e.2.fileDescriptor = fileDescriptor

/-- `CreateSocket`; returns the address of the socket. -/
def createSocket (domain type protocol : ℤ) (owner : ℕ) (fileDescriptor : ℤ) (new : NewSocket) :
    SocketManager × Except ℤ ℕ :=
  if owner = 0 ∨ fileDescriptor < 0 then (m, .error SocketError.einval)
  else if maxTrackedSockets ≤ m.socketList.length then (m, .error SocketError.emfile)
  else
    match SocketDomain.ofNumber domain, SocketType.ofNumber type with
    | none, _ => (m, .error SocketError.eafnosupport)
    | some _, none => (m, .error SocketError.esocktnosupport)
    | some domain, some type =>
      if new.address = 0 then (m, .error SocketError.enomem)
      else
        match new.implementation domain type with
        | .error code => (m, .error code)
        | .ok implementation =>
          (m.addSocket new.address ⟨type, protocol, owner, fileDescriptor, implementation⟩,
            .ok new.address)

/-! ### Binding -/

/-- A bound socket of the domain `LINUX_AF_INET` with the port, and with the address, or one of the
addresses stands for all. -/
def inetInUse (ip port : ℕ) (s : Socket) : Bool :=
  match s.implementation with
  | .inet n =>
    decide (n.isBound = true ∧ n.localPort = port ∧ (n.localIp = 0 ∨ ip = 0 ∨ n.localIp = ip))
  | _ => false

/-- A bound Unix socket with an address. -/
def unixInUse (path : List UInt8) (isAbstract : Bool) (s : Socket) : Bool :=
  match s.implementation with
  | .unix u =>
    match u.path with
    | none => false
    | some boundPath =>
      u.isBound && u.isAbstract == isAbstract && areUnixPathsEqual boundPath path isAbstract
  | _ => false

/-- A bound socket of the domain `LINUX_AF_NETLINK` with a process number other than zero. -/
def netlinkInUse (pid : ℕ) (s : Socket) : Bool :=
  match s.implementation with
  | .netlink n => decide (n.isBound = true ∧ pid ≠ 0 ∧ n.localPid = pid)
  | _ => false

/-- The part of `BindSocket` for the domain `LINUX_AF_INET`. -/
def bindInet (a : ℕ) (n : NetworkSocket) (address : List UInt8) : SocketManager × ℤ :=
  if address.length < sockaddrInSize then (m, SocketError.einval)
  else if (m.others a).any (inetInUse (readLE32 address 4) (readLE16 address 2)) then
    (m, SocketError.eaddrinuse)
  else (m.setImplementation a (.inet (n.bindTo (readLE32 address 4) (readLE16 address 2))), 0)

/-- The part of `BindSocket` for Unix sockets. -/
def bindUnix (a : ℕ) (address : List UInt8) (pathAllocated : Bool) : SocketManager × ℤ :=
  if address.length ≤ sockaddrFamilySize then (m, SocketError.einval)
  else if sockaddrUnSize < address.length then (m, SocketError.enametoolong)
  else
    let (path, isAbstract) := unixAddressPath (address.drop sockaddrFamilySize)
    if path = [] then (m, SocketError.einval)
    else if (m.others a).any (unixInUse path isAbstract) then (m, SocketError.eaddrinuse)
    else if !pathAllocated then (m, SocketError.enomem)
    else (m.modifyUnix a (·.bindTo path isAbstract), 0)

/-- The part of `BindSocket` for the domain `LINUX_AF_NETLINK`. -/
def bindNetlink (a : ℕ) (n : NetlinkSocket) (address : List UInt8) : SocketManager × ℤ :=
  if address.length < sockaddrNlSize then (m, SocketError.einval)
  else if (m.others a).any (netlinkInUse (readLE32 address 4)) then (m, SocketError.eaddrinuse)
  else (m.setImplementation a (.netlink (n.bindTo (readLE32 address 4) (readLE32 address 8))), 0)

/-- `BindSocket`. There is no address for a null pointer. -/
def bindSocket (owner : ℕ) (fileDescriptor : ℤ) (address : Option (List UInt8))
    (pathAllocated : Bool) : SocketManager × ℤ :=
  match address with
  | none => (m, SocketError.einval)
  | some address =>
    if owner = 0 ∨ fileDescriptor < 0 ∨ address.length < sockaddrFamilySize then
      (m, SocketError.einval)
    else
      match m.findSocket owner fileDescriptor with
      | none => (m, SocketError.enotsock)
      | some (a, s) =>
        if readLE16 address 0 ≠ s.domain.family then (m, SocketError.eafnosupport)
        else
          match s.implementation with
          | .inet n => m.bindInet a n address
          | .unix _ => m.bindUnix a address pathAllocated
          | .netlink n => m.bindNetlink a n address

/-! ### Connecting -/

/-- A bound socket of the domain `LINUX_AF_INET` with a port. -/
def portInUse (port : ℕ) (s : Socket) : Bool :=
  match s.implementation with
  | .inet n => decide (n.isBound = true ∧ n.localPort = port)
  | _ => false

/-- The first port of the ephemeral ones that no other socket has. -/
def ephemeralPort (a : ℕ) : Option ℕ :=
  (List.range' inetEphemeralStart (inetEphemeralEnd - inetEphemeralStart + 1)).find? fun port =>
    !(m.others a).any (portInUse port)

/-- The part of `ListenSocket` for the domain `LINUX_AF_INET`. -/
def listenInet (a : ℕ) (n : NetworkSocket) (backlog : ℕ) : SocketManager × ℤ :=
  if n.isBound then (m.setImplementation a (.inet (n.listen backlog)), 0)
  else
    match m.ephemeralPort a with
    | none => (m, SocketError.eaddrinuse)
    | some port => (m.setImplementation a (.inet ((n.bindTo 0 port).listen backlog)), 0)

/-- The part of `ListenSocket` for Unix sockets. -/
def listenUnix (a : ℕ) (u : UnixSocketState) (backlog : ℕ) (queueAllocated : Bool) :
    SocketManager × ℤ :=
  if !u.isBound then (m, SocketError.einval)
  else if backlog ≠ u.pendingConnectionCapacity ∧ 0 < backlog ∧ !queueAllocated then
    (m, SocketError.enomem)
  else (m.modifyUnix a (·.listen backlog), 0)

/-- The backlog of a socket for the one that is asked for. -/
def clampBacklog (backlog : ℤ) : ℕ := (min (max backlog 0) listenSomaxconn).toNat

/-- `ListenSocket`. -/
def listenSocket (owner : ℕ) (fileDescriptor backlog : ℤ) (queueAllocated : Bool) :
    SocketManager × ℤ :=
  if owner = 0 ∨ fileDescriptor < 0 then (m, SocketError.einval)
  else
    match m.findSocket owner fileDescriptor with
    | none => (m, SocketError.enotsock)
    | some (a, s) =>
      if !s.type.isConnectionBased then (m, SocketError.eopnotsupp)
      else
        match s.implementation with
        | .inet n => m.listenInet a n (clampBacklog backlog)
        | .unix u => m.listenUnix a u (clampBacklog backlog) queueAllocated
        | .netlink _ => (m, SocketError.eopnotsupp)

/-- A Unix socket that listens at an address. -/
def listensAt (path : List UInt8) (isAbstract : Bool) (s : Socket) : Bool :=
  unixInUse path isAbstract s && (s.unix?.map fun u => u.isListening).getD false

/-- The socket that `ConnectSocket` finds at an address. -/
def findListener (path : List UInt8) (isAbstract : Bool) : Option (ℕ × Socket) :=
  m.entries.find? fun e => listensAt path isAbstract e.2

/-- The part of `ConnectSocket` for Unix sockets. -/
def connectUnix (a : ℕ) (u : UnixSocketState) (address : List UInt8) : SocketManager × ℤ :=
  if address.length ≤ sockaddrFamilySize then (m, SocketError.einval)
  else if sockaddrUnSize < address.length then (m, SocketError.enametoolong)
  else if u.connectedPeer.isSome then (m, SocketError.eisconn)
  else
    let (path, isAbstract) := unixAddressPath (address.drop sockaddrFamilySize)
    if path = [] then (m, SocketError.einval)
    else
      match m.findListener path isAbstract with
      | none => (m, SocketError.econnrefused)
      | some (listener, s) =>
        if (s.unix?.map fun l =>
            decide (l.pendingConnectionCapacity ≤ l.pendingConnections.length)).getD true then
          (m, SocketError.eagain)
        else
          ((m.modifyUnix listener fun l => l.setPending (l.pendingConnections ++ [a])).modifyUnix a
            (·.setPeer (some listener)), 0)

/-- `ConnectSocket`. -/
def connectSocket (owner : ℕ) (fileDescriptor : ℤ) (address : Option (List UInt8)) :
    SocketManager × ℤ :=
  match address with
  | none => (m, SocketError.einval)
  | some address =>
    if owner = 0 ∨ fileDescriptor < 0 ∨ address.length < sockaddrFamilySize then
      (m, SocketError.einval)
    else
      match m.findSocket owner fileDescriptor with
      | none => (m, SocketError.enotsock)
      | some (a, s) =>
        if s.domain ≠ .netlink ∧ !s.type.isConnectionBased then (m, SocketError.eopnotsupp)
        else if readLE16 address 0 ≠ s.domain.family then (m, SocketError.eafnosupport)
        else
          match s.implementation with
          | .netlink n =>
            if address.length < sockaddrNlSize then (m, SocketError.einval)
            else
              (m.setImplementation a
                (.netlink (n.connectTo (readLE32 address 4) (readLE32 address 8))), 0)
          | .inet _ => (m, SocketError.eafnosupport)
          | .unix u => m.connectUnix a u address

/-- The first entry of a queue that is in the list of sockets, and what is left of the queue. -/
def nextPending : List ℕ → Option ℕ × List ℕ
  | [] => (none, [])
  | c :: pending => if c ∈ m.socketList then (some c, pending) else nextPending pending

/-- `AcceptSocket`; returns the address of the socket that is created. -/
def acceptSocket (owner : ℕ) (fileDescriptor : ℤ) (acceptedOwner : ℕ)
    (acceptedFileDescriptor : ℤ) (new : NewSocket) : SocketManager × Except ℤ ℕ :=
  if owner = 0 ∨ acceptedOwner = 0 ∨ fileDescriptor < 0 ∨ acceptedFileDescriptor < 0 then
    (m, .error SocketError.einval)
  else
    match m.findSocket owner fileDescriptor with
    | none => (m, .error SocketError.enotsock)
    | some (listener, s) =>
      match s.implementation with
      | .unix l =>
        if !l.isListening then (m, .error SocketError.einval)
        else
          let (client, pending) := m.nextPending l.pendingConnections
          let taken := m.modifyUnix listener (·.setPending pending)
          match client with
          | none => (taken, .error SocketError.eagain)
          | some client =>
            match taken.createSocket s.domain.family s.type.number s.protocol acceptedOwner
              acceptedFileDescriptor new with
            | (created, .error code) => (created, .error code)
            | (created, .ok a) =>
              ((created.modifyUnix a (·.setPeer (some client))).modifyUnix client
                (·.setPeer (some a)), .ok a)
      | _ => (m, .error SocketError.eafnosupport)

/-! ### Shutting down and closing -/

/-- `LINUX_SHUT_RD`, `LINUX_SHUT_WR` and `LINUX_SHUT_RDWR`: the directions that are shut down. -/
def shutdownDirections (how : ℤ) : Option (Bool × Bool) :=
  if how = 0 then some (true, false)
  else if how = 1 then some (false, true)
  else if how = 2 then some (true, true)
  else none

/-- `ShutdownSocket`. -/
def shutdownSocket (owner : ℕ) (fileDescriptor how : ℤ) : SocketManager × ℤ :=
  if owner = 0 ∨ fileDescriptor < 0 then (m, SocketError.einval)
  else
    match shutdownDirections how with
    | none => (m, SocketError.einval)
    | some (read, write) =>
      match m.findSocket owner fileDescriptor with
      | none => (m, SocketError.enotsock)
      | some (a, s) =>
        match s.implementation with
        | .unix u =>
          if s.type.isConnectionBased && u.connectedPeer.isNone then (m, SocketError.enotconn)
          else (m.modifyUnix a (·.shutdown read write), 0)
        | .inet n =>
          if s.type.isConnectionBased ∧ n.remoteIp = 0 ∧ n.remotePort = 0 then
            (m, SocketError.enotconn)
          else (m.setImplementation a (.inet (n.shutdown read write)), 0)
        | .netlink n => (m.setImplementation a (.netlink (n.shutdown read write)), 0)

/-- Another descriptor of the process for a socket. The table has the `NodeData` of the open
files. -/
def alternateDescriptor (fileTable : ℕ → Option ℕ) (fileDescriptor : ℤ) (a : ℕ) : Option ℕ :=
  (List.range maxOpenFilesPerProcess).find? fun descriptor =>
    (descriptor : ℤ) ≠ fileDescriptor ∧ fileTable descriptor = some a

/-- The other sockets in the list drop a socket, as the peer and from their queues. -/
def forgetSocket (a : ℕ) : SocketManager :=
  { m with
    sockets := fun b =>
      if b ≠ a ∧ b ∈ m.socketList then (m.sockets b).map (Socket.mapUnix · (·.forget a))
      else m.sockets b }

/-- The sockets in a queue drop the one that they wait for. -/
def forgetListener (a : ℕ) (pending : List ℕ) : SocketManager :=
  pending.foldl (fun m c => m.modifyUnix c (·.forgetPeer a)) m

/-- Deletes a socket and removes it from the list. -/
def destroySocket (a : ℕ) : SocketManager where
  socketList := m.socketList.erase a
  sockets := update m.sockets a none

/-- `CloseSocket`. -/
def closeSocket (owner : ℕ) (fileDescriptor : ℤ) (fileTable : ℕ → Option ℕ) :
    SocketManager × Bool :=
  if owner = 0 ∨ fileDescriptor < 0 then (m, false)
  else
    match m.findSocket owner fileDescriptor with
    | none => (m, false)
    | some (a, s) =>
      match alternateDescriptor fileTable fileDescriptor a with
      | some descriptor => (m.modify a (·.setDescriptor descriptor), false)
      | none =>
        (((m.forgetSocket a).forgetListener a
          ((s.unix?.map fun u => u.pendingConnections).getD [])).destroySocket a, true)

/-! ### Reading and writing -/

/-- What reading and writing use of the peer. -/
def unixPeer (b : ℕ) : Option UnixSocket :=
  ((m.sockets b).bind Socket.unix?).map fun u => u.toUnixSocket

/-- The file over a Unix socket. -/
def fileOf (s : Socket) (u : UnixSocketState) : SocketFile where
  isStream := s.type.isConnectionBased
  socket := u.toUnixSocket
  connectedPeer := u.connectedPeer.bind m.unixPeer

/-- `SocketRead`. -/
def socketRead (a count : ℕ) : SocketManager × Except ℤ (List UInt8) :=
  match m.sockets a with
  | none => (m, .error SocketError.ebadf)
  | some s =>
    match s.implementation with
    | .unix u =>
      let r := (m.fileOf s u).read count
      (m.modifyUnix a (·.setReceived r.next.socket.receiveBuffer),
        r.result.getD (.error SocketError.ebadf))
    | .inet n =>
      (m, if count = 0 ∨ n.isShutdownRead then .ok [] else .error SocketError.ebadf)
    | .netlink _ => (m, if count = 0 then .ok [] else .error SocketError.eagain)

/-- The sockets after a write through a file over a socket with a peer. -/
def setPeerReceived (peer : Option ℕ) (file : SocketFile) : SocketManager :=
  match peer, file.connectedPeer with
  | some b, some socket => m.modifyUnix b (·.setReceived socket.receiveBuffer)
  | _, _ => m

/-- `SocketWrite`. -/
def socketWrite (a : ℕ) (bytes : List UInt8) : SocketManager × Except ℤ ℕ :=
  match m.sockets a with
  | none => (m, .error SocketError.ebadf)
  | some s =>
    match s.implementation with
    | .unix u =>
      let r := (m.fileOf s u).write bytes
      (m.setPeerReceived u.connectedPeer r.next, r.result.getD (.error SocketError.ebadf))
    | .inet n =>
      (m, if bytes = [] then .ok 0
        else .error (if n.isShutdownWrite then SocketError.epipe else SocketError.ebadf))
    | .netlink _ => (m, if bytes = [] then .ok 0 else .error SocketError.ebadf)

end SocketManager

/-! ### Runs -/

/-- The calls of the socket manager, by any process, and reads and writes of any socket. -/
inductive SocketCall
  | createSocket (domain type protocol : ℤ) (owner : ℕ) (fileDescriptor : ℤ) (new : NewSocket)
  | bindSocket (owner : ℕ) (fileDescriptor : ℤ) (address : Option (List UInt8))
      (pathAllocated : Bool)
  | listenSocket (owner : ℕ) (fileDescriptor backlog : ℤ) (queueAllocated : Bool)
  | connectSocket (owner : ℕ) (fileDescriptor : ℤ) (address : Option (List UInt8))
  | acceptSocket (owner : ℕ) (fileDescriptor : ℤ) (acceptedOwner : ℕ)
      (acceptedFileDescriptor : ℤ) (new : NewSocket)
  | shutdownSocket (owner : ℕ) (fileDescriptor how : ℤ)
  | closeSocket (owner : ℕ) (fileDescriptor : ℤ) (fileTable : ℕ → Option ℕ)
  | socketRead (a count : ℕ)
  | socketWrite (a : ℕ) (bytes : List UInt8)

namespace SocketManager

variable (m : SocketManager)

/-- The sockets after a call. -/
def step : SocketCall → SocketManager
  | .createSocket domain type protocol owner fileDescriptor new =>
    (m.createSocket domain type protocol owner fileDescriptor new).1
  | .bindSocket owner fileDescriptor address pathAllocated =>
    (m.bindSocket owner fileDescriptor address pathAllocated).1
  | .listenSocket owner fileDescriptor backlog queueAllocated =>
    (m.listenSocket owner fileDescriptor backlog queueAllocated).1
  | .connectSocket owner fileDescriptor address => (m.connectSocket owner fileDescriptor address).1
  | .acceptSocket owner fileDescriptor acceptedOwner acceptedFileDescriptor new =>
    (m.acceptSocket owner fileDescriptor acceptedOwner acceptedFileDescriptor new).1
  | .shutdownSocket owner fileDescriptor how => (m.shutdownSocket owner fileDescriptor how).1
  | .closeSocket owner fileDescriptor fileTable => (m.closeSocket owner fileDescriptor fileTable).1
  | .socketRead a count => (m.socketRead a count).1
  | .socketWrite a bytes => (m.socketWrite a bytes).1

/-- `new` returns memory that is not in use. -/
def Admits : SocketCall → Prop
  | .createSocket _ _ _ _ _ new => m.sockets new.address = none
  | .acceptSocket _ _ _ _ new => m.sockets new.address = none
  | _ => True

/-- The states of the runs from the state without sockets, in which all calls are allowed ones. -/
inductive Run (Allowed : SocketManager → SocketCall → Prop) : SocketManager → Prop
  | init : Run Allowed {}
  | step {m : SocketManager} (call : SocketCall) (h : Run Allowed m) (hadmits : m.Admits call)
      (hallowed : Allowed m call) : Run Allowed (m.step call)

/-- The states that can be reached. -/
abbrev Reachable : SocketManager → Prop := Run fun _ _ => True

end SocketManager

end TwistedOS
