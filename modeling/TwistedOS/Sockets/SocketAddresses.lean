import TwistedOS.Sockets.SocketEffects

/-!
# The addresses of sockets

In every state that can be reached no two sockets have addresses that overlap: the same path in the
Unix domain, up to trailing zeros for an abstract one, the same port for the same internet address
or where one of them stands for all, or the same process number.

## Main definitions

* `SocketAddress`, with `SocketAddress.Overlaps`.
* `Socket.address?` — the address of a bound socket.
* `SocketManager.UniqueAddresses`.

## Main results

* `SocketManager.Run.addressesApart`, `SocketManager.uniqueAddresses_of_reachable`.
-/

namespace TwistedOS

open Function
open SocketManager (inetInUse netlinkInUse portInUse unixInUse)

/-- The address of a bound socket. A bound Unix socket has a path in every state that can be
reached. -/
inductive SocketAddress
  | unix (path : Option (List UInt8)) (isAbstract : Bool)
  | inet (ip port : ℕ)
  | netlink (pid : ℕ)

namespace SocketAddress

/-- Two addresses that no two sockets have at the same time. -/
def Overlaps : SocketAddress → SocketAddress → Prop
  | unix (some left) isAbstract, unix (some right) isAbstract' =>
    isAbstract = isAbstract' ∧ areUnixPathsEqual left right isAbstract = true
  | inet ip port, inet ip' port' => port = port' ∧ (ip = 0 ∨ ip' = 0 ∨ ip = ip')
  | netlink pid, netlink pid' => pid ≠ 0 ∧ pid = pid'
  | _, _ => False

/-- There is a path if the address has one. -/
def HasPath : SocketAddress → Prop
  | unix path _ => path.isSome = true
  | _ => True

theorem Overlaps.symm {x y : SocketAddress} (h : x.Overlaps y) : y.Overlaps x := by
  rcases x with ⟨_ | left, isAbstract⟩ | ⟨ip, port⟩ | pid <;>
    rcases y with ⟨_ | right, isAbstract'⟩ | ⟨ip', port'⟩ | pid'
  case unix.some.unix.some =>
    obtain ⟨rfl, heq⟩ := h
    exact ⟨rfl, decide_eq_true (of_decide_eq_true heq).symm⟩
  case inet.inet =>
    obtain ⟨rfl, hip⟩ := h
    exact ⟨rfl, by omega⟩
  case netlink.netlink =>
    obtain ⟨hpos, rfl⟩ := h
    exact ⟨hpos, rfl⟩
  all_goals exact h

end SocketAddress

/-- The address of a Unix socket, if it is bound. -/
def UnixSocketState.address? (u : UnixSocketState) : Option SocketAddress :=
  if u.isBound then some (.unix u.path u.isAbstract) else none

/-- The address of a socket, if it is bound. -/
def Socket.address? (s : Socket) : Option SocketAddress :=
  match s.implementation with
  | .unix u => u.address?
  | .inet n => if n.isBound then some (.inet n.localIp n.localPort) else none
  | .netlink n => if n.isBound then some (.netlink n.localPid) else none

namespace Socket

variable {s : Socket} {x : SocketAddress} {path : List UInt8} {isAbstract : Bool} {ip port pid : ℕ}

theorem address?_mapUnix {f : UnixSocketState → UnixSocketState}
    (hf : ∀ u, (f u).address? = u.address?) : (s.mapUnix f).address? = s.address? := by
  rcases h : s.implementation with u | n | n <;>
    simp only [address?, mapUnix, setImplementation, h]
  exact hf u

/-- The sockets with addresses are the bound ones. -/
theorem address?_eq_some : s.address? = some x ↔
    (∃ u, s.implementation = .unix u ∧ u.isBound = true ∧ x = .unix u.path u.isAbstract) ∨
    (∃ n, s.implementation = .inet n ∧ n.isBound = true ∧ x = .inet n.localIp n.localPort) ∨
    ∃ n, s.implementation = .netlink n ∧ n.isBound = true ∧ x = .netlink n.localPid := by
  rcases himplementation : s.implementation with u | n | n <;>
    simp only [address?, UnixSocketState.address?, himplementation, Option.ite_none_right_eq_some,
      Option.some.injEq, SocketImplementation.unix.injEq, SocketImplementation.inet.injEq,
      SocketImplementation.netlink.injEq, reduceCtorEq, false_and, exists_false, false_or, or_false,
      exists_eq_left', @eq_comm _ _ x]

/-- The sockets that `BindSocket` finds are those whose addresses overlap. -/
theorem not_overlaps_unix (h : unixInUse path isAbstract s = false)
    (hx : x ∈ s.address?) (hpath : x.HasPath) : ¬x.Overlaps (.unix (some path) isAbstract) := by
  obtain ⟨u, himplementation, hbound, rfl⟩ | ⟨n, -, -, rfl⟩ | ⟨n, -, -, rfl⟩ :=
    address?_eq_some.mp hx
  · obtain ⟨left, hleft⟩ := Option.isSome_iff_exists.mp hpath
    rw [hleft]
    rintro ⟨habstract, heq⟩
    rw [unixInUse, himplementation] at h
    dsimp only at h
    rw [hleft, habstract] at h
    rw [habstract] at heq
    simp [hbound, heq] at h
  · exact id
  · exact id

theorem not_overlaps_inet (h : inetInUse ip port s = false) (hx : x ∈ s.address?) :
    ¬x.Overlaps (.inet ip port) := by
  obtain ⟨u, -, -, rfl⟩ | ⟨n, himplementation, hbound, rfl⟩ | ⟨n, -, -, rfl⟩ :=
    address?_eq_some.mp hx
  · rcases u.path with _ | path <;> exact id
  · rintro ⟨hport, hip⟩
    rw [inetInUse, himplementation] at h
    exact of_decide_eq_false h ⟨hbound, hport, hip⟩
  · exact id

theorem not_overlaps_netlink (h : netlinkInUse pid s = false)
    (hx : x ∈ s.address?) : ¬x.Overlaps (.netlink pid) := by
  obtain ⟨u, -, -, rfl⟩ | ⟨n, -, -, rfl⟩ | ⟨n, himplementation, hbound, rfl⟩ :=
    address?_eq_some.mp hx
  · rcases u.path with _ | path <;> exact id
  · exact id
  · rintro ⟨hpos, heq⟩
    rw [netlinkInUse, himplementation] at h
    exact of_decide_eq_false h ⟨hbound, heq ▸ hpos, heq⟩

/-- A port that no socket has does not overlap at any address. -/
theorem inetInUse_of_portInUse (h : portInUse port s = false) :
    inetInUse ip port s = false := by
  rcases himplementation : s.implementation with u | n | n <;>
    simp only [himplementation, portInUse, inetInUse] at h ⊢
  exact decide_eq_false fun hin => of_decide_eq_false h ⟨hin.1, hin.2.1⟩

end Socket

namespace SocketManager

variable {m m' : SocketManager} {a : ℕ} {s : Socket}

/-! ### Steps that bind no socket -/

/-- Every socket is unbound or has the address that it had. -/
def KeepsAddresses (m m' : SocketManager) : Prop :=
  ∀ b t, m'.sockets b = some t → t.address? = none ∨
    ∃ s, m.sockets b = some s ∧ t.address? = s.address?

theorem KeepsAddresses.refl (m : SocketManager) : KeepsAddresses m m :=
  fun _ t ht => .inr ⟨t, ht, rfl⟩

theorem KeepsAddresses.trans {m'' : SocketManager} (h : KeepsAddresses m m')
    (h' : KeepsAddresses m' m'') : KeepsAddresses m m'' := fun b t ht => by
  rcases h' b t ht with hnone | ⟨s, hs, heq⟩
  · exact .inl hnone
  · exact (h b s hs).imp (heq ▸ ·) fun ⟨r, hr, heq'⟩ => ⟨r, hr, heq.trans heq'⟩

theorem keepsAddresses_modify {f : Socket → Socket}
    (hf : ∀ s, m.sockets a = some s → (f s).address? = s.address?) :
    KeepsAddresses m (m.modify a f) := fun b t ht => by
  obtain ⟨-, ht⟩ | ⟨rfl, s, hs, rfl⟩ := sockets_modify_eq_some.mp ht
  · exact .inr ⟨t, ht, rfl⟩
  · exact .inr ⟨s, hs, hf s hs⟩

theorem keepsAddresses_setImplementation {owner : ℕ} {fileDescriptor : ℤ}
    {i j : SocketImplementation} (hfind : m.findSocket owner fileDescriptor = some (a, s))
    (hi : s.implementation = i)
    (hj : (s.setImplementation j).address? = (s.setImplementation i).address?) :
    KeepsAddresses m (m.setImplementation a j) :=
  keepsAddresses_modify fun t ht => by
    obtain rfl := Option.some.inj ((findSocket_eq_some hfind).2.symm.trans ht)
    subst hi
    exact hj

theorem keepsAddresses_modifyUnix {f : UnixSocketState → UnixSocketState}
    (hf : ∀ u, (f u).address? = u.address?) : KeepsAddresses m (m.modifyUnix a f) :=
  keepsAddresses_modify fun _ _ => Socket.address?_mapUnix hf

theorem keepsAddresses_setPeer {peer : Option ℕ} :
    KeepsAddresses m (m.modifyUnix a (·.setPeer peer)) :=
  keepsAddresses_modifyUnix fun _ => rfl

theorem keepsAddresses_setPending {g : UnixSocketState → List ℕ} :
    KeepsAddresses m (m.modifyUnix a fun u => u.setPending (g u)) :=
  keepsAddresses_modifyUnix fun _ => rfl

theorem keepsAddresses_forgetPeer {b : ℕ} :
    KeepsAddresses m (m.modifyUnix a (·.forgetPeer b)) :=
  keepsAddresses_modifyUnix fun _ => rfl

theorem keepsAddresses_addSocket (hs : s.address? = none) :
    KeepsAddresses m (m.addSocket a s) := fun b t ht => by
  change update m.sockets a (some s) b = some t at ht
  by_cases hb : b = a
  · subst hb
    rw [update_self] at ht
    obtain rfl := Option.some.inj ht
    exact .inl hs
  · rw [update_of_ne hb] at ht
    exact .inr ⟨t, ht, rfl⟩

theorem keepsAddresses_forgetSocket : KeepsAddresses m (m.forgetSocket a) := fun b t ht => by
  dsimp only [forgetSocket] at ht
  split_ifs at ht
  · obtain ⟨s, hs, rfl⟩ := Option.map_eq_some_iff.mp ht
    exact .inr ⟨s, hs, Socket.address?_mapUnix fun _ => rfl⟩
  · exact .inr ⟨t, ht, rfl⟩

theorem keepsAddresses_forgetListener {pending : List ℕ} :
    KeepsAddresses m (m.forgetListener a pending) := by
  induction pending generalizing m with
  | nil => exact .refl m
  | cons c pending ih => exact keepsAddresses_forgetPeer.trans ih

theorem keepsAddresses_destroySocket : KeepsAddresses m (m.destroySocket a) := fun b t ht => by
  change update m.sockets a none b = some t at ht
  by_cases hb : b = a
  · subst hb
    rw [update_self] at ht
    exact absurd ht (by simp)
  · rw [update_of_ne hb] at ht
    exact .inr ⟨t, ht, rfl⟩

theorem address?_listen {u : UnixSocketState} {backlog : ℕ} :
    (u.listen backlog).address? = u.address? := by
  rw [UnixSocketState.listen, UnixSocketState.resize]
  split_ifs <;> rfl

theorem address?_new {new : NewSocket} {domain : SocketDomain} {type : SocketType}
    {implementation : SocketImplementation}
    (h : new.implementation domain type = .ok implementation)
    (himplementation : s.implementation = implementation) : s.address? = none := by
  rw [Socket.address?, himplementation]
  cases domain <;> rw [NewSocket.implementation.eq_def] at h <;> dsimp only at h <;>
    split_ifs at h <;> obtain rfl := Except.ok.inj h <;> rfl

/-! ### The invariant -/

/-- The sockets have paths where they need them, and no two addresses overlap. -/
structure AddressesApart (m : SocketManager) : Prop where
  hasPath : ∀ a s, m.sockets a = some s → ∀ x ∈ s.address?, x.HasPath
  apart : ∀ a b s t, a ≠ b → m.sockets a = some s → m.sockets b = some t →
    ∀ x ∈ s.address?, ∀ y ∈ t.address?, ¬x.Overlaps y

namespace AddressesApart

theorem keeps (h : m.AddressesApart) (hkeeps : KeepsAddresses m m') : m'.AddressesApart where
  hasPath a s hs x hx := by
    rcases hkeeps a s hs with hnone | ⟨s', hs', heq⟩
    · rw [hnone] at hx
      exact absurd hx (by simp)
    · exact h.hasPath a s' hs' x (heq ▸ hx)
  apart a b s t hne hs ht x hx y hy := by
    rcases hkeeps a s hs with hnone | ⟨s', hs', heq⟩
    · rw [hnone] at hx
      exact absurd hx (by simp)
    rcases hkeeps b t ht with hnone | ⟨t', ht', heq'⟩
    · rw [hnone] at hy
      exact absurd hy (by simp)
    exact h.apart a b s' t' hne hs' ht' x (heq ▸ hx) y (heq' ▸ hy)

/-- A socket is bound to an address that overlaps with no other one. -/
theorem bind (h : m.AddressesApart) (htracked : m.Tracked) {f : Socket → Socket}
    {y : SocketAddress} (hs : m.sockets a = some s) (hf : (f s).address? = some y)
    (hpath : y.HasPath)
    (hfree : ∀ t ∈ m.others a, ∀ x ∈ t.address?, x.HasPath → ¬x.Overlaps y) :
    (m.modify a f).AddressesApart := by
  have hother : ∀ b t, b ≠ a → m.sockets b = some t → ∀ x ∈ t.address?, ¬x.Overlaps y :=
    fun b t hb ht x hx => hfree t (mem_others.mpr ⟨b, hb, htracked.mem ht, ht⟩) x hx
      (h.hasPath b t ht x hx)
  refine ⟨fun b t ht x hx => ?_, fun b c t r hne ht hr x hx z hz => ?_⟩
  · obtain ⟨-, ht⟩ | ⟨rfl, s', hs', rfl⟩ := sockets_modify_eq_some.mp ht
    · exact h.hasPath b t ht x hx
    · obtain rfl := Option.some.inj (hs.symm.trans hs')
      obtain rfl := Option.some.inj (hf.symm.trans hx)
      exact hpath
  · obtain ⟨hb, ht'⟩ | ⟨rfl, s', hs', rfl⟩ := sockets_modify_eq_some.mp ht
    · obtain ⟨hc, hr'⟩ | ⟨rfl, r', hr', rfl⟩ := sockets_modify_eq_some.mp hr
      · exact h.apart b c t r hne ht' hr' x hx z hz
      · obtain rfl := Option.some.inj (hs.symm.trans hr')
        obtain rfl := Option.some.inj (hf.symm.trans hz)
        exact hother b t hb ht' x hx
    · obtain rfl := Option.some.inj (hs.symm.trans hs')
      obtain rfl := Option.some.inj (hf.symm.trans hx)
      obtain ⟨hc, hr⟩ | ⟨rfl, -⟩ := sockets_modify_eq_some.mp hr
      · exact fun hover => hother c r hc hr z hz hover.symm
      · exact absurd rfl hne

end AddressesApart

/-- A call leaves the addresses apart. -/
theorem Effect.addressesApart {call : SocketCall} (htracked : m.Tracked) (h : m.AddressesApart)
    (heffect : m.Effect call m') : m'.AddressesApart := by
  cases heffect with
  | unchanged => exact h
  | created hnew => exact h.keeps (keepsAddresses_addSocket (address?_new hnew rfl))
  | boundInet hfind himplementation hfree =>
    exact h.bind htracked (findSocket_eq_some hfind).2 rfl trivial fun t ht x hx _ =>
      Socket.not_overlaps_inet (hfree t ht) hx
  | @boundUnix _ _ _ _ a s u path isAbstract hfind himplementation hfree =>
    refine h.bind htracked (findSocket_eq_some hfind).2 (y := .unix (some path) isAbstract) ?_ rfl
      fun t ht x hx hpath => Socket.not_overlaps_unix (hfree t ht) hx hpath
    simp only [Socket.address?, Socket.mapUnix, Socket.setImplementation, himplementation]
    rfl
  | boundNetlink hfind himplementation hfree =>
    exact h.bind htracked (findSocket_eq_some hfind).2 rfl trivial fun t ht x hx _ =>
      Socket.not_overlaps_netlink (hfree t ht) hx
  | listenedInet hfind himplementation =>
    exact h.keeps (keepsAddresses_setImplementation hfind himplementation rfl)
  | listenedUnbound hfind himplementation hfree =>
    exact h.bind htracked (findSocket_eq_some hfind).2 rfl trivial fun t ht x hx _ =>
      Socket.not_overlaps_inet (Socket.inetInUse_of_portInUse (hfree t ht)) hx
  | listenedUnix => exact h.keeps (keepsAddresses_modifyUnix fun _ => address?_listen)
  | connectedNetlink hfind himplementation =>
    exact h.keeps (keepsAddresses_setImplementation hfind himplementation rfl)
  | connectedUnix => exact h.keeps (keepsAddresses_setPending.trans keepsAddresses_setPeer)
  | acceptedNone => exact h.keeps keepsAddresses_setPending
  | acceptedFailed => exact h.keeps keepsAddresses_setPending
  | accepted _ _ hfind himplementation hlistening hpending hnew =>
    exact h.keeps (((keepsAddresses_setPending.trans
      (keepsAddresses_addSocket (address?_new hnew rfl))).trans keepsAddresses_setPeer).trans
        keepsAddresses_setPeer)
  | shutUnix => exact h.keeps (keepsAddresses_modifyUnix fun _ => rfl)
  | shutInet hfind himplementation =>
    exact h.keeps (keepsAddresses_setImplementation hfind himplementation rfl)
  | shutNetlink hfind himplementation =>
    exact h.keeps (keepsAddresses_setImplementation hfind himplementation rfl)
  | kept => exact h.keeps (keepsAddresses_modify fun _ _ => rfl)
  | closed =>
    exact h.keeps ((keepsAddresses_forgetSocket.trans keepsAddresses_forgetListener).trans
      keepsAddresses_destroySocket)
  | received => exact h.keeps (keepsAddresses_modifyUnix fun _ => rfl)

/-- The addresses are apart in every run. -/
theorem Run.addressesApart {Allowed : SocketManager → SocketCall → Prop} (h : Run Allowed m) :
    m.AddressesApart := by
  induction h with
  | init => exact ⟨fun _ _ h => by simp at h, fun _ _ _ _ _ h => by simp at h⟩
  | step call h _ _ ih => exact (effect_step _ call).addressesApart h.tracked ih

/-! ### Uniqueness -/

/-- No two sockets own the same address, and the socket that a connection finds is the only one with
the address. -/
structure UniqueAddresses (m : SocketManager) : Prop where
  unix : ∀ a b s t u v, a ≠ b → m.sockets a = some s → m.sockets b = some t →
    s.implementation = .unix u → t.implementation = .unix v → u.isBound = true →
      v.isBound = true → u.isAbstract = v.isAbstract → ∃ left right, u.path = some left ∧
        v.path = some right ∧ areUnixPathsEqual left right u.isAbstract = false
  inet : ∀ a b s t n k, a ≠ b → m.sockets a = some s → m.sockets b = some t →
    s.implementation = .inet n → t.implementation = .inet k → n.isBound = true →
      k.isBound = true → n.localPort = k.localPort →
        n.localIp ≠ k.localIp ∧ n.localIp ≠ 0 ∧ k.localIp ≠ 0
  netlink : ∀ a b s t n k, a ≠ b → m.sockets a = some s → m.sockets b = some t →
    s.implementation = .netlink n → t.implementation = .netlink k → n.isBound = true →
      k.isBound = true → n.localPid ≠ 0 → n.localPid ≠ k.localPid
  listener : ∀ path isAbstract a s, m.findListener path isAbstract = some (a, s) →
    ∀ b t, m.sockets b = some t → unixInUse path isAbstract t = true → b = a

theorem areUnixPathsEqual_trans {left middle right : List UInt8} {isAbstract : Bool}
    (h : areUnixPathsEqual left middle isAbstract = true)
    (h' : areUnixPathsEqual right middle isAbstract = true) :
    areUnixPathsEqual left right isAbstract = true :=
  decide_eq_true ((of_decide_eq_true h).trans (of_decide_eq_true h').symm)

theorem unixInUse_eq_true {path : List UInt8} {isAbstract : Bool} :
    unixInUse path isAbstract s = true ↔ ∃ u left, s.implementation = .unix u ∧
      u.path = some left ∧ u.isBound = true ∧ u.isAbstract = isAbstract ∧
        areUnixPathsEqual left path isAbstract = true := by
  rw [unixInUse]
  rcases s.implementation with u | n | n
  · rcases hpath : u.path with _ | left
    · simp [hpath]
    · simp [hpath, and_assoc]
  · simp
  · simp

theorem AddressesApart.uniqueAddresses (h : m.AddressesApart) : m.UniqueAddresses where
  unix a b s t u v hne hs ht hu hv hbound hbound' habstract := by
    have hx := Socket.address?_eq_some.mpr (.inl ⟨u, hu, hbound, rfl⟩)
    have hy := Socket.address?_eq_some.mpr (.inl ⟨v, hv, hbound', rfl⟩)
    obtain ⟨left, hleft⟩ := Option.isSome_iff_exists.mp (h.hasPath a s hs _ hx)
    obtain ⟨right, hright⟩ := Option.isSome_iff_exists.mp (h.hasPath b t ht _ hy)
    have hapart := h.apart a b s t hne hs ht _ hx _ hy
    rw [hleft, hright] at hapart
    exact ⟨left, right, hleft, hright, Bool.eq_false_iff.mpr fun heq => hapart ⟨habstract, heq⟩⟩
  inet a b s t n k hne hs ht hn hk hbound hbound' hport := by
    have hx := Socket.address?_eq_some.mpr (.inr (.inl ⟨n, hn, hbound, rfl⟩))
    have hy := Socket.address?_eq_some.mpr (.inr (.inl ⟨k, hk, hbound', rfl⟩))
    have hapart := h.apart a b s t hne hs ht _ hx _ hy
    exact ⟨fun heq => hapart ⟨hport, .inr (.inr heq)⟩, fun heq => hapart ⟨hport, .inl heq⟩,
      fun heq => hapart ⟨hport, .inr (.inl heq)⟩⟩
  netlink a b s t n k hne hs ht hn hk hbound hbound' hpos heq :=
    h.apart a b s t hne hs ht _ (Socket.address?_eq_some.mpr (.inr (.inr ⟨n, hn, hbound, rfl⟩))) _
      (Socket.address?_eq_some.mpr (.inr (.inr ⟨k, hk, hbound', rfl⟩))) ⟨hpos, heq⟩
  listener path isAbstract a s hfind b t ht huse := by
    by_contra hne
    have hs := (mem_entries.mp (List.mem_of_find?_eq_some hfind)).2
    have hlistens := List.find?_some hfind
    rw [listensAt, Bool.and_eq_true] at hlistens
    obtain ⟨u, left, hu, hleft, hbound, habstract, hequal⟩ := unixInUse_eq_true.mp hlistens.1
    obtain ⟨v, right, hv, hright, hbound', habstract', hequal'⟩ := unixInUse_eq_true.mp huse
    refine h.apart a b s t (Ne.symm hne) hs ht _
      (Socket.address?_eq_some.mpr (.inl ⟨u, hu, hbound, rfl⟩)) _
      (Socket.address?_eq_some.mpr (.inl ⟨v, hv, hbound', rfl⟩)) ?_
    rw [hleft, hright, habstract, habstract']
    exact ⟨rfl, areUnixPathsEqual_trans hequal hequal'⟩

/-- No two sockets own the same address in a state that can be reached, by these calls or by any
others in between. -/
theorem uniqueAddresses_of_reachable (h : Reachable m) : m.UniqueAddresses :=
  h.addressesApart.uniqueAddresses

/-- Two stream sockets of the domain `LINUX_AF_UNIX`. The second one asks for the abstract name that
the first one is bound to, is refused, and takes another name; then the first one listens. -/
def twoBoundCalls : List SocketCall :=
  [.createSocket 1 1 0 1 3 ⟨1, true, fun _ => 0⟩, .bindSocket 1 3 (some [1, 0, 0, 65]) true,
    .createSocket 1 1 0 1 4 ⟨2, true, fun _ => 0⟩, .bindSocket 1 4 (some [1, 0, 0, 65]) true,
    .bindSocket 1 4 (some [1, 0, 0, 66]) true, .listenSocket 1 3 5 true]

/-- The sockets after these calls. -/
def twoBound : SocketManager := twoBoundCalls.foldl step {}

theorem reachable_twoBound : Reachable twoBound := by
  refine .step (.listenSocket 1 3 5 true) ?_ trivial trivial
  refine .step (.bindSocket 1 4 (some [1, 0, 0, 66]) true) ?_ trivial trivial
  refine .step (.bindSocket 1 4 (some [1, 0, 0, 65]) true) ?_ trivial trivial
  refine .step (.createSocket 1 1 0 1 4 ⟨2, true, fun _ => 0⟩) ?_ rfl trivial
  refine .step (.bindSocket 1 3 (some [1, 0, 0, 65]) true) ?_ trivial trivial
  exact .step (.createSocket 1 1 0 1 3 ⟨1, true, fun _ => 0⟩) .init rfl trivial

theorem uniqueAddresses_twoBound : twoBound.UniqueAddresses ∧
    ((twoBound.sockets 1).bind Socket.unix?).map (fun u => (u.isBound, u.path)) =
      some (true, some [0, 65]) ∧
    ((twoBound.sockets 2).bind Socket.unix?).map (fun u => (u.isBound, u.path)) =
      some (true, some [0, 66]) ∧
    (twoBound.findListener [0, 65] true).map Prod.fst = some 1 := by
  refine ⟨uniqueAddresses_of_reachable reachable_twoBound, ?_, ?_, ?_⟩
  · decide +kernel
  · decide +kernel
  · decide +kernel

end SocketManager

end TwistedOS
