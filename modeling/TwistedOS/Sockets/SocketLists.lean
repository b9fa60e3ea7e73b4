import TwistedOS.Sockets.SocketManager
import Mathlib.Data.List.Nodup

/-!
# The list of sockets

The sockets in the heap are those in the list, each once: creating and closing preserve this, and
the other calls change sockets in place.

## Main definitions

* `SocketManager.Tracked`.

## Main results

* `SocketManager.mem_others`, `SocketManager.findSocket_eq_some`.
* `SocketManager.Run.tracked`.
-/

namespace TwistedOS

open Function

namespace SocketManager

variable {m : SocketManager} {a b owner : ℕ} {s t : Socket} {fileDescriptor : ℤ}
  {f : Socket → Socket}

/-! ### Sockets in place -/

theorem sockets_modify :
    (m.modify a f).sockets = update m.sockets a ((m.sockets a).map f) := rfl

@[simp] theorem socketList_modify : (m.modify a f).socketList = m.socketList := rfl

@[simp] theorem socketList_forgetSocket : (m.forgetSocket a).socketList = m.socketList := rfl

@[simp] theorem socketList_forgetListener {pending : List ℕ} :
    (m.forgetListener a pending).socketList = m.socketList := by
  induction pending generalizing m with
  | nil => rfl
  | cons c pending ih => exact ih

/-- A socket that is there after a change was there before. -/
theorem sockets_modify_eq_some :
    (m.modify a f).sockets b = some t ↔
      (b ≠ a ∧ m.sockets b = some t) ∨ (b = a ∧ ∃ s, m.sockets a = some s ∧ t = f s) := by
  rw [sockets_modify]
  by_cases hb : b = a
  · subst hb
    rw [update_self, Option.map_eq_some_iff]
    simp [eq_comm]
  · rw [update_of_ne hb]
    simp [hb]

theorem isSome_modify : ((m.modify a f).sockets b).isSome = (m.sockets b).isSome := by
  rw [sockets_modify]
  by_cases hb : b = a
  · subst hb
    rw [update_self, Option.isSome_map]
  · rw [update_of_ne hb]

theorem isSome_forgetSocket : ((m.forgetSocket a).sockets b).isSome = (m.sockets b).isSome := by
  dsimp only [forgetSocket]
  split_ifs
  · exact Option.isSome_map ..
  · rfl

theorem isSome_forgetListener {pending : List ℕ} :
    ((m.forgetListener a pending).sockets b).isSome = (m.sockets b).isSome := by
  induction pending generalizing m with
  | nil => rfl
  | cons c pending ih => exact ih.trans isSome_modify

/-! ### Finding sockets -/

theorem mem_entries : (a, s) ∈ m.entries ↔ a ∈ m.socketList ∧ m.sockets a = some s := by
  rw [entries, List.mem_filterMap]
  simp only [Option.map_eq_some_iff, Prod.mk.injEq]
  constructor
  · rintro ⟨b, hb, t, ht, rfl, rfl⟩
    exact ⟨hb, ht⟩
  · exact fun h => ⟨a, h.1, s, h.2, rfl, rfl⟩

theorem mem_others : t ∈ m.others a ↔ ∃ b ≠ a, b ∈ m.socketList ∧ m.sockets b = some t := by
  rw [others, List.mem_map]
  constructor
  · rintro ⟨⟨b, t'⟩, hb, rfl⟩
    obtain ⟨hmem, hne⟩ := List.mem_filter.mp hb
    exact ⟨b, of_decide_eq_true hne, mem_entries.mp hmem⟩
  · rintro ⟨b, hne, hmem⟩
    exact ⟨(b, t), List.mem_filter.mpr ⟨mem_entries.mpr hmem, decide_eq_true hne⟩, rfl⟩

theorem findSocket_eq_some (h : m.findSocket owner fileDescriptor = some (a, s)) :
    a ∈ m.socketList ∧ m.sockets a = some s :=
  mem_entries.mp (List.mem_of_find?_eq_some h)

theorem nextPending_eq_some {client : ℕ} {pending rest : List ℕ}
    (h : m.nextPending pending = (some client, rest)) :
    client ∈ m.socketList ∧ ∃ untracked, pending = untracked ++ client :: rest ∧
      ∀ c ∈ untracked, c ∉ m.socketList := by
  induction pending with
  | nil => simp [nextPending] at h
  | cons c pending ih =>
    rw [nextPending] at h
    split_ifs at h with hc
    · obtain ⟨rfl, rfl⟩ : c = client ∧ pending = rest := by simpa using h
      exact ⟨hc, [], rfl, by simp⟩
    · obtain ⟨hclient, untracked, rfl, huntracked⟩ := ih h
      exact ⟨hclient, c :: untracked, rfl, List.forall_mem_cons.mpr ⟨hc, huntracked⟩⟩

/-! ### The invariant -/

/-- The sockets in the heap are those in the list, each once. -/
structure Tracked (m : SocketManager) : Prop where
  nodup : m.socketList.Nodup
  mem_iff : ∀ a, a ∈ m.socketList ↔ (m.sockets a).isSome

namespace Tracked

theorem mem (h : m.Tracked) (ha : m.sockets a = some s) : a ∈ m.socketList :=
  (h.mem_iff a).mpr (ha ▸ rfl)

theorem of_isSome {m' : SocketManager} (h : m.Tracked) (hlist : m'.socketList = m.socketList)
    (hsome : ∀ b, (m'.sockets b).isSome = (m.sockets b).isSome) : m'.Tracked :=
  ⟨hlist ▸ h.nodup, fun b => by rw [hlist, h.mem_iff, hsome]⟩

theorem modify (h : m.Tracked) : (m.modify a f).Tracked := h.of_isSome rfl fun _ => isSome_modify

theorem addSocket (h : m.Tracked) (ha : m.sockets a = none) : (m.addSocket a s).Tracked where
  nodup := by
    have hnot : a ∉ m.socketList := fun hmem => by
      have := (h.mem_iff a).mp hmem
      rw [ha] at this
      exact absurd this (by simp)
    exact List.nodup_append.mpr ⟨h.nodup, List.nodup_singleton a, fun b hb c hc => by
      rw [List.mem_singleton.mp hc]
      exact fun heq => hnot (heq ▸ hb)⟩
  mem_iff b := by
    change b ∈ m.socketList ++ [a] ↔ (update m.sockets a (some s) b).isSome
    rw [List.mem_append, List.mem_singleton]
    by_cases hb : b = a
    · subst hb
      rw [update_self]
      simp
    · rw [update_of_ne hb, ← h.mem_iff, or_iff_left hb]

theorem destroySocket (h : m.Tracked) : (m.destroySocket a).Tracked where
  nodup := h.nodup.erase a
  mem_iff b := by
    change b ∈ m.socketList.erase a ↔ (update m.sockets a none b).isSome
    rw [h.nodup.mem_erase_iff]
    by_cases hb : b = a
    · subst hb
      rw [update_self]
      simp
    · rw [update_of_ne hb, ← h.mem_iff, and_iff_right hb]

end Tracked

/-! ### Creating -/

/-- A socket is created, or nothing changes. -/
theorem createSocket_cases (m : SocketManager) (domain type protocol : ℤ) (owner : ℕ)
    (fileDescriptor : ℤ) (new : NewSocket) :
    (∃ d t implementation, SocketDomain.ofNumber domain = some d ∧
      SocketType.ofNumber type = some t ∧ new.implementation d t = .ok implementation ∧
      m.createSocket domain type protocol owner fileDescriptor new =
        (m.addSocket new.address ⟨t, protocol, owner, fileDescriptor, implementation⟩,
          .ok new.address)) ∨
    ∃ code, m.createSocket domain type protocol owner fileDescriptor new = (m, .error code) := by
  rw [createSocket]
  rcases hd : SocketDomain.ofNumber domain with _ | d
  · split_ifs <;> exact .inr ⟨_, rfl⟩
  rcases ht : SocketType.ofNumber type with _ | t
  · split_ifs <;> exact .inr ⟨_, rfl⟩
  dsimp only
  split_ifs
  · exact .inr ⟨_, rfl⟩
  · exact .inr ⟨_, rfl⟩
  · exact .inr ⟨_, rfl⟩
  rcases himplementation : new.implementation d t with code | implementation
  · exact .inr ⟨_, rfl⟩
  · exact .inl ⟨d, t, implementation, rfl, rfl, himplementation, rfl⟩

/-- A Unix socket is created when there is room and memory. -/
theorem createSocket_unix {domain type protocol : ℤ} {t : SocketType} {new : NewSocket}
    (howner : owner ≠ 0) (hdescriptor : 0 ≤ fileDescriptor)
    (hlength : m.socketList.length < maxTrackedSockets)
    (hdomain : SocketDomain.ofNumber domain = some .unix)
    (htype : SocketType.ofNumber type = some t)
    (haddress : new.address ≠ 0) (hparts : new.partsAllocated = true) :
    ∃ a, (m.createSocket domain type protocol owner fileDescriptor new).2 = .ok a := by
  rw [createSocket, if_neg (by omega), if_neg (by omega), hdomain, htype]
  dsimp only
  rw [if_neg haddress, NewSocket.implementation, hparts]
  exact ⟨_, rfl⟩

/-! ### Runs -/

theorem Run.mono {Allowed Allowed' : SocketManager → SocketCall → Prop} (h : Run Allowed m)
    (himp : ∀ m call, Allowed m call → Allowed' m call) : Run Allowed' m := by
  induction h with
  | init => exact .init
  | step call _ hadmits hallowed ih => exact .step call ih hadmits (himp _ _ hallowed)

end SocketManager

end TwistedOS
