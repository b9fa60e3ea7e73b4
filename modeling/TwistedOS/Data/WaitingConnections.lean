import Mathlib.Data.List.Count
import Mathlib.Logic.Function.Basic

/-!
# Connections that wait in a queue

The endpoints of connections refer to each other. An endpoint that connects waits in the queue of a
listening one, which is its peer until the connection is accepted; then a new endpoint takes this
place.

## Main definitions

* `Connections`.
* `Connections.add`, `Connections.listen`, `Connections.connect`, `Connections.accept`,
  `Connections.close`.
* `Connections.Consistent`, `Connections.Serves`.

## Main results

* `Connections.Consistent.connect`, `Connections.serves_accept`, and the like for the other
  operations.
-/

namespace TwistedOS

open Function

/-- The endpoints of connections. -/
@[ext]
structure Connections (α : Type*) where
  /-- The endpoints that exist. -/
  known : α → Bool
  listening : α → Bool
  /-- The endpoints that wait for an endpoint. -/
  pending : α → List α
  peer : α → Option α

namespace Connections

variable {α : Type*}

/-- There is no endpoint. -/
def empty : Connections α := ⟨fun _ => false, fun _ => false, fun _ => [], fun _ => none⟩

variable [DecidableEq α] (c : Connections α)

/-- A new endpoint. -/
def add (a : α) : Connections α where
  known := update c.known a true
  listening := update c.listening a false
  pending := update c.pending a []
  peer := update c.peer a none

/-- An endpoint listens. -/
def listen (a : α) : Connections α := { c with listening := update c.listening a true }

/-- An endpoint waits for another one. -/
def connect (a l : α) : Connections α :=
  { c with
    pending := update c.pending l (c.pending l ++ [a])
    peer := update c.peer a (some l) }

/-- A listening endpoint is left with the rest of its queue, and an endpoint that was in it gets a
new one for its peer. -/
def accept (l client : α) (rest : List α) (a : α) : Connections α where
  known := update c.known a true
  listening := update c.listening a false
  pending := update (update c.pending l rest) a []
  peer := update (update c.peer a (some client)) client (some a)

/-- An endpoint ends, and the others drop it. -/
def close (a : α) : Connections α where
  known := update c.known a false
  listening := update c.listening a false
  pending b := if b = a then [] else (c.pending b).filter (· ≠ a)
  peer b := if b = a ∨ c.peer b = some a then none else c.peer b

/-- What holds between the endpoints and their queues. -/
structure Consistent (c : Connections α) : Prop where
  peer_known : ∀ a b, c.peer a = some b → c.known b = true
  pending_known : ∀ a b, b ∈ c.pending a → c.known b = true
  /-- Those in a queue wait for its endpoint. -/
  waits : ∀ l a, a ∈ c.pending l → c.peer a = some l
  /-- Only listening endpoints have a queue. -/
  queue_empty : ∀ a, c.listening a = false → c.pending a = []
  /-- A listening endpoint is connected to another one only while it waits for this. -/
  peer_listens : ∀ a b, c.listening a = true → c.peer a = some b → c.listening b = true
  symm : ∀ a b, c.listening a = false → c.peer a = some b → c.listening b = false →
    c.peer b = some a
  once : ∀ a l, c.peer a = some l → c.listening l = true → (c.pending l).count a = 1

namespace Consistent

variable {c} {a l client : α} {rest : List α}

theorem init : Consistent (empty : Connections α) where
  peer_known _ _ h := by cases h
  pending_known _ _ h := by cases h
  waits _ _ h := by cases h
  queue_empty _ _ := rfl
  peer_listens _ _ h := by cases h
  symm _ _ _ h := by cases h
  once _ _ h := by cases h

section

variable (h : c.Consistent)

include h

theorem not_mem_pending (ha : c.peer a = none) : a ∉ c.pending l :=
  fun hmem => by simp [h.waits l a hmem] at ha

theorem add (ha : c.known a = false) : (c.add a).Consistent := by
  obtain ⟨_, _, _, _, _, _, _⟩ := h
  constructor <;> simp only [Connections.add, update_apply] <;> grind

theorem listen (ha : ∀ b, c.peer a = some b → c.listening b = true) : (c.listen a).Consistent := by
  obtain ⟨_, _, _, _, _, _, _⟩ := h
  constructor <;> simp only [Connections.listen, update_apply] <;> grind

theorem connect (hknown : c.known a = true) (ha : c.peer a = none) (hknown' : c.known l = true)
    (hl : c.listening l = true) : (c.connect a l).Consistent := by
  have hcount : (c.pending l).count a = 0 := List.count_eq_zero.mpr (h.not_mem_pending ha)
  obtain ⟨_, _, _, _, _, _, _⟩ := h
  constructor <;> simp only [Connections.connect, update_apply] <;> grind

theorem accept (hpending : c.pending l = client :: rest) (hclient : c.listening client = false)
    (ha : c.known a = false) : (c.accept l client rest a).Consistent := by
  have hpeer : c.peer client = some l := h.waits l client (by simp [hpending])
  have hl : c.listening l = true := by
    by_contra hnot
    rw [h.queue_empty l (by simpa using hnot)] at hpending
    cases hpending
  have hrest : client ∉ rest := by
    have := h.once client l hpeer hl
    rw [hpending, List.count_cons_self] at this
    exact List.count_eq_zero.mp (by omega)
  obtain ⟨_, _, _, _, _, _, _⟩ := h
  constructor <;> simp only [Connections.accept, update_apply] <;> grind

theorem close : (c.close a).Consistent := by
  have hcount : ∀ b ≠ a, ∀ l, ((c.pending l).filter (· ≠ a)).count b = (c.pending l).count b :=
    fun b hb l => List.count_filter (by simpa using hb)
  obtain ⟨_, _, _, _, _, _, _⟩ := h
  constructor <;> simp only [Connections.close, update_apply] <;> grind

end

end Consistent

/-! ### Those that wait -/

/-- An endpoint that waits still waits for the same one, or it is connected to a new endpoint, or it
has no peer. -/
def Serves (c c' : Connections α) : Prop :=
  ∀ a l, c.peer a = some l → c.listening l = true →
    (c'.peer a = some l ∧ c'.listening l = true) ∨
    (∃ b, c.known b = false ∧ c'.peer a = some b ∧ c'.peer b = some a ∧ c'.listening b = false) ∨
    c'.peer a = none

variable {c} {a l client : α} {rest : List α}

omit [DecidableEq α] in
theorem serves_refl : c.Serves c := fun _ _ hpeer hl => .inl ⟨hpeer, hl⟩

theorem serves_add (h : c.Consistent) (ha : c.known a = false) : c.Serves (c.add a) := by
  obtain ⟨_, _, _, _, _, _, _⟩ := h
  simp only [Serves, add, update_apply]
  grind

theorem serves_listen : c.Serves (c.listen a) := by
  simp only [Serves, listen, update_apply]
  grind

theorem serves_connect (ha : c.peer a = none) : c.Serves (c.connect a l) := by
  simp only [Serves, connect, update_apply]
  grind

theorem serves_accept (h : c.Consistent) (hclient : c.known client = true)
    (ha : c.known a = false) : c.Serves (c.accept l client rest a) := by
  obtain ⟨_, _, _, _, _, _, _⟩ := h
  simp only [Serves, accept, update_apply]
  grind

theorem serves_close : c.Serves (c.close a) := by
  simp only [Serves, close, update_apply]
  grind

end Connections

end TwistedOS
