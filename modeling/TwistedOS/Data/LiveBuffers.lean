import Mathlib.Data.Nat.Notation
import Mathlib.Logic.Function.Basic
import Mathlib.Tactic.SplitIfs

/-!
# Buffers that are allocated and released

A store of buffers, each known by its address. Addresses are given out in order, so that a buffer
that was released is never confused with a later one. A request may be refused.

## Main definitions

* `LiveBuffers`, `LiveBuffers.allocate`, `LiveBuffers.release`.

## Main results

* `LiveBuffers.live_release_of_allocate`: a release undoes the allocation, whatever was allocated
  and released in between.
-/

namespace TwistedOS

/-- The buffers that are allocated. Addresses from `next` on have not been given out. -/
structure LiveBuffers (α : Type*) where
  live : ℕ → Option α
  next : ℕ
  fresh : ∀ address, next ≤ address → live address = none

namespace LiveBuffers

variable {α : Type*} {s s' s'' : LiveBuffers α} {address other : ℕ} {buffer : α}
  {refuses : ℕ → Bool}

/-- Allocates a buffer, unless the request for the next address is refused. -/
def allocate (s : LiveBuffers α) (refuses : ℕ → Bool) (buffer : α) : Option (ℕ × LiveBuffers α) :=
  if refuses s.next then none
  else
    some (s.next,
      { live := Function.update s.live s.next (some buffer)
        next := s.next + 1
        fresh := fun a ha => by
          rw [Function.update_of_ne (Nat.ne_of_gt ha)]
          exact s.fresh a (Nat.le_of_succ_le ha) })

/-- Releases a buffer. -/
def release (s : LiveBuffers α) (address : ℕ) : LiveBuffers α where
  live := Function.update s.live address none
  next := s.next
  fresh a ha := by
    rcases eq_or_ne a address with rfl | hne
    · exact Function.update_self ..
    · rw [Function.update_of_ne hne]
      exact s.fresh a ha

section

variable (h : s.allocate refuses buffer = some (address, s'))

include h

theorem address_eq : address = s.next := by
  rw [allocate] at h
  split_ifs at h
  cases h
  rfl

/-- The new buffer holds what was put into it. -/
theorem live_self : s'.live address = some buffer := by
  rw [allocate] at h
  split_ifs at h
  cases h
  exact Function.update_self ..

/-- The other buffers stay as they are. -/
theorem live_of_ne (hne : other ≠ address) : s'.live other = s.live other := by
  rw [allocate] at h
  split_ifs at h
  cases h
  exact Function.update_of_ne hne ..

/-- A buffer that was live before still is. -/
theorem live_of_live {held : α} (hlive : s.live other = some held) : s'.live other = some held := by
  rw [live_of_ne h, hlive]
  rintro rfl
  rw [s.fresh other (Nat.le_of_eq (address_eq h).symm)] at hlive
  cases hlive

end

@[simp] theorem live_release : (s.release address).live = Function.update s.live address none := rfl

/-- A release undoes the allocation, when the same buffers are live as after it. -/
theorem live_release_of_allocate (h : s.allocate refuses buffer = some (address, s'))
    (hsame : s''.live = s'.live) : (s''.release address).live = s.live := by
  funext a
  rw [live_release]
  rcases eq_or_ne a address with rfl | hne
  · rw [Function.update_self, s.fresh a (Nat.le_of_eq (address_eq h).symm)]
  · rw [Function.update_of_ne hne, hsame, live_of_ne h hne]

end LiveBuffers

end TwistedOS
