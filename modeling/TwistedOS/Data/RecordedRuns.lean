import Mathlib.Data.List.Basic

/-!
# Computations that record what they do

A computation that may fail is given by the events that it records until it ends, and by its result.
Computations are run one after the other, and once for each element of a list. A property of all
events is settled step by step: if a step records only such events exactly if a condition holds
before it, then a loop does so exactly if the condition holds before every step that is reached.

## Main definitions

* `Recorded`, `Recorded.bind`, `Recorded.forEach`.
* `Recorded.Along`: a condition holds before every step of a loop.

## Main results

* `Recorded.forall_events_bind`, `Recorded.forall_events_forEach`.
-/

namespace TwistedOS

/-- The events that a computation records, and its result if it does not fail. -/
structure Recorded (ε α : Type*) where
  events : List ε
  result : Option α

namespace Recorded

variable {ε α β σ ι : Type*}

/-- The computation that fails at once. -/
def fail : Recorded ε α := ⟨[], none⟩

/-- Goes on with the result of a computation. -/
def bind (x : Recorded ε α) (f : α → Recorded ε β) : Recorded ε β :=
  match x.result with
  | none => ⟨x.events, none⟩
  | some a => ⟨x.events ++ (f a).events, (f a).result⟩

/-- Runs a step for each element of a list, until one fails. -/
def forEach (step : ι → σ → Recorded ε σ) : List ι → σ → Recorded ε σ
  | [], s => ⟨[], some s⟩
  | i :: rest, s => (step i s).bind (forEach step rest)

/-- The condition holds before every step that is reached. -/
def Along (step : ι → σ → Recorded ε σ) (fits : ι → σ → Prop) : List ι → σ → Prop
  | [], _ => True
  | i :: rest, s => fits i s ∧ ∀ s', (step i s).result = some s' → Along step fits rest s'

variable {p : ε → Prop} {x : Recorded ε α} {f : α → Recorded ε β} {step : ι → σ → Recorded ε σ}
  {fits : ι → σ → Prop}

theorem result_bind : (x.bind f).result = x.result.bind fun a => (f a).result := by
  obtain ⟨events, result | a⟩ := x <;> rfl

theorem result_bind_eq_some {b : β} :
    (x.bind f).result = some b ↔ ∃ a, x.result = some a ∧ (f a).result = some b := by
  rw [result_bind, Option.bind_eq_some_iff]

/-- The events of two computations, one after the other. -/
theorem forall_events_bind : (∀ e ∈ (x.bind f).events, p e) ↔
    (∀ e ∈ x.events, p e) ∧ ∀ a, x.result = some a → ∀ e ∈ (f a).events, p e := by
  obtain ⟨events, result | a⟩ := x
  · simp [bind]
  · simp only [bind, List.forall_mem_append, Option.some.injEq, forall_eq']

theorem mem_events_bind {e : ε} : e ∈ (x.bind f).events ↔
    e ∈ x.events ∨ ∃ a, x.result = some a ∧ e ∈ (f a).events := by
  obtain ⟨events, result | a⟩ := x <;> simp [bind]

theorem forEach_append (l l' : List ι) (s : σ) :
    forEach step (l ++ l') s = (forEach step l s).bind (forEach step l') := by
  induction l generalizing s with
  | nil => rfl
  | cons i l ih =>
    rw [List.cons_append, forEach, forEach]
    obtain ⟨events, result | s'⟩ := step i s
    · rfl
    · simp only [bind, ih]
      obtain ⟨events', result | s''⟩ := forEach step l s' <;> simp

/-- What all events of all steps have in common. -/
theorem forall_events_forEach_of {l : List ι} {s : σ}
    (h : ∀ i ∈ l, ∀ s, ∀ e ∈ (step i s).events, p e) : ∀ e ∈ (forEach step l s).events, p e := by
  induction l generalizing s with
  | nil => simp [forEach]
  | cons i l ih =>
    rw [forEach, forall_events_bind]
    exact ⟨h i (List.mem_cons_self ..) s,
      fun s' _ => ih fun j hj => h j (List.mem_cons_of_mem i hj)⟩

/-- All events of a loop have a property exactly if the condition holds before every step. The
invariant `inv` is kept by the steps that record only such events, all of which have the property
`q`. -/
theorem forall_events_forEach {l : List ι} {inv : σ → Prop} {q : ε → Prop} {s : σ}
    (hstep : ∀ i ∈ l, ∀ s, inv s → ((∀ e ∈ (step i s).events, p e) ↔ fits i s))
    (hinv : ∀ i ∈ l, ∀ s s', inv s → fits i s → (∀ e ∈ (step i s).events, q e) →
      (step i s).result = some s' → inv s')
    (hs : inv s) (hq : ∀ e ∈ (forEach step l s).events, q e) :
    (∀ e ∈ (forEach step l s).events, p e) ↔ Along step fits l s := by
  induction l generalizing s with
  | nil => simp [forEach, Along]
  | cons i l ih =>
    rw [forEach, forall_events_bind] at hq
    rw [forEach, forall_events_bind, Along, hstep i (List.mem_cons_self ..) s hs]
    refine and_congr_right fun hfits => forall_congr' fun s' => ?_
    refine imp_congr_right fun hs' => ?_
    exact ih (fun j hj => hstep j (List.mem_cons_of_mem i hj))
      (fun j hj => hinv j (List.mem_cons_of_mem i hj))
      (hinv i (List.mem_cons_self ..) s s' hs hfits hq.1 hs') (hq.2 s' hs')

/-- A condition that always holds, for the elements of the list. -/
theorem Along.of_forall {l : List ι} (h : ∀ i ∈ l, ∀ s, fits i s) (s : σ) :
    Along step fits l s := by
  induction l generalizing s with
  | nil => trivial
  | cons i l ih =>
    exact ⟨h i (List.mem_cons_self ..) s,
      fun s' _ => ih (fun j hj => h j (List.mem_cons_of_mem i hj)) s'⟩
/-- What the steps keep under the condition holds in the end. -/
theorem Along.result {l : List ι} {inv : σ → Prop} {q : ε → Prop} {s s' : σ}
    (h : Along step fits l s)
    (hinv : ∀ i ∈ l, ∀ s s', inv s → fits i s → (∀ e ∈ (step i s).events, q e) →
      (step i s).result = some s' → inv s')
    (hs : inv s) (hq : ∀ e ∈ (forEach step l s).events, q e)
    (hresult : (forEach step l s).result = some s') : inv s' := by
  induction l generalizing s with
  | nil => exact Option.some.inj hresult ▸ hs
  | cons i l ih =>
    rw [forEach, forall_events_bind] at hq
    obtain ⟨t, ht, hrest⟩ := result_bind_eq_some.mp hresult
    exact ih (h.2 t ht) (fun j hj => hinv j (List.mem_cons_of_mem i hj))
      (hinv i (List.mem_cons_self ..) s t hs h.1 hq.1 ht) (hq.2 t ht) hrest

end Recorded

end TwistedOS
