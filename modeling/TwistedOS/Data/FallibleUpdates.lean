import Mathlib.Data.Option.Basic
import Mathlib.Tactic.SplitIfs

/-!
# Updates that may fail

An update of a state may fail after it has changed a part of the state: `OptionT (StateM σ)`. A run
of a sequence of updates that does not fail consists of runs of the single ones. An alternative
goes on in the state that the failed update has left.

## Main definitions

* `FallibleUpdate`, `FallibleUpdate.runFrom`.
* `FallibleUpdate.Yields`, `FallibleUpdate.Keeps`.

## Main results

* `FallibleUpdate.yields_bind`: runs that do not fail.
* `FallibleUpdate.Keeps.bind`, `FallibleUpdate.Keeps.orElse`: what all runs keep.
* `FallibleUpdate.Keeps.exists_of_changed`: what precedes a change.
-/

namespace TwistedOS

/-- An update of a state that may fail, with the changes that it has made until then. -/
abbrev FallibleUpdate (σ α : Type) := OptionT (StateM σ) α

namespace FallibleUpdate

variable {σ α β : Type}

/-- The result, if the update does not fail, and the state that it leads to. -/
def runFrom (x : FallibleUpdate σ α) (s : σ) : Option α × σ := StateT.run (OptionT.run x) s

/-- What depends on the state only. -/
def reading (f : σ → Option α) : FallibleUpdate σ α := OptionT.mk fun s => (f s, s)

/-- A change of the state that may be reported as a failure. -/
def changing (f : σ → σ × Bool) : FallibleUpdate σ Unit :=
  OptionT.mk fun s => (if (f s).2 then some () else none, (f s).1)

/-- An update under a condition. -/
def onlyIf (p : Prop) [Decidable p] (x : FallibleUpdate σ Unit) : FallibleUpdate σ Unit :=
  if p then x else pure ()

/-- The update runs without a failure, with a result and a new state. -/
def Yields (x : FallibleUpdate σ α) (s : σ) (a : α) (s' : σ) : Prop := x.runFrom s = (some a, s')

/-- Whether the update fails or not, it leads to a state with the property. -/
def Keeps (P : σ → Prop) (x : FallibleUpdate σ α) : Prop := ∀ s, P s → P (x.runFrom s).2

variable {x y : FallibleUpdate σ α} {f : α → FallibleUpdate σ β} {s s' : σ} {a b : α} {c : β}
  {P : σ → Prop}

theorem runFrom_pure : (pure a : FallibleUpdate σ α).runFrom s = (some a, s) := rfl

theorem runFrom_failure : (failure : FallibleUpdate σ α).runFrom s = (none, s) := rfl

theorem runFrom_reading {g : σ → Option α} : (reading g).runFrom s = (g s, s) := rfl

theorem runFrom_get : (get : FallibleUpdate σ σ).runFrom s = (some s, s) := rfl

theorem runFrom_bind : (x >>= f).runFrom s =
    (x.runFrom s).1.elim (none, (x.runFrom s).2) fun a => (f a).runFrom (x.runFrom s).2 := by
  simp only [runFrom, OptionT.run_bind, Option.elimM, StateT.run_bind]
  rcases StateT.run (OptionT.run x) s with ⟨_ | a, s'⟩ <;> rfl

theorem runFrom_orElse : (x <|> y).runFrom s =
    (x.runFrom s).1.elim (y.runFrom (x.runFrom s).2) fun a => (some a, (x.runFrom s).2) := by
  simp only [runFrom, OptionT.run_orElse, Option.elimM, StateT.run_bind]
  rcases StateT.run (OptionT.run x) s with ⟨_ | a, s'⟩ <;> rfl

/-! ### Runs that do not fail -/

theorem yields_pure : (pure a : FallibleUpdate σ α).Yields s b s' ↔ a = b ∧ s = s' := by
  rw [Yields, runFrom_pure, Prod.mk.injEq, Option.some.injEq]

theorem not_yields_failure : ¬ (failure : FallibleUpdate σ α).Yields s b s' := by
  rw [Yields, runFrom_failure]
  simp

theorem yields_reading {g : σ → Option α} : (reading g).Yields s b s' ↔ g s = some b ∧ s = s' := by
  rw [Yields, runFrom_reading, Prod.mk.injEq]

/-- A state that is looked at first. -/
theorem yields_get_bind {g : σ → FallibleUpdate σ β} :
    (get >>= g).Yields s c s' ↔ (g s).Yields s c s' := by
  rw [Yields, runFrom_bind, runFrom_get]
  rfl

theorem yields_bind : (x >>= f).Yields s c s' ↔
    ∃ a s₁, x.Yields s a s₁ ∧ (f a).Yields s₁ c s' := by
  rw [Yields, runFrom_bind]
  simp only [Yields]
  rcases x.runFrom s with ⟨_ | a, s₁⟩
  · simp
  · constructor
    · exact fun h => ⟨a, s₁, rfl, h⟩
    · rintro ⟨a', s₁', heq, h⟩
      cases heq
      exact h

theorem yields_guard {p : Prop} [Decidable p] {u : Unit} :
    (guard p : FallibleUpdate σ Unit).Yields s u s' ↔ p ∧ s = s' := by
  have hguard : (guard p : FallibleUpdate σ Unit) = if p then pure () else failure := rfl
  by_cases hp : p
  · rw [hguard, if_pos hp, yields_pure]
    simp [hp]
  · rw [hguard, if_neg hp]
    simp [hp, not_yields_failure]

theorem yields_guard_bind {p : Prop} [Decidable p] {g : Unit → FallibleUpdate σ β} :
    (guard p >>= g).Yields s c s' ↔ p ∧ (g ()).Yields s c s' := by
  rw [yields_bind]
  simp only [yields_guard]
  constructor
  · rintro ⟨_, s₁, ⟨hp, rfl⟩, h⟩
    exact ⟨hp, h⟩
  · rintro ⟨hp, h⟩
    exact ⟨(), s, ⟨hp, rfl⟩, h⟩

/-! ### What all runs keep -/

namespace Keeps

theorem pure (a : α) : Keeps P (Pure.pure a : FallibleUpdate σ α) := fun _ h => h

theorem get : Keeps P (MonadState.get : FallibleUpdate σ σ) := fun _ h => h

theorem failure : Keeps P (Alternative.failure : FallibleUpdate σ α) := fun _ h => h

theorem reading (g : σ → Option α) : Keeps P (reading g) := fun _ h => h

theorem changing {g : σ → σ × Bool} (h : ∀ s, P s → P (g s).1) : Keeps P (changing g) := h

theorem guard (p : Prop) [Decidable p] : Keeps P (guard p : FallibleUpdate σ Unit) := by
  change Keeps P (if p then Pure.pure () else Alternative.failure)
  split_ifs
  · exact pure ()
  · exact failure

theorem bind (hx : Keeps P x) (hf : ∀ a, Keeps P (f a)) : Keeps P (x >>= f) := by
  intro s hs
  have hmid := hx s hs
  rw [runFrom_bind]
  rcases hrun : x.runFrom s with ⟨_ | a, s₁⟩
  · rw [hrun] at hmid
    exact hmid
  · rw [hrun] at hmid
    exact hf a s₁ hmid

theorem orElse (hx : Keeps P x) (hy : Keeps P y) : Keeps P (x <|> y) := by
  intro s hs
  have hmid := hx s hs
  rw [runFrom_orElse]
  rcases hrun : x.runFrom s with ⟨_ | a, s₁⟩
  · rw [hrun] at hmid
    exact hy s₁ hmid
  · rw [hrun] at hmid
    exact hmid

theorem onlyIf {p : Prop} [Decidable p] {x : FallibleUpdate σ Unit} (hx : Keeps P x) :
    Keeps P (onlyIf p x) := by
  rw [FallibleUpdate.onlyIf]
  split_ifs
  · exact hx
  · exact pure ()

/-- An update changes the state only after its first part has succeeded, when that changes
nothing. -/
theorem exists_of_changed (hx : Keeps (· = s) x) (h : ((x >>= f).runFrom s).2 ≠ s) :
    ∃ a, x.Yields s a s ∧ ((f a).runFrom s).2 ≠ s := by
  have hmid := hx s rfl
  rw [runFrom_bind] at h
  rcases hrun : x.runFrom s with ⟨_ | a, s₁⟩
  · rw [hrun] at h hmid
    exact absurd hmid h
  · rw [hrun] at h hmid
    obtain rfl : s₁ = s := hmid
    exact ⟨a, hrun, h⟩

end Keeps

end FallibleUpdate

end TwistedOS
