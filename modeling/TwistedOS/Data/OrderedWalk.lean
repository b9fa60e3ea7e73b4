import Mathlib.Data.Fintype.Pigeonhole
import Mathlib.Data.Set.Card
import Mathlib.Data.Set.Finite.Lattice
import Mathlib.Logic.Relation

/-!
# Walks through ordered graphs

A walk enters a node and then walks through its children in order. A node without a list of children
ends the whole walk. A *way* to a node is the list of the positions at which the walk goes down,
with all children before them walked through to the end. The walk enters a node as often as there
are ways to it, and it does not end just when it comes to a cycle.

## Main definitions

* `OrderedWalk.walk`: the nodes entered, and whether the walk went through to the end.
* `OrderedWalk.Completes`, `OrderedWalk.Way`, `OrderedWalk.Step`.

## Main results

* `OrderedWalk.encard_ways`: the number of ways to a node.
* `OrderedWalk.exists_walk_iff`: walks that enter every node at most a number of times.
* `OrderedWalk.diverges_iff`: walks that do not end.
-/

namespace TwistedOS.OrderedWalk

variable {α : Type*} (children : α → Option (List α))

/-- Walks one after the other until one of them ends early. -/
def walkAll (walk : α → Option (List α × Bool)) : List α → Option (List α × Bool)
  | [] => some ([], true)
  | c :: cs =>
    match walk c with
    | none => none
    | some (entered, false) => some (entered, false)
    | some (entered, true) => (walkAll walk cs).map fun r => (entered ++ r.1, r.2)

/-- The walk from a node, through at most `fuel` levels. -/
def walk : (fuel : ℕ) → α → Option (List α × Bool)
  | 0, _ => none
  | fuel + 1, x =>
    match children x with
    | none => some ([x], false)
    | some cs => (walkAll (walk fuel) cs).map fun r => (x :: r.1, r.2)

/-- The walk from a node goes through to the end. -/
inductive Completes : α → Prop
  | intro {x : α} {cs : List α} (hcs : children x = some cs) (h : ∀ c ∈ cs, Completes c) :
    Completes x

/-- The walk from a node does not end. -/
def Diverges (x : α) : Prop := ∀ fuel, walk children fuel x = none

/-- The child at a position at which the walk through a list arrives. -/
def Arrives (cs : List α) (i : ℕ) (c : α) : Prop :=
  cs[i]? = some c ∧ ∀ d ∈ cs.take i, Completes children d

/-- The walk goes from a node to a child. -/
def Step (x c : α) : Prop := ∃ cs i, children x = some cs ∧ Arrives children cs i c

/-- A way from a node to another one. -/
def Way : List ℕ → α → α → Prop
  | [], x, z => x = z
  | i :: p, x, z => ∃ cs c, children x = some cs ∧ Arrives children cs i c ∧ Way p c z

variable {children} {x y z c : α} {cs : List α} {i n fuel : ℕ} {p : List ℕ}
  {r : List α × Bool}

/-! ### Walks -/

theorem walk_of_none (h : children x = none) : walk children (fuel + 1) x = some ([x], false) := by
  rw [walk, h]

theorem walk_of_some (h : children x = some cs) : walk children (fuel + 1) x =
    (walkAll (walk children fuel) cs).map fun r => (x :: r.1, r.2) := by
  rw [walk, h]

/-- What a walk through a list that begins with a node is put together from. -/
theorem walkAll_cons_eq_some {w : α → Option (List α × Bool)} (h : walkAll w (c :: cs) = some r) :
    (∃ entered, w c = some (entered, false) ∧ r = (entered, false)) ∨
    ∃ entered r', w c = some (entered, true) ∧ walkAll w cs = some r' ∧
      r = (entered ++ r'.1, r'.2) := by
  rw [walkAll] at h
  rcases hw : w c with _ | ⟨entered, _ | _⟩
  · rw [hw] at h
    cases h
  · rw [hw] at h
    exact .inl ⟨entered, rfl, (Option.some.inj h).symm⟩
  · rw [hw] at h
    obtain ⟨r', hr', rfl⟩ := Option.map_eq_some_iff.mp h
    exact .inr ⟨entered, r', rfl, hr', rfl⟩

/-- More levels do not change a walk. -/
theorem walkAll_mono {w w' : α → Option (List α × Bool)}
    (hw : ∀ c r, w c = some r → w' c = some r) (h : walkAll w cs = some r) :
    walkAll w' cs = some r := by
  induction cs generalizing r with
  | nil => exact h
  | cons c cs ih =>
    obtain ⟨entered, hc, rfl⟩ | ⟨entered, r', hc, hcs, rfl⟩ := walkAll_cons_eq_some h
    · rw [walkAll, hw c _ hc]
    · rw [walkAll, hw c _ hc, ih hcs]
      rfl

theorem walk_succ (h : walk children fuel x = some r) : walk children (fuel + 1) x = some r := by
  induction fuel generalizing x r with
  | zero => cases h
  | succ fuel ih =>
    rcases hx : children x with _ | cs
    · rw [walk_of_none hx] at h ⊢
      exact h
    · rw [walk_of_some hx] at h ⊢
      obtain ⟨r', hr', rfl⟩ := Option.map_eq_some_iff.mp h
      rw [walkAll_mono (fun c r hc => ih hc) hr']
      rfl

theorem walk_mono {fuel' : ℕ} (hle : fuel ≤ fuel') (h : walk children fuel x = some r) :
    walk children fuel' x = some r := by
  induction fuel', hle using Nat.le_induction with
  | base => exact h
  | succ fuel' _ ih => exact walk_succ ih

theorem completes_iff_of_some (h : children x = some cs) :
    Completes children x ↔ ∀ c ∈ cs, Completes children c := by
  constructor
  · rintro ⟨hcs, hall⟩
    cases h.symm.trans hcs
    exact hall
  · exact .intro h

/-- A walk that ends has gone through to the end just when this is possible. -/
theorem completes_iff (h : walk children fuel x = some r) :
    Completes children x ↔ r.2 = true := by
  induction fuel generalizing x r with
  | zero => cases h
  | succ fuel ih =>
    rcases hx : children x with _ | cs
    · rw [walk_of_none hx] at h
      cases h
      refine iff_of_false (fun hcompletes => ?_) Bool.false_ne_true
      obtain ⟨hcs, -⟩ := hcompletes
      rw [hx] at hcs
      cases hcs
    · rw [walk_of_some hx] at h
      obtain ⟨r', hr', rfl⟩ := Option.map_eq_some_iff.mp h
      rw [completes_iff_of_some hx]
      clear h hx
      induction cs generalizing r' with
      | nil =>
        cases hr'
        simp
      | cons c cs ihcs =>
        rw [List.forall_mem_cons]
        obtain ⟨entered, hc, rfl⟩ | ⟨entered, r', hc, hcs, rfl⟩ := walkAll_cons_eq_some hr'
        · simp [ih hc]
        · rw [ih hc, ihcs r' hcs]
          simp

/-! ### Ways -/

theorem arrives_cons_zero : Arrives children (c :: cs) 0 y ↔ c = y := by
  simp [Arrives]

theorem arrives_cons_succ : Arrives children (c :: cs) (i + 1) y ↔
    Completes children c ∧ Arrives children cs i y := by
  simp only [Arrives, List.getElem?_cons_succ, List.take_succ_cons, List.forall_mem_cons]
  tauto

/-- The ways from a node to another one. -/
def ways (children : α → Option (List α)) (x z : α) : Set (List ℕ) := {p | Way children p x z}

/-- The ways through a list of children. -/
def waysThrough (children : α → Option (List α)) (cs : List α) (z : α) : Set (List ℕ) :=
  {p | ∃ i q c, p = i :: q ∧ Arrives children cs i c ∧ Way children q c z}

theorem waysThrough_nil : waysThrough children [] z = ∅ := by
  ext p
  simp [waysThrough, Arrives]

/-- The ways through a first child, and those past it. -/
theorem waysThrough_cons : waysThrough children (c :: cs) z =
    (0 :: ·) '' ways children c z ∪
      {p | Completes children c ∧ p ∈ List.modifyHead (· + 1) '' waysThrough children cs z} := by
  ext p
  constructor
  · rintro ⟨_ | i, q, d, rfl, hd, hq⟩
    · cases arrives_cons_zero.mp hd
      exact .inl ⟨q, hq, rfl⟩
    · obtain ⟨hc, hd⟩ := arrives_cons_succ.mp hd
      exact .inr ⟨hc, i :: q, ⟨i, q, d, rfl, hd, hq⟩, rfl⟩
  · rintro (⟨q, hq, rfl⟩ | ⟨hc, -, ⟨i, q, d, rfl, hd, hq⟩, rfl⟩)
    · exact ⟨0, q, c, rfl, arrives_cons_zero.mpr rfl, hq⟩
    · exact ⟨i + 1, q, d, rfl, arrives_cons_succ.mpr ⟨hc, hd⟩, hq⟩

theorem modifyHead_succ_injective :
    Function.Injective (List.modifyHead (· + 1) : List ℕ → List ℕ) := by
  rintro (_ | ⟨i, p⟩) (_ | ⟨j, q⟩) h
  · rfl
  · cases h
  · cases h
  · simpa using h

theorem ways_of_some (h : children x = some cs) :
    ways children x z = {p | p = [] ∧ x = z} ∪ waysThrough children cs z := by
  ext p
  cases p with
  | nil =>
    constructor
    · exact fun hp => .inl ⟨rfl, hp⟩
    · rintro (⟨-, hp⟩ | ⟨i, q, c, hp, -⟩)
      · exact hp
      · cases hp
  | cons i q =>
    constructor
    · rintro ⟨cs', c, hcs, hc, hq⟩
      cases h.symm.trans hcs
      exact .inr ⟨i, q, c, rfl, hc, hq⟩
    · rintro (⟨hp, -⟩ | ⟨i', q', c, hp, hc, hq⟩)
      · cases hp
      · cases hp
        exact ⟨cs, c, h, hc, hq⟩

theorem ways_of_none (h : children x = none) : ways children x z = {p | p = [] ∧ x = z} := by
  ext p
  cases p with
  | nil => exact (and_iff_right rfl).symm
  | cons i q =>
    refine iff_of_false ?_ fun hp => List.cons_ne_nil _ _ hp.1
    rintro ⟨cs, c, hcs, -⟩
    rw [h] at hcs
    cases hcs

theorem encard_here [DecidableEq α] :
    {p : List ℕ | p = [] ∧ x = z}.encard = ([x].count z : ℕ) := by
  by_cases hxz : x = z
  · have hset : {p : List ℕ | p = [] ∧ x = z} = {[]} := by
      ext p
      simp [hxz]
    rw [hset, Set.encard_singleton, hxz, List.count_singleton_self]
    rfl
  · have hset : {p : List ℕ | p = [] ∧ x = z} = ∅ := by
      ext p
      simp [hxz]
    rw [hset, Set.encard_empty, List.count_eq_zero_of_not_mem (by simpa using Ne.symm hxz)]
    rfl

/-- The walk enters a node as often as there are ways to it. -/
theorem encard_ways [DecidableEq α] (h : walk children fuel x = some r) (z : α) :
    (ways children x z).encard = r.1.count z := by
  induction fuel generalizing x r with
  | zero => cases h
  | succ fuel ih =>
    rcases hx : children x with _ | cs
    · rw [walk_of_none hx] at h
      cases h
      rw [ways_of_none hx, encard_here]
    rw [walk_of_some hx] at h
    obtain ⟨r', hr', rfl⟩ := Option.map_eq_some_iff.mp h
    have hthrough : (waysThrough children cs z).encard = r'.1.count z := by
      clear h hx
      induction cs generalizing r' with
      | nil =>
        cases hr'
        rw [waysThrough_nil, Set.encard_empty]
        rfl
      | cons c cs ihcs =>
        have hinjective : Function.Injective (List.cons 0 : List ℕ → List ℕ) :=
          List.cons_injective
        obtain ⟨entered, hc, rfl⟩ | ⟨entered, r', hc, hcs, rfl⟩ := walkAll_cons_eq_some hr'
        · have hnot : ¬ Completes children c := by simp [completes_iff hc]
          have hnone : {p : List ℕ | Completes children c ∧
              p ∈ List.modifyHead (· + 1) '' waysThrough children cs z} = ∅ := by
            ext p
            simp [hnot]
          rw [waysThrough_cons, hnone, Set.union_empty, hinjective.encard_image, ih hc]
        · have hcompletes : Completes children c := (completes_iff hc).mpr rfl
          have hall : {p : List ℕ | Completes children c ∧
              p ∈ List.modifyHead (· + 1) '' waysThrough children cs z} =
                List.modifyHead (· + 1) '' waysThrough children cs z := by
            ext p
            simp [hcompletes]
          rw [waysThrough_cons, hall, Set.encard_union_eq, hinjective.encard_image,
            modifyHead_succ_injective.encard_image, ih hc, ihcs r' hcs, List.count_append,
            Nat.cast_add]
          rw [Set.disjoint_left]
          rintro - ⟨q, -, rfl⟩ ⟨-, ⟨i, q', c, rfl, -⟩, hq⟩
          cases hq
    rw [ways_of_some hx, Set.encard_union_eq, encard_here, hthrough, ← Nat.cast_add,
      ← List.count_append]
    · rfl
    · rw [Set.disjoint_left]
      rintro - ⟨rfl, -⟩ ⟨i, q, c, hq, -⟩
      cases hq

/-! ### Walks that do not end -/

/-- A walk through a list does not end only because of a child at which it arrives. -/
theorem exists_walkAll (h : ∀ i c, Arrives children cs i c → ¬ Diverges children c) :
    ∃ fuel r, walkAll (walk children fuel) cs = some r := by
  induction cs with
  | nil => exact ⟨0, _, rfl⟩
  | cons c cs ih =>
    have hc := h 0 c (arrives_cons_zero.mpr rfl)
    simp only [Diverges, not_forall] at hc
    obtain ⟨fuel, hne⟩ := hc
    obtain ⟨⟨entered, ok⟩, hr⟩ := Option.ne_none_iff_exists'.mp hne
    cases ok with
    | false => exact ⟨fuel, (entered, false), by rw [walkAll, hr]⟩
    | true =>
      have hcompletes : Completes children c := (completes_iff hr).mpr rfl
      obtain ⟨fuel', r', hr'⟩ := ih fun i d hd => h (i + 1) d (arrives_cons_succ.mpr ⟨hcompletes, hd⟩)
      refine ⟨max fuel fuel', (entered ++ r'.1, r'.2), ?_⟩
      rw [walkAll, walk_mono (Nat.le_max_left ..) hr]
      dsimp only
      rw [walkAll_mono (fun d _ hd => walk_mono (Nat.le_max_right ..) hd) hr']
      rfl

/-- A walk that does not end goes on to a child from which it does not end. -/
theorem Diverges.exists_step (h : Diverges children x) :
    ∃ c, Step children x c ∧ Diverges children c := by
  rcases hx : children x with _ | cs
  · have hwalk := h 1
    rw [walk_of_none hx] at hwalk
    cases hwalk
  · by_contra hnone
    have hends : ∀ i c, Arrives children cs i c → ¬ Diverges children c :=
      fun i c hc hdiverges => hnone ⟨c, ⟨cs, i, hx, hc⟩, hdiverges⟩
    obtain ⟨fuel, r, hr⟩ := exists_walkAll hends
    have hwalk := h (fuel + 1)
    rw [walk_of_some hx, hr] at hwalk
    cases hwalk

theorem walkAll_eq_none (hc : Arrives children cs i c) (h : walk children fuel c = none) :
    walkAll (walk children fuel) cs = none := by
  induction cs generalizing i with
  | nil => simp [Arrives] at hc
  | cons d cs ih =>
    rw [walkAll]
    cases i with
    | zero =>
      obtain rfl := arrives_cons_zero.mp hc
      rw [h]
    | succ i =>
      obtain ⟨hd, hc⟩ := arrives_cons_succ.mp hc
      rcases hwalk : walk children fuel d with _ | ⟨entered, _ | _⟩
      · rfl
      · exact absurd ((completes_iff hwalk).mp hd) Bool.false_ne_true
      · rw [ih hc]
        rfl

theorem Step.walk_eq_none (h : Step children x c) (hc : walk children fuel c = none) :
    walk children (fuel + 1) x = none := by
  obtain ⟨cs, i, hcs, harrives⟩ := h
  rw [walk_of_some hcs, walkAll_eq_none harrives hc]
  rfl

theorem Diverges.of_step (h : Step children x c) (hc : Diverges children c) :
    Diverges children x := by
  intro fuel
  cases fuel with
  | zero => rfl
  | succ fuel => exact h.walk_eq_none (hc fuel)

/-- A walk from a cycle does not end. -/
theorem diverges_of_cycle (h : Relation.TransGen (Step children) x x) : Diverges children x := by
  intro fuel
  induction fuel generalizing x with
  | zero => rfl
  | succ fuel ih =>
    obtain ⟨c, hstep, hrest⟩ := Relation.TransGen.head'_iff.mp h
    exact hstep.walk_eq_none (ih (Relation.TransGen.tail' hrest hstep))

/-- A walk does not end just when it comes to a cycle. -/
theorem diverges_iff (hfinite : {z | Relation.ReflTransGen (Step children) x z}.Finite) :
    Diverges children x ↔ ∃ c, Relation.ReflTransGen (Step children) x c ∧
      Relation.TransGen (Step children) c c := by
  constructor
  · intro h
    have hnext : ∀ y : {y // Diverges children y}, ∃ c : {y // Diverges children y},
        Step children y c := fun y =>
      have ⟨c, hc, hdiverges⟩ := y.2.exists_step
      ⟨⟨c, hdiverges⟩, hc⟩
    choose next hnext using hnext
    let chain : ℕ → {y // Diverges children y} := fun n => next^[n] ⟨x, h⟩
    have hchain : ∀ n, Step children (chain n) (chain (n + 1)) := fun n => by
      have hsucc : chain (n + 1) = next (chain n) := Function.iterate_succ_apply' ..
      rw [hsucc]
      exact hnext (chain n)
    have hreach : ∀ n, Relation.ReflTransGen (Step children) x (chain n) := fun n => by
      induction n with
      | zero => exact .refl
      | succ n ih => exact ih.tail (hchain n)
    obtain ⟨i, j, hij, heq⟩ :=
      hfinite.exists_lt_map_eq_of_forall_mem (f := fun n => (chain n : α)) hreach
    refine ⟨chain i, hreach i, ?_⟩
    have hpath : ∀ k, Relation.TransGen (Step children) (chain i) (chain (i + 1 + k)) := fun k => by
      induction k with
      | zero => exact .single (hchain i)
      | succ k ih => exact ih.tail (hchain _)
    have hlast := hpath (j - (i + 1))
    rw [Nat.add_sub_of_le hij] at hlast
    have heq : (chain i : α) = chain j := heq
    rwa [← heq] at hlast
  · rintro ⟨c, hreach, hcycle⟩
    induction hreach using Relation.ReflTransGen.head_induction_on with
    | refl => exact diverges_of_cycle hcycle
    | head hstep _ ih => exact .of_step hstep (ih (hfinite.subset fun z hz => hz.head hstep))

theorem Way.reflTransGen (h : Way children p x z) : Relation.ReflTransGen (Step children) x z := by
  induction p generalizing x with
  | nil =>
    obtain rfl : x = z := h
    exact .refl
  | cons i p ih =>
    obtain ⟨cs, c, hcs, hc, hp⟩ := h
    exact .head ⟨cs, i, hcs, hc⟩ (ih hp)

/-- A walk that does not end has ways of every length. -/
theorem Diverges.exists_way (h : Diverges children x) (n : ℕ) :
    ∃ p z, Way children p x z ∧ p.length = n := by
  induction n generalizing x with
  | zero => exact ⟨[], x, rfl, rfl⟩
  | succ n ih =>
    obtain ⟨c, ⟨cs, i, hcs, hc⟩, hdiverges⟩ := h.exists_step
    obtain ⟨p, z, hp, rfl⟩ := ih hdiverges
    exact ⟨i :: p, z, ⟨cs, c, hcs, hc, hp⟩, rfl⟩

/-- The walk ends, having entered no node more often than `N` times, just when there are at most
`N` ways to every node. -/
theorem exists_walk_iff [DecidableEq α]
    (hfinite : {z | Relation.ReflTransGen (Step children) x z}.Finite) (N : ℕ) :
    (∃ fuel r, walk children fuel x = some r ∧ ∀ z, r.1.count z ≤ N) ↔
      ∀ z, (ways children x z).encard ≤ N := by
  constructor
  · rintro ⟨fuel, r, hr, hcount⟩ z
    rw [encard_ways hr]
    exact_mod_cast hcount z
  · intro h
    have hends : ¬ Diverges children x := by
      intro hdiverges
      have hall : (⋃ z ∈ {z | Relation.ReflTransGen (Step children) x z},
          ways children x z).Finite :=
        hfinite.biUnion fun z _ => Set.finite_of_encard_le_coe (h z)
      refine Set.infinite_univ ((hall.image List.length).subset fun n _ => ?_)
      obtain ⟨p, z, hp, hlength⟩ := hdiverges.exists_way n
      exact ⟨p, Set.mem_biUnion hp.reflTransGen hp, hlength⟩
    simp only [Diverges, not_forall] at hends
    obtain ⟨fuel, hne⟩ := hends
    obtain ⟨r, hr⟩ := Option.ne_none_iff_exists'.mp hne
    refine ⟨fuel, r, hr, fun z => ?_⟩
    have hz := h z
    rw [encard_ways hr] at hz
    exact_mod_cast hz

end TwistedOS.OrderedWalk
