import Mathlib.Data.List.Sort
import TwistedOS.Data.DelimitedPackets

/-!
# A bounded queue of packets that marks what it drops

A queue takes the elements of packets one after the other. A full queue drops its oldest element for
a new one; what is left of the packet that overflowed is dropped too, and its end becomes a mark. A
reader takes elements from the queue at any time. The elements are kept here with their positions in
the sequence that was put.

## Main definitions

* `MarkedQueue`, `MarkedQueue.put`, `MarkedQueue.take`.
* `MarkedQueue.Admits`: the oldest element may be dropped for a new one.
* `MarkedQueue.Consistent`.
* `MarkedQueue.LossMarked`, `MarkedQueue.PacketsWhole`.

## Main results

* `MarkedQueue.Consistent.put`, `MarkedQueue.Consistent.take`.
* `MarkedQueue.Consistent.lossMarked`, `MarkedQueue.Consistent.packetsWhole`.
-/

namespace TwistedOS

open Packets

/-- A queue with its history: all elements that were put, those that are queued and those that were
taken, with their positions, and the positions of those that were dropped. -/
structure MarkedQueue (α : Type*) where
  elements : List α
  queued : List (ℕ × α)
  taken : List (ℕ × α)
  dropped : List ℕ
  overflowed : Bool

namespace MarkedQueue

variable {α : Type*} (isEnd : α → Bool) (mark : α) (capacity : ℕ)

/-- Before anything is put. -/
def empty : MarkedQueue α where
  elements := []
  queued := []
  taken := []
  dropped := []
  overflowed := false

variable (q : MarkedQueue α) (a : α)

/-- An element of a packet that has overflowed is dropped. -/
def skip : MarkedQueue α :=
  { q with elements := q.elements ++ [a], dropped := q.dropped ++ [q.elements.length] }

/-- Drops the oldest element that is queued. -/
def discard : MarkedQueue α :=
  { q with queued := q.queued.drop 1, dropped := q.dropped ++ (q.queued.take 1).map Prod.fst }

/-- Queues what stands for an element. -/
def append (b : α) (overflowed : Bool) : MarkedQueue α :=
  { q with
    elements := q.elements ++ [a]
    queued := q.queued ++ [(q.elements.length, b)]
    overflowed := overflowed }

/-- Puts an element. -/
def put : MarkedQueue α :=
  if q.overflowed ∧ isEnd a = false then q.skip a
  else if capacity ≤ q.queued.length then
    q.discard.append a (if q.overflowed then mark else a) true
  else q.append a (if q.overflowed then mark else a) false

/-- Takes elements. -/
def take (n : ℕ) : MarkedQueue α :=
  { q with queued := q.queued.drop n, taken := q.taken ++ q.queued.take n }

/-- Neither an end nor a mark. -/
def Inner (b : α) : Prop := isEnd b = false ∧ b ≠ mark

/-- A new element may be put into a queue with given contents: it is dropped itself, or there is
place, or the packet of the oldest element ends with a mark that is queued, or with one that is
still to come. -/
def Admits (contents : List α) (overflowed : Bool) (a : α) : Prop :=
  (overflowed = true ∧ isEnd a = false) ∨ contents.length < capacity ∨
    ((∀ b ∈ contents, Inner isEnd mark b) ∧ (isEnd a = true → overflowed = true)) ∨
    ∃ first inner rest, contents = first :: inner ++ mark :: rest ∧
      ∀ b ∈ first :: inner, Inner isEnd mark b

/-- What was taken and what is queued. -/
def kept : List (ℕ × α) := q.taken ++ q.queued

/-- Every element is kept or dropped. What is kept is in order, and is what was put, or a mark for
an end. -/
structure Accounted : Prop where
  ordered : q.kept.Pairwise (·.1 < ·.1)
  entries : ∀ t ∈ q.kept, ∃ a, q.elements[t.1]? = some a ∧
    (t.2 = a ∨ isEnd a = true ∧ t.2 = mark)
  complete : ∀ i < q.elements.length, i ∈ q.dropped ∨ ∃ t ∈ q.kept, t.1 = i
  disjoint : ∀ i ∈ q.dropped, i < q.elements.length ∧ ∀ t ∈ q.kept, t.1 ≠ i

/-- What was dropped of a closed packet is marked. -/
structure Marked : Prop extends Accounted isEnd mark q where
  marked : ∀ i ∈ q.dropped, packetIndex isEnd q.elements i < q.elements.countP isEnd →
    ∃ t ∈ q.kept, t.2 = mark ∧
      packetIndex isEnd q.elements t.1 = packetIndex isEnd q.elements i
  unmarked : mark ∉ q.elements

/-- What was dropped is marked, or will be. -/
structure Consistent : Prop extends Marked isEnd mark q where
  pending : ∀ i ∈ q.dropped, packetIndex isEnd q.elements i = q.elements.countP isEnd →
    q.overflowed = true

/-- A reader gets a mark for the packet of a dropped element before it gets the end of this packet
or anything of a later one. -/
def LossMarked : Prop :=
  ∀ i ∈ q.dropped, ∀ before t after, q.taken = before ++ t :: after →
    packetIndex isEnd q.elements i < packetIndex isEnd q.elements t.1 ∨
        packetIndex isEnd q.elements i = packetIndex isEnd q.elements t.1 ∧ isEnd t.2 = true →
      ∃ m ∈ before, m.2 = mark ∧
        packetIndex isEnd q.elements m.1 = packetIndex isEnd q.elements i

/-- What a reader gets from one end to the next has a mark in it, or is a packet that was put. -/
def PacketsWhole (taken elements : List α) : Prop :=
  ∀ before inner last after, taken = before ++ inner ++ last :: after → isEnd last = true →
    (∀ b ∈ before.getLast?, isEnd b = true) → (∀ b ∈ inner, isEnd b = false) →
      mark ∈ inner ∨ ∃ k, inner ++ [last] = packet isEnd k elements

variable {isEnd mark capacity} {q a} {b : α} {t e : ℕ × α} {i n : ℕ}

theorem Accounted.lt_length (h : q.Accounted isEnd mark) (ht : t ∈ q.kept) :
    t.1 < q.elements.length := by
  obtain ⟨a, ha, -⟩ := h.entries t ht
  exact (List.getElem?_eq_some_iff.mp ha).1

/-- What is queued is newer than what was taken. -/
theorem Accounted.lt_of_mem (h : q.Accounted isEnd mark) (ht : t ∈ q.taken) (he : e ∈ q.queued) :
    t.1 < e.1 :=
  (List.pairwise_append.mp h.ordered).2.2 t ht e he

theorem not_inner_mark : ¬Inner isEnd mark mark := fun h => h.2 rfl

namespace Marked

/-- What is kept and is not an inner element stands for an end. -/
theorem exists_isEnd (h : q.Marked isEnd mark) (ht : t ∈ q.kept)
    (hinner : ¬Inner isEnd mark t.2) : ∃ a, q.elements[t.1]? = some a ∧ isEnd a = true := by
  obtain ⟨a, ha, heq | ⟨hend, -⟩⟩ := h.entries t ht
  · refine ⟨a, ha, by_contra fun hend => hinner ⟨?_, fun hmark => ?_⟩⟩
    · rw [heq, Bool.eq_false_iff]
      exact hend
    · exact h.unmarked (hmark ▸ heq ▸ List.mem_of_getElem? ha)
  · exact ⟨a, ha, hend⟩

/-- The end of a closed packet is kept, or the mark in its place. -/
theorem exists_closing (h : q.Marked isEnd mark)
    (hclosed : packetIndex isEnd q.elements i < q.elements.countP isEnd) :
    ∃ e ∈ q.kept, i ≤ e.1 ∧ ¬Inner isEnd mark e.2 ∧
      packetIndex isEnd q.elements e.1 = packetIndex isEnd q.elements i := by
  obtain ⟨j, a, hij, hj, ha, hpacket⟩ := exists_end hclosed
  rcases h.complete j (List.getElem?_eq_some_iff.mp hj).1 with hdropped | ⟨e, he, rfl⟩
  · obtain ⟨m, hm, hmark, hsame⟩ := h.marked j hdropped (hpacket ▸ hclosed)
    obtain ⟨b, hb, hend⟩ := h.exists_isEnd hm (hmark ▸ not_inner_mark)
    exact absurd (eq_of_packetIndex_eq hb hend hj ha hsame) ((h.disjoint j hdropped).2 m hm)
  · refine ⟨e, he, hij, fun hinner => ?_, hpacket⟩
    obtain ⟨b, hb, heq | ⟨-, hmark⟩⟩ := h.entries e he
    · rw [hj, Option.some_inj] at hb
      exact absurd ha (by rw [hb, ← heq, hinner.1]; decide)
    · exact hinner.2 hmark

/-- What stands for a new element is queued: a mark when it ends a packet of which elements were
dropped. -/
theorem append (h : q.Marked isEnd mark) (ha : a ≠ mark) {overflowed : Bool}
    (hb : b = a ∨ isEnd a = true ∧ b = mark)
    (hdropped : ∀ i ∈ q.dropped, packetIndex isEnd q.elements i = q.elements.countP isEnd →
      if isEnd a then b = mark else overflowed = true) :
    (q.append a b overflowed).Consistent isEnd mark := by
  have hkept : (q.append a b overflowed).kept = q.kept ++ [(q.elements.length, b)] :=
    (List.append_assoc ..).symm
  have hindex : ∀ i ≤ q.elements.length,
      packetIndex isEnd (q.elements ++ [a]) i = packetIndex isEnd q.elements i :=
    fun i hi => packetIndex_append hi
  have hcount : (q.elements ++ [a]).countP isEnd =
      q.elements.countP isEnd + if isEnd a then 1 else 0 := by
    rw [List.countP_append, List.countP_singleton]
  have hlength : (q.append a b overflowed).elements.length = q.elements.length + 1 := by
    rw [MarkedQueue.append, List.length_append, List.length_singleton]
  refine ⟨⟨⟨?_, fun t ht => ?_, fun i hi => ?_, fun i hi => ?_⟩, fun i hi hclosed => ?_, ?_⟩,
    fun i hi hopen => ?_⟩
  · rw [hkept]
    refine List.pairwise_append.mpr ⟨h.ordered, List.pairwise_singleton .., fun t ht u hu => ?_⟩
    rw [List.mem_singleton.mp hu]
    exact h.lt_length ht
  · rw [hkept] at ht
    rcases List.mem_append.mp ht with hold | hnew
    · obtain ⟨c, hc, hvalue⟩ := h.entries t hold
      exact ⟨c, (List.getElem?_append_left (h.lt_length hold)).trans hc, hvalue⟩
    · rw [List.mem_singleton.mp hnew]
      exact ⟨a, List.getElem?_concat_length, hb⟩
  · rw [hlength] at hi
    rw [hkept]
    rcases Nat.lt_succ_iff_lt_or_eq.mp hi with hlt | rfl
    · exact (h.complete i hlt).imp_right fun ⟨t, ht, heq⟩ => ⟨t, List.mem_append_left _ ht, heq⟩
    · exact .inr ⟨_, List.mem_append_right _ (List.mem_singleton_self _), rfl⟩
  · obtain ⟨hlt, hne⟩ := h.disjoint i hi
    rw [hkept, hlength]
    refine ⟨hlt.trans (Nat.lt_succ_self _), fun t ht => ?_⟩
    rcases List.mem_append.mp ht with hold | hnew
    · exact hne t hold
    · rw [List.mem_singleton.mp hnew]
      exact hlt.ne'
  · obtain ⟨hlt, -⟩ := h.disjoint i hi
    change packetIndex isEnd (q.elements ++ [a]) i < (q.elements ++ [a]).countP isEnd at hclosed
    change ∃ t ∈ (q.append a b overflowed).kept, t.2 = mark ∧
      packetIndex isEnd (q.elements ++ [a]) t.1 = packetIndex isEnd (q.elements ++ [a]) i
    rw [hindex i hlt.le, hcount] at hclosed
    rw [hindex i hlt.le, hkept]
    by_cases hold : packetIndex isEnd q.elements i < q.elements.countP isEnd
    · obtain ⟨m, hm, hmark, hsame⟩ := h.marked i hi hold
      exact ⟨m, List.mem_append_left _ hm, hmark, (hindex _ (h.lt_length hm).le).trans hsame⟩
    · have hlast : packetIndex isEnd q.elements i = q.elements.countP isEnd :=
        Nat.le_antisymm packetIndex_le (Nat.le_of_not_lt hold)
      have hend : isEnd a = true := by
        by_contra hend
        rw [if_neg hend] at hclosed
        exact hold hclosed
      have hmark := hdropped i hi hlast
      rw [if_pos hend] at hmark
      refine ⟨_, List.mem_append_right _ (List.mem_singleton_self _), hmark, ?_⟩
      rw [hindex _ le_rfl, packetIndex_length, hlast]
  · intro hmem
    rcases List.mem_append.mp hmem with hold | hnew
    · exact h.unmarked hold
    · exact ha (List.mem_singleton.mp hnew).symm
  · obtain ⟨hlt, -⟩ := h.disjoint i hi
    change packetIndex isEnd (q.elements ++ [a]) i = (q.elements ++ [a]).countP isEnd at hopen
    rw [hindex i hlt.le, hcount] at hopen
    have hle : packetIndex isEnd q.elements i ≤ q.elements.countP isEnd := packetIndex_le
    by_cases hend : isEnd a = true
    · rw [if_pos hend] at hopen
      omega
    · rw [if_neg hend, Nat.add_zero] at hopen
      have hflag := hdropped i hi hopen
      rwa [if_neg hend] at hflag

end Marked

namespace Consistent

/-! ### Steps -/

section

variable (h : q.Consistent isEnd mark)

include h

theorem skip (ha : a ≠ mark) (hend : isEnd a = false) (hoverflowed : q.overflowed = true) :
    (q.skip a).Consistent isEnd mark := by
  have hcount : (q.elements ++ [a]).countP isEnd = q.elements.countP isEnd := by
    rw [List.countP_append, List.countP_singleton, if_neg (by rw [hend]; decide), Nat.add_zero]
  have hindex : ∀ i ≤ q.elements.length,
      packetIndex isEnd (q.elements ++ [a]) i = packetIndex isEnd q.elements i :=
    fun i hi => packetIndex_append hi
  have hlength : (q.skip a).elements.length = q.elements.length + 1 := by
    rw [MarkedQueue.skip, List.length_append, List.length_singleton]
  refine ⟨⟨⟨h.ordered, fun t ht => ?_, fun i hi => ?_, fun i hi => ?_⟩, fun i hi hclosed => ?_,
    fun hmem => ?_⟩, fun _ _ _ => hoverflowed⟩
  · obtain ⟨b, hb, hvalue⟩ := h.entries t ht
    exact ⟨b, (List.getElem?_append_left (h.lt_length ht)).trans hb, hvalue⟩
  · rw [hlength] at hi
    rcases Nat.lt_succ_iff_lt_or_eq.mp hi with hlt | heq
    · exact (h.complete i hlt).imp_left fun hdropped => List.mem_append_left _ hdropped
    · exact .inl (List.mem_append_right _ (List.mem_singleton.mpr heq))
  · rw [hlength]
    rcases List.mem_append.mp hi with hdropped | hnew
    · obtain ⟨hlt, hne⟩ := h.disjoint i hdropped
      exact ⟨hlt.trans (Nat.lt_succ_self _), hne⟩
    · rw [List.mem_singleton.mp hnew]
      exact ⟨Nat.lt_succ_self _, fun t ht => (h.lt_length ht).ne⟩
  · change packetIndex isEnd (q.elements ++ [a]) i < (q.elements ++ [a]).countP isEnd at hclosed
    rw [hcount] at hclosed
    rcases List.mem_append.mp hi with hdropped | hnew
    · obtain ⟨hlt, -⟩ := h.disjoint i hdropped
      rw [hindex i hlt.le] at hclosed
      obtain ⟨m, hm, hmark, hsame⟩ := h.marked i hdropped hclosed
      refine ⟨m, hm, hmark, ?_⟩
      exact (hindex _ (h.lt_length hm).le).trans (hsame.trans (hindex i hlt.le).symm)
    · rw [List.mem_singleton.mp hnew, hindex _ le_rfl, packetIndex_length] at hclosed
      exact absurd hclosed (Nat.lt_irrefl _)
  · rcases List.mem_append.mp hmem with hold | hnew
    · exact h.unmarked hold
    · exact ha (List.mem_singleton.mp hnew).symm

/-- The oldest element is dropped when its packet is open or has a mark that is queued. -/
theorem discard {oldest : ℕ × α} {rest : List (ℕ × α)} (hqueued : q.queued = oldest :: rest)
    (hinner : Inner isEnd mark oldest.2)
    (hmarked : packetIndex isEnd q.elements oldest.1 < q.elements.countP isEnd →
      ∃ m ∈ rest, m.2 = mark ∧
        packetIndex isEnd q.elements m.1 = packetIndex isEnd q.elements oldest.1) :
    q.discard.Marked isEnd mark := by
  have hkept : q.kept = q.taken ++ oldest :: rest := by rw [kept, hqueued]
  have hkept' : q.discard.kept = q.taken ++ rest := by rw [kept, MarkedQueue.discard, hqueued]; rfl
  have hdropped : q.discard.dropped = q.dropped ++ [oldest.1] := by
    rw [MarkedQueue.discard, hqueued]
    rfl
  have hsub : q.discard.kept.Sublist q.kept := by
    rw [hkept, hkept']
    exact List.Sublist.append_left (List.sublist_cons_self ..) _
  have holdest : oldest ∈ q.kept := hkept ▸ List.mem_append_right _ (List.mem_cons_self ..)
  have hother : ∀ t ∈ q.kept, t = oldest ∨ t ∈ q.discard.kept := fun t ht => by
    rw [hkept, List.mem_append, List.mem_cons] at ht
    rw [hkept', List.mem_append]
    tauto
  refine ⟨⟨h.ordered.sublist hsub, fun t ht => h.entries t (hsub.mem ht), fun i hi => ?_,
    fun i hi => ?_⟩, fun i hi hclosed => ?_, h.unmarked⟩
  · rw [hdropped, List.mem_append, List.mem_singleton]
    rcases h.complete i hi with hdropped | ⟨t, ht, rfl⟩
    · exact .inl (.inl hdropped)
    · exact (hother t ht).imp (fun heq : t = oldest => .inr (congrArg Prod.fst heq))
        fun ht => ⟨t, ht, rfl⟩
  · rw [hdropped, List.mem_append, List.mem_singleton] at hi
    rcases hi with hi | rfl
    · exact ⟨(h.disjoint i hi).1, fun t ht => (h.disjoint i hi).2 t (hsub.mem ht)⟩
    · refine ⟨h.lt_length holdest, fun t ht => ?_⟩
      rw [hkept', List.mem_append] at ht
      have hordered := h.ordered
      rw [hkept, List.pairwise_append, List.pairwise_cons] at hordered
      rcases ht with htaken | hrest
      · exact (hordered.2.2 t htaken oldest (List.mem_cons_self ..)).ne
      · exact (hordered.2.1.1 t hrest).ne'
  · rw [hdropped, List.mem_append, List.mem_singleton] at hi
    rcases hi with hi | rfl
    · obtain ⟨m, hm, hmark, hsame⟩ := h.marked i hi hclosed
      refine ⟨m, (hother m hm).resolve_left fun heq => ?_, hmark, hsame⟩
      exact hinner.2 (heq ▸ hmark)
    · obtain ⟨m, hm, hmark, hsame⟩ := hmarked hclosed
      exact ⟨m, hkept' ▸ List.mem_append_right _ hm, hmark, hsame⟩

/-- The packet of the oldest element is open when nothing that is queued is an end or a mark, and
has a mark that is queued when that comes before all ends. -/
theorem discard_of_admits (hcapacity : 0 < capacity) (hfull : capacity ≤ q.queued.length)
    (hadmits : Admits isEnd mark capacity (q.queued.map Prod.snd) q.overflowed a)
    (hskip : ¬(q.overflowed = true ∧ isEnd a = false)) :
    q.discard.Marked isEnd mark ∧ ((∃ i ∈ q.discard.dropped,
      packetIndex isEnd q.elements i = q.elements.countP isEnd) → isEnd a = true →
        q.overflowed = true) := by
  obtain ⟨oldest, rest, hqueued⟩ : ∃ oldest rest, q.queued = oldest :: rest :=
    List.exists_cons_of_length_pos (hcapacity.trans_le hfull)
  have hdropped : q.discard.dropped = q.dropped ++ [oldest.1] := by
    rw [MarkedQueue.discard, hqueued]
    rfl
  have holdest : oldest ∈ q.queued := hqueued ▸ List.mem_cons_self ..
  rcases hadmits with hskipped | hplace | ⟨hinner, hend⟩ | ⟨first, inner, last, hcontents, hinner⟩
  · exact absurd hskipped hskip
  · rw [List.length_map] at hplace
    exact absurd hfull (Nat.not_le_of_lt hplace)
  · refine ⟨h.discard hqueued (hinner _ (List.mem_map_of_mem holdest)) fun hclosed => ?_,
      fun _ => hend⟩
    obtain ⟨e, he, hle, hclosing, -⟩ := h.exists_closing hclosed
    rcases List.mem_append.mp he with htaken | hmem
    · exact absurd (h.lt_of_mem htaken holdest) (Nat.not_lt_of_le hle)
    · exact absurd (hinner _ (List.mem_map_of_mem hmem)) hclosing
  · rw [hqueued, List.map_cons, List.cons_append, List.cons.injEq] at hcontents
    obtain ⟨hfirst, hrest⟩ := hcontents
    obtain ⟨newer, later, rfl, hnewer, hlater⟩ := List.map_eq_append_iff.mp hrest
    obtain ⟨m, final, rfl, hmark, -⟩ := List.map_eq_cons_iff.mp hlater
    have hm : m ∈ newer ++ m :: final := List.mem_append_right _ (List.mem_cons_self ..)
    have hmkept : m ∈ q.kept := List.mem_append_right _ (hqueued ▸ List.mem_cons_of_mem _ hm)
    obtain ⟨c, hc, hend⟩ := h.exists_isEnd hmkept (hmark ▸ not_inner_mark)
    have hordered := (List.pairwise_append.mp h.ordered).2.1
    rw [hqueued, List.pairwise_cons] at hordered
    have hmclosed : packetIndex isEnd q.elements m.1 < q.elements.countP isEnd :=
      packetIndex_lt_countP hc hend
    have hole : packetIndex isEnd q.elements oldest.1 ≤ packetIndex isEnd q.elements m.1 :=
      packetIndex_mono (hordered.1 m hm).le
    have hmarked : packetIndex isEnd q.elements m.1 = packetIndex isEnd q.elements oldest.1 := by
      obtain ⟨e, he, hle, hclosing, hsame⟩ := h.exists_closing (hole.trans_lt hmclosed)
      rw [kept, hqueued, List.mem_append, List.mem_cons, List.mem_append, List.mem_cons] at he
      rcases he with htaken | rfl | hnew | rfl | hfinal
      · exact absurd (h.lt_of_mem htaken holdest) (Nat.not_lt_of_le hle)
      · exact absurd (hinner _ (hfirst ▸ List.mem_cons_self ..)) hclosing
      · refine absurd (hinner _ (List.mem_cons_of_mem _ ?_)) hclosing
        exact hnewer ▸ List.mem_map_of_mem hnew
      · exact hsame
      · have hafter := (List.pairwise_append.mp hordered.2).2.1
        rw [List.pairwise_cons] at hafter
        have hlt : packetIndex isEnd q.elements m.1 < packetIndex isEnd q.elements e.1 :=
          packetIndex_lt hc hend (hafter.1 e hfinal)
        omega
    refine ⟨h.discard hqueued (hinner _ (hfirst ▸ List.mem_cons_self ..)) fun _ =>
      ⟨m, hm, hmark, hmarked⟩, ?_⟩
    rintro ⟨i, hi, hopen⟩ -
    rw [hdropped, List.mem_append, List.mem_singleton] at hi
    rcases hi with hi | rfl
    · exact h.pending i hi hopen
    · omega

/-- A put that is admitted keeps the queue consistent. -/
theorem put (hcapacity : 0 < capacity) (ha : a ≠ mark)
    (hadmits : Admits isEnd mark capacity (q.queued.map Prod.snd) q.overflowed a) :
    (q.put isEnd mark capacity a).Consistent isEnd mark := by
  rw [MarkedQueue.put]
  split_ifs with hskip hfull hoverflowed hoverflowed
  · exact h.skip ha hskip.2 hskip.1
  · obtain ⟨hmarked, -⟩ := h.discard_of_admits hcapacity hfull hadmits hskip
    refine hmarked.append ha (.inr ⟨?_, rfl⟩) fun _ _ _ => ?_
    · exact Bool.eq_true_of_not_eq_false fun hend => hskip ⟨hoverflowed, hend⟩
    · split_ifs <;> rfl
  · obtain ⟨hmarked, hopen⟩ := h.discard_of_admits hcapacity hfull hadmits hskip
    refine hmarked.append ha (.inl rfl) fun i hi hlast => ?_
    split_ifs with hend
    · exact absurd (hopen ⟨i, hi, hlast⟩ hend) hoverflowed
    · rfl
  · have hend : isEnd a = true :=
      Bool.eq_true_of_not_eq_false fun hend => hskip ⟨hoverflowed, hend⟩
    exact h.toMarked.append ha (.inr ⟨hend, rfl⟩) fun _ _ _ => by rw [if_pos hend]
  · exact h.toMarked.append ha (.inl rfl) fun i hi hlast => absurd (h.pending i hi hlast) hoverflowed

theorem take (n : ℕ) : (q.take n).Consistent isEnd mark := by
  have hkept : (q.take n).kept = q.kept := by
    rw [kept, MarkedQueue.take, List.append_assoc, List.take_append_drop, kept]
  exact ⟨⟨⟨hkept ▸ h.ordered, hkept ▸ h.entries, hkept ▸ h.complete, hkept ▸ h.disjoint⟩,
    hkept ▸ h.marked, h.unmarked⟩, h.pending⟩

end

theorem empty : (empty : MarkedQueue α).Consistent isEnd mark where
  ordered := .nil
  entries _ ht := absurd ht List.not_mem_nil
  complete _ hi := absurd hi (Nat.not_lt_zero _)
  disjoint _ hi := absurd hi List.not_mem_nil
  marked _ hi := absurd hi List.not_mem_nil
  pending _ hi := absurd hi List.not_mem_nil
  unmarked := List.not_mem_nil

/-! ### What a reader gets -/

section

variable (h : q.Consistent isEnd mark)

include h

theorem eq_of_fst_eq (ht : t ∈ q.kept) (he : e ∈ q.kept) (heq : t.1 = e.1) : t = e := by
  have hnodup : (q.kept.map Prod.fst).Nodup :=
    List.pairwise_map.mpr (h.ordered.imp fun hlt => hlt.ne)
  exact List.inj_on_of_nodup_map hnodup ht he heq

/-- What is older than something that was taken was taken before it. -/
theorem mem_before {before after : List (ℕ × α)} (htaken : q.taken = before ++ t :: after)
    (he : e ∈ q.kept) (hlt : e.1 < t.1) : e ∈ before := by
  have hordered := h.ordered
  rw [kept, htaken, List.append_assoc, List.cons_append] at hordered he
  rw [List.pairwise_append, List.pairwise_cons] at hordered
  rcases List.mem_append.mp he with hbefore | hafter
  · exact hbefore
  · rcases List.mem_cons.mp hafter with rfl | hafter
    · exact absurd hlt (Nat.lt_irrefl _)
    · exact absurd hlt (Nat.lt_asymm (hordered.2.1.1 e hafter))

theorem lossMarked (hmark : isEnd mark = false) : q.LossMarked isEnd mark := by
  intro i hi before t after htaken hcase
  have ht : t ∈ q.kept := by
    rw [kept, htaken]
    exact List.mem_append_left _ (List.mem_append_right _ (List.mem_cons_self ..))
  have hend : isEnd t.2 = true → ∃ a, q.elements[t.1]? = some a ∧ isEnd a = true := fun hend =>
    h.exists_isEnd ht fun hinner => absurd hend (by rw [hinner.1]; decide)
  have hclosed : packetIndex isEnd q.elements i < q.elements.countP isEnd := by
    rcases hcase with hlater | ⟨hsame, hlast⟩
    · exact hlater.trans_le packetIndex_le
    · obtain ⟨a, ha, hisEnd⟩ := hend hlast
      exact hsame ▸ packetIndex_lt_countP ha hisEnd
  obtain ⟨m, hm, hmarked, hpacket⟩ := h.marked i hi hclosed
  refine ⟨m, h.mem_before htaken hm ?_, hmarked, hpacket⟩
  rcases hcase with hlater | ⟨hsame, hlast⟩
  · by_contra hle
    have hmono : packetIndex isEnd q.elements t.1 ≤ packetIndex isEnd q.elements m.1 :=
      packetIndex_mono (Nat.le_of_not_lt hle)
    omega
  · obtain ⟨a, ha, hisEnd⟩ := hend hlast
    obtain ⟨b, hb, hmend⟩ := h.exists_isEnd hm (hmarked ▸ not_inner_mark)
    have heq := h.eq_of_fst_eq hm ht (eq_of_packetIndex_eq hb hmend ha hisEnd (hpacket.trans hsame))
    rw [← heq, hmarked, hmark] at hlast
    exact absurd hlast (by decide)

/-- A packet of which nothing was dropped is kept as it was put. -/
theorem filter_kept {k : ℕ} (hdropped : ∀ i ∈ q.dropped, packetIndex isEnd q.elements i ≠ k)
    (hmark : ∀ t ∈ q.kept, packetIndex isEnd q.elements t.1 = k → t.2 ≠ mark) :
    (q.kept.filter fun t => packetIndex isEnd q.elements t.1 = k).map Prod.snd =
      packet isEnd k q.elements := by
  have hpositions : (q.kept.filter fun t => packetIndex isEnd q.elements t.1 = k).map Prod.fst =
      (List.range q.elements.length).filter fun i => packetIndex isEnd q.elements i = k := by
    refine List.Pairwise.eq_of_mem_iff (r := (· < ·))
      (List.pairwise_map.mpr (h.ordered.filter _)) (List.pairwise_lt_range.filter _) fun i => ?_
    simp only [List.mem_map, List.mem_filter, decide_eq_true_eq, List.mem_range]
    constructor
    · rintro ⟨t, ⟨ht, hk⟩, rfl⟩
      exact ⟨h.lt_length ht, hk⟩
    · rintro ⟨hi, hk⟩
      obtain ⟨t, ht, rfl⟩ := (h.complete i hi).resolve_left fun hmem => hdropped i hmem hk
      exact ⟨t, ⟨ht, hk⟩, rfl⟩
  rw [packet_eq_filterMap, ← hpositions, List.filterMap_map, eq_comm,
    List.filterMap_eq_map_iff_forall_eq_some]
  intro t ht
  obtain ⟨ht, hk⟩ := List.mem_filter.mp ht
  obtain ⟨a, ha, heq | ⟨-, heq⟩⟩ := h.entries t ht
  · exact ha.trans (congrArg some heq.symm)
  · exact absurd heq (hmark t ht (of_decide_eq_true hk))

/-- What comes from one end to the next is one packet, when no mark is in it. -/
theorem filter_between {old new later : List (ℕ × α)}
    (hkept : q.kept = old ++ (new ++ [t]) ++ later) (ht : isEnd t.2 = true)
    (hold : ∀ e ∈ old.getLast?, isEnd e.2 = true) (hnew : ∀ e ∈ new, Inner isEnd mark e.2) :
    (q.kept.filter fun e =>
      packetIndex isEnd q.elements e.1 = packetIndex isEnd q.elements t.1) = new ++ [t] := by
  have hordered := h.ordered
  rw [hkept, List.pairwise_append, List.pairwise_append, List.pairwise_append] at hordered
  obtain ⟨⟨holder, ⟨-, -, hnewt⟩, holdnew⟩, -, hlater⟩ := hordered
  have hend : ∀ e ∈ q.kept, isEnd e.2 = true →
      ∃ a, q.elements[e.1]? = some a ∧ isEnd a = true := fun e he hisEnd =>
    h.exists_isEnd he fun hinner => absurd hisEnd (by rw [hinner.1]; decide)
  obtain ⟨a, ha, haend⟩ := hend t (by rw [hkept]; simp) ht
  have hafter : ∀ e ∈ later,
      packetIndex isEnd q.elements t.1 < packetIndex isEnd q.elements e.1 := fun e he =>
    packetIndex_lt ha haend (hlater t (by simp) e he)
  have hbefore : ∀ e ∈ old,
      packetIndex isEnd q.elements e.1 < packetIndex isEnd q.elements t.1 := by
    intro e he
    rcases List.eq_nil_or_concat' old with rfl | ⟨init, u, rfl⟩
    · exact absurd he List.not_mem_nil
    · obtain ⟨b, hb, hbend⟩ := hend u (by rw [hkept]; simp) (hold u (by simp))
      have hle : e.1 ≤ u.1 := by
        rcases List.mem_append.mp he with hinit | hlast
        · exact ((List.pairwise_append.mp holder).2.2 e hinit u (List.mem_singleton_self u)).le
        · rw [List.mem_singleton.mp hlast]
      exact (packetIndex_mono hle).trans_lt
        (packetIndex_lt hb hbend (holdnew u (by simp) t (by simp)))
  have hinside : ∀ e ∈ new,
      packetIndex isEnd q.elements e.1 = packetIndex isEnd q.elements t.1 := by
    intro e he
    have hle : packetIndex isEnd q.elements e.1 ≤ packetIndex isEnd q.elements t.1 :=
      packetIndex_mono (hnewt e he t (List.mem_singleton_self t)).le
    refine (Nat.eq_or_lt_of_le hle).resolve_right fun hlt => ?_
    -- an earlier packet would have been closed in between
    obtain ⟨c, hc, hec, hclosing, hsame⟩ := h.exists_closing (hlt.trans_le packetIndex_le)
    rw [hkept, List.mem_append, List.mem_append, List.mem_append, List.mem_singleton] at hc
    rcases hc with (hcold | hcnew | rfl) | hclater
    · exact absurd (holdnew c hcold e (List.mem_append_left _ he)) (Nat.not_lt_of_le hec)
    · exact hclosing (hnew c hcnew)
    · exact absurd hsame hlt.ne'
    · have := hafter c hclater
      omega
  rw [hkept, List.filter_append, List.filter_append, List.filter_eq_nil_iff.mpr,
    List.filter_eq_self.mpr, List.filter_eq_nil_iff.mpr, List.nil_append, List.append_nil]
  · exact fun e he => by simpa using (hafter e he).ne'
  · intro e he
    rcases List.mem_append.mp he with he | he
    · exact decide_eq_true (hinside e he)
    · rw [List.mem_singleton.mp he]
      exact decide_eq_true rfl
  · exact fun e he => by simpa using (hbefore e he).ne

/-- Packets are whole, or have a mark in them. -/
theorem packetsWhole (hmark : isEnd mark = false) :
    PacketsWhole isEnd mark (q.taken.map Prod.snd) q.elements := by
  intro before inner last after htaken hlast hbefore hinner
  by_cases hmarked : mark ∈ inner
  · exact .inl hmarked
  refine .inr ?_
  obtain ⟨front, back, hfront, hback, hafter⟩ := List.map_eq_append_iff.mp htaken
  obtain ⟨old, new, rfl, rfl, rfl⟩ := List.map_eq_append_iff.mp hback
  obtain ⟨t, rest, rfl, rfl, -⟩ := List.map_eq_cons_iff.mp hafter
  have hkept : q.kept = old ++ (new ++ [t]) ++ (rest ++ q.queued) := by
    rw [kept, hfront]
    simp
  have hnew : ∀ e ∈ new, Inner isEnd mark e.2 := fun e he =>
    ⟨hinner _ (List.mem_map_of_mem he), fun heq => hmarked (heq ▸ List.mem_map_of_mem he)⟩
  have hold : ∀ e ∈ old.getLast?, isEnd e.2 = true := fun e he =>
    hbefore e.2 (by rw [List.getLast?_map, Option.mem_def.mp he]; rfl)
  have hpacket := h.filter_between hkept hlast hold hnew
  have hinside : ∀ e ∈ q.kept,
      packetIndex isEnd q.elements e.1 = packetIndex isEnd q.elements t.1 → e ∈ new ++ [t] :=
    fun e he heq => hpacket ▸ List.mem_filter.mpr ⟨he, decide_eq_true heq⟩
  have hunmarked : ∀ e ∈ new ++ [t], e.2 ≠ mark := fun e he heq => by
    rcases List.mem_append.mp he with he | he
    · exact (hnew e he).2 heq
    · rw [List.mem_singleton.mp he] at heq
      rw [heq, hmark] at hlast
      exact absurd hlast (by decide)
  refine ⟨packetIndex isEnd q.elements t.1, ?_⟩
  rw [← h.filter_kept (fun i hi heq => ?_) fun e he heq => hunmarked e (hinside e he heq), hpacket,
    List.map_append, List.map_singleton]
  obtain ⟨m, hm, hmarkeq, hsame⟩ := h.lossMarked hmark i hi (old ++ new) t rest hfront
    (.inr ⟨heq, hlast⟩)
  have hmkept : m ∈ q.kept := by
    rw [kept, hfront]
    exact List.mem_append_left _ (List.mem_append_left _ hm)
  exact hunmarked m (hinside m hmkept (hsame.trans heq)) hmarkeq

end

end Consistent

/-! ### Queues with place -/

theorem put_of_lt (hoverflowed : q.overflowed = false) (hplace : q.queued.length < capacity) :
    q.put isEnd mark capacity a = q.append a a false := by
  rw [put, hoverflowed, if_neg fun h => absurd h.1 (by decide), if_neg (Nat.not_le_of_lt hplace)]
  rfl

/-- As long as there is place, elements are queued as they are put. -/
theorem foldl_put_of_le {l : List α} (hoverflowed : q.overflowed = false)
    (hplace : q.queued.length + l.length ≤ capacity) :
    l.foldl (fun q a => q.put isEnd mark capacity a) q =
      ⟨q.elements ++ l, q.queued ++ (l.zipIdx q.elements.length).map Prod.swap, q.taken, q.dropped,
        false⟩ := by
  induction l generalizing q with
  | nil => simp [← hoverflowed]
  | cons a l ih =>
    rw [List.length_cons] at hplace
    rw [List.foldl_cons, put_of_lt hoverflowed (by omega), ih rfl]
    · simp [append]
    · rw [append, List.length_append, List.length_singleton]
      omega

end MarkedQueue

end TwistedOS
