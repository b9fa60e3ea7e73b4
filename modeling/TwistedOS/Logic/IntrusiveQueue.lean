import TwistedOS.Data.TailedChain
import TwistedOS.Logic.ProcessQueues

/-!
# Intrusive queues

`IntrusiveQueue` is the queue of the scheduler, of the sleepers, of the waits for terminal input and
for futexes, and of the event queues with their watches and events. It keeps its first and its last
node; the links are members of the nodes themselves. Whatever sequence of its operations is run, its
head, its tail and the links are those of the list that the same operations on lists give.

The loops run with a bound on their rounds, and an operation whose loop is not done by then has no
result. Every bound that is not smaller than the number of operations run is large enough.

## Main definitions

* `IntrusiveQueue`, with `pushBack`, `popFront`, `remove`, `findFirst`, `rotateFrontToBack` and
  `iterate`, the loop over the nodes that may remove the current one.
* `QueueOperation.onList`: the operations on lists.
* `IntrusiveQueue.RefinesList`

## Main results

* `IntrusiveQueue.refinesList_run`
-/

namespace TwistedOS

/-- `IntrusiveQueue`, and the links of the nodes in memory. A pointer is a value of `α`. -/
structure IntrusiveQueue (α : Type*) where
  headNode : α
  tailNode : α
  next : α → α

/-- What the body of a loop over a queue does at a node: it may remove the node, and leave the
loop. -/
structure Visit where
  removes : Bool
  stops : Bool
  deriving DecidableEq, Repr

namespace IntrusiveQueue

variable {α V : Type*} [DecidableEq α] [DecidableEq V] (null : α) (q : IntrusiveQueue α)

/-- The constructor. -/
def empty (next : α → α) : IntrusiveQueue α := ⟨null, null, next⟩

/-- `NextOf(Node) = value`. -/
def setNext (node value : α) : IntrusiveQueue α :=
  { q with next := Function.update q.next node value }

/-- `IsEmpty`. -/
def isEmpty : Bool := q.headNode = null

/-- `Head`. -/
def head : α := q.headNode

/-- `Next`. -/
def nextNode (node : α) : α := if node = null then null else q.next node

/-- `PushBack`. -/
def pushBack (node : α) : IntrusiveQueue α :=
  if node = null then q
  else
    let q := q.setNext node null
    if q.tailNode = null then { q with headNode := node, tailNode := node }
    else { q.setNext q.tailNode node with tailNode := node }

/-- `PopFront`. -/
def popFront : α × IntrusiveQueue α :=
  if q.headNode = null then (null, q)
  else
    let node := q.headNode
    let q := { q with headNode := q.next node }
    let q := if q.headNode = null then { q with tailNode := null } else q
    (node, q.setNext node null)

/-- The loop of `Remove`, from `previous` on: the node before `node`, or null. -/
def findPrevious (node : α) : ℕ → α → Option α
  | 0, _ => none
  | fuel + 1, previous =>
    if previous ≠ null ∧ q.next previous ≠ node then findPrevious node fuel (q.next previous)
    else some previous

/-- `Remove`. -/
def remove (fuel : ℕ) (node : α) : Option (Bool × IntrusiveQueue α) :=
  if node = null ∨ q.headNode = null then some (false, q)
  else if q.headNode = node then some (true, (q.popFront null).2)
  else
    (q.findPrevious null node fuel q.headNode).map fun previous =>
      if previous = null then (false, q)
      else
        let q := q.setNext previous (q.next node)
        let q := if q.tailNode = node then { q with tailNode := previous } else q
        (true, q.setNext node null)

/-- `FindFirst`, from `node` on: the first node whose member has the value, or null. -/
def findFirstFrom (member : α → V) (value : V) : ℕ → α → Option α
  | 0, _ => none
  | fuel + 1, node =>
    if node = null then some null
    else if member node = value then some node
    else findFirstFrom member value fuel (q.next node)

/-- `FindFirst`. -/
def findFirst (fuel : ℕ) (member : α → V) (value : V) : Option α :=
  q.findFirstFrom null member value fuel q.headNode

/-- `RotateFrontToBack`. -/
def rotateFrontToBack : IntrusiveQueue α :=
  if q.headNode = null ∨ q.headNode = q.tailNode then q
  else (q.popFront null).2.pushBack null (q.popFront null).1

/-- A loop over the nodes that saves the successor of a node before it visits the node: the nodes
visited from `node` on. -/
def iterateFrom (visit : α → Visit) (fuel : ℕ) :
    ℕ → IntrusiveQueue α → α → Option (List α × IntrusiveQueue α)
  | 0, _, _ => none
  | rounds + 1, q, node =>
    if node = null then some ([], q)
    else
      let saved := q.nextNode null node
      let removed :=
        if (visit node).removes then (q.remove null fuel node).map Prod.snd else some q
      removed.bind fun q =>
        if (visit node).stops then some ([node], q)
        else (iterateFrom visit fuel rounds q saved).map fun r => (node :: r.1, r.2)

/-- A loop over the nodes, from the head. -/
def iterate (visit : α → Visit) (fuel : ℕ) : Option (List α × IntrusiveQueue α) :=
  iterateFrom null visit fuel fuel q (q.head)

end IntrusiveQueue

/-- A call of an operation of a queue, or a loop over it. -/
inductive QueueOperation (α V : Type*)
  | pushBack (node : α)
  | popFront
  | remove (node : α)
  | findFirst (member : α → V) (value : V)
  | rotateFrontToBack
  | iterate (visit : α → Visit)

/-- What an operation returns. -/
inductive QueueResult (α : Type*)
  | done
  | node (a : α)
  | flag (b : Bool)
  | visited (l : List α)
  deriving DecidableEq, Repr

namespace QueueOperation

variable {α V : Type*} [DecidableEq α] [DecidableEq V] (null : α)

/-- The nodes that are visited, and those that stay. -/
def iterateList (visit : α → Visit) : List α → List α × List α
  | [] => ([], [])
  | a :: l =>
    let kept := if (visit a).removes then [] else [a]
    if (visit a).stops then ([a], kept ++ l)
    else (a :: (iterateList visit l).1, kept ++ (iterateList visit l).2)

/-- The operation on the list of the nodes of a queue. -/
def onList (l : List α) : QueueOperation α V → QueueResult α × List α
  | pushBack node => (.done, if node = null then l else l ++ [node])
  | popFront => (.node (l.head?.getD null), l.tail)
  | remove node => (.flag (node ∈ l), l.erase node)
  | findFirst member value => (.node ((l.find? fun a => member a = value).getD null), l)
  | rotateFrontToBack => (.done, l.rotate 1)
  | iterate visit => (.visited (iterateList visit l).1, (iterateList visit l).2)

/-- The node that an operation puts into the queue. -/
def pushed? : QueueOperation α V → Option α
  | pushBack node => if node = null then none else some node
  | _ => none

/-- The operations on the list, one after the other. -/
def runOnList : List (QueueOperation α V) → List α → List (QueueResult α) × List α
  | [], l => ([], l)
  | operation :: operations, l =>
    ((operation.onList null l).1 :: (runOnList operations (operation.onList null l).2).1,
      (runOnList operations (operation.onList null l).2).2)

/-- No operation puts a node into the queue that is there already. -/
def PushesNewNodes : List (QueueOperation α V) → List α → Prop
  | [], _ => True
  | operation :: operations, l =>
    (∀ a ∈ operation.pushed? null, a ∉ l) ∧ PushesNewNodes operations (operation.onList null l).2

end QueueOperation

namespace IntrusiveQueue

variable {α V : Type*} [DecidableEq α] [DecidableEq V] (null : α) (q : IntrusiveQueue α)

/-- An operation. -/
def apply (fuel : ℕ) : QueueOperation α V → Option (QueueResult α × IntrusiveQueue α)
  | .pushBack node => some (.done, q.pushBack null node)
  | .popFront => some (.node (q.popFront null).1, (q.popFront null).2)
  | .remove node => (q.remove null fuel node).map fun r => (.flag r.1, r.2)
  | .findFirst member value => (q.findFirst null fuel member value).map fun a => (.node a, q)
  | .rotateFrontToBack => some (.done, q.rotateFrontToBack null)
  | .iterate visit => (q.iterate null visit fuel).map fun r => (.visited r.1, r.2)

/-- A sequence of operations. -/
def run (fuel : ℕ) : List (QueueOperation α V) → IntrusiveQueue α →
    Option (List (QueueResult α) × IntrusiveQueue α)
  | [], q => some ([], q)
  | operation :: operations, q =>
    (q.apply null fuel operation).bind fun r =>
      (run fuel operations r.2).map fun rest => (r.1 :: rest.1, rest.2)

/-- The fields of a queue represent a list of nodes. -/
def Represents (l : List α) : Prop := TailedChain q.next null q.headNode q.tailNode l

/-- What an operation did to the memory: the queue represents a new list, a node that is not in it
any more has a null link, and the links of all other nodes are as before. -/
structure Turns (q' : IntrusiveQueue α) (l l' : List α) : Prop where
  represents : q'.Represents null l'
  left : ∀ a ∈ l, a ∉ l' → q'.next a = null
  others : ∀ a ∉ l, a ∉ l' → q'.next a = q.next a

/-- The queue is exactly the list: head, tail and links represent it, its nodes are distinct,
nothing is behind the tail, and the tail is null when there is no node; a node that was put into the
queue and is not in it any more has a null link. -/
structure RefinesList (pushed l : List α) : Prop where
  represents : LinkedChain q.next null q.headNode l
  distinct : l.Nodup
  tail_eq : q.tailNode = l.getLastD null
  next_tail : l ≠ [] → q.next q.tailNode = null
  tail_eq_null_iff : q.tailNode = null ↔ l = []
  left : ∀ a ∈ pushed, a ∉ l → q.next a = null

variable {null q} {q₁ q₂ q₃ : IntrusiveQueue α} {l l₁ l₂ l₃ kept : List α} {a b : α} {fuel : ℕ}

/-! ### The stores of the operations -/

theorem pushBack_of_tail_eq_null (ha : a ≠ null) (ht : q.tailNode = null) :
    q.pushBack null a = ⟨a, a, Function.update q.next a null⟩ :=
  (if_neg ha).trans (if_pos ht)

theorem pushBack_of_tail_ne_null (ha : a ≠ null) (ht : q.tailNode ≠ null) :
    q.pushBack null a =
      ⟨q.headNode, a, Function.update (Function.update q.next a null) q.tailNode a⟩ :=
  (if_neg ha).trans (if_neg ht)

theorem popFront_of_ne_null (hh : q.headNode ≠ null) :
    q.popFront null = (q.headNode, ⟨q.next q.headNode,
      if q.next q.headNode = null then null else q.tailNode,
      Function.update q.next q.headNode null⟩) := by
  rw [popFront, if_neg hh]
  by_cases hnext : q.next q.headNode = null <;> simp [hnext, setNext]

theorem remove_of_findPrevious (ha : a ≠ null) (hh : q.headNode ≠ null) (hha : q.headNode ≠ a)
    (hfind : q.findPrevious null a fuel q.headNode = some b) (hb : b ≠ null) :
    q.remove null fuel a = some (true, ⟨q.headNode, if q.tailNode = a then b else q.tailNode,
      Function.update (Function.update q.next b (q.next a)) a null⟩) := by
  rw [remove, if_neg (not_or.mpr ⟨ha, hh⟩), if_neg hha, hfind, Option.map_some, if_neg hb]
  by_cases ht : q.tailNode = a <;> simp [ht, setNext]

/-! ### The loops -/

/-- The loop of `Remove` over nodes that are not followed by the node: it ends at null. -/
theorem findPrevious_of_notMem {next : α → α} (hchain : LinkedChain next null b l)
    (hnext : q.next = next) (ha : a ≠ null) (hout : ∀ c ∈ l, next c ≠ a) (hfuel : l.length < fuel) :
    q.findPrevious null a fuel b = some null := by
  induction l generalizing b fuel with
  | nil =>
    obtain ⟨fuel, rfl⟩ := Nat.exists_eq_add_of_lt hfuel
    obtain rfl : b = null := hchain
    exact if_neg fun h => h.1 rfl
  | cons c l ih =>
    obtain ⟨rfl, hb, htail⟩ := hchain
    cases fuel with
    | zero => exact absurd hfuel (Nat.not_lt_zero _)
    | succ fuel =>
      have hgo : b ≠ null ∧ q.next b ≠ a := ⟨hb, hnext ▸ hout b List.mem_cons_self⟩
      rw [findPrevious, if_pos hgo, hnext]
      exact ih htail (fun c hc => hout c (List.mem_cons_of_mem b hc)) (Nat.lt_of_succ_lt_succ hfuel)

/-- The loop of `Remove` stops at the node before the node. -/
theorem findPrevious_of_mem {c : α} (hchain : LinkedChain q.next null b (l₁ ++ c :: a :: l₂))
    (hfuel : l₁.length < fuel) : q.findPrevious null a fuel b = some c := by
  induction l₁ generalizing b fuel with
  | nil =>
    obtain ⟨rfl, -, hnext, -⟩ := hchain
    cases fuel with
    | zero => exact absurd hfuel (Nat.not_lt_zero _)
    | succ fuel => exact if_neg fun h => h.2 hnext
  | cons d l₁ ih =>
    have hnodup := hchain.nodup
    obtain ⟨rfl, hb, htail⟩ := hchain
    cases fuel with
    | zero => exact absurd hfuel (Nat.not_lt_zero _)
    | succ fuel =>
      have hgo : b ≠ null ∧ q.next b ≠ a := by
        refine ⟨hb, fun hba => ?_⟩
        cases l₁ with
        | nil =>
          obtain rfl : a = c := hba.symm.trans htail.1
          simp at hnodup
        | cons d l₁ =>
          obtain rfl : a = d := hba.symm.trans htail.1
          simp at hnodup
      rw [findPrevious, if_pos hgo]
      exact ih htail (Nat.lt_of_succ_lt_succ hfuel)

theorem findFirstFrom_of_chain (hchain : LinkedChain q.next null b l) (member : α → V) (value : V)
    (hfuel : l.length < fuel) : q.findFirstFrom null member value fuel b =
      some ((l.find? fun a => member a = value).getD null) := by
  induction l generalizing b fuel with
  | nil =>
    obtain rfl : b = null := hchain
    cases fuel with
    | zero => exact absurd hfuel (Nat.not_lt_zero _)
    | succ fuel => exact if_pos rfl
  | cons a l ih =>
    obtain ⟨rfl, hb, htail⟩ := hchain
    cases fuel with
    | zero => exact absurd hfuel (Nat.not_lt_zero _)
    | succ fuel =>
      rw [findFirstFrom, if_neg hb]
      by_cases hvalue : member b = value
      · rw [if_pos hvalue, List.find?_cons_of_pos (by simpa using hvalue), Option.getD_some]
      · rw [if_neg hvalue, List.find?_cons_of_neg (by simpa using hvalue)]
        exact ih htail (Nat.lt_of_succ_lt_succ hfuel)

/-! ### One operation -/

theorem Turns.trans (h₁ : q₁.Turns null q₂ l₁ l₂) (h₂ : q₂.Turns null q₃ l₂ l₃) (hsub : l₂ ⊆ l₁) :
    q₁.Turns null q₃ l₁ l₃ where
  represents := h₂.represents
  left a ha ha₃ := by
    by_cases ha₂ : a ∈ l₂
    · exact h₂.left a ha₂ ha₃
    · rw [h₂.others a ha₂ ha₃]
      exact h₁.left a ha ha₂
  others a ha ha₃ := by
    have ha₂ : a ∉ l₂ := fun hmem => ha (hsub hmem)
    rw [h₂.others a ha₂ ha₃, h₁.others a ha ha₂]

namespace Represents

omit [DecidableEq α] in
theorem turns_self (h : q.Represents null l) : q.Turns null q l l :=
  ⟨h, fun _ ha hna => absurd ha hna, fun _ _ _ => rfl⟩

omit [DecidableEq α] in
theorem headNode_eq_null_iff (h : q.Represents null l) : q.headNode = null ↔ l = [] :=
  h.chain.head_eq_null_iff

theorem pushBack (h : q.Represents null l) (hnew : a ∉ l) (hne : a ≠ null) :
    q.Turns null (q.pushBack null a) l (l ++ [a]) := by
  by_cases htail : q.tailNode = null
  · obtain rfl := h.tail_eq_null_iff.mp htail
    rw [pushBack_of_tail_eq_null hne htail]
    refine ⟨.singleton hne, by simp, fun b _ hb => ?_⟩
    exact Function.update_of_ne (by simpa using hb) ..
  · have hmem : q.tailNode ∈ l := h.tail_mem (mt h.tail_eq_null_iff.mpr htail)
    rw [pushBack_of_tail_ne_null hne htail]
    refine ⟨TailedChain.snoc h htail hnew hne,
      fun b hb hnb => absurd (List.mem_append_left _ hb) hnb, fun b hb hnb => ?_⟩
    have hbt : b ≠ q.tailNode := fun heq => hb (heq ▸ hmem)
    have hba : b ≠ a := fun heq => hnb (by simp [heq])
    exact (Function.update_of_ne hbt ..).trans (Function.update_of_ne hba ..)

theorem popFront_nil (h : q.Represents null []) : q.popFront null = (null, q) :=
  if_pos (h.headNode_eq_null_iff.mpr rfl)

theorem popFront_fst (h : q.Represents null l) : (q.popFront null).1 = l.head?.getD null := by
  cases l with
  | nil => rw [h.popFront_nil]; rfl
  | cons a l =>
    have hhead : q.headNode = a := h.chain.1
    rw [popFront_of_ne_null (hhead ▸ h.chain.2.1)]
    exact hhead

theorem popFront (h : q.Represents null (a :: l)) :
    q.Turns null (q.popFront null).2 (a :: l) l := by
  obtain ⟨rfl, hne, -⟩ := h.chain
  rw [popFront_of_ne_null hne]
  refine ⟨TailedChain.tail h, fun b hb hnb => ?_, fun b hb _ => ?_⟩
  · obtain rfl : b = q.headNode := (List.mem_cons.mp hb).resolve_right hnb
    exact Function.update_self ..
  · have hbh : b ≠ q.headNode := fun heq => hb (heq ▸ List.mem_cons_self)
    exact Function.update_of_ne hbh ..

theorem rotateFrontToBack (h : q.Represents null l) :
    q.Turns null (q.rotateFrontToBack null) l (l.rotate 1) := by
  rw [IntrusiveQueue.rotateFrontToBack]
  rcases l with _ | ⟨a, _ | ⟨b, l⟩⟩
  · rw [if_pos (.inl (h.headNode_eq_null_iff.mpr rfl))]
    exact h.turns_self
  · rw [if_pos (.inr (h.chain.1.trans h.tail_eq.symm)), List.rotate_singleton]
    exact h.turns_self
  · have hnew : a ∉ b :: l := (List.nodup_cons.mp h.chain.nodup).1
    have hhead : q.headNode = a := h.chain.1
    have hpop := h.popFront
    have htail : q.tailNode ∈ b :: l := by
      rw [h.tail_eq, List.getLastD_cons, List.getLastD_cons]
      exact List.getLastD_mem_cons ..
    have hne : ¬(q.headNode = null ∨ q.headNode = q.tailNode) := by
      rintro (hnull | heq)
      · exact absurd (h.headNode_eq_null_iff.mp hnull) (by simp)
      · exact hnew (hhead ▸ heq ▸ htail)
    have hfst : (q.popFront null).1 = a := h.popFront_fst
    rw [if_neg hne, hfst, List.rotate_cons_succ, List.rotate_zero]
    exact hpop.trans (hpop.represents.pushBack hnew h.chain.2.1) (List.subset_cons_self ..)

/-- `Remove` of a node that comes behind another one. -/
theorem remove_behind {c : α} (h : q.Represents null (l₁ ++ c :: a :: l₂))
    (hfuel : l₁.length < fuel) : ∃ q', q.remove null fuel a = some (true, q') ∧
      q.Turns null q' (l₁ ++ c :: a :: l₂) (l₁ ++ c :: l₂) := by
  have ha : a ≠ null := h.chain.ne_null (by simp)
  have hc : c ≠ null := h.chain.ne_null (by simp)
  have hhead : q.headNode ≠ null := mt h.headNode_eq_null_iff.mp (by simp)
  have hnodup := h.chain.nodup
  have hfirst : q.headNode ≠ a := by
    rintro hha
    rw [h.chain.head_eq] at hha
    cases l₁ with
    | nil =>
      obtain rfl : c = a := hha
      simp at hnodup
    | cons d l₁ =>
      obtain rfl : d = a := hha
      simp at hnodup
  rw [remove_of_findPrevious ha hhead hfirst (findPrevious_of_mem h.chain hfuel) hc]
  refine ⟨_, rfl, TailedChain.unlink h, fun b hb hnb => ?_, fun b hb _ => ?_⟩
  · obtain rfl : b = a := by
      simp only [List.mem_append, List.mem_cons, not_or] at hb hnb
      tauto
    exact Function.update_self ..
  · simp only [List.mem_append, List.mem_cons, not_or] at hb
    exact (Function.update_of_ne hb.2.2.1 ..).trans (Function.update_of_ne hb.2.1 ..)

/-- `Remove` of a node that is not in the queue. -/
theorem remove_of_notMem (h : q.Represents null l) (ha : a ∉ l) (hfuel : l.length < fuel) :
    q.remove null fuel a = some (false, q) := by
  by_cases hnull : a = null ∨ q.headNode = null
  · exact if_pos hnull
  have hfirst : q.headNode ≠ a := by
    rintro rfl
    obtain ⟨l', rfl, -⟩ := h.chain.exists_cons_of_ne_null (not_or.mp hnull).2
    exact ha List.mem_cons_self
  have hout : ∀ c ∈ l, q.next c ≠ a := by
    intro c hc heq
    rcases h.chain.next_mem hc with hnext | hnext
    · exact (not_or.mp hnull).1 (heq.symm.trans hnext)
    · exact ha (heq ▸ hnext)
  rw [IntrusiveQueue.remove, if_neg hnull, if_neg hfirst,
    findPrevious_of_notMem h.chain rfl (not_or.mp hnull).1 hout hfuel, Option.map_some, if_pos rfl]

/-- `Remove` takes out a node of the queue, and leaves the queue alone for every other one. -/
theorem remove (h : q.Represents null l) (a : α) (hfuel : l.length < fuel) :
    ∃ q', q.remove null fuel a = some (decide (a ∈ l), q') ∧ q.Turns null q' l (l.erase a) := by
  by_cases hmem : a ∈ l
  · rw [decide_eq_true hmem]
    obtain ⟨l₁, l₂, rfl⟩ := List.append_of_mem hmem
    rcases List.eq_nil_or_concat l₁ with rfl | ⟨l₁, c, rfl⟩
    · have hhead : q.headNode = a := h.chain.1
      have ha : a ≠ null := h.chain.2.1
      refine ⟨(q.popFront null).2, ?_, ?_⟩
      · rw [IntrusiveQueue.remove, if_neg (by simp [hhead, ha]), if_pos hhead]
      · rw [List.nil_append, List.erase_cons_head]
        exact h.popFront
    · have hassoc : l₁.concat c ++ a :: l₂ = l₁ ++ c :: a :: l₂ := by simp
      have herase : (l₁.concat c ++ a :: l₂).erase a = l₁ ++ c :: l₂ := by
        have hout : a ∉ l₁.concat c := fun hin =>
          (List.nodup_append.mp h.chain.nodup).2.2 a hin a List.mem_cons_self rfl
        rw [List.erase_append_right _ hout, List.erase_cons_head]
        simp
      rw [herase, hassoc]
      rw [hassoc] at h hfuel
      refine h.remove_behind (Nat.lt_of_le_of_lt ?_ hfuel)
      exact (List.sublist_append_left ..).length_le
  · rw [decide_eq_false hmem, List.erase_of_not_mem hmem]
    exact ⟨q, h.remove_of_notMem hmem hfuel, h.turns_self⟩

theorem nextNode_eq (h : q.Represents null (l₁ ++ a :: l₂)) :
    q.nextNode null a = l₂.head?.getD null :=
  (if_neg (h.chain.ne_null (by simp))).trans h.chain.next_eq

end Represents

/-! ### Loops over the nodes -/

omit [DecidableEq α] in
theorem iterateList_sublist (visit : α → Visit) (l : List α) :
    (QueueOperation.iterateList visit l).2.Sublist l := by
  induction l with
  | nil => exact List.Sublist.refl _
  | cons a l ih =>
    rw [QueueOperation.iterateList]
    cases (visit a).removes <;> cases (visit a).stops
    · exact ih.cons_cons a
    · exact List.Sublist.refl _
    · exact ih.trans (List.sublist_cons_self ..)
    · exact List.sublist_cons_self ..

/-- A loop over the nodes behind those that were kept. -/
theorem Represents.iterateFrom (visit : α → Visit) {rounds : ℕ}
    (h : q.Represents null (kept ++ l)) (hrounds : l.length < rounds)
    (hfuel : (kept ++ l).length < fuel) :
    ∃ q', q.iterateFrom null visit fuel rounds (l.head?.getD null) =
        some ((QueueOperation.iterateList visit l).1, q') ∧
      q.Turns null q' (kept ++ l) (kept ++ (QueueOperation.iterateList visit l).2) := by
  induction l generalizing q kept rounds with
  | nil =>
    cases rounds with
    | zero => exact absurd hrounds (Nat.not_lt_zero _)
    | succ rounds => exact ⟨q, if_pos rfl, h.turns_self⟩
  | cons a l ih =>
    cases rounds with
    | zero => exact absurd hrounds (Nat.not_lt_zero _)
    | succ rounds =>
    have hrounds' : l.length < rounds := Nat.lt_of_succ_lt_succ hrounds
    have hlength : (kept ++ a :: l).length = (kept ++ l).length + 1 := by
      simp only [List.length_append, List.length_cons]
      omega
    have ha : a ≠ null := h.chain.ne_null (by simp)
    have hsaved : q.nextNode null a = l.head?.getD null := h.nextNode_eq
    rw [List.head?_cons, Option.getD_some, IntrusiveQueue.iterateFrom, if_neg ha, hsaved,
      QueueOperation.iterateList]
    cases hremoves : (visit a).removes
    · -- the node is kept
      cases hstops : (visit a).stops
      · have hkept : kept ++ a :: l = (kept ++ [a]) ++ l := by simp
        rw [hkept] at h hfuel ⊢
        obtain ⟨q', hq', hturns⟩ := ih h hrounds' hfuel
        refine ⟨q', by simp [hq'], ?_⟩
        simpa using hturns
      · exact ⟨q, by simp, by simpa using h.turns_self⟩
    · -- the node is removed
      have hout : a ∉ kept := fun hin =>
        (List.nodup_append.mp h.chain.nodup).2.2 a hin a List.mem_cons_self rfl
      obtain ⟨q₁, hq₁, hturns₁⟩ := h.remove a hfuel
      rw [List.erase_append_right _ hout, List.erase_cons_head] at hturns₁
      cases hstops : (visit a).stops
      · obtain ⟨q', hq', hturns⟩ := ih hturns₁.represents hrounds' (by omega)
        refine ⟨q', by simp [hq₁, hq'], ?_⟩
        have hsub : kept ++ l ⊆ kept ++ a :: l :=
          ((List.sublist_cons_self a l).append_left kept).subset
        simpa using hturns₁.trans hturns hsub
      · exact ⟨q₁, by simp [hq₁], by simpa using hturns₁⟩

/-! ### Runs -/

/-- An operation does to the queue what it does to the list. -/
theorem Represents.apply (h : q.Represents null l) (operation : QueueOperation α V)
    (hnew : ∀ a ∈ operation.pushed? null, a ∉ l) (hfuel : l.length < fuel) :
    ∃ q', q.apply null fuel operation = some ((operation.onList null l).1, q') ∧
      q.Turns null q' l (operation.onList null l).2 := by
  cases operation with
  | pushBack node =>
    refine ⟨q.pushBack null node, rfl, ?_⟩
    by_cases hnode : node = null
    · rw [IntrusiveQueue.pushBack, if_pos hnode]
      simpa [QueueOperation.onList, hnode] using h.turns_self
    · have hpush := h.pushBack (hnew node (by simp [QueueOperation.pushed?, hnode])) hnode
      simpa [QueueOperation.onList, hnode] using hpush
  | popFront =>
    refine ⟨(q.popFront null).2, by rw [IntrusiveQueue.apply, h.popFront_fst]; rfl, ?_⟩
    cases l with
    | nil =>
      rw [h.popFront_nil]
      exact h.turns_self
    | cons a l => exact h.popFront
  | remove node =>
    obtain ⟨q', hq', hturns⟩ := h.remove node hfuel
    exact ⟨q', by rw [IntrusiveQueue.apply, hq']; rfl, hturns⟩
  | findFirst member value =>
    refine ⟨q, ?_, h.turns_self⟩
    rw [IntrusiveQueue.apply, findFirst, findFirstFrom_of_chain h.chain member value hfuel]
    rfl
  | rotateFrontToBack => exact ⟨_, rfl, h.rotateFrontToBack⟩
  | iterate visit =>
    have hiterate := Represents.iterateFrom visit (show q.Represents null ([] ++ l) from h) hfuel hfuel
    rw [← h.chain.head_eq] at hiterate
    obtain ⟨q', hq', hturns⟩ := hiterate
    exact ⟨q', by rw [IntrusiveQueue.apply, IntrusiveQueue.iterate, head, hq']; rfl, hturns⟩

theorem length_onList_le (null : α) (operation : QueueOperation α V) (l : List α) :
    (operation.onList null l).2.length ≤ l.length + 1 := by
  cases operation with
  | pushBack node =>
    rw [QueueOperation.onList]
    split <;> simp
  | popFront => exact (List.tail_sublist l).length_le.trans (Nat.le_succ _)
  | remove node => exact (List.length_erase_le ..).trans (Nat.le_succ _)
  | findFirst member value => exact Nat.le_succ _
  | rotateFrontToBack => simp [QueueOperation.onList]
  | iterate visit => exact (iterateList_sublist visit l).length_le.trans (Nat.le_succ _)

/-- The nodes that a sequence of operations puts into the queue. -/
def pushedNodes (null : α) (operations : List (QueueOperation α V)) : List α :=
  operations.filterMap (·.pushed? null)

omit [DecidableEq V] in
theorem pushedNodes_cons (operation : QueueOperation α V)
    (operations : List (QueueOperation α V)) : pushedNodes null (operation :: operations) =
      (operation.pushed? null).toList ++ pushedNodes null operations := by
  cases hpushed : operation.pushed? null <;> simp [pushedNodes, hpushed]

theorem mem_onList_of_pushed {operation : QueueOperation α V}
    (ha : operation.pushed? null = some a) (l : List α) : a ∈ (operation.onList null l).2 := by
  cases operation with
  | pushBack node =>
    rw [QueueOperation.pushed?] at ha
    split at ha
    · cases ha
    · cases ha
      simp [QueueOperation.onList, *]
  | _ => cases ha

/-- A run from a queue that represents a list. -/
theorem Represents.run {operations : List (QueueOperation α V)} {pushed : List α}
    (h : q.Represents null l) (hleft : ∀ a ∈ pushed, a ∉ l → q.next a = null)
    (hnew : QueueOperation.PushesNewNodes null operations l)
    (hfuel : l.length + operations.length ≤ fuel) :
    ∃ q', q.run null fuel operations =
        some ((QueueOperation.runOnList null operations l).1, q') ∧
      q'.RefinesList null (pushed ++ pushedNodes null operations)
        (QueueOperation.runOnList null operations l).2 := by
  induction operations generalizing q l pushed with
  | nil =>
    refine ⟨q, rfl, h.chain, h.chain.nodup, h.tail_eq, h.next_tail, h.tail_eq_null_iff, ?_⟩
    simpa [pushedNodes, QueueOperation.runOnList] using hleft
  | cons operation operations ih =>
    rw [List.length_cons] at hfuel
    have hgrows := length_onList_le null operation l
    obtain ⟨q₁, hq₁, hturns⟩ := h.apply operation hnew.1 (show l.length < fuel by omega)
    have hleft₁ : ∀ a ∈ pushed ++ (operation.pushed? null).toList,
        a ∉ (operation.onList null l).2 → q₁.next a = null := by
      intro a ha hout
      by_cases hal : a ∈ l
      · exact hturns.left a hal hout
      rw [hturns.others a hal hout]
      rcases List.mem_append.mp ha with ha | ha
      · exact hleft a ha hal
      · exact absurd (mem_onList_of_pushed (Option.mem_toList.mp ha) l) hout
    obtain ⟨q', hq', hrefines⟩ := ih hturns.represents hleft₁ hnew.2 (by omega)
    refine ⟨q', ?_, ?_⟩
    · rw [IntrusiveQueue.run, hq₁, Option.bind_some, hq']
      rfl
    · rw [pushedNodes_cons, ← List.append_assoc]
      exact hrefines

/-- From an empty queue every sequence of operations returns what the operations on lists return,
and leaves the queue of the list that they leave. -/
theorem refinesList_run (next : α → α) (operations : List (QueueOperation α V))
    (hnew : QueueOperation.PushesNewNodes null operations []) (hfuel : operations.length ≤ fuel) :
    ∃ q', (empty null next).run null fuel operations =
        some ((QueueOperation.runOnList null operations []).1, q') ∧
      q'.RefinesList null (pushedNodes null operations)
        (QueueOperation.runOnList null operations []).2 := by
  have hempty : (empty null next).Represents null [] := TailedChain.nil
  refine hempty.run (fun a ha => absurd ha (List.not_mem_nil (a := a))) hnew ?_
  simpa using hfuel

/-- A queue of three nodes: the middle one is taken out, a node is looked for, the rest is rotated,
and a loop takes out the last one. -/
def threeNodes : List (QueueOperation ℕ ℕ) :=
  [.pushBack 1, .pushBack 2, .pushBack 3, .remove 2, .remove 2, .findFirst (· + 4) 7,
    .rotateFrontToBack, .iterate fun a => ⟨a = 1, false⟩, .popFront, .popFront]

theorem refinesList_threeNodes :
    ∃ q', (empty 0 id).run 0 10 threeNodes =
        some ((QueueOperation.runOnList 0 threeNodes []).1, q') ∧
      q'.RefinesList 0 (pushedNodes 0 threeNodes) (QueueOperation.runOnList 0 threeNodes []).2 :=
  refinesList_run id threeNodes
    (by simp [threeNodes, QueueOperation.PushesNewNodes, QueueOperation.onList,
      QueueOperation.pushed?]) (by decide)

/-! ### Entries with an id -/

/-- `FindFirst` by a member, and `Remove` of what it finds, as the queues of the scheduler and of
the waiting processes take out an entry. -/
def removeFirst (null : α) (q : IntrusiveQueue α) (fuel : ℕ) (member : α → V) (value : V) :
    Option (Bool × IntrusiveQueue α) :=
  (q.findFirst null fuel member value).bind fun node =>
    if node = null then some (false, q) else q.remove null fuel node

theorem map_erase {member : α → V} {value : V}
    (hfind : l.find? (fun b => member b = value) = some a) :
    (l.erase a).map member = (l.map member).erase value := by
  induction l with
  | nil => cases hfind
  | cons b l ih =>
    by_cases hb : member b = value
    · rw [List.find?_cons_of_pos (by simpa using hb)] at hfind
      obtain rfl : b = a := Option.some.inj hfind
      rw [List.erase_cons_head, List.map_cons, hb, List.erase_cons_head]
    · rw [List.find?_cons_of_neg (by simpa using hb)] at hfind
      have ha : member a = value := by simpa using List.find?_some hfind
      have hba : ¬(b == a) = true := by
        rw [beq_iff_eq]
        rintro rfl
        exact hb ha
      rw [List.erase_cons_tail hba, List.map_cons, List.map_cons, List.erase_cons_tail (by simpa),
        ih hfind]

/-- The list of the members loses the first entry with the value: the queues of ids of the scheduler
and of the waiting processes are those of their nodes. -/
theorem Represents.removeFirst (h : q.Represents null l) (member : α → V) (value : V)
    (hfuel : l.length < fuel) :
    ∃ q' l', q.removeFirst null fuel member value = some (decide (value ∈ l.map member), q') ∧
      q.Turns null q' l l' ∧ l'.map member = (l.map member).erase value := by
  rw [IntrusiveQueue.removeFirst, findFirst, findFirstFrom_of_chain h.chain member value hfuel,
    Option.bind_some]
  cases hfind : l.find? fun b => member b = value with
  | none =>
    have hout : value ∉ l.map member := by
      rw [List.find?_eq_none] at hfind
      simpa using hfind
    rw [Option.getD_none, if_pos rfl, decide_eq_false hout]
    exact ⟨q, l, rfl, h.turns_self, (List.erase_of_not_mem hout).symm⟩
  | some a =>
    have hmem : a ∈ l := List.mem_of_find?_eq_some hfind
    have hvalue : member a = value := by simpa using List.find?_some hfind
    obtain ⟨q', hq', hturns⟩ := h.remove a hfuel
    rw [Option.getD_some, if_neg (h.chain.ne_null hmem), hq', decide_eq_true hmem,
      decide_eq_true (hvalue ▸ List.mem_map_of_mem hmem)]
    exact ⟨q', _, rfl, hturns, map_erase hfind⟩

/-- A ready queue whose nodes have the ids of the scheduler's list keeps them: a new node is
appended for `AddToReadyQueue`, and `RemoveFromReadyQueue` takes out the first node with the id. -/
theorem Represents.readyQueue (h : q.Represents null l) {sched : Scheduler} {id : α → ℕ}
    (hids : l.map id = sched.readyQueue) (p : ℕ) (hfuel : l.length < fuel) :
    (∀ a ∉ l, a ≠ null → id a = p → ∃ l', (q.pushBack null a).Represents null l' ∧
      l'.map id = (sched.addToReadyQueue p).readyQueue) ∧
    ∃ q' l', q.removeFirst null fuel id p = some (decide (p ∈ sched.readyQueue), q') ∧
      q'.Represents null l' ∧ l'.map id = (sched.removeFromReadyQueue p).readyQueue := by
  refine ⟨fun a hnew hne hp => ⟨_, (h.pushBack hnew hne).represents, ?_⟩, ?_⟩
  · rw [List.map_append, hids, List.map_singleton, hp, Scheduler.addToReadyQueue_readyQueue]
  · obtain ⟨q', l', hq', hturns, hl'⟩ := h.removeFirst id p hfuel
    rw [hids] at hq' hl'
    refine ⟨q', l', hq', hturns.represents, ?_⟩
    rw [hl', Scheduler.removeFromReadyQueue_readyQueue]

/-- The nodes 8, 16 and 24 of the processes 1, 2 and 3. -/
def threeProcesses : IntrusiveQueue ℕ :=
  (((empty 0 id).pushBack 0 8).pushBack 0 16).pushBack 0 24

theorem represents_threeProcesses : threeProcesses.Represents 0 [8, 16, 24] := by
  have hnil : (empty 0 (id : ℕ → ℕ)).Represents 0 [] := TailedChain.nil
  have hone := (hnil.pushBack (a := 8) (by simp) (by decide)).represents
  have htwo := (hone.pushBack (a := 16) (by simp) (by decide)).represents
  exact (htwo.pushBack (a := 24) (by simp) (by decide)).represents

/-- The node 32 of the process 4 is added, or the process 2 is taken out from between the others. -/
theorem Represents.readyQueue_threeProcesses :
    (∃ l, (threeProcesses.pushBack 0 32).Represents 0 l ∧ l.map (· / 8) = [1, 2, 3, 4]) ∧
    ∃ q' l, threeProcesses.removeFirst 0 4 (· / 8) 2 = some (true, q') ∧ q'.Represents 0 l ∧
      l.map (· / 8) = [1, 3] := by
  have hids : [8, 16, 24].map (· / 8) = ({ readyQueue := [1, 2, 3] } : Scheduler).readyQueue := rfl
  have hfuel : [8, 16, 24].length < 4 := by decide
  exact ⟨(Represents.readyQueue represents_threeProcesses hids 4 hfuel).1 32 (by simp) (by decide)
    rfl, (Represents.readyQueue represents_threeProcesses hids 2 hfuel).2⟩

end IntrusiveQueue

end TwistedOS
