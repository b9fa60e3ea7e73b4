import TwistedOS.Logic.ProcessQueues

/-!
# Fairness of the scheduler

A run of the scheduler is any sequence of insertions, removals and selections in which no id is
inserted that is queued. The pointer of the scheduler is null or points to the head of the queue,
and a selection rotates the queue only when the head was selected before and not removed since. The
order in which two ids stand in the queue then changes only when the first one has been selected, so
that the other one is selected before the first one is selected again.

## Main definitions

* `SchedulerCall`, `Scheduler.Reachable`, `Scheduler.selections`.
* `Scheduler.pairOrder` — the order in which two ids stand in the queue.
* `Scheduler.Turn` — how often `q` has been selected since `p` was.

## Main results

* `Scheduler.Turn.step`, `Scheduler.Turn.run`.
* `Scheduler.Reachable.selectsFairly`.
-/

namespace TwistedOS

/-- A call of the scheduler. -/
inductive SchedulerCall where
  | addToReadyQueue (processId : ℕ)
  | removeFromReadyQueue (processId : ℕ)
  | selectNextProcess
  deriving DecidableEq, Repr

namespace Scheduler

variable {sched : Scheduler} {p q : ℕ}

/-- The scheduler after a call. -/
def step (sched : Scheduler) : SchedulerCall → Scheduler
  | .addToReadyQueue processId => sched.addToReadyQueue processId
  | .removeFromReadyQueue processId => sched.removeFromReadyQueue processId
  | .selectNextProcess => sched.selectNextProcess.2

/-- The scheduler after a list of calls. -/
def runAll (sched : Scheduler) (calls : List SchedulerCall) : Scheduler := calls.foldl step sched

/-- The calls that runs are made of: an id that is added is that of a process and not queued. -/
def Legal (sched : Scheduler) : SchedulerCall → Prop
  | .addToReadyQueue processId => processId ∉ sched.readyQueue ∧ processId ≠ processIdInvalid
  | _ => True

/-- All calls of a run are legal. -/
def LegalRun : Scheduler → List SchedulerCall → Prop
  | _, [] => True
  | sched, c :: calls => sched.Legal c ∧ LegalRun (sched.step c) calls

/-- The schedulers that runs lead to. -/
inductive Reachable : Scheduler → Prop
  | init : Reachable {}
  | step {sched : Scheduler} (h : Reachable sched) (c : SchedulerCall) (hc : sched.Legal c) :
    Reachable (sched.step c)

/-- The id that a call returns, when it is a selection from a queue that is not empty. -/
def selectedBy (sched : Scheduler) : SchedulerCall → Option ℕ
  | .selectNextProcess => sched.selectNextProcess.1
  | _ => none

/-- The ids that the selections of a run return, in order. -/
def selections : Scheduler → List SchedulerCall → List ℕ
  | _, [] => []
  | sched, c :: calls => (sched.selectedBy c).toList ++ selections (sched.step c) calls

/-- The id is in the queue at the start of a run and after each of its calls. -/
def QueuedThroughout (id : ℕ) : Scheduler → List SchedulerCall → Prop
  | sched, [] => id ∈ sched.readyQueue
  | sched, c :: calls => id ∈ sched.readyQueue ∧ QueuedThroughout id (sched.step c) calls

/-- What `SelectNextProcess` returns. -/
def returnedId (sched : Scheduler) : ℕ := sched.selectNextProcess.1.getD processIdInvalid

/-- `SelectNextProcess` returns a queued id, and the invalid one exactly for an empty queue; the
current process is null or the head; and between two selections of `p` in a row every other id that
stays in the queue with it is selected once. -/
structure SelectsFairly (sched : Scheduler) : Prop where
  mem_of_selected : ∀ id, sched.selectNextProcess.1 = some id → id ∈ sched.readyQueue
  returnedId_eq_invalid : sched.returnedId = processIdInvalid ↔ sched.readyQueue = []
  current : sched.currentProcess = none ∨ sched.currentProcess = some 0 ∧ sched.readyQueue ≠ []
  once : ∀ p q calls, sched.selectNextProcess.1 = some p → p ≠ q →
    LegalRun sched.selectNextProcess.2 calls →
    QueuedThroughout p sched.selectNextProcess.2 calls →
    QueuedThroughout q sched.selectNextProcess.2 calls →
    p ∉ sched.selectNextProcess.2.selections calls →
    (sched.selectNextProcess.2.runAll calls).selectNextProcess.1 = some p →
      (sched.selectNextProcess.2.selections calls).count q = 1

/-! ### The pointer and the queue -/

/-- The queue has no duplicates, and the current process is null or its head. -/
structure Consistent (sched : Scheduler) : Prop where
  nodup : sched.readyQueue.Nodup
  valid : processIdInvalid ∉ sched.readyQueue
  current : sched.currentProcess = none ∨ sched.currentProcess = some 0 ∧ sched.readyQueue ≠ []

/-- The id that was selected last, unless it has left the queue. -/
def selected (sched : Scheduler) : Option ℕ :=
  if sched.currentProcess = none then none else sched.readyQueue.head?

/-- The queue after a selection. -/
def rotated (sched : Scheduler) : List ℕ :=
  if sched.currentProcess = none then sched.readyQueue else sched.readyQueue.rotate 1

namespace Consistent

section

variable (h : sched.Consistent)

include h

/-- A selection returns the head of the queue, which was rotated when the head had been selected
before. -/
theorem selectNextProcess_eq :
    sched.selectNextProcess.1 = sched.rotated.head? ∧
      sched.selectNextProcess.2.readyQueue = sched.rotated ∧
      sched.selectNextProcess.2.selected = sched.rotated.head? ∧
      (sched.selectNextProcess.2.currentProcess = none ∨
        sched.selectNextProcess.2.currentProcess = some 0 ∧
          sched.selectNextProcess.2.readyQueue ≠ []) := by
  obtain ⟨queue, current⟩ := sched
  rcases queue with _ | ⟨head, rest⟩
  · obtain rfl : current = none := h.current.resolve_right fun hsome => hsome.2 rfl
    simp [selectNextProcess, rotated, selected]
  · rcases h.current with hnone | ⟨hsome, -⟩
    · obtain rfl : current = none := hnone
      simp [selectNextProcess, rotated, selected]
    · obtain rfl : current = some 0 := hsome
      by_cases hrest : rest = []
      · simp [selectNextProcess, rotated, selected, hrest]
      · simp [selectNextProcess, rotated, selected, hrest]

theorem selected_addToReadyQueue (id : ℕ) :
    (sched.addToReadyQueue id).selected = sched.selected := by
  rcases h.current with hnone | ⟨-, hne⟩
  · simp [selected, addToReadyQueue, hnone]
  · rw [selected, selected, addToReadyQueue_readyQueue, List.head?_append_of_ne_nil _ hne]
    rfl

/-- A removal forgets the current process when it removes it. -/
theorem removeFromReadyQueue_currentProcess (id : ℕ) :
    (sched.removeFromReadyQueue id).currentProcess =
      if sched.selected = some id then none else sched.currentProcess := by
  obtain ⟨queue, current⟩ := sched
  rcases h.current with hnone | ⟨hsome, hne⟩
  · obtain rfl : current = none := hnone
    rw [removeFromReadyQueue]
    split_ifs <;> rfl
  · obtain rfl : current = some 0 := hsome
    obtain ⟨head, rest, rfl⟩ := List.exists_cons_of_ne_nil hne
    have hselected : selected ⟨head :: rest, some 0⟩ = some head := rfl
    rw [removeFromReadyQueue, hselected]
    by_cases hid : head = id
    · subst hid
      simp [currentAfterRemoval]
    · simp only [Option.some_inj, hid, if_false]
      split_ifs with hmem
      · have hrest : id ∈ rest := (List.mem_cons.mp hmem).resolve_left (Ne.symm hid)
        have hne : rest ≠ [] := List.ne_nil_of_mem hrest
        have hindex : (head :: rest).idxOf id ≠ 0 := by
          rw [List.idxOf_cons_ne rest hid]
          exact Nat.succ_ne_zero _
        simp [currentAfterRemoval, hindex.symm, hne]
      · rfl

theorem selected_eq_some :
    sched.currentProcess = none ∨
      ∃ head rest, sched.readyQueue = head :: rest ∧ sched.currentProcess = some 0 ∧
        sched.selected = some head := by
  refine h.current.imp_right fun ⟨hsome, hne⟩ => ?_
  obtain ⟨head, rest, hqueue⟩ := List.exists_cons_of_ne_nil hne
  exact ⟨head, rest, hqueue, hsome, by simp [selected, hsome, hqueue]⟩

theorem selected_removeFromReadyQueue (id : ℕ) :
    (sched.removeFromReadyQueue id).selected =
      if sched.selected = some id then none else sched.selected := by
  have hcurrent := h.removeFromReadyQueue_currentProcess id
  rcases h.selected_eq_some with hnone | ⟨head, rest, hqueue, hsome, hselected⟩
  · have hselected : sched.selected = none := if_pos hnone
    rw [hnone, ite_self] at hcurrent
    rw [hselected, ite_self]
    exact if_pos hcurrent
  · rw [hselected, hsome] at hcurrent
    rw [selected, hcurrent, removeFromReadyQueue_readyQueue, hqueue, hselected]
    by_cases hid : head = id
    · simp [hid]
    · simp [hid, List.erase_cons_tail]

end

theorem perm_rotated (sched : Scheduler) : sched.rotated.Perm sched.readyQueue := by
  rw [rotated]
  split_ifs
  · rfl
  · exact List.rotate_perm _ 1

theorem step (h : sched.Consistent) {c : SchedulerCall} (hc : sched.Legal c) :
    (sched.step c).Consistent := by
  cases c with
  | addToReadyQueue id =>
    refine ⟨?_, ?_, h.current.imp_right fun ⟨hsome, hne⟩ => ⟨hsome, by simp [Scheduler.step]⟩⟩
    · rw [Scheduler.step, addToReadyQueue_readyQueue, ← List.concat_eq_append]
      exact h.nodup.concat hc.1
    · rw [Scheduler.step, addToReadyQueue_readyQueue, List.mem_append, List.mem_singleton]
      exact not_or.mpr ⟨h.valid, hc.2.symm⟩
  | removeFromReadyQueue id =>
    refine ⟨?_, ?_, ?_⟩
    · rw [Scheduler.step, removeFromReadyQueue_readyQueue]
      exact h.nodup.erase id
    · rw [Scheduler.step, removeFromReadyQueue_readyQueue]
      exact fun hmem => h.valid (List.mem_of_mem_erase hmem)
    · rw [Scheduler.step, h.removeFromReadyQueue_currentProcess, removeFromReadyQueue_readyQueue]
      rcases h.selected_eq_some with hnone | ⟨head, rest, hqueue, hsome, hselected⟩
      · exact .inl (by rw [hnone, ite_self])
      · rw [hselected, hsome, hqueue]
        by_cases hid : head = id
        · simp [hid]
        · simp [hid, List.erase_cons_tail]
  | selectNextProcess =>
    obtain ⟨-, hqueue, -, hcurrent⟩ := h.selectNextProcess_eq
    have hperm := perm_rotated sched
    refine ⟨?_, ?_, hcurrent⟩
    · rw [Scheduler.step, hqueue]
      exact hperm.nodup_iff.mpr h.nodup
    · rw [Scheduler.step, hqueue, hperm.mem_iff]
      exact h.valid

theorem run (h : sched.Consistent) {calls : List SchedulerCall} (hlegal : LegalRun sched calls) :
    (sched.runAll calls).Consistent := by
  induction calls generalizing sched with
  | nil => exact h
  | cons c calls ih => exact ih (h.step hlegal.1) hlegal.2

end Consistent

/-! ### Two ids in the queue -/

/-- The order in which two ids stand in the queue. -/
def pairOrder (p q : ℕ) (queue : List ℕ) : List ℕ := queue.filter fun id => id = p ∨ id = q

/-- The first of the two is the head when one of them is. -/
theorem head?_pairOrder {queue : List ℕ} {head : ℕ} (h : queue.head? = some head)
    (hhead : head = p ∨ head = q) : (pairOrder p q queue).head? = some head := by
  obtain ⟨rest, rfl⟩ := List.head?_eq_some_iff.mp h
  rw [pairOrder, List.filter_cons_of_pos (by simpa using hhead), List.head?_cons]

theorem pairOrder_append_of_ne {queue : List ℕ} {id : ℕ} (hp : id ≠ p) (hq : id ≠ q) :
    pairOrder p q (queue ++ [id]) = pairOrder p q queue := by
  rw [pairOrder, pairOrder, List.filter_append, List.filter_cons_of_neg (by simp [hp, hq]),
    List.filter_nil, List.append_nil]

theorem pairOrder_erase_of_ne {queue : List ℕ} {id : ℕ} (hp : id ≠ p) (hq : id ≠ q) :
    pairOrder p q (queue.erase id) = pairOrder p q queue := by
  induction queue with
  | nil => rfl
  | cons head rest ih =>
    by_cases hid : head = id
    · subst hid
      rw [List.erase_cons_head, pairOrder, pairOrder, List.filter_cons_of_neg (by simp [hp, hq])]
    · rw [List.erase_cons_tail (by simpa using hid), pairOrder, pairOrder, List.filter_cons,
        List.filter_cons]
      rw [pairOrder, pairOrder] at ih
      rw [ih]

/-- The rotation of another id keeps the order. -/
theorem pairOrder_rotate_of_ne {queue : List ℕ} {head : ℕ} (h : queue.head? = some head)
    (hp : head ≠ p) (hq : head ≠ q) : pairOrder p q (queue.rotate 1) = pairOrder p q queue := by
  obtain ⟨rest, rfl⟩ := List.head?_eq_some_iff.mp h
  rw [List.rotate_cons_succ, List.rotate_zero, pairOrder_append_of_ne hp hq, pairOrder, pairOrder,
    List.filter_cons_of_neg (by simp [hp, hq])]

/-- The rotation of the first of the two moves it behind the other. -/
theorem pairOrder_rotate {queue : List ℕ} {first second : ℕ} (h : queue.head? = some first)
    (horder : pairOrder p q queue = [first, second]) (hfirst : first = p ∨ first = q) :
    pairOrder p q (queue.rotate 1) = [second, first] := by
  obtain ⟨rest, rfl⟩ := List.head?_eq_some_iff.mp h
  rw [pairOrder, List.filter_cons_of_pos (by simpa using hfirst), List.cons.injEq] at horder
  rw [List.rotate_cons_succ, List.rotate_zero, pairOrder, List.filter_append, horder.2,
    List.filter_cons_of_pos (by simpa using hfirst), List.filter_nil, List.singleton_append]

theorem pairOrder_eq {queue : List ℕ} (hnodup : queue.Nodup) (hp : p ∈ queue) (hq : q ∈ queue)
    (hpq : p ≠ q) : pairOrder p q queue = [p, q] ∨ pairOrder p q queue = [q, p] := by
  have hperm : (pairOrder p q queue).Perm [p, q] := by
    refine (List.perm_ext_iff_of_nodup (hnodup.filter _) (by simpa using hpq)).mpr fun id => ?_
    rw [List.mem_filter, List.mem_pair, decide_eq_true_iff]
    exact ⟨And.right, fun hid => ⟨by rcases hid with rfl | rfl <;> assumption, hid⟩⟩
  obtain ⟨first, second, hpair⟩ := List.length_eq_two.mp hperm.length_eq
  rw [hpair] at hperm ⊢
  have hfirst : first = p ∨ first = q := by simpa using hperm.mem_iff.mp List.mem_cons_self
  have hsecond : second = p ∨ second = q := by
    simpa using hperm.mem_iff.mp (List.mem_cons_of_mem first List.mem_cons_self)
  have hne : first ≠ second := by simpa using hperm.nodup_iff.mpr (by simpa using hpq)
  grind

/-- How often `q` was selected since `p` was: not yet as long as `p` is current or `q` stands before
`p` and is not current, and once from then on until `p` is selected again. -/
inductive Turn (p q : ℕ) (sched : Scheduler) : ℕ → Prop
  | selected (horder : pairOrder p q sched.readyQueue = [p, q])
    (hselected : sched.selected = some p) : Turn p q sched 0
  | waiting (horder : pairOrder p q sched.readyQueue = [q, p])
    (hselected : sched.selected ≠ some q) : Turn p q sched 0
  | running (horder : pairOrder p q sched.readyQueue = [q, p])
    (hselected : sched.selected = some q) : Turn p q sched 1
  | done (horder : pairOrder p q sched.readyQueue = [p, q])
    (hselected : sched.selected ≠ some p) : Turn p q sched 1

/-- The id is in the queue at the start. -/
theorem QueuedThroughout.mem {id : ℕ} {calls : List SchedulerCall}
    (h : QueuedThroughout id sched calls) : id ∈ sched.readyQueue := by
  cases calls with
  | nil => exact h
  | cons c calls => exact h.1

namespace Turn

variable {n : ℕ}

/-- The turn of `q` begins when `p` is selected. -/
theorem start (h : sched.Consistent) (hpq : p ≠ q) (hp : sched.selectNextProcess.1 = some p)
    (hq : q ∈ sched.readyQueue) : Turn p q sched.selectNextProcess.2 0 := by
  obtain ⟨hreturned, hqueue, hselected, -⟩ := h.selectNextProcess_eq
  have hperm := Consistent.perm_rotated sched
  have hfirst : sched.rotated.head? = some p := hreturned.symm.trans hp
  refine .selected ?_ (hselected.trans hfirst)
  rw [hqueue]
  refine (pairOrder_eq (hperm.nodup_iff.mpr h.nodup) (List.mem_of_mem_head? hfirst)
    (hperm.mem_iff.mpr hq) hpq).resolve_right fun horder => ?_
  have hhead := head?_pairOrder hfirst (.inl rfl : p = p ∨ p = q)
  rw [horder, List.head?_cons] at hhead
  exact hpq (Option.some_inj.mp hhead).symm

section

variable (hturn : Turn p q sched n)

include hturn

section

variable (h : sched.Consistent) (hpq : p ≠ q)

include h hpq

/-- A selection rotates the queue so that `q` stands first as long as it was not selected. -/
theorem pairOrder_rotated :
    pairOrder p q sched.rotated = [q, p] ∧ n = 0 ∨ pairOrder p q sched.rotated = [p, q] ∧ n = 1 := by
  rw [rotated]
  rcases h.selected_eq_some with hnone | ⟨head, rest, hqueue, hsome, hhead⟩
  · have hselected : sched.selected = none := if_pos hnone
    rw [if_pos hnone]
    cases hturn with
    | selected horder hcurrent => simp [hselected] at hcurrent
    | waiting horder hcurrent => exact .inl ⟨horder, rfl⟩
    | running horder hcurrent => simp [hselected] at hcurrent
    | done horder hcurrent => exact .inr ⟨horder, rfl⟩
  · have hfirst : sched.readyQueue.head? = some head := by rw [hqueue, List.head?_cons]
    rw [if_neg (by simp [hsome])]
    -- an id that is neither of the two is rotated without effect on their order
    have hother {first second : ℕ} (horder : pairOrder p q sched.readyQueue = [first, second])
        (hpair : first = p ∧ second = q ∨ first = q ∧ second = p) (hne : head ≠ first) :
        pairOrder p q (sched.readyQueue.rotate 1) = [first, second] := by
      have hnot : ¬(head = p ∨ head = q) := fun hmem => hne <| by
        have hhead := head?_pairOrder hfirst hmem
        rw [horder, List.head?_cons] at hhead
        exact (Option.some_inj.mp hhead).symm
      rw [pairOrder_rotate_of_ne hfirst (not_or.mp hnot).1 (not_or.mp hnot).2, horder]
    cases hturn with
    | selected horder hcurrent =>
      obtain rfl : head = p := Option.some_inj.mp (hhead.symm.trans hcurrent)
      exact .inl ⟨pairOrder_rotate hfirst horder (.inl rfl), rfl⟩
    | waiting horder hcurrent =>
      exact .inl ⟨hother horder (.inr ⟨rfl, rfl⟩) fun heq => hcurrent (heq ▸ hhead), rfl⟩
    | running horder hcurrent =>
      obtain rfl : head = q := Option.some_inj.mp (hhead.symm.trans hcurrent)
      exact .inr ⟨pairOrder_rotate hfirst horder (.inr rfl), rfl⟩
    | done horder hcurrent =>
      exact .inr ⟨hother horder (.inl ⟨rfl, rfl⟩) fun heq => hcurrent (heq ▸ hhead), rfl⟩

/-- A selection of another id than `p`. -/
theorem select {id : ℕ} (hid : sched.selectNextProcess.1 = some id) (hne : id ≠ p) :
    Turn p q sched.selectNextProcess.2 (n + if id = q then 1 else 0) := by
  obtain ⟨hreturned, hqueue, hselected, -⟩ := h.selectNextProcess_eq
  rw [hid] at hreturned
  rw [← hreturned] at hselected
  rcases hturn.pairOrder_rotated h hpq with ⟨horder, rfl⟩ | ⟨horder, rfl⟩
  · rw [← hqueue] at horder
    split_ifs with hq
    · exact .running horder (by rw [hselected, hq])
    · exact .waiting horder (by simpa [hselected] using hq)
  · have hq : id ≠ q := fun hq => by
      have hhead := head?_pairOrder hreturned.symm (.inr hq : id = p ∨ id = q)
      rw [horder, List.head?_cons, hq] at hhead
      exact hpq (Option.some_inj.mp hhead)
    rw [← hqueue] at horder
    rw [if_neg hq]
    exact .done horder (by simpa [hselected] using hne)

/-- When `p` is selected again, `q` was selected once. -/
theorem eq_one_of_select (hp : sched.selectNextProcess.1 = some p) : n = 1 := by
  obtain ⟨hreturned, -⟩ := h.selectNextProcess_eq
  rcases hturn.pairOrder_rotated h hpq with ⟨horder, -⟩ | ⟨-, hn⟩
  · have hhead := head?_pairOrder (hreturned.symm.trans hp) (.inl rfl : p = p ∨ p = q)
    rw [horder, List.head?_cons] at hhead
    exact absurd (Option.some_inj.mp hhead).symm hpq
  · exact hn

end

/-- The order of the two and the current process are all that counts. -/
theorem congr {sched' : Scheduler}
    (horder : pairOrder p q sched'.readyQueue = pairOrder p q sched.readyQueue)
    (hselected : ∀ id, id = p ∨ id = q → (sched'.selected = some id ↔ sched.selected = some id)) :
    Turn p q sched' n := by
  cases hturn with
  | selected hpair hcurrent =>
    exact .selected (horder.trans hpair) ((hselected p (.inl rfl)).mpr hcurrent)
  | waiting hpair hcurrent =>
    exact .waiting (horder.trans hpair) ((hselected q (.inr rfl)).not.mpr hcurrent)
  | running hpair hcurrent =>
    exact .running (horder.trans hpair) ((hselected q (.inr rfl)).mpr hcurrent)
  | done hpair hcurrent =>
    exact .done (horder.trans hpair) ((hselected p (.inl rfl)).not.mpr hcurrent)

/-- A step in which both ids stay in the queue and `p` is not selected. -/
theorem step (h : sched.Consistent) (hpq : p ≠ q) {c : SchedulerCall} (hc : sched.Legal c)
    (hp : p ∈ sched.readyQueue) (hq : q ∈ sched.readyQueue) (hp' : p ∈ (sched.step c).readyQueue)
    (hq' : q ∈ (sched.step c).readyQueue) (hnot : p ∉ (sched.selectedBy c).toList) :
    Turn p q (sched.step c) (n + (sched.selectedBy c).toList.count q) := by
  cases c with
  | addToReadyQueue id =>
    have hidp : id ≠ p := fun heq => hc.1 (heq ▸ hp)
    have hidq : id ≠ q := fun heq => hc.1 (heq ▸ hq)
    refine hturn.congr (pairOrder_append_of_ne hidp hidq) fun other _ => ?_
    rw [Scheduler.step, h.selected_addToReadyQueue]
  | removeFromReadyQueue id =>
    rw [Scheduler.step, removeFromReadyQueue_readyQueue] at hp' hq'
    have hidp : id ≠ p := fun heq => h.nodup.not_mem_erase (heq ▸ hp')
    have hidq : id ≠ q := fun heq => h.nodup.not_mem_erase (heq ▸ hq')
    refine hturn.congr ?_ fun other hother => ?_
    · rw [Scheduler.step, removeFromReadyQueue_readyQueue, pairOrder_erase_of_ne hidp hidq]
    · rw [Scheduler.step, h.selected_removeFromReadyQueue]
      split_ifs with hid
      · rw [hid, Option.some_inj]
        exact iff_of_false (by simp) fun heq => by rcases hother with rfl | rfl <;> contradiction
      · rfl
  | selectNextProcess =>
    obtain ⟨id, hid⟩ : ∃ id, sched.selectNextProcess.1 = some id := by
      rw [← Option.ne_none_iff_exists']
      exact fun hnone => List.ne_nil_of_mem hp (sched.selectNextProcess_spec.2.1 hnone)
    rw [selectedBy, hid] at hnot ⊢
    have hne : id ≠ p := fun heq => hnot (by simp [heq])
    have hselect := hturn.select h hpq hid hne
    rw [Option.toList_some, List.count_singleton]
    simp only [beq_iff_eq]
    exact hselect

/-- A run in which both ids stay in the queue and `p` is not selected. -/
theorem run (h : sched.Consistent) (hpq : p ≠ q) {calls : List SchedulerCall}
    (hlegal : LegalRun sched calls) (hp : QueuedThroughout p sched calls)
    (hq : QueuedThroughout q sched calls) (hnot : p ∉ sched.selections calls) :
    Turn p q (sched.runAll calls) (n + (sched.selections calls).count q) := by
  induction calls generalizing sched n with
  | nil => exact hturn
  | cons c calls ih =>
    rw [selections, List.mem_append, not_or] at hnot
    have hstep := hturn.step h hpq hlegal.1 hp.1 hq.1 hp.2.mem hq.2.mem hnot.1
    have hrest := ih hstep (h.step hlegal.1) hlegal.2 hp.2 hq.2 hnot.2
    rwa [selections, List.count_append, ← Nat.add_assoc]

end

end Turn

/-! ### Runs -/

theorem Reachable.consistent (h : Reachable sched) : sched.Consistent := by
  induction h with
  | init => exact ⟨List.nodup_nil, by simp, .inl rfl⟩
  | step _ c hc ih => exact ih.step hc

theorem Reachable.runAll {calls : List SchedulerCall} (h : Reachable sched)
    (hlegal : LegalRun sched calls) : Reachable (sched.runAll calls) := by
  induction calls generalizing sched with
  | nil => exact h
  | cons c calls ih => exact ih (h.step c hlegal.1) hlegal.2

/-- In every state of a run the selection is fair: a queued id is selected unless the queue is empty,
and between two selections of an id each other id that stays queued is selected once. -/
theorem Reachable.selectsFairly (h : Reachable sched) : sched.SelectsFairly where
  mem_of_selected id hid := sched.selectNextProcess_spec.2.2 id hid
  returnedId_eq_invalid := by
    rw [returnedId]
    cases hselected : sched.selectNextProcess.1 with
    | none => exact iff_of_true rfl (sched.selectNextProcess_spec.2.1 hselected)
    | some id =>
      have hmem := sched.selectNextProcess_spec.2.2 id hselected
      refine iff_of_false (fun heq => h.consistent.valid ?_) (List.ne_nil_of_mem hmem)
      rwa [← heq, Option.getD_some]
  current := h.consistent.current
  once p q calls hp hpq hlegal hpstays hqstays hnot hagain := by
    have hnext : sched.selectNextProcess.2.Consistent :=
      h.consistent.step (c := .selectNextProcess) trivial
    have hq : q ∈ sched.readyQueue :=
      sched.selectNextProcess_spec.1.mem_iff.mp hqstays.mem
    have hturn := (Turn.start h.consistent hpq hp hq).run hnext hpq hlegal hpstays hqstays hnot
    rw [Nat.zero_add] at hturn
    exact hturn.eq_one_of_select (hnext.run hlegal) hpq hagain

/-- Two processes are added, one is selected, and a third one is added and the first removed. -/
theorem Reachable.selectsFairly_threeProcesses :
    (({} : Scheduler).runAll [.addToReadyQueue 1, .addToReadyQueue 2, .selectNextProcess,
      .addToReadyQueue 3, .removeFromReadyQueue 1]).SelectsFairly :=
  Reachable.selectsFairly <| Reachable.init.runAll
    ⟨⟨by decide, by decide⟩, ⟨by decide, by decide⟩, trivial, ⟨by decide, by decide⟩, trivial,
      trivial⟩

end Scheduler

end TwistedOS
