import Mathlib.Data.List.Nodup
import Mathlib.Data.List.Rotate
import TwistedOS.Logic.ProcessManager

/-!
# The ready queue and the wait queues

`Scheduler` keeps the ids of the processes that may run in a queue and a pointer into it;
`SynchronizationManager` keeps the processes that sleep with the ticks they still wait, the
processes that wait for terminal input, and the processes that wait on a futex. The queues are
independent of the process table. Removal takes out the first entry of an id and insertion appends,
without a look at what is queued already, except for terminal input. Allocation of a queue node is
assumed to succeed.

## Main definitions

* `Scheduler`, with `addToReadyQueue`, `removeFromReadyQueue` and `selectNextProcess`.
* `SynchronizationManager`, with the operations on its three queues, `tick` and
  `getNextProcessToWake`.

## Main results

* `Scheduler.selectNextProcess_spec` — the selected id is queued, and selection only rotates.
-/

namespace TwistedOS

/-- `Scheduler`: the ready queue and the position of its node `CurrentProcess`. -/
structure Scheduler where
  readyQueue : List ℕ := []
  currentProcess : Option ℕ := none
  deriving DecidableEq, Repr

namespace Scheduler

variable (sched : Scheduler) {id other : ℕ}

/-- `AddToReadyQueue`. -/
def addToReadyQueue (processId : ℕ) : Scheduler :=
  { sched with readyQueue := sched.readyQueue ++ [processId] }

/-- The position of `CurrentProcess` after the node at position `k` left a queue of `n` nodes. -/
def currentAfterRemoval (currentProcess : Option ℕ) (k n : ℕ) : Option ℕ :=
  match currentProcess with
  | none => none
  | some i =>
    if i = k then
      -- the node after the removed one is forgotten, so that the next selection starts at the head
      if k + 1 < n then none else if n = 1 then none else some 0
    else if n = 1 then none
    else if k < i then some (i - 1) else some i

/-- `RemoveFromReadyQueue`. -/
def removeFromReadyQueue (processId : ℕ) : Scheduler :=
  if processId ∈ sched.readyQueue then
    { readyQueue := sched.readyQueue.erase processId
      currentProcess := currentAfterRemoval sched.currentProcess
        (sched.readyQueue.idxOf processId) sched.readyQueue.length }
  else sched

/-- `SelectNextProcess`: the selected id, `none` when the queue is empty. -/
def selectNextProcess : Option ℕ × Scheduler :=
  match sched.readyQueue with
  | [] => (none, sched)
  | head :: rest =>
    match sched.currentProcess with
    | none => (some head, { sched with currentProcess := some 0 })
    | some i =>
      if i = 0 ∧ rest = [] then (some head, sched)
      else ((rest ++ [head]).head?, { readyQueue := rest ++ [head], currentProcess := some 0 })

@[simp] theorem addToReadyQueue_readyQueue :
    (sched.addToReadyQueue id).readyQueue = sched.readyQueue ++ [id] := rfl

@[simp] theorem removeFromReadyQueue_readyQueue :
    (sched.removeFromReadyQueue id).readyQueue = sched.readyQueue.erase id := by
  rw [removeFromReadyQueue]
  split
  · rfl
  · rw [List.erase_of_not_mem ‹_›]

/-- Selection rotates the queue at most, and selects an id of it. -/
theorem selectNextProcess_spec :
    sched.selectNextProcess.2.readyQueue.Perm sched.readyQueue ∧
      (sched.selectNextProcess.1 = none → sched.readyQueue = []) ∧
      ∀ id ∈ sched.selectNextProcess.1, id ∈ sched.readyQueue := by
  obtain ⟨queue, current⟩ := sched
  rcases queue with _ | ⟨head, rest⟩
  · simp [selectNextProcess]
  · rcases current with _ | i
    · simp [selectNextProcess]
    · by_cases hi : i = 0 ∧ rest = []
      · simp [selectNextProcess, hi]
      · have hperm : (rest ++ [head]).Perm (head :: rest) := List.perm_append_singleton ..
        simp only [selectNextProcess, if_neg hi]
        refine ⟨hperm, fun hnone => ?_, fun id hid => ?_⟩
        · simp at hnone
        · exact hperm.mem_iff.mp (List.mem_of_mem_head? hid)

end Scheduler

/-- `SleepTag`. -/
structure SleepTag where
  id : ℕ
  waitTicksRemaining : ℕ
  deriving DecidableEq, Repr

/-- The tag after a tick. -/
def SleepTag.tick (tag : SleepTag) : SleepTag :=
  { tag with waitTicksRemaining := tag.waitTicksRemaining - 1 }

/-- `FutexWaitTag`. -/
structure FutexWaitTag where
  processId : ℕ
  userAddress : ℕ
  deriving DecidableEq, Repr

/-- `SynchronizationManager`, without its event queues. -/
structure SynchronizationManager where
  sleepQueue : List SleepTag := []
  ttyInputWaitQueue : List ℕ := []
  futexWaitQueue : List FutexWaitTag := []
  deriving DecidableEq, Repr

namespace SynchronizationManager

variable (sync : SynchronizationManager) (id : ℕ)

/-- `AddToSleepQueue`. -/
def addToSleepQueue (waitTicks : ℕ) : SynchronizationManager :=
  { sync with sleepQueue := sync.sleepQueue ++ [⟨id, waitTicks⟩] }

/-- `RemoveFromSleepQueue`. -/
def removeFromSleepQueue : SynchronizationManager :=
  { sync with sleepQueue := sync.sleepQueue.eraseP fun tag => tag.id = id }

/-- `AddToTTYInputWaitQueue`. -/
def addToTTYInputWaitQueue : SynchronizationManager :=
  if id ∈ sync.ttyInputWaitQueue then sync
  else { sync with ttyInputWaitQueue := sync.ttyInputWaitQueue ++ [id] }

/-- `RemoveFromTTYInputWaitQueue`. -/
def removeFromTTYInputWaitQueue : SynchronizationManager :=
  { sync with ttyInputWaitQueue := sync.ttyInputWaitQueue.erase id }

/-- `GetNextTTYInputWaiter`. -/
def getNextTTYInputWaiter : Option ℕ := sync.ttyInputWaitQueue.head?

/-- `RemoveFutexWaitersForProcess`. -/
def removeFutexWaitersForProcess : SynchronizationManager :=
  { sync with futexWaitQueue := sync.futexWaitQueue.filter fun tag => tag.processId ≠ id }

/-- `AddFutexWaiter`. -/
def addFutexWaiter (userAddress : ℕ) : SynchronizationManager :=
  let sync := sync.removeFutexWaitersForProcess id
  { sync with futexWaitQueue := sync.futexWaitQueue ++ [⟨id, userAddress⟩] }

/-- `RemoveFutexWaiter`. -/
def removeFutexWaiter (userAddress : ℕ) : SynchronizationManager :=
  { sync with futexWaitQueue := sync.futexWaitQueue.erase ⟨id, userAddress⟩ }

/-- `IsProcessWaitingOnFutex`. -/
def isProcessWaitingOnFutex (userAddress : ℕ) : Bool :=
  ⟨id, userAddress⟩ ∈ sync.futexWaitQueue

/-- `WakeSingleFutexWaiter`: the process of the first waiter on the address, which leaves the
queue. -/
def wakeSingleFutexWaiter (userAddress : ℕ) : Option ℕ × SynchronizationManager :=
  match sync.futexWaitQueue.find? fun tag => tag.userAddress = userAddress with
  | some tag => (some tag.processId,
      { sync with futexWaitQueue := sync.futexWaitQueue.eraseP fun tag =>
          tag.userAddress = userAddress })
  | none => (none, sync)

/-- `SynchronizationManager::Tick`. -/
def tick : SynchronizationManager :=
  { sync with sleepQueue := sync.sleepQueue.map SleepTag.tick }

/-- `GetNextProcessToWake`. -/
def getNextProcessToWake : Option ℕ :=
  (sync.sleepQueue.find? fun tag => tag.waitTicksRemaining = 0).map SleepTag.id

/-- The ids that have an entry in the sleep queue. -/
def sleepers : List ℕ := sync.sleepQueue.map SleepTag.id

variable {sync id}

theorem eraseP_map_id (queue : List SleepTag) :
    (queue.eraseP fun tag => tag.id = id).map SleepTag.id = (queue.map SleepTag.id).erase id := by
  induction queue with
  | nil => rfl
  | cons tag queue ih =>
    by_cases h : tag.id = id
    · rw [List.eraseP_cons_of_pos (by simp [h]), List.map_cons, h, List.erase_cons_head]
    · rw [List.eraseP_cons_of_neg (by simp [h]), List.map_cons, List.map_cons, ih,
        List.erase_cons_tail (by simp [h])]

@[simp] theorem removeFromSleepQueue_sleepers :
    (sync.removeFromSleepQueue id).sleepers = sync.sleepers.erase id :=
  eraseP_map_id _

@[simp] theorem addToSleepQueue_sleepers (n : ℕ) :
    (sync.addToSleepQueue id n).sleepers = sync.sleepers ++ [id] := by
  simp [sleepers, addToSleepQueue]

@[simp] theorem tick_sleepers : sync.tick.sleepers = sync.sleepers := by
  simp [sleepers, tick, SleepTag.tick, Function.comp_def]

theorem mem_sleepers_of_getNextProcessToWake (h : sync.getNextProcessToWake = some id) :
    id ∈ sync.sleepers := by
  obtain ⟨tag, htag, rfl⟩ := Option.map_eq_some_iff.mp h
  exact List.mem_map_of_mem (List.mem_of_find?_eq_some htag)

end SynchronizationManager

end TwistedOS
