import TwistedOS.Logic.FutexCalls

/-!
# The futex queue and the processes that wait

The queue of futex waiters is separate from the process table. It has one entry at most for each
process; among its entries, those of the processes that wait stand in the order in which they began,
and the others were left behind by processes that have died. Only futex calls change it.

## Main definitions

* `FutexQueueExact` — the queue, the processes that wait and the waits in progress.

## Main results

* `FutexQueueExact.wake`, `FutexQueueExact.begin`, `FutexQueueExact.leave`, `FutexQueueExact.die`.
* `ProcessCall.run_futexWaitQueue` — other operations leave the queue alone.
-/

namespace TwistedOS

open Function

/-! ### The queue and the waits -/

/-- The queue has one entry at most for each process. In the queue, the processes that wait stand
in the order in which they began; a process inside the loop that has no entry was counted. -/
structure FutexQueueExact (queue : List FutexWaitTag) (ids : List ℕ) (waits : ℕ → Option FutexWait)
    (counted : ℕ → Bool) : Prop where
  nodup : (queue.map FutexWaitTag.processId).Nodup
  order : (queue.map FutexWaitTag.processId).filter (fun p => p ∈ ids) = ids
  key_eq : ∀ tag ∈ queue, ∀ wait, waits tag.processId = some wait → tag.userAddress = wait.key
  isSome_of_mem : ∀ p ∈ ids, (waits p).isSome
  mem_of_isSome : ∀ tag ∈ queue, (waits tag.processId).isSome → tag.processId ∈ ids
  counted_of_notMem : ∀ p, (waits p).isSome → p ∉ ids → counted p = true

namespace FutexQueueExact

variable {queue : List FutexWaitTag} {ids : List ℕ} {waits : ℕ → Option FutexWait}
variable {counted : ℕ → Bool} {id p : ℕ} {wait : FutexWait}

theorem mem_queue_iff (h : FutexQueueExact queue ids waits counted) (hwait : waits p = some wait) :
    ⟨p, wait.key⟩ ∈ queue ↔ p ∈ ids := by
  constructor
  · exact fun hmem => h.mem_of_isSome _ hmem (by simp [hwait])
  · intro hmem
    rw [← h.order] at hmem
    obtain ⟨tag, htag, rfl⟩ := List.mem_map.mp (List.mem_of_mem_filter hmem)
    rwa [← h.key_eq tag htag wait hwait]

/-- The ids of the entries of some processes. -/
theorem map_filter_processId (queue : List FutexWaitTag) (P : ℕ → Prop) [DecidablePred P] :
    (queue.filter fun tag => P tag.processId).map FutexWaitTag.processId =
      (queue.map FutexWaitTag.processId).filter fun p => P p := by
  rw [List.filter_map]
  rfl

section

variable (h : FutexQueueExact queue ids waits counted)

include h

/-- The order of some of the processes. -/
theorem order_filter (P : ℕ → Prop) [DecidablePred P] : (queue.map FutexWaitTag.processId).filter
      (fun p => p ∈ ids.filter fun p => P p) = ids.filter fun p => P p := by
  conv_rhs => rw [← h.order, List.filter_filter]
  refine List.filter_congr fun p _ => ?_
  rw [Bool.eq_iff_iff]
  simp [and_comm]

theorem wake (woken : List ℕ) :
    FutexQueueExact (queue.filter fun tag => tag.processId ∉ woken)
      (ids.filter fun p => p ∉ woken) waits fun p => decide (p ∈ woken) || counted p where
  nodup := h.nodup.sublist (List.filter_sublist.map _)
  order := by
    rw [map_filter_processId queue (· ∉ woken), List.filter_filter]
    refine Eq.trans (List.filter_congr fun p _ => ?_) (h.order_filter (· ∉ woken))
    rw [Bool.eq_iff_iff]
    simp
  key_eq tag htag := h.key_eq tag (List.mem_of_mem_filter htag)
  isSome_of_mem p hp := h.isSome_of_mem p (List.mem_of_mem_filter hp)
  mem_of_isSome tag htag hwait := by
    obtain ⟨hqueue, hwoken⟩ := List.mem_filter.mp htag
    exact List.mem_filter.mpr ⟨h.mem_of_isSome tag hqueue hwait, hwoken⟩
  counted_of_notMem p hwait hp := by
    by_cases hwoken : p ∈ woken
    · simp [hwoken]
    · have hmem : p ∉ ids := fun hmem => hp (List.mem_filter.mpr ⟨hmem, by simpa using hwoken⟩)
      simp [h.counted_of_notMem p hwait hmem]

/-- A process that is not inside the loop starts to wait. -/
theorem begin (id : ℕ) (wait : FutexWait) :
    FutexQueueExact ((queue.filter fun tag => tag.processId ≠ id) ++ [⟨id, wait.key⟩])
      ((ids.filter fun p => p ≠ id) ++ [id]) (update waits id (some wait))
      (update counted id false) where
  nodup := by
    rw [List.map_append, map_filter_processId queue (· ≠ id), List.nodup_append]
    refine ⟨h.nodup.filter _, List.nodup_singleton _, fun p hp q hq => ?_⟩
    rw [List.map_singleton, List.mem_singleton] at hq
    rw [hq]
    simpa using (List.mem_filter.mp hp).2
  order := by
    rw [List.map_append, map_filter_processId queue (· ≠ id), List.filter_append,
      List.filter_filter]
    refine congrArg₂ (· ++ ·) ?_ (by simp)
    refine Eq.trans (List.filter_congr fun p _ => ?_) (h.order_filter (· ≠ id))
    rw [Bool.eq_iff_iff]
    simp
    grind
  key_eq tag htag other hother := by
    rcases List.mem_append.mp htag with hmem | hmem
    · obtain ⟨hqueue, hne⟩ := List.mem_filter.mp hmem
      rw [update_of_ne (by simpa using hne)] at hother
      exact h.key_eq tag hqueue other hother
    · obtain rfl := List.mem_singleton.mp hmem
      rw [update_self] at hother
      rw [← Option.some.inj hother]
  isSome_of_mem p hp := by
    by_cases hid : p = id
    · simp [hid]
    · rw [update_of_ne hid]
      have hmem : p ∈ ids := by
        simpa [hid] using hp
      exact h.isSome_of_mem p hmem
  mem_of_isSome tag htag hwait := by
    by_cases hid : tag.processId = id
    · simp [hid]
    · rw [update_of_ne hid] at hwait
      have hqueue : tag ∈ queue := by
        rcases List.mem_append.mp htag with hmem | hmem
        · exact List.mem_of_mem_filter hmem
        · exact absurd (congrArg FutexWaitTag.processId (List.mem_singleton.mp hmem)) hid
      simpa [hid] using h.mem_of_isSome tag hqueue hwait
  counted_of_notMem p hwait hp := by
    have hid : p ≠ id := fun heq => hp (by simp [heq])
    rw [update_of_ne hid] at hwait ⊢
    exact h.counted_of_notMem p hwait fun hmem => hp (by simp [hid, hmem])

/-- A process leaves the loop and the queue. -/
theorem leave (id : ℕ) :
    FutexQueueExact (queue.filter fun tag => tag.processId ≠ id) (ids.filter fun p => p ≠ id)
      (update waits id none) counted where
  nodup := h.nodup.sublist (List.filter_sublist.map _)
  order := by
    rw [map_filter_processId queue (· ≠ id), List.filter_filter]
    refine Eq.trans (List.filter_congr fun p _ => ?_) (h.order_filter (· ≠ id))
    rw [Bool.eq_iff_iff]
    simp
  key_eq tag htag wait hwait := by
    obtain ⟨hqueue, hne⟩ := List.mem_filter.mp htag
    rw [update_of_ne (by simpa using hne)] at hwait
    exact h.key_eq tag hqueue wait hwait
  isSome_of_mem p hp := by
    obtain ⟨hmem, hne⟩ := List.mem_filter.mp hp
    rw [update_of_ne (by simpa using hne)]
    exact h.isSome_of_mem p hmem
  mem_of_isSome tag htag hwait := by
    obtain ⟨hqueue, hne⟩ := List.mem_filter.mp htag
    rw [update_of_ne (by simpa using hne)] at hwait
    exact List.mem_filter.mpr ⟨h.mem_of_isSome tag hqueue hwait, hne⟩
  counted_of_notMem p hwait hp := by
    have hid : p ≠ id := by
      rintro rfl
      simp at hwait
    rw [update_of_ne hid] at hwait
    exact h.counted_of_notMem p hwait fun hmem => hp (by simp [hid, hmem])

/-- A process stays inside the loop. -/
theorem stay {wait' : FutexWait} (hwait : waits id = some wait) (hkey : wait'.key = wait.key) :
    FutexQueueExact queue ids (update waits id (some wait')) counted := by
  have hsome (p : ℕ) : (update waits id (some wait') p).isSome = (waits p).isSome := by
    by_cases hid : p = id
    · simp [hid, hwait]
    · rw [update_of_ne hid]
  refine ⟨h.nodup, h.order, fun tag htag other hother => ?_, fun p hp => ?_, fun tag htag hp => ?_,
    fun p hp => ?_⟩
  · by_cases hid : tag.processId = id
    · rw [hid, update_self] at hother
      rw [← Option.some.inj hother, hkey]
      exact h.key_eq tag htag wait (hid ▸ hwait)
    · rw [update_of_ne hid] at hother
      exact h.key_eq tag htag other hother
  · exact (hsome p).trans (h.isSome_of_mem p hp)
  · exact h.mem_of_isSome tag htag ((hsome _).symm.trans hp)
  · exact h.counted_of_notMem p ((hsome p).symm.trans hp)

/-- Some processes die, and leave their entries behind. -/
theorem die (dead : ℕ → Prop) [DecidablePred dead] :
    FutexQueueExact queue (ids.filter fun p => ¬dead p) (fun p => if dead p then none else waits p)
      counted where
  nodup := h.nodup
  order := h.order_filter (¬dead ·)
  key_eq tag htag wait hwait := by
    split_ifs at hwait
    exact h.key_eq tag htag wait hwait
  isSome_of_mem p hp := by
    obtain ⟨hmem, hlive⟩ := List.mem_filter.mp hp
    rw [if_neg (by simpa using hlive)]
    exact h.isSome_of_mem p hmem
  mem_of_isSome tag htag hwait := by
    split_ifs at hwait with hdead
    · exact absurd hwait (by simp)
    · exact List.mem_filter.mpr ⟨h.mem_of_isSome tag htag hwait, by simpa using hdead⟩
  counted_of_notMem p hwait hp := by
    split_ifs at hwait with hdead
    · exact absurd hwait (by simp)
    · exact h.counted_of_notMem p hwait fun hmem =>
        hp (List.mem_filter.mpr ⟨hmem, by simpa using hdead⟩)

end

end FutexQueueExact

/-! ### Operations that leave the futex queue alone -/

namespace LogicLayer

variable {logic : LogicLayer} {id : ℕ}

theorem killProcess_futexWaitQueue (exitStatus : ℕ) :
    (logic.killProcess id exitStatus).sync.futexWaitQueue = logic.sync.futexWaitQueue := by
  rw [killProcess, reportChildExit]
  split_ifs
  · exact resumeBlocked_futexWaitQueue
  · rfl
  · rfl

theorem applySignal_futexWaitQueue (signal : ℕ) (effect : SignalEffect) :
    (logic.applySignal id signal effect).sync.futexWaitQueue = logic.sync.futexWaitQueue := by
  cases effect with
  | discard => rfl
  | pend => rfl
  | stop =>
    change ((logic.clearPending id signal).stopProcess id).sync.futexWaitQueue = _
    rw [stopProcess]
    split_ifs <;> rfl
  | resume =>
    change ((logic.clearPending id signal).continueProcess id).sync.futexWaitQueue = _
    rw [continueProcess]
    split_ifs <;> rfl
  | terminate coreDump => exact killProcess_futexWaitQueue _
  | handle action =>
    change (((logic.clearPending id signal).startHandler id signal action)).sync.futexWaitQueue = _
    rw [startHandler, beginHandler, wakeForHandler]
    split_ifs <;> rfl

theorem signalProcess_futexWaitQueue (accessible : UserAccess) (signal : ℕ) :
    ((logic.signalProcess accessible id signal).getD logic).sync.futexWaitQueue =
      logic.sync.futexWaitQueue := by
  rw [signalProcess_eq]
  split_ifs
  · exact applySignal_futexWaitQueue ..
  · rfl

theorem tickIntervalTimer_futexWaitQueue (accessible : UserAccess) :
    (logic.tickIntervalTimer accessible id).sync.futexWaitQueue = logic.sync.futexWaitQueue := by
  rw [tickIntervalTimer]
  split_ifs
  · rfl
  · exact signalProcess_futexWaitQueue accessible sigalrm
  · rfl

theorem tickIntervalTimers_futexWaitQueue (accessible : UserAccess) :
    (logic.tickIntervalTimers accessible).sync.futexWaitQueue = logic.sync.futexWaitQueue := by
  rw [tickIntervalTimers]
  generalize List.range maxProcesses = ids
  induction ids generalizing logic with
  | nil => rfl
  | cons id ids ih => exact ih.trans (tickIntervalTimer_futexWaitQueue accessible)

theorem tickSleepers_futexWaitQueue :
    logic.tickSleepers.sync.futexWaitQueue = logic.sync.futexWaitQueue := by
  rw [tickSleepers]
  dsimp only
  split
  · exact resumeBlocked_futexWaitQueue
  · rfl

theorem tick_futexWaitQueue (accessible : UserAccess) :
    (logic.tick accessible).sync.futexWaitQueue = logic.sync.futexWaitQueue := by
  rw [tick, tickSleepers_futexWaitQueue, tickIntervalTimers_futexWaitQueue]

theorem copyProcess_futexWaitQueue (outcome : CopyOutcome) :
    (logic.copyProcess id outcome).2.sync.futexWaitQueue = logic.sync.futexWaitQueue := by
  rw [copyProcess]
  split_ifs
  · split
    next => rfl
    next childId created hcreate =>
      obtain ⟨-, -, rfl⟩ := createChild_eq_some hcreate
      rw [finishCopy]
      split_ifs
      · rfl
      · exact killProcess_futexWaitQueue 0
  · rfl

theorem vforkFrom_futexWaitQueue (filesError : Option ℤ) (parentId : ℕ) :
    (logic.vforkFrom filesError parentId).2.sync.futexWaitQueue = logic.sync.futexWaitQueue := by
  rw [vforkFrom]
  split_ifs
  · rfl
  · split
    · split
      next => rfl
      next childId created hcreate =>
        obtain ⟨-, -, rfl⟩ := createChild_eq_some hcreate
        rcases filesError with _ | error
        · exact congrArg SynchronizationManager.futexWaitQueue
            (blockProcess_sync.trans addProcessToReadyQueue_sync)
        · rfl
    · rfl

theorem cloneVmFrom_futexWaitQueue (childStack : Option ℕ) (filesError : Option ℤ) (parentId : ℕ) :
    (logic.cloneVmFrom childStack filesError parentId).2.sync.futexWaitQueue =
      logic.sync.futexWaitQueue := by
  rw [cloneVmFrom]
  split
  · split
    next => rfl
    next childId created hcreate =>
      obtain ⟨-, -, rfl⟩ := createChild_eq_some hcreate
      rcases filesError with _ | error
      · exact congrArg SynchronizationManager.futexWaitQueue addProcessToReadyQueue_sync
      · rfl
  · rfl

theorem withRunning_futexWaitQueue {f : LogicLayer → ℕ → ℤ × LogicLayer}
    (hf : ∀ id, (f logic.trackRunning id).2.sync.futexWaitQueue = logic.sync.futexWaitQueue) :
    (logic.withRunning f).2.sync.futexWaitQueue = logic.sync.futexWaitQueue := by
  rw [withRunning]
  split
  · rfl
  · exact hf _

theorem sleepProcess_futexWaitQueue (waitTicks : ℕ) :
    (logic.sleepProcess id waitTicks).sync.futexWaitQueue = logic.sync.futexWaitQueue := by
  rw [sleepProcess]
  split_ifs
  · rw [schedule_sync]
    rfl
  · rfl

end LogicLayer

/-- The operations of the logic layer do not know the futex queue. -/
theorem ProcessCall.run_futexWaitQueue (logic : LogicLayer) (c : ProcessCall) :
    (c.run logic).sync.futexWaitQueue = logic.sync.futexWaitQueue := by
  cases c with
  | createKernelProcess state =>
    rw [run, LogicLayer.createKernelProcess]
    split <;> rfl
  | createUserProcess state =>
    rw [run, LogicLayer.createUserProcess]
    split
    next id created hcreate =>
      obtain ⟨-, -, rfl⟩ := LogicLayer.createChild_eq_some hcreate
      rfl
    next => rfl
  | copyProcess id outcome => exact LogicLayer.copyProcess_futexWaitQueue outcome
  | vfork filesError =>
    exact LogicLayer.withRunning_futexWaitQueue fun id =>
      LogicLayer.vforkFrom_futexWaitQueue filesError id
  | cloneVm childStack filesError =>
    exact LogicLayer.withRunning_futexWaitQueue fun id =>
      LogicLayer.cloneVmFrom_futexWaitQueue childStack filesError id
  | sleepProcess id waitTicks => exact LogicLayer.sleepProcess_futexWaitQueue waitTicks
  | blockProcess id =>
    exact congrArg SynchronizationManager.futexWaitQueue LogicLayer.blockProcess_sync
  | blockProcessForTTYInput id =>
    rw [run, LogicLayer.blockProcessForTTYInput]
    split_ifs
    · rw [LogicLayer.schedule_sync]
      change (logic.sync.addToTTYInputWaitQueue id).futexWaitQueue = _
      rw [SynchronizationManager.addToTTYInputWaitQueue]
      split_ifs <;> rfl
    · rfl
  | wakeProcess id => exact LogicLayer.resumeBlocked_futexWaitQueue
  | unblockProcess id => exact LogicLayer.resumeBlocked_futexWaitQueue
  | notifyTTYInputAvailable =>
    rw [run, LogicLayer.notifyTTYInputAvailable]
    split
    · rfl
    · exact LogicLayer.resumeBlocked_futexWaitQueue
  | signalProcess accessible id signal =>
    exact LogicLayer.signalProcess_futexWaitQueue accessible signal
  | addProcessToReadyQueue id =>
    exact congrArg SynchronizationManager.futexWaitQueue LogicLayer.addProcessToReadyQueue_sync
  | killProcess id exitStatus => exact LogicLayer.killProcess_futexWaitQueue exitStatus
  | tick accessible =>
    rw [run]
    exact LogicLayer.tick_futexWaitQueue accessible
  | schedule => exact congrArg SynchronizationManager.futexWaitQueue LogicLayer.schedule_sync
  | finishRunProcess target current =>
    rw [run, LogicLayer.finishRunProcess]
    split_ifs <;> rfl
  | getRunningProcess => rfl
  | changeRecord id f => rfl
  | changeMemory memory => rfl

end TwistedOS
