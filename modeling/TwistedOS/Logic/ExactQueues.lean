import Mathlib.Data.List.Perm.Subperm
import TwistedOS.Logic.ProcessCalls

/-!
# Exact queues

The ready queue and the wait queues are *exact* when the ids in the ready queue are those of the
processes that are ready or running, without repetition, only the tracked process is running, and
no process has two entries in the sleep and terminal queues, or one while it is not blocked.

The elementary changes of a status with the matching change of a queue keep this
(`ExactQueues.toBlocked`, `ExactQueues.toReady`, `ExactQueues.terminate`, `ExactQueues.switch`).
The operations of the logic layer are built from them. Two operations keep it only from some
states: an unblocked process must not have an entry in the terminal queue, which `UnblockProcess`
and `WakeProcess` leave alone, and `AddProcessToReadyQueue` must not find a process that is queued
already or waits.

## Main definitions

* `ExactQueues`, `LogicLayer.QueuesExact`.

## Main results

* `LogicLayer.QueuesExact.schedule`, `LogicLayer.QueuesExact.killProcess`,
  `LogicLayer.QueuesExact.signalProcess`, `LogicLayer.QueuesExact.tick` and one lemma for each other
  operation.
-/

namespace TwistedOS

open Function

/-- The queues agree with the statuses of the processes: `ready` is the ready queue, `waiting` has
an id for each entry of the sleep and terminal queues, and `current` is the tracked process. -/
structure ExactQueues (status : ℕ → ProcessState) (ready waiting : List ℕ) (current : ℕ) :
    Prop where
  nodup_ready : ready.Nodup
  mem_ready : ∀ p, p ∈ ready ↔ status p = .running ∨ status p = .ready
  running_eq : ∀ p, status p = .running → p = current
  nodup_waiting : waiting.Nodup
  blocked_of_waiting : ∀ p ∈ waiting, status p = .blocked
  outside : ∀ p, maxProcesses ≤ p → status p = .terminated

namespace ExactQueues

variable {status : ℕ → ProcessState} {ready waiting : List ℕ} {current p : ℕ}

section

variable (h : ExactQueues status ready waiting current)

include h

theorem lt_of_ne_terminated (hp : status p ≠ .terminated) : p < maxProcesses := by
  by_contra hle
  exact hp (h.outside p (by omega))

theorem notMem_waiting (hp : status p ≠ .blocked) : p ∉ waiting :=
  fun hmem => hp (h.blocked_of_waiting p hmem)

/-- Rotating the ready queue and dropping wait entries. -/
theorem of_perm {ready' waiting' : List ℕ} (hready : ready'.Perm ready)
    (hwaiting : waiting'.Subperm waiting) :
    ExactQueues status ready' waiting' current where
  nodup_ready := hready.nodup_iff.mpr h.nodup_ready
  mem_ready q := by rw [hready.mem_iff, h.mem_ready]
  running_eq := h.running_eq
  nodup_waiting := by
    obtain ⟨l, hl, hsub⟩ := hwaiting
    exact hl.nodup_iff.mp (hsub.nodup h.nodup_waiting)
  blocked_of_waiting q hq := h.blocked_of_waiting q (List.Subperm.subset hwaiting hq)
  outside := h.outside

/-- A process that is ready or running becomes blocked and leaves the ready queue. -/
theorem toBlocked (hp : status p = .running ∨ status p = .ready) :
    ExactQueues (update status p .blocked) (ready.erase p) waiting current where
  nodup_ready := h.nodup_ready.erase p
  mem_ready q := by
    rw [h.nodup_ready.mem_erase_iff, h.mem_ready]
    by_cases hq : q = p
    · simp [hq]
    · simp [hq, update_of_ne]
  running_eq q hq := by
    by_cases hqp : q = p
    · simp [hqp] at hq
    · exact h.running_eq q (by rwa [update_of_ne hqp] at hq)
  nodup_waiting := h.nodup_waiting
  blocked_of_waiting q hq := by
    by_cases hqp : q = p
    · simp [hqp]
    · rw [update_of_ne hqp]
      exact h.blocked_of_waiting q hq
  outside q hq := by
    have hlt : p < maxProcesses := h.lt_of_ne_terminated (by rcases hp with hp | hp <;> simp [hp])
    rw [update_of_ne (by omega)]
    exact h.outside q hq

/-- A blocked process gets an entry in a wait queue. -/
theorem wait (hp : status p = .blocked) (hnew : p ∉ waiting) {waiting' : List ℕ}
    (hperm : waiting'.Perm (p :: waiting)) :
    ExactQueues status ready waiting' current where
  nodup_ready := h.nodup_ready
  mem_ready := h.mem_ready
  running_eq := h.running_eq
  nodup_waiting := hperm.nodup_iff.mpr (List.nodup_cons.mpr ⟨hnew, h.nodup_waiting⟩)
  blocked_of_waiting q hq := by
    rcases List.mem_cons.mp (hperm.mem_iff.mp hq) with rfl | hq
    · exact hp
    · exact h.blocked_of_waiting q hq
  outside := h.outside

/-- A process that is neither queued nor waiting becomes ready and is queued. -/
theorem toReady (hlt : p < maxProcesses) (hp : status p = .blocked ∨ status p = .terminated)
    (hfree : p ∉ waiting) :
    ExactQueues (update status p .ready) (ready ++ [p]) waiting current where
  nodup_ready := by
    have hnot : p ∉ ready := by
      rw [h.mem_ready]
      rcases hp with hp | hp <;> simp [hp]
    exact (List.perm_append_singleton p ready).nodup_iff.mpr
      (List.nodup_cons.mpr ⟨hnot, h.nodup_ready⟩)
  mem_ready q := by
    rw [List.mem_append, List.mem_singleton, h.mem_ready]
    by_cases hq : q = p
    · simp [hq]
    · simp [hq, update_of_ne]
  running_eq q hq := by
    by_cases hqp : q = p
    · simp [hqp] at hq
    · exact h.running_eq q (by rwa [update_of_ne hqp] at hq)
  nodup_waiting := h.nodup_waiting
  blocked_of_waiting q hq := by
    have hqp : q ≠ p := by
      rintro rfl
      exact hfree hq
    rw [update_of_ne hqp]
    exact h.blocked_of_waiting q hq
  outside q hq := by
    rw [update_of_ne (by omega)]
    exact h.outside q hq

/-- A process is terminated and leaves all queues; another process may be tracked. -/
theorem terminate {waiting' : List ℕ} {current' : ℕ} (hwaiting : waiting'.Subperm waiting)
    (hfree : p ∉ waiting') (hcurrent : ∀ q, status q = .running → q = current') :
    ExactQueues (update status p .terminated) (ready.erase p) waiting' current' where
  nodup_ready := h.nodup_ready.erase p
  mem_ready q := by
    rw [h.nodup_ready.mem_erase_iff, h.mem_ready]
    by_cases hq : q = p
    · simp [hq]
    · simp [hq, update_of_ne]
  running_eq q hq := by
    by_cases hqp : q = p
    · simp [hqp] at hq
    · exact hcurrent q (by rwa [update_of_ne hqp] at hq)
  nodup_waiting := (h.of_perm (.refl _) hwaiting).nodup_waiting
  blocked_of_waiting q hq := by
    have hqp : q ≠ p := by
      rintro rfl
      exact hfree hq
    rw [update_of_ne hqp]
    exact h.blocked_of_waiting q (List.Subperm.subset hwaiting hq)
  outside q hq := by
    by_cases hqp : q = p
    · simp [hqp]
    · rw [update_of_ne hqp]
      exact h.outside q hq

/-- A queued process starts to run in place of the tracked one. -/
theorem switch (hp : p ∈ ready) {status' : ℕ → ProcessState} (hself : status' p = .running)
    (hother : ∀ q, q ≠ p → status' q = if status q = .running then .ready else status q) :
    ExactQueues status' ready waiting p where
  nodup_ready := h.nodup_ready
  mem_ready q := by
    by_cases hq : q = p
    · simp [hq, hself, hp]
    · rw [hother q hq, h.mem_ready]
      split_ifs with hrun <;> simp [hrun]
  running_eq q hq := by
    by_contra hqp
    rw [hother q hqp] at hq
    split_ifs at hq with hrun
    exact hrun hq
  nodup_waiting := h.nodup_waiting
  blocked_of_waiting q hq := by
    have hblocked := h.blocked_of_waiting q hq
    have hqp : q ≠ p := by
      rintro rfl
      rw [h.mem_ready, hblocked] at hp
      simp at hp
    rw [hother q hqp, hblocked]
    rfl
  outside q hq := by
    have hterm := h.outside q hq
    have hqp : q ≠ p := by
      rintro rfl
      rw [h.mem_ready, hterm] at hp
      simp at hp
    rw [hother q hqp, hterm]
    rfl

end

end ExactQueues

namespace LogicLayer

variable {logic : LogicLayer} {id p : ℕ}

/-- The ids of the entries in the sleep queue and in the terminal queue. -/
def waiting (logic : LogicLayer) : List ℕ :=
  logic.sync.sleepers ++ logic.sync.ttyInputWaitQueue

/-- The queues of the logic layer agree with its process table. -/
def QueuesExact (logic : LogicLayer) : Prop :=
  ExactQueues logic.status logic.sched.readyQueue logic.waiting logic.pm.currentProcessId

theorem status_modify (f : Process → Process) :
    (logic.modify id f).status = update logic.status id (f (logic.processes id)).status := by
  funext q
  by_cases hq : q = id
  · subst hq
    rw [update_self]
    exact congrArg Process.status ProcessManager.modify_processes_self
  · rw [update_of_ne hq]
    exact congrArg Process.status (ProcessManager.modify_processes_of_ne hq)

theorem status_modify_of_eq {f : Process → Process}
    (hf : (f (logic.processes id)).status = logic.status id) :
    (logic.modify id f).status = logic.status := by
  rw [status_modify, hf, update_eq_self]

theorem status_setStatus (status : ProcessState) :
    (logic.setStatus id status).status = update logic.status id status :=
  status_modify _

@[simp] theorem markKernelContext_status (process : Process) :
    (markKernelContext process).status = process.status := by
  rw [markKernelContext]
  split_ifs <;> rfl

theorem status_yieldProcess : (logic.yieldProcess id).status =
    update logic.status id (if logic.status id = .running then .ready else logic.status id) := by
  split_ifs with hrun
  · rw [← status_setStatus]
    simp only [yieldProcess, hrun, if_true, setStatus]
  · rw [update_eq_self]
    simp only [yieldProcess, hrun, if_false]

theorem status_switchTo : (logic.switchTo id).status = update logic.status id .running := by
  rw [← status_setStatus]
  rfl

theorem status_suspend : (logic.suspend id).status = update logic.status id .blocked := by
  have hmodify : (logic.modify id fun process =>
      { markKernelContext process with status := .blocked }).status = _ := status_modify _
  exact hmodify

@[simp] theorem suspend_readyQueue :
    (logic.suspend id).sched.readyQueue = logic.sched.readyQueue.erase id :=
  Scheduler.removeFromReadyQueue_readyQueue _

@[simp] theorem dropReady_readyQueue :
    (logic.dropReady id).sched.readyQueue = logic.sched.readyQueue.erase id :=
  Scheduler.removeFromReadyQueue_readyQueue _

theorem waiting_removeWaits :
    (logic.removeWaits id).waiting =
      logic.sync.sleepers.erase id ++ logic.sync.ttyInputWaitQueue.erase id := by
  have hsleep : (logic.sync.removeFromSleepQueue id).sleepers = logic.sync.sleepers.erase id :=
    SynchronizationManager.removeFromSleepQueue_sleepers
  rw [← hsleep]
  rfl

theorem waiting_removeWaits_subperm : (logic.removeWaits id).waiting.Subperm logic.waiting := by
  rw [waiting_removeWaits]
  exact (List.Sublist.append List.erase_sublist List.erase_sublist).subperm

namespace QueuesExact

section

variable (h : logic.QueuesExact)

include h

theorem notMem_removeWaits : id ∉ (logic.removeWaits id).waiting := by
  have hnodup := List.nodup_append.mp h.nodup_waiting
  rw [waiting_removeWaits, List.mem_append, not_or]
  exact ⟨hnodup.1.not_mem_erase, hnodup.2.1.not_mem_erase⟩

/-- A state with the same statuses, queues and tracked process. -/
theorem congr {logic' : LogicLayer} (hstatus : logic'.status = logic.status)
    (hready : logic'.sched.readyQueue = logic.sched.readyQueue)
    (hwaiting : logic'.waiting = logic.waiting)
    (hcurrent : logic'.pm.currentProcessId = logic.pm.currentProcessId) : logic'.QueuesExact := by
  rw [QueuesExact, hstatus, hready, hwaiting, hcurrent]
  exact h

theorem modify {f : Process → Process} (hf : (f (logic.processes id)).status = logic.status id) :
    (logic.modify id f).QueuesExact :=
  h.congr (status_modify_of_eq hf) rfl rfl rfl

theorem getCurrentProcess (hp : logic.status p = .running) :
    logic.pm.getCurrentProcess = some p := by
  have hlt : p < maxProcesses := h.lt_of_ne_terminated (by simp [hp])
  have hcurrent := h.running_eq p hp
  subst hcurrent
  rw [ProcessManager.getCurrentProcess, if_pos ⟨hlt, by simp [hp]⟩]

/-- Running a process of the ready queue. -/
theorem runProcess (hid : id ∈ logic.sched.readyQueue) : (logic.runProcess id).QueuesExact := by
  have hlive : logic.Live id := by
    have hne : logic.status id ≠ .terminated := by
      rcases (h.mem_ready id).mp hid with hid | hid <;> simp [hid]
    exact ⟨h.lt_of_ne_terminated hne, hne⟩
  rw [LogicLayer.runProcess, if_pos hlive]
  rcases hcurrent : logic.pm.getCurrentProcess with _ | current
  · refine h.switch hid (by rw [status_switchTo, update_self]) fun q hq => ?_
    have hnot : logic.status q ≠ .running := fun hrun => by
      simp [h.getCurrentProcess hrun] at hcurrent
    rw [if_neg hnot, status_switchTo, update_of_ne hq]
  · by_cases heq : current = id
    · simp only [heq, if_true]
      exact h
    simp only [heq, if_false]
    refine h.switch hid (by rw [status_switchTo, update_self]) fun q hq => ?_
    rw [status_switchTo, update_of_ne hq, status_yieldProcess]
    by_cases hqc : q = current
    · rw [hqc, update_self]
    · have hnot : logic.status q ≠ .running := fun hrun => by
        rw [h.getCurrentProcess hrun] at hcurrent
        exact hqc (Option.some.inj hcurrent)
      rw [update_of_ne hqc, if_neg hnot]

theorem schedule : logic.schedule.QueuesExact := by
  obtain ⟨hperm, -, hmem⟩ := logic.sched.selectNextProcess_spec
  rw [LogicLayer.schedule]
  rcases hselect : logic.sched.selectNextProcess with ⟨_ | id, sched⟩
  · rw [hselect] at hperm
    exact h.of_perm hperm (.refl _)
  · rw [hselect] at hperm hmem
    have hrotated : ({ logic with sched := sched } : LogicLayer).QueuesExact :=
      h.of_perm hperm (.refl _)
    exact hrotated.runProcess (hperm.mem_iff.mpr (hmem id rfl))

/-- A running process stops and gets an entry in a wait queue. -/
theorem suspend (hid : logic.status id = .running) : (logic.suspend id).QueuesExact := by
  rw [QueuesExact, status_suspend, suspend_readyQueue]
  exact h.toBlocked (.inl hid)

theorem suspend_wait (hid : logic.status id = .running) {sync : SynchronizationManager}
    (hsync : (sync.sleepers ++ sync.ttyInputWaitQueue).Perm (id :: logic.waiting)) :
    ({ logic.suspend id with sync := sync } : LogicLayer).QueuesExact := by
  have hsuspended : (logic.suspend id).status id = .blocked := by
    rw [status_suspend, update_self]
  exact (h.suspend hid).wait hsuspended (h.notMem_waiting (by simp [hid])) hsync

theorem blockProcess : (logic.blockProcess id).QueuesExact := by
  rw [LogicLayer.blockProcess]
  split_ifs with hid
  · exact (h.suspend hid.2).schedule
  · exact h

theorem sleepProcess (waitTicks : ℕ) : (logic.sleepProcess id waitTicks).QueuesExact := by
  rw [LogicLayer.sleepProcess]
  split_ifs with hid
  · refine (h.suspend_wait hid.2 ?_).schedule
    rw [SynchronizationManager.addToSleepQueue_sleepers, List.append_assoc]
    exact List.perm_middle
  · exact h

theorem blockProcessForTTYInput : (logic.blockProcessForTTYInput id).QueuesExact := by
  rw [LogicLayer.blockProcessForTTYInput]
  split_ifs with hid
  · have hnot : id ∉ logic.sync.ttyInputWaitQueue := fun hmem =>
      h.notMem_waiting (by simp [hid.2]) (List.mem_append_right _ hmem)
    refine (h.suspend_wait hid.2 ?_).schedule
    rw [SynchronizationManager.addToTTYInputWaitQueue, if_neg hnot]
    change (logic.sync.sleepers ++ (logic.sync.ttyInputWaitQueue ++ [id])).Perm _
    rw [← List.append_assoc]
    exact List.perm_append_singleton _ _
  · exact h

/-- A blocked process without an entry in the terminal queue becomes ready. -/
theorem resumeBlocked (hfree : logic.status id = .blocked → id ∉ logic.sync.ttyInputWaitQueue) :
    (logic.resumeBlocked id).QueuesExact := by
  rw [LogicLayer.resumeBlocked]
  split_ifs with hid
  · have hnodup := List.nodup_append.mp h.nodup_waiting
    have hdropped : ExactQueues logic.status logic.sched.readyQueue
        (logic.sync.sleepers.erase id ++ logic.sync.ttyInputWaitQueue)
        logic.pm.currentProcessId :=
      h.of_perm (.refl _) (List.Sublist.append List.erase_sublist (.refl _)).subperm
    have hnot : id ∉ logic.sync.sleepers.erase id ++ logic.sync.ttyInputWaitQueue := by
      rw [List.mem_append, not_or]
      exact ⟨hnodup.1.not_mem_erase, hfree hid.2⟩
    have hready := hdropped.toReady hid.1 (.inl hid.2) hnot
    rw [← status_setStatus, ← SynchronizationManager.removeFromSleepQueue_sleepers] at hready
    exact hready
  · exact h

theorem notifyTTYInputAvailable : logic.notifyTTYInputAvailable.QueuesExact := by
  rw [LogicLayer.notifyTTYInputAvailable]
  rcases logic.sync.getNextTTYInputWaiter with _ | id
  · exact h
  · have hnodup := (List.nodup_append.mp h.nodup_waiting).2.1
    have hsub : (logic.sync.sleepers ++ logic.sync.ttyInputWaitQueue.erase id).Subperm
        logic.waiting := (List.Sublist.append (.refl _) List.erase_sublist).subperm
    exact resumeBlocked (h.of_perm (.refl _) hsub) fun _ => hnodup.not_mem_erase

theorem stopProcess : (logic.stopProcess id).QueuesExact := by
  rw [LogicLayer.stopProcess]
  split_ifs with hid
  · have hstopped : ExactQueues (logic.setStatus id .blocked).status
        ((logic.setStatus id .blocked).dropReady id).sched.readyQueue logic.waiting
        logic.pm.currentProcessId := by
      rw [status_setStatus, dropReady_readyQueue]
      exact h.toBlocked hid
    exact hstopped.of_perm (.refl _) waiting_removeWaits_subperm
  · exact h

theorem removeWaits : (logic.removeWaits id).QueuesExact :=
  h.of_perm (.refl _) waiting_removeWaits_subperm

theorem continueProcess : (logic.continueProcess id).QueuesExact := by
  rw [LogicLayer.continueProcess]
  split_ifs with hid
  · have hlt : id < maxProcesses := h.lt_of_ne_terminated (by simp [hid])
    have hremoved : (logic.removeWaits id).QueuesExact := h.removeWaits
    have hready := hremoved.toReady hlt (.inl hid) h.notMem_removeWaits
    rw [← status_setStatus] at hready
    exact hready
  · exact h

end

end QueuesExact

/-! ### Terminal waits of parents -/

/-- No process that has an entry in the terminal queue waits for a child. -/
def NoChildWaitOnTTY (logic : LogicLayer) : Prop :=
  ∀ p ∈ logic.sync.ttyInputWaitQueue, (logic.processes p).waitingForChild = false

/-- The second state has no further entries in the terminal queue and no further processes that
wait for a child. -/
structure FewerTTYWaits (logic logic' : LogicLayer) : Prop where
  mem_of_mem : ∀ p ∈ logic'.sync.ttyInputWaitQueue, p ∈ logic.sync.ttyInputWaitQueue
  waitingForChild_of : ∀ p, (logic'.processes p).waitingForChild = true →
    (logic.processes p).waitingForChild = true

namespace FewerTTYWaits

variable {logic₁ logic₂ logic₃ : LogicLayer}

theorem refl (logic : LogicLayer) : FewerTTYWaits logic logic := ⟨fun _ => id, fun _ => id⟩

theorem trans (h₁ : FewerTTYWaits logic₁ logic₂) (h₂ : FewerTTYWaits logic₂ logic₃) :
    FewerTTYWaits logic₁ logic₃ where
  mem_of_mem p hp := h₁.mem_of_mem p (h₂.mem_of_mem p hp)
  waitingForChild_of p hp := h₁.waitingForChild_of p (h₂.waitingForChild_of p hp)

/-- Only the terminal queue and the records matter. -/
theorem congr (h : FewerTTYWaits logic₁ logic₂)
    (hqueue : logic₃.sync.ttyInputWaitQueue = logic₂.sync.ttyInputWaitQueue)
    (hprocesses : logic₃.pm.processes = logic₂.pm.processes) : FewerTTYWaits logic₁ logic₃ where
  mem_of_mem p hp := h.mem_of_mem p (hqueue ▸ hp)
  waitingForChild_of p hp := h.waitingForChild_of p (by
    rw [← hp]
    exact congrArg Process.waitingForChild (congrFun hprocesses.symm p))

theorem noChildWaitOnTTY (h : FewerTTYWaits logic₁ logic₂) (hnone : logic₁.NoChildWaitOnTTY) :
    logic₂.NoChildWaitOnTTY := fun p hp => by
  have hp₁ := hnone p (h.mem_of_mem p hp)
  by_contra htrue
  rw [h.waitingForChild_of p (Bool.eq_true_of_not_eq_false htrue)] at hp₁
  exact absurd hp₁ (by simp)

/-- Changing a record without setting its `WaitingForChild`. -/
theorem modify {f : Process → Process}
    (hf : (f (logic.processes id)).waitingForChild = true →
      (logic.processes id).waitingForChild = true) : FewerTTYWaits logic (logic.modify id f) where
  mem_of_mem _ hp := hp
  waitingForChild_of p hp := by
    by_cases hpid : p = id
    · subst hpid
      refine hf ?_
      rw [← hp]
      exact congrArg Process.waitingForChild ProcessManager.modify_processes_self.symm
    · rw [← hp]
      exact congrArg Process.waitingForChild (ProcessManager.modify_processes_of_ne hpid).symm

theorem setStatus (status : ProcessState) : FewerTTYWaits logic (logic.setStatus id status) :=
  modify fun h => h

theorem removeWaits : FewerTTYWaits logic (logic.removeWaits id) where
  mem_of_mem _ hp := List.mem_of_mem_erase hp
  waitingForChild_of _ hp := hp

theorem resumeBlocked : FewerTTYWaits logic (logic.resumeBlocked id) := by
  rw [LogicLayer.resumeBlocked]
  split_ifs
  · have hset : FewerTTYWaits logic (logic.setStatus id .ready) := setStatus .ready
    exact hset.congr rfl rfl
  · exact refl logic

theorem stopProcess : FewerTTYWaits logic (logic.stopProcess id) := by
  rw [LogicLayer.stopProcess]
  split_ifs
  · have hset : FewerTTYWaits logic (logic.setStatus id .blocked) := setStatus .blocked
    have hdropped : FewerTTYWaits logic ((logic.setStatus id .blocked).dropReady id) :=
      hset.congr rfl rfl
    exact hdropped.trans removeWaits
  · exact refl logic

theorem continueProcess : FewerTTYWaits logic (logic.continueProcess id) := by
  rw [LogicLayer.continueProcess]
  split_ifs
  · have hset : FewerTTYWaits logic ((logic.removeWaits id).setStatus id .ready) :=
      removeWaits.trans (setStatus .ready)
    exact hset.congr rfl rfl
  · exact refl logic

theorem reportChildExit (parentId exitStatus : ℕ) :
    FewerTTYWaits logic (logic.reportChildExit parentId id exitStatus) := by
  rw [LogicLayer.reportChildExit]
  split_ifs
  · refine (modify ?_).trans ((modify ?_).trans resumeBlocked)
    · exact fun h => h
    · exact fun h => absurd h (by simp [stopWaitingForChild])
  · exact modify fun h => h
  · exact refl logic

theorem freeRecord : FewerTTYWaits logic (logic.freeRecord id) where
  mem_of_mem _ hp := hp
  waitingForChild_of p hp := by
    change ((logic.pm.getRunningProcess.2.killProcess id).processes p).waitingForChild = true at hp
    rw [ProcessManager.killProcess] at hp
    split_ifs at hp
    · by_cases hpid : p = id
      · subst hpid
        rw [ProcessManager.setProcess_processes_self] at hp
        exact absurd hp (by simp [initializeProcessEntry])
      · rw [ProcessManager.setProcess_processes_of_ne hpid,
          ProcessManager.getRunningProcess_processes] at hp
        exact hp
    · rwa [ProcessManager.getRunningProcess_processes] at hp

theorem killProcess (exitStatus : ℕ) : FewerTTYWaits logic (logic.killProcess id exitStatus) := by
  have hdropped : FewerTTYWaits logic ((logic.freeRecord id).dropReady id) :=
    freeRecord.congr rfl rfl
  exact (hdropped.trans removeWaits).trans (reportChildExit _ exitStatus)

theorem applyDefaultAction (signal : ℕ) :
    FewerTTYWaits logic (logic.applyDefaultAction id signal) := by
  rw [LogicLayer.applyDefaultAction]
  split
  · exact refl logic
  · exact stopProcess
  · exact continueProcess
  · exact killProcess _
  · exact killProcess _

theorem wakeForHandler : FewerTTYWaits logic (logic.wakeForHandler id) := by
  rw [LogicLayer.wakeForHandler]
  split_ifs
  · exact (((modify fun h => h).trans removeWaits).trans (setStatus .ready)).congr rfl rfl
  · exact refl _

theorem beginHandler (signal : ℕ) (mask : SignalMask) :
    FewerTTYWaits logic (logic.beginHandler id signal mask) :=
  (modify fun h => h).trans wakeForHandler

theorem setProcessSignalState {accessible : UserAccess} {signal handler restorer : ℕ}
    {entered : LogicLayer}
    (h : logic.setProcessSignalState accessible id signal handler restorer = some entered) :
    FewerTTYWaits logic entered := by
  rw [LogicLayer.setProcessSignalState] at h
  split at h
  · exact absurd h (by simp)
  · split_ifs at h
    obtain rfl := Option.some.inj h
    have hmodify : FewerTTYWaits logic (logic.modify id (enterHandler signal handler)) :=
      modify fun h => h
    exact hmodify.congr rfl rfl

theorem runSignalAction (accessible : UserAccess) (signal : ℕ) (action : ProcessSignalAction) :
    FewerTTYWaits logic (logic.runSignalAction accessible id signal action) := by
  rw [LogicLayer.runSignalAction]
  split_ifs
  · exact refl logic
  · exact applyDefaultAction signal
  · exact modify fun h => h
  · split
    · exact killProcess _
    · exact (setProcessSignalState ‹_›).trans (beginHandler signal _)

theorem deliverSignal (accessible : UserAccess) (signal : ℕ) :
    FewerTTYWaits logic (logic.deliverSignal accessible id signal) := by
  rw [LogicLayer.deliverSignal]
  split
  · exact applyDefaultAction signal
  · split_ifs
    · exact runSignalAction accessible signal _
    · exact applyDefaultAction signal

theorem signalProcess {accessible : UserAccess} {signal : ℕ} {logic' : LogicLayer}
    (h : logic.signalProcess accessible id signal = some logic') : FewerTTYWaits logic logic' := by
  rw [LogicLayer.signalProcess] at h
  have hclear : FewerTTYWaits logic (logic.clearPending id signal) := modify fun h => h
  split_ifs at h
  · obtain rfl := Option.some.inj h
    exact hclear.trans (killProcess _)
  · obtain rfl := Option.some.inj h
    exact hclear.trans stopProcess
  · obtain rfl := Option.some.inj h
    exact hclear.trans continueProcess
  · obtain rfl := Option.some.inj h
    exact modify fun h => h
  · obtain rfl := Option.some.inj h
    exact hclear.trans (deliverSignal accessible signal)

theorem fireIntervalTimer (accessible : UserAccess) :
    FewerTTYWaits logic (logic.fireIntervalTimer accessible id) := by
  refine FewerTTYWaits.trans ?_ (modify fun h => ?_)
  · rcases hsignal : logic.signalProcess accessible id sigalrm with _ | signalled
    · exact refl _
    · exact signalProcess hsignal
  · rw [reloadIntervalTimer] at h
    split_ifs at h <;> exact h

theorem tickIntervalTimer (accessible : UserAccess) :
    FewerTTYWaits logic (logic.tickIntervalTimer accessible id) := by
  have hticked : FewerTTYWaits logic (logic.modify id decrementIntervalTimer) := modify fun h => h
  rw [LogicLayer.tickIntervalTimer]
  split_ifs
  · exact refl logic
  · exact hticked.trans (fireIntervalTimer accessible)
  · exact hticked

end FewerTTYWaits

/-! ### Killing, signals and ticks -/

theorem status_freeRecord (hout : maxProcesses ≤ id → logic.status id = .terminated) :
    (logic.freeRecord id).status = update logic.status id .terminated := by
  funext q
  change ((logic.pm.getRunningProcess.2.killProcess id).processes q).status = _
  rw [ProcessManager.killProcess]
  split_ifs with hid
  · by_cases hq : q = id
    · rw [hq, update_self, ProcessManager.setProcess_processes_self]
      rfl
    · rw [update_of_ne hq, ProcessManager.setProcess_processes_of_ne hq,
        ProcessManager.getRunningProcess_processes]
  · rw [ProcessManager.getRunningProcess_processes, ← hout (by omega), update_eq_self]

theorem freeRecord_currentProcessId :
    (logic.freeRecord id).pm.currentProcessId =
      logic.pm.getRunningProcess.2.currentProcessId := by
  change (logic.pm.getRunningProcess.2.killProcess id).currentProcessId = _
  rw [ProcessManager.killProcess]
  split_ifs <;> rfl

namespace QueuesExact

section

variable (h : logic.QueuesExact)

include h

theorem running_eq_tracked {q : ℕ} (hq : logic.status q = .running) :
    q = logic.pm.getRunningProcess.2.currentProcessId :=
  ProcessManager.tracked_of_running h.running_eq (h.lt_of_ne_terminated (by simp [hq])) hq

theorem trackRunning : logic.trackRunning.QueuesExact := by
  have hstatus : logic.trackRunning.status = logic.status :=
    funext fun q => congrArg Process.status
      (congrFun ProcessManager.getRunningProcess_processes q)
  rw [QueuesExact, hstatus]
  exact { h with running_eq := fun q => h.running_eq_tracked }

theorem reportChildExit (hnone : logic.NoChildWaitOnTTY) (parentId exitStatus : ℕ) :
    (logic.reportChildExit parentId id exitStatus).QueuesExact := by
  rw [LogicLayer.reportChildExit]
  split_ifs with hlive hwaits
  · refine ((h.modify rfl).modify rfl).resumeBlocked fun _ hmem => ?_
    rw [hnone parentId hmem] at hwaits
    exact absurd hwaits (by simp)
  · exact h.modify rfl
  · exact h

theorem killProcess (hnone : logic.NoChildWaitOnTTY) (exitStatus : ℕ) :
    (logic.killProcess id exitStatus).QueuesExact := by
  have hdead : (((logic.freeRecord id).dropReady id).removeWaits id).QueuesExact := by
    have hstatus : (((logic.freeRecord id).dropReady id).removeWaits id).status = _ :=
      status_freeRecord (h.outside id)
    have hready : (((logic.freeRecord id).dropReady id).removeWaits id).sched.readyQueue =
        logic.sched.readyQueue.erase id := dropReady_readyQueue
    rw [QueuesExact, hstatus, hready]
    refine h.terminate waiting_removeWaits_subperm h.notMem_removeWaits fun q hq => ?_
    rw [h.running_eq_tracked hq]
    exact freeRecord_currentProcessId.symm
  have hfewer : FewerTTYWaits logic ((logic.freeRecord id).dropReady id) :=
    FewerTTYWaits.freeRecord.congr rfl rfl
  exact hdead.reportChildExit ((hfewer.trans .removeWaits).noChildWaitOnTTY hnone) _ _

theorem applyDefaultAction (hnone : logic.NoChildWaitOnTTY) (signal : ℕ) :
    (logic.applyDefaultAction id signal).QueuesExact := by
  rw [LogicLayer.applyDefaultAction]
  split
  · exact h
  · exact h.stopProcess
  · exact h.continueProcess
  · exact h.killProcess hnone _
  · exact h.killProcess hnone _

theorem wakeForHandler : (logic.wakeForHandler id).QueuesExact := by
  rw [LogicLayer.wakeForHandler]
  split_ifs with hid
  · have hmarked : (logic.modify id markInterrupted).QueuesExact := h.modify rfl
    have hblocked : (logic.modify id markInterrupted).status id = .blocked := by
      rw [status_modify_of_eq rfl]
      exact hid
    have hlt : id < maxProcesses := h.lt_of_ne_terminated (by simp [hid])
    have hremoved : ((logic.modify id markInterrupted).removeWaits id).QueuesExact :=
      hmarked.removeWaits
    have hready := hremoved.toReady hlt (.inl hblocked) hmarked.notMem_removeWaits
    rw [← status_setStatus] at hready
    exact hready
  · exact h

theorem setProcessSignalState {accessible : UserAccess} {signal handler restorer : ℕ}
    {entered : LogicLayer}
    (hentered : logic.setProcessSignalState accessible id signal handler restorer = some entered) :
    entered.QueuesExact := by
  rw [LogicLayer.setProcessSignalState] at hentered
  split at hentered
  · exact absurd hentered (by simp)
  · split_ifs at hentered
    obtain rfl := Option.some.inj hentered
    refine QueuesExact.modify ?_ rfl
    exact h.congr rfl rfl rfl rfl

section

variable (hnone : logic.NoChildWaitOnTTY)

include hnone

theorem runSignalAction (accessible : UserAccess) (signal : ℕ) (action : ProcessSignalAction) :
    (logic.runSignalAction accessible id signal action).QueuesExact := by
  rw [LogicLayer.runSignalAction]
  split_ifs
  · exact h
  · exact h.applyDefaultAction hnone signal
  · exact h.modify rfl
  · split
    · exact h.killProcess hnone _
    · exact ((h.setProcessSignalState ‹_›).modify rfl).wakeForHandler

theorem deliverSignal (accessible : UserAccess) (signal : ℕ) :
    (logic.deliverSignal accessible id signal).QueuesExact := by
  rw [LogicLayer.deliverSignal]
  split
  · exact h.applyDefaultAction hnone signal
  · split_ifs
    · exact h.runSignalAction hnone accessible signal _
    · exact h.applyDefaultAction hnone signal

theorem signalProcess {accessible : UserAccess} {signal : ℕ} {logic' : LogicLayer}
    (hsignal : logic.signalProcess accessible id signal = some logic') : logic'.QueuesExact := by
  rw [LogicLayer.signalProcess] at hsignal
  have hcleared : (logic.clearPending id signal).QueuesExact := h.modify rfl
  have hclear : FewerTTYWaits logic (logic.clearPending id signal) := .modify fun h => h
  have hnone' := hclear.noChildWaitOnTTY hnone
  split_ifs at hsignal
  · obtain rfl := Option.some.inj hsignal
    exact hcleared.killProcess hnone' _
  · obtain rfl := Option.some.inj hsignal
    exact hcleared.stopProcess
  · obtain rfl := Option.some.inj hsignal
    exact hcleared.continueProcess
  · obtain rfl := Option.some.inj hsignal
    exact h.modify rfl
  · obtain rfl := Option.some.inj hsignal
    exact hcleared.deliverSignal hnone' accessible signal

theorem fireIntervalTimer (accessible : UserAccess) :
    (logic.fireIntervalTimer accessible id).QueuesExact := by
  refine QueuesExact.modify ?_ ?_
  · rcases hsignal : logic.signalProcess accessible id sigalrm with _ | signalled
    · exact h
    · exact h.signalProcess hnone hsignal
  · rw [reloadIntervalTimer]
    split_ifs <;> rfl

theorem tickIntervalTimer (accessible : UserAccess) :
    (logic.tickIntervalTimer accessible id).QueuesExact := by
  have hticked : (logic.modify id decrementIntervalTimer).QueuesExact := h.modify rfl
  have hfewer : FewerTTYWaits logic (logic.modify id decrementIntervalTimer) := .modify fun h => h
  rw [LogicLayer.tickIntervalTimer]
  split_ifs
  · exact h
  · exact hticked.fireIntervalTimer (hfewer.noChildWaitOnTTY hnone) accessible
  · exact hticked

theorem tickIntervalTimers (accessible : UserAccess) :
    (logic.tickIntervalTimers accessible).QueuesExact := by
  suffices hfold : ∀ (ids : List ℕ) (logic : LogicLayer), logic.QueuesExact →
      logic.NoChildWaitOnTTY →
      (ids.foldl (fun logic id => logic.tickIntervalTimer accessible id) logic).QueuesExact from
    hfold _ logic h hnone
  intro ids
  induction ids with
  | nil => exact fun _ h _ => h
  | cons id ids ih =>
    intro logic h hnone
    exact ih _ (h.tickIntervalTimer hnone accessible)
      ((FewerTTYWaits.tickIntervalTimer accessible).noChildWaitOnTTY hnone)

end

theorem tickSleepers : logic.tickSleepers.QueuesExact := by
  have hticked : ({ logic with sync := logic.sync.tick } : LogicLayer).QueuesExact := by
    refine h.congr rfl rfl ?_ rfl
    exact congrArg (· ++ logic.sync.ttyInputWaitQueue) SynchronizationManager.tick_sleepers
  rw [LogicLayer.tickSleepers]
  rcases hwake : logic.sync.tick.getNextProcessToWake with _ | id
  · exact hticked
  · refine hticked.resumeBlocked fun _ hmem => ?_
    have hsleeps := SynchronizationManager.mem_sleepers_of_getNextProcessToWake hwake
    exact (List.nodup_append.mp hticked.nodup_waiting).2.2 id hsleeps id hmem rfl

theorem tick (hnone : logic.NoChildWaitOnTTY) (accessible : UserAccess) :
    (logic.tick accessible).QueuesExact :=
  (h.tickIntervalTimers hnone accessible).tickSleepers

end

end QueuesExact

end LogicLayer

end TwistedOS
