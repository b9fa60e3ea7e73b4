import TwistedOS.Logic.QueueRuns

/-!
# What operations on other processes leave alone

An operation that is directed at one process leaves the status, the queue entries and the wait for
a child of every other process alone, with two exceptions: the exit of a child wakes a parent that
waits for it, and a switch changes the status of the process that ran before. A process that is
blocked and does not wait for a child is therefore untouched by everything that is not directed at
it.

## Main definitions

* `LogicLayer.Frame` — the second state agrees with the first one for a process.
* `LogicLayer.DeathWakes` — the death of a process ends the wait of another one.

## Main results

* `LogicLayer.Frame.schedule`, `LogicLayer.Frame.killProcess` and one lemma for each other
  operation.
-/

namespace TwistedOS

open Function

namespace LogicLayer

variable {logic logic₁ logic₂ logic₃ : LogicLayer} {id p : ℕ}

/-- A record without the report of a child's exit. -/
def withoutChildExit (process : Process) : Process :=
  { process with
    hasPendingChildExit := false
    pendingChildId := processIdInvalid
    pendingChildStatus := 0 }

/-- The death of `id` ends the wait of `p` for a child. -/
def DeathWakes (logic : LogicLayer) (id p : ℕ) : Prop :=
  logic.parentOf id = p ∧ (logic.processes p).waitingForChild = true

/-- Nothing ends the wait of a process that does not wait. -/
theorem not_deathWakes (h : (logic.processes p).waitingForChild = false) :
    ¬logic.DeathWakes id p := fun hwakes => absurd (h.symm.trans hwakes.2) (by simp)

/-- The second state agrees with the first one for `p`, up to reports of child exits. -/
structure Frame (p : ℕ) (logic₁ logic₂ : LogicLayer) : Prop where
  record_eq : withoutChildExit (logic₂.processes p) = withoutChildExit (logic₁.processes p)
  mem_readyQueue : p ∈ logic₂.sched.readyQueue ↔ p ∈ logic₁.sched.readyQueue
  sleepQueue_eq : logic₂.sync.sleepQueue.filter (fun tag => tag.id = p) =
    logic₁.sync.sleepQueue.filter fun tag => tag.id = p
  mem_ttyInputWaitQueue : p ∈ logic₂.sync.ttyInputWaitQueue ↔ p ∈ logic₁.sync.ttyInputWaitQueue

/-- Removing the first entry of another process from the sleep queue. -/
theorem filter_eraseP_of_ne (h : p ≠ id) (queue : List SleepTag) :
    (queue.eraseP fun tag => tag.id = id).filter (fun tag => tag.id = p) =
      queue.filter fun tag => tag.id = p := by
  induction queue with
  | nil => rfl
  | cons tag queue ih =>
    by_cases htag : tag.id = id
    · have hne : tag.id ≠ p := fun heq => h (heq.symm.trans htag)
      rw [List.eraseP_cons_of_pos (by simp [htag]), List.filter_cons_of_neg (by simp [hne])]
    · rw [List.eraseP_cons_of_neg (by simp [htag]), List.filter_cons, List.filter_cons, ih]

namespace Frame

theorem refl (p : ℕ) (logic : LogicLayer) : Frame p logic logic := ⟨rfl, .rfl, rfl, .rfl⟩

section

variable (h : Frame p logic₁ logic₂)

include h

/-- A field that a report of a child's exit does not set. -/
theorem field_eq {α : Type*} (g : Process → α)
    (hg : ∀ process, g (withoutChildExit process) = g process) :
    g (logic₂.processes p) = g (logic₁.processes p) := by
  rw [← hg, h.record_eq, hg]

theorem status_eq : logic₂.status p = logic₁.status p :=
  h.field_eq Process.status fun _ => rfl

theorem waitingForChild_eq :
    (logic₂.processes p).waitingForChild = (logic₁.processes p).waitingForChild :=
  h.field_eq Process.waitingForChild fun _ => rfl

theorem realIntervalTimerRemainingTicks_eq :
    (logic₂.processes p).realIntervalTimerRemainingTicks =
      (logic₁.processes p).realIntervalTimerRemainingTicks :=
  h.field_eq Process.realIntervalTimerRemainingTicks fun _ => rfl

end

theorem trans (h₁ : Frame p logic₁ logic₂) (h₂ : Frame p logic₂ logic₃) :
    Frame p logic₁ logic₃ where
  record_eq := h₂.record_eq.trans h₁.record_eq
  mem_readyQueue := h₂.mem_readyQueue.trans h₁.mem_readyQueue
  sleepQueue_eq := h₂.sleepQueue_eq.trans h₁.sleepQueue_eq
  mem_ttyInputWaitQueue := h₂.mem_ttyInputWaitQueue.trans h₁.mem_ttyInputWaitQueue

/-- The record of `p` and the queues are unchanged. -/
theorem of_eq (hprocess : logic₂.processes p = logic₁.processes p)
    (hready : logic₂.sched.readyQueue = logic₁.sched.readyQueue)
    (hsync : logic₂.sync = logic₁.sync) : Frame p logic₁ logic₂ := by
  refine ⟨congrArg withoutChildExit hprocess, ?_, ?_, ?_⟩
  · rw [hready]
  · rw [hsync]
  · rw [hsync]

theorem modify (f : Process → Process) (h : p ≠ id) : Frame p logic (logic.modify id f) :=
  of_eq (ProcessManager.modify_processes_of_ne h) rfl rfl

theorem setStatus (status : ProcessState) (h : p ≠ id) : Frame p logic (logic.setStatus id status) :=
  modify _ h

theorem dropReady (h : p ≠ id) : Frame p logic (logic.dropReady id) where
  record_eq := rfl
  mem_readyQueue := by
    rw [dropReady_readyQueue]
    exact List.mem_erase_of_ne h
  sleepQueue_eq := rfl
  mem_ttyInputWaitQueue := .rfl

theorem pushReady (h : p ≠ id) : Frame p logic (logic.pushReady id) where
  record_eq := rfl
  mem_readyQueue := by simp [LogicLayer.pushReady, h]
  sleepQueue_eq := rfl
  mem_ttyInputWaitQueue := .rfl

theorem removeFromSleepQueue (h : p ≠ id) :
    Frame p logic { logic with sync := logic.sync.removeFromSleepQueue id } :=
  ⟨rfl, .rfl, filter_eraseP_of_ne h _, .rfl⟩

theorem removeFromTTYInputWaitQueue (h : p ≠ id) :
    Frame p logic { logic with sync := logic.sync.removeFromTTYInputWaitQueue id } :=
  ⟨rfl, .rfl, rfl, List.mem_erase_of_ne h⟩

theorem removeWaits (h : p ≠ id) : Frame p logic (logic.removeWaits id) :=
  (removeFromSleepQueue h).trans (removeFromTTYInputWaitQueue h)

/-! ### Switching, blocking and waking -/

theorem switchTo (h : p ≠ id) : Frame p logic (logic.switchTo id) := by
  have hprocess : (logic.pm.setStatus id .running).processes p = logic.processes p :=
    ProcessManager.modify_processes_of_ne h
  exact of_eq hprocess rfl rfl

theorem yieldProcess (h : logic.status p ≠ .running) : Frame p logic (logic.yieldProcess id) := by
  refine of_eq ?_ rfl rfl
  change (if logic.status id = .running then logic.pm.setStatus id .ready
    else logic.pm).processes p = _
  split_ifs with hid
  · exact ProcessManager.modify_processes_of_ne fun heq => h (heq ▸ hid)
  · rfl

/-- A switch to another process leaves a process alone that is not running. -/
theorem runProcess (hne : p ≠ id) (h : logic.status p ≠ .running) :
    Frame p logic (logic.runProcess id) := by
  rw [LogicLayer.runProcess]
  split_ifs
  · split
    · exact switchTo hne
    · split_ifs
      · exact refl p logic
      · exact (yieldProcess h).trans (switchTo hne)
  · exact refl p logic

/-- Scheduling leaves a process alone that is neither running nor queued. -/
theorem schedule (hqueue : p ∉ logic.sched.readyQueue) (h : logic.status p ≠ .running) :
    Frame p logic logic.schedule := by
  obtain ⟨hperm, -, hmem⟩ := logic.sched.selectNextProcess_spec
  rw [LogicLayer.schedule]
  rcases hselect : logic.sched.selectNextProcess with ⟨_ | id, sched⟩
  · rw [hselect] at hperm
    exact ⟨rfl, hperm.mem_iff, rfl, .rfl⟩
  · rw [hselect] at hperm hmem
    have hne : p ≠ id := fun heq => hqueue (heq ▸ hmem id rfl)
    have hrotated : Frame p logic { logic with sched := sched } :=
      ⟨rfl, hperm.mem_iff, rfl, .rfl⟩
    exact hrotated.trans (runProcess hne h)

theorem suspend (h : p ≠ id) : Frame p logic (logic.suspend id) :=
  (modify _ h).trans (dropReady h)

theorem blockProcess (hne : p ≠ id) (hqueue : p ∉ logic.sched.readyQueue)
    (h : logic.status p ≠ .running) : Frame p logic (logic.blockProcess id) := by
  rw [LogicLayer.blockProcess]
  split_ifs
  · have hsuspended : Frame p logic (logic.suspend id) := suspend hne
    exact hsuspended.trans (schedule (hsuspended.mem_readyQueue.not.mpr hqueue)
      (hsuspended.status_eq ▸ h))
  · exact refl p logic

theorem sleepProcess (waitTicks : ℕ) (hne : p ≠ id) (hqueue : p ∉ logic.sched.readyQueue)
    (h : logic.status p ≠ .running) : Frame p logic (logic.sleepProcess id waitTicks) := by
  rw [LogicLayer.sleepProcess]
  split_ifs
  · have hsuspended : Frame p logic (logic.suspend id) := suspend hne
    have hadded : Frame p logic
        { logic.suspend id with sync := logic.sync.addToSleepQueue id waitTicks } := by
      refine ⟨hsuspended.record_eq, hsuspended.mem_readyQueue, ?_, .rfl⟩
      simp [SynchronizationManager.addToSleepQueue, hne.symm]
    exact hadded.trans (schedule (hadded.mem_readyQueue.not.mpr hqueue) (hadded.status_eq ▸ h))
  · exact refl p logic

theorem blockProcessForTTYInput (hne : p ≠ id) (hqueue : p ∉ logic.sched.readyQueue)
    (h : logic.status p ≠ .running) : Frame p logic (logic.blockProcessForTTYInput id) := by
  rw [LogicLayer.blockProcessForTTYInput]
  split_ifs
  · have hsuspended : Frame p logic (logic.suspend id) := suspend hne
    have hadded : Frame p logic
        { logic.suspend id with sync := logic.sync.addToTTYInputWaitQueue id } := by
      refine ⟨hsuspended.record_eq, hsuspended.mem_readyQueue, ?_, ?_⟩ <;>
      · dsimp only
        rw [SynchronizationManager.addToTTYInputWaitQueue]
        split_ifs <;> simp [hne]
    exact hadded.trans (schedule (hadded.mem_readyQueue.not.mpr hqueue) (hadded.status_eq ▸ h))
  · exact refl p logic

theorem resumeBlocked (h : p ≠ id) : Frame p logic (logic.resumeBlocked id) := by
  rw [LogicLayer.resumeBlocked]
  split_ifs
  · have hset : Frame p logic (logic.setStatus id .ready) := setStatus .ready h
    exact (hset.trans (removeFromSleepQueue h)).trans (pushReady h)
  · exact refl p logic

theorem notifyTTYInputAvailable (h : logic.sync.getNextTTYInputWaiter ≠ some p) :
    Frame p logic logic.notifyTTYInputAvailable := by
  rw [LogicLayer.notifyTTYInputAvailable]
  split
  next => exact refl p logic
  next id hid =>
    have hne : p ≠ id := fun heq => h (heq ▸ hid)
    exact (removeFromTTYInputWaitQueue hne).trans (resumeBlocked hne)

theorem addProcessToReadyQueue (h : p ≠ id) : Frame p logic (logic.addProcessToReadyQueue id) := by
  rw [LogicLayer.addProcessToReadyQueue]
  split_ifs
  · exact (setStatus .ready h).trans (pushReady h)
  · exact pushReady h
  · exact refl p logic

/-! ### Killing -/

theorem freeRecord (h : p ≠ id) : Frame p logic (logic.freeRecord id) := by
  refine of_eq ?_ rfl rfl
  change (logic.pm.getRunningProcess.2.killProcess id).processes p = _
  rw [ProcessManager.killProcess]
  split_ifs
  · rw [ProcessManager.setProcess_processes_of_ne h, ProcessManager.getRunningProcess_processes]
  · rw [ProcessManager.getRunningProcess_processes]

theorem trackRunning : Frame p logic logic.trackRunning :=
  of_eq (congrFun ProcessManager.getRunningProcess_processes p) rfl rfl

/-- The report of an exit leaves a parent blocked that does not wait for a child. -/
theorem reportChildExit {parentId : ℕ} (exitStatus : ℕ)
    (h : p = parentId → (logic.processes p).waitingForChild = false) :
    Frame p logic (logic.reportChildExit parentId id exitStatus) := by
  rw [LogicLayer.reportChildExit]
  by_cases hp : p = parentId
  · subst hp
    split_ifs with hlive hwaits
    · exact absurd ((h rfl).symm.trans hwaits) (by simp)
    · have hself : (logic.modify p (recordChildExit id exitStatus)).processes p =
          recordChildExit id exitStatus (logic.processes p) :=
        ProcessManager.modify_processes_self
      exact ⟨(congrArg withoutChildExit hself).trans rfl, .rfl, rfl, .rfl⟩
    · exact refl p logic
  · split_ifs
    · exact (modify _ hp).trans ((modify _ hp).trans (resumeBlocked hp))
    · exact modify _ hp
    · exact refl p logic

/-- The death of another process leaves a process alone whose wait for a child it does not end. -/
theorem killProcess (exitStatus : ℕ) (hne : p ≠ id) (h : ¬logic.DeathWakes id p) :
    Frame p logic (logic.killProcess id exitStatus) := by
  have hdead : Frame p logic (((logic.freeRecord id).dropReady id).removeWaits id) :=
    ((freeRecord hne).trans (dropReady hne)).trans (removeWaits hne)
  refine hdead.trans (reportChildExit exitStatus fun hparent => ?_)
  rw [hdead.waitingForChild_eq]
  exact Bool.eq_false_iff.mpr fun hwaits => h ⟨hparent.symm, hwaits⟩

/-! ### Parts of signals -/

theorem stopProcess (h : p ≠ id) : Frame p logic (logic.stopProcess id) := by
  rw [LogicLayer.stopProcess]
  split_ifs
  · exact ((setStatus .blocked h).trans (dropReady h)).trans (removeWaits h)
  · exact refl p logic

theorem continueProcess (h : p ≠ id) : Frame p logic (logic.continueProcess id) := by
  rw [LogicLayer.continueProcess]
  split_ifs
  · exact ((removeWaits h).trans (setStatus .ready h)).trans (pushReady h)
  · exact refl p logic

theorem wakeForHandler (h : p ≠ id) : Frame p logic (logic.wakeForHandler id) := by
  rw [LogicLayer.wakeForHandler]
  split_ifs
  · exact (((modify _ h).trans (removeWaits h)).trans (setStatus .ready h)).trans (pushReady h)
  · exact refl p logic

theorem beginHandler (signal : ℕ) (mask : SignalMask) (h : p ≠ id) :
    Frame p logic (logic.beginHandler id signal mask) :=
  (modify _ h).trans (wakeForHandler h)

theorem storeQword {space address value : ℕ} : Frame p logic (logic.storeQword space address value) :=
  of_eq rfl rfl rfl

/-! ### Creation -/

theorem createChild {state : CpuState} {addressSpace : ℕ} {f : Process → Process}
    {created : LogicLayer} (hlive : logic.status p ≠ .terminated)
    (h : logic.createChild state addressSpace f = some (id, created)) :
    p ≠ id ∧ Frame p logic created := by
  obtain ⟨-, hfree, rfl⟩ := createChild_eq_some h
  have hne : p ≠ id := fun heq => hlive (heq ▸ hfree)
  exact ⟨hne, modify _ hne⟩

theorem createKernelProcess (state : CpuState) (hlive : logic.status p ≠ .terminated) :
    Frame p logic (logic.createKernelProcess state) := by
  rw [LogicLayer.createKernelProcess]
  rcases hcreate : logic.pm.createKernelProcess state with _ | ⟨id, pm⟩
  · exact refl p logic
  · obtain ⟨-, hfree, rfl⟩ := ProcessManager.createKernelProcess_eq_some hcreate
    have hne : p ≠ id := fun heq => hlive (heq ▸ hfree)
    have hcreated : Frame p logic { logic with
        pm := logic.pm.setProcess id (initializeProcessEntry id .ready .kernel none state) } :=
      of_eq (ProcessManager.setProcess_processes_of_ne hne) rfl rfl
    exact hcreated.trans (pushReady hne)

theorem createUserProcess (state : CpuState) (hlive : logic.status p ≠ .terminated) :
    Frame p logic (logic.createUserProcess state) := by
  rw [LogicLayer.createUserProcess]
  split
  next id created hcreate =>
    obtain ⟨hne, hcreated⟩ := createChild hlive hcreate
    have htaken : Frame p created created.takeAddressSpace := of_eq rfl rfl rfl
    exact (hcreated.trans htaken).trans (pushReady hne)
  next => exact refl p logic

theorem copyProcess {outcome : CopyOutcome} (hlive : logic.status p ≠ .terminated)
    (h : id = p → outcome = .failsAfterCreation → (logic.processes p).waitingForChild = false) :
    Frame p logic (logic.copyProcess id outcome).2 := by
  rw [LogicLayer.copyProcess]
  split_ifs with hsource
  · split
    next => exact refl p logic
    next childId created hcreate =>
      obtain ⟨hlt, -, hcreated_eq⟩ := createChild_eq_some hcreate
      obtain ⟨hne, hcreated⟩ := createChild hlive hcreate
      have hrecord : (created.processes childId).parrentId = id := by
        rw [hcreated_eq]
        exact congrArg Process.parrentId ProcessManager.setProcess_processes_self
      have htaken : Frame p logic created.takeAddressSpace := hcreated.trans (of_eq rfl rfl rfl)
      rw [finishCopy]
      split_ifs with hsucceeds
      · exact (htaken.trans (modify _ hne)).trans (pushReady hne)
      · have hfails : outcome = .failsAfterCreation := by
          cases outcome with
          | failsBeforeCreation => exact absurd rfl hsource.2.2.2
          | failsAfterCreation => rfl
          | succeeds => exact absurd rfl hsucceeds
        refine htaken.trans (killProcess _ hne fun hwakes => ?_)
        have hparent : created.takeAddressSpace.parentOf childId = id := by
          rw [parentOf, if_pos hlt]
          exact hrecord
        have hwaits := htaken.waitingForChild_eq.symm.trans hwakes.2
        rw [h (hparent.symm.trans hwakes.1) hfails] at hwaits
        exact absurd hwaits (by simp)
  · exact refl p logic

theorem discardChild (h : p ≠ id) : Frame p logic (logic.discardChild id) := by
  refine of_eq ?_ rfl rfl
  change (logic.pm.killProcess id).processes p = _
  rw [ProcessManager.killProcess]
  split_ifs
  · exact ProcessManager.setProcess_processes_of_ne h
  · rfl

theorem beginVfork {parentId : ℕ} (hne : p ≠ id) (hparent : p ≠ parentId)
    (hqueue : p ∉ logic.sched.readyQueue) (h : logic.status p ≠ .running) :
    Frame p logic (logic.beginVfork parentId id) := by
  have hready : Frame p logic ((((logic.modify parentId (markVforkParent id)).modify id
      (markVforkChild parentId)).addProcessToReadyQueue id).modify parentId markKernelContext) :=
    (((modify _ hparent).trans (modify _ hne)).trans (addProcessToReadyQueue hne)).trans
      (modify _ hparent)
  exact hready.trans (blockProcess hparent (hready.mem_readyQueue.not.mpr hqueue)
    (hready.status_eq ▸ h))

theorem vforkFrom {parentId : ℕ} (filesError : Option ℤ) (hparent : p ≠ parentId)
    (hlive : logic.status p ≠ .terminated) (hqueue : p ∉ logic.sched.readyQueue)
    (h : logic.status p ≠ .running) : Frame p logic (logic.vforkFrom filesError parentId).2 := by
  rw [LogicLayer.vforkFrom]
  split_ifs
  · exact refl p logic
  · split
    · split
      next => exact refl p logic
      next childId created hcreate =>
        obtain ⟨hne, hcreated⟩ := createChild hlive hcreate
        rcases filesError with _ | error
        · exact hcreated.trans (beginVfork hne hparent (hcreated.mem_readyQueue.not.mpr hqueue)
            (hcreated.status_eq ▸ h))
        · exact hcreated.trans (discardChild hne)
    · exact refl p logic

theorem cloneVmFrom {parentId : ℕ} (childStack : Option ℕ) (filesError : Option ℤ)
    (hlive : logic.status p ≠ .terminated) :
    Frame p logic (logic.cloneVmFrom childStack filesError parentId).2 := by
  rw [LogicLayer.cloneVmFrom]
  split
  · split
    next => exact refl p logic
    next childId created hcreate =>
      obtain ⟨hne, hcreated⟩ := createChild hlive hcreate
      rcases filesError with _ | error
      · exact hcreated.trans (addProcessToReadyQueue hne)
      · exact hcreated.trans (discardChild hne)
  · exact refl p logic

/-- The running process that a system call finds is not `p` when `p` does not run. -/
theorem ne_running (h : logic.status p ≠ .running) (hid : logic.running = some id) : p ≠ id :=
  fun heq => h (heq ▸ (ProcessManager.getRunningProcess_eq_some hid).2.1)

theorem withRunning {f : LogicLayer → ℕ → ℤ × LogicLayer}
    (h : ∀ id, logic.running = some id →
      Frame p logic.trackRunning (f logic.trackRunning id).2) :
    Frame p logic (logic.withRunning f).2 := by
  rw [LogicLayer.withRunning]
  split
  next => exact trackRunning
  next id hid => exact trackRunning.trans (h id hid)

theorem finishRunProcess {target current : ℕ} (h : logic.status p ≠ .running)
    (hcurrent : logic.status current = .running) :
    Frame p logic (logic.finishRunProcess target current) := by
  have hne : p ≠ current := fun heq => h (heq ▸ hcurrent)
  rw [LogicLayer.finishRunProcess]
  split_ifs with htarget
  · have hpt : p ≠ target := fun heq => h (heq ▸ htarget)
    exact (setStatus .ready hpt).trans (setStatus .running hne)
  · exact setStatus .running hne

end Frame

end LogicLayer

end TwistedOS
