import TwistedOS.Logic.ProcessFrame

/-!
# Fields that operations keep

Scheduling changes the status of a record and the segments of its saved state, a signal changes the
signal fields and the registers as well, and the death of a process changes its own record and the
child report in the record of its parent. A function of the record that does not look at these is
kept for every process.

The outcome of a signal is decided by the state before it (`LogicLayer.signalEffect`), and
`SignalProcess` does no more than carry it out (`LogicLayer.signalProcess_eq`).

## Main definitions

* `IgnoresScheduling`, `IgnoresSignals`, `IgnoresExits` — what a function of a record looks at.
* `LogicLayer.Keeps` — the function has the same value on all records of two states.
* `SignalEffect`, `LogicLayer.signalEffect`, `LogicLayer.applySignal`.

## Main results

* `LogicLayer.signalProcess_eq`.
* `LogicLayer.Keeps.schedule`, `LogicLayer.Keeps.applySignal`.
* `LogicLayer.KeepsLife.applySignal`, `LogicLayer.KeepsLife.killProcess_of_not`.
-/

namespace TwistedOS

open Function
open ProcessManager (getRunningProcess_processes modify_processes_of_ne modify_processes_self)
open ProcessManager (setProcess)

/-- The function does not look at what scheduling changes. -/
structure IgnoresScheduling {α : Type*} (g : Process → α) : Prop where
  status : ∀ process status, g { process with status := status } = g process
  kernelContext : ∀ process, g (LogicLayer.markKernelContext process) = g process

/-- The function does not look at what the delivery of a signal changes. -/
structure IgnoresSignals {α : Type*} (g : Process → α) : Prop extends IgnoresScheduling g where
  pending : ∀ process mask, g { process with pendingSignalMask := mask } = g process
  interrupted : ∀ process, g (LogicLayer.markInterrupted process) = g process
  handlerMask : ∀ signal mask process, g (LogicLayer.maskForHandler signal mask process) = g process
  handler : ∀ signal address process,
    g (LogicLayer.enterHandler signal address process) = g process

/-- The function does not look at what the exit of a child changes. -/
structure IgnoresExits {α : Type*} (g : Process → α) : Prop where
  report : ∀ id status process, g (LogicLayer.recordChildExit id status process) = g process
  stopWaiting : ∀ process, g (LogicLayer.stopWaitingForChild process) = g process

/-- What `SignalProcess` does to its target. -/
inductive SignalEffect where
  | discard
  | pend
  | stop
  | resume
  | terminate (coreDump : Bool)
  | handle (action : ProcessSignalAction)

namespace LogicLayer

variable {α : Type*} {g : Process → α} {logic logic₁ logic₂ logic₃ : LogicLayer} {id p : ℕ}

/-! ### The effect of a signal -/

/-- The effect of a signal that is handled by default. -/
def defaultSignalEffect (signal : ℕ) : SignalEffect :=
  match getDefaultSignalAction signal with
  | .ignore => .discard
  | .stop => .stop
  | .continue => .resume
  | .terminateCore => .terminate true
  | .terminate => .terminate false

/-- The effect of a signal for which the process has an action. -/
def actionSignalEffect (accessible : UserAccess) (id : ℕ) (process : Process) (signal : ℕ)
    (action : ProcessSignalAction) : SignalEffect :=
  if action.handler = sigIgn then .discard
  else if action.handler = sigDfl then defaultSignalEffect signal
  else if process.hasSavedSignalState then .pend
  else if process.addressSpace.isSome ∧
      canEnterHandler accessible id (interruptedRegisters process) action.handler then .handle action
  else .terminate false

/-- The effect of a signal that is not blocked. -/
def deliveredSignalEffect (accessible : UserAccess) (id : ℕ) (process : Process) (signal : ℕ) :
    SignalEffect :=
  match process.signalActions with
  | none => defaultSignalEffect signal
  | some actions =>
    if process.level = .user ∧ process.addressSpace.isSome then
      actionSignalEffect accessible id process signal (actions (signal - 1))
    else defaultSignalEffect signal

/-- The effect of a signal on a live process. -/
def signalEffect (accessible : UserAccess) (id : ℕ) (process : Process) (signal : ℕ) :
    SignalEffect :=
  if signal = sigkill then .terminate false
  else if signal = sigstop then .stop
  else if signal = sigcont then .resume
  else if process.blockedSignalMask &&& signalMaskBit signal ≠ 0 then .pend
  else deliveredSignalEffect accessible id process signal

/-- The start of the handler of a signal for a process that can enter it. -/
def startHandler (logic : LogicLayer) (id signal : ℕ) (action : ProcessSignalAction) : LogicLayer :=
  let registers := interruptedRegisters (logic.processes id)
  (((logic.storeQword ((logic.processes id).addressSpace.getD 0) (registers.rsp - 8)
    (signalReturnAddress action.restorer registers.rip)).modify id
      (enterHandler signal action.handler))).beginHandler id signal action.mask

/-- Carries out the effect of a signal whose pending bit was cleared. -/
def carryOut (logic : LogicLayer) (id signal : ℕ) : SignalEffect → LogicLayer
  | .discard => logic
  | .pend => logic.setPending id signal
  | .stop => logic.stopProcess id
  | .resume => logic.continueProcess id
  | .terminate coreDump => logic.killProcess id (signalWaitStatus signal coreDump)
  | .handle action => logic.startHandler id signal action

/-- Carries out the effect of a signal. -/
def applySignal (logic : LogicLayer) (id signal : ℕ) (effect : SignalEffect) : LogicLayer :=
  (logic.clearPending id signal).carryOut id signal effect

/-- Setting a pending bit that was just cleared. -/
theorem setPending_clearPending (signal : ℕ) :
    (logic.clearPending id signal).setPending id signal = logic.setPending id signal := by
  have hmask : withPending signal (withoutPending signal (logic.processes id)) =
      withPending signal (logic.processes id) := by
    have hbits (mask bit : SignalMask) : mask &&& ~~~bit ||| bit = mask ||| bit := by
      ext i
      simp only [BitVec.getElem_or, BitVec.getElem_and, BitVec.getElem_not]
      grind
    simp only [withPending, withoutPending, hbits]
  rw [setPending, clearPending, setPending, modify, modify, modify]
  simp only [ProcessManager.modify, ProcessManager.setProcess_processes_self, hmask]
  rw [setProcess, setProcess, setProcess, update_idem]

theorem applyDefaultAction_eq (signal : ℕ) :
    logic.applyDefaultAction id signal = logic.carryOut id signal (defaultSignalEffect signal) := by
  rw [applyDefaultAction, defaultSignalEffect]
  cases getDefaultSignalAction signal <;> rfl

section

variable (accessible : UserAccess)

include accessible

theorem setProcessSignalState_eq (signal handler restorer space : ℕ)
    (hspace : (logic.processes id).addressSpace = some space) :
    logic.setProcessSignalState accessible id signal handler restorer =
      if canEnterHandler accessible id (interruptedRegisters (logic.processes id)) handler then
        some ((logic.storeQword space ((interruptedRegisters (logic.processes id)).rsp - 8)
          (signalReturnAddress restorer (interruptedRegisters (logic.processes id)).rip)).modify id
            (enterHandler signal handler))
      else none := by
  rw [setProcessSignalState]
  simp only [hspace]

theorem runSignalAction_eq (signal : ℕ) (action : ProcessSignalAction) :
    logic.runSignalAction accessible id signal action = logic.carryOut id signal
      (actionSignalEffect accessible id (logic.processes id) signal action) := by
  rw [runSignalAction, actionSignalEffect]
  split_ifs with higno hdfl hsaved henter
  · rfl
  · exact applyDefaultAction_eq signal
  · rfl
  · obtain ⟨space, hspace⟩ := Option.isSome_iff_exists.mp henter.1
    rw [setProcessSignalState_eq _ _ _ _ space hspace, if_pos henter.2, carryOut, startHandler,
      hspace]
    rfl
  · rcases hspace : (logic.processes id).addressSpace with _ | space
    · rw [setProcessSignalState]
      simp only [hspace]
      rfl
    · rw [setProcessSignalState_eq _ _ _ _ space hspace, if_neg]
      · rfl
      · exact fun hcan => henter ⟨by simp [hspace], hcan⟩

theorem deliverSignal_eq (signal : ℕ) :
    logic.deliverSignal accessible id signal = logic.carryOut id signal
      (deliveredSignalEffect accessible id (logic.processes id) signal) := by
  rw [deliverSignal, deliveredSignalEffect]
  rcases (logic.processes id).signalActions with _ | actions
  · exact applyDefaultAction_eq signal
  · dsimp only
    split_ifs
    · exact runSignalAction_eq accessible signal _
    · exact applyDefaultAction_eq signal

/-- `SignalProcess` carries out the effect of the signal. -/
theorem signalProcess_eq (signal : ℕ) :
    logic.signalProcess accessible id signal =
      if 1 ≤ signal ∧ signal ≤ signalMax ∧ logic.Live id then
        some (logic.applySignal id signal (signalEffect accessible id (logic.processes id) signal))
      else none := by
  have hcleared : (logic.clearPending id signal).processes id =
      withoutPending signal (logic.processes id) := modify_processes_self
  rw [signalProcess, signalEffect]
  split_ifs
  · rfl
  · rfl
  · rfl
  · exact congrArg some (setPending_clearPending signal).symm
  · rw [deliverSignal_eq, hcleared]
    rfl
  · rfl

end

/-- The effect of a signal when `SignalProcess` accepts it. -/
def receivedEffect (logic : LogicLayer) (accessible : UserAccess) (id signal : ℕ) :
    Option SignalEffect :=
  if 1 ≤ signal ∧ signal ≤ signalMax ∧ logic.Live id then
    some (signalEffect accessible id (logic.processes id) signal)
  else none

theorem signalProcess_getD (accessible : UserAccess) (signal : ℕ) :
    (logic.signalProcess accessible id signal).getD logic =
      ((logic.receivedEffect accessible id signal).map (logic.applySignal id signal)).getD logic := by
  rw [signalProcess_eq, receivedEffect]
  split_ifs <;> rfl

/-- The countdown of an interval timer does not change the effect of a signal. -/
theorem receivedEffect_decrementIntervalTimer (accessible : UserAccess) (signal : ℕ) :
    (logic.modify id decrementIntervalTimer).receivedEffect accessible id signal =
      logic.receivedEffect accessible id signal := by
  have hself : (logic.modify id decrementIntervalTimer).processes id =
      decrementIntervalTimer (logic.processes id) := modify_processes_self
  simp only [receivedEffect, Live, status, hself]
  rfl

/-! ### Signals and ticks to other processes -/

/-- A change of the dying process that keeps its parent. -/
theorem DeathWakes.of_modify {f : Process → Process} (hne : p ≠ id)
    (hf : (f (logic.processes id)).parrentId = (logic.processes id).parrentId)
    (h : (logic.modify id f).DeathWakes id p) : logic.DeathWakes id p := by
  have hparent : ((logic.modify id f).processes id).parrentId = (logic.processes id).parrentId :=
    (congrArg Process.parrentId modify_processes_self).trans hf
  obtain ⟨hid, hwaits⟩ := h
  rw [parentOf, hparent] at hid
  exact ⟨hid, (Frame.modify f hne).waitingForChild_eq.symm.trans hwaits⟩

namespace Frame

/-- A signal to another process leaves a process alone whose wait for a child it does not end. -/
theorem applySignal (signal : ℕ) {effect : SignalEffect} (hne : p ≠ id)
    (h : ∀ coreDump, effect = .terminate coreDump → ¬logic.DeathWakes id p) :
    Frame p logic (logic.applySignal id signal effect) := by
  have hclear : Frame p logic (logic.clearPending id signal) := modify _ hne
  refine hclear.trans ?_
  cases effect with
  | discard => exact refl p _
  | pend => exact modify _ hne
  | stop => exact stopProcess hne
  | resume => exact continueProcess hne
  | terminate coreDump =>
    exact killProcess _ hne fun hwakes => h coreDump rfl (hwakes.of_modify hne rfl)
  | handle action =>
    exact (storeQword.trans (modify _ hne)).trans (beginHandler signal action.mask hne)

theorem signalProcess {accessible : UserAccess} {signal : ℕ} (hne : p ≠ id)
    (h : ∀ coreDump, logic.receivedEffect accessible id signal = some (.terminate coreDump) →
      ¬logic.DeathWakes id p) :
    Frame p logic ((logic.signalProcess accessible id signal).getD logic) := by
  rw [signalProcess_getD]
  rcases heffect : logic.receivedEffect accessible id signal with _ | effect
  · exact refl p logic
  · exact applySignal signal hne fun coreDump hterminate => h coreDump (hterminate ▸ heffect)

/-- The interval timer of another process. -/
theorem tickIntervalTimer {accessible : UserAccess} (hne : p ≠ id)
    (h : (logic.processes id).realIntervalTimerRemainingTicks = 1 → ∀ coreDump,
      logic.receivedEffect accessible id sigalrm = some (.terminate coreDump) →
        ¬logic.DeathWakes id p) :
    Frame p logic (logic.tickIntervalTimer accessible id) := by
  have hticked : Frame p logic (logic.modify id decrementIntervalTimer) := modify _ hne
  rw [LogicLayer.tickIntervalTimer]
  split_ifs with hidle hfires
  · exact refl p logic
  · refine hticked.trans (Frame.trans (signalProcess hne fun coreDump heffect hwakes => ?_)
      (modify _ hne))
    rw [receivedEffect_decrementIntervalTimer] at heffect
    exact h hfires coreDump heffect (hwakes.of_modify hne rfl)
  · exact hticked

end Frame

/-! ### Functions of the records that operations keep -/

/-- The function has the same value on every record of the two states. -/
def Keeps (g : Process → α) (logic₁ logic₂ : LogicLayer) : Prop :=
  ∀ p, g (logic₂.processes p) = g (logic₁.processes p)

namespace Keeps

theorem refl (g : Process → α) (logic : LogicLayer) : Keeps g logic logic := fun _ => rfl

theorem trans (h₁ : Keeps g logic₁ logic₂) (h₂ : Keeps g logic₂ logic₃) : Keeps g logic₁ logic₃ :=
  fun p => (h₂ p).trans (h₁ p)

theorem of_eq (h : logic₂.pm.processes = logic₁.pm.processes) : Keeps g logic₁ logic₂ :=
  fun p => congrArg g (congrFun h p)

theorem modify {f : Process → Process} (h : g (f (logic.processes id)) = g (logic.processes id)) :
    Keeps g logic (logic.modify id f) := fun p => by
  by_cases hp : p = id
  · subst hp
    rw [← h]
    exact congrArg g modify_processes_self
  · exact congrArg g (modify_processes_of_ne hp)

theorem setStatus (hg : IgnoresScheduling g) (status : ProcessState) :
    Keeps g logic (logic.setStatus id status) :=
  modify (hg.status _ _)

theorem trackRunning : Keeps g logic logic.trackRunning :=
  of_eq getRunningProcess_processes

section

variable (hg : IgnoresScheduling g)

include hg

theorem runProcess : Keeps g logic (logic.runProcess id) := by
  have hswitch (logic : LogicLayer) : Keeps g logic (logic.switchTo id) := by
    have hset : Keeps g logic (logic.setStatus id .running) := setStatus hg _
    exact hset.trans (of_eq rfl)
  rw [LogicLayer.runProcess]
  split_ifs
  · split
    · exact hswitch logic
    next current _ =>
      split_ifs
      · exact refl g logic
      · refine Keeps.trans (fun p => ?_) (hswitch _)
        change g ((if logic.status current = .running then logic.pm.setStatus current .ready
          else logic.pm).processes p) = _
        split_ifs
        · exact setStatus hg ProcessState.ready p
        · rfl
  · exact refl g logic

theorem schedule : Keeps g logic logic.schedule := by
  rw [LogicLayer.schedule]
  split
  · exact of_eq rfl
  · exact (of_eq rfl : Keeps g logic { logic with sched := _ }).trans (runProcess hg)

theorem suspend : Keeps g logic (logic.suspend id) := by
  have hmodify : Keeps g logic (logic.modify id fun process =>
      { markKernelContext process with status := .blocked }) :=
    modify ((hg.status _ _).trans (hg.kernelContext _))
  exact hmodify.trans (of_eq rfl)

theorem blockProcess : Keeps g logic (logic.blockProcess id) := by
  rw [LogicLayer.blockProcess]
  split_ifs
  · exact (suspend hg).trans (schedule hg)
  · exact refl g logic

theorem sleepProcess (waitTicks : ℕ) : Keeps g logic (logic.sleepProcess id waitTicks) := by
  rw [LogicLayer.sleepProcess]
  split_ifs
  · have hqueued : Keeps g logic
        { logic.suspend id with sync := logic.sync.addToSleepQueue id waitTicks } := suspend hg
    exact hqueued.trans (schedule hg)
  · exact refl g logic

theorem blockProcessForTTYInput : Keeps g logic (logic.blockProcessForTTYInput id) := by
  rw [LogicLayer.blockProcessForTTYInput]
  split_ifs
  · have hqueued : Keeps g logic
        { logic.suspend id with sync := logic.sync.addToTTYInputWaitQueue id } := suspend hg
    exact hqueued.trans (schedule hg)
  · exact refl g logic

theorem resumeBlocked : Keeps g logic (logic.resumeBlocked id) := by
  rw [LogicLayer.resumeBlocked]
  split_ifs
  · have hset : Keeps g logic (logic.setStatus id .ready) := setStatus hg _
    exact hset.trans (of_eq rfl)
  · exact refl g logic

theorem notifyTTYInputAvailable : Keeps g logic logic.notifyTTYInputAvailable := by
  rw [LogicLayer.notifyTTYInputAvailable]
  split
  · exact refl g logic
  next id _ =>
    have hdequeued : Keeps g logic
        { logic with sync := logic.sync.removeFromTTYInputWaitQueue id } := of_eq rfl
    exact hdequeued.trans (resumeBlocked hg)

theorem addProcessToReadyQueue : Keeps g logic (logic.addProcessToReadyQueue id) := by
  rw [LogicLayer.addProcessToReadyQueue]
  split_ifs
  · exact (setStatus hg _).trans (of_eq rfl)
  · exact of_eq rfl
  · exact refl g logic

theorem stopProcess : Keeps g logic (logic.stopProcess id) := by
  rw [LogicLayer.stopProcess]
  split_ifs
  · exact (setStatus hg _).trans (of_eq rfl)
  · exact refl g logic

theorem continueProcess : Keeps g logic (logic.continueProcess id) := by
  rw [LogicLayer.continueProcess]
  split_ifs
  · have hset : Keeps g (logic.removeWaits id) ((logic.removeWaits id).setStatus id .ready) :=
      setStatus hg _
    exact (of_eq rfl : Keeps g logic (logic.removeWaits id)).trans (hset.trans (of_eq rfl))
  · exact refl g logic

end

section

variable (hg : IgnoresSignals g) (signal : ℕ)

include hg signal

theorem startHandler (action : ProcessSignalAction) :
    Keeps g logic (logic.startHandler id signal action) := by
  have hstored (space address value : ℕ) : Keeps g logic (logic.storeQword space address value) :=
    of_eq rfl
  have hwake (logic : LogicLayer) : Keeps g logic (logic.wakeForHandler id) := by
    rw [wakeForHandler]
    split_ifs
    · have hmarked : Keeps g logic (logic.modify id markInterrupted) := modify (hg.interrupted _)
      have hready : Keeps g ((logic.modify id markInterrupted).removeWaits id)
          (((logic.modify id markInterrupted).removeWaits id).setStatus id .ready) :=
        setStatus hg.toIgnoresScheduling _
      exact (hmarked.trans (of_eq rfl)).trans (hready.trans (of_eq rfl))
    · exact refl g logic
  exact ((hstored _ _ _).trans (modify (hg.handler _ _ _))).trans
    ((modify (hg.handlerMask _ _ _)).trans (hwake _))

theorem clearPending : Keeps g logic (logic.clearPending id signal) :=
  modify (hg.pending _ _)

/-- A signal that does not kill its target. -/
theorem applySignal {effect : SignalEffect} (heffect : ∀ coreDump, effect ≠ .terminate coreDump) :
    Keeps g logic (logic.applySignal id signal effect) := by
  have hcleared : Keeps g logic (logic.clearPending id signal) := clearPending hg signal
  refine hcleared.trans ?_
  cases effect with
  | discard => exact refl g _
  | pend => exact modify (hg.pending _ _)
  | stop => exact stopProcess hg.toIgnoresScheduling
  | resume => exact continueProcess hg.toIgnoresScheduling
  | terminate coreDump => exact absurd rfl (heffect coreDump)
  | handle action => exact startHandler hg signal action

end

/-- A signal that neither kills its target nor starts a handler. -/
theorem applySignal_of_ne_handle (hg : IgnoresScheduling g)
    (hpending : ∀ process mask, g { process with pendingSignalMask := mask } = g process)
    (signal : ℕ) {effect : SignalEffect} (hterminate : ∀ coreDump, effect ≠ .terminate coreDump)
    (hhandle : ∀ action, effect ≠ .handle action) :
    Keeps g logic (logic.applySignal id signal effect) := by
  have hcleared : Keeps g logic (logic.clearPending id signal) := modify (hpending _ _)
  refine hcleared.trans ?_
  cases effect with
  | discard => exact refl g _
  | pend => exact modify (hpending _ _)
  | stop => exact stopProcess hg
  | resume => exact continueProcess hg
  | terminate coreDump => exact absurd rfl (hterminate coreDump)
  | handle action => exact absurd rfl (hhandle action)

theorem reportChildExit (hg : IgnoresScheduling g) (hexit : IgnoresExits g) (parentId status : ℕ) :
    Keeps g logic (logic.reportChildExit parentId id status) := by
  rw [LogicLayer.reportChildExit]
  split_ifs
  · exact (modify (hexit.report _ _ _)).trans
      ((modify (hexit.stopWaiting _)).trans (resumeBlocked hg))
  · exact modify (hexit.report _ _ _)
  · exact refl g logic

end Keeps

theorem freeRecord_processes (hlt : id < maxProcesses) :
    (logic.freeRecord id).pm.processes = update logic.pm.processes id
      (initializeProcessEntry id .terminated .kernel none {}) := by
  change (logic.pm.getRunningProcess.2.killProcess id).processes = _
  rw [ProcessManager.killProcess, if_pos hlt, setProcess,
    getRunningProcess_processes]

/-- The records of the other processes, and that of an id without a slot. -/
theorem freeRecord_processes_of_not (h : ¬(p = id ∧ id < maxProcesses)) :
    (logic.freeRecord id).processes p = logic.processes p := by
  change (logic.pm.getRunningProcess.2.killProcess id).processes p = _
  rw [ProcessManager.killProcess]
  split_ifs with hlt
  · rw [ProcessManager.setProcess_processes_of_ne fun hp => h ⟨hp, hlt⟩,
      getRunningProcess_processes]
  · rw [getRunningProcess_processes]

theorem resumeBlocked_processes_of_ne (h : p ≠ id) :
    (logic.resumeBlocked id).processes p = logic.processes p := by
  rw [resumeBlocked]
  split_ifs
  · have hset : (logic.pm.setStatus id .ready).processes p = logic.pm.processes p :=
      modify_processes_of_ne h
    exact hset
  · rfl

theorem reportChildExit_processes_of_ne {parentId : ℕ} (h : p ≠ parentId) (exitStatus : ℕ) :
    (logic.reportChildExit parentId id exitStatus).processes p = logic.processes p := by
  rw [reportChildExit]
  split_ifs
  · refine (resumeBlocked_processes_of_ne h).trans ?_
    exact (modify_processes_of_ne h).trans (modify_processes_of_ne h)
  · exact modify_processes_of_ne h
  · rfl

/-- The slot of a killed process is free. -/
theorem killProcess_processes_self (hlt : id < maxProcesses) (exitStatus : ℕ) :
    (logic.killProcess id exitStatus).processes id =
      initializeProcessEntry id .terminated .kernel none {} := by
  have hfreed : (((logic.freeRecord id).dropReady id).removeWaits id).processes id =
      initializeProcessEntry id .terminated .kernel none {} := by
    change (logic.freeRecord id).pm.processes id = _
    rw [freeRecord_processes hlt, update_self]
  by_cases hself : id = logic.parentOf id
  · have hdead : ¬(((logic.freeRecord id).dropReady id).removeWaits id).Live
        (logic.parentOf id) := by
      rw [← hself]
      exact fun hlive => hlive.2 (congrArg Process.status hfreed)
    rw [killProcess, reportChildExit, if_neg hdead]
    exact hfreed
  · exact (reportChildExit_processes_of_ne hself exitStatus).trans hfreed

/-! ### Switches keep the wait queues -/

theorem runProcess_sync : (logic.runProcess id).sync = logic.sync := by
  rw [runProcess]
  split_ifs
  · split
    · rfl
    · split_ifs <;> rfl
  · rfl

theorem runProcess_sched : (logic.runProcess id).sched = logic.sched := by
  rw [runProcess]
  split_ifs
  · split
    · rfl
    · split_ifs <;> rfl
  · rfl

/-- Scheduling reorders the ready queue. -/
theorem schedule_readyQueue_perm :
    logic.schedule.sched.readyQueue.Perm logic.sched.readyQueue := by
  obtain ⟨hperm, -, -⟩ := logic.sched.selectNextProcess_spec
  rw [schedule]
  rcases hselect : logic.sched.selectNextProcess with ⟨_ | id, sched⟩
  · rw [hselect] at hperm
    exact hperm
  · rw [hselect] at hperm
    dsimp only
    rw [runProcess_sched]
    exact hperm

theorem schedule_sync : logic.schedule.sync = logic.sync := by
  rw [schedule]
  split
  · rfl
  · exact runProcess_sync

theorem blockProcess_sync : (logic.blockProcess id).sync = logic.sync := by
  rw [blockProcess]
  split_ifs
  · exact schedule_sync
  · rfl

theorem addProcessToReadyQueue_sync : (logic.addProcessToReadyQueue id).sync = logic.sync := by
  rw [addProcessToReadyQueue]
  split_ifs <;> rfl

/-! ### Life and death -/

/-- The same slots hold a process in both states. -/
def KeepsLife (logic₁ logic₂ : LogicLayer) : Prop :=
  ∀ p, logic₂.status p = .terminated ↔ logic₁.status p = .terminated

namespace KeepsLife

theorem refl (logic : LogicLayer) : KeepsLife logic logic := fun _ => .rfl

theorem trans (h₁ : KeepsLife logic₁ logic₂) (h₂ : KeepsLife logic₂ logic₃) :
    KeepsLife logic₁ logic₃ :=
  fun p => (h₂ p).trans (h₁ p)

theorem of_eq (h : logic₂.status = logic₁.status) : KeepsLife logic₁ logic₂ := fun p => by rw [h]

theorem live (h : KeepsLife logic₁ logic₂) (hp : logic₁.Live p) : logic₂.Live p :=
  ⟨hp.1, (h p).not.mpr hp.2⟩

/-- A live process gets another status. -/
theorem of_update {status : ProcessState} (h : logic₂.status = update logic₁.status id status)
    (hstatus : status ≠ .terminated) (hlive : logic₁.status id ≠ .terminated) :
    KeepsLife logic₁ logic₂ := fun p => by
  rw [h]
  by_cases hp : p = id
  · rw [hp, update_self]
    exact iff_of_false hstatus hlive
  · rw [update_of_ne hp]

theorem setStatus {status : ProcessState} (hstatus : status ≠ .terminated)
    (hlive : logic.status id ≠ .terminated) : KeepsLife logic (logic.setStatus id status) :=
  of_update (status_setStatus status) hstatus hlive

theorem runProcess : KeepsLife logic (logic.runProcess id) := by
  rw [LogicLayer.runProcess]
  split_ifs with hlive
  · split
    · exact of_update status_switchTo (by simp) hlive.2
    next current _ =>
      split_ifs
      · exact refl logic
      · have hyield : KeepsLife logic (logic.yieldProcess current) := fun p => by
          rw [status_yieldProcess]
          by_cases hp : p = current
          · subst hp
            rw [update_self]
            split_ifs with hrun
            · simp [hrun]
            · rfl
          · rw [update_of_ne hp]
        exact hyield.trans (of_update status_switchTo (by simp) ((hyield id).not.mpr hlive.2))
  · exact refl logic

theorem schedule : KeepsLife logic logic.schedule := by
  rw [LogicLayer.schedule]
  split
  · exact refl logic
  next id sched _ =>
    have hrun : KeepsLife ({ logic with sched := sched } : LogicLayer)
        (({ logic with sched := sched } : LogicLayer).runProcess id) := runProcess
    exact hrun

theorem blockProcess : KeepsLife logic (logic.blockProcess id) := by
  rw [LogicLayer.blockProcess]
  split_ifs with hid
  · have hsuspend : KeepsLife logic (logic.suspend id) :=
      of_update status_suspend (by simp) (by simp [hid.2])
    exact hsuspend.trans schedule
  · exact refl logic

theorem sleepProcess (waitTicks : ℕ) : KeepsLife logic (logic.sleepProcess id waitTicks) := by
  rw [LogicLayer.sleepProcess]
  split_ifs with hid
  · have hsuspend : KeepsLife logic (logic.suspend id) :=
      of_update status_suspend (by simp) (by simp [hid.2])
    have hqueued : KeepsLife logic
        { logic.suspend id with sync := logic.sync.addToSleepQueue id waitTicks } := hsuspend
    exact hqueued.trans schedule
  · exact refl logic

theorem resumeBlocked : KeepsLife logic (logic.resumeBlocked id) := by
  rw [LogicLayer.resumeBlocked]
  split_ifs with hid
  · have hset : KeepsLife logic (logic.setStatus id .ready) :=
      setStatus (by simp) (by simp [hid.2])
    exact hset
  · exact refl logic

theorem blockProcessForTTYInput : KeepsLife logic (logic.blockProcessForTTYInput id) := by
  rw [LogicLayer.blockProcessForTTYInput]
  split_ifs with hid
  · have hsuspend : KeepsLife logic (logic.suspend id) :=
      of_update status_suspend (by simp) (by simp [hid.2])
    have hqueued : KeepsLife logic
        { logic.suspend id with sync := logic.sync.addToTTYInputWaitQueue id } := hsuspend
    exact hqueued.trans schedule
  · exact refl logic

theorem notifyTTYInputAvailable : KeepsLife logic logic.notifyTTYInputAvailable := by
  rw [LogicLayer.notifyTTYInputAvailable]
  split
  · exact refl logic
  next id _ =>
    have hdequeued : KeepsLife logic
        { logic with sync := logic.sync.removeFromTTYInputWaitQueue id } := refl logic
    exact hdequeued.trans resumeBlocked

theorem addProcessToReadyQueue : KeepsLife logic (logic.addProcessToReadyQueue id) := by
  rw [LogicLayer.addProcessToReadyQueue]
  split_ifs with hlive
  · exact setStatus (by simp) hlive.2
  · exact refl logic
  · exact refl logic

theorem stopProcess : KeepsLife logic (logic.stopProcess id) := by
  rw [LogicLayer.stopProcess]
  split_ifs with hid
  · have hset : KeepsLife logic (logic.setStatus id .blocked) :=
      setStatus (by simp) (by rcases hid with hid | hid <;> simp [hid])
    exact hset
  · exact refl logic

theorem continueProcess : KeepsLife logic (logic.continueProcess id) := by
  rw [LogicLayer.continueProcess]
  split_ifs with hid
  · have hset : KeepsLife (logic.removeWaits id) ((logic.removeWaits id).setStatus id .ready) :=
      setStatus (by simp) (by rw [show (logic.removeWaits id).status id = .blocked from hid]; simp)
    exact hset
  · exact refl logic

theorem reportChildExit (parentId exitStatus : ℕ) :
    KeepsLife logic (logic.reportChildExit parentId id exitStatus) := by
  have hreported : KeepsLife logic (logic.modify parentId (recordChildExit id exitStatus)) :=
    of_eq (status_modify_of_eq rfl)
  rw [LogicLayer.reportChildExit]
  split_ifs
  · exact hreported.trans ((of_eq (status_modify_of_eq rfl)).trans resumeBlocked)
  · exact hreported
  · exact refl logic

/-- The death of a process keeps the others alive. -/
theorem killProcess_of_not (h : ¬(p = id ∧ id < maxProcesses)) (exitStatus : ℕ) :
    (logic.killProcess id exitStatus).status p = .terminated ↔ logic.status p = .terminated := by
  have hreported : KeepsLife (((logic.freeRecord id).dropReady id).removeWaits id)
      (logic.killProcess id exitStatus) := reportChildExit _ _
  have hrecord : (((logic.freeRecord id).dropReady id).removeWaits id).processes p =
      logic.processes p := freeRecord_processes_of_not h
  rw [hreported p, status, hrecord]

theorem wakeForHandler : KeepsLife logic (logic.wakeForHandler id) := by
  rw [LogicLayer.wakeForHandler]
  split_ifs with hid
  · have hmarked : KeepsLife logic ((logic.modify id markInterrupted).removeWaits id) :=
      of_eq (status_modify_of_eq rfl)
    have hset : KeepsLife ((logic.modify id markInterrupted).removeWaits id)
        (((logic.modify id markInterrupted).removeWaits id).setStatus id .ready) :=
      setStatus (by simp) ((hmarked id).not.mpr (by simp [hid]))
    exact hmarked.trans hset
  · exact refl logic

/-- A signal that does not kill its target. -/
theorem applySignal (signal : ℕ) {effect : SignalEffect}
    (heffect : ∀ coreDump, effect ≠ .terminate coreDump) :
    KeepsLife logic (logic.applySignal id signal effect) := by
  have hcleared : KeepsLife logic (logic.clearPending id signal) := of_eq (status_modify_of_eq rfl)
  refine hcleared.trans ?_
  cases effect with
  | discard => exact refl _
  | pend => exact of_eq (status_modify_of_eq rfl)
  | stop => exact stopProcess
  | resume => exact continueProcess
  | terminate coreDump => exact absurd rfl (heffect coreDump)
  | handle action =>
    refine KeepsLife.trans (of_eq ?_) wakeForHandler
    rw [status_modify_of_eq rfl, status_modify_of_eq rfl]
    rfl

end KeepsLife

end LogicLayer

end TwistedOS
