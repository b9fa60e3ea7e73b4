import Mathlib.Data.Finset.Card
import Mathlib.Data.Finset.Range
import TwistedOS.Logic.RecordFields

/-!
# The signal system calls

`rt_sigaction`, `rt_sigprocmask`, `rt_sigsuspend` and `rt_sigreturn` of the running process. A call
that changes the blocked mask then dispatches the pending signals that are no longer blocked, one
after another, until a handler is entered or none is left.

What a call reads through its pointers, and whether it can write through them, enters as a
parameter. A call to `rt_sigsuspend` that blocks ends here with the switch to another process; the
rest of it is `LogicLayer.resumeSigsuspend`.

## Main definitions

* `LogicLayer.dispatchOnePendingUnblockedSignal`, `LogicLayer.drainPendingSignals`.
* `LogicLayer.sigactionFrom`, `LogicLayer.sigprocmaskFrom`, `LogicLayer.sigreturnFrom`,
  `LogicLayer.sigsuspendFrom`.
* `LogicLayer.returnRegisters` — the registers with which a system call returns to the user.

## Main results

* `LogicLayer.dispatchOne_eq`.
* `LogicLayer.dispatch_drainPendingSignals` — after the loop there is nothing to dispatch.
-/

namespace TwistedOS

open ProcessManager (modify_processes_of_ne modify_processes_self setProcess)

/-- `LINUX_RT_SIGSET_SIZE`. -/
def rtSigsetSize : ℕ := 8

/-- `LINUX_SIG_BLOCK`. -/
def sigBlock : ℤ := 0

/-- `LINUX_SIG_UNBLOCK`. -/
def sigUnblock : ℤ := 1

/-- `LINUX_SIG_SETMASK`. -/
def sigSetmask : ℤ := 2

/-- The value of `rax` for the result of a system call. -/
def resultRegister (result : ℤ) : ℕ := (result % 2 ^ 64).toNat

/-- The first signal of a mask. -/
def firstSignal (mask : SignalMask) : Option ℕ :=
  (List.range' 1 signalMax).find? fun signal => mask &&& signalMaskBit signal ≠ 0

/-- The signals that are pending and not blocked. -/
def deliverableMask (process : Process) : SignalMask :=
  process.pendingSignalMask &&& ~~~process.blockedSignalMask

/-- The arguments of `rt_sigaction`: the new action and the address for the old one, each `none`
for a null pointer and `some none` when it cannot be copied. -/
structure SigactionArguments where
  signal : ℤ
  action : Option (Option ProcessSignalAction) := none
  oldAction : Option (Option ℕ) := none
  sigsetSize : ℕ := rtSigsetSize

/-- The arguments of `rt_sigprocmask`: the set and the address for the old mask, each `none` for a
null pointer and `some none` when it cannot be copied. -/
structure SigprocmaskArguments where
  how : ℤ
  set : Option (Option SignalMask) := none
  oldSet : Option (Option ℕ) := none
  sigsetSize : ℕ := rtSigsetSize

/-- The mask that `rt_sigprocmask` makes of the requested set, `none` for an unknown operation. -/
def requestedMask (how : ℤ) (blocked set : SignalMask) : Option SignalMask :=
  if how = sigBlock then some (set &&& ~~~unblockableSignalMask ||| blocked)
  else if how = sigUnblock then some (blocked &&& ~~~(set &&& ~~~unblockableSignalMask))
  else if how = sigSetmask then some (set &&& ~~~unblockableSignalMask)
  else none

/-- The blocked mask that `rt_sigprocmask` sets, or the error before it sets one. -/
def SigprocmaskArguments.newMask (arguments : SigprocmaskArguments) (blocked : SignalMask) :
    Except ℤ SignalMask :=
  if arguments.sigsetSize ≠ rtSigsetSize then .error errEinval
  else
    match arguments.set with
    | none => .ok blocked
    | some none => .error errEfault
    | some (some set) =>
      match requestedMask arguments.how blocked set with
      | none => .error errEinval
      | some mask => .ok mask

/-- The record with another blocked mask. -/
def withBlockedMask (mask : SignalMask) (process : Process) : Process :=
  { process with blockedSignalMask := mask }

/-- The record with another action of a signal. -/
def withSignalAction (signal : ℕ) (action : ProcessSignalAction) (process : Process) : Process :=
  { process with
    signalActions := process.signalActions.map fun actions =>
      Function.update actions (signal - 1)
        { action with mask := action.mask &&& ~~~unblockableSignalMask } }

/-- The record of a process that leaves its handler: the interrupted frame becomes that of the
system call it is in. -/
def leaveHandler (process : Process) : Process :=
  { process with
    blockedSignalMask := process.savedSignalMask
    hasSavedSignalState := false
    savedSystemCallFrame := process.savedSignalFrame
    hasSavedSystemCallFrame := true
    waitingForSystemCallReturn := true
    state := if process.savedSignalWasSyscall then process.state
      else { process.state with toUserRegisters := process.savedSignalFrame } }

/-- How far `rt_sigsuspend` gets at once: it returns, or it blocks and keeps the mask that it
restores when it is resumed. -/
inductive SigsuspendProgress where
  | returned (result : ℤ)
  | blocked (previousMask : SignalMask)

namespace LogicLayer

variable (logic : LogicLayer)

/-- `DispatchOnePendingUnblockedSignal`, `none` when it returns false. -/
def dispatchOnePendingUnblockedSignal (accessible : UserAccess) (id : ℕ) : Option LogicLayer :=
  if (logic.processes id).hasSavedSignalState then none
  else
    (firstSignal (deliverableMask (logic.processes id))).map fun signal =>
      ((logic.clearPending id signal).signalProcess accessible id signal).getD
        (logic.clearPending id signal)

/-- The loop `while (DispatchOnePendingUnblockedSignal(...))`, with a bound on its rounds. -/
def drainLoop (accessible : UserAccess) (id : ℕ) : ℕ → LogicLayer → LogicLayer
  | 0, logic => logic
  | fuel + 1, logic =>
    match logic.dispatchOnePendingUnblockedSignal accessible id with
    | none => logic
    | some dispatched => drainLoop accessible id fuel dispatched

/-- The dispatch of all pending signals that are not blocked. Every round clears the bit of one of
the signals, so that `signalMax` rounds are enough. -/
def drainPendingSignals (accessible : UserAccess) (id : ℕ) : LogicLayer :=
  drainLoop accessible id signalMax logic

/-- The start of a signal call: it fails when the running process is not a user process. -/
def withRunningUser {α : Type*} (failed : α) (f : LogicLayer → ℕ → α × LogicLayer) :
    α × LogicLayer :=
  match logic.running with
  | none => (failed, logic.trackRunning)
  | some id =>
    if (logic.processes id).level = .user then f logic.trackRunning id
    else (failed, logic.trackRunning)

/-- The user memory of a process after values were stored from an address on. -/
def storeQwords (id : ℕ) : LogicLayer → ℕ → List ℕ → LogicLayer
  | logic, _, [] => logic
  | logic, address, value :: values =>
    storeQwords id (logic.storeQword ((logic.processes id).addressSpace.getD 0) address value)
      (address + 8) values

/-- The state after words were copied to the user through a pointer that may be null; `none` when
they cannot be copied. -/
def copyOut (destination : Option (Option ℕ)) (id : ℕ) (words : List ℕ) : Option LogicLayer :=
  match destination with
  | none => some logic
  | some none => none
  | some (some address) => some (storeQwords id logic address words)

/-- The words of a signal action in user memory. -/
def actionWords (action : ProcessSignalAction) : List ℕ :=
  [action.handler, action.flags, action.restorer, action.mask.toNat]

/-- The action of a signal. -/
def signalAction (id : ℕ) (signal : ℕ) : ProcessSignalAction :=
  ((logic.processes id).signalActions.map fun actions => actions (signal - 1)).getD {}

/-- The end of `HandleRtSigactionSystemCall`, after the old action was copied to the user. -/
def installSigaction (action : Option (Option ProcessSignalAction)) (id signal : ℕ) :
    ℤ × LogicLayer :=
  match action with
  | none => (0, logic)
  | some none => (errEfault, logic)
  | some (some action) => (0, logic.modify id (withSignalAction signal action))

/-- `HandleRtSigactionSystemCall` of the process `id`. -/
def sigactionFrom (arguments : SigactionArguments) (id : ℕ) : ℤ × LogicLayer :=
  let signal := arguments.signal.toNat
  if arguments.sigsetSize ≠ rtSigsetSize then (errEinval, logic)
  else if arguments.signal < 1 ∨ arguments.signal > signalMax then (errEinval, logic)
  else if signal = sigkill ∨ signal = sigstop then (errEinval, logic)
  else
    match logic.copyOut arguments.oldAction id (actionWords (logic.signalAction id signal)) with
    | none => (errEfault, logic)
    | some copied => copied.installSigaction arguments.action id signal

/-- The end of `HandleRtSigprocmaskSystemCall`, after the mask was updated: the old mask is copied
to the user, and the signals that are pending are dispatched. -/
def finishSigprocmask (accessible : UserAccess) (oldSet : Option (Option ℕ))
    (previousMask : SignalMask) (id : ℕ) : ℤ × LogicLayer :=
  match logic.copyOut oldSet id [previousMask.toNat] with
  | none => (errEfault, logic)
  | some copied => (0, copied.drainPendingSignals accessible id)

/-- `HandleRtSigprocmaskSystemCall` of the process `id`. -/
def sigprocmaskFrom (accessible : UserAccess) (arguments : SigprocmaskArguments) (id : ℕ) :
    ℤ × LogicLayer :=
  match arguments.newMask (logic.processes id).blockedSignalMask with
  | .error error => (error, logic)
  | .ok mask => (logic.modify id (withBlockedMask mask)).finishSigprocmask accessible
      arguments.oldSet (logic.processes id).blockedSignalMask id

/-- `HandleRtSigreturnSystemCall` of the process `id`. A process that was interrupted outside of
system calls gets its registers back at once; the pending signals are then not dispatched. -/
def sigreturnFrom (accessible : UserAccess) (id : ℕ) : ℤ × LogicLayer :=
  let process := logic.processes id
  if process.hasSavedSignalState then
    if process.savedSignalWasSyscall then
      (errEintr, (logic.modify id leaveHandler).drainPendingSignals accessible id)
    else
      ((BitVec.ofNat 64 process.savedSignalFrame.rax).toInt, logic.modify id leaveHandler)
  else (errEinval, logic)

/-- `HandleRtSigsuspendSystemCall` of the process `id` with a set, `none` when it cannot be
copied. -/
def sigsuspendFrom (accessible : UserAccess) (set : Option SignalMask) (sigsetSize id : ℕ) :
    SigsuspendProgress × LogicLayer :=
  let previousMask := (logic.processes id).blockedSignalMask
  if sigsetSize ≠ rtSigsetSize then (.returned errEinval, logic)
  else
    match set with
    | none => (.returned errEfault, logic)
    | some set =>
      let masked := logic.modify id (withBlockedMask (set &&& ~~~unblockableSignalMask))
      match masked.dispatchOnePendingUnblockedSignal accessible id with
      | some dispatched =>
        (.returned errEintr, dispatched.modify id (withBlockedMask previousMask))
      | none => (.blocked previousMask, masked.blockProcess id)

/-- The rest of a call to `rt_sigsuspend` that has blocked. -/
def resumeSigsuspend (previousMask : SignalMask) (id : ℕ) : ℤ × LogicLayer :=
  (errEintr, logic.modify id (withBlockedMask previousMask))

/-- `HandleRtSigactionSystemCall`. -/
def handleRtSigactionSystemCall (arguments : SigactionArguments) : ℤ × LogicLayer :=
  logic.withRunningUser errEinval fun logic => logic.sigactionFrom arguments

/-- `HandleRtSigprocmaskSystemCall`. -/
def handleRtSigprocmaskSystemCall (accessible : UserAccess) (arguments : SigprocmaskArguments) :
    ℤ × LogicLayer :=
  logic.withRunningUser errEinval fun logic => logic.sigprocmaskFrom accessible arguments

/-- `HandleRtSigreturnSystemCall`. -/
def handleRtSigreturnSystemCall (accessible : UserAccess) : ℤ × LogicLayer :=
  logic.withRunningUser errEinval fun logic => logic.sigreturnFrom accessible

/-- `HandleRtSigsuspendSystemCall` with a set, `none` for a null pointer. -/
def handleRtSigsuspendSystemCall (accessible : UserAccess) (set : Option (Option SignalMask))
    (sigsetSize : ℕ) : SigsuspendProgress × LogicLayer :=
  match set with
  | none => (.returned errEfault, logic)
  | some set => logic.withRunningUser (.returned errEinval) fun logic =>
      logic.sigsuspendFrom accessible set sigsetSize

/-! ### Entering and leaving the kernel -/

/-- `PersistCurrentSavedSystemCallFrame` for the record of the current process. -/
def persistFrame (registers : UserRegisters) (process : Process) : Process :=
  { process with
    savedSystemCallFrame := registers
    hasSavedSystemCallFrame := true
    waitingForSystemCallReturn := true }

/-- The registers with which the end of `SystemCallEntry` returns to the user: the saved frame of
the current process, with the result in `rax`. -/
def returnRegisters (result : ℤ) : Option UserRegisters :=
  match logic.pm.getCurrentProcess with
  | some id =>
    if (logic.processes id).hasSavedSystemCallFrame then
      some { (logic.processes id).savedSystemCallFrame with rax := resultRegister result }
    else none
  | none => none

variable {logic} {accessible : UserAccess} {id p signal : ℕ}

/-! ### Dispatching -/

theorem firstSignal_eq_some {mask : SignalMask} (h : firstSignal mask = some signal) :
    1 ≤ signal ∧ signal ≤ signalMax ∧ mask &&& signalMaskBit signal ≠ 0 := by
  have hmem := List.mem_range'_1.mp (List.mem_of_find?_eq_some h)
  have hbit := List.find?_some (p := fun signal => decide (mask &&& signalMaskBit signal ≠ 0)) h
  exact ⟨hmem.1, by omega, of_decide_eq_true hbit⟩

theorem getLsbD_signalMaskBit {i j : ℕ} (hj : j < 64) :
    (signalMaskBit (i + 1)).getLsbD j = decide (j = i) := by
  rw [signalMaskBit, Nat.add_sub_cancel, Nat.one_shiftLeft, BitVec.natCast_eq_ofNat,
    BitVec.getLsbD_ofNat, Nat.testBit_two_pow]
  simp [hj, eq_comm]

/-- Bit `i` of a mask is that of signal `i + 1`. -/
theorem and_signalMaskBit_ne_zero {mask : SignalMask} {i : ℕ} (hi : i < 64) :
    mask &&& signalMaskBit (i + 1) ≠ 0 ↔ mask.getLsbD i = true := by
  have hbit (j : ℕ) (hj : j < 64) :
      (mask &&& signalMaskBit (i + 1)).getLsbD j = (mask.getLsbD j && decide (j = i)) := by
    rw [BitVec.getLsbD_and, getLsbD_signalMaskBit hj]
  constructor
  · intro hne
    by_contra hclear
    refine hne (BitVec.eq_of_getLsbD_eq fun j hj => ?_)
    rw [hbit j hj, BitVec.ofNat_eq_ofNat, BitVec.getLsbD_zero]
    by_cases hji : j = i
    · subst hji
      simp [Bool.eq_false_iff.mpr hclear]
    · simp [hji]
  · intro hset hzero
    have := hbit i hi
    rw [hzero, hset] at this
    simp at this

/-- A signal can be delivered when it is pending and not blocked. -/
theorem deliverableMask_and_ne_zero {process : Process} (hmin : 1 ≤ signal)
    (hmax : signal ≤ signalMax) :
    deliverableMask process &&& signalMaskBit signal ≠ 0 ↔
      process.pendingSignalMask &&& signalMaskBit signal ≠ 0 ∧
        process.blockedSignalMask &&& signalMaskBit signal = 0 := by
  obtain ⟨i, rfl⟩ := Nat.exists_eq_add_of_le' hmin
  have hi : i < 64 := by
    rw [signalMax] at hmax
    omega
  rw [← not_ne_iff (a := process.blockedSignalMask &&& _), and_signalMaskBit_ne_zero hi,
    and_signalMaskBit_ne_zero hi, and_signalMaskBit_ne_zero hi, deliverableMask,
    BitVec.getLsbD_and, BitVec.getLsbD_not]
  simp [hi]

theorem firstSignal_eq_none {mask : SignalMask} (h : firstSignal mask = none) : mask = 0 := by
  refine BitVec.eq_of_getLsbD_eq fun i hi => ?_
  have hmem : i + 1 ∈ List.range' 1 signalMax := List.mem_range'_1.mpr ⟨by omega, by
    rw [signalMax]
    omega⟩
  have hclear := List.find?_eq_none.mp h (i + 1) hmem
  rw [decide_eq_true_eq, and_signalMaskBit_ne_zero hi] at hclear
  rw [BitVec.ofNat_eq_ofNat, BitVec.getLsbD_zero]
  exact Bool.eq_false_iff.mpr hclear

theorem clearPending_processes_self :
    (logic.clearPending id signal).processes id = withoutPending signal (logic.processes id) :=
  modify_processes_self

theorem clearPending_clearPending :
    (logic.clearPending id signal).clearPending id signal = logic.clearPending id signal := by
  have hmask : withoutPending signal (withoutPending signal (logic.processes id)) =
      withoutPending signal (logic.processes id) := by
    rw [withoutPending, withoutPending, BitVec.and_assoc, BitVec.and_self]
  rw [clearPending, clearPending, modify, modify]
  simp only [ProcessManager.modify, ProcessManager.setProcess_processes_self, hmask]
  rw [setProcess, setProcess, Function.update_idem]

/-- The pending mask does not decide the effect of a signal. -/
theorem signalEffect_withoutPending (process : Process) :
    signalEffect accessible id (withoutPending signal process) signal =
      signalEffect accessible id process signal := rfl

/-- A dispatch applies the effect of a signal that is pending and not blocked. -/
theorem dispatchOne_eq {dispatched : LogicLayer} (hlive : logic.Live id)
    (h : logic.dispatchOnePendingUnblockedSignal accessible id = some dispatched) :
    ∃ signal, firstSignal (deliverableMask (logic.processes id)) = some signal ∧
      (logic.processes id).hasSavedSignalState = false ∧
      dispatched = logic.applySignal id signal
        (signalEffect accessible id (logic.processes id) signal) := by
  rw [dispatchOnePendingUnblockedSignal] at h
  split_ifs at h with hsaved
  obtain ⟨signal, hfirst, rfl⟩ := Option.map_eq_some_iff.mp h
  obtain ⟨hmin, hmax, -⟩ := firstSignal_eq_some hfirst
  have hcleared : (logic.clearPending id signal).Live id := by
    refine ⟨hlive.1, ?_⟩
    rw [status, clearPending_processes_self]
    exact hlive.2
  refine ⟨signal, hfirst, Bool.eq_false_iff.mpr hsaved, ?_⟩
  rw [signalProcess_eq, if_pos ⟨hmin, hmax, hcleared⟩, Option.getD_some,
    clearPending_processes_self, signalEffect_withoutPending, applySignal, applySignal,
    clearPending_clearPending]

/-- A signal that is delivered has the default effect or that of the action of the process. -/
theorem deliveredSignalEffect_cases (accessible : UserAccess) (id : ℕ) (process : Process)
    (signal : ℕ) :
    deliveredSignalEffect accessible id process signal = defaultSignalEffect signal ∨
      ∃ actions, process.signalActions = some actions ∧ process.level = .user ∧
        deliveredSignalEffect accessible id process signal =
          actionSignalEffect accessible id process signal (actions (signal - 1)) := by
  rw [deliveredSignalEffect]
  cases hactions : process.signalActions with
  | none => exact .inl rfl
  | some actions =>
    dsimp only
    split_ifs with huser
    · exact .inr ⟨actions, rfl, huser.1, rfl⟩
    · exact .inl rfl

theorem defaultSignalEffect_ne_pend : defaultSignalEffect signal ≠ .pend := by
  rw [defaultSignalEffect]
  split <;> simp

theorem defaultSignalEffect_ne_handle (action : ProcessSignalAction) :
    defaultSignalEffect signal ≠ .handle action := by
  rw [defaultSignalEffect]
  split <;> simp

/-- A signal that is not blocked is not left pending outside of handlers. -/
theorem signalEffect_ne_pend {process : Process}
    (hblocked : process.blockedSignalMask &&& signalMaskBit signal = 0)
    (hsaved : process.hasSavedSignalState = false) :
    signalEffect accessible id process signal ≠ .pend := by
  have hdelivered : deliveredSignalEffect accessible id process signal ≠ .pend := by
    obtain heffect | ⟨actions, -, -, heffect⟩ :=
      deliveredSignalEffect_cases accessible id process signal
    · rw [heffect]
      exact defaultSignalEffect_ne_pend
    · rw [heffect, actionSignalEffect]
      split_ifs with _ _ hin
      · simp
      · exact defaultSignalEffect_ne_pend
      · exact absurd (hsaved.symm.trans hin) (by simp)
      · simp
      · simp
  rw [signalEffect]
  split_ifs with _ _ _ hblock
  · simp
  · simp
  · simp
  · exact absurd hblocked hblock
  · exact hdelivered

/-- A user process enters a handler only for a signal that is not blocked, and when it is in no
handler yet. -/
theorem signalEffect_eq_handle {process : Process} {action : ProcessSignalAction}
    (h : signalEffect accessible id process signal = .handle action) :
    process.blockedSignalMask &&& signalMaskBit signal = 0 ∧ process.level = .user ∧
      process.hasSavedSignalState = false ∧ process.addressSpace.isSome ∧
      canEnterHandler accessible id (interruptedRegisters process) action.handler := by
  rw [signalEffect] at h
  split_ifs at h with _ _ _ hblock
  refine ⟨not_not.mp hblock, ?_⟩
  obtain heffect | ⟨actions, -, huser, heffect⟩ :=
    deliveredSignalEffect_cases accessible id process signal
  · exact absurd (heffect.symm.trans h) (defaultSignalEffect_ne_handle action)
  · rw [heffect, actionSignalEffect] at h
    split_ifs at h with _ _ hsaved henter
    · exact absurd h (defaultSignalEffect_ne_handle action)
    · obtain rfl := SignalEffect.handle.inj h
      exact ⟨huser, Bool.eq_false_iff.mpr hsaved, henter⟩

/-! ### Entering a handler -/

/-- The record of a process that is woken to run a handler. -/
def wokenForHandler (process : Process) : Process :=
  if process.status = .blocked then { markInterrupted process with status := .ready } else process

theorem wakeForHandler_processes_self :
    (logic.wakeForHandler id).processes id = wokenForHandler (logic.processes id) := by
  rw [wakeForHandler, wokenForHandler]
  split_ifs
  · have hset : (((logic.modify id markInterrupted).removeWaits id).pm.setStatus id
        .ready).processes id = { (logic.modify id markInterrupted).processes id with
          status := .ready } :=
      modify_processes_self
    rw [show (logic.modify id markInterrupted).processes id = _ from
      modify_processes_self] at hset
    exact hset
  · rfl

theorem wakeForHandler_processes_of_ne (h : p ≠ id) :
    (logic.wakeForHandler id).processes p = logic.processes p := by
  rw [wakeForHandler]
  split_ifs
  · have hset : (((logic.modify id markInterrupted).removeWaits id).pm.setStatus id
        .ready).processes p = (logic.modify id markInterrupted).processes p :=
      modify_processes_of_ne h
    exact hset.trans (modify_processes_of_ne h)
  · rfl

theorem startHandler_processes_self (action : ProcessSignalAction) :
    (logic.startHandler id signal action).processes id =
      wokenForHandler (maskForHandler signal action.mask
        (enterHandler signal action.handler (logic.processes id))) := by
  rw [startHandler, beginHandler, wakeForHandler_processes_self]
  refine congrArg wokenForHandler (ProcessManager.modify_processes_self.trans ?_)
  exact congrArg (maskForHandler signal action.mask) modify_processes_self

theorem startHandler_processes_of_ne (action : ProcessSignalAction) (h : p ≠ id) :
    (logic.startHandler id signal action).processes p = logic.processes p := by
  rw [startHandler, beginHandler, wakeForHandler_processes_of_ne h]
  exact (modify_processes_of_ne h).trans (modify_processes_of_ne h)

/-- A process that was woken has entered the handler like one that was not blocked. -/
theorem wokenForHandler_eq {α : Type*} {g : Process → α} (hg : IgnoresScheduling g)
    (hmark : ∀ process, g (markInterrupted process) = g process) (process : Process) :
    g (wokenForHandler process) = g process := by
  rw [wokenForHandler]
  split_ifs
  · exact (hg.status _ _).trans (hmark process)
  · rfl

/-! ### The loop over the pending signals -/

/-- The number of signals in a mask. -/
def signalCount (mask : SignalMask) : ℕ :=
  ((Finset.range 64).filter fun i => mask.getLsbD i = true).card

theorem signalCount_le (mask : SignalMask) : signalCount mask ≤ signalMax :=
  (Finset.card_filter_le _ _).trans_eq (Finset.card_range 64)

theorem signalCount_zero : signalCount 0 = 0 := by
  rw [signalCount, Finset.card_eq_zero, Finset.filter_eq_empty_iff]
  intro i _
  rw [BitVec.ofNat_eq_ofNat, BitVec.getLsbD_zero]
  simp

/-- Clearing the bit of a signal that is in the mask. -/
theorem signalCount_clear {mask : SignalMask} (hmin : 1 ≤ signal) (hmax : signal ≤ signalMax)
    (hbit : mask &&& signalMaskBit signal ≠ 0) :
    signalCount (mask &&& ~~~signalMaskBit signal) < signalCount mask := by
  obtain ⟨i, rfl⟩ := Nat.exists_eq_add_of_le' hmin
  have hi : i < 64 := by
    rw [signalMax] at hmax
    omega
  have hself : (signalMaskBit (i + 1)).getLsbD i = true := by
    rw [← and_signalMaskBit_ne_zero hi, BitVec.and_self]
    intro hzero
    exact hbit (by rw [hzero, BitVec.ofNat_eq_ofNat, BitVec.and_zero])
  refine Finset.card_lt_card (Finset.ssubset_iff_subset_ne.mpr ⟨?_, fun heq => ?_⟩)
  · refine Finset.monotone_filter_right _ fun j _ hj => ?_
    rw [BitVec.getLsbD_and, Bool.and_eq_true] at hj
    exact hj.1
  · have hmem : i ∈ (Finset.range 64).filter fun j => mask.getLsbD j = true :=
      Finset.mem_filter.mpr ⟨Finset.mem_range.mpr hi, (and_signalMaskBit_ne_zero hi).mp hbit⟩
    rw [← heq, Finset.mem_filter, BitVec.getLsbD_and, BitVec.getLsbD_not, hself] at hmem
    simp at hmem

/-- What a signal does to the pending mask of its target, when it is not left pending. -/
theorem pendingSignalMask_applySignal {effect : SignalEffect} (hlt : id < maxProcesses)
    (heffect : effect ≠ .pend) :
    ((logic.applySignal id signal effect).processes id).pendingSignalMask =
        (logic.processes id).pendingSignalMask &&& ~~~signalMaskBit signal ∨
      ((logic.applySignal id signal effect).processes id).pendingSignalMask = 0 := by
  have hcleared : ((logic.clearPending id signal).processes id).pendingSignalMask =
      (logic.processes id).pendingSignalMask &&& ~~~signalMaskBit signal :=
    congrArg Process.pendingSignalMask clearPending_processes_self
  have hg : IgnoresScheduling Process.pendingSignalMask := by
    refine ⟨fun _ _ => rfl, fun process => ?_⟩
    rw [markKernelContext]
    split_ifs <;> rfl
  rw [← hcleared]
  cases effect with
  | discard => exact .inl rfl
  | pend => exact absurd rfl heffect
  | stop => exact .inl (Keeps.stopProcess hg id)
  | resume => exact .inl (Keeps.continueProcess hg id)
  | terminate coreDump =>
    exact .inr (congrArg Process.pendingSignalMask (killProcess_processes_self hlt _))
  | handle action =>
    refine .inl ((congrArg Process.pendingSignalMask (startHandler_processes_self action)).trans ?_)
    rw [wokenForHandler_eq hg fun _ => rfl]
    rfl

/-- Every dispatch leaves fewer signals pending. -/
theorem signalCount_dispatch {dispatched : LogicLayer} (hlive : logic.Live id)
    (h : logic.dispatchOnePendingUnblockedSignal accessible id = some dispatched) :
    signalCount (dispatched.processes id).pendingSignalMask <
      signalCount (logic.processes id).pendingSignalMask := by
  obtain ⟨signal, hfirst, hsaved, rfl⟩ := dispatchOne_eq hlive h
  obtain ⟨hmin, hmax, hbit⟩ := firstSignal_eq_some hfirst
  obtain ⟨hpending, hblocked⟩ := (deliverableMask_and_ne_zero hmin hmax).mp hbit
  have hless := signalCount_clear hmin hmax hpending
  obtain heq | heq := @pendingSignalMask_applySignal logic id signal _ hlive.1
    (@signalEffect_ne_pend accessible id signal _ hblocked hsaved)
  · rwa [heq]
  · rw [heq, signalCount_zero]
    omega

/-- What every dispatch keeps holds after the loop. -/
theorem drainLoop_induction {P : LogicLayer → Prop} (hstep : ∀ now dispatched, P now →
    now.dispatchOnePendingUnblockedSignal accessible id = some dispatched → P dispatched)
    (fuel : ℕ) (h : P logic) : P (drainLoop accessible id fuel logic) := by
  induction fuel generalizing logic with
  | zero => exact h
  | succ fuel ih =>
    rw [drainLoop]
    cases hdispatch : logic.dispatchOnePendingUnblockedSignal accessible id with
    | none => exact h
    | some dispatched => exact ih (hstep logic dispatched h hdispatch)

theorem dispatch_of_pending_zero (h : (logic.processes id).pendingSignalMask = 0) :
    logic.dispatchOnePendingUnblockedSignal accessible id = none := by
  rw [dispatchOnePendingUnblockedSignal]
  split_ifs
  · rfl
  · cases hfirst : firstSignal (deliverableMask (logic.processes id)) with
    | none => rfl
    | some signal =>
      obtain ⟨hmin, hmax, hbit⟩ := firstSignal_eq_some hfirst
      refine absurd ?_ ((deliverableMask_and_ne_zero hmin hmax).mp hbit).1
      rw [h, BitVec.ofNat_eq_ofNat, BitVec.zero_and]

theorem drainLoop_of_dispatch_none
    (h : logic.dispatchOnePendingUnblockedSignal accessible id = none) (fuel : ℕ) :
    drainLoop accessible id fuel logic = logic := by
  cases fuel with
  | zero => rfl
  | succ fuel => rw [drainLoop, h]

/-- A process that a dispatched signal has killed has no pending signal. -/
theorem pending_of_dispatch_dead {dispatched : LogicLayer} (hlive : logic.Live id)
    (h : logic.dispatchOnePendingUnblockedSignal accessible id = some dispatched)
    (hdead : dispatched.status id = .terminated) :
    (dispatched.processes id).pendingSignalMask = 0 := by
  obtain ⟨signal, -, -, rfl⟩ := dispatchOne_eq hlive h
  cases heffect : signalEffect accessible id (logic.processes id) signal with
  | terminate coreDump =>
    exact congrArg Process.pendingSignalMask (killProcess_processes_self hlive.1 _)
  | discard | pend | stop | resume | handle =>
    rw [heffect] at hdead
    exact absurd ((KeepsLife.applySignal signal (by simp) id).mp hdead) hlive.2

/-- With enough rounds the loop ends when there is nothing to dispatch. -/
theorem dispatch_drainLoop {fuel : ℕ} (hlive : logic.Live id)
    (hfuel : signalCount (logic.processes id).pendingSignalMask ≤ fuel) :
    (drainLoop accessible id fuel logic).dispatchOnePendingUnblockedSignal accessible id =
      none := by
  induction fuel generalizing logic with
  | zero =>
    rw [drainLoop, Option.eq_none_iff_forall_ne_some]
    intro dispatched hdispatch
    have := signalCount_dispatch hlive hdispatch
    omega
  | succ fuel ih =>
    rw [drainLoop]
    cases hdispatch : logic.dispatchOnePendingUnblockedSignal accessible id with
    | none => exact hdispatch
    | some dispatched =>
      dsimp only
      have hless := signalCount_dispatch hlive hdispatch
      by_cases hdead : dispatched.status id = .terminated
      · have hnone : dispatched.dispatchOnePendingUnblockedSignal accessible id = none :=
          dispatch_of_pending_zero (pending_of_dispatch_dead hlive hdispatch hdead)
        rw [drainLoop_of_dispatch_none hnone, hnone]
      · exact ih ⟨hlive.1, hdead⟩ (by omega)

/-- After the dispatch of all pending signals there is nothing to dispatch. -/
theorem dispatch_drainPendingSignals (hlive : logic.Live id) :
    (logic.drainPendingSignals accessible id).dispatchOnePendingUnblockedSignal accessible id =
      none :=
  dispatch_drainLoop hlive (signalCount_le _)

end LogicLayer

end TwistedOS
