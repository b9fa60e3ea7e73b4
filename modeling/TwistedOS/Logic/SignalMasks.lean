import TwistedOS.Logic.RecordRuns
import TwistedOS.Logic.SignalReturn

/-!
# Runs of signals and masks

A run is any sequence of signals sent to processes, of the signal calls of the running process, of
timers, and of other operations that leave the signal fields alone. Beside the state it keeps for
every process the mask with which it will leave `rt_sigsuspend`, the signals that were deferred and
not dispatched since, and the blocked mask before its last `rt_sigsuspend`.

In a run whose steps are all *safe*, no signal is lost, no unblocked signal waits while no handler
runs, and the mask before `rt_sigsuspend` is in force again when the call and the handlers are over.
A step is unsafe

* when `rt_sigprocmask` has updated the mask, fails to copy the old mask, and returns without
  dispatching what has become deliverable;
* when `rt_sigreturn` returns to code outside of system calls, which dispatches nothing either;
* when a handler starts inside `rt_sigsuspend` with a temporary mask other than the mask before,
  since its return restores the temporary one;
* when `rt_sigsuspend` returns without a handler while a signal is pending that only the temporary
  mask blocks;
* when `SIGCONT` is sent to a process that should defer it, which `SignalProcess` never does.

## Main definitions

* `SignalHistory`, `SignalState`, `SignalCall`, `SignalState.step`, `SignalState.Safe`.
* `SignalState.SignalsExact` — what holds of signals in a state.

## Main results

* `SignalFields.Consistent.enter`, `SignalFields.Consistent.leave`.
* `LogicLayer.callResult_drainLoop`, `LogicLayer.Untouched.run`.
-/

namespace TwistedOS

open Function

/-! ### The signal fields of a record -/

/-- The fields of a record that decide which signals wait. -/
structure SignalFields where
  blocked : SignalMask := 0
  pending : SignalMask := 0
  inHandler : Bool := false
  saved : SignalMask := 0
  deriving DecidableEq

/-- The signal fields of a record. -/
def signalFields (process : Process) : SignalFields where
  blocked := process.blockedSignalMask
  pending := process.pendingSignalMask
  inHandler := process.hasSavedSignalState
  saved := process.savedSignalMask

theorem ignoresScheduling_signalFields : IgnoresScheduling signalFields where
  status _ _ := rfl
  kernelContext process := by
    rw [LogicLayer.markKernelContext]
    split_ifs <;> rfl

theorem ignoresExits_signalFields : IgnoresExits signalFields where
  report _ _ _ := rfl
  stopWaiting _ := rfl

/-! ### Runs -/

/-- What a run remembers of a process: the mask that `rt_sigsuspend` restores when the process is
inside it, the deferred signals that were not dispatched yet, and the mask before the last
`rt_sigsuspend` outside of handlers. -/
structure SignalHistory where
  suspended : Option SignalMask := none
  owed : SignalMask := 0
  before : Option SignalMask := none

/-- The state of the kernel with the history of the processes. -/
structure SignalState where
  logic : LogicLayer := {}
  history : ℕ → SignalHistory := fun _ => {}

/-- A step of a run. The signal calls are made by the running process, `resume` lets a process
inside `rt_sigsuspend` run on, `tickTimer` and `tickSleepers` are the parts of a tick, and `other`
is any other operation of the logic layer. -/
inductive SignalCall where
  | send (accessible : UserAccess) (id signal : ℕ)
  | sigaction (arguments : SigactionArguments)
  | sigprocmask (accessible : UserAccess) (arguments : SigprocmaskArguments)
  | sigreturn (accessible : UserAccess)
  | sigsuspend (accessible : UserAccess) (set : Option (Option SignalMask)) (sigsetSize : ℕ)
  | resume (id : ℕ)
  | tickTimer (accessible : UserAccess) (id : ℕ)
  | tickSleepers
  | other (c : ProcessCall)

/-- The process has a handler of its own for a signal. -/
def HasCustomHandler (process : Process) (signal : ℕ) : Prop :=
  process.level = .user ∧ process.addressSpace.isSome ∧
    ∃ actions, process.signalActions = some actions ∧ (actions (signal - 1)).handler ≠ sigIgn ∧
      (actions (signal - 1)).handler ≠ sigDfl

instance (process : Process) (signal : ℕ) : Decidable (HasCustomHandler process signal) :=
  match h : process.signalActions with
  | none => .isFalse fun ⟨_, _, actions, hactions, _⟩ => by simp [h] at hactions
  | some actions =>
    decidable_of_iff (process.level = .user ∧ process.addressSpace.isSome ∧
      (actions (signal - 1)).handler ≠ sigIgn ∧ (actions (signal - 1)).handler ≠ sigDfl) <| by
        simp [HasCustomHandler, h]

/-- A signal is to be deferred: it is blocked, or it has a handler and another one is running. -/
def MustWait (process : Process) (signal : ℕ) : Prop :=
  signal ≠ sigkill ∧ signal ≠ sigstop ∧ (process.blockedSignalMask &&& signalMaskBit signal ≠ 0 ∨
    process.hasSavedSignalState = true ∧ HasCustomHandler process signal)

instance (process : Process) (signal : ℕ) : Decidable (MustWait process signal) :=
  inferInstanceAs (Decidable (_ ∧ _ ∧ (_ ∨ _ ∧ _)))

/-- The deferred signals after a signal was sent. -/
def sendOwed (process : Process) (signal : ℕ) (owed : SignalMask) : SignalMask :=
  if 1 ≤ signal ∧ signal ≤ signalMax then
    if MustWait process signal then owed ||| signalMaskBit signal
    else owed &&& ~~~signalMaskBit signal
  else owed

/-- The record under the temporary mask of `rt_sigsuspend`. -/
def suspendedRecord (set : SignalMask) : Process → Process :=
  withBlockedMask (set &&& ~~~unblockableSignalMask)

namespace LogicLayer

variable (logic : LogicLayer)

/-- The signal that `DispatchOnePendingUnblockedSignal` dispatches, as a mask. -/
def dispatchedSignal (id : ℕ) : SignalMask :=
  if (logic.processes id).hasSavedSignalState then 0
  else ((firstSignal (deliverableMask (logic.processes id))).map signalMaskBit).getD 0

/-- The signals that the loop over the pending signals dispatches. -/
def drainedSignals (accessible : UserAccess) (id : ℕ) : ℕ → LogicLayer → SignalMask
  | 0, _ => 0
  | fuel + 1, logic =>
    match logic.dispatchOnePendingUnblockedSignal accessible id with
    | none => 0
    | some dispatched => logic.dispatchedSignal id ||| drainedSignals accessible id fuel dispatched

/-- The state in which `rt_sigprocmask` dispatches the pending signals, `none` when it fails. -/
def sigprocmaskDrainStart (arguments : SigprocmaskArguments) (id : ℕ) : Option LogicLayer :=
  match arguments.newMask (logic.processes id).blockedSignalMask with
  | .error _ => none
  | .ok mask => (logic.modify id (withBlockedMask mask)).copyOut arguments.oldSet id
      [(logic.processes id).blockedSignalMask.toNat]

/-- The state in which `rt_sigreturn` dispatches the pending signals, `none` when it does not. -/
def sigreturnDrainStart (id : ℕ) : Option LogicLayer :=
  if (logic.processes id).hasSavedSignalState ∧ (logic.processes id).savedSignalWasSyscall then
    some (logic.modify id leaveHandler)
  else none

/-- The signals that a call dispatches which starts to do so in a state. -/
def dispatchedFrom (accessible : UserAccess) (id : ℕ) (start : Option LogicLayer) : SignalMask :=
  (start.map (drainedSignals accessible id signalMax)).getD 0

/-- The state in which `rt_sigsuspend` has set its temporary mask, `none` when it fails. -/
def sigsuspendStart (set : Option (Option SignalMask)) (sigsetSize id : ℕ) : Option LogicLayer :=
  if sigsetSize ≠ rtSigsetSize then none
  else set.join.map fun set => logic.modify id (suspendedRecord set)

end LogicLayer

/-- The operations that deliver no signals and leave the signal fields of existing processes
alone. -/
def ProcessCall.KeepsSignals (logic : LogicLayer) : ProcessCall → Prop
  | signalProcess _ _ _ | tick _ => False
  | changeRecord id f => signalFields (f (logic.processes id)) = signalFields (logic.processes id)
  | _ => True

namespace SignalState

variable (s : SignalState)

/-- The state after a step; the history of a dead process is forgotten. -/
def after (logic : LogicLayer) (history : ℕ → SignalHistory) : SignalState where
  logic := logic
  history p := if logic.status p = .terminated then {} else history p

/-- The process that can make a signal call: a user process that is running and not inside
`rt_sigsuspend`. -/
def caller : Option ℕ :=
  s.logic.running.filter fun id =>
    (s.logic.processes id).level = .user ∧ (s.history id).suspended.isNone

/-- The history after some signals of a process were dispatched. -/
def afterDispatch (id : ℕ) (dispatched : SignalMask) : ℕ → SignalHistory :=
  update s.history id { s.history id with owed := (s.history id).owed &&& ~~~dispatched }

/-- The history after a signal was sent. -/
def afterSend (id signal : ℕ) : ℕ → SignalHistory :=
  if s.logic.Live id then
    update s.history id { s.history id with
      owed := sendOwed (s.logic.processes id) signal (s.history id).owed }
  else s.history

/-- A call to `rt_sigprocmask` leaves the mask alone that is in force outside of handlers. -/
def KeepsOuterMask (arguments : SigprocmaskArguments) (process : Process) : Prop :=
  process.hasSavedSignalState = true ∨ ∀ mask,
    arguments.newMask process.blockedSignalMask = .ok mask → mask = process.blockedSignalMask

instance (arguments : SigprocmaskArguments) (process : Process) :
    Decidable (KeepsOuterMask arguments process) :=
  match h : arguments.newMask process.blockedSignalMask with
  | .error _ => .isTrue (.inr fun _ hmask => by simp [h] at hmask)
  | .ok mask => decidable_of_iff
      (process.hasSavedSignalState = true ∨ mask = process.blockedSignalMask) <| by
        simp [KeepsOuterMask, h]

/-- The history after `rt_sigprocmask`: a mask that it sets outside of handlers replaces the one
before `rt_sigsuspend`. -/
def afterSigprocmask (accessible : UserAccess) (arguments : SigprocmaskArguments) (id : ℕ) :
    ℕ → SignalHistory :=
  update s.history id { s.history id with
    owed := (s.history id).owed &&& ~~~LogicLayer.dispatchedFrom accessible id
      (s.logic.trackRunning.sigprocmaskDrainStart arguments id)
    before := if KeepsOuterMask arguments (s.logic.processes id) then (s.history id).before
      else none }

/-- The history after `rt_sigsuspend`, up to the point where it returns or blocks. -/
def afterSigsuspend (start : LogicLayer) (progress : SigsuspendProgress) (id : ℕ) :
    ℕ → SignalHistory :=
  update s.history id {
    owed := (s.history id).owed &&& ~~~start.dispatchedSignal id
    before := if (s.logic.processes id).hasSavedSignalState then (s.history id).before
      else some (s.logic.processes id).blockedSignalMask
    suspended := match progress with
      | .returned _ => none
      | .blocked previousMask => some previousMask }

/-- A timer that runs out sends `SIGALRM`. -/
def afterTimer (id : ℕ) : ℕ → SignalHistory :=
  if (s.logic.processes id).realIntervalTimerRemainingTicks = 1 then s.afterSend id sigalrm
  else s.history

/-- The state after a step. -/
def step : SignalCall → SignalState
  | .send accessible id signal =>
    after ((s.logic.signalProcess accessible id signal).getD s.logic) (s.afterSend id signal)
  | .sigaction arguments =>
    match s.caller with
    | none => s
    | some _ => after (s.logic.handleRtSigactionSystemCall arguments).2 s.history
  | .sigprocmask accessible arguments =>
    match s.caller with
    | none => s
    | some id => after (s.logic.handleRtSigprocmaskSystemCall accessible arguments).2
        (s.afterSigprocmask accessible arguments id)
  | .sigreturn accessible =>
    match s.caller with
    | none => s
    | some id => after (s.logic.handleRtSigreturnSystemCall accessible).2
        (s.afterDispatch id (LogicLayer.dispatchedFrom accessible id
          (s.logic.trackRunning.sigreturnDrainStart id)))
  | .sigsuspend accessible set sigsetSize =>
    match s.caller with
    | none => s
    | some id =>
      match s.logic.trackRunning.sigsuspendStart set sigsetSize id with
      | none => after (s.logic.handleRtSigsuspendSystemCall accessible set sigsetSize).2 s.history
      | some start => after (s.logic.handleRtSigsuspendSystemCall accessible set sigsetSize).2
          (s.afterSigsuspend start
            (s.logic.handleRtSigsuspendSystemCall accessible set sigsetSize).1 id)
  | .resume id =>
    match (s.history id).suspended with
    | none => s
    | some previousMask => after (s.logic.resumeSigsuspend previousMask id).2
        (update s.history id { s.history id with suspended := none })
  | .tickTimer accessible id => after (s.logic.tickIntervalTimer accessible id) (s.afterTimer id)
  | .tickSleepers => after s.logic.tickSleepers s.history
  | .other c => after (c.run s.logic) s.history

/-- The steps that runs are made of. -/
def Legal : SignalCall → Prop
  | .other c => c.KeepsSignals s.logic
  | _ => True

/-- The condition on a signal that is sent. -/
structure SendSafe (accessible : UserAccess) (id signal : ℕ) : Prop where
  sigcont : signal = sigcont → ¬MustWait (s.logic.processes id) signal
  suspended : ∀ previousMask action, (s.history id).suspended = some previousMask →
    LogicLayer.signalEffect accessible id (s.logic.processes id) signal = .handle action →
      (s.logic.processes id).blockedSignalMask = previousMask

/-- The condition under which a step keeps the signals exact. -/
def Safe : SignalCall → Prop
  | .send accessible id signal => s.SendSafe accessible id signal
  | .tickTimer accessible id => (s.logic.processes id).realIntervalTimerRemainingTicks = 1 →
      s.SendSafe accessible id sigalrm
  | .sigprocmask _ arguments => ∀ id mask, s.caller = some id → arguments.oldSet = some none →
      arguments.newMask (s.logic.processes id).blockedSignalMask = .ok mask →
        (s.logic.processes id).hasSavedSignalState = true ∨
          (s.logic.processes id).pendingSignalMask &&& ~~~mask = 0
  | .sigreturn _ => ∀ id, s.caller = some id →
      (s.logic.processes id).hasSavedSignalState = true →
      (s.logic.processes id).savedSignalWasSyscall = false →
        (s.logic.processes id).pendingSignalMask &&& ~~~(s.logic.processes id).savedSignalMask = 0
  | .sigsuspend accessible set _ => ∀ id mask signal action, s.caller = some id →
      set = some (some mask) → (s.logic.processes id).hasSavedSignalState = false →
      firstSignal (deliverableMask (suspendedRecord mask (s.logic.processes id))) = some signal →
        LogicLayer.signalEffect accessible id (suspendedRecord mask (s.logic.processes id))
          signal ≠ .handle action
  | .resume id => ∀ previousMask, (s.history id).suspended = some previousMask →
      (s.logic.processes id).hasSavedSignalState = true ∨
        (s.logic.processes id).pendingSignalMask &&& ~~~previousMask = 0
  | _ => True

/-- The states that runs lead to from the start of the kernel. -/
inductive Reachable : SignalState → Prop
  | init (memory : ℕ → ByteMemory) : Reachable { logic := { memory := memory } }
  | step {s : SignalState} (h : Reachable s) (c : SignalCall) (hc : s.Legal c) :
    Reachable (s.step c)

/-- The states that runs of safe steps lead to. -/
inductive SafelyReachable : SignalState → Prop
  | init (memory : ℕ → ByteMemory) : SafelyReachable { logic := { memory := memory } }
  | step {s : SignalState} (h : SafelyReachable s) (c : SignalCall) (hc : s.Legal c)
    (hsafe : s.Safe c) : SafelyReachable (s.step c)

/-- Deferred signals are pending until they are dispatched; no handler starts for a blocked signal,
also in the states between the signals of one call; outside of handlers no unblocked signal is
pending; `SIGKILL` and `SIGSTOP` are never blocked; and after `rt_sigsuspend` and its handlers the
mask is the one before. -/
structure SignalsExact : Prop where
  pending_of_owed : ∀ p signal, (s.history p).owed &&& signalMaskBit signal ≠ 0 →
    (s.logic.processes p).pendingSignalMask &&& signalMaskBit signal ≠ 0
  not_blocked_of_start : ∀ accessible p signal (before logic : LogicLayer),
    before.signalProcess accessible p signal = some logic →
    (before.processes p).hasSavedSignalState = false →
    (logic.processes p).hasSavedSignalState = true →
      (before.processes p).blockedSignalMask &&& signalMaskBit signal = 0
  dispatched : ∀ p, s.logic.Live p → (s.history p).suspended = none →
    (s.logic.processes p).hasSavedSignalState = false → deliverableMask (s.logic.processes p) = 0
  unblockable : ∀ p, (s.logic.processes p).blockedSignalMask &&& unblockableSignalMask = 0
  restored : ∀ p mask, (s.history p).before = some mask → (s.history p).suspended = none →
    (s.logic.processes p).hasSavedSignalState = false →
      (s.logic.processes p).blockedSignalMask = mask

end SignalState

/-! ### One process -/

namespace SignalFields

open LogicLayer

variable {fields : SignalFields} {history : SignalHistory} {signal : ℕ} {mask : SignalMask}

/-- The pending bit of a signal is cleared. -/
def clear (fields : SignalFields) (signal : ℕ) : SignalFields :=
  { fields with pending := fields.pending &&& ~~~signalMaskBit signal }

/-- The pending bit of a signal is set. -/
def pend (fields : SignalFields) (signal : ℕ) : SignalFields :=
  { fields with pending := fields.pending ||| signalMaskBit signal }

/-- The handler of a signal is entered. -/
def enter (fields : SignalFields) (signal : ℕ) (mask : SignalMask) : SignalFields where
  blocked := (fields.blocked ||| signalMaskBit signal ||| mask) &&& ~~~unblockableSignalMask
  pending := fields.pending &&& ~~~signalMaskBit signal
  inHandler := true
  saved := fields.blocked

/-- The handler returns. -/
def leave (fields : SignalFields) : SignalFields :=
  { fields with blocked := fields.saved, inHandler := false }

/-- What holds of the fields of a process with a history at every moment. -/
structure Consistent (fields : SignalFields) (history : SignalHistory) : Prop where
  owed : history.owed &&& ~~~fields.pending = 0
  blocked_ok : fields.blocked &&& unblockableSignalMask = 0
  saved_ok : fields.inHandler = true → fields.saved &&& unblockableSignalMask = 0
  suspended_ok : ∀ m, history.suspended = some m → m &&& unblockableSignalMask = 0
  before_saved : ∀ m, history.before = some m → fields.inHandler = true → fields.saved = m
  before_suspended : ∀ m m', history.before = some m → fields.inHandler = false →
    history.suspended = some m' → m' = m
  before_blocked : ∀ m, history.before = some m → fields.inHandler = false →
    history.suspended = none → fields.blocked = m

/-- Outside of handlers no unblocked signal is pending. -/
def Quiet (fields : SignalFields) : Prop :=
  fields.inHandler = false → fields.pending &&& ~~~fields.blocked = 0

namespace Consistent

section

variable (h : Consistent fields history)

include h

theorem clear (signal : ℕ) :
    Consistent (fields.clear signal)
      { history with owed := history.owed &&& ~~~signalMaskBit signal } :=
  { h with
    owed := by
      ext i hi
      have howed := congrArg (fun m : SignalMask => m[i]) h.owed
      simp only [BitVec.getElem_and, BitVec.getElem_not, SignalFields.clear] at howed ⊢
      grind }

theorem pend (signal : ℕ) :
    Consistent (fields.pend signal)
      { history with owed := history.owed ||| signalMaskBit signal } :=
  { h with
    owed := by
      ext i hi
      have howed := congrArg (fun m : SignalMask => m[i]) h.owed
      simp only [BitVec.getElem_and, BitVec.getElem_not, BitVec.getElem_or, SignalFields.pend]
        at howed ⊢
      grind }

/-- A handler is entered outside of `rt_sigsuspend`, or under the mask that the call restores. -/
theorem enter (hout : fields.inHandler = false)
    (hsuspended : ∀ m, history.suspended = some m → fields.blocked = m) (signal : ℕ)
    (mask : SignalMask) :
    Consistent (fields.enter signal mask)
      { history with owed := history.owed &&& ~~~signalMaskBit signal } where
  owed := (h.clear signal).owed
  blocked_ok := by
    rw [SignalFields.enter, BitVec.and_assoc, BitVec.and_comm (~~~_), BitVec.and_not_self]
    simp
  saved_ok _ := h.blocked_ok
  suspended_ok := h.suspended_ok
  before_saved m hm _ := by
    cases hs : history.suspended with
    | none => exact h.before_blocked m hm hout hs
    | some m' => exact (hsuspended m' hs).trans (h.before_suspended m m' hm hout hs)
  before_suspended _ _ _ hin := absurd hin (by simp [SignalFields.enter])
  before_blocked _ _ hin := absurd hin (by simp [SignalFields.enter])

theorem leave (hin : fields.inHandler = true) (hsuspended : history.suspended = none) :
    Consistent fields.leave history where
  owed := h.owed
  blocked_ok := h.saved_ok hin
  saved_ok hin := absurd hin (by simp [SignalFields.leave])
  suspended_ok := h.suspended_ok
  before_saved _ _ hin := absurd hin (by simp [SignalFields.leave])
  before_suspended m m' _ _ hs := absurd (hsuspended.symm.trans hs) (by simp)
  before_blocked m hm _ _ := h.before_saved m hm hin

end

end Consistent

namespace Quiet

theorem clear (h : Quiet fields) (signal : ℕ) : Quiet (fields.clear signal) := fun hout => by
  ext i hi
  have hquiet := congrArg (fun m : SignalMask => m[i]) (h hout)
  simp only [BitVec.getElem_and, BitVec.getElem_not, SignalFields.clear] at hquiet ⊢
  grind

/-- A signal that is left pending because it is blocked, or in a handler. -/
theorem pend (h : Quiet fields) (hmin : 1 ≤ signal) (hmax : signal ≤ signalMax)
    (hwaits : fields.blocked &&& signalMaskBit signal ≠ 0 ∨ fields.inHandler = true) :
    Quiet (fields.pend signal) := fun hout => by
  have hblocked := hwaits.resolve_right (by simpa [SignalFields.pend] using hout)
  obtain ⟨i, rfl⟩ := Nat.exists_eq_add_of_le' hmin
  have hi : i < 64 := by
    rw [signalMax] at hmax
    omega
  rw [and_signalMaskBit_ne_zero hi] at hblocked
  refine BitVec.eq_of_getLsbD_eq fun j hj => ?_
  have hquiet := congrArg (fun m : SignalMask => m.getLsbD j) (h hout)
  simp only [BitVec.getLsbD_and, BitVec.getLsbD_or, BitVec.getLsbD_not, SignalFields.pend,
    getLsbD_signalMaskBit hj] at hquiet ⊢
  grind

end Quiet

end SignalFields

/-- The signal fields after a signal took effect. -/
def SignalFields.apply (fields : SignalFields) (signal : ℕ) : SignalEffect → SignalFields
  | .discard | .stop | .resume => fields.clear signal
  | .pend => fields.pend signal
  | .terminate _ => {}
  | .handle action => fields.enter signal action.mask

namespace LogicLayer

variable {logic logic₁ logic₂ logic₃ : LogicLayer} {accessible : UserAccess} {id p signal : ℕ}

/-- Only the signal fields and the life of one process change. -/
structure OthersKept (id : ℕ) (logic₁ logic₂ : LogicLayer) : Prop where
  fields : ∀ p, p ≠ id → signalFields (logic₂.processes p) = signalFields (logic₁.processes p)
  life : ∀ p, p ≠ id → (logic₂.status p = .terminated ↔ logic₁.status p = .terminated)

namespace OthersKept

theorem trans (h₁ : OthersKept id logic₁ logic₂) (h₂ : OthersKept id logic₂ logic₃) :
    OthersKept id logic₁ logic₃ where
  fields p hp := (h₂.fields p hp).trans (h₁.fields p hp)
  life p hp := (h₂.life p hp).trans (h₁.life p hp)

theorem of_keeps (hkeeps : Keeps signalFields logic₁ logic₂) (hlife : KeepsLife logic₁ logic₂) :
    OthersKept id logic₁ logic₂ where
  fields p _ := hkeeps p
  life p _ := hlife p

theorem of_processes (h : ∀ p, p ≠ id → logic₂.processes p = logic₁.processes p) :
    OthersKept id logic₁ logic₂ where
  fields p hp := congrArg signalFields (h p hp)
  life p hp := by rw [status, h p hp]

theorem modify {f : Process → Process} : OthersKept id logic (logic.modify id f) :=
  of_processes fun _ hp => ProcessManager.modify_processes_of_ne hp

theorem killProcess (exitStatus : ℕ) : OthersKept id logic (logic.killProcess id exitStatus) where
  fields _ hp := killProcess_of_not ignoresScheduling_signalFields ignoresExits_signalFields
    (fun h => hp h.1) exitStatus
  life _ hp := KeepsLife.killProcess_of_not (fun h => hp h.1) exitStatus

theorem applySignal (effect : SignalEffect) :
    OthersKept id logic (logic.applySignal id signal effect) := by
  have hg := ignoresScheduling_signalFields
  have hcleared : OthersKept id logic (logic.clearPending id signal) := modify
  refine hcleared.trans ?_
  cases effect with
  | discard => exact of_processes fun _ _ => rfl
  | pend => exact modify
  | stop => exact of_keeps (.stopProcess hg) .stopProcess
  | resume => exact of_keeps (.continueProcess hg) .continueProcess
  | terminate coreDump => exact killProcess _
  | handle action => exact of_processes fun _ hp => startHandler_processes_of_ne action hp

end OthersKept

/-- The signal fields of the target of a signal. -/
theorem signalFields_applySignal (hlt : id < maxProcesses) (effect : SignalEffect) :
    signalFields ((logic.applySignal id signal effect).processes id) =
      (signalFields (logic.processes id)).apply signal effect := by
  have hg := ignoresScheduling_signalFields
  have hcleared : signalFields ((logic.clearPending id signal).processes id) =
      (signalFields (logic.processes id)).clear signal :=
    congrArg signalFields clearPending_processes_self
  cases effect with
  | discard => exact hcleared
  | pend =>
    rw [applySignal, carryOut, setPending_clearPending]
    exact congrArg signalFields ProcessManager.modify_processes_self
  | stop => exact (Keeps.stopProcess hg id).trans hcleared
  | resume => exact (Keeps.continueProcess hg id).trans hcleared
  | terminate coreDump => exact congrArg signalFields (killProcess_processes_self hlt _)
  | handle action =>
    rw [applySignal, carryOut, startHandler_processes_self, clearPending_processes_self,
      wokenForHandler]
    split_ifs <;> rfl

/-- A signal is left pending exactly when it is to be deferred, `SIGCONT` apart. -/
theorem signalEffect_eq_pend_iff {process : Process} :
    signalEffect accessible id process signal = .pend ↔
      MustWait process signal ∧ signal ≠ sigcont := by
  rw [signalEffect, MustWait]
  split_ifs with hkill hstop hcont hblocked
  · simp [hkill]
  · simp [hstop]
  · simp [hcont]
  · exact iff_of_true rfl ⟨⟨hkill, hstop, .inl hblocked⟩, hcont⟩
  · have hdelivered : deliveredSignalEffect accessible id process signal = .pend ↔
        process.hasSavedSignalState = true ∧ HasCustomHandler process signal := by
      rw [deliveredSignalEffect, HasCustomHandler]
      cases process.signalActions with
      | none => simpa using defaultSignalEffect_ne_pend
      | some actions =>
        dsimp only
        split_ifs with huser
        · rw [actionSignalEffect]
          split_ifs with higno hdfl hsaved henter
          · simp [higno]
          · simpa [hdfl] using defaultSignalEffect_ne_pend
          · simp [hsaved, huser, higno, hdfl]
          · simp [hsaved]
          · simp [hsaved]
        · exact iff_of_false defaultSignalEffect_ne_pend fun h => huser ⟨h.2.1, h.2.2.1⟩
    rw [hdelivered]
    exact ⟨fun h => ⟨⟨hkill, hstop, .inr h⟩, hcont⟩, fun h => h.1.2.2.resolve_left hblocked⟩

/-- The signals that are owed after a signal took effect that was sent. -/
theorem consistent_send {process : Process} {history : SignalHistory}
    (h : (signalFields process).Consistent history) (hmin : 1 ≤ signal) (hmax : signal ≤ signalMax)
    (hcont : signal = sigcont → ¬MustWait process signal)
    (hsuspended : ∀ m action, history.suspended = some m →
      signalEffect accessible id process signal = .handle action → process.blockedSignalMask = m)
    (hterminate : ∀ coreDump, signalEffect accessible id process signal ≠ .terminate coreDump) :
    ((signalFields process).apply signal
      (signalEffect accessible id process signal)).Consistent
        { history with owed := sendOwed process signal history.owed } := by
  rw [sendOwed, if_pos ⟨hmin, hmax⟩]
  by_cases hwait : MustWait process signal
  · have hpend : signalEffect accessible id process signal = .pend :=
      signalEffect_eq_pend_iff.mpr ⟨hwait, fun heq => hcont heq hwait⟩
    rw [if_pos hwait, hpend]
    exact h.pend signal
  · rw [if_neg hwait]
    cases heffect : signalEffect accessible id process signal with
    | discard | stop | resume => exact h.clear signal
    | pend => exact absurd (signalEffect_eq_pend_iff.mp heffect).1 hwait
    | terminate coreDump => exact absurd heffect (hterminate coreDump)
    | handle action =>
      obtain ⟨-, -, hout, -⟩ := signalEffect_eq_handle heffect
      exact h.enter hout (fun m hm => hsuspended m action hm heffect) signal action.mask

theorem quiet_send {process : Process} (h : (signalFields process).Quiet) (hmin : 1 ≤ signal)
    (hmax : signal ≤ signalMax) :
    ((signalFields process).apply signal
      (signalEffect accessible id process signal)).Quiet := by
  cases heffect : signalEffect accessible id process signal with
  | discard | stop | resume => exact h.clear signal
  | pend =>
    obtain ⟨-, -, hwait⟩ := (signalEffect_eq_pend_iff.mp heffect).1
    exact h.pend hmin hmax (hwait.imp_right And.left)
  | terminate coreDump => exact fun _ => by simp [SignalFields.apply]
  | handle action => exact fun hout => absurd hout (by simp [SignalFields.apply, SignalFields.enter])

/-- The signals that are owed after a pending signal was dispatched. -/
theorem consistent_dispatch {process : Process} {history : SignalHistory}
    (h : (signalFields process).Consistent history)
    (hblocked : process.blockedSignalMask &&& signalMaskBit signal = 0)
    (hout : process.hasSavedSignalState = false)
    (hsuspended : ∀ m action, history.suspended = some m →
      signalEffect accessible id process signal ≠ .handle action)
    (hterminate : ∀ coreDump, signalEffect accessible id process signal ≠ .terminate coreDump) :
    ((signalFields process).apply signal
      (signalEffect accessible id process signal)).Consistent
        { history with owed := history.owed &&& ~~~signalMaskBit signal } := by
  cases heffect : signalEffect accessible id process signal with
  | discard | stop | resume => exact h.clear signal
  | pend => exact absurd heffect (signalEffect_ne_pend hblocked hout)
  | terminate coreDump => exact absurd heffect (hterminate coreDump)
  | handle action =>
    exact h.enter hout (fun m hm => absurd heffect (hsuspended m action hm)) signal action.mask

/-- Where a part of a call leaves the process `id` with a history, and the other processes. -/
structure CallResult (id : ℕ) (history : SignalHistory) (logic₁ logic₂ : LogicLayer) : Prop where
  others : OthersKept id logic₁ logic₂
  alive : logic₂.status id ≠ .terminated →
    (signalFields (logic₂.processes id)).Consistent history
  dead : logic₂.status id = .terminated → signalFields (logic₂.processes id) = {}

/-- A signal takes effect in a live process. -/
theorem CallResult.applySignal {history : SignalHistory} (hlive : logic.Live id)
    (h : (∀ coreDump, signalEffect accessible id (logic.processes id) signal ≠
        .terminate coreDump) → ((signalFields (logic.processes id)).apply signal
          (signalEffect accessible id (logic.processes id) signal)).Consistent history) :
    CallResult id history logic
      (logic.applySignal id signal (signalEffect accessible id (logic.processes id) signal)) := by
  refine ⟨.applySignal _, fun halive => ?_, fun hdead => ?_⟩
  · rw [signalFields_applySignal hlive.1]
    refine h fun coreDump heffect => halive ?_
    rw [heffect]
    exact congrArg Process.status (killProcess_processes_self hlive.1 _)
  · rw [signalFields_applySignal hlive.1]
    cases heffect : signalEffect accessible id (logic.processes id) signal with
    | terminate coreDump => rfl
    | discard | pend | stop | resume | handle =>
      rw [heffect] at hdead
      exact absurd ((KeepsLife.applySignal signal (by simp) id).mp hdead) hlive.2

theorem dispatchedSignal_of_first (hout : (logic.processes id).hasSavedSignalState = false)
    (hfirst : firstSignal (deliverableMask (logic.processes id)) = some signal) :
    logic.dispatchedSignal id = signalMaskBit signal := by
  rw [dispatchedSignal, if_neg (by simp [hout]), hfirst]
  rfl

theorem callResult_dispatch {dispatched : LogicLayer} {history : SignalHistory}
    (hlive : logic.Live id) (h : (signalFields (logic.processes id)).Consistent history)
    (hdispatch : logic.dispatchOnePendingUnblockedSignal accessible id = some dispatched)
    (hsuspended : ∀ m signal action, history.suspended = some m →
      firstSignal (deliverableMask (logic.processes id)) = some signal →
        signalEffect accessible id (logic.processes id) signal ≠ .handle action) :
    CallResult id { history with owed := history.owed &&& ~~~logic.dispatchedSignal id } logic
      dispatched := by
  obtain ⟨signal, hfirst, hout, rfl⟩ := dispatchOne_eq hlive hdispatch
  obtain ⟨hmin, hmax, hbit⟩ := firstSignal_eq_some hfirst
  obtain ⟨-, hblocked⟩ := (deliverableMask_and_ne_zero hmin hmax).mp hbit
  rw [dispatchedSignal_of_first hout hfirst]
  exact .applySignal hlive fun halive => consistent_dispatch h hblocked hout
    (fun m action hm => hsuspended m signal action hm hfirst) halive

/-- The loop over the pending signals of a process that is not inside `rt_sigsuspend`. -/
theorem callResult_drainLoop {history : SignalHistory} (hlive : logic.Live id)
    (h : (signalFields (logic.processes id)).Consistent history)
    (hsuspended : history.suspended = none) (fuel : ℕ) :
    CallResult id
      { history with owed := history.owed &&& ~~~drainedSignals accessible id fuel logic } logic
      (drainLoop accessible id fuel logic) := by
  have hrefl {logic : LogicLayer} {history : SignalHistory} (hlive : logic.Live id)
      (h : (signalFields (logic.processes id)).Consistent history) :
      CallResult id { history with owed := history.owed &&& ~~~(0 : SignalMask) } logic logic := by
    have hnone (owed : SignalMask) : owed &&& ~~~(0 : SignalMask) = owed := by
      ext i hi
      simp only [BitVec.getElem_and, BitVec.getElem_not, BitVec.ofNat_eq_ofNat,
        BitVec.getElem_zero, Bool.not_false, Bool.and_true]
    refine ⟨.of_processes fun _ _ => rfl, fun _ => ?_, fun hdead => absurd hdead hlive.2⟩
    rw [hnone]
    exact h
  induction fuel generalizing logic history with
  | zero => exact hrefl hlive h
  | succ fuel ih =>
    rw [drainLoop, drainedSignals]
    cases hdispatch : logic.dispatchOnePendingUnblockedSignal accessible id with
    | none => exact hrefl hlive h
    | some dispatched =>
      have hone := callResult_dispatch hlive h hdispatch
        fun m _ _ hm => absurd (hsuspended.symm.trans hm) (by simp)
      by_cases hdead : dispatched.status id = .terminated
      · have hnone : dispatched.dispatchOnePendingUnblockedSignal accessible id = none :=
          dispatch_of_pending_zero (pending_of_dispatch_dead hlive hdispatch hdead)
        dsimp only
        rw [drainLoop_of_dispatch_none hnone]
        exact ⟨hone.others, fun halive => absurd hdead halive, hone.dead⟩
      · have hrest := ih ⟨hlive.1, hdead⟩ (hone.alive hdead) hsuspended
        have howed (owed first rest : SignalMask) :
            owed &&& ~~~first &&& ~~~rest = owed &&& ~~~(first ||| rest) := by
          ext i hi
          simp only [BitVec.getElem_and, BitVec.getElem_or, BitVec.getElem_not]
          grind
        refine ⟨hone.others.trans hrest.others, fun halive => ?_, hrest.dead⟩
        rw [← howed]
        exact hrest.alive halive

/-- After the loop no unblocked signal is pending outside of handlers. -/
theorem quiet_of_dispatch_none
    (h : logic.dispatchOnePendingUnblockedSignal accessible id = none) :
    (signalFields (logic.processes id)).Quiet := fun hout => by
  rw [dispatchOnePendingUnblockedSignal,
    if_neg (by simpa [signalFields] using hout), Option.map_eq_none_iff] at h
  exact firstSignal_eq_none h

end LogicLayer

/-! ### Operations that deliver no signals -/

theorem zero_and_unblockable : (0 : SignalMask) &&& unblockableSignalMask = 0 := by
  rw [BitVec.ofNat_eq_ofNat, BitVec.zero_and]

namespace LogicLayer

variable {logic logic₁ logic₂ : LogicLayer} {id p : ℕ}

/-- The signal fields and the life of a process are kept, or its slot is filled or freed, with none
of the unblockable signals blocked. -/
inductive Untouched (p : ℕ) (logic₁ logic₂ : LogicLayer) : Prop
  | same (hfields : signalFields (logic₂.processes p) = signalFields (logic₁.processes p))
    (hlife : logic₂.status p = .terminated ↔ logic₁.status p = .terminated)
  | fresh (mask : SignalMask) (hmask : mask &&& unblockableSignalMask = 0)
    (hfields : signalFields (logic₂.processes p) = { blocked := mask })
    (hdead : logic₁.status p = .terminated ∨ logic₂.status p = .terminated)

namespace Untouched

theorem of_keeps (hkeeps : Keeps signalFields logic₁ logic₂) (hlife : KeepsLife logic₁ logic₂)
    (p : ℕ) : Untouched p logic₁ logic₂ :=
  .same (hkeeps p) (hlife p)

/-- An operation that delivers no signals. -/
theorem run
    (hmasks : ∀ q, (logic.processes q).blockedSignalMask &&& unblockableSignalMask = 0)
    {c : ProcessCall} (hc : c.KeepsSignals logic) (p : ℕ) :
    Untouched p logic (c.run logic) := by
  have hvfork : IgnoresVfork signalFields := ⟨fun _ _ => rfl, fun _ _ => rfl⟩
  have hfield : c.KeepsField signalFields logic := by
    cases c <;> first | exact hc | trivial
  have hsilent : c.DeliversNoSignal := by
    cases c <;> first | exact hc.elim | trivial
  cases SlotChange.run ignoresScheduling_signalFields ignoresExits_signalFields hvfork hfield
    (fun h => absurd hsilent h) p with
  | kept h =>
    cases h with
    | same hfields hlife => exact .same hfields hlife
    | freed hfields hdead => exact .fresh 0 zero_and_unblockable hfields (.inr hdead)
  | filled process hnew hfields hfree =>
    cases hnew with
    | kernel state _ => exact .fresh 0 zero_and_unblockable hfields (.inl hfree)
    | user space state _ => exact .fresh 0 zero_and_unblockable hfields (.inl hfree)
    | forked parentId _ _ _ => exact .fresh _ (hmasks parentId) hfields (.inl hfree)
    | sharing _ _ parentId _ _ _ _ => exact .fresh _ (hmasks parentId) hfields (.inl hfree)

end Untouched

end LogicLayer

end TwistedOS
