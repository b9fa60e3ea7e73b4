import TwistedOS.Logic.SignalCalls
import TwistedOS.Logic.VforkProtocol

/-!
# The return from a signal handler

A process that enters a handler keeps its registers and its blocked mask in its record until it
calls `rt_sigreturn`. Nothing that happens in between changes what is kept: a second signal waits
until the handler has returned.

The interrupted program sees no trace of the handler exactly when three things hold: the system call
it was in, if any, completes with `EINTR`, which is the result that `rt_sigreturn` gives it whatever
its own result was; the eight bytes below its stack pointer, over which the return address of the
handler is pushed, had this value already; and the handler, whose stack starts right there, leaves
the rest of the 128 bytes below the stack pointer alone.

## Main definitions

* `HandlerRun` — a run between the entry of a handler and its return.
* `LogicLayer.Transparent` — the interrupted program goes on as if there had been no handler.

## Main results

* `HandlerRun.context_eq` — what a handler's return reads is kept during the handler.
* `LogicLayer.transparent_iff`.
-/

namespace TwistedOS

open Function

/-- The fields of a record that the return from a handler reads, and the address space. -/
abbrev HandlerContext := Bool × UserRegisters × SignalMask × Bool × ProcessLevel × Option ℕ

/-- What the return from a handler reads of a record, with the address space. -/
def handlerContext (process : Process) : HandlerContext :=
  (process.hasSavedSignalState, process.savedSignalFrame, process.savedSignalMask,
    process.savedSignalWasSyscall, process.level, process.addressSpace)

theorem ignoresScheduling_handlerContext : IgnoresScheduling handlerContext where
  status _ _ := rfl
  kernelContext process := by
    rw [LogicLayer.markKernelContext]
    split_ifs <;> rfl

/-- The process is inside a system call. -/
def inSystemCall (process : Process) : Bool :=
  process.waitingForSystemCallReturn && process.hasSavedSystemCallFrame

/-- The registers with which a program goes on that was interrupted: those at the interruption, with
the result of the system call that it was in. -/
def resumedRegisters (process : Process) (result : ℤ) : UserRegisters :=
  if inSystemCall process then
    { process.savedSystemCallFrame with rax := resultRegister result }
  else process.state.toUserRegisters

namespace LogicLayer

variable {logic logic' : LogicLayer} {accessible : UserAccess} {id p : ℕ}
  {context : HandlerContext}

/-- The process was killed, or is in the handler that it entered with the context. -/
def InHandler (p : ℕ) (context : HandlerContext) (logic : LogicLayer) : Prop :=
  logic.status p = .terminated ∨ handlerContext (logic.processes p) = context

namespace InHandler

section

variable (h : InHandler p context logic)

include h

theorem of_keeps (hkeeps : Keeps handlerContext logic logic') (hlife : KeepsLife logic logic') :
    InHandler p context logic' :=
  h.imp (hlife p).mpr (hkeeps p).trans

theorem of_eq (heq : logic'.processes p = logic.processes p) : InHandler p context logic' := by
  rw [InHandler, status, heq]
  exact h

theorem modify {f : Process → Process} (hstatus : (f (logic.processes id)).status = logic.status id)
    (hcontext : handlerContext (f (logic.processes id)) = handlerContext (logic.processes id)) :
    InHandler p context (logic.modify id f) :=
  h.of_keeps (.modify hcontext) (.of_eq (status_modify_of_eq hstatus))

theorem reportChildExit (parentId exitStatus : ℕ) :
    InHandler p context (logic.reportChildExit parentId id exitStatus) := by
  rw [LogicLayer.reportChildExit]
  split_ifs
  · exact ((h.modify rfl rfl).modify  rfl rfl).of_keeps
      (.resumeBlocked ignoresScheduling_handlerContext) .resumeBlocked
  · exact h.modify rfl rfl
  · exact h

theorem killProcess (id exitStatus : ℕ) :
    InHandler p context (logic.killProcess id exitStatus) := by
  by_cases hkilled : p = id ∧ id < maxProcesses
  · left
    rw [hkilled.1]
    exact congrArg Process.status (killProcess_processes_self hkilled.2 exitStatus)
  · have hrecord : (((logic.freeRecord id).dropReady id).removeWaits id).processes p =
        logic.processes p := freeRecord_processes_of_not hkilled
    exact (h.of_eq hrecord).reportChildExit _ _

/-- A signal leaves a process in its handler, or kills it. -/
theorem signalProcess (hcontext : context.1 = true) (signal : ℕ) :
    InHandler p context ((logic.signalProcess accessible id signal).getD logic) := by
  rw [signalProcess_eq]
  split_ifs with hvalid
  swap
  · exact h
  obtain ⟨-, -, hlive⟩ := hvalid
  have hcleared : InHandler p context (logic.clearPending id signal) := h.modify rfl rfl
  rw [Option.getD_some, applySignal]
  cases heffect : signalEffect accessible id (logic.processes id) signal with
  | discard => exact hcleared
  | pend => exact hcleared.modify rfl rfl
  | stop =>
    exact hcleared.of_keeps (.stopProcess ignoresScheduling_handlerContext) .stopProcess
  | resume =>
    exact hcleared.of_keeps (.continueProcess ignoresScheduling_handlerContext) .continueProcess
  | terminate coreDump => exact hcleared.killProcess id _
  | handle action =>
    have hne : p ≠ id := by
      rintro rfl
      obtain ⟨-, -, hsaved, -⟩ := signalEffect_eq_handle heffect
      refine h.elim hlive.2 fun hin => ?_
      rw [← hin, show (handlerContext (logic.processes p)).1 = _ from hsaved] at hcontext
      exact absurd hcontext (by simp)
    exact hcleared.of_eq (startHandler_processes_of_ne action hne)

theorem tickIntervalTimer (hcontext : context.1 = true) :
    InHandler p context (logic.tickIntervalTimer accessible id) := by
  rw [LogicLayer.tickIntervalTimer]
  split_ifs
  · exact h
  · have hreload (process : Process) :
        (reloadIntervalTimer process).status = process.status ∧
          handlerContext (reloadIntervalTimer process) = handlerContext process := by
      rw [reloadIntervalTimer]
      split_ifs <;> exact ⟨rfl, rfl⟩
    have hticked : InHandler p context (logic.modify id decrementIntervalTimer) := h.modify rfl rfl
    exact (hticked.signalProcess hcontext sigalrm).modify (hreload _).1 (hreload _).2
  · exact h.modify rfl rfl

theorem tick (hcontext : context.1 = true) : InHandler p context (logic.tick accessible) := by
  have htimers (ids : List ℕ) : InHandler p context
      (ids.foldl (fun logic id => logic.tickIntervalTimer accessible id) logic) := by
    induction ids generalizing logic with
    | nil => exact h
    | cons id ids ih => exact ih (h.tickIntervalTimer hcontext)
  have hsleepers {logic : LogicLayer} (h : InHandler p context logic) :
      InHandler p context logic.tickSleepers := by
    rw [LogicLayer.tickSleepers]
    dsimp only
    split
    · exact h.of_keeps (.resumeBlocked ignoresScheduling_handlerContext) .resumeBlocked
    · exact h
  exact hsleepers (htimers _)

section

variable (hp : logic.Live p)

include hp

/-- A fresh slot is that of another process. -/
theorem of_fresh (hfree : logic.status id = .terminated) (process : Process) :
    InHandler p context (logic.modify id fun _ => process) :=
  h.of_eq (modify_const_processes_of_ne process fun heq => hp.2 (heq ▸ hfree))

theorem createKernelProcess (state : CpuState) :
    InHandler p context (logic.createKernelProcess state) := by
  rw [LogicLayer.createKernelProcess]
  cases hcreate : logic.pm.createKernelProcess state with
  | none => exact h
  | some created =>
    obtain ⟨-, hfree, hpm⟩ := ProcessManager.createKernelProcess_eq_some hcreate
    refine h.of_eq ?_
    change created.2.processes p = _
    rw [hpm]
    exact ProcessManager.setProcess_processes_of_ne fun heq => hp.2 (heq ▸ hfree)

theorem createUserProcess (state : CpuState) :
    InHandler p context (logic.createUserProcess state) := by
  rw [LogicLayer.createUserProcess]
  split
  next id created hcreate =>
    obtain ⟨-, hfree, rfl⟩ := createChild_eq_some hcreate
    exact h.of_fresh hp hfree _
  next => exact h

theorem copyProcess (outcome : CopyOutcome) :
    InHandler p context (logic.copyProcess id outcome).2 := by
  obtain heq | ⟨childId, hlt, hfree, heq⟩ := copyProcess_eq logic id outcome
  · rw [heq]
    exact h
  · have hcreated : InHandler p context
        (logic.modify childId fun _ => logic.forkedRecord id childId).takeAddressSpace :=
      h.of_fresh hp hfree _
    rw [heq, finishCopy]
    split_ifs
    · exact hcreated.of_eq <| ProcessManager.modify_processes_of_ne fun heq => hp.2 (heq ▸ hfree)
    · exact hcreated.killProcess childId 0

theorem discardChild (hlt : id < maxProcesses) (hfree : logic.status id = .terminated)
    (process : Process) :
    InHandler p context ((logic.modify id fun _ => process).discardChild id) := by
  have hne : p ≠ id := fun heq => hp.2 (heq ▸ hfree)
  refine (h.of_fresh hp hfree process).of_eq ?_
  change ((logic.modify id fun _ => process).pm.killProcess id).processes p = _
  rw [ProcessManager.killProcess, if_pos hlt, ProcessManager.setProcess_processes_of_ne hne]

end

theorem beginVfork (parentId : ℕ) : InHandler p context (logic.beginVfork parentId id) := by
  have hflagged : InHandler p context
      ((logic.modify parentId (markVforkParent id)).modify id (markVforkChild parentId)) :=
    (h.modify rfl rfl).modify rfl rfl
  have hready : InHandler p context (((logic.modify parentId (markVforkParent id)).modify id
      (markVforkChild parentId)).addProcessToReadyQueue id) :=
    hflagged.of_keeps (.addProcessToReadyQueue ignoresScheduling_handlerContext)
      .addProcessToReadyQueue
  have hmarked : InHandler p context ((((logic.modify parentId (markVforkParent id)).modify id
      (markVforkChild parentId)).addProcessToReadyQueue id).modify parentId markKernelContext) :=
    hready.modify (markKernelContext_status _) (ignoresScheduling_handlerContext.kernelContext _)
  exact hmarked.of_keeps (.blockProcess ignoresScheduling_handlerContext) .blockProcess

theorem vforkFrom (hp : logic.Live p) (filesError : Option ℤ) (parentId : ℕ) :
    InHandler p context (logic.vforkFrom filesError parentId).2 := by
  rw [LogicLayer.vforkFrom]
  split_ifs
  · exact h
  · split
    · split
      next => exact h
      next childId created hcreate =>
        obtain ⟨hlt, hfree, rfl⟩ := createChild_eq_some hcreate
        cases filesError with
        | none => exact (h.of_fresh hp hfree _).beginVfork parentId
        | some error => exact h.discardChild hp hlt hfree _
    · exact h

theorem cloneVmFrom (hp : logic.Live p) (childStack : Option ℕ) (filesError : Option ℤ)
    (parentId : ℕ) : InHandler p context (logic.cloneVmFrom childStack filesError parentId).2 := by
  rw [LogicLayer.cloneVmFrom]
  split
  · split
    next => exact h
    next childId created hcreate =>
      obtain ⟨hlt, hfree, rfl⟩ := createChild_eq_some hcreate
      cases filesError with
      | none =>
        exact (h.of_fresh hp hfree _).of_keeps
          (.addProcessToReadyQueue ignoresScheduling_handlerContext) .addProcessToReadyQueue
      | some error => exact h.discardChild hp hlt hfree _
  · exact h

/-- The end of `RunProcess` runs for a process that is running. -/
theorem finishRunProcess (target current : ℕ) :
    InHandler p context (ProcessCall.run logic (.finishRunProcess target current)) := by
  have hset {logic : LogicLayer} (h : InHandler p context logic) {id : ℕ} {status : ProcessState}
      (hstatus : status ≠ .terminated) (hid : logic.status id ≠ .terminated) :
      InHandler p context (logic.setStatus id status) :=
    h.of_keeps (.setStatus ignoresScheduling_handlerContext status) (.setStatus hstatus hid)
  rw [ProcessCall.run]
  split_ifs with hcurrent
  · rw [LogicLayer.finishRunProcess]
    split_ifs with htarget
    · have hready : KeepsLife logic (logic.setStatus target .ready) :=
        .setStatus (by simp) (by simp [htarget])
      exact hset (hset h (by simp) (by simp [htarget])) (by simp)
        ((hready current).not.mpr (by simp [hcurrent]))
    · exact hset h (by simp) (by simp [hcurrent])
  · exact h

theorem withRunning {f : LogicLayer → ℕ → ℤ × LogicLayer}
    (hf : ∀ id, InHandler p context logic.trackRunning →
      InHandler p context (f logic.trackRunning id).2) :
    InHandler p context (logic.withRunning f).2 := by
  have htracked : InHandler p context logic.trackRunning :=
    h.of_eq (congrFun ProcessManager.getRunningProcess_processes p)
  rw [LogicLayer.withRunning]
  split
  · exact htracked
  · exact hf _ htracked

end

end InHandler

theorem Live.trackRunning (h : logic.Live p) : logic.trackRunning.Live p :=
  ⟨h.1, by rw [status_trackRunning]; exact h.2⟩

end LogicLayer

/-- A call other than a change of a record leaves a process in its handler, or kills it. A change of
the record is that of the handler, or of the kernel on its behalf, and leaves the context alone. -/
def ProcessCall.KeepsContext (p : ℕ) (logic : LogicLayer) : ProcessCall → Prop
  | changeRecord id f =>
    id = p → handlerContext (f (logic.processes p)) = handlerContext (logic.processes p)
  | _ => True

theorem LogicLayer.InHandler.run {logic : LogicLayer} {p : ℕ} {context : HandlerContext}
    (h : InHandler p context logic) (hcontext : context.1 = true) (hp : logic.Live p)
    {c : ProcessCall} (hc : c.KeepsContext p logic) : InHandler p context (c.run logic) := by
  have hg := ignoresScheduling_handlerContext
  cases c with
  | createKernelProcess state => exact h.createKernelProcess hp state
  | createUserProcess state => exact h.createUserProcess hp state
  | copyProcess id outcome => exact h.copyProcess hp outcome
  | vfork filesError => exact h.withRunning fun id h => h.vforkFrom hp.trackRunning filesError id
  | cloneVm childStack filesError =>
    exact h.withRunning fun id h => h.cloneVmFrom hp.trackRunning childStack filesError id
  | sleepProcess id waitTicks =>
    exact h.of_keeps (.sleepProcess hg waitTicks) (.sleepProcess waitTicks)
  | blockProcess id => exact h.of_keeps (.blockProcess hg) .blockProcess
  | blockProcessForTTYInput id =>
    exact h.of_keeps (.blockProcessForTTYInput hg) .blockProcessForTTYInput
  | wakeProcess id => exact h.of_keeps (.resumeBlocked hg) .resumeBlocked
  | unblockProcess id => exact h.of_keeps (.resumeBlocked hg) .resumeBlocked
  | notifyTTYInputAvailable =>
    exact h.of_keeps (.notifyTTYInputAvailable hg) .notifyTTYInputAvailable
  | signalProcess accessible id signal => exact h.signalProcess hcontext signal
  | addProcessToReadyQueue id =>
    exact h.of_keeps (.addProcessToReadyQueue hg) .addProcessToReadyQueue
  | killProcess id exitStatus => exact h.killProcess id exitStatus
  | tick accessible => exact h.tick hcontext
  | schedule => exact h.of_keeps (.schedule hg) .schedule
  | finishRunProcess target current => exact h.finishRunProcess target current
  | getRunningProcess => exact h.of_eq (congrFun ProcessManager.getRunningProcess_processes p)
  | changeRecord id f =>
    by_cases hid : id = p
    · subst hid
      exact h.modify rfl (hc rfl)
    · have hrecord : (logic.pm.modify id fun process =>
          { f process with status := process.status }).processes p = logic.processes p :=
        ProcessManager.modify_processes_of_ne fun hp => hid hp.symm
      exact h.of_eq hrecord
  | changeMemory memory => exact h

/-- The runs of a process in a handler: calls that do not kill it and leave the context of the
handler alone. -/
inductive HandlerRun (p : ℕ) (entered : LogicLayer) : LogicLayer → Prop
  | enter : HandlerRun p entered entered
  | call {logic : LogicLayer} (h : HandlerRun p entered logic) (c : ProcessCall)
    (hc : c.KeepsContext p logic) (hlive : (c.run logic).Live p) :
    HandlerRun p entered (c.run logic)

/-- What the return from a handler reads is kept during the handler. -/
theorem HandlerRun.context_eq {p : ℕ} {entered logic : LogicLayer} (h : HandlerRun p entered logic)
    (hlive : entered.Live p) (hentered : (entered.processes p).hasSavedSignalState = true) :
    logic.Live p ∧ handlerContext (logic.processes p) = handlerContext (entered.processes p) := by
  induction h with
  | enter => exact ⟨hlive, rfl⟩
  | call h c hc hafter ih =>
    obtain ⟨hbefore, hcontext⟩ := ih
    exact ⟨hafter, (LogicLayer.InHandler.run (.inr hcontext) hentered hbefore hc).resolve_left
      hafter.2⟩

namespace LogicLayer

variable {logic before entered after : LogicLayer} {accessible : UserAccess} {id p signal : ℕ}

/-- The interrupted program goes on as if there had been no handler: with its registers, the result
of the system call that it was in, its blocked mask and its memory from the red zone on. -/
structure Transparent (p space : ℕ) (result returned : ℤ) (before resumed : LogicLayer) : Prop where
  returnRegisters_eq :
    resumed.returnRegisters returned = some (resumedRegisters (before.processes p) result)
  blockedSignalMask_eq :
    (resumed.processes p).blockedSignalMask = (before.processes p).blockedSignalMask
  memory_eq : ∀ a, (interruptedRegisters (before.processes p)).rsp - 128 ≤ a →
    resumed.memory space a = before.memory space a

/-! ### The pending signals at the return -/

/-- A signal that neither kills its target nor starts a handler. -/
theorem applySignal_memory_current {effect : SignalEffect}
    (hterminate : ∀ coreDump, effect ≠ .terminate coreDump)
    (hhandle : ∀ action, effect ≠ .handle action) :
    (logic.applySignal id signal effect).memory = logic.memory ∧
      (logic.applySignal id signal effect).pm.currentProcessId = logic.pm.currentProcessId := by
  cases effect with
  | discard => exact ⟨rfl, rfl⟩
  | pend => exact ⟨rfl, rfl⟩
  | stop =>
    rw [applySignal, carryOut, stopProcess]
    split_ifs <;> exact ⟨rfl, rfl⟩
  | resume =>
    rw [applySignal, carryOut, continueProcess]
    split_ifs <;> exact ⟨rfl, rfl⟩
  | terminate coreDump => exact absurd rfl (hterminate coreDump)
  | handle action => exact absurd rfl (hhandle action)

/-- What the return to the user reads of a record. -/
def returnContext (process : Process) : UserRegisters × Bool × SignalMask :=
  (process.savedSystemCallFrame, process.hasSavedSystemCallFrame, process.blockedSignalMask)

theorem ignoresScheduling_returnContext : IgnoresScheduling returnContext where
  status _ _ := rfl
  kernelContext process := by
    rw [markKernelContext]
    split_ifs <;> rfl

/-- Where the dispatch of pending signals leaves a process: killed, in a handler, or with all that
its return to the user reads. -/
inductive Drained (start : LogicLayer) (id : ℕ) (now : LogicLayer) : Prop
  | killed (hstatus : now.status id = .terminated)
    (hpending : (now.processes id).pendingSignalMask = 0)
  | handled (hsaved : (now.processes id).hasSavedSignalState = true)
  | returns (hlive : now.Live id)
    (hcontext : returnContext (now.processes id) = returnContext (start.processes id))
    (hmemory : now.memory = start.memory)
    (hcurrent : now.pm.currentProcessId = start.pm.currentProcessId)

/-- One dispatch; one that kills the process or starts a handler is the last one. -/
theorem Drained.dispatch {start now dispatched : LogicLayer} (h : Drained start id now)
    (hdispatch : now.dispatchOnePendingUnblockedSignal accessible id = some dispatched) :
    Drained start id dispatched := by
  cases h with
  | killed hstatus hpending =>
    rw [dispatch_of_pending_zero hpending] at hdispatch
    exact absurd hdispatch (by simp)
  | handled hsaved =>
    rw [dispatchOnePendingUnblockedSignal, if_pos hsaved] at hdispatch
    exact absurd hdispatch (by simp)
  | returns hlive hcontext hmemory hcurrent =>
    obtain ⟨signal, -, -, rfl⟩ := dispatchOne_eq hlive hdispatch
    cases heffect : signalEffect accessible id (now.processes id) signal with
    | terminate coreDump =>
      have hkilled := @killProcess_processes_self (now.clearPending id signal) id hlive.1
        (signalWaitStatus signal coreDump)
      exact .killed (congrArg Process.status hkilled) (congrArg Process.pendingSignalMask hkilled)
    | handle action =>
      refine .handled ((congrArg Process.hasSavedSignalState
        (startHandler_processes_self action)).trans ?_)
      rw [wokenForHandler]
      split_ifs <;> rfl
    | discard | pend | stop | resume =>
      have hterminate : ∀ coreDump, signalEffect accessible id (now.processes id) signal ≠
          .terminate coreDump := by simp [heffect]
      have hhandle : ∀ action, signalEffect accessible id (now.processes id) signal ≠
          .handle action := by simp [heffect]
      rw [← heffect]
      obtain ⟨hmem, hcur⟩ := @applySignal_memory_current now id signal _ hterminate hhandle
      have hkeeps : Keeps returnContext now (now.applySignal id signal _) :=
        .applySignal_of_ne_handle ignoresScheduling_returnContext (fun _ _ => rfl) signal hterminate
          hhandle
      exact .returns ((KeepsLife.applySignal signal hterminate).live hlive)
        ((hkeeps id).trans hcontext) (hmem.trans hmemory) (hcur.trans hcurrent)

theorem drained_drainPendingSignals (hlive : logic.Live id) :
    Drained logic id (logic.drainPendingSignals accessible id) :=
  drainLoop_induction (fun _ _ h hdispatch => h.dispatch hdispatch) signalMax
    (.returns hlive rfl rfl rfl)

/-! ### The interrupted program goes on -/

theorem startHandler_memory (action : ProcessSignalAction) :
    (logic.startHandler id signal action).memory =
      update logic.memory ((logic.processes id).addressSpace.getD 0)
        ((logic.memory ((logic.processes id).addressSpace.getD 0)).store
          ((interruptedRegisters (logic.processes id)).rsp - 8) 8
          (signalReturnAddress action.restorer (interruptedRegisters (logic.processes id)).rip)) := by
  rw [startHandler, beginHandler, wakeForHandler]
  split_ifs <;> rfl

/-- The record and the memory of a process that has just entered a handler. -/
theorem entered_eq {action : ProcessSignalAction} {space : ℕ} (hlive : before.Live p)
    (hspace : (before.processes p).addressSpace = some space)
    (hsignal : before.signalProcess accessible p signal = some entered)
    (heffect : signalEffect accessible p (before.processes p) signal = .handle action) :
    entered.Live p ∧
      handlerContext (entered.processes p) = (true, interruptedRegisters (before.processes p),
        (before.processes p).blockedSignalMask, inSystemCall (before.processes p), .user,
        some space) ∧
      entered.memory space = (before.memory space).store
        ((interruptedRegisters (before.processes p)).rsp - 8) 8
        (signalReturnAddress action.restorer (interruptedRegisters (before.processes p)).rip) := by
  obtain ⟨-, hlevel, -, -⟩ := signalEffect_eq_handle heffect
  have hentered : entered = (before.clearPending p signal).startHandler p signal action := by
    rw [signalProcess_eq, heffect] at hsignal
    split_ifs at hsignal
    exact (Option.some.inj hsignal).symm
  have hrecord := @startHandler_processes_self (before.clearPending p signal) p signal action
  rw [clearPending_processes_self, ← hentered] at hrecord
  refine ⟨?_, ?_, ?_⟩
  · rw [hentered]
    have hlife : KeepsLife before (before.applySignal p signal (.handle action)) :=
      .applySignal signal (by simp)
    exact hlife.live hlive
  · rw [hrecord, wokenForHandler_eq ignoresScheduling_handlerContext fun _ => rfl]
    simp only [handlerContext, maskForHandler, enterHandler, withoutPending, hspace, hlevel]
    rfl
  · rw [hentered, startHandler_memory, clearPending_processes_self]
    rw [show (withoutPending signal (before.processes p)).addressSpace = some space from hspace]
    exact update_self ..

/-- `rt_sigreturn` after a handler, when it leaves the process alive and starts no other handler:
the result, and what the return to the user reads. -/
theorem handleRtSigreturn_eq {frame : UserRegisters} {mask : SignalMask} {wasSyscall : Bool}
    {space : ℕ} (hrunning : after.running = some p) (hlive : after.Live p)
    (hcontext : handlerContext (after.processes p) =
      (true, frame, mask, wasSyscall, .user, some space))
    (hresumed : (after.handleRtSigreturnSystemCall accessible).2.Live p)
    (hsaved : ((after.handleRtSigreturnSystemCall accessible).2.processes
      p).hasSavedSignalState = false) :
    (after.handleRtSigreturnSystemCall accessible).1 =
        (if wasSyscall then errEintr else (BitVec.ofNat 64 frame.rax).toInt) ∧
      returnContext ((after.handleRtSigreturnSystemCall accessible).2.processes p) =
        (frame, true, mask) ∧
      (after.handleRtSigreturnSystemCall accessible).2.memory = after.memory ∧
      (after.handleRtSigreturnSystemCall accessible).2.pm.currentProcessId = p := by
  obtain ⟨hin, hframe, hmask, hsyscall, hlevel, -⟩ : (after.processes p).hasSavedSignalState = true ∧
      (after.processes p).savedSignalFrame = frame ∧ (after.processes p).savedSignalMask = mask ∧
      (after.processes p).savedSignalWasSyscall = wasSyscall ∧ (after.processes p).level = .user ∧
      (after.processes p).addressSpace = some space := by
    simpa only [handlerContext, Prod.mk.injEq] using hcontext
  have hprocess : after.trackRunning.processes p = after.processes p :=
    congrFun ProcessManager.getRunningProcess_processes p
  have hleft : (after.trackRunning.modify p leaveHandler).processes p =
      leaveHandler (after.processes p) := by
    rw [← hprocess]
    exact ProcessManager.modify_processes_self
  have hreturn : returnContext ((after.trackRunning.modify p leaveHandler).processes p) =
      (frame, true, mask) := by
    rw [hleft, ← hframe, ← hmask]
    rfl
  have hcurrent : (after.trackRunning.modify p leaveHandler).pm.currentProcessId = p :=
    (ProcessManager.getRunningProcess_eq_some hrunning).2.2
  have hcall : after.handleRtSigreturnSystemCall accessible =
      if wasSyscall then
        (errEintr, (after.trackRunning.modify p leaveHandler).drainPendingSignals accessible p)
      else ((BitVec.ofNat 64 frame.rax).toInt, after.trackRunning.modify p leaveHandler) := by
    rw [handleRtSigreturnSystemCall, withRunningUser, hrunning]
    dsimp only
    rw [if_pos hlevel, sigreturnFrom, hprocess, if_pos hin, hframe, hsyscall]
  rw [hcall] at hresumed hsaved ⊢
  cases wasSyscall with
  | false => exact ⟨rfl, hreturn, rfl, hcurrent⟩
  | true =>
    have hleftLive : (after.trackRunning.modify p leaveHandler).Live p := by
      refine ⟨hlive.1, ?_⟩
      rw [status, hleft]
      exact hlive.2
    cases @drained_drainPendingSignals _ accessible _ hleftLive with
    | killed hstatus _ => exact absurd hstatus hresumed.2
    | handled hhandled => exact absurd (hsaved.symm.trans hhandled) (by simp)
    | returns _ hcontext hmemory hdrained =>
      exact ⟨rfl, hcontext.trans hreturn, hmemory, hdrained.trans hcurrent⟩

theorem resultRegister_toInt {value : ℕ} (h : value < 2 ^ 64) :
    resultRegister (BitVec.ofNat 64 value).toInt = value := by
  have htoNat : (BitVec.ofNat 64 value).toNat = value := by
    rw [BitVec.toNat_ofNat, Nat.mod_eq_of_lt h]
  rw [resultRegister, BitVec.toInt_eq_toNat_cond, htoNat]
  split_ifs <;> omega

/-- The registers at the return agree with those of the interruption exactly when the result of the
interrupted system call, if there was one, is that of `rt_sigreturn`. -/
theorem returnRegisters_eq_iff {process : Process} {result : ℤ}
    (hrax : (interruptedRegisters process).rax < 2 ^ 64) :
    ({ interruptedRegisters process with
        rax := resultRegister (if inSystemCall process then errEintr
          else (BitVec.ofNat 64 (interruptedRegisters process).rax).toInt) } : UserRegisters) =
        resumedRegisters process result ↔
      (inSystemCall process → resultRegister result = resultRegister errEintr) := by
  rw [resumedRegisters]
  cases hin : inSystemCall process with
  | false =>
    have hregisters : interruptedRegisters process = process.state.toUserRegisters :=
      if_neg (ne_true_of_eq_false hin)
    rw [hregisters] at hrax ⊢
    simp only [Bool.false_eq_true, if_false, resultRegister_toInt hrax, false_imp_iff]
  | true =>
    have hregisters : interruptedRegisters process = process.savedSystemCallFrame := if_pos hin
    simp [hregisters, eq_comm]

/-- The handler of a signal is transparent to the program that it interrupts exactly when the
interrupted system call completes with `EINTR`, the return address of the handler was in memory
already where it is pushed, and the handler leaves the red zone alone. -/
theorem transparent_iff {action : ProcessSignalAction} {space : ℕ} {result : ℤ}
    {accessible' : UserAccess} (hlive : before.Live p)
    (hspace : (before.processes p).addressSpace = some space)
    (hrax : (interruptedRegisters (before.processes p)).rax < 2 ^ 64)
    (hsignal : before.signalProcess accessible p signal = some entered)
    (heffect : signalEffect accessible p (before.processes p) signal = .handle action)
    (hrun : HandlerRun p entered after)
    (hmemory : ∀ a, (interruptedRegisters (before.processes p)).rsp - 8 ≤ a →
      after.memory space a = entered.memory space a)
    (hrunning : after.running = some p)
    (hresumed : (after.handleRtSigreturnSystemCall accessible').2.Live p)
    (hsaved : ((after.handleRtSigreturnSystemCall accessible').2.processes
      p).hasSavedSignalState = false) :
    Transparent p space result (after.handleRtSigreturnSystemCall accessible').1 before
        (after.handleRtSigreturnSystemCall accessible').2 ↔
      (inSystemCall (before.processes p) → resultRegister result = resultRegister errEintr) ∧
      (before.memory space).store ((interruptedRegisters (before.processes p)).rsp - 8) 8
          (signalReturnAddress action.restorer (interruptedRegisters (before.processes p)).rip) =
        before.memory space ∧
      ∀ a, (interruptedRegisters (before.processes p)).rsp - 128 ≤ a →
        a < (interruptedRegisters (before.processes p)).rsp - 8 →
          after.memory space a = before.memory space a := by
  obtain ⟨henteredLive, hentered, hpushed⟩ := entered_eq hlive hspace hsignal heffect
  obtain ⟨hafterLive, hcontext⟩ := hrun.context_eq henteredLive (congrArg (·.1) hentered)
  obtain ⟨hreturned, hreturn, hkept, hcurrent⟩ :=
    handleRtSigreturn_eq hrunning hafterLive (hcontext.trans hentered) hresumed hsaved
  obtain ⟨-, -, -, -, hcan⟩ := signalEffect_eq_handle heffect
  have hrsp : 8 ≤ (interruptedRegisters (before.processes p)).rsp := by
    simp only [canEnterHandler, Bool.and_eq_true, decide_eq_true_eq] at hcan
    exact hcan.1.2
  set resumed := (after.handleRtSigreturnSystemCall accessible').2
  obtain ⟨hframe, hhasFrame, hmask⟩ : (resumed.processes p).savedSystemCallFrame =
      interruptedRegisters (before.processes p) ∧
      (resumed.processes p).hasSavedSystemCallFrame = true ∧
      (resumed.processes p).blockedSignalMask = (before.processes p).blockedSignalMask := by
    simpa only [returnContext, Prod.mk.injEq] using hreturn
  -- The registers.
  have hregisters : resumed.returnRegisters (after.handleRtSigreturnSystemCall accessible').1 =
        some (resumedRegisters (before.processes p) result) ↔
      (inSystemCall (before.processes p) → resultRegister result = resultRegister errEintr) := by
    have htracked : resumed.pm.getCurrentProcess = some p := by
      rw [ProcessManager.getCurrentProcess, hcurrent]
      exact if_pos hresumed
    rw [returnRegisters, htracked]
    dsimp only
    rw [if_pos hhasFrame, hframe, hreturned, Option.some_inj]
    exact returnRegisters_eq_iff hrax
  -- The memory: below the pushed address it is up to the handler, from there on it is kept.
  rw [← hpushed]
  constructor
  · rintro ⟨hregs, -, hall⟩
    refine ⟨hregisters.mp hregs, funext fun a => ?_, fun a hlow _ => ?_⟩
    · by_cases ha : (interruptedRegisters (before.processes p)).rsp - 8 ≤ a
      · rw [← hmemory a ha, ← hkept]
        exact hall a (by omega)
      · rw [hpushed]
        exact ByteMemory.store_apply_of_notMem (.inl (by omega))
    · rw [← hkept]
      exact hall a hlow
  · rintro ⟨hresult, hstored, hlow⟩
    refine ⟨hregisters.mpr hresult, hmask, fun a ha => ?_⟩
    rw [hkept]
    by_cases hpush : (interruptedRegisters (before.processes p)).rsp - 8 ≤ a
    · rw [hmemory a hpush, hstored]
    · exact hlow a ha (by omega)

/-! ### Concrete handlers -/

/-- Process 1 runs with a handler at address 4096 for signal 10; `inside` tells whether it is in a
system call. -/
def withHandler (inside : Bool) : LogicLayer :=
  ProcessCall.runAll [.createUserProcess {}, .createUserProcess {}, .schedule, .schedule,
    .changeRecord 1 fun process =>
      { process with
        signalActions := some fun _ => { handler := 4096 }
        waitingForSystemCallReturn := inside
        hasSavedSystemCallFrame := inside
        savedSystemCallFrame := { rsp := 8192 }
        state := { process.state with rsp := 8192 } }]

/-- The state after signal 10 was sent to process 1. -/
def handlerEntered (inside : Bool) : LogicLayer :=
  ((withHandler inside).signalProcess (fun _ _ _ => true) 1 10).getD {}

/-- The result of a system call that completes with `0` becomes `EINTR` when a handler runs. -/
theorem not_transparent_of_handler :
    ¬ ∀ (before entered after : LogicLayer) (p space signal : ℕ) (accessible : UserAccess)
      (action : ProcessSignalAction) (result : ℤ), before.Live p →
      (before.processes p).addressSpace = some space →
      before.signalProcess accessible p signal = some entered →
      signalEffect accessible p (before.processes p) signal = .handle action →
      HandlerRun p entered after → (∀ a, (interruptedRegisters (before.processes p)).rsp - 8 ≤ a →
        after.memory space a = entered.memory space a) → after.running = some p →
      (after.handleRtSigreturnSystemCall accessible).2.Live p →
      ((after.handleRtSigreturnSystemCall accessible).2.processes p).hasSavedSignalState = false →
        Transparent p space result (after.handleRtSigreturnSystemCall accessible).1 before
          (after.handleRtSigreturnSystemCall accessible).2 := by
  intro h
  have htransparent := h (withHandler true) (handlerEntered true) (handlerEntered true) 1 1 10
    (fun _ _ _ => true) { handler := 4096 } 0 (by decide +kernel) (by decide +kernel) rfl rfl .enter
    (fun _ _ => rfl) (by decide +kernel) (by decide +kernel) (by decide +kernel)
  have hregisters := htransparent.returnRegisters_eq
  exact absurd hregisters (by decide +kernel)

theorem withHandler_memory (inside : Bool) : (withHandler inside).memory = fun _ _ => 0 := rfl

/-- A handler that interrupts a system call which completes with `EINTR`, on a stack that holds the
return address already. -/
theorem transparent_iff_interrupted :
    Transparent 1 1 errEintr
      ((handlerEntered true).handleRtSigreturnSystemCall fun _ _ _ => true).1 (withHandler true)
      ((handlerEntered true).handleRtSigreturnSystemCall fun _ _ _ => true).2 := by
  have hsignal : (withHandler true).signalProcess (fun _ _ _ => true) 1 10 =
      some (handlerEntered true) := rfl
  have heffect : signalEffect (fun _ _ _ => true) 1 ((withHandler true).processes 1) 10 =
      .handle { handler := 4096 } := rfl
  have hregisters : interruptedRegisters ((withHandler true).processes 1) = { rsp := 8192 } := by
    decide +kernel
  have hstored : ByteMemory.store ((withHandler true).memory 1) 8184 8 0 =
      (withHandler true).memory 1 := by
    rw [withHandler_memory]
    simp [ByteMemory.store]
  have hlive : (withHandler true).Live 1 := by decide +kernel
  have hspace : ((withHandler true).processes 1).addressSpace = some 1 := by decide +kernel
  have hmemory : (handlerEntered true).memory 1 = (withHandler true).memory 1 := by
    refine (entered_eq hlive hspace hsignal heffect).2.2.trans ?_
    rw [hregisters]
    exact hstored
  have hiff := @transparent_iff (withHandler true) (handlerEntered true) (handlerEntered true)
    (fun _ _ _ => true) 1 10 { handler := 4096 } 1 errEintr (fun _ _ _ => true) hlive hspace
    (by decide +kernel) hsignal heffect .enter (fun _ _ => rfl) (by decide +kernel)
    (by decide +kernel) (by decide +kernel)
  rw [hregisters] at hiff
  exact hiff.mpr ⟨fun _ => rfl, hstored, fun a _ _ => congrFun hmemory a⟩

end LogicLayer

end TwistedOS
