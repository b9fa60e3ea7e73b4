import TwistedOS.Logic.ProcessQueues

/-!
# The process operations of the logic layer

`LogicLayer` combines the process table, the scheduler and the wait queues. Its operations run,
block, wake, signal and kill processes; each updates the status of a process and the queues it
appears in.

Whether a user address is accessible is decided by the page tables and the memory records of the
process, which are not part of this state: the operations that deliver signals take the answers as
a parameter. A switch of the processor to another process is modelled by what `RunProcess` changes
before the switch; what it changes after the process it left is resumed is `finishRunProcess`.

## Main definitions

* `LogicLayer`, with `killProcess`, `signalProcess`, `runProcess`, `schedule`, `sleepProcess`,
  `wakeProcess`, `blockProcess`, `unblockProcess`, `blockProcessForTTYInput`,
  `notifyTTYInputAvailable`, `addProcessToReadyQueue`, `tick` and `copyProcess`.
* `LogicLayer.setProcessSignalState` — the entry of a signal handler.
-/

namespace TwistedOS

/-- The state of the logic layer. The bytes of user memory are those of each address space;
`releasedAddressSpaces` lists the deleted address spaces, the last one first. -/
structure LogicLayer where
  pm : ProcessManager := .new
  sched : Scheduler := {}
  sync : SynchronizationManager := {}
  memory : ℕ → ByteMemory := fun _ _ => 0
  nextAddressSpace : ℕ := 0
  releasedAddressSpaces : List ℕ := []

/-- The answers of `IsUserAddressRangeAccessible` for a process, an address and a byte count. -/
abbrev UserAccess := ℕ → ℕ → ℕ → Bool

namespace ProcessManager

variable (pm : ProcessManager) {id other : ℕ}

/-- Applies a function to the record of a slot. -/
def modify (id : ℕ) (f : Process → Process) : ProcessManager :=
  pm.setProcess id (f (pm.processes id))

/-- Sets the status of a slot. -/
def setStatus (id : ℕ) (status : ProcessState) : ProcessManager :=
  pm.modify id fun process => { process with status := status }

variable {pm}

@[simp] theorem modify_processes_self {f : Process → Process} :
    (pm.modify id f).processes id = f (pm.processes id) :=
  setProcess_processes_self

theorem modify_processes_of_ne {f : Process → Process} (h : other ≠ id) :
    (pm.modify id f).processes other = pm.processes other :=
  setProcess_processes_of_ne h

end ProcessManager

/-! ### Signals -/

/-- `LINUX_SIGNAL_SIGKILL`. -/
def sigkill : ℕ := 9

/-- `LINUX_SIGNAL_SIGALRM`. -/
def sigalrm : ℕ := 14

/-- `LINUX_SIGNAL_SIGCONT`. -/
def sigcont : ℕ := 18

/-- `LINUX_SIGNAL_SIGSTOP`. -/
def sigstop : ℕ := 19

/-- `LINUX_SIGNAL_MAX`. -/
def signalMax : ℕ := 64

/-- `LINUX_SIG_DFL`. -/
def sigDfl : ℕ := 0

/-- `LINUX_SIG_IGN`. -/
def sigIgn : ℕ := 1

/-- The bit of a signal in a mask. -/
def signalMaskBit (signal : ℕ) : SignalMask := 1 <<< (signal - 1)

/-- `LINUX_UNBLOCKABLE_SIGNAL_MASK`. -/
def unblockableSignalMask : SignalMask := signalMaskBit sigkill ||| signalMaskBit sigstop

/-- `LinuxDefaultSignalAction`. -/
inductive DefaultSignalAction where
  | ignore
  | terminate
  | terminateCore
  | stop
  | continue
  deriving DecidableEq, Repr

/-- `GetLinuxDefaultSignalAction`. -/
def getDefaultSignalAction (signal : ℕ) : DefaultSignalAction :=
  if signal ∈ [17, 23, 28] then .ignore
  else if signal ∈ [19, 20, 21, 22] then .stop
  else if signal = sigcont then .continue
  else if signal ∈ [3, 4, 5, 6, 8, 11, 7, 24, 25, 31] then .terminateCore
  else .terminate

/-- `IsLowerCanonicalUserAddress`. -/
def isLowerCanonicalUserAddress (address : ℕ) : Bool := address ≤ 0x00007FFFFFFFFFFF

namespace LogicLayer

variable (logic : LogicLayer)

/-- The record of a slot. -/
abbrev processes (id : ℕ) : Process := logic.pm.processes id

/-- The status of a slot. -/
abbrev status (id : ℕ) : ProcessState := (logic.processes id).status

/-- A slot that holds a process. -/
def Live (id : ℕ) : Prop := id < maxProcesses ∧ logic.status id ≠ .terminated

instance (id : ℕ) : Decidable (logic.Live id) := inferInstanceAs (Decidable (_ ∧ _))

/-- Applies a function to the record of a slot. -/
def modify (id : ℕ) (f : Process → Process) : LogicLayer :=
  { logic with pm := logic.pm.modify id f }

/-- Sets the status of a slot. -/
def setStatus (id : ℕ) (status : ProcessState) : LogicLayer :=
  { logic with pm := logic.pm.setStatus id status }

/-- Removes the entries of a process from the sleep queue and the terminal queue. -/
def removeWaits (id : ℕ) : LogicLayer :=
  { logic with sync := (logic.sync.removeFromSleepQueue id).removeFromTTYInputWaitQueue id }

/-- `Sched->AddToReadyQueue`. -/
def pushReady (id : ℕ) : LogicLayer :=
  { logic with sched := logic.sched.addToReadyQueue id }

/-- `Sched->RemoveFromReadyQueue`. -/
def dropReady (id : ℕ) : LogicLayer :=
  { logic with sched := logic.sched.removeFromReadyQueue id }

/-! ### Switching, blocking and waking -/

/-- The process becomes the running and the tracked one. -/
def switchTo (id : ℕ) : LogicLayer :=
  { logic with pm := { logic.pm.setStatus id .running with currentProcessId := id } }

/-- A process that was running stays ready when another one is run. -/
def yieldProcess (current : ℕ) : LogicLayer :=
  { logic with
    pm := if logic.status current = .running then logic.pm.setStatus current .ready
      else logic.pm }

/-- `RunProcess`, up to the switch of the processor. -/
def runProcess (id : ℕ) : LogicLayer :=
  if logic.Live id then
    match logic.pm.getCurrentProcess with
    | none => logic.switchTo id
    | some current =>
      if current = id then logic
      else (logic.yieldProcess current).switchTo id
  else logic

/-- The end of `RunProcess`, which runs when a process `current` that was switched away from in
favour of `target` is resumed. -/
def finishRunProcess (target current : ℕ) : LogicLayer :=
  let logic := if logic.status target = .running then logic.setStatus target .ready else logic
  logic.setStatus current .running

/-- `Schedule`. -/
def schedule : LogicLayer :=
  match logic.sched.selectNextProcess with
  | (none, sched) => { logic with sched := sched }
  | (some id, sched) => { logic with sched := sched }.runProcess id

/-- The segments of a process that blocks inside a system call become those of the kernel. -/
def markKernelContext (process : Process) : Process :=
  if process.waitingForSystemCallReturn ∧ process.hasSavedSystemCallFrame then
    { process with state := { process.state with cs := kernelCs, ss := kernelSs } }
  else process

/-- A running process leaves the ready queue and becomes blocked. -/
def suspend (id : ℕ) : LogicLayer :=
  (logic.modify id fun process =>
    { markKernelContext process with status := .blocked }).dropReady id

/-- `SleepProcess`. -/
def sleepProcess (id waitTicks : ℕ) : LogicLayer :=
  if id < maxProcesses ∧ logic.status id = .running then
    { logic.suspend id with sync := logic.sync.addToSleepQueue id waitTicks }.schedule
  else logic

/-- `BlockProcessForTTYInput`. -/
def blockProcessForTTYInput (id : ℕ) : LogicLayer :=
  if id < maxProcesses ∧ logic.status id = .running then
    { logic.suspend id with sync := logic.sync.addToTTYInputWaitQueue id }.schedule
  else logic

/-- `BlockProcess`. -/
def blockProcess (id : ℕ) : LogicLayer :=
  if id < maxProcesses ∧ logic.status id = .running then (logic.suspend id).schedule else logic

/-- The steps that `WakeProcess` and `UnblockProcess` share: a blocked process leaves the sleep
queue and becomes ready. -/
def resumeBlocked (id : ℕ) : LogicLayer :=
  if id < maxProcesses ∧ logic.status id = .blocked then
    { logic.setStatus id .ready with sync := logic.sync.removeFromSleepQueue id }.pushReady id
  else logic

/-- `WakeProcess`. -/
def wakeProcess (id : ℕ) : LogicLayer := logic.resumeBlocked id

/-- `UnblockProcess`. -/
def unblockProcess (id : ℕ) : LogicLayer := logic.resumeBlocked id

/-- `NotifyTTYInputAvailable`. -/
def notifyTTYInputAvailable : LogicLayer :=
  match logic.sync.getNextTTYInputWaiter with
  | none => logic
  | some id =>
    { logic with sync := logic.sync.removeFromTTYInputWaitQueue id }.unblockProcess id

/-- `LogicLayer::AddProcessToReadyQueue`. -/
def addProcessToReadyQueue (id : ℕ) : LogicLayer :=
  if logic.Live id then
    (if logic.status id = .blocked then logic.setStatus id .ready else logic).pushReady id
  else logic

/-! ### Killing -/

/-- Whether `KillProcess` leaves the address space alone, as that of a vfork parent. -/
def skipAddressSpaceCleanup (process : Process) : Prop :=
  process.isVforkChild ∧ process.vforkParentId < maxProcesses ∧
    (logic.processes process.vforkParentId).addressSpace = process.addressSpace

instance (process : Process) : Decidable (logic.skipAddressSpaceCleanup process) :=
  inferInstanceAs (Decidable (_ ∧ _))

/-- The address space that `KillProcess` deletes. -/
def deletedAddressSpace (id : ℕ) : Option ℕ :=
  let process := logic.processes id
  if id < maxProcesses ∧ process.level = .user ∧ ¬logic.skipAddressSpaceCleanup process then
    process.addressSpace
  else none

/-- The record of a parent to which the exit of a child was reported. -/
def recordChildExit (id exitStatus : ℕ) (parent : Process) : Process :=
  { parent with
    hasPendingChildExit := true
    pendingChildId := id
    pendingChildStatus := exitStatus }

/-- The record of a parent that no longer waits for a child. -/
def stopWaitingForChild (parent : Process) : Process :=
  { parent with waitingForChild := false }

/-- The report of an exit to the parent at the end of `KillProcess`. -/
def reportChildExit (parentId id exitStatus : ℕ) : LogicLayer :=
  if logic.Live parentId then
    if (logic.processes parentId).waitingForChild then
      ((logic.modify parentId (recordChildExit id exitStatus)).modify parentId
        stopWaitingForChild).unblockProcess parentId
    else logic.modify parentId (recordChildExit id exitStatus)
  else logic

/-- The middle of `KillProcess`: the record of the process becomes a free slot, and its address
space is deleted. -/
def freeRecord (id : ℕ) : LogicLayer :=
  { logic with
    pm := logic.pm.getRunningProcess.2.killProcess id
    releasedAddressSpaces := (logic.deletedAddressSpace id).toList ++ logic.releasedAddressSpaces }

/-- The parent of a process, `PROCESS_ID_INVALID` for an id without a record. -/
def parentOf (id : ℕ) : ℕ :=
  if id < maxProcesses then (logic.processes id).parrentId else processIdInvalid

/-- `LogicLayer::KillProcess`. -/
def killProcess (id exitStatus : ℕ) : LogicLayer :=
  (((logic.freeRecord id).dropReady id).removeWaits id).reportChildExit (logic.parentOf id) id
    exitStatus

/-! ### Signal delivery -/

/-- The registers with which a process entered the kernel: the system-call frame while the process
is inside a system call, the captured state otherwise. -/
def interruptedRegisters (process : Process) : UserRegisters :=
  if process.waitingForSystemCallReturn && process.hasSavedSystemCallFrame then
    process.savedSystemCallFrame
  else process.state.toUserRegisters

/-- The registers that start the handler of a signal. -/
def handlerRegisters (registers : UserRegisters) (signal handler : ℕ) : UserRegisters :=
  { registers with
    rip := handler
    rsp := registers.rsp - 8
    rdi := signal
    rsi := 0
    rdx := 0 }

/-- Whether `SetProcessSignalState` accepts the handler and the interrupted registers. -/
def canEnterHandler (accessible : UserAccess) (id : ℕ) (registers : UserRegisters)
    (handler : ℕ) : Bool :=
  isLowerCanonicalUserAddress handler && accessible id handler 1 &&
    isLowerCanonicalUserAddress registers.rip && accessible id registers.rip 1 &&
    isLowerCanonicalUserAddress registers.rsp && decide (8 ≤ registers.rsp) &&
    accessible id (registers.rsp - 8) 8

/-- The record of a process that enters the handler of a signal: the interrupted registers are
saved, and those of the handler take their place. -/
def enterHandler (signal handler : ℕ) (process : Process) : Process :=
  let wasSyscall := process.waitingForSystemCallReturn && process.hasSavedSystemCallFrame
  let registers := interruptedRegisters process
  let entered := handlerRegisters registers signal handler
  { process with
    savedSignalRip := registers.rip
    savedSignalRsp := registers.rsp
    savedSignalWasSyscall := wasSyscall
    hasSavedSignalState := true
    savedSignalFrame := registers
    savedSystemCallFrame := if wasSyscall then entered else process.savedSystemCallFrame
    state := if wasSyscall then process.state
      else { process.state with toUserRegisters := entered } }

/-- The user memory after a value was pushed at an address of an address space. -/
def storeQword (space address value : ℕ) : LogicLayer :=
  { logic with
    memory := Function.update logic.memory space ((logic.memory space).store address 8 value) }

/-- The return address that a handler finds on its stack. -/
def signalReturnAddress (restorer rip : ℕ) : ℕ := if restorer ≠ 0 then restorer else rip

/-- `SetProcessSignalState`: saves the interrupted registers, pushes the return address below the
user stack pointer and sets up the registers of the handler. It fails when an address is not
accessible. -/
def setProcessSignalState (accessible : UserAccess) (id signal handler restorer : ℕ) :
    Option LogicLayer :=
  let process := logic.processes id
  let registers := interruptedRegisters process
  match process.addressSpace with
  | none => none
  | some space =>
    if canEnterHandler accessible id registers handler then
      some ((logic.storeQword space (registers.rsp - 8)
        (signalReturnAddress restorer registers.rip)).modify id (enterHandler signal handler))
    else none

/-- `StopProcess` in `SignalProcess`. -/
def stopProcess (id : ℕ) : LogicLayer :=
  if logic.status id = .running ∨ logic.status id = .ready then
    ((logic.setStatus id .blocked).dropReady id).removeWaits id
  else logic

/-- `ContinueProcess` in `SignalProcess`. -/
def continueProcess (id : ℕ) : LogicLayer :=
  if logic.status id = .blocked then
    ((logic.removeWaits id).setStatus id .ready).pushReady id
  else logic

/-- The wait status of a process that a signal terminated. -/
def signalWaitStatus (signal : ℕ) (coreDump : Bool) : ℕ :=
  if coreDump then signal % 128 ||| 0x80 else signal % 128

/-- The default action of a signal. -/
def applyDefaultAction (id signal : ℕ) : LogicLayer :=
  match getDefaultSignalAction signal with
  | .ignore => logic
  | .stop => logic.stopProcess id
  | .continue => logic.continueProcess id
  | .terminateCore => logic.killProcess id (signalWaitStatus signal true)
  | .terminate => logic.killProcess id (signalWaitStatus signal false)

/-- The mask of a handler becomes effective, and the mask before it is saved. -/
def maskForHandler (signal : ℕ) (actionMask : SignalMask) (process : Process) : Process :=
  { process with
    savedSignalMask := process.blockedSignalMask
    blockedSignalMask := (process.blockedSignalMask ||| signalMaskBit signal ||| actionMask) &&&
      ~~~unblockableSignalMask }

/-- The record of a process whose system call a signal interrupts. -/
def markInterrupted (process : Process) : Process :=
  { process with interruptedBySignal := true }

/-- A blocked process becomes ready to run the handler it has entered. -/
def wakeForHandler (id : ℕ) : LogicLayer :=
  if logic.status id = .blocked then
    (((logic.modify id markInterrupted).removeWaits id).setStatus id .ready).pushReady id
  else logic

/-- The end of `SignalProcess`, when the process has entered the handler. -/
def beginHandler (id signal : ℕ) (actionMask : SignalMask) : LogicLayer :=
  (logic.modify id (maskForHandler signal actionMask)).wakeForHandler id

/-- The record without the pending bit of a signal. -/
def withoutPending (signal : ℕ) (process : Process) : Process :=
  { process with pendingSignalMask := process.pendingSignalMask &&& ~~~signalMaskBit signal }

/-- The record with the pending bit of a signal. -/
def withPending (signal : ℕ) (process : Process) : Process :=
  { process with pendingSignalMask := process.pendingSignalMask ||| signalMaskBit signal }

/-- Clears the pending bit of a signal. -/
def clearPending (id signal : ℕ) : LogicLayer := logic.modify id (withoutPending signal)

/-- Sets the pending bit of a signal. -/
def setPending (id signal : ℕ) : LogicLayer := logic.modify id (withPending signal)

/-- A signal that is not blocked and for which the process has a table of actions: it is ignored,
handled by default or by the handler of the process, or left pending while another handler runs. -/
def runSignalAction (accessible : UserAccess) (id signal : ℕ) (action : ProcessSignalAction) :
    LogicLayer :=
  if action.handler = sigIgn then logic
  else if action.handler = sigDfl then logic.applyDefaultAction id signal
  else if (logic.processes id).hasSavedSignalState then logic.setPending id signal
  else
    match logic.setProcessSignalState accessible id signal action.handler action.restorer with
    | none => logic.killProcess id (signalWaitStatus signal false)
    | some entered => entered.beginHandler id signal action.mask

/-- A signal that is not blocked, after its pending bit was cleared. -/
def deliverSignal (accessible : UserAccess) (id signal : ℕ) : LogicLayer :=
  match (logic.processes id).signalActions with
  | none => logic.applyDefaultAction id signal
  | some actions =>
    if (logic.processes id).level = .user ∧ (logic.processes id).addressSpace.isSome then
      logic.runSignalAction accessible id signal (actions (signal - 1))
    else logic.applyDefaultAction id signal

/-- `SignalProcess`: `none` when it returns false, which leaves the state as it was. -/
def signalProcess (accessible : UserAccess) (id signal : ℕ) : Option LogicLayer :=
  if 1 ≤ signal ∧ signal ≤ signalMax ∧ logic.Live id then
    some <|
      if signal = sigkill then
        (logic.clearPending id signal).killProcess id (signalWaitStatus signal false)
      else if signal = sigstop then (logic.clearPending id signal).stopProcess id
      else if signal = sigcont then (logic.clearPending id signal).continueProcess id
      else if (logic.processes id).blockedSignalMask &&& signalMaskBit signal ≠ 0 then
        logic.setPending id signal
      else (logic.clearPending id signal).deliverSignal accessible id signal
  else none

/-! ### Ticks -/

/-- The interval timer of a process starts again. -/
def reloadIntervalTimer (process : Process) : Process :=
  if process.realIntervalTimerIntervalTicks ≠ 0 then
    { process with realIntervalTimerRemainingTicks := process.realIntervalTimerIntervalTicks }
  else process

/-- The interval timer of a process loses a tick. -/
def decrementIntervalTimer (process : Process) : Process :=
  { process with realIntervalTimerRemainingTicks := process.realIntervalTimerRemainingTicks - 1 }

/-- The interval timer of a process has run out: the process is signalled, and the timer starts
again. -/
def fireIntervalTimer (accessible : UserAccess) (id : ℕ) : LogicLayer :=
  ((logic.signalProcess accessible id sigalrm).getD logic).modify id reloadIntervalTimer

/-- The interval timer of one process in `LogicLayer::Tick`. -/
def tickIntervalTimer (accessible : UserAccess) (id : ℕ) : LogicLayer :=
  if logic.status id = .terminated ∨ (logic.processes id).realIntervalTimerRemainingTicks = 0 then
    logic
  else if (logic.processes id).realIntervalTimerRemainingTicks = 1 then
    (logic.modify id decrementIntervalTimer).fireIntervalTimer accessible id
  else logic.modify id decrementIntervalTimer

/-- The interval timers of all processes, by increasing id. -/
def tickIntervalTimers (accessible : UserAccess) : LogicLayer :=
  (List.range maxProcesses).foldl (fun logic id => logic.tickIntervalTimer accessible id) logic

/-- The sleeping processes in `LogicLayer::Tick`: every remaining time decreases, and the first
process whose time is over is woken. -/
def tickSleepers : LogicLayer :=
  let ticked : LogicLayer := { logic with sync := logic.sync.tick }
  match ticked.sync.getNextProcessToWake with
  | some id => ticked.wakeProcess id
  | none => ticked

/-- `LogicLayer::Tick`. -/
def tick (accessible : UserAccess) : LogicLayer :=
  (logic.tickIntervalTimers accessible).tickSleepers

/-! ### Creation -/

/-- `CreateKernelProcess`. -/
def createKernelProcess (state : CpuState) : LogicLayer :=
  match logic.pm.createKernelProcess state with
  | some (id, pm) => { logic with pm := pm }.pushReady id
  | none => logic

/-- A user process is created in the first free slot, and `f` is applied to its record. -/
def createChild (state : CpuState) (addressSpace : ℕ) (f : Process → Process) :
    Option (ℕ × LogicLayer) :=
  (logic.pm.createUserProcess state addressSpace).map fun created =>
    (created.1, { logic with pm := created.2.modify created.1 f })

/-- A new address space object is in use. -/
def takeAddressSpace : LogicLayer :=
  { logic with nextAddressSpace := logic.nextAddressSpace + 1 }

/-- The creation of a user process with a new address space, up to the end of
`CreateUserProcess`. -/
def createUserProcess (state : CpuState) : LogicLayer :=
  match logic.createChild state logic.nextAddressSpace fun process => process with
  | some (id, created) => created.takeAddressSpace.pushReady id
  | none => logic

/-- How far `CopyProcess` gets: it fails before it creates the child, while it builds the child's
memory records, files or event queues, or not at all. -/
inductive CopyOutcome where
  | failsBeforeCreation
  | failsAfterCreation
  | succeeds
  deriving DecidableEq, Repr

/-- The fields that `CopyProcess` gives to the child at once. -/
def inheritFrom (sourceId : ℕ) (source child : Process) : Process :=
  { child with
    parrentId := sourceId
    processGroupId := source.processGroupId
    sessionId := source.sessionId
    blockedSignalMask := source.blockedSignalMask
    realIntervalTimerRemainingTicks := 0
    realIntervalTimerIntervalTicks := 0 }

/-- The child gets the signal actions of its parent. -/
def withSignalActions (signalActions : Option (ℕ → ProcessSignalAction)) (child : Process) :
    Process :=
  { child with signalActions := signalActions }

/-- The end of `CopyProcess`, when the child was created: it becomes ready, or is killed when its
memory records, files or event queues cannot be built. -/
def finishCopy (childId : ℕ) (signalActions : Option (ℕ → ProcessSignalAction))
    (outcome : CopyOutcome) : Option ℕ × LogicLayer :=
  if outcome = .succeeds then
    (some childId, (logic.modify childId (withSignalActions signalActions)).pushReady childId)
  else (none, logic.killProcess childId 0)

/-- `CopyProcess`: the id of the child, `none` when it fails. The bytes of the child's address space
are not determined here. -/
def copyProcess (id : ℕ) (outcome : CopyOutcome) : Option ℕ × LogicLayer :=
  let source := logic.processes id
  if logic.Live id ∧ source.level = .user ∧ source.addressSpace.isSome ∧
      outcome ≠ .failsBeforeCreation then
    match logic.createChild { source.state with rax := 0 } logic.nextAddressSpace
        (inheritFrom id source) with
    | none => (none, logic)
    | some (childId, created) =>
      created.takeAddressSpace.finishCopy childId source.signalActions outcome
  else (none, logic)

end LogicLayer

end TwistedOS
