import TwistedOS.Logic.LogicLayer

/-!
# System calls that create, replace and end processes

`TranslationLayer` handles `vfork`, `clone`, `fork`, `execve`, `exit_group` and `kill` by the
operations of the logic layer. A call that blocks ends here with the switch to another process;
its result is what the caller gets when it runs again.

What depends on the file table, on the user memory and on the executable file enters as a
parameter: whether the descriptors of a child could be duplicated, and whether the new program
could be loaded.

## Main definitions

* `LogicLayer.handleVforkSystemCall`, `LogicLayer.handleCloneVm`, `LogicLayer.handleForkSystemCall`.
* `LogicLayer.handleExitGroupSystemCall`, `LogicLayer.handleExecveSystemCall`,
  `LogicLayer.releaseVforkParentIfNeeded`.
* `LogicLayer.handleKillSystemCall`.
-/

namespace TwistedOS

/-- `LINUX_ERR_EPERM`. -/
def errEperm : ℤ := -1

/-- `LINUX_ERR_ENOENT`. -/
def errEnoent : ℤ := -2

/-- `LINUX_ERR_ESRCH`. -/
def errEsrch : ℤ := -3

/-- `LINUX_ERR_EINTR`. -/
def errEintr : ℤ := -4

/-- `LINUX_ERR_EAGAIN`. -/
def errEagain : ℤ := -11

/-- `LINUX_ERR_ENOMEM`. -/
def errEnomem : ℤ := -12

/-- `LINUX_ERR_EFAULT`. -/
def errEfault : ℤ := -14

/-- `LINUX_ERR_EINVAL`. -/
def errEinval : ℤ := -22

namespace LogicLayer

variable (logic : LogicLayer)

/-- `GetRunningProcess`, which also sets the tracked id. -/
def trackRunning : LogicLayer :=
  { logic with pm := logic.pm.getRunningProcess.2 }

/-- The id that `GetRunningProcess` finds. -/
def running : Option ℕ := logic.pm.getRunningProcess.1

/-- The start of a system call: it fails with `EFAULT` when no process is running, and otherwise
continues for the running process. -/
def withRunning (f : LogicLayer → ℕ → ℤ × LogicLayer) : ℤ × LogicLayer :=
  match logic.running with
  | none => (errEfault, logic.trackRunning)
  | some id => f logic.trackRunning id

/-- The state in which the child of `vfork` and `clone` starts: the registers of the parent's
system call with result `0` and the stack pointer `rsp`. -/
def childState (frame : UserRegisters) (rsp : ℕ) : CpuState where
  toUserRegisters := { frame with rax := 0, rcx := 0, r11 := 0, rsp := rsp }
  cs := userCs
  ss := userSs

/-- The fields that `vfork` and `clone` give to the child. -/
def shareWith (parentId : ℕ) (parent child : Process) : Process :=
  { child with
    parrentId := parentId
    processGroupId := parent.processGroupId
    sessionId := parent.sessionId
    blockedSignalMask := parent.blockedSignalMask
    signalActions := parent.signalActions }

/-- The child of `vfork` and `clone`, in the address space of its parent. -/
def createSharingChild (parentId space rsp : ℕ) : Option (ℕ × LogicLayer) :=
  let parent := logic.processes parentId
  logic.createChild (childState parent.savedSystemCallFrame rsp) space (shareWith parentId parent)

/-- The record of a vfork parent. -/
def markVforkParent (childId : ℕ) (parent : Process) : Process :=
  { parent with waitingForVforkChild := true, vforkChildId := childId }

/-- The record of a vfork child. -/
def markVforkChild (parentId : ℕ) (child : Process) : Process :=
  { child with isVforkChild := true, vforkParentId := parentId }

/-- The part of `HandleVforkSystemCall` after the child has got its descriptors: the vfork flags of
both processes, the child becomes ready and the parent blocks. -/
def beginVfork (parentId childId : ℕ) : LogicLayer :=
  ((((logic.modify parentId (markVforkParent childId)).modify childId
    (markVforkChild parentId)).addProcessToReadyQueue childId).modify parentId
      markKernelContext).blockProcess parentId

/-- `PM->KillProcess`, for a child whose descriptors could not be duplicated. -/
def discardChild (childId : ℕ) : LogicLayer :=
  { logic with pm := logic.pm.killProcess childId }

/-- `HandleVforkSystemCall` of the process `parentId`. The error of duplicating the descriptors is
`filesError`. -/
def vforkFrom (filesError : Option ℤ) (parentId : ℕ) : ℤ × LogicLayer :=
  if (logic.processes parentId).waitingForVforkChild then (errEagain, logic)
  else
    match (logic.processes parentId).hasSavedSystemCallFrame,
        (logic.processes parentId).addressSpace with
    | true, some space =>
      match logic.createSharingChild parentId space
          (logic.processes parentId).savedSystemCallFrame.rsp with
      | none => (errEagain, logic)
      | some (childId, created) =>
        match filesError with
        | some error => (error, created.discardChild childId)
        | none => (childId, created.beginVfork parentId childId)
    | _, _ => (errEfault, logic)

/-- `HandleVforkSystemCall`. -/
def handleVforkSystemCall (filesError : Option ℤ) : ℤ × LogicLayer :=
  logic.withRunning fun logic => logic.vforkFrom filesError

/-- The branch of `HandleCloneSystemCall` of the process `parentId` for `CLONE_VM` without
`CLONE_VFORK`. -/
def cloneVmFrom (childStack : Option ℕ) (filesError : Option ℤ) (parentId : ℕ) : ℤ × LogicLayer :=
  match (logic.processes parentId).hasSavedSystemCallFrame,
      (logic.processes parentId).addressSpace with
  | true, some space =>
    match logic.createSharingChild parentId space
        (childStack.getD (logic.processes parentId).savedSystemCallFrame.rsp) with
    | none => (errEagain, logic)
    | some (childId, created) =>
      match filesError with
      | some error => (error, created.discardChild childId)
      | none => (childId, created.addProcessToReadyQueue childId)
  | _, _ => (errEfault, logic)

/-- `HandleCloneSystemCall` for `CLONE_VM` without `CLONE_VFORK`. -/
def handleCloneVm (childStack : Option ℕ) (filesError : Option ℤ) : ℤ × LogicLayer :=
  logic.withRunning fun logic => logic.cloneVmFrom childStack filesError

/-- `HandleForkSystemCall` of the process `parentId`. -/
def forkFrom (outcome : CopyOutcome) (parentId : ℕ) : ℤ × LogicLayer :=
  match logic.copyProcess parentId outcome with
  | (none, copied) => (if logic.pm.firstTerminated = none then errEagain else errEnomem, copied)
  | (some childId, copied) =>
    if (copied.processes parentId).hasSavedSystemCallFrame then
      (childId, copied.modify childId fun child =>
        { child with
          state := childState (copied.processes parentId).savedSystemCallFrame
            (copied.processes parentId).savedSystemCallFrame.rsp })
    else (errEfault, copied)

/-- `HandleForkSystemCall`. -/
def handleForkSystemCall (outcome : CopyOutcome) : ℤ × LogicLayer :=
  logic.withRunning fun logic => logic.forkFrom outcome

/-- The record of a vfork parent whose child has ended its borrowing. -/
def clearVforkParent (parent : Process) : Process :=
  { parent with waitingForVforkChild := false, vforkChildId := processIdInvalid }

/-- The record of a vfork child that has ended its borrowing. -/
def clearVforkChild (child : Process) : Process :=
  { child with isVforkChild := false, vforkParentId := processIdInvalid }

/-- The end of a vfork child's borrowing, as seen by the parent: its flags are cleared, and it is
unblocked when it waits for that child. -/
def releaseVforkParent (parentId childId : ℕ) : LogicLayer :=
  if logic.Live parentId then
    if (logic.processes parentId).waitingForVforkChild ∧
        (logic.processes parentId).vforkChildId = childId then
      (logic.modify parentId clearVforkParent).unblockProcess parentId
    else logic.modify parentId clearVforkParent
  else logic

/-- `ReleaseVforkParentIfNeeded`. -/
def releaseVforkParentIfNeeded (childId : ℕ) : LogicLayer :=
  if (logic.processes childId).isVforkChild then
    (logic.modify childId clearVforkChild).releaseVforkParent
      (logic.processes childId).vforkParentId childId
  else logic

/-- The wait status of a process that exits. -/
def exitWaitStatus (status : ℕ) : ℕ := status % 256 * 256

/-- `HandleExitGroupSystemCall` of the process `id`, up to the switch to another process. -/
def exitGroupFrom (status id : ℕ) : LogicLayer :=
  (if (logic.processes id).isVforkChild then
    (logic.killProcess id (exitWaitStatus status)).releaseVforkParent
      (logic.processes id).vforkParentId id
  else logic.killProcess id (exitWaitStatus status)).schedule

/-- `HandleExitGroupSystemCall`, which only returns when no process is running. -/
def handleExitGroupSystemCall (status : ℕ) : LogicLayer :=
  match logic.running with
  | none => logic.trackRunning
  | some id => logic.trackRunning.exitGroupFrom status id

/-- The part of `ChangeProcessExecution` after the new program was loaded. -/
def changeProcessExecution (id : ℕ) (newState : CpuState) : LogicLayer :=
  { logic.modify id fun process =>
      { process with addressSpace := some logic.nextAddressSpace, state := newState } with
    nextAddressSpace := logic.nextAddressSpace + 1
    releasedAddressSpaces :=
      if logic.skipAddressSpaceCleanup (logic.processes id) then logic.releasedAddressSpaces
      else (logic.processes id).addressSpace.toList ++ logic.releasedAddressSpaces }

/-- `HandleExecveSystemCall` of the process `id`: the state of the new program is `none` when it
cannot be loaded. -/
def execveFrom (newState : Option CpuState) (id : ℕ) : ℤ × LogicLayer :=
  match newState with
  | none => (errEnoent, logic)
  | some newState =>
    (0, ((logic.changeProcessExecution id newState).modify id fun process =>
      { process with hasExecutedExecve := true }).releaseVforkParentIfNeeded id)

/-- `HandleExecveSystemCall`. -/
def handleExecveSystemCall (newState : Option CpuState) : ℤ × LogicLayer :=
  logic.withRunning fun logic => logic.execveFrom newState

/-! ### Sending signals -/

/-- `GetEffectiveProcessGroupId` in `HandleKillSystemCall`. -/
def effectiveProcessGroupId (id : ℕ) : ℕ :=
  if 0 < (logic.processes id).processGroupId then (logic.processes id).processGroupId else id

/-- Whether `HandleKillSystemCall` of the process `caller`, whose group was `callerGroup` at the
call, tries to signal a process when it comes to its slot, by the value of `Pid`. -/
def isKillTarget (caller callerGroup : ℕ) (pid : ℤ) (id : ℕ) : Bool :=
  if 0 < pid then id = pid.toNat
  else if pid = 0 then logic.effectiveProcessGroupId id = callerGroup
  else if pid = -1 then id ≠ 1 ∧ id ≠ caller
  else logic.effectiveProcessGroupId id = (-pid).toNat % 2 ^ 32

/-- What `HandleKillSystemCall` has seen of its targets. -/
structure KillProgress where
  anyMatchingTarget : Bool := false
  anySignalDelivered : Bool := false
  anyPermissionDenied : Bool := false
  deriving DecidableEq, Repr

/-- `TrySignalTarget` for one slot. -/
def trySignalTarget (accessible : UserAccess) (signal : ℕ) (progress : KillProgress) (id : ℕ) :
    KillProgress × LogicLayer :=
  if logic.Live id then
    let progress := { progress with anyMatchingTarget := true }
    if (logic.processes id).level ≠ .user then
      ({ progress with anyPermissionDenied := true }, logic)
    else if signal = 0 then ({ progress with anySignalDelivered := true }, logic)
    else
      match logic.signalProcess accessible id signal with
      | some signalled => ({ progress with anySignalDelivered := true }, signalled)
      | none => (progress, logic)
  else (progress, logic)

/-- The loop of `HandleKillSystemCall` over the slots. The slots are examined one after another,
each in the state that the signals before it left. -/
def signalTargets (accessible : UserAccess) (isTarget : LogicLayer → ℕ → Bool) (signal : ℕ) :
    List ℕ → KillProgress → LogicLayer → KillProgress × LogicLayer
  | [], progress, logic => (progress, logic)
  | id :: ids, progress, logic =>
    if logic.Live id ∧ isTarget logic id then
      let (progress, signalled) := logic.trySignalTarget accessible signal progress id
      signalTargets accessible isTarget signal ids progress signalled
    else signalTargets accessible isTarget signal ids progress logic

/-- The result of `HandleKillSystemCall`. -/
def KillProgress.result (progress : KillProgress) : ℤ :=
  if progress.anySignalDelivered then 0
  else if progress.anyPermissionDenied ∧ progress.anyMatchingTarget then errEperm
  else errEsrch

/-- `HandleKillSystemCall` of the process `caller`. The negation of the least 64-bit number is not
positive, and rejected like a number that is no signal. -/
def killFrom (accessible : UserAccess) (pid : ℤ) (signal caller : ℕ) : ℤ × LogicLayer :=
  if signalMax < signal ∨ pid = -2 ^ 63 then (errEinval, logic)
  else
    let signalled := signalTargets accessible
      (fun now id => now.isKillTarget caller (logic.effectiveProcessGroupId caller) pid id)
      signal (List.range maxProcesses) {} logic
    (signalled.1.result, signalled.2)

/-- `HandleKillSystemCall`. -/
def handleKillSystemCall (accessible : UserAccess) (pid : ℤ) (signal : ℕ) : ℤ × LogicLayer :=
  logic.withRunning fun logic => logic.killFrom accessible pid signal

end LogicLayer

end TwistedOS
