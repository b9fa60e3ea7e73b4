import TwistedOS.Logic.VforkProtocol

/-!
# clone

`HandleCloneSystemCall` makes the child in one of three ways: like `vfork`, where the caller blocks
until the child has replaced its program or ended; in the address space of the caller; or like
`fork`. What is left is done by one piece of code for the three: it sets the thread pointer of the
child and copies the id of the child to user memory. This runs in the address space of the caller,
and for a `vfork` child not before the caller runs again.

The child stack is used for a child in the address space of the caller only.

## Main definitions

* `CloneRequest`, `CloneResources`, `CloneState`.
* `CloneState.handleCloneSystemCall`.
-/

namespace TwistedOS

/-! ### The flags -/

/-- `LINUX_CLONE_SIGNAL_MASK`. -/
def cloneSignalMask : BitVec 64 := 0xFF

/-- `LINUX_CLONE_VM`. -/
def cloneVm : BitVec 64 := 0x00000100

/-- `LINUX_CLONE_SIGHAND`. -/
def cloneSighand : BitVec 64 := 0x00000800

/-- `LINUX_CLONE_VFORK`. -/
def cloneVfork : BitVec 64 := 0x00004000

/-- `LINUX_CLONE_THREAD`. -/
def cloneThread : BitVec 64 := 0x00010000

/-- `LINUX_CLONE_SETTLS`. -/
def cloneSettls : BitVec 64 := 0x00080000

/-- `LINUX_CLONE_PARENT_SETTID`. -/
def cloneParentSettid : BitVec 64 := 0x00100000

/-- `LINUX_CLONE_CHILD_CLEARTID`. -/
def cloneChildCleartid : BitVec 64 := 0x00200000

/-- `LINUX_CLONE_CHILD_SETTID`. -/
def cloneChildSettid : BitVec 64 := 0x01000000

/-- `LINUX_CLONE_UNSUPPORTED_FLAGS`: `PIDFD`, `NEWNS`, `NEWCGROUP`, `NEWUTS`, `NEWIPC`, `NEWUSER`,
`NEWPID`, `NEWNET` and `IO`. -/
def cloneUnsupportedFlags : BitVec 64 :=
  0x00001000 ||| 0x00020000 ||| 0x02000000 ||| 0x04000000 ||| 0x08000000 ||| 0x10000000 |||
    0x20000000 ||| 0x40000000 ||| 0x80000000

/-- `AllowedFlags`: besides those above `FS`, `FILES`, `PTRACE`, `PARENT`, `SYSVSEM`, `DETACHED` and
`UNTRACED`. -/
def cloneAllowedFlags : BitVec 64 :=
  cloneSignalMask ||| cloneVm ||| 0x00000200 ||| 0x00000400 ||| cloneSighand ||| 0x00002000 |||
    cloneVfork ||| 0x00008000 ||| cloneThread ||| 0x00040000 ||| cloneSettls |||
    cloneParentSettid ||| cloneChildSettid ||| cloneChildCleartid ||| 0x00400000 ||| 0x00800000

/-- The arguments of `clone`, with `0` for a null pointer. -/
structure CloneRequest where
  flags : BitVec 64
  childStack : ℕ := 0
  parentTid : ℕ := 0
  childTid : ℕ := 0
  newTls : ℕ := 0

namespace CloneRequest

variable (request : CloneRequest)

/-- A flag is set. -/
def has (flag : BitVec 64) : Bool := request.flags &&& flag ≠ 0

/-- The checks of `HandleCloneSystemCall` before it makes a child. -/
def checkFlags : Option ℤ :=
  if request.has cloneUnsupportedFlags then some errEinval
  else if request.flags &&& ~~~cloneAllowedFlags ≠ 0 then some errEinval
  else if request.has cloneSighand ∧ !request.has cloneVm then some errEinval
  else if request.has cloneThread ∧
      request.flags &&& (cloneVm ||| cloneSighand) ≠ cloneVm ||| cloneSighand then some errEinval
  else if request.has cloneThread ∧ request.has cloneVfork then some errEinval
  else if signalMax < (request.flags &&& cloneSignalMask).toNat then some errEinval
  else if request.has cloneParentSettid ∧ request.parentTid = 0 then some errEfault
  else if request.has cloneChildSettid ∧ request.childTid = 0 then some errEfault
  else if request.has cloneChildCleartid ∧ request.childTid = 0 then some errEfault
  else none

end CloneRequest

/-! ### The state -/

/-- What the call gets from the rest of the kernel: the error of duplicating the descriptors for a
child in the address space of the caller, how far `CopyProcess` gets and the bytes that it gives to
the child, and the checks of `CopyFromKernelToUser`. -/
structure CloneResources where
  filesError : Option ℤ := none
  filesError_neg : ∀ error ∈ filesError, error < 0 := by simp
  copyOutcome : LogicLayer.CopyOutcome := .succeeds
  inherited : ByteMemory := fun _ => 0
  accessible : UserAccess := fun _ _ _ => true

/-- The logic layer with `UserFSBase` and `ClearChildTidAddress` of the records, and the thread
pointer of the processor. -/
structure CloneState where
  logic : LogicLayer
  userFSBase : ℕ → ℕ := fun _ => 0
  clearChildTidAddress : ℕ → ℕ := fun _ => 0
  liveFSBase : ℕ := 0

namespace CloneState

variable (s : CloneState) (request : CloneRequest) (resources : CloneResources) (parent : ℕ)

/-- Replaces the logic layer. -/
def setLogic (logic : LogicLayer) : CloneState := { s with logic := logic }

/-- Sets `UserFSBase` of a record. -/
def setUserFSBase (id base : ℕ) : CloneState :=
  { s with userFSBase := Function.update s.userFSBase id base }

/-- Sets `ClearChildTidAddress` of a record. -/
def setClearChildTid (id address : ℕ) : CloneState :=
  { s with clearChildTidAddress := Function.update s.clearChildTidAddress id address }

/-- The record of the caller gets the thread pointer of the processor. -/
def saveFSBase : CloneState := s.setUserFSBase parent s.liveFSBase

/-- A new child, with its thread pointer and with `ClearChildTidAddress` of the caller. -/
def startChild (logic : LogicLayer) (childId base : ℕ) : CloneState :=
  ((s.setLogic logic).setUserFSBase childId base).setClearChildTid childId
    (s.clearChildTidAddress parent)

/-- `PM->KillProcess` of the child. -/
def discardChild (childId : ℕ) : CloneState :=
  ((s.setLogic (s.logic.discardChild childId)).setUserFSBase childId 0).setClearChildTid childId 0

/-- The processor gets the thread pointer of the process that it has been switched to. -/
def switchFSBase : CloneState :=
  { s with liveFSBase := s.userFSBase s.logic.pm.currentProcessId }

/-- The bytes of a new address space. -/
def setMemory (space : ℕ) (bytes : ByteMemory) : CloneState :=
  s.setLogic { s.logic with memory := Function.update s.logic.memory space bytes }

/-! ### The three ways to make a child -/

/-- `HandleVforkSystemCall`, up to the switch to another process. -/
def vforkChild : ℤ × CloneState :=
  if (s.logic.processes parent).waitingForVforkChild then (errEagain, s)
  else
    match (s.logic.processes parent).hasSavedSystemCallFrame,
        (s.logic.processes parent).addressSpace with
    | true, some space =>
      match s.logic.createSharingChild parent space
          (s.logic.processes parent).savedSystemCallFrame.rsp with
      | none => (errEagain, s.saveFSBase parent)
      | some (childId, created) =>
        let started := (s.saveFSBase parent).startChild parent created childId s.liveFSBase
        match resources.filesError with
        | some error => (error, started.discardChild childId)
        | none =>
          (childId, (started.setLogic (created.beginVfork parent childId)).switchFSBase)
    | _, _ => (errEfault, s)

/-- The stack pointer of a child in the address space of the caller. -/
def sharedStack : ℕ :=
  if request.childStack ≠ 0 then request.childStack
  else (s.logic.processes parent).savedSystemCallFrame.rsp

/-- The thread pointer of a child in the address space of the caller. -/
def sharedFSBase : ℕ := if request.has cloneSettls then request.newTls else s.liveFSBase

/-- The branch of `HandleCloneSystemCall` for `CLONE_VM` without `CLONE_VFORK`. -/
def sharingChild : ℤ × CloneState :=
  match (s.logic.processes parent).hasSavedSystemCallFrame,
      (s.logic.processes parent).addressSpace with
  | true, some space =>
    match s.logic.createSharingChild parent space (s.sharedStack request parent) with
    | none => (errEagain, s.saveFSBase parent)
    | some (childId, created) =>
      let started :=
        (s.saveFSBase parent).startChild parent created childId (s.sharedFSBase request)
      match resources.filesError with
      | some error => (error, started.discardChild childId)
      | none => (childId, started.setLogic (created.addProcessToReadyQueue childId))
  | _, _ => (errEfault, s)

/-- The record of a fork child that has got the registers of the system call. -/
def withFrame (frame : UserRegisters) (child : Process) : Process :=
  { child with state := LogicLayer.childState frame frame.rsp }

/-- `HandleForkSystemCall`. -/
def forkChild : ℤ × CloneState :=
  match s.logic.copyProcess parent resources.copyOutcome with
  | (none, copied) =>
    (if s.logic.pm.firstTerminated = none then errEagain else errEnomem,
      (s.saveFSBase parent).setLogic copied)
  | (some childId, copied) =>
    let started := ((s.saveFSBase parent).startChild parent copied childId s.liveFSBase).setMemory
      s.logic.nextAddressSpace resources.inherited
    if (copied.processes parent).hasSavedSystemCallFrame then
      (childId, started.setLogic
        (started.logic.modify childId (withFrame (copied.processes parent).savedSystemCallFrame)))
    else (errEfault, started)

/-- The child is made in the way that the flags ask for. -/
def makeChild : ℤ × CloneState :=
  if request.has cloneVfork then s.vforkChild resources parent
  else if request.has cloneVm then s.sharingChild request resources parent
  else s.forkChild resources parent

/-! ### What is left -/

/-- `CopyFromKernelToUser` of the id of the child, by the caller. -/
def copyTid (address childId : ℕ) : Option CloneState :=
  match (s.logic.processes parent).addressSpace with
  | none => none
  | some space =>
    if resources.accessible parent address 4 then
      some (s.setMemory space ((s.logic.memory space).store address 4 childId))
    else none

/-- The copy of the id of the child that a flag asks for. -/
def copyTidIf (flag : Bool) (address childId : ℕ) : Option CloneState :=
  if flag then s.copyTid resources parent address childId else some s

/-- The thread pointer of the child, when it is asked for. -/
def setTls (childId : ℕ) : CloneState :=
  if request.has cloneSettls then s.setUserFSBase childId request.newTls else s

/-- The end of `HandleCloneSystemCall`, when the child has been made. -/
def finishClone (childId : ℕ) : ℤ × CloneState :=
  let started := s.setTls request childId
  match started.copyTidIf resources parent (request.has cloneParentSettid) request.parentTid
    childId with
  | none => (errEfault, started)
  | some parentTold =>
    match parentTold.copyTidIf resources parent (request.has cloneChildSettid) request.childTid
      childId with
    | none => (errEfault, parentTold)
    | some childTold =>
      (childId, if request.has cloneChildCleartid then
        childTold.setClearChildTid childId request.childTid else childTold)

/-- The state in which the end of the call runs: with `CLONE_VFORK` that in which the caller runs
again. -/
def continued (resumed : CloneState) : CloneState :=
  if request.has cloneVfork then resumed else (s.makeChild request resources parent).2

/-- `HandleCloneSystemCall` of the process `parent`. -/
def handleCloneSystemCall (resumed : CloneState) : ℤ × CloneState :=
  match request.checkFlags with
  | some error => (error, s)
  | none =>
    if (s.makeChild request resources parent).1 < 0 then s.makeChild request resources parent
    else
      (s.continued request resources parent resumed).finishClone request resources parent
        (s.makeChild request resources parent).1.toNat

end CloneState

end TwistedOS
