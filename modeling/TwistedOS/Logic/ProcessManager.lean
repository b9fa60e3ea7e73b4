import Mathlib.Logic.Function.Basic
import TwistedOS.Data.ByteMemory
import TwistedOS.KernelParameters

/-!
# The process table

`ProcessManager` holds `MAX_PROCESSES` process records. A record whose status is
`PROCESS_TERMINATED` is a free slot: creation takes the first one, and killing a process makes its
record one again.

A record is modelled with the fields that the scheduling, signal and process calls read. The
general registers and the instruction and stack pointers of a saved system-call frame and of a CPU
state are one structure, `UserRegisters`, since they are only ever copied as a whole, field by
field.

## Main definitions

* `Process`, `ProcessState`, `ProcessLevel`, `CpuState`, `ProcessSignalAction`.
* `initializeProcessEntry` — the value a record gets when it is created or killed.
* `ProcessManager`, with `getProcessById`, `getCurrentProcess`, `getRunningProcess`,
  `firstTerminated`, `createKernelProcess`, `createUserProcess` and `killProcess`.
-/

namespace TwistedOS

/-- `MAX_PROCESSES`. -/
def maxProcesses : ℕ := 32

/-- `PROCESS_ID_INVALID`. -/
def processIdInvalid : ℕ := 0xFF

/-- `KERNEL_CS`. -/
def kernelCs : ℕ := 0x08

/-- `KERNEL_SS`. -/
def kernelSs : ℕ := 0x10

/-- `USER_CS`. -/
def userCs : ℕ := 0x1B

/-- `USER_SS`. -/
def userSs : ℕ := 0x23

/-- `ProcessState`. -/
inductive ProcessState where
  | running
  | ready
  | blocked
  | terminated
  deriving DecidableEq, Repr

/-- `ProcessLevel`. -/
inductive ProcessLevel where
  | kernel
  | user
  deriving DecidableEq, Repr

/-- The registers of a user program: the fields of `ProcessSavedSystemCallFrame`. -/
structure UserRegisters where
  rsp : ℕ := 0
  rip : ℕ := 0
  rflags : ℕ := 0
  rax : ℕ := 0
  rcx : ℕ := 0
  rdx : ℕ := 0
  rbx : ℕ := 0
  rbp : ℕ := 0
  rsi : ℕ := 0
  rdi : ℕ := 0
  r8 : ℕ := 0
  r9 : ℕ := 0
  r10 : ℕ := 0
  r11 : ℕ := 0
  r12 : ℕ := 0
  r13 : ℕ := 0
  r14 : ℕ := 0
  r15 : ℕ := 0
  deriving DecidableEq, Repr

/-- `CpuState`: the registers of a program and the segments that tell which mode it is in. -/
structure CpuState extends UserRegisters where
  cs : ℕ := 0
  ss : ℕ := 0
  deriving DecidableEq, Repr

/-- A signal mask: signal `n` is bit `n - 1`. -/
abbrev SignalMask := BitVec 64

/-- `ProcessSignalAction`. -/
structure ProcessSignalAction where
  handler : ℕ := 0
  flags : ℕ := 0
  restorer : ℕ := 0
  mask : SignalMask := 0
  deriving DecidableEq, Repr

/-- `Process`. An address space is known by the number of the `VirtualAddressSpace` object. -/
structure Process where
  parrentId : ℕ := processIdInvalid
  waitingForVforkChild : Bool := false
  vforkChildId : ℕ := processIdInvalid
  isVforkChild : Bool := false
  vforkParentId : ℕ := processIdInvalid
  waitingForChild : Bool := false
  waitingForSystemCallReturn : Bool := false
  hasSavedSystemCallFrame : Bool := false
  hasPendingChildExit : Bool := false
  hasExecutedExecve : Bool := false
  pendingChildId : ℕ := processIdInvalid
  pendingChildStatus : ℕ := 0
  savedSystemCallFrame : UserRegisters := {}
  state : CpuState := {}
  status : ProcessState := .terminated
  level : ProcessLevel := .kernel
  processGroupId : ℕ := 0
  sessionId : ℕ := 0
  blockedSignalMask : SignalMask := 0
  pendingSignalMask : SignalMask := 0
  interruptedBySignal : Bool := false
  hasSavedSignalState : Bool := false
  savedSignalMask : SignalMask := 0
  savedSignalFrame : UserRegisters := {}
  savedSignalRip : ℕ := 0
  savedSignalRsp : ℕ := 0
  savedSignalWasSyscall : Bool := false
  realIntervalTimerRemainingTicks : ℕ := 0
  realIntervalTimerIntervalTicks : ℕ := 0
  addressSpace : Option ℕ := none
  signalActions : Option (ℕ → ProcessSignalAction) := none

/-- `InitializeProcessEntry`: the record of slot `id` after it was created or killed. The table of
signal actions exists exactly while the record is in use. -/
def initializeProcessEntry (id : ℕ) (status : ProcessState) (level : ProcessLevel)
    (addressSpace : Option ℕ) (state : CpuState) : Process where
  status := status
  level := level
  addressSpace := addressSpace
  state := state
  processGroupId := if status = .terminated then 0 else id
  sessionId := if status = .terminated then 0 else id
  signalActions := if status = .terminated then none else some fun _ => {}

/-- `ProcessManager`: the record of every slot and the id of the tracked current process. -/
structure ProcessManager where
  processes : ℕ → Process
  currentProcessId : ℕ

namespace ProcessManager

/-- The constructor `ProcessManager`. -/
def new : ProcessManager where
  processes := fun id => initializeProcessEntry id .terminated .kernel none {}
  currentProcessId := 0

variable (pm : ProcessManager)

/-- The status of a slot. -/
abbrev status (id : ℕ) : ProcessState := (pm.processes id).status

/-- Writes the record of a slot. -/
def setProcess (id : ℕ) (process : Process) : ProcessManager :=
  { pm with processes := Function.update pm.processes id process }

/-- `GetProcessById`. -/
def getProcessById (id : ℕ) : Option Process :=
  if id < maxProcesses then some (pm.processes id) else none

/-- `GetCurrentProcess`: the id of the tracked process, unless it is terminated. -/
def getCurrentProcess : Option ℕ :=
  if pm.currentProcessId < maxProcesses ∧ pm.status pm.currentProcessId ≠ .terminated then
    some pm.currentProcessId
  else none

/-- The first slot that satisfies a condition. -/
def firstSlot (p : Process → Bool) : Option ℕ :=
  (List.range maxProcesses).find? fun id => p (pm.processes id)

/-- The search of `GetRunningProcess` through the whole table. -/
def scanRunning : Option ℕ × ProcessManager :=
  match pm.firstSlot fun process => process.status = .running with
  | some id => (some id, { pm with currentProcessId := id })
  | none => (none, { pm with currentProcessId := processIdInvalid })

/-- `GetRunningProcess`: the running process, and the table after the tracked id was set to it. -/
def getRunningProcess : Option ℕ × ProcessManager :=
  match pm.getCurrentProcess with
  | some id => if pm.status id = .running then (some id, pm) else pm.scanRunning
  | none => pm.scanRunning

/-- The slot that the next created process takes. -/
def firstTerminated : Option ℕ :=
  pm.firstSlot fun process => process.status = .terminated

/-- `CreateKernelProcess`: the id of the new process, which is ready. -/
def createKernelProcess (initialState : CpuState) : Option (ℕ × ProcessManager) :=
  pm.firstTerminated.map fun id =>
    (id, pm.setProcess id (initializeProcessEntry id .ready .kernel none initialState))

/-- `CreateUserProcess`: the id of the new process, which is ready. -/
def createUserProcess (initialState : CpuState) (addressSpace : ℕ) :
    Option (ℕ × ProcessManager) :=
  pm.firstTerminated.map fun id =>
    (id, pm.setProcess id (initializeProcessEntry id .ready .user (some addressSpace) initialState))

/-- `ProcessManager::KillProcess`. -/
def killProcess (id : ℕ) : ProcessManager :=
  if id < maxProcesses then
    pm.setProcess id (initializeProcessEntry id .terminated .kernel none {})
  else pm

variable {pm : ProcessManager} {id other : ℕ} {process : Process}

@[simp] theorem setProcess_processes_self : (pm.setProcess id process).processes id = process :=
  Function.update_self ..

theorem setProcess_processes_of_ne (h : other ≠ id) :
    (pm.setProcess id process).processes other = pm.processes other :=
  Function.update_of_ne h ..

@[simp] theorem scanRunning_processes : pm.scanRunning.2.processes = pm.processes := by
  rw [scanRunning]
  split <;> rfl

@[simp] theorem getRunningProcess_processes :
    pm.getRunningProcess.2.processes = pm.processes := by
  rw [getRunningProcess]
  split
  · split
    · rfl
    · exact scanRunning_processes
  · exact scanRunning_processes

theorem firstSlot_eq_some {p : Process → Bool} (h : pm.firstSlot p = some id) :
    id < maxProcesses ∧ p (pm.processes id) := by
  have hmem := List.mem_of_find?_eq_some h
  have hp := List.find?_some (p := fun id => p (pm.processes id)) h
  exact ⟨List.mem_range.mp hmem, hp⟩

theorem firstSlot_eq_none {p : Process → Bool} (h : pm.firstSlot p = none)
    (hid : id < maxProcesses) : p (pm.processes id) = false := by
  have := List.find?_eq_none.mp h id (List.mem_range.mpr hid)
  simpa using this

theorem firstTerminated_spec (h : pm.firstTerminated = some id) :
    id < maxProcesses ∧ pm.status id = .terminated := by
  obtain ⟨hlt, hstatus⟩ := firstSlot_eq_some h
  exact ⟨hlt, of_decide_eq_true hstatus⟩

/-- The running process that is found is running and is the tracked one afterwards. -/
theorem getRunningProcess_eq_some (h : pm.getRunningProcess.1 = some id) :
    id < maxProcesses ∧ pm.status id = .running ∧
      pm.getRunningProcess.2.currentProcessId = id := by
  have hscan (h : pm.scanRunning.1 = some id) : id < maxProcesses ∧ pm.status id = .running ∧
      pm.scanRunning.2.currentProcessId = id := by
    rw [scanRunning] at h ⊢
    split at h
    next found hfound =>
      obtain rfl : found = id := Option.some.inj h
      obtain ⟨hlt, hstatus⟩ := firstSlot_eq_some hfound
      exact ⟨hlt, of_decide_eq_true hstatus, rfl⟩
    next => exact absurd h (by simp)
  rw [getRunningProcess] at h ⊢
  split at h
  next current hcurrent =>
    split at h
    next hrunning =>
      obtain rfl : current = id := Option.some.inj h
      simp only [hrunning, if_true]
      rw [getCurrentProcess] at hcurrent
      split at hcurrent
      next hlive =>
        obtain rfl := Option.some.inj hcurrent
        exact ⟨hlive.1, trivial, rfl⟩
      next => exact absurd hcurrent (by simp)
    next hrunning =>
      simp only [hrunning, if_false]
      exact hscan h
  next => exact hscan h

/-- When no running process is found, none is running. -/
theorem getRunningProcess_eq_none (h : pm.getRunningProcess.1 = none) (hid : id < maxProcesses) :
    pm.status id ≠ .running := by
  have hscan (h : pm.scanRunning.1 = none) : pm.status id ≠ .running := by
    rw [scanRunning] at h
    split at h
    next => exact absurd h (by simp)
    next hnone => exact of_decide_eq_false (firstSlot_eq_none hnone hid)
  rw [getRunningProcess] at h
  split at h
  · split at h
    · exact absurd h (by simp)
    · exact hscan h
  · exact hscan h

/-- When only the tracked process can be running, the search keeps track of the running one. -/
theorem tracked_of_running (hcurrent : ∀ q, pm.status q = .running → q = pm.currentProcessId)
    (hid : id < maxProcesses) (hrunning : pm.status id = .running) :
    id = pm.getRunningProcess.2.currentProcessId := by
  rcases hfound : pm.getRunningProcess.1 with _ | found
  · exact absurd hrunning (getRunningProcess_eq_none hfound hid)
  · obtain ⟨-, hfoundRunning, htracked⟩ := getRunningProcess_eq_some hfound
    rw [htracked, hcurrent id hrunning, ← hcurrent found hfoundRunning]

/-- A created kernel process takes a free slot. -/
theorem createKernelProcess_eq_some {state : CpuState} {pm' : ProcessManager}
    (h : pm.createKernelProcess state = some (id, pm')) :
    id < maxProcesses ∧ pm.status id = .terminated ∧
      pm' = pm.setProcess id (initializeProcessEntry id .ready .kernel none state) := by
  obtain ⟨slot, hslot, heq⟩ := Option.map_eq_some_iff.mp h
  obtain ⟨rfl, rfl⟩ := Prod.mk.inj heq
  exact ⟨(firstTerminated_spec hslot).1, (firstTerminated_spec hslot).2, rfl⟩

/-- A created user process takes a free slot. -/
theorem createUserProcess_eq_some {state : CpuState} {addressSpace : ℕ} {pm' : ProcessManager}
    (h : pm.createUserProcess state addressSpace = some (id, pm')) :
    id < maxProcesses ∧ pm.status id = .terminated ∧
      pm' = pm.setProcess id (initializeProcessEntry id .ready .user (some addressSpace) state) := by
  obtain ⟨slot, hslot, heq⟩ := Option.map_eq_some_iff.mp h
  obtain ⟨rfl, rfl⟩ := Prod.mk.inj heq
  exact ⟨(firstTerminated_spec hslot).1, (firstTerminated_spec hslot).2, rfl⟩

end ProcessManager

end TwistedOS
