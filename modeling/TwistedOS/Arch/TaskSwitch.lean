import TwistedOS.Logic.LogicLayer

/-!
# Interrupts and the switch of the processor

`Machine` is the process table together with what the assembly routines work on: the general
registers and the x87 and SSE registers of the processor, the physical bytes, and the page tables
of every address space. `RunProcess` ends in one of two routines. `ResourceLayerTaskSwitchKernelAsm`
touches no user memory. `ResourceLayerTaskSwitchUserAsm` loads the stack pointer of the new process
first and then pushes `rax` and the frame for `iretq`, so that these pushes go to the stack of the
user program. Neither routine mentions the x87 and SSE registers, and neither does `ISRCOMMON`;
the rest of the kernel is compiled with `-mgeneral-regs-only`.

The registers that the kernel itself holds when it calls a routine are known to no other part of
the model: they are a parameter `live`, whose `rip` is the label at which the routine resumes.
Only an address space that has a page table is represented.

## Main definitions

* `Machine`, `Machine.physical`.
* `Machine.taskSwitchUserAsm`, `Machine.taskSwitchKernelAsm`, `Machine.runProcess`.
* `Machine.captureCurrentInterruptState`, `Machine.tick`, `Machine.interrupt`.

## Main results

* `Machine.Untouched.interrupt`, `Machine.untouched_iff_harmlessSwitch` — a process stays as it is
  when the pushes of the kernel find their bytes already there.
* `Machine.runProcess_status` — a switch refines `LogicLayer.runProcess`.
-/

namespace TwistedOS

open ProcessManager

/-- The process table and the state of the processor and the memory. A page table gives the
physical address of a virtual one, and says which virtual addresses a user program may use. -/
structure Machine (F : Type*) where
  pm : ProcessManager
  cpu : CpuState
  floatRegisters : F
  memory : ByteMemory
  translate : ℕ → ℕ → Option ℕ
  userAccess : ℕ → ℕ → Bool

/-- The address `n` bytes below a stack pointer. -/
def below (rsp n : ℕ) : ℕ := (rsp + (2 ^ 64 - n)) % 2 ^ 64

/-- The addresses and the bytes of a stored quadword. -/
def qwordBytes (address value : ℕ) : List (ℕ × UInt8) :=
  (List.range 8).map fun i => ((address + i) % 2 ^ 64, UInt8.ofNat (value / 256 ^ i))

/-- The pushes before `iretq`: `SS`, `RSP`, `RFLAGS`, `CS` and `RIP` of the new state, from its own
stack pointer downwards. -/
def interruptReturnFrame (new : CpuState) : List (ℕ × UInt8) :=
  qwordBytes (below new.rsp 8) new.ss ++ qwordBytes (below new.rsp 16) new.rsp ++
    qwordBytes (below new.rsp 24) new.rflags ++ qwordBytes (below new.rsp 32) new.cs ++
    qwordBytes (below new.rsp 40) new.rip

/-- All pushes of `ResourceLayerTaskSwitchUserAsm`: `rax`, which is popped again, and the frame. -/
def taskSwitchPushes (new : CpuState) : List (ℕ × UInt8) :=
  qwordBytes (below new.rsp 8) new.rax ++ interruptReturnFrame new

/-- `USER_MODE_FLAG_MASK`: the privilege bits of a code segment are both set. -/
def CpuState.InUserMode (state : CpuState) : Prop := state.cs % 4 = 3

instance (state : CpuState) : Decidable state.InUserMode := inferInstanceAs (Decidable (_ = _))

/-- `ResumeTargetInKernelContext`: the process is inside a system call. -/
def resumesInKernelContext (process : Process) : Prop :=
  process.level = .user ∧ process.waitingForSystemCallReturn ∧
    process.hasSavedSystemCallFrame ∧ process.state.cs = kernelCs ∧ process.state.ss = kernelSs

instance (process : Process) : Decidable (resumesInKernelContext process) :=
  inferInstanceAs (Decidable (_ ∧ _))

/-- The record of a process whose registers are saved. -/
def saveState (state : CpuState) (process : Process) : Process := { process with state := state }

/-- The record of a process with another status. -/
def withStatus (status : ProcessState) (process : Process) : Process :=
  { process with status := status }

/-- An update of a record that leaves its saved registers and its address space. -/
structure RecordUpdate where
  apply : Process → Process
  state_apply : ∀ process, (apply process).state = process.state
  addressSpace_apply : ∀ process, (apply process).addressSpace = process.addressSpace

/-- What `Tick` does to a process: a status or another field is set, a signal handler is started,
or the process is killed. -/
inductive TickEffect where
  | update (id : ℕ) (change : RecordUpdate)
  | startHandler (accessible : UserAccess) (id signal handler restorer : ℕ)
  | kill (id : ℕ)

namespace Machine

variable {F : Type*} (m : Machine F)

/-- The physical address of a byte of the memory of a process. -/
def physical (id v : ℕ) : Option ℕ :=
  (m.pm.processes id).addressSpace.bind fun space =>
    if m.userAccess space v then m.translate space v else none

/-- The physical addresses and the bytes of stores through a page table. -/
def physicalStores (space : ℕ) (stores : List (ℕ × UInt8)) : List (ℕ × UInt8) :=
  stores.filterMap fun s => (m.translate space s.1).map fun p => (p, s.2)

/-- Stores through a page table do not fault. -/
def Mapped (space : ℕ) (stores : List (ℕ × UInt8)) : Prop :=
  ∀ s ∈ stores, (m.translate space s.1).isSome

instance (space : ℕ) (stores : List (ℕ × UInt8)) : Decidable (m.Mapped space stores) :=
  inferInstanceAs (Decidable (∀ s ∈ stores, _))

/-- Stores through a page table. -/
def storeVirtual (space : ℕ) (stores : List (ℕ × UInt8)) : Machine F :=
  { m with memory := m.memory.storeAll (m.physicalStores space stores) }

/-- Applies a function to the record of a slot. -/
def modify (id : ℕ) (f : Process → Process) : Machine F := { m with pm := m.pm.modify id f }

/-- The registers of the processor. -/
def loadState (state : CpuState) : Machine F := { m with cpu := state }

/-! ### Switching -/

/-- Both routines save the registers of the kernel in the old state, unless this state is one of
user mode. `none` stands for the `BootstrapState` of `RunProcess`, which is dropped. -/
def saveOldState (live : CpuState) : Option ℕ → Machine F
  | none => m
  | some old =>
    if (m.pm.processes old).state.cs % 4 = 0 then m.modify old (saveState live) else m

/-- `ResourceLayerTaskSwitchKernelAsm`. -/
def taskSwitchKernelAsm (live : CpuState) (old : Option ℕ) (new : CpuState) : Machine F :=
  (m.saveOldState live old).loadState new

/-- `ResourceLayerTaskSwitchUserAsm`. A push to an address that is not mapped faults in the kernel,
whose handler halts: there is no next state. -/
def taskSwitchUserAsm (live : CpuState) (old : Option ℕ) (new : CpuState) (space : ℕ) :
    Option (Machine F) :=
  if m.Mapped space (taskSwitchPushes new) then
    some (((m.saveOldState live old).storeVirtual space (taskSwitchPushes new)).loadState new)
  else none

/-- A running process that another one takes over from stays ready. -/
def yieldTo (pm : ProcessManager) (id : ℕ) : ProcessManager :=
  if pm.status id = .running then pm.setStatus id .ready else pm

/-- What `RunProcess` does before the switch: the process that is left yields, and the target
becomes the running and the tracked one. -/
def enterProcess (old : Option ℕ) (id : ℕ) : Machine F :=
  { m with
    pm := { (old.elim m.pm (yieldTo m.pm)).setStatus id .running with currentProcessId := id } }

/-- The statuses that `RunProcess` sets when a routine returns to it. -/
def finishRunProcess (id : ℕ) (old : Option ℕ) : Machine F :=
  { m with pm := old.elim m.pm fun current => (yieldTo m.pm id).setStatus current .running }

/-- The switch at the end of `RunProcess`, through `TaskSwitchUser`,
`TaskSwitchKernelCurrentAddressSpace` or `TaskSwitchKernel`. These return at once when the new state
has no instruction or stack pointer, and the first also when there is no address space. -/
def switchProcessor (live : CpuState) (old : Option ℕ) (id : ℕ) : Option (Machine F) :=
  let target := m.pm.processes id
  if target.level = .user ∧ ¬resumesInKernelContext target then
    match target.addressSpace with
    | none => some (m.finishRunProcess id old)
    | some space =>
      if target.state.rip = 0 ∨ target.state.rsp = 0 then some (m.finishRunProcess id old)
      else m.taskSwitchUserAsm live old target.state space
  else if resumesInKernelContext target ∧ target.addressSpace = none then some m
  else if target.state.rip = 0 ∨ target.state.rsp = 0 then some (m.finishRunProcess id old)
  else some (m.taskSwitchKernelAsm live old target.state)

/-- `RunProcess`. -/
def runProcess (live : CpuState) (id : ℕ) : Option (Machine F) :=
  if id < maxProcesses ∧ m.pm.status id ≠ .terminated then
    if m.pm.getCurrentProcess = some id then some m
    else (m.enterProcess m.pm.getCurrentProcess id).switchProcessor live m.pm.getCurrentProcess id
  else some m

/-! ### Interrupts -/

/-- `CaptureCurrentInterruptState`. -/
def captureCurrentInterruptState : Machine F :=
  if m.cpu.InUserMode then
    match m.pm.getRunningProcess with
    | (none, pm) => { m with pm := pm }
    | (some id, pm) =>
      if (pm.processes id).level = .user then { m with pm := pm.modify id (saveState m.cpu) }
      else { m with pm := pm }
  else m

/-- The bytes that the start of a handler pushes on the user stack: the return address. -/
def handlerPushes (id restorer : ℕ) : List (ℕ × UInt8) :=
  let registers := LogicLayer.interruptedRegisters (m.pm.processes id)
  qwordBytes (registers.rsp - 8) (LogicLayer.signalReturnAddress restorer registers.rip)

/-- `SetProcessSignalState`. -/
def startHandler (accessible : UserAccess) (id signal handler restorer : ℕ) : Machine F :=
  match (m.pm.processes id).addressSpace with
  | none => m
  | some space =>
    if LogicLayer.canEnterHandler accessible id
        (LogicLayer.interruptedRegisters (m.pm.processes id)) handler ∧
        m.Mapped space (m.handlerPushes id restorer) then
      (m.storeVirtual space (m.handlerPushes id restorer)).modify id
        (LogicLayer.enterHandler signal handler)
    else m

/-- One effect of `Tick`. -/
def tickEffect : TickEffect → Machine F
  | .update id change => m.modify id change.apply
  | .startHandler accessible id signal handler restorer =>
    m.startHandler accessible id signal handler restorer
  | .kill id => { m with pm := m.pm.killProcess id }

/-- `Tick`. -/
def tick (effects : List TickEffect) : Machine F := effects.foldl tickEffect m

/-- An interrupt: `ISRCOMMON` keeps the registers on the stack of the kernel while `ISRHANDLER`
saves those of a user program, ticks and runs the process that is due. When no other process is run
the registers are restored from the stack. -/
def interrupt (effects : List TickEffect) (live : CpuState) : Option ℕ → Option (Machine F)
  | none => some (m.captureCurrentInterruptState.tick effects)
  | some next => (m.captureCurrentInterruptState.tick effects).runProcess live next

/-! ### What an operation leaves alone -/

/-- A physical byte of the memory of a process. -/
def Owns (id p : ℕ) : Prop := ∃ v, m.physical id v = some p

/-- The memory of a process, its translation and the x87 and SSE registers are the same. -/
structure Untouched (id : ℕ) (m m' : Machine F) : Prop where
  addressSpace : (m'.pm.processes id).addressSpace = (m.pm.processes id).addressSpace
  translate : m'.translate = m.translate
  userAccess : m'.userAccess = m.userAccess
  memory : ∀ p, m.Owns id p → m'.memory p = m.memory p
  floatRegisters : m'.floatRegisters = m.floatRegisters

variable {m} {m' m'' : Machine F} {id next q v p space : ℕ} {live new : CpuState}
  {old : Option ℕ} {stores early late : List (ℕ × UInt8)}

namespace Untouched

protected theorem refl : Untouched id m m := ⟨rfl, rfl, rfl, fun _ _ => rfl, rfl⟩

theorem physical (h : Untouched id m m') : m'.physical id v = m.physical id v := by
  rw [Machine.physical, Machine.physical, h.addressSpace, h.translate, h.userAccess]

theorem owns (h : Untouched id m m') : m'.Owns id p ↔ m.Owns id p :=
  exists_congr fun v => by rw [h.physical]

protected theorem trans (h : Untouched id m m') (h' : Untouched id m' m'') :
    Untouched id m m'' where
  addressSpace := h'.addressSpace.trans h.addressSpace
  translate := h'.translate.trans h.translate
  userAccess := h'.userAccess.trans h.userAccess
  memory p hp := (h'.memory p (h.owns.mpr hp)).trans (h.memory p hp)
  floatRegisters := h'.floatRegisters.trans h.floatRegisters

/-- Only the process table changes, and the process keeps its address space. -/
theorem of_records {pm : ProcessManager}
    (h : (pm.processes id).addressSpace = (m.pm.processes id).addressSpace) :
    Untouched id m { m with pm := pm } :=
  ⟨h, rfl, rfl, fun _ _ => rfl, rfl⟩

theorem modify {f : Process → Process}
    (h : (f (m.pm.processes q)).addressSpace = (m.pm.processes q).addressSpace) :
    Untouched id m (m.modify q f) := by
  refine of_records ?_
  by_cases hq : id = q
  · subst hq
    rw [modify_processes_self, h]
  · rw [modify_processes_of_ne hq]

theorem loadState : Untouched id m (m.loadState new) := ⟨rfl, rfl, rfl, fun _ _ => rfl, rfl⟩

/-- Stores that put in the memory of the process what is there. -/
theorem storeVirtual
    (h : ∀ p, m.Owns id p → m.memory.storeAll (m.physicalStores space stores) p = m.memory p) :
    Untouched id m (m.storeVirtual space stores) :=
  ⟨rfl, rfl, rfl, h, rfl⟩

theorem saveOldState : Untouched id m (m.saveOldState live old) := by
  rcases old with _ | current
  · exact .refl
  · rw [Machine.saveOldState]
    split
    · exact .modify rfl
    · exact .refl

end Untouched

/-! ### The record of a process under a switch -/

theorem setStatus_processes_self {pm : ProcessManager} {status : ProcessState} :
    (pm.setStatus q status).processes q = withStatus status (pm.processes q) :=
  modify_processes_self

theorem setStatus_processes_of_ne {pm : ProcessManager} {status : ProcessState} (h : id ≠ q) :
    (pm.setStatus q status).processes id = pm.processes id :=
  modify_processes_of_ne h

theorem exists_yieldTo {pm : ProcessManager} :
    ∃ status, (yieldTo pm q).processes id = withStatus status (pm.processes id) := by
  rw [yieldTo]
  split
  · by_cases hq : id = q
    · subst hq
      exact ⟨.ready, setStatus_processes_self⟩
    · exact ⟨_, setStatus_processes_of_ne hq⟩
  · exact ⟨_, rfl⟩

/-- Only statuses change before the switch. -/
theorem exists_enterProcess :
    ∃ status, (m.enterProcess old next).pm.processes id =
      withStatus status (m.pm.processes id) := by
  obtain ⟨status, hyield⟩ : ∃ status, (old.elim m.pm (yieldTo m.pm)).processes id =
      withStatus status (m.pm.processes id) := by
    rcases old with _ | current
    · exact ⟨_, rfl⟩
    · exact exists_yieldTo
  by_cases hid : id = next
  · subst hid
    refine ⟨.running, setStatus_processes_self.trans ?_⟩
    rw [hyield]
    rfl
  · exact ⟨status, (setStatus_processes_of_ne hid).trans hyield⟩

namespace Untouched

theorem enterProcess : Untouched id m (m.enterProcess old next) := by
  obtain ⟨status, h⟩ := @exists_enterProcess F m id next old
  have hspace := congrArg Process.addressSpace h
  exact ⟨hspace, rfl, rfl, fun _ _ => rfl, rfl⟩

theorem finishRunProcess : Untouched id m (m.finishRunProcess next old) := by
  rcases old with _ | current
  · exact .refl
  · obtain ⟨status, h⟩ := @exists_yieldTo id next m.pm
    have hspace := congrArg Process.addressSpace h
    refine of_records ?_
    by_cases hid : id = current
    · subst hid
      exact (congrArg Process.addressSpace setStatus_processes_self).trans hspace
    · exact (congrArg Process.addressSpace (setStatus_processes_of_ne hid)).trans hspace

end Untouched

/-! ### The pushes of the kernel -/

theorem mem_qwordBytes {address value : ℕ} {s : ℕ × UInt8} :
    s ∈ qwordBytes address value ↔
      ∃ i < 8, ((address + i) % 2 ^ 64, UInt8.ofNat (value / 256 ^ i)) = s := by
  simp [qwordBytes]

theorem physicalStores_append :
    m.physicalStores space (early ++ late) =
      m.physicalStores space early ++ m.physicalStores space late :=
  List.filterMap_append ..

theorem mem_physicalStores {s : ℕ × UInt8} :
    s ∈ m.physicalStores space stores ↔
      ∃ t ∈ stores, ∃ p, m.translate space t.1 = some p ∧ (p, t.2) = s := by
  simp [physicalStores, List.mem_filterMap]

/-- The addresses of the pushed `rax` are those of the pushed `SS`. -/
theorem exists_mem_interruptReturnFrame {s : ℕ × UInt8}
    (hs : s ∈ m.physicalStores space (qwordBytes (below new.rsp 8) new.rax)) :
    ∃ t ∈ m.physicalStores space (interruptReturnFrame new), t.1 = s.1 := by
  obtain ⟨_, hpush, p, hp, rfl⟩ := mem_physicalStores.mp hs
  obtain ⟨i, hi, rfl⟩ := mem_qwordBytes.mp hpush
  have hss : ((below new.rsp 8 + i) % 2 ^ 64, UInt8.ofNat (new.ss / 256 ^ i)) ∈
      interruptReturnFrame new := by
    simp only [interruptReturnFrame, List.mem_append]
    exact .inl (.inl (.inl (.inl (mem_qwordBytes.mpr ⟨i, hi, rfl⟩))))
  exact ⟨_, mem_physicalStores.mpr ⟨_, hss, p, hp, rfl⟩, rfl⟩

variable (m) in
/-- The frame that `RunProcess` pushes when it returns to the user mode of a process. -/
def frameStores (next : ℕ) : List (ℕ × UInt8) :=
  (m.pm.processes next).addressSpace.elim [] fun space =>
    m.physicalStores space (interruptReturnFrame (m.pm.processes next).state)

variable (m) in
/-- `RunProcess` returns to the user mode of another process. -/
def SwitchesToUser (next : ℕ) : Prop :=
  (next < maxProcesses ∧ m.pm.status next ≠ .terminated) ∧ m.pm.getCurrentProcess ≠ some next ∧
    (m.pm.processes next).level = .user ∧ ¬resumesInKernelContext (m.pm.processes next) ∧
    (m.pm.processes next).state.rip ≠ 0 ∧ (m.pm.processes next).state.rsp ≠ 0

variable (m) in
/-- Bytes that are to be stored are already there, as far as they lie in the memory of a process. -/
def AlreadyThere (id : ℕ) (stores : List (ℕ × UInt8)) : Prop :=
  ∀ s ∈ stores, m.Owns id s.1 → m.memory s.1 = s.2

variable (m) in
/-- If `RunProcess` returns to user mode, its frame is already there. -/
def HarmlessSwitch (id next : ℕ) : Prop :=
  m.SwitchesToUser next → m.AlreadyThere id (m.frameStores next)

namespace Untouched

theorem alreadyThere (h : Untouched id m m') (hstores : m.AlreadyThere id stores) :
    m'.AlreadyThere id stores := by
  intro s hs hp
  rw [h.owns] at hp
  rw [h.memory _ hp, hstores s hs hp]

theorem physicalStores (h : Untouched id m m') :
    m'.physicalStores space stores = m.physicalStores space stores := by
  rw [Machine.physicalStores, Machine.physicalStores, h.translate]

section

variable (h : m.AlreadyThere id (m.physicalStores space (interruptReturnFrame new)))

include h

/-- The pushed `rax` is stored over, so that only the bytes of the frame count. -/
theorem taskSwitchPushes :
    Untouched id m (m.storeVirtual space (TwistedOS.taskSwitchPushes new)) := by
  refine storeVirtual fun p hp => ?_
  rw [TwistedOS.taskSwitchPushes, physicalStores_append]
  refine ByteMemory.storeAll_append_of_covered
    (fun s hs => exists_mem_interruptReturnFrame hs) fun t ht htp => ?_
  subst htp
  exact (h t ht hp).symm

theorem taskSwitchUserAsm (hrun : m.taskSwitchUserAsm live old new space = some m') :
    Untouched id m m' := by
  rw [Machine.taskSwitchUserAsm] at hrun
  split at hrun
  · have hsaved : Untouched id m (m.saveOldState live old) := saveOldState
    obtain rfl := Option.some.inj hrun
    refine (hsaved.trans (taskSwitchPushes (hsaved.alreadyThere ?_))).trans loadState
    rwa [hsaved.physicalStores]
  · exact absurd hrun (by simp)

end

/-- The switch at the end of `RunProcess`. The premise is about the state in which the target
already counts as running. -/
theorem switchProcessor (h : (m.pm.processes next).level = .user →
      ¬resumesInKernelContext (m.pm.processes next) → (m.pm.processes next).state.rip ≠ 0 →
      (m.pm.processes next).state.rsp ≠ 0 → m.AlreadyThere id (m.frameStores next))
    (hrun : m.switchProcessor live old next = some m') : Untouched id m m' := by
  rw [Machine.switchProcessor] at hrun
  split at hrun
  next huser =>
    split at hrun
    next => exact Option.some.inj hrun ▸ finishRunProcess
    next space hspace =>
      split at hrun
      next => exact Option.some.inj hrun ▸ finishRunProcess
      next hstate =>
        obtain ⟨hrip, hrsp⟩ := not_or.mp hstate
        have hframe := h huser.1 huser.2 hrip hrsp
        rw [frameStores, hspace] at hframe
        exact taskSwitchUserAsm hframe hrun
  next =>
    split at hrun
    next => exact Option.some.inj hrun ▸ .refl
    next =>
      split at hrun
      next => exact Option.some.inj hrun ▸ finishRunProcess
      next => exact Option.some.inj hrun ▸ saveOldState.trans loadState

theorem runProcess (h : m.HarmlessSwitch id next) (hrun : m.runProcess live next = some m') :
    Untouched id m m' := by
  rw [Machine.runProcess] at hrun
  split at hrun
  next hlive =>
    split at hrun
    next => exact Option.some.inj hrun ▸ .refl
    next hcurrent =>
      set old := m.pm.getCurrentProcess
      have henter : Untouched id m (m.enterProcess old next) := enterProcess
      obtain ⟨status, hrecord⟩ := @exists_enterProcess F m next next old
      refine henter.trans (switchProcessor (fun hlevel hkernel hrip hrsp => ?_) hrun)
      rw [hrecord] at hlevel hkernel hrip hrsp
      have hframe := henter.alreadyThere (h ⟨hlive, hcurrent, hlevel, hkernel, hrip, hrsp⟩)
      simp only [frameStores, hrecord, henter.physicalStores] at hframe ⊢
      exact hframe
  next => exact Option.some.inj hrun ▸ .refl

end Untouched

/-! ### Interrupts -/

variable (m) in
/-- The bytes that an effect of `Tick` pushes. -/
def tickStores : TickEffect → List (ℕ × UInt8)
  | .startHandler _ id _ _ restorer =>
    (m.pm.processes id).addressSpace.elim [] fun space =>
      m.physicalStores space (m.handlerPushes id restorer)
  | _ => []

/-- Every effect of `Tick` finds the bytes that it pushes already there. -/
def HarmlessTick (id : ℕ) : Machine F → List TickEffect → Prop
  | _, [] => True
  | m, effect :: effects =>
    m.AlreadyThere id (m.tickStores effect) ∧ HarmlessTick id (m.tickEffect effect) effects

namespace Untouched

theorem captureCurrentInterruptState : Untouched id m m.captureCurrentInterruptState := by
  have hkept : (m.pm.getRunningProcess.2.processes id).addressSpace =
      (m.pm.processes id).addressSpace := by rw [getRunningProcess_processes]
  rw [Machine.captureCurrentInterruptState]
  split
  · rcases hrunning : m.pm.getRunningProcess with ⟨_ | running, pm⟩
    · rw [hrunning] at hkept
      exact of_records hkept
    · rw [hrunning] at hkept
      have hfound : Untouched id m { m with pm := pm } := of_records hkept
      dsimp only
      split
      · have hsaved : Untouched id { m with pm := pm }
            (Machine.modify { m with pm := pm } running (saveState m.cpu)) := .modify rfl
        exact hfound.trans hsaved
      · exact hfound
  · exact .refl

theorem startHandler {accessible : UserAccess} {signal handler restorer : ℕ}
    (h : m.AlreadyThere id (m.tickStores (.startHandler accessible q signal handler restorer))) :
    Untouched id m (m.startHandler accessible q signal handler restorer) := by
  rw [Machine.startHandler]
  split
  next => exact .refl
  next space hspace =>
    split
    next =>
      rw [tickStores, hspace] at h
      have hpushed : Untouched id m (m.storeVirtual space (m.handlerPushes q restorer)) :=
        storeVirtual fun p hp => ByteMemory.storeAll_apply_of_agree fun s hs hsp => by
          subst hsp
          exact (h s hs hp).symm
      exact hpushed.trans (modify rfl)
    next => exact .refl

/-- An effect of `Tick` that does not kill the process. -/
theorem tickEffect {effect : TickEffect} (hkill : effect ≠ .kill id)
    (h : m.AlreadyThere id (m.tickStores effect)) : Untouched id m (m.tickEffect effect) := by
  cases effect with
  | update q change => exact modify (change.addressSpace_apply _)
  | startHandler accessible q signal handler restorer => exact startHandler h
  | kill q =>
    have hq : id ≠ q := fun heq => hkill (heq ▸ rfl)
    refine of_records ?_
    rw [killProcess]
    split
    · rw [setProcess_processes_of_ne hq]
    · rfl

theorem tick {effects : List TickEffect} (hkill : .kill id ∉ effects)
    (h : HarmlessTick id m effects) : Untouched id m (m.tick effects) := by
  induction effects generalizing m with
  | nil => exact .refl
  | cons effect effects ih =>
    rw [List.mem_cons, not_or] at hkill
    exact (tickEffect (Ne.symm hkill.1) h.1).trans (ih hkill.2 h.2)

theorem interrupt {effects : List TickEffect} {due : Option ℕ} (hkill : .kill id ∉ effects)
    (htick : HarmlessTick id m.captureCurrentInterruptState effects)
    (hswitch : ∀ next ∈ due,
      (m.captureCurrentInterruptState.tick effects).HarmlessSwitch id next)
    (hrun : m.interrupt effects live due = some m') : Untouched id m m' := by
  have hticked : Untouched id m (m.captureCurrentInterruptState.tick effects) :=
    captureCurrentInterruptState.trans (tick hkill htick)
  rcases due with _ | next
  · exact Option.some.inj hrun ▸ hticked
  · exact hticked.trans (runProcess (hswitch next rfl) hrun)

end Untouched

theorem captureCurrentInterruptState_memory :
    m.captureCurrentInterruptState.memory = m.memory := by
  rw [captureCurrentInterruptState]
  split
  · rcases m.pm.getRunningProcess with ⟨_ | running, pm⟩
    · rfl
    · dsimp only
      split <;> rfl
  · rfl

/-! ### The statuses that a switch sets -/

/-- `LogicLayer.runProcess` is what `RunProcess` does before it switches the processor. -/
theorem enterProcess_pm {logic : LogicLayer} (hpm : logic.pm = m.pm)
    (hlive : next < maxProcesses ∧ m.pm.status next ≠ .terminated)
    (hcurrent : m.pm.getCurrentProcess ≠ some next) :
    (m.enterProcess m.pm.getCurrentProcess next).pm = (logic.runProcess next).pm := by
  have hlogic : logic.Live next := by
    rw [LogicLayer.Live, LogicLayer.status, LogicLayer.processes, hpm]
    exact hlive
  rw [LogicLayer.runProcess, if_pos hlogic, hpm]
  rcases hfound : m.pm.getCurrentProcess with _ | current
  · simp only [LogicLayer.switchTo, hpm]
    rfl
  · have hne : current ≠ next := fun heq => hcurrent (heq ▸ hfound)
    simp only [if_neg hne, LogicLayer.switchTo, LogicLayer.yieldProcess, LogicLayer.status,
      LogicLayer.processes, hpm]
    rfl

theorem saveOldState_status :
    (m.saveOldState live old).pm.status q = m.pm.status q ∧
      (m.saveOldState live old).pm.currentProcessId = m.pm.currentProcessId := by
  rcases old with _ | current
  · exact ⟨rfl, rfl⟩
  · rw [saveOldState]
    split
    · refine ⟨?_, rfl⟩
      by_cases hq : q = current
      · subst hq
        have hself : (m.modify q (saveState live)).pm.processes q =
            saveState live (m.pm.processes q) := modify_processes_self
        have hstatus := congrArg Process.status hself
        exact hstatus
      · exact congrArg Process.status (modify_processes_of_ne hq)
    · exact ⟨rfl, rfl⟩

/-- The processor switches to every process that has an instruction and a stack pointer and, if it
is a user process, an address space. -/
theorem switchProcessor_status (hrip : (m.pm.processes next).state.rip ≠ 0)
    (hrsp : (m.pm.processes next).state.rsp ≠ 0)
    (hspace : (m.pm.processes next).level = .user → (m.pm.processes next).addressSpace ≠ none)
    (hrun : m.switchProcessor live old next = some m') :
    m'.pm.status q = m.pm.status q ∧ m'.pm.currentProcessId = m.pm.currentProcessId ∧
      m'.cpu = (m.pm.processes next).state := by
  have hstate : ¬((m.pm.processes next).state.rip = 0 ∨ (m.pm.processes next).state.rsp = 0) :=
    not_or.mpr ⟨hrip, hrsp⟩
  obtain ⟨hstatus, hcurrent⟩ := @saveOldState_status F m q live old
  simp only [switchProcessor, if_neg hstate] at hrun
  split at hrun
  next huser =>
    split at hrun
    next hnone => exact absurd hnone (hspace huser.1)
    next =>
      rw [taskSwitchUserAsm] at hrun
      split at hrun
      · exact Option.some.inj hrun ▸ ⟨hstatus, hcurrent, rfl⟩
      · exact absurd hrun (by simp)
  next =>
    split at hrun
    next hkernel => exact absurd hkernel.2 (hspace hkernel.1.1)
    next => exact Option.some.inj hrun ▸ ⟨hstatus, hcurrent, rfl⟩

/-- A switch sets the statuses and the tracked process as `LogicLayer.runProcess` does, and loads
the saved registers of the target. -/
theorem runProcess_status {logic : LogicLayer} (hpm : logic.pm = m.pm)
    (hlive : next < maxProcesses ∧ m.pm.status next ≠ .terminated)
    (hcurrent : m.pm.getCurrentProcess ≠ some next)
    (hrip : (m.pm.processes next).state.rip ≠ 0) (hrsp : (m.pm.processes next).state.rsp ≠ 0)
    (hspace : (m.pm.processes next).level = .user → (m.pm.processes next).addressSpace ≠ none)
    (hrun : m.runProcess live next = some m') :
    m'.pm.status q = (logic.runProcess next).status q ∧
      m'.pm.currentProcessId = (logic.runProcess next).pm.currentProcessId ∧
      m'.cpu = (m.pm.processes next).state := by
  rw [runProcess, if_pos hlive, if_neg hcurrent] at hrun
  have hentered := enterProcess_pm hpm hlive hcurrent
  obtain ⟨status, hrecord⟩ := @exists_enterProcess F m next next m.pm.getCurrentProcess
  have hswitched := @switchProcessor_status F _ m' next q live _ (by rwa [hrecord])
    (by rwa [hrecord]) (by rwa [hrecord]) hrun
  rwa [hrecord, hentered] at hswitched

/-! ### What a switch stores -/

theorem saveOldState_memory :
    (m.saveOldState live old).memory = m.memory ∧
      (m.saveOldState live old).translate = m.translate := by
  rcases old with _ | current
  · exact ⟨rfl, rfl⟩
  · rw [saveOldState]
    split <;> exact ⟨rfl, rfl⟩

/-- A switch to user mode stores `rax` and the frame, and nothing else. -/
theorem runProcess_memory (huser : m.SwitchesToUser next)
    (hspace : (m.pm.processes next).addressSpace = some space)
    (hrun : m.runProcess live next = some m') :
    m'.memory = m.memory.storeAll
      (m.physicalStores space (taskSwitchPushes (m.pm.processes next).state)) := by
  obtain ⟨hlive, hcurrent, hlevel, hkernel, hrip, hrsp⟩ := huser
  rw [runProcess, if_pos hlive, if_neg hcurrent] at hrun
  set old := m.pm.getCurrentProcess
  obtain ⟨status, hrecord⟩ := @exists_enterProcess F m next next old
  have hbranch : ((m.enterProcess old next).pm.processes next).level = .user ∧
      ¬resumesInKernelContext ((m.enterProcess old next).pm.processes next) := by
    rw [hrecord]
    exact ⟨hlevel, hkernel⟩
  rw [switchProcessor, if_pos hbranch, hrecord] at hrun
  simp only [withStatus, hspace, hrip, hrsp, or_self, if_false] at hrun
  rw [taskSwitchUserAsm] at hrun
  split at hrun
  · obtain rfl := Option.some.inj hrun
    obtain ⟨hmemory, htranslate⟩ := @saveOldState_memory F (m.enterProcess old next) live old
    simp only [loadState, storeVirtual, physicalStores, hmemory, htranslate]
    rfl
  · exact absurd hrun (by simp)

/-- When the 40 bytes of the frame lie at different physical addresses, a switch leaves the memory
of a process as it is exactly when it is harmless. -/
theorem untouched_iff_harmlessSwitch (hdistinct : ((m.frameStores next).map Prod.fst).Nodup)
    (hrun : m.runProcess live next = some m') : Untouched id m m' ↔ m.HarmlessSwitch id next := by
  refine ⟨fun h huser s hs howned => ?_, fun h => .runProcess h hrun⟩
  rcases hspace : (m.pm.processes next).addressSpace with _ | space
  · simp [frameStores, hspace] at hs
  · rw [← h.memory _ howned, runProcess_memory huser hspace hrun, taskSwitchPushes,
      physicalStores_append, ByteMemory.storeAll_append]
    have hframe : m.frameStores next =
        m.physicalStores space (interruptReturnFrame (m.pm.processes next).state) := by
      rw [frameStores, hspace, Option.elim_some]
    rw [hframe] at hs hdistinct
    refine ByteMemory.storeAll_apply_of_mem ⟨s, hs, rfl⟩ fun t ht hts => ?_
    exact congrArg Prod.snd (List.inj_on_of_nodup_map hdistinct ht hs hts)

end Machine

end TwistedOS
