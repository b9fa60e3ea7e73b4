import TwistedOS.Arch.TaskSwitch

/-!
# What preemption leaves of a process

A run of the machine is a sequence of events: instructions of user programs, system calls,
interrupts, and switches that a blocking system call makes. A preemption of a process is a run that
starts with an interrupt of its user mode and ends when the processor is back in it. It should leave
no trace: a byte of the memory of the process that neither an instruction nor a system call wrote
has its value, and so have the x87 and SSE registers.

It does leave traces. Returning to the user mode of a process, the kernel pushes 40 bytes below the
stack pointer of the program, where the System V ABI reserves a red zone; `Tick` pushes the return
address of a signal handler there; and the x87 and SSE registers are those that the last program
left. When these stores find their bytes already there and no other program changes the registers,
no trace is left.

System calls are not limited here: one may change the process table, the page tables and the memory
in any way, except for the x87 and SSE registers, which no kernel code mentions.

## Main definitions

* `Instruction`, `SystemCallEffect`, `Event`, `Machine.step`.
* `Machine.WrittenDuring`, `Machine.Preemption`, `Machine.LeavesNoTrace`, `Machine.HarmlessRun`.

## Main results

* `Machine.Preemption.leavesNoTrace`, `Machine.not_leavesNoTrace_of_preemption`.
-/

namespace TwistedOS

/-- What one instruction of a user program does. -/
structure Instruction (F : Type*) where
  cpu : CpuState
  floatRegisters : F
  stores : List (ℕ × UInt8)

/-- What the kernel does in a system call: the new process table and page tables, the registers with
which it goes on, and the bytes that it stores at physical addresses. -/
structure SystemCallEffect where
  pm : ProcessManager
  cpu : CpuState
  translate : ℕ → ℕ → Option ℕ
  userAccess : ℕ → ℕ → Bool
  stores : List (ℕ × UInt8)

/-- The events of a run. -/
inductive Event (F : Type*) where
  | execute (instruction : Instruction F)
  | systemCall (effect : SystemCallEffect)
  | interrupt (effects : List TickEffect) (live : CpuState) (due : Option ℕ)
  | switch (live : CpuState) (next : ℕ)

namespace Machine

variable {F : Type*} (m : Machine F)

/-- The address space of the tracked process. -/
def currentAddressSpace : Option ℕ :=
  m.pm.getCurrentProcess.bind fun id => (m.pm.processes id).addressSpace

/-- An instruction runs in user mode and stores to addresses that a program may use. -/
def execute (instruction : Instruction F) : Option (Machine F) :=
  match m.currentAddressSpace with
  | none => none
  | some space =>
    if m.cpu.InUserMode ∧ m.Mapped space instruction.stores ∧
        ∀ s ∈ instruction.stores, m.userAccess space s.1 then
      some { m.storeVirtual space instruction.stores with
        cpu := instruction.cpu
        floatRegisters := instruction.floatRegisters }
    else none

/-- The kernel works in a system call. -/
def systemCall (effect : SystemCallEffect) : Machine F :=
  { m with
    pm := effect.pm
    cpu := effect.cpu
    translate := effect.translate
    userAccess := effect.userAccess
    memory := m.memory.storeAll effect.stores }

/-- One event. There is no next state when an event cannot happen and when the kernel halts. -/
def step : Event F → Option (Machine F)
  | .execute instruction => m.execute instruction
  | .systemCall effect => some (m.systemCall effect)
  | .interrupt effects live due => m.interrupt effects live due
  | .switch live next => m.runProcess live next

/-! ### Preemptions and their traces -/

/-- The physical addresses that an instruction of a program or a system call stores to. -/
def writtenAddresses : Event F → List ℕ
  | .execute instruction =>
    m.currentAddressSpace.elim [] fun space =>
      (m.physicalStores space instruction.stores).map Prod.fst
  | .systemCall effect => effect.stores.map Prod.fst
  | _ => []

/-- A program that shares a byte of the memory of a process writes it, or a system call writes it or
maps something else there. -/
def Writes (id v : ℕ) : Event F → Prop
  | .systemCall effect => (m.systemCall effect).physical id v ≠ m.physical id v ∨
      ∃ p ∈ m.physical id v, p ∈ m.writtenAddresses (.systemCall effect)
  | event => ∃ p ∈ m.physical id v, p ∈ m.writtenAddresses event

/-- A program or a system call writes a byte of the memory of a process during a run. -/
inductive WrittenDuring (id v : ℕ) : Machine F → List (Event F) → Prop
  | now {m event events} : m.Writes id v event → WrittenDuring id v m (event :: events)
  | later {m m' event events} : m.step event = some m' → WrittenDuring id v m' events →
      WrittenDuring id v m (event :: events)

/-- An event kills a process. -/
def Event.Kills (id : ℕ) : Event F → Prop
  | .interrupt effects _ _ => .kill id ∈ effects
  | _ => False

/-- A run in which a process stays alive and does not run before the end, when it is back in user
mode. -/
inductive Suspension (id : ℕ) : Machine F → List (Event F) → Machine F → Prop
  | resumed {m m' event} : m.step event = some m' → ¬Event.Kills id event →
      m'.pm.currentProcessId = id → m'.cpu.InUserMode → Suspension id m [event] m'
  | suspended {m m' m'' event events} : m.step event = some m' → ¬Event.Kills id event →
      m'.pm.currentProcessId ≠ id → Suspension id m' events m'' →
      Suspension id m (event :: events) m''

/-- A preemption of a process: a run from an interrupt of its user mode until it is resumed. -/
structure Preemption (id : ℕ) (m : Machine F) (events : List (Event F)) (m' : Machine F) : Prop where
  running : m.pm.getRunningProcess.1 = some id
  user : (m.pm.processes id).level = .user
  inUserMode : m.cpu.InUserMode
  interrupted : ∃ effects live due, events.head? = some (.interrupt effects live due)
  suspension : Suspension id m events m'

/-- A run leaves no trace on a process: what no program and no system call wrote of its memory is
unchanged, and so are the x87 and SSE registers. -/
def LeavesNoTrace (id : ℕ) (m : Machine F) (events : List (Event F)) (m' : Machine F) : Prop :=
  (∀ v p, m.physical id v = some p → ¬WrittenDuring id v m events →
    m'.physical id v = some p ∧ m'.memory p = m.memory p) ∧
  m'.floatRegisters = m.floatRegisters

/-- An event is harmless for a suspended process: an instruction leaves the x87 and SSE registers as
they are, and the pushes of the kernel find their bytes already in the memory of the process. -/
def Harmless (id : ℕ) : Event F → Prop
  | .execute instruction => instruction.floatRegisters = m.floatRegisters
  | .systemCall _ => True
  | .interrupt effects _ due => HarmlessTick id m.captureCurrentInterruptState effects ∧
      ∀ next ∈ due, (m.captureCurrentInterruptState.tick effects).HarmlessSwitch id next
  | .switch _ next => m.HarmlessSwitch id next

/-- All events of a run are harmless. -/
def HarmlessRun (id : ℕ) : Machine F → List (Event F) → Prop
  | _, [] => True
  | m, event :: events => m.Harmless id event ∧ ∀ m' ∈ m.step event, HarmlessRun id m' events

variable {m} {m' m'' : Machine F} {id v p : ℕ} {event : Event F} {events : List (Event F)}

/-- A harmless event keeps every byte of the memory of a process that it does not write, and the x87
and SSE registers. -/
theorem step_of_harmless (hrun : m.step event = some m') (hkill : ¬Event.Kills id event)
    (h : m.Harmless id event) :
    (∀ v p, m.physical id v = some p → ¬m.Writes id v event →
      m'.physical id v = some p ∧ m'.memory p = m.memory p) ∧
    m'.floatRegisters = m.floatRegisters := by
  have huntouched (h : Untouched id m m') :
      (∀ v p, m.physical id v = some p → ¬m.Writes id v event →
        m'.physical id v = some p ∧ m'.memory p = m.memory p) ∧
      m'.floatRegisters = m.floatRegisters :=
    ⟨fun v p hp _ => ⟨h.physical.trans hp, h.memory p ⟨v, hp⟩⟩, h.floatRegisters⟩
  cases event with
  | execute instruction =>
    rw [step, execute] at hrun
    split at hrun
    · exact absurd hrun (by simp)
    next space hspace =>
      split at hrun
      next =>
        obtain rfl := Option.some.inj hrun
        refine ⟨fun v p hp hwrites => ⟨hp, ?_⟩, h⟩
        refine ByteMemory.storeAll_apply_of_agree fun s hs hsp => ?_
        refine absurd ⟨p, hp, ?_⟩ hwrites
        rw [writtenAddresses, hspace]
        exact List.mem_map.mpr ⟨s, hs, hsp⟩
      next => exact absurd hrun (by simp)
  | systemCall effect =>
    obtain rfl := Option.some.inj hrun
    refine ⟨fun v p hp hwrites => ?_, rfl⟩
    obtain ⟨hsame, hstores⟩ := not_or.mp hwrites
    refine ⟨(not_not.mp hsame).trans hp, ?_⟩
    refine ByteMemory.storeAll_apply_of_agree fun s hs hsp => ?_
    exact absurd ⟨p, hp, List.mem_map.mpr ⟨s, hs, hsp⟩⟩ hstores
  | interrupt effects live due => exact huntouched (.interrupt hkill h.1 h.2 hrun)
  | switch live next => exact huntouched (.runProcess h hrun)

/-- A suspension whose events are harmless leaves no trace. -/
theorem Suspension.unchanged (h : Suspension id m events m') (hevents : HarmlessRun id m events) :
    LeavesNoTrace id m events m' := by
  induction h with
  | resumed hrun hkill _ _ =>
    obtain ⟨hbytes, hfloat⟩ := step_of_harmless hrun hkill hevents.1
    exact ⟨fun v p hp hwritten => hbytes v p hp fun hw => hwritten (.now hw), hfloat⟩
  | suspended hrun hkill _ _ ih =>
    obtain ⟨hbytes, hfloat⟩ := step_of_harmless hrun hkill hevents.1
    obtain ⟨hlater, hfloatLater⟩ := ih (hevents.2 _ hrun)
    refine ⟨fun v p hp hwritten => ?_, hfloatLater.trans hfloat⟩
    obtain ⟨hphysical, hbyte⟩ := hbytes v p hp fun hw => hwritten (.now hw)
    obtain ⟨hend, hkept⟩ := hlater v p hphysical fun hw => hwritten (.later hrun hw)
    exact ⟨hend, hkept.trans hbyte⟩

/-- A preemption whose events are harmless leaves no trace: of the memory of the process only what a
program or a system call has written changes, and its x87 and SSE registers are as they were. -/
theorem Preemption.leavesNoTrace (h : Preemption id m events m')
    (hevents : HarmlessRun id m events) : LeavesNoTrace id m events m' :=
  h.suspension.unchanged hevents

end Machine

/-! ### Two programs -/

namespace Machine

section Examples

variable {m m' m'' : Machine ℕ} {id v next : ℕ} {event : Event ℕ} {events : List (Event ℕ)}

/-- The registers of a program that jumps to its own instruction. -/
def spinningState : CpuState :=
  { rsp := 0x5800, rip := 0x5000, rflags := 0x202, cs := userCs, ss := userSs }

/-- Two programs, each with a page of its own, of which the first runs. -/
def twoPrograms (memory : ByteMemory) : Machine ℕ where
  pm :=
    { processes := fun id =>
        if id = 1 then { status := .running, level := .user, addressSpace := some 1 }
        else if id = 2 then
          { status := .ready, level := .user, addressSpace := some 2, state := spinningState }
        else {}
      currentProcessId := 1 }
  cpu := spinningState
  floatRegisters := 0
  memory := memory
  translate space v := if 0x5000 ≤ v ∧ v < 0x6000 then some (space * 0x10000 + v) else none
  userAccess _ v := 0x5000 ≤ v ∧ v < 0x6000

/-- The bytes below the stack pointers of both programs after the kernel has returned to each. -/
def returnedMemory : ByteMemory :=
  ByteMemory.storeAll (fun _ => 0)
    ((twoPrograms fun _ => 0).physicalStores 1 (interruptReturnFrame spinningState) ++
      (twoPrograms fun _ => 0).physicalStores 2 (interruptReturnFrame spinningState))

theorem untouched_iff_harmlessSwitch_twoPrograms :
    Untouched 1 (twoPrograms returnedMemory)
        (((twoPrograms returnedMemory).runProcess spinningState 2).get (by decide +kernel)) ↔
      (twoPrograms returnedMemory).HarmlessSwitch 1 2 :=
  untouched_iff_harmlessSwitch (by decide +kernel) (Option.some_get _).symm

theorem runProcess_status_twoPrograms :
    (((twoPrograms returnedMemory).runProcess spinningState 2).get (by decide +kernel)).cpu =
      spinningState :=
  (@runProcess_status _ _ _ 2 1 spinningState { pm := (twoPrograms returnedMemory).pm } rfl
    (by decide) (by decide +kernel) (by decide) (by decide) (fun _ => by decide)
    (Option.some_get _).symm).2.2

/-- A timer interrupt at which a process is due. -/
def timerInterrupt (next : ℕ) : Event ℕ := .interrupt [] {} (some next)

/-- An instruction that only changes the x87 and SSE registers. -/
def floatInstruction (floatRegisters : ℕ) : Event ℕ :=
  .execute { cpu := spinningState, floatRegisters := floatRegisters, stores := [] }

/-- The machine after an event, unchanged by one that cannot happen. -/
def after (m : Machine ℕ) (event : Event ℕ) : Machine ℕ := (m.step event).getD m

theorem step_after (h : (m.step event).isSome) : m.step event = some (m.after event) := by
  obtain ⟨m', hm'⟩ := Option.isSome_iff_exists.mp h
  rw [after, hm', Option.getD_some]

theorem not_writtenDuring_of_interrupts (h : ∀ event ∈ events, ∃ next, event = timerInterrupt next) :
    ¬WrittenDuring id v m events := by
  intro hwritten
  induction hwritten with
  | now hwrites =>
    obtain ⟨next, rfl⟩ := h _ (List.mem_cons_self ..)
    obtain ⟨p, -, hp⟩ := hwrites
    exact absurd hp List.not_mem_nil
  | later _ _ ih => exact ih fun event hevent => h event (List.mem_cons_of_mem _ hevent)

/-- Two timer interrupts preempt the first program and resume it. -/
theorem preemption_of_timerInterrupts (hrunning : m.pm.getRunningProcess.1 = some 1)
    (huser : (m.pm.processes 1).level = .user) (hmode : m.cpu.InUserMode)
    (hleave : m.step (timerInterrupt 2) = some m') (hleft : m'.pm.currentProcessId ≠ 1)
    (hreturn : m'.step (timerInterrupt 1) = some m'') (hback : m''.pm.currentProcessId = 1)
    (hbackMode : m''.cpu.InUserMode) :
    Preemption 1 m [timerInterrupt 2, timerInterrupt 1] m'' where
  running := hrunning
  user := huser
  inUserMode := hmode
  interrupted := ⟨_, _, _, rfl⟩
  suspension := .suspended hleave List.not_mem_nil hleft
    (.resumed hreturn List.not_mem_nil hback hbackMode)

/-- A switch at a timer interrupt is harmless when every byte of its frame is there. -/
theorem harmless_timerInterrupt
    (h : ∀ s ∈ m.captureCurrentInterruptState.frameStores next, m.memory s.1 = s.2) :
    m.Harmless id (timerInterrupt next) := by
  refine ⟨trivial, fun target htarget _ s hs _ => ?_⟩
  obtain rfl : next = target := Option.some.inj htarget
  exact (congrFun captureCurrentInterruptState_memory s.1).trans (h s hs)

/-- Both programs spin: each return pushes what the last one pushed. -/
theorem Preemption.leavesNoTrace_spinning :
    ∃ m', Preemption 1 (twoPrograms returnedMemory) [timerInterrupt 2, timerInterrupt 1] m' ∧
      LeavesNoTrace 1 (twoPrograms returnedMemory) [timerInterrupt 2, timerInterrupt 1] m' := by
  have hleave := @step_after (twoPrograms returnedMemory) (timerInterrupt 2) (by decide +kernel)
  have hreturn := @step_after ((twoPrograms returnedMemory).after (timerInterrupt 2))
    (timerInterrupt 1) (by decide +kernel)
  have hpreempted := preemption_of_timerInterrupts (by decide +kernel) rfl (by decide) hleave
    (by decide +kernel) hreturn (by decide +kernel) (by decide +kernel)
  refine ⟨_, hpreempted, hpreempted.leavesNoTrace ⟨?_, fun m' hm' => ?_⟩⟩
  · exact harmless_timerInterrupt (by decide +kernel)
  · obtain rfl := Option.some.inj (hleave.symm.trans hm')
    exact ⟨harmless_timerInterrupt (by decide +kernel), fun _ _ => trivial⟩

/-- A program that keeps a zero below its stack pointer finds the frame of `iretq` there after it
was preempted, and a program that keeps a value in an SSE register finds that of another program. -/
theorem not_leavesNoTrace_of_preemption :
    (∃ m', Preemption 1 (twoPrograms fun _ => 0) [timerInterrupt 2, timerInterrupt 1] m' ∧
      m'.floatRegisters = 0 ∧
      ¬LeavesNoTrace 1 (twoPrograms fun _ => 0) [timerInterrupt 2, timerInterrupt 1] m') ∧
    ∃ m', Preemption 1 (twoPrograms returnedMemory)
        [timerInterrupt 2, floatInstruction 7, timerInterrupt 1] m' ∧
      ¬LeavesNoTrace 1 (twoPrograms returnedMemory)
        [timerInterrupt 2, floatInstruction 7, timerInterrupt 1] m' := by
  constructor
  · have hleave := @step_after (twoPrograms fun _ => 0) (timerInterrupt 2) (by decide +kernel)
    have hreturn := @step_after ((twoPrograms fun _ => 0).after (timerInterrupt 2))
      (timerInterrupt 1) (by decide +kernel)
    have hpreempted := preemption_of_timerInterrupts (by decide +kernel) rfl (by decide) hleave
      (by decide +kernel) hreturn (by decide +kernel) (by decide +kernel)
    refine ⟨_, hpreempted, by decide +kernel, fun htrace => ?_⟩
    have hbyte := (htrace.1 0x57F8 0x157F8 (by decide +kernel)
      (not_writtenDuring_of_interrupts (by simp))).2
    exact absurd hbyte (by decide +kernel)
  · have hleave := @step_after (twoPrograms returnedMemory) (timerInterrupt 2) (by decide +kernel)
    have hfloat := @step_after ((twoPrograms returnedMemory).after (timerInterrupt 2))
      (floatInstruction 7) (by decide +kernel)
    have hreturn := @step_after (((twoPrograms returnedMemory).after (timerInterrupt 2)).after
      (floatInstruction 7)) (timerInterrupt 1) (by decide +kernel)
    refine ⟨_, ⟨by decide +kernel, rfl, by decide, ⟨_, _, _, rfl⟩, .suspended hleave
      List.not_mem_nil (by decide +kernel) (.suspended hfloat not_false (by decide +kernel)
      (.resumed hreturn List.not_mem_nil (by decide +kernel) (by decide +kernel)))⟩,
      fun htrace => ?_⟩
    exact absurd htrace.2 (by decide +kernel)

end Examples

end Machine

end TwistedOS
