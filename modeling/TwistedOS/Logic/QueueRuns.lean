import TwistedOS.Logic.ExactQueues

/-!
# Runs of the process operations

A run is any sequence of calls to the operations of the logic layer and to `vfork` and `clone`,
with changes of the other fields of the process records between them. In a run whose steps are all
*safe*, the queues are exact in every state reached.

A step is unsafe when it wakes or unblocks a process that still has an entry in the terminal queue:
`WakeProcess`, `UnblockProcess` and the report of a child's exit remove the entry of the sleep queue
but leave that of the terminal queue. It is also unsafe when it hands a process that is queued
already, or that still has an entry in a wait queue, to `AddProcessToReadyQueue`.

## Main definitions

* `ProcessCall`, `ProcessCall.run`, `ProcessCall.Safe`, `ProcessCall.SafelyReachable`.

## Main results

* `ProcessCall.SafelyReachable.queuesExact` — the queues are exact.
-/

namespace TwistedOS

open Function

namespace LogicLayer

variable {logic : LogicLayer} {id p : ℕ}

namespace QueuesExact

/-- A process in a free slot becomes ready and is queued. -/
theorem pushFresh (h : logic.QueuesExact) {created : LogicLayer} (hlt : id < maxProcesses)
    (hfree : logic.status id = .terminated)
    (hstatus : created.status = update logic.status id .ready)
    (hsched : created.sched = logic.sched) (hsync : created.sync = logic.sync)
    (hcurrent : created.pm.currentProcessId = logic.pm.currentProcessId) :
    (created.pushReady id).QueuesExact := by
  have hready := h.toReady hlt (.inr hfree) (h.notMem_waiting (by simp [hfree]))
  rw [← hstatus, ← hcurrent, ← hsched] at hready
  have hwaiting : (created.pushReady id).waiting = logic.waiting := by
    rw [waiting, waiting, ← hsync]
    rfl
  rw [← hwaiting] at hready
  exact hready

/-- A process in a free slot was made ready and is killed before it is queued. -/
theorem killFresh (h : logic.QueuesExact) {created : LogicLayer}
    (hlt : id < maxProcesses) (hfree : logic.status id = .terminated)
    (hstatus : created.status = update logic.status id .ready)
    (hsched : created.sched = logic.sched) (hsync : created.sync = logic.sync)
    (hcurrent : created.pm.currentProcessId = logic.pm.currentProcessId)
    (hnone : created.NoChildWaitOnTTY) (exitStatus : ℕ) :
    (created.killProcess id exitStatus).QueuesExact := by
  have hready : logic.sched.readyQueue.erase id = logic.sched.readyQueue := by
    refine List.erase_of_not_mem ?_
    rw [h.mem_ready, hfree]
    simp
  have hrunning {q : ℕ} (hq : created.status q = .running) : logic.status q = .running := by
    have hqid : q ≠ id := by
      rintro rfl
      rw [hstatus, update_self] at hq
      exact absurd hq (by simp)
    rwa [hstatus, update_of_ne hqid] at hq
  have hdead : (((created.freeRecord id).dropReady id).removeWaits id).QueuesExact := by
    have hstatusDead : (((created.freeRecord id).dropReady id).removeWaits id).status =
        logic.status := by
      refine (status_freeRecord fun hle => absurd hlt (by omega)).trans ?_
      rw [hstatus, update_idem, ← hfree, update_eq_self]
    have hreadyDead : (((created.freeRecord id).dropReady id).removeWaits id).sched.readyQueue =
        logic.sched.readyQueue := by
      rw [← hready, ← hsched]
      exact dropReady_readyQueue
    have hwaitingDead :
        (((created.freeRecord id).dropReady id).removeWaits id).waiting.Subperm logic.waiting := by
      have hsub : (((created.freeRecord id).dropReady id).removeWaits id).waiting.Subperm
          created.waiting := waiting_removeWaits_subperm
      rwa [waiting, waiting, hsync] at hsub
    rw [QueuesExact, hstatusDead, hreadyDead]
    refine { h.of_perm (.refl _) hwaitingDead with running_eq := fun q hq => ?_ }
    have hcreated : created.status q = .running := by
      have hqid : q ≠ id := by
        rintro rfl
        rw [hfree] at hq
        exact absurd hq (by simp)
      rwa [hstatus, update_of_ne hqid]
    refine (ProcessManager.tracked_of_running (fun q hq => ?_)
      (h.lt_of_ne_terminated (by simp [hq])) hcreated).trans freeRecord_currentProcessId.symm
    rw [hcurrent]
    exact h.running_eq q (hrunning hq)
  have hfewer : FewerTTYWaits created ((created.freeRecord id).dropReady id) :=
    FewerTTYWaits.freeRecord.congr rfl rfl
  exact hdead.reportChildExit ((hfewer.trans .removeWaits).noChildWaitOnTTY hnone) _ _

theorem createKernelProcess (h : logic.QueuesExact) (state : CpuState) :
    (logic.createKernelProcess state).QueuesExact := by
  rw [LogicLayer.createKernelProcess]
  rcases hcreate : logic.pm.createKernelProcess state with _ | ⟨id, pm⟩
  · exact h
  · obtain ⟨hlt, hfree, rfl⟩ := ProcessManager.createKernelProcess_eq_some hcreate
    exact h.pushFresh hlt hfree (status_modify fun _ => _) rfl rfl rfl

end QueuesExact

/-- A created child takes a free slot with the record that was made for it. -/
theorem createChild_eq_some {state : CpuState} {addressSpace : ℕ} {f : Process → Process}
    {created : LogicLayer} (h : logic.createChild state addressSpace f = some (id, created)) :
    id < maxProcesses ∧ logic.status id = .terminated ∧ created = logic.modify id fun _ =>
      f (initializeProcessEntry id .ready .user (some addressSpace) state) := by
  obtain ⟨⟨slot, pm⟩, hcreate, heq⟩ := Option.map_eq_some_iff.mp h
  obtain ⟨rfl, rfl⟩ := Prod.mk.inj heq
  obtain ⟨hlt, hfree, rfl⟩ := ProcessManager.createUserProcess_eq_some hcreate
  refine ⟨hlt, hfree, ?_⟩
  rw [LogicLayer.modify, ProcessManager.modify, ProcessManager.modify,
    ProcessManager.setProcess_processes_self]
  exact congrArg (fun processes =>
    { logic with pm := { logic.pm with processes := processes } }) (update_idem ..)

namespace QueuesExact

section

variable (h : logic.QueuesExact)

include h

theorem createUserProcess (state : CpuState) : (logic.createUserProcess state).QueuesExact := by
  rw [LogicLayer.createUserProcess]
  split
  next id created hcreate =>
    obtain ⟨hlt, hfree, rfl⟩ := createChild_eq_some hcreate
    exact h.pushFresh hlt hfree (status_modify fun _ => _) rfl rfl rfl
  next => exact h

theorem finishCopy (hnone : logic.NoChildWaitOnTTY) (hlt : id < maxProcesses)
    (hfree : logic.status id = .terminated) {process : Process} (hstatus : process.status = .ready)
    (hchild : process.waitingForChild = false) (signalActions : Option (ℕ → ProcessSignalAction))
    (outcome : CopyOutcome) :
    ((logic.modify id fun _ => process).takeAddressSpace.finishCopy id signalActions
      outcome).2.QueuesExact := by
  have hcreated : (logic.modify id fun _ => process).takeAddressSpace.status =
      update logic.status id .ready := by
    rw [← hstatus]
    exact status_modify fun _ => process
  rw [LogicLayer.finishCopy]
  split_ifs
  · refine h.pushFresh hlt hfree ?_ rfl rfl rfl
    rw [← hcreated]
    exact status_modify_of_eq rfl
  · have hfewer : FewerTTYWaits logic (logic.modify id fun _ => process) :=
      .modify fun h => absurd (hchild.symm.trans h) (by simp)
    exact h.killFresh hlt hfree hcreated rfl rfl rfl
      ((hfewer.congr rfl rfl).noChildWaitOnTTY hnone) _

theorem copyProcess (hnone : logic.NoChildWaitOnTTY) (outcome : CopyOutcome) :
    (logic.copyProcess id outcome).2.QueuesExact := by
  rw [LogicLayer.copyProcess]
  split_ifs
  · split
    next => exact h
    next childId created hcreate =>
      obtain ⟨hlt, hfree, rfl⟩ := createChild_eq_some hcreate
      exact h.finishCopy hnone hlt hfree rfl rfl _ outcome
  · exact h

theorem addProcessToReadyQueue
    (hsafe : logic.Live id → logic.status id = .blocked ∧ id ∉ logic.waiting) :
    (logic.addProcessToReadyQueue id).QueuesExact := by
  rw [LogicLayer.addProcessToReadyQueue]
  split_ifs with hlive hblocked
  · have hready := h.toReady hlive.1 (.inl hblocked) (hsafe hlive).2
    rw [← status_setStatus] at hready
    exact hready
  · exact absurd (hsafe hlive).1 hblocked
  · exact h

/-- The end of `RunProcess` changes nothing when the resumed process is the running one. -/
theorem finishRunProcess (hcurrent : logic.status p = .running) (target : ℕ) :
    (logic.finishRunProcess target p).QueuesExact := by
  have hstatus : (logic.finishRunProcess target p).status = logic.status := by
    rw [LogicLayer.finishRunProcess]
    split_ifs with htarget
    · obtain rfl : target = p := (h.running_eq target htarget).trans (h.running_eq p hcurrent).symm
      rw [status_setStatus, status_setStatus, update_idem, ← hcurrent, update_eq_self]
    · rw [status_setStatus, ← hcurrent, update_eq_self]
  refine h.congr hstatus ?_ ?_ ?_ <;>
  · rw [LogicLayer.finishRunProcess]
    split_ifs <;> rfl

end

end QueuesExact

/-- A ready process that is handed to the scheduler. -/
theorem addProcessToReadyQueue_of_ready (hlt : id < maxProcesses) (hready : logic.status id = .ready) :
    logic.addProcessToReadyQueue id = logic.pushReady id := by
  have hlive : logic.Live id := ⟨hlt, by simp [hready]⟩
  rw [addProcessToReadyQueue, if_pos hlive, if_neg (by simp [hready])]

theorem status_trackRunning : logic.trackRunning.status = logic.status :=
  funext fun q => congrArg Process.status (congrFun ProcessManager.getRunningProcess_processes q)

namespace QueuesExact

section

variable (h : logic.QueuesExact) (hlt : id < maxProcesses) (hfree : logic.status id = .terminated)

include h hlt hfree

theorem discardChild (process : Process) :
    ((logic.modify id fun _ => process).discardChild id).QueuesExact := by
  refine h.congr ?_ rfl rfl ?_
  · funext q
    change (((logic.pm.modify id fun _ => process).killProcess id).processes q).status = _
    rw [ProcessManager.killProcess, if_pos hlt]
    by_cases hq : q = id
    · rw [hq, ProcessManager.setProcess_processes_self, hfree]
      rfl
    · rw [ProcessManager.setProcess_processes_of_ne hq, ProcessManager.modify_processes_of_ne hq]
  · change ((logic.pm.modify id fun _ => process).killProcess id).currentProcessId = _
    rw [ProcessManager.killProcess, if_pos hlt]
    rfl

theorem readyVforkChild {process : Process} (hstatus : process.status = .ready) (parentId : ℕ) :
    (((((logic.modify id fun _ => process).modify parentId (markVforkParent id)).modify id
      (markVforkChild parentId)).addProcessToReadyQueue id).modify parentId
        markKernelContext).QueuesExact := by
  have hflagged : (((logic.modify id fun _ => process).modify parentId
      (markVforkParent id)).modify id (markVforkChild parentId)).status =
      update logic.status id .ready := by
    rw [status_modify_of_eq rfl, status_modify_of_eq rfl, ← hstatus]
    exact status_modify fun _ => process
  have hready : (((logic.modify id fun _ => process).modify parentId
      (markVforkParent id)).modify id (markVforkChild parentId)).status id = .ready := by
    rw [hflagged, update_self]
  rw [addProcessToReadyQueue_of_ready hlt hready]
  exact (h.pushFresh hlt hfree hflagged rfl rfl rfl).modify (markKernelContext_status _)

theorem beginVfork {process : Process} (hstatus : process.status = .ready) (parentId : ℕ) :
    ((logic.modify id fun _ => process).beginVfork parentId id).QueuesExact :=
  (h.readyVforkChild hlt hfree hstatus parentId).blockProcess

end

theorem withRunning (h : logic.QueuesExact) {f : LogicLayer → ℕ → ℤ × LogicLayer}
    (hf : ∀ id, (f logic.trackRunning id).2.QueuesExact) : (logic.withRunning f).2.QueuesExact := by
  rw [LogicLayer.withRunning]
  split
  · exact h.trackRunning
  · exact hf _

theorem vforkFrom (h : logic.QueuesExact) (filesError : Option ℤ) (parentId : ℕ) :
    (logic.vforkFrom filesError parentId).2.QueuesExact := by
  rw [LogicLayer.vforkFrom]
  split_ifs
  · exact h
  · split
    · split
      next => exact h
      next childId created hcreate =>
        obtain ⟨hlt, hfree, rfl⟩ := createChild_eq_some hcreate
        rcases filesError with _ | error
        · exact h.beginVfork hlt hfree rfl _
        · exact h.discardChild hlt hfree _
    · exact h

theorem cloneVmFrom (h : logic.QueuesExact) (childStack : Option ℕ) (filesError : Option ℤ)
    (parentId : ℕ) : (logic.cloneVmFrom childStack filesError parentId).2.QueuesExact := by
  rw [LogicLayer.cloneVmFrom]
  split
  · split
    next => exact h
    next childId created hcreate =>
      obtain ⟨hlt, hfree, rfl⟩ := createChild_eq_some hcreate
      rcases filesError with _ | error
      · dsimp only
        rw [addProcessToReadyQueue_of_ready hlt (by rw [status_modify, update_self]; rfl)]
        exact h.pushFresh hlt hfree (status_modify fun _ => _) rfl rfl rfl
      · exact h.discardChild hlt hfree _
  · exact h

end QueuesExact

/-- The ready queue has an id once for a process that is ready or running and not at all for any
other, at most one process is running, and the processes with an entry in the sleep or terminal
queue are blocked. -/
structure ReadyQueueExact (logic : LogicLayer) : Prop where
  count_eq : ∀ p, logic.sched.readyQueue.count p =
    if logic.status p = .ready ∨ logic.status p = .running then 1 else 0
  running_unique : ∀ p q, logic.status p = .running → logic.status q = .running → p = q
  sleeper_blocked : ∀ tag ∈ logic.sync.sleepQueue, logic.status tag.id = .blocked
  ttyWaiter_blocked : ∀ p ∈ logic.sync.ttyInputWaitQueue, logic.status p = .blocked

end LogicLayer

/-! ### Runs -/

/-- A call to an operation on processes. `changeRecord` and `changeMemory` stand for all other
code: they change a record in other fields than its status, and the user memory. -/
inductive ProcessCall where
  | createKernelProcess (state : CpuState)
  | createUserProcess (state : CpuState)
  | copyProcess (id : ℕ) (outcome : LogicLayer.CopyOutcome)
  | vfork (filesError : Option ℤ)
  | cloneVm (childStack : Option ℕ) (filesError : Option ℤ)
  | sleepProcess (id waitTicks : ℕ)
  | blockProcess (id : ℕ)
  | blockProcessForTTYInput (id : ℕ)
  | wakeProcess (id : ℕ)
  | unblockProcess (id : ℕ)
  | notifyTTYInputAvailable
  | signalProcess (accessible : UserAccess) (id signal : ℕ)
  | addProcessToReadyQueue (id : ℕ)
  | killProcess (id exitStatus : ℕ)
  | tick (accessible : UserAccess)
  | schedule
  | finishRunProcess (target current : ℕ)
  | getRunningProcess
  | changeRecord (id : ℕ) (f : Process → Process)
  | changeMemory (memory : ℕ → ByteMemory)

namespace ProcessCall

/-- The state after a call. The end of `RunProcess` runs when the process that had called it is
the running one again. -/
def run (logic : LogicLayer) : ProcessCall → LogicLayer
  | createKernelProcess state => logic.createKernelProcess state
  | createUserProcess state => logic.createUserProcess state
  | copyProcess id outcome => (logic.copyProcess id outcome).2
  | vfork filesError => (logic.handleVforkSystemCall filesError).2
  | cloneVm childStack filesError => (logic.handleCloneVm childStack filesError).2
  | sleepProcess id waitTicks => logic.sleepProcess id waitTicks
  | blockProcess id => logic.blockProcess id
  | blockProcessForTTYInput id => logic.blockProcessForTTYInput id
  | wakeProcess id => logic.wakeProcess id
  | unblockProcess id => logic.unblockProcess id
  | notifyTTYInputAvailable => logic.notifyTTYInputAvailable
  | signalProcess accessible id signal => (logic.signalProcess accessible id signal).getD logic
  | addProcessToReadyQueue id => logic.addProcessToReadyQueue id
  | killProcess id exitStatus => logic.killProcess id exitStatus
  | tick accessible => logic.tick accessible
  | schedule => logic.schedule
  | finishRunProcess target current =>
    if logic.status current = .running then logic.finishRunProcess target current else logic
  | getRunningProcess => logic.trackRunning
  | changeRecord id f =>
    logic.modify id fun process => { f process with status := process.status }
  | changeMemory memory => { logic with memory := memory }

/-- The condition under which a call keeps the queues exact. -/
def Safe (logic : LogicLayer) : ProcessCall → Prop
  | wakeProcess id | unblockProcess id =>
    logic.status id = .blocked → id ∉ logic.sync.ttyInputWaitQueue
  | addProcessToReadyQueue id =>
    logic.Live id → logic.status id = .blocked ∧ id ∉ logic.waiting
  | copyProcess _ _ | signalProcess _ _ _ | killProcess _ _ | tick _ => logic.NoChildWaitOnTTY
  | _ => True

/-- The states that the calls lead to from the start of the kernel. -/
inductive Reachable : LogicLayer → Prop
  | init (memory : ℕ → ByteMemory) : Reachable { memory := memory }
  | call {logic : LogicLayer} (h : Reachable logic) (c : ProcessCall) : Reachable (c.run logic)

/-- The states that safe calls lead to from the start of the kernel. -/
inductive SafelyReachable : LogicLayer → Prop
  | init (memory : ℕ → ByteMemory) : SafelyReachable { memory := memory }
  | call {logic : LogicLayer} (h : SafelyReachable logic) (c : ProcessCall) (hc : c.Safe logic) :
    SafelyReachable (c.run logic)

theorem queuesExact_run {logic : LogicLayer} (h : logic.QueuesExact) {c : ProcessCall}
    (hc : c.Safe logic) : (c.run logic).QueuesExact := by
  cases c with
  | createKernelProcess state => exact h.createKernelProcess state
  | createUserProcess state => exact h.createUserProcess state
  | copyProcess id outcome => exact h.copyProcess hc outcome
  | vfork filesError => exact h.withRunning fun id => h.trackRunning.vforkFrom filesError id
  | cloneVm childStack filesError =>
    exact h.withRunning fun id => h.trackRunning.cloneVmFrom childStack filesError id
  | sleepProcess id waitTicks => exact h.sleepProcess waitTicks
  | blockProcess id => exact h.blockProcess
  | blockProcessForTTYInput id => exact h.blockProcessForTTYInput
  | wakeProcess id => exact h.resumeBlocked hc
  | unblockProcess id => exact h.resumeBlocked hc
  | notifyTTYInputAvailable => exact h.notifyTTYInputAvailable
  | signalProcess accessible id signal =>
    change ((logic.signalProcess accessible id signal).getD logic).QueuesExact
    rcases hsignal : logic.signalProcess accessible id signal with _ | signalled
    · exact h
    · exact h.signalProcess hc hsignal
  | addProcessToReadyQueue id => exact h.addProcessToReadyQueue hc
  | killProcess id exitStatus => exact h.killProcess hc exitStatus
  | tick accessible => exact h.tick hc accessible
  | schedule => exact h.schedule
  | finishRunProcess target current =>
    rw [run]
    split_ifs with hcurrent
    · exact h.finishRunProcess hcurrent target
    · exact h
  | getRunningProcess => exact h.trackRunning
  | changeRecord id f => exact h.modify rfl
  | changeMemory memory => exact h.congr rfl rfl rfl rfl

theorem queuesExact_init (memory : ℕ → ByteMemory) :
    ({ memory := memory } : LogicLayer).QueuesExact where
  nodup_ready := List.nodup_nil
  mem_ready p := by simp [ProcessManager.new, initializeProcessEntry]
  running_eq p hp := absurd hp (by simp [ProcessManager.new, initializeProcessEntry])
  nodup_waiting := List.nodup_nil
  blocked_of_waiting p hp := absurd hp (List.not_mem_nil)
  outside p _ := rfl

namespace SafelyReachable

variable {logic : LogicLayer}

theorem queuesExact (h : SafelyReachable logic) : logic.QueuesExact := by
  induction h with
  | init memory => exact queuesExact_init memory
  | call _ c hc ih => exact queuesExact_run ih hc

/-- In a run of safe calls the ready queue is exact in every state: it has each ready or running
process once and no other, one process runs at most, and sleepers are blocked. -/
theorem readyQueueExact (h : SafelyReachable logic) : logic.ReadyQueueExact where
  count_eq p := by
    have hexact := h.queuesExact
    rw [List.Nodup.count hexact.nodup_ready]
    exact if_congr ((hexact.mem_ready p).trans or_comm) rfl rfl
  running_unique p q hp hq :=
    (h.queuesExact.running_eq p hp).trans (h.queuesExact.running_eq q hq).symm
  sleeper_blocked tag htag := h.queuesExact.blocked_of_waiting tag.id
    (List.mem_append_left _ (List.mem_map_of_mem htag))
  ttyWaiter_blocked p hp := h.queuesExact.blocked_of_waiting p (List.mem_append_right _ hp)

end SafelyReachable

/-- Two user processes start, the second one runs and waits for terminal input, and is then
unblocked. -/
def unblockedTTYWaiter : List ProcessCall :=
  [.createUserProcess {}, .createUserProcess {}, .schedule, .schedule, .blockProcessForTTYInput 1,
    .unblockProcess 1]

/-- The state after a list of calls from the start of the kernel. -/
def runAll (calls : List ProcessCall) : LogicLayer :=
  calls.foldl run {}

theorem reachable_runAll (calls : List ProcessCall) : Reachable (runAll calls) := by
  suffices h : ∀ logic, Reachable logic → Reachable (calls.foldl run logic) from
    h _ (.init fun _ _ => 0)
  induction calls with
  | nil => exact fun _ h => h
  | cons c calls ih => exact fun logic h => ih _ (h.call c)

/-- An unblocked process keeps its entry in the terminal queue. -/
theorem not_readyQueueExact_of_reachable :
    ¬ ∀ logic, Reachable logic → logic.ReadyQueueExact := by
  intro h
  have hexact := h _ (reachable_runAll unblockedTTYWaiter)
  have hwaits : 1 ∈ (runAll unblockedTTYWaiter).sync.ttyInputWaitQueue := by decide +kernel
  have hready : (runAll unblockedTTYWaiter).status 1 = .ready := by decide +kernel
  rw [hexact.ttyWaiter_blocked 1 hwaits] at hready
  exact absurd hready (by simp)

/-- A run in which one of two processes sleeps. -/
theorem SafelyReachable.readyQueueExact_sleeping :
    (runAll [.createUserProcess {}, .createUserProcess {}, .schedule, .schedule,
      .sleepProcess 1 3]).ReadyQueueExact :=
  SafelyReachable.readyQueueExact <| SafelyReachable.init (fun _ _ => 0)
    |>.call (.createUserProcess {}) trivial
    |>.call (.createUserProcess {}) trivial
    |>.call .schedule trivial
    |>.call .schedule trivial
    |>.call (.sleepProcess 1 3) trivial

end ProcessCall

end TwistedOS
