import TwistedOS.Logic.SleepTiming

/-!
# Stop and continue signals

A stop signal blocks a process that runs or is ready. Nothing records that the process is stopped:
a process that sleeps or waits is blocked already, so a stop signal does not change it and its own
wake-up resumes it, and `SIGCONT` readies every blocked process, whatever it waits for. A run is
therefore followed beside a record of the processes that a stop signal was sent to, each with the
state it had then.

## Main definitions

* `WaitState` — the status and the wait-queue entries of a process.
* `StopState` — a state with the record of the stopped processes, `StopState.call` its step.
* `StopState.Safe` — the condition under which a call keeps the stopped processes stopped.

## Main results

* `StopState.stopsExact`.
-/

namespace TwistedOS

open Function

/-- The status of a process and its entries in the sleep queue and the terminal queue. -/
@[ext]
structure WaitState where
  status : ProcessState
  sleeps : List SleepTag
  awaitsInput : Bool
  deriving DecidableEq

namespace WaitState

variable (s : WaitState)

/-- The process runs or is ready. -/
def Runnable : Prop := s.status = .running ∨ s.status = .ready

/-- The process has no entry in a wait queue. -/
def NotQueued : Prop := s.sleeps = [] ∧ s.awaitsInput = false

/-- The state in which a stopped process continues: one that was running is ready. -/
def resumed : WaitState :=
  { s with status := if s.status = .running then .ready else s.status }

instance : Decidable s.Runnable := inferInstanceAs (Decidable (_ ∨ _))

instance : Decidable s.NotQueued := inferInstanceAs (Decidable (_ ∧ _))

variable {s}

theorem Runnable.resumed_eq (h : s.Runnable) (hwaits : s.NotQueued) :
    s.resumed = ⟨.ready, [], false⟩ := by
  refine WaitState.ext ?_ hwaits.1 hwaits.2
  rcases h with h | h <;> simp [resumed, h]

end WaitState

namespace LogicLayer

variable {logic logic' : LogicLayer} {id p : ℕ} {s : WaitState}

/-- The status and the waits of a process. -/
def waitState (logic : LogicLayer) (p : ℕ) : WaitState where
  status := logic.status p
  sleeps := logic.sync.sleepQueue.filter fun tag => tag.id = p
  awaitsInput := decide (p ∈ logic.sync.ttyInputWaitQueue)

theorem Frame.waitState_eq (h : Frame p logic logic') : logic'.waitState p = logic.waitState p :=
  WaitState.ext h.status_eq h.sleepQueue_eq (decide_eq_decide.mpr h.mem_ttyInputWaitQueue)

theorem waitState_modify {f : Process → Process}
    (hf : (f (logic.processes id)).status = logic.status id) :
    (logic.modify id f).waitState p = logic.waitState p :=
  WaitState.ext (congrFun (status_modify_of_eq hf) p) rfl rfl

/-- A process without entries in the wait queues. -/
theorem notQueued_waitState : (logic.waitState p).NotQueued ↔
    (∀ tag ∈ logic.sync.sleepQueue, tag.id ≠ p) ∧ p ∉ logic.sync.ttyInputWaitQueue := by
  rw [WaitState.NotQueued, waitState, List.filter_eq_nil_iff]
  simp

theorem notQueued_removeWaits (h : (logic.waitState p).NotQueued) :
    ((logic.removeWaits id).waitState p).NotQueued := by
  rw [notQueued_waitState] at h ⊢
  exact ⟨fun tag htag => h.1 tag (List.mem_of_mem_eraseP htag),
    fun hp => h.2 (List.mem_of_mem_erase hp)⟩

/-- A process that a stop signal was sent to in the state `s` is blocked and not queued. It waits
for nothing else when it could run in `s`. -/
structure Held (p : ℕ) (s : WaitState) (logic : LogicLayer) : Prop where
  lt : p < maxProcesses
  status_eq : logic.status p = .blocked
  notMem_readyQueue : p ∉ logic.sched.readyQueue
  notQueued : s.Runnable → s.NotQueued → (logic.waitState p).NotQueued

namespace Held

theorem frame (h : Held p s logic) (hframe : Frame p logic logic') : Held p s logic' where
  lt := h.lt
  status_eq := hframe.status_eq.trans h.status_eq
  notMem_readyQueue := hframe.mem_readyQueue.not.mpr h.notMem_readyQueue
  notQueued hs hwaits := hframe.waitState_eq ▸ h.notQueued hs hwaits

theorem modify (h : Held p s logic) {f : Process → Process}
    (hf : (f (logic.processes id)).status = logic.status id) : Held p s (logic.modify id f) where
  lt := h.lt
  status_eq := (congrFun (status_modify_of_eq hf) p).trans h.status_eq
  notMem_readyQueue := h.notMem_readyQueue
  notQueued hs hwaits := (waitState_modify hf).symm ▸ h.notQueued hs hwaits

/-! ### Signals to the stopped process -/

/-- A signal that neither continues nor wakes the process leaves it stopped or kills it. -/
theorem applySignal (h : Held p s logic) (signal : ℕ) {effect : SignalEffect}
    (hresume : effect ≠ .resume) (hhandle : ∀ action, effect ≠ .handle action) :
    Held p s (logic.applySignal p signal effect) ∨
      (logic.applySignal p signal effect).status p = .terminated := by
  have hclear : Held p s (logic.clearPending p signal) := h.modify rfl
  cases effect with
  | discard => exact .inl hclear
  | pend => exact .inl (hclear.modify rfl)
  | stop =>
    refine .inl ?_
    change Held p s ((logic.clearPending p signal).stopProcess p)
    rw [stopProcess, if_neg (by simp [hclear.status_eq])]
    exact hclear
  | resume => exact absurd rfl hresume
  | terminate coreDump =>
    exact .inr (congrArg Process.status (killProcess_processes_self h.lt _))
  | handle action => exact absurd rfl (hhandle action)

/-- A stop signal to a process that is not stopped yet. -/
theorem of_stop (hlive : logic.Live p) (signal : ℕ)
    (hqueue : logic.sched.readyQueue.count p ≤ if (logic.waitState p).Runnable then 1 else 0) :
    Held p (logic.waitState p) (logic.applySignal p signal .stop) := by
  have hstatus : (logic.clearPending p signal).status p = logic.status p :=
    congrFun (status_modify_of_eq rfl) p
  change Held p _ ((logic.clearPending p signal).stopProcess p)
  rw [stopProcess]
  split_ifs with hrunnable
  · have hwasRunnable : (logic.waitState p).Runnable := by rwa [hstatus] at hrunnable
    refine ⟨hlive.1, ?_, ?_, fun _ hwaits => notQueued_removeWaits hwaits⟩
    · exact (congrFun (status_setStatus _) p).trans (update_self ..)
    · change p ∉ (((logic.clearPending p signal).setStatus p .blocked).dropReady p).sched.readyQueue
      rw [dropReady_readyQueue, ← List.count_pos_iff, List.count_erase_self]
      rw [if_pos hwasRunnable] at hqueue
      change ¬0 < logic.sched.readyQueue.count p - 1
      omega
  · have hnotRunnable : ¬(logic.waitState p).Runnable := by rwa [hstatus] at hrunnable
    have hblocked : logic.status p = .blocked := by
      cases hp : logic.status p with
      | running => exact absurd (.inl hp) hnotRunnable
      | ready => exact absurd (.inr hp) hnotRunnable
      | blocked => rfl
      | terminated => exact absurd hp hlive.2
    rw [if_neg hnotRunnable, Nat.le_zero, List.count_eq_zero] at hqueue
    exact ⟨hlive.1, hstatus.trans hblocked, hqueue, fun hs => absurd hs hnotRunnable⟩

/-- `SIGCONT` returns a process to the state in which it was stopped. -/
theorem continued (h : Held p s logic) (signal : ℕ) (hs : s.Runnable) (hwaits : s.NotQueued) :
    (logic.applySignal p signal .resume).waitState p = s.resumed ∧
      p ∈ (logic.applySignal p signal .resume).sched.readyQueue := by
  have hclear : Held p s (logic.clearPending p signal) := h.modify rfl
  change ((logic.clearPending p signal).continueProcess p).waitState p = _ ∧
    p ∈ ((logic.clearPending p signal).continueProcess p).sched.readyQueue
  rw [continueProcess, if_pos hclear.status_eq, hs.resumed_eq hwaits]
  have hremoved : (((logic.clearPending p signal).removeWaits p).waitState p).NotQueued :=
    notQueued_removeWaits (hclear.notQueued hs hwaits)
  refine ⟨WaitState.ext ?_ hremoved.1 hremoved.2, ?_⟩
  · exact (congrFun (status_setStatus _) p).trans (update_self ..)
  · exact List.mem_append_right _ (List.mem_singleton_self p)

end Held

/-! ### Ticks -/

/-- The interval timer of `id` does not wake the process `p`: its signal does not start a handler
of `p`, and it does not kill a child that `p` waits for. -/
def TimerSpares (logic : LogicLayer) (accessible : UserAccess) (p id : ℕ) : Prop :=
  (logic.processes id).realIntervalTimerRemainingTicks = 1 →
    (id = p → ∀ action, logic.receivedEffect accessible p sigalrm ≠ some (.handle action)) ∧
    (id ≠ p → ∀ coreDump, logic.receivedEffect accessible id sigalrm = some (.terminate coreDump) →
      ¬logic.DeathWakes id p)

/-- None of the interval timers wakes the process `p`, one after the other. -/
def TimersSpare (accessible : UserAccess) (p : ℕ) : LogicLayer → List ℕ → Prop
  | _, [] => True
  | logic, id :: ids =>
    logic.TimerSpares accessible p id ∧
      TimersSpare accessible p (logic.tickIntervalTimer accessible id) ids

/-- The tick does not wake the process `p`. -/
def TickSpares (logic : LogicLayer) (accessible : UserAccess) (p : ℕ) : Prop :=
  TimersSpare accessible p logic (List.range maxProcesses) ∧
    ((logic.tickIntervalTimers accessible).status p = .blocked →
      (logic.tickIntervalTimers accessible).firstDue ≠ some p)

theorem defaultSignalEffect_ne_resume {signal : ℕ} (h : signal ≠ sigcont) :
    defaultSignalEffect signal ≠ .resume := by
  rw [defaultSignalEffect, getDefaultSignalAction]
  split_ifs <;> simp

/-- No other signal than `SIGCONT` continues a process. -/
theorem signalEffect_ne_resume (accessible : UserAccess) (process : Process) {signal : ℕ}
    (h : signal ≠ sigcont) : signalEffect accessible id process signal ≠ .resume := by
  have hdefault := defaultSignalEffect_ne_resume h
  have haction (action : ProcessSignalAction) :
      actionSignalEffect accessible id process signal action ≠ .resume := by
    rw [actionSignalEffect]
    split_ifs <;> simp [hdefault]
  have hdelivered : deliveredSignalEffect accessible id process signal ≠ .resume := by
    rw [deliveredSignalEffect]
    rcases process.signalActions with _ | actions
    · exact hdefault
    · dsimp only
      split_ifs
      · exact haction _
      · exact hdefault
  rw [signalEffect]
  split_ifs <;> simp [hdelivered]

theorem receivedEffect_ne_resume (accessible : UserAccess) {signal : ℕ} (h : signal ≠ sigcont) :
    logic.receivedEffect accessible id signal ≠ some .resume := by
  rw [receivedEffect]
  split_ifs
  · exact fun heffect => signalEffect_ne_resume accessible _ h (Option.some.inj heffect)
  · simp

theorem receivedEffect_sigcont (h : logic.Live id) (accessible : UserAccess) :
    logic.receivedEffect accessible id sigcont = some .resume :=
  if_pos ⟨by decide, by decide, h⟩

theorem receivedEffect_sigstop (h : logic.Live id) (accessible : UserAccess) :
    logic.receivedEffect accessible id sigstop = some .stop :=
  if_pos ⟨by decide, by decide, h⟩

theorem status_reloadIntervalTimer :
    (logic.modify id reloadIntervalTimer).status = logic.status := by
  refine status_modify_of_eq ?_
  rw [reloadIntervalTimer]
  split_ifs <;> rfl

/-- The process is held stopped or dead. -/
def HeldOrDead (p : ℕ) (s : WaitState) (logic : LogicLayer) : Prop :=
  Held p s logic ∨ logic.status p = .terminated

namespace HeldOrDead

section

variable (h : HeldOrDead p s logic)

include h

theorem reloadIntervalTimer : HeldOrDead p s (logic.modify id reloadIntervalTimer) := by
  have hstatus : (logic.modify id LogicLayer.reloadIntervalTimer).status = logic.status :=
    status_reloadIntervalTimer
  refine h.imp (fun hheld => ⟨hheld.lt, ?_, hheld.notMem_readyQueue, fun hs hwaits => ?_⟩) ?_
  · exact (congrFun hstatus p).trans hheld.status_eq
  · exact hheld.notQueued hs hwaits
  · exact (congrFun hstatus p).trans

theorem tickIntervalTimer {accessible : UserAccess} (hspares : logic.TimerSpares accessible p id) :
    HeldOrDead p s (logic.tickIntervalTimer accessible id) := by
  by_cases hne : p = id
  · subst hne
    rcases h with h | hdead
    · have hticked : Held p s (logic.modify p decrementIntervalTimer) := h.modify rfl
      rw [LogicLayer.tickIntervalTimer]
      split_ifs with hidle hfires
      · exact .inl h
      · have hsignalled : HeldOrDead p s
            (((logic.modify p decrementIntervalTimer).signalProcess accessible p sigalrm).getD
              (logic.modify p decrementIntervalTimer)) := by
          rw [signalProcess_getD, receivedEffect_decrementIntervalTimer]
          have hresume : logic.receivedEffect accessible p sigalrm ≠ some .resume :=
            receivedEffect_ne_resume accessible (by decide)
          have hhandle := (hspares hfires).1 rfl
          rcases heffect : logic.receivedEffect accessible p sigalrm with _ | effect
          · exact .inl hticked
          · rw [heffect] at hresume hhandle
            exact hticked.applySignal sigalrm (fun heq => hresume (congrArg some heq))
              fun action heq => hhandle action (congrArg some heq)
        exact hsignalled.reloadIntervalTimer
      · exact .inl hticked
    · rw [LogicLayer.tickIntervalTimer, if_pos (.inl hdead)]
      exact .inr hdead
  · have hframe : Frame p logic (logic.tickIntervalTimer accessible id) :=
      .tickIntervalTimer hne fun hfires => (hspares hfires).2 (Ne.symm hne)
    exact h.imp (·.frame hframe) hframe.status_eq.trans

theorem tickIntervalTimers_foldl {accessible : UserAccess} {ids : List ℕ}
    (hspare : TimersSpare accessible p logic ids) :
    HeldOrDead p s (ids.foldl (fun logic id => logic.tickIntervalTimer accessible id) logic) := by
  induction ids generalizing logic with
  | nil => exact h
  | cons id ids ih => exact ih (h.tickIntervalTimer hspare.1) hspare.2

theorem tickSleepers (hdue : logic.status p = .blocked → logic.firstDue ≠ some p) :
    HeldOrDead p s logic.tickSleepers := by
  have hticked : HeldOrDead p s { logic with sync := logic.sync.tick } := by
    refine h.imp (fun hheld => ⟨hheld.lt, hheld.status_eq, hheld.notMem_readyQueue,
      fun hs hwaits => ?_⟩) id
    have hqueued := notQueued_waitState.mp (hheld.notQueued hs hwaits)
    refine notQueued_waitState.mpr ⟨fun tag htag => ?_, hqueued.2⟩
    obtain ⟨before, hbefore, rfl⟩ := List.mem_map.mp htag
    exact hqueued.1 before hbefore
  rw [LogicLayer.tickSleepers]
  rcases hwake : logic.sync.tick.getNextProcessToWake with _ | id
  · exact hticked
  · rw [getNextProcessToWake_tick] at hwake
    by_cases hne : p = id
    · subst hne
      have hnot : logic.status p ≠ .blocked := fun hblocked => hdue hblocked hwake
      dsimp only
      rw [wakeProcess, resumeBlocked, if_neg fun hid => hnot hid.2]
      exact hticked
    · have hframe : Frame p { logic with sync := logic.sync.tick }
          (({ logic with sync := logic.sync.tick } : LogicLayer).wakeProcess id) :=
        .resumeBlocked hne
      exact hticked.imp (·.frame hframe) hframe.status_eq.trans

theorem tick {accessible : UserAccess} (hspares : logic.TickSpares accessible p) :
    HeldOrDead p s (logic.tick accessible) :=
  tickSleepers (tickIntervalTimers_foldl h hspares.1) hspares.2

end

end HeldOrDead

/-- `SIGCONT` leaves a process alone that is not blocked. -/
theorem waitState_applySignal_resume (signal : ℕ) (h : logic.status p ≠ .blocked) :
    (logic.applySignal p signal .resume).waitState p = logic.waitState p := by
  have hstatus : (logic.clearPending p signal).status p = logic.status p :=
    congrFun (status_modify_of_eq rfl) p
  change ((logic.clearPending p signal).continueProcess p).waitState p = _
  rw [continueProcess, if_neg (hstatus ▸ h)]
  exact waitState_modify rfl

end LogicLayer

open LogicLayer (Held HeldOrDead Frame)

/-! ### Runs -/

namespace ProcessCall

/-- The effect that a call has on a process as a signal. -/
def signalTo (logic : LogicLayer) (p : ℕ) : ProcessCall → Option SignalEffect
  | signalProcess accessible id signal =>
    if id = p then logic.receivedEffect accessible id signal else none
  | _ => none

/-- A call that is no signal to the stopped process `p` does not wake it. -/
def Spares (logic : LogicLayer) (p : ℕ) : ProcessCall → Prop
  | signalProcess accessible id signal => id ≠ p → ∀ coreDump,
    logic.receivedEffect accessible id signal = some (.terminate coreDump) → ¬logic.DeathWakes id p
  | killProcess id _ => id ≠ p → ¬logic.DeathWakes id p
  | changeRecord _ _ => True
  | tick accessible => logic.TickSpares accessible p
  | c => c.LeavesAlone logic p

end ProcessCall

/-- A state, and for each process that a stop signal was sent to since its last `SIGCONT` the state
that it had then. -/
structure StopState where
  logic : LogicLayer
  stopped : ℕ → Option WaitState

namespace StopState

variable {state : StopState} {p : ℕ} {s : WaitState}

/-- The start of the kernel. -/
def start (memory : ℕ → ByteMemory) : StopState := ⟨{ memory := memory }, fun _ => none⟩

/-- The record of a process after a call, when the process is still there. -/
def recordAfter (state : StopState) (c : ProcessCall) (p : ℕ) : Option WaitState :=
  match c.signalTo state.logic p with
  | some .stop => some ((state.stopped p).getD (state.logic.waitState p))
  | some .resume => none
  | _ => state.stopped p

/-- A call. -/
def call (state : StopState) (c : ProcessCall) : StopState where
  logic := c.run state.logic
  stopped p := if (c.run state.logic).status p = .terminated then none else state.recordAfter c p

/-- The state of a process after `SIGCONT`. -/
def afterContinue (state : StopState) (p : ℕ) : WaitState :=
  match state.stopped p with
  | none => state.logic.waitState p
  | some s => s.resumed

/-- A stopped process does not run and is not selected. -/
def StaysStopped (state : StopState) : Prop :=
  ∀ p, (state.stopped p).isSome →
    state.logic.status p ≠ .running ∧ state.logic.sched.selectNextProcess.1 ≠ some p

/-- `SIGCONT` does not change a process that is not stopped, and returns a stopped one to the state
in which it was stopped. -/
def ContinuesExactly (state : StopState) (accessible : UserAccess) (p : ℕ) : Prop :=
  ((state.call (.signalProcess accessible p sigcont)).logic.waitState p = state.afterContinue p) ∧
    ((state.stopped p).isSome →
      p ∈ (state.call (.signalProcess accessible p sigcont)).logic.sched.readyQueue)

/-- The condition for a process `p` under which a call does what a stop or continue signal stands
for. A stop signal finds it in the ready queue at most once, and only when it can run; `SIGCONT`
finds it not blocked, or stopped when it could run and waited for nothing; and while it is stopped,
no signal starts a handler and nothing else wakes it. -/
def SafeFor (state : StopState) (c : ProcessCall) (p : ℕ) : Prop :=
  match c.signalTo state.logic p, state.stopped p with
  | some .stop, none => state.logic.sched.readyQueue.count p ≤
    if (state.logic.waitState p).Runnable then 1 else 0
  | some .resume, none => state.logic.status p ≠ .blocked
  | some .resume, some s => s.Runnable ∧ s.NotQueued
  | some (.handle _), some _ => False
  | none, some _ => c.Spares state.logic p
  | _, _ => True

/-- The condition under which a call does what stop and continue signals stand for. -/
def Safe (state : StopState) (c : ProcessCall) : Prop := ∀ p, state.SafeFor c p

/-- The states that calls lead to from the start of the kernel. -/
inductive Reachable : StopState → Prop
  | init (memory : ℕ → ByteMemory) : Reachable (start memory)
  | call {state : StopState} (h : Reachable state) (c : ProcessCall) : Reachable (state.call c)

/-- The states that safe calls lead to from the start of the kernel. -/
inductive SafelyReachable : StopState → Prop
  | init (memory : ℕ → ByteMemory) : SafelyReachable (start memory)
  | call {state : StopState} (h : SafelyReachable state) (c : ProcessCall) (hc : state.Safe c) :
    SafelyReachable (state.call c)

/-- Every process that a stop signal was sent to is held. -/
def AllHeld (state : StopState) : Prop := ∀ p, ∀ s ∈ state.stopped p, Held p s state.logic

/-- A call that is no signal to a stopped process. -/
theorem heldOrDead_run {logic : LogicLayer} (h : Held p s logic) {c : ProcessCall}
    (hsignal : c.signalTo logic p = none) (hc : c.Spares logic p) :
    HeldOrDead p s (c.run logic) := by
  cases c with
  | signalProcess accessible id signal =>
    by_cases hne : p = id
    · subst hne
      rw [ProcessCall.signalTo, if_pos rfl] at hsignal
      rw [ProcessCall.run, LogicLayer.signalProcess_getD, hsignal]
      exact .inl h
    · exact .inl (h.frame (.signalProcess hne (hc (Ne.symm hne))))
  | killProcess id exitStatus =>
    by_cases hne : p = id
    · subst hne
      exact .inr (congrArg Process.status (LogicLayer.killProcess_processes_self h.lt _))
    · exact .inl (h.frame (.killProcess exitStatus hne (hc (Ne.symm hne))))
  | changeRecord id f => exact .inl (h.modify rfl)
  | tick accessible => exact HeldOrDead.tick (.inl h) hc
  | _ => exact .inl (h.frame (ProcessCall.frame_run h.status_eq h.notMem_readyQueue hc))

/-- A call that is a signal to a process carries out the effect of the signal. -/
theorem run_of_signalTo {logic : LogicLayer} {c : ProcessCall} {effect : SignalEffect}
    (h : c.signalTo logic p = some effect) :
    logic.Live p ∧ ∃ signal, c.run logic = logic.applySignal p signal effect := by
  cases c with
  | signalProcess accessible id signal =>
    rw [ProcessCall.signalTo] at h
    split_ifs at h with hid
    subst hid
    refine ⟨?_, signal, ?_⟩
    · rw [LogicLayer.receivedEffect] at h
      split_ifs at h with hvalid
      exact hvalid.2.2
    · rw [ProcessCall.run, LogicLayer.signalProcess_getD, h]
      rfl
  | _ => exact absurd h (by simp [ProcessCall.signalTo])

/-- A safe call keeps the processes held that a stop signal was sent to. -/
theorem AllHeld.call (h : state.AllHeld) {c : ProcessCall} (hc : state.Safe c) :
    (state.call c).AllHeld := by
  intro p s hs
  obtain ⟨hlive, hrecord⟩ := Option.ite_none_left_eq_some.mp hs
  suffices HeldOrDead p s (c.run state.logic) from this.resolve_right hlive
  have hsafe := hc p
  have hheld := h p
  rw [recordAfter] at hrecord
  rw [SafeFor] at hsafe
  rcases hsignal : c.signalTo state.logic p with _ | effect
  · rw [hsignal] at hsafe hrecord
    simp only at hrecord
    rw [hrecord] at hsafe hheld
    exact heldOrDead_run (hheld s rfl) hsignal hsafe
  · obtain ⟨htarget, signal, hrun⟩ := run_of_signalTo hsignal
    rw [hsignal] at hsafe hrecord
    rw [hrun]
    cases effect with
    | stop =>
      rcases hstopped : state.stopped p with _ | before
      · rw [hstopped] at hsafe hrecord
        obtain rfl := Option.some.inj hrecord
        exact .inl (.of_stop htarget signal hsafe)
      · rw [hstopped] at hrecord hheld
        obtain rfl := Option.some.inj hrecord
        exact (hheld _ rfl).applySignal signal (by simp) (by simp)
    | resume => exact absurd hrecord (by simp)
    | handle action =>
      simp only at hrecord
      rw [hrecord] at hsafe
      exact absurd hsafe id
    | discard | pend | terminate => exact (hheld s hrecord).applySignal signal (by simp) (by simp)

theorem SafelyReachable.allHeld (h : SafelyReachable state) : state.AllHeld := by
  induction h with
  | init memory => exact fun p s hs => absurd hs (by simp [start])
  | call _ c hc ih => exact ih.call hc

/-- A held process does not run and is not selected. -/
theorem AllHeld.staysStopped (h : state.AllHeld) : state.StaysStopped := by
  intro p hp
  obtain ⟨s, hs⟩ := Option.isSome_iff_exists.mp hp
  have hheld := h p s hs
  refine ⟨by simp [hheld.status_eq], fun hselect => hheld.notMem_readyQueue ?_⟩
  exact state.logic.sched.selectNextProcess_spec.2.2 p hselect

theorem AllHeld.continuesExactly (h : state.AllHeld) {accessible : UserAccess}
    (hlive : state.logic.Live p) (hsafe : state.SafeFor (.signalProcess accessible p sigcont) p) :
    state.ContinuesExactly accessible p := by
  have hreceived := LogicLayer.receivedEffect_sigcont hlive accessible
  have hsignal : (ProcessCall.signalProcess accessible p sigcont).signalTo state.logic p =
      some .resume := (if_pos rfl).trans hreceived
  have hrun : (state.call (.signalProcess accessible p sigcont)).logic =
      state.logic.applySignal p sigcont .resume := by
    change (state.logic.signalProcess accessible p sigcont).getD state.logic = _
    rw [LogicLayer.signalProcess_getD, hreceived]
    rfl
  rw [SafeFor, hsignal] at hsafe
  rw [ContinuesExactly, hrun, afterContinue]
  rcases hstopped : state.stopped p with _ | s
  · rw [hstopped] at hsafe
    exact ⟨LogicLayer.waitState_applySignal_resume sigcont hsafe, fun h => absurd h (by simp)⟩
  · rw [hstopped] at hsafe
    have hcontinued := (h p s hstopped).continued sigcont hsafe.1 hsafe.2
    exact ⟨hcontinued.1, fun _ => hcontinued.2⟩

/-- In every run of safe calls a process that a stop signal was sent to does not run and is not
selected until `SIGCONT` is sent to it, and a safe `SIGCONT` returns it to the state in which it was
stopped and does not change a process that is not stopped. -/
theorem stopsExact (h : SafelyReachable state) :
    state.StaysStopped ∧ ∀ accessible p, state.logic.Live p →
      state.SafeFor (.signalProcess accessible p sigcont) p →
        state.ContinuesExactly accessible p :=
  ⟨h.allHeld.staysStopped, fun _ _ hlive hsafe => h.allHeld.continuesExactly hlive hsafe⟩

/-- The state after a list of calls from the start of the kernel. -/
def runAll (calls : List ProcessCall) : StopState := calls.foldl call (start fun _ _ => 0)

theorem reachable_runAll (calls : List ProcessCall) : Reachable (runAll calls) := by
  suffices h : ∀ state, Reachable state → Reachable (calls.foldl call state) from
    h _ (.init fun _ _ => 0)
  induction calls with
  | nil => exact fun _ h => h
  | cons c calls ih => exact fun state h => ih _ (h.call c)

/-- No user address is accessible. -/
def noAccess : UserAccess := fun _ _ _ => false

/-- Two user processes start and the second one runs. -/
def secondOfTwo : List ProcessCall :=
  [.createUserProcess {}, .createUserProcess {}, .schedule, .schedule]

/-- A call that is never a signal and wakes nothing. -/
theorem safe_of_spares {c : ProcessCall}
    (hc : ∀ logic p, c.signalTo logic p = none ∧ c.Spares logic p) : state.Safe c := by
  intro p
  rw [SafeFor, (hc state.logic p).1]
  rcases state.stopped p with _ | s
  · trivial
  · exact (hc state.logic p).2

/-- A signal that kills nobody is safe when it is safe for its target. -/
theorem safe_signalProcess {accessible : UserAccess} {id signal : ℕ} {effect : SignalEffect}
    (hreceived : state.logic.receivedEffect accessible id signal = some effect)
    (hne : ∀ coreDump, effect ≠ .terminate coreDump)
    (hself : state.SafeFor (.signalProcess accessible id signal) id) :
    state.Safe (.signalProcess accessible id signal) := by
  intro p
  by_cases hp : id = p
  · exact hp ▸ hself
  · rw [SafeFor, ProcessCall.signalTo, if_neg hp]
    rcases state.stopped p with _ | s
    · trivial
    · intro _ coreDump hterminate
      exact absurd (Option.some.inj (hreceived.symm.trans hterminate)) (hne coreDump)

/-- The first process is stopped while it is ready. -/
def stoppedFirst : StopState :=
  runAll (secondOfTwo ++ [.signalProcess noAccess 0 sigstop, .schedule])

/-- A ready process is not selected while it is stopped, and continues as it was. -/
theorem stopsExact_stoppedFirst : (stoppedFirst.stopped 0).isSome ∧ stoppedFirst.StaysStopped ∧
    stoppedFirst.ContinuesExactly noAccess 0 := by
  have hcreate {state : StopState} : state.Safe (.createUserProcess {}) :=
    safe_of_spares fun _ _ => ⟨rfl, trivial⟩
  have hschedule {state : StopState} : state.Safe .schedule :=
    safe_of_spares fun _ _ => ⟨rfl, trivial⟩
  have hlive : (runAll secondOfTwo).logic.Live 0 := by decide +kernel
  have hstop : (runAll secondOfTwo).Safe (.signalProcess noAccess 0 sigstop) := by
    have hreceived := LogicLayer.receivedEffect_sigstop hlive noAccess
    refine safe_signalProcess hreceived (by simp) ?_
    have hqueue : (runAll secondOfTwo).logic.sched.readyQueue.count 0 ≤
        if ((runAll secondOfTwo).logic.waitState 0).Runnable then 1 else 0 := by decide +kernel
    have hfree : (runAll secondOfTwo).stopped 0 = none := by decide +kernel
    rw [SafeFor, ProcessCall.signalTo, if_pos rfl, hreceived, hfree]
    exact hqueue
  have hrun : SafelyReachable stoppedFirst :=
    ((((((SafelyReachable.init fun _ _ => 0).call _ hcreate).call _ hcreate).call _
      hschedule).call _ hschedule).call _ hstop).call _ hschedule
  have hexact := stopsExact hrun
  have hliveStopped : stoppedFirst.logic.Live 0 := by decide +kernel
  refine ⟨by decide +kernel, hexact.1, hexact.2 noAccess 0 hliveStopped ?_⟩
  have hstopped : stoppedFirst.stopped 0 = some ⟨.ready, [], false⟩ := by decide +kernel
  rw [SafeFor, ProcessCall.signalTo, if_pos rfl,
    LogicLayer.receivedEffect_sigcont hliveStopped noAccess, hstopped]
  decide

/-- The second process sleeps for a tick, and a stop signal is sent to it. -/
def sleeperStopped : List ProcessCall :=
  secondOfTwo ++ [.sleepProcess 1 1, .signalProcess noAccess 1 sigstop, .tick noAccess, .schedule]

/-- The end of its sleep resumes a process that was stopped, and `SIGCONT` ends the sleep of a
process that was not. -/
theorem not_stopsExact_of_reachable :
    (¬∀ state, Reachable state → state.StaysStopped) ∧
      ¬∀ state, Reachable state → ∀ accessible p, state.logic.Live p →
        state.ContinuesExactly accessible p := by
  constructor
  · intro h
    have hstays := (h _ (reachable_runAll sleeperStopped) 1 (by decide +kernel)).1
    exact hstays (by decide +kernel)
  · intro h
    have hcontinues := (h _ (reachable_runAll (secondOfTwo ++ [.sleepProcess 1 1])) noAccess 1
      (by decide +kernel)).1
    have hstatus := congrArg WaitState.status hcontinues
    exact absurd hstatus (by decide +kernel)

end StopState

end TwistedOS
