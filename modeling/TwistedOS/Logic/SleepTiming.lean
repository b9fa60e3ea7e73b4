import TwistedOS.Logic.RecordFields

/-!
# The end of a sleep

`SleepProcess` enters a process into the sleep queue with a number of ticks. Every tick takes one
tick off each entry, but wakes only one process: the first one in the queue whose time is over. A
process that nothing else disturbs is therefore blocked until its last tick, and becomes ready at
it exactly when no entry before its own is due.

## Main definitions

* `LogicLayer.Asleep` — a process is blocked with one entry in the sleep queue.
* `ProcessCall.Undisturbed` — a call neither signals, wakes nor kills a process.
* `ProcessCall.SleepRun` — a run that does not disturb a process, with its number of ticks.
* `LogicLayer.firstDue` — the process that the next tick wakes.

## Main results

* `ProcessCall.sleepProcess_onTime` — when a sleeping process is woken.
-/

namespace TwistedOS

open Function

namespace LogicLayer

variable {logic logic' : LogicLayer} {id p n : ℕ}

/-- The process is blocked and not queued, and its only entry in the sleep queue has `n` ticks
left. -/
structure Asleep (p n : ℕ) (logic : LogicLayer) : Prop where
  status_eq : logic.status p = .blocked
  notMem_readyQueue : p ∉ logic.sched.readyQueue
  sleepQueue_eq : logic.sync.sleepQueue.filter (fun tag => tag.id = p) = [⟨p, n⟩]

/-- The process of the first entry of the sleep queue that has at most one tick left. -/
def firstDue (logic : LogicLayer) : Option ℕ :=
  (logic.sync.sleepQueue.find? fun tag => tag.waitTicksRemaining ≤ 1).map SleepTag.id

/-- The tick wakes the process of the first entry that is due. -/
theorem getNextProcessToWake_tick : logic.sync.tick.getNextProcessToWake = logic.firstDue := by
  have hpred : (fun tag : SleepTag => decide (tag.waitTicksRemaining = 0)) ∘ SleepTag.tick =
      fun tag => decide (tag.waitTicksRemaining ≤ 1) := by
    funext tag
    change decide (tag.waitTicksRemaining - 1 = 0) = _
    rw [decide_eq_decide]
    omega
  rw [SynchronizationManager.getNextProcessToWake, SynchronizationManager.tick, firstDue]
  simp only [List.find?_map, hpred, Option.map_map]
  rfl

namespace Asleep

section

variable (h : Asleep p n logic)

include h

theorem frame (hframe : Frame p logic logic') : Asleep p n logic' where
  status_eq := hframe.status_eq.trans h.status_eq
  notMem_readyQueue := hframe.mem_readyQueue.not.mpr h.notMem_readyQueue
  sleepQueue_eq := hframe.sleepQueue_eq.trans h.sleepQueue_eq

theorem modify {f : Process → Process} (hf : (f (logic.processes id)).status = logic.status id) :
    Asleep p n (logic.modify id f) where
  status_eq := (congrFun (status_modify_of_eq hf) p).trans h.status_eq
  notMem_readyQueue := h.notMem_readyQueue
  sleepQueue_eq := h.sleepQueue_eq

theorem status_ne_running : logic.status p ≠ .running := by
  simp [h.status_eq]

/-- The entry of a sleeping process. -/
theorem mem_sleepQueue_iff {ticks : ℕ} : ⟨p, ticks⟩ ∈ logic.sync.sleepQueue ↔ ticks = n := by
  have hmem : (⟨p, ticks⟩ : SleepTag) ∈ logic.sync.sleepQueue.filter (fun tag => tag.id = p) ↔
      ticks = n := by
    rw [h.sleepQueue_eq]
    simp
  rwa [List.mem_filter, and_iff_left (by simp)] at hmem

end

/-- The interval timers leave a sleeping process alone whose own timer does not run out. -/
theorem tickIntervalTimers_foldl (accessible : UserAccess) {ids : List ℕ} (hids : ids.Nodup)
    (h : Asleep p n logic) (hchild : (logic.processes p).waitingForChild = false)
    (htimer : p ∈ ids → (logic.processes p).realIntervalTimerRemainingTicks ≠ 1) :
    Asleep p n (ids.foldl (fun logic id => logic.tickIntervalTimer accessible id) logic) := by
  induction ids generalizing logic with
  | nil => exact h
  | cons id ids ih =>
    obtain ⟨hid, htail⟩ := List.nodup_cons.mp hids
    rw [List.foldl_cons]
    by_cases hne : p = id
    · subst hne
      have hnot := htimer (List.mem_cons_self ..)
      rw [tickIntervalTimer]
      split_ifs
      · exact ih htail h hchild fun hmem => absurd hmem hid
      · have hself : (logic.modify p decrementIntervalTimer).processes p = _ :=
          ProcessManager.modify_processes_self
        refine ih htail (h.modify rfl) ?_ fun hmem => absurd hmem hid
        rw [hself]
        exact hchild
    · have hframe : Frame p logic (logic.tickIntervalTimer accessible id) :=
        .tickIntervalTimer hne fun _ _ _ => not_deathWakes hchild
      refine ih htail (h.frame hframe) (hframe.waitingForChild_eq.trans hchild) fun hmem => ?_
      rw [hframe.realIntervalTimerRemainingTicks_eq]
      exact htimer (List.mem_cons_of_mem _ hmem)

theorem tickIntervalTimers (h : Asleep p n logic) (accessible : UserAccess)
    (hchild : (logic.processes p).waitingForChild = false)
    (htimer : (logic.processes p).realIntervalTimerRemainingTicks ≠ 1) :
    Asleep p n (logic.tickIntervalTimers accessible) :=
  tickIntervalTimers_foldl accessible List.nodup_range h hchild fun _ => htimer

theorem tickSync (h : Asleep p (n + 1) logic) :
    Asleep p n { logic with sync := logic.sync.tick } where
  status_eq := h.status_eq
  notMem_readyQueue := h.notMem_readyQueue
  sleepQueue_eq := by
    change (logic.sync.sleepQueue.map _).filter _ = _
    rw [List.filter_map]
    have hpred : (fun tag : SleepTag => decide (tag.id = p)) ∘ SleepTag.tick =
        fun tag => decide (tag.id = p) := rfl
    rw [hpred, h.sleepQueue_eq]
    rfl

/-- A tick that wakes another process. -/
theorem tickSleepers (h : Asleep p (n + 1) logic) (hdue : logic.firstDue ≠ some p) :
    Asleep p n logic.tickSleepers := by
  rw [LogicLayer.tickSleepers]
  rcases hwake : logic.sync.tick.getNextProcessToWake with _ | id
  · exact h.tickSync
  · rw [getNextProcessToWake_tick] at hwake
    have hne : p ≠ id := fun heq => hdue (heq ▸ hwake)
    exact h.tickSync.frame (.resumeBlocked hne)

/-- A process that is not due yet is not woken. -/
theorem firstDue_ne (h : Asleep p (n + 2) logic) : logic.firstDue ≠ some p := by
  intro hdue
  obtain ⟨tag, htag, rfl⟩ := Option.map_eq_some_iff.mp hdue
  have hticks : tag.waitTicksRemaining = n + 2 :=
    h.mem_sleepQueue_iff.mp (List.mem_of_find?_eq_some htag)
  have hle := List.find?_some htag
  rw [decide_eq_true_eq] at hle
  omega

/-- The tick that wakes the process. -/
theorem status_tickSleepers (h : Asleep p (n + 1) logic) (hlt : p < maxProcesses)
    (hdue : logic.firstDue = some p) : logic.tickSleepers.status p = .ready := by
  have hwake : ({ logic with sync := logic.sync.tick } : LogicLayer).sync.getNextProcessToWake =
      some p := getNextProcessToWake_tick.trans hdue
  rw [LogicLayer.tickSleepers]
  simp only [hwake]
  rw [wakeProcess, resumeBlocked, if_pos ⟨hlt, h.status_eq⟩]
  exact (congrFun (status_setStatus _) p).trans (update_self ..)

theorem of_sleepProcess (hlt : p < maxProcesses) (hrunning : logic.status p = .running)
    (hqueued : logic.sched.readyQueue.count p ≤ 1) (hnew : p ∉ logic.sync.sleepers) :
    Asleep p n (logic.sleepProcess p n) := by
  have hsuspended : Asleep p n
      { logic.suspend p with sync := logic.sync.addToSleepQueue p n } := by
    refine ⟨(congrFun status_suspend p).trans (update_self ..), ?_, ?_⟩
    · change p ∉ (logic.suspend p).sched.readyQueue
      rw [suspend_readyQueue, ← List.count_pos_iff, List.count_erase_self]
      omega
    · have hnone : logic.sync.sleepQueue.filter (fun tag => tag.id = p) = [] := by
        refine List.filter_eq_nil_iff.mpr fun tag htag => ?_
        have hne : tag.id ≠ p := fun heq => hnew (heq ▸ List.mem_map_of_mem htag)
        simpa using hne
      change (logic.sync.sleepQueue ++ [SleepTag.mk p n]).filter _ = _
      rw [List.filter_append, hnone]
      simp
  rw [sleepProcess, if_pos ⟨hlt, hrunning⟩]
  exact hsuspended.frame (.schedule hsuspended.notMem_readyQueue hsuspended.status_ne_running)

end Asleep

end LogicLayer

open LogicLayer (Frame status_trackRunning)

namespace ProcessCall

variable {logic logic' : LogicLayer} {p n k : ℕ}

/-- A call is not directed at the process `p` and does not end its wait for a child. -/
def LeavesAlone (logic : LogicLayer) (p : ℕ) : ProcessCall → Prop
  | wakeProcess id | unblockProcess id | addProcessToReadyQueue id | changeRecord id _ => p ≠ id
  | killProcess id _ => p ≠ id ∧ ¬logic.DeathWakes id p
  | signalProcess accessible id signal =>
    p ≠ id ∧ ∀ coreDump, logic.receivedEffect accessible id signal = some (.terminate coreDump) →
      ¬logic.DeathWakes id p
  | copyProcess id outcome =>
    id = p → outcome = .failsAfterCreation → (logic.processes p).waitingForChild = false
  | notifyTTYInputAvailable => logic.sync.getNextTTYInputWaiter ≠ some p
  | tick _ => False
  | _ => True

/-- A blocked process that is not queued is left alone by a call that is not directed at it. -/
theorem frame_run (hblocked : logic.status p = .blocked) (hqueue : p ∉ logic.sched.readyQueue)
    {c : ProcessCall} (hc : c.LeavesAlone logic p) : Frame p logic (c.run logic) := by
  have hrun : logic.status p ≠ .running := by simp [hblocked]
  have hlive : logic.status p ≠ .terminated := by simp [hblocked]
  have htracked : logic.trackRunning.status p = logic.status p := congrFun status_trackRunning p
  cases c with
  | createKernelProcess state => exact .createKernelProcess state hlive
  | createUserProcess state => exact .createUserProcess state hlive
  | copyProcess id outcome => exact .copyProcess hlive hc
  | vfork filesError =>
    refine .withRunning fun id hid => ?_
    exact .vforkFrom filesError (Frame.ne_running hrun hid) (htracked ▸ hlive) hqueue
      (htracked ▸ hrun)
  | cloneVm childStack filesError =>
    exact .withRunning fun id _ => .cloneVmFrom childStack filesError (htracked ▸ hlive)
  | sleepProcess id waitTicks =>
    rcases eq_or_ne p id with rfl | hne
    · rw [run, LogicLayer.sleepProcess, if_neg fun hid => hrun hid.2]
      exact .refl p logic
    · exact .sleepProcess waitTicks hne hqueue hrun
  | blockProcess id =>
    rcases eq_or_ne p id with rfl | hne
    · rw [run, LogicLayer.blockProcess, if_neg fun hid => hrun hid.2]
      exact .refl p logic
    · exact .blockProcess hne hqueue hrun
  | blockProcessForTTYInput id =>
    rcases eq_or_ne p id with rfl | hne
    · rw [run, LogicLayer.blockProcessForTTYInput, if_neg fun hid => hrun hid.2]
      exact .refl p logic
    · exact .blockProcessForTTYInput hne hqueue hrun
  | wakeProcess id => exact .resumeBlocked hc
  | unblockProcess id => exact .resumeBlocked hc
  | notifyTTYInputAvailable => exact .notifyTTYInputAvailable hc
  | signalProcess accessible id signal => exact .signalProcess hc.1 hc.2
  | addProcessToReadyQueue id => exact .addProcessToReadyQueue hc
  | killProcess id exitStatus => exact .killProcess exitStatus hc.1 hc.2
  | tick accessible => exact absurd hc id
  | schedule => exact .schedule hqueue hrun
  | finishRunProcess target current =>
    rw [run]
    split_ifs with hcurrent
    · exact .finishRunProcess hrun hcurrent
    · exact .refl p logic
  | getRunningProcess => exact .trackRunning
  | changeRecord id f => exact .modify _ hc
  | changeMemory memory => exact .of_eq rfl rfl rfl

/-- A call does not signal, wake or kill the process `p`: it is not directed at `p`, the interval
timer of `p` does not run out, and `p` is not the parent that the death of a child wakes. -/
def Undisturbed (logic : LogicLayer) (p : ℕ) : ProcessCall → Prop
  | wakeProcess id | unblockProcess id | addProcessToReadyQueue id => p ≠ id
  | killProcess id _ | signalProcess _ id _ =>
    p ≠ id ∧ (logic.processes p).waitingForChild = false
  | copyProcess _ _ => (logic.processes p).waitingForChild = false
  | notifyTTYInputAvailable => logic.sync.getNextTTYInputWaiter ≠ some p
  | tick _ =>
    (logic.processes p).realIntervalTimerRemainingTicks ≠ 1 ∧
      (logic.processes p).waitingForChild = false
  | _ => True

/-- A tick. -/
def IsTick : ProcessCall → Prop
  | tick _ => True
  | _ => False

/-- A change of a record. -/
def IsRecordChange : ProcessCall → Prop
  | changeRecord _ _ => True
  | _ => False

theorem Undisturbed.leavesAlone {c : ProcessCall} (hc : c.Undisturbed logic p)
    (htick : ¬c.IsTick) (hrecord : ¬c.IsRecordChange) : c.LeavesAlone logic p := by
  cases c with
  | copyProcess id outcome => exact fun _ _ => hc
  | signalProcess accessible id signal => exact ⟨hc.1, fun _ _ => LogicLayer.not_deathWakes hc.2⟩
  | killProcess id exitStatus => exact ⟨hc.1, LogicLayer.not_deathWakes hc.2⟩
  | tick accessible => exact absurd trivial htick
  | changeRecord id f => exact absurd trivial hrecord
  | _ => exact hc

/-- A sleeping process stays asleep in a call that does not disturb it and is not a tick. -/
theorem asleep_run (h : logic.Asleep p n) {c : ProcessCall} (hc : c.Undisturbed logic p)
    (htick : ¬c.IsTick) : (c.run logic).Asleep p n := by
  by_cases hrecord : c.IsRecordChange
  · cases c with
    | changeRecord id f => exact h.modify rfl
    | _ => exact absurd hrecord id
  · exact h.frame (frame_run h.status_eq h.notMem_readyQueue (hc.leavesAlone htick hrecord))

/-- The states that calls lead to which do not disturb `p`, with the number of ticks. -/
inductive SleepRun (p : ℕ) (start : LogicLayer) : ℕ → LogicLayer → Prop
  | refl : SleepRun p start 0 start
  | call {k : ℕ} {logic : LogicLayer} (h : SleepRun p start k logic) (c : ProcessCall)
    (hc : c.Undisturbed logic p) (htick : ¬c.IsTick) : SleepRun p start k (c.run logic)
  | tick {k : ℕ} {logic : LogicLayer} (h : SleepRun p start k logic) (accessible : UserAccess)
    (hc : (ProcessCall.tick accessible).Undisturbed logic p) :
    SleepRun p start (k + 1) (logic.tick accessible)

/-- A process is asleep with the ticks that are left. -/
theorem SleepRun.asleep {start : LogicLayer} (h : SleepRun p start k logic)
    (hstart : start.Asleep p n) (hk : k < n) : logic.Asleep p (n - k) := by
  induction h with
  | refl => exact hstart
  | call _ c hc htick ih => exact asleep_run (ih hk) hc htick
  | @tick k logic _ accessible hc ih =>
    have hasleep : logic.Asleep p (n - (k + 1) + 1) := by
      have := ih (by omega)
      rwa [show n - (k + 1) + 1 = n - k by omega]
    have htimers := hasleep.tickIntervalTimers accessible hc.2 hc.1
    refine htimers.tickSleepers ?_
    obtain ⟨m, hm⟩ : ∃ m, n - (k + 1) = m + 1 := ⟨n - (k + 1) - 1, by omega⟩
    rw [hm] at htimers
    exact htimers.firstDue_ne

/-- A process that goes to sleep for `n` ticks is blocked until its last tick, and becomes ready at
it exactly when it is the first one in the sleep queue that is due. -/
theorem sleepProcess_onTime (hlt : p < maxProcesses) (hrunning : logic.status p = .running)
    (hqueued : logic.sched.readyQueue.count p ≤ 1) (hnew : p ∉ logic.sync.sleepers) (hn : 1 ≤ n) :
    (∀ k logic', SleepRun p (logic.sleepProcess p n) k logic' → k < n →
      logic'.status p = .blocked) ∧
    ∀ logic' accessible, SleepRun p (logic.sleepProcess p n) (n - 1) logic' →
      (tick accessible).Undisturbed logic' p →
      ((logic'.tick accessible).status p = .ready ↔
        (logic'.tickIntervalTimers accessible).firstDue = some p) := by
  have hstart : (logic.sleepProcess p n).Asleep p n := .of_sleepProcess hlt hrunning hqueued hnew
  refine ⟨fun k logic' hrun hk => (hrun.asleep hstart hk).status_eq,
    fun logic' accessible hrun hc => ?_⟩
  have hlast : n - (n - 1) = 1 := by omega
  have hasleep : logic'.Asleep p 1 := hlast ▸ hrun.asleep hstart (Nat.sub_lt hn Nat.one_pos)
  have htimers : (logic'.tickIntervalTimers accessible).Asleep p (0 + 1) :=
    hasleep.tickIntervalTimers accessible hc.2 hc.1
  rw [LogicLayer.tick]
  constructor
  · intro hready
    by_contra hdue
    have hblocked := (htimers.tickSleepers hdue).status_eq
    rw [hblocked] at hready
    exact absurd hready (by simp)
  · exact htimers.status_tickSleepers hlt

/-- Three user processes start and the second one runs. -/
def secondOfThree : List ProcessCall :=
  [.createUserProcess {}, .createUserProcess {}, .createUserProcess {}, .schedule, .schedule]

/-- The second of three processes sleeps for two ticks. -/
theorem sleepProcess_onTime_secondOfThree :
    (∀ k logic', SleepRun 1 ((runAll secondOfThree).sleepProcess 1 2) k logic' → k < 2 →
      logic'.status 1 = .blocked) ∧
    ∀ logic' accessible, SleepRun 1 ((runAll secondOfThree).sleepProcess 1 2) (2 - 1) logic' →
      (tick accessible).Undisturbed logic' 1 →
      ((logic'.tick accessible).status 1 = .ready ↔
        (logic'.tickIntervalTimers accessible).firstDue = some 1) :=
  sleepProcess_onTime (by decide) (by decide +kernel) (by decide +kernel) (by decide +kernel)
    (by decide)

/-- Two processes that sleep until the same tick: the second one is not woken at it. -/
theorem not_all_sleeps_onTime :
    ¬ ∀ (logic : LogicLayer) (p n : ℕ), Reachable logic → p < maxProcesses →
      logic.status p = .running → 1 ≤ n → ∀ logic' accessible,
        SleepRun p (logic.sleepProcess p n) (n - 1) logic' →
        (tick accessible).Undisturbed logic' p → (logic'.tick accessible).status p = .ready := by
  intro h
  have hready := h (runAll (secondOfThree ++ [.sleepProcess 1 1])) 2 1 (reachable_runAll _)
    (by decide) (by decide +kernel) le_rfl _ (fun _ _ _ => true) .refl
    ⟨by decide +kernel, by decide +kernel⟩
  have hblocked : (((runAll (secondOfThree ++ [.sleepProcess 1 1])).sleepProcess 2 1).tick
      fun _ _ _ => true).status 2 = .blocked := by decide +kernel
  rw [hblocked] at hready
  exact absurd hready (by simp)

end ProcessCall

end TwistedOS
