import TwistedOS.Logic.VforkProtocol

/-!
# Runs of the vfork protocol

In a run whose calls are all *safe*, a process waits exactly as long as the child it created by
`vfork` is alive and has not replaced its program, it is blocked and never selected meanwhile, and
it can be scheduled again after the call that ends the loan.

A signal is unsafe when it kills a child that borrows, or when it continues a suspended parent or
starts a handler in it: `KillProcess` does not release the parent, and `SIGCONT` and handlers wake
it. The end of a loan whose lender was killed is unsafe when the lender's slot was taken by a
process that is itself suspended, whose wait it would end.

## Main definitions

* `VforkCall`, `VforkCall.run`, `VforkCall.Safe`.
* `VforkCall.nextBorrowed` — the history of the loans.
* `VforkCall.SafeRun` — runs of safe calls, with the loans.

## Main results

* `VforkCall.SafeRun.vforkExact`.
-/

namespace TwistedOS

open Function

/-- A step of the vfork protocol. `vfork` stands for `clone` with `CLONE_VFORK` as well, and
`signal` for each signal that `kill` sends. `changeRecord` stands for all other code: it changes a
record in other fields than the status and the waits for children. -/
inductive VforkCall where
  | createUserProcess (state : CpuState)
  | fork (outcome : LogicLayer.CopyOutcome)
  | vfork (filesError : Option ℤ)
  | execve (newState : Option CpuState)
  | exitGroup (status : ℕ)
  | signal (accessible : UserAccess) (id signalNumber : ℕ)
  | schedule
  | getRunningProcess
  | changeRecord (id : ℕ) (f : Process → Process)

/-- The status and the waits for children of a record, with the other fields of another one. -/
def keepWaits (process changed : Process) : Process :=
  { changed with
    status := process.status
    waitingForVforkChild := process.waitingForVforkChild
    vforkChildId := process.vforkChildId
    isVforkChild := process.isVforkChild
    vforkParentId := process.vforkParentId
    waitingForChild := process.waitingForChild }

/-- The processes that wait for a vfork child are those from which a child borrows; they are
blocked and not selected by the scheduler. -/
structure LogicLayer.VforkExact (logic : LogicLayer) (borrowed : ℕ → Option ℕ) : Prop where
  wait_iff : ∀ p child, (logic.processes p).waitingForVforkChild = true ∧
    (logic.processes p).vforkChildId = child ↔ borrowed child = some p
  blocked_of_waiting : ∀ p, (logic.processes p).waitingForVforkChild = true →
    logic.status p = .blocked
  not_selected : ∀ p, (logic.processes p).waitingForVforkChild = true →
    logic.sched.selectNextProcess.1 ≠ some p

namespace VforkCall

open LogicLayer

variable {logic logic' : LogicLayer} {borrowed borrowed' : ℕ → Option ℕ}

/-- The state after a call. -/
def run (logic : LogicLayer) : VforkCall → LogicLayer
  | createUserProcess state => logic.createUserProcess state
  | fork outcome => (logic.handleForkSystemCall outcome).2
  | vfork filesError => (logic.handleVforkSystemCall filesError).2
  | execve newState => (logic.handleExecveSystemCall newState).2
  | exitGroup status => logic.handleExitGroupSystemCall status
  | signal accessible id signalNumber =>
    (logic.signalProcess accessible id signalNumber).getD logic
  | schedule => logic.schedule
  | getRunningProcess => logic.trackRunning
  | changeRecord id f => logic.modify id fun process => keepWaits process (f process)

/-- The loans after a call, including those of which a party has died: `vfork` begins a loan when
it returns a child, and `execve` ends it when it succeeds. -/
def lend (logic : LogicLayer) (borrowed : ℕ → Option ℕ) : VforkCall → ℕ → Option ℕ
  | vfork none =>
    match logic.running with
    | none => borrowed
    | some parentId =>
      if 0 ≤ (logic.handleVforkSystemCall none).1 then
        update borrowed (logic.handleVforkSystemCall none).1.toNat (some parentId)
      else borrowed
  | execve (some _) =>
    match logic.running with
    | none => borrowed
    | some id => update borrowed id none
  | _ => borrowed

/-- The loans after a call, between processes that are alive. -/
def nextBorrowed (logic : LogicLayer) (borrowed : ℕ → Option ℕ) (c : VforkCall) (child : ℕ) :
    Option ℕ :=
  (c.lend logic borrowed child).filter fun parent =>
    decide ((c.run logic).Live child ∧ (c.run logic).Live parent)

/-- The running process does not end the wait of a process that has taken the slot of its dead
lender. -/
def NoStaleLender (logic : LogicLayer) (borrowed : ℕ → Option ℕ) : Prop :=
  ∀ id lender, logic.running = some id → vforkLender (logic.processes id) = some lender →
    borrowed id = none → (logic.processes lender).waitingForVforkChild = false

/-- The condition under which a call keeps the protocol exact. -/
def Safe (logic : LogicLayer) (borrowed : ℕ → Option ℕ) : VforkCall → Prop
  | signal accessible id signalNumber =>
    1 ≤ signalNumber → signalNumber ≤ signalMax → logic.Live id →
      match signalEffect accessible id (logic.processes id) signalNumber with
      | .terminate _ => borrowed id = none
      | .resume | .handle _ => (logic.processes id).waitingForVforkChild = false
      | .discard | .pend | .stop => True
  | execve (some _) | exitGroup _ => NoStaleLender logic borrowed
  | _ => True

/-- The runs from the start of the kernel, with the loans at their end. -/
inductive Run : LogicLayer → (ℕ → Option ℕ) → Prop
  | init (memory : ℕ → ByteMemory) : Run { memory := memory } fun _ => none
  | call {logic : LogicLayer} {borrowed : ℕ → Option ℕ} (h : Run logic borrowed) (c : VforkCall) :
    Run (c.run logic) (c.nextBorrowed logic borrowed)

/-- The runs of safe calls. -/
inductive SafeRun : LogicLayer → (ℕ → Option ℕ) → Prop
  | init (memory : ℕ → ByteMemory) : SafeRun { memory := memory } fun _ => none
  | call {logic : LogicLayer} {borrowed : ℕ → Option ℕ} (h : SafeRun logic borrowed)
    (c : VforkCall) (hc : c.Safe logic borrowed) :
    SafeRun (c.run logic) (c.nextBorrowed logic borrowed)

theorem waitingForVforkChild_eq_false {process : Process} :
    process.waitingForVforkChild = false ↔ vforkWait process = none := by
  rw [vforkWait]
  split_ifs with hflag <;> simp [hflag]

/-- A loan whose parties are alive stays, the others end. -/
theorem filter_live_eq (h : VforkInvariant logic' borrowed') {lent : ℕ → Option ℕ}
    (hle : ∀ p child, borrowed' child = some p → lent child = some p)
    (hdead : ∀ p child, lent child = some p → borrowed' child = none →
      logic'.status child = .terminated ∨ logic'.status p = .terminated) :
    (fun child => (lent child).filter fun p => decide (logic'.Live child ∧ logic'.Live p)) =
      borrowed' := by
  funext child
  rcases hb : borrowed' child with _ | p
  · rcases hl : lent child with _ | p
    · rfl
    · refine Option.filter_eq_none_iff.mpr fun q hq => ?_
      obtain rfl := Option.mem_some_iff.mp hq
      rcases hdead p child hl hb with hchild | hp
      · simp [Live, hchild]
      · simp [Live, hp]
  · have hblocked := h.blocked_of_borrowed p child hb
    have hchild := h.live_of_borrowed p child hb
    have hlive : logic'.Live child ∧ logic'.Live p :=
      ⟨⟨h.exact.lt_of_ne_terminated hchild, hchild⟩,
        h.exact.lt_of_ne_terminated (by simp [hblocked]), by simp [hblocked]⟩
    rw [hle p child hb]
    simp [hlive]

/-- What a call does to the loans: a loan that ends while its lender lives leaves the lender in the
ready queue. -/
structure Step (logic : LogicLayer) (borrowed : ℕ → Option ℕ) (c : VforkCall) : Prop where
  invariant : VforkInvariant (c.run logic) (c.nextBorrowed logic borrowed)
  released : ∀ p child, borrowed child = some p → c.nextBorrowed logic borrowed child ≠ some p →
    (c.run logic).status p ≠ .terminated → p ∈ (c.run logic).sched.readyQueue

namespace Step

variable {c : VforkCall}

theorem of_lend (h : VforkInvariant (c.run logic) borrowed')
    (hle : ∀ p child, borrowed' child = some p → c.lend logic borrowed child = some p)
    (hdead : ∀ p child, c.lend logic borrowed child = some p → borrowed' child = none →
      (c.run logic).status child = .terminated ∨ (c.run logic).status p = .terminated)
    (hreleased : ∀ p child, borrowed child = some p → borrowed' child ≠ some p →
      (c.run logic).status p ≠ .terminated → p ∈ (c.run logic).sched.readyQueue) :
    Step logic borrowed c := by
  have hnext : c.nextBorrowed logic borrowed = borrowed' := filter_live_eq h hle hdead
  refine ⟨?_, ?_⟩
  · rw [hnext]
    exact h
  · rw [hnext]
    exact hreleased

/-- A call that begins and ends no loan. -/
theorem of_unchanged (h : VforkInvariant (c.run logic) borrowed)
    (hlend : c.lend logic borrowed = borrowed) : Step logic borrowed c :=
  of_lend h (fun _ _ hp => (congrFun hlend _).trans hp)
    (fun p child hp hnone => by
      rw [hlend, hnone] at hp
      exact absurd hp (by simp))
    fun _ _ hp hne => absurd hp hne

theorem withRunning_none {f : LogicLayer → ℕ → ℤ × LogicLayer} (hid : logic.running = none) :
    logic.withRunning f = (errEfault, logic.trackRunning) := by
  rw [withRunning, hid]

theorem withRunning_some {f : LogicLayer → ℕ → ℤ × LogicLayer} {id : ℕ}
    (hid : logic.running = some id) : logic.withRunning f = f logic.trackRunning id := by
  rw [withRunning, hid]

theorem status_running {id : ℕ} (hid : logic.running = some id) :
    logic.trackRunning.status id = .running := by
  rw [status_trackRunning]
  exact (ProcessManager.getRunningProcess_eq_some hid).2.1

section

variable (h : VforkInvariant logic borrowed)

include h

theorem fork (outcome : CopyOutcome) : Step logic borrowed (.fork outcome) := by
  refine of_unchanged ?_ rfl
  change VforkInvariant (logic.withRunning _).2 borrowed
  rcases hid : logic.running with _ | id
  · rw [withRunning_none hid]
    exact h.trackRunning
  · rw [withRunning_some hid]
    exact h.trackRunning.forkFrom outcome id

theorem vfork (filesError : Option ℤ) : Step logic borrowed (.vfork filesError) := by
  have hrun : run logic (.vfork filesError) =
      (logic.withRunning fun logic => logic.vforkFrom filesError).2 := rfl
  have hlend : lend logic borrowed (.vfork none) =
      match logic.running with
      | none => borrowed
      | some parentId =>
        if 0 ≤ (logic.withRunning fun logic => logic.vforkFrom none).1 then
          update borrowed (logic.withRunning fun logic => logic.vforkFrom none).1.toNat
            (some parentId)
        else borrowed := rfl
  rcases hid : logic.running with _ | id
  · rw [withRunning_none hid] at hrun
    refine of_unchanged (hrun ▸ h.trackRunning) ?_
    rcases filesError with _ | error
    · rw [hlend, hid]
    · rfl
  · rw [withRunning_some hid] at hrun hlend
    rw [hid] at hlend
    dsimp only at hlend
    obtain ⟨hafter, hfails⟩ | ⟨childId, rfl, hchild, hfresh, hafter⟩ :=
      h.trackRunning.vforkFrom (status_running hid) filesError
    · refine of_unchanged (hrun ▸ hafter) ?_
      rcases filesError with _ | error
      · exact hlend.trans (if_neg (not_le.mpr (hfails rfl)))
      · rfl
    · rw [hchild, if_pos (Int.natCast_nonneg childId), Int.toNat_natCast] at hlend
      refine of_lend (hrun ▸ hafter) (fun p child hp => hlend ▸ hp) (fun p child hp hnone => ?_)
        fun p child hp hne => ?_
      · rw [hlend, hnone] at hp
        exact absurd hp (by simp)
      · have hchildId : child ≠ childId := by
          rintro rfl
          rw [hfresh] at hp
          exact absurd hp (by simp)
        rw [update_of_ne hchildId] at hne
        exact absurd hp hne

theorem execve {newState : Option CpuState} (hsafe : Safe logic borrowed (.execve newState)) :
    Step logic borrowed (.execve newState) := by
  rcases newState with _ | newState
  · refine of_unchanged ?_ rfl
    change VforkInvariant (logic.withRunning _).2 borrowed
    rcases hid : logic.running with _ | id
    · rw [withRunning_none hid]
      exact h.trackRunning
    · rw [withRunning_some hid]
      exact h.trackRunning
  have hrun : run logic (.execve (some newState)) =
      (logic.withRunning fun logic => logic.execveFrom (some newState)).2 := rfl
  have hlend : lend logic borrowed (.execve (some newState)) =
      match logic.running with
      | none => borrowed
      | some id => update borrowed id none := rfl
  rcases hid : logic.running with _ | id
  · rw [withRunning_none hid] at hrun
    exact of_unchanged (hrun ▸ h.trackRunning) (by rw [hlend, hid])
  · rw [withRunning_some hid] at hrun
    rw [hid] at hlend
    dsimp only at hlend
    have hkeeps : Keeps vforkRole logic logic.trackRunning := .trackRunning
    obtain ⟨hafter, hreleased⟩ := h.trackRunning.execveFrom (fun lender hlender hnone => by
      rw [show vforkWait _ = _ from congrArg (·.1) (hkeeps lender)]
      refine waitingForVforkChild_eq_false.mp (hsafe id lender hid ?_ hnone)
      exact (congrArg (·.2.1) (hkeeps id)).symm.trans hlender) newState
    refine of_lend (hrun ▸ hafter) (fun p child hp => hlend ▸ hp) (fun p child hp hnone => ?_)
      fun p child hp hne _ => ?_
    · rw [hlend, hnone] at hp
      exact absurd hp (by simp)
    · have hchild : child = id := by
        by_contra hne'
        rw [update_of_ne hne'] at hne
        exact hne hp
      rw [hrun]
      exact hreleased p (hchild ▸ hp)

end

theorem terminated_exitGroupFrom {id : ℕ} (hlt : id < maxProcesses) (status : ℕ) :
    (logic.exitGroupFrom status id).status id = .terminated := by
  have hdead : (logic.killProcess id (exitWaitStatus status)).status id = .terminated :=
    congrArg Process.status (killProcess_processes_self hlt _)
  rw [exitGroupFrom, KeepsLife.schedule]
  split_ifs
  · exact (KeepsLife.releaseVforkParent id).mpr hdead
  · exact hdead

section

variable (h : VforkInvariant logic borrowed)

include h

theorem exitGroup (status : ℕ) (hsafe : Safe logic borrowed (.exitGroup status)) :
    Step logic borrowed (.exitGroup status) := by
  have hrun : run logic (.exitGroup status) = match logic.running with
      | none => logic.trackRunning
      | some id => logic.trackRunning.exitGroupFrom status id := rfl
  rcases hid : logic.running with _ | id
  · rw [hid] at hrun
    exact of_unchanged (hrun ▸ h.trackRunning) rfl
  · rw [hid] at hrun
    dsimp only at hrun
    have hrunning := status_running hid
    have hkeeps : Keeps vforkRole logic logic.trackRunning := .trackRunning
    have hlt : id < maxProcesses := h.trackRunning.exact.lt_of_ne_terminated (by simp [hrunning])
    obtain ⟨hafter, hreleased⟩ := h.trackRunning.exitGroupFrom hrunning (fun lender hlender hnone => by
      rw [show vforkWait _ = _ from congrArg (·.1) (hkeeps lender)]
      refine waitingForVforkChild_eq_false.mp (hsafe id lender hid ?_ hnone)
      exact (congrArg (·.2.1) (hkeeps id)).symm.trans hlender) status
    refine of_lend (hrun ▸ hafter) (fun p child hp => ?_) (fun p child hp hnone => ?_)
      fun p child hp hne _ => ?_
    · have hchild : child ≠ id := by
        rintro rfl
        rw [update_self] at hp
        exact absurd hp (by simp)
      rwa [update_of_ne hchild] at hp
    · have hchild : child = id := by
        by_contra hne
        rw [update_of_ne hne] at hnone
        exact absurd (hp.symm.trans hnone) (by simp)
      left
      rw [hrun, hchild]
      exact terminated_exitGroupFrom hlt status
    · have hchild : child = id := by
        by_contra hne'
        rw [update_of_ne hne'] at hne
        exact hne hp
      rw [hrun]
      exact hreleased p (hchild ▸ hp)

theorem signal {accessible : UserAccess} {id signalNumber : ℕ}
    (hsafe : Safe logic borrowed (.signal accessible id signalNumber)) :
    Step logic borrowed (.signal accessible id signalNumber) := by
  rcases hsignal : logic.signalProcess accessible id signalNumber with _ | signalled
  · have hrun : run logic (.signal accessible id signalNumber) = logic := by
      rw [run, hsignal]
      rfl
    exact of_unchanged (by rw [hrun]; exact h) rfl
  have hrun : run logic (.signal accessible id signalNumber) = signalled := by
    rw [run, hsignal]
    rfl
  have hvalid : 1 ≤ signalNumber ∧ signalNumber ≤ signalMax ∧ logic.Live id := by
    by_contra hinvalid
    rw [signalProcess_eq, if_neg hinvalid] at hsignal
    exact absurd hsignal (by simp)
  have heffect := hsafe hvalid.1 hvalid.2.1 hvalid.2.2
  have hwaits : (∃ child, borrowed child = some id) →
      (logic.processes id).waitingForVforkChild ≠ false := by
    rintro ⟨child, hchild⟩ hfalse
    rw [waitingForVforkChild_eq_false, (h.wait_iff id child).mpr hchild] at hfalse
    exact absurd hfalse (by simp)
  obtain hafter | ⟨hdead, hafter⟩ := h.signalProcess hsignal
    (fun coreDump hterminate => by
      rw [hterminate] at heffect
      exact heffect)
    (fun hex => ⟨fun hresume => by
      rw [hresume] at heffect
      exact hwaits hex heffect, fun action hhandle => by
      rw [hhandle] at heffect
      exact hwaits hex heffect⟩)
  · exact of_unchanged (hrun ▸ hafter) rfl
  · refine of_lend (hrun ▸ hafter) (fun p child hp => ?_) (fun p child hp hnone => ?_)
      fun p child hp hne hlive => ?_
    · split_ifs at hp
      exact hp
    · split_ifs at hnone with hid
      · obtain rfl := Option.some.inj (hp.symm.trans hid)
        exact .inr (hrun ▸ hdead)
      · exact absurd (hp.symm.trans hnone) (by simp)
    · split_ifs at hne with hid
      · obtain rfl := Option.some.inj (hp.symm.trans hid)
        rw [hrun] at hlive
        exact absurd hdead hlive
      · exact absurd hp hne

/-- Each safe call keeps the agreement of the loans with the records. -/
theorem of_safe (hc : c.Safe logic borrowed) : Step logic borrowed c := by
  cases c with
  | createUserProcess state => exact of_unchanged (h.createUserProcess state) rfl
  | fork outcome => exact .fork h outcome
  | vfork filesError => exact .vfork h filesError
  | execve newState => exact .execve h hc
  | exitGroup status => exact .exitGroup h status hc
  | signal accessible id signalNumber => exact .signal h hc
  | schedule => exact of_unchanged h.schedule rfl
  | getRunningProcess => exact of_unchanged h.trackRunning rfl
  | changeRecord id f =>
    have hstatus : (run logic (.changeRecord id f)).status = logic.status :=
      status_modify_of_eq (f := fun process => keepWaits process (f process)) rfl
    refine of_unchanged (h.of_keeps (h.exact.modify rfl) h.noTTY ?_ ?_ (.of_eq hstatus)) rfl
    · exact Keeps.modify (f := fun process => keepWaits process (f process)) rfl
    · rw [hstatus]
      exact h.blocked_of_borrowed

end

end Step

theorem vforkInvariant_init (memory : ℕ → ByteMemory) :
    VforkInvariant { memory := memory } fun _ => none where
  exact := ProcessCall.queuesExact_init memory
  noTTY p := List.not_mem_nil
  noChildWait p := rfl
  wait_iff p child := by simp [vforkWait, ProcessManager.new, initializeProcessEntry]
  blocked_of_borrowed p child hp := absurd hp (by simp)
  lender_of_borrowed p child hp := absurd hp (by simp)
  live_of_borrowed p child hp := absurd hp (by simp)

theorem vforkExact_of_invariant (h : VforkInvariant logic borrowed) :
    VforkExact logic borrowed := by
  have hwait (p : ℕ) (hp : (logic.processes p).waitingForVforkChild = true) :
      borrowed (logic.processes p).vforkChildId = some p := by
    rw [← h.wait_iff, vforkWait, if_pos hp]
  refine ⟨fun p child => ?_, fun p hp => h.blocked_of_borrowed p _ (hwait p hp),
    fun p hp hselect => ?_⟩
  · rw [← h.wait_iff, vforkWait]
    split_ifs with hflag <;> simp [hflag]
  · obtain ⟨-, -, hmem⟩ := logic.sched.selectNextProcess_spec
    exact h.notMem_readyQueue (hwait p hp) (hmem p hselect)

namespace SafeRun

theorem vforkInvariant (h : SafeRun logic borrowed) : VforkInvariant logic borrowed := by
  induction h with
  | init memory => exact vforkInvariant_init memory
  | call _ c hc ih => exact (Step.of_safe ih hc).invariant

/-- In a run of safe calls the vfork protocol is exact in every state, and a call that ends a loan
leaves its lender ready or running and in the ready queue. -/
theorem vforkExact (h : SafeRun logic borrowed) :
    VforkExact logic borrowed ∧ ∀ c : VforkCall, c.Safe logic borrowed → ∀ p child,
      borrowed child = some p → c.nextBorrowed logic borrowed child ≠ some p →
      (c.run logic).status p ≠ .terminated →
        p ∈ (c.run logic).sched.readyQueue ∧
          ((c.run logic).status p = .ready ∨ (c.run logic).status p = .running) := by
  refine ⟨vforkExact_of_invariant h.vforkInvariant, fun c hc p child hp hne hlive => ?_⟩
  have hstep := Step.of_safe h.vforkInvariant hc
  have hmem := hstep.released p child hp hne hlive
  exact ⟨hmem, ((hstep.invariant.exact.mem_ready p).mp hmem).symm⟩

end SafeRun

/-- The state and the loans after a list of calls from the start of the kernel. -/
def runAll (calls : List VforkCall) : LogicLayer × (ℕ → Option ℕ) :=
  calls.foldl (fun now c => (c.run now.1, c.nextBorrowed now.1 now.2)) ({}, fun _ => none)

theorem run_runAll (calls : List VforkCall) : Run (runAll calls).1 (runAll calls).2 := by
  suffices h : ∀ now : LogicLayer × (ℕ → Option ℕ), Run now.1 now.2 →
      Run (calls.foldl (fun now c => (c.run now.1, c.nextBorrowed now.1 now.2)) now).1
        (calls.foldl (fun now c => (c.run now.1, c.nextBorrowed now.1 now.2)) now).2 from
    h _ (.init fun _ _ => 0)
  induction calls with
  | nil => exact fun _ h => h
  | cons c calls ih => exact fun now h => ih _ (h.call c)

/-- Two user processes start, and the second one calls `vfork`. -/
def oneVfork : List VforkCall :=
  [.createUserProcess {}, .createUserProcess {}, .schedule, .schedule,
    .changeRecord 1 fun process => { process with hasSavedSystemCallFrame := true }, .vfork none]

/-- A parent waits on for a vfork child that was killed by a signal. -/
theorem not_vforkExact_of_run :
    ¬ ∀ logic borrowed, Run logic borrowed → VforkExact logic borrowed := by
  intro h
  have hrun := run_runAll (oneVfork ++ [.signal (fun _ _ _ => true) 2 sigkill])
  have hwaits : ((runAll (oneVfork ++ [.signal (fun _ _ _ => true) 2 sigkill])).1.processes
      1).waitingForVforkChild = true ∧ ((runAll (oneVfork ++
        [.signal (fun _ _ _ => true) 2 sigkill])).1.processes 1).vforkChildId = 2 := by
    decide +kernel
  have hnone : (runAll (oneVfork ++ [.signal (fun _ _ _ => true) 2 sigkill])).2 2 = none := by
    decide +kernel
  rw [((h _ _ hrun).wait_iff 1 2).mp hwaits] at hnone
  exact absurd hnone (by simp)

/-- A run in which a process waits for its vfork child. -/
theorem SafeRun.vforkExact_oneVfork :
    VforkExact (runAll oneVfork).1 (runAll oneVfork).2 ∧
      ∀ c : VforkCall, c.Safe (runAll oneVfork).1 (runAll oneVfork).2 → ∀ p child,
        (runAll oneVfork).2 child = some p →
        c.nextBorrowed (runAll oneVfork).1 (runAll oneVfork).2 child ≠ some p →
        (c.run (runAll oneVfork).1).status p ≠ .terminated →
          p ∈ (c.run (runAll oneVfork).1).sched.readyQueue ∧
            ((c.run (runAll oneVfork).1).status p = .ready ∨
              (c.run (runAll oneVfork).1).status p = .running) :=
  SafeRun.vforkExact <| SafeRun.init (fun _ _ => 0)
    |>.call (.createUserProcess {}) trivial
    |>.call (.createUserProcess {}) trivial
    |>.call .schedule trivial
    |>.call .schedule trivial
    |>.call (.changeRecord 1 _) trivial
    |>.call (.vfork none) trivial

end VforkCall

end TwistedOS
