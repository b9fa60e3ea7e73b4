import TwistedOS.Logic.VforkProtocol

/-!
# What an operation does to a record

An operation keeps the fields of a record, or it frees the slot, or it fills a free slot with the
record of a new process. For a function of the records that does not look at what scheduling, exits,
`vfork` and, where a signal is delivered, signals change, this holds of every operation of the logic
layer.

## Main definitions

* `NewRecord` — the records with which a slot is filled.
* `IgnoresVfork` — the function does not look at the flags of `vfork`.
* `LogicLayer.SlotKept`, `LogicLayer.SlotChange` — what an operation does to one slot.

## Main results

* `LogicLayer.SlotChange.run`.
-/

namespace TwistedOS

open Function

/-- The function does not look at the flags that `vfork` sets. -/
structure IgnoresVfork {α : Type*} (g : Process → α) : Prop where
  parent : ∀ childId process, g (LogicLayer.markVforkParent childId process) = g process
  child : ∀ parentId process, g (LogicLayer.markVforkChild parentId process) = g process

/-- The operation delivers no signal. -/
def ProcessCall.DeliversNoSignal : ProcessCall → Prop
  | signalProcess _ _ _ | tick _ => False
  | _ => True

/-- The operation creates a child in the address space of the running process. -/
def ProcessCall.SharesAddressSpace : ProcessCall → Prop
  | vfork _ | cloneVm _ _ => True
  | _ => False

/-- A direct change of a record keeps a function of it. -/
def ProcessCall.KeepsField {α : Type*} (g : Process → α) (logic : LogicLayer) : ProcessCall → Prop
  | changeRecord id f => g { f (logic.processes id) with status := (logic.processes id).status } =
      g (logic.processes id)
  | _ => True

namespace LogicLayer

variable {α : Type*} {g : Process → α} {logic logic₁ logic₂ logic₃ : LogicLayer} {id p : ℕ}

/-- The records with which an operation fills a free slot. -/
inductive NewRecord (logic : LogicLayer) (id : ℕ) : ProcessCall → Process → Prop
  | kernel (state : CpuState) (hfirst : logic.pm.firstTerminated = some id) :
    NewRecord logic id (.createKernelProcess state)
      (initializeProcessEntry id .ready .kernel none state)
  | user (space : ℕ) (state : CpuState) (hfirst : logic.pm.firstTerminated = some id) :
    NewRecord logic id (.createUserProcess state)
      (initializeProcessEntry id .ready .user (some space) state)
  | forked (parentId : ℕ) (outcome : CopyOutcome) (hlive : logic.Live parentId)
    (huser : (logic.processes parentId).level = .user) :
    NewRecord logic id (.copyProcess parentId outcome)
      (withSignalActions (logic.processes parentId).signalActions (logic.forkedRecord parentId id))
  | sharing (c : ProcessCall) (hc : c.SharesAddressSpace) (parentId space : ℕ) (state : CpuState)
    (hlt : parentId < maxProcesses) (hrunning : logic.status parentId = .running) :
    NewRecord logic id c (shareWith parentId (logic.processes parentId)
      (initializeProcessEntry id .ready .user (some space) state))

/-- The record of a slot keeps its fields and its life, or the slot is freed. -/
inductive SlotKept (g : Process → α) (p : ℕ) (logic₁ logic₂ : LogicLayer) : Prop
  | same (hfields : g (logic₂.processes p) = g (logic₁.processes p))
    (hlife : logic₂.status p = .terminated ↔ logic₁.status p = .terminated)
  | freed (hfields : g (logic₂.processes p) =
      g (initializeProcessEntry p .terminated .kernel none {}))
    (hdead : logic₂.status p = .terminated)

/-- What the operation `c` does to a slot: it is kept, freed or filled. -/
inductive SlotChange (g : Process → α) (c : ProcessCall) (p : ℕ) (logic₁ logic₂ : LogicLayer) :
    Prop
  | kept (h : SlotKept g p logic₁ logic₂)
  | filled (process : Process) (hnew : NewRecord logic₁ p c process)
    (hfields : g (logic₂.processes p) = g process) (hfree : logic₁.status p = .terminated)

/-- The fields of another record and its life are kept by the death of a process. -/
theorem killProcess_of_not (hg : IgnoresScheduling g) (hexit : IgnoresExits g)
    (h : ¬(p = id ∧ id < maxProcesses)) (exitStatus : ℕ) :
    g ((logic.killProcess id exitStatus).processes p) = g (logic.processes p) := by
  have hreported : Keeps g (((logic.freeRecord id).dropReady id).removeWaits id)
      (logic.killProcess id exitStatus) := .reportChildExit hg hexit _ _
  exact (hreported p).trans (congrArg g (freeRecord_processes_of_not h))

theorem trackRunning_processes (logic : LogicLayer) (id : ℕ) :
    logic.trackRunning.processes id = logic.processes id :=
  congrFun ProcessManager.getRunningProcess_processes id

/-- `CopyProcess` fails at once, or builds a child of a user process in a free slot. -/
theorem copyProcess_eq_of_user (logic : LogicLayer) (parentId : ℕ) (outcome : CopyOutcome) :
    logic.copyProcess parentId outcome = (none, logic) ∨
      (logic.Live parentId ∧ (logic.processes parentId).level = .user) ∧ ∃ childId,
        childId < maxProcesses ∧ logic.status childId = .terminated ∧
          logic.copyProcess parentId outcome =
            (logic.modify childId fun _ =>
              logic.forkedRecord parentId childId).takeAddressSpace.finishCopy childId
                (logic.processes parentId).signalActions outcome := by
  obtain heq | hcopied := copyProcess_eq logic parentId outcome
  · exact .inl heq
  · by_cases hsource : logic.Live parentId ∧ (logic.processes parentId).level = .user
    · exact .inr ⟨hsource, hcopied⟩
    · left
      rw [LogicLayer.copyProcess]
      exact if_neg fun h => hsource ⟨h.1, h.2.1⟩

/-- `GetRunningProcess` moves the tracked id only. -/
theorem trackRunning_eq (logic : LogicLayer) : ∃ id,
    logic.trackRunning = { logic with pm := { logic.pm with currentProcessId := id } } := by
  have hprocesses : logic.pm.getRunningProcess.2.processes = logic.pm.processes :=
    ProcessManager.getRunningProcess_processes
  have hpm : logic.pm.getRunningProcess.2 =
      ⟨logic.pm.processes, logic.pm.getRunningProcess.2.currentProcessId⟩ := by
    rw [← hprocesses]
  exact ⟨_, congrArg (fun pm => { logic with pm := pm }) hpm⟩

theorem firstTerminated_trackRunning :
    logic.trackRunning.pm.firstTerminated = logic.pm.firstTerminated := by
  obtain ⟨id, heq⟩ := trackRunning_eq logic
  rw [heq]
  rfl

/-- A child takes the first free slot. -/
theorem firstTerminated_of_createChild {state : CpuState} {space : ℕ} {f : Process → Process}
    {created : LogicLayer} (h : logic.createChild state space f = some (id, created)) :
    logic.pm.firstTerminated = some id := by
  obtain ⟨pair, hpair, heq⟩ := Option.map_eq_some_iff.mp h
  obtain ⟨slot, hslot, hcreated⟩ := Option.map_eq_some_iff.mp hpair
  rw [hslot, ← (Prod.mk.inj heq).1, ← hcreated]

/-- A signal keeps the fields and the life of the other processes. -/
theorem applySignal_of_ne (hg : IgnoresSignals g) (hexit : IgnoresExits g) (hp : p ≠ id)
    (signal : ℕ) (effect : SignalEffect) :
    g ((logic.applySignal id signal effect).processes p) = g (logic.processes p) ∧
      ((logic.applySignal id signal effect).status p = .terminated ↔
        logic.status p = .terminated) := by
  by_cases hterminate : ∃ coreDump, effect = .terminate coreDump
  · obtain ⟨coreDump, rfl⟩ := hterminate
    have hcleared : (logic.clearPending id signal).processes p = logic.processes p :=
      ProcessManager.modify_processes_of_ne hp
    have hnot : ¬(p = id ∧ id < maxProcesses) := fun h => hp h.1
    refine ⟨(killProcess_of_not hg.toIgnoresScheduling hexit hnot _).trans (congrArg g hcleared),
      (KeepsLife.killProcess_of_not hnot _).trans ?_⟩
    rw [status, hcleared]
  · rw [not_exists] at hterminate
    exact ⟨Keeps.applySignal hg signal hterminate p, KeepsLife.applySignal signal hterminate p⟩

namespace SlotKept

theorem of_keeps (hkeeps : Keeps g logic₁ logic₂) (hlife : KeepsLife logic₁ logic₂) (p : ℕ) :
    SlotKept g p logic₁ logic₂ :=
  .same (hkeeps p) (hlife p)

theorem of_eq (h : logic₂.processes p = logic₁.processes p) : SlotKept g p logic₁ logic₂ :=
  .same (congrArg g h) (by rw [status, h])

theorem trans (h₁ : SlotKept g p logic₁ logic₂) (h₂ : SlotKept g p logic₂ logic₃) :
    SlotKept g p logic₁ logic₃ := by
  cases h₂ with
  | same hfields hlife =>
    cases h₁ with
    | same hfields' hlife' => exact .same (hfields.trans hfields') (hlife.trans hlife')
    | freed hfields' hdead => exact .freed (hfields.trans hfields') (hlife.mpr hdead)
  | freed hfields hdead => exact .freed hfields hdead

theorem killProcess (hg : IgnoresScheduling g) (hexit : IgnoresExits g) (id exitStatus p : ℕ) :
    SlotKept g p logic (logic.killProcess id exitStatus) := by
  by_cases hkilled : p = id ∧ id < maxProcesses
  · have hrecord := @killProcess_processes_self logic id hkilled.2 exitStatus
    rw [← hkilled.1] at hrecord ⊢
    exact .freed (congrArg g hrecord) (congrArg Process.status hrecord)
  · exact .same (killProcess_of_not hg hexit hkilled exitStatus)
      (KeepsLife.killProcess_of_not hkilled exitStatus)

theorem modify {f : Process → Process} (hf : g (f (logic.processes id)) = g (logic.processes id))
    (hstatus : (f (logic.processes id)).status = (logic.processes id).status) (p : ℕ) :
    SlotKept g p logic (logic.modify id f) :=
  of_keeps (.modify hf) (.of_eq (status_modify_of_eq hstatus)) p

section

variable (hg : IgnoresSignals g) (hexit : IgnoresExits g)

include hg hexit

theorem applySignal (signal : ℕ) (effect : SignalEffect) (p : ℕ) :
    SlotKept g p logic (logic.applySignal id signal effect) := by
  by_cases hterminate : ∃ coreDump, effect = .terminate coreDump
  · obtain ⟨coreDump, rfl⟩ := hterminate
    have hcleared : SlotKept g p logic (logic.clearPending id signal) :=
      modify (hg.pending _ _) rfl p
    exact hcleared.trans (killProcess hg.toIgnoresScheduling hexit id _ p)
  · rw [not_exists] at hterminate
    exact of_keeps (.applySignal hg signal hterminate) (.applySignal signal hterminate) p

theorem signalProcess (accessible : UserAccess) (id signal p : ℕ) :
    SlotKept g p logic ((logic.signalProcess accessible id signal).getD logic) := by
  rw [signalProcess_eq]
  split_ifs
  · exact applySignal hg hexit signal _ p
  · exact of_eq rfl

theorem tickIntervalTimer
    (htimer : ∀ process, g (decrementIntervalTimer process) = g process ∧
      g (reloadIntervalTimer process) = g process) (accessible : UserAccess) (id p : ℕ) :
    SlotKept g p logic (logic.tickIntervalTimer accessible id) := by
  have hreload (process : Process) : (reloadIntervalTimer process).status = process.status := by
    rw [reloadIntervalTimer]
    split_ifs <;> rfl
  have hticked : SlotKept g p logic (logic.modify id decrementIntervalTimer) :=
    modify (htimer _).1 rfl p
  rw [LogicLayer.tickIntervalTimer]
  split_ifs
  · exact of_eq rfl
  · rw [fireIntervalTimer]
    exact (hticked.trans (signalProcess hg hexit accessible id sigalrm p)).trans
      (modify (htimer _).2 (hreload _) p)
  · exact hticked

end

theorem tickSleepers (hg : IgnoresScheduling g) (p : ℕ) : SlotKept g p logic logic.tickSleepers := by
  set ticked : LogicLayer := { logic with sync := logic.sync.tick }
  have hticked : SlotKept g p logic ticked := of_eq rfl
  rw [LogicLayer.tickSleepers]
  dsimp only
  split
  · exact hticked.trans (of_keeps (.resumeBlocked hg) .resumeBlocked p)
  · exact hticked

theorem tick (hg : IgnoresSignals g) (hexit : IgnoresExits g)
    (htimer : ∀ process, g (decrementIntervalTimer process) = g process ∧
      g (reloadIntervalTimer process) = g process) (accessible : UserAccess) (p : ℕ) :
    SlotKept g p logic (logic.tick accessible) := by
  have htimers (ids : List ℕ) (logic : LogicLayer) : SlotKept g p logic
      (ids.foldl (fun logic id => logic.tickIntervalTimer accessible id) logic) := by
    induction ids generalizing logic with
    | nil => exact of_eq rfl
    | cons id ids ih => exact (tickIntervalTimer hg hexit htimer accessible id p).trans (ih _)
  exact (htimers (List.range maxProcesses) logic).trans (tickSleepers hg.toIgnoresScheduling p)

end SlotKept

namespace SlotChange

variable {c : ProcessCall}

theorem of_keeps (hkeeps : Keeps g logic₁ logic₂) (hlife : KeepsLife logic₁ logic₂) (p : ℕ) :
    SlotChange g c p logic₁ logic₂ :=
  .kept (.of_keeps hkeeps hlife p)

theorem of_eq (h : logic₂.processes p = logic₁.processes p) : SlotChange g c p logic₁ logic₂ :=
  .kept (.of_eq h)

/-- A slot is filled, and then only what the function ignores changes. -/
theorem of_filled {process : Process} (hnew : NewRecord logic id c process)
    (hfree : logic.status id = .terminated)
    (hkeeps : Keeps g (logic.modify id fun _ => process) logic₂)
    (hlife : KeepsLife (logic.modify id fun _ => process) logic₂) (p : ℕ) :
    SlotChange g c p logic logic₂ := by
  by_cases hp : p = id
  · subst hp
    refine .filled process hnew ((hkeeps p).trans ?_) hfree
    rw [modify_const_processes]
  · have hsame : (logic.modify id fun _ => process).processes p = logic.processes p :=
      modify_const_processes_of_ne process hp
    refine .kept (.same ((hkeeps p).trans (congrArg g hsame)) ((hlife p).trans ?_))
    rw [status, hsame]

theorem createKernelProcess (state : CpuState) (p : ℕ) :
    SlotChange g (.createKernelProcess state) p logic (logic.createKernelProcess state) := by
  rw [LogicLayer.createKernelProcess]
  cases hcreate : logic.pm.createKernelProcess state with
  | none => exact of_eq rfl
  | some created =>
    obtain ⟨-, hfree, hpm⟩ := ProcessManager.createKernelProcess_eq_some hcreate
    have hprocesses : created.2.processes = (logic.modify created.1 fun _ =>
        initializeProcessEntry created.1 .ready .kernel none state).pm.processes := by
      rw [hpm]
      rfl
    have hfirst : logic.pm.firstTerminated = some created.1 := by
      obtain ⟨id, hid, heq⟩ := Option.map_eq_some_iff.mp hcreate
      rw [hid, ← heq]
    exact of_filled (.kernel state hfirst) hfree (.of_eq hprocesses)
      (.of_eq (funext fun q => congrArg Process.status (congrFun hprocesses q))) p

theorem createUserProcess (state : CpuState) (p : ℕ) :
    SlotChange g (.createUserProcess state) p logic (logic.createUserProcess state) := by
  rw [LogicLayer.createUserProcess]
  split
  next id created hcreate =>
    obtain ⟨-, hfree, rfl⟩ := createChild_eq_some hcreate
    set created := logic.modify id fun _ => initializeProcessEntry id .ready .user
      (some logic.nextAddressSpace) state
    have hkeeps : Keeps g created (created.takeAddressSpace.pushReady id) := .of_eq rfl
    have hlife : KeepsLife created (created.takeAddressSpace.pushReady id) := .refl created
    exact of_filled (.user _ state (firstTerminated_of_createChild hcreate)) hfree hkeeps hlife p
  next => exact of_eq rfl

/-- A child is created, and killed because its memory, files or event queues cannot be built. -/
theorem of_discarded {process : Process} (hg : IgnoresScheduling g) (hexit : IgnoresExits g)
    (hlt : id < maxProcesses) (exitStatus p : ℕ) :
    SlotChange g c p logic
      (((logic.modify id fun _ => process).takeAddressSpace).killProcess id exitStatus) := by
  set created := (logic.modify id fun _ => process).takeAddressSpace
  by_cases hp : p = id
  · subst hp
    have hrecord := @killProcess_processes_self created p hlt exitStatus
    exact .kept (.freed (congrArg g hrecord) (congrArg Process.status hrecord))
  · have hsame : created.processes p = logic.processes p := modify_const_processes_of_ne process hp
    exact .kept (SlotKept.trans (.of_eq hsame) (.killProcess hg hexit id exitStatus p))

theorem copyProcess (hg : IgnoresScheduling g) (hexit : IgnoresExits g) (outcome : CopyOutcome)
    (p : ℕ) : SlotChange g (.copyProcess id outcome) p logic (logic.copyProcess id outcome).2 := by
  obtain heq | ⟨⟨hlive, huser⟩, childId, hlt, hfree, heq⟩ := copyProcess_eq_of_user logic id outcome
  · rw [heq]
    exact of_eq rfl
  · rw [heq, finishCopy]
    split_ifs
    · set created := (logic.modify childId fun _ => logic.forkedRecord id childId).takeAddressSpace
      by_cases hp : p = childId
      · subst hp
        have hrecord : ((created.modify p (withSignalActions
            (logic.processes id).signalActions)).pushReady p).processes p =
            withSignalActions (logic.processes id).signalActions (created.processes p) :=
          ProcessManager.modify_processes_self
        have hcreated : created.processes p = logic.forkedRecord id p := modify_const_processes _
        rw [hcreated] at hrecord
        exact .filled _ (.forked id outcome hlive huser) (congrArg g hrecord) hfree
      · have hsame : ((created.modify childId (withSignalActions
            (logic.processes id).signalActions)).pushReady childId).processes p =
            created.processes p := ProcessManager.modify_processes_of_ne hp
        exact of_eq (hsame.trans (modify_const_processes_of_ne _ hp))
    · exact of_discarded hg hexit hlt 0 p

/-- A child whose files could not be duplicated. -/
theorem discardChild {process : Process} (hlt : id < maxProcesses) (p : ℕ) :
    SlotChange g c p logic ((logic.modify id fun _ => process).discardChild id) := by
  have hrecord : ((logic.modify id fun _ => process).discardChild id).processes p =
      if p = id then initializeProcessEntry id .terminated .kernel none {} else logic.processes p := by
    change ((logic.modify id fun _ => process).pm.killProcess id).processes p = _
    rw [ProcessManager.killProcess, if_pos hlt]
    split_ifs with hp
    · rw [hp, ProcessManager.setProcess_processes_self]
    · rw [ProcessManager.setProcess_processes_of_ne hp]
      exact modify_const_processes_of_ne process hp
  split_ifs at hrecord with hp
  · subst hp
    exact .kept (.freed (congrArg g hrecord) (congrArg Process.status hrecord))
  · exact of_eq hrecord

theorem beginVfork (hg : IgnoresScheduling g) (hvfork : IgnoresVfork g) (parentId : ℕ)
    {process : Process} (hnew : NewRecord logic id c process) (hfree : logic.status id = .terminated)
    (p : ℕ) : SlotChange g c p logic ((logic.modify id fun _ => process).beginVfork parentId id) := by
  set created := logic.modify id fun _ => process
  set flagged := (created.modify parentId (markVforkParent id)).modify id (markVforkChild parentId)
  have hflagged : Keeps g created flagged :=
    Keeps.trans (.modify (hvfork.parent _ _)) (.modify (hvfork.child _ _))
  have hflaggedLife : KeepsLife created flagged :=
    KeepsLife.trans (.of_eq (status_modify_of_eq rfl)) (.of_eq (status_modify_of_eq rfl))
  have hmarked : Keeps g (flagged.addProcessToReadyQueue id)
      ((flagged.addProcessToReadyQueue id).modify parentId markKernelContext) :=
    .modify (hg.kernelContext _)
  have hmarkedLife : KeepsLife (flagged.addProcessToReadyQueue id)
      ((flagged.addProcessToReadyQueue id).modify parentId markKernelContext) :=
    .of_eq (status_modify_of_eq (markKernelContext_status _))
  exact of_filled hnew hfree
    (((hflagged.trans (.addProcessToReadyQueue hg)).trans hmarked).trans (.blockProcess hg))
    (((hflaggedLife.trans .addProcessToReadyQueue).trans hmarkedLife).trans .blockProcess) p

theorem vforkFrom (hg : IgnoresScheduling g) (hvfork : IgnoresVfork g)
    (hc : c.SharesAddressSpace) (filesError : Option ℤ)
    {parentId : ℕ} (hlt : parentId < maxProcesses) (hrunning : logic.status parentId = .running)
    (p : ℕ) :
    SlotChange g c p logic (logic.vforkFrom filesError parentId).2 := by
  rw [LogicLayer.vforkFrom]
  split_ifs
  · exact of_eq rfl
  · split
    · split
      next => exact of_eq rfl
      next childId created hcreate =>
        obtain ⟨hchild, hfree, rfl⟩ := createChild_eq_some hcreate
        cases filesError with
        | none => exact beginVfork hg hvfork parentId (.sharing c hc parentId _ _ hlt hrunning) hfree p
        | some error => exact discardChild hchild p
    · exact of_eq rfl

theorem cloneVmFrom (hg : IgnoresScheduling g) (hc : c.SharesAddressSpace)
    (childStack : Option ℕ) (filesError : Option ℤ)
    {parentId : ℕ} (hlt : parentId < maxProcesses) (hrunning : logic.status parentId = .running)
    (p : ℕ) :
    SlotChange g c p logic (logic.cloneVmFrom childStack filesError parentId).2 := by
  rw [LogicLayer.cloneVmFrom]
  split
  · split
    next => exact of_eq rfl
    next childId created hcreate =>
      obtain ⟨hchild, hfree, rfl⟩ := createChild_eq_some hcreate
      cases filesError with
      | none =>
        exact of_filled (.sharing c hc parentId _ _ hlt hrunning) hfree (.addProcessToReadyQueue hg)
          .addProcessToReadyQueue p
      | some error => exact discardChild hchild p
  · exact of_eq rfl

/-- `GetRunningProcess` moves the tracked id only. -/
theorem of_trackRunning (h : SlotChange g c p logic.trackRunning logic₂) :
    SlotChange g c p logic logic₂ := by
  have hprocesses : logic.trackRunning.pm.processes = logic.pm.processes :=
    ProcessManager.getRunningProcess_processes
  have hstatus (q : ℕ) : logic.trackRunning.status q = logic.status q := by
    rw [status_trackRunning]
  cases h with
  | kept h => exact .kept (SlotKept.trans (.of_eq (trackRunning_processes logic p)) h)
  | filled process hnew hfields hfree =>
    rw [hstatus] at hfree
    refine .filled process ?_ hfields hfree
    cases hnew with
    | kernel state hfirst => exact .kernel state (by rwa [firstTerminated_trackRunning] at hfirst)
    | user space state hfirst =>
      exact .user space state (by rwa [firstTerminated_trackRunning] at hfirst)
    | forked parentId outcome hlive huser =>
      rw [forkedRecord, trackRunning_processes] at *
      exact .forked parentId outcome ⟨hlive.1, hstatus parentId ▸ hlive.2⟩ huser
    | sharing _ hc parentId space state hlt hrunning =>
      rw [trackRunning_processes]
      exact .sharing _ hc parentId space state hlt (hstatus parentId ▸ hrunning)

/-- A system call of the running process. -/
theorem withRunning {f : LogicLayer → ℕ → ℤ × LogicLayer} (p : ℕ)
    (hf : ∀ id, id < maxProcesses → logic.trackRunning.status id = .running →
      SlotChange g c p logic.trackRunning (f logic.trackRunning id).2) :
    SlotChange g c p logic (logic.withRunning f).2 := by
  rw [LogicLayer.withRunning]
  split
  · exact of_eq (trackRunning_processes logic p)
  next id hid =>
    obtain ⟨hlt, hrunning, -⟩ := ProcessManager.getRunningProcess_eq_some hid
    refine of_trackRunning (hf id hlt ?_)
    rw [status_trackRunning]
    exact hrunning

theorem finishRunProcess (hg : IgnoresScheduling g) (target current p : ℕ) :
    SlotChange g c p logic (ProcessCall.run logic (.finishRunProcess target current)) := by
  rw [ProcessCall.run]
  split_ifs with hcurrent
  · rw [LogicLayer.finishRunProcess]
    split_ifs with htarget
    · have hready : KeepsLife logic (logic.setStatus target .ready) :=
        .setStatus (by simp) (by simp [htarget])
      exact of_keeps (Keeps.trans (.setStatus hg _) (.setStatus hg _))
        (hready.trans (.setStatus (by simp) ((hready current).not.mpr (by simp [hcurrent])))) p
    · exact of_keeps (.setStatus hg _) (.setStatus (by simp) (by simp [hcurrent])) p
  · exact of_eq rfl

/-- An operation of the logic layer. -/
theorem run (hg : IgnoresScheduling g) (hexit : IgnoresExits g) (hvfork : IgnoresVfork g)
    (hc : c.KeepsField g logic)
    (hsignals : ¬c.DeliversNoSignal → IgnoresSignals g ∧ ∀ process,
      g (decrementIntervalTimer process) = g process ∧ g (reloadIntervalTimer process) = g process)
    (p : ℕ) : SlotChange g c p logic (c.run logic) := by
  cases c with
  | createKernelProcess state => exact createKernelProcess state p
  | createUserProcess state => exact createUserProcess state p
  | copyProcess id outcome => exact copyProcess hg hexit outcome p
  | vfork filesError =>
    have hshares : (ProcessCall.vfork filesError).SharesAddressSpace := trivial
    exact withRunning p fun id hlt hrunning => vforkFrom hg hvfork hshares filesError hlt hrunning p
  | cloneVm childStack filesError =>
    have hshares : (ProcessCall.cloneVm childStack filesError).SharesAddressSpace := trivial
    exact withRunning p fun id hlt hrunning =>
      cloneVmFrom hg hshares childStack filesError hlt hrunning p
  | sleepProcess id waitTicks =>
    exact of_keeps (.sleepProcess hg waitTicks) (.sleepProcess waitTicks) p
  | blockProcess id => exact of_keeps (.blockProcess hg) .blockProcess p
  | blockProcessForTTYInput id =>
    exact of_keeps (.blockProcessForTTYInput hg) .blockProcessForTTYInput p
  | wakeProcess id => exact of_keeps (.resumeBlocked hg) .resumeBlocked p
  | unblockProcess id => exact of_keeps (.resumeBlocked hg) .resumeBlocked p
  | notifyTTYInputAvailable =>
    exact of_keeps (.notifyTTYInputAvailable hg) .notifyTTYInputAvailable p
  | signalProcess accessible id signal =>
    exact .kept (.signalProcess (hsignals fun h => h).1 hexit accessible id signal p)
  | addProcessToReadyQueue id =>
    exact of_keeps (.addProcessToReadyQueue hg) .addProcessToReadyQueue p
  | killProcess id exitStatus => exact .kept (.killProcess hg hexit id exitStatus p)
  | tick accessible =>
    obtain ⟨hsignal, htimer⟩ := hsignals fun h => h
    exact .kept (.tick hsignal hexit htimer accessible p)
  | schedule => exact of_keeps (.schedule hg) .schedule p
  | finishRunProcess target current => exact finishRunProcess hg target current p
  | getRunningProcess => exact of_keeps .trackRunning (.of_eq status_trackRunning) p
  | changeRecord id f =>
    set kept : Process → Process := fun process => { f process with status := process.status }
    have hkeeps : Keeps g logic (logic.modify id kept) := .modify hc
    have hlife : KeepsLife logic (logic.modify id kept) := .of_eq (status_modify_of_eq rfl)
    exact of_keeps hkeeps hlife p
  | changeMemory memory => exact of_eq rfl

end SlotChange

end LogicLayer

end TwistedOS
