import TwistedOS.Logic.RecordFields

/-!
# The vfork protocol

A process that calls `vfork`, or `clone` with `CLONE_VFORK`, lends its address space to the child
and is suspended until the child replaces its program or ends. Both records carry flags: the parent
waits for the child, and the child has a lender.

The loans are a function from children to parents. Each operation keeps the agreement of the loans
with the flags, when it begins and ends loans as it should.

## Main definitions

* `vforkWait`, `vforkLender` — the loans that a record speaks of.
* `LogicLayer.SuspendedParents`, `LogicLayer.VforkInvariant`.

## Main results

* `LogicLayer.VforkInvariant.vforkFrom`, `LogicLayer.VforkInvariant.exitGroupFrom`,
  `LogicLayer.VforkInvariant.execveFrom`, `LogicLayer.VforkInvariant.signalProcess`.
-/

namespace TwistedOS

open Function
open ProcessManager (modify_processes_of_ne modify_processes_self)

/-- The child that a vfork parent waits for. -/
def vforkWait (process : Process) : Option ℕ :=
  if process.waitingForVforkChild then some process.vforkChildId else none

/-- The parent whose address space a vfork child borrows. -/
def vforkLender (process : Process) : Option ℕ :=
  if process.isVforkChild then some process.vforkParentId else none

/-- What a record says about waiting for children. -/
def vforkRole (process : Process) : Option ℕ × Option ℕ × Bool :=
  (vforkWait process, vforkLender process, process.waitingForChild)

theorem ignoresSignals_vforkRole : IgnoresSignals vforkRole where
  status _ _ := rfl
  kernelContext process := by
    rw [LogicLayer.markKernelContext]
    split_ifs <;> rfl
  pending _ _ := rfl
  interrupted _ := rfl
  handlerMask _ _ _ := rfl
  handler _ _ _ := rfl

namespace LogicLayer

variable {logic logic' : LogicLayer} {borrowed borrowed' : ℕ → Option ℕ}
variable {id p parentId childId : ℕ}

/-- The processes that wait for a vfork child are those from which a child borrows, and they are
blocked. -/
structure SuspendedParents (logic : LogicLayer) (borrowed : ℕ → Option ℕ) : Prop where
  exact : logic.QueuesExact
  noTTY : ∀ p, p ∉ logic.sync.ttyInputWaitQueue
  noChildWait : ∀ p, (logic.processes p).waitingForChild = false
  wait_iff : ∀ p child, vforkWait (logic.processes p) = some child ↔ borrowed child = some p
  blocked_of_borrowed : ∀ p child, borrowed child = some p → logic.status p = .blocked

/-- The loans agree with the records of parents and children, and the children are alive. -/
structure VforkInvariant (logic : LogicLayer) (borrowed : ℕ → Option ℕ) : Prop
    extends SuspendedParents logic borrowed where
  lender_of_borrowed : ∀ p child, borrowed child = some p →
    vforkLender (logic.processes child) = some p
  live_of_borrowed : ∀ p child, borrowed child = some p → logic.status child ≠ .terminated

/-- A running process that blocks is blocked until something resumes it. -/
theorem QueuesExact.status_blockProcess (h : logic.QueuesExact) (hid : logic.status id = .running) :
    (logic.blockProcess id).status id = .blocked := by
  have hlt : id < maxProcesses := h.lt_of_ne_terminated (by simp [hid])
  have hsuspended : (logic.suspend id).status id = .blocked := by
    rw [status_suspend, update_self]
  have hqueue : id ∉ (logic.suspend id).sched.readyQueue := by
    rw [(h.suspend hid).mem_ready, hsuspended]
    simp
  have hframe : Frame id (logic.suspend id) (logic.suspend id).schedule :=
    .schedule hqueue (by simp [hsuspended])
  rw [LogicLayer.blockProcess, if_pos ⟨hlt, hid⟩]
  exact hframe.status_eq.trans hsuspended

theorem modify_const_processes (process : Process) :
    (logic.modify id fun _ => process).processes id = process :=
  modify_processes_self (f := fun _ => process)

theorem modify_const_processes_of_ne (process : Process) (h : p ≠ id) :
    (logic.modify id fun _ => process).processes p = logic.processes p :=
  modify_processes_of_ne (f := fun _ => process) h

/-- The roles after a loan has begun. -/
theorem vforkRole_beginVfork (hne : parentId ≠ childId) (process : Process) (q : ℕ) :
    vforkRole (((logic.modify childId fun _ => process).beginVfork parentId childId).processes q) =
      if q = childId then (vforkWait process, some parentId, process.waitingForChild)
      else if q = parentId then (some childId, vforkLender (logic.processes parentId),
        (logic.processes parentId).waitingForChild)
      else vforkRole (logic.processes q) := by
  set created := logic.modify childId fun _ => process
  set flagged := (created.modify parentId (markVforkParent childId)).modify childId
    (markVforkChild parentId)
  have hg := ignoresSignals_vforkRole.toIgnoresScheduling
  have hmarked : Keeps vforkRole (flagged.addProcessToReadyQueue childId)
      ((flagged.addProcessToReadyQueue childId).modify parentId markKernelContext) :=
    .modify (hg.kernelContext _)
  have hkeeps : Keeps vforkRole flagged (created.beginVfork parentId childId) :=
    ((Keeps.addProcessToReadyQueue hg).trans hmarked).trans (.blockProcess hg)
  rw [hkeeps q]
  split_ifs with hchild hparent
  · subst hchild
    have hcreated : (created.modify parentId (markVforkParent q)).processes q = process :=
      (modify_processes_of_ne hne.symm).trans (modify_const_processes process)
    have hflagged : flagged.processes q = markVforkChild parentId process :=
      ProcessManager.modify_processes_self.trans (congrArg (markVforkChild parentId) hcreated)
    rw [hflagged]
    rfl
  · subst hparent
    have hcreated : created.processes q = logic.processes q :=
      modify_const_processes_of_ne process hne
    have hflagged : flagged.processes q = markVforkParent childId (logic.processes q) := by
      refine (modify_processes_of_ne hne).trans ?_
      exact ProcessManager.modify_processes_self.trans (congrArg (markVforkParent childId) hcreated)
    rw [hflagged]
    rfl
  · have hcreated : created.processes q = logic.processes q :=
      modify_const_processes_of_ne process hchild
    exact congrArg vforkRole ((modify_processes_of_ne hchild).trans
      ((modify_processes_of_ne hparent).trans hcreated))

/-- The status of every process once the child of `vfork` is ready. -/
theorem status_readyVforkChild (hlt : childId < maxProcesses) {process : Process}
    (hstatus : process.status = .ready) (parentId : ℕ) :
    (((((logic.modify childId fun _ => process).modify parentId (markVforkParent childId)).modify
      childId (markVforkChild parentId)).addProcessToReadyQueue childId).modify parentId
        markKernelContext).status = update logic.status childId .ready := by
  have hflagged : (((logic.modify childId fun _ => process).modify parentId
      (markVforkParent childId)).modify childId (markVforkChild parentId)).status =
      update logic.status childId .ready := by
    rw [status_modify_of_eq rfl, status_modify_of_eq rfl, ← hstatus]
    exact status_modify fun _ => process
  rw [status_modify_of_eq (markKernelContext_status _),
    addProcessToReadyQueue_of_ready hlt (by rw [hflagged, update_self]), ← hflagged]
  rfl

/-- The slots that are free after a loan has begun. -/
theorem terminated_beginVfork (hlt : childId < maxProcesses) {process : Process}
    (hstatus : process.status = .ready) (parentId q : ℕ) :
    ((logic.modify childId fun _ => process).beginVfork parentId childId).status q = .terminated ↔
      q ≠ childId ∧ logic.status q = .terminated := by
  rw [LogicLayer.beginVfork, KeepsLife.blockProcess, status_readyVforkChild hlt hstatus]
  by_cases hq : q = childId
  · simp [hq]
  · simp [hq]

theorem Frame.takeAddressSpace_modify (f : Process → Process) (h : p ≠ id) :
    Frame p logic (logic.modify id f).takeAddressSpace := by
  have hmodify : Frame p logic (logic.modify id f) := .modify f h
  exact hmodify.trans (.of_eq rfl rfl rfl)

/-- The record of a child that a fork has just created. -/
def forkedRecord (logic : LogicLayer) (parentId childId : ℕ) : Process :=
  inheritFrom parentId (logic.processes parentId) (initializeProcessEntry childId .ready .user
    (some logic.nextAddressSpace) { (logic.processes parentId).state with rax := 0 })

/-- `CopyProcess` fails at once, or builds a child in a free slot. -/
theorem copyProcess_eq (logic : LogicLayer) (parentId : ℕ) (outcome : CopyOutcome) :
    logic.copyProcess parentId outcome = (none, logic) ∨ ∃ childId,
      childId < maxProcesses ∧ logic.status childId = .terminated ∧
        logic.copyProcess parentId outcome =
          (logic.modify childId fun _ => logic.forkedRecord parentId childId).takeAddressSpace.finishCopy
            childId (logic.processes parentId).signalActions outcome := by
  rw [copyProcess]
  dsimp only
  split_ifs
  · rcases hcreate : logic.createChild _ _ _ with _ | ⟨childId, created⟩
    · exact .inl rfl
    · obtain ⟨hlt, hfree, rfl⟩ := createChild_eq_some hcreate
      exact .inr ⟨childId, hlt, hfree, rfl⟩
  · exact .inl rfl

namespace SuspendedParents

section

variable (h : SuspendedParents logic borrowed)

include h

theorem noChildWaitOnTTY : logic.NoChildWaitOnTTY :=
  fun p _ => h.noChildWait p

/-- A suspended parent is not queued. -/
theorem notMem_readyQueue {child : ℕ} (hp : borrowed child = some p) :
    p ∉ logic.sched.readyQueue := by
  rw [h.exact.mem_ready, h.blocked_of_borrowed p child hp]
  simp

/-- A suspended parent has one child that borrows. -/
theorem eq_of_borrowed {child child' : ℕ} (hp : borrowed child = some p)
    (hp' : borrowed child' = some p) : child' = child := by
  have hwait := (h.wait_iff p child').mpr hp'
  rw [(h.wait_iff p child).mpr hp] at hwait
  exact (Option.some.inj hwait).symm

/-- A step that keeps all waits for children and leaves the suspended parents blocked. -/
theorem of_keeps (hexact : logic'.QueuesExact) (htty : ∀ p, p ∉ logic'.sync.ttyInputWaitQueue)
    (hwait : Keeps vforkWait logic logic') (hchild : Keeps Process.waitingForChild logic logic')
    (hblocked : ∀ p child, borrowed child = some p → logic'.status p = .blocked) :
    SuspendedParents logic' borrowed where
  exact := hexact
  noTTY := htty
  noChildWait p := (hchild p).trans (h.noChildWait p)
  wait_iff p child := by rw [hwait p, h.wait_iff p child]
  blocked_of_borrowed := hblocked

/-- The death of a process also ends the loans from it. -/
theorem killProcess (hlt : id < maxProcesses) (exitStatus : ℕ) :
    SuspendedParents (logic.killProcess id exitStatus)
      fun child => if borrowed child = some id then none else borrowed child := by
  have hframe {q : ℕ} (hq : q ≠ id) : Frame q logic (logic.killProcess id exitStatus) :=
    .killProcess exitStatus hq (not_deathWakes (h.noChildWait q))
  have hdead : vforkRole ((logic.killProcess id exitStatus).processes id) = (none, none, false) := by
    rw [killProcess_processes_self hlt]
    rfl
  refine ⟨h.exact.killProcess h.noChildWaitOnTTY exitStatus,
    fun p hp => h.noTTY p ((FewerTTYWaits.killProcess exitStatus).mem_of_mem p hp),
    fun p => ?_, fun p child => ?_, fun p child hp => ?_⟩
  · by_cases hp : p = id
    · rw [hp]
      exact congrArg (·.2.2) hdead
    · exact (hframe hp).waitingForChild_eq.trans (h.noChildWait p)
  · by_cases hp : p = id
    · rw [hp, show vforkWait _ = none from congrArg (·.1) hdead]
      split_ifs with hchild <;> simp [hchild]
    · rw [(hframe hp).field_eq vforkWait fun _ => rfl, h.wait_iff p child]
      split_ifs with hchild
      · simp [hchild, Ne.symm hp]
      · rfl
  · split_ifs at hp with hchild
    have hne : p ≠ id := fun heq => hchild (heq ▸ hp)
    exact (hframe hne).status_eq.trans (h.blocked_of_borrowed p child hp)

/-- The end of the loan of a suspended parent wakes it. -/
theorem releaseVforkParent (hp : borrowed childId = some p) :
    SuspendedParents (logic.releaseVforkParent p childId) (update borrowed childId none) ∧
      (logic.releaseVforkParent p childId).status p = .ready := by
  have hwait : vforkWait (logic.processes p) = some childId := (h.wait_iff p childId).mpr hp
  have hblocked := h.blocked_of_borrowed p childId hp
  have hlt : p < maxProcesses := h.exact.lt_of_ne_terminated (by simp [hblocked])
  have hflags : (logic.processes p).waitingForVforkChild ∧
      (logic.processes p).vforkChildId = childId := by
    rw [vforkWait] at hwait
    split_ifs at hwait with hflag
    exact ⟨hflag, Option.some.inj hwait⟩
  have hcleared : (logic.modify p clearVforkParent).status = logic.status :=
    status_modify_of_eq rfl
  have hrelease : logic.releaseVforkParent p childId =
      (logic.modify p clearVforkParent).resumeBlocked p := by
    rw [LogicLayer.releaseVforkParent, if_pos ⟨hlt, by simp [hblocked]⟩, if_pos hflags]
    rfl
  have hstatus : ((logic.modify p clearVforkParent).resumeBlocked p).status =
      update logic.status p .ready := by
    rw [resumeBlocked, if_pos ⟨hlt, (congrFun hcleared p).trans hblocked⟩, ← hcleared,
      ← status_setStatus]
    rfl
  have hkeeps {α : Type} {g : Process → α} (hg : IgnoresScheduling g) :
      Keeps g (logic.modify p clearVforkParent) (logic.releaseVforkParent p childId) := by
    rw [hrelease]
    exact .resumeBlocked hg
  have hself : (logic.modify p clearVforkParent).processes p =
      clearVforkParent (logic.processes p) := modify_processes_self
  refine ⟨⟨?_, fun q hq => ?_, fun q => ?_, fun q child => ?_, fun q child hq => ?_⟩, ?_⟩
  · rw [hrelease]
    exact (h.exact.modify rfl).resumeBlocked fun _ => h.noTTY p
  · rw [hrelease] at hq
    have hfewer : FewerTTYWaits (logic.modify p clearVforkParent)
        ((logic.modify p clearVforkParent).resumeBlocked p) := .resumeBlocked
    exact h.noTTY q (hfewer.mem_of_mem q hq)
  · refine (congrArg (·.2.2) (hkeeps ignoresSignals_vforkRole.toIgnoresScheduling q)).trans ?_
    by_cases hqp : q = p
    · rw [hqp, hself]
      exact h.noChildWait p
    · have hother : (logic.modify p clearVforkParent).processes q = logic.processes q :=
        modify_processes_of_ne hqp
      rw [hother]
      exact h.noChildWait q
  · have hq : vforkWait _ = vforkWait _ :=
      congrArg (·.1) (hkeeps ignoresSignals_vforkRole.toIgnoresScheduling q)
    rw [hq]
    by_cases hqp : q = p
    · rw [hqp, hself, show vforkWait (clearVforkParent _) = none from rfl]
      by_cases hchild : child = childId
      · simp [hchild]
      · rw [update_of_ne hchild]
        exact iff_of_false (by simp) fun hb => hchild (h.eq_of_borrowed hp hb)
    · have hother : (logic.modify p clearVforkParent).processes q = logic.processes q :=
        modify_processes_of_ne hqp
      rw [hother, h.wait_iff q child]
      by_cases hchild : child = childId
      · rw [hchild, update_self, hp]
        simp [Ne.symm hqp]
      · rw [update_of_ne hchild]
  · by_cases hchild : child = childId
    · rw [hchild, update_self] at hq
      exact absurd hq (by simp)
    · rw [update_of_ne hchild] at hq
      have hqp : q ≠ p := by
        rintro rfl
        exact hchild (h.eq_of_borrowed hp hq)
      rw [hrelease, hstatus, update_of_ne hqp]
      exact h.blocked_of_borrowed q child hq
  · rw [hrelease, hstatus, update_self]

/-- The end of a loan whose lender is gone changes nothing for a slot that does not wait. -/
theorem releaseVforkParent_of_wait_eq_none (hwait : vforkWait (logic.processes p) = none) :
    SuspendedParents (logic.releaseVforkParent p childId) borrowed := by
  have hflag : (logic.processes p).waitingForVforkChild = false := by
    rw [vforkWait] at hwait
    split_ifs at hwait with hflag
    exact Bool.eq_false_of_not_eq_true hflag
  rw [LogicLayer.releaseVforkParent]
  split_ifs with hlive hboth
  · rw [hflag] at hboth
    exact absurd hboth.1 (by simp)
  · refine h.of_keeps (h.exact.modify rfl) h.noTTY (.modify (hwait ▸ rfl)) (.modify rfl)
      fun q child hq => ?_
    rw [status_modify_of_eq rfl]
    exact h.blocked_of_borrowed q child hq
  · exact h

end

end SuspendedParents

/-- The release of a parent keeps what it does not set. -/
theorem Keeps.releaseVforkParent {α : Type*} {g : Process → α} (hg : IgnoresScheduling g)
    (hclear : ∀ process, g (clearVforkParent process) = g process) :
    Keeps g logic (logic.releaseVforkParent parentId childId) := by
  rw [LogicLayer.releaseVforkParent]
  split_ifs
  · exact (modify (hclear _)).trans (resumeBlocked hg)
  · exact modify (hclear _)
  · exact refl g logic

theorem KeepsLife.releaseVforkParent :
    KeepsLife logic (logic.releaseVforkParent parentId childId) := by
  have hcleared : KeepsLife logic (logic.modify parentId clearVforkParent) :=
    of_eq (status_modify_of_eq rfl)
  rw [LogicLayer.releaseVforkParent]
  split_ifs
  · exact hcleared.trans resumeBlocked
  · exact hcleared
  · exact refl logic

theorem ignoresScheduling_vforkLender : IgnoresScheduling vforkLender where
  status _ _ := rfl
  kernelContext process := congrArg (·.2.1) (ignoresSignals_vforkRole.kernelContext process)

namespace VforkInvariant

section

variable (h : VforkInvariant logic borrowed)

include h

/-- A step after which each remaining loan was one before, its child is still alive and has the
same lender. -/
theorem of_suspendedParents (hsuspended : SuspendedParents logic' borrowed')
    (hle : ∀ p child, borrowed' child = some p → borrowed child = some p)
    (hlender : ∀ p child, borrowed' child = some p →
      vforkLender (logic'.processes child) = vforkLender (logic.processes child))
    (hlive : ∀ p child, borrowed' child = some p →
      (logic'.status child = .terminated → logic.status child = .terminated)) :
    VforkInvariant logic' borrowed' where
  toSuspendedParents := hsuspended
  lender_of_borrowed p child hp :=
    (hlender p child hp).trans (h.lender_of_borrowed p child (hle p child hp))
  live_of_borrowed p child hp hdead :=
    h.live_of_borrowed p child (hle p child hp) (hlive p child hp hdead)

/-- A process without the flag of a vfork child does not borrow. -/
theorem borrowed_eq_none (hflag : ¬(logic.processes id).isVforkChild = true) :
    borrowed id = none := by
  rcases hb : borrowed id with _ | lender
  · rfl
  · have hlender := h.lender_of_borrowed lender id hb
    rw [vforkLender, if_neg hflag] at hlender
    exact absurd hlender (by simp)

/-- A step that changes no role, leaves the suspended parents blocked and kills no child. -/
theorem of_keeps (hexact : logic'.QueuesExact) (htty : ∀ p, p ∉ logic'.sync.ttyInputWaitQueue)
    (hkeeps : Keeps vforkRole logic logic')
    (hblocked : ∀ p child, borrowed child = some p → logic'.status p = .blocked)
    (hlive : KeepsLife logic logic') : VforkInvariant logic' borrowed :=
  h.of_suspendedParents (h.toSuspendedParents.of_keeps hexact htty
      (fun q => congrArg (·.1) (hkeeps q)) (fun q => congrArg (·.2.2) (hkeeps q)) hblocked)
    (fun _ _ hp => hp) (fun _ child _ => congrArg (·.2.1) (hkeeps child))
    fun _ child _ => (hlive child).mp

theorem trackRunning : VforkInvariant logic.trackRunning borrowed := by
  refine h.of_keeps h.exact.trackRunning h.noTTY .trackRunning ?_ (.of_eq status_trackRunning)
  rw [status_trackRunning]
  exact h.blocked_of_borrowed

theorem schedule : VforkInvariant logic.schedule borrowed := by
  refine h.of_keeps h.exact.schedule ?_ (.schedule ignoresSignals_vforkRole.toIgnoresScheduling)
    (fun p child hp => ?_) .schedule
  · rw [schedule_sync]
    exact h.noTTY
  · have hblocked := h.blocked_of_borrowed p child hp
    have hframe : Frame p logic logic.schedule :=
      .schedule (h.notMem_readyQueue hp) (by simp [hblocked])
    exact hframe.status_eq.trans hblocked

/-- A signal that does not kill its target and does not wake a suspended parent. -/
theorem applySignal {signal : ℕ} {effect : SignalEffect}
    (hexact : (logic.applySignal id signal effect).QueuesExact)
    (hfewer : FewerTTYWaits logic (logic.applySignal id signal effect))
    (heffect : ∀ coreDump, effect ≠ .terminate coreDump)
    (hwait : (∃ child, borrowed child = some id) →
      effect = .discard ∨ effect = .pend ∨ effect = .stop) :
    VforkInvariant (logic.applySignal id signal effect) borrowed := by
  refine h.of_keeps hexact (fun p hp => h.noTTY p (hfewer.mem_of_mem p hp))
    (.applySignal ignoresSignals_vforkRole signal heffect) (fun p child hp => ?_)
    (.applySignal signal heffect)
  have hblocked := h.blocked_of_borrowed p child hp
  have hcleared : (logic.clearPending id signal).status = logic.status := status_modify_of_eq rfl
  by_cases hid : p = id
  · subst hid
    rcases hwait ⟨child, hp⟩ with rfl | rfl | rfl
    · exact (congrFun hcleared p).trans hblocked
    · refine (congrFun (status_modify_of_eq rfl) p).trans ?_
      exact (congrFun hcleared p).trans hblocked
    · have hstays : (logic.clearPending p signal).status p = .blocked :=
        (congrFun hcleared p).trans hblocked
      change ((logic.clearPending p signal).stopProcess p).status p = .blocked
      rw [stopProcess, if_neg (by simp [hstays])]
      exact hstays
  · have hframe : Frame p logic (logic.applySignal id signal effect) :=
      .applySignal signal hid fun coreDump hterminate => absurd hterminate (heffect coreDump)
    exact hframe.status_eq.trans hblocked

/-- The death of a process that does not borrow. -/
theorem killProcess (hlt : id < maxProcesses) (hborrowed : borrowed id = none) (exitStatus : ℕ) :
    VforkInvariant (logic.killProcess id exitStatus)
      fun child => if borrowed child = some id then none else borrowed child := by
  have hle : ∀ p child, (if borrowed child = some id then none else borrowed child) = some p →
      borrowed child = some p := fun p child hp => by
    split_ifs at hp
    exact hp
  have hframe : ∀ p child,
      (if borrowed child = some id then none else borrowed child) = some p →
        Frame child logic (logic.killProcess id exitStatus) := fun p child hp => by
    refine .killProcess exitStatus (fun heq => ?_) (not_deathWakes (h.noChildWait child))
    have hp' := hle p child hp
    rw [heq, hborrowed] at hp'
    exact absurd hp' (by simp)
  exact h.of_suspendedParents (h.toSuspendedParents.killProcess hlt exitStatus) hle
    (fun p child hp => (hframe p child hp).field_eq vforkLender fun _ => rfl)
    fun p child hp => ((hframe p child hp).status_eq ▸ ·)

/-- A free slot is taken, and nothing else changes. -/
theorem of_fresh (hfree : logic.status id = .terminated)
    (hframe : ∀ q, q ≠ id → Frame q logic logic') (hexact : logic'.QueuesExact)
    (htty : ∀ p, p ∉ logic'.sync.ttyInputWaitQueue) (hwait : vforkWait (logic'.processes id) = none)
    (hchild : (logic'.processes id).waitingForChild = false) : VforkInvariant logic' borrowed := by
  have hparent {q child : ℕ} (hq : borrowed child = some q) : q ≠ id := by
    rintro rfl
    rw [h.blocked_of_borrowed q child hq] at hfree
    exact absurd hfree (by simp)
  have hborrower {q child : ℕ} (hq : borrowed child = some q) : child ≠ id :=
    fun heq => h.live_of_borrowed q child hq (heq ▸ hfree)
  have hsuspended : SuspendedParents logic' borrowed := by
    refine ⟨hexact, htty, fun p => ?_, fun p child => ?_, fun p child hp => ?_⟩
    · by_cases hp : p = id
      · rw [hp, hchild]
      · exact (hframe p hp).waitingForChild_eq.trans (h.noChildWait p)
    · by_cases hp : p = id
      · rw [hp, hwait]
        exact iff_of_false (by simp) fun hb => hparent hb rfl
      · rw [(hframe p hp).field_eq vforkWait fun _ => rfl, h.wait_iff p child]
    · exact (hframe p (hparent hp)).status_eq.trans (h.blocked_of_borrowed p child hp)
  exact h.of_suspendedParents hsuspended (fun _ _ hp => hp)
    (fun p child hp => (hframe child (hborrower hp)).field_eq vforkLender fun _ => rfl)
    fun p child hp => ((hframe child (hborrower hp)).status_eq ▸ ·)

end

/-! ### The calls -/

section

variable (h : VforkInvariant logic borrowed)

include h

theorem createUserProcess (state : CpuState) :
    VforkInvariant (logic.createUserProcess state) borrowed := by
  have hexact := h.exact.createUserProcess state
  rw [LogicLayer.createUserProcess] at hexact ⊢
  split at hexact
  next id created hcreate =>
    obtain ⟨hlt, hfree, rfl⟩ := createChild_eq_some hcreate
    refine h.of_fresh hfree (fun q hq => ?_) hexact h.noTTY ?_ ?_
    · exact (Frame.takeAddressSpace_modify _ hq).trans (.pushReady hq)
    · exact congrArg vforkWait (modify_const_processes _)
    · exact congrArg Process.waitingForChild (modify_const_processes _)
  next => exact h

theorem copyProcess (outcome : CopyOutcome) :
    VforkInvariant (logic.copyProcess id outcome).2 borrowed := by
  have hexact := @QueuesExact.copyProcess _ id h.exact h.noChildWaitOnTTY outcome
  rcases logic.copyProcess_eq id outcome with heq | ⟨childId, hlt, hfree, heq⟩
  · rw [heq]
    exact h
  · rw [heq] at hexact ⊢
    have hcreated {q : ℕ} (hq : q ≠ childId) : Frame q logic
        (logic.modify childId fun _ => logic.forkedRecord id childId).takeAddressSpace :=
      .takeAddressSpace_modify _ hq
    rw [finishCopy] at hexact ⊢
    split_ifs at hexact ⊢
    · have hchild : ((logic.modify childId fun _ => logic.forkedRecord id childId).modify childId
          (withSignalActions (logic.processes id).signalActions)).processes childId =
          withSignalActions (logic.processes id).signalActions (logic.forkedRecord id childId) :=
        ProcessManager.modify_processes_self.trans
          (congrArg (withSignalActions _) (modify_const_processes _))
      refine h.of_fresh hfree (fun q hq => ?_) hexact h.noTTY ?_ ?_
      · exact ((hcreated hq).trans (.modify _ hq)).trans (.pushReady hq)
      · exact congrArg vforkWait hchild
      · exact congrArg Process.waitingForChild hchild
    · set created := (logic.modify childId fun _ => logic.forkedRecord id childId).takeAddressSpace
      have hchild : (created.killProcess childId 0).processes childId = _ :=
        killProcess_processes_self hlt 0
      have hfewer : FewerTTYWaits created (created.killProcess childId 0) := .killProcess 0
      refine h.of_fresh hfree (fun q hq => ?_) hexact (fun q hq => h.noTTY q ?_) ?_ ?_
      · have hwait := (hcreated hq).waitingForChild_eq.trans (h.noChildWait q)
        exact (hcreated hq).trans (.killProcess 0 hq (not_deathWakes hwait))
      · exact hfewer.mem_of_mem q hq
      · exact congrArg vforkWait hchild
      · exact congrArg Process.waitingForChild hchild

/-- A fork, successful or not, takes a free slot at most. -/
theorem forkFrom (outcome : CopyOutcome) (parentId : ℕ) :
    VforkInvariant (logic.forkFrom outcome parentId).2 borrowed := by
  have hcopied : VforkInvariant (logic.copyProcess parentId outcome).2 borrowed :=
    h.copyProcess outcome
  rw [LogicLayer.forkFrom]
  split
  next copied heq =>
    rw [heq] at hcopied
    exact hcopied
  next childId copied heq =>
    rw [heq] at hcopied
    split_ifs
    · refine hcopied.of_keeps (hcopied.exact.modify rfl) hcopied.noTTY (.modify rfl)
        (fun p child hp => ?_) (.of_eq (status_modify_of_eq rfl))
      rw [status_modify_of_eq rfl]
      exact hcopied.blocked_of_borrowed p child hp
    · exact hcopied

theorem beginVfork (hlt : childId < maxProcesses) (hfree : logic.status childId = .terminated)
    (hrunning : logic.status parentId = .running) {process : Process}
    (hstatus : process.status = .ready) (hwait : vforkWait process = none)
    (hchild : process.waitingForChild = false) :
    VforkInvariant ((logic.modify childId fun _ => process).beginVfork parentId childId)
      (update borrowed childId (some parentId)) := by
  have hne : parentId ≠ childId := by
    rintro rfl
    rw [hfree] at hrunning
    exact absurd hrunning (by simp)
  have hparent {q child : ℕ} (hq : borrowed child = some q) : q ≠ parentId := by
    rintro rfl
    rw [h.blocked_of_borrowed q child hq] at hrunning
    exact absurd hrunning (by simp)
  have hborrower {q child : ℕ} (hq : borrowed child = some q) : child ≠ childId :=
    fun heq => h.live_of_borrowed q child hq (heq ▸ hfree)
  have hrole (q : ℕ) := @vforkRole_beginVfork logic parentId childId hne process q
  have hlive (q : ℕ) := @terminated_beginVfork logic childId hlt process hstatus parentId q
  set after := (logic.modify childId fun _ => process).beginVfork parentId childId
  refine { exact := h.exact.beginVfork hlt hfree hstatus parentId, noTTY := ?_,
           noChildWait := fun q => ?_, wait_iff := fun q child => ?_,
           blocked_of_borrowed := fun q child hq => ?_,
           lender_of_borrowed := fun q child hq => ?_, live_of_borrowed := fun q child hq => ?_ }
  · have hsync : after.sync = logic.sync := blockProcess_sync.trans addProcessToReadyQueue_sync
    rw [hsync]
    exact h.noTTY
  · refine (congrArg (·.2.2) (hrole q)).trans ?_
    split_ifs
    · exact hchild
    · exact h.noChildWait parentId
    · exact h.noChildWait q
  · rw [show vforkWait (after.processes q) = _ from congrArg (·.1) (hrole q)]
    by_cases hchildId : child = childId
    · subst hchildId
      rw [update_self]
      split_ifs with hqc hqp
      · subst hqc
        simp [hwait, hne]
      · simp [hqp]
      · refine iff_of_false (fun hq => ?_) (by simp [Ne.symm hqp])
        exact hborrower ((h.wait_iff q child).mp hq) rfl
    · rw [update_of_ne hchildId]
      split_ifs with hqc hqp
      · subst hqc
        refine iff_of_false (by simp [hwait]) fun hb => ?_
        rw [h.blocked_of_borrowed q child hb] at hfree
        exact absurd hfree (by simp)
      · exact iff_of_false (by simp [Ne.symm hchildId]) fun hb => hparent hb hqp
      · exact h.wait_iff q child
  · by_cases hchildId : child = childId
    · rw [hchildId, update_self] at hq
      obtain rfl := Option.some.inj hq
      refine (h.exact.readyVforkChild hlt hfree hstatus parentId).status_blockProcess ?_
      rw [status_readyVforkChild hlt hstatus, update_of_ne hne, hrunning]
    · rw [update_of_ne hchildId] at hq
      have hblocked := h.blocked_of_borrowed q child hq
      have hqc : q ≠ childId := by
        rintro rfl
        rw [hblocked] at hfree
        exact absurd hfree (by simp)
      have hcreated : Frame q logic (logic.modify childId fun _ => process) := .modify _ hqc
      have hframe : Frame q logic after := hcreated.trans (.beginVfork hqc (hparent hq)
        (h.notMem_readyQueue hq) (by simp [hcreated.status_eq, hblocked]))
      exact hframe.status_eq.trans hblocked
  · refine (congrArg (·.2.1) (hrole child)).trans ?_
    by_cases hchildId : child = childId
    · rw [hchildId, update_self] at hq
      rw [if_pos hchildId]
      exact hq
    · rw [update_of_ne hchildId] at hq
      rw [if_neg hchildId, ← h.lender_of_borrowed q child hq]
      split_ifs with hcp
      · rw [hcp]
      · rfl
  · refine (hlive child).not.mpr ?_
    rintro ⟨hchildId, hdead⟩
    rw [update_of_ne hchildId] at hq
    exact h.live_of_borrowed q child hq hdead

/-- A child whose descriptors could not be duplicated leaves its slot free. -/
theorem discardChild (hlt : id < maxProcesses) (hfree : logic.status id = .terminated)
    (process : Process) :
    VforkInvariant ((logic.modify id fun _ => process).discardChild id) borrowed := by
  have hself : ((logic.modify id fun _ => process).discardChild id).processes id =
      initializeProcessEntry id .terminated .kernel none {} := by
    change ((logic.pm.modify id fun _ => process).killProcess id).processes id = _
    rw [ProcessManager.killProcess, if_pos hlt, ProcessManager.setProcess_processes_self]
  refine h.of_fresh hfree (fun q hq => ?_) (h.exact.discardChild hlt hfree process) h.noTTY ?_ ?_
  · have hcreated : Frame q logic (logic.modify id fun _ => process) := .modify _ hq
    exact hcreated.trans (.discardChild hq)
  · exact congrArg vforkWait hself
  · exact congrArg Process.waitingForChild hself

/-- `vfork` by a running process: it fails with an error and starts no loan, or returns the child
that borrows from now on. -/
theorem vforkFrom (hrunning : logic.status parentId = .running) (filesError : Option ℤ) :
    VforkInvariant (logic.vforkFrom filesError parentId).2 borrowed ∧
        (filesError = none → (logic.vforkFrom filesError parentId).1 < 0) ∨
      ∃ childId : ℕ, filesError = none ∧ (logic.vforkFrom filesError parentId).1 = childId ∧
        borrowed childId = none ∧ VforkInvariant (logic.vforkFrom filesError parentId).2
          (update borrowed childId (some parentId)) := by
  rw [LogicLayer.vforkFrom]
  split_ifs
  · exact .inl ⟨h, fun _ => (by decide : errEagain < 0)⟩
  · split
    · split
      next => exact .inl ⟨h, fun _ => (by decide : errEagain < 0)⟩
      next childId created hcreate =>
        obtain ⟨hlt, hfree, rfl⟩ := createChild_eq_some hcreate
        rcases filesError with _ | error
        · refine .inr ⟨childId, rfl, rfl, ?_, h.beginVfork hlt hfree hrunning rfl rfl rfl⟩
          by_contra hne
          obtain ⟨lender, hlender⟩ := Option.ne_none_iff_exists'.mp hne
          exact h.live_of_borrowed lender childId hlender hfree
        · exact .inl ⟨h.discardChild hlt hfree _, fun hnone => absurd hnone (by simp)⟩
    · exact .inl ⟨h, fun _ => (by decide : errEfault < 0)⟩

/-- The end of the loan of a child, when the child has died or replaced its program: its lender
can be scheduled again. -/
theorem release (hsuspended : SuspendedParents logic' borrowed)
    (hlender : ∀ child, child ≠ id →
      vforkLender (logic'.processes child) = vforkLender (logic.processes child))
    (hlive : ∀ child, child ≠ id →
      (logic'.status child = .terminated → logic.status child = .terminated))
    (hparent : vforkLender (logic.processes id) = some p)
    (hstale : borrowed id = none → vforkWait (logic'.processes p) = none) :
    VforkInvariant (logic'.releaseVforkParent p id) (update borrowed id none) ∧
      ∀ lender, borrowed id = some lender →
        lender ∈ (logic'.releaseVforkParent p id).sched.readyQueue := by
  have hreleased : SuspendedParents (logic'.releaseVforkParent p id) (update borrowed id none) ∧
      ∀ lender, borrowed id = some lender →
        lender ∈ (logic'.releaseVforkParent p id).sched.readyQueue := by
    rcases hborrowed : borrowed id with _ | lender
    · rw [← hborrowed, update_eq_self]
      exact ⟨hsuspended.releaseVforkParent_of_wait_eq_none (hstale hborrowed), by simp [hborrowed]⟩
    · rw [h.lender_of_borrowed lender id hborrowed] at hparent
      obtain rfl := Option.some.inj hparent
      obtain ⟨hafter, hready⟩ := hsuspended.releaseVforkParent hborrowed
      refine ⟨hafter, fun q hq => ?_⟩
      obtain rfl := Option.some.inj hq
      exact (hafter.exact.mem_ready _).mpr (.inr hready)
  have hne {q child : ℕ} (hq : update borrowed id none child = some q) : child ≠ id := by
    rintro rfl
    rw [update_self] at hq
    exact absurd hq (by simp)
  refine ⟨h.of_suspendedParents hreleased.1 (fun q child hq => ?_) (fun q child hq => ?_)
    fun q child hq => ?_, hreleased.2⟩
  · rwa [update_of_ne (hne hq)] at hq
  · have hkeeps : Keeps vforkLender logic' (logic'.releaseVforkParent p id) :=
      .releaseVforkParent ignoresScheduling_vforkLender fun _ => rfl
    exact (hkeeps child).trans (hlender child (hne hq))
  · exact fun hdead => hlive child (hne hq) ((KeepsLife.releaseVforkParent child).mp hdead)

/-- The exit of a running process ends its loan. -/
theorem exitGroupFrom (hrunning : logic.status id = .running)
    (hstale : ∀ lender, vforkLender (logic.processes id) = some lender → borrowed id = none →
      vforkWait (logic.processes lender) = none) (status : ℕ) :
    VforkInvariant (logic.exitGroupFrom status id) (update borrowed id none) ∧
      ∀ lender, borrowed id = some lender →
        lender ∈ (logic.exitGroupFrom status id).sched.readyQueue := by
  have hlt : id < maxProcesses := h.exact.lt_of_ne_terminated (by simp [hrunning])
  have hframe {q : ℕ} (hq : q ≠ id) :
      Frame q logic (logic.killProcess id (exitWaitStatus status)) :=
    .killProcess _ hq (not_deathWakes (h.noChildWait q))
  have hnoloan : (fun child => if borrowed child = some id then none else borrowed child) =
      borrowed := by
    funext child
    refine if_neg fun hb => ?_
    rw [h.blocked_of_borrowed id child hb] at hrunning
    exact absurd hrunning (by simp)
  rw [LogicLayer.exitGroupFrom]
  simp only [schedule_readyQueue_perm.mem_iff]
  refine And.imp_left VforkInvariant.schedule ?_
  split_ifs with hflag
  · have hsuspended := h.toSuspendedParents.killProcess hlt (exitWaitStatus status)
    rw [hnoloan] at hsuspended
    have hlender : vforkLender (logic.processes id) =
        some (logic.processes id).vforkParentId := if_pos hflag
    refine h.release hsuspended (fun child hchild => ?_) (fun child hchild => ?_) hlender ?_
    · exact (hframe hchild).field_eq vforkLender fun _ => rfl
    · exact ((hframe hchild).status_eq ▸ ·)
    · intro hborrowed
      by_cases hself : (logic.processes id).vforkParentId = id
      · rw [hself, killProcess_processes_self hlt]
        rfl
      · exact ((hframe hself).field_eq vforkWait fun _ => rfl).trans (hstale _ hlender hborrowed)
  · have hborrowed := h.borrowed_eq_none hflag
    have hkilled := h.killProcess hlt hborrowed (exitWaitStatus status)
    rw [hnoloan] at hkilled
    rw [← hborrowed, update_eq_self]
    exact ⟨hkilled, by simp [hborrowed]⟩

/-- A process that replaces its program ends its loan. -/
theorem execveFrom
    (hstale : ∀ lender, vforkLender (logic.processes id) = some lender → borrowed id = none →
      vforkWait (logic.processes lender) = none) (newState : CpuState) :
    VforkInvariant (logic.execveFrom (some newState) id).2 (update borrowed id none) ∧
      ∀ lender, borrowed id = some lender →
        lender ∈ (logic.execveFrom (some newState) id).2.sched.readyQueue := by
  set changed := (logic.changeProcessExecution id newState).modify id fun process =>
    { process with hasExecutedExecve := true } with hdef
  have hexact : (logic.changeProcessExecution id newState).QueuesExact := by
    have hmodify : (logic.modify id fun process => { process with
        addressSpace := some logic.nextAddressSpace, state := newState }).QueuesExact :=
      h.exact.modify rfl
    exact hmodify.congr rfl rfl rfl rfl
  have hstatus : changed.status = logic.status := by
    rw [hdef, status_modify_of_eq rfl]
    exact status_modify_of_eq (f := fun process => { process with
      addressSpace := some logic.nextAddressSpace, state := newState }) rfl
  have hkeeps : Keeps vforkRole logic changed := by
    have hprogram : Keeps vforkRole logic (logic.modify id fun process => { process with
        addressSpace := some logic.nextAddressSpace, state := newState }) := .modify rfl
    exact (hprogram.trans (.of_eq rfl)).trans (.modify rfl)
  have hchanged : VforkInvariant changed borrowed := by
    refine h.of_keeps (hexact.modify rfl) h.noTTY hkeeps ?_ (.of_eq hstatus)
    rw [hstatus]
    exact h.blocked_of_borrowed
  change VforkInvariant (changed.releaseVforkParentIfNeeded id) _ ∧ ∀ lender, _ →
    lender ∈ (changed.releaseVforkParentIfNeeded id).sched.readyQueue
  rw [releaseVforkParentIfNeeded]
  have hrole := hkeeps id
  split_ifs with hflag
  · have hlender : vforkLender (changed.processes id) =
        some (changed.processes id).vforkParentId := if_pos hflag
    have hsuspended : SuspendedParents (changed.modify id clearVforkChild) borrowed := by
      refine hchanged.toSuspendedParents.of_keeps (hchanged.exact.modify rfl) hchanged.noTTY
        (.modify rfl) (.modify rfl) ?_
      rw [status_modify_of_eq rfl]
      exact hchanged.blocked_of_borrowed
    refine hchanged.release hsuspended (fun child hchild => ?_) (fun child hchild => ?_) hlender ?_
    · exact congrArg vforkLender (modify_processes_of_ne hchild)
    · rw [status_modify_of_eq rfl]
      exact fun hdead => hdead
    · intro hborrowed
      have hwait : Keeps vforkWait changed (changed.modify id clearVforkChild) := .modify rfl
      refine (hwait _).trans ((congrArg (·.1) (hkeeps _)).trans (hstale _ ?_ hborrowed))
      exact (congrArg (·.2.1) hrole).symm.trans hlender
  · have hborrowed := hchanged.borrowed_eq_none hflag
    rw [← hborrowed, update_eq_self]
    exact ⟨hchanged, by simp [hborrowed]⟩

/-- A signal that does not end a loan by death of the child and does not wake a suspended parent. -/
theorem signalProcess {accessible : UserAccess} {signal : ℕ}
    (hsignal : logic.signalProcess accessible id signal = some logic')
    (hdead : ∀ coreDump, signalEffect accessible id (logic.processes id) signal =
      .terminate coreDump → borrowed id = none)
    (hwake : (∃ child, borrowed child = some id) →
      signalEffect accessible id (logic.processes id) signal ≠ .resume ∧
      ∀ action, signalEffect accessible id (logic.processes id) signal ≠ .handle action) :
    VforkInvariant logic' borrowed ∨ logic'.status id = .terminated ∧
      VforkInvariant logic' fun child => if borrowed child = some id then none
        else borrowed child := by
  have hexact := h.exact.signalProcess h.noChildWaitOnTTY hsignal
  have hfewer := FewerTTYWaits.signalProcess hsignal
  rw [signalProcess_eq] at hsignal
  split_ifs at hsignal with hvalid
  obtain rfl := Option.some.inj hsignal
  cases heffect : signalEffect accessible id (logic.processes id) signal with
  | discard => exact .inl (h.applySignal (heffect ▸ hexact) (heffect ▸ hfewer) (by simp) (by simp))
  | pend => exact .inl (h.applySignal (heffect ▸ hexact) (heffect ▸ hfewer) (by simp) (by simp))
  | stop => exact .inl (h.applySignal (heffect ▸ hexact) (heffect ▸ hfewer) (by simp) (by simp))
  | resume =>
    exact .inl (h.applySignal (heffect ▸ hexact) (heffect ▸ hfewer) (by simp)
      fun hex => absurd heffect (hwake hex).1)
  | handle action =>
    exact .inl (h.applySignal (heffect ▸ hexact) (heffect ▸ hfewer) (by simp)
      fun hex => absurd heffect ((hwake hex).2 action))
  | terminate coreDump =>
    refine .inr ⟨?_, ?_⟩
    · exact congrArg Process.status (killProcess_processes_self hvalid.2.2.1 _)
    · have hcleared : VforkInvariant (logic.clearPending id signal) borrowed := by
        refine h.of_keeps (h.exact.modify rfl) h.noTTY
          (.clearPending ignoresSignals_vforkRole signal) ?_ (.of_eq (status_modify_of_eq rfl))
        rw [clearPending, status_modify_of_eq rfl]
        exact h.blocked_of_borrowed
      exact hcleared.killProcess hvalid.2.2.1 (hdead coreDump heffect) _

end

end VforkInvariant

end LogicLayer

end TwistedOS
