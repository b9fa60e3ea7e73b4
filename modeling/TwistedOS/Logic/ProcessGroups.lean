import TwistedOS.Logic.RecordRuns

/-!
# Process groups, sessions and `kill`

`setpgid` and `setsid` write the group and the session of a record, and the children of a process
inherit them. `kill` goes through the process table and sends its signal to the processes that its
argument selects, each in the state that the signals before it left.

A number that names a group outlives the process it was taken from, so that a process with a
recycled id may found its group anew while old members live. The steps of a run are safe when this
does not happen, and when the 32-bit number that `kill` compares groups with is the one that was
asked for.

## Main definitions

* `LogicLayer.setpgidFrom`, `LogicLayer.setsidFrom` — the system calls.
* `LogicLayer.SelectedBy`, `LogicLayer.KillExact` — what `kill` is to do.
* `GroupCall`, `GroupCall.Safe`, `GroupCall.SafelyReachable`.

## Main results

* `LogicLayer.signalTargets_exact` — the loop of `kill` signals the processes selected at its start.
* `GroupCall.SafelyReachable.groupsExact`.
-/

namespace TwistedOS

open Function

/-- `LINUX_ERR_EACCES`. -/
def errEacces : ℤ := -13

/-- `EffectivePid` in `HandleSetpgidSystemCall`. -/
def effectivePid (pid : ℤ) (caller : ℕ) : ℤ := if pid = 0 then caller else pid

/-- The record with another group and session. -/
def withGroup (processGroupId sessionId : ℕ) (process : Process) : Process :=
  { process with processGroupId := processGroupId, sessionId := sessionId }

/-- The level, the group and the session of a record. -/
def groupFields (process : Process) : ProcessLevel × ℕ × ℕ :=
  (process.level, process.processGroupId, process.sessionId)

namespace LogicLayer

variable (logic : LogicLayer)

/-! ### The system calls -/

/-- `GetEffectiveSessionId` in `HandleSetpgidSystemCall`. -/
def effectiveSessionId (id : ℕ) : ℕ :=
  if 0 < (logic.processes id).sessionId then (logic.processes id).sessionId else id

/-- The search of `HandleSetpgidSystemCall` for a member of a group in a session. -/
def processGroupExistsInSession (sessionId processGroupId : ℕ) : Bool :=
  (List.range maxProcesses).any fun id => logic.Live id ∧
    logic.effectiveSessionId id = sessionId ∧ logic.effectiveProcessGroupId id = processGroupId

/-- The checks of `HandleSetpgidSystemCall` on its target, which is the caller or a child of it that
has not executed another program, and leads no session. -/
def checkSetpgidTarget (caller target : ℕ) : Option ℤ :=
  if ¬logic.Live target then some errEsrch
  else if target ≠ caller ∧ (logic.processes target).parrentId ≠ caller then some errEsrch
  else if (logic.processes target).parrentId = caller ∧
      (logic.processes target).hasExecutedExecve then some errEacces
  else if logic.effectiveSessionId target ≠ logic.effectiveSessionId caller then some errEperm
  else if logic.effectiveSessionId target = target then some errEperm
  else none

/-- The end of `HandleSetpgidSystemCall`, after the checks on the target. -/
def joinProcessGroup (target : ℕ) (processGroupId : ℤ) : ℤ × LogicLayer :=
  if processGroupId ≤ 0 ∨ 0xFF < processGroupId then (errEinval, logic)
  else if processGroupId ≠ target ∧ ¬logic.processGroupExistsInSession
      (logic.effectiveSessionId target) processGroupId.toNat then (errEperm, logic)
  else (0, logic.modify target
    (withGroup processGroupId.toNat (logic.effectiveSessionId target)))

/-- `HandleSetpgidSystemCall` of the process `caller`. -/
def setpgidFrom (pid processGroupId : ℤ) (caller : ℕ) : ℤ × LogicLayer :=
  if effectivePid pid caller ≤ 0 ∨ 0xFF < effectivePid pid caller then (errEinval, logic)
  else
    match logic.checkSetpgidTarget caller (effectivePid pid caller).toNat with
    | some error => (error, logic)
    | none => logic.joinProcessGroup (effectivePid pid caller).toNat
        (if processGroupId = 0 then effectivePid pid caller else processGroupId)

/-- `HandleSetpgidSystemCall`. -/
def handleSetpgidSystemCall (pid processGroupId : ℤ) : ℤ × LogicLayer :=
  logic.withRunning fun logic => logic.setpgidFrom pid processGroupId

/-- `HandleSetsidSystemCall` of the process `caller`. -/
def setsidFrom (caller : ℕ) : ℤ × LogicLayer :=
  if (logic.processes caller).processGroupId = caller then (errEperm, logic)
  else (caller, logic.modify caller (withGroup caller caller))

/-- `HandleSetsidSystemCall`. -/
def handleSetsidSystemCall : ℤ × LogicLayer :=
  logic.withRunning fun logic => logic.setsidFrom

/-! ### What the calls are to do -/

/-- The live user processes that `pid` selects for the process `caller`. -/
def SelectedBy (caller : ℕ) (pid : ℤ) (id : ℕ) : Prop :=
  logic.Live id ∧ (logic.processes id).level = .user ∧
    if 0 < pid then (id : ℤ) = pid
    else if pid = 0 then logic.effectiveProcessGroupId id = logic.effectiveProcessGroupId caller
    else if pid = -1 then id ≠ 1 ∧ id ≠ caller
    else (logic.effectiveProcessGroupId id : ℤ) = -pid

/-- The processes of a list are signalled one after another, and every signal is accepted. -/
inductive Signalled (accessible : UserAccess) (signal : ℕ) :
    List ℕ → LogicLayer → LogicLayer → Prop
  | nil (logic : LogicLayer) : Signalled accessible signal [] logic logic
  | cons {id : ℕ} {ids : List ℕ} {logic next last : LogicLayer}
    (h : logic.signalProcess accessible id signal = some next)
    (hrest : Signalled accessible signal ids next last) :
    Signalled accessible signal (id :: ids) logic last

/-- The outcome of `kill`: the selected processes are signalled, each once, or none of them when the
signal is `0`; the result is `0` exactly when there is one; and nothing changes otherwise. -/
structure KillExact (accessible : UserAccess) (caller : ℕ) (pid : ℤ) (signal : ℕ) (result : ℤ)
    (logic' : LogicLayer) : Prop where
  exists_targets : ∃ targets : List ℕ, targets.Nodup ∧
    (∀ id, id ∈ targets ↔ logic.SelectedBy caller pid id) ∧ (result = 0 ↔ targets ≠ []) ∧
      if signal = 0 then logic' = logic else Signalled accessible signal targets logic logic'
  unchanged : result ≠ 0 → logic' = logic

/-- Live processes of one group are in one session. -/
def GroupsConsistent : Prop :=
  ∀ p q, logic.Live p → logic.Live q →
    (logic.processes p).processGroupId = (logic.processes q).processGroupId →
      (logic.processes p).sessionId = (logic.processes q).sessionId

end LogicLayer

namespace LogicLayer

variable {logic now : LogicLayer} {accessible : UserAccess} {caller signal : ℕ} {pid : ℤ}

/-! ### The loop of `kill` -/

theorem ignoresSignals_groupFields : IgnoresSignals groupFields where
  status _ _ := rfl
  kernelContext process := by
    rw [markKernelContext]
    split_ifs <;> rfl
  pending _ _ := rfl
  interrupted _ := rfl
  handlerMask _ _ _ := rfl
  handler _ _ _ := rfl

theorem ignoresExits_groupFields : IgnoresExits groupFields where
  report _ _ _ := rfl
  stopWaiting _ := rfl

/-- Two states agree on the processes of a list, as far as `kill` looks at them. -/
def AgreeOn (ids : List ℕ) (logic now : LogicLayer) : Prop :=
  ∀ p ∈ ids, groupFields (now.processes p) = groupFields (logic.processes p) ∧
    (now.status p = .terminated ↔ logic.status p = .terminated)

namespace AgreeOn

variable {id : ℕ} {ids : List ℕ}

section

variable (h : AgreeOn ids logic now) (hid : id ∈ ids)

include h hid

theorem live_iff : now.Live id ↔ logic.Live id :=
  and_congr_right fun _ => (h id hid).2.not

theorem level_eq : (now.processes id).level = (logic.processes id).level :=
  congrArg Prod.fst (h id hid).1

theorem effectiveProcessGroupId_eq :
    now.effectiveProcessGroupId id = logic.effectiveProcessGroupId id := by
  have hgroup : (now.processes id).processGroupId = (logic.processes id).processGroupId :=
    congrArg (fun fields => fields.2.1) (h id hid).1
  rw [effectiveProcessGroupId, effectiveProcessGroupId, hgroup]

theorem isKillTarget_eq (callerGroup : ℕ) :
    now.isKillTarget caller callerGroup pid id = logic.isKillTarget caller callerGroup pid id := by
  rw [isKillTarget, isKillTarget, h.effectiveProcessGroupId_eq hid]

end

theorem tail (h : AgreeOn (id :: ids) logic now) : AgreeOn ids logic now :=
  fun p hp => h p (List.mem_cons_of_mem id hp)

/-- A signal to another process changes nothing of this. -/
theorem applySignal (h : AgreeOn ids logic now) (hid : id ∉ ids) (effect : SignalEffect) :
    AgreeOn ids logic (now.applySignal id signal effect) := fun p hp => by
  obtain ⟨hfields, hlife⟩ := @applySignal_of_ne _ groupFields now id p ignoresSignals_groupFields
    ignoresExits_groupFields (fun heq => hid (heq ▸ hp)) signal effect
  exact ⟨hfields.trans (h p hp).1, hlife.trans (h p hp).2⟩

end AgreeOn

/-- The processes that the loop of `kill` signals, by the state at its start. -/
def killTargets (logic : LogicLayer) (isTarget : LogicLayer → ℕ → Bool) (ids : List ℕ) : List ℕ :=
  ids.filter fun id =>
    logic.Live id ∧ isTarget logic id = true ∧ (logic.processes id).level = .user

/-- The loop of `kill` signals the processes that were selected at its start. -/
theorem signalTargets_exact {isTarget : LogicLayer → ℕ → Bool} (hsignal : signal ≤ signalMax)
    (ids : List ℕ) (hnodup : ids.Nodup)
    (htarget : ∀ ids now, AgreeOn ids logic now → ∀ id ∈ ids, isTarget now id = isTarget logic id)
    (progress : KillProgress) (hagree : AgreeOn ids logic now) :
    ((signalTargets accessible isTarget signal ids progress now).1.anySignalDelivered = true ↔
      progress.anySignalDelivered = true ∨ logic.killTargets isTarget ids ≠ []) ∧
    if signal = 0 then (signalTargets accessible isTarget signal ids progress now).2 = now
    else Signalled accessible signal (logic.killTargets isTarget ids) now
      (signalTargets accessible isTarget signal ids progress now).2 := by
  induction ids generalizing progress now with
  | nil =>
    refine ⟨by simp [signalTargets, killTargets], ?_⟩
    split_ifs
    · rfl
    · exact .nil now
  | cons id ids ih =>
    have hmem : id ∈ id :: ids := List.mem_cons_self
    have hlive := hagree.live_iff hmem
    have hsame := htarget _ now hagree id hmem
    have hlevel := hagree.level_eq hmem
    obtain ⟨hid, hrest⟩ := List.nodup_cons.mp hnodup
    rw [signalTargets, hsame]
    by_cases hselected : logic.Live id ∧ isTarget logic id = true
    · rw [if_pos (And.intro (hlive.mpr hselected.1) hselected.2), trySignalTarget,
        if_pos (hlive.mpr hselected.1)]
      dsimp only
      rw [hlevel]
      by_cases huser : (logic.processes id).level = .user
      · have htargets : logic.killTargets isTarget (id :: ids) =
            id :: logic.killTargets isTarget ids :=
          List.filter_cons_of_pos (by simp [hselected, huser])
        rw [if_neg (not_not.mpr huser), htargets]
        by_cases hzero : signal = 0
        · rw [if_pos hzero, if_pos hzero]
          obtain ⟨hdelivered, hstate⟩ := ih hrest { progress with
            anyMatchingTarget := true, anySignalDelivered := true } hagree.tail
          rw [if_pos hzero] at hstate
          exact ⟨iff_of_true (hdelivered.mpr (.inl rfl)) (.inr (List.cons_ne_nil _ _)), hstate⟩
        · have hsent : now.signalProcess accessible id signal = _ := signalProcess_eq accessible signal
          have hnext : AgreeOn ids logic (now.applySignal id signal
              (signalEffect accessible id (now.processes id) signal)) :=
            hagree.tail.applySignal hid _
          rw [if_pos ⟨Nat.one_le_iff_ne_zero.mpr hzero, hsignal, hlive.mpr hselected.1⟩] at hsent
          rw [if_neg hzero, if_neg hzero, hsent]
          obtain ⟨hdelivered, hstate⟩ := ih hrest { progress with
            anyMatchingTarget := true, anySignalDelivered := true } hnext
          rw [if_neg hzero] at hstate
          exact ⟨iff_of_true (hdelivered.mpr (.inl rfl)) (.inr (List.cons_ne_nil _ _)),
            .cons hsent hstate⟩
      · have htargets : logic.killTargets isTarget (id :: ids) = logic.killTargets isTarget ids :=
          List.filter_cons_of_neg (by simp [huser])
        rw [if_pos huser, htargets]
        exact ih hrest _ hagree.tail
    · have htargets : logic.killTargets isTarget (id :: ids) = logic.killTargets isTarget ids :=
        List.filter_cons_of_neg (by simpa [and_assoc] using fun h h' => absurd ⟨h, h'⟩ hselected)
      rw [if_neg fun h => hselected ⟨hlive.mp h.1, h.2⟩, htargets]
      exact ih hrest _ hagree.tail

theorem Signalled.eq_of_nil {last : LogicLayer} (h : Signalled accessible signal [] logic last) :
    last = logic := by
  cases h
  rfl

theorem KillProgress.result_eq_zero (progress : KillProgress) :
    progress.result = 0 ↔ progress.anySignalDelivered = true := by
  rw [KillProgress.result]
  split_ifs with hdelivered
  · exact iff_of_true rfl hdelivered
  · exact iff_of_false (by decide) hdelivered
  · exact iff_of_false (by decide) hdelivered

/-- Groups have 8-bit numbers, and the 32-bit number that `kill` compares them with is the one that
was asked for, or no live user process is in its group. -/
structure KillPrecise (logic : LogicLayer) (pid : ℤ) : Prop where
  bounded : ∀ q, logic.Live q → logic.effectiveProcessGroupId q ≤ 0xFF
  precise : ∀ q, pid < -1 → logic.Live q → (logic.processes q).level = .user →
    logic.effectiveProcessGroupId q = (-pid).toNat % 2 ^ 32 → (-pid).toNat < 2 ^ 32

theorem isKillTarget_iff (h : KillPrecise logic pid) {id : ℕ} (hlive : logic.Live id)
    (huser : (logic.processes id).level = .user) :
    logic.isKillTarget caller (logic.effectiveProcessGroupId caller) pid id = true ↔
      if 0 < pid then (id : ℤ) = pid
      else if pid = 0 then logic.effectiveProcessGroupId id = logic.effectiveProcessGroupId caller
      else if pid = -1 then id ≠ 1 ∧ id ≠ caller
      else (logic.effectiveProcessGroupId id : ℤ) = -pid := by
  rw [isKillTarget]
  split_ifs with hpos hzero hall
  · rw [decide_eq_true_iff]
    omega
  · rw [decide_eq_true_iff]
  · rw [decide_eq_true_iff]
  · rw [decide_eq_true_iff]
    have hbound := h.bounded id hlive
    constructor
    · intro htarget
      have hsmall := h.precise id (by omega) hlive huser htarget
      rw [Nat.mod_eq_of_lt hsmall] at htarget
      omega
    · intro hgroup
      rw [Nat.mod_eq_of_lt (by omega)]
      omega

/-- `kill` of a process with a valid signal. -/
theorem killFrom_exact (h : KillPrecise logic pid) (hsignal : signal ≤ signalMax) :
    logic.KillExact accessible caller pid signal (logic.killFrom accessible pid signal caller).1
      (logic.killFrom accessible pid signal caller).2 := by
  rw [killFrom]
  by_cases hmin : pid = -2 ^ 63
  · rw [if_pos (.inr hmin)]
    refine ⟨⟨[], List.nodup_nil, fun id => iff_of_false (by simp) fun hselected => ?_,
      iff_of_false (by decide : errEinval ≠ 0) fun hne => hne rfl, ?_⟩, fun _ => rfl⟩
    · obtain ⟨hlive, -, hgroup⟩ := hselected
      have hbound := h.bounded id hlive
      rw [if_neg (by omega), if_neg (by omega), if_neg (by omega)] at hgroup
      omega
    · split_ifs
      · rfl
      · exact .nil logic
  · set isTarget : LogicLayer → ℕ → Bool := fun now id =>
      now.isKillTarget caller (logic.effectiveProcessGroupId caller) pid id
    rw [if_neg (not_or.mpr ⟨by omega, hmin⟩)]
    obtain ⟨hdelivered, hstate⟩ := @signalTargets_exact logic logic accessible signal isTarget
      hsignal (List.range maxProcesses) List.nodup_range
      (fun _ _ hagree _ hid => hagree.isKillTarget_eq hid _) {} fun _ _ => ⟨rfl, .rfl⟩
    have hmem (id : ℕ) : id ∈ logic.killTargets isTarget (List.range maxProcesses) ↔
        logic.SelectedBy caller pid id := by
      rw [killTargets, List.mem_filter, List.mem_range, decide_eq_true_iff, SelectedBy]
      constructor
      · rintro ⟨-, hlive, htarget, huser⟩
        exact ⟨hlive, huser, (isKillTarget_iff h hlive huser).mp htarget⟩
      · rintro ⟨hlive, huser, hselected⟩
        exact ⟨hlive.1, hlive, (isKillTarget_iff h hlive huser).mpr hselected, huser⟩
    have hresult := (KillProgress.result_eq_zero _).trans
      (hdelivered.trans (or_iff_right Bool.false_ne_true))
    refine ⟨⟨_, List.nodup_range.filter _, hmem, hresult, hstate⟩, fun hne => ?_⟩
    split_ifs at hstate with hzero
    · exact hstate
    · rw [not_not.mp fun hne' => hne (hresult.mpr hne')] at hstate
      exact hstate.eq_of_nil

end LogicLayer

/-! ### Runs -/

/-- A step of a run: a call of the running process that deals with groups, or any other operation of
the logic layer. -/
inductive GroupCall where
  | setpgid (pid processGroupId : ℤ)
  | setsid
  | kill (accessible : UserAccess) (pid : ℤ) (signal : ℕ)
  | other (c : ProcessCall)

namespace GroupCall

/-- The state after a step. -/
def run (logic : LogicLayer) : GroupCall → LogicLayer
  | setpgid pid processGroupId => (logic.handleSetpgidSystemCall pid processGroupId).2
  | setsid => logic.handleSetsidSystemCall.2
  | kill accessible pid signal => (logic.handleKillSystemCall accessible pid signal).2
  | other c => c.run logic

/-- System calls are made by user processes; process 0 is the kernel's. -/
def UserCaller (logic : LogicLayer) : Prop :=
  ∀ id, id < maxProcesses → logic.status id = .running →
    (logic.processes id).level = .user ∧ id ≠ 0

instance (logic : LogicLayer) : Decidable (UserCaller logic) :=
  inferInstanceAs (Decidable (∀ id, id < maxProcesses → _ → _ ∧ _))

/-- The steps that runs are made of. The first process is created for the kernel, and other
operations change no groups directly. -/
def Legal (logic : LogicLayer) : GroupCall → Prop
  | setpgid _ _ | setsid | kill _ _ _ | other (.vfork _) | other (.cloneVm _ _) => UserCaller logic
  | other (.createUserProcess _) => logic.status 0 ≠ .terminated
  | other (.changeRecord id f) => groupFields (f (logic.processes id)) =
      groupFields (logic.processes id)
  | other _ => True

/-- No live process is a member of the group with this id outside of a session. -/
def GroupOnlyIn (logic : LogicLayer) (processGroupId sessionId : ℕ) : Prop :=
  ∀ q, logic.Live q → (logic.processes q).processGroupId = processGroupId →
    (logic.processes q).sessionId = sessionId

instance (logic : LogicLayer) (processGroupId sessionId : ℕ) :
    Decidable (GroupOnlyIn logic processGroupId sessionId) :=
  decidable_of_iff (∀ q, q < maxProcesses → logic.status q ≠ .terminated →
    (logic.processes q).processGroupId = processGroupId →
      (logic.processes q).sessionId = sessionId) <| by
    simp only [GroupOnlyIn, LogicLayer.Live, and_imp]

/-- The condition under which a step keeps groups consistent and does what it is to do: a group that
is founded with the id of a process has no members left in other sessions, none at all for `setsid`,
and the group whose members `kill` signals is the one that was asked for. -/
def Safe (logic : LogicLayer) : GroupCall → Prop
  | setpgid pid processGroupId => ∀ caller target : ℕ, logic.running = some caller →
      (target : ℤ) = effectivePid pid caller →
      (processGroupId = 0 ∨ processGroupId = target) →
      logic.checkSetpgidTarget caller target = none →
        GroupOnlyIn logic target (logic.effectiveSessionId target)
  | setsid => ∀ caller, logic.running = some caller →
      (logic.processes caller).processGroupId ≠ caller →
        ∀ q, logic.Live q → (logic.processes q).processGroupId ≠ caller
  | kill _ pid _ => ∀ q, pid < -1 → logic.Live q → (logic.processes q).level = .user →
      logic.effectiveProcessGroupId q = (-pid).toNat % 2 ^ 32 → (-pid).toNat < 2 ^ 32
  | other (.createKernelProcess _) | other (.createUserProcess _) =>
      ∀ id, logic.pm.firstTerminated = some id → GroupOnlyIn logic id id
  | other _ => True

/-- The states that runs lead to from the start of the kernel. -/
inductive Reachable : LogicLayer → Prop
  | init (memory : ℕ → ByteMemory) : Reachable { memory := memory }
  | call {logic : LogicLayer} (h : Reachable logic) (c : GroupCall) (hc : c.Legal logic) :
    Reachable (c.run logic)

/-- The states that runs of safe steps lead to. -/
inductive SafelyReachable : LogicLayer → Prop
  | init (memory : ℕ → ByteMemory) : SafelyReachable { memory := memory }
  | call {logic : LogicLayer} (h : SafelyReachable logic) (c : GroupCall) (hc : c.Legal logic)
    (hsafe : c.Safe logic) : SafelyReachable (c.run logic)

/-- What a call is to do: `setsid` succeeds exactly when no live process belongs to a group with the
id of the caller, and `kill` with a valid signal reaches exactly its targets. -/
def Exact (logic : LogicLayer) : GroupCall → Prop
  | setsid => ∀ caller, logic.running = some caller →
      (0 ≤ logic.handleSetsidSystemCall.1 ↔
        ∀ q, logic.Live q → (logic.processes q).processGroupId ≠ caller)
  | kill accessible pid signal => ∀ caller, logic.running = some caller → signal ≤ signalMax →
      logic.trackRunning.KillExact accessible caller pid signal
        (logic.handleKillSystemCall accessible pid signal).1
        (logic.handleKillSystemCall accessible pid signal).2
  | _ => True

/-- Groups are consistent, and every call that meets its condition does what it is to do. -/
structure GroupsExact (logic : LogicLayer) : Prop where
  consistent : logic.GroupsConsistent
  exact_of_safe : ∀ c : GroupCall, c.Legal logic → c.Safe logic → c.Exact logic

/-! ### The invariant -/

open LogicLayer

variable {logic next : LogicLayer} {p q : ℕ}

/-- What holds in every state of a safe run. -/
structure GroupInvariant (logic : LogicLayer) : Prop where
  consistent : logic.GroupsConsistent
  positive : ∀ p, logic.Live p → p = 0 ∧ (logic.processes p).level = .kernel ∧
      (logic.processes p).processGroupId = 0 ∧ (logic.processes p).sessionId = 0 ∨
    0 < (logic.processes p).processGroupId ∧ 0 < (logic.processes p).sessionId
  bounded : ∀ p, logic.Live p → (logic.processes p).processGroupId ≤ 0xFF

/-- Where the group of a process that is alive after an operation comes from: the process had it
before, it inherits it from a live user process, or it was created with its id. -/
inductive Origin (logic next : LogicLayer) (p : ℕ) : Prop
  | old (hlive : logic.Live p)
    (hfields : groupFields (next.processes p) = groupFields (logic.processes p))
  | child (parentId : ℕ) (hlive : logic.Live parentId)
    (huser : (logic.processes parentId).level = .user)
    (hfields : groupFields (next.processes p) = groupFields (logic.processes parentId))
  | created (level : ProcessLevel) (hlt : p < maxProcesses)
    (hfields : groupFields (next.processes p) = (level, p, p)) (hzero : p = 0 → level = .kernel)
    (honly : GroupOnlyIn logic p p)

/-- The group and the session of a process with an origin: those of a process before, or its id. -/
theorem Origin.cases (h : Origin logic next p) :
    (∃ r, logic.Live r ∧ (next.processes p).processGroupId = (logic.processes r).processGroupId ∧
      (next.processes p).sessionId = (logic.processes r).sessionId) ∨
    (next.processes p).processGroupId = p ∧ (next.processes p).sessionId = p ∧
      GroupOnlyIn logic p p := by
  cases h with
  | old hlive hfields =>
    simp only [groupFields, Prod.mk.injEq] at hfields
    exact .inl ⟨p, hlive, hfields.2⟩
  | child parentId hlive _ hfields =>
    simp only [groupFields, Prod.mk.injEq] at hfields
    exact .inl ⟨parentId, hlive, hfields.2⟩
  | created level _ hfields _ honly =>
    simp only [groupFields, Prod.mk.injEq] at hfields
    exact .inr ⟨hfields.2.1, hfields.2.2, honly⟩

namespace GroupInvariant

/-- A process in user mode has a group and a session. -/
theorem positive_of_user (h : GroupInvariant logic) (hp : logic.Live p)
    (huser : (logic.processes p).level = .user) :
    0 < (logic.processes p).processGroupId ∧ 0 < (logic.processes p).sessionId :=
  (h.positive p hp).resolve_left fun hkernel => by simp [huser] at hkernel

theorem of_origin (h : GroupInvariant logic) (horigin : ∀ p, next.Live p → Origin logic next p) :
    GroupInvariant next where
  consistent p q hp hq hgroup := by
    obtain ⟨r, hr, hrgroup, hrsession⟩ | ⟨hpgroup, hpsession, hponly⟩ := (horigin p hp).cases <;>
      obtain ⟨t, ht, htgroup, htsession⟩ | ⟨hqgroup, hqsession, hqonly⟩ := (horigin q hq).cases
    · rw [hrsession, htsession]
      exact h.consistent r t hr ht (hrgroup.symm.trans (hgroup.trans htgroup))
    · rw [hrsession, hqsession]
      exact hqonly r hr (hrgroup.symm.trans (hgroup.trans hqgroup))
    · rw [hpsession, htsession]
      exact (hponly t ht (htgroup.symm.trans (hgroup.symm.trans hpgroup))).symm
    · rw [hpsession, hqsession]
      exact hpgroup.symm.trans (hgroup.trans hqgroup)
  positive p hp := by
    cases horigin p hp with
    | old hlive hfields =>
      simp only [groupFields, Prod.mk.injEq] at hfields
      rw [hfields.1, hfields.2.1, hfields.2.2]
      exact h.positive p hlive
    | child parentId hlive huser hfields =>
      simp only [groupFields, Prod.mk.injEq] at hfields
      rw [hfields.2.1, hfields.2.2]
      exact .inr (h.positive_of_user hlive huser)
    | created level hlt hfields hzero honly =>
      simp only [groupFields, Prod.mk.injEq] at hfields
      rw [hfields.1, hfields.2.1, hfields.2.2]
      obtain rfl | hp := Nat.eq_zero_or_pos p
      · exact .inl ⟨rfl, hzero rfl, rfl, rfl⟩
      · exact .inr ⟨hp, hp⟩
  bounded p hp := by
    cases horigin p hp with
    | old hlive hfields =>
      simp only [groupFields, Prod.mk.injEq] at hfields
      rw [hfields.2.1]
      exact h.bounded p hlive
    | child parentId hlive huser hfields =>
      simp only [groupFields, Prod.mk.injEq] at hfields
      rw [hfields.2.1]
      exact h.bounded parentId hlive
    | created level hlt hfields hzero honly =>
      simp only [groupFields, Prod.mk.injEq] at hfields
      rw [hfields.2.1]
      rw [maxProcesses] at hlt
      omega

theorem init (memory : ℕ → ByteMemory) : GroupInvariant { memory := memory } where
  consistent _ _ hp := absurd rfl hp.2
  positive _ hp := absurd rfl hp.2
  bounded _ hp := absurd rfl hp.2

theorem killPrecise (h : GroupInvariant logic) {pid : ℤ}
    (hprecise : ∀ q, pid < -1 → logic.Live q → (logic.processes q).level = .user →
      logic.effectiveProcessGroupId q = (-pid).toNat % 2 ^ 32 → (-pid).toNat < 2 ^ 32) :
    KillPrecise logic pid where
  bounded q hq := by
    have hbound := h.bounded q hq
    have hlt := hq.1
    rw [maxProcesses] at hlt
    rw [effectiveProcessGroupId]
    split_ifs <;> omega
  precise := hprecise

/-- An operation of the logic layer. -/
theorem other (h : GroupInvariant logic) {c : ProcessCall} (hc : (GroupCall.other c).Legal logic)
    (hsafe : (GroupCall.other c).Safe logic) : GroupInvariant (c.run logic) := by
  refine h.of_origin fun p hp => ?_
  have hvfork : IgnoresVfork groupFields := ⟨fun _ _ => rfl, fun _ _ => rfl⟩
  have hfield : c.KeepsField groupFields logic := by
    cases c <;> first | exact hc | trivial
  have htimer (process : Process) :
      groupFields (decrementIntervalTimer process) = groupFields process ∧
        groupFields (reloadIntervalTimer process) = groupFields process := by
    refine ⟨rfl, ?_⟩
    rw [reloadIntervalTimer]
    split_ifs <;> rfl
  cases SlotChange.run ignoresSignals_groupFields.toIgnoresScheduling ignoresExits_groupFields hvfork
    hfield (fun _ => ⟨ignoresSignals_groupFields, htimer⟩) p with
  | kept hkept =>
    cases hkept with
    | same hfields hlife => exact .old ⟨hp.1, hlife.not.mp hp.2⟩ hfields
    | freed hfields hdead => exact absurd hdead hp.2
  | filled process hnew hfields hfree =>
    cases hnew with
    | kernel state hfirst =>
      exact .created .kernel hp.1 hfields (fun _ => rfl) (hsafe p hfirst)
    | user space state hfirst =>
      have hzero : p ≠ 0 := fun heq => hc (heq ▸ hfree)
      exact .created .user hp.1 hfields (fun heq => absurd heq hzero) (hsafe p hfirst)
    | forked parentId _ hlive huser =>
      have hparent : groupFields (logic.processes parentId) = (.user, _, _) := congrArg₂ _ huser rfl
      exact .child parentId hlive huser (hfields.trans hparent.symm)
    | sharing c hshares parentId space state hlt hrunning =>
      have huser : (logic.processes parentId).level = .user := by
        cases c <;> first | exact (hc parentId hlt hrunning).1 | exact hshares.elim
      have hparent : groupFields (logic.processes parentId) = (.user, _, _) := congrArg₂ _ huser rfl
      have hlive : logic.Live parentId := ⟨hlt, by simp [hrunning]⟩
      exact .child parentId hlive huser (hfields.trans hparent.symm)

theorem caller_spec {caller : ℕ} (huser : UserCaller logic) (hid : logic.running = some caller) :
    logic.Live caller ∧ (logic.processes caller).level = .user ∧ caller ≠ 0 := by
  obtain ⟨hlt, hrunning, -⟩ := ProcessManager.getRunningProcess_eq_some hid
  have hstatus : logic.status caller = .running := hrunning
  exact ⟨⟨hlt, by simp [hstatus]⟩, huser caller hlt hstatus⟩

theorem tracked (h : GroupInvariant logic) : GroupInvariant logic.trackRunning :=
  h.of_origin fun p hp => by
    refine .old ⟨hp.1, ?_⟩ (congrArg groupFields (trackRunning_processes logic p))
    rw [← status_trackRunning]
    exact hp.2

/-- A group is given to one process, in its session. -/
theorem withGroup (h : GroupInvariant logic) {target processGroupId sessionId : ℕ}
    (hpositive : 0 < processGroupId ∧ 0 < sessionId) (hbound : processGroupId ≤ 0xFF)
    (honly : ∀ q, q ≠ target → logic.Live q →
      (logic.processes q).processGroupId = processGroupId →
        (logic.processes q).sessionId = sessionId) :
    GroupInvariant (logic.modify target (TwistedOS.withGroup processGroupId sessionId)) := by
  set joined := logic.modify target (TwistedOS.withGroup processGroupId sessionId)
  have hself : joined.processes target =
      TwistedOS.withGroup processGroupId sessionId (logic.processes target) :=
    ProcessManager.modify_processes_self
  have hother {p : ℕ} (hp : p ≠ target) : joined.processes p = logic.processes p :=
    ProcessManager.modify_processes_of_ne hp
  have hlive {p : ℕ} (hp : joined.Live p) : logic.Live p := by
    have hlife : KeepsLife logic joined := .of_eq (status_modify_of_eq rfl)
    exact ⟨hp.1, (hlife p).not.mp hp.2⟩
  refine ⟨fun p q hp hq hgroup => ?_, fun p hp => ?_, fun p hp => ?_⟩
  · by_cases hpt : p = target <;> by_cases hqt : q = target
    · rw [hpt, hqt]
    · rw [hpt, hself, hother hqt] at hgroup ⊢
      exact (honly q hqt (hlive hq) hgroup.symm).symm
    · rw [hqt, hself, hother hpt] at hgroup ⊢
      exact honly p hpt (hlive hp) hgroup
    · rw [hother hpt, hother hqt] at hgroup ⊢
      exact h.consistent p q (hlive hp) (hlive hq) hgroup
  · by_cases hpt : p = target
    · rw [hpt, hself]
      exact .inr hpositive
    · rw [hother hpt]
      exact h.positive p (hlive hp)
  · by_cases hpt : p = target
    · rw [hpt, hself]
      exact hbound
    · rw [hother hpt]
      exact h.bounded p (hlive hp)

/-- A process that leads no session is in the session of its record. -/
theorem effectiveSessionId_eq (hne : logic.effectiveSessionId p ≠ p) :
    logic.effectiveSessionId p = (logic.processes p).sessionId ∧
      0 < (logic.processes p).sessionId := by
  rw [effectiveSessionId] at hne ⊢
  split_ifs at hne ⊢ with hsession
  · exact ⟨rfl, hsession⟩
  · exact absurd rfl hne

/-- The members of a group that `setpgid` finds in a session. -/
theorem sessionId_of_exists (h : GroupInvariant logic) {sessionId processGroupId : ℕ}
    (hsession : 0 < sessionId)
    (hexists : logic.processGroupExistsInSession sessionId processGroupId = true) :
    GroupOnlyIn logic processGroupId sessionId := by
  obtain ⟨r, -, hr⟩ := List.any_eq_true.mp hexists
  obtain ⟨hlive, hrsession, hrgroup⟩ := of_decide_eq_true hr
  have hpositive : 0 < (logic.processes r).processGroupId ∧ 0 < (logic.processes r).sessionId := by
    refine (h.positive r hlive).resolve_left fun hkernel => ?_
    obtain ⟨hzero, -, -, hnone⟩ := hkernel
    rw [effectiveSessionId, hnone, if_neg (Nat.lt_irrefl 0)] at hrsession
    omega
  rw [effectiveSessionId, if_pos hpositive.2] at hrsession
  rw [effectiveProcessGroupId, if_pos hpositive.1] at hrgroup
  intro q hq hgroup
  rw [← hrsession]
  exact h.consistent q r hq hlive (hgroup.trans hrgroup.symm)

/-- The checks that a target of `setpgid` has passed. -/
theorem checkSetpgidTarget_eq_none {caller target : ℕ}
    (hcheck : logic.checkSetpgidTarget caller target = none) :
    logic.effectiveSessionId target ≠ target := by
  rw [checkSetpgidTarget] at hcheck
  split_ifs at hcheck with _ _ _ _ hleader
  exact hleader

section

variable (h : GroupInvariant logic)

include h

/-- The end of `setpgid`: the target joins a group that is in its session already, or founds it. -/
theorem joinProcessGroup {target : ℕ} {processGroupId : ℤ}
    (hleader : logic.effectiveSessionId target ≠ target)
    (hfounds : processGroupId = target → GroupOnlyIn logic target
    (logic.effectiveSessionId target)) :
    GroupInvariant (logic.joinProcessGroup target processGroupId).2 := by
  rw [LogicLayer.joinProcessGroup]
  split_ifs with hrange hmember
  · exact h
  · exact h
  · obtain ⟨hsession, hpositive⟩ := effectiveSessionId_eq hleader
    rw [← hsession] at hpositive
    refine h.withGroup ⟨by omega, hpositive⟩ (by omega) fun q _ hq hgroup => ?_
    by_cases hself : processGroupId = target
    · exact hfounds hself q hq (by omega)
    · have hexists := not_not.mp fun hnot => hmember ⟨hself, hnot⟩
      exact h.sessionId_of_exists hpositive hexists q hq hgroup

theorem setpgid {pid processGroupId : ℤ} (hsafe :
    (GroupCall.setpgid pid processGroupId).Safe logic) :
    GroupInvariant ((GroupCall.setpgid pid processGroupId).run logic) := by
  rw [run, handleSetpgidSystemCall, withRunning]
  split
  · exact h.tracked
  next caller hcaller =>
    obtain ⟨current, htracked⟩ := trackRunning_eq logic
    have hinvariant := h.tracked
    rw [htracked] at hinvariant ⊢
    rw [setpgidFrom]
    by_cases hrange : effectivePid pid caller ≤ 0 ∨ 0xFF < effectivePid pid caller
    · rw [if_pos hrange]
      exact hinvariant
    · rw [if_neg hrange]
      split
      · exact hinvariant
      next hcheck =>
        have hleader := checkSetpgidTarget_eq_none hcheck
        have htarget : ((effectivePid pid caller).toNat : ℤ) = effectivePid pid caller := by omega
        refine hinvariant.joinProcessGroup hleader fun hfounds => ?_
        refine hsafe caller _ hcaller htarget ?_ hcheck
        split_ifs at hfounds with hzero
        · exact .inl hzero
        · exact .inr hfounds

theorem setsid (huser : UserCaller logic) (hsafe : GroupCall.setsid.Safe logic) :
    GroupInvariant (GroupCall.setsid.run logic) := by
  rw [run, handleSetsidSystemCall, withRunning]
  split
  · exact h.tracked
  next caller hcaller =>
    obtain ⟨current, htracked⟩ := trackRunning_eq logic
    have hinvariant := h.tracked
    obtain ⟨hlive, -, hne⟩ := caller_spec huser hcaller
    rw [htracked] at hinvariant ⊢
    rw [setsidFrom]
    split_ifs with hleader
    · exact hinvariant
    · have hlt := hlive.1
      rw [maxProcesses] at hlt
      exact hinvariant.withGroup ⟨by omega, by omega⟩ (by omega) fun q _ hq hgroup =>
        absurd hgroup (hsafe caller hcaller hleader q hq)

theorem signalled {accessible : UserAccess} {signal : ℕ} {ids : List ℕ}
    (hsignalled : Signalled accessible signal ids logic next) : GroupInvariant next := by
  induction hsignalled with
  | nil logic => exact h
  | @cons id ids logic middle last hsent _ ih =>
    refine ih (h.of_origin fun p hp => ?_)
    have hkept : SlotKept groupFields p logic
        ((logic.signalProcess accessible id signal).getD logic) :=
      .signalProcess ignoresSignals_groupFields ignoresExits_groupFields accessible id signal p
    rw [hsent] at hkept
    cases hkept with
    | same hfields hlife => exact .old ⟨hp.1, hlife.not.mp hp.2⟩ hfields
    | freed hfields hdead => exact absurd hdead hp.2

theorem killExact {accessible : UserAccess} {pid : ℤ} {signal : ℕ}
    (hsafe : (GroupCall.kill accessible pid signal).Safe logic) {caller : ℕ}
    (hcaller : logic.running = some caller) (hsignal : signal ≤ signalMax) :
    logic.trackRunning.KillExact accessible caller pid signal
      (logic.handleKillSystemCall accessible pid signal).1
      (logic.handleKillSystemCall accessible pid signal).2 := by
  obtain ⟨current, htracked⟩ := trackRunning_eq logic
  have hinvariant := h.tracked
  rw [handleKillSystemCall, withRunning, hcaller]
  rw [htracked] at hinvariant ⊢
  exact killFrom_exact (hinvariant.killPrecise hsafe) hsignal

theorem kill {accessible : UserAccess} {pid : ℤ} {signal : ℕ}
    (hsafe : (GroupCall.kill accessible pid signal).Safe logic) :
    GroupInvariant ((GroupCall.kill accessible pid signal).run logic) := by
  rw [run]
  cases hcaller : logic.running with
  | none =>
    rw [handleKillSystemCall, withRunning, hcaller]
    exact h.tracked
  | some caller =>
    by_cases hsignal : signal ≤ signalMax
    · obtain ⟨targets, -, -, -, hstate⟩ := (h.killExact hsafe hcaller hsignal).exists_targets
      split_ifs at hstate
      · rw [hstate]
        exact h.tracked
      · exact h.tracked.signalled hstate
    · rw [handleKillSystemCall, withRunning, hcaller]
      dsimp only
      rw [killFrom, if_pos (.inl (not_le.mp hsignal))]
      exact h.tracked

theorem call {c : GroupCall} (hc : c.Legal logic) (hsafe : c.Safe logic) :
    GroupInvariant (c.run logic) := by
  cases c with
  | setpgid pid processGroupId => exact h.setpgid hsafe
  | setsid => exact h.setsid hc hsafe
  | kill accessible pid signal => exact h.kill hsafe
  | other c => exact h.other hc hsafe

end

/-- A call that meets its condition does what it is to do. -/
theorem exact_of_safe (h : GroupInvariant logic) {c : GroupCall} (hsafe : c.Safe logic) :
    c.Exact logic := by
  cases c with
  | setpgid pid processGroupId => trivial
  | other c => trivial
  | kill accessible pid signal => exact fun caller hcaller hsignal => h.killExact hsafe hcaller hsignal
  | setsid =>
    intro caller hcaller
    obtain ⟨hlt, hrunning, -⟩ := ProcessManager.getRunningProcess_eq_some hcaller
    rw [handleSetsidSystemCall, withRunning, hcaller]
    dsimp only
    rw [setsidFrom, trackRunning_processes]
    split_ifs with hleader
    · refine iff_of_false (by decide : ¬0 ≤ errEperm) fun hnone => hnone caller ⟨hlt, ?_⟩ hleader
      have hstatus : logic.status caller = .running := hrunning
      simp [hstatus]
    · exact iff_of_true (Int.natCast_nonneg caller) (hsafe caller hcaller hleader)

end GroupInvariant

theorem SafelyReachable.groupInvariant (h : SafelyReachable logic) : GroupInvariant logic := by
  induction h with
  | init memory => exact .init memory
  | call _ c hc hsafe ih => exact ih.call hc hsafe

/-- In every state of a safe run groups are consistent, and a safe `setsid` or `kill` does what it is
to do, whichever calls have led there. -/
theorem SafelyReachable.groupsExact (h : SafelyReachable logic) : GroupsExact logic where
  consistent := h.groupInvariant.consistent
  exact_of_safe _ _ hsafe := h.groupInvariant.exact_of_safe hsafe

/-! ### Concrete runs -/

/-- The state after a list of calls. -/
def runAll (logic : LogicLayer) (calls : List GroupCall) : LogicLayer := calls.foldl run logic

/-- A condition holds at every step of a run from a state. -/
def AllSteps (condition : LogicLayer → GroupCall → Prop) : LogicLayer → List GroupCall → Prop
  | _, [] => True
  | logic, c :: calls => condition logic c ∧ AllSteps condition (c.run logic) calls

theorem Reachable.runAll {calls : List GroupCall} (h : Reachable logic)
    (hlegal : AllSteps (fun logic c => c.Legal logic) logic calls) :
    Reachable (runAll logic calls) := by
  induction calls generalizing logic with
  | nil => exact h
  | cons c calls ih => exact ih (h.call c hlegal.1) hlegal.2

theorem SafelyReachable.runAll {calls : List GroupCall} (h : SafelyReachable logic)
    (hsafe : AllSteps (fun logic c => c.Legal logic ∧ c.Safe logic) logic calls) :
    SafelyReachable (runAll logic calls) := by
  induction calls generalizing logic with
  | nil => exact h
  | cons c calls ih => exact ih (h.call c hsafe.1.1 hsafe.1.2) hsafe.2

/-- Process 1 runs and has two children in group 2, of which process 2 dies. -/
def leaderDies : List GroupCall :=
  [.other (.createKernelProcess {}), .other (.createUserProcess {}), .other .schedule,
    .other .schedule, .other (.copyProcess 1 .succeeds), .other (.copyProcess 1 .succeeds),
    .setpgid 2 2, .setpgid 3 2, .other (.killProcess 2 0)]

/-- A new process with the id of the dead leader founds group 2 again in another session. -/
theorem not_groupsConsistent_of_reachable :
    ¬ ∀ logic, Reachable logic →
      logic.GroupsConsistent ∧ ∀ c : GroupCall, c.Legal logic → c.Exact logic := by
  intro h
  have hfirst {logic : LogicLayer} (state : CpuState) (h : logic.status 0 ≠ .terminated) :
      Legal logic (.other (.createUserProcess state)) := h
  have huser {logic : LogicLayer} {c : GroupCall} (hc : c.Legal logic = UserCaller logic)
      (huser : UserCaller logic) : c.Legal logic := hc ▸ huser
  have hrun : Reachable (runAll { memory := fun _ _ => 0 } (leaderDies ++
      [.other (.copyProcess 1 .succeeds), .other .schedule, .other .schedule, .other .schedule,
        .setsid])) :=
    (Reachable.init fun _ _ => 0).runAll
      ⟨trivial, hfirst _ (by decide +kernel), trivial, trivial, trivial, trivial,
        huser rfl (by decide +kernel), huser rfl (by decide +kernel), trivial, trivial, trivial,
        trivial, trivial, huser rfl (by decide +kernel), trivial⟩
  have hsession := (h _ hrun).1 2 3 (by decide +kernel) (by decide +kernel) (by decide +kernel)
  exact absurd hsession (by decide +kernel)

/-- Process 2 founds its group, process 3 joins it, and process 2 dies. -/
theorem SafelyReachable.groupsExact_oneGroup :
    GroupsExact (GroupCall.runAll { memory := fun _ _ => 0 } leaderDies) := by
  have hfirst {logic : LogicLayer} (h : logic.status 0 ≠ .terminated) :
      Legal logic (.other (.createUserProcess {})) := h
  have hcreate {logic : LogicLayer} {id : ℕ} (hfirst : logic.pm.firstTerminated = some id)
      (honly : GroupOnlyIn logic id id) :
      ∀ slot, logic.pm.firstTerminated = some slot → GroupOnlyIn logic slot slot :=
    fun slot hslot => by
      obtain rfl : id = slot := Option.some_inj.mp (hfirst.symm.trans hslot)
      exact honly
  have hjoin {logic : LogicLayer} (pid : ℕ) (hpid : pid ≠ 0) (huser : UserCaller logic)
      (honly : GroupOnlyIn logic pid (logic.effectiveSessionId pid)) :
      (GroupCall.setpgid pid 2).Legal logic ∧ (GroupCall.setpgid pid 2).Safe logic :=
    And.intro huser fun caller target _ htarget _ _ => by
    obtain rfl : target = pid := by
      rw [effectivePid, if_neg (by omega)] at htarget
      omega
    exact honly
  refine SafelyReachable.groupsExact ((SafelyReachable.init fun _ _ => 0).runAll
    ⟨⟨trivial, ?_⟩, ⟨hfirst (by decide +kernel), ?_⟩, ⟨trivial, trivial⟩, ⟨trivial, trivial⟩,
      ⟨trivial, trivial⟩, ⟨trivial, trivial⟩, ?_, ?_, ⟨trivial, trivial⟩, trivial⟩)
  · exact hcreate (by decide +kernel : _ = some 0) (by decide +kernel)
  · exact hcreate (by decide +kernel : _ = some 1) (by decide +kernel)
  · exact hjoin 2 (by decide) (by decide +kernel) (by decide +kernel)
  · exact hjoin 3 (by decide) (by decide +kernel) (by decide +kernel)

end GroupCall

end TwistedOS
