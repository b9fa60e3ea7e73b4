import TwistedOS.Logic.SignalMasks

/-!
# The signals of safe runs

Every step of a run touches the signal fields of one process, or those of no living process. A step
that touches one process is given by what it does to the fields of this process and to what the run
remembers of it, and a safe step keeps the two consistent.

## Main definitions

* `SignalState.SignalInvariants` — what holds in every state of a safe run.

## Main results

* `SignalState.SafelyReachable.signalInvariants`, `SignalState.SafelyReachable.signalsExact`.
-/

namespace TwistedOS

open Function

namespace LogicLayer

variable {logic logic₁ logic₂ logic₃ : LogicLayer} {accessible : UserAccess} {id signal : ℕ}
  {history : SignalHistory}

/-! ### Copies to the user -/

theorem storeQwords_pm (address : ℕ) (values : List ℕ) :
    (storeQwords id logic address values).pm = logic.pm := by
  induction values generalizing logic address with
  | nil => rfl
  | cons value values ih => exact ih (address + 8)

/-- A copy to the user leaves the process table alone. -/
theorem copyOut_pm {destination : Option (Option ℕ)} {words : List ℕ}
    (h : logic₁.copyOut destination id words = some logic₂) : logic₂.pm = logic₁.pm := by
  rcases destination with _ | _ | address
  · exact congrArg LogicLayer.pm (Option.some_inj.mp h).symm
  · exact absurd h (by simp [copyOut])
  · rw [← Option.some_inj.mp h]
    exact storeQwords_pm address words

theorem copyOut_eq_none {destination : Option (Option ℕ)} {words : List ℕ} :
    logic.copyOut destination id words = none ↔ destination = some none := by
  rcases destination with _ | _ | address <;> simp [copyOut]

/-! ### The outcome of a step for one process -/

/-- A step that touches the process `id` leaves it consistent with a history. -/
structure Settled (id : ℕ) (history : SignalHistory) (logic₁ logic₂ : LogicLayer) : Prop where
  others : OthersKept id logic₁ logic₂
  alive : logic₂.status id ≠ .terminated →
    (signalFields (logic₂.processes id)).Consistent history
  dead : logic₂.status id = .terminated → (signalFields (logic₂.processes id)).Consistent {}
  quiet : (signalFields (logic₂.processes id)).Quiet

theorem consistent_of_blocked {mask : SignalMask} (hmask : mask &&& unblockableSignalMask = 0) :
    SignalFields.Consistent { blocked := mask } {} where
  owed := by rw [BitVec.ofNat_eq_ofNat, BitVec.zero_and]
  blocked_ok := hmask
  saved_ok hin := absurd hin (by simp)
  suspended_ok _ hs := absurd hs (by simp)
  before_saved _ hm := absurd hm (by simp)
  before_suspended _ _ hm := absurd hm (by simp)
  before_blocked _ hm := absurd hm (by simp)

theorem quiet_of_blocked (mask : SignalMask) : SignalFields.Quiet { blocked := mask } :=
  fun _ => by rw [BitVec.ofNat_eq_ofNat, BitVec.zero_and]

namespace Settled

theorem of_callResult (h : CallResult id history logic₁ logic₂)
    (hquiet : (signalFields (logic₂.processes id)).Quiet) : Settled id history logic₁ logic₂ where
  others := h.others
  alive := h.alive
  dead hdead := by
    rw [h.dead hdead]
    exact consistent_of_blocked zero_and_unblockable
  quiet := hquiet

/-- A step of a process that lives on. -/
theorem of_live (hothers : OthersKept id logic₁ logic₂) (hlive : logic₂.status id ≠ .terminated)
    (h : (signalFields (logic₂.processes id)).Consistent history)
    (hquiet : (signalFields (logic₂.processes id)).Quiet) : Settled id history logic₁ logic₂ where
  others := hothers
  alive _ := h
  dead hdead := absurd hdead hlive
  quiet := hquiet

/-- What only touches the process may come before. -/
theorem after_others (h : Settled id history logic₂ logic₃) (hothers : OthersKept id logic₁ logic₂) :
    Settled id history logic₁ logic₃ :=
  { h with others := hothers.trans h.others }

/-- What neither changes signal fields nor ends a life may come after. -/
theorem congr_right (h : Settled id history logic₁ logic₂)
    (hkeeps : Keeps signalFields logic₂ logic₃) (hlife : KeepsLife logic₂ logic₃) :
    Settled id history logic₁ logic₃ where
  others := h.others.trans (.of_keeps hkeeps hlife)
  alive halive := by
    rw [hkeeps]
    exact h.alive ((hlife id).not.mp halive)
  dead hdead := by
    rw [hkeeps]
    exact h.dead ((hlife id).mp hdead)
  quiet := by
    rw [hkeeps]
    exact h.quiet

/-- A signal that is sent to a live process. -/
theorem send (hlive : logic.Live id) (h : (signalFields (logic.processes id)).Consistent history)
    (hquiet : (signalFields (logic.processes id)).Quiet) (hmin : 1 ≤ signal)
    (hmax : signal ≤ signalMax) (hcont : signal = sigcont → ¬MustWait (logic.processes id) signal)
    (hsuspended : ∀ m action, history.suspended = some m →
      signalEffect accessible id (logic.processes id) signal = .handle action →
        (logic.processes id).blockedSignalMask = m) :
    Settled id { history with owed := sendOwed (logic.processes id) signal history.owed } logic
      (logic.applySignal id signal
        (signalEffect accessible id (logic.processes id) signal)) := by
  refine of_callResult (.applySignal hlive fun halive =>
    consistent_send h hmin hmax hcont hsuspended halive) ?_
  rw [signalFields_applySignal hlive.1]
  exact quiet_send hquiet hmin hmax

/-- The dispatch of all pending signals. -/
theorem drain (hlive : logic.Live id) (h : (signalFields (logic.processes id)).Consistent history)
    (hsuspended : history.suspended = none) :
    Settled id
      { history with owed := history.owed &&& ~~~drainedSignals accessible id signalMax logic }
      logic (logic.drainPendingSignals accessible id) :=
  of_callResult (callResult_drainLoop hlive h hsuspended signalMax)
    (quiet_of_dispatch_none (dispatch_drainPendingSignals hlive))

/-! ### The calls that change the mask -/

theorem keeps_sigactionFrom (arguments : SigactionArguments) :
    Keeps signalFields logic (logic.sigactionFrom arguments id).2 ∧
      KeepsLife logic (logic.sigactionFrom arguments id).2 := by
  have hrefl : Keeps signalFields logic logic ∧ KeepsLife logic logic := ⟨.refl _ _, .refl _⟩
  rw [sigactionFrom]
  split_ifs
  · exact hrefl
  · exact hrefl
  · exact hrefl
  · cases hcopied : logic.copyOut arguments.oldAction id
        (actionWords (logic.signalAction id arguments.signal.toNat)) with
    | none => exact hrefl
    | some copied =>
      have hpm := copyOut_pm hcopied
      have hkeeps : Keeps signalFields logic copied := .of_eq (congrArg _ hpm)
      have hlife : KeepsLife logic copied := .of_eq (congrArg ProcessManager.status hpm)
      rcases arguments.action with _ | _ | action
      · exact ⟨hkeeps, hlife⟩
      · exact ⟨hkeeps, hlife⟩
      · have hmodify : Keeps signalFields copied
            (copied.modify id (withSignalAction arguments.signal.toNat action)) := .modify rfl
        exact ⟨hkeeps.trans hmodify, hlife.trans (.of_eq (status_modify_of_eq rfl))⟩

theorem and_not_zero (mask : SignalMask) : mask &&& ~~~(0 : SignalMask) = mask := by
  rw [BitVec.ofNat_eq_ofNat, BitVec.not_zero, BitVec.and_allOnes]

/-- The mask that `rt_sigprocmask` sets blocks none of the unblockable signals. -/
theorem newMask_unblockable {arguments : SigprocmaskArguments} {blocked mask : SignalMask}
    (hblocked : blocked &&& unblockableSignalMask = 0)
    (h : arguments.newMask blocked = .ok mask) : mask &&& unblockableSignalMask = 0 := by
  rw [SigprocmaskArguments.newMask] at h
  split_ifs at h
  rcases hset : arguments.set with _ | _ | set
  · simp only [hset, Except.ok.injEq] at h
    rwa [← h]
  · simp [hset] at h
  · rw [hset] at h
    dsimp only at h
    have hbits (i : ℕ) (hi : i < 64) : ¬(blocked[i] ∧ unblockableSignalMask[i]) := by
      have := congrArg (fun m : SignalMask => m[i]) hblocked
      simpa using this
    rw [requestedMask] at h
    ext i hi
    have := hbits i hi
    split_ifs at h <;>
      · simp only [Except.ok.injEq] at h
        subst h
        simp only [BitVec.getElem_and, BitVec.getElem_not, BitVec.getElem_or]
        grind

/-- The mask changes, and outside of handlers it is the one before `rt_sigsuspend` or that one is
forgotten. -/
theorem consistent_setMask {fields : SignalFields} (h : fields.Consistent history)
    {mask : SignalMask} (hmask : mask &&& unblockableSignalMask = 0) {before : Option SignalMask}
    (hsuspended : history.suspended = none)
    (hbefore : ∀ m, before = some m →
      history.before = some m ∧ (fields.inHandler = false → mask = m)) :
    SignalFields.Consistent { fields with blocked := mask } { history with before := before } where
  owed := h.owed
  blocked_ok := hmask
  saved_ok := h.saved_ok
  suspended_ok := h.suspended_ok
  before_saved m hm hin := h.before_saved m (hbefore m hm).1 hin
  before_suspended _ _ _ _ hs := absurd (hsuspended.symm.trans hs) (by simp)
  before_blocked m hm hout _ := (hbefore m hm).2 hout

section

variable (hlive : logic.Live id) (h : (signalFields (logic.processes id)).Consistent history)
  (hquiet : (signalFields (logic.processes id)).Quiet) (hsuspended : history.suspended = none)

include hlive h hquiet hsuspended

theorem sigprocmaskFrom {arguments : SigprocmaskArguments}
    (hsafe : ∀ mask, arguments.oldSet = some none →
      arguments.newMask (logic.processes id).blockedSignalMask = .ok mask →
        (logic.processes id).hasSavedSignalState = true ∨
          (logic.processes id).pendingSignalMask &&& ~~~mask = 0) :
    Settled id
      { history with
        owed := history.owed &&& ~~~dispatchedFrom accessible id
          (logic.sigprocmaskDrainStart arguments id)
        before := if SignalState.KeepsOuterMask arguments (logic.processes id) then history.before
          else none } logic (logic.sigprocmaskFrom accessible arguments id).2 := by
  rw [LogicLayer.sigprocmaskFrom, sigprocmaskDrainStart]
  cases hnew : arguments.newMask (logic.processes id).blockedSignalMask with
  | error error =>
    have hkept : SignalState.KeepsOuterMask arguments (logic.processes id) :=
      .inr fun mask hmask => by simp [hnew] at hmask
    rw [if_pos hkept, dispatchedFrom, Option.map_none, Option.getD_none, and_not_zero]
    exact of_live (.of_processes fun _ _ => rfl) hlive.2 h hquiet
  | ok mask =>
    dsimp only
    set masked := logic.modify id (withBlockedMask mask)
    have hmasked : signalFields (masked.processes id) =
        { signalFields (logic.processes id) with blocked := mask } :=
      congrArg signalFields ProcessManager.modify_processes_self
    have hmaskedLive : masked.Live id := by
      have hlife : KeepsLife logic masked := .of_eq (status_modify_of_eq rfl)
      exact hlife.live hlive
    have hconsistent : (signalFields (masked.processes id)).Consistent { history with
        before := if SignalState.KeepsOuterMask arguments (logic.processes id) then history.before
          else none } := by
      rw [hmasked]
      refine consistent_setMask h (newMask_unblockable h.blocked_ok hnew) hsuspended fun m hm => ?_
      split_ifs at hm with hkept
      exact ⟨hm, fun hout => (hkept.resolve_left (by simpa [signalFields] using hout) mask
        hnew).trans (h.before_blocked m hm hout hsuspended)⟩
    rw [finishSigprocmask]
    cases hcopied : masked.copyOut arguments.oldSet id
        [(logic.processes id).blockedSignalMask.toNat] with
    | none =>
      dsimp only
      rw [dispatchedFrom, Option.map_none, Option.getD_none, and_not_zero]
      refine of_live .modify hmaskedLive.2 hconsistent fun hout => ?_
      rw [hmasked] at hout ⊢
      exact (hsafe mask (copyOut_eq_none.mp hcopied) hnew).resolve_left
        (by simpa [signalFields] using hout)
    | some copied =>
      have hpm := copyOut_pm hcopied
      have hfields : signalFields (copied.processes id) = signalFields (masked.processes id) :=
        congrArg (fun pm : ProcessManager => signalFields (pm.processes id)) hpm
      have hcopiedLive : copied.Live id := by
        have hlife : KeepsLife masked copied := .of_eq (congrArg ProcessManager.status hpm)
        exact hlife.live hmaskedLive
      have hothers : OthersKept id logic copied :=
        OthersKept.modify.trans (.of_processes fun p _ =>
          congrArg (fun pm : ProcessManager => pm.processes p) hpm)
      rw [← hfields] at hconsistent
      exact (drain hcopiedLive hconsistent hsuspended).after_others hothers

theorem sigreturnFrom
    (hsafe : (logic.processes id).hasSavedSignalState = true →
      (logic.processes id).savedSignalWasSyscall = false →
        (logic.processes id).pendingSignalMask &&& ~~~(logic.processes id).savedSignalMask = 0) :
    Settled id
      { history with
        owed := history.owed &&& ~~~dispatchedFrom accessible id (logic.sigreturnDrainStart id) }
      logic (logic.sigreturnFrom accessible id).2 := by
  set left := logic.modify id leaveHandler
  have hfields : signalFields (left.processes id) = (signalFields (logic.processes id)).leave :=
    congrArg signalFields ProcessManager.modify_processes_self
  have hleft : left.Live id := by
    have hlife : KeepsLife logic left := .of_eq (status_modify_of_eq rfl)
    exact hlife.live hlive
  rw [LogicLayer.sigreturnFrom, sigreturnDrainStart]
  by_cases hin : (logic.processes id).hasSavedSignalState = true
  · have hconsistent : (signalFields (left.processes id)).Consistent history := by
      rw [hfields]
      exact h.leave hin hsuspended
    rw [if_pos hin]
    by_cases hsyscall : (logic.processes id).savedSignalWasSyscall = true
    · rw [if_pos hsyscall, if_pos ⟨hin, hsyscall⟩]
      exact (drain hleft hconsistent hsuspended).after_others .modify
    · rw [if_neg hsyscall, if_neg fun hboth => hsyscall hboth.2, dispatchedFrom, Option.map_none,
        Option.getD_none, and_not_zero]
      refine of_live .modify hleft.2 hconsistent fun _ => ?_
      rw [hfields]
      exact hsafe hin (Bool.eq_false_iff.mpr hsyscall)
  · rw [if_neg hin, if_neg fun hboth => hin hboth.1, dispatchedFrom, Option.map_none,
      Option.getD_none, and_not_zero]
    exact of_live (.of_processes fun _ _ => rfl) hlive.2 h hquiet

end

/-- `rt_sigsuspend` sets the temporary mask and remembers the one before. -/
theorem consistent_suspend {fields : SignalFields} (h : fields.Consistent history)
    {mask : SignalMask} (hmask : mask &&& unblockableSignalMask = 0) :
    SignalFields.Consistent { fields with blocked := mask }
      { history with
        suspended := some fields.blocked
        before := if fields.inHandler then history.before else some fields.blocked } where
  owed := h.owed
  blocked_ok := hmask
  saved_ok := h.saved_ok
  suspended_ok m hm := by
    rw [← Option.some_inj.mp hm]
    exact h.blocked_ok
  before_saved m hm hin := by
    dsimp only at hm hin
    rw [if_pos hin] at hm
    exact h.before_saved m hm hin
  before_suspended m m' hm hout hm' := by
    dsimp only at hm hout
    rw [if_neg (by simp [hout])] at hm
    exact Option.some_inj.mp (hm'.symm.trans hm)
  before_blocked _ _ _ hs := absurd hs (by simp)

/-- `rt_sigsuspend` returns, and the mask before is in force again. -/
theorem consistent_resume {fields : SignalFields} (h : fields.Consistent history)
    {previousMask : SignalMask} (hsuspended : history.suspended = some previousMask) :
    SignalFields.Consistent { fields with blocked := previousMask }
      { history with suspended := none } where
  owed := h.owed
  blocked_ok := h.suspended_ok previousMask hsuspended
  saved_ok := h.saved_ok
  suspended_ok _ hs := absurd hs (by simp)
  before_saved := h.before_saved
  before_suspended _ _ _ _ hs := absurd hs (by simp)
  before_blocked m hm hout _ := h.before_suspended m previousMask hm hout hsuspended

theorem temporaryMask_unblockable (set : SignalMask) :
    set &&& ~~~unblockableSignalMask &&& unblockableSignalMask = 0 := by
  rw [BitVec.and_assoc, BitVec.and_comm (~~~_), BitVec.and_not_self]
  simp

section Sigsuspend

variable {set : SignalMask} {start : LogicLayer}
  (hstart : start = logic.modify id (suspendedRecord set))

include hstart

theorem suspended_processes : start.processes id = suspendedRecord set (logic.processes id) := by
  rw [hstart]
  exact ProcessManager.modify_processes_self

theorem suspended_live (hlive : logic.Live id) : start.Live id := by
  have hlife : KeepsLife logic start := by
    rw [hstart]
    exact .of_eq (status_modify_of_eq rfl)
  exact hlife.live hlive

theorem suspended_others : OthersKept id logic start := by
  rw [hstart]
  exact .modify

theorem suspended_consistent (h : (signalFields (logic.processes id)).Consistent history) :
    (signalFields (start.processes id)).Consistent { history with
      suspended := some (logic.processes id).blockedSignalMask
      before := if (logic.processes id).hasSavedSignalState then history.before
        else some (logic.processes id).blockedSignalMask } := by
  rw [suspended_processes hstart]
  exact consistent_suspend h (temporaryMask_unblockable set)

theorem sigsuspend_blocked (hlive : logic.Live id)
    (h : (signalFields (logic.processes id)).Consistent history)
    (hdispatch : start.dispatchOnePendingUnblockedSignal accessible id = none) :
    Settled id
      { owed := history.owed &&& ~~~start.dispatchedSignal id
        before := if (logic.processes id).hasSavedSignalState then history.before
          else some (logic.processes id).blockedSignalMask
        suspended := some (logic.processes id).blockedSignalMask } logic (start.blockProcess id) := by
  have hnone : start.dispatchedSignal id = 0 := by
    rw [dispatchOnePendingUnblockedSignal] at hdispatch
    rw [dispatchedSignal]
    split_ifs at hdispatch ⊢
    · rfl
    · rw [Option.map_eq_none_iff.mp hdispatch]
      rfl
  rw [hnone, and_not_zero]
  exact (of_live (suspended_others hstart) (suspended_live hstart hlive).2
    (suspended_consistent hstart h) (quiet_of_dispatch_none hdispatch)).congr_right
      (.blockProcess ignoresScheduling_signalFields) .blockProcess

/-- The signal that was dispatched starts no handler, and the mask before is in force again. -/
theorem sigsuspend_quiet {dispatched : LogicLayer} (hlive : logic.Live id)
    (hquiet : (signalFields (logic.processes id)).Quiet)
    (hdispatch : start.dispatchOnePendingUnblockedSignal accessible id = some dispatched)
    (hsafe : ∀ signal action, firstSignal (deliverableMask (start.processes id)) = some signal →
      signalEffect accessible id (start.processes id) signal ≠ .handle action) :
    SignalFields.Quiet { signalFields (dispatched.processes id) with
      blocked := (logic.processes id).blockedSignalMask } := by
  have hfields : signalFields (start.processes id) = { signalFields (logic.processes id) with
      blocked := set &&& ~~~unblockableSignalMask } :=
    congrArg signalFields (suspended_processes hstart)
  have hstarted := suspended_live hstart hlive
  obtain ⟨signal, hfirst, hout, rfl⟩ := dispatchOne_eq hstarted hdispatch
  obtain ⟨hmin, hmax, hbit⟩ := firstSignal_eq_some hfirst
  obtain ⟨-, hblocked⟩ := (deliverableMask_and_ne_zero hmin hmax).mp hbit
  rw [signalFields_applySignal hstarted.1, hfields]
  cases heffect : signalEffect accessible id (start.processes id) signal with
  | discard | stop | resume => exact hquiet.clear signal
  | pend => exact absurd heffect (signalEffect_ne_pend hblocked hout)
  | terminate coreDump => exact quiet_of_blocked _
  | handle action => exact absurd heffect (hsafe signal action hfirst)

/-- `rt_sigsuspend` dispatches a signal at once that starts no handler. -/
theorem sigsuspend_returned {dispatched : LogicLayer} (hlive : logic.Live id)
    (h : (signalFields (logic.processes id)).Consistent history)
    (hquiet : (signalFields (logic.processes id)).Quiet)
    (hdispatch : start.dispatchOnePendingUnblockedSignal accessible id = some dispatched)
    (hsafe : ∀ signal action, firstSignal (deliverableMask (start.processes id)) = some signal →
      signalEffect accessible id (start.processes id) signal ≠ .handle action) :
    Settled id
      { owed := history.owed &&& ~~~start.dispatchedSignal id
        before := if (logic.processes id).hasSavedSignalState then history.before
          else some (logic.processes id).blockedSignalMask
        suspended := none } logic
      (dispatched.modify id (withBlockedMask (logic.processes id).blockedSignalMask)) := by
  have hcall := callResult_dispatch (suspended_live hstart hlive) (suspended_consistent hstart h)
    hdispatch fun _ signal action _ hfirst => hsafe signal action hfirst
  set returned := dispatched.modify id (withBlockedMask (logic.processes id).blockedSignalMask)
  have hfields : signalFields (returned.processes id) = { signalFields (dispatched.processes id) with
      blocked := (logic.processes id).blockedSignalMask } :=
    congrArg signalFields ProcessManager.modify_processes_self
  have hlife : KeepsLife dispatched returned := .of_eq (status_modify_of_eq rfl)
  refine ⟨((suspended_others hstart).trans hcall.others).trans .modify, fun halive => ?_,
    fun hdead => ?_, ?_⟩
  · rw [hfields]
    exact consistent_resume (hcall.alive ((hlife id).not.mp halive)) rfl
  · rw [hfields, hcall.dead ((hlife id).mp hdead)]
    exact consistent_of_blocked h.blocked_ok
  · rw [hfields]
    exact sigsuspend_quiet hstart hlive hquiet hdispatch hsafe

end Sigsuspend

end Settled

end LogicLayer

namespace SignalState

open LogicLayer

variable {s : SignalState} {logic : LogicLayer} {accessible : UserAccess} {id signal : ℕ}
  {history : SignalHistory}

/-! ### The invariant -/

/-- What holds in every state of a safe run. -/
structure SignalInvariants (s : SignalState) : Prop where
  consistent : ∀ p, (signalFields (s.logic.processes p)).Consistent (s.history p)
  quiet : ∀ p, (signalFields (s.logic.processes p)).Quiet
  forgotten : ∀ p, s.logic.status p = .terminated → s.history p = {}

namespace SignalInvariants

/-- A step that touches one process. -/
theorem settle (h : SignalInvariants s) (hsettled : Settled id history s.logic logic) :
    SignalInvariants (after logic (update s.history id history)) where
  consistent p := by
    rw [after]
    dsimp only
    by_cases hp : p = id
    · subst hp
      split_ifs with hdead
      · exact hsettled.dead hdead
      · rw [update_self]
        exact hsettled.alive hdead
    · rw [update_of_ne hp, hsettled.others.fields p hp]
      split_ifs with hdead
      · rw [← h.forgotten p ((hsettled.others.life p hp).mp hdead)]
        exact h.consistent p
      · exact h.consistent p
  quiet p := by
    by_cases hp : p = id
    · subst hp
      exact hsettled.quiet
    · change (signalFields (logic.processes p)).Quiet
      rw [hsettled.others.fields p hp]
      exact h.quiet p
  forgotten p hdead := if_pos hdead

/-- A step that touches no living process. -/
theorem untouched (h : SignalInvariants s) (hsame : ∀ p, Untouched p s.logic logic) :
    SignalInvariants (after logic s.history) where
  consistent p := by
    rw [after]
    dsimp only
    cases hsame p with
    | same hfields hlife =>
      rw [hfields]
      split_ifs with hdead
      · rw [← h.forgotten p (hlife.mp hdead)]
        exact h.consistent p
      · exact h.consistent p
    | fresh mask hmask hfields hdead =>
      have hforgotten : (if logic.status p = .terminated then ({} : SignalHistory)
          else s.history p) = {} := by
        split_ifs with hnow
        · rfl
        · exact h.forgotten p (hdead.resolve_right hnow)
      rw [hforgotten, hfields]
      exact consistent_of_blocked hmask
  quiet p := by
    change (signalFields (logic.processes p)).Quiet
    cases hsame p with
    | same hfields hlife =>
      rw [hfields]
      exact h.quiet p
    | fresh mask hmask hfields hdead =>
      rw [hfields]
      exact quiet_of_blocked mask
  forgotten p hdead := if_pos hdead

theorem kept (h : SignalInvariants s) (hkeeps : Keeps signalFields s.logic logic)
    (hlife : KeepsLife s.logic logic) : SignalInvariants (after logic s.history) :=
  h.untouched fun p => .of_keeps hkeeps hlife p

/-! ### Signals that are sent -/

/-- A process without a slot, or a number that is no signal. -/
theorem afterSend_of_not (hnot : ¬(1 ≤ signal ∧ signal ≤ signalMax ∧ s.logic.Live id)) :
    s.afterSend id signal = s.history := by
  rw [afterSend]
  split_ifs with hlive
  · rw [sendOwed, if_neg fun hsignal => hnot ⟨hsignal.1, hsignal.2, hlive⟩]
    exact update_eq_self id s.history
  · rfl

section

variable (h : SignalInvariants s)

include h

theorem send (hsafe : s.SendSafe accessible id signal) :
    SignalInvariants (s.step (.send accessible id signal)) := by
  rw [step, signalProcess_eq]
  split_ifs with hsent
  · rw [afterSend, if_pos hsent.2.2]
    exact h.settle (.send hsent.2.2 (h.consistent id) (h.quiet id) hsent.1 hsent.2.1 hsafe.sigcont
      hsafe.suspended)
  · rw [afterSend_of_not hsent]
    exact h.kept (.refl _ _) (.refl _)

/-- A timer runs out: the count of the timer changes before the signal is sent and after. -/
theorem fireTimer (hsafe : s.SendSafe accessible id sigalrm) :
    SignalInvariants (after ((s.logic.modify id decrementIntervalTimer).fireIntervalTimer accessible
      id) (s.afterSend id sigalrm)) := by
  set ticked := s.logic.modify id decrementIntervalTimer
  have hrecord : ticked.processes id = decrementIntervalTimer (s.logic.processes id) :=
    ProcessManager.modify_processes_self
  have hkeeps : Keeps signalFields s.logic ticked := .modify rfl
  have hlife : KeepsLife s.logic ticked := .of_eq (status_modify_of_eq rfl)
  have hreload (logic : LogicLayer) :
      Keeps signalFields logic (logic.modify id reloadIntervalTimer) ∧
        KeepsLife logic (logic.modify id reloadIntervalTimer) := by
    refine ⟨.modify ?_, .of_eq (status_modify_of_eq ?_)⟩ <;>
      · rw [reloadIntervalTimer]
        split_ifs <;> rfl
  rw [fireIntervalTimer, signalProcess_eq]
  split_ifs with hsent
  · have hlive : s.logic.Live id := ⟨hsent.2.2.1, (hlife id).not.mp hsent.2.2.2⟩
    have hconsistent := h.consistent id
    have hquiet := h.quiet id
    rw [← hkeeps id] at hconsistent hquiet
    rw [afterSend, if_pos hlive]
    have hsend : Settled id { s.history id with
        owed := sendOwed (ticked.processes id) sigalrm (s.history id).owed } ticked
        (ticked.applySignal id sigalrm
          (signalEffect accessible id (ticked.processes id) sigalrm)) := by
      refine .send hsent.2.2 hconsistent hquiet hsent.1 hsent.2.1 ?_ ?_
      · exact fun hcont => absurd hcont (by decide)
      · rw [hrecord]
        exact hsafe.suspended
    have hsettled := (hsend.after_others (.of_keeps hkeeps hlife)).congr_right
      (hreload _).1 (hreload _).2
    have howed : sendOwed (ticked.processes id) sigalrm (s.history id).owed =
        sendOwed (s.logic.processes id) sigalrm (s.history id).owed := by
      rw [hrecord]
      rfl
    rw [howed] at hsettled
    exact h.settle hsettled
  · rw [afterSend_of_not fun hsent' => hsent ⟨hsent'.1, hsent'.2.1, hlife.live hsent'.2.2⟩]
    exact h.kept (hkeeps.trans (hreload _).1) (hlife.trans (hreload _).2)

theorem tickTimer
    (hsafe : (s.logic.processes id).realIntervalTimerRemainingTicks = 1 →
      s.SendSafe accessible id sigalrm) : SignalInvariants (s.step (.tickTimer accessible id)) := by
  rw [step, tickIntervalTimer, afterTimer]
  split_ifs with hidle hone hone
  · have hdead : s.logic.status id = .terminated := hidle.resolve_right (by simp [hone])
    rw [afterSend_of_not fun hsent => hsent.2.2.2 hdead]
    exact h.kept (.refl _ _) (.refl _)
  · exact h.kept (.refl _ _) (.refl _)
  · exact h.fireTimer (hsafe hone)
  · have hkeeps : Keeps signalFields s.logic (s.logic.modify id decrementIntervalTimer) :=
      .modify rfl
    exact h.kept hkeeps (.of_eq (status_modify_of_eq rfl))

theorem tickSleepers : SignalInvariants (s.step .tickSleepers) := by
  set ticked : LogicLayer := { s.logic with sync := s.logic.sync.tick }
  have hkeeps : Keeps signalFields s.logic ticked := .refl _ _
  have hlife : KeepsLife s.logic ticked := .refl _
  rw [step, LogicLayer.tickSleepers]
  dsimp only
  split
  · exact h.kept (hkeeps.trans (.resumeBlocked ignoresScheduling_signalFields))
      (hlife.trans .resumeBlocked)
  · exact h.kept hkeeps hlife

theorem other {c : ProcessCall} (hc : c.KeepsSignals s.logic) :
    SignalInvariants (s.step (.other c)) :=
  h.untouched fun p => .run (fun q => (h.consistent q).blocked_ok) hc p

end

/-! ### The calls of the running process -/

theorem caller_eq_some (hid : s.caller = some id) :
    s.logic.running = some id ∧ (s.logic.processes id).level = .user ∧
      (s.history id).suspended = none := by
  obtain ⟨hrunning, hcaller⟩ := Option.filter_eq_some_iff.mp hid
  simpa using And.intro hrunning hcaller

/-- The call runs for the process that makes it. -/
theorem withRunningUser_of_caller {α : Type*} {failed : α} {f : LogicLayer → ℕ → α × LogicLayer}
    (hid : s.caller = some id) :
    s.logic.withRunningUser failed f = f s.logic.trackRunning id := by
  obtain ⟨hrunning, huser, -⟩ := caller_eq_some hid
  rw [withRunningUser, hrunning]
  exact if_pos huser

theorem live_of_caller (hid : s.caller = some id) : s.logic.trackRunning.Live id := by
  obtain ⟨hlt, hrunning, -⟩ := ProcessManager.getRunningProcess_eq_some (caller_eq_some hid).1
  refine ⟨hlt, ?_⟩
  rw [status_trackRunning]
  have hstatus : s.logic.status id = .running := hrunning
  simp [hstatus]

/-- `GetRunningProcess` moves the tracked id only. -/
theorem others_trackRunning : OthersKept id s.logic s.logic.trackRunning :=
  .of_processes fun p _ => trackRunning_processes s.logic p

section

variable (h : SignalInvariants s)

include h

theorem tracked_consistent (id : ℕ) :
    (signalFields (s.logic.trackRunning.processes id)).Consistent (s.history id) := by
  rw [trackRunning_processes]
  exact h.consistent id

theorem tracked_quiet (id : ℕ) : (signalFields (s.logic.trackRunning.processes id)).Quiet := by
  rw [trackRunning_processes]
  exact h.quiet id

theorem sigaction (arguments : SigactionArguments) :
    SignalInvariants (s.step (.sigaction arguments)) := by
  rw [step]
  cases hid : s.caller with
  | none => exact h
  | some id =>
    obtain ⟨hkeeps, hlife⟩ := @Settled.keeps_sigactionFrom s.logic.trackRunning id arguments
    dsimp only
    rw [handleRtSigactionSystemCall, withRunningUser_of_caller hid]
    exact h.kept (Keeps.trackRunning.trans hkeeps)
      ((KeepsLife.of_eq status_trackRunning).trans hlife)

theorem sigprocmask {arguments : SigprocmaskArguments}
    (hsafe : s.Safe (.sigprocmask accessible arguments)) :
    SignalInvariants (s.step (.sigprocmask accessible arguments)) := by
  rw [step]
  cases hid : s.caller with
  | none => exact h
  | some id =>
    have hsettled : Settled id _ s.logic.trackRunning
        (s.logic.trackRunning.sigprocmaskFrom accessible arguments id).2 :=
      .sigprocmaskFrom (live_of_caller hid) (h.tracked_consistent id) (h.tracked_quiet id)
        (caller_eq_some hid).2.2 fun mask hfault hnew => by
          rw [trackRunning_processes] at hnew ⊢
          exact hsafe id mask hid hfault hnew
    dsimp only
    rw [handleRtSigprocmaskSystemCall, withRunningUser_of_caller hid, afterSigprocmask]
    rw [trackRunning_processes] at hsettled
    exact h.settle (hsettled.after_others others_trackRunning)

theorem sigreturn (hsafe : s.Safe (.sigreturn accessible)) :
    SignalInvariants (s.step (.sigreturn accessible)) := by
  rw [step]
  cases hid : s.caller with
  | none => exact h
  | some id =>
    have hsettled : Settled id _ s.logic.trackRunning
        (s.logic.trackRunning.sigreturnFrom accessible id).2 :=
      .sigreturnFrom (live_of_caller hid) (h.tracked_consistent id) (h.tracked_quiet id)
        (caller_eq_some hid).2.2 (by
          rw [trackRunning_processes]
          exact hsafe id hid)
    dsimp only
    rw [handleRtSigreturnSystemCall, withRunningUser_of_caller hid, afterDispatch]
    exact h.settle (hsettled.after_others others_trackRunning)

end

/-- `rt_sigsuspend` that fails leaves the state alone. -/
theorem sigsuspend_failed (accessible : UserAccess) (hid : s.caller = some id)
    {set : Option (Option SignalMask)}
    {sigsetSize : ℕ} (hstart : s.logic.trackRunning.sigsuspendStart set sigsetSize id = none) :
    Keeps signalFields s.logic (s.logic.handleRtSigsuspendSystemCall accessible set sigsetSize).2 ∧
      KeepsLife s.logic (s.logic.handleRtSigsuspendSystemCall accessible set sigsetSize).2 := by
  have htracked : Keeps signalFields s.logic s.logic.trackRunning ∧
      KeepsLife s.logic s.logic.trackRunning := ⟨.trackRunning, .of_eq status_trackRunning⟩
  rw [sigsuspendStart] at hstart
  rcases set with _ | _ | set
  · exact ⟨.refl _ _, .refl _⟩
  · rw [handleRtSigsuspendSystemCall, withRunningUser_of_caller hid, sigsuspendFrom]
    split_ifs <;> exact htracked
  · split_ifs at hstart with hsize
    · rw [handleRtSigsuspendSystemCall, withRunningUser_of_caller hid, sigsuspendFrom, if_pos hsize]
      exact htracked
    · simp at hstart

/-- `rt_sigsuspend` that sets its temporary mask. -/
theorem sigsuspend_started (accessible : UserAccess) (hid : s.caller = some id)
    {set : Option (Option SignalMask)}
    {sigsetSize : ℕ} {start : LogicLayer}
    (hstart : s.logic.trackRunning.sigsuspendStart set sigsetSize id = some start) :
    ∃ mask, set = some (some mask) ∧
      start = s.logic.trackRunning.modify id (suspendedRecord mask) ∧
      s.logic.handleRtSigsuspendSystemCall accessible set sigsetSize =
        match start.dispatchOnePendingUnblockedSignal accessible id with
        | some dispatched => (.returned errEintr,
            dispatched.modify id (withBlockedMask (s.logic.processes id).blockedSignalMask))
        | none => (.blocked (s.logic.processes id).blockedSignalMask, start.blockProcess id) := by
  rw [sigsuspendStart] at hstart
  split_ifs at hstart with hsize
  rcases set with _ | _ | mask
  · simp at hstart
  · simp at hstart
  · obtain rfl := Option.some_inj.mp hstart
    refine ⟨mask, rfl, rfl, ?_⟩
    rw [handleRtSigsuspendSystemCall, withRunningUser_of_caller hid, sigsuspendFrom,
      if_neg hsize, trackRunning_processes]
    rfl

theorem sigsuspend (h : SignalInvariants s) {set : Option (Option SignalMask)} {sigsetSize : ℕ}
    (hsafe : s.Safe (.sigsuspend accessible set sigsetSize)) :
    SignalInvariants (s.step (.sigsuspend accessible set sigsetSize)) := by
  rw [step]
  cases hid : s.caller with
  | none => exact h
  | some id =>
    dsimp only
    cases hstart : s.logic.trackRunning.sigsuspendStart set sigsetSize id with
    | none =>
      obtain ⟨hkeeps, hlife⟩ := sigsuspend_failed accessible hid hstart
      exact h.kept hkeeps hlife
    | some start =>
      obtain ⟨mask, hset, hmasked, hcall⟩ := sigsuspend_started accessible hid hstart
      have hlive := live_of_caller hid
      have hconsistent := h.tracked_consistent id
      have hrecord := trackRunning_processes s.logic id
      dsimp only
      rw [hcall]
      cases hdispatch : start.dispatchOnePendingUnblockedSignal accessible id with
      | none =>
        have hsettled := Settled.sigsuspend_blocked hmasked hlive hconsistent hdispatch
        rw [hrecord] at hsettled
        exact h.settle (hsettled.after_others others_trackRunning)
      | some dispatched =>
        have hsettled := Settled.sigsuspend_returned hmasked hlive hconsistent (h.tracked_quiet id)
          hdispatch fun signal action hfirst => by
            obtain ⟨-, -, hout, -⟩ := dispatchOne_eq (Settled.suspended_live hmasked hlive) hdispatch
            rw [Settled.suspended_processes hmasked, hrecord] at hout hfirst ⊢
            exact hsafe id mask signal action hid hset hout hfirst
        rw [hrecord] at hsettled
        exact h.settle (hsettled.after_others others_trackRunning)

theorem resume (h : SignalInvariants s) (hsafe : s.Safe (.resume id)) :
    SignalInvariants (s.step (.resume id)) := by
  rw [step]
  cases hsuspended : (s.history id).suspended with
  | none => exact h
  | some previousMask =>
    set resumed := (s.logic.resumeSigsuspend previousMask id).2
    have hfields : signalFields (resumed.processes id) =
        { signalFields (s.logic.processes id) with blocked := previousMask } :=
      congrArg signalFields ProcessManager.modify_processes_self
    have hlife : KeepsLife s.logic resumed := .of_eq (status_modify_of_eq rfl)
    have halive : s.logic.status id ≠ .terminated := fun hdead => by
      simp [h.forgotten id hdead] at hsuspended
    have hothers : OthersKept id s.logic resumed := .modify
    refine h.settle (.of_live hothers ((hlife id).not.mpr halive) ?_ fun hout => ?_)
    · rw [hfields]
      exact Settled.consistent_resume (h.consistent id) hsuspended
    · rw [hfields] at hout ⊢
      exact (hsafe previousMask hsuspended).resolve_left (by simpa [signalFields] using hout)

/-! ### Safe runs -/

theorem init (memory : ℕ → ByteMemory) :
    SignalInvariants { logic := { memory := memory } } where
  consistent _ := consistent_of_blocked zero_and_unblockable
  quiet _ := quiet_of_blocked 0
  forgotten _ _ := rfl

theorem next (h : SignalInvariants s) (c : SignalCall) (hc : s.Legal c) (hsafe : s.Safe c) :
    SignalInvariants (s.step c) := by
  cases c with
  | send accessible id signal => exact h.send hsafe
  | sigaction arguments => exact h.sigaction arguments
  | sigprocmask accessible arguments => exact h.sigprocmask hsafe
  | sigreturn accessible => exact h.sigreturn hsafe
  | sigsuspend accessible set sigsetSize => exact h.sigsuspend hsafe
  | resume id => exact h.resume hsafe
  | tickTimer accessible id => exact h.tickTimer hsafe
  | tickSleepers => exact h.tickSleepers
  | other c => exact h.other hc

/-- A handler that starts is that of a signal which is not blocked. -/
theorem not_blocked_of_start {p : ℕ} {before : LogicLayer}
    (hsent : before.signalProcess accessible p signal = some logic)
    (hout : (before.processes p).hasSavedSignalState = false)
    (hin : (logic.processes p).hasSavedSignalState = true) :
    (before.processes p).blockedSignalMask &&& signalMaskBit signal = 0 := by
  rw [signalProcess_eq] at hsent
  split_ifs at hsent with hvalid
  have happly := @signalFields_applySignal before p signal hvalid.2.2.1
    (signalEffect accessible p (before.processes p) signal)
  rw [Option.some_inj.mp hsent] at happly
  have hin' := congrArg SignalFields.inHandler happly
  change (logic.processes p).hasSavedSignalState = _ at hin'
  cases heffect : signalEffect accessible p (before.processes p) signal with
  | handle action => exact (signalEffect_eq_handle heffect).1
  | discard | pend | stop | resume | terminate =>
    rw [heffect, hin] at hin'
    exact absurd hin' (by simp [SignalFields.apply, SignalFields.clear, SignalFields.pend,
      signalFields, hout])

theorem toSignalsExact (h : SignalInvariants s) : s.SignalsExact where
  pending_of_owed p signal howed hzero := by
    refine howed ?_
    ext i hi
    have hsub := congrArg (fun m : SignalMask => m[i]) (h.consistent p).owed
    have hbit := congrArg (fun m : SignalMask => m[i]) hzero
    simp only [signalFields, BitVec.getElem_and, BitVec.getElem_not] at hsub hbit ⊢
    grind
  not_blocked_of_start _ _ _ _ _ hsent hout hin := not_blocked_of_start hsent hout hin
  dispatched p _ _ hout := h.quiet p hout
  unblockable p := (h.consistent p).blocked_ok
  restored p mask hmask hsuspended hout := (h.consistent p).before_blocked mask hmask hout hsuspended

end SignalInvariants

theorem SafelyReachable.signalInvariants (h : SafelyReachable s) : SignalInvariants s := by
  induction h with
  | init memory => exact .init memory
  | step _ c hc hsafe ih => exact ih.next c hc hsafe

/-- In every state of a safe run the signals are exact: what is deferred stays pending, a blocked
signal starts no handler, outside of handlers no unblocked signal is pending, `SIGKILL` and
`SIGSTOP` are never blocked, and `rt_sigsuspend` gives the mask back. -/
theorem SafelyReachable.signalsExact (h : SafelyReachable s) : s.SignalsExact :=
  h.signalInvariants.toSignalsExact

/-! ### Concrete runs -/

/-- A condition holds at every step of a run from a state. -/
def AllSteps (condition : SignalState → SignalCall → Prop) : SignalState → List SignalCall → Prop
  | _, [] => True
  | s, c :: calls => condition s c ∧ AllSteps condition (s.step c) calls

/-- The state after a list of steps. -/
def runAll (s : SignalState) (calls : List SignalCall) : SignalState := calls.foldl step s

theorem Reachable.runAll {calls : List SignalCall} (h : Reachable s)
    (hlegal : AllSteps Legal s calls) : Reachable (s.runAll calls) := by
  induction calls generalizing s with
  | nil => exact h
  | cons c calls ih => exact ih (h.step c hlegal.1) hlegal.2

theorem SafelyReachable.runAll {calls : List SignalCall} (h : SafelyReachable s)
    (hsafe : AllSteps (fun s c => s.Legal c ∧ s.Safe c) s calls) :
    SafelyReachable (s.runAll calls) := by
  induction calls generalizing s with
  | nil => exact h
  | cons c calls ih => exact ih (h.step c hsafe.1.1 hsafe.1.2) hsafe.2

/-- All of user memory can be written. -/
def anywhere : UserAccess := fun _ _ _ => true

/-- Process 1 runs, has a handler for signal 10 and blocks it, and the signal is sent to it. -/
def blockedSignal : List SignalCall :=
  [.other (.createUserProcess { rsp := 8192 }), .other (.createUserProcess { rsp := 8192 }),
    .other .schedule, .other .schedule,
    .sigaction { signal := 10, action := some (some { handler := 4096 }) },
    .sigprocmask anywhere { how := sigBlock, set := some (some (signalMaskBit 10)) },
    .send anywhere 1 10]

/-- The start of the kernel. -/
def start : SignalState where
  logic := { memory := fun _ _ => 0 }

/-- The signal is taken inside `rt_sigsuspend`, and its handler returns: the mask is then the
temporary one. -/
theorem not_signalsExact_of_reachable : ¬ ∀ s, Reachable s → s.SignalsExact := by
  intro h
  have hpersist (s : SignalState) (registers : UserRegisters) :
      s.Legal (.other (.changeRecord 1 (LogicLayer.persistFrame registers))) := rfl
  have hrun : Reachable (start.runAll (blockedSignal ++
      [.other (.changeRecord 1 (LogicLayer.persistFrame { rsp := 8192 })),
        .sigsuspend anywhere (some (some 0)) rtSigsetSize, .sigreturn anywhere])) :=
    (Reachable.init fun _ _ => 0).runAll
      ⟨trivial, trivial, trivial, trivial, trivial, trivial, trivial, hpersist _ _,
        trivial, trivial, trivial⟩
  have hrestored := (h _ hrun).restored 1 (signalMaskBit 10) (by decide +kernel)
    (by decide +kernel) (by decide +kernel)
  exact absurd hrestored (by decide +kernel)

/-- The signal is unblocked, and its handler runs and returns. -/
theorem SafelyReachable.signalsExact_unblocked :
    (start.runAll (blockedSignal ++
      [.sigprocmask anywhere { how := sigUnblock, set := some (some (signalMaskBit 10)) },
        .sigreturn anywhere])).SignalsExact := by
  have hsend {s : SignalState} (hnone : (s.history 1).suspended = none) :
      s.SendSafe anywhere 1 10 :=
    ⟨fun hcont => absurd hcont (by decide), fun _ _ hs => by simp [hnone] at hs⟩
  have hmask {s : SignalState} (arguments : SigprocmaskArguments)
      (hold : arguments.oldSet = none) : s.Safe (.sigprocmask anywhere arguments) :=
    fun _ _ _ hfault => by simp [hold] at hfault
  refine SafelyReachable.signalsExact ((SafelyReachable.init fun _ _ => 0).runAll
    ⟨⟨trivial, trivial⟩, ⟨trivial, trivial⟩, ⟨trivial, trivial⟩, ⟨trivial, trivial⟩,
      ⟨trivial, trivial⟩, ⟨trivial, hmask _ rfl⟩, ⟨trivial, hsend (by decide +kernel)⟩,
      ⟨trivial, hmask _ rfl⟩, ⟨trivial, fun id hid hin _ => ?_⟩, trivial⟩)
  obtain rfl : id = 1 := by
    rw [← Option.some_inj, ← hid]
    decide +kernel
  decide +kernel

end SignalState

end TwistedOS
