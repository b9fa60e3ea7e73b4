import TwistedOS.Logic.TimedCalls
import TwistedOS.Terminal.TerminalInput

/-!
# Requested times

A time is kept when the ticks that a call waits, if nothing else wakes its caller, cover the
duration and exceed it by less than one tick. The calls convert durations to ticks in five ways.
`nanosleep` and futex waits always keep the time; `poll` without descriptors treats every negative
timeout as zero and overflows near the largest timeout; `setitimer` drops the part of a tick and
does not check for overflow; the terminal waits one tick for each tenth of a second.

## Main definitions

* `Rounds`, `Waits`, `KeepsDuration`.
* `TimedRequest`, `TimedRequest.WellFormed`, `TimedRequest.KeepsTime`.

## Main results

* `TimedRequest.keepsTime_iff`.
-/

namespace TwistedOS

/-- The ticks cover the duration and exceed it by less than one tick. -/
def Rounds (ticks duration unit : ℕ) : Prop :=
  duration ≤ ticks * unit ∧ ticks * unit < duration + unit

/-- The number of ticks of a duration, rounded up, does not fit into 64 bits. -/
def DoesNotFit (duration unit : ℕ) : Prop := 2 ^ 64 ≤ (duration + (unit - 1)) / unit

/-- The caller sleeps for `n` ticks in all until the call returns; `Resumes` says what the call
does after each sleep. -/
inductive Waits {α : Type} (Resumes : α → TimedOutcome α → Prop) : TimedOutcome α → ℕ → Prop
  | returns {result : ℤ} {interrupted : Bool} : Waits Resumes (.returns result interrupted) 0
  | sleeps {ticks n : ℕ} {wait : α} {outcome : TimedOutcome α} (hresumes : Resumes wait outcome)
      (h : Waits Resumes outcome n) : Waits Resumes (.sleeps ticks wait) (ticks + n)

/-- The time waited rounds the duration; without a duration the call does not return. -/
def KeepsDuration {α : Type} (Resumes : α → TimedOutcome α → Prop) (outcome : TimedOutcome α)
    (unit : ℕ) : Option ℕ → Prop
  | none => ∀ n, ¬ Waits Resumes outcome n
  | some duration =>
    (∃ n, Waits Resumes outcome n) ∧ ∀ n, Waits Resumes outcome n → Rounds n duration unit

/-! ### What the calls do while nothing happens -/

/-- A sleeper in `nanosleep` that nothing interrupts. -/
def NanosleepResumes (wait : NanosleepWait) (outcome : TimedOutcome NanosleepWait) : Prop :=
  outcome = finishNanosleep wait false

/-- A caller of `poll` that nothing interrupts, and no descriptor becomes ready. -/
def PollResumes (wait : PollWait) (outcome : TimedOutcome PollWait) : Prop :=
  outcome = resumePoll wait 0 false

/-- A part of a futex call as a wait for a time. -/
def FutexOutcome.timed : FutexOutcome → TimedOutcome FutexWait
  | .returns result _ _ => .returns result false
  | .blocks wait _ => if wait.remainingTicks.isSome then .sleeps 1 wait else .blocks wait

/-- A process in a futex wait that nothing interrupts and nothing wakes. -/
def FutexResumes (id : ℕ) (wait : FutexWait) (outcome : TimedOutcome FutexWait) : Prop :=
  ∃ logic : LogicLayer, (logic.processes id).interruptedBySignal = false ∧
    logic.sync.isProcessWaitingOnFutex id wait.key ∧
    outcome = (logic.resumeFutexWait id wait).timed

/-- A part of a read from the terminal as a wait for a time. -/
def ReadOutcome.timed : ReadOutcome → TimedOutcome ReadCall
  | .returns _ _ => .returns 0 false
  | .sleeps call => .sleeps 1 call
  | .blocks call => .blocks call

/-- A reader of a terminal that gets no input. -/
def ReadResumes (tty : Tty) (call : ReadCall) (outcome : TimedOutcome ReadCall) : Prop :=
  outcome = (tty.resumeRead call).timed

/-! ### Requests -/

/-- A request for a time. -/
inductive TimedRequest where
  | nanosleep (requested : LinuxTimeSpec)
  | futexWait (timeout : LinuxTimeSpec)
  | poll (pollFdCount : ℕ) (timeoutMilliseconds : ℤ)
  | setitimer (new : LinuxITimerVal)
  | terminalRead (tty : Tty)

/-- The nanoseconds of a duration. -/
def LinuxTimeSpec.duration (time : LinuxTimeSpec) : ℕ :=
  time.seconds.toNat * 1000000000 + time.nanoseconds.toNat

/-- The microseconds of a duration. -/
def LinuxTimeVal.duration (time : LinuxTimeVal) : ℕ :=
  time.seconds.toNat * 1000000 + time.microseconds.toNat

/-- A duration with a signed 64-bit number of seconds. -/
structure LinuxTimeSpec.IsDuration (time : LinuxTimeSpec) : Prop where
  seconds_nonneg : 0 ≤ time.seconds
  seconds_lt : time.seconds < 2 ^ 63
  nanoseconds_nonneg : 0 ≤ time.nanoseconds
  nanoseconds_le : time.nanoseconds ≤ 999999999

/-- A duration with a signed 64-bit number of seconds. -/
structure LinuxTimeVal.IsDuration (time : LinuxTimeVal) : Prop where
  seconds_nonneg : 0 ≤ time.seconds
  seconds_lt : time.seconds < 2 ^ 63
  microseconds_nonneg : 0 ≤ time.microseconds
  microseconds_lt : time.microseconds < 1000000

/-- The tenths of a second of VTIME. -/
def Tty.vTime (tty : Tty) : ℕ := (tty.getControlCharacter ccVtime).toNat

namespace TimedRequest

/-- The request has the types of the call, and a reader of the terminal finds it in raw mode and
without input. -/
def WellFormed : TimedRequest → Prop
  | nanosleep requested => requested.IsDuration
  | futexWait timeout => timeout.IsDuration
  | poll _ timeoutMilliseconds => -2 ^ 63 ≤ timeoutMilliseconds ∧ timeoutMilliseconds < 2 ^ 63
  | setitimer new => new.interval.IsDuration ∧ new.value.IsDuration
  | terminalRead tty => tty.isCanonicalModeEnabled = false ∧ tty.bufferedBytes = 0

/-- A setting of the interval timer is exact: its ticks round the durations, and reading them back
gives the durations up to one tick. -/
structure ArmsExactly (new : LinuxITimerVal) (process : Process) : Prop where
  value_rounds : Rounds process.realIntervalTimerRemainingTicks new.value.duration
    timerMicrosecondsPerTick
  interval_rounds : Rounds process.realIntervalTimerIntervalTicks new.interval.duration
    timerMicrosecondsPerTick
  readsBack : ∃ old, (TwistedOS.setitimer none (some true) process).2.1 = some old ∧
    (old.value.duration : ℤ) - new.value.duration ≤ timerMicrosecondsPerTick ∧
    (new.value.duration : ℤ) - old.value.duration ≤ timerMicrosecondsPerTick ∧
    (old.interval.duration : ℤ) - new.interval.duration ≤ timerMicrosecondsPerTick ∧
    (new.interval.duration : ℤ) - old.interval.duration ≤ timerMicrosecondsPerTick

/-- The request is served for the time it asks for, and is refused only when its number of ticks
does not fit into 64 bits. -/
def KeepsTime : TimedRequest → Prop
  | nanosleep requested => ∀ remainingTime,
    match nanosleepTicks requested with
    | .ok _ => KeepsDuration NanosleepResumes (beginNanosleep (some requested) remainingTime false)
        timerNanosecondsPerTick (some requested.duration)
    | .error _ => DoesNotFit requested.duration timerNanosecondsPerTick
  | futexWait timeout =>
    match futexTimeoutTicks timeout with
    | .ok ticks => ∀ (logic : LogicLayer) (id key : ℕ),
        KeepsDuration (FutexResumes id) (logic.beginFutexWait id ⟨key, some ticks⟩).timed
          timerNanosecondsPerTick (some timeout.duration)
    | .error error =>
      if error = errEtimedout then Rounds 0 timeout.duration timerNanosecondsPerTick
      else DoesNotFit timeout.duration timerNanosecondsPerTick
  | poll pollFdCount timeoutMilliseconds => ∀ hasTtyReadableWait,
    KeepsDuration PollResumes
      (beginPoll pollFdCount timeoutMilliseconds 0 hasTtyReadableWait false) 10
      (if timeoutMilliseconds < 0 then none else some timeoutMilliseconds.toNat)
  | setitimer new => ∀ process,
    let result := TwistedOS.setitimer (some (some new)) none process
    if result.1 = 0 then ArmsExactly new result.2.2
    else DoesNotFit new.value.duration timerMicrosecondsPerTick ∨
      DoesNotFit new.interval.duration timerMicrosecondsPerTick
  | terminalRead tty => ∀ count, 0 < count →
    KeepsDuration (ReadResumes tty) (tty.resumeRead (tty.beginRead count false)).timed 10
      (if tty.vTime = 0 ∧ tty.getControlCharacter ccVmin ≠ 0 then none else some (tty.vTime * 100))

/-- The requests that are served for the time they ask for. -/
def IsKept : TimedRequest → Prop
  | nanosleep _ => True
  | futexWait _ => True
  | poll pollFdCount timeoutMilliseconds =>
    0 < pollFdCount ∨ 0 ≤ timeoutMilliseconds ∧ timeoutMilliseconds ≤ 2 ^ 63 - 10
  | setitimer new =>
    (new.value.duration < 2 ^ 64 ∧
      (timerMicrosecondsPerTick ∣ new.value.duration ∨
        new.value.duration < timerMicrosecondsPerTick)) ∧
    new.interval.duration < 2 ^ 64 ∧ timerMicrosecondsPerTick ∣ new.interval.duration
  | terminalRead tty => tty.vTime = 0

end TimedRequest

/-! ### Waits -/

section Waits

variable {α : Type} {Resumes : α → TimedOutcome α → Prop} {outcome : TimedOutcome α}
  {wait : α} {ticks n t : ℕ}

@[simp] theorem waits_returns_iff {result : ℤ} {interrupted : Bool} :
    Waits Resumes (.returns result interrupted) n ↔ n = 0 := by
  constructor
  · intro h
    cases h
    rfl
  · rintro rfl
    exact .returns

@[simp] theorem not_waits_blocks : ¬ Waits Resumes (.blocks wait) n := by
  intro h
  cases h

theorem waits_sleeps_iff : Waits Resumes (.sleeps ticks wait) n ↔
    ∃ outcome k, Resumes wait outcome ∧ Waits Resumes outcome k ∧ n = ticks + k := by
  constructor
  · intro h
    cases h with
    | sleeps hresumes h => exact ⟨_, _, hresumes, h, rfl⟩
  · rintro ⟨outcome, k, hresumes, h, rfl⟩
    exact .sleeps hresumes h

/-- A call that always resumes in the same way. -/
theorem waits_sleeps_iff_of_eq (hresumes : ∀ o, Resumes wait o ↔ o = outcome) :
    Waits Resumes (.sleeps ticks wait) n ↔ ∃ k, Waits Resumes outcome k ∧ n = ticks + k := by
  simp only [waits_sleeps_iff, hresumes, ↓existsAndEq, true_and]

/-- A call that waits for a known number of ticks keeps the time if the number rounds it. -/
theorem keepsDuration_iff {duration unit : ℕ} (h : ∀ n, Waits Resumes outcome n ↔ n = t) :
    KeepsDuration Resumes outcome unit (some duration) ↔ Rounds t duration unit := by
  simp only [KeepsDuration, h, exists_eq, forall_eq, true_and]

end Waits

/-! ### `nanosleep` and futex waits -/

section TimeSpecs

variable {time : LinuxTimeSpec}

/-- The ticks of the seconds and of the nanoseconds are the duration, rounded up. -/
theorem roundUp_duration :
    (time.duration + (timerNanosecondsPerTick - 1)) / timerNanosecondsPerTick =
      time.seconds.toNat * timerTicksPerSecond + nanoTicks time := by
  simp only [LinuxTimeSpec.duration, nanoTicks, timerNanosecondsPerTick, timerTicksPerSecond]
  omega

/-- A number of ticks that is rounded up rounds the duration. -/
theorem rounds_roundUp (duration unit : ℕ) (hunit : 0 < unit) :
    Rounds ((duration + (unit - 1)) / unit) duration unit := by
  have hdiv := Nat.div_add_mod (duration + (unit - 1)) unit
  have hmod := Nat.mod_lt (duration + (unit - 1)) hunit
  rw [Nat.mul_comm] at hdiv
  exact ⟨by omega, by omega⟩

/-- The ticks of a sleep: the duration rounded up, if it fits. -/
theorem nanosleepTicks_eq (h : time.IsDuration) :
    nanosleepTicks time =
      if (time.duration + (timerNanosecondsPerTick - 1)) / timerNanosecondsPerTick < 2 ^ 64 then
        .ok ((time.duration + (timerNanosecondsPerTick - 1)) / timerNanosecondsPerTick)
      else .error errEinval := by
  rw [roundUp_duration]
  obtain ⟨hseconds, hlt, hnanoseconds, hle⟩ := h
  have hnano : nanoTicks time ≤ 100 := by
    simp only [nanoTicks, timerNanosecondsPerTick]
    omega
  rw [nanosleepTicks, if_neg (by omega), if_neg (by omega)]
  by_cases hfits : time.seconds.toNat * timerTicksPerSecond < 2 ^ 64
  · have hticks : secondsTicks time = time.seconds.toNat * timerTicksPerSecond :=
      Nat.mod_eq_of_lt hfits
    rw [hticks, Nat.mul_div_cancel _ (by decide), if_neg (by simp)]
    generalize time.seconds.toNat * timerTicksPerSecond = seconds at hfits ⊢
    by_cases hsum : seconds + nanoTicks time < 2 ^ 64
    · rw [Nat.mod_eq_of_lt hsum, if_neg (by omega), if_pos hsum]
    · rw [if_pos (by omega), if_neg hsum]
  · have hdiv : secondsTicks time / timerTicksPerSecond < time.seconds.toNat := by
      refine Nat.div_lt_of_lt_mul ?_
      rw [Nat.mul_comm]
      exact (Nat.mod_lt _ (by decide)).trans_le (Nat.not_lt.mp hfits)
    have hpos := Nat.zero_lt_of_lt hdiv
    rw [if_pos ⟨by omega, hdiv.ne⟩, if_neg (by omega)]

/-- The ticks of a futex wait: the same as those of a sleep, unless there are none. -/
theorem futexTimeoutTicks_eq (time : LinuxTimeSpec) :
    futexTimeoutTicks time = (nanosleepTicks time).bind fun ticks =>
      if ticks = 0 then .error errEtimedout else .ok ticks := by
  have hbind (p q r t : Prop) [Decidable p] [Decidable q] [Decidable r] [Decidable t]
      (error : ℤ) (ticks : ℕ) :
      (if p then .error error else if q then .error error else if r then .error error
        else if t then .error error else if ticks = 0 then .error errEtimedout else .ok ticks) =
      (if p then .error error else if q then .error error else if r then .error error
        else if t then .error error else .ok ticks : Except ℤ ℕ).bind fun ticks =>
          if ticks = 0 then .error errEtimedout else .ok ticks := by
    by_cases hp : p <;> by_cases hq : q <;> by_cases hr : r <;> by_cases ht : t <;>
      simp only [hp, hq, hr, ht, if_true, if_false] <;> rfl
  exact hbind _ _ _ _ _ _

/-- A sleep that nothing interrupts lasts for its ticks. -/
theorem waits_beginNanosleep_iff {remainingTime : Option Bool} {ticks n : ℕ}
    (h : nanosleepTicks time = .ok ticks) :
    Waits NanosleepResumes (beginNanosleep (some time) remainingTime false) n ↔ n = ticks := by
  have hfinish (k : ℕ) :
      Waits NanosleepResumes (finishNanosleep ⟨remainingTime⟩ false) k ↔ k = 0 := by
    unfold finishNanosleep
    split_ifs <;> simp
  simp only [beginNanosleep, h]
  split_ifs with hzero
  · rw [hfinish, hzero]
  · rw [waits_sleeps_iff_of_eq fun _ => Iff.rfl]
    simp only [hfinish, exists_eq_left, Nat.add_zero]

/-- A futex wait that nothing ends waits for its ticks. -/
theorem waits_futex_iff {id key : ℕ} (ticks : ℕ) {n : ℕ} :
    Waits (FutexResumes id) (.sleeps 1 ⟨key, some (ticks + 1)⟩) n ↔ n = ticks + 1 := by
  have hresumes (remaining : ℕ) (outcome : TimedOutcome FutexWait) :
      FutexResumes id ⟨key, some remaining⟩ outcome ↔ outcome =
        if remaining ≤ 1 then .returns errEtimedout false
        else .sleeps 1 ⟨key, some (remaining - 1)⟩ := by
    have heq (logic : LogicLayer) (hno : (logic.processes id).interruptedBySignal = false)
        (hwaits : logic.sync.isProcessWaitingOnFutex id key) :
        (logic.resumeFutexWait id ⟨key, some remaining⟩).timed =
          if remaining ≤ 1 then .returns errEtimedout false
          else .sleeps 1 ⟨key, some (remaining - 1)⟩ := by
      rw [LogicLayer.resumeFutexWait, if_neg (by simp [hno]), if_neg (by simp [hwaits])]
      dsimp only
      split_ifs <;> rfl
    constructor
    · rintro ⟨logic, hno, hwaits, rfl⟩
      exact heq logic hno hwaits
    · rintro rfl
      let logic : LogicLayer :=
        ({} : LogicLayer).withSync { futexWaitQueue := [⟨id, key⟩] }
      exact ⟨logic, rfl, by simp [logic, LogicLayer.withSync,
        SynchronizationManager.isProcessWaitingOnFutex], (heq logic rfl (by
          simp [logic, LogicLayer.withSync,
            SynchronizationManager.isProcessWaitingOnFutex])).symm⟩
  induction ticks generalizing n with
  | zero =>
    rw [waits_sleeps_iff_of_eq (hresumes _)]
    simp
  | succ ticks ih =>
    rw [waits_sleeps_iff_of_eq (hresumes _), if_neg (by omega)]
    simp only [Nat.add_sub_cancel, ih, exists_eq_left]
    omega

end TimeSpecs

/-! ### `poll` -/

/-- A wait for at most `k + 1` ticks, evaluated after each tick. -/
theorem waits_timed_iff (k : ℕ) {n : ℕ} {remaining : ℤ} (hlt : 10 * k < remaining)
    (hle : remaining ≤ 10 * (k + 1)) :
    Waits PollResumes (.sleeps 1 (.timed remaining)) n ↔ n = k + 1 := by
  induction k generalizing n remaining with
  | zero =>
    rw [waits_sleeps_iff_of_eq fun _ => Iff.rfl]
    have hlast : ¬ remaining - 10 > 0 := by omega
    simp only [resumePoll, Bool.false_eq_true, if_false, ne_eq, not_true_eq_false, hlast,
      waits_returns_iff, exists_eq_left, Nat.add_zero, Nat.zero_add]
  | succ k ih =>
    rw [waits_sleeps_iff_of_eq fun _ => Iff.rfl]
    have hmore : remaining - 10 > 0 := by omega
    have hnext (m : ℕ) : Waits PollResumes (.sleeps 1 (.timed (remaining - 10))) m ↔ m = k + 1 :=
      ih (by omega) (by omega)
    simp only [resumePoll, Bool.false_eq_true, if_false, ne_eq, not_true_eq_false, hmore, if_true,
      waitForPoll, hnext, exists_eq_left]
    omega

/-- A wait without a timeout does not end by itself. -/
theorem not_waits_untimed (hasTtyReadableWait : Bool) (n : ℕ) :
    ¬ Waits PollResumes (waitForPoll (.untimed hasTtyReadableWait)) n := by
  cases hasTtyReadableWait with
  | true => exact not_waits_blocks
  | false =>
    intro h
    generalize houtcome : waitForPoll (.untimed false) = outcome at h
    induction h with
    | returns => cases houtcome
    | sleeps hresumes h ih =>
      cases houtcome
      exact ih hresumes.symm

/-- The ticks of a sleep without descriptors, away from the largest timeouts. -/
theorem pollSleepTicks_eq {timeout : ℤ} (hpos : 0 < timeout) (hle : timeout ≤ 2 ^ 63 - 10) :
    pollSleepTicks timeout = ((timeout + 9) / 10).toNat := by
  have hbmod : (timeout + 9).bmod (2 ^ 64) = timeout + 9 :=
    Int.bmod_eq_of_le (by omega) (by omega)
  rw [pollSleepTicks, hbmod, Int.tdiv_eq_ediv_of_nonneg (by omega)]
  congr 1
  omega

/-- The ticks of a sleep without descriptors for the largest timeouts, whose sum overflows. -/
theorem pollSleepTicks_of_overflow {timeout : ℤ} (hlt : 2 ^ 63 - 10 < timeout)
    (hmax : timeout < 2 ^ 63) : pollSleepTicks timeout = 17524406870024074036 := by
  have hbmod : (timeout + 9).bmod (2 ^ 64) = -(2 ^ 64 - 9 - timeout) := by
    rw [← Int.sub_bmod_right, Int.bmod_eq_of_le (by omega) (by omega)]
    omega
  rw [pollSleepTicks, hbmod, Int.neg_tdiv, Int.tdiv_eq_ediv_of_nonneg (by omega)]
  omega

/-- The calls of `poll` that keep the time. -/
theorem keeps_poll_iff {pollFdCount : ℕ} {timeout : ℤ} (hmax : timeout < 2 ^ 63) :
    (∀ hasTtyReadableWait, KeepsDuration PollResumes
      (beginPoll pollFdCount timeout 0 hasTtyReadableWait false) 10
      (if timeout < 0 then none else some timeout.toNat)) ↔
    0 < pollFdCount ∨ 0 ≤ timeout ∧ timeout ≤ 2 ^ 63 - 10 := by
  unfold beginPoll
  rcases Nat.eq_zero_or_pos pollFdCount with hcount | hcount
  · simp only [hcount, if_true, Nat.lt_irrefl, false_or]
    rcases lt_trichotomy timeout 0 with hneg | rfl | hpos
    · rw [if_neg (by omega), if_pos hneg]
      refine iff_of_false (fun h => ?_) (by omega)
      exact h false 0 .returns
    · simp [KeepsDuration, Rounds]
    · rw [if_pos hpos, if_neg (by omega)]
      have hwaits (n : ℕ) : Waits PollResumes
          (.sleeps (max 1 (pollSleepTicks timeout)) .withoutDescriptors) n ↔
            n = max 1 (pollSleepTicks timeout) := by
        rw [waits_sleeps_iff_of_eq fun _ => Iff.rfl]
        simp [resumePoll]
      simp only [keepsDuration_iff hwaits, forall_const]
      by_cases hle : timeout ≤ 2 ^ 63 - 10
      · rw [pollSleepTicks_eq hpos hle]
        exact iff_of_true ⟨by omega, by omega⟩ ⟨hpos.le, hle⟩
      · rw [pollSleepTicks_of_overflow (by omega) hmax]
        exact iff_of_false (fun h => by have := h.2; omega) (by omega)
  · refine iff_of_true (fun hasTtyReadableWait => ?_) (.inl hcount)
    rw [if_neg hcount.ne', if_neg (by simp)]
    rcases lt_trichotomy timeout 0 with hneg | rfl | hpos
    · rw [if_neg hneg.ne, if_pos hneg, if_pos hneg]
      exact not_waits_untimed hasTtyReadableWait
    · simp [KeepsDuration, Rounds]
    · rw [if_neg hpos.ne', if_neg (by omega), if_neg (by omega)]
      refine (keepsDuration_iff fun n => waits_timed_iff ((timeout - 1) / 10).toNat
        (by omega) (by omega)).mpr ⟨by omega, by omega⟩

/-! ### The interval timer -/

/-- The ticks of a duration, rounded down, round it only if it consists of whole ticks. -/
theorem rounds_floor_iff (duration : ℕ) :
    Rounds (duration / timerMicrosecondsPerTick % 2 ^ 64) duration timerMicrosecondsPerTick ↔
      duration / timerMicrosecondsPerTick < 2 ^ 64 ∧ timerMicrosecondsPerTick ∣ duration := by
  simp only [Rounds, timerMicrosecondsPerTick]
  omega

theorem convertTimeValToTicks_false (time : LinuxTimeVal) :
    convertTimeValToTicks time false = time.duration / timerMicrosecondsPerTick % 2 ^ 64 := by
  simp only [convertTimeValToTicks, Bool.false_eq_true, false_and, if_false,
    LinuxTimeVal.duration, timerTicksPerSecond, timerMicrosecondsPerTick]
  omega

/-- The ticks of a value: as those of an interval, but one tick at least. -/
theorem convertTimeValToTicks_true {time : LinuxTimeVal} :
    convertTimeValToTicks time true =
      if time.duration / timerMicrosecondsPerTick % 2 ^ 64 = 0 ∧ time.duration ≠ 0 then 1
      else time.duration / timerMicrosecondsPerTick % 2 ^ 64 := by
  have hnonzero : (time.seconds.toNat ≠ 0 ∨ time.microseconds.toNat ≠ 0 ∨
      time.microseconds.toNat % timerMicrosecondsPerTick ≠ 0) ↔ time.duration ≠ 0 := by
    simp only [LinuxTimeVal.duration, timerMicrosecondsPerTick]
    omega
  have hticks := convertTimeValToTicks_false time
  simp only [convertTimeValToTicks, Bool.false_eq_true, false_and, if_false] at hticks
  simp only [convertTimeValToTicks, true_and, hticks, hnonzero]

/-- The ticks of a value round it only if it consists of whole ticks or is less than one. -/
theorem rounds_value_iff (time : LinuxTimeVal) :
    Rounds (convertTimeValToTicks time true) time.duration timerMicrosecondsPerTick ↔
      time.duration / timerMicrosecondsPerTick < 2 ^ 64 ∧
        (timerMicrosecondsPerTick ∣ time.duration ∨ time.duration < timerMicrosecondsPerTick) := by
  rw [convertTimeValToTicks_true]
  split_ifs with hsub
  · simp only [Rounds, timerMicrosecondsPerTick] at *
    omega
  · rw [rounds_floor_iff]
    simp only [timerMicrosecondsPerTick] at *
    omega

/-- What is read back for a number of ticks. -/
theorem duration_convertTicksToTimeVal (ticks : ℕ) :
    (convertTicksToTimeVal ticks).duration = ticks * timerMicrosecondsPerTick % 2 ^ 64 := by
  simp only [LinuxTimeVal.duration, convertTicksToTimeVal, Int.toNat_natCast]
  omega

/-- The settings of the interval timer that are exact. -/
theorem armsExactly_iff {new : LinuxITimerVal} {process : Process} :
    TimedRequest.ArmsExactly new (armIntervalTimer (convertTimeValToTicks new.interval false)
      (convertTimeValToTicks new.value true) process) ↔
    (new.value.duration < 2 ^ 64 ∧
      (timerMicrosecondsPerTick ∣ new.value.duration ∨
        new.value.duration < timerMicrosecondsPerTick)) ∧
    new.interval.duration < 2 ^ 64 ∧ timerMicrosecondsPerTick ∣ new.interval.duration := by
  have hvalue := rounds_value_iff new.value
  have hinterval := rounds_floor_iff new.interval.duration
  rw [← convertTimeValToTicks_false] at hinterval
  have hback := duration_convertTicksToTimeVal (convertTimeValToTicks new.value true)
  have hbackInterval := duration_convertTicksToTimeVal (convertTimeValToTicks new.interval false)
  constructor
  · rintro ⟨hv, hi, old, hold, hbounds⟩
    obtain rfl := Option.some.inj hold
    obtain ⟨h₁, h₂, h₃, h₄⟩ := hbounds
    have hv' := hvalue.mp hv
    have hi' := hinterval.mp hi
    simp only [oldIntervalTimer, armIntervalTimer, hback, hbackInterval, Rounds,
      timerMicrosecondsPerTick] at *
    omega
  · rintro ⟨hv, hi⟩
    have hv' := hvalue.mpr ⟨by simp only [timerMicrosecondsPerTick]; omega, hv.2⟩
    have hi' := hinterval.mpr ⟨by simp only [timerMicrosecondsPerTick]; omega, hi.2⟩
    refine ⟨hv', hi', _, rfl, ?_⟩
    simp only [oldIntervalTimer, armIntervalTimer, hback, hbackInterval, Rounds,
      timerMicrosecondsPerTick] at *
    omega

/-! ### The terminal -/

section Terminal

variable {tty : Tty} {call : ReadCall}

/-- A reader that need not wait returns. -/
theorem timed_finishRead : (tty.finishRead call).timed = .returns 0 false := by
  unfold Tty.finishRead
  split_ifs <;> rfl

/-- A reader with a timeout of VTIME gets nothing for as many ticks as VTIME still allows. -/
theorem waits_deciseconds_iff (call : ReadCall) (k : ℕ) {n : ℕ}
    (hraw : tty.isCanonicalModeEnabled = false) (hempty : tty.bufferedBytes = 0)
    (hblocks : call.isNonBlocking = false)
    (hrequired : 0 < call.requiredBytes) (hvTime : 0 < call.vTime)
    (hk : call.decisecondsWaited + k = call.vTime) :
    Waits (ReadResumes tty) (tty.resumeRead call).timed n ↔ n = k := by
  have hshort : tty.getReadableBytes < call.requiredBytes := by
    rw [Tty.getReadableBytes, hraw, if_neg (by simp), hempty]
    exact hrequired
  induction k generalizing n call with
  | zero =>
    rw [Tty.resumeRead, if_pos hshort, if_neg (by simp [hblocks]),
      if_pos ⟨by simp [hraw], hvTime, by omega⟩, timed_finishRead, waits_returns_iff]
  | succ k ih =>
    rw [Tty.resumeRead, if_pos hshort, if_neg (by simp [hblocks]), if_neg (by omega),
      if_pos ⟨by simp [hraw], hvTime⟩, ReadOutcome.timed, waits_sleeps_iff_of_eq fun _ => Iff.rfl]
    simp only [ih { call with decisecondsWaited := call.decisecondsWaited + 1 } hblocks hrequired
      hvTime (by simp only; omega) hshort, exists_eq_left]
    omega

theorem keeps_read_iff (hraw : tty.isCanonicalModeEnabled = false)
    (hempty : tty.bufferedBytes = 0) :
    (∀ count, 0 < count →
      KeepsDuration (ReadResumes tty) (tty.resumeRead (tty.beginRead count false)).timed 10
      (if tty.vTime = 0 ∧ tty.getControlCharacter ccVmin ≠ 0 then none
        else some (tty.vTime * 100))) ↔ tty.vTime = 0 := by
  have hvMin : tty.getControlCharacter ccVmin = 0 ↔ (tty.getControlCharacter ccVmin).toNat = 0 :=
    by simp [← UInt8.toNat_inj]
  have hreadable : tty.getReadableBytes = 0 := by
    rw [Tty.getReadableBytes, hraw, if_neg (by simp), hempty]
  rcases Nat.eq_zero_or_pos tty.vTime with hvTime | hvTime
  · refine iff_of_true (fun count _ => ?_) hvTime
    by_cases hzero : tty.getControlCharacter ccVmin = 0
    · rw [if_neg (by simp [hzero])]
      have hrequired : (tty.beginRead count false).requiredBytes = 0 := by
        simp only [Tty.beginRead, Tty.requiredBytes, hraw, hzero, Tty.vTime] at hvTime ⊢
        simp [hvTime]
      rw [Tty.resumeRead, hrequired, if_neg (by omega), timed_finishRead, hvTime]
      simp [KeepsDuration, Rounds]
    · rw [if_pos ⟨hvTime, hzero⟩]
      have hrequired : 0 < (tty.beginRead count false).requiredBytes := by
        rw [hvMin] at hzero
        simp only [Tty.beginRead, Tty.requiredBytes, hraw]
        simp [hzero]
        omega
      rw [Tty.resumeRead, if_pos (by omega), if_neg (by simp [Tty.beginRead]),
        if_neg fun h => absurd h.2.1 (by simp [Tty.beginRead]; exact hvTime),
        if_neg fun h => absurd h.2 (by simp [Tty.beginRead]; exact hvTime)]
      exact fun n => not_waits_blocks
  · refine iff_of_false (fun h => ?_) hvTime.ne'
    have hrequired : 0 < (tty.beginRead 1 false).requiredBytes := by
      simp only [Tty.beginRead, Tty.requiredBytes, hraw]
      simp only [Tty.vTime] at hvTime
      split_ifs <;> omega
    have hwaits (n : ℕ) := waits_deciseconds_iff (n := n) (tty.beginRead 1 false) tty.vTime
      hraw hempty rfl hrequired hvTime (by simp [Tty.beginRead, Tty.vTime])
    have hkeeps := h 1 Nat.zero_lt_one
    rw [if_neg (by omega), keepsDuration_iff hwaits] at hkeeps
    have := hkeeps.1
    omega

end Terminal

/-! ### All requests -/

/-- **Requested times.** A request is served for the time it asks for, up to one tick, if and only
if it is a sleep, a futex wait, a `poll` with descriptors or with a timeout from `0` to
`2 ^ 63 - 10`, a setting of the interval timer to whole ticks or, for its value, to less than one
tick, of less than `2 ^ 64` microseconds, or a read from the terminal with VTIME `0`. -/
theorem TimedRequest.keepsTime_iff (request : TimedRequest) (h : request.WellFormed) :
    request.KeepsTime ↔ request.IsKept := by
  cases request with
  | nanosleep requested =>
    refine iff_of_true (fun remainingTime => ?_) trivial
    have hticks := nanosleepTicks_eq h
    by_cases hfits : (requested.duration + (timerNanosecondsPerTick - 1)) /
      timerNanosecondsPerTick < 2 ^ 64
    · rw [if_pos hfits] at hticks
      simp only [hticks]
      rw [keepsDuration_iff fun n => waits_beginNanosleep_iff hticks]
      exact rounds_roundUp _ _ (by decide)
    · rw [if_neg hfits] at hticks
      simp only [hticks]
      exact Nat.not_lt.mp hfits
  | futexWait timeout =>
    refine iff_of_true ?_ trivial
    have hticks := futexTimeoutTicks_eq timeout
    rw [nanosleepTicks_eq h] at hticks
    have hrounds := rounds_roundUp timeout.duration timerNanosecondsPerTick (by decide)
    by_cases hfits : (timeout.duration + (timerNanosecondsPerTick - 1)) /
      timerNanosecondsPerTick < 2 ^ 64
    · rw [if_pos hfits] at hticks
      generalize (timeout.duration + (timerNanosecondsPerTick - 1)) / timerNanosecondsPerTick =
        ticks at hticks hrounds
      cases ticks with
      | zero =>
        change futexTimeoutTicks timeout = .error errEtimedout at hticks
        simp only [KeepsTime, hticks, if_true]
        exact hrounds
      | succ ticks =>
        change futexTimeoutTicks timeout = .ok (ticks + 1) at hticks
        simp only [KeepsTime, hticks]
        intro logic id key
        exact (keepsDuration_iff fun n => waits_futex_iff ticks).mpr hrounds
    · rw [if_neg hfits] at hticks
      change futexTimeoutTicks timeout = .error errEinval at hticks
      simp only [KeepsTime, hticks]
      rw [if_neg (by decide)]
      exact Nat.not_lt.mp hfits
  | poll pollFdCount timeoutMilliseconds => exact keeps_poll_iff h.2
  | setitimer new =>
    obtain ⟨hinterval, hvalue⟩ := h
    have hvalid : isValidTimeVal new.interval ∧ isValidTimeVal new.value := by
      simp only [isValidTimeVal, decide_eq_true_eq]
      exact ⟨⟨hinterval.seconds_nonneg, hinterval.microseconds_nonneg, hinterval.microseconds_lt⟩,
        hvalue.seconds_nonneg, hvalue.microseconds_nonneg, hvalue.microseconds_lt⟩
    simp only [KeepsTime, TwistedOS.setitimer, reduceCtorEq, if_false, if_pos hvalid, if_true]
    exact ⟨fun h => armsExactly_iff.mp (h {}), fun h process => armsExactly_iff.mpr h⟩
  | terminalRead tty => exact keeps_read_iff h.1 h.2

/-- Two seconds of sleep. -/
theorem TimedRequest.keepsTime_iff_twoSeconds : (TimedRequest.nanosleep ⟨2, 0⟩).KeepsTime :=
  (TimedRequest.keepsTime_iff (.nanosleep ⟨2, 0⟩)
    ⟨by decide, by decide, by decide, by decide⟩).mpr trivial

/-- A terminal in raw mode whose readers wait for a tenth of a second. -/
def oneDecisecondTerminal : Tty :=
  (Tty.new ⟨0x100000, 640, 400, 640, true⟩ 0 0).withInput (fun _ => 0) 0 0 0 0
    ⟨0, fun index => if index = ccVtime then 1 else 0⟩

/-- The interval timer drops five of fifteen milliseconds, the terminal waits one tick for a tenth
of a second, and `poll` without descriptors waits too long for the largest timeout and not at all
for an unlimited one. -/
theorem TimedRequest.not_keepsTime :
    ¬ (TimedRequest.setitimer ⟨⟨0, 0⟩, ⟨0, 15000⟩⟩).KeepsTime ∧
      ¬ (TimedRequest.terminalRead oneDecisecondTerminal).KeepsTime ∧
      ¬ (TimedRequest.poll 0 (2 ^ 63 - 1)).KeepsTime ∧ ¬ (TimedRequest.poll 0 (-1)).KeepsTime := by
  refine ⟨fun h => ?_, fun h => ?_, fun h => ?_, fun h => ?_⟩
  · exact absurd (armsExactly_iff.mp (h {})) (by decide)
  · exact absurd ((keeps_read_iff rfl rfl).mp h) (by decide)
  · exact absurd ((keeps_poll_iff (by decide)).mp h) (by decide)
  · exact absurd ((keeps_poll_iff (by decide)).mp h) (by decide)

end TwistedOS
