import TwistedOS.Logic.FutexCalls

/-!
# Calls that wait for a time

`nanosleep` sleeps once for all its ticks. `poll` without descriptors does the same; with
descriptors it sleeps for one tick at a time and evaluates the descriptors after each tick. What the
evaluation finds is an argument here. `setitimer` reads and arms the interval timer of its caller.

## Main definitions

* `TimedOutcome`.
* `nanosleepTicks`, `beginNanosleep`, `finishNanosleep`.
* `PollWait`, `beginPoll`, `resumePoll`.
* `convertTimeValToTicks`, `convertTicksToTimeVal`, `setitimer`.
-/

namespace TwistedOS

/-- How a part of a call that waits ends: it returns a result and leaves a value of
`InterruptedBySignal`, or the caller sleeps for some ticks, or it blocks until the terminal has
input. -/
inductive TimedOutcome (α : Type) where
  | returns (result : ℤ) (interrupted : Bool)
  | sleeps (ticks : ℕ) (wait : α)
  | blocks (wait : α)
  deriving DecidableEq, Repr

/-! ### `nanosleep` -/

/-- The ticks of `HandleNanosleepSystemCall`, or the error with which the call ends at once. -/
def nanosleepTicks (requested : LinuxTimeSpec) : Except ℤ ℕ :=
  if requested.seconds < 0 then .error errEinval
  else if requested.nanoseconds < 0 ∨ requested.nanoseconds > 999999999 then .error errEinval
  else if requested.seconds > 0 ∧
      secondsTicks requested / timerTicksPerSecond ≠ requested.seconds.toNat then .error errEinval
  else if (secondsTicks requested + nanoTicks requested) % 2 ^ 64 < secondsTicks requested then
    .error errEinval
  else .ok ((secondsTicks requested + nanoTicks requested) % 2 ^ 64)

/-- A sleeper inside `HandleNanosleepSystemCall`: whether the remaining time can be written, `none`
when it is not asked for. -/
structure NanosleepWait where
  remainingTime : Option Bool
  deriving DecidableEq, Repr

/-- The part of `HandleNanosleepSystemCall` behind the sleep. -/
def finishNanosleep (wait : NanosleepWait) (interrupted : Bool) : TimedOutcome NanosleepWait :=
  if wait.remainingTime = some false then .returns errEfault false
  else if interrupted then .returns errEintr false
  else .returns 0 false

/-- `HandleNanosleepSystemCall` of a user process, up to its sleep; the requested time is `none` if
it cannot be read. -/
def beginNanosleep (requested : Option LinuxTimeSpec) (remainingTime : Option Bool)
    (interrupted : Bool) : TimedOutcome NanosleepWait :=
  match requested with
  | none => .returns errEfault interrupted
  | some requested =>
    match nanosleepTicks requested with
    | .error error => .returns error interrupted
    | .ok ticks =>
      if ticks = 0 then finishNanosleep ⟨remainingTime⟩ interrupted
      else .sleeps ticks ⟨remainingTime⟩

/-! ### `poll` -/

/-- A caller inside `HandlePollSystemCall`: without descriptors, without a timeout, or with the
milliseconds that remain. -/
inductive PollWait where
  | withoutDescriptors
  | untimed (hasTtyReadableWait : Bool)
  | timed (remainingMilliseconds : ℤ)
  deriving DecidableEq, Repr

/-- `(TimeoutMilliseconds + 9) / 10` in signed 64-bit arithmetic, as an unsigned number. -/
def pollSleepTicks (timeoutMilliseconds : ℤ) : ℕ :=
  (((timeoutMilliseconds + 9).bmod (2 ^ 64)).tdiv 10 % 2 ^ 64).toNat

/-- The next wait of a caller with descriptors. -/
def waitForPoll : PollWait → TimedOutcome PollWait
  | .untimed true => .blocks (.untimed true)
  | wait => .sleeps 1 wait

/-- `HandlePollSystemCall` up to its first wait. The evaluation of the descriptors finds the number
of those that are ready, or an error, and whether one is a terminal that is waited for. Its error
stands also for the `EINVAL` of more than `MAX_OPEN_FILES_PER_PROCESS` descriptors. -/
def beginPoll (pollFdCount : ℕ) (timeoutMilliseconds : ℤ) (readyCount : ℤ)
    (hasTtyReadableWait : Bool) (interrupted : Bool) : TimedOutcome PollWait :=
  if pollFdCount = 0 then
    if timeoutMilliseconds > 0 then
      .sleeps (max 1 (pollSleepTicks timeoutMilliseconds)) .withoutDescriptors
    else .returns 0 interrupted
  else if readyCount ≠ 0 then .returns readyCount interrupted
  else if timeoutMilliseconds = 0 then .returns 0 interrupted
  else if timeoutMilliseconds < 0 then waitForPoll (.untimed hasTtyReadableWait)
  else waitForPoll (.timed timeoutMilliseconds)

/-- `HandlePollSystemCall` after a wait. -/
def resumePoll (wait : PollWait) (readyCount : ℤ) (interrupted : Bool) : TimedOutcome PollWait :=
  match wait with
  | .withoutDescriptors => .returns 0 interrupted
  | .untimed hasTtyReadableWait =>
    if interrupted then .returns errEintr false
    else if readyCount ≠ 0 then .returns readyCount false
    else waitForPoll (.untimed hasTtyReadableWait)
  | .timed remainingMilliseconds =>
    if interrupted then .returns errEintr false
    else if readyCount ≠ 0 then .returns readyCount false
    else if remainingMilliseconds - 10 > 0 then waitForPoll (.timed (remainingMilliseconds - 10))
    else .returns 0 false

/-! ### `setitimer` -/

/-- `LINUX_TIMER_MICROSECONDS_PER_TICK`. -/
def timerMicrosecondsPerTick : ℕ := 10000

/-- `LinuxTimeVal`. -/
structure LinuxTimeVal where
  seconds : ℤ
  microseconds : ℤ
  deriving DecidableEq, Repr

/-- `LinuxITimerVal`. -/
structure LinuxITimerVal where
  interval : LinuxTimeVal
  value : LinuxTimeVal
  deriving DecidableEq, Repr

/-- `ConvertTicksToTimeVal`. -/
def convertTicksToTimeVal (ticks : ℕ) : LinuxTimeVal where
  seconds := (ticks * timerMicrosecondsPerTick % 2 ^ 64 / 1000000 : ℕ)
  microseconds := (ticks * timerMicrosecondsPerTick % 2 ^ 64 % 1000000 : ℕ)

/-- `IsValidTimeVal`. -/
def isValidTimeVal (value : LinuxTimeVal) : Bool :=
  0 ≤ value.seconds ∧ 0 ≤ value.microseconds ∧ value.microseconds < 1000000

/-- `ConvertTimeValToTicks`. -/
def convertTimeValToTicks (value : LinuxTimeVal) (roundUpSubTick : Bool) : ℕ :=
  let resultTicks := (value.seconds.toNat * timerTicksPerSecond % 2 ^ 64 +
    value.microseconds.toNat / timerMicrosecondsPerTick) % 2 ^ 64
  if roundUpSubTick ∧ resultTicks = 0 ∧ (value.seconds.toNat ≠ 0 ∨ value.microseconds.toNat ≠ 0 ∨
      value.microseconds.toNat % timerMicrosecondsPerTick ≠ 0) then 1
  else resultTicks

/-- The record of a process with its interval timer armed. -/
def armIntervalTimer (intervalTicks valueTicks : ℕ) (process : Process) : Process :=
  { process with
    realIntervalTimerIntervalTicks := intervalTicks
    realIntervalTimerRemainingTicks := valueTicks }

/-- `OldKernelValue`. -/
def oldIntervalTimer (process : Process) : LinuxITimerVal where
  interval := convertTicksToTimeVal process.realIntervalTimerIntervalTicks
  value := convertTicksToTimeVal process.realIntervalTimerRemainingTicks

/-- `HandleSetitimerSystemCall` of a user process for `LINUX_ITIMER_REAL`: the result, the old value
if it is written, and the record of the caller. The pointer to the old value is `none` if it is null
and otherwise says whether the value can be written; the new value is `none` if its pointer is null
and `some none` if it cannot be read. -/
def setitimer (newValue : Option (Option LinuxITimerVal)) (oldValue : Option Bool)
    (process : Process) : ℤ × Option LinuxITimerVal × Process :=
  if oldValue = some false then (errEfault, none, process)
  else
    let old := if oldValue = some true then some (oldIntervalTimer process) else none
    match newValue with
    | none => (0, old, process)
    | some none => (errEfault, old, process)
    | some (some new) =>
      if isValidTimeVal new.interval ∧ isValidTimeVal new.value then
        (0, old, armIntervalTimer (convertTimeValToTicks new.interval false)
          (convertTimeValToTicks new.value true) process)
      else (errEinval, old, process)

end TwistedOS
