import TwistedOS.Logic.RecordFields

/-!
# The futex system call

`HandleFutexSystemCall` enters a waiting process into a queue under a key made of the user address
and, for a private futex, the identity of the address space. The waiting process blocks in a loop;
what the loop does each time the process runs again is `LogicLayer.resumeFutexWait`.

The word at the user address, the timeout and the pointers to the address space objects are not
part of this state and enter as parameters.

## Main definitions

* `FutexArguments`, `futexKey`, `futexTimeoutTicks`.
* `LogicLayer.futexFrom`, `LogicLayer.wakeFutexWaiters`, `LogicLayer.resumeFutexWait`.

## Main results

* `LogicLayer.wakeFutexWaiters_spec` — a wake takes the first entries with the key.
-/

namespace TwistedOS

open Function

/-- `LINUX_ERR_ENOSYS`. -/
def errEnosys : ℤ := -38

/-- `LINUX_ERR_ETIMEDOUT`. -/
def errEtimedout : ℤ := -110

/-- `LINUX_FUTEX_WAIT`. -/
def futexWait : BitVec 64 := 0

/-- `LINUX_FUTEX_WAKE`. -/
def futexWake : BitVec 64 := 1

/-- `LINUX_FUTEX_PRIVATE_FLAG`. -/
def futexPrivateFlag : BitVec 64 := 128

/-- `LINUX_FUTEX_CMD_MASK`. -/
def futexCmdMask : BitVec 64 := 0x7F

/-- `LINUX_TIMER_TICKS_PER_SECOND`. -/
def timerTicksPerSecond : ℕ := 100

/-- `LINUX_TIMER_NANOSECONDS_PER_TICK`. -/
def timerNanosecondsPerTick : ℕ := 10000000

/-- `LinuxTimeSpec`. -/
structure LinuxTimeSpec where
  seconds : ℤ
  nanoseconds : ℤ
  deriving DecidableEq, Repr

/-- The number of ticks in the seconds of a timeout, as a 64-bit number. -/
def secondsTicks (timeout : LinuxTimeSpec) : ℕ :=
  timeout.seconds.toNat * timerTicksPerSecond % 2 ^ 64

/-- The number of ticks in the nanoseconds of a timeout, rounded up. -/
def nanoTicks (timeout : LinuxTimeSpec) : ℕ :=
  (timeout.nanoseconds.toNat + (timerNanosecondsPerTick - 1)) / timerNanosecondsPerTick

/-- The ticks of a futex timeout, or the error with which the call ends at once. -/
def futexTimeoutTicks (timeout : LinuxTimeSpec) : Except ℤ ℕ :=
  if timeout.seconds < 0 then .error errEinval
  else if timeout.nanoseconds < 0 ∨ timeout.nanoseconds > 999999999 then .error errEinval
  else if timeout.seconds > 0 ∧
      secondsTicks timeout / timerTicksPerSecond ≠ timeout.seconds.toNat then .error errEinval
  else if (secondsTicks timeout + nanoTicks timeout) % 2 ^ 64 < secondsTicks timeout then
    .error errEinval
  else if (secondsTicks timeout + nanoTicks timeout) % 2 ^ 64 = 0 then .error errEtimedout
  else .ok ((secondsTicks timeout + nanoTicks timeout) % 2 ^ 64)

/-- The arguments of the call, with what it reads through them: the word at the user address and
the timeout, `none` when they cannot be read. -/
structure FutexArguments where
  userAddress : ℕ
  operation : BitVec 64
  value : ℤ
  timeout : Option (Option LinuxTimeSpec) := none
  currentValue : Option ℤ := none
  deriving DecidableEq, Repr

namespace FutexArguments

variable (arguments : FutexArguments)

/-- The call is for a futex of the caller's address space. -/
def isPrivate : Bool := (arguments.operation &&& ~~~futexCmdMask) &&& futexPrivateFlag ≠ 0

/-- The error of a call with an unusable address or operation. -/
def argumentError : Option ℤ :=
  if arguments.userAddress % 4 ≠ 0 then some errEinval
  else if (arguments.operation &&& ~~~futexCmdMask) &&& ~~~futexPrivateFlag ≠ 0 then some errEnosys
  else none

/-- `static_cast<uint32_t>(Value)`, the most waiters that the call wakes. -/
def wakeCount : ℕ := if arguments.value ≤ 0 then 0 else (arguments.value % 2 ^ 32).toNat

/-- The ticks after which a wait ends, `none` without a timeout. -/
def waitTicks : Except ℤ (Option ℕ) :=
  match arguments.timeout with
  | none => .ok none
  | some none => .error errEfault
  | some (some timeout) => (futexTimeoutTicks timeout).map some

end FutexArguments

/-- `FutexKey`: the user address, combined with the pointer to the address space for a private
futex. -/
def futexKey (identity : ℕ → ℕ) (addressSpace : Option ℕ) (arguments : FutexArguments) : ℕ :=
  if arguments.isPrivate then
    arguments.userAddress ^^^ (addressSpace.elim 0 identity * 2 % 2 ^ 64)
  else arguments.userAddress

/-- A process inside the loop of a wait: its key, and the ticks that remain. -/
structure FutexWait where
  key : ℕ
  remainingTicks : Option ℕ
  deriving DecidableEq, Repr

/-- How a part of the call ends: it returns, after it has woken processes, or the process blocks
inside the loop. -/
inductive FutexOutcome where
  | returns (result : ℤ) (logic : LogicLayer) (woken : List ℕ := [])
  | blocks (wait : FutexWait) (logic : LogicLayer)

/-- The processes that were woken. -/
def FutexOutcome.woken : FutexOutcome → List ℕ
  | .returns _ _ woken => woken
  | .blocks _ _ => []

namespace LogicLayer

variable (logic : LogicLayer)

/-- A change of the wait queues. -/
def withSync (sync : SynchronizationManager) : LogicLayer := { logic with sync := sync }

/-- The processes that a wake of at most `n` waiters wakes, in order. -/
def wakeFutexWaiters (key : ℕ) : ℕ → LogicLayer → List ℕ × LogicLayer
  | 0, logic => ([], logic)
  | n + 1, logic =>
    match logic.sync.wakeSingleFutexWaiter key with
    | (none, _) => ([], logic)
    | (some id, sync) =>
      let woken := wakeFutexWaiters key n ((logic.withSync sync).wakeProcess id)
      (id :: woken.1, woken.2)

/-- The blocking call in the loop of a wait. -/
def blockForFutex (id : ℕ) (wait : FutexWait) : LogicLayer :=
  if wait.remainingTicks.isSome then logic.sleepProcess id 1 else logic.blockProcess id

/-- A process starts to wait. -/
def beginFutexWait (id : ℕ) (wait : FutexWait) : FutexOutcome :=
  .blocks wait ((logic.withSync (logic.sync.addFutexWaiter id wait.key)).blockForFutex id wait)

/-- The record of a process that has noticed an interruption. -/
def clearInterrupted (process : Process) : Process := { process with interruptedBySignal := false }

/-- The loop of a wait when the process runs again. -/
def resumeFutexWait (id : ℕ) (wait : FutexWait) : FutexOutcome :=
  if (logic.processes id).interruptedBySignal then
    .returns errEintr ((logic.modify id clearInterrupted).withSync
      (logic.sync.removeFutexWaiter id wait.key))
  else if ¬logic.sync.isProcessWaitingOnFutex id wait.key then .returns 0 logic
  else
    match wait.remainingTicks with
    | none => .blocks wait (logic.blockForFutex id wait)
    | some ticks =>
      if ticks ≤ 1 then
        .returns errEtimedout (logic.withSync (logic.sync.removeFutexWaiter id wait.key))
      else .blocks { wait with remainingTicks := some (ticks - 1) } (logic.blockForFutex id wait)

/-- `HandleFutexSystemCall` of the process `id`, up to the first time it blocks. -/
def futexFrom (identity : ℕ → ℕ) (arguments : FutexArguments) (id : ℕ) : FutexOutcome :=
  if (logic.processes id).level ≠ .user then .returns errEinval logic
  else
    match arguments.argumentError with
    | some error => .returns error logic
    | none =>
      if arguments.operation &&& futexCmdMask = futexWake then
        let woken := wakeFutexWaiters
          (futexKey identity (logic.processes id).addressSpace arguments) arguments.wakeCount logic
        .returns woken.1.length woken.2 woken.1
      else if arguments.operation &&& futexCmdMask ≠ futexWait then .returns errEnosys logic
      else
        match arguments.currentValue with
        | none => .returns errEfault logic
        | some currentValue =>
          if currentValue ≠ arguments.value.bmod (2 ^ 32) then .returns errEagain logic
          else
            match arguments.waitTicks with
            | .error error => .returns error logic
            | .ok ticks =>
              logic.beginFutexWait id
                ⟨futexKey identity (logic.processes id).addressSpace arguments, ticks⟩

/-- `HandleFutexSystemCall`, up to the first time the caller blocks. -/
def handleFutexSystemCall (identity : ℕ → ℕ) (arguments : FutexArguments) : FutexOutcome :=
  if arguments.userAddress = 0 then .returns errEfault logic
  else
    match logic.running with
    | none => .returns errEinval logic.trackRunning
    | some id => logic.trackRunning.futexFrom identity arguments id

/-! ### What a wake takes -/

variable {logic} {id p key n : ℕ}

/-- The first entry with a key, and the entries with the key after it. -/
theorem filter_userAddress_eq (queue : List FutexWaitTag) :
    queue.filter (fun tag => tag.userAddress = key) =
      match queue.find? fun tag => tag.userAddress = key with
      | none => []
      | some tag => tag :: (queue.eraseP fun tag => tag.userAddress = key).filter
          fun tag => tag.userAddress = key := by
  induction queue with
  | nil => rfl
  | cons tag queue ih =>
    by_cases htag : tag.userAddress = key
    · rw [List.filter_cons_of_pos (by simpa using htag), List.find?_cons_of_pos (by simpa using htag),
        List.eraseP_cons_of_pos (by simpa using htag)]
    · rw [List.filter_cons_of_neg (by simpa using htag), List.find?_cons_of_neg (by simpa using htag),
        List.eraseP_cons_of_neg (by simpa using htag), ih]
      cases queue.find? (fun tag => decide (tag.userAddress = key)) with
      | none => rfl
      | some first => rw [List.filter_cons_of_neg (by simpa using htag)]

/-- Removing the first entry with a key removes the entries of its process, when each process has
one entry. -/
theorem eraseP_userAddress_eq {queue : List FutexWaitTag} {first : FutexWaitTag}
    (hnodup : (queue.map FutexWaitTag.processId).Nodup)
    (hfind : queue.find? (fun tag => tag.userAddress = key) = some first) :
    queue.eraseP (fun tag => tag.userAddress = key) =
      queue.filter fun tag => tag.processId ≠ first.processId := by
  induction queue with
  | nil => exact absurd hfind (by simp)
  | cons tag queue ih =>
    rw [List.map_cons, List.nodup_cons] at hnodup
    by_cases htag : tag.userAddress = key
    · rw [List.find?_cons_of_pos (by simpa using htag)] at hfind
      obtain rfl := Option.some.inj hfind
      have hall : ∀ other ∈ queue, decide (other.processId ≠ tag.processId) = true :=
        fun other hmem => decide_eq_true fun heq =>
          hnodup.1 (heq ▸ List.mem_map_of_mem hmem)
      rw [List.eraseP_cons_of_pos (by simpa using htag), List.filter_cons_of_neg (by simp),
        List.filter_eq_self.mpr hall]
    · rw [List.find?_cons_of_neg (by simpa using htag)] at hfind
      have hne : tag.processId ≠ first.processId := fun heq =>
        hnodup.1 (heq ▸ List.mem_map_of_mem (List.mem_of_find?_eq_some hfind))
      rw [List.eraseP_cons_of_neg (by simpa using htag), ih hnodup.2 hfind,
        List.filter_cons_of_pos (by simpa using hne)]

/-- The entry of a process is the only one, when it has one under this key and no other. -/
theorem erase_futexWaitTag_eq {queue : List FutexWaitTag}
    (hnodup : (queue.map FutexWaitTag.processId).Nodup)
    (hkey : ∀ tag ∈ queue, tag.processId = id → tag.userAddress = key) :
    queue.erase ⟨id, key⟩ = queue.filter fun tag => tag.processId ≠ id := by
  rw [(List.Nodup.of_map _ hnodup).erase_eq_filter]
  refine List.filter_congr fun tag htag => ?_
  rw [Bool.eq_iff_iff, bne_iff_ne, decide_eq_true_iff, not_iff_not]
  constructor
  · exact congrArg FutexWaitTag.processId
  · intro hid
    rw [← hid, ← hkey tag htag hid]

theorem resumeBlocked_futexWaitQueue :
    (logic.resumeBlocked id).sync.futexWaitQueue = logic.sync.futexWaitQueue := by
  rw [resumeBlocked]
  split_ifs <;> rfl

/-- A wake takes the first `n` entries with the key out of the queue. -/
theorem wakeFutexWaiters_spec (hnodup : (logic.sync.futexWaitQueue.map FutexWaitTag.processId).Nodup) :
    (wakeFutexWaiters key n logic).1 =
        ((logic.sync.futexWaitQueue.filter fun tag => tag.userAddress = key).take n).map
          FutexWaitTag.processId ∧
      (wakeFutexWaiters key n logic).2.sync.futexWaitQueue =
        logic.sync.futexWaitQueue.filter
          fun tag => tag.processId ∉ (wakeFutexWaiters key n logic).1 := by
  induction n generalizing logic with
  | zero => simp [wakeFutexWaiters]
  | succ n ih =>
    rw [filter_userAddress_eq, wakeFutexWaiters, SynchronizationManager.wakeSingleFutexWaiter]
    cases hfind : logic.sync.futexWaitQueue.find? (fun tag => decide (tag.userAddress = key)) with
    | none =>
      refine ⟨by simp, ?_⟩
      simp
    | some first =>
      have hqueue := eraseP_userAddress_eq hnodup hfind
      dsimp only
      set woken := (logic.withSync { logic.sync with
        futexWaitQueue := logic.sync.futexWaitQueue.eraseP
          (fun tag => decide (tag.userAddress = key)) }).wakeProcess first.processId
      have hrest : woken.sync.futexWaitQueue =
          logic.sync.futexWaitQueue.eraseP (fun tag => decide (tag.userAddress = key)) :=
        resumeBlocked_futexWaitQueue
      have hnodupRest : (woken.sync.futexWaitQueue.map FutexWaitTag.processId).Nodup := by
        rw [hrest]
        exact hnodup.sublist (List.eraseP_sublist.map _)
      obtain ⟨hids, hafter⟩ := ih hnodupRest
      refine ⟨?_, ?_⟩
      · rw [hids, hrest]
        rfl
      · refine hafter.trans ?_
        rw [hrest.trans hqueue, List.filter_filter]
        refine List.filter_congr fun tag _ => ?_
        simp only [List.mem_cons, not_or, ← Bool.decide_and]
        exact decide_eq_decide.mpr and_comm

end LogicLayer

end TwistedOS
