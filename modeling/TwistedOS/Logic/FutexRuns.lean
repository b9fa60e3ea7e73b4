import TwistedOS.Logic.FutexQueue

/-!
# Runs of futex waits and wakes

A run is any sequence of futex calls by running processes, of steps in which a process inside a
wait runs on, and of other operations of the logic layer. Beside the state it keeps which processes
wait on which word, in the order in which they began, and which of them a wake has counted.

In every state reached, a wait returns `0` only when a wake has counted the process, and a process
that returns with another result has left the queue. A wake is *safe* when no entry that it takes
was left behind by a process that has died or been interrupted, when the keys of the processes that
wait tell their words apart, and when the count fits into 32 bits. A safe wake wakes as many
processes as it should, in the order in which they began to wait.

## Main definitions

* `FutexWord`, `FutexState`, `FutexState.step`, `FutexState.Reachable`.
* `FutexState.WakeSafe`, `FutexState.WakeExact`, `FutexState.FutexExact`.

## Main results

* `FutexState.Reachable.futexExact`.
-/

namespace TwistedOS

open Function

/-- The word that a futex call is about. -/
inductive FutexWord where
  | inAddressSpace (addressSpace : Option ℕ) (address : ℕ)
  | inMemory (physicalAddress : ℕ)
  deriving DecidableEq, Repr

/-- The word at the user address of a private call of a process in an address space, or of a shared
call for which the address is mapped to a physical one. -/
def futexWord (addressSpace : Option ℕ) (arguments : FutexArguments) (physicalAddress : ℕ) :
    FutexWord :=
  if arguments.isPrivate then .inAddressSpace addressSpace arguments.userAddress
  else .inMemory physicalAddress

/-- The state of the kernel with the processes inside a wait, and the history of the waits: the
processes that wait, in the order in which they began, and those that a wake has counted. -/
structure FutexState where
  logic : LogicLayer := {}
  waits : ℕ → Option FutexWait := fun _ => none
  waiters : List (ℕ × FutexWord) := []
  counted : ℕ → Bool := fun _ => false

/-- A step of a run. A call comes with the physical address of the word; `other` is any other
operation of the logic layer. -/
inductive FutexEvent where
  | call (arguments : FutexArguments) (physicalAddress : ℕ)
  | resume
  | other (c : ProcessCall)

namespace FutexState

variable (identity : ℕ → ℕ) (s : FutexState)

/-- The ids of the processes that wait. -/
def ids : List ℕ := s.waiters.map Prod.fst

/-- The end of a part of a call that has woken some processes. -/
def afterWake (logic : LogicLayer) (woken : List ℕ) : FutexState where
  logic := logic
  waits := s.waits
  waiters := s.waiters.filter fun waiter => waiter.1 ∉ woken
  counted p := decide (p ∈ woken) || s.counted p

/-- A process has begun to wait. -/
def afterBegin (id : ℕ) (word : FutexWord) (wait : FutexWait) (logic : LogicLayer) :
    FutexState where
  logic := logic
  waits := update s.waits id (some wait)
  waiters := s.waiters.filter (fun waiter => waiter.1 ≠ id) ++ [(id, word)]
  counted := update s.counted id false

/-- A process has left its wait. -/
def afterLeave (id : ℕ) (logic : LogicLayer) : FutexState where
  logic := logic
  waits := update s.waits id none
  waiters := s.waiters.filter fun waiter => waiter.1 ≠ id
  counted := s.counted

/-- A process inside a wait blocks again. -/
def afterStay (id : ℕ) (wait : FutexWait) (logic : LogicLayer) : FutexState :=
  { s with logic := logic, waits := update s.waits id (some wait) }

/-- Another operation has run, after which some processes may be dead. -/
def afterOther (logic : LogicLayer) : FutexState where
  logic := logic
  waits p := if logic.status p = .terminated then none else s.waits p
  waiters := s.waiters.filter fun waiter => ¬logic.status waiter.1 = .terminated
  counted := s.counted

/-- A futex call by the running process, which is not inside a wait. -/
def call (arguments : FutexArguments) (physicalAddress : ℕ) : FutexState :=
  match s.logic.handleFutexSystemCall identity arguments with
  | .returns _ logic woken => s.afterWake logic woken
  | .blocks wait logic =>
    match s.logic.running with
    | none => s
    | some id => s.afterBegin id
        (futexWord (s.logic.processes id).addressSpace arguments physicalAddress) wait logic

/-- The running process, which is inside a wait, runs on. -/
def resume (id : ℕ) (wait : FutexWait) : FutexState :=
  match s.logic.resumeFutexWait id wait with
  | .returns _ logic _ => s.afterLeave id logic
  | .blocks wait logic => s.afterStay id wait logic

/-- The wait of the running process. -/
def runningWait : Option (ℕ × FutexWait) :=
  s.logic.running.bind fun id => (s.waits id).map (Prod.mk id)

/-- A step of a run. A process inside a wait makes no other futex call. -/
def step : FutexEvent → FutexState
  | .call arguments physicalAddress =>
    if s.runningWait = none then s.call identity arguments physicalAddress else s
  | .resume =>
    match s.runningWait with
    | none => s
    | some (id, wait) => s.resume id wait
  | .other c => s.afterOther (c.run s.logic)

/-- The states that runs lead to from the start of the kernel. -/
inductive Reachable : FutexState → Prop
  | init (memory : ℕ → ByteMemory) : Reachable { logic := { memory := memory } }
  | step {s : FutexState} (h : Reachable s) (event : FutexEvent) : Reachable (s.step identity event)

/-! ### The property -/

/-- The processes that wait on a word and were not interrupted, in the order in which they began. -/
def waitingOn (word : FutexWord) : List ℕ :=
  (s.waiters.filter fun waiter => waiter.2 = word ∧
    (s.logic.processes waiter.1).interruptedBySignal = false).map Prod.fst

/-- The end of a wake of at most `value` processes that wait on a word: it wakes the first ones,
returns their number, and leaves the records of all other processes alone. -/
def WakeExact (word : FutexWord) (value : ℤ) : FutexOutcome → Prop
  | .returns result logic woken =>
    result = min value.toNat (s.waitingOn word).length ∧
      woken = (s.waitingOn word).take value.toNat ∧
      (∀ p ∈ woken, logic.status p ≠ .blocked) ∧
      ∀ p, p ∉ woken → logic.processes p = s.logic.processes p
  | .blocks _ _ => False

theorem WakeExact.woken_eq {s : FutexState} {word : FutexWord} {value : ℤ} {outcome : FutexOutcome}
    (h : s.WakeExact word value outcome) :
    outcome.woken = (s.waitingOn word).take value.toNat := by
  cases outcome with
  | returns result logic woken => exact h.2.1
  | blocks wait logic => exact h.elim

/-- The condition on a wake with a key for a word. -/
structure WakeSafe (key : ℕ) (word : FutexWord) (value : ℤ) : Prop where
  lt : value < 2 ^ 32
  fresh : ∀ tag ∈ (s.logic.sync.futexWaitQueue.filter fun tag =>
    tag.userAddress = key).take value.toNat, tag.processId ∈ s.ids ∧
      (s.logic.processes tag.processId).interruptedBySignal = false
  distinct : ∀ waiter ∈ s.waiters,
    ⟨waiter.1, key⟩ ∈ s.logic.sync.futexWaitQueue ↔ waiter.2 = word

/-- A call that wakes processes. -/
def IsWake (id : ℕ) (arguments : FutexArguments) : Prop :=
  s.logic.running = some id ∧ (s.logic.processes id).level = .user ∧ arguments.userAddress ≠ 0 ∧
    arguments.argumentError = none ∧ arguments.operation &&& futexCmdMask = futexWake

instance (id : ℕ) (arguments : FutexArguments) : Decidable (s.IsWake id arguments) :=
  inferInstanceAs (Decidable (_ ∧ _ ∧ _ ∧ _ ∧ _))

/-- The processes that wait are alive and inside the loop, safe wakes are exact, and a wait returns
`0` only when it was counted and leaves the queue otherwise. -/
structure FutexExact : Prop where
  waiting : ∀ waiter ∈ s.waiters, s.logic.Live waiter.1 ∧ (s.waits waiter.1).isSome
  wake : ∀ id arguments physicalAddress, s.IsWake id arguments →
    s.WakeSafe (futexKey identity (s.logic.processes id).addressSpace arguments)
      (futexWord (s.logic.processes id).addressSpace arguments physicalAddress) arguments.value →
    s.WakeExact (futexWord (s.logic.processes id).addressSpace arguments physicalAddress)
      arguments.value (s.logic.handleFutexSystemCall identity arguments)
  counted_of_zero : ∀ id wait logic woken, s.waits id = some wait →
    s.logic.resumeFutexWait id wait = .returns 0 logic woken → s.counted id = true
  gone : ∀ id wait result logic woken, s.waits id = some wait →
    s.logic.resumeFutexWait id wait = .returns result logic woken →
      ∀ tag ∈ logic.sync.futexWaitQueue, tag.processId ≠ id

end FutexState

/-! ### What the parts of a call do -/

namespace LogicLayer

variable {logic logic' : LogicLayer} {id key n : ℕ} {wait : FutexWait}

theorem keepsLife_wakeFutexWaiters : KeepsLife logic (wakeFutexWaiters key n logic).2 := by
  induction n generalizing logic with
  | zero => exact .refl logic
  | succ n ih =>
    rw [wakeFutexWaiters]
    split
    · exact .refl logic
    next id sync _ =>
      have hwoken : KeepsLife (logic.withSync sync) ((logic.withSync sync).wakeProcess id) :=
        .resumeBlocked
      exact hwoken.trans ih

theorem wakeFutexWaiters_processes_of_notMem {p : ℕ} (hp : p ∉ (wakeFutexWaiters key n logic).1) :
    (wakeFutexWaiters key n logic).2.processes p = logic.processes p := by
  induction n generalizing logic with
  | zero => rfl
  | succ n ih =>
    rw [wakeFutexWaiters] at hp ⊢
    split at hp
    · rfl
    next id sync _ =>
      obtain ⟨hne, hrest⟩ := not_or.mp (List.mem_cons.not.mp hp)
      exact (ih hrest).trans (resumeBlocked_processes_of_ne hne)

theorem status_wakeProcess_ne_blocked (hlt : id < maxProcesses) :
    (logic.wakeProcess id).status id ≠ .blocked := by
  rw [wakeProcess, resumeBlocked]
  split_ifs with hblocked
  · have hready : (logic.setStatus id .ready).status id = .ready := by
      rw [status_setStatus, update_self]
    exact fun h => absurd (hready.symm.trans h) (by simp)
  · exact fun h => hblocked ⟨hlt, h⟩

theorem wakeFutexWaiters_status_ne_blocked {p : ℕ} (hlt : p < maxProcesses)
    (hp : p ∈ (wakeFutexWaiters key n logic).1) :
    (wakeFutexWaiters key n logic).2.status p ≠ .blocked := by
  induction n generalizing logic with
  | zero => exact absurd hp (by simp [wakeFutexWaiters])
  | succ n ih =>
    rw [wakeFutexWaiters] at hp ⊢
    split at hp
    · exact absurd hp (by simp)
    next id sync _ =>
      by_cases hrest : p ∈ (wakeFutexWaiters key n ((logic.withSync sync).wakeProcess id)).1
      · exact ih hrest
      · obtain rfl := (List.mem_cons.mp hp).resolve_right hrest
        have hstatus := wakeFutexWaiters_processes_of_notMem hrest
        intro hblocked
        exact absurd ((congrArg Process.status hstatus).symm.trans hblocked)
          (status_wakeProcess_ne_blocked hlt)

theorem keepsLife_blockForFutex : KeepsLife logic (logic.blockForFutex id wait) := by
  rw [blockForFutex]
  split_ifs
  · exact .sleepProcess 1
  · exact .blockProcess

theorem blockForFutex_futexWaitQueue :
    (logic.blockForFutex id wait).sync.futexWaitQueue = logic.sync.futexWaitQueue := by
  rw [blockForFutex]
  split_ifs
  · exact sleepProcess_futexWaitQueue 1
  · exact congrArg SynchronizationManager.futexWaitQueue blockProcess_sync

/-- A call returns at once with an error, wakes processes or starts to wait. -/
theorem futexFrom_cases (identity : ℕ → ℕ) (arguments : FutexArguments) :
    (∃ error, logic.futexFrom identity arguments id = .returns error logic) ∨
      ((logic.processes id).level = .user ∧ arguments.argumentError = none ∧
        arguments.operation &&& futexCmdMask = futexWake ∧
        logic.futexFrom identity arguments id =
          .returns (wakeFutexWaiters (futexKey identity (logic.processes id).addressSpace arguments)
              arguments.wakeCount logic).1.length
            (wakeFutexWaiters (futexKey identity (logic.processes id).addressSpace arguments)
              arguments.wakeCount logic).2
            (wakeFutexWaiters (futexKey identity (logic.processes id).addressSpace arguments)
              arguments.wakeCount logic).1) ∨
      ∃ ticks, logic.futexFrom identity arguments id = logic.beginFutexWait id
        ⟨futexKey identity (logic.processes id).addressSpace arguments, ticks⟩ := by
  rw [futexFrom]
  split_ifs with hlevel hwake hwait
  · exact .inl ⟨_, rfl⟩
  · split
    · exact .inl ⟨_, rfl⟩
    next hnone => exact .inr (.inl ⟨not_not.mp hlevel, hnone, hwake, rfl⟩)
  · split
    · exact .inl ⟨_, rfl⟩
    · exact .inl ⟨_, rfl⟩
  · split
    · exact .inl ⟨_, rfl⟩
    · split
      · exact .inl ⟨_, rfl⟩
      · split_ifs
        · exact .inl ⟨_, rfl⟩
        · split
          · exact .inl ⟨_, rfl⟩
          · exact .inr (.inr ⟨_, rfl⟩)

end LogicLayer

/-! ### Runs -/

namespace FutexState

open LogicLayer

variable {identity : ℕ → ℕ} {s : FutexState}

/-- The queue is exact, and the processes inside a wait are alive. -/
structure FutexInvariant (s : FutexState) : Prop where
  queue : FutexQueueExact s.logic.sync.futexWaitQueue s.ids s.waits s.counted
  live : ∀ p, (s.waits p).isSome → s.logic.Live p

theorem ids_filter (waiters : List (ℕ × FutexWord)) (P : ℕ → Prop) [DecidablePred P] :
    (waiters.filter fun waiter => P waiter.1).map Prod.fst =
      (waiters.map Prod.fst).filter fun p => P p := by
  rw [List.filter_map]
  rfl

namespace FutexInvariant

section

variable (h : FutexInvariant s)

include h

theorem afterWake {logic : LogicLayer} {woken : List ℕ} (hlife : KeepsLife s.logic logic)
    (hqueue : logic.sync.futexWaitQueue =
      s.logic.sync.futexWaitQueue.filter fun tag => tag.processId ∉ woken) :
    FutexInvariant (s.afterWake logic woken) where
  queue := by
    have hwake := h.queue.wake woken
    rw [← hqueue, ids, ← ids_filter s.waiters (· ∉ woken)] at hwake
    exact hwake
  live p hp := hlife.live (h.live p hp)

theorem afterBegin {logic : LogicLayer} {id : ℕ} {wait : FutexWait} (word : FutexWord)
    (hlive : s.logic.Live id) (hlife : KeepsLife s.logic logic)
    (hqueue : logic.sync.futexWaitQueue = (s.logic.sync.futexWaitQueue.filter fun tag =>
      tag.processId ≠ id) ++ [⟨id, wait.key⟩]) :
    FutexInvariant (s.afterBegin id word wait logic) where
  queue := by
    have hbegin := h.queue.begin id wait
    rw [← hqueue, ids, ← ids_filter s.waiters (· ≠ id)] at hbegin
    rw [ids, FutexState.afterBegin, List.map_append]
    exact hbegin
  live p hp := by
    by_cases hid : p = id
    · rw [hid]
      exact hlife.live hlive
    · change (update s.waits id (some wait) p).isSome at hp
      rw [update_of_ne hid] at hp
      exact hlife.live (h.live p hp)

theorem afterLeave {logic : LogicLayer} {id : ℕ} (hlife : KeepsLife s.logic logic)
    (hqueue : logic.sync.futexWaitQueue =
      s.logic.sync.futexWaitQueue.filter fun tag => tag.processId ≠ id) :
    FutexInvariant (s.afterLeave id logic) where
  queue := by
    have hleave := h.queue.leave id
    rw [← hqueue, ids, ← ids_filter s.waiters (· ≠ id)] at hleave
    exact hleave
  live p hp := by
    refine hlife.live (h.live p ?_)
    by_cases hid : p = id
    · subst hid
      change (update s.waits p none p).isSome at hp
      simp at hp
    · change (update s.waits id none p).isSome at hp
      rwa [update_of_ne hid] at hp

theorem afterStay {logic : LogicLayer} {id : ℕ} {wait wait' : FutexWait}
    (hwait : s.waits id = some wait) (hkey : wait'.key = wait.key) (hlife : KeepsLife s.logic logic)
    (hqueue : logic.sync.futexWaitQueue = s.logic.sync.futexWaitQueue) :
    FutexInvariant (s.afterStay id wait' logic) where
  queue := by
    have hstay := h.queue.stay hwait hkey
    rw [← hqueue] at hstay
    exact hstay
  live p hp := by
    refine hlife.live (h.live p ?_)
    by_cases hid : p = id
    · rw [hid, hwait]
      rfl
    · change (update s.waits id (some wait') p).isSome at hp
      rwa [update_of_ne hid] at hp

theorem afterOther {logic : LogicLayer}
    (hqueue : logic.sync.futexWaitQueue = s.logic.sync.futexWaitQueue) :
    FutexInvariant (s.afterOther logic) where
  queue := by
    have hdie := h.queue.die (logic.status · = .terminated)
    rw [← hqueue, ids, ← ids_filter s.waiters (¬logic.status · = .terminated)] at hdie
    exact hdie
  live p hp := by
    change (if logic.status p = .terminated then none else s.waits p).isSome at hp
    split_ifs at hp with hdead
    · exact absurd hp (by simp)
    · exact ⟨(h.live p hp).1, hdead⟩

/-- A process that runs on inside a wait returns and leaves the queue, or stays in it. -/
theorem resumeFutexWait_spec {id : ℕ} {wait : FutexWait} (hwait : s.waits id = some wait) :
    (∃ result logic, s.logic.resumeFutexWait id wait = .returns result logic ∧
        KeepsLife s.logic logic ∧ (result = 0 → s.counted id = true) ∧
        logic.sync.futexWaitQueue =
          s.logic.sync.futexWaitQueue.filter fun tag => tag.processId ≠ id) ∨
      ∃ wait' logic, s.logic.resumeFutexWait id wait = .blocks wait' logic ∧
        KeepsLife s.logic logic ∧ wait'.key = wait.key ∧
        logic.sync.futexWaitQueue = s.logic.sync.futexWaitQueue := by
  have hkey : ∀ tag ∈ s.logic.sync.futexWaitQueue, tag.processId = id →
      tag.userAddress = wait.key := fun tag htag hid =>
    h.queue.key_eq tag htag wait (hid ▸ hwait)
  have herase := erase_futexWaitTag_eq h.queue.nodup hkey
  rw [resumeFutexWait]
  split_ifs with hinterrupted hnot
  · refine .inl ⟨_, _, rfl, .of_eq (status_modify_of_eq rfl), fun hzero => ?_, herase⟩
    exact absurd hzero (by decide)
  · split
    · exact .inr ⟨_, _, rfl, keepsLife_blockForFutex, rfl, blockForFutex_futexWaitQueue⟩
    · split_ifs
      · exact .inl ⟨_, _, rfl, .refl _, fun hzero => absurd hzero (by decide), herase⟩
      · exact .inr ⟨_, _, rfl, keepsLife_blockForFutex, rfl, blockForFutex_futexWaitQueue⟩
  · have hgone : ⟨id, wait.key⟩ ∉ s.logic.sync.futexWaitQueue := by
      simpa [SynchronizationManager.isProcessWaitingOnFutex] using hnot
    refine .inl ⟨_, _, rfl, .refl _, fun _ => ?_, ?_⟩
    · refine h.queue.counted_of_notMem id (by simp [hwait]) fun hmem => ?_
      exact hgone ((h.queue.mem_queue_iff hwait).mpr hmem)
    · rw [← herase, List.erase_of_not_mem hgone]

theorem resume {id : ℕ} {wait : FutexWait} (hwait : s.waits id = some wait) :
    FutexInvariant (s.resume id wait) := by
  rw [FutexState.resume]
  obtain ⟨result, logic, heq, hlife, -, hqueue⟩ | ⟨wait', logic, heq, hlife, hkey, hqueue⟩ :=
    h.resumeFutexWait_spec hwait
  · rw [heq]
    exact h.afterLeave hlife hqueue
  · rw [heq]
    exact h.afterStay hwait hkey hlife hqueue

theorem call (arguments : FutexArguments) (physicalAddress : ℕ) :
    FutexInvariant (s.call identity arguments physicalAddress) := by
  have herror {logic : LogicLayer} (hlife : KeepsLife s.logic logic)
      (hqueue : logic.sync.futexWaitQueue = s.logic.sync.futexWaitQueue) :
      FutexInvariant (s.afterWake logic []) :=
    h.afterWake hlife (by simp [hqueue])
  rw [FutexState.call, handleFutexSystemCall]
  split_ifs
  · exact herror (.refl _) rfl
  rcases hid : s.logic.running with _ | id
  · exact herror (.of_eq status_trackRunning) rfl
  have hlive : s.logic.Live id := by
    obtain ⟨hlt, hrunning, -⟩ := ProcessManager.getRunningProcess_eq_some hid
    refine ⟨hlt, fun hdead => ?_⟩
    exact absurd (hdead.symm.trans hrunning) (by simp)
  have htrack : KeepsLife s.logic s.logic.trackRunning := .of_eq status_trackRunning
  obtain ⟨error, heq⟩ | ⟨-, -, -, heq⟩ | ⟨ticks, heq⟩ :=
    @futexFrom_cases s.logic.trackRunning id identity arguments <;>
  dsimp only
  · rw [heq]
    exact herror htrack rfl
  · have hnodup : (s.logic.trackRunning.sync.futexWaitQueue.map FutexWaitTag.processId).Nodup :=
      h.queue.nodup
    rw [heq]
    exact h.afterWake (htrack.trans keepsLife_wakeFutexWaiters) (wakeFutexWaiters_spec hnodup).2
  · rw [heq, beginFutexWait]
    exact h.afterBegin _ hlive (htrack.trans keepsLife_blockForFutex) blockForFutex_futexWaitQueue

theorem step (event : FutexEvent) : FutexInvariant (s.step identity event) := by
  cases event with
  | call arguments physicalAddress =>
    rw [FutexState.step]
    split_ifs
    · exact h.call arguments physicalAddress
    · exact h
  | resume =>
    rw [FutexState.step]
    split
    · exact h
    next id wait hwait =>
      obtain ⟨running, -, hmap⟩ := Option.bind_eq_some_iff.mp hwait
      obtain ⟨inside, hinside, heq⟩ := Option.map_eq_some_iff.mp hmap
      obtain ⟨rfl, rfl⟩ := Prod.mk.inj heq
      exact h.resume hinside
  | other c => exact h.afterOther (ProcessCall.run_futexWaitQueue s.logic c)

/-- The uninterrupted processes that wait on a word are those of the entries with the key, in the
order of the queue. -/
theorem waitingOn_eq {key : ℕ} {word : FutexWord}
    (hdistinct : ∀ waiter ∈ s.waiters,
      ⟨waiter.1, key⟩ ∈ s.logic.sync.futexWaitQueue ↔ waiter.2 = word) :
    s.waitingOn word = ((s.logic.sync.futexWaitQueue.filter fun tag =>
      tag.userAddress = key).filter fun tag => tag.processId ∈ s.ids ∧
        (s.logic.processes tag.processId).interruptedBySignal = false).map
          FutexWaitTag.processId := by
  have hkeys : s.waiters.filter (fun waiter => waiter.2 = word ∧
      (s.logic.processes waiter.1).interruptedBySignal = false) =
      s.waiters.filter fun waiter => ⟨waiter.1, key⟩ ∈ s.logic.sync.futexWaitQueue ∧
        (s.logic.processes waiter.1).interruptedBySignal = false :=
    List.filter_congr fun waiter hwaiter => decide_eq_decide.mpr
      (and_congr_left' (hdistinct waiter hwaiter).symm)
  rw [waitingOn, hkeys, ids_filter s.waiters fun p => ⟨p, key⟩ ∈ s.logic.sync.futexWaitQueue ∧
    (s.logic.processes p).interruptedBySignal = false, ← ids]
  conv_lhs => rw [← h.queue.order]
  rw [List.filter_filter, List.filter_filter, List.filter_map]
  refine congrArg (List.map FutexWaitTag.processId) (List.filter_congr fun tag htag => ?_)
  have htagKey : (⟨tag.processId, key⟩ : FutexWaitTag) ∈ s.logic.sync.futexWaitQueue ↔
      tag.userAddress = key := by
    constructor
    · intro hmem
      exact congrArg FutexWaitTag.userAddress (List.inj_on_of_nodup_map h.queue.nodup htag hmem rfl)
    · rintro rfl
      exact htag
  rw [Bool.eq_iff_iff]
  simp only [comp_apply, Bool.and_eq_true, decide_eq_true_iff, htagKey]
  exact ⟨fun ⟨⟨hkey, hnot⟩, hmem⟩ => ⟨⟨hmem, hnot⟩, hkey⟩,
    fun ⟨⟨hmem, hnot⟩, hkey⟩ => ⟨⟨hkey, hnot⟩, hmem⟩⟩

end

end FutexInvariant

/-- The first entries of a filtered list, when the first entries all pass the filter. -/
theorem take_filter_of_forall {α : Type*} {P : α → Prop} [DecidablePred P] {l : List α} {n : ℕ}
    (h : ∀ x ∈ l.take n, P x) : (l.filter fun x => P x).take n = l.take n := by
  induction l generalizing n with
  | nil => rfl
  | cons x l ih =>
    rcases n with _ | n
    · rfl
    · rw [List.take_succ_cons] at h ⊢
      rw [List.filter_cons_of_pos (by simpa using h x (List.mem_cons_self ..)),
        List.take_succ_cons, ih fun y hy => h y (List.mem_cons_of_mem x hy)]

theorem wakeCount_eq {arguments : FutexArguments} (hlt : arguments.value < 2 ^ 32) :
    arguments.wakeCount = arguments.value.toNat := by
  rw [FutexArguments.wakeCount]
  split_ifs with hpos
  · omega
  · rw [Int.emod_eq_of_lt (by omega) hlt]

/-- A safe wake wakes the processes it should. -/
theorem FutexInvariant.wakeExact (h : FutexInvariant s) {id : ℕ} {arguments : FutexArguments}
    {word : FutexWord} (hwake : s.IsWake id arguments)
    (hsafe : s.WakeSafe (futexKey identity (s.logic.processes id).addressSpace arguments) word
      arguments.value) :
    s.WakeExact word arguments.value (s.logic.handleFutexSystemCall identity arguments) := by
  obtain ⟨hrunning, hlevel, haddress, herror, hcommand⟩ := hwake
  have hrecord (p : ℕ) : s.logic.trackRunning.processes p = s.logic.processes p :=
    congrFun ProcessManager.getRunningProcess_processes p
  have hnodup : (s.logic.trackRunning.sync.futexWaitQueue.map FutexWaitTag.processId).Nodup :=
    h.queue.nodup
  set key := futexKey identity (s.logic.processes id).addressSpace arguments
  have heq : s.logic.handleFutexSystemCall identity arguments =
      .returns (wakeFutexWaiters key arguments.wakeCount s.logic.trackRunning).1.length
        (wakeFutexWaiters key arguments.wakeCount s.logic.trackRunning).2
        (wakeFutexWaiters key arguments.wakeCount s.logic.trackRunning).1 := by
    rw [handleFutexSystemCall, if_neg haddress, hrunning]
    dsimp only
    rw [futexFrom, hrecord, if_neg (not_not.mpr hlevel), herror, if_pos hcommand]
  have hwoken : (wakeFutexWaiters key arguments.wakeCount s.logic.trackRunning).1 =
      (s.waitingOn word).take arguments.value.toNat := by
    rw [(wakeFutexWaiters_spec hnodup).1, wakeCount_eq hsafe.lt, h.waitingOn_eq hsafe.distinct,
      ← List.map_take, take_filter_of_forall hsafe.fresh]
    rfl
  rw [heq, WakeExact]
  refine ⟨?_, hwoken, fun p hp => ?_, fun p hp => ?_⟩
  · rw [hwoken, List.length_take]
  · refine wakeFutexWaiters_status_ne_blocked ?_ hp
    rw [hwoken, waitingOn] at hp
    obtain ⟨waiter, hwaiter, rfl⟩ := List.mem_map.mp (List.mem_of_mem_take hp)
    have hmem : waiter.1 ∈ s.ids := List.mem_map_of_mem (List.mem_of_mem_filter hwaiter)
    exact (h.live waiter.1 (h.queue.isSome_of_mem waiter.1 hmem)).1
  · exact (wakeFutexWaiters_processes_of_notMem hp).trans (hrecord p)

theorem futexInvariant_init (memory : ℕ → ByteMemory) :
    FutexInvariant { logic := { memory := memory } } where
  queue := ⟨List.nodup_nil, rfl, fun tag htag => absurd htag List.not_mem_nil,
    fun p hp => absurd hp List.not_mem_nil, fun tag htag => absurd htag List.not_mem_nil,
    fun p hp => absurd hp (by simp)⟩
  live p hp := absurd hp (by simp)

namespace Reachable

theorem futexInvariant (h : Reachable identity s) : FutexInvariant s := by
  induction h with
  | init memory => exact futexInvariant_init memory
  | step _ event ih => exact ih.step event

/-- In every state that a run reaches, safe wakes are exact, a wait returns `0` only when a wake has
counted it, and a process that returns has left the queue. -/
theorem futexExact (h : Reachable identity s) : s.FutexExact identity where
  waiting waiter hwaiter := by
    have hmem : waiter.1 ∈ s.ids := List.mem_map_of_mem hwaiter
    have hwait := h.futexInvariant.queue.isSome_of_mem waiter.1 hmem
    exact ⟨h.futexInvariant.live waiter.1 hwait, hwait⟩
  wake id arguments physicalAddress hwake hsafe := h.futexInvariant.wakeExact hwake hsafe
  counted_of_zero id wait logic woken hwait hreturns := by
    obtain ⟨result, logic', heq, -, hcounted, -⟩ | ⟨wait', logic', heq, -⟩ :=
      h.futexInvariant.resumeFutexWait_spec hwait
    · rw [heq] at hreturns
      cases hreturns
      exact hcounted rfl
    · rw [heq] at hreturns
      cases hreturns
  gone id wait result logic woken hwait hreturns := by
    obtain ⟨result', logic', heq, -, -, hqueue⟩ | ⟨wait', logic', heq, -⟩ :=
      h.futexInvariant.resumeFutexWait_spec hwait
    · rw [heq] at hreturns
      cases hreturns
      intro tag htag
      rw [hqueue] at htag
      simpa using (List.mem_filter.mp htag).2
    · rw [heq] at hreturns
      cases hreturns

end Reachable

/-- The state after a list of steps from the start of the kernel. -/
def runAll (identity : ℕ → ℕ) (events : List FutexEvent) : FutexState :=
  events.foldl (step identity) {}

theorem reachable_runAll (events : List FutexEvent) : Reachable identity (runAll identity events) := by
  suffices h : ∀ s, Reachable identity s → Reachable identity (events.foldl (step identity) s) from
    h _ (.init fun _ _ => 0)
  induction events with
  | nil => exact fun _ h => h
  | cons event events ih => exact fun s h => ih _ (h.step event)

/-- Three processes start, and the second one waits on a shared futex. -/
def oneWaiter : List FutexEvent :=
  [.other (.createUserProcess {}), .other (.createUserProcess {}), .other (.createUserProcess {}),
    .other .schedule, .other .schedule,
    .call ⟨0x1000, futexWait, 5, none, some 5⟩ 0x7000]

/-- A wake of one process that waits on the word. -/
def oneWake : FutexArguments := ⟨0x1000, futexWake, 1, none, none⟩

/-- A killed process that had waited is still counted. -/
theorem not_wakeExact_of_reachable :
    ¬ ∀ s, Reachable (fun space => 0x100000 + 64 * space) s → ∀ id arguments physicalAddress,
      s.IsWake id arguments →
        s.WakeExact (futexWord (s.logic.processes id).addressSpace arguments physicalAddress)
          arguments.value
          (s.logic.handleFutexSystemCall (fun space => 0x100000 + 64 * space) arguments) := by
  intro h
  have hexact := h _ (reachable_runAll
    (oneWaiter ++ [.other (.signalProcess (fun _ _ _ => true) 1 sigkill)])) 2 oneWake 0x7000
    (by decide +kernel)
  have hwoken := hexact.woken_eq
  revert hwoken
  decide +kernel

/-- A run in which a process waits. -/
theorem Reachable.futexExact_oneWaiter :
    (runAll (fun space => 0x100000 + 64 * space) oneWaiter).FutexExact
      fun space => 0x100000 + 64 * space :=
  Reachable.futexExact (reachable_runAll oneWaiter)

end FutexState

end TwistedOS
