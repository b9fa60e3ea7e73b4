import TwistedOS.Epoll.EpollInvariant

/-!
# Runs of the epoll calls

Event queues follow the descriptors as long as a descriptor with a queue or a watch is only given up
by `close` and `dup2`, and no process with a queue forks: `execve` and the end of a process delete
descriptors and leave their queues and watches, and the descriptor of a forked child keeps the node
of the queue of its parent.

## Main definitions

* `EpollState.InterestExact`, `EpollState.Safe`, `EpollState.SafelyReachable`.

## Main results

* `EpollState.SafelyReachable.interestExact`.
-/

namespace TwistedOS

open Function

/-- What a queue has in common with its copies. -/
def EventQueueKernelObject.content (queue : EventQueueKernelObject) :
    ℕ × UInt64 × List EpollWatchTag :=
  (queue.fileDescriptor, queue.flags, queue.watches)

namespace EpollState

variable {s s' : EpollState} {p fd : ℕ} {table : FileTable} {queue : EventQueueKernelObject}

/-- The event queues are as they should be: they follow the descriptors, a forked child has the
watches of its parent, and `epoll_wait` returns the events of the first ready watches. -/
structure InterestExact (s : EpollState) : Prop where
  consistent : s.Consistent
  fork : ∀ p child outcome s', s.copyProcess p child outcome = (true, s') →
    (s'.queuesOf child).map EventQueueKernelObject.content =
      (s.queuesOf p).map EventQueueKernelObject.content
  wait : ∀ queue ∈ s.eventQueueStore, ∀ table, s.fileTables queue.processId = some table →
    ∀ events maxEvents timeoutMilliseconds first wakeups found,
      (s.handleEpollWait queue.processId queue.fileDescriptor events maxEvents timeoutMilliseconds
        first wakeups).1 = some (.ok found) →
      ∃ observation ∈ first :: wakeups.map Wakeup.observation,
        found = (readyEvents observation table queue.watches).take maxEvents.toNat

/-- A call gives up a descriptor that has a queue or a watch only by `close` and `dup2`, and it does
not copy queues. -/
def Safe (s : EpollState) : EpollCall → Prop
  | .execve p true => ∀ queue ∈ s.queuesOf p, ∀ fileDescriptor ∈ queue.descriptors,
    ∀ file, s.fileAt p fileDescriptor = some file → file.closeOnExec = false
  | .fork p child (.copied (_ + 1)) => s.fileTables child = none → s.queuesOf p = []
  | .killProcess p => s.queuesOf p = []
  | _ => True

/-- The states that are reached, by any calls, from one without event queues. -/
inductive Reachable : EpollState → Prop
  | start {s : EpollState} (h : s.eventQueueStore = []) : Reachable s
  | step {s : EpollState} (h : Reachable s) (call : EpollCall) : Reachable (s.run call)

/-- The states that are reached by calls that meet the condition. -/
inductive SafelyReachable : EpollState → Prop
  | start {s : EpollState} (h : s.eventQueueStore = []) : SafelyReachable s
  | step {s : EpollState} (h : SafelyReachable s) {call : EpollCall} (hsafe : s.Safe call) :
    SafelyReachable (s.run call)

/-! ### Calls that give up descriptors -/

/-- The descriptors of a queue are not closed by `execve`. -/
theorem Invariant.handleExecve (h : s.Invariant) {succeeds : Bool}
    (hsafe : s.Safe (.execve p succeeds)) : (s.handleExecve p succeeds).Invariant := by
  unfold EpollState.handleExecve
  split
  · exact h
  rename_i table htable
  split
  · rename_i hsucceeds
    subst hsucceeds
    refine ⟨⟨h.keys_nodup, fun queue hqueue => ?_⟩, h.node_lt, h.watch_lt⟩
    refine (h.follows queue hqueue).congr fun fd hfd => ?_
    by_cases hp : queue.processId = p
    · obtain ⟨file, hfile⟩ := (h.follows queue hqueue).isSome hfd
      rw [hp] at hfile ⊢
      have hkept := hsafe queue (mem_queuesOf.mpr ⟨hqueue, hp⟩) fd hfd file hfile
      rw [fileAt_setTable_self, closeOnExec, ← fileAt_of_table htable, hfile]
      simp [hkept]
    · exact fileAt_setTable_of_ne hp
  · exact h

/-- If `execve` keeps the queues consistent, it closes none of their descriptors. -/
theorem safe_handleExecve {succeeds : Bool} (h : (s.handleExecve p succeeds).Consistent) :
    s.Safe (.execve p succeeds) := by
  cases succeeds with
  | false => exact trivial
  | true =>
    rintro queue hqueue fd hfd file hfile
    obtain ⟨hmem, rfl⟩ := mem_queuesOf.mp hqueue
    rcases htable : s.fileTables queue.processId with _ | table
    · rw [fileAt_of_none htable] at hfile
      simp at hfile
    have hrun : s.handleExecve queue.processId true =
        s.setTable queue.processId (some (closeOnExec table)) := by
      rw [EpollState.handleExecve, htable]
      rfl
    rw [hrun] at h
    obtain ⟨file', hfile'⟩ := (h.follows queue hmem).isSome hfd
    rw [fileAt_setTable_self, closeOnExec, ← fileAt_of_table htable, hfile] at hfile'
    obtain ⟨heq, hkept⟩ := Option.filter_eq_some_iff.mp hfile'
    obtain rfl := Option.some.inj heq
    simpa using hkept

/-- A process dies without leaving the queues consistent, unless it has none. -/
theorem safe_killProcess (h : (s.killProcess p).Consistent) : s.Safe (.killProcess p) := by
  refine queuesOf_eq_nil_iff.mpr fun queue hqueue heq => ?_
  subst heq
  exact (h.follows queue hqueue).live (update_self ..)

/-! ### Forks -/

/-- What `duplicateQueues` appends: copies of the queues for which there is memory, with nodes that
are new. -/
theorem duplicateQueues_spec (child memory : ℕ) (queues : List EventQueueKernelObject)
    (s : EpollState) :
    ∃ copies, (duplicateQueues child memory queues s).2.eventQueueStore =
        s.eventQueueStore ++ copies ∧
      (duplicateQueues child memory queues s).2.fileTables = s.fileTables ∧
      copies.map EventQueueKernelObject.content =
        (queues.take memory).map EventQueueKernelObject.content ∧
      (∀ queue ∈ copies, queue.processId = child ∧ s.nextNode ≤ queue.node) ∧
      ((duplicateQueues child memory queues s).1 = true → queues.length ≤ memory) := by
  induction memory generalizing queues s with
  | zero =>
    cases queues with
    | nil => exact ⟨[], by simp [duplicateQueues]⟩
    | cons queue queues => exact ⟨[], by simp [duplicateQueues]⟩
  | succ memory ih =>
    cases queues with
    | nil => exact ⟨[], by simp [duplicateQueues]⟩
    | cons queue queues =>
      obtain ⟨copies, hstore, htables, hcontent, hcopies, hlength⟩ :=
        ih queues (s.pushQueue (queue.copyFor child s.nextNode))
      rw [duplicateQueues]
      refine ⟨queue.copyFor child s.nextNode :: copies, ?_, htables, ?_, fun copy hcopy => ?_,
        fun hok => Nat.succ_le_succ (hlength hok)⟩
      · rw [hstore]
        exact List.append_assoc ..
      · rw [List.take_succ_cons, List.map_cons, List.map_cons, hcontent]
        rfl
      · rcases List.mem_cons.mp hcopy with rfl | hcopy
        · exact ⟨rfl, le_rfl⟩
        · exact ⟨(hcopies copy hcopy).1, (Nat.le_succ _).trans (hcopies copy hcopy).2⟩

/-- A fork that copies all descriptors. -/
theorem copyProcess_copied {child : ℕ} (htable : s.fileTables p = some table)
    (hchild : s.fileTables child = none) (memory : ℕ) :
    s.copyProcess p child (.copied memory) =
      match duplicateQueues child memory (s.queuesOf p) (s.setTable child (some table)) with
      | (true, s') => (true, s')
      | (false, s') => (false, s'.killProcess child) := by
  unfold EpollState.copyProcess
  rw [htable, hchild]
  rfl

theorem Invariant.copyProcess (h : s.Invariant) {child : ℕ} {outcome : ForkOutcome}
    (hsafe : s.Safe (.fork p child outcome)) : (s.copyProcess p child outcome).2.Invariant := by
  rcases htable : s.fileTables p with _ | table
  · simpa [EpollState.copyProcess, htable] using h
  rcases hchild : s.fileTables child with _ | other
  swap
  · simpa [EpollState.copyProcess, htable, hchild] using h
  have hnone := h.queuesOf_of_dead hchild
  rcases outcome with _ | count | memory
  · simpa [EpollState.copyProcess, htable, hchild] using h
  · have hkilled := (h.setTable hnone (some (copyDescriptors table count))).setTable hnone none
    simpa [EpollState.copyProcess, EpollState.killProcess, htable, hchild] using hkilled
  have hcopied := h.setTable hnone (some table)
  rw [copyProcess_copied htable hchild]
  cases memory with
  | zero =>
    cases s.queuesOf p with
    | nil => exact hcopied
    | cons queue queues => exact hcopied.setTable hnone none
  | succ memory =>
    rw [hsafe hchild]
    exact hcopied

/-- If a fork keeps the queues consistent, it has copied none. -/
theorem Invariant.safe_copyProcess (h : s.Invariant) {child : ℕ} {outcome : ForkOutcome}
    (hrun : (s.copyProcess p child outcome).2.Consistent) : s.Safe (.fork p child outcome) := by
  rcases outcome with _ | count | _ | memory
  · exact trivial
  · exact trivial
  · exact trivial
  intro hchild
  rcases htable : s.fileTables p with _ | table
  · exact h.queuesOf_of_dead htable
  rcases hqueues : s.queuesOf p with _ | ⟨queue, queues⟩
  · rfl
  exfalso
  obtain ⟨copies, hstore, htables, hcontent, hcopies, -⟩ :=
    duplicateQueues_spec child (memory + 1) (s.queuesOf p) (s.setTable child (some table))
  -- The first copy has a node of its own, but its descriptor has that of the parent's queue.
  obtain ⟨copy, copies, rfl⟩ : ∃ copy rest, copies = copy :: rest := by
    rw [hqueues, List.take_succ_cons, List.map_cons] at hcontent
    obtain ⟨copy, rest, rfl, -⟩ := List.map_eq_cons_iff.mp hcontent
    exact ⟨copy, rest, rfl⟩
  have hfd : copy.fileDescriptor = queue.fileDescriptor := by
    rw [hqueues, List.take_succ_cons, List.map_cons, List.map_cons, List.cons.injEq] at hcontent
    exact congrArg Prod.fst hcontent.1
  obtain ⟨hcopyChild, hnode⟩ := hcopies copy (List.mem_cons_self ..)
  obtain ⟨hqueue, rfl⟩ := mem_queuesOf.mp (hqueues ▸ List.mem_cons_self .. : queue ∈ s.queuesOf p)
  have hmem : copy ∈ (duplicateQueues child (memory + 1) (s.queuesOf queue.processId)
      (s.setTable child (some table))).2.eventQueueStore := by
    rw [hstore]
    exact List.mem_append_right _ (List.mem_cons_self ..)
  rw [copyProcess_copied htable hchild] at hrun
  rcases hdup : duplicateQueues child (memory + 1) (s.queuesOf queue.processId)
    (s.setTable child (some table)) with ⟨_ | _, s'⟩
  · rw [hdup] at hrun hmem
    refine (hrun.follows copy hmem).live ?_
    rw [hcopyChild]
    exact update_self ..
  · rw [hdup] at hrun hmem htables
    obtain ⟨file, hfile, hfileNode⟩ := (hrun.follows copy hmem).opened
    obtain ⟨file', hfile', hfileNode'⟩ := (h.follows queue hqueue).opened
    rw [hcopyChild, hfd, fileAt_congr (congrFun htables child), fileAt_setTable_self] at hfile
    rw [fileAt_of_table htable] at hfile'
    obtain rfl := Option.some.inj (hfile.symm.trans hfile')
    have := h.node_lt queue hqueue
    change s.nextNode ≤ copy.node at hnode
    omega

/-- A forked child has the watches of its parent. -/
theorem Consistent.content_of_copyProcess (h : s.Consistent) {child : ℕ} {outcome : ForkOutcome}
    (hrun : s.copyProcess p child outcome = (true, s')) :
    (s'.queuesOf child).map EventQueueKernelObject.content =
      (s.queuesOf p).map EventQueueKernelObject.content := by
  rcases htable : s.fileTables p with _ | table
  · simp [EpollState.copyProcess, htable] at hrun
  rcases hchild : s.fileTables child with _ | other
  swap
  · simp [EpollState.copyProcess, htable, hchild] at hrun
  rcases outcome with _ | count | memory
  · simp [EpollState.copyProcess, htable, hchild] at hrun
  · simp [EpollState.copyProcess, htable, hchild] at hrun
  rw [copyProcess_copied htable hchild] at hrun
  obtain ⟨copies, hstore, -, hcontent, hcopies, hlength⟩ :=
    duplicateQueues_spec child memory (s.queuesOf p) (s.setTable child (some table))
  rcases hdup : duplicateQueues child memory (s.queuesOf p) (s.setTable child (some table)) with
    ⟨_ | _, s''⟩
  · simp [hdup] at hrun
  rw [hdup] at hrun hstore hlength
  obtain rfl : s'' = s' := (Prod.mk.inj hrun).2
  have hown : s''.queuesOf child = copies := by
    rw [queuesOf, hstore, List.filter_append]
    have hold : s.queuesOf child = [] := h.queuesOf_of_dead hchild
    rw [show (s.setTable child (some table)).eventQueueStore.filter
      (fun queue => queue.processId = child) = [] from hold, List.nil_append,
      List.filter_eq_self.mpr fun queue hqueue => by simp [(hcopies queue hqueue).1]]
  rw [hown, hcontent, List.take_of_length_le (hlength rfl)]

/-! ### Runs -/

/-- A call that meets the condition keeps the invariant. -/
theorem Invariant.run (h : s.Invariant) {call : EpollCall} (hsafe : s.Safe call) :
    (s.run call).Invariant := by
  cases call with
  | openFile p node accessFlags closeOnExec allocated => exact h.handleOpen ..
  | close p fd => exact h.handleClose ..
  | dup2 p old new outcome => exact h.handleDup2 ..
  | duplicateFromMinimum p fd minimum setCloseOnExec outcome => exact h.duplicateFromMinimum ..
  | epollCreate1 p flags memory => exact h.handleEpollCreate1 ..
  | epollCtl p fd operation targetFd event allocated => exact h.handleEpollCtl ..
  | epollWait p fd events maxEvents timeout first wakeups =>
    rw [EpollState.run, (h.handleEpollWait p fd events maxEvents timeout first wakeups).1]
    exact h
  | createProcess p =>
    rw [EpollState.run, EpollState.createProcess]
    split
    · exact h
    · rename_i hdead
      exact h.setTable (h.queuesOf_of_dead (by simpa using hdead)) _
  | execve p succeeds => exact h.handleExecve hsafe
  | fork p child outcome => exact h.copyProcess hsafe
  | killProcess p => exact h.setTable hsafe none

/-- A call after which the queues are consistent meets the condition. -/
theorem Invariant.safe_of_consistent (h : s.Invariant) {call : EpollCall}
    (hrun : (s.run call).Consistent) : s.Safe call := by
  cases call with
  | execve p succeeds => exact safe_handleExecve hrun
  | fork p child outcome => exact h.safe_copyProcess hrun
  | killProcess p => exact safe_killProcess hrun
  | _ => exact trivial

theorem SafelyReachable.invariant (h : SafelyReachable s) : s.Invariant := by
  induction h with
  | start h => exact ⟨⟨by simp [h], by simp [h]⟩, by simp [h], by simp [h]⟩
  | step h hsafe ih => exact ih.run hsafe

/-- In every state that is reached by calls that meet the condition, the event queues follow the
descriptors, a forked child has the watches of its parent, and `epoll_wait` reports the first ready
watches; and the queues stay consistent in the next call if and only if it meets the condition. -/
theorem SafelyReachable.interestExact (h : SafelyReachable s) :
    s.InterestExact ∧ ∀ call, (s.run call).Consistent ↔ s.Safe call := by
  have hinv := h.invariant
  refine ⟨⟨hinv.toConsistent, fun p child outcome s' => hinv.content_of_copyProcess,
    fun queue hqueue table htable events maxEvents timeout first wakeups found => ?_⟩, fun call =>
    ⟨hinv.safe_of_consistent, fun hsafe => (hinv.run hsafe).toConsistent⟩⟩
  exact (hinv.handleEpollWait queue.processId queue.fileDescriptor events maxEvents timeout first
    wakeups).2 queue hqueue rfl table htable found

theorem SafelyReachable.reachable (h : SafelyReachable s) : s.Reachable := by
  induction h with
  | start h => exact .start h
  | step h _ ih => exact .step ih _

/-- A process without files. -/
def oneProcessState : EpollState :=
  ⟨fun p => if p = 1 then some fun _ => none else none, [], 0, 0⟩

/-- The process after it has opened a file that `execve` closes and made an event queue. -/
def oneQueueState : EpollState :=
  (oneProcessState.run (.openFile 1 7 .read true true)).run
    (.epollCreate1 1 0 fun _ => (true, true))

/-- The process after it has added a watch for the file. -/
def oneWatchState : EpollState := oneQueueState.run (.epollCtl 1 1 1 0 (some ⟨epollIn, 5⟩) true)

private theorem safelyReachable_oneWatchState : oneWatchState.SafelyReachable := by
  have hopen := @SafelyReachable.step oneProcessState (.start rfl) (.openFile 1 7 .read true true)
    trivial
  have hcreate := @SafelyReachable.step _ hopen (.epollCreate1 1 0 fun _ => (true, true)) trivial
  exact @SafelyReachable.step _ hcreate (.epollCtl 1 1 1 0 (some ⟨epollIn, 5⟩) true) trivial

/-- One event queue with one watch. -/
theorem SafelyReachable.interestExact_oneWatch : oneWatchState.InterestExact :=
  (SafelyReachable.interestExact safelyReachable_oneWatchState).1

/-- The queue stays behind when its process dies; the descriptor of a forked child has the node of
its parent's queue; and the watch stays behind when `execve` closes the file. -/
theorem not_interestExact_of_reachable : oneWatchState.Reachable ∧
    ¬ (oneWatchState.run (.killProcess 1)).InterestExact ∧
    ¬ (oneWatchState.run (.fork 1 2 (.copied 1))).InterestExact ∧
    ¬ (oneWatchState.run (.execve 1 true)).InterestExact := by
  have hinv := safelyReachable_oneWatchState.invariant
  have hqueue : (⟨1, 1, 0, [⟨0, epollIn, 5, 0⟩], 0⟩ : EventQueueKernelObject) ∈
      oneWatchState.queuesOf 1 := by decide
  refine ⟨safelyReachable_oneWatchState.reachable, fun h => ?_, fun h => ?_, fun h => ?_⟩
  · exact List.ne_nil_of_mem hqueue
      (@Invariant.safe_of_consistent _ hinv (.killProcess 1) h.consistent)
  · exact List.ne_nil_of_mem hqueue
      (@Invariant.safe_of_consistent _ hinv (.fork 1 2 (.copied 1)) h.consistent rfl)
  · have hkept := @Invariant.safe_of_consistent _ hinv (.execve 1 true) h.consistent _ hqueue 0
      (by decide) ⟨7, .read, true, 0⟩ (by decide)
    simp at hkept

end EpollState

end TwistedOS
