import TwistedOS.Epoll.EpollCalls

/-!
# Ready events

`epoll_wait` goes through the watches in order and stops when the array is full. When all watched
descriptors are open, the watches stay as they are, and the events are those of the first ready
watches at the last of the evaluations.

## Main definitions

* `readyEvents`: the events of the ready watches.

## Main results

* `evaluateReadyEvents_of_ok`, `waitForEvents_of_ok`.
-/

namespace TwistedOS

/-- The event with which a watch is reported, if it is ready: the bits asked for among those found,
and the bits for errors. -/
def readyEvent (observation : Observation) (table : FileTable) (watch : EpollWatchTag) :
    Option EpollEvent :=
  match table watch.fileDescriptor with
  | none => none
  | some file =>
    match (observation.nodes file.node).revents file watch.events with
    | .error _ => none
    | .ok revents =>
      if revents &&& (watch.events ||| epollErr ||| epollHup) = 0 then none
      else some ⟨revents &&& (watch.events ||| epollErr ||| epollHup), watch.userData⟩

/-- The events of the ready watches, in the order in which the watches were added. -/
def readyEvents (observation : Observation) (table : FileTable) (watches : List EpollWatchTag) :
    List EpollEvent :=
  watches.filterMap (readyEvent observation table)

variable {observation : Observation} {table : FileTable} {watches : List EpollWatchTag}
  {watch : EpollWatchTag} {maxEvents : ℕ}

/-- The watches are for open descriptors. -/
def AllOpen (table : FileTable) (watches : List EpollWatchTag) : Prop :=
  ∀ watch ∈ watches, watch.fileDescriptor < maxOpenFilesPerProcess ∧
    table watch.fileDescriptor ≠ none

theorem AllOpen.tail (h : AllOpen table (watch :: watches)) : AllOpen table watches :=
  fun other hother => h other (List.mem_cons_of_mem _ hother)

/-- The two tests of an evaluation ask for the bits that are reported. -/
theorem and_ne_zero_or {revents events : UInt32} :
    (revents &&& events ≠ 0 ∨ revents &&& (epollErr ||| epollHup) ≠ 0) ↔
      revents &&& (events ||| epollErr ||| epollHup) ≠ 0 := by
  have hdistrib : revents &&& (events ||| epollErr ||| epollHup) =
      revents &&& events ||| revents &&& (epollErr ||| epollHup) := by
    rw [UInt32.or_assoc, ← UInt32.toBitVec_inj]
    exact BitVec.and_or_distrib_left
  rw [hdistrib, Ne, Ne, Ne, UInt32.or_eq_zero_iff, not_and_or]

/-- An evaluation keeps the watches of open descriptors, and finds the first ready ones. -/
theorem evaluateReadyEvents_of_ok (h : AllOpen table watches) (readyCount : ℕ) :
    (evaluateReadyEvents observation table maxEvents readyCount watches).1 = watches ∧
      ∀ found, (evaluateReadyEvents observation table maxEvents readyCount watches).2 = .ok found →
        found = (readyEvents observation table watches).take (maxEvents - readyCount) := by
  induction watches generalizing readyCount with
  | nil =>
    refine ⟨rfl, fun found hfound => ?_⟩
    rw [← Except.ok.inj hfound, readyEvents, List.filterMap_nil, List.take_nil]
  | cons watch watches ih =>
    obtain ⟨hlt, hopen⟩ := h watch (List.mem_cons_self ..)
    obtain ⟨file, hfile⟩ := Option.ne_none_iff_exists'.mp hopen
    rw [evaluateReadyEvents]
    by_cases hfull : maxEvents ≤ readyCount
    · rw [if_pos hfull, Nat.sub_eq_zero_of_le hfull, List.take_zero]
      exact ⟨rfl, fun found hfound => (Except.ok.inj hfound).symm⟩
    rw [if_neg hfull, if_neg (Nat.not_le_of_lt hlt), hfile]
    dsimp only
    rcases hrevents : (observation.nodes file.node).revents file watch.events with error | revents
    · exact ⟨rfl, fun found hfound => by simp at hfound⟩
    dsimp only
    by_cases hready : revents &&& watch.events ≠ 0 ∨ revents &&& (epollErr ||| epollHup) ≠ 0
    · have hevent : readyEvent observation table watch =
          some ⟨revents &&& (watch.events ||| epollErr ||| epollHup), watch.userData⟩ := by
        simp only [readyEvent, hfile, hrevents, if_neg (and_ne_zero_or.mp hready)]
      rw [if_pos hready]
      split
      · exact ⟨rfl, fun found hfound => by simp at hfound⟩
      obtain ⟨hkept, hfound⟩ := ih h.tail (readyCount + 1)
      refine ⟨congrArg (watch :: ·) hkept, fun found hresult => ?_⟩
      rw [readyEvents, List.filterMap_cons_some hevent,
        show maxEvents - readyCount = maxEvents - (readyCount + 1) + 1 by omega,
        List.take_succ_cons]
      rcases hrest : (evaluateReadyEvents observation table maxEvents (readyCount + 1)
        watches).2 with error | events
      · simp [keepWatch, reportEvent, hrest, Except.map] at hresult
      · rw [← readyEvents, ← hfound events hrest]
        simpa [keepWatch, reportEvent, hrest, Except.map, eq_comm] using hresult
    · have hevent : readyEvent observation table watch = none := by
        rw [and_ne_zero_or, not_not] at hready
        simp only [readyEvent, hfile, hrevents, hready, if_true]
      obtain ⟨hkept, hfound⟩ := ih h.tail readyCount
      rw [if_neg hready, readyEvents, List.filterMap_cons_none hevent]
      exact ⟨congrArg (watch :: ·) hkept, hfound⟩

/-- A wait keeps the watches of open descriptors. Its events are those of the first watches that
were ready at an evaluation: at a wake-up, or before the wait. -/
theorem waitForEvents_of_ok (h : AllOpen table watches) {before : Observation}
    (hbefore : [] = (readyEvents before table watches).take maxEvents) (timeout remaining : ℤ)
    (wakeups : List Wakeup) :
    (waitForEvents table maxEvents timeout remaining wakeups watches).1 = watches ∧
      ∀ found, (waitForEvents table maxEvents timeout remaining wakeups watches).2 =
        some (.ok found) → ∃ observation ∈ before :: wakeups.map Wakeup.observation,
          found = (readyEvents observation table watches).take maxEvents := by
  induction wakeups generalizing before remaining with
  | nil =>
    unfold waitForEvents
    split
    · exact ⟨rfl, fun found hfound =>
        ⟨before, List.mem_cons_self ..,
          (Except.ok.inj (Option.some.inj hfound)).symm.trans hbefore⟩⟩
    · exact ⟨rfl, fun found hfound => by simp at hfound⟩
  | cons wakeup wakeups ih =>
    obtain ⟨hkept, hresult⟩ :=
      @evaluateReadyEvents_of_ok wakeup.observation table watches maxEvents h 0
    unfold waitForEvents
    split
    · exact ⟨rfl, fun found hfound =>
        ⟨before, List.mem_cons_self ..,
          (Except.ok.inj (Option.some.inj hfound)).symm.trans hbefore⟩⟩
    dsimp only
    split
    · exact ⟨rfl, fun found hfound => by simp at hfound⟩
    split
    · rename_i kept heval
      rw [heval] at hkept hresult
      obtain rfl : kept = watches := hkept
      obtain ⟨hwatches, hfound⟩ := ih (hresult [] rfl) (remaining - 10)
      refine ⟨hwatches, fun found heq => ?_⟩
      obtain ⟨observation, hobservation, hready⟩ := hfound found heq
      exact ⟨observation, List.mem_cons_of_mem _ hobservation, hready⟩
    · rename_i kept result hnonempty heval
      rw [heval] at hkept hresult
      exact ⟨hkept, fun found heq => ⟨wakeup.observation,
        List.mem_cons_of_mem _ (List.mem_cons_self ..), hresult found (Option.some.inj heq)⟩⟩

end TwistedOS
