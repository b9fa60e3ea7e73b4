import TwistedOS.Data.KeyedList
import TwistedOS.Epoll.ReadyEvents

/-!
# Event queues follow the descriptors

The invariant of the event queues, and the calls that keep it in any case: those that open, copy and
close descriptors and those that make, change and evaluate an event queue.

## Main definitions

* `EpollState.Follows`, `EpollState.Consistent`: an event queue follows its descriptors.
* `EpollState.Invariant`.

## Main results

* `EpollState.Invariant.close`, `EpollState.Invariant.pushQueue`, `EpollState.Invariant.setWatches`.
* `EpollState.Invariant.handleEpollWait`.
-/

namespace TwistedOS

open Function

namespace EventQueueKernelObject

/-- The descriptors that a queue depends on: its own and the watched ones. -/
def descriptors (queue : EventQueueKernelObject) : List ℕ :=
  queue.fileDescriptor :: queue.watches.map EpollWatchTag.fileDescriptor

end EventQueueKernelObject

namespace EpollState

variable {s s' : EpollState} {p fd : ℕ} {table : FileTable} {queue : EventQueueKernelObject}
  {file : Option OpenDescriptor}

/-- The file at a descriptor of a process. -/
def fileAt (s : EpollState) (p fileDescriptor : ℕ) : Option OpenDescriptor :=
  match s.fileTables p with
  | none => none
  | some table => table fileDescriptor

/-- A queue follows its descriptors: its own is open and has the node of the queue, and at each
watched descriptor there is the file that was open when the watch was added. -/
structure Follows (s : EpollState) (queue : EventQueueKernelObject) : Prop where
  watches_nodup : (queue.watches.map EpollWatchTag.fileDescriptor).Nodup
  opened : ∃ file, s.fileAt queue.processId queue.fileDescriptor = some file ∧
    file.node = queue.node
  watched : ∀ watch ∈ queue.watches, ∃ file,
    s.fileAt queue.processId watch.fileDescriptor = some file ∧
      file.description = watch.description

/-- There is one queue for a descriptor, and all queues follow their descriptors. -/
structure Consistent (s : EpollState) : Prop where
  keys_nodup : (s.eventQueueStore.map EventQueueKernelObject.key).Nodup
  follows : ∀ queue ∈ s.eventQueueStore, s.Follows queue

/-- What holds of the reached states besides: the nodes of the queues are not new, and only
descriptors of the table are watched. -/
structure Invariant (s : EpollState) : Prop extends s.Consistent where
  node_lt : ∀ queue ∈ s.eventQueueStore, queue.node < s.nextNode
  watch_lt : ∀ queue ∈ s.eventQueueStore, ∀ watch ∈ queue.watches,
    watch.fileDescriptor < maxOpenFilesPerProcess

/-! ### Files at descriptors -/

theorem fileAt_of_table (h : s.fileTables p = some table) : s.fileAt p fd = table fd := by
  rw [fileAt, h]

theorem fileAt_of_none (h : s.fileTables p = none) : s.fileAt p fd = none := by
  rw [fileAt, h]

/-- The files depend on the file tables only. -/
theorem fileAt_congr (h : s'.fileTables p = s.fileTables p) : s'.fileAt p fd = s.fileAt p fd := by
  rw [fileAt, fileAt, h]

theorem fileAt_setTable_of_ne {q : ℕ} (h : q ≠ p) {table : Option FileTable} :
    (s.setTable p table).fileAt q fd = s.fileAt q fd :=
  fileAt_congr (update_of_ne h ..)

theorem fileAt_setTable_self : (s.setTable p (some table)).fileAt p fd = table fd :=
  fileAt_of_table (update_self ..)

/-- Replacing the file of a descriptor does not concern the others. -/
theorem fileAt_setDescriptor {q fd' : ℕ} (h : s.fileTables p = some table)
    (hne : ¬ (q = p ∧ fd' = fd)) :
    (s.setDescriptor p table fd file).fileAt q fd' = s.fileAt q fd' := by
  by_cases hq : q = p
  · subst hq
    rw [setDescriptor, fileAt_setTable_self, fileAt_of_table h]
    exact update_of_ne (fun hfd => hne ⟨rfl, hfd⟩) ..
  · exact fileAt_setTable_of_ne hq

theorem fileAt_setDescriptor_self : (s.setDescriptor p table fd file).fileAt p fd = file :=
  fileAt_setTable_self.trans (update_self ..)

/-! ### One queue -/

namespace Follows

section

variable (h : s.Follows queue)

include h

/-- A queue still follows when the files at its descriptors stay. -/
theorem congr
    (heq : ∀ fd ∈ queue.descriptors, s'.fileAt queue.processId fd = s.fileAt queue.processId fd) :
    s'.Follows queue where
  watches_nodup := h.watches_nodup
  opened := by
    rw [heq _ (List.mem_cons_self ..)]
    exact h.opened
  watched watch hwatch := by
    rw [heq _ (List.mem_cons_of_mem _ (List.mem_map_of_mem hwatch))]
    exact h.watched watch hwatch

/-- There is a file at each descriptor of a queue. -/
theorem isSome (hfd : fd ∈ queue.descriptors) :
    ∃ file, s.fileAt queue.processId fd = some file := by
  rcases List.mem_cons.mp hfd with rfl | hfd
  · exact h.opened.imp fun _ hfile => hfile.1
  · obtain ⟨watch, hwatch, rfl⟩ := List.mem_map.mp hfd
    exact (h.watched watch hwatch).imp fun _ hfile => hfile.1

theorem live : s.fileTables queue.processId ≠ none := by
  obtain ⟨file, hfile, -⟩ := h.opened
  intro hnone
  rw [fileAt_of_none hnone] at hfile
  simp at hfile

/-- A queue follows when some of its watches are removed. -/
theorem setWatches {watches : List EpollWatchTag} (hsub : watches.Sublist queue.watches) :
    s.Follows (queue.setWatches watches) where
  watches_nodup := h.watches_nodup.sublist (hsub.map _)
  opened := h.opened
  watched watch hwatch := h.watched watch (hsub.subset hwatch)

/-- A queue follows when a free descriptor is used. -/
theorem setDescriptor (htable : s.fileTables p = some table) (hfree : table fd = none) :
    (s.setDescriptor p table fd file).Follows queue := by
  refine h.congr fun fd' hfd' => fileAt_setDescriptor htable ?_
  rintro ⟨rfl, rfl⟩
  obtain ⟨file, hfile⟩ := h.isSome hfd'
  rw [fileAt_of_table htable, hfree] at hfile
  simp at hfile

end

end Follows

/-! ### Stores of queues -/

theorem mem_queuesOf : queue ∈ s.queuesOf p ↔ queue ∈ s.eventQueueStore ∧ queue.processId = p := by
  rw [queuesOf, List.mem_filter, decide_eq_true_eq]

theorem queuesOf_eq_nil_iff :
    s.queuesOf p = [] ↔ ∀ queue ∈ s.eventQueueStore, queue.processId ≠ p := by
  simp [queuesOf, List.filter_eq_nil_iff]

theorem key_eq_iff : queue.key = (p, fd) ↔ queue.processId = p ∧ queue.fileDescriptor = fd :=
  Prod.mk_inj

theorem findEventQueue_spec (h : s.findEventQueue p fd = some queue) :
    queue ∈ s.eventQueueStore ∧ queue.key = (p, fd) := by
  refine ⟨List.mem_of_find?_eq_some h, key_eq_iff.mpr ?_⟩
  simpa using List.find?_some h

theorem key_ne_of_hasEventQueue (h : s.hasEventQueue p fd = false)
    (hqueue : queue ∈ s.eventQueueStore) : queue.key ≠ (p, fd) := by
  rw [hasEventQueue, Option.isSome_eq_false_iff, Option.isNone_iff_eq_none, findEventQueue,
    List.find?_eq_none] at h
  intro hkey
  exact h queue hqueue (by simpa using key_eq_iff.mp hkey)

namespace Consistent

/-- Queues with the same key are the same. -/
theorem eq_of_key (h : s.Consistent) {other : EventQueueKernelObject}
    (hqueue : queue ∈ s.eventQueueStore) (hother : other ∈ s.eventQueueStore)
    (hkey : queue.key = other.key) : queue = other :=
  List.inj_on_of_nodup_map h.keys_nodup hqueue hother hkey

/-- A process that does not live has no queues. -/
theorem queuesOf_of_dead (h : s.Consistent) (hdead : s.fileTables p = none) :
    s.queuesOf p = [] := by
  rw [queuesOf_eq_nil_iff]
  rintro queue hqueue rfl
  exact (h.follows queue hqueue).live hdead

/-- Writing the watches of a queue back. -/
theorem setWatches_self (h : s.Consistent) (hqueue : queue ∈ s.eventQueueStore) :
    s.setWatches queue.processId queue.fileDescriptor queue.watches = s := by
  have hstore : s.eventQueueStore.replaceF (fun other =>
      if other.processId = queue.processId ∧ other.fileDescriptor = queue.fileDescriptor then
        some (other.setWatches queue.watches) else none) = s.eventQueueStore := by
    refine KeyedList.replaceF_eq_self fun other hother b hb => ?_
    split_ifs at hb with hkey
    obtain rfl := h.eq_of_key hother hqueue (key_eq_iff.mpr hkey)
    exact (Option.some.inj hb).symm
  rw [setWatches, hstore, setStore]

end Consistent

/-! ### The steps -/

namespace Invariant

section

variable (h : s.Invariant)

include h

theorem setDescriptor (htable : s.fileTables p = some table) (hfree : table fd = none) :
    (s.setDescriptor p table fd file).Invariant where
  keys_nodup := h.keys_nodup
  follows queue hqueue := (h.follows queue hqueue).setDescriptor htable hfree
  node_lt := h.node_lt
  watch_lt := h.watch_lt

theorem takeDescription : s.takeDescription.Invariant where
  keys_nodup := h.keys_nodup
  follows queue hqueue := (h.follows queue hqueue).congr fun _ _ => rfl
  node_lt := h.node_lt
  watch_lt := h.watch_lt

/-- The file table of a process without queues is replaced. -/
theorem setTable (hqueues : s.queuesOf p = []) (table : Option FileTable) :
    (s.setTable p table).Invariant where
  keys_nodup := h.keys_nodup
  follows queue hqueue := (h.follows queue hqueue).congr fun _ _ =>
    fileAt_setTable_of_ne (queuesOf_eq_nil_iff.mp hqueues queue hqueue)
  node_lt := h.node_lt
  watch_lt := h.watch_lt

theorem copyDescriptor (htable : s.fileTables p = some table) (hfree : table fd = none)
    (source : OpenDescriptor) (closeOnExec : Bool) (outcome : CopyOutcome) :
    (s.copyDescriptor p table source fd closeOnExec outcome).2.Invariant := by
  cases outcome with
  | noMemory => exact h
  | pipeError code => exact h.setDescriptor htable hfree
  | copied => exact h.setDescriptor htable hfree

theorem handleOpen (p node : ℕ) (accessFlags : FileFlags) (closeOnExec allocated : Bool) :
    (s.handleOpen p node accessFlags closeOnExec allocated).2.Invariant := by
  unfold EpollState.handleOpen
  split
  · exact h
  · rename_i table htable
    split
    · exact h
    · rename_i fd hfind
      have hfree : table fd = none := by simpa using List.find?_some hfind
      split_ifs
      · exact h
      · exact (h.setDescriptor htable hfree).takeDescription

/-- The queue of a descriptor and the watches on it are removed when it is closed. -/
theorem close (htable : s.fileTables p = some table) :
    (((s.removeEventQueue p fd).removeWatchesForFile p fd).setDescriptor p table fd
      none).Invariant := by
  have hstore : ∀ queue' ∈ ((s.removeEventQueue p fd).removeWatchesForFile p fd).eventQueueStore,
      ∃ queue ∈ s.eventQueueStore, queue.key ≠ (p, fd) ∧
        queue' = if queue.processId = p then queue.removeWatches fd else queue := by
    intro queue' hqueue'
    obtain ⟨queue, hqueue, rfl⟩ := List.mem_map.mp hqueue'
    have herase := (KeyedList.mem_eraseP (k := (p, fd)) h.keys_nodup).mp
      (by simpa only [key_eq_iff, removeEventQueue, setStore] using hqueue)
    exact ⟨queue, herase.1, herase.2, rfl⟩
  refine ⟨⟨?_, fun queue' hqueue' => ?_⟩, fun queue' hqueue' => ?_, fun queue' hqueue' => ?_⟩
  · have hkeys : (((s.removeEventQueue p fd).removeWatchesForFile p fd).eventQueueStore.map
        EventQueueKernelObject.key) =
        (s.removeEventQueue p fd).eventQueueStore.map EventQueueKernelObject.key := by
      rw [removeWatchesForFile, setStore, List.map_map]
      refine List.map_congr_left fun queue _ => ?_
      rw [comp_apply]
      split_ifs <;> rfl
    change (((s.removeEventQueue p fd).removeWatchesForFile p fd).eventQueueStore.map
      EventQueueKernelObject.key).Nodup
    rw [hkeys]
    exact h.keys_nodup.sublist (List.eraseP_sublist.map _)
  · obtain ⟨queue, hqueue, hkey, rfl⟩ := hstore queue' hqueue'
    have hfollows := h.follows queue hqueue
    split_ifs with hp
    · subst hp
      refine (hfollows.setWatches List.filter_sublist).congr fun fd' hfd' => ?_
      refine fileAt_setDescriptor htable ?_
      rintro ⟨-, rfl⟩
      rcases List.mem_cons.mp hfd' with heq | hmem
      · exact hkey (key_eq_iff.mpr ⟨rfl, heq.symm⟩)
      · obtain ⟨watch, hwatch, heq⟩ := List.mem_map.mp hmem
        exact (by simpa using List.of_mem_filter hwatch : watch.fileDescriptor ≠ fd') heq
    · exact hfollows.congr fun fd' _ => fileAt_setDescriptor htable fun hne => hp hne.1
  · obtain ⟨queue, hqueue, -, rfl⟩ := hstore queue' hqueue'
    split_ifs <;> exact h.node_lt queue hqueue
  · obtain ⟨queue, hqueue, -, rfl⟩ := hstore queue' hqueue'
    split_ifs
    · exact fun watch hwatch => h.watch_lt queue hqueue watch (List.mem_of_mem_filter hwatch)
    · exact h.watch_lt queue hqueue

theorem handleClose (p fd : ℕ) : (s.handleClose p fd).2.Invariant := by
  unfold EpollState.handleClose
  split
  · exact h
  · split_ifs
    · exact h
    · split
      · exact h
      · exact h.close ‹_›

theorem handleDup2 (p oldFileDescriptor newFileDescriptor : ℕ) (outcome : CopyOutcome) :
    (s.handleDup2 p oldFileDescriptor newFileDescriptor outcome).2.Invariant := by
  unfold EpollState.handleDup2
  split
  · exact h
  rename_i table htable
  split
  · exact h
  rename_i hrange
  split
  · exact h
  rename_i source hsource
  split
  · exact h
  split
  · rename_i hopen
    obtain ⟨target, htarget⟩ := Option.isSome_iff_exists.mp hopen
    have hclosed : (s.handleClose p newFileDescriptor).2 =
        ((s.removeEventQueue p newFileDescriptor).removeWatchesForFile p
          newFileDescriptor).setDescriptor p table newFileDescriptor none := by
      unfold EpollState.handleClose
      rw [htable]
      simp only [htarget, if_neg (show ¬ maxOpenFilesPerProcess ≤ newFileDescriptor from
        fun hle => hrange (.inr hle))]
    rw [hclosed]
    exact (h.close htable).copyDescriptor (update_self ..) (update_self ..) ..
  · rename_i hfree
    exact h.copyDescriptor htable (by simpa using hfree) ..

theorem duplicateFromMinimum (p fd minimum : ℕ) (setCloseOnExec : Bool) (outcome : CopyOutcome) :
    (s.duplicateFromMinimum p fd minimum setCloseOnExec outcome).2.Invariant := by
  unfold EpollState.duplicateFromMinimum
  split
  · exact h
  rename_i table htable
  split
  · exact h
  split
  · exact h
  split
  · exact h
  split
  · exact h
  rename_i candidate hfind
  have hfree : table candidate = none := by simpa using List.find?_some hfind
  exact h.copyDescriptor htable hfree ..

/-- A queue is made for a free descriptor. -/
theorem pushQueue (htable : s.fileTables p = some table) (hfree : table fd = none)
    (hnone : s.hasEventQueue p fd = false) (flags : UInt64) {file : OpenDescriptor}
    (hfile : file.node = s.nextNode) :
    ((s.pushQueue ⟨p, fd, flags, [], s.nextNode⟩).setDescriptor p table fd
      (some file)).Invariant := by
  have hold : ∀ queue ∈ s.eventQueueStore,
      ((s.pushQueue ⟨p, fd, flags, [], s.nextNode⟩).setDescriptor p table fd
        (some file)).Follows queue := fun queue hqueue =>
    ((h.follows queue hqueue).setDescriptor htable hfree).congr fun _ _ => rfl
  have hmem : ∀ queue ∈ s.eventQueueStore ++ [⟨p, fd, flags, [], s.nextNode⟩],
      queue ∈ s.eventQueueStore ∨ queue = ⟨p, fd, flags, [], s.nextNode⟩ := fun queue hqueue =>
    (List.mem_append.mp hqueue).imp_right List.mem_singleton.mp
  refine ⟨⟨?_, fun queue hqueue => ?_⟩, fun queue hqueue => ?_, fun queue hqueue => ?_⟩
  · change ((s.eventQueueStore ++ [_]).map EventQueueKernelObject.key).Nodup
    rw [List.map_append, List.nodup_append]
    refine ⟨h.keys_nodup, List.nodup_singleton _, fun k hk k' hk' => ?_⟩
    obtain ⟨queue, hqueue, rfl⟩ := List.mem_map.mp hk
    obtain rfl := List.mem_singleton.mp hk'
    exact key_ne_of_hasEventQueue hnone hqueue
  · rcases hmem queue hqueue with hqueue | rfl
    · exact hold queue hqueue
    · exact ⟨List.nodup_nil, ⟨file, fileAt_setDescriptor_self, hfile⟩, fun watch hwatch =>
        absurd hwatch List.not_mem_nil⟩
  · rcases hmem queue hqueue with hqueue | rfl
    · exact (h.node_lt queue hqueue).trans (Nat.lt_succ_self _)
    · exact Nat.lt_succ_self _
  · rcases hmem queue hqueue with hqueue | rfl
    · exact h.watch_lt queue hqueue
    · exact fun watch hwatch => absurd hwatch List.not_mem_nil

theorem createAt (htable : s.fileTables p = some table) (flags : UInt64) (memory : ℕ → Bool × Bool)
    (descriptors : List ℕ) : (s.createAt p table flags memory descriptors).2.Invariant := by
  induction descriptors with
  | nil => exact h
  | cons fd rest ih =>
    rw [EpollState.createAt]
    split
    · exact ih
    rename_i hfree
    rw [not_or, Bool.not_eq_true, Bool.not_eq_true, Option.isSome_eq_false_iff,
      Option.isNone_iff_eq_none] at hfree
    split
    · exact h
    rw [createEventQueue, hfree.2]
    cases (memory fd).2
    · exact ih
    · exact (h.pushQueue htable hfree.1 hfree.2 flags rfl).takeDescription

theorem handleEpollCreate1 (p : ℕ) (flags : UInt64) (memory : ℕ → Bool × Bool) :
    (s.handleEpollCreate1 p flags memory).2.Invariant := by
  unfold EpollState.handleEpollCreate1
  split
  · exact h
  split
  · exact h
  · exact h.createAt ‹_› flags memory _

/-- The watches of a queue are replaced by watches of open files. -/
theorem setWatches {watches : List EpollWatchTag}
    (hnodup : (watches.map EpollWatchTag.fileDescriptor).Nodup)
    (hwatched : ∀ watch ∈ watches, watch.fileDescriptor < maxOpenFilesPerProcess ∧
      ∃ file, s.fileAt p watch.fileDescriptor = some file ∧ file.description = watch.description) :
    (s.setWatches p fd watches).Invariant := by
  have hmem : ∀ queue ∈ (s.setWatches p fd watches).eventQueueStore, queue ∈ s.eventQueueStore ∨
      ∃ old ∈ s.eventQueueStore, old.processId = p ∧ queue = old.setWatches watches := by
    intro queue hqueue
    refine (KeyedList.mem_of_mem_replaceF hqueue).imp_right ?_
    rintro ⟨old, hold, heq⟩
    split_ifs at heq with hkey
    exact ⟨old, hold, hkey.1, (Option.some.inj heq).symm⟩
  refine ⟨⟨?_, fun queue hqueue => ?_⟩, fun queue hqueue => ?_, fun queue hqueue => ?_⟩
  · have hkeys : (s.setWatches p fd watches).eventQueueStore.map EventQueueKernelObject.key =
        s.eventQueueStore.map EventQueueKernelObject.key := by
      refine KeyedList.map_replaceF fun a b hb => ?_
      split_ifs at hb
      exact Option.some.inj hb ▸ rfl
    rw [hkeys]
    exact h.keys_nodup
  · rcases hmem queue hqueue with hqueue | ⟨old, hold, rfl, rfl⟩
    · exact (h.follows queue hqueue).congr fun _ _ => rfl
    · exact ⟨hnodup, (h.follows old hold).opened, fun watch hwatch => (hwatched watch hwatch).2⟩
  · rcases hmem queue hqueue with hqueue | ⟨old, hold, rfl, rfl⟩
    · exact h.node_lt queue hqueue
    · exact h.node_lt old hold
  · rcases hmem queue hqueue with hqueue | ⟨old, hold, rfl, rfl⟩
    · exact h.watch_lt queue hqueue
    · exact fun watch hwatch => (hwatched watch hwatch).1

/-- A watch is added for an open file, or one is removed or modified. -/
theorem controlEventQueue {target : OpenDescriptor} {targetFd : ℕ}
    (htarget : s.fileAt p targetFd = some target) (hlt : targetFd < maxOpenFilesPerProcess)
    (operation : EpollOperation) (events : UInt32) (userData : UInt64) (allocated : Bool) :
    (s.controlEventQueue p fd operation targetFd target events userData
      allocated).2.Invariant := by
  unfold EpollState.controlEventQueue
  split
  · exact h
  split
  · exact h
  rename_i queue hfind
  obtain ⟨hqueue, hkey⟩ := findEventQueue_spec hfind
  obtain ⟨rfl, rfl⟩ := key_eq_iff.mp hkey
  have hold : ∀ watch ∈ queue.watches, watch.fileDescriptor < maxOpenFilesPerProcess ∧
      ∃ file, s.fileAt queue.processId watch.fileDescriptor = some file ∧
        file.description = watch.description := fun watch hwatch =>
    ⟨h.watch_lt queue hqueue watch hwatch, (h.follows queue hqueue).watched watch hwatch⟩
  have hnodup := (h.follows queue hqueue).watches_nodup
  split
  · exact h
  rename_i watches hwatches
  unfold controlWatches at hwatches
  split at hwatches
  · simp at hwatches
  · rename_i hnone
    split at hwatches
    · simp at hwatches
    obtain rfl := Except.ok.inj hwatches
    refine h.setWatches ?_ fun watch hwatch => ?_
    · rw [List.map_append, List.nodup_append]
      refine ⟨hnodup, List.nodup_singleton _, fun fd hfd fd' hfd' => ?_⟩
      obtain ⟨watch, hwatch, rfl⟩ := List.mem_map.mp hfd
      obtain rfl := List.mem_singleton.mp hfd'
      simpa using List.find?_eq_none.mp hnone watch hwatch
    · rcases List.mem_append.mp hwatch with hwatch | hwatch
      · exact hold watch hwatch
      · obtain rfl := List.mem_singleton.mp hwatch
        exact ⟨hlt, target, htarget, rfl⟩
  · simp at hwatches
  · obtain rfl := Except.ok.inj hwatches
    exact h.setWatches (hnodup.sublist (List.eraseP_sublist.map _)) fun watch hwatch =>
      hold watch (List.mem_of_mem_eraseP hwatch)
  · simp at hwatches
  · obtain rfl := Except.ok.inj hwatches
    refine h.setWatches ?_ fun watch hwatch => ?_
    · rw [KeyedList.map_replaceF]
      · exact hnodup
      · intro a b hb
        split_ifs at hb
        exact Option.some.inj hb ▸ rfl
    · rcases KeyedList.mem_of_mem_replaceF hwatch with hwatch | ⟨old, hmem, heq⟩
      · exact hold watch hwatch
      · split_ifs at heq
        exact Option.some.inj heq ▸ hold old hmem
  · simp at hwatches

theorem handleEpollCtl (p fd : ℕ) (operation : ℤ) (targetFd : ℕ) (event : Option EpollEvent)
    (allocated : Bool) :
    (s.handleEpollCtl p fd operation targetFd event allocated).2.Invariant := by
  unfold EpollState.handleEpollCtl
  split
  · exact h
  rename_i table htable
  split
  · exact h
  rename_i hrange
  split
  · exact h
  split
  · exact h
  split
  · exact h
  rename_i target htarget
  have hfile : s.fileAt p targetFd = some target := (fileAt_of_table htable).trans htarget
  have hlt : targetFd < maxOpenFilesPerProcess := Nat.lt_of_not_le fun hle => hrange (.inr hle)
  split
  · exact h.controlEventQueue hfile hlt ..
  split
  · exact h
  split
  · exact h
  · exact h.controlEventQueue hfile hlt ..

/-- The watches of a queue are for open descriptors. -/
theorem allOpen (hqueue : queue ∈ s.eventQueueStore)
    (htable : s.fileTables queue.processId = some table) : AllOpen table queue.watches := by
  refine fun watch hwatch => ⟨h.watch_lt queue hqueue watch hwatch, ?_⟩
  obtain ⟨file, hfile, -⟩ := (h.follows queue hqueue).watched watch hwatch
  rw [← fileAt_of_table htable, hfile]
  exact Option.some_ne_none file

/-- `epoll_wait` changes nothing, and reports the first ready watches. -/
theorem handleEpollWait (p fd events : ℕ) (maxEvents timeoutMilliseconds : ℤ) (first : Observation)
    (wakeups : List Wakeup) :
    (s.handleEpollWait p fd events maxEvents timeoutMilliseconds first wakeups).2 = s ∧
      ∀ queue ∈ s.eventQueueStore, queue.key = (p, fd) →
        ∀ table, s.fileTables p = some table → ∀ found,
          (s.handleEpollWait p fd events maxEvents timeoutMilliseconds first wakeups).1 =
            some (.ok found) →
          ∃ observation ∈ first :: wakeups.map Wakeup.observation,
            found = (readyEvents observation table queue.watches).take maxEvents.toNat := by
  unfold EpollState.handleEpollWait
  split
  · simp
  split
  · simp
  split
  · simp
  rename_i table htable
  split
  · simp
  split
  · simp
  split
  · simp
  rename_i queue hfind
  obtain ⟨hqueue, hkey⟩ := findEventQueue_spec hfind
  obtain ⟨rfl, rfl⟩ := key_eq_iff.mp hkey
  have hopen := h.allOpen hqueue htable
  obtain ⟨hkept, hresult⟩ :=
    @evaluateReadyEvents_of_ok first table queue.watches maxEvents.toNat hopen 0
  rw [Nat.sub_zero] at hresult
  have hsame := h.setWatches_self hqueue
  have hqueues : ∀ other ∈ s.eventQueueStore,
      other.key = (queue.processId, queue.fileDescriptor) → other = queue := fun other hother heq =>
    h.eq_of_key hother hqueue (heq.trans hkey.symm)
  split
  · rename_i kept heval
    rw [heval] at hkept hresult
    obtain rfl : kept = queue.watches := hkept
    obtain ⟨hwatches, hfound⟩ := waitForEvents_of_ok hopen (hresult [] rfl) timeoutMilliseconds
      timeoutMilliseconds wakeups
    rcases hwait : waitForEvents table maxEvents.toNat timeoutMilliseconds timeoutMilliseconds
      wakeups queue.watches with ⟨kept, result⟩
    rw [hwait] at hwatches hfound
    obtain rfl : kept = queue.watches := hwatches
    refine ⟨hsame, fun other hother heq table' htable' found hok => ?_⟩
    obtain rfl := hqueues other hother heq
    obtain rfl := Option.some.inj (htable.symm.trans htable')
    exact hfound found hok
  · rename_i kept result _ heval
    rw [heval] at hkept hresult
    rw [show kept = queue.watches from hkept]
    refine ⟨hsame, fun other hother heq table' htable' found hok => ?_⟩
    obtain rfl := hqueues other hother heq
    obtain rfl := Option.some.inj (htable.symm.trans htable')
    exact ⟨first, List.mem_cons_self .., hresult found (Option.some.inj hok)⟩

end

end Invariant

end EpollState

end TwistedOS
