import TwistedOS.Transfer.PipeTable

/-!
# Runs of the pipes

In every state of a run the bytes that were read from a pipe, followed by those in its buffer, are
the bytes that were written to it; its reference counts are the numbers of its descriptors in the
table, and it exists exactly as long as there are any. A read ends with the end of the file only
when the buffer is empty and no write descriptor is left.

A write that sleeps looks for readers again only if it still finds the buffer full. If the last
reader has made room before it closes its descriptor, the bytes are accepted although nobody can
read them.

## Main definitions

* `PipeOperation.Moves`: what an operation does to a pipe.
* `PipeWorld.Run`, `PipeWorld.PipesExact`.
* `PipeWorld.ResumesWithoutReader`: a write wakes up to a pipe with room and without a reader.

## Main results

* `PipeOperation.start_moves`, `PipeOperation.resume_moves`.
* `PipeWorld.Run.consistent`, `PipeWorld.Run.pipesExact`.
-/

namespace TwistedOS

open Function
open RingBuffer

/-! ### Operations on one pipe -/

namespace PipeOperation

/-- The bytes that an operation moves leave the pipe at one end or come in at the other. A read
moves nothing only at the end of the file. -/
def Moves (before : Pipe) (bytes : List UInt8) (after : Pipe) : PipeOperation → Prop
  | .read count => before.buffer.contents = bytes ++ after.buffer.contents ∧
      (0 < count → bytes = [] → before.buffer.buffered = 0 ∧ before.writerReferenceCount = 0)
  | .write _ => after.buffer.contents = before.buffer.contents ++ bytes

/-- The operation asks for some bytes. -/
def Nonempty : PipeOperation → Prop
  | .read count => 0 < count
  | .write bytes => bytes ≠ []

end PipeOperation

namespace PipeFile

variable {file : PipeFile} {ready closed : Pipe → Bool} {count : ℕ} {bytes moved : List UInt8}

/-- What is known when a loop that waits for a pipe has looked at it. -/
structure AwaitedNow (ready closed : Pipe → Bool) (pipe : Pipe) (awaited : Awaited) : Prop where
  pipe_eq : awaited.file.pipe = pipe
  ready_of : awaited.outcome = .ready → ready pipe = true
  closed_of : awaited.outcome = .closed → ready pipe = false ∧ closed pipe = true

theorem awaitFrom_now (ready closed : Pipe → Bool) (file : PipeFile) :
    AwaitedNow ready closed file.pipe (awaitFrom ready closed [] file) := by
  rw [awaitFrom]
  split_ifs with hready hclosed
  · exact ⟨rfl, fun _ => hready, by simp⟩
  · exact ⟨rfl, by simp, fun _ => ⟨by simpa using hready, hclosed⟩⟩
  · exact ⟨rfl, by simp, by simp⟩
  · exact ⟨rfl, by simp, by simp⟩

theorem awaitAgain_now (ready closed : Pipe → Bool) (interrupted : Bool) (file : PipeFile) :
    AwaitedNow ready closed file.pipe (awaitAgain ready closed interrupted file) := by
  rw [awaitAgain]
  split_ifs
  · exact ⟨rfl, by simp, by simp⟩
  · have h := awaitFrom_now ready closed file
    exact ⟨h.pipe_eq, h.ready_of, h.closed_of⟩

theorem takeBytes_moves {pipe : Pipe} {awaited : Awaited}
    (h : AwaitedNow hasBytes noWriter pipe awaited)
    (hok : (takeBytes count awaited).result = some (.ok moved)) :
    (PipeOperation.read count).Moves pipe moved (takeBytes count awaited).next.pipe := by
  obtain rfl := h.pipe_eq
  rw [takeBytes] at hok ⊢
  rcases houtcome : awaited.outcome with _ | _ | code | _
  · rw [houtcome] at hok
    obtain rfl := Except.ok.inj (Option.some.inj hok)
    refine ⟨?_, fun hcount hnone => ?_⟩
    · change _ = _ ++ (popMany count awaited.file.pipe.buffer).2.contents
      rw [popMany_fst, contents_popMany, List.take_append_drop]
    · have hbytes : awaited.file.pipe.buffer.buffered ≠ 0 := of_decide_eq_true (h.ready_of houtcome)
      rw [popMany_fst, List.take_eq_nil_iff, contents_eq_nil_iff] at hnone
      omega
  · rw [houtcome] at hok
    obtain rfl := Except.ok.inj (Option.some.inj hok)
    obtain ⟨hempty, hclosed⟩ := h.closed_of houtcome
    exact ⟨rfl, fun _ _ => ⟨by simpa [hasBytes] using hempty, of_decide_eq_true hclosed⟩⟩
  · rw [houtcome] at hok
    simp at hok
  · rw [houtcome] at hok
    simp at hok

theorem putBytes_moves {pipe : Pipe} {awaited : Awaited}
    (h : AwaitedNow hasSpace noReader pipe awaited)
    (hok : (acceptedBytes bytes (putBytes bytes awaited)).result = some (.ok moved)) :
    (PipeOperation.write bytes).Moves pipe moved
      (acceptedBytes bytes (putBytes bytes awaited)).next.pipe := by
  obtain rfl := h.pipe_eq
  rw [acceptedBytes, putBytes] at hok ⊢
  rcases houtcome : awaited.outcome with _ | _ | code | _
  · rw [houtcome] at hok
    obtain rfl := Except.ok.inj (Option.some.inj hok)
    change (pushMany bytes awaited.file.pipe.buffer).contents = _ ++
      bytes.take (min bytes.length awaited.file.pipe.buffer.available)
    rw [contents_pushMany, Nat.min_comm, ← List.take_eq_take_min]
  · rw [houtcome] at hok
    simp [Except.map] at hok
  · rw [houtcome] at hok
    simp [Except.map] at hok
  · rw [houtcome] at hok
    simp at hok

end PipeFile

namespace PipeOperation

variable {operation : PipeOperation} {file : PipeFile} {bytes moved : List UInt8}
  {interrupted : Bool}

theorem start_moves (hwakeups : file.wakeups = [])
    (hok : (operation.start file).result = some (.ok moved)) :
    operation.Moves file.pipe moved (operation.start file).next.pipe := by
  cases operation with
  | read count =>
    simp only [start, PipeFile.read] at hok ⊢
    split_ifs at hok ⊢ with hcount hend
    · obtain rfl := Except.ok.inj (Option.some.inj hok)
      exact ⟨rfl, fun hpos => absurd hcount hpos.ne'⟩
    · simp at hok
    · rw [hwakeups] at hok ⊢
      exact PipeFile.takeBytes_moves (PipeFile.awaitFrom_now ..) hok
  | write bytes =>
    simp only [start, PipeFile.write] at hok ⊢
    split_ifs at hok ⊢ with hbytes hend hreader
    · obtain rfl := Except.ok.inj (Option.some.inj hok)
      exact (List.append_nil _).symm
    · simp [PipeFile.acceptedBytes, Except.map] at hok
    · simp [PipeFile.acceptedBytes, Except.map] at hok
    · rw [hwakeups] at hok ⊢
      exact PipeFile.putBytes_moves (PipeFile.awaitFrom_now ..) hok

theorem resume_moves (hok : (operation.resume file interrupted).result = some (.ok moved)) :
    operation.Moves file.pipe moved (operation.resume file interrupted).next.pipe := by
  cases operation with
  | read count => exact PipeFile.takeBytes_moves (PipeFile.awaitAgain_now ..) hok
  | write bytes => exact PipeFile.putBytes_moves (PipeFile.awaitAgain_now ..) hok

/-- A caller falls asleep only when it asks for some bytes at the right end of the pipe. -/
theorem start_asleep (hnone : (operation.start file).result = none) :
    operation.Nonempty ∧ file.isReadEnd = operation.isRead := by
  cases operation with
  | read count =>
    simp only [start, PipeFile.read] at hnone
    split_ifs at hnone with hcount hend
    exact ⟨Nat.pos_of_ne_zero hcount, by simpa [isRead] using hend⟩
  | write bytes =>
    simp only [start, PipeFile.write] at hnone
    split_ifs at hnone with hbytes hend hreader
    · simp [PipeFile.acceptedBytes] at hnone
    · simp [PipeFile.acceptedBytes] at hnone
    · simp [PipeFile.acceptedBytes] at hnone
    · exact ⟨hbytes, by simpa [isRead] using hend⟩

/-- A write that starts looks for readers first. -/
theorem start_reader (hok : ((write bytes).start file).result = some (.ok moved))
    (hmoved : moved ≠ []) : file.pipe.readerReferenceCount ≠ 0 := by
  simp only [start, PipeFile.write] at hok
  split_ifs at hok with hbytes hend hreader
  · exact absurd (Except.ok.inj (Option.some.inj hok)).symm hmoved
  · simp [PipeFile.acceptedBytes, Except.map] at hok
  · simp [PipeFile.acceptedBytes, Except.map] at hok
  · simpa [PipeFile.noReader] using hreader

/-- A write that is resumed looks for room, and then accepts bytes. -/
theorem resume_write_iff : (∃ moved ≠ [],
      ((write bytes).resume file interrupted).result = some (.ok moved)) ↔
    bytes ≠ [] ∧ interrupted = false ∧ PipeFile.hasSpace file.pipe = true := by
  simp only [resume, PipeFile.acceptedBytes, PipeFile.putBytes, PipeFile.awaitAgain,
    PipeFile.awaitFrom]
  by_cases hinterrupted : interrupted
  · simp [hinterrupted, Except.map]
  by_cases hspace : PipeFile.hasSpace file.pipe
  · have hpos : file.pipe.buffer.available ≠ 0 := of_decide_eq_true hspace
    simp only [hinterrupted, hspace, ↓reduceIte, Bool.false_eq_true, Option.map_some, Except.map,
      Option.some.injEq, Except.ok.injEq]
    constructor
    · rintro ⟨moved, hmoved, rfl⟩
      exact ⟨fun hnil => hmoved (by rw [hnil, List.take_nil]), trivial, trivial⟩
    · rintro ⟨hbytes, -, -⟩
      refine ⟨_, ?_, rfl⟩
      rw [ne_eq, List.take_eq_nil_iff, not_or]
      have hlength := List.length_pos_of_ne_nil hbytes
      exact ⟨by omega, hbytes⟩
  · simp only [hinterrupted, hspace, ↓reduceIte, Bool.false_eq_true, and_false, iff_false]
    rintro ⟨moved, hmoved, hok⟩
    split_ifs at hok <;> simp [Except.map] at hok

end PipeOperation

/-! ### Runs -/

namespace PipeEvent

/-- The bytes that were read from a pipe since it was created, in order. -/
def returnedBytes (p : ℕ) : List PipeEvent → List UInt8
  | [] => []
  | .created q :: log => if q = p then [] else returnedBytes p log
  | .returned q _ bytes _ :: log =>
    if q = p then returnedBytes p log ++ bytes else returnedBytes p log
  | .accepted _ _ _ :: log => returnedBytes p log

/-- The bytes that were written to a pipe since it was created, in order. -/
def acceptedBytes (p : ℕ) : List PipeEvent → List UInt8
  | [] => []
  | .created q :: log => if q = p then [] else acceptedBytes p log
  | .returned _ _ _ _ :: log => acceptedBytes p log
  | .accepted q bytes _ :: log =>
    if q = p then acceptedBytes p log ++ bytes else acceptedBytes p log

end PipeEvent

namespace PipeWorld

/-- The call may be made: a process that sleeps makes no call, `new` returns unused memory, and
reading and writing take a descriptor of the process. -/
def Admits (w : PipeWorld) : PipeCall → Prop
  | .createPipe owner _ _ new =>
    w.sleeping owner = none ∧ (new.hasFailed = false → w.manager.Fresh new)
  | .duplicatePipeDescriptor .. => True
  | .closePipe owner _ _ => w.sleeping owner = none
  | .operate owner fileDescriptor node _ _ => w.sleeping owner = none ∧
      ∃ t ∈ w.manager.pipeEndpointList,
        t.owner = owner ∧ t.fileDescriptor = fileDescriptor ∧ t.node = node
  | .resume .. => True
  | .kill .. => True

/-- The states that are reached by admitted calls with a property. -/
inductive Run (Allowed : PipeWorld → PipeCall → Prop) : PipeWorld → Prop
  | start : Run Allowed {}
  | step {w : PipeWorld} (call : PipeCall) (hrun : Run Allowed w) (hadmits : w.Admits call)
      (hallowed : Allowed w call) : Run Allowed (w.step call)

/-- A write that has slept wakes up to a pipe with room and without a reader. -/
def ResumesWithoutReader (w : PipeWorld) : PipeCall → Prop
  | .resume owner interruptedBySignal => interruptedBySignal = false ∧
      ∃ call bytes pipe, w.sleeping owner = some call ∧ call.operation = .write bytes ∧
        w.manager.pipes call.pipe = some pipe ∧ pipe.buffer.buffered < 4096 ∧
        pipe.readerReferenceCount = 0
  | _ => False

/-- The pipes are lossless queues with an exact end of the file. -/
structure PipesExact (w : PipeWorld) : Prop where
  fifo : ∀ p pipe, w.manager.pipes p = some pipe →
    PipeEvent.returnedBytes p w.log ++ pipe.buffer.contents = PipeEvent.acceptedBytes p w.log
  ring : ∀ p pipe, w.manager.pipes p = some pipe → pipe.buffer.buffered ≤ 4096 ∧
    pipe.buffer.writeOffset = (pipe.buffer.readOffset + pipe.buffer.buffered) % 4096
  counts : ∀ p pipe, w.manager.pipes p = some pipe →
    pipe.readerReferenceCount = w.manager.trackedDescriptors p true ∧
      pipe.writerReferenceCount = w.manager.trackedDescriptors p false
  /-- A read returns nothing only from an empty pipe that nobody can write. -/
  endOfFile : ∀ p count found, .returned p count [] found ∈ w.log → 0 < count →
    found.bufferedBytes = 0 ∧ found.writers = 0
  /-- No byte is accepted that nobody can read. -/
  readable : ∀ p bytes found, .accepted p bytes found ∈ w.log → bytes ≠ [] → found.readers ≠ 0
  /-- A pipe exists as long as one of its descriptors does. -/
  exists_iff : ∀ p, (∃ pipe, w.manager.pipes p = some pipe) ↔
    ∃ t ∈ w.manager.pipeEndpointList, ∃ isReadEnd,
      w.manager.endpoints t.endpoint = some ⟨p, isReadEnd⟩
  /-- The end that a descriptor in the table refers to is allocated. -/
  tracked : ∀ t ∈ w.manager.pipeEndpointList, (w.manager.endpoints t.endpoint).isSome

/-- What every run preserves: all but that accepted bytes can be read. A process that sleeps has a
descriptor of the pipe. -/
structure Consistent (w : PipeWorld) : Prop where
  manager : w.manager.Consistent
  asleep : ∀ owner call, w.sleeping owner = some call → call.operation.Nonempty ∧
    ∃ t ∈ w.manager.pipeEndpointList, t.owner = owner ∧
      w.manager.endpoints t.endpoint = some ⟨call.pipe, call.operation.isRead⟩
  fifo : ∀ p pipe, w.manager.pipes p = some pipe →
    PipeEvent.returnedBytes p w.log ++ pipe.buffer.contents = PipeEvent.acceptedBytes p w.log
  endOfFile : ∀ p count found, .returned p count [] found ∈ w.log → 0 < count →
    found.bufferedBytes = 0 ∧ found.writers = 0

variable {w : PipeWorld}

theorem consistent_empty : Consistent {} where
  manager := PipeManager.consistent_empty
  asleep _ _ h := by simp at h
  fifo _ _ h := by simp at h
  endOfFile _ _ _ h := by simp at h

namespace Consistent

section

variable (h : w.Consistent)

include h

/-- A sleeping process keeps its descriptor when others duplicate and close theirs. -/
theorem setManager {m : PipeManager} (hm : m.Consistent) (hlater : w.manager.Later m)
    (hkeeps : ∀ t ∈ w.manager.pipeEndpointList, w.sleeping t.owner ≠ none → t ∈ m.pipeEndpointList) :
    { w with manager := m }.Consistent where
  manager := hm
  asleep owner call hcall := by
    change w.sleeping owner = some call at hcall
    obtain ⟨hnonempty, t, ht, rfl, he⟩ := h.asleep owner call hcall
    have hmem := hkeeps t ht (by simp [hcall])
    obtain ⟨e, -, he', -⟩ := hm.exists_of_tracked hmem
    obtain rfl := Option.some.inj (he.symm.trans (hlater.endpoints _ _ he'))
    exact ⟨hnonempty, t, hmem, rfl, he'⟩
  fifo p pipe' hp := by
    obtain ⟨pipe, hpipe, hbuffer⟩ := hlater.buffers p pipe' hp
    rw [hbuffer]
    exact h.fifo p pipe hpipe
  endOfFile := h.endOfFile

theorem wake (owner : ℕ) :
    { w with sleeping := update w.sleeping owner none }.Consistent where
  manager := h.manager
  asleep other call hcall := by
    change update w.sleeping owner none other = some call at hcall
    rcases eq_or_ne other owner with rfl | hne
    · rw [update_self] at hcall
      exact absurd hcall (by simp)
    · rw [update_of_ne hne] at hcall
      exact h.asleep other call hcall
  fifo := h.fifo
  endOfFile := h.endOfFile

/-- A process may fall asleep on a pipe of which it has a descriptor. -/
theorem sleep {owner : ℕ} {call : SleepingCall}
    (hcall : call.operation.Nonempty ∧ ∃ t ∈ w.manager.pipeEndpointList, t.owner = owner ∧
      w.manager.endpoints t.endpoint = some ⟨call.pipe, call.operation.isRead⟩) :
    { w with sleeping := update w.sleeping owner (some call) }.Consistent where
  manager := h.manager
  asleep other call' hcall' := by
    change update w.sleeping owner (some call) other = some call' at hcall'
    rcases eq_or_ne other owner with rfl | hne
    · rw [update_self] at hcall'
      obtain rfl := Option.some.inj hcall'
      exact hcall
    · rw [update_of_ne hne] at hcall'
      exact h.asleep other call' hcall'
  fifo := h.fifo
  endOfFile := h.endOfFile

theorem transfer {p : ℕ} {pipe : PipeKernelObject} {after : Pipe} {bytes : List UInt8}
    {operation : PipeOperation} (hpipe : w.manager.pipes p = some pipe)
    (hmoves : operation.Moves pipe.toPipe bytes after) :
    PipeWorld.Consistent
      { w with
        manager := w.manager.setPipe p (pipe.setBuffer after.buffer)
        log := w.event p pipe.toPipe bytes operation :: w.log } where
  manager := h.manager.setBuffer hpipe after.buffer
  asleep := h.asleep
  fifo q other hq := by
    change update w.manager.pipes p _ q = some other at hq
    change PipeEvent.returnedBytes q (w.event p pipe.toPipe bytes operation :: w.log) ++ _ =
      PipeEvent.acceptedBytes q (w.event p pipe.toPipe bytes operation :: w.log)
    rcases eq_or_ne q p with rfl | hne
    · rw [update_self] at hq
      obtain rfl := Option.some.inj hq
      have hfifo := h.fifo q pipe hpipe
      cases operation with
      | read count =>
        rw [hmoves.1, ← List.append_assoc] at hfifo
        simp only [event, PipeEvent.returnedBytes, PipeEvent.acceptedBytes, ↓reduceIte]
        exact hfifo
      | write written =>
        have hcontents : after.buffer.contents = pipe.buffer.contents ++ bytes := hmoves
        simp only [event, PipeEvent.returnedBytes, PipeEvent.acceptedBytes, ↓reduceIte]
        change _ ++ after.buffer.contents = _
        rw [hcontents, ← List.append_assoc, hfifo]
    · rw [update_of_ne hne] at hq
      have hfifo := h.fifo q other hq
      cases operation <;>
        simpa [event, PipeEvent.returnedBytes, PipeEvent.acceptedBytes, hne.symm] using hfifo
  endOfFile q count found hmem hpos := by
    change _ ∈ w.event p pipe.toPipe bytes operation :: w.log at hmem
    rcases List.mem_cons.mp hmem with hevent | hmem
    · cases operation with
      | read count =>
        obtain ⟨rfl, rfl, rfl, rfl⟩ := PipeEvent.returned.inj hevent
        obtain ⟨hempty, hwriters⟩ := hmoves.2 hpos rfl
        exact ⟨hempty, (h.manager.count q pipe hpipe false).symm.trans hwriters⟩
      | write written => exact absurd hevent (by simp [event])
    · exact h.endOfFile q count found hmem hpos

theorem finish {owner : ℕ} {call : SleepingCall} {pipe : PipeKernelObject}
    {r : OperationResult PipeFile (List UInt8)} (hpipe : w.manager.pipes call.pipe = some pipe)
    (hmoves : ∀ bytes, r.result = some (.ok bytes) →
      call.operation.Moves pipe.toPipe bytes r.next.pipe)
    (hasleep : r.result = none → call.operation.Nonempty ∧
      ∃ t ∈ w.manager.pipeEndpointList, t.owner = owner ∧
        w.manager.endpoints t.endpoint = some ⟨call.pipe, call.operation.isRead⟩) :
    (w.finish owner call pipe r).Consistent := by
  rw [PipeWorld.finish]
  rcases hresult : r.result with _ | code | bytes
  · exact h.sleep (hasleep hresult)
  · exact h.wake owner
  · exact (h.wake owner).transfer hpipe (hmoves bytes hresult)

theorem operate {owner : ℕ} {fileDescriptor : ℤ} {node : ℕ} {operation : PipeOperation}
    {t : TrackedPipeEndpoint} (ht : t ∈ w.manager.pipeEndpointList) (howner : t.owner = owner)
    (hnode : t.node = node) (nonblock : Bool) :
    (w.operate owner fileDescriptor node nonblock operation).Consistent := by
  obtain ⟨e, pipe, he, hpipe, -⟩ := h.manager.exists_of_tracked ht
  have hfind : (w.manager.nodes node).bind w.manager.findPipe = some (e, pipe) := by
    rw [← hnode, h.manager.tracked t ht, Option.bind_some, PipeManager.findPipe, he]
    simp only [hpipe, Option.map_some]
  rw [PipeWorld.operate, hfind]
  refine h.finish hpipe (fun bytes hok => ?_) fun hnone => ?_
  · exact PipeOperation.start_moves rfl hok
  · obtain ⟨hnonempty, hend⟩ := PipeOperation.start_asleep hnone
    refine ⟨hnonempty, t, ht, howner, ?_⟩
    rw [he, ← hend]

theorem resume (owner : ℕ) (interruptedBySignal : Bool) :
    (w.resume owner interruptedBySignal).Consistent := by
  rw [PipeWorld.resume]
  rcases hcall : w.sleeping owner with _ | call
  · exact h
  dsimp only
  rcases hpipe : w.manager.pipes call.pipe with _ | pipe
  · exact h
  exact h.finish hpipe (fun bytes hok => PipeOperation.resume_moves hok)
    fun _ => h.asleep owner call hcall

theorem createPipe (owner : ℕ) (readFileDescriptor writeFileDescriptor : ℤ) {new : NewPipe}
    (hfresh : new.hasFailed = false → w.manager.Fresh new) :
    (w.createPipe owner readFileDescriptor writeFileDescriptor new).Consistent := by
  rw [PipeWorld.createPipe]
  rcases w.manager.createPipe_cases owner readFileDescriptor writeFileDescriptor new with
    ⟨code, hcall⟩ | ⟨hnew, hcall⟩
  · rw [hcall]
    exact h
  rw [hcall]
  have hfresh := hfresh hnew
  refine ⟨h.manager.addPipe hfresh, fun other call hsleeps => ?_, fun p pipe hp => ?_,
    fun p count found hmem hpos => ?_⟩
  · obtain ⟨hnonempty, t, ht, howner, he⟩ := h.asleep other call hsleeps
    exact ⟨hnonempty, t, List.mem_append_left _ ht, howner,
      hfresh.endpoints_addPipe.mpr (.inr he)⟩
  · simp only [PipeEvent.returnedBytes, PipeEvent.acceptedBytes]
    rcases hfresh.pipes_addPipe.mp hp with ⟨rfl, rfl⟩ | hp
    · rw [if_pos rfl, if_pos rfl]
      rfl
    · have hne : new.pipe ≠ p := by
        rintro rfl
        exact absurd (hfresh.pipe.symm.trans hp) (by simp)
      rw [if_neg hne, if_neg hne]
      exact h.fifo p pipe hp
  · exact h.endOfFile p count found (by simpa using hmem) hpos

/-- Every call preserves the invariant. -/
theorem step {call : PipeCall} (hadmits : w.Admits call) : (w.step call).Consistent := by
  cases call with
  | createPipe owner readFileDescriptor writeFileDescriptor new =>
    exact h.createPipe owner readFileDescriptor writeFileDescriptor hadmits.2
  | duplicatePipeDescriptor owner fileDescriptor node =>
    obtain ⟨hlater, hsub⟩ := h.manager.later_duplicatePipeDescriptor owner fileDescriptor node
    exact h.setManager (h.manager.duplicatePipeDescriptor ..) hlater fun t ht _ => hsub ht
  | closePipe owner fileDescriptor node =>
    obtain ⟨hlater, hkeeps⟩ := h.manager.later_closePipe owner fileDescriptor node
    refine h.setManager (h.manager.closePipe ..) hlater fun t ht hasleep => hkeeps t ht ?_
    rintro rfl
    exact hasleep hadmits
  | operate owner fileDescriptor node nonblock operation =>
    obtain ⟨-, t, ht, howner, -, hnode⟩ := hadmits
    exact h.operate ht howner hnode nonblock
  | resume owner interruptedBySignal => exact h.resume owner interruptedBySignal
  | kill owner => exact h.wake owner

end

end Consistent

theorem Run.consistent {Allowed : PipeWorld → PipeCall → Prop} (h : Run Allowed w) :
    w.Consistent := by
  induction h with
  | start => exact consistent_empty
  | step call _ hadmits _ ih => exact ih.step hadmits

/-! ### Bytes that nobody can read -/

/-- All bytes were accepted while there were readers. -/
def AllReadable (w : PipeWorld) : Prop :=
  ∀ p bytes found, .accepted p bytes found ∈ w.log → bytes ≠ [] → found.readers ≠ 0

section

variable (h : w.Consistent) (hall : w.AllReadable)

include h hall

/-- An operation keeps this exactly if it finds a reader before it writes bytes. -/
theorem allReadable_finish (owner : ℕ) {call : SleepingCall} {pipe : PipeKernelObject}
    (r : OperationResult PipeFile (List UInt8)) (hpipe : w.manager.pipes call.pipe = some pipe) :
    (w.finish owner call pipe r).AllReadable ↔
      ∀ bytes moved, call.operation = .write bytes → r.result = some (.ok moved) → moved ≠ [] →
        pipe.readerReferenceCount ≠ 0 := by
  have hcount := h.manager.count _ _ hpipe true
  rw [finish]
  rcases hresult : r.result with _ | code | moved
  · exact iff_of_true hall (by simp)
  · exact iff_of_true hall (by simp)
  change (∀ p bytes found, .accepted p bytes found ∈
    w.event call.pipe pipe.toPipe moved call.operation :: w.log → bytes ≠ [] → found.readers ≠ 0) ↔ _
  cases hoperation : call.operation with
  | read count =>
    refine iff_of_true (fun p bytes found hmem => hall p bytes found ?_) (by simp)
    simpa [event] using hmem
  | write bytes =>
    constructor
    · rintro hnew _ _ - hok hmoved
      obtain rfl := Except.ok.inj (Option.some.inj hok)
      have hreaders := hnew call.pipe _ _ List.mem_cons_self hmoved
      rwa [show (w.census call.pipe pipe.toPipe).readers = _ from hcount.symm] at hreaders
    · intro hreader p accepted found hmem haccepted
      rcases List.mem_cons.mp hmem with hevent | hmem
      · obtain ⟨rfl, rfl, rfl⟩ := PipeEvent.accepted.inj hevent
        rw [show (w.census call.pipe pipe.toPipe).readers = _ from hcount.symm]
        exact hreader bytes accepted rfl rfl haccepted
      · exact hall p accepted found hmem haccepted

theorem allReadable_operate (owner : ℕ) (fileDescriptor : ℤ) (node : ℕ) (nonblock : Bool)
    (operation : PipeOperation) :
    (w.operate owner fileDescriptor node nonblock operation).AllReadable := by
  rw [operate]
  rcases hfind : (w.manager.nodes node).bind w.manager.findPipe with _ | ⟨e, pipe⟩
  · exact hall
  have hpipe : w.manager.pipes e.pipe = some pipe := by
    obtain ⟨a, -, ha⟩ := Option.bind_eq_some_iff.mp hfind
    rw [PipeManager.findPipe] at ha
    rcases he : w.manager.endpoints a with _ | e'
    · simp [he] at ha
    · rw [he] at ha
      obtain ⟨pipe', hpipe', heq⟩ := Option.map_eq_some_iff.mp ha
      obtain ⟨rfl, rfl⟩ := Prod.mk.inj heq
      exact hpipe'
  refine (allReadable_finish h hall owner _ hpipe).mpr fun bytes moved hwrite hok hmoved => ?_
  obtain rfl : operation = .write bytes := hwrite
  exact PipeOperation.start_reader hok hmoved

/-- A write that is resumed accepts bytes without looking for a reader. -/
theorem allReadable_resume_iff (owner : ℕ) (interruptedBySignal : Bool) :
    (w.resume owner interruptedBySignal).AllReadable ↔
      ¬ w.ResumesWithoutReader (.resume owner interruptedBySignal) := by
  rw [resume]
  rcases hcall : w.sleeping owner with _ | call
  · refine iff_of_true hall ?_
    rintro ⟨-, call, -, -, hsome, -⟩
    rw [hcall] at hsome
    exact absurd hsome (by simp)
  dsimp only
  rcases hpipe : w.manager.pipes call.pipe with _ | pipe
  · refine iff_of_true hall ?_
    rintro ⟨-, call', -, pipe, hsome, -, hpipe', -⟩
    obtain rfl := Option.some.inj (hcall.symm.trans hsome)
    exact absurd (hpipe.symm.trans hpipe') (by simp)
  dsimp only
  rw [allReadable_finish h hall owner _ hpipe]
  have hroom (bytes : List UInt8) := @PipeOperation.resume_write_iff
    { isReadEnd := call.operation.isRead, nonblock := false, pipe := pipe.toPipe } bytes
    interruptedBySignal
  have hspace : PipeFile.hasSpace pipe.toPipe = true ↔ pipe.buffer.buffered < 4096 := by
    have hle := pipe.buffer.buffered_le
    rw [PipeFile.hasSpace, decide_eq_true_iff, available]
    omega
  constructor
  · rintro hreader ⟨hawake, call', bytes, pipe', hsome, hwrite, hpipe', hfree, hnone⟩
    obtain rfl := Option.some.inj (hcall.symm.trans hsome)
    obtain rfl := Option.some.inj (hpipe.symm.trans hpipe')
    have hbytes : bytes ≠ [] := by
      have hnonempty := (h.asleep owner call hcall).1
      rwa [hwrite] at hnonempty
    obtain ⟨moved, hmoved, hok⟩ := (hroom bytes).mpr ⟨hbytes, hawake, hspace.mpr hfree⟩
    exact hreader bytes moved hwrite (by rw [hwrite] at hok ⊢; exact hok) hmoved hnone
  · intro hnot bytes moved hwrite hok hmoved hnone
    rw [hwrite] at hok
    obtain ⟨-, hawake, hfree⟩ := (hroom bytes).mp ⟨moved, hmoved, by rw [hwrite]; exact hok⟩
    exact hnot ⟨hawake, call, bytes, pipe, hcall, hwrite, hpipe, hspace.mp hfree, hnone⟩

theorem allReadable_step_iff (call : PipeCall) :
    (w.step call).AllReadable ↔ ¬ w.ResumesWithoutReader call := by
  cases call with
  | createPipe owner readFileDescriptor writeFileDescriptor new =>
    refine iff_of_true ?_ id
    rw [step, createPipe]
    rcases w.manager.createPipe_cases owner readFileDescriptor writeFileDescriptor new with
      ⟨code, hcall⟩ | ⟨-, hcall⟩
    · rw [hcall]
      exact hall
    · rw [hcall]
      exact fun p bytes found hmem => hall p bytes found (by simpa using hmem)
  | duplicatePipeDescriptor owner fileDescriptor node => exact iff_of_true hall id
  | closePipe owner fileDescriptor node => exact iff_of_true hall id
  | operate owner fileDescriptor node nonblock operation =>
    exact iff_of_true
      (allReadable_operate h hall owner fileDescriptor node nonblock operation) id
  | resume owner interruptedBySignal =>
    exact allReadable_resume_iff h hall owner interruptedBySignal
  | kill owner => exact iff_of_true hall id

end

/-! ### Exactness -/

theorem Consistent.pipesExact_iff (h : w.Consistent) : w.PipesExact ↔ w.AllReadable := by
  refine ⟨PipesExact.readable, fun hall => ⟨h.fifo, ?_, ?_, h.endOfFile, hall, fun p => ?_,
    fun t ht => ?_⟩⟩
  · exact fun p pipe _ => ⟨pipe.buffer.buffered_le, pipe.buffer.writeOffset_eq⟩
  · exact fun p pipe hp => ⟨h.manager.count p pipe hp true, h.manager.count p pipe hp false⟩
  · constructor
    · rintro ⟨pipe, hpipe⟩
      obtain ⟨b, hcount⟩ := h.manager.referenced p pipe hpipe
      rw [h.manager.count p pipe hpipe b] at hcount
      obtain ⟨t, ht, he⟩ := List.countP_pos_iff.mp (Nat.pos_of_ne_zero hcount)
      exact ⟨t, ht, b, of_decide_eq_true he⟩
    · rintro ⟨t, -, b, he⟩
      obtain ⟨pipe, hpipe, -⟩ := h.manager.endpoint _ _ he
      exact ⟨pipe, hpipe⟩
  · obtain ⟨e, -, he, -⟩ := h.manager.exists_of_tracked ht
    exact Option.isSome_iff_exists.mpr ⟨e, he⟩

/-- As long as no write wakes up to a pipe with room and without a reader, the pipes are exact; the
first such write makes an end of it. -/
theorem Run.pipesExact (h : Run (fun w call => ¬ w.ResumesWithoutReader call) w) :
    w.PipesExact ∧ ∀ call, w.Admits call →
      ((w.step call).PipesExact ↔ ¬ w.ResumesWithoutReader call) := by
  have hall : w.AllReadable := by
    induction h with
    | start => exact fun _ _ _ hmem => absurd hmem List.not_mem_nil
    | step call hrun _ hallowed ih => exact (allReadable_step_iff hrun.consistent ih call).mpr hallowed
  refine ⟨h.consistent.pipesExact_iff.mpr hall, fun call hadmits => ?_⟩
  rw [(h.consistent.step hadmits).pipesExact_iff, allReadable_step_iff h.consistent hall]

/-- A pipe, its endpoints and its inodes at five addresses. -/
def onePipe : NewPipe where
  pipe := 16
  readEndpoint := 32
  writeEndpoint := 48
  readNode := 64
  writeNode := 80

/-- The process at the address 1 has created a pipe. -/
def justCreated : PipeWorld := step {} (.createPipe 1 3 4 onePipe)

theorem admits_createPipe : Admits {} (.createPipe 1 3 4 onePipe) :=
  ⟨rfl, fun _ => ⟨rfl, rfl, rfl, rfl, rfl, by decide, by decide⟩⟩

/-- The process at the address 1 creates a pipe. -/
theorem Run.pipesExact_onePipe :
    justCreated.PipesExact ∧ ∀ call, justCreated.Admits call →
      ((justCreated.step call).PipesExact ↔ ¬ justCreated.ResumesWithoutReader call) :=
  Run.pipesExact (.step _ .start admits_createPipe id)

/-- The second process is to read the pipe. The first one has filled it and sleeps in another write
when the second one makes room for one byte and closes its descriptor. -/
def closedByReader : PipeWorld :=
  ((((((justCreated.step (.duplicatePipeDescriptor 2 3 64)).step (.closePipe 1 3 64)).step
    (.operate 1 4 80 false (.write (List.replicate 4096 0)))).step
      (.operate 1 4 80 false (.write [1]))).step (.operate 2 3 64 false (.read 1))).step
        (.closePipe 2 3 64))

/-- When the first process wakes up, its byte is accepted although nobody can read it. -/
theorem not_pipesExact_of_run : ∃ w, Run (fun _ _ => True) w ∧ ¬ w.PipesExact := by
  refine ⟨closedByReader.step (.resume 1 false), .step _ ?_ trivial trivial, fun h => ?_⟩
  · refine .step _ (.step _ (.step _ (.step _ (.step _ (.step _ (.step _ .start admits_createPipe
      trivial) trivial trivial) ?_ trivial) ?_ trivial) ?_ trivial) ?_ trivial) ?_ trivial
    · exact rfl
    · exact ⟨rfl, by decide +kernel⟩
    · exact ⟨by decide +kernel, by decide +kernel⟩
    · exact ⟨by decide +kernel, by decide +kernel⟩
    · change _ = none
      decide +kernel
  · have hlog : (closedByReader.step (.resume 1 false)).log.head? =
        some (.accepted 16 [1] ⟨4095, 0, 1⟩) := by decide +kernel
    exact h.readable 16 [1] _ (List.mem_of_mem_head? hlog) (by decide) rfl

end PipeWorld

end TwistedOS
