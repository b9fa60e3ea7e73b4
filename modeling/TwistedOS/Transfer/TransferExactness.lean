import TwistedOS.Transfer.TransferCalls

/-!
# Exact transfers

A call is exact when it reports as many bytes as it has moved, puts them at the first addresses of
its buffers, and does not sleep once it has moved some. This depends on the object and on the
memory that is mapped, chunk by chunk: after a chunk the caller must not fall asleep, what is read
must fit into mapped memory, and within a segment of an array nothing may fail after the first
chunk, because the bytes of the segment are not counted then.

## Main definitions

* `Caller.segments` — the buffers of a call.
* `Caller.TransfersExactly`, `Caller.GoesThrough`.

## Main results

* `Caller.transfersExactly_iff`.
-/

namespace TwistedOS

open ChunkStep OperationResult

/-- The rounds of a read go through: the caller does not sleep after the first chunk, and the bytes
that the object gives can be copied. Where `strict` holds, the object fails at the start of a
segment only. -/
def ReadsThrough (pages : ℕ → Bool) (strict : Bool) : Bool → List Chunk → ByteObject → Prop
  | _, [], _ => True
  | started, chunk :: rest, object =>
    (started → (object.read chunk.size).slept = false) ∧
    isUserRangeCopyable pages chunk.address (object.read chunk.size).bytes.length ∧
    (strict → chunk.first ∨ ∀ code, (object.read chunk.size).result ≠ some (.error code)) ∧
    (∀ bytes, (object.read chunk.size).result = some (.ok bytes) → chunk.size ≤ bytes.length →
      ReadsThrough pages strict true rest (object.read chunk.size).next)

/-- The rounds of a write go through: the caller does not sleep after the first chunk. Where
`strict` holds, a chunk that cannot be copied and an object that fails come at the start of a
segment only. -/
def WritesThrough (pages : ℕ → Bool) (memory : ByteMemory) (strict : Bool) :
    Bool → List Chunk → ByteObject → Prop
  | _, [], _ => True
  | started, chunk :: rest, object =>
    let bytes := (List.range chunk.size).map fun i => memory (chunk.address + i)
    if isUserRangeCopyable pages chunk.address chunk.size then
      (started → (object.write bytes).slept = false) ∧
      (strict → chunk.first ∨ ∀ code, (object.write bytes).result ≠ some (.error code)) ∧
      (∀ count, (object.write bytes).result = some (.ok count) → chunk.size ≤ count →
        WritesThrough pages memory strict true rest (object.write bytes).next)
    else strict → chunk.first

/-- The addresses of buffers, in order. -/
def bufferAddresses (segments : List (ℕ × ℕ)) : List ℕ :=
  segments.flatMap fun segment => (List.range segment.2).map (segment.1 + ·)

namespace TransferCall

/-- The call has an array of buffers. -/
def isVector : TransferCall → Bool
  | readv .. => true
  | writev .. => true
  | read .. => false
  | write .. => false

end TransferCall

namespace Caller

variable (w : Caller) (call : TransferCall)

/-- The buffers of a call that looks at its object. An array is read one entry at a time. -/
def segments : List (ℕ × ℕ) :=
  match call.refusal w.accessFlags, call with
  | some _, _ => []
  | none, .read buffer count | none, .write buffer count => [(buffer, count)]
  | none, .readv iov iovCount | none, .writev iov iovCount =>
    (w.step call).segmentsRead syscallCopyChunkSize (iovecEntries w.pages iov iovCount) w.state

/-- The rounds of a call go through. -/
def GoesThrough : Prop :=
  if call.isRead then
    ReadsThrough w.pages call.isVector false (planOf syscallCopyChunkSize (w.segments call))
      w.state.object
  else
    WritesThrough w.pages w.state.memory call.isVector false
      (planOf syscallCopyChunkSize (w.segments call)) w.state.object

/-- The bytes were taken from the object after the caller woke up for the last time, and are in the
memory at their addresses. -/
structure ReadMoves (placed : List (ℕ × UInt8)) (s : TransferState) : Prop where
  memory_eq : s.memory = w.state.memory.storeAll placed
  woken : ∃ woken, w.state.object.Waits woken ∧ woken.Consumes (placed.map Prod.snd) s.object

/-- The bytes are those of the memory at their addresses, and the object has taken them after the
caller woke up for the last time. -/
structure WriteMoves (placed : List (ℕ × UInt8)) (s : TransferState) : Prop where
  memory_eq : s.memory = w.state.memory
  bytes_eq : ∀ p ∈ placed, p.2 = w.state.memory p.1
  woken : ∃ woken, w.state.object.Waits woken ∧ woken.Accepts (placed.map Prod.snd) s.object

/-- A call transfers exactly what it reports: it returns the number of bytes that were moved, or an
error when there are none, it has not slept after it moved some, and they are the first bytes of its
buffers. -/
structure TransfersExactly : Prop where
  exact : (w.run call).2.Exact (w.run call).1
  length_le : (w.run call).2.moved.length ≤ (bufferAddresses (w.segments call)).length
  reads : call.isRead = true →
    w.ReadMoves ((bufferAddresses (w.segments call)).zip (w.run call).2.moved) (w.run call).2.state
  writes : call.isRead = false →
    w.WriteMoves ((bufferAddresses (w.segments call)).zip (w.run call).2.moved) (w.run call).2.state

end Caller

/-! ### Waiting -/

theorem PipeFile.Waits.trans {file middle later : PipeFile} (h : file.Waits middle)
    (h' : middle.Waits later) : file.Waits later := by
  induction h with
  | refl file => exact h'
  | wake hwakeups _ ih => exact .wake hwakeups (ih h')

/-- What a caller wakes up to does not depend on the pipe before. -/
theorem PipeFile.Waits.of_setBuffer {file later : PipeFile} {buffer : RingBuffer UInt8 4096}
    (h : (file.setBuffer buffer).Waits later) :
    later = file.setBuffer buffer ∨ file.Waits later := by
  cases h with
  | refl => exact .inl rfl
  | wake hwakeups h => exact .inr (.wake hwakeups h)

namespace ByteObject

variable {object middle after later : ByteObject} {bytes : List UInt8}

theorem Waits.trans (h : object.Waits middle) (h' : middle.Waits later) : object.Waits later := by
  cases object <;> cases middle <;> cases later <;>
    first | exact absurd h id | exact absurd h' id | skip
  · exact PipeFile.Waits.trans h h'
  · exact Eq.trans h h'
  · exact Eq.trans h h'

/-- A caller that wakes up after it has consumed nothing could have woken up before. -/
theorem Consumes.waits (h : object.Consumes [] after) (hw : after.Waits later) :
    ∃ woken, object.Waits woken ∧ woken.Consumes [] later := by
  cases object <;> cases after <;> cases later <;>
    first | exact absurd h id | exact absurd hw id | skip
  · rename_i file file' later
    rw [(show file.Consumes [] file' from h).after_eq] at hw
    rcases PipeFile.Waits.of_setBuffer hw with hlater | hwaits
    · refine ⟨.pipe file, PipeFile.Waits.refl file, ?_⟩
      rw [hlater, ← (show file.Consumes [] file' from h).after_eq]
      exact h
    · exact ⟨.pipe later, hwaits, PipeFile.Consumes.refl later⟩
  · exact ⟨_, Waits.refl _, hw ▸ h⟩
  · exact ⟨_, Waits.refl _, hw ▸ h⟩

/-- A caller that wakes up after nothing was accepted could have woken up before. -/
theorem Accepts.waits (h : object.Accepts [] after) (hw : after.Waits later) :
    ∃ woken, object.Waits woken ∧ woken.Accepts [] later := by
  cases object <;> cases after <;> cases later <;>
    first | exact absurd h id | exact absurd hw id | skip
  · rename_i file file' later
    rw [(show file.Accepts [] file' from h).after_eq] at hw
    rcases PipeFile.Waits.of_setBuffer hw with hlater | hwaits
    · refine ⟨.pipe file, PipeFile.Waits.refl file, ?_⟩
      rw [hlater, ← (show file.Accepts [] file' from h).after_eq]
      exact h
    · exact ⟨.pipe later, hwaits, PipeFile.Accepts.refl later⟩
  · exact ⟨_, Waits.refl _, hw ▸ h⟩
  · exact ⟨_, Waits.refl _, hw ▸ h⟩

end ByteObject

/-! ### Rounds -/

variable {pages : ℕ → Bool} {strict started : Bool} {plan : List Chunk} {s : TransferState}

/-- The rounds of a read go through when those of its chunks do. -/
theorem readsThrough_iff : ReadsThrough pages strict started plan s.object ↔
    (readStep pages).Passes strict started plan s := by
  induction plan generalizing started s with
  | nil => exact Iff.rfl
  | cons chunk plan ih =>
    rw [ReadsThrough, passes_cons]
    change _ ↔ (_ → (readChunk pages chunk.address chunk.size s).slept = false) ∧
      (∀ code, (readChunk pages chunk.address chunk.size s).outcome = .failed code →
        (readChunk pages chunk.address chunk.size s).moved = [] ∧ _) ∧
      ((readChunk pages chunk.address chunk.size s).outcome = .filled →
        (readStep pages).Passes strict true plan
          (readChunk pages chunk.address chunk.size s).state)
    rw [readChunk, finishRead, OperationResult.bytes]
    generalize s.object.read chunk.size = r
    rcases r with ⟨next, slept, _ | code | bytes⟩
    · simp [isUserRangeCopyable]
    · simp [isUserRangeCopyable]
    · have hcopy : isUserRangeCopyable pages chunk.address 0 = true := by simp [isUserRangeCopyable]
      dsimp only
      by_cases hcopyable : isUserRangeCopyable pages chunk.address bytes.length
      · have hnext : ReadsThrough pages strict true plan next ↔ (readStep pages).Passes strict true
            plan ((s.setObject next).copyOut chunk.address bytes) :=
          @ih true ((s.setObject next).copyOut chunk.address bytes)
        rw [if_pos hcopyable]
        rcases chunkEnd_cases bytes.length chunk.size with ⟨hend, hlt⟩ | ⟨hend, hge⟩
        · simp [hcopyable, hend, hlt]
        · simpa [hcopyable, hend, hge] using fun _ => hnext
      · rw [if_neg hcopyable]
        have hne : bytes ≠ [] := fun hnil => hcopyable (hnil ▸ hcopy)
        simp [hcopyable, hne]

/-- The rounds of a write go through when those of its chunks do. -/
theorem writesThrough_iff : WritesThrough pages s.memory strict started plan s.object ↔
    (writeStep pages).Passes strict started plan s := by
  induction plan generalizing started s with
  | nil => exact Iff.rfl
  | cons chunk plan ih =>
    rw [WritesThrough, passes_cons]
    change _ ↔ (_ → (writeChunk pages chunk.address chunk.size s).slept = false) ∧
      (∀ code, (writeChunk pages chunk.address chunk.size s).outcome = .failed code →
        (writeChunk pages chunk.address chunk.size s).moved = [] ∧ _) ∧
      ((writeChunk pages chunk.address chunk.size s).outcome = .filled →
        (writeStep pages).Passes strict true plan
          (writeChunk pages chunk.address chunk.size s).state)
    rw [writeChunk, finishWrite]
    by_cases hcopyable : isUserRangeCopyable pages chunk.address chunk.size
    · rw [if_pos hcopyable]
      change (_ → (s.object.write (s.copyIn chunk.address chunk.size)).slept = false) ∧
        (_ → _ ∨ ∀ code, (s.object.write (s.copyIn chunk.address chunk.size)).result ≠ _) ∧
        (∀ count, (s.object.write (s.copyIn chunk.address chunk.size)).result = _ → _ →
          WritesThrough pages s.memory strict true plan
            (s.object.write (s.copyIn chunk.address chunk.size)).next) ↔ _
      generalize s.object.write (s.copyIn chunk.address chunk.size) = r
      rcases r with ⟨next, slept, _ | code | count⟩
      · simp [hcopyable]
      · simp [hcopyable]
      · have hnext : WritesThrough pages s.memory strict true plan next ↔
            (writeStep pages).Passes strict true plan (s.setObject next) :=
          @ih true (s.setObject next)
        rcases chunkEnd_cases count chunk.size with ⟨hend, hlt⟩ | ⟨hend, hge⟩
        · simp [hcopyable, hend, hlt]
        · simpa [hcopyable, hend, hge] using fun _ => hnext
    · simp [hcopyable]

/-! ### Places -/

namespace ByteObject

variable {object before : ByteObject} {moved bytes : List UInt8} {count : ℕ}

/-- A read after others, which sleeps only when these have consumed nothing. -/
theorem consumes_append
    (h : ∃ woken, before.Waits woken ∧ woken.Consumes moved object) (count : ℕ)
    (hslept : moved ≠ [] → (object.read count).slept = false) :
    ∃ woken, before.Waits woken ∧
      woken.Consumes (moved ++ (object.read count).bytes) (object.read count).next := by
  obtain ⟨woken, hwaits, hconsumes⟩ := h
  obtain ⟨later, hlater, hsame, hread⟩ := (object.read_delivers count).woken
  by_cases hmoved : moved = []
  · subst hmoved
    obtain ⟨woken', hwaits', hconsumes'⟩ := hconsumes.waits hlater
    exact ⟨woken', hwaits.trans hwaits', hconsumes'.trans hread⟩
  · rw [hsame (hslept hmoved)] at hread
    exact ⟨woken, hwaits, hconsumes.trans hread⟩

/-- A write after others, which sleeps only when nothing was accepted from these. -/
theorem accepts_append
    (h : ∃ woken, before.Waits woken ∧ woken.Accepts moved object) (bytes : List UInt8)
    (hslept : moved ≠ [] → (object.write bytes).slept = false) :
    ∃ woken, before.Waits woken ∧
      woken.Accepts (moved ++ bytes.take (object.write bytes).count) (object.write bytes).next := by
  obtain ⟨woken, hwaits, haccepts⟩ := h
  obtain ⟨later, hlater, hsame, hwrite⟩ := (object.write_takes bytes).woken
  by_cases hmoved : moved = []
  · subst hmoved
    obtain ⟨woken', hwaits', haccepts'⟩ := haccepts.waits hlater
    exact ⟨woken', hwaits.trans hwaits', haccepts'.trans hwrite⟩
  · rw [hsame (hslept hmoved)] at hwrite
    exact ⟨woken, hwaits, haccepts.trans hwrite⟩

end ByteObject

/-- Addresses beyond the bytes make no difference. -/
theorem zip_range_of_length_le {bytes : List UInt8} {size : ℕ} (h : bytes.length ≤ size)
    (address : ℕ) : ((List.range size).map (address + ·)).zip bytes =
      ((List.range bytes.length).map (address + ·)).zip bytes := by
  obtain ⟨rest, rfl⟩ := Nat.exists_eq_add_of_le h
  rw [List.range_add, List.map_append, zip_append_of_length_le (by simp)]

namespace Caller

variable {w : Caller} {call : TransferCall} {placed : List (ℕ × UInt8)}

/-- The places and the bytes of a round, after those before it. -/
theorem map_snd_append {bytes : List UInt8} {size : ℕ} (h : bytes.length ≤ size) (address : ℕ) :
    (placed ++ ((List.range size).map (address + ·)).zip bytes).map Prod.snd =
      placed.map Prod.snd ++ bytes := by
  rw [List.map_append, List.map_snd_zip (by simpa using h)]

theorem readMoves_places (w : Caller) : (readStep w.pages).Places w.ReadMoves := by
  intro placed address size s h hslept hfailed
  have hle := (s.object.read_delivers size).length_le
  change (placed ≠ [] → (readChunk w.pages address size s).slept = false) at hslept
  change ∀ code, (readChunk w.pages address size s).outcome = .failed code →
    (readChunk w.pages address size s).moved = [] at hfailed
  change w.ReadMoves (placed ++ ((List.range size).map (address + ·)).zip
    (readChunk w.pages address size s).moved) (readChunk w.pages address size s).state
  rw [readChunk, finishRead] at hslept hfailed ⊢
  have hwoken := ByteObject.consumes_append h.woken size
  simp only [ne_eq, List.map_eq_nil_iff] at hwoken
  rw [OperationResult.bytes] at hle hwoken
  generalize s.object.read size = r at hle hwoken hslept hfailed ⊢
  rcases r with ⟨next, slept, _ | code | bytes⟩
  · rw [List.zip_nil_right, List.append_nil]
    exact ⟨h.memory_eq, by simpa using hwoken hslept⟩
  · rw [List.zip_nil_right, List.append_nil]
    exact ⟨h.memory_eq, by simpa using hwoken hslept⟩
  · dsimp only at hle hwoken hslept hfailed ⊢
    split_ifs at hslept hfailed ⊢ with hcopyable
    · refine ⟨?_, ?_⟩
      · rw [ByteMemory.storeAll_append, ← h.memory_eq, zip_range_of_length_le hle]
        rfl
      · rw [map_snd_append hle]
        exact hwoken hslept
    · obtain rfl := hfailed _ rfl
      exact absurd (by simp [isUserRangeCopyable]) hcopyable

theorem writeMoves_places (w : Caller) : (writeStep w.pages).Places w.WriteMoves := by
  intro placed address size s h hslept hfailed
  have hle := (s.object.write_takes (s.copyIn address size)).count_le
  change (placed ≠ [] → (writeChunk w.pages address size s).slept = false) at hslept
  change w.WriteMoves (placed ++ ((List.range size).map (address + ·)).zip
    (writeChunk w.pages address size s).moved) (writeChunk w.pages address size s).state
  rw [writeChunk, finishWrite] at hslept ⊢
  have hwoken := ByteObject.accepts_append h.woken (s.copyIn address size)
  simp only [ne_eq, List.map_eq_nil_iff] at hwoken
  rw [OperationResult.count, length_copyIn] at hle
  rw [OperationResult.count] at hwoken
  split_ifs at hslept ⊢ with hcopyable
  · generalize s.object.write (s.copyIn address size) = r at hle hwoken hslept ⊢
    rcases r with ⟨next, slept, _ | code | count⟩
    · rw [List.zip_nil_right, List.append_nil]
      exact ⟨h.memory_eq, h.bytes_eq, by simpa using hwoken hslept⟩
    · rw [List.zip_nil_right, List.append_nil]
      exact ⟨h.memory_eq, h.bytes_eq, by simpa using hwoken hslept⟩
    · dsimp only at hle hwoken hslept ⊢
      refine ⟨h.memory_eq, fun p hp => ?_, ?_⟩
      · rcases List.mem_append.mp hp with hp | hp
        · exact h.bytes_eq p hp
        · obtain ⟨i, hi, hpi⟩ := List.mem_iff_getElem.mp hp
          rw [← hpi, List.getElem_zip]
          simp [TransferState.copyIn, h.memory_eq]
      · rw [map_snd_append (by rw [List.length_take, length_copyIn]; omega)]
        exact hwoken hslept
  · rw [List.zip_nil_right, List.append_nil]
    exact h

/-! ### Calls -/

theorem bufferAddresses_eq (segments : List (ℕ × ℕ)) :
    addressesOf (planOf syscallCopyChunkSize segments) = bufferAddresses segments := by
  induction segments with
  | nil => rfl
  | cons segment segments ih =>
    rw [planOf, addressesOf_append, ih, addressesOf_chunksOf (by decide), bufferAddresses,
      bufferAddresses, List.flatMap_cons]

/-- The rounds of a call go through when those of its chunks do. -/
theorem goesThrough_iff : w.GoesThrough call ↔
    (w.step call).Passes call.isVector false (planOf syscallCopyChunkSize (w.segments call))
      w.state := by
  rw [GoesThrough, step]
  split_ifs
  · exact readsThrough_iff
  · exact writesThrough_iff

/-- The places of the bytes that a call moves. -/
def Moves (w : Caller) (call : TransferCall) (placed : List (ℕ × UInt8)) (s : TransferState) :
    Prop :=
  (call.isRead = true → w.ReadMoves placed s) ∧ (call.isRead = false → w.WriteMoves placed s)

theorem moves_places (w : Caller) (call : TransferCall) : (w.step call).Places (w.Moves call) := by
  intro placed address size s h hslept hfailed
  rw [step] at hslept hfailed ⊢
  split_ifs at hslept hfailed ⊢ with hread
  · exact ⟨fun _ => w.readMoves_places placed address size s (h.1 hread) hslept hfailed,
      fun hnot => absurd hread (by simp [hnot])⟩
  · exact ⟨fun hyes => absurd hyes hread, fun hnot =>
      w.writeMoves_places placed address size s (h.2 hnot) hslept hfailed⟩

theorem moves_start (w : Caller) (call : TransferCall) : w.Moves call [] w.state :=
  ⟨fun _ => ⟨rfl, _, .refl _, .refl _⟩, fun _ => ⟨rfl, by simp, _, .refl _, .refl _⟩⟩

/-- A call that does not look at its object returns 0 or an error. -/
theorem refusal_nonpos {accessFlags : FileFlags} {code : ℤ}
    (h : call.refusal accessFlags = some code) : code ≤ 0 := by
  have hcodes : TransferError.efault ≤ 0 ∧ TransferError.ebadf ≤ 0 ∧ TransferError.einval ≤ 0 := by
    decide
  cases call <;> simp only [TransferCall.refusal] at h <;> split_ifs at h <;>
    obtain rfl := Option.some.inj h <;> omega

/-- What is known of the outcome of a call with these buffers: it is exact when the rounds go
through, and then the bytes are at their places. -/
structure Settles (w : Caller) (call : TransferCall) (segments : List (ℕ × ℕ))
    (outcome : TransferOutcome) : Prop where
  exact_iff : outcome.2.Exact outcome.1 ↔ (w.step call).Passes call.isVector false
    (planOf syscallCopyChunkSize segments) w.state
  places : (w.step call).Passes call.isVector false (planOf syscallCopyChunkSize segments) w.state →
    outcome.2.moved.length ≤ (bufferAddresses segments).length ∧
      w.Moves call ((bufferAddresses segments).zip outcome.2.moved) outcome.2.state

theorem settles_refused {code : ℤ} (hcode : code ≤ 0) :
    Settles w call [] (some code, w.start) where
  exact_iff := by
    refine ⟨fun _ => trivial, fun _ => ⟨rfl, fun n hn => ?_, fun _ _ _ => rfl⟩⟩
    obtain rfl : code = n := Option.some.inj hn
    exact (Nat.le_zero.mp (by exact_mod_cast hcode)).symm
  places := fun _ => ⟨Nat.zero_le _, moves_start w call⟩

theorem settles_transferBuffer (hvector : call.isVector = false) (buffer count : ℕ) :
    Settles w call [(buffer, count)] (w.transferBuffer (w.step call) buffer count) := by
  have hplan : planOf syscallCopyChunkSize [(buffer, count)] =
      chunksOf syscallCopyChunkSize buffer count true := List.append_nil _
  refine ⟨?_, fun hpasses => ?_⟩
  · rw [hplan, hvector]
    exact (w.step call).exact_transferSegment_iff (by decide) buffer count w.state
  · rw [hplan] at hpasses
    obtain ⟨m, hmoved, hlength, hplaced⟩ := (w.moves_places call).transferSegment (by decide) buffer
      count 0 w.start (moves_start w call) (by simp) hpasses
    rw [addressesOf_chunksOf (by decide), List.nil_append] at hplaced
    obtain rfl : (w.transferBuffer (w.step call) buffer count).2.moved = m := hmoved
    rw [bufferAddresses, List.flatMap_singleton]
    exact ⟨by simpa using hlength, hplaced⟩

theorem iovecEntry_error_neg {iov index : ℕ} {code : ℤ}
    (h : iovecEntry w.pages iov index s = .error code) : code < 0 := by
  rw [iovecEntry] at h
  split_ifs at h <;> obtain rfl := Except.error.inj h <;> decide

theorem settles_transferVector (hvector : call.isVector = true) {iov iovCount : ℕ}
    (hcount : iovCount ≤ iovCountMax) :
    Settles w call ((w.step call).segmentsRead syscallCopyChunkSize
        (iovecEntries w.pages iov iovCount) w.state)
      (w.transferVector (w.step call) iov iovCount) := by
  have hlimit : (w.step call).limit = 2 ^ 47 := by
    rw [step]
    split_ifs <;> rfl
  have hlength : (iovecEntries w.pages iov iovCount).length = iovCount := by
    rw [iovecEntries, List.length_map, List.length_range]
  have hbound : 0 + (iovecEntries w.pages iov iovCount).length * (w.step call).limit ≤
      2 ^ 64 - 1 := by
    rw [hlength, hlimit, Nat.zero_add]
    exact (Nat.mul_le_mul_right _ hcount).trans (by decide)
  have hend : ∀ code ∈ (w.step call).errorRead syscallCopyChunkSize
      (iovecEntries w.pages iov iovCount) w.state, code < 0 := by
    refine (w.step call).errorRead_neg (fun entry hentry s code hcode => ?_) w.state
    obtain ⟨index, -, rfl⟩ := List.mem_map.mp hentry
    exact iovecEntry_error_neg hcode
  rw [transferVector, (w.step call).transferTable_eq (by decide) _ 0 w.start hbound,
    show w.start.state = w.state from rfl]
  refine ⟨?_, fun hpasses => ?_⟩
  · rw [hvector]
    exact (w.step call).exact_transferSegments_iff (by decide) hend _ 0 w.start rfl rfl
  · obtain ⟨m, hmoved, hle, hplaced⟩ := (w.moves_places call).transferSegments (by decide)
      ((w.step call).errorRead syscallCopyChunkSize (iovecEntries w.pages iov iovCount) w.state) _ 0
      w.start (moves_start w call) (by simp) hpasses
    rw [bufferAddresses_eq] at hle hplaced
    rw [hmoved]
    exact ⟨hle, hplaced⟩

theorem settles (w : Caller) (call : TransferCall) :
    Settles w call (w.segments call) (w.run call) := by
  rcases hrefusal : call.refusal w.accessFlags with _ | code
  · cases call with
    | read buffer count =>
      unfold run segments
      rw [hrefusal]
      exact settles_transferBuffer rfl buffer count
    | write buffer count =>
      unfold run segments
      rw [hrefusal]
      exact settles_transferBuffer rfl buffer count
    | readv iov iovCount =>
      unfold run segments
      rw [hrefusal]
      refine settles_transferVector rfl (Nat.le_of_not_lt fun hlt => ?_)
      simp [TransferCall.refusal, hlt] at hrefusal
    | writev iov iovCount =>
      unfold run segments
      rw [hrefusal]
      refine settles_transferVector rfl (Nat.le_of_not_lt fun hlt => ?_)
      simp [TransferCall.refusal, hlt] at hrefusal
  · unfold run segments
    rw [hrefusal]
    exact settles_refused (refusal_nonpos hrefusal)

/-- A call transfers exactly what it reports if and only if its rounds go through: for every caller,
every object behind the descriptor, and `read`, `write`, `readv` and `writev` with any buffers. -/
theorem transfersExactly_iff (w : Caller) (call : TransferCall) :
    w.TransfersExactly call ↔ w.GoesThrough call := by
  rw [goesThrough_iff]
  constructor
  · exact fun h => (w.settles call).exact_iff.mp h.exact
  · intro hpasses
    obtain ⟨hlength, hmoves⟩ := (w.settles call).places hpasses
    exact ⟨(w.settles call).exact_iff.mpr hpasses, hlength, hmoves.1, hmoves.2⟩

/-! ### A read that loses a byte -/

/-- A process without mapped pages, and the read end of a pipe with one byte. -/
def unmappedReader : Caller where
  pages := fun _ => false
  accessFlags := .read
  state :=
    { memory := fun _ => 0
      object := .pipe
        { isReadEnd := true
          nonblock := true
          pipe :=
            { buffer :=
                { cells := fun _ => 7
                  readOffset := 0
                  writeOffset := 1
                  buffered := 1
                  readOffset_lt := by decide
                  buffered_le := by decide
                  writeOffset_eq := by decide }
              readerReferenceCount := 1
              writerReferenceCount := 1 } } }

/-- The byte is gone, and the read returns an error. -/
theorem not_transfersExactly : ¬∀ (w : Caller) (call : TransferCall), w.TransfersExactly call := by
  intro h
  have hfails : (readChunk unmappedReader.pages 4096 1 unmappedReader.state).outcome =
      .failed (-14) := by decide +kernel
  have hmoved : (readChunk unmappedReader.pages 4096 1 unmappedReader.state).moved = [7] := by
    decide +kernel
  have hsegment : (readStep unmappedReader.pages).transferSegment syscallCopyChunkSize 4096 1 0
      unmappedReader.start = (.failed (-14) 0, unmappedReader.start.apply
        (readChunk unmappedReader.pages 4096 1 unmappedReader.state)) :=
    transferSegment_of_failed _ (by decide) hfails
  have hrun : unmappedReader.run (.read 4096 1) =
      unmappedReader.transferBuffer (readStep unmappedReader.pages) 4096 1 := rfl
  have hexact := (h unmappedReader (.read 4096 1)).exact
  rw [hrun, transferBuffer, hsegment] at hexact
  have hnil := hexact.moved_eq (-14) (by decide) (by decide)
  rw [Transfer.apply_moved, hmoved] at hnil
  exact absurd hnil (by simp)

end Caller

end TwistedOS
