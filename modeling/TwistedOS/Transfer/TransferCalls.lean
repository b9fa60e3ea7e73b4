import TwistedOS.Data.ByteMemory
import TwistedOS.Data.ChunkedTransfer
import TwistedOS.Epoll.EventQueues
import TwistedOS.Transfer.ByteObjects

/-!
# System calls that read and write

The handlers of `read`, `write`, `readv` and `writev`. The bytes go through a kernel buffer of
`SYSCALL_COPY_CHUNK_SIZE` bytes: a read takes a chunk from the object and then copies it to the
memory of the caller, and a write copies a chunk from the memory of the caller and then offers it to
the object. Both copies may fail. The array of `readv` and `writev` is read one entry at a
time, when the segment before it is finished.

The calls are those of a process that has an open file at the descriptor.

## Main definitions

* `isUserRangeCopyable` — the checks of `CopyFromUserToKernel` and `CopyFromKernelToUser`.
* `readStep`, `writeStep` — what the loops do with one chunk.
* `Caller`, `TransferCall`, `Caller.run`.
-/

namespace TwistedOS

/-- `SYSCALL_COPY_CHUNK_SIZE`. -/
def syscallCopyChunkSize : ℕ := 4096

/-- `SYSCALL_IOV_MAX`, as a number of entries. -/
def iovCountMax : ℕ := 1024

/-- The end of the lower canonical addresses. -/
def lowerCanonicalEnd : ℕ := 2 ^ 47

/-- `CopyFromUserToKernel` and `CopyFromKernelToUser` accept a range. `pages` tells which pages are
mapped for the user; the ranges that the process has recorded make no difference, since the page
tables are looked at in any case. -/
def isUserRangeCopyable (pages : ℕ → Bool) (address count : ℕ) : Bool :=
  decide (count = 0) ||
    (decide (address ≠ 0 ∧ address + count ≤ lowerCanonicalEnd) &&
      (List.range' (address / pageSize)
        ((address + count - 1) / pageSize - address / pageSize + 1)).all pages)

/-- The object of a file, and the memory of the process. -/
structure TransferState where
  object : ByteObject
  memory : ByteMemory

namespace TransferState

variable (s : TransferState)

/-- Replaces the object. -/
def setObject (object : ByteObject) : TransferState := { s with object := object }

/-- The bytes that `CopyFromUserToKernel` gets. -/
def copyIn (address count : ℕ) : List UInt8 :=
  (List.range count).map fun i => s.memory (address + i)

/-- The bytes that `CopyFromKernelToUser` leaves. -/
def copyOut (address : ℕ) (bytes : List UInt8) : TransferState :=
  { s with
    memory := s.memory.storeAll (((List.range bytes.length).map (address + ·)).zip bytes) }

end TransferState

@[simp] theorem TransferState.setObject_object {s : TransferState} (object : ByteObject) :
    (s.setObject object).object = object := rfl

@[simp] theorem TransferState.setObject_memory {s : TransferState} (object : ByteObject) :
    (s.setObject object).memory = s.memory := rfl

/-- The end of a chunk of which `count` bytes have been transferred. -/
def chunkEnd (count size : ℕ) : ChunkEnd := if count < size then .ended else .filled

/-- The end of a round in which the object has been read. -/
def finishRead (pages : ℕ → Bool) (address size : ℕ) (s : TransferState)
    (r : OperationResult ByteObject (List UInt8)) : ChunkResult TransferState UInt8 :=
  match r.result with
  | none => ⟨s.setObject r.next, r.slept, [], .asleep⟩
  | some (.error code) => ⟨s.setObject r.next, r.slept, [], .failed code⟩
  | some (.ok bytes) =>
    if isUserRangeCopyable pages address bytes.length then
      ⟨(s.setObject r.next).copyOut address bytes, r.slept, bytes, chunkEnd bytes.length size⟩
    else ⟨s.setObject r.next, r.slept, bytes, .failed TransferError.efault⟩

/-- One round of the loops of `HandleReadSystemCall` and `HandleReadvSystemCall`. -/
def readChunk (pages : ℕ → Bool) (address size : ℕ) (s : TransferState) :
    ChunkResult TransferState UInt8 :=
  finishRead pages address size s (s.object.read size)

/-- The end of a round in which bytes have been offered to the object. -/
def finishWrite (size : ℕ) (s : TransferState) (bytes : List UInt8)
    (r : OperationResult ByteObject ℕ) : ChunkResult TransferState UInt8 :=
  match r.result with
  | none => ⟨s.setObject r.next, r.slept, [], .asleep⟩
  | some (.error code) => ⟨s.setObject r.next, r.slept, [], .failed code⟩
  | some (.ok count) => ⟨s.setObject r.next, r.slept, bytes.take count, chunkEnd count size⟩

/-- One round of the loops of `HandleWriteSystemCall` and `HandleWritevSystemCall`. -/
def writeChunk (pages : ℕ → Bool) (address size : ℕ) (s : TransferState) :
    ChunkResult TransferState UInt8 :=
  if isUserRangeCopyable pages address size then
    finishWrite size s (s.copyIn address size) (s.object.write (s.copyIn address size))
  else ⟨s, false, [], .failed TransferError.efault⟩

variable {pages : ℕ → Bool} {address size count : ℕ} {s : TransferState}

theorem le_of_isUserRangeCopyable (h : isUserRangeCopyable pages address count)
    (hpos : count ≠ 0) : address + count ≤ lowerCanonicalEnd := by
  rw [isUserRangeCopyable, decide_eq_false hpos, Bool.false_or, Bool.and_eq_true,
    decide_eq_true_eq] at h
  exact h.1.2

theorem chunkEnd_cases (count size : ℕ) : chunkEnd count size = .ended ∧ count < size ∨
    chunkEnd count size = .filled ∧ size ≤ count := by
  rw [chunkEnd]
  split_ifs with h
  · exact .inl ⟨rfl, h⟩
  · exact .inr ⟨rfl, Nat.le_of_not_lt h⟩

/-- What is known of a round of the loops in any case. -/
structure ChunkFacts (address size : ℕ) (r : ChunkResult TransferState UInt8) : Prop where
  moved_asleep : r.outcome = .asleep → r.moved = []
  failed_neg : ∀ code, r.outcome = .failed code → code < 0
  length_filled : r.outcome = .filled → r.moved.length = size
  length_ended : r.outcome = .ended → r.moved.length < size
  le_limit : r.outcome = .filled ∨ r.outcome = .ended → r.moved ≠ [] →
    address + r.moved.length ≤ lowerCanonicalEnd

theorem ChunkFacts.of_asleep (next : TransferState) (slept : Bool) :
    ChunkFacts address size ⟨next, slept, [], .asleep⟩ :=
  ⟨fun _ => rfl, by simp, by simp, by simp, by simp⟩

theorem ChunkFacts.of_failed (next : TransferState) (slept : Bool) (bytes : List UInt8) {code : ℤ}
    (hcode : code < 0) : ChunkFacts address size ⟨next, slept, bytes, .failed code⟩ :=
  ⟨by simp, by simpa using hcode, by simp, by simp, by simp⟩

/-- A round that ends with bytes, at addresses that can be reached. -/
theorem ChunkFacts.of_chunkEnd (next : TransferState) (slept : Bool) {bytes : List UInt8}
    (hle : bytes.length ≤ size)
    (hlimit : bytes ≠ [] → address + bytes.length ≤ lowerCanonicalEnd) :
    ChunkFacts address size ⟨next, slept, bytes, chunkEnd bytes.length size⟩ := by
  rcases chunkEnd_cases bytes.length size with ⟨hend, hlt⟩ | ⟨hend, hge⟩ <;> rw [hend]
  · exact ⟨by simp, by simp, by simp, fun _ => hlt, fun _ => hlimit⟩
  · exact ⟨by simp, by simp, fun _ => Nat.le_antisymm hle hge, by simp, fun _ => hlimit⟩

theorem readChunk_facts (pages : ℕ → Bool) (address size : ℕ) (s : TransferState) :
    ChunkFacts address size (readChunk pages address size s) := by
  have hle := (s.object.read_delivers size).length_le
  have hneg := (s.object.read_delivers size).error_neg
  rw [readChunk, finishRead]
  rw [OperationResult.bytes] at hle
  generalize s.object.read size = r at hle hneg
  rcases r with ⟨next, slept, _ | code | bytes⟩
  · exact .of_asleep _ _
  · exact .of_failed _ _ _ (hneg code rfl)
  · dsimp only at hle ⊢
    split_ifs with hcopyable
    · exact .of_chunkEnd _ _ hle fun hne =>
        le_of_isUserRangeCopyable hcopyable (List.length_pos_iff.mpr hne).ne'
    · exact .of_failed _ _ _ (by decide)

@[simp] theorem length_copyIn : (s.copyIn address size).length = size := by
  rw [TransferState.copyIn, List.length_map, List.length_range]

theorem writeChunk_facts (pages : ℕ → Bool) (address size : ℕ) (s : TransferState) :
    ChunkFacts address size (writeChunk pages address size s) := by
  have hle := (s.object.write_takes (s.copyIn address size)).count_le
  have hneg := (s.object.write_takes (s.copyIn address size)).error_neg
  rw [writeChunk, finishWrite]
  rw [OperationResult.count, length_copyIn] at hle
  split_ifs with hcopyable
  · generalize s.object.write (s.copyIn address size) = r at hle hneg
    rcases r with ⟨next, slept, _ | code | count⟩
    · exact .of_asleep _ _
    · exact .of_failed _ _ _ (hneg code rfl)
    · dsimp only at hle ⊢
      have hlength : ((s.copyIn address size).take count).length = count := by
        rw [List.length_take, length_copyIn, Nat.min_eq_left hle]
      have hlimit : (s.copyIn address size).take count ≠ [] →
          address + ((s.copyIn address size).take count).length ≤ lowerCanonicalEnd := by
        intro hne
        have hpos := List.length_pos_iff.mpr hne
        have := le_of_isUserRangeCopyable hcopyable (by omega)
        omega
      have hfacts := ChunkFacts.of_chunkEnd (s.setObject next) slept (hlength.trans_le hle) hlimit
      rwa [hlength] at hfacts
  · exact .of_failed _ _ _ (by decide)

/-- The rounds of a read. -/
def readStep (pages : ℕ → Bool) : ChunkStep TransferState UInt8 where
  run := readChunk pages
  limit := lowerCanonicalEnd
  moved_asleep address size s := (readChunk_facts pages address size s).moved_asleep
  failed_neg address size s := (readChunk_facts pages address size s).failed_neg
  length_filled address size s := (readChunk_facts pages address size s).length_filled
  length_ended address size s := (readChunk_facts pages address size s).length_ended
  le_limit address size s := (readChunk_facts pages address size s).le_limit

/-- The rounds of a write. -/
def writeStep (pages : ℕ → Bool) : ChunkStep TransferState UInt8 where
  run := writeChunk pages
  limit := lowerCanonicalEnd
  moved_asleep address size s := (writeChunk_facts pages address size s).moved_asleep
  failed_neg address size s := (writeChunk_facts pages address size s).failed_neg
  length_filled address size s := (writeChunk_facts pages address size s).length_filled
  length_ended address size s := (writeChunk_facts pages address size s).length_ended
  le_limit address size s := (writeChunk_facts pages address size s).le_limit

/-! ### The calls -/

/-- A process and its open file: the pages that are mapped for the user, the memory, and the access
flags and the object of the file. -/
structure Caller where
  pages : ℕ → Bool
  state : TransferState
  accessFlags : FileFlags

/-- The result of a call, or `none` while the caller sleeps, with what was transferred. -/
abbrev TransferOutcome := Option ℤ × Transfer TransferState UInt8

/-- `read`, `write`, `readv` and `writev`, with the arguments after the descriptor. -/
inductive TransferCall
  | read (buffer count : ℕ)
  | write (buffer count : ℕ)
  | readv (iov iovCount : ℕ)
  | writev (iov iovCount : ℕ)
  deriving DecidableEq, Repr

/-- The size of a `LinuxIOVec`. -/
def iovecSize : ℕ := 16

/-- The segment of an entry of the array. The sums of addresses do not overflow, since an entry that
is beyond the user memory ends the call. -/
def iovecEntry (pages : ℕ → Bool) (iov index : ℕ) (s : TransferState) : Except ℤ (ℕ × ℕ) :=
  let entry := iov + index * iovecSize
  if !isUserRangeCopyable pages entry iovecSize then .error TransferError.efault
  else if s.memory.load (entry + 8) 8 ≠ 0 ∧ s.memory.load entry 8 = 0 then
    .error TransferError.efault
  else .ok (s.memory.load entry 8, s.memory.load (entry + 8) 8)

/-- The entries of the array. -/
def iovecEntries (pages : ℕ → Bool) (iov iovCount : ℕ) :
    List (TransferState → Except ℤ (ℕ × ℕ)) :=
  (List.range iovCount).map (iovecEntry pages iov)

namespace TransferCall

/-- The call reads from the object. -/
def isRead : TransferCall → Bool
  | read .. => true
  | readv .. => true
  | write .. => false
  | writev .. => false

/-- The access flags that a call refuses. -/
def refusedFlags (call : TransferCall) : FileFlags := if call.isRead then .write else .read

/-- What a call returns before it looks at the object. The number of entries is checked before the
file, the number of bytes after it. -/
def refusal (accessFlags : FileFlags) (call : TransferCall) : Option ℤ :=
  match call with
  | read buffer count | write buffer count =>
    if buffer = 0 ∧ count ≠ 0 then some TransferError.efault
    else if accessFlags = call.refusedFlags then some TransferError.ebadf
    else if count = 0 then some 0
    else none
  | readv iov iovCount =>
    if iovCountMax < iovCount then some TransferError.einval
    else if iovCount = 0 then some 0
    else if iov = 0 then some TransferError.efault
    else if accessFlags = call.refusedFlags then some TransferError.ebadf
    else none
  | writev iov iovCount =>
    if iovCount = 0 ∨ iovCountMax < iovCount then some TransferError.einval
    else if iov = 0 then some TransferError.efault
    else if accessFlags = call.refusedFlags then some TransferError.ebadf
    else none

end TransferCall

namespace Caller

variable (w : Caller)

/-- The rounds of the loops of a call. -/
def step (call : TransferCall) : ChunkStep TransferState UInt8 :=
  if call.isRead then readStep w.pages else writeStep w.pages

/-- The transfer before anything is moved. -/
def start : Transfer TransferState UInt8 where
  state := w.state

/-- The loops of `HandleReadSystemCall` and `HandleWriteSystemCall`. -/
def transferBuffer (step : ChunkStep TransferState UInt8) (buffer count : ℕ) : TransferOutcome :=
  (ChunkStep.result
      (step.transferSegment syscallCopyChunkSize buffer count 0 w.start).1,
    (step.transferSegment syscallCopyChunkSize buffer count 0 w.start).2)

/-- The loops of `HandleReadvSystemCall` and `HandleWritevSystemCall`. -/
def transferVector (step : ChunkStep TransferState UInt8) (iov iovCount : ℕ) : TransferOutcome :=
  step.transferTable syscallCopyChunkSize (2 ^ 64 - 1) TransferError.einval
    (iovecEntries w.pages iov iovCount) 0 w.start

/-- `HandleReadSystemCall`, `HandleWriteSystemCall`, `HandleReadvSystemCall` and
`HandleWritevSystemCall`. -/
def run (call : TransferCall) : TransferOutcome :=
  match call.refusal w.accessFlags, call with
  | some result, _ => (some result, w.start)
  | none, .read buffer count | none, .write buffer count =>
    w.transferBuffer (w.step call) buffer count
  | none, .readv iov iovCount | none, .writev iov iovCount =>
    w.transferVector (w.step call) iov iovCount

end Caller

end TwistedOS
