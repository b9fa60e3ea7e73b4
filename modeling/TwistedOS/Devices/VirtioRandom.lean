import Mathlib.Data.List.Flatten
import Mathlib.Logic.Function.Basic
import Mathlib.Tactic.SplitIfs
import TwistedOS.KernelParameters

/-!
# The random number device

`VirtioRandom` asks a virtio device for random bytes through a queue in two pages: a descriptor
table, a ring of available descriptors, a ring of used ones, and the buffer that the device fills.
Every request uses the first descriptor and the same buffer. The driver waits for the used index to
move, up to a number of rounds; a request that it gives up stays with the device.

A run interleaves the steps of the driver with completions of the device, which serves the available
descriptors in order. Every byte carries the number of the request that it was written for.

## Main definitions

* `setupQueue`, `VirtioLayout.Fits`: the layout of the queue.
* `VirtioRun`, with the steps `VirtioRun.call`, `VirtioRun.advance` of the driver and
  `VirtioRun.complete` of the device.
* `VirtioRun.Fresh`, `VirtioRun.Allowed`.

## Main results

* `fits_of_setupQueue`
* `VirtioRun.Orderly.apply`: what a step of an allowed run keeps.
* `VirtioRun.virtioRandom_run`
* `VirtioRun.not_fresh_lateCompletion`: what happens behind a request that was given up.
-/

namespace TwistedOS

/-! ### The queue in memory -/

/-- `VIRTIO_LEGACY_VRING_ALIGN`. -/
def virtioLegacyVringAlign : ℕ := 4096

/-- `VIRTIO_QUEUE_MEMORY_PAGES`. -/
def virtioQueueMemoryPages : ℕ := 2

/-- `VIRTIO_MAX_RANDOM_CHUNK`. -/
def virtioMaxRandomChunk : ℕ := 256

/-- `VIRTQ_DESC_F_WRITE`. -/
def virtqDescFWrite : ℕ := 2

/-- The rounds for which the driver waits. -/
def virtioSpinLimit : ℕ := 10000000

/-- `AlignUpTo`. -/
def alignUpTo (value alignment : ℕ) : ℕ :=
  if alignment = 0 then value
  else if value % alignment = 0 then value
  else u32 (value + (alignment - value % alignment))

/-- The size of a descriptor table. -/
def descriptorBytes (queueSize : ℕ) : ℕ := u32 (16 * queueSize)

/-- The size of a ring of available descriptors. -/
def availableBytes (queueSize : ℕ) : ℕ := u32 (4 + 2 * queueSize + 2)

/-- The size of a ring of used descriptors. -/
def usedBytes (queueSize : ℕ) : ℕ := u32 (4 + 8 * queueSize + 2)

/-- Where the parts of a queue are, as offsets into its pages. -/
structure VirtioLayout where
  queueSize : UInt16
  queueMemoryPhysical : ℕ
  availableOffset : ℕ
  usedOffset : ℕ
  dataOffset : ℕ
  deriving DecidableEq, Repr

/-- The offsets that `SetupQueue` computes. -/
def VirtioLayout.ofSize (deviceQueueSize : UInt16) (queueMemoryPhysical : ℕ) : VirtioLayout :=
  let queueSize := deviceQueueSize.toNat
  let availableOffset := descriptorBytes queueSize
  let usedOffset :=
    alignUpTo (u32 (availableOffset + availableBytes queueSize)) virtioLegacyVringAlign
  { queueSize := deviceQueueSize
    queueMemoryPhysical := queueMemoryPhysical
    availableOffset := availableOffset
    usedOffset := usedOffset
    dataOffset := alignUpTo (u32 (usedOffset + usedBytes queueSize)) 16 }

/-- `SetupQueue`, for the size that the device reports and the pages that are allocated, if any. -/
def setupQueue (deviceQueueSize : UInt16) (queueMemory : Option ℕ) : Option VirtioLayout :=
  if deviceQueueSize = 0 then none
  else
    queueMemory.bind fun queueMemoryPhysical =>
      if 0xFFFFFFFF < queueMemoryPhysical >>> 12 then none
      else
        let layout := VirtioLayout.ofSize deviceQueueSize queueMemoryPhysical
        if pageSize * virtioQueueMemoryPages < u32 (layout.dataOffset + virtioMaxRandomChunk) then
          none
        else some layout

/-- The descriptor table, the two rings with the words around their entries, and the buffer come one
after the other inside the pages, and every index reaches an entry. -/
structure VirtioLayout.Fits (layout : VirtioLayout) : Prop where
  index_lt : ∀ index : UInt16, index.toNat % layout.queueSize.toNat < layout.queueSize.toNat
  descriptors_le : 16 * layout.queueSize.toNat ≤ layout.availableOffset
  available_le : layout.availableOffset + (4 + 2 * layout.queueSize.toNat + 2) ≤ layout.usedOffset
  used_le : layout.usedOffset + (4 + 8 * layout.queueSize.toNat + 2) ≤ layout.dataOffset
  data_le : layout.dataOffset + virtioMaxRandomChunk ≤ pageSize * virtioQueueMemoryPages

theorem le_alignUpTo (value alignment : ℕ) (h : value + alignment < 2 ^ 32) :
    value ≤ alignUpTo value alignment ∧ alignUpTo value alignment ≤ value + alignment := by
  rw [alignUpTo]
  split_ifs with hzero hmod
  · omega
  · omega
  · have hlt := Nat.mod_lt value (Nat.pos_of_ne_zero hzero)
    rw [u32_of_lt (by omega)]
    omega

/-- The parts of a queue of any size follow each other, below an offset that fits 32 bits. -/
theorem VirtioLayout.ofSize_parts (deviceQueueSize : UInt16) (queueMemoryPhysical : ℕ) :
    (ofSize deviceQueueSize queueMemoryPhysical).availableOffset = 16 * deviceQueueSize.toNat ∧
    (ofSize deviceQueueSize queueMemoryPhysical).availableOffset + 6 + 2 * deviceQueueSize.toNat ≤
      (ofSize deviceQueueSize queueMemoryPhysical).usedOffset ∧
    (ofSize deviceQueueSize queueMemoryPhysical).usedOffset + 6 + 8 * deviceQueueSize.toNat ≤
      (ofSize deviceQueueSize queueMemoryPhysical).dataOffset ∧
    (ofSize deviceQueueSize queueMemoryPhysical).dataOffset + virtioMaxRandomChunk < 2 ^ 32 := by
  have hsize := deviceQueueSize.toNat_lt
  have halign : virtioLegacyVringAlign = 4096 := rfl
  have hchunk : virtioMaxRandomChunk = 256 := rfl
  have hdescriptor : descriptorBytes deviceQueueSize.toNat = 16 * deviceQueueSize.toNat :=
    u32_of_lt (by omega)
  have havailable : availableBytes deviceQueueSize.toNat = 4 + 2 * deviceQueueSize.toNat + 2 :=
    u32_of_lt (by omega)
  have hused : usedBytes deviceQueueSize.toNat = 4 + 8 * deviceQueueSize.toNat + 2 :=
    u32_of_lt (by omega)
  have hrings : u32 (descriptorBytes deviceQueueSize.toNat + availableBytes deviceQueueSize.toNat) =
      18 * deviceQueueSize.toNat + 6 := by
    rw [hdescriptor, havailable, u32_of_lt (by omega)]
    omega
  have husedOffset := le_alignUpTo (18 * deviceQueueSize.toNat + 6) virtioLegacyVringAlign (by omega)
  have hdata : u32 (alignUpTo (18 * deviceQueueSize.toNat + 6) virtioLegacyVringAlign +
      usedBytes deviceQueueSize.toNat) =
      alignUpTo (18 * deviceQueueSize.toNat + 6) virtioLegacyVringAlign +
        (4 + 8 * deviceQueueSize.toNat + 2) := by
    rw [hused, u32_of_lt (by omega)]
  have hdataOffset := le_alignUpTo
    (alignUpTo (18 * deviceQueueSize.toNat + 6) virtioLegacyVringAlign +
      (4 + 8 * deviceQueueSize.toNat + 2)) 16 (by omega)
  simp only [ofSize, hrings, hdata]
  omega

/-- A queue that is set up lies in its pages, and its parts do not overlap. -/
theorem fits_of_setupQueue {deviceQueueSize : UInt16} {queueMemory : Option ℕ}
    {layout : VirtioLayout} (h : setupQueue deviceQueueSize queueMemory = some layout) :
    layout.Fits := by
  rw [setupQueue] at h
  split_ifs at h with hzero
  obtain ⟨queueMemoryPhysical, -, h⟩ := Option.bind_eq_some_iff.mp h
  split_ifs at h with hhigh
  dsimp only at h
  split_ifs at h with hlarge
  obtain rfl := Option.some.inj h
  obtain ⟨hdescriptor, havailable, hused, hfits⟩ :=
    VirtioLayout.ofSize_parts deviceQueueSize queueMemoryPhysical
  have hpos : 0 < deviceQueueSize.toNat :=
    Nat.pos_of_ne_zero fun hnull => hzero (UInt16.toNat_inj.mp hnull)
  rw [u32_of_lt hfits, Nat.not_lt] at hlarge
  have hsize : (VirtioLayout.ofSize deviceQueueSize queueMemoryPhysical).queueSize.toNat =
      deviceQueueSize.toNat := rfl
  exact ⟨fun index => Nat.mod_lt _ hpos, by omega, by omega, by omega, hlarge⟩

/-! ### Runs -/

/-- `VirtQueueDescriptor`. -/
structure VirtQueueDescriptor where
  address : ℕ
  length : ℕ
  flags : ℕ
  next : ℕ
  deriving DecidableEq, Repr

/-- `VirtQueueUsedElement`. -/
structure VirtQueueUsedElement where
  id : ℕ
  length : ℕ
  deriving DecidableEq, Repr

/-- A byte that the device wrote: the request that it is for, its place in the request, its
value. -/
structure EntropyByte where
  request : ℕ
  position : ℕ
  value : UInt8
  deriving DecidableEq, Repr

/-- Where a call of `GetRandomBytes` is: before a request is described, before it is made available,
in a round of the wait, behind the wait, and in the copy of what the device delivered. -/
inductive RandomPhase
  | describing
  | publishing
  | spinning (spinCount : ℕ)
  | consuming
  | copying (copied bytesToCopy : ℕ)
  deriving DecidableEq, Repr

/-- A call of `GetRandomBytes` that has not returned: what it was asked for, what is left, and what
it stored. A byte that the device never wrote is none. -/
structure RandomCall where
  count : ℕ
  remaining : ℕ
  stored : List (Option EntropyByte)
  firstRequest : ℕ
  phase : RandomPhase
  deriving DecidableEq, Repr

/-- `ChunkSize`. -/
def RandomCall.chunkSize (call : RandomCall) : ℕ :=
  if virtioMaxRandomChunk < call.remaining then virtioMaxRandomChunk else call.remaining

theorem RandomCall.chunkSize_le (call : RandomCall) : call.chunkSize ≤ call.remaining := by
  rw [RandomCall.chunkSize]
  split_ifs <;> omega

/-- A call that has returned, with the number of the first request that was its own, and of the
first one that was not any more. -/
structure RandomReturn where
  result : Bool
  count : ℕ
  stored : List (Option EntropyByte)
  firstRequest : ℕ
  endRequest : ℕ
  deriving DecidableEq, Repr

/-- The driver after `Initialize`, the queue, and the device. `memory` has the bytes that the device
wrote, by their addresses. -/
structure VirtioRun where
  layout : VirtioLayout
  lastUsedIndex : UInt16
  descriptorTable : ℕ → VirtQueueDescriptor
  availableRing : ℕ → ℕ
  availableIndex : UInt16
  usedRing : ℕ → VirtQueueUsedElement
  usedIndex : UInt16
  memory : ℕ → Option EntropyByte
  /-- The next available descriptor for the device. -/
  deviceIndex : UInt16
  call : Option RandomCall
  returns : List RandomReturn
  /-- The numbers of requests that were made available, and that were completed. -/
  submitted : ℕ
  completed : ℕ

/-- A step of a run. -/
inductive VirtioStep
  | call (bufferIsNull : Bool) (count : ℕ)
  | advance
  | complete (values : List UInt8)
  deriving DecidableEq, Repr

namespace VirtioRun

variable (s : VirtioRun)

/-- After `SetupQueue` has cleared the pages. -/
def start (layout : VirtioLayout) : VirtioRun where
  layout := layout
  lastUsedIndex := 0
  descriptorTable := fun _ => ⟨0, 0, 0, 0⟩
  availableRing := fun _ => 0
  availableIndex := 0
  usedRing := fun _ => ⟨0, 0⟩
  usedIndex := 0
  memory := fun _ => none
  deviceIndex := 0
  call := none
  returns := []
  submitted := 0
  completed := 0

/-- `EntropyBufferPhys`. -/
def entropyBuffer : ℕ := s.layout.queueMemoryPhysical + s.layout.dataOffset

/-- The place in a ring that an index reaches. -/
def place (index : UInt16) : ℕ := index.toNat % s.layout.queueSize.toNat

/-- The call returns. -/
def finish (call : RandomCall) (result : Bool) : VirtioRun :=
  { s with
    call := none
    returns := s.returns ++
      [⟨result, call.count, call.stored, call.firstRequest, s.submitted⟩] }

/-- The call goes on in a phase. -/
def goOn (call : RandomCall) (phase : RandomPhase) : VirtioRun :=
  { s with call := some { call with phase := phase } }

/-- `GetRandomBytes` is called. -/
def beginCall (bufferIsNull : Bool) (count : ℕ) : VirtioRun :=
  let call : RandomCall := ⟨count, count, [], s.submitted, .describing⟩
  if bufferIsNull ∧ count ≠ 0 then s.finish call false
  else if count = 0 then s.finish call true
  else s.goOn call .describing

/-- The descriptor of a request of the call. -/
def descriptor (call : RandomCall) : VirtQueueDescriptor :=
  ⟨s.entropyBuffer, call.chunkSize, virtqDescFWrite, 0⟩

/-- The next step of `GetRandomBytes` and `SubmitEntropyRequest`. -/
def advanceCall (call : RandomCall) : VirtioRun :=
  match call.phase with
  | .describing =>
    { s.goOn call .publishing with
      descriptorTable := Function.update s.descriptorTable 0 (s.descriptor call)
      availableRing := Function.update s.availableRing (s.place s.availableIndex) 0 }
  | .publishing =>
    { s.goOn call (.spinning 0) with
      availableIndex := s.availableIndex + 1
      submitted := s.submitted + 1 }
  | .spinning spinCount =>
    if s.usedIndex = s.lastUsedIndex then
      if virtioSpinLimit < spinCount + 1 then s.finish call false
      else s.goOn call (.spinning (spinCount + 1))
    else s.goOn call .consuming
  | .consuming =>
    let completedLength := (s.usedRing (s.place s.lastUsedIndex)).length
    let s := { s with lastUsedIndex := s.lastUsedIndex + 1 }
    if completedLength = 0 then s.finish call false
    else
      s.goOn call
        (.copying 0 (if completedLength < call.chunkSize then completedLength else call.chunkSize))
  | .copying copied bytesToCopy =>
    if copied < bytesToCopy then
      s.goOn { call with stored := call.stored ++ [s.memory (s.entropyBuffer + copied)] }
        (.copying (copied + 1) bytesToCopy)
    else if bytesToCopy ≠ call.chunkSize then s.finish call false
    else
      let call := { call with remaining := call.remaining - call.chunkSize }
      if call.remaining = 0 then s.finish call true else s.goOn call .describing

/-- The next step of the driver, if a call is under way. -/
def advance : VirtioRun :=
  match s.call with
  | none => s
  | some call => s.advanceCall call

/-- The bytes of a completion, up to the length of the descriptor. -/
def fill (descriptor : VirtQueueDescriptor) (values : List UInt8) (address : ℕ) :
    Option EntropyByte :=
  if descriptor.address ≤ address then
    match (values.take descriptor.length)[address - descriptor.address]? with
    | some value => some ⟨s.completed, address - descriptor.address, value⟩
    | none => s.memory address
  else s.memory address

/-- The device completes the next available descriptor, if there is one. -/
def complete (values : List UInt8) : VirtioRun :=
  if s.deviceIndex = s.availableIndex then s
  else
    let id := s.availableRing (s.place s.deviceIndex)
    let descriptor := s.descriptorTable id
    { s with
      memory := s.fill descriptor values
      usedRing := Function.update s.usedRing (s.place s.usedIndex)
        ⟨id, (values.take descriptor.length).length⟩
      usedIndex := s.usedIndex + 1
      deviceIndex := s.deviceIndex + 1
      completed := s.completed + 1 }

/-- A step. A call is made when none is under way. -/
def apply : VirtioStep → VirtioRun
  | .call bufferIsNull count => if s.call.isSome then s else s.beginCall bufferIsNull count
  | .advance => s.advance
  | .complete values => s.complete values

/-- A run. -/
def run (s : VirtioRun) (steps : List VirtioStep) : VirtioRun := steps.foldl apply s

/-- A call that will submit a request is made only when every request that was made available has
been taken by the driver. -/
def Allowed : VirtioStep → Prop
  | .call bufferIsNull count => s.call = none → bufferIsNull = false → count ≠ 0 →
      s.availableIndex = s.lastUsedIndex
  | _ => True

/-- Every step of a run is allowed. -/
def AllAllowed (s : VirtioRun) : List VirtioStep → Prop
  | [] => True
  | step :: steps => s.Allowed step ∧ AllAllowed (s.apply step) steps

/-- The bytes of the calls that returned true. -/
def handedOut : List (Option EntropyByte) :=
  (s.returns.filter RandomReturn.result).flatMap RandomReturn.stored

/-- A call that returned true stored as many bytes as were asked for, each written by the device for
a request that the call submitted, and no byte was handed out twice. -/
structure Fresh : Prop where
  complete : ∀ r ∈ s.returns, r.result = true → r.stored.length = r.count
  own : ∀ r ∈ s.returns, r.result = true → ∀ b ∈ r.stored, ∃ e, b = some e ∧
    r.firstRequest ≤ e.request ∧ e.request < r.endRequest
  once : s.handedOut.Nodup

/-! ### What a run keeps -/

/-- The byte was written by the device, for a request and at a place in it that come before those
given. -/
def WrittenBefore (request position : ℕ) (b : Option EntropyByte) : Prop :=
  ∃ e, b = some e ∧ (e.request < request ∨ e.request = request ∧ e.position < position)

/-- The second byte was written by the device, behind the first one. -/
def Precedes (a b : Option EntropyByte) : Prop :=
  ∃ e, b = some e ∧ WrittenBefore e.request e.position a

/-- All bytes that calls stored, in their order. -/
def allStored : List (Option EntropyByte) :=
  s.returns.flatMap RandomReturn.stored ++ (s.call.map RandomCall.stored).getD []

/-- The first `n` bytes of the buffer are those of a request. -/
def BufferHas (request n : ℕ) : Prop :=
  ∀ i < n, ∃ value, s.memory (s.entropyBuffer + i) = some ⟨request, i, value⟩

/-- The bytes that a request of a call delivered, if it was completed. -/
def Delivered (taken : ℕ) (call : RandomCall) : Prop :=
  s.completed = taken + 1 →
    (s.usedRing (s.place s.lastUsedIndex)).length ≤ call.chunkSize ∧
      s.BufferHas taken (s.usedRing (s.place s.lastUsedIndex)).length

/-- A call in its phase, when the driver has taken some number of requests: only the request of the
call is outstanding. -/
def PhaseOrderly (taken : ℕ) (call : RandomCall) : Prop :=
  match call.phase with
  | .describing => s.submitted = taken
  | .publishing => s.submitted = taken ∧ s.descriptorTable 0 = s.descriptor call
  | .spinning _ =>
    s.submitted = taken + 1 ∧ s.descriptorTable 0 = s.descriptor call ∧ s.Delivered taken call
  | .consuming => s.completed = taken + 1 ∧ s.Delivered taken call
  | .copying copied bytesToCopy =>
    s.submitted = taken ∧ call.firstRequest < taken ∧ copied ≤ bytesToCopy ∧
      bytesToCopy ≤ call.chunkSize ∧ s.BufferHas (taken - 1) bytesToCopy

/-- The bytes that a call has copied from the buffer in its phase. -/
def copiedOf (call : RandomCall) : ℕ :=
  match call.phase with
  | .copying copied _ => copied
  | _ => 0

/-- The indices count what was made available, completed and taken; at most one request is
outstanding; the bytes that were stored are those of different places of requests, in order. -/
structure Counted (taken : ℕ) : Prop where
  availableIndex_eq : s.availableIndex = UInt16.ofNat s.submitted
  deviceIndex_eq : s.deviceIndex = UInt16.ofNat s.completed
  usedIndex_eq : s.usedIndex = UInt16.ofNat s.completed
  lastUsedIndex_eq : s.lastUsedIndex = UInt16.ofNat taken
  ring_eq : ∀ i, s.availableRing i = 0
  taken_le : taken ≤ s.completed
  completed_le : s.completed ≤ s.submitted
  submitted_le : s.submitted ≤ taken + 1
  stored_ordered : s.allStored.Pairwise Precedes
  stored_before : ∀ b ∈ s.allStored, WrittenBefore taken 0 b
  returns_own : ∀ r ∈ s.returns, ∀ b ∈ r.stored, ∃ e, b = some e ∧
    r.firstRequest ≤ e.request ∧ e.request < r.endRequest
  returns_complete : ∀ r ∈ s.returns, r.result = true → r.stored.length = r.count

/-- A call that is under way. -/
structure CallOrderly (taken : ℕ) (call : RandomCall) : Prop where
  first_le : call.firstRequest ≤ taken
  length_eq : call.stored.length + call.remaining = call.count + copiedOf call
  own : ∀ e, some e ∈ call.stored → call.firstRequest ≤ e.request
  before : ∀ b ∈ s.allStored, ∀ copied bytesToCopy, call.phase = .copying copied bytesToCopy →
    WrittenBefore (taken - 1) copied b
  phase : s.PhaseOrderly taken call

/-- What the driver has taken is in order, and so is the call that is under way. -/
structure Orderly (taken : ℕ) : Prop extends s.Counted taken where
  call : ∀ call, s.call = some call → s.CallOrderly taken call

variable {s} {taken : ℕ} {call : RandomCall} {phase : RandomPhase}

theorem start_orderly (layout : VirtioLayout) : (start layout).Orderly 0 where
  availableIndex_eq := rfl
  deviceIndex_eq := rfl
  usedIndex_eq := rfl
  lastUsedIndex_eq := rfl
  ring_eq _ := rfl
  taken_le := Nat.le_refl _
  completed_le := Nat.le_refl _
  submitted_le := Nat.zero_le _
  stored_ordered := .nil
  stored_before := by simp [allStored, start]
  returns_own := by simp [start]
  returns_complete := by simp [start]
  call := by simp [start]

theorem ofNat_succ_ne (n : ℕ) : UInt16.ofNat (n + 1) ≠ UInt16.ofNat n := by
  intro heq
  have hmod := congrArg UInt16.toNat heq
  rw [UInt16.toNat_ofNat', UInt16.toNat_ofNat'] at hmod
  omega

theorem ofNat_succ (n : ℕ) : UInt16.ofNat n + 1 = UInt16.ofNat (n + 1) := by
  rw [UInt16.ofNat_add]
  rfl

theorem WrittenBefore.mono {b : Option EntropyByte} {request position request' position' : ℕ}
    (h : WrittenBefore request position b)
    (hle : request < request' ∨ request = request' ∧ position ≤ position') :
    WrittenBefore request' position' b := by
  obtain ⟨e, rfl, he⟩ := h
  exact ⟨e, rfl, by omega⟩

section

variable (h : s.Counted taken) (hcall : (s.call.map RandomCall.stored).getD [] = call.stored)

include h hcall

theorem Counted.finish {result : Bool}
    (hown : ∀ e, some e ∈ call.stored → call.firstRequest ≤ e.request)
    (hresult : result = true → call.stored.length = call.count) :
    (s.finish call result).Orderly taken := by
  have hstored : (s.finish call result).allStored = s.allStored := by
    simp [allStored, VirtioRun.finish, hcall]
  have hmem : ∀ b ∈ call.stored, b ∈ s.allStored := fun b hb => by
    rw [allStored, hcall]
    exact List.mem_append_right _ hb
  refine ⟨⟨h.availableIndex_eq, h.deviceIndex_eq, h.usedIndex_eq, h.lastUsedIndex_eq, h.ring_eq,
    h.taken_le, h.completed_le, h.submitted_le, hstored ▸ h.stored_ordered,
    hstored ▸ h.stored_before, fun r hr => ?_, fun r hr => ?_⟩, fun c hc => by cases hc⟩
  all_goals rcases List.mem_append.mp hr with hr | hr
  · exact h.returns_own r hr
  · obtain rfl := List.mem_singleton.mp hr
    intro b hb
    obtain ⟨e, rfl, he⟩ := h.stored_before b (hmem b hb)
    have htaken := h.taken_le
    have hcompleted := h.completed_le
    exact ⟨e, rfl, hown e hb, by dsimp only; omega⟩
  · exact h.returns_complete r hr
  · obtain rfl := List.mem_singleton.mp hr
    exact hresult

/-- The call goes on, in a phase that is in order. -/
theorem Counted.goOn (horderly :
    (s.goOn call phase).CallOrderly taken { call with phase := phase }) :
    (s.goOn call phase).Orderly taken := by
  have hstored : (s.goOn call phase).allStored = s.allStored := by
    simp [allStored, VirtioRun.goOn, hcall]
  refine ⟨⟨h.availableIndex_eq, h.deviceIndex_eq, h.usedIndex_eq, h.lastUsedIndex_eq, h.ring_eq,
    h.taken_le, h.completed_le, h.submitted_le, hstored ▸ h.stored_ordered,
    hstored ▸ h.stored_before, h.returns_own, h.returns_complete⟩, fun c hc => ?_⟩
  obtain rfl := Option.some.inj hc
  exact horderly

end

/-- A call that may be made finds no request outstanding. -/
theorem Orderly.beginCall (h : s.Orderly taken) (hnone : s.call = none) {bufferIsNull : Bool}
    {count : ℕ} (hallowed : s.Allowed (.call bufferIsNull count)) :
    (s.beginCall bufferIsNull count).Orderly taken := by
  have hstored : (s.call.map RandomCall.stored).getD [] = [] := by rw [hnone]; rfl
  rw [VirtioRun.beginCall]
  split_ifs with hnull hzero
  · exact h.toCounted.finish hstored (by simp) (by simp)
  · exact h.toCounted.finish hstored (by simp) (fun _ => hzero.symm)
  · have hindex := hallowed hnone (by simpa [hzero] using hnull) hzero
    -- Otherwise the index of what was made available would be one ahead.
    have hsubmitted : s.submitted = taken := by
      by_contra hne
      have htaken := h.taken_le
      have hcompleted := h.completed_le
      have hle := h.submitted_le
      obtain hsucc : s.submitted = taken + 1 := by omega
      rw [h.availableIndex_eq, h.lastUsedIndex_eq, hsucc] at hindex
      exact ofNat_succ_ne taken hindex
    exact h.toCounted.goOn hstored
      { first_le := Nat.le_of_eq hsubmitted
        length_eq := by simp [copiedOf]
        own := by simp
        before := by simp
        phase := hsubmitted }

section

variable (h : s.Orderly taken) (hcall : s.call = some call)

include h hcall

theorem Orderly.describing (hphase : call.phase = .describing) :
    (s.advanceCall call).Orderly taken := by
  have hc := h.call call hcall
  have hsubmitted := hc.phase
  have hlength := hc.length_eq
  simp only [PhaseOrderly, copiedOf, hphase] at hsubmitted hlength
  have hring : ∀ i, Function.update s.availableRing (s.place s.availableIndex) 0 i = 0 := fun i => by
    rw [Function.update_apply]
    split_ifs
    · rfl
    · exact h.ring_eq i
  have htable : Function.update s.descriptorTable 0 (s.descriptor call) 0 = s.descriptor call :=
    Function.update_self ..
  rw [advanceCall, hphase]
  exact Counted.goOn
    (s := { s with
      descriptorTable := Function.update s.descriptorTable 0 (s.descriptor call)
      availableRing := Function.update s.availableRing (s.place s.availableIndex) 0 })
    { h.toCounted with ring_eq := hring } (by rw [hcall]; rfl)
    { first_le := hc.first_le
      length_eq := hlength
      own := hc.own
      before := by simp
      phase := ⟨hsubmitted, htable⟩ }

theorem Orderly.publishing (hphase : call.phase = .publishing) :
    (s.advanceCall call).Orderly taken := by
  have hc := h.call call hcall
  have hp := hc.phase
  have hlength := hc.length_eq
  simp only [PhaseOrderly, copiedOf, hphase] at hp hlength
  obtain ⟨hsubmitted, hdescriptor⟩ := hp
  have hcompleted := h.completed_le
  have hnot : s.completed ≠ taken + 1 := by omega
  rw [advanceCall, hphase]
  exact Counted.goOn
    (s := { s with availableIndex := s.availableIndex + 1, submitted := s.submitted + 1 })
    { h.toCounted with
      availableIndex_eq := by rw [h.availableIndex_eq, ofNat_succ]
      completed_le := by dsimp only; omega
      submitted_le := by dsimp only; omega } (by rw [hcall]; rfl)
    { first_le := hc.first_le
      length_eq := hlength
      own := hc.own
      before := by simp
      phase := ⟨congrArg (· + 1) hsubmitted, hdescriptor, fun hdone => absurd hdone hnot⟩ }

theorem Orderly.spinning {spinCount : ℕ} (hphase : call.phase = .spinning spinCount) :
    (s.advanceCall call).Orderly taken := by
  have hc := h.call call hcall
  have hp := hc.phase
  have hlength := hc.length_eq
  simp only [PhaseOrderly, copiedOf, hphase] at hp hlength
  obtain ⟨hsubmitted, hdescriptor, hdelivered⟩ := hp
  have hstored : (s.call.map RandomCall.stored).getD [] = call.stored := by rw [hcall]; rfl
  simp only [advanceCall, hphase]
  split_ifs with hsame hlimit
  · exact h.toCounted.finish hstored hc.own (by simp)
  · exact h.toCounted.goOn hstored
      { first_le := hc.first_le
        length_eq := hlength
        own := hc.own
        before := by simp
        phase := ⟨hsubmitted, hdescriptor, hdelivered⟩ }
  · -- The used index has moved, so the request of the call was completed.
    have hcompleted : s.completed = taken + 1 := by
      have htaken := h.taken_le
      have hle := h.completed_le
      have hne : s.completed ≠ taken := fun heq =>
        hsame (by rw [h.usedIndex_eq, h.lastUsedIndex_eq, heq])
      omega
    exact h.toCounted.goOn hstored
      { first_le := hc.first_le
        length_eq := hlength
        own := hc.own
        before := by simp
        phase := ⟨hcompleted, hdelivered⟩ }

theorem Orderly.consuming (hphase : call.phase = .consuming) :
    (s.advanceCall call).Orderly (taken + 1) := by
  have hc := h.call call hcall
  have hp := hc.phase
  have hlength := hc.length_eq
  simp only [PhaseOrderly, copiedOf, hphase] at hp hlength
  obtain ⟨hcompleted, hdelivered⟩ := hp
  obtain ⟨hchunk, hbuffer⟩ := hdelivered hcompleted
  have hle := h.completed_le
  have hsubmitted := h.submitted_le
  have hfirst := hc.first_le
  have hstored : (s.call.map RandomCall.stored).getD [] = call.stored := by rw [hcall]; rfl
  have hcounted : Counted { s with lastUsedIndex := s.lastUsedIndex + 1 } (taken + 1) :=
    { h.toCounted with
      lastUsedIndex_eq := by rw [h.lastUsedIndex_eq, ofNat_succ]
      taken_le := Nat.le_of_eq hcompleted.symm
      submitted_le := by dsimp only; omega
      stored_before := fun b hb => (h.stored_before b hb).mono (.inl (Nat.lt_succ_self _)) }
  simp only [advanceCall, hphase]
  split_ifs with hnone
  · exact hcounted.finish hstored hc.own (by simp)
  all_goals
    refine hcounted.goOn hstored
      { first_le := Nat.le_succ_of_le hfirst
        length_eq := hlength
        own := hc.own
        before := ?_
        phase := ⟨by dsimp only [VirtioRun.goOn]; omega, Nat.lt_succ_of_le hfirst, Nat.zero_le _,
          ?_, ?_⟩ }
    · intro b hb _ _ heq
      cases heq
      exact h.stored_before b (by rwa [allStored, hcall])
  · exact hchunk
  · exact hbuffer
  · exact Nat.le_refl _
  · exact fun i hi => hbuffer i (by omega)

/-- A byte is copied: it is the one at that place of the request that was taken last. -/
theorem Orderly.copyByte {copied bytesToCopy : ℕ}
    (hphase : call.phase = .copying copied bytesToCopy) (hlt : copied < bytesToCopy) :
    (s.goOn { call with stored := call.stored ++ [s.memory (s.entropyBuffer + copied)] }
      (.copying (copied + 1) bytesToCopy)).Orderly taken := by
  have hc := h.call call hcall
  have hp := hc.phase
  have hlength := hc.length_eq
  simp only [PhaseOrderly, copiedOf, hphase] at hp hlength
  obtain ⟨hsubmitted, hfirst, -, hchunk, hbuffer⟩ := hp
  obtain ⟨value, hvalue⟩ := hbuffer copied hlt
  have hbefore := fun b hb => hc.before b hb copied bytesToCopy hphase
  rw [hvalue]
  set byte : EntropyByte := ⟨taken - 1, copied, value⟩ with hbyte
  set s' := s.goOn { call with stored := call.stored ++ [some byte] }
    (.copying (copied + 1) bytesToCopy) with hs'
  have hstored : s'.allStored = s.allStored ++ [some byte] := by
    simp [allStored, hs', VirtioRun.goOn, hcall]
  have hnew : ∀ b ∈ s'.allStored, WrittenBefore (taken - 1) (copied + 1) b := by
    intro b hb
    rw [hstored, List.mem_append, List.mem_singleton] at hb
    rcases hb with hb | rfl
    · exact (hbefore b hb).mono (.inr ⟨rfl, Nat.le_succ _⟩)
    · exact ⟨byte, rfl, .inr ⟨rfl, Nat.lt_succ_self _⟩⟩
  refine ⟨{ h.toCounted with stored_ordered := ?_, stored_before := ?_ }, fun c hc' => ?_⟩
  · rw [hstored, List.pairwise_append]
    refine ⟨h.stored_ordered, List.pairwise_singleton .., fun a ha b hb => ?_⟩
    obtain rfl := List.mem_singleton.mp hb
    exact ⟨byte, rfl, hbefore a ha⟩
  · exact fun b hb => (hnew b hb).mono (.inl (by omega))
  · obtain rfl := Option.some.inj hc'
    refine
      { first_le := hc.first_le
        length_eq := ?_
        own := fun e he => ?_
        before := fun b hb _ _ heq => ?_
        phase := ⟨hsubmitted, hfirst, hlt, hchunk, hbuffer⟩ }
    · simp only [copiedOf, List.length_append, List.length_singleton]
      omega
    · rcases List.mem_append.mp he with he | he
      · exact hc.own e he
      · obtain rfl := Option.some.inj (List.mem_singleton.mp he)
        show call.firstRequest ≤ taken - 1
        omega
    · cases heq
      exact hnew b hb

theorem Orderly.copying {copied bytesToCopy : ℕ}
    (hphase : call.phase = .copying copied bytesToCopy) : (s.advanceCall call).Orderly taken := by
  have hc := h.call call hcall
  have hp := hc.phase
  have hlength := hc.length_eq
  simp only [PhaseOrderly, copiedOf, hphase] at hp hlength
  obtain ⟨hsubmitted, hfirst, hcopied, -, -⟩ := hp
  have hstored : (s.call.map RandomCall.stored).getD [] = call.stored := by rw [hcall]; rfl
  have hremaining := call.chunkSize_le
  simp only [advanceCall, hphase]
  split_ifs with hmore hshort hdone
  · exact h.copyByte hcall hphase hmore
  · exact h.toCounted.finish hstored hc.own (by simp)
  · exact h.toCounted.finish hstored hc.own (fun _ => by omega)
  · exact h.toCounted.goOn hstored
      { first_le := hc.first_le
        length_eq := by dsimp only [copiedOf]; omega
        own := hc.own
        before := by simp
        phase := hsubmitted }

end

theorem Orderly.advance (h : s.Orderly taken) : ∃ taken', s.advance.Orderly taken' := by
  rw [VirtioRun.advance]
  split
  · exact ⟨taken, h⟩
  next call hcall =>
    cases hphase : call.phase with
    | describing => exact ⟨taken, h.describing hcall hphase⟩
    | publishing => exact ⟨taken, h.publishing hcall hphase⟩
    | spinning spinCount => exact ⟨taken, h.spinning hcall hphase⟩
    | consuming => exact ⟨taken + 1, h.consuming hcall hphase⟩
    | copying copied bytesToCopy => exact ⟨taken, h.copying hcall hphase⟩

/-- The device writes what it was given, up to the length of the descriptor. -/
theorem fill_add (descriptor : VirtQueueDescriptor) (values : List UInt8) {i : ℕ}
    (hi : i < (values.take descriptor.length).length) :
    ∃ value, s.fill descriptor values (descriptor.address + i) = some ⟨s.completed, i, value⟩ := by
  refine ⟨(values.take descriptor.length)[i], ?_⟩
  rw [fill, if_pos (Nat.le_add_right _ _), Nat.add_sub_cancel_left, List.getElem?_eq_getElem hi]

/-- A completion is that of the request that the call waits for. -/
theorem Orderly.complete (h : s.Orderly taken) (values : List UInt8) :
    (s.complete values).Orderly taken := by
  rw [VirtioRun.complete]
  split_ifs with hnone
  · exact h
  have htaken := h.taken_le
  have hle := h.completed_le
  have hsubmitted := h.submitted_le
  have hne : s.completed ≠ s.submitted := fun heq =>
    hnone (by rw [h.deviceIndex_eq, h.availableIndex_eq, heq])
  have hcompleted : s.completed = taken := by omega
  rw [h.ring_eq]
  refine ⟨{ h.toCounted with
    deviceIndex_eq := by rw [h.deviceIndex_eq, ofNat_succ]
    usedIndex_eq := by rw [h.usedIndex_eq, ofNat_succ]
    taken_le := Nat.le_succ_of_le htaken
    completed_le := by dsimp only; omega }, fun call hcall => ?_⟩
  have hc := h.call call hcall
  refine ⟨hc.first_le, hc.length_eq, hc.own, hc.before, ?_⟩
  have hp := hc.phase
  cases hphase : call.phase with
  | spinning spinCount =>
    simp only [PhaseOrderly, hphase] at hp ⊢
    obtain ⟨hs, hdescriptor, -⟩ := hp
    refine ⟨hs, hdescriptor, fun _ => ?_⟩
    have hplace : s.lastUsedIndex = s.usedIndex := by
      rw [h.lastUsedIndex_eq, h.usedIndex_eq, hcompleted]
    have hused := congrArg VirtQueueUsedElement.length (Function.update_self (s.place s.usedIndex)
      ⟨0, (values.take (s.descriptor call).length).length⟩ s.usedRing)
    rw [hdescriptor, hplace]
    refine ⟨hused.trans_le (List.length_take_le _ _), fun i hi => ?_⟩
    obtain ⟨value, hvalue⟩ := fill_add (s := s) (s.descriptor call) values (hi.trans_eq hused)
    exact ⟨value, hcompleted ▸ hvalue⟩
  | _ =>
    simp only [PhaseOrderly, hphase] at hp
    omega

/-- A step of an allowed run leaves what was taken in order. -/
theorem Orderly.apply (h : s.Orderly taken) {step : VirtioStep} (hallowed : s.Allowed step) :
    ∃ taken', (s.apply step).Orderly taken' := by
  cases step with
  | call bufferIsNull count =>
    rw [VirtioRun.apply]
    split_ifs with hsome
    · exact ⟨taken, h⟩
    · exact ⟨taken, h.beginCall (Option.not_isSome_iff_eq_none.mp hsome) hallowed⟩
  | advance => exact h.advance
  | complete values => exact ⟨taken, h.complete values⟩

theorem Orderly.run {steps : List VirtioStep} (h : s.Orderly taken) (hallowed : s.AllAllowed steps) :
    ∃ taken', (s.run steps).Orderly taken' := by
  induction steps generalizing s taken with
  | nil => exact ⟨taken, h⟩
  | cons step steps ih =>
    obtain ⟨taken', h'⟩ := h.apply hallowed.1
    exact ih h' hallowed.2

theorem Precedes.ne {a b : Option EntropyByte} (h : Precedes a b) : a ≠ b := by
  rintro rfl
  obtain ⟨e, rfl, e', he, hlt⟩ := h
  obtain rfl := Option.some.inj he
  omega

/-- Bytes that are stored in order are handed out once. -/
theorem Orderly.fresh (h : s.Orderly taken) : s.Fresh where
  complete := h.returns_complete
  own r hr _ := h.returns_own r hr
  once := by
    have hsublist : s.handedOut.Sublist s.allStored :=
      ((List.filter_sublist ..).flatMap RandomReturn.stored).trans (List.sublist_append_left ..)
    exact (h.stored_ordered.sublist hsublist).imp fun hprecedes => hprecedes.ne

/-- The parts of a queue that is set up lie inside its pages one after the other; and in every run
in which no request is submitted while another one is outstanding, the bytes of each call that
returned true were written for its own requests, and are handed out once. -/
theorem virtioRandom_run {deviceQueueSize : UInt16} {queueMemory : Option ℕ} {layout : VirtioLayout}
    (h : setupQueue deviceQueueSize queueMemory = some layout) :
    layout.Fits ∧ ∀ steps, (start layout).AllAllowed steps → ((start layout).run steps).Fresh := by
  refine ⟨fits_of_setupQueue h, fun steps hallowed => ?_⟩
  obtain ⟨taken, htaken⟩ := (start_orderly layout).run hallowed
  exact htaken.fresh

/-- The layout of a queue of eight descriptors. -/
def smallQueue : VirtioLayout := VirtioLayout.ofSize 8 0x100000

/-- A call that is served at once. -/
theorem virtioRandom_run_smallQueue :
    smallQueue.Fits ∧
      ((start smallQueue).run
        [.call false 2, .advance, .advance, .complete [7, 9], .advance, .advance, .advance, .advance,
          .advance]).Fresh :=
  have hsetup : setupQueue 8 (some 0x100000) = some smallQueue := by decide
  have h := virtioRandom_run hsetup
  ⟨h.1, h.2 _ ⟨fun _ _ _ => rfl, trivial, trivial, trivial, trivial, trivial, trivial, trivial,
    trivial, trivial⟩⟩

/-! ### A request that is given up -/

theorem run_append (first second : List VirtioStep) :
    s.run (first ++ second) = (s.run first).run second :=
  List.foldl_append

/-- A call goes on waiting while the used index does not move. -/
theorem run_spinning {spinCount : ℕ} (hcall : s.call = some call)
    (hphase : call.phase = .spinning spinCount) (hidle : s.usedIndex = s.lastUsedIndex) (rounds : ℕ)
    (hle : spinCount + rounds ≤ virtioSpinLimit) :
    s.run (List.replicate rounds .advance) = s.goOn call (.spinning (spinCount + rounds)) := by
  induction rounds with
  | zero =>
    cases s
    cases call
    dsimp only at hcall hphase
    subst hcall hphase
    rfl
  | succ rounds ih =>
    rw [List.replicate_succ', run_append, ih (by omega)]
    show (if s.usedIndex = s.lastUsedIndex then _ else _) = _
    rw [if_pos hidle, if_neg (by omega)]
    rfl

/-- The first call gives its request up, and its completion comes late: the second call stores what
was written for the first one. -/
theorem not_fresh_lateCompletion :
    ∃ steps, setupQueue 8 (some 0x100000) = some smallQueue ∧
      ¬((start smallQueue).run steps).Fresh := by
  refine ⟨[.call false 1, .advance, .advance] ++ (List.replicate virtioSpinLimit .advance ++
    [.advance, .complete [7], .call false 1, .advance, .advance, .advance, .advance, .advance,
      .advance]), by decide, fun hfresh => ?_⟩
  set s := (start smallQueue).run [.call false 1, .advance, .advance] with hs
  have hcall : s.call = some ⟨1, 1, [], 0, .spinning 0⟩ := rfl
  have hspin := run_spinning hcall rfl rfl virtioSpinLimit (Nat.le_of_eq (Nat.zero_add _))
  rw [run_append, ← hs, run_append, hspin] at hfresh
  have hreturn : (⟨true, 1, [some ⟨0, 0, 7⟩], 1, 2⟩ : RandomReturn) ∈
      ((s.goOn ⟨1, 1, [], 0, .spinning 0⟩ (.spinning (0 + virtioSpinLimit))).run
        [.advance, .complete [7], .call false 1, .advance, .advance, .advance, .advance, .advance,
          .advance]).returns := by
    decide
  obtain ⟨e, he, hfirst, -⟩ := hfresh.own _ hreturn rfl _ (List.mem_singleton_self _)
  obtain rfl := Option.some.inj he
  exact absurd hfirst (by decide)

end VirtioRun

end TwistedOS
