import TwistedOS.Logic.CloneCalls

/-!
# How the child of clone starts

A child should start with the registers of its caller, on the stack and with the thread pointer that
were asked for, and its id should be in the memory of the caller and of the child before either goes
on; when the call fails there should be no child. The child stack is lost in two of the three ways
to make a child. The child of `vfork` runs before the end of the call: it has the thread pointer of
its caller and finds no id. A copy of the id that fails leaves the child behind, and the copy for a
`fork` child goes to the memory of the caller.

## Main definitions

* `CloneState.StartsAsRequested`, `CloneState.ClonesAsRequested`.
* `CloneState.CloneHolds`: the condition under which the call does what is asked for.

## Main results

* `CloneState.clonesAsRequested_iff`.
-/

namespace TwistedOS

open Function
open ProcessManager

namespace ByteMemory

variable {mem : ByteMemory} {a b value : ℕ}

/-- A small value that is stored twice survives at the first place when the places are the same or
apart. -/
theorem load_store_store_iff (hvalue : value < 256) :
    ((mem.store a 4 value).store b 4 value).load a 4 = value ↔
      value = 0 ∨ a = b ∨ a + 4 ≤ b ∨ b + 4 ≤ a := by
  have hfits : value < 256 ^ 4 := by omega
  constructor
  · intro hload
    by_contra hmeet
    obtain ⟨hne, hab, hafter, hbefore⟩ : value ≠ 0 ∧ a ≠ b ∧ b < a + 4 ∧ a < b + 4 := by omega
    have hbyte : (UInt8.ofNat value).toNat = value := by
      rw [UInt8.toNat_ofNat', Nat.mod_eq_of_lt (by omega)]
    -- the bytes that the value has at its first place
    have hfirst : ((mem.store a 4 value).store b 4 value a).toNat = value := by
      simp only [load] at hload
      have := ((mem.store a 4 value).store b 4 value a).toNat_lt
      omega
    have hrest : ∀ d, 1 ≤ d → d < 4 →
        ((mem.store a 4 value).store b 4 value (a + d)).toNat = 0 := by
      intro d hd hlt
      simp only [load] at hload
      obtain rfl | rfl | rfl : d = 1 ∨ d = 2 ∨ d = 3 := by omega
      · omega
      · rw [show a + 2 = a + 1 + 1 by omega]
        omega
      · rw [show a + 3 = a + 1 + 1 + 1 by omega]
        omega
    rcases Nat.lt_or_gt_of_ne hab with hlt | hgt
    · have hzero := hrest (b - a) (by omega) (by omega)
      rw [show a + (b - a) = b by omega, store, update_self, hbyte] at hzero
      exact hne hzero
    · have hhigh : ∀ d, 1 ≤ d → d < 4 →
          ((mem.store a 4 value).store b 4 value (b + d)).toNat = 0 := by
        intro d hd hd4
        have h1 : value / 256 = 0 := by omega
        obtain rfl | rfl | rfl : d = 1 ∨ d = 2 ∨ d = 3 := by omega
        · simp [store, update_of_ne, h1]
        · simp [store, update_of_ne, h1]
        · simp [store, update_of_ne, h1]
      have hzero := hhigh (a - b) (by omega) (by omega)
      rw [show b + (a - b) = a by omega, hfirst] at hzero
      exact hne hzero
  · rintro (rfl | rfl | hapart)
    · have hkept : ((mem.store a 4 0).store b 4 0).load a 4 = (mem.store a 4 0).load a 4 := by
        have hzero : ∀ (mem : ByteMemory) c x, c ≤ x → x < c + 4 → mem.store c 4 0 x = 0 := by
          intro mem c x hle hlt
          obtain rfl | rfl | rfl | rfl : x = c ∨ x = c + 1 ∨ x = c + 2 ∨ x = c + 3 := by omega
          · simp [store]
          · simp [store, update_of_ne]
          · simp [store, update_of_ne]
          · simp [store, update_of_ne]
        refine load_congr fun x hle hlt => ?_
        by_cases hin : b ≤ x ∧ x < b + 4
        · rw [hzero _ b x hin.1 hin.2, hzero _ a x hle hlt]
        · rw [store_apply_of_notMem (by omega)]
      rw [hkept, load_store_self hfits]
    · exact load_store_self hfits
    · rw [load_store_of_disjoint (by omega), load_store_self hfits]

end ByteMemory

/-- The registers but for `rcx` and `r11`, which a system call changes. -/
def UserRegisters.withoutScratch (registers : UserRegisters) : UserRegisters :=
  { registers with rcx := 0, r11 := 0 }

namespace CloneState

/-! ### What is asked for -/

section Claims

variable (before : CloneState) (request : CloneRequest) (resources : CloneResources) (parent : ℕ)

/-- The registers that the child should start with. -/
def requestedRegisters : UserRegisters :=
  { (before.logic.processes parent).savedSystemCallFrame with
    rax := 0
    rsp := if request.childStack ≠ 0 then request.childStack
      else (before.logic.processes parent).savedSystemCallFrame.rsp }

/-- The thread pointer that the child should start with. -/
def requestedFSBase : ℕ := if request.has cloneSettls then request.newTls else before.liveFSBase

/-- A process is a child of the caller. -/
def IsChild (s : CloneState) (parent childId : ℕ) : Prop :=
  s.logic.Live childId ∧ (s.logic.processes childId).parrentId = parent

/-- No process has become a child of the caller. -/
def NoNewChild (s : CloneState) : Prop :=
  ∀ id, before.logic.status id = .terminated → ¬s.IsChild parent id

/-- The child can start as it was asked for. -/
structure StartsAsRequested (now : CloneState) (childId : ℕ) : Prop where
  isChild : now.IsChild parent childId
  registers : (now.logic.processes childId).state.toUserRegisters.withoutScratch =
    (before.requestedRegisters request parent).withoutScratch
  userFSBase : now.userFSBase childId = before.requestedFSBase request
  parentTid : request.has cloneParentSettid →
    ∀ space ∈ (before.logic.processes parent).addressSpace,
      (now.logic.memory space).load request.parentTid 4 = childId
  childTid : request.has cloneChildSettid →
    ∀ space ∈ (now.logic.processes childId).addressSpace,
      (now.logic.memory space).load request.childTid 4 = childId

/-- The state in which the caller or the child goes on first. -/
def goesOn (resumed : CloneState) : CloneState :=
  if request.has cloneVfork then (before.makeChild request resources parent).2
  else (before.handleCloneSystemCall request resources parent resumed).2

/-- The call starts a child as it was asked to, or fails and leaves no child. -/
def ClonesAsRequested (resumed : CloneState) : Prop :=
  if (before.handleCloneSystemCall request resources parent resumed).1 < 0 then
    before.NoNewChild parent (before.handleCloneSystemCall request resources parent resumed).2
  else
    before.StartsAsRequested request parent (before.goesOn request resources parent resumed)
      (before.handleCloneSystemCall request resources parent resumed).1.toNat

/-! ### When it is done -/

/-- The call is accepted, and what it needs for a child is there. -/
structure MakesChild (childId : ℕ) : Prop where
  accepted : request.checkFlags = none
  free : before.logic.pm.firstTerminated = some childId
  hasSpace : (before.logic.processes parent).addressSpace.isSome
  ready : if request.has cloneVfork then
      (before.logic.processes parent).waitingForVforkChild = false ∧ resources.filesError = none
    else if request.has cloneVm then resources.filesError = none
    else (before.logic.processes parent).level = .user ∧ resources.copyOutcome = .succeeds

/-- The copies of the id that were asked for go to accessible memory of the caller. -/
def TidsAccessible (s : CloneState) : Prop :=
  (request.has cloneParentSettid → (s.logic.processes parent).addressSpace.isSome ∧
    resources.accessible parent request.parentTid 4) ∧
  (request.has cloneChildSettid → (s.logic.processes parent).addressSpace.isSome ∧
    resources.accessible parent request.childTid 4)

/-- The two copies of the id do not spoil each other. -/
def TidsApart (childId : ℕ) : Prop :=
  request.has cloneParentSettid → request.has cloneChildSettid → childId = 0 ∨
    request.parentTid = request.childTid ∨ request.parentTid + 4 ≤ request.childTid ∨
      request.childTid + 4 ≤ request.parentTid

/-- The stack that was asked for is that of the caller. -/
def KeepsStack : Prop :=
  request.childStack = 0 ∨
    request.childStack = (before.logic.processes parent).savedSystemCallFrame.rsp

/-- The memory of the caller has the id already where it was asked for. -/
def AlreadyTold (flag : BitVec 64) (address childId : ℕ) : Prop :=
  request.has flag → ∀ space ∈ (before.logic.processes parent).addressSpace,
    (before.logic.memory space).load address 4 = childId

/-- The condition for a child of `vfork`. -/
def VforkHolds (resumed : CloneState) (childId : ℕ) : Prop :=
  (TidsAccessible request resources parent resumed →
    before.KeepsStack request parent ∧
      (request.has cloneSettls → request.newTls = before.liveFSBase) ∧
      before.AlreadyTold request parent cloneParentSettid request.parentTid childId ∧
      before.AlreadyTold request parent cloneChildSettid request.childTid childId) ∧
  (¬TidsAccessible request resources parent resumed → before.NoNewChild parent resumed)

/-- The condition for the other children. -/
def OtherHolds (childId : ℕ) : Prop :=
  TidsAccessible request resources parent before ∧ TidsApart request childId ∧
    (request.has cloneVm ∨ before.KeepsStack request parent ∧
      (request.has cloneChildSettid → resources.inherited.load request.childTid 4 = childId))

/-- The condition under which the call does what is asked for. A child of `vfork` needs no other
stack or thread pointer than its caller, and finds its id where it is asked for already, or its
caller cannot be told the id and the child is gone by then. Other children need accessible memory
for the copies, and a `fork` child needs no other stack and has inherited its id. -/
def CloneHolds (resumed : CloneState) : Prop :=
  ∀ childId, before.MakesChild request resources parent childId →
    if request.has cloneVfork then before.VforkHolds request resources parent resumed childId
    else before.OtherHolds request resources parent childId

end Claims

variable {s before after resumed : CloneState} {request : CloneRequest}
  {resources : CloneResources} {parent childId id space rsp base : ℕ} {memory : ℕ → ByteMemory}

/-! ### Making the child -/

/-- A system call of a running process, whose frame was saved when it began. -/
structure InSystemCall (s : CloneState) (parent : ℕ) : Prop where
  lt : parent < maxProcesses
  running : s.logic.status parent = .running
  saved : (s.logic.processes parent).hasSavedSystemCallFrame = true
  space_lt : ∀ space ∈ (s.logic.processes parent).addressSpace, space < s.logic.nextAddressSpace

/-- A child that has been made. -/
structure MadeChild (before after : CloneState) (parent childId rsp base space : ℕ)
    (memory : ℕ → ByteMemory) : Prop where
  isChild : after.IsChild parent childId
  registers : (after.logic.processes childId).state.toUserRegisters =
    (LogicLayer.childState (before.logic.processes parent).savedSystemCallFrame rsp).toUserRegisters
  addressSpace : (after.logic.processes childId).addressSpace = some space
  parentSpace : (after.logic.processes parent).addressSpace =
    (before.logic.processes parent).addressSpace
  userFSBase : after.userFSBase childId = base
  memory_eq : after.logic.memory = memory

/-- A child is created when a slot is free. -/
theorem createChild_of_free {logic : LogicLayer} {state : CpuState} {f : Process → Process}
    (hfree : logic.pm.firstTerminated = some childId) :
    logic.createChild state space f = some (childId, logic.modify childId fun _ =>
      f (initializeProcessEntry childId .ready .user (some space) state)) := by
  rcases hcreate : logic.createChild state space f with _ | ⟨id, created⟩
  · rw [LogicLayer.createChild, createUserProcess, hfree] at hcreate
    exact absurd hcreate (by simp)
  · obtain ⟨-, -, rfl⟩ := LogicLayer.createChild_eq_some hcreate
    rw [LogicLayer.createChild, createUserProcess, hfree] at hcreate
    obtain rfl : childId = id := (Prod.mk.inj (Option.some.inj hcreate)).1
    rfl

theorem createChild_of_full {logic : LogicLayer} {state : CpuState} {f : Process → Process}
    (hfull : logic.pm.firstTerminated = none) : logic.createChild state space f = none := by
  rw [LogicLayer.createChild, createUserProcess, hfull]
  rfl

/-- The record of a child in the address space of its caller. -/
def sharingRecord (s : CloneState) (parent childId space rsp : ℕ) : Process :=
  LogicLayer.shareWith parent (s.logic.processes parent) (initializeProcessEntry childId .ready .user
    (some space) (LogicLayer.childState (s.logic.processes parent).savedSystemCallFrame rsp))

theorem createSharingChild_of_free (s : CloneState) (parent space rsp : ℕ)
    (hfree : s.logic.pm.firstTerminated = some childId) :
    s.logic.createSharingChild parent space rsp =
      some (childId, s.logic.modify childId fun _ => s.sharingRecord parent childId space rsp) :=
  createChild_of_free hfree

theorem createSharingChild_of_full (hfull : s.logic.pm.firstTerminated = none) :
    s.logic.createSharingChild parent space rsp = none :=
  createChild_of_full hfull

theorem InSystemCall.ne (h : s.InSystemCall parent)
    (hfree : s.logic.pm.firstTerminated = some childId) : parent ≠ childId := by
  rintro rfl
  exact absurd (h.running.symm.trans (firstTerminated_spec hfree).2) (by simp)

/-- Scheduling does not change user memory. -/
theorem blockProcess_memory {logic : LogicLayer} : (logic.blockProcess id).memory = logic.memory := by
  have hrun : ∀ (logic : LogicLayer) (id : ℕ), (logic.runProcess id).memory = logic.memory := by
    intro logic id
    rw [LogicLayer.runProcess]
    split_ifs
    · split
      · rfl
      · split_ifs <;> rfl
    · rfl
  have hschedule : ∀ logic : LogicLayer, logic.schedule.memory = logic.memory := by
    intro logic
    rw [LogicLayer.schedule]
    split
    · rfl
    · exact hrun _ _
  rw [LogicLayer.blockProcess]
  split_ifs
  · exact hschedule _
  · rfl

theorem addProcessToReadyQueue_memory {logic : LogicLayer} :
    (logic.addProcessToReadyQueue id).memory = logic.memory := by
  rw [LogicLayer.addProcessToReadyQueue]
  split_ifs <;> rfl

/-- What the start of a child depends on in its record. -/
def startRecord (process : Process) : UserRegisters × Option ℕ × ℕ :=
  (process.state.toUserRegisters, process.addressSpace, process.parrentId)

theorem ignoresScheduling_startRecord : IgnoresScheduling startRecord where
  status _ _ := rfl
  kernelContext process := by
    rw [LogicLayer.markKernelContext]
    split_ifs <;> rfl

open LogicLayer in
theorem keeps_beginVfork {logic : LogicLayer} :
    Keeps startRecord logic (logic.beginVfork parent childId) := by
  have hflags : Keeps startRecord logic ((logic.modify parent (markVforkParent childId)).modify
      childId (markVforkChild parent)) :=
    (Keeps.modify rfl).trans (Keeps.modify rfl)
  refine Keeps.trans ?_ (Keeps.blockProcess ignoresScheduling_startRecord)
  refine Keeps.trans ?_ (Keeps.modify (ignoresScheduling_startRecord.kernelContext _))
  exact hflags.trans (Keeps.addProcessToReadyQueue ignoresScheduling_startRecord)

/-- The child is made when its record is in the process table afterwards. -/
theorem MadeChild.of_keeps {record : Process} (hne : parent ≠ childId)
    (hlive : after.logic.Live childId)
    (hkeeps : LogicLayer.Keeps startRecord (s.logic.modify childId fun _ => record) after.logic)
    (hrecord : startRecord record =
      ((LogicLayer.childState (s.logic.processes parent).savedSystemCallFrame rsp).toUserRegisters,
        some space, parent))
    (hbase : after.userFSBase childId = base) (hmemory : after.logic.memory = memory) :
    MadeChild s after parent childId rsp base space memory := by
  have hchild := hkeeps childId
  rw [LogicLayer.modify_const_processes, hrecord] at hchild
  have hparent := hkeeps parent
  rw [LogicLayer.modify_const_processes_of_ne _ hne] at hparent
  exact
    { isChild := ⟨hlive, congrArg (fun r => r.2.2) hchild⟩
      registers := congrArg Prod.fst hchild
      addressSpace := congrArg (fun r => r.2.1) hchild
      parentSpace := congrArg (fun r => r.2.1) hparent
      userFSBase := hbase
      memory_eq := hmemory }

theorem startRecord_sharingRecord : startRecord (s.sharingRecord parent childId space rsp) =
    ((LogicLayer.childState (s.logic.processes parent).savedSystemCallFrame rsp).toUserRegisters,
      some space, parent) := rfl

/-- A child of `vfork` runs with the stack and the thread pointer of its caller. -/
theorem vforkChild_made (h : s.InSystemCall parent)
    (hspace : (s.logic.processes parent).addressSpace = some space)
    (hwait : (s.logic.processes parent).waitingForVforkChild = false)
    (hfree : s.logic.pm.firstTerminated = some childId) (hfiles : resources.filesError = none) :
    ∃ after, s.vforkChild resources parent = ((childId : ℤ), after) ∧
      MadeChild s after parent childId (s.logic.processes parent).savedSystemCallFrame.rsp
        s.liveFSBase space s.logic.memory := by
  obtain ⟨hlt, -⟩ := firstTerminated_spec hfree
  have hcreate := s.createSharingChild_of_free parent space
    (s.logic.processes parent).savedSystemCallFrame.rsp hfree
  obtain ⟨record, hrecord⟩ : ∃ record, record = s.sharingRecord parent childId space
    (s.logic.processes parent).savedSystemCallFrame.rsp := ⟨_, rfl⟩
  rw [← hrecord] at hcreate
  have hready : record.status = .ready := by rw [hrecord]; rfl
  have hlive : ((s.logic.modify childId fun _ => record).beginVfork parent childId).Live childId := by
    refine ⟨hlt, fun hdead => ?_⟩
    exact ((LogicLayer.terminated_beginVfork hlt hready parent childId).mp hdead).1 rfl
  refine ⟨((((s.saveFSBase parent).startChild parent (s.logic.modify childId fun _ => record) childId
    s.liveFSBase).setLogic ((s.logic.modify childId fun _ => record).beginVfork parent
      childId)).switchFSBase), ?_, MadeChild.of_keeps (h.ne hfree) hlive keeps_beginVfork ?_ ?_ ?_⟩
  · rw [vforkChild, if_neg (by simp [hwait]), h.saved, hspace]
    dsimp only
    rw [hcreate]
    dsimp only
    rw [hfiles]
  · rw [hrecord]
    exact startRecord_sharingRecord
  · exact update_self ..
  · exact blockProcess_memory.trans addProcessToReadyQueue_memory

/-- A child in the address space of its caller has the stack and the thread pointer asked for. -/
theorem sharingChild_made (request : CloneRequest) (h : s.InSystemCall parent)
    (hspace : (s.logic.processes parent).addressSpace = some space)
    (hfree : s.logic.pm.firstTerminated = some childId) (hfiles : resources.filesError = none) :
    ∃ after, s.sharingChild request resources parent = ((childId : ℤ), after) ∧
      MadeChild s after parent childId (s.sharedStack request parent) (s.sharedFSBase request) space
        s.logic.memory := by
  obtain ⟨hlt, -⟩ := firstTerminated_spec hfree
  have hcreate := s.createSharingChild_of_free parent space (s.sharedStack request parent) hfree
  obtain ⟨record, hrecord⟩ : ∃ record,
    record = s.sharingRecord parent childId space (s.sharedStack request parent) := ⟨_, rfl⟩
  rw [← hrecord] at hcreate
  have hcreated : (s.logic.modify childId fun _ => record).Live childId := by
    refine ⟨hlt, ?_⟩
    rw [LogicLayer.status, LogicLayer.modify_const_processes, hrecord]
    simp [sharingRecord, LogicLayer.shareWith, initializeProcessEntry]
  refine ⟨((s.saveFSBase parent).startChild parent (s.logic.modify childId fun _ => record) childId
    (s.sharedFSBase request)).setLogic
      ((s.logic.modify childId fun _ => record).addProcessToReadyQueue childId), ?_,
    MadeChild.of_keeps (h.ne hfree) (LogicLayer.KeepsLife.addProcessToReadyQueue.live hcreated)
      (LogicLayer.Keeps.addProcessToReadyQueue ignoresScheduling_startRecord) ?_ ?_ ?_⟩
  · rw [sharingChild, h.saved, hspace]
    dsimp only
    rw [hcreate]
    dsimp only
    rw [hfiles]
  · rw [hrecord]
    exact startRecord_sharingRecord
  · exact update_self ..
  · exact addProcessToReadyQueue_memory

/-- A `fork` child has the stack and the thread pointer of its caller, and memory of its own. -/
theorem forkChild_made (h : s.InSystemCall parent)
    (hspace : (s.logic.processes parent).addressSpace.isSome)
    (hlevel : (s.logic.processes parent).level = .user)
    (hfree : s.logic.pm.firstTerminated = some childId)
    (hcopy : resources.copyOutcome = .succeeds) :
    ∃ after, s.forkChild resources parent = ((childId : ℤ), after) ∧
      MadeChild s after parent childId (s.logic.processes parent).savedSystemCallFrame.rsp
        s.liveFSBase s.logic.nextAddressSpace
        (update s.logic.memory s.logic.nextAddressSpace resources.inherited) := by
  obtain ⟨hlt, -⟩ := firstTerminated_spec hfree
  have hne := h.ne hfree
  have hlive : s.logic.Live parent := ⟨h.lt, by rw [h.running]; simp⟩
  obtain ⟨copied, hcopied⟩ : ∃ copied, copied = ((s.logic.modify childId fun _ =>
    s.logic.forkedRecord parent childId).takeAddressSpace.modify childId
      (LogicLayer.withSignalActions (s.logic.processes parent).signalActions)).pushReady childId :=
    ⟨_, rfl⟩
  have hrun : s.logic.copyProcess parent resources.copyOutcome = (some childId, copied) := by
    rw [LogicLayer.copyProcess, hcopied]
    dsimp only
    rw [if_pos ⟨hlive, hlevel, hspace, by simp [hcopy]⟩, createChild_of_free hfree]
    dsimp only
    rw [LogicLayer.finishCopy, if_pos hcopy]
    rfl
  have hparent : copied.processes parent = s.logic.processes parent := by
    rw [hcopied]
    refine (modify_processes_of_ne hne).trans ?_
    exact LogicLayer.modify_const_processes_of_ne _ hne
  have hchild : copied.processes childId =
      LogicLayer.withSignalActions (s.logic.processes parent).signalActions
        (s.logic.forkedRecord parent childId) := by
    rw [hcopied]
    refine modify_processes_self.trans ?_
    exact congrArg _ (LogicLayer.modify_const_processes _)
  obtain ⟨started, hstarted⟩ : ∃ started, started = ((s.saveFSBase parent).startChild parent copied
    childId s.liveFSBase).setMemory s.logic.nextAddressSpace resources.inherited := ⟨_, rfl⟩
  have hprocesses : started.logic.processes = copied.processes := by rw [hstarted]; rfl
  have hrecord : (started.logic.modify childId
      (withFrame (s.logic.processes parent).savedSystemCallFrame)).processes childId =
        withFrame (s.logic.processes parent).savedSystemCallFrame
          (LogicLayer.withSignalActions (s.logic.processes parent).signalActions
            (s.logic.forkedRecord parent childId)) := by
    refine modify_processes_self.trans ?_
    rw [← hchild, ← hprocesses]
  refine ⟨started.setLogic (started.logic.modify childId
    (withFrame (s.logic.processes parent).savedSystemCallFrame)), ?_, ?_⟩
  · rw [forkChild, hrun]
    dsimp only
    rw [hparent, if_pos h.saved, hstarted]
  · refine
      { isChild := ⟨⟨hlt, fun hdead => ?_⟩, congrArg Process.parrentId hrecord⟩
        registers := congrArg (fun p : Process => p.state.toUserRegisters) hrecord
        addressSpace := congrArg Process.addressSpace hrecord
        parentSpace := ?_
        userFSBase := ?_
        memory_eq := ?_ }
    · exact absurd ((congrArg Process.status hrecord).symm.trans hdead) (by
        simp [withFrame, LogicLayer.withSignalActions, LogicLayer.forkedRecord,
          LogicLayer.inheritFrom, initializeProcessEntry])
    · refine (congrArg Process.addressSpace (modify_processes_of_ne hne)).trans ?_
      exact congrArg Process.addressSpace ((congrFun hprocesses parent).trans hparent)
    · change started.userFSBase childId = _
      rw [hstarted]
      exact update_self ..
    · change started.logic.memory = _
      rw [hstarted]
      change update copied.memory _ _ = _
      rw [hcopied]
      rfl

/-! ### No child -/

theorem errEagain_neg : errEagain < 0 := by decide

theorem errEfault_neg : errEfault < 0 := by decide

theorem NoNewChild.of_status
    (h : ∀ id, s.logic.status id = .terminated → after.logic.status id = .terminated) :
    s.NoNewChild parent after :=
  fun id hfree hchild => hchild.1.2 (h id hfree)

/-- A child that is discarded leaves its slot free. -/
theorem status_discardChild {logic : LogicLayer} {record : Process} (hlt : childId < maxProcesses)
    (id : ℕ) (hfree : logic.status id = .terminated) :
    ((logic.modify childId fun _ => record).discardChild childId).status id = .terminated := by
  rw [LogicLayer.status, LogicLayer.discardChild, LogicLayer.processes]
  dsimp only
  rw [killProcess, if_pos hlt]
  by_cases hid : id = childId
  · rw [hid, setProcess_processes_self]
    rfl
  · rw [setProcess_processes_of_ne hid]
    exact (congrArg Process.status (LogicLayer.modify_const_processes_of_ne record hid)).trans hfree

theorem vforkChild_refused (h : s.InSystemCall parent)
    (hnot : ∀ childId, s.logic.pm.firstTerminated = some childId →
      (s.logic.processes parent).addressSpace.isSome →
      ¬((s.logic.processes parent).waitingForVforkChild = false ∧ resources.filesError = none)) :
    (s.vforkChild resources parent).1 < 0 ∧
      s.NoNewChild parent (s.vforkChild resources parent).2 := by
  rw [vforkChild, h.saved]
  split_ifs with hwait
  · exact ⟨errEagain_neg, .of_status fun _ hfree => hfree⟩
  rcases hspace : (s.logic.processes parent).addressSpace with _ | space
  · exact ⟨errEfault_neg, .of_status fun _ hfree => hfree⟩
  dsimp only
  rcases hslot : s.logic.pm.firstTerminated with _ | childId
  · rw [createSharingChild_of_full hslot]
    exact ⟨errEagain_neg, .of_status fun _ hfree => hfree⟩
  · rw [s.createSharingChild_of_free _ _ _ hslot]
    dsimp only
    rcases hfiles : resources.filesError with _ | error
    · exact absurd ⟨by simpa using hwait, hfiles⟩ (hnot childId hslot (by rw [hspace]; rfl))
    · refine ⟨resources.filesError_neg error hfiles, .of_status fun id hfree => ?_⟩
      exact status_discardChild (firstTerminated_spec hslot).1 id hfree

theorem sharingChild_refused (h : s.InSystemCall parent)
    (hnot : ∀ childId, s.logic.pm.firstTerminated = some childId →
      (s.logic.processes parent).addressSpace.isSome → resources.filesError ≠ none) :
    (s.sharingChild request resources parent).1 < 0 ∧
      s.NoNewChild parent (s.sharingChild request resources parent).2 := by
  rw [sharingChild, h.saved]
  rcases hspace : (s.logic.processes parent).addressSpace with _ | space
  · exact ⟨errEfault_neg, .of_status fun _ hfree => hfree⟩
  dsimp only
  rcases hslot : s.logic.pm.firstTerminated with _ | childId
  · rw [createSharingChild_of_full hslot]
    exact ⟨errEagain_neg, .of_status fun _ hfree => hfree⟩
  · rw [s.createSharingChild_of_free _ _ _ hslot]
    dsimp only
    rcases hfiles : resources.filesError with _ | error
    · exact absurd hfiles (hnot childId hslot (by rw [hspace]; rfl))
    · refine ⟨resources.filesError_neg error hfiles, .of_status fun id hfree => ?_⟩
      exact status_discardChild (firstTerminated_spec hslot).1 id hfree

theorem forkChild_refused
    (hnot : ∀ childId, s.logic.pm.firstTerminated = some childId →
      (s.logic.processes parent).addressSpace.isSome →
      ¬((s.logic.processes parent).level = .user ∧ resources.copyOutcome = .succeeds)) :
    (s.forkChild resources parent).1 < 0 ∧
      s.NoNewChild parent (s.forkChild resources parent).2 := by
  obtain ⟨copied, hcopied, hstatus⟩ : ∃ copied,
      s.logic.copyProcess parent resources.copyOutcome = (none, copied) ∧
        ∀ id, s.logic.status id = .terminated → copied.status id = .terminated := by
    rw [LogicLayer.copyProcess]
    dsimp only
    split_ifs with hsource
    · rcases hslot : s.logic.pm.firstTerminated with _ | childId
      · rw [createChild_of_full hslot]
        exact ⟨_, rfl, fun _ hfree => hfree⟩
      · obtain ⟨hlt, -⟩ := firstTerminated_spec hslot
        have hfails : resources.copyOutcome ≠ .succeeds := fun hsucceeds =>
          hnot childId hslot hsource.2.2.1 ⟨hsource.2.1, hsucceeds⟩
        rw [createChild_of_free hslot]
        dsimp only
        rw [LogicLayer.finishCopy, if_neg hfails]
        refine ⟨_, rfl, fun id hfree => ?_⟩
        by_cases hid : id = childId
        · rw [hid, LogicLayer.status, LogicLayer.killProcess_processes_self hlt]
          rfl
        · refine (LogicLayer.KeepsLife.killProcess_of_not (fun hboth => hid hboth.1) 0).mpr ?_
          exact (congrArg Process.status
            (LogicLayer.modify_const_processes_of_ne _ hid)).trans hfree
    · exact ⟨_, rfl, fun _ hfree => hfree⟩
  rw [forkChild, hcopied]
  refine ⟨?_, .of_status hstatus⟩
  dsimp only
  split_ifs <;> decide

/-! ### The end of the call -/

/-- User memory after the copies of the id that were asked for. -/
def toldMemory (request : CloneRequest) (space childId : ℕ) (memory : ℕ → ByteMemory) :
    ℕ → ByteMemory :=
  let parentTold :=
    if request.has cloneParentSettid then
      update memory space ((memory space).store request.parentTid 4 childId) else memory
  if request.has cloneChildSettid then
    update parentTold space ((parentTold space).store request.childTid 4 childId) else parentTold

theorem toldMemory_of_ne {other : ℕ} (hne : other ≠ space) :
    toldMemory request space childId memory other = memory other := by
  rw [toldMemory]
  split_ifs <;> simp [hne]

/-- The copy of the id for the child is the last one. -/
theorem load_toldMemory_child (hlt : childId < maxProcesses)
    (hflag : request.has cloneChildSettid) :
    (toldMemory request space childId memory space).load request.childTid 4 = childId := by
  rw [toldMemory]
  rw [if_pos hflag, update_self]
  exact ByteMemory.load_store_self (by simp only [maxProcesses] at hlt; omega)

/-- The copy of the id for the caller survives the one for the child. -/
theorem load_toldMemory_parent (hlt : childId < maxProcesses)
    (hflag : request.has cloneParentSettid) :
    (toldMemory request space childId memory space).load request.parentTid 4 = childId ↔
      TidsApart request childId := by
  have hsmall : childId < 256 := by
    simp only [maxProcesses] at hlt
    omega
  rw [toldMemory, TidsApart]
  rw [if_pos hflag]
  by_cases hchild : request.has cloneChildSettid
  · rw [if_pos hchild, update_self, update_self, ByteMemory.load_store_store_iff hsmall]
    exact ⟨fun h _ _ => h, fun h => h hflag hchild⟩
  · rw [if_neg hchild, update_self, ByteMemory.load_store_self (by omega)]
    exact iff_of_true rfl fun _ h => absurd h hchild

/-- A copy of the id to accessible memory changes nothing else. -/
theorem copyTidIf_eq_some (s : CloneState) (childId : ℕ) (flag : Bool) (address : ℕ)
    (hspace : (s.logic.processes parent).addressSpace = some space)
    (haccess : flag → resources.accessible parent address 4) :
    ∃ told, s.copyTidIf resources parent flag address childId = some told ∧
      told.logic.pm = s.logic.pm ∧ told.userFSBase = s.userFSBase ∧
      told.logic.memory = if flag then
        update s.logic.memory space ((s.logic.memory space).store address 4 childId)
        else s.logic.memory := by
  rw [copyTidIf]
  split_ifs with hflag
  · rw [copyTid, hspace]
    dsimp only
    rw [if_pos (haccess hflag)]
    exact ⟨_, rfl, rfl, rfl, rfl⟩
  · exact ⟨s, rfl, rfl, rfl, rfl⟩

theorem copyTidIf_told (s : CloneState) (childId : ℕ) {flag : Bool} {address : ℕ}
    (h : flag → (s.logic.processes parent).addressSpace.isSome ∧
      resources.accessible parent address 4) :
    ∃ told, s.copyTidIf resources parent flag address childId = some told ∧
      told.logic.pm = s.logic.pm := by
  rw [copyTidIf]
  split_ifs with hflag
  · obtain ⟨hsome, haccess⟩ := h hflag
    obtain ⟨space, hspace⟩ := Option.isSome_iff_exists.mp hsome
    rw [copyTid, hspace]
    dsimp only
    rw [if_pos haccess]
    exact ⟨_, rfl, rfl⟩
  · exact ⟨s, rfl, rfl⟩

theorem copyTidIf_eq_none {flag : Bool} {address : ℕ} (hflag : flag)
    (h : ¬((s.logic.processes parent).addressSpace.isSome ∧
      resources.accessible parent address 4)) :
    s.copyTidIf resources parent flag address childId = none := by
  rw [copyTidIf, if_pos hflag, copyTid]
  rcases hspace : (s.logic.processes parent).addressSpace with _ | space
  · rfl
  · exact if_neg fun haccess => h ⟨by rw [hspace]; rfl, haccess⟩

theorem setTls_logic : (s.setTls request childId).logic = s.logic := by
  rw [setTls]
  split_ifs <;> rfl

theorem setTls_userFSBase : (s.setTls request childId).userFSBase childId =
    if request.has cloneSettls then request.newTls else s.userFSBase childId := by
  rw [setTls]
  split_ifs
  · exact update_self ..
  · rfl

/-- The call gives the id of the child when its copies succeed. -/
theorem finishClone_told (h : TidsAccessible request resources parent s) :
    (s.finishClone request resources parent childId).1 = childId := by
  rw [finishClone]
  obtain ⟨told, htold, hpm⟩ := copyTidIf_told (s.setTls request childId) childId
    (by rw [setTls_logic]; exact h.1)
  rw [htold]
  dsimp only
  obtain ⟨last, hlast, -⟩ := copyTidIf_told told childId (by
    rw [LogicLayer.processes, hpm, setTls_logic]
    exact h.2)
  rw [hlast]

/-- The call fails when one of its copies does, and the child stays. -/
theorem finishClone_untold (childId : ℕ)
    (h : ¬TidsAccessible request resources parent s) :
    (s.finishClone request resources parent childId).1 = errEfault ∧
      (s.finishClone request resources parent childId).2.logic.pm = s.logic.pm := by
  rw [finishClone]
  by_cases hparent : request.has cloneParentSettid → (s.logic.processes parent).addressSpace.isSome ∧
      resources.accessible parent request.parentTid 4
  · obtain ⟨told, htold, hpm⟩ := copyTidIf_told (s.setTls request childId) childId
      (by rw [setTls_logic]; exact hparent)
    rw [setTls_logic] at hpm
    have hchild : ¬(request.has cloneChildSettid → (s.logic.processes parent).addressSpace.isSome ∧
        resources.accessible parent request.childTid 4) := fun hchild => h ⟨hparent, hchild⟩
    rw [Classical.not_imp] at hchild
    rw [htold]
    dsimp only
    rw [copyTidIf_eq_none hchild.1 (by rw [LogicLayer.processes, hpm]; exact hchild.2)]
    exact ⟨rfl, hpm⟩
  · rw [Classical.not_imp] at hparent
    rw [copyTidIf_eq_none hparent.1 (by rw [setTls_logic]; exact hparent.2)]
    exact ⟨rfl, congrArg LogicLayer.pm setTls_logic⟩

/-- The end of the call gives the child the thread pointer that was asked for, and copies its id to
the memory of the caller. -/
theorem MadeChild.finishClone {parentSpace : ℕ}
    (hmade : MadeChild s after parent childId rsp base space memory)
    (hspace : (s.logic.processes parent).addressSpace = some parentSpace)
    (h : TidsAccessible request resources parent after) :
    MadeChild s (after.finishClone request resources parent childId).2 parent childId rsp
      (if request.has cloneSettls then request.newTls else base) space
      (toldMemory request parentSpace childId memory) := by
  have hparent : (after.logic.processes parent).addressSpace = some parentSpace :=
    hmade.parentSpace.trans hspace
  obtain ⟨told, htold, hpm, hbase, hmemory⟩ := copyTidIf_eq_some (after.setTls request childId)
    childId (request.has cloneParentSettid) request.parentTid (by rw [setTls_logic]; exact hparent)
    fun hflag => (h.1 hflag).2
  rw [setTls_logic] at hpm hmemory
  obtain ⟨last, hlast, hpm', hbase', hmemory'⟩ := copyTidIf_eq_some told childId
    (request.has cloneChildSettid) request.childTid (by rw [LogicLayer.processes, hpm]; exact hparent)
    fun hflag => (h.2 hflag).2
  obtain ⟨final, hfinal, hlogic, hfs⟩ : ∃ final : CloneState,
      (after.finishClone request resources parent childId).2 = final ∧
        final.logic = last.logic ∧ final.userFSBase = last.userFSBase := by
    rw [CloneState.finishClone, htold]
    dsimp only
    rw [hlast]
    dsimp only
    split_ifs
    · exact ⟨_, rfl, rfl, rfl⟩
    · exact ⟨_, rfl, rfl, rfl⟩
  have hprocesses : final.logic.processes = after.logic.processes := by
    funext id
    rw [LogicLayer.processes, hlogic, hpm', hpm]
  rw [hfinal]
  exact
    { isChild := by
        rw [IsChild, LogicLayer.Live, LogicLayer.status, hprocesses]
        exact hmade.isChild
      registers := by rw [hprocesses, hmade.registers]
      addressSpace := by rw [hprocesses, hmade.addressSpace]
      parentSpace := by rw [hprocesses, hmade.parentSpace]
      userFSBase := by rw [hfs, hbase', hbase, setTls_userFSBase, hmade.userFSBase]
      memory_eq := by rw [hlogic, hmemory', hmemory, hmade.memory_eq, toldMemory] }

/-! ### The condition -/

theorem withoutScratch_childState {frame : UserRegisters} {stack : ℕ} :
    (LogicLayer.childState frame rsp).toUserRegisters.withoutScratch =
      ({ frame with rax := 0, rsp := stack } : UserRegisters).withoutScratch ↔ rsp = stack := by
  simp [LogicLayer.childState, UserRegisters.withoutScratch]

/-- What it takes for a child that has been made to start as it was asked for. -/
theorem MadeChild.startsAsRequested_iff
    (hmade : MadeChild s after parent childId rsp base space memory) :
    s.StartsAsRequested request parent after childId ↔
      rsp = s.sharedStack request parent ∧ base = s.requestedFSBase request ∧
      (request.has cloneParentSettid → ∀ own ∈ (s.logic.processes parent).addressSpace,
        (memory own).load request.parentTid 4 = childId) ∧
      (request.has cloneChildSettid → (memory space).load request.childTid 4 = childId) := by
  have hregisters : (after.logic.processes childId).state.toUserRegisters.withoutScratch =
      (s.requestedRegisters request parent).withoutScratch ↔ rsp = s.sharedStack request parent := by
    rw [hmade.registers]
    exact withoutScratch_childState
  constructor
  · rintro ⟨-, hregs, hfs, hparent, hchild⟩
    rw [hmade.userFSBase] at hfs
    rw [hmade.memory_eq] at hparent hchild
    exact ⟨hregisters.mp hregs, hfs, hparent, fun hflag => hchild hflag space hmade.addressSpace⟩
  · rintro ⟨hrsp, hfs, hparent, hchild⟩
    refine ⟨hmade.isChild, hregisters.mpr hrsp, hmade.userFSBase.trans hfs, ?_, ?_⟩
    · rw [hmade.memory_eq]
      exact hparent
    · rintro hflag own hown
      obtain rfl := Option.some.inj (hmade.addressSpace.symm.trans hown)
      rw [hmade.memory_eq]
      exact hchild hflag

theorem keepsStack_iff : (s.logic.processes parent).savedSystemCallFrame.rsp =
    s.sharedStack request parent ↔ s.KeepsStack request parent := by
  rw [sharedStack, KeepsStack]
  split_ifs with hstack
  · exact ⟨fun h => .inr h.symm, fun h => (h.resolve_left hstack).symm⟩
  · exact iff_of_true rfl (.inl (not_not.mp hstack))

theorem handleCloneSystemCall_of_made (haccepted : request.checkFlags = none)
    (hmake : s.makeChild request resources parent = ((childId : ℤ), after)) :
    s.handleCloneSystemCall request resources parent resumed =
      (s.continued request resources parent resumed).finishClone request resources parent childId := by
  rw [handleCloneSystemCall, haccepted]
  dsimp only
  rw [hmake]
  dsimp only
  rw [if_neg (by omega), Int.toNat_natCast]

/-- A child of `vfork`, which goes on before the end of the call. -/
theorem clonesAsRequested_vfork (hvfork : request.has cloneVfork)
    (haccepted : request.checkFlags = none)
    (hspace : (s.logic.processes parent).addressSpace = some space)
    (hmake : s.makeChild request resources parent = ((childId : ℤ), after))
    (hmade : MadeChild s after parent childId (s.logic.processes parent).savedSystemCallFrame.rsp
      s.liveFSBase space s.logic.memory) :
    s.ClonesAsRequested request resources parent resumed ↔
      s.VforkHolds request resources parent resumed childId := by
  have hgoesOn : s.goesOn request resources parent resumed = after := by
    rw [goesOn, if_pos hvfork, hmake]
  have hbase : s.liveFSBase = s.requestedFSBase request ↔
      (request.has cloneSettls → request.newTls = s.liveFSBase) := by
    rw [requestedFSBase]
    split_ifs with hflag
    · exact ⟨fun h _ => h.symm, fun h => (h hflag).symm⟩
    · exact iff_of_true rfl fun h => absurd h hflag
  have hchild : (request.has cloneChildSettid →
      (s.logic.memory space).load request.childTid 4 = childId) ↔
        s.AlreadyTold request parent cloneChildSettid request.childTid childId := by
    constructor
    · rintro h hflag own hown
      obtain rfl := Option.some.inj (hspace.symm.trans hown)
      exact h hflag
    · exact fun h hflag => h hflag space hspace
  rw [ClonesAsRequested, handleCloneSystemCall_of_made haccepted hmake, hgoesOn, continued,
    if_pos hvfork, VforkHolds]
  by_cases htold : TidsAccessible request resources parent resumed
  · rw [finishClone_told htold, if_neg (by omega), Int.toNat_natCast, hmade.startsAsRequested_iff,
      keepsStack_iff, hbase, hchild]
    exact ⟨fun h => ⟨fun _ => h, fun hnot => absurd htold hnot⟩, fun h => h.1 htold⟩
  · obtain ⟨herror, hpm⟩ := finishClone_untold childId htold
    have hchildren : s.NoNewChild parent
        (resumed.finishClone request resources parent childId).2 ↔ s.NoNewChild parent resumed := by
      simp only [NoNewChild, IsChild, LogicLayer.Live, LogicLayer.status, LogicLayer.processes, hpm]
    rw [herror, if_pos errEfault_neg, hchildren]
    exact ⟨fun h => ⟨fun hyes => absurd hyes htold, fun _ => h⟩, fun h => h.2 htold⟩

/-- Another child, which goes on after the call. -/
theorem clonesAsRequested_other (hvfork : ¬request.has cloneVfork)
    (haccepted : request.checkFlags = none) (hfree : s.logic.status childId = .terminated)
    {parentSpace : ℕ} (hspace : (s.logic.processes parent).addressSpace = some parentSpace)
    (hmake : s.makeChild request resources parent = ((childId : ℤ), after))
    (hmade : MadeChild s after parent childId rsp base space memory) :
    s.ClonesAsRequested request resources parent resumed ↔
      TidsAccessible request resources parent s ∧
      rsp = s.sharedStack request parent ∧
      (if request.has cloneSettls then request.newTls else base) = s.requestedFSBase request ∧
      TidsApart request childId ∧
      (request.has cloneChildSettid →
        (toldMemory request parentSpace childId memory space).load request.childTid 4 =
          childId) := by
  have hlt : childId < maxProcesses := hmade.isChild.1.1
  have hcontinued : s.continued request resources parent resumed = after := by
    rw [continued, if_neg hvfork, hmake]
  have haccess : TidsAccessible request resources parent after ↔
      TidsAccessible request resources parent s := by
    rw [TidsAccessible, TidsAccessible, hmade.parentSpace]
  rw [ClonesAsRequested, goesOn, if_neg hvfork, handleCloneSystemCall_of_made haccepted hmake,
    hcontinued]
  by_cases htold : TidsAccessible request resources parent after
  · have hparent : (request.has cloneParentSettid →
        ∀ own ∈ (s.logic.processes parent).addressSpace,
          (toldMemory request parentSpace childId memory own).load request.parentTid 4 = childId) ↔
            TidsApart request childId := by
      constructor
      · intro h hflag
        exact (load_toldMemory_parent hlt hflag).mp (h hflag parentSpace hspace) hflag
      · rintro h hflag own hown
        obtain rfl := Option.some.inj (hspace.symm.trans hown)
        exact (load_toldMemory_parent hlt hflag).mpr h
    rw [finishClone_told htold, if_neg (by omega), Int.toNat_natCast,
      (hmade.finishClone hspace htold).startsAsRequested_iff, hparent]
    exact (and_iff_right (haccess.mp htold)).symm
  · obtain ⟨herror, hpm⟩ := finishClone_untold childId htold
    rw [herror, if_pos errEfault_neg]
    refine iff_of_false (fun hnone => hnone childId hfree ?_) fun h => htold (haccess.mpr h.1)
    rw [IsChild, LogicLayer.Live, LogicLayer.status, LogicLayer.processes, hpm]
    exact hmade.isChild

theorem checkFlags_neg {error : ℤ} (h : request.checkFlags = some error) : error < 0 := by
  rw [CloneRequest.checkFlags] at h
  split_ifs at h <;> exact Option.some.inj h ▸ by decide

/-- The condition of a call that makes a child. -/
theorem cloneHolds_iff (hmakes : s.MakesChild request resources parent childId) :
    s.CloneHolds request resources parent resumed ↔
      if request.has cloneVfork then s.VforkHolds request resources parent resumed childId
      else s.OtherHolds request resources parent childId := by
  refine ⟨fun h => h childId hmakes, fun h other hother => ?_⟩
  obtain rfl : childId = other := Option.some.inj (hmakes.free.symm.trans hother.free)
  exact h

/-- A call that makes a child starts it as asked for exactly under the condition. -/
theorem clonesAsRequested_of_makesChild (h : s.InSystemCall parent)
    (hmakes : s.MakesChild request resources parent childId) :
    s.ClonesAsRequested request resources parent resumed ↔
      s.CloneHolds request resources parent resumed := by
  obtain ⟨space, hspace⟩ := Option.isSome_iff_exists.mp hmakes.hasSpace
  have hready := hmakes.ready
  have hfree : s.logic.status childId = .terminated :=
    (firstTerminated_spec hmakes.free).2
  have hsettls : (if request.has cloneSettls then request.newTls else s.liveFSBase) =
      s.requestedFSBase request := rfl
  rw [cloneHolds_iff hmakes]
  split_ifs at hready ⊢ with hvfork hvm
  · obtain ⟨after, hmake, hmade⟩ :=
      vforkChild_made h hspace hready.1 hmakes.free hready.2
    refine clonesAsRequested_vfork hvfork hmakes.accepted hspace ?_ hmade
    rw [makeChild, if_pos hvfork, hmake]
  · obtain ⟨after, hmake, hmade⟩ :=
      sharingChild_made request h hspace hmakes.free hready
    have hbase : (if request.has cloneSettls then request.newTls else s.sharedFSBase request) =
        s.requestedFSBase request := by
      rw [sharedFSBase, requestedFSBase]
      split_ifs <;> rfl
    rw [clonesAsRequested_other hvfork hmakes.accepted hfree hspace
      (by rw [makeChild, if_neg hvfork, if_pos hvm, hmake]) hmade, OtherHolds]
    refine and_congr_right fun _ => ?_
    rw [and_iff_right rfl, and_iff_right hbase]
    refine and_congr_right fun _ => iff_of_true (fun hflag => ?_) (.inl hvm)
    exact load_toldMemory_child hmade.isChild.1.1 hflag
  · obtain ⟨after, hmake, hmade⟩ :=
      forkChild_made h hmakes.hasSpace hready.1 hmakes.free hready.2
    have hne : s.logic.nextAddressSpace ≠ space := (h.space_lt space hspace).ne'
    rw [clonesAsRequested_other hvfork hmakes.accepted hfree hspace
      (by rw [makeChild, if_neg hvfork, if_neg hvm, hmake]) hmade, OtherHolds, keepsStack_iff,
      toldMemory_of_ne hne, update_self, or_iff_right hvm]
    refine and_congr_right fun _ => ?_
    rw [and_iff_right hsettls]
    exact and_left_comm

/-- A call that makes no child fails, and there is none. -/
theorem clonesAsRequested_of_refused (h : s.InSystemCall parent)
    (hnot : ∀ childId, ¬s.MakesChild request resources parent childId) :
    s.ClonesAsRequested request resources parent resumed := by
  rw [ClonesAsRequested, handleCloneSystemCall]
  rcases hflags : request.checkFlags with _ | error
  · obtain ⟨herror, hnone⟩ : (s.makeChild request resources parent).1 < 0 ∧
        s.NoNewChild parent (s.makeChild request resources parent).2 := by
      rw [makeChild]
      split_ifs with hvfork hvm
      · exact vforkChild_refused h fun childId hfree hsome hready =>
          hnot childId ⟨hflags, hfree, hsome, by rwa [if_pos hvfork]⟩
      · exact sharingChild_refused h fun childId hfree hsome hready =>
          hnot childId ⟨hflags, hfree, hsome, by rwa [if_neg hvfork, if_pos hvm]⟩
      · exact forkChild_refused fun childId hfree hsome hready =>
          hnot childId ⟨hflags, hfree, hsome, by rwa [if_neg hvfork, if_neg hvm]⟩
    dsimp only
    rw [if_pos herror, if_pos herror]
    exact hnone
  · dsimp only
    rw [if_pos (checkFlags_neg hflags)]
    exact .of_status fun _ hfree => hfree

/-- `clone` starts a child as it was asked to, or fails and leaves no child, exactly under the
condition. -/
theorem clonesAsRequested_iff (h : s.InSystemCall parent) :
    s.ClonesAsRequested request resources parent resumed ↔
      s.CloneHolds request resources parent resumed := by
  by_cases hmakes : ∃ childId, s.MakesChild request resources parent childId
  · obtain ⟨childId, hmakes⟩ := hmakes
    exact clonesAsRequested_of_makesChild h hmakes
  · rw [not_exists] at hmakes
    exact iff_of_true (clonesAsRequested_of_refused h hmakes) fun childId hchild =>
      absurd hchild (hmakes childId)

/-! ### A thread and a fork with a stack of its own -/

/-- A running process in a system call. -/
def cloneCaller : CloneState where
  logic :=
    { pm :=
        { processes := fun id => if id = 0 then
            { status := .running, level := .user, addressSpace := some 0,
              hasSavedSystemCallFrame := true, savedSystemCallFrame := { rsp := 0x7000 } } else {}
          currentProcessId := 0 }
      nextAddressSpace := 1 }

theorem inSystemCall_cloneCaller : cloneCaller.InSystemCall 0 where
  lt := by decide
  running := rfl
  saved := rfl
  space_lt := by
    rintro space hspace
    obtain rfl : 0 = space := Option.some.inj hspace
    decide

/-- `CLONE_VM` and `CLONE_SETTLS` with a stack. -/
def threadRequest : CloneRequest where
  flags := cloneVm ||| cloneSettls
  childStack := 0x5000
  newTls := 0x9000

/-- A thread starts on its stack and with its thread pointer. -/
theorem clonesAsRequested_threadRequest :
    cloneCaller.ClonesAsRequested threadRequest {} 0 cloneCaller := by
  refine (clonesAsRequested_iff inSystemCall_cloneCaller).mpr fun childId _ => ?_
  have hvfork : ¬threadRequest.has cloneVfork := by decide
  have hparent : ¬threadRequest.has cloneParentSettid := by decide
  have hchild : ¬threadRequest.has cloneChildSettid := by decide
  rw [if_neg hvfork]
  exact ⟨⟨fun hflag => absurd hflag hparent, fun hflag => absurd hflag hchild⟩,
    fun hflag => absurd hflag hparent, .inl (by decide)⟩

/-- No flags but the signal `SIGCHLD`, with a stack. -/
def forkRequest : CloneRequest where
  flags := 17
  childStack := 0x5000

/-- A child that is not in the address space of its caller starts on the stack of the caller. -/
theorem not_clonesAsRequested_forkRequest : ¬∀ (s resumed : CloneState) (request : CloneRequest)
    (resources : CloneResources) (parent : ℕ), s.InSystemCall parent →
      s.ClonesAsRequested request resources parent resumed := by
  intro h
  have hclones := h _ cloneCaller forkRequest {} 0 inSystemCall_cloneCaller
  have hresult : (cloneCaller.handleCloneSystemCall forkRequest {} 0 cloneCaller).1 = 1 := by
    decide +kernel
  have hstack : ((cloneCaller.goesOn forkRequest {} 0 cloneCaller).logic.processes 1).state.rsp =
      0x7000 := by decide +kernel
  rw [ClonesAsRequested, hresult, if_neg (by decide)] at hclones
  have hasked := congrArg UserRegisters.rsp hclones.registers
  exact absurd (hstack.symm.trans hasked) (by decide +kernel)

end CloneState

end TwistedOS
