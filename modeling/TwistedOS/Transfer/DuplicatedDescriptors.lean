import TwistedOS.KernelParameters
import TwistedOS.Transfer.TransferCalls

/-!
# Duplicated descriptors of regular files

Each entry of a file table points to a `File` of its own, with the offset and the status flags. The
four paths that duplicate a descriptor (`dup2`, `fcntl`, `CopyProcess` and the part of `clone` that
shares the memory) allocate a new `File` and copy the old one into it. The inode is shared, and
nothing else is: an operation through one descriptor leaves the files of all others alone.

The descriptors here are those of regular files. What the memory of a caller contains is an argument
of its call, as are the answers of `new`.

## Main definitions

* `DescriptorFile`, `FileTables`, `DescriptorCall`, `FileTables.run`.
* `FileTables.Duplicates` — a call makes one descriptor from another.
* `FileTables.KeepsOwnFile`, `FileTables.SharesFile`.

## Main results

* `FileTables.Duplicates.keepsOwnFile`
* `FileTables.not_sharesFile_dup2`
-/

namespace TwistedOS

/-- `LINUX_FD_CLOEXEC`. -/
def fdCloexec : UInt64 := 0x1

/-- `LINUX_FCNTL_SETFL_ALLOWED`: the flags of appending, not blocking, signals, direct access and
access times. -/
def fcntlSetflAllowed : UInt64 := 0x400 ||| 0x800 ||| 0x2000 ||| 0x4000 ||| 0x40000

namespace FileError

/-- `LINUX_ERR_ENOMEM`. -/
def enomem : ℤ := -12

/-- `LINUX_ERR_EMFILE`. -/
def emfile : ℤ := -24

end FileError

/-- `File`, without the directory entry. -/
structure DescriptorFile where
  fileDescriptor : ℕ
  node : ℕ
  currentOffset : ℕ := 0
  accessFlags : FileFlags
  openFlags : UInt64 := 0
  descriptorFlags : UInt64 := 0
  deriving DecidableEq, Repr

namespace DescriptorFile

variable (file : DescriptorFile)

/-- Replaces the offset. -/
def setOffset (offset : ℕ) : DescriptorFile := { file with currentOffset := offset }

/-- The status flags after `LINUX_F_SETFL`. -/
def setStatusFlags (argument : UInt64) : DescriptorFile :=
  { file with
    openFlags := (file.openFlags &&& ~~~fcntlSetflAllowed) ||| (argument &&& fcntlSetflAllowed) }

/-- The descriptor flags after `LINUX_F_SETFD`. -/
def setDescriptorFlags (argument : UInt64) : DescriptorFile :=
  { file with descriptorFlags := argument &&& fdCloexec }

/-- The copy of a file for another entry of the table. -/
def duplicate (fileDescriptor : ℕ) (descriptorFlags : UInt64) : DescriptorFile :=
  { file with
    fileDescriptor := fileDescriptor
    descriptorFlags := descriptorFlags }

/-- The inode, the offset, the access flags and the status flags agree. -/
structure SameOpening (a b : DescriptorFile) : Prop where
  node : a.node = b.node
  currentOffset : a.currentOffset = b.currentOffset
  accessFlags : a.accessFlags = b.accessFlags
  openFlags : a.openFlags = b.openFlags

theorem duplicate_sameOpening (fileDescriptor : ℕ) (descriptorFlags : UInt64) :
    (file.duplicate fileDescriptor descriptorFlags).SameOpening file := ⟨rfl, rfl, rfl, rfl⟩

end DescriptorFile

/-- An entry of the file table of a process. -/
structure Descriptor where
  process : ℕ
  fileDescriptor : ℕ
  deriving DecidableEq, Repr

/-- The inodes, and the file tables of the processes. -/
structure FileTables where
  nodes : ℕ → FileINode
  fileTable : Descriptor → Option DescriptorFile := fun _ => none

/-- What a transfer gets from the rest of the kernel: the pages that are mapped for the caller, its
memory, and the resources of the operations on the inode. -/
structure CallerContext where
  pages : ℕ → Bool := fun _ => true
  memory : ByteMemory := fun _ => 0
  resources : ℕ → KernelResources := fun _ => {}

namespace FileTables

variable (s : FileTables)

/-- `FileTable[FileDescriptor]`, with the check that precedes it. -/
def openFile (d : Descriptor) : Option DescriptorFile :=
  if d.fileDescriptor < maxOpenFilesPerProcess then s.fileTable d else none

/-- Replaces an entry. -/
def setFile (d : Descriptor) (file : Option DescriptorFile) : FileTables :=
  { s with fileTable := Function.update s.fileTable d file }

/-- Replaces an inode. -/
def setNode (id : ℕ) (node : FileINode) : FileTables :=
  { s with nodes := Function.update s.nodes id node }

/-- Replaces the table of a process. -/
def setTable (process : ℕ) (table : ℕ → Option DescriptorFile) : FileTables :=
  { s with
    fileTable := fun d => if d.process = process then table d.fileDescriptor else s.fileTable d }

/-! ### The calls -/

/-- The caller of a transfer through a file. -/
def caller (file : DescriptorFile) (context : CallerContext) : Caller where
  pages := context.pages
  state :=
    { object := .regular ⟨s.nodes file.node, file.currentOffset, context.resources⟩
      memory := context.memory }
  accessFlags := file.accessFlags

/-- The inode and the offset after a transfer through a file. -/
def storeTransfer (d : Descriptor) (file : DescriptorFile) : ByteObject → FileTables
  | .regular after =>
    (s.setNode file.node after.node).setFile d (some (file.setOffset after.currentOffset))
  | .pipe _ | .socket _ => s

/-- `HandleReadSystemCall`, `HandleWriteSystemCall`, `HandleReadvSystemCall` and
`HandleWritevSystemCall`. Without a file the checks end where the access flags would be refused. -/
def transfer (d : Descriptor) (call : TransferCall) (context : CallerContext) :
    Option ℤ × FileTables :=
  match s.openFile d with
  | none => (call.refusal call.refusedFlags, s)
  | some file =>
    (((s.caller file context).run call).1,
      s.storeTransfer d file ((s.caller file context).run call).2.state.object)

/-- `HandleLseekSystemCall`. -/
def lseek (d : Descriptor) (offset : ℤ) (whence : Option FileStore.Whence) :
    Except ℤ ℤ × FileTables :=
  match s.openFile d with
  | none => (.error FileError.ebadf, s)
  | some file =>
    let store : FileStore :=
      { nodes := s.nodes
        files := fun _ => some ⟨file.node, file.currentOffset⟩ }
    match (store.lseek 0 offset whence).1 with
    | .error code => (.error code, s)
    | .ok position => (.ok position, s.setFile d (some (file.setOffset position.toNat)))

/-- The commands of `HandleFcntlSystemCall` that change the flags of a file. -/
def changeFlags (d : Descriptor) (change : DescriptorFile → DescriptorFile) :
    Except ℤ ℤ × FileTables :=
  match s.openFile d with
  | none => (.error FileError.ebadf, s)
  | some file => (.ok 0, s.setFile d (some (change file)))

/-- `HandleCloseSystemCall`. -/
def close (d : Descriptor) : Except ℤ ℤ × FileTables :=
  match s.openFile d with
  | none => (.error FileError.ebadf, s)
  | some _ => (.ok 0, s.setFile d none)

/-- `HandleDup2SystemCall`. What was open at the new descriptor is closed first. -/
def dup2 (process oldFileDescriptor newFileDescriptor : ℕ) (allocated : Bool) :
    Except ℤ ℕ × FileTables :=
  if maxOpenFilesPerProcess ≤ oldFileDescriptor ∨ maxOpenFilesPerProcess ≤ newFileDescriptor then
    (.error FileError.ebadf, s)
  else
    match s.openFile ⟨process, oldFileDescriptor⟩ with
    | none => (.error FileError.ebadf, s)
    | some source =>
      if oldFileDescriptor = newFileDescriptor then (.ok newFileDescriptor, s)
      else
        let closed := (s.close ⟨process, newFileDescriptor⟩).2
        if !allocated then (.error FileError.enomem, closed)
        else
          (.ok newFileDescriptor, closed.setFile ⟨process, newFileDescriptor⟩
            (some (source.duplicate newFileDescriptor 0)))

/-- The first free entry from a minimum on. -/
def freeDescriptor (process minimum : ℕ) : Option ℕ :=
  (List.range' minimum (maxOpenFilesPerProcess - minimum)).find? fun fileDescriptor =>
    (s.fileTable ⟨process, fileDescriptor⟩).isNone

/-- `DuplicateFromMinimum` in `HandleFcntlSystemCall`. -/
def duplicateFromMinimum (d : Descriptor) (minimum : ℕ) (setCloseOnExec allocated : Bool) :
    Except ℤ ℕ × FileTables :=
  match s.openFile d with
  | none => (.error FileError.ebadf, s)
  | some source =>
    if maxOpenFilesPerProcess ≤ minimum then (.error FileError.einval, s)
    else
      match s.freeDescriptor d.process minimum with
      | none => (.error FileError.emfile, s)
      | some candidate =>
        if !allocated then (.error FileError.enomem, s)
        else
          (.ok candidate, s.setFile ⟨d.process, candidate⟩
            (some (source.duplicate candidate (if setCloseOnExec then fdCloexec else 0))))

/-- The loop over the file table in `CopyProcess`, which serves `fork` and `vfork`, and the one in
`HandleCloneSystemCall`, with or without `LINUX_CLONE_FILES`. A child is given up when one of its
files cannot be allocated. -/
def copyProcess (parent child : ℕ) (allocated : ℕ → Bool) : Bool × FileTables :=
  if (List.range maxOpenFilesPerProcess).all fun fileDescriptor =>
      (s.openFile ⟨parent, fileDescriptor⟩).isNone || allocated fileDescriptor then
    (true, s.setTable child fun fileDescriptor => s.openFile ⟨parent, fileDescriptor⟩)
  else (false, s.setTable child fun _ => none)

end FileTables

/-- A call that uses file tables. -/
inductive DescriptorCall where
  | transfer (d : Descriptor) (call : TransferCall) (context : CallerContext)
  | lseek (d : Descriptor) (offset : ℤ) (whence : Option FileStore.Whence)
  /-- `fcntl` with `LINUX_F_SETFL`. -/
  | setStatusFlags (d : Descriptor) (argument : UInt64)
  /-- `fcntl` with `LINUX_F_SETFD`. -/
  | setDescriptorFlags (d : Descriptor) (argument : UInt64)
  | dup2 (process oldFileDescriptor newFileDescriptor : ℕ) (allocated : Bool)
  /-- `fcntl` with `LINUX_F_DUPFD` and `LINUX_F_DUPFD_CLOEXEC`. -/
  | duplicateFromMinimum (d : Descriptor) (minimum : ℕ) (setCloseOnExec allocated : Bool)
  /-- `fork`, `vfork` and `clone`. -/
  | copyProcess (parent child : ℕ) (allocated : ℕ → Bool)
  | close (d : Descriptor)
  | exit (process : ℕ)

/-- The call goes through a descriptor, or replaces what is open there. -/
def DescriptorCall.Concerns (d : Descriptor) : DescriptorCall → Prop
  | transfer d' _ _ | lseek d' _ _ | setStatusFlags d' _ | setDescriptorFlags d' _ | close d' =>
    d' = d
  | dup2 process _ newFileDescriptor _ => ⟨process, newFileDescriptor⟩ = d
  | duplicateFromMinimum _ _ _ _ => False
  | copyProcess _ child _ => child = d.process
  | exit process => process = d.process

/-- The call goes through an open descriptor; it opens none, and closes none. -/
def DescriptorCall.UsesFile : DescriptorCall → Prop
  | transfer _ _ _ | lseek _ _ _ | setStatusFlags _ _ | setDescriptorFlags _ _ => True
  | _ => False

namespace FileTables

variable (s : FileTables)

/-- The state after a call. -/
def step : DescriptorCall → FileTables
  | .transfer d call context => (s.transfer d call context).2
  | .lseek d offset whence => (s.lseek d offset whence).2
  | .setStatusFlags d argument => (s.changeFlags d (·.setStatusFlags argument)).2
  | .setDescriptorFlags d argument => (s.changeFlags d (·.setDescriptorFlags argument)).2
  | .dup2 process oldFileDescriptor newFileDescriptor allocated =>
    (s.dup2 process oldFileDescriptor newFileDescriptor allocated).2
  | .duplicateFromMinimum d minimum setCloseOnExec allocated =>
    (s.duplicateFromMinimum d minimum setCloseOnExec allocated).2
  | .copyProcess parent child allocated => (s.copyProcess parent child allocated).2
  | .close d => (s.close d).2
  | .exit process => s.setTable process fun _ => none

/-- The state after calls, one after the other. -/
def run (calls : List DescriptorCall) : FileTables := calls.foldl step s

/-- A call makes the descriptor `d'` from `d`. -/
inductive Duplicates : DescriptorCall → Descriptor → Descriptor → Prop
  | dup2 {process oldFileDescriptor newFileDescriptor : ℕ} {allocated : Bool}
    (hok : (s.dup2 process oldFileDescriptor newFileDescriptor allocated).1 = .ok newFileDescriptor)
    (hne : oldFileDescriptor ≠ newFileDescriptor) :
    Duplicates (.dup2 process oldFileDescriptor newFileDescriptor allocated)
      ⟨process, oldFileDescriptor⟩ ⟨process, newFileDescriptor⟩
  | fcntl {d : Descriptor} {minimum candidate : ℕ} {setCloseOnExec allocated : Bool}
    (hok : (s.duplicateFromMinimum d minimum setCloseOnExec allocated).1 = .ok candidate) :
    Duplicates (.duplicateFromMinimum d minimum setCloseOnExec allocated) d ⟨d.process, candidate⟩
  | inherit {parent child fileDescriptor : ℕ} {allocated : ℕ → Bool}
    (hok : (s.copyProcess parent child allocated).1 = true) (hne : parent ≠ child)
    (hopen : (s.openFile ⟨parent, fileDescriptor⟩).isSome) :
    Duplicates (.copyProcess parent child allocated) ⟨parent, fileDescriptor⟩
      ⟨child, fileDescriptor⟩

/-- The file of a descriptor is the one that the last call through it has left, whatever the calls
through others do. -/
def KeepsOwnFile (d : Descriptor) : Prop :=
  ∀ calls later file, (s.run calls).openFile d = some file → (∀ call ∈ later, ¬ call.Concerns d) →
    (s.run (calls ++ later)).openFile d = some file

/-- The offset and the status flags of two descriptors agree in every run in which both stay
open. -/
def SharesFile (d d' : Descriptor) : Prop :=
  ∀ calls file file', (∀ call ∈ calls, call.UsesFile) → (s.run calls).openFile d = some file →
    (s.run calls).openFile d' = some file' →
      file.currentOffset = file'.currentOffset ∧ file.openFlags = file'.openFlags

/-! ### Operations on a file -/

variable {s}

section Transfer

variable {file : DescriptorFile}

/-- The object of a transfer is a regular file. -/
def IsRegular (t : TransferState) : Prop := ∃ after, t.object = .regular after

theorem isRegular_readChunk (pages : ℕ → Bool) (address size : ℕ) {t : TransferState}
    (ht : IsRegular t) : IsRegular (readChunk pages address size t).state := by
  obtain ⟨after, hafter⟩ := ht
  rw [readChunk, hafter, ByteObject.read, finishRead]
  rcases ((after.read size).lift ByteObject.regular).result with _ | code | bytes
  · exact ⟨_, rfl⟩
  · exact ⟨_, rfl⟩
  · dsimp only
    split_ifs
    · exact ⟨_, rfl⟩
    · exact ⟨_, rfl⟩

theorem isRegular_writeChunk (pages : ℕ → Bool) (address size : ℕ) {t : TransferState}
    (ht : IsRegular t) : IsRegular (writeChunk pages address size t).state := by
  rw [writeChunk]
  split_ifs
  · obtain ⟨after, hafter⟩ := ht
    rw [hafter, ByteObject.write, finishWrite]
    rcases ((after.write (t.copyIn address size)).lift ByteObject.regular).result with
      _ | code | count
    · exact ⟨_, rfl⟩
    · exact ⟨_, rfl⟩
    · exact ⟨_, rfl⟩
  · exact ht

theorem isRegular_step (w : Caller) (call : TransferCall) (address size : ℕ) (t : TransferState)
    (ht : IsRegular t) : IsRegular ((w.step call).run address size t).state := by
  rw [Caller.step]
  split_ifs
  · exact isRegular_readChunk w.pages address size ht
  · exact isRegular_writeChunk w.pages address size ht

/-- A transfer through a regular file ends with a regular file. -/
theorem isRegular_run (w : Caller) (call : TransferCall) (hw : IsRegular w.state) :
    IsRegular (w.run call).2.state := by
  unfold Caller.run
  split
  · exact hw
  · exact ChunkStep.transferSegment_preserves (isRegular_step w _) _ _ _ _ hw
  · exact ChunkStep.transferSegment_preserves (isRegular_step w _) _ _ _ _ hw
  · exact ChunkStep.transferTable_preserves (isRegular_step w _) _ _ _ _ _ hw
  · exact ChunkStep.transferTable_preserves (isRegular_step w _) _ _ _ _ _ hw

/-- A transfer moves the offset of its own file, and changes its inode. -/
theorem transfer_eq {d : Descriptor} (hfile : s.openFile d = some file) (call : TransferCall)
    (context : CallerContext) : ∃ node offset, (s.transfer d call context).2 =
      (s.setNode file.node node).setFile d (some (file.setOffset offset)) := by
  obtain ⟨after, hafter⟩ := isRegular_run (s.caller file context) call ⟨_, rfl⟩
  refine ⟨after.node, after.currentOffset, ?_⟩
  rw [transfer, hfile]
  dsimp only
  rw [hafter, storeTransfer]

end Transfer

/-! ### Other descriptors -/

section Frame

variable {d d' : Descriptor} {file : DescriptorFile}

theorem openFile_setFile_of_ne (hne : d ≠ d') (file : Option DescriptorFile) :
    (s.setFile d file).openFile d' = s.openFile d' := by
  rw [openFile, openFile, setFile]
  dsimp only
  rw [Function.update_of_ne hne.symm]

theorem openFile_setFile (hd : d.fileDescriptor < maxOpenFilesPerProcess)
    (file : Option DescriptorFile) : (s.setFile d file).openFile d = file := by
  rw [openFile, if_pos hd, setFile]
  dsimp only
  rw [Function.update_self]

@[simp] theorem openFile_setNode (id : ℕ) (node : FileINode) :
    (s.setNode id node).openFile d = s.openFile d := rfl

theorem openFile_setTable_of_ne {process : ℕ} (hne : process ≠ d.process)
    (table : ℕ → Option DescriptorFile) : (s.setTable process table).openFile d = s.openFile d := by
  rw [openFile, openFile, setTable]
  dsimp only
  rw [if_neg hne.symm]

theorem lt_of_openFile (h : s.openFile d = some file) :
    d.fileDescriptor < maxOpenFilesPerProcess := by
  rw [openFile] at h
  split_ifs at h with hlt
  exact hlt

theorem fileTable_of_openFile (h : s.openFile d = some file) : s.fileTable d = some file := by
  rwa [openFile, if_pos (lt_of_openFile h)] at h

theorem openFile_transfer_of_ne (hne : d ≠ d') (call : TransferCall) (context : CallerContext) :
    (s.transfer d call context).2.openFile d' = s.openFile d' := by
  cases hfile : s.openFile d with
  | none => rw [transfer, hfile]
  | some file =>
    obtain ⟨node, offset, heq⟩ := transfer_eq hfile call context
    rw [heq, openFile_setFile_of_ne hne, openFile_setNode]

theorem openFile_lseek_of_ne (hne : d ≠ d') (offset : ℤ) (whence : Option FileStore.Whence) :
    (s.lseek d offset whence).2.openFile d' = s.openFile d' := by
  rw [lseek]
  cases s.openFile d with
  | none => rfl
  | some file =>
    dsimp only
    split
    · rfl
    · exact openFile_setFile_of_ne hne _

theorem openFile_changeFlags_of_ne (hne : d ≠ d') (change : DescriptorFile → DescriptorFile) :
    (s.changeFlags d change).2.openFile d' = s.openFile d' := by
  rw [changeFlags]
  cases s.openFile d with
  | none => rfl
  | some file => exact openFile_setFile_of_ne hne _

theorem openFile_close_of_ne (hne : d ≠ d') : (s.close d).2.openFile d' = s.openFile d' := by
  rw [close]
  cases s.openFile d with
  | none => rfl
  | some file => exact openFile_setFile_of_ne hne _

theorem openFile_dup2_of_ne {process newFileDescriptor : ℕ} (oldFileDescriptor : ℕ)
    (allocated : Bool) (hne : ⟨process, newFileDescriptor⟩ ≠ d) :
    (s.dup2 process oldFileDescriptor newFileDescriptor allocated).2.openFile d =
      s.openFile d := by
  rw [dup2]
  cases s.openFile ⟨process, oldFileDescriptor⟩ with
  | none => split_ifs <;> rfl
  | some source =>
    dsimp only
    split_ifs
    · rfl
    · rfl
    · exact openFile_close_of_ne hne
    · exact (openFile_setFile_of_ne hne _).trans (openFile_close_of_ne hne)

theorem freeDescriptor_eq {process minimum candidate : ℕ}
    (h : s.freeDescriptor process minimum = some candidate) :
    candidate < maxOpenFilesPerProcess ∧ s.fileTable ⟨process, candidate⟩ = none := by
  have hmem := List.mem_of_find?_eq_some h
  have hfree : (s.fileTable ⟨process, candidate⟩).isNone = true := by
    simpa using List.find?_some h
  rw [List.mem_range'_1] at hmem
  exact ⟨by omega, Option.isNone_iff_eq_none.mp hfree⟩

/-- `fcntl` takes a descriptor where nothing is open. -/
theorem openFile_duplicateFromMinimum (hfile : s.openFile d' = some file) (minimum : ℕ)
    (setCloseOnExec allocated : Bool) :
    (s.duplicateFromMinimum d minimum setCloseOnExec allocated).2.openFile d' = some file := by
  rw [duplicateFromMinimum]
  cases s.openFile d with
  | none => exact hfile
  | some source =>
    cases hfree : s.freeDescriptor d.process minimum with
    | none =>
      dsimp only
      split_ifs <;> exact hfile
    | some candidate =>
      have hne : (⟨d.process, candidate⟩ : Descriptor) ≠ d' := by
        rintro rfl
        have hopen := fileTable_of_openFile hfile
        rw [(freeDescriptor_eq hfree).2] at hopen
        exact Option.some_ne_none _ hopen.symm
      dsimp only
      split_ifs
      · exact hfile
      · exact hfile
      · exact (openFile_setFile_of_ne hne _).trans hfile
      · exact (openFile_setFile_of_ne hne _).trans hfile

theorem openFile_copyProcess_of_ne (parent : ℕ) {child : ℕ} (allocated : ℕ → Bool)
    (hne : child ≠ d.process) :
    (s.copyProcess parent child allocated).2.openFile d = s.openFile d := by
  rw [copyProcess]
  split_ifs
  · exact openFile_setTable_of_ne hne fun fileDescriptor => s.openFile ⟨parent, fileDescriptor⟩
  · exact openFile_setTable_of_ne hne fun _ => none

/-- A call that does not concern an open descriptor leaves its file alone. -/
theorem openFile_step {call : DescriptorCall} (hfile : s.openFile d = some file)
    (h : ¬ call.Concerns d) : (s.step call).openFile d = some file := by
  cases call with
  | transfer d' call context => exact (openFile_transfer_of_ne h call context).trans hfile
  | lseek d' offset whence => exact (openFile_lseek_of_ne h offset whence).trans hfile
  | setStatusFlags d' argument => exact (openFile_changeFlags_of_ne h _).trans hfile
  | setDescriptorFlags d' argument => exact (openFile_changeFlags_of_ne h _).trans hfile
  | dup2 process oldFileDescriptor newFileDescriptor allocated =>
    exact (openFile_dup2_of_ne oldFileDescriptor allocated h).trans hfile
  | duplicateFromMinimum d' minimum setCloseOnExec allocated =>
    exact openFile_duplicateFromMinimum hfile minimum setCloseOnExec allocated
  | copyProcess parent child allocated =>
    exact (openFile_copyProcess_of_ne parent allocated h).trans hfile
  | close d' => exact (openFile_close_of_ne h).trans hfile
  | exit process => exact (openFile_setTable_of_ne h fun _ => none).trans hfile

/-- Calls that do not concern an open descriptor leave its file alone. -/
theorem openFile_run (hfile : s.openFile d = some file) (calls : List DescriptorCall)
    (h : ∀ call ∈ calls, ¬ call.Concerns d) : (s.run calls).openFile d = some file := by
  induction calls generalizing s with
  | nil => exact hfile
  | cons call calls ih =>
    have hstep := openFile_step hfile (h call List.mem_cons_self)
    exact ih hstep fun later hlater => h later (List.mem_cons_of_mem call hlater)

theorem keepsOwnFile_always (s : FileTables) (d : Descriptor) : s.KeepsOwnFile d := by
  intro calls later file hfile hlater
  rw [run, List.foldl_append]
  exact openFile_run hfile later hlater

end Frame

/-! ### Duplication -/

theorem dup2_eq_ok {process oldFileDescriptor newFileDescriptor : ℕ} {allocated : Bool}
    (hok : (s.dup2 process oldFileDescriptor newFileDescriptor allocated).1 = .ok newFileDescriptor)
    (hne : oldFileDescriptor ≠ newFileDescriptor) :
    newFileDescriptor < maxOpenFilesPerProcess ∧
      ∃ source, s.openFile ⟨process, oldFileDescriptor⟩ = some source ∧
        (s.dup2 process oldFileDescriptor newFileDescriptor allocated).2 =
          (s.close ⟨process, newFileDescriptor⟩).2.setFile ⟨process, newFileDescriptor⟩
            (some (source.duplicate newFileDescriptor 0)) := by
  rw [dup2] at hok ⊢
  cases hsource : s.openFile ⟨process, oldFileDescriptor⟩ with
  | none =>
    rw [hsource] at hok
    split_ifs at hok
  | some source =>
    rw [hsource] at hok
    dsimp only at hok ⊢
    rw [if_neg hne] at hok ⊢
    split_ifs at hok ⊢ with hmax
    exact ⟨by omega, source, rfl, rfl⟩

theorem duplicateFromMinimum_eq_ok {d : Descriptor} {minimum candidate : ℕ}
    {setCloseOnExec allocated : Bool}
    (hok : (s.duplicateFromMinimum d minimum setCloseOnExec allocated).1 = .ok candidate) :
    candidate < maxOpenFilesPerProcess ∧ ∃ source flags, s.openFile d = some source ∧
      (s.duplicateFromMinimum d minimum setCloseOnExec allocated).2 =
        s.setFile ⟨d.process, candidate⟩ (some (source.duplicate candidate flags)) := by
  rw [duplicateFromMinimum] at hok ⊢
  cases hsource : s.openFile d with
  | none =>
    rw [hsource] at hok
    cases hok
  | some source =>
    rw [hsource] at hok
    cases hfree : s.freeDescriptor d.process minimum with
    | none =>
      rw [hfree] at hok
      dsimp only at hok
      split_ifs at hok
    | some free =>
      rw [hfree] at hok
      dsimp only at hok ⊢
      split_ifs at hok ⊢ <;> cases hok
      · exact ⟨(freeDescriptor_eq hfree).1, source, fdCloexec, rfl, rfl⟩
      · exact ⟨(freeDescriptor_eq hfree).1, source, 0, rfl, rfl⟩

theorem copyProcess_eq_true {parent child : ℕ} {allocated : ℕ → Bool}
    (hok : (s.copyProcess parent child allocated).1 = true) :
    (s.copyProcess parent child allocated).2 =
      s.setTable child fun fileDescriptor => s.openFile ⟨parent, fileDescriptor⟩ := by
  rw [copyProcess] at hok ⊢
  split_ifs at hok ⊢
  rfl

/-- A call that makes a descriptor from another copies its file. -/
theorem Duplicates.sameOpening {call : DescriptorCall} {d d' : Descriptor}
    (h : s.Duplicates call d d') : ∃ source copy, s.openFile d = some source ∧
      (s.step call).openFile d' = some copy ∧ copy.SameOpening source := by
  cases h with
  | @dup2 process oldFileDescriptor newFileDescriptor allocated hok hne =>
    obtain ⟨hlt, source, hsource, heq⟩ := dup2_eq_ok hok hne
    refine ⟨source, _, hsource, ?_, source.duplicate_sameOpening newFileDescriptor 0⟩
    rw [step, heq, openFile_setFile hlt]
  | @fcntl d minimum candidate setCloseOnExec allocated hok =>
    obtain ⟨hlt, source, flags, hsource, heq⟩ := duplicateFromMinimum_eq_ok hok
    refine ⟨source, _, hsource, ?_, source.duplicate_sameOpening candidate flags⟩
    rw [step, heq, openFile_setFile hlt]
  | @inherit parent child fileDescriptor allocated hok hne hopen =>
    obtain ⟨source, hsource⟩ := Option.isSome_iff_exists.mp hopen
    refine ⟨source, source, hsource, ?_, ⟨rfl, rfl, rfl, rfl⟩⟩
    rw [step, copyProcess_eq_true hok, openFile, if_pos (lt_of_openFile hsource), setTable]
    dsimp only
    rw [if_pos rfl, hsource]

/-- The call that makes a descriptor from another leaves the file of the other alone. -/
theorem Duplicates.openFile_source {call : DescriptorCall} {d d' : Descriptor}
    {source : DescriptorFile} (h : s.Duplicates call d d') (hsource : s.openFile d = some source) :
    (s.step call).openFile d = some source := by
  refine openFile_step hsource ?_
  cases h with
  | dup2 hok hne =>
    intro heq
    exact hne (Descriptor.mk.inj heq).2.symm
  | fcntl hok => exact id
  | inherit hok hne hopen => exact hne.symm

/-- A duplicate starts with the inode, the offset, the access flags and the status flags of its
source. From then on each of the two has those that the last call through it has left, whatever the
calls through the other do. -/
theorem Duplicates.keepsOwnFile {call : DescriptorCall} {d d' : Descriptor}
    (h : s.Duplicates call d d') :
    (∃ source copy, s.openFile d = some source ∧ (s.step call).openFile d = some source ∧
      (s.step call).openFile d' = some copy ∧ copy.SameOpening source) ∧
    (s.step call).KeepsOwnFile d ∧ (s.step call).KeepsOwnFile d' := by
  obtain ⟨source, copy, hsource, hcopy, hsame⟩ := h.sameOpening
  exact ⟨⟨source, copy, hsource, h.openFile_source hsource, hcopy, hsame⟩,
    keepsOwnFile_always _ d, keepsOwnFile_always _ d'⟩

/-! ### Two writers -/

/-- A process with an empty file at descriptor 3, open for reading and writing. -/
def oneOpenFile : FileTables where
  nodes := fun _ => { nodeData := some [] }
  fileTable := Function.update (fun _ => none) ⟨1, 3⟩
    (some { fileDescriptor := 3, node := 0, accessFlags := .readWrite })

theorem duplicates_oneOpenFile : oneOpenFile.Duplicates (.dup2 1 3 4 true) ⟨1, 3⟩ ⟨1, 4⟩ :=
  .dup2 rfl (by decide)

theorem Duplicates.keepsOwnFile_oneOpenFile :
    (∃ source copy, oneOpenFile.openFile ⟨1, 3⟩ = some source ∧
      (oneOpenFile.step (.dup2 1 3 4 true)).openFile ⟨1, 3⟩ = some source ∧
      (oneOpenFile.step (.dup2 1 3 4 true)).openFile ⟨1, 4⟩ = some copy ∧
      copy.SameOpening source) ∧
    (oneOpenFile.step (.dup2 1 3 4 true)).KeepsOwnFile ⟨1, 3⟩ ∧
    (oneOpenFile.step (.dup2 1 3 4 true)).KeepsOwnFile ⟨1, 4⟩ :=
  Duplicates.keepsOwnFile duplicates_oneOpenFile

/-- A write of one byte. -/
def writeByte (fileDescriptor : ℕ) (byte : UInt8) : DescriptorCall :=
  .transfer ⟨1, fileDescriptor⟩ (.write 4096 1) { memory := fun _ => byte }

/-- After `dup2`, a write through each of the two descriptors: the first moves the offset of one of
them only, and the second replaces the byte of the first. -/
theorem not_sharesFile_dup2 :
    oneOpenFile.Duplicates (.dup2 1 3 4 true) ⟨1, 3⟩ ⟨1, 4⟩ ∧
    ¬ (oneOpenFile.step (.dup2 1 3 4 true)).SharesFile ⟨1, 3⟩ ⟨1, 4⟩ ∧
    (((oneOpenFile.step (.dup2 1 3 4 true)).run [writeByte 3 0x61]).nodes 0).nodeData =
      some [0x61] ∧
    (((oneOpenFile.step (.dup2 1 3 4 true)).run [writeByte 3 0x61, writeByte 4 0x62]).nodes
      0).nodeData = some [0x62] := by
  refine ⟨.dup2 rfl (by decide), fun hshares => ?_, by decide +kernel, by decide +kernel⟩
  have hoffset := (hshares [writeByte 3 0x61]
    { fileDescriptor := 3, node := 0, currentOffset := 1, accessFlags := .readWrite }
    { fileDescriptor := 4, node := 0, accessFlags := .readWrite }
    (List.forall_mem_singleton.mpr trivial) (by decide +kernel) (by decide +kernel)).1
  exact absurd hoffset (by decide)

end FileTables

end TwistedOS
