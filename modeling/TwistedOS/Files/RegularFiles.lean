import TwistedOS.Files.ExtendedFileSystem
import TwistedOS.Files.PathResolution

/-!
# Regular files

The content of a regular file is in the buffer `NodeData` of its inode, or on the disk as long as a
lazily loaded inode has no buffer. Reads of such an inode go to the disk. Writes and the start of a
program load the whole content into a buffer; a write that makes the file longer replaces the buffer
by a larger one and makes the inode an ordinary one. The buffer of an inode that is still lazily
loaded is dropped when the last process that runs the file gives it up.

Files are known by number, as are inodes and processes. Memory is not modelled beyond the answers of
`kmalloc`; how a buffer is freed has no effect here.

## Main definitions

* `FileINode`, `FileINode.ensureWritableINodeCapacity`, `FileINode.read`, `FileINode.write`.
* `FileStore`, with `FileStore.lseek`, `FileStore.retainRunningExecutable` and
  `FileStore.releaseRunningExecutable`.
* `FileCall`, `FileStore.run`.
-/

namespace TwistedOS

namespace FileError

/-- `LINUX_ERR_EFAULT`. -/
def efault : ℤ := -14

/-- `LINUX_ERR_EBADF`. -/
def ebadf : ℤ := -9

/-- `LINUX_ERR_EISDIR`. -/
def eisdir : ℤ := -21

/-- `LINUX_ERR_EINVAL`. -/
def einval : ℤ := -22

/-- `LINUX_ERR_ENOSPC`. -/
def enospc : ℤ := -28

/-- `LINUX_ERR_ESPIPE`. -/
def espipe : ℤ := -29

/-- `LINUX_ERR_ENOSYS`. -/
def enosys : ℤ := -38

end FileError

/-- What a call gets from the rest of the kernel: the sectors that the controller reads, and whether
there is memory for the content of an inode and for a larger buffer. -/
structure KernelResources where
  readable : ℕ → Bool := ExtendedFileSystem.everySector
  loadAllocated : Bool := true
  growAllocated : Bool := true

/-- `memcpy` into a buffer at an offset. -/
def copyInto (buffer : List UInt8) (offset : ℕ) (bytes : List UInt8) : List UInt8 :=
  buffer.take offset ++ bytes ++ buffer.drop (offset + bytes.length)

/-- `INode`, with the fields that the content of a regular file depends on. -/
structure FileINode where
  nodeType : FileType := .file
  nodeSize : ℕ := 0
  nodeData : Option (List UInt8) := none
  isLazyLoad : Bool := false
  backingInodeNumber : ℕ := 0
  lazyLoadRefCount : UInt32 := 0
  lazyLoadContext : Option ExtendedFileSystem := none

/-- `File`, with the fields that reading and writing use. -/
structure FileEntry where
  node : ℕ
  currentOffset : ℕ := 0
  deriving DecidableEq, Repr

namespace FileINode

variable (node : FileINode) (resources : KernelResources)

/-- The steps that both versions of `EnsureLazyLoadedINodeData` share: the content of an inode is
loaded into a new buffer. -/
def loadContent : Bool × FileINode :=
  match node.lazyLoadContext with
  | none => (false, node)
  | some fs =>
    if node.backingInodeNumber = 0 ∨ !fs.initialized ∨ !resources.loadAllocated then (false, node)
    else
      match fs.loadInodeData resources.readable node.backingInodeNumber node.nodeSize with
      | none => (false, node)
      | some data => (true, { node with nodeData := some data })

/-- `EnsureLazyLoadedINodeData` of the virtual file system. -/
def ensureLazyLoadedINodeData : Bool × FileINode :=
  if !node.isLazyLoad then (node.nodeData.isSome, node)
  else if node.nodeData.isSome then (true, node)
  else if node.nodeSize = 0 then (true, node)
  else node.loadContent resources

/-- `EnsureLazyLoadedINodeData` of the logic layer, which refuses an empty inode. -/
def ensureExecutableData : Bool × FileINode :=
  if !node.isLazyLoad then (node.nodeData.isSome, node)
  else if node.nodeData.isSome then (true, node)
  else if node.nodeSize = 0 then (false, node)
  else node.loadContent resources

/-- The inode with a larger buffer. -/
def grow (targetSize : ℕ) : FileINode :=
  { node with
    nodeData := some (copyInto (List.replicate targetSize 0) 0
      ((node.nodeData.getD []).take node.nodeSize))
    nodeSize := targetSize
    isLazyLoad := false
    backingInodeNumber := 0
    lazyLoadRefCount := 0
    lazyLoadContext := none }

/-- The end of `EnsureWritableINodeCapacity`. -/
def ensureGrown (requiredSize : ℕ) : Bool × FileINode :=
  if !resources.growAllocated then (false, node)
  else (true, node.grow (max requiredSize node.nodeSize))

/-- `EnsureWritableINodeCapacity`. -/
def ensureWritableINodeCapacity (requiredSize : ℕ) : Bool × FileINode :=
  if requiredSize = 0 then (true, node)
  else if node.nodeData.isSome ∧ requiredSize ≤ node.nodeSize then (true, node)
  else if node.nodeData.isNone ∧ node.isLazyLoad ∧ 0 < node.nodeSize then
    match node.ensureLazyLoadedINodeData resources with
    | (false, loaded) => (false, loaded)
    | (true, loaded) =>
      if loaded.nodeData.isSome ∧ requiredSize ≤ loaded.nodeSize then (true, loaded)
      else loaded.ensureGrown resources requiredSize
  else node.ensureGrown resources requiredSize

/-- The number of bytes that a read gives. -/
def readCount (offset count : ℕ) : ℕ := min count (node.nodeSize - offset)

/-- A read from the buffer of an inode. -/
def readBuffer (offset count : ℕ) : Except ℤ (List UInt8) :=
  match node.nodeData with
  | none => if node.nodeSize = 0 then .ok [] else .error FileError.efault
  | some data =>
    if node.nodeSize ≤ offset then .ok []
    else .ok ((data.drop offset).take (node.readCount offset count))

/-- The file system that a read of an inode without a buffer goes to. -/
def backingFileSystem : Option ExtendedFileSystem :=
  if node.nodeData.isNone ∧ node.isLazyLoad ∧ node.backingInodeNumber ≠ 0 then
    node.lazyLoadContext.filter ExtendedFileSystem.initialized
  else none

/-- A read from the disk. -/
def readRange (fs : ExtendedFileSystem) (offset count : ℕ) : Except ℤ (List UInt8) :=
  if node.nodeSize ≤ offset then .ok []
  else
    match fs.loadInodeDataRange resources.readable node.backingInodeNumber offset
      (node.readCount offset count) with
    | none => .error FileError.efault
    | some bytes => .ok bytes

/-- A read that loads the content first when there is no buffer. -/
def readLoaded (offset count : ℕ) : Except ℤ (List UInt8) × FileINode :=
  if node.nodeData.isNone ∧ node.nodeSize ≠ 0 then
    match node.ensureLazyLoadedINodeData resources with
    | (false, loaded) => (.error FileError.efault, loaded)
    | (true, loaded) => (loaded.readBuffer offset count, loaded)
  else (node.readBuffer offset count, node)

/-- `DefaultReadFileOperation`: the bytes that are read, and the inode afterwards. -/
def read (offset count : ℕ) : Except ℤ (List UInt8) × FileINode :=
  if node.nodeType = .dir then (.error FileError.eisdir, node)
  else if node.nodeType ≠ .file then (.error FileError.enosys, node)
  else if count = 0 then (.ok [], node)
  else
    match node.backingFileSystem with
    | some fs => (node.readRange resources fs offset count, node)
    | none => node.readLoaded resources offset count

/-- The inode with bytes in its buffer. -/
def store (offset : ℕ) (bytes : List UInt8) : FileINode :=
  { node with nodeData := some (copyInto (node.nodeData.getD []) offset bytes) }

/-- `DefaultWriteFileOperation`: the number of bytes that are written, and the inode afterwards. -/
def write (offset : ℕ) (bytes : List UInt8) : Except ℤ ℕ × FileINode :=
  if node.nodeType = .dir then (.error FileError.eisdir, node)
  else if node.nodeType ≠ .file then (.error FileError.enosys, node)
  else if bytes = [] then (.ok 0, node)
  else if 2 ^ 64 - 1 - bytes.length < offset then (.error FileError.enospc, node)
  else
    match node.ensureWritableINodeCapacity resources (offset + bytes.length) with
    | (false, loaded) => (.error FileError.enospc, loaded)
    | (true, writable) => (.ok bytes.length, writable.store offset bytes)

/-- A process begins to run the file. -/
def retain : FileINode :=
  if node.isLazyLoad then { node with lazyLoadRefCount := node.lazyLoadRefCount + 1 } else node

/-- The count of a lazily loaded inode after a process stops running the file. -/
def releasedCount : UInt32 :=
  if 0 < node.lazyLoadRefCount then node.lazyLoadRefCount - 1 else node.lazyLoadRefCount

/-- A process stops running the file. -/
def release : FileINode :=
  if !node.isLazyLoad then node
  else
    { node with
      lazyLoadRefCount := node.releasedCount
      nodeData := if node.releasedCount = 0 then none else node.nodeData }

end FileINode

/-- The inodes, the open files, and the inode of the file that each process runs. -/
structure FileStore where
  nodes : ℕ → FileINode
  files : ℕ → Option FileEntry := fun _ => none
  runningExecutable : ℕ → Option ℕ := fun _ => none

namespace FileStore

variable (store : FileStore)

/-- Replaces an inode. -/
def setNode (id : ℕ) (node : FileINode) : FileStore :=
  { store with nodes := Function.update store.nodes id node }

/-- Replaces a file. -/
def setFile (id : ℕ) (file : Option FileEntry) : FileStore :=
  { store with files := Function.update store.files id file }

/-- Replaces the inode that a process runs. -/
def setRunning (process : ℕ) (node : Option ℕ) : FileStore :=
  { store with runningExecutable := Function.update store.runningExecutable process node }

/-- A read through a file. -/
def read (file count : ℕ) (resources : KernelResources) : Except ℤ (List UInt8) × FileStore :=
  match store.files file with
  | none => (.error FileError.efault, store)
  | some opened =>
    match (store.nodes opened.node).read resources opened.currentOffset count with
    | (.error error, node) => (.error error, store.setNode opened.node node)
    | (.ok bytes, node) =>
      (.ok bytes, (store.setNode opened.node node).setFile file
        (some { opened with currentOffset := opened.currentOffset + bytes.length }))

/-- A write through a file. -/
def write (file : ℕ) (bytes : List UInt8) (resources : KernelResources) :
    Except ℤ ℕ × FileStore :=
  match store.files file with
  | none => (.error FileError.efault, store)
  | some opened =>
    match (store.nodes opened.node).write resources opened.currentOffset bytes with
    | (.error error, node) => (.error error, store.setNode opened.node node)
    | (.ok count, node) =>
      (.ok count, (store.setNode opened.node node).setFile file
        (some { opened with currentOffset := opened.currentOffset + count }))

/-- `LINUX_SEEK_SET`, `LINUX_SEEK_CUR` and `LINUX_SEEK_END`. -/
inductive Whence where
  | set
  | cur
  | end
  deriving DecidableEq, Repr

/-- The value of 64 bits as a signed number. -/
def asInt64 (n : ℕ) : ℤ := (BitVec.ofNat 64 n).toInt

/-- `BaseOffset`. -/
def baseOffset (opened : FileEntry) : Whence → ℤ
  | .set => 0
  | .cur => asInt64 opened.currentOffset
  | .end => asInt64 (store.nodes opened.node).nodeSize

/-- `HandleLseekSystemCall`: the offset afterwards. An invalid `Whence` is `none`. -/
def lseek (file : ℕ) (offset : ℤ) (whence : Option Whence) : Except ℤ ℤ × FileStore :=
  match store.files file, whence with
  | none, _ => (.error FileError.ebadf, store)
  | some _, none => (.error FileError.einval, store)
  | some opened, some whence =>
    let base := store.baseOffset opened whence
    if (store.nodes opened.node).nodeType = .dev then (.error FileError.espipe, store)
    else if (0 < offset ∧ 2 ^ 63 - 1 - offset < base) ∨ (offset < 0 ∧ base < -2 ^ 63 - offset) then
      (.error FileError.einval, store)
    else if base + offset < 0 then (.error FileError.einval, store)
    else (.ok (base + offset), store.setFile file
      (some { opened with currentOffset := (base + offset).toNat }))

/-- `RetainRunningExecutable`. -/
def retainRunningExecutable (process node : ℕ) : FileStore :=
  (store.setRunning process (some node)).setNode node (store.nodes node).retain

/-- `ReleaseRunningExecutable`. -/
def releaseRunningExecutable (process : ℕ) : FileStore :=
  match store.runningExecutable process with
  | none => store
  | some node => (store.setRunning process none).setNode node (store.nodes node).release

/-- The check and the loading of an executable. -/
def loadExecutable (node : ℕ) (resources : KernelResources) : Bool × FileStore :=
  if (store.nodes node).nodeType ≠ .file ∨ (store.nodes node).nodeSize = 0 then (false, store)
  else
    match (store.nodes node).ensureExecutableData resources with
    | (loaded, executable) => (loaded, store.setNode node executable)

/-- `ChangeProcessExecution`: the executable is loaded, and the process runs it when the rest
succeeds. -/
def execute (process node : ℕ) (resources : KernelResources) (succeeds : Bool) : FileStore :=
  match store.loadExecutable node resources with
  | (loaded, prepared) =>
    if loaded ∧ succeeds ∧ prepared.runningExecutable process ≠ some node then
      (prepared.releaseRunningExecutable process).retainRunningExecutable process node
    else prepared

/-- `CreateUserProcessFromVFS` and `CreateInitProcess`. -/
def createProcess (process node : ℕ) (resources : KernelResources) (succeeds : Bool) : FileStore :=
  match store.loadExecutable node resources with
  | (loaded, prepared) =>
    if loaded ∧ succeeds then prepared.retainRunningExecutable process node else prepared

/-- The part of `CopyProcess` that makes the child run the file of its parent. -/
def copyProcess (parent child : ℕ) : FileStore :=
  match store.runningExecutable parent with
  | none => store.setRunning child none
  | some node =>
    (store.setRunning child (some node)).setNode node
      { store.nodes node with lazyLoadRefCount := (store.nodes node).lazyLoadRefCount + 1 }

end FileStore

/-- A call that concerns regular files. A failed fork is one followed by the exit of the child. -/
inductive FileCall where
  | openFile (file node : ℕ)
  | copyFile (source file : ℕ)
  | closeFile (file : ℕ)
  | read (file count : ℕ) (resources : KernelResources)
  | write (file : ℕ) (bytes : List UInt8) (resources : KernelResources)
  | lseek (file : ℕ) (offset : ℤ) (whence : Option FileStore.Whence)
  | execute (process node : ℕ) (resources : KernelResources) (succeeds : Bool)
  | createProcess (process node : ℕ) (resources : KernelResources) (succeeds : Bool)
  | copyProcess (parent child : ℕ)
  | killProcess (process : ℕ)

namespace FileStore

/-- The state after a call. -/
def run (store : FileStore) : FileCall → FileStore
  | .openFile file node => store.setFile file (some { node := node })
  | .copyFile source file => store.setFile file (store.files source)
  | .closeFile file => store.setFile file none
  | .read file count resources => (store.read file count resources).2
  | .write file bytes resources => (store.write file bytes resources).2
  | .lseek file offset whence => (store.lseek file offset whence).2
  | .execute process node resources succeeds => store.execute process node resources succeeds
  | .createProcess process node resources succeeds =>
    store.createProcess process node resources succeeds
  | .copyProcess parent child => store.copyProcess parent child
  | .killProcess process => store.releaseRunningExecutable process

end FileStore

end TwistedOS
