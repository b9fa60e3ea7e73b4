import TwistedOS.Data.PlacedBytes
import TwistedOS.Elf.ElfAddressSpace
import TwistedOS.Logic.ProcessManager

/-!
# The initial stack of a program

A program that is started finds its arguments, its environment and auxiliary values on its stack.
The strings are pushed from the top of the stack down; below them, at an address divisible by 16
before the size is subtracted, lies one block of words with the count and the two vectors of
pointers, followed by the pairs of auxiliary values. A call that fails is taken to write nothing:
both callers give up the address space.

## Main definitions

* `CString`, `UserStack`, `ExecveArguments`, `ExecveResources`.
* `pushString`, `pushStrings`, `pushExecFilePath`, `writeVectors`.
* `initializeExecveUserEntry`.
-/

namespace TwistedOS

/-- A string without its terminating zero. -/
structure CString where
  bytes : List UInt8
  nonzero : ∀ byte ∈ bytes, byte ≠ 0

namespace CString

/-- `LocalCStringLength`. -/
def localCStringLength (string : CString) : ℕ := string.bytes.length

/-- The bytes of a string in memory. -/
def stored (string : CString) : List UInt8 := string.bytes ++ [0]

@[simp] theorem length_stored (string : CString) :
    string.stored.length = string.localCStringLength + 1 := by
  simp [stored, localCStringLength]

end CString

/-- The stack of an address space. -/
structure UserStack where
  stackBottom : ℕ
  stackTop : ℕ
  bottom_pos : 0 < stackBottom
  bottom_mod : stackBottom % 16 = 0
  bottom_le : stackBottom ≤ stackTop
  top_lt : stackTop < 2 ^ 64

/-- The stack of every process. -/
def userProcessStack : UserStack where
  stackBottom := userProcessVirtualStackTop + 1 - userProcessStackSize
  stackTop := userProcessVirtualStackTop + 1
  bottom_pos := by decide
  bottom_mod := by decide
  bottom_le := by decide
  top_lt := by decide

/-- The auxiliary values that are passed to a program. -/
structure AuxiliaryValues where
  programHeaderAddress : BitVec 64 := 0
  programHeaderEntrySize : BitVec 64 := 0
  programHeaderCount : BitVec 64 := 0
  entryPoint : BitVec 64 := 0
  baseAddress : BitVec 64 := 0

/-- The arguments of a program. A vector is `none` if its pointer is null and its length is not
zero. -/
structure ExecveArguments where
  argv : Option (List (Option CString))
  envp : Option (List (Option CString))
  execFilePath : Option CString
  aux : AuxiliaryValues

/-- What the call is given: the results of `kmalloc` for the two tables of addresses, and the page
tables of the new address space and of the caller. -/
structure ExecveResources where
  argAddresses : ℕ
  envAddresses : ℕ
  userPageTable : ℕ
  previousPageTable : ℕ

/-- The stack while it is filled. -/
structure StackWriter where
  cursor : ℕ
  memory : ByteMemory

/-! ### Strings -/

/-- Pushes a string, if its pointer is not null and it fits. -/
def pushString (stackBottom : ℕ) (writer : StackWriter) : Option CString → Option StackWriter
  | none => none
  | some string =>
    if string.localCStringLength + 1 > writer.cursor - stackBottom then none
    else
      let cursor := writer.cursor - (string.localCStringLength + 1)
      some ⟨cursor, writer.memory.storeBytes cursor string.stored⟩

/-- Pushes the strings of a vector, the last one first, and returns their addresses. -/
def pushStrings (stackBottom : ℕ) (writer : StackWriter) :
    List (Option CString) → Option (StackWriter × List ℕ)
  | [] => some (writer, [])
  | string :: strings =>
    match pushStrings stackBottom writer strings with
    | none => none
    | some (writer, addresses) =>
      match pushString stackBottom writer string with
      | none => none
      | some writer => some (writer, writer.cursor :: addresses)

/-- Pushes the path of the program, if there is one, and returns its address. -/
def pushExecFilePath (stackBottom : ℕ) (writer : StackWriter) (execFilePath : Option CString) :
    Option (StackWriter × ℕ) :=
  match execFilePath with
  | none => some (writer, 0)
  | some path =>
    if path.bytes = [] then some (writer, 0)
    else
      match pushString stackBottom writer (some path) with
      | none => none
      | some writer => some (writer, writer.cursor)

/-! ### Vectors -/

/-- `AUXV_AT_NULL`. -/
def auxvAtNull : ℕ := 0
/-- `AUXV_AT_PHDR`. -/
def auxvAtPhdr : ℕ := 3
/-- `AUXV_AT_PHENT`. -/
def auxvAtPhent : ℕ := 4
/-- `AUXV_AT_PHNUM`. -/
def auxvAtPhnum : ℕ := 5
/-- `AUXV_AT_PAGESZ`. -/
def auxvAtPagesz : ℕ := 6
/-- `AUXV_AT_BASE`. -/
def auxvAtBase : ℕ := 7
/-- `AUXV_AT_ENTRY`. -/
def auxvAtEntry : ℕ := 9
/-- `AUXV_AT_EXECFN`. -/
def auxvAtExecfn : ℕ := 31

namespace AuxiliaryValues

variable (aux : AuxiliaryValues) (execfnAddress : ℕ)

/-- The program headers are passed. -/
def HasProgramHeaders : Prop :=
  aux.programHeaderAddress ≠ 0 ∧ aux.programHeaderEntrySize ≠ 0 ∧ aux.programHeaderCount ≠ 0

instance : Decidable aux.HasProgramHeaders := inferInstanceAs (Decidable (_ ∧ _))

/-- `AuxvEntryCount`. -/
def auxvEntryCount : ℕ :=
  2 + (if aux.HasProgramHeaders then 3 else 0) + (if aux.entryPoint ≠ 0 then 1 else 0) +
    (if aux.baseAddress ≠ 0 then 1 else 0) + (if execfnAddress ≠ 0 then 1 else 0)

/-- The pairs that are pushed before the last one. -/
def auxvPairs : List (ℕ × ℕ) :=
  [(auxvAtPagesz, pageSize)] ++
    (if aux.HasProgramHeaders then
      [(auxvAtPhdr, aux.programHeaderAddress.toNat),
        (auxvAtPhent, aux.programHeaderEntrySize.toNat),
        (auxvAtPhnum, aux.programHeaderCount.toNat)] else []) ++
    (if aux.entryPoint ≠ 0 then [(auxvAtEntry, aux.entryPoint.toNat)] else []) ++
    (if aux.baseAddress ≠ 0 then [(auxvAtBase, aux.baseAddress.toNat)] else []) ++
    if execfnAddress ≠ 0 then [(auxvAtExecfn, execfnAddress)] else []

/-- The words of the pairs, as `PushAuxvPair` writes them. -/
def auxvWords : List ℕ :=
  (aux.auxvPairs execfnAddress ++ [(auxvAtNull, 0)]).flatMap fun (pair : ℕ × ℕ) => [pair.1, pair.2]

end AuxiliaryValues

/-- The registers with which a program starts. -/
def CpuState.withEntry (state : CpuState) (rsp rdi rsi rdx : ℕ) : CpuState :=
  { state with rsp := rsp, rdi := rdi, rsi := rsi, rdx := rdx }

/-- The part of the call behind the strings. -/
def writeVectors (stackBottom : ℕ) (state : CpuState) (writer : StackWriter)
    (argAddresses envAddresses : List ℕ) (execfnAddress : ℕ) (aux : AuxiliaryValues) :
    Option (CpuState × ByteMemory) :=
  let argc := argAddresses.length
  let envc := envAddresses.length
  let aligned := writer.cursor - writer.cursor % 16
  let stackWordCount := 1 + (argc + 1) + (envc + 1) + aux.auxvEntryCount execfnAddress * 2
  if stackWordCount * 8 > aligned - stackBottom then none
  else
    let cursor := aligned - stackWordCount * 8
    let argvUserPointer := cursor + 8
    let envpUserPointer := argvUserPointer + (argc + 1) * 8
    let auxvUserPointer := envpUserPointer + (envc + 1) * 8
    let memory := writer.memory.storeWords cursor
      (argc :: (argAddresses ++ 0 :: (envAddresses ++ [0])))
    some (state.withEntry cursor argc argvUserPointer envpUserPointer,
      memory.storeWords auxvUserPointer (aux.auxvWords execfnAddress))

/-! ### The call -/

/-- `EXECVE_MAX_VECTOR_COUNT`. -/
def execveMaxVectorCount : ℕ := 128

/-- The part of the call behind its checks. -/
def fillUserStack (stack : UserStack) (state : CpuState) (memory : ByteMemory)
    (argv envp : List (Option CString)) (execFilePath : Option CString) (aux : AuxiliaryValues) :
    Option (CpuState × ByteMemory) :=
  match pushStrings stack.stackBottom ⟨stack.stackTop, memory⟩ envp with
  | none => none
  | some (writer, envAddresses) =>
    match pushStrings stack.stackBottom writer argv with
    | none => none
    | some (writer, argAddresses) =>
      match pushExecFilePath stack.stackBottom writer execFilePath with
      | none => none
      | some (writer, execfnAddress) =>
        writeVectors stack.stackBottom state writer argAddresses envAddresses execfnAddress aux

/-- `InitializeExecveUserEntry`: the registers and the memory of the new program, or `none` if the
call returns false. -/
def initializeExecveUserEntry (resources : ExecveResources) (stack : UserStack) (state : CpuState)
    (memory : ByteMemory) (arguments : ExecveArguments) : Option (CpuState × ByteMemory) :=
  match arguments.argv, arguments.envp with
  | some argv, some envp =>
    if argv.length > execveMaxVectorCount ∨ envp.length > execveMaxVectorCount then none
    else if argv.length ≠ 0 ∧ resources.argAddresses = 0 then none
    else if envp.length ≠ 0 ∧ resources.envAddresses = 0 then none
    else if resources.userPageTable = 0 ∨ resources.previousPageTable = 0 then none
    else fillUserStack stack state memory argv envp arguments.execFilePath arguments.aux
  | _, _ => none

end TwistedOS
