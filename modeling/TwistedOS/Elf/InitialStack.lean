import TwistedOS.Elf.UserEntry
import Mathlib.Data.List.ReduceOption

/-!
# What a program finds on its stack

The strings that are pushed are laid out below one another, and the words lie below all of them.
Therefore a program that reads its stack upwards finds the count, the pointers to its arguments and
to its environment and the auxiliary values, and each pointer leads to a copy of its string.

## Main definitions

* `ExecveArguments.NullPointer`, `ExecveArguments.Refused`, `ExecveArguments.Fits`.
* `InitialStack`: what a program finds on its stack.

## Main results

* `initializeExecveUserEntry_decodes`.
* `initializeExecveUserEntry_aligned_iff`.
-/

namespace TwistedOS

open ByteMemory

/-- The bytes that strings take with their zeros. -/
def totalLength (strings : List CString) : ℕ :=
  (strings.map fun string => string.localCStringLength + 1).sum

/-- The chunks of strings at given addresses. -/
def stringChunks (addresses : List ℕ) (strings : List CString) : List (ℕ × List UInt8) :=
  List.zipWith (fun address string => (address, string.stored)) addresses strings

/-- The chunk of the path, which is left out if it is empty. -/
def pathChunks (execfnAddress : ℕ) : Option CString → List (ℕ × List UInt8)
  | none => []
  | some path => if path.bytes = [] then [] else [(execfnAddress, path.stored)]

/-- The bytes that the path takes. -/
def pathLength : Option CString → ℕ
  | none => 0
  | some path => if path.bytes = [] then 0 else path.localCStringLength + 1

namespace ExecveArguments

variable (arguments : ExecveArguments)

/-- The strings of the arguments. -/
def argStrings : List CString := (arguments.argv.getD []).reduceOption

/-- The strings of the environment. -/
def envStrings : List CString := (arguments.envp.getD []).reduceOption

/-- A pointer to a vector or to a string is null. -/
def NullPointer : Prop :=
  arguments.argv = none ∨ arguments.envp = none ∨ none ∈ arguments.argv.getD [] ∨
    none ∈ arguments.envp.getD []

/-- A vector is too long, a table of addresses could not be allocated, or there is no page table. -/
def Refused (resources : ExecveResources) : Prop :=
  (arguments.argv.getD []).length > execveMaxVectorCount ∨
    (arguments.envp.getD []).length > execveMaxVectorCount ∨
    arguments.argv.getD [] ≠ [] ∧ resources.argAddresses = 0 ∨
    arguments.envp.getD [] ≠ [] ∧ resources.envAddresses = 0 ∨
    resources.userPageTable = 0 ∨ resources.previousPageTable = 0

/-- The bytes of all strings. -/
def stringBytes : ℕ :=
  totalLength arguments.envStrings + totalLength arguments.argStrings +
    pathLength arguments.execFilePath

/-- The words of the vectors and of the auxiliary values. -/
def wordCount : ℕ :=
  arguments.argStrings.length + arguments.envStrings.length + 3 +
    2 * arguments.aux.auxvEntryCount (pathLength arguments.execFilePath)

/-- The strings fit into the stack, and the words fit below them. -/
def Fits (stack : UserStack) : Prop :=
  stack.stackBottom + arguments.stringBytes ≤ stack.stackTop ∧
    stack.stackBottom + 8 * arguments.wordCount ≤ (stack.stackTop - arguments.stringBytes) / 16 * 16

/-- An auxiliary value is passed. -/
def IsPassed (execfnAddress type value : ℕ) : Prop :=
  (type = auxvAtPagesz ∧ value = pageSize) ∨
    (arguments.aux.HasProgramHeaders ∧
      ((type = auxvAtPhdr ∧ value = arguments.aux.programHeaderAddress.toNat) ∨
        (type = auxvAtPhent ∧ value = arguments.aux.programHeaderEntrySize.toNat) ∨
        (type = auxvAtPhnum ∧ value = arguments.aux.programHeaderCount.toNat))) ∨
    (arguments.aux.entryPoint ≠ 0 ∧ type = auxvAtEntry ∧
      value = arguments.aux.entryPoint.toNat) ∨
    (arguments.aux.baseAddress ≠ 0 ∧ type = auxvAtBase ∧
      value = arguments.aux.baseAddress.toNat) ∨
    (0 < pathLength arguments.execFilePath ∧ type = auxvAtExecfn ∧ value = execfnAddress)

end ExecveArguments

/-- What a program finds on its stack: reading words upwards from `rsp`, the count, the pointers to
the arguments and to the environment, each list ended by a null pointer, and the pairs of auxiliary
values, ended by `AT_NULL`. The pointers lead to the strings. -/
structure InitialStack (stack : UserStack) (arguments : ExecveArguments)
    (entry : CpuState × ByteMemory) (argPointers envPointers : List ℕ) (auxv : List (ℕ × ℕ))
    (execfnAddress : ℕ) : Prop where
  argv_eq : arguments.argv = some (arguments.argStrings.map some)
  envp_eq : arguments.envp = some (arguments.envStrings.map some)
  length_argPointers : argPointers.length = arguments.argStrings.length
  length_envPointers : envPointers.length = arguments.envStrings.length
  words : entry.2.loadWords entry.1.rsp arguments.wordCount =
    arguments.argStrings.length :: (argPointers ++ 0 :: (envPointers ++ 0 ::
      (auxv ++ [(auxvAtNull, 0)]).flatMap fun (pair : ℕ × ℕ) => [pair.1, pair.2]))
  auxv_iff : ∀ type value, (type, value) ∈ auxv ↔ arguments.IsPassed execfnAddress type value
  type_ne_null : ∀ pair ∈ auxv, pair.1 ≠ auxvAtNull
  strings : ∀ chunk ∈ pathChunks execfnAddress arguments.execFilePath ++
      (stringChunks argPointers arguments.argStrings ++
        stringChunks envPointers arguments.envStrings),
    entry.2.HasBytes chunk.1 chunk.2 ∧ chunk.1 + chunk.2.length ≤ stack.stackTop
  bottom_le : stack.stackBottom ≤ entry.1.rsp
  le_top : entry.1.rsp + 8 * arguments.wordCount ≤ stack.stackTop
  ascending : ((entry.1.rsp, 8 * arguments.wordCount) ::
    (pathChunks execfnAddress arguments.execFilePath ++
      (stringChunks argPointers arguments.argStrings ++
        stringChunks envPointers arguments.envStrings)).map fun chunk =>
          (chunk.1, chunk.2.length)).Pairwise fun part later => part.1 + part.2 ≤ later.1
  rdi_eq : entry.1.rdi = arguments.argStrings.length
  rsi_eq : entry.1.rsi = entry.1.rsp + 8
  rdx_eq : entry.1.rdx = entry.1.rsi + 8 * (arguments.argStrings.length + 1)

/-! ### Pushed strings -/

/-- Between two states of the stack chunks of a total size have been pushed. -/
structure Pushed (stackBottom : ℕ) (writer writer' : StackWriter)
    (chunks : List (ℕ × List UInt8)) (size : ℕ) : Prop where
  bottom_le : stackBottom ≤ writer'.cursor
  cursor_add : writer'.cursor + size = writer.cursor
  laidOut : LaidOut writer'.memory writer'.cursor chunks writer.cursor
  kept : ∀ a, a < writer'.cursor ∨ writer.cursor ≤ a → writer'.memory a = writer.memory a

variable {stackBottom : ℕ} {writer writer₁ writer₂ : StackWriter}
  {chunks₁ chunks₂ : List (ℕ × List UInt8)} {size₁ size₂ : ℕ}

namespace Pushed

theorem refl (h : stackBottom ≤ writer.cursor) : Pushed stackBottom writer writer [] 0 :=
  ⟨h, rfl, Nat.le_refl _, fun _ _ => rfl⟩

theorem trans (h₁ : Pushed stackBottom writer writer₁ chunks₁ size₁)
    (h₂ : Pushed stackBottom writer₁ writer₂ chunks₂ size₂) :
    Pushed stackBottom writer writer₂ (chunks₂ ++ chunks₁) (size₁ + size₂) := by
  have hcursor₁ := h₁.cursor_add
  have hcursor₂ := h₂.cursor_add
  refine ⟨h₂.bottom_le, by omega, h₂.laidOut.append (h₁.laidOut.congr fun b hb _ => ?_),
    fun a ha => ?_⟩
  · exact h₂.kept b (.inr hb)
  · rw [h₂.kept a (by omega), h₁.kept a (by omega)]

end Pushed

theorem pushString_spec (string : CString) (h : stackBottom ≤ writer.cursor) :
    (pushString stackBottom writer (some string) = none ↔
      writer.cursor < stackBottom + (string.localCStringLength + 1)) ∧
    ∀ writer', pushString stackBottom writer (some string) = some writer' →
      Pushed stackBottom writer writer' [(writer'.cursor, string.stored)]
        (string.localCStringLength + 1) := by
  rw [pushString]
  split_ifs with hroom
  · exact ⟨iff_of_true rfl (by omega), fun _ h => absurd h (by simp)⟩
  · refine ⟨iff_of_false (by simp) (by omega), ?_⟩
    rintro writer' hwriter
    obtain rfl := Option.some.inj hwriter
    refine ⟨?_, ?_, ⟨Nat.le_refl _, hasBytes_storeBytes, ?_⟩, fun a ha => ?_⟩
    · show stackBottom ≤ writer.cursor - (string.localCStringLength + 1)
      omega
    · show writer.cursor - (string.localCStringLength + 1) + (string.localCStringLength + 1) = _
      omega
    · show writer.cursor - (string.localCStringLength + 1) + string.stored.length ≤ writer.cursor
      rw [string.length_stored]
      omega
    · refine storeBytes_apply_of_notMem ?_
      rw [string.length_stored]
      dsimp only at ha
      omega

theorem pushStrings_spec (writer : StackWriter) (strings : List (Option CString))
    (h : stackBottom ≤ writer.cursor) :
    (pushStrings stackBottom writer strings = none ↔
      none ∈ strings ∨ writer.cursor < stackBottom + totalLength strings.reduceOption) ∧
    ∀ writer' addresses, pushStrings stackBottom writer strings = some (writer', addresses) →
      strings = strings.reduceOption.map some ∧ addresses.length = strings.reduceOption.length ∧
      Pushed stackBottom writer writer' (stringChunks addresses strings.reduceOption)
        (totalLength strings.reduceOption) := by
  induction strings with
  | nil =>
    refine ⟨iff_of_false (by simp [pushStrings]) (by simpa [totalLength] using h), ?_⟩
    rintro writer' addresses hpush
    obtain ⟨rfl, rfl⟩ : writer = writer' ∧ [] = addresses := by simpa [pushStrings] using hpush
    exact ⟨rfl, rfl, .refl h⟩
  | cons string strings ih =>
    obtain ⟨hnone, hsome⟩ := ih
    rw [pushStrings]
    cases hrest : pushStrings stackBottom writer strings with
    | none =>
      refine ⟨iff_of_true rfl ?_, fun _ _ h => absurd h (by simp)⟩
      rcases hnone.mp hrest with hmem | hroom
      · exact .inl (List.mem_cons_of_mem _ hmem)
      · cases string with
        | none => exact .inl (List.mem_cons_self ..)
        | some string =>
          rw [List.reduceOption_cons_of_some, totalLength, List.map_cons, List.sum_cons]
          rw [totalLength] at hroom
          exact .inr (by omega)
    | some pushed =>
      obtain ⟨writer₁, addresses₁⟩ := pushed
      obtain ⟨heq, hlength, hpushed⟩ := hsome _ _ hrest
      have hnotMem : none ∉ strings := by
        rw [heq]
        simp
      cases string with
      | none =>
        exact ⟨iff_of_true rfl (.inl (List.mem_cons_self ..)),
          fun _ _ h => absurd h (by simp [pushString])⟩
      | some string =>
        obtain ⟨hfull, hone⟩ := pushString_spec string hpushed.bottom_le
        have hcursor := hpushed.cursor_add
        have htotal : totalLength (some string :: strings).reduceOption =
            string.localCStringLength + 1 + totalLength strings.reduceOption := by
          rw [List.reduceOption_cons_of_some, totalLength, List.map_cons, List.sum_cons,
            totalLength]
        dsimp only
        cases hpush : pushString stackBottom writer₁ (some string) with
        | none =>
          refine ⟨iff_of_true rfl (.inr ?_), fun _ _ h => absurd h (by simp)⟩
          have := hfull.mp hpush
          omega
        | some writer₂ =>
          have hroom : ¬ writer₁.cursor < stackBottom + (string.localCStringLength + 1) :=
            fun hlt => absurd (hfull.mpr hlt) (by simp [hpush])
          refine ⟨iff_of_false (by simp) ?_, ?_⟩
          · rintro (hmem | hlt)
            · exact hnotMem (by simpa using hmem)
            · omega
          · rintro writer' addresses hresult
            obtain ⟨rfl, rfl⟩ : writer₂ = writer' ∧ writer₂.cursor :: addresses₁ = addresses := by
              simpa using hresult
            refine ⟨?_, ?_, ?_⟩
            · rw [List.reduceOption_cons_of_some, List.map_cons, ← heq]
            · rw [List.reduceOption_cons_of_some, List.length_cons, List.length_cons, hlength]
            · rw [htotal, Nat.add_comm, List.reduceOption_cons_of_some]
              exact hpushed.trans (hone _ hpush)

theorem pushExecFilePath_spec (path : Option CString) (hbottom : 0 < stackBottom)
    (h : stackBottom ≤ writer.cursor) :
    (pushExecFilePath stackBottom writer path = none ↔
      writer.cursor < stackBottom + pathLength path) ∧
    ∀ writer' execfnAddress,
      pushExecFilePath stackBottom writer path = some (writer', execfnAddress) →
      (execfnAddress ≠ 0 ↔ 0 < pathLength path) ∧ execfnAddress ≤ writer.cursor ∧
      Pushed stackBottom writer writer' (pathChunks execfnAddress path) (pathLength path) := by
  have hnothing : ∀ writer' execfnAddress,
      some (writer, 0) = some ((writer', execfnAddress) : StackWriter × ℕ) →
      (execfnAddress ≠ 0 ↔ 0 < 0) ∧ execfnAddress ≤ writer.cursor ∧
        Pushed stackBottom writer writer' [] 0 := by
    rintro writer' execfnAddress hresult
    obtain ⟨rfl, rfl⟩ : writer = writer' ∧ 0 = execfnAddress := by simpa using hresult
    exact ⟨iff_of_false (by simp) (by simp), Nat.zero_le _, .refl h⟩
  cases path with
  | none =>
    exact ⟨iff_of_false (by simp [pushExecFilePath]) (by simp [pathLength]; omega), hnothing⟩
  | some path =>
    rw [pushExecFilePath]
    by_cases hempty : path.bytes = []
    · simp only [hempty, if_true, pathLength, pathChunks]
      exact ⟨iff_of_false (by simp) (by omega), hnothing⟩
    · simp only [hempty, if_false, pathLength, pathChunks]
      obtain ⟨hfull, hone⟩ := pushString_spec path h
      cases hpush : pushString stackBottom writer (some path) with
      | none => exact ⟨iff_of_true rfl (hfull.mp hpush), fun _ _ h => absurd h (by simp)⟩
      | some writer₁ =>
        refine ⟨iff_of_false (by simp) fun hlt => absurd (hfull.mpr hlt) (by simp [hpush]), ?_⟩
        rintro writer' execfnAddress hresult
        obtain ⟨rfl, rfl⟩ : writer₁ = writer' ∧ writer₁.cursor = execfnAddress := by
          simpa using hresult
        have hpushed := hone _ hpush
        have hcursor := hpushed.cursor_add
        exact ⟨iff_of_true (hbottom.trans_le hpushed.bottom_le).ne' (by omega), by omega, hpushed⟩

/-! ### The words -/

namespace AuxiliaryValues

variable (aux : AuxiliaryValues) {execfnAddress : ℕ}

/-- The count of the pairs is the number of pairs that are pushed. -/
theorem length_auxvPairs : (aux.auxvPairs execfnAddress).length + 1 =
    aux.auxvEntryCount execfnAddress := by
  unfold auxvPairs auxvEntryCount
  split_ifs <;> rfl

theorem length_auxvWords (execfnAddress : ℕ) : (aux.auxvWords execfnAddress).length =
    2 * aux.auxvEntryCount execfnAddress := by
  rw [auxvWords, List.length_flatMap, ← length_auxvPairs]
  simp
  omega

/-- The number of pairs depends only on whether there is a path. -/
theorem auxvEntryCount_congr {other : ℕ} (h : execfnAddress ≠ 0 ↔ other ≠ 0) :
    aux.auxvEntryCount execfnAddress = aux.auxvEntryCount other := by
  simp only [auxvEntryCount, h]

theorem mem_auxvPairs {type value : ℕ} : (type, value) ∈ aux.auxvPairs execfnAddress ↔
    (type = auxvAtPagesz ∧ value = pageSize) ∨
      (aux.HasProgramHeaders ∧
        ((type = auxvAtPhdr ∧ value = aux.programHeaderAddress.toNat) ∨
          (type = auxvAtPhent ∧ value = aux.programHeaderEntrySize.toNat) ∨
          (type = auxvAtPhnum ∧ value = aux.programHeaderCount.toNat))) ∨
      (aux.entryPoint ≠ 0 ∧ type = auxvAtEntry ∧ value = aux.entryPoint.toNat) ∨
      (aux.baseAddress ≠ 0 ∧ type = auxvAtBase ∧ value = aux.baseAddress.toNat) ∨
      (execfnAddress ≠ 0 ∧ type = auxvAtExecfn ∧ value = execfnAddress) := by
  have hite {p : Prop} [Decidable p] {pair : ℕ × ℕ} {pairs : List (ℕ × ℕ)} :
      (pair ∈ if p then pairs else []) ↔ p ∧ pair ∈ pairs := by
    split_ifs with hp <;> simp [hp]
  simp only [auxvPairs, List.mem_append, hite, List.mem_cons, List.not_mem_nil, or_false,
    Prod.mk.injEq, or_assoc]

/-- No pair before the last one has the type `AT_NULL`. -/
theorem type_ne_null {pair : ℕ × ℕ} (h : pair ∈ aux.auxvPairs execfnAddress) :
    pair.1 ≠ auxvAtNull := by
  obtain ⟨type, value⟩ := pair
  rcases aux.mem_auxvPairs.mp h with ⟨rfl, -⟩ | ⟨-, ⟨rfl, -⟩ | ⟨rfl, -⟩ | ⟨rfl, -⟩⟩ | ⟨-, rfl, -⟩ |
    ⟨-, rfl, -⟩ | ⟨-, rfl, -⟩ <;> exact Nat.succ_ne_zero _

theorem lt_of_mem_auxvWords (hexecfn : execfnAddress < 2 ^ 64) {word : ℕ}
    (h : word ∈ aux.auxvWords execfnAddress) : word < 2 ^ 64 := by
  obtain ⟨⟨type, value⟩, hpair, hword⟩ := List.mem_flatMap.mp h
  have hboth : type < 2 ^ 64 ∧ value < 2 ^ 64 := by
    rcases List.mem_append.mp hpair with hpair | hpair
    · rcases aux.mem_auxvPairs.mp hpair with
        ⟨rfl, rfl⟩ | ⟨-, ⟨rfl, rfl⟩ | ⟨rfl, rfl⟩ | ⟨rfl, rfl⟩⟩ | ⟨-, rfl, rfl⟩ | ⟨-, rfl, rfl⟩ |
        ⟨-, rfl, rfl⟩
      · exact ⟨by decide, by decide⟩
      all_goals first | exact ⟨by decide, BitVec.isLt _⟩ | exact ⟨by decide, hexecfn⟩
    · obtain ⟨rfl, rfl⟩ : type = auxvAtNull ∧ value = 0 := by simpa using hpair
      exact ⟨by decide, by decide⟩
  rcases List.mem_cons.mp hword with rfl | hword
  · exact hboth.1
  · obtain rfl := List.mem_singleton.mp hword
    exact hboth.2

end AuxiliaryValues

variable {argAddresses envAddresses : List ℕ} {execfnAddress : ℕ}

/-- The words are read back from the place where they are written. -/
theorem writeVectors_spec (state : CpuState) (writer : StackWriter) (aux : AuxiliaryValues)
    (htop : writer.cursor < 2 ^ 64) (hbottom : 0 < stackBottom)
    (hargs : ∀ address ∈ argAddresses, address < 2 ^ 64)
    (henvs : ∀ address ∈ envAddresses, address < 2 ^ 64) (hexecfn : execfnAddress < 2 ^ 64) :
    (writeVectors stackBottom state writer argAddresses envAddresses execfnAddress aux = none ↔
      writer.cursor / 16 * 16 < stackBottom + 8 * (argAddresses.length + envAddresses.length + 3 +
        2 * aux.auxvEntryCount execfnAddress)) ∧
    ∀ entry, writeVectors stackBottom state writer argAddresses envAddresses execfnAddress aux =
        some entry →
      stackBottom ≤ entry.1.rsp ∧
      entry.1.rsp + 8 * (argAddresses.length + envAddresses.length + 3 +
        2 * aux.auxvEntryCount execfnAddress) ≤ writer.cursor ∧
      entry.1 = state.withEntry entry.1.rsp argAddresses.length (entry.1.rsp + 8)
        (entry.1.rsp + 8 + (argAddresses.length + 1) * 8) ∧
      (∀ a, writer.cursor ≤ a → entry.2 a = writer.memory a) ∧
      entry.2.loadWords entry.1.rsp (argAddresses.length + envAddresses.length + 3 +
        2 * aux.auxvEntryCount execfnAddress) =
        argAddresses.length :: (argAddresses ++ 0 :: (envAddresses ++ 0 ::
          aux.auxvWords execfnAddress)) := by
  have hcount : (1 + (argAddresses.length + 1) + (envAddresses.length + 1) +
      aux.auxvEntryCount execfnAddress * 2) * 8 = 8 * (argAddresses.length +
        envAddresses.length + 3 + 2 * aux.auxvEntryCount execfnAddress) := by ring
  have hdiv : writer.cursor - writer.cursor % 16 = writer.cursor / 16 * 16 := by omega
  rw [writeVectors]
  dsimp only
  rw [hcount, hdiv]
  generalize hwords : argAddresses.length + envAddresses.length + 3 +
    2 * aux.auxvEntryCount execfnAddress = words
  split_ifs with hroom
  · exact ⟨iff_of_true rfl (by omega), fun _ h => absurd h (by simp)⟩
  refine ⟨iff_of_false (by simp) (by omega), ?_⟩
  rintro entry hentry
  obtain rfl := Option.some.inj hentry
  have hrsp : (state.withEntry (writer.cursor / 16 * 16 - 8 * words) argAddresses.length
      (writer.cursor / 16 * 16 - 8 * words + 8)
      (writer.cursor / 16 * 16 - 8 * words + 8 + (argAddresses.length + 1) * 8)).rsp =
        writer.cursor / 16 * 16 - 8 * words := rfl
  rw [hrsp]
  generalize hcursor : writer.cursor / 16 * 16 - 8 * words = cursor
  have hvectors : (argAddresses.length :: (argAddresses ++ 0 :: (envAddresses ++ [0]))).length =
      argAddresses.length + envAddresses.length + 3 := by
    simp
    omega
  have hauxv := aux.length_auxvWords execfnAddress
  have haddress : cursor + 8 + (argAddresses.length + 1) * 8 + (envAddresses.length + 1) * 8 =
      cursor + 8 * (argAddresses.length + envAddresses.length + 3) := by ring
  refine ⟨by omega, by omega, rfl, fun a ha => ?_, ?_⟩
  · dsimp only
    rw [storeWords_apply_of_notMem (by omega), storeWords_apply_of_notMem (by omega)]
  · dsimp only
    rw [← hwords, loadWords_add, haddress]
    have hbelow : ∀ mem : ByteMemory, loadWords
        (mem.storeWords (cursor + 8 * (argAddresses.length + envAddresses.length + 3))
          (aux.auxvWords execfnAddress)) cursor (argAddresses.length + envAddresses.length + 3) =
        loadWords mem cursor (argAddresses.length + envAddresses.length + 3) :=
      fun mem => loadWords_congr fun b _ hb => storeWords_apply_of_notMem (by omega)
    have hsmall : ∀ word ∈ argAddresses.length :: (argAddresses ++ 0 :: (envAddresses ++ [0])),
        word < 2 ^ 64 := by
      simp only [List.mem_cons, List.mem_append, List.not_mem_nil, or_false]
      rintro word (rfl | hmem | rfl | hmem | rfl)
      · omega
      · exact hargs word hmem
      · decide
      · exact henvs word hmem
      · decide
    rw [hbelow, ← hvectors, loadWords_storeWords hsmall, ← hauxv,
      loadWords_storeWords fun word => aux.lt_of_mem_auxvWords hexecfn]
    simp

/-! ### The whole stack -/

/-- The addresses at which strings are laid out lie below the end. -/
theorem lt_of_mem_addresses {mem : ByteMemory} {low high address : ℕ} {addresses : List ℕ}
    {strings : List CString} (hlength : addresses.length = strings.length)
    (h : LaidOut mem low (stringChunks addresses strings) high) (hmem : address ∈ addresses) :
    address < high := by
  induction addresses generalizing low strings with
  | nil => exact absurd hmem List.not_mem_nil
  | cons first addresses ih =>
    cases strings with
    | nil => exact absurd hlength (by simp)
    | cons string strings =>
      have hrest := h.2.2
      dsimp only at hrest
      rw [string.length_stored] at hrest
      rcases List.mem_cons.mp hmem with rfl | hmem
      · exact Nat.lt_of_lt_of_le (by omega) hrest.le
      · exact ih (by simpa using hlength) hrest hmem

variable (resources : ExecveResources) (stack : UserStack) (state : CpuState)
  (memory : ByteMemory)

/-- The stack is filled exactly when no string pointer is null and the data fits. -/
theorem fillUserStack_spec (arguments : ExecveArguments) {argv envp : List (Option CString)}
    (hargv : arguments.argv = some argv) (henvp : arguments.envp = some envp) :
    (∀ entry, fillUserStack stack state memory argv envp arguments.execFilePath arguments.aux =
        some entry → ∃ argPointers envPointers auxv execfnAddress,
          InitialStack stack arguments entry argPointers envPointers auxv execfnAddress) ∧
    (fillUserStack stack state memory argv envp arguments.execFilePath arguments.aux = none ↔
      none ∈ argv ∨ none ∈ envp ∨ ¬ arguments.Fits stack) := by
  have hargStrings : arguments.argStrings = argv.reduceOption := by
    rw [ExecveArguments.argStrings, hargv, Option.getD_some]
  have henvStrings : arguments.envStrings = envp.reduceOption := by
    rw [ExecveArguments.envStrings, henvp, Option.getD_some]
  have hbytes : arguments.stringBytes = totalLength envp.reduceOption +
      totalLength argv.reduceOption + pathLength arguments.execFilePath := by
    rw [ExecveArguments.stringBytes, hargStrings, henvStrings]
  have htop := stack.top_lt
  have hnotFits (h : stack.stackTop < stack.stackBottom + arguments.stringBytes) :
      ¬ arguments.Fits stack := fun hfits => absurd hfits.1 (by omega)
  rw [fillUserStack]
  obtain ⟨henvNone, henvSome⟩ := pushStrings_spec ⟨stack.stackTop, memory⟩ envp stack.bottom_le
  cases henv : pushStrings stack.stackBottom ⟨stack.stackTop, memory⟩ envp with
  | none =>
    refine ⟨fun _ h => absurd h (by simp), iff_of_true rfl (.inr ?_)⟩
    exact (henvNone.mp henv).imp_right fun hlt => hnotFits (by dsimp only at hlt; omega)
  | some envPushed =>
    obtain ⟨writer₁, envAddresses⟩ := envPushed
    obtain ⟨henvEq, henvLength, henvPushed⟩ := henvSome _ _ henv
    obtain ⟨hargNone, hargSome⟩ := pushStrings_spec writer₁ argv henvPushed.bottom_le
    have hcursor₁ := henvPushed.cursor_add
    have henvMem : none ∉ envp := by
      rw [henvEq]
      simp
    dsimp only at hcursor₁ ⊢
    cases harg : pushStrings stack.stackBottom writer₁ argv with
    | none =>
      refine ⟨fun _ h => absurd h (by simp), iff_of_true rfl ?_⟩
      exact (hargNone.mp harg).imp_right fun hlt => .inr (hnotFits (by omega))
    | some argPushed =>
      obtain ⟨writer₂, argAddresses⟩ := argPushed
      obtain ⟨hargEq, hargLength, hargPushed⟩ := hargSome _ _ harg
      obtain ⟨hpathNone, hpathSome⟩ := pushExecFilePath_spec arguments.execFilePath
        stack.bottom_pos hargPushed.bottom_le
      have hcursor₂ := hargPushed.cursor_add
      have hargMem : none ∉ argv := by
        rw [hargEq]
        simp
      dsimp only
      cases hpath : pushExecFilePath stack.stackBottom writer₂ arguments.execFilePath with
      | none =>
        refine ⟨fun _ h => absurd h (by simp), iff_of_true rfl (.inr (.inr (hnotFits ?_)))⟩
        have := hpathNone.mp hpath
        omega
      | some pathPushed =>
        obtain ⟨writer₃, execfnAddress⟩ := pathPushed
        obtain ⟨hexecfn, hexecfnLe, hpathPushed⟩ := hpathSome _ _ hpath
        have hcursor₃ := hpathPushed.cursor_add
        have hpushed := (henvPushed.trans hargPushed).trans hpathPushed
        have hcount : argAddresses.length + envAddresses.length + 3 +
            2 * arguments.aux.auxvEntryCount execfnAddress = arguments.wordCount := by
          rw [ExecveArguments.wordCount, hargStrings, henvStrings, hargLength, henvLength,
            arguments.aux.auxvEntryCount_congr (hexecfn.trans Nat.pos_iff_ne_zero)]
        have hargsLt (address : ℕ) (hmem : address ∈ argAddresses) : address < 2 ^ 64 := by
          have := lt_of_mem_addresses hargLength hargPushed.laidOut hmem
          omega
        have henvsLt (address : ℕ) (hmem : address ∈ envAddresses) : address < 2 ^ 64 := by
          have := lt_of_mem_addresses henvLength henvPushed.laidOut hmem
          dsimp only at this
          omega
        have hexecfnLt : execfnAddress < 2 ^ 64 := by omega
        obtain ⟨hnone, hsome⟩ := writeVectors_spec state writer₃ arguments.aux (by omega)
          stack.bottom_pos hargsLt henvsLt hexecfnLt
        rw [hcount] at hnone hsome
        dsimp only
        constructor
        · intro entry hentry
          obtain ⟨hbottom, hend, hstate, hkept, hwords⟩ := hsome entry hentry
          have hlaid := hpushed.laidOut.congr fun b hb _ => hkept b hb
          refine ⟨argAddresses, envAddresses, arguments.aux.auxvPairs execfnAddress, execfnAddress,
            ?_⟩
          rw [← hargStrings, ← henvStrings] at hlaid
          exact {
            argv_eq := by rw [hargStrings, ← hargEq, hargv]
            envp_eq := by rw [henvStrings, ← henvEq, henvp]
            length_argPointers := by rw [hargStrings, hargLength]
            length_envPointers := by rw [henvStrings, henvLength]
            words := by rw [hwords, hargStrings, hargLength]; rfl
            auxv_iff := fun type value => by
              rw [AuxiliaryValues.mem_auxvPairs, ExecveArguments.IsPassed, hexecfn]
            type_ne_null := fun pair hpair => arguments.aux.type_ne_null hpair
            strings := fun chunk hchunk => ⟨(hlaid.of_mem hchunk).1, (hlaid.of_mem hchunk).2.2⟩
            bottom_le := hbottom
            le_top := hend.trans (by omega)
            ascending := by
              refine List.pairwise_cons.mpr ⟨fun part hpart => ?_,
                List.pairwise_map.mpr hlaid.pairwise⟩
              obtain ⟨chunk, hchunk, rfl⟩ := List.mem_map.mp hpart
              exact hend.trans (hlaid.of_mem hchunk).2.1
            rdi_eq := by rw [hstate, hargStrings, ← hargLength]; rfl
            rsi_eq := congrArg (fun state => state.rsi) hstate
            rdx_eq := by
              rw [hstate, hargStrings, ← hargLength, Nat.mul_comm]
              rfl }
        · rw [hnone]
          have hsum : writer₃.cursor = stack.stackTop - arguments.stringBytes := by omega
          rw [hsum]
          refine ⟨fun hlt => .inr (.inr fun hfits => absurd hfits.2 (by omega)), ?_⟩
          rintro (hmem | hmem | hfits)
          · exact absurd hmem hargMem
          · exact absurd hmem henvMem
          · by_contra hroom
            exact hfits ⟨by omega, by omega⟩

/-- **The initial stack.** If the call succeeds, the program finds on its stack what was passed; the
call fails exactly when a pointer is null, when it is refused for the lengths of the vectors or for
lack of kernel memory or of a page table, or when the data does not fit. -/
theorem initializeExecveUserEntry_decodes (arguments : ExecveArguments) :
    (∀ entry, initializeExecveUserEntry resources stack state memory arguments = some entry →
      ∃ argPointers envPointers auxv execfnAddress,
        InitialStack stack arguments entry argPointers envPointers auxv execfnAddress) ∧
    (initializeExecveUserEntry resources stack state memory arguments = none ↔
      arguments.NullPointer ∨ arguments.Refused resources ∨ ¬ arguments.Fits stack) := by
  rw [initializeExecveUserEntry]
  cases hargv : arguments.argv with
  | none => exact ⟨fun _ h => absurd h (by simp), iff_of_true rfl (.inl (.inl hargv))⟩
  | some argv =>
    cases henvp : arguments.envp with
    | none => exact ⟨fun _ h => absurd h (by simp), iff_of_true rfl (.inl (.inr (.inl henvp)))⟩
    | some envp =>
      have hnull : arguments.NullPointer ↔ none ∈ argv ∨ none ∈ envp := by
        simp [ExecveArguments.NullPointer, hargv, henvp]
      have hrefused : arguments.Refused resources ↔
          (argv.length > execveMaxVectorCount ∨ envp.length > execveMaxVectorCount) ∨
            (argv.length ≠ 0 ∧ resources.argAddresses = 0) ∨
            (envp.length ≠ 0 ∧ resources.envAddresses = 0) ∨
            resources.userPageTable = 0 ∨ resources.previousPageTable = 0 := by
        simp only [ExecveArguments.Refused, hargv, henvp, Option.getD_some, ne_eq,
          List.length_eq_zero_iff, or_assoc]
      rw [hnull, hrefused]
      dsimp only
      split_ifs with hlong hargs henvs hpage
      · exact ⟨fun _ h => absurd h (by simp), iff_of_true rfl (.inr (.inl (.inl hlong)))⟩
      · exact ⟨fun _ h => absurd h (by simp), iff_of_true rfl (.inr (.inl (.inr (.inl hargs))))⟩
      · exact ⟨fun _ h => absurd h (by simp),
          iff_of_true rfl (.inr (.inl (.inr (.inr (.inl henvs)))))⟩
      · exact ⟨fun _ h => absurd h (by simp),
          iff_of_true rfl (.inr (.inl (.inr (.inr (.inr hpage)))))⟩
      · obtain ⟨hdecodes, hnone⟩ := fillUserStack_spec stack state memory arguments hargv henvp
        refine ⟨hdecodes, hnone.trans ?_⟩
        simp only [hlong, hargs, henvs, hpage, false_or, or_assoc]

/-- The call also fails when the table of addresses cannot be allocated, although the one string of
the arguments is there and fits. -/
theorem initializeExecveUserEntry_outOfMemory :
    let arguments : ExecveArguments := ⟨some [some ⟨[97], by simp⟩], some [], none, {}⟩
    initializeExecveUserEntry ⟨0, 0, 0x1000, 0x1000⟩ userProcessStack {} (fun _ => 0) arguments =
        none ∧
      ¬ arguments.NullPointer ∧ arguments.Fits userProcessStack := by
  refine ⟨rfl, by simp [ExecveArguments.NullPointer], ?_⟩
  exact ⟨by decide, by decide⟩

/-! ### Alignment -/

/-- The words are subtracted from an aligned address, so that their number decides about the
alignment of the first one. -/
theorem writeVectors_rsp_mod {entry : CpuState × ByteMemory} (writer : StackWriter)
    (aux : AuxiliaryValues) (h : writeVectors stackBottom state writer argAddresses envAddresses
      execfnAddress aux = some entry) :
    entry.1.rsp % 16 = 0 ↔ (argAddresses.length + envAddresses.length) % 2 = 1 := by
  rw [writeVectors] at h
  dsimp only at h
  split_ifs at h with hroom
  obtain rfl := Option.some.inj h
  have hrsp (rsp rdi rsi rdx : ℕ) : (state.withEntry rsp rdi rsi rdx).rsp = rsp := rfl
  rw [hrsp]
  omega

/-- The stack pointer of a new program is divisible by 16 if and only if the number of all its
arguments and environment strings is odd. -/
theorem initializeExecveUserEntry_aligned_iff {arguments : ExecveArguments}
    {entry : CpuState × ByteMemory}
    (h : initializeExecveUserEntry resources stack state memory arguments = some entry) :
    entry.1.rsp % 16 = 0 ↔
      (arguments.argStrings.length + arguments.envStrings.length) % 2 = 1 := by
  rw [initializeExecveUserEntry] at h
  split at h
  · rename_i argv envp hargv henvp
    split_ifs at h
    rw [ExecveArguments.argStrings, ExecveArguments.envStrings, hargv, henvp, Option.getD_some,
      Option.getD_some]
    rw [fillUserStack] at h
    obtain ⟨-, henvs⟩ := pushStrings_spec ⟨stack.stackTop, memory⟩ envp stack.bottom_le
    cases henv : pushStrings stack.stackBottom ⟨stack.stackTop, memory⟩ envp with
    | none => simp [henv] at h
    | some envPushed =>
      obtain ⟨-, hlengthEnv, hpushedEnv⟩ := henvs _ _ henv
      rw [henv] at h
      dsimp only at h
      obtain ⟨-, hargs⟩ := pushStrings_spec envPushed.1 argv hpushedEnv.bottom_le
      cases harg : pushStrings stack.stackBottom envPushed.1 argv with
      | none => simp [harg] at h
      | some argPushed =>
        obtain ⟨-, hlengthArg, -⟩ := hargs _ _ harg
        rw [harg] at h
        dsimp only at h
        cases hpath : pushExecFilePath stack.stackBottom argPushed.1 arguments.execFilePath with
        | none => simp [hpath] at h
        | some pathPushed =>
          rw [hpath] at h
          rw [← hlengthEnv, ← hlengthArg]
          exact writeVectors_rsp_mod state pathPushed.1 arguments.aux h
  · exact absurd h (by simp)

/-- A call with one argument and without environment. -/
def oneArgument : ExecveArguments := ⟨some [some ⟨[97], by simp⟩], some [], none, {}⟩

/-- A program without environment starts with an aligned stack. -/
theorem initializeExecveUserEntry_aligned_oneArgument : ∃ entry,
    initializeExecveUserEntry ⟨0x5000, 0, 0x1000, 0x1000⟩ userProcessStack {} (fun _ => 0)
      oneArgument = some entry ∧
    (entry.1.rsp % 16 = 0 ↔
      (oneArgument.argStrings.length + oneArgument.envStrings.length) % 2 = 1) := by
  have hsome : (initializeExecveUserEntry ⟨0x5000, 0, 0x1000, 0x1000⟩ userProcessStack {}
    (fun _ => 0) oneArgument).isSome = true := rfl
  obtain ⟨entry, hentry⟩ := Option.isSome_iff_exists.mp hsome
  exact ⟨entry, hentry, initializeExecveUserEntry_aligned_iff _ _ _ _ hentry⟩

/-- With one argument and one environment string the stack pointer is not divisible by 16. -/
theorem not_initializeExecveUserEntry_aligned : ∃ entry,
    initializeExecveUserEntry ⟨0x5000, 0x5008, 0x1000, 0x1000⟩ userProcessStack {} (fun _ => 0)
      { oneArgument with envp := some [some ⟨[98], by simp⟩] } = some entry ∧
    entry.1.rsp % 16 = 8 :=
  ⟨_, rfl, by decide +kernel⟩

end TwistedOS
