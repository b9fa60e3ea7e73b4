import TwistedOS.Data.CursorScan
import TwistedOS.Data.LiveBuffers
import TwistedOS.Files.PathResolution
import TwistedOS.Logic.ProcessCalls

/-!
# Execution of scripts

A file that begins with "#!" is executed by the interpreter that its first line names, which may be
a script in turn. The line is scanned with a cursor. It ends at a line feed, a carriage return or a
zero. The word and the rest of the line are copied to the kernel heap, next to a new vector of
arguments that points to them, to the path of the script and to the other arguments of the caller.
Up to `MAX_SCRIPT_INTERPRETER_DEPTH` interpreters are followed.

What follows for a file that is no script is given by `load`: the new state of the process, or none
where the image, its address space or its stack cannot be set up. This part does not get the
process, which changes when all of it has gone well.

A read through an address where nothing is allocated is no result.

## Main definitions

* `scanScript`, with `interpreterOf` and `argumentOf`: what is scanned for.
* `ScriptState.changeProcessExecution`.
* `ExecEnvironment.resolveProgram`: the program and the arguments at the end of a chain.

## Main results

* `scanScript_words`, `scanScript_congr`.
* `ScriptState.changeProcessExecution_executes`.
-/

namespace TwistedOS

/-! ### The first line -/

/-- A blank or a tabulator. -/
def isBlank (byte : UInt8) : Bool := byte = 0x20 || byte = 0x09

/-- The bytes at which the scan of a line ends: a zero, a line feed and a carriage return. -/
def isLineEnd (byte : UInt8) : Bool := byte = 0x00 || byte = 0x0A || byte = 0x0D

/-- `#!` -/
def scriptMark : List UInt8 := [0x23, 0x21]

/-- The places in a file between which the interpreter and its argument are. -/
structure ScriptCursors where
  interpreterStart : ℕ
  interpreterEnd : ℕ
  argumentStart : ℕ
  argumentEnd : ℕ
  deriving DecidableEq, Repr

/-- The cursor loops of `ChangeProcessExecution`. -/
def scanScript (fileData : ByteMemory) (nodeSize : ℕ) : ScriptCursors :=
  let interpreterStart := advanceWhile isBlank fileData nodeSize 2
  let interpreterEnd :=
    advanceWhile (fun b => !isLineEnd b && !isBlank b) fileData nodeSize interpreterStart
  let argumentStart := advanceWhile isBlank fileData nodeSize interpreterEnd
  let lineEnd := advanceWhile (fun b => !isLineEnd b) fileData nodeSize argumentStart
  { interpreterStart := interpreterStart
    interpreterEnd := interpreterEnd
    argumentStart := argumentStart
    argumentEnd := retreatWhile isBlank fileData argumentStart lineEnd }

/-- The file begins with `#!`. -/
def isScript (fileData : ByteMemory) (nodeSize : ℕ) : Bool :=
  decide (2 ≤ nodeSize ∧ fileData 0 = 0x23 ∧ fileData 1 = 0x21)

/-- The line behind the mark of a script, up to the first byte at which lines end. -/
def scriptLine (ends : UInt8 → Bool) (bytes : List UInt8) : List UInt8 :=
  (bytes.drop 2).takeWhile fun b => !ends b

/-- The first word of a line. -/
def interpreterOf (line : List UInt8) : List UInt8 :=
  (line.dropWhile isBlank).takeWhile fun b => !isBlank b

/-- The rest of a line, without the blanks at both ends. -/
def argumentOf (line : List UInt8) : List UInt8 :=
  (((line.dropWhile isBlank).dropWhile fun b => !isBlank b).dropWhile isBlank).rdropWhile isBlank

/-! ### The call -/

/-- A buffer of the kernel heap: a string with what is behind it, or a vector of addresses. -/
inductive KernelBuffer where
  | text (bytes : List UInt8)
  | vector (addresses : List ℕ)
  deriving DecidableEq, Repr

namespace LiveBuffers

variable (buffers : LiveBuffers KernelBuffer)

/-- The string at an address. -/
def text (address : ℕ) : Option (List UInt8) :=
  match buffers.live address with
  | some (.text bytes) => some (cString bytes)
  | _ => none

/-- The strings at addresses. -/
def texts : List ℕ → Option (List (List UInt8))
  | [] => some []
  | address :: rest =>
    (buffers.text address).bind fun first => (texts rest).map fun others => first :: others

/-- The addresses in a vector, which a null pointer has none of. -/
def vector : Option ℕ → Option (List ℕ)
  | none => some []
  | some address =>
    match buffers.live address with
    | some (.vector addresses) => some addresses
    | _ => none

/-- The strings of a vector. -/
def arguments (vector : Option ℕ) : Option (List (List UInt8)) :=
  (buffers.vector vector).bind buffers.texts

end LiveBuffers

/-- A file that is looked up: its inode, with the content after `EnsureLazyLoadedINodeData`. -/
structure ScriptFile where
  inode : ℕ
  isFile : Bool
  nodeSize : ℕ
  nodeData : Option ByteMemory

/-- The content of a file that can be executed. -/
def ScriptFile.loaded (file : ScriptFile) : Option ByteMemory :=
  if !file.isFile ∨ file.nodeSize = 0 then none else file.nodeData

/-- A program to be loaded: its inode, its bytes, its path, its arguments and its environment. -/
structure ProgramRequest where
  inode : ℕ
  image : List UInt8
  path : List UInt8
  argv : List (List UInt8)
  envp : List (List UInt8)
  deriving DecidableEq

/-- The files, the addresses for which `kmalloc` fails, and what becomes of a program. -/
structure ExecEnvironment where
  lookup : List UInt8 → Option ScriptFile
  refuses : ℕ → Bool
  load : ProgramRequest → Option CpuState

/-- The state of an execution, with the paths that were looked up. -/
structure ScriptState where
  buffers : LiveBuffers KernelBuffer
  logic : LogicLayer
  examined : List (List UInt8) := []

/-- The result of an execution, or nothing where it reads what is not allocated. -/
abbrev ScriptResult := Option (Bool × ScriptState)

namespace ScriptState

/-- Replaces the buffers. -/
def setBuffers (s : ScriptState) (buffers : LiveBuffers KernelBuffer) : ScriptState :=
  { s with buffers := buffers }

/-- Replaces the state of the processes. -/
def setLogic (s : ScriptState) (logic : LogicLayer) : ScriptState := { s with logic := logic }

/-- A path is looked up. -/
def examine (s : ScriptState) (path : List UInt8) : ScriptState :=
  { s with examined := s.examined ++ [path] }

variable (env : ExecEnvironment)

/-- Goes on with a buffer, which is released at the end. -/
def withBuffer (s : ScriptState) (buffer : KernelBuffer)
    (body : ℕ → ScriptState → ScriptResult) : ScriptResult :=
  match s.buffers.allocate env.refuses buffer with
  | none => some (false, s)
  | some (address, buffers) =>
    (body address (s.setBuffers buffers)).map fun r =>
      (r.1, r.2.setBuffers (r.2.buffers.release address))

/-- Goes on with the address of `InterpreterArg`, if there is an argument. -/
def withArgument (s : ScriptState) (argument : List UInt8)
    (body : List ℕ → ScriptState → ScriptResult) : ScriptResult :=
  if argument = [] then body [] s
  else s.withBuffer env (.text (argument ++ [0])) fun address s => body [address] s

/-- The part of `ChangeProcessExecution` for a script. -/
def runScript (run : ℕ → Option ℕ → ScriptState → ScriptResult) (filePath : ℕ) (argv : Option ℕ)
    (fileData : ByteMemory) (nodeSize : ℕ) (s : ScriptState) : ScriptResult :=
  let cursors := scanScript fileData nodeSize
  let interpreter := window fileData cursors.interpreterStart cursors.interpreterEnd
  let argument := window fileData cursors.argumentStart cursors.argumentEnd
  if interpreter = [] then some (false, s)
  else
    s.withBuffer env (.text (interpreter ++ [0])) fun interpreterPath s =>
      s.withArgument env argument fun interpreterArg s =>
        (s.buffers.vector argv).bind fun addresses =>
          s.withBuffer env
            (.vector (interpreterPath :: interpreterArg ++ filePath :: addresses.drop 1))
            fun newArgv s => run interpreterPath (some newArgv) s

/-- The part of `ChangeProcessExecution` for a file that is no script. -/
def runProgram (id filePath : ℕ) (argv envp : Option ℕ) (file : ScriptFile) (fileData : ByteMemory)
    (s : ScriptState) : ScriptResult :=
  (s.buffers.text filePath).bind fun path =>
    (s.buffers.arguments argv).bind fun args =>
      (s.buffers.arguments envp).map fun envs =>
        match env.load ⟨file.inode, window fileData 0 file.nodeSize, path, args, envs⟩ with
        | none => (false, s)
        | some state => (true, s.setLogic (s.logic.changeProcessExecution id state))

/-- A process that executes programs. -/
def isUserProcess (s : ScriptState) (id : ℕ) : Bool :=
  match s.logic.pm.getProcessById id with
  | none => false
  | some process => decide (process.status ≠ .terminated ∧ process.level = .user)

/-- `ChangeProcessExecution`, with the number of levels that are left. -/
def changeProcessExecution (id : ℕ) (envp : Option ℕ) :
    ℕ → ℕ → Option ℕ → ScriptState → ScriptResult
  | 0, _, _, s => some (false, s)
  | levels + 1, filePath, argv, s =>
    if !s.isUserProcess id then some (false, s)
    else
      (s.buffers.text filePath).bind fun path =>
        match (env.lookup path).bind fun file => file.loaded.map fun fileData => (file, fileData) with
        | none => some (false, s.examine path)
        | some (file, fileData) =>
          if isScript fileData file.nodeSize then
            (s.examine path).runScript env
              (fun filePath argv s => changeProcessExecution id envp levels filePath argv s)
              filePath argv fileData file.nodeSize
          else (s.examine path).runProgram env id filePath argv envp file fileData

end ScriptState

/-- `MAX_SCRIPT_INTERPRETER_DEPTH`. -/
def maxScriptInterpreterDepth : ℕ := 4

/-! ### What the call is for -/

/-- The arguments of an interpreter. -/
def scriptArguments (line path : List UInt8) (argv : List (List UInt8)) : List (List UInt8) :=
  interpreterOf line :: (if argumentOf line = [] then [] else [argumentOf line]) ++
    path :: argv.drop 1

/-- The program and the arguments at the end of a chain of scripts, in which lines end at the bytes
that are given. -/
def ExecEnvironment.resolveProgram (env : ExecEnvironment) (ends : UInt8 → Bool)
    (envp : List (List UInt8)) : ℕ → List UInt8 → List (List UInt8) → Option ProgramRequest
  | 0, _, _ => none
  | levels + 1, path, argv =>
    (env.lookup path).bind fun file =>
      file.loaded.bind fun fileData =>
        let bytes := window fileData 0 file.nodeSize
        if bytes.take 2 = scriptMark then
          if interpreterOf (scriptLine ends bytes) = [] then none
          else
            env.resolveProgram ends envp levels (interpreterOf (scriptLine ends bytes))
              (scriptArguments (scriptLine ends bytes) path argv)
        else some ⟨file.inode, bytes, path, argv, envp⟩

/-! ### The scan -/

section Scan

variable {fileData other : ByteMemory} {nodeSize : ℕ} {line bytes : List UInt8}

theorem not_isLineEnd_of_isBlank (byte : UInt8) (h : isBlank byte) : (!isLineEnd byte) = true := by
  rw [isBlank, Bool.or_eq_true, decide_eq_true_eq, decide_eq_true_eq] at h
  rcases h with rfl | rfl <;> decide

/-- The scan of a script finds the first word of its first line, and the rest of the line without
blanks at the ends. -/
theorem scanScript_words (fileData : ByteMemory) (nodeSize : ℕ) :
    window fileData (scanScript fileData nodeSize).interpreterStart
        (scanScript fileData nodeSize).interpreterEnd =
      interpreterOf (scriptLine isLineEnd (window fileData 0 nodeSize)) ∧
    window fileData (scanScript fileData nodeSize).argumentStart
        (scanScript fileData nodeSize).argumentEnd =
      argumentOf (scriptLine isLineEnd (window fileData 0 nodeSize)) := by
  rw [scriptLine, drop_window, Nat.zero_add, scanScript]
  dsimp only
  constructor
  · rw [window_advanceWhile, window_advanceWhile_end, takeWhile_and,
      takeWhile_dropWhile_comm not_isLineEnd_of_isBlank, interpreterOf]
  · rw [window_retreatWhile le_advanceWhile, window_advanceWhile, window_advanceWhile_end,
      window_advanceWhile_end, window_advanceWhile_end,
      takeWhile_dropWhile_comm not_isLineEnd_of_isBlank, takeWhile_dropWhile_and,
      takeWhile_dropWhile_comm not_isLineEnd_of_isBlank, argumentOf]

/-- The scan reads nothing but the bytes of the file. -/
theorem scanScript_congr (h : ∀ i < nodeSize, fileData i = other i) (hsize : 2 ≤ nodeSize) :
    scanScript fileData nodeSize = scanScript other nodeSize := by
  rw [scanScript, scanScript, advanceWhile_congr h, advanceWhile_congr h, advanceWhile_congr h,
    advanceWhile_congr h]
  rw [retreatWhile_congr fun i hi => h i (hi.trans_le ?_)]
  exact advanceWhile_le (advanceWhile_le (advanceWhile_le (advanceWhile_le hsize)))

theorem isScript_iff :
    isScript fileData nodeSize ↔ (window fileData 0 nodeSize).take 2 = scriptMark := by
  rw [isScript, decide_eq_true_eq]
  rcases nodeSize with _ | _ | size
  · simp [window_of_le, scriptMark]
  · simp [window_of_lt, window_of_le, scriptMark]
  · rw [window_of_lt (by omega), window_of_lt (by omega), List.take_succ_cons, List.take_succ_cons,
      List.take_zero, scriptMark, List.cons_eq_cons, List.cons_eq_cons]
    simp

theorem ne_zero_of_mem_scriptLine {byte : UInt8} (h : byte ∈ scriptLine isLineEnd bytes) :
    byte ≠ 0 := by
  rintro rfl
  have hnot := List.mem_takeWhile_imp h
  exact absurd hnot (by decide)

theorem interpreterOf_subset : interpreterOf line ⊆ line :=
  fun _ h => (List.dropWhile_suffix _).subset ((List.takeWhile_prefix _).subset h)

theorem argumentOf_subset : argumentOf line ⊆ line := fun _ h =>
  (List.dropWhile_suffix _).subset ((List.dropWhile_suffix _).subset
    ((List.dropWhile_suffix _).subset ((List.rdropWhile_prefix _ _).subset h)))

theorem cString_append_zero (h : ∀ byte ∈ bytes, byte ≠ 0) : cString (bytes ++ [0]) = bytes := by
  have hne : ∀ byte ∈ bytes, decide (byte ≠ stringTerminator) = true :=
    fun byte hbyte => decide_eq_true (h byte hbyte)
  rw [cString, List.takeWhile_append_of_pos hne]
  exact List.append_nil bytes

end Scan

/-! ### Buffers -/

namespace LiveBuffers

variable {buffers after : LiveBuffers KernelBuffer} {refuses : ℕ → Bool} {buffer : KernelBuffer}
  {address : ℕ} {addresses : List ℕ} {string bytes : List UInt8} {strings : List (List UInt8)}
  {pointer : Option ℕ}

/-- What is allocated in one store is so in another. -/
def Extends (after buffers : LiveBuffers KernelBuffer) : Prop :=
  ∀ address buffer, buffers.live address = some buffer → after.live address = some buffer

theorem extends_of_allocate (h : buffers.allocate refuses buffer = some (address, after)) :
    after.Extends buffers := fun _ _ hlive => live_of_live h hlive

theorem text_of_live (h : buffers.live address = some (.text (bytes ++ [0])))
    (hbytes : ∀ byte ∈ bytes, byte ≠ 0) : buffers.text address = some bytes := by
  rw [text, h]
  exact congrArg some (cString_append_zero hbytes)

theorem Extends.text (h : after.Extends buffers) (htext : buffers.text address = some string) :
    after.text address = some string := by
  rw [LiveBuffers.text] at htext ⊢
  cases hlive : buffers.live address with
  | none =>
    rw [hlive] at htext
    cases htext
  | some buffer =>
    rw [hlive] at htext
    rw [h address buffer hlive]
    exact htext

theorem texts_cons (hfirst : buffers.text address = some string)
    (hrest : buffers.texts addresses = some strings) :
    buffers.texts (address :: addresses) = some (string :: strings) := by
  rw [texts, hfirst, Option.bind_some, hrest, Option.map_some]

theorem texts_cons_iff : buffers.texts (address :: addresses) = some strings ↔
    ∃ first rest, buffers.text address = some first ∧ buffers.texts addresses = some rest ∧
      strings = first :: rest := by
  rw [texts, Option.bind_eq_some_iff]
  constructor
  · rintro ⟨first, hfirst, hmap⟩
    obtain ⟨rest, hrest, rfl⟩ := Option.map_eq_some_iff.mp hmap
    exact ⟨first, rest, hfirst, hrest, rfl⟩
  · rintro ⟨first, rest, hfirst, hrest, rfl⟩
    exact ⟨first, hfirst, Option.map_eq_some_iff.mpr ⟨rest, hrest, rfl⟩⟩

theorem Extends.texts (h : after.Extends buffers) (htexts : buffers.texts addresses = some strings) :
    after.texts addresses = some strings := by
  induction addresses generalizing strings with
  | nil => exact htexts
  | cons address addresses ih =>
    obtain ⟨first, rest, hfirst, hrest, rfl⟩ := texts_cons_iff.mp htexts
    exact texts_cons (h.text hfirst) (ih hrest)

theorem texts_drop_one (h : buffers.texts addresses = some strings) :
    buffers.texts (addresses.drop 1) = some (strings.drop 1) := by
  cases addresses with
  | nil =>
    cases h
    rfl
  | cons address addresses =>
    obtain ⟨first, rest, -, hrest, rfl⟩ := texts_cons_iff.mp h
    exact hrest

theorem Extends.vector (h : after.Extends buffers)
    (hvector : buffers.vector pointer = some addresses) :
    after.vector pointer = some addresses := by
  cases pointer with
  | none => exact hvector
  | some address =>
    rw [LiveBuffers.vector] at hvector ⊢
    cases hlive : buffers.live address with
    | none =>
      rw [hlive] at hvector
      cases hvector
    | some buffer =>
      rw [hlive] at hvector
      rw [h address buffer hlive]
      exact hvector

theorem arguments_eq_some_iff : buffers.arguments pointer = some strings ↔
    ∃ addresses, buffers.vector pointer = some addresses ∧ buffers.texts addresses = some strings :=
  Option.bind_eq_some_iff

theorem Extends.arguments (h : after.Extends buffers)
    (harguments : buffers.arguments pointer = some strings) :
    after.arguments pointer = some strings := by
  obtain ⟨addresses, hvector, htexts⟩ := arguments_eq_some_iff.mp harguments
  exact arguments_eq_some_iff.mpr ⟨addresses, h.vector hvector, h.texts htexts⟩

end LiveBuffers

/-! ### The execution -/

namespace ScriptState

section Facts

variable {env : ExecEnvironment} {id : ℕ} {s after : ScriptState} {ok : Bool} {levels : ℕ}
  {resolved : Option ProgramRequest} {buffer : KernelBuffer}

/-- What is known of an execution that is to end with the given program. -/
structure ExecFacts (env : ExecEnvironment) (id levels : ℕ) (resolved : Option ProgramRequest)
    (s after : ScriptState) (ok : Bool) : Prop where
  live_eq : after.buffers.live = s.buffers.live
  logic_eq : ok = false → after.logic = s.logic
  loaded : ok = true → ∃ request state, resolved = some request ∧ env.load request = some state ∧
    after.logic = s.logic.changeProcessExecution id state
  examined_le : after.examined.length ≤ s.examined.length + levels
  succeeds : (∀ address, env.refuses address = false) → s.isUserProcess id = true →
    ∀ request state, resolved = some request → env.load request = some state → ok = true

/-- An execution that ends with such facts. -/
def Executes (env : ExecEnvironment) (id levels : ℕ) (resolved : Option ProgramRequest)
    (s : ScriptState) (r : ScriptResult) : Prop :=
  ∃ ok after, r = some (ok, after) ∧ ExecFacts env id levels resolved s after ok

/-- An execution that fails before anything has happened. -/
theorem Executes.of_failed
    (h : (∀ address, env.refuses address = false) → s.isUserProcess id = true →
      ∀ request, resolved = some request → env.load request = none) :
    Executes env id levels resolved s (some (false, s)) := by
  refine ⟨false, s, rfl, rfl, fun _ => rfl, fun hok => absurd hok Bool.false_ne_true,
    Nat.le_add_right _ _, fun hrefuses huser request state hresolved hload => ?_⟩
  rw [h hrefuses huser request hresolved] at hload
  cases hload

theorem Executes.withBuffer {body : ℕ → ScriptState → ScriptResult}
    (h : ∀ address buffers, s.buffers.allocate env.refuses buffer = some (address, buffers) →
      Executes env id levels resolved (s.setBuffers buffers) (body address (s.setBuffers buffers))) :
    Executes env id levels resolved s (s.withBuffer env buffer body) := by
  rw [ScriptState.withBuffer]
  cases hallocate : s.buffers.allocate env.refuses buffer with
  | none =>
    refine .of_failed fun hrefuses _ => ?_
    rw [LiveBuffers.allocate, hrefuses, if_neg Bool.false_ne_true] at hallocate
    cases hallocate
  | some allocated =>
    obtain ⟨address, buffers⟩ := allocated
    obtain ⟨ok, after, hbody, hfacts⟩ := h address buffers hallocate
    dsimp only
    rw [hbody]
    exact ⟨ok, after.setBuffers (after.buffers.release address), rfl,
      LiveBuffers.live_release_of_allocate hallocate hfacts.live_eq, hfacts.logic_eq,
      hfacts.loaded, hfacts.examined_le, hfacts.succeeds⟩

/-- A path is looked up before the rest of an execution. -/
theorem Executes.of_examine {path : List UInt8} {r : ScriptResult}
    (h : Executes env id levels resolved (s.examine path) r) :
    Executes env id (levels + 1) resolved s r := by
  obtain ⟨ok, after, hr, hfacts⟩ := h
  refine ⟨ok, after, hr, hfacts.live_eq, hfacts.logic_eq, hfacts.loaded, ?_, hfacts.succeeds⟩
  have hle := hfacts.examined_le
  rw [examine, List.length_append, List.length_singleton] at hle
  omega

end Facts

section Execution

variable {env : ExecEnvironment} {id : ℕ} {s : ScriptState} {levels filePath : ℕ}
  {argv envp : Option ℕ} {path : List UInt8} {args envs : List (List UInt8)}

/-- The arguments that an interpreter is given. -/
theorem runScript_executes {run : ℕ → Option ℕ → ScriptState → ScriptResult}
    {resolve : List UInt8 → List (List UInt8) → Option ProgramRequest} {fileData : ByteMemory}
    {nodeSize : ℕ} {line : List UInt8}
    (hline : line = scriptLine isLineEnd (window fileData 0 nodeSize))
    (hpath : s.buffers.text filePath = some path)
    (hargv : s.buffers.arguments argv = some args) (henvp : s.buffers.arguments envp = some envs)
    (hrun : ∀ filePath argv s path args, s.buffers.text filePath = some path →
      s.buffers.arguments argv = some args → s.buffers.arguments envp = some envs →
        Executes env id levels (resolve path args) s (run filePath argv s)) :
    Executes env id levels
      (if interpreterOf line = [] then none
        else resolve (interpreterOf line) (scriptArguments line path args)) s
      (s.runScript env run filePath argv fileData nodeSize) := by
  rw [runScript, (scanScript_words fileData nodeSize).1, (scanScript_words fileData nodeSize).2,
    ← hline]
  have hinterpreter : ∀ byte ∈ interpreterOf line, byte ≠ 0 := fun byte hbyte =>
    ne_zero_of_mem_scriptLine (hline ▸ interpreterOf_subset hbyte)
  have hargument : ∀ byte ∈ argumentOf line, byte ≠ 0 := fun byte hbyte =>
    ne_zero_of_mem_scriptLine (hline ▸ argumentOf_subset hbyte)
  split_ifs with hempty
  · exact .of_failed fun _ _ request hresolved => by cases hresolved
  obtain ⟨addresses, hvector, htexts⟩ := LiveBuffers.arguments_eq_some_iff.mp hargv
  -- The buffers are allocated one after the other; what was live before stays so.
  refine .withBuffer fun interpreterPath buffers hallocate => ?_
  have hextends := LiveBuffers.extends_of_allocate hallocate
  have htext := LiveBuffers.text_of_live (LiveBuffers.live_self hallocate) hinterpreter
  -- The part behind the argument, for the addresses and the strings of the argument.
  have hrest : ∀ (interpreterArg : List ℕ) (strings : List (List UInt8)) (s' : ScriptState),
      s'.buffers.Extends buffers → s'.buffers.texts interpreterArg = some strings →
      (∀ l l', s'.buffers.texts l = some l' →
        s'.buffers.texts (interpreterArg ++ l) = some (strings ++ l')) →
      Executes env id levels
        (resolve (interpreterOf line) (interpreterOf line :: strings ++ path :: args.drop 1)) s'
        ((s'.buffers.vector argv).bind fun addresses =>
          s'.withBuffer env
            (.vector (interpreterPath :: interpreterArg ++ filePath :: addresses.drop 1))
            fun newArgv s => run interpreterPath (some newArgv) s) := by
    intro interpreterArg strings s' hs' _ happend
    have hs : s'.buffers.Extends s.buffers := fun a b hlive => hs' a b (hextends a b hlive)
    rw [hs.vector hvector, Option.bind_some]
    refine .withBuffer fun newArgv buffers' hallocate' => ?_
    have hextends' := LiveBuffers.extends_of_allocate hallocate'
    have hstrings := LiveBuffers.texts_cons (hs'.text htext) (happend _ _
      (LiveBuffers.texts_cons (hs.text hpath) (LiveBuffers.texts_drop_one (hs.texts htexts))))
    refine hrun interpreterPath (some newArgv) (s'.setBuffers buffers') _ _
      (hextends'.text (hs'.text htext)) ?_ (hextends'.arguments (hs.arguments henvp))
    refine LiveBuffers.arguments_eq_some_iff.mpr ⟨_, ?_, hextends'.texts hstrings⟩
    rw [LiveBuffers.vector]
    dsimp only [setBuffers]
    rw [LiveBuffers.live_self hallocate']
    rfl
  rw [withArgument, scriptArguments]
  split_ifs with hnone
  · exact hrest [] [] (s.setBuffers buffers) (fun _ _ hlive => hlive) rfl fun _ _ hl => hl
  · refine .withBuffer fun interpreterArg buffers' hallocate' => ?_
    have htext' := LiveBuffers.text_of_live (LiveBuffers.live_self hallocate') hargument
    exact hrest [interpreterArg] [argumentOf line] ((s.setBuffers buffers).setBuffers buffers')
      (LiveBuffers.extends_of_allocate hallocate') (LiveBuffers.texts_cons htext' rfl)
      fun _ _ hl => LiveBuffers.texts_cons htext' hl

theorem runProgram_executes {file : ScriptFile} {fileData : ByteMemory}
    (hpath : s.buffers.text filePath = some path) (hargv : s.buffers.arguments argv = some args)
    (henvp : s.buffers.arguments envp = some envs) :
    Executes env id levels
      (some ⟨file.inode, window fileData 0 file.nodeSize, path, args, envs⟩) s
      (s.runProgram env id filePath argv envp file fileData) := by
  rw [runProgram, hpath, Option.bind_some, hargv, Option.bind_some, henvp, Option.map_some]
  cases hload : env.load ⟨file.inode, window fileData 0 file.nodeSize, path, args, envs⟩ with
  | none =>
    refine .of_failed fun _ _ request hresolved => ?_
    cases hresolved
    exact hload
  | some state =>
    exact ⟨true, _, rfl, rfl, fun hok => absurd hok.symm Bool.false_ne_true,
      fun _ => ⟨_, state, rfl, hload, rfl⟩, Nat.le_add_right _ _, fun _ _ _ _ _ _ => rfl⟩

/-- An execution gives back all buffers, changes the process only when the program at the end of the
chain is loaded, and looks up no more paths than there are levels. It succeeds when there is memory
and the program can be loaded. -/
theorem changeProcessExecution_executes (env : ExecEnvironment) (id levels : ℕ)
    (hpath : s.buffers.text filePath = some path) (hargv : s.buffers.arguments argv = some args)
    (henvp : s.buffers.arguments envp = some envs) :
    Executes env id levels (env.resolveProgram isLineEnd envs levels path args) s
      (changeProcessExecution env id envp levels filePath argv s) := by
  induction levels generalizing filePath argv s path args with
  | zero => exact .of_failed fun _ _ request hresolved => by cases hresolved
  | succ levels ih =>
    rw [changeProcessExecution, ExecEnvironment.resolveProgram]
    cases huser : s.isUserProcess id with
    | false =>
      rw [Bool.not_false, if_pos rfl]
      exact .of_failed fun _ htrue => absurd (huser.symm.trans htrue) Bool.false_ne_true
    | true =>
      rw [Bool.not_true, if_neg Bool.false_ne_true, hpath, Option.bind_some]
      cases hlookup : env.lookup path with
      | none => exact (Executes.of_failed fun _ _ request hresolved => by cases hresolved).of_examine
      | some file =>
        rw [Option.bind_some, Option.bind_some]
        cases hloaded : file.loaded with
        | none =>
          exact (Executes.of_failed fun _ _ request hresolved => by cases hresolved).of_examine
        | some fileData =>
          rw [Option.map_some, Option.bind_some]
          dsimp only
          by_cases hscript : isScript fileData file.nodeSize
          · rw [if_pos hscript, if_pos (isScript_iff.mp hscript)]
            exact (runScript_executes (s := s.examine path) rfl hpath hargv henvp
              fun _ _ _ _ _ => ih).of_examine
          · rw [if_neg hscript, if_neg (mt isScript_iff.mpr hscript)]
            exact (runProgram_executes (s := s.examine path) hpath hargv henvp).of_examine

/-- `execve` of a script: the first word of the first line is executed with the rest of the line,
the path of the script and the other arguments, through `MAX_SCRIPT_INTERPRETER_DEPTH` interpreters
at most. Lines end at a line feed, a carriage return or a zero, and the scan reads nothing but the
file. -/
theorem script_executes (env : ExecEnvironment) (id : ℕ)
    (hpath : s.buffers.text filePath = some path) (hargv : s.buffers.arguments argv = some args)
    (henvp : s.buffers.arguments envp = some envs) :
    Executes env id (maxScriptInterpreterDepth + 1)
      (env.resolveProgram isLineEnd envs (maxScriptInterpreterDepth + 1) path args) s
      (changeProcessExecution env id envp (maxScriptInterpreterDepth + 1) filePath argv s) ∧
    ∀ (fileData other : ByteMemory) (nodeSize : ℕ), 2 ≤ nodeSize →
      (∀ i < nodeSize, fileData i = other i) →
        isScript fileData nodeSize = isScript other nodeSize ∧
          scanScript fileData nodeSize = scanScript other nodeSize := by
  refine ⟨changeProcessExecution_executes env id _ hpath hargv henvp,
    fun fileData other nodeSize hsize h => ⟨?_, scanScript_congr h hsize⟩⟩
  rw [isScript, isScript, h 0 (by omega), h 1 (by omega)]

/-- The script `/s` has the line "#!/a\rb", the file `/a` is a program. -/
def carriageReturnScript : List UInt8 := [0x23, 0x21, 0x2F, 0x61, 0x0D, 0x62, 0x0A]

/-- The files of the example. -/
def scriptEnvironment : ExecEnvironment where
  lookup := fun path =>
    if path = [0x2F, 0x73] then
      some ⟨1, true, carriageReturnScript.length, some fun i => carriageReturnScript.getD i 0⟩
    else if path = [0x2F, 0x61] then some ⟨2, true, 1, some fun _ => 0x7F⟩
    else none
  refuses := fun _ => false
  load := fun _ => some {}

/-- A user process that is about to execute `/s`. -/
def scriptCaller : ScriptState where
  buffers :=
    { live := fun address =>
        if address = 0 then some (.text [0x2F, 0x73, 0])
        else if address = 1 then some (.vector [0])
        else none
      next := 2
      fresh := fun address h => by
        rw [if_neg (by omega), if_neg (by omega)] }
  logic :=
    { pm :=
        { processes := fun _ => { status := .running, level := .user }
          currentProcessId := 0 } }

theorem script_executes_scriptCaller :
    Executes scriptEnvironment 0 5
      (scriptEnvironment.resolveProgram isLineEnd [] 5 [0x2F, 0x73] [[0x2F, 0x73]]) scriptCaller
      (changeProcessExecution scriptEnvironment 0 none 5 0 (some 1) scriptCaller) :=
  (script_executes scriptEnvironment 0 (s := scriptCaller) rfl rfl rfl).1

/-- The interpreter that is looked up is `/a`, while the first word of the line up to the line feed
is longer. -/
theorem not_script_carriageReturn :
    ((changeProcessExecution scriptEnvironment 0 none 5 0 (some 1) scriptCaller).map fun r =>
      (r.1, r.2.examined)) = some (true, [[0x2F, 0x73], [0x2F, 0x61]]) ∧
    interpreterOf (scriptLine (· = 0x0A) carriageReturnScript) = [0x2F, 0x61, 0x0D, 0x62] := by
  refine ⟨?_, by decide⟩
  decide +kernel

end Execution

end ScriptState

end TwistedOS
