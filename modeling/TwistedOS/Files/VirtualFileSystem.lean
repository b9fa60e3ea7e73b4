import Mathlib.Data.List.DropRight
import TwistedOS.Files.DentryPaths
import TwistedOS.Files.EntryMoves
import TwistedOS.Files.PathSpecification
import TwistedOS.Logic.ProcessCalls

/-!
# Deletion and renaming in the virtual file system

`DeleteFile` and `RenameFile` of `VirtualFileSystem`, and the handler of the rename system call. An
ext2 file system below the virtual one is known by what it answers. Allocations do not fail: `new`
stops the machine when there is no memory. A dentry that was freed stays in the model, where no list
of children holds it.

## Main definitions

* `VirtualFileSystem` — the tree of dentries; siblings have distinct names.
* `VirtualFileSystem.removeEntry`, `VirtualFileSystem.moveEntry`.
* `VirtualFileSystem.deleteFile`, `VirtualFileSystem.renameFile`.
* `VirtualFileSystem.handleRenameSystemCall`.

## Main results

* `VirtualFileSystem.findChildBySegment_removeEntry`.
* `VirtualFileSystem.findChildBySegment_moveEntry`.
-/

namespace TwistedOS

/-- `LINUX_ERR_ENOTDIR`. -/
def errEnotdir : ℤ := -20

/-- `LINUX_ERR_EISDIR`. -/
def errEisdir : ℤ := -21

/-- `LINUX_ERR_ENOTEMPTY`. -/
def errEnotempty : ℤ := -39

/-- `SYSCALL_PATH_MAX`. -/
def syscallPathMax : ℕ := 4096

namespace Dentry

variable (entry : Dentry)

/-- Replaces the children. -/
def withChildren (children : List ℕ) : Dentry := { entry with children := children }

/-- Replaces the parent. -/
def withParent (parent : Option ℕ) : Dentry := { entry with parent := parent }

/-- Replaces the name. -/
def withName (name : List UInt8) : Dentry := { entry with name := name }

end Dentry

section Dentries

variable (dentry : ℕ → Dentry)

/-- `RemoveChild`, of a child that is there. -/
def removeChild (parent child : ℕ) : ℕ → Dentry :=
  Function.update dentry parent
    ((dentry parent).withChildren ((dentry parent).children.erase child))

/-- `AppendChild`. -/
def appendChild (parent child : ℕ) : ℕ → Dentry :=
  let appended := Function.update dentry parent
    ((dentry parent).withChildren ((dentry parent).children ++ [child]))
  Function.update appended child ((appended child).withParent (some parent))

/-- The changes of `RenameFile`: `RemoveChild`, `AppendChild` and the new name. -/
def moveChild (previousParent targetParent source : ℕ) (newName : List UInt8) : ℕ → Dentry :=
  let moved := appendChild (removeChild dentry previousParent source) targetParent source
  Function.update moved source ((moved source).withName newName)

variable {dentry} {parent child previousParent targetParent source d : ℕ} {newName : List UInt8}

theorem children_removeChild :
    (removeChild dentry parent child d).children =
      if d = parent then (dentry d).children.erase child else (dentry d).children := by
  rw [removeChild, Function.update_apply]
  split_ifs with h
  · rw [h]
    rfl
  · rfl

theorem name_removeChild : (removeChild dentry parent child d).name = (dentry d).name := by
  rw [removeChild, Function.update_apply]
  split_ifs with h
  · rw [h]
    rfl
  · rfl

theorem parent_removeChild : (removeChild dentry parent child d).parent = (dentry d).parent := by
  rw [removeChild, Function.update_apply]
  split_ifs with h
  · rw [h]
    rfl
  · rfl

theorem inode_removeChild : (removeChild dentry parent child d).inode = (dentry d).inode := by
  rw [removeChild, Function.update_apply]
  split_ifs with h
  · rw [h]
    rfl
  · rfl

/-- What `AppendChild` does to each dentry. -/
theorem appendChild_apply :
    appendChild dentry parent child d =
      ⟨(dentry d).name, (dentry d).inode, if d = child then some parent else (dentry d).parent,
        if d = parent then (dentry d).children ++ [child] else (dentry d).children⟩ := by
  simp only [appendChild, Function.update_apply]
  split_ifs <;> subst_vars <;> simp_all [Dentry.withChildren, Dentry.withParent]

/-- What the changes of `RenameFile` do to each dentry. -/
theorem moveChild_apply :
    moveChild dentry previousParent targetParent source newName d =
      ⟨if d = source then newName else (dentry d).name, (dentry d).inode,
        if d = source then some targetParent else (dentry d).parent,
        if d = targetParent then
          (removeChild dentry previousParent source d).children ++ [source]
        else (removeChild dentry previousParent source d).children⟩ := by
  simp only [moveChild, Function.update_apply, appendChild_apply, name_removeChild,
    inode_removeChild, parent_removeChild]
  split_ifs <;> simp_all [Dentry.withName]

end Dentries

/-! ### Texts of the new path -/

/-- The new path from `NormalizedNewPath` to `PathEnd`: without separators at its end. -/
def pathBody (newPath : List UInt8) : List UInt8 :=
  (normalizePathStart (cString newPath)).rdropWhile (· = pathSeparator)

/-- The text from `LastSegmentStart` to `PathEnd`. -/
def lastName (newPath : List UInt8) : List UInt8 :=
  (pathBody newPath).rtakeWhile (· ≠ pathSeparator)

/-- The segments from `NormalizedNewPath` to `LastSegmentStart`. -/
def directorySegments (newPath : List UInt8) : List (List UInt8) :=
  (Text.segments pathSeparator ((pathBody newPath).rdropWhile (· ≠ pathSeparator))).map Prod.fst

namespace DentryTree

variable (tree : DentryTree)

/-- The loop of `RenameFile` over the directories of the new path. -/
def descend : ℕ → List (List UInt8) → Option ℕ
  | parent, [] => some parent
  | parent, segment :: segments =>
    if segment = [pathDot] ∨ segment = [pathDot, pathDot] then none
    else
      match tree.findChildBySegment parent segment with
      | none => none
      | some next => if tree.IsDirectory next then descend next segments else none

/-- `IsDescendantDentry`, over at most as many dentries as there is fuel. -/
def isDescendantDentry : (fuel candidate ancestor : ℕ) → Bool
  | 0, _, _ => false
  | fuel + 1, current, ancestor =>
    if current = ancestor then true
    else
      match (tree.dentry current).parent with
      | none => false
      | some parent => isDescendantDentry fuel parent ancestor

/-- `TargetParent` and the new name, if the new path can be taken. -/
def renameTarget (root : ℕ) (newPath : List UInt8) : Option (ℕ × List UInt8) :=
  if isRootAliasPath (normalizePathStart (cString newPath)) then none
  else if pathBody newPath = [] then none
  else if lastName newPath = [] then none
  else if lastName newPath = [pathDot] ∨ lastName newPath = [pathDot, pathDot] then none
  else (tree.descend root (directorySegments newPath)).map fun parent => (parent, lastName newPath)

end DentryTree

/-- What the virtual file system asks of an ext2 file system; `σ` is the state of the latter. -/
structure ExtendedOperations (σ : Type*) where
  deleteFile : σ → (path : List UInt8) → FileType → Bool × σ
  renameFile : σ → (oldPath newPath : List UInt8) → FileType → Bool × σ

/-- `VirtualFileSystem`. `extended` is `ActiveExtendedFileSystem`, if `isEXT` is set. -/
structure VirtualFileSystem (σ : Type*) where
  root : ℕ
  tree : DentryTree
  usesVirtualHardLinks : ℕ → Bool
  extended : Option (ExtendedOperations σ)
  extendedState : σ
  root_parent : (tree.dentry root).parent = none
  distinct : ∀ d, ((tree.dentry d).children.map fun c => (tree.dentry c).name).Nodup

namespace VirtualFileSystem

variable {σ : Type*} (fs : VirtualFileSystem σ)

/-- Replaces the state of the ext2 file system. -/
def withExtendedState (state : σ) : VirtualFileSystem σ := { fs with extendedState := state }

/-- `Lookup`. -/
abbrev lookup (path : List UInt8) : Option ℕ := fs.tree.lookup fs.root path

/-- `LookupNoFollowFinal`. -/
abbrev lookupNoFollowFinal (path : List UInt8) : Option ℕ :=
  fs.tree.lookupNoFollowFinal fs.root path

/-! ### Changes of the tree -/

theorem nodup_children (d : ℕ) : (fs.tree.dentry d).children.Nodup := (fs.distinct d).of_map _

variable {fs} {d c x previous target source : ℕ} {segment name : List UInt8}

/-- A child is found by its name, and nothing else is. -/
theorem findChildBySegment_eq_some :
    fs.tree.findChildBySegment d segment = some c ↔
      c ∈ (fs.tree.dentry d).children ∧ (fs.tree.dentry c).name = segment := by
  constructor
  · exact fun h => ⟨List.mem_of_find?_eq_some h, by simpa using List.find?_some h⟩
  · rintro ⟨hc, rfl⟩
    exact DentryTree.findChildBySegment_of_mem (fs.distinct d) hc

variable (fs) in
/-- A move that keeps the tree a tree. -/
structure CanMove (previous target source : ℕ) (name : List UInt8) : Prop where
  source_ne : source ≠ fs.root
  parent : (fs.tree.dentry source).parent = some previous
  free : fs.tree.findChildBySegment target name = none

/-- A removed dentry is nobody's child. -/
theorem mem_children_removeChild (hparent : (fs.tree.dentry source).parent = some previous) :
    c ∈ (removeChild fs.tree.dentry previous source d).children ↔
      c ≠ source ∧ c ∈ (fs.tree.dentry d).children := by
  rw [children_removeChild]
  split_ifs with h
  · exact (fs.nodup_children d).mem_erase_iff
  · refine ⟨fun hc => ⟨?_, hc⟩, And.right⟩
    rintro rfl
    rw [fs.tree.parent_of_mem d c hc] at hparent
    exact h (Option.some.inj hparent)

theorem children_removeChild_sublist (parent child : ℕ) :
    (removeChild fs.tree.dentry parent child d).children.Sublist (fs.tree.dentry d).children := by
  rw [children_removeChild]
  split_ifs
  · exact List.erase_sublist
  · exact List.Sublist.refl _

/-- The names of the children that are left are distinct. -/
theorem distinct_removeChild (parent child : ℕ) :
    ((removeChild fs.tree.dentry parent child d).children.map fun c =>
      (fs.tree.dentry c).name).Nodup :=
  ((children_removeChild_sublist parent child).map _).nodup (fs.distinct d)

variable (fs) in
/-- The tree without a child of a dentry. -/
def removeEntry (parent child : ℕ) : VirtualFileSystem σ :=
  { fs with
    tree :=
      { dentry := removeChild fs.tree.dentry parent child
        parent_of_mem := fun d c hc => by
          rw [parent_removeChild]
          exact fs.tree.parent_of_mem d c ((children_removeChild_sublist parent child).subset hc) }
    root_parent := parent_removeChild.trans fs.root_parent
    distinct := fun d => by
      simp only [name_removeChild]
      exact distinct_removeChild parent child }

/-- A dentry that has moved is a child of its new parent and of nothing else. -/
theorem mem_children_moveChild (hparent : (fs.tree.dentry source).parent = some previous) :
    c ∈ (moveChild fs.tree.dentry previous target source name d).children ↔
      c = source ∧ d = target ∨ c ≠ source ∧ c ∈ (fs.tree.dentry d).children := by
  rw [moveChild_apply]
  dsimp only
  split_ifs with h
  · rw [List.mem_append, mem_children_removeChild hparent, List.mem_singleton]
    tauto
  · rw [mem_children_removeChild hparent]
    tauto

section

variable (h : fs.CanMove previous target source name)

include h

theorem CanMove.parent_of_mem
    (hc : c ∈ (moveChild fs.tree.dentry previous target source name d).children) :
    (moveChild fs.tree.dentry previous target source name c).parent = some d := by
  rw [moveChild_apply]
  dsimp only
  obtain ⟨rfl, rfl⟩ | ⟨hne, hc⟩ := (mem_children_moveChild h.parent).mp hc
  · rw [if_pos rfl]
  · rw [if_neg hne]
    exact fs.tree.parent_of_mem d c hc

theorem CanMove.distinct :
    ((moveChild fs.tree.dentry previous target source name d).children.map fun c =>
      (moveChild fs.tree.dentry previous target source name c).name).Nodup := by
  have hkept : (removeChild fs.tree.dentry previous source d).children.map (fun c =>
      (moveChild fs.tree.dentry previous target source name c).name) =
      (removeChild fs.tree.dentry previous source d).children.map fun c =>
        (fs.tree.dentry c).name := by
    refine List.map_congr_left fun c hc => ?_
    rw [moveChild_apply]
    exact if_neg ((mem_children_removeChild h.parent).mp hc).1
  have hsource : (moveChild fs.tree.dentry previous target source name source).name = name := by
    rw [moveChild_apply]
    exact if_pos rfl
  rw [moveChild_apply]
  dsimp only
  split_ifs with htarget
  · subst htarget
    rw [List.map_append, List.map_singleton, hkept, hsource]
    refine (distinct_removeChild previous source).append (List.nodup_singleton name) ?_
    rw [List.disjoint_singleton]
    intro hmem
    -- a child with the new name would have been found
    obtain ⟨c, hc, hname⟩ := List.mem_map.mp hmem
    have hfind : fs.tree.findChildBySegment d name = some c :=
      findChildBySegment_eq_some.mpr ⟨((mem_children_removeChild h.parent).mp hc).2, hname⟩
    rw [h.free] at hfind
    cases hfind
  · rw [hkept]
    exact distinct_removeChild previous source

theorem CanMove.root_parent :
    (moveChild fs.tree.dentry previous target source name fs.root).parent = none := by
  rw [moveChild_apply]
  exact (if_neg h.source_ne.symm).trans fs.root_parent

end

variable (fs) in
/-- The tree after a move. -/
def moveEntry (previous target source : ℕ) (name : List UInt8)
    (h : fs.CanMove previous target source name) : VirtualFileSystem σ :=
  { fs with
    tree :=
      { dentry := moveChild fs.tree.dentry previous target source name
        parent_of_mem := fun _ _ hc => h.parent_of_mem hc }
    root_parent := h.root_parent
    distinct := fun _ => h.distinct }

theorem dentry_moveEntry (h : fs.CanMove previous target source name) :
    (fs.moveEntry previous target source name h).tree.dentry =
      moveChild fs.tree.dentry previous target source name := rfl

/-- Without an entry, everything else is still found. -/
theorem findChildBySegment_removeEntry (hparent : (fs.tree.dentry x).parent = some previous) :
    (fs.removeEntry previous x).tree.findChildBySegment d segment = some c ↔
      c ≠ x ∧ fs.tree.findChildBySegment d segment = some c := by
  have hname : ((fs.removeEntry previous x).tree.dentry c).name = (fs.tree.dentry c).name :=
    name_removeChild
  have hmem : c ∈ ((fs.removeEntry previous x).tree.dentry d).children ↔
      c ≠ x ∧ c ∈ (fs.tree.dentry d).children := mem_children_removeChild hparent
  rw [findChildBySegment_eq_some, findChildBySegment_eq_some, hname, hmem, and_assoc]

/-- After a move, the entry is found at its new place, and everything else where it was. -/
theorem findChildBySegment_moveEntry (h : fs.CanMove previous target source name) :
    (fs.moveEntry previous target source name h).tree.findChildBySegment d segment = some c ↔
      c = source ∧ d = target ∧ segment = name ∨
        c ≠ source ∧ fs.tree.findChildBySegment d segment = some c := by
  have hmem : c ∈ ((fs.moveEntry previous target source name h).tree.dentry d).children ↔
      c = source ∧ d = target ∨ c ≠ source ∧ c ∈ (fs.tree.dentry d).children :=
    mem_children_moveChild h.parent
  have hname : ((fs.moveEntry previous target source name h).tree.dentry c).name =
      if c = source then name else (fs.tree.dentry c).name := by
    rw [dentry_moveEntry, moveChild_apply]
  rw [findChildBySegment_eq_some, findChildBySegment_eq_some, hname, hmem]
  by_cases hc : c = source
  · simp [hc, eq_comm]
  · simp [hc]

/-! ### Deletion -/

variable (fs)

/-- What `DeleteFile` asks of the ext2 file system, if it asks at all. -/
def extendedDelete (path : List UInt8) (type : FileType) (existing : ℕ) : Bool × σ :=
  match fs.extended with
  | none => (true, fs.extendedState)
  | some operations =>
    if type ≠ .dir ∧ fs.usesVirtualHardLinks existing = true then (true, fs.extendedState)
    else operations.deleteFile fs.extendedState path type

/-- `DeleteFile`. -/
def deleteFile (path : List UInt8) (type : FileType) : Bool × VirtualFileSystem σ :=
  if ¬(type = .dir ∨ type = .file) then (false, fs)
  else
    match fs.lookupNoFollowFinal path with
    | none => (false, fs)
    | some existing =>
      match (fs.tree.dentry existing).parent with
      | none => (false, fs)
      | some parent =>
        if existing = fs.root then (false, fs)
        else if (fs.tree.inode existing).nodeType ≠ type then (false, fs)
        else if type = .dir ∧ (fs.tree.dentry existing).children ≠ [] then (false, fs)
        else
          match fs.extendedDelete path type existing with
          | (false, state) => (false, fs.withExtendedState state)
          | (true, state) =>
            if existing ∈ (fs.tree.dentry parent).children then
              (true, (fs.removeEntry parent existing).withExtendedState state)
            else (false, fs.withExtendedState state)

/-! ### Renaming -/

/-- What `RenameFile` has found before its changes. -/
structure Move where
  previous : ℕ
  target : ℕ
  source : ℕ
  name : List UInt8
  canMove : fs.CanMove previous target source name

/-- The checks of `RenameFile`; nothing is moved when both paths name one entry. -/
def planRename (oldPath newPath : List UInt8) (type : FileType) : Option (Option fs.Move) :=
  if ¬(type = .dir ∨ type = .file) then none
  else
    match fs.lookupNoFollowFinal oldPath with
    | none => none
    | some source =>
      match hparent : (fs.tree.dentry source).parent with
      | none => none
      | some previous =>
        if hroot : source = fs.root then none
        else if (fs.tree.inode source).nodeType ≠ type then none
        else
          match fs.lookupNoFollowFinal newPath with
          | some existing => if existing = source then some none else none
          | none =>
            match fs.tree.renameTarget fs.root newPath with
            | none => none
            | some (target, name) =>
              match hfree : fs.tree.findChildBySegment target name with
              | some _ => none
              | none =>
                if type = .dir ∧ (source = target ∨ fs.tree.isDescendantDentry
                    ((directorySegments newPath).length + 1) target source = true) then none
                else some (some ⟨previous, target, source, name, ⟨hroot, hparent, hfree⟩⟩)

/-- What `RenameFile` asks of the ext2 file system. -/
def extendedRename (oldPath newPath : List UInt8) (type : FileType) : Bool × σ :=
  match fs.extended with
  | none => (true, fs.extendedState)
  | some operations => operations.renameFile fs.extendedState oldPath newPath type

/-- `RenameFile`. -/
def renameFile (oldPath newPath : List UInt8) (type : FileType) : Bool × VirtualFileSystem σ :=
  match fs.planRename oldPath newPath type with
  | none => (false, fs)
  | some none => (true, fs)
  | some (some move) =>
    match fs.extendedRename oldPath newPath type with
    | (false, state) => (false, fs.withExtendedState state)
    | (true, state) =>
      if move.source ∈ (fs.tree.dentry move.previous).children then
        (true, (fs.moveEntry move.previous move.target move.source move.name
          move.canMove).withExtendedState state)
      else (false, fs.withExtendedState state)

/-! ### The system call -/

/-- The part of `HandleRenameSystemCall` that deals with an existing destination: the code that is
returned, if any. -/
def replaceDestination (source : ℕ) (newPath : List UInt8) : Option ℤ × VirtualFileSystem σ :=
  match fs.lookup newPath with
  | none => (none, fs)
  | some existing =>
    if existing = source then (none, fs)
    else if (fs.tree.inode source).nodeType = .dir then
      if (fs.tree.inode existing).nodeType ≠ .dir then (some errEnotdir, fs)
      else if (fs.tree.dentry existing).children ≠ [] then (some errEnotempty, fs)
      else
        match fs.deleteFile newPath .dir with
        | (false, fs') => (some errEperm, fs')
        | (true, fs') => (none, fs')
    else if (fs.tree.inode existing).nodeType = .dir then (some errEisdir, fs)
    else if (fs.tree.inode existing).nodeType ≠ .file then (some errEperm, fs)
    else
      match fs.deleteFile newPath .file with
      | (false, fs') => (some errEperm, fs')
      | (true, fs') => (none, fs')

/-- `HandleRenameSystemCall`, from the comparison of the two paths on. -/
def renamePaths (oldPath newPath : List UInt8) : ℤ × VirtualFileSystem σ :=
  if cString oldPath = cString newPath then (0, fs)
  else
    match fs.lookup oldPath with
    | none => (errEnoent, fs)
    | some source =>
      if ¬((fs.tree.inode source).nodeType = .dir ∨ (fs.tree.inode source).nodeType = .file) then
        (errEperm, fs)
      else
        match fs.replaceDestination source newPath with
        | (some code, fs') => (code, fs')
        | (none, fs') =>
          match fs'.renameFile oldPath newPath (fs.tree.inode source).nodeType with
          | (false, fs'') => (errEinval, fs'')
          | (true, fs'') => (0, fs'')

/-- The absolute path for a path that a process passes, below its current directory. -/
def effectivePath (currentDirectory : Option ℕ) (path : List UInt8) : Except ℤ (List UInt8) :=
  if (cString path).head? = some pathSeparator then .ok (cString path)
  else
    match currentDirectory with
    | none => .error errEnoent
    | some directory =>
      match fs.tree.buildAbsolutePathFromDentry syscallPathMax directory with
      | none => .error errEfault
      | some basePath =>
        if syscallPathMax < (joinPath basePath (cString path)).length + 1 then .error errEinval
        else .ok (joinPath basePath (cString path))

/-- The part of `HandleRenameSystemCall` before the comparison of the two paths: `RenameOldPath` and
`RenameNewPath`. The arguments are what `CopyUserCString` copies, if it can. -/
def effectivePaths (currentDirectory : Option ℕ) (oldPath newPath : Option (List UInt8)) :
    Except ℤ (List UInt8 × List UInt8) :=
  match oldPath, newPath with
  | some oldPath, some newPath =>
    if cString oldPath = [] ∨ cString newPath = [] then .error errEnoent
    else
      match fs.effectivePath currentDirectory oldPath,
        fs.effectivePath currentDirectory newPath with
      | .ok oldPath, .ok newPath => .ok (oldPath, newPath)
      | .error code, _ => .error code
      | .ok _, .error code => .error code
  | _, _ => .error errEfault

/-- `HandleRenameSystemCall`. -/
def handleRenameSystemCall (currentDirectory : Option ℕ) (oldPath newPath : Option (List UInt8)) :
    ℤ × VirtualFileSystem σ :=
  match fs.effectivePaths currentDirectory oldPath newPath with
  | .error code => (code, fs)
  | .ok paths => fs.renamePaths paths.1 paths.2

end VirtualFileSystem

end TwistedOS
