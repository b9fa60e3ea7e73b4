import Mathlib.Logic.Relation
import TwistedOS.Data.PathSegments

/-!
# Path resolution

The virtual file system keeps a tree of dentries, known here by number. `ResolvePathInternal` walks
it along the segments of a path. At a symbolic link it builds the text of the target and of the rest
of the path, and starts again with this text and a smaller budget.

The pointer loop over a path is modelled by the list of its segments, each with the text from its
end on, `SegmentEnd`. A path is a C string: what follows a terminator is not part of it. Loading the
target of a link from the disk is modelled by the bytes that it gives, if any; it changes nothing
that resolution reads. The links that were followed are collected beside the result; the code does
not keep them.

## Main definitions

* `INode`, `Dentry`, `DentryTree`.
* `DentryTree.resolvePathInternal`, `DentryTree.lookup`, `DentryTree.lookupNoFollowFinal`.
* `DentryTree.InTrees` — a dentry has an ancestor in common with the root or with the start.

## Main results

* `DentryTree.resolvePathInternal_followed`, `DentryTree.resolvePathInternal_inTrees`.
-/

namespace TwistedOS

/-- `PATH_SEPARATOR`. -/
def pathSeparator : UInt8 := '/'.toUInt8

/-- `PATH_DOT`. -/
def pathDot : UInt8 := '.'.toUInt8

/-- `STRING_TERMINATOR`. -/
def stringTerminator : UInt8 := 0

/-- `MAX_SYMLINK_FOLLOW_DEPTH`. -/
def maxSymlinkFollowDepth : ℕ := 40

/-- The C string that a buffer holds. -/
def cString (text : List UInt8) : List UInt8 := text.takeWhile (· ≠ stringTerminator)

/-- `FileType`. -/
inductive FileType where
  | file
  | dir
  | symlink
  | dev
  deriving DecidableEq, Repr

/-- `INode`, with the fields that path resolution reads. `backingData` is what loading the backing
inode gives, if it is known and can be read. -/
structure INode where
  nodeType : FileType
  nodeSize : ℕ := 0
  nodeData : Option (List UInt8) := none
  isLazyLoad : Bool := false
  backingData : Option (List UInt8) := none

/-- `EnsureLazyLoadedINodeData`: the data of the inode afterwards. -/
def ensureLazyLoadedINodeData (node : INode) : Option (List UInt8) :=
  match node.nodeData with
  | some data => some data
  | none => if node.isLazyLoad ∧ node.nodeSize ≠ 0 then node.backingData else none

/-- `Dentry`. Every dentry is created with an inode. -/
structure Dentry where
  name : List UInt8
  inode : INode
  parent : Option ℕ := none
  children : List ℕ := []

/-- The dentries. Each child of a dentry has it as its parent. -/
structure DentryTree where
  dentry : ℕ → Dentry
  parent_of_mem : ∀ d c, c ∈ (dentry d).children → (dentry c).parent = some d

/-- The skipping of leading `./`. -/
def skipDotPrefix : List UInt8 → List UInt8
  | a :: b :: path => if a = pathDot ∧ b = pathSeparator then skipDotPrefix path else a :: b :: path
  | path => path

/-- `NormalizePathStart`. -/
def normalizePathStart (path : List UInt8) : List UInt8 :=
  skipDotPrefix (path.dropWhile (· = pathSeparator))

/-- `IsRootAliasPath`. -/
def isRootAliasPath (path : List UInt8) : Bool := path = [] ∨ path = [pathDot]

/-- The text after a link without its first separator, `RemainderPath`. -/
def remainderPath (rest : List UInt8) : List UInt8 :=
  if rest.head? = some pathSeparator then rest.tail else rest

/-- `CombinedPath`: the target of a link and the rest of the path, with a separator in between where
one is missing. -/
def combinedPath (target rest : List UInt8) : List UInt8 :=
  if remainderPath rest ≠ [] ∧ target ≠ [] ∧ target.getLast? ≠ some pathSeparator then
    target ++ pathSeparator :: remainderPath rest
  else target ++ remainderPath rest

/-- The dentry that was found, if any, and the links that were followed. -/
abbrev Resolution := Option ℕ × List ℕ

namespace DentryTree

variable (tree : DentryTree)

/-- The inode of a dentry. -/
abbrev inode (d : ℕ) : INode := (tree.dentry d).inode

/-- `FindChildBySegment`. -/
def findChildBySegment (parent : ℕ) (segment : List UInt8) : Option ℕ :=
  (tree.dentry parent).children.find? fun c => (tree.dentry c).name = segment

/-- Where `..` leads. -/
def parentOrSelf (d : ℕ) : ℕ := (tree.dentry d).parent.getD d

/-- `SymlinkBase`: where the target of a link starts. -/
def symlinkBase (root next : ℕ) (target : List UInt8) : ℕ :=
  if target.head? = some pathSeparator then root else (tree.dentry next).parent.getD root

/-- The loop of `ResolvePathInternal` over the segments of a path. -/
def walk (followFinal : Bool) (enterLink : ℕ → List UInt8 → Resolution) :
    ℕ → List (List UInt8 × List UInt8) → Resolution
  | current, [] => (some current, [])
  | current, (segment, rest) :: more =>
    if segment = [pathDot] then walk followFinal enterLink current more
    else if segment = [pathDot, pathDot] then
      walk followFinal enterLink (tree.parentOrSelf current) more
    else
      match tree.findChildBySegment current segment with
      | none => (none, [])
      | some next =>
        if (tree.inode next).nodeType = .symlink then
          if ¬followFinal ∧ rest = [] then walk followFinal enterLink next more
          else enterLink next rest
        else walk followFinal enterLink next more

/-- The bytes of `TargetPath`. -/
def targetPath (next : ℕ) (data : List UInt8) : List UInt8 := data.take (tree.inode next).nodeSize

/-- What `ResolvePathInternal` does at a link while its budget lasts. -/
def followLink (root : ℕ) (restart : ℕ → List UInt8 → Resolution) (next : ℕ)
    (rest : List UInt8) : Resolution :=
  match ensureLazyLoadedINodeData (tree.inode next) with
  | none => (none, [])
  | some data =>
    let resolved := restart (tree.symlinkBase root next (tree.targetPath next data))
      (combinedPath (tree.targetPath next data) rest)
    (resolved.1, next :: resolved.2)

/-- `ResolvePathInternal` up to the treatment of links. -/
def resolveFrom (root : ℕ) (followFinal : Bool) (enterLink : ℕ → List UInt8 → Resolution)
    (start : ℕ) (path : List UInt8) : Resolution :=
  if path.head? = some pathSeparator then
    if isRootAliasPath (normalizePathStart path) then (some root, [])
    else tree.walk followFinal enterLink root
      (Text.segments pathSeparator (normalizePathStart path))
  else if skipDotPrefix path = [] then (some start, [])
  else tree.walk followFinal enterLink start (Text.segments pathSeparator (skipDotPrefix path))

/-- `ResolvePathInternal`, by recursion on `RemainingSymlinkDepth`. -/
def resolvePathInternal (root : ℕ) (followFinal : Bool) : ℕ → ℕ → List UInt8 → Resolution
  | 0, start, path =>
    tree.resolveFrom root followFinal (fun _ _ => (none, [])) start (cString path)
  | depth + 1, start, path =>
    tree.resolveFrom root followFinal
      (tree.followLink root (resolvePathInternal root followFinal depth)) start (cString path)

/-- `VirtualFileSystem::Lookup`. -/
def lookup (root : ℕ) (path : List UInt8) : Option ℕ :=
  (tree.resolvePathInternal root true maxSymlinkFollowDepth root path).1

/-- `VirtualFileSystem::LookupNoFollowFinal`. -/
def lookupNoFollowFinal (root : ℕ) (path : List UInt8) : Option ℕ :=
  (tree.resolvePathInternal root false maxSymlinkFollowDepth root path).1

variable {tree} {root start d current next depth n : ℕ} {followFinal : Bool}
  {enterLink : ℕ → List UInt8 → Resolution} {restart : ℕ → List UInt8 → Resolution}
  {segment rest path target : List UInt8} {more : List (List UInt8 × List UInt8)}

/-- A child that is found has the dentry as its parent. -/
theorem parent_of_findChildBySegment (h : tree.findChildBySegment current segment = some next) :
    (tree.dentry next).parent = some current :=
  tree.parent_of_mem _ _ (List.mem_of_find?_eq_some h)

/-! ### The start of a path -/

/-- Leading `./` are segments at which the walk stays. -/
theorem walk_skipDotPrefix :
    tree.walk followFinal enterLink current (Text.segments pathSeparator (skipDotPrefix path)) =
      tree.walk followFinal enterLink current (Text.segments pathSeparator path) := by
  induction path using skipDotPrefix.induct with
  | case1 a b path hdot ih =>
    obtain ⟨rfl, rfl⟩ := hdot
    rw [skipDotPrefix, if_pos ⟨rfl, rfl⟩, ih, Text.segments_cons_of_ne (by decide), walk,
      if_pos (by simp)]
    simp
  | case2 a b path hdot => rw [skipDotPrefix, if_neg hdot]
  | case3 path h => rw [skipDotPrefix.eq_2 path h]

theorem segments_dropWhile :
    Text.segments pathSeparator (path.dropWhile (· = pathSeparator)) =
      Text.segments pathSeparator path := by
  induction path with
  | nil => rfl
  | cons c path ih =>
    by_cases hc : c = pathSeparator
    · subst hc
      rw [List.dropWhile_cons_of_pos (by simp), Text.segments_cons_self, ih]
    · rw [List.dropWhile_cons_of_neg (by simpa using hc)]

theorem walk_normalizePathStart :
    tree.walk followFinal enterLink current (Text.segments pathSeparator (normalizePathStart path)) =
      tree.walk followFinal enterLink current (Text.segments pathSeparator path) := by
  rw [normalizePathStart, walk_skipDotPrefix, segments_dropWhile]

/-- A walk along the root alias stays. -/
theorem walk_of_isRootAliasPath (h : isRootAliasPath path) :
    tree.walk followFinal enterLink current (Text.segments pathSeparator path) =
      (some current, []) := by
  rcases of_decide_eq_true h with rfl | rfl
  · rw [Text.segments_nil, walk]
  · rw [Text.segments_cons_of_ne (by decide)]
    simp [walk]

/-- The normalisations of the start of a path do not matter: `ResolvePathInternal` walks along all
segments of the path, from the root if it is absolute. -/
theorem resolveFrom_eq_walk :
    tree.resolveFrom root followFinal enterLink start path =
      tree.walk followFinal enterLink (if path.head? = some pathSeparator then root else start)
        (Text.segments pathSeparator path) := by
  rw [resolveFrom]
  split
  next =>
    have hwalk := @walk_normalizePathStart tree root followFinal enterLink path
    split
    next halias => rw [← hwalk, walk_of_isRootAliasPath halias]
    next => exact hwalk
  next =>
    have hwalk := @walk_skipDotPrefix tree start followFinal enterLink path
    split
    next hempty => rw [← hwalk, hempty, Text.segments_nil, walk]
    next => exact hwalk

/-- One unfolding of `ResolvePathInternal` with budget left. -/
theorem resolvePathInternal_succ :
    tree.resolvePathInternal root followFinal (depth + 1) start path =
      tree.resolveFrom root followFinal
        (tree.followLink root (tree.resolvePathInternal root followFinal depth)) start
        (cString path) := rfl

/-! ### The links that are followed -/

theorem walk_followed {segments : List (List UInt8 × List UInt8)}
    (h : ∀ next rest, (enterLink next rest).2.length ≤ n) :
    (tree.walk followFinal enterLink current segments).2.length ≤ n := by
  induction segments generalizing current with
  | nil => exact Nat.zero_le _
  | cons head more ih =>
    obtain ⟨segment, rest⟩ := head
    rw [walk]
    split
    · exact ih
    · split
      · exact ih
      · split
        · exact Nat.zero_le _
        · split
          · split
            · exact ih
            · exact h _ _
          · exact ih

theorem followLink_followed (h : ∀ base path, (restart base path).2.length ≤ n) :
    (tree.followLink root restart next rest).2.length ≤ n + 1 := by
  rw [followLink]
  split
  · exact Nat.zero_le _
  · exact Nat.succ_le_succ (h _ _)

/-- The budget bounds the number of links that are followed. -/
theorem resolvePathInternal_followed :
    (tree.resolvePathInternal root followFinal depth start path).2.length ≤ depth := by
  induction depth generalizing start path with
  | zero =>
    rw [resolvePathInternal, resolveFrom_eq_walk]
    exact walk_followed fun _ _ => le_rfl
  | succ depth ih =>
    rw [resolvePathInternal_succ, resolveFrom_eq_walk]
    exact walk_followed fun _ _ => followLink_followed fun _ _ => ih

/-! ### The trees of the root and of the start -/

variable (tree) in
/-- An ancestor of a dentry, or the dentry itself. -/
def Ancestor (top d : ℕ) : Prop :=
  Relation.ReflTransGen (fun x y => (tree.dentry x).parent = some y) d top

variable (tree) in
/-- Two dentries lie below a common ancestor. -/
def Connected (a b : ℕ) : Prop := ∃ top, tree.Ancestor top a ∧ tree.Ancestor top b

theorem connected_refl : tree.Connected d d := ⟨d, .refl, .refl⟩

theorem Connected.child (h : tree.Connected d current)
    (hparent : (tree.dentry next).parent = some current) : tree.Connected d next := by
  obtain ⟨top, hd, hcurrent⟩ := h
  exact ⟨top, hd, .head hparent hcurrent⟩

theorem Connected.parentOrSelf (h : tree.Connected d current) :
    tree.Connected d (tree.parentOrSelf current) := by
  rw [DentryTree.parentOrSelf]
  rcases hparent : (tree.dentry current).parent with _ | parent
  · exact h
  · obtain ⟨top, hd, hcurrent⟩ := h
    rw [Option.getD_some]
    rcases Relation.ReflTransGen.cases_head hcurrent with rfl | ⟨next, hnext, htop⟩
    · exact ⟨parent, .tail hd hparent, .refl⟩
    · rw [hparent] at hnext
      exact ⟨top, hd, Option.some.inj hnext ▸ htop⟩

variable (tree) in
/-- A dentry in the tree of the root or of the start. -/
def InTrees (root start d : ℕ) : Prop := tree.Connected root d ∨ tree.Connected start d

theorem InTrees.child (h : tree.InTrees root start current)
    (hparent : (tree.dentry next).parent = some current) : tree.InTrees root start next :=
  h.imp (·.child hparent) (·.child hparent)

theorem InTrees.parentOrSelf (h : tree.InTrees root start current) :
    tree.InTrees root start (tree.parentOrSelf current) :=
  h.imp (·.parentOrSelf) (·.parentOrSelf)

theorem walk_inTrees {segments : List (List UInt8 × List UInt8)}
    (hcurrent : tree.InTrees root start current)
    (henter : ∀ next rest, tree.InTrees root start next →
      ∀ d ∈ (enterLink next rest).1, tree.InTrees root start d) :
    ∀ d ∈ (tree.walk followFinal enterLink current segments).1, tree.InTrees root start d := by
  induction segments generalizing current with
  | nil =>
    intro d hd
    exact Option.some.inj hd ▸ hcurrent
  | cons head more ih =>
    obtain ⟨segment, rest⟩ := head
    rw [walk]
    split
    · exact ih hcurrent
    · split
      · exact ih hcurrent.parentOrSelf
      · split
        next => exact fun d hd => absurd hd (by simp)
        next next hfound =>
          have hnext := hcurrent.child (parent_of_findChildBySegment hfound)
          split
          · split
            · exact ih hnext
            · exact henter next rest hnext
          · exact ih hnext

theorem symlinkBase_inTrees (hnext : tree.InTrees root start next) :
    tree.InTrees root start (tree.symlinkBase root next target) := by
  rw [symlinkBase]
  split
  · exact .inl connected_refl
  · rcases hparent : (tree.dentry next).parent with _ | parent
    · exact .inl connected_refl
    · have h := hnext.parentOrSelf
      rwa [DentryTree.parentOrSelf, hparent] at h

/-- The result lies in the tree of the root or in that of the start. -/
theorem resolvePathInternal_inTrees {base : ℕ} (hbase : tree.InTrees root start base) :
    ∀ d ∈ (tree.resolvePathInternal root followFinal depth base path).1,
      tree.InTrees root start d := by
  have hstart {base : ℕ} {path : List UInt8} (hbase : tree.InTrees root start base) :
      tree.InTrees root start (if path.head? = some pathSeparator then root else base) := by
    split
    · exact .inl connected_refl
    · exact hbase
  induction depth generalizing base path with
  | zero =>
    rw [resolvePathInternal, resolveFrom_eq_walk]
    exact walk_inTrees (hstart hbase) fun _ _ _ d hd => absurd hd (by simp)
  | succ depth ih =>
    rw [resolvePathInternal_succ, resolveFrom_eq_walk]
    refine walk_inTrees (hstart hbase) fun next rest hnext d hd => ?_
    rw [followLink] at hd
    split at hd
    · exact absurd hd (by simp)
    · exact ih (symlinkBase_inTrees hnext) d hd

end DentryTree

end TwistedOS
