import TwistedOS.Files.PathResolution

/-!
# Paths of directories and the lookup of single names

`BuildAbsolutePathFromDentry` collects the names on the way from a dentry to the root on a stack of
bounded size and prints them into a buffer. `ResolveSimpleRelativeChildDentry` looks up a single
name below a directory, without the path of the directory. In a tree in which siblings have distinct
proper names, the printed path leads back to the directory, and what the short lookup finds is found
along the path as well.

## Main definitions

* `DentryTree.buildAbsolutePathFromDentry`, `DentryTree.resolveSimpleRelativeChildDentry`.
* `DentryTree.WellFormed`, `DentryTree.DirectoryAt`.
* `DentryTree.LookupsAgree`.

## Main results

* `DentryTree.joinPath_absolutePath`: a relative path behind the path of a directory.
* `DentryTree.DirectoryAt.lookupsAgree`.
-/

namespace TwistedOS

/-- `SYSCALL_MAX_PATH_SEGMENTS`. -/
def syscallMaxPathSegments : ℕ := 256

/-- The text of a path through names. -/
def pathThrough (names : List (List UInt8)) : List UInt8 := names.flatMap (pathSeparator :: ·)

/-- The path of a directory with these names above it. -/
def absolutePath (names : List (List UInt8)) : List UInt8 :=
  if names = [] then [pathSeparator] else pathThrough names

/-- A path below a base path, with a separator unless the base is the root. -/
def joinPath (basePath relativePath : List UInt8) : List UInt8 :=
  if 1 < basePath.length then basePath ++ pathSeparator :: relativePath
  else basePath ++ relativePath

/-- The loop of `BuildAbsolutePathFromDentry` over the segments, with the text that is in the
buffer. -/
def printSegments (bufferSize : ℕ) : List (List UInt8) → List UInt8 → Option (List UInt8)
  | [], text => if bufferSize ≤ text.length then none else some text
  | segment :: segments, text =>
    if segment = [] then printSegments bufferSize segments text
    else if bufferSize ≤ text.length + segment.length then none
    else if segments = [] then printSegments bufferSize segments (text ++ segment)
    else if bufferSize ≤ (text ++ segment).length then none
    else printSegments bufferSize segments (text ++ segment ++ [pathSeparator])

namespace DentryTree

variable (tree : DentryTree)

/-- `SegmentStack`: the names from a dentry up to the root, if there is room for them. -/
def segmentStack : (room : ℕ) → ℕ → Option (List (List UInt8))
  | 0, d => if (tree.dentry d).parent = none then some [] else none
  | room + 1, d =>
    match (tree.dentry d).parent with
    | none => some []
    | some parent => (segmentStack room parent).map ((tree.dentry d).name :: ·)

/-- `BuildAbsolutePathFromDentry`. -/
def buildAbsolutePathFromDentry (bufferSize d : ℕ) : Option (List UInt8) :=
  if bufferSize = 0 then none
  else
    match tree.segmentStack syscallMaxPathSegments d with
    | none => none
    | some stack => printSegments bufferSize stack.reverse [pathSeparator]

/-- `ResolveSimpleRelativeChildDentry`. -/
def resolveSimpleRelativeChildDentry (base : ℕ) (relativePath : List UInt8)
    (followFinal : Bool) : Option ℕ :=
  if (tree.inode base).nodeType ≠ .dir then none
  else if cString relativePath = [] then none
  else if cString relativePath = [pathDot] then some base
  else if cString relativePath = [pathDot, pathDot] then some (tree.parentOrSelf base)
  else if (cString relativePath).contains pathSeparator then none
  else
    match tree.findChildBySegment base (cString relativePath) with
    | none => none
    | some child =>
      if followFinal ∧ (tree.inode child).nodeType = .symlink then none else some child

/-- `Lookup` or `LookupNoFollowFinal`. -/
def lookupWith (root : ℕ) (followFinal : Bool) (path : List UInt8) : Option ℕ :=
  if followFinal then tree.lookup root path else tree.lookupNoFollowFinal root path

/-- A name that can stand between separators. -/
def ProperName (name : List UInt8) : Prop :=
  name ≠ [] ∧ pathSeparator ∉ name ∧ stringTerminator ∉ name ∧ name ≠ [pathDot] ∧
    name ≠ [pathDot, pathDot]

instance (name : List UInt8) : Decidable (ProperName name) := inferInstanceAs (Decidable (_ ∧ _))

/-- Siblings have distinct proper names. -/
structure WellFormed (root : ℕ) : Prop where
  root_parent : (tree.dentry root).parent = none
  root_type : (tree.inode root).nodeType = .dir
  proper : ∀ d, ∀ c ∈ (tree.dentry d).children, ProperName (tree.dentry c).name
  distinct : ∀ d, ((tree.dentry d).children.map fun c => (tree.dentry c).name).Nodup

/-- A directory that is reached from the root through directories, with the names on the way. -/
inductive DirectoryAt (root : ℕ) : List (List UInt8) → ℕ → Prop
  | root : DirectoryAt root [] root
  | child {names : List (List UInt8)} {d c : ℕ} (h : DirectoryAt root names d)
    (hc : c ∈ (tree.dentry d).children) (hdir : (tree.inode c).nodeType = .dir) :
    DirectoryAt root (names ++ [(tree.dentry c).name]) c

/-- The path of a directory is built when it fits, it leads back to the directory, and what is found
below the directory by a single name is found along the path. -/
structure LookupsAgree (root d : ℕ) (names : List (List UInt8)) (bufferSize : ℕ) : Prop where
  built : names.length ≤ syscallMaxPathSegments → (absolutePath names).length < bufferSize →
    tree.buildAbsolutePathFromDentry bufferSize d = some (absolutePath names)
  lookup : ∀ path, tree.buildAbsolutePathFromDentry bufferSize d = some path →
    tree.lookup root path = some d
  relative : ∀ path, tree.buildAbsolutePathFromDentry bufferSize d = some path →
    ∀ relativePath followFinal found,
      tree.resolveSimpleRelativeChildDentry d relativePath followFinal = some found →
        tree.lookupWith root followFinal (joinPath path (cString relativePath)) = some found

variable {tree} {root d c bufferSize : ℕ} {names : List (List UInt8)} {name tail : List UInt8}
  {followFinal : Bool} {enterLink : ℕ → List UInt8 → Resolution}

/-! ### Segments of a path -/

/-- A name is the first segment of a text that begins with it. -/
theorem segments_name (hne : name ≠ []) (hsep : pathSeparator ∉ name)
    (htail : tail = [] ∨ ∃ rest, tail = pathSeparator :: rest) :
    Text.segments pathSeparator (pathSeparator :: name ++ tail) =
      (name, tail) :: Text.segments pathSeparator tail := by
  obtain ⟨a, name, rfl⟩ := List.exists_cons_of_ne_nil hne
  have ha : a ≠ pathSeparator := fun h => hsep (h ▸ List.mem_cons_self)
  have hall : ∀ b ∈ name, decide (b ≠ pathSeparator) = true := fun b hb =>
    decide_eq_true fun h => hsep (h ▸ List.mem_cons_of_mem a hb)
  have htake : (name ++ tail).takeWhile (· ≠ pathSeparator) = name := by
    rw [List.takeWhile_append_of_pos hall]
    obtain rfl | ⟨rest, rfl⟩ := htail <;> simp
  have hdrop : (name ++ tail).dropWhile (· ≠ pathSeparator) = tail := by
    rw [List.dropWhile_append_of_pos hall]
    obtain rfl | ⟨rest, rfl⟩ := htail <;> simp
  rw [List.cons_append, List.cons_append, Text.segments_cons_self, Text.segments_cons_of_ne ha,
    htake, hdrop]

/-- Among siblings with distinct names a child is found by its name. -/
theorem findChildBySegment_of_mem
    (hdistinct : ((tree.dentry d).children.map fun c => (tree.dentry c).name).Nodup)
    (hc : c ∈ (tree.dentry d).children) :
    tree.findChildBySegment d (tree.dentry c).name = some c := by
  rw [DentryTree.findChildBySegment]
  generalize (tree.dentry d).children = children at hc hdistinct
  induction children with
  | nil => exact absurd hc List.not_mem_nil
  | cons b children ih =>
    rw [List.map_cons, List.nodup_cons] at hdistinct
    obtain rfl | hc := List.mem_cons.mp hc
    · exact List.find?_cons_of_pos (by simp)
    · rw [List.find?_cons_of_neg, ih hc hdistinct.2]
      have hne : (tree.dentry b).name ≠ (tree.dentry c).name := fun h =>
        hdistinct.1 (h ▸ List.mem_map_of_mem hc)
      simpa using hne

theorem WellFormed.findChildBySegment (hwf : tree.WellFormed root)
    (hc : c ∈ (tree.dentry d).children) :
    tree.findChildBySegment d (tree.dentry c).name = some c :=
  findChildBySegment_of_mem (hwf.distinct d) hc

/-- The walk goes on through a name that is found, unless it leads to a link. -/
theorem walk_name (hname : ProperName name)
    (htail : tail = [] ∨ ∃ rest, tail = pathSeparator :: rest)
    (hfound : tree.findChildBySegment d name = some c)
    (hlink : (tree.inode c).nodeType = .symlink → ¬ followFinal ∧ tail = []) :
    tree.walk followFinal enterLink d
        (Text.segments pathSeparator (pathSeparator :: name ++ tail)) =
      tree.walk followFinal enterLink c (Text.segments pathSeparator tail) := by
  rw [segments_name hname.1 hname.2.1 htail, walk, if_neg hname.2.2.2.1, if_neg hname.2.2.2.2, hfound]
  dsimp only
  by_cases hsymlink : (tree.inode c).nodeType = .symlink
  · rw [if_pos hsymlink, if_pos (hlink hsymlink)]
  · rw [if_neg hsymlink]

namespace DirectoryAt

section

variable (hwf : tree.WellFormed root) (h : tree.DirectoryAt root names d)

include hwf h

theorem isDirectory : (tree.inode d).nodeType = .dir := by
  cases h with
  | root => exact hwf.root_type
  | child _ _ hdir => exact hdir

theorem proper : ∀ name ∈ names, ProperName name := by
  induction h with
  | root => exact List.forall_mem_nil _
  | child _ hc _ ih =>
    intro name hname
    obtain hname | hname := List.mem_append.mp hname
    · exact ih name hname
    · rw [List.mem_singleton.mp hname]
      exact hwf.proper _ _ hc

/-- The walk along the names of a directory comes to it. -/
theorem walk_pathThrough (htail : tail = [] ∨ ∃ rest, tail = pathSeparator :: rest) :
    tree.walk followFinal enterLink root
        (Text.segments pathSeparator (pathThrough names ++ tail)) =
      tree.walk followFinal enterLink d (Text.segments pathSeparator tail) := by
  induction h generalizing tail with
  | root => rfl
  | @child names d c h hc hdir ih =>
    have hsplit : pathThrough (names ++ [(tree.dentry c).name]) ++ tail =
        pathThrough names ++ (pathSeparator :: (tree.dentry c).name ++ tail) := by
      simp [pathThrough]
    have hseparator : ∃ rest, pathSeparator :: (tree.dentry c).name ++ tail =
        pathSeparator :: rest := ⟨(tree.dentry c).name ++ tail, rfl⟩
    rw [hsplit, ih (.inr hseparator)]
    refine walk_name (hwf.proper d c hc) htail (hwf.findChildBySegment hc) fun hlink => ?_
    rw [hdir] at hlink
    cases hlink

/-- The stack holds the names, the last one first. -/
theorem segmentStack_eq (room : ℕ) :
    tree.segmentStack room d = if names.length ≤ room then some names.reverse else none := by
  induction h generalizing room with
  | root =>
    cases room <;> simp [segmentStack, hwf.root_parent]
  | @child names d c h hc hdir ih =>
    have hparent := tree.parent_of_mem d c hc
    cases room with
    | zero => simp [segmentStack, hparent]
    | succ room =>
      rw [segmentStack, hparent]
      dsimp only
      rw [ih room, List.length_append, List.length_singleton]
      by_cases hroom : names.length ≤ room
      · rw [if_pos hroom, if_pos (Nat.succ_le_succ hroom), List.reverse_append]
        rfl
      · rw [if_neg hroom, if_neg fun hle => hroom (Nat.le_of_succ_le_succ hle)]
        rfl

end

end DirectoryAt

/-! ### Printing -/

theorem printSegments_cons {names : List (List UInt8)} {text : List UInt8}
    (hname : name ≠ []) (hnames : ∀ n ∈ names, n ≠ []) :
    printSegments bufferSize (name :: names) text =
      if (text ++ name ++ pathThrough names).length < bufferSize then
        some (text ++ name ++ pathThrough names)
      else none := by
  induction names generalizing name text with
  | nil =>
    rw [printSegments, if_neg hname, if_pos rfl, printSegments, pathThrough, List.flatMap_nil,
      List.append_nil, List.length_append]
    split_ifs <;> first | rfl | omega
  | cons next names ih =>
    have hnext := List.forall_mem_cons.mp hnames
    have hsplit : text ++ name ++ pathThrough (next :: names) =
        text ++ name ++ [pathSeparator] ++ next ++ pathThrough names := by
      simp [pathThrough]
    rw [printSegments, if_neg hname, if_neg (List.cons_ne_nil next names), ih hnext.1 hnext.2,
      ← hsplit]
    have hlong : text.length + name.length ≤
        (text ++ name ++ pathThrough (next :: names)).length := by
      rw [List.length_append, List.length_append]
      exact Nat.le_add_right ..
    rw [List.length_append]
    by_cases hfits : bufferSize ≤ text.length + name.length
    · rw [if_pos hfits, if_neg (by omega)]
    · rw [if_neg hfits, if_neg hfits]

/-- The path of a directory is built just when it fits. -/
theorem DirectoryAt.buildAbsolutePathFromDentry_eq (hwf : tree.WellFormed root)
    (h : tree.DirectoryAt root names d) :
    tree.buildAbsolutePathFromDentry bufferSize d =
      if names.length ≤ syscallMaxPathSegments ∧ (absolutePath names).length < bufferSize then
        some (absolutePath names)
      else none := by
  have hne : ∀ n ∈ names, n ≠ [] := fun n hn => (h.proper hwf n hn).1
  rw [buildAbsolutePathFromDentry, h.segmentStack_eq hwf]
  by_cases hsize : bufferSize = 0
  · rw [if_pos hsize, if_neg (by omega)]
  rw [if_neg hsize]
  by_cases hdepth : names.length ≤ syscallMaxPathSegments
  · rw [if_pos hdepth]
    dsimp only
    rw [List.reverse_reverse]
    cases names with
    | nil =>
      rw [printSegments, absolutePath, if_pos rfl]
      split_ifs <;> first | rfl | (exfalso; simp at *; omega)
    | cons name names =>
      rw [printSegments_cons (List.forall_mem_cons.mp hne).1 (List.forall_mem_cons.mp hne).2]
      have hpath : [pathSeparator] ++ name ++ pathThrough names = absolutePath (name :: names) := by
        rw [absolutePath, if_neg (List.cons_ne_nil name names)]
        rfl
      rw [hpath]
      exact if_congr (and_iff_right hdepth).symm rfl rfl
  · rw [if_neg hdepth, if_neg fun hand => hdepth hand.1]

/-! ### Agreement -/

/-- A lookup of an absolute path without terminators is a walk along its segments. -/
theorem exists_lookupWith_eq_walk (root : ℕ) (followFinal : Bool) {path : List UInt8}
    (hhead : path.head? = some pathSeparator) (hterminator : stringTerminator ∉ path) :
    ∃ enterLink, tree.lookupWith root followFinal path =
      (tree.walk followFinal enterLink root (Text.segments pathSeparator path)).1 := by
  have hstring : cString path = path := by
    rw [cString, List.takeWhile_eq_self_iff]
    exact fun c hc => decide_eq_true fun h => hterminator (h ▸ hc)
  refine ⟨tree.followLink root (tree.resolvePathInternal root followFinal 39), ?_⟩
  have hresolve : (tree.resolvePathInternal root followFinal maxSymlinkFollowDepth root path).1 =
      (tree.walk followFinal (tree.followLink root (tree.resolvePathInternal root followFinal 39))
        root (Text.segments pathSeparator path)).1 := by
    rw [maxSymlinkFollowDepth, resolvePathInternal_succ, resolveFrom_eq_walk, hstring, if_pos hhead]
  rw [lookupWith]
  cases followFinal
  · exact hresolve
  · exact hresolve

theorem notMem_pathThrough (hnames : ∀ n ∈ names, ProperName n) :
    stringTerminator ∉ pathThrough names := by
  intro hmem
  obtain ⟨n, hn, hmem⟩ := List.mem_flatMap.mp hmem
  obtain hmem | hmem := List.mem_cons.mp hmem
  · exact absurd hmem (by decide)
  · exact (hnames n hn).2.2.1 hmem

/-- A path below the path of a directory. -/
theorem joinPath_absolutePath (hnames : ∀ n ∈ names, n ≠ []) (relativePath : List UInt8) :
    joinPath (absolutePath names) relativePath =
      pathThrough names ++ pathSeparator :: relativePath := by
  cases names with
  | nil => rfl
  | cons name names =>
    have hname := List.length_pos_iff.mpr (hnames name List.mem_cons_self)
    rw [absolutePath, if_neg (List.cons_ne_nil name names), joinPath, if_pos]
    rw [pathThrough, List.flatMap_cons, List.length_append, List.length_cons]
    omega

/-- A lookup below a directory goes on from the directory. -/
theorem DirectoryAt.exists_lookupWith_eq (hwf : tree.WellFormed root)
    (h : tree.DirectoryAt root names d) (followFinal : Bool)
    (htail : tail = [] ∨ ∃ rest, tail = pathSeparator :: rest)
    (hterminator : stringTerminator ∉ tail)
    (hhead : (pathThrough names ++ tail).head? = some pathSeparator) :
    ∃ enterLink, tree.lookupWith root followFinal (pathThrough names ++ tail) =
      (tree.walk followFinal enterLink d (Text.segments pathSeparator tail)).1 := by
  obtain ⟨enterLink, hlookup⟩ := tree.exists_lookupWith_eq_walk root followFinal hhead fun hmem =>
    (List.mem_append.mp hmem).elim (notMem_pathThrough (h.proper hwf)) hterminator
  exact ⟨enterLink, by rw [hlookup, h.walk_pathThrough hwf htail]⟩

theorem DirectoryAt.eq_root (h : tree.DirectoryAt root [] d) : d = root := by
  generalize hnames : ([] : List (List UInt8)) = names at h
  cases h with
  | root => rfl
  | child => exact absurd hnames (by simp)

/-- The path of a directory leads to it. -/
theorem DirectoryAt.lookup_absolutePath (hwf : tree.WellFormed root)
    (h : tree.DirectoryAt root names d) : tree.lookup root (absolutePath names) = some d := by
  have hempty : stringTerminator ∉ ([] : List UInt8) := List.not_mem_nil
  cases names with
  | nil =>
    rw [h.eq_root]
    rfl
  | cons name names =>
    obtain ⟨enterLink, hlookup⟩ := h.exists_lookupWith_eq hwf true (.inl rfl) hempty rfl
    rw [List.append_nil, Text.segments_nil, walk] at hlookup
    exact hlookup

/-- What the short lookup finds below a directory is found along the path. -/
theorem DirectoryAt.lookupWith_joinPath (hwf : tree.WellFormed root)
    (h : tree.DirectoryAt root names d) {relativePath : List UInt8} {followFinal : Bool} {found : ℕ}
    (hfound : tree.resolveSimpleRelativeChildDentry d relativePath followFinal = some found) :
    tree.lookupWith root followFinal (joinPath (absolutePath names) (cString relativePath)) =
      some found := by
  have hterminator : stringTerminator ∉ cString relativePath := fun hmem => by
    simpa using List.mem_takeWhile_imp hmem
  rw [joinPath_absolutePath fun n hn => (h.proper hwf n hn).1]
  rw [resolveSimpleRelativeChildDentry, if_neg (not_not.mpr (h.isDirectory hwf))] at hfound
  generalize cString relativePath = name at hterminator hfound ⊢
  have hhead : (pathThrough names ++ pathSeparator :: name).head? = some pathSeparator := by
    cases names <;> rfl
  obtain ⟨enterLink, hlookup⟩ := h.exists_lookupWith_eq hwf followFinal (.inr ⟨name, rfl⟩)
    (fun hmem => (List.mem_cons.mp hmem).elim (by decide) hterminator) hhead
  rw [hlookup]
  by_cases hempty : name = []
  · rw [if_pos hempty] at hfound
    cases hfound
  rw [if_neg hempty] at hfound
  have hsegments : pathSeparator ∉ name → Text.segments pathSeparator (pathSeparator :: name) =
      [(name, [])] := fun hsep => by
    have hsingle := segments_name hempty hsep (.inl rfl)
    rwa [List.append_nil, Text.segments_nil] at hsingle
  by_cases hdot : name = [pathDot]
  · rw [if_pos hdot] at hfound
    rw [hsegments (by rw [hdot]; decide), walk, if_pos hdot, walk]
    exact hfound
  rw [if_neg hdot] at hfound
  by_cases hdotDot : name = [pathDot, pathDot]
  · rw [if_pos hdotDot] at hfound
    rw [hsegments (by rw [hdotDot]; decide), walk, if_neg hdot, if_pos hdotDot, walk]
    exact hfound
  rw [if_neg hdotDot] at hfound
  by_cases hsep : name.contains pathSeparator = true
  · rw [if_pos hsep] at hfound
    cases hfound
  rw [if_neg hsep] at hfound
  have hsep : pathSeparator ∉ name := by simpa using hsep
  rcases hchild : tree.findChildBySegment d name with _ | child
  · rw [hchild] at hfound
    cases hfound
  rw [hchild] at hfound
  dsimp only at hfound
  split_ifs at hfound with hlink
  obtain rfl := Option.some.inj hfound
  have hwalk : tree.walk followFinal enterLink d
      (Text.segments pathSeparator (pathSeparator :: name ++ [])) =
        tree.walk followFinal enterLink child (Text.segments pathSeparator []) :=
    walk_name ⟨hempty, hsep, hterminator, hdot, hdotDot⟩ (.inl rfl) hchild
      fun hsymlink => ⟨fun hfollow => hlink ⟨hfollow, hsymlink⟩, rfl⟩
  rw [List.append_nil, Text.segments_nil, walk] at hwalk
  rw [hwalk]

/-- Paths that are built lead back, and short lookups agree with those along paths: for every
directory below a root, and every size of the buffer that the path is built in. -/
theorem DirectoryAt.lookupsAgree (hwf : tree.WellFormed root) (h : tree.DirectoryAt root names d)
    (bufferSize : ℕ) : tree.LookupsAgree root d names bufferSize := by
  have hbuilt : tree.buildAbsolutePathFromDentry bufferSize d =
      if names.length ≤ syscallMaxPathSegments ∧ (absolutePath names).length < bufferSize then
        some (absolutePath names)
      else none := h.buildAbsolutePathFromDentry_eq hwf
  have hpath : ∀ path, tree.buildAbsolutePathFromDentry bufferSize d = some path →
      path = absolutePath names := by
    intro path hpath
    rw [hbuilt] at hpath
    split_ifs at hpath
    exact (Option.some.inj hpath).symm
  refine ⟨fun hdepth hfits => ?_, fun path hsome => ?_, fun path hsome relativePath followFinal
    found hfound => ?_⟩
  · rw [hbuilt, if_pos ⟨hdepth, hfits⟩]
  · rw [hpath path hsome]
    exact h.lookup_absolutePath hwf
  · rw [hpath path hsome]
    exact h.lookupWith_joinPath hwf hfound

/-- A tree with a file `/usr/a`. -/
def smallTree : DentryTree where
  dentry d :=
    if d = 0 then { name := [], inode := { nodeType := .dir }, children := [1] }
    else if d = 1 then
      { name := [0x75, 0x73, 0x72], inode := { nodeType := .dir }, parent := some 0, children := [2] }
    else { name := [0x61], inode := { nodeType := .file }, parent := some 1 }
  parent_of_mem d c hc := by
    by_cases hroot : d = 0
    · subst hroot
      rw [List.mem_singleton.mp hc]
      rfl
    by_cases husr : d = 1
    · subst husr
      rw [List.mem_singleton.mp hc]
      rfl
    · simp [hroot, husr] at hc

theorem wellFormed_smallTree : smallTree.WellFormed 0 := by
  have hchildren : ∀ d, (smallTree.dentry d).children = if d = 0 then [1] else if d = 1 then [2]
      else [] := by
    intro d
    rw [smallTree]
    dsimp only
    split_ifs <;> rfl
  refine ⟨rfl, rfl, fun d c hc => ?_, fun d => ?_⟩
  · rw [hchildren] at hc
    split_ifs at hc
    · rw [List.mem_singleton.mp hc]
      decide
    · rw [List.mem_singleton.mp hc]
      decide
    · exact absurd hc List.not_mem_nil
  · rw [hchildren]
    split_ifs <;> simp

theorem lookupsAgree_smallTree : smallTree.LookupsAgree 0 1 [[0x75, 0x73, 0x72]] 4096 :=
  DirectoryAt.lookupsAgree wellFormed_smallTree
    (.child (.root : smallTree.DirectoryAt 0 [] 0) (List.mem_singleton.mpr rfl) rfl) 4096

end DentryTree

end TwistedOS
