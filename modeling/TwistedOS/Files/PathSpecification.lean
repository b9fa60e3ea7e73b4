import TwistedOS.Files.PathResolution

/-!
# Path resolution and its specification

The specified resolution processes the components of a path from left to right. A component below
anything that is not a directory fails; `.` stays; `..` goes to the parent or stays; at a link the
components of the target take the place of the link, and the last component is followed only if that
is asked for.

`ResolvePathInternal` differs in what it makes of some texts. It accepts `.` and `..` below a file.
A separator after the last component makes it follow a link that it should not. An empty target
drops out of the combined path, so that a second separator after the link makes the rest of the path
absolute; when no data was ever stored for the target, resolution fails. A target that holds a
string terminator cuts off the rest of the path. On paths where none of this is met, which are
called plain here, it computes what is specified.

## Main definitions

* `DentryTree.specifiedResolve` — the specified resolution.
* `DentryTree.Plain` — a path on which resolution meets none of these texts.
* `DentryTree.ResolvesAsSpecified`.

## Main results

* `DentryTree.Plain.resolvesAsSpecified` — plain paths are resolved as specified.
-/

namespace TwistedOS

/-- The target of a link: the first bytes of its data, none of which are needed when it is empty. -/
def linkTarget (node : INode) : Option (List UInt8) :=
  if node.nodeSize = 0 then some []
  else (ensureLazyLoadedINodeData node).map (·.take node.nodeSize)

/-- The components of a C string. -/
abbrev pathComponents (text : List UInt8) : List (List UInt8) :=
  Text.components pathSeparator (cString text)

namespace DentryTree

variable (tree : DentryTree)

/-- A dentry is a directory. -/
def IsDirectory (d : ℕ) : Prop := (tree.inode d).nodeType = .dir

instance (d : ℕ) : Decidable (tree.IsDirectory d) := inferInstanceAs (Decidable (_ = _))

/-- The specified walk along components. -/
def specifiedWalk (followFinal : Bool) (enterLink : ℕ → ℕ → List (List UInt8) → Option ℕ) :
    ℕ → List (List UInt8) → Option ℕ
  | current, [] => some current
  | current, component :: more =>
    if ¬tree.IsDirectory current then none
    else if component = [pathDot] then specifiedWalk followFinal enterLink current more
    else if component = [pathDot, pathDot] then
      specifiedWalk followFinal enterLink (tree.parentOrSelf current) more
    else
      match tree.findChildBySegment current component with
      | none => none
      | some next =>
        if (tree.inode next).nodeType = .symlink ∧ (followFinal ∨ more ≠ []) then
          enterLink current next more
        else specifiedWalk followFinal enterLink next more

/-- The specified resolution: the target of a link is resolved from the directory that holds the
link, or from the root if it is absolute. At most `budget` links are followed. -/
def specifiedResolve (root : ℕ) (followFinal : Bool) : ℕ → ℕ → List (List UInt8) → Option ℕ
  | 0 => tree.specifiedWalk followFinal fun _ _ _ => none
  | budget + 1 => tree.specifiedWalk followFinal fun current next more =>
    (linkTarget (tree.inode next)).bind fun target =>
      specifiedResolve root followFinal budget
        (if target.head? = some pathSeparator then root else current)
        (pathComponents target ++ more)

/-- The specified resolution of a path. -/
def specifiedResolvePath (root : ℕ) (followFinal : Bool) (depth start : ℕ) (path : List UInt8) :
    Option ℕ :=
  tree.specifiedResolve root followFinal depth
    (if (cString path).head? = some pathSeparator then root else start) (pathComponents path)

/-- `ResolvePathInternal` finds the dentry that is specified, follows at most as many links as its
budget allows, and stays in the trees of the root and the start. -/
structure ResolvesAsSpecified (root : ℕ) (followFinal : Bool) (depth start : ℕ)
    (path : List UInt8) : Prop where
  result : (tree.resolvePathInternal root followFinal depth start path).1 =
    tree.specifiedResolvePath root followFinal depth start path
  followed : (tree.resolvePathInternal root followFinal depth start path).2.length ≤ depth
  inTrees : ∀ d ∈ (tree.resolvePathInternal root followFinal depth start path).1,
    tree.InTrees root start d

/-! ### Plain paths -/

/-- A walk is plain when it finds nothing, not even `.` and `..`, below anything that is not a
directory, and when no separator follows a last link that is not to be followed. A name that is not
found ends the walk in both resolvers. -/
def PlainWalk (followFinal : Bool)
    (plainLink : ℕ → List UInt8 → List (List UInt8 × List UInt8) → Prop) :
    ℕ → List (List UInt8 × List UInt8) → Prop
  | _, [] => True
  | current, (segment, rest) :: more =>
    if segment = [pathDot] then
      tree.IsDirectory current ∧ PlainWalk followFinal plainLink current more
    else if segment = [pathDot, pathDot] then
      tree.IsDirectory current ∧ PlainWalk followFinal plainLink (tree.parentOrSelf current) more
    else
      match tree.findChildBySegment current segment with
      | none => True
      | some next =>
        tree.IsDirectory current ∧
          if (tree.inode next).nodeType = .symlink then
            ¬followFinal ∧ rest = [] ∨ (followFinal ∨ more ≠ []) ∧ plainLink next rest more
          else PlainWalk followFinal plainLink next more

/-- A link is plain when its target is not empty before a second separator and was stored, when its
target holds no terminator before further components, and when the combined path is plain. -/
def PlainLink (root : ℕ) (restart : ℕ → List UInt8 → Prop) (next : ℕ) (rest : List UInt8)
    (more : List (List UInt8 × List UInt8)) : Prop :=
  ∀ target ∈ linkTarget (tree.inode next),
    (target = [] → (ensureLazyLoadedINodeData (tree.inode next)).isSome ∧
      (remainderPath rest).head? ≠ some pathSeparator) ∧
    (stringTerminator ∈ target → more = []) ∧
    restart (tree.symlinkBase root next target) (combinedPath target rest)

/-- The resolution of a path is plain. -/
def Plain (root : ℕ) (followFinal : Bool) : ℕ → ℕ → List UInt8 → Prop
  | 0, start, path =>
    tree.PlainWalk followFinal (fun _ _ _ => True)
      (if (cString path).head? = some pathSeparator then root else start)
      (Text.segments pathSeparator (cString path))
  | depth + 1, start, path =>
    tree.PlainWalk followFinal (tree.PlainLink root (Plain root followFinal depth))
      (if (cString path).head? = some pathSeparator then root else start)
      (Text.segments pathSeparator (cString path))

variable {tree} {root start current next depth : ℕ} {followFinal : Bool}
  {enterLink : ℕ → List UInt8 → Resolution}
  {specifiedLink : ℕ → ℕ → List (List UInt8) → Option ℕ}
  {plainLink : ℕ → List UInt8 → List (List UInt8 × List UInt8) → Prop}
  {rest path target text data : List UInt8}

/-! ### C strings and combined paths -/

theorem terminator_notMem_cString : stringTerminator ∉ cString text := fun hmem => by
  simpa using List.mem_takeWhile_imp hmem

theorem cString_of_notMem (h : stringTerminator ∉ text) : cString text = text :=
  List.takeWhile_eq_self_iff.mpr fun c hc => by
    simpa using fun heq : c = stringTerminator => h (heq ▸ hc)

/-- A terminator cuts off what is appended. -/
theorem cString_append_of_mem (h : stringTerminator ∈ target) :
    cString (target ++ text) = cString target := by
  induction target with
  | nil => exact absurd h List.not_mem_nil
  | cons c target ih =>
    rw [cString, cString, List.cons_append]
    by_cases hc : c = stringTerminator
    · subst hc
      simp
    · have htarget : stringTerminator ∈ target := by
        simpa [Ne.symm hc] using h
      rw [List.takeWhile_cons_of_pos (by simpa using hc),
        List.takeWhile_cons_of_pos (by simpa using hc)]
      exact congrArg _ (ih htarget)

theorem head?_cString_eq_separator :
    (cString text).head? = some pathSeparator ↔ text.head? = some pathSeparator := by
  rcases text with _ | ⟨c, text⟩
  · rfl
  · rw [cString]
    by_cases hc : c = stringTerminator
    · subst hc
      rw [List.takeWhile_cons_of_neg (by simp), List.head?_nil, List.head?_cons]
      decide
    · rw [List.takeWhile_cons_of_pos (by simpa using hc), List.head?_cons, List.head?_cons]

theorem components_remainderPath (hrest : rest = [] ∨ ∃ tail, rest = pathSeparator :: tail) :
    Text.components pathSeparator (remainderPath rest) = Text.components pathSeparator rest := by
  rcases hrest with rfl | ⟨tail, rfl⟩
  · rfl
  · rw [remainderPath, if_pos List.head?_cons, List.tail_cons, Text.components_cons_self]

/-- The components of a combined path are those of the target and those of the rest. -/
theorem components_combinedPath (hrest : rest = [] ∨ ∃ tail, rest = pathSeparator :: tail) :
    Text.components pathSeparator (combinedPath target rest) =
      Text.components pathSeparator target ++ Text.components pathSeparator rest := by
  rw [← components_remainderPath hrest, combinedPath]
  split
  next => exact Text.components_append_cons
  next hjoined =>
    by_cases hremainder : remainderPath rest = []
    · rw [hremainder, List.append_nil, Text.components_nil, List.append_nil]
    · rcases List.eq_nil_or_concat target with rfl | ⟨init, last, rfl⟩
      · rfl
      · obtain rfl : last = pathSeparator := by
          by_contra hlast
          exact hjoined ⟨hremainder, by simp, by simpa using hlast⟩
        rw [List.concat_eq_append, List.append_assoc, List.singleton_append,
          Text.components_append_cons, Text.components_append_cons, Text.components_nil,
          List.append_nil]

theorem exists_combinedPath_eq : ∃ tail, combinedPath target rest = target ++ tail := by
  rw [combinedPath]
  split <;> exact ⟨_, rfl⟩

theorem notMem_combinedPath (htarget : stringTerminator ∉ target) (hrest : stringTerminator ∉ rest) :
    stringTerminator ∉ combinedPath target rest := by
  have hremainder : stringTerminator ∉ remainderPath rest := by
    rw [remainderPath]
    split
    · exact fun hmem => hrest (List.mem_of_mem_tail hmem)
    · exact hrest
  have hseparator : stringTerminator ≠ pathSeparator := by decide
  rw [combinedPath]
  split <;> simp [htarget, hremainder, hseparator]

theorem head?_combinedPath (h : target ≠ []) : (combinedPath target rest).head? = target.head? := by
  obtain ⟨c, target, rfl⟩ := List.exists_cons_of_ne_nil h
  rw [combinedPath]
  split <;> rfl

/-! ### The walk -/

/-- On a plain walk the code does at each component what is specified, if it does so at the
links. -/
theorem walk_eq_specifiedWalk
    (hplain : tree.PlainWalk followFinal plainLink current (Text.segments pathSeparator text))
    (hlink : ∀ current next rest, (tree.dentry next).parent = some current → rest <:+ text →
      (rest = [] ∨ ∃ tail, rest = pathSeparator :: tail) →
      plainLink next rest (Text.segments pathSeparator rest) →
      (enterLink next rest).1 =
        specifiedLink current next (Text.components pathSeparator rest)) :
    (tree.walk followFinal enterLink current (Text.segments pathSeparator text)).1 =
      tree.specifiedWalk followFinal specifiedLink current
        (Text.components pathSeparator text) := by
  generalize hsegments : Text.segments pathSeparator text = segments at hplain ⊢
  rw [← Text.map_fst_segments, hsegments]
  induction segments generalizing current text with
  | nil => rfl
  | cons head more ih =>
    obtain ⟨segment, rest⟩ := head
    obtain ⟨rfl, hsuffix, hrest⟩ := Text.segments_eq_cons hsegments
    have hmore {current : ℕ} (h : tree.PlainWalk followFinal plainLink current
        (Text.segments pathSeparator rest)) :
        (tree.walk followFinal enterLink current (Text.segments pathSeparator rest)).1 =
          tree.specifiedWalk followFinal specifiedLink current
            ((Text.segments pathSeparator rest).map Prod.fst) :=
      ih (fun current next last hparent hlast =>
        hlink current next last hparent (hlast.trans hsuffix)) rfl h
    rw [List.map_cons, walk, specifiedWalk]
    rw [PlainWalk] at hplain
    by_cases hdot : segment = [pathDot]
    · rw [if_pos hdot] at hplain
      rw [if_pos hdot, if_neg (not_not.mpr hplain.1), if_pos hdot]
      exact hmore hplain.2
    rw [if_neg hdot] at hplain ⊢
    by_cases hdotDot : segment = [pathDot, pathDot]
    · rw [if_pos hdotDot] at hplain
      rw [if_pos hdotDot, if_neg (not_not.mpr hplain.1), if_neg hdot, if_pos hdotDot]
      exact hmore hplain.2
    rw [if_neg hdotDot] at hplain ⊢
    rcases hfound : tree.findChildBySegment current segment with _ | next
    · simp only [if_neg hdot, if_neg hdotDot]
      split <;> rfl
    simp only [hfound] at hplain
    simp only [if_neg hdot, if_neg hdotDot, if_neg (not_not.mpr hplain.1)]
    by_cases htype : (tree.inode next).nodeType = .symlink
    · rw [if_pos htype] at hplain ⊢
      rcases hplain.2 with ⟨hfollow, rfl⟩ | ⟨hfinal, hplainLink⟩
      · -- the last link is not followed, and nothing is left of the path
        rw [if_pos ⟨hfollow, rfl⟩, Text.segments_nil, List.map_nil,
          if_neg fun h => h.2.elim hfollow (· rfl)]
        rfl
      · have hcode : ¬(¬followFinal ∧ rest = []) := fun h =>
          hfinal.elim h.1 fun hmore => hmore (by rw [h.2, Text.segments_nil])
        rw [if_neg hcode, if_pos ⟨htype, hfinal.imp_right fun hmore hnil =>
          hmore (List.map_eq_nil_iff.mp hnil)⟩, Text.map_fst_segments]
        exact hlink current next rest (parent_of_findChildBySegment hfound) hsuffix hrest hplainLink
    · rw [if_neg htype] at hplain ⊢
      rw [if_neg fun h => htype h.1]
      exact hmore hplain.2

/-! ### Links -/

/-- A plain link leads to the components of its target and those of the rest of the path, from the
directory that holds it or from the root. -/
theorem followLink_eq_specified {restart : ℕ → List UInt8 → Resolution}
    {plainRestart : ℕ → List UInt8 → Prop} {resolve : ℕ → List (List UInt8) → Option ℕ}
    (hparent : (tree.dentry next).parent = some current) (hterminator : stringTerminator ∉ rest)
    (hrest : rest = [] ∨ ∃ tail, rest = pathSeparator :: tail)
    (hplain : tree.PlainLink root plainRestart next rest (Text.segments pathSeparator rest))
    (hrestart : ∀ base path, plainRestart base path → (restart base path).1 =
      resolve (if (cString path).head? = some pathSeparator then root else base)
        (pathComponents path)) :
    (tree.followLink root restart next rest).1 =
      (linkTarget (tree.inode next)).bind fun target =>
        resolve (if target.head? = some pathSeparator then root else current)
          (pathComponents target ++ Text.components pathSeparator rest) := by
  rcases hdata : ensureLazyLoadedINodeData (tree.inode next) with _ | data
  · -- without data the target cannot be empty, since the link is plain
    have hsize : (tree.inode next).nodeSize ≠ 0 := fun hsize => by
      have hstored := (hplain [] (by rw [linkTarget, if_pos hsize]; rfl)).1 rfl
      simp [hdata] at hstored
    simp [followLink, linkTarget, hdata, hsize]
  have htarget : linkTarget (tree.inode next) = some (tree.targetPath next data) := by
    rw [linkTarget, targetPath]
    split
    next hsize => rw [hsize, List.take_zero]
    next => rw [hdata, Option.map_some]
  obtain ⟨hempty, hcut, hplainRestart⟩ := hplain _ htarget
  rw [htarget, Option.bind_some]
  simp only [followLink, hdata]
  rw [hrestart _ _ hplainRestart]
  generalize tree.targetPath next data = target at hempty hcut
  have hbase : tree.symlinkBase root next target =
      if target.head? = some pathSeparator then root else current := by
    rw [symlinkBase, hparent, Option.getD_some]
  have hagain : (if target.head? = some pathSeparator then root
      else if target.head? = some pathSeparator then root else current) =
      if target.head? = some pathSeparator then root else current := by split <;> rfl
  by_cases hmem : stringTerminator ∈ target
  · -- the terminator cuts the rest of the path off, but nothing is left of it
    obtain ⟨tail, htail⟩ := @exists_combinedPath_eq rest target
    have hnone : Text.components pathSeparator rest = [] := by
      rw [← Text.map_fst_segments, hcut hmem, List.map_nil]
    rw [htail, pathComponents, cString_append_of_mem hmem, hnone, List.append_nil, hbase]
    simp only [head?_cString_eq_separator, hagain]
  · simp only [pathComponents, cString_of_notMem (notMem_combinedPath hmem hterminator),
      cString_of_notMem hmem, components_combinedPath hrest, hbase]
    by_cases hnil : target = []
    · subst hnil
      have hcombined : combinedPath [] rest = remainderPath rest := by simp [combinedPath]
      rw [hcombined, if_neg (hempty rfl).2]
    · rw [head?_combinedPath hnil, hagain]

/-- Plain paths are resolved to the dentry that is specified. -/
theorem Plain.result {path : List UInt8} (h : tree.Plain root followFinal depth start path) :
    (tree.resolvePathInternal root followFinal depth start path).1 =
      tree.specifiedResolvePath root followFinal depth start path := by
  induction depth generalizing start path with
  | zero =>
    rw [resolvePathInternal, resolveFrom_eq_walk]
    rw [Plain] at h
    exact walk_eq_specifiedWalk h fun _ _ _ _ _ _ _ => rfl
  | succ depth ih =>
    rw [resolvePathInternal_succ, resolveFrom_eq_walk]
    rw [Plain] at h
    exact walk_eq_specifiedWalk h fun current next rest hparent hsuffix hrest hplain =>
      followLink_eq_specified hparent
        (fun hmem => terminator_notMem_cString (hsuffix.subset hmem)) hrest hplain
        fun base path hpath => ih hpath

/-- Plain paths are resolved as specified: the dentry that the specification finds is found, no more
links are followed than the budget allows, and the walk stays in the trees of the root and the
start. -/
theorem Plain.resolvesAsSpecified {path : List UInt8}
    (h : tree.Plain root followFinal depth start path) :
    tree.ResolvesAsSpecified root followFinal depth start path where
  result := h.result
  followed := resolvePathInternal_followed
  inTrees := resolvePathInternal_inTrees (.inr connected_refl)

/-! ### A directory with an empty link -/

/-- The bytes of characters. -/
def bytes (text : List Char) : List UInt8 := text.map Char.toUInt8

/-- The root holds a directory `d`, a file `x` and a link `m` to `d`; the directory holds a link `l`
with an empty target and another file `x`. -/
def emptyLinkDentry : ℕ → Dentry
  | 0 => { name := [], inode := { nodeType := .dir }, children := [1, 2, 5] }
  | 1 => { name := bytes ['d'], inode := { nodeType := .dir }, parent := some 0, children := [3, 4] }
  | 2 => { name := bytes ['x'], inode := { nodeType := .file }, parent := some 0 }
  | 3 => { name := bytes ['l'], inode := { nodeType := .symlink, nodeData := some [] },
           parent := some 1 }
  | 4 => { name := bytes ['x'], inode := { nodeType := .file }, parent := some 1 }
  | _ => { name := bytes ['m'], parent := some 0,
           inode := { nodeType := .symlink, nodeSize := 1, nodeData := some (bytes ['d']) } }

/-- The tree of these dentries. -/
def emptyLinkTree : DentryTree where
  dentry := emptyLinkDentry
  parent_of_mem
    | 0, c, hc => by simp [emptyLinkDentry] at hc; rcases hc with rfl | rfl | rfl <;> rfl
    | 1, c, hc => by simp [emptyLinkDentry] at hc; rcases hc with rfl | rfl <;> rfl
    | 2, c, hc => absurd hc List.not_mem_nil
    | 3, c, hc => absurd hc List.not_mem_nil
    | 4, c, hc => absurd hc List.not_mem_nil
    | _ + 5, c, hc => absurd hc List.not_mem_nil

/-- A walk that starts with a link in a directory is plain when the link is. -/
theorem plainWalk_cons_link {segment : List UInt8} {more : List (List UInt8 × List UInt8)}
    (hdots : segment ≠ [pathDot] ∧ segment ≠ [pathDot, pathDot])
    (hfound : tree.findChildBySegment current segment = some next)
    (hcurrent : tree.IsDirectory current) (htype : (tree.inode next).nodeType = .symlink)
    (hfollow : followFinal ∨ more ≠ []) (hlink : plainLink next rest more) :
    tree.PlainWalk followFinal plainLink current ((segment, rest) :: more) := by
  rw [PlainWalk, if_neg hdots.1, if_neg hdots.2, hfound]
  exact ⟨hcurrent, by rw [if_pos htype]; exact .inr ⟨hfollow, hlink⟩⟩

/-- A walk that starts with another entry of a directory is plain when its rest is. -/
theorem plainWalk_cons_entry {segment : List UInt8} {more : List (List UInt8 × List UInt8)}
    (hdots : segment ≠ [pathDot] ∧ segment ≠ [pathDot, pathDot])
    (hfound : tree.findChildBySegment current segment = some next)
    (hcurrent : tree.IsDirectory current) (htype : (tree.inode next).nodeType ≠ .symlink)
    (hmore : tree.PlainWalk followFinal plainLink next more) :
    tree.PlainWalk followFinal plainLink current ((segment, rest) :: more) := by
  rw [PlainWalk, if_neg hdots.1, if_neg hdots.2, hfound]
  exact ⟨hcurrent, by rw [if_neg htype]; exact hmore⟩

/-- `/m/./x` leads through a link and a directory to a file. -/
theorem Plain.resolvesAsSpecified_link :
    emptyLinkTree.ResolvesAsSpecified 0 true maxSymlinkFollowDepth 0
      (bytes ['/', 'm', '/', '.', '/', 'x']) := by
  have hpath : Text.segments pathSeparator (cString (bytes ['/', 'm', '/', '.', '/', 'x'])) =
      [(bytes ['m'], bytes ['/', '.', '/', 'x']), (bytes ['.'], bytes ['/', 'x']),
        (bytes ['x'], [])] := by decide +kernel
  have hcombined : Text.segments pathSeparator (cString (combinedPath (bytes ['d'])
      (bytes ['/', '.', '/', 'x']))) =
      [(bytes ['d'], bytes ['/', '.', '/', 'x']), (bytes ['.'], bytes ['/', 'x']),
        (bytes ['x'], [])] := by decide +kernel
  refine Plain.resolvesAsSpecified ?_
  rw [maxSymlinkFollowDepth, Plain, hpath, if_pos (by decide)]
  refine plainWalk_cons_link (by decide) (by decide : _ = some 5) (by decide) rfl (.inl rfl) ?_
  intro target htarget
  obtain rfl : bytes ['d'] = target := Option.some.inj htarget
  refine ⟨fun h => absurd h (by decide), fun h => absurd h (by decide), ?_⟩
  rw [Plain, hcombined, if_neg (by decide)]
  refine plainWalk_cons_entry (by decide) (by decide : _ = some 1) (by decide) (by decide) ?_
  refine ⟨by decide, plainWalk_cons_entry (by decide) (by decide : _ = some 4) (by decide)
    (by decide) trivial⟩

/-- `/d/l//x` leads to `/x` instead of `/d/x`; `/x/.` leads to the file; and `/d/l/`, whose link is
not to be followed, leads to the directory. -/
theorem not_resolvesAsSpecified_of_emptyLink :
    ¬emptyLinkTree.ResolvesAsSpecified 0 true maxSymlinkFollowDepth 0
      (bytes ['/', 'd', '/', 'l', '/', '/', 'x']) ∧
    ¬emptyLinkTree.ResolvesAsSpecified 0 true maxSymlinkFollowDepth 0 (bytes ['/', 'x', '/', '.']) ∧
    ¬emptyLinkTree.ResolvesAsSpecified 0 false maxSymlinkFollowDepth 0
      (bytes ['/', 'd', '/', 'l', '/']) :=
  ⟨fun h => absurd h.result (by decide +kernel), fun h => absurd h.result (by decide +kernel),
    fun h => absurd h.result (by decide +kernel)⟩

end DentryTree

end TwistedOS
