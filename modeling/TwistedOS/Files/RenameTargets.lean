import TwistedOS.Files.VirtualFileSystem

/-!
# The parent and the name that a new path gives

`RenameFile` splits the new path by itself: it goes down from the root by the names in the path,
through directories only, and neither `.` nor `..` nor a link may occur after the leading `./`. A
path that can be split in this way is resolved alike by the lookups.

## Main definitions

* `DentryTree.LeadsTo` — the components of a path and the way down that they name.

## Main results

* `DentryTree.leadsTo_of_renameTarget`.
* `DentryTree.LeadsTo.lookupWith_eq_some`, `DentryTree.LeadsTo.lookup_directory`.
* `DentryTree.isDescendantDentry_iff` — the loop over the parents decides what it is for.
-/

namespace TwistedOS

variable {path text name : List UInt8}

/-! ### Components of the new path -/

theorem components_normalizePathStart (path : List UInt8) :
    ∃ k, Text.components pathSeparator path =
      List.replicate k [pathDot] ++ Text.components pathSeparator (normalizePathStart path) := by
  have hskip (text : List UInt8) : ∃ k, Text.components pathSeparator text =
      List.replicate k [pathDot] ++ Text.components pathSeparator (skipDotPrefix text) := by
    induction text using skipDotPrefix.induct with
    | case1 a b text hdot ih =>
      obtain ⟨rfl, rfl⟩ := hdot
      obtain ⟨k, hk⟩ := ih
      refine ⟨k + 1, ?_⟩
      have hsplit := @Text.components_append_cons _ _ pathSeparator [pathDot] text
      rw [@Text.components_of_notMem _ _ pathSeparator [pathDot] (by decide) (by decide), hk]
        at hsplit
      rw [skipDotPrefix, if_pos ⟨rfl, rfl⟩, List.replicate_succ, List.cons_append]
      exact hsplit
    | case2 a b text hdot => exact ⟨0, by rw [skipDotPrefix, if_neg hdot]; rfl⟩
    | case3 text h => exact ⟨0, by rw [skipDotPrefix.eq_2 text h]; rfl⟩
  obtain ⟨k, hk⟩ := hskip (path.dropWhile (· = pathSeparator))
  refine ⟨k, ?_⟩
  rw [normalizePathStart, ← hk, ← Text.map_fst_segments, ← Text.map_fst_segments,
    DentryTree.segments_dropWhile]

theorem components_separators (htext : ∀ c ∈ text, c = pathSeparator) :
    Text.components pathSeparator text = [] := by
  induction text with
  | nil => rfl
  | cons c text ih =>
    obtain ⟨rfl, hmore⟩ := List.forall_mem_cons.mp htext
    rw [Text.components_cons_self, ih hmore]

theorem components_append_separators (htext : ∀ c ∈ text, c = pathSeparator) :
    Text.components pathSeparator (path ++ text) = Text.components pathSeparator path := by
  cases text with
  | nil => rw [List.append_nil]
  | cons c text =>
    obtain ⟨rfl, hmore⟩ := List.forall_mem_cons.mp htext
    rw [Text.components_append_cons, components_separators hmore, List.append_nil]

/-- The segments of the directories and the last name are the components. -/
theorem components_pathBody (hname : lastName path ≠ []) :
    ∃ k, Text.components pathSeparator (cString path) =
      List.replicate k [pathDot] ++ (directorySegments path ++ [lastName path]) := by
  obtain ⟨k, hk⟩ := components_normalizePathStart (cString path)
  refine ⟨k, ?_⟩
  have hbody : Text.components pathSeparator (normalizePathStart (cString path)) =
      Text.components pathSeparator (pathBody path) := by
    conv_lhs => rw [← @List.rdropWhile_append_rtakeWhile _ (· = pathSeparator)
      (normalizePathStart (cString path))]
    exact components_append_separators fun c hc => by simpa using List.mem_rtakeWhile_imp hc
  have hnotMem : pathSeparator ∉ lastName path := fun hmem => by
    simpa using List.mem_rtakeWhile_imp hmem
  rw [hk, hbody, directorySegments, Text.map_fst_segments]
  congr 1
  conv_lhs => rw [← @List.rdropWhile_append_rtakeWhile _ (· ≠ pathSeparator) (pathBody path)]
  have hlast := @List.rdropWhile_last_not _ (fun c => decide (c ≠ pathSeparator)) (pathBody path)
  generalize (pathBody path).rdropWhile (· ≠ pathSeparator) = directory at hlast
  change Text.components pathSeparator (directory ++ lastName path) = _
  rcases List.eq_nil_or_concat directory with rfl | ⟨init, last, rfl⟩
  · rw [List.nil_append, Text.components_of_notMem hnotMem hname]
    rfl
  · obtain rfl : last = pathSeparator := by simpa using hlast (by simp)
    rw [List.concat_eq_append, List.append_assoc, List.singleton_append,
      Text.components_append_cons, Text.components_append_cons, Text.components_nil,
      List.append_nil, Text.components_of_notMem hnotMem hname]

namespace DentryTree

variable (tree : DentryTree)

/-- The components of a path, after `.` only, are names that lead down through directories to a
parent, and a last name. -/
structure LeadsTo (root : ℕ) (path : List UInt8) (parent : ℕ) (name : List UInt8) : Prop where
  components : ∃ k, Text.components pathSeparator (cString path) =
    List.replicate k [pathDot] ++ (directorySegments path ++ [name])
  descend : tree.descend root (directorySegments path) = some parent
  name_ne : name ≠ []
  not_dots : name ≠ [pathDot] ∧ name ≠ [pathDot, pathDot]

variable {tree} {root current parent target source d c : ℕ} {followFinal : Bool}
  {names : List (List UInt8)} {segments : List (List UInt8 × List UInt8)}
  {enterLink : ℕ → List UInt8 → Resolution}

theorem leadsTo_of_renameTarget (h : tree.renameTarget root path = some (parent, name)) :
    tree.LeadsTo root path parent name := by
  rw [renameTarget] at h
  split_ifs at h with _ _ hname hdots
  obtain ⟨d, hd, heq⟩ := Option.map_eq_some_iff.mp h
  obtain ⟨rfl, rfl⟩ := Prod.mk.inj heq
  exact ⟨components_pathBody hname, hd, hname, not_or.mp hdots⟩

/-! ### The way down -/

/-- What holds at the start and is kept from a dentry to a directory in it holds at the end. -/
theorem descend_induction {motive : ℕ → ℕ → Prop} {n : ℕ} (hstart : motive n current)
    (hstep : ∀ n d c segment, motive n d → tree.findChildBySegment d segment = some c →
      tree.IsDirectory c → motive (n + 1) c)
    (h : tree.descend current names = some d) : motive (n + names.length) d := by
  induction names generalizing n current with
  | nil =>
    obtain rfl := Option.some.inj h
    exact hstart
  | cons segment names ih =>
    rw [descend] at h
    split_ifs at h
    rcases hfind : tree.findChildBySegment current segment with _ | next
    · simp [hfind] at h
    simp only [hfind] at h
    split_ifs at h with hdirectory
    rw [List.length_cons, Nat.add_comm names.length, ← Nat.add_assoc]
    exact ih (hstep n current next segment hstart hfind hdirectory) h

theorem ancestor_of_descend (h : tree.descend current names = some d) :
    tree.Ancestor current d :=
  descend_induction (motive := fun _ d => tree.Ancestor current d) (n := 0) .refl
    (fun _ _ _ _ hd hfind _ => .head (parent_of_findChildBySegment hfind) hd) h

variable (followFinal enterLink) in
/-- The walk along `.` and the names of a way down arrives where this arrives. -/
theorem walk_of_descend {k : ℕ} {rest : List (List UInt8)}
    (h : tree.descend current names = some d)
    (hsegments : segments.map Prod.fst = List.replicate k [pathDot] ++ (names ++ rest)) :
    ∃ more, more.map Prod.fst = rest ∧
      tree.walk followFinal enterLink current segments =
        tree.walk followFinal enterLink d more := by
  induction k generalizing segments with
  | succ k ih =>
    rw [List.replicate_succ, List.cons_append] at hsegments
    obtain ⟨⟨segment, text⟩, segments, rfl, rfl, hmore⟩ := List.map_eq_cons_iff.mp hsegments
    obtain ⟨more, hrest, hwalk⟩ := ih hmore
    refine ⟨more, hrest, ?_⟩
    rw [walk, if_pos rfl, hwalk]
  | zero =>
    rw [List.replicate_zero, List.nil_append] at hsegments
    induction names generalizing current segments with
    | nil =>
      obtain rfl := Option.some.inj h
      exact ⟨segments, hsegments, rfl⟩
    | cons segment names ih =>
      rw [List.cons_append] at hsegments
      obtain ⟨⟨segment, text⟩, segments, rfl, rfl, hmore⟩ := List.map_eq_cons_iff.mp hsegments
      rw [descend] at h
      split_ifs at h with hdots
      rw [not_or] at hdots
      rcases hfind : tree.findChildBySegment current segment with _ | next
      · simp [hfind] at h
      simp only [hfind] at h
      split_ifs at h with hdirectory
      obtain ⟨more, hrest, hwalk⟩ := ih h hmore
      refine ⟨more, hrest, ?_⟩
      have hlink : (tree.inode next).nodeType ≠ .symlink := fun hlink => by
        rw [IsDirectory, hlink] at hdirectory
        cases hdirectory
      rw [walk, if_neg hdots.1, if_neg hdots.2, hfind]
      dsimp only
      rw [if_neg hlink, hwalk]

/-- The way down is there in a tree that agrees as well, if it does not lead through a dentry that
this tree lacks. -/
theorem KeepsApart.descend {tree' : DentryTree} {inside : ℕ → Prop} {apart : Set ℕ}
    (h : KeepsApart inside apart tree tree') (hcurrent : inside current)
    (hdescend : tree.descend current names = some d) (hapart : ∀ x ∈ apart, tree.Outside x d) :
    tree'.descend current names = some d := by
  induction names generalizing current with
  | nil => exact hdescend
  | cons segment names ih =>
    rw [DentryTree.descend] at hdescend ⊢
    split_ifs at hdescend ⊢
    rcases hfind : tree.findChildBySegment current segment with _ | next
    · simp [hfind] at hdescend
    simp only [hfind] at hdescend
    split_ifs at hdescend with hdirectory
    have hancestor := ancestor_of_descend hdescend
    obtain ⟨hnext, hfind'⟩ := h.find current segment next hcurrent hfind
      fun hmem => hapart next hmem hancestor
    have hdirectory' : tree'.IsDirectory next := by
      rw [IsDirectory, h.inode next hnext]
      exact hdirectory
    rw [hfind']
    dsimp only
    rw [if_pos hdirectory']
    exact ih hnext hdescend

/-! ### Ancestors of the parent -/

section

variable (hroot : (tree.dentry root).parent = none)

include hroot

/-- From a dentry all of whose ancestors are found within some steps, the loop finds them. -/
theorem isDescendantDentry_iff (h : tree.descend root names = some target) :
    tree.isDescendantDentry (names.length + 1) target source = true ↔
      tree.Ancestor source target := by
  have hinduct := descend_induction (n := 0) (motive := fun n d => ∀ source,
    tree.isDescendantDentry (n + 1) d source = true ↔ tree.Ancestor source d) ?_ ?_ h source
  · rwa [Nat.zero_add] at hinduct
  · intro source
    rw [isDescendantDentry, hroot]
    constructor
    · intro hloop
      split_ifs at hloop with heq
      exact heq ▸ .refl
    · intro hancestor
      obtain rfl | ⟨p, hp, -⟩ := Relation.ReflTransGen.cases_head hancestor
      · rw [if_pos rfl]
      · rw [hroot] at hp
        cases hp
  · intro n d c segment ih hfind _ source
    have hparent := parent_of_findChildBySegment hfind
    rw [isDescendantDentry, hparent]
    constructor
    · intro hloop
      split_ifs at hloop with heq
      · exact heq ▸ .refl
      · exact .head hparent ((ih source).mp hloop)
    · intro hancestor
      obtain rfl | ⟨p, hp, hsource⟩ := Relation.ReflTransGen.cases_head hancestor
      · rw [if_pos rfl]
      · rw [hparent] at hp
        obtain rfl := Option.some.inj hp
        split_ifs
        · rfl
        · exact (ih source).mpr hsource

/-- What lies above the parent is a directory, or the root. -/
theorem isDirectory_of_ancestor (h : tree.descend root names = some target)
    (hancestor : tree.Ancestor source target) : source = root ∨ tree.IsDirectory source := by
  refine descend_induction (n := 0) (motive := fun _ d => ∀ source, tree.Ancestor source d →
    source = root ∨ tree.IsDirectory source) ?_ ?_ h source hancestor
  · intro source hsource
    obtain rfl | ⟨p, hp, -⟩ := Relation.ReflTransGen.cases_head hsource
    · exact .inl rfl
    · rw [hroot] at hp
      cases hp
  · intro n d c segment ih hfind hdirectory source hsource
    obtain rfl | ⟨p, hp, hsource⟩ := Relation.ReflTransGen.cases_head hsource
    · exact .inr hdirectory
    · rw [parent_of_findChildBySegment hfind] at hp
      exact ih source (Option.some.inj hp ▸ hsource)

/-- A child does not lie above its parent, since the parents lead to the root. -/
theorem outside_of_child (h : tree.Ancestor root target)
    (hparent : (tree.dentry source).parent = some target) : tree.Outside source target := by
  intro hsource
  -- from each dentry on the cycle the parents lead back to `target`
  have hcycle : ∀ d, tree.Ancestor d target → tree.Ancestor target d := by
    intro d hd
    induction hd with
    | refl => exact .refl
    | @tail d p _ hp ih =>
      obtain rfl | ⟨p', hp', hback⟩ := Relation.ReflTransGen.cases_head ih
      · obtain rfl | ⟨p', hp', hback⟩ := Relation.ReflTransGen.cases_head hsource
        · rw [hparent] at hp
          exact Option.some.inj hp ▸ .refl
        · rw [hp] at hp'
          exact Option.some.inj hp' ▸ hback.tail hparent
      · rw [hp] at hp'
        exact Option.some.inj hp' ▸ hback
  obtain rfl | ⟨p, hp, -⟩ := Relation.ReflTransGen.cases_head (hcycle root h)
  · obtain rfl | ⟨p, hp, -⟩ := Relation.ReflTransGen.cases_head hsource
    · rw [hroot] at hparent
      cases hparent
    · rw [hroot] at hp
      cases hp
  · rw [hroot] at hp
    cases hp

end

/-! ### Lookups along the new path -/

/-- A lookup walks along the segments of its path from the root. -/
theorem exists_lookupWith_eq_walk_segments (root : ℕ) (followFinal : Bool) (path : List UInt8) :
    ∃ enterLink, tree.lookupWith root followFinal path =
      (tree.walk followFinal enterLink root
        (Text.segments pathSeparator (cString path))).1 := by
  refine ⟨tree.followLink root (tree.resolvePathInternal root followFinal 39), ?_⟩
  have hresolve : (tree.resolvePathInternal root followFinal maxSymlinkFollowDepth root path).1 =
      (tree.walk followFinal (tree.followLink root (tree.resolvePathInternal root followFinal 39))
        root (Text.segments pathSeparator (cString path))).1 := by
    rw [maxSymlinkFollowDepth, resolvePathInternal_succ, resolveFrom_eq_walk, ite_self]
  rw [lookupWith]
  cases followFinal
  · exact hresolve
  · exact hresolve

namespace LeadsTo

section

variable (h : tree.LeadsTo root path parent name)

include h

theorem exists_lookupWith_eq (followFinal : Bool) :
    ∃ enterLink rest, tree.lookupWith root followFinal path =
      (tree.walk followFinal enterLink parent [(name, rest)]).1 := by
  obtain ⟨enterLink, hlookup⟩ := tree.exists_lookupWith_eq_walk_segments root followFinal path
  obtain ⟨k, hk⟩ := h.components
  rw [← Text.map_fst_segments] at hk
  obtain ⟨more, hmore, hwalk⟩ := walk_of_descend followFinal enterLink h.descend hk
  obtain ⟨⟨segment, rest⟩, more, rfl, rfl, hnil⟩ := List.map_eq_cons_iff.mp hmore
  obtain rfl := List.map_eq_nil_iff.mp hnil
  exact ⟨enterLink, rest, by rw [hlookup, hwalk]⟩

/-- The lookups find nothing at the new path when the parent has no child of the name. -/
theorem lookupWith_eq_none (hfind : tree.findChildBySegment parent name = none) :
    tree.lookupWith root followFinal path = none := by
  obtain ⟨enterLink, rest, hlookup⟩ := h.exists_lookupWith_eq followFinal
  rw [hlookup, walk, if_neg h.not_dots.1, if_neg h.not_dots.2, hfind]

/-- The lookups find the child of the name, unless it is a link. -/
theorem lookupWith_eq_some (hfind : tree.findChildBySegment parent name = some c)
    (hlink : (tree.inode c).nodeType ≠ .symlink) :
    tree.lookupWith root followFinal path = some c := by
  obtain ⟨enterLink, rest, hlookup⟩ := h.exists_lookupWith_eq followFinal
  rw [hlookup, walk, if_neg h.not_dots.1, if_neg h.not_dots.2, hfind]
  dsimp only
  rw [if_neg hlink]
  rfl

/-- The directory part of the new path leads to the parent. -/
theorem lookup_directory {directory last trailing : List UInt8}
    (hpath : cString path = directory ++ pathSeparator :: last ++ trailing)
    (hlast : ProperName last) (htrailing : ∀ c ∈ trailing, c = pathSeparator) :
    tree.lookup root directory = some parent := by
  obtain ⟨k, hk⟩ := h.components
  have hstring : cString directory = directory := cString_of_notMem fun hmem => by
    refine @terminator_notMem_cString path ?_
    rw [hpath, List.append_assoc]
    exact List.mem_append_left _ hmem
  have hcomponents : Text.components pathSeparator (cString path) =
      Text.components pathSeparator directory ++ [last] := by
    rw [hpath, List.append_assoc, List.cons_append, Text.components_append_cons,
      components_append_separators htrailing, Text.components_of_notMem hlast.2.1 hlast.1]
  rw [hcomponents, ← List.append_assoc] at hk
  obtain ⟨hdirectory, -⟩ := List.append_inj' hk rfl
  rw [← List.append_nil (directorySegments path), ← hstring, ← Text.map_fst_segments]
    at hdirectory
  obtain ⟨enterLink, hlookup⟩ := tree.exists_lookupWith_eq_walk_segments root true directory
  obtain ⟨more, hmore, hwalk⟩ := walk_of_descend true enterLink h.descend hdirectory
  obtain rfl := List.map_eq_nil_iff.mp hmore
  rw [hwalk] at hlookup
  exact hlookup

end

end LeadsTo

end DentryTree

end TwistedOS
