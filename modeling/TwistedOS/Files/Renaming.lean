import TwistedOS.Files.RenameTargets

/-!
# Renaming

`HandleRenameSystemCall` deletes an existing destination with `DeleteFile` and then calls
`RenameFile`, which checks both paths once more, in its own way. Where one of these checks fails,
the call returns an error and the destination is gone. All other failures leave the tree as it was,
and a call that succeeds moves the entry and nothing else.

## Main definitions

* `VirtualFileSystem.Renamed`, `VirtualFileSystem.RenameAtomic`.
* `VirtualFileSystem.Replaces` — the call deletes a destination.
* `VirtualFileSystem.ReplacesCleanly` — what `RenameFile` checks after that.

## Main results

* `VirtualFileSystem.Moves.renamed` — a move, after a deletion or not, renames.
* `VirtualFileSystem.renameAtomic_iff`.
-/

namespace TwistedOS

namespace VirtualFileSystem

variable {σ : Type*} (fs : VirtualFileSystem σ)

/-- A lookup that follows a link at the end of the path or not. -/
abbrev lookupWith (followFinal : Bool) (path : List UInt8) : Option ℕ :=
  fs.tree.lookupWith fs.root followFinal path

/-- The entries through which a path leads. -/
def entries (followFinal : Bool) (path : List UInt8) : List ℕ :=
  fs.tree.pathEntries fs.root followFinal maxSymlinkFollowDepth fs.root path

/-- The new path leads where the old one led, the old path leads nowhere unless both named one
entry, and a path that does not lead through the entry, before or after, nor through what it
replaces, leads where it led. -/
structure Renamed (after : VirtualFileSystem σ) (oldPath newPath : List UInt8) : Prop where
  named : (fs.lookupNoFollowFinal oldPath).isSome
  moved : ∀ followFinal, after.lookupWith followFinal newPath = fs.lookupWith followFinal oldPath
  gone : (∀ followFinal, after.lookupWith followFinal oldPath = none) ∨
    fs.lookupNoFollowFinal newPath = fs.lookupNoFollowFinal oldPath
  others : ∀ source ∈ fs.lookupNoFollowFinal oldPath, ∀ followFinal path,
    source ∉ fs.entries followFinal path →
    (∀ replaced ∈ fs.lookupNoFollowFinal newPath, replaced ∉ fs.entries followFinal path) →
    source ∉ after.entries followFinal path →
    after.lookupWith followFinal path = fs.lookupWith followFinal path

/-- The old path names a directory, and the new path another entry in this directory or below it. -/
def LeadsBelow (oldPath newPath : List UInt8) : Prop :=
  ∃ source directory name trailing d, fs.lookupNoFollowFinal oldPath = some source ∧
    fs.tree.IsDirectory source ∧ fs.lookupNoFollowFinal newPath ≠ some source ∧
    cString newPath = directory ++ pathSeparator :: name ++ trailing ∧
    DentryTree.ProperName name ∧ (∀ c ∈ trailing, c = pathSeparator) ∧
    fs.lookup directory = some d ∧ fs.tree.Ancestor source d

/-- A result that is an error leaves all paths as they were, and 0 means that the entry was renamed.
A directory is never moved into itself, and the dentries keep their inodes. -/
structure AtomicResult (result : ℤ × VirtualFileSystem σ) (oldPath newPath : List UInt8) :
    Prop where
  inode : ∀ d, result.2.tree.inode d = fs.tree.inode d
  failed : result.1 ≠ 0 → ∀ followFinal path,
    result.2.lookupWith followFinal path = fs.lookupWith followFinal path
  renamed : result.1 = 0 → fs.Renamed result.2 oldPath newPath
  below : fs.LeadsBelow oldPath newPath → result.1 ≠ 0

/-- The rename system call is atomic; it changes nothing when the paths cannot be taken. -/
structure RenameAtomic (currentDirectory : Option ℕ) (oldPath newPath : Option (List UInt8)) :
    Prop where
  refused : ∀ code, fs.effectivePaths currentDirectory oldPath newPath = .error code →
    (fs.handleRenameSystemCall currentDirectory oldPath newPath).1 ≠ 0 ∧
      (fs.handleRenameSystemCall currentDirectory oldPath newPath).2 = fs
  result : ∀ oldText newText,
    fs.effectivePaths currentDirectory oldPath newPath = .ok (oldText, newText) →
    fs.AtomicResult (fs.handleRenameSystemCall currentDirectory oldPath newPath) oldText newText

/-- `DeleteFile` deletes an entry of its parent, and leaves this state of the ext2 file system. -/
structure Deletes (path : List UInt8) (type : FileType) (existing parent : ℕ) (state : σ) :
    Prop where
  kind : type = .dir ∨ type = .file
  found : fs.lookupNoFollowFinal path = some existing
  parent : (fs.tree.dentry existing).parent = some parent
  type_eq : (fs.tree.inode existing).nodeType = type
  empty : type = .dir → (fs.tree.dentry existing).children = []
  extended : fs.extendedDelete path type existing = (true, state)

/-- The call deletes a destination for a source. -/
structure Replaces (oldPath newPath : List UInt8) (source existing parent : ℕ) (state : σ) :
    Prop where
  texts_ne : cString oldPath ≠ cString newPath
  source_found : fs.lookup oldPath = some source
  existing_found : fs.lookup newPath = some existing
  existing_ne : existing ≠ source
  deletes : fs.Deletes newPath (fs.tree.inode source).nodeType existing parent state

/-- The old path names the source itself, which is not the root, and does not lead through the
destination. The new path leads to the destination by names of directories. The source is not above
the destination, and the ext2 file system will move it. -/
structure ReplacesCleanly (oldPath newPath : List UInt8) (source existing : ℕ) (state : σ) :
    Prop where
  found : fs.lookupNoFollowFinal oldPath = some source
  source_ne : source ≠ fs.root
  avoids : existing ∉ fs.entries false oldPath
  target : ∃ target name, fs.tree.renameTarget fs.root newPath = some (target, name) ∧
    fs.tree.findChildBySegment target name = some existing ∧ fs.tree.Outside source target
  extended : ((fs.withExtendedState state).extendedRename oldPath newPath
    (fs.tree.inode source).nodeType).1 = true

/-- When both paths are the same text, it names an entry; and a destination that is deleted is
replaced cleanly. -/
structure RenamePossible (oldPath newPath : List UInt8) : Prop where
  named : cString oldPath = cString newPath → (fs.lookupNoFollowFinal oldPath).isSome
  replaced : ∀ source existing parent state,
    fs.Replaces oldPath newPath source existing parent state →
    fs.ReplacesCleanly oldPath newPath source existing state

variable {fs} {path oldPath newPath : List UInt8} {type : FileType} {existing parent source : ℕ}
  {state : σ}

/-! ### Deletion -/

theorem mem_children_of_lookup (hfound : fs.lookupNoFollowFinal path = some existing)
    (hparent : (fs.tree.dentry existing).parent = some parent) :
    existing ∈ (fs.tree.dentry parent).children := by
  refine (DentryTree.rooted_of_resolve fs.root_parent hfound).mem_children ?_ hparent
  rintro rfl
  rw [fs.root_parent] at hparent
  cases hparent

theorem Deletes.ne_root (h : fs.Deletes path type existing parent state) : existing ≠ fs.root := by
  rintro rfl
  have hparent := h.parent
  rw [fs.root_parent] at hparent
  cases hparent

theorem Deletes.deleteFile_eq (h : fs.Deletes path type existing parent state) :
    fs.deleteFile path type = (true, (fs.removeEntry parent existing).withExtendedState state) := by
  rw [deleteFile, if_neg (not_not.mpr h.kind), h.found]
  dsimp only
  rw [h.parent]
  dsimp only
  rw [if_neg h.ne_root, if_neg (not_not.mpr h.type_eq), if_neg fun hne => hne.2 (h.empty hne.1),
    h.extended]
  dsimp only
  rw [if_pos (mem_children_of_lookup h.found h.parent)]

/-- A deletion that fails leaves the tree. -/
theorem deleteFile_cases (path : List UInt8) (hkind : type = .dir ∨ type = .file) :
    (∃ existing parent state, fs.Deletes path type existing parent state) ∨
      ∃ state, fs.deleteFile path type = (false, fs.withExtendedState state) := by
  rw [deleteFile, if_neg (not_not.mpr hkind)]
  rcases hfound : fs.lookupNoFollowFinal path with _ | existing
  · exact .inr ⟨fs.extendedState, rfl⟩
  dsimp only
  rcases hparent : (fs.tree.dentry existing).parent with _ | parent
  · exact .inr ⟨fs.extendedState, rfl⟩
  dsimp only
  by_cases hroot : existing = fs.root
  · exact .inr ⟨fs.extendedState, by rw [if_pos hroot]; rfl⟩
  by_cases htype : (fs.tree.inode existing).nodeType ≠ type
  · exact .inr ⟨fs.extendedState, by rw [if_neg hroot, if_pos htype]; rfl⟩
  by_cases hempty : type = .dir ∧ (fs.tree.dentry existing).children ≠ []
  · exact .inr ⟨fs.extendedState, by rw [if_neg hroot, if_neg htype, if_pos hempty]; rfl⟩
  rcases hextended : fs.extendedDelete path type existing with ⟨_ | _, state⟩
  · exact .inr ⟨state, by rw [if_neg hroot, if_neg htype, if_neg hempty]⟩
  · exact .inl ⟨existing, parent, state, hkind, hfound, hparent, not_not.mp htype,
      fun hdir => by_contra fun hne => hempty ⟨hdir, hne⟩, hextended⟩

/-- What becomes of an existing destination: it is deleted, or the call fails without a change of
the tree, or there is none but the source. -/
theorem replaceDestination_cases (newPath : List UInt8)
    (hkind : (fs.tree.inode source).nodeType = .dir ∨ (fs.tree.inode source).nodeType = .file) :
    (∃ existing parent state, fs.lookup newPath = some existing ∧ existing ≠ source ∧
      fs.Deletes newPath (fs.tree.inode source).nodeType existing parent state ∧
      fs.replaceDestination source newPath =
        (none, (fs.removeEntry parent existing).withExtendedState state)) ∨
    (∃ code state, code ≠ 0 ∧
      fs.replaceDestination source newPath = (some code, fs.withExtendedState state)) ∨
    ((∀ existing, fs.lookup newPath = some existing → existing = source) ∧
      fs.replaceDestination source newPath = (none, fs)) := by
  rw [replaceDestination]
  rcases hlookup : fs.lookup newPath with _ | existing
  · exact .inr (.inr ⟨fun _ h => absurd h (by simp), rfl⟩)
  dsimp only
  by_cases hsource : existing = source
  · refine .inr (.inr ⟨fun d hd => ?_, if_pos hsource⟩)
    exact (Option.some.inj hd).symm.trans hsource
  rw [if_neg hsource]
  have hfailed (code : ℤ) (hcode : code ≠ 0) : ∃ code' state, code' ≠ 0 ∧
      ((some code, fs) : Option ℤ × VirtualFileSystem σ) =
        (some code', fs.withExtendedState state) := ⟨code, fs.extendedState, hcode, rfl⟩
  -- both kinds of entries are deleted in the same way
  have hdelete : (∃ parent state, fs.Deletes newPath (fs.tree.inode source).nodeType existing parent
      state ∧ fs.deleteFile newPath (fs.tree.inode source).nodeType =
        (true, (fs.removeEntry parent existing).withExtendedState state)) ∨
      ∃ state, fs.deleteFile newPath (fs.tree.inode source).nodeType =
        (false, fs.withExtendedState state) := by
    obtain ⟨found, parent, state, hdeletes⟩ | hnone := fs.deleteFile_cases newPath hkind
    · have hlink : (fs.tree.inode found).nodeType ≠ .symlink := by
        rw [hdeletes.type_eq]
        obtain h | h := hkind <;> rw [h] <;> decide
      have hfollow := DentryTree.resolve_of_noFollow hdeletes.found hlink
      change fs.lookup newPath = some found at hfollow
      rw [hlookup] at hfollow
      obtain rfl := Option.some.inj hfollow
      exact .inl ⟨parent, state, hdeletes, hdeletes.deleteFile_eq⟩
    · exact .inr hnone
  obtain hdir | hfile := hkind
  · rw [hdir] at hdelete ⊢
    rw [if_pos rfl]
    by_cases htype : (fs.tree.inode existing).nodeType ≠ .dir
    · rw [if_pos htype]
      exact .inr (.inl (hfailed errEnotdir (by decide)))
    by_cases hempty : (fs.tree.dentry existing).children ≠ []
    · rw [if_neg htype, if_pos hempty]
      exact .inr (.inl (hfailed errEnotempty (by decide)))
    rw [if_neg htype, if_neg hempty]
    obtain ⟨parent, state, hdeletes, heq⟩ | ⟨state, heq⟩ := hdelete
    · exact .inl ⟨existing, parent, state, rfl, hsource, hdeletes, by rw [heq]⟩
    · exact .inr (.inl ⟨errEperm, state, by decide, by rw [heq]⟩)
  · rw [hfile] at hdelete ⊢
    rw [if_neg (by decide)]
    by_cases hdir : (fs.tree.inode existing).nodeType = .dir
    · rw [if_pos hdir]
      exact .inr (.inl (hfailed errEisdir (by decide)))
    by_cases htype : (fs.tree.inode existing).nodeType ≠ .file
    · rw [if_neg hdir, if_pos htype]
      exact .inr (.inl (hfailed errEperm (by decide)))
    rw [if_neg hdir, if_neg htype]
    obtain ⟨parent, state, hdeletes, heq⟩ | ⟨state, heq⟩ := hdelete
    · exact .inl ⟨existing, parent, state, rfl, hsource, hdeletes, by rw [heq]⟩
    · exact .inr (.inl ⟨errEperm, state, by decide, by rw [heq]⟩)

/-! ### Renaming -/

variable (fs) in
/-- `RenameFile` finds that the source can be moved to a parent. -/
structure Moves (oldPath newPath : List UInt8) (type : FileType) (source target : ℕ)
    (name : List UInt8) : Prop where
  kind : type = .dir ∨ type = .file
  found : fs.lookupNoFollowFinal oldPath = some source
  source_ne : source ≠ fs.root
  type_eq : (fs.tree.inode source).nodeType = type
  target_eq : fs.tree.renameTarget fs.root newPath = some (target, name)
  free : fs.tree.findChildBySegment target name = none
  outside : fs.tree.Outside source target

variable {target : ℕ} {name : List UInt8}

theorem Moves.leadsTo (h : fs.Moves oldPath newPath type source target name) :
    fs.tree.LeadsTo fs.root newPath target name := DentryTree.leadsTo_of_renameTarget h.target_eq

/-- What the checks of `RenameFile` find. -/
theorem planRename_cases (oldPath newPath : List UInt8) (type : FileType) :
    fs.planRename oldPath newPath type = none ∨
    (fs.planRename oldPath newPath type = some none ∧ ∃ source,
      fs.lookupNoFollowFinal oldPath = some source ∧
      fs.lookupNoFollowFinal newPath = some source ∧ (type = .dir ∨ type = .file) ∧
      (fs.tree.inode source).nodeType = type) ∨
    ∃ move, fs.planRename oldPath newPath type = some (some move) ∧
      fs.Moves oldPath newPath type move.source move.target move.name := by
  rw [planRename]
  by_cases hkind : type = .dir ∨ type = .file
  swap
  · exact .inl (if_pos hkind)
  rw [if_neg (not_not.mpr hkind)]
  split
  · exact .inl rfl
  next source hfound =>
  split
  · exact .inl rfl
  next previous hparent =>
  by_cases hroot : source = fs.root
  · exact .inl (dif_pos hroot)
  by_cases htype : (fs.tree.inode source).nodeType ≠ type
  · exact .inl (by rw [dif_neg hroot, if_pos htype])
  rw [dif_neg hroot, if_neg htype]
  rw [not_not] at htype
  split
  next existing hexisting =>
    by_cases heq : existing = source
    · subst heq
      exact .inr (.inl ⟨if_pos rfl, existing, hfound, hexisting, hkind, htype⟩)
    · exact .inl (if_neg heq)
  split
  · exact .inl rfl
  next target name htarget =>
  split
  · exact .inl rfl
  next hfree =>
  by_cases hbelow : type = .dir ∧ (source = target ∨ fs.tree.isDescendantDentry
      ((directorySegments newPath).length + 1) target source = true)
  · exact .inl (if_pos hbelow)
  refine .inr (.inr ⟨_, if_neg hbelow, hkind, hfound, hroot, htype, htarget, hfree, ?_⟩)
  intro hancestor
  have hdescend := (DentryTree.leadsTo_of_renameTarget htarget).descend
  obtain hsource | hdirectory :=
    DentryTree.isDirectory_of_ancestor fs.root_parent hdescend hancestor
  · exact hroot hsource
  · exact hbelow ⟨htype.symm.trans hdirectory,
      .inr ((DentryTree.isDescendantDentry_iff fs.root_parent hdescend).mpr hancestor)⟩

theorem Moves.lookupWith_eq_none (h : fs.Moves oldPath newPath type source target name)
    (followFinal : Bool) : fs.lookupWith followFinal newPath = none :=
  h.leadsTo.lookupWith_eq_none h.free

theorem Moves.exists_planRename_eq (h : fs.Moves oldPath newPath type source target name) :
    ∃ move, fs.planRename oldPath newPath type = some (some move) := by
  have hnew : fs.lookupNoFollowFinal newPath = none := h.lookupWith_eq_none false
  rw [planRename, if_neg (not_not.mpr h.kind)]
  split
  next hnone =>
    rw [h.found] at hnone
    cases hnone
  next found hfound =>
  obtain rfl := Option.some.inj (hfound.symm.trans h.found)
  split
  next hparent =>
    have hrooted := DentryTree.rooted_of_resolve fs.root_parent h.found
    obtain heq | ⟨p, -, hmem⟩ := Relation.ReflTransGen.cases_tail hrooted
    · exact absurd heq h.source_ne
    · rw [fs.tree.parent_of_mem p found hmem] at hparent
      cases hparent
  next previous hparent =>
  rw [dif_neg h.source_ne, if_neg (not_not.mpr h.type_eq), hnew]
  dsimp only
  split
  next hnone =>
    rw [h.target_eq] at hnone
    cases hnone
  next target' name' htarget =>
  rw [h.target_eq] at htarget
  obtain ⟨rfl, rfl⟩ := Prod.mk.inj (Option.some.inj htarget)
  split
  next c hfind =>
    rw [h.free] at hfind
    cases hfind
  next hfree =>
  refine ⟨_, if_neg fun hbelow => ?_⟩
  obtain heq | hloop := hbelow.2
  · exact h.outside (heq ▸ .refl)
  · exact h.outside
      ((DentryTree.isDescendantDentry_iff fs.root_parent h.leadsTo.descend).mp hloop)

/-- A move that was planned is carried out when the ext2 file system takes part. -/
theorem renameFile_of_planRename {move : fs.Move}
    (hplan : fs.planRename oldPath newPath type = some (some move))
    (hmoves : fs.Moves oldPath newPath type move.source move.target move.name) :
    ((fs.extendedRename oldPath newPath type).1 = false ∧
      ∃ state, fs.renameFile oldPath newPath type = (false, fs.withExtendedState state)) ∨
    ((fs.extendedRename oldPath newPath type).1 = true ∧
      ∃ state, fs.renameFile oldPath newPath type =
        (true, (fs.moveEntry move.previous move.target move.source move.name
          move.canMove).withExtendedState state)) := by
  rw [renameFile, hplan]
  dsimp only
  rcases fs.extendedRename oldPath newPath type with ⟨_ | _, state⟩
  · exact .inl ⟨rfl, state, rfl⟩
  · exact .inr ⟨rfl, state,
      if_pos (mem_children_of_lookup hmoves.found move.canMove.parent)⟩

/-! ### The trees before and after -/

theorem editsEntry_removeEntry (hparent : (fs.tree.dentry existing).parent = some parent) :
    DentryTree.EditsEntry existing fs.tree (fs.removeEntry parent existing).tree where
  inode _ := inode_removeChild
  parent _ _ := parent_removeChild
  find _ _ _ hfind hne := (findChildBySegment_removeEntry hparent).mpr ⟨hne, hfind⟩
  lost d segment hfind := by
    by_contra hsome
    obtain ⟨c, hc⟩ := Option.ne_none_iff_exists'.mp hsome
    obtain ⟨hne, hfind'⟩ := (findChildBySegment_removeEntry hparent).mp hc
    rw [hfind] at hfind'
    exact hne (Option.some.inj hfind').symm

/-- What is there after a deletion was there before. -/
theorem keepsApart_removeEntry (hparent : (fs.tree.dentry existing).parent = some parent) :
    DentryTree.KeepsApart (fun _ => True) ∅ (fs.removeEntry parent existing).tree fs.tree where
  inode _ _ := inode_removeChild.symm
  parent _ _ := parent_removeChild.symm
  inside_parent _ _ _ _ := trivial
  find _ _ _ _ hfind _ := ⟨trivial, ((findChildBySegment_removeEntry hparent).mp hfind).2⟩
  lost _ _ _ _ _ hc := absurd hc (Set.notMem_empty _)

variable {previous : ℕ}

section

variable (h : fs.CanMove previous target source name)

include h

theorem inode_moveEntry (d : ℕ) :
    (fs.moveEntry previous target source name h).tree.inode d = fs.tree.inode d := by
  rw [DentryTree.inode, dentry_moveEntry, moveChild_apply]

theorem parent_moveEntry {d : ℕ} (hne : d ≠ source) :
    ((fs.moveEntry previous target source name h).tree.dentry d).parent =
      (fs.tree.dentry d).parent := by
  rw [dentry_moveEntry, moveChild_apply]
  exact if_neg hne

theorem editsEntry_moveEntry :
    DentryTree.EditsEntry source fs.tree (fs.moveEntry previous target source name h).tree where
  inode := inode_moveEntry h
  parent _ hne := parent_moveEntry h hne
  find _ _ _ hfind hne := (findChildBySegment_moveEntry h).mpr (.inr ⟨hne, hfind⟩)
  lost d segment hfind := by
    by_contra hsome
    obtain ⟨c, hc⟩ := Option.ne_none_iff_exists'.mp hsome
    obtain ⟨-, rfl, rfl⟩ | ⟨hne, hfind'⟩ := (findChildBySegment_moveEntry h).mp hc
    · rw [h.free] at hfind
      cases hfind
    · rw [hfind] at hfind'
      exact hne (Option.some.inj hfind').symm

/-- Apart from the entry, the tree before a move has what the tree after it has. -/
theorem editsEntry_moveEntry_back :
    DentryTree.EditsEntry source (fs.moveEntry previous target source name h).tree fs.tree where
  inode d := (inode_moveEntry h d).symm
  parent _ hne := (parent_moveEntry h hne).symm
  find _ _ _ hfind hne := by
    obtain ⟨rfl, -⟩ | ⟨-, hfind'⟩ := (findChildBySegment_moveEntry h).mp hfind
    · exact absurd rfl hne
    · exact hfind'
  lost d segment hfind := by
    obtain ⟨-, rfl, rfl⟩ | ⟨hne, -⟩ := (findChildBySegment_moveEntry h).mp hfind
    · exact h.free
    · exact absurd rfl hne

end

variable (fs) in
/-- A state that has lost nothing but entries that the new path named. -/
structure Cleared (cleared : VirtualFileSystem σ) (newPath : List UInt8) (apart : Set ℕ) :
    Prop where
  root : cleared.root = fs.root
  keeps : ∃ inside : ℕ → Prop, inside fs.root ∧
    DentryTree.KeepsApart inside apart fs.tree cleared.tree
  keeps_back : DentryTree.KeepsApart (fun _ => True) ∅ cleared.tree fs.tree
  named : ∀ x ∈ apart, fs.lookupNoFollowFinal newPath = some x

theorem cleared_self (newPath : List UInt8) : fs.Cleared fs newPath ∅ where
  root := rfl
  keeps := ⟨fun _ => True, trivial, fun _ _ => rfl, fun _ _ => rfl, fun _ _ _ _ => trivial,
    fun _ _ _ _ hfind _ => ⟨trivial, hfind⟩, fun _ _ _ _ _ hc => absurd hc (Set.notMem_empty _)⟩
  keeps_back := ⟨fun _ _ => rfl, fun _ _ => rfl, fun _ _ _ _ => trivial,
    fun _ _ _ _ hfind _ => ⟨trivial, hfind⟩, fun _ _ _ _ _ hc => absurd hc (Set.notMem_empty _)⟩
  named _ hx := absurd hx (Set.notMem_empty _)

theorem Deletes.cleared (h : fs.Deletes path type existing parent state) :
    fs.Cleared ((fs.removeEntry parent existing).withExtendedState state) path {existing} where
  root := rfl
  keeps := ⟨fs.tree.Outside existing, DentryTree.outside_root fs.root_parent h.ne_root,
    (editsEntry_removeEntry h.parent).keepsApart⟩
  keeps_back := keepsApart_removeEntry h.parent
  named _ hx := Set.mem_singleton_iff.mp hx ▸ h.found

/-! ### Lookups before and after -/

theorem lookupWith_eq (followFinal : Bool) (path : List UInt8) :
    fs.lookupWith followFinal path =
      (fs.tree.resolvePathInternal fs.root followFinal maxSymlinkFollowDepth fs.root path).1 := by
  cases followFinal <;> rfl

theorem lookupWith_congr {path' : List UInt8} (h : cString path = cString path')
    (followFinal : Bool) : fs.lookupWith followFinal path = fs.lookupWith followFinal path' := by
  rw [lookupWith_eq, lookupWith_eq, maxSymlinkFollowDepth, DentryTree.resolvePathInternal_succ,
    DentryTree.resolvePathInternal_succ, h]

/-- An entry that is not a link is found by both lookups. -/
theorem lookupWith_of_noFollow {r : ℕ} (h : fs.lookupNoFollowFinal path = some r)
    (hr : (fs.tree.inode r).nodeType ≠ .symlink) (followFinal : Bool) :
    fs.lookupWith followFinal path = some r := by
  cases followFinal
  · exact h
  · exact DentryTree.resolve_of_noFollow h hr

theorem Moves.not_link (h : fs.Moves oldPath newPath type source target name) :
    (fs.tree.inode source).nodeType ≠ .symlink := by
  rw [h.type_eq]
  obtain rfl | rfl := h.kind <;> decide

namespace Cleared

variable {cleared : VirtualFileSystem σ} {apart : Set ℕ} {followFinal : Bool} {r : ℕ}

section

variable (h : fs.Cleared cleared newPath apart)

include h

theorem lookupWith_back (hr : cleared.lookupWith followFinal path = some r) :
    fs.lookupWith followFinal path = some r ∧
      fs.entries followFinal path = cleared.entries followFinal path := by
  rw [lookupWith_eq] at hr
  rw [lookupWith_eq, entries, entries, ← h.root]
  obtain ⟨-, -, heq⟩ | ⟨⟨e, -, he⟩, -⟩ := h.keeps_back.resolve trivial trivial r hr
  · exact heq
  · exact absurd he (Set.notMem_empty e)

theorem lookupWith_or (hr : fs.lookupWith followFinal path = some r) :
    ((∀ e ∈ fs.entries followFinal path, e ∉ apart) ∧
      cleared.lookupWith followFinal path = some r ∧
      cleared.entries followFinal path = fs.entries followFinal path) ∨
    (∃ e ∈ fs.entries followFinal path, e ∈ apart) ∧
      cleared.lookupWith followFinal path = none := by
  obtain ⟨inside, hroot, hkeeps⟩ := h.keeps
  rw [lookupWith_eq] at hr
  rw [lookupWith_eq, entries, entries, h.root]
  exact (hkeeps.resolve hroot hroot r hr).imp_left And.right

theorem ancestor {a b : ℕ} : fs.tree.Ancestor a b ↔ cleared.tree.Ancestor a b := by
  have hparent : ∀ d, (fs.tree.dentry d).parent = (cleared.tree.dentry d).parent := fun d =>
    h.keeps_back.parent d trivial
  simp only [DentryTree.Ancestor, hparent]

end

end Cleared

theorem lookupWith_moveEntry_source (h : fs.CanMove previous target source name)
    (hmoves : fs.Moves oldPath newPath type source target name) (followFinal : Bool) :
    (fs.moveEntry previous target source name h).lookupWith followFinal newPath = some source := by
  have hdescend := (editsEntry_moveEntry h).keepsApart.descend
    (DentryTree.outside_root fs.root_parent h.source_ne) hmoves.leadsTo.descend
    fun x hx => Set.mem_singleton_iff.mp hx ▸ hmoves.outside
  have hleads : (fs.moveEntry previous target source name h).tree.LeadsTo fs.root newPath target
      name := { hmoves.leadsTo with descend := hdescend }
  refine hleads.lookupWith_eq_some ((findChildBySegment_moveEntry h).mpr (.inl ⟨rfl, rfl, rfl⟩)) ?_
  rw [inode_moveEntry]
  exact hmoves.not_link

/-- A move, after a deletion or not, renames the entry. -/
theorem Moves.renamed {cleared : VirtualFileSystem σ} {apart : Set ℕ}
    (hcleared : fs.Cleared cleared newPath apart)
    (hmoves : cleared.Moves oldPath newPath type source target name)
    (h : cleared.CanMove previous target source name) :
    fs.Renamed (cleared.moveEntry previous target source name h) oldPath newPath := by
  have hold : ∀ followFinal, cleared.lookupWith followFinal oldPath = some source :=
    lookupWith_of_noFollow hmoves.found hmoves.not_link
  have hbefore : ∀ followFinal, fs.lookupWith followFinal oldPath = some source :=
    fun followFinal => (hcleared.lookupWith_back (hold followFinal)).1
  have hnamed : fs.lookupNoFollowFinal oldPath = some source := hbefore false
  have hroot := DentryTree.outside_root cleared.root_parent h.source_ne
  have hrootAfter : (cleared.moveEntry previous target source name h).tree.Outside source
      cleared.root :=
    DentryTree.outside_root (cleared.moveEntry previous target source name h).root_parent
      h.source_ne
  refine ⟨by rw [hnamed]; rfl, fun followFinal => ?_, .inl fun followFinal => ?_, ?_⟩
  · rw [hbefore, lookupWith_moveEntry_source h hmoves]
  · have hsource := hold followFinal
    rw [lookupWith_eq] at hsource ⊢
    exact (editsEntry_moveEntry h).resolve_self cleared.root_parent h.source_ne hsource
  · intro source' hsource' followFinal path hbeforePath hreplaced hafterPath
    obtain rfl : source = source' := Option.some.inj (hnamed.symm.trans hsource')
    rcases hpath : fs.lookupWith followFinal path with _ | r
    · -- what is found afterwards, not through the entry, was found before
      by_contra hne
      obtain ⟨r, hr⟩ := Option.ne_none_iff_exists'.mp hne
      rw [lookupWith_eq] at hr
      obtain ⟨-, -, hfound, -⟩ | ⟨⟨e, he, hsource⟩, -⟩ :=
        (editsEntry_moveEntry_back h).keepsApart.resolve hrootAfter hrootAfter r hr
      · have hcleared' : cleared.lookupWith followFinal path = some r := by
          rw [lookupWith_eq]
          exact hfound
        rw [(hcleared.lookupWith_back hcleared').1] at hpath
        cases hpath
      · exact hafterPath (Set.mem_singleton_iff.mp hsource ▸ he)
    · obtain ⟨-, hcleared', hentries⟩ | ⟨⟨e, he, hapart⟩, -⟩ := hcleared.lookupWith_or hpath
      · rw [lookupWith_eq] at hcleared' ⊢
        obtain ⟨-, -, hafter, -⟩ | ⟨⟨e, he, hsource⟩, -⟩ :=
          (editsEntry_moveEntry h).keepsApart.resolve hroot hroot r hcleared'
        · exact hafter
        · refine absurd ?_ hbeforePath
          rw [← hentries]
          exact Set.mem_singleton_iff.mp hsource ▸ he
      · exact absurd he (hreplaced e (hcleared.named e hapart))

theorem Moves.not_leadsBelow {cleared : VirtualFileSystem σ} {apart : Set ℕ}
    (hcleared : fs.Cleared cleared newPath apart)
    (hmoves : cleared.Moves oldPath newPath type source target name) :
    ¬fs.LeadsBelow oldPath newPath := by
  rintro ⟨source', directory, last, trailing, d, hsource, -, -, hpath, hlast, htrailing, hd, habove⟩
  have hfound : cleared.lookupWith false oldPath = some source := hmoves.found
  have hbefore : fs.lookupNoFollowFinal oldPath = some source :=
    (hcleared.lookupWith_back hfound).1
  obtain rfl := Option.some.inj (hsource.symm.trans hbefore)
  have htarget : cleared.lookupWith true directory = some target :=
    hmoves.leadsTo.lookup_directory hpath hlast htrailing
  have hdirectory : fs.lookup directory = some target := (hcleared.lookupWith_back htarget).1
  obtain rfl := Option.some.inj (hd.symm.trans hdirectory)
  exact hmoves.outside (hcleared.ancestor.mp habove)

/-! ### Replacing a destination -/

theorem renameTarget_of_descend {tree tree' : DentryTree} {root : ℕ}
    (h : tree.renameTarget root path = some (target, name))
    (hdescend : tree'.descend root (directorySegments path) = some target) :
    tree'.renameTarget root path = some (target, name) := by
  rw [DentryTree.renameTarget] at h ⊢
  split_ifs at h ⊢
  obtain ⟨d, -, heq⟩ := Option.map_eq_some_iff.mp h
  rw [hdescend, Option.map_some]
  exact congrArg some (Prod.ext rfl (Prod.mk.inj heq).2)

namespace Replaces

section

variable (h : fs.Replaces oldPath newPath source existing parent state)

include h

/-- The tree without the destination. -/
theorem cleared :
    fs.Cleared ((fs.removeEntry parent existing).withExtendedState state) newPath {existing} :=
  h.deletes.cleared

theorem lookup_cleared :
    ((fs.removeEntry parent existing).withExtendedState state).lookupNoFollowFinal newPath = none :=
  (editsEntry_removeEntry h.deletes.parent).resolve_self fs.root_parent h.deletes.ne_root
    h.deletes.found

/-- After the deletion the new path does not lead where it led. -/
theorem lookup_cleared_ne :
    ((fs.removeEntry parent existing).withExtendedState state).lookup newPath ≠
      fs.lookup newPath := by
  have hnone := (editsEntry_removeEntry h.deletes.parent).resolve_self fs.root_parent
    h.deletes.ne_root h.existing_found
  rw [h.existing_found]
  intro hsome
  exact absurd (hnone.symm.trans hsome) (by simp)

theorem replaceDestination_eq :
    fs.replaceDestination source newPath =
      (none, (fs.removeEntry parent existing).withExtendedState state) := by
  have htype := h.deletes.type_eq
  have hdelete := h.deletes.deleteFile_eq
  rw [replaceDestination, h.existing_found]
  dsimp only
  rw [if_neg h.existing_ne]
  obtain hdir | hfile := h.deletes.kind
  · rw [hdir] at htype hdelete
    rw [if_pos hdir, if_neg (not_not.mpr htype), if_neg (not_not.mpr (h.deletes.empty hdir)),
      hdelete]
  · rw [hfile] at htype hdelete
    rw [if_neg (by rw [hfile]; decide), if_neg (by rw [htype]; decide),
      if_neg (not_not.mpr htype), hdelete]

/-- A source that is replaced cleanly can be moved after the deletion. -/
theorem moves (hclean : fs.ReplacesCleanly oldPath newPath source existing state) :
    ∃ target name, ((fs.removeEntry parent existing).withExtendedState state).Moves oldPath newPath
      (fs.tree.inode source).nodeType source target name := by
  obtain ⟨target, name, htarget, hfind, houtside⟩ := hclean.target
  have hleads := DentryTree.leadsTo_of_renameTarget htarget
  have hedits := editsEntry_removeEntry h.deletes.parent
  have hdestination : fs.tree.Outside existing target :=
    DentryTree.outside_of_child fs.root_parent (DentryTree.ancestor_of_descend hleads.descend)
      (DentryTree.parent_of_findChildBySegment hfind)
  have hdescend := hedits.keepsApart.descend
    (DentryTree.outside_root fs.root_parent h.deletes.ne_root) hleads.descend
    fun x hx => Set.mem_singleton_iff.mp hx ▸ hdestination
  refine ⟨target, name, h.deletes.kind, ?_, hclean.source_ne, ?_, ?_, ?_, ?_⟩
  · have hfound : fs.lookupWith false oldPath = some source := hclean.found
    obtain ⟨-, hcleared, -⟩ | ⟨⟨e, he, hexisting⟩, -⟩ := h.cleared.lookupWith_or hfound
    · exact hcleared
    · exact absurd (Set.mem_singleton_iff.mp hexisting ▸ he) hclean.avoids
  · exact congrArg INode.nodeType (hedits.inode source)
  · exact renameTarget_of_descend htarget hdescend
  · exact hedits.lost target name hfind
  · exact fun habove => houtside (h.cleared.ancestor.mpr habove)

/-- A source that is moved after the deletion was replaced cleanly. -/
theorem replacesCleanly {moved : ℕ}
    (hmoves : ((fs.removeEntry parent existing).withExtendedState state).Moves oldPath newPath
      (fs.tree.inode source).nodeType moved target name)
    (hextended : ((fs.withExtendedState state).extendedRename oldPath newPath
      (fs.tree.inode source).nodeType).1 = true) :
    fs.ReplacesCleanly oldPath newPath source existing state := by
  have hedits := editsEntry_removeEntry h.deletes.parent
  have hold := lookupWith_of_noFollow hmoves.found hmoves.not_link
  have hfollow : fs.lookup oldPath = some moved := (h.cleared.lookupWith_back (hold true)).1
  obtain rfl := Option.some.inj (h.source_found.symm.trans hfollow)
  have hbefore := (h.cleared.lookupWith_back (hold false)).1
  have hdescend : fs.tree.descend fs.root (directorySegments newPath) = some target :=
    h.cleared.keeps_back.descend trivial hmoves.leadsTo.descend
      fun x hx => absurd hx (Set.notMem_empty x)
  have htarget : fs.tree.renameTarget fs.root newPath = some (target, name) :=
    renameTarget_of_descend hmoves.target_eq hdescend
  refine ⟨hbefore, hmoves.source_ne, fun hmem => ?_, ⟨target, name, htarget, ?_, ?_⟩, hextended⟩
  · obtain ⟨havoids, -⟩ | ⟨-, hnone⟩ := h.cleared.lookupWith_or hbefore
    · exact havoids existing hmem rfl
    · rw [hold false] at hnone
      cases hnone
  · rcases hfind : fs.tree.findChildBySegment target name with _ | c
    · have hnone : fs.lookupWith true newPath = none :=
        (DentryTree.leadsTo_of_renameTarget htarget).lookupWith_eq_none hfind
      exact absurd (h.existing_found.symm.trans hnone) (by simp)
    · by_contra hne
      have hc : c ≠ existing := fun heq => hne (congrArg some heq)
      have hkept := hedits.find target name c hfind hc
      have hfree := hmoves.free
      change (fs.removeEntry parent existing).tree.findChildBySegment target name = none at hfree
      rw [hkept] at hfree
      cases hfree
  · exact fun habove => hmoves.outside (h.cleared.ancestor.mp habove)

end

end Replaces

/-! ### The system call -/

/-- With a destination out of the way, the call ends as `RenameFile` does. -/
theorem renamePaths_of_replaceDestination {cleared after : VirtualFileSystem σ} {renamed : Bool}
    (hne : cString oldPath ≠ cString newPath) (hsource : fs.lookup oldPath = some source)
    (hkind : (fs.tree.inode source).nodeType = .dir ∨ (fs.tree.inode source).nodeType = .file)
    (hcleared : fs.replaceDestination source newPath = (none, cleared))
    (hrename : cleared.renameFile oldPath newPath (fs.tree.inode source).nodeType =
      (renamed, after)) :
    fs.renamePaths oldPath newPath = (if renamed then 0 else errEinval, after) := by
  rw [renamePaths, if_neg hne, hsource]
  dsimp only
  rw [if_neg (not_not.mpr hkind), hcleared]
  dsimp only
  rw [hrename]
  cases renamed <;> rfl

/-- What the call comes to when the two texts differ: it fails and leaves the tree, or it goes on
with `RenameFile`, after the deletion of a destination or not. -/
theorem renamePaths_cases (hne : cString oldPath ≠ cString newPath) :
    (∃ code state, code ≠ 0 ∧
      fs.renamePaths oldPath newPath = (code, fs.withExtendedState state)) ∨
    ∃ source cleared, fs.lookup oldPath = some source ∧
      ((fs.tree.inode source).nodeType = .dir ∨ (fs.tree.inode source).nodeType = .file) ∧
      fs.replaceDestination source newPath = (none, cleared) ∧
      (cleared = fs ∨ ∃ existing parent state,
        fs.Replaces oldPath newPath source existing parent state ∧
        cleared = (fs.removeEntry parent existing).withExtendedState state) := by
  rcases hsource : fs.lookup oldPath with _ | source
  · refine .inl ⟨errEnoent, fs.extendedState, by decide, ?_⟩
    rw [renamePaths, if_neg hne, hsource]
    rfl
  by_cases hkind : (fs.tree.inode source).nodeType = .dir ∨ (fs.tree.inode source).nodeType = .file
  swap
  · refine .inl ⟨errEperm, fs.extendedState, by decide, ?_⟩
    rw [renamePaths, if_neg hne, hsource]
    exact if_pos hkind
  obtain ⟨existing, parent, state, hexisting, hexistingNe, hdeletes, heq⟩ |
    ⟨code, state, hcode, heq⟩ | ⟨-, heq⟩ := fs.replaceDestination_cases newPath hkind
  · exact .inr ⟨source, _, rfl, hkind, heq, .inr ⟨existing, parent, state,
      ⟨hne, hsource, hexisting, hexistingNe, hdeletes⟩, rfl⟩⟩
  · refine .inl ⟨code, state, hcode, ?_⟩
    rw [renamePaths, if_neg hne, hsource]
    dsimp only
    rw [if_neg (not_not.mpr hkind), heq]
  · exact .inr ⟨source, fs, rfl, hkind, heq, .inl rfl⟩

/-- A result that is an error and has left the tree is atomic. -/
theorem atomicResult_of_failed {code : ℤ} (hcode : code ≠ 0) (state : σ) :
    fs.AtomicResult (code, fs.withExtendedState state) oldPath newPath where
  inode _ := rfl
  failed _ _ _ := rfl
  renamed h := absurd h hcode
  below _ := hcode

/-- Two paths that name one entry, which is neither moved nor a link. -/
theorem atomicResult_of_same (state : σ) (hnamed : (fs.lookupNoFollowFinal oldPath).isSome)
    (hsame : ∀ followFinal, fs.lookupWith followFinal newPath = fs.lookupWith followFinal oldPath) :
    fs.AtomicResult (0, fs.withExtendedState state) oldPath newPath where
  inode _ := rfl
  failed h := absurd rfl h
  renamed _ := ⟨hnamed, hsame, .inr (hsame false), fun _ _ _ _ _ _ _ => rfl⟩
  below := by
    rintro ⟨source, directory, name, trailing, d, hsource, -, hne, -⟩
    exact absurd ((hsame false).trans hsource) hne

theorem atomicResult_of_moves {cleared : VirtualFileSystem σ} {apart : Set ℕ}
    (hcleared : fs.Cleared cleared newPath apart)
    (hmoves : cleared.Moves oldPath newPath type source target name)
    (h : cleared.CanMove previous target source name) :
    fs.AtomicResult (0, (cleared.moveEntry previous target source name h).withExtendedState state)
      oldPath newPath where
  inode d := (inode_moveEntry h d).trans (hcleared.keeps_back.inode d trivial).symm
  failed hne := absurd rfl hne
  renamed _ :=
    have hrenamed := hmoves.renamed hcleared h
    ⟨hrenamed.named, hrenamed.moved, hrenamed.gone, hrenamed.others⟩
  below hbelow := absurd hbelow (hmoves.not_leadsBelow hcleared)

/-- Without a deletion the rest of the call is atomic. -/
theorem atomicResult_renameFile {after : VirtualFileSystem σ} {renamed : Bool}
    (hrename : fs.renameFile oldPath newPath type = (renamed, after)) :
    fs.AtomicResult (if renamed then 0 else errEinval, after) oldPath newPath := by
  obtain hnone | ⟨hnothing, source, hold, hnew, hkind, htype⟩ | ⟨move, hmove, hmoves⟩ :=
    fs.planRename_cases oldPath newPath type
  · rw [renameFile, hnone] at hrename
    obtain ⟨rfl, rfl⟩ := Prod.mk.inj hrename
    exact atomicResult_of_failed (by decide) fs.extendedState
  · rw [renameFile, hnothing] at hrename
    obtain ⟨rfl, rfl⟩ := Prod.mk.inj hrename
    have hlink : (fs.tree.inode source).nodeType ≠ .symlink := by
      rw [htype]
      obtain rfl | rfl := hkind <;> decide
    refine atomicResult_of_same fs.extendedState (by rw [hold]; rfl) fun followFinal => ?_
    rw [lookupWith_of_noFollow hold hlink, lookupWith_of_noFollow hnew hlink]
  · obtain ⟨-, state, heq⟩ | ⟨-, state, heq⟩ := renameFile_of_planRename hmove hmoves
    · obtain ⟨rfl, rfl⟩ := Prod.mk.inj (heq.symm.trans hrename)
      exact atomicResult_of_failed (by decide) state
    · obtain ⟨rfl, rfl⟩ := Prod.mk.inj (heq.symm.trans hrename)
      exact atomicResult_of_moves (cleared_self newPath) hmoves move.canMove

/-- A call that deletes a destination is atomic when it replaces the destination cleanly. -/
theorem Replaces.atomicResult_iff (h : fs.Replaces oldPath newPath source existing parent state) :
    fs.AtomicResult (fs.renamePaths oldPath newPath) oldPath newPath ↔
      fs.ReplacesCleanly oldPath newPath source existing state := by
  have hend {after : VirtualFileSystem σ} {renamed : Bool} :
      ((fs.removeEntry parent existing).withExtendedState state).renameFile oldPath newPath
        (fs.tree.inode source).nodeType = (renamed, after) →
      fs.renamePaths oldPath newPath = (if renamed then 0 else errEinval, after) :=
    renamePaths_of_replaceDestination h.texts_ne h.source_found h.deletes.kind
      h.replaceDestination_eq
  -- an error after the deletion leaves the new path without what it named
  have hfailed {state' : σ} (heq :
      ((fs.removeEntry parent existing).withExtendedState state).renameFile oldPath newPath
        (fs.tree.inode source).nodeType = (false,
          ((fs.removeEntry parent existing).withExtendedState state).withExtendedState state')) :
      ¬fs.AtomicResult (fs.renamePaths oldPath newPath) oldPath newPath := by
    intro hatomic
    rw [hend heq] at hatomic
    have herror : errEinval ≠ 0 := by decide
    exact h.lookup_cleared_ne (hatomic.failed herror true newPath)
  have hplanned (hclean : fs.ReplacesCleanly oldPath newPath source existing state) :
      ∃ move, ((fs.removeEntry parent existing).withExtendedState state).planRename oldPath newPath
        (fs.tree.inode source).nodeType = some (some move) := by
    obtain ⟨target, name, hmoves⟩ := h.moves hclean
    exact hmoves.exists_planRename_eq
  obtain hnone | ⟨hnothing, found, -, hnew, -⟩ | ⟨move, hmove, hmoves⟩ :=
    ((fs.removeEntry parent existing).withExtendedState state).planRename_cases oldPath newPath
      (fs.tree.inode source).nodeType
  · have heq : ((fs.removeEntry parent existing).withExtendedState state).renameFile oldPath
        newPath (fs.tree.inode source).nodeType = (false,
          ((fs.removeEntry parent existing).withExtendedState state).withExtendedState state) := by
      rw [renameFile, hnone]
      rfl
    refine iff_of_false (hfailed heq) fun hclean => ?_
    obtain ⟨move, hmove⟩ := hplanned hclean
    rw [hnone] at hmove
    cases hmove
  · rw [h.lookup_cleared] at hnew
    cases hnew
  · obtain ⟨hfalse, state', heq⟩ | ⟨htrue, state', heq⟩ := renameFile_of_planRename hmove hmoves
    · refine iff_of_false (hfailed heq) fun hclean => ?_
      exact absurd (hclean.extended.symm.trans hfalse) (by decide)
    · rw [hend heq]
      exact iff_of_true (atomicResult_of_moves h.cleared hmoves move.canMove)
        (h.replacesCleanly hmoves htrue)

/-- The rest of the call is atomic exactly when the rename is possible. -/
theorem atomicResult_renamePaths_iff :
    fs.AtomicResult (fs.renamePaths oldPath newPath) oldPath newPath ↔
      fs.RenamePossible oldPath newPath := by
  by_cases hne : cString oldPath = cString newPath
  · have hresult : fs.renamePaths oldPath newPath = (0, fs) := by rw [renamePaths, if_pos hne]
    rw [hresult]
    constructor
    · exact fun h => ⟨fun _ => (h.renamed rfl).named,
        fun _ _ _ _ hreplaces => absurd hne hreplaces.texts_ne⟩
    · exact fun h => atomicResult_of_same fs.extendedState (h.named hne)
        fun followFinal => lookupWith_congr hne.symm followFinal
  · constructor
    · exact fun h => ⟨fun heq => absurd heq hne,
        fun _ _ _ _ hreplaces => hreplaces.atomicResult_iff.mp h⟩
    · intro h
      obtain ⟨code, state, hcode, heq⟩ | ⟨source, cleared, hsource, hkind, hreplace, hcleared⟩ :=
        renamePaths_cases hne
      · rw [heq]
        exact atomicResult_of_failed hcode state
      obtain rfl | ⟨existing, parent, state, hreplaces, -⟩ := hcleared
      · rw [renamePaths_of_replaceDestination hne hsource hkind hreplace rfl]
        exact atomicResult_renameFile rfl
      · exact hreplaces.atomicResult_iff.mpr (h.replaced _ _ _ _ hreplaces)

theorem effectivePath_error {currentDirectory : Option ℕ} {code : ℤ}
    (h : fs.effectivePath currentDirectory path = .error code) : code ≠ 0 := by
  unfold effectivePath at h
  split at h
  · cases h
  split at h
  · cases h
    decide
  split at h
  · cases h
    decide
  split at h
  · cases h
    decide
  · cases h

theorem effectivePaths_error {currentDirectory : Option ℕ} {oldPath newPath : Option (List UInt8)}
    {code : ℤ} (h : fs.effectivePaths currentDirectory oldPath newPath = .error code) :
    code ≠ 0 := by
  unfold effectivePaths at h
  rcases oldPath with _ | oldPath
  · cases h
    decide
  rcases newPath with _ | newPath
  · cases h
    decide
  dsimp only at h
  split at h
  · cases h
    decide
  split at h
  · cases h
  next hold =>
    cases h
    exact effectivePath_error hold
  next hnew =>
    cases h
    exact effectivePath_error hnew

/-- The rename system call is atomic exactly when, for the paths that it takes, one that is named
twice names an entry and a destination that is deleted is replaced cleanly. -/
theorem renameAtomic_iff (fs : VirtualFileSystem σ) (currentDirectory : Option ℕ)
    (oldPath newPath : Option (List UInt8)) :
    fs.RenameAtomic currentDirectory oldPath newPath ↔
      ∀ oldText newText,
        fs.effectivePaths currentDirectory oldPath newPath = .ok (oldText, newText) →
        fs.RenamePossible oldText newText := by
  have hresult {oldText newText : List UInt8}
      (hpaths : fs.effectivePaths currentDirectory oldPath newPath = .ok (oldText, newText)) :
      fs.handleRenameSystemCall currentDirectory oldPath newPath =
        fs.renamePaths oldText newText := by
    rw [handleRenameSystemCall, hpaths]
  constructor
  · intro h oldText newText hpaths
    have hatomic := h.result oldText newText hpaths
    rw [hresult hpaths] at hatomic
    exact atomicResult_renamePaths_iff.mp hatomic
  · intro h
    refine ⟨fun code hcode => ?_, fun oldText newText hpaths => ?_⟩
    · rw [handleRenameSystemCall, hcode]
      exact ⟨effectivePaths_error hcode, rfl⟩
    · rw [hresult hpaths]
      exact atomicResult_renamePaths_iff.mpr (h oldText newText hpaths)

/-- A directory `d` with the files `a` and `b`. -/
def twoFilesDentry : ℕ → Dentry
  | 0 => { name := [], inode := { nodeType := .dir }, children := [1] }
  | 1 => { name := DentryTree.bytes ['d'], inode := { nodeType := .dir }, parent := some 0,
           children := [2, 3] }
  | 2 => { name := DentryTree.bytes ['a'], inode := { nodeType := .file }, parent := some 1 }
  | _ => { name := DentryTree.bytes ['b'], inode := { nodeType := .file }, parent := some 1 }

/-- The file system of these dentries, without an ext2 file system. -/
def twoFiles : VirtualFileSystem Unit where
  root := 0
  tree :=
    { dentry := twoFilesDentry
      parent_of_mem
        | 0, c, hc => by simp [twoFilesDentry] at hc; rw [hc]; rfl
        | 1, c, hc => by simp [twoFilesDentry] at hc; rcases hc with rfl | rfl <;> rfl
        | 2, c, hc => absurd hc List.not_mem_nil
        | _ + 3, c, hc => absurd hc List.not_mem_nil }
  usesVirtualHardLinks := fun _ => false
  extended := none
  extendedState := ()
  root_parent := rfl
  distinct
    | 0 => by decide
    | 1 => by decide
    | 2 => List.nodup_nil
    | _ + 3 => List.nodup_nil

/-- In the directory, renaming `a` to `./b` deletes `b` and fails. -/
theorem not_renameAtomic_dotPath :
    ¬twoFiles.RenameAtomic (some 1) (some (DentryTree.bytes ['a']))
      (some (DentryTree.bytes ['.', '/', 'b'])) := by
  intro h
  have hatomic := h.result (DentryTree.bytes ['/', 'd', '/', 'a'])
    (DentryTree.bytes ['/', 'd', '/', '.', '/', 'b']) (by decide +kernel)
  exact absurd (hatomic.failed (by decide +kernel) true (DentryTree.bytes ['/', 'd', '/', 'b']))
    (by decide +kernel)

end VirtualFileSystem

end TwistedOS
