import TwistedOS.Data.OrderedWalk
import TwistedOS.Files.UpdateSteps

/-!
# Traversals of the directories

`EnumerateEntries` descends into every record that leads to a directory, records with the names `.`
and `..` excepted, and a directory that cannot be read ends it. It is the ordered walk through these
records. The loop of `RenameFile` follows the records `..`. Neither remembers where it has been:
they end just when they do not come to a cycle, and a directory is entered once for every way to it.

## Main definitions

* `ExtendedFileSystemManager.enumerateEntries`, `ExtendedFileSystemManager.Enumeration`.
* `ExtendedFileSystemManager.subdirectories`, `ExtendedFileSystemManager.ParentStep`.
* `ExtendedFileSystemManager.TraversalTerminates`.

## Main results

* `ExtendedFileSystemManager.enumerateDirectoryEntries_eq`: the enumeration is a walk.
* `ExtendedFileSystemManager.traversalTerminates_iff`.
-/

namespace TwistedOS

/-- `ExtendedFileSystemEntry`. -/
structure ExtendedFileSystemEntry where
  name : List UInt8
  size : ℕ
  type : ExtendedFileSystemEntryType
  inodeNumber : ℕ
  deriving DecidableEq, Repr

/-- `DecodeEntryType`. -/
def decodeEntryType : ℕ → ExtendedFileSystemEntryType
  | 1 => .regularFile
  | 2 => .directory
  | 7 => .symbolicLink
  | _ => .other

namespace ExtendedFileSystemManager

open FallibleUpdate OrderedWalk Relation

variable (m : ExtendedFileSystemManager)

/-! ### The enumeration -/

/-- What an enumeration takes from a record. -/
structure DirectoryRecord where
  inode : ℕ
  type : ℕ
  name : List UInt8

/-- The record at an offset is enumerated. -/
def isEnumerated (data : ByteMemory) (offset : ℕ) : Bool :=
  decide (entryInode data offset ≠ 0) && decide (0 < entryNameLength data offset) &&
    decide (8 + entryNameLength data offset ≤ entryLength data offset) && !isDot data offset &&
      !isDotDot data offset

/-- The records of a block; there are none in a block that cannot be read. -/
def blockRecords (block : ℕ) : List DirectoryRecord :=
  if maxDiskOffset < block * m.blockSizeBytes then []
  else
    match m.partition.readBytesFromDisk m.disk (block * m.blockSizeBytes) m.blockSizeBytes with
    | none => []
    | some bytes =>
      let data := bufferOf bytes
      ((entryOffsets data m.blockSizeBytes 0).filter (isEnumerated data)).map fun offset =>
        ⟨entryInode data offset, entryType data offset,
          (entryName data offset).takeWhile (· ≠ 0)⟩

/-- The records of a directory that can be read. -/
def directoryRecords (directoryInode : ℕ) : Option (List DirectoryRecord) :=
  match m.fileSystem.readInode m.readable directoryInode with
  | none => none
  | some bytes =>
    if isDirectoryInode (bufferOf bytes) then
      some ((directBlocks (bufferOf bytes)).flatMap m.blockRecords)
    else none

/-- `ChildInodeData`. -/
def childInodeData (record : DirectoryRecord) : Option ByteMemory :=
  if record.inode ≤ m.inodesCount then
    (m.fileSystem.readInode m.readable record.inode).map bufferOf
  else none

/-- `IsDirectory`. -/
def isChildDirectory (record : DirectoryRecord) : Bool :=
  (m.childInodeData record).any isDirectoryInode

/-- `DecodedType`. -/
def decodedType (record : DirectoryRecord) : ExtendedFileSystemEntryType :=
  if decodeEntryType record.type = .other then
    if m.isChildDirectory record then .directory else .regularFile
  else decodeEntryType record.type

/-- `RecurseIntoDirectory`. -/
def recursesInto (record : DirectoryRecord) : Bool :=
  decide (m.decodedType record = .directory) || m.isChildDirectory record

/-- `FullPath`. -/
def fullPath (directoryPath name : List UInt8) : List UInt8 :=
  if 1 < directoryPath.length ∧ directoryPath.getLast? ≠ some 0x2F then
    directoryPath ++ 0x2F :: name
  else directoryPath ++ name

/-- The entry that is passed to the callback for a record. -/
def entryOf (directoryPath : List UInt8) (record : DirectoryRecord) : ExtendedFileSystemEntry where
  name := fullPath directoryPath record.name
  size := ((m.childInodeData record).map (·.load 4 4)).getD 0
  type := m.decodedType record
  inodeNumber := record.inode

/-- `ExtendedFileSystemEntryCallback`: whether to go on, and the new context. -/
abbrev EntryCallback (σ : Type) := ExtendedFileSystemEntry → σ → Bool × σ

/-- What an enumeration has done: the context, the directories that it has entered and its
result. -/
structure Enumeration (σ : Type) where
  context : σ
  entered : List ℕ
  result : Bool

variable {σ : Type} (callback : EntryCallback σ)

/-- The loops over the records of a directory. -/
def enumerateRecords (descend : ℕ → List UInt8 → σ → Option (Enumeration σ))
    (directoryPath : List UInt8) : List DirectoryRecord → σ → Option (Enumeration σ)
  | [], context => some ⟨context, [], true⟩
  | record :: records, context =>
    let entry := m.entryOf directoryPath record
    let called := callback entry context
    if called.1 && m.recursesInto record then
      match descend record.inode entry.name called.2 with
      | none => none
      | some below =>
        if below.result then
          (enumerateRecords descend directoryPath records below.context).map fun rest =>
            { rest with entered := below.entered ++ rest.entered }
        else some below
    else if called.1 then enumerateRecords descend directoryPath records called.2
    else some ⟨called.2, [], false⟩

/-- `EnumerateDirectoryEntries`, through at most `fuel` levels. -/
def enumerateDirectoryEntries : (fuel : ℕ) → ℕ → List UInt8 → σ → Option (Enumeration σ)
  | 0, _, _, _ => none
  | fuel + 1, directoryInode, directoryPath, context =>
    match m.directoryRecords directoryInode with
    | none => some ⟨context, [directoryInode], false⟩
    | some records =>
      (m.enumerateRecords callback (enumerateDirectoryEntries fuel) directoryPath records
        context).map fun rest => { rest with entered := directoryInode :: rest.entered }

/-- `EnumerateEntries`. -/
def enumerateEntries (fuel : ℕ) (context : σ) : Option (Enumeration σ) :=
  if !m.initialized then some ⟨context, [], false⟩
  else
    let called := callback ⟨[0x2F], 0, .directory, rootInodeNumber⟩ context
    if called.1 then m.enumerateDirectoryEntries callback fuel rootInodeNumber [0x2F] called.2
    else some ⟨called.2, [], false⟩

/-! ### The walk -/

/-- The directories into which the enumeration of a directory descends, in order. -/
def subdirectories (directoryInode : ℕ) : Option (List ℕ) :=
  (m.directoryRecords directoryInode).map fun records =>
    (records.filter m.recursesInto).map DirectoryRecord.inode

variable {m callback}

theorem enumerateRecords_eq (hcallback : ∀ entry context, (callback entry context).1 = true)
    {descend : ℕ → List UInt8 → σ → Option (Enumeration σ)} (w : ℕ → Option (List ℕ × Bool))
    (hdescend : ∀ inode path context,
      (descend inode path context).map (fun r => (r.entered, r.result)) = w inode)
    (directoryPath : List UInt8) (records : List DirectoryRecord) (context : σ) :
    (m.enumerateRecords callback descend directoryPath records context).map
        (fun r => (r.entered, r.result)) =
      walkAll w ((records.filter m.recursesInto).map DirectoryRecord.inode) := by
  induction records generalizing context with
  | nil => rfl
  | cons record records ih =>
    rw [enumerateRecords]
    rw [hcallback, Bool.true_and, List.filter_cons]
    by_cases hrecurse : m.recursesInto record = true
    · rw [if_pos hrecurse, if_pos hrecurse, List.map_cons, walkAll, ← hdescend record.inode
        (m.entryOf directoryPath record).name (callback (m.entryOf directoryPath record) context).2]
      rcases descend record.inode (m.entryOf directoryPath record).name
        (callback (m.entryOf directoryPath record) context).2 with _ | ⟨after, entered, _ | _⟩
      · rfl
      · rfl
      · rw [Option.map_some]
        dsimp only
        rw [if_pos rfl, ← ih after, Option.map_map, Option.map_map]
        rfl
    · rw [if_neg hrecurse, if_neg hrecurse, if_pos rfl]
      exact ih _

/-- With a callback that always goes on, the enumeration is the walk through the directories. -/
theorem enumerateDirectoryEntries_eq
    (hcallback : ∀ entry context, (callback entry context).1 = true) (fuel directoryInode : ℕ)
    (directoryPath : List UInt8) (context : σ) :
    (m.enumerateDirectoryEntries callback fuel directoryInode directoryPath context).map
        (fun r => (r.entered, r.result)) =
      walk m.subdirectories fuel directoryInode := by
  induction fuel generalizing directoryInode directoryPath context with
  | zero => rfl
  | succ fuel ih =>
    rw [enumerateDirectoryEntries, walk, subdirectories]
    rcases m.directoryRecords directoryInode with _ | records
    · rfl
    · have hrecords := enumerateRecords_eq hcallback (walk m.subdirectories fuel)
        (m := m) ih directoryPath records context
      dsimp only [Option.map_some]
      rw [← hrecords, Option.map_map, Option.map_map]
      rfl

theorem entryInode_lt (data : ByteMemory) (offset : ℕ) : entryInode data offset < 2 ^ 32 :=
  ByteMemory.load_lt data offset 4

/-- The directories that an enumeration can come to are finitely many. -/
theorem finite_reachable (x : ℕ) : {z | ReflTransGen (Step m.subdirectories) x z}.Finite := by
  refine ((Set.finite_singleton x).union (Set.finite_lt_nat (2 ^ 32))).subset fun z hz => ?_
  obtain rfl | ⟨y, -, cs, i, hcs, hget, -⟩ := ReflTransGen.cases_tail hz
  · exact .inl rfl
  · obtain ⟨records, hrecords, rfl⟩ := Option.map_eq_some_iff.mp hcs
    obtain ⟨record, hrecord, rfl⟩ := List.mem_map.mp (List.mem_of_getElem? hget)
    refine .inr ?_
    have hmem := List.mem_of_mem_filter hrecord
    rw [directoryRecords] at hrecords
    rcases hread : m.fileSystem.readInode m.readable y with _ | bytes
    · rw [hread] at hrecords
      cases hrecords
    rw [hread] at hrecords
    dsimp only at hrecords
    split_ifs at hrecords
    cases hrecords
    obtain ⟨block, -, hblock⟩ := List.mem_flatMap.mp hmem
    rw [blockRecords] at hblock
    split_ifs at hblock
    · exact absurd hblock List.not_mem_nil
    split at hblock
    · exact absurd hblock List.not_mem_nil
    · obtain ⟨offset, -, rfl⟩ := List.mem_map.mp hblock
      exact entryInode_lt _ _

/-! ### The parents -/

/-- The loop of `RenameFile` goes on from a directory to its parent. -/
structure ParentStep (m : ExtendedFileSystemManager) (target cursor parent : ℕ) : Prop where
  ne_target : cursor ≠ target
  ne_root : cursor ≠ rootInodeNumber
  found : ((getParentDirectoryInode cursor).runFrom m).1 = some parent
  ne_zero : parent ≠ 0
  ne_self : parent ≠ cursor

/-- The loop over the parents as a walk. -/
def ancestors (m : ExtendedFileSystemManager) (target cursor : ℕ) : Option (List ℕ) :=
  if cursor = target ∨ cursor = rootInodeNumber then none
  else
    match ((getParentDirectoryInode cursor).runFrom m).1 with
    | none => none
    | some parent => if parent = 0 ∨ parent = cursor then none else some [parent]

theorem ancestors_eq_some_iff {target cursor : ℕ} {cs : List ℕ} :
    m.ancestors target cursor = some cs ↔ ∃ parent, cs = [parent] ∧
      m.ParentStep target cursor parent := by
  rw [ancestors]
  constructor
  · intro h
    by_cases hends : cursor = target ∨ cursor = rootInodeNumber
    · rw [if_pos hends] at h
      cases h
    rw [if_neg hends] at h
    rcases hfound : ((getParentDirectoryInode cursor).runFrom m).1 with _ | parent
    · rw [hfound] at h
      cases h
    rw [hfound] at h
    dsimp only at h
    split_ifs at h with hlast
    cases h
    rw [not_or] at hends hlast
    exact ⟨parent, rfl, hends.1, hends.2, hfound, hlast.1, hlast.2⟩
  · rintro ⟨parent, rfl, h⟩
    rw [if_neg (not_or.mpr ⟨h.ne_target, h.ne_root⟩), h.found]
    dsimp only
    rw [if_neg (not_or.mpr ⟨h.ne_zero, h.ne_self⟩)]

theorem step_ancestors_iff {target cursor parent : ℕ} :
    Step (m.ancestors target) cursor parent ↔ m.ParentStep target cursor parent := by
  constructor
  · rintro ⟨cs, i, hcs, hget, -⟩
    obtain ⟨parent', rfl, hstep⟩ := ancestors_eq_some_iff.mp hcs
    obtain rfl := List.mem_singleton.mp (List.mem_of_getElem? hget)
    exact hstep
  · exact fun h => ⟨[parent], 0, ancestors_eq_some_iff.mpr ⟨parent, rfl, h⟩, rfl, by simp⟩

/-- Where the walk does not go on, the loop ends. -/
theorem ancestorCheck_ne_none_of_ancestors {target fuel cursor : ℕ}
    (h : m.ancestors target cursor = none) : m.ancestorCheck target (fuel + 1) cursor ≠ none := by
  rw [ancestorCheck]
  by_cases htarget : cursor = target
  · rw [if_pos htarget]
    exact Option.some_ne_none _
  by_cases hroot : cursor = rootInodeNumber
  · rw [if_neg htarget, if_pos hroot]
    exact Option.some_ne_none _
  rw [ancestors, if_neg (not_or.mpr ⟨htarget, hroot⟩)] at h
  rw [if_neg htarget, if_neg hroot]
  rcases hfound : ((getParentDirectoryInode cursor).runFrom m).1 with _ | parent
  · exact Option.some_ne_none _
  · rw [hfound] at h
    dsimp only at h ⊢
    split_ifs at h with hlast
    rw [if_pos hlast]
    exact Option.some_ne_none _

/-- The loop over the parents ends when the walk does. -/
theorem ancestorCheck_eq_none_iff {target fuel cursor : ℕ} :
    m.ancestorCheck target fuel cursor = none ↔
      walk (m.ancestors target) fuel cursor = none := by
  induction fuel generalizing cursor with
  | zero => exact iff_of_true rfl rfl
  | succ fuel ih =>
    rcases hancestors : m.ancestors target cursor with _ | cs
    · rw [walk_of_none hancestors]
      exact iff_of_false (ancestorCheck_ne_none_of_ancestors hancestors) (Option.some_ne_none _)
    · obtain ⟨parent, rfl, hstep⟩ := ancestors_eq_some_iff.mp hancestors
      rw [walk_of_some hancestors, ancestorCheck, if_neg hstep.ne_target, if_neg hstep.ne_root,
        hstep.found]
      dsimp only
      rw [if_neg (not_or.mpr ⟨hstep.ne_zero, hstep.ne_self⟩), ih, Option.map_eq_none_iff, walkAll]
      rcases walk (m.ancestors target) fuel parent with _ | ⟨entered, _ | _⟩
      · exact iff_of_true rfl rfl
      · exact iff_of_false (Option.some_ne_none _) (Option.some_ne_none _)
      · exact iff_of_false (Option.some_ne_none _) (Option.some_ne_none _)

/-- The parent of a directory is an inode number. -/
theorem ParentStep.lt {target cursor parent : ℕ} (hinit : m.initialized = true)
    (h : m.ParentStep target cursor parent) : parent < 2 ^ 32 := by
  have hyields : (getParentDirectoryInode cursor).Yields m parent
      ((getParentDirectoryInode cursor).runFrom m).2 := Prod.ext h.found rfl
  rw [getParentDirectoryInode, yields_get_bind, yields_bind] at hyields
  obtain ⟨blocks, m₁, hblocks, hyields⟩ := hyields
  obtain ⟨-, -, -, -, rfl⟩ := yields_directoryBlocks.mp hblocks
  obtain ⟨_ | ⟨block, found⟩, m₂, hfound, hyields⟩ := yields_bind.mp hyields
  · exact absurd hyields not_yields_failure
  obtain ⟨rfl, -⟩ := yields_pure.mp hyields
  obtain ⟨-, -, hsearch⟩ := yields_searchBlocks_some hinit hfound
  obtain ⟨offset, -, rfl⟩ := Option.map_eq_some_iff.mp hsearch
  exact entryInode_lt _ _

theorem finite_parents (hinit : m.initialized = true) (target x : ℕ) :
    {z | ReflTransGen (Step (m.ancestors target)) x z}.Finite := by
  refine ((Set.finite_singleton x).union (Set.finite_lt_nat (2 ^ 32))).subset fun z hz => ?_
  obtain rfl | ⟨y, -, hstep⟩ := ReflTransGen.cases_tail hz
  · exact .inl rfl
  · exact .inr ((step_ancestors_iff.mp hstep).lt hinit)

/-- The loop over the parents ends just when they do not come to a cycle. -/
theorem exists_ancestorCheck_iff (hinit : m.initialized = true) (target cursor : ℕ) :
    (∃ fuel r, m.ancestorCheck target fuel cursor = some r) ↔
      ¬ ∃ c, ReflTransGen (m.ParentStep target) cursor c ∧ TransGen (m.ParentStep target) c c := by
  have hstep : Step (m.ancestors target) = m.ParentStep target := by
    funext x y
    exact propext step_ancestors_iff
  rw [← hstep, ← diverges_iff (finite_parents hinit target cursor), Diverges, not_forall]
  refine exists_congr fun fuel => ?_
  rw [← Option.ne_none_iff_exists', ne_eq, ancestorCheck_eq_none_iff]

/-! ### Termination -/

/-- The parents of the new parent of a planned rename come to a cycle. -/
def HasParentCycle (m : ExtendedFileSystemManager) (oldPath newPath : List UInt8) : Prop :=
  ∃ plan, ((planRename oldPath newPath .directory).runFrom m).1 = some (some plan) ∧
    ∃ c, ReflTransGen (m.ParentStep plan.targetInode) plan.newParent c ∧
      TransGen (m.ParentStep plan.targetInode) c c

/-- `EnumerateEntries` with a callback that always returns true, and `RenameFile`, return after
finitely many steps; no directory is entered more often than there are inodes. -/
structure TraversalTerminates (m : ExtendedFileSystemManager) : Prop where
  enumerates : ∀ (σ : Type) (callback : EntryCallback σ),
    (∀ entry context, (callback entry context).1 = true) → ∀ context, ∃ fuel r,
      m.enumerateEntries callback fuel context = some r ∧
        ∀ directory, r.entered.count directory ≤ m.inodesCount
  renames : ∀ oldPath newPath type, ∃ fuel r, m.renameFile fuel oldPath newPath type = some r

/-- An enumeration ends, with every directory entered at most as often as there are inodes, just
when there are at most as many ways to it. -/
theorem exists_enumerateEntries_iff {callback : EntryCallback σ}
    (hcallback : ∀ entry context, (callback entry context).1 = true) (context : σ) :
    (∃ fuel r, m.enumerateEntries callback fuel context = some r ∧
        ∀ directory, r.entered.count directory ≤ m.inodesCount) ↔
      (m.initialized = true → ∀ directory,
        (ways m.subdirectories rootInodeNumber directory).encard ≤ m.inodesCount) := by
  by_cases hinit : m.initialized = true
  · rw [forall_prop_of_true hinit, ← exists_walk_iff (finite_reachable rootInodeNumber)]
    refine exists_congr fun fuel => ?_
    rw [enumerateEntries, if_neg (by simp [hinit])]
    dsimp only
    rw [if_pos (hcallback _ _), ← enumerateDirectoryEntries_eq hcallback fuel rootInodeNumber [0x2F]
      (callback ⟨[0x2F], 0, .directory, rootInodeNumber⟩ context).2]
    constructor
    · rintro ⟨r, hr, hcount⟩
      exact ⟨(r.entered, r.result), by rw [hr]; rfl, hcount⟩
    · rintro ⟨entered, hentered, hcount⟩
      obtain ⟨r, hr, rfl⟩ := Option.map_eq_some_iff.mp hentered
      exact ⟨r, hr, hcount⟩
  · refine iff_of_true ⟨0, ⟨context, [], false⟩, ?_, fun directory => ?_⟩ fun h => absurd h hinit
    · rw [enumerateEntries, if_pos (by simp [hinit])]
    · exact Nat.zero_le _

/-- What has been planned has been planned over an initialized manager. -/
theorem initialized_of_planRename {oldPath newPath : List UInt8}
    {type : ExtendedFileSystemEntryType} {plan : Option RenamePlan}
    (h : ((planRename oldPath newPath type).runFrom m).1 = some plan) : m.initialized = true := by
  have hyields : (planRename oldPath newPath type).Yields m plan
      ((planRename oldPath newPath type).runFrom m).2 := Prod.ext h rfl
  rw [planRename, yields_guard_bind, yields_get_bind, yields_guard_bind] at hyields
  have husable := hyields.2.1
  simp only [isUsable, Bool.and_eq_true] at husable
  exact husable.1.1.1.1

theorem exists_renameFile_iff (oldPath newPath : List UInt8)
    (type : ExtendedFileSystemEntryType) :
    (∃ fuel r, m.renameFile fuel oldPath newPath type = some r) ↔
      (type = .directory → ¬ m.HasParentCycle oldPath newPath) := by
  rcases hplan : ((planRename oldPath newPath type).runFrom m).1 with _ | _ | plan
  · refine iff_of_true ⟨0, (none, m), by rw [renameFile, hplan]⟩ ?_
    rintro rfl ⟨plan, hplan', -⟩
    rw [hplan] at hplan'
    cases hplan'
  · refine iff_of_true ⟨0, (some (), m), by rw [renameFile, hplan]⟩ ?_
    rintro rfl ⟨plan, hplan', -⟩
    rw [hplan] at hplan'
    cases hplan'
  have hinit := initialized_of_planRename hplan
  by_cases htype : type = .directory
  · subst htype
    have hcycle : m.HasParentCycle oldPath newPath ↔
        ∃ c, ReflTransGen (m.ParentStep plan.targetInode) plan.newParent c ∧
          TransGen (m.ParentStep plan.targetInode) c c := by
      constructor
      · rintro ⟨plan', hplan', h⟩
        rw [hplan] at hplan'
        cases hplan'
        exact h
      · exact fun h => ⟨plan, hplan, h⟩
    rw [forall_prop_of_true rfl, hcycle, ← exists_ancestorCheck_iff hinit]
    refine exists_congr fun fuel => ?_
    simp only [renameFile, hplan, if_pos]
    rcases m.ancestorCheck plan.targetInode fuel plan.newParent with _ | _ | _ <;> simp
  · refine iff_of_true ⟨0, (performRename plan type).runFrom m, ?_⟩ fun h => absurd h htype
    simp only [renameFile, hplan, if_neg htype]

/-- A callback that always returns true. -/
def alwaysContinue : EntryCallback Unit := fun _ _ => (true, ())

/-- Traversals end just when every directory is reached from the root along at most as many ways as
there are inodes and the parents of no planned rename come to a cycle. -/
theorem traversalTerminates_iff (m : ExtendedFileSystemManager) : m.TraversalTerminates ↔
    (m.initialized = true → ∀ directory,
      (ways m.subdirectories rootInodeNumber directory).encard ≤ m.inodesCount) ∧
    ∀ oldPath newPath, ¬ m.HasParentCycle oldPath newPath := by
  constructor
  · intro h
    refine ⟨?_, fun oldPath newPath => ?_⟩
    · have hcallback : ∀ entry context, (alwaysContinue entry context).1 = true := fun _ _ => rfl
      exact (exists_enumerateEntries_iff hcallback ()).mp (h.enumerates Unit _ hcallback ())
    · exact (exists_renameFile_iff oldPath newPath .directory).mp
        (h.renames oldPath newPath .directory) rfl
  · rintro ⟨hways, hcycles⟩
    exact ⟨fun σ callback hcallback context =>
      (exists_enumerateEntries_iff hcallback context).mpr hways,
      fun oldPath newPath type => (exists_renameFile_iff oldPath newPath type).mpr
        fun _ => hcycles oldPath newPath⟩

/-- The directories `/a`, `/b` and `/t`, where the parent of `/a` is `/b` and the parent of `/b` is
`/a`, and a record `/c` that leads back to the root. -/
def loopImage : ByteMemory :=
  let zeros : ByteMemory := fun _ => 0
  let inode : ℕ → ByteMemory := fun n =>
    if n = 2 then smallInode 0x41ED 1024 5 7
    else if n = 11 then smallInode 0x41ED 1024 2 8
    else if n = 12 then smallInode 0x41ED 1024 2 9
    else if n = 13 then smallInode 0x41ED 1024 2 10
    else zeros
  let root := writeEntry (writeEntry (writeEntry (writeEntry
    ((newDirectoryBlock 1024 2 2).store 16 2 12) 24 12 2 2 [0x63]) 36 12 11 2 [0x61])
      48 12 12 2 [0x62]) 60 964 13 2 [0x74]
  imageOfBlocks [zeros, smallSuperblock 6 3, smallDescriptor 6 3 4, zeros.store 0 2 0x03FF,
    zeros.store 0 2 0x1FFF, smallInodeBlock inode 1, smallInodeBlock inode 9, root,
    newDirectoryBlock 1024 11 12, newDirectoryBlock 1024 12 11, newDirectoryBlock 1024 13 2]

/-- What `Initialize` makes of the image. -/
def loopManager : ExtendedFileSystemManager :=
  (initializeFrom smallPartition loopImage).get (by decide +kernel)

theorem not_traversalTerminates_loopManager :
    (∀ fuel, loopManager.enumerateEntries alwaysContinue fuel () = none) ∧
    (∀ fuel, loopManager.renameFile fuel [0x2F, 0x74] [0x2F, 0x61, 0x2F, 0x74] .directory = none) ∧
    ¬ loopManager.TraversalTerminates := by
  have henumerate : ∀ fuel, loopManager.enumerateEntries alwaysContinue fuel () = none := by
    have hcycle : TransGen (Step loopManager.subdirectories) rootInodeNumber rootInodeNumber :=
      .single ⟨[2, 11, 12, 13], 0, by decide +kernel, rfl, List.forall_mem_nil _⟩
    have hcallback : ∀ entry context, (alwaysContinue entry context).1 = true := fun _ _ => rfl
    intro fuel
    have hwalk := diverges_of_cycle hcycle fuel
    rw [← enumerateDirectoryEntries_eq hcallback fuel rootInodeNumber [0x2F] (),
      Option.map_eq_none_iff] at hwalk
    rw [enumerateEntries, if_neg (by decide +kernel)]
    exact hwalk
  refine ⟨henumerate, fun fuel => ?_, fun h => ?_⟩
  · have hplan : ((planRename [0x2F, 0x74] [0x2F, 0x61, 0x2F, 0x74] .directory).runFrom
        loopManager).1 = some (some ⟨2, [0x74], 11, [0x74], 13⟩) := by decide +kernel
    have hfirst : loopManager.ParentStep 13 11 12 :=
      ⟨by decide, by decide, by decide +kernel, by decide, by decide⟩
    have hsecond : loopManager.ParentStep 13 12 11 :=
      ⟨by decide, by decide, by decide +kernel, by decide, by decide⟩
    have hcycle : TransGen (loopManager.ParentStep 13) 11 11 := .tail (.single hfirst) hsecond
    have hnone : loopManager.ancestorCheck 13 fuel 11 = none := by
      by_contra hsome
      exact (exists_ancestorCheck_iff (by decide +kernel) 13 11).mp
        ⟨fuel, Option.ne_none_iff_exists'.mp hsome⟩ ⟨11, .refl, hcycle⟩
    simp only [renameFile, hplan, if_pos, hnone]
  · obtain ⟨fuel, r, hr, -⟩ := h.enumerates Unit alwaysContinue (fun _ _ => rfl) ()
    rw [henumerate fuel] at hr
    cases hr

end ExtendedFileSystemManager

end TwistedOS
