import TwistedOS.Files.FileContents
import TwistedOS.UserMemory.MappingContents

/-!
# Mappings of regular files

`mmap` copies a regular file into new pages: from the buffer of its inode, from the blocks on the
disk, or with the read operation of the file when the disk cannot be read at once. A read from the
disk that fails may have filled some of the pages already, and the pages held anything before. At
most `length` bytes are copied; the rest of the last page is cleared also where the file goes on.

## Main definitions

* `FileStore.populate`: the copy of a file into the pages of a mapping.
* `FileStore.toOpenFile`: a descriptor of the file, for `UserMemory.handleMmap`.
* `FileStore.ShowsFile`, `FileStore.ShowsRequested`: what the pages hold.

## Main results

* `FileStore.mmap_showsRequested`.
-/

namespace TwistedOS

open UserMemory

/-- What a mapping gets from the rest of the kernel: what the pages held, the sectors that the
controller reads for the range, what a read of the range that fails leaves behind, and what each
call of the read operation gets. -/
structure MappingResources where
  garbage : ℕ → UInt8 := fun _ => 0
  range : KernelResources := {}
  leftover : List UInt8 := []
  reads : ℕ → KernelResources := fun _ => {}

/-- `kmemset` with zeros. -/
def clearBytes (buffer : List UInt8) (offset count : ℕ) : List UInt8 :=
  copyInto buffer offset (List.replicate count 0)

namespace FileINode

variable (node : FileINode) (resources : MappingResources)

/-- `BytesToPopulate`. -/
def bytesToPopulate (offset length : ℕ) : ℕ :=
  if offset < node.nodeSize then min length (node.nodeSize - offset) else 0

/-- The copy from the buffer or from the disk: `FastPathSuccess`, and the pages. -/
def populateFast (offset count : ℕ) (pages : List UInt8) : Bool × List UInt8 :=
  match node.nodeData, node.lazyLoadContext with
  | some data, _ => (true, copyInto pages 0 ((data.drop offset).take count))
  | none, none => (false, pages)
  | none, some fs =>
    if node.isLazyLoad ∧ node.backingInodeNumber ≠ 0 then
      match fs.loadInodeDataRange resources.range.readable node.backingInodeNumber offset count with
      | none => (false, copyInto pages 0 (resources.leftover.take count))
      | some bytes => (true, copyInto pages 0 bytes)
    else (false, pages)

/-- The reads from the disk find the blocks of a range of the file. -/
structure FindsRange (offset count : ℕ) : Prop where
  range : ∀ fs ∈ node.lazyLoadContext,
    fs.FindsBlocks resources.range.readable node.backingInodeNumber offset count
  reads : ∀ round, node.ReadsExactly (resources.reads round) offset count

end FileINode

namespace FileStore

variable (store : FileStore)

/-- Sets `CurrentOffset` of a file. -/
def setOffset (file offset : ℕ) : FileStore :=
  match store.files file with
  | none => store
  | some opened => store.setFile file (some { opened with currentOffset := offset })

/-- The loop over the read operation: the bytes that are still missing, and the pages. The call with
number `round` is the next one, and `done` is the number of bytes that have been read. -/
def readLoop (reads : ℕ → KernelResources) (file round done remaining : ℕ) (pages : List UInt8)
    (store : FileStore) : Except ℤ (ℕ × List UInt8) × FileStore :=
  if remaining = 0 then (.ok (0, pages), store)
  else
    match store.read file remaining (reads round) with
    | (.error error, after) => (.error error, after)
    | (.ok bytes, after) =>
      if bytes = [] then (.ok (remaining, pages), after)
      else
        readLoop reads file (round + 1) (done + bytes.length) (remaining - bytes.length)
          (copyInto pages done bytes) after
  termination_by remaining
  decreasing_by
    have := List.length_pos_iff.mpr ‹_›
    omega

/-- The read operation from an offset on, with `CurrentOffset` set back in the end. -/
def populateByReading (reads : ℕ → KernelResources) (file originalOffset offset count : ℕ)
    (pages : List UInt8) : Except ℤ (List UInt8) × FileStore :=
  match readLoop reads file 0 0 count pages (store.setOffset file offset) with
  | (.error error, after) => (.error error, after.setOffset file originalOffset)
  | (.ok (remaining, pages), after) =>
    (.ok (clearBytes pages (count - remaining) remaining), after.setOffset file originalOffset)

/-- The bytes of the file in the pages. -/
def populateBytes (resources : MappingResources) (file : ℕ) (opened : FileEntry)
    (offset count : ℕ) (pages : List UInt8) : Except ℤ (List UInt8) × FileStore :=
  if count = 0 then (.ok pages, store)
  else
    match (store.nodes opened.node).populateFast resources offset count pages with
    | (true, pages) => (.ok pages, store)
    | (false, pages) =>
      store.populateByReading resources.reads file opened.currentOffset offset count pages

/-- The part of `HandleMmapSystemCall` between the allocation and the mapping of the pages: what the
pages hold, and the files afterwards. -/
def populate (resources : MappingResources) (file offset length : ℕ) :
    Except ℤ (List UInt8) × FileStore :=
  match store.files file with
  | none => (.error FileError.ebadf, store)
  | some opened =>
    let mappingLength := alignUpToPageBoundary length
    let count := (store.nodes opened.node).bytesToPopulate offset length
    match store.populateBytes resources file opened offset count
      ((List.range mappingLength).map resources.garbage) with
    | (.error error, after) => (.error error, after)
    | (.ok pages, after) =>
      (.ok (if count < mappingLength then clearBytes pages count (mappingLength - count)
        else pages), after)

/-- The words of the pages, or the error of the read operation. -/
def populatedWords : Except ℤ (List UInt8) → Except LinuxError (ℕ → ℕ)
  | .error error => .error (.fileError error.natAbs)
  | .ok pages =>
    .ok fun w => PhysicalMemoryManager.packWord (fun i => pages.getD (8 * w + i) 0) 8

/-- A descriptor of a regular file, whose `MemoryMap` returns `LINUX_ERR_ENOSYS`. -/
def toOpenFile (resources : MappingResources) (file : ℕ) : OpenFile where
  memoryMap := some .notImplemented
  hasRead := true
  populate offset length := populatedWords (store.populate resources file offset length).1

/-- What a mapping should hold: the bytes of the file, and zeros behind its end. -/
def ShowsFile (content : List UInt8) (offset length : ℕ) (byteAt : ℕ → Option UInt8) : Prop :=
  ∀ i < alignUpToPageBoundary length, byteAt i =
    some (if offset + i < content.length then content.getD (offset + i) 0 else 0)

/-- What a mapping holds: the bytes of the file that were asked for, and zeros behind them. -/
def ShowsRequested (content : List UInt8) (offset length : ℕ) (byteAt : ℕ → Option UInt8) : Prop :=
  ∀ i < alignUpToPageBoundary length, byteAt i =
    some (if i < length ∧ offset + i < content.length then content.getD (offset + i) 0 else 0)

end FileStore

/-! ### Buffers -/

section Buffers

variable {buffer bytes : List UInt8} {offset i n : ℕ}

theorem clearBytes_zero : clearBytes buffer offset 0 = buffer := by
  rw [clearBytes, copyInto, List.replicate_zero, List.append_nil, List.length_nil, Nat.add_zero,
    List.take_append_drop]

theorem length_clearBytes (h : offset + n ≤ buffer.length) :
    (clearBytes buffer offset n).length = buffer.length :=
  length_copyInto (by rwa [List.length_replicate])

theorem getD_clearBytes (h : offset + n ≤ buffer.length) :
    (clearBytes buffer offset n).getD i 0 =
      if offset ≤ i ∧ i < offset + n then 0 else buffer.getD i 0 := by
  rw [clearBytes, getD_copyInto (by rwa [List.length_replicate]), List.length_replicate,
    List.getD_eq_getElem?_getD, List.getElem?_getD_replicate_default_eq]

end Buffers

namespace FileINode

variable {node : FileINode} {content pages shown : List UInt8} {resources : MappingResources}
  {offset length count : ℕ}

theorem Holds.bytesToPopulate_eq (h : node.Holds content) (offset length : ℕ) :
    node.bytesToPopulate offset length = min length (content.length - offset) := by
  rw [bytesToPopulate, h.nodeSize_eq]
  split_ifs with hoffset
  · rfl
  · omega

/-- A copy that succeeds is one of the bytes of the file. -/
theorem Holds.populateFast (h : node.Holds content) (hfinds : node.FindsRange resources offset count)
    (hne : content ≠ [])
    (hrun : node.populateFast resources offset count pages = (true, shown)) :
    shown = copyInto pages 0 ((content.drop offset).take count) := by
  rw [FileINode.populateFast] at hrun
  rcases hdata : node.nodeData with _ | data
  · rcases hcontext : node.lazyLoadContext with _ | fs
    · simp [hdata, hcontext] at hrun
    · rw [hdata, hcontext] at hrun
      dsimp only at hrun
      split_ifs at hrun with hlazy
      rcases hload : fs.loadInodeDataRange resources.range.readable node.backingInodeNumber offset
        count with _ | bytes
      · simp [hload] at hrun
      · rw [hload] at hrun
        obtain ⟨fs', hcontext', -, hdisk⟩ := h.backed hlazy.1
        obtain rfl := Option.some.inj (hcontext.symm.trans hcontext')
        rw [hdisk hdata hne, ← fs.loadInodeDataRange_eq (hfinds.range fs hcontext) hload]
        exact (Prod.mk.inj hrun).2.symm
      · simp at hrun
  · rw [hdata] at hrun
    rw [← h.nodeData_eq data hdata]
    exact (Prod.mk.inj hrun).2.symm

/-- A copy that fails leaves as many bytes behind. -/
theorem length_populateFast (hcount : count ≤ pages.length)
    (hrun : node.populateFast resources offset count pages = (false, shown)) :
    shown.length = pages.length := by
  rw [FileINode.populateFast] at hrun
  rcases hdata : node.nodeData with _ | data
  · rcases hcontext : node.lazyLoadContext with _ | fs
    · rw [hdata, hcontext] at hrun
      rw [(Prod.mk.inj hrun).2]
    · rw [hdata, hcontext] at hrun
      dsimp only at hrun
      split_ifs at hrun
      · rcases hload : fs.loadInodeDataRange resources.range.readable node.backingInodeNumber offset
          count with _ | bytes
        · rw [hload] at hrun
          rw [← (Prod.mk.inj hrun).2]
          refine length_copyInto ?_
          rw [List.length_take]
          omega
        · simp [hload] at hrun
      · rw [(Prod.mk.inj hrun).2]
  · simp [hdata] at hrun

end FileINode

namespace FileStore

variable {store after : FileStore} {opened : FileEntry} {resources : MappingResources}
  {reads : ℕ → KernelResources} {file round done offset length count remaining : ℕ}
  {content pages shown : List UInt8}

/-! ### The offset of the descriptor -/

theorem setOffset_files (offset : ℕ) (hfile : store.files file = some opened) :
    (store.setOffset file offset).files =
      Function.update store.files file (some { opened with currentOffset := offset }) := by
  rw [setOffset, hfile]
  rfl

theorem setOffset_nodes : (store.setOffset file offset).nodes = store.nodes := by
  rw [setOffset]
  split <;> rfl

/-- A read moves the offset of its file and changes no other file. -/
theorem read_files (hfile : store.files file = some opened) (count : ℕ)
    (resources : KernelResources) : ∃ moved, (store.read file count resources).2.files =
      Function.update store.files file (some { opened with currentOffset := moved }) := by
  rw [FileStore.read, hfile]
  dsimp only
  rcases (store.nodes opened.node).read resources opened.currentOffset count with
    ⟨error | bytes, node⟩
  · refine ⟨opened.currentOffset, ?_⟩
    rw [← hfile, Function.update_eq_self]
    rfl
  · exact ⟨_, rfl⟩

/-- The loop over the read operation moves the offset of its file and changes no other file. -/
theorem readLoop_files (reads : ℕ → KernelResources) (round done remaining : ℕ)
    (pages : List UInt8) (hfile : store.files file = some opened) :
    ∃ moved, (readLoop reads file round done remaining pages store).2.files =
      Function.update store.files file (some { opened with currentOffset := moved }) := by
  induction remaining using Nat.strong_induction_on
    generalizing round done pages store opened with
  | _ remaining ih =>
    have hstays : ∃ moved, store.files =
        Function.update store.files file (some { opened with currentOffset := moved }) := by
      refine ⟨opened.currentOffset, ?_⟩
      rw [← hfile, Function.update_eq_self]
    obtain ⟨moved, hmoved⟩ := read_files hfile remaining (reads round)
    rw [readLoop]
    split_ifs with hdone
    · exact hstays
    rcases hread : store.read file remaining (reads round) with ⟨error | bytes, after⟩
    · rw [hread] at hmoved
      exact ⟨moved, hmoved⟩
    · rw [hread] at hmoved
      dsimp only at hmoved ⊢
      split_ifs with hempty
      · exact ⟨moved, hmoved⟩
      · have hafter : after.files file = some { opened with currentOffset := moved } := by
          rw [hmoved, Function.update_self]
        have hshorter : remaining - bytes.length < remaining := by
          have := List.length_pos_iff.mpr hempty
          omega
        obtain ⟨last, hlast⟩ := ih _ hshorter _ _ _ hafter
        refine ⟨last, ?_⟩
        rw [hlast, hmoved, Function.update_idem]

theorem setOffset_files_back {moved : ℕ} (hfile : store.files file = some opened)
    (hmoved : after.files =
      Function.update store.files file (some { opened with currentOffset := moved })) :
    (after.setOffset file opened.currentOffset).files = store.files := by
  have hafter : after.files file = some { opened with currentOffset := moved } := by
    rw [hmoved, Function.update_self]
  rw [setOffset_files _ hafter, hmoved, Function.update_idem, ← hfile, Function.update_eq_self]

theorem populateByReading_files (hfile : store.files file = some opened) :
    (store.populateByReading reads file opened.currentOffset offset count pages).2.files =
      store.files := by
  have hset := setOffset_files offset hfile
  have hopened : (store.setOffset file offset).files file =
      some { opened with currentOffset := offset } := by
    rw [hset, Function.update_self]
  obtain ⟨moved, hmoved⟩ := readLoop_files reads 0 0 count pages hopened
  rw [hset, Function.update_idem] at hmoved
  rw [populateByReading]
  rcases hloop : readLoop reads file 0 0 count pages (store.setOffset file offset) with
    ⟨error | ⟨missing, shown⟩, after⟩
  · rw [hloop] at hmoved
    exact setOffset_files_back hfile hmoved
  · rw [hloop] at hmoved
    exact setOffset_files_back hfile hmoved

/-- No descriptor has another offset after the copy, whether it succeeds or not. -/
theorem populate_files : (store.populate resources file offset length).2.files = store.files := by
  rw [populate]
  rcases hfile : store.files file with _ | opened
  · rfl
  dsimp only
  generalize (List.range (alignUpToPageBoundary length)).map resources.garbage = pages
  generalize (store.nodes opened.node).bytesToPopulate offset length = count
  have hbytes : (store.populateBytes resources file opened offset count pages).2.files =
      store.files := by
    rw [populateBytes]
    split_ifs
    · rfl
    rcases (store.nodes opened.node).populateFast resources offset count pages with
      ⟨_ | _, shown⟩
    · exact populateByReading_files hfile
    · rfl
  rcases hrun : store.populateBytes resources file opened offset count pages with
    ⟨error | shown, after⟩
  · rw [hrun] at hbytes
    exact hbytes
  · rw [hrun] at hbytes
    exact hbytes

/-! ### The pages -/

section

variable (hfile : store.files file = some opened) (hholds : (store.nodes opened.node).Holds content)

include hfile hholds

/-- The first call of the read operation gives all bytes of the range. -/
theorem readLoop_eq
    (hreads : (store.nodes opened.node).ReadsExactly (reads 0) opened.currentOffset count)
    (hcount : count ≠ 0) (hle : opened.currentOffset + count ≤ content.length) {missing : ℕ}
    (hrun : readLoop reads file 0 0 count pages store = (.ok (missing, shown), after)) :
    missing = 0 ∧
      shown = copyInto pages 0 ((content.drop opened.currentOffset).take count) := by
  have hlength : ((content.drop opened.currentOffset).take count).length = count := by
    rw [List.length_take, List.length_drop]
    omega
  rw [readLoop, if_neg hcount, FileStore.read, hfile] at hrun
  dsimp only at hrun
  obtain ⟨-, hbytes⟩ := hholds.read hreads
  rcases hread : (store.nodes opened.node).read (reads 0) opened.currentOffset count with
    ⟨error | bytes, node⟩
  · simp [hread] at hrun
  · rw [hread] at hrun hbytes
    obtain rfl := hbytes bytes rfl
    dsimp only at hrun
    rw [if_neg (List.ne_nil_of_length_pos (by omega)), readLoop, if_pos (by omega)] at hrun
    obtain ⟨hresult, -⟩ := Prod.mk.inj hrun
    obtain ⟨hmissing, hshown⟩ := Prod.mk.inj (Except.ok.inj hresult)
    exact ⟨hmissing.symm, hshown.symm⟩

theorem populateByReading_eq
    (hreads : (store.nodes opened.node).ReadsExactly (reads 0) offset count) (hcount : count ≠ 0)
    (hle : offset + count ≤ content.length)
    (hrun : store.populateByReading reads file opened.currentOffset offset count pages =
      (.ok shown, after)) : shown = copyInto pages 0 ((content.drop offset).take count) := by
  have hopened : (store.setOffset file offset).files file =
      some { opened with currentOffset := offset } := by
    rw [setOffset_files _ hfile, Function.update_self]
  rw [populateByReading] at hrun
  rcases hloop : readLoop reads file 0 0 count pages (store.setOffset file offset) with
    ⟨error | ⟨missing, read⟩, last⟩
  · simp [hloop] at hrun
  · rw [hloop] at hrun
    obtain ⟨rfl, rfl⟩ := readLoop_eq hopened (by rwa [setOffset_nodes])
      (by rwa [setOffset_nodes]) hcount hle hloop
    dsimp only at hrun
    rw [clearBytes_zero] at hrun
    exact (Except.ok.inj (Prod.mk.inj hrun).1).symm

/-- The bytes of the file are at the start of the pages, whichever way they were copied. -/
theorem populateBytes_eq (hfinds : (store.nodes opened.node).FindsRange resources offset count)
    (hpages : count ≤ pages.length) (hle : count ≠ 0 → offset + count ≤ content.length)
    (hrun : store.populateBytes resources file opened offset count pages = (.ok shown, after)) :
    ∃ before : List UInt8, before.length = pages.length ∧
      shown = copyInto before 0 ((content.drop offset).take count) := by
  rw [populateBytes] at hrun
  split_ifs at hrun with hcount
  · refine ⟨pages, rfl, ?_⟩
    rw [hcount, List.take_zero, copyInto, List.take_zero, List.append_nil, List.nil_append,
      List.length_nil, List.drop_zero]
    exact (Except.ok.inj (Prod.mk.inj hrun).1).symm
  have hne : content ≠ [] := by
    rintro rfl
    have := hle hcount
    rw [List.length_nil] at this
    omega
  rcases hfast : (store.nodes opened.node).populateFast resources offset count pages with
    ⟨_ | _, copied⟩
  · rw [hfast] at hrun
    exact ⟨copied, FileINode.length_populateFast hpages hfast,
      populateByReading_eq hfile hholds (hfinds.reads 0) hcount (hle hcount) hrun⟩
  · rw [hfast] at hrun
    refine ⟨pages, rfl, ?_⟩
    rw [← hholds.populateFast hfinds hne hfast]
    exact (Except.ok.inj (Prod.mk.inj hrun).1).symm

/-- The pages hold the bytes that were asked for, and zeros behind them. -/
theorem populate_showsRequested
    (hfinds : (store.nodes opened.node).FindsRange resources offset
      ((store.nodes opened.node).bytesToPopulate offset length))
    (hlength : length ≤ alignUpToPageBoundary length)
    (hrun : store.populate resources file offset length = (.ok shown, after)) :
    ShowsRequested content offset length fun i => shown[i]? := by
  have hcount := hholds.bytesToPopulate_eq offset length
  rw [populate, hfile] at hrun
  dsimp only at hrun
  generalize (store.nodes opened.node).bytesToPopulate offset length = count at *
  obtain ⟨pages, hpages⟩ : ∃ pages, pages =
    (List.range (alignUpToPageBoundary length)).map resources.garbage := ⟨_, rfl⟩
  rw [← hpages] at hrun
  have hpages_length : pages.length = alignUpToPageBoundary length := by
    rw [hpages, List.length_map, List.length_range]
  rcases hbytes : store.populateBytes resources file opened offset count pages with
    ⟨error | copied, last⟩
  · simp [hbytes] at hrun
  rw [hbytes] at hrun
  obtain ⟨before, hbefore, rfl⟩ :=
    populateBytes_eq hfile hholds hfinds (by omega) (by omega) hbytes
  have hread : ((content.drop offset).take count).length = count := by
    rw [List.length_take, List.length_drop]
    omega
  have hcopied : (copyInto before 0 ((content.drop offset).take count)).length =
      alignUpToPageBoundary length := by
    rw [length_copyInto (by omega), hbefore, hpages_length]
  -- the rest of the pages is cleared
  have hshown : shown = clearBytes (copyInto before 0 ((content.drop offset).take count)) count
      (alignUpToPageBoundary length - count) := by
    rw [← Except.ok.inj (Prod.mk.inj hrun).1]
    split_ifs with hrest
    · rfl
    · rw [Nat.sub_eq_zero_of_le (Nat.le_of_not_lt hrest), clearBytes_zero]
  intro i hi
  have hinside : i < shown.length := by
    rw [hshown, length_clearBytes (by omega), hcopied]
    exact hi
  have hbyte : shown.getD i 0 =
      if i < length ∧ offset + i < content.length then content.getD (offset + i) 0 else 0 := by
    rw [hshown, getD_clearBytes (by omega), getD_copyInto (by omega)]
    by_cases hrequested : i < count
    · rw [if_neg (by omega), if_pos (by omega), if_pos (by omega), Nat.sub_zero]
      simp only [List.getD_eq_getElem?_getD, List.getElem?_take_of_lt hrequested,
        List.getElem?_drop]
    · rw [if_pos (by omega), if_neg (by omega)]
  rw [← hbyte, List.getD_eq_getElem _ _ hinside]
  exact List.getElem?_eq_getElem hinside

end

/-- Words that are put together from the pages have the bytes of the pages. -/
theorem byte_populatedWords {words : ℕ → ℕ} {byte : UInt8} {i : ℕ}
    (hwords : populatedWords (.ok shown) = .ok words) (hbyte : shown[i]? = some byte) :
    UInt8.ofNat (words (i / 8) / 256 ^ (i % 8)) = byte := by
  obtain rfl := Except.ok.inj hwords
  dsimp only
  rw [PhysicalMemoryManager.packWord_byte (Nat.mod_lt i (by decide)), Nat.div_add_mod,
    List.getD_eq_getElem?_getD, hbyte, Option.getD_some]

/-- A mapping of a regular file that succeeds shows the bytes that were asked for, and zeros up to
the end of the last page: the pages hold them, and the process finds them in the mapping. No
descriptor has another offset afterwards. -/
theorem mmap_showsRequested (hfile : store.files file = some opened)
    (hholds : (store.nodes opened.node).Holds content)
    (hfinds : (store.nodes opened.node).FindsRange resources offset
      ((store.nodes opened.node).bytesToPopulate offset length))
    (hlength : length ≤ alignUpToPageBoundary length) :
    (∀ shown after, store.populate resources file offset length = (.ok shown, after) →
      ShowsRequested content offset length fun i => shown[i]?) ∧
    (∀ s' a, MapsFile (store.toOpenFile resources file) offset length s' a →
      ShowsRequested content offset length fun i => s'.userByte (a + i)) ∧
    (store.populate resources file offset length).2.files = store.files := by
  refine ⟨fun shown after => populate_showsRequested hfile hholds hfinds hlength,
    fun s' a hmaps i hi => ?_, populate_files⟩
  obtain ⟨words, hwords, hbytes⟩ := hmaps.userByte rfl
  dsimp only
  rw [hbytes i hi]
  rcases hrun : store.populate resources file offset length with ⟨error | shown, after⟩
  · simp [toOpenFile, hrun, populatedWords] at hwords
  · have hshows := populate_showsRequested hfile hholds hfinds hlength hrun i hi
    rw [toOpenFile] at hwords
    dsimp only at hwords
    rw [hrun] at hwords
    rw [byte_populatedWords hwords hshows]

/-! ### Files of one and of two bytes -/

/-- The file on the small disk is open. -/
def smallStore : FileStore :=
  (({ nodes := ContentState.smallNodes } : FileStore)).setFile 0 (some ⟨0, 0⟩)

/-- A process that has mapped the file on the small disk. -/
def smallMapping : UserMemory :=
  ((sevenPagesProcess.handleMmap 8 (fun _ => some (smallStore.toOpenFile {} 0)) 0 1 3
    linuxMapPrivate 0 0).map Prod.fst).getD sevenPagesProcess

theorem mapsFile_smallMapping :
    MapsFile (smallStore.toOpenFile {} 0) 0 1 smallMapping mmapHighBase :=
  .mmap _ 0 3 linuxMapPrivate 0 tables_sevenPagesProcess (fun _ _ => rfl) (by decide)
    (.refl : MappingRun 8 [] True _ _) rfl (by decide) (by decide) (fun h => absurd h (by decide))
    (eq_some_getD sevenPagesProcess (by decide +kernel))

/-- The file on the small disk is mapped. -/
theorem mmap_showsRequested_smallMapping :
    ShowsRequested [65] 0 1 (fun i => smallMapping.userByte (mmapHighBase + i)) ∧
      (smallStore.populate {} 0 0 1).2.files = smallStore.files := by
  have hholds : (smallStore.nodes 0).Holds [65] := by
    have h := ContentState.mounted_smallNodes 0 rfl
    rwa [show ContentState.initialContent (ContentState.smallNodes 0) = [65] from
      ContentState.content_smallDisk] at h
  have hfinds : (smallStore.nodes 0).FindsRange {} 0 ((smallStore.nodes 0).bytesToPopulate 0 1) :=
    ⟨fun _ _ _ _ _ _ _ => rfl, fun _ _ _ _ _ _ _ _ => rfl⟩
  have hfile : smallStore.files 0 = some ⟨0, 0⟩ := rfl
  obtain ⟨-, hshows, hfiles⟩ := mmap_showsRequested hfile hholds hfinds (by decide)
  exact ⟨hshows _ _ mapsFile_smallMapping, hfiles⟩

/-- An open file of two bytes in a buffer. -/
def twoByteStore : FileStore :=
  (({ nodes := fun _ => { nodeSize := 2, nodeData := some [65, 66] } } : FileStore)).setFile 0
    (some ⟨0, 0⟩)

/-- The second byte of a file of two bytes is not shown when the mapping is asked for with a length
of one byte. -/
theorem not_mmap_showsFile : ¬∀ (store : FileStore) (file : ℕ) (opened : FileEntry)
    (content : List UInt8) (resources : MappingResources) (offset length : ℕ)
    (shown : List UInt8) (after : FileStore), store.files file = some opened →
    (store.nodes opened.node).nodeType = .file → (store.nodes opened.node).Holds content →
    (store.nodes opened.node).FindsRange resources offset
      ((store.nodes opened.node).bytesToPopulate offset length) →
    offset % pageSize = 0 → length ≤ alignUpToPageBoundary length →
    store.populate resources file offset length = (.ok shown, after) →
      ShowsFile content offset length fun i => shown[i]? := by
  intro h
  have hholds : (twoByteStore.nodes 0).Holds [65, 66] :=
    ⟨rfl, fun data hdata => (Option.some.inj hdata).symm, fun hlazy => absurd hlazy (by decide),
      fun _ hnone => absurd hnone (by decide)⟩
  have hfinds : (twoByteStore.nodes 0).FindsRange {} 0
      ((twoByteStore.nodes 0).bytesToPopulate 0 1) :=
    ⟨fun _ _ _ _ _ _ _ => rfl, fun _ _ _ _ _ _ _ _ => rfl⟩
  obtain ⟨⟨shown, after⟩, hrun⟩ : ∃ result : List UInt8 × FileStore,
      twoByteStore.populate {} 0 0 1 = (.ok result.1, result.2) := by
    rcases hrun : twoByteStore.populate {} 0 0 1 with ⟨error | shown, after⟩
    · have hok : (twoByteStore.populate {} 0 0 1).1.toOption.isSome = true := by decide +kernel
      rw [hrun] at hok
      exact absurd hok (by simp [Except.toOption])
    · exact ⟨(shown, after), rfl⟩
  have hshown := h _ 0 ⟨0, 0⟩ _ _ 0 1 shown after rfl rfl hholds hfinds rfl (by decide) hrun 1
    (by decide)
  have hfile : twoByteStore.files 0 = some ⟨0, 0⟩ := rfl
  have hrequested := populate_showsRequested hfile hholds hfinds (by decide) hrun 1 (by decide)
  exact absurd (Option.some.inj (hshown.symm.trans hrequested)) (by decide)

end FileStore

end TwistedOS
