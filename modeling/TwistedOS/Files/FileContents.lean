import Mathlib.Data.List.GetD
import TwistedOS.Files.RegularFiles

/-!
# Files as byte arrays

A regular file stands for the bytes that it had at first, changed by the writes since. A write puts
its bytes at its offset, with zeros in a gap before them. The inode agrees with these bytes as long
as no buffer is dropped that was written to: the buffer of a lazily loaded inode is not written
back, and the next read goes to the disk again.

## Main definitions

* `writtenContent` — the bytes of a file after a write.
* `FileINode.Holds` — an inode has the bytes of its file.
* `ContentState` — a state with the bytes that each file stands for.
* `ContentState.Safe` — a call loses no write and finds the blocks it reads.

## Main results

* `ContentState.SafelyReachable.behavesAsBytes`.
-/

namespace TwistedOS

open Function

/-- The bytes of a file after a write, with zeros in a gap before what is written. -/
def writtenContent (content : List UInt8) (offset : ℕ) (bytes : List UInt8) : List UInt8 :=
  if bytes = [] then content
  else
    (List.range (max content.length (offset + bytes.length))).map fun i =>
      if offset ≤ i ∧ i < offset + bytes.length then bytes.getD (i - offset) 0
      else content.getD i 0

/-! ### Buffers -/

section Buffers

variable {buffer bytes content other : List UInt8} {offset i n : ℕ}

theorem ext_getD (hlength : content.length = other.length)
    (h : ∀ i < content.length, content.getD i 0 = other.getD i 0) : content = other := by
  refine List.ext_getElem hlength fun i hi hi' => ?_
  have hbyte := h i hi
  rwa [List.getD_eq_getElem _ _ hi, List.getD_eq_getElem _ _ hi'] at hbyte

/-- A copy into a buffer that is large enough does not change its length. -/
theorem length_copyInto (h : offset + bytes.length ≤ buffer.length) :
    (copyInto buffer offset bytes).length = buffer.length := by
  simp only [copyInto, List.length_append, List.length_take, List.length_drop]
  omega

/-- The bytes of a buffer after a copy into it. -/
theorem getD_copyInto (h : offset + bytes.length ≤ buffer.length) :
    (copyInto buffer offset bytes).getD i 0 =
      if offset ≤ i ∧ i < offset + bytes.length then bytes.getD (i - offset) 0
      else buffer.getD i 0 := by
  have htake : (buffer.take offset).length = offset := by
    rw [List.length_take]
    omega
  rw [copyInto, List.append_assoc]
  rcases Nat.lt_or_ge i offset with hbefore | hfrom
  · rw [List.getD_append _ _ _ _ (by omega), if_neg (by omega)]
    simp only [List.getD_eq_getElem?_getD, List.getElem?_take_of_lt hbefore]
  · rw [List.getD_append_right _ _ _ _ (by omega), htake]
    rcases Nat.lt_or_ge i (offset + bytes.length) with hinside | hafter
    · rw [List.getD_append _ _ _ _ (by omega), if_pos ⟨hfrom, hinside⟩]
    · rw [List.getD_append_right _ _ _ _ (by omega), if_neg (by omega)]
      simp only [List.getD_eq_getElem?_getD, List.getElem?_drop]
      rw [show offset + bytes.length + (i - offset - bytes.length) = i by omega]

theorem length_writtenContent (h : bytes ≠ []) :
    (writtenContent content offset bytes).length = max content.length (offset + bytes.length) := by
  rw [writtenContent, if_neg h, List.length_map, List.length_range]

/-- The bytes of a file after a write. -/
theorem getD_writtenContent (h : bytes ≠ []) : (writtenContent content offset bytes).getD i 0 =
    if offset ≤ i ∧ i < offset + bytes.length then bytes.getD (i - offset) 0
    else content.getD i 0 := by
  rcases Nat.lt_or_ge i (max content.length (offset + bytes.length)) with hi | hi
  · rw [writtenContent, if_neg h, List.getD_eq_getElem _ _ (by simpa using hi)]
    simp
  · rw [List.getD_eq_default _ _ (by rwa [length_writtenContent h]), if_neg (by omega),
      List.getD_eq_default _ _ (by omega)]

/-- A copy into the buffer of the content, enlarged by zeros. -/
theorem copyInto_append_replicate (hbytes : bytes ≠ [])
    (hn : content.length + n = max content.length (offset + bytes.length)) :
    copyInto (content ++ List.replicate n 0) offset bytes =
      writtenContent content offset bytes := by
  have hlength : (content ++ List.replicate n 0).length =
      max content.length (offset + bytes.length) := by
    rw [List.length_append, List.length_replicate, hn]
  have hroom : offset + bytes.length ≤ (content ++ List.replicate n 0).length :=
    hlength ▸ le_max_right ..
  refine ext_getD ?_ fun i _ => ?_
  · rw [length_copyInto hroom, hlength, length_writtenContent hbytes]
  · have hpadded : (content ++ List.replicate n 0).getD i 0 = content.getD i 0 := by
      rcases Nat.lt_or_ge i content.length with hi | hi
      · exact List.getD_append _ _ _ _ hi
      · rw [List.getD_append_right _ _ _ _ hi, List.getD_eq_default _ _ hi,
          List.getD_eq_getElem?_getD, List.getElem?_getD_replicate_default_eq]
    rw [getD_copyInto hroom, getD_writtenContent hbytes, hpadded]

/-- A copy of the content to the start of a larger buffer of zeros. -/
theorem copyInto_replicate_zero :
    copyInto (List.replicate (content.length + n) 0) 0 content =
      content ++ List.replicate n 0 := by
  rw [copyInto, List.take_zero, List.nil_append, Nat.zero_add, List.drop_replicate,
    Nat.add_sub_cancel_left]

end Buffers

/-! ### Inodes -/

/-- An inode has the bytes of its file: in its buffer, or on the disk when it has none. -/
structure FileINode.Holds (node : FileINode) (content : List UInt8) : Prop where
  nodeSize_eq : node.nodeSize = content.length
  nodeData_eq : ∀ data ∈ node.nodeData, data = content
  backed : node.isLazyLoad → ∃ fs, node.lazyLoadContext = some fs ∧ node.backingInodeNumber ≠ 0 ∧
    (node.nodeData = none → content ≠ [] → content = fs.content node.backingInodeNumber)
  content_eq_nil : ¬node.isLazyLoad → node.nodeData = none → content = []

namespace FileINode

variable {node loaded : FileINode} {content bytes : List UInt8} {resources : KernelResources}
  {offset count : ℕ}

/-- A call that loads the content of the inode finds its blocks. -/
def LoadsExactly (node : FileINode) (resources : KernelResources) : Prop :=
  resources.loadAllocated → node.isLazyLoad → node.nodeData = none →
    ∀ fs ∈ node.lazyLoadContext,
      fs.FindsBlocks resources.readable node.backingInodeNumber 0 node.nodeSize

/-- A read that goes to the disk finds the blocks of its range. -/
def ReadsExactly (node : FileINode) (resources : KernelResources) (offset count : ℕ) : Prop :=
  ∀ fs ∈ node.backingFileSystem,
    fs.FindsBlocks resources.readable node.backingInodeNumber offset (node.readCount offset count)

/-- The buffer of the inode can be dropped: another process runs the file, or the buffer has what is
on the disk. -/
def DropsExactly (node : FileINode) : Prop :=
  node.isLazyLoad → node.releasedCount = 0 → ∀ data ∈ node.nodeData, ∀ fs ∈ node.lazyLoadContext,
    data = fs.content node.backingInodeNumber

/-- An inode after a call that changed neither the file nor its kind. -/
structure Keeps (node loaded : FileINode) (content : List UInt8) : Prop where
  holds : loaded.Holds content
  nodeSize_eq : loaded.nodeSize = node.nodeSize
  nodeType_eq : loaded.nodeType = node.nodeType

/-- An inode with room in its buffer for a write up to `requiredSize`. -/
structure HasRoom (node loaded : FileINode) (content : List UInt8) (requiredSize : ℕ) : Prop where
  nodeData_eq : loaded.nodeData = some (content ++
    List.replicate (max content.length requiredSize - content.length) 0)
  nodeSize_eq : loaded.nodeSize = max content.length requiredSize
  nodeType_eq : loaded.nodeType = node.nodeType
  backed : loaded.isLazyLoad → ∃ fs, loaded.lazyLoadContext = some fs ∧
    loaded.backingInodeNumber ≠ 0

theorem Keeps.trans {next : FileINode} (h : Keeps node loaded content)
    (hnext : Keeps loaded next content) : Keeps node next content :=
  ⟨hnext.holds, hnext.nodeSize_eq.trans h.nodeSize_eq, hnext.nodeType_eq.trans h.nodeType_eq⟩

theorem HasRoom.of_keeps {next : FileINode} {requiredSize : ℕ}
    (hroom : HasRoom loaded next content requiredSize) (h : Keeps node loaded content) :
    HasRoom node next content requiredSize :=
  { hroom with nodeType_eq := hroom.nodeType_eq.trans h.nodeType_eq }

/-- A write into a buffer with room. -/
theorem HasRoom.store (h : HasRoom node loaded content (offset + bytes.length)) (hne : bytes ≠ []) :
    Keeps { node with nodeSize := max content.length (offset + bytes.length) }
      (loaded.store offset bytes) (writtenContent content offset bytes) := by
  have hdata : (loaded.store offset bytes).nodeData =
      some (writtenContent content offset bytes) := by
    rw [FileINode.store, h.nodeData_eq, Option.getD_some,
      copyInto_append_replicate hne (Nat.add_sub_cancel' (le_max_left ..))]
  refine ⟨⟨?_, fun data hd => ?_, fun hlazy => ?_, fun _ hnone => ?_⟩, h.nodeSize_eq, h.nodeType_eq⟩
  · rw [length_writtenContent hne]
    exact h.nodeSize_eq
  · exact Option.some.inj (hd.symm.trans hdata)
  · obtain ⟨fs, hcontext, hbacking⟩ := h.backed hlazy
    exact ⟨fs, hcontext, hbacking, fun hnone => absurd (hnone.symm.trans hdata) (by simp)⟩
  · exact absurd (hnone.symm.trans hdata) (by simp)

theorem backingFileSystem_eq_some {fs : ExtendedFileSystem} :
    node.backingFileSystem = some fs ↔ node.nodeData = none ∧ node.isLazyLoad ∧
      node.backingInodeNumber ≠ 0 ∧ node.lazyLoadContext = some fs ∧ fs.initialized := by
  rw [backingFileSystem]
  split_ifs with h
  · rw [Option.filter_eq_some_iff, ← Option.isNone_iff_eq_none]
    exact ⟨fun hfs => ⟨h.1, h.2.1, h.2.2, hfs⟩, fun hfs => hfs.2.2.2⟩
  · refine iff_of_false (by simp) fun hfs => h ⟨?_, hfs.2.1, hfs.2.2.1⟩
    rw [hfs.1, Option.isNone_none]

theorem read_of_ne (h : node.nodeType ≠ .file) :
    (node.read resources offset count).2 = node := by
  rw [FileINode.read]
  split_ifs
  · rfl
  · rfl

theorem write_of_ne (h : node.nodeType ≠ .file) :
    ∃ error, node.write resources offset bytes = (.error error, node) := by
  rw [FileINode.write]
  split_ifs
  · exact ⟨_, rfl⟩
  · exact ⟨_, rfl⟩

namespace Holds

section

variable (h : node.Holds content)

include h

theorem keeps : Keeps node node content := ⟨h, rfl, rfl⟩

theorem loadContent (hlazy : node.isLazyLoad) (hdata : node.nodeData = none)
    (hsize : node.nodeSize ≠ 0) (hloads : node.LoadsExactly resources) :
    Keeps node (node.loadContent resources).2 content ∧
      ((node.loadContent resources).1 = true →
        (node.loadContent resources).2.nodeData = some content) := by
  obtain ⟨fs, hcontext, hbacking, hdisk⟩ := h.backed hlazy
  have hne : content ≠ [] := fun hnil => hsize (by rw [h.nodeSize_eq, hnil, List.length_nil])
  rw [FileINode.loadContent, hcontext]
  dsimp only
  split_ifs with hready
  · exact ⟨h.keeps, fun hfalse => absurd hfalse (by simp)⟩
  · rcases hload : fs.loadInodeData resources.readable node.backingInodeNumber node.nodeSize with
      _ | data
    · exact ⟨h.keeps, fun hfalse => absurd hfalse (by simp)⟩
    · have hdata_eq : data = content := by
        rw [hdisk hdata hne]
        have hallocated : resources.loadAllocated := by
          by_contra hnot
          exact hready (.inr (.inr (by simpa using hnot)))
        refine fs.loadInodeData_eq (hloads hallocated hlazy hdata fs hcontext) ?_ hload
        rw [← hdisk hdata hne, h.nodeSize_eq]
      refine ⟨⟨⟨h.nodeSize_eq, fun d hd => ?_, fun _ => ⟨fs, rfl, hbacking, fun hnone => ?_⟩,
        fun hnot => absurd hlazy hnot⟩, rfl, rfl⟩, fun _ => congrArg some hdata_eq⟩
      · exact (Option.some.inj hd).symm.trans hdata_eq
      · exact absurd hnone (by simp)

/-- The content is loaded when it has to be. -/
theorem ensureLazyLoadedINodeData (hloads : node.LoadsExactly resources) :
    Keeps node (node.ensureLazyLoadedINodeData resources).2 content ∧
      ((node.ensureLazyLoadedINodeData resources).1 = true → node.nodeSize ≠ 0 →
        (node.ensureLazyLoadedINodeData resources).2.nodeData = some content) := by
  rw [FileINode.ensureLazyLoadedINodeData]
  split_ifs with hlazy hcached hempty
  · refine ⟨h.keeps, fun hsome _ => ?_⟩
    obtain ⟨data, hdata⟩ := Option.isSome_iff_exists.mp hsome
    rw [hdata, h.nodeData_eq data hdata]
  · refine ⟨h.keeps, fun _ _ => ?_⟩
    obtain ⟨data, hdata⟩ := Option.isSome_iff_exists.mp hcached
    rw [hdata, h.nodeData_eq data hdata]
  · exact ⟨h.keeps, fun _ hne => absurd hempty hne⟩
  · obtain ⟨hkeeps, hloaded⟩ := h.loadContent (by simpa using hlazy) (by simpa using hcached) hempty
      hloads
    exact ⟨hkeeps, fun htrue _ => hloaded htrue⟩

theorem ensureExecutableData (hloads : node.LoadsExactly resources) :
    Keeps node (node.ensureExecutableData resources).2 content := by
  rw [FileINode.ensureExecutableData]
  split_ifs with hlazy hcached hempty
  · exact h.keeps
  · exact h.keeps
  · exact h.keeps
  · exact (h.loadContent (by simpa using hlazy) (by simpa using hcached) hempty hloads).1

end

/-! ### Writing -/

section

variable (h : node.Holds content)

include h

/-- A buffer that is long enough has room. -/
theorem hasRoom (hdata : node.nodeData = some content) {requiredSize : ℕ}
    (hsize : requiredSize ≤ node.nodeSize) : HasRoom node node content requiredSize := by
  have hmax : max content.length requiredSize = content.length := by
    rw [← h.nodeSize_eq]
    omega
  refine ⟨?_, ?_, rfl, fun hlazy => ?_⟩
  · rw [hdata, hmax, Nat.sub_self]
    simp
  · rw [hmax, h.nodeSize_eq]
  · obtain ⟨fs, hcontext, hbacking, -⟩ := h.backed hlazy
    exact ⟨fs, hcontext, hbacking⟩

/-- A larger buffer has the content and zeros after it. -/
theorem ensureGrown (resources : KernelResources) (hdata : node.nodeData.getD [] = content)
    (requiredSize : ℕ) :
    ((node.ensureGrown resources requiredSize).1 = false →
      Keeps node (node.ensureGrown resources requiredSize).2 content) ∧
      ((node.ensureGrown resources requiredSize).1 = true →
        HasRoom node (node.ensureGrown resources requiredSize).2 content requiredSize) := by
  rw [FileINode.ensureGrown]
  split_ifs
  · exact ⟨fun _ => h.keeps, fun hfalse => absurd hfalse (by simp)⟩
  · refine ⟨fun hfalse => absurd hfalse (by simp), fun _ => ⟨?_, ?_, rfl, fun hlazy => ?_⟩⟩
    · rw [grow, hdata, h.nodeSize_eq, List.take_length, ← copyInto_replicate_zero,
        Nat.add_sub_cancel' (le_max_left ..), max_comm]
    · rw [grow, h.nodeSize_eq, max_comm]
    · exact absurd hlazy (by simp [grow])

/-- The room for a write, or an unchanged file. -/
theorem ensureWritableINodeCapacity (hloads : node.LoadsExactly resources) {requiredSize : ℕ}
    (hpos : requiredSize ≠ 0) :
    ((node.ensureWritableINodeCapacity resources requiredSize).1 = false →
      Keeps node (node.ensureWritableINodeCapacity resources requiredSize).2 content) ∧
      ((node.ensureWritableINodeCapacity resources requiredSize).1 = true →
        HasRoom node (node.ensureWritableINodeCapacity resources requiredSize).2 content
          requiredSize) := by
  rw [FileINode.ensureWritableINodeCapacity, if_neg hpos]
  split_ifs with hroom hload
  · refine ⟨fun hfalse => absurd hfalse (by simp), fun _ => ?_⟩
    obtain ⟨data, hdata⟩ := Option.isSome_iff_exists.mp hroom.1
    exact h.hasRoom (hdata.trans (congrArg some (h.nodeData_eq data hdata))) hroom.2
  · obtain ⟨hkeeps, hloaded⟩ := h.ensureLazyLoadedINodeData hloads
    rcases hensure : node.ensureLazyLoadedINodeData resources with ⟨success, loaded⟩
    rw [hensure] at hkeeps hloaded
    cases success with
    | false => exact ⟨fun _ => hkeeps, fun hfalse => absurd hfalse (by simp)⟩
    | true =>
      have hdata : loaded.nodeData = some content := hloaded rfl hload.2.2.ne'
      dsimp only
      split_ifs with hfits
      · exact ⟨fun hfalse => absurd hfalse (by simp), fun _ =>
          (hkeeps.holds.hasRoom hdata hfits.2).of_keeps hkeeps⟩
      · obtain ⟨hfails, hgrows⟩ := hkeeps.holds.ensureGrown resources
          (by rw [hdata, Option.getD_some]) requiredSize
        exact ⟨fun hfalse => hkeeps.trans (hfails hfalse), fun htrue =>
          (hgrows htrue).of_keeps hkeeps⟩
  · refine h.ensureGrown resources ?_ requiredSize
    rcases hdata : node.nodeData with _ | data
    · rw [Option.getD_none]
      by_cases hlazy : node.isLazyLoad
      · have hempty : node.nodeSize = 0 := by
          by_contra hne
          exact hload ⟨by rw [hdata, Option.isNone_none], hlazy, Nat.pos_of_ne_zero hne⟩
        exact (List.length_eq_zero_iff.mp (h.nodeSize_eq.symm.trans hempty)).symm
      · exact (h.content_eq_nil hlazy hdata).symm
    · exact h.nodeData_eq data hdata

/-- A write that fails changes nothing, and one that succeeds changes the file. -/
theorem write (hloads : bytes ≠ [] → node.LoadsExactly resources) :
    (∀ error loaded, node.write resources offset bytes = (.error error, loaded) →
      Keeps node loaded content) ∧
    ∀ count written, node.write resources offset bytes = (.ok count, written) →
      count = bytes.length ∧ written.Holds (writtenContent content offset bytes) ∧
        written.nodeType = node.nodeType := by
  rw [FileINode.write]
  split_ifs with hdir hfile hempty hlarge
  · exact ⟨fun _ _ heq => (Prod.mk.inj heq).2 ▸ h.keeps, fun _ _ heq => absurd heq (by simp)⟩
  · exact ⟨fun _ _ heq => (Prod.mk.inj heq).2 ▸ h.keeps, fun _ _ heq => absurd heq (by simp)⟩
  · refine ⟨fun _ _ heq => absurd heq (by simp), fun count written heq => ?_⟩
    obtain ⟨hcount, rfl⟩ := Prod.mk.inj heq
    refine ⟨?_, ?_, rfl⟩
    · rw [hempty, ← Except.ok.inj hcount, List.length_nil]
    · rwa [writtenContent, if_pos hempty]
  · exact ⟨fun _ _ heq => (Prod.mk.inj heq).2 ▸ h.keeps, fun _ _ heq => absurd heq (by simp)⟩
  · have hpos : offset + bytes.length ≠ 0 := by
      have := List.length_pos_iff.mpr hempty
      omega
    obtain ⟨hfails, hroom⟩ := h.ensureWritableINodeCapacity (hloads hempty) hpos
    rcases hensure : node.ensureWritableINodeCapacity resources (offset + bytes.length) with
      ⟨success, loaded⟩
    rw [hensure] at hfails hroom
    cases success with
    | false =>
      exact ⟨fun _ _ heq => (Prod.mk.inj heq).2 ▸ hfails rfl, fun _ _ heq => absurd heq (by simp)⟩
    | true =>
      refine ⟨fun _ _ heq => absurd heq (by simp), fun count written heq => ?_⟩
      obtain ⟨hcount, rfl⟩ := Prod.mk.inj heq
      have hstored := (hroom rfl).store hempty
      exact ⟨(Except.ok.inj hcount).symm, hstored.holds, hstored.nodeType_eq⟩

end

/-! ### Reading -/

section

variable (h : node.Holds content)

include h

theorem take_readCount :
    (content.drop offset).take (node.readCount offset count) =
      (content.drop offset).take count := by
  rw [readCount, h.nodeSize_eq, ← List.length_drop, ← List.take_eq_take_min]

theorem drop_eq_nil (hend : node.nodeSize ≤ offset) : (content.drop offset).take count = [] := by
  rw [List.drop_of_length_le (h.nodeSize_eq ▸ hend), List.take_nil]

theorem readBuffer {data : List UInt8} (hread : node.readBuffer offset count = .ok data) :
    data = (content.drop offset).take count := by
  rw [FileINode.readBuffer] at hread
  rcases hbuffer : node.nodeData with _ | buffer
  · rw [hbuffer] at hread
    dsimp only at hread
    split_ifs at hread with hempty
    rw [h.drop_eq_nil (by omega)]
    exact (Except.ok.inj hread).symm
  · rw [hbuffer] at hread
    dsimp only at hread
    split_ifs at hread with hend
    · rw [h.drop_eq_nil hend]
      exact (Except.ok.inj hread).symm
    · rw [← h.take_readCount, ← h.nodeData_eq buffer hbuffer]
      exact (Except.ok.inj hread).symm

theorem readRange {fs : ExtendedFileSystem} (hfs : node.backingFileSystem = some fs)
    (hreads : node.ReadsExactly resources offset count) {data : List UInt8}
    (hread : node.readRange resources fs offset count = .ok data) :
    data = (content.drop offset).take count := by
  obtain ⟨hdata, hlazy, -, hcontext, -⟩ := backingFileSystem_eq_some.mp hfs
  rw [FileINode.readRange] at hread
  split_ifs at hread with hend
  · rw [h.drop_eq_nil hend]
    exact (Except.ok.inj hread).symm
  · rcases hload : fs.loadInodeDataRange resources.readable node.backingInodeNumber offset
      (node.readCount offset count) with _ | bytes
    · rw [hload] at hread
      exact absurd hread (by simp)
    · rw [hload] at hread
      obtain rfl := Except.ok.inj hread
      have hcontent : content = fs.content node.backingInodeNumber := by
        obtain ⟨fs', hcontext', -, hdisk⟩ := h.backed hlazy
        obtain rfl := Option.some.inj (hcontext.symm.trans hcontext')
        refine hdisk hdata fun hnil => hend ?_
        rw [h.nodeSize_eq, hnil, List.length_nil]
        exact Nat.zero_le _
      rw [fs.loadInodeDataRange_eq (hreads fs hfs) hload, ← hcontent]
      exact h.take_readCount

/-- An inode whose reads do not go to the disk cannot be loaded with wrong content. -/
theorem loadsExactly (hfs : node.backingFileSystem = none) : node.LoadsExactly resources := by
  intro _ hlazy hdata fs hcontext inodeData hinode
  obtain ⟨fs', hcontext', hbacking, -⟩ := h.backed hlazy
  by_cases hinitialized : fs.initialized
  · have hsome := backingFileSystem_eq_some.mpr ⟨hdata, hlazy, hbacking, hcontext, hinitialized⟩
    exact absurd (hfs.symm.trans hsome) (by simp)
  · rw [ExtendedFileSystem.readInode, if_pos (.inl (by simpa using hinitialized))] at hinode
    exact absurd hinode (by simp)

theorem readLoaded (hloads : node.LoadsExactly resources) :
    Keeps node (node.readLoaded resources offset count).2 content ∧
      ∀ data, (node.readLoaded resources offset count).1 = .ok data →
        data = (content.drop offset).take count := by
  rw [FileINode.readLoaded]
  split_ifs with hload
  · obtain ⟨hkeeps, -⟩ := h.ensureLazyLoadedINodeData hloads
    rcases hensure : node.ensureLazyLoadedINodeData resources with ⟨success, loaded⟩
    rw [hensure] at hkeeps
    cases success with
    | false => exact ⟨hkeeps, fun data hread => absurd hread (by simp)⟩
    | true => exact ⟨hkeeps, fun data hread => hkeeps.holds.readBuffer hread⟩
  · exact ⟨h.keeps, fun data hread => h.readBuffer hread⟩

/-- A read gives the bytes of the file. -/
theorem read (hreads : node.ReadsExactly resources offset count) :
    Keeps node (node.read resources offset count).2 content ∧
      ∀ data, (node.read resources offset count).1 = .ok data →
        data = (content.drop offset).take count := by
  rw [FileINode.read]
  split_ifs with hdir hfile hcount
  · exact ⟨h.keeps, fun data hread => absurd hread (by simp)⟩
  · exact ⟨h.keeps, fun data hread => absurd hread (by simp)⟩
  · refine ⟨h.keeps, fun data hread => ?_⟩
    rw [hcount, List.take_zero]
    exact (Except.ok.inj hread).symm
  · rcases hfs : node.backingFileSystem with _ | fs
    · exact h.readLoaded (h.loadsExactly hfs)
    · exact ⟨h.keeps, fun data hread => h.readRange hfs hreads hread⟩

end

/-! ### Running programs -/

theorem retain (h : node.Holds content) : Keeps node node.retain content := by
  rw [FileINode.retain]
  split_ifs
  · exact ⟨⟨h.nodeSize_eq, h.nodeData_eq, h.backed, h.content_eq_nil⟩, rfl, rfl⟩
  · exact h.keeps

theorem addReference (h : node.Holds content) :
    Keeps node { node with lazyLoadRefCount := node.lazyLoadRefCount + 1 } content :=
  ⟨⟨h.nodeSize_eq, h.nodeData_eq, h.backed, h.content_eq_nil⟩, rfl, rfl⟩

/-- A buffer that is dropped has what is on the disk. -/
theorem release (h : node.Holds content) (hdrops : node.DropsExactly) :
    Keeps node node.release content := by
  rw [FileINode.release]
  split_ifs with hlazy hlast
  · exact h.keeps
  · refine ⟨⟨h.nodeSize_eq, fun data hd => absurd hd (by simp), fun _ => ?_,
      fun hnot => absurd (by simpa using hlazy) hnot⟩, rfl, rfl⟩
    obtain ⟨fs, hcontext, hbacking, hdisk⟩ := h.backed (by simpa using hlazy)
    refine ⟨fs, hcontext, hbacking, fun _ hne => ?_⟩
    rcases hdata : node.nodeData with _ | data
    · exact hdisk hdata hne
    · rw [← h.nodeData_eq data hdata]
      exact hdrops (by simpa using hlazy) hlast data hdata fs hcontext
  · exact ⟨⟨h.nodeSize_eq, h.nodeData_eq, h.backed, h.content_eq_nil⟩, rfl, rfl⟩

end Holds

end FileINode

/-! ### Runs -/

/-- A state, and the bytes that the file of each inode stands for. -/
structure ContentState where
  store : FileStore
  contents : ℕ → List UInt8

namespace ContentState

variable {state : ContentState}

/-- The bytes of a file at first: those in the buffer of its inode, or those on the disk. -/
def initialContent (node : FileINode) : List UInt8 :=
  match node.nodeData, node.lazyLoadContext with
  | some data, _ => data
  | none, some fs => if node.isLazyLoad then fs.content node.backingInodeNumber else []
  | none, none => []

/-- The inodes that mounting makes: each regular file has the bytes that it stands for. -/
def Mounted (nodes : ℕ → FileINode) : Prop :=
  ∀ n, (nodes n).nodeType = .file → (nodes n).Holds (initialContent (nodes n))

/-- The start, when no file is open and no program runs. -/
def start (nodes : ℕ → FileINode) : ContentState :=
  ⟨{ nodes := nodes }, fun n => initialContent (nodes n)⟩

/-- The bytes of the files after a write. -/
def contentsAfterWrite (state : ContentState) (file : ℕ) (bytes : List UInt8)
    (resources : KernelResources) : ℕ → List UInt8 :=
  match state.store.files file, (state.store.write file bytes resources).1 with
  | some opened, .ok _ => update state.contents opened.node
      (writtenContent (state.contents opened.node) opened.currentOffset bytes)
  | _, _ => state.contents

/-- A call. -/
def call (state : ContentState) (c : FileCall) : ContentState where
  store := state.store.run c
  contents := match c with
    | .write file bytes resources => state.contentsAfterWrite file bytes resources
    | _ => state.contents

/-- The condition under which a call loses no write and reads no wrong bytes. A call finds the
blocks that it reads, and the last process that runs a file gives it up only when the buffer has
what is on the disk. -/
def Safe (state : ContentState) : FileCall → Prop
  | .read file count resources => ∀ opened ∈ state.store.files file,
    (state.store.nodes opened.node).ReadsExactly resources opened.currentOffset count
  | .write file bytes resources => bytes ≠ [] → ∀ opened ∈ state.store.files file,
    (state.store.nodes opened.node).LoadsExactly resources
  | .execute process node resources succeeds =>
    (state.store.nodes node).LoadsExactly resources ∧ (succeeds →
      ∀ old ∈ state.store.runningExecutable process, old ≠ node →
        (state.store.nodes old).DropsExactly)
  | .createProcess _ node resources _ => (state.store.nodes node).LoadsExactly resources
  | .killProcess process => ∀ old ∈ state.store.runningExecutable process,
    (state.store.nodes old).DropsExactly
  | _ => True

/-- The states that calls lead to from the start. -/
inductive Reachable : ContentState → Prop
  | init {nodes : ℕ → FileINode} (h : Mounted nodes) : Reachable (start nodes)
  | call {state : ContentState} (h : Reachable state) (c : FileCall) : Reachable (state.call c)

/-- The states that safe calls lead to from the start. -/
inductive SafelyReachable : ContentState → Prop
  | init {nodes : ℕ → FileINode} (h : Mounted nodes) : SafelyReachable (start nodes)
  | call {state : ContentState} (h : SafelyReachable state) (c : FileCall) (hc : state.Safe c) :
    SafelyReachable (state.call c)

/-- A read through a file gives the bytes from its offset on, up to the end of the file. -/
def ReadsBytes (state : ContentState) (file : ℕ) (opened : FileEntry) (count : ℕ)
    (resources : KernelResources) : Prop :=
  match state.store.read file count resources with
  | (.ok bytes, after) =>
    bytes = ((state.contents opened.node).drop opened.currentOffset).take count ∧
      after.files file =
        some { opened with currentOffset := opened.currentOffset + bytes.length }
  | (.error _, after) => after.files = state.store.files

/-- A write through a file writes all bytes at its offset, or changes nothing. -/
def WritesBytes (state : ContentState) (file : ℕ) (opened : FileEntry) (bytes : List UInt8)
    (resources : KernelResources) : Prop :=
  match state.store.write file bytes resources with
  | (.ok count, after) =>
    count = bytes.length ∧
      after.files file = some { opened with currentOffset := opened.currentOffset + count } ∧
      (after.nodes opened.node).Holds
        (writtenContent (state.contents opened.node) opened.currentOffset bytes)
  | (.error _, after) =>
    after.files = state.store.files ∧
      (after.nodes opened.node).nodeSize = (state.store.nodes opened.node).nodeSize ∧
      (after.nodes opened.node).Holds (state.contents opened.node)

/-- The regular files behave as arrays of bytes. -/
structure BehavesAsBytes (state : ContentState) : Prop where
  nodeSize_eq : ∀ n, (state.store.nodes n).nodeType = .file →
    (state.store.nodes n).nodeSize = (state.contents n).length
  reads : ∀ file opened count resources, state.store.files file = some opened →
    (state.store.nodes opened.node).nodeType = .file → state.Safe (.read file count resources) →
      state.ReadsBytes file opened count resources
  writes : ∀ file opened bytes resources, state.store.files file = some opened →
    (state.store.nodes opened.node).nodeType = .file → state.Safe (.write file bytes resources) →
      state.WritesBytes file opened bytes resources

/-- Every regular file has the bytes that it stands for. -/
def AllHold (nodes : ℕ → FileINode) (contents : ℕ → List UInt8) : Prop :=
  ∀ n, (nodes n).nodeType = .file → (nodes n).Holds (contents n)

namespace AllHold

variable {nodes : ℕ → FileINode} {contents : ℕ → List UInt8} {node : FileINode} {id : ℕ}
  {content : List UInt8}

/-- An inode is replaced together with what it stands for. -/
theorem replace (h : AllHold nodes contents)
    (hnode : node.nodeType = .file → node.Holds content) :
    AllHold (update nodes id node) (update contents id content) := by
  intro n hn
  by_cases hid : n = id
  · subst hid
    rw [update_self] at hn ⊢
    rw [update_self]
    exact hnode hn
  · rw [update_of_ne hid] at hn ⊢
    rw [update_of_ne hid]
    exact h n hn

/-- An inode is replaced that stands for the same bytes. -/
theorem setNode (h : AllHold nodes contents)
    (hnode : node.nodeType = .file → node.Holds (contents id)) :
    AllHold (update nodes id node) contents := by
  have hreplaced : AllHold (update nodes id node) (update contents id (contents id)) :=
    h.replace hnode
  rwa [update_eq_self] at hreplaced

variable {store : FileStore} {process file count : ℕ} {bytes : List UInt8}
  {resources : KernelResources} {opened : FileEntry}

section

variable (h : AllHold store.nodes contents)

include h

theorem read
    (hsafe : ∀ opened ∈ store.files file,
      (store.nodes opened.node).ReadsExactly resources opened.currentOffset count) :
    AllHold (store.read file count resources).2.nodes contents := by
  rw [FileStore.read]
  rcases hfile : store.files file with _ | opened
  · exact h
  · have hnode : ((store.nodes opened.node).read resources opened.currentOffset count).2.nodeType =
        .file → ((store.nodes opened.node).read resources opened.currentOffset count).2.Holds
          (contents opened.node) := by
      intro htype
      by_cases hold : (store.nodes opened.node).nodeType = .file
      · exact ((h opened.node hold).read (hsafe opened hfile)).1.holds
      · rw [FileINode.read_of_ne hold] at htype
        exact absurd htype hold
    dsimp only
    split
    next error node hread =>
      rw [hread] at hnode
      exact h.setNode hnode
    next data node hread =>
      rw [hread] at hnode
      exact h.setNode hnode

theorem loadExecutable (hloads : (store.nodes id).LoadsExactly resources) :
    AllHold (store.loadExecutable id resources).2.nodes contents := by
  rw [FileStore.loadExecutable]
  split_ifs with hrefused
  · exact h
  · rw [not_or, not_not] at hrefused
    exact h.setNode fun _ => ((h id hrefused.1).ensureExecutableData hloads).holds

theorem retainRunningExecutable :
    AllHold (store.retainRunningExecutable process id).nodes contents := by
  refine h.setNode fun htype => ?_
  have hold : (store.nodes id).nodeType = .file := by
    rw [FileINode.retain] at htype
    split_ifs at htype <;> exact htype
  exact (h id hold).retain.holds

theorem releaseRunningExecutable
    (hdrops : ∀ old ∈ store.runningExecutable process, (store.nodes old).DropsExactly) :
    AllHold (store.releaseRunningExecutable process).nodes contents := by
  rw [FileStore.releaseRunningExecutable]
  rcases hrunning : store.runningExecutable process with _ | old
  · exact h
  · refine h.setNode fun htype => ?_
    have hold : (store.nodes old).nodeType = .file := by
      rw [FileINode.release] at htype
      split_ifs at htype <;> exact htype
    exact ((h old hold).release (hdrops old hrunning)).holds

theorem copyProcess {parent child : ℕ} :
    AllHold (store.copyProcess parent child).nodes contents := by
  rw [FileStore.copyProcess]
  rcases store.runningExecutable parent with _ | node
  · exact h
  · exact h.setNode fun htype => (h node htype).addReference.holds

end

/-- Loading an executable leaves the other inodes and the running programs alone. -/
theorem loadExecutable_nodes_of_ne {other : ℕ} (hne : other ≠ id) :
    (store.loadExecutable id resources).2.nodes other = store.nodes other := by
  rw [FileStore.loadExecutable]
  split_ifs
  · rfl
  · exact update_of_ne hne ..

theorem loadExecutable_runningExecutable :
    (store.loadExecutable id resources).2.runningExecutable = store.runningExecutable := by
  rw [FileStore.loadExecutable]
  split_ifs <;> rfl

section

variable (h : AllHold store.nodes contents) (hloads : (store.nodes id).LoadsExactly resources)

include h hloads

theorem execute {succeeds : Bool}
    (hdrops : succeeds → ∀ old ∈ store.runningExecutable process, old ≠ id →
      (store.nodes old).DropsExactly) :
    AllHold (store.execute process id resources succeeds).nodes contents := by
  have hloaded := h.loadExecutable hloads
  rw [FileStore.execute]
  dsimp only
  split_ifs with hruns
  · refine (hloaded.releaseRunningExecutable fun old hold => ?_).retainRunningExecutable
    have hne : old ≠ id := fun heq => hruns.2.2 (heq ▸ hold)
    rw [loadExecutable_runningExecutable] at hold
    rw [loadExecutable_nodes_of_ne hne]
    exact hdrops hruns.2.1 old hold hne
  · exact hloaded

theorem createProcess {succeeds : Bool} :
    AllHold (store.createProcess process id resources succeeds).nodes contents := by
  have hloaded := h.loadExecutable hloads
  rw [FileStore.createProcess]
  dsimp only
  split_ifs
  · exact hloaded.retainRunningExecutable
  · exact hloaded

end

end AllHold

/-! ### Reads and writes through a file -/

/-- A read gives the bytes of the file. -/
theorem readsBytes (h : AllHold state.store.nodes state.contents) {file count : ℕ}
    {opened : FileEntry} {resources : KernelResources}
    (hfile : state.store.files file = some opened)
    (htype : (state.store.nodes opened.node).nodeType = .file)
    (hsafe : state.Safe (.read file count resources)) :
    state.ReadsBytes file opened count resources := by
  have hread := ((h opened.node htype).read (hsafe opened hfile)).2
  rw [ReadsBytes, FileStore.read, hfile]
  dsimp only
  rcases hresult : (state.store.nodes opened.node).read resources opened.currentOffset count with
    ⟨error | bytes, node⟩
  · rfl
  · rw [hresult] at hread
    exact ⟨hread bytes rfl, update_self ..⟩

/-- A write changes the file as a whole or not at all. -/
theorem writesBytes (h : AllHold state.store.nodes state.contents) {file : ℕ} {bytes : List UInt8}
    {opened : FileEntry} {resources : KernelResources}
    (hfile : state.store.files file = some opened)
    (htype : (state.store.nodes opened.node).nodeType = .file)
    (hsafe : state.Safe (.write file bytes resources)) :
    state.WritesBytes file opened bytes resources := by
  obtain ⟨hfails, hwrites⟩ := (h opened.node htype).write fun hne => hsafe hne opened hfile
  rw [WritesBytes, FileStore.write, hfile]
  dsimp only
  rcases hresult : (state.store.nodes opened.node).write resources opened.currentOffset bytes with
    ⟨error | count, node⟩
  · have hkeeps := hfails error node hresult
    have hnode : (state.store.setNode opened.node node).nodes opened.node = node := update_self ..
    dsimp only
    rw [hnode]
    exact ⟨rfl, hkeeps.nodeSize_eq, hkeeps.holds⟩
  · obtain ⟨hcount, hholds, -⟩ := hwrites count node hresult
    have hnode : (state.store.setNode opened.node node).nodes opened.node = node := update_self ..
    refine ⟨hcount, update_self .., ?_⟩
    change ((state.store.setNode opened.node node).nodes opened.node).Holds _
    rw [hnode]
    exact hholds

namespace AllHold

theorem write (h : AllHold state.store.nodes state.contents) {file : ℕ} {bytes : List UInt8}
    {resources : KernelResources} (hsafe : state.Safe (.write file bytes resources)) :
    AllHold (state.store.write file bytes resources).2.nodes
      (state.contentsAfterWrite file bytes resources) := by
  rw [contentsAfterWrite, FileStore.write]
  rcases hfile : state.store.files file with _ | opened
  · exact h
  dsimp only
  by_cases htype : (state.store.nodes opened.node).nodeType = .file
  · obtain ⟨hfails, hwrites⟩ := (h opened.node htype).write fun hne => hsafe hne opened hfile
    rcases hresult : (state.store.nodes opened.node).write resources opened.currentOffset bytes
      with ⟨error | count, node⟩
    · exact h.setNode fun _ => (hfails error node hresult).holds
    · exact h.replace fun _ => (hwrites count node hresult).2.1
  · obtain ⟨error, hresult⟩ := FileINode.write_of_ne htype
    rw [hresult]
    exact h.setNode fun hfile => absurd hfile htype

/-- A safe call keeps every file as the bytes that it stands for. -/
theorem call (h : AllHold state.store.nodes state.contents) {c : FileCall} (hc : state.Safe c) :
    AllHold (state.call c).store.nodes (state.call c).contents := by
  cases c with
  | openFile file node => exact h
  | copyFile source file => exact h
  | closeFile file => exact h
  | read file count resources => exact h.read hc
  | write file bytes resources => exact h.write hc
  | lseek file offset whence =>
    have hnodes : (state.store.lseek file offset whence).2.nodes = state.store.nodes := by
      unfold FileStore.lseek
      split
      · rfl
      · rfl
      · dsimp only
        split_ifs <;> rfl
    change AllHold (state.store.lseek file offset whence).2.nodes state.contents
    rw [hnodes]
    exact h
  | execute process node resources succeeds => exact h.execute hc.1 hc.2
  | createProcess process node resources succeeds => exact h.createProcess hc
  | copyProcess parent child => exact h.copyProcess
  | killProcess process => exact h.releaseRunningExecutable hc

end AllHold

theorem SafelyReachable.allHold (h : SafelyReachable state) :
    AllHold state.store.nodes state.contents := by
  induction h with
  | init h => exact h
  | call _ c hc ih => exact ih.call hc

/-- In every run of safe calls the regular files behave as arrays of bytes: their sizes are the
lengths of the arrays, and safe reads and writes have the results and effects that they have on
arrays. -/
theorem SafelyReachable.behavesAsBytes (h : SafelyReachable state) : state.BehavesAsBytes where
  nodeSize_eq n hn := (h.allHold n hn).nodeSize_eq
  reads _ _ _ _ hfile htype hsafe := readsBytes h.allHold hfile htype hsafe
  writes _ _ _ _ hfile htype hsafe := writesBytes h.allHold hfile htype hsafe

/-! ### A file on a small disk -/

/-- A disk with one inode, number 12, whose content is one byte. -/
def smallDisk : ExtendedFileSystem where
  image := fun address =>
    if address = 2056 then 3
    else if address = 4484 then 1
    else if address = 4520 then 5
    else if address = 5120 then 65
    else 0
  partitionSectorCount := 12
  blockSizeBytes := 1024
  inodeSizeBytes := 128
  inodesPerGroup := 16

/-- A lazily loaded inode for the file on the small disk, and empty files. -/
def smallNodes (n : ℕ) : FileINode :=
  if n = 0 then
    { nodeSize := 1
      isLazyLoad := true
      backingInodeNumber := 12
      lazyLoadContext := some smallDisk }
  else {}

theorem content_smallDisk : smallDisk.content 12 = [65] := by decide +kernel

theorem mounted_smallNodes : Mounted smallNodes := by
  intro n _
  by_cases hn : n = 0
  · subst hn
    refine ⟨?_, fun data hdata => ?_, fun _ => ⟨smallDisk, rfl, by decide, fun _ _ => rfl⟩,
      fun hlazy => ?_⟩
    · exact (congrArg List.length content_smallDisk).symm
    · exact absurd hdata (by simp [smallNodes])
    · exact absurd rfl hlazy
  · rw [smallNodes, if_neg hn]
    exact ⟨rfl, fun data hdata => absurd hdata (by simp), fun hlazy => absurd hlazy (by simp),
      fun _ _ => rfl⟩

/-- The file is written to, and a process runs it and exits. -/
def writtenAndRun : List FileCall :=
  [.openFile 0 0, .write 0 [66] {}, .execute 1 0 {} true, .killProcess 1, .openFile 1 0]

/-- The state after a list of calls on the small disk. -/
def runAll (calls : List FileCall) : ContentState := calls.foldl call (start smallNodes)

theorem reachable_runAll (calls : List FileCall) : Reachable (runAll calls) := by
  suffices h : ∀ state, Reachable state → Reachable (calls.foldl call state) from
    h _ (.init mounted_smallNodes)
  induction calls with
  | nil => exact fun _ h => h
  | cons c calls ih => exact fun state h => ih _ (h.call c)

/-- What was written is gone when the last process that runs the file exits. -/
theorem not_behavesAsBytes_of_reachable : ¬∀ state, Reachable state → state.BehavesAsBytes := by
  intro h
  have hreads := (h _ (reachable_runAll writtenAndRun)).reads 1 ⟨0, 0⟩ 1 {} (by decide +kernel)
    (by decide +kernel) fun _ _ _ _ _ _ _ _ _ => rfl
  have hread : ((runAll writtenAndRun).store.read 1 1 {}).1.toOption = some [65] := by
    decide +kernel
  have hcontent : (runAll writtenAndRun).contents 0 = [66] := by decide +kernel
  rw [ReadsBytes] at hreads
  rcases hresult : (runAll writtenAndRun).store.read 1 1 {} with ⟨error | bytes, after⟩
  · rw [hresult] at hread
    exact absurd hread (by simp [Except.toOption])
  · rw [hresult] at hreads hread
    have hbytes : bytes = [66] := by
      refine hreads.1.trans ?_
      rw [hcontent]
      rfl
    have hlost : bytes = [65] := Option.some.inj hread
    exact absurd (hbytes.symm.trans hlost) (by decide)

/-- The file is run by a process that exits. -/
def onlyRun : List FileCall := [.openFile 0 0, .execute 1 0 {} true, .killProcess 1]

/-- A file that is only read and run keeps its bytes when its buffer is dropped. -/
theorem behavesAsBytes_onlyRun : (runAll onlyRun).BehavesAsBytes ∧
    ((runAll onlyRun).store.nodes 0).nodeData = none := by
  have hexecute : (runAll (onlyRun.take 1)).Safe (.execute 1 0 {} true) :=
    ⟨fun _ _ _ _ _ _ _ _ _ _ => rfl, fun _ old hold => absurd hold (by
      have hnone : (runAll (onlyRun.take 1)).store.runningExecutable 1 = none := by decide +kernel
      rw [hnone]
      simp)⟩
  have hkill : (runAll (onlyRun.take 2)).Safe (.killProcess 1) := by
    have hrunning : (runAll (onlyRun.take 2)).store.runningExecutable 1 = some 0 := by
      decide +kernel
    have hdata : ((runAll (onlyRun.take 2)).store.nodes 0).nodeData = some [65] := by
      decide +kernel
    have hdisk : (((runAll (onlyRun.take 2)).store.nodes 0).lazyLoadContext.map fun fs =>
        fs.content ((runAll (onlyRun.take 2)).store.nodes 0).backingInodeNumber) = some [65] := by
      decide +kernel
    intro old hold _ _ data hd fs hfs
    obtain rfl := Option.some.inj (hrunning.symm.trans hold)
    obtain rfl := Option.some.inj (hdata.symm.trans hd)
    have hcontent := congrArg (Option.map fun fs : ExtendedFileSystem =>
      fs.content ((runAll (onlyRun.take 2)).store.nodes 0).backingInodeNumber)
      (Option.mem_def.mp hfs)
    exact Option.some.inj (hdisk.symm.trans hcontent)
  have hrun : SafelyReachable (runAll onlyRun) :=
    (((SafelyReachable.init mounted_smallNodes).call (.openFile 0 0) trivial).call _ hexecute).call
      _ hkill
  exact ⟨hrun.behavesAsBytes, by decide +kernel⟩

end ContentState

end TwistedOS
