import TwistedOS.Transfer.PipeDescriptors

/-!
# The table of pipe descriptors

The objects of a pipe refer to each other as `CreatePipe` has set them up, and the reference counts
are the numbers of descriptors in the table. Creating, duplicating and closing preserve this, and a
pipe is deleted together with its endpoints and inodes when no descriptor refers to it.

## Main definitions

* `PipeManager.Consistent`, `PipeManager.Fresh`.
* `PipeManager.Later`: no pipe is new, and the bytes are the same.

## Main results

* `PipeManager.Consistent.addPipe`, `PipeManager.Consistent.duplicatePipeDescriptor`,
  `PipeManager.Consistent.closePipe`.
* `PipeManager.Consistent.later_closePipe`: closing leaves the descriptors of other processes.
-/

namespace TwistedOS

open Function

namespace PipeKernelObject

variable (pipe : PipeKernelObject) (b : Bool)

/-- The pipe with other contents and counts has the same endpoints and inodes. -/
structure SameEnds (pipe pipe' : PipeKernelObject) : Prop where
  endpoint : pipe'.endpoint = pipe.endpoint
  node : pipe'.node = pipe.node

theorem sameEnds_setBuffer (buffer : RingBuffer UInt8 4096) :
    pipe.SameEnds (pipe.setBuffer buffer) := ⟨rfl, rfl⟩

theorem sameEnds_acquire : pipe.SameEnds (pipe.acquire b) := by
  cases b <;> exact ⟨rfl, rfl⟩

theorem sameEnds_release : pipe.SameEnds (pipe.release b) := by
  cases b <;> exact ⟨rfl, rfl⟩

theorem referenceCount_acquire (c : Bool) :
    (pipe.acquire b).referenceCount c = pipe.referenceCount c + if b = c then 1 else 0 := by
  cases b <;> cases c <;> rfl

theorem referenceCount_release (c : Bool) :
    (pipe.release b).referenceCount c = pipe.referenceCount c - if b = c then 1 else 0 := by
  cases b <;> cases c <;> rfl

end PipeKernelObject

namespace PipeManager

/-- The objects in the heap refer to each other as `CreatePipe` has set them up, and the counts are
the numbers of descriptors in the table. -/
structure Consistent (m : PipeManager) : Prop where
  object : ∀ p pipe, m.pipes p = some pipe → ∀ b,
    m.endpoints (pipe.endpoint b) = some ⟨p, b⟩ ∧ m.nodes (pipe.node b) = some (pipe.endpoint b)
  endpoint : ∀ a e, m.endpoints a = some e →
    ∃ pipe, m.pipes e.pipe = some pipe ∧ a = pipe.endpoint e.isReadEnd
  node : ∀ n a, m.nodes n = some a → ∃ e pipe,
    m.endpoints a = some e ∧ m.pipes e.pipe = some pipe ∧ n = pipe.node e.isReadEnd
  tracked : ∀ t ∈ m.pipeEndpointList, m.nodes t.node = some t.endpoint
  count : ∀ p pipe, m.pipes p = some pipe → ∀ b,
    pipe.referenceCount b = m.trackedDescriptors p b
  referenced : ∀ p pipe, m.pipes p = some pipe → ∃ b, pipe.referenceCount b ≠ 0

variable {m : PipeManager} {p : ℕ} {pipe pipe' : PipeKernelObject}
  {list : List TrackedPipeEndpoint}

theorem consistent_empty : Consistent {} where
  object _ _ h := by simp at h
  endpoint _ _ h := by simp at h
  node _ _ h := by simp at h
  tracked _ h := by simp at h
  count _ _ h := by simp at h
  referenced _ _ h := by simp at h

namespace Consistent

/-- A descriptor in the table refers to an end of a pipe. -/
theorem exists_of_tracked (h : m.Consistent) {t : TrackedPipeEndpoint}
    (ht : t ∈ m.pipeEndpointList) : ∃ e pipe, m.endpoints t.endpoint = some e ∧
      m.pipes e.pipe = some pipe ∧ t.node = pipe.node e.isReadEnd :=
  h.node _ _ (h.tracked t ht)

/-- Other contents and counts of a pipe, and another table of descriptors. -/
theorem replace (h : m.Consistent) (hp : m.pipes p = some pipe) (hsame : pipe.SameEnds pipe')
    (htracked : ∀ t ∈ list, m.nodes t.node = some t.endpoint)
    (hcount : ∀ b, pipe'.referenceCount b = (m.setList list).trackedDescriptors p b)
    (hothers : ∀ q ≠ p, ∀ b,
      (m.setList list).trackedDescriptors q b = m.trackedDescriptors q b)
    (hreferenced : ∃ b, pipe'.referenceCount b ≠ 0) :
    ((m.setPipe p pipe').setList list).Consistent where
  object q other hq b := by
    change update m.pipes p (some pipe') q = some other at hq
    rcases eq_or_ne q p with rfl | hne
    · rw [update_self] at hq
      obtain rfl := Option.some.inj hq
      rw [hsame.endpoint, hsame.node]
      exact h.object q pipe hp b
    · rw [update_of_ne hne] at hq
      exact h.object q other hq b
  endpoint a e ha := by
    change ∃ other, update m.pipes p (some pipe') e.pipe = some other ∧ _
    obtain ⟨other, he, rfl⟩ := h.endpoint a e ha
    rcases eq_or_ne e.pipe p with hep | hne
    · rw [hep] at he ⊢
      rw [update_self]
      obtain rfl := Option.some.inj (hp.symm.trans he)
      exact ⟨pipe', rfl, by rw [hsame.endpoint]⟩
    · rw [update_of_ne hne]
      exact ⟨other, he, rfl⟩
  node n a hn := by
    change ∃ e other, m.endpoints a = some e ∧ update m.pipes p (some pipe') e.pipe = some other ∧ _
    obtain ⟨e, other, ha, he, rfl⟩ := h.node n a hn
    rcases eq_or_ne e.pipe p with hep | hne
    · rw [hep] at he
      obtain rfl := Option.some.inj (hp.symm.trans he)
      exact ⟨e, pipe', ha, by rw [hep, update_self], by rw [hsame.node]⟩
    · exact ⟨e, other, ha, by rwa [update_of_ne hne], rfl⟩
  tracked := htracked
  count q other hq b := by
    change update m.pipes p (some pipe') q = some other at hq
    change other.referenceCount b = (m.setList list).trackedDescriptors q b
    rcases eq_or_ne q p with rfl | hne
    · rw [update_self] at hq
      obtain rfl := Option.some.inj hq
      exact hcount b
    · rw [update_of_ne hne] at hq
      rw [hothers q hne]
      exact h.count q other hq b
  referenced q other hq := by
    change update m.pipes p (some pipe') q = some other at hq
    rcases eq_or_ne q p with rfl | hne
    · rw [update_self] at hq
      obtain rfl := Option.some.inj hq
      exact hreferenced
    · rw [update_of_ne hne] at hq
      exact h.referenced q other hq

theorem pipes_deletePipe {q : ℕ} {other : PipeKernelObject} :
    (m.deletePipe p pipe).pipes q = some other ↔ q ≠ p ∧ m.pipes q = some other := by
  change update m.pipes p none q = some other ↔ _
  rcases eq_or_ne q p with rfl | hne
  · simp
  · simp [hne]

section

variable (h : m.Consistent) (hp : m.pipes p = some pipe)

include h hp

/-- The endpoints that are left are those of other pipes. -/
theorem endpoints_deletePipe {a : ℕ} {e : PipeEndpoint} :
    (m.deletePipe p pipe).endpoints a = some e ↔ e.pipe ≠ p ∧ m.endpoints a = some e := by
  change update (update m.endpoints pipe.readEndpoint none) pipe.writeEndpoint none a = some e ↔ _
  have hread := (h.object p pipe hp true).1
  have hwrite := (h.object p pipe hp false).1
  by_cases hwa : a = pipe.writeEndpoint
  · subst hwa
    rw [update_self]
    refine iff_of_false (by simp) fun ⟨hne, he⟩ => hne ?_
    rw [← Option.some.inj (hwrite.symm.trans he)]
  by_cases hra : a = pipe.readEndpoint
  · subst hra
    rw [update_of_ne hwa, update_self]
    refine iff_of_false (by simp) fun ⟨hne, he⟩ => hne ?_
    rw [← Option.some.inj (hread.symm.trans he)]
  rw [update_of_ne hwa, update_of_ne hra]
  refine ⟨fun he => ⟨fun hep => ?_, he⟩, And.right⟩
  obtain ⟨other, hother, ha⟩ := h.endpoint a e he
  rw [hep] at hother
  obtain rfl := Option.some.inj (hp.symm.trans hother)
  rw [PipeKernelObject.endpoint] at ha
  split_ifs at ha
  · exact hra ha
  · exact hwa ha

/-- The inodes that are left are those of other pipes. -/
theorem nodes_deletePipe {n a : ℕ} :
    (m.deletePipe p pipe).nodes n = some a ↔
      m.nodes n = some a ∧ ∀ b, m.endpoints a ≠ some ⟨p, b⟩ := by
  change update (update m.nodes pipe.readNode none) pipe.writeNode none n = some a ↔ _
  have hread := h.object p pipe hp true
  have hwrite := h.object p pipe hp false
  by_cases hwn : n = pipe.writeNode
  · subst hwn
    rw [update_self]
    refine iff_of_false (by simp) fun ⟨ha, hne⟩ => hne false ?_
    rw [← Option.some.inj (hwrite.2.symm.trans ha)]
    exact hwrite.1
  by_cases hrn : n = pipe.readNode
  · subst hrn
    rw [update_of_ne hwn, update_self]
    refine iff_of_false (by simp) fun ⟨ha, hne⟩ => hne true ?_
    rw [← Option.some.inj (hread.2.symm.trans ha)]
    exact hread.1
  rw [update_of_ne hwn, update_of_ne hrn]
  refine ⟨fun ha => ⟨ha, fun b hb => ?_⟩, And.left⟩
  obtain ⟨e, other, he, hother, hn⟩ := h.node n a ha
  obtain rfl := Option.some.inj (hb.symm.trans he)
  obtain rfl := Option.some.inj (hp.symm.trans hother)
  cases b
  · exact hwn hn
  · exact hrn hn

/-- A pipe without descriptors in the table is deleted. -/
theorem deletePipe (hsub : ∀ t ∈ list, t ∈ m.pipeEndpointList)
    (hgone : ∀ b, (m.setList list).trackedDescriptors p b = 0)
    (hothers : ∀ q ≠ p, ∀ b, (m.setList list).trackedDescriptors q b = m.trackedDescriptors q b) :
    ((m.setList list).deletePipe p pipe).Consistent where
  object q other hq b := by
    obtain ⟨hne, hq⟩ := pipes_deletePipe.mp hq
    obtain ⟨hend, hnode⟩ := h.object q other hq b
    refine ⟨(h.endpoints_deletePipe hp).mpr ⟨hne, hend⟩, (h.nodes_deletePipe hp).mpr ⟨hnode, ?_⟩⟩
    intro c hc
    exact hne (congrArg PipeEndpoint.pipe (Option.some.inj (hend.symm.trans hc)))
  endpoint a e ha := by
    obtain ⟨hne, ha⟩ := (h.endpoints_deletePipe hp).mp ha
    obtain ⟨other, he, hend⟩ := h.endpoint a e ha
    exact ⟨other, pipes_deletePipe.mpr ⟨hne, he⟩, hend⟩
  node n a hn := by
    obtain ⟨hn, hnot⟩ := (h.nodes_deletePipe hp).mp hn
    obtain ⟨e, other, ha, he, hnode⟩ := h.node n a hn
    have hne : e.pipe ≠ p := by
      rintro rfl
      exact hnot e.isReadEnd ha
    exact ⟨e, other, (h.endpoints_deletePipe hp).mpr ⟨hne, ha⟩, pipes_deletePipe.mpr ⟨hne, he⟩,
      hnode⟩
  tracked t ht := by
    refine (h.nodes_deletePipe hp).mpr ⟨h.tracked t (hsub t ht), fun b hb => ?_⟩
    exact List.countP_eq_zero.mp (hgone b) t ht (decide_eq_true hb)
  count q other hq b := by
    obtain ⟨hne, hq⟩ := pipes_deletePipe.mp hq
    rw [h.count q other hq b, ← hothers q hne b]
    refine List.countP_congr fun t _ => ?_
    simp only [decide_eq_true_eq]
    exact ((h.endpoints_deletePipe hp).trans (and_iff_right hne)).symm
  referenced q other hq := h.referenced q other (pipes_deletePipe.mp hq).2

end

end Consistent

/-- `new` returns addresses that are not in use. -/
structure Fresh (m : PipeManager) (new : NewPipe) : Prop where
  pipe : m.pipes new.pipe = none
  readEndpoint : m.endpoints new.readEndpoint = none
  writeEndpoint : m.endpoints new.writeEndpoint = none
  readNode : m.nodes new.readNode = none
  writeNode : m.nodes new.writeNode = none
  endpoints_ne : new.readEndpoint ≠ new.writeEndpoint
  nodes_ne : new.readNode ≠ new.writeNode

namespace Fresh

variable {new : NewPipe}

theorem pipes_addPipe (h : m.Fresh new) {q : ℕ} {other : PipeKernelObject} :
    (m.addPipe new).pipes q = some other ↔
      (q = new.pipe ∧ other = new.object) ∨ m.pipes q = some other := by
  change update m.pipes new.pipe (some new.object) q = some other ↔ _
  rcases eq_or_ne q new.pipe with rfl | hne
  · simp [h.pipe, eq_comm]
  · simp [hne]

theorem endpoints_addPipe (h : m.Fresh new) {a : ℕ} {e : PipeEndpoint} :
    (m.addPipe new).endpoints a = some e ↔
      (∃ b, a = new.object.endpoint b ∧ e = ⟨new.pipe, b⟩) ∨ m.endpoints a = some e := by
  change update (update m.endpoints new.readEndpoint _) new.writeEndpoint _ a = some e ↔ _
  have hne := h.endpoints_ne
  rw [Bool.exists_bool]
  change _ ↔ ((a = new.writeEndpoint ∧ _) ∨ (a = new.readEndpoint ∧ _)) ∨ _
  rcases eq_or_ne a new.writeEndpoint with rfl | hwa
  · simp [h.writeEndpoint, hne.symm, eq_comm]
  rcases eq_or_ne a new.readEndpoint with rfl | hra
  · simp [h.readEndpoint, hwa, eq_comm]
  · simp [hwa, hra]

theorem nodes_addPipe (h : m.Fresh new) {n a : ℕ} :
    (m.addPipe new).nodes n = some a ↔
      (∃ b, n = new.object.node b ∧ a = new.object.endpoint b) ∨ m.nodes n = some a := by
  change update (update m.nodes new.readNode _) new.writeNode _ n = some a ↔ _
  have hne := h.nodes_ne
  rw [Bool.exists_bool]
  change _ ↔ ((n = new.writeNode ∧ a = new.writeEndpoint) ∨
    (n = new.readNode ∧ a = new.readEndpoint)) ∨ _
  rcases eq_or_ne n new.writeNode with rfl | hwn
  · simp [h.writeNode, hne.symm, eq_comm]
  rcases eq_or_ne n new.readNode with rfl | hrn
  · simp [h.readNode, hwn, eq_comm]
  · simp [hwn, hrn]

end Fresh

/-- The descriptors of a new pipe. -/
def newEntries (owner : ℕ) (readFileDescriptor writeFileDescriptor : ℤ) (new : NewPipe) :
    List TrackedPipeEndpoint :=
  [⟨owner, readFileDescriptor, new.readNode, new.readEndpoint⟩,
    ⟨owner, writeFileDescriptor, new.writeNode, new.writeEndpoint⟩]

theorem createPipe_cases (m : PipeManager) (owner : ℕ)
    (readFileDescriptor writeFileDescriptor : ℤ) (new : NewPipe) :
    (∃ code, m.createPipe owner readFileDescriptor writeFileDescriptor new = (m, .error code)) ∨
      new.hasFailed = false ∧
        m.createPipe owner readFileDescriptor writeFileDescriptor new =
          ((m.addPipe new).setList (m.pipeEndpointList ++
            newEntries owner readFileDescriptor writeFileDescriptor new),
            .ok (new.readNode, new.writeNode)) := by
  rw [createPipe]
  split_ifs with hargs hfull hfailed
  · exact .inl ⟨_, rfl⟩
  · exact .inl ⟨_, rfl⟩
  · exact .inl ⟨_, rfl⟩
  · exact .inr ⟨by simpa using hfailed, rfl⟩

namespace Consistent

variable {new : NewPipe} {owner : ℕ} {readFileDescriptor writeFileDescriptor fileDescriptor : ℤ}
  {node : ℕ}

section

variable (h : m.Consistent)

include h

/-- A new pipe has one descriptor for each of its ends. -/
private theorem trackedDescriptors_addPipe (hfresh : m.Fresh new) (q : ℕ) (b : Bool) :
    ((m.addPipe new).setList (m.pipeEndpointList ++
      newEntries owner readFileDescriptor writeFileDescriptor new)).trackedDescriptors q b =
        if q = new.pipe then 1 else m.trackedDescriptors q b := by
  have hold : m.pipeEndpointList.countP
      (fun t => (m.addPipe new).endpoints t.endpoint = some ⟨q, b⟩) =
        m.trackedDescriptors q b := by
    refine List.countP_congr fun t ht => ?_
    simp only [decide_eq_true_eq]
    obtain ⟨e, -, he, -⟩ := h.exists_of_tracked ht
    rw [hfresh.endpoints_addPipe.mpr (.inr he), he]
  have hread : (m.addPipe new).endpoints new.readEndpoint = some ⟨new.pipe, true⟩ :=
    hfresh.endpoints_addPipe.mpr (.inl ⟨true, rfl, rfl⟩)
  have hwrite : (m.addPipe new).endpoints new.writeEndpoint = some ⟨new.pipe, false⟩ :=
    hfresh.endpoints_addPipe.mpr (.inl ⟨false, rfl, rfl⟩)
  change (m.pipeEndpointList ++ newEntries owner readFileDescriptor writeFileDescriptor new).countP
    (fun t => (m.addPipe new).endpoints t.endpoint = some ⟨q, b⟩) = _
  rw [List.countP_append, hold, newEntries, List.countP_cons, List.countP_singleton]
  simp only [hread, hwrite, Option.some.injEq, PipeEndpoint.mk.injEq, decide_eq_true_eq]
  by_cases hq : q = new.pipe
  · -- a descriptor that was there before cannot refer to the new pipe
    have hnone : m.trackedDescriptors q b = 0 := by
      refine List.countP_eq_zero.mpr fun t _ => ?_
      rw [decide_eq_true_eq]
      intro he
      obtain ⟨other, hother, -⟩ := h.endpoint _ _ he
      rw [hq, hfresh.pipe] at hother
      exact absurd hother (by simp)
    rw [hnone, if_pos hq]
    cases b <;> simp [hq]
  · rw [if_neg hq]
    simp [Ne.symm hq]

/-- `CreatePipe` puts two descriptors into the table. -/
theorem addPipe (hfresh : m.Fresh new) :
    ((m.addPipe new).setList (m.pipeEndpointList ++
      newEntries owner readFileDescriptor writeFileDescriptor new)).Consistent where
  object q other hq b := by
    rcases hfresh.pipes_addPipe.mp hq with ⟨rfl, rfl⟩ | hq
    · exact ⟨hfresh.endpoints_addPipe.mpr (.inl ⟨b, rfl, rfl⟩),
        hfresh.nodes_addPipe.mpr (.inl ⟨b, rfl, rfl⟩)⟩
    · obtain ⟨hend, hnode⟩ := h.object q other hq b
      exact ⟨hfresh.endpoints_addPipe.mpr (.inr hend), hfresh.nodes_addPipe.mpr (.inr hnode)⟩
  endpoint a e ha := by
    rcases hfresh.endpoints_addPipe.mp ha with ⟨b, rfl, rfl⟩ | ha
    · exact ⟨new.object, hfresh.pipes_addPipe.mpr (.inl ⟨rfl, rfl⟩), rfl⟩
    · obtain ⟨other, he, hend⟩ := h.endpoint a e ha
      exact ⟨other, hfresh.pipes_addPipe.mpr (.inr he), hend⟩
  node n a hn := by
    rcases hfresh.nodes_addPipe.mp hn with ⟨b, rfl, rfl⟩ | hn
    · exact ⟨⟨new.pipe, b⟩, new.object, hfresh.endpoints_addPipe.mpr (.inl ⟨b, rfl, rfl⟩),
        hfresh.pipes_addPipe.mpr (.inl ⟨rfl, rfl⟩), rfl⟩
    · obtain ⟨e, other, ha, he, hnode⟩ := h.node n a hn
      exact ⟨e, other, hfresh.endpoints_addPipe.mpr (.inr ha),
        hfresh.pipes_addPipe.mpr (.inr he), hnode⟩
  tracked t ht := by
    refine hfresh.nodes_addPipe.mpr ?_
    rcases List.mem_append.mp ht with ht | ht
    · exact .inr (h.tracked t ht)
    · simp only [newEntries, List.mem_cons, List.not_mem_nil, or_false] at ht
      rcases ht with rfl | rfl
      · exact .inl ⟨true, rfl, rfl⟩
      · exact .inl ⟨false, rfl, rfl⟩
  count q other hq b := by
    rw [h.trackedDescriptors_addPipe hfresh]
    rcases hfresh.pipes_addPipe.mp hq with ⟨rfl, rfl⟩ | hq
    · rw [if_pos rfl]
      cases b <;> rfl
    · rw [if_neg, h.count q other hq b]
      rintro rfl
      exact absurd (hfresh.pipe.symm.trans hq) (by simp)
  referenced q other hq := by
    rcases hfresh.pipes_addPipe.mp hq with ⟨-, rfl⟩ | hq
    · exact ⟨true, one_ne_zero⟩
    · exact h.referenced q other hq

/-- Reading and writing change the contents only. -/
theorem setBuffer (hp : m.pipes p = some pipe) (buffer : RingBuffer UInt8 4096) :
    (m.setPipe p (pipe.setBuffer buffer)).Consistent :=
  show ((m.setPipe p (pipe.setBuffer buffer)).setList m.pipeEndpointList).Consistent from
    h.replace hp (pipe.sameEnds_setBuffer buffer) h.tracked (h.count p pipe hp)
      (fun _ _ _ => rfl) (h.referenced p pipe hp)

/-- What `DuplicatePipeDescriptor` does: nothing, or it adds a descriptor. -/
theorem duplicatePipeDescriptor_cases (owner : ℕ) (fileDescriptor : ℤ) (node : ℕ) :
    (m.duplicatePipeDescriptor owner fileDescriptor node).1 = m ∨
    ∃ endpoint e pipe, m.nodes node = some endpoint ∧ m.endpoints endpoint = some e ∧
      m.pipes e.pipe = some pipe ∧
      (m.duplicatePipeDescriptor owner fileDescriptor node).1 =
        (m.setPipe e.pipe (pipe.acquire e.isReadEnd)).setList
          (m.pipeEndpointList ++ [⟨owner, fileDescriptor, node, endpoint⟩]) := by
  rw [PipeManager.duplicatePipeDescriptor]
  by_cases hargs : owner = 0 ∨ node = 0 ∨ fileDescriptor < 0
  · rw [if_pos hargs]
    exact .inl rfl
  rw [if_neg hargs]
  rcases hnode : m.nodes node with _ | endpoint
  · exact .inl rfl
  dsimp only
  split_ifs
  · exact .inl rfl
  · exact .inl rfl
  · exact .inl rfl
  obtain ⟨e, pipe, he, hpipe, -⟩ := h.node _ _ hnode
  simp only [findPipe, he, hpipe, Option.map_some]
  exact .inr ⟨endpoint, e, pipe, rfl, he, hpipe, rfl⟩

theorem duplicatePipeDescriptor (owner : ℕ) (fileDescriptor : ℤ) (node : ℕ) :
    (m.duplicatePipeDescriptor owner fileDescriptor node).1.Consistent := by
  rcases h.duplicatePipeDescriptor_cases owner fileDescriptor node with
    hsame | ⟨endpoint, e, pipe, hnode, he, hpipe, hnew⟩
  · rw [hsame]
    exact h
  have hcount : ∀ q b, (m.setList (m.pipeEndpointList ++
      [⟨owner, fileDescriptor, node, endpoint⟩])).trackedDescriptors q b =
        m.trackedDescriptors q b + if e = ⟨q, b⟩ then 1 else 0 := by
    intro q b
    simp only [trackedDescriptors, setList, List.countP_append, List.countP_singleton, he,
      Option.some.injEq, decide_eq_true_eq]
    rfl
  rw [hnew]
  refine h.replace hpipe (pipe.sameEnds_acquire _) ?_ (fun b => ?_) (fun q hq b => ?_) ?_
  · intro t ht
    rcases List.mem_append.mp ht with ht | ht
    · exact h.tracked t ht
    · obtain rfl := List.mem_singleton.mp ht
      exact hnode
  · rw [hcount, PipeKernelObject.referenceCount_acquire, h.count _ _ hpipe]
    rcases e with ⟨q, c⟩
    simp
  · rw [hcount, if_neg, Nat.add_zero]
    rintro rfl
    exact hq rfl
  · refine ⟨e.isReadEnd, ?_⟩
    rw [PipeKernelObject.referenceCount_acquire, if_pos rfl]
    exact Nat.succ_ne_zero _

/-- What `ClosePipe` does: nothing, or it removes a descriptor, and the pipe with its last one. -/
theorem closePipe_cases (owner : ℕ) (fileDescriptor : ℤ) (node : ℕ) :
    (m.closePipe owner fileDescriptor node).1 = m ∨
    ∃ l₁ t l₂ e pipe, m.pipeEndpointList = l₁ ++ t :: l₂ ∧ t.owner = owner ∧
      m.endpoints t.endpoint = some e ∧ m.pipes e.pipe = some pipe ∧
      (m.closePipe owner fileDescriptor node).1 =
        if (pipe.release e.isReadEnd).readerReferenceCount = 0 ∧
            (pipe.release e.isReadEnd).writerReferenceCount = 0 then
          (m.setList (l₁ ++ l₂)).deletePipe e.pipe pipe
        else (m.setPipe e.pipe (pipe.release e.isReadEnd)).setList (l₁ ++ l₂) := by
  rw [closePipe]
  by_cases hargs : owner = 0 ∨ fileDescriptor < 0 ∨ node = 0
  · rw [if_pos hargs]
    exact .inl rfl
  rw [if_neg hargs]
  rcases hfind : m.pipeEndpointList.find? (isEntryOf owner fileDescriptor node) with _ | t
  · exact .inl rfl
  obtain ⟨hentry, l₁, l₂, hlist, hbefore⟩ := List.find?_eq_some_iff_append.mp hfind
  have herase : m.pipeEndpointList.eraseP (isEntryOf owner fileDescriptor node) = l₁ ++ l₂ := by
    rw [hlist, List.eraseP_append_right _ (by simpa using hbefore), List.eraseP_cons_of_pos hentry]
  obtain ⟨e, pipe, he, hpipe, -⟩ := h.exists_of_tracked (t := t) (by simp [hlist])
  refine .inr ⟨l₁, t, l₂, e, pipe, hlist, (of_decide_eq_true hentry).1, he, hpipe, ?_⟩
  have hfound : (m.setList (l₁ ++ l₂)).findPipe t.endpoint = some (e, pipe) := by
    change m.findPipe t.endpoint = _
    simp only [findPipe, he, hpipe, Option.map_some]
  dsimp only
  rw [herase, releaseEndpoint, hfound]
  rfl

end

/-- One descriptor less of the end to which it refers. -/
private theorem trackedDescriptors_remove {l₁ l₂ : List TrackedPipeEndpoint}
    {t : TrackedPipeEndpoint} {e : PipeEndpoint} (hlist : m.pipeEndpointList = l₁ ++ t :: l₂)
    (he : m.endpoints t.endpoint = some e) (q : ℕ) (b : Bool) :
    m.trackedDescriptors q b =
      (m.setList (l₁ ++ l₂)).trackedDescriptors q b + if e = ⟨q, b⟩ then 1 else 0 := by
  simp only [trackedDescriptors, setList, hlist, List.countP_append, List.countP_cons, he,
    Option.some.injEq, decide_eq_true_eq]
  exact (Nat.add_assoc ..).symm

theorem closePipe (h : m.Consistent) (owner : ℕ) (fileDescriptor : ℤ) (node : ℕ) :
    (m.closePipe owner fileDescriptor node).1.Consistent := by
  rcases h.closePipe_cases owner fileDescriptor node with
    hsame | ⟨l₁, t, l₂, e, pipe, hlist, -, he, hpipe, hnew⟩
  · rw [hsame]
    exact h
  have hsub : ∀ x ∈ l₁ ++ l₂, x ∈ m.pipeEndpointList := by
    intro x hx
    rw [hlist, List.mem_append, List.mem_cons]
    rcases List.mem_append.mp hx with hx | hx
    · exact .inl hx
    · exact .inr (.inr hx)
  have hremove := trackedDescriptors_remove hlist he
  have hothers : ∀ q ≠ e.pipe, ∀ b,
      (m.setList (l₁ ++ l₂)).trackedDescriptors q b = m.trackedDescriptors q b := by
    intro q hq b
    rw [hremove q b, if_neg, Nat.add_zero]
    rintro rfl
    exact hq rfl
  have hcount : ∀ b, (pipe.release e.isReadEnd).referenceCount b =
      (m.setList (l₁ ++ l₂)).trackedDescriptors e.pipe b := by
    intro b
    rw [PipeKernelObject.referenceCount_release, h.count _ _ hpipe, hremove e.pipe b]
    rcases e with ⟨q, c⟩
    simp
  rw [hnew]
  split_ifs with hlast
  · refine h.deletePipe hpipe hsub (fun b => ?_) hothers
    rw [← hcount b]
    cases b
    · exact hlast.2
    · exact hlast.1
  · refine h.replace hpipe (pipe.sameEnds_release _) (fun x hx => h.tracked x (hsub x hx)) hcount
      hothers ?_
    rcases not_and_or.mp hlast with hread | hwrite
    · exact ⟨true, hread⟩
    · exact ⟨false, hwrite⟩

end Consistent

/-- The endpoints and pipes are those that were there before, with the same bytes. -/
structure Later (m m' : PipeManager) : Prop where
  endpoints : ∀ a e, m'.endpoints a = some e → m.endpoints a = some e
  buffers : ∀ p pipe', m'.pipes p = some pipe' →
    ∃ pipe, m.pipes p = some pipe ∧ pipe'.buffer = pipe.buffer

theorem Later.refl (m : PipeManager) : m.Later m :=
  ⟨fun _ _ => id, fun _ pipe h => ⟨pipe, h, rfl⟩⟩

theorem later_setPipe (hp : m.pipes p = some pipe) (hbuffer : pipe'.buffer = pipe.buffer) :
    m.Later ((m.setPipe p pipe').setList list) where
  endpoints _ _ := id
  buffers q other hq := by
    change update m.pipes p (some pipe') q = some other at hq
    rcases eq_or_ne q p with rfl | hne
    · rw [update_self] at hq
      exact ⟨pipe, hp, Option.some.inj hq ▸ hbuffer⟩
    · rw [update_of_ne hne] at hq
      exact ⟨other, hq, rfl⟩

theorem Consistent.later_duplicatePipeDescriptor (h : m.Consistent) (owner : ℕ)
    (fileDescriptor : ℤ) (node : ℕ) :
    m.Later (m.duplicatePipeDescriptor owner fileDescriptor node).1 ∧
      m.pipeEndpointList ⊆
        (m.duplicatePipeDescriptor owner fileDescriptor node).1.pipeEndpointList := by
  rcases h.duplicatePipeDescriptor_cases owner fileDescriptor node with
    hsame | ⟨endpoint, e, pipe, -, -, hpipe, hnew⟩
  · rw [hsame]
    exact ⟨.refl m, fun _ => id⟩
  · rw [hnew]
    refine ⟨later_setPipe hpipe ?_, List.subset_append_left _ _⟩
    rw [PipeKernelObject.acquire]
    split_ifs <;> rfl

/-- Closing leaves the descriptors of other processes. -/
theorem Consistent.later_closePipe (h : m.Consistent) (owner : ℕ) (fileDescriptor : ℤ)
    (node : ℕ) :
    m.Later (m.closePipe owner fileDescriptor node).1 ∧
      ∀ t ∈ m.pipeEndpointList, t.owner ≠ owner →
        t ∈ (m.closePipe owner fileDescriptor node).1.pipeEndpointList := by
  rcases h.closePipe_cases owner fileDescriptor node with
    hsame | ⟨l₁, t, l₂, e, pipe, hlist, howner, -, hpipe, hnew⟩
  · rw [hsame]
    exact ⟨.refl m, fun t ht _ => ht⟩
  have hkeeps : ∀ x ∈ m.pipeEndpointList, x.owner ≠ owner → x ∈ l₁ ++ l₂ := by
    intro x hx hne
    rw [hlist, List.mem_append, List.mem_cons] at hx
    rw [List.mem_append]
    rcases hx with hx | rfl | hx
    · exact .inl hx
    · exact absurd howner hne
    · exact .inr hx
  rw [hnew]
  split_ifs
  · refine ⟨⟨fun a e' ha => ((h.endpoints_deletePipe hpipe).mp ha).2, fun q other hq => ?_⟩, hkeeps⟩
    exact ⟨other, (pipes_deletePipe.mp hq).2, rfl⟩
  · refine ⟨later_setPipe hpipe ?_, hkeeps⟩
    rw [PipeKernelObject.release]
    split_ifs <;> rfl

end PipeManager

end TwistedOS
