import Mathlib.Data.Set.Insert
import TwistedOS.Files.PathResolution

/-!
# Entries of a path and trees that agree apart from some of them

A path leads through the dentries that its resolution finds by name, its *entries*. When two trees
agree apart from some dentries, a path that is resolved in the first tree is resolved to the same
dentry in the second one, through the same entries, unless it leads through one of those dentries.

## Main definitions

* `DentryTree.pathEntries`.
* `DentryTree.Rooted`, `DentryTree.Outside`.
* `DentryTree.KeepsApart` — the second tree has what the first one has, apart from some dentries.
* `DentryTree.EditsEntry` — apart from one dentry.

## Main results

* `DentryTree.KeepsApart.resolve`, `DentryTree.rooted_of_resolve`.
* `DentryTree.resolve_of_noFollow` — what is found without following the last component is found
  with following it, unless it is a link.
-/

namespace TwistedOS

namespace DentryTree

variable (tree : DentryTree)

/-- The entries of a walk; `linkEntries` gives those behind a link. -/
def walkEntries (followFinal : Bool) (linkEntries : ℕ → List UInt8 → List ℕ) :
    ℕ → List (List UInt8 × List UInt8) → List ℕ
  | _, [] => []
  | current, (segment, rest) :: more =>
    if segment = [pathDot] then walkEntries followFinal linkEntries current more
    else if segment = [pathDot, pathDot] then
      walkEntries followFinal linkEntries (tree.parentOrSelf current) more
    else
      match tree.findChildBySegment current segment with
      | none => []
      | some next =>
        next ::
          if (tree.inode next).nodeType = .symlink then
            if ¬followFinal ∧ rest = [] then walkEntries followFinal linkEntries next more
            else linkEntries next rest
          else walkEntries followFinal linkEntries next more

/-- The entries behind a link while the budget lasts. -/
def entriesBehind (root : ℕ) (restart : ℕ → List UInt8 → List ℕ) (next : ℕ) (rest : List UInt8) :
    List ℕ :=
  match ensureLazyLoadedINodeData (tree.inode next) with
  | none => []
  | some data =>
    restart (tree.symlinkBase root next (tree.targetPath next data))
      (combinedPath (tree.targetPath next data) rest)

/-- The entries of a path. -/
def pathEntries (root : ℕ) (followFinal : Bool) : ℕ → ℕ → List UInt8 → List ℕ
  | 0, start, path =>
    tree.walkEntries followFinal (fun _ _ => [])
      (if (cString path).head? = some pathSeparator then root else start)
      (Text.segments pathSeparator (cString path))
  | depth + 1, start, path =>
    tree.walkEntries followFinal (tree.entriesBehind root (pathEntries root followFinal depth))
      (if (cString path).head? = some pathSeparator then root else start)
      (Text.segments pathSeparator (cString path))

/-- A child of the root, or of a dentry that is rooted, or the root itself. -/
def Rooted (root d : ℕ) : Prop :=
  Relation.ReflTransGen (fun parent child => child ∈ (tree.dentry parent).children) root d

/-- A dentry that is neither `x` nor below it. -/
def Outside (x d : ℕ) : Prop := ¬tree.Ancestor x d

/-- On the dentries of a closed set, the second tree has what the first one has, apart from the
names of some dentries, which it lacks. -/
structure KeepsApart (inside : ℕ → Prop) (apart : Set ℕ) (tree tree' : DentryTree) : Prop where
  inode : ∀ d, inside d → tree'.inode d = tree.inode d
  parent : ∀ d, inside d → (tree'.dentry d).parent = (tree.dentry d).parent
  inside_parent : ∀ d p, inside d → (tree.dentry d).parent = some p → inside p
  find : ∀ d segment c, inside d → tree.findChildBySegment d segment = some c → c ∉ apart →
    inside c ∧ tree'.findChildBySegment d segment = some c
  lost : ∀ d segment c, inside d → tree.findChildBySegment d segment = some c → c ∈ apart →
    tree'.findChildBySegment d segment = none

/-- The second tree has what the first one has, apart from one dentry. -/
structure EditsEntry (x : ℕ) (tree tree' : DentryTree) : Prop where
  inode : ∀ d, tree'.inode d = tree.inode d
  parent : ∀ d, d ≠ x → (tree'.dentry d).parent = (tree.dentry d).parent
  find : ∀ d segment c, tree.findChildBySegment d segment = some c → c ≠ x →
    tree'.findChildBySegment d segment = some c
  lost : ∀ d segment, tree.findChildBySegment d segment = some x →
    tree'.findChildBySegment d segment = none

/-- A resolution in the first tree gives the same in the second one, or it leads through a dentry
that the second tree lacks. -/
def SameUnless (inside : ℕ → Prop) (apart : Set ℕ) (result result' : Option ℕ)
    (entries entries' : List ℕ) : Prop :=
  ∀ r, result = some r →
    (inside r ∧ (∀ e ∈ entries, e ∉ apart) ∧ result' = some r ∧ entries' = entries) ∨
      (∃ e ∈ entries, e ∈ apart) ∧ result' = none

variable {tree} {tree' : DentryTree} {inside : ℕ → Prop} {apart : Set ℕ}
  {root start current next depth d x r : ℕ} {followFinal : Bool} {path text : List UInt8}

/-! ### Resolution in trees that agree -/

theorem SameUnless.cons {result result' : Option ℕ} {entries entries' : List ℕ}
    (h : SameUnless inside apart result result' entries entries') (hnext : next ∉ apart) :
    SameUnless inside apart result result' (next :: entries) (next :: entries') := by
  intro r hr
  obtain ⟨hinside, hentries, hresult, heq⟩ | ⟨⟨e, he, hapart⟩, hnone⟩ := h r hr
  · refine .inl ⟨hinside, fun e he => ?_, hresult, by rw [heq]⟩
    obtain rfl | he := List.mem_cons.mp he
    · exact hnext
    · exact hentries e he
  · exact .inr ⟨⟨e, List.mem_cons_of_mem next he, hapart⟩, hnone⟩

namespace KeepsApart

section

variable (h : KeepsApart inside apart tree tree')

include h

theorem walk {enterLink enterLink' : ℕ → List UInt8 → Resolution}
    {linkEntries linkEntries' : ℕ → List UInt8 → List ℕ}
    (hlink : ∀ next rest, inside next → (tree.inode next).nodeType = .symlink →
      SameUnless inside apart (enterLink next rest).1 (enterLink' next rest).1
        (linkEntries next rest) (linkEntries' next rest))
    {segments : List (List UInt8 × List UInt8)} (hcurrent : inside current) :
    SameUnless inside apart (tree.walk followFinal enterLink current segments).1
      (tree'.walk followFinal enterLink' current segments).1
      (tree.walkEntries followFinal linkEntries current segments)
      (tree'.walkEntries followFinal linkEntries' current segments) := by
  induction segments generalizing current with
  | nil =>
    rintro r hr
    obtain rfl := Option.some.inj hr
    exact .inl ⟨hcurrent, fun e he => absurd he List.not_mem_nil, rfl, rfl⟩
  | cons head more ih =>
    obtain ⟨segment, rest⟩ := head
    rw [DentryTree.walk, DentryTree.walk, walkEntries, walkEntries]
    by_cases hdot : segment = [pathDot]
    · simp only [if_pos hdot]
      exact ih hcurrent
    simp only [if_neg hdot]
    by_cases hdotDot : segment = [pathDot, pathDot]
    · have hparent : tree'.parentOrSelf current = tree.parentOrSelf current := by
        rw [parentOrSelf, parentOrSelf, h.parent current hcurrent]
      simp only [if_pos hdotDot, hparent]
      refine ih ?_
      rw [parentOrSelf]
      rcases hsome : (tree.dentry current).parent with _ | p
      · exact hcurrent
      · exact h.inside_parent current p hcurrent hsome
    simp only [if_neg hdotDot]
    rcases hfind : tree.findChildBySegment current segment with _ | next
    · exact fun r hr => absurd hr (by simp)
    by_cases hapart : next ∈ apart
    · -- the second tree lacks the dentry, and the path ends here
      rw [h.lost current segment next hcurrent hfind hapart]
      exact fun r _ => .inr ⟨⟨next, List.mem_cons_self, hapart⟩, rfl⟩
    obtain ⟨hnext, hfind'⟩ := h.find current segment next hcurrent hfind hapart
    rw [hfind']
    dsimp only
    rw [h.inode next hnext]
    by_cases hsymlink : (tree.inode next).nodeType = .symlink
    · simp only [if_pos hsymlink]
      by_cases hfinal : ¬followFinal ∧ rest = []
      · simp only [if_pos hfinal]
        exact (ih hnext).cons hapart
      · simp only [if_neg hfinal]
        exact (hlink next rest hnext hsymlink).cons hapart
    · simp only [if_neg hsymlink]
      exact (ih hnext).cons hapart

theorem symlinkBase (hroot : inside root) (hnext : inside next) (target : List UInt8) :
    inside (tree.symlinkBase root next target) ∧
      tree'.symlinkBase root next target = tree.symlinkBase root next target := by
  rw [DentryTree.symlinkBase, DentryTree.symlinkBase, h.parent next hnext]
  refine ⟨?_, rfl⟩
  split
  · exact hroot
  · rcases hparent : (tree.dentry next).parent with _ | p
    · exact hroot
    · exact h.inside_parent next p hnext hparent

/-- Paths are resolved alike in trees that agree, apart from those through what the second tree
lacks. -/
theorem resolve (hroot : inside root) (hstart : inside start) :
    SameUnless inside apart (tree.resolvePathInternal root followFinal depth start path).1
      (tree'.resolvePathInternal root followFinal depth start path).1
      (tree.pathEntries root followFinal depth start path)
      (tree'.pathEntries root followFinal depth start path) := by
  have hbase {start : ℕ} {path : List UInt8} (hstart : inside start) :
      inside (if (cString path).head? = some pathSeparator then root else start) := by
    split
    · exact hroot
    · exact hstart
  induction depth generalizing start path with
  | zero =>
    rw [resolvePathInternal, resolvePathInternal, resolveFrom_eq_walk, resolveFrom_eq_walk,
      pathEntries, pathEntries]
    exact h.walk (fun _ _ _ _ r hr => absurd hr (by simp)) (hbase hstart)
  | succ depth ih =>
    rw [resolvePathInternal_succ, resolvePathInternal_succ, resolveFrom_eq_walk,
      resolveFrom_eq_walk, pathEntries, pathEntries]
    refine h.walk (fun next rest hnext _ => ?_) (hbase hstart)
    rw [followLink, followLink, entriesBehind, entriesBehind, h.inode next hnext]
    rcases ensureLazyLoadedINodeData (tree.inode next) with _ | data
    · exact fun r hr => absurd hr (by simp)
    · have htarget : tree'.targetPath next data = tree.targetPath next data := by
        rw [targetPath, targetPath, h.inode next hnext]
      obtain ⟨hinside, heq⟩ := h.symlinkBase hroot hnext (tree.targetPath next data)
      dsimp only
      rw [htarget, heq]
      exact ih hinside

end

end KeepsApart

/-! ### The outside of a dentry -/

theorem not_outside_self : ¬tree.Outside x x := fun h => h .refl

theorem Outside.parent {p : ℕ} (h : tree.Outside x d) (hparent : (tree.dentry d).parent = some p) :
    tree.Outside x p :=
  fun hp => h (.head hparent hp)

theorem Outside.child (h : tree.Outside x d) (hparent : (tree.dentry current).parent = some d)
    (hne : current ≠ x) : tree.Outside x current := by
  intro hcurrent
  obtain rfl | ⟨p, hp, hx⟩ := Relation.ReflTransGen.cases_head hcurrent
  · exact hne rfl
  · rw [hparent] at hp
    exact h (Option.some.inj hp ▸ hx)

/-- The root is above everything else. -/
theorem outside_root (hroot : (tree.dentry root).parent = none) (hne : x ≠ root) :
    tree.Outside x root := by
  intro h
  obtain rfl | ⟨p, hp, -⟩ := Relation.ReflTransGen.cases_head h
  · exact hne rfl
  · rw [hroot] at hp
    cases hp

theorem EditsEntry.keepsApart (h : EditsEntry x tree tree') :
    KeepsApart (tree.Outside x) {x} tree tree' where
  inode d _ := h.inode d
  parent d hd := h.parent d fun heq => not_outside_self (heq ▸ hd)
  inside_parent _ _ hd hparent := hd.parent hparent
  find d segment c hd hfind hc :=
    ⟨hd.child (parent_of_findChildBySegment hfind) hc, h.find d segment c hfind hc⟩
  lost d segment _ _ hfind hc := h.lost d segment (Set.mem_singleton_iff.mp hc ▸ hfind)

/-- A path that is resolved to a dentry leads through it, and is not resolved without it. -/
theorem EditsEntry.resolve_self (h : EditsEntry x tree tree')
    (hroot : (tree.dentry root).parent = none) (hne : x ≠ root)
    (hx : (tree.resolvePathInternal root followFinal depth root path).1 = some x) :
    (tree'.resolvePathInternal root followFinal depth root path).1 = none := by
  have houtside := outside_root hroot hne
  obtain ⟨hself, -⟩ | ⟨-, hnone⟩ := h.keepsApart.resolve houtside houtside x hx
  · exact absurd hself not_outside_self
  · exact hnone

/-! ### Rooted dentries -/

/-- What is found from the root is rooted. -/
theorem rooted_of_resolve (hroot : (tree.dentry root).parent = none)
    (h : (tree.resolvePathInternal root followFinal depth root path).1 = some r) :
    tree.Rooted root r := by
  have hkeeps : KeepsApart (tree.Rooted root) ∅ tree tree :=
    { inode := fun _ _ => rfl
      parent := fun _ _ => rfl
      inside_parent := fun d p hd hparent => by
        obtain rfl | ⟨p', hp', hd⟩ := Relation.ReflTransGen.cases_tail hd
        · rw [hroot] at hparent
          cases hparent
        · rw [tree.parent_of_mem p' d hd] at hparent
          exact Option.some.inj hparent ▸ hp'
      find := fun d segment c hd hfind _ => ⟨hd.tail (List.mem_of_find?_eq_some hfind), hfind⟩
      lost := fun _ _ _ _ _ hc => absurd hc (Set.notMem_empty _) }
  obtain ⟨hrooted, -⟩ | ⟨⟨e, -, he⟩, -⟩ := hkeeps.resolve .refl .refl r h
  · exact hrooted
  · exact absurd he (Set.notMem_empty e)

theorem Rooted.mem_children {p : ℕ} (h : tree.Rooted root d) (hne : d ≠ root)
    (hparent : (tree.dentry d).parent = some p) : d ∈ (tree.dentry p).children := by
  obtain rfl | ⟨p', -, hd⟩ := Relation.ReflTransGen.cases_tail h
  · exact absurd rfl hne
  · rw [tree.parent_of_mem p' d hd] at hparent
    exact Option.some.inj hparent ▸ hd

/-! ### The last component -/

theorem walk_of_noFollow {enterLink enterLink' : ℕ → List UInt8 → Resolution}
    (hlink : ∀ next rest r, (enterLink next rest).1 = some r → (tree.inode r).nodeType ≠ .symlink →
      (enterLink' next rest).1 = some r)
    (h : (tree.walk false enterLink current (Text.segments pathSeparator text)).1 = some r)
    (hr : (tree.inode r).nodeType ≠ .symlink) :
    (tree.walk true enterLink' current (Text.segments pathSeparator text)).1 = some r := by
  generalize hsegments : Text.segments pathSeparator text = segments at h ⊢
  induction segments generalizing current text with
  | nil => exact h
  | cons head more ih =>
    obtain ⟨segment, rest⟩ := head
    obtain ⟨rfl, -⟩ := Text.segments_eq_cons hsegments
    rw [walk] at h ⊢
    by_cases hdot : segment = [pathDot]
    · rw [if_pos hdot] at h ⊢
      exact ih rfl h
    rw [if_neg hdot] at h ⊢
    by_cases hdotDot : segment = [pathDot, pathDot]
    · rw [if_pos hdotDot] at h ⊢
      exact ih rfl h
    rw [if_neg hdotDot] at h ⊢
    rcases hfind : tree.findChildBySegment current segment with _ | next
    · simp [hfind] at h
    simp only [hfind] at h ⊢
    by_cases hsymlink : (tree.inode next).nodeType = .symlink
    · simp only [if_pos hsymlink] at h ⊢
      by_cases hrest : rest = []
      · -- the link itself is found
        subst hrest
        simp only [Bool.false_eq_true, not_false_eq_true, true_and, if_true, Text.segments_nil,
          walk] at h
        exact absurd (Option.some.inj h ▸ hsymlink) hr
      · simp only [hrest, and_false, if_false] at h ⊢
        exact hlink next rest r h hr
    · simp only [if_neg hsymlink] at h ⊢
      exact ih rfl h

theorem resolve_of_noFollow
    (h : (tree.resolvePathInternal root false depth start path).1 = some r)
    (hr : (tree.inode r).nodeType ≠ .symlink) :
    (tree.resolvePathInternal root true depth start path).1 = some r := by
  induction depth generalizing start path r with
  | zero =>
    rw [resolvePathInternal, resolveFrom_eq_walk] at h ⊢
    exact walk_of_noFollow (fun _ _ r h _ => absurd h (by simp)) h hr
  | succ depth ih =>
    rw [resolvePathInternal_succ, resolveFrom_eq_walk] at h ⊢
    refine walk_of_noFollow (fun next rest r h hr => ?_) h hr
    rw [followLink] at h ⊢
    rcases hdata : ensureLazyLoadedINodeData (tree.inode next) with _ | data
    · simp [hdata] at h
    · simp only [hdata] at h ⊢
      exact ih h hr

end DentryTree

end TwistedOS
