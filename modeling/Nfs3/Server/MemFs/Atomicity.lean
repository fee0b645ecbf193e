import Mathlib.Data.FinEnum
import Nfs3.Lib.Chain
import Nfs3.Server.MemFs.Tree

/-!
# Which failing calls leave the in-memory file system as it was

Every error exit of the operations other than `rename` comes before the first change or
undoes it. `rename` removes an existing target before it looks for the source among the
ancestors of the target directory, and it takes the source out of its old directory before
it has seen the new one. `Op.Tears` is the exact set of renames that fail in between.
-/
namespace Nfs3.Memfs

open LinkedTree

namespace Fs

variable {order : HashOrder} {fs fs' fs₁ : Fs} {fd td sid tid : FileHandleU64} {fn tn : Filename3}
  {fromEntry toEntry : Entry} {e : Nfsstat3}

def isDirAt (fs : Fs) (i : FileHandleU64) : Bool := (fs.get i).any Entry.isDir

/-- The parent of a directory below the root. The handles in `stop` have none. -/
def parentBelow (fs : Fs) (stop : List FileHandleU64) (i : FileHandleU64) : Option FileHandleU64 :=
  if i ∈ stop ∨ i = fs.root then none else fs.up i

/-- The parents of `i` lead to the root. -/
def Clear (fs : Fs) (stop : List FileHandleU64) (i : FileHandleU64) : Prop :=
  ∃ c, Chain.Ends (fs.parentBelow stop) i c ∧ c ∉ stop ∧ fs.isDirAt c

/-- The parents of `i` lead to a handle in `stop` or to one that is no directory. -/
def Blocked (fs : Fs) (stop : List FileHandleU64) (i : FileHandleU64) : Prop :=
  ∃ c, Chain.Ends (fs.parentBelow stop) i c ∧ (c ∈ stop ∨ fs.isDirAt c = false)

/-- What the ancestor loop answers where it stops. -/
def stopResult (fs : Fs) (fromId c : FileHandleU64) : Except Nfsstat3 Unit :=
  if c = fromId then .error .nfs3errInval
  else
    match fs.get c with
    | none => .error .nfs3errNoent
    | some (.dir _) => .ok ()
    | some (.file _) => .error .nfs3errServerfault

theorem ancestorLoop_eq_follow (fuel : ℕ) (i : FileHandleU64) :
    fs.ancestorLoop sid fuel i =
      (Chain.follow (fs.parentBelow [sid]) fuel i).map (fs.stopResult sid) := by
  induction fuel generalizing i with
  | zero => rfl
  | succ fuel ih =>
    rw [ancestorLoop, Chain.follow]
    by_cases hi : i = sid
    · simp [hi, parentBelow, stopResult]
    rw [if_neg hi]
    cases hget : fs.get i with
    | none => simp [parentBelow, up, stopResult, hi, hget]
    | some entry =>
      cases entry with
      | file f => simp [parentBelow, up, stopResult, hi, hget, Entry.up]
      | dir d =>
        by_cases hroot : i = fs.root
        · rw [hroot] at hi hget ⊢
          simp [parentBelow, stopResult, hi, hget]
        · simp [parentBelow, up, hi, hget, Entry.up, hroot, ih]

theorem card_handles : Fintype.card FileHandleU64 ≤ UInt64.size + 1 := by
  have he : FileHandleU64 ≃ Fin UInt64.size :=
    ⟨UInt64.toFin, UInt64.ofFin, fun _ => rfl, fun _ => rfl⟩
  rw [Fintype.card_congr he, Fintype.card_fin]
  exact Nat.le_succ _

theorem stopResult_ok_iff {c : FileHandleU64} :
    fs.stopResult sid c = .ok () ↔ c ∉ [sid] ∧ fs.isDirAt c := by
  unfold stopResult isDirAt
  split_ifs with h
  · simp [h]
  · cases hget : fs.get c with
    | none => simp
    | some entry => cases entry <;> simp [h, Entry.isDir]

theorem stopResult_error_iff {c : FileHandleU64} :
    (∃ e, fs.stopResult sid c = .error e) ↔ c ∈ [sid] ∨ fs.isDirAt c = false := by
  rw [← not_iff_not, not_or, Bool.not_eq_false, ← stopResult_ok_iff]
  cases fs.stopResult sid c <;> simp

theorem checkAncestors_ok_iff :
    fs.checkAncestors fromEntry td = some (.ok ()) ↔
      (fromEntry.isDir → fs.Clear [fromEntry.fileid] td) := by
  unfold checkAncestors
  split_ifs with hdir
  · simp only [ancestorLoop_eq_follow, Option.map_eq_some_iff, stopResult_ok_iff,
      Chain.follow_eq_some_iff card_handles, Clear, hdir, true_imp_iff]
  · simp [hdir]

theorem checkAncestors_error_iff :
    (∃ e, fs.checkAncestors fromEntry td = some (.error e)) ↔
      fromEntry.isDir ∧ fs.Blocked [fromEntry.fileid] td := by
  unfold checkAncestors
  split_ifs with hdir
  · simp only [ancestorLoop_eq_follow, Option.map_eq_some_iff,
      Chain.follow_eq_some_iff card_handles, Blocked, hdir, true_and, ← stopResult_error_iff]
    constructor
    · rintro ⟨e, c, hc, he⟩
      exact ⟨c, hc, e, he⟩
    · rintro ⟨c, hc, e, he⟩
      exact ⟨e, c, hc, he⟩
  · simp [hdir]

theorem isDirAt_eq_true {i : FileHandleU64} :
    fs.isDirAt i = true ↔ ∃ dir, fs.get i = some (.dir dir) := by
  unfold isDirAt
  cases fs.get i with
  | none => simp
  | some entry => cases entry <;> simp [Entry.isDir]

theorem isDirAt_of_get {i : FileHandleU64} {dir : Dir} (h : fs.get i = some (.dir dir)) :
    fs.isDirAt i = true :=
  isDirAt_eq_true.mpr ⟨dir, h⟩

/-- The ways `relink` can go. It has changed the old directory unless that is missing. -/
inductive RelinkResult (fs : Fs) (fd sid td : FileHandleU64) : Except Nfsstat3 Unit × Fs → Prop
  | noSource (e : Nfsstat3) (hfd : fs.isDirAt fd = false) : RelinkResult fs fd sid td (.error e, fs)
  | noTarget {fromDir : Dir} (e : Nfsstat3) (hfd : fs.get fd = some (.dir fromDir))
      (htd : fs.isDirAt td = false ∨ (fd ≠ td ∧ sid ∈ fs.children td)) :
      RelinkResult fs fd sid td (.error e, fs.insert fd (.dir (fromDir.removeEntry sid)))
  | noEntry {fromDir toDir : Dir} (e : Nfsstat3) (hfd : fs.get fd = some (.dir fromDir))
      (htd : (fs.insert fd (.dir (fromDir.removeEntry sid))).get td = some (.dir toDir))
      (hsid : fs.get sid = none) :
      RelinkResult fs fd sid td
        (.error e, (fs.insert fd (.dir (fromDir.removeEntry sid))).insert td
          (.dir (toDir.addEntry sid)))
  | done {fs' : Fs} (hfd : fs.isDirAt fd = true) (htd : fs.isDirAt td = true)
      (hfree : fd = td ∨ sid ∉ fs.children td) (hsid : (fs.get sid).isSome) :
      RelinkResult fs fd sid td (.ok (), fs')

theorem relink_result (fs : Fs) (fd sid td : FileHandleU64) (tn : Filename3) :
    RelinkResult fs fd sid td (fs.relink fd sid td tn) := by
  unfold relink
  split
  · rename_i hfd
    exact .noSource _ (by simp [isDirAt, hfd])
  · rename_i hfd
    exact .noSource _ (by simp [isDirAt, hfd, Entry.isDir])
  rename_i fromDir hfd
  dsimp only
  have hout : ∀ toDir, (fs.insert fd (.dir (fromDir.removeEntry sid))).get td = some (.dir toDir) →
      fs.isDirAt td = true ∧ (sid ∈ toDir.content ↔ fd ≠ td ∧ sid ∈ fs.children td) := by
    intro toDir htd
    rw [get_insert] at htd
    split_ifs at htd with heq
    · cases htd
      exact ⟨heq ▸ isDirAt_of_get hfd, by simp [Dir.removeEntry, heq]⟩
    · refine ⟨isDirAt_of_get htd, ?_⟩
      rw [children_of_get htd]
      simp [Entry.content, Ne.symm heq]
  split
  · rename_i htd
    rw [get_insert] at htd
    split_ifs at htd
    exact .noTarget _ hfd (Or.inl (by simp [isDirAt, htd]))
  · rename_i htd
    rw [get_insert] at htd
    split_ifs at htd
    · cases htd
    · exact .noTarget _ hfd (Or.inl (by simp [isDirAt, htd, Entry.isDir]))
  rename_i toDir htd
  obtain ⟨hdir, hmem⟩ := hout toDir htd
  split_ifs with hin
  · exact .noTarget _ hfd (Or.inr (hmem.mp hin))
  split
  · rename_i hsid
    refine .noEntry _ hfd htd ?_
    rw [get_insert, get_insert] at hsid
    split_ifs at hsid
    exact hsid
  · rename_i entry hsid
    refine .done (isDirAt_of_get hfd) hdir ?_ ?_
    · by_contra hcon
      obtain ⟨hne, hchild⟩ := not_or.mp hcon
      exact hin (hmem.mpr ⟨hne, not_not.mp hchild⟩)
    · have hsome := congrArg Option.isSome hsid
      rw [Option.isSome_some, isSome_replace htd, isSome_replace hfd] at hsome
      exact hsome

theorem relink_error_iff (fs : Fs) (fd sid td : FileHandleU64) (tn : Filename3) :
    (∃ e fs', fs.relink fd sid td tn = (.error e, fs')) ↔
      fs.isDirAt fd = false ∨ fs.isDirAt td = false ∨ (fd ≠ td ∧ sid ∈ fs.children td) ∨
        fs.get sid = none := by
  have hresult := relink_result fs fd sid td tn
  generalize fs.relink fd sid td tn = result at hresult
  cases hresult with
  | noSource e hfd => exact iff_of_true ⟨e, _, rfl⟩ (Or.inl hfd)
  | noTarget e hfd htd =>
    exact iff_of_true ⟨e, _, rfl⟩ (Or.inr (htd.imp_right Or.inl))
  | noEntry e hfd htd hsid => exact iff_of_true ⟨e, _, rfl⟩ (Or.inr (Or.inr (Or.inr hsid)))
  | done hfd htd hfree hsid =>
    refine iff_of_false ?_ ?_
    · rintro ⟨e, fs', h⟩
      cases h
    · rintro (h | h | ⟨hne, hchild⟩ | h)
      · simp [hfd] at h
      · simp [htd] at h
      · exact hfree.elim hne fun hno => hno hchild
      · simp [h] at hsid

/-- An error of `relink` brings back no entry that was missing. -/
theorem relink_error_missing {k : FileHandleU64} (hk : fs.get k = none)
    (h : fs.relink fd sid td tn = (.error e, fs')) : fs'.get k = none := by
  have hresult := relink_result fs fd sid td tn
  rw [h] at hresult
  have hmissing : ∀ {g : Fs} {i : FileHandleU64} {dir dir' : Dir}, g.get k = none →
      g.get i = some (.dir dir) → (g.insert i (.dir dir')).get k = none := by
    intro g i dir dir' hk hi
    rw [get_insert_of_ne, hk]
    rintro rfl
    rw [hk] at hi
    cases hi
  cases hresult with
  | noSource => exact hk
  | noTarget _ hfd => exact hmissing hk hfd
  | noEntry _ hfd htd => exact hmissing (hmissing hk hfd) htd

/-- With the source entry in place, an error of `relink` leaves it out of its old directory. -/
theorem relink_error_state {fromDir : Dir} (hfd : fs.get fd = some (.dir fromDir))
    (hsid : (fs.get sid).isSome) (h : fs.relink fd sid td tn = (.error e, fs')) :
    fs' = fs.insert fd (.dir (fromDir.removeEntry sid)) := by
  have hresult := relink_result fs fd sid td tn
  rw [h] at hresult
  cases hresult with
  | noSource _ hno =>
    rw [isDirAt_of_get hfd] at hno
    cases hno
  | noTarget _ hfd' =>
    rw [hfd] at hfd'
    cases hfd'
    rfl
  | noEntry _ _ _ hnone => simp [hnone] at hsid

theorem relink_torn_iff {fromDir : Dir} (td : FileHandleU64) (tn : Filename3)
    (hfd : fs.get fd = some (.dir fromDir))
    (hsid : (fs.get sid).isSome) :
    (∃ e fs', fs.relink fd sid td tn = (.error e, fs') ∧ fs' ≠ fs) ↔
      sid ∈ fs.children fd ∧
        (fs.isDirAt td = false ∨ (fd ≠ td ∧ sid ∈ fs.children td)) := by
  have hchildren : fs.children fd = fromDir.content := children_of_get hfd
  have hsid' : ¬ fs.get sid = none := by
    intro hnone
    simp [hnone] at hsid
  have herror := relink_error_iff fs fd sid td tn
  simp only [isDirAt_of_get hfd, hsid', Bool.true_eq_false, false_or, or_false] at herror
  rw [← herror, hchildren]
  constructor
  · rintro ⟨e, fs', h, hne⟩
    refine ⟨?_, e, fs', h⟩
    by_contra hmem
    apply hne
    rw [relink_error_state hfd hsid h, Dir.removeEntry, Finset.erase_eq_of_notMem hmem]
    exact insert_self hfd
  · rintro ⟨hmem, e, fs', h⟩
    refine ⟨e, fs', h, ?_⟩
    rintro rfl
    have hstate := relink_error_state hfd hsid h
    have hget := congrArg (fun g : Fs => g.children fd) hstate
    simp only [hchildren, children_insert, if_true, Entry.content, Dir.removeEntry] at hget
    rw [hget] at hmem
    simp at hmem

theorem scan_find {ids : List FileHandleU64} (h : fs.scan tn ids = .ok toEntry) :
    ∃ id, ids.find? (fun i => (fs.get i).any fun f => f.name = tn) = some id ∧
      fs.get id = some toEntry := by
  induction ids with
  | nil => cases h
  | cons id ids ih =>
    unfold scan at h
    split at h
    · cases h
    rename_i f hf
    split_ifs at h with hname
    · cases h
      exact ⟨id, by simp [hf, hname], hf⟩
    · obtain ⟨j, hfind, hget⟩ := ih h
      exact ⟨j, by simpa [hf, hname] using hfind, hget⟩

/-- The target of a rename that `replaceTarget` takes away. -/
structure Replaceable (order : HashOrder) (fs : Fs) (fromEntry : Entry) (td : FileHandleU64)
    (tn : Filename3) (toEntry : Entry) : Prop where
  lookup : fs.lookup order td tn = .ok toEntry
  kind : toEntry.isDir = fromEntry.isDir
  empty : toEntry.content = ∅
  notDot : tn ≠ dot
  notDotDot : tn ≠ dotDot

theorem remove_replaceable (hk : fs.Keyed) (h : Replaceable order fs fromEntry td tn toEntry) :
    ∃ fs', fs.remove order td tn = some (.ok (), fs') ∧ Removed fs td tn toEntry.fileid fs' := by
  have hlookup := h.lookup
  unfold Fs.lookup at hlookup
  split at hlookup
  · cases hlookup
  · cases hlookup
  rename_i dir hdir
  rw [if_neg h.notDot, if_neg h.notDotDot] at hlookup
  obtain ⟨id, hfind, hget⟩ := scan_find hlookup
  have hid : toEntry.fileid = id := hk id toEntry hget
  have hmem : id ∈ dir.content := order.mem_iter.mp (List.mem_of_find?_eq_some hfind)
  have hne : td ≠ id := by
    rintro rfl
    rw [hdir] at hget
    cases hget
    rw [show dir.content = ∅ from h.empty] at hmem
    cases hmem
  have hremove : fs.remove order td tn =
      some (.ok (), (fs.erase id).insert td (.dir (dir.removeEntry id))) := by
    simp only [remove, h.notDot, h.notDotDot, or_self, if_false, hdir, hfind, hget, h.empty,
      ne_eq, not_true, get_erase_of_ne hne]
  obtain ⟨hname, -⟩ := lookup_ok h.notDot h.notDotDot h.lookup
  rw [hid]
  exact ⟨_, hremove, h.notDot, h.notDotDot, hne, ⟨toEntry, hget, hname, h.empty⟩,
    dir, hdir, hmem, rfl⟩

/-- `replaceTarget` finds nothing, takes the target away, or fails without a change. -/
theorem replaceTarget_spec (order : HashOrder) (fromEntry : Entry) (td : FileHandleU64)
    (tn : Filename3) (hk : fs.Keyed) :
    (fs.lookup order td tn = .error .nfs3errNoent ∧
      fs.replaceTarget order fromEntry td tn = some (.ok (), fs)) ∨
    (∃ toEntry fs₁, Replaceable order fs fromEntry td tn toEntry ∧
      fs.replaceTarget order fromEntry td tn = some (.ok (), fs₁) ∧
      Removed fs td tn toEntry.fileid fs₁) ∨
    (fs.lookup order td tn ≠ .error .nfs3errNoent ∧
      (∀ toEntry, ¬ Replaceable order fs fromEntry td tn toEntry) ∧
      ∃ e, fs.replaceTarget order fromEntry td tn = some (.error e, fs)) := by
  by_cases hnoent : fs.lookup order td tn = .error .nfs3errNoent
  · refine Or.inl ⟨hnoent, ?_⟩
    cases fromEntry <;> simp [replaceTarget, hnoent]
  by_cases hrep : ∃ toEntry, Replaceable order fs fromEntry td tn toEntry
  · obtain ⟨toEntry, hrep⟩ := hrep
    obtain ⟨fs₁, hremove, hremoved⟩ := remove_replaceable hk hrep
    refine Or.inr (Or.inl ⟨toEntry, fs₁, hrep, ?_, hremoved⟩)
    have hkind := hrep.kind
    have hempty := hrep.empty
    cases fromEntry with
    | file f =>
      cases toEntry with
      | file g => simp only [replaceTarget, hrep.lookup, hremove]
      | dir d => cases hkind
    | dir f =>
      cases toEntry with
      | file g => cases hkind
      | dir d =>
        rw [Entry.content] at hempty
        simp only [replaceTarget, hrep.lookup, hempty, ne_eq, not_true, if_false, hremove]
  · have hno : ∀ toEntry, ¬ Replaceable order fs fromEntry td tn toEntry := by
      intro toEntry h
      exact hrep ⟨toEntry, h⟩
    refine Or.inr (Or.inr ⟨hnoent, hno, ?_⟩)
    -- a target of the right kind is not replaced only under a name `remove` refuses
    have hdots : ∀ toEntry, fs.lookup order td tn = .ok toEntry →
        toEntry.isDir = fromEntry.isDir → toEntry.content = ∅ → tn = dot ∨ tn = dotDot := by
      intro toEntry hlookup hkind hempty
      by_contra hdots
      obtain ⟨hdot, hdotDot⟩ := not_or.mp hdots
      exact hno toEntry ⟨hlookup, hkind, hempty, hdot, hdotDot⟩
    have hrefused : tn = dot ∨ tn = dotDot →
        fs.remove order td tn = some (.error .nfs3errInval, fs) := by
      intro h
      simp only [remove, h, if_true]
    unfold replaceTarget
    split
    · exact absurd ‹_› hnoent
    · rename_i hlookup
      exact ⟨_, hrefused (hdots _ hlookup rfl rfl)⟩
    · rename_i hlookup
      split_ifs with hempty
      · exact ⟨_, rfl⟩
      · exact ⟨_, hrefused (hdots _ hlookup rfl (not_not.mp hempty))⟩
    · exact ⟨_, rfl⟩
    · exact ⟨_, rfl⟩
    · exact ⟨_, rfl⟩

section Taken

variable (h : Removed fs td tn tid fs₁)

include h

theorem Removed.get_self : fs₁.get tid = none := by
  obtain ⟨dir, -, -, rfl⟩ := h.eq
  rw [get_insert_of_ne h.ne.symm, get_erase_self]

theorem Removed.isSome {i : FileHandleU64} : (fs₁.get i).isSome ↔ (fs.get i).isSome ∧ i ≠ tid := by
  obtain ⟨dir, hdir, -, rfl⟩ := h.eq
  rw [isSome_replace (by rw [get_erase_of_ne h.ne, hdir]), isSome_erase]

theorem Removed.up_eq (i : FileHandleU64) : fs₁.up i = if i = tid then none else fs.up i := by
  obtain ⟨dir, hdir, -, rfl⟩ := h.eq
  have hdir' : (fs.erase tid).get td = some (.dir dir) := by rw [get_erase_of_ne h.ne, hdir]
  have hups : ((fs.erase tid).insert td (.dir (dir.removeEntry tid))).up i = (fs.erase tid).up i :=
    up_replace hdir' rfl
  rw [hups, up, get_erase]
  split_ifs <;> rfl

theorem Removed.isDirAt_iff {i : FileHandleU64} :
    fs₁.isDirAt i = true ↔ fs.isDirAt i = true ∧ i ≠ tid := by
  obtain ⟨dir, hdir, -, rfl⟩ := h.eq
  simp only [isDirAt_eq_true, get_insert, get_erase]
  split_ifs with htd htid
  · simp [htd, hdir, h.ne]
  · simp [htid]
  · simp [htid]

theorem Removed.children_target : fs₁.children td = (fs.children td).erase tid := by
  obtain ⟨dir, hdir, -, rfl⟩ := h.eq
  rw [children_insert, if_pos rfl, children_of_get hdir]
  rfl

/-- Without the target the parents lead where they led before, but for the target itself. -/
theorem Removed.parentBelow_eq : fs₁.parentBelow [sid] = fs.parentBelow [sid, tid] := by
  have hroot : fs₁.root = fs.root := by
    obtain ⟨dir, -, -, rfl⟩ := h.eq
    rfl
  funext i
  simp only [parentBelow, hroot, h.up_eq, List.mem_cons, List.not_mem_nil, or_false]
  by_cases hi : i = sid ∨ i = fs.root
  · rw [if_pos hi, if_pos]
    tauto
  · by_cases htid : i = tid
    · rw [if_neg hi, if_pos htid, if_pos (Or.inl (Or.inr htid))]
    · rw [if_neg hi, if_neg htid, if_neg]
      tauto

theorem Removed.clear_iff : fs₁.Clear [sid] td ↔ fs.Clear [sid, tid] td := by
  simp only [Clear, h.parentBelow_eq, h.isDirAt_iff, List.mem_cons, List.not_mem_nil, or_false,
    not_or]
  exact exists_congr fun c => by tauto

theorem Removed.blocked_iff : fs₁.Blocked [sid] td ↔ fs.Blocked [sid, tid] td := by
  have hfalse : ∀ c, fs₁.isDirAt c = false ↔ c = tid ∨ fs.isDirAt c = false := by
    intro c
    rw [← not_iff_not, Bool.not_eq_false, h.isDirAt_iff, not_or, Bool.not_eq_false, and_comm]
  simp only [Blocked, h.parentBelow_eq, hfalse, List.mem_cons, List.not_mem_nil, or_false, or_assoc]

end Taken

/-- A rename to a free name fails halfway: the ancestors are in order, but the directory does
not exist, or is another one that has the source in its content set already. -/
structure TearsFree (order : HashOrder) (fs : Fs) (fd : FileHandleU64) (fromEntry : Entry)
    (td : FileHandleU64) (tn : Filename3) : Prop where
  free : fs.lookup order td tn = .error .nfs3errNoent
  clear : fromEntry.isDir → fs.Clear [fromEntry.fileid] td
  linked : fromEntry.fileid ∈ fs.children fd
  target : fs.get td = none ∨ (fd ≠ td ∧ fromEntry.fileid ∈ fs.children td)

/-- A rename onto a target that is removed fails after that: the source is an ancestor of the
target directory, or the target was the source or its directory, or the target directory is
another one that has the source in its content set already. -/
structure TearsReplace (order : HashOrder) (fs : Fs) (fd : FileHandleU64) (fromEntry : Entry)
    (td : FileHandleU64) (tn : Filename3) (toEntry : Entry) : Prop where
  replaceable : Replaceable order fs fromEntry td tn toEntry
  fails : (fromEntry.isDir ∧ fs.Blocked [fromEntry.fileid, toEntry.fileid] td) ∨
    ((fromEntry.isDir → fs.Clear [fromEntry.fileid, toEntry.fileid] td) ∧
      (fd = toEntry.fileid ∨ fromEntry.fileid = toEntry.fileid ∨
        (fd ≠ td ∧ fromEntry.fileid ∈ fs.children td)))

/-- What `rename` still has to do once the target is out of the way. -/
theorem rename_after_replace (hlookup : fs.lookup order fd fn = .ok fromEntry)
    (hdistinct : ¬ (fd = td ∧ fn = tn))
    (hreplace : fs.replaceTarget order fromEntry td tn = some (.ok (), fs₁)) :
    fs.rename order fd fn td tn = some (.error e, fs') ↔
      (fs₁.checkAncestors fromEntry td = some (.error e) ∧ fs' = fs₁) ∨
      (fs₁.checkAncestors fromEntry td = some (.ok ()) ∧
        fs₁.relink fd fromEntry.fileid td tn = (.error e, fs')) := by
  simp only [rename, hlookup, if_neg hdistinct, hreplace]
  cases hcheck : fs₁.checkAncestors fromEntry td with
  | none => simp
  | some r =>
    cases r with
    | error e' => simp [eq_comm]
    | ok _ => simp

theorem get_source (hk : fs.Keyed) (hlookup : fs.lookup order fd fn = .ok fromEntry) :
    fs.get fromEntry.fileid = some fromEntry := by
  obtain ⟨id, hget⟩ := lookup_mem hlookup
  rw [hk id fromEntry hget, hget]

theorem get_source_dir (hlookup : fs.lookup order fd fn = .ok fromEntry) :
    ∃ fromDir, fs.get fd = some (.dir fromDir) := by
  unfold lookup at hlookup
  split at hlookup
  · cases hlookup
  · cases hlookup
  · exact ⟨_, ‹_›⟩

theorem torn_free_iff (hk : fs.Keyed) (hlookup : fs.lookup order fd fn = .ok fromEntry)
    (hdistinct : ¬ (fd = td ∧ fn = tn)) (hfree : fs.lookup order td tn = .error .nfs3errNoent)
    (hreplace : fs.replaceTarget order fromEntry td tn = some (.ok (), fs)) :
    (∃ e fs', fs.rename order fd fn td tn = some (.error e, fs') ∧ fs' ≠ fs) ↔
      TearsFree order fs fd fromEntry td tn := by
  obtain ⟨fromDir, hfd⟩ := get_source_dir hlookup
  have hsid := get_source hk hlookup
  have hsome : (fs.get fromEntry.fileid).isSome := by simp [hsid]
  have htorn := relink_torn_iff td tn hfd hsome
  have htd : fs.isDirAt td = false ↔ fs.get td = none := by
    rcases get_of_lookup_noent hfree with hnone | ⟨toDir, htd⟩
    · simp [isDirAt, hnone]
    · simp [isDirAt, htd, Entry.isDir]
  rw [htd] at htorn
  simp only [rename_after_replace hlookup hdistinct hreplace]
  constructor
  · rintro ⟨e, fs', ⟨-, rfl⟩ | ⟨hcheck, hrelink⟩, hne⟩
    · exact absurd rfl hne
    · obtain ⟨hlinked, htarget⟩ := htorn.mp ⟨e, fs', hrelink, hne⟩
      exact ⟨hfree, checkAncestors_ok_iff.mp hcheck, hlinked, htarget⟩
  · intro h
    obtain ⟨e, fs', hrelink, hne⟩ := htorn.mpr ⟨h.linked, h.target⟩
    exact ⟨e, fs', Or.inr ⟨checkAncestors_ok_iff.mpr h.clear, hrelink⟩, hne⟩

theorem torn_replace_iff (hk : fs.Keyed) (hlookup : fs.lookup order fd fn = .ok fromEntry)
    (hdistinct : ¬ (fd = td ∧ fn = tn)) (hrep : Replaceable order fs fromEntry td tn toEntry)
    (hreplace : fs.replaceTarget order fromEntry td tn = some (.ok (), fs₁))
    (hremoved : Removed fs td tn toEntry.fileid fs₁) :
    (∃ e fs', fs.rename order fd fn td tn = some (.error e, fs') ∧ fs' ≠ fs) ↔
      TearsReplace order fs fd fromEntry td tn toEntry := by
  obtain ⟨fromDir, hfd⟩ := get_source_dir hlookup
  have hsid := get_source hk hlookup
  obtain ⟨entry, hentry, -⟩ := hremoved.entry
  obtain ⟨toDir, htd, -⟩ := hremoved.eq
  -- the removed target is missing from every state in which the rename can fail now
  have hchanged : ∀ e fs', (fs₁.checkAncestors fromEntry td = some (.error e) ∧ fs' = fs₁) ∨
      (fs₁.checkAncestors fromEntry td = some (.ok ()) ∧
        fs₁.relink fd fromEntry.fileid td tn = (.error e, fs')) → fs' ≠ fs := by
    rintro e fs' h rfl
    have hnone : fs'.get toEntry.fileid = none := by
      rcases h with ⟨-, rfl⟩ | ⟨-, hrelink⟩
      · exact hremoved.get_self
      · exact relink_error_missing hremoved.get_self hrelink
    rw [hentry] at hnone
    cases hnone
  have hfails : (∃ e fs', fs₁.relink fd fromEntry.fileid td tn = (.error e, fs')) ↔
      fd = toEntry.fileid ∨ fromEntry.fileid = toEntry.fileid ∨
        (fd ≠ td ∧ fromEntry.fileid ∈ fs.children td) := by
    have hfd₁ : fs₁.isDirAt fd = false ↔ fd = toEntry.fileid := by
      rw [← not_iff_not, Bool.not_eq_false, hremoved.isDirAt_iff]
      simp [isDirAt_of_get hfd]
    have htd₁ : fs₁.isDirAt td = true :=
      hremoved.isDirAt_iff.mpr ⟨isDirAt_of_get htd, hremoved.ne⟩
    have hsid₁ : fs₁.get fromEntry.fileid = none ↔ fromEntry.fileid = toEntry.fileid := by
      rw [← Option.not_isSome_iff_eq_none, hremoved.isSome]
      simp [hsid]
    rw [relink_error_iff, hfd₁, htd₁, hsid₁, hremoved.children_target, Finset.mem_erase]
    simp only [Bool.true_eq_false, false_or]
    tauto
  have hcheck : (∃ e, fs₁.checkAncestors fromEntry td = some (.error e)) ↔
      fromEntry.isDir ∧ fs.Blocked [fromEntry.fileid, toEntry.fileid] td := by
    rw [checkAncestors_error_iff, hremoved.blocked_iff]
  have hok : fs₁.checkAncestors fromEntry td = some (.ok ()) ↔
      (fromEntry.isDir → fs.Clear [fromEntry.fileid, toEntry.fileid] td) := by
    rw [checkAncestors_ok_iff, hremoved.clear_iff]
  simp only [rename_after_replace hlookup hdistinct hreplace]
  constructor
  · rintro ⟨e, fs', h, -⟩
    refine ⟨hrep, ?_⟩
    rcases h with ⟨herror, -⟩ | ⟨hpass, hrelink⟩
    · exact Or.inl (hcheck.mp ⟨e, herror⟩)
    · exact Or.inr ⟨hok.mp hpass, hfails.mp ⟨e, fs', hrelink⟩⟩
  · rintro ⟨-, hblocked | ⟨hclear, hrelink⟩⟩
    · obtain ⟨e, herror⟩ := hcheck.mpr hblocked
      exact ⟨e, fs₁, Or.inl ⟨herror, rfl⟩, hchanged e fs₁ (Or.inl ⟨herror, rfl⟩)⟩
    · obtain ⟨e, fs', hrel⟩ := hfails.mpr hrelink
      refine ⟨e, fs', Or.inr ⟨hok.mpr hclear, hrel⟩, ?_⟩
      exact hchanged e fs' (Or.inr ⟨hok.mpr hclear, hrel⟩)

end Fs

/-- The calls that fail after they have begun to change the file system. -/
def Op.Tears (order : HashOrder) (fs : Fs) : Op → Prop
  | .rename fd fn td tn =>
    ¬ (fd = td ∧ fn = tn) ∧ ∃ fromEntry, fs.lookup order fd fn = .ok fromEntry ∧
      (fs.TearsFree order fd fromEntry td tn ∨
        ∃ toEntry, fs.TearsReplace order fd fromEntry td tn toEntry)
  | .create .. | .createExclusive .. | .mkdir .. | .remove .. | .setattr .. | .write .. => False

theorem Fs.rename_torn_iff {order : HashOrder} {fs : Fs} {fd td : FileHandleU64}
    {fn tn : Filename3} (hk : fs.Keyed) :
    (∃ e fs', fs.rename order fd fn td tn = some (.error e, fs') ∧ fs' ≠ fs) ↔
      (Op.rename fd fn td tn).Tears order fs := by
  rw [Op.Tears]
  cases hlookup : fs.lookup order fd fn with
  | error e => simp [rename, hlookup, eq_comm]
  | ok fromEntry =>
    by_cases hsame : fd = td ∧ fn = tn
    · refine iff_of_false ?_ fun h => h.1 hsame
      simp [rename, hlookup, if_pos hsame]
    simp only [hsame, not_false_eq_true, true_and, Except.ok.injEq, exists_eq_left']
    rcases replaceTarget_spec order fromEntry td tn hk with
      ⟨hfree, hreplace⟩ | ⟨toEntry, fs₁, hrep, hreplace, hremoved⟩ | ⟨hbound, hno, e, hreplace⟩
    · rw [torn_free_iff hk hlookup hsame hfree hreplace, or_iff_left]
      rintro ⟨toEntry, h⟩
      have hl := h.replaceable.lookup
      rw [hfree] at hl
      cases hl
    · rw [torn_replace_iff hk hlookup hsame hrep hreplace hremoved]
      constructor
      · intro h
        exact Or.inr ⟨toEntry, h⟩
      · rintro (h | ⟨toEntry', h⟩)
        · have hl := h.free
          rw [hrep.lookup] at hl
          cases hl
        · have hl := h.replaceable.lookup
          rw [hrep.lookup] at hl
          cases hl
          exact h
    · refine iff_of_false ?_ ?_
      · rintro ⟨e', fs', h, hne⟩
        simp only [rename, hlookup, if_neg hsame, hreplace] at h
        cases h
        exact hne rfl
      · rintro (h | ⟨toEntry, h⟩)
        · exact hbound h.free
        · exact hno toEntry h.replaceable

namespace MemFs

variable {s s' : MemFs} {call : Call}

theorem exec_error_unchanged {e : Nfsstat3} (hop : ∀ fd fn td tn, call.op ≠ .rename fd fn td tn)
    (h : s.exec call = some (.error e, s')) : s'.fs = s.fs := by
  have heffect := exec_effect h
  generalize hr : Except.error e = r at heffect
  generalize s'.fs = fs' at heffect ⊢
  generalize call.op = op at heffect hop
  cases heffect with
  | unchanged => rfl
  | pushed => cases hr
  | removed => cases hr
  | updated => cases hr
  | renamed => exact absurd rfl (hop _ _ _ _)

theorem exec_rename_error {env : Env} {fd td : FileHandleU64} {fn tn : Filename3} {e : Nfsstat3} :
    s.exec ⟨env, .rename fd fn td tn⟩ = some (.error e, s') ↔
      ∃ fs', s.fs.rename env.order fd fn td tn = some (.error e, fs') ∧
        s' = { s with fs := fs' } := by
  constructor
  · intro h
    obtain ⟨r, fs', hrename, hr, rfl⟩ := lift_eq_some h
    cases r with
    | error e' =>
      cases hr
      exact ⟨fs', hrename, rfl⟩
    | ok _ => cases hr
  · rintro ⟨fs', hrename, rfl⟩
    simp [exec, lift, hrename, Except.map]

/-- In every reachable state a call that fails leaves the file system as it was, unless it is
one of the renames that fail halfway. -/
theorem failed_call_changes_nothing_iff {calls : List Call} {currentTime : Nfstime3} {s : MemFs}
    (hrun : Transition.run step (default currentTime) calls = some s) (call : Call) :
    (∀ e s', s.exec call = some (.error e, s') → s'.fs = s.fs) ↔
      ¬ call.op.Tears call.env.order s.fs := by
  obtain ⟨env, op⟩ := call
  cases op with
  | rename fd fn td tn =>
    rw [← Fs.rename_torn_iff (run_keyed hrun)]
    constructor
    · rintro h ⟨e, fs', hrename, hne⟩
      exact hne (h e _ (exec_rename_error.mpr ⟨fs', hrename, rfl⟩))
    · intro h e s' hexec
      obtain ⟨fs', hrename, rfl⟩ := exec_rename_error.mp hexec
      by_contra hne
      exact h ⟨e, fs', hrename, hne⟩
  | create | createExclusive | mkdir | remove | setattr | write =>
    refine iff_of_true ?_ id
    intro e s' hexec
    exact exec_error_unchanged (by simp) hexec

/-- A directory `p` with a subdirectory `c`. -/
def sampleDirs : List Call :=
  [.mkdir 1 ⟨⟨[0x70]⟩⟩, .mkdir 2 ⟨⟨[0x63]⟩⟩].map (⟨sampleEnv, ·⟩)

/-- Moving `p` into its own subdirectory under a free name fails and changes nothing. -/
theorem failed_rename_changes_nothing :
    ∃ s s', Transition.run step (default ⟨0, 0⟩) sampleDirs = some s ∧
      s.exec ⟨sampleEnv, .rename 1 ⟨⟨[0x70]⟩⟩ 3 ⟨⟨[0x71]⟩⟩⟩ = some (.error .nfs3errInval, s') ∧
        s'.fs = s.fs := by
  have hrun : ((Transition.run step (default ⟨0, 0⟩) sampleDirs).bind fun s =>
      (s.exec ⟨sampleEnv, .rename 1 ⟨⟨[0x70]⟩⟩ 3 ⟨⟨[0x71]⟩⟩⟩).map fun p =>
        (p.1, (s.fs.get 3).isSome, s.fs.children 3,
          (s.fs.lookup .ascending 3 ⟨⟨[0x71]⟩⟩).toOption)) =
      some (.error .nfs3errInval, true, ∅, none) := by decide
  obtain ⟨s, hs, hexec⟩ := Option.bind_eq_some_iff.mp hrun
  obtain ⟨⟨r, s'⟩, hexec, heq⟩ := Option.map_eq_some_iff.mp hexec
  simp only [Prod.mk.injEq] at heq
  obtain ⟨rfl, hsome, hchildren, hlookup⟩ := heq
  refine ⟨s, s', hs, hexec, (failed_call_changes_nothing_iff hs _).mpr ?_ _ s' hexec⟩
  rintro ⟨-, fromEntry, -, h | ⟨toEntry, h⟩⟩
  · rcases h.target with hnone | ⟨-, hmem⟩
    · simp [hnone] at hsome
    · simp [hchildren] at hmem
  · rw [show s.fs.lookup .ascending 3 ⟨⟨[0x71]⟩⟩ = .ok toEntry from h.replaceable.lookup] at hlookup
    cases hlookup

/-- Moving `p` onto its own empty subdirectory fails, and the subdirectory is gone. -/
theorem failed_rename_removes_target :
    ¬ ∀ calls currentTime s call e s', Transition.run step (default currentTime) calls = some s →
      s.exec call = some (.error e, s') → s'.fs = s.fs := by
  intro h
  have hrun : ((Transition.run step (default ⟨0, 0⟩) sampleDirs).bind fun s =>
      (s.exec ⟨sampleEnv, .rename 1 ⟨⟨[0x70]⟩⟩ 2 ⟨⟨[0x63]⟩⟩⟩).map fun p =>
        (p.1, (s.fs.get 3).isSome, (p.2.fs.get 3).isSome)) =
      some (.error .nfs3errInval, true, false) := by decide
  obtain ⟨s, hs, hexec⟩ := Option.bind_eq_some_iff.mp hrun
  obtain ⟨⟨r, s'⟩, hexec, heq⟩ := Option.map_eq_some_iff.mp hexec
  simp only [Prod.mk.injEq] at heq
  obtain ⟨rfl, hbefore, hafter⟩ := heq
  rw [h _ _ s _ _ s' hs hexec, hbefore] at hafter
  cases hafter

end MemFs

end Nfs3.Memfs
