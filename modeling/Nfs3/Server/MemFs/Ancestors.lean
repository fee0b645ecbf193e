import Nfs3.Server.MemFs.Atomicity
import Nfs3.Server.MemFs.Config
import Nfs3.Server.MemFs.Handles

/-!
# The ancestors of a directory

`rename` climbs from the target directory by the parent fields, under the write lock, until it
comes to the root, to the directory it moves or to a handle that is missing. The parent fields
need not agree with the content sets: a rename under the name `.` links a directory a second
time, one that fails halfway leaves it unlinked, and its parent may be removed then.

What keeps the climb finite is that a rename hangs a directory only below one from which the
climb gets to the root without it. A new directory is a different matter. It is put into the
map before its parent is looked up, so that `mkdir` in the directory it is about to make
succeeds and makes a directory that is its own parent; and a handle drawn again may be one that
some directory still has as its parent.
-/
namespace Nfs3.Memfs

namespace Fs

variable {order : HashOrder} {fs fs' fs₁ : Fs} {d i j c sid fd td : FileHandleU64}
  {fn tn : Filename3} {entry fromEntry : Entry}

/-- One step of the climb: the parent of a directory other than the root. -/
abbrev climb (fs : Fs) : FileHandleU64 → Option FileHandleU64 := fs.parentBelow []

def NoFileAt (fs : Fs) (i : FileHandleU64) : Prop := ∀ f, fs.get i ≠ some (.file f)

/-- From every directory the climb ends, and not at a file. -/
def Climbs (fs : Fs) : Prop :=
  ∀ i, fs.isDirAt i → ∃ c, Chain.Ends fs.climb i c ∧ fs.NoFileAt c

theorem climb_eq : fs.climb i = if i = fs.root then none else fs.up i := by
  simp [parentBelow]

theorem isDirAt_of_climb (h : fs.climb i = some j) : fs.isDirAt i = true := by
  rw [climb_eq] at h
  split_ifs at h
  unfold up at h
  cases hget : fs.get i with
  | none => simp [hget] at h
  | some entry =>
    cases entry with
    | file f => simp [hget, Entry.up] at h
    | dir dir => exact isDirAt_of_get hget

theorem noFileAt_of_isDirAt (h : fs.isDirAt i) : fs.NoFileAt i := by
  intro f hf
  obtain ⟨dir, hdir⟩ := isDirAt_eq_true.mp h
  rw [hf] at hdir
  cases hdir

theorem noFileAt_of_missing (h : fs.get i = none) : fs.NoFileAt i := by
  intro f hf
  rw [h] at hf
  cases hf

theorem Climbs.noFileAt (h : fs.Climbs) (hi : fs.isDirAt i)
    (hreach : Relation.ReflTransGen (fun x y => fs.climb x = some y) i j) : fs.NoFileAt j := by
  obtain ⟨c, hends, hc⟩ := h i hi
  intro f hf
  have hlast : fs.climb j = none := by
    rw [climb_eq, up_of_get hf]
    split_ifs <;> rfl
  obtain rfl := hends.unique ⟨hreach, hlast⟩
  exact hc f hf

theorem Climbs.once (h : fs.Climbs) (hi : fs.isDirAt i)
    (hreach : Relation.ReflTransGen (fun x y => fs.climb x = some y) i j) :
    ¬Relation.TransGen (fun x y => fs.climb x = some y) j j := by
  obtain ⟨c, hends, -⟩ := h i hi
  have htail : Chain.Ends fs.climb j c := by
    clear h hi
    induction hreach with
    | refl => exact hends
    | tail _ hstep ih => exact ih.tail hstep
  exact htail.acyclic

theorem climbs_new (currentTime : Nfstime3) : (new currentTime).Climbs := by
  intro i hi
  obtain ⟨dir, hget⟩ := isDirAt_eq_true.mp hi
  obtain ⟨rfl, -⟩ := get_new hget
  exact ⟨1, ⟨.refl, rfl⟩, noFileAt_of_isDirAt hi⟩

/-! ## The loop of `rename` -/

def directories (fs : Fs) : Finset FileHandleU64 := Finset.univ.filter fun i => fs.isDirAt i

/-- Started at a directory or a missing handle, the loop ends after at most one step for each
directory, and not at a file. -/
theorem Climbs.ancestorLoop (h : fs.Climbs) (htd : fs.NoFileAt td) :
    ∃ r, fs.ancestorLoop sid (fs.directories.card + 1) td = some r ∧
      r ≠ .error .nfs3errServerfault := by
  have hstop : ∀ x, fs.parentBelow [sid] x = none ∨ fs.parentBelow [sid] x = fs.climb x := by
    intro x
    by_cases hx : x = sid
    · simp [parentBelow, hx]
    · simp [parentBelow, hx]
  have hdirs : ∀ x, fs.parentBelow [sid] x ≠ none → x ∈ fs.directories := by
    intro x hx
    obtain ⟨y, hy⟩ := Option.ne_none_iff_exists'.mp hx
    rcases hstop x with hnone | heq
    · exact absurd hnone hx
    · exact Finset.mem_filter.mpr ⟨Finset.mem_univ x, isDirAt_of_climb (heq ▸ hy)⟩
  have hends : ∃ c, Chain.Ends (fs.parentBelow [sid]) td c ∧ fs.NoFileAt c := by
    by_cases hdir : fs.isDirAt td
    · obtain ⟨c, hc, -⟩ := h td hdir
      obtain ⟨b, hb, hreach⟩ := hc.truncate hstop
      exact ⟨b, hb, h.noFileAt hdir hreach⟩
    · refine ⟨td, ⟨.refl, ?_⟩, htd⟩
      by_contra hnext
      exact hdir (Finset.mem_filter.mp (hdirs td hnext)).2
  obtain ⟨c, hc, hfile⟩ := hends
  refine ⟨fs.stopResult sid c, ?_, ?_⟩
  · rw [ancestorLoop_eq_follow, Chain.follow_le_card fs.directories hdirs hc]
    rfl
  · unfold stopResult
    split_ifs
    · decide
    · split
      · decide
      · decide
      · rename_i f hf
        exact absurd hf (hfile f)

/-! ## What keeps the climb finite -/

/-- The steps that only cut the way up short. -/
theorem Climbs.truncate (h : fs.Climbs)
    (hclimb : ∀ x, fs'.climb x = none ∨ fs'.climb x = fs.climb x)
    (hdir : ∀ i, fs'.isDirAt i → fs.isDirAt i) (hfile : ∀ i, fs.NoFileAt i → fs'.NoFileAt i) :
    fs'.Climbs := by
  intro i hi
  obtain ⟨c, hends, -⟩ := h i (hdir i hi)
  obtain ⟨b, hb, hreach⟩ := hends.truncate hclimb
  exact ⟨b, hb, hfile b (h.noFileAt (hdir i hi) hreach)⟩

theorem Shrinks.isDirAt (h : fs.Shrinks fs') (hi : fs'.isDirAt i) : fs.isDirAt i = true := by
  obtain ⟨dir, hget⟩ := isDirAt_eq_true.mp hi
  obtain ⟨entry, hentry, -, hdata⟩ := h i _ hget
  cases entry with
  | file f => cases hdata
  | dir dir' => exact isDirAt_of_get hentry

theorem Shrinks.noFileAt (h : fs.Shrinks fs') (hi : fs.NoFileAt i) : fs'.NoFileAt i := by
  intro f hf
  obtain ⟨entry, hentry, -, hdata⟩ := h i _ hf
  cases entry with
  | file f' => exact hi f' hentry
  | dir dir => cases hdata

theorem climb_congr (hroot : fs'.root = fs.root) (hup : fs'.up i = fs.up i) :
    fs'.climb i = fs.climb i := by
  rw [climb_eq, climb_eq, hroot, hup]

theorem Pushed.root (h : Pushed fs d entry fs') : fs'.root = fs.root := by
  obtain ⟨-, dir, -, -, rfl⟩ := h
  rfl

theorem Removed.root {name : Filename3} (h : Removed fs d name sid fs') : fs'.root = fs.root := by
  obtain ⟨dir, -, -, rfl⟩ := h.eq
  rfl

theorem Removed.climbs {name : Filename3} (h : Removed fs d name sid fs') (hc : fs.Climbs) :
    fs'.Climbs := by
  refine hc.truncate ?_ (fun i => h.shrinks.isDirAt) (fun i => h.shrinks.noFileAt)
  intro x
  by_cases hx : x = sid
  · left
    rw [climb_eq, h.up_eq, if_pos hx, ite_self]
  · right
    exact climb_congr h.root (by rw [h.up_eq, if_neg hx])

theorem Climbs.replace {entry' : Entry} (h : fs.Climbs) (hget : fs.get i = some entry)
    (hlinks : entry.SameLinks entry') : (fs.insert i entry').Climbs := by
  have hkind : entry'.isDir = entry.isDir := congrArg Prod.fst hlinks.identity
  refine h.truncate ?_ ?_ ?_
  · intro x
    exact Or.inr (climb_congr rfl (up_replace hget hlinks.up))
  · intro j hj
    unfold Fs.isDirAt at hj ⊢
    rw [get_insert] at hj
    split_ifs at hj with hij
    · rw [hij, hget]
      exact hkind.symm.trans hj
    · exact hj
  · intro j hj f hf
    rw [get_insert] at hf
    split_ifs at hf with hij
    · cases hf
      cases entry with
      | file f' => exact hj f' (hij ▸ hget)
      | dir dir => cases hkind
    · exact hj f hf

theorem replaceTarget_climbs {r : Except Nfsstat3 Unit} (hc : fs.Climbs)
    (h : fs.replaceTarget order fromEntry td tn = some (r, fs')) : fs'.Climbs := by
  rcases replaceTarget_cases h with ⟨-, -, rfl⟩ | ⟨-, -, rfl⟩ | ⟨-, id, hremoved⟩
  · exact hc
  · exact hc
  · exact hremoved.climbs hc

theorem relink_up {r : Except Nfsstat3 Unit} (h : fs.relink fd sid td tn = (r, fs')) :
    fs'.root = fs.root ∧ (∀ i, i ≠ sid → fs'.up i = fs.up i) ∧
      (fs'.up sid = fs.up sid ∨ fs'.up sid = some td) := by
  have hout : ∀ fromDir i, fs.get fd = some (.dir fromDir) →
      (fs.insert fd (.dir (fromDir.removeEntry sid))).up i = fs.up i :=
    fun fromDir i hfd => up_replace hfd rfl
  have hin : ∀ fromDir toDir i, fs.get fd = some (.dir fromDir) →
      (fs.insert fd (.dir (fromDir.removeEntry sid))).get td = some (.dir toDir) →
      ((fs.insert fd (.dir (fromDir.removeEntry sid))).insert td
        (.dir (toDir.addEntry sid))).up i = fs.up i := by
    intro fromDir toDir i hfd htd
    rw [← hout fromDir i hfd]
    exact up_replace htd rfl
  cases relink_cases h with
  | unchanged => exact ⟨rfl, fun _ _ => rfl, Or.inl rfl⟩
  | unlinked _ hfd => exact ⟨rfl, fun i _ => hout _ i hfd, Or.inl (hout _ sid hfd)⟩
  | linked _ hfd htd => exact ⟨rfl, fun i _ => hin _ _ i hfd htd, Or.inl (hin _ _ sid hfd htd)⟩
  | @renamed _ _ entry hfd htd hentry =>
    refine ⟨rfl, fun i hi => by rw [up_insert, if_neg hi, hin _ _ i hfd htd], ?_⟩
    rw [up_insert, if_pos rfl]
    cases entry with
    | file f =>
      left
      rw [← hin _ _ sid hfd htd, up_of_get hentry]
      rfl
    | dir dir => exact Or.inr rfl

/-- A directory is hung below one from which the climb gets to the root without it. -/
theorem relink_climbs {r : Except Nfsstat3 Unit} (hc : fs.Climbs)
    (hcheck : fs.checkAncestors fromEntry td = some (.ok ()))
    (hfile : ¬fromEntry.isDir → fs'.up fromEntry.fileid = fs.up fromEntry.fileid)
    (h : fs.relink fd fromEntry.fileid td tn = (r, fs')) : fs'.Climbs := by
  have hshrinks := relink_shrinks h
  obtain ⟨hroot, hother, hmoved⟩ := relink_up h
  set sid := fromEntry.fileid with hsid
  have hagree : ∀ x, x ≠ sid → fs'.climb x = fs.climb x := fun x hx =>
    climb_congr hroot (hother x hx)
  by_cases hsame : fs'.climb sid = fs.climb sid
  · refine hc.truncate ?_ (fun i => hshrinks.isDirAt) (fun i => hshrinks.noFileAt)
    intro x
    by_cases hx : x = sid
    · exact Or.inr (hx ▸ hsame)
    · exact Or.inr (hagree x hx)
  -- otherwise a directory has got a new parent, and the climb passes through it
  have hdir : fromEntry.isDir := by
    by_contra hno
    exact hsame (climb_congr hroot (hfile hno))
  have hnext : fs'.climb sid = some td := by
    have hup : fs'.up sid = some td := by
      refine hmoved.resolve_left ?_
      intro hup
      exact hsame (climb_congr hroot hup)
    rw [climb_eq, hup]
    split_ifs with hr
    · exfalso
      apply hsame
      rw [climb_eq, climb_eq, if_pos hr, if_pos (by rw [← hroot, hr])]
    · rfl
  obtain ⟨c, hclear, hstop, hroot'⟩ := checkAncestors_ok_iff.mp hcheck hdir
  rw [← hsid] at hclear hstop
  have hcsid : c ≠ sid := by simpa using hstop
  have hbelow : Chain.Ends fs'.climb td c := by
    refine hclear.of_agree ?_ (by simp [parentBelow]) hcsid
    intro x hx
    rw [hagree x hx]
    simp [parentBelow, hx]
  intro i hi
  obtain ⟨ci, hends, hci⟩ := hc i (hshrinks.isDirAt hi)
  obtain ⟨b, hb, hend⟩ := hends.redirect hagree (hbelow.cons hnext)
  refine ⟨b, hb, hshrinks.noFileAt ?_⟩
  rcases hend with rfl | ⟨rfl, -⟩
  · exact noFileAt_of_isDirAt hroot'
  · exact hci

theorem Shrinks.up_file {f : File} (h : fs.Shrinks fs') (hget : fs.get i = some (.file f)) :
    fs'.up i = none := by
  unfold up
  cases hget' : fs'.get i with
  | none => rfl
  | some entry' =>
    obtain ⟨entry, hentry, -, hdata⟩ := h i _ hget'
    rw [hget] at hentry
    cases hentry
    cases entry' with
    | file f' => rfl
    | dir dir => cases hdata

theorem Renamed.climbs {r : Except Nfsstat3 Unit} (h : Renamed order fs fd fn td tn r fs')
    (hk : fs.Keyed) (hc : fs.Climbs) : fs'.Climbs := by
  cases h with
  | unchanged => exact hc
  | rejected _ _ hreplace _ => exact replaceTarget_climbs hc hreplace
  | @relinked fromEntry fs₁ _ _ hlookup _ hreplace hcheck hrelink =>
    refine relink_climbs (replaceTarget_climbs hc hreplace) hcheck ?_ hrelink
    intro hfile
    have hsource := get_source hk hlookup
    cases fromEntry with
    | dir dir => exact absurd rfl hfile
    | file f =>
      have hreplaced := replaceTarget_shrinks hreplace
      rw [hreplaced.up_file hsource, (hreplaced.trans (relink_shrinks hrelink)).up_file hsource]

/-- The parent of a new entry was there before, unless the entry is a directory in itself. -/
theorem Pushed.parent_isDirAt (h : Pushed fs d entry fs')
    (hd : entry.isDir → d ≠ entry.fileid) : fs.isDirAt d = true := by
  obtain ⟨dir, hdir, -, -⟩ := h.eq
  by_cases hne : d = entry.fileid
  · rw [hne, get_insert_self] at hdir
    cases hdir
    exact absurd hne (hd rfl)
  · rw [get_insert_of_ne hne] at hdir
    exact isDirAt_of_get hdir

/-- A new entry does no harm under a handle that no directory has as its parent, if it is not
a directory in itself. -/
theorem Pushed.climbs (h : Pushed fs d entry fs') (hc : fs.Climbs) (hcontent : entry.content = ∅)
    (hup : ∀ u, entry.up = some u → u = d) (hd : entry.isDir → d ≠ entry.fileid)
    (hparent : ∀ i dir, fs.get i = some (.dir dir) → dir.parent ≠ entry.fileid) : fs'.Climbs := by
  have hleaf := h.addLeaf hcontent hup
  have hnew : fs.climb entry.fileid = none := by
    rw [climb_eq, up, h.fresh]
    split_ifs <;> rfl
  have hagree : ∀ x, x ≠ entry.fileid → fs'.climb x = fs.climb x := fun x hx =>
    climb_congr hleaf.root (hleaf.up x hx)
  have hnever : ∀ i c, fs.isDirAt i → Chain.Ends fs.climb i c → c ≠ entry.fileid := by
    rintro i c hi hends rfl
    rcases Relation.ReflTransGen.cases_tail hends.reaches with rfl | ⟨x, -, hstep⟩
    · obtain ⟨dir, hget⟩ := isDirAt_eq_true.mp hi
      rw [h.fresh] at hget
      cases hget
    · obtain ⟨dir, hget⟩ := isDirAt_eq_true.mp (isDirAt_of_climb hstep)
      rw [climb_eq, up_of_get hget] at hstep
      split_ifs at hstep
      exact hparent x dir hget (Option.some.inj hstep)
  have hkept : ∀ i, fs.isDirAt i → ∃ c, Chain.Ends fs'.climb i c ∧ fs'.NoFileAt c := by
    intro i hi
    obtain ⟨c, hends, hcfile⟩ := hc i hi
    have hne := hnever i c hi hends
    refine ⟨c, hends.of_agree hagree hnew hne, ?_⟩
    intro f hf
    rcases h.file_cases hf with ⟨-, hnone⟩ | hold
    · obtain ⟨e, he, -⟩ := h.shrinks hf hne
      rw [hnone] at he
      cases he
    · exact hcfile f hold
  intro i hi
  by_cases hi' : i = entry.fileid
  · rw [hi'] at hi ⊢
    cases hstart : fs'.climb entry.fileid with
    | none => exact ⟨_, ⟨.refl, hstart⟩, noFileAt_of_isDirAt hi⟩
    | some u =>
      have hu : u = d := by
        have hstep := hstart
        rw [climb_eq] at hstep
        split_ifs at hstep
        exact hleaf.up_new u hstep
      obtain ⟨c, hends, hcfile⟩ := hkept d (h.parent_isDirAt hd)
      exact ⟨c, (hu ▸ hends).cons hstart, hcfile⟩
  · refine hkept i ?_
    obtain ⟨dir, hget⟩ := isDirAt_eq_true.mp hi
    obtain ⟨e, he, -, hdata⟩ := h.shrinks hget hi'
    cases e with
    | file f => cases hdata
    | dir dir' => exact isDirAt_of_get he

/-- From every directory the parent fields lead neither to a directory twice nor to a file, and
the loop of every rename ends after at most one step for each directory, not at a file. -/
structure AncestorsEnd (fs : Fs) : Prop where
  once : ∀ i, fs.isDirAt i → ∀ j, Relation.ReflTransGen (fun x y => fs.climb x = some y) i j →
    ¬Relation.TransGen (fun x y => fs.climb x = some y) j j
  noFile : ∀ i, fs.isDirAt i → ∀ j, Relation.ReflTransGen (fun x y => fs.climb x = some y) i j →
    ∀ f, fs.get j ≠ some (.file f)
  loop : ∀ order fd fn td tn source fs₁, fs.lookup order fd fn = .ok source →
    fs.replaceTarget order source td tn = some (.ok (), fs₁) → source.isDir →
    ∃ r, fs₁.ancestorLoop source.fileid (fs₁.directories.card + 1) td = some r ∧
      r ≠ .error .nfs3errServerfault

theorem replaceTarget_noFileAt (h : fs.replaceTarget order fromEntry td tn = some (.ok (), fs')) :
    fs'.NoFileAt td := by
  rcases replaceTarget_cases h with ⟨e, he, -⟩ | ⟨-, hnoent, rfl⟩ | ⟨-, id, hremoved⟩
  · cases he
  · rcases get_of_lookup_noent hnoent with hnone | ⟨dir, hdir⟩
    · exact noFileAt_of_missing hnone
    · exact noFileAt_of_isDirAt (isDirAt_of_get hdir)
  · obtain ⟨dir, hdir, -, -⟩ := hremoved.eq
    exact hremoved.shrinks.noFileAt (noFileAt_of_isDirAt (isDirAt_of_get hdir))

theorem Climbs.ancestorsEnd (h : fs.Climbs) : fs.AncestorsEnd where
  once _ hi _ hreach := h.once hi hreach
  noFile _ hi _ hreach := h.noFileAt hi hreach
  loop _ _ _ _ _ _ _ _ hreplace _ :=
    (replaceTarget_climbs h hreplace).ancestorLoop (replaceTarget_noFileAt hreplace)

end Fs

namespace MemFs

variable {s s' : MemFs} {env : Env} {call : Call} {dirid : FileHandleU64} {filename : Filename3}
  {r : Except Nfsstat3 Reply}

/-- No directory has the handle that is drawn next as its parent. -/
def NextUnclaimed (s : MemFs) : Prop :=
  ∀ i dir, s.fs.get i = some (.dir dir) → dir.parent ≠ s.nextid

/-- An entry is made under a handle that no directory has as its parent, and a directory not
in itself. -/
def KeepsAncestors (s : MemFs) (call : Call) : Prop :=
  match call.op with
  | .create .. | .createExclusive .. => s.NextUnclaimed
  | .mkdir dirid _ => dirid ≠ s.nextid ∧ s.NextUnclaimed
  | .remove .. | .rename .. | .setattr .. | .write .. => True

theorem addFile_climbs {attr : Sattr3} {verf : Option Createverf3} (hc : s.fs.Climbs)
    (hnext : s.NextUnclaimed)
    (h : s.addFile env dirid filename attr [] verf = some (r, s')) : s'.fs.Climbs := by
  obtain ⟨-, -, file, hfile, hcases⟩ := addFile_cases h
  rcases hcases with ⟨e, -, hfs⟩ | ⟨existing, -, -, -, hfs⟩ | ⟨-, -, hpushed⟩
  · rw [hfs]
    exact hc
  · rw [hfs]
    exact hc
  · have hlinks := Entry.sameLinks_setAttr hfile
    have hid : file.fileid = s.nextid := hlinks.fileid
    have hkind : file.isDir = false := congrArg Prod.fst hlinks.identity
    refine hpushed.climbs hc hlinks.content ?_ ?_ ?_
    · intro u hu
      rw [hlinks.up] at hu
      cases hu
    · intro hdir
      rw [hkind] at hdir
      cases hdir
    · rw [hid]
      exact hnext

theorem addDir_climbs (hc : s.fs.Climbs) (hself : dirid ≠ s.nextid) (hnext : s.NextUnclaimed)
    (h : s.addDir env dirid filename = some (r, s')) : s'.fs.Climbs := by
  obtain ⟨-, -, ⟨e, -, hfs⟩ | ⟨-, hpushed⟩⟩ := addDir_cases h
  · rw [hfs]
    exact hc
  · refine hpushed.climbs hc rfl ?_ (fun _ => hself) hnext
    rintro u ⟨⟩
    rfl

theorem step_climbs (hk : s.fs.Keyed) (hc : s.fs.Climbs) (hcall : s.KeepsAncestors call)
    (h : s.step call = some s') : s'.fs.Climbs := by
  obtain ⟨⟨r, s₁⟩, hexec, rfl⟩ := Option.map_eq_some_iff.mp h
  obtain ⟨env, op⟩ := call
  cases op with
  | create dirid filename attr => exact addFile_climbs hc hcall hexec
  | createExclusive dirid filename createverf =>
    obtain ⟨⟨r₀, s₀⟩, hadd, heq⟩ := Option.map_eq_some_iff.mp hexec
    cases heq
    exact addFile_climbs hc hcall hadd
  | mkdir dirid dirname => exact addDir_climbs hc hcall.1 hcall.2 hexec
  | remove dirid filename =>
    obtain ⟨r₀, fs', hremove, -, rfl⟩ := lift_eq_some hexec
    rcases Fs.remove_cases hremove with ⟨e, -, rfl⟩ | ⟨-, id, hremoved⟩
    · exact hc
    · exact hremoved.climbs hc
  | rename fromDirid fromFilename toDirid toFilename =>
    obtain ⟨r₀, fs', hrename, -, rfl⟩ := lift_eq_some hexec
    exact (Fs.rename_cases hrename).climbs hk hc
  | setattr id setattr | write id offset data =>
    have heffect := exec_effect hexec
    dsimp only at heffect
    generalize s₁.fs = fs' at heffect ⊢
    cases heffect with
    | unchanged => exact hc
    | pushed _ _ hop => cases hop
    | removed _ _ hremoved => exact hremoved.climbs hc
    | updated _ _ _ hget hlinks => exact hc.replace hget hlinks

/-- In every state of a run whose calls make no directory in itself and draw no handle that
some directory still has as its parent, the ancestors of every directory end. -/
theorem ancestors_end {calls : List Call} {currentTime : Nfstime3}
    (hcalls : Transition.Along step KeepsAncestors (default currentTime) calls)
    (hrun : Transition.run step (default currentTime) calls = some s) : s.fs.AncestorsEnd := by
  have hstep : ∀ (s : MemFs) call s', s.fs.Keyed ∧ s.fs.Climbs → s.KeepsAncestors call →
      step s call = some s' → s'.fs.Keyed ∧ s'.fs.Climbs := fun s call s' hs hcall h =>
    ⟨step_keyed hs.1 h, step_climbs hs.1 hs.2 hcall h⟩
  have hinv := Transition.run_invariant hstep
    ⟨(Fs.linked_new currentTime).keyed, Fs.climbs_new currentTime⟩ hcalls hrun
  exact hinv.2.ancestorsEnd

/-- A directory is made and renamed. -/
def sampleAncestors : List Call :=
  [.mkdir 1 ⟨⟨[0x61]⟩⟩, .rename 1 ⟨⟨[0x61]⟩⟩ 1 ⟨⟨[0x62]⟩⟩].map (⟨sampleEnv, ·⟩)

theorem ancestors_end_sample :
    ∃ s, Transition.run step (default ⟨0, 0⟩) sampleAncestors = some s ∧ s.fs.AncestorsEnd := by
  have hrun : (Transition.run step (default ⟨0, 0⟩) sampleAncestors).isSome := by decide
  obtain ⟨s, hs⟩ := Option.isSome_iff_exists.mp hrun
  refine ⟨s, hs, ancestors_end ?_ hs⟩
  refine ⟨⟨by decide, ?_⟩, fun s₁ _ => ⟨trivial, fun _ _ => trivial⟩⟩
  intro i dir hget
  cases (Fs.get_new hget).2
  decide

/-- `mkdir` in the directory it makes: the directory is its own parent. -/
theorem ancestors_loop :
    ¬∀ calls currentTime s, Transition.run step (default currentTime) calls = some s →
      s.fs.AncestorsEnd := by
  intro h
  have hrun : (Transition.run step (default ⟨0, 0⟩) [⟨sampleEnv, .mkdir 2 ⟨⟨[0x61]⟩⟩⟩]).map
      (fun s => (s.fs.isDirAt 2, s.fs.climb 2)) = some (true, some 2) := by decide
  obtain ⟨s, hs, heq⟩ := Option.map_eq_some_iff.mp hrun
  obtain ⟨hdir, hclimb⟩ := Prod.mk.inj heq
  exact (h _ _ s hs).once 2 hdir 2 .refl (.single hclimb)

end MemFs

end Nfs3.Memfs
