import Nfs3.Server.MemFs.Config
import Nfs3.Server.MemFs.Listing
import Nfs3.Server.MemFs.Moves
import Nfs3.Server.Verifier

/-!
# Does the verifier of READDIR tell that a directory has changed?

The verifier is made of the modification time of the directory, and a request that brings back
another one is refused as a mismatch of versions. The in-memory file system sets the time when
a directory is made and when a client asks for it; adding, removing or renaming an entry leaves
it alone. What the verifier promises therefore holds as long as no call touches the directory.
-/
namespace Nfs3.Memfs

namespace Fs

variable {order : HashOrder} {fs fs' fs₁ : Fs} {d e id fd td sid : FileHandleU64}
  {name fn tn : Filename3} {entry : Entry}

/-- The directory has the same children, under the same names. -/
structure SameListing (d : FileHandleU64) (fs fs' : Fs) : Prop where
  children : fs'.children d = fs.children d
  nameOf : ∀ i ∈ fs.children d, fs'.nameOf i = fs.nameOf i

theorem SameListing.refl (d : FileHandleU64) (fs : Fs) : SameListing d fs fs :=
  ⟨rfl, fun _ _ => rfl⟩

theorem SameListing.trans (h : SameListing d fs fs₁) (h' : SameListing d fs₁ fs') :
    SameListing d fs fs' := by
  refine ⟨h'.children.trans h.children, fun i hi => ?_⟩
  rw [h'.nameOf i (by rw [h.children]; exact hi), h.nameOf i hi]

theorem SameListing.bound_iff (h : SameListing d fs fs') (name : Filename3) (i : FileHandleU64) :
    fs'.Bound d name i ↔ fs.Bound d name i := by
  unfold Bound
  rw [h.children]
  constructor
  · rintro ⟨hi, hname⟩
    exact ⟨hi, by rw [← h.nameOf i hi, hname]⟩
  · rintro ⟨hi, hname⟩
    exact ⟨hi, by rw [h.nameOf i hi, hname]⟩

/-- An entry is replaced by one with the same children, and with the same name if it is one of
the listed. -/
theorem sameListing_replace {entry' : Entry} (hget : fs.get id = some entry)
    (hcontent : id = d → entry'.content = entry.content)
    (hname : id ∈ fs.children d → entry'.name = entry.name) :
    SameListing d fs (fs.insert id entry') := by
  constructor
  · rw [children_insert]
    split_ifs with hd
    · rw [hcontent hd.symm, hd, children_of_get hget]
    · rfl
  · intro i hi
    rw [nameOf_insert]
    split_ifs with heq
    · rw [heq, hname (heq ▸ hi), nameOf_of_get hget]
    · rfl

/-- The entry that a `remove` of the name would take away. -/
structure Removable (fs : Fs) (dirid : FileHandleU64) (filename : Filename3) (i : FileHandleU64) :
    Prop where
  notDot : filename ≠ dot
  notDotDot : filename ≠ dotDot
  bound : fs.Bound dirid filename i
  empty : fs.children i = ∅

theorem Removed.bound (h : Removed fs e name id fs') : fs.Bound e name id := by
  obtain ⟨entry, hentry, hname, -⟩ := h.entry
  obtain ⟨dir, hdir, hmem, -⟩ := h.eq
  exact ⟨mem_children.mpr ⟨dir, hdir, hmem⟩, by rw [nameOf_of_get hentry, hname]⟩

theorem Removed.removable (h : Removed fs e name id fs') : fs.Removable e name id := by
  obtain ⟨entry, hentry, -, hempty⟩ := h.entry
  exact ⟨h.notDot, h.notDotDot, h.bound, by rw [children_of_get hentry, hempty]⟩

theorem Removed.sameListing (h : Removed fs e name id fs') (hid : id ∉ fs.children d) :
    SameListing d fs fs' := by
  constructor
  · have hed : d ≠ e := by
      rintro rfl
      exact hid h.bound.1
    obtain ⟨entry, hentry, -, hempty⟩ := h.entry
    obtain ⟨dir, -, -, rfl⟩ := h.eq
    rw [children_insert, if_neg hed, Fs.children_erase]
    split_ifs with heq
    · rw [heq, children_of_get hentry, hempty]
    · rfl
  · intro i hi
    refine h.nameOf ?_
    rintro rfl
    exact hid hi

theorem replaceTarget_sameListing {source : Entry} {r : Except Nfsstat3 Unit}
    (hkept : ∀ i, fs.Removable td tn i → i ∉ fs.children d)
    (h : fs.replaceTarget order source td tn = some (r, fs')) : SameListing d fs fs' := by
  rcases replaceTarget_cases h with ⟨-, -, rfl⟩ | ⟨-, -, rfl⟩ | ⟨-, id, hremoved⟩
  · exact .refl d _
  · exact .refl d _
  · exact hremoved.sameListing (hkept id hremoved.removable)

theorem relink_sameListing {r : Except Nfsstat3 Unit} (hsid : sid ∉ fs.children d) (htd : td ≠ d)
    (h : fs.relink fd sid td tn = (r, fs')) : SameListing d fs fs' := by
  have hout : ∀ fromDir, fs.get fd = some (.dir fromDir) →
      SameListing d fs (fs.insert fd (.dir (fromDir.removeEntry sid))) := by
    intro fromDir hfd
    refine sameListing_replace hfd ?_ (fun _ => rfl)
    rintro rfl
    rw [children_of_get hfd] at hsid
    exact Finset.erase_eq_of_notMem hsid
  have hin : ∀ fromDir toDir, fs.get fd = some (.dir fromDir) →
      (fs.insert fd (.dir (fromDir.removeEntry sid))).get td = some (.dir toDir) →
      SameListing d fs ((fs.insert fd (.dir (fromDir.removeEntry sid))).insert td
        (.dir (toDir.addEntry sid))) :=
    fun fromDir toDir hfd hget =>
      (hout fromDir hfd).trans (sameListing_replace hget (fun heq => absurd heq htd) fun _ => rfl)
  cases relink_cases h with
  | unchanged => exact .refl d _
  | unlinked _ hfd => exact hout _ hfd
  | linked _ hfd htd => exact hin _ _ hfd htd
  | renamed hfd htd hentry =>
    refine (hin _ _ hfd htd).trans (sameListing_replace hentry ?_ ?_)
    · intro _
      exact Entry.content_relocate ..
    · intro hlisted
      rw [(hin _ _ hfd htd).children] at hlisted
      exact absurd hlisted hsid

/-- A new entry is not listed elsewhere. -/
theorem Pushed.sameListing (h : Pushed fs e entry fs') (hcontent : entry.content = ∅)
    (hed : e ≠ d) (hnew : entry.fileid ∉ fs.children d) : SameListing d fs fs' := by
  obtain ⟨dir, hdir, -, rfl⟩ := h.eq
  have hinsert : SameListing d fs (fs.insert entry.fileid entry) := by
    constructor
    · rw [children_insert]
      split_ifs with heq
      · rw [hcontent, children, heq, h.fresh]
        rfl
      · rfl
    · intro i hi
      rw [nameOf_insert, if_neg]
      rintro rfl
      exact hnew hi
  exact hinsert.trans (sameListing_replace hdir (fun heq => absurd heq hed) fun _ => rfl)

/-- The verifier that READDIR would send for the directory. -/
def cookieverf (fs : Fs) (d : FileHandleU64) : Cookieverf3 :=
  .fromAttr (NfsHandlers.nfsOptionFromResult (fs.getattr d))

/-- A verifier that is still the same tells that the listing is, and so does a continuation
that is let through. -/
structure DetectsChanges (d : FileHandleU64) (fs fs' : Fs) : Prop where
  cookieverf : fs'.cookieverf d = fs.cookieverf d →
    ∀ name i, fs'.Bound d name i ↔ fs.Bound d name i
  continuation : ∀ context xid (args : Readdir3Args),
    context.fileHandleConverter.fhFromNfs args.dir = .ok d → args.cookie ≠ 0 →
    args.cookieverf = fs.cookieverf d →
    ¬NfsHandlers.RejectsVerifier (I := List FileHandleU64) (J := List FileHandleU64) context xid
      args d (fs'.getattr d) →
    ∀ name i, fs'.Bound d name i ↔ fs.Bound d name i

theorem SameListing.detectsChanges (h : SameListing d fs fs') : DetectsChanges d fs fs' :=
  ⟨fun _ => h.bound_iff, fun _ _ _ _ _ _ _ => h.bound_iff⟩

end Fs

namespace MemFs

variable {s s' : MemFs} {env : Env} {r : Except Nfsstat3 Reply} {d dirid : FileHandleU64}
  {filename : Filename3}

/-- The call links no entry into the directory and unlinks or renames none that is in it. -/
def Spares (d : FileHandleU64) (s : MemFs) (call : Call) : Prop :=
  match call.op with
  | .create dirid filename _ | .createExclusive dirid filename _ =>
    s.fs.lookup call.env.order dirid filename = .error .nfs3errNoent →
    s.fs.get s.nextid = none → dirid ≠ d ∧ s.nextid ∉ s.fs.children d
  | .mkdir dirid _ => s.fs.get s.nextid = none → dirid ≠ d ∧ s.nextid ∉ s.fs.children d
  | .remove dirid filename => ∀ i, s.fs.Removable dirid filename i → i ∉ s.fs.children d
  | .rename fromDirid fromFilename toDirid toFilename =>
    ∀ source fs₁, s.fs.lookup call.env.order fromDirid fromFilename = .ok source →
      ¬(fromDirid = toDirid ∧ fromFilename = toFilename) →
      s.fs.replaceTarget call.env.order source toDirid toFilename = some (.ok (), fs₁) →
      (∀ i, s.fs.Removable toDirid toFilename i → i ∉ s.fs.children d) ∧
        (fs₁.checkAncestors source toDirid = some (.ok ()) →
          toDirid ≠ d ∧ source.fileid ∉ s.fs.children d)
  | .setattr .. | .write .. => True

theorem addFile_sameListing {attr : Sattr3} {verf : Option Createverf3}
    (hspares : s.fs.lookup env.order dirid filename = .error .nfs3errNoent →
      s.fs.get s.nextid = none → dirid ≠ d ∧ s.nextid ∉ s.fs.children d)
    (h : s.addFile env dirid filename attr [] verf = some (r, s')) :
    s.fs.SameListing d s'.fs := by
  obtain ⟨-, -, file, hfile, hcases⟩ := addFile_cases h
  rcases hcases with ⟨e, -, hfs⟩ | ⟨existing, -, -, -, hfs⟩ | ⟨hnoent, -, hpushed⟩
  · rw [hfs]
    exact .refl d _
  · rw [hfs]
    exact .refl d _
  · have hlinks := Entry.sameLinks_setAttr hfile
    have hid : file.fileid = s.nextid := hlinks.fileid
    obtain ⟨hdir, hnew⟩ := hspares hnoent (hid ▸ hpushed.fresh)
    exact hpushed.sameListing hlinks.content hdir (hid ▸ hnew)

theorem rename_sameListing {fd td : FileHandleU64} {fn tn : Filename3} {r : Except Nfsstat3 Unit}
    {fs fs' : Fs} {order : HashOrder}
    (hspares : ∀ source fs₁, fs.lookup order fd fn = .ok source → ¬(fd = td ∧ fn = tn) →
      fs.replaceTarget order source td tn = some (.ok (), fs₁) →
      (∀ i, fs.Removable td tn i → i ∉ fs.children d) ∧
        (fs₁.checkAncestors source td = some (.ok ()) →
          td ≠ d ∧ source.fileid ∉ fs.children d))
    (h : fs.Renamed order fd fn td tn r fs') : fs.SameListing d fs' := by
  cases h with
  | unchanged => exact .refl d _
  | rejected hlookup hdistinct hreplaced =>
    obtain ⟨hkept, -⟩ := hspares _ _ hlookup hdistinct hreplaced
    exact Fs.replaceTarget_sameListing hkept hreplaced
  | relinked hlookup hdistinct hreplaced hancestors hrelink =>
    obtain ⟨hkept, hmove⟩ := hspares _ _ hlookup hdistinct hreplaced
    obtain ⟨htd, hsource⟩ := hmove hancestors
    have hlisting := Fs.replaceTarget_sameListing hkept hreplaced
    refine hlisting.trans (Fs.relink_sameListing ?_ htd hrelink)
    rw [hlisting.children]
    exact hsource

/-- Attributes and data are changed in place. -/
theorem update_sameListing {id : FileHandleU64} {entry entry' : Entry}
    (hget : s.fs.get id = some entry) (hlinks : entry.SameLinks entry') :
    s.fs.SameListing d (s.fs.insert id entry') :=
  Fs.sameListing_replace hget (fun _ => hlinks.content) fun _ => hlinks.name

theorem step_sameListing {call : Call} (hspares : s.Spares d call) (h : s.step call = some s') :
    s.fs.SameListing d s'.fs := by
  obtain ⟨⟨r, s₁⟩, hexec, rfl⟩ := Option.map_eq_some_iff.mp h
  obtain ⟨env, op⟩ := call
  cases op with
  | create dirid filename attr => exact addFile_sameListing hspares hexec
  | createExclusive dirid filename createverf =>
    obtain ⟨⟨r₀, s₀⟩, hadd, heq⟩ := Option.map_eq_some_iff.mp hexec
    cases heq
    exact addFile_sameListing hspares hadd
  | mkdir dirid dirname =>
    obtain ⟨-, -, hcases⟩ := addDir_cases hexec
    rcases hcases with ⟨e, -, hfs⟩ | ⟨-, hpushed⟩
    · rw [hfs]
      exact .refl d _
    · obtain ⟨hdir, hnew⟩ := hspares hpushed.fresh
      exact hpushed.sameListing rfl hdir hnew
  | remove dirid filename =>
    obtain ⟨r₀, fs', hremove, -, rfl⟩ := lift_eq_some hexec
    rcases Fs.remove_cases hremove with ⟨e, -, rfl⟩ | ⟨-, id, hremoved⟩
    · exact .refl d _
    · exact hremoved.sameListing (hspares id hremoved.removable)
  | rename fromDirid fromFilename toDirid toFilename =>
    obtain ⟨r₀, fs', hrename, -, rfl⟩ := lift_eq_some hexec
    exact rename_sameListing hspares (Fs.rename_cases hrename)
  | setattr id setattr =>
    rcases setattr_cases hexec with ⟨e, -, rfl⟩ | ⟨entry, entry', hget, hset, -, rfl⟩
    · exact .refl d _
    · exact update_sameListing hget (Entry.sameLinks_setAttr hset)
  | write id offset data =>
    rcases write_cases hexec with ⟨e, -, rfl⟩ | ⟨f, f', hget, hwrite, -, rfl⟩
    · exact .refl d _
    · exact update_sameListing hget (Entry.sameLinks_write hwrite)

/-- Between two moments at which the verifier is the same, calls that spare the directory have
left its listing as it was. -/
theorem verifier_detects_changes {calls : List Call} (hrun : Transition.run step s calls = some s')
    (hspares : Transition.Along step (fun s call => s.Spares d call) s calls) :
    s.fs.DetectsChanges d s'.fs := by
  have hstep : ∀ (s₁ : MemFs) call s₂, s.fs.SameListing d s₁.fs → s₁.Spares d call →
      s₁.step call = some s₂ → s.fs.SameListing d s₂.fs :=
    fun s₁ call s₂ hsame hcall h => hsame.trans (step_sameListing hcall h)
  exact (Transition.run_invariant hstep (.refl d _) hspares hrun).detectsChanges

/-- The clock at the `n`th second. -/
def clockEnv (n : ℕ) : Env := ⟨.ascending, fun k => ⟨.ofNat n, .ofNat k⟩⟩

/-- A file is made in another directory, and the root directory is given a new owner. -/
def sampleElsewhere : List Call :=
  [⟨clockEnv 2, .create 2 ⟨⟨[0x66]⟩⟩ noChange⟩,
    ⟨clockEnv 3, .setattr 1 { noChange with uid := .some 7 }⟩]

theorem verifier_detects_changes_elsewhere :
    ∃ s s', Transition.run step (default ⟨0, 0⟩) [⟨clockEnv 1, .mkdir 1 ⟨⟨[0x64]⟩⟩⟩] = some s ∧
      Transition.run step s sampleElsewhere = some s' ∧ s.fs.DetectsChanges 1 s'.fs := by
  have hrun : (Transition.run step (default ⟨0, 0⟩) [⟨clockEnv 1, .mkdir 1 ⟨⟨[0x64]⟩⟩⟩]).map
      (fun s => (s.nextid, decide (3 ∈ s.fs.children 1),
        (Transition.run step s sampleElsewhere).isSome)) = some (3, false, true) := by decide
  obtain ⟨s, hs, heq⟩ := Option.map_eq_some_iff.mp hrun
  simp only [Prod.mk.injEq, decide_eq_false_iff_not] at heq
  obtain ⟨hnextid, hnew, hsome⟩ := heq
  obtain ⟨s', hs'⟩ := Option.isSome_iff_exists.mp hsome
  refine ⟨s, s', hs, hs', verifier_detects_changes hs' ⟨?_, ?_⟩⟩
  rotate_left
  · exact fun _ _ => ⟨trivial, fun _ _ => trivial⟩
  intro _ _
  rw [hnextid]
  exact ⟨by decide, hnew⟩

/-- The clock goes forward at every reading. -/
def StrictClock (start : Nfstime3) (calls : List Call) : Prop :=
  (start :: calls.flatMap fun call => [call.env.time 0, call.env.time 1, call.env.time 2]).Pairwise
    fun t t' => t.seconds < t'.seconds ∨ t.seconds = t'.seconds ∧ t.nseconds < t'.nseconds

/-- A call by which a client sets the modification time of the directory. -/
def SetsMtime (d : FileHandleU64) (call : Call) : Prop :=
  match call.op with
  | .setattr id setattr => id = d ∧ setattr.mtime ≠ .dontChange
  | _ => False

/-- A file appears in the root directory, the verifier stays the same, and every continuation with
it is let through. -/
theorem verifier_misses_create :
    let calls : List Call := [⟨clockEnv 2, .create 1 ⟨⟨[0x66]⟩⟩ noChange⟩]
    let s := default ⟨1, 0⟩
    StrictClock ⟨1, 0⟩ calls ∧ (∀ call ∈ calls, ¬SetsMtime 1 call) ∧ s.fs.isDirAt 1 ∧
    ∃ s', Transition.run step s calls = some s' ∧ s'.fs.isDirAt 1 ∧
      s'.fs.cookieverf 1 = s.fs.cookieverf 1 ∧
      (∀ context xid (args : Readdir3Args),
        context.fileHandleConverter.fhFromNfs args.dir = .ok (1 : FileHandleU64) →
        args.cookieverf = s.fs.cookieverf 1 →
        ¬NfsHandlers.RejectsVerifier (I := List FileHandleU64) (J := List FileHandleU64) context
          xid args (1 : FileHandleU64) (s'.fs.getattr 1)) ∧
      s'.fs.Bound 1 ⟨⟨[0x66]⟩⟩ 2 ∧ ¬s.fs.Bound 1 ⟨⟨[0x66]⟩⟩ 2 := by
  intro calls s
  have hrun : (Transition.run step s calls).map (fun s' =>
        (s'.fs.isDirAt 1, s'.fs.getattr 1, decide (2 ∈ s'.fs.children 1), s'.fs.nameOf 2)) =
      some (true, s.fs.getattr 1, true, some ⟨⟨[0x66]⟩⟩) := by decide
  obtain ⟨s', hs', heq⟩ := Option.map_eq_some_iff.mp hrun
  simp only [Prod.mk.injEq, decide_eq_true_eq] at heq
  obtain ⟨hdir, hattr, hmem, hname⟩ := heq
  have hclock : StrictClock ⟨1, 0⟩ calls := by
    unfold StrictClock
    decide
  have hcalls : ∀ call ∈ calls, ¬SetsMtime 1 call := by
    intro call hcall
    cases List.mem_singleton.mp hcall
    exact id
  have hunbound : ¬s.fs.Bound 1 ⟨⟨[0x66]⟩⟩ 2 := by
    rintro ⟨hchild, -⟩
    exact absurd hchild (by decide)
  refine ⟨hclock, hcalls, rfl, s', hs', hdir, ?_, ?_, ⟨hmem, hname⟩, hunbound⟩
  · rw [Fs.cookieverf, Fs.cookieverf, hattr]
  · -- the time one second is not zero, so the verifier is not taken for none
    intro context xid args hid hverf
    rw [NfsHandlers.rejectsVerifier_iff hid, hattr, hverf]
    have hsome : ¬(s.fs.cookieverf 1).isNone := by decide
    exact fun h => h.elim (fun hnone => hsome hnone.1) fun hne => hne.2 rfl

end MemFs

end Nfs3.Memfs
