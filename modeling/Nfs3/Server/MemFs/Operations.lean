import Nfs3.Server.MemFs.Basic

/-!
# What the operations of the in-memory file system can do

One lemma for each operation lists the states in which a call that returns can leave the
file system, with the checks that were passed on the way.
-/
namespace Nfs3.Memfs

open ByteOrder (Bytes)

namespace Entry

/-- The parent pointer of a directory. -/
def up : Entry → Option FileHandleU64
  | .file _ => none
  | .dir d => some d.parent

/-- The verifier a file was created with. -/
def verf : Entry → Option Createverf3
  | .file f => some f.verf
  | .dir _ => none

/-- What no operation changes about an entry: its kind, its id, the time and the verifier of
its creation. -/
def identity (e : Entry) : Bool × FileHandleU64 × Nfstime3 × Option Createverf3 :=
  (e.isDir, e.fileid, e.attr.ctime, e.verf)

/-- Two versions of one entry that are linked in the same way. -/
structure SameLinks (e e' : Entry) : Prop where
  identity : e'.identity = e.identity
  fileid : e'.fileid = e.fileid
  name : e'.name = e.name
  content : e'.content = e.content
  up : e'.up = e.up

theorem sameLinks_withAttr (e : Entry) (setattr : Sattr3) (t t' : Nfstime3) :
    SameLinks e (e.withAttr (updateAttr e.attr setattr t t')) := by
  cases e <;> exact ⟨rfl, rfl, rfl, rfl, rfl⟩

theorem sameLinks_resize {f f' : File} {size : UInt64} (h : f.resize size = some f') :
    SameLinks (.file f) (.file f') := by
  unfold File.resize at h
  split_ifs at h
  cases h
  exact ⟨rfl, rfl, rfl, rfl, rfl⟩

theorem SameLinks.trans {e₁ e₂ e₃ : Entry} (h : SameLinks e₁ e₂) (h' : SameLinks e₂ e₃) :
    SameLinks e₁ e₃ :=
  ⟨h'.identity.trans h.identity, h'.fileid.trans h.fileid, h'.name.trans h.name,
    h'.content.trans h.content, h'.up.trans h.up⟩

theorem sameLinks_setAttr {e e' : Entry} {setattr : Sattr3} {t t' : Nfstime3}
    (h : e.setAttr setattr t t' = some e') : SameLinks e e' := by
  unfold setAttr at h
  have hw := sameLinks_withAttr e setattr t t'
  dsimp only at h
  generalize e.withAttr (updateAttr e.attr setattr t t') = e₁ at h hw
  split at h
  · obtain ⟨f', hf, rfl⟩ := Option.map_eq_some_iff.mp h
    exact hw.trans (sameLinks_resize hf)
  · cases h
    exact hw

theorem sameLinks_write {f f' : File} {offset : UInt64} {data : Bytes}
    (h : f.write offset data = some (.ok f')) : SameLinks (.file f) (.file f') := by
  unfold File.write at h
  split at h
  · cases h
  obtain ⟨f₁, hf, he⟩ := Option.map_eq_some_iff.mp h
  cases he
  split_ifs at hf
  · have hr := sameLinks_resize hf
    exact ⟨hr.identity, hr.fileid, hr.name, rfl, rfl⟩
  · cases hf
    exact ⟨rfl, rfl, rfl, rfl, rfl⟩

@[simp]
theorem content_relocate (e : Entry) (d : FileHandleU64) (name : Filename3) :
    (e.relocate d name).content = e.content := by
  cases e <;> rfl

@[simp]
theorem fileid_relocate (e : Entry) (d : FileHandleU64) (name : Filename3) :
    (e.relocate d name).fileid = e.fileid := by
  cases e <;> rfl

theorem up_relocate {e : Entry} {d u : FileHandleU64} {name : Filename3}
    (h : (e.relocate d name).up = some u) : u = d := by
  cases e with
  | file f => cases h
  | dir dir =>
    cases h
    rfl

end Entry

namespace Fs

variable {order : HashOrder} {fs fs' : Fs} {dirid : FileHandleU64} {filename : Filename3}
  {r : Except Nfsstat3 Unit}

/-- The state after `push` linked a new entry. -/
structure Pushed (fs : Fs) (parent : FileHandleU64) (entry : Entry) (fs' : Fs) : Prop where
  fresh : fs.get entry.fileid = none
  eq : ∃ dir, (fs.insert entry.fileid entry).get parent = some (.dir dir) ∧
    entry.fileid ∉ dir.content ∧
    fs' = (fs.insert entry.fileid entry).insert parent (.dir (dir.addEntry entry.fileid))

theorem push_cases {parent : FileHandleU64} {entry : Entry}
    (h : fs.push parent entry = some (r, fs')) :
    (∃ e, r = .error e ∧ fs' = fs) ∨ (r = .ok () ∧ Pushed fs parent entry fs') := by
  unfold push at h
  dsimp only at h
  split_ifs at h with hid
  · cases h
    exact Or.inl ⟨_, rfl, rfl⟩
  · have hfresh : fs.get entry.fileid = none := by simpa using hid
    split at h
    · cases h
      exact Or.inl ⟨_, rfl, erase_insert hfresh⟩
    · cases h
      exact Or.inl ⟨_, rfl, erase_insert hfresh⟩
    · rename_i dir hdir
      split_ifs at h with hmem
      cases h
      exact Or.inr ⟨rfl, hfresh, dir, hdir, hmem, rfl⟩

/-- The state after `remove` took the entry `id` out of the directory. -/
structure Removed (fs : Fs) (dirid : FileHandleU64) (filename : Filename3) (id : FileHandleU64)
    (fs' : Fs) : Prop where
  notDot : filename ≠ dot
  notDotDot : filename ≠ dotDot
  ne : dirid ≠ id
  entry : ∃ entry, fs.get id = some entry ∧ entry.name = filename ∧ entry.content = ∅
  eq : ∃ dir, fs.get dirid = some (.dir dir) ∧ id ∈ dir.content ∧
    fs' = (fs.erase id).insert dirid (.dir (dir.removeEntry id))

theorem remove_cases (h : fs.remove order dirid filename = some (r, fs')) :
    (∃ e, r = .error e ∧ fs' = fs) ∨ (r = .ok () ∧ ∃ id, Removed fs dirid filename id fs') := by
  unfold remove at h
  dsimp only at h
  split_ifs at h with hdots
  · cases h
    exact Or.inl ⟨_, rfl, rfl⟩
  obtain ⟨hdot, hdotDot⟩ := not_or.mp hdots
  split at h
  · cases h
    exact Or.inl ⟨_, rfl, rfl⟩
  · cases h
    exact Or.inl ⟨_, rfl, rfl⟩
  rename_i dir hdir
  split at h
  · cases h
    exact Or.inl ⟨_, rfl, rfl⟩
  rename_i id hfind
  have hmem : id ∈ dir.content := order.mem_iter.mp (List.mem_of_find?_eq_some hfind)
  have hname := List.find?_some hfind
  split at h
  · cases h
    exact Or.inl ⟨_, rfl, rfl⟩
  rename_i entry hentry
  have hname : entry.name = filename := by simpa [hentry] using hname
  split_ifs at h with hempty
  · cases h
    exact Or.inl ⟨_, rfl, rfl⟩
  have hempty : entry.content = ∅ := not_not.mp hempty
  by_cases hne : dirid = id
  · subst hne
    simp at h
  · simp only [get_erase_of_ne hne, hdir, Option.some.injEq, Prod.mk.injEq] at h
    obtain ⟨rfl, rfl⟩ := h
    exact Or.inr ⟨rfl, id, hdot, hdotDot, hne, ⟨entry, hentry, hname, hempty⟩,
      dir, hdir, hmem, rfl⟩

theorem scan_ok {ids : List FileHandleU64} {entry : Entry} (h : fs.scan filename ids = .ok entry) :
    entry.name = filename ∧ ∃ id ∈ ids, fs.get id = some entry := by
  induction ids with
  | nil => cases h
  | cons id ids ih =>
    unfold scan at h
    split at h
    · cases h
    rename_i f hf
    split_ifs at h with hname
    · cases h
      exact ⟨hname, id, List.mem_cons_self, hf⟩
    · obtain ⟨hn, j, hj, hget⟩ := ih h
      exact ⟨hn, j, List.mem_cons_of_mem id hj, hget⟩

/-- An ordinary name is found among the children of the directory. -/
theorem lookup_ok {entry : Entry} (hdot : filename ≠ dot) (hdotDot : filename ≠ dotDot)
    (h : fs.lookup order dirid filename = .ok entry) :
    entry.name = filename ∧ ∃ dir id, fs.get dirid = some (.dir dir) ∧ id ∈ dir.content ∧
      fs.get id = some entry := by
  unfold lookup at h
  split at h
  · cases h
  · cases h
  rename_i dir hdir
  rw [if_neg hdot, if_neg hdotDot] at h
  obtain ⟨hname, id, hid, hget⟩ := scan_ok h
  exact ⟨hname, dir, id, hdir, order.mem_iter.mp hid, hget⟩

/-- Every entry that `lookup` finds is stored in the map. -/
theorem lookup_mem {entry : Entry} (h : fs.lookup order dirid filename = .ok entry) :
    ∃ id, fs.get id = some entry := by
  unfold lookup at h
  split at h
  · cases h
  · cases h
  rename_i dir hdir
  split_ifs at h with hdot hdotDot
  · cases h
    exact ⟨dirid, hdir⟩
  · split at h
    · cases h
    · rename_i parent hparent
      cases h
      exact ⟨dir.parent, hparent⟩
  · obtain ⟨-, id, -, hget⟩ := scan_ok h
    exact ⟨id, hget⟩

theorem replaceTarget_cases {fromEntry : Entry}
    (h : fs.replaceTarget order fromEntry dirid filename = some (r, fs')) :
    (∃ e, r = .error e ∧ fs' = fs) ∨
    (r = .ok () ∧ fs.lookup order dirid filename = .error .nfs3errNoent ∧ fs' = fs) ∨
    (r = .ok () ∧ ∃ id, Removed fs dirid filename id fs') := by
  unfold replaceTarget at h
  split at h
  · rename_i hnoent
    cases h
    exact Or.inr (Or.inl ⟨rfl, hnoent, rfl⟩)
  · exact (remove_cases h).imp_right Or.inr
  · split_ifs at h
    · cases h
      exact Or.inl ⟨_, rfl, rfl⟩
    · exact (remove_cases h).imp_right Or.inr
  · cases h
    exact Or.inl ⟨_, rfl, rfl⟩
  · cases h
    exact Or.inl ⟨_, rfl, rfl⟩
  · cases h
    exact Or.inl ⟨_, rfl, rfl⟩

/-- How far `relink` gets: the entry is taken out of its old directory, put into the new one,
and given its new name and parent. -/
inductive Relinked (fs : Fs) (fromDirid fromId toDirid : FileHandleU64) (toFilename : Filename3) :
    Except Nfsstat3 Unit → Fs → Prop
  | unchanged (e : Nfsstat3) : Relinked fs _ _ _ _ (.error e) fs
  | unlinked {fromDir : Dir} (e : Nfsstat3) (source : fs.get fromDirid = some (.dir fromDir)) :
      Relinked fs _ _ _ _ (.error e) (fs.insert fromDirid (.dir (fromDir.removeEntry fromId)))
  | linked {fromDir toDir : Dir} (e : Nfsstat3) (source : fs.get fromDirid = some (.dir fromDir))
      (target : (fs.insert fromDirid (.dir (fromDir.removeEntry fromId))).get toDirid =
        some (.dir toDir)) :
      Relinked fs _ _ _ _ (.error e)
        ((fs.insert fromDirid (.dir (fromDir.removeEntry fromId))).insert toDirid
          (.dir (toDir.addEntry fromId)))
  | renamed {fromDir toDir : Dir} {entry : Entry} (source : fs.get fromDirid = some (.dir fromDir))
      (target : (fs.insert fromDirid (.dir (fromDir.removeEntry fromId))).get toDirid =
        some (.dir toDir))
      (moved : ((fs.insert fromDirid (.dir (fromDir.removeEntry fromId))).insert toDirid
        (.dir (toDir.addEntry fromId))).get fromId = some entry) :
      Relinked fs _ _ _ _ (.ok ())
        (((fs.insert fromDirid (.dir (fromDir.removeEntry fromId))).insert toDirid
          (.dir (toDir.addEntry fromId))).insert fromId (entry.relocate toDirid toFilename))

theorem relink_cases {fromId toDirid : FileHandleU64} {toFilename : Filename3}
    (h : fs.relink dirid fromId toDirid toFilename = (r, fs')) :
    Relinked fs dirid fromId toDirid toFilename r fs' := by
  unfold relink at h
  split at h
  · cases h
    exact .unchanged _
  · cases h
    exact .unchanged _
  rename_i fromDir hsource
  dsimp only at h
  split at h
  · cases h
    exact .unlinked _ hsource
  · cases h
    exact .unlinked _ hsource
  rename_i toDir htarget
  split_ifs at h
  · cases h
    exact .unlinked _ hsource
  split at h
  · cases h
    exact .linked _ hsource htarget
  · rename_i entry hentry
    cases h
    exact .renamed hsource htarget hentry

/-- What a rename that gets past its first checks does: the target is replaced, then either
the ancestor check fails or the entry is relinked. -/
inductive Renamed (order : HashOrder) (fs : Fs) (fromDirid : FileHandleU64)
    (fromFilename : Filename3) (toDirid : FileHandleU64) (toFilename : Filename3) :
    Except Nfsstat3 Unit → Fs → Prop
  | unchanged (r : Except Nfsstat3 Unit) : Renamed order fs _ _ _ _ r fs
  | rejected {fromEntry : Entry} {fs' : Fs} {e : Nfsstat3}
      (lookup : fs.lookup order fromDirid fromFilename = .ok fromEntry)
      (distinct : ¬ (fromDirid = toDirid ∧ fromFilename = toFilename))
      (replaced : fs.replaceTarget order fromEntry toDirid toFilename = some (.ok (), fs'))
      (ancestors : fs'.checkAncestors fromEntry toDirid = some (.error e)) :
      Renamed order fs _ _ _ _ (.error e) fs'
  | relinked {fromEntry : Entry} {fs₁ fs' : Fs} {r : Except Nfsstat3 Unit}
      (lookup : fs.lookup order fromDirid fromFilename = .ok fromEntry)
      (distinct : ¬ (fromDirid = toDirid ∧ fromFilename = toFilename))
      (replaced : fs.replaceTarget order fromEntry toDirid toFilename = some (.ok (), fs₁))
      (ancestors : fs₁.checkAncestors fromEntry toDirid = some (.ok ()))
      (relink : fs₁.relink fromDirid fromEntry.fileid toDirid toFilename = (r, fs')) :
      Renamed order fs _ _ _ _ r fs'

theorem rename_cases {toDirid : FileHandleU64} {toFilename : Filename3}
    (h : fs.rename order dirid filename toDirid toFilename = some (r, fs')) :
    Renamed order fs dirid filename toDirid toFilename r fs' := by
  unfold rename at h
  split at h
  · cases h
    exact .unchanged _
  rename_i fromEntry hlookup
  split_ifs at h with hsame
  · cases h
    exact .unchanged _
  split at h
  · cases h
  · rename_i e fs₁ hreplace
    cases h
    rcases replaceTarget_cases hreplace with ⟨-, -, rfl⟩ | ⟨hr, -⟩ | ⟨hr, -⟩
    · exact .unchanged _
    · cases hr
    · cases hr
  rename_i fs₁ hreplace
  split at h
  · cases h
  · rename_i e hcheck
    cases h
    exact .rejected hlookup hsame hreplace hcheck
  · rename_i hcheck
    exact .relinked hlookup hsame hreplace hcheck (Option.some.inj h)

end Fs

/-- The operations that draw a new handle. -/
def Op.allocates : Op → Bool
  | .create .. | .createExclusive .. | .mkdir .. => true
  | .remove .. | .rename .. | .setattr .. | .write .. => false

/-- The handle through which an operation changes the data or the attributes of an entry. -/
def Op.updates : Op → Option FileHandleU64
  | .setattr id _ | .write id _ _ => some id
  | .create .. | .createExclusive .. | .mkdir .. | .remove .. | .rename .. => none

/-- What a call that returns does to the file system, and in which cases it can have failed. -/
inductive Effect (order : HashOrder) (s : MemFs) : Op → Except Nfsstat3 Reply → Fs → Prop
  | unchanged (op : Op) (r : Except Nfsstat3 Reply) : Effect order s op r s.fs
  | pushed {parent : FileHandleU64} {entry : Entry} {fs' : Fs} (op : Op) (reply : Reply)
      (allocates : op.allocates = true) (fileid : entry.fileid = s.nextid)
      (content : entry.content = ∅) (up : ∀ u, entry.up = some u → u = parent)
      (push : s.fs.Pushed parent entry fs') :
      Effect order s op (.ok reply) fs'
  | removed {dirid id : FileHandleU64} {filename : Filename3} {fs' : Fs} (op : Op) (reply : Reply)
      (remove : s.fs.Removed dirid filename id fs') : Effect order s op (.ok reply) fs'
  | updated {id : FileHandleU64} {entry entry' : Entry} (op : Op) (reply : Reply)
      (target : op.updates = some id) (get : s.fs.get id = some entry)
      (sameLinks : entry.SameLinks entry') :
      Effect order s op (.ok reply) (s.fs.insert id entry')
  | renamed {fromDirid toDirid : FileHandleU64} {fromFilename toFilename : Filename3}
      {r : Except Nfsstat3 Unit} {fs' : Fs} (reply : Reply)
      (rename : s.fs.Renamed order fromDirid fromFilename toDirid toFilename r fs') :
      Effect order s (.rename fromDirid fromFilename toDirid toFilename)
        (r.map fun _ => reply) fs'

namespace MemFs

variable {s s' : MemFs} {env : Env} {r : Except Nfsstat3 Reply} {dirid : FileHandleU64}
  {filename : Filename3}

theorem lift_eq_some {outcome : Outcome Unit} {reply : Reply}
    (h : s.lift outcome reply = some (r, s')) :
    ∃ r₀ fs', outcome = some (r₀, fs') ∧ r = (r₀.map fun _ => reply) ∧
      s' = { s with fs := fs' } := by
  obtain ⟨⟨r₀, fs'⟩, ho, he⟩ := Option.map_eq_some_iff.mp h
  cases he
  exact ⟨r₀, fs', ho, rfl, rfl⟩

/-- A new entry that `push` was called with is linked, or the call has failed. -/
theorem effect_push {op : Op} {entry : Entry} {n : UInt64} {reply : Reply}
    (hop : op.allocates = true) (hid : entry.fileid = s.nextid) (hcontent : entry.content = ∅)
    (hup : ∀ u, entry.up = some u → u = dirid)
    (h : ({ s with nextid := n } : MemFs).lift (s.fs.push dirid entry) reply = some (r, s')) :
    Effect env.order s op r s'.fs := by
  obtain ⟨r₀, fs', hp, rfl, rfl⟩ := lift_eq_some h
  rcases Fs.push_cases hp with ⟨e, rfl, rfl⟩ | ⟨rfl, hpush⟩
  · exact .unchanged op _
  · exact .pushed op reply hop hid hcontent hup hpush

theorem effect_addDir {op : Op} (hop : op.allocates = true)
    (h : s.addDir env dirid filename = some (r, s')) :
    Effect env.order s op r s'.fs := by
  refine effect_push hop rfl rfl ?_ h
  intro u hu
  cases hu
  rfl

theorem effect_addFile {attr : Sattr3} {verf : Option Createverf3} {op : Op}
    (hop : op.allocates = true) (h : s.addFile env dirid filename attr [] verf = some (r, s')) :
    Effect env.order s op r s'.fs := by
  unfold addFile at h
  dsimp only at h
  split at h
  · cases h
  rename_i file hfile
  have hlinks := Entry.sameLinks_setAttr hfile
  split at h
  · refine effect_push hop hlinks.fileid hlinks.content ?_ h
    intro u hu
    rw [hlinks.up] at hu
    cases hu
  · split_ifs at h
    · cases h
      exact .unchanged op _
    · cases h
      exact .unchanged op _
  · cases h
    exact .unchanged op _
  · cases h
    exact .unchanged op _

theorem setattr_cases {id : FileHandleU64} {setattr : Sattr3}
    (h : s.setattr env id setattr = some (r, s')) :
    (∃ e, r = .error e ∧ s' = s) ∨
      ∃ entry entry', s.fs.get id = some entry ∧
        entry.setAttr setattr (env.time 0) (env.time 1) = some entry' ∧
        r = .ok ⟨none, some entry'.attr⟩ ∧ s' = { s with fs := s.fs.insert id entry' } := by
  unfold MemFs.setattr at h
  split at h
  · cases h
    exact Or.inl ⟨_, rfl, rfl⟩
  · rename_i entry hget
    obtain ⟨entry', hset, hr⟩ := Option.map_eq_some_iff.mp h
    cases hr
    exact Or.inr ⟨entry, entry', hget, hset, rfl, rfl⟩

theorem write_cases {id : FileHandleU64} {offset : UInt64} {data : Bytes}
    (h : s.write id offset data = some (r, s')) :
    (∃ e, r = .error e ∧ s' = s) ∨
      ∃ f f', s.fs.get id = some (.file f) ∧ f.write offset data = some (.ok f') ∧
        r = .ok ⟨none, some f'.attr⟩ ∧ s' = { s with fs := s.fs.insert id (.file f') } := by
  unfold MemFs.write at h
  split at h
  · cases h
    exact Or.inl ⟨_, rfl, rfl⟩
  · cases h
    exact Or.inl ⟨_, rfl, rfl⟩
  · rename_i f hget
    obtain ⟨w, hwrite, hr⟩ := Option.map_eq_some_iff.mp h
    cases w with
    | error e =>
      cases hr
      exact Or.inl ⟨e, rfl, rfl⟩
    | ok f' =>
      cases hr
      exact Or.inr ⟨f, f', hget, hwrite, rfl, rfl⟩

theorem effect_setattr {setattr : Sattr3} {op : Op} (hop : op.updates = some dirid)
    (h : s.setattr env dirid setattr = some (r, s')) :
    Effect env.order s op r s'.fs := by
  rcases setattr_cases h with ⟨e, rfl, rfl⟩ | ⟨entry, entry', hget, hset, rfl, rfl⟩
  · exact .unchanged op _
  · exact .updated op _ hop hget (Entry.sameLinks_setAttr hset)

theorem effect_write {offset : UInt64} {data : Bytes} {op : Op}
    (hop : op.updates = some dirid) (h : s.write dirid offset data = some (r, s')) :
    Effect env.order s op r s'.fs := by
  rcases write_cases h with ⟨e, rfl, rfl⟩ | ⟨f, f', hget, hwrite, rfl, rfl⟩
  · exact .unchanged op _
  · exact .updated op _ hop hget (Entry.sameLinks_write hwrite)

theorem exec_effect {call : Call} (h : s.exec call = some (r, s')) :
    Effect call.env.order s call.op r s'.fs := by
  obtain ⟨env, op⟩ := call
  cases op with
  | create dirid filename attr => exact effect_addFile rfl h
  | createExclusive dirid filename createverf =>
    obtain ⟨⟨r₀, s₁⟩, hadd, he⟩ := Option.map_eq_some_iff.mp h
    cases he
    have hop : (Op.createExclusive dirid filename createverf).allocates = true := rfl
    have heffect := effect_addFile hop hadd
    generalize s'.fs = fs' at heffect ⊢
    cases heffect with
    | unchanged => exact .unchanged _ _
    | pushed _ _ hop hid hcontent hup hpush => exact .pushed _ _ hop hid hcontent hup hpush
    | removed _ _ hremove => exact .removed _ _ hremove
    | updated _ _ htarget => cases htarget
  | mkdir dirid dirname => exact effect_addDir rfl h
  | remove dirid filename =>
    obtain ⟨r₀, fs', hremove, rfl, rfl⟩ := lift_eq_some h
    rcases Fs.remove_cases hremove with ⟨e, rfl, rfl⟩ | ⟨rfl, id, hrem⟩
    · exact .unchanged _ _
    · exact .removed _ _ hrem
  | rename fromDirid fromFilename toDirid toFilename =>
    obtain ⟨r₀, fs', hrename, rfl, rfl⟩ := lift_eq_some h
    exact .renamed _ (Fs.rename_cases hrename)
  | setattr id setattr => exact effect_setattr rfl h
  | write id offset data => exact effect_write rfl h

end MemFs

end Nfs3.Memfs
