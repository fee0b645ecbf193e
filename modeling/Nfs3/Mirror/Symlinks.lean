import Nfs3.Mirror.Lookups

/-!
# Symbolic links

A link is made on the host first and then looked up to give it a handle. The lookup asks whether
the path exists, and that question follows the link: where the link leads nowhere the request
fails, and the link stays behind.
-/
namespace Nfs3.Mirror

open ByteOrder (Bytes)
open Interaction (Prog)

/-! ## The host -/

/-- Calls that leave directories, links and modes as they are. -/
def HostCall.KeepsTree : HostCall → Prop
  | .pathExists _ | .symlinkMetadata _ | .readLink _ => True
  | .setFileAtime .. | .setFileMtime .. | .openReadWrite _ | .setLen .. => True
  | _ => False

variable {T S W V : Type}

def HostFs.AcceptsLink (host : HostFs W) (w : W) (target : Bytes) (link : PathBuf) : Prop :=
  ((host.answer w (.symlink target link)).1 : IoResult Unit) = .ok ()

/-- What is documented of the calls that make links and follow them. The tree of a host is all
of it but times and the contents of files. `path_exists` follows links, and adding a link where
nothing was takes no other path away. -/
structure HostFs.Trees (host : HostFs W) (V : Type) where
  tree : W → V
  pathExists : V → PathBuf → Bool
  readLink : V → PathBuf → Option Bytes
  addLink : V → Bytes → PathBuf → V
  setMode : V → PathBuf → UInt32 → V
  answer_pathExists : ∀ w path, (host.answer w (.pathExists path)).1 = pathExists (tree w) path
  answer_readLink : ∀ w path target,
    ((host.answer w (.readLink path)).1 : IoResult Bytes) = .ok target ↔
      readLink (tree w) path = some target
  answer_symlinkMetadata : ∀ w path, (readLink (tree w) path).isSome →
    ∃ metadata, ((host.answer w (.symlinkMetadata path)).1 : IoResult Metadata) = .ok metadata
  tree_kept : ∀ w (c : HostCall), c.KeepsTree → tree (host.answer w c).2 = tree w
  tree_symlink : ∀ w target link, host.AcceptsLink w target link →
    tree (host.answer w (.symlink target link)).2 = addLink (tree w) target link
  tree_refused : ∀ w target link, ¬host.AcceptsLink w target link →
    tree (host.answer w (.symlink target link)).2 = tree w
  tree_setPermissions : ∀ w path mode,
    tree (host.answer w (.setPermissions path mode)).2 = setMode (tree w) path mode
  readLink_addLink : ∀ w target link, host.AcceptsLink w target link →
    readLink (addLink (tree w) target link) link = some target
  pathExists_addLink : ∀ w target link path, host.AcceptsLink w target link →
    pathExists (tree w) path = true → pathExists (addLink (tree w) target link) path = true
  hasEntry_tree : ∀ {w w'} path, tree w = tree w' → (host.hasEntry w path ↔ host.hasEntry w' path)

/-- The tree after the mode of a path was set, if one was given. -/
def HostFs.Trees.withMode {host : HostFs W} (trees : host.Trees V) (v : V) (path : PathBuf) :
    SetMode3 → V
  | .some mode => trees.setMode v path (modeUnmask mode)
  | .none => v

variable [SymbolTable T S] [DecidableEq S] {host : HostFs W} {trees : host.Trees V} {fs : Fs T S}

/-! ## Setting attributes -/

section Settles

variable {ε ε' α β : Type} {v v₁ v₂ : V}

/-- The operation ends, with success or not, and leads from one tree to the other while the
memory of the mirror stays as it is. -/
def Settles (trees : host.Trees V) (fs : Fs T S) (m : ExceptT ε FsProg α) (v v' : V) : Prop :=
  ∀ w, trees.tree w = v → ∃ r w', m.run.runIn (Machine.exec host) ⟨fs, w⟩ = some (r, ⟨fs, w'⟩) ∧
    trees.tree w' = v'

/-- The operation succeeds and settles. -/
def Passes (trees : host.Trees V) (fs : Fs T S) (m : ExceptT ε FsProg α) (v v' : V) : Prop :=
  ∀ w, trees.tree w = v → ∃ a w', m.run.runIn (Machine.exec host) ⟨fs, w⟩ =
    some (.ok a, ⟨fs, w'⟩) ∧ trees.tree w' = v'

theorem passes_pure (a : α) : Passes trees fs (pure a : ExceptT ε FsProg α) v v :=
  fun w hw => ⟨a, w, rfl, hw⟩

theorem Passes.settles {m : ExceptT ε FsProg α} (h : Passes trees fs m v v₁) :
    Settles trees fs m v v₁ := by
  intro w hw
  obtain ⟨a, w₁, hrun, hw₁⟩ := h w hw
  exact ⟨.ok a, w₁, hrun, hw₁⟩

theorem settles_call {c : HostCall} (hc : c.KeepsTree) {m : ExceptT ε FsProg α}
    {f : c.Reply → Except ε α} (hm : m.run = (call c).bind fun r => .ret (f r)) :
    Settles trees fs m v v := by
  intro w hw
  refine ⟨f (host.answer w c).1, (host.answer w c).2, ?_, (trees.tree_kept w c hc).trans hw⟩
  rw [hm]
  rfl

theorem Settles.mapErr {m : ExceptT ε FsProg α} (h : Settles trees fs m v v₁) (f : ε → ε') :
    Settles trees fs (mapErr f m) v v₁ := by
  intro w hw
  obtain ⟨r, w₁, hrun, hw₁⟩ := h w hw
  change ∃ r w', (Prog.bind m.run _).runIn _ _ = _ ∧ _
  simp only [Prog.runIn_bind, hrun]
  cases r with
  | ok a => exact ⟨_, w₁, rfl, hw₁⟩
  | error e => exact ⟨_, w₁, rfl, hw₁⟩

theorem Settles.ignore {m : ExceptT ε FsProg α} (h : Settles trees fs m v v₁) :
    Passes trees fs (ignore m : ExceptT ε' FsProg Unit) v v₁ := by
  intro w hw
  obtain ⟨r, w₁, hrun, hw₁⟩ := h w hw
  refine ⟨(), w₁, ?_, hw₁⟩
  have hattempt : (attempt m : ExceptT ε' FsProg _).run.runIn (Machine.exec host) ⟨fs, w⟩ =
      some (.ok r, ⟨fs, w₁⟩) := by
    change (Prog.bind m.run _).runIn _ _ = _
    rw [Prog.runIn_bind, hrun]
    rfl
  unfold Mirror.ignore
  rw [Prog.runIn_andThen, hattempt]
  rfl

theorem Passes.andThen {m : ExceptT ε FsProg α} {f : α → ExceptT ε FsProg β}
    (hm : Passes trees fs m v v₁) (hf : ∀ a, Settles trees fs (f a) v₁ v₂) :
    Settles trees fs (m >>= f) v v₂ := by
  intro w hw
  obtain ⟨a, w₁, hrun, hw₁⟩ := hm w hw
  rw [Prog.runIn_andThen, hrun]
  exact hf a w₁ hw₁

/-- What comes after a step that may fail leaves the tree as it is. -/
theorem Settles.andThen {m : ExceptT ε FsProg α} {f : α → ExceptT ε FsProg β}
    (hm : Settles trees fs m v v₁) (hf : ∀ a, Settles trees fs (f a) v₁ v₁) :
    Settles trees fs (m >>= f) v v₁ := by
  intro w hw
  obtain ⟨r, w₁, hrun, hw₁⟩ := hm w hw
  rw [Prog.runIn_andThen, hrun]
  cases r with
  | ok a => exact hf a w₁ hw₁
  | error e => exact ⟨.error e, w₁, rfl, hw₁⟩

theorem passes_setAtime (path : PathBuf) (atime : SetAtime) :
    Passes trees fs (setAtime path atime) v v := by
  have hcall : ∀ time, Settles trees fs (Host.setFileAtime path time) v v := fun time =>
    settles_call (c := .setFileAtime path time) trivial (f := fun r => r) rfl
  cases atime with
  | dontChange => exact passes_pure ()
  | setToServerTime => exact (hcall none).ignore
  | setToClientTime time => exact (hcall (some time)).ignore

theorem passes_setMtime (path : PathBuf) (mtime : SetMtime) :
    Passes trees fs (setMtime path mtime) v v := by
  have hcall : ∀ time, Settles trees fs (Host.setFileMtime path time) v v := fun time =>
    settles_call (c := .setFileMtime path time) trivial (f := fun r => r) rfl
  cases mtime with
  | dontChange => exact passes_pure ()
  | setToServerTime => exact (hcall none).ignore
  | setToClientTime time => exact (hcall (some time)).ignore

theorem passes_setMode (path : PathBuf) (mode : SetMode3) :
    Passes trees fs (setMode path mode) v (trees.withMode v path mode) := by
  cases mode with
  | none => exact passes_pure ()
  | some mode =>
    have hcall : Settles trees fs (Host.setPermissions path (modeUnmask mode)) v
        (trees.setMode v path (modeUnmask mode)) := by
      intro w hw
      refine ⟨_, _, rfl, ?_⟩
      rw [trees.tree_setPermissions, hw]
    exact hcall.ignore

theorem settles_setSize (path : PathBuf) (size : SetSize3) :
    Settles trees fs (setSize path size) v v := by
  cases size with
  | none => exact (passes_pure ()).settles
  | some size =>
    have hopen : Settles trees fs (Host.openReadWrite path) v v :=
      settles_call (c := .openReadWrite path) trivial (f := fun r => r) rfl
    have hlen : ∀ file, Settles trees fs (Host.setLen file size) v v := fun file =>
      settles_call (c := .setLen file size) trivial (f := fun r => r) rfl
    exact (hopen.mapErr _).andThen fun file => (hlen file).mapErr _

theorem settles_pathSetattr (path : PathBuf) (attr : Sattr3) :
    Settles trees fs (pathSetattr path attr) v (trees.withMode v path attr.mode) := by
  apply (passes_setAtime path attr.atime).andThen
  intro _
  apply (passes_setMtime path attr.mtime).andThen
  intro _
  apply (passes_setMode path attr.mode).andThen
  intro _
  exact settles_setSize path attr.size

variable {id : FileHandleU64} {path : PathBuf}

theorem settles_getattr (h : fs.hostPath id = some path) :
    Settles trees fs (Fs.getattr fs.root id) v v := by
  have hcall : Settles trees fs (Host.symlinkMetadata path) v v :=
    settles_call (c := .symlinkMetadata path) trivial (f := fun r => r) rfl
  intro w hw
  unfold Fs.getattr
  rw [Prog.runIn_andThen, Machine.runIn_path (s := ⟨fs, w⟩) h]
  exact (hcall.mapErr mapIoError).andThen (fun _ => (passes_pure _).settles) w hw

theorem passes_linkSetattr (trees : host.Trees V) (h : fs.hostPath id = some path)
    (attr : Sattr3) :
    Passes trees fs (Fs.linkSetattr fs.root id attr) v (trees.withMode v path attr.mode) := by
  unfold Fs.linkSetattr
  split_ifs with hgiven
  · have hsetattr : Settles trees fs (Fs.setattr fs.root id attr) v
        (trees.withMode v path attr.mode) := by
      intro w hw
      unfold Fs.setattr
      rw [Prog.runIn_andThen, Machine.runIn_path (s := ⟨fs, w⟩) h]
      exact (settles_pathSetattr path attr).andThen (fun _ => settles_getattr h) w hw
    exact hsetattr.ignore
  · have hmode : attr.mode = .none := by
      by_contra hmode
      exact hgiven (.inl hmode)
    rw [hmode]
    exact passes_pure ()

end Settles

/-! ## Looking the link up -/

/-- The cache can take one more name in. -/
def Fs.HasRoom (fs : Fs T S) (name : OsString) : Prop :=
  (SymbolTable.intern fs.cache.inner.symbols name).isSome ∧
    fs.cache.inner.pathToId.entries.length < maxEntries

namespace Machine

variable {s s' : Machine T S W} {now : Instant} {id dirid : FileHandleU64} {dir : PathBuf}
  {filename : Filename3}

/-- The existence tests find the parent; what remains is whether the path leads anywhere. -/
theorem testPath_tree {root relativePath : PathBuf} {inner : SymbolsCacheInner T S}
    {parent : SymbolsPath S} {w : W} (name : OsString)
    (hresolve : resolvePath inner.symbols parent = some relativePath)
    (hdir : trees.pathExists (trees.tree w) (root.join relativePath) = true) :
    ∃ w', (inner.testPath root parent name).runIn (fun w c => some (host.answer w c)) w =
      some (if trees.pathExists (trees.tree w) ((root.join relativePath).join name) then .ok ()
        else .error .nfs3errNoent, w') := by
  obtain ⟨parentFound, w₁, hparent⟩ : ∃ (parentFound : Bool) (w₁ : W),
      host.answer w (.pathExists (root.join relativePath)) = (parentFound, w₁) := ⟨_, _, rfl⟩
  obtain ⟨found, w₂, hfound⟩ : ∃ (found : Bool) (w₂ : W), host.answer w₁
      (.pathExists ((root.join relativePath).join name)) = (found, w₂) := ⟨_, _, rfl⟩
  have hw₁ := trees.tree_kept w (.pathExists (root.join relativePath)) trivial
  have htrue := trees.answer_pathExists w (root.join relativePath)
  have heq := trees.answer_pathExists w₁ ((root.join relativePath).join name)
  rw [hparent] at hw₁ htrue
  rw [hfound] at heq
  obtain rfl : parentFound = true := htrue.trans hdir
  rw [← hw₁, ← heq]
  exact ⟨w₂, runIn_testPath hresolve hparent hfound⟩

/-- A lookup in a directory that exists gives a handle exactly if the cache holds the name, or
has room for it and the path leads somewhere. -/
theorem answer_lookup_ok [LawfulSymbolTable T S] (trees : host.Trees V) (now : Instant)
    (filename : Filename3) (hs : s.Rooted) (hpath : s.fs.hostPath dirid = some dir)
    (hdir : trees.pathExists (trees.tree s.host) dir = true) :
    ((s.fs.cached dirid (Filename3.asOsStr filename)).isSome ∨
        s.fs.HasRoom (Filename3.asOsStr filename) ∧ trees.pathExists (trees.tree s.host)
          (dir.join (Filename3.asOsStr filename)) = true) ↔
      ∃ id s', s.answer host now (.lookup dirid filename) =
        some ((.ok id : Except Nfsstat3 FileHandleU64), s') := by
  cases hcached : s.fs.cached dirid (Filename3.asOsStr filename) with
  | some id =>
    obtain ⟨fs', hanswer, -⟩ : ∃ fs', s.answer host now (.lookup dirid filename) =
          some ((.ok id : Except Nfsstat3 FileHandleU64), ⟨fs', s.host⟩) ∧ _ :=
      answer_lookup_of_cached hcached hpath
    exact ⟨fun _ => ⟨id, _, hanswer⟩, fun _ => .inl rfl⟩
  | none =>
    obtain ⟨parent, hid, hmap⟩ := Option.bind_eq_some_iff.mp hpath
    obtain ⟨relativePath, hresolve, rfl⟩ := Option.map_eq_some_iff.mp hmap
    obtain ⟨ns, hns, rfl⟩ := Option.map_eq_some_iff.mp hresolve
    cases hintern : SymbolTable.intern s.fs.cache.inner.symbols (Filename3.asOsStr filename) with
    | none => simp [Fs.HasRoom, answer_lookup_eq hid, SymbolsCacheInner.lookup, hintern, Prog.runIn]
    | some interned =>
      obtain ⟨symbol, symbols⟩ := interned
      have hnone : s.fs.cache.inner.pathToId.lookup (parent.join symbol) = none := by
        simpa [Fs.cached, hid, hintern] using hcached
      have hresolve' : resolvePath symbols parent = some (ns.foldl PathBuf.push []) := by
        rw [resolvePath, names_intern hintern hns]
        rfl
      rw [← hs] at hdir ⊢
      have hinner : resolvePath { s.fs.cache.inner with symbols }.symbols parent =
        some (ns.foldl PathBuf.push []) := hresolve'
      obtain ⟨w, htest⟩ := testPath_tree (Filename3.asOsStr filename) hinner hdir
      rw [answer_lookup_of_uncached hid hintern hnone, htest]
      simp only [Fs.HasRoom, hintern, Option.isSome_some, true_and, Option.isSome_none,
        Bool.false_eq_true, false_or]
      constructor
      · rintro ⟨hroom, hfound⟩
        rw [if_pos hfound, Option.bind_some]
        dsimp only
        rw [if_pos hroom]
        exact ⟨_, _, rfl⟩
      · rintro ⟨id, s', hrun⟩
        by_cases hfound : trees.pathExists (trees.tree s.host) ((s.fs.cache.root.join
            (ns.foldl PathBuf.push [])).join (Filename3.asOsStr filename)) = true
        · rw [if_pos hfound, Option.bind_some] at hrun
          dsimp only at hrun
          split_ifs at hrun with hroom
          exact ⟨hroom, hfound⟩
        · rw [if_neg hfound] at hrun
          cases hrun

/-! ## Making a link -/

theorem answer_readlink {path : PathBuf} (h : s.fs.hostPath id = some path) :
    s.answer host now (.readlink id) =
      some ((match ((host.answer s.host (.readLink path)).1 : IoResult Bytes) with
        | .ok target => .ok ⟨⟨target⟩⟩
        | .error kind => .error (if kind = .notFound then .nfs3errNoent else .nfs3errBadtype) :
          Except Nfsstat3 Nfspath3), ⟨s.fs, (host.answer s.host (.readLink path)).2⟩) := by
  change (Fs.readlink s.fs.root id).run.runIn (exec host) s = _
  unfold Fs.readlink
  rw [Prog.runIn_andThen, runIn_path h, Option.bind_some]
  refine Option.bind_eq_some_iff.mpr ⟨_, exec_host _, ?_⟩
  generalize host.answer s.host (.readLink path) = found
  obtain ⟨found, w⟩ := found
  cases found with
  | ok target => rfl
  | error kind => rfl

variable {linkname : Filename3} {target : Nfspath3} {attr : Sattr3} {w : W}

theorem answer_symlink_refused {kind : ErrorKind} (hpath : s.fs.hostPath dirid = some dir)
    (hhost : host.answer s.host (.symlink target.val.data (dir.join (Filename3.asOsStr linkname))) =
      ((.error kind : IoResult Unit), w)) :
    s.answer host now (.symlink dirid linkname target attr) =
      some ((.error (mapIoError kind) : Except Nfsstat3 (FileHandleU64 × Fattr3)), ⟨s.fs, w⟩) := by
  change (Fs.symlink s.fs.root dirid linkname target attr).run.runIn (exec host) s = _
  unfold Fs.symlink
  rw [Prog.runIn_andThen, runIn_path hpath, Option.bind_some]
  refine Option.bind_eq_some_iff.mpr ⟨_, exec_host _, ?_⟩
  rw [hhost]
  rfl

/-- What is left to do when the link has a handle. -/
def finishLink (root : PathBuf) (linkId : FileHandleU64) (attr : Sattr3) :
    FsM (FileHandleU64 × Fattr3) := do
  Fs.linkSetattr root linkId attr
  let fattr ← Fs.getattr root linkId
  return (linkId, fattr)

theorem answer_symlink_made (hpath : s.fs.hostPath dirid = some dir)
    (hhost : host.answer s.host (.symlink target.val.data (dir.join (Filename3.asOsStr linkname))) =
      ((.ok () : IoResult Unit), w)) :
    s.answer host now (.symlink dirid linkname target attr) =
      ((⟨s.fs, w⟩ : Machine T S W).answer host now (.lookup dirid linkname)).bind fun
        | ((.ok linkId : Except Nfsstat3 FileHandleU64), s₁) =>
          (finishLink s.fs.root linkId attr).run.runIn (exec host) s₁
        | (.error stat, s₁) => some (.error stat, s₁) := by
  change (Fs.symlink s.fs.root dirid linkname target attr).run.runIn (exec host) s = _
  unfold Fs.symlink
  rw [Prog.runIn_andThen, runIn_path hpath, Option.bind_some]
  dsimp only
  have hsymlink : (mapErr mapIoError (Host.symlink target.val.data
      (dir.join (Filename3.asOsStr linkname)))).run.runIn (exec host) s =
        some (.ok (), ⟨s.fs, w⟩) := by
    refine Option.bind_eq_some_iff.mpr ⟨_, exec_host _, ?_⟩
    rw [hhost]
    rfl
  rw [Prog.runIn_andThen, hsymlink, Option.bind_some]
  dsimp only
  rw [Prog.runIn_andThen]
  refine congrArg (Option.bind (answer host now ⟨s.fs, w⟩ (.lookup dirid linkname))) (funext ?_)
  rintro ⟨found, s₁⟩
  cases found with
  | ok linkId => rfl
  | error stat => rfl

theorem answer_readlink_ok (trees : host.Trees V) (target : Nfspath3) {path : PathBuf}
    (h : s.fs.hostPath id = some path) :
    trees.readLink (trees.tree s.host) path = some target.val.data ↔
      ∃ s', s.answer host now (.readlink id) =
        some ((.ok target : Except Nfsstat3 Nfspath3), s') := by
  rw [answer_readlink h, ← trees.answer_readLink]
  constructor
  · intro hanswer
    rw [hanswer]
    exact ⟨_, rfl⟩
  · rintro ⟨s', hrun⟩
    have hread := (Prod.mk.inj (Option.some.inj hrun)).1
    split at hread
    · rename_i data hdata
      cases hread
      exact hdata
    · cases hread

/-- A link that has a handle can be read through it exactly if its mode leaves it readable. -/
theorem finishLink_iff (trees : host.Trees V) (now : Instant) (target : Nfspath3) (attr : Sattr3)
    {link : PathBuf} (hlink : s.fs.hostPath id = some link) :
    trees.readLink (trees.withMode (trees.tree s.host) link attr.mode) link =
        some target.val.data ↔
      ∃ id' fattr s₁ s₂, (finishLink s.fs.root id attr).run.runIn (exec host) s =
          some (.ok (id', fattr), s₁) ∧
        s₁.answer host now (.readlink id') =
          some ((.ok target : Except Nfsstat3 Nfspath3), s₂) := by
  obtain ⟨_, w, hset, hw⟩ := passes_linkSetattr trees hlink attr s.host rfl
  have hgetattr : (⟨s.fs, w⟩ : Machine T S W).answer host now (.getattr id) = some (_, _) :=
    answer_getattr hlink
  change (Fs.getattr s.fs.root id).run.runIn (exec host) _ = _ at hgetattr
  obtain ⟨found, w', hfound⟩ : ∃ (found : IoResult Metadata) (w' : W),
      host.answer w (.symlinkMetadata link) = (found, w') := ⟨_, _, rfl⟩
  have hw' := trees.tree_kept w (.symlinkMetadata link) trivial
  have hmetadata := trees.answer_symlinkMetadata w link
  rw [hfound] at hgetattr hw' hmetadata
  unfold finishLink
  rw [Prog.runIn_andThen, hset, Option.bind_some]
  dsimp only at hw' ⊢
  rw [Prog.runIn_andThen, hgetattr, ← hw]
  cases found with
  | ok metadata =>
    have hread : trees.readLink (trees.tree w') link = some target.val.data ↔
        ∃ s₂, (⟨s.fs, w'⟩ : Machine T S W).answer host now (.readlink id) =
          some ((.ok target : Except Nfsstat3 Nfspath3), s₂) :=
      answer_readlink_ok (s := ⟨s.fs, w'⟩) trees target hlink
    rw [← hw', hread]
    constructor
    · rintro ⟨s₂, hs₂⟩
      exact ⟨id, _, _, s₂, rfl, hs₂⟩
    · rintro ⟨id', fattr, s₁, s₂, hfinish, hs₂⟩
      cases hfinish
      exact ⟨s₂, hs₂⟩
  | error kind =>
    constructor
    · intro hread
      obtain ⟨metadata, heq⟩ := hmetadata (by simp [hread])
      cases heq
    · rintro ⟨id', fattr, s₁, s₂, hfinish, -⟩
      cases hfinish

/-- Making a symbolic link and reading it are inverse to each other. A link that the host accepts
gets a handle through which its target is read back, and a failed request leaves the directories
as they were. -/
structure SymlinkInverse (host : HostFs W) (now : Instant) (s : Machine T S W)
    (dirid : FileHandleU64) (linkname : Filename3) (target : Nfspath3) (attr : Sattr3) : Prop where
  readlink_symlink : ∀ dir, s.fs.hostPath dirid = some dir →
    host.AcceptsLink s.host target.val.data (dir.join (Filename3.asOsStr linkname)) →
    ∃ id fattr s₁ s₂, s.answer host now (.symlink dirid linkname target attr) =
        some ((.ok (id, fattr) : Except Nfsstat3 (FileHandleU64 × Fattr3)), s₁) ∧
      s₁.answer host now (.readlink id) = some ((.ok target : Except Nfsstat3 Nfspath3), s₂)
  symlink_error : ∀ stat s₁, s.answer host now (.symlink dirid linkname target attr) =
      some ((.error stat : Except Nfsstat3 (FileHandleU64 × Fattr3)), s₁) →
    ∀ path, host.hasEntry s₁.host path ↔ host.hasEntry s.host path

theorem symlinkInverse_of_refused (trees : host.Trees V) (hpath : s.fs.hostPath dirid = some dir)
    (hrefused : ¬host.AcceptsLink s.host target.val.data
      (dir.join (Filename3.asOsStr linkname))) :
    s.SymlinkInverse host now dirid linkname target attr := by
  constructor
  · intro dir' hpath' haccepts
    obtain rfl : dir = dir' := Option.some.inj (hpath.symm.trans hpath')
    exact absurd haccepts hrefused
  · intro stat s₁ hrun path
    obtain ⟨made, w, hhost⟩ : ∃ (made : IoResult Unit) (w : W), host.answer s.host
        (.symlink target.val.data (dir.join (Filename3.asOsStr linkname))) = (made, w) :=
      ⟨_, _, rfl⟩
    have hw := trees.tree_refused s.host _ _ hrefused
    unfold HostFs.AcceptsLink at hrefused
    rw [hhost] at hw hrefused
    cases made with
    | ok _ => exact absurd rfl hrefused
    | error kind =>
      rw [answer_symlink_refused hpath hhost] at hrun
      obtain ⟨-, rfl⟩ := Prod.mk.inj (Option.some.inj hrun)
      exact trees.hasEntry_tree path hw

/-- Once the link is made and has got a handle, it depends on its mode whether it can be read. -/
theorem readlink_of_made_iff [LawfulSymbolTable T S] (trees : host.Trees V) {w : W}
    {linkId : FileHandleU64} {s₁ : Machine T S W} (hs : s.fs.cache.inner.Sound)
    (hpath : s.fs.hostPath dirid = some dir)
    (hhost : host.answer s.host (.symlink target.val.data
      (dir.join (Filename3.asOsStr linkname))) = ((.ok () : IoResult Unit), w))
    (hfound : (⟨s.fs, w⟩ : Machine T S W).answer host now (.lookup dirid linkname) =
      some ((.ok linkId : Except Nfsstat3 FileHandleU64), s₁)) :
    trees.readLink (trees.withMode (trees.tree w) (dir.join (Filename3.asOsStr linkname))
        attr.mode) (dir.join (Filename3.asOsStr linkname)) = some target.val.data ↔
      ∃ id fattr s₂ s₃, s.answer host now (.symlink dirid linkname target attr) =
          some ((.ok (id, fattr) : Except Nfsstat3 (FileHandleU64 × Fattr3)), s₂) ∧
        s₂.answer host now (.readlink id) =
          some ((.ok target : Except Nfsstat3 Nfspath3), s₃) := by
  have hkept : ∀ w' path, trees.tree w' = trees.tree w →
      trees.tree (host.answer w' (.pathExists path)).2 = trees.tree w := by
    intro w' path hw'
    exact (trees.tree_kept w' (.pathExists path) trivial).trans hw'
  have htree : trees.tree s₁.host = trees.tree w :=
    lookup_kept (s := ⟨s.fs, w⟩) hkept hpath hfound rfl
  obtain ⟨hroot, hlink⟩ := hostPath_of_lookup (s := ⟨s.fs, w⟩) hs hpath hfound
  have hiff := finishLink_iff trees now target attr hlink
  rw [hroot, htree] at hiff
  rw [answer_symlink_made hpath hhost, hfound]
  exact hiff

/-- In every state that the mirror can be in, for a handle of a directory that exists: making a
symbolic link and reading it are inverse to each other if and only if, where the host accepts
the link, the cache holds its name already or has room for it and the target leads somewhere,
and the mode that is set for it leaves the link readable. -/
theorem symlink_readlink_iff [LawfulSymbolTable T S] (trees : host.Trees V) {root : PathBuf}
    {retentionPeriod : ℕ} {maxCachedPerDir : UInt16}
    (hreach : Relation.ReflTransGen Fs.ExecStep (.new root retentionPeriod maxCachedPerDir) s.fs)
    (hpath : s.fs.hostPath dirid = some dir)
    (hdir : trees.pathExists (trees.tree s.host) dir = true) :
    s.SymlinkInverse host now dirid linkname target attr ↔
      (host.AcceptsLink s.host target.val.data (dir.join (Filename3.asOsStr linkname)) →
        ((s.fs.cached dirid (Filename3.asOsStr linkname)).isSome ∨
          s.fs.HasRoom (Filename3.asOsStr linkname) ∧
            trees.pathExists (trees.addLink (trees.tree s.host) target.val.data
                (dir.join (Filename3.asOsStr linkname)))
              (dir.join (Filename3.asOsStr linkname)) = true) ∧
        trees.readLink (trees.withMode (trees.addLink (trees.tree s.host) target.val.data
              (dir.join (Filename3.asOsStr linkname)))
            (dir.join (Filename3.asOsStr linkname)) attr.mode)
          (dir.join (Filename3.asOsStr linkname)) = some target.val.data) := by
  have hs := (Fs.later_of_run (Fs.sound_new root retentionPeriod maxCachedPerDir) hreach).sound
  obtain ⟨hrooted, -⟩ := rooted_of_reached hreach
  by_cases haccepts : host.AcceptsLink s.host target.val.data
      (dir.join (Filename3.asOsStr linkname))
  · obtain ⟨w, hhost⟩ : ∃ w, host.answer s.host (.symlink target.val.data
        (dir.join (Filename3.asOsStr linkname))) = ((.ok () : IoResult Unit), w) :=
      ⟨_, Prod.ext haccepts rfl⟩
    have hw := trees.tree_symlink s.host _ _ haccepts
    rw [hhost] at hw
    have hdir' := trees.pathExists_addLink s.host _ _ dir haccepts hdir
    rw [← hw] at hdir' ⊢
    have hlookup := answer_lookup_ok (s := ⟨s.fs, w⟩) trees now linkname hrooted hpath hdir'
    constructor
    · intro hinverse _
      obtain ⟨id, fattr, s₁, s₂, hrun, hread⟩ := hinverse.readlink_symlink dir hpath haccepts
      have hmade := hrun
      rw [answer_symlink_made hpath hhost] at hmade
      obtain ⟨⟨found, s₃⟩, hfound, hmade⟩ := Option.bind_eq_some_iff.mp hmade
      cases found with
      | error stat => cases hmade
      | ok linkId =>
        exact ⟨hlookup.mpr ⟨linkId, s₃, hfound⟩,
          (readlink_of_made_iff trees hs hpath hhost hfound).mpr ⟨id, fattr, s₁, s₂, hrun, hread⟩⟩
    · intro hcondition
      obtain ⟨hfindable, hreadable⟩ := hcondition haccepts
      obtain ⟨linkId, s₁, hfound⟩ := hlookup.mp hfindable
      obtain ⟨id, fattr, s₂, s₃, hrun, hread⟩ :=
        (readlink_of_made_iff trees hs hpath hhost hfound).mp hreadable
      constructor
      · intro _ _ _
        exact ⟨id, fattr, s₂, s₃, hrun, hread⟩
      · intro stat s' herror
        cases hrun.symm.trans herror
  · constructor
    · intro _ h
      exact absurd h haccepts
    · intro _
      exact symlinkInverse_of_refused trees hpath haccepts

/-- The links that a host with nothing else in its root has, and their targets. -/
abbrev RootLinks := List (PathBuf × Bytes)

/-- Whether the path leads to the root when so many links are followed. -/
def RootLinks.leads (links : RootLinks) : ℕ → PathBuf → Bool
  | 0, _ => false
  | depth + 1, path =>
    path = [sep] || match links.lookup path with
      | some target => links.leads depth (PathBuf.join [sep] target)
      | none => false

/-- A link goes under a name in the root where none is yet. -/
def RootLinks.accepts (links : RootLinks) (target : Bytes) (link : PathBuf) : Bool :=
  target ≠ [] ∧ 0 ∉ target ∧ link.head? = some sep ∧ link ≠ [sep] ∧ sep ∉ link.tail ∧
    links.lookup link = none

/-- A host whose root has symbolic links and nothing else. -/
def linkHost : HostFs RootLinks where
  answer links
    | .pathExists path => (links.leads 40 path, links)
    | .symlinkMetadata path =>
      let metadata : Metadata := ⟨.nf3lnk, 0o777, 1, 0, 0, 0, none, none, none⟩
      (if path = [sep] then .ok { metadata with fileType := .nf3dir }
        else if (links.lookup path).isSome then .ok metadata else .error .notFound, links)
    | .readLink path =>
      (match links.lookup path with
        | some target => .ok target
        | none => .error .notFound, links)
    | .symlink target link =>
      if links.accepts target link then (.ok (), (link, target) :: links)
      else (.error .alreadyExists, links)
    | c => (c.unanswered, links)
  hasEntry links path := path = [sep] ∨ (links.lookup path).isSome

theorem RootLinks.leads_cons {links : RootLinks} {target : Bytes} {link : PathBuf}
    (hnone : links.lookup link = none) (depth : ℕ) (path : PathBuf)
    (h : links.leads depth path = true) :
    RootLinks.leads ((link, target) :: links) depth path = true := by
  induction depth generalizing path with
  | zero => cases h
  | succ depth ih =>
    by_cases hroot : path = [sep]
    · simp [leads, hroot]
    · cases hlookup : links.lookup path with
      | none => simp [leads, hroot, hlookup] at h
      | some target' =>
        have hne : path ≠ link := by
          rintro rfl
          cases hnone.symm.trans hlookup
        have hbeq : (path == link) = false := by simpa using hne
        have hlead : links.leads depth (PathBuf.join [sep] target') = true := by
          simpa [leads, hroot, hlookup] using h
        simp [leads, List.lookup_cons, hbeq, hlookup, ih _ hlead]

theorem linkHost_symlink {links : RootLinks} {target : Bytes} {link : PathBuf}
    (h : links.accepts target link = true) :
    linkHost.answer links (.symlink target link) =
      ((.ok () : IoResult Unit), (link, target) :: links) := if_pos h

theorem linkHost_symlink_refused {links : RootLinks} {target : Bytes} {link : PathBuf}
    (h : ¬links.accepts target link = true) :
    linkHost.answer links (.symlink target link) =
      ((.error .alreadyExists : IoResult Unit), links) := if_neg h

theorem acceptsLink_iff {links : RootLinks} {target : Bytes} {link : PathBuf} :
    linkHost.AcceptsLink links target link ↔ links.accepts target link = true := by
  unfold HostFs.AcceptsLink
  constructor
  · intro hok
    by_contra h
    rw [linkHost_symlink_refused h] at hok
    cases hok
  · intro h
    rw [linkHost_symlink h]

def linkTrees : linkHost.Trees RootLinks where
  tree links := links
  pathExists links path := links.leads 40 path
  readLink links path := links.lookup path
  addLink links target link := (link, target) :: links
  setMode links _ _ := links
  answer_pathExists _ _ := rfl
  answer_readLink links path target := by
    change (match links.lookup path with
      | some target => .ok target
      | none => .error .notFound : IoResult Bytes) = .ok target ↔ links.lookup path = some target
    cases links.lookup path with
    | none => simp
    | some found => simp
  answer_symlinkMetadata links path h := by
    change ∃ metadata, (ite _ _ (ite _ _ _) : IoResult Metadata) = .ok metadata
    by_cases hroot : path = [sep]
    · exact ⟨_, if_pos hroot⟩
    · exact ⟨_, (if_neg hroot).trans (if_pos h)⟩
  tree_kept links c hc := by
    cases c with
    | pathExists | symlinkMetadata | readLink | setFileAtime | setFileMtime | openReadWrite
      | setLen => rfl
    | _ => cases hc
  tree_symlink links target link h := by rw [linkHost_symlink (acceptsLink_iff.mp h)]
  tree_refused links target link h := by
    rw [linkHost_symlink_refused fun haccepts => h (acceptsLink_iff.mpr haccepts)]
  tree_setPermissions _ _ _ := rfl
  readLink_addLink links target link _ := by simp
  pathExists_addLink links target link path h hpath := by
    have haccepts := acceptsLink_iff.mp h
    simp only [RootLinks.accepts, decide_eq_true_eq] at haccepts
    exact RootLinks.leads_cons haccepts.2.2.2.2.2 40 path hpath
  hasEntry_tree path h := by rw [show _ = _ from h]

/-- A mirror of an empty root. -/
def emptyRoot : Machine ListTable ℕ RootLinks := ⟨.new [sep] 60 20, []⟩

def noAttr : Sattr3 := ⟨.none, .none, .none, .none, .dontChange, .dontChange⟩

theorem symlink_readlink_root :
    emptyRoot.SymlinkInverse linkHost 0 SymbolsCache.rootId ⟨⟨[0x6c]⟩⟩ ⟨⟨[sep]⟩⟩ noAttr := by
  have hpath : emptyRoot.fs.hostPath SymbolsCache.rootId = some [sep] := rfl
  refine (symlink_readlink_iff linkTrees .refl hpath (by decide)).mpr ?_
  intro _
  refine ⟨.inr ⟨⟨rfl, ?_⟩, ?_⟩, ?_⟩
  · change 1 < maxEntries
    decide
  · decide
  · decide

/-- The status of a request that failed. -/
def statusOf {α : Type} : Except Nfsstat3 α → Option Nfsstat3
  | .ok _ => none
  | .error stat => some stat

theorem dangling_link_left_behind :
    linkHost.AcceptsLink emptyRoot.host [0x78] [sep, 0x6c] ∧
      (∃ s₁, emptyRoot.answer linkHost 0
          (.symlink SymbolsCache.rootId ⟨⟨[0x6c]⟩⟩ ⟨⟨[0x78]⟩⟩ noAttr) =
            some ((.error .nfs3errNoent : Except Nfsstat3 (FileHandleU64 × Fattr3)), s₁) ∧
        linkHost.hasEntry s₁.host [sep, 0x6c] ∧ ¬linkHost.hasEntry emptyRoot.host [sep, 0x6c]) ∧
      ¬emptyRoot.SymlinkInverse linkHost 0 SymbolsCache.rootId ⟨⟨[0x6c]⟩⟩ ⟨⟨[0x78]⟩⟩ noAttr := by
  have houtcome : (emptyRoot.answer linkHost 0
      (.symlink SymbolsCache.rootId ⟨⟨[0x6c]⟩⟩ ⟨⟨[0x78]⟩⟩ noAttr)).map
        (fun (r, s) => (statusOf r, s.host)) =
      some (some .nfs3errNoent, [([sep, 0x6c], [0x78])]) := by decide +kernel
  obtain ⟨⟨r, s₁⟩, hrun, heq⟩ := Option.map_eq_some_iff.mp houtcome
  simp only [Prod.mk.injEq] at heq
  obtain ⟨hstatus, hhost⟩ := heq
  cases r with
  | ok made => cases hstatus
  | error stat =>
    cases hstatus
    have hentry : linkHost.hasEntry s₁.host [sep, 0x6c] := by
      rw [hhost]
      exact .inr rfl
    have habsent : ¬linkHost.hasEntry emptyRoot.host [sep, 0x6c] := by
      rintro (heq | hsome)
      · cases heq
      · cases hsome
    refine ⟨acceptsLink_iff.mpr (by decide), ⟨s₁, hrun, hentry, habsent⟩, ?_⟩
    intro hinverse
    exact habsent ((hinverse.symlink_error _ _ hrun _).mp hentry)

end Machine

end Nfs3.Mirror
