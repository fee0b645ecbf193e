import Nfs3.Mirror.Growth

/-!
# What lookups answer

The answers of the mirror to `lookup` and `getattr`, in the terms of the host: under which path
it has what a handle stands for, and when a lookup asks it.
-/
namespace Nfs3.Mirror

open Interaction (Prog)

namespace PathBuf

theorem isAbsolute_append {p : PathBuf} (q : PathBuf) (hp : p ≠ []) :
    isAbsolute (p ++ q) = isAbsolute p := by
  cases p with
  | nil => exact absurd rfl hp
  | cons b p => rfl

theorem join_push (buf p q : PathBuf) : join buf (push p q) = push (join buf p) q := by
  unfold join push
  by_cases hq : isAbsolute q = true
  · simp [hq]
  by_cases hnil : p = []
  · subst hnil
    by_cases hbuf : buf = [] ∨ buf.getLast? = some sep
    · simp [hbuf, isAbsolute]
    · simp [hbuf, isAbsolute]
  · have habs := isAbsolute_append q hnil
    have habs' := isAbsolute_append (sep :: q) hnil
    have hcons : (sep :: p).getLast? = p.getLast? := List.getLast?_cons_of_ne_nil hnil
    by_cases hp : isAbsolute p = true
    · by_cases hlast : p.getLast? = some sep
      · simp [hq, hp, hnil, hlast, habs]
      · simp [hq, hp, hnil, hlast, habs']
    · by_cases hlast : p.getLast? = some sep
      · by_cases hbuf : buf = [] ∨ buf.getLast? = some sep
        · simp [hq, hp, hnil, hlast, habs, hbuf]
        · simp [hq, hp, hnil, hlast, habs, hbuf, hcons]
      · by_cases hbuf : buf = [] ∨ buf.getLast? = some sep
        · simp [hq, hp, hnil, hlast, habs', hbuf]
        · simp [hq, hp, hnil, hlast, habs', hbuf, hcons]

end PathBuf

variable {T S W : Type} [SymbolTable T S] [DecidableEq S] {host : HostFs W}

namespace Fs

/-- The path under which the host has what the handle stands for. -/
def hostPath (fs : Fs T S) (id : FileHandleU64) : Option PathBuf :=
  (fs.cache.inner.idToPath.lookup id).bind fun path =>
    (resolvePath fs.cache.inner.symbols path).map fs.root.join

/-- The handle that the cache holds for a name in a directory. -/
def cached (fs : Fs T S) (dirid : FileHandleU64) (name : OsString) : Option FileHandleU64 :=
  (fs.cache.inner.idToPath.lookup dirid).bind fun parent =>
    (SymbolTable.intern fs.cache.inner.symbols name).bind fun (symbol, _) =>
      fs.cache.inner.pathToId.lookup (parent.join symbol)

theorem hostPath_eq (fs : Fs T S) (id : FileHandleU64) :
    fs.hostPath id = (fs.relativePath id).map fs.root.join := by
  unfold hostPath relativePath
  cases fs.cache.inner.idToPath.lookup id with
  | none => rfl
  | some path => rfl

theorem sameRoots_of_run {fs fs' : Fs T S} (h : Relation.ReflTransGen ExecStep fs fs') :
    SameRoots fs fs' := by
  induction h with
  | refl => exact .refl fs
  | tail _ hstep ih =>
    obtain ⟨c, r, hends⟩ := hstep
    exact ih.trans ((sameRoots_exec c).ends hends)

end Fs

namespace Machine

variable {s s' : Machine T S W} {now : Instant} {id dirid : FileHandleU64} {path : PathBuf}
  {filename : Filename3}

theorem rooted_of_reached {root : PathBuf} {retentionPeriod : ℕ} {maxCachedPerDir : UInt16}
    (h : Relation.ReflTransGen Fs.ExecStep (.new root retentionPeriod maxCachedPerDir) s.fs) :
    s.Rooted ∧ s.fs.root = root := by
  have hroots := Fs.sameRoots_of_run h
  exact ⟨hroots.cacheRoot.trans hroots.root.symm, hroots.root⟩

theorem exec_handleToPath_of_some {p : SymbolsPath S} {relativePath : PathBuf}
    (hid : s.fs.cache.inner.idToPath.lookup id = some p)
    (hresolve : resolvePath s.fs.cache.inner.symbols p = some relativePath) :
    s.exec host (.handleToPath id) = some ((.ok relativePath : Except Nfsstat3 PathBuf), s) := by
  have hret : s.fs.cache.handleToPath id = .ret (.ok relativePath) := by
    unfold SymbolsCache.handleToPath
    rw [hid]
    dsimp only
    rw [hresolve]
  change ((Prog.bind (s.fs.cache.handleToPath id) _).runIn _ _).map _ = _
  rw [hret]
  rfl

theorem runIn_path (h : s.fs.hostPath id = some path) :
    (Fs.path s.fs.root id).run.runIn (exec host) s = some (.ok path, s) := by
  obtain ⟨p, hid, hmap⟩ := Option.bind_eq_some_iff.mp h
  obtain ⟨relativePath, hresolve, rfl⟩ := Option.map_eq_some_iff.mp hmap
  exact Option.bind_eq_some_iff.mpr ⟨_, exec_handleToPath_of_some hid hresolve, rfl⟩

theorem answer_getattr (h : s.fs.hostPath id = some path) :
    s.answer host now (.getattr id) =
      some ((match ((host.answer s.host (.symlinkMetadata path)).1 : IoResult Metadata) with
        | .ok metadata => .ok (metadataToFattr3 id metadata)
        | .error kind => .error (mapIoError kind) : Except Nfsstat3 Fattr3),
        ⟨s.fs, (host.answer s.host (.symlinkMetadata path)).2⟩) := by
  obtain ⟨p, hid, hmap⟩ := Option.bind_eq_some_iff.mp h
  obtain ⟨relativePath, hresolve, rfl⟩ := Option.map_eq_some_iff.mp hmap
  refine Option.bind_eq_some_iff.mpr ⟨_, exec_handleToPath_of_some hid hresolve, ?_⟩
  refine Option.bind_eq_some_iff.mpr ⟨_, exec_host _, ?_⟩
  generalize host.answer s.host (.symlinkMetadata (s.fs.root.join relativePath)) = metadata
  obtain ⟨metadata, w⟩ := metadata
  cases metadata with
  | ok metadata => rfl
  | error kind => rfl

theorem answer_getattr_ok {attr : Fattr3} (h : s.fs.hostPath id = some path)
    (hrun : s.answer host now (.getattr id) = some ((.ok attr : Except Nfsstat3 Fattr3), s')) :
    ∃ metadata, ((host.answer s.host (.symlinkMetadata path)).1 : IoResult Metadata) =
        .ok metadata ∧ s' = ⟨s.fs, (host.answer s.host (.symlinkMetadata path)).2⟩ := by
  rw [answer_getattr h] at hrun
  obtain ⟨hr, rfl⟩ := Prod.mk.inj (Option.some.inj hrun)
  split at hr
  · rename_i metadata hmetadata
    exact ⟨metadata, hmetadata, rfl⟩
  · cases hr

theorem answer_getattr_of_none {r : Except Nfsstat3 Fattr3} (h : s.fs.hostPath id = none)
    (hrun : s.answer host now (.getattr id) = some (r, s')) : r = .error .nfs3errBadhandle := by
  obtain ⟨⟨found, s₁⟩, hexec, hrest⟩ := Option.bind_eq_some_iff.mp hrun
  obtain ⟨found', hends, heq⟩ := Prog.ends_bind.mp (ends_of_exec hexec)
  obtain ⟨rfl, -⟩ := Prod.mk.inj heq
  unfold SymbolsCache.handleToPath at hends
  cases hid : s.fs.cache.inner.idToPath.lookup id with
  | none =>
    rw [hid] at hends
    cases hends
    cases hrest
    rfl
  | some p =>
    have hresolve : resolvePath s.fs.cache.inner.symbols p = none := by
      simpa [Fs.hostPath, hid] using h
    rw [hid] at hends
    dsimp only at hends
    rw [hresolve] at hends
    cases hends

/-! ## Lookups -/

theorem exec_lookupById : s.exec host (.lookupById dirid (Filename3.asOsStr filename) true) =
    s.answer host now (.lookup dirid filename) := by
  change _ = Option.bind (s.exec host (.lookupById dirid (Filename3.asOsStr filename) true)) _
  cases s.exec host (.lookupById dirid (Filename3.asOsStr filename) true) with
  | none => rfl
  | some found => rfl

theorem answer_lookup_eq {parent : SymbolsPath S}
    (hid : s.fs.cache.inner.idToPath.lookup dirid = some parent) :
    s.answer host now (.lookup dirid filename) =
      ((s.fs.cache.inner.lookup s.fs.cache.root parent (Filename3.asOsStr filename) true).runIn
        (fun w c => some (host.answer w c)) s.host).map fun ((r, inner), w) =>
          (r, ⟨{ s.fs with cache.inner := inner }, w⟩) := by
  have hlookup : s.fs.cache.lookupById dirid (Filename3.asOsStr filename) true =
      s.fs.cache.lookup parent (Filename3.asOsStr filename) true := by
    unfold SymbolsCache.lookupById SymbolsCache.symbolsPath
    rw [hid]
  change (((Prog.bind (s.fs.cache.lookupById dirid _ true) _).runIn _ _).map _).bind _ = _
  rw [hlookup, SymbolsCache.lookup, Prog.runIn_bind, Prog.runIn_bind]
  generalize (s.fs.cache.inner.lookup _ parent _ true).runIn _ s.host = looked
  cases looked with
  | none => rfl
  | some looked => rfl

theorem answer_lookup_of_cached [LawfulSymbolTable T S]
    (hcached : s.fs.cached dirid (Filename3.asOsStr filename) = some id)
    (hpath : s.fs.hostPath dirid = some path) :
    ∃ fs', s.answer host now (.lookup dirid filename) =
        some ((.ok id : Except Nfsstat3 FileHandleU64), ⟨fs', s.host⟩) ∧
      fs'.hostPath dirid = some path := by
  obtain ⟨parent, hid, hcached⟩ := Option.bind_eq_some_iff.mp hcached
  obtain ⟨⟨symbol, symbols⟩, hintern, hcached⟩ := Option.bind_eq_some_iff.mp hcached
  refine ⟨{ s.fs with cache.inner.symbols := symbols }, ?_, ?_⟩
  · rw [answer_lookup_eq hid, SymbolsCacheInner.lookup, hintern]
    dsimp only at hcached ⊢
    rw [hcached]
    rfl
  · obtain ⟨p, hp, hmap⟩ := Option.bind_eq_some_iff.mp hpath
    obtain ⟨relativePath, hresolve, rfl⟩ := Option.map_eq_some_iff.mp hmap
    obtain ⟨ns, hns, rfl⟩ := Option.map_eq_some_iff.mp hresolve
    have hresolve' : resolvePath symbols p = some (ns.foldl PathBuf.push []) := by
      rw [resolvePath, names_intern hintern hns]
      rfl
    simp [Fs.hostPath, hp, hresolve']

theorem answer_lookup_of_uncached {parent : SymbolsPath S} {symbol : S} {symbols : T}
    (hid : s.fs.cache.inner.idToPath.lookup dirid = some parent)
    (hintern : SymbolTable.intern s.fs.cache.inner.symbols (Filename3.asOsStr filename) =
      some (symbol, symbols))
    (hnone : s.fs.cache.inner.pathToId.lookup (parent.join symbol) = none) :
    s.answer host now (.lookup dirid filename) =
      (({ s.fs.cache.inner with symbols }.testPath s.fs.cache.root parent
          (Filename3.asOsStr filename)).runIn (fun w c => some (host.answer w c)) s.host).bind fun
        | (.error stat, w) => some ((.error stat : Except Nfsstat3 FileHandleU64),
            ⟨{ s.fs with cache.inner.symbols := symbols }, w⟩)
        | (.ok (), w) =>
          if s.fs.cache.inner.pathToId.entries.length < maxEntries then
            some ((.ok s.fs.cache.inner.nextId : Except Nfsstat3 FileHandleU64),
              ⟨{ s.fs with cache.inner :=
                { s.fs.cache.inner with symbols }.insertItem (parent.join symbol) }, w⟩)
          else none := by
  rw [answer_lookup_eq hid, SymbolsCacheInner.lookup, hintern]
  dsimp only
  rw [hnone]
  dsimp only
  rw [if_pos rfl, Prog.runIn_bind]
  generalize (SymbolsCacheInner.testPath (T := T) (S := S) _ _ _ _).runIn _ s.host = tested
  cases tested with
  | none => rfl
  | some tested =>
    obtain ⟨tested, w⟩ := tested
    cases tested with
    | error stat => rfl
    | ok _ =>
      dsimp only [Option.bind_some]
      split_ifs
      · rfl
      · rfl

/-- The existence tests where the parent is found. -/
theorem runIn_testPath {root relativePath : PathBuf} {inner : SymbolsCacheInner T S}
    {parent : SymbolsPath S} {name : OsString} {w w₁ w₂ : W} {found : Bool}
    (hresolve : resolvePath inner.symbols parent = some relativePath)
    (hparent : host.answer w (.pathExists (root.join relativePath)) = ((true : Bool), w₁))
    (hfound : host.answer w₁ (.pathExists ((root.join relativePath).join name)) = (found, w₂)) :
    (inner.testPath root parent name).runIn (fun w c => some (host.answer w c)) w =
      some (if found then .ok () else .error .nfs3errNoent, w₂) := by
  unfold SymbolsCacheInner.testPath
  rw [hresolve]
  refine Option.bind_eq_some_iff.mpr ⟨_, congrArg some hparent, ?_⟩
  refine Option.bind_eq_some_iff.mpr ⟨_, congrArg some hfound, ?_⟩
  cases found with
  | true => rfl
  | false => rfl

/-- A lookup asks the host for nothing but whether paths exist. -/
theorem lookup_asks (root : PathBuf) (inner : SymbolsCacheInner T S) (parent : SymbolsPath S)
    (name : OsString) (checkPath : Bool) :
    (inner.lookup root parent name checkPath).Meets (fun c => ∃ path, c = .pathExists path)
      fun _ => True := by
  have htest : ∀ inner : SymbolsCacheInner T S, (inner.testPath root parent name).Meets
      (fun c => ∃ path, c = .pathExists path) fun _ => True := by
    intro inner
    unfold SymbolsCacheInner.testPath
    split
    · trivial
    · refine ⟨⟨_, rfl⟩, fun parentFound => ?_⟩
      dsimp only
      split_ifs
      · refine ⟨⟨_, rfl⟩, fun found => ?_⟩
        dsimp only
        split_ifs
        · trivial
        · trivial
      · trivial
  unfold SymbolsCacheInner.lookup
  split
  · trivial
  dsimp only
  split
  · trivial
  apply Prog.meets_bind.mpr
  have hasks : ∀ inner : SymbolsCacheInner T S,
      (if checkPath then inner.testPath root parent name else .ret (.ok ())).Meets
        (fun c => ∃ path, c = .pathExists path) fun _ => True := by
    intro inner
    split_ifs
    · exact htest inner
    · trivial
  refine (hasks _).mono fun tested _ => ?_
  cases tested with
  | error stat => trivial
  | ok _ =>
    dsimp only
    split_ifs
    · trivial
    · trivial

theorem lookup_kept {Kept : W → Prop} {r : Except Nfsstat3 FileHandleU64}
    (hkept : ∀ w path, Kept w → Kept (host.answer w (.pathExists path)).2)
    (hpath : s.fs.hostPath dirid = some path)
    (hrun : s.answer host now (.lookup dirid filename) = some (r, s')) (hs : Kept s.host) :
    Kept s'.host := by
  obtain ⟨parent, hid, -⟩ := Option.bind_eq_some_iff.mp hpath
  rw [answer_lookup_eq hid] at hrun
  obtain ⟨⟨⟨r, inner⟩, w⟩, hinner, heq⟩ := Option.map_eq_some_iff.mp hrun
  obtain ⟨-, rfl⟩ := Prod.mk.inj heq
  have hanswer : ∀ w (c : HostCall) r w', (∃ path, c = .pathExists path) → Kept w →
      some (host.answer w c) = some (r, w') → Kept w' := by
    rintro w c r w' ⟨path, rfl⟩ hw heq
    have hafter := hkept w path hw
    rw [Option.some.inj heq] at hafter
    exact hafter
  exact (lookup_asks _ _ _ _ _).runIn_invariant hanswer hs hinner

/-- The handle that a lookup gives leads to the path that was looked up. -/
theorem relativePath_of_lookup [LawfulSymbolTable T S] {relativePath : PathBuf}
    (hs : s.fs.cache.inner.Sound) (hpath : s.fs.relativePath dirid = some relativePath)
    (hrun : s.answer host now (.lookup dirid filename) =
      some ((.ok id : Except Nfsstat3 FileHandleU64), s')) :
    s'.fs.root = s.fs.root ∧
      s'.fs.relativePath id = some (relativePath.push (Filename3.asOsStr filename)) := by
  obtain ⟨parent, hid, hresolve⟩ := Option.bind_eq_some_iff.mp hpath
  obtain ⟨ns, hns, rfl⟩ := Option.map_eq_some_iff.mp hresolve
  rw [answer_lookup_eq hid] at hrun
  obtain ⟨⟨⟨r, inner⟩, w⟩, hinner, heq⟩ := Option.map_eq_some_iff.mp hrun
  obtain ⟨rfl, rfl⟩ := Prod.mk.inj heq
  have hlooked := SymbolsCacheInner.looked_of_ends (Prog.ends_of_runIn hinner)
  obtain ⟨symbol, hsymbol, hstored⟩ := hlooked.stored
  have hsound := hlooked.sound hs ((hs.inverse _ _).mpr hid)
  have hnames := names_join (names_of_kept hlooked.extends.symbols hns) hsymbol
  refine ⟨rfl, ?_⟩
  simp [Fs.relativePath, (hsound.inverse _ _).mp hstored, resolvePath, hnames]

theorem hostPath_of_lookup [LawfulSymbolTable T S] (hs : s.fs.cache.inner.Sound)
    (hpath : s.fs.hostPath dirid = some path)
    (hrun : s.answer host now (.lookup dirid filename) =
      some ((.ok id : Except Nfsstat3 FileHandleU64), s')) :
    s'.fs.root = s.fs.root ∧ s'.fs.hostPath id = some (path.join (Filename3.asOsStr filename)) := by
  rw [Fs.hostPath_eq] at hpath
  obtain ⟨relativePath, hrelative, rfl⟩ := Option.map_eq_some_iff.mp hpath
  obtain ⟨hroot, hid⟩ := relativePath_of_lookup hs hrelative hrun
  rw [Fs.hostPath_eq, hid, hroot, Option.map_some, PathBuf.join_push]
  exact ⟨rfl, rfl⟩

end Machine

end Nfs3.Mirror
