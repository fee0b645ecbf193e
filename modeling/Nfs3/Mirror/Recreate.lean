import Nfs3.Mirror.Lookups
import Nfs3.Server.Verifier

/-!
# Creating a name again

A GUARDED create asks the file system for the name first. The mirror answers from its symbols
cache, and the cache keeps the handle of an entry that was removed or renamed: the host is not
asked any more, and the name is found where it no longer is.
-/
namespace Nfs3

open Interaction (Prog)

namespace NfsHandlers

variable {H I J σ : Type} [FileHandle H] {answer : σ → (c : VfsCall H I J) → Option (c.Reply × σ)}
  {context : RPCContext} {xid : UInt32} {args : Create3Args} {attr : Sattr3} {dirid : H}

/-- The calls of a GUARDED create and what it replies. -/
theorem nfsproc3Create_guarded_runIn (s : σ)
    (hcap : answer s .capabilities = some (VFSCapabilities.readWrite, s))
    (hid : context.fileHandleConverter.fhFromNfs args.where_.dir = .ok dirid)
    (hhow : args.how = .guarded attr) :
    (nfsproc3Create context xid args).runIn answer s =
      (answer s (.getattr dirid)).bind fun (before, s) =>
        match (before : Except Nfsstat3 Fattr3) with
        | .error stat => some (.err stat ⟨emptyWcc⟩, s)
        | .ok v =>
          (answer s (.lookup dirid args.where_.name)).bind fun (found, s) =>
            match (found : Except Nfsstat3 H) with
            | .ok _ =>
              (answer s (.getattr dirid)).bind fun (after, s) =>
                some (.err .nfs3errExist
                  ⟨⟨.some ⟨v.size, v.mtime, v.ctime⟩, nfsOptionFromResult after⟩⟩, s)
            | .error _ =>
              (answer s (.create dirid args.where_.name attr)).bind fun (created, s) =>
                (answer s (.getattr dirid)).bind fun (after, s) =>
                  match (created : Except Nfsstat3 (H × Fattr3)) with
                  | .ok (fid, fattr) =>
                    some (.ok ⟨.some (context.fileHandleConverter.fhToNfs fid), .some fattr,
                      ⟨.some ⟨v.size, v.mtime, v.ctime⟩, nfsOptionFromResult after⟩⟩, s)
                  | .error stat =>
                    some (.err stat
                      ⟨⟨.some ⟨v.size, v.mtime, v.ctime⟩, nfsOptionFromResult after⟩⟩, s) := by
  unfold nfsproc3Create readWrite fhToId getWccAttr alreadyExists createObject getPostOpAttr
  rw [hid, hhow]
  refine (Prog.runIn_ask_bind hcap _).trans ?_
  refine congrArg (Option.bind (answer s (.getattr dirid))) (funext ?_)
  rintro ⟨before, s₁⟩
  cases before with
  | error stat => rfl
  | ok v =>
    refine congrArg (Option.bind (answer s₁ (.lookup dirid args.where_.name))) (funext ?_)
    rintro ⟨found, s₂⟩
    cases found with
    | ok id => rfl
    | error stat =>
      refine congrArg (Option.bind (answer s₂ (.create dirid args.where_.name attr))) (funext ?_)
      rintro ⟨created, s₃⟩
      cases created with
      | ok made => rfl
      | error stat => rfl

end NfsHandlers

namespace Mirror

/-! ## Errors that do not occur -/

section Never

variable {σ : Type} {answer : σ → (c : FsCall) → Option (c.Reply × σ)} {ε ε' α β : Type}

/-- The operation does not fail with the error. -/
def Never (answer : σ → (c : FsCall) → Option (c.Reply × σ)) (e : ε) (m : ExceptT ε FsProg α) :
    Prop :=
  ∀ s r s', m.run.runIn answer s = some (r, s') → r ≠ .error e

theorem never_pure (e : ε) (a : α) : Never answer e (pure a) := by
  intro s r s' h
  cases h
  intro heq
  cases heq

theorem Never.bind {e : ε} {m : ExceptT ε FsProg α} {f : α → ExceptT ε FsProg β}
    (hm : Never answer e m) (hf : ∀ a, Never answer e (f a)) : Never answer e (m >>= f) := by
  intro s r s' h
  change (Prog.bind m.run (ExceptT.bindCont f)).runIn answer s = _ at h
  rw [Prog.runIn_bind] at h
  obtain ⟨⟨r₁, s₁⟩, hfirst, hrest⟩ := Option.bind_eq_some_iff.mp h
  cases r₁ with
  | ok a => exact hf a s₁ r s' hrest
  | error e₁ =>
    cases hrest
    intro heq
    cases heq
    exact hm s _ _ hfirst rfl

/-- The error comes from one only, and that does not occur. -/
theorem Never.mapErr {e : ε} {e' : ε'} {f : ε → ε'} {m : ExceptT ε FsProg α}
    (hm : Never answer e m) (hf : ∀ e₁, f e₁ = e' → e₁ = e) : Never answer e' (mapErr f m) := by
  intro s r s' h
  change (Prog.bind m.run _).runIn answer s = _ at h
  rw [Prog.runIn_bind] at h
  obtain ⟨⟨r₁, s₁⟩, hfirst, hrest⟩ := Option.bind_eq_some_iff.mp h
  cases r₁ with
  | ok a =>
    cases hrest
    exact fun heq => nomatch heq
  | error e₁ =>
    cases hrest
    intro heq
    cases hf e₁ (Except.error.inj heq)
    exact hm s _ _ hfirst rfl

theorem never_mapErr {e' : ε'} {f : ε → ε'} {m : ExceptT ε FsProg α} (hf : ∀ e, f e ≠ e') :
    Never answer e' (mapErr f m) := by
  intro s r s' h
  change (Prog.bind m.run _).runIn answer s = _ at h
  rw [Prog.runIn_bind] at h
  obtain ⟨⟨r₁, s₁⟩, -, hrest⟩ := Option.bind_eq_some_iff.mp h
  cases r₁ with
  | ok a =>
    cases hrest
    exact fun heq => nomatch heq
  | error e₁ =>
    cases hrest
    exact fun heq => hf e₁ (Except.error.inj heq)

theorem never_ignore (e : ε') (m : ExceptT ε FsProg α) : Never answer e (ignore m) := by
  have hattempt : Never answer e (attempt m : ExceptT ε' FsProg (Except ε α)) := by
    intro s r s' h
    change (Prog.bind m.run _).runIn answer s = _ at h
    rw [Prog.runIn_bind] at h
    obtain ⟨⟨r₁, s₁⟩, -, hrest⟩ := Option.bind_eq_some_iff.mp h
    cases hrest
    exact fun heq => nomatch heq
  exact hattempt.bind fun _ => never_pure e ()

theorem mapIoError_eq_exist {kind : ErrorKind} (h : mapIoError kind = .nfs3errExist) :
    kind = .alreadyExists := by
  cases kind <;> first | rfl | cases h

/-- The answers do not bring up that a name exists. -/
structure NoExist (root : PathBuf) (answer : σ → (c : FsCall) → Option (c.Reply × σ)) : Prop where
  path : ∀ id, Never answer .nfs3errExist (Fs.path root id)
  lookupById : ∀ parentId name checkPath,
    Never answer .nfs3errExist (Fs.lookupById parentId name checkPath)
  symlinkMetadata : ∀ path, Never answer .alreadyExists (Host.symlinkMetadata path)
  createFile : ∀ path, Never answer .alreadyExists (Host.createFile path)
  setLen : ∀ file size, Never answer .alreadyExists (Host.setLen file size)

variable {root : PathBuf}

theorem never_pathSetattr (path : PathBuf) (setattr : Sattr3) :
    Never answer .nfs3errExist (pathSetattr path setattr) := by
  have hatime : Never answer .nfs3errExist (setAtime path setattr.atime) := by
    cases setattr.atime with
    | dontChange => exact never_pure _ ()
    | setToServerTime => exact never_ignore _ _
    | setToClientTime time => exact never_ignore _ _
  have hmtime : Never answer .nfs3errExist (setMtime path setattr.mtime) := by
    cases setattr.mtime with
    | dontChange => exact never_pure _ ()
    | setToServerTime => exact never_ignore _ _
    | setToClientTime time => exact never_ignore _ _
  have hmode : Never answer .nfs3errExist (setMode path setattr.mode) := by
    cases setattr.mode with
    | none => exact never_pure _ ()
    | some mode => exact never_ignore _ _
  have hio : ∀ kind : ErrorKind, Nfsstat3.nfs3errIo ≠ .nfs3errExist := fun _ h => nomatch h
  have hsize : Never answer .nfs3errExist (setSize path setattr.size) := by
    cases setattr.size with
    | none => exact never_pure _ ()
    | some size => exact (never_mapErr hio).bind fun file => never_mapErr hio
  exact hatime.bind fun _ => hmtime.bind fun _ => hmode.bind fun _ => hsize

theorem NoExist.getattr (h : NoExist root answer) (id : FileHandleU64) :
    Never answer .nfs3errExist (Fs.getattr root id) := by
  refine (h.path id).bind fun path => ?_
  exact ((h.symlinkMetadata path).mapErr fun _ => mapIoError_eq_exist).bind fun _ => never_pure _ _

theorem NoExist.create (h : NoExist root answer) (dirid : FileHandleU64) (filename : Filename3)
    (attr : Sattr3) : Never answer .nfs3errExist (Fs.create root dirid filename attr) := by
  refine (h.path dirid).bind fun dirPath => ?_
  have hsized : Never answer .alreadyExists
      (Fs.createSized (dirPath.join (Filename3.asOsStr filename)) attr.size) := by
    refine (h.createFile _).bind fun file => ?_
    cases attr.size with
    | none => exact never_pure _ ()
    | some size => exact h.setLen file size
  refine (hsized.mapErr fun _ => mapIoError_eq_exist).bind fun _ => ?_
  refine (h.lookupById _ _ _).bind fun fileId => ?_
  have hsetattr : Never answer .nfs3errExist (Fs.setattr root fileId attr) :=
    (h.path fileId).bind fun path =>
      (never_pathSetattr path attr).bind fun _ => h.getattr fileId
  exact hsetattr.bind fun _ => never_pure _ _

end Never

variable {T S W : Type} [SymbolTable T S] [DecidableEq S] {host : HostFs W}

/-- What is documented of the calls that a GUARDED create makes. A path that exists is that of
an entry, looking at paths changes no directory, and a call that may find the file there does
not complain about it. -/
structure HostFs.Lawful (host : HostFs W) : Prop where
  hasEntry_of_exists : ∀ w path,
    (host.answer w (.pathExists path)).1 = true → host.hasEntry w path
  hasEntry_pathExists : ∀ w path p,
    host.hasEntry (host.answer w (.pathExists path)).2 p ↔ host.hasEntry w p
  hasEntry_symlinkMetadata : ∀ w path p,
    host.hasEntry (host.answer w (.symlinkMetadata path)).2 p ↔ host.hasEntry w p
  symlinkMetadata_error : ∀ w path,
    ((host.answer w (.symlinkMetadata path)).1 : IoResult Metadata) ≠ .error .alreadyExists
  createFile_error : ∀ w path,
    ((host.answer w (.createFile path)).1 : IoResult Fd) ≠ .error .alreadyExists
  setLen_error : ∀ w file size,
    ((host.answer w (.setLen file size)).1 : IoResult Unit) ≠ .error .alreadyExists

theorem testPath_error (root : PathBuf) (inner : SymbolsCacheInner T S) (parent : SymbolsPath S)
    (name : OsString) :
    (inner.testPath root parent name).Meets (fun _ => True) fun r => r ≠ .error .nfs3errExist := by
  unfold SymbolsCacheInner.testPath
  split
  · trivial
  · refine ⟨trivial, fun parentFound => ?_⟩
    dsimp only
    split_ifs
    · refine ⟨trivial, fun found => ?_⟩
      dsimp only
      split_ifs
      · exact fun heq => nomatch heq
      · exact fun heq => nomatch heq
    · exact fun heq => nomatch heq

theorem lookupById_error (cache : SymbolsCache T S) (parentId : FileHandleU64) (name : OsString)
    (checkPath : Bool) :
    (cache.lookupById parentId name checkPath).Meets (fun _ => True)
      fun r => r.1 ≠ .error .nfs3errExist := by
  unfold SymbolsCache.lookupById SymbolsCache.symbolsPath
  cases cache.inner.idToPath.lookup parentId with
  | none => exact fun heq => nomatch heq
  | some parent =>
    refine Prog.meets_bind.mpr ?_
    unfold SymbolsCacheInner.lookup
    split
    · trivial
    dsimp only
    split
    · exact fun heq => nomatch heq
    refine Prog.meets_bind.mpr (Prog.Meets.mono (Q := (· ≠ .error .nfs3errExist)) ?_ ?_)
    · split_ifs
      · exact testPath_error _ _ _ _
      · exact fun heq => nomatch heq
    · intro tested htested
      cases tested with
      | error stat => exact fun heq => htested (congrArg Except.error (Except.error.inj heq))
      | ok _ =>
        dsimp only
        split_ifs
        · exact fun heq => nomatch heq
        · trivial

theorem handleToPath_error (cache : SymbolsCache T S) (id : FileHandleU64) :
    (cache.handleToPath id).Meets (fun _ => True) fun r => r ≠ .error .nfs3errExist := by
  unfold SymbolsCache.handleToPath
  split
  · exact fun heq => nomatch heq
  · split
    · trivial
    · exact fun heq => nomatch heq

theorem noExist_exec (hlaw : host.Lawful) (root : PathBuf) :
    NoExist root (Machine.exec host : Machine T S W → _) where
  path id := by
    refine Never.bind ?_ fun _ => never_pure _ _
    intro s r s' h
    obtain ⟨⟨r₁, s₁⟩, hexec, heq⟩ := Option.bind_eq_some_iff.mp h
    cases heq
    obtain ⟨path, hpath, heq⟩ := Prog.ends_bind.mp (Machine.ends_of_exec hexec)
    rw [← (Prod.mk.inj heq).1]
    exact (handleToPath_error s.fs.cache id).ends hpath
  lookupById parentId name checkPath := by
    intro s r s' h
    obtain ⟨⟨r₁, s₁⟩, hexec, heq⟩ := Option.bind_eq_some_iff.mp h
    cases heq
    obtain ⟨looked, hlooked, heq⟩ := Prog.ends_bind.mp (Machine.ends_of_exec hexec)
    rw [← (Prod.mk.inj heq).1]
    exact (lookupById_error s.fs.cache parentId name checkPath).ends hlooked
  symlinkMetadata path := by
    intro s r s' h
    cases h
    exact hlaw.symlinkMetadata_error s.host path
  createFile path := by
    intro s r s' h
    cases h
    exact hlaw.createFile_error s.host path
  setLen file size := by
    intro s r s' h
    cases h
    exact hlaw.setLen_error s.host file size

namespace Machine

variable {s s' : Machine T S W} {now : Instant} {id dirid : FileHandleU64} {path : PathBuf}
  {filename : Filename3}

theorem hasEntry_of_testPath (hlaw : host.Lawful) {root relativePath : PathBuf} {w w' : W}
    {inner : SymbolsCacheInner T S} {parent : SymbolsPath S} {name : OsString}
    (hresolve : resolvePath inner.symbols parent = some relativePath)
    (hrun : (inner.testPath root parent name).runIn (fun w c => some (host.answer w c)) w =
      some (.ok (), w')) : host.hasEntry w ((root.join relativePath).join name) := by
  unfold SymbolsCacheInner.testPath at hrun
  rw [hresolve] at hrun
  obtain ⟨parentFound, hparent, hrun⟩ := Option.bind_eq_some_iff.mp hrun
  cases hparent
  dsimp only at hrun
  split_ifs at hrun
  · obtain ⟨found, hfound, hrun⟩ := Option.bind_eq_some_iff.mp hrun
    cases hfound
    dsimp only at hrun
    split_ifs at hrun with hexists
    · exact (hlaw.hasEntry_pathExists _ _ _).mp (hlaw.hasEntry_of_exists _ _ hexists)
    · cases hrun
  · cases hrun

theorem hasEntry_of_lookup [LawfulSymbolTable T S] (hlaw : host.Lawful) (hs : s.Rooted)
    (hpath : s.fs.hostPath dirid = some path)
    (huncached : s.fs.cached dirid (Filename3.asOsStr filename) = none)
    (hrun : s.answer host now (.lookup dirid filename) =
      some ((.ok id : Except Nfsstat3 FileHandleU64), s')) :
    host.hasEntry s.host (path.join (Filename3.asOsStr filename)) := by
  obtain ⟨p, hid, hmap⟩ := Option.bind_eq_some_iff.mp hpath
  obtain ⟨relativePath, hresolve, rfl⟩ := Option.map_eq_some_iff.mp hmap
  obtain ⟨ns, hns, rfl⟩ := Option.map_eq_some_iff.mp hresolve
  cases hintern : SymbolTable.intern s.fs.cache.inner.symbols (Filename3.asOsStr filename) with
  | none =>
    rw [answer_lookup_eq hid, SymbolsCacheInner.lookup, hintern] at hrun
    cases hrun
  | some interned =>
    obtain ⟨symbol, symbols⟩ := interned
    have hnone : s.fs.cache.inner.pathToId.lookup (p.join symbol) = none := by
      simpa [Fs.cached, hid, hintern] using huncached
    rw [answer_lookup_of_uncached hid hintern hnone] at hrun
    obtain ⟨⟨tested, w⟩, htested, hrest⟩ := Option.bind_eq_some_iff.mp hrun
    cases tested with
    | error stat => cases hrest
    | ok _ =>
      rw [← hs]
      refine hasEntry_of_testPath hlaw ?_ htested
      rw [resolvePath, names_intern hintern hns]
      rfl

/-! ## The reply that a name exists -/

/-- A GUARDED create replies that the name exists only if the host directory has it. -/
def ExistOnlyIfThere (host : HostFs W) (s : Machine T S W) (i : Incoming) : Prop :=
  ∀ args attr fail s', i.request = .create args → args.how = .guarded attr →
    (NfsHandlers.nfsproc3Create i.context i.xid args).runIn (answer host i.now) s =
      some (.err .nfs3errExist fail, s') →
    ∃ dirid path, i.context.fileHandleConverter.fhFromNfs args.where_.dir = .ok dirid ∧
      s.fs.hostPath dirid = some path ∧
      host.hasEntry s.host (path.join (Filename3.asOsStr args.where_.name))

/-- The host still has the name of a GUARDED create, if the directory can be looked at and the
cache holds a handle for the name. -/
def NoStaleHandle (host : HostFs W) (s : Machine T S W) (i : Incoming) : Prop :=
  ∀ args attr dirid path metadata id, i.request = .create args → args.how = .guarded attr →
    i.context.fileHandleConverter.fhFromNfs args.where_.dir = .ok dirid →
    s.fs.hostPath dirid = some path →
    ((host.answer s.host (.symlinkMetadata path)).1 : IoResult Metadata) = .ok metadata →
    s.fs.cached dirid (Filename3.asOsStr args.where_.name) = some id →
    host.hasEntry s.host (path.join (Filename3.asOsStr args.where_.name))

theorem fhFromNfs_ne_exist (converter : FileHandleConverter) (fh : NfsFh3) :
    converter.fhFromNfs fh ≠ (.error .nfs3errExist : Except Nfsstat3 FileHandleU64) := by
  unfold FileHandleConverter.fhFromNfs
  cases hcheck : converter.checkHandle fh with
  | ok _ =>
    dsimp only
    split
    · exact fun heq => nomatch heq
    · exact fun heq => nomatch heq
  | error stat =>
    intro heq
    cases heq
    unfold FileHandleConverter.checkHandle at hcheck
    dsimp only at hcheck
    split_ifs at hcheck
    · cases hcheck
    · cases hcheck
    · cases hcheck

theorem exist_of_cached [LawfulSymbolTable T S] {context : RPCContext} {xid : UInt32}
    {args : Create3Args} {attr : Sattr3} {metadata : Metadata} (hhow : args.how = .guarded attr)
    (hid : context.fileHandleConverter.fhFromNfs args.where_.dir = .ok dirid)
    (hpath : s.fs.hostPath dirid = some path)
    (hmetadata : ((host.answer s.host (.symlinkMetadata path)).1 : IoResult Metadata) =
      .ok metadata)
    (hcached : s.fs.cached dirid (Filename3.asOsStr args.where_.name) = some id) :
    ∃ fail s', (NfsHandlers.nfsproc3Create context xid args).runIn (answer host now) s =
      some (.err .nfs3errExist fail, s') := by
  have hgetattr : s.answer host now (.getattr dirid) =
      some ((.ok (metadataToFattr3 dirid metadata) : Except Nfsstat3 Fattr3),
        ⟨s.fs, (host.answer s.host (.symlinkMetadata path)).2⟩) := by
    rw [answer_getattr hpath, hmetadata]
  generalize (host.answer s.host (.symlinkMetadata path)).2 = w at hgetattr
  obtain ⟨fs', hlookup, hpath'⟩ : ∃ fs', (⟨s.fs, w⟩ : Machine T S W).answer host now
        (.lookup dirid args.where_.name) =
      some ((.ok id : Except Nfsstat3 FileHandleU64), ⟨fs', w⟩) ∧ fs'.hostPath dirid = some path :=
    answer_lookup_of_cached hcached hpath
  obtain ⟨after, s', hafter⟩ : ∃ after s', (⟨fs', w⟩ : Machine T S W).answer host now
      (.getattr dirid) = some (after, s') := ⟨_, _, answer_getattr hpath'⟩
  let v := metadataToFattr3 dirid metadata
  refine ⟨⟨⟨.some ⟨v.size, v.mtime, v.ctime⟩, NfsHandlers.nfsOptionFromResult after⟩⟩, s', ?_⟩
  refine (NfsHandlers.nfsproc3Create_guarded_runIn s rfl hid hhow).trans ?_
  refine Option.bind_eq_some_iff.mpr ⟨_, hgetattr, ?_⟩
  refine Option.bind_eq_some_iff.mpr ⟨_, hlookup, ?_⟩
  exact Option.bind_eq_some_iff.mpr ⟨_, hafter, rfl⟩

theorem existOnlyIfThere_iff [LawfulSymbolTable T S] (hlaw : host.Lawful) (hs : s.Rooted)
    (i : Incoming) : s.ExistOnlyIfThere host i ↔ s.NoStaleHandle host i := by
  constructor
  · intro hexist args attr dirid path metadata id hrequest hhow hid hpath hmetadata hcached
    obtain ⟨fail, s', hrun⟩ := exist_of_cached hhow hid hpath hmetadata hcached
    obtain ⟨dirid', path', hid', hpath', hentry⟩ := hexist args attr fail s' hrequest hhow hrun
    rw [hid] at hid'
    cases hid'
    rw [hpath] at hpath'
    cases hpath'
    exact hentry
  · intro hstale args attr fail s' hrequest hhow hrun
    cases hid : i.context.fileHandleConverter.fhFromNfs (H := FileHandleU64) args.where_.dir with
    | error stat =>
      unfold NfsHandlers.nfsproc3Create NfsHandlers.readWrite NfsHandlers.fhToId at hrun
      rw [hid] at hrun
      cases hrun
      exact absurd hid (fhFromNfs_ne_exist _ _)
    | ok dirid =>
      rw [NfsHandlers.nfsproc3Create_guarded_runIn s rfl hid hhow] at hrun
      obtain ⟨⟨before, s₁⟩, hbefore, hrun⟩ := Option.bind_eq_some_iff.mp hrun
      cases hpath : s.fs.hostPath dirid with
      | none =>
        cases answer_getattr_of_none hpath hbefore
        cases hrun
      | some path =>
        refine ⟨dirid, path, rfl, hpath, ?_⟩
        cases before with
        | error stat =>
          cases hrun
          exact absurd rfl ((noExist_exec hlaw s.fs.root).getattr dirid s _ _ hbefore)
        | ok v =>
          obtain ⟨metadata, hmetadata, rfl⟩ := answer_getattr_ok hpath hbefore
          obtain ⟨⟨found, s₂⟩, hfound, hrun⟩ := Option.bind_eq_some_iff.mp hrun
          cases found with
          | ok id =>
            cases hcached : s.fs.cached dirid (Filename3.asOsStr args.where_.name) with
            | some id' =>
              exact hstale args attr dirid path metadata id' hrequest hhow hid hpath hmetadata
                hcached
            | none =>
              refine (hlaw.hasEntry_symlinkMetadata s.host path _).mp ?_
              exact hasEntry_of_lookup (s := ⟨s.fs, _⟩) hlaw hs hpath hcached hfound
          | error stat =>
            obtain ⟨⟨created, s₃⟩, hcreated, hrun⟩ := Option.bind_eq_some_iff.mp hrun
            obtain ⟨⟨after, s₄⟩, -, hrun⟩ := Option.bind_eq_some_iff.mp hrun
            have hnever := (noExist_exec hlaw s₂.fs.root).create dirid _ attr s₂ _ s₃ hcreated
            cases created with
            | ok made => cases hrun
            | error stat =>
              cases hrun
              exact absurd rfl hnever

/-- In a run of requests, GUARDED creates reply that a name exists only where it does if and
only if none of them comes upon a stale handle. -/
theorem create_again_iff [LawfulSymbolTable T S] (hlaw : host.Lawful) (root : PathBuf)
    (retentionPeriod : ℕ) (maxCachedPerDir : UInt16) (w : W) (requests : List Incoming) :
    Transition.Along (serve host) (ExistOnlyIfThere host)
        (⟨.new root retentionPeriod maxCachedPerDir, w⟩ : Machine T S W) requests ↔
      Transition.Along (serve host) (NoStaleHandle host)
        (⟨.new root retentionPeriod maxCachedPerDir, w⟩ : Machine T S W) requests := by
  have hstep : ∀ (s : Machine T S W) i s', s.Rooted → s.serve host i = some s' → s'.Rooted :=
    fun _ _ _ => serve_rooted
  exact Transition.along_congr hstep (fun s i hs => existOnlyIfThere_iff hlaw hs i) rfl

/-- A host whose root has regular files and nothing else; their contents do not matter. -/
def flatHost : HostFs (List PathBuf) where
  answer files
    | .pathExists path => (decide (path = [sep] ∨ path ∈ files), files)
    | .symlinkMetadata path =>
      let metadata : Metadata := ⟨.nf3reg, 0o644, 1, 0, 0, 0, none, none, none⟩
      (if path = [sep] then .ok { metadata with fileType := .nf3dir }
        else if path ∈ files then .ok metadata else .error .notFound, files)
    | .createFile path => (.ok 0, if path ∈ files then files else path :: files)
    | .removeFile path =>
      (if path ∈ files then .ok () else .error .notFound, files.erase path)
    | .rename source target =>
      if source ∈ files then (.ok (), target :: (files.erase source).erase target)
      else (.error .notFound, files)
    | .setLen .. => (.ok (), files)
    | c => (c.unanswered, files)
  hasEntry files path := path = [sep] ∨ path ∈ files

theorem flatHost_lawful : flatHost.Lawful where
  hasEntry_of_exists files path h := by
    have hfound : decide (path = [sep] ∨ path ∈ files) = true := h
    have hentry : path = [sep] ∨ path ∈ files := of_decide_eq_true hfound
    exact hentry
  hasEntry_pathExists _ _ _ := Iff.rfl
  hasEntry_symlinkMetadata _ _ _ := Iff.rfl
  symlinkMetadata_error files path := by
    change (ite _ _ (ite _ _ _) : IoResult Metadata) ≠ _
    split_ifs
    · exact fun heq => nomatch heq
    · exact fun heq => nomatch heq
    · exact fun heq => nomatch heq
  createFile_error _ _ := fun heq => nomatch heq
  setLen_error _ _ _ := fun heq => nomatch heq

/-- The file `f` of the root directory. -/
def sampleFile : Diropargs3 :=
  ⟨NfsHandlers.sampleContext.fileHandleConverter.fhToNfs SymbolsCache.rootId, ⟨⟨[0x66]⟩⟩⟩

def sampleCreate : Incoming where
  context := NfsHandlers.sampleContext
  xid := 1
  now := 0
  request := .create ⟨sampleFile, .guarded ⟨.none, .none, .none, .none, .dontChange, .dontChange⟩⟩

def sampleRemove : Incoming where
  context := NfsHandlers.sampleContext
  xid := 2
  now := 0
  request := .remove ⟨sampleFile⟩

theorem create_again_first :
    Transition.Along (serve flatHost) (ExistOnlyIfThere flatHost)
      (⟨.new [sep] 60 20, []⟩ : Machine ListTable ℕ (List PathBuf)) [sampleCreate] := by
  refine (create_again_iff flatHost_lawful [sep] 60 20 [] [sampleCreate]).mpr ⟨?_, ?_⟩
  · intro args attr dirid path metadata id hrequest hhow hid hpath hmetadata hcached
    cases hrequest
    have hroot : dirid = 1 := Except.ok.inj (hid.symm.trans rfl)
    rw [hroot] at hcached
    cases hcached
  · exact fun _ _ => trivial

/-- A file is created, removed and created again: the reply is that it exists. -/
theorem create_again_refused :
    ¬∀ requests : List Incoming, Transition.Along (serve flatHost) (ExistOnlyIfThere flatHost)
      (⟨.new [sep] 60 20, []⟩ : Machine ListTable ℕ (List PathBuf)) requests := by
  intro h
  have hrun : (Transition.run (serve flatHost)
      (⟨.new [sep] 60 20, []⟩ : Machine ListTable ℕ (List PathBuf))
      [sampleCreate, sampleRemove]).map
        (fun s => (s.fs.hostPath 1, s.fs.cached 1 [0x66], s.host, s.fs.root, s.fs.cache.root)) =
      some (some [sep], some 2, [], [sep], [sep]) := by decide +kernel
  obtain ⟨s, hs, heq⟩ := Option.map_eq_some_iff.mp hrun
  simp only [Prod.mk.injEq] at heq
  obtain ⟨hpath, hcached, hhost, hroot, hcacheRoot⟩ := heq
  have halong := h ([sampleCreate, sampleRemove] ++ [sampleCreate])
  have hlast := ((Transition.along_append.mp halong).2 s hs).1
  have hrooted : s.Rooted := hcacheRoot.trans hroot.symm
  have hentry := (existOnlyIfThere_iff flatHost_lawful hrooted sampleCreate).mp hlast _ _ 1 [sep] _
    2 rfl rfl rfl hpath rfl hcached
  rw [hhost] at hentry
  rcases hentry with heq | hmem
  · exact absurd heq (by decide)
  · cases hmem

end Machine

end Mirror

end Nfs3
