import Nfs3.Lib.Transition
import Nfs3.Mirror.SymbolsInvariant
import Nfs3.Mirror.Operations
import Nfs3.Server.NfsHandlers

/-!
# The mirror on its host

Here the host has a state, and nobody but the mirror changes it. `Machine` is the memory of the
mirror together with that state. Requests are served one after the other, each by its handler.
-/
namespace Nfs3.Mirror

open Interaction (Prog)

section Roots

variable {T S : Type} [DecidableEq S]

namespace Fs

/-- No step moves the root. -/
structure SameRoots (fs fs' : Fs T S) : Prop where
  root : fs'.root = fs.root
  cacheRoot : fs'.cache.root = fs.cache.root

theorem SameRoots.refl (fs : Fs T S) : SameRoots fs fs := ⟨rfl, rfl⟩

theorem SameRoots.trans {fs₁ fs₂ fs₃ : Fs T S} (h : SameRoots fs₁ fs₂) (h' : SameRoots fs₂ fs₃) :
    SameRoots fs₁ fs₃ :=
  ⟨h'.root.trans h.root, h'.cacheRoot.trans h.cacheRoot⟩

theorem sameRoots_drop (fs : Fs T S) (iter : MirrorFsIterator) (now : Instant) :
    SameRoots fs (fs.drop iter now) := by
  unfold drop
  split
  · exact .refl fs
  · exact ⟨rfl, rfl⟩

variable [SymbolTable T S] {fs : Fs T S}

theorem lookup_root (cache : SymbolsCache T S) (parent : SymbolsPath S) (name : OsString)
    (checkPath : Bool) :
    (cache.lookup parent name checkPath).Meets (fun _ => True) fun r => r.2.root = cache.root := by
  unfold SymbolsCache.lookup
  rw [Prog.meets_bind]
  exact Prog.Meets.of_forall fun _ => rfl

theorem lookupById_root (cache : SymbolsCache T S) (parentId : FileHandleU64) (name : OsString)
    (checkPath : Bool) :
    (cache.lookupById parentId name checkPath).Meets (fun _ => True)
      fun r => r.2.root = cache.root := by
  unfold SymbolsCache.lookupById
  split
  · rfl
  · exact lookup_root cache _ name checkPath

theorem sameRoots_initializeReadDir (dirid : FileHandleU64) (cookie : UInt64) :
    (fs.initializeReadDir dirid cookie).Meets (fun _ => True) fun r => SameRoots fs r.2 := by
  unfold initializeReadDir
  rw [Prog.meets_bind]
  refine Prog.Meets.of_forall fun path => ?_
  cases path with
  | error stat => exact .refl fs
  | ok relativePath =>
    dsimp only
    split_ifs
    · refine ⟨trivial, fun metadata => ?_⟩
      cases metadata with
      | error kind => exact .refl fs
      | ok metadata =>
        dsimp only
        split_ifs
        · refine ⟨trivial, fun readDir => ?_⟩
          cases readDir with
          | error kind => exact .refl fs
          | ok readDir => exact ⟨rfl, rfl⟩
        · exact .refl fs
    · split
      · exact ⟨rfl, rfl⟩
      · exact ⟨rfl, rfl⟩

theorem sameRoots_nextEntryCommon (iter : MirrorFsIterator) :
    (fs.nextEntryCommon iter).Meets (fun _ => True) fun r => SameRoots fs r.2.2 := by
  unfold nextEntryCommon
  split
  · exact .refl fs
  split
  · exact .refl fs
  · exact .refl fs
  dsimp only
  split
  · exact .refl fs
  rw [Prog.meets_bind]
  refine (lookup_root fs.cache _ _ _).mono ?_
  rintro ⟨r, cache⟩ hroot
  cases r with
  | error stat => exact ⟨rfl, hroot⟩
  | ok handle => exact ⟨rfl, hroot⟩

theorem sameRoots_nextPlusLoop (fuel : ℕ) (fs : Fs T S) (iter : MirrorFsIterator) :
    (nextPlusLoop fuel fs iter).Meets (fun _ => True) fun r => SameRoots fs r.2.2 := by
  induction fuel generalizing fs iter with
  | zero => trivial
  | succ fuel ih =>
    unfold nextPlusLoop
    rw [Prog.meets_bind]
    refine (sameRoots_nextEntryCommon iter).mono ?_
    rintro ⟨entry, iter', fs'⟩ hroots
    cases entry with
    | eof => exact hroots
    | err stat => exact hroots
    | ok entry =>
      dsimp only
      rw [Prog.meets_bind]
      refine Prog.Meets.of_forall fun path => ?_
      cases path with
      | error stat => exact (ih fs' iter').mono fun _ h => hroots.trans h
      | ok relativePath => exact ⟨trivial, fun _ => hroots⟩

theorem sameRoots_exec (c : FsCall) :
    (fs.exec c).Meets (fun _ => True) fun r => SameRoots fs r.2 := by
  cases c with
  | host c => exact ⟨trivial, fun _ => .refl fs⟩
  | handleToPath id =>
    refine Prog.meets_bind.mpr ?_
    exact Prog.Meets.of_forall fun _ => .refl fs
  | lookupById parentId name checkPath =>
    refine Prog.meets_bind.mpr ?_
    exact (lookupById_root fs.cache parentId name checkPath).mono fun _ h => ⟨rfl, h⟩
  | getOrCreateIterator dirid cookie =>
    refine Prog.meets_bind.mpr ((sameRoots_initializeReadDir dirid cookie).mono ?_)
    rintro ⟨r, fs'⟩ hroots
    cases r with
    | error stat => exact hroots
    | ok opened => exact hroots
  | next iter =>
    refine Prog.meets_bind.mpr (Prog.meets_bind.mpr ?_)
    refine (sameRoots_nextEntryCommon iter).mono ?_
    rintro ⟨entry, iter', fs'⟩ hroots
    cases entry with
    | ok entry => exact hroots
    | eof => exact hroots
    | err stat => exact hroots
  | nextPlus iter =>
    refine Prog.meets_bind.mpr ?_
    exact (sameRoots_nextPlusLoop _ fs iter).mono fun _ h => h
  | drop iter now => exact sameRoots_drop fs iter now

end Fs

end Roots

/-- A host: what it answers, with the state after it, and where its directories have entries. -/
structure HostFs (W : Type) where
  answer : W → (c : HostCall) → c.Reply × W
  hasEntry : W → PathBuf → Prop

structure Machine (T S W : Type) [DecidableEq S] where
  fs : Fs T S
  host : W

/-- The procedures that call the file system, with their arguments. -/
inductive Request
  | getattr (args : Getattr3Args)
  | setattr (args : Setattr3Args)
  | lookup (args : Lookup3Args)
  | access (args : Access3Args)
  | readlink (args : Readlink3Args)
  | read (args : Read3Args)
  | write (args : Write3Args)
  | create (args : Create3Args)
  | mkdir (args : Mkdir3Args)
  | symlink (args : Symlink3Args)
  | remove (args : Remove3Args)
  | rename (args : Rename3Args)
  | readdir (args : Readdir3Args)
  | readdirplus (args : Readdirplus3Args)
  | fsstat (args : Fsstat3Args)
  | fsinfo (args : Fsinfo3Args)
  | pathconf (args : Pathconf3Args)

/-- A request with its context and the time at which it is served. -/
structure Incoming where
  context : RPCContext
  xid : UInt32
  now : Instant
  request : Request

open NfsHandlers in
/-- The handler, whose reply is sent and forgotten. -/
def Incoming.handler (i : Incoming) : VfsM FileHandleU64 MirrorFsIterator MirrorFsIterator Unit :=
  match i.request with
  | .getattr args => discard (nfsproc3Getattr i.context i.xid args)
  | .setattr args => discard (nfsproc3Setattr i.context i.xid args)
  | .lookup args => discard (nfsproc3Lookup i.context i.xid args)
  | .access args => discard (nfsproc3Access i.context i.xid args)
  | .readlink args => discard (nfsproc3Readlink i.context i.xid args)
  | .read args => discard (nfsproc3Read i.context i.xid args)
  | .write args => discard (nfsproc3Write i.context i.xid args)
  | .create args => discard (nfsproc3Create i.context i.xid args)
  | .mkdir args => discard (nfsproc3Mkdir i.context i.xid args)
  | .symlink args => discard (nfsproc3Symlink i.context i.xid args)
  | .remove args => discard (nfsproc3Remove i.context i.xid args)
  | .rename args => discard (nfsproc3Rename i.context i.xid args)
  | .readdir args => discard (NfsHandlers.nfsproc3Readdir i.context i.xid args)
  | .readdirplus args => discard (NfsHandlers.nfsproc3Readdirplus i.context i.xid args)
  | .fsstat args => discard (nfsproc3Fsstat i.context i.xid args)
  | .fsinfo args => discard (nfsproc3Fsinfo i.context i.xid args)
  | .pathconf args => discard (nfsproc3Pathconf i.context i.xid args)

namespace Machine

variable {T S W : Type} [SymbolTable T S] [DecidableEq S]

/-- One step of an operation of the mirror. -/
def exec (host : HostFs W) (s : Machine T S W) (c : FsCall) : Option (c.Reply × Machine T S W) :=
  ((s.fs.exec c).runIn (fun w c => some (host.answer w c)) s.host).map fun ((r, fs), w) =>
    (r, ⟨fs, w⟩)

/-- A call to the file system. -/
def answer (host : HostFs W) (now : Instant) (s : Machine T S W)
    (c : VfsCall FileHandleU64 MirrorFsIterator MirrorFsIterator) :
    Option (c.Reply × Machine T S W) :=
  (Fs.serve s.fs.root now c).runIn (exec host) s

/-- A request that is served alone; `none` where its handler does not return. -/
def serve (host : HostFs W) (s : Machine T S W) (i : Incoming) : Option (Machine T S W) :=
  (i.handler.runIn (answer host i.now) s).map Prod.snd

variable {host : HostFs W} {s s' : Machine T S W}

@[simp]
theorem exec_host (c : HostCall) :
    s.exec host (.host c) =
      some ((host.answer s.host c).1, ⟨s.fs, (host.answer s.host c).2⟩) := rfl

theorem ends_of_exec {c : FsCall} {r : c.Reply} (h : s.exec host c = some (r, s')) :
    (s.fs.exec c).Ends (r, s'.fs) := by
  obtain ⟨⟨⟨r₁, fs⟩, w⟩, hrun, heq⟩ := Option.map_eq_some_iff.mp h
  cases heq
  exact Prog.ends_of_runIn hrun

theorem exec_sameRoots {c : FsCall} {r : c.Reply} (h : s.exec host c = some (r, s')) :
    s.fs.SameRoots s'.fs :=
  (Fs.sameRoots_exec c).ends (ends_of_exec h)

/-- The mirror and its symbols cache have the same root. -/
def Rooted (s : Machine T S W) : Prop := s.fs.cache.root = s.fs.root

theorem exec_rooted {c : FsCall} {r : c.Reply} (hs : s.Rooted) (h : s.exec host c = some (r, s')) :
    s'.Rooted := by
  have hroots := exec_sameRoots h
  unfold Rooted
  rw [hroots.cacheRoot, hs, hroots.root]

theorem answer_rooted {now : Instant}
    {c : VfsCall FileHandleU64 MirrorFsIterator MirrorFsIterator} {r : c.Reply} (hs : s.Rooted)
    (h : s.answer host now c = some (r, s')) : s'.Rooted := by
  have hexec : ∀ (s : Machine T S W) (c : FsCall) (r : c.Reply) s', s.Rooted →
      s.exec host c = some (r, s') → s'.Rooted := fun _ _ _ _ => exec_rooted
  exact Prog.runIn_invariant hexec hs h

theorem serve_rooted {i : Incoming} (hs : s.Rooted) (h : s.serve host i = some s') : s'.Rooted := by
  obtain ⟨⟨u, s₁⟩, hrun, rfl⟩ := Option.map_eq_some_iff.mp h
  have hanswer : ∀ (s : Machine T S W)
      (c : VfsCall FileHandleU64 MirrorFsIterator MirrorFsIterator) (r : c.Reply) s', s.Rooted →
      s.answer host i.now c = some (r, s') → s'.Rooted := fun _ _ _ _ => answer_rooted
  exact Prog.runIn_invariant hanswer hs hrun

end Machine

end Nfs3.Mirror
