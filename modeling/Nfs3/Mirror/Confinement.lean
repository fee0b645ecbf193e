import Nfs3.Lib.LexicalPath
import Nfs3.Mirror.Operations
import Nfs3.Mirror.SymbolsInvariant

/-!
# Host paths of the mirror

A host path is inside the root if it is the root followed by relative names whose segments
never climb above it. The operations push names of the client as they are; `rename` alone turns
some of them away. Every host path is inside as long as no request brings a name that is
absolute, or that climbs above the root from the directory it is given for.
-/
namespace Nfs3.Mirror

open Interaction (Prog)
open LexicalPath (NeverClimbs)

def segments (p : PathBuf) : List OsString := LexicalPath.segments sep 0x2e p

namespace PathBuf

variable {buf p : PathBuf} {ns : List OsString}

theorem segments_push (hp : isAbsolute p = false) :
    segments (push buf p) = segments buf ++ segments p := by
  rw [push, hp, if_neg Bool.false_ne_true]
  split_ifs with hbuf
  · exact LexicalPath.segments_append_of_last hbuf p
  · exact LexicalPath.segments_append_sep buf p

theorem segments_foldl_push (hns : ∀ n ∈ ns, isAbsolute n = false) (buf : PathBuf) :
    segments (ns.foldl push buf) = segments buf ++ ns.flatMap segments := by
  induction ns generalizing buf with
  | nil => simp
  | cons n ns ih =>
    rw [List.foldl_cons, ih (fun m hm => hns m (List.mem_cons_of_mem _ hm)),
      segments_push (hns n List.mem_cons_self), List.flatMap_cons, List.append_assoc]

theorem isAbsolute_push (hp : isAbsolute p = false) (hbuf : isAbsolute buf = false) :
    isAbsolute (push buf p) = false := by
  rw [push, hp, if_neg Bool.false_ne_true]
  cases buf with
  | nil => simpa using hp
  | cons b buf =>
    have hhead : ∀ rest : List UInt8, isAbsolute (b :: (buf ++ rest)) = false := fun _ => hbuf
    rw [apply_ite isAbsolute]
    exact (ite_eq_iff').mpr ⟨fun _ => hhead p, fun _ => hhead (sep :: p)⟩

theorem isAbsolute_foldl_push (hns : ∀ n ∈ ns, isAbsolute n = false)
    (hbuf : isAbsolute buf = false) : isAbsolute (ns.foldl push buf) = false := by
  induction ns generalizing buf with
  | nil => exact hbuf
  | cons n ns ih =>
    exact ih (fun m hm => hns m (List.mem_cons_of_mem _ hm))
      (isAbsolute_push (hns n List.mem_cons_self) hbuf)

end PathBuf

/-- Relative names that never climb above where they start. -/
structure SafeNames (ns : List OsString) : Prop where
  relative : ∀ n ∈ ns, PathBuf.isAbsolute n = false
  below : NeverClimbs 0x2e (ns.flatMap segments)

/-- The root followed by safe names. -/
def Inside (root p : PathBuf) : Prop := ∃ ns, SafeNames ns ∧ p = ns.foldl PathBuf.push root

namespace SafeNames

variable {ns : List OsString} {name : OsString}

theorem nil : SafeNames [] := ⟨by simp, rfl⟩

theorem of_append {ns' : List OsString} (h : SafeNames (ns ++ ns')) : SafeNames ns where
  relative n hn := h.relative n (List.mem_append_left _ hn)
  below := by
    have hbelow := h.below
    rw [List.flatMap_append] at hbelow
    exact hbelow.of_append

/-- The name of a directory entry leads one level down. -/
theorem concat_entry (h : SafeNames ns) (entry : EntryName) : SafeNames (ns ++ [entry.name]) where
  relative n hn := by
    rcases List.mem_append.mp hn with hn | hn
    · exact h.relative n hn
    · obtain rfl := List.mem_singleton.mp hn
      have hsingle := entry.single
      cases hname : entry.name with
      | nil => rfl
      | cons b bs =>
        have hne : b ≠ sep := fun hb => hsingle (by simp [hname, hb])
        simp [PathBuf.isAbsolute, hne]
  below := by
    have hsegments : segments entry.name = [entry.name] :=
      LexicalPath.segments_of_single entry.single entry.nonempty entry.notDot
    rw [List.flatMap_append, List.flatMap_singleton, hsegments]
    exact h.below.concat entry.notDotDot

/-- The path that the names are resolved to is one safe name. -/
theorem resolved (h : SafeNames ns) (rest : List OsString) (hrest : SafeNames (ns ++ rest)) :
    SafeNames (ns.foldl PathBuf.push [] :: rest) where
  relative n hn := by
    rcases List.mem_cons.mp hn with rfl | hn
    · exact PathBuf.isAbsolute_foldl_push h.relative rfl
    · exact hrest.relative n (List.mem_append_right _ hn)
  below := by
    have hbelow := hrest.below
    rw [List.flatMap_append] at hbelow
    rw [List.flatMap_cons, PathBuf.segments_foldl_push h.relative]
    simpa [segments] using hbelow

theorem inside (h : SafeNames ns) (root : PathBuf) :
    Inside root (root.join (ns.foldl PathBuf.push [])) :=
  ⟨[ns.foldl PathBuf.push []], h.resolved [] (by simpa using h), rfl⟩

theorem inside_join (h : SafeNames (ns ++ [name])) (root : PathBuf) :
    Inside root ((root.join (ns.foldl PathBuf.push [])).join name) :=
  ⟨[ns.foldl PathBuf.push [], name], h.of_append.resolved [name] h, rfl⟩

end SafeNames

/-- What follows the segments of the root never climbs. -/
theorem Inside.segments_eq {root p : PathBuf} (h : Inside root p) :
    ∃ rest, segments p = segments root ++ rest ∧ NeverClimbs 0x2e rest := by
  obtain ⟨ns, hns, rfl⟩ := h
  exact ⟨_, PathBuf.segments_foldl_push hns.relative root, hns.below⟩

/-- All paths of the call are inside the root. -/
def Within (root : PathBuf) (c : HostCall) : Prop := ∀ p ∈ c.paths, Inside root p

variable {T S : Type} [SymbolTable T S] [DecidableEq S]

namespace Fs

/-- The handle stands for the path with these names. -/
def Named (fs : Fs T S) (id : FileHandleU64) (ns : List OsString) : Prop :=
  ∃ path, fs.cache.inner.idToPath.lookup id = some path ∧
    names fs.cache.inner.symbols path = some ns

/-- The invariant: whatever a handle stands for is inside the root. -/
structure Safe (root : PathBuf) (fs : Fs T S) : Prop where
  root_eq : fs.root = root
  cacheRoot_eq : fs.cache.root = root
  sound : fs.cache.inner.Sound
  safeNames : ∀ {id ns}, fs.Named id ns → SafeNames ns

/-- A handle keeps its names. -/
def Grown (fs fs' : Fs T S) : Prop := ∀ {id ns}, fs.Named id ns → fs'.Named id ns

/-- In this directory the name is safe. An unknown handle is turned away before the name is
used. -/
def Admits (fs : Fs T S) (dirid : FileHandleU64) (name : OsString) : Prop :=
  ∀ ns, fs.Named dirid ns → SafeNames (ns ++ [name])

variable {root : PathBuf} {fs fs' : Fs T S} {α β ε ε' : Type}

theorem Safe.of_eq (h : fs.Safe root) (hroot : fs'.root = fs.root) (hcache : fs'.cache = fs.cache) :
    fs'.Safe root where
  root_eq := hroot.trans h.root_eq
  cacheRoot_eq := hcache ▸ h.cacheRoot_eq
  sound := hcache ▸ h.sound
  safeNames hnamed := h.safeNames (by simpa only [Named, hcache] using hnamed)

theorem Grown.of_eq (hcache : fs'.cache = fs.cache) : fs.Grown fs' := by
  intro id ns hnamed
  simpa only [Named, hcache] using hnamed

theorem Grown.trans {fs₁ fs₂ fs₃ : Fs T S} (h : fs₁.Grown fs₂) (h' : fs₂.Grown fs₃) :
    fs₁.Grown fs₃ :=
  fun hnamed => h' (h hnamed)

theorem Named.unique {id : FileHandleU64} {ns ns' : List OsString} (h : fs.Named id ns)
    (h' : fs.Named id ns') : ns = ns' := by
  obtain ⟨path, hid, hns⟩ := h
  obtain ⟨path', hid', hns'⟩ := h'
  obtain rfl := Option.some.inj (hid.symm.trans hid')
  exact Option.some.inj (hns.symm.trans hns')

/-! ## What operations keep -/

/-- Whatever the host answers, the calls of the program stay inside the root, the invariant
holds in the end, handles keep their names and the result satisfies `Q`. -/
def Keeps (root : PathBuf) (fs : Fs T S) (m : FsProg α) (Q : α → Prop) : Prop :=
  (m.interpIn Fs.exec fs).Meets (Within root) fun r =>
    r.2.Safe root ∧ fs.Grown r.2 ∧ Q r.1

/-- `Keeps` for a value that is returned. -/
def KeepsOk (root : PathBuf) (fs : Fs T S) (m : ExceptT ε FsProg α) (Q : α → Prop) : Prop :=
  Keeps root fs m.run fun r => ∀ a, r = .ok a → Q a

theorem Keeps.ret {a : α} {Q : α → Prop} (hs : fs.Safe root) (ha : Q a) :
    Keeps root fs (.ret a) Q :=
  ⟨hs, fun hnamed => hnamed, ha⟩

theorem Keeps.mono {m : FsProg α} {Q R : α → Prop} (h : Keeps root fs m Q) (hQ : ∀ a, Q a → R a) :
    Keeps root fs m R :=
  Prog.Meets.mono h fun _ hr => ⟨hr.1, hr.2.1, hQ _ hr.2.2⟩

theorem Keeps.bind {m : FsProg α} {f : α → FsProg β} {Q : α → Prop} {R : β → Prop}
    (hm : Keeps root fs m Q)
    (hf : ∀ fs' a, fs'.Safe root → fs.Grown fs' → Q a → Keeps root fs' (f a) R) :
    Keeps root fs (m.bind f) R := by
  rw [Keeps, Prog.interpIn_bind, Prog.meets_bind]
  refine Prog.Meets.mono hm ?_
  rintro ⟨a, fs'⟩ ⟨hs', hgrown, ha⟩
  refine Prog.Meets.mono (hf fs' a hs' hgrown ha) ?_
  rintro ⟨b, fs''⟩ ⟨hs'', hgrown', hb⟩
  exact ⟨hs'', fun hnamed => hgrown' (hgrown hnamed), hb⟩

theorem KeepsOk.pure {a : α} {Q : α → Prop} (hs : fs.Safe root) (ha : Q a) :
    KeepsOk root fs (Pure.pure a : ExceptT ε FsProg α) Q :=
  Keeps.ret hs fun _ heq => Except.ok.inj heq ▸ ha

theorem KeepsOk.throw {e : ε} {Q : α → Prop} (hs : fs.Safe root) :
    KeepsOk root fs (MonadExcept.throw e : ExceptT ε FsProg α) Q :=
  Keeps.ret hs fun _ heq => nomatch heq

theorem KeepsOk.bind {m : ExceptT ε FsProg α} {f : α → ExceptT ε FsProg β} {Q : α → Prop}
    {R : β → Prop} (hm : KeepsOk root fs m Q)
    (hf : ∀ fs' a, fs'.Safe root → fs.Grown fs' → Q a → KeepsOk root fs' (f a) R) :
    KeepsOk root fs (m >>= f) R := by
  refine Keeps.bind hm ?_
  intro fs' r hs' hgrown hr
  cases r with
  | ok a => exact hf fs' a hs' hgrown (hr a rfl)
  | error e => exact Keeps.ret hs' fun _ heq => nomatch heq

theorem KeepsOk.mapErr {f : ε → ε'} {m : ExceptT ε FsProg α} {Q : α → Prop}
    (hm : KeepsOk root fs m Q) : KeepsOk root fs (mapErr f m) Q := by
  refine Keeps.bind hm ?_
  intro fs' r hs' _ hr
  cases r with
  | ok a => exact Keeps.ret hs' fun _ heq => Except.ok.inj heq ▸ hr a rfl
  | error e => exact Keeps.ret hs' fun _ heq => nomatch heq

theorem KeepsOk.attempt {m : ExceptT ε FsProg α} {Q : α → Prop} (hm : KeepsOk root fs m Q) :
    KeepsOk root fs (attempt m : ExceptT ε' FsProg _) fun _ => True :=
  Keeps.bind hm fun _ _ hs' _ _ => Keeps.ret hs' fun _ _ => trivial

theorem KeepsOk.ignore {m : ExceptT ε FsProg α} {Q : α → Prop} (hm : KeepsOk root fs m Q) :
    KeepsOk root fs (ignore m : ExceptT ε' FsProg Unit) fun _ => True :=
  hm.attempt.bind fun _ _ hs' _ _ => .pure hs' trivial

theorem Keeps.ok {m : FsProg (Except ε α)} {Q : Except ε α → Prop} (h : Keeps root fs m Q) :
    KeepsOk root fs (ExceptT.mk m) fun _ => True :=
  h.mono fun _ _ _ _ => trivial

theorem keeps_ask {c : FsCall} {Q : c.Reply → Prop}
    (h : (fs.exec c).Meets (Within root) fun r => r.2.Safe root ∧ fs.Grown r.2 ∧ Q r.1) :
    Keeps root fs (.ask c .ret) Q :=
  Prog.meets_bind.mpr h

theorem within_one {c : HostCall} {p : PathBuf} (hp : Inside root p) (hc : c.paths = [p]) :
    Within root c := by
  intro q hq
  rw [hc] at hq
  obtain rfl := List.mem_singleton.mp hq
  exact hp

theorem keeps_call {c : HostCall} (hc : Within root c) (hs : fs.Safe root) :
    Keeps root fs (call c) fun _ => True :=
  ⟨hc, fun _ => ⟨hs, fun hnamed => hnamed, trivial⟩⟩

theorem keeps_at {c : HostCall} {p : PathBuf} (hc : c.paths = [p]) (hp : Inside root p)
    (hs : fs.Safe root) : Keeps root fs (call c) fun _ => True :=
  keeps_call (within_one hp hc) hs

theorem keeps_fd {c : HostCall} (hc : c.paths = []) (hs : fs.Safe root) :
    Keeps root fs (call c) fun _ => True := by
  refine keeps_call ?_ hs
  intro q hq
  rw [hc] at hq
  cases hq

/-! ## The shared memory -/

theorem meets_handleToPath (hs : fs.Safe root) (id : FileHandleU64) :
    (fs.cache.handleToPath id).Meets (Within root) fun r =>
      ∀ p, r = .ok p → ∃ ns, fs.Named id ns ∧ p = ns.foldl PathBuf.push [] := by
  unfold SymbolsCache.handleToPath
  cases hid : fs.cache.inner.idToPath.lookup id with
  | none => exact fun p hp => nomatch hp
  | some path =>
    obtain ⟨ns, hns⟩ := hs.sound.resolves path id ((hs.sound.inverse path id).mpr hid)
    simp only [resolvePath, hns, Option.map_some]
    rintro p ⟨⟩
    exact ⟨ns, ⟨path, hid, hns⟩, rfl⟩

/-- The tests before a new entry ask about the directory and the name in it. -/
theorem meets_testPath {inner : SymbolsCacheInner T S} {parent : SymbolsPath S}
    {ns : List OsString} {name : OsString} (hns : names inner.symbols parent = some ns)
    (hsafe : SafeNames (ns ++ [name])) :
    (inner.testPath root parent name).Meets (Within root) fun _ => True := by
  unfold SymbolsCacheInner.testPath
  simp only [resolvePath, hns, Option.map_some]
  refine ⟨within_one (hsafe.of_append.inside root) rfl, fun parentFound => ?_⟩
  cases parentFound with
  | false => trivial
  | true =>
    refine ⟨within_one (hsafe.inside_join root) rfl, ?_⟩
    intro found
    cases found with
    | false => trivial
    | true => trivial

variable [LawfulSymbolTable T S]

/-- A lookup that the directory admits keeps the invariant. -/
theorem looked_safe {parent : SymbolsPath S} {parentId : FileHandleU64} {name : OsString}
    {checkPath : Bool} {r : Except Nfsstat3 FileHandleU64} {inner : SymbolsCacheInner T S}
    (hs : fs.Safe root) (hparent : fs.cache.inner.idToPath.lookup parentId = some parent)
    (hadmits : fs.Admits parentId name)
    (hlooked : fs.cache.inner.Looked parent name checkPath r inner) :
    ({ fs with cache := { fs.cache with inner } } : Fs T S).Safe root ∧
      fs.Grown { fs with cache := { fs.cache with inner } } := by
  have hstored := (hs.sound.inverse parent parentId).mpr hparent
  have hsound := hlooked.sound hs.sound hstored
  have hgrown : fs.Grown { fs with cache := { fs.cache with inner } } := by
    rintro id ns ⟨path, hid, hns⟩
    have hpath := hlooked.extends.pathToId path id ((hs.sound.inverse path id).mpr hid)
    refine ⟨path, (hsound.inverse path id).mp hpath, ?_⟩
    cases hlooked with
    | known hintern => exact names_intern hintern hns
    | refused _ hintern => exact names_intern hintern hns
    | entered hintern => exact names_intern hintern hns
  refine ⟨⟨hs.root_eq, hs.cacheRoot_eq, hsound, ?_⟩, hgrown⟩
  -- what was known keeps its names, and the new path has one name more
  rintro id ns ⟨path, hid, hns⟩
  have hold : fs.cache.inner.idToPath.lookup id = some path → SafeNames ns := by
    intro hid'
    obtain ⟨ns', hns'⟩ := hs.sound.resolves path id ((hs.sound.inverse path id).mpr hid')
    have hnamed : fs.Named id ns' := ⟨path, hid', hns'⟩
    obtain ⟨path', hid'', hns''⟩ := hgrown hnamed
    obtain rfl := Option.some.inj (hid.symm.trans hid'')
    obtain rfl := Option.some.inj (hns.symm.trans hns'')
    exact hs.safeNames hnamed
  cases hlooked with
  | known hintern hlookup => exact hold hid
  | refused stat hintern hlookup => exact hold hid
  | @entered symbol symbols hintern hlookup hroom =>
    rw [SymbolsCacheInner.idToPath_insertItem] at hid
    split_ifs at hid with hnew
    · obtain ⟨ns', hns'⟩ := hs.sound.resolves parent parentId hstored
      have hjoin : parent.join symbol = path := Option.some.inj hid
      have hnames := names_join (names_intern hintern hns') (LawfulSymbolTable.get_intern hintern)
      rw [← hjoin] at hns
      obtain rfl := Option.some.inj (hns.symm.trans hnames)
      exact hadmits ns' ⟨parent, hparent, hns'⟩
    · exact hold hid

theorem looked_named {parent : SymbolsPath S} {parentId id : FileHandleU64} {name : OsString}
    {checkPath : Bool} {inner : SymbolsCacheInner T S} {ns : List OsString} (hs : fs.Safe root)
    (hparent : fs.cache.inner.idToPath.lookup parentId = some parent)
    (hns : names fs.cache.inner.symbols parent = some ns)
    (hlooked : fs.cache.inner.Looked parent name checkPath (.ok id) inner) :
    ({ fs with cache := { fs.cache with inner } } : Fs T S).Named id (ns ++ [name]) := by
  have hsound := hlooked.sound hs.sound ((hs.sound.inverse parent parentId).mpr hparent)
  obtain ⟨symbol, hget, hstored⟩ := hlooked.stored
  refine ⟨parent.join symbol, (hsound.inverse _ id).mp hstored, ?_⟩
  have hns' : names inner.symbols parent = some ns := by
    cases hlooked with
    | known hintern => exact names_intern hintern hns
    | entered hintern => exact names_intern hintern hns
  exact names_join hns' hget

theorem meets_lookup {parent : SymbolsPath S} {parentId : FileHandleU64} {name : OsString}
    {checkPath : Bool} (hs : fs.Safe root)
    (hparent : fs.cache.inner.idToPath.lookup parentId = some parent)
    (hadmits : fs.Admits parentId name) :
    (fs.cache.lookup parent name checkPath).Meets (Within root) fun r =>
      ({ fs with cache := r.2 } : Fs T S).Safe root ∧ fs.Grown { fs with cache := r.2 } ∧
        ∀ id ns, r.1 = .ok id → fs.Named parentId ns →
          ({ fs with cache := r.2 } : Fs T S).Named id (ns ++ [name]) := by
  obtain ⟨ns, hns⟩ :=
    hs.sound.resolves parent parentId ((hs.sound.inverse parent parentId).mpr hparent)
  have hsafe := hadmits ns ⟨parent, hparent, hns⟩
  rw [SymbolsCache.lookup, Prog.meets_bind]
  have hasks : (fs.cache.inner.lookup fs.cache.root parent name checkPath).Meets (Within root)
      fun _ => True := by
    unfold SymbolsCacheInner.lookup
    split
    · trivial
    rename_i symbol symbols hintern
    dsimp only
    split
    · trivial
    rw [Prog.meets_bind]
    refine Prog.Meets.mono (Q := fun _ => True) ?_ ?_
    · split_ifs
      · rw [hs.cacheRoot_eq]
        exact meets_testPath (names_intern hintern hns) hsafe
      · trivial
    · intro r _
      cases r with
      | error stat => trivial
      | ok _ =>
        dsimp only
        split_ifs <;> trivial
  refine hasks.of_ends ?_
  rintro ⟨r, inner⟩ hends
  have hlooked := SymbolsCacheInner.looked_of_ends hends
  obtain ⟨hs', hgrown⟩ := looked_safe hs hparent hadmits hlooked
  refine ⟨hs', hgrown, ?_⟩
  rintro id ns rfl ⟨path, hpath, hns⟩
  obtain rfl := Option.some.inj (hparent.symm.trans hpath)
  exact looked_named hs hparent hns hlooked

theorem meets_lookupById {parentId : FileHandleU64} {name : OsString} {checkPath : Bool}
    (hs : fs.Safe root) (hadmits : fs.Admits parentId name) :
    (fs.cache.lookupById parentId name checkPath).Meets (Within root) fun r =>
      ({ fs with cache := r.2 } : Fs T S).Safe root ∧ fs.Grown { fs with cache := r.2 } ∧
        ∀ id ns, r.1 = .ok id → fs.Named parentId ns →
          ({ fs with cache := r.2 } : Fs T S).Named id (ns ++ [name]) := by
  rw [SymbolsCache.lookupById, SymbolsCache.symbolsPath]
  cases hparent : fs.cache.inner.idToPath.lookup parentId with
  | none =>
    refine ⟨hs.of_eq rfl rfl, Grown.of_eq rfl, ?_⟩
    intro id ns heq
    cases heq
  | some parent => exact meets_lookup hs hparent hadmits

theorem keeps_lookupById {parentId : FileHandleU64} {name : OsString} {checkPath : Bool}
    (hs : fs.Safe root) (hadmits : fs.Admits parentId name) :
    KeepsOk root fs (lookupById parentId name checkPath) fun _ => True := by
  refine (keeps_ask (c := .lookupById parentId name checkPath) (Q := fun _ => True) ?_).ok
  exact Prog.meets_bind.mpr ((meets_lookupById hs hadmits).mono fun r hr => ⟨hr.1, hr.2.1, trivial⟩)

theorem keeps_lookup_bind {dirid : FileHandleU64} {filename : Filename3} {ns : List OsString}
    {f : Except Nfsstat3 FileHandleU64 → FsProg α} {R : α → Prop} (hs : fs.Safe root)
    (hnamed : fs.Named dirid ns) (hsafe : SafeNames (ns ++ [Filename3.asOsStr filename]))
    (herror : ∀ (fs' : Fs T S) stat, fs'.Safe root → Keeps root fs' (f (.error stat)) R)
    (hok : ∀ (fs' : Fs T S) id, fs'.Safe root → fs'.Named id (ns ++ [Filename3.asOsStr filename]) →
      Keeps root fs' (f (.ok id)) R) :
    Keeps root fs (Prog.bind (lookup dirid filename) f) R := by
  have hadmits : fs.Admits dirid (Filename3.asOsStr filename) :=
    fun ns' hnamed' => hnamed.unique hnamed' ▸ hsafe
  refine Prog.meets_bind.mpr (Prog.meets_bind.mpr ((meets_lookupById hs hadmits).mono ?_))
  rintro ⟨r, cache⟩ ⟨hs', hgrown, hnew⟩
  cases r with
  | error stat =>
    have hrest := herror _ stat hs'
    change Prog.Meets _ _ ((f (.error stat)).interpIn exec { fs with cache })
    exact Prog.Meets.mono hrest fun r hr => ⟨hr.1, hgrown.trans hr.2.1, hr.2.2⟩
  | ok id =>
    have hrest := hok _ id hs' (hnew id ns rfl hnamed)
    change Prog.Meets _ _ ((f (.ok id)).interpIn exec { fs with cache })
    exact Prog.Meets.mono hrest fun r hr => ⟨hr.1, hgrown.trans hr.2.1, hr.2.2⟩

omit [LawfulSymbolTable T S] in
theorem keeps_path (hs : fs.Safe root) (id : FileHandleU64) :
    KeepsOk root fs (path root id) fun p =>
      ∃ ns, fs.Named id ns ∧ p = root.join (ns.foldl PathBuf.push []) := by
  have hask : KeepsOk root fs (ExceptT.mk (.ask (.handleToPath id) .ret) : FsM PathBuf) fun p =>
      ∃ ns, fs.Named id ns ∧ p = ns.foldl PathBuf.push [] := by
    refine keeps_ask (c := .handleToPath id) (Prog.meets_bind.mpr ?_)
    exact (meets_handleToPath hs id).mono fun r hr => ⟨hs, fun hnamed => hnamed, hr⟩
  refine hask.bind ?_
  rintro fs' p hs' - ⟨ns, hnamed, rfl⟩
  exact .pure hs' ⟨ns, hnamed, rfl⟩

omit [LawfulSymbolTable T S] in
theorem keeps_path_bind {id : FileHandleU64} {f : PathBuf → FsM α} {R : α → Prop}
    (hs : fs.Safe root)
    (hf : ∀ ns, fs.Named id ns → KeepsOk root fs (f (root.join (ns.foldl PathBuf.push []))) R) :
    KeepsOk root fs (path root id >>= f) R := by
  refine Prog.meets_bind.mpr (Prog.meets_bind.mpr ((meets_handleToPath hs id).mono ?_))
  intro r hr
  cases r with
  | error stat => exact ⟨hs, fun hnamed => hnamed, fun _ heq => nomatch heq⟩
  | ok p =>
    obtain ⟨ns, hnamed, rfl⟩ := hr p rfl
    exact hf ns hnamed

omit [LawfulSymbolTable T S] in
theorem keeps_getOrCreateIterator (hs : fs.Safe root) (dirid : FileHandleU64) (cookie : UInt64) :
    Keeps root fs (.ask (.getOrCreateIterator dirid cookie) .ret) fun _ => True := by
  refine keeps_ask (Prog.meets_bind.mpr ?_)
  rw [initializeReadDir, Prog.meets_bind]
  refine (meets_handleToPath hs dirid).mono ?_
  intro r hr
  cases r with
  | error stat => exact ⟨hs, fun hnamed => hnamed, trivial⟩
  | ok p =>
    obtain ⟨ns, hnamed, rfl⟩ := hr p rfl
    have hinside : Inside root (fs.root.join (ns.foldl PathBuf.push [])) := by
      rw [hs.root_eq]
      exact (hs.safeNames hnamed).inside root
    dsimp only
    split_ifs
    · refine ⟨within_one hinside rfl, fun metadata => ?_⟩
      cases metadata with
      | error kind => exact ⟨hs, fun hnamed => hnamed, trivial⟩
      | ok metadata =>
        dsimp only
        split_ifs
        · refine ⟨within_one hinside rfl, fun readDir => ?_⟩
          cases readDir with
          | error kind => exact ⟨hs, fun hnamed => hnamed, trivial⟩
          | ok readDir => exact ⟨hs.of_eq rfl rfl, Grown.of_eq rfl, trivial⟩
        · exact ⟨hs, fun hnamed => hnamed, trivial⟩
    · split
      · exact ⟨hs.of_eq rfl rfl, Grown.of_eq rfl, trivial⟩
      · exact ⟨hs.of_eq rfl rfl, Grown.of_eq rfl, trivial⟩

/-- An entry of the host is admitted everywhere. -/
theorem meets_nextEntryCommon (hs : fs.Safe root) (iter : MirrorFsIterator) :
    (fs.nextEntryCommon iter).Meets (Within root) fun r =>
      r.2.2.Safe root ∧ fs.Grown r.2.2 := by
  unfold nextEntryCommon
  split
  · exact ⟨hs, fun hnamed => hnamed⟩
  split
  · exact ⟨hs, fun hnamed => hnamed⟩
  · exact ⟨hs, fun hnamed => hnamed⟩
  rename_i name pending _
  simp only [SymbolsCache.symbolsPath]
  cases hparent : fs.cache.inner.idToPath.lookup iter.dirid with
  | none => exact ⟨hs, fun hnamed => hnamed⟩
  | some parent =>
    have hadmits : fs.Admits iter.dirid name.name :=
      fun ns hnamed => (hs.safeNames hnamed).concat_entry name
    dsimp only
    rw [Prog.meets_bind]
    refine (meets_lookup hs hparent hadmits).mono ?_
    rintro ⟨r, cache⟩ ⟨hs', hgrown, -⟩
    cases r with
    | error stat => exact ⟨hs', hgrown⟩
    | ok handle => exact ⟨hs', hgrown⟩

theorem keeps_next (hs : fs.Safe root) (iter : MirrorFsIterator) :
    Keeps root fs (.ask (.next iter) .ret) fun _ => True := by
  refine keeps_ask (Prog.meets_bind.mpr (Prog.meets_bind.mpr ?_))
  refine (meets_nextEntryCommon hs iter).mono ?_
  rintro ⟨r, iter', fs'⟩ ⟨hs', hgrown⟩
  cases r with
  | ok entry => exact ⟨hs', hgrown, trivial⟩
  | eof => exact ⟨hs', hgrown, trivial⟩
  | err stat => exact ⟨hs', hgrown, trivial⟩

theorem meets_nextPlusLoop (fuel : ℕ) (hs : fs.Safe root) (iter : MirrorFsIterator) :
    (nextPlusLoop fuel fs iter).Meets (Within root) fun r => r.2.2.Safe root ∧ fs.Grown r.2.2 := by
  induction fuel generalizing fs iter with
  | zero => trivial
  | succ fuel ih =>
    rw [nextPlusLoop, Prog.meets_bind]
    refine (meets_nextEntryCommon hs iter).mono ?_
    rintro ⟨r, iter', fs'⟩ ⟨hs', hgrown⟩
    cases r with
    | eof => exact ⟨hs', hgrown⟩
    | err stat => exact ⟨hs', hgrown⟩
    | ok entry =>
      obtain ⟨handle, name, cookie⟩ := entry
      dsimp only
      rw [Prog.meets_bind]
      refine (meets_handleToPath hs' handle).mono ?_
      intro r hr
      cases r with
      | error stat =>
        exact (ih hs' iter').mono fun r hr => ⟨hr.1, fun hnamed => hr.2 (hgrown hnamed)⟩
      | ok p =>
        obtain ⟨ns, hnamed, rfl⟩ := hr p rfl
        have hinside : Inside root (fs'.root.join (ns.foldl PathBuf.push [])) := by
          rw [hs'.root_eq]
          exact (hs'.safeNames hnamed).inside root
        exact ⟨within_one hinside rfl, fun _ => ⟨hs', hgrown⟩⟩

theorem keeps_nextPlus (hs : fs.Safe root) (iter : MirrorFsIterator) :
    Keeps root fs (.ask (.nextPlus iter) .ret) fun _ => True := by
  refine keeps_ask (Prog.meets_bind.mpr ?_)
  exact (meets_nextPlusLoop _ hs iter).mono fun r hr => ⟨hr.1, hr.2, trivial⟩

omit [LawfulSymbolTable T S] in
theorem keeps_drop (hs : fs.Safe root) (iter : MirrorFsIterator) (now : Instant) :
    Keeps root fs (.ask (.drop iter now) .ret) fun _ => True := by
  have hdrop : (fs.drop iter now).root = fs.root ∧ (fs.drop iter now).cache = fs.cache := by
    unfold drop
    split
    · exact ⟨rfl, rfl⟩
    · exact ⟨rfl, rfl⟩
  exact ⟨hs.of_eq hdrop.1 hdrop.2, Grown.of_eq hdrop.2, trivial⟩

/-! ## The operations -/

section ReadingOperations

omit [LawfulSymbolTable T S]

theorem keeps_pathSetattr {p : PathBuf} (hs : fs.Safe root) (hp : Inside root p)
    (setattr : Sattr3) : KeepsOk root fs (pathSetattr p setattr) fun _ => True := by
  have hatime : KeepsOk root fs (setAtime p setattr.atime) fun _ => True := by
    cases setattr.atime with
    | dontChange => exact .pure hs trivial
    | setToServerTime => exact (keeps_at (c := .setFileAtime p none) rfl hp hs).ok.ignore
    | setToClientTime time =>
      exact (keeps_at (c := .setFileAtime p (some time)) rfl hp hs).ok.ignore
  refine hatime.bind fun fs _ hs _ _ => ?_
  have hmtime : KeepsOk root fs (setMtime p setattr.mtime) fun _ => True := by
    cases setattr.mtime with
    | dontChange => exact .pure hs trivial
    | setToServerTime => exact (keeps_at (c := .setFileMtime p none) rfl hp hs).ok.ignore
    | setToClientTime time =>
      exact (keeps_at (c := .setFileMtime p (some time)) rfl hp hs).ok.ignore
  refine hmtime.bind fun fs _ hs _ _ => ?_
  have hmode : KeepsOk root fs (setMode p setattr.mode) fun _ => True := by
    cases setattr.mode with
    | none => exact .pure hs trivial
    | some mode => exact (keeps_at (c := .setPermissions p (modeUnmask mode)) rfl hp hs).ok.ignore
  refine hmode.bind fun fs _ hs _ _ => ?_
  cases setattr.size with
  | none => exact .pure hs trivial
  | some size =>
    refine (keeps_at (c := .openReadWrite p) rfl hp hs).ok.mapErr.bind fun fs file hs _ _ => ?_
    exact (keeps_fd (c := .setLen file size) rfl hs).ok.mapErr

theorem keeps_path_inside (hs : fs.Safe root) (id : FileHandleU64) :
    KeepsOk root fs (path root id) (Inside root) := by
  refine (keeps_path hs id).mono ?_
  intro r hr p hp
  obtain ⟨ns, hnamed, rfl⟩ := hr p hp
  exact (hs.safeNames hnamed).inside root

theorem keeps_getattr (hs : fs.Safe root) (id : FileHandleU64) :
    KeepsOk root fs (getattr root id) fun _ => True := by
  refine (keeps_path_inside hs id).bind fun fs p hs _ hp => ?_
  refine (keeps_at (c := .symlinkMetadata p) rfl hp hs).ok.mapErr.bind fun fs m hs _ _ => ?_
  exact .pure hs trivial

theorem keeps_read (hs : fs.Safe root) (id : FileHandleU64) (offset : UInt64) (count : UInt32) :
    KeepsOk root fs (read root id offset count) fun _ => True := by
  refine (keeps_path_inside hs id).bind fun fs p hs _ hp => KeepsOk.mapErr ?_
  refine (keeps_at (c := .openRead p) rfl hp hs).ok.bind fun fs f hs _ _ => ?_
  refine (keeps_fd (c := .fileLen f) rfl hs).ok.bind fun fs len hs _ _ => ?_
  split_ifs
  · exact .pure hs trivial
  · refine (keeps_fd (c := .readAt f offset _) rfl hs).ok.bind fun fs buf hs _ _ => ?_
    exact .pure hs trivial

theorem keeps_readlink (hs : fs.Safe root) (id : FileHandleU64) :
    KeepsOk root fs (readlink root id) fun _ => True := by
  refine (keeps_path_inside hs id).bind fun fs p hs _ hp => ?_
  refine (keeps_at (c := .readLink p) rfl hp hs).ok.mapErr.bind fun fs target hs _ _ => ?_
  exact .pure hs trivial

theorem keeps_setattr (hs : fs.Safe root) (id : FileHandleU64) (attr : Sattr3) :
    KeepsOk root fs (setattr root id attr) fun _ => True := by
  refine (keeps_path_inside hs id).bind fun fs p hs _ hp => ?_
  exact (keeps_pathSetattr hs hp attr).bind fun fs _ hs _ _ => keeps_getattr hs id

theorem keeps_write (hs : fs.Safe root) (id : FileHandleU64) (offset : UInt64)
    (data : ByteOrder.Bytes) : KeepsOk root fs (write root id offset data) fun _ => True := by
  refine (keeps_path_inside hs id).bind fun fs p hs _ hp => ?_
  refine (keeps_at (c := .symlinkMetadata p) rfl hp hs).ok.mapErr.bind fun fs m hs _ _ => ?_
  split_ifs
  · have hwrite : KeepsOk root fs (do
        let file ← Host.openWrite p
        Host.writeAt file offset data) fun _ => True := by
      refine (keeps_at (c := .openWrite p) rfl hp hs).ok.bind fun fs file hs _ _ => ?_
      exact (keeps_fd (c := .writeAt file offset data) rfl hs).ok
    exact hwrite.mapErr.bind fun fs _ hs _ _ => keeps_getattr hs id
  · exact .throw hs

theorem Admits.grown {id : FileHandleU64} {ns : List OsString} {name : OsString}
    (hnamed : fs.Named id ns) (hgrown : fs.Grown fs') (hadmits : fs.Admits id name) :
    fs'.Admits id name := by
  intro ns' hnamed'
  obtain rfl := (hgrown hnamed).unique hnamed'
  exact hadmits ns hnamed

/-- The path of an admitted name in the directory, which also stays admitted. -/
theorem keeps_path_join {name : OsString} (hs : fs.Safe root) (id : FileHandleU64)
    (hadmits : fs.Admits id name) :
    KeepsOk root fs (path root id) fun p => Inside root (p.join name) ∧
      ∀ fs' : Fs T S, fs.Grown fs' → fs'.Admits id name := by
  refine (keeps_path hs id).mono ?_
  intro r hr p hp
  obtain ⟨ns, hnamed, rfl⟩ := hr p hp
  exact ⟨(hadmits ns hnamed).inside_join root, fun fs' hgrown => hadmits.grown hnamed hgrown⟩

theorem keeps_remove {filename : Filename3} (hs : fs.Safe root) (dirid : FileHandleU64)
    (hadmits : fs.Admits dirid (Filename3.asOsStr filename)) :
    KeepsOk root fs (remove root dirid filename) fun _ => True := by
  refine (keeps_path_join hs dirid hadmits).bind fun fs p hs _ hp => KeepsOk.mapErr ?_
  refine (keeps_at (c := .symlinkMetadata _) rfl hp.1 hs).ok.bind fun fs m hs _ _ => ?_
  split_ifs
  · exact (keeps_at (c := .removeDir _) rfl hp.1 hs).ok
  · exact (keeps_at (c := .removeFile _) rfl hp.1 hs).ok

end ReadingOperations

theorem keeps_create {filename : Filename3} (hs : fs.Safe root) (dirid : FileHandleU64)
    (attr : Sattr3) (hadmits : fs.Admits dirid (Filename3.asOsStr filename)) :
    KeepsOk root fs (create root dirid filename attr) fun _ => True := by
  refine (keeps_path_join hs dirid hadmits).bind fun fs₁ p hs₁ hgrown₁ hp => ?_
  have hcreate : KeepsOk root fs₁ (createSized (p.join (Filename3.asOsStr filename)) attr.size)
      fun _ => True := by
    refine (keeps_at (c := .createFile _) rfl hp.1 hs₁).ok.bind fun fs file hs _ _ => ?_
    cases attr.size with
    | none => exact .pure hs trivial
    | some size => exact (keeps_fd (c := .setLen file size) rfl hs).ok
  refine hcreate.mapErr.bind fun fs₂ _ hs₂ hgrown₂ _ => ?_
  refine (keeps_lookupById hs₂ (hp.2 fs₂ (hgrown₁.trans hgrown₂))).bind fun fs fileId hs _ _ => ?_
  exact (keeps_setattr hs fileId attr).bind fun fs _ hs _ _ => .pure hs trivial

theorem keeps_createExclusive {filename : Filename3} (hs : fs.Safe root) (dirid : FileHandleU64)
    (hadmits : fs.Admits dirid (Filename3.asOsStr filename)) :
    KeepsOk root fs (createExclusive root dirid filename) fun _ => True := by
  refine (keeps_path_join hs dirid hadmits).bind fun fs₁ p hs₁ hgrown₁ hp => ?_
  refine (keeps_at (c := .createNew _) rfl hp.1 hs₁).ok.mapErr.bind fun fs₂ _ hs₂ hgrown₂ _ => ?_
  exact keeps_lookupById hs₂ (hp.2 fs₂ (hgrown₁.trans hgrown₂))

theorem keeps_mkdir {dirname : Filename3} (hs : fs.Safe root) (dirid : FileHandleU64)
    (hadmits : fs.Admits dirid (Filename3.asOsStr dirname)) :
    KeepsOk root fs (mkdir root dirid dirname) fun _ => True := by
  refine (keeps_path_join hs dirid hadmits).bind fun fs₁ p hs₁ hgrown₁ hp => ?_
  refine (keeps_at (c := .createDir _) rfl hp.1 hs₁).ok.mapErr.bind fun fs₂ _ hs₂ hgrown₂ _ => ?_
  refine (keeps_lookupById hs₂ (hp.2 fs₂ (hgrown₁.trans hgrown₂))).bind fun fs id hs _ _ => ?_
  exact (keeps_getattr hs id).bind fun fs _ hs _ _ => .pure hs trivial

theorem keeps_symlink {linkname : Filename3} (hs : fs.Safe root) (dirid : FileHandleU64)
    (target : Nfspath3) (attr : Sattr3) (hadmits : fs.Admits dirid (Filename3.asOsStr linkname)) :
    KeepsOk root fs (symlink root dirid linkname target attr) fun _ => True := by
  refine (keeps_path_join hs dirid hadmits).bind fun fs₁ p hs₁ hgrown₁ hp => ?_
  refine (keeps_at (c := .symlink target.val.data _) rfl hp.1 hs₁).ok.mapErr.bind
    fun fs₂ _ hs₂ hgrown₂ _ => ?_
  refine (keeps_lookupById hs₂ (hp.2 fs₂ (hgrown₁.trans hgrown₂))).bind fun fs id hs _ _ => ?_
  have hattr : KeepsOk root fs (linkSetattr root id attr) fun _ => True := by
    unfold linkSetattr
    split_ifs
    · exact (keeps_setattr hs id attr).ignore
    · exact .pure hs trivial
  refine hattr.bind fun fs _ hs _ _ => ?_
  exact (keeps_getattr hs id).bind fun fs _ hs _ _ => .pure hs trivial

/-- The names of a rename that reach the host: neither is a dot name, the two places differ and
both directories are known. -/
def AdmitsRename (fs : Fs T S) (fromDirid : FileHandleU64) (fromFilename : Filename3)
    (toDirid : FileHandleU64) (toFilename : Filename3) : Prop :=
  Filename3.asOsStr fromFilename ∉ [dot, dotDot] → Filename3.asOsStr toFilename ∉ [dot, dotDot] →
    ¬(fromDirid = toDirid ∧ fromFilename = toFilename) →
      ∀ ns ms, fs.Named fromDirid ns → fs.Named toDirid ms →
        SafeNames (ns ++ [Filename3.asOsStr fromFilename]) ∧
          SafeNames (ms ++ [Filename3.asOsStr toFilename])

omit [LawfulSymbolTable T S] in
theorem keeps_checkTarget {p : PathBuf} (hs : fs.Safe root) (hp : Inside root p)
    (fromMetadata : Metadata) (toMetadata : IoResult Metadata) :
    KeepsOk root fs (checkTarget fromMetadata p toMetadata) fun _ => True := by
  cases toMetadata with
  | error kind => exact .pure hs trivial
  | ok toMetadata =>
    rw [checkTarget]
    split_ifs
    · exact .throw hs
    · refine (keeps_at (c := .readDir p) rfl hp hs).ok.mapErr.bind fun fs readDir hs _ _ => ?_
      split
      · exact .pure hs trivial
      · exact .throw hs
      · exact .throw hs
    · exact .pure hs trivial

theorem keeps_rename {fromDirid toDirid : FileHandleU64} {fromFilename toFilename : Filename3}
    (hs : fs.Safe root) (hadmits : fs.AdmitsRename fromDirid fromFilename toDirid toFilename) :
    KeepsOk root fs (rename root fromDirid fromFilename toDirid toFilename) fun _ => True := by
  rw [rename]
  refine iteInduction (motive := fun m => KeepsOk root fs m fun _ => True)
    (fun _ => .throw hs) fun hdots => ?_
  refine keeps_path_bind hs fun ns hns => keeps_path_bind hs fun ms hms => ?_
  refine iteInduction (motive := fun m => KeepsOk root fs m fun _ => True)
    (fun _ => .pure hs trivial) fun hsame => ?_
  obtain ⟨hfrom, hto⟩ := hadmits (by simp_all) (by simp_all) hsame ns ms hns hms
  have hfromPath := hfrom.inside_join root
  have htoPath := hto.inside_join root
  refine (keeps_at (c := .symlinkMetadata _) rfl hfromPath hs).ok.mapErr.bind
    fun fs₁ fromMetadata hs₁ hgrown₁ _ => ?_
  refine (keeps_at (c := .symlinkMetadata _) rfl htoPath hs₁).ok.attempt.bind
    fun fs₂ toMetadata hs₂ hgrown₂ _ => ?_
  refine (keeps_checkTarget hs₂ htoPath fromMetadata toMetadata).bind
    fun fs₃ _ hs₃ hgrown₃ _ => ?_
  refine (keeps_call (c := .rename _ _) ?_ hs₃).ok.mapErr.bind fun fs₄ _ hs₄ hgrown₄ _ => ?_
  · intro q hq
    rcases List.mem_cons.mp hq with rfl | hq
    · exact hfromPath
    · obtain rfl := List.mem_singleton.mp hq
      exact htoPath
  -- both directories keep their names, so the names stay admitted
  have hgrown : fs.Grown fs₄ := hgrown₁.trans (hgrown₂.trans (hgrown₃.trans hgrown₄))
  have hadmitsFrom : fs.Admits fromDirid (Filename3.asOsStr fromFilename) :=
    fun ns' hns' => hns.unique hns' ▸ hfrom
  have hadmitsTo : fs.Admits toDirid (Filename3.asOsStr toFilename) :=
    fun ms' hms' => hms.unique hms' ▸ hto
  refine (keeps_lookupById hs₄ (hadmitsFrom.grown hns hgrown)).ignore.bind
    fun fs₅ _ hs₅ hgrown₅ _ => ?_
  exact (keeps_lookupById hs₅ (hadmitsTo.grown hms (hgrown.trans hgrown₅))).ignore

/-! ## Every run -/

/-- The names of a path that are looked up one after the other. -/
def pathNames (path : String) : List OsString :=
  ((path.splitOn "/").filter fun component => !component.isEmpty).map fun component =>
    Filename3.asOsStr (.ofString component)

/-- The condition on a request: the names it brings are safe where they are used. -/
def Admissible (fs : Fs T S) :
    VfsCall FileHandleU64 MirrorFsIterator MirrorFsIterator → Prop
  | .lookup dirid filename | .create dirid filename _ | .createExclusive dirid filename _
  | .mkdir dirid filename | .remove dirid filename | .symlink dirid filename _ _ =>
    fs.Admits dirid (Filename3.asOsStr filename)
  | .rename fromDirid fromFilename toDirid toFilename =>
    fs.AdmitsRename fromDirid fromFilename toDirid toFilename
  | .lookupByPath path => SafeNames (pathNames path)
  | _ => True

theorem keeps_lookupComponents {dirid : FileHandleU64} {ns : List OsString}
    {components : List String} (hs : fs.Safe root) (hnamed : fs.Named dirid ns)
    (hsafe : SafeNames (ns ++ (components.filter fun c => !c.isEmpty).map fun c =>
      Filename3.asOsStr (.ofString c))) :
    Keeps root fs (lookupComponents (κ := FsCall) lookup dirid components) fun _ => True := by
  induction components generalizing fs dirid ns with
  | nil => exact .ret hs trivial
  | cons component components ih =>
    rw [lookupComponents]
    refine iteInduction (motive := fun m => Keeps root fs m fun _ => True) ?_ ?_
    · intro hempty
      exact ih hs hnamed (by simpa [hempty] using hsafe)
    · intro hempty
      have hcons : SafeNames ((ns ++ [Filename3.asOsStr (.ofString component)]) ++
          (components.filter fun c => !c.isEmpty).map fun c =>
            Filename3.asOsStr (.ofString c)) := by
        rw [List.filter_cons_of_pos (by simpa using hempty)] at hsafe
        simpa using hsafe
      exact keeps_lookup_bind hs hnamed hcons.of_append (fun fs' stat hs' => .ret hs' trivial)
        fun fs' id hs' hnamed' => ih hs' hnamed' hcons

omit [LawfulSymbolTable T S] in
theorem Safe.named_root (hs : fs.Safe root) : fs.Named SymbolsCache.rootId [] :=
  ⟨.new, (hs.sound.inverse _ _).mp hs.sound.root, rfl⟩

/-- One request, one case for each method. -/
theorem keeps_serve (hs : fs.Safe root) (now : Instant)
    (c : VfsCall FileHandleU64 MirrorFsIterator MirrorFsIterator) (hc : fs.Admissible c) :
    Keeps root fs (serve root now c) fun _ => True := by
  have hok : ∀ {ε α : Type} {m : ExceptT ε FsProg α},
      KeepsOk root fs m (fun _ => True) → Keeps root fs m.run fun _ => True :=
    fun h => Keeps.mono h fun _ _ => trivial
  cases c with
  | rootDir => exact .ret hs trivial
  | lookup dirid filename => exact hok (keeps_lookupById hs hc)
  | lookupByPath path => exact keeps_lookupComponents hs hs.named_root hc
  | getattr id => exact hok (keeps_getattr hs id)
  | read id offset count => exact hok (keeps_read hs id offset count)
  | readdir dirid cookie => exact keeps_getOrCreateIterator hs dirid cookie
  | readdirNext iter => exact keeps_next hs iter
  | readdirDrop iter => exact keeps_drop hs iter now
  | readdirplus dirid cookie => exact keeps_getOrCreateIterator hs dirid cookie
  | readdirplusNext iter => exact keeps_nextPlus hs iter
  | readdirplusDrop iter => exact keeps_drop hs iter now
  | readlink id => exact hok (keeps_readlink hs id)
  | fsinfo rootFileid =>
    exact Keeps.bind (keeps_getattr hs rootFileid) fun fs _ hs _ _ => .ret hs trivial
  | capabilities => exact .ret hs trivial
  | setattr id attr => exact hok (keeps_setattr hs id attr)
  | write id offset data => exact hok (keeps_write hs id offset data)
  | create dirid filename attr => exact hok (keeps_create hs dirid attr hc)
  | createExclusive dirid filename _ => exact hok (keeps_createExclusive hs dirid hc)
  | mkdir dirid dirname => exact hok (keeps_mkdir hs dirid hc)
  | remove dirid filename => exact hok (keeps_remove hs dirid hc)
  | rename fromDirid fromFilename toDirid toFilename => exact hok (keeps_rename hs hc)
  | symlink dirid linkname target attr => exact hok (keeps_symlink hs dirid target attr hc)

theorem meets_handle (hs : fs.Safe root) (now : Instant)
    (c : VfsCall FileHandleU64 MirrorFsIterator MirrorFsIterator) (hc : fs.Admissible c) :
    (fs.handle now c).Meets (Within root) fun r => r.2.Safe root := by
  rw [handle, hs.root_eq]
  exact Prog.Meets.mono (keeps_serve hs now c hc) fun r hr => hr.1

omit [LawfulSymbolTable T S] in
theorem safe_new (root : PathBuf) (retentionPeriod : ℕ) (maxCachedPerDir : UInt16) :
    (Fs.new root retentionPeriod maxCachedPerDir : Fs T S).Safe root where
  root_eq := rfl
  cacheRoot_eq := rfl
  sound := (Session.valid_new root).sound
  safeNames := by
    rintro id ns ⟨path, hid, hns⟩
    have hpath := ((Session.valid_new (T := T) root).sound.inverse path id).mpr hid
    obtain ⟨rfl, -⟩ := (Session.lookup_root_singleton id path).mp hpath
    obtain rfl := Option.some.inj (hns.symm.trans (rfl : _ = some []))
    exact .nil

/-- A request that satisfies `A` is served, with some answers of the host, or the cleaner
runs. -/
inductive Step (A : Fs T S → VfsCall FileHandleU64 MirrorFsIterator MirrorFsIterator → Prop) :
    Fs T S → Fs T S → Prop
  | request {fs fs' : Fs T S} {now : Instant}
      {c : VfsCall FileHandleU64 MirrorFsIterator MirrorFsIterator} {r : c.Reply}
      (admitted : A fs c) (ends : (fs.handle now c).Ends (r, fs')) : Step A fs fs'
  | cleanup (fs : Fs T S) (now : Instant) :
      Step A fs { fs with iteratorCache := fs.iteratorCache.cleanup now }

theorem safe_of_run {retentionPeriod : ℕ} {maxCachedPerDir : UInt16}
    (hrun : Relation.ReflTransGen (Step Admissible) (Fs.new root retentionPeriod maxCachedPerDir)
      fs) : fs.Safe root := by
  induction hrun with
  | refl => exact safe_new root _ _
  | tail _ hstep ih =>
    cases hstep with
    | request hadmitted hends => exact (meets_handle ih _ _ hadmitted).ends hends
    | cleanup now => exact ih.of_eq rfl rfl

/-- In every run whose requests bring safe names only, every host path of every request is
inside the root, whatever the host answers. -/
theorem mirror_confined {retentionPeriod : ℕ} {maxCachedPerDir : UInt16}
    (hrun : Relation.ReflTransGen (Step Admissible) (Fs.new root retentionPeriod maxCachedPerDir)
      fs) (now : Instant) (c : VfsCall FileHandleU64 MirrorFsIterator MirrorFsIterator)
    (hc : fs.Admissible c) :
    (fs.handle now c).Meets (fun call => ∀ p ∈ call.paths, Inside root p) fun _ => True :=
  Prog.Meets.mono (meets_handle (safe_of_run hrun) now c hc) fun _ _ => trivial

theorem mirror_confined_lookup :
    ((Fs.new [sep, 0x72] 60 20 : Fs ListTable ℕ).handle 0 (.lookup 1 ⟨⟨[0x61]⟩⟩)).Meets
      (fun call => ∀ p ∈ call.paths, Inside [sep, 0x72] p) fun _ => True := by
  refine mirror_confined (T := ListTable) (S := ℕ) .refl 0 (.lookup 1 ⟨⟨[0x61]⟩⟩) ?_
  intro ns hnamed
  obtain rfl := hnamed.unique (safe_new [sep, 0x72] 60 20).named_root
  exact ⟨by decide, rfl⟩

/-- A lookup of `..` in the new mirror of `/r`: the host is asked about `/r/..`. -/
theorem mirror_lookup_climbs :
    ¬∀ fs : Fs ListTable ℕ, Relation.ReflTransGen (Step fun _ _ => True) (Fs.new [sep, 0x72] 60 20)
      fs → ∀ now c, (fs.handle now c).Meets (fun call => ∀ p ∈ call.paths, Inside [sep, 0x72] p)
        fun _ => True := by
  intro hall
  have hmeets := hall _ .refl 0 (.lookup 1 ⟨⟨[0x2e, 0x2e]⟩⟩)
  have hasked : Inside [sep, 0x72] [sep, 0x72, sep, 0x2e, 0x2e] :=
    (hmeets.2 true).1 _ List.mem_cons_self
  obtain ⟨rest, hsegments, hbelow⟩ := hasked.segments_eq
  have hroot : segments [sep, 0x72] = [[0x72]] := by decide
  have hpath : segments [sep, 0x72, sep, 0x2e, 0x2e] = [[0x72], [0x2e, 0x2e]] := by decide
  rw [hroot, hpath] at hsegments
  obtain rfl : rest = [[0x2e, 0x2e]] := (List.cons.inj hsegments).2.symm
  exact LexicalPath.not_neverClimbs_cons [] hbelow

end Fs

end Nfs3.Mirror
