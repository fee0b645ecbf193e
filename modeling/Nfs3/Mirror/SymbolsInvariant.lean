import Mathlib.Logic.Relation
import Nfs3.Mirror.SymbolsCache

/-!
# The invariant of the symbols cache

The two maps are inverse to each other and hold the root, every prefix of a stored path is
stored, and the symbols of stored paths can be resolved. All of it is kept by every call, with
whatever the host answers to the existence tests.

A caller can only pass a `SymbolsPath` that it got from the cache before; the sessions below
remember which ones were given out.
-/
namespace Nfs3.Mirror

open Interaction (Prog)

variable {T S : Type} [SymbolTable T S]

section Names

variable {t t' : T} {name : OsString} {symbol : S} {path : SymbolsPath S} {ns : List OsString}

theorem names_of_kept (h : ∀ symbol name, SymbolTable.get t symbol = some name →
      SymbolTable.get t' symbol = some name)
    (hns : names t path = some ns) : names t' path = some ns := by
  obtain ⟨symbols⟩ := path
  unfold names at hns ⊢
  dsimp only at hns ⊢
  induction symbols generalizing ns with
  | nil => exact hns
  | cons s symbols ih =>
    rw [List.mapM_cons] at hns ⊢
    obtain ⟨n, hn, hrest⟩ := Option.bind_eq_some_iff.mp hns
    obtain ⟨rest, hmap, hcons⟩ := Option.bind_eq_some_iff.mp hrest
    rw [h s n hn, ih hmap]
    exact hcons

theorem names_intern [LawfulSymbolTable T S] (h : SymbolTable.intern t name = some (symbol, t'))
    (hns : names t path = some ns) : names t' path = some ns :=
  names_of_kept (fun _ _ hget => LawfulSymbolTable.stable h hget) hns

theorem names_join (hns : names t path = some ns) (h : SymbolTable.get t symbol = some name) :
    names t (path.join symbol) = some (ns ++ [name]) := by
  unfold names at hns ⊢
  rw [SymbolsPath.join, List.mapM_append, hns, List.mapM_cons, List.mapM_nil, h]
  rfl

end Names

variable [DecidableEq S]

theorem SymbolsPath.join_inj_left {S : Type} {path path' : SymbolsPath S} {symbol symbol' : S}
    (h : path.join symbol = path'.join symbol') : path = path' := by
  have hsymbols := congrArg SymbolsPath.symbols h
  obtain ⟨hinit, -⟩ := List.append_inj' hsymbols rfl
  cases path
  cases path'
  exact congrArg SymbolsPath.mk hinit

namespace SymbolsCacheInner

variable {root : PathBuf} {inner inner' : SymbolsCacheInner T S} {parent : SymbolsPath S}
  {name : OsString} {checkPath : Bool} {id : FileHandleU64} {path : SymbolsPath S}
  {r : Except Nfsstat3 FileHandleU64}

/-- What the fields of the cache have to do with each other. -/
structure Consistent (inner : SymbolsCacheInner T S) : Prop where
  inverse : ∀ path id, inner.pathToId.lookup path = some id ↔ inner.idToPath.lookup id = some path
  root : inner.pathToId.lookup .new = some SymbolsCache.rootId
  below : ∀ path id, inner.pathToId.lookup path = some id → id < inner.nextId
  parent : ∀ path symbol id, inner.pathToId.lookup (path.join symbol) = some id →
    ∃ parentId, inner.pathToId.lookup path = some parentId
  resolves : ∀ path id, inner.pathToId.lookup path = some id →
    ∃ ns, names inner.symbols path = some ns

/-- The counter also counts the entries, and so does not wrap around. -/
structure Sound (inner : SymbolsCacheInner T S) : Prop extends Consistent inner where
  counted : inner.nextId.toNat = inner.pathToId.entries.length + 1
  bounded : inner.pathToId.entries.length ≤ maxEntries

/-- What a lookup that returns has done: the name is interned, and then the path was known, or
it was refused, or it is entered under the next handle. -/
inductive Looked (inner : SymbolsCacheInner T S) (parent : SymbolsPath S) (name : OsString)
    (checkPath : Bool) : Except Nfsstat3 FileHandleU64 → SymbolsCacheInner T S → Prop
  | known {symbol : S} {symbols : T} {id : FileHandleU64}
      (intern : SymbolTable.intern inner.symbols name = some (symbol, symbols))
      (lookup : inner.pathToId.lookup (parent.join symbol) = some id) :
      Looked inner parent name checkPath (.ok id) { inner with symbols }
  | refused {symbol : S} {symbols : T} (stat : Nfsstat3)
      (intern : SymbolTable.intern inner.symbols name = some (symbol, symbols))
      (lookup : inner.pathToId.lookup (parent.join symbol) = none) :
      Looked inner parent name checkPath (.error stat) { inner with symbols }
  | entered {symbol : S} {symbols : T}
      (intern : SymbolTable.intern inner.symbols name = some (symbol, symbols))
      (lookup : inner.pathToId.lookup (parent.join symbol) = none)
      (room : inner.pathToId.entries.length < maxEntries) :
      Looked inner parent name checkPath (.ok inner.nextId)
        (insertItem { inner with symbols } (parent.join symbol))

theorem looked_of_ends (h : (inner.lookup root parent name checkPath).Ends (r, inner')) :
    Looked inner parent name checkPath r inner' := by
  unfold lookup at h
  split at h
  · cases h
  rename_i symbol symbols hintern
  dsimp only at h
  split at h
  · rename_i id hlookup
    cases h
    exact .known hintern hlookup
  rename_i hlookup
  -- whatever the tests of the path do, their result leads to one of the two remaining cases
  obtain ⟨result, -, h⟩ := Prog.ends_bind.mp h
  cases result with
  | error stat =>
    cases h
    exact .refused stat hintern hlookup
  | ok _ =>
    dsimp only at h
    split_ifs at h with hroom
    · cases h
      exact .entered hintern hlookup hroom
    · cases h

theorem Consistent.unique (h : inner.Consistent) {path' : SymbolsPath S}
    (hpath : inner.pathToId.lookup path = some id)
    (hpath' : inner.pathToId.lookup path' = some id) :
    path = path' := by
  rw [h.inverse] at hpath hpath'
  exact Option.some.inj (hpath.symm.trans hpath')

/-- Interning alone changes neither map. -/
theorem Sound.intern [LawfulSymbolTable T S] (h : inner.Sound) {symbol : S} {symbols : T}
    (hintern : SymbolTable.intern inner.symbols name = some (symbol, symbols)) :
    Sound { inner with symbols } where
  inverse := h.inverse
  root := h.root
  below := h.below
  parent := h.parent
  resolves path id hpath := by
    obtain ⟨ns, hns⟩ := h.resolves path id hpath
    exact ⟨ns, names_intern hintern hns⟩
  counted := h.counted
  bounded := h.bounded

theorem Sound.nextId_fresh (h : inner.Sound) : inner.idToPath.lookup inner.nextId = none := by
  rw [Option.eq_none_iff_forall_ne_some]
  intro path hpath
  exact UInt64.lt_irrefl _ (h.below path _ ((h.inverse path _).mpr hpath))

theorem Sound.nextId_lt (h : inner.Sound) : inner.nextId < inner.nextId + 1 := by
  have hcount := h.counted
  have hbound := h.bounded
  rw [UInt64.lt_iff_toNat_lt, UInt64.toNat_add, UInt64.toNat_one]
  unfold maxEntries at hbound
  omega

section InsertItem

omit [SymbolTable T S]

theorem pathToId_insertItem (item path : SymbolsPath S) :
    (inner.insertItem item).pathToId.lookup path =
      if path = item then some inner.nextId else inner.pathToId.lookup path := by
  split_ifs with hpath
  · rw [hpath]
    exact AList.lookup_insert _
  · exact AList.lookup_insert_ne hpath

theorem idToPath_insertItem (item : SymbolsPath S) (id : FileHandleU64) :
    (inner.insertItem item).idToPath.lookup id =
      if id = inner.nextId then some item else inner.idToPath.lookup id := by
  split_ifs with hid
  · rw [hid]
    exact AList.lookup_insert _
  · exact AList.lookup_insert_ne hid

/-- A path that is stored is not the one that is entered. -/
theorem pathToId_insertItem_of_some {item : SymbolsPath S}
    (hitem : inner.pathToId.lookup item = none) (hpath : inner.pathToId.lookup path = some id) :
    (inner.insertItem item).pathToId.lookup path = some id := by
  rw [pathToId_insertItem, if_neg, hpath]
  rintro rfl
  cases hitem.symm.trans hpath

theorem pathToId_insertItem_cases {item : SymbolsPath S}
    (h : (inner.insertItem item).pathToId.lookup path = some id) :
    (path = item ∧ id = inner.nextId) ∨ inner.pathToId.lookup path = some id := by
  rw [pathToId_insertItem] at h
  split_ifs at h with hnew
  · exact Or.inl ⟨hnew, (Option.some.inj h).symm⟩
  · exact Or.inr h

theorem length_insertItem {item : SymbolsPath S} (hitem : inner.pathToId.lookup item = none) :
    (inner.insertItem item).pathToId.entries.length = inner.pathToId.entries.length + 1 := by
  rw [insertItem, AList.entries_insert_of_notMem (AList.lookup_eq_none.mp hitem)]
  rfl

end InsertItem

/-- A path whose parent is stored can be entered. -/
theorem Sound.insertItem (h : inner.Sound) {symbol : S} {parentId : FileHandleU64}
    (hparent : inner.pathToId.lookup parent = some parentId)
    (hsymbol : SymbolTable.get inner.symbols symbol = some name)
    (hitem : inner.pathToId.lookup (parent.join symbol) = none)
    (hroom : inner.pathToId.entries.length < maxEntries) :
    Sound (inner.insertItem (parent.join symbol)) where
  inverse path id := by
    rw [pathToId_insertItem, idToPath_insertItem]
    have hfresh := h.nextId_fresh
    have hiff := h.inverse path id
    split_ifs with hpath hid hid
    · simp [hpath, hid]
    · subst hpath
      rw [← h.inverse, hitem]
      simp [Ne.symm hid]
    · subst hid
      rw [hiff, hfresh]
      simp [Ne.symm hpath]
    · exact hiff
  root := pathToId_insertItem_of_some hitem h.root
  below path id hpath := by
    rcases pathToId_insertItem_cases hpath with ⟨-, rfl⟩ | hpath
    · exact h.nextId_lt
    · exact UInt64.lt_trans (h.below path id hpath) h.nextId_lt
  parent path symbol' id hpath := by
    rcases pathToId_insertItem_cases hpath with ⟨hjoin, -⟩ | hpath
    · rw [SymbolsPath.join_inj_left hjoin]
      exact ⟨parentId, pathToId_insertItem_of_some hitem hparent⟩
    · obtain ⟨pid, hpid⟩ := h.parent path symbol' id hpath
      exact ⟨pid, pathToId_insertItem_of_some hitem hpid⟩
  resolves path id hpath := by
    rcases pathToId_insertItem_cases hpath with ⟨rfl, -⟩ | hpath
    · obtain ⟨ns, hns⟩ := h.resolves parent parentId hparent
      exact ⟨ns ++ [name], names_join hns hsymbol⟩
    · exact h.resolves path id hpath
  counted := by
    have hcount := h.counted
    have hbound := h.bounded
    rw [length_insertItem hitem]
    change (inner.nextId + 1).toNat = _
    rw [UInt64.toNat_add, UInt64.toNat_one]
    unfold maxEntries at hbound hroom
    omega
  bounded := by
    rw [length_insertItem hitem]
    exact hroom

/-- Nothing that was stored is lost or changed. -/
structure Extends (inner inner' : SymbolsCacheInner T S) : Prop where
  pathToId : ∀ path id, inner.pathToId.lookup path = some id →
    inner'.pathToId.lookup path = some id
  symbols : ∀ symbol name, SymbolTable.get inner.symbols symbol = some name →
    SymbolTable.get inner'.symbols symbol = some name

theorem Extends.refl (inner : SymbolsCacheInner T S) : Extends inner inner :=
  ⟨fun _ _ h => h, fun _ _ h => h⟩

theorem Extends.trans {inner'' : SymbolsCacheInner T S} (h : Extends inner inner')
    (h' : Extends inner' inner'') : Extends inner inner'' :=
  ⟨fun path id hp => h'.pathToId path id (h.pathToId path id hp),
    fun symbol name hs => h'.symbols symbol name (h.symbols symbol name hs)⟩

theorem Looked.error {stat : Nfsstat3}
    (h : Looked inner parent name checkPath (.error stat) inner') :
    inner'.pathToId = inner.pathToId ∧ inner'.idToPath = inner.idToPath := by
  cases h
  exact ⟨rfl, rfl⟩

variable [LawfulSymbolTable T S]

theorem Looked.sound (h : Looked inner parent name checkPath r inner') (hs : inner.Sound)
    {parentId : FileHandleU64} (hparent : inner.pathToId.lookup parent = some parentId) :
    inner'.Sound := by
  cases h with
  | known hintern _ => exact hs.intern hintern
  | refused stat hintern _ => exact hs.intern hintern
  | entered hintern hlookup hroom =>
    exact (hs.intern hintern).insertItem hparent
      (LawfulSymbolTable.get_intern hintern) hlookup hroom

theorem Looked.extends (h : Looked inner parent name checkPath r inner') :
    Extends inner inner' := by
  have hsymbols : ∀ {symbol : S} {symbols : T},
      SymbolTable.intern inner.symbols name = some (symbol, symbols) →
        Extends inner { inner with symbols } :=
    fun hintern => ⟨fun _ _ hp => hp, fun _ _ hg => LawfulSymbolTable.stable hintern hg⟩
  cases h with
  | known hintern _ => exact hsymbols hintern
  | refused stat hintern _ => exact hsymbols hintern
  | @entered symbol symbols hintern hlookup hroom =>
    refine ⟨?_, (hsymbols hintern).symbols⟩
    intro path id hpath
    exact pathToId_insertItem_of_some hlookup hpath

/-- A handle that a lookup returned is the one of a stored path that ends in the name. -/
theorem Looked.stored (h : Looked inner parent name checkPath (.ok id) inner') :
    ∃ symbol, SymbolTable.get inner'.symbols symbol = some name ∧
      inner'.pathToId.lookup (parent.join symbol) = some id := by
  cases h with
  | known hintern hlookup => exact ⟨_, LawfulSymbolTable.get_intern hintern, hlookup⟩
  | entered hintern hlookup hroom =>
    exact ⟨_, LawfulSymbolTable.get_intern hintern, AList.lookup_insert _⟩

/-- Looking a stored path up again asks the host nothing and gives the same handle. -/
theorem lookup_of_stored {symbol : S} (hget : SymbolTable.get inner.symbols symbol = some name)
    (hlookup : inner.pathToId.lookup (parent.join symbol) = some id) :
    inner.lookup root parent name checkPath = .ret (.ok id, inner) := by
  unfold lookup
  rw [LawfulSymbolTable.intern_of_get hget]
  dsimp only
  rw [hlookup]

end SymbolsCacheInner

/-! ## Sessions -/

/-- The cache and the paths its callers hold. -/
structure Session (T S : Type) [DecidableEq S] where
  cache : SymbolsCache T S
  held : List (SymbolsPath S)

inductive CacheOp (S : Type)
  | symbolsPath (id : FileHandleU64)
  | handleToPath (id : FileHandleU64)
  | lookupById (parentId : FileHandleU64) (name : OsString) (checkPath : Bool)
  | lookup (parent : SymbolsPath S) (name : OsString) (checkPath : Bool)

inductive CacheReply (S : Type)
  | symbolsPath (r : Except Nfsstat3 (SymbolsPath S))
  | handleToPath (r : Except Nfsstat3 PathBuf)
  | lookup (r : Except Nfsstat3 FileHandleU64)

namespace Session

def new (root : PathBuf) : Session T S := ⟨.new root, []⟩

/-- A call on the cache. A caller has no path that it was not given. -/
def exec (s : Session T S) : CacheOp S → HostM (CacheReply S × Session T S)
  | .symbolsPath id =>
    match s.cache.symbolsPath id with
    | .ok path => .ret (.symbolsPath (.ok path), { s with held := path :: s.held })
    | .error stat => .ret (.symbolsPath (.error stat), s)
  | .handleToPath id => (s.cache.handleToPath id).bind fun r => .ret (.handleToPath r, s)
  | .lookupById parentId name checkPath =>
    (s.cache.lookupById parentId name checkPath).bind fun (r, cache) =>
      .ret (.lookup r, { s with cache })
  | .lookup parent name checkPath =>
    if parent ∈ s.held then
      (s.cache.lookup parent name checkPath).bind fun (r, cache) =>
        .ret (.lookup r, { s with cache })
    else .halt

/-- Some call, with some answers of the host, leads from one session to the other. -/
def Step (s s' : Session T S) : Prop := ∃ op reply, (s.exec op).Ends (reply, s')

/-- The invariant: the cache is sound and whoever holds a path holds a stored one. -/
structure Valid (s : Session T S) : Prop where
  sound : s.cache.inner.Sound
  held : ∀ path ∈ s.held, ∃ id, s.cache.inner.pathToId.lookup path = some id

/-- What no call takes back. -/
structure Later (s s' : Session T S) : Prop where
  grown : s.cache.inner.Extends s'.cache.inner
  held : ∀ path ∈ s.held, path ∈ s'.held

variable {s s' s'' : Session T S}

theorem Later.refl (s : Session T S) : Later s s := ⟨.refl _, fun _ h => h⟩

theorem Later.trans (h : Later s s') (h' : Later s' s'') : Later s s'' :=
  ⟨h.grown.trans h'.grown, fun path hp => h'.held path (h.held path hp)⟩

omit [SymbolTable T S] in
theorem lookup_root_singleton (id : FileHandleU64) (path : SymbolsPath S) :
    (AList.insert (β := fun _ : SymbolsPath S => FileHandleU64) .new SymbolsCache.rootId ∅).lookup
      path = some id ↔ path = .new ∧ id = SymbolsCache.rootId := by
  by_cases hpath : path = .new
  · subst hpath
    rw [AList.lookup_insert]
    simp [eq_comm]
  · rw [AList.lookup_insert_ne hpath]
    simp [hpath]

theorem valid_new (root : PathBuf) : (new root : Session T S).Valid := by
  have hpaths := lookup_root_singleton (S := S)
  have hids : ∀ (id : FileHandleU64) (path : SymbolsPath S),
      (AList.insert (β := fun _ : FileHandleU64 => SymbolsPath S) SymbolsCache.rootId .new ∅).lookup
        id = some path ↔ path = .new ∧ id = SymbolsCache.rootId := by
    intro id path
    by_cases hid : id = SymbolsCache.rootId
    · subst hid
      rw [AList.lookup_insert]
      simp [eq_comm]
    · rw [AList.lookup_insert_ne hid]
      simp [hid]
  constructor
  · refine { inverse := ?_, root := ?_, below := ?_, parent := ?_, resolves := ?_, counted := rfl,
             bounded := ?_ }
    · intro path id
      exact (hpaths id path).trans (hids id path).symm
    · exact AList.lookup_insert _
    · intro path id hpath
      obtain ⟨-, rfl⟩ := (hpaths id path).mp hpath
      change SymbolsCache.rootId < SymbolsCache.rootId + 1
      decide
    · intro path symbol id hpath
      obtain ⟨hjoin, -⟩ := (hpaths id _).mp hpath
      have hsymbols := congrArg SymbolsPath.symbols hjoin
      simp [SymbolsPath.join, SymbolsPath.new] at hsymbols
    · intro path id hpath
      obtain ⟨rfl, -⟩ := (hpaths id path).mp hpath
      exact ⟨[], rfl⟩
    · change 1 ≤ maxEntries
      decide
  · intro path hpath
    cases hpath

theorem looked_of_lookup {cache cache' : SymbolsCache T S} {parent : SymbolsPath S}
    {name : OsString} {checkPath : Bool} {r : Except Nfsstat3 FileHandleU64}
    (h : (cache.lookup parent name checkPath).Ends (r, cache')) :
    SymbolsCacheInner.Looked cache.inner parent name checkPath r cache'.inner := by
  obtain ⟨⟨r₁, inner⟩, hinner, heq⟩ := Prog.ends_bind.mp h
  cases heq
  exact SymbolsCacheInner.looked_of_ends hinner

/-- A call that reads gives back the session, with one more path held; a lookup changes the
cache as `Looked` says, under a path that is stored. -/
inductive Executed (s : Session T S) : CacheOp S → CacheReply S → Session T S → Prop
  | read (op : CacheOp S) (reply : CacheReply S) (hreply : ∀ r, reply ≠ .lookup r) :
      Executed s op reply s
  | gave (id : FileHandleU64) {path : SymbolsPath S}
      (path_eq : s.cache.inner.idToPath.lookup id = some path) :
      Executed s (.symbolsPath id) (.symbolsPath (.ok path)) { s with held := path :: s.held }
  | badHandle (parentId : FileHandleU64) (name : OsString) (checkPath : Bool) :
      Executed s (.lookupById parentId name checkPath) (.lookup (.error .nfs3errBadhandle)) s
  | lookedById {parentId : FileHandleU64} {name : OsString} {checkPath : Bool}
      {parent : SymbolsPath S} {r : Except Nfsstat3 FileHandleU64} {cache : SymbolsCache T S}
      (parent_eq : s.cache.inner.idToPath.lookup parentId = some parent)
      (looked : s.cache.inner.Looked parent name checkPath r cache.inner) :
      Executed s (.lookupById parentId name checkPath) (.lookup r) { s with cache }
  | looked {name : OsString} {checkPath : Bool} {parent : SymbolsPath S}
      {r : Except Nfsstat3 FileHandleU64} {cache : SymbolsCache T S} (held : parent ∈ s.held)
      (looked : s.cache.inner.Looked parent name checkPath r cache.inner) :
      Executed s (.lookup parent name checkPath) (.lookup r) { s with cache }

theorem executed_of_ends {op : CacheOp S} {reply : CacheReply S}
    (h : (s.exec op).Ends (reply, s')) : Executed s op reply s' := by
  cases op with
  | symbolsPath id =>
    simp only [exec, SymbolsCache.symbolsPath] at h
    cases hpath : s.cache.inner.idToPath.lookup id with
    | none =>
      rw [hpath] at h
      cases h
      exact .read _ _ fun r => by simp
    | some path =>
      rw [hpath] at h
      cases h
      exact .gave id hpath
  | handleToPath id =>
    obtain ⟨r, -, heq⟩ := Prog.ends_bind.mp h
    cases heq
    exact .read _ _ fun r => by simp
  | lookupById parentId name checkPath =>
    obtain ⟨⟨r, cache⟩, hlookup, heq⟩ := Prog.ends_bind.mp h
    cases heq
    simp only [SymbolsCache.lookupById, SymbolsCache.symbolsPath] at hlookup
    cases hparent : s.cache.inner.idToPath.lookup parentId with
    | none =>
      rw [hparent] at hlookup
      cases hlookup
      exact .badHandle parentId name checkPath
    | some parent =>
      rw [hparent] at hlookup
      exact .lookedById hparent (looked_of_lookup hlookup)
  | lookup parent name checkPath =>
    simp only [exec] at h
    split_ifs at h with hheld
    · obtain ⟨⟨r, cache⟩, hlookup, heq⟩ := Prog.ends_bind.mp h
      cases heq
      exact .looked hheld (looked_of_lookup hlookup)
    · cases h

theorem Valid.idToPath_later (hv : s.Valid) (hv' : s'.Valid) (h : Later s s') {id : FileHandleU64}
    {path : SymbolsPath S} (hpath : s.cache.inner.idToPath.lookup id = some path) :
    s'.cache.inner.idToPath.lookup id = some path := by
  have hstored := h.grown.pathToId path id ((hv.sound.inverse path id).mpr hpath)
  exact (hv'.sound.inverse path id).mp hstored

theorem Valid.resolves (hv : s.Valid) {path : SymbolsPath S} {id : FileHandleU64}
    (hpath : s.cache.inner.pathToId.lookup path = some id) :
    ∃ p, resolvePath s.cache.inner.symbols path = some p := by
  obtain ⟨ns, hns⟩ := hv.sound.resolves path id hpath
  exact ⟨ns.foldl PathBuf.push [], by rw [resolvePath, hns]; rfl⟩

theorem Executed.error_unchanged {op : CacheOp S} {stat : Nfsstat3}
    (h : Executed s op (.lookup (.error stat)) s') :
    s'.cache.inner.pathToId = s.cache.inner.pathToId ∧
      s'.cache.inner.idToPath = s.cache.inner.idToPath := by
  cases h with
  | read => exact ⟨rfl, rfl⟩
  | badHandle => exact ⟨rfl, rfl⟩
  | lookedById _ hlooked => exact hlooked.error
  | looked _ hlooked => exact hlooked.error

variable [LawfulSymbolTable T S]

theorem Executed.later {op : CacheOp S} {reply : CacheReply S} (h : Executed s op reply s') :
    Later s s' := by
  cases h with
  | read => exact .refl s
  | gave id _ => exact ⟨.refl _, fun path hp => List.mem_cons_of_mem _ hp⟩
  | badHandle => exact .refl s
  | lookedById _ hlooked => exact ⟨hlooked.extends, fun _ hp => hp⟩
  | looked _ hlooked => exact ⟨hlooked.extends, fun _ hp => hp⟩

theorem Executed.valid {op : CacheOp S} {reply : CacheReply S} (h : Executed s op reply s')
    (hv : s.Valid) : s'.Valid := by
  have hheld : ∀ path ∈ s.held, ∃ id, s'.cache.inner.pathToId.lookup path = some id := by
    intro path hp
    obtain ⟨id, hid⟩ := hv.held path hp
    exact ⟨id, h.later.grown.pathToId path id hid⟩
  cases h with
  | read => exact hv
  | gave id hpath =>
    refine ⟨hv.sound, ?_⟩
    intro path hp
    rcases List.mem_cons.mp hp with rfl | hp
    · exact ⟨id, (hv.sound.inverse _ _).mpr hpath⟩
    · exact hv.held path hp
  | badHandle => exact hv
  | lookedById hparent hlooked =>
    exact ⟨hlooked.sound hv.sound ((hv.sound.inverse _ _).mpr hparent), hheld⟩
  | looked hparent hlooked =>
    obtain ⟨pid, hpid⟩ := hv.held _ hparent
    exact ⟨hlooked.sound hv.sound hpid, hheld⟩

theorem valid_of_reachable {root : PathBuf}
    (h : Relation.ReflTransGen Step (new root) s) : s.Valid := by
  induction h with
  | refl => exact valid_new root
  | tail _ hstep ih =>
    obtain ⟨op, reply, hends⟩ := hstep
    exact (executed_of_ends hends).valid ih

theorem later_of_run (h : Relation.ReflTransGen Step s s') : Later s s' := by
  induction h with
  | refl => exact .refl s
  | tail _ hstep ih =>
    obtain ⟨op, reply, hends⟩ := hstep
    exact ih.trans (executed_of_ends hends).later

theorem Executed.repeats {op : CacheOp S} {id : FileHandleU64} {s₁ s₂ : Session T S}
    (h : Executed s op (.lookup (.ok id)) s₁) (hv : s.Valid) (hv₂ : s₂.Valid)
    (hlater : Later s₁ s₂) : s₂.exec op = .ret (.lookup (.ok id), s₂) := by
  have hafter : Later s s₂ := h.later.trans hlater
  have hagain : ∀ {parent : SymbolsPath S} {name : OsString} {checkPath : Bool},
      s.cache.inner.Looked parent name checkPath (.ok id) s₁.cache.inner →
        s₂.cache.lookup parent name checkPath = .ret (.ok id, s₂.cache) := by
    intro parent name checkPath hlooked
    obtain ⟨symbol, hget, hstored⟩ := hlooked.stored
    rw [SymbolsCache.lookup, SymbolsCacheInner.lookup_of_stored
      (hlater.grown.symbols symbol name hget) (hlater.grown.pathToId _ id hstored)]
    rfl
  cases h with
  | read _ _ hreply => exact absurd rfl (hreply _)
  | lookedById hparent hlooked =>
    have hparent₂ := hv.idToPath_later hv₂ hafter hparent
    simp only [exec, SymbolsCache.lookupById, SymbolsCache.symbolsPath, hparent₂, hagain hlooked]
    rfl
  | looked hheld hlooked =>
    rw [exec, if_pos (hafter.held _ hheld), hagain hlooked]
    rfl

/-- After every sequence of calls, whatever the host answered: the maps are inverse to each
other, hold the root and the parents of all paths, handles are below the counter, and every
path that is stored or held by a caller can be resolved. A handle stands for the same path from
then on, a lookup that gave a handle gives it again, and one that fails leaves the maps alone. -/
theorem symbols_cache_invariant (root : PathBuf) {s : Session T S}
    (hrun : Relation.ReflTransGen Step (new root) s) :
    s.cache.inner.Consistent ∧
    (∀ path ∈ s.held, ∃ p, resolvePath s.cache.inner.symbols path = some p) ∧
    (∀ path id, s.cache.inner.pathToId.lookup path = some id →
      ∃ p, resolvePath s.cache.inner.symbols path = some p) ∧
    (∀ s', Relation.ReflTransGen Step s s' → ∀ id path,
      s.cache.inner.idToPath.lookup id = some path →
        s'.cache.inner.idToPath.lookup id = some path) ∧
    (∀ op id s₁ s₂, (s.exec op).Ends (.lookup (.ok id), s₁) → Relation.ReflTransGen Step s₁ s₂ →
      s₂.exec op = .ret (.lookup (.ok id), s₂)) ∧
    (∀ op stat s', (s.exec op).Ends (.lookup (.error stat), s') →
      s'.cache.inner.pathToId = s.cache.inner.pathToId ∧
        s'.cache.inner.idToPath = s.cache.inner.idToPath) := by
  have hv := valid_of_reachable hrun
  refine ⟨hv.sound.toConsistent, ?_, ?_, ?_, ?_, ?_⟩
  · intro path hpath
    obtain ⟨id, hid⟩ := hv.held path hpath
    exact hv.resolves hid
  · intro path id hpath
    exact hv.resolves hpath
  · intro s' hrun' id path hpath
    exact hv.idToPath_later (valid_of_reachable (hrun.trans hrun')) (later_of_run hrun') hpath
  · intro op id s₁ s₂ hends hrun₂
    have hrun₁ : Relation.ReflTransGen Step (new root) s₁ := hrun.tail ⟨op, _, hends⟩
    exact (executed_of_ends hends).repeats hv (valid_of_reachable (hrun₁.trans hrun₂))
      (later_of_run hrun₂)
  · intro op stat s' hends
    exact (executed_of_ends hends).error_unchanged

/-- Two lookups: `a` below the root, which the host says is there, and `b` below `a`. -/
theorem symbols_cache_invariant_two_lookups :
    ∃ s s' : Session ListTable ℕ,
      ((new [sep]).exec (.lookupById 1 [0x61] true)).Ends (.lookup (.ok 2), s) ∧
      (s.exec (.lookupById 2 [0x62] false)).Ends (.lookup (.ok 3), s') ∧
      s'.cache.inner.idToPath.lookup 3 = some ⟨[0, 1]⟩ ∧ s'.cache.inner.Consistent ∧
      resolvePath s'.cache.inner.symbols ⟨[0, 1]⟩ = some [0x61, sep, 0x62] := by
  obtain ⟨s, hs, s', hs', hid, hpath⟩ : ∃ s : Session ListTable ℕ,
      ((new [sep]).exec (.lookupById 1 [0x61] true)).Ends (.lookup (.ok 2), s) ∧
      ∃ s', (s.exec (.lookupById 2 [0x62] false)).Ends (.lookup (.ok 3), s') ∧
        s'.cache.inner.idToPath.lookup 3 = some ⟨[0, 1]⟩ ∧
        resolvePath s'.cache.inner.symbols ⟨[0, 1]⟩ = some [0x61, sep, 0x62] := by
    refine ⟨_, Exists.intro true (Exists.intro true rfl), ?_⟩
    exact ⟨_, Eq.refl _, rfl, rfl⟩
  have hrun : Relation.ReflTransGen Step (new [sep]) s' :=
    .tail (.single ⟨_, _, hs⟩) ⟨_, _, hs'⟩
  exact ⟨s, s', hs, hs', hid, (symbols_cache_invariant [sep] hrun).1, hpath⟩

end Session

end Nfs3.Mirror
