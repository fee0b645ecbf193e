import Nfs3.Lib.Transition
import Nfs3.Mirror.Iterator
import Nfs3.Mirror.SymbolsInvariant

/-!
# One owner for every directory stream

A stream is in an iterator or in the cache, and in one place only. Its position is told by the
cookie next to it: the upper half says which stream it is, the lower half how many entries were
taken from it.

The machine below is the mirror with any number of iterators in use, and with what was opened
and emitted kept on record.
-/
namespace Nfs3.Mirror

open Interaction (Prog)

theorem swapRemove_perm {α : Type} {l : List α} {i : ℕ} {x : α} (h : l[i]? = some x) :
    l.Perm (x :: swapRemove l i) := by
  obtain ⟨hi, hx⟩ := List.getElem?_eq_some_iff.mp h
  rcases List.eq_nil_or_concat l with rfl | ⟨init, last, rfl⟩
  · simp at hi
  rw [List.concat_eq_append] at h hi ⊢
  have hswap : swapRemove (init ++ [last]) i = ((init ++ [last]).set i last).dropLast := by
    simp [swapRemove]
  rw [hswap]
  by_cases hlast : i < init.length
  · -- the removed item is overwritten by the last one
    rw [List.getElem?_append_left hlast] at h
    obtain ⟨-, rfl⟩ := List.getElem?_eq_some_iff.mp h
    rw [List.set_append_left _ _ hlast, List.dropLast_concat, List.set_eq_take_append_cons_drop,
      if_pos hlast]
    calc init ++ [last]
        = init.take i ++ init[i] :: init.drop (i + 1) ++ [last] := by
          rw [List.cons_getElem_drop_succ, List.take_append_drop]
      _ |>.Perm (last :: (init.take i ++ init[i] :: init.drop (i + 1))) :=
          List.perm_append_singleton _ _
      _ |>.Perm (last :: init[i] :: (init.take i ++ init.drop (i + 1))) :=
          List.perm_middle.cons _
      _ |>.Perm (init[i] :: last :: (init.take i ++ init.drop (i + 1))) :=
          List.Perm.swap _ _ _
      _ |>.Perm (init[i] :: (init.take i ++ last :: init.drop (i + 1))) :=
          List.perm_middle.symm.cons _
  · have hilast : i = init.length := by
      rw [List.length_append, List.length_singleton] at hi
      omega
    subst hilast
    rw [List.getElem?_concat_length] at h
    obtain rfl := Option.some.inj h
    have hset : (init ++ [last]).set init.length last = init ++ [last] := by simp
    rw [hset, List.dropLast_concat]
    exact List.perm_append_singleton _ _

namespace IteratorCache

variable {c c' : IteratorCache} {dirId : FileHandleU64} {cookie : UInt64}
  {l : List CachedIteratorInfo}

/-- Trimming keeps the youngest and no more than the limit. -/
theorem trim_spec (max : UInt16) (l : List CachedIteratorInfo) :
    ∃ evicted, l.Perm (evicted ++ trim max l) ∧ (trim max l).length = min l.length max.toNat ∧
      ∀ e ∈ evicted, ∀ k ∈ trim max l, e.cachedAt ≤ k.cachedAt := by
  unfold trim
  split_ifs with hlong
  · dsimp only
    have hperm :=
      List.perm_insertionSort (fun a b : CachedIteratorInfo => a.cachedAt ≤ b.cachedAt) l
    have hsorted := List.pairwise_insertionSort
      (fun a b : CachedIteratorInfo => a.cachedAt ≤ b.cachedAt) l
    generalize l.insertionSort (fun a b => a.cachedAt ≤ b.cachedAt) = sorted at hperm hsorted
    have hlength := hperm.length_eq
    refine ⟨sorted.take (sorted.length - max.toNat), ?_, ?_, ?_⟩
    · rw [List.take_append_drop]
      exact hperm.symm
    · rw [List.length_drop]
      omega
    · intro e he k hk
      rw [← List.take_append_drop (sorted.length - max.toNat) sorted] at hsorted
      exact (List.pairwise_append.mp hsorted).2.2 e he k hk
  · exact ⟨[], by simp, by omega, by simp⟩

theorem trim_subperm (max : UInt16) (l : List CachedIteratorInfo) : (trim max l).Subperm l := by
  obtain ⟨evicted, hperm, -, -⟩ := trim_spec max l
  exact (List.sublist_append_right evicted _).subperm.trans hperm.symm.subperm

/-- What `popState` does: it takes out the state for the cookie, or finds that there is none. -/
inductive Popped (c : IteratorCache) (dirId : FileHandleU64) (cookie : UInt64) :
    Option CachedIteratorInfo → IteratorCache → Prop
  | found {info : CachedIteratorInfo} {rest : List CachedIteratorInfo}
      (cookie_eq : info.cookie = cookie) (perm : (c.cache dirId).Perm (info :: rest)) :
      Popped c dirId cookie (some info) (c.setDir dirId rest)
  | absent (none_eq : ∀ info ∈ c.cache dirId, info.cookie ≠ cookie) : Popped c dirId cookie none c

theorem popState_popped {found : Option CachedIteratorInfo}
    (h : c.popState dirId cookie = (found, c')) : Popped c dirId cookie found c' := by
  unfold popState at h
  dsimp only at h
  split at h
  · rename_i hnone
    cases h
    refine .absent ?_
    intro info hinfo
    simpa using List.findIdx?_eq_none_iff.mp hnone info hinfo
  · rename_i index hindex
    obtain ⟨hlt, hcookie, -⟩ := List.findIdx?_eq_some_iff_getElem.mp hindex
    have hget : (c.cache dirId)[index]? = some ((c.cache dirId)[index]) :=
      List.getElem?_eq_getElem hlt
    rw [hget] at h
    cases h
    exact .found (by simpa using hcookie) (swapRemove_perm hget)

end IteratorCache

section Operations

variable {T S : Type} [SymbolTable T S] [DecidableEq S]

namespace Fs

variable {fs fs' : Fs T S} {dirid : FileHandleU64} {cookie : UInt64}
  {answer : (c : HostCall) → c.Reply}

/-- The handle stands for some path. -/
def Known (fs : Fs T S) (dirid : FileHandleU64) : Prop :=
  (fs.cache.inner.idToPath.lookup dirid).isSome

/-- How a directory was opened, if it was: by a new stream, or by one from the cache. -/
inductive Opened (answer : (c : HostCall) → c.Reply) (fs : Fs T S) (dirid : FileHandleU64)
    (cookie : UInt64) : Except Nfsstat3 MirrorFsIterator → Fs T S → Prop
  | failed (stat : Nfsstat3) : Opened answer fs dirid cookie (.error stat) fs
  | created {path : PathBuf} {readDir : ReadDir} (zero : cookie = 0) (known : fs.Known dirid)
      (reply : answer (.readDir path) = Except.ok readDir) :
      Opened answer fs dirid cookie
        (.ok ⟨dirid, some readDir, fs.iteratorCache.generateBaseCookie.1⟩)
        { fs with iteratorCache := fs.iteratorCache.generateBaseCookie.2 }
  | resumed {info : CachedIteratorInfo} {iteratorCache : IteratorCache} (nonzero : cookie ≠ 0)
      (known : fs.Known dirid)
      (popped : fs.iteratorCache.Popped dirid cookie (some info) iteratorCache) :
      Opened answer fs dirid cookie (.ok ⟨dirid, some info.readDir, info.cookie⟩)
        { fs with iteratorCache }

theorem opened_of_eval {r : Except Nfsstat3 MirrorFsIterator}
    (h : (fs.getOrCreateIterator dirid cookie).eval answer = some (r, fs')) :
    Opened answer fs dirid cookie r fs' := by
  unfold getOrCreateIterator initializeReadDir SymbolsCache.handleToPath at h
  rw [Prog.eval_bind, Prog.eval_bind] at h
  cases hid : fs.cache.inner.idToPath.lookup dirid with
  | none =>
    rw [hid] at h
    cases h
    exact .failed _
  | some symbolsPath =>
    have hknown : fs.Known dirid := by simp [Known, hid]
    rw [hid] at h
    dsimp only at h
    cases hpath : resolvePath fs.cache.inner.symbols symbolsPath with
    | none =>
      rw [hpath] at h
      cases h
    | some relativePath =>
      rw [hpath] at h
      simp only [Prog.eval, Option.bind_some] at h
      split_ifs at h with hzero
      · simp only [Prog.eval] at h
        split at h
        · cases h
          exact .failed _
        split_ifs at h
        · simp only [Prog.eval] at h
          split at h
          · cases h
            exact .failed _
          · rename_i readDir hreply
            cases h
            exact .created hzero hknown hreply
        · cases h
          exact .failed _
      · split at h
        · rename_i info iteratorCache hpop
          cases h
          exact .resumed hzero hknown (IteratorCache.popState_popped hpop)
        · rename_i iteratorCache hpop
          have hpopped := IteratorCache.popState_popped hpop
          cases h
          cases hpopped
          exact .failed _

/-- How an iterator over a known directory moved on. -/
inductive Advanced (fs : Fs T S) (iter : MirrorFsIterator) :
    NextResult (FileHandleU64 × EntryName × UInt64) → MirrorFsIterator → Fs T S → Prop
  | atEnd (readDir_eq : iter.readDir = none) : Advanced fs iter .eof iter fs
  | ended {readDir : ReadDir} (readDir_eq : iter.readDir = some readDir)
      (pending_eq : readDir.pending = []) :
      Advanced fs iter .eof { iter with readDir := none } fs
  | broken {readDir : ReadDir} {kind : ErrorKind} {pending : List (IoResult EntryName)}
      (readDir_eq : iter.readDir = some readDir)
      (pending_eq : readDir.pending = .error kind :: pending) :
      Advanced fs iter (.err .nfs3errIo)
        { iter with readDir := some { readDir with pending } } fs
  | yielded {readDir : ReadDir} {name : EntryName} {pending : List (IoResult EntryName)}
      {cache : SymbolsCache T S} (handle : FileHandleU64)
      (readDir_eq : iter.readDir = some readDir)
      (pending_eq : readDir.pending = .ok name :: pending)
      (known : ∀ d, fs.Known d → ({ fs with cache } : Fs T S).Known d) :
      Advanced fs iter (.ok (handle, name, iter.cookie + 1))
        { iter with readDir := some { readDir with pending }, cookie := iter.cookie + 1 }
        { fs with cache }

theorem lookup_unchecked {inner inner' : SymbolsCacheInner T S} {root : PathBuf}
    {parent : SymbolsPath S} {name : OsString} {r : Except Nfsstat3 FileHandleU64}
    (h : (inner.lookup root parent name false).Ends (r, inner')) : ∃ id, r = .ok id := by
  unfold SymbolsCacheInner.lookup at h
  split at h
  · cases h
  dsimp only at h
  split at h
  · cases h
    exact ⟨_, rfl⟩
  rw [if_neg Bool.false_ne_true, Prog.bind] at h
  dsimp only at h
  split_ifs at h
  · cases h
    exact ⟨_, rfl⟩
  · cases h

theorem known_of_looked {inner inner' : SymbolsCacheInner T S} {parent : SymbolsPath S}
    {name : OsString} {checkPath : Bool} {r : Except Nfsstat3 FileHandleU64}
    (h : inner.Looked parent name checkPath r inner') {d : FileHandleU64}
    (hd : (inner.idToPath.lookup d).isSome) : (inner'.idToPath.lookup d).isSome := by
  cases h with
  | known => exact hd
  | refused => exact hd
  | entered _ _ _ =>
    rw [AList.lookup_isSome] at hd ⊢
    exact (AList.mem_insert _).mpr (Or.inr hd)

theorem advanced_of_ends {iter iter' : MirrorFsIterator}
    {r : NextResult (FileHandleU64 × EntryName × UInt64)}
    (hknown : iter.readDir.isSome → fs.Known iter.dirid)
    (h : (fs.nextEntryCommon iter).Ends (r, iter', fs')) : Advanced fs iter r iter' fs' := by
  unfold nextEntryCommon at h
  split at h
  · rename_i hnone
    cases h
    exact .atEnd hnone
  rename_i readDir hreadDir
  split at h
  · rename_i hpending
    cases h
    exact .ended hreadDir hpending
  · rename_i kind pending hpending
    cases h
    exact .broken hreadDir hpending
  rename_i name pending hpending
  obtain ⟨symbolsPath, hpath⟩ := Option.isSome_iff_exists.mp (hknown (by simp [hreadDir]))
  simp only [SymbolsCache.symbolsPath, hpath] at h
  obtain ⟨⟨result, cache⟩, hlookup, hrest⟩ := Prog.ends_bind.mp h
  have hlooked := Session.looked_of_lookup hlookup
  obtain ⟨⟨result', inner⟩, hinner, heq⟩ := Prog.ends_bind.mp hlookup
  obtain ⟨handle, hok⟩ := lookup_unchecked hinner
  cases heq
  subst hok
  cases hrest
  exact .yielded handle hreadDir hpending fun d hd => known_of_looked hlooked hd

omit [SymbolTable T S]

theorem drop_of_none {iter : MirrorFsIterator} (h : iter.readDir = none) (now : Instant) :
    fs.drop iter now = fs := by
  rw [drop, h]

/-- Every cached state was there before or is the one that the iterator leaves behind. -/
theorem cache_drop_subperm (fs : Fs T S) {iter : MirrorFsIterator} {readDir : ReadDir}
    (h : iter.readDir = some readDir) (now : Instant) (d : FileHandleU64) :
    ((fs.drop iter now).iteratorCache.cache d).Subperm (fs.iteratorCache.cache d ++
      if d = iter.dirid then [⟨iter.cookie, now, readDir⟩] else []) := by
  simp only [drop, h, IteratorCache.cacheState, IteratorCache.setDir, Function.update_apply]
  split_ifs with hd
  · rw [hd]
    exact IteratorCache.trim_subperm _ _
  · rw [List.append_nil]

end Fs

end Operations

/-! ## The machine -/

/-- An entry that an iterator gave out, and the stream it was taken from. -/
structure Emission where
  stream : ℕ
  dirid : FileHandleU64
  cookie : UInt64
  name : EntryName

/-- The mirror, the iterators in use, the streams opened so far with their directory and its
listing, and all entries given out. -/
structure World (T S : Type) [DecidableEq S] where
  fs : Fs T S
  live : List MirrorFsIterator
  opened : List (FileHandleU64 × List EntryName)
  emitted : List Emission

/-- What happens next: a directory is opened at a cookie, the host answering with metadata and a
listing; one of the iterators is asked for its next entry, or dropped; the cleaner runs. -/
inductive Event
  | openDir (dirid : FileHandleU64) (cookie : UInt64) (metadata : IoResult Metadata)
      (listing : IoResult (List EntryName))
  | next (index : ℕ)
  | drop (index : ℕ) (now : Instant)
  | cleanup (now : Instant)

def openAnswers (metadata : IoResult Metadata) (readDir : IoResult ReadDir) :
    (c : HostCall) → c.Reply
  | .symlinkMetadata _ => metadata
  | .readDir _ => readDir
  | c => c.unanswered

/-- The entry given out, if it was one. -/
def emission (iter : MirrorFsIterator) :
    NextResult (FileHandleU64 × EntryName × UInt64) → List Emission
  | .ok (_, name, cookie) =>
    (iter.readDir.map fun readDir => ⟨readDir.stream, iter.dirid, cookie, name⟩).toList
  | .eof | .err _ => []

namespace World

variable {T S : Type} [DecidableEq S]

def new [SymbolTable T S] (root : PathBuf) (retentionPeriod : ℕ) (maxCachedPerDir : UInt16) :
    World T S where
  fs := .new root retentionPeriod maxCachedPerDir
  live := []
  opened := []
  emitted := []

/-- Streams are numbered in the order in which they are opened, and reading them does not
fail. -/
def step [SymbolTable T S] (w : World T S) : Event → Option (World T S)
  | .openDir dirid cookie metadata listing =>
    let readDir := listing.map fun names => (⟨w.opened.length, names.map .ok⟩ : ReadDir)
    ((w.fs.getOrCreateIterator dirid cookie).eval (openAnswers metadata readDir)).map fun
      | (.error _, fs) => { w with fs }
      | (.ok iter, fs) =>
        { w with
          fs
          live := w.live ++ [iter]
          opened :=
            if cookie = 0 then w.opened ++ [(dirid, listing.toOption.getD [])] else w.opened }
  | .next index =>
    match w.live[index]? with
    | none => none
    | some iter =>
      ((w.fs.nextEntryCommon iter).eval HostCall.unanswered).map fun (r, iter', fs) =>
        { w with
          fs
          live := w.live.set index iter'
          emitted := w.emitted ++ emission iter r }
  | .drop index now =>
    match w.live[index]? with
    | none => none
    | some iter => some { w with fs := w.fs.drop iter now, live := w.live.eraseIdx index }
  | .cleanup now =>
    some { w with fs := { w.fs with iteratorCache := w.fs.iteratorCache.cleanup now } }

/-- How many entries were taken from a stream. -/
def yielded (w : World T S) (stream : ℕ) : ℕ := w.emitted.countP (·.stream = stream)

def liveOwners (w : World T S) (stream : ℕ) : ℕ :=
  w.live.countP fun iter => iter.readDir.any (·.stream = stream)

def cachedOwners (w : World T S) (dirid : FileHandleU64) (stream : ℕ) : ℕ :=
  (w.fs.iteratorCache.cache dirid).countP (·.readDir.stream = stream)

/-- The stream belongs to the directory, and cookie and stream agree on how far it was read. -/
structure At (w : World T S) (dirid : FileHandleU64) (cookie : UInt64) (readDir : ReadDir)
    (listing : List EntryName) : Prop where
  opened : w.opened[readDir.stream]? = some (dirid, listing)
  cookie : cookie.toNat = readDir.stream * 2 ^ 32 + w.yielded readDir.stream
  pending : readDir.pending = (listing.drop (w.yielded readDir.stream)).map .ok

/-- Fewer than `2 ^ 32` streams were opened and fewer than `2 ^ 32` entries taken from each. -/
structure Bounded (w : World T S) : Prop where
  opened : w.opened.length < 2 ^ 32
  yielded : ∀ stream, w.yielded stream < 2 ^ 32

structure Inv (w : World T S) : Prop where
  counter : w.fs.iteratorCache.cookieCounter.toNat = w.opened.length
  live : ∀ iter ∈ w.live, ∀ readDir, iter.readDir = some readDir →
    w.fs.Known iter.dirid ∧ ∃ listing, w.At iter.dirid iter.cookie readDir listing
  cached : ∀ d, ∀ info ∈ w.fs.iteratorCache.cache d,
    ∃ listing, w.At d info.cookie info.readDir listing
  single : ∀ d stream, w.liveOwners stream + w.cachedOwners d stream ≤ 1
  emissions : ∀ e ∈ w.emitted, ∃ listing j, w.opened[e.stream]? = some (e.dirid, listing) ∧
    j < w.yielded e.stream ∧ e.cookie.toNat = e.stream * 2 ^ 32 + j + 1 ∧ listing[j]? = some e.name
  complete : ∀ stream j, j < w.yielded stream → ∃ e ∈ w.emitted, e.stream = stream ∧
    e.cookie.toNat = stream * 2 ^ 32 + j + 1
  distinct : w.emitted.Pairwise fun e e' => e.cookie ≠ e'.cookie

variable {w w' : World T S} {d dirid : FileHandleU64} {cookie : UInt64} {readDir : ReadDir}
  {listing : List EntryName}

theorem At.keep (h : w.At d cookie readDir listing)
    (hopened : w'.opened[readDir.stream]? = w.opened[readDir.stream]?)
    (hyielded : w'.yielded readDir.stream = w.yielded readDir.stream) :
    w'.At d cookie readDir listing where
  opened := hopened.trans h.opened
  cookie := by rw [hyielded, h.cookie]
  pending := by rw [hyielded, h.pending]

theorem At.stream_lt (h : w.At d cookie readDir listing) : readDir.stream < w.opened.length :=
  (List.getElem?_eq_some_iff.mp h.opened).1

/-- Nothing is opened or given out, and every owner of a stream was at the same place before. -/
theorem Inv.transfer (h : w.Inv) (hopened : w'.opened = w.opened)
    (hemitted : w'.emitted = w.emitted)
    (hcounter : w'.fs.iteratorCache.cookieCounter = w.fs.iteratorCache.cookieCounter)
    (hlive : ∀ iter ∈ w'.live, ∀ readDir, iter.readDir = some readDir →
      w'.fs.Known iter.dirid ∧ ∃ listing, w.At iter.dirid iter.cookie readDir listing)
    (hcached : ∀ d, ∀ info ∈ w'.fs.iteratorCache.cache d,
      ∃ listing, w.At d info.cookie info.readDir listing)
    (hsingle : ∀ d stream, w'.liveOwners stream + w'.cachedOwners d stream ≤ 1) : w'.Inv := by
  have hyielded : ∀ stream, w'.yielded stream = w.yielded stream := by
    intro stream
    rw [yielded, hemitted, yielded]
  have hat : ∀ {d cookie readDir listing}, w.At d cookie readDir listing →
      w'.At d cookie readDir listing := fun hat => hat.keep (by rw [hopened]) (hyielded _)
  constructor
  · rw [hcounter, hopened, h.counter]
  · intro iter hiter readDir hreadDir
    obtain ⟨hknown, listing, hl⟩ := hlive iter hiter readDir hreadDir
    exact ⟨hknown, listing, hat hl⟩
  · intro d info hinfo
    obtain ⟨listing, hl⟩ := hcached d info hinfo
    exact ⟨listing, hat hl⟩
  · exact hsingle
  · intro e he
    rw [hemitted] at he
    rw [hopened, hyielded]
    exact h.emissions e he
  · intro stream j hj
    rw [hyielded] at hj
    rw [hemitted]
    exact h.complete stream j hj
  · rw [hemitted]
    exact h.distinct

theorem inv_new [SymbolTable T S] (root : PathBuf) (retentionPeriod : ℕ)
    (maxCachedPerDir : UInt16) :
    (new root retentionPeriod maxCachedPerDir : World T S).Inv where
  counter := rfl
  live := by simp [new]
  cached := by simp [new, Fs.new, IteratorCache.new]
  single := by simp [liveOwners, cachedOwners, new, Fs.new, IteratorCache.new]
  emissions := by simp [new]
  complete := by simp [new, yielded]
  distinct := .nil

/-! ## Opening -/

theorem toNat_baseCookie (c : IteratorCache) :
    c.generateBaseCookie.1.toNat = c.cookieCounter.toNat * 2 ^ 32 := by
  have hlt := c.cookieCounter.toNat_lt
  have hshift : UInt64.toNat 32 % 64 = 32 := rfl
  simp only [IteratorCache.generateBaseCookie, UInt64.toNat_shiftLeft, UInt32.toNat_toUInt64]
  rw [Nat.shiftLeft_eq, hshift]
  omega

/-- A stream that was not opened yet has no owner and has given out nothing. -/
theorem Inv.unopened (h : w.Inv) :
    w.liveOwners w.opened.length = 0 ∧ (∀ d, w.cachedOwners d w.opened.length = 0) ∧
      w.yielded w.opened.length = 0 := by
  refine ⟨?_, ?_, ?_⟩
  · rw [liveOwners, List.countP_eq_zero]
    intro iter hiter hany
    cases hreadDir : iter.readDir with
    | none => simp [hreadDir] at hany
    | some readDir =>
      obtain ⟨-, listing, hl⟩ := h.live iter hiter readDir hreadDir
      have hlt := hl.stream_lt
      simp only [hreadDir, Option.any_some, decide_eq_true_eq] at hany
      omega
  · intro d
    rw [cachedOwners, List.countP_eq_zero]
    intro info hinfo hstream
    obtain ⟨listing, hl⟩ := h.cached d info hinfo
    have hlt := hl.stream_lt
    simp only [decide_eq_true_eq] at hstream
    omega
  · rw [yielded, List.countP_eq_zero]
    intro e he hstream
    obtain ⟨listing, j, hopened, -⟩ := h.emissions e he
    obtain ⟨hlt, -⟩ := List.getElem?_eq_some_iff.mp hopened
    simp only [decide_eq_true_eq] at hstream
    omega

/-- The world after a new stream was opened. -/
def withStream (w : World T S) (dirid : FileHandleU64) (names : List EntryName) : World T S :=
  { w with
    fs := { w.fs with iteratorCache := w.fs.iteratorCache.generateBaseCookie.2 }
    live := w.live ++
      [⟨dirid, some ⟨w.opened.length, names.map .ok⟩, w.fs.iteratorCache.generateBaseCookie.1⟩]
    opened := w.opened ++ [(dirid, names)] }

theorem Inv.withStream (h : w.Inv) (hbound : w.opened.length + 1 < 2 ^ 32)
    (hknown : w.fs.Known dirid) (names : List EntryName) : (w.withStream dirid names).Inv := by
  obtain ⟨hnolive, hnocached, hnone⟩ := h.unopened
  have hat : ∀ {d cookie readDir listing}, w.At d cookie readDir listing →
      (w.withStream dirid names).At d cookie readDir listing := by
    intro d cookie readDir listing hat
    exact hat.keep (List.getElem?_append_left hat.stream_lt) rfl
  have hyielded : (w.withStream dirid names).yielded w.opened.length = 0 := hnone
  constructor
  · have hadd : (w.fs.iteratorCache.cookieCounter + 1).toNat = w.opened.length + 1 := by
      rw [UInt32.toNat_add, UInt32.toNat_one, h.counter]
      omega
    simpa [World.withStream, IteratorCache.generateBaseCookie] using hadd
  · intro iter hiter readDir hreadDir
    rcases List.mem_append.mp hiter with hiter | hiter
    · obtain ⟨hk, listing, hl⟩ := h.live iter hiter readDir hreadDir
      exact ⟨hk, listing, hat hl⟩
    · obtain rfl := List.mem_singleton.mp hiter
      obtain rfl := Option.some.inj hreadDir
      refine ⟨hknown, names, List.getElem?_concat_length, ?_, ?_⟩
      · dsimp only
        rw [toNat_baseCookie, h.counter, hyielded, Nat.add_zero]
      · dsimp only
        rw [hyielded, List.drop_zero]
  · intro d info hinfo
    obtain ⟨listing, hl⟩ := h.cached d info hinfo
    exact ⟨listing, hat hl⟩
  · intro d stream
    have hlive : (w.withStream dirid names).liveOwners stream =
        w.liveOwners stream + if w.opened.length = stream then 1 else 0 := by
      simp [World.withStream, liveOwners, List.countP_append, List.countP_singleton]
    have hcached : (w.withStream dirid names).cachedOwners d stream = w.cachedOwners d stream := rfl
    rw [hlive, hcached]
    split_ifs with hstream
    · rw [← hstream, hnolive, hnocached]
    · exact h.single d stream
  · intro e he
    obtain ⟨listing, j, hopened, hj, hcookie, hname⟩ := h.emissions e he
    refine ⟨listing, j, ?_, hj, hcookie, hname⟩
    obtain ⟨hlt, -⟩ := List.getElem?_eq_some_iff.mp hopened
    exact (List.getElem?_append_left hlt).trans hopened
  · exact h.complete
  · exact h.distinct

theorem Inv.cachedOwners_eq_zero (h : w.Inv) {stream : ℕ}
    (hopened : w.opened[stream]? = some (dirid, listing)) (hne : d ≠ dirid) :
    w.cachedOwners d stream = 0 := by
  rw [cachedOwners, List.countP_eq_zero]
  intro info hinfo hstream
  obtain ⟨listing', hl⟩ := h.cached d info hinfo
  have hsame := hl.opened
  rw [of_decide_eq_true hstream, hopened] at hsame
  cases hsame
  exact hne rfl

/-- The world after a stream was taken out of the cache. -/
def withResumed (w : World T S) (dirid : FileHandleU64) (info : CachedIteratorInfo)
    (rest : List CachedIteratorInfo) : World T S :=
  { w with
    fs := { w.fs with iteratorCache := w.fs.iteratorCache.setDir dirid rest }
    live := w.live ++ [⟨dirid, some info.readDir, info.cookie⟩] }

theorem Inv.withResumed (h : w.Inv) (hknown : w.fs.Known dirid) {info : CachedIteratorInfo}
    {rest : List CachedIteratorInfo}
    (hperm : (w.fs.iteratorCache.cache dirid).Perm (info :: rest)) :
    (w.withResumed dirid info rest).Inv := by
  obtain ⟨listing, hinfo⟩ := h.cached dirid info (hperm.mem_iff.mpr List.mem_cons_self)
  have hcache : ∀ d, (w.withResumed dirid info rest).fs.iteratorCache.cache d =
      if d = dirid then rest else w.fs.iteratorCache.cache d := by
    intro d
    exact Function.update_apply _ _ _ _
  refine h.transfer rfl rfl rfl ?_ ?_ ?_
  · intro iter hiter readDir hreadDir
    rcases List.mem_append.mp hiter with hiter | hiter
    · exact h.live iter hiter readDir hreadDir
    · obtain rfl := List.mem_singleton.mp hiter
      obtain rfl := Option.some.inj hreadDir
      exact ⟨hknown, listing, hinfo⟩
  · intro d other hother
    rw [hcache] at hother
    split_ifs at hother with hd
    · subst hd
      exact h.cached d other (hperm.mem_iff.mpr (List.mem_cons_of_mem _ hother))
    · exact h.cached d other hother
  · intro d stream
    have hlive : (w.withResumed dirid info rest).liveOwners stream =
        w.liveOwners stream + if info.readDir.stream = stream then 1 else 0 := by
      simp [World.withResumed, liveOwners, List.countP_append, List.countP_singleton]
    have hbefore : w.cachedOwners dirid stream =
        rest.countP (·.readDir.stream = stream) +
          if info.readDir.stream = stream then 1 else 0 := by
      rw [cachedOwners, hperm.countP_eq, List.countP_cons]
      simp
    have hsingle := h.single dirid stream
    rw [hlive, cachedOwners, hcache]
    split_ifs with hstream hd hd
    · rw [if_pos hstream] at hbefore
      omega
    · have hzero := h.cachedOwners_eq_zero (hstream ▸ hinfo.opened) hd
      rw [cachedOwners] at hzero
      rw [if_pos hstream] at hbefore
      omega
    · rw [if_neg hstream] at hbefore
      omega
    · exact h.single d stream

/-! ## Dropping and cleaning up -/

theorem Inv.dropped (h : w.Inv) {i : ℕ} {iter : MirrorFsIterator} (hi : w.live[i]? = some iter)
    (now : Instant) :
    Inv { w with fs := w.fs.drop iter now, live := w.live.eraseIdx i } := by
  obtain ⟨hlt, hget⟩ := List.getElem?_eq_some_iff.mp hi
  have hperm : w.live.Perm (iter :: w.live.eraseIdx i) := by
    rw [← hget]
    exact (List.getElem_cons_eraseIdx_perm hlt).symm
  have hmem : ∀ it ∈ w.live.eraseIdx i, it ∈ w.live := fun it hit => List.mem_of_mem_eraseIdx hit
  cases hreadDir : iter.readDir with
  | none =>
    rw [Fs.drop_of_none hreadDir]
    refine h.transfer rfl rfl rfl (fun it hit => h.live it (hmem it hit)) h.cached ?_
    intro d stream
    have hsingle := h.single d stream
    have hsub : liveOwners { w with live := w.live.eraseIdx i } stream ≤ w.liveOwners stream :=
      (List.eraseIdx_sublist _ _).countP_le
    exact (Nat.add_le_add_right hsub _).trans hsingle
  | some readDir =>
    obtain ⟨hknown, listing, hat⟩ := h.live iter (List.mem_of_getElem? hi) readDir hreadDir
    have hcache := w.fs.cache_drop_subperm hreadDir now
    have hdrop : ∀ d, (w.fs.drop iter now).Known d ↔ w.fs.Known d := by
      intro d
      simp only [Fs.drop, hreadDir, Fs.Known]
    have hcounter : (w.fs.drop iter now).iteratorCache.cookieCounter =
        w.fs.iteratorCache.cookieCounter := by
      simp only [Fs.drop, hreadDir, IteratorCache.cacheState, IteratorCache.setDir]
    refine h.transfer rfl rfl hcounter ?_ ?_ ?_
    · intro it hit rd hrd
      obtain ⟨hk, hl⟩ := h.live it (hmem it hit) rd hrd
      exact ⟨(hdrop _).mpr hk, hl⟩
    · intro d info hinfo
      rcases List.mem_append.mp ((hcache d).subset hinfo) with hold | hnew
      · exact h.cached d info hold
      · split_ifs at hnew with hd
        · obtain rfl := List.mem_singleton.mp hnew
          rw [hd]
          exact ⟨listing, hat⟩
        · cases hnew
    · intro d stream
      have hsingle := h.single d stream
      have hlive : w.liveOwners stream = liveOwners { w with
          fs := w.fs.drop iter now, live := w.live.eraseIdx i } stream +
            if readDir.stream = stream then 1 else 0 := by
        rw [liveOwners, hperm.countP_eq, List.countP_cons]
        simp [liveOwners, hreadDir]
      have hcached : cachedOwners { w with
          fs := w.fs.drop iter now, live := w.live.eraseIdx i } d stream ≤
            w.cachedOwners d stream + if readDir.stream = stream then 1 else 0 := by
        have hle := (hcache d).countP_le (·.readDir.stream = stream)
        rw [List.countP_append] at hle
        refine hle.trans (Nat.add_le_add_left ?_ _)
        split_ifs <;> simp_all
      omega

theorem Inv.cleaned (h : w.Inv) (now : Instant) :
    Inv { w with fs := { w.fs with iteratorCache := w.fs.iteratorCache.cleanup now } } := by
  refine h.transfer rfl rfl rfl h.live ?_ ?_
  · intro d info hinfo
    exact h.cached d info (List.mem_filter.mp hinfo).1
  · intro d stream
    have hsingle := h.single d stream
    have hfilter : ((w.fs.iteratorCache.cache d).filter fun info =>
        now - info.cachedAt ≤ w.fs.iteratorCache.retentionPeriod).countP
          (·.readDir.stream = stream) ≤ w.cachedOwners d stream :=
      List.filter_sublist.countP_le
    exact (Nat.add_le_add_left hfilter _).trans hsingle

/-! ## Taking an entry -/

/-- The world after an iterator gave out an entry. -/
def withEmission (w : World T S) (cache : SymbolsCache T S) (i : ℕ) (iter : MirrorFsIterator)
    (readDir : ReadDir) (name : EntryName) (pending : List (IoResult EntryName)) : World T S :=
  { w with
    fs := { w.fs with cache }
    live := w.live.set i
      { iter with readDir := some { readDir with pending }, cookie := iter.cookie + 1 }
    emitted := w.emitted ++ [⟨readDir.stream, iter.dirid, iter.cookie + 1, name⟩] }

theorem yielded_withEmission (w : World T S) (cache : SymbolsCache T S) (i : ℕ)
    (iter : MirrorFsIterator) (readDir : ReadDir) (name : EntryName)
    (pending : List (IoResult EntryName)) (stream : ℕ) :
    (w.withEmission cache i iter readDir name pending).yielded stream =
      w.yielded stream + if readDir.stream = stream then 1 else 0 := by
  simp [withEmission, yielded, List.countP_append, List.countP_singleton]

theorem liveOwners_withEmission {cache : SymbolsCache T S} {i : ℕ} {iter : MirrorFsIterator}
    {name : EntryName} {pending : List (IoResult EntryName)} (hi : w.live[i]? = some iter)
    (hreadDir : iter.readDir = some readDir) (stream : ℕ) :
    (w.withEmission cache i iter readDir name pending).liveOwners stream =
      w.liveOwners stream := by
  obtain ⟨hlt, hget⟩ := List.getElem?_eq_some_iff.mp hi
  rw [liveOwners, withEmission, (List.set_perm_cons_eraseIdx hlt _).countP_eq, liveOwners,
    ← (List.getElem_cons_eraseIdx_perm hlt).countP_eq, List.countP_cons, List.countP_cons, hget]
  simp [hreadDir]

theorem At.toNat_next (h : w.At d cookie readDir listing) (hopened : w.opened.length < 2 ^ 32)
    (hyielded : w.yielded readDir.stream + 1 < 2 ^ 32) :
    (cookie + 1).toNat = readDir.stream * 2 ^ 32 + w.yielded readDir.stream + 1 := by
  have hstream := h.stream_lt
  rw [UInt64.toNat_add, UInt64.toNat_one, h.cookie]
  omega

/-- A cookie behind the entries that a stream has given out was not given out before. -/
theorem Inv.cookie_new (h : w.Inv) (hbound : ∀ stream, w.yielded stream < 2 ^ 32)
    (hnext : w.yielded readDir.stream + 1 < 2 ^ 32)
    (hcookie : cookie.toNat = readDir.stream * 2 ^ 32 + w.yielded readDir.stream + 1)
    {e : Emission} (he : e ∈ w.emitted) : e.cookie ≠ cookie := by
  rintro rfl
  obtain ⟨-, j, -, hj, hc, -⟩ := h.emissions e he
  have hsmall := hbound e.stream
  have hstream : e.stream = readDir.stream := by omega
  rw [hstream] at hj hc
  omega

/-- The first of the pending entries is the one at the position of the stream. -/
theorem At.head (h : w.At d cookie readDir listing) {name : EntryName}
    {pending : List (IoResult EntryName)} (hpending : readDir.pending = .ok name :: pending) :
    listing[w.yielded readDir.stream]? = some name ∧
      pending = (listing.drop (w.yielded readDir.stream + 1)).map .ok := by
  have hdrop := h.pending
  rw [hpending] at hdrop
  obtain ⟨first, rest, hrest, hfirst, htail⟩ := List.map_eq_cons_iff.mp hdrop.symm
  cases hfirst
  have hget : listing[w.yielded readDir.stream]? = some name := by
    rw [← List.head?_drop, hrest]
    rfl
  refine ⟨hget, ?_⟩
  rw [← List.tail_drop, hrest, List.tail_cons, htail]

theorem Inv.alone (h : w.Inv) {i : ℕ} {iter : MirrorFsIterator} (hi : w.live[i]? = some iter)
    (hreadDir : iter.readDir = some readDir) :
    (∀ it ∈ w.live.eraseIdx i, ∀ rd, it.readDir = some rd → rd.stream ≠ readDir.stream) ∧
      ∀ d, ∀ info ∈ w.fs.iteratorCache.cache d, info.readDir.stream ≠ readDir.stream := by
  obtain ⟨hlt, hget⟩ := List.getElem?_eq_some_iff.mp hi
  have hcount : w.liveOwners readDir.stream = (w.live.eraseIdx i).countP
      (fun iter => iter.readDir.any (·.stream = readDir.stream)) + 1 := by
    rw [liveOwners, ← (List.getElem_cons_eraseIdx_perm hlt).countP_eq, List.countP_cons, hget]
    simp [hreadDir]
  constructor
  · intro it hit rd hrd hstream
    have hzero : (w.live.eraseIdx i).countP
        (fun iter => iter.readDir.any (·.stream = readDir.stream)) = 0 := by
      have hsingle := h.single iter.dirid readDir.stream
      omega
    refine List.countP_eq_zero.mp hzero it hit ?_
    simp [hrd, hstream]
  · intro d info hinfo hstream
    have hzero : w.cachedOwners d readDir.stream = 0 := by
      have hsingle := h.single d readDir.stream
      omega
    refine List.countP_eq_zero.mp hzero info hinfo ?_
    simp [hstream]

theorem Inv.withEmission (h : w.Inv) {cache : SymbolsCache T S} {i : ℕ} {iter : MirrorFsIterator}
    {name : EntryName} {pending : List (IoResult EntryName)}
    (hbound : (w.withEmission cache i iter readDir name pending).Bounded)
    (hi : w.live[i]? = some iter) (hreadDir : iter.readDir = some readDir)
    (hpending : readDir.pending = .ok name :: pending)
    (hknown : ∀ d, w.fs.Known d → ({ w.fs with cache } : Fs T S).Known d) :
    (w.withEmission cache i iter readDir name pending).Inv := by
  have hyielded := yielded_withEmission w cache i iter readDir name pending
  obtain ⟨hk, listing, hat⟩ := h.live iter (List.mem_of_getElem? hi) readDir hreadDir
  obtain ⟨hname, htail⟩ := hat.head hpending
  obtain ⟨hrest, hcached⟩ := h.alone hi hreadDir
  have hlt := (List.getElem?_eq_some_iff.mp hi).1
  have hself : (w.withEmission cache i iter readDir name pending).yielded readDir.stream =
      w.yielded readDir.stream + 1 := by rw [hyielded, if_pos rfl]
  have hother : ∀ stream, stream ≠ readDir.stream →
      (w.withEmission cache i iter readDir name pending).yielded stream = w.yielded stream := by
    intro stream hne
    rw [hyielded, if_neg hne.symm, Nat.add_zero]
  have hnext : w.yielded readDir.stream + 1 < 2 ^ 32 := hself ▸ hbound.yielded readDir.stream
  have hcookie := hat.toNat_next hbound.opened hnext
  have hat' : ∀ {d cookie rd listing}, rd.stream ≠ readDir.stream → w.At d cookie rd listing →
      (w.withEmission cache i iter readDir name pending).At d cookie rd listing :=
    fun hne hat => hat.keep rfl (hother _ hne)
  constructor
  · exact h.counter
  · intro it hit rd hrd
    have hperm := List.set_perm_cons_eraseIdx hlt
      { iter with readDir := some { readDir with pending }, cookie := iter.cookie + 1 }
    rcases List.mem_cons.mp (hperm.mem_iff.mp hit) with rfl | hit
    · obtain rfl := Option.some.inj hrd
      refine ⟨hknown _ hk, listing, hat.opened, ?_, ?_⟩
      · dsimp only
        rw [hcookie, hself, Nat.add_assoc]
      · dsimp only
        rw [hself, htail]
    · obtain ⟨hk', listing', hat''⟩ := h.live it (List.mem_of_mem_eraseIdx hit) rd hrd
      exact ⟨hknown _ hk', listing', hat' (hrest it hit rd hrd) hat''⟩
  · intro d info hinfo
    obtain ⟨listing', hl⟩ := h.cached d info hinfo
    exact ⟨listing', hat' (hcached d info hinfo) hl⟩
  · intro d stream
    have hsame : (w.withEmission cache i iter readDir name pending).cachedOwners d stream =
        w.cachedOwners d stream := rfl
    rw [liveOwners_withEmission hi hreadDir, hsame]
    exact h.single d stream
  · intro e he
    rcases List.mem_append.mp he with he | he
    · obtain ⟨listing', j, hopened, hj, hc, hn⟩ := h.emissions e he
      refine ⟨listing', j, hopened, ?_, hc, hn⟩
      rw [hyielded]
      omega
    · obtain rfl := List.mem_singleton.mp he
      exact ⟨listing, w.yielded readDir.stream, hat.opened, by rw [hself]; omega, hcookie, hname⟩
  · intro stream j hj
    by_cases hlast : j < w.yielded stream
    · obtain ⟨e, he, hs, hc⟩ := h.complete stream j hlast
      exact ⟨e, List.mem_append_left _ he, hs, hc⟩
    · rw [hyielded] at hj
      split_ifs at hj with hstream
      · have hjk : j = w.yielded readDir.stream := by
          rw [hstream]
          omega
        refine ⟨_, List.mem_append_right _ (List.mem_singleton.mpr rfl), hstream, ?_⟩
        rw [hjk, ← hstream]
        exact hcookie
      · omega
  · refine List.pairwise_append.mpr ⟨h.distinct, List.pairwise_singleton _ _, ?_⟩
    intro e he e' he'
    obtain rfl := List.mem_singleton.mp he'
    refine h.cookie_new ?_ hnext hcookie he
    intro stream
    have hsmall := hbound.yielded stream
    rw [hyielded] at hsmall
    omega

/-- A stream that is at its end has no owner any more. -/
theorem Inv.ended (h : w.Inv) {i : ℕ} {iter : MirrorFsIterator} (hi : w.live[i]? = some iter) :
    Inv { w with live := w.live.set i { iter with readDir := none } } := by
  obtain ⟨hlt, hget⟩ := List.getElem?_eq_some_iff.mp hi
  have hperm := List.set_perm_cons_eraseIdx hlt { iter with readDir := none }
  refine h.transfer rfl rfl rfl ?_ h.cached ?_
  · intro it hit rd hrd
    rcases List.mem_cons.mp (hperm.mem_iff.mp hit) with rfl | hit
    · cases hrd
    · exact h.live it (List.mem_of_mem_eraseIdx hit) rd hrd
  · intro d stream
    have hle : liveOwners { w with live := w.live.set i { iter with readDir := none } } stream ≤
        w.liveOwners stream := by
      have hcons : ({ iter with readDir := none } :: w.live.eraseIdx i).countP
          (fun iter => iter.readDir.any (·.stream = stream)) = (w.live.eraseIdx i).countP
            (fun iter => iter.readDir.any (·.stream = stream)) := by
        rw [List.countP_cons]
        simp
      rw [liveOwners, hperm.countP_eq, hcons]
      exact (List.eraseIdx_sublist _ _).countP_le
    exact (Nat.add_le_add_right hle _).trans (h.single d stream)

/-! ## Runs -/

section Runs

variable {event : Event} {events : List Event}

/-- What a step did: nothing to speak of, or one of the moves above. -/
inductive Stepped (w : World T S) : Event → World T S → Prop
  | idle (event : Event) : Stepped w event w
  | created {dirid : FileHandleU64} {metadata : IoResult Metadata} {names : List EntryName}
      (known : w.fs.Known dirid) :
      Stepped w (.openDir dirid 0 metadata (.ok names)) (w.withStream dirid names)
  | resumed {dirid : FileHandleU64} {cookie : UInt64} {metadata : IoResult Metadata}
      {listing : IoResult (List EntryName)} {info : CachedIteratorInfo}
      {rest : List CachedIteratorInfo} (nonzero : cookie ≠ 0) (known : w.fs.Known dirid)
      (cookie_eq : info.cookie = cookie)
      (perm : (w.fs.iteratorCache.cache dirid).Perm (info :: rest)) :
      Stepped w (.openDir dirid cookie metadata listing) (w.withResumed dirid info rest)
  | ended {index : ℕ} {iter : MirrorFsIterator} (live : w.live[index]? = some iter) :
      Stepped w (.next index) { w with live := w.live.set index { iter with readDir := none } }
  | emitted {index : ℕ} {iter : MirrorFsIterator} {readDir : ReadDir} {name : EntryName}
      {pending : List (IoResult EntryName)} {cache : SymbolsCache T S}
      (live : w.live[index]? = some iter) (readDir_eq : iter.readDir = some readDir)
      (pending_eq : readDir.pending = .ok name :: pending)
      (known : ∀ d, w.fs.Known d → ({ w.fs with cache } : Fs T S).Known d) :
      Stepped w (.next index) (w.withEmission cache index iter readDir name pending)
  | dropped {index : ℕ} {iter : MirrorFsIterator} (now : Instant)
      (live : w.live[index]? = some iter) :
      Stepped w (.drop index now) { w with fs := w.fs.drop iter now, live := w.live.eraseIdx index }
  | cleaned (now : Instant) : Stepped w (.cleanup now)
      { w with fs := { w.fs with iteratorCache := w.fs.iteratorCache.cleanup now } }

theorem Stepped.inv (h : Stepped w event w') (hb : w'.Bounded) (hi : w.Inv) : w'.Inv := by
  cases h with
  | idle => exact hi
  | created hknown =>
    exact hi.withStream (by simpa [World.withStream] using hb.opened) hknown _
  | resumed _ hknown _ hperm => exact hi.withResumed hknown hperm
  | ended hlive => exact hi.ended hlive
  | emitted hlive hreadDir hpending hknown =>
    exact hi.withEmission hb hlive hreadDir hpending hknown
  | dropped now hlive => exact hi.dropped hlive now
  | cleaned now => exact hi.cleaned now

/-- Every directory's part of the cache is within the limit. -/
def Small (w : World T S) : Prop :=
  ∀ d, (w.fs.iteratorCache.cache d).length ≤ w.fs.iteratorCache.maxCachedPerDir.toNat

theorem small_setDir {c : IteratorCache} {l : List CachedIteratorInfo} {max : ℕ}
    (h : ∀ d, (c.cache d).length ≤ max) (hl : l.length ≤ max) :
    ((c.setDir dirid l).cache d).length ≤ max := by
  have hcache : (c.setDir dirid l).cache d = if d = dirid then l else c.cache d :=
    Function.update_apply _ _ _ _
  rw [hcache]
  split_ifs
  · exact hl
  · exact h d

theorem Stepped.small (h : Stepped w event w') (hs : w.Small) : w'.Small := by
  intro d
  cases h with
  | idle => exact hs d
  | created => exact hs d
  | @resumed dirid _ _ _ info rest _ _ _ hperm =>
    have hlength := hperm.length_eq
    have hbefore := hs dirid
    rw [List.length_cons] at hlength
    have hrest : rest.length ≤ w.fs.iteratorCache.maxCachedPerDir.toNat := by omega
    exact small_setDir hs hrest
  | ended => exact hs d
  | emitted => exact hs d
  | @dropped _ iter now _ =>
    cases hreadDir : iter.readDir with
    | none =>
      rw [Fs.drop_of_none hreadDir]
      exact hs d
    | some readDir =>
      simp only [Fs.drop, hreadDir, IteratorCache.cacheState]
      refine small_setDir hs ?_
      obtain ⟨-, -, hlength, -⟩ := IteratorCache.trim_spec w.fs.iteratorCache.maxCachedPerDir
        (w.fs.iteratorCache.cache iter.dirid ++ [⟨iter.cookie, now, readDir⟩])
      exact hlength.trans_le (Nat.min_le_right _ _)
  | cleaned now => exact (List.length_filter_le _ _).trans (hs d)

variable [SymbolTable T S]

theorem Inv.next_stepped (h : w.Inv) {index : ℕ} (hstep : w.step (.next index) = some w') :
    Stepped w (.next index) w' := by
  simp only [step] at hstep
  split at hstep
  · cases hstep
  rename_i iter hiter
  obtain ⟨⟨r, iter', fs'⟩, heval, rfl⟩ := Option.map_eq_some_iff.mp hstep
  have hknown : iter.readDir.isSome → w.fs.Known iter.dirid := by
    intro hsome
    obtain ⟨readDir, hreadDir⟩ := Option.isSome_iff_exists.mp hsome
    exact (h.live iter (List.mem_of_getElem? hiter) readDir hreadDir).1
  cases Fs.advanced_of_ends hknown (Prog.ends_of_eval heval) with
  | atEnd hnone =>
    have hset : w.live.set index iter = w.live := by
      obtain ⟨hlt, rfl⟩ := List.getElem?_eq_some_iff.mp hiter
      exact List.set_getElem_self hlt
    simp only [emission, List.append_nil, hset]
    exact .idle _
  | ended hreadDir hpending =>
    simp only [emission, List.append_nil]
    exact .ended hiter
  | broken hreadDir hpending =>
    -- reading does not fail
    obtain ⟨-, listing, hat⟩ := h.live iter (List.mem_of_getElem? hiter) _ hreadDir
    have hok := hat.pending
    rw [hpending] at hok
    obtain ⟨first, rest, -, hfirst, -⟩ := List.map_eq_cons_iff.mp hok.symm
    cases hfirst
  | yielded handle hreadDir hpending hkeep =>
    simp only [emission, hreadDir, Option.map_some, Option.toList_some]
    exact .emitted hiter hreadDir hpending hkeep

theorem open_stepped {dirid : FileHandleU64} {cookie : UInt64} {metadata : IoResult Metadata}
    {listing : IoResult (List EntryName)}
    (hstep : w.step (.openDir dirid cookie metadata listing) = some w') :
    Stepped w (.openDir dirid cookie metadata listing) w' := by
  simp only [step] at hstep
  obtain ⟨⟨r, fs'⟩, heval, hw'⟩ := Option.map_eq_some_iff.mp hstep
  cases Fs.opened_of_eval heval with
  | failed stat =>
    cases hw'
    exact .idle _
  | created hzero hknown hreply =>
    subst hzero
    cases listing with
    | error kind => cases hreply
    | ok names =>
      cases hreply
      cases hw'
      exact .created hknown
  | resumed hnonzero hknown hpopped =>
    cases hpopped with
    | found hcookie hperm =>
      dsimp only at hw'
      rw [if_neg hnonzero] at hw'
      cases hw'
      exact .resumed hnonzero hknown hcookie hperm

theorem Inv.stepped (h : w.Inv) (hstep : w.step event = some w') : Stepped w event w' := by
  cases event with
  | openDir dirid cookie metadata listing => exact open_stepped hstep
  | next index => exact h.next_stepped hstep
  | drop index now =>
    simp only [step] at hstep
    split at hstep
    · cases hstep
    · rename_i iter hiter
      cases hstep
      exact .dropped now hiter
  | cleanup now =>
    cases hstep
    exact .cleaned now

theorem step_grows (hstep : w.step event = some w') :
    ∃ opened emitted, w'.opened = w.opened ++ opened ∧ w'.emitted = w.emitted ++ emitted := by
  cases event with
  | openDir dirid cookie metadata listing =>
    simp only [step] at hstep
    obtain ⟨⟨r, fs'⟩, -, hw'⟩ := Option.map_eq_some_iff.mp hstep
    cases r with
    | error stat =>
      cases hw'
      exact ⟨[], [], by simp, by simp⟩
    | ok iter =>
      cases hw'
      dsimp only
      split_ifs
      · exact ⟨_, [], rfl, by simp⟩
      · exact ⟨[], [], by simp, by simp⟩
  | next index =>
    simp only [step] at hstep
    split at hstep
    · cases hstep
    · obtain ⟨⟨r, iter', fs'⟩, -, rfl⟩ := Option.map_eq_some_iff.mp hstep
      exact ⟨[], _, by simp, rfl⟩
  | drop index now =>
    simp only [step] at hstep
    split at hstep
    · cases hstep
    · cases hstep
      exact ⟨[], [], by simp, by simp⟩
  | cleanup now =>
    cases hstep
    exact ⟨[], [], by simp, by simp⟩

theorem bounded_of_step (hstep : w.step event = some w') (hb : w'.Bounded) : w.Bounded := by
  obtain ⟨opened, emitted, hopened, hemitted⟩ := step_grows hstep
  constructor
  · have hlength := hb.opened
    rw [hopened, List.length_append] at hlength
    omega
  · intro stream
    have hcount := hb.yielded stream
    rw [yielded, hemitted, List.countP_append] at hcount
    rw [yielded]
    omega

theorem step_inv (hi : w.Bounded → w.Inv ∧ w.Small) (hstep : w.step event = some w')
    (hb : w'.Bounded) : w'.Inv ∧ w'.Small := by
  obtain ⟨hinv, hsmall⟩ := hi (bounded_of_step hstep hb)
  have hstepped := hinv.stepped hstep
  exact ⟨hstepped.inv hb hinv, hstepped.small hsmall⟩

theorem run_inv {root : PathBuf} {retentionPeriod : ℕ} {maxCachedPerDir : UInt16}
    (hrun : Transition.run step (new root retentionPeriod maxCachedPerDir) events = some w)
    (hb : w.Bounded) : w.Inv ∧ w.Small := by
  have hstep : ∀ (w : World T S) event w', (w.Bounded → w.Inv ∧ w.Small) → True →
      w.step event = some w' → w'.Bounded → w'.Inv ∧ w'.Small :=
    fun _ _ _ hi _ hs => step_inv hi hs
  have hnew : (new root retentionPeriod maxCachedPerDir : World T S).Small := fun d => Nat.zero_le _
  have hinv := Transition.run_invariant hstep
    (fun _ => ⟨inv_new root retentionPeriod maxCachedPerDir, hnew⟩)
    (Transition.along_of_forall fun _ _ => trivial) hrun
  exact hinv hb

/-- What an iterator obtained for a cookie has behind it. -/
structure Resumes (w : World T S) (dirid : FileHandleU64) (cookie : UInt64)
    (iter : MirrorFsIterator) (fs' : Fs T S) (readDir : ReadDir) (listing : List EntryName)
    (consumed : ℕ) : Prop where
  readDir_eq : iter.readDir = some readDir
  opened : w.opened[readDir.stream]? = some (dirid, listing)
  pending : readDir.pending = (listing.drop consumed).map .ok
  cookie_eq : cookie.toNat = readDir.stream * 2 ^ 32 + consumed
  assigned : 0 < consumed → ∃ e ∈ w.emitted, e.cookie = cookie ∧ e.dirid = dirid ∧
    listing[consumed - 1]? = some e.name
  unowned : w.liveOwners readDir.stream = 0
  gone : ∀ d, ∀ info ∈ fs'.iteratorCache.cache d, info.readDir.stream ≠ readDir.stream

theorem Inv.resumes (h : w.Inv) {answer : (c : HostCall) → c.Reply} {iter : MirrorFsIterator}
    {fs' : Fs T S}
    (heval : (w.fs.getOrCreateIterator dirid cookie).eval answer = some (.ok iter, fs'))
    (hcookie : cookie ≠ 0) :
    ∃ readDir listing consumed, w.Resumes dirid cookie iter fs' readDir listing consumed := by
  cases Fs.opened_of_eval heval with
  | created hzero => exact absurd hzero hcookie
  | @resumed info _ _ hknown hpopped =>
    cases hpopped with
    | @found _ rest hinfo hperm =>
      have hmem : info ∈ w.fs.iteratorCache.cache dirid := hperm.mem_iff.mpr List.mem_cons_self
      obtain ⟨listing, hat⟩ := h.cached dirid info hmem
      have hunowned : w.liveOwners info.readDir.stream = 0 := by
        have hsingle := h.single dirid info.readDir.stream
        have hpos : 0 < w.cachedOwners dirid info.readDir.stream :=
          List.countP_pos_iff.mpr ⟨info, hmem, by simp⟩
        omega
      have hgone := ((h.withResumed hknown hperm).alone List.getElem?_concat_length rfl).2
      refine ⟨info.readDir, listing, w.yielded info.readDir.stream, rfl, hat.opened, hat.pending,
        by rw [← hinfo, hat.cookie], ?_, hunowned, hgone⟩
      intro hpos
      obtain ⟨e, he, hstream, hvalue⟩ := h.complete info.readDir.stream
        (w.yielded info.readDir.stream - 1) (by omega)
      have hsame : e.cookie = cookie := by
        apply UInt64.toNat_inj.mp
        rw [hvalue, ← hinfo, hat.cookie]
        omega
      obtain ⟨listing', j, hopened, -, hj, hname⟩ := h.emissions e he
      rw [hstream, hat.opened] at hopened
      cases hopened
      have hindex : j = w.yielded info.readDir.stream - 1 := by
        rw [hstream] at hj
        omega
      exact ⟨e, he, hsame, rfl, by rw [← hindex, hname]⟩

/-- For every interleaving of opening, reading, dropping and cleaning up with fewer than `2 ^ 32`
streams and entries from each: cookies are never given twice and never zero; no directory has
more states cached than allowed, and the oldest go first; a stream has at most one owner; and
who resumes at a cookie gets a stream from which exactly the entries up to that cookie were
taken, and which nobody else can get. -/
theorem iterator_cache_linear {root : PathBuf} {retentionPeriod : ℕ} {maxCachedPerDir : UInt16}
    (hrun : Transition.run step (new root retentionPeriod maxCachedPerDir) events = some w)
    (hopened : w.opened.length < 2 ^ 32) (hyielded : ∀ stream, w.yielded stream < 2 ^ 32) :
    (w.emitted.Pairwise fun e e' => e.cookie ≠ e'.cookie) ∧ (∀ e ∈ w.emitted, e.cookie ≠ 0) ∧
    (∀ d, (w.fs.iteratorCache.cache d).length ≤ w.fs.iteratorCache.maxCachedPerDir.toNat) ∧
    (∀ (d : FileHandleU64) (cookie : UInt64) (readDir : ReadDir) (now : Instant), ∃ evicted,
      (w.fs.iteratorCache.cache d ++ [CachedIteratorInfo.mk cookie now readDir]).Perm
        (evicted ++ (w.fs.iteratorCache.cacheState d cookie readDir now).cache d) ∧
      ((w.fs.iteratorCache.cacheState d cookie readDir now).cache d).length ≤
        w.fs.iteratorCache.maxCachedPerDir.toNat ∧
      ∀ e ∈ evicted, ∀ k ∈ (w.fs.iteratorCache.cacheState d cookie readDir now).cache d,
        e.cachedAt ≤ k.cachedAt) ∧
    (∀ d stream, w.liveOwners stream + w.cachedOwners d stream ≤ 1) ∧
    (∀ answer dirid cookie iter fs',
      (w.fs.getOrCreateIterator dirid cookie).eval answer = some (.ok iter, fs') → cookie ≠ 0 →
        ∃ readDir listing consumed, w.Resumes dirid cookie iter fs' readDir listing consumed) := by
  obtain ⟨hinv, hsmall⟩ := run_inv hrun ⟨hopened, hyielded⟩
  refine ⟨hinv.distinct, ?_, hsmall, ?_, hinv.single, ?_⟩
  · intro e he hzero
    obtain ⟨-, j, -, -, hvalue, -⟩ := hinv.emissions e he
    rw [hzero] at hvalue
    simp at hvalue
  · intro d cookie readDir now
    obtain ⟨evicted, hperm, hlength, hage⟩ := IteratorCache.trim_spec
      w.fs.iteratorCache.maxCachedPerDir (w.fs.iteratorCache.cache d ++ [⟨cookie, now, readDir⟩])
    have hcache : (w.fs.iteratorCache.cacheState d cookie readDir now).cache d =
        IteratorCache.trim w.fs.iteratorCache.maxCachedPerDir
          (w.fs.iteratorCache.cache d ++ [⟨cookie, now, readDir⟩]) := Function.update_self _ _ _
    rw [hcache]
    exact ⟨evicted, hperm, hlength.trans_le (Nat.min_le_right _ _), hage⟩
  · intro answer dirid cookie iter fs' heval hcookie
    exact hinv.resumes heval hcookie

end Runs

def sampleMetadata : Metadata := ⟨.nf3dir, 0o755, 2, 0, 0, 0, none, none, none⟩

def sampleNames : List EntryName :=
  [⟨[0x61], by decide, by decide, by decide, by decide⟩,
    ⟨[0x62], by decide, by decide, by decide, by decide⟩]

/-- The root is listed, the iterator dropped after one entry and resumed there. -/
def sampleEvents : List Event :=
  [.openDir 1 0 (.ok sampleMetadata) (.ok sampleNames), .next 0, .drop 0 5,
    .openDir 1 1 (.ok sampleMetadata) (.ok []), .next 0, .cleanup 70]

theorem iterator_cache_linear_resumed :
    ∃ w : World ListTable ℕ, Transition.run step (new [sep] 60 20) sampleEvents = some w ∧
      w.emitted.map (·.cookie) = [1, 2] ∧
      w.emitted.Pairwise fun e e' => e.cookie ≠ e'.cookie := by
  have hrun : (Transition.run step (new [sep] 60 20 : World ListTable ℕ) sampleEvents).map
      (fun w => (w.opened.length, w.emitted.map (·.cookie))) = some (1, [1, 2]) := by rfl
  obtain ⟨w, hw, heq⟩ := Option.map_eq_some_iff.mp hrun
  obtain ⟨hopened, hcookies⟩ := Prod.mk.inj heq
  have hyielded : ∀ stream, w.yielded stream < 2 ^ 32 := by
    intro stream
    have hle : w.yielded stream ≤ w.emitted.length := List.countP_le_length
    have hlength : w.emitted.length = 2 := by simpa using congrArg List.length hcookies
    omega
  exact ⟨w, hw, hcookies, (iterator_cache_linear hw (by omega) hyielded).1⟩

end World

end Nfs3.Mirror
