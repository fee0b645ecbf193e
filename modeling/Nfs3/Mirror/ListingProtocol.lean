import Nfs3.Mirror.IteratorInvariant
import Nfs3.Mirror.Requests

/-!
# The protocol of listings

A request opens at most one iterator, reads it and drops it. Reading moves the cookie of the
iterator on; when a page is full, one entry was taken that is not in it.
-/
namespace Nfs3.Mirror

open Interaction (Prog Pool Turn Protocol)

/-! ## Iterators that move on -/

/-- The stream of a cookie. -/
def block (cookie : UInt64) : ℕ := cookie.toNat / 2 ^ 32

namespace MirrorFsIterator

/-- How many entries are still to come. -/
def left (iter : MirrorFsIterator) : ℕ := (iter.readDir.map (·.pending.length)).getD 0

/-- The entries to come do not lead out of the block. -/
def Within (iter : MirrorFsIterator) : Prop := iter.cookie.toNat % 2 ^ 32 + iter.left < 2 ^ 32

/-- The iterator moved on by `n` entries, and passed over others that gave none. -/
structure Moves (n : ℕ) (iter iter' : MirrorFsIterator) : Prop where
  dirid : iter'.dirid = iter.dirid
  cookie : iter'.cookie = iter.cookie + UInt64.ofNat n
  left : n + iter'.left ≤ iter.left

variable {n m : ℕ} {iter iter' iter'' : MirrorFsIterator}

theorem Moves.refl (iter : MirrorFsIterator) : Moves 0 iter iter := ⟨rfl, by simp, by simp⟩

theorem Moves.trans (h : Moves n iter iter') (h' : Moves m iter' iter'') :
    Moves (n + m) iter iter'' where
  dirid := h'.dirid.trans h.dirid
  cookie := by rw [h'.cookie, h.cookie, UInt64.ofNat_add, UInt64.add_assoc]
  left := by
    have := h.left
    have := h'.left
    omega

theorem Moves.toNat_cookie (h : Moves n iter iter') (hw : iter.Within) :
    iter'.cookie.toNat = iter.cookie.toNat + n := by
  have hleft := h.left
  have hlt := iter.cookie.toNat_lt
  unfold Within at hw
  rw [h.cookie, UInt64.toNat_add, UInt64.toNat_ofNat']
  omega

theorem Moves.within (h : Moves n iter iter') (hw : iter.Within) : iter'.Within := by
  have hleft := h.left
  have hcookie := h.toNat_cookie hw
  unfold Within at hw ⊢
  omega

theorem Moves.block_eq (h : Moves n iter iter') (hw : iter.Within) :
    block iter'.cookie = block iter.cookie := by
  have hleft := h.left
  have hcookie := h.toNat_cookie hw
  unfold Within at hw
  unfold block
  omega

/-- What `next` did: an entry carries the cookie that the iterator has now. -/
def Taken {E : Type} (cookieOf : E → UInt64) (iter : MirrorFsIterator) (r : NextResult E)
    (iter' : MirrorFsIterator) : Prop :=
  ∃ n, Moves n iter iter' ∧ ∀ entry, r = .ok entry → 0 < n ∧ cookieOf entry = iter'.cookie

end MirrorFsIterator

section Steps

variable {T S : Type} [SymbolTable T S] [DecidableEq S]

namespace Fs

open MirrorFsIterator (Moves Taken)

theorem taken_nextEntryCommon (fs : Fs T S) (iter : MirrorFsIterator) :
    (fs.nextEntryCommon iter).Meets (fun _ => True) fun r =>
      r.2.2.iteratorCache = fs.iteratorCache ∧ Taken (·.2.2) iter r.1 r.2.1 := by
  unfold nextEntryCommon
  split
  · exact ⟨rfl, 0, .refl iter, fun _ h => nomatch h⟩
  rename_i readDir hreadDir
  split
  · exact ⟨rfl, 0, ⟨rfl, by simp, by simp [MirrorFsIterator.left]⟩, fun _ h => nomatch h⟩
  · rename_i kind pending hpending
    refine ⟨rfl, 0, ⟨rfl, by simp, ?_⟩, fun _ h => nomatch h⟩
    simp [MirrorFsIterator.left, hreadDir, hpending]
  rename_i name pending hpending
  have hpassed : Moves 0 iter { iter with readDir := some { readDir with pending } } :=
    ⟨rfl, by simp, by simp [MirrorFsIterator.left, hreadDir, hpending]⟩
  have hmoved : Moves 1 iter
      { iter with readDir := some { readDir with pending }, cookie := iter.cookie + 1 } := by
    refine ⟨rfl, rfl, ?_⟩
    simp only [MirrorFsIterator.left, hreadDir, hpending, Option.map_some, Option.getD_some,
      List.length_cons]
    omega
  dsimp only
  split
  · exact ⟨rfl, 0, hpassed, fun _ h => nomatch h⟩
  rw [Prog.meets_bind]
  refine Prog.Meets.of_forall ?_
  rintro ⟨r, cache⟩
  cases r with
  | error stat => exact ⟨rfl, 0, hpassed, fun _ h => nomatch h⟩
  | ok handle =>
    refine ⟨rfl, 1, hmoved, ?_⟩
    intro entry hentry
    cases hentry
    exact ⟨Nat.one_pos, rfl⟩

theorem taken_nextPlusLoop (fuel : ℕ) (fs : Fs T S) (iter : MirrorFsIterator) :
    (nextPlusLoop fuel fs iter).Meets (fun _ => True) fun r =>
      r.2.2.iteratorCache = fs.iteratorCache ∧ Taken (·.cookie) iter r.1 r.2.1 := by
  induction fuel generalizing fs iter with
  | zero => trivial
  | succ fuel ih =>
    unfold nextPlusLoop
    rw [Prog.meets_bind]
    refine (taken_nextEntryCommon fs iter).mono ?_
    rintro ⟨entry, iter', fs'⟩ ⟨hcache, n, hmoves, hentry⟩
    cases entry with
    | eof | err =>
      refine ⟨hcache, n, hmoves, ?_⟩
      intro e he
      cases he
    | ok entry =>
      dsimp only
      rw [Prog.meets_bind]
      refine Prog.Meets.of_forall fun path => ?_
      cases path with
      | error stat =>
        -- the entry is passed over
        refine (ih fs' iter').mono ?_
        rintro r ⟨hcache', m, hmoves', hentry'⟩
        refine ⟨hcache'.trans hcache, n + m, hmoves.trans hmoves', ?_⟩
        intro e he
        obtain ⟨hpos, hcookie⟩ := hentry' e he
        exact ⟨by omega, hcookie⟩
      | ok relativePath =>
        refine ⟨trivial, fun metadata => ⟨hcache, n, hmoves, ?_⟩⟩
        intro e he
        cases he
        exact hentry entry rfl

/-- A directory that was opened: by a new stream with a block of its own, or by one from the
cache. -/
inductive Opens (c : IteratorCache) (dirid : FileHandleU64) (cookie : UInt64) :
    MirrorFsIterator → IteratorCache → Prop
  | created {readDir : ReadDir} (zero : cookie = 0) (small : readDir.pending.length < 2 ^ 32) :
      Opens c dirid cookie ⟨dirid, some readDir, c.generateBaseCookie.1⟩ c.generateBaseCookie.2
  | resumed {info : CachedIteratorInfo} {rest : List CachedIteratorInfo}
      (cookie_eq : info.cookie = cookie) (perm : (c.cache dirid).Perm (info :: rest)) :
      Opens c dirid cookie ⟨dirid, some info.readDir, info.cookie⟩ (c.setDir dirid rest)

theorem within_created (c : IteratorCache) (dirid : FileHandleU64) {readDir : ReadDir}
    (h : readDir.pending.length < 2 ^ 32) :
    MirrorFsIterator.Within ⟨dirid, some readDir, c.generateBaseCookie.1⟩ := by
  have hbase := World.toNat_baseCookie c
  simp only [MirrorFsIterator.Within, MirrorFsIterator.left, Option.map_some, Option.getD_some]
  omega

/-- Listings of the host are short. -/
def shortListings : Protocol HostCall HostCall.Reply Unit where
  allows _ _ := True
  relies _ c := match c with
    | .readDir _ => fun r => ∀ readDir : ReadDir, r = Except.ok readDir →
      readDir.pending.length < 2 ^ 32
    | _ => fun _ => True
  next _ _ _ := ()

theorem opens_getOrCreateIterator (fs : Fs T S) (dirid : FileHandleU64) (cookie : UInt64) :
    (fs.getOrCreateIterator dirid cookie).Follows shortListings (fun _ r =>
      (∃ stat, r.1 = .error stat ∧ r.2.iteratorCache = fs.iteratorCache) ∨
        ∃ iter, r.1 = .ok iter ∧
          Opens fs.iteratorCache dirid cookie iter r.2.iteratorCache) () := by
  unfold getOrCreateIterator initializeReadDir
  rw [Prog.follows_bind, Prog.follows_bind]
  refine Prog.Follows.of_forall (fun _ _ => trivial) ?_
  rintro ⟨⟩ path
  cases path with
  | error stat => exact .inl ⟨_, rfl, rfl⟩
  | ok relativePath =>
    dsimp only
    split_ifs with hzero
    · refine ⟨trivial, fun metadata _ => ?_⟩
      cases metadata with
      | error kind => exact .inl ⟨_, rfl, rfl⟩
      | ok metadata =>
        dsimp only
        split_ifs
        · refine ⟨trivial, fun readDir hshort => ?_⟩
          cases readDir with
          | error kind => exact .inl ⟨_, rfl, rfl⟩
          | ok readDir => exact .inr ⟨_, rfl, .created hzero (hshort readDir rfl)⟩
        · exact .inl ⟨_, rfl, rfl⟩
    · split
      · rename_i info iteratorCache hpop
        have hpopped := IteratorCache.popState_popped hpop
        cases hpopped with
        | found hcookie hperm => exact .inr ⟨_, rfl, .resumed hcookie hperm⟩
      · rename_i iteratorCache hpop
        have hpopped := IteratorCache.popState_popped hpop
        cases hpopped
        exact .inl ⟨_, rfl, rfl⟩

end Fs

/-- The directories of the host have fewer than `2 ^ 32` entries. -/
def HostFs.Small {W : Type} (host : HostFs W) : Prop :=
  ∀ w path readDir, (host.answer w (.readDir path)).1 = Except.ok readDir →
    readDir.pending.length < 2 ^ 32

namespace Machine

variable {W : Type} {host : HostFs W} {s s' : Machine T S W}

theorem exec_iteratorCache {c : FsCall} {r : c.Reply} (hc : c.lists = false)
    (h : s.exec host c = some (r, s')) : s'.fs.iteratorCache = s.fs.iteratorCache := by
  have hmeets : (s.fs.exec c).Meets (fun _ => True)
      fun r => r.2.iteratorCache = s.fs.iteratorCache := by
    cases c with
    | host c => exact ⟨trivial, fun _ => rfl⟩
    | handleToPath id => exact Prog.meets_bind.mpr (Prog.Meets.of_forall fun _ => rfl)
    | lookupById parentId name checkPath =>
      exact Prog.meets_bind.mpr (Prog.Meets.of_forall fun _ => rfl)
    | getOrCreateIterator | next | nextPlus | drop => cases hc
  exact hmeets.ends (ends_of_exec h)

theorem exec_next {iter iter' : MirrorFsIterator} {r : NextResult DirEntry}
    (h : s.exec host (.next iter) = some ((r, iter'), s')) :
    s'.fs.iteratorCache = s.fs.iteratorCache ∧
      MirrorFsIterator.Taken (·.cookie) iter r iter' := by
  have hmeets : (s.fs.exec (.next iter)).Meets (fun _ => True) fun r =>
      r.2.iteratorCache = s.fs.iteratorCache ∧
        MirrorFsIterator.Taken (·.cookie) iter r.1.1 r.1.2 := by
    refine Prog.meets_bind.mpr (Prog.meets_bind.mpr ?_)
    refine (Fs.taken_nextEntryCommon s.fs iter).mono ?_
    rintro ⟨entry, iter', fs'⟩ ⟨hcache, n, hmoves, hentry⟩
    cases entry with
    | eof | err =>
      refine ⟨hcache, n, hmoves, ?_⟩
      intro e he
      cases he
    | ok entry =>
      refine ⟨hcache, n, hmoves, ?_⟩
      intro e he
      cases he
      exact hentry entry rfl
  exact hmeets.ends (ends_of_exec h)

theorem exec_nextPlus {iter iter' : MirrorFsIterator} {r : NextResult (DirEntryPlus FileHandleU64)}
    (h : s.exec host (.nextPlus iter) = some ((r, iter'), s')) :
    s'.fs.iteratorCache = s.fs.iteratorCache ∧
      MirrorFsIterator.Taken (·.cookie) iter r iter' := by
  have hmeets : (s.fs.exec (.nextPlus iter)).Meets (fun _ => True) fun r =>
      r.2.iteratorCache = s.fs.iteratorCache ∧
        MirrorFsIterator.Taken (·.cookie) iter r.1.1 r.1.2 := by
    refine Prog.meets_bind.mpr ?_
    exact (Fs.taken_nextPlusLoop _ s.fs iter).mono fun _ hr => hr
  exact hmeets.ends (ends_of_exec h)

/-- What opening a directory does to the iterator cache. -/
theorem exec_open (hsmall : host.Small) {dirid : FileHandleU64} {cookie : UInt64}
    {r : Except Nfsstat3 MirrorFsIterator}
    (h : s.exec host (.getOrCreateIterator dirid cookie) = some (r, s')) :
    (∃ stat, r = .error stat ∧ s'.fs.iteratorCache = s.fs.iteratorCache) ∨
      ∃ iter, r = .ok iter ∧
        Fs.Opens s.fs.iteratorCache dirid cookie iter s'.fs.iteratorCache := by
  obtain ⟨⟨⟨r₁, fs⟩, w⟩, hrun, heq⟩ := Option.map_eq_some_iff.mp h
  cases heq
  have hshort : ∀ (p : Unit) w (c : HostCall) r w', some (host.answer w c) = some (r, w') →
      Fs.shortListings.relies p c r := by
    intro p w c r w' heq
    cases c with
    | readDir path =>
      intro readDir hr
      exact hsmall w path readDir (by rw [Option.some.inj heq, hr])
    | _ => trivial
  obtain ⟨-, hopens⟩ := (Fs.opens_getOrCreateIterator s.fs dirid cookie).runIn hshort hrun
  exact hopens

end Machine

end Steps

/-! ## The protocol of listings -/

/-- The iterator that a request holds, or held, with the cookie it was obtained for. -/
inductive Holding
  | nothing
  | held (asked : UInt64) (iter : MirrorFsIterator)
  | dropped (asked : UInt64) (iter : MirrorFsIterator)

namespace Holding

def isHeld (iter : MirrorFsIterator) : Holding → Prop
  | held _ iter' => iter' = iter
  | _ => False

def move (iter : MirrorFsIterator) : Holding → Holding
  | held asked _ => .held asked iter
  | p => p

def drop : Holding → Holding
  | held asked iter => .dropped asked iter
  | p => p

end Holding

open MirrorFsIterator (Within Taken)

/-- An iterator is opened once, read by its holder, and dropped. -/
def listing : Protocol FsCall FsCall.Reply Holding where
  allows p
    | .getOrCreateIterator .. => p = .nothing
    | .next iter | .nextPlus iter | .drop iter _ => p.isHeld iter
    | _ => True
  relies _
    | .getOrCreateIterator dirid _ => fun r =>
      ∀ iter : MirrorFsIterator, r = Except.ok iter → iter.dirid = dirid ∧ iter.Within
    | .next iter => fun r => Taken (·.cookie) iter r.1 r.2
    | .nextPlus iter => fun r => Taken (·.cookie) iter r.1 r.2
    | _ => fun _ => True
  next p
    | .getOrCreateIterator _ cookie => fun r =>
      match (r : Except Nfsstat3 MirrorFsIterator) with
      | .ok iter => .held cookie iter
      | .error _ => p
    | .next _ => fun r => p.move r.2
    | .nextPlus _ => fun r => p.move r.2
    | .drop .. => fun _ => p.drop
    | _ => fun _ => p

/-- The same for the calls of the handlers. -/
def vfsListing :
    Protocol (VfsCall FileHandleU64 MirrorFsIterator MirrorFsIterator) VfsCall.Reply Holding where
  allows p
    | .readdir .. | .readdirplus .. => p = .nothing
    | .readdirNext iter | .readdirplusNext iter | .readdirDrop iter | .readdirplusDrop iter =>
      p.isHeld iter
    | _ => True
  relies _
    | .readdir dirid _ | .readdirplus dirid _ => fun r =>
      ∀ iter : MirrorFsIterator, r = Except.ok iter → iter.dirid = dirid ∧ iter.Within
    | .readdirNext iter => fun r => Taken (·.cookie) iter r.1 r.2
    | .readdirplusNext iter => fun r => Taken (·.cookie) iter r.1 r.2
    | _ => fun _ => True
  next p
    | .readdir _ cookie | .readdirplus _ cookie => fun r =>
      match (r : Except Nfsstat3 MirrorFsIterator) with
      | .ok iter => .held cookie iter
      | .error _ => p
    | .readdirNext _ => fun r => p.move r.2
    | .readdirplusNext _ => fun r => p.move r.2
    | .readdirDrop _ | .readdirplusDrop _ => fun _ => p.drop
    | _ => fun _ => p

theorem listing_of_plain {c : FsCall} (hc : c.lists = false) (p : Holding) :
    listing.allows p c ∧ ∀ r, listing.next p c r = p := by
  cases c with
  | getOrCreateIterator | next | nextPlus | drop => cases hc
  | _ => exact ⟨trivial, fun _ => rfl⟩

theorem vfsListing_of_plain {c : VfsCall FileHandleU64 MirrorFsIterator MirrorFsIterator}
    (hc : c.lists = false) (p : Holding) :
    vfsListing.allows p c ∧ ∀ r, vfsListing.relies p c r ∧ vfsListing.next p c r = p := by
  cases c with
  | readdir | readdirNext | readdirDrop | readdirplus | readdirplusNext | readdirplusDrop =>
    cases hc
  | _ => exact ⟨trivial, fun _ => ⟨trivial, rfl⟩⟩

theorem serve_follows (root : PathBuf) (now : Instant) (p : Holding)
    (c : VfsCall FileHandleU64 MirrorFsIterator MirrorFsIterator) (hc : vfsListing.allows p c) :
    (Fs.serve root now c).Follows listing
      (fun p' r => vfsListing.relies p c r ∧ p' = vfsListing.next p c r) p := by
  by_cases hlists : c.lists = true
  · cases c with
    | readdir | readdirNext | readdirDrop | readdirplus | readdirplusNext | readdirplusDrop =>
      exact ⟨hc, fun r hr => ⟨hr, rfl⟩⟩
    | _ => cases hlists
  · have hplain : c.lists = false := by simpa using hlists
    have hasks := Fs.asks_serve (A := fun c => c.lists = false) (fun _ h => h) root now hplain
    refine (hasks.follows fun c hc => listing_of_plain hc p).mono ?_
    rintro p' r ⟨rfl, -⟩
    obtain ⟨hrelies, hnext⟩ := (vfsListing_of_plain hplain p').2 r
    exact ⟨hrelies, hnext.symm⟩

/-- A page that was replied: the cookie of its last entry, and whether the listing ends with it. -/
def Reply.page : Reply → Option (Option Cookie3 × Bool)
  | .readdir (.ok res) => some (res.reply.entries.items.getLast?.map (·.cookie), res.reply.eof)
  | .readdirplus (.ok res) => some (res.reply.entries.items.getLast?.map (·.cookie), res.reply.eof)
  | _ => none

/-- The directory and the cookie of a listing. -/
def Incoming.listed (i : Incoming) : Option (FileHandleU64 × Cookie3) :=
  match i.request with
  | .readdir args =>
    (i.context.fileHandleConverter.fhFromNfs args.dir).toOption.map fun dirid =>
      (dirid, args.cookie)
  | .readdirplus args =>
    (i.context.fileHandleConverter.fhFromNfs args.dir).toOption.map fun dirid =>
      (dirid, args.cookie)
  | _ => none

/-- The iterator has left the entry of the cookie behind and taken another one. -/
structure Beyond (cookie : UInt64) (iter : MirrorFsIterator) : Prop where
  ne_zero : cookie ≠ 0
  block_eq : block cookie = block iter.cookie
  lt : cookie.toNat < iter.cookie.toNat

/-- What holds when a listing replies: its iterator was dropped, beyond the last entry replied if
there are more to come. -/
def Listed (i : Incoming) (p : Holding) (reply : Reply) : Prop :=
  ∀ last eof, reply.page = some (last, eof) → ∃ dirid asked iter,
    i.listed = some (dirid, asked) ∧ p = .dropped asked iter ∧ iter.dirid = dirid ∧
      (eof = false → ∀ cookie, last = some cookie → Beyond cookie iter)

section Fill

variable {E B : Type} (cookieOf : E → UInt64) (last : B → Option UInt64) {asked : UInt64}

/-- The loop stops when an entry is refused, which is taken by then. -/
theorem fill_follows
    {next : MirrorFsIterator →
      VfsM FileHandleU64 MirrorFsIterator MirrorFsIterator (NextResult E × MirrorFsIterator)}
    {push : B → E → Option B}
    (hnext : ∀ iter, (next iter).Follows vfsListing
      (fun p r => p = .held asked r.2 ∧ Taken cookieOf iter r.1 r.2) (.held asked iter))
    (hpush : ∀ acc entry acc', push acc entry = some acc' → last acc' = some (cookieOf entry))
    (fuel : ℕ) (iter : MirrorFsIterator) (acc : B) (hwithin : iter.Within)
    (hlast : ∀ cookie, last acc = some cookie →
      cookie ≠ 0 ∧ block cookie = block iter.cookie ∧ cookie.toNat ≤ iter.cookie.toNat) :
    (NfsHandlers.fill next push fuel iter acc).Follows vfsListing
      (fun p r => p = .held asked r.2 ∧ r.2.dirid = iter.dirid ∧
        ∀ acc', r.1 = .ok (acc', false) → ∀ cookie, last acc' = some cookie → Beyond cookie r.2)
      (.held asked iter) := by
  induction fuel generalizing iter acc with
  | zero => trivial
  | succ fuel ih =>
    unfold NfsHandlers.fill
    rw [Prog.bind_eq, Prog.follows_bind]
    refine (hnext iter).mono ?_
    rintro p ⟨r, iter'⟩ ⟨rfl, n, hmoves, hentry⟩
    have hcookie : iter'.cookie.toNat = iter.cookie.toNat + n := hmoves.toNat_cookie hwithin
    have hblock := hmoves.block_eq hwithin
    cases r with
    | eof | err =>
      refine ⟨rfl, hmoves.dirid, ?_⟩
      intro acc' h
      cases h
    | ok entry =>
      obtain ⟨hpos, hval⟩ := hentry entry rfl
      dsimp only
      split
      · refine ⟨rfl, hmoves.dirid, ?_⟩
        intro acc' hacc cookie hc
        cases hacc
        obtain ⟨hne, hb, hle⟩ := hlast cookie hc
        exact ⟨hne, hb.trans hblock.symm, by dsimp only; omega⟩
      · rename_i acc' hacc
        have hnew : ∀ cookie, last acc' = some cookie → cookie ≠ 0 ∧
            block cookie = block iter'.cookie ∧ cookie.toNat ≤ iter'.cookie.toNat := by
          intro cookie hc
          rw [hpush acc entry acc' hacc, hval] at hc
          cases hc
          refine ⟨?_, rfl, le_rfl⟩
          intro hzero
          rw [hzero, UInt64.toNat_zero] at hcookie
          omega
        refine (ih iter' acc' (hmoves.within hwithin) hnew).mono ?_
        rintro p r ⟨hp, hdirid, hbeyond⟩
        exact ⟨hp, hdirid.trans hmoves.dirid, hbeyond⟩

theorem readdirNext_follows (asked : UInt64) (iter : MirrorFsIterator) :
    (Vfs.readdirNext iter : VfsM FileHandleU64 MirrorFsIterator MirrorFsIterator _).Follows
      vfsListing (fun p r => p = .held asked r.2 ∧ Taken Entry3.cookie iter r.1 r.2)
      (.held asked iter) :=
  ⟨rfl, fun _ hr => ⟨rfl, hr⟩⟩

theorem readdirplusNext_follows (asked : UInt64) (iter : MirrorFsIterator) :
    (Vfs.readdirplusNext iter : VfsM FileHandleU64 MirrorFsIterator MirrorFsIterator _).Follows
      vfsListing (fun p r => p = .held asked r.2 ∧ Taken DirEntryPlus.cookie iter r.1 r.2)
      (.held asked iter) :=
  ⟨rfl, fun _ hr => ⟨rfl, hr⟩⟩

def lastEntry (l : BoundedList Entry3) : Option Cookie3 := l.list.items.getLast?.map (·.cookie)

def lastEntryplus (l : BoundedEntryPlusList) : Option Cookie3 :=
  l.entries.list.items.getLast?.map (·.cookie)

theorem lastEntry_tryPush (l : BoundedList Entry3) (entry : Entry3) (l' : BoundedList Entry3)
    (h : l.tryPush entry = some l') : lastEntry l' = some entry.cookie := by
  simp [lastEntry, BoundedList.items_tryPush h]

theorem lastEntryplus_tryPush (converter : FileHandleConverter) (l : BoundedEntryPlusList)
    (entry : DirEntryPlus FileHandleU64) (l' : BoundedEntryPlusList)
    (h : l.tryPush (entry.intoEntry converter) = some l') :
    lastEntryplus l' = some entry.cookie := by
  have hpush := BoundedEntryPlusList.tryPush_entries h
  simp [lastEntryplus, BoundedList.items_tryPush hpush, DirEntryPlus.intoEntry]

end Fill

/-- Calls that do not concern an iterator come first. -/
theorem follows_plain {α β : Type} {p : Holding} {Q : Holding → β → Prop}
    {m : VfsM FileHandleU64 MirrorFsIterator MirrorFsIterator α} (hm : NfsHandlers.Plain m)
    {f : α → VfsM FileHandleU64 MirrorFsIterator MirrorFsIterator β}
    (hf : ∀ a, (f a).Follows vfsListing Q p) : (m.bind f).Follows vfsListing Q p := by
  have hkeep := hm.follows fun c hc =>
    ⟨(vfsListing_of_plain hc p).1, fun r => ((vfsListing_of_plain hc p).2 r).2⟩
  refine Prog.follows_bind.mpr (hkeep.mono ?_)
  rintro p' a ⟨rfl, -⟩
  exact hf a

section Handlers

variable {E B R : Type} (cookieOf : E → UInt64) (last : B → Option UInt64) (reply : R → Reply)
  {i : Incoming} {dirid : FileHandleU64} {asked : UInt64} {iter : MirrorFsIterator}

theorem listed_of_page_none {p : Holding} {res : R} (h : (reply res).page = none) :
    Listed i p (reply res) := by
  intro last eof hpage
  rw [h] at hpage
  cases hpage

/-- Both handlers fill a page from the iterator they opened, and what they do with it drops the
iterator; the page replied, if any, is the one that was filled. -/
theorem listed_of_fill
    {next : MirrorFsIterator →
      VfsM FileHandleU64 MirrorFsIterator MirrorFsIterator (NextResult E × MirrorFsIterator)}
    {push : B → E → Option B} {acc : B} {fuel : ℕ}
    {finish : Except Nfsstat3 (B × Bool) × MirrorFsIterator →
      VfsM FileHandleU64 MirrorFsIterator MirrorFsIterator R}
    (hlisted : i.listed = some (dirid, asked))
    (hnext : ∀ iter, (next iter).Follows vfsListing
      (fun p r => p = .held asked r.2 ∧ Taken cookieOf iter r.1 r.2) (.held asked iter))
    (hpush : ∀ acc entry acc', push acc entry = some acc' → last acc' = some (cookieOf entry))
    (hfinish : ∀ r iter, (finish (r, iter)).Follows vfsListing
      (fun p res => p = .dropped asked iter ∧ ∀ cookie eof,
        (reply res).page = some (cookie, eof) → ∃ acc, r = .ok (acc, eof) ∧ last acc = cookie)
      (.held asked iter))
    (hiter : iter.dirid = dirid) (hwithin : iter.Within) (hnew : last acc = none) :
    ((NfsHandlers.fill next push fuel iter acc).bind finish).Follows vfsListing
      (fun p res => Listed i p (reply res)) (.held asked iter) := by
  have hfill := fill_follows cookieOf last hnext hpush fuel iter acc hwithin (by simp [hnew])
  refine Prog.follows_bind.mpr (hfill.mono ?_)
  rintro p ⟨r, iter'⟩ ⟨rfl, hdirid, hbeyond⟩
  refine (hfinish r iter').mono ?_
  rintro p res ⟨rfl, hpages⟩ cookie eof hpage
  obtain ⟨acc', rfl, rfl⟩ := hpages cookie eof hpage
  refine ⟨dirid, asked, iter', hlisted, rfl, hdirid.trans hiter, ?_⟩
  rintro rfl
  exact hbeyond acc' rfl

end Handlers

theorem readdir_follows {i : Incoming} {args : Readdir3Args} (hi : i.request = .readdir args) :
    (NfsHandlers.nfsproc3Readdir i.context i.xid args :
      VfsM FileHandleU64 _ _ Readdir3Res).Follows vfsListing
        (fun p res => Listed i p (.readdir res)) .nothing := by
  unfold NfsHandlers.nfsproc3Readdir NfsHandlers.fhToId
  split
  · exact listed_of_page_none Reply.readdir rfl
  rename_i dirid hdirid
  have hlisted : i.listed = some (dirid, args.cookie) := by
    simp [Incoming.listed, hi, hdirid, Except.toOption]
  refine follows_plain (NfsHandlers.plain_getPostOpAttr dirid) fun dirAttributes => ?_
  dsimp only
  split_ifs
  · exact listed_of_page_none Reply.readdir rfl
  · exact listed_of_page_none Reply.readdir rfl
  · exact listed_of_page_none Reply.readdir rfl
  split
  · trivial
  refine ⟨rfl, fun opened hopened => ?_⟩
  cases opened with
  | error stat => exact listed_of_page_none Reply.readdir rfl
  | ok iter =>
    obtain ⟨hiter, hwithin⟩ := hopened iter rfl
    apply listed_of_fill Entry3.cookie lastEntry Reply.readdir hlisted
      (readdirNext_follows args.cookie) lastEntry_tryPush _ hiter hwithin rfl
    intro r iter'
    refine ⟨rfl, fun _ _ => ?_⟩
    cases r with
    | error stat => exact ⟨rfl, by simp [Reply.page]⟩
    | ok page =>
      obtain ⟨acc, eof⟩ := page
      dsimp only
      split_ifs
      · exact ⟨rfl, by simp [Reply.page]⟩
      · refine ⟨rfl, ?_⟩
        intro cookie eof' hpage
        cases hpage
        exact ⟨acc, rfl, rfl⟩

theorem readdirplus_follows {i : Incoming} {args : Readdirplus3Args}
    (hi : i.request = .readdirplus args) :
    (NfsHandlers.nfsproc3Readdirplus i.context i.xid args :
      VfsM FileHandleU64 _ _ Readdirplus3Res).Follows vfsListing
        (fun p res => Listed i p (.readdirplus res)) .nothing := by
  unfold NfsHandlers.nfsproc3Readdirplus NfsHandlers.fhToId
  split
  · exact listed_of_page_none Reply.readdirplus rfl
  rename_i dirid hdirid
  have hlisted : i.listed = some (dirid, args.cookie) := by
    simp [Incoming.listed, hi, hdirid, Except.toOption]
  refine follows_plain (NfsHandlers.plain_getPostOpAttr dirid) fun dirAttributes => ?_
  dsimp only
  split_ifs
  · exact listed_of_page_none Reply.readdirplus rfl
  split
  · trivial
  refine ⟨rfl, fun opened hopened => ?_⟩
  cases opened with
  | error stat => exact listed_of_page_none Reply.readdirplus rfl
  | ok iter =>
    obtain ⟨hiter, hwithin⟩ := hopened iter rfl
    apply listed_of_fill DirEntryPlus.cookie lastEntryplus Reply.readdirplus hlisted
      (readdirplusNext_follows args.cookie)
      (lastEntryplus_tryPush i.context.fileHandleConverter) _ hiter hwithin rfl
    intro r iter'
    refine ⟨rfl, fun _ _ => ?_⟩
    cases r with
    | error stat => exact ⟨rfl, by simp [Reply.page]⟩
    | ok page =>
      obtain ⟨acc, eof⟩ := page
      dsimp only
      split_ifs
      · exact ⟨rfl, by simp [Reply.page]⟩
      · refine ⟨rfl, ?_⟩
        intro cookie eof' hpage
        cases hpage
        exact ⟨acc, rfl, rfl⟩

theorem page_of_ends {i : Incoming} {reply : Reply}
    (hreaddir : ∀ args, i.request ≠ .readdir args)
    (hreaddirplus : ∀ args, i.request ≠ .readdirplus args) (h : i.respond.Ends reply) :
    reply.page = none := by
  unfold Incoming.respond at h
  cases hi : i.request with
  | readdir args => exact absurd hi (hreaddir args)
  | readdirplus args => exact absurd hi (hreaddirplus args)
  | _ =>
    rw [hi] at h
    obtain ⟨res, -, rfl⟩ := Prog.ends_bind.mp h
    rfl

theorem respond_follows (i : Incoming) : i.respond.Follows vfsListing (Listed i) .nothing := by
  have hplain : (∀ args, i.request ≠ .readdir args) → (∀ args, i.request ≠ .readdirplus args) →
      i.respond.Follows vfsListing (Listed i) .nothing := by
    intro hreaddir hreaddirplus
    have hpages := (Incoming.plain_respond hreaddir hreaddirplus).of_ends
      fun _ hends => page_of_ends hreaddir hreaddirplus hends
    refine (hpages.follows fun c hc => ⟨(vfsListing_of_plain hc .nothing).1,
      fun r => ((vfsListing_of_plain hc .nothing).2 r).2⟩).mono ?_
    rintro p reply ⟨-, hpage⟩ last eof h
    rw [hpage] at h
    cases h
  cases hi : i.request with
  | readdir args =>
    have hrespond : i.respond =
        (NfsHandlers.nfsproc3Readdir i.context i.xid args).bind fun r => .ret (.readdir r) := by
      unfold Incoming.respond
      rw [hi]
      rfl
    rw [hrespond]
    exact Prog.follows_bind.mpr (readdir_follows hi)
  | readdirplus args =>
    have hrespond : i.respond = (NfsHandlers.nfsproc3Readdirplus i.context i.xid args).bind
        fun r => .ret (.readdirplus r) := by
      unfold Incoming.respond
      rw [hi]
      rfl
    rw [hrespond]
    exact Prog.follows_bind.mpr (readdirplus_follows hi)
  | _ => exact hplain (by simp [hi]) (by simp [hi])

theorem task_follows (root : PathBuf) (i : Incoming) :
    (i.task root).Follows listing (Listed i) .nothing :=
  (respond_follows i).interp fun p c hc => serve_follows root i.now p c hc

end Nfs3.Mirror
