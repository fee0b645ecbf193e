import Mathlib.Data.List.Sort
import Nfs3.Mirror.SymbolsCache

/-!
# Directory iterators of the mirror

An iterator owns an open directory stream. Its cookie starts at a base that no other iterator
has and goes up by one with every entry. When it is dropped before its end, the stream goes
into the iterator cache under the cookie of the last entry taken from it, and a request for
exactly that cookie takes it out again.
-/
namespace Nfs3.Mirror

open Interaction (Prog)

/-- The clock of `Instant`, in some unit. -/
abbrev Instant := ℕ

structure CachedIteratorInfo where
  cookie : UInt64
  cachedAt : Instant
  readDir : ReadDir

structure IteratorCache where
  retentionPeriod : ℕ
  /-- A directory without an entry has no iterators. -/
  cache : FileHandleU64 → List CachedIteratorInfo
  maxCachedPerDir : UInt16
  cookieCounter : UInt32

/-- `Vec::swap_remove`: the last item takes the place of the removed one. -/
def swapRemove {α : Type} (l : List α) (index : ℕ) : List α :=
  match l.getLast? with
  | some last => (l.set index last).dropLast
  | none => []

namespace IteratorCache

def new (retentionPeriod : ℕ) (maxCachedPerDir : UInt16) : IteratorCache where
  retentionPeriod
  cache _ := []
  maxCachedPerDir
  cookieCounter := 0

def setDir (c : IteratorCache) (dirId : FileHandleU64) (iterators : List CachedIteratorInfo) :
    IteratorCache :=
  { c with cache := Function.update c.cache dirId iterators }

def generateBaseCookie (c : IteratorCache) : UInt64 × IteratorCache :=
  (c.cookieCounter.toUInt64 <<< 32, { c with cookieCounter := c.cookieCounter + 1 })

def popState (c : IteratorCache) (dirId : FileHandleU64) (cookie : UInt64) :
    Option CachedIteratorInfo × IteratorCache :=
  let iterators := c.cache dirId
  match iterators.findIdx? (·.cookie = cookie) with
  | none => (none, c)
  | some index => (iterators[index]?, c.setDir dirId (swapRemove iterators index))

/-- The stable sort by age and the removal of the oldest. -/
def trim (maxCachedPerDir : UInt16) (iterators : List CachedIteratorInfo) :
    List CachedIteratorInfo :=
  if iterators.length > maxCachedPerDir.toNat then
    let sorted := iterators.insertionSort fun a b => a.cachedAt ≤ b.cachedAt
    sorted.drop (sorted.length - maxCachedPerDir.toNat)
  else iterators

def cacheState (c : IteratorCache) (dirId : FileHandleU64) (cookie : UInt64) (readDir : ReadDir)
    (now : Instant) : IteratorCache :=
  c.setDir dirId (trim c.maxCachedPerDir (c.cache dirId ++ [⟨cookie, now, readDir⟩]))

def cleanup (c : IteratorCache) (now : Instant) : IteratorCache :=
  { c with cache := fun dirId =>
      (c.cache dirId).filter fun info => now - info.cachedAt ≤ c.retentionPeriod }

end IteratorCache

structure Fs (T S : Type) [DecidableEq S] where
  root : PathBuf
  cache : SymbolsCache T S
  iteratorCache : IteratorCache

structure MirrorFsIterator where
  dirid : FileHandleU64
  readDir : Option ReadDir
  cookie : UInt64

section Operations

variable {T S : Type} [SymbolTable T S] [DecidableEq S]

namespace Fs

def new (root : PathBuf) (retentionPeriod : ℕ) (maxCachedPerDir : UInt16) : Fs T S where
  root
  cache := .new root
  iteratorCache := .new retentionPeriod maxCachedPerDir

def initializeReadDir (fs : Fs T S) (dirid : FileHandleU64) (cookie : UInt64) :
    HostM (Except Nfsstat3 (ReadDir × UInt64) × Fs T S) :=
  (fs.cache.handleToPath dirid).bind fun
    | .error stat => .ret (.error stat, fs)
    | .ok relativePath =>
      let dirPath := fs.root.join relativePath
      if cookie = 0 then
        .ask (.symlinkMetadata dirPath) fun (metadata : IoResult Metadata) =>
          match metadata with
          | .error _ => .ret (.error .nfs3errNoent, fs)
          | .ok metadata =>
            if metadata.isDir then
              .ask (.readDir dirPath) fun (readDir : IoResult ReadDir) =>
                match readDir with
                | .error _ => .ret (.error .nfs3errIo, fs)
                | .ok readDir =>
                  let (base, iteratorCache) := fs.iteratorCache.generateBaseCookie
                  .ret (.ok (readDir, base), { fs with iteratorCache })
            else .ret (.error .nfs3errNotdir, fs)
      else
        match fs.iteratorCache.popState dirid cookie with
        | (some info, iteratorCache) =>
          .ret (.ok (info.readDir, info.cookie), { fs with iteratorCache })
        | (none, iteratorCache) => .ret (.error .nfs3errBadCookie, { fs with iteratorCache })

def getOrCreateIterator (fs : Fs T S) (dirid : FileHandleU64) (cookie : UInt64) :
    HostM (Except Nfsstat3 MirrorFsIterator × Fs T S) :=
  (fs.initializeReadDir dirid cookie).bind fun
    | (.error stat, fs) => .ret (.error stat, fs)
    | (.ok (readDir, cookieValue), fs) => .ret (.ok ⟨dirid, some readDir, cookieValue⟩, fs)

/-- The entry is taken from the stream before its handle is looked up. -/
def nextEntryCommon (fs : Fs T S) (iter : MirrorFsIterator) :
    HostM (NextResult (FileHandleU64 × EntryName × UInt64) × MirrorFsIterator × Fs T S) :=
  match iter.readDir with
  | none => .ret (.eof, iter, fs)
  | some readDir =>
    match readDir.pending with
    | [] => .ret (.eof, { iter with readDir := none }, fs)
    | .error _ :: pending =>
      .ret (.err .nfs3errIo, { iter with readDir := some { readDir with pending } }, fs)
    | .ok name :: pending =>
      let iter := { iter with readDir := some { readDir with pending } }
      match fs.cache.symbolsPath iter.dirid with
      | .error stat => .ret (.err stat, iter, fs)
      | .ok parentSymbols =>
        (fs.cache.lookup parentSymbols name.name false).bind fun
          | (.error stat, cache) => .ret (.err stat, iter, { fs with cache })
          | (.ok handle, cache) =>
            let iter := { iter with cookie := iter.cookie + 1 }
            .ret (.ok (handle, name, iter.cookie), iter, { fs with cache })

/-- `next` of the iterator behind READDIR. -/
def next (fs : Fs T S) (iter : MirrorFsIterator) :
    HostM (NextResult DirEntry × MirrorFsIterator × Fs T S) :=
  (fs.nextEntryCommon iter).bind fun
    | (.ok (handle, name, cookie), iter, fs) =>
      .ret (.ok ⟨handle, ⟨⟨name.name⟩⟩, cookie⟩, iter, fs)
    | (.err stat, iter, fs) => .ret (.err stat, iter, fs)
    | (.eof, iter, fs) => .ret (.eof, iter, fs)

/-- The loop of `next` behind READDIRPLUS; every round takes an entry from the stream, so more
rounds than it has left are not needed. -/
def nextPlusLoop : (fuel : ℕ) → (fs : Fs T S) → (iter : MirrorFsIterator) →
    HostM (NextResult (DirEntryPlus FileHandleU64) × MirrorFsIterator × Fs T S)
  | 0, _, _ => .halt
  | fuel + 1, fs, iter =>
    (fs.nextEntryCommon iter).bind fun
      | (.ok (handle, name, cookie), iter, fs) =>
        (fs.cache.handleToPath handle).bind fun
          | .error _ => nextPlusLoop fuel fs iter
          | .ok relativePath =>
            .ask (.symlinkMetadata (fs.root.join relativePath))
              fun (metadata : IoResult Metadata) =>
                let fattr := metadata.toOption.map (metadataToFattr3 handle)
                .ret (.ok ⟨handle, ⟨⟨name.name⟩⟩, cookie, fattr, some handle⟩, iter, fs)
      | (.err stat, iter, fs) => .ret (.err stat, iter, fs)
      | (.eof, iter, fs) => .ret (.eof, iter, fs)

def nextPlus (fs : Fs T S) (iter : MirrorFsIterator) :
    HostM (NextResult (DirEntryPlus FileHandleU64) × MirrorFsIterator × Fs T S) :=
  nextPlusLoop ((iter.readDir.map (·.pending.length)).getD 0 + 1) fs iter

/-- An iterator that has not come to its end goes into the cache. -/
def drop (fs : Fs T S) (iter : MirrorFsIterator) (now : Instant) : Fs T S :=
  match iter.readDir with
  | none => fs
  | some readDir =>
    { fs with iteratorCache := fs.iteratorCache.cacheState iter.dirid iter.cookie readDir now }

end Fs

end Operations

end Nfs3.Mirror
