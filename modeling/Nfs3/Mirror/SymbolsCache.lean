import Mathlib.Data.List.AList
import Nfs3.Mirror.Host

/-!
# The symbols cache of the mirror

A handle stands for a path below the root. Names are interned as symbols, a path is a list of
symbols, and two maps connect paths and handles. Handles are drawn from a counter and never
given back.

The interning table is a crate of its own; `SymbolTable` is what the cache uses of it. A call
halts where the source would panic: the table is full, a symbol is not in it, or a map has
outgrown its largest allocation.
-/
namespace Nfs3.Mirror

open Interaction (Prog)

/-- The interning table: `intern` gives `none` when the table is full. -/
class SymbolTable (T : Type) (S : outParam Type) where
  new : T
  intern : T → OsString → Option (S × T)
  get : T → S → Option OsString

/-- Interning is injective and stable, and a name that is in the table keeps its symbol. -/
class LawfulSymbolTable (T : Type) (S : outParam Type) [SymbolTable T S] : Prop where
  get_intern : ∀ {t t' : T} {name : OsString} {s : S},
    SymbolTable.intern t name = some (s, t') → SymbolTable.get t' s = some name
  stable : ∀ {t t' : T} {name name' : OsString} {s s' : S},
    SymbolTable.intern t name = some (s, t') → SymbolTable.get t s' = some name' →
      SymbolTable.get t' s' = some name'
  intern_of_get : ∀ {t : T} {name : OsString} {s : S},
    SymbolTable.get t s = some name → SymbolTable.intern t name = some (s, t)

structure SymbolsPath (S : Type) where
  symbols : List S
  deriving DecidableEq

namespace SymbolsPath

variable {S : Type}

def new : SymbolsPath S := ⟨[]⟩

def join (path : SymbolsPath S) (symbol : S) : SymbolsPath S := ⟨path.symbols ++ [symbol]⟩

end SymbolsPath

section Table

variable {T S : Type} [SymbolTable T S]

/-- The names of the symbols, `none` if one is not in the table. -/
def names (table : T) (path : SymbolsPath S) : Option (List OsString) :=
  path.symbols.mapM (SymbolTable.get table)

/-- `none` where `expect("symbol not found")` would fail. -/
def resolvePath (table : T) (path : SymbolsPath S) : Option PathBuf :=
  (names table path).map fun ns => ns.foldl PathBuf.push []

end Table

/-- How many entries of 32 bytes an allocation of `isize::MAX` bytes has room for. -/
def maxEntries : ℕ := (2 ^ 63 - 1) / 32

structure SymbolsCacheInner (T S : Type) [DecidableEq S] where
  symbols : T
  pathToId : AList fun _ : SymbolsPath S => FileHandleU64
  idToPath : AList fun _ : FileHandleU64 => SymbolsPath S
  nextId : UInt64

structure SymbolsCache (T S : Type) [DecidableEq S] where
  root : PathBuf
  inner : SymbolsCacheInner T S

section Cache

variable {T S : Type} [SymbolTable T S] [DecidableEq S]

namespace SymbolsCacheInner

/-- The existence tests that come before a new entry is made. -/
def testPath (root : PathBuf) (inner : SymbolsCacheInner T S) (parent : SymbolsPath S)
    (name : OsString) : HostM (Except Nfsstat3 Unit) :=
  match resolvePath inner.symbols parent with
  | none => .halt
  | some parentPath =>
    let path := root.join parentPath
    .ask (.pathExists path) fun (parentFound : Bool) =>
      if parentFound then
        .ask (.pathExists (path.push name)) fun (found : Bool) =>
          if found then .ret (.ok ()) else .ret (.error .nfs3errNoent)
      else .ret (.error .nfs3errBadhandle)

/-- The entry that `lookup` makes for a path that has none. -/
def insertItem (inner : SymbolsCacheInner T S) (item : SymbolsPath S) : SymbolsCacheInner T S :=
  { inner with
    pathToId := inner.pathToId.insert item inner.nextId
    idToPath := inner.idToPath.insert inner.nextId item
    nextId := inner.nextId + 1 }

def lookup (root : PathBuf) (inner : SymbolsCacheInner T S) (parent : SymbolsPath S)
    (name : OsString) (checkPath : Bool) :
    HostM (Except Nfsstat3 FileHandleU64 × SymbolsCacheInner T S) :=
  match SymbolTable.intern inner.symbols name with
  | none => .halt
  | some (symbol, symbols) =>
    let inner := { inner with symbols }
    let item := parent.join symbol
    match inner.pathToId.lookup item with
    | some id => .ret (.ok id, inner)
    | none =>
      (if checkPath then inner.testPath root parent name else .ret (.ok ())).bind fun
        | .error stat => .ret (.error stat, inner)
        | .ok () =>
          if inner.pathToId.entries.length < maxEntries then
            .ret (.ok inner.nextId, inner.insertItem item)
          else .halt

end SymbolsCacheInner

namespace SymbolsCache

def rootId : FileHandleU64 := 1

def new (root : PathBuf) : SymbolsCache T S where
  root
  inner :=
    { symbols := SymbolTable.new
      pathToId := AList.insert .new rootId ∅
      idToPath := AList.insert rootId .new ∅
      nextId := rootId + 1 }

def symbolsPath (cache : SymbolsCache T S) (id : FileHandleU64) :
    Except Nfsstat3 (SymbolsPath S) :=
  match cache.inner.idToPath.lookup id with
  | some path => .ok path
  | none => .error .nfs3errBadhandle

def handleToPath (cache : SymbolsCache T S) (id : FileHandleU64) :
    HostM (Except Nfsstat3 PathBuf) :=
  match cache.inner.idToPath.lookup id with
  | none => .ret (.error .nfs3errBadhandle)
  | some path =>
    match resolvePath cache.inner.symbols path with
    | none => .halt
    | some path => .ret (.ok path)

def lookup (cache : SymbolsCache T S) (parent : SymbolsPath S) (name : OsString)
    (checkPath : Bool) : HostM (Except Nfsstat3 FileHandleU64 × SymbolsCache T S) :=
  (cache.inner.lookup cache.root parent name checkPath).bind fun (r, inner) =>
    .ret (r, { cache with inner })

def lookupById (cache : SymbolsCache T S) (parentId : FileHandleU64) (name : OsString)
    (checkPath : Bool) : HostM (Except Nfsstat3 FileHandleU64 × SymbolsCache T S) :=
  match cache.symbolsPath parentId with
  | .error stat => .ret (.error stat, cache)
  | .ok parent => cache.lookup parent name checkPath

end SymbolsCache

/-! ## A table for running the model -/

/-- Names in the order in which they were interned; a symbol is a position. -/
structure ListTable where
  table : List OsString
  nodup : table.Nodup

def ListTable.intern (t : ListTable) (name : OsString) : Option (ℕ × ListTable) :=
  if h : name ∈ t.table then some (t.table.idxOf name, t)
  else if t.table.length < 2 ^ 32 - 1 then
    some (t.table.length, ⟨t.table.concat name, t.nodup.concat h⟩)
  else none

instance : SymbolTable ListTable ℕ where
  new := ⟨[], .nil⟩
  intern := ListTable.intern
  get t s := t.table[s]?

instance : LawfulSymbolTable ListTable ℕ where
  get_intern {t t' name s} h := by
    change t.intern name = some (s, t') at h
    change t'.table[s]? = some name
    unfold ListTable.intern at h
    split_ifs at h with hmem hroom
    · cases h
      exact List.getElem?_idxOf hmem
    · cases h
      simp
  stable {t t' name name' s s'} h hget := by
    change t.intern name = some (s, t') at h
    change t.table[s']? = some name' at hget
    change t'.table[s']? = some name'
    unfold ListTable.intern at h
    split_ifs at h with hmem hroom
    · cases h
      exact hget
    · cases h
      obtain ⟨hlt, -⟩ := List.getElem?_eq_some_iff.mp hget
      dsimp only
      rw [List.concat_eq_append, List.getElem?_append_left hlt, hget]
  intern_of_get {t name s} hget := by
    change t.table[s]? = some name at hget
    change t.intern name = some (s, t)
    obtain ⟨hlt, rfl⟩ := List.getElem?_eq_some_iff.mp hget
    rw [ListTable.intern, dif_pos (List.getElem_mem hlt), t.nodup.idxOf_getElem]

end Cache

end Nfs3.Mirror
