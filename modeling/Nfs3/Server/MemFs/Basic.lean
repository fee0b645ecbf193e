import Mathlib.Data.Finset.Basic
import Mathlib.Data.List.Sort
import Mathlib.Logic.Function.Basic
import Nfs3.Lib.Transition
import Nfs3.Server.Vfs

/-!
# The in-memory file system

The entries of the file system live in one flat map from handles to entries; a directory
holds the set of the handles of its children and the handle of its parent.

Every operation of the server runs under the write lock, so an operation is one step. It
gives `none` where the call does not return: a failed assertion or `expect`, a `Vec` grown
past its largest capacity, the ancestor loop of `rename` running forever. Otherwise it gives
the result together with the state it leaves behind, which an error does not discard.

What the code takes from outside is the clock and the iteration order of its hash sets.
-/
namespace Nfs3.Memfs

open ByteOrder (Bytes)

/-- The order in which the content set of a directory is iterated. A `HashSet` promises
nothing about it beyond visiting every member once. -/
structure HashOrder where
  iter : FileHandleU64 → Finset FileHandleU64 → List FileHandleU64
  mem_iter : ∀ {d content i}, i ∈ iter d content ↔ i ∈ content
  nodup_iter : ∀ d content, (iter d content).Nodup

instance : Std.Total (fun a b : FileHandleU64 => a ≤ b) := ⟨UInt64.le_total⟩

instance : IsTrans FileHandleU64 (fun a b => a ≤ b) := ⟨fun _ _ _ => UInt64.le_trans⟩

instance : Std.Antisymm (fun a b : FileHandleU64 => a ≤ b) := ⟨fun _ _ => UInt64.le_antisymm⟩

/-- One possible order, for running the model. -/
def HashOrder.ascending : HashOrder where
  iter _ content :=
    Quot.liftOn content.val (fun l => l.insertionSort (· ≤ ·)) fun l l' h =>
      (((l.perm_insertionSort _).trans h).trans (l'.perm_insertionSort _).symm).eq_of_pairwise'
        (l.pairwise_insertionSort _) (l'.pairwise_insertionSort _)
  mem_iter {_ content _} := by
    obtain ⟨⟨l⟩, h⟩ := content
    exact List.mem_insertionSort _
  nodup_iter _ content := by
    obtain ⟨⟨l⟩, h⟩ := content
    exact (l.perm_insertionSort _).nodup_iff.mpr h

/-- What one operation observes: an iteration order, and the successive readings of
`current_time`. -/
structure Env where
  order : HashOrder
  time : ℕ → Nfstime3

/-- The capacity of a `Vec<u8>` never exceeds `isize::MAX` bytes. -/
def maxCapacity : ℕ := 2 ^ 63 - 1

def dot : Filename3 := ⟨⟨[0x2e]⟩⟩

def dotDot : Filename3 := ⟨⟨[0x2e, 0x2e]⟩⟩

structure Dir where
  name : Filename3
  parent : FileHandleU64
  attr : Fattr3
  content : Finset FileHandleU64
  deriving DecidableEq

namespace Dir

def new (name : Filename3) (id parent : FileHandleU64) (currentTime : Nfstime3) : Dir where
  name
  parent
  attr :=
    { type := .nf3dir, mode := 0o777, nlink := 1, uid := 507, gid := 507, size := 0, used := 0,
      rdev := ⟨0, 0⟩, fsid := 0, fileid := id,
      atime := currentTime, mtime := currentTime, ctime := currentTime }
  content := ∅

def rootDir (currentTime : Nfstime3) : Dir := new ⟨⟨[0x2f]⟩⟩ 1 0 currentTime

def addEntry (dir : Dir) (entry : FileHandleU64) : Dir :=
  { dir with content := insert entry dir.content }

def removeEntry (dir : Dir) (entry : FileHandleU64) : Dir :=
  { dir with content := dir.content.erase entry }

end Dir

structure File where
  name : Filename3
  attr : Fattr3
  content : Bytes
  verf : Createverf3
  deriving DecidableEq

namespace File

def new (name : Filename3) (id : FileHandleU64) (content : Bytes) (verf : Createverf3)
    (currentTime : Nfstime3) : File where
  name
  attr :=
    { type := .nf3reg, mode := 0o755, nlink := 1, uid := 507, gid := 507,
      size := .ofNat content.length, used := .ofNat content.length,
      rdev := ⟨0, 0⟩, fsid := 0, fileid := id,
      atime := currentTime, mtime := currentTime, ctime := currentTime }
  content
  verf

def resize (file : File) (size : UInt64) : Option File :=
  if size.toNat ≤ maxCapacity then
    some { file with
      content := file.content.take size.toNat ++
        List.replicate (size.toNat - file.content.length) 0
      attr := { file.attr with size, used := size } }
  else none

/-- The slice of the content from `offset` on is overwritten once the file is long enough. -/
def write (file : File) (offset : UInt64) (data : Bytes) : Option (Except Nfsstat3 File) :=
  if offset.toNat > file.content.length then some (.error .nfs3errInval)
  else
    let endOffset := offset.toNat + data.length
    let resized :=
      if endOffset > file.content.length then
        if endOffset ≤ maxCapacity then file.resize (.ofNat endOffset) else none
      else some file
    resized.map fun file =>
      .ok { file with
        content := file.content.take offset.toNat ++ data ++ file.content.drop endOffset }

end File

inductive Entry
  | file (file : File)
  | dir (dir : Dir)
  deriving DecidableEq

namespace Entry

def newFile (name : Filename3) (id : FileHandleU64) (content : Bytes) (verf : Createverf3)
    (currentTime : Nfstime3) : Entry :=
  .file (.new name id content verf currentTime)

def newDir (name : Filename3) (id parent : FileHandleU64) (currentTime : Nfstime3) : Entry :=
  .dir (.new name id parent currentTime)

def attr : Entry → Fattr3
  | .file f => f.attr
  | .dir d => d.attr

def name : Entry → Filename3
  | .file f => f.name
  | .dir d => d.name

def fileid (entry : Entry) : FileHandleU64 := entry.attr.fileid

def isDir : Entry → Bool
  | .file _ => false
  | .dir _ => true

/-- The content set of a directory; a file has none. -/
def content : Entry → Finset FileHandleU64
  | .file _ => ∅
  | .dir d => d.content

def setName (entry : Entry) (name : Filename3) : Entry :=
  match entry with
  | .file f => .file { f with name }
  | .dir d => .dir { d with name }

def withAttr (entry : Entry) (attr : Fattr3) : Entry :=
  match entry with
  | .file f => .file { f with attr }
  | .dir d => .dir { d with attr }

/-- The attributes `set_attr` changes in place; `mode` is ignored. -/
def updateAttr (attr : Fattr3) (setattr : Sattr3) (atimeNow mtimeNow : Nfstime3) : Fattr3 :=
  { attr with
    atime :=
      match setattr.atime with
      | .dontChange => attr.atime
      | .setToClientTime c => c
      | .setToServerTime => atimeNow
    mtime :=
      match setattr.mtime with
      | .dontChange => attr.mtime
      | .setToClientTime c => c
      | .setToServerTime => mtimeNow
    uid :=
      match setattr.uid with
      | .some u => u
      | .none => attr.uid
    gid :=
      match setattr.gid with
      | .some u => u
      | .none => attr.gid }

def setAttr (entry : Entry) (setattr : Sattr3) (atimeNow mtimeNow : Nfstime3) : Option Entry :=
  let entry := entry.withAttr (updateAttr entry.attr setattr atimeNow mtimeNow)
  match setattr.size, entry with
  | .some s, .file f => (f.resize s).map .file
  | _, entry => some entry

/-- The last step of `rename`: the new name, and for a directory the new parent. -/
def relocate (entry : Entry) (toDirid : FileHandleU64) (toFilename : Filename3) : Entry :=
  match entry.setName toFilename with
  | .file f => .file f
  | .dir d => .dir { d with parent := toDirid }

end Entry

structure Fs where
  entries : FileHandleU64 → Option Entry
  root : FileHandleU64

/-- The result of a call and the state after it; `none` if the call does not return. -/
abbrev Outcome (α : Type) := Option (Except Nfsstat3 α × Fs)

namespace Fs

def new (currentTime : Nfstime3) : Fs where
  entries := Function.update (fun _ => none) 1 (some (.dir (.rootDir currentTime)))
  root := 1

def get (fs : Fs) (id : FileHandleU64) : Option Entry := fs.entries id

def insert (fs : Fs) (id : FileHandleU64) (entry : Entry) : Fs :=
  { fs with entries := Function.update fs.entries id (some entry) }

def erase (fs : Fs) (id : FileHandleU64) : Fs :=
  { fs with entries := Function.update fs.entries id none }

variable {fs : Fs} {i j : FileHandleU64} {entry : Entry}

theorem get_insert : (fs.insert i entry).get j = if j = i then some entry else fs.get j := by
  simp [get, insert, Function.update_apply]

@[simp]
theorem get_insert_self : (fs.insert i entry).get i = some entry := by
  simp [get_insert]

theorem get_insert_of_ne (h : j ≠ i) : (fs.insert i entry).get j = fs.get j := by
  simp [get_insert, h]

theorem get_erase : (fs.erase i).get j = if j = i then none else fs.get j := by
  simp [get, erase, Function.update_apply]

@[simp]
theorem get_erase_self : (fs.erase i).get i = none := by
  simp [get_erase]

theorem get_erase_of_ne (h : j ≠ i) : (fs.erase i).get j = fs.get j := by
  simp [get_erase, h]

@[simp]
theorem root_insert : (fs.insert i entry).root = fs.root := rfl

@[simp]
theorem root_erase : (fs.erase i).root = fs.root := rfl

theorem erase_insert (h : fs.get i = none) : (fs.insert i entry).erase i = fs := by
  simp only [erase, insert, Function.update_idem]
  rw [show (none : Option Entry) = fs.entries i from h.symm, Function.update_eq_self]

theorem insert_self (h : fs.get i = some entry) : fs.insert i entry = fs := by
  rw [insert, show some entry = fs.entries i from h.symm, Function.update_eq_self]

def push (fs : Fs) (parent : FileHandleU64) (entry : Entry) : Outcome Unit :=
  let id := entry.fileid
  if (fs.get id).isSome then some (.error .nfs3errExist, fs)
  else
    let fs := fs.insert id entry
    match fs.get parent with
    | none => some (.error .nfs3errNoent, fs.erase id)
    | some (.file _) => some (.error .nfs3errNotdir, fs.erase id)
    | some (.dir dir) =>
      if id ∈ dir.content then none
      else some (.ok (), fs.insert parent (.dir (dir.addEntry id)))

def remove (order : HashOrder) (fs : Fs) (dirid : FileHandleU64) (filename : Filename3) :
    Outcome Unit :=
  if filename = dot ∨ filename = dotDot then some (.error .nfs3errInval, fs)
  else
    match fs.get dirid with
    | none => some (.error .nfs3errNoent, fs)
    | some (.file _) => some (.error .nfs3errNotdir, fs)
    | some (.dir dir) =>
      let object := (order.iter dirid dir.content).find? fun i =>
        (fs.get i).any fun f => f.name = filename
      match object with
      | none => some (.error .nfs3errNoent, fs)
      | some objectId =>
        match fs.get objectId with
        | none => some (.error .nfs3errNoent, fs)
        | some entry =>
          if entry.content ≠ ∅ then some (.error .nfs3errNotempty, fs)
          else
            let fs := fs.erase objectId
            match fs.get dirid with
            | none => none
            | some (.file _) => some (.error .nfs3errNotdir, fs)
            | some (.dir dir) => some (.ok (), fs.insert dirid (.dir (dir.removeEntry objectId)))

/-- The scan of a content set for a name. -/
def scan (fs : Fs) (filename : Filename3) : List FileHandleU64 → Except Nfsstat3 Entry
  | [] => .error .nfs3errNoent
  | i :: ids =>
    match fs.get i with
    | none => .error .nfs3errServerfault
    | some f => if f.name = filename then .ok f else fs.scan filename ids

def lookup (order : HashOrder) (fs : Fs) (dirid : FileHandleU64) (filename : Filename3) :
    Except Nfsstat3 Entry :=
  match fs.get dirid with
  | none => .error .nfs3errNoent
  | some (.file _) => .error .nfs3errNotdir
  | some (.dir dir) =>
    if filename = dot then .ok (.dir dir)
    else if filename = dotDot then
      match fs.get dir.parent with
      | none => .error .nfs3errServerfault
      | some parent => .ok parent
    else fs.scan filename (order.iter dirid dir.content)

/-- The first half of `rename`: an existing target that may be replaced is removed. -/
def replaceTarget (order : HashOrder) (fs : Fs) (fromEntry : Entry) (toDirid : FileHandleU64)
    (toFilename : Filename3) : Outcome Unit :=
  match fromEntry, fs.lookup order toDirid toFilename with
  | _, .error .nfs3errNoent => some (.ok (), fs)
  | .file _, .ok (.file _) => fs.remove order toDirid toFilename
  | .dir _, .ok (.dir tgtDir) =>
    if tgtDir.content ≠ ∅ then some (.error .nfs3errNotempty, fs)
    else fs.remove order toDirid toFilename
  | .file _, .ok (.dir _) => some (.error .nfs3errNotdir, fs)
  | .dir _, .ok (.file _) => some (.error .nfs3errNotdir, fs)
  | _, .error e => some (.error e, fs)

/-- The loop that keeps a directory out of its own subtree, run for at most `fuel` rounds. -/
def ancestorLoop (fs : Fs) (fromId : FileHandleU64) :
    (fuel : ℕ) → (current : FileHandleU64) → Option (Except Nfsstat3 Unit)
  | 0, _ => none
  | fuel + 1, current =>
    if current = fromId then some (.error .nfs3errInval)
    else
      match fs.get current with
      | none => some (.error .nfs3errNoent)
      | some (.dir dir) =>
        if current = fs.root then some (.ok ()) else fs.ancestorLoop fromId fuel dir.parent
      | some (.file _) => some (.error .nfs3errServerfault)

/-- A loop of more rounds than there are handles has come back to a handle it was at, and
never ends. -/
def checkAncestors (fs : Fs) (fromEntry : Entry) (toDirid : FileHandleU64) :
    Option (Except Nfsstat3 Unit) :=
  if fromEntry.isDir then fs.ancestorLoop fromEntry.fileid (UInt64.size + 1) toDirid
  else some (.ok ())

/-- The last part of `rename`, after which the entry is linked under its new name. -/
def relink (fs : Fs) (fromDirid fromId toDirid : FileHandleU64) (toFilename : Filename3) :
    Except Nfsstat3 Unit × Fs :=
  match fs.get fromDirid with
  | none => (.error .nfs3errServerfault, fs)
  | some (.file _) => (.error .nfs3errNotdir, fs)
  | some (.dir fromDir) =>
    let fs := fs.insert fromDirid (.dir (fromDir.removeEntry fromId))
    match fs.get toDirid with
    | none => (.error .nfs3errServerfault, fs)
    | some (.file _) => (.error .nfs3errNotdir, fs)
    | some (.dir toDir) =>
      if fromId ∈ toDir.content then (.error .nfs3errServerfault, fs)
      else
        let fs := fs.insert toDirid (.dir (toDir.addEntry fromId))
        match fs.get fromId with
        | none => (.error .nfs3errServerfault, fs)
        | some entry => (.ok (), fs.insert fromId (entry.relocate toDirid toFilename))

def rename (order : HashOrder) (fs : Fs) (fromDirid : FileHandleU64) (fromFilename : Filename3)
    (toDirid : FileHandleU64) (toFilename : Filename3) : Outcome Unit :=
  match fs.lookup order fromDirid fromFilename with
  | .error e => some (.error e, fs)
  | .ok fromEntry =>
    if fromDirid = toDirid ∧ fromFilename = toFilename then some (.ok (), fs)
    else
      match fs.replaceTarget order fromEntry toDirid toFilename with
      | none => none
      | some (.error e, fs) => some (.error e, fs)
      | some (.ok (), fs) =>
        match fs.checkAncestors fromEntry toDirid with
        | none => none
        | some (.error e) => some (.error e, fs)
        | some (.ok ()) => some (fs.relink fromDirid fromEntry.fileid toDirid toFilename)

end Fs

structure MemFs where
  fs : Fs
  rootdir : FileHandleU64
  nextid : UInt64

/-- What the seven operations return: the handle and the attributes, where they have them. -/
structure Reply where
  id : Option FileHandleU64
  attr : Option Fattr3
  deriving DecidableEq

inductive Op
  | create (dirid : FileHandleU64) (filename : Filename3) (attr : Sattr3)
  | createExclusive (dirid : FileHandleU64) (filename : Filename3) (createverf : Createverf3)
  | mkdir (dirid : FileHandleU64) (dirname : Filename3)
  | remove (dirid : FileHandleU64) (filename : Filename3)
  | rename (fromDirid : FileHandleU64) (fromFilename : Filename3)
      (toDirid : FileHandleU64) (toFilename : Filename3)
  | setattr (id : FileHandleU64) (setattr : Sattr3)
  | write (id : FileHandleU64) (offset : UInt64) (data : Bytes)

structure Call where
  env : Env
  op : Op

namespace MemFs

def default (currentTime : Nfstime3) : MemFs :=
  let root := Fs.new currentTime
  { fs := root, rootdir := root.root, nextid := root.root + 1 }

/-- Puts the outcome of a call on the file system back into the server state. -/
def lift {α : Type} (s : MemFs) (outcome : Outcome Unit) (reply : α) :
    Option (Except Nfsstat3 α × MemFs) :=
  outcome.map fun (r, fs) => (r.map fun _ => reply, { s with fs })

def addDir (env : Env) (s : MemFs) (dirid : FileHandleU64) (dirname : Filename3) :
    Option (Except Nfsstat3 Reply × MemFs) :=
  let newid := s.nextid
  let s := { s with nextid := s.nextid + 1 }
  let dir := Entry.newDir dirname newid dirid (env.time 0)
  s.lift (s.fs.push dirid dir) ⟨some newid, some dir.attr⟩

def addFile (env : Env) (s : MemFs) (dirid : FileHandleU64) (filename : Filename3)
    (attr : Sattr3) (content : Bytes) (verf : Option Createverf3) :
    Option (Except Nfsstat3 Reply × MemFs) :=
  let newid := s.nextid
  let s := { s with nextid := s.nextid + 1 }
  let newFile :=
    Entry.newFile filename newid content (verf.getD ⟨Vector.replicate 8 0⟩) (env.time 0)
  match newFile.setAttr attr (env.time 1) (env.time 2) with
  | none => none
  | some file =>
    match s.fs.lookup env.order dirid file.name with
    | .error .nfs3errNoent => s.lift (s.fs.push dirid file) ⟨some newid, some file.attr⟩
    | .ok (.file existingFile) =>
      if verf = some existingFile.verf then
        some (.ok ⟨some existingFile.attr.fileid, some file.attr⟩, s)
      else some (.error .nfs3errExist, s)
    | .ok (.dir _) => some (.error .nfs3errExist, s)
    | .error e => some (.error e, s)

def create (env : Env) (s : MemFs) (dirid : FileHandleU64) (filename : Filename3)
    (attr : Sattr3) : Option (Except Nfsstat3 Reply × MemFs) :=
  s.addFile env dirid filename attr [] none

/-- `sattr3::default()` changes nothing. -/
def noChange : Sattr3 := ⟨.none, .none, .none, .none, .dontChange, .dontChange⟩

def createExclusive (env : Env) (s : MemFs) (dirid : FileHandleU64) (filename : Filename3)
    (createverf : Createverf3) : Option (Except Nfsstat3 Reply × MemFs) :=
  (s.addFile env dirid filename noChange [] (some createverf)).map fun (r, s) =>
    (r.map fun reply => { reply with attr := none }, s)

def setattr (env : Env) (s : MemFs) (id : FileHandleU64) (setattr : Sattr3) :
    Option (Except Nfsstat3 Reply × MemFs) :=
  match s.fs.get id with
  | none => some (.error .nfs3errNoent, s)
  | some entry =>
    (entry.setAttr setattr (env.time 0) (env.time 1)).map fun entry =>
      (.ok ⟨none, some entry.attr⟩, { s with fs := s.fs.insert id entry })

def write (s : MemFs) (id : FileHandleU64) (offset : UInt64) (data : Bytes) :
    Option (Except Nfsstat3 Reply × MemFs) :=
  match s.fs.get id with
  | none => some (.error .nfs3errNoent, s)
  | some (.dir _) => some (.error .nfs3errInval, s)
  | some (.file file) =>
    (file.write offset data).map fun
      | .error e => (.error e, s)
      | .ok file => (.ok ⟨none, some file.attr⟩, { s with fs := s.fs.insert id (.file file) })

def exec (s : MemFs) (call : Call) : Option (Except Nfsstat3 Reply × MemFs) :=
  match call.op with
  | .create dirid filename attr => s.create call.env dirid filename attr
  | .createExclusive dirid filename createverf =>
    s.createExclusive call.env dirid filename createverf
  | .mkdir dirid dirname => s.addDir call.env dirid dirname
  | .remove dirid filename => s.lift (s.fs.remove call.env.order dirid filename) ⟨none, none⟩
  | .rename fromDirid fromFilename toDirid toFilename =>
    s.lift (s.fs.rename call.env.order fromDirid fromFilename toDirid toFilename) ⟨none, none⟩
  | .setattr id setattr => s.setattr call.env id setattr
  | .write id offset data => s.write id offset data

/-- The state after a call that returns. -/
def step (s : MemFs) (call : Call) : Option MemFs := (s.exec call).map Prod.snd

end MemFs

end Nfs3.Memfs
