import Nfs3.Server.MemFs.Abstraction
import Nfs3.Server.MemFs.Configured
import Nfs3.Server.MemFs.Reads
import Nfs3.Server.MemFs.Writes

/-!
# The in-memory file system refines a namespace

What clients are promised is said by `NamespaceFs`: a namespace of files and directories whose
operations are those of `Namespace`, with files that are arrays of bytes. The server answers
every request as `NamespaceFs` does, over whole runs, as long as the requests are regular: they
stay clear of the known ways to make two children of one name, to link a directory twice or to
fail halfway.
-/
namespace Nfs3.Memfs

open ByteOrder (Bytes)
open Namespace (Failure)

/-! ## Requests -/

inductive Request
  | change (op : Op)
  | lookup (dirid : FileHandleU64) (filename : Filename3)
  | getattr (id : FileHandleU64)
  | read (id : FileHandleU64) (offset : UInt64) (count : UInt32)

/-- A request, with what it observes while it is served. -/
structure Query where
  env : Env
  request : Request

inductive Response
  | changed (result : Except Nfsstat3 Reply)
  | found (result : Except Nfsstat3 FileHandleU64)
  | attributes (result : Except Nfsstat3 Fattr3)
  | bytes (result : Except Nfsstat3 (Bytes × Bool))
  deriving DecidableEq

def MemFs.serve (build : Build) (s : MemFs) (q : Query) : Option (Response × MemFs) :=
  match q.request with
  | .change op => (s.exec ⟨q.env, op⟩).map fun p => (.changed p.1, p.2)
  | .lookup dirid filename =>
    some (.found ((s.fs.lookup q.env.order dirid filename).map Entry.fileid), s)
  | .getattr id => some (.attributes (s.fs.getattr id), s)
  | .read id offset count => (s.read build id offset count).map fun r => (.bytes r, s)

/-! ## The promise -/

def File.fileData (f : File) : FileData := ⟨f.attr, f.content, f.verf⟩

namespace FileData

def resize (f : FileData) (size : UInt64) : Option FileData :=
  if size.toNat ≤ maxCapacity then
    some { f with
      content := f.content.take size.toNat ++
        List.replicate (size.toNat - f.content.length) 0
      attr := { f.attr with size, used := size } }
  else none

/-- A write lays its data over the content. It must not leave a gap, and it does not return if
the content becomes larger than memory can hold. -/
def write (f : FileData) (offset : UInt64) (data : Bytes) :
    Option (Except Failure FileData) :=
  let patch : Overlay.Patch UInt8 := ⟨offset.toNat, data⟩
  if f.content.length < patch.start then some (.error .invalid)
  else if f.content.length < patch.stop ∧ maxCapacity < patch.stop then none
  else
    let content := Overlay.apply f.content patch
    let size : UInt64 := .ofNat content.length
    let attr :=
      if f.content.length < content.length then { f.attr with size, used := size } else f.attr
    some (.ok { f with content, attr })

end FileData

namespace Object

def attr : Object → Fattr3
  | .file f => f.attr
  | .dir attr => attr

def setAttr (o : Object) (setattr : Sattr3) (atimeNow mtimeNow : Nfstime3) : Option Object :=
  match o with
  | .dir attr => some (.dir (Entry.updateAttr attr setattr atimeNow mtimeNow))
  | .file f =>
    let f := { f with attr := Entry.updateAttr f.attr setattr atimeNow mtimeNow }
    match setattr.size with
    | .some size => (f.resize size).map .file
    | .none => some (.file f)

end Object

structure NamespaceFs where
  names : Names
  nextid : UInt64

namespace NamespaceFs

/-- Puts the outcome of an operation of the namespace back into the state. -/
def lift (s : NamespaceFs) (outcome : Except Failure Unit × Names) (reply : Reply) :
    Option (Except Nfsstat3 Reply × NamespaceFs) :=
  some ((outcome.1.mapError stat).map fun _ => reply, { s with names := outcome.2 })

def mkdir (env : Env) (s : NamespaceFs) (dirid : FileHandleU64) (dirname : Filename3) :
    Option (Except Nfsstat3 Reply × NamespaceFs) :=
  let newid := s.nextid
  let attr := (Dir.new dirname newid dirid (env.time 0)).attr
  let s := { s with nextid := s.nextid + 1 }
  s.lift (s.names.make dot dotDot dirid dirname newid (.dir attr)) ⟨some newid, some attr⟩

/-- A file is made where there is none. If the verifier is the one that an existing file was made
with, the request is a repeated one, and the existing file is the one it has made. -/
def create (env : Env) (s : NamespaceFs) (dirid : FileHandleU64) (filename : Filename3)
    (attr : Sattr3) (verf : Option Createverf3) :
    Option (Except Nfsstat3 Reply × NamespaceFs) :=
  let newid := s.nextid
  let s := { s with nextid := s.nextid + 1 }
  let blank : Object := .file
    (File.new filename newid [] (verf.getD ⟨Vector.replicate 8 0⟩) (env.time 0)).fileData
  (blank.setAttr attr (env.time 1) (env.time 2)).bind fun object =>
    match s.names.lookup dot dotDot dirid filename with
    | .ok existing =>
      match s.names.object existing with
      | some (.file f) =>
        if verf = some f.verf then some (.ok ⟨some existing, some object.attr⟩, s)
        else some (.error .nfs3errExist, s)
      | _ => some (.error .nfs3errExist, s)
    | .error _ =>
      s.lift (s.names.make dot dotDot dirid filename newid object)
        ⟨some newid, some object.attr⟩

def setattr (env : Env) (s : NamespaceFs) (id : FileHandleU64) (setattr : Sattr3) :
    Option (Except Nfsstat3 Reply × NamespaceFs) :=
  match s.names.object id with
  | none => some (.error .nfs3errNoent, s)
  | some object =>
    (Object.setAttr object setattr (env.time 0) (env.time 1)).map fun object =>
      (.ok ⟨none, some (Object.attr object)⟩, { s with names := s.names.put id object })

def write (s : NamespaceFs) (id : FileHandleU64) (offset : UInt64) (data : Bytes) :
    Option (Except Nfsstat3 Reply × NamespaceFs) :=
  match s.names.object id with
  | none => some (.error .nfs3errNoent, s)
  | some (.dir _) => some (.error .nfs3errInval, s)
  | some (.file f) =>
    (f.write offset data).map fun
      | .error e => (.error (stat e), s)
      | .ok f => (.ok ⟨none, some f.attr⟩, { s with names := s.names.put id (.file f) })

noncomputable def exec (s : NamespaceFs) (env : Env) :
    Op → Option (Except Nfsstat3 Reply × NamespaceFs)
  | .create dirid filename attr => s.create env dirid filename attr none
  | .createExclusive dirid filename createverf =>
    (s.create env dirid filename MemFs.noChange (some createverf)).map fun p =>
      (p.1.map fun reply => { reply with attr := none }, p.2)
  | .mkdir dirid dirname => s.mkdir env dirid dirname
  | .remove dirid filename => s.lift (s.names.remove dot dotDot dirid filename) ⟨none, none⟩
  | .rename fromDirid fromFilename toDirid toFilename =>
    s.lift (s.names.rename dot dotDot fromDirid fromFilename toDirid toFilename) ⟨none, none⟩
  | .setattr id setattr => s.setattr env id setattr
  | .write id offset data => s.write id offset data

noncomputable def serve (s : NamespaceFs) (q : Query) : Option (Response × NamespaceFs) :=
  match q.request with
  | .change op => (s.exec q.env op).map fun p => (.changed p.1, p.2)
  | .lookup dirid filename =>
    some (.found ((s.names.lookup dot dotDot dirid filename).mapError stat), s)
  | .getattr id =>
    some (.attributes
      (match s.names.object id with
        | none => .error .nfs3errNoent
        | some object => .ok (Object.attr object)), s)
  | .read id offset count =>
    some (.bytes
      (match s.names.object id with
        | none => .error .nfs3errNoent
        | some (.dir _) => .error .nfs3errIsdir
        | some (.file f) => .ok (readRange f.content offset.toNat count.toNat)), s)

end NamespaceFs

/-! ## Files -/

theorem Entry.object_file (f : File) : (Entry.file f).object = .file f.fileData := rfl

theorem Entry.attr_object (e : Entry) : Object.attr e.object = e.attr := by
  cases e <;> rfl

theorem File.resize_fileData (f : File) (size : UInt64) :
    (f.resize size).map File.fileData = f.fileData.resize size := by
  unfold File.resize FileData.resize
  split_ifs <;> rfl

theorem File.fileData_grown (f : File) (c : Bytes) : (f.grown c).fileData =
    { f.fileData with
      content := c
      attr :=
        if f.content.length < c.length then
          { f.attr with size := .ofNat c.length, used := .ofNat c.length }
        else f.attr } := by
  unfold File.grown
  split_ifs <;> rfl

theorem File.write_fileData (f : File) (w : WriteRequest) :
    (f.write w.offset w.data).map (fun r => r.map File.fileData) =
      (f.fileData.write w.offset w.data).map fun r => r.mapError stat := by
  by_cases hstart : f.content.length < w.offset.toNat
  · have hspec : f.fileData.write w.offset w.data = some (.error .invalid) := if_pos hstart
    rw [File.write_refused hstart, hspec]
    rfl
  have hle : w.offset.toNat ≤ f.content.length := Nat.not_lt.mp hstart
  by_cases hover : f.content.length < w.stop ∧ maxCapacity < w.stop
  · have hspec : f.fileData.write w.offset w.data = none :=
      (if_neg hstart).trans (if_pos hover)
    rw [File.write_overflows hle hover.1 hover.2, hspec]
    rfl
  · have hcap : f.content.length < w.stop → w.stop ≤ maxCapacity := fun hgrow =>
      Nat.not_lt.mp fun h => hover ⟨hgrow, h⟩
    have hspec : f.fileData.write w.offset w.data =
        some (.ok (f.grown (Overlay.apply f.content w.patch)).fileData) := by
      rw [File.fileData_grown]
      exact (if_neg hstart).trans (if_neg hover)
    rw [File.write_accepted hle hcap, hspec]
    rfl

theorem Entry.setAttr_object (e : Entry) (setattr : Sattr3) (t t' : Nfstime3) :
    (e.setAttr setattr t t').map Entry.object = Object.setAttr e.object setattr t t' := by
  cases e with
  | dir d =>
    unfold Entry.setAttr
    dsimp only [Entry.withAttr]
    cases setattr.size <;> rfl
  | file f =>
    unfold Entry.setAttr
    dsimp only [Entry.withAttr, Entry.object, Object.setAttr]
    cases setattr.size with
    | none => rfl
    | some size =>
      have hresize := File.resize_fileData
        { f with attr := Entry.updateAttr (Entry.file f).attr setattr t t' } size
      dsimp only
      rw [Option.map_map, show (Entry.object ∘ Entry.file) =
        Namespace.Object.file ∘ File.fileData from rfl, ← Option.map_map, hresize]
      rfl

/-! ## One request -/

namespace MemFs

variable {build : Build} {s s' : MemFs} {env : Env} {dirid : FileHandleU64}
  {filename : Filename3} {q : Query} {n : ℕ}

def abstraction (s : MemFs) : NamespaceFs := ⟨s.fs.names, s.nextid⟩

/-- What the server does, seen as a step of the promise. -/
def view {α : Type} (p : α × MemFs) : α × NamespaceFs := (p.1, p.2.abstraction)

theorem lift_view {outcome : Outcome Unit} {spec : Except Failure Unit × Names} {reply : Reply}
    (h : Fs.Specified outcome spec) :
    (s.lift outcome reply).map view = s.abstraction.lift spec reply := by
  obtain ⟨fs', rfl, hnames⟩ := h
  simp only [MemFs.lift, NamespaceFs.lift, Option.map_some, view, abstraction, hnames]

/-- The request does not present the handle that is drawn next, makes a directory under an
ordinary name that is free, renames an ordinary name and does not fail halfway. A read ends at
an offset that fits into 64 bits. -/
def Regular (s : MemFs) (q : Query) : Prop :=
  match q.request with
  | .change (.create dirid _ _) | .change (.createExclusive dirid _ _) => dirid ≠ s.nextid
  | .change (.mkdir dirid dirname) =>
    dirid ≠ s.nextid ∧ dirname ≠ dot ∧ dirname ≠ dotDot ∧ s.fs.NameFree dirid dirname
  | .change (.rename fromDirid fromFilename toDirid toFilename) =>
    fromFilename ≠ dot ∧ fromFilename ≠ dotDot ∧
      ¬(Op.rename fromDirid fromFilename toDirid toFilename).Tears q.env.order s.fs
  | .read _ offset count => offset.toNat + count.toNat < 2 ^ 64
  | .change (.remove ..) | .change (.setattr ..) | .change (.write ..) | .lookup .. |
    .getattr _ => True

theorem addDir_view (hn : s.fs.Named) (hfresh : ¬s.fs.Known s.nextid) (hd : dirid ≠ s.nextid)
    (hdot : filename ≠ dot) (hdotDot : filename ≠ dotDot) (hfree : s.fs.NameFree dirid filename) :
    (s.addDir env dirid filename).map view = s.abstraction.mkdir env dirid filename := by
  let s₁ : MemFs := { s with nextid := s.nextid + 1 }
  let dir := Entry.newDir filename s.nextid dirid (env.time 0)
  have hup : ∀ u, dir.up = some u → u = dirid := by
    rintro u ⟨⟩
    rfl
  have hpush : Fs.Specified (s.fs.push dirid dir)
      (s.fs.names.make dot dotDot dirid filename s.nextid dir.object) :=
    Fs.push_specified hn hfresh hd rfl hup hfree fun hdir => hn.lookup_free hdot hdotDot hdir hfree
  exact lift_view (s := s₁) hpush

theorem addFile_view {attr : Sattr3} {verf : Option Createverf3} (hn : s.fs.Named)
    (hfresh : ¬s.fs.Known s.nextid) (hd : dirid ≠ s.nextid) :
    (s.addFile env dirid filename attr [] verf).map view =
      s.abstraction.create env dirid filename attr verf := by
  let blank := Entry.newFile filename s.nextid [] (verf.getD ⟨Vector.replicate 8 0⟩) (env.time 0)
  have hobject := Entry.setAttr_object blank attr (env.time 1) (env.time 2)
  unfold addFile NamespaceFs.create
  dsimp only
  rw [show Object.setAttr (.file (File.new filename s.abstraction.nextid []
    (verf.getD ⟨Vector.replicate 8 0⟩) (env.time 0)).fileData) attr (env.time 1) (env.time 2) =
      (blank.setAttr attr (env.time 1) (env.time 2)).map Entry.object from hobject.symm]
  cases hset : blank.setAttr attr (env.time 1) (env.time 2) with
  | none => rfl
  | some file =>
    have hlinks := Entry.sameLinks_setAttr hset
    have hid : file.fileid = s.nextid := hlinks.fileid
    have hname : file.name = filename := hlinks.name
    simp only [Option.map_some, Option.bind_some, hname, Entry.attr_object]
    rcases hn.lookup_specified env.order dirid filename with
      ⟨existing, hlookup, hget, hspec⟩ | ⟨f, hlookup, hspec⟩
    · have hexisting : s.abstraction.names.object existing.fileid = some existing.object := by
        simp [abstraction, Fs.names, hget]
      simp only [hlookup, abstraction] at hexisting ⊢
      simp only [hspec, hexisting]
      cases existing with
      | dir dir => rfl
      | file g =>
        simp only [Entry.object]
        split_ifs <;> rfl
    · simp only [hlookup, abstraction, hspec]
      by_cases hf : f = .notFound
      · subst hf
        let s₁ : MemFs := { s with nextid := s.nextid + 1 }
        have hup : ∀ u, file.up = some u → u = dirid := by
          intro u hu
          rw [hlinks.up] at hu
          cases hu
        have hpush : Fs.Specified (s.fs.push dirid file)
            (s.fs.names.make dot dotDot dirid filename s.nextid file.object) := by
          rw [← hname, ← hid]
          refine Fs.push_specified hn (hid ▸ hfresh) (hid ▸ hd) hlinks.content hup ?_ fun _ => ?_
          · rw [hname]
            exact Fs.nameFree_of_lookup_noent hlookup
          · rw [hname]
            exact hspec
        exact lift_view (s := s₁) hpush
      · have hmake : s.fs.names.make dot dotDot dirid filename s.nextid file.object =
            (.error f, s.fs.names) := by
          rw [Namespace.make, hspec]
          cases f <;> first | rfl | exact absurd rfl hf
        rw [hmake]
        cases f <;> first | rfl | exact absurd rfl hf

theorem object_abstraction {id : FileHandleU64} :
    s.abstraction.names.object id = (s.fs.get id).map Entry.object := rfl

theorem setattr_view {id : FileHandleU64} {setattr : Sattr3} :
    (s.setattr env id setattr).map view = s.abstraction.setattr env id setattr := by
  unfold MemFs.setattr NamespaceFs.setattr
  cases hget : s.fs.get id with
  | none =>
    simp only [object_abstraction, hget, Option.map_none]
    rfl
  | some entry =>
    simp only [object_abstraction, hget, Option.map_some, ← Entry.setAttr_object, Option.map_map]
    cases hset : entry.setAttr setattr (env.time 0) (env.time 1) with
    | none => rfl
    | some entry' =>
      have hnames := Fs.names_replace hget (Entry.sameLinks_setAttr hset)
      simp only [Option.map_some, Function.comp_apply, view, abstraction, hnames,
        Entry.attr_object]

theorem write_view {id : FileHandleU64} {offset : UInt64} {data : Bytes} :
    (s.write id offset data).map view = s.abstraction.write id offset data := by
  unfold MemFs.write NamespaceFs.write
  cases hget : s.fs.get id with
  | none =>
    simp only [object_abstraction, hget, Option.map_none]
    rfl
  | some entry =>
    simp only [object_abstraction, hget, Option.map_some]
    cases entry with
    | dir dir => rfl
    | file f =>
      have hwrite := File.write_fileData f ⟨offset, data⟩
      simp only [Entry.object_file]
      cases hres : f.write offset data with
      | none =>
        rw [hres, Option.map_none] at hwrite
        rw [Option.map_eq_none_iff.mp hwrite.symm]
        rfl
      | some r =>
        rw [hres, Option.map_some] at hwrite
        obtain ⟨spec, hspec, hr⟩ := Option.map_eq_some_iff.mp hwrite.symm
        rw [hspec]
        cases r with
        | error e =>
          cases spec with
          | error f =>
            cases hr
            rfl
          | ok data => cases hr
        | ok f' =>
          cases spec with
          | error f => cases hr
          | ok data =>
            cases hr
            have hnames := Fs.names_replace hget (Entry.sameLinks_write hres)
            simp only [Option.map_some, view, abstraction, hnames]
            rfl

theorem exec_view {op : Op} (ht : s.fs.Tree) (hn : s.fs.Named) (hfresh : ¬s.fs.Known s.nextid)
    (hregular : s.Regular ⟨env, .change op⟩) :
    (s.exec ⟨env, op⟩).map view = s.abstraction.exec env op := by
  cases op with
  | create dirid filename attr => exact addFile_view hn hfresh hregular
  | createExclusive dirid filename createverf =>
    have hadd : (s.addFile env dirid filename noChange [] (some createverf)).map view =
        s.abstraction.create env dirid filename noChange (some createverf) :=
      addFile_view hn hfresh hregular
    simp only [exec, MemFs.createExclusive, NamespaceFs.exec, ← hadd, Option.map_map]
    rfl
  | mkdir dirid dirname =>
    obtain ⟨hd, hdot, hdotDot, hfree⟩ := hregular
    exact addDir_view hn hfresh hd hdot hdotDot hfree
  | remove dirid filename => exact lift_view (Fs.remove_specified ht hn env.order dirid filename)
  | rename fromDirid fromFilename toDirid toFilename =>
    obtain ⟨hdot, hdotDot, htears⟩ := hregular
    exact lift_view (Fs.rename_specified ht hn hdot hdotDot htears)
  | setattr id setattr => exact setattr_view
  | write id offset data => exact write_view

/-- The server answers a regular request as promised. -/
theorem serve_view (ht : s.fs.Tree) (hn : s.fs.Named) (hfresh : ¬s.fs.Known s.nextid)
    (hregular : s.Regular q) :
    s.abstraction.serve q = (s.serve build q).map view := by
  obtain ⟨env, request⟩ := q
  cases request with
  | change op =>
    simp only [NamespaceFs.serve, MemFs.serve, ← exec_view ht hn hfresh hregular, Option.map_map]
    rfl
  | lookup dirid filename =>
    have hlookup : (s.fs.lookup env.order dirid filename).map Entry.fileid =
        (s.fs.names.lookup dot dotDot dirid filename).mapError stat := by
      rcases hn.lookup_specified env.order dirid filename with
        ⟨e, hlookup, -, hspec⟩ | ⟨f, hlookup, hspec⟩
      · rw [hlookup, hspec]
        rfl
      · rw [hlookup, hspec]
        rfl
    simp only [NamespaceFs.serve, MemFs.serve, hlookup]
    rfl
  | getattr id =>
    simp only [NamespaceFs.serve, MemFs.serve, object_abstraction, Fs.getattr, Option.map_some,
      view]
    cases s.fs.get id with
    | none => rfl
    | some entry => simp only [Option.map_some, Entry.attr_object]
  | read id offset count =>
    simp only [NamespaceFs.serve, MemFs.serve, object_abstraction, MemFs.read]
    cases s.fs.get id with
    | none => rfl
    | some entry =>
      cases entry with
      | dir dir => rfl
      | file f =>
        simp only [Option.map_some, Entry.object_file, File.read_of_fits build hregular]
        rfl

/-! ## Runs -/

/-- The states in which the promise is kept, after at most `n` requests. -/
structure Sound (n : ℕ) (s : MemFs) : Prop where
  root : s.fs.root = s.rootdir
  tree : s.fs.Tree
  named : s.fs.Named
  fresh : ∃ m ≤ n, Shared.Fresh m ⟨s, []⟩

theorem sound_default (currentTime : Nfstime3) : Sound 0 (default currentTime) :=
  ⟨rfl, Fs.tree_new currentTime, Fs.named_new currentTime, 0, le_rfl,
    Shared.fresh_initial currentTime⟩

theorem Sound.mono {m : ℕ} (h : Sound n s) (hle : n ≤ m) : Sound m s := by
  obtain ⟨k, hk, hfresh⟩ := h.fresh
  exact ⟨h.root, h.tree, h.named, k, hk.trans hle, hfresh⟩

theorem Sound.unknown (h : Sound n s) (hn : n + 1 < 2 ^ 64) : ¬s.fs.Known s.nextid := by
  obtain ⟨m, hm, hfresh⟩ := h.fresh
  intro hknown
  have hissued := hfresh.known s.nextid hknown
  rw [show s.nextid = Shared.drawn m from hfresh.nextid] at hissued
  exact Shared.not_issued (by omega) hissued

theorem exec_root {call : Call} {r : Except Nfsstat3 Reply} (h : s.exec call = some (r, s')) :
    s'.fs.root = s.fs.root := by
  have hreplaced : ∀ order fs₁ fromEntry td tn r₀,
      s.fs.replaceTarget order fromEntry td tn = some (r₀, fs₁) → fs₁.root = s.fs.root := by
    intro order fs₁ fromEntry td tn r₀ hreplace
    rcases Fs.replaceTarget_cases hreplace with ⟨-, -, rfl⟩ | ⟨-, -, rfl⟩ | ⟨-, id, hremoved⟩
    · rfl
    · rfl
    · exact hremoved.root
  have heffect := exec_effect h
  obtain ⟨env, op⟩ := call
  generalize s'.fs = fs' at heffect ⊢
  cases heffect with
  | unchanged => rfl
  | pushed _ _ _ _ _ _ hpush => exact hpush.root
  | removed _ _ hremoved => exact hremoved.root
  | updated => rfl
  | renamed _ hrename =>
    cases hrename with
    | unchanged => rfl
    | rejected _ _ hreplace _ => exact hreplaced _ _ _ _ _ _ hreplace
    | relinked _ _ hreplace _ hrelink =>
      exact (Fs.relink_up hrelink).1.trans (hreplaced _ _ _ _ _ _ hreplace)

theorem exec_tree {op : Op} {r : Except Nfsstat3 Reply} (ht : s.fs.Tree) (hn : s.fs.Named)
    (hregular : s.Regular ⟨env, .change op⟩) (h : s.exec ⟨env, op⟩ = some (r, s')) :
    s'.fs.Tree := by
  cases op with
  | create dirid filename attr =>
    have hmakes : s.Makes ⟨env, .create dirid filename attr⟩ := hregular
    exact hmakes.tree ht h
  | createExclusive dirid filename createverf =>
    have hmakes : s.Makes ⟨env, .createExclusive dirid filename createverf⟩ := hregular
    exact hmakes.tree ht h
  | mkdir dirid dirname =>
    have hmakes : s.Makes ⟨env, .mkdir dirid dirname⟩ := hregular.1
    exact hmakes.tree ht h
  | remove dirid filename =>
    obtain ⟨r₀, fs', hremove, -, rfl⟩ := lift_eq_some h
    rcases Fs.remove_cases hremove with ⟨e, -, rfl⟩ | ⟨-, id, hremoved⟩
    · exact ht
    · exact hremoved.tree ht
  | rename fromDirid fromFilename toDirid toFilename =>
    obtain ⟨r₀, fs', hrename, -, rfl⟩ := lift_eq_some h
    obtain ⟨hdot, hdotDot, htears⟩ := hregular
    exact Fs.rename_tree ht hn hdot hdotDot htears hrename
  | setattr id setattr =>
    rcases setattr_cases h with ⟨e, -, rfl⟩ | ⟨entry, entry', hget, hset, -, rfl⟩
    · exact ht
    · exact ht.replace hget (Entry.sameLinks_setAttr hset)
  | write id offset data =>
    rcases write_cases h with ⟨e, -, rfl⟩ | ⟨f, f', hget, hwrite, -, rfl⟩
    · exact ht
    · exact ht.replace hget (Entry.sameLinks_write hwrite)

theorem serve_sound {p : Response × MemFs} (hs : Sound n s) (hn : n + 1 < 2 ^ 64)
    (hregular : s.Regular q) (h : s.serve build q = some p) : Sound (n + 1) p.2 := by
  obtain ⟨env, request⟩ := q
  have hkept := hs.mono (Nat.le_succ n)
  cases request with
  | change op =>
    obtain ⟨⟨r, s'⟩, hexec, rfl⟩ := Option.map_eq_some_iff.mp h
    have hstep : s.step ⟨env, op⟩ = some s' := congrArg (Option.map Prod.snd) hexec
    have hnames : s.KeepsNames ⟨env, op⟩ := by
      cases op with
      | mkdir dirid dirname => exact hregular.2.2.2
      | rename => exact ⟨hregular.1, hregular.2.1⟩
      | create | createExclusive | remove | setattr | write => trivial
    obtain ⟨m, hm, hfresh⟩ := hs.fresh
    obtain ⟨acts, hacts, hrun⟩ := Shared.run_call [] hstep
    have hrootdir : s'.rootdir = s.rootdir := by rw [exec_state hexec]
    exact ⟨(exec_root hexec).trans (hs.root.trans hrootdir.symm),
      exec_tree hs.tree hs.named hregular hexec, step_named hs.named hnames hstep,
      m + Shared.allocations acts, by omega, Shared.run_fresh hfresh (by omega) hrun⟩
  | lookup dirid filename =>
    cases h
    exact hkept
  | getattr id =>
    cases h
    exact hkept
  | read id offset count =>
    obtain ⟨r, -, rfl⟩ := Option.map_eq_some_iff.mp h
    exact hkept

theorem run_sound {queries : List Query} (hs : Sound n s) (hn : n + queries.length + 1 < 2 ^ 64)
    (hregular : Transition.Along (fun s q => (serve build s q).map Prod.snd) Regular s queries)
    (hrun : Transition.run (fun s q => (serve build s q).map Prod.snd) s queries = some s') :
    Sound (n + queries.length) s' := by
  induction queries generalizing s n with
  | nil =>
    cases hrun
    exact hs
  | cons q queries ih =>
    obtain ⟨s₁, h₁, hrest⟩ := Transition.run_cons_eq_some hrun
    obtain ⟨p, hp, rfl⟩ := Option.map_eq_some_iff.mp h₁
    simp only [List.length_cons] at hn ⊢
    have hs₁ := serve_sound hs (by omega) hregular.1 hp
    have hend := ih hs₁ (by omega) (hregular.2 p.2 h₁) hrest
    exact hend.mono (by omega)

/-! ## The start -/

/-- One entry of a configuration is added. -/
def addStep (s : MemFs) (p : Env × MemFsConfigEntry) : Option MemFs :=
  match s.addConfigured p.1 p.2 with
  | some (.ok _, s') => some s'
  | _ => none

/-- A directory is added under a name that is free. -/
def AddsFree (s : MemFs) (p : Env × MemFsConfigEntry) : Prop :=
  p.2.isDir → ∀ dirid, s.pathToIdImpl p.1.order p.2.parent = .ok dirid →
    s.fs.NameFree dirid (.ofString p.2.name)

/-- The configuration adds no directory twice. -/
def AddsOnce (currentTime : Nfstime3) (envs : ℕ → Env) (config : MemFsConfig) : Prop :=
  Transition.Along addStep AddsFree (default currentTime)
    (config.entries.mapIdx fun n entry => (envs n, entry))

theorem addStep_of_ok {p : Env × MemFsConfigEntry} {reply : Reply}
    (h : s.addConfigured p.1 p.2 = some (.ok reply, s')) : s.addStep p = some s' := by
  simp [addStep, h]

/-- A path leads to an entry that is there. -/
theorem pathToIdImpl_get {order : HashOrder} {path : String} {id : FileHandleU64}
    (hn : s.fs.Named) (hroot : (s.fs.get s.rootdir).isSome)
    (h : s.pathToIdImpl order path = .ok id) : (s.fs.get id).isSome := by
  unfold pathToIdImpl at h
  generalize path.splitOn "/" = components at h
  generalize s.rootdir = start at h hroot
  induction components generalizing start with
  | nil =>
    cases h
    exact hroot
  | cons component components ih =>
    rw [List.foldlM_cons] at h
    by_cases hempty : component.isEmpty
    · rw [if_pos hempty] at h
      exact ih start h hroot
    · rw [if_neg hempty] at h
      rcases hn.lookup_specified order start (.ofString component) with
        ⟨e, hlookup, hget, -⟩ | ⟨f, hlookup, -⟩
      · rw [hlookup] at h
        exact ih e.fileid h (by simp [hget])
      · rw [hlookup] at h
        cases h

/-- An entry under the handle that is drawn for it. -/
theorem fresh_made {m : ℕ} (hf : Shared.Fresh m ⟨s, []⟩)
    (hnextid : s'.nextid = s.nextid + 1) (hkeyed : s'.fs.Keyed)
    (hknown : ∀ i, s'.fs.Known i → s.fs.Known i ∨ i = s.nextid) :
    Shared.Fresh (m + 1) ⟨s', []⟩ := by
  have hdrawn : s.nextid = Shared.drawn m := hf.nextid
  refine ⟨hkeyed, ?_, ?_, by simp, .nil⟩
  · change s'.nextid = Shared.drawn (m + 1)
    rw [hnextid, hdrawn, Shared.drawn_succ]
  · intro i hi
    rcases hknown i hi with hi | rfl
    · exact (hf.known i hi).mono (Nat.le_succ m)
    · exact Or.inr ⟨m, Nat.lt_succ_self m, hdrawn⟩

theorem addConfigured_sound {entry : MemFsConfigEntry} {reply : Reply} (hs : Sound n s)
    (hn : n + 1 < 2 ^ 64) (hfree : s.AddsFree (env, entry))
    (h : s.addConfigured env entry = some (.ok reply, s')) : Sound (n + 1) s' := by
  have hroot : (s.fs.get s.rootdir).isSome := hs.root ▸ hs.tree.linked.tree.root_mem
  obtain ⟨m, hm, hfresh⟩ := hs.fresh
  unfold addConfigured at h
  split at h
  · cases h
  rename_i dirid hdirid
  have hne : dirid ≠ s.nextid := by
    rintro rfl
    exact hs.unknown hn (Or.inl (pathToIdImpl_get hs.named hroot hdirid))
  split_ifs at h with hdir
  · have htree := addDir_tree hs.tree hne h
    have hnamed : s'.fs.Named := lift_push_named hs.named rfl (hfree hdir dirid hdirid) h
    obtain ⟨hrootdir, hnextid, ⟨e, hr, -⟩ | ⟨-, hpushed⟩⟩ := addDir_cases h
    · cases hr
    · refine ⟨hpushed.root.trans (hs.root.trans hrootdir.symm), htree, hnamed, m + 1, by omega, ?_⟩
      exact fresh_made hfresh hnextid htree.linked.keyed fun i hi =>
        hpushed.known rfl hi
  · have htree := addFile_tree hs.tree hne h
    have hnamed := addFile_named hs.named h
    obtain ⟨hrootdir, hnextid, file, hset, hcases⟩ := addFile_cases h
    rcases hcases with ⟨e, hr, -⟩ | ⟨existing, -, hverf, -⟩ | ⟨-, -, hpushed⟩
    · cases hr
    · cases hverf
    · have hlinks := Entry.sameLinks_setAttr hset
      refine ⟨hpushed.root.trans (hs.root.trans hrootdir.symm), htree, hnamed, m + 1, by omega, ?_⟩
      refine fresh_made hfresh hnextid htree.linked.keyed fun i hi => ?_
      have hknown := hpushed.known hlinks.content hi
      rwa [hlinks.fileid] at hknown

theorem configure_sound {entries : List (Env × MemFsConfigEntry)} (hs : Sound n s)
    (hn : n + entries.length < 2 ^ 64) (hfree : Transition.Along addStep AddsFree s entries)
    (h : s.configure entries = some (.ok s')) : Sound (n + entries.length) s' := by
  induction entries generalizing s n with
  | nil =>
    cases h
    exact hs
  | cons p entries ih =>
    obtain ⟨⟨r, s₁⟩, hadd, hrest⟩ := Option.bind_eq_some_iff.mp h
    simp only [List.length_cons] at hn ⊢
    cases r with
    | error e => cases hrest
    | ok reply =>
      have hs₁ := addConfigured_sound hs (by omega) hfree.1 hadd
      have hend := ih hs₁ (by omega) (hfree.2 s₁ (addStep_of_ok hadd)) hrest
      exact hend.mono (by omega)

theorem sound_new {currentTime : Nfstime3} {envs : ℕ → Env} {config : MemFsConfig}
    (hn : config.entries.length < 2 ^ 64) (honce : AddsOnce currentTime envs config)
    (hnew : new currentTime envs config = some (.ok s)) : Sound config.entries.length s := by
  have hlength : (config.entries.mapIdx fun n entry => (envs n, entry)).length =
      config.entries.length := List.length_mapIdx
  have hsound := configure_sound (sound_default currentTime) (by omega) honce hnew
  rwa [hlength, Nat.zero_add] at hsound

/-- A configuration of distinct paths, each below the root or a directory that was listed before
it, adds no directory twice. -/
theorem addsOnce_configOf {adds : List Addition} (hproper : Proper adds)
    (hsize : adds.length ≤ maxCapacity) (currentTime : Nfstime3) (envs : ℕ → Env) :
    AddsOnce currentTime envs (configOf adds) := by
  suffices hboth : AddsOnce currentTime envs (configOf adds) ∧
      ∃ s, Transition.run addStep (default currentTime)
        ((configOf adds).entries.mapIdx fun n entry => (envs n, entry)) = some s ∧ Built adds s
    from hboth.1
  unfold AddsOnce
  rw [entries_configOf]
  induction adds using List.reverseRecOn with
  | nil => exact ⟨trivial, _, rfl, built_default currentTime⟩
  | append_singleton adds a ih =>
    rw [List.length_append, List.length_singleton] at hsize
    obtain ⟨hfree, s, hrun, hb⟩ := ih hproper.init (by omega)
    obtain ⟨reply, s', hadd, hb'⟩ := hb.addConfigured hproper (by omega) (envs adds.length)
    rw [List.map_append, List.map_singleton, List.mapIdx_concat, List.length_map]
    refine ⟨Transition.along_append.mpr ⟨hfree, ?_⟩, s', ?_, hb'⟩
    · intro s₁ hs₁
      obtain rfl : s₁ = s := Option.some.inj (hs₁.symm.trans hrun)
      refine ⟨?_, fun _ _ => trivial⟩
      intro _ dirid hdirid
      have hknown := hproper.known_new_parent
      obtain rfl : handleOf adds a.parent = dirid := by
        have hpath := hb.pathToIdImpl_parent hproper.init (envs adds.length).order hknown
        exact Except.ok.inj (hpath.symm.trans hdirid)
      exact hb.nameFree_new hproper hknown
    · rw [Transition.run_append, hrun, Option.bind_some,
        Transition.run_cons_of_some (addStep_of_ok hadd)]
      rfl

/-- Over every run of fewer than `2 ^ 64` regular requests the server gives the answers that are
promised, and ends in the state that is promised, whatever it was configured with. -/
theorem run_refines (build : Build) {currentTime : Nfstime3} {envs : ℕ → Env}
    {config : MemFsConfig} {start : MemFs} (honce : AddsOnce currentTime envs config)
    (hnew : new currentTime envs config = some (.ok start)) (queries : List Query)
    (hn : config.entries.length + queries.length + 1 < 2 ^ 64)
    (hregular : Transition.Along (fun s q => (serve build s q).map Prod.snd) Regular start
      queries) :
    Transition.outputs NamespaceFs.serve start.abstraction queries =
      (Transition.outputs (serve build) start queries).map view := by
  refine Transition.outputs_map ?_ ?_ (sound_new (by omega) honce hnew)
    (show config.entries.length + queries.length ≤ 2 ^ 64 - 1 by omega) hregular
  · intro n s q hs hlt hq
    exact serve_view hs.tree hs.named (hs.unknown (by omega)) hq
  · intro n s q p hs hlt hq h
    exact serve_sound hs (by omega) hq h

/-- A rename that succeeds has not failed halfway. -/
theorem not_tears_of_ok {fd td : FileHandleU64} {fn tn : Filename3} {order : HashOrder}
    (hk : s.fs.Keyed) (h : (s.fs.rename order fd fn td tn).map Prod.fst = some (.ok ())) :
    ¬(Op.rename fd fn td tn).Tears order s.fs := by
  rw [← Fs.rename_torn_iff hk]
  rintro ⟨e, fs', hrename, -⟩
  rw [hrename] at h
  cases h

/-- A file is made in the configured directory, renamed to the root, written to, looked up and
read; then the configured file is read. -/
def sampleQueries : List Query :=
  [.change (.create 2 ⟨⟨[0x66]⟩⟩ noChange), .change (.rename 2 ⟨⟨[0x66]⟩⟩ 1 ⟨⟨[0x67]⟩⟩),
    .change (.write 4 0 [0x78]), .lookup 2 ⟨⟨[0x66]⟩⟩, .lookup 1 ⟨⟨[0x67]⟩⟩,
    .read 4 0 5, .read 3 0 5].map (⟨sampleEnv, ·⟩)

theorem run_refines_sampleQueries :
    ∃ start, new ⟨0, 0⟩ (fun _ => sampleEnv) (configOf sampleAdds) = some (.ok start) ∧
      (Transition.outputs NamespaceFs.serve start.abstraction sampleQueries).map
        (fun p => p.1.drop 3) = some [.found (.error .nfs3errNoent), .found (.ok 4),
          .bytes (.ok ([0x78], true)), .bytes (.ok ([1, 2], true))] := by
  obtain ⟨start, hnew, hb⟩ := built_new proper_sampleAdds (by decide) ⟨0, 0⟩ fun _ => sampleEnv
  let create : Query := ⟨sampleEnv, .change (.create 2 ⟨⟨[0x66]⟩⟩ noChange)⟩
  have hrun : (new ⟨0, 0⟩ (fun _ => sampleEnv) (configOf sampleAdds)).map (fun r =>
      r.toOption.bind fun s =>
        (((serve .checked s create).map Prod.snd).bind fun s₁ =>
          (s₁.fs.rename .ascending 2 ⟨⟨[0x66]⟩⟩ 1 ⟨⟨[0x67]⟩⟩).map Prod.fst).map fun renamed =>
        (renamed, (Transition.outputs (serve .checked) s sampleQueries).map fun p => p.1.drop 3)) =
      some (some (.ok (), some [.found (.error .nfs3errNoent), .found (.ok 4),
        .bytes (.ok ([0x78], true)), .bytes (.ok ([1, 2], true))])) := by
    simp only [new, entries_configOf, sampleAdds, List.map, List.mapIdx_cons, List.mapIdx_nil,
      configure, addConfigured, pathToIdImpl_eq, Addition.entry, String.toList_ofList]
    decide +kernel
  rw [hnew, Option.map_some, Option.some.injEq, Except.toOption, Option.bind_some] at hrun
  obtain ⟨renamed, hrename, heq⟩ := Option.map_eq_some_iff.mp hrun
  obtain ⟨rfl, houtputs⟩ := Prod.mk.inj heq
  have honce : AddsOnce ⟨0, 0⟩ (fun _ => sampleEnv) (configOf sampleAdds) :=
    addsOnce_configOf proper_sampleAdds (by decide) ⟨0, 0⟩ _
  have hlength : (configOf sampleAdds).entries.length = 2 := by
    rw [entries_configOf]
    rfl
  have hcreate : start.Regular create := by
    have hne : (2 : FileHandleU64) ≠ start.nextid := by
      rw [hb.nextid]
      decide
    exact hne
  have hregular : Transition.Along (fun s q => (serve .checked s q).map Prod.snd) Regular start
      sampleQueries := by
    refine ⟨hcreate, fun s₁ h₁ => ⟨⟨by decide, by decide, ?_⟩, ?_⟩⟩
    · have hk : s₁.fs.Keyed := by
        obtain ⟨p, hp, rfl⟩ := Option.map_eq_some_iff.mp h₁
        have hstart := sound_new (by rw [hlength]; decide) honce hnew
        exact (serve_sound hstart (by rw [hlength]; decide) hcreate hp).named.keyed
      refine not_tears_of_ok hk ?_
      rw [show (serve .checked start create).map Prod.snd = some s₁ from h₁] at hrename
      exact hrename
    · have hread : (0 : UInt64).toNat + (5 : UInt32).toNat < 2 ^ 64 := by decide
      intro _ _
      exact ⟨trivial, fun _ _ => ⟨trivial, fun _ _ => ⟨trivial, fun _ _ =>
        ⟨hread, fun _ _ => ⟨hread, fun _ _ => trivial⟩⟩⟩⟩⟩
  refine ⟨start, hnew, ?_⟩
  rw [run_refines .checked honce hnew sampleQueries (by rw [hlength]; decide) hregular,
    Option.map_map]
  exact houtputs

end MemFs

end Nfs3.Memfs
