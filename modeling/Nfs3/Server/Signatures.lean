import Nfs3.Server.Footprint

/-!
# Signatures of procedures

The signature of a procedure says where its arguments and results speak of the file system. A
result is sound when what it says is in the footprint of the request: handles and attributes are
those the file system reported, and the status is how the change came out.
-/
namespace Nfs3

open Interaction (Prog)

/-! ## Signatures -/

def Nfs3Result.outcome {α ε : Type} : Nfs3Result α ε → Except Nfsstat3 Unit
  | .ok _ => .ok ()
  | .err stat _ => .error stat

/-- The handles among the arguments, the handles a result gives away, the attributes and the
cached data it reports with the handles they belong to, and whether it tells of a change. -/
structure Signature (A R : Type) where
  presented : A → List NfsFh3
  granted : R → List NfsFh3
  reported : A → R → List (NfsFh3 × Fattr3)
  wcc : A → R → List (NfsFh3 × WccData)
  outcome : R → Except Nfsstat3 Unit
  changes : Bool

def handleOf : PostOpFh3 → List NfsFh3
  | .some fh => [fh]
  | .none => []

/-- The attributes that stand next to a handle. -/
def attrsNextTo (fh : PostOpFh3) (attrs : PostOpAttr) : List (NfsFh3 × Fattr3) :=
  (handleOf fh).flatMap fun fh => attrsOf fh attrs

namespace Signature

section Families

variable {A R α ε : Type}

/-- A procedure without handles among its arguments. -/
def plain (granted : R → List NfsFh3) : Signature A R where
  presented _ := []
  granted
  reported _ _ := []
  wcc _ _ := []
  outcome _ := .ok ()
  changes := false

def reading (object : A → NfsFh3) (granted : α → List NfsFh3)
    (ok : A → α → List (NfsFh3 × Fattr3)) (fail : A → ε → List (NfsFh3 × Fattr3)) :
    Signature A (Nfs3Result α ε) where
  presented a := [object a]
  granted
    | .ok v => granted v
    | .err .. => []
  reported a
    | .ok v => ok a v
    | .err _ v => fail a v
  wcc _ _ := []
  outcome := Nfs3Result.outcome
  changes := false

def changing (presented : A → List NfsFh3) (granted : α → List NfsFh3)
    (reported : α → List (NfsFh3 × Fattr3)) (ok : A → α → List (NfsFh3 × WccData))
    (fail : A → ε → List (NfsFh3 × WccData)) : Signature A (Nfs3Result α ε) where
  presented
  granted
    | .ok v => granted v
    | .err .. => []
  reported _
    | .ok v => reported v
    | .err .. => []
  wcc a
    | .ok v => ok a v
    | .err _ v => fail a v
  outcome := Nfs3Result.outcome
  changes := true

end Families

/-! The signatures of the procedures, each with the fields of its own arguments and results. -/

def getattr : Signature Getattr3Args Getattr3Res :=
  reading (fun a : Getattr3Args => a.object) (fun _ : Getattr3Resok => [])
    (fun a v => [(a.object, v.objAttributes)]) fun _ (_ : Void) => []

def lookup : Signature Lookup3Args Lookup3Res :=
  reading (fun a : Lookup3Args => a.what.dir) (fun v : Lookup3Resok => [v.object])
    (fun a v => attrsOf v.object v.objAttributes ++ attrsOf a.what.dir v.dirAttributes)
    fun a (v : Lookup3Resfail) => attrsOf a.what.dir v.dirAttributes

def read : Signature Read3Args Read3Res :=
  reading (fun a : Read3Args => a.file) (fun _ : Read3Resok => [])
    (fun a v => attrsOf a.file v.fileAttributes)
    fun a (v : Read3Resfail) => attrsOf a.file v.fileAttributes

def fsinfo : Signature Fsinfo3Args Fsinfo3Res :=
  reading (fun a : Fsinfo3Args => a.fsroot) (fun _ : Fsinfo3Resok => [])
    (fun a v => attrsOf a.fsroot v.objAttributes)
    fun a (v : Fsinfo3Resfail) => attrsOf a.fsroot v.objAttributes

def access : Signature Access3Args Access3Res :=
  reading (fun a : Access3Args => a.object) (fun _ : Access3Resok => [])
    (fun a v => attrsOf a.object v.objAttributes)
    fun a (v : Access3Resfail) => attrsOf a.object v.objAttributes

def pathconf : Signature Pathconf3Args Pathconf3Res :=
  reading (fun a : Pathconf3Args => a.object) (fun _ : Pathconf3Resok => [])
    (fun a v => attrsOf a.object v.objAttributes)
    fun a (v : Pathconf3Resfail) => attrsOf a.object v.objAttributes

def fsstat : Signature Fsstat3Args Fsstat3Res :=
  reading (fun a : Fsstat3Args => a.fsroot) (fun _ : Fsstat3Resok => [])
    (fun a v => attrsOf a.fsroot v.objAttributes)
    fun a (v : Fsstat3Resfail) => attrsOf a.fsroot v.objAttributes

def readlink : Signature Readlink3Args Readlink3Res :=
  reading (fun a : Readlink3Args => a.symlink) (fun _ : Readlink3Resok => [])
    (fun a v => attrsOf a.symlink v.symlinkAttributes)
    fun a (v : Readlink3Resfail) => attrsOf a.symlink v.symlinkAttributes

def readdir : Signature Readdir3Args Readdir3Res :=
  reading (fun a : Readdir3Args => a.dir) (fun _ : Readdir3Resok => [])
    (fun a v => attrsOf a.dir v.dirAttributes)
    fun a (v : Readdir3Resfail) => attrsOf a.dir v.dirAttributes

def readdirplus : Signature Readdirplus3Args Readdirplus3Res :=
  reading (fun a : Readdirplus3Args => a.dir)
    (fun v : Readdirplus3Resok => v.reply.entries.items.flatMap fun e => handleOf e.nameHandle)
    (fun a v => attrsOf a.dir v.dirAttributes ++
      v.reply.entries.items.flatMap fun e => attrsNextTo e.nameHandle e.nameAttributes)
    fun a (v : Readdirplus3Resfail) => attrsOf a.dir v.dirAttributes

def write : Signature Write3Args Write3Res :=
  changing (fun a : Write3Args => [a.file]) (fun _ : Write3Resok => []) (fun _ => [])
    (fun a v => [(a.file, v.fileWcc)]) fun a (v : Write3Resfail) => [(a.file, v.fileWcc)]

def create : Signature Create3Args Create3Res :=
  changing (fun a : Create3Args => [a.where_.dir]) (fun v : Create3Resok => handleOf v.obj)
    (fun v => attrsNextTo v.obj v.objAttributes) (fun a v => [(a.where_.dir, v.dirWcc)])
    fun a (v : Create3Resfail) => [(a.where_.dir, v.dirWcc)]

def setattr : Signature Setattr3Args Setattr3Res :=
  changing (fun a : Setattr3Args => [a.object]) (fun _ : Setattr3Resok => []) (fun _ => [])
    (fun a v => [(a.object, v.objWcc)]) fun a (v : Setattr3Resfail) => [(a.object, v.objWcc)]

/-- Of RMDIR as well. -/
def remove : Signature Remove3Args Remove3Res :=
  changing (fun a : Remove3Args => [a.object.dir]) (fun _ : Remove3Resok => []) (fun _ => [])
    (fun a v => [(a.object.dir, v.dirWcc)])
    fun a (v : Remove3Resfail) => [(a.object.dir, v.dirWcc)]

def rename : Signature Rename3Args Rename3Res :=
  changing (fun a : Rename3Args => [a.from_.dir, a.to_.dir]) (fun _ : Rename3Resok => [])
    (fun _ => []) (fun a v => [(a.from_.dir, v.fromdirWcc), (a.to_.dir, v.todirWcc)])
    fun a (v : Rename3Resfail) => [(a.from_.dir, v.fromdirWcc), (a.to_.dir, v.todirWcc)]

def mkdir : Signature Mkdir3Args Mkdir3Res :=
  changing (fun a : Mkdir3Args => [a.where_.dir]) (fun v : Mkdir3Resok => handleOf v.obj)
    (fun v => attrsNextTo v.obj v.objAttributes) (fun a v => [(a.where_.dir, v.dirWcc)])
    fun a (v : Mkdir3Resfail) => [(a.where_.dir, v.dirWcc)]

def symlink : Signature Symlink3Args Symlink3Res :=
  changing (fun a : Symlink3Args => [a.where_.dir]) (fun v : Symlink3Resok => handleOf v.obj)
    (fun v => attrsNextTo v.obj v.objAttributes) (fun a v => [(a.where_.dir, v.dirWcc)])
    fun a (v : Symlink3Resfail) => [(a.where_.dir, v.dirWcc)]

def mnt : Signature Mount.Dirpath Mount.Mountres3 :=
  plain fun
    | .ok v => [⟨v.fhandle.val⟩]
    | .err _ => []

end Signature

/-- A procedure that the server runs, with its signature. -/
structure SignedProcedure (H I J : Type) where
  procedure : Procedure H I J
  signature : Signature procedure.Args procedure.Res

section Tables

variable {H I J : Type} [FileHandle H]

def nfsSigned : NfsProgram → Option (SignedProcedure H I J)
  | .nfsproc3Null => some ⟨(nfsProcedure .nfsproc3Null).get rfl, .plain fun _ => []⟩
  | .nfsproc3Getattr => some ⟨(nfsProcedure .nfsproc3Getattr).get rfl, .getattr⟩
  | .nfsproc3Lookup => some ⟨(nfsProcedure .nfsproc3Lookup).get rfl, .lookup⟩
  | .nfsproc3Read => some ⟨(nfsProcedure .nfsproc3Read).get rfl, .read⟩
  | .nfsproc3Fsinfo => some ⟨(nfsProcedure .nfsproc3Fsinfo).get rfl, .fsinfo⟩
  | .nfsproc3Access => some ⟨(nfsProcedure .nfsproc3Access).get rfl, .access⟩
  | .nfsproc3Pathconf => some ⟨(nfsProcedure .nfsproc3Pathconf).get rfl, .pathconf⟩
  | .nfsproc3Fsstat => some ⟨(nfsProcedure .nfsproc3Fsstat).get rfl, .fsstat⟩
  | .nfsproc3Readdir => some ⟨(nfsProcedure .nfsproc3Readdir).get rfl, .readdir⟩
  | .nfsproc3Readdirplus => some ⟨(nfsProcedure .nfsproc3Readdirplus).get rfl, .readdirplus⟩
  | .nfsproc3Write => some ⟨(nfsProcedure .nfsproc3Write).get rfl, .write⟩
  | .nfsproc3Create => some ⟨(nfsProcedure .nfsproc3Create).get rfl, .create⟩
  | .nfsproc3Setattr => some ⟨(nfsProcedure .nfsproc3Setattr).get rfl, .setattr⟩
  | .nfsproc3Remove | .nfsproc3Rmdir => some ⟨(nfsProcedure .nfsproc3Remove).get rfl, .remove⟩
  | .nfsproc3Rename => some ⟨(nfsProcedure .nfsproc3Rename).get rfl, .rename⟩
  | .nfsproc3Mkdir => some ⟨(nfsProcedure .nfsproc3Mkdir).get rfl, .mkdir⟩
  | .nfsproc3Symlink => some ⟨(nfsProcedure .nfsproc3Symlink).get rfl, .symlink⟩
  | .nfsproc3Readlink => some ⟨(nfsProcedure .nfsproc3Readlink).get rfl, .readlink⟩
  | .nfsproc3Mknod | .nfsproc3Link | .nfsproc3Commit => none

def mountSigned : Mount.MountProgram → Option (SignedProcedure H I J)
  | .mountproc3Null => some ⟨(mountProcedure .mountproc3Null).get rfl, .plain fun _ => []⟩
  | .mountproc3Mnt => some ⟨(mountProcedure .mountproc3Mnt).get rfl, .mnt⟩
  | .mountproc3Umnt => some ⟨(mountProcedure .mountproc3Umnt).get rfl, .plain fun _ => []⟩
  | .mountproc3Umntall => some ⟨(mountProcedure .mountproc3Umntall).get rfl, .plain fun _ => []⟩
  | .mountproc3Export => some ⟨(mountProcedure .mountproc3Export).get rfl, .plain fun _ => []⟩
  | .mountproc3Dump => none

def portmapSigned : Portmap.PmapProg → Option (SignedProcedure H I J)
  | .pmapprocNull => some ⟨(portmapProcedure .pmapprocNull).get rfl, .plain fun _ => []⟩
  | .pmapprocGetport => some ⟨(portmapProcedure .pmapprocGetport).get rfl, .plain fun _ => []⟩
  | _ => none

/-- The procedure that a call names, with its signature. -/
def CallBody.signed (call : CallBody) : Option (SignedProcedure H I J) :=
  if call.prog = 100000 then (enumOfTag call.proc).bind portmapSigned
  else if call.prog = 100005 then (enumOfTag call.proc).bind mountSigned
  else if call.prog = 100003 then (enumOfTag call.proc).bind nfsSigned
  else none

end Tables

/-! ## What results say -/

section Sound

variable {H I J A R : Type} [FileHandle H]

/-- The bytes stand for the handle. -/
def FileHandleConverter.Refers (c : FileHandleConverter) (fh : NfsFh3) (id : H) : Prop :=
  c.fhFromNfs fh = .ok id ∨ fh = c.fhToNfs id

/-- One of the handles resolves to this one. -/
def FileHandleConverter.Presents (c : FileHandleConverter) (fhs : List NfsFh3) (id : H) : Prop :=
  ∃ fh ∈ fhs, c.fhFromNfs fh = .ok id

namespace Footprint

/-- The attributes reported last: after the change, if there was one. -/
def latest (p : Footprint H I J) : List (H × Fattr3) :=
  match p.change with
  | none => p.before
  | some _ => p.after

/-- The status is how the change came out; without a change the request failed. -/
def Tells (p : Footprint H I J) (outcome : Except Nfsstat3 Unit) : Prop :=
  match p.change with
  | none => ∃ stat, outcome = .error stat
  | some change => outcome = change

/-- What is said of the object before the request was read before the change, and what is said
of it after the request was read after the change. -/
structure Brackets (p : Footprint H I J) (converter : FileHandleConverter) (fh : NfsFh3)
    (wcc : WccData) : Prop where
  before : ∀ v, wcc.before = .some v →
    ∃ id attr, converter.fhFromNfs fh = .ok id ∧ (id, attr) ∈ p.before ∧
      v = ⟨attr.size, attr.mtime, attr.ctime⟩
  after : ∀ attr, wcc.after = .some attr →
    ∃ id, converter.fhFromNfs fh = .ok id ∧ (id, attr) ∈ p.latest

/-- The attributes are among those the file system reported of the same objects. -/
def Reports (l : List (H × Fattr3)) (converter : FileHandleConverter)
    (es : List (NfsFh3 × Fattr3)) : Prop :=
  ∀ e ∈ es, ∃ id, converter.Refers e.1 id ∧ (id, e.2) ∈ l

end Footprint

/-- What a result says is in the footprint that the handler leaves. -/
structure Signature.Sound (sig : Signature A R) (converter : FileHandleConverter) (a : A) (r : R)
    (p : Footprint H I J) : Prop where
  closed : p.listing.Closed
  granted : ∀ fh ∈ sig.granted r, ∃ id ∈ p.found, fh = converter.fhToNfs id
  reported : Footprint.Reports (p.before ++ p.after) converter (sig.reported a r)
  wcc : ∀ e ∈ sig.wcc a r, p.Brackets converter e.1 e.2
  reading : sig.changes = false → p.change = none
  changing : sig.changes = true → p.Tells (sig.outcome r)

/-- The handler follows the protocol, and its results are sound. -/
def Signature.Handles (sig : Signature A R) (converter : FileHandleConverter)
    (handler : A → VfsM H I J R) : Prop :=
  ∀ a, (handler a).Follows (requestProtocol I J (converter.Presents (sig.presented a)))
    (fun p r => sig.Sound converter a r p) .empty

end Sound

namespace Footprint

section Reports

variable {H : Type} [FileHandle H] {converter : FileHandleConverter} {l l' : List (H × Fattr3)}
  {es es' : List (NfsFh3 × Fattr3)} {fh : NfsFh3} {id : H} {attrs : PostOpAttr}

theorem mem_attrsOf {X : Type} {x : X} {e : X × Fattr3} :
    e ∈ attrsOf x attrs ↔ e.1 = x ∧ attrs = .some e.2 := by
  cases attrs with
  | none => simp [attrsOf]
  | some attr =>
    obtain ⟨y, attr'⟩ := e
    simp [attrsOf, eq_comm]

theorem reports_nil : Reports l converter [] := by
  intro e he
  cases he

theorem Reports.append (h : Reports l converter es) (h' : Reports l converter es') :
    Reports l converter (es ++ es') := by
  intro e he
  rcases List.mem_append.mp he with he | he
  · exact h e he
  · exact h' e he

theorem Reports.mono (h : Reports l converter es) (hl : l ⊆ l') : Reports l' converter es := by
  intro e he
  obtain ⟨id, hid, hmem⟩ := h e he
  exact ⟨id, hid, hl hmem⟩

theorem reports_attrsOf (hid : converter.Refers fh id) (hl : attrsOf id attrs ⊆ l) :
    Reports l converter (attrsOf fh attrs) := by
  intro e he
  obtain ⟨rfl, hattr⟩ := mem_attrsOf.mp he
  exact ⟨id, hid, hl (mem_attrsOf.mpr ⟨rfl, hattr⟩)⟩

/-- The attributes that stand next to a new handle. -/
theorem reports_attrsNextTo (hfh : fh = converter.fhToNfs id) (hl : attrsOf id attrs ⊆ l) :
    Reports l converter (attrsNextTo (.some fh) attrs) := by
  have happend : attrsNextTo (.some fh) attrs = attrsOf fh attrs := List.append_nil _
  rw [happend]
  exact reports_attrsOf (.inr hfh) hl

end Reports

section Tells

variable {H I J : Type} {p : Footprint H I J}

theorem tells_of_unchanged {stat : Nfsstat3} (h : p.change = none) : p.Tells (.error stat) := by
  rw [Tells, h]
  exact ⟨stat, rfl⟩

theorem tells_of_changed {outcome : Except Nfsstat3 Unit} (h : p.change = some outcome) :
    p.Tells outcome := by
  rw [Tells, h]

end Tells

section Brackets

variable {H I J : Type} [FileHandle H] {p : Footprint H I J} {converter : FileHandleConverter}
  {fh : NfsFh3} {id : H} {attr : Fattr3}

theorem brackets_none : p.Brackets converter fh ⟨.none, .none⟩ := by
  constructor
  · intro v hv
    cases hv
  · intro attr hattr
    cases hattr

theorem brackets_after {after : PostOpAttr} (hid : converter.fhFromNfs fh = .ok id)
    (hafter : attrsOf id after ⊆ p.latest) : p.Brackets converter fh ⟨.none, after⟩ := by
  constructor
  · intro v hv
    cases hv
  · intro attr hattr
    exact ⟨id, hid, hafter (mem_attrsOf.mpr ⟨rfl, hattr⟩)⟩

theorem brackets_some {after : PostOpAttr} (hid : converter.fhFromNfs fh = .ok id)
    (hbefore : (id, attr) ∈ p.before) (hafter : attrsOf id after ⊆ p.latest) :
    p.Brackets converter fh ⟨.some (NfsHandlers.wccAttr attr), after⟩ := by
  constructor
  · intro v hv
    cases hv
    exact ⟨id, attr, hid, hbefore, rfl⟩
  · exact (brackets_after hid hafter).after

/-- Read before the change and once more, after it if there was one. -/
theorem brackets_note {after : PostOpAttr} (hid : converter.fhFromNfs fh = .ok id)
    (hbefore : (id, attr) ∈ p.before) :
    (p.note (attrsOf id after)).Brackets converter fh
      ⟨.some (NfsHandlers.wccAttr attr), after⟩ := by
  cases hchange : p.change with
  | none =>
    apply brackets_some hid
    · simp [hchange, hbefore]
    · simp [latest, hchange]
  | some outcome =>
    apply brackets_some hid
    · simp [hchange, hbefore]
    · simp [latest, hchange]

theorem Brackets.note {wcc : WccData} (h : p.Brackets converter fh wcc)
    (attrs : List (H × Fattr3)) : (p.note attrs).Brackets converter fh wcc := by
  constructor
  · intro v hv
    obtain ⟨id, attr, hid, hmem, hsame⟩ := h.before v hv
    refine ⟨id, attr, hid, ?_, hsame⟩
    cases hchange : p.change <;> simp [hchange, hmem]
  · intro attr hattr
    obtain ⟨id, hid, hmem⟩ := h.after attr hattr
    refine ⟨id, hid, ?_⟩
    cases hchange : p.change with
    | none =>
      rw [latest, hchange] at hmem
      simp [latest, hchange, hmem]
    | some outcome =>
      rw [latest, hchange] at hmem
      simp [latest, hchange, hmem]

end Brackets

end Footprint

namespace Signature

open Footprint

section Families

variable {H I J A α ε : Type} [FileHandle H]
  {converter : FileHandleConverter} {a : A} {p : Footprint H I J} {stat : Nfsstat3}

section Reading

variable {object : A → NfsFh3} {granted : α → List NfsFh3} {ok : A → α → List (NfsFh3 × Fattr3)}
  {fail : A → ε → List (NfsFh3 × Fattr3)}

theorem sound_reading_ok {v : α} (hclosed : p.listing.Closed) (hchange : p.change = none)
    (hgranted : ∀ fh ∈ granted v, ∃ id ∈ p.found, fh = converter.fhToNfs id)
    (hreported : Reports p.before converter (ok a v)) :
    (reading object granted ok fail).Sound converter a (.ok v) p where
  closed := hclosed
  granted := hgranted
  reported := hreported.mono (List.subset_append_left _ _)
  wcc e he := by cases he
  reading _ := hchange
  changing h := by cases h

theorem sound_reading_err {v : ε} (hclosed : p.listing.Closed) (hchange : p.change = none)
    (hreported : Reports p.before converter (fail a v)) :
    (reading object granted ok fail).Sound converter a (.err stat v) p where
  closed := hclosed
  granted fh h := by cases h
  reported := hreported.mono (List.subset_append_left _ _)
  wcc e he := by cases he
  reading _ := hchange
  changing h := by cases h

section Attributes

variable {fh : NfsFh3} {id : H} {attrs : PostOpAttr}

/-- Of what the result says, only the attributes of the object concern the file system. -/
theorem sound_attributes_ok {v : α} (hid : converter.fhFromNfs fh = .ok id)
    (hok : ok a v = attrsOf fh attrs) (hgranted : granted v = [])
    (hbefore : attrsOf id attrs ⊆ p.before) (hclosed : p.listing.Closed)
    (hchange : p.change = none) :
    (reading object granted ok fail).Sound converter a (.ok v) p := by
  apply sound_reading_ok hclosed hchange
  · rw [hgranted]
    exact List.forall_mem_nil _
  · rw [hok]
    exact reports_attrsOf (.inl hid) hbefore

theorem sound_attributes_err {v : ε} (hid : converter.fhFromNfs fh = .ok id)
    (hfail : fail a v = attrsOf fh attrs) (hbefore : attrsOf id attrs ⊆ p.before)
    (hclosed : p.listing.Closed) (hchange : p.change = none) :
    (reading object granted ok fail).Sound converter a (.err stat v) p := by
  apply sound_reading_err hclosed hchange
  rw [hfail]
  exact reports_attrsOf (.inl hid) hbefore

end Attributes

end Reading

section Changing

variable {presented : A → List NfsFh3} {granted : α → List NfsFh3}
  {reported : α → List (NfsFh3 × Fattr3)} {ok : A → α → List (NfsFh3 × WccData)}
  {fail : A → ε → List (NfsFh3 × WccData)}

theorem sound_changing_ok {v : α} (hclosed : p.listing.Closed)
    (hgranted : ∀ fh ∈ granted v, ∃ id ∈ p.found, fh = converter.fhToNfs id)
    (hreported : Reports p.after converter (reported v))
    (hwcc : ∀ e ∈ ok a v, p.Brackets converter e.1 e.2) (htells : p.Tells (.ok ())) :
    (changing presented granted reported ok fail).Sound converter a (.ok v) p where
  closed := hclosed
  granted := hgranted
  reported := hreported.mono (List.subset_append_right _ _)
  wcc := hwcc
  reading h := by cases h
  changing _ := htells

theorem sound_changing_err {v : ε} (hclosed : p.listing.Closed)
    (hwcc : ∀ e ∈ fail a v, p.Brackets converter e.1 e.2) (htells : p.Tells (.error stat)) :
    (changing presented granted reported ok fail).Sound converter a (.err stat v) p where
  closed := hclosed
  granted fh h := by cases h
  reported := reports_nil
  wcc := hwcc
  reading h := by cases h
  changing _ := htells

/-- A request that failed before its change. -/
theorem sound_refused {v : ε} {fh : NfsFh3} (hfail : fail a v = [(fh, ⟨.none, .none⟩)])
    (hclosed : p.listing.Closed) (hchange : p.change = none) :
    (changing presented granted reported ok fail).Sound converter a (.err stat v) p := by
  apply sound_changing_err hclosed
  · rw [hfail, List.forall_mem_singleton]
    exact brackets_none
  · exact tells_of_unchanged hchange

section Around

variable {fh : NfsFh3} {id : H} {attr : Fattr3} {after : PostOpAttr}

/-- The attributes of one object, from before the change and the latest. -/
theorem sound_wcc_ok {v : α} (hid : converter.fhFromNfs fh = .ok id)
    (hok : ok a v = [(fh, ⟨.some (NfsHandlers.wccAttr attr), after⟩)])
    (hgranted : granted v = []) (hreported : reported v = []) (hbefore : (id, attr) ∈ p.before)
    (hafter : attrsOf id after ⊆ p.latest) (hclosed : p.listing.Closed)
    (htells : p.Tells (.ok ())) :
    (changing presented granted reported ok fail).Sound converter a (.ok v) p := by
  apply sound_changing_ok hclosed
  · rw [hgranted]
    exact List.forall_mem_nil _
  · rw [hreported]
    exact reports_nil
  · rw [hok, List.forall_mem_singleton]
    exact brackets_some hid hbefore hafter
  · exact htells

theorem sound_wcc_err {v : ε} (hid : converter.fhFromNfs fh = .ok id)
    (hfail : fail a v = [(fh, ⟨.some (NfsHandlers.wccAttr attr), after⟩)])
    (hbefore : (id, attr) ∈ p.before) (hafter : attrsOf id after ⊆ p.latest)
    (hclosed : p.listing.Closed) (htells : p.Tells (.error stat)) :
    (changing presented granted reported ok fail).Sound converter a (.err stat v) p := by
  apply sound_changing_err hclosed
  · rw [hfail, List.forall_mem_singleton]
    exact brackets_some hid hbefore hafter
  · exact htells

/-- The attributes were read before the change and once more, before the reply. -/
theorem sound_noted_ok {v : α} (hid : converter.fhFromNfs fh = .ok id)
    (hok : ok a v = [(fh, ⟨.some (NfsHandlers.wccAttr attr), after⟩)])
    (hbefore : (id, attr) ∈ p.before) (hclosed : p.listing.Closed)
    (hgranted : ∀ fh ∈ granted v, ∃ id ∈ p.found, fh = converter.fhToNfs id)
    (hreported : Reports p.after converter (reported v)) (htells : p.change = some (.ok ())) :
    (changing presented granted reported ok fail).Sound converter a (.ok v)
      (p.note (attrsOf id after)) := by
  apply sound_changing_ok
  · simpa using hclosed
  · simpa using hgranted
  · apply hreported.mono
    simp [htells]
  · rw [hok, List.forall_mem_singleton]
    exact brackets_note hid hbefore
  · exact tells_of_changed (by simpa using htells)

theorem sound_noted_err {v : ε} (hid : converter.fhFromNfs fh = .ok id)
    (hfail : fail a v = [(fh, ⟨.some (NfsHandlers.wccAttr attr), after⟩)])
    (hbefore : (id, attr) ∈ p.before) (hclosed : p.listing.Closed)
    (htells : p.Tells (.error stat)) :
    (changing presented granted reported ok fail).Sound converter a (.err stat v)
      (p.note (attrsOf id after)) := by
  apply sound_changing_err
  · simpa using hclosed
  · rw [hfail, List.forall_mem_singleton]
    exact brackets_note hid hbefore
  · simpa [Tells] using htells

end Around

end Changing

end Families

end Signature

end Nfs3
