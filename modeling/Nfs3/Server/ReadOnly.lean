import Nfs3.Server.DispatchSound

/-!
# Read-only exports

`ReadOnlyAdapter` stands between the handlers and a file system. It passes the reading calls on,
takes the write permissions out of every attribute it returns and answers the changing calls
itself.
-/
namespace Nfs3

open ByteOrder (Bytes)
open Interaction Prog

/-! ## The adapter -/

/-- Clears every write bit, `mode &= 0o555`. -/
def removeWritePermissions (attr : Fattr3) : Fattr3 := { attr with mode := attr.mode &&& 0x16D }

namespace ReadOnlyAdapter

variable {H I J : Type}

def getattr (id : H) : VfsM H I J (Except Nfsstat3 Fattr3) := do
  let result ← Vfs.getattr id
  pure (result.map removeWritePermissions)

/-- `next` of `ReadOnlyIterator`. -/
def readdirplusNext (iter : J) : VfsM H I J (NextResult (DirEntryPlus H) × J) := do
  match ← Vfs.readdirplusNext iter with
  | (.ok entry, iter) =>
    let nameAttributes := entry.nameAttributes.map removeWritePermissions
    pure (.ok { entry with nameAttributes }, iter)
  | (result, iter) => pure (result, iter)

/-- `lookup_by_path` and `fsinfo` are the default methods, over those of the adapter. -/
def answer : (c : VfsCall H I J) → VfsM H I J c.Reply
  | .rootDir => Vfs.rootDir
  | .lookup dirid filename => Vfs.lookup dirid filename
  | .lookupByPath path => defaultLookupByPath Vfs.rootDir Vfs.lookup path
  | .getattr id => getattr id
  | .read id offset count => Vfs.read id offset count
  | .readdir dirid cookie => Vfs.readdir dirid cookie
  | .readdirNext iter => Vfs.readdirNext iter
  | .readdirDrop iter => Vfs.readdirDrop iter
  | .readdirplus dirid cookie => Vfs.readdirplus dirid cookie
  | .readdirplusNext iter => readdirplusNext iter
  | .readdirplusDrop iter => Vfs.readdirplusDrop iter
  | .readlink id => Vfs.readlink id
  | .fsinfo rootFileid => defaultFsinfo getattr rootFileid
  | .capabilities => .ret VFSCapabilities.readOnly
  | .setattr .. | .write .. => .ret (.error .nfs3errRofs : Except Nfsstat3 Fattr3)
  | .create .. | .mkdir .. | .symlink .. =>
    .ret (.error .nfs3errRofs : Except Nfsstat3 (H × Fattr3))
  | .createExclusive .. => .ret (.error .nfs3errRofs : Except Nfsstat3 H)
  | .remove .. | .rename .. => .ret (.error .nfs3errRofs : Except Nfsstat3 Unit)

/-- The server's calls, those to the file system through the adapter. -/
def serverAnswer : (c : ServerCall H I J) → ServerM H I J c.Reply
  | .vfs c => liftVfs (answer c)
  | .startTransaction clientAddr xid => .ask (.startTransaction clientAddr xid) .ret
  | .dropLock lock => .ask (.dropLock lock) .ret
  | .mountSignal mounted => .ask (.mountSignal mounted) .ret

end ReadOnlyAdapter

section Serve

variable {H I J : Type} [FileHandle H]

/-- The requests of all connections, in the order in which they are taken up. -/
def serveReadOnly :
    List (RPCContext × Bytes) → ServerM H I J (List (Except RpcError HandleResult))
  | [] => .ret []
  | (context, message) :: requests =>
    ((handleRpcMessage context message).interp ReadOnlyAdapter.serverAnswer).bind fun result =>
      (serveReadOnly requests).bind fun results => .ret (result :: results)

end Serve

/-! ## Attributes in replies -/

def ReadOnlyAttr (attr : Fattr3) : Prop := attr.mode &&& 0x92 = 0

theorem readOnlyAttr_removeWritePermissions (attr : Fattr3) :
    ReadOnlyAttr (removeWritePermissions attr) := by
  show attr.mode &&& 0x16D &&& 0x92 = 0
  rw [UInt32.and_assoc]
  exact UInt32.and_zero

/-- The attributes a part of a reply carries. -/
class HasFattrs (R : Type) where
  fattrs : R → List Fattr3

namespace HasFattrs

instance : HasFattrs Void := ⟨fun _ => []⟩

instance : HasFattrs PostOpAttr where
  fattrs
    | .some attr => [attr]
    | .none => []

instance : HasFattrs WccData := ⟨fun wcc => fattrs wcc.after⟩

instance {α ε : Type} [HasFattrs α] [HasFattrs ε] : HasFattrs (Nfs3Result α ε) where
  fattrs
    | .ok val => fattrs val
    | .err _ fail => fattrs fail

instance : HasFattrs Access3Resok := ⟨fun r => fattrs r.objAttributes⟩

instance : HasFattrs Access3Resfail := ⟨fun r => fattrs r.objAttributes⟩

instance : HasFattrs Fsinfo3Resok := ⟨fun r => fattrs r.objAttributes⟩

instance : HasFattrs Fsinfo3Resfail := ⟨fun r => fattrs r.objAttributes⟩

instance : HasFattrs Fsstat3Resok := ⟨fun r => fattrs r.objAttributes⟩

instance : HasFattrs Fsstat3Resfail := ⟨fun r => fattrs r.objAttributes⟩

instance : HasFattrs Pathconf3Resok := ⟨fun r => fattrs r.objAttributes⟩

instance : HasFattrs Pathconf3Resfail := ⟨fun r => fattrs r.objAttributes⟩

instance : HasFattrs Getattr3Resok := ⟨fun r => [r.objAttributes]⟩

instance : HasFattrs Lookup3Resok := ⟨fun r => fattrs r.objAttributes ++ fattrs r.dirAttributes⟩

instance : HasFattrs Lookup3Resfail := ⟨fun r => fattrs r.dirAttributes⟩

instance : HasFattrs Read3Resok := ⟨fun r => fattrs r.fileAttributes⟩

instance : HasFattrs Read3Resfail := ⟨fun r => fattrs r.fileAttributes⟩

instance : HasFattrs Readlink3Resok := ⟨fun r => fattrs r.symlinkAttributes⟩

instance : HasFattrs Readlink3Resfail := ⟨fun r => fattrs r.symlinkAttributes⟩

instance : HasFattrs Readdir3Resok := ⟨fun r => fattrs r.dirAttributes⟩

instance : HasFattrs Readdir3Resfail := ⟨fun r => fattrs r.dirAttributes⟩

instance : HasFattrs Entryplus3 := ⟨fun r => fattrs r.nameAttributes⟩

instance : HasFattrs Readdirplus3Resok :=
  ⟨fun r => fattrs r.dirAttributes ++ r.reply.entries.items.flatMap fattrs⟩

instance : HasFattrs Readdirplus3Resfail := ⟨fun r => fattrs r.dirAttributes⟩

instance : HasFattrs Create3Resok := ⟨fun r => fattrs r.objAttributes ++ fattrs r.dirWcc⟩

instance : HasFattrs Create3Resfail := ⟨fun r => fattrs r.dirWcc⟩

instance : HasFattrs Mkdir3Resok := ⟨fun r => fattrs r.objAttributes ++ fattrs r.dirWcc⟩

instance : HasFattrs Mkdir3Resfail := ⟨fun r => fattrs r.dirWcc⟩

instance : HasFattrs Symlink3Resok := ⟨fun r => fattrs r.objAttributes ++ fattrs r.dirWcc⟩

instance : HasFattrs Symlink3Resfail := ⟨fun r => fattrs r.dirWcc⟩

instance : HasFattrs Remove3Resok := ⟨fun r => fattrs r.dirWcc⟩

instance : HasFattrs Remove3Resfail := ⟨fun r => fattrs r.dirWcc⟩

instance : HasFattrs Rename3Resok := ⟨fun r => fattrs r.fromdirWcc ++ fattrs r.todirWcc⟩

instance : HasFattrs Rename3Resfail := ⟨fun r => fattrs r.fromdirWcc ++ fattrs r.todirWcc⟩

instance : HasFattrs Setattr3Resok := ⟨fun r => fattrs r.objWcc⟩

instance : HasFattrs Setattr3Resfail := ⟨fun r => fattrs r.objWcc⟩

instance : HasFattrs Write3Resok := ⟨fun r => fattrs r.fileWcc⟩

instance : HasFattrs Write3Resfail := ⟨fun r => fattrs r.fileWcc⟩

end HasFattrs

/-- No attribute in the reply allows writing. -/
def Masked {R : Type} [HasFattrs R] (r : R) : Prop := ∀ attr ∈ HasFattrs.fattrs r, ReadOnlyAttr attr

theorem masked_some {attr : Fattr3} (h : ReadOnlyAttr attr) : Masked (.some attr : PostOpAttr) := by
  intro attr' hmem
  rw [List.mem_singleton.mp hmem]
  exact h

theorem masked_of_nil {R : Type} [HasFattrs R] {r : R} (h : HasFattrs.fattrs r = []) :
    Masked r := by
  intro attr hmem
  rw [h] at hmem
  cases hmem

/-- The result is the payload of a successful reply, if it can be packed, and has the property. -/
def Carries {R : Type} [XdrCodec R] (xid : UInt32) (P : R → Prop)
    (result : Except RpcError HandleResult) : Prop :=
  ∃ r, P r ∧ result =
    match packMessage ⟨xid, .reply (.msgAccepted ⟨.default, .success⟩)⟩ r with
    | .ok bytes => .ok (.reply bytes)
    | .error err => .error (.codec err)

/-- Refused, with no attributes that allow writing. -/
def Refuses {α ε : Type} [HasFattrs α] [HasFattrs ε] (r : Nfs3Result α ε) : Prop :=
  r.tag = .nfs3errRofs ∧ Masked r

/-- What a read-only export answers to a procedure that runs. -/
def ReadOnlyReply (xid : UInt32) (result : Except RpcError HandleResult) : NfsProgram → Prop
  | .nfsproc3Null => Carries xid (fun r : Void => Masked r) result
  | .nfsproc3Getattr => Carries xid (fun r : Getattr3Res => Masked r) result
  | .nfsproc3Lookup => Carries xid (fun r : Lookup3Res => Masked r) result
  | .nfsproc3Read => Carries xid (fun r : Read3Res => Masked r) result
  | .nfsproc3Fsinfo => Carries xid (fun r : Fsinfo3Res => Masked r) result
  | .nfsproc3Access => Carries xid (fun r : Access3Res => Masked r ∧
      ∀ v, r = .ok v → v.access &&& ~~~(NfsHandlers.access3Read ||| NfsHandlers.access3Lookup) = 0)
      result
  | .nfsproc3Pathconf => Carries xid (fun r : Pathconf3Res => Masked r) result
  | .nfsproc3Fsstat => Carries xid (fun r : Fsstat3Res => Masked r) result
  | .nfsproc3Readdir => Carries xid (fun r : Readdir3Res => Masked r) result
  | .nfsproc3Readdirplus => Carries xid (fun r : Readdirplus3Res => Masked r) result
  | .nfsproc3Readlink => Carries xid (fun r : Readlink3Res => Masked r) result
  | .nfsproc3Write => Carries xid (fun r : Write3Res => Refuses r) result
  | .nfsproc3Create => Carries xid (fun r : Create3Res => Refuses r) result
  | .nfsproc3Setattr => Carries xid (fun r : Setattr3Res => Refuses r) result
  | .nfsproc3Remove | .nfsproc3Rmdir => Carries xid (fun r : Remove3Res => Refuses r) result
  | .nfsproc3Rename => Carries xid (fun r : Rename3Res => Refuses r) result
  | .nfsproc3Mkdir => Carries xid (fun r : Mkdir3Res => Refuses r) result
  | .nfsproc3Symlink => Carries xid (fun r : Symlink3Res => Refuses r) result
  | .nfsproc3Mknod | .nfsproc3Link | .nfsproc3Commit => False

/-! ## What the adapter guarantees -/

section Guarantee

variable {H I J : Type}

/-- What every answer of the adapter satisfies. -/
def Guaranteed : (c : VfsCall H I J) → c.Reply → Prop
  | .getattr _, (r : Except Nfsstat3 Fattr3) => ∀ attr, r = .ok attr → ReadOnlyAttr attr
  | .fsinfo _, (r : Except Nfsstat3 Fsinfo3Resok) => ∀ v, r = .ok v → Masked v
  | .readdirplusNext _, (r : NextResult (DirEntryPlus H) × J) =>
    ∀ entry attr, r.1 = .ok entry → entry.nameAttributes = some attr → ReadOnlyAttr attr
  | .capabilities, (r : VFSCapabilities) => r = .readOnly
  | _, _ => True

def ServerGuaranteed : (c : ServerCall H I J) → c.Reply → Prop
  | .vfs c, r => Guaranteed c r
  | _, _ => True

/-- No call changes the file system. -/
def ServerCall.reads : ServerCall H I J → Prop
  | .vfs c => c.mutating = false
  | _ => True

theorem getattr_guaranteed (id : H) :
    (ReadOnlyAdapter.getattr id : VfsM H I J _).Meets (fun c => c.mutating = false)
      fun r => ∀ attr, r = .ok attr → ReadOnlyAttr attr := by
  refine ⟨rfl, fun r attr h => ?_⟩
  change Except.map removeWritePermissions r = .ok attr at h
  cases r with
  | error stat => cases h
  | ok attr' =>
    cases h
    exact readOnlyAttr_removeWritePermissions attr'

theorem lookupComponents_meets (fid : H) (components : List String) :
    (lookupComponents Vfs.lookup fid components : VfsM H I J _).Meets
      (fun c => c.mutating = false) fun _ => True := by
  induction components generalizing fid with
  | nil => trivial
  | cons component components ih =>
    unfold lookupComponents
    split_ifs
    · exact ih fid
    · refine ⟨rfl, fun r => ?_⟩
      match r with
      | .error stat => trivial
      | .ok fid => exact ih fid

theorem answer_guaranteed (c : VfsCall H I J) :
    (ReadOnlyAdapter.answer c).Meets (fun c => c.mutating = false) (Guaranteed c) := by
  cases c with
  | getattr id => exact getattr_guaranteed id
  | lookupByPath path => exact ⟨rfl, fun fid => lookupComponents_meets fid _⟩
  | fsinfo rootFileid =>
    refine meets_bind.mpr ((getattr_guaranteed rootFileid).mono fun r hr => ?_)
    intro v hv
    cases hv
    match r with
    | .error stat => exact masked_of_nil rfl
    | .ok attr => exact masked_some (hr attr rfl)
  | readdirplusNext iter =>
    refine ⟨rfl, fun r => ?_⟩
    match r with
    | (.eof, iter) => exact fun entry attr h => by cases h
    | (.err stat, iter) => exact fun entry attr h => by cases h
    | (.ok entry, iter) =>
      intro entry' attr h hattr
      cases h
      obtain ⟨attr', -, rfl⟩ := Option.map_eq_some_iff.mp hattr
      exact readOnlyAttr_removeWritePermissions attr'
  | capabilities => rfl
  | setattr | write | create | createExclusive | mkdir | remove | rename | symlink => trivial
  | _ => exact ⟨rfl, fun _ => trivial⟩

theorem liftVfs_reads {α : Type} {Q : α → Prop} {m : VfsM H I J α}
    (h : m.Meets (fun c => c.mutating = false) Q) : (liftVfs m).Meets ServerCall.reads Q := by
  induction m with
  | ret a => exact h
  | halt => trivial
  | ask c next ih => exact ⟨h.1, fun r => ih r (h.2 r)⟩

theorem serverAnswer_guaranteed (c : ServerCall H I J) :
    (ReadOnlyAdapter.serverAnswer c).Meets ServerCall.reads (ServerGuaranteed c) := by
  cases c with
  | vfs c => exact liftVfs_reads (answer_guaranteed c)
  | _ => exact ⟨trivial, fun _ => trivial⟩

end Guarantee

/-! ## What the handlers make of it -/

section Handlers

variable {H I J α ε : Type}

/-- The program returns results with the property whenever its calls are answered as the adapter
guarantees. -/
def Returns (Q : α → Prop) (m : VfsM H I J α) : Prop :=
  ∀ h, (liftVfs m).Along True ServerGuaranteed (fun _ _ => True) (fun _ r => Q r) h

theorem liftVfs_bind {β : Type} (m : VfsM H I J α) (f : α → VfsM H I J β) :
    liftVfs (m.bind f) = (liftVfs m).bind fun a => liftVfs (f a) :=
  interp_bind

theorem Returns.bind {β : Type} {Q : α → Prop} {R : β → Prop} {m : VfsM H I J α}
    {f : α → VfsM H I J β} (hm : Returns Q m) (hf : ∀ a, Q a → Returns R (f a)) :
    Returns R (m.bind f) := by
  intro h
  rw [liftVfs_bind, along_bind]
  exact (hm h).imp (fun _ _ hP => hP) fun t a _ ha => hf a ha (h ++ t)

theorem returns_ask {c : VfsCall H I J} {f : c.Reply → VfsM H I J α} {Q : α → Prop}
    (hf : ∀ r, Guaranteed c r → Returns Q (f r)) : Returns Q (.ask c f) :=
  fun _ => ⟨trivial, fun r hr => hf r hr _⟩

theorem returns_ret {a : α} {Q : α → Prop} (h : Q a) : Returns Q (.ret a : VfsM H I J α) :=
  fun _ => h

theorem returns_getPostOpAttr (id : H) :
    Returns Masked (NfsHandlers.getPostOpAttr id : VfsM H I J PostOpAttr) := by
  refine returns_ask fun r hr => returns_ret ?_
  match r with
  | .error stat => exact masked_of_nil rfl
  | .ok attr => exact masked_some (hr attr rfl)

theorem returns_readWrite {Q : Nfs3Result α ε → Prop} {fail : ε}
    {body : VfsM H I J (Nfs3Result α ε)} (h : Q (.err .nfs3errRofs fail)) :
    Returns Q (NfsHandlers.readWrite fail body) := by
  refine returns_ask fun r hr => ?_
  cases hr
  exact returns_ret h

/-- The loop keeps what every push of a guaranteed entry keeps. -/
theorem returns_fill {E B K : Type} {next : K → VfsM H I J (NextResult E × K)}
    {push : B → E → Option B} {G : E → Prop} {Inv : B → Prop}
    (hnext : ∀ iter, Returns (fun r => ∀ entry, r.1 = .ok entry → G entry) (next iter))
    (hpush : ∀ acc entry acc', Inv acc → G entry → push acc entry = some acc' → Inv acc')
    {fuel : ℕ} {iter : K} {acc : B} (hacc : Inv acc) :
    Returns (fun r => ∀ acc eof, r.1 = .ok (acc, eof) → Inv acc)
      (NfsHandlers.fill next push fuel iter acc) := by
  induction fuel generalizing iter acc with
  | zero => exact fun _ => trivial
  | succ fuel ih =>
    refine (hnext iter).bind fun r hr => ?_
    match r with
    | (.eof, iter) =>
      refine returns_ret fun acc' eof h => ?_
      cases h
      exact hacc
    | (.err stat, iter) => exact returns_ret fun acc' eof h => by cases h
    | (.ok entry, iter) =>
      dsimp only
      rcases hp : push acc entry with _ | acc'
      · refine returns_ret fun acc' eof h => ?_
        cases h
        exact hacc
      · exact ih (hpush acc entry acc' hacc (hr entry rfl) hp)

variable [FileHandle H]

theorem returns_fhToId {Q : Nfs3Result α ε → Prop} {context : RPCContext} {fh : NfsFh3} {fail : ε}
    {body : H → VfsM H I J (Nfs3Result α ε)} (hfail : ∀ stat, Q (.err stat fail))
    (hbody : ∀ id, Returns Q (body id)) : Returns Q (NfsHandlers.fhToId context fh fail body) := by
  unfold NfsHandlers.fhToId
  split
  · exact returns_ret (hfail _)
  · exact hbody _

theorem returns_getattr (context : RPCContext) (xid : UInt32) (args : Getattr3Args) :
    Returns Masked (NfsHandlers.nfsproc3Getattr context xid args : VfsM H I J Getattr3Res) := by
  refine returns_fhToId (fun _ => masked_of_nil rfl) fun id => returns_ask fun r hr => ?_
  match r with
  | .error stat => exact returns_ret (masked_of_nil rfl)
  | .ok attr => exact returns_ret (masked_some (hr attr rfl))

theorem masked_append {R R' R'' : Type} [HasFattrs R] [HasFattrs R'] [HasFattrs R''] {r : R}
    {r' : R'} {r'' : R''} (h : HasFattrs.fattrs r = HasFattrs.fattrs r' ++ HasFattrs.fattrs r'')
    (h' : Masked r') (h'' : Masked r'') : Masked r := by
  intro attr hmem
  rw [h] at hmem
  rcases List.mem_append.mp hmem with hmem | hmem
  · exact h' attr hmem
  · exact h'' attr hmem

theorem returns_lookup (context : RPCContext) (xid : UInt32) (args : Lookup3Args) :
    Returns Masked (NfsHandlers.nfsproc3Lookup context xid args : VfsM H I J Lookup3Res) := by
  refine returns_fhToId (fun _ => masked_of_nil rfl) fun dirid => ?_
  refine (returns_getPostOpAttr dirid).bind fun dirAttributes hdir => returns_ask fun r _ => ?_
  match r with
  | .error stat => exact returns_ret hdir
  | .ok fid =>
    refine (returns_getPostOpAttr fid).bind fun objAttributes hobj => returns_ret ?_
    exact masked_append rfl hobj hdir

theorem returns_read (context : RPCContext) (xid : UInt32) (args : Read3Args) :
    Returns Masked (NfsHandlers.nfsproc3Read context xid args : VfsM H I J Read3Res) := by
  refine returns_fhToId (fun _ => masked_of_nil rfl) fun id => ?_
  refine (returns_getPostOpAttr id).bind fun fileAttributes hfile => returns_ask fun r _ => ?_
  match r with
  | .error stat => exact returns_ret hfile
  | .ok (bytes, eof) =>
    show Returns Masked (if bytes.length < 2 ^ 32 then _ else _)
    split_ifs
    · exact returns_ret hfile
    · exact fun _ => trivial

theorem returns_fsinfo (context : RPCContext) (xid : UInt32) (args : Fsinfo3Args) :
    Returns Masked (NfsHandlers.nfsproc3Fsinfo context xid args : VfsM H I J Fsinfo3Res) := by
  refine returns_fhToId (fun _ => masked_of_nil rfl) fun id => returns_ask fun r hr => ?_
  match r with
  | .error stat => exact returns_ret (masked_of_nil rfl)
  | .ok v =>
    have hv : Masked v := hr v rfl
    exact returns_ret hv

theorem returns_access (context : RPCContext) (xid : UInt32) (args : Access3Args) :
    Returns (fun r => Masked r ∧ ∀ v, r = .ok v →
        v.access &&& ~~~(NfsHandlers.access3Read ||| NfsHandlers.access3Lookup) = 0)
      (NfsHandlers.nfsproc3Access context xid args : VfsM H I J Access3Res) := by
  refine returns_fhToId (fun _ => ⟨masked_of_nil rfl, fun v h => by cases h⟩) fun id => ?_
  refine (returns_getPostOpAttr id).bind fun objAttributes hobj => returns_ask fun r hr => ?_
  cases hr
  refine returns_ret ⟨hobj, fun v h => ?_⟩
  cases h
  rw [UInt32.and_assoc, UInt32.and_not_self, UInt32.and_zero]

theorem returns_pathconf (context : RPCContext) (xid : UInt32) (args : Pathconf3Args) :
    Returns Masked (NfsHandlers.nfsproc3Pathconf context xid args : VfsM H I J Pathconf3Res) := by
  refine returns_fhToId (fun _ => masked_of_nil rfl) fun id => ?_
  exact (returns_getPostOpAttr id).bind fun objAttributes hobj => returns_ret hobj

theorem returns_fsstat (context : RPCContext) (xid : UInt32) (args : Fsstat3Args) :
    Returns Masked (NfsHandlers.nfsproc3Fsstat context xid args : VfsM H I J Fsstat3Res) := by
  refine returns_fhToId (fun _ => masked_of_nil rfl) fun id => ?_
  exact (returns_getPostOpAttr id).bind fun objAttributes hobj => returns_ret hobj

theorem returns_readlink (context : RPCContext) (xid : UInt32) (args : Readlink3Args) :
    Returns Masked (NfsHandlers.nfsproc3Readlink context xid args : VfsM H I J Readlink3Res) := by
  refine returns_fhToId (fun _ => masked_of_nil rfl) fun id => ?_
  refine (returns_getPostOpAttr id).bind fun symlinkAttributes hlink => returns_ask fun r _ => ?_
  match r with
  | .error stat => exact returns_ret hlink
  | .ok data => exact returns_ret hlink

theorem returns_readdir (context : RPCContext) (xid : UInt32) (args : Readdir3Args) :
    Returns Masked (NfsHandlers.nfsproc3Readdir context xid args : VfsM H I J Readdir3Res) := by
  refine returns_fhToId (fun _ => masked_of_nil rfl) fun dirid => ?_
  refine (returns_getPostOpAttr dirid).bind fun dirAttributes hdir => ?_
  dsimp only
  split_ifs with hverf hmatch hfits
  · exact returns_ret (masked_of_nil rfl)
  · exact returns_ret (masked_of_nil rfl)
  · exact returns_ret hdir
  rw [checkedSub_of_le (not_lt.mp hfits)]
  refine returns_ask fun r _ => ?_
  match r with
  | .error stat => exact returns_ret hdir
  | .ok iter =>
    have hnext (iter : I) : Returns (fun r => ∀ entry, r.1 = .ok entry → True)
        (Vfs.readdirNext iter : VfsM H I J _) :=
      returns_ask fun _ _ => returns_ret fun _ _ => trivial
    have hfill : ∀ fuel acc, Returns (fun r => ∀ acc eof, r.1 = .ok (acc, eof) → True)
        (NfsHandlers.fill (H := H) (J := J) Vfs.readdirNext BoundedList.tryPush fuel iter acc) :=
      fun fuel acc => returns_fill hnext (fun _ _ _ _ _ _ => trivial) trivial
    refine (hfill _ _).bind fun result _ => returns_ask fun _ _ => ?_
    match result with
    | (.error stat, _) => exact returns_ret hdir
    | (.ok (acc, eof), _) =>
      show Returns Masked (if acc.intoInner.items = [] ∧ eof = false then _ else _)
      split_ifs
      · exact returns_ret hdir
      · exact returns_ret hdir

/-- The attributes of the entries of a page. -/
def MaskedPage (acc : BoundedEntryPlusList) : Prop :=
  ∀ entry ∈ acc.entries.list.items, Masked entry

theorem maskedPage_tryPush {acc acc' : BoundedEntryPlusList} {entry : DirEntryPlus H}
    {converter : FileHandleConverter} (hacc : MaskedPage acc)
    (hentry : ∀ attr, entry.nameAttributes = some attr → ReadOnlyAttr attr)
    (h : acc.tryPush (entry.intoEntry converter) = some acc') : MaskedPage acc' := by
  have hitems := BoundedList.items_tryPush (BoundedEntryPlusList.tryPush_entries h)
  intro e he
  rw [hitems] at he
  rcases List.mem_append.mp he with he | he
  · exact hacc e he
  · rw [List.mem_singleton.mp he]
    obtain ⟨fileid, name, cookie, nameAttributes, nameHandle⟩ := entry
    cases nameAttributes with
    | none => exact masked_of_nil rfl
    | some attr => exact masked_some (hentry attr rfl)

theorem returns_readdirplus (context : RPCContext) (xid : UInt32) (args : Readdirplus3Args) :
    Returns Masked
      (NfsHandlers.nfsproc3Readdirplus context xid args : VfsM H I J Readdirplus3Res) := by
  refine returns_fhToId (fun _ => masked_of_nil rfl) fun dirid => ?_
  refine (returns_getPostOpAttr dirid).bind fun dirAttributes hdir => ?_
  dsimp only
  split_ifs with hfits
  · exact returns_ret hdir
  rw [checkedSub_of_le (not_lt.mp hfits)]
  refine returns_ask fun r _ => ?_
  match r with
  | .error stat => exact returns_ret hdir
  | .ok iter =>
    have hnext (iter : J) : Returns (fun r => ∀ entry, r.1 = .ok entry →
          ∀ attr, entry.nameAttributes = some attr → ReadOnlyAttr attr)
        (Vfs.readdirplusNext iter : VfsM H I J _) :=
      returns_ask fun r hr => returns_ret fun entry h attr hattr => hr entry attr h hattr
    let push (acc : BoundedEntryPlusList) (entry : DirEntryPlus H) :=
      acc.tryPush (entry.intoEntry context.fileHandleConverter)
    have hfill : Returns (fun r => ∀ acc eof, r.1 = .ok (acc, eof) → MaskedPage acc)
        (NfsHandlers.fill (I := I) Vfs.readdirplusNext push (args.maxcount.toNat - 128 + 1) iter
          (.new args.dircount.toNat (args.maxcount.toNat - 128))) :=
      returns_fill hnext (fun _ _ _ hacc hentry h => maskedPage_tryPush hacc hentry h)
        fun _ hmem => by cases hmem
    refine hfill.bind fun result hresult => returns_ask fun _ _ => ?_
    match result with
    | (.error stat, _) => exact returns_ret hdir
    | (.ok (acc, eof), _) =>
      show Returns Masked (if acc.intoInner.items = [] ∧ eof = false then _ else _)
      split_ifs
      · exact returns_ret hdir
      · refine returns_ret fun attr hmem => ?_
        rcases List.mem_append.mp hmem with hmem | hmem
        · exact hdir attr hmem
        · obtain ⟨entry, hentry, hattr⟩ := List.mem_flatMap.mp hmem
          exact hresult acc eof rfl entry hentry attr hattr

omit [FileHandle H] in
theorem Returns.carries [XdrCodec α] {Q : α → Prop} {m : VfsM H I J α} (hm : Returns Q m)
    (message : IncomingRpcMessage) (h : History (ServerCall H I J) ServerCall.Reply) :
    (liftVfs m).Along True ServerGuaranteed (fun _ _ => True)
      (fun _ r => Carries message.xid Q (message.intoSuccessReply r)) h :=
  (hm h).imp (fun _ _ hP => hP) fun _ r _ hr => ⟨r, hr, rfl⟩

theorem nfsProcedure_readOnly {proc : NfsProgram} {p : Procedure H I J}
    (hp : nfsProcedure proc = some p) (context : RPCContext) (message : IncomingRpcMessage)
    (a : p.Args) (h : History (ServerCall H I J) ServerCall.Reply) :
    (p.handler context message.xid a).Along True ServerGuaranteed (fun _ _ => True)
      (fun _ r => ReadOnlyReply message.xid (message.intoSuccessReply r) proc) h := by
  cases proc with
  | nfsproc3Null =>
    cases hp
    have hnull : Returns Masked
        (NfsHandlers.nfsproc3Null context message.xid a : VfsM H I J Void) :=
      returns_ret (masked_of_nil rfl)
    exact hnull.carries message h
  | nfsproc3Getattr =>
    cases hp
    exact (returns_getattr context message.xid a).carries message h
  | nfsproc3Lookup =>
    cases hp
    exact (returns_lookup context message.xid a).carries message h
  | nfsproc3Read =>
    cases hp
    exact (returns_read context message.xid a).carries message h
  | nfsproc3Fsinfo =>
    cases hp
    exact (returns_fsinfo context message.xid a).carries message h
  | nfsproc3Access =>
    cases hp
    exact (returns_access context message.xid a).carries message h
  | nfsproc3Pathconf =>
    cases hp
    exact (returns_pathconf context message.xid a).carries message h
  | nfsproc3Fsstat =>
    cases hp
    exact (returns_fsstat context message.xid a).carries message h
  | nfsproc3Readdir =>
    cases hp
    exact (returns_readdir context message.xid a).carries message h
  | nfsproc3Readdirplus =>
    cases hp
    exact (returns_readdirplus context message.xid a).carries message h
  | nfsproc3Readlink =>
    cases hp
    exact (returns_readlink context message.xid a).carries message h
  | nfsproc3Write | nfsproc3Create | nfsproc3Setattr | nfsproc3Remove | nfsproc3Rmdir
  | nfsproc3Rename | nfsproc3Mkdir | nfsproc3Symlink =>
    cases hp
    exact Returns.carries (returns_readWrite ⟨rfl, masked_of_nil rfl⟩) message h
  | nfsproc3Mknod | nfsproc3Link | nfsproc3Commit => cases hp

end Handlers

/-! ## Runs -/

section Export

variable {H I J : Type} [FileHandle H]

/-- An NFS procedure that ran was answered as a read-only export has to. -/
def ServedReadOnly (message : Bytes) : RPCContext → UInt32 → (p : Procedure H I J) → p.Args →
    History (ServerCall H I J) ServerCall.Reply → Except RpcError HandleResult → Prop :=
  fun _ xid _ _ _ result => ∀ call rest proc, IsCall message xid call rest →
    call.prog = (nfsProgram : Program H I J).prog → enumOfTag call.proc = some proc →
    ReadOnlyReply xid result proc

/-- The numbers of the programs differ. -/
theorem eq_nfsProgram {program : Program H I J} (hmem : program ∈ programs)
    (h : program.prog = (nfsProgram : Program H I J).prog) : program = nfsProgram := by
  simp only [programs, List.mem_cons, List.not_mem_nil, or_false] at hmem
  rcases hmem with rfl | rfl | rfl
  · exact absurd h (show (100000 : UInt32) ≠ 100003 by decide)
  · exact absurd h (show (100005 : UInt32) ≠ 100003 by decide)
  · rfl

theorem procedure_readOnly {context : RPCContext} {message : Bytes} {m : IncomingRpcMessage}
    (hcall : IsCall message m.xid m.body m.takeData) {p : Procedure H I J} (hp : m.body.Names p)
    (a : p.Args) (h : History (ServerCall H I J) ServerCall.Reply) :
    (p.handler context m.xid a).Along True ServerGuaranteed (fun _ _ => True)
      (fun _ r => ∀ t, ServedReadOnly message context m.xid p a t (m.intoSuccessReply r)) h := by
  obtain ⟨program, hmem, hprog, hvers, hproc⟩ := hp
  by_cases hnfs : program.prog = (nfsProgram : Program H I J).prog
  · obtain rfl := eq_nfsProgram hmem hnfs
    obtain ⟨tag, htag, hp⟩ := Option.bind_eq_some_iff.mp hproc
    refine (nfsProcedure_readOnly hp context m a h).imp (fun _ _ hP => hP) ?_
    intro t r _ hr t' call rest proc hcall' _ hproc'
    obtain ⟨-, rfl, -⟩ := hcall.unique hcall'
    rw [htag] at hproc'
    cases hproc'
    exact hr
  · refine Along.of_forall fun _ r t call rest proc hcall' hprog' => ?_
    obtain ⟨-, rfl, -⟩ := hcall.unique hcall'
    exact absurd (hprog.symm.trans hprog') hnfs

theorem message_readOnly (context : RPCContext) (message : Bytes) :
    ((handleRpcMessage context message : ServerM H I J _).interp
      ReadOnlyAdapter.serverAnswer).Meets ServerCall.reads fun result =>
        ∃ h, Answered (H := H) (I := I) (J := J) context message (ServedReadOnly message) h
          result := by
  have hanswered : (handleRpcMessage context message : ServerM H I J _).Along True ServerGuaranteed
      (fun _ _ => True) (Answered context message (ServedReadOnly message)) [] := by
    refine handleRpcMessage_along (affords_unlimited ..) (fun _ => trivial)
      (fun _ _ => trivial) ?_
    intro m p a auth lock hcall _ _ hp _
    exact (procedure_readOnly hcall hp a _).imp (fun _ _ hP => hP) fun t r _ hr t' _ => hr t'
  exact (hanswered.imp (fun _ _ _ => trivial) fun _ _ _ h => ⟨_, h⟩).interp
    fun c _ => serverAnswer_guaranteed c

/-- Whatever the requests and whatever the file system behind the adapter answers: no changing
operation reaches it, and every request is answered as a read-only export has to. -/
theorem read_only_export (requests : List (RPCContext × Bytes)) :
    (serveReadOnly requests : ServerM H I J _).Meets ServerCall.reads fun results =>
      List.Forall₂ (fun request result => ∃ h, Answered (H := H) (I := I) (J := J) request.1
        request.2 (ServedReadOnly request.2) h result) requests results := by
  induction requests with
  | nil => exact .nil
  | cons request requests ih =>
    refine meets_bind.mpr ((message_readOnly request.1 request.2).mono fun result hresult => ?_)
    exact meets_bind.mpr (ih.mono fun results hresults => .cons hresult hresults)

end Export

end Nfs3
