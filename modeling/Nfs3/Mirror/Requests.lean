import Nfs3.Lib.Interleaving
import Nfs3.Mirror.Machine

/-!
# Requests that are served at the same time

Every request runs in a task of its own and gives way at its await points, so the steps of
requests under way mix. The server here is the pool of these tasks over one mirror and its host,
with the cleaner of the iterator cache running in between.

All requests but the listings leave the iterator cache alone.
-/
namespace Nfs3

open ByteOrder (Bytes)
open Interaction (Prog Pool Turn)

/-! ## Requests that do not list -/

/-- The calls that concern an iterator. -/
def VfsCall.lists {H I J : Type} : VfsCall H I J → Bool
  | .readdir .. | .readdirNext _ | .readdirDrop _ | .readdirplus .. | .readdirplusNext _
  | .readdirplusDrop _ => true
  | _ => false

namespace NfsHandlers

variable {H I J α β ε : Type}

/-- No iterator is opened, read or dropped. -/
def Plain (m : VfsM H I J α) : Prop := m.Meets (·.lists = false) fun _ => True

theorem plain_ret (a : α) : Plain (.ret a : VfsM H I J α) := trivial

theorem plain_ask {c : VfsCall H I J} (hc : c.lists = false) {f : c.Reply → VfsM H I J α}
    (hf : ∀ r, Plain (f r)) : Plain (.ask c f) :=
  ⟨hc, hf⟩

theorem Plain.bind {m : VfsM H I J α} (hm : Plain m) {f : α → VfsM H I J β}
    (hf : ∀ a, Plain (f a)) : Plain (m.bind f) :=
  Prog.meets_bind.mpr (hm.mono fun a _ => hf a)

theorem plain_getWccAttr (id : H) : Plain (getWccAttr id : VfsM H I J _) :=
  plain_ask rfl fun _ => plain_ret _

theorem plain_getPostOpAttr (id : H) : Plain (getPostOpAttr id : VfsM H I J _) :=
  plain_ask rfl fun _ => plain_ret _

theorem plain_readWrite {fail : ε} {body : VfsM H I J (Nfs3Result α ε)} (h : Plain body) :
    Plain (readWrite fail body) := by
  refine plain_ask rfl fun r => ?_
  cases r with
  | readOnly => exact plain_ret _
  | readWrite => exact h

/-- The start of the handlers that change a directory or an object. -/
theorem plain_wcc {id : H} {f : Except Nfsstat3 WccAttr → VfsM H I J (Nfs3Result α ε)} {fail : ε}
    (herror : ∀ stat, f (.error stat) = pure (.err stat fail)) (hok : ∀ v, Plain (f (.ok v))) :
    Plain ((getWccAttr id).bind f) := by
  refine (plain_getWccAttr id).bind fun r => ?_
  cases r with
  | error stat =>
    rw [herror]
    exact plain_ret _
  | ok v => exact hok v

theorem plain_createObject (dirid : H) (name : Filename3) (how : Createhow3) :
    Plain (createObject dirid name how : VfsM H I J _) := by
  cases how with
  | exclusive verf => exact plain_ask rfl fun _ => plain_ret _
  | unchecked | guarded =>
    refine plain_ask rfl fun r => ?_
    cases r <;> exact plain_ret _

theorem plain_alreadyExists (dirid : H) (name : Filename3) (how : Createhow3) :
    Plain (alreadyExists dirid name how : VfsM H I J _) := by
  cases how with
  | exclusive verf => exact plain_ret _
  | unchecked attr => exact plain_ret _
  | guarded attr =>
    refine plain_ask rfl fun r => ?_
    cases r <;> exact plain_ret _

variable [FileHandle H]

theorem plain_fhToId {context : RPCContext} {fh : NfsFh3} {fail : ε}
    {body : H → VfsM H I J (Nfs3Result α ε)} (h : ∀ id, Plain (body id)) :
    Plain (fhToId context fh fail body) := by
  unfold fhToId
  split
  · exact plain_ret _
  · exact h _

variable (context : RPCContext) (xid : UInt32)

theorem plain_getattr (args : Getattr3Args) :
    Plain (nfsproc3Getattr context xid args : VfsM H I J _) := by
  refine plain_fhToId fun id => plain_ask rfl fun r => ?_
  cases r <;> exact plain_ret _

theorem plain_lookup (args : Lookup3Args) :
    Plain (nfsproc3Lookup context xid args : VfsM H I J _) := by
  refine plain_fhToId fun dirid => (plain_getPostOpAttr dirid).bind fun _ => ?_
  refine plain_ask rfl fun r => ?_
  cases r with
  | error stat => exact plain_ret _
  | ok fid => exact (plain_getPostOpAttr fid).bind fun _ => plain_ret _

theorem plain_read (args : Read3Args) : Plain (nfsproc3Read context xid args : VfsM H I J _) := by
  refine plain_fhToId fun id => (plain_getPostOpAttr id).bind fun _ => plain_ask rfl fun r => ?_
  cases r with
  | error stat => exact plain_ret _
  | ok bytes =>
    change Plain (if bytes.1.length < 2 ^ 32 then pure _ else .halt)
    split_ifs <;> trivial

theorem plain_fsinfo (args : Fsinfo3Args) :
    Plain (nfsproc3Fsinfo context xid args : VfsM H I J _) := by
  refine plain_fhToId fun id => plain_ask rfl fun r => ?_
  cases r <;> exact plain_ret _

theorem plain_access (args : Access3Args) :
    Plain (nfsproc3Access context xid args : VfsM H I J _) := by
  refine plain_fhToId fun id => (plain_getPostOpAttr id).bind fun _ => plain_ask rfl fun r => ?_
  cases r <;> exact plain_ret _

theorem plain_pathconf (args : Pathconf3Args) :
    Plain (nfsproc3Pathconf context xid args : VfsM H I J _) :=
  plain_fhToId fun id => (plain_getPostOpAttr id).bind fun _ => plain_ret _

theorem plain_fsstat (args : Fsstat3Args) :
    Plain (nfsproc3Fsstat context xid args : VfsM H I J _) :=
  plain_fhToId fun id => (plain_getPostOpAttr id).bind fun _ => plain_ret _

theorem plain_readlink (args : Readlink3Args) :
    Plain (nfsproc3Readlink context xid args : VfsM H I J _) := by
  refine plain_fhToId fun id => (plain_getPostOpAttr id).bind fun _ => plain_ask rfl fun r => ?_
  cases r <;> exact plain_ret _

theorem plain_write (args : Write3Args) :
    Plain (nfsproc3Write context xid args : VfsM H I J _) := by
  refine plain_readWrite ?_
  split_ifs
  · exact plain_ret _
  refine plain_fhToId fun id => (plain_getWccAttr id).bind fun _ => plain_ask rfl fun r => ?_
  cases r <;> exact plain_ret _

theorem plain_create (args : Create3Args) :
    Plain (nfsproc3Create context xid args : VfsM H I J _) := by
  refine plain_readWrite (plain_fhToId fun dirid => plain_wcc (fun _ => rfl) fun v => ?_)
  refine (plain_alreadyExists dirid _ _).bind fun found => ?_
  split_ifs
  · exact (plain_getPostOpAttr dirid).bind fun _ => plain_ret _
  refine (plain_createObject dirid _ _).bind fun created => ?_
  refine (plain_getPostOpAttr dirid).bind fun after => ?_
  split <;> exact plain_ret _

theorem plain_setattr (args : Setattr3Args) :
    Plain (nfsproc3Setattr context xid args : VfsM H I J _) := by
  refine plain_readWrite (plain_fhToId fun id => plain_wcc (fun _ => rfl) fun v => ?_)
  dsimp only
  split
  · refine plain_ask rfl fun r => ?_
    cases r <;> exact plain_ret _
  split_ifs
  · exact plain_ret _
  · refine plain_ask rfl fun r => ?_
    cases r <;> exact plain_ret _

theorem plain_remove (args : Remove3Args) :
    Plain (nfsproc3Remove context xid args : VfsM H I J _) := by
  refine plain_readWrite (plain_fhToId fun dirid => plain_wcc (fun _ => rfl) fun v => ?_)
  refine plain_ask rfl fun r => ?_
  cases r <;> exact (plain_getPostOpAttr dirid).bind fun _ => plain_ret _

theorem plain_rename (args : Rename3Args) :
    Plain (nfsproc3Rename context xid args : VfsM H I J _) := by
  refine plain_readWrite (plain_fhToId fun fromDirid => plain_fhToId fun toDirid => ?_)
  refine plain_wcc (fun _ => rfl) fun preFrom => plain_wcc (fun _ => rfl) fun preTo => ?_
  refine plain_ask rfl fun r => ?_
  refine (plain_getPostOpAttr fromDirid).bind fun _ => ?_
  refine (plain_getPostOpAttr toDirid).bind fun _ => ?_
  cases r <;> exact plain_ret _

theorem plain_mkdir (args : Mkdir3Args) :
    Plain (nfsproc3Mkdir context xid args : VfsM H I J _) := by
  refine plain_readWrite (plain_fhToId fun dirid => plain_wcc (fun _ => rfl) fun v => ?_)
  refine plain_ask rfl fun r => (plain_getPostOpAttr dirid).bind fun _ => ?_
  cases r <;> exact plain_ret _

theorem plain_symlink (args : Symlink3Args) :
    Plain (nfsproc3Symlink context xid args : VfsM H I J _) := by
  refine plain_readWrite (plain_fhToId fun dirid => plain_wcc (fun _ => rfl) fun v => ?_)
  refine plain_ask rfl fun r => ?_
  cases r <;> exact (plain_getPostOpAttr dirid).bind fun _ => plain_ret _

end NfsHandlers

namespace Mirror

/-! ## Operations that do not list -/

section Asks

variable {A : FsCall → Prop} {α β ε ε' : Type}

/-- All questions of the operation are of a kind. -/
def Asks (A : FsCall → Prop) (m : FsProg α) : Prop := m.Meets A fun _ => True

theorem asks_ret (a : α) : Asks A (.ret a) := trivial

theorem asks_call {c : HostCall} (hc : A (.host c)) : Asks A (call c) := ⟨hc, fun _ => trivial⟩

theorem Asks.bind {m : FsProg α} (hm : Asks A m) {f : α → FsProg β} (hf : ∀ a, Asks A (f a)) :
    Asks A (m.bind f) :=
  Prog.meets_bind.mpr (hm.mono fun a _ => hf a)

theorem Asks.andThen {m : ExceptT ε FsProg α} (hm : Asks A m.run)
    {f : α → ExceptT ε FsProg β} (hf : ∀ a, Asks A (f a).run) : Asks A (m >>= f).run := by
  refine Asks.bind hm fun r => ?_
  cases r with
  | ok a => exact hf a
  | error e => exact asks_ret _

theorem Asks.mapErr {f : ε → ε'} {m : ExceptT ε FsProg α} (hm : Asks A m.run) :
    Asks A (mapErr f m).run := by
  refine Asks.bind hm fun r => ?_
  cases r <;> exact asks_ret _

theorem Asks.attempt {m : ExceptT ε FsProg α} (hm : Asks A m.run) :
    Asks A (attempt m : ExceptT ε' FsProg _).run :=
  Asks.bind hm fun _ => asks_ret _

theorem Asks.ignore {m : ExceptT ε FsProg α} (hm : Asks A m.run) :
    Asks A (ignore m : ExceptT ε' FsProg Unit).run :=
  hm.attempt.andThen fun _ => asks_ret _

end Asks

/-- The calls that set the attributes of a path. -/
def HostCall.Sets (path : PathBuf) : HostCall → Prop
  | .setFileAtime p _ | .setFileMtime p _ | .setPermissions p _ | .openReadWrite p => p = path
  | .setLen .. => True
  | _ => False

theorem asks_pathSetattr {A : FsCall → Prop} (path : PathBuf) (setattr : Sattr3)
    (hA : ∀ c : HostCall, c.Sets path → A (.host c)) : Asks A (pathSetattr path setattr).run := by
  have hcall : ∀ c : HostCall, c.Sets path → Asks A (call c) := fun c hc => asks_call (hA c hc)
  have hatime : Asks A (setAtime path setattr.atime).run := by
    cases setattr.atime with
    | dontChange => exact asks_ret _
    | setToServerTime => exact Asks.ignore (hcall (.setFileAtime path none) rfl)
    | setToClientTime time => exact Asks.ignore (hcall (.setFileAtime path (some time)) rfl)
  have hmtime : Asks A (setMtime path setattr.mtime).run := by
    cases setattr.mtime with
    | dontChange => exact asks_ret _
    | setToServerTime => exact Asks.ignore (hcall (.setFileMtime path none) rfl)
    | setToClientTime time => exact Asks.ignore (hcall (.setFileMtime path (some time)) rfl)
  have hmode : Asks A (setMode path setattr.mode).run := by
    cases setattr.mode with
    | none => exact asks_ret _
    | some mode => exact Asks.ignore (hcall (.setPermissions path (modeUnmask mode)) rfl)
  have hsize : Asks A (setSize path setattr.size).run := by
    cases setattr.size with
    | none => exact asks_ret _
    | some size =>
      refine Asks.andThen (Asks.mapErr (hcall (.openReadWrite path) rfl)) fun file => ?_
      exact Asks.mapErr (hcall (.setLen file size) trivial)
  exact hatime.andThen fun _ => hmtime.andThen fun _ => hmode.andThen fun _ => hsize

/-- The steps that concern an iterator. -/
def FsCall.lists : FsCall → Bool
  | .getOrCreateIterator .. | .next _ | .nextPlus _ | .drop .. => true
  | _ => false

namespace Fs

variable {A : FsCall → Prop} (hA : ∀ c : FsCall, c.lists = false → A c) (root : PathBuf)
include hA

theorem asks_path (id : FileHandleU64) : Asks A (path root id).run := by
  have hask : Asks A (.ask (.handleToPath id) .ret) := ⟨hA _ rfl, fun _ => trivial⟩
  exact Asks.andThen hask fun _ => asks_ret _

theorem asks_lookupById (parentId : FileHandleU64) (name : OsString) (checkPath : Bool) :
    Asks A (lookupById parentId name checkPath).run :=
  ⟨hA _ rfl, fun _ => trivial⟩

theorem asks_host (c : HostCall) : Asks A (call c) := asks_call (hA _ rfl)

theorem asks_getattr (id : FileHandleU64) : Asks A (getattr root id).run := by
  refine (asks_path hA root id).andThen fun p => ?_
  exact Asks.andThen (Asks.mapErr (asks_host hA (.symlinkMetadata p))) fun _ => asks_ret _

theorem asks_setattr (id : FileHandleU64) (attr : Sattr3) : Asks A (setattr root id attr).run :=
  (asks_path hA root id).andThen fun p =>
    (asks_pathSetattr p attr fun _ _ => hA _ rfl).andThen fun _ => asks_getattr hA root id

theorem asks_read (id : FileHandleU64) (offset : UInt64) (count : UInt32) :
    Asks A (read root id offset count).run := by
  refine (asks_path hA root id).andThen fun p => Asks.mapErr ?_
  refine Asks.andThen (asks_host hA (.openRead p)) fun f => ?_
  refine Asks.andThen (asks_host hA (.fileLen f)) fun len => ?_
  split_ifs
  · exact asks_ret _
  · exact Asks.andThen (asks_host hA (.readAt f offset _)) fun _ => asks_ret _

theorem asks_readlink (id : FileHandleU64) : Asks A (readlink root id).run := by
  refine (asks_path hA root id).andThen fun p => ?_
  exact Asks.andThen (Asks.mapErr (asks_host hA (.readLink p))) fun _ => asks_ret _

theorem asks_write (id : FileHandleU64) (offset : UInt64) (data : Bytes) :
    Asks A (write root id offset data).run := by
  refine (asks_path hA root id).andThen fun p => ?_
  refine Asks.andThen (Asks.mapErr (asks_host hA (.symlinkMetadata p))) fun metadata => ?_
  split_ifs
  · refine Asks.andThen (Asks.mapErr ?_) fun _ => asks_getattr hA root id
    refine Asks.andThen (asks_host hA (.openWrite p)) fun file => ?_
    exact asks_host hA (.writeAt file offset data)
  · exact asks_ret _

theorem asks_create (dirid : FileHandleU64) (filename : Filename3) (attr : Sattr3) :
    Asks A (create root dirid filename attr).run := by
  refine (asks_path hA root dirid).andThen fun p => ?_
  refine Asks.andThen (Asks.mapErr ?_) fun _ => ?_
  · refine Asks.andThen (asks_host hA (.createFile _)) fun file => ?_
    cases attr.size with
    | none => exact asks_ret _
    | some size => exact asks_host hA (.setLen file size)
  refine (asks_lookupById hA dirid _ true).andThen fun fileId => ?_
  exact (asks_setattr hA root fileId attr).andThen fun _ => asks_ret _

theorem asks_createExclusive (dirid : FileHandleU64) (filename : Filename3) :
    Asks A (createExclusive root dirid filename).run := by
  refine (asks_path hA root dirid).andThen fun p => ?_
  exact Asks.andThen (Asks.mapErr (asks_host hA (.createNew _))) fun _ =>
    asks_lookupById hA dirid _ true

theorem asks_mkdir (dirid : FileHandleU64) (dirname : Filename3) :
    Asks A (mkdir root dirid dirname).run := by
  refine (asks_path hA root dirid).andThen fun p => ?_
  refine Asks.andThen (Asks.mapErr (asks_host hA (.createDir _))) fun _ => ?_
  refine (asks_lookupById hA dirid _ true).andThen fun newDirId => ?_
  exact (asks_getattr hA root newDirId).andThen fun _ => asks_ret _

theorem asks_remove (dirid : FileHandleU64) (filename : Filename3) :
    Asks A (remove root dirid filename).run := by
  refine (asks_path hA root dirid).andThen fun p => Asks.mapErr ?_
  refine Asks.andThen (asks_host hA (.symlinkMetadata _)) fun metadata => ?_
  split_ifs
  · exact asks_host hA (.removeDir _)
  · exact asks_host hA (.removeFile _)

theorem asks_checkTarget (fromMetadata : Metadata) (toPath : PathBuf)
    (toMetadata : IoResult Metadata) : Asks A (checkTarget fromMetadata toPath toMetadata).run := by
  cases toMetadata with
  | error kind => exact asks_ret _
  | ok toMetadata =>
    unfold checkTarget
    dsimp only
    split_ifs
    · exact asks_ret _
    · refine Asks.andThen (Asks.mapErr (asks_host hA (.readDir toPath))) fun readDir => ?_
      split <;> exact asks_ret _
    · exact asks_ret _

theorem asks_rename (fromDirid : FileHandleU64) (fromFilename : Filename3)
    (toDirid : FileHandleU64) (toFilename : Filename3) :
    Asks A (rename root fromDirid fromFilename toDirid toFilename).run := by
  unfold rename
  dsimp only
  split_ifs
  · exact asks_ret _
  · exact (asks_path hA root fromDirid).andThen fun _ =>
      (asks_path hA root toDirid).andThen fun _ => asks_ret _
  · refine (asks_path hA root fromDirid).andThen fun p => ?_
    refine (asks_path hA root toDirid).andThen fun p' => ?_
    refine Asks.andThen (Asks.mapErr (asks_host hA (.symlinkMetadata _))) fun fromMetadata => ?_
    refine Asks.andThen (Asks.attempt (asks_host hA (.symlinkMetadata _))) fun toMetadata => ?_
    refine (asks_checkTarget hA fromMetadata _ toMetadata).andThen fun _ => ?_
    refine Asks.andThen (Asks.mapErr (asks_host hA (.rename _ _))) fun _ => ?_
    exact (asks_lookupById hA fromDirid _ false).ignore.andThen fun _ =>
      (asks_lookupById hA toDirid _ false).ignore

theorem asks_symlink (dirid : FileHandleU64) (linkname : Filename3) (target : Nfspath3)
    (attr : Sattr3) : Asks A (symlink root dirid linkname target attr).run := by
  refine (asks_path hA root dirid).andThen fun p => ?_
  refine Asks.andThen (Asks.mapErr (asks_host hA (.symlink _ _))) fun _ => ?_
  refine (asks_lookupById hA dirid _ true).andThen fun linkId => ?_
  have hset : Asks A (linkSetattr root linkId attr).run := by
    unfold linkSetattr
    split_ifs
    · exact (asks_setattr hA root linkId attr).ignore
    · exact asks_ret _
  exact hset.andThen fun _ => (asks_getattr hA root linkId).andThen fun _ => asks_ret _

theorem asks_lookupComponents (dirid : FileHandleU64) (components : List String) :
    Asks A (lookupComponents (fun dirid name => lookup dirid name) dirid components) := by
  induction components generalizing dirid with
  | nil => exact asks_ret _
  | cons component components ih =>
    unfold lookupComponents
    split_ifs
    · exact ih dirid
    · refine Asks.bind (asks_lookupById hA dirid _ true) fun r => ?_
      cases r with
      | error stat => exact asks_ret _
      | ok fid => exact ih fid

/-- A call that does not concern an iterator asks for nothing that does. -/
theorem asks_serve (now : Instant)
    {c : VfsCall FileHandleU64 MirrorFsIterator MirrorFsIterator} (hc : c.lists = false) :
    Asks A (serve root now c) := by
  cases c with
  | readdir | readdirNext | readdirDrop | readdirplus | readdirplusNext | readdirplusDrop =>
    cases hc
  | rootDir => exact asks_ret _
  | capabilities => exact asks_ret _
  | lookup dirid filename => exact asks_lookupById hA dirid _ true
  | lookupByPath path => exact asks_lookupComponents hA _ _
  | getattr id => exact asks_getattr hA root id
  | read id offset count => exact asks_read hA root id offset count
  | readlink id => exact asks_readlink hA root id
  | fsinfo id => exact Asks.bind (asks_getattr hA root id) fun _ => asks_ret _
  | setattr id attr => exact asks_setattr hA root id attr
  | write id offset data => exact asks_write hA root id offset data
  | create dirid filename attr => exact asks_create hA root dirid filename attr
  | createExclusive dirid filename _ => exact asks_createExclusive hA root dirid filename
  | mkdir dirid dirname => exact asks_mkdir hA root dirid dirname
  | remove dirid filename => exact asks_remove hA root dirid filename
  | rename => exact asks_rename hA root _ _ _ _
  | symlink => exact asks_symlink hA root _ _ _ _

end Fs

/-! ## The server -/

/-- The replies, by procedure. -/
inductive Reply
  | getattr (res : Getattr3Res)
  | setattr (res : Setattr3Res)
  | lookup (res : Lookup3Res)
  | access (res : Access3Res)
  | readlink (res : Readlink3Res)
  | read (res : Read3Res)
  | write (res : Write3Res)
  | create (res : Create3Res)
  | mkdir (res : Mkdir3Res)
  | symlink (res : Symlink3Res)
  | remove (res : Remove3Res)
  | rename (res : Rename3Res)
  | readdir (res : Readdir3Res)
  | readdirplus (res : Readdirplus3Res)
  | fsstat (res : Fsstat3Res)
  | fsinfo (res : Fsinfo3Res)
  | pathconf (res : Pathconf3Res)

/-- The handler of a request, up to its reply. -/
def Incoming.respond (i : Incoming) : VfsM FileHandleU64 MirrorFsIterator MirrorFsIterator Reply :=
  match i.request with
  | .getattr args => Reply.getattr <$> NfsHandlers.nfsproc3Getattr i.context i.xid args
  | .setattr args => Reply.setattr <$> NfsHandlers.nfsproc3Setattr i.context i.xid args
  | .lookup args => Reply.lookup <$> NfsHandlers.nfsproc3Lookup i.context i.xid args
  | .access args => Reply.access <$> NfsHandlers.nfsproc3Access i.context i.xid args
  | .readlink args => Reply.readlink <$> NfsHandlers.nfsproc3Readlink i.context i.xid args
  | .read args => Reply.read <$> NfsHandlers.nfsproc3Read i.context i.xid args
  | .write args => Reply.write <$> NfsHandlers.nfsproc3Write i.context i.xid args
  | .create args => Reply.create <$> NfsHandlers.nfsproc3Create i.context i.xid args
  | .mkdir args => Reply.mkdir <$> NfsHandlers.nfsproc3Mkdir i.context i.xid args
  | .symlink args => Reply.symlink <$> NfsHandlers.nfsproc3Symlink i.context i.xid args
  | .remove args => Reply.remove <$> NfsHandlers.nfsproc3Remove i.context i.xid args
  | .rename args => Reply.rename <$> NfsHandlers.nfsproc3Rename i.context i.xid args
  | .readdir args => Reply.readdir <$> NfsHandlers.nfsproc3Readdir i.context i.xid args
  | .readdirplus args =>
    Reply.readdirplus <$> NfsHandlers.nfsproc3Readdirplus i.context i.xid args
  | .fsstat args => Reply.fsstat <$> NfsHandlers.nfsproc3Fsstat i.context i.xid args
  | .fsinfo args => Reply.fsinfo <$> NfsHandlers.nfsproc3Fsinfo i.context i.xid args
  | .pathconf args => Reply.pathconf <$> NfsHandlers.nfsproc3Pathconf i.context i.xid args

open NfsHandlers in
theorem Incoming.plain_respond {i : Incoming} (hreaddir : ∀ args, i.request ≠ .readdir args)
    (hreaddirplus : ∀ args, i.request ≠ .readdirplus args) : Plain i.respond := by
  unfold respond
  cases hi : i.request with
  | readdir args => exact absurd hi (hreaddir args)
  | readdirplus args => exact absurd hi (hreaddirplus args)
  | getattr args => exact (plain_getattr _ _ args).bind fun _ => plain_ret _
  | setattr args => exact (plain_setattr _ _ args).bind fun _ => plain_ret _
  | lookup args => exact (plain_lookup _ _ args).bind fun _ => plain_ret _
  | access args => exact (plain_access _ _ args).bind fun _ => plain_ret _
  | readlink args => exact (plain_readlink _ _ args).bind fun _ => plain_ret _
  | read args => exact (plain_read _ _ args).bind fun _ => plain_ret _
  | write args => exact (plain_write _ _ args).bind fun _ => plain_ret _
  | create args => exact (plain_create _ _ args).bind fun _ => plain_ret _
  | mkdir args => exact (plain_mkdir _ _ args).bind fun _ => plain_ret _
  | symlink args => exact (plain_symlink _ _ args).bind fun _ => plain_ret _
  | remove args => exact (plain_remove _ _ args).bind fun _ => plain_ret _
  | rename args => exact (plain_rename _ _ args).bind fun _ => plain_ret _
  | fsstat args => exact (plain_fsstat _ _ args).bind fun _ => plain_ret _
  | fsinfo args => exact (plain_fsinfo _ _ args).bind fun _ => plain_ret _
  | pathconf args => exact (plain_pathconf _ _ args).bind fun _ => plain_ret _

/-- The task of a request. If it has an iterator to drop, it does so at the time of the request. -/
def Incoming.task (root : PathBuf) (i : Incoming) : FsProg Reply :=
  i.respond.interp (Fs.serve root i.now)

abbrev Server (T S W : Type) [DecidableEq S] :=
  Pool FsCall FsCall.Reply Incoming Reply (Machine T S W)

namespace Server

variable {T S W : Type} [SymbolTable T S] [DecidableEq S]

def new (root : PathBuf) (retentionPeriod : ℕ) (maxCachedPerDir : UInt16) (w : W) :
    Server T S W where
  shared := ⟨.new root retentionPeriod maxCachedPerDir, w⟩
  tasks := []

/-- The cleaner of the iterator cache. -/
def clean (s : Machine T S W) (now : Instant) : Machine T S W :=
  { s with fs := { s.fs with iteratorCache := s.fs.iteratorCache.cleanup now } }

def turn (host : HostFs W) (root : PathBuf) :
    Server T S W → Turn Incoming Instant → Option (Server T S W) :=
  Pool.turn (Incoming.task root) (Machine.exec host) clean

end Server

end Mirror

end Nfs3
