import Nfs3.Types.NfsData

/-!
# Arguments and results of the NFS procedures
-/
namespace Nfs3

/-! ## Arguments -/

structure Access3Args where
  object : NfsFh3
  access : UInt32

instance : XdrStruct Access3Args (NfsFh3 × UInt32) :=
  ⟨⟨fun v => (v.object, v.access), fun ⟨a, b⟩ => ⟨a, b⟩, fun _ => rfl, fun _ => rfl⟩⟩

structure Commit3Args where
  file : NfsFh3
  offset : Offset3
  count : Count3

instance : XdrStruct Commit3Args (NfsFh3 × Offset3 × Count3) :=
  ⟨⟨fun v => (v.file, v.offset, v.count), fun ⟨a, b, c⟩ => ⟨a, b, c⟩, fun _ => rfl, fun _ => rfl⟩⟩

structure Create3Args where
  where_ : Diropargs3
  how : Createhow3

instance : XdrStruct Create3Args (Diropargs3 × Createhow3) :=
  ⟨⟨fun v => (v.where_, v.how), fun ⟨a, b⟩ => ⟨a, b⟩, fun _ => rfl, fun _ => rfl⟩⟩

structure Fsinfo3Args where
  fsroot : NfsFh3

instance : XdrStruct Fsinfo3Args NfsFh3 :=
  ⟨⟨fun v => v.fsroot, fun a => ⟨a⟩, fun _ => rfl, fun _ => rfl⟩⟩

structure Fsstat3Args where
  fsroot : NfsFh3

instance : XdrStruct Fsstat3Args NfsFh3 :=
  ⟨⟨fun v => v.fsroot, fun a => ⟨a⟩, fun _ => rfl, fun _ => rfl⟩⟩

structure Getattr3Args where
  object : NfsFh3

instance : XdrStruct Getattr3Args NfsFh3 :=
  ⟨⟨fun v => v.object, fun a => ⟨a⟩, fun _ => rfl, fun _ => rfl⟩⟩

structure Link3Args where
  file : NfsFh3
  link : Diropargs3

instance : XdrStruct Link3Args (NfsFh3 × Diropargs3) :=
  ⟨⟨fun v => (v.file, v.link), fun ⟨a, b⟩ => ⟨a, b⟩, fun _ => rfl, fun _ => rfl⟩⟩

structure Lookup3Args where
  what : Diropargs3

instance : XdrStruct Lookup3Args Diropargs3 :=
  ⟨⟨fun v => v.what, fun a => ⟨a⟩, fun _ => rfl, fun _ => rfl⟩⟩

structure Mkdir3Args where
  where_ : Diropargs3
  attributes : Sattr3

instance : XdrStruct Mkdir3Args (Diropargs3 × Sattr3) :=
  ⟨⟨fun v => (v.where_, v.attributes), fun ⟨a, b⟩ => ⟨a, b⟩, fun _ => rfl, fun _ => rfl⟩⟩

structure Mknod3Args where
  where_ : Diropargs3
  what : Mknoddata3

instance : XdrStruct Mknod3Args (Diropargs3 × Mknoddata3) :=
  ⟨⟨fun v => (v.where_, v.what), fun ⟨a, b⟩ => ⟨a, b⟩, fun _ => rfl, fun _ => rfl⟩⟩

structure Pathconf3Args where
  object : NfsFh3

instance : XdrStruct Pathconf3Args NfsFh3 :=
  ⟨⟨fun v => v.object, fun a => ⟨a⟩, fun _ => rfl, fun _ => rfl⟩⟩

structure Read3Args where
  file : NfsFh3
  offset : Offset3
  count : Count3

instance : XdrStruct Read3Args (NfsFh3 × Offset3 × Count3) :=
  ⟨⟨fun v => (v.file, v.offset, v.count), fun ⟨a, b, c⟩ => ⟨a, b, c⟩, fun _ => rfl, fun _ => rfl⟩⟩

structure Readdir3Args where
  dir : NfsFh3
  cookie : Cookie3
  cookieverf : Cookieverf3
  count : Count3

instance : XdrStruct Readdir3Args (NfsFh3 × Cookie3 × Cookieverf3 × Count3) :=
  ⟨⟨fun v => (v.dir, v.cookie, v.cookieverf, v.count),
    fun ⟨a, b, c, d⟩ => ⟨a, b, c, d⟩, fun _ => rfl, fun _ => rfl⟩⟩

structure Readdirplus3Args where
  dir : NfsFh3
  cookie : Cookie3
  cookieverf : Cookieverf3
  dircount : Count3
  maxcount : Count3

instance : XdrStruct Readdirplus3Args (NfsFh3 × Cookie3 × Cookieverf3 × Count3 × Count3) :=
  ⟨⟨fun v => (v.dir, v.cookie, v.cookieverf, v.dircount, v.maxcount),
    fun ⟨a, b, c, d, e⟩ => ⟨a, b, c, d, e⟩, fun _ => rfl, fun _ => rfl⟩⟩

structure Readlink3Args where
  symlink : NfsFh3

instance : XdrStruct Readlink3Args NfsFh3 :=
  ⟨⟨fun v => v.symlink, fun a => ⟨a⟩, fun _ => rfl, fun _ => rfl⟩⟩

structure Remove3Args where
  object : Diropargs3

instance : XdrStruct Remove3Args Diropargs3 :=
  ⟨⟨fun v => v.object, fun a => ⟨a⟩, fun _ => rfl, fun _ => rfl⟩⟩

structure Rename3Args where
  from_ : Diropargs3
  to_ : Diropargs3

instance : XdrStruct Rename3Args (Diropargs3 × Diropargs3) :=
  ⟨⟨fun v => (v.from_, v.to_), fun ⟨a, b⟩ => ⟨a, b⟩, fun _ => rfl, fun _ => rfl⟩⟩

structure Rmdir3Args where
  object : Diropargs3

instance : XdrStruct Rmdir3Args Diropargs3 :=
  ⟨⟨fun v => v.object, fun a => ⟨a⟩, fun _ => rfl, fun _ => rfl⟩⟩

structure Setattr3Args where
  object : NfsFh3
  newAttributes : Sattr3
  guard : Sattrguard3

instance : XdrStruct Setattr3Args (NfsFh3 × Sattr3 × Sattrguard3) :=
  ⟨⟨fun v => (v.object, v.newAttributes, v.guard),
    fun ⟨a, b, c⟩ => ⟨a, b, c⟩, fun _ => rfl, fun _ => rfl⟩⟩

structure Symlink3Args where
  where_ : Diropargs3
  symlink : Symlinkdata3

instance : XdrStruct Symlink3Args (Diropargs3 × Symlinkdata3) :=
  ⟨⟨fun v => (v.where_, v.symlink), fun ⟨a, b⟩ => ⟨a, b⟩, fun _ => rfl, fun _ => rfl⟩⟩

structure Write3Args where
  file : NfsFh3
  offset : Offset3
  count : Count3
  stable : StableHow
  data : Opaque

instance : XdrStruct Write3Args (NfsFh3 × Offset3 × Count3 × StableHow × Opaque) :=
  ⟨⟨fun v => (v.file, v.offset, v.count, v.stable, v.data),
    fun ⟨a, b, c, d, e⟩ => ⟨a, b, c, d, e⟩, fun _ => rfl, fun _ => rfl⟩⟩

/-! ## Results -/

structure Access3Resfail where
  objAttributes : PostOpAttr

instance : XdrStruct Access3Resfail PostOpAttr :=
  ⟨⟨fun v => v.objAttributes, fun a => ⟨a⟩, fun _ => rfl, fun _ => rfl⟩⟩

structure Access3Resok where
  objAttributes : PostOpAttr
  access : UInt32

instance : XdrStruct Access3Resok (PostOpAttr × UInt32) :=
  ⟨⟨fun v => (v.objAttributes, v.access), fun ⟨a, b⟩ => ⟨a, b⟩, fun _ => rfl, fun _ => rfl⟩⟩

structure Commit3Resfail where
  fileWcc : WccData

instance : XdrStruct Commit3Resfail WccData :=
  ⟨⟨fun v => v.fileWcc, fun a => ⟨a⟩, fun _ => rfl, fun _ => rfl⟩⟩

structure Commit3Resok where
  fileWcc : WccData
  verf : Writeverf3

instance : XdrStruct Commit3Resok (WccData × Writeverf3) :=
  ⟨⟨fun v => (v.fileWcc, v.verf), fun ⟨a, b⟩ => ⟨a, b⟩, fun _ => rfl, fun _ => rfl⟩⟩

structure Create3Resfail where
  dirWcc : WccData

instance : XdrStruct Create3Resfail WccData :=
  ⟨⟨fun v => v.dirWcc, fun a => ⟨a⟩, fun _ => rfl, fun _ => rfl⟩⟩

structure Create3Resok where
  obj : PostOpFh3
  objAttributes : PostOpAttr
  dirWcc : WccData

instance : XdrStruct Create3Resok (PostOpFh3 × PostOpAttr × WccData) :=
  ⟨⟨fun v => (v.obj, v.objAttributes, v.dirWcc),
    fun ⟨a, b, c⟩ => ⟨a, b, c⟩, fun _ => rfl, fun _ => rfl⟩⟩

structure Fsinfo3Resfail where
  objAttributes : PostOpAttr

instance : XdrStruct Fsinfo3Resfail PostOpAttr :=
  ⟨⟨fun v => v.objAttributes, fun a => ⟨a⟩, fun _ => rfl, fun _ => rfl⟩⟩

structure Fsinfo3Resok where
  objAttributes : PostOpAttr
  rtmax : UInt32
  rtpref : UInt32
  rtmult : UInt32
  wtmax : UInt32
  wtpref : UInt32
  wtmult : UInt32
  dtpref : UInt32
  maxfilesize : Size3
  timeDelta : Nfstime3
  properties : UInt32

instance : XdrStruct Fsinfo3Resok
    (PostOpAttr × UInt32 × UInt32 × UInt32 × UInt32 × UInt32 × UInt32 × UInt32 × Size3 ×
      Nfstime3 × UInt32) :=
  ⟨⟨fun v => (v.objAttributes, v.rtmax, v.rtpref, v.rtmult, v.wtmax, v.wtpref, v.wtmult,
      v.dtpref, v.maxfilesize, v.timeDelta, v.properties),
    fun ⟨a, b, c, d, e, f, g, h, i, j, k⟩ => ⟨a, b, c, d, e, f, g, h, i, j, k⟩,
    fun _ => rfl, fun _ => rfl⟩⟩

structure Fsstat3Resfail where
  objAttributes : PostOpAttr

instance : XdrStruct Fsstat3Resfail PostOpAttr :=
  ⟨⟨fun v => v.objAttributes, fun a => ⟨a⟩, fun _ => rfl, fun _ => rfl⟩⟩

structure Fsstat3Resok where
  objAttributes : PostOpAttr
  tbytes : Size3
  fbytes : Size3
  abytes : Size3
  tfiles : Size3
  ffiles : Size3
  afiles : Size3
  invarsec : UInt32

instance : XdrStruct Fsstat3Resok
    (PostOpAttr × Size3 × Size3 × Size3 × Size3 × Size3 × Size3 × UInt32) :=
  ⟨⟨fun v => (v.objAttributes, v.tbytes, v.fbytes, v.abytes, v.tfiles, v.ffiles, v.afiles,
      v.invarsec),
    fun ⟨a, b, c, d, e, f, g, h⟩ => ⟨a, b, c, d, e, f, g, h⟩, fun _ => rfl, fun _ => rfl⟩⟩

structure Getattr3Resok where
  objAttributes : Fattr3

instance : XdrStruct Getattr3Resok Fattr3 :=
  ⟨⟨fun v => v.objAttributes, fun a => ⟨a⟩, fun _ => rfl, fun _ => rfl⟩⟩

structure Link3Resfail where
  fileAttributes : PostOpAttr
  linkdirWcc : WccData

instance : XdrStruct Link3Resfail (PostOpAttr × WccData) :=
  ⟨⟨fun v => (v.fileAttributes, v.linkdirWcc), fun ⟨a, b⟩ => ⟨a, b⟩, fun _ => rfl, fun _ => rfl⟩⟩

structure Link3Resok where
  fileAttributes : PostOpAttr
  linkdirWcc : WccData

instance : XdrStruct Link3Resok (PostOpAttr × WccData) :=
  ⟨⟨fun v => (v.fileAttributes, v.linkdirWcc), fun ⟨a, b⟩ => ⟨a, b⟩, fun _ => rfl, fun _ => rfl⟩⟩

structure Lookup3Resfail where
  dirAttributes : PostOpAttr

instance : XdrStruct Lookup3Resfail PostOpAttr :=
  ⟨⟨fun v => v.dirAttributes, fun a => ⟨a⟩, fun _ => rfl, fun _ => rfl⟩⟩

structure Lookup3Resok where
  object : NfsFh3
  objAttributes : PostOpAttr
  dirAttributes : PostOpAttr

instance : XdrStruct Lookup3Resok (NfsFh3 × PostOpAttr × PostOpAttr) :=
  ⟨⟨fun v => (v.object, v.objAttributes, v.dirAttributes),
    fun ⟨a, b, c⟩ => ⟨a, b, c⟩, fun _ => rfl, fun _ => rfl⟩⟩

structure Mkdir3Resfail where
  dirWcc : WccData

instance : XdrStruct Mkdir3Resfail WccData :=
  ⟨⟨fun v => v.dirWcc, fun a => ⟨a⟩, fun _ => rfl, fun _ => rfl⟩⟩

structure Mkdir3Resok where
  obj : PostOpFh3
  objAttributes : PostOpAttr
  dirWcc : WccData

instance : XdrStruct Mkdir3Resok (PostOpFh3 × PostOpAttr × WccData) :=
  ⟨⟨fun v => (v.obj, v.objAttributes, v.dirWcc),
    fun ⟨a, b, c⟩ => ⟨a, b, c⟩, fun _ => rfl, fun _ => rfl⟩⟩

structure Mknod3Resfail where
  dirWcc : WccData

instance : XdrStruct Mknod3Resfail WccData :=
  ⟨⟨fun v => v.dirWcc, fun a => ⟨a⟩, fun _ => rfl, fun _ => rfl⟩⟩

structure Mknod3Resok where
  obj : PostOpFh3
  objAttributes : PostOpAttr
  dirWcc : WccData

instance : XdrStruct Mknod3Resok (PostOpFh3 × PostOpAttr × WccData) :=
  ⟨⟨fun v => (v.obj, v.objAttributes, v.dirWcc),
    fun ⟨a, b, c⟩ => ⟨a, b, c⟩, fun _ => rfl, fun _ => rfl⟩⟩

structure Pathconf3Resfail where
  objAttributes : PostOpAttr

instance : XdrStruct Pathconf3Resfail PostOpAttr :=
  ⟨⟨fun v => v.objAttributes, fun a => ⟨a⟩, fun _ => rfl, fun _ => rfl⟩⟩

structure Pathconf3Resok where
  objAttributes : PostOpAttr
  linkmax : UInt32
  nameMax : UInt32
  noTrunc : Bool
  chownRestricted : Bool
  caseInsensitive : Bool
  casePreserving : Bool

instance : XdrStruct Pathconf3Resok (PostOpAttr × UInt32 × UInt32 × Bool × Bool × Bool × Bool) :=
  ⟨⟨fun v => (v.objAttributes, v.linkmax, v.nameMax, v.noTrunc, v.chownRestricted,
      v.caseInsensitive, v.casePreserving),
    fun ⟨a, b, c, d, e, f, g⟩ => ⟨a, b, c, d, e, f, g⟩, fun _ => rfl, fun _ => rfl⟩⟩

structure Read3Resfail where
  fileAttributes : PostOpAttr

instance : XdrStruct Read3Resfail PostOpAttr :=
  ⟨⟨fun v => v.fileAttributes, fun a => ⟨a⟩, fun _ => rfl, fun _ => rfl⟩⟩

structure Read3Resok where
  fileAttributes : PostOpAttr
  count : Count3
  eof : Bool
  data : Opaque

instance : XdrStruct Read3Resok (PostOpAttr × Count3 × Bool × Opaque) :=
  ⟨⟨fun v => (v.fileAttributes, v.count, v.eof, v.data),
    fun ⟨a, b, c, d⟩ => ⟨a, b, c, d⟩, fun _ => rfl, fun _ => rfl⟩⟩

structure Readdir3Resfail where
  dirAttributes : PostOpAttr

instance : XdrStruct Readdir3Resfail PostOpAttr :=
  ⟨⟨fun v => v.dirAttributes, fun a => ⟨a⟩, fun _ => rfl, fun _ => rfl⟩⟩

structure Readdir3Resok where
  dirAttributes : PostOpAttr
  cookieverf : Cookieverf3
  reply : Dirlist3

instance : XdrStruct Readdir3Resok (PostOpAttr × Cookieverf3 × Dirlist3) :=
  ⟨⟨fun v => (v.dirAttributes, v.cookieverf, v.reply),
    fun ⟨a, b, c⟩ => ⟨a, b, c⟩, fun _ => rfl, fun _ => rfl⟩⟩

structure Readdirplus3Resfail where
  dirAttributes : PostOpAttr

instance : XdrStruct Readdirplus3Resfail PostOpAttr :=
  ⟨⟨fun v => v.dirAttributes, fun a => ⟨a⟩, fun _ => rfl, fun _ => rfl⟩⟩

structure Readdirplus3Resok where
  dirAttributes : PostOpAttr
  cookieverf : Cookieverf3
  reply : Dirlistplus3

instance : XdrStruct Readdirplus3Resok (PostOpAttr × Cookieverf3 × Dirlistplus3) :=
  ⟨⟨fun v => (v.dirAttributes, v.cookieverf, v.reply),
    fun ⟨a, b, c⟩ => ⟨a, b, c⟩, fun _ => rfl, fun _ => rfl⟩⟩

structure Readlink3Resfail where
  symlinkAttributes : PostOpAttr

instance : XdrStruct Readlink3Resfail PostOpAttr :=
  ⟨⟨fun v => v.symlinkAttributes, fun a => ⟨a⟩, fun _ => rfl, fun _ => rfl⟩⟩

structure Readlink3Resok where
  symlinkAttributes : PostOpAttr
  data : Nfspath3

instance : XdrStruct Readlink3Resok (PostOpAttr × Nfspath3) :=
  ⟨⟨fun v => (v.symlinkAttributes, v.data), fun ⟨a, b⟩ => ⟨a, b⟩, fun _ => rfl, fun _ => rfl⟩⟩

structure Remove3Resfail where
  dirWcc : WccData

instance : XdrStruct Remove3Resfail WccData :=
  ⟨⟨fun v => v.dirWcc, fun a => ⟨a⟩, fun _ => rfl, fun _ => rfl⟩⟩

structure Remove3Resok where
  dirWcc : WccData

instance : XdrStruct Remove3Resok WccData :=
  ⟨⟨fun v => v.dirWcc, fun a => ⟨a⟩, fun _ => rfl, fun _ => rfl⟩⟩

structure Rename3Resfail where
  fromdirWcc : WccData
  todirWcc : WccData

instance : XdrStruct Rename3Resfail (WccData × WccData) :=
  ⟨⟨fun v => (v.fromdirWcc, v.todirWcc), fun ⟨a, b⟩ => ⟨a, b⟩, fun _ => rfl, fun _ => rfl⟩⟩

structure Rename3Resok where
  fromdirWcc : WccData
  todirWcc : WccData

instance : XdrStruct Rename3Resok (WccData × WccData) :=
  ⟨⟨fun v => (v.fromdirWcc, v.todirWcc), fun ⟨a, b⟩ => ⟨a, b⟩, fun _ => rfl, fun _ => rfl⟩⟩

structure Rmdir3Resfail where
  dirWcc : WccData

instance : XdrStruct Rmdir3Resfail WccData :=
  ⟨⟨fun v => v.dirWcc, fun a => ⟨a⟩, fun _ => rfl, fun _ => rfl⟩⟩

structure Rmdir3Resok where
  dirWcc : WccData

instance : XdrStruct Rmdir3Resok WccData :=
  ⟨⟨fun v => v.dirWcc, fun a => ⟨a⟩, fun _ => rfl, fun _ => rfl⟩⟩

structure Setattr3Resfail where
  objWcc : WccData

instance : XdrStruct Setattr3Resfail WccData :=
  ⟨⟨fun v => v.objWcc, fun a => ⟨a⟩, fun _ => rfl, fun _ => rfl⟩⟩

structure Setattr3Resok where
  objWcc : WccData

instance : XdrStruct Setattr3Resok WccData :=
  ⟨⟨fun v => v.objWcc, fun a => ⟨a⟩, fun _ => rfl, fun _ => rfl⟩⟩

structure Symlink3Resfail where
  dirWcc : WccData

instance : XdrStruct Symlink3Resfail WccData :=
  ⟨⟨fun v => v.dirWcc, fun a => ⟨a⟩, fun _ => rfl, fun _ => rfl⟩⟩

structure Symlink3Resok where
  obj : PostOpFh3
  objAttributes : PostOpAttr
  dirWcc : WccData

instance : XdrStruct Symlink3Resok (PostOpFh3 × PostOpAttr × WccData) :=
  ⟨⟨fun v => (v.obj, v.objAttributes, v.dirWcc),
    fun ⟨a, b, c⟩ => ⟨a, b, c⟩, fun _ => rfl, fun _ => rfl⟩⟩

structure Write3Resfail where
  fileWcc : WccData

instance : XdrStruct Write3Resfail WccData :=
  ⟨⟨fun v => v.fileWcc, fun a => ⟨a⟩, fun _ => rfl, fun _ => rfl⟩⟩

structure Write3Resok where
  fileWcc : WccData
  count : Count3
  committed : StableHow
  verf : Writeverf3

instance : XdrStruct Write3Resok (WccData × Count3 × StableHow × Writeverf3) :=
  ⟨⟨fun v => (v.fileWcc, v.count, v.committed, v.verf),
    fun ⟨a, b, c, d⟩ => ⟨a, b, c, d⟩, fun _ => rfl, fun _ => rfl⟩⟩

abbrev Access3Res := Nfs3Result Access3Resok Access3Resfail

abbrev Commit3Res := Nfs3Result Commit3Resok Commit3Resfail

abbrev Create3Res := Nfs3Result Create3Resok Create3Resfail

abbrev Fsinfo3Res := Nfs3Result Fsinfo3Resok Fsinfo3Resfail

abbrev Fsstat3Res := Nfs3Result Fsstat3Resok Fsstat3Resfail

abbrev Getattr3Res := Nfs3Result Getattr3Resok Void

abbrev Link3Res := Nfs3Result Link3Resok Link3Resfail

abbrev Lookup3Res := Nfs3Result Lookup3Resok Lookup3Resfail

abbrev Mkdir3Res := Nfs3Result Mkdir3Resok Mkdir3Resfail

abbrev Mknod3Res := Nfs3Result Mknod3Resok Mknod3Resfail

abbrev Pathconf3Res := Nfs3Result Pathconf3Resok Pathconf3Resfail

abbrev Read3Res := Nfs3Result Read3Resok Read3Resfail

abbrev Readdir3Res := Nfs3Result Readdir3Resok Readdir3Resfail

abbrev Readdirplus3Res := Nfs3Result Readdirplus3Resok Readdirplus3Resfail

abbrev Readlink3Res := Nfs3Result Readlink3Resok Readlink3Resfail

abbrev Remove3Res := Nfs3Result Remove3Resok Remove3Resfail

abbrev Rename3Res := Nfs3Result Rename3Resok Rename3Resfail

abbrev Rmdir3Res := Nfs3Result Rmdir3Resok Rmdir3Resfail

abbrev Setattr3Res := Nfs3Result Setattr3Resok Setattr3Resfail

abbrev Symlink3Res := Nfs3Result Symlink3Resok Symlink3Resfail

abbrev Write3Res := Nfs3Result Write3Resok Write3Resfail

end Nfs3
