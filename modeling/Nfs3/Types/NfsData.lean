import Nfs3.Types.XdrLaws

/-!
# Data types of the NFS protocol
-/
namespace Nfs3

open ByteCodec

abbrev Cookie3 := UInt64

abbrev Count3 := UInt32

abbrev Fileid3 := UInt64

abbrev Gid3 := UInt32

abbrev Mode3 := UInt32

abbrev Offset3 := UInt64

abbrev Size3 := UInt64

abbrev Uid3 := UInt32

/-! ## Enumerations -/

inductive Nfsstat3
  | nfs3Ok
  | nfs3errPerm
  | nfs3errNoent
  | nfs3errIo
  | nfs3errNxio
  | nfs3errAcces
  | nfs3errExist
  | nfs3errXdev
  | nfs3errNodev
  | nfs3errNotdir
  | nfs3errIsdir
  | nfs3errInval
  | nfs3errFbig
  | nfs3errNospc
  | nfs3errRofs
  | nfs3errMlink
  | nfs3errNametoolong
  | nfs3errNotempty
  | nfs3errDquot
  | nfs3errStale
  | nfs3errRemote
  | nfs3errBadhandle
  | nfs3errNotSync
  | nfs3errBadCookie
  | nfs3errNotsupp
  | nfs3errToosmall
  | nfs3errServerfault
  | nfs3errBadtype
  | nfs3errJukebox
  deriving DecidableEq

def Nfsstat3.asU32 : Nfsstat3 → UInt32
  | .nfs3Ok => 0
  | .nfs3errPerm => 1
  | .nfs3errNoent => 2
  | .nfs3errIo => 5
  | .nfs3errNxio => 6
  | .nfs3errAcces => 13
  | .nfs3errExist => 17
  | .nfs3errXdev => 18
  | .nfs3errNodev => 19
  | .nfs3errNotdir => 20
  | .nfs3errIsdir => 21
  | .nfs3errInval => 22
  | .nfs3errFbig => 27
  | .nfs3errNospc => 28
  | .nfs3errRofs => 30
  | .nfs3errMlink => 31
  | .nfs3errNametoolong => 63
  | .nfs3errNotempty => 66
  | .nfs3errDquot => 69
  | .nfs3errStale => 70
  | .nfs3errRemote => 71
  | .nfs3errBadhandle => 10001
  | .nfs3errNotSync => 10002
  | .nfs3errBadCookie => 10003
  | .nfs3errNotsupp => 10004
  | .nfs3errToosmall => 10005
  | .nfs3errServerfault => 10006
  | .nfs3errBadtype => 10007
  | .nfs3errJukebox => 10008

instance : XdrEnum Nfsstat3 where
  variants :=
    [.nfs3Ok, .nfs3errPerm, .nfs3errNoent, .nfs3errIo, .nfs3errNxio, .nfs3errAcces, .nfs3errExist,
      .nfs3errXdev, .nfs3errNodev, .nfs3errNotdir, .nfs3errIsdir, .nfs3errInval, .nfs3errFbig,
      .nfs3errNospc, .nfs3errRofs, .nfs3errMlink, .nfs3errNametoolong, .nfs3errNotempty,
      .nfs3errDquot, .nfs3errStale, .nfs3errRemote, .nfs3errBadhandle, .nfs3errNotSync,
      .nfs3errBadCookie, .nfs3errNotsupp, .nfs3errToosmall, .nfs3errServerfault, .nfs3errBadtype,
      .nfs3errJukebox]
  asU32 := Nfsstat3.asU32
  complete v := by cases v <;> decide
  distinct := by decide

inductive Ftype3
  | nf3reg
  | nf3dir
  | nf3blk
  | nf3chr
  | nf3lnk
  | nf3sock
  | nf3fifo
  deriving DecidableEq

def Ftype3.asU32 : Ftype3 → UInt32
  | .nf3reg => 1
  | .nf3dir => 2
  | .nf3blk => 3
  | .nf3chr => 4
  | .nf3lnk => 5
  | .nf3sock => 6
  | .nf3fifo => 7

instance : XdrEnum Ftype3 where
  variants := [.nf3reg, .nf3dir, .nf3blk, .nf3chr, .nf3lnk, .nf3sock, .nf3fifo]
  asU32 := Ftype3.asU32
  complete v := by cases v <;> decide
  distinct := by decide

inductive StableHow
  | unstable
  | dataSync
  | fileSync
  deriving DecidableEq

def StableHow.asU32 : StableHow → UInt32
  | .unstable => 0
  | .dataSync => 1
  | .fileSync => 2

instance : XdrEnum StableHow where
  variants := [.unstable, .dataSync, .fileSync]
  asU32 := StableHow.asU32
  complete v := by cases v <;> decide
  distinct := by decide

inductive Createmode3
  | unchecked
  | guarded
  | exclusive
  deriving DecidableEq

def Createmode3.asU32 : Createmode3 → UInt32
  | .unchecked => 0
  | .guarded => 1
  | .exclusive => 2

instance : XdrEnum Createmode3 where
  variants := [.unchecked, .guarded, .exclusive]
  asU32 := Createmode3.asU32
  complete v := by cases v <;> decide
  distinct := by decide

inductive NfsProgram
  | nfsproc3Null
  | nfsproc3Getattr
  | nfsproc3Setattr
  | nfsproc3Lookup
  | nfsproc3Access
  | nfsproc3Readlink
  | nfsproc3Read
  | nfsproc3Write
  | nfsproc3Create
  | nfsproc3Mkdir
  | nfsproc3Symlink
  | nfsproc3Mknod
  | nfsproc3Remove
  | nfsproc3Rmdir
  | nfsproc3Rename
  | nfsproc3Link
  | nfsproc3Readdir
  | nfsproc3Readdirplus
  | nfsproc3Fsstat
  | nfsproc3Fsinfo
  | nfsproc3Pathconf
  | nfsproc3Commit
  deriving DecidableEq

def NfsProgram.asU32 : NfsProgram → UInt32
  | .nfsproc3Null => 0
  | .nfsproc3Getattr => 1
  | .nfsproc3Setattr => 2
  | .nfsproc3Lookup => 3
  | .nfsproc3Access => 4
  | .nfsproc3Readlink => 5
  | .nfsproc3Read => 6
  | .nfsproc3Write => 7
  | .nfsproc3Create => 8
  | .nfsproc3Mkdir => 9
  | .nfsproc3Symlink => 10
  | .nfsproc3Mknod => 11
  | .nfsproc3Remove => 12
  | .nfsproc3Rmdir => 13
  | .nfsproc3Rename => 14
  | .nfsproc3Link => 15
  | .nfsproc3Readdir => 16
  | .nfsproc3Readdirplus => 17
  | .nfsproc3Fsstat => 18
  | .nfsproc3Fsinfo => 19
  | .nfsproc3Pathconf => 20
  | .nfsproc3Commit => 21

instance : XdrEnum NfsProgram where
  variants :=
    [.nfsproc3Null, .nfsproc3Getattr, .nfsproc3Setattr, .nfsproc3Lookup, .nfsproc3Access,
      .nfsproc3Readlink, .nfsproc3Read, .nfsproc3Write, .nfsproc3Create, .nfsproc3Mkdir,
      .nfsproc3Symlink, .nfsproc3Mknod, .nfsproc3Remove, .nfsproc3Rmdir, .nfsproc3Rename,
      .nfsproc3Link, .nfsproc3Readdir, .nfsproc3Readdirplus, .nfsproc3Fsstat, .nfsproc3Fsinfo,
      .nfsproc3Pathconf, .nfsproc3Commit]
  asU32 := NfsProgram.asU32
  complete v := by cases v <;> decide
  distinct := by decide

/-! ## Handles, names, times and attributes -/

structure NfsFh3 where
  data : Opaque
  deriving DecidableEq

instance : XdrStruct NfsFh3 Opaque :=
  ⟨⟨fun v => v.data, fun a => ⟨a⟩, fun _ => rfl, fun _ => rfl⟩⟩

structure Filename3 where
  val : Opaque
  deriving DecidableEq

instance : XdrStruct Filename3 Opaque :=
  ⟨⟨fun v => v.val, fun a => ⟨a⟩, fun _ => rfl, fun _ => rfl⟩⟩

structure Nfspath3 where
  val : Opaque
  deriving DecidableEq

instance : XdrStruct Nfspath3 Opaque :=
  ⟨⟨fun v => v.val, fun a => ⟨a⟩, fun _ => rfl, fun _ => rfl⟩⟩

structure Nfstime3 where
  seconds : UInt32
  nseconds : UInt32
  deriving DecidableEq

instance : XdrStruct Nfstime3 (UInt32 × UInt32) :=
  ⟨⟨fun v => (v.seconds, v.nseconds), fun ⟨a, b⟩ => ⟨a, b⟩, fun _ => rfl, fun _ => rfl⟩⟩

structure Specdata3 where
  specdata1 : UInt32
  specdata2 : UInt32
  deriving DecidableEq

instance : XdrStruct Specdata3 (UInt32 × UInt32) :=
  ⟨⟨fun v => (v.specdata1, v.specdata2), fun ⟨a, b⟩ => ⟨a, b⟩, fun _ => rfl, fun _ => rfl⟩⟩

structure Cookieverf3 where
  val : Vector UInt8 8
  deriving DecidableEq

instance : XdrStruct Cookieverf3 (Vector UInt8 8) :=
  ⟨⟨fun v => v.val, fun a => ⟨a⟩, fun _ => rfl, fun _ => rfl⟩⟩

structure Createverf3 where
  val : Vector UInt8 8
  deriving DecidableEq

instance : XdrStruct Createverf3 (Vector UInt8 8) :=
  ⟨⟨fun v => v.val, fun a => ⟨a⟩, fun _ => rfl, fun _ => rfl⟩⟩

structure Writeverf3 where
  val : Vector UInt8 8
  deriving DecidableEq

instance : XdrStruct Writeverf3 (Vector UInt8 8) :=
  ⟨⟨fun v => v.val, fun a => ⟨a⟩, fun _ => rfl, fun _ => rfl⟩⟩

structure Fattr3 where
  type : Ftype3
  mode : Mode3
  nlink : UInt32
  uid : Uid3
  gid : Gid3
  size : Size3
  used : Size3
  rdev : Specdata3
  fsid : UInt64
  fileid : Fileid3
  atime : Nfstime3
  mtime : Nfstime3
  ctime : Nfstime3
  deriving DecidableEq

instance : XdrStruct Fattr3
    (Ftype3 × Mode3 × UInt32 × Uid3 × Gid3 × Size3 × Size3 × Specdata3 × UInt64 × Fileid3 ×
      Nfstime3 × Nfstime3 × Nfstime3) :=
  ⟨⟨fun v => (v.type, v.mode, v.nlink, v.uid, v.gid, v.size, v.used, v.rdev, v.fsid, v.fileid,
      v.atime, v.mtime, v.ctime),
    fun ⟨a, b, c, d, e, f, g, h, i, j, k, l, m⟩ => ⟨a, b, c, d, e, f, g, h, i, j, k, l, m⟩,
    fun _ => rfl, fun _ => rfl⟩⟩

structure WccAttr where
  size : Size3
  mtime : Nfstime3
  ctime : Nfstime3
  deriving DecidableEq

instance : XdrStruct WccAttr (Size3 × Nfstime3 × Nfstime3) :=
  ⟨⟨fun v => (v.size, v.mtime, v.ctime), fun ⟨a, b, c⟩ => ⟨a, b, c⟩, fun _ => rfl, fun _ => rfl⟩⟩

/-! Shortcuts: every reply carries attributes, and searching through their fields each time
is slow. -/

instance : XdrCodec Fattr3 := inferInstance

instance : XdrSpec Fattr3 := inferInstance

instance : LawfulXdr Fattr3 := inferInstance

instance : ExactXdr Fattr3 := inferInstance

/-! ## Results and options -/

inductive Nfs3Result (α ε : Type)
  | ok (val : α)
  | err (code : Nfsstat3) (fail : ε)

def Nfs3Result.tag {α ε : Type} : Nfs3Result α ε → Nfsstat3
  | .ok _ => .nfs3Ok
  | .err code _ => code

instance {α ε : Type} [XdrCodec α] [XdrCodec ε] : XdrStatus (Nfs3Result α ε) Nfsstat3 where
  tagged memory :=
    { tag := Nfs3Result.tag
      size := fun
        | .ok val => packedSize val
        | .err _ fail => packedSize fail
      write := fun
        | .ok val => pack val
        | .err _ fail => pack fail
      read := fun code => do
        if code = .nfs3Ok then
          let (val, fsz) ← unpackIn (α := α) memory
          pure (.ok val, fsz)
        else
          let (fail, csz) ← unpackIn (α := ε) memory
          pure (.err code fail, csz)
      requests := fun code => if code = .nfs3Ok then requests α else requests ε }

section Result

variable {α ε : Type} [XdrSpec α] [XdrSpec ε]

instance : StatusSpec (Nfs3Result α ε) where
  valid
    | .ok val => XdrSpec.valid val
    | .err code fail => code != .nfs3Ok && XdrSpec.valid fail
  padding
    | .ok val => XdrSpec.padding val
    | .err _ fail => XdrSpec.padding fail

variable [XdrCodec α] [XdrCodec ε]

/-- An error that carries `NFS3_OK` would be read back as a success. -/
theorem nfs3Result_ok_arm {P : WireClass} (hP : P α inferInstance inferInstance) :
    PayloadArm P (XdrStatus.tagged (α := Nfs3Result α ε) .unlimited) StatusSpec.valid
      StatusSpec.padding .nfs3Ok := by
  refine .mk hP (fun u : α => .ok u) ⟨rfl, fun _ => rfl, fun _ => rfl, fun _ => rfl⟩
    (fun _ => rfl) fun v hv ht => ?_
  cases v with
  | ok val => exact ⟨val, rfl, hv⟩
  | err code fail =>
    have hne : code ≠ .nfs3Ok ∧ XdrSpec.valid fail = true := by
      simpa [StatusSpec.valid] using hv
    exact absurd ht hne.1

theorem nfs3Result_err_arm {P : WireClass} (hP : P ε inferInstance inferInstance)
    {code : Nfsstat3} (hcode : code ≠ .nfs3Ok) :
    PayloadArm P (XdrStatus.tagged (α := Nfs3Result α ε) .unlimited) StatusSpec.valid
      StatusSpec.padding code := by
  refine .mk hP (fun u : ε => .err code u) ⟨?_, fun _ => rfl, fun _ => rfl, fun _ => rfl⟩
    (fun _ => rfl) fun v hv ht => ?_
  · simp only [XdrStatus.tagged, hcode, ↓reduceIte]
    rfl
  · cases v with
    | ok val => exact absurd ht.symm hcode
    | err code' fail =>
      have hval : code' ≠ .nfs3Ok ∧ XdrSpec.valid fail = true := by
        simpa [StatusSpec.valid] using hv
      exact ⟨fail, congrArg (Nfs3Result.err · fail) ht, hval.2⟩

theorem nfs3Result_arms {P : WireClass} (hα : P α inferInstance inferInstance)
    (hε : P ε inferInstance inferInstance) : StatusArms P (Nfs3Result α ε) := by
  intro tag
  by_cases htag : tag = .nfs3Ok
  · subst htag
    exact nfs3Result_ok_arm hα
  · exact nfs3Result_err_arm hε htag

instance [h : LawfulXdr α] [h' : LawfulXdr ε] : LawfulStatus (Nfs3Result α ε) :=
  ⟨nfs3Result_arms h h'⟩

instance [LawfulXdr α] [ExactXdr α] [LawfulXdr ε] [ExactXdr ε] : ExactStatus (Nfs3Result α ε) :=
  ⟨nfs3Result_arms ⟨inferInstance, inferInstance⟩ ⟨inferInstance, inferInstance⟩⟩

omit [XdrSpec α] [XdrSpec ε] in
instance [RationedXdr α] [RationedXdr ε] : RationedStatus (Nfs3Result α ε) where
  rationed memory tag := by
    by_cases htag : tag = .nfs3Ok
    · subst htag
      exact payload_rationed memory Nfs3Result.ok
    · simp only [XdrStatus.tagged, htag, ↓reduceIte]
      exact payload_rationed memory (Nfs3Result.err tag)

end Result

inductive Nfs3Option (α : Type)
  | some (val : α)
  | none
  deriving DecidableEq

instance {α : Type} [XdrCodec α] : XdrUnion (Nfs3Option α) (α ⊕ Void) where
  arms memory := (xdrArm memory _ 1).or (xdrArm memory _ 0)
  variants :=
    { toFun := fun
        | .some val => .inl val
        | .none => .inr ⟨⟩
      invFun := Sum.elim .some fun _ => .none
      left_inv := by rintro (_ | _) <;> rfl
      right_inv := by rintro (_ | _) <;> rfl }

section Option

variable {α : Type} [XdrCodec α]

theorem nfs3Option_tags : (XdrUnion.arms (Nfs3Option α) .unlimited).tags.Nodup := by
  simp [XdrUnion.arms, Arms.or, Arms.one, xdrArm]

instance [RationedXdr α] : RationedUnion (Nfs3Option α) where
  rationed memory := (xdrArm_rationed memory 1).or (xdrArm_rationed memory 0)

variable [XdrSpec α] [LawfulXdr α]

instance : LawfulUnion (Nfs3Option α) where
  lawful := .or (.one 1) (.one 0) nfs3Option_tags

instance [ExactXdr α] : ExactUnion (Nfs3Option α) where
  exact := .or (.one 1) (.one 0) nfs3Option_tags

end Option

def Nfs3Option.isSome {α : Type} : Nfs3Option α → Bool
  | .some _ => true
  | .none => false

abbrev PreOpAttr := Nfs3Option WccAttr

abbrev PostOpAttr := Nfs3Option Fattr3

abbrev PostOpFh3 := Nfs3Option NfsFh3

abbrev Sattrguard3 := Nfs3Option Nfstime3

abbrev SetGid3 := Nfs3Option Gid3

abbrev SetMode3 := Nfs3Option Mode3

abbrev SetSize3 := Nfs3Option Size3

abbrev SetUid3 := Nfs3Option Uid3

structure WccData where
  before : PreOpAttr
  after : PostOpAttr
  deriving DecidableEq

instance : XdrStruct WccData (PreOpAttr × PostOpAttr) :=
  ⟨⟨fun v => (v.before, v.after), fun ⟨a, b⟩ => ⟨a, b⟩, fun _ => rfl, fun _ => rfl⟩⟩

structure Diropargs3 where
  dir : NfsFh3
  name : Filename3
  deriving DecidableEq

instance : XdrStruct Diropargs3 (NfsFh3 × Filename3) :=
  ⟨⟨fun v => (v.dir, v.name), fun ⟨a, b⟩ => ⟨a, b⟩, fun _ => rfl, fun _ => rfl⟩⟩

instance : XdrCodec WccData := inferInstance

instance : XdrSpec WccData := inferInstance

instance : LawfulXdr WccData := inferInstance

instance : ExactXdr WccData := inferInstance

/-! ## Settable attributes -/

inductive SetAtime
  | dontChange
  | setToServerTime
  | setToClientTime (time : Nfstime3)
  deriving DecidableEq

instance : XdrUnion SetAtime (Void ⊕ Void ⊕ Nfstime3) where
  arms memory := (xdrArm memory _ 0).or ((xdrArm memory _ 1).or (xdrArm memory _ 2))
  variants :=
    { toFun := fun
        | .dontChange => .inl ⟨⟩
        | .setToServerTime => .inr (.inl ⟨⟩)
        | .setToClientTime time => .inr (.inr time)
      invFun := Sum.elim (fun _ => .dontChange)
        (Sum.elim (fun _ => .setToServerTime) .setToClientTime)
      left_inv := by rintro (_ | _ | _) <;> rfl
      right_inv := by rintro (_ | _ | _) <;> rfl }

instance : ExactUnion SetAtime where
  exact := .or (.one 0) (.or (.one 1) (.one 2) (by decide)) (by decide)

instance : RationedUnion SetAtime where
  rationed memory :=
    (xdrArm_rationed memory 0).or ((xdrArm_rationed memory 1).or (xdrArm_rationed memory 2))

inductive SetMtime
  | dontChange
  | setToServerTime
  | setToClientTime (time : Nfstime3)
  deriving DecidableEq

instance : XdrUnion SetMtime (Void ⊕ Void ⊕ Nfstime3) where
  arms memory := (xdrArm memory _ 0).or ((xdrArm memory _ 1).or (xdrArm memory _ 2))
  variants :=
    { toFun := fun
        | .dontChange => .inl ⟨⟩
        | .setToServerTime => .inr (.inl ⟨⟩)
        | .setToClientTime time => .inr (.inr time)
      invFun := Sum.elim (fun _ => .dontChange)
        (Sum.elim (fun _ => .setToServerTime) .setToClientTime)
      left_inv := by rintro (_ | _ | _) <;> rfl
      right_inv := by rintro (_ | _ | _) <;> rfl }

instance : ExactUnion SetMtime where
  exact := .or (.one 0) (.or (.one 1) (.one 2) (by decide)) (by decide)

instance : RationedUnion SetMtime where
  rationed memory :=
    (xdrArm_rationed memory 0).or ((xdrArm_rationed memory 1).or (xdrArm_rationed memory 2))

structure Sattr3 where
  mode : SetMode3
  uid : SetUid3
  gid : SetGid3
  size : SetSize3
  atime : SetAtime
  mtime : SetMtime
  deriving DecidableEq

instance : XdrStruct Sattr3 (SetMode3 × SetUid3 × SetGid3 × SetSize3 × SetAtime × SetMtime) :=
  ⟨⟨fun v => (v.mode, v.uid, v.gid, v.size, v.atime, v.mtime),
    fun ⟨a, b, c, d, e, f⟩ => ⟨a, b, c, d, e, f⟩, fun _ => rfl, fun _ => rfl⟩⟩

instance : XdrCodec Sattr3 := inferInstance

instance : XdrSpec Sattr3 := inferInstance

instance : LawfulXdr Sattr3 := inferInstance

instance : ExactXdr Sattr3 := inferInstance

structure Devicedata3 where
  devAttributes : Sattr3
  spec : Specdata3

instance : XdrStruct Devicedata3 (Sattr3 × Specdata3) :=
  ⟨⟨fun v => (v.devAttributes, v.spec), fun ⟨a, b⟩ => ⟨a, b⟩, fun _ => rfl, fun _ => rfl⟩⟩

structure Symlinkdata3 where
  symlinkAttributes : Sattr3
  symlinkData : Nfspath3

instance : XdrStruct Symlinkdata3 (Sattr3 × Nfspath3) :=
  ⟨⟨fun v => (v.symlinkAttributes, v.symlinkData),
    fun ⟨a, b⟩ => ⟨a, b⟩, fun _ => rfl, fun _ => rfl⟩⟩

inductive Createhow3
  | unchecked (attributes : Sattr3)
  | guarded (attributes : Sattr3)
  | exclusive (verf : Createverf3)

instance : XdrUnion Createhow3 (Sattr3 ⊕ Sattr3 ⊕ Createverf3) where
  arms memory := (xdrArm memory _ 0).or ((xdrArm memory _ 1).or (xdrArm memory _ 2))
  variants :=
    { toFun := fun
        | .unchecked attributes => .inl attributes
        | .guarded attributes => .inr (.inl attributes)
        | .exclusive verf => .inr (.inr verf)
      invFun := Sum.elim .unchecked (Sum.elim .guarded .exclusive)
      left_inv := by rintro (_ | _ | _) <;> rfl
      right_inv := by rintro (_ | _ | _) <;> rfl }

instance : ExactUnion Createhow3 where
  exact := .or (.one 0) (.or (.one 1) (.one 2) (by decide)) (by decide)

instance : RationedUnion Createhow3 where
  rationed memory :=
    (xdrArm_rationed memory 0).or ((xdrArm_rationed memory 1).or (xdrArm_rationed memory 2))

/-! ## Device nodes -/

inductive Mknoddata3
  | nf3chr (device : Devicedata3)
  | nf3blk (device : Devicedata3)
  | nf3sock (pipe : Sattr3)
  | nf3fifo (pipe : Sattr3)
  | default

/-- The writer fails on `default`, so its tag never reaches the wire; the reader accepts
every tag it does not know as `default`. -/
def mknoddata3 (memory : Allocator) : Tagged Error UInt32 Mknoddata3 where
  tag
    | .nf3chr _ => Ftype3.nf3chr.asU32
    | .nf3blk _ => Ftype3.nf3blk.asU32
    | .nf3sock _ => Ftype3.nf3sock.asU32
    | .nf3fifo _ => Ftype3.nf3fifo.asU32
    | .default => 0xFFFFFFFF
  size
    | .nf3chr val | .nf3blk val => packedSize val
    | .nf3sock val | .nf3fifo val => packedSize val
    | .default => 0
  write
    | .nf3chr val | .nf3blk val => pack val
    | .nf3sock val | .nf3fifo val => pack val
    | .default => throw (.invalidEnumValue 0xFFFFFFFF)
  read v :=
    if v = 4 then (XdrCodec.codecIn memory).readAs .nf3chr
    else if v = 3 then (XdrCodec.codecIn memory).readAs .nf3blk
    else if v = 6 then (XdrCodec.codecIn memory).readAs .nf3sock
    else if v = 7 then (XdrCodec.codecIn memory).readAs .nf3fifo
    else pure (.default, 0)
  requests v :=
    if v = 4 ∨ v = 3 then requests Devicedata3
    else if v = 6 ∨ v = 7 then requests Sattr3
    else fun _ => []

instance : XdrCodec Mknoddata3 :=
  ⟨fun memory => (mknoddata3 memory).codec (XdrCodec.codecIn memory)⟩

instance : StatusSpec Mknoddata3 where
  valid
    | .nf3chr val | .nf3blk val => XdrSpec.valid val
    | .nf3sock val | .nf3fifo val => XdrSpec.valid val
    | .default => false
  padding
    | .nf3chr val | .nf3blk val => XdrSpec.padding val
    | .nf3sock val | .nf3fifo val => XdrSpec.padding val
    | .default => []

theorem mknoddata3_chr : (mknoddata3 .unlimited).Arm 4 XdrCodec.codec .nf3chr :=
  ⟨rfl, fun _ => rfl, fun _ => rfl, fun _ => rfl⟩

theorem mknoddata3_blk : (mknoddata3 .unlimited).Arm 3 XdrCodec.codec .nf3blk :=
  ⟨rfl, fun _ => rfl, fun _ => rfl, fun _ => rfl⟩

theorem mknoddata3_sock : (mknoddata3 .unlimited).Arm 6 XdrCodec.codec .nf3sock :=
  ⟨rfl, fun _ => rfl, fun _ => rfl, fun _ => rfl⟩

theorem mknoddata3_fifo : (mknoddata3 .unlimited).Arm 7 XdrCodec.codec .nf3fifo :=
  ⟨rfl, fun _ => rfl, fun _ => rfl, fun _ => rfl⟩

theorem mknoddata3_other {v : UInt32} (h4 : v ≠ 4) (h3 : v ≠ 3) (h6 : v ≠ 6) (h7 : v ≠ 7) :
    (mknoddata3 .unlimited).read v = pure (.default, 0) := by
  simp [mknoddata3, h4, h3, h6, h7]

theorem mknoddata3_consumes : (mknoddata3 .unlimited).Consumes 4 := by
  intro v b d n s hr
  by_cases h4 : v = 4
  · exact mknoddata3_chr.consumes LawfulXdr.consumes (h4 ▸ hr)
  by_cases h3 : v = 3
  · exact mknoddata3_blk.consumes LawfulXdr.consumes (h3 ▸ hr)
  by_cases h6 : v = 6
  · exact mknoddata3_sock.consumes LawfulXdr.consumes (h6 ▸ hr)
  by_cases h7 : v = 7
  · exact mknoddata3_fifo.consumes LawfulXdr.consumes (h7 ▸ hr)
  rw [mknoddata3_other h4 h3 h6 h7] at hr
  cases hr
  exact ⟨[], rfl, rfl, dvd_zero 4⟩

theorem mknoddata3_failsWith : (mknoddata3 .unlimited).FailsWith IsDecodeError := by
  intro v b e hr
  by_cases h4 : v = 4
  · exact mknoddata3_chr.failsWith LawfulXdr.failsWith (h4 ▸ hr)
  by_cases h3 : v = 3
  · exact mknoddata3_blk.failsWith LawfulXdr.failsWith (h3 ▸ hr)
  by_cases h6 : v = 6
  · exact mknoddata3_sock.failsWith LawfulXdr.failsWith (h6 ▸ hr)
  by_cases h7 : v = 7
  · exact mknoddata3_fifo.failsWith LawfulXdr.failsWith (h7 ▸ hr)
  rw [mknoddata3_other h4 h3 h6 h7] at hr
  cases hr

theorem mknoddata3_exactAt {d : Mknoddata3} (hd : d ≠ .default) :
    (mknoddata3 .unlimited).ExactAt 4 StatusSpec.padding d := by
  intro v b n s hr
  by_cases h4 : v = 4
  · subst h4
    exact mknoddata3_chr.exact ExactXdr.exact (fun _ => rfl) hr
  by_cases h3 : v = 3
  · subst h3
    exact mknoddata3_blk.exact ExactXdr.exact (fun _ => rfl) hr
  by_cases h6 : v = 6
  · subst h6
    exact mknoddata3_sock.exact ExactXdr.exact (fun _ => rfl) hr
  by_cases h7 : v = 7
  · subst h7
    exact mknoddata3_fifo.exact ExactXdr.exact (fun _ => rfl) hr
  rw [mknoddata3_other h4 h3 h6 h7] at hr
  cases hr
  exact absurd rfl hd

theorem mknoddata3_encodes {v : Mknoddata3} (hv : XdrSpec.valid v = true) :
    ∃ bs, (mknoddata3 .unlimited).Encodes 4 v bs := by
  cases v with
  | nf3chr val =>
    obtain ⟨bs, hbs⟩ := LawfulXdr.encodes val hv
    exact ⟨bs, mknoddata3_chr.encodes hbs⟩
  | nf3blk val =>
    obtain ⟨bs, hbs⟩ := LawfulXdr.encodes val hv
    exact ⟨bs, mknoddata3_blk.encodes hbs⟩
  | nf3sock val =>
    obtain ⟨bs, hbs⟩ := LawfulXdr.encodes val hv
    exact ⟨bs, mknoddata3_sock.encodes hbs⟩
  | nf3fifo val =>
    obtain ⟨bs, hbs⟩ := LawfulXdr.encodes val hv
    exact ⟨bs, mknoddata3_fifo.encodes hbs⟩
  | default => cases hv

instance : LawfulXdr Mknoddata3 where
  encodes v hv := by
    obtain ⟨bs, hbs⟩ := mknoddata3_encodes hv
    exact ⟨_, Tagged.Encodes.codec (u32_encodes _) hbs⟩
  consumes := Tagged.Consumes.codec (LawfulXdr.consumes (α := UInt32)) mknoddata3_consumes
  failsWith := Tagged.FailsWith.codec (LawfulXdr.failsWith (α := UInt32)) mknoddata3_failsWith

theorem mknoddata3_rationed (memory : Allocator) :
    (mknoddata3 .unlimited).RationedBy memory.grants .outOfMemory (mknoddata3 memory) := by
  intro v
  by_cases h4 : v = 4
  · subst h4
    exact payload_rationed memory Mknoddata3.nf3chr
  by_cases h3 : v = 3
  · subst h3
    exact payload_rationed memory Mknoddata3.nf3blk
  by_cases h6 : v = 6
  · subst h6
    exact payload_rationed memory Mknoddata3.nf3sock
  by_cases h7 : v = 7
  · subst h7
    exact payload_rationed memory Mknoddata3.nf3fifo
  simp only [mknoddata3, h4, h3, h6, h7, or_self, ↓reduceIte]
  exact .free _

instance : RationedXdr Mknoddata3 :=
  ⟨fun memory => Tagged.RationedBy.codec (RationedXdr.rationed (α := UInt32) memory)
    (mknoddata3_rationed memory)⟩

/-! ## Directory listings -/

structure Entry3 where
  fileid : Fileid3
  name : Filename3
  cookie : Cookie3
  deriving DecidableEq

instance : XdrStruct Entry3 (Fileid3 × Filename3 × Cookie3) :=
  ⟨⟨fun v => (v.fileid, v.name, v.cookie),
    fun ⟨a, b, c⟩ => ⟨a, b, c⟩, fun _ => rfl, fun _ => rfl⟩⟩

structure Entryplus3 where
  fileid : Fileid3
  name : Filename3
  cookie : Cookie3
  nameAttributes : PostOpAttr
  nameHandle : PostOpFh3

instance : XdrStruct Entryplus3 (Fileid3 × Filename3 × Cookie3 × PostOpAttr × PostOpFh3) :=
  ⟨⟨fun v => (v.fileid, v.name, v.cookie, v.nameAttributes, v.nameHandle),
    fun ⟨a, b, c, d, e⟩ => ⟨a, b, c, d, e⟩, fun _ => rfl, fun _ => rfl⟩⟩

structure Dirlist3 where
  entries : XdrList Entry3
  eof : Bool

instance : XdrStruct Dirlist3 (XdrList Entry3 × Bool) :=
  ⟨⟨fun v => (v.entries, v.eof), fun ⟨a, b⟩ => ⟨a, b⟩, fun _ => rfl, fun _ => rfl⟩⟩

structure Dirlistplus3 where
  entries : XdrList Entryplus3
  eof : Bool

instance : XdrStruct Dirlistplus3 (XdrList Entryplus3 × Bool) :=
  ⟨⟨fun v => (v.entries, v.eof), fun ⟨a, b⟩ => ⟨a, b⟩, fun _ => rfl, fun _ => rfl⟩⟩

end Nfs3
