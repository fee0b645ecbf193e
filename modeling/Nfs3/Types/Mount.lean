import Nfs3.Types.XdrLaws

/-!
# MOUNT messages
-/
namespace Nfs3.Mount

open ByteCodec

structure Fhandle3 where
  val : Opaque
  deriving DecidableEq

instance : XdrStruct Fhandle3 Opaque :=
  ⟨⟨fun v => v.val, fun a => ⟨a⟩, fun _ => rfl, fun _ => rfl⟩⟩

structure Dirpath where
  val : Opaque
  deriving DecidableEq

instance : XdrStruct Dirpath Opaque :=
  ⟨⟨fun v => v.val, fun a => ⟨a⟩, fun _ => rfl, fun _ => rfl⟩⟩

structure Name where
  val : Opaque
  deriving DecidableEq

instance : XdrStruct Name Opaque :=
  ⟨⟨fun v => v.val, fun a => ⟨a⟩, fun _ => rfl, fun _ => rfl⟩⟩

inductive Mountstat3
  | mnt3Ok
  | mnt3errPerm
  | mnt3errNoent
  | mnt3errIo
  | mnt3errAcces
  | mnt3errNotdir
  | mnt3errInval
  | mnt3errNametoolong
  | mnt3errNotsupp
  | mnt3errServerfault
  deriving DecidableEq

def Mountstat3.asU32 : Mountstat3 → UInt32
  | .mnt3Ok => 0
  | .mnt3errPerm => 1
  | .mnt3errNoent => 2
  | .mnt3errIo => 5
  | .mnt3errAcces => 13
  | .mnt3errNotdir => 20
  | .mnt3errInval => 22
  | .mnt3errNametoolong => 63
  | .mnt3errNotsupp => 10004
  | .mnt3errServerfault => 10006

instance : XdrEnum Mountstat3 where
  variants :=
    [.mnt3Ok, .mnt3errPerm, .mnt3errNoent, .mnt3errIo, .mnt3errAcces, .mnt3errNotdir,
      .mnt3errInval, .mnt3errNametoolong, .mnt3errNotsupp, .mnt3errServerfault]
  asU32 := Mountstat3.asU32
  complete v := by cases v <;> decide
  distinct := by decide

structure Mountres3Ok where
  fhandle : Fhandle3
  authFlavors : List UInt32

instance : XdrStruct Mountres3Ok (Fhandle3 × List UInt32) :=
  ⟨⟨fun v => (v.fhandle, v.authFlavors), fun ⟨a, b⟩ => ⟨a, b⟩, fun _ => rfl, fun _ => rfl⟩⟩

inductive Mountres3
  | ok (ok : Mountres3Ok)
  | err (stat : Mountstat3)

def Mountres3.tag : Mountres3 → Mountstat3
  | .ok _ => .mnt3Ok
  | .err stat => stat

instance : XdrStatus Mountres3 Mountstat3 where
  tagged memory :=
    { tag := Mountres3.tag
      size := fun
        | .ok ok => packedSize ok
        | .err _ => 0
      write := fun
        | .ok ok => pack ok
        | .err _ => pure 0
      read := fun stat => do
        if stat = .mnt3Ok then
          let (ok, okLen) ← unpackIn (α := Mountres3Ok) memory
          pure (.ok ok, okLen)
        else
          pure (.err stat, 0)
      requests := fun stat => if stat = .mnt3Ok then requests Mountres3Ok else fun _ => [] }

structure Mountbody where
  mlHostname : Name
  mlDirectory : Dirpath

instance : XdrStruct Mountbody (Name × Dirpath) :=
  ⟨⟨fun v => (v.mlHostname, v.mlDirectory), fun ⟨a, b⟩ => ⟨a, b⟩, fun _ => rfl, fun _ => rfl⟩⟩

structure ExportNode where
  exDir : Dirpath
  exGroups : XdrList Name

instance : XdrStruct ExportNode (Dirpath × XdrList Name) :=
  ⟨⟨fun v => (v.exDir, v.exGroups), fun ⟨a, b⟩ => ⟨a, b⟩, fun _ => rfl, fun _ => rfl⟩⟩

inductive MountProgram
  | mountproc3Null
  | mountproc3Mnt
  | mountproc3Dump
  | mountproc3Umnt
  | mountproc3Umntall
  | mountproc3Export
  deriving DecidableEq

def MountProgram.asU32 : MountProgram → UInt32
  | .mountproc3Null => 0
  | .mountproc3Mnt => 1
  | .mountproc3Dump => 2
  | .mountproc3Umnt => 3
  | .mountproc3Umntall => 4
  | .mountproc3Export => 5

instance : XdrEnum MountProgram where
  variants :=
    [.mountproc3Null, .mountproc3Mnt, .mountproc3Dump, .mountproc3Umnt, .mountproc3Umntall,
      .mountproc3Export]
  asU32 := MountProgram.asU32
  complete v := by cases v <;> decide
  distinct := by decide

abbrev Mountlist := XdrList Mountbody

abbrev Exports := XdrList ExportNode

/-! ## Laws of the result -/

instance : StatusSpec Mountres3 where
  valid
    | .ok ok => XdrSpec.valid ok
    | .err stat => stat != .mnt3Ok
  padding
    | .ok ok => XdrSpec.padding ok
    | .err _ => []

instance : ExactStatus Mountres3 where
  arms tag := by
    by_cases htag : tag = .mnt3Ok
    · subst htag
      refine .mk ⟨inferInstance, inferInstance⟩ (fun u : Mountres3Ok => .ok u)
        ⟨rfl, fun _ => rfl, fun _ => rfl, fun _ => rfl⟩ (fun _ => rfl) fun v hv ht => ?_
      cases v with
      | ok ok => exact ⟨ok, rfl, hv⟩
      | err stat =>
        have hne : stat ≠ .mnt3Ok := by simpa [StatusSpec.valid] using hv
        exact absurd ht hne
    · refine .void (.err tag) ?_ rfl rfl rfl rfl (fun w hw => ?_)
        ⟨inferInstance, inferInstance⟩
      · simp only [XdrStatus.tagged, htag, ↓reduceIte]
      · cases w with
        | ok ok => exact absurd hw.symm htag
        | err stat => exact congrArg _ hw

instance : RationedStatus Mountres3 where
  rationed memory tag := by
    by_cases htag : tag = .mnt3Ok
    · subst htag
      exact payload_rationed memory Mountres3.ok
    · simp only [XdrStatus.tagged, htag, ↓reduceIte]
      exact .free _

end Nfs3.Mount
