import Nfs3.Types.XdrLaws

/-!
# PORTMAP messages
-/
namespace Nfs3.Portmap

structure Mapping where
  prog : UInt32
  vers : UInt32
  prot : UInt32
  port : UInt32
  deriving DecidableEq

instance : XdrStruct Mapping (UInt32 × UInt32 × UInt32 × UInt32) :=
  ⟨⟨fun v => (v.prog, v.vers, v.prot, v.port),
    fun ⟨a, b, c, d⟩ => ⟨a, b, c, d⟩, fun _ => rfl, fun _ => rfl⟩⟩

structure CallArgs where
  prog : UInt32
  vers : UInt32
  proc : UInt32
  args : Opaque

instance : XdrStruct CallArgs (UInt32 × UInt32 × UInt32 × Opaque) :=
  ⟨⟨fun v => (v.prog, v.vers, v.proc, v.args),
    fun ⟨a, b, c, d⟩ => ⟨a, b, c, d⟩, fun _ => rfl, fun _ => rfl⟩⟩

structure CallResult where
  port : UInt32
  res : Opaque

instance : XdrStruct CallResult (UInt32 × Opaque) :=
  ⟨⟨fun v => (v.port, v.res), fun ⟨a, b⟩ => ⟨a, b⟩, fun _ => rfl, fun _ => rfl⟩⟩

inductive PmapProg
  | pmapprocNull
  | pmapprocSet
  | pmapprocUnset
  | pmapprocGetport
  | pmapprocDump
  | pmapprocCallit
  deriving DecidableEq

def PmapProg.asU32 : PmapProg → UInt32
  | .pmapprocNull => 0
  | .pmapprocSet => 1
  | .pmapprocUnset => 2
  | .pmapprocGetport => 3
  | .pmapprocDump => 4
  | .pmapprocCallit => 5

instance : XdrEnum PmapProg where
  variants :=
    [.pmapprocNull, .pmapprocSet, .pmapprocUnset, .pmapprocGetport, .pmapprocDump,
      .pmapprocCallit]
  asU32 := PmapProg.asU32
  complete v := by cases v <;> decide
  distinct := by decide

abbrev Pmaplist := XdrList Mapping

end Nfs3.Portmap
