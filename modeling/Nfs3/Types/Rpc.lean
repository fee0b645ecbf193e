import Nfs3.Types.XdrLaws

/-!
# RPC messages
-/
namespace Nfs3

open ByteOrder ByteCodec

/-! ## Fragment header -/

structure FragmentHeader where
  header : UInt32
  deriving DecidableEq

instance : XdrStruct FragmentHeader UInt32 :=
  ⟨⟨fun v => v.header, fun a => ⟨a⟩, fun _ => rfl, fun _ => rfl⟩⟩

namespace FragmentHeader

def eofFlag : UInt32 := 0x80000000

def mask : UInt32 := 0x7FFFFFFF

/-- `fragment_header::new`, `none` where its assertion fails. -/
def new (length : UInt32) (eof : Bool) : Option FragmentHeader :=
  if length ≤ mask then some ⟨if eof then length ||| eofFlag else length⟩ else none

def eof (h : FragmentHeader) : Bool := h.header &&& eofFlag != 0

def fragmentLength (h : FragmentHeader) : UInt32 := h.header &&& mask

/-- `into_xdr_buf`, the four bytes of `to_be_bytes`. -/
def intoXdrBuf (h : FragmentHeader) : Bytes := toBe 4 h.header.toNat

/-- `From<[u8; 4]>`. -/
def ofBytes (bytes : Bytes) : FragmentHeader := ⟨UInt32.ofNat (ofBe bytes)⟩

end FragmentHeader

/-! ## Messages -/

inductive MsgType
  | call
  | reply
  deriving DecidableEq

def MsgType.asU32 : MsgType → UInt32
  | .call => 0
  | .reply => 1

instance : XdrEnum MsgType where
  variants := [.call, .reply]
  asU32 := MsgType.asU32
  complete v := by cases v <;> decide
  distinct := by decide

inductive ReplyStat
  | msgAccepted
  | msgDenied
  deriving DecidableEq

def ReplyStat.asU32 : ReplyStat → UInt32
  | .msgAccepted => 0
  | .msgDenied => 1

instance : XdrEnum ReplyStat where
  variants := [.msgAccepted, .msgDenied]
  asU32 := ReplyStat.asU32
  complete v := by cases v <;> decide
  distinct := by decide

inductive AcceptStat
  | success
  | progUnavail
  | progMismatch
  | procUnavail
  | garbageArgs
  | systemErr
  deriving DecidableEq

def AcceptStat.asU32 : AcceptStat → UInt32
  | .success => 0
  | .progUnavail => 1
  | .progMismatch => 2
  | .procUnavail => 3
  | .garbageArgs => 4
  | .systemErr => 5

instance : XdrEnum AcceptStat where
  variants := [.success, .progUnavail, .progMismatch, .procUnavail, .garbageArgs, .systemErr]
  asU32 := AcceptStat.asU32
  complete v := by cases v <;> decide
  distinct := by decide

inductive RejectStat
  | rpcMismatch
  | authError
  deriving DecidableEq

def RejectStat.asU32 : RejectStat → UInt32
  | .rpcMismatch => 0
  | .authError => 1

instance : XdrEnum RejectStat where
  variants := [.rpcMismatch, .authError]
  asU32 := RejectStat.asU32
  complete v := by cases v <;> decide
  distinct := by decide

inductive AuthStat
  | authOk
  | authBadcred
  | authRejectedcred
  | authBadverf
  | authRejectedverf
  | authTooweak
  | authInvalidresp
  | authFailed
  deriving DecidableEq

def AuthStat.asU32 : AuthStat → UInt32
  | .authOk => 0
  | .authBadcred => 1
  | .authRejectedcred => 2
  | .authBadverf => 3
  | .authRejectedverf => 4
  | .authTooweak => 5
  | .authInvalidresp => 6
  | .authFailed => 7

instance : XdrEnum AuthStat where
  variants :=
    [.authOk, .authBadcred, .authRejectedcred, .authBadverf, .authRejectedverf, .authTooweak,
      .authInvalidresp, .authFailed]
  asU32 := AuthStat.asU32
  complete v := by cases v <;> decide
  distinct := by decide

inductive AuthFlavor
  | authNull
  | authUnix
  | authShort
  | authDes
  deriving DecidableEq

def AuthFlavor.asU32 : AuthFlavor → UInt32
  | .authNull => 0
  | .authUnix => 1
  | .authShort => 2
  | .authDes => 3

instance : XdrEnum AuthFlavor where
  variants := [.authNull, .authUnix, .authShort, .authDes]
  asU32 := AuthFlavor.asU32
  complete v := by cases v <;> decide
  distinct := by decide

structure OpaqueAuth where
  flavor : AuthFlavor
  body : Opaque
  deriving DecidableEq

instance : XdrStruct OpaqueAuth (AuthFlavor × Opaque) :=
  ⟨⟨fun v => (v.flavor, v.body), fun ⟨a, b⟩ => ⟨a, b⟩, fun _ => rfl, fun _ => rfl⟩⟩

structure AuthUnix where
  stamp : UInt32
  machinename : Opaque
  uid : UInt32
  gid : UInt32
  gids : List UInt32
  deriving DecidableEq

instance : XdrStruct AuthUnix (UInt32 × Opaque × UInt32 × UInt32 × List UInt32) :=
  ⟨⟨fun v => (v.stamp, v.machinename, v.uid, v.gid, v.gids),
    fun ⟨a, b, c, d, e⟩ => ⟨a, b, c, d, e⟩, fun _ => rfl, fun _ => rfl⟩⟩

structure CallBody where
  rpcvers : UInt32
  prog : UInt32
  vers : UInt32
  proc : UInt32
  cred : OpaqueAuth
  verf : OpaqueAuth

instance : XdrStruct CallBody (UInt32 × UInt32 × UInt32 × UInt32 × OpaqueAuth × OpaqueAuth) :=
  ⟨⟨fun v => (v.rpcvers, v.prog, v.vers, v.proc, v.cred, v.verf),
    fun ⟨a, b, c, d, e, f⟩ => ⟨a, b, c, d, e, f⟩, fun _ => rfl, fun _ => rfl⟩⟩

inductive AcceptStatData
  | success
  | progUnavail
  | progMismatch (low high : UInt32)
  | procUnavail
  | garbageArgs
  | systemErr
  deriving DecidableEq

def AcceptStatData.tag : AcceptStatData → AcceptStat
  | .success => .success
  | .progUnavail => .progUnavail
  | .progMismatch _ _ => .progMismatch
  | .procUnavail => .procUnavail
  | .garbageArgs => .garbageArgs
  | .systemErr => .systemErr

/-- Only a version mismatch carries a payload. -/
instance : XdrStatus AcceptStatData AcceptStat where
  tagged memory :=
    { tag := AcceptStatData.tag
      size := fun
        | .progMismatch _ _ => 8
        | _ => 0
      write := fun
        | .progMismatch low high => pack (low, high)
        | _ => pure 0
      read := fun
        | .success => pure (.success, 0)
        | .progMismatch => do
          let ((low, high), len) ← unpackIn (α := UInt32 × UInt32) memory
          pure (.progMismatch low high, len)
        | .progUnavail => pure (.progUnavail, 0)
        | .procUnavail => pure (.procUnavail, 0)
        | .garbageArgs => pure (.garbageArgs, 0)
        | .systemErr => pure (.systemErr, 0)
      requests := fun
        | .progMismatch => requests (UInt32 × UInt32)
        | _ => fun _ => [] }

inductive RejectedReply
  | rpcMismatch (low high : UInt32)
  | authError (authStat : AuthStat)
  deriving DecidableEq

def RejectedReply.tag : RejectedReply → RejectStat
  | .rpcMismatch _ _ => .rpcMismatch
  | .authError _ => .authError

instance : XdrStatus RejectedReply RejectStat where
  tagged memory :=
    { tag := RejectedReply.tag
      size := fun
        | .rpcMismatch _ _ => 8
        | .authError _ => 4
      write := fun
        | .rpcMismatch low high => pack (low, high)
        | .authError authStat => pack authStat
      read := fun
        | .rpcMismatch => do
          let ((low, high), len) ← unpackIn (α := UInt32 × UInt32) memory
          pure (.rpcMismatch low high, len)
        | .authError => do
          let (authStat, len) ← unpackIn (α := AuthStat) memory
          pure (.authError authStat, len)
      requests := fun
        | .rpcMismatch => requests (UInt32 × UInt32)
        | .authError => requests AuthStat }

structure AcceptedReply where
  verf : OpaqueAuth
  replyData : AcceptStatData

instance : XdrStruct AcceptedReply (OpaqueAuth × AcceptStatData) :=
  ⟨⟨fun v => (v.verf, v.replyData), fun ⟨a, b⟩ => ⟨a, b⟩, fun _ => rfl, fun _ => rfl⟩⟩

inductive ReplyBody
  | msgAccepted (reply : AcceptedReply)
  | msgDenied (reply : RejectedReply)

instance : XdrUnion ReplyBody (AcceptedReply ⊕ RejectedReply) where
  arms memory := (xdrArm memory _ 0).or (xdrArm memory _ 1)
  variants :=
    { toFun := fun
        | .msgAccepted reply => .inl reply
        | .msgDenied reply => .inr reply
      invFun := Sum.elim .msgAccepted .msgDenied
      left_inv := by rintro (_ | _) <;> rfl
      right_inv := by rintro (_ | _) <;> rfl }

inductive MsgBody
  | call (body : CallBody)
  | reply (body : ReplyBody)

instance : XdrUnion MsgBody (CallBody ⊕ ReplyBody) where
  arms memory := (xdrArm memory _ 0).or (xdrArm memory _ 1)
  variants :=
    { toFun := fun
        | .call body => .inl body
        | .reply body => .inr body
      invFun := Sum.elim .call .reply
      left_inv := by rintro (_ | _) <;> rfl
      right_inv := by rintro (_ | _) <;> rfl }

structure RpcMsg where
  xid : UInt32
  body : MsgBody

instance : XdrStruct RpcMsg (UInt32 × MsgBody) :=
  ⟨⟨fun v => (v.xid, v.body), fun ⟨a, b⟩ => ⟨a, b⟩, fun _ => rfl, fun _ => rfl⟩⟩

/-! ## Laws of the unions -/

instance : StatusSpec AcceptStatData where
  valid _ := true
  padding
    | .progMismatch _ _ => List.replicate 8 false
    | _ => []

instance : ExactStatus AcceptStatData where
  arms tag := by
    cases tag with
    | success =>
      exact .void .success rfl rfl rfl rfl rfl (fun w hw => by cases w <;> trivial)
        ⟨inferInstance, inferInstance⟩
    | progUnavail =>
      exact .void .progUnavail rfl rfl rfl rfl rfl (fun w hw => by cases w <;> trivial)
        ⟨inferInstance, inferInstance⟩
    | progMismatch =>
      refine .mk ⟨inferInstance, inferInstance⟩ (fun u : UInt32 × UInt32 => .progMismatch u.1 u.2)
        ⟨rfl, fun _ => rfl, fun _ => rfl, fun _ => rfl⟩ (fun _ => rfl) fun v _ hv => ?_
      cases v with
      | progMismatch low high => exact ⟨(low, high), rfl, rfl⟩
      | _ => cases hv
    | procUnavail =>
      exact .void .procUnavail rfl rfl rfl rfl rfl (fun w hw => by cases w <;> trivial)
        ⟨inferInstance, inferInstance⟩
    | garbageArgs =>
      exact .void .garbageArgs rfl rfl rfl rfl rfl (fun w hw => by cases w <;> trivial)
        ⟨inferInstance, inferInstance⟩
    | systemErr =>
      exact .void .systemErr rfl rfl rfl rfl rfl (fun w hw => by cases w <;> trivial)
        ⟨inferInstance, inferInstance⟩

instance : RationedStatus AcceptStatData where
  rationed memory tag := by
    cases tag with
    | progMismatch =>
      exact payload_rationed memory fun u : UInt32 × UInt32 => AcceptStatData.progMismatch u.1 u.2
    | _ => exact .free _

instance : StatusSpec RejectedReply where
  valid _ := true
  padding
    | .rpcMismatch _ _ => List.replicate 8 false
    | .authError _ => List.replicate 4 false

instance : ExactStatus RejectedReply where
  arms tag := by
    cases tag with
    | rpcMismatch =>
      refine .mk ⟨inferInstance, inferInstance⟩ (fun u : UInt32 × UInt32 => .rpcMismatch u.1 u.2)
        ⟨rfl, fun _ => rfl, fun _ => rfl, fun _ => rfl⟩ (fun _ => rfl) fun v _ hv => ?_
      cases v with
      | rpcMismatch low high => exact ⟨(low, high), rfl, rfl⟩
      | authError authStat => cases hv
    | authError =>
      refine .mk ⟨inferInstance, inferInstance⟩ (fun u : AuthStat => .authError u)
        ⟨rfl, fun _ => rfl, fun _ => rfl, fun _ => rfl⟩ (fun _ => rfl) fun v _ hv => ?_
      cases v with
      | rpcMismatch low high => cases hv
      | authError authStat => exact ⟨authStat, rfl, rfl⟩

instance : RationedStatus RejectedReply where
  rationed memory tag := by
    cases tag with
    | rpcMismatch =>
      exact payload_rationed memory fun u : UInt32 × UInt32 => RejectedReply.rpcMismatch u.1 u.2
    | authError => exact payload_rationed memory RejectedReply.authError

instance : ExactUnion ReplyBody where
  exact := .or (.one 0) (.one 1) (by decide)

instance : RationedUnion ReplyBody where
  rationed memory := (xdrArm_rationed memory 0).or (xdrArm_rationed memory 1)

instance : ExactUnion MsgBody where
  exact := .or (.one 0) (.one 1) (by decide)

instance : RationedUnion MsgBody where
  rationed memory := (xdrArm_rationed memory 0).or (xdrArm_rationed memory 1)

end Nfs3
