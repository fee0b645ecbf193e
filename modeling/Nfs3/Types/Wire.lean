import Nfs3.Types.Mount
import Nfs3.Types.NfsArgs
import Nfs3.Types.Portmap
import Nfs3.Types.Rpc

/-!
# The wire format as a whole

`WireType` names every type that can appear in an RPC, MOUNT, PORTMAP or NFS message,
closed under the generic ones. Round trip and exactness hold for all of them, the latter
as long as there is memory for the lengths that the input announces.
-/
namespace Nfs3

open ByteOrder ByteCodec

/-- A type together with its codec, the description of its valid values and padding, and
the proof that the codec fits the description. -/
structure Wire where
  Carrier : Type
  [codec : XdrCodec Carrier]
  [spec : XdrSpec Carrier]
  [lawful : LawfulXdr Carrier]
  [rationed : RationedXdr Carrier]

attribute [instance] Wire.codec Wire.spec Wire.lawful Wire.rationed

def Wire.of (α : Type) [XdrCodec α] [XdrSpec α] [LawfulXdr α] [RationedXdr α] : Wire := ⟨α⟩

theorem Wire.of_exact (α : Type) [XdrCodec α] [XdrSpec α] [LawfulXdr α] [RationedXdr α]
    [h : ExactXdr α] : ExactXdr (Wire.of α).Carrier := h

inductive WireType
  | u32 | u64 | bool | vecU32 | opaqueData | void
  | array (n : ℕ)
  | list (T : WireType)
  | nfs3Option (T : WireType)
  | nfs3Result (T E : WireType)
  | fragmentHeader | msgType | replyStat | acceptStat | rejectStat | authStat | authFlavor
  | opaqueAuth | authUnix | callBody | acceptedReply | acceptStatData | rejectedReply | replyBody
  | rpcMsg | msgBody
  | fhandle3 | dirpath | name | mountstat3 | mountres3Ok | mountres3 | mountbody | exportNode
  | mountProgram
  | mapping | callArgs | callResult | pmapProg
  | access3Args | access3Resfail | access3Resok | commit3Args | commit3Resfail | commit3Resok
  | create3Args | create3Resfail | create3Resok | fsinfo3Args | fsinfo3Resfail | fsinfo3Resok
  | fsstat3Args | fsstat3Resfail | fsstat3Resok | getattr3Args | getattr3Resok | link3Args
  | link3Resfail | link3Resok | lookup3Args | lookup3Resfail | lookup3Resok | mkdir3Args
  | mkdir3Resfail | mkdir3Resok | mknod3Args | mknod3Resfail | mknod3Resok | pathconf3Args
  | pathconf3Resfail | pathconf3Resok | read3Args | read3Resfail | read3Resok | readdir3Args
  | readdir3Resfail | readdir3Resok | readdirplus3Args | readdirplus3Resfail | readdirplus3Resok
  | readlink3Args | readlink3Resfail | readlink3Resok | remove3Args | remove3Resfail
  | remove3Resok | rename3Args | rename3Resfail | rename3Resok | rmdir3Args | rmdir3Resfail
  | rmdir3Resok | setattr3Args | setattr3Resfail | setattr3Resok | symlink3Args | symlink3Resfail
  | symlink3Resok | write3Args | write3Resfail | write3Resok | cookieverf3 | createhow3
  | createmode3 | createverf3 | devicedata3 | dirlist3 | dirlistplus3 | diropargs3 | entry3
  | entryplus3 | fattr3 | filename3 | ftype3 | mknoddata3 | nfsFh3 | nfspath3 | nfsstat3
  | nfstime3 | sattr3 | setAtime | setMtime | specdata3 | stableHow | symlinkdata3 | wccAttr
  | wccData | writeverf3 | nfsProgram

namespace WireType

def wire : WireType → Wire
  | .u32 => .of UInt32
  | .u64 => .of UInt64
  | .bool => .of Bool
  | .vecU32 => .of (List UInt32)
  | .opaqueData => .of Opaque
  | .void => .of Void
  | .array n => .of (Vector UInt8 n)
  | .list T => .of (XdrList T.wire.Carrier)
  | .nfs3Option T => .of (Nfs3Option T.wire.Carrier)
  | .nfs3Result T E => .of (Nfs3Result T.wire.Carrier E.wire.Carrier)
  | .fragmentHeader => .of FragmentHeader
  | .msgType => .of MsgType
  | .replyStat => .of ReplyStat
  | .acceptStat => .of AcceptStat
  | .rejectStat => .of RejectStat
  | .authStat => .of AuthStat
  | .authFlavor => .of AuthFlavor
  | .opaqueAuth => .of OpaqueAuth
  | .authUnix => .of AuthUnix
  | .callBody => .of CallBody
  | .acceptedReply => .of AcceptedReply
  | .acceptStatData => .of AcceptStatData
  | .rejectedReply => .of RejectedReply
  | .replyBody => .of ReplyBody
  | .rpcMsg => .of RpcMsg
  | .msgBody => .of MsgBody
  | .fhandle3 => .of Mount.Fhandle3
  | .dirpath => .of Mount.Dirpath
  | .name => .of Mount.Name
  | .mountstat3 => .of Mount.Mountstat3
  | .mountres3Ok => .of Mount.Mountres3Ok
  | .mountres3 => .of Mount.Mountres3
  | .mountbody => .of Mount.Mountbody
  | .exportNode => .of Mount.ExportNode
  | .mountProgram => .of Mount.MountProgram
  | .mapping => .of Portmap.Mapping
  | .callArgs => .of Portmap.CallArgs
  | .callResult => .of Portmap.CallResult
  | .pmapProg => .of Portmap.PmapProg
  | .access3Args => .of Access3Args
  | .access3Resfail => .of Access3Resfail
  | .access3Resok => .of Access3Resok
  | .commit3Args => .of Commit3Args
  | .commit3Resfail => .of Commit3Resfail
  | .commit3Resok => .of Commit3Resok
  | .create3Args => .of Create3Args
  | .create3Resfail => .of Create3Resfail
  | .create3Resok => .of Create3Resok
  | .fsinfo3Args => .of Fsinfo3Args
  | .fsinfo3Resfail => .of Fsinfo3Resfail
  | .fsinfo3Resok => .of Fsinfo3Resok
  | .fsstat3Args => .of Fsstat3Args
  | .fsstat3Resfail => .of Fsstat3Resfail
  | .fsstat3Resok => .of Fsstat3Resok
  | .getattr3Args => .of Getattr3Args
  | .getattr3Resok => .of Getattr3Resok
  | .link3Args => .of Link3Args
  | .link3Resfail => .of Link3Resfail
  | .link3Resok => .of Link3Resok
  | .lookup3Args => .of Lookup3Args
  | .lookup3Resfail => .of Lookup3Resfail
  | .lookup3Resok => .of Lookup3Resok
  | .mkdir3Args => .of Mkdir3Args
  | .mkdir3Resfail => .of Mkdir3Resfail
  | .mkdir3Resok => .of Mkdir3Resok
  | .mknod3Args => .of Mknod3Args
  | .mknod3Resfail => .of Mknod3Resfail
  | .mknod3Resok => .of Mknod3Resok
  | .pathconf3Args => .of Pathconf3Args
  | .pathconf3Resfail => .of Pathconf3Resfail
  | .pathconf3Resok => .of Pathconf3Resok
  | .read3Args => .of Read3Args
  | .read3Resfail => .of Read3Resfail
  | .read3Resok => .of Read3Resok
  | .readdir3Args => .of Readdir3Args
  | .readdir3Resfail => .of Readdir3Resfail
  | .readdir3Resok => .of Readdir3Resok
  | .readdirplus3Args => .of Readdirplus3Args
  | .readdirplus3Resfail => .of Readdirplus3Resfail
  | .readdirplus3Resok => .of Readdirplus3Resok
  | .readlink3Args => .of Readlink3Args
  | .readlink3Resfail => .of Readlink3Resfail
  | .readlink3Resok => .of Readlink3Resok
  | .remove3Args => .of Remove3Args
  | .remove3Resfail => .of Remove3Resfail
  | .remove3Resok => .of Remove3Resok
  | .rename3Args => .of Rename3Args
  | .rename3Resfail => .of Rename3Resfail
  | .rename3Resok => .of Rename3Resok
  | .rmdir3Args => .of Rmdir3Args
  | .rmdir3Resfail => .of Rmdir3Resfail
  | .rmdir3Resok => .of Rmdir3Resok
  | .setattr3Args => .of Setattr3Args
  | .setattr3Resfail => .of Setattr3Resfail
  | .setattr3Resok => .of Setattr3Resok
  | .symlink3Args => .of Symlink3Args
  | .symlink3Resfail => .of Symlink3Resfail
  | .symlink3Resok => .of Symlink3Resok
  | .write3Args => .of Write3Args
  | .write3Resfail => .of Write3Resfail
  | .write3Resok => .of Write3Resok
  | .cookieverf3 => .of Cookieverf3
  | .createhow3 => .of Createhow3
  | .createmode3 => .of Createmode3
  | .createverf3 => .of Createverf3
  | .devicedata3 => .of Devicedata3
  | .dirlist3 => .of Dirlist3
  | .dirlistplus3 => .of Dirlistplus3
  | .diropargs3 => .of Diropargs3
  | .entry3 => .of Entry3
  | .entryplus3 => .of Entryplus3
  | .fattr3 => .of Fattr3
  | .filename3 => .of Filename3
  | .ftype3 => .of Ftype3
  | .mknoddata3 => .of Mknoddata3
  | .nfsFh3 => .of NfsFh3
  | .nfspath3 => .of Nfspath3
  | .nfsstat3 => .of Nfsstat3
  | .nfstime3 => .of Nfstime3
  | .sattr3 => .of Sattr3
  | .setAtime => .of SetAtime
  | .setMtime => .of SetMtime
  | .specdata3 => .of Specdata3
  | .stableHow => .of StableHow
  | .symlinkdata3 => .of Symlinkdata3
  | .wccAttr => .of WccAttr
  | .wccData => .of WccData
  | .writeverf3 => .of Writeverf3
  | .nfsProgram => .of NfsProgram

abbrev Carrier (T : WireType) : Type := T.wire.Carrier

/-- No part of the type is a `mknoddata3`. -/
def mknodFree : WireType → Bool
  | .mknoddata3 | .mknod3Args => false
  | .list T | .nfs3Option T => T.mknodFree
  | .nfs3Result T E => T.mknodFree && E.mknodFree
  | _ => true

theorem exactXdr (T : WireType) (h : T.mknodFree = true) : ExactXdr T.Carrier := by
  induction T with
  | array n => exact inferInstanceAs (ExactXdr (Vector UInt8 n))
  | list T ih =>
    have := ih h
    exact inferInstanceAs (ExactXdr (XdrList T.Carrier))
  | nfs3Option T ih =>
    have := ih h
    exact inferInstanceAs (ExactXdr (Nfs3Option T.Carrier))
  | nfs3Result T E ihT ihE =>
    have hTE : T.mknodFree = true ∧ E.mknodFree = true := by simpa [mknodFree] using h
    have := ihT hTE.1
    have := ihE hTE.2
    exact inferInstanceAs (ExactXdr (Nfs3Result T.Carrier E.Carrier))
  | mknoddata3 => cases h
  | mknod3Args => cases h
  | _ => exact Wire.of_exact _

end WireType

section Statements

variable {α : Type} [XdrCodec α] [XdrSpec α]

/-- Packing `v` succeeds, writes `n` bytes, and these are the bytes `p` except possibly
at padding positions. -/
def Repacks (v : α) (n : ℕ) (p : Bytes) : Prop :=
  ∃ bs, bs.length = n ∧ (∀ out, pack v out = .ok (n, out ++ bs)) ∧
    AgreesOff (XdrSpec.padding v) bs p

theorem repacks_of_exactAt {v : α} {b s : Bytes} {n : ℕ}
    (h : XdrCodec.codec.ExactAt 4 XdrSpec.padding v) (hu : unpack b = .ok ((v, n), s)) :
    Repacks v n (b.take n) := by
  obtain ⟨p, bs, rfl, rfl, he, hl, ha⟩ := h b n s hu
  refine ⟨bs, hl, fun out => ?_, by simpa using ha⟩
  rw [← hl]
  exact he.writes out

theorem take_of_consumes {v : α} {b s : Bytes} {n : ℕ} [LawfulXdr α]
    (hu : unpack b = .ok ((v, n), s)) : n ≤ b.length ∧ s = b.drop n ∧ 4 ∣ n := by
  obtain ⟨p, rfl, rfl, hn⟩ := LawfulXdr.consumes b v n s hu
  exact ⟨by simp, by simp, hn⟩

end Statements

theorem mknod3Args_exactAt {v : Mknod3Args} (hv : v.what ≠ .default) :
    XdrCodec.codec.ExactAt 4 XdrSpec.padding v := by
  have hwhat : XdrCodec.codec.ExactAt 4 XdrSpec.padding v.what :=
    Tagged.ExactAt.codec (ExactXdr.exact (α := UInt32)) (mknoddata3_exactAt hv)
  exact Codec.ExactAt.iso (Codec.ExactAt.seq (ExactXdr.exact.at v.where_) hwhat)

/-- Every valid value of every wire type packs to exactly `packedSize` bytes, and these
unpack to the value again whatever follows them. -/
theorem wire_round_trip (T : WireType) (v : T.Carrier) (hv : XdrSpec.valid v = true) :
    4 ∣ packedSize v ∧ ∃ bs : Bytes, bs.length = packedSize v ∧
      (∀ out, pack v out = .ok (packedSize v, out ++ bs)) ∧
      ∀ s, unpack (bs ++ s) = .ok ((v, packedSize v), s) := by
  obtain ⟨bs, he⟩ := LawfulXdr.encodes v hv
  have hsize : packedSize v = bs.length := he.size_eq
  rw [hsize]
  exact ⟨he.aligned, bs, rfl, he.writes, he.reads⟩

theorem wire_round_trip_file_handle :
    let fh : NfsFh3 := ⟨⟨[1, 2, 3, 4, 5]⟩⟩
    packedSize fh = 12 ∧ ∃ bs : Bytes, bs.length = 12 ∧
      ∀ s, unpack (bs ++ s) = .ok ((fh, 12), s) := by
  obtain ⟨-, bs, hlen, -, hread⟩ := wire_round_trip .nfsFh3 ⟨⟨[1, 2, 3, 4, 5]⟩⟩ rfl
  exact ⟨rfl, bs, hlen, hread⟩

/-- A successful read consumed exactly the reported, aligned number of bytes and its
result packs to them again; a failing one reports truncated input or an unknown
discriminant. Only a `mknoddata3::default` cannot be packed again. -/
def DecodesExactly (memory : Allocator) (T : WireType) (b : Bytes) : Prop :=
  (∀ (v : T.Carrier) n s, unpackIn memory b = .ok ((v, n), s) →
    n ≤ b.length ∧ s = b.drop n ∧ 4 ∣ n ∧ (T.mknodFree = true → Repacks v n (b.take n))) ∧
  (∀ (v : Mknod3Args) n s, unpackIn memory b = .ok ((v, n), s) → v.what ≠ .default →
    Repacks v n (b.take n)) ∧
  ∀ e, unpackIn (α := T.Carrier) memory b = .error e →
    e = .io ∨ ∃ value, e = .invalidEnumValue value

theorem decodesExactly_unlimited (T : WireType) (b : Bytes) :
    DecodesExactly .unlimited T b := by
  refine ⟨fun v n s hu => ?_, fun v n s hu hv => ?_, fun e he => ?_⟩
  · obtain ⟨hle, hs, hn⟩ := take_of_consumes hu
    refine ⟨hle, hs, hn, fun hT => ?_⟩
    have := T.exactXdr hT
    exact repacks_of_exactAt (ExactXdr.exact.at v) hu
  · exact repacks_of_exactAt (mknod3Args_exactAt hv) hu
  · exact LawfulXdr.failsWith (α := T.Carrier) b e he

/-- A buffer is allocated at the length its announcement claims, before any of the data
has been read: unpacking ends the process exactly when that is refused. -/
theorem wire_decoder_exact_iff (memory : Allocator) (T : WireType) (b : Bytes) :
    DecodesExactly memory T b ↔
      ∀ size ∈ requests T.Carrier b, memory.grants size = true := by
  constructor
  · rintro ⟨-, -, hfails⟩ size hsize
    by_contra hrefused
    have hstop : unpackIn (α := T.Carrier) memory b = .error .outOfMemory :=
      unpackIn_of_refused hsize (Bool.eq_false_of_not_eq_true hrefused)
    simpa using hfails _ hstop
  · intro hgranted
    obtain ⟨hexact, hmknod, hfails⟩ := decodesExactly_unlimited T b
    have hsame : unpackIn (α := T.Carrier) memory b = unpackIn .unlimited b :=
      unpackIn_of_granted hgranted
    refine ⟨fun v n s hu => hexact v n s (hsame ▸ hu), fun v n s hu => hmknod v n s ?_,
      fun e he => hfails e (hsame ▸ he)⟩
    exact (RationedXdr.rationed (α := Mknod3Args) memory).ok_of_ok hu

theorem wire_decoder_out_of_memory :
    unpackIn (α := List UInt32) .target32 [255, 255, 255, 255] = .error .outOfMemory ∧
      unpackIn (α := Opaque) .target32 [255, 255, 255, 255] = .error .outOfMemory ∧
      ¬∀ memory T b, DecodesExactly memory T b := by
  refine ⟨rfl, rfl, fun h => ?_⟩
  have hvec := (h .target32 .vecU32 [255, 255, 255, 255]).2.2 .outOfMemory rfl
  simp at hvec

end Nfs3
