import Nfs3.Server.DispatchSound
import Nfs3.Server.RpcWire

/-!
# The RPC client

A call packs the header and the arguments into one fragment and waits for the reply to its xid.
What the client and the server write to their ends of a connection is what the other one reads.
-/
namespace Nfs3

open ByteOrder ByteCodec

/-- `Error` of the client crate, with `RpcError` in it. -/
inductive ClientError
  | io
  | xdr (err : Error)
  | unexpectedCall
  | auth
  | rpcMismatch
  | wrongLength
  | unexpectedXid
  | notFullyParsed (buf : Bytes) (pos : ℕ)
  | progUnavail
  | progMismatch
  | procUnavail
  | garbageArgs
  | systemErr

def ClientError.ofRejected : RejectedReply → ClientError
  | .rpcMismatch .. => .rpcMismatch
  | .authError _ => .auth

/-- `none` for SUCCESS, which is no error. -/
def ClientError.ofAccepted : AcceptStatData → Option ClientError
  | .success => none
  | .progUnavail => some .progUnavail
  | .progMismatch .. => some .progMismatch
  | .procUnavail => some .procUnavail
  | .garbageArgs => some .garbageArgs
  | .systemErr => some .systemErr

/-- The two directions of a connection: what was written to it, and what can be read from it. -/
structure Connection where
  sent : Bytes
  incoming : Bytes

structure RpcClient where
  xid : UInt32
  credential : OpaqueAuth
  verifier : OpaqueAuth

namespace RpcClient

/-- A value packed behind a buffer. -/
def packInto {A : Type} [XdrCodec A] (v : A) (buf : Bytes) : Except ClientError Bytes :=
  match pack v buf with
  | .error err => .error (.xdr err)
  | .ok (_, buf) => .ok buf

/-- `none` where the message is too large for a fragment. -/
def sendCall {A : Type} [XdrCodec A] (io : Connection) (msg : RpcMsg) (args : A) :
    Option (Except ClientError Connection) :=
  let totalLen := packedSize msg + packedSize args
  if totalLen % 4 ≠ 0 then some (.error .wrongLength)
  else if totalLen < 2 ^ 32 then
    (FragmentHeader.new (UInt32.ofNat totalLen) true).map fun fragmentHeader => do
      let buf ← packInto fragmentHeader []
      let buf ← packInto msg buf
      let buf ← packInto args buf
      if buf.length - 4 ≠ totalLen then .error .wrongLength
      else .ok { io with sent := io.sent ++ buf }
  else none

/-- The value in a whole reply. -/
def parseReply {R : Type} [XdrCodec R] (xid : UInt32) (buf : Bytes) : Except ClientError R :=
  match unpack (α := RpcMsg) buf with
  | .error err => .error (.xdr err)
  | .ok ((respMsg, _), rest) =>
    if respMsg.xid ≠ xid then .error .unexpectedXid
    else
      match respMsg.body with
      | .call _ => .error .unexpectedCall
      | .reply (.msgDenied r) => .error (.ofRejected r)
      | .reply (.msgAccepted reply) =>
        match ClientError.ofAccepted reply.replyData with
        | some err => .error err
        | none =>
          match unpack (α := R) rest with
          | .error err => .error (.xdr err)
          | .ok ((finalValue, _), rest) =>
            if rest ≠ [] then .error (.notFullyParsed buf (buf.length - rest.length))
            else .ok finalValue

/-- The fragment behind its header. `none` where no result comes back: the assertion that it is
the last one fails, or not all of its bytes arrive. -/
def recvFragment {R : Type} [XdrCodec R] (io : Connection) (xid : UInt32)
    (fragmentHeader : FragmentHeader) : Option (Except ClientError R × Connection) :=
  if fragmentHeader.eof then
    match readExact fragmentHeader.fragmentLength.toNat io.incoming with
    | .error _ => none
    | .ok (buf, incoming) => some (parseReply xid buf, { io with incoming })
  else none

def recvReply {R : Type} [XdrCodec R] (io : Connection) (xid : UInt32) :
    Option (Except ClientError R × Connection) :=
  match readExact 4 io.incoming with
  | .error _ => none
  | .ok (buf, incoming) => recvFragment { io with incoming } xid (FragmentHeader.ofBytes buf)

def callBody (client : RpcClient) (prog vers proc : UInt32) : CallBody where
  rpcvers := rpcVersion2
  prog := prog
  vers := vers
  proc := proc
  cred := client.credential
  verf := client.verifier

def call {A R : Type} [XdrCodec A] [XdrCodec R] (client : RpcClient) (io : Connection)
    (prog vers proc : UInt32) (args : A) :
    Option (Except ClientError R × Connection × RpcClient) :=
  let msg : RpcMsg := ⟨client.xid, .call (client.callBody prog vers proc)⟩
  let client := { client with xid := client.xid + 1 }
  match sendCall io msg args with
  | none => none
  | some (.error err) => some (.error err, io, client)
  | some (.ok io) => (recvReply io msg.xid).map fun (r, io) => (r, io, client)

end RpcClient

/-! ## From the client to the handler -/

section Sending

variable {A : Type} [XdrCodec A]

theorem packInto_of_packs {v : A} {bs : Bytes} (h : Packs v bs) (buf : Bytes) :
    RpcClient.packInto v buf = .ok (buf ++ bs) := by
  unfold RpcClient.packInto
  rw [h buf]

theorem packs_header (header : UInt32) : Packs (⟨header⟩ : FragmentHeader) (toBe 4 header.toNat) :=
  (u32_encodes header).writes

theorem packs_last {n : ℕ} (h : n < 2 ^ 31) :
    Packs (⟨UInt32.ofNat (n + 2 ^ 31)⟩ : FragmentHeader) (toBe 4 (n + 2 ^ 31)) := by
  have hpacks := packs_header (UInt32.ofNat (n + 2 ^ 31))
  rwa [RpcWire.header_toNat (by omega)] at hpacks

theorem bytes_single {m : Bytes} (h : m.length < 2 ^ 31) :
    (RpcWire.Record.single m h).bytes = toBe 4 (m.length + 2 ^ 31) ++ m := by
  simp only [RpcWire.Record.bytes, RpcWire.Record.single, List.flatMap_nil, List.nil_append,
    RpcWire.fragmentBytes, ↓reduceIte]

theorem ok_bind {ε α β : Type} (a : α) (f : α → Except ε β) : (Except.ok a >>= f) = f a := rfl

theorem sendCall_eq {msg : RpcMsg} {args : A} {header body : Bytes}
    (hmsg : XdrCodec.codec.Encodes 4 msg header) (hargs : XdrCodec.codec.Encodes 4 args body)
    (hsize : (header ++ body).length < 2 ^ 31) (io : Connection) :
    RpcClient.sendCall io msg args =
      some (.ok { io with sent := io.sent ++ (RpcWire.Record.single _ hsize).bytes }) := by
  have hlen : packedSize msg + packedSize args = (header ++ body).length := by
    rw [List.length_append, ← hmsg.size_eq, ← hargs.size_eq]
    rfl
  have hdvd : (header ++ body).length % 4 = 0 := by
    rw [List.length_append]
    exact Nat.mod_eq_zero_of_dvd (dvd_add hmsg.aligned hargs.aligned)
  have hbuf (n : ℕ) : ([] ++ toBe 4 n ++ header ++ body).length - 4 = (header ++ body).length := by
    simp only [List.nil_append, List.append_assoc, List.length_append, length_toBe]
    omega
  unfold RpcClient.sendCall
  simp only [hlen, hdvd, ne_eq, not_true_eq_false, if_false]
  rw [if_pos (by omega), RpcWire.new_last hsize, Option.map_some,
    packInto_of_packs (packs_last hsize)]
  simp only [ok_bind, packInto_of_packs hmsg.writes, packInto_of_packs hargs.writes]
  rw [if_neg (not_not.mpr (hbuf _))]
  have hbytes := bytes_single hsize
  generalize toBe 4 ((header ++ body).length + 2 ^ 31) = word at hbytes ⊢
  rw [hbytes, List.nil_append, List.append_assoc word]

end Sending

/-! ## From the handler to the client -/

section Receiving

variable {R : Type} [XdrCodec R]

theorem parseReply_eq {xid : UInt32} {bytes payload : Bytes} {r : R}
    (hreply : IsReply bytes xid (.msgAccepted ⟨.default, .success⟩) payload)
    (hr : XdrCodec.codec.Encodes 4 r payload) : RpcClient.parseReply xid bytes = .ok r := by
  obtain ⟨n, hu⟩ := hreply
  have hread : unpack payload = .ok ((r, payload.length), []) := by
    have hread := hr.reads []
    rwa [List.append_nil] at hread
  unfold RpcClient.parseReply
  rw [hu]
  simp only [ne_eq, not_true_eq_false, if_false, ClientError.ofAccepted, hread]

theorem recvFragment_eq {xid : UInt32} {bytes : Bytes} {header : FragmentHeader}
    (heof : header.eof = true) (hlen : header.fragmentLength.toNat = bytes.length)
    (sent s : Bytes) :
    RpcClient.recvFragment ⟨sent, bytes ++ s⟩ xid header =
      some ((RpcClient.parseReply xid bytes : Except ClientError R), ⟨sent, s⟩) := by
  have hbody : readExact bytes.length (bytes ++ s) = .ok (bytes, s) := readExact_append rfl s
  unfold RpcClient.recvFragment
  rw [if_pos heof, hlen]
  simp only [hbody]

/-- A message that came as one record is parsed, and nothing behind it is consumed. -/
theorem recvReply_single {xid : UInt32} {bytes : Bytes} (hsize : bytes.length < 2 ^ 31)
    (sent s : Bytes) :
    RpcClient.recvReply ⟨sent, (RpcWire.Record.single bytes hsize).bytes ++ s⟩ xid =
      some ((RpcClient.parseReply xid bytes : Except ClientError R), ⟨sent, s⟩) := by
  obtain ⟨hlen, heof⟩ := RpcWire.header_of_fragment true hsize
  simp only [if_true] at hlen heof
  have hbytes := bytes_single hsize
  have hword := length_toBe 4 (bytes.length + 2 ^ 31)
  generalize toBe 4 (bytes.length + 2 ^ 31) = word at hlen heof hbytes hword
  have hheader : readExact 4 (word ++ (bytes ++ s)) = .ok (word, bytes ++ s) :=
    readExact_append hword _
  unfold RpcClient.recvReply
  rw [hbytes, List.append_assoc]
  simp only [hheader]
  exact recvFragment_eq heof hlen sent s

theorem recvReply_eq {xid : UInt32} {bytes payload : Bytes} {r : R} (hsize : bytes.length < 2 ^ 31)
    (hreply : IsReply bytes xid (.msgAccepted ⟨.default, .success⟩) payload)
    (hr : XdrCodec.codec.Encodes 4 r payload) (sent s : Bytes) :
    RpcClient.recvReply ⟨sent, (RpcWire.Record.single bytes hsize).bytes ++ s⟩ xid =
      some (.ok r, ⟨sent, s⟩) := by
  rw [recvReply_single, parseReply_eq hreply hr]

end Receiving

/-! ## End to end -/

section EndToEnd

variable {H I J : Type} [FileHandle H]

theorem handleRpcMessage_eq {context context' : RPCContext} {message : Bytes}
    {m : IncomingRpcMessage} (htry : IncomingRpcMessage.tryFrom message = .ok m)
    (hrpcvers : m.body.rpcvers = rpcVersion2)
    (hauth : authenticate context m.body.cred = .ok context')
    {program : Program H I J} (hmem : program ∈ programs) (hprog : m.body.prog = program.prog)
    (hvers : m.body.vers = program.vers) {p : Procedure H I J}
    (hproc : program.procedure m.body.proc = some p) {a : p.Args}
    (ha : DecodesTo p m.takeData a) :
    ∃ next, handleRpcMessage context message =
        .ask (.startTransaction context'.clientAddr m.xid) next ∧
      ∀ lock : Tracker.TransactionLock, next (Except.ok lock) =
        (p.handler context' m.xid a).bind fun r =>
          .ask (.dropLock lock) fun _ => .ret (m.intoSuccessReply r) := by
  obtain ⟨n, hread⟩ := ha
  have hdispatch : dispatch context' m =
      (p.handler context' m.xid a).bind fun r => .ret (m.intoSuccessReply r) := by
    rw [dispatch_of_names ⟨program, hmem, hprog, hvers, hproc⟩, handle, unpackIn_unlimited, hread]
    rfl
  unfold handleRpcMessage
  rw [htry]
  dsimp only
  rw [if_neg (not_not.mpr hrpcvers), hauth]
  refine ⟨_, rfl, fun lock => ?_⟩
  show (dispatch context' m).bind _ = _
  rw [hdispatch, Interaction.Prog.bind_assoc]
  rfl

theorem authenticate_eq {cred : OpaqueAuth} {auth : AuthUnix} (hvalid : XdrSpec.valid auth = true)
    (hbody : cred.flavor = .authUnix → Packs auth cred.body.data) (context : RPCContext) :
    authenticate context cred =
      .ok (if cred.flavor = .authUnix then { context with auth } else context) := by
  unfold authenticate
  split_ifs with hflavor
  · obtain ⟨bs, he⟩ := LawfulXdr.encodes auth hvalid
    have hbs : cred.body.data = bs := by
      have hwrite := (hbody hflavor []).symm.trans (he.writes [])
      simp only [List.nil_append, Except.ok.injEq, Prod.mk.injEq] at hwrite
      exact hwrite.2
    have hread : unpack bs = .ok ((auth, bs.length), []) := by
      have hread := he.reads []
      rwa [List.append_nil] at hread
    rw [hbs, unpackIn_unlimited, hread]
  · rfl

/-- A call of any procedure, at any of its arguments and by any credential, reaches its handler
with exactly these arguments and this xid, and any of its results comes back to the caller. -/
theorem rpc_transparent (client : RpcClient) (context : RPCContext) {program : Program H I J}
    (hmem : program ∈ programs) {proc : UInt32} {p : Procedure H I J}
    (hproc : program.procedure proc = some p) {auth : AuthUnix}
    (hcred : XdrSpec.valid client.credential = true) (hverf : XdrSpec.valid client.verifier = true)
    (hauth : XdrSpec.valid auth = true)
    (hunix : client.credential.flavor = .authUnix → Packs auth client.credential.body.data)
    (a : p.Args) (ha : XdrSpec.valid a = true)
    (hsize : packedSize (⟨client.xid, .call (client.callBody program.prog program.vers proc)⟩ :
      RpcMsg) + packedSize a < 2 ^ 31) :
    ∃ (wire message : Bytes) (reply : p.Res → Except RpcError HandleResult),
      (∀ s, RpcWire.readLoop 1 .new (wire ++ s) = .ok (([message], .new), s)) ∧
      (∃ next, handleRpcMessage context message =
          .ask (.startTransaction context.clientAddr client.xid) next ∧
        ∀ lock : Tracker.TransactionLock, next (Except.ok lock) =
          (p.handler (if client.credential.flavor = .authUnix then { context with auth }
            else context) client.xid a).bind fun r =>
              .ask (.dropLock lock) fun _ => .ret (reply r)) ∧
      ∀ r : p.Res, XdrSpec.valid r = true →
        packedSize (⟨client.xid, .reply (.msgAccepted ⟨.default, .success⟩)⟩ : RpcMsg) +
          packedSize r < 2 ^ 31 →
        ∃ bytes wire', reply r = .ok (.reply bytes) ∧
          RpcWire.writeFragment [] bytes = some wire' ∧
          ∀ s, client.call ⟨[], wire' ++ s⟩ program.prog program.vers proc a =
            some (.ok r, ⟨wire, s⟩, { client with xid := client.xid + 1 }) := by
  have hmsg : XdrSpec.valid (⟨client.xid, .call (client.callBody program.prog program.vers proc)⟩ :
      RpcMsg) = true := by
    show (XdrSpec.valid client.credential && XdrSpec.valid client.verifier) = true
    rw [hcred, hverf]
    rfl
  obtain ⟨header, hheader⟩ := LawfulXdr.encodes _ hmsg
  obtain ⟨body, hbody⟩ := LawfulXdr.encodes a ha
  have hlen : (header ++ body).length < 2 ^ 31 := by
    rw [List.length_append, ← hheader.size_eq, ← hbody.size_eq]
    exact hsize
  let m : IncomingRpcMessage :=
    ⟨client.xid, client.callBody program.prog program.vers proc, header ++ body, header.length⟩
  have hu : unpack (header ++ body) = .ok ((_, header.length), body) := hheader.reads body
  have htry : IncomingRpcMessage.tryFrom (header ++ body) = .ok m := by
    rw [IncomingRpcMessage.tryFrom, unpackIn_unlimited, hu]
  have hargs : DecodesTo p m.takeData a := by
    have hread : unpack body = .ok ((a, body.length), []) := by
      have hread := hbody.reads []
      rwa [List.append_nil] at hread
    refine ⟨body.length, ?_⟩
    rw [← hread]
    exact congrArg _ List.drop_left
  refine ⟨(RpcWire.Record.single _ hlen).bytes, header ++ body, m.intoSuccessReply, ?_, ?_, ?_⟩
  · exact RpcWire.readLoop_record (.single _ hlen)
  · obtain ⟨next, hnext, hrun⟩ := handleRpcMessage_eq htry rfl
      (authenticate_eq hauth hunix context) hmem rfl rfl hproc hargs
    have haddr : (if client.credential.flavor = .authUnix then { context with auth }
        else context).clientAddr = context.clientAddr := by
      split_ifs <;> rfl
    rw [haddr] at hnext
    exact ⟨next, hnext, hrun⟩
  · intro r hr hsmall
    obtain ⟨replyHeader, hreply⟩ := LawfulXdr.encodes
      (⟨client.xid, .reply (.msgAccepted ⟨.default, .success⟩)⟩ : RpcMsg) rfl
    obtain ⟨payload, hpayload⟩ := LawfulXdr.encodes r hr
    have hbytes : (replyHeader ++ payload).length < 2 ^ 31 := by
      rw [List.length_append, ← hreply.size_eq, ← hpayload.size_eq]
      exact hsmall
    refine ⟨replyHeader ++ payload, (RpcWire.Record.single _ hbytes).bytes, ?_, ?_, fun s => ?_⟩
    · rw [IncomingRpcMessage.intoSuccessReply, IncomingRpcMessage.reply,
        packMessage_eq hreply hpayload.writes]
    · exact RpcWire.writeFragment_eq hbytes []
    · have hrecv := recvReply_eq hbytes ⟨replyHeader.length, hreply.reads payload⟩ hpayload
        (RpcWire.Record.single _ hlen).bytes s
      unfold RpcClient.call
      simp only [sendCall_eq hheader hbody hlen, List.nil_append, hrecv, Option.map_some]

end EndToEnd

def sampleAuth : AuthUnix := ⟨1, ⟨[0x68]⟩, 1000, 100, [100]⟩

theorem rpc_transparent_getattr :
    let credential : OpaqueAuth := ⟨.authUnix, ⟨[0, 0, 0, 1, 0, 0, 0, 1, 0x68, 0, 0, 0,
      0, 0, 3, 0xe8, 0, 0, 0, 100, 0, 0, 0, 1, 0, 0, 0, 100]⟩⟩
    let client : RpcClient := ⟨7, credential, ⟨.authNull, ⟨[]⟩⟩⟩
    let context : RPCContext := ⟨2049, "client", ⟨0, ⟨[]⟩, 0, 0, []⟩, false, "", ⟨0⟩⟩
    let args : Getattr3Args := ⟨⟨⟨List.replicate 16 0⟩⟩⟩
    let r : Getattr3Res := .ok ⟨⟨.nf3reg, 0o644, 1, 1000, 100, 5, 5, ⟨0, 0⟩, 0, 1, ⟨0, 0⟩, ⟨1, 0⟩,
      ⟨1, 0⟩⟩⟩
    ∃ (wire message : Bytes) (reply : Getattr3Res → Except RpcError HandleResult),
      (∀ s, RpcWire.readLoop 1 .new (wire ++ s) = .ok (([message], .new), s)) ∧
      (∃ next, (handleRpcMessage context message : ServerM FileHandleU64 Unit Unit _) =
          .ask (.startTransaction "client" client.xid) next ∧
        ∀ lock : Tracker.TransactionLock, next (Except.ok lock) =
          (liftVfs (NfsHandlers.nfsproc3Getattr { context with auth := sampleAuth } client.xid
            args)).bind fun r => .ask (.dropLock lock) fun _ => .ret (reply r)) ∧
      ∃ bytes wire', reply r = .ok (.reply bytes) ∧
        RpcWire.writeFragment [] bytes = some wire' ∧
        ∀ s, client.call ⟨[], wire' ++ s⟩ 100003 3 1 args =
          some (.ok r, ⟨wire, s⟩, { client with xid := 8 }) := by
  intro credential client context args r
  have hauth : XdrSpec.valid sampleAuth = true := by decide
  have hbody : Packs sampleAuth credential.body.data := by
    obtain ⟨bs, he⟩ := LawfulXdr.encodes sampleAuth hauth
    have hpack : pack sampleAuth [] = .ok (28, credential.body.data) := by decide
    have hbs := (he.writes []).symm.trans hpack
    simp only [List.nil_append, Except.ok.injEq, Prod.mk.injEq] at hbs
    rw [← hbs.2]
    exact he.writes
  obtain ⟨wire, message, reply, hread, hserver, hreply⟩ :=
    rpc_transparent (H := FileHandleU64) (I := Unit) (J := Unit) client context
      (List.mem_cons_of_mem _ (List.mem_cons_of_mem _ List.mem_cons_self))
      (show nfsProgram.procedure 1 = some (.ofVfs NfsHandlers.nfsproc3Getattr) from rfl)
      (by decide) (by decide) hauth (fun _ => hbody) args rfl (by decide)
  exact ⟨wire, message, reply, hread, hserver, hreply r (by decide) (by decide)⟩

end Nfs3
