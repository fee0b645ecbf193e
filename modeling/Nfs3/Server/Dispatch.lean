import Nfs3.Server.MountHandlers

/-!
# From a message to its handler

A complete message is parsed, checked, admitted by the transaction tracker, handed to the
procedure it names and answered. The lock of the transaction is held until the reply is made.
Decoding happens in the memory of the server: where that does not grant a length that the
message announces, the server is gone. Unless memory is named there is enough.
-/
namespace Nfs3

open ByteOrder (Bytes)
open Interaction (Prog)

/-! ## Messages -/

/-- Why a message gets no answer: it cannot be parsed, it is no call, or coding failed. -/
inductive RpcError
  | unpackMessage (err : Error)
  | expectedCall (xid : UInt32)
  | codec (err : Error)
  deriving DecidableEq

inductive HandleResult
  | reply (message : Bytes)
  | noReply
  deriving DecidableEq

structure IncomingRpcMessage where
  xid : UInt32
  body : CallBody
  data : Bytes
  messageStart : ℕ

/-- The header, then the body, into one buffer. -/
def packMessage {R : Type} [XdrCodec R] (rpc : RpcMsg) (message : R) : Except Error Bytes :=
  match pack rpc [] with
  | .error e => .error e
  | .ok (_, buf) =>
    match pack message buf with
    | .error e => .error e
    | .ok (_, buf) => .ok buf

def OpaqueAuth.default : OpaqueAuth := ⟨.authNull, ⟨[]⟩⟩

def rpcVersion2 : UInt32 := 2

namespace IncomingRpcMessage

def tryFrom (packed : Bytes) (memory : Allocator := .unlimited) :
    Except RpcError IncomingRpcMessage :=
  match unpackIn (α := RpcMsg) memory packed with
  | .error err => .error (.unpackMessage err)
  | .ok ((rpc, pos), _) =>
    match rpc.body with
    | .call call => .ok ⟨rpc.xid, call, packed, pos⟩
    | .reply _ => .error (.expectedCall rpc.xid)

/-- A cursor behind the header. -/
def takeData (message : IncomingRpcMessage) : Bytes := message.data.drop message.messageStart

def reply {R : Type} [XdrCodec R] (message : IncomingRpcMessage) (body : ReplyBody) (payload : R) :
    Except RpcError HandleResult :=
  match packMessage ⟨message.xid, .reply body⟩ payload with
  | .ok bytes => .ok (.reply bytes)
  | .error err => .error (.codec err)

def intoSuccessReply {R : Type} [XdrCodec R] (message : IncomingRpcMessage) (result : R) :
    Except RpcError HandleResult :=
  message.reply (.msgAccepted ⟨.default, .success⟩) result

def intoRpcMismatch (message : IncomingRpcMessage) : Except RpcError HandleResult :=
  message.reply (.msgDenied (.rpcMismatch rpcVersion2 rpcVersion2)) (⟨⟩ : Void)

def intoErrorReply (message : IncomingRpcMessage) (err : AcceptStatData) :
    Except RpcError HandleResult :=
  message.reply (.msgAccepted ⟨.default, err⟩) (⟨⟩ : Void)

end IncomingRpcMessage

/-! ## Procedures -/

/-- A handler with the types it is called at. -/
structure Procedure (H I J : Type) where
  Args : Type
  Res : Type
  [argsCodec : XdrCodec Args]
  [argsSpec : XdrSpec Args]
  [argsLawful : LawfulXdr Args]
  [argsRationed : RationedXdr Args]
  [resCodec : XdrCodec Res]
  [resSpec : XdrSpec Res]
  [resLawful : LawfulXdr Res]
  handler : RPCContext → UInt32 → Args → ServerM H I J Res

attribute [instance] Procedure.argsCodec Procedure.argsSpec Procedure.argsLawful
  Procedure.argsRationed Procedure.resCodec Procedure.resSpec Procedure.resLawful

section Procedures

variable {H I J : Type}

namespace Procedure

variable {A R : Type} [XdrCodec A] [XdrSpec A] [LawfulXdr A] [RationedXdr A] [XdrCodec R]
  [XdrSpec R] [LawfulXdr R]

def of (handler : RPCContext → UInt32 → A → ServerM H I J R) : Procedure H I J :=
  ⟨A, R, handler⟩

def ofVfs (handler : RPCContext → UInt32 → A → VfsM H I J R) : Procedure H I J :=
  .of fun context xid args => liftVfs (handler context xid args)

end Procedure

variable [FileHandle H]

/-- The `match` of `handle_nfs`; `none` is the arm of what is not implemented. -/
def nfsProcedure : NfsProgram → Option (Procedure H I J)
  | .nfsproc3Null => some (.ofVfs NfsHandlers.nfsproc3Null)
  | .nfsproc3Getattr => some (.ofVfs NfsHandlers.nfsproc3Getattr)
  | .nfsproc3Lookup => some (.ofVfs NfsHandlers.nfsproc3Lookup)
  | .nfsproc3Read => some (.ofVfs NfsHandlers.nfsproc3Read)
  | .nfsproc3Fsinfo => some (.ofVfs NfsHandlers.nfsproc3Fsinfo)
  | .nfsproc3Access => some (.ofVfs NfsHandlers.nfsproc3Access)
  | .nfsproc3Pathconf => some (.ofVfs NfsHandlers.nfsproc3Pathconf)
  | .nfsproc3Fsstat => some (.ofVfs NfsHandlers.nfsproc3Fsstat)
  | .nfsproc3Readdir => some (.ofVfs NfsHandlers.nfsproc3Readdir)
  | .nfsproc3Readdirplus => some (.ofVfs NfsHandlers.nfsproc3Readdirplus)
  | .nfsproc3Write => some (.ofVfs NfsHandlers.nfsproc3Write)
  | .nfsproc3Create => some (.ofVfs NfsHandlers.nfsproc3Create)
  | .nfsproc3Setattr => some (.ofVfs NfsHandlers.nfsproc3Setattr)
  | .nfsproc3Remove | .nfsproc3Rmdir => some (.ofVfs NfsHandlers.nfsproc3Remove)
  | .nfsproc3Rename => some (.ofVfs NfsHandlers.nfsproc3Rename)
  | .nfsproc3Mkdir => some (.ofVfs NfsHandlers.nfsproc3Mkdir)
  | .nfsproc3Symlink => some (.ofVfs NfsHandlers.nfsproc3Symlink)
  | .nfsproc3Readlink => some (.ofVfs NfsHandlers.nfsproc3Readlink)
  | .nfsproc3Mknod | .nfsproc3Link | .nfsproc3Commit => none

/-- The `match` of `handle_mount`. -/
def mountProcedure : Mount.MountProgram → Option (Procedure H I J)
  | .mountproc3Null => some (.of MountHandlers.mountproc3Null)
  | .mountproc3Mnt => some (.of MountHandlers.mountproc3Mnt)
  | .mountproc3Umnt => some (.of MountHandlers.mountproc3Umnt)
  | .mountproc3Umntall => some (.of MountHandlers.mountproc3UmntAll)
  | .mountproc3Export => some (.of MountHandlers.mountproc3Export)
  | .mountproc3Dump => none

/-- The `match` of `handle_portmap`. -/
def portmapProcedure : Portmap.PmapProg → Option (Procedure H I J)
  | .pmapprocNull => some (.of PortmapHandlers.pmapprocNull)
  | .pmapprocGetport => some (.of PortmapHandlers.pmapprocGetport)
  | _ => none

end Procedures

/-- A program the server answers for: its number and version, the procedures it names and those
it implements. -/
structure Program (H I J : Type) where
  prog : UInt32
  vers : UInt32
  procedure : UInt32 → Option (Procedure H I J)

section Dispatch

variable {H I J : Type}

/-- Decodes the arguments, all of the message, and runs the procedure on them. -/
def handle (context : RPCContext) (message : IncomingRpcMessage) (p : Procedure H I J)
    (memory : Allocator := .unlimited) : ServerM H I J (Except RpcError HandleResult) :=
  match unpackIn (α := p.Args) memory message.takeData with
  | .error err =>
    if err = .outOfMemory then .halt else pure (message.intoErrorReply .garbageArgs)
  | .ok ((args, _), rest) =>
    if rest ≠ [] then pure (message.intoErrorReply .garbageArgs)
    else do
      let result ← p.handler context message.xid args
      pure (message.intoSuccessReply result)

/-- `handle_nfs`, `handle_mount` and `handle_portmap`: the version is checked before the
procedure. -/
def Program.handle (program : Program H I J) (context : RPCContext)
    (message : IncomingRpcMessage) (memory : Allocator := .unlimited) :
    ServerM H I J (Except RpcError HandleResult) :=
  if message.body.vers ≠ program.vers then
    pure (message.intoErrorReply (.progMismatch program.vers program.vers))
  else
    match program.procedure message.body.proc with
    | none => pure (message.intoErrorReply .procUnavail)
    | some p => Nfs3.handle context message p memory

def lockTransaction (clientAddr : String) (xid : UInt32) :
    ServerM H I J (Except (Option AcceptStatData) Tracker.TransactionLock) :=
  .ask (.startTransaction clientAddr xid)
    fun (r : Except Tracker.TransactionError Tracker.TransactionLock) =>
      match r with
      | .ok lock => .ret (.ok lock)
      | .error .alreadyExists => .ret (.error none)
      | .error .tooManyRequests => .ret (.error (some .systemErr))

def dropLock (lock : Tracker.TransactionLock) : ServerM H I J Unit := .ask (.dropLock lock) .ret

/-- The context with the credential of the call. -/
def authenticate (context : RPCContext) (cred : OpaqueAuth)
    (memory : Allocator := .unlimited) : Except RpcError RPCContext :=
  if cred.flavor = .authUnix then
    match unpackIn (α := AuthUnix) memory cred.body.data with
    | .error err => .error (.codec err)
    | .ok ((auth, _), _) => .ok { context with auth }
  else .ok context

variable [FileHandle H]

def nfsProgram : Program H I J where
  prog := 100003
  vers := 3
  procedure proc := (enumOfTag proc).bind nfsProcedure

def mountProgram : Program H I J where
  prog := 100005
  vers := 3
  procedure proc := (enumOfTag proc).bind mountProcedure

def portmapProgram : Program H I J where
  prog := 100000
  vers := 2
  procedure proc := (enumOfTag proc).bind portmapProcedure

/-- The ACL, id mapping and metadata programs fall under the unknown ones: both get the same
answer. -/
def dispatch (context : RPCContext) (message : IncomingRpcMessage)
    (memory : Allocator := .unlimited) : ServerM H I J (Except RpcError HandleResult) :=
  if message.body.prog = (portmapProgram : Program H I J).prog then
    portmapProgram.handle context message memory
  else if message.body.prog = (mountProgram : Program H I J).prog then
    mountProgram.handle context message memory
  else if message.body.prog = (nfsProgram : Program H I J).prog then
    nfsProgram.handle context message memory
  else pure (message.intoErrorReply .progUnavail)

def handleRpcMessage (context : RPCContext) (message : Bytes)
    (memory : Allocator := .unlimited) : ServerM H I J (Except RpcError HandleResult) :=
  match IncomingRpcMessage.tryFrom message memory with
  | .error err => if err = .unpackMessage .outOfMemory then .halt else pure (.error err)
  | .ok message =>
    if message.body.rpcvers ≠ rpcVersion2 then pure message.intoRpcMismatch
    else
      match authenticate context message.body.cred memory with
      | .error err => if err = .codec .outOfMemory then .halt else pure (.error err)
      | .ok context => do
        match ← lockTransaction context.clientAddr message.xid with
        | .error none => pure (.ok .noReply)
        | .error (some err) => pure (message.intoErrorReply err)
        | .ok lock => do
          let result ← dispatch context message memory
          dropLock lock
          pure result

end Dispatch

end Nfs3
