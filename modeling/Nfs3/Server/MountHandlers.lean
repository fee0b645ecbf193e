import Nfs3.Server.NfsHandlers
import Nfs3.Server.TransactionTracker
import Nfs3.Types.Mount
import Nfs3.Types.Portmap

/-!
# The handlers of the MOUNT and PORTMAP procedures

Besides the file system, a request talks to the transaction tracker and to whoever listens for
mounts.
-/
namespace Nfs3

open ByteOrder (Bytes)
open Interaction (Prog)

inductive ServerCall (H I J : Type)
  | startTransaction (clientAddr : String) (xid : UInt32)
  | dropLock (lock : Tracker.TransactionLock)
  | vfs (call : VfsCall H I J)
  | mountSignal (mounted : Bool)

namespace ServerCall

variable {H I J : Type}

def Reply : ServerCall H I J → Type
  | startTransaction .. => Except Tracker.TransactionError Tracker.TransactionLock
  | dropLock _ | mountSignal _ => Unit
  | vfs call => call.Reply

end ServerCall

abbrev ServerM (H I J : Type) := Prog (ServerCall H I J) ServerCall.Reply

section

variable {H I J α : Type}

def liftVfs (m : VfsM H I J α) : ServerM H I J α := m.interp fun c => .ask (.vfs c) .ret

def signal (context : RPCContext) (mounted : Bool) : ServerM H I J Unit :=
  if context.mountSignal then .ask (.mountSignal mounted) .ret else .ret ()

end

namespace MountHandlers

variable {H I J : Type} [FileHandle H]

def fromUtf8 (bytes : Bytes) : Option String := String.fromUTF8? ⟨bytes.toArray⟩

/-- `char::is_whitespace`. -/
def isWhitespace (c : Char) : Bool :=
  let n := c.toNat
  (9 ≤ n ∧ n ≤ 13) || n = 0x20 || n = 0x85 || n = 0xA0 || n = 0x1680 ||
    (0x2000 ≤ n ∧ n ≤ 0x200A) || n = 0x2028 || n = 0x2029 || n = 0x202F || n = 0x205F || n = 0x3000

def stripExportName (path exportName : String) : Option (List Char) :=
  if exportName.toList.isPrefixOf path.toList then
    some (path.toList.drop exportName.toList.length)
  else none

def trimEnd (p : Char → Bool) (cs : List Char) : List Char := (cs.reverse.dropWhile p).reverse

/-- `trim_start_matches('/').trim_end_matches('/').trim()`. -/
def trimPath (cs : List Char) : String :=
  .ofList (trimEnd isWhitespace
    ((trimEnd (· = '/') (cs.dropWhile (· = '/'))).dropWhile isWhitespace))

def mountproc3Null (_ : RPCContext) (_xid : UInt32) (_ : Void) : ServerM H I J Void := pure ⟨⟩

def mountproc3Mnt (context : RPCContext) (_xid : UInt32) (path : Mount.Dirpath) :
    ServerM H I J Mount.Mountres3 :=
  match fromUtf8 path.val.data with
  | none => pure (.err .mnt3errInval)
  | some utf8path =>
    match stripExportName utf8path context.exportName with
    | none => pure (.err .mnt3errNoent)
    | some path => do
      match ← liftVfs (Vfs.lookupByPath (trimPath path)) with
      | .error _ => pure (.err .mnt3errNoent)
      | .ok fileid => do
        let root := context.fileHandleConverter.fhToNfs fileid
        signal context true
        pure (.ok ⟨⟨root.data⟩, [AuthFlavor.authNull.asU32, AuthFlavor.authUnix.asU32]⟩)

def mountproc3Export (context : RPCContext) (_xid : UInt32) (_ : Void) :
    ServerM H I J Mount.Exports :=
  pure ⟨[⟨⟨⟨context.exportName.toUTF8.data.toList⟩⟩, ⟨[]⟩⟩]⟩

def mountproc3Umnt (context : RPCContext) (_xid : UInt32) (path : Mount.Dirpath) :
    ServerM H I J Void :=
  match fromUtf8 path.val.data with
  | none => pure ⟨⟩
  | some _ => do
    signal context false
    pure ⟨⟩

def mountproc3UmntAll (context : RPCContext) (_xid : UInt32) (_ : Void) : ServerM H I J Void := do
  signal context false
  pure ⟨⟩

end MountHandlers

namespace PortmapHandlers

variable {H I J : Type}

def pmapprocNull (_ : RPCContext) (_xid : UInt32) (_ : Void) : ServerM H I J Void := pure ⟨⟩

/-- Every program is said to be behind the port of the server. -/
def pmapprocGetport (context : RPCContext) (_xid : UInt32) (_ : Portmap.Mapping) :
    ServerM H I J UInt32 :=
  pure context.localPort.toUInt32

end PortmapHandlers

end Nfs3
