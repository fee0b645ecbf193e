import Nfs3.Lib.Interleaving
import Nfs3.Server.Dispatch
import Nfs3.Server.RpcWire

/-!
# The TCP server

`process_socket` copies what a socket delivers into a pipe and writes the replies of a channel to
the socket. Next to it `SocketMessageHandler` reads the pipe fragment by fragment and spawns a
task for every message; the task sends its reply to the channel. All connections share the file
system and the transaction tracker.

The pipe has no bound here: a full one only makes `process_socket` wait. A fragment is read in
one step, once all of it has arrived.
-/
namespace Nfs3.Tcp

open ByteOrder (Bytes)
open Interaction
open Tracker (TransactionLock TransactionTracker TrackerState)

/-! ## Tasks -/

/-- `SocketMessageType`. -/
abbrev SocketMessage := Except String Bytes

/-- What the task of a message asks: what handling the message asks, and to send to the reply
channel of a connection. -/
inductive SocketCall (H I J : Type)
  | server (call : ServerCall H I J)
  | send (connection : ℕ) (message : SocketMessage)

/-- `none` where the call panics. -/
def SocketCall.Reply {H I J : Type} : SocketCall H I J → Type
  | server call => Option call.Reply
  | send .. => Unit

abbrev SocketM (H I J : Type) := Prog (SocketCall H I J) SocketCall.Reply

section Tasks

variable {H I J α : Type}

/-- The lock a task holds after a call. -/
def lockAfter (held : Option TransactionLock) : (c : ServerCall H I J) → c.Reply →
    Option TransactionLock
  | .startTransaction .., (.ok lock : Except Tracker.TransactionError TransactionLock) => some lock
  | .dropLock _, _ => none
  | _, _ => held

/-- A panic drops the lock on its way out of the task. -/
def release : Option TransactionLock → SocketM H I J (Option α)
  | none => .ret none
  | some lock => .ask (.server (.dropLock lock)) fun _ => .ret none

/-- A task that panics ends without a result: the runtime catches the panic. -/
def unwind (held : Option TransactionLock) : ServerM H I J α → SocketM H I J (Option α)
  | .ret a => .ret (some a)
  | .halt => release held
  | .ask c next => .ask (.server c) fun (r : Option c.Reply) =>
    match r with
    | some r => unwind (lockAfter held c r) (next r)
    | none => release held

/-- What is sent to the reply channel. -/
def socketMessage : Except RpcError HandleResult → Option SocketMessage
  | .ok (.reply reply) => some (.ok reply)
  | .ok .noReply => none
  | .error _ => some (.error "Error handling RPC message")

def send (connection : ℕ) : Option SocketMessage → SocketM H I J Unit
  | some message => .ask (.send connection message) .ret
  | none => .ret ()

end Tasks

/-- A message that arrived on a connection. -/
structure Incoming where
  connection : ℕ
  clientAddr : String
  message : Bytes

structure NFSTcpListener where
  port : UInt16
  mountSignal : Bool
  exportName : String
  fileHandleConverter : FileHandleConverter

namespace NFSTcpListener

/-- The context of a connection. -/
def context (listener : NFSTcpListener) (clientAddr : String) : RPCContext where
  localPort := listener.port
  clientAddr := clientAddr
  auth := ⟨0, ⟨[]⟩, 0, 0, []⟩
  mountSignal := listener.mountSignal
  exportName := listener.exportName
  fileHandleConverter := listener.fileHandleConverter

/-- The task spawned for a message. It is left with the result, `none` after a panic. -/
def task {H I J : Type} [FileHandle H] (listener : NFSTcpListener) (incoming : Incoming) :
    SocketM H I J (Option (Except RpcError HandleResult)) :=
  (unwind none (handleRpcMessage (listener.context incoming.clientAddr) incoming.message)).bind
    fun result => (send incoming.connection (result.bind socketMessage)).bind
      fun _ => .ret result

end NFSTcpListener

/-- In nanoseconds. -/
def transactionLifetime : Tracker.Duration := 60 * 10 ^ 9

def newTransactionTracker : TransactionTracker where
  retentionPeriod := transactionLifetime
  maxActiveTransactions := 256
  trimLimit := 2048

/-! ## Connections -/

/-- `received` is everything the socket has delivered, `pipe` what the message handler has not
read of it, `socket` what was written to the socket. -/
structure Connection where
  clientAddr : String
  received : Bytes
  pipe : Bytes
  curFragment : RpcWire.PackedRpcMessage
  replies : List SocketMessage
  socket : Bytes
  isOpen : Bool

/-- The size of the buffer for `socket.read`. -/
def bufferSize : ℕ := 128 * 1024

namespace Connection

def new (clientAddr : String) : Connection := ⟨clientAddr, [], [], .new, [], [], true⟩

/-- `process_socket` returns and drops its end of the reply channel. What is in the pipe can
still be read. -/
def close (c : Connection) : Connection := { c with replies := [], isOpen := false }

/-- `socket.read` returns some bytes. -/
def receive (c : Connection) (bytes : Bytes) : Option Connection :=
  if c.isOpen ∧ bytes ≠ [] ∧ bytes.length ≤ bufferSize then
    some { c with received := c.received ++ bytes, pipe := c.pipe ++ bytes }
  else none

/-- `SocketMessageHandler::read`, with the message to spawn a task for. -/
def read (c : Connection) : Option (Option Bytes × Connection) :=
  match RpcWire.read c.curFragment c.pipe with
  | .error _ => none
  | .ok ((message, curFragment), pipe) => some (message, { c with curFragment, pipe })

/-- The next reply is taken from the channel and written to the socket. An error on the way,
after `written` bytes, is only logged; an error in the channel ends the connection, and so does
the assertion on the size of the reply. -/
def reply (c : Connection) (written : Option ℕ) : Option Connection :=
  if c.isOpen then
    match c.replies with
    | [] => none
    | .error _ :: _ => some c.close
    | .ok message :: replies =>
      match RpcWire.writeFragment c.socket message with
      | none => some c.close
      | some socket =>
        match written with
        | none => some { c with replies, socket }
        | some n => some { c with replies, socket := socket.take (c.socket.length + n) }
  else none

/-- Sending to a channel whose receiver is gone does nothing. -/
def send (c : Connection) (message : SocketMessage) : Connection :=
  if c.isOpen then { c with replies := c.replies ++ [message] } else c

end Connection

/-! ## The server -/

/-- What the tasks share. -/
structure Service (σ : Type) where
  vfs : σ
  tracker : TrackerState
  now : Tracker.Instant
  signals : List Bool
  connections : List Connection

namespace Service

variable {H I J σ : Type}

def init (vfs : σ) : Service σ := ⟨vfs, TransactionTracker.init, 0, [], []⟩

section Answer

variable (vfs : σ → (c : VfsCall H I J) → Option (Option c.Reply × σ))

/-- A file system may not answer, or panic. -/
def answerServer (s : Service σ) : (c : ServerCall H I J) → Option (Option c.Reply × Service σ)
  | .startTransaction clientAddr xid =>
    (newTransactionTracker.startTransaction s.tracker clientAddr xid s.now).map fun r =>
      (some r.1, { s with tracker := r.2 })
  | .dropLock lock =>
    (newTransactionTracker.dropLock s.tracker lock s.now).map fun tracker =>
      (some (), { s with tracker })
  | .vfs c => (vfs s.vfs c).map fun r => (r.1, { s with vfs := r.2 })
  | .mountSignal mounted => some (some (), { s with signals := s.signals ++ [mounted] })

def answer (s : Service σ) : (c : SocketCall H I J) → Option (c.Reply × Service σ)
  | .server c => answerServer vfs s c
  | .send connection message =>
    some ((), { s with
      connections := s.connections.modify connection fun c => c.send message })

end Answer

end Service

/-- What happens next: a task goes on, or something else. `cleanupClient` is the part of a
`cleanup` that runs under one mutex. -/
inductive Event
  | accept (clientAddr : String)
  | receive (connection : ℕ) (bytes : Bytes)
  | read (connection : ℕ)
  | reply (connection : ℕ) (written : Option ℕ)
  | close (connection : ℕ)
  | clock (elapsed : Tracker.Duration)
  | cleanup
  | cleanupClient (clientAddr : String)
  | task (index : ℕ)

namespace Service

variable {σ : Type}

/-- A step of one connection. -/
def update (s : Service σ) (connection : ℕ) (f : Connection → Option Connection) :
    Option (Service σ) := do
  let c ← s.connections[connection]?
  let c ← f c
  some { s with connections := s.connections.set connection c }

/-- Everything but the steps of the tasks, with the message that arrived. -/
def perform (s : Service σ) : Event → Option (Service σ × Option Incoming)
  | .accept clientAddr =>
    some ({ s with connections := s.connections ++ [.new clientAddr] }, none)
  | .receive connection bytes =>
    (s.update connection fun c => c.receive bytes).map fun s => (s, none)
  | .read connection => do
    let c ← s.connections[connection]?
    let (message, c) ← c.read
    some ({ s with connections := s.connections.set connection c },
      message.map fun message => ⟨connection, c.clientAddr, message⟩)
  | .reply connection written =>
    (s.update connection fun c => c.reply written).map fun s => (s, none)
  | .close connection => (s.update connection fun c => some c.close).map fun s => (s, none)
  | .clock elapsed => some ({ s with now := s.now + elapsed }, none)
  | .cleanup =>
    (newTransactionTracker.cleanup s.tracker s.now).map fun tracker => ({ s with tracker }, none)
  | .cleanupClient clientAddr =>
    (newTransactionTracker.cleanupClient s.tracker clientAddr s.now).map fun tracker =>
      ({ s with tracker }, none)
  | .task _ => none

end Service

/-- The server with the tasks it has spawned. -/
abbrev Server (H I J σ : Type) :=
  Pool (SocketCall H I J) SocketCall.Reply Incoming (Option (Except RpcError HandleResult))
    (Service σ)

namespace Server

variable {H I J σ : Type} [FileHandle H]

def init (vfs : σ) : Server H I J σ := ⟨.init vfs, []⟩

/-- The state does not change by itself between two events. -/
def step (listener : NFSTcpListener)
    (vfs : σ → (c : VfsCall H I J) → Option (Option c.Reply × σ)) (s : Server H I J σ) :
    Event → Option (Server H I J σ)
  | .task index =>
    s.turn listener.task (Service.answer vfs) (fun shared (_ : Unit) => shared) (.step index)
  | event => do
    let (shared, incoming) ← s.shared.perform event
    let spawned := incoming.toList.map fun incoming => ⟨incoming, [], listener.task incoming⟩
    some { shared, tasks := s.tasks ++ spawned }

end Server

end Nfs3.Tcp
