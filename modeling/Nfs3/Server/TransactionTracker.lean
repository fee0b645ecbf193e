import Mathlib.Data.List.AList
import Nfs3.Lib.Transition

/-!
# The transaction tracker

Clients of the tracker are told apart by their address; each has a list of remembered
transactions behind an `Arc<Mutex<..>>`, which the map of the tracker and the locks
handed out share. `arcs` is the heap of these cells and an `ArcId` an address in it.

An operation runs under the mutex of the cell it changes, so the steps of an interleaving
are whole operations. `start_transaction` looks its client up again when it takes the write
lock; the step is that second look. `cleanup` takes the mutexes one after the other: locks
may be dropped between two clients it visits.
-/
namespace Nfs3.Tracker

/-- Clock readings; subtraction saturates at zero. -/
abbrev Instant := ℕ

abbrev Duration := ℕ

inductive TransactionError
  | alreadyExists
  | tooManyRequests
  deriving DecidableEq

inductive TransactionState
  | inProgress
  | completed (at_ : Instant)
  deriving DecidableEq

structure Transaction where
  xid : UInt32
  state : TransactionState
  deriving DecidableEq

namespace Transaction

def inProgress (xid : UInt32) : Transaction := ⟨xid, .inProgress⟩

/-- `none` where the assertion fails. -/
def complete (t : Transaction) (now : Instant) : Option Transaction :=
  if t.state = .inProgress then some { t with state := .completed now } else none

def isStale (t : Transaction) (now : Instant) (maxAge : Duration) : Bool :=
  match t.state with
  | .inProgress => false
  | .completed txTime => decide (now - txTime > maxAge)

end Transaction

structure ClientTransactions where
  transactions : List Transaction
  lastActive : Instant
  activeTransactions : UInt16
  maxActiveTransactions : UInt16
  trimLimit : ℕ
  deriving DecidableEq

/-- `binary_search_by_key` on a list sorted by xid: the position of `xid`, or the one
where it would have to be inserted. -/
def binarySearchByKey (ts : List Transaction) (xid : UInt32) : Except ℕ ℕ :=
  let p := (ts.takeWhile fun t => t.xid < xid).length
  match ts[p]? with
  | some t => if t.xid = xid then .ok p else .error p
  | none => .error p

/-- The loop of `trim_if_needed`. -/
def trim (trimLimit : ℕ) : List Transaction → List Transaction
  | [] => []
  | t :: ts =>
    if (t :: ts).length > trimLimit then
      if t.state = .inProgress then t :: ts else trim trimLimit ts
    else t :: ts

namespace ClientTransactions

/-- `none` where the assertion fails. -/
def new (now : Instant) (maxActiveTransactions : UInt16) (trimLimit : ℕ) :
    Option ClientTransactions :=
  if maxActiveTransactions.toNat < trimLimit then
    some ⟨[], now, 0, maxActiveTransactions, trimLimit⟩
  else none

/-- The last entry is looked at before searching. -/
def findTransaction (c : ClientTransactions) (xid : UInt32) : Except ℕ ℕ :=
  match c.transactions.getLast? with
  | some last =>
    if last.xid = xid then .ok (c.transactions.length - 1)
    else if last.xid < xid then .error c.transactions.length
    else binarySearchByKey c.transactions xid
  | none => .error 0

def trimIfNeeded (c : ClientTransactions) : ClientTransactions :=
  { c with transactions := trim c.trimLimit c.transactions }

def addTransaction (c : ClientTransactions) (xid : UInt32) (now : Instant) :
    Except TransactionError Unit × ClientTransactions :=
  let c := { c with lastActive := now }
  match c.findTransaction xid with
  | .ok _ => (.error .alreadyExists, c)
  | .error p =>
    if c.activeTransactions ≥ c.maxActiveTransactions then (.error .tooManyRequests, c)
    else
      (.ok (), trimIfNeeded
        { c with
          activeTransactions := c.activeTransactions + 1
          transactions := c.transactions.insertIdx p (.inProgress xid) })

/-- `none` where the assertion of `complete` or the decrement of the counter fails. -/
def completeTransaction (c : ClientTransactions) (xid : UInt32) (now : Instant) :
    Option ClientTransactions :=
  let c := { c with lastActive := now }
  match c.findTransaction xid with
  | .ok p => do
    let t ← c.transactions[p]?
    let t ← t.complete now
    if c.activeTransactions = 0 then none
    else some { c with
      transactions := c.transactions.set p t
      activeTransactions := c.activeTransactions - 1 }
  | .error _ => some c

def removeOldTransactions (c : ClientTransactions) (now : Instant) (maxAge : Duration) :
    ClientTransactions :=
  { c with transactions := c.transactions.dropWhile fun t => t.isStale now maxAge }

def hasActiveTransactions (c : ClientTransactions) (now : Instant) (maxAge : Duration) : Bool :=
  c.transactions.any fun t => !t.isStale now maxAge

def isActive (c : ClientTransactions) (now : Instant) (maxAge : Duration) : Bool :=
  if now - c.lastActive < maxAge then true else c.hasActiveTransactions now maxAge

end ClientTransactions

structure TransactionTracker where
  retentionPeriod : Duration
  maxActiveTransactions : UInt16
  trimLimit : ℕ

abbrev ArcId := ℕ

/-- `client` is not a field of the source: it records for whom the lock was taken. -/
structure TransactionLock where
  transactions : ArcId
  xid : UInt32
  client : String
  deriving DecidableEq

/-- `locks` are the locks handed out and not dropped yet. -/
structure TrackerState where
  transactions : AList fun _ : String => ArcId
  arcs : List ClientTransactions
  locks : List TransactionLock

namespace TransactionTracker

def init : TrackerState := ⟨∅, [], []⟩

/-- `add_transaction` on a cell, and the lock for it. -/
def addTo (s : TrackerState) (arc : ArcId) (clientAddr : String) (xid : UInt32) (now : Instant) :
    Option (Except TransactionError TransactionLock × TrackerState) := do
  let c ← s.arcs[arc]?
  let (r, c') := c.addTransaction xid now
  let s' := { s with arcs := s.arcs.set arc c' }
  match r with
  | .ok () =>
    let lock : TransactionLock := ⟨arc, xid, clientAddr⟩
    some (.ok lock, { s' with locks := lock :: s'.locks })
  | .error e => some (.error e, s')

def startTransaction (tr : TransactionTracker) (s : TrackerState) (clientAddr : String)
    (xid : UInt32) (now : Instant) :
    Option (Except TransactionError TransactionLock × TrackerState) :=
  match s.transactions.lookup clientAddr with
  | some arc => addTo s arc clientAddr xid now
  | none => do
    let c ← ClientTransactions.new now tr.maxActiveTransactions tr.trimLimit
    let arc := s.arcs.length
    addTo
      { s with
        transactions := s.transactions.insert clientAddr arc
        arcs := s.arcs ++ [c] }
      arc clientAddr xid now

/-- `Drop for TransactionLock`. -/
def dropLock (tr : TransactionTracker) (s : TrackerState) (lock : TransactionLock)
    (now : Instant) : Option TrackerState := do
  let c ← s.arcs[lock.transactions]?
  let c ← c.completeTransaction lock.xid now
  some { s with
    arcs := s.arcs.set lock.transactions (c.removeOldTransactions now tr.retentionPeriod)
    locks := s.locks.erase lock }

/-- One call of the closure `cleanup` passes to `retain`. -/
def cleanupClient (tr : TransactionTracker) (s : TrackerState) (clientAddr : String)
    (now : Instant) : Option TrackerState :=
  match s.transactions.lookup clientAddr with
  | none => some s
  | some arc => do
    let c ← s.arcs[arc]?
    if c.isActive now tr.retentionPeriod then
      some { s with arcs := s.arcs.set arc (c.removeOldTransactions now tr.retentionPeriod) }
    else
      some { s with transactions := s.transactions.erase clientAddr }

def cleanup (tr : TransactionTracker) (s : TrackerState) (now : Instant) : Option TrackerState :=
  s.transactions.keys.foldlM (fun s clientAddr => tr.cleanupClient s clientAddr now) s

end TransactionTracker

/-- The steps of an interleaving. `cleanupClient` is the part of a `cleanup` that runs
under one mutex, for those that are interleaved with drops. -/
inductive Op
  | start (clientAddr : String) (xid : UInt32) (now : Instant)
  | drop (lock : TransactionLock) (now : Instant)
  | cleanup (now : Instant)
  | cleanupClient (clientAddr : String) (now : Instant)

def Op.now : Op → Instant
  | .start _ _ now | .drop _ now | .cleanup now | .cleanupClient _ now => now

/-- Only a lock that is live can be dropped. -/
def Op.Enabled (s : TrackerState) : Op → Prop
  | .drop lock _ => lock ∈ s.locks
  | _ => True

instance (s : TrackerState) (op : Op) : Decidable (op.Enabled s) :=
  match op with
  | .drop lock _ => inferInstanceAs (Decidable (lock ∈ s.locks))
  | .start _ _ _ | .cleanup _ | .cleanupClient _ _ => isTrue trivial

def step (tr : TransactionTracker) (s : TrackerState) : Op → Option TrackerState
  | .start clientAddr xid now => (tr.startTransaction s clientAddr xid now).map Prod.snd
  | .drop lock now => tr.dropLock s lock now
  | .cleanup now => tr.cleanup s now
  | .cleanupClient clientAddr now => tr.cleanupClient s clientAddr now

end Nfs3.Tracker
