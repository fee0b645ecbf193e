import Nfs3.Server.TcpLocks
import Nfs3.Server.TrackerWindow

/-!
# Calls are carried out once

From the moment a call is under way, and for as long as its transaction is retained, no other
task is admitted for the same client and xid, unless the client floods the tracker with calls of
larger xids.
-/
namespace Nfs3.Tcp

open ByteOrder (Bytes)
open Interaction Prog
open Tracker (TransactionLock TransactionTracker TrackerState ClientTransactions cellOf Remembers)

/-! ## What the tracker remembers -/

section Covers

variable {tr : TransactionTracker} {s s' : TrackerState} {clientAddr : String} {xid : UInt32}
  {now : Tracker.Instant} {R : String → UInt32 → Prop}

/-- All that is remembered satisfies `R`. -/
def Covers (R : String → UInt32 → Prop) (s : TrackerState) : Prop :=
  ∀ clientAddr c, cellOf s clientAddr = some c → ∀ e ∈ c.transactions, R clientAddr e.xid

theorem covers_init : Covers R TransactionTracker.init := by
  intro clientAddr c hc
  cases hc

theorem mem_addTransaction {c : ClientTransactions} (hs : Tracker.Sorted c.transactions)
    {e : Tracker.Transaction} (he : e ∈ (c.addTransaction xid now).2.transactions) :
    e.xid = xid ∨ e ∈ c.transactions := by
  rcases Tracker.addTransaction_cases hs xid now with
    ⟨-, hadd⟩ | ⟨-, -, hadd⟩ | ⟨pre, post, hts, -, -, -, hadd⟩
  · rw [hadd] at he
    exact .inr he
  · rw [hadd] at he
    exact .inr he
  · rw [hadd] at he
    obtain ⟨dropped, hsplit, -⟩ := Tracker.trim_suffix c.trimLimit (pre ++ .inProgress xid :: post)
    have hmem : e ∈ pre ++ .inProgress xid :: post := by
      rw [hsplit]
      exact List.mem_append_right dropped he
    rw [hts]
    rcases List.mem_append.mp hmem with hmem | hmem
    · exact .inr (List.mem_append_left _ hmem)
    · rcases List.mem_cons.mp hmem with rfl | hmem
      · exact .inl rfl
      · exact .inr (List.mem_append_right _ hmem)

/-- Of the client that starts a transaction, the new xid is all that can be remembered more. -/
theorem start_entries (h : s.Inv tr) {r : Except Tracker.TransactionError TransactionLock}
    (hs : tr.startTransaction s clientAddr xid now = some (r, s')) {c' : ClientTransactions}
    (hc' : cellOf s' clientAddr = some c') {e : Tracker.Transaction} (he : e ∈ c'.transactions) :
    e.xid = xid ∨ ∃ c, cellOf s clientAddr = some c ∧ e ∈ c.transactions := by
  cases hc : cellOf s clientAddr with
  | some c =>
    obtain ⟨r₁, s₁, hs₁, hc₁, -⟩ := Tracker.start_self tr hc xid now
    cases hs.symm.trans hs₁
    cases hc'.symm.trans hc₁
    refine (mem_addTransaction (h.cellOf_inv hc).sorted he).imp_right fun hmem => ?_
    exact ⟨c, rfl, hmem⟩
  | none =>
    have hlookup : s.transactions.lookup clientAddr = none := by
      cases ha : s.transactions.lookup clientAddr with
      | none => rfl
      | some arc =>
        obtain ⟨c, hc₀, -⟩ := h.cell clientAddr arc ha
        rw [cellOf, ha, Option.bind_some, hc₀] at hc
        cases hc
    rw [TransactionTracker.startTransaction, hlookup] at hs
    obtain ⟨c₀, hnew, hs⟩ := Option.bind_eq_some_iff.mp hs
    have hempty : c₀.transactions = [] := by
      unfold ClientTransactions.new at hnew
      split_ifs at hnew
      cases hnew
      rfl
    obtain ⟨r₁, locks, hadd, -⟩ := Tracker.addTo_eq
      (s := { s with
        transactions := s.transactions.insert clientAddr s.arcs.length, arcs := s.arcs ++ [c₀] })
      (List.getElem?_concat_length) clientAddr xid now
    cases hs.symm.trans hadd
    rw [Tracker.cellOf_set_self (AList.lookup_insert _) List.getElem?_concat_length] at hc'
    cases hc'
    have hsorted : Tracker.Sorted c₀.transactions := hempty ▸ List.Pairwise.nil
    refine (mem_addTransaction hsorted he).imp_right fun hmem => ?_
    rw [hempty] at hmem
    cases hmem

theorem Covers.start (hcovers : Covers R s) (h : s.Inv tr)
    {r : Except Tracker.TransactionError TransactionLock}
    (hs : tr.startTransaction s clientAddr xid now = some (r, s')) (hnew : R clientAddr xid) :
    Covers R s' := by
  intro other c' hc' e he
  by_cases ho : other = clientAddr
  · subst ho
    rcases start_entries h hs hc' he with hx | ⟨c, hc, hmem⟩
    · rw [hx]
      exact hnew
    · exact hcovers other c hc e hmem
  · rw [Tracker.start_other h ho hs] at hc'
    exact hcovers other c' hc' e he

theorem Covers.removeOld {c : ClientTransactions}
    (hcovers : ∀ e ∈ c.transactions, R clientAddr e.xid)
    (maxAge : Tracker.Duration) :
    ∀ e ∈ (c.removeOldTransactions now maxAge).transactions, R clientAddr e.xid := by
  obtain ⟨pre, hts, -⟩ := Tracker.removeOld_suffix c now maxAge
  intro e he
  apply hcovers
  rw [hts]
  exact List.mem_append_right pre he

theorem Covers.dropLock (hcovers : Covers R s) (h : s.Inv tr) {lock : TransactionLock}
    (hl : lock ∈ s.locks) (hs : tr.dropLock s lock now = some s') : Covers R s' := by
  intro other c' hc'
  by_cases ho : other = lock.client
  · subst ho
    have ha := h.mapped lock hl
    obtain ⟨c, hc, -⟩ := h.cell _ _ ha
    have hcell : cellOf s lock.client = some c := by rw [cellOf, ha, Option.bind_some, hc]
    obtain ⟨pre, post, c₁, hts, hts₁, hc₁⟩ := Tracker.dropLock_self h hl hcell hs
    cases hc'.symm.trans hc₁
    refine Covers.removeOld (fun e he => ?_) _
    have hold := hcovers lock.client c hcell
    rw [hts] at hold
    rw [hts₁] at he
    rcases List.mem_append.mp he with he | he
    · exact hold e (List.mem_append_left _ he)
    · rcases List.mem_cons.mp he with rfl | he
      · exact hold (.inProgress lock.xid) (List.mem_append_right _ List.mem_cons_self)
      · exact hold e (List.mem_append_right _ (List.mem_cons_of_mem _ he))
  · rw [Tracker.dropLock_other h hl ho hs] at hc'
    exact hcovers other c' hc'

theorem Covers.cleanupClient (hcovers : Covers R s) (h : s.Inv tr)
    (hs : tr.cleanupClient s clientAddr now = some s') : Covers R s' := by
  intro other c' hc'
  by_cases ho : other = clientAddr
  · subst ho
    unfold TransactionTracker.cleanupClient at hs
    cases ha : s.transactions.lookup other with
    | none =>
      rw [ha] at hs
      cases hs
      exact hcovers other c' hc'
    | some arc =>
      rw [ha] at hs
      obtain ⟨c, hc, hs⟩ := Option.bind_eq_some_iff.mp hs
      have hcell : cellOf s other = some c := by rw [cellOf, ha, Option.bind_some, hc]
      split_ifs at hs
      · cases hs
        rw [Tracker.cellOf_set_self ha hc] at hc'
        cases hc'
        exact Covers.removeOld (hcovers other c hcell) _
      · cases hs
        rw [cellOf, AList.lookup_erase] at hc'
        cases hc'
  · rw [Tracker.cleanupClient_other h ho hs] at hc'
    exact hcovers other c' hc'

theorem Covers.cleanup (hcovers : Covers R s) (h : s.Inv tr) (hs : tr.cleanup s now = some s') :
    Covers R s' := by
  unfold TransactionTracker.cleanup at hs
  generalize s.transactions.keys = keys at hs
  induction keys generalizing s with
  | nil =>
    cases hs
    exact hcovers
  | cons client keys ih =>
    obtain ⟨s₁, hs₁, hs⟩ := Option.bind_eq_some_iff.mp hs
    obtain ⟨s₂, hs₂, h₂⟩ := h.cleanupClient client now
    cases hs₁.symm.trans hs₂
    exact ih (hcovers.cleanupClient h hs₁) h₂ hs

theorem Covers.mono {R' : String → UInt32 → Prop} (hcovers : Covers R s)
    (hR : ∀ clientAddr xid, R clientAddr xid → R' clientAddr xid) : Covers R' s := by
  intro clientAddr c hc e he
  exact hR clientAddr e.xid (hcovers clientAddr c hc e he)

end Covers

/-! ## One call -/

section Once

variable {H I J σ : Type}

/-- A message of this client is a call with this xid. -/
def Called (ps : List (Phase H I J)) (clientAddr : String) (xid : UInt32) : Prop :=
  ∃ p ∈ ps, p.incoming.clientAddr = clientAddr ∧ callXid p.incoming.message = some xid

/-- The calls of a client with a larger xid. -/
def larger (clientAddr : String) (xid : UInt32) (incoming : List Incoming) : List Incoming :=
  incoming.filter fun i => i.clientAddr = clientAddr && (callXid i.message).any (xid < ·)

/-- The tracker has admitted the call. -/
def admitted (asked : History (ServerCall H I J) ServerCall.Reply) : Bool :=
  asked.any fun e =>
    match e with
    | ⟨.startTransaction .., (.ok _ : Except Tracker.TransactionError TransactionLock)⟩ => true
    | _ => false

/-- A client with few calls of larger xids leaves the xid in the list. -/
theorem spares_of_larger {ps : List (Phase H I J)} {clientAddr : String} {xid new : UInt32}
    {c : ClientTransactions} (hsorted : Tracker.Sorted c.transactions)
    (hcovers : ∀ e ∈ c.transactions, Called ps clientAddr e.xid)
    (hxid : ∃ e ∈ c.transactions, e.xid = xid) (hnew : Called ps clientAddr new)
    (haccepts : Tracker.Accepts c new)
    (hfew : (larger clientAddr xid (ps.map Phase.incoming)).length < c.trimLimit) :
    Tracker.Spares c.trimLimit c.transactions new xid := by
  by_cases hlt : new < xid
  · exact .inl hlt
  have hgt : xid < new := by
    obtain ⟨e, he, rfl⟩ := hxid
    exact UInt32.lt_of_le_of_ne (UInt32.not_lt.mp hlt) (haccepts.1 e he)
  refine .inr (.inr (Nat.lt_of_le_of_lt ?_ hfew))
  have hlist : ∀ x, x = new ∨ (∃ e ∈ c.transactions, xid < e.xid ∧ e.xid = x) →
      x ∈ (larger clientAddr xid (ps.map Phase.incoming)).filterMap
        fun i => callXid i.message := by
    intro x hx
    have hcalled : Called ps clientAddr x ∧ xid < x := by
      rcases hx with rfl | ⟨e, he, hlt, rfl⟩
      · exact ⟨hnew, hgt⟩
      · exact ⟨hcovers e he, hlt⟩
    obtain ⟨⟨p, hp, hclient, hx⟩, hlt⟩ := hcalled
    refine List.mem_filterMap.mpr ⟨p.incoming, ?_, hx⟩
    refine List.mem_filter.mpr ⟨List.mem_map_of_mem hp, ?_⟩
    simp [hclient, hx, hlt]
  have hnodup : (new :: (c.transactions.filter fun e => xid < e.xid).map
      Tracker.Transaction.xid).Nodup := by
    refine List.nodup_cons.mpr ⟨fun hmem => ?_, ?_⟩
    · obtain ⟨e, he, heq⟩ := List.mem_map.mp hmem
      exact haccepts.1 e (List.mem_filter.mp he).1 heq
    · exact hsorted.xids_nodup.sublist (List.filter_sublist.map _)
  have hsubset : (new :: (c.transactions.filter fun e => xid < e.xid).map
      Tracker.Transaction.xid) ⊆ (larger clientAddr xid (ps.map Phase.incoming)).filterMap
        fun i => callXid i.message := by
    intro x hx
    refine hlist x ((List.mem_cons.mp hx).imp_right fun hmem => ?_)
    obtain ⟨e, he, heq⟩ := List.mem_map.mp hmem
    obtain ⟨he, hlt⟩ := List.mem_filter.mp he
    exact ⟨e, he, by simpa using hlt, heq⟩
  have hlength := (List.subperm_of_subset hnodup hsubset).length_le
  rw [List.length_cons, List.length_map] at hlength
  exact hlength.trans (List.length_filterMap_le _ _)

/-- A call that is watched: its task, its client and xid, since when, and where the tasks were
then. -/
structure Watch (H I J : Type) where
  index : ℕ
  clientAddr : String
  xid : UInt32
  since : Tracker.Instant
  before : List (Phase H I J)

/-- The call is under way or remembered, and no task was admitted for it meanwhile. -/
structure Once (w : Watch H I J) (shared : Service σ) (ps : List (Phase H I J)) : Prop where
  locked : Locked shared ps
  covers : Covers (Called ps) shared.tracker
  since_le : w.since ≤ shared.now
  known : (∃ p lock, ps[w.index]? = some p ∧ p.lock = some lock ∧ lock.client = w.clientAddr ∧
      lock.xid = w.xid) ∨
    ∃ t, w.since ≤ t ∧ Remembers shared.tracker w.clientAddr w.xid t
  old : ∀ (j : ℕ) (p : Phase H I J), ps[j]? = some p → p.incoming.clientAddr = w.clientAddr →
    callXid p.incoming.message = some w.xid → admitted p.asked = true →
    ∃ q, w.before[j]? = some q ∧ admitted q.asked = true

variable {w : Watch H I J} {shared shared' : Service σ} {ps : List (Phase H I J)}

theorem called_set {index : ℕ} {p p' : Phase H I J} (hp : ps[index]? = some p)
    (hincoming : p'.incoming = p.incoming) {clientAddr : String} {xid : UInt32}
    (h : Called ps clientAddr xid) : Called (ps.set index p') clientAddr xid := by
  obtain ⟨q, hq, hcall⟩ := h
  obtain ⟨j, hj⟩ := List.getElem?_of_mem hq
  by_cases hij : index = j
  · subst hij
    cases hp.symm.trans hj
    rw [← hincoming] at hcall
    obtain ⟨hlt, -⟩ := List.getElem?_eq_some_iff.mp hp
    exact ⟨p', List.mem_of_getElem? (List.getElem?_set_self hlt), hcall⟩
  · rw [← List.getElem?_set_ne hij] at hj
    exact ⟨q, List.mem_of_getElem? hj, hcall⟩

theorem Once.set {index : ℕ} {p p' : Phase H I J} (h : Once w shared ps) (hp : ps[index]? = some p)
    (hincoming : p'.incoming = p.incoming) (hlocked : Locked shared' (ps.set index p'))
    (hcovers : Covers (Called ps) shared'.tracker) (hnow : shared'.now = shared.now)
    (hknown : (∃ q lock, (ps.set index p')[w.index]? = some q ∧ q.lock = some lock ∧
        lock.client = w.clientAddr ∧ lock.xid = w.xid) ∨
      ∃ t, w.since ≤ t ∧ Remembers shared'.tracker w.clientAddr w.xid t)
    (hadmitted : p.incoming.clientAddr = w.clientAddr →
      callXid p.incoming.message = some w.xid → admitted p'.asked = true →
      admitted p.asked = true) : Once w shared' (ps.set index p') where
  locked := hlocked
  covers := hcovers.mono fun _ _ => called_set hp hincoming
  since_le := hnow ▸ h.since_le
  known := hknown
  old := by
    intro j q hq hclient hxid hq'
    obtain ⟨hlt, -⟩ := List.getElem?_eq_some_iff.mp hp
    by_cases hij : index = j
    · subst hij
      rw [List.getElem?_set_self hlt] at hq
      cases hq
      rw [hincoming] at hclient hxid
      exact h.old index p hp hclient hxid (hadmitted hclient hxid hq')
    · rw [List.getElem?_set_ne hij] at hq
      exact h.old j q hq hclient hxid hq'

/-- The task whose call is watched keeps its lock, or the tracker its memory. -/
theorem Once.known_set {index : ℕ} {p p' : Phase H I J} (h : Once w shared ps)
    (hp : ps[index]? = some p)
    (hlock : index = w.index → ∀ lock, p.lock = some lock → lock.client = w.clientAddr →
      lock.xid = w.xid → p'.lock = some lock ∨
        ∃ t, w.since ≤ t ∧ Remembers shared'.tracker w.clientAddr w.xid t)
    (hremembers : ∀ t, w.since ≤ t → Remembers shared.tracker w.clientAddr w.xid t →
      Remembers shared'.tracker w.clientAddr w.xid t) :
    (∃ q lock, (ps.set index p')[w.index]? = some q ∧ q.lock = some lock ∧
        lock.client = w.clientAddr ∧ lock.xid = w.xid) ∨
      ∃ t, w.since ≤ t ∧ Remembers shared'.tracker w.clientAddr w.xid t := by
  rcases h.known with ⟨q, lock, hq, hqlock, hclient, hxid⟩ | ⟨t, ht, hr⟩
  · by_cases hij : index = w.index
    · subst hij
      cases hp.symm.trans hq
      obtain ⟨hlt, -⟩ := List.getElem?_eq_some_iff.mp hp
      refine (hlock rfl lock hqlock hclient hxid).imp_left fun hlock' => ?_
      exact ⟨p', lock, List.getElem?_set_self hlt, hlock', hclient, hxid⟩
    · refine .inl ⟨q, lock, ?_, hqlock, hclient, hxid⟩
      rwa [List.getElem?_set_ne hij]
  · exact .inr ⟨t, ht, hremembers t ht hr⟩

theorem Once.refused (h : Once w shared ps) {now : Tracker.Instant}
    {r : Except Tracker.TransactionError TransactionLock} {tracker : TrackerState}
    (hstart : newTransactionTracker.startTransaction shared.tracker w.clientAddr w.xid now =
      some (r, tracker)) : r = .error .alreadyExists := by
  rcases h.known with ⟨p, lock, hp, hlock, hclient, hxid⟩ | ⟨t, -, hr⟩
  · have hmem : lock ∈ shared.tracker.locks :=
      h.locked.locks.mem_iff.mp (List.mem_filterMap.mpr ⟨p, List.mem_of_getElem? hp, hlock⟩)
    obtain ⟨r₁, tracker₁, hstart₁, -, hr₁⟩ :=
      h.locked.tracker.start trackerLimits w.clientAddr w.xid now
    cases hstart.symm.trans hstart₁
    apply hr₁
    rw [← hclient, ← hxid]
    exact Tracker.mem_xidsOf hmem
  · obtain ⟨tracker₁, hstart₁⟩ := hr.recognises h.locked.tracker now
    cases hstart.symm.trans hstart₁
    rfl

/-- The tracker does not forget the call when it admits another one. -/
theorem Once.start_remembers (h : Once w shared ps) {clientAddr : String} {new : UInt32}
    {now t : Tracker.Instant} {r : Except Tracker.TransactionError TransactionLock}
    {tracker : TrackerState}
    (hstart : newTransactionTracker.startTransaction shared.tracker clientAddr new now =
      some (r, tracker))
    (hcalled : Called ps clientAddr new)
    (hfew : (larger w.clientAddr w.xid (ps.map Phase.incoming)).length < 2048)
    (hr : Remembers shared.tracker w.clientAddr w.xid t) :
    Remembers tracker w.clientAddr w.xid t := by
  refine Tracker.start_remembers h.locked.tracker hr ?_ hstart
  rintro rfl c hc haccepts
  have hinv := h.locked.tracker.cellOf_inv hc
  obtain ⟨c₁, hc₁, hmem⟩ := hr
  cases hc.symm.trans hc₁
  have htrim : c.trimLimit = 2048 := hinv.trim_eq
  refine spares_of_larger hinv.sorted (h.covers _ c hc) ⟨_, hmem, rfl⟩ hcalled haccepts ?_
  rw [htrim]
  exact hfew

variable [FileHandle H] {listener : NFSTcpListener}
  {vfs : σ → (c : VfsCall H I J) → Option (Option c.Reply × σ)}

theorem covers_task {index : ℕ} {p : Phase H I J} {c : SocketCall H I J} {r : c.Reply}
    (hlocked : Locked shared ps) (hcovers : Covers (Called ps) shared.tracker)
    (hp : ps[index]? = some p) (hallowed : (taskProtocol listener).allows p c)
    (hanswer : Service.answer vfs shared c = some (r, shared')) :
    Covers (Called ps) shared'.tracker := by
  have hmem := List.mem_of_getElem? hp
  cases c with
  | send connection message =>
    cases hanswer
    exact hcovers
  | server c =>
    obtain ⟨hstage, -⟩ := hallowed
    cases c with
    | mountSignal mounted =>
      cases hanswer
      exact hcovers
    | vfs c =>
      obtain ⟨r', -, hr⟩ := Option.map_eq_some_iff.mp hanswer
      cases hr
      exact hcovers
    | startTransaction clientAddr xid =>
      obtain ⟨⟨r', tracker⟩, hstart, hr⟩ := Option.map_eq_some_iff.mp hanswer
      cases hr
      obtain ⟨hclient, call, rest, hcall⟩ := asks_of_allows hstage
      exact hcovers.start hlocked.tracker hstart ⟨p, hmem, hclient, callXid_of_isCall hcall⟩
    | dropLock lock =>
      obtain ⟨tracker, hdrop, hr⟩ := Option.map_eq_some_iff.mp hanswer
      cases hr
      have hlock : p.lock = some lock := lock_of_allows_drop hstage
      refine hcovers.dropLock hlocked.tracker ?_ hdrop
      exact hlocked.locks.mem_iff.mp (List.mem_filterMap.mpr ⟨p, hmem, hlock⟩)

omit [FileHandle H] in
theorem covers_perform {event : Event} {incoming : Option Incoming} (hlocked : Locked shared ps)
    (hcovers : Covers (Called ps) shared.tracker)
    (hperform : shared.perform event = some (shared', incoming)) :
    Covers (Called ps) shared'.tracker := by
  rcases perform_cases hperform with ⟨hsame, -⟩ | ⟨hclean, -⟩ | ⟨clientAddr, hclean, -⟩
  · rw [hsame]
    exact hcovers
  · exact hcovers.cleanup hlocked.tracker hclean
  · exact hcovers.cleanupClient hlocked.tracker hclean

omit [FileHandle H] in
theorem called_append {arrived : List (Phase H I J)} {clientAddr : String} {xid : UInt32}
    (h : Called ps clientAddr xid) : Called (ps ++ arrived) clientAddr xid := by
  obtain ⟨p, hp, hcall⟩ := h
  exact ⟨p, List.mem_append_left _ hp, hcall⟩

theorem covers_stepped {event : Event} {ps' : List (Phase H I J)} (hlocked : Locked shared ps)
    (hcovers : Covers (Called ps) shared.tracker)
    (hstep : Stepped listener vfs shared ps event shared' ps') :
    Covers (Called ps') shared'.tracker := by
  cases hstep with
  | task phase allowed answered =>
    refine (covers_task hlocked hcovers phase allowed answered).mono fun _ _ => ?_
    exact called_set phase (incoming_next _ _ _)
  | other performed =>
    exact (covers_perform hlocked hcovers performed).mono fun _ _ => called_append

theorem Once.task {index : ℕ} {p : Phase H I J} {c : SocketCall H I J} {r : c.Reply}
    (h : Once w shared ps) (hp : ps[index]? = some p)
    (hallowed : (taskProtocol listener).allows p c)
    (hanswer : Service.answer vfs shared c = some (r, shared'))
    (hnow : shared.now ≤ w.since + transactionLifetime)
    (hfew : (larger w.clientAddr w.xid (ps.map Phase.incoming)).length < 2048) :
    Once w shared' (ps.set index ((taskProtocol listener).next p c r)) := by
  have hlocked := h.locked.task hp hallowed hanswer
  have hcovers := covers_task h.locked h.covers hp hallowed hanswer
  have hkeep (htracker : shared'.tracker = shared.tracker) (hnow' : shared'.now = shared.now)
      (hincoming : ((taskProtocol listener).next p c r).incoming = p.incoming)
      (hlock : ((taskProtocol listener).next p c r).lock = p.lock)
      (hadmitted : admitted ((taskProtocol listener).next p c r).asked = admitted p.asked) :
      Once w shared' (ps.set index ((taskProtocol listener).next p c r)) := by
    refine h.set hp hincoming hlocked hcovers hnow' ?_ fun _ _ ha => hadmitted ▸ ha
    refine h.known_set hp (fun _ lock hl _ _ => .inl (hlock.trans hl)) fun t _ hr => ?_
    rwa [htracker]
  have happend (e : Σ c : ServerCall H I J, c.Reply) (he : admitted [e] = false) :
      admitted (p.asked ++ [e]) = admitted p.asked := by
    unfold admitted at he ⊢
    rw [List.any_append, he, Bool.or_false]
  cases c with
  | send connection message =>
    cases hanswer
    exact hkeep rfl rfl rfl rfl rfl
  | server c =>
    obtain ⟨hstage, -⟩ := hallowed
    cases c with
    | mountSignal mounted =>
      cases hanswer
      exact hkeep rfl rfl rfl rfl (happend ⟨.mountSignal mounted, ()⟩ rfl)
    | vfs c =>
      obtain ⟨⟨r', fs⟩, -, hr⟩ := Option.map_eq_some_iff.mp hanswer
      cases hr
      cases (r' : Option c.Reply) with
      | none => exact hkeep rfl rfl rfl rfl rfl
      | some r' => exact hkeep rfl rfl rfl rfl (happend ⟨.vfs c, r'⟩ rfl)
    | startTransaction clientAddr xid =>
      obtain ⟨⟨r', tracker⟩, hstart, hr⟩ := Option.map_eq_some_iff.mp hanswer
      cases hr
      obtain ⟨incoming, asked, stage, sent⟩ := p
      cases stage with
      | holding lock => cases hstage
      | released => cases hstage
      | fresh =>
        obtain ⟨rfl, call, rest, hcall⟩ := hstage
        have hxid := callXid_of_isCall hcall
        have hcalled : Called ps incoming.clientAddr xid :=
          ⟨_, List.mem_of_getElem? hp, rfl, hxid⟩
        refine h.set hp rfl hlocked hcovers rfl ?_ ?_
        · refine h.known_set hp (fun _ lock hl => by cases hl) fun t _ hr => ?_
          exact h.start_remembers hstart hcalled hfew hr
        · intro hclient hwatched
          have hclient : incoming.clientAddr = w.clientAddr := hclient
          cases hxid.symm.trans hwatched
          rw [hclient] at hstart
          obtain rfl := h.refused hstart
          intro ha
          have he := happend (started incoming.clientAddr w.xid (.error .alreadyExists)) rfl
          exact he ▸ ha
    | dropLock lock =>
      obtain ⟨tracker, hdrop, hr⟩ := Option.map_eq_some_iff.mp hanswer
      cases hr
      have hlock : p.lock = some lock := lock_of_allows_drop hstage
      have hmem : lock ∈ shared.tracker.locks :=
        h.locked.locks.mem_iff.mp
          (List.mem_filterMap.mpr ⟨p, List.mem_of_getElem? hp, hlock⟩)
      refine h.set hp rfl hlocked hcovers rfl ?_ ?_
      · refine h.known_set hp (fun _ lock' hl hclient hxid => ?_) fun t ht hr => ?_
        · cases hlock.symm.trans hl
          have hremembers := Tracker.drop_remembers h.locked.tracker hmem hdrop
          rw [hclient, hxid] at hremembers
          exact .inr ⟨shared.now, h.since_le, hremembers⟩
        · refine Tracker.dropLock_remembers h.locked.tracker hr ?_ hmem hdrop
          exact Nat.sub_le_iff_le_add'.mpr (hnow.trans (Nat.add_le_add_right ht _))
      · intro _ _ ha
        exact happend (dropped lock) rfl ▸ ha

omit [FileHandle H] in
theorem Once.other {event : Event} {incoming : Option Incoming} (h : Once w shared ps)
    (hlocked : Locked shared' (ps ++ incoming.toList.map Phase.start))
    (hperform : shared.perform event = some (shared', incoming))
    (hnow : shared.now ≤ w.since + transactionLifetime) :
    Once w shared' (ps ++ incoming.toList.map Phase.start) := by
  have htracker := h.locked.tracker
  have hretained (t : Tracker.Instant) (ht : w.since ≤ t) :
      shared.now - t ≤ newTransactionTracker.retentionPeriod :=
    Nat.sub_le_iff_le_add'.mpr (hnow.trans (Nat.add_le_add_right ht _))
  have hcovers := covers_perform h.locked h.covers hperform
  obtain ⟨hsince, hremembers⟩ : shared.now ≤ shared'.now ∧ ∀ t, w.since ≤ t →
      Remembers shared.tracker w.clientAddr w.xid t →
      Remembers shared'.tracker w.clientAddr w.xid t := by
    rcases perform_cases hperform with ⟨hsame, hle⟩ | ⟨hclean, heq⟩ | ⟨clientAddr, hclean, heq⟩
    · rw [hsame]
      exact ⟨hle, fun _ _ hr => hr⟩
    · refine ⟨heq.ge, fun t ht hr => ?_⟩
      exact Tracker.cleanup_remembers htracker hr (hretained t ht) hclean
    · refine ⟨heq.ge, fun t ht hr => ?_⟩
      exact Tracker.cleanupClient_remembers htracker hr (hretained t ht) hclean
  refine ⟨hlocked, hcovers.mono fun _ _ => called_append, h.since_le.trans hsince, ?_, ?_⟩
  · rcases h.known with ⟨p, lock, hp, hlock⟩ | ⟨t, ht, hr⟩
    · obtain ⟨hlt, -⟩ := List.getElem?_eq_some_iff.mp hp
      exact .inl ⟨p, lock, (List.getElem?_append_left hlt).trans hp, hlock⟩
    · exact .inr ⟨t, ht, hremembers t ht hr⟩
  · intro j p hp hclient hxid hadmitted
    by_cases hlt : j < ps.length
    · rw [List.getElem?_append_left hlt] at hp
      exact h.old j p hp hclient hxid hadmitted
    · -- a task that has just been started has asked nothing
      rw [List.getElem?_append_right (Nat.le_of_not_lt hlt)] at hp
      obtain ⟨i, -, rfl⟩ := List.mem_map.mp (List.mem_of_getElem? hp)
      cases hadmitted

theorem Once.stepped {event : Event} {ps' : List (Phase H I J)} (h : Once w shared ps)
    (hstep : Stepped listener vfs shared ps event shared' ps')
    (hnow : shared.now ≤ w.since + transactionLifetime)
    (hfew : (larger w.clientAddr w.xid (ps.map Phase.incoming)).length < 2048) :
    Once w shared' ps' := by
  have hlocked := h.locked.stepped hstep
  cases hstep with
  | task phase allowed answered => exact h.task phase allowed answered hnow hfew
  | other performed => exact h.other hlocked performed hnow

omit [FileHandle H] in
theorem now_answer {c : SocketCall H I J} {r : c.Reply}
    (h : Service.answer vfs shared c = some (r, shared')) : shared'.now = shared.now := by
  cases c with
  | send connection message =>
    cases h
    rfl
  | server c =>
    cases c with
    | mountSignal mounted =>
      cases h
      rfl
    | vfs c =>
      obtain ⟨r', -, hr⟩ := Option.map_eq_some_iff.mp h
      cases hr
      rfl
    | startTransaction clientAddr xid =>
      obtain ⟨r', -, hr⟩ := Option.map_eq_some_iff.mp h
      cases hr
      rfl
    | dropLock lock =>
      obtain ⟨r', -, hr⟩ := Option.map_eq_some_iff.mp h
      cases hr
      rfl

theorem step_grows {s s' : Server H I J σ} {event : Event}
    (h : s.step listener vfs event = some s') :
    s.shared.now ≤ s'.shared.now ∧ s.tasks.map Task.origin <+: s'.tasks.map Task.origin := by
  rcases step_cases h with ⟨index, rfl, hturn⟩ | ⟨shared, incoming, hperform, rfl⟩
  · refine ⟨?_, Pool.turn_origins hturn⟩
    obtain ⟨origin, history, c, next, r, shared, -, hanswer, rfl⟩ := Pool.step_cases hturn
    exact (now_answer hanswer).ge
  · refine ⟨?_, ?_⟩
    · rcases perform_cases hperform with ⟨-, hle⟩ | ⟨-, heq⟩ | ⟨clientAddr, -, heq⟩
      · exact hle
      · exact heq.ge
      · exact heq.ge
    · rw [List.map_append]
      exact List.prefix_append _ _

theorem origin_of_run {s s' : Server H I J σ} {events : List Event}
    (hrun : Transition.run (Server.step listener vfs) s events = some s') {index : ℕ}
    {t t' : MessageTask H I J} (ht : s.tasks[index]? = some t) (ht' : s'.tasks[index]? = some t') :
    t.origin = t'.origin := by
  have hstep : ∀ (s₁ : Server H I J σ) event s₂,
      s.tasks.map Task.origin <+: s₁.tasks.map Task.origin → True →
      s₁.step listener vfs event = some s₂ →
      s.tasks.map Task.origin <+: s₂.tasks.map Task.origin :=
    fun _ _ _ h _ hstep => h.trans (step_grows hstep).2
  obtain ⟨arrived, happend⟩ := Transition.run_invariant hstep List.prefix_rfl
    (Transition.along_of_forall fun _ _ => trivial) hrun
  have horigin : (s.tasks.map Task.origin)[index]? = some t.origin := by
    rw [List.getElem?_map, ht, Option.map_some]
  obtain ⟨hlt, -⟩ := List.getElem?_eq_some_iff.mp horigin
  have hsame : (s.tasks.map Task.origin ++ arrived)[index]? = some t.origin :=
    (List.getElem?_append_left hlt).trans horigin
  rw [happend, List.getElem?_map, ht'] at hsame
  exact (Option.some.inj hsame).symm

/-- From when a call is under way, for as long as it is retained and while the client does not
call too often with larger xids: the only tasks admitted for the same client and xid are those
that had been admitted by then, and none of them but this one was still at work. -/
theorem executed_once (listener : NFSTcpListener)
    (vfs : σ → (c : VfsCall H I J) → Option (Option c.Reply × σ)) (fs : σ)
    (before after : List Event) (s₁ s₂ : Server H I J σ)
    (hbefore : Transition.run (Server.step listener vfs) (Server.init fs) before = some s₁)
    (hafter : Transition.run (Server.step listener vfs) s₁ after = some s₂)
    (index : ℕ) (t : MessageTask H I J) (ht : s₁.tasks[index]? = some t)
    (hunder : underWay t = true) (xid : UInt32) (hxid : callXid t.origin.message = some xid)
    (htime : s₂.shared.now ≤ s₁.shared.now + transactionLifetime)
    (hfew : (larger t.origin.clientAddr xid (s₂.tasks.map Task.origin)).length < 2048)
    (j : ℕ) (u : MessageTask H I J) (hu : s₂.tasks[j]? = some u)
    (hclient : u.origin.clientAddr = t.origin.clientAddr)
    (hcall : callXid u.origin.message = some xid)
    (hadmitted : admitted (askedIn u.history) = true) :
    ∃ u₁, s₁.tasks[j]? = some u₁ ∧ admitted (askedIn u₁.history) = true ∧
      (underWay u₁ = true → j = index) := by
  -- what holds when the call is under way
  obtain ⟨htrack, hlocked, hcovers⟩ := @run_phases _ _ _ _ _ listener vfs
    (fun shared ps => Locked shared ps ∧ Covers (Called ps) shared.tracker) (fun _ => True) fs
    ⟨.init fs, covers_init⟩
    (fun _ _ _ _ _ h _ hstep => ⟨h.1.stepped hstep, covers_stepped h.1 h.2 hstep⟩)
    before (fun _ _ => trivial) s₁ hbefore
  obtain ⟨lock, hlock, hlockClient, hlockXid⟩ :=
    lock_of_underWay htrack hlocked (List.mem_of_getElem? ht) hunder
  have hphase : (phases listener s₁)[index]? = some (phaseOf listener t) := by
    rw [phases_eq, List.getElem?_map, ht, Option.map_some]
  let w : Watch H I J :=
    ⟨index, t.origin.clientAddr, xid, s₁.shared.now, phases listener s₁⟩
  have honce : Once w s₁.shared (phases listener s₁) := by
    refine ⟨hlocked, hcovers, Nat.le_refl _, .inl ?_, fun i p hp _ _ ha => ⟨p, hp, ha⟩⟩
    exact ⟨_, lock, hphase, hlock, hlockClient, Option.some.inj (hlockXid.symm.trans hxid)⟩
  -- what holds of every state from there on
  have hnow := Transition.along_of_mono
    (f := fun s : Server H I J σ => s.shared.now) (fun _ _ _ h => (step_grows h).1) hafter htime
  have hlarger := Transition.along_of_mono
    (f := fun s : Server H I J σ => (larger w.clientAddr xid (s.tasks.map Task.origin)).length)
    (fun _ _ _ h => ((step_grows h).2.filter _).length_le) hafter (Nat.le_pred_of_lt hfew)
  have hkeeps : ∀ (s : Server H I J σ) event shared' ps',
      Once w s.shared (phases listener s) →
      s.shared.now ≤ w.since + transactionLifetime ∧
        (larger w.clientAddr xid (s.tasks.map Task.origin)).length ≤ 2048 - 1 →
      Stepped listener vfs s.shared (phases listener s) event shared' ps' → Once w shared' ps' := by
    rintro s event shared' ps' h ⟨hnow, hlarger⟩ hstep
    refine h.stepped hstep hnow ?_
    rw [incoming_phases]
    exact Nat.lt_of_le_pred (by decide) hlarger
  obtain ⟨-, honce'⟩ := run_phases_from hkeeps ⟨htrack, honce⟩ (hnow.and hlarger) hafter
  -- the task that was admitted, then
  have hphase' : (phases listener s₂)[j]? = some (phaseOf listener u) := by
    rw [phases_eq, List.getElem?_map, hu, Option.map_some]
  rw [← asked_phaseOf listener u] at hadmitted
  obtain ⟨q, hq, hqadmitted⟩ := honce'.old j _ hphase'
    ((congrArg _ (incoming_phaseOf listener u)).trans hclient)
    ((congrArg _ (congrArg _ (incoming_phaseOf listener u))).trans hcall) hadmitted
  change (phases listener s₁)[j]? = some q at hq
  rw [phases_eq, List.getElem?_map] at hq
  obtain ⟨u₁, hu₁, rfl⟩ := Option.map_eq_some_iff.mp hq
  rw [asked_phaseOf] at hqadmitted
  refine ⟨u₁, hu₁, hqadmitted, fun hunder₁ => ?_⟩
  have horigin : u₁.origin = u.origin := origin_of_run hafter hu₁ hu
  rw [← horigin] at hclient hcall
  have hexclusive : Exclusive vfs s₁ := hlocked.exclusive htrack
  exact hexclusive.one j index u₁ t hu₁ ht hunder₁ hunder hclient (hcall.trans hxid.symm)

end Once

/-- A file system that panics. -/
def panickingVfs (_ : Unit) (c : VfsCall FileHandleU64 Unit Unit) :
    Option (Option c.Reply × Unit) :=
  some (none, ())

/-- The call arrives and is admitted. -/
def firstCall : List Event :=
  [.accept "a", .receive 0 (RpcWire.fragmentBytes true getattrCall), .read 0, .task 0]

/-- The file system panics, the lock is dropped, and the client retransmits ten seconds later. -/
def secondCall : List Event :=
  [.task 0, .task 0, .clock 10000000000, .receive 0 (RpcWire.fragmentBytes true getattrCall),
    .read 0, .task 1]

theorem executed_once_panic :
    ∃ s₁ s₂, Transition.run (Server.step ⟨2049, false, "/", ⟨0⟩⟩ panickingVfs) (Server.init ())
        firstCall = some s₁ ∧
      Transition.run (Server.step ⟨2049, false, "/", ⟨0⟩⟩ panickingVfs) s₁ secondCall = some s₂ ∧
      s₂.tasks.length = 2 ∧
      ∀ j u, s₂.tasks[j]? = some u → u.origin.clientAddr = "a" →
        callXid u.origin.message = some 7 → admitted (askedIn u.history) = true → j = 0 := by
  have hfirst : (Transition.run (Server.step ⟨2049, false, "/", ⟨0⟩⟩ panickingVfs) (Server.init ())
      firstCall).map (fun s => (s.shared.now,
        s.tasks.map fun t => (underWay t, t.origin.clientAddr, callXid t.origin.message))) =
      some (0, [(true, "a", some 7)]) := by
    decide +kernel
  have hboth : (Transition.run (Server.step ⟨2049, false, "/", ⟨0⟩⟩ panickingVfs) (Server.init ())
      (firstCall ++ secondCall)).map (fun s => (s.shared.now, s.tasks.length,
        (larger "a" 7 (s.tasks.map Task.origin)).length)) = some (10000000000, 2, 0) := by
    decide +kernel
  obtain ⟨s₁, hs₁, htasks⟩ := Option.map_eq_some_iff.mp hfirst
  rw [Transition.run_append, hs₁, Option.bind_some] at hboth
  obtain ⟨s₂, hs₂, hlength⟩ := Option.map_eq_some_iff.mp hboth
  obtain ⟨hnow₁, htasks⟩ := Prod.mk.inj htasks
  obtain ⟨hnow₂, hlength⟩ := Prod.mk.inj hlength
  obtain ⟨hlength, hlarger⟩ := Prod.mk.inj hlength
  obtain ⟨t, ht, hcall⟩ := List.map_eq_singleton_iff.mp htasks
  obtain ⟨hunder, hcall⟩ := Prod.mk.inj hcall
  obtain ⟨hclient, hxid⟩ := Prod.mk.inj hcall
  have hget : s₁.tasks[0]? = some t := by rw [ht, List.getElem?_cons_zero]
  refine ⟨s₁, s₂, hs₁, hs₂, hlength, fun j u hu hclient' hcall' hadmitted => ?_⟩
  obtain ⟨u₁, hu₁, -, -⟩ := executed_once _ _ () firstCall secondCall s₁ s₂ hs₁ hs₂ 0 t hget
    hunder 7 hxid (by rw [hnow₁, hnow₂]; decide) (by rw [hclient, hlarger]; decide) j u hu
    (hclient'.trans hclient.symm) hcall' hadmitted
  have hj : j < s₁.tasks.length := (List.getElem?_eq_some_iff.mp hu₁).1
  rw [ht, List.length_singleton] at hj
  exact Nat.lt_one_iff.mp hj

end Nfs3.Tcp
