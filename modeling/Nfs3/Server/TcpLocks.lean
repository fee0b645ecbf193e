import Nfs3.Server.TcpTasks
import Nfs3.Server.TrackerInvariant

/-!
# One task for each call under way

The locks of the tracker are, up to order, those the tasks hold. A call that is being carried out
is therefore carried out by one task only, and none of its locks outlives the tasks, even if the
file system panics.
-/
namespace Nfs3.Tcp

open ByteOrder (Bytes)
open Interaction Prog
open Tracker (TransactionLock TransactionTracker TrackerState)

/-! ## What the tracker does to its locks -/

section Tracker

variable {tr : TransactionTracker} {s s' : TrackerState} {clientAddr : String} {xid : UInt32}
  {now : Tracker.Instant}

/-- A call is admitted with a new lock of its own, or nothing changes for the locks. -/
inductive Admits (locks locks' : List TransactionLock) (clientAddr : String) (xid : UInt32) :
    Except Tracker.TransactionError TransactionLock → Prop
  | ok {lock : TransactionLock} (client_eq : lock.client = clientAddr) (xid_eq : lock.xid = xid)
      (locks_eq : locks' = lock :: locks) : Admits locks locks' clientAddr xid (.ok lock)
  | error {err : Tracker.TransactionError} (locks_eq : locks' = locks) :
      Admits locks locks' clientAddr xid (.error err)

theorem addTo_admits {arc : Tracker.ArcId} {r : Except Tracker.TransactionError TransactionLock}
    (h : TransactionTracker.addTo s arc clientAddr xid now = some (r, s')) :
    Admits s.locks s'.locks clientAddr xid r := by
  obtain ⟨c, -, h⟩ := Option.bind_eq_some_iff.mp h
  dsimp only at h
  split at h
  · cases h
    exact .ok rfl rfl rfl
  · cases h
    exact .error rfl

theorem startTransaction_admits {r : Except Tracker.TransactionError TransactionLock}
    (h : tr.startTransaction s clientAddr xid now = some (r, s')) :
    Admits s.locks s'.locks clientAddr xid r := by
  unfold TransactionTracker.startTransaction at h
  split at h
  · exact addTo_admits h
  · obtain ⟨c, -, h⟩ := Option.bind_eq_some_iff.mp h
    have hadmits := addTo_admits h
    exact hadmits

theorem locks_dropLock {lock : TransactionLock} (h : tr.dropLock s lock now = some s') :
    s'.locks = s.locks.erase lock := by
  obtain ⟨c, -, h⟩ := Option.bind_eq_some_iff.mp h
  obtain ⟨c', -, h⟩ := Option.bind_eq_some_iff.mp h
  cases h
  rfl

theorem locks_cleanupClient (h : tr.cleanupClient s clientAddr now = some s') :
    s'.locks = s.locks := by
  unfold TransactionTracker.cleanupClient at h
  split at h
  · cases h
    rfl
  · obtain ⟨c, -, h⟩ := Option.bind_eq_some_iff.mp h
    split_ifs at h
    · cases h
      rfl
    · cases h
      rfl

theorem locks_cleanup (h : tr.cleanup s now = some s') : s'.locks = s.locks := by
  unfold TransactionTracker.cleanup at h
  generalize s.transactions.keys = keys at h
  induction keys generalizing s with
  | nil =>
    cases h
    rfl
  | cons clientAddr keys ih =>
    obtain ⟨s₁, h₁, h⟩ := Option.bind_eq_some_iff.mp h
    exact (ih h).trans (locks_cleanupClient h₁)

theorem xidsOf_nodup (h : s.Inv tr) (clientAddr : String) :
    (Tracker.xidsOf s.locks clientAddr).Nodup := by
  cases ha : s.transactions.lookup clientAddr with
  | none =>
    rw [h.xidsOf_eq_nil ha]
    exact List.nodup_nil
  | some arc =>
    obtain ⟨c, -, hc⟩ := h.cell clientAddr arc ha
    refine hc.live.nodup_iff.mp ?_
    exact hc.sorted.xids_nodup.sublist (List.filter_sublist.map _)

/-- A client never has more live locks than it may have transactions. -/
theorem xidsOf_length (h : s.Inv tr) (clientAddr : String) :
    (Tracker.xidsOf s.locks clientAddr).length ≤ tr.maxActiveTransactions.toNat := by
  cases ha : s.transactions.lookup clientAddr with
  | none =>
    rw [h.xidsOf_eq_nil ha]
    exact Nat.zero_le _
  | some arc =>
    obtain ⟨c, -, hc⟩ := h.cell clientAddr arc ha
    rw [← hc.active, ← hc.max_eq]
    exact UInt16.le_iff_toNat_le.mp hc.bounded

theorem trackerLimits :
    newTransactionTracker.maxActiveTransactions.toNat < newTransactionTracker.trimLimit := by
  decide

end Tracker

/-! ## Locks of the tasks -/

section Locks

variable {H I J σ : Type}

/-- The locks are those of the tasks, each for the call of its task. -/
structure Locked (shared : Service σ) (ps : List (Phase H I J)) : Prop where
  tracker : shared.tracker.Inv newTransactionTracker
  locks : (ps.filterMap Phase.lock).Perm shared.tracker.locks
  own : ∀ p ∈ ps, ∀ lock, p.lock = some lock → lock.client = p.incoming.clientAddr ∧
    ∃ call rest, IsCall p.incoming.message lock.xid call rest

theorem Locked.init (fs : σ) : Locked (.init fs) ([] : List (Phase H I J)) where
  tracker := .init
  locks := .refl _
  own := by simp

theorem Locked.set {shared shared' : Service σ} {ps : List (Phase H I J)} {index : ℕ}
    {p p' : Phase H I J} (h : Locked shared ps) (hp : ps[index]? = some p)
    (htracker : shared'.tracker.Inv newTransactionTracker)
    (hlocks : ∀ rest, (p.lock.toList ++ rest).Perm shared.tracker.locks →
      (p'.lock.toList ++ rest).Perm shared'.tracker.locks)
    (hown : ∀ lock, p'.lock = some lock → lock.client = p'.incoming.clientAddr ∧
      ∃ call rest, IsCall p'.incoming.message lock.xid call rest) :
    Locked shared' (ps.set index p') := by
  obtain ⟨rest, hrest, hset⟩ := Pool.filterMap_set_perm Phase.lock hp
  refine ⟨htracker, (hset p').trans (hlocks rest (hrest.symm.trans h.locks)), ?_⟩
  intro q hq
  rcases List.mem_or_eq_of_mem_set hq with hq | rfl
  · exact h.own q hq
  · exact hown

/-- A step that leaves the lock of the task and the tracker alone. -/
theorem Locked.keep {shared shared' : Service σ} {ps : List (Phase H I J)} {index : ℕ}
    {p p' : Phase H I J} (h : Locked shared ps) (hp : ps[index]? = some p)
    (htracker : shared'.tracker = shared.tracker) (hlock : p'.lock = p.lock)
    (hincoming : p'.incoming = p.incoming) : Locked shared' (ps.set index p') := by
  refine h.set hp (htracker ▸ h.tracker) (fun rest hrest => ?_) ?_
  · rwa [hlock, htracker]
  · rw [hlock, hincoming]
    exact h.own p (List.mem_of_getElem? hp)

variable [FileHandle H] {listener : NFSTcpListener}
  {vfs : σ → (c : VfsCall H I J) → Option (Option c.Reply × σ)}

theorem Locked.task {shared shared' : Service σ} {ps : List (Phase H I J)} {index : ℕ}
    {p : Phase H I J} {c : SocketCall H I J} {r : c.Reply} (h : Locked shared ps)
    (hp : ps[index]? = some p) (hallowed : (taskProtocol listener).allows p c)
    (hanswer : Service.answer vfs shared c = some (r, shared')) :
    Locked shared' (ps.set index ((taskProtocol listener).next p c r)) := by
  cases c with
  | send connection message =>
    cases hanswer
    exact h.keep hp rfl rfl rfl
  | server c =>
    obtain ⟨hstage, -⟩ := hallowed
    cases c with
    | mountSignal mounted =>
      cases hanswer
      exact h.keep hp rfl rfl rfl
    | vfs c =>
      obtain ⟨⟨r', fs⟩, -, hr⟩ := Option.map_eq_some_iff.mp hanswer
      cases hr
      cases (r' : Option c.Reply) with
      | none => exact h.keep hp rfl rfl rfl
      | some r' => exact h.keep hp rfl rfl rfl
    | startTransaction clientAddr xid =>
      obtain ⟨⟨r', tracker⟩, hstart, hr⟩ := Option.map_eq_some_iff.mp hanswer
      cases hr
      obtain ⟨r₁, tracker₁, hstart₁, htracker, -⟩ :=
        h.tracker.start trackerLimits clientAddr xid shared.now
      cases hstart.symm.trans hstart₁
      obtain ⟨incoming, asked, stage, sent⟩ := p
      cases stage with
      | holding lock => cases hstage
      | released => cases hstage
      | fresh =>
        obtain ⟨rfl, hcall⟩ := hstage
        cases startTransaction_admits hstart with
        | ok hclient hxid hlocks =>
          refine h.set hp htracker (fun rest hrest => ?_) ?_
          · rw [hlocks]
            exact hrest.cons _
          · rintro _ ⟨⟩
            rw [hxid]
            exact ⟨hclient, hcall⟩
        | error hlocks =>
          refine h.set hp htracker (fun rest hrest => ?_) ?_
          · rw [hlocks]
            exact hrest
          · rintro _ ⟨⟩
    | dropLock lock =>
      obtain ⟨tracker, hdrop, hr⟩ := Option.map_eq_some_iff.mp hanswer
      cases hr
      obtain ⟨incoming, asked, stage, sent⟩ := p
      cases stage with
      | fresh => cases hstage
      | released => cases hstage
      | holding lock' =>
        obtain rfl : lock = lock' := hstage
        have hmem : lock ∈ shared.tracker.locks :=
          h.locks.mem_iff.mp (List.mem_filterMap.mpr ⟨_, List.mem_of_getElem? hp, rfl⟩)
        obtain ⟨tracker', hdrop', htracker⟩ := h.tracker.dropLock hmem shared.now
        cases hdrop.symm.trans hdrop'
        refine h.set hp htracker (fun rest hrest => ?_) ?_
        · rw [locks_dropLock hdrop]
          have herase : ((lock :: rest).erase lock).Perm (shared.tracker.locks.erase lock) :=
            hrest.erase lock
          rwa [List.erase_cons_head] at herase
        · rintro _ ⟨⟩

/-- Outside of the tasks only the cleaner changes the tracker, and only then time stands still. -/
theorem perform_cases {shared shared' : Service σ} {event : Event} {incoming : Option Incoming}
    (h : shared.perform event = some (shared', incoming)) :
    (shared'.tracker = shared.tracker ∧ shared.now ≤ shared'.now) ∨
    (newTransactionTracker.cleanup shared.tracker shared.now = some shared'.tracker ∧
      shared'.now = shared.now) ∨
    ∃ clientAddr, newTransactionTracker.cleanupClient shared.tracker clientAddr shared.now =
      some shared'.tracker ∧ shared'.now = shared.now := by
  have hupdate {connection : ℕ} {f : Connection → Option Connection}
      (h : (shared.update connection f).map (fun s => (s, (none : Option Incoming))) =
        some (shared', incoming)) :
      shared'.tracker = shared.tracker ∧ shared.now ≤ shared'.now := by
    obtain ⟨s, hs, hr⟩ := Option.map_eq_some_iff.mp h
    cases hr
    obtain ⟨c, -, hs⟩ := Option.bind_eq_some_iff.mp hs
    obtain ⟨c', -, hs⟩ := Option.bind_eq_some_iff.mp hs
    cases hs
    exact ⟨rfl, Nat.le_refl _⟩
  cases event with
  | accept clientAddr =>
    cases h
    exact .inl ⟨rfl, Nat.le_refl _⟩
  | clock elapsed =>
    cases h
    exact .inl ⟨rfl, Nat.le_add_right _ _⟩
  | receive connection bytes | reply connection written | close connection => exact .inl (hupdate h)
  | read connection =>
    obtain ⟨c, -, h⟩ := Option.bind_eq_some_iff.mp h
    obtain ⟨r, -, h⟩ := Option.bind_eq_some_iff.mp h
    cases h
    exact .inl ⟨rfl, Nat.le_refl _⟩
  | cleanup =>
    obtain ⟨tracker, hclean, hr⟩ := Option.map_eq_some_iff.mp h
    cases hr
    exact .inr (.inl ⟨hclean, rfl⟩)
  | cleanupClient clientAddr =>
    obtain ⟨tracker, hclean, hr⟩ := Option.map_eq_some_iff.mp h
    cases hr
    exact .inr (.inr ⟨clientAddr, hclean, rfl⟩)
  | task index => cases h

theorem perform_tracker {shared shared' : Service σ} {event : Event} {incoming : Option Incoming}
    (htracker : shared.tracker.Inv newTransactionTracker)
    (h : shared.perform event = some (shared', incoming)) :
    shared'.tracker.Inv newTransactionTracker ∧ shared'.tracker.locks = shared.tracker.locks := by
  rcases perform_cases h with ⟨hsame, -⟩ | ⟨hclean, -⟩ | ⟨clientAddr, hclean, -⟩
  · rw [hsame]
    exact ⟨htracker, rfl⟩
  · obtain ⟨tracker, hclean', hinv⟩ := htracker.cleanup shared.now
    cases hclean.symm.trans hclean'
    exact ⟨hinv, locks_cleanup hclean⟩
  · obtain ⟨tracker, hclean', hinv⟩ := htracker.cleanupClient clientAddr shared.now
    cases hclean.symm.trans hclean'
    exact ⟨hinv, locks_cleanupClient hclean⟩

theorem Locked.stepped {shared shared' : Service σ} {ps ps' : List (Phase H I J)} {event : Event}
    (h : Locked shared ps) (hstep : Stepped listener vfs shared ps event shared' ps') :
    Locked shared' ps' := by
  cases hstep with
  | task phase allowed answered => exact h.task phase allowed answered
  | other performed =>
    obtain ⟨htracker, hlocks⟩ := perform_tracker h.tracker performed
    refine ⟨htracker, ?_, fun p hp => ?_⟩
    · have hstart (l : List Incoming) :
          (l.map (Phase.start (H := H) (I := I) (J := J))).filterMap Phase.lock = [] := by
        refine List.filterMap_eq_nil_iff.mpr fun p hp => ?_
        obtain ⟨incoming, -, rfl⟩ := List.mem_map.mp hp
        rfl
      rw [hlocks, List.filterMap_append, hstart, List.append_nil]
      exact h.locks
    · rcases List.mem_append.mp hp with hp | hp
      · exact h.own p hp
      · obtain ⟨incoming, -, rfl⟩ := List.mem_map.mp hp
        rintro _ ⟨⟩

end Locks

/-! ## Calls under way -/

/-- The xid of a message that is a call. -/
def callXid (message : Bytes) : Option UInt32 :=
  match IncomingRpcMessage.tryFrom message with
  | .ok m => some m.xid
  | .error _ => none

theorem callXid_of_isCall {message : Bytes} {xid : UInt32} {call : CallBody} {rest : Bytes}
    (h : IsCall message xid call rest) : callXid message = some xid := by
  obtain ⟨n, hu⟩ := h
  rw [callXid, IncomingRpcMessage.tryFrom, unpackIn_unlimited, hu]

section Calls

variable {H I J σ : Type}

/-- The task was admitted and has not dropped its lock: it is about to call the file system or
the mount listener, or to drop the lock. -/
def underWay (t : MessageTask H I J) : Bool :=
  match t.rest with
  | .ask (.server (.vfs _)) _ | .ask (.server (.mountSignal _)) _
  | .ask (.server (.dropLock _)) _ => true
  | _ => false

/-- A call under way is carried out by one task, of a client with few of them; it is not started
again meanwhile; the tracker answers all tasks, and keeps no lock when they are done. -/
structure Exclusive (vfs : σ → (c : VfsCall H I J) → Option (Option c.Reply × σ))
    (s : Server H I J σ) : Prop where
  one : ∀ (i j : ℕ) (t u : MessageTask H I J), s.tasks[i]? = some t → s.tasks[j]? = some u →
    underWay t = true → underWay u = true → t.origin.clientAddr = u.origin.clientAddr →
    callXid t.origin.message = callXid u.origin.message → i = j
  few : ∀ clientAddr,
    (s.tasks.filter fun t => underWay t && t.origin.clientAddr = clientAddr).length ≤ 256
  retransmitted : ∀ t ∈ s.tasks, underWay t = true → ∃ xid, callXid t.origin.message = some xid ∧
    ∀ now, ∃ tracker, newTransactionTracker.startTransaction s.shared.tracker t.origin.clientAddr
      xid now = some (.error .alreadyExists, tracker)
  answered : ∀ t ∈ s.tasks, ∀ c next, t.rest = .ask (.server c) next → c.isTracker = true →
    (Service.answerServer vfs s.shared c).isSome = true
  idle : (∀ t ∈ s.tasks, t.result.isSome = true) → s.shared.tracker.locks = []

variable [FileHandle H] {listener : NFSTcpListener}
  {vfs : σ → (c : VfsCall H I J) → Option (Option c.Reply × σ)} {s : Server H I J σ}

omit [FileHandle H] in
theorem lock_of_allows_drop {incoming : Incoming} {stage : Stage} {lock : TransactionLock}
    (h : (stages (H := H) (I := I) (J := J) incoming).allows stage (.dropLock lock)) :
    stage.lock = some lock := by
  cases stage with
  | fresh => cases h
  | released => cases h
  | holding lock' =>
    obtain rfl : lock = lock' := h
    rfl

omit [FileHandle H] in
theorem asks_of_allows {incoming : Incoming} {stage : Stage} {clientAddr : String} {xid : UInt32}
    (h : (stages (H := H) (I := I) (J := J) incoming).allows stage
      (.startTransaction clientAddr xid)) :
    incoming.clientAddr = clientAddr ∧ ∃ call rest, IsCall incoming.message xid call rest := by
  cases stage with
  | fresh => exact ⟨h.1.symm, h.2⟩
  | holding lock => cases h
  | released => cases h

omit [FileHandle H] in
/-- Between admission and release a task may only be in the stage in which it holds a lock. -/
theorem lock_of_allows {incoming : Incoming} {stage : Stage} {c : ServerCall H I J}
    (h : (stages incoming).allows stage c)
    (hc : ∀ clientAddr xid, c ≠ .startTransaction clientAddr xid) :
    ∃ lock, stage.lock = some lock := by
  cases stage with
  | holding lock => exact ⟨lock, rfl⟩
  | released => cases c <;> cases h
  | fresh =>
    cases c with
    | startTransaction clientAddr xid => exact absurd rfl (hc clientAddr xid)
    | dropLock _ | vfs _ | mountSignal _ => cases h

theorem lock_of_underWay (htrack : OnTrack listener s)
    (hlocked : Locked s.shared (phases listener s)) {t : MessageTask H I J} (ht : t ∈ s.tasks)
    (hunder : underWay t = true) :
    ∃ lock, (phaseOf listener t).lock = some lock ∧ lock.client = t.origin.clientAddr ∧
      callXid t.origin.message = some lock.xid := by
  have hfollows := htrack t ht
  obtain ⟨c, next, hrest, hc⟩ : ∃ c next, t.rest = .ask (.server c) next ∧
      ∀ clientAddr xid, c ≠ .startTransaction clientAddr xid := by
    unfold underWay at hunder
    split at hunder
    · next c next hrest => exact ⟨_, next, hrest, by simp⟩
    · next mounted next hrest => exact ⟨_, next, hrest, by simp⟩
    · next lock next hrest => exact ⟨_, next, hrest, by simp⟩
    · cases hunder
  rw [hrest] at hfollows
  obtain ⟨lock, hlock⟩ := lock_of_allows hfollows.1.1 hc
  have hmem : phaseOf listener t ∈ phases listener s := List.mem_map_of_mem ht
  obtain ⟨hclient, call, rest, hcall⟩ := hlocked.own _ hmem lock hlock
  rw [incoming_phaseOf] at hclient hcall
  exact ⟨lock, hlock, hclient, callXid_of_isCall hcall⟩

omit [FileHandle H] in
theorem Locked.pairwise {shared : Service σ} {ps : List (Phase H I J)} (h : Locked shared ps)
    (clientAddr : String) :
    ps.Pairwise fun p q => ∀ lock, p.lock = some lock → ∀ lock', q.lock = some lock' →
      lock.client = clientAddr → lock'.client = clientAddr → lock.xid ≠ lock'.xid := by
  have hnodup : (Tracker.xidsOf (ps.filterMap Phase.lock) clientAddr).Nodup :=
    (Tracker.xidsOf_perm h.locks clientAddr).nodup_iff.mpr (xidsOf_nodup h.tracker clientAddr)
  rw [Tracker.xidsOf, List.Nodup, List.pairwise_map, List.pairwise_filter,
    List.pairwise_filterMap] at hnodup
  simpa only [decide_eq_true_eq] using hnodup

theorem Locked.one_lt (hlocked : Locked s.shared (phases listener s))
    (htrack : OnTrack listener s) {i j : ℕ} {t u : MessageTask H I J} (hlt : i < j)
    (hi : s.tasks[i]? = some t) (hj : s.tasks[j]? = some u) (ht : underWay t = true)
    (hu : underWay u = true) (hclient : t.origin.clientAddr = u.origin.clientAddr) :
    callXid t.origin.message ≠ callXid u.origin.message := by
  obtain ⟨lock, hlock, hlockClient, hxid⟩ :=
    lock_of_underWay htrack hlocked (List.mem_of_getElem? hi) ht
  obtain ⟨lock', hlock', hlockClient', hxid'⟩ :=
    lock_of_underWay htrack hlocked (List.mem_of_getElem? hj) hu
  have hpairwise := hlocked.pairwise u.origin.clientAddr
  rw [phases_eq, List.pairwise_map, List.pairwise_iff_getElem] at hpairwise
  obtain ⟨hi', rfl⟩ := List.getElem?_eq_some_iff.mp hi
  obtain ⟨hj', rfl⟩ := List.getElem?_eq_some_iff.mp hj
  have hne := hpairwise i j hi' hj' hlt lock hlock lock' hlock' (hlockClient.trans hclient)
    hlockClient'
  rw [hxid, hxid']
  exact fun heq => hne (Option.some.inj heq)

theorem Locked.exclusive (hlocked : Locked s.shared (phases listener s))
    (htrack : OnTrack listener s) : Exclusive vfs s where
  one := by
    intro i j t u hi hj ht hu hclient hxid
    rcases Nat.lt_trichotomy i j with hlt | heq | hlt
    · exact absurd hxid (hlocked.one_lt htrack hlt hi hj ht hu hclient)
    · exact heq
    · exact absurd hxid.symm (hlocked.one_lt htrack hlt hj hi hu ht hclient.symm)
  few := by
    intro clientAddr
    have hlength := xidsOf_length hlocked.tracker clientAddr
    rw [← (Tracker.xidsOf_perm hlocked.locks clientAddr).length_eq, Tracker.xidsOf,
      List.length_map, ← List.countP_eq_length_filter, List.countP_filterMap, phases_eq,
      List.countP_map] at hlength
    rw [← List.countP_eq_length_filter]
    refine Nat.le_trans (List.countP_mono_left fun t ht hin => ?_) hlength
    rw [Bool.and_eq_true, decide_eq_true_eq] at hin
    obtain ⟨lock, hlock, hclient, -⟩ := lock_of_underWay htrack hlocked ht hin.1
    simp [hlock, hclient, hin.2]
  retransmitted := by
    intro t ht hvfs
    obtain ⟨lock, hlock, hclient, hxid⟩ := lock_of_underWay htrack hlocked ht hvfs
    have hmem : lock ∈ s.shared.tracker.locks :=
      hlocked.locks.mem_iff.mp (List.mem_filterMap.mpr ⟨_, List.mem_map_of_mem ht, hlock⟩)
    refine ⟨lock.xid, hxid, fun now => ?_⟩
    obtain ⟨r, tracker, hstart, -, hr⟩ :=
      hlocked.tracker.start trackerLimits lock.client lock.xid now
    rw [hr (Tracker.mem_xidsOf hmem)] at hstart
    rw [← hclient]
    exact ⟨tracker, hstart⟩
  answered := by
    intro t ht c next hrest hc
    have hfollows := htrack t ht
    rw [hrest] at hfollows
    cases c with
    | vfs _ | mountSignal _ => cases hc
    | startTransaction clientAddr xid =>
      obtain ⟨r, tracker, hstart, -⟩ :=
        hlocked.tracker.start trackerLimits clientAddr xid s.shared.now
      simp [Service.answerServer, hstart]
    | dropLock lock =>
      have hlock : (phaseOf listener t).lock = some lock := lock_of_allows_drop hfollows.1.1
      have hmem : lock ∈ s.shared.tracker.locks :=
        hlocked.locks.mem_iff.mp (List.mem_filterMap.mpr ⟨_, List.mem_map_of_mem ht, hlock⟩)
      obtain ⟨tracker, hdrop, -⟩ := hlocked.tracker.dropLock hmem s.shared.now
      simp [Service.answerServer, hdrop]
  idle := by
    intro hdone
    have hnil : (phases listener s).filterMap Phase.lock = [] := by
      refine List.filterMap_eq_nil_iff.mpr fun p hp => ?_
      obtain ⟨t, ht, rfl⟩ := List.mem_map.mp hp
      obtain ⟨result, hresult⟩ := Option.isSome_iff_exists.mp (hdone t ht)
      have hfollows := htrack t ht
      rw [Task.result_eq_some.mp hresult] at hfollows
      exact hfollows.lock_eq
    have hperm := hlocked.locks
    rw [hnil] at hperm
    exact hperm.nil_eq.symm

/-- In every run of the server, whatever the clients send and the file system answers. -/
theorem requests_exclusive (listener : NFSTcpListener)
    (vfs : σ → (c : VfsCall H I J) → Option (Option c.Reply × σ)) (fs : σ) (events : List Event)
    (s : Server H I J σ)
    (hrun : Transition.run (Server.step listener vfs) (Server.init fs) events = some s) :
    Exclusive vfs s := by
  obtain ⟨htrack, hlocked⟩ := run_phases (C := fun _ => True) (Locked.init fs)
    (fun _ _ _ _ _ h _ hstep => h.stepped hstep) (fun _ _ => trivial) hrun
  exact hlocked.exclusive htrack

end Calls

/-- GETATTR with the xid 7, for a handle of generation 0. -/
def getattrCall : Bytes :=
  [0, 0, 0, 7, 0, 0, 0, 0, 0, 0, 0, 2, 0, 1, 134, 163, 0, 0, 0, 3, 0, 0, 0, 1] ++
    List.replicate 16 0 ++ [0, 0, 0, 16] ++ List.replicate 16 0

/-- The call arrives twice while the file system is busy with it. -/
def retransmission : List Event :=
  let fragment := RpcWire.fragmentBytes true getattrCall
  [.accept "a", .receive 0 (fragment ++ fragment), .read 0, .read 0, .task 0, .task 1]

theorem requests_exclusive_retransmission :
    ∃ s, Transition.run (Server.step ⟨2049, false, "/", ⟨0⟩⟩ silentVfs) (Server.init ())
        retransmission = some s ∧
      s.tasks.map underWay = [true, false] ∧ Exclusive silentVfs s := by
  have hrun : (Transition.run (Server.step ⟨2049, false, "/", ⟨0⟩⟩ silentVfs) (Server.init ())
      retransmission).map (fun s => s.tasks.map underWay) = some [true, false] := by
    decide +kernel
  obtain ⟨s, hs, htasks⟩ := Option.map_eq_some_iff.mp hrun
  exact ⟨s, hs, htasks, requests_exclusive _ _ _ _ s hs⟩

end Nfs3.Tcp
