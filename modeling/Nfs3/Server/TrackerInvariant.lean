import Mathlib.Data.List.Perm.Basic
import Mathlib.Data.List.Nodup
import Mathlib.Data.List.TakeWhile
import Nfs3.Server.TransactionTracker

/-!
# Invariant of the transaction tracker

The transactions of a client that are in progress are, up to order, the xids of its live
locks. All that is claimed of the counter, the list and the locks follows.
-/
namespace Nfs3.Tracker

open Transition

/-! ## The sorted list -/

def Sorted (ts : List Transaction) : Prop := ts.Pairwise fun t u => t.xid < u.xid

def liveXids (ts : List Transaction) : List UInt32 :=
  (ts.filter fun t => t.state = .inProgress).map Transaction.xid

theorem Sorted.xids_nodup {ts : List Transaction} (h : Sorted ts) :
    (ts.map Transaction.xid).Nodup := by
  exact List.pairwise_map.mpr (h.imp fun hlt heq => UInt32.ne_of_lt hlt heq)

theorem Sorted.eq_of_xid_eq {ts : List Transaction} (h : Sorted ts) {t u : Transaction}
    (ht : t ∈ ts) (hu : u ∈ ts) (hx : t.xid = u.xid) : t = u :=
  List.inj_on_of_nodup_map h.xids_nodup ht hu hx

theorem mem_liveXids {ts : List Transaction} {xid : UInt32} :
    xid ∈ liveXids ts ↔ Transaction.inProgress xid ∈ ts := by
  simp only [liveXids, List.mem_map, List.mem_filter, decide_eq_true_eq]
  constructor
  · rintro ⟨t, ⟨ht, hs⟩, rfl⟩
    have heq : t = .inProgress t.xid := by
      rw [Transaction.inProgress, ← hs]
    exact heq ▸ ht
  · exact fun h => ⟨_, ⟨h, rfl⟩, rfl⟩

/-- What is removed from the front is never in progress. -/
theorem liveXids_append {pre ts : List Transaction} (h : ∀ t ∈ pre, t.state ≠ .inProgress) :
    liveXids (pre ++ ts) = liveXids ts := by
  have hnil : pre.filter (fun t => t.state = .inProgress) = [] :=
    List.filter_eq_nil_iff.mpr fun t ht => by simpa using h t ht
  simp [liveXids, List.filter_append, hnil]

theorem liveXids_insert (pre post : List Transaction) (xid : UInt32) :
    (liveXids (pre ++ .inProgress xid :: post)).Perm (xid :: liveXids (pre ++ post)) := by
  simp only [liveXids, List.filter_append, List.map_append, List.filter_cons,
    Transaction.inProgress, decide_true, ↓reduceIte, List.map_cons]
  exact List.perm_middle

theorem trim_suffix (trimLimit : ℕ) (ts : List Transaction) :
    ∃ pre, ts = pre ++ trim trimLimit ts ∧ ∀ t ∈ pre, t.state ≠ .inProgress := by
  induction ts with
  | nil => exact ⟨[], rfl, by simp⟩
  | cons t ts ih =>
    unfold trim
    split_ifs with hlen hstate
    · exact ⟨[], rfl, by simp⟩
    · obtain ⟨pre, heq, hpre⟩ := ih
      refine ⟨t :: pre, congrArg _ heq, ?_⟩
      intro u hu
      rcases List.mem_cons.mp hu with rfl | hu
      · exact hstate
      · exact hpre u hu
    · exact ⟨[], rfl, by simp⟩

theorem isStale_inProgress {t : Transaction} {now maxAge : ℕ} (h : t.state = .inProgress) :
    t.isStale now maxAge = false := by
  simp [Transaction.isStale, h]

theorem removeOld_suffix (c : ClientTransactions) (now maxAge : ℕ) :
    ∃ pre, c.transactions = pre ++ (c.removeOldTransactions now maxAge).transactions ∧
      ∀ t ∈ pre, t.state ≠ .inProgress := by
  refine ⟨c.transactions.takeWhile fun t => t.isStale now maxAge,
    (List.takeWhile_append_dropWhile).symm, fun t ht hstate => ?_⟩
  have hstale := List.mem_takeWhile_imp ht
  rw [isStale_inProgress hstate] at hstale
  cases hstale

/-! ## Searching -/

theorem binarySearch_ok {ts : List Transaction} {xid : UInt32} {p : ℕ}
    (h : binarySearchByKey ts xid = .ok p) : ∃ t, ts[p]? = some t ∧ t.xid = xid := by
  simp only [binarySearchByKey] at h
  split at h
  case h_1 t ht =>
    split_ifs at h with hx
    cases h
    exact ⟨t, ht, hx⟩
  case h_2 => cases h

theorem binarySearch_error {ts : List Transaction} {xid : UInt32} {p : ℕ} (hs : Sorted ts)
    (h : binarySearchByKey ts xid = .error p) :
    ∃ pre post, ts = pre ++ post ∧ pre.length = p ∧ (∀ t ∈ pre, t.xid < xid) ∧
      ∀ t ∈ post, xid < t.xid := by
  have hsplit := List.takeWhile_append_dropWhile (p := fun t => t.xid < xid) (l := ts)
  have hp : (ts.takeWhile fun t => t.xid < xid).length = p := by
    simp only [binarySearchByKey] at h
    split at h
    case h_1 => split_ifs at h; cases h; rfl
    case h_2 => cases h; rfl
  refine ⟨_, _, hsplit.symm, hp, fun t ht => by simpa using List.mem_takeWhile_imp ht, ?_⟩
  cases hd : ts.dropWhile fun t => t.xid < xid with
  | nil => simp
  | cons u us =>
    have hu : xid < u.xid := by
      have hget : ts[(ts.takeWhile fun t => t.xid < xid).length]? = some u := by
        have : (ts.takeWhile (fun t => t.xid < xid) ++ u :: us)[
            (ts.takeWhile fun t => t.xid < xid).length]? = some u := by simp
        rwa [← hd, hsplit] at this
      have hge : ¬ u.xid < xid := by
        have := List.head?_dropWhile_not (fun t : Transaction => decide (t.xid < xid)) ts
        rw [hd] at this
        simpa using this
      have hne : u.xid ≠ xid := by
        intro heq
        simp only [binarySearchByKey, hget, heq, ↓reduceIte] at h
        cases h
      exact UInt32.lt_of_le_of_ne (UInt32.not_lt.mp hge) (Ne.symm hne)
    have hsorted : Sorted (u :: us) := by
      have := hs
      rw [Sorted, ← hsplit, hd] at this
      exact (List.pairwise_append.mp this).2.1
    intro t ht
    rcases List.mem_cons.mp ht with rfl | ht
    · exact hu
    · exact UInt32.lt_trans hu ((List.pairwise_cons.mp hsorted).1 t ht)

theorem findTransaction_ok {c : ClientTransactions} {xid : UInt32} {p : ℕ}
    (h : c.findTransaction xid = .ok p) : ∃ t, c.transactions[p]? = some t ∧ t.xid = xid := by
  unfold ClientTransactions.findTransaction at h
  split at h
  case h_1 last hlast =>
    split_ifs at h with heq hlt
    · cases h
      refine ⟨last, ?_, heq⟩
      rw [← List.getLast?_eq_getElem?, hlast]
    · exact binarySearch_ok h
  case h_2 => cases h

theorem findTransaction_error {c : ClientTransactions} {xid : UInt32} {p : ℕ}
    (hs : Sorted c.transactions) (h : c.findTransaction xid = .error p) :
    ∃ pre post, c.transactions = pre ++ post ∧ pre.length = p ∧ (∀ t ∈ pre, t.xid < xid) ∧
      ∀ t ∈ post, xid < t.xid := by
  unfold ClientTransactions.findTransaction at h
  split at h
  case h_1 last hlast =>
    split_ifs at h with heq hlt
    · cases h
      refine ⟨c.transactions, [], by simp, rfl, fun t ht => ?_, by simp⟩
      obtain ⟨init, hinit⟩ := List.getLast?_eq_some_iff.mp hlast
      rw [Sorted, hinit] at hs
      rw [hinit] at ht
      rcases List.mem_append.mp ht with ht | ht
      · exact UInt32.lt_trans ((List.pairwise_append.mp hs).2.2 t ht last (by simp)) hlt
      · rw [List.mem_singleton.mp ht]
        exact hlt
    · exact binarySearch_error hs h
  case h_2 hnone =>
    cases h
    exact ⟨[], [], List.getLast?_eq_none_iff.mp hnone, rfl, by simp, by simp⟩

theorem not_mem_of_split {pre post : List Transaction} {xid : UInt32}
    (hpre : ∀ t ∈ pre, t.xid < xid) (hpost : ∀ t ∈ post, xid < t.xid) :
    ∀ t ∈ pre ++ post, t.xid ≠ xid := by
  intro t ht heq
  rcases List.mem_append.mp ht with ht | ht
  · exact absurd (hpre t ht) (by simp [heq])
  · exact absurd (hpost t ht) (by simp [heq])

theorem Sorted.insert {pre post : List Transaction} {xid : UInt32} (h : Sorted (pre ++ post))
    (hpre : ∀ t ∈ pre, t.xid < xid) (hpost : ∀ t ∈ post, xid < t.xid) :
    Sorted (pre ++ .inProgress xid :: post) := by
  obtain ⟨h₁, h₂, h₁₂⟩ := List.pairwise_append.mp h
  refine List.pairwise_append.mpr ⟨h₁, List.pairwise_cons.mpr ⟨hpost, h₂⟩, ?_⟩
  intro t ht u hu
  rcases List.mem_cons.mp hu with rfl | hu
  · exact hpre t ht
  · exact h₁₂ t ht u hu

/-! ## One client -/

theorem insertIdx_length_append {α : Type} (pre post : List α) (a : α) :
    (pre ++ post).insertIdx pre.length a = pre ++ a :: post := by
  induction pre with
  | nil => rfl
  | cons b pre ih => simpa using ih

theorem split_of_getElem? {α : Type} {l : List α} {p : ℕ} {a : α} (h : l[p]? = some a) :
    ∃ pre post, l = pre ++ a :: post ∧ pre.length = p := by
  obtain ⟨hp, rfl⟩ := List.getElem?_eq_some_iff.mp h
  refine ⟨l.take p, l.drop (p + 1), ?_, List.length_take_of_le hp.le⟩
  rw [List.getElem_cons_drop, List.take_append_drop]

/-- What `add_transaction` can do. -/
theorem addTransaction_cases {c : ClientTransactions} (hs : Sorted c.transactions) (xid : UInt32)
    (now : Instant) :
    ((∃ t ∈ c.transactions, t.xid = xid) ∧
      c.addTransaction xid now = (.error .alreadyExists, { c with lastActive := now })) ∨
    ((∀ t ∈ c.transactions, t.xid ≠ xid) ∧ c.maxActiveTransactions ≤ c.activeTransactions ∧
      c.addTransaction xid now = (.error .tooManyRequests, { c with lastActive := now })) ∨
    ∃ pre post, c.transactions = pre ++ post ∧ (∀ t ∈ pre, t.xid < xid) ∧
      (∀ t ∈ post, xid < t.xid) ∧ c.activeTransactions < c.maxActiveTransactions ∧
      c.addTransaction xid now = (.ok (),
        { c with
          lastActive := now
          activeTransactions := c.activeTransactions + 1
          transactions := trim c.trimLimit (pre ++ .inProgress xid :: post) }) := by
  have hfind : ({ c with lastActive := now } : ClientTransactions).findTransaction xid =
      c.findTransaction xid := rfl
  unfold ClientTransactions.addTransaction
  simp only [hfind]
  cases hf : c.findTransaction xid with
  | ok p =>
    obtain ⟨t, ht, hx⟩ := findTransaction_ok hf
    exact Or.inl ⟨⟨t, List.mem_of_getElem? ht, hx⟩, rfl⟩
  | error p =>
    obtain ⟨pre, post, hts, hp, hpre, hpost⟩ := findTransaction_error hs hf
    by_cases hmax : c.activeTransactions ≥ c.maxActiveTransactions
    · refine Or.inr (Or.inl ⟨?_, hmax, if_pos hmax⟩)
      rw [hts]
      exact not_mem_of_split hpre hpost
    · refine Or.inr (Or.inr ⟨pre, post, hts, hpre, hpost, UInt16.not_le.mp hmax, ?_⟩)
      have hins : c.transactions.insertIdx p (.inProgress xid) =
          pre ++ .inProgress xid :: post := by
        rw [hts, ← hp, insertIdx_length_append]
      simp only [if_neg hmax, hins, ClientTransactions.trimIfNeeded]

/-- The record of a client with live locks for `xids`. -/
structure ClientTransactions.Inv (tr : TransactionTracker) (c : ClientTransactions)
    (xids : List UInt32) : Prop where
  sorted : Sorted c.transactions
  live : (liveXids c.transactions).Perm xids
  active : c.activeTransactions.toNat = xids.length
  bounded : c.activeTransactions ≤ c.maxActiveTransactions
  max_eq : c.maxActiveTransactions = tr.maxActiveTransactions
  trim_eq : c.trimLimit = tr.trimLimit

namespace ClientTransactions.Inv

variable {tr : TransactionTracker} {c : ClientTransactions} {xids : List UInt32}

theorem perm {xids' : List UInt32} (h : c.Inv tr xids) (hp : xids.Perm xids') :
    c.Inv tr xids' where
  sorted := h.sorted
  live := h.live.trans hp
  active := by rw [h.active, hp.length_eq]
  bounded := h.bounded
  max_eq := h.max_eq
  trim_eq := h.trim_eq

theorem new {now : Instant} (hc : ClientTransactions.new now tr.maxActiveTransactions
    tr.trimLimit = some c) : c.Inv tr [] := by
  unfold ClientTransactions.new at hc
  split_ifs at hc
  cases hc
  exact ⟨List.Pairwise.nil, List.Perm.nil, rfl, UInt16.zero_le, rfl, rfl⟩

theorem touch (h : c.Inv tr xids) (now : Instant) :
    ({ c with lastActive := now } : ClientTransactions).Inv tr xids :=
  ⟨h.sorted, h.live, h.active, h.bounded, h.max_eq, h.trim_eq⟩

/-- Entries may be dropped from the front as long as none is in progress. -/
theorem suffix {pre ts : List Transaction} (h : c.Inv tr xids) (hts : c.transactions = pre ++ ts)
    (hpre : ∀ t ∈ pre, t.state ≠ .inProgress) :
    ({ c with transactions := ts } : ClientTransactions).Inv tr xids where
  sorted := by
    have hs := h.sorted
    rw [hts] at hs
    exact (List.pairwise_append.mp hs).2.1
  live := by
    have hl := h.live
    rwa [hts, liveXids_append hpre] at hl
  active := h.active
  bounded := h.bounded
  max_eq := h.max_eq
  trim_eq := h.trim_eq

theorem removeOld (h : c.Inv tr xids) (now : Instant) (maxAge : Duration) :
    (c.removeOldTransactions now maxAge).Inv tr xids := by
  obtain ⟨pre, hts, hpre⟩ := removeOld_suffix c now maxAge
  exact h.suffix hts hpre

theorem insert {pre post : List Transaction} {xid : UInt32} (h : c.Inv tr xids)
    (hts : c.transactions = pre ++ post) (hpre : ∀ t ∈ pre, t.xid < xid)
    (hpost : ∀ t ∈ post, xid < t.xid) (hlt : c.activeTransactions < c.maxActiveTransactions) :
    ({ c with
      activeTransactions := c.activeTransactions + 1
      transactions := pre ++ .inProgress xid :: post } : ClientTransactions).Inv tr
      (xid :: xids) where
  sorted := (hts ▸ h.sorted).insert hpre hpost
  live := (liveXids_insert pre post xid).trans ((hts ▸ h.live).cons xid)
  active := by
    have hb : c.activeTransactions.toNat < c.maxActiveTransactions.toNat :=
      UInt16.lt_iff_toNat_lt.mp hlt
    have hm := c.maxActiveTransactions.toNat_lt
    rw [UInt16.toNat_add, h.active] at *
    simp only [List.length_cons, UInt16.toNat_one]
    omega
  bounded := by
    have hb : c.activeTransactions.toNat < c.maxActiveTransactions.toNat :=
      UInt16.lt_iff_toNat_lt.mp hlt
    have hm := c.maxActiveTransactions.toNat_lt
    rw [UInt16.le_iff_toNat_le, UInt16.toNat_add]
    simp only [UInt16.toNat_one]
    omega
  max_eq := h.max_eq
  trim_eq := h.trim_eq

theorem trim (h : c.Inv tr xids) : c.trimIfNeeded.Inv tr xids := by
  obtain ⟨pre, hts, hpre⟩ := trim_suffix c.trimLimit c.transactions
  exact h.suffix hts hpre

/-- A transaction with a live lock is found, in progress. -/
theorem find_live {xid : UInt32} (h : c.Inv tr (xid :: xids)) :
    ∃ pre post, c.transactions = pre ++ .inProgress xid :: post ∧
      c.findTransaction xid = .ok pre.length := by
  have hmem : Transaction.inProgress xid ∈ c.transactions :=
    mem_liveXids.mp (h.live.mem_iff.mpr (by simp))
  cases hf : c.findTransaction xid with
  | error p =>
    obtain ⟨pre, post, hts, -, hpre, hpost⟩ := findTransaction_error h.sorted hf
    exact absurd rfl (not_mem_of_split hpre hpost _ (hts ▸ hmem))
  | ok p =>
    obtain ⟨t, ht, hx⟩ := findTransaction_ok hf
    have heq : t = .inProgress xid :=
      h.sorted.eq_of_xid_eq (List.mem_of_getElem? ht) hmem hx
    obtain ⟨pre, post, hts, rfl⟩ := split_of_getElem? ht
    exact ⟨pre, post, heq ▸ hts, rfl⟩

/-- Completing a transaction whose lock is live never fails. -/
theorem complete {xid : UInt32} (h : c.Inv tr (xid :: xids)) (now : Instant) :
    ∃ c', c.completeTransaction xid now = some c' ∧ c'.Inv tr xids ∧
      ∃ pre post, c.transactions = pre ++ .inProgress xid :: post ∧
        c'.transactions = pre ++ ⟨xid, .completed now⟩ :: post := by
  obtain ⟨pre, post, hts, hf⟩ := h.find_live
  have hactive : c.activeTransactions.toNat = xids.length + 1 := by simpa using h.active
  have hne : c.activeTransactions ≠ 0 := by
    intro h0
    rw [h0] at hactive
    simp at hactive
  have hset : c.transactions.set pre.length ⟨xid, .completed now⟩ =
      pre ++ ⟨xid, .completed now⟩ :: post := by
    rw [hts, List.set_append_right _ _ le_rfl]
    simp
  have hget : c.transactions[pre.length]? = some (.inProgress xid) := by simp [hts]
  have hcomplete : c.completeTransaction xid now = some
      { c with
        lastActive := now
        transactions := pre ++ ⟨xid, .completed now⟩ :: post
        activeTransactions := c.activeTransactions - 1 } := by
    have hf' : ({ c with lastActive := now } : ClientTransactions).findTransaction xid =
      .ok pre.length := hf
    simp only [ClientTransactions.completeTransaction, hf', hget, Option.bind_eq_bind,
      Option.bind_some, Transaction.complete, Transaction.inProgress, ↓reduceIte, hne, hset]
  refine ⟨_, hcomplete, ?_, pre, post, hts, rfl⟩
  have hsorted := h.sorted
  have hlive := h.live
  rw [hts] at hsorted hlive
  have hle : (1 : UInt16) ≤ c.activeTransactions := by
    rw [UInt16.le_iff_toNat_le, hactive]
    simp
  have hsub : (c.activeTransactions - 1).toNat = xids.length := by
    rw [UInt16.toNat_sub_of_le _ _ hle, hactive]
    simp
  constructor
  · -- only the state of an entry changed, not its xid
    have hmap : Sorted (pre ++ ⟨xid, .completed now⟩ :: post) ↔
        Sorted (pre ++ .inProgress xid :: post) := by
      simp only [Sorted, List.pairwise_append, List.pairwise_cons, List.mem_cons,
        forall_eq_or_imp, Transaction.inProgress]
    exact hmap.mpr hsorted
  · have hdone : liveXids (pre ++ ⟨xid, .completed now⟩ :: post) = liveXids (pre ++ post) := by
      simp [liveXids, List.filter_append]
    have hp := (liveXids_insert pre post xid).symm.trans hlive
    exact hdone ▸ hp.cons_inv
  · exact hsub
  · have hb := UInt16.le_iff_toNat_le.mp h.bounded
    show c.activeTransactions - 1 ≤ c.maxActiveTransactions
    rw [UInt16.le_iff_toNat_le]
    omega
  · exact h.max_eq
  · exact h.trim_eq

/-- A client with a live lock is active, whatever the clock says. -/
theorem isActive {xid : UInt32} (h : c.Inv tr (xid :: xids)) (now : Instant)
    (maxAge : Duration) : c.isActive now maxAge = true := by
  have hmem : Transaction.inProgress xid ∈ c.transactions :=
    mem_liveXids.mp (h.live.mem_iff.mpr (by simp))
  have hactive : c.hasActiveTransactions now maxAge = true :=
    List.any_eq_true.mpr ⟨_, hmem, rfl⟩
  unfold ClientTransactions.isActive
  split_ifs
  · rfl
  · exact hactive

end ClientTransactions.Inv

/-! ## All clients -/

def xidsOf (locks : List TransactionLock) (clientAddr : String) : List UInt32 :=
  (locks.filter fun l => l.client = clientAddr).map TransactionLock.xid

theorem xidsOf_cons_self (locks : List TransactionLock) (arc : ArcId) (xid : UInt32)
    (clientAddr : String) :
    xidsOf (⟨arc, xid, clientAddr⟩ :: locks) clientAddr = xid :: xidsOf locks clientAddr := by
  simp [xidsOf]

theorem xidsOf_cons_of_ne {locks : List TransactionLock} {lock : TransactionLock}
    {clientAddr : String} (h : lock.client ≠ clientAddr) :
    xidsOf (lock :: locks) clientAddr = xidsOf locks clientAddr := by
  simp [xidsOf, h]

theorem xidsOf_perm {locks locks' : List TransactionLock} (h : locks.Perm locks')
    (clientAddr : String) : (xidsOf locks clientAddr).Perm (xidsOf locks' clientAddr) :=
  (h.filter _).map _

/-- Every client in the map has its own cell, and this cell agrees with its live locks. -/
structure TrackerState.Inv (tr : TransactionTracker) (s : TrackerState) : Prop where
  cell : ∀ clientAddr arc, s.transactions.lookup clientAddr = some arc →
    ∃ c, s.arcs[arc]? = some c ∧ c.Inv tr (xidsOf s.locks clientAddr)
  distinct : ∀ clientAddr clientAddr' arc, s.transactions.lookup clientAddr = some arc →
    s.transactions.lookup clientAddr' = some arc → clientAddr = clientAddr'
  mapped : ∀ lock ∈ s.locks, s.transactions.lookup lock.client = some lock.transactions

namespace TrackerState.Inv

variable {tr : TransactionTracker} {s : TrackerState} {clientAddr : String} {arc : ArcId}

/-- Replacing the cell of one client, and the locks of that client with it. -/
theorem update (h : s.Inv tr) (ha : s.transactions.lookup clientAddr = some arc)
    {c : ClientTransactions} {locks : List TransactionLock}
    (hc : c.Inv tr (xidsOf locks clientAddr))
    (hothers : ∀ other, other ≠ clientAddr → (xidsOf s.locks other).Perm (xidsOf locks other))
    (hmapped : ∀ lock ∈ locks, s.transactions.lookup lock.client = some lock.transactions) :
    ({ s with arcs := s.arcs.set arc c, locks := locks } : TrackerState).Inv tr where
  cell := by
    intro other arc' ha'
    by_cases ho : other = clientAddr
    · subst ho
      obtain rfl : arc = arc' := by simpa [ha] using ha'
      obtain ⟨c₀, hc₀, -⟩ := h.cell other arc ha
      obtain ⟨hlt, -⟩ := List.getElem?_eq_some_iff.mp hc₀
      exact ⟨c, by simp [hlt], hc⟩
    · have hne : arc ≠ arc' := by
        intro heq
        subst heq
        exact ho (h.distinct other clientAddr arc ha' ha)
      obtain ⟨c', hc', hi⟩ := h.cell other arc' ha'
      refine ⟨c', ?_, hi.perm (hothers other ho)⟩
      simpa [List.getElem?_set, hne] using hc'
  distinct := h.distinct
  mapped := hmapped

theorem init : TransactionTracker.init.Inv tr where
  cell := by simp [TransactionTracker.init]
  distinct := by simp [TransactionTracker.init]
  mapped := by simp [TransactionTracker.init]

theorem addTo (h : s.Inv tr) (ha : s.transactions.lookup clientAddr = some arc) (xid : UInt32)
    (now : Instant) :
    ∃ r s', TransactionTracker.addTo s arc clientAddr xid now = some (r, s') ∧ s'.Inv tr ∧
      (xid ∈ xidsOf s.locks clientAddr → r = .error .alreadyExists) := by
  obtain ⟨c, hc, hi⟩ := h.cell clientAddr arc ha
  simp only [TransactionTracker.addTo, hc, Option.bind_eq_bind, Option.bind_some]
  rcases addTransaction_cases hi.sorted xid now with
    ⟨-, hadd⟩ | ⟨hnone, -, hadd⟩ | ⟨pre, post, hts, hpre, hpost, hlt, hadd⟩
  · rw [hadd]
    exact ⟨_, _, rfl, h.update ha (hi.touch now) (fun _ _ => .refl _) h.mapped, fun _ => rfl⟩
  · rw [hadd]
    refine ⟨_, _, rfl, h.update ha (hi.touch now) (fun _ _ => .refl _) h.mapped, fun hx => ?_⟩
    exact absurd rfl (hnone _ (mem_liveXids.mp (hi.live.mem_iff.mpr hx)))
  · rw [hadd]
    refine ⟨_, _, rfl, ?_, fun hx => ?_⟩
    · refine h.update ha ?_ (fun other ho => ?_) ?_
      · rw [xidsOf_cons_self]
        exact ((hi.insert hts hpre hpost hlt).touch now).trim
      · rw [xidsOf_cons_of_ne (Ne.symm ho)]
      · intro lock hl
        rcases List.mem_cons.mp hl with rfl | hl
        · exact ha
        · exact h.mapped lock hl
    · have hmem := mem_liveXids.mp (hi.live.mem_iff.mpr hx)
      exact absurd rfl (not_mem_of_split hpre hpost _ (hts ▸ hmem))

theorem xidsOf_eq_nil (h : s.Inv tr) (hn : s.transactions.lookup clientAddr = none) :
    xidsOf s.locks clientAddr = [] := by
  have hnil : s.locks.filter (fun l => l.client = clientAddr) = [] := by
    refine List.filter_eq_nil_iff.mpr fun lock hl => ?_
    simp only [decide_eq_true_eq]
    intro hc
    have := h.mapped lock hl
    rw [hc, hn] at this
    cases this
  rw [xidsOf, hnil]
  rfl

/-- A fresh cell for a client the map does not know. -/
theorem insert (h : s.Inv tr) (hn : s.transactions.lookup clientAddr = none)
    {c : ClientTransactions} (hc : c.Inv tr []) :
    ({ s with
      transactions := s.transactions.insert clientAddr s.arcs.length
      arcs := s.arcs ++ [c] } : TrackerState).Inv tr where
  cell := by
    intro other arc ha
    by_cases ho : other = clientAddr
    · subst ho
      obtain rfl : s.arcs.length = arc := by simpa using ha
      refine ⟨c, by simp, ?_⟩
      rwa [h.xidsOf_eq_nil hn]
    · rw [AList.lookup_insert_ne ho] at ha
      obtain ⟨c', hc', hi⟩ := h.cell other arc ha
      obtain ⟨hlt, -⟩ := List.getElem?_eq_some_iff.mp hc'
      exact ⟨c', by rw [List.getElem?_append_left hlt, hc'], hi⟩
  distinct := by
    -- the new cell lies past all cells in use
    have hlt : ∀ other arc, s.transactions.lookup other = some arc → arc < s.arcs.length := by
      intro other arc ha
      obtain ⟨c', hc', -⟩ := h.cell other arc ha
      exact (List.getElem?_eq_some_iff.mp hc').1
    intro client client' arc ha ha'
    by_cases ho : client = clientAddr
    · by_cases ho' : client' = clientAddr
      · rw [ho, ho']
      · subst ho
        rw [AList.lookup_insert] at ha
        rw [AList.lookup_insert_ne ho'] at ha'
        cases ha
        exact absurd (hlt _ _ ha') (lt_irrefl _)
    · by_cases ho' : client' = clientAddr
      · subst ho'
        rw [AList.lookup_insert] at ha'
        rw [AList.lookup_insert_ne ho] at ha
        cases ha'
        exact absurd (hlt _ _ ha) (lt_irrefl _)
      · rw [AList.lookup_insert_ne ho] at ha
        rw [AList.lookup_insert_ne ho'] at ha'
        exact h.distinct client client' arc ha ha'
  mapped := by
    intro lock hl
    have hm := h.mapped lock hl
    have hne : lock.client ≠ clientAddr := by
      intro hc
      rw [hc, hn] at hm
      cases hm
    rwa [AList.lookup_insert_ne hne]

theorem start (h : s.Inv tr) (hlt : tr.maxActiveTransactions.toNat < tr.trimLimit)
    (clientAddr : String) (xid : UInt32) (now : Instant) :
    ∃ r s', tr.startTransaction s clientAddr xid now = some (r, s') ∧ s'.Inv tr ∧
      (xid ∈ xidsOf s.locks clientAddr → r = .error .alreadyExists) := by
  unfold TransactionTracker.startTransaction
  cases ha : s.transactions.lookup clientAddr with
  | some arc => exact h.addTo ha xid now
  | none =>
    obtain ⟨c, hc⟩ : ∃ c, ClientTransactions.new now tr.maxActiveTransactions tr.trimLimit =
        some c := ⟨_, if_pos hlt⟩
    simp only [hc, Option.bind_eq_bind, Option.bind_some]
    exact (h.insert ha (.new hc)).addTo (AList.lookup_insert _) xid now

theorem dropLock (h : s.Inv tr) {lock : TransactionLock} (hl : lock ∈ s.locks) (now : Instant) :
    ∃ s', tr.dropLock s lock now = some s' ∧ s'.Inv tr := by
  have ha := h.mapped lock hl
  obtain ⟨c, hc, hi⟩ := h.cell lock.client lock.transactions ha
  have hperm := List.perm_cons_erase hl
  have hself : (xidsOf s.locks lock.client).Perm
      (lock.xid :: xidsOf (s.locks.erase lock) lock.client) := by
    refine (xidsOf_perm hperm _).trans ?_
    rw [show lock = ⟨lock.transactions, lock.xid, lock.client⟩ from rfl, xidsOf_cons_self]
  obtain ⟨c', hc', hi', -⟩ := (hi.perm hself).complete now
  simp only [TransactionTracker.dropLock, hc, hc', Option.bind_eq_bind, Option.bind_some]
  refine ⟨_, rfl, h.update ha (hi'.removeOld now _) (fun other ho => ?_) ?_⟩
  · refine (xidsOf_perm hperm _).trans ?_
    rw [xidsOf_cons_of_ne (Ne.symm ho)]
  · exact fun l hl' => h.mapped l (List.mem_of_mem_erase hl')

/-- A client is evicted only when it has no live lock. -/
theorem evict (h : s.Inv tr) (hnil : xidsOf s.locks clientAddr = []) :
    ({ s with transactions := s.transactions.erase clientAddr } : TrackerState).Inv tr := by
  have hlookup : ∀ other arc, (s.transactions.erase clientAddr).lookup other = some arc →
      s.transactions.lookup other = some arc := by
    intro other arc ha
    by_cases ho : other = clientAddr
    · subst ho
      rw [AList.lookup_erase] at ha
      cases ha
    · rwa [AList.lookup_erase_ne ho] at ha
  refine ⟨fun other arc ha => h.cell other arc (hlookup other arc ha),
    fun _ _ arc ha ha' => h.distinct _ _ arc (hlookup _ _ ha) (hlookup _ _ ha'), ?_⟩
  intro lock hl
  have hne : lock.client ≠ clientAddr := by
    rintro rfl
    have : lock.xid ∈ xidsOf s.locks lock.client := by
      simp only [xidsOf, List.mem_map, List.mem_filter, decide_eq_true_eq]
      exact ⟨lock, ⟨hl, rfl⟩, rfl⟩
    rw [hnil] at this
    cases this
  rw [AList.lookup_erase_ne hne]
  exact h.mapped lock hl

theorem cleanupClient (h : s.Inv tr) (clientAddr : String) (now : Instant) :
    ∃ s', tr.cleanupClient s clientAddr now = some s' ∧ s'.Inv tr := by
  unfold TransactionTracker.cleanupClient
  cases ha : s.transactions.lookup clientAddr with
  | none => exact ⟨s, rfl, h⟩
  | some arc =>
    obtain ⟨c, hc, hi⟩ := h.cell clientAddr arc ha
    simp only [hc, Option.bind_eq_bind, Option.bind_some]
    split_ifs with hact
    · exact ⟨_, rfl, h.update ha (hi.removeOld now _) (fun _ _ => .refl _) h.mapped⟩
    · refine ⟨_, rfl, h.evict ?_⟩
      cases hx : xidsOf s.locks clientAddr with
      | nil => rfl
      | cons xid xids =>
        rw [hx] at hi
        exact absurd (hi.isActive now tr.retentionPeriod) hact

theorem cleanup (h : s.Inv tr) (now : Instant) :
    ∃ s', tr.cleanup s now = some s' ∧ s'.Inv tr := by
  unfold TransactionTracker.cleanup
  generalize s.transactions.keys = keys
  induction keys generalizing s with
  | nil => exact ⟨s, rfl, h⟩
  | cons clientAddr keys ih =>
    obtain ⟨s₁, hs₁, h₁⟩ := h.cleanupClient clientAddr now
    obtain ⟨s', hs', h'⟩ := ih h₁
    refine ⟨s', ?_, h'⟩
    rw [List.foldlM_cons, hs₁]
    exact hs'

/-- Every enabled step returns and keeps the invariant. -/
theorem step (hlt : tr.maxActiveTransactions.toNat < tr.trimLimit) (h : s.Inv tr) {op : Op}
    (he : op.Enabled s) : ∃ s', Tracker.step tr s op = some s' ∧ s'.Inv tr := by
  cases op with
  | start clientAddr xid now =>
    obtain ⟨r, s', hs', h', -⟩ := h.start hlt clientAddr xid now
    exact ⟨s', by simp [Tracker.step, hs'], h'⟩
  | drop lock now => exact h.dropLock he now
  | cleanup now => exact h.cleanup now
  | cleanupClient clientAddr now => exact h.cleanupClient clientAddr now

end TrackerState.Inv

/-! ## Every interleaving -/

/-- Each client's list is strictly sorted, its counter counts its transactions in progress
and its live locks, and every live lock leads to its own transaction. -/
structure Consistent (s : TrackerState) : Prop where
  cell : ∀ clientAddr arc, s.transactions.lookup clientAddr = some arc →
    ∃ c, s.arcs[arc]? = some c ∧ Sorted c.transactions ∧
      c.activeTransactions.toNat =
        (c.transactions.filter fun t => t.state = .inProgress).length ∧
      c.activeTransactions.toNat = (s.locks.filter fun l => l.client = clientAddr).length ∧
      c.activeTransactions ≤ c.maxActiveTransactions
  lock : ∀ lock ∈ s.locks, s.transactions.lookup lock.client = some lock.transactions ∧
    ∃ c, s.arcs[lock.transactions]? = some c ∧ Transaction.inProgress lock.xid ∈ c.transactions

theorem mem_xidsOf {locks : List TransactionLock} {lock : TransactionLock} (h : lock ∈ locks) :
    lock.xid ∈ xidsOf locks lock.client := by
  simp only [xidsOf, List.mem_map, List.mem_filter, decide_eq_true_eq]
  exact ⟨lock, ⟨h, rfl⟩, rfl⟩

theorem TrackerState.Inv.consistent {tr : TransactionTracker} {s : TrackerState}
    (h : s.Inv tr) : Consistent s where
  cell := by
    intro clientAddr arc ha
    obtain ⟨c, hc, hi⟩ := h.cell clientAddr arc ha
    refine ⟨c, hc, hi.sorted, ?_, ?_, hi.bounded⟩
    · have hlen := hi.live.length_eq
      rw [liveXids, List.length_map] at hlen
      rw [hi.active, hlen]
    · rw [hi.active, xidsOf, List.length_map]
  lock := by
    intro lock hl
    have ha := h.mapped lock hl
    obtain ⟨c, hc, hi⟩ := h.cell _ _ ha
    exact ⟨ha, c, hc, mem_liveXids.mp (hi.live.mem_iff.mpr (mem_xidsOf hl))⟩

theorem inv_of_run {tr : TransactionTracker} (hlt : tr.maxActiveTransactions.toNat < tr.trimLimit)
    {ops : List Op} (he : Along (step tr) (fun s op => op.Enabled s) TransactionTracker.init ops) :
    ∃ s, run (step tr) TransactionTracker.init ops = some s ∧ s.Inv tr :=
  run_total (fun _ _ h he => h.step hlt he) .init he

/-- Every interleaving returns, reaches a consistent state, lets every live lock be dropped
without a failing assertion or decrement, and answers a retransmission of a transaction in
progress with `AlreadyExists`. -/
theorem tracker_consistent (tr : TransactionTracker)
    (hlt : tr.maxActiveTransactions.toNat < tr.trimLimit) (ops : List Op)
    (he : Along (step tr) (fun s op => op.Enabled s) TransactionTracker.init ops) :
    ∃ s, run (step tr) TransactionTracker.init ops = some s ∧ Consistent s ∧
      ∀ lock ∈ s.locks, ∀ now, (tr.dropLock s lock now).isSome ∧
        ∃ s', tr.startTransaction s lock.client lock.xid now =
          some (.error .alreadyExists, s') := by
  obtain ⟨s, hs, h⟩ := inv_of_run hlt he
  refine ⟨s, hs, h.consistent, fun lock hl now => ⟨?_, ?_⟩⟩
  · obtain ⟨s', hs', -⟩ := h.dropLock hl now
    simp [hs']
  · obtain ⟨r, s', hs', -, hr⟩ := h.start hlt lock.client lock.xid now
    exact ⟨s', by rw [hs', hr (mem_xidsOf hl)]⟩

/-- Two clients, transactions out of order, a drop and a cleanup. -/
def outOfOrderOps : List Op :=
  [.start "a" 9 0, .start "a" 1 1, .start "b" 9 1, .drop ⟨0, 9, "a"⟩ 2, .cleanup 5]

theorem tracker_consistent_outOfOrder :
    ∃ s, run (step ⟨1, 2, 3⟩) TransactionTracker.init outOfOrderOps = some s ∧ Consistent s ∧
      ∀ lock ∈ s.locks, ∀ now, (TransactionTracker.dropLock ⟨1, 2, 3⟩ s lock now).isSome ∧
        ∃ s', TransactionTracker.startTransaction ⟨1, 2, 3⟩ s lock.client lock.xid now =
          some (.error .alreadyExists, s') := by
  exact tracker_consistent ⟨1, 2, 3⟩ (by decide) outOfOrderOps (by decide)

end Nfs3.Tracker
