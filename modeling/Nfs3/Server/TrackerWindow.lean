import Nfs3.Server.TrackerInvariant

/-!
# How long a completed transaction is remembered

Trimming takes entries off the front of the list, which is sorted by xid. A completed
transaction survives it when a transaction with a smaller xid is in progress, or when
fewer than `trim_limit` remembered transactions have a larger xid. Nothing else forgets a
transaction before its retention period is over.
-/
namespace Nfs3.Tracker

open Transition

/-! ## Trimming and pruning -/

theorem mem_trim_iff {trimLimit : ℕ} {pre post : List Transaction} {e : Transaction}
    (hpre : e ∉ pre) (hpost : e ∉ post) (hdone : e.state ≠ .inProgress) :
    e ∈ trim trimLimit (pre ++ e :: post) ↔
      (∃ t ∈ pre, t.state = .inProgress) ∨ (e :: post).length ≤ trimLimit := by
  induction pre with
  | nil =>
    rw [List.nil_append, trim]
    by_cases hlen : (e :: post).length > trimLimit
    · obtain ⟨dropped, hsplit, -⟩ := trim_suffix trimLimit post
      have hnot : e ∉ trim trimLimit post := by
        intro hmem
        exact hpost (hsplit ▸ List.mem_append_right dropped hmem)
      simp only [hlen, ↓reduceIte, hdone, hnot, List.not_mem_nil, false_and, exists_false,
        false_or, false_iff]
      omega
    · simp only [hlen, ↓reduceIte, List.mem_cons, true_or, true_iff]
      omega
  | cons t pre ih =>
    have hpre' : e ∉ pre := fun h => hpre (List.mem_cons_of_mem t h)
    rw [List.cons_append, trim]
    by_cases hlen : (t :: (pre ++ e :: post)).length > trimLimit
    · by_cases ht : t.state = .inProgress
      · simp [ht]
      · simp only [hlen, ↓reduceIte, ht, ih hpre', List.exists_mem_cons_iff, false_or]
    · simp only [hlen, ↓reduceIte, List.mem_cons, List.mem_append, true_or, or_true, true_iff]
      simp only [List.length_cons, List.length_append] at hlen ⊢
      omega

theorem mem_removeOld {c : ClientTransactions} {e : Transaction} {now maxAge : ℕ}
    (he : e ∈ c.transactions) (hfresh : e.isStale now maxAge = false) :
    e ∈ (c.removeOldTransactions now maxAge).transactions := by
  have hsplit := List.takeWhile_append_dropWhile (p := fun t : Transaction => t.isStale now maxAge)
    (l := c.transactions)
  rw [← hsplit] at he
  rcases List.mem_append.mp he with h | h
  · have := List.mem_takeWhile_imp h
    rw [hfresh] at this
    cases this
  · exact h

theorem completed_fresh (xid : UInt32) {t now maxAge : ℕ} (h : now - t ≤ maxAge) :
    (⟨xid, .completed t⟩ : Transaction).isStale now maxAge = false := by
  simp [Transaction.isStale, h]

theorem isActive_of_fresh {c : ClientTransactions} {e : Transaction} {now maxAge : ℕ}
    (he : e ∈ c.transactions) (hfresh : e.isStale now maxAge = false) :
    c.isActive now maxAge = true := by
  have hactive : c.hasActiveTransactions now maxAge = true :=
    List.any_eq_true.mpr ⟨e, he, by simp [hfresh]⟩
  unfold ClientTransactions.isActive
  split_ifs
  · rfl
  · exact hactive

/-! ## One accepted transaction -/

/-- `start_transaction` would accept `xid`. -/
def Accepts (c : ClientTransactions) (xid : UInt32) : Prop :=
  (∀ t ∈ c.transactions, t.xid ≠ xid) ∧ c.activeTransactions < c.maxActiveTransactions

/-- Accepting `new` leaves `xid` in the list: `new` or another transaction in progress
stands before it, or with `new` fewer than `trimLimit` entries stand behind it. -/
def Spares (trimLimit : ℕ) (ts : List Transaction) (new xid : UInt32) : Prop :=
  new < xid ∨ (∃ t ∈ ts, t.xid < xid ∧ t.state = .inProgress) ∨
    (ts.filter fun t => xid < t.xid).length + 1 < trimLimit

instance (c : ClientTransactions) (xid : UInt32) : Decidable (Accepts c xid) :=
  inferInstanceAs (Decidable (_ ∧ _))

instance (trimLimit : ℕ) (ts : List Transaction) (new xid : UInt32) :
    Decidable (Spares trimLimit ts new xid) :=
  inferInstanceAs (Decidable (_ ∨ _ ∨ _))

theorem length_filter_gt {pre post : List Transaction} {xid : UInt32}
    (hpre : ∀ t ∈ pre, t.xid < xid) (hpost : ∀ t ∈ post, xid < t.xid) {e : Transaction}
    (he : e.xid = xid) :
    ((pre ++ e :: post).filter fun t => xid < t.xid).length = post.length := by
  have h₁ : pre.filter (fun t => xid < t.xid) = [] :=
    List.filter_eq_nil_iff.mpr fun t ht => by
      simpa using UInt32.le_of_lt (hpre t ht)
  have h₂ : post.filter (fun t => xid < t.xid) = post :=
    List.filter_eq_self.mpr fun t ht => by simpa using hpost t ht
  simp [List.filter_append, h₁, h₂, he]

theorem Sorted.around {pre post : List Transaction} {e : Transaction}
    (h : Sorted (pre ++ e :: post)) :
    (∀ t ∈ pre, t.xid < e.xid) ∧ ∀ t ∈ post, e.xid < t.xid := by
  obtain ⟨-, h₂, h₁₂⟩ := List.pairwise_append.mp h
  exact ⟨fun t ht => h₁₂ t ht e (by simp), (List.pairwise_cons.mp h₂).1⟩

theorem Sorted.not_mem_around {pre post : List Transaction} {e : Transaction}
    (h : Sorted (pre ++ e :: post)) : e ∉ pre ∧ e ∉ post := by
  obtain ⟨hpre, hpost⟩ := h.around
  exact ⟨fun he => absurd (hpre e he) (UInt32.lt_irrefl _),
    fun he => absurd (hpost e he) (UInt32.lt_irrefl _)⟩

/-- The transactions in progress with a smaller xid are those that stand before the entry. -/
theorem exists_smaller_iff {pre post : List Transaction} {e : Transaction}
    (h : Sorted (pre ++ e :: post)) :
    (∃ t ∈ pre ++ e :: post, t.xid < e.xid ∧ t.state = .inProgress) ↔
      ∃ t ∈ pre, t.state = .inProgress := by
  obtain ⟨hpre, hpost⟩ := h.around
  constructor
  · rintro ⟨t, ht, hlt, hstate⟩
    rcases List.mem_append.mp ht with ht | ht
    · exact ⟨t, ht, hstate⟩
    · rcases List.mem_cons.mp ht with rfl | ht
      · exact absurd hlt (UInt32.lt_irrefl _)
      · exact absurd (UInt32.lt_trans hlt (hpost t ht)) (UInt32.lt_irrefl _)
  · rintro ⟨t, ht, hstate⟩
    exact ⟨t, List.mem_append_left _ ht, hpre t ht, hstate⟩

theorem mem_addTransaction_iff {c : ClientTransactions} (hs : Sorted c.transactions)
    {e : Transaction} (he : e ∈ c.transactions) (hdone : e.state ≠ .inProgress) {new : UInt32}
    (hacc : Accepts c new) (now : Instant) :
    e ∈ (c.addTransaction new now).2.transactions ↔
      Spares c.trimLimit c.transactions new e.xid := by
  rcases addTransaction_cases hs new now with
    ⟨⟨t, ht, hx⟩, -⟩ | ⟨-, hmax, -⟩ | ⟨pre, post, hts, hpre, hpost, -, hadd⟩
  · exact absurd hx (hacc.1 t ht)
  · exact absurd hacc.2 (UInt16.not_lt.mpr hmax)
  rw [hadd]
  have hs' : Sorted (pre ++ .inProgress new :: post) := (hts ▸ hs).insert hpre hpost
  rw [hts] at he
  rcases List.mem_append.mp he with he | he
  · -- the entry stands before the new one
    obtain ⟨q, r, rfl⟩ := List.append_of_mem he
    have hnew : ¬ new < e.xid := UInt32.not_lt.mpr (UInt32.le_of_lt (hpre e he))
    have hts' : c.transactions = q ++ e :: (r ++ post) := by simpa using hts
    have hsplit : q ++ e :: r ++ .inProgress new :: post =
        q ++ e :: (r ++ .inProgress new :: post) := by simp
    rw [hsplit] at hs' ⊢
    rw [hts'] at hs
    rw [mem_trim_iff hs'.not_mem_around.1 hs'.not_mem_around.2 hdone, Spares, hts',
      exists_smaller_iff hs, length_filter_gt hs.around.1 hs.around.2 rfl]
    simp only [hnew, false_or, List.length_cons, List.length_append]
    refine or_congr_right ?_
    omega
  · -- the new one stands before the entry and is in progress
    obtain ⟨q, r, rfl⟩ := List.append_of_mem he
    have hsplit : pre ++ .inProgress new :: (q ++ e :: r) =
        (pre ++ .inProgress new :: q) ++ e :: r := by simp
    rw [hsplit] at hs' ⊢
    rw [mem_trim_iff hs'.not_mem_around.1 hs'.not_mem_around.2 hdone]
    exact iff_of_true (Or.inl ⟨.inProgress new, by simp, rfl⟩) (Or.inl (hpost e he))

/-! ## The cell of one client -/

/-- What the tracker remembers of a client. -/
def cellOf (s : TrackerState) (clientAddr : String) : Option ClientTransactions :=
  (s.transactions.lookup clientAddr).bind fun arc => s.arcs[arc]?

section Cells

variable {tr : TransactionTracker} {s s' : TrackerState} {clientAddr other : String}
variable {c : ClientTransactions}

theorem exists_arc (hc : cellOf s clientAddr = some c) :
    ∃ arc, s.transactions.lookup clientAddr = some arc ∧ s.arcs[arc]? = some c :=
  Option.bind_eq_some_iff.mp hc

theorem TrackerState.Inv.cellOf_inv (h : s.Inv tr) (hc : cellOf s clientAddr = some c) :
    c.Inv tr (xidsOf s.locks clientAddr) := by
  obtain ⟨arc, ha, hc⟩ := exists_arc hc
  obtain ⟨c', hc', hi⟩ := h.cell clientAddr arc ha
  obtain rfl : c' = c := by simpa [hc'] using hc
  exact hi

theorem cellOf_set_self {arc : ArcId} (ha : s.transactions.lookup clientAddr = some arc)
    (hc : s.arcs[arc]? = some c) (c' : ClientTransactions) (locks : List TransactionLock) :
    cellOf { s with arcs := s.arcs.set arc c', locks := locks } clientAddr = some c' := by
  obtain ⟨hlt, -⟩ := List.getElem?_eq_some_iff.mp hc
  simp [cellOf, ha, hlt]

theorem cellOf_set_other {arc : ArcId} (h : s.Inv tr)
    (ha : s.transactions.lookup clientAddr = some arc) (ho : other ≠ clientAddr)
    (c' : ClientTransactions) (locks : List TransactionLock) :
    cellOf { s with arcs := s.arcs.set arc c', locks := locks } other = cellOf s other := by
  cases ha' : s.transactions.lookup other with
  | none => simp [cellOf, ha']
  | some arc' =>
    have hne : arc ≠ arc' := by
      intro heq
      subst heq
      exact ho (h.distinct other clientAddr arc ha' ha)
    simp [cellOf, ha', List.getElem?_set, hne]

/-- `addTo` replaces the cell by what `add_transaction` makes of it. -/
theorem addTo_eq {arc : ArcId} (hc : s.arcs[arc]? = some c) (clientAddr : String)
    (xid : UInt32) (now : Instant) :
    ∃ r locks, TransactionTracker.addTo s arc clientAddr xid now =
        some (r, { s with arcs := s.arcs.set arc (c.addTransaction xid now).2, locks := locks }) ∧
      (r = .error .alreadyExists ↔ (c.addTransaction xid now).1 = .error .alreadyExists) := by
  simp only [TransactionTracker.addTo, hc, Option.bind_eq_bind, Option.bind_some]
  cases hr : (c.addTransaction xid now).1 with
  | ok u => exact ⟨_, _, rfl, by simp⟩
  | error e => exact ⟨_, _, rfl, by simp⟩

theorem start_self (tr : TransactionTracker) (hc : cellOf s clientAddr = some c) (xid : UInt32)
    (now : Instant) :
    ∃ r s', tr.startTransaction s clientAddr xid now = some (r, s') ∧
      cellOf s' clientAddr = some (c.addTransaction xid now).2 ∧
      (r = .error .alreadyExists ↔ (c.addTransaction xid now).1 = .error .alreadyExists) := by
  obtain ⟨arc, ha, hc⟩ := exists_arc hc
  obtain ⟨r, locks, hadd, hr⟩ := addTo_eq hc clientAddr xid now
  refine ⟨r, _, ?_, cellOf_set_self ha hc _ locks, hr⟩
  rw [TransactionTracker.startTransaction, ha]
  exact hadd

theorem start_other (h : s.Inv tr) (ho : other ≠ clientAddr) {xid : UInt32} {now : Instant}
    {r : Except TransactionError TransactionLock}
    (hs : tr.startTransaction s clientAddr xid now = some (r, s')) :
    cellOf s' other = cellOf s other := by
  unfold TransactionTracker.startTransaction at hs
  cases ha : s.transactions.lookup clientAddr with
  | some arc =>
    rw [ha] at hs
    obtain ⟨c, hc, -⟩ := h.cell clientAddr arc ha
    obtain ⟨r', locks, hadd, -⟩ := addTo_eq hc clientAddr xid now
    obtain ⟨-, rfl⟩ : r' = r ∧ _ = s' := by simpa [hadd] using hs
    exact cellOf_set_other h ha ho _ locks
  | none =>
    rw [ha] at hs
    obtain ⟨c, hc, hs⟩ := Option.bind_eq_some_iff.mp hs
    have h₁ := h.insert ha (.new hc)
    have ha₁ := AList.lookup_insert (a := clientAddr) (b := s.arcs.length) s.transactions
    obtain ⟨c₁, hc₁, -⟩ := h₁.cell clientAddr _ ha₁
    obtain ⟨r', locks, hadd, -⟩ := addTo_eq hc₁ clientAddr xid now
    obtain ⟨-, rfl⟩ : r' = r ∧ _ = s' := by simpa [hadd] using hs
    -- the fresh cell is appended behind those in use
    cases ha' : s.transactions.lookup other with
    | none => simp [cellOf, ha', AList.lookup_insert_ne ho]
    | some arc' =>
      obtain ⟨c', hc', -⟩ := h.cell other arc' ha'
      obtain ⟨hlt, -⟩ := List.getElem?_eq_some_iff.mp hc'
      simp [cellOf, ha', AList.lookup_insert_ne ho, List.getElem?_append_left hlt]

theorem dropLock_self (h : s.Inv tr) {lock : TransactionLock} (hl : lock ∈ s.locks)
    (hc : cellOf s lock.client = some c) {now : Instant}
    (hs : tr.dropLock s lock now = some s') :
    ∃ (pre post : List Transaction) (c' : ClientTransactions),
      c.transactions = pre ++ .inProgress lock.xid :: post ∧
      c'.transactions = pre ++ ⟨lock.xid, .completed now⟩ :: post ∧
      cellOf s' lock.client = some (c'.removeOldTransactions now tr.retentionPeriod) := by
  have ha := h.mapped lock hl
  have hc₀ : s.arcs[lock.transactions]? = some c := by simpa [cellOf, ha] using hc
  have hself : (xidsOf s.locks lock.client).Perm
      (lock.xid :: (xidsOf s.locks lock.client).erase lock.xid) :=
    List.perm_cons_erase (mem_xidsOf hl)
  obtain ⟨c', hc', -, pre, post, hts, hts'⟩ := ((h.cellOf_inv hc).perm hself).complete now
  simp only [TransactionTracker.dropLock, hc₀, hc', Option.bind_eq_bind, Option.bind_some] at hs
  cases hs
  exact ⟨pre, post, c', hts, hts', cellOf_set_self ha hc₀ _ _⟩

theorem dropLock_other (h : s.Inv tr) {lock : TransactionLock} (hl : lock ∈ s.locks)
    (ho : other ≠ lock.client) {now : Instant} (hs : tr.dropLock s lock now = some s') :
    cellOf s' other = cellOf s other := by
  have ha := h.mapped lock hl
  obtain ⟨c₀, hc₀, hs⟩ := Option.bind_eq_some_iff.mp hs
  obtain ⟨c₁, -, hs⟩ := Option.bind_eq_some_iff.mp hs
  cases hs
  exact cellOf_set_other h ha ho _ _

theorem cleanupClient_self {now : Instant} (hc : cellOf s clientAddr = some c)
    (hact : c.isActive now tr.retentionPeriod = true)
    (hs : tr.cleanupClient s clientAddr now = some s') :
    cellOf s' clientAddr = some (c.removeOldTransactions now tr.retentionPeriod) := by
  obtain ⟨arc, ha, hc⟩ := exists_arc hc
  simp only [TransactionTracker.cleanupClient, ha, hc, Option.bind_eq_bind, Option.bind_some,
    hact, ↓reduceIte] at hs
  cases hs
  exact cellOf_set_self ha hc _ s.locks

theorem cleanupClient_other (h : s.Inv tr) (ho : other ≠ clientAddr) {now : Instant}
    (hs : tr.cleanupClient s clientAddr now = some s') : cellOf s' other = cellOf s other := by
  unfold TransactionTracker.cleanupClient at hs
  cases ha : s.transactions.lookup clientAddr with
  | none =>
    rw [ha] at hs
    cases hs
    rfl
  | some arc =>
    rw [ha] at hs
    obtain ⟨c, -, hs⟩ := Option.bind_eq_some_iff.mp hs
    split_ifs at hs
    · cases hs
      exact cellOf_set_other h ha ho _ s.locks
    · cases hs
      simp [cellOf, AList.lookup_erase_ne ho]

end Cells

/-! ## Runs -/

/-- `(clientAddr, xid)` is remembered as completed at `t`. -/
def Remembers (s : TrackerState) (clientAddr : String) (xid : UInt32) (t : Instant) : Prop :=
  ∃ c, cellOf s clientAddr = some c ∧ ⟨xid, .completed t⟩ ∈ c.transactions

/-- If the step is a transaction of `clientAddr` that is accepted, it spares `xid`. -/
def StepSpares (clientAddr : String) (xid : UInt32) (s : TrackerState) : Op → Prop
  | .start client new _ => client = clientAddr → ∀ c, cellOf s clientAddr = some c →
      Accepts c new → Spares c.trimLimit c.transactions new xid
  | _ => True

instance (clientAddr : String) (xid : UInt32) (s : TrackerState) (op : Op) :
    Decidable (StepSpares clientAddr xid s op) :=
  match op with
  | .start client new _ =>
    match h : cellOf s clientAddr with
    | none => isTrue fun _ c hc => by simp [h] at hc
    | some c =>
      decidable_of_iff (client = clientAddr → Accepts c new →
          Spares c.trimLimit c.transactions new xid) <| by
        simp only [StepSpares, h, Option.some.injEq, forall_eq']
  | .drop _ _ | .cleanup _ | .cleanupClient _ _ => isTrue trivial

section Steps

variable {tr : TransactionTracker} {s s' : TrackerState} {clientAddr : String} {xid : UInt32}
variable {t now : Instant}

theorem cleanupClient_remembers (h : s.Inv tr) (hr : Remembers s clientAddr xid t)
    (hnow : now - t ≤ tr.retentionPeriod) {client : String}
    (hs : tr.cleanupClient s client now = some s') : Remembers s' clientAddr xid t := by
  obtain ⟨c, hc, hmem⟩ := hr
  have hfresh := completed_fresh xid hnow
  by_cases hclient : client = clientAddr
  · subst hclient
    exact ⟨_, cleanupClient_self hc (isActive_of_fresh hmem hfresh) hs,
      mem_removeOld hmem hfresh⟩
  · exact ⟨c, (cleanupClient_other h (Ne.symm hclient) hs).trans hc, hmem⟩

theorem cleanup_remembers (h : s.Inv tr) (hr : Remembers s clientAddr xid t)
    (hnow : now - t ≤ tr.retentionPeriod) (hs : tr.cleanup s now = some s') :
    Remembers s' clientAddr xid t := by
  unfold TransactionTracker.cleanup at hs
  generalize s.transactions.keys = keys at hs
  induction keys generalizing s with
  | nil =>
    cases hs
    exact hr
  | cons client keys ih =>
    rw [List.foldlM_cons] at hs
    obtain ⟨s₁, hs₁, hs⟩ := Option.bind_eq_some_iff.mp hs
    obtain ⟨s₁', hs₁', h₁⟩ := h.cleanupClient client now
    obtain rfl : s₁' = s₁ := by simpa [hs₁'] using hs₁
    exact ih h₁ (cleanupClient_remembers h hr hnow hs₁) hs

theorem dropLock_remembers (h : s.Inv tr) (hr : Remembers s clientAddr xid t)
    (hnow : now - t ≤ tr.retentionPeriod) {lock : TransactionLock} (hl : lock ∈ s.locks)
    (hs : tr.dropLock s lock now = some s') : Remembers s' clientAddr xid t := by
  obtain ⟨c, hc, hmem⟩ := hr
  by_cases hclient : lock.client = clientAddr
  · subst hclient
    obtain ⟨pre, post, c', hts, hts', hc''⟩ := dropLock_self h hl hc hs
    refine ⟨_, hc'', mem_removeOld ?_ (completed_fresh xid hnow)⟩
    rw [hts] at hmem
    rw [hts']
    rcases List.mem_append.mp hmem with hm | hm
    · exact List.mem_append_left _ hm
    · rcases List.mem_cons.mp hm with hm | hm
      · cases hm
      · exact List.mem_append_right _ (List.mem_cons_of_mem _ hm)
  · exact ⟨c, (dropLock_other h hl (Ne.symm hclient) hs).trans hc, hmem⟩

theorem addTransaction_of_not_accepts {c : ClientTransactions} (hs : Sorted c.transactions)
    {new : UInt32} (hacc : ¬ Accepts c new) (now : Instant) :
    (c.addTransaction new now).2.transactions = c.transactions := by
  rcases addTransaction_cases hs new now with
    ⟨-, hadd⟩ | ⟨-, -, hadd⟩ | ⟨pre, post, hts, hpre, hpost, hlt, -⟩
  · rw [hadd]
  · rw [hadd]
  · exact absurd ⟨hts ▸ not_mem_of_split hpre hpost, hlt⟩ hacc

theorem alreadyExists_iff {c : ClientTransactions} (hs : Sorted c.transactions) (xid : UInt32)
    (now : Instant) :
    (c.addTransaction xid now).1 = .error .alreadyExists ↔ ∃ t ∈ c.transactions, t.xid = xid := by
  rcases addTransaction_cases hs xid now with
    ⟨hex, hadd⟩ | ⟨hnone, -, hadd⟩ | ⟨pre, post, hts, hpre, hpost, -, hadd⟩
  · exact iff_of_true (by rw [hadd]) hex
  · exact iff_of_false (by simp [hadd]) fun ⟨t, ht, hx⟩ => hnone t ht hx
  · refine iff_of_false (by simp [hadd]) fun ⟨t, ht, hx⟩ => ?_
    exact not_mem_of_split hpre hpost t (hts ▸ ht) hx

theorem start_remembers (h : s.Inv tr) (hr : Remembers s clientAddr xid t) {client : String}
    {new : UInt32} (hspares : StepSpares clientAddr xid s (.start client new now))
    {r : Except TransactionError TransactionLock}
    (hs : tr.startTransaction s client new now = some (r, s')) :
    Remembers s' clientAddr xid t := by
  obtain ⟨c, hc, hmem⟩ := hr
  by_cases hclient : client = clientAddr
  · subst hclient
    have hsorted := (h.cellOf_inv hc).sorted
    obtain ⟨r', s'', hs'', hc'', -⟩ := start_self tr hc new now
    obtain ⟨-, rfl⟩ : r' = r ∧ s'' = s' := by simpa [hs''] using hs
    refine ⟨_, hc'', ?_⟩
    by_cases hacc : Accepts c new
    · exact (mem_addTransaction_iff hsorted hmem (by simp) hacc now).mpr
        (hspares rfl c hc hacc)
    · rwa [addTransaction_of_not_accepts hsorted hacc now]
  · exact ⟨c, (start_other h (Ne.symm hclient) hs).trans hc, hmem⟩

/-- What is trimmed is really forgotten: no other entry carries the xid. -/
theorem not_mem_of_not_spares {c : ClientTransactions} (hs : Sorted c.transactions)
    (hmem : ⟨xid, .completed t⟩ ∈ c.transactions) {new : UInt32} (hacc : Accepts c new)
    (hspares : ¬ Spares c.trimLimit c.transactions new xid) (now : Instant) :
    ∀ u ∈ (c.addTransaction new now).2.transactions, u.xid ≠ xid := by
  have hgone : ⟨xid, .completed t⟩ ∉ (c.addTransaction new now).2.transactions :=
    fun hm => hspares ((mem_addTransaction_iff hs hmem (by simp) hacc now).mp hm)
  rcases addTransaction_cases hs new now with
    ⟨⟨u, hu, hx⟩, -⟩ | ⟨-, hmax, -⟩ | ⟨pre, post, hts, hpre, hpost, -, hadd⟩
  · exact absurd hx (hacc.1 u hu)
  · exact absurd hacc.2 (UInt16.not_lt.mpr hmax)
  intro u hu hx
  obtain ⟨dropped, hsplit, -⟩ := trim_suffix c.trimLimit (pre ++ .inProgress new :: post)
  have hu' : u ∈ pre ++ .inProgress new :: post := by
    rw [hsplit]
    rw [hadd] at hu
    exact List.mem_append_right dropped hu
  have hcases : u = .inProgress new ∨ u ∈ c.transactions := by
    rw [hts]
    simp only [List.mem_append, List.mem_cons] at hu' ⊢
    tauto
  rcases hcases with rfl | hu''
  · exact hacc.1 _ hmem hx.symm
  · rw [hs.eq_of_xid_eq hu'' hmem hx] at hu
    exact hgone hu

/-- A retransmission at `t'` is recognised. -/
def Recognises (tr : TransactionTracker) (s : TrackerState) (clientAddr : String)
    (xid : UInt32) (t' : Instant) : Prop :=
  ∃ s', tr.startTransaction s clientAddr xid t' = some (.error .alreadyExists, s')

theorem Remembers.recognises (h : s.Inv tr) (hr : Remembers s clientAddr xid t) (t' : Instant) :
    Recognises tr s clientAddr xid t' := by
  obtain ⟨c, hc, hmem⟩ := hr
  obtain ⟨r, s', hs', -, hiff⟩ := start_self tr hc xid t'
  have hr : r = .error .alreadyExists :=
    hiff.mpr ((alreadyExists_iff (h.cellOf_inv hc).sorted xid t').mpr ⟨_, hmem, rfl⟩)
  exact ⟨s', hr ▸ hs'⟩

theorem stepSpares_of_recognises (h : s.Inv tr) (h' : s'.Inv tr)
    (hr : Remembers s clientAddr xid t) {op : Op} (hs : step tr s op = some s') {t' : Instant}
    (hrec : Recognises tr s' clientAddr xid t') : StepSpares clientAddr xid s op := by
  cases op with
  | start client new now =>
    rintro rfl c hc hacc
    by_contra hspares
    obtain ⟨c₀, hc₀, hmem⟩ := hr
    obtain rfl : c₀ = c := by simpa [hc₀] using hc
    obtain ⟨r, s₁, hs₁, hc₁, -⟩ := start_self tr hc new now
    obtain rfl : s₁ = s' := by simpa [step, hs₁] using hs
    have hgone := not_mem_of_not_spares (h.cellOf_inv hc).sorted hmem hacc hspares now
    obtain ⟨r', s₂, hs₂, -, hiff⟩ := start_self tr hc₁ xid t'
    obtain ⟨s₃, hs₃⟩ := hrec
    have hr' : r' = .error .alreadyExists := by
      rw [hs₂] at hs₃
      exact congrArg Prod.fst (Option.some.inj hs₃)
    obtain ⟨u, hu, hx⟩ := (alreadyExists_iff (h'.cellOf_inv hc₁).sorted xid t').mp (hiff.mp hr')
    exact hgone u hu hx
  | drop lock now => trivial
  | cleanup now => trivial
  | cleanupClient client now => trivial

theorem step_remembers (h : s.Inv tr) {op : Op} (he : op.Enabled s)
    (hr : Remembers s clientAddr xid t) (hnow : op.now - t ≤ tr.retentionPeriod)
    (hspares : StepSpares clientAddr xid s op) (hs : step tr s op = some s') :
    Remembers s' clientAddr xid t := by
  cases op with
  | start client new now =>
    obtain ⟨⟨r, s₁⟩, hs₁, rfl⟩ := Option.map_eq_some_iff.mp hs
    exact start_remembers h hr hspares hs₁
  | drop lock now => exact dropLock_remembers h hr hnow he hs
  | cleanup now => exact cleanup_remembers h hr hnow hs
  | cleanupClient client now => exact cleanupClient_remembers h hr hnow hs

/-- Within the retention period, a retransmission is recognised after every prefix of a run
exactly when every accepted transaction of the client spares the xid. -/
theorem recognised_along_iff (hlt : tr.maxActiveTransactions.toNat < tr.trimLimit)
    (h : s.Inv tr) (hr : Remembers s clientAddr xid t) {ops : List Op}
    (he : Along (step tr) (fun s op => op.Enabled s) s ops)
    (hnow : ∀ op ∈ ops, op.now - t ≤ tr.retentionPeriod) (t' : Instant) :
    (∀ n, ∃ s', run (step tr) s (ops.take n) = some s' ∧ Recognises tr s' clientAddr xid t') ↔
      Along (step tr) (StepSpares clientAddr xid) s ops := by
  induction ops generalizing s with
  | nil =>
    refine iff_of_true (fun n => ⟨s, ?_, hr.recognises h t'⟩) trivial
    rw [List.take_nil]
    rfl
  | cons op ops ih =>
    obtain ⟨s₁, hs₁, h₁⟩ := h.step hlt he.1
    have he₁ := he.2 s₁ hs₁
    have hnow₁ : ∀ op ∈ ops, op.now - t ≤ tr.retentionPeriod :=
      fun op' hop' => hnow op' (List.mem_cons_of_mem op hop')
    rw [along_cons_of_some hs₁]
    constructor
    · intro hall
      have hspares : StepSpares clientAddr xid s op := by
        obtain ⟨s', hs', hrec⟩ := hall 1
        obtain rfl : s₁ = s' := by simpa [run, hs₁] using hs'
        exact stepSpares_of_recognises h h₁ hr hs₁ hrec
      have hr₁ := step_remembers h he.1 hr (hnow op (by simp)) hspares hs₁
      refine ⟨hspares, (ih h₁ hr₁ he₁ hnow₁).mp fun n => ?_⟩
      obtain ⟨s', hs', hrec⟩ := hall (n + 1)
      rw [List.take_succ_cons, run_cons_of_some hs₁] at hs'
      exact ⟨s', hs', hrec⟩
    · rintro ⟨hspares, hrest⟩ n
      have hr₁ := step_remembers h he.1 hr (hnow op (by simp)) hspares hs₁
      cases n with
      | zero => exact ⟨s, rfl, hr.recognises h t'⟩
      | succ n =>
        rw [List.take_succ_cons, run_cons_of_some hs₁]
        exact (ih h₁ hr₁ he₁ hnow₁).mpr hrest n

theorem drop_remembers (h : s.Inv tr) {lock : TransactionLock} (hl : lock ∈ s.locks)
    (hs : tr.dropLock s lock t = some s') : Remembers s' lock.client lock.xid t := by
  have ha := h.mapped lock hl
  obtain ⟨c, hc, -⟩ := h.cell _ _ ha
  have hcell : cellOf s lock.client = some c := by simp [cellOf, ha, hc]
  obtain ⟨pre, post, c', -, hts', hc'⟩ := dropLock_self h hl hcell hs
  exact ⟨_, hc', mem_removeOld (by simp [hts']) (completed_fresh lock.xid (by simp))⟩

end Steps

/-- How many transactions of the client are accepted in a run. -/
def acceptedStarts (tr : TransactionTracker) (clientAddr : String) : TrackerState → List Op → ℕ
  | _, [] => 0
  | s, op :: ops =>
    let accepted :=
      match op with
      | .start client xid now =>
        match tr.startTransaction s client xid now with
        | some (.ok _, _) => if client = clientAddr then 1 else 0
        | _ => 0
      | _ => 0
    accepted + (match step tr s op with
      | some s' => acceptedStarts tr clientAddr s' ops
      | none => 0)

/-- A run in which `lock` is dropped at `t`, leading to `s`, with a nondecreasing clock, and
a retransmission at `t'` within the retention period. -/
structure InWindow (tr : TransactionTracker) (before : List Op) (lock : TransactionLock)
    (t : Instant) (s : TrackerState) (after : List Op) (t' : Instant) : Prop where
  enabled : Along (step tr) (fun s op => op.Enabled s) TransactionTracker.init
    (before ++ .drop lock t :: after)
  completed : run (step tr) TransactionTracker.init (before ++ [.drop lock t]) = some s
  clock : ((before ++ .drop lock t :: after).map Op.now ++ [t']).Pairwise (· ≤ ·)
  retained : t' - t ≤ tr.retentionPeriod

theorem InWindow.now_le {tr : TransactionTracker} {before after : List Op}
    {lock : TransactionLock} {t t' : Instant} {s : TrackerState}
    (h : InWindow tr before lock t s after t') :
    ∀ op ∈ after, op.now - t ≤ tr.retentionPeriod := by
  intro op hop
  have hle : op.now ≤ t' := by
    refine (List.pairwise_append.mp h.clock).2.2 _ ?_ t' (by simp)
    exact List.mem_map_of_mem (List.mem_append_right _ (List.mem_cons_of_mem _ hop))
  exact (Nat.sub_le_sub_right hle t).trans h.retained

/-- Whether the retransmission is recognised after the run and after all its prefixes is
decided by the accepted transactions of the client alone: each of them must spare the xid.
How many they are does not matter. -/
theorem retransmission_recognised_iff (tr : TransactionTracker)
    (hlt : tr.maxActiveTransactions.toNat < tr.trimLimit) {before after : List Op}
    {lock : TransactionLock} {t t' : Instant} {s : TrackerState}
    (h : InWindow tr before lock t s after t') :
    (∀ n, ∃ s', run (step tr) s (after.take n) = some s' ∧
        Recognises tr s' lock.client lock.xid t') ↔
      Along (step tr) (StepSpares lock.client lock.xid) s after := by
  obtain ⟨hbefore, hrest⟩ := along_append.mp h.enabled
  obtain ⟨s₀, hs₀, h₀⟩ := inv_of_run hlt hbefore
  obtain ⟨hl, hafter⟩ := hrest s₀ hs₀
  have hs : tr.dropLock s₀ lock t = some s := by
    have hrun := h.completed
    rw [run_append, hs₀] at hrun
    obtain ⟨s₁, hs₁, hs₁'⟩ := run_cons_eq_some hrun
    cases hs₁'
    exact hs₁
  obtain ⟨s₁, hs₁, h₁⟩ := h₀.dropLock hl t
  obtain rfl : s₁ = s := by simpa [hs₁] using hs
  exact recognised_along_iff hlt h₁ (drop_remembers h₀ hl hs) (hafter _ hs) h.now_le t'

/-- xids in order, the list never grows past the limit. -/
theorem retransmission_recognised_in_order :
    ∃ s, InWindow ⟨10, 1, 2⟩ [.start "a" 1 0] ⟨0, 1, "a"⟩ 0 s
        [.start "a" 2 1, .drop ⟨0, 2, "a"⟩ 2] 3 ∧
      ∀ n, ∃ s', run (step ⟨10, 1, 2⟩) s
          ([Op.start "a" 2 1, .drop ⟨0, 2, "a"⟩ 2].take n) = some s' ∧
        Recognises ⟨10, 1, 2⟩ s' "a" 1 3 := by
  have h : InWindow ⟨10, 1, 2⟩ [.start "a" 1 0] ⟨0, 1, "a"⟩ 0 _
      [.start "a" 2 1, .drop ⟨0, 2, "a"⟩ 2] 3 := ⟨by decide, rfl, by decide, by decide⟩
  exact ⟨_, h, (retransmission_recognised_iff ⟨10, 1, 2⟩ (by decide) h).mpr (by decide)⟩

/-- After a smaller xid, as it comes with every wrap-around, one accepted transaction makes
the tracker forget the latest completed one: it is executed again. -/
theorem retransmission_forgotten :
    ∃ s s' lock s'', InWindow ⟨10, 1, 2⟩
        [.start "a" 10 0, .drop ⟨0, 10, "a"⟩ 0, .start "a" 11 0, .drop ⟨0, 11, "a"⟩ 0,
          .start "a" 1 0] ⟨0, 1, "a"⟩ 0 s [.start "a" 12 0, .drop ⟨0, 12, "a"⟩ 0] 0 ∧
      acceptedStarts ⟨10, 1, 2⟩ "a" s [.start "a" 12 0, .drop ⟨0, 12, "a"⟩ 0] < 2 ∧
      run (step ⟨10, 1, 2⟩) s [.start "a" 12 0, .drop ⟨0, 12, "a"⟩ 0] = some s' ∧
      TransactionTracker.startTransaction ⟨10, 1, 2⟩ s' "a" 1 0 = some (.ok lock, s'') :=
  ⟨_, _, _, _, ⟨by decide, rfl, by decide, by decide⟩, by decide, rfl, rfl⟩

end Nfs3.Tracker
