import Nfs3.Mirror.ListingProtocol
import Nfs3.Server.Verifier

/-!
# Listings cannot be resumed

A listing that stops early has taken one entry more than it replied. The iterator goes into the
cache with a cookie beyond that entry, and the cache is searched for exactly the cookie that a
client sends. So the cookie of the last entry that a client got finds nothing.

All interleavings of requests and of the cleaner are covered. The upper half of a cookie, its
block, tells the stream; every block has one owner, an iterator in use or in the cache.
-/
namespace Nfs3.Mirror

open Interaction (Prog Pool Turn Protocol)
open MirrorFsIterator (Within)

/-! ## Owners of streams -/

/-- The iterators of every directory, in use or cached. -/
abbrev Owners := FileHandleU64 → List MirrorFsIterator

namespace Owners

open MirrorFsIterator (Moves)

/-- One iterator, at its directory. -/
def single (iter : MirrorFsIterator) : Owners := fun d => if iter.dirid = d then [iter] else []

/-- Every block below the counter has at most one owner, which stays within it. -/
structure Numbered (counter : ℕ) (o : Owners) : Prop where
  within : ∀ d, ∀ iter ∈ o d, iter.Within ∧ block iter.cookie < counter
  distinct : ∀ d, ((o d).map fun iter => block iter.cookie).Nodup

/-- Whoever owns the block of the cookie is beyond it. -/
structure Passed (counter : ℕ) (d : FileHandleU64) (cookie : UInt64) (o : Owners) : Prop where
  old : block cookie < counter
  beyond : ∀ iter ∈ o d, block iter.cookie = block cookie → cookie.toNat < iter.cookie.toNat

/-- What a step can do to the owners: some are given up, one moves on, or one is new. -/
inductive Shift (counter : ℕ) (o : Owners) : ℕ → Owners → Prop
  | shrunk {o' : Owners} (sub : ∀ d, (o' d).Subperm (o d)) : Shift counter o counter o'
  | moved {o' rest : Owners} {n : ℕ} {iter iter' : MirrorFsIterator} (moves : Moves n iter iter')
      (before : ∀ d, (o d).Perm (single iter d ++ rest d))
      (after : ∀ d, (o' d).Perm (single iter' d ++ rest d)) : Shift counter o counter o'
  | fresh {o' : Owners} {iter : MirrorFsIterator} (within : iter.Within)
      (block_eq : block iter.cookie = counter) (after : ∀ d, (o' d).Perm (single iter d ++ o d)) :
      Shift counter o (counter + 1) o'

variable {counter counter' : ℕ} {o o' : Owners} {d : FileHandleU64} {cookie : UInt64}

theorem mem_single {iter it : MirrorFsIterator} :
    it ∈ single iter d ↔ it = iter ∧ iter.dirid = d := by
  unfold single
  split_ifs with h <;> simp [h]

/-- The owner that moves is within its block. -/
theorem Numbered.within_single {iter : MirrorFsIterator} {rest : Owners}
    (hn : Numbered counter o) (h : ∀ d, (o d).Perm (single iter d ++ rest d)) :
    iter.Within ∧ block iter.cookie < counter := by
  refine hn.within iter.dirid iter ((h iter.dirid).mem_iff.mpr ?_)
  exact List.mem_append_left _ (mem_single.mpr ⟨rfl, rfl⟩)

theorem Shift.numbered (h : Shift counter o counter' o') (hn : Numbered counter o) :
    Numbered counter' o' := by
  cases h with
  | shrunk hsub =>
    constructor
    · intro d iter hiter
      exact hn.within d iter ((hsub d).subset hiter)
    · intro d
      obtain ⟨l, hperm, hl⟩ := hsub d
      exact (hperm.map _).nodup_iff.mp ((hl.map _).nodup (hn.distinct d))
  | @moved _ rest n iter iter' hmoves hbefore hafter =>
    obtain ⟨hwithin, hlt⟩ := hn.within_single hbefore
    have hblock := hmoves.block_eq hwithin
    constructor
    · intro d it hit
      rcases List.mem_append.mp ((hafter d).mem_iff.mp hit) with hit | hit
      · rw [(mem_single.mp hit).1]
        exact ⟨hmoves.within hwithin, by rw [hblock]; exact hlt⟩
      · exact hn.within d it ((hbefore d).mem_iff.mpr (List.mem_append_right _ hit))
    · intro d
      have hsingle : (single iter' d).map (fun iter => block iter.cookie) =
          (single iter d).map fun iter => block iter.cookie := by
        unfold single
        rw [hmoves.dirid]
        split_ifs <;> simp [hblock]
      have hsame : ((o' d).map fun iter => block iter.cookie).Perm
          ((o d).map fun iter => block iter.cookie) := by
        refine ((hafter d).map _).trans (List.Perm.trans ?_ ((hbefore d).map _).symm)
        rw [List.map_append, List.map_append, hsingle]
      exact hsame.nodup_iff.mpr (hn.distinct d)
  | @fresh _ iter hwithin hblock hafter =>
    constructor
    · intro d it hit
      rcases List.mem_append.mp ((hafter d).mem_iff.mp hit) with hit | hit
      · rw [(mem_single.mp hit).1]
        exact ⟨hwithin, by omega⟩
      · obtain ⟨hw, hlt⟩ := hn.within d it hit
        exact ⟨hw, by omega⟩
    · intro d
      rw [((hafter d).map _).nodup_iff, List.map_append]
      unfold single
      split_ifs
      · refine List.nodup_cons.mpr ⟨?_, hn.distinct d⟩
        intro hmem
        obtain ⟨it, hit, heq⟩ := List.mem_map.mp hmem
        have hlt := (hn.within d it hit).2
        dsimp only at heq
        omega
      · exact hn.distinct d

theorem Shift.counter_le (h : Shift counter o counter' o') : counter' ≤ counter + 1 := by
  cases h <;> omega

theorem Shift.passed (h : Shift counter o counter' o') (hn : Numbered counter o)
    (hp : Passed counter d cookie o) : Passed counter' d cookie o' := by
  cases h with
  | shrunk hsub => exact ⟨hp.old, fun iter hiter => hp.beyond iter ((hsub d).subset hiter)⟩
  | @moved _ rest n iter iter' hmoves hbefore hafter =>
    refine ⟨hp.old, ?_⟩
    obtain ⟨hwithin, -⟩ := hn.within_single hbefore
    intro it hit hblock
    rcases List.mem_append.mp ((hafter d).mem_iff.mp hit) with hit | hit
    · obtain ⟨rfl, hd⟩ := mem_single.mp hit
      have hmem : iter ∈ o d :=
        (hbefore d).mem_iff.mpr
          (List.mem_append_left _ (mem_single.mpr ⟨rfl, hmoves.dirid.symm.trans hd⟩))
      have hlt := hp.beyond iter hmem ((hmoves.block_eq hwithin).symm.trans hblock)
      rw [hmoves.toNat_cookie hwithin]
      omega
    · exact hp.beyond it ((hbefore d).mem_iff.mpr (List.mem_append_right _ hit)) hblock
  | @fresh _ iter hwithin hblock hafter =>
    have hold := hp.old
    refine ⟨by omega, ?_⟩
    intro it hit heq
    rcases List.mem_append.mp ((hafter d).mem_iff.mp hit) with hit | hit
    · rw [(mem_single.mp hit).1] at heq
      omega
    · exact hp.beyond it hit heq

theorem Numbered.passed (hn : Numbered counter o) {iter : MirrorFsIterator} (hiter : iter ∈ o d)
    (hb : Beyond cookie iter) : Passed counter d cookie o where
  old := by
    rw [hb.block_eq]
    exact (hn.within d iter hiter).2
  beyond it hit heq := by
    have hsame : it = iter :=
      List.inj_on_of_nodup_map (hn.distinct d) hit hiter (heq.trans hb.block_eq)
    rw [hsame]
    exact hb.lt

end Owners

/-! ## The owners of a server -/

def CachedIteratorInfo.iterator (info : CachedIteratorInfo) (d : FileHandleU64) :
    MirrorFsIterator :=
  ⟨d, some info.readDir, info.cookie⟩

/-- The iterator in use. -/
def Holding.owned : Holding → Owners
  | held _ iter => Owners.single iter
  | _ => fun _ => []

def owners (c : IteratorCache) (ps : List Holding) : Owners :=
  fun d => (c.cache d).map (·.iterator d) ++ ps.flatMap (·.owned d)

section Shifts

open Owners (Shift)

variable {c c' : IteratorCache} {ps rest : List Holding} {p : Holding}

theorem owners_of_perm (h : ps.Perm (p :: rest)) (d : FileHandleU64) :
    (owners c ps d).Perm (p.owned d ++ owners c rest d) := by
  have hflat := h.flatMap_right fun p => p.owned d
  unfold owners
  calc (c.cache d).map (·.iterator d) ++ ps.flatMap (·.owned d)
      |>.Perm ((c.cache d).map (·.iterator d) ++ (p.owned d ++ rest.flatMap (·.owned d))) :=
        hflat.append_left _
    _ |>.Perm (p.owned d ++ ((c.cache d).map (·.iterator d) ++ rest.flatMap (·.owned d))) := by
        rw [← List.append_assoc, ← List.append_assoc]
        exact List.perm_append_comm.append_right _

/-- The cache gives up states, and takes at most the one of an iterator. -/
theorem owners_subperm {l : List MirrorFsIterator} {d : FileHandleU64}
    (h : ((c'.cache d).map (·.iterator d)).Subperm (l ++ (c.cache d).map (·.iterator d))) :
    (owners c' ps d).Subperm (l ++ owners c ps d) := by
  unfold owners
  rw [← List.append_assoc]
  exact (List.subperm_append_right _).mpr h

theorem shift_drop {T S : Type} [DecidableEq S] (fs : Fs T S) (asked : UInt64)
    (iter : MirrorFsIterator) (now : Instant) (hps : ps.Perm (.held asked iter :: rest)) {ps'}
    (hps' : ps'.Perm (.dropped asked iter :: rest)) (counter : ℕ) :
    Shift counter (owners fs.iteratorCache ps) counter
      (owners (fs.drop iter now).iteratorCache ps') := by
  refine .shrunk fun d => ?_
  have hbefore := owners_of_perm (c := fs.iteratorCache) hps d
  have hafter := owners_of_perm (c := (fs.drop iter now).iteratorCache) hps' d
  refine hafter.subperm.trans (List.Subperm.trans ?_ hbefore.symm.subperm)
  refine owners_subperm ?_
  cases hreadDir : iter.readDir with
  | none =>
    rw [Fs.drop_of_none hreadDir]
    exact (List.sublist_append_right _ _).subperm
  | some readDir =>
    obtain ⟨kept, hperm, hsub⟩ := fs.cache_drop_subperm hreadDir now d
    have hmap := (hperm.symm.map (·.iterator d)).subperm.trans (hsub.map (·.iterator d)).subperm
    refine hmap.trans (List.Perm.subperm ?_)
    rw [List.map_append]
    refine List.perm_append_comm.trans (List.Perm.append_right _ (List.Perm.of_eq ?_))
    split_ifs with hd
    · simp [Holding.owned, Owners.single, CachedIteratorInfo.iterator, ← hreadDir, hd]
    · simp [Holding.owned, Owners.single, Ne.symm hd]

theorem shift_clean (c : IteratorCache) (now : Instant) (ps : List Holding) (counter : ℕ) :
    Shift counter (owners c ps) counter (owners (c.cleanup now) ps) := by
  refine .shrunk fun d => ?_
  exact (List.subperm_append_right _).mpr (List.filter_sublist.map _).subperm

theorem shift_open {dirid : FileHandleU64} {cookie : UInt64} {iter : MirrorFsIterator}
    (h : Fs.Opens c dirid cookie iter c') (hcounter : c.cookieCounter.toNat + 1 < 2 ^ 32)
    (hps : ps.Perm (.nothing :: rest)) {ps'} (hps' : ps'.Perm (.held cookie iter :: rest)) :
    Shift c.cookieCounter.toNat (owners c ps) c'.cookieCounter.toNat (owners c' ps') := by
  cases h with
  | @created readDir hzero hsmall =>
    have hbase := World.toNat_baseCookie c
    have hnext : c.generateBaseCookie.2.cookieCounter.toNat = c.cookieCounter.toNat + 1 := by
      simp only [IteratorCache.generateBaseCookie, UInt32.toNat_add, UInt32.toNat_one]
      omega
    have hblock : block c.generateBaseCookie.1 = c.cookieCounter.toNat := by
      unfold block
      omega
    rw [hnext]
    refine .fresh (Fs.within_created c dirid hsmall) hblock fun d => ?_
    have hbefore := owners_of_perm (c := c) hps d
    exact (owners_of_perm hps' d).trans (hbefore.symm.append_left _)
  | @resumed info l hcookie hperm =>
    refine .shrunk fun d => List.Perm.subperm ?_
    have hbefore := owners_of_perm (c := c) hps d
    have hafter := owners_of_perm (c := c.setDir dirid l) hps' d
    refine hafter.trans (List.Perm.trans ?_ hbefore.symm)
    have hcache : (c.setDir dirid l).cache d = if d = dirid then l else c.cache d :=
      Function.update_apply _ _ _ _
    simp only [Holding.owned, Owners.single, owners, hcache, List.nil_append]
    rw [← List.append_assoc]
    refine List.Perm.append_right _ ?_
    split_ifs with hd hd' hd'
    · subst hd
      exact (hperm.map (·.iterator dirid)).symm
    · exact absurd hd.symm hd'
    · exact absurd hd'.symm hd
    · exact List.Perm.refl _

end Shifts

namespace Holding

def opened : Holding → Bool
  | nothing => false
  | _ => true

/-- Where the iterator came from. -/
def source : Holding → Option (FileHandleU64 × UInt64)
  | nothing => none
  | held asked iter | dropped asked iter => some (iter.dirid, asked)

end Holding

section Sound

open Owners (Shift Numbered Passed)

variable {T S W : Type} [DecidableEq S]

/-- The counter is that of the streams opened so far, every stream has one owner, and the
cookies that an iterator has passed will not be found again. -/
structure Sound (s : Machine T S W) (ps : List Holding) : Prop where
  counter : s.fs.iteratorCache.cookieCounter.toNat ≤ ps.countP Holding.opened
  numbered : Numbered s.fs.iteratorCache.cookieCounter.toNat (owners s.fs.iteratorCache ps)
  passed : ∀ asked iter, .dropped asked iter ∈ ps → ∀ cookie, Beyond cookie iter →
    Passed s.fs.iteratorCache.cookieCounter.toNat iter.dirid cookie (owners s.fs.iteratorCache ps)

/-- What a turn can do. -/
structure Changed (s : Machine T S W) (ps : List Holding) (s' : Machine T S W)
    (ps' : List Holding) : Prop where
  shift : Shift s.fs.iteratorCache.cookieCounter.toNat (owners s.fs.iteratorCache ps)
    s'.fs.iteratorCache.cookieCounter.toNat (owners s'.fs.iteratorCache ps')
  counter : s'.fs.iteratorCache.cookieCounter.toNat ≤ ps'.countP Holding.opened
  dropped : ∀ asked iter, .dropped asked iter ∈ ps' →
    .dropped asked iter ∈ ps ∨ iter ∈ owners s.fs.iteratorCache ps iter.dirid
  source : ∀ (j : ℕ) p' d cookie, ps'[j]? = some p' → p'.source = some (d, cookie) →
    (∃ p, ps[j]? = some p ∧ p.source = some (d, cookie)) ∨ cookie = 0 ∨
      ∃ iter ∈ owners s.fs.iteratorCache ps d, iter.cookie = cookie

variable {s s' : Machine T S W} {ps ps' : List Holding}

theorem Changed.sound (h : Changed s ps s' ps') (hs : Sound s ps) : Sound s' ps' where
  counter := h.counter
  numbered := h.shift.numbered hs.numbered
  passed asked iter hmem cookie hb := by
    refine h.shift.passed hs.numbered ?_
    rcases h.dropped asked iter hmem with hold | howner
    · exact hs.passed asked iter hold cookie hb
    · exact hs.numbered.passed howner hb

/-- None of the requests from some point on got an iterator at the cookie. -/
structure Missed (d : FileHandleU64) (cookie : UInt64) (from_ : ℕ) (s : Machine T S W)
    (ps : List Holding) : Prop where
  sound : Mirror.Sound s ps
  passed : Passed s.fs.iteratorCache.cookieCounter.toNat d cookie (owners s.fs.iteratorCache ps)
  missed : ∀ j p, from_ ≤ j → ps[j]? = some p → p.source ≠ some (d, cookie)

theorem Changed.missed {d : FileHandleU64} {cookie : UInt64} {from_ : ℕ}
    (h : Changed s ps s' ps') (hne : cookie ≠ 0) (hm : Missed d cookie from_ s ps) :
    Missed d cookie from_ s' ps' where
  sound := h.sound hm.sound
  passed := h.shift.passed hm.sound.numbered hm.passed
  missed j p' hj hp' hsource := by
    rcases h.source j p' d cookie hp' hsource with ⟨p, hp, hold⟩ | hzero | ⟨iter, hiter, hcookie⟩
    · exact hm.missed j p hj hp hold
    · exact hne hzero
    · -- an owner at the cookie would have passed it
      have hlt := hm.passed.beyond iter hiter (by rw [hcookie])
      rw [hcookie] at hlt
      exact lt_irrefl _ hlt

variable {index : ℕ} {p p' : Holding}

theorem changed_set (hp : ps[index]? = some p)
    (hshift : Shift s.fs.iteratorCache.cookieCounter.toNat (owners s.fs.iteratorCache ps)
      s'.fs.iteratorCache.cookieCounter.toNat (owners s'.fs.iteratorCache (ps.set index p')))
    (hcounter : s'.fs.iteratorCache.cookieCounter.toNat ≤ (ps.set index p').countP Holding.opened)
    (hdropped : ∀ asked iter, p' = .dropped asked iter →
      p = .dropped asked iter ∨ iter ∈ owners s.fs.iteratorCache ps iter.dirid)
    (hsource : ∀ d cookie, p'.source = some (d, cookie) → p.source = some (d, cookie) ∨
      cookie = 0 ∨ ∃ iter ∈ owners s.fs.iteratorCache ps d, iter.cookie = cookie) :
    Changed s ps s' (ps.set index p') where
  shift := hshift
  counter := hcounter
  dropped asked iter hmem := by
    rcases List.mem_or_eq_of_mem_set hmem with hmem | heq
    · exact .inl hmem
    · rcases hdropped asked iter heq.symm with rfl | howner
      · exact .inl (List.mem_of_getElem? hp)
      · exact .inr howner
  source j q d cookie hq hsrc := by
    rw [List.getElem?_set] at hq
    split_ifs at hq with hj hlt
    · cases hq
      rcases hsource d cookie hsrc with hold | hnew
      · exact .inl ⟨p, hj ▸ hp, hold⟩
      · exact .inr hnew
    · exact .inl ⟨q, hq, hsrc⟩

theorem perm_of_getElem? (hp : ps[index]? = some p) : ps.Perm (p :: ps.eraseIdx index) := by
  obtain ⟨hlt, rfl⟩ := List.getElem?_eq_some_iff.mp hp
  exact (List.getElem_cons_eraseIdx_perm hlt).symm

theorem set_perm (hp : ps[index]? = some p) (p' : Holding) :
    (ps.set index p').Perm (p' :: ps.eraseIdx index) := by
  obtain ⟨hlt, -⟩ := List.getElem?_eq_some_iff.mp hp
  exact List.set_perm_cons_eraseIdx hlt p'

/-- A request that has opened its iterator has done so for good. -/
theorem countP_opened_set (hp : ps[index]? = some p) (h : p.opened = true → p'.opened = true) :
    ps.countP Holding.opened ≤ (ps.set index p').countP Holding.opened := by
  rw [(perm_of_getElem? hp).countP_eq, (set_perm hp p').countP_eq, List.countP_cons,
    List.countP_cons]
  by_cases hopened : p.opened = true
  · simp [hopened, h hopened]
  · simp [hopened]

theorem mem_owners_of_held {asked : UInt64} {iter : MirrorFsIterator} {c : IteratorCache}
    (hp : ps[index]? = some (.held asked iter)) : iter ∈ owners c ps iter.dirid := by
  refine List.mem_append_right _ (List.mem_flatMap.mpr ⟨_, List.mem_of_getElem? hp, ?_⟩)
  exact Owners.mem_single.mpr ⟨rfl, rfl⟩

theorem changed_keep (hs : Sound s ps) (hp : ps[index]? = some p)
    (hcache : s'.fs.iteratorCache = s.fs.iteratorCache) : Changed s ps s' (ps.set index p) := by
  have hset : ps.set index p = ps := by
    obtain ⟨hlt, rfl⟩ := List.getElem?_eq_some_iff.mp hp
    exact List.set_getElem_self hlt
  refine changed_set hp ?_ ?_ (fun _ _ h => .inl h) fun _ _ h => .inl h
  · rw [hset, hcache]
    exact .shrunk fun d => List.Subperm.refl _
  · rw [hset, hcache]
    exact hs.counter

theorem changed_move (hs : Sound s ps) {n : ℕ} {asked : UInt64} {iter iter' : MirrorFsIterator}
    (hp : ps[index]? = some (.held asked iter)) (hmoves : MirrorFsIterator.Moves n iter iter')
    (hcache : s'.fs.iteratorCache = s.fs.iteratorCache) :
    Changed s ps s' (ps.set index (.held asked iter')) := by
  refine changed_set hp ?_ ?_ (fun _ _ h => nomatch h) ?_
  · rw [hcache]
    exact .moved hmoves (fun d => owners_of_perm (perm_of_getElem? hp) d)
      fun d => owners_of_perm (set_perm hp _) d
  · rw [hcache]
    exact hs.counter.trans (countP_opened_set hp fun _ => rfl)
  · intro d cookie h
    simp only [Holding.source, hmoves.dirid] at h ⊢
    exact .inl h

theorem changed_drop (hs : Sound s ps) {asked : UInt64} {iter : MirrorFsIterator}
    (hp : ps[index]? = some (.held asked iter)) (now : Instant)
    (hfs : s'.fs = s.fs.drop iter now) :
    Changed s ps s' (ps.set index (.dropped asked iter)) := by
  have hcounter : (s.fs.drop iter now).iteratorCache.cookieCounter =
      s.fs.iteratorCache.cookieCounter := by
    unfold Fs.drop
    split <;> rfl
  refine changed_set hp ?_ ?_ ?_ ?_
  · rw [hfs, hcounter]
    exact shift_drop s.fs asked iter now (perm_of_getElem? hp) (set_perm hp _) _
  · rw [hfs, hcounter]
    exact hs.counter.trans (countP_opened_set hp fun _ => rfl)
  · intro asked' iter' h
    cases h
    exact .inr (mem_owners_of_held hp)
  · exact fun d cookie h => .inl h

/-- A new stream starts at zero, and a cached one where it was left. -/
theorem opens_source {dirid : FileHandleU64} {cookie : UInt64} {iter : MirrorFsIterator}
    {c c' : IteratorCache} (h : Fs.Opens c dirid cookie iter c') :
    cookie = 0 ∨ ∃ owner ∈ owners c ps iter.dirid, owner.cookie = cookie := by
  cases h with
  | created hzero => exact .inl hzero
  | @resumed info l hcookie hperm =>
    refine .inr ⟨info.iterator dirid, List.mem_append_left _ ?_, hcookie⟩
    exact List.mem_map_of_mem (hperm.mem_iff.mpr List.mem_cons_self)

theorem changed_open (hs : Sound s ps) {dirid : FileHandleU64} {cookie : UInt64}
    {iter : MirrorFsIterator} (hp : ps[index]? = some .nothing)
    (hopens : Fs.Opens s.fs.iteratorCache dirid cookie iter s'.fs.iteratorCache)
    (hlength : ps.length < 2 ^ 32) : Changed s ps s' (ps.set index (.held cookie iter)) := by
  have hcount : ps.countP Holding.opened + 1 =
      (ps.set index (.held cookie iter)).countP Holding.opened := by
    rw [(perm_of_getElem? hp).countP_eq, (set_perm hp _).countP_eq, List.countP_cons,
      List.countP_cons]
    simp [Holding.opened]
  have hle : (ps.set index (.held cookie iter)).countP Holding.opened ≤ ps.length := by
    simpa using List.countP_le_length (p := Holding.opened) (l := ps.set index (.held cookie iter))
  have hcounter := hs.counter
  have hshift := shift_open hopens (by omega) (perm_of_getElem? hp)
    (set_perm hp (.held cookie iter))
  refine changed_set hp hshift ?_ (fun _ _ h => nomatch h) ?_
  · have hstep := hshift.counter_le
    omega
  · intro d k h
    obtain ⟨rfl, rfl⟩ := Prod.mk.inj (Option.some.inj h)
    exact .inr (opens_source hopens)

theorem opens_within {dirid : FileHandleU64} {cookie : UInt64} {iter : MirrorFsIterator}
    {c : IteratorCache} (hs : Sound s ps)
    (hopens : Fs.Opens s.fs.iteratorCache dirid cookie iter c) :
    iter.dirid = dirid ∧ iter.Within := by
  cases hopens with
  | created hzero hsmall => exact ⟨rfl, Fs.within_created _ dirid hsmall⟩
  | @resumed info l hcookie hperm =>
    refine ⟨rfl, (hs.numbered.within dirid (info.iterator dirid) ?_).1⟩
    refine List.mem_append_left _ (List.mem_map_of_mem ?_)
    exact hperm.mem_iff.mpr List.mem_cons_self

variable [SymbolTable T S] {host : HostFs W}

theorem listing_relies (hsmall : host.Small) (hs : Sound s ps) {c : FsCall} {r : c.Reply}
    (h : s.exec host c = some (r, s')) : listing.relies p c r := by
  cases c with
  | getOrCreateIterator dirid cookie =>
    intro iter hr
    rcases Machine.exec_open hsmall h with ⟨stat, hstat, -⟩ | ⟨iter', hok, hopens⟩
    · cases hstat.symm.trans hr
    · cases hok.symm.trans hr
      exact opens_within hs hopens
  | next iter => exact (Machine.exec_next h).2
  | nextPlus iter => exact (Machine.exec_nextPlus h).2
  | _ => trivial

theorem Holding.isHeld_iff {iter : MirrorFsIterator} :
    p.isHeld iter ↔ ∃ asked, p = .held asked iter := by
  cases p <;> simp [Holding.isHeld]

theorem changed_exec (hsmall : host.Small) (hs : Sound s ps) (hlength : ps.length < 2 ^ 32)
    {c : FsCall} {r : c.Reply} (hp : ps[index]? = some p) (hallowed : listing.allows p c)
    (h : s.exec host c = some (r, s')) :
    Changed s ps s' (ps.set index (listing.next p c r)) := by
  cases c with
  | host c => exact changed_keep hs hp (Machine.exec_iteratorCache rfl h)
  | handleToPath id => exact changed_keep hs hp (Machine.exec_iteratorCache rfl h)
  | lookupById => exact changed_keep hs hp (Machine.exec_iteratorCache rfl h)
  | getOrCreateIterator dirid cookie =>
    rcases Machine.exec_open hsmall h with ⟨stat, rfl, hcache⟩ | ⟨iter, rfl, hopens⟩
    · exact changed_keep hs hp hcache
    · have hnothing : p = .nothing := hallowed
      subst hnothing
      exact changed_open hs hp hopens hlength
  | next iter =>
    obtain ⟨asked, rfl⟩ := Holding.isHeld_iff.mp hallowed
    obtain ⟨hcache, n, hmoves, -⟩ := Machine.exec_next h
    exact changed_move hs hp hmoves hcache
  | nextPlus iter =>
    obtain ⟨asked, rfl⟩ := Holding.isHeld_iff.mp hallowed
    obtain ⟨hcache, n, hmoves, -⟩ := Machine.exec_nextPlus h
    exact changed_move hs hp hmoves hcache
  | drop iter now =>
    obtain ⟨asked, rfl⟩ := Holding.isHeld_iff.mp hallowed
    cases h
    exact changed_drop hs hp now rfl

theorem changed_of_turned (hsmall : host.Small) (hs : Sound s ps) {t : Turn Incoming Instant}
    (h : Pool.Turned listing (fun _ : Incoming => .nothing) (Machine.exec host) Server.clean s ps t
      s' ps') (hlength : ps.length < 2 ^ 32) : Changed s ps s' ps' := by
  cases h with
  | start origin =>
    have hsame : owners s.fs.iteratorCache (ps ++ [.nothing]) = owners s.fs.iteratorCache ps := by
      funext d
      simp [owners, Holding.owned]
    constructor
    · rw [hsame]
      exact .shrunk fun d => List.Subperm.refl _
    · rw [List.countP_append]
      exact hs.counter.trans (Nat.le_add_right _ _)
    · intro asked iter hmem
      rcases List.mem_append.mp hmem with hmem | hmem
      · exact .inl hmem
      · cases List.mem_singleton.mp hmem
    · intro j q d cookie hq hsource
      rw [List.getElem?_append] at hq
      split_ifs at hq
      · exact .inl ⟨q, hq, hsource⟩
      · rw [List.mem_singleton.mp (List.mem_of_getElem? hq)] at hsource
        cases hsource
  | step hp hallowed hanswer => exact changed_exec hsmall hs hlength hp hallowed hanswer
  | tick now =>
    exact ⟨shift_clean _ now ps _, hs.counter, fun _ _ h => .inl h,
      fun j q d cookie hq hsource => .inl ⟨q, hq, hsource⟩⟩

/-! ## Runs -/

variable {root : PathBuf} {retentionPeriod : ℕ} {maxCachedPerDir : UInt16} {w : W}
  {server server' : Server T S W} {turns : List (Turn Incoming Instant)}

/-- The phases of the requests under way. -/
def Server.holdings (server : Server T S W) : List Holding :=
  server.phases listing fun _ => .nothing

/-- Every request keeps to the protocol, and the owners are sound. -/
structure Server.Sound (server : Server T S W) : Prop where
  follows : server.Follows listing (fun _ => .nothing) Listed
  sound : Mirror.Sound server.shared server.holdings

theorem sound_new (root : PathBuf) (retentionPeriod : ℕ) (maxCachedPerDir : UInt16) (w : W) :
    (Server.new root retentionPeriod maxCachedPerDir w : Server T S W).Sound where
  follows := by simp [Server.new, Pool.Follows]
  sound := by
    refine ⟨Nat.zero_le _, ⟨?_, ?_⟩, ?_⟩
    · intro d iter hiter
      cases hiter
    · intro d
      exact List.nodup_nil
    · intro asked iter hmem
      cases hmem

theorem sound_of_run (hsmall : host.Small) (hs : server.Sound)
    (hrun : Transition.run (Server.turn host root) server turns = some server')
    (hcount : server'.tasks.length < 2 ^ 32) : server'.Sound := by
  obtain ⟨hfollows, hsound⟩ := Pool.run_phases Mirror.Sound
    (fun s _ => s.tasks.length < 2 ^ 32)
    (task_follows root) (fun s ps hi p _ c r s' _ h => listing_relies hsmall hi h)
    (fun s t shared ps hi hc hturned =>
      (changed_of_turned hsmall hi hturned (by simpa [Pool.phases] using hc)).sound hi)
    ⟨hs.follows, hs.sound⟩ (Pool.along_length hrun hcount) hrun
  exact ⟨hfollows, hsound⟩

theorem missed_of_run (hsmall : host.Small) (hs : server.Sound) {d : FileHandleU64}
    {cookie : UInt64} (hne : cookie ≠ 0)
    (hpassed : Passed server.shared.fs.iteratorCache.cookieCounter.toNat d cookie
      (owners server.shared.fs.iteratorCache server.holdings))
    (hrun : Transition.run (Server.turn host root) server turns = some server')
    (hcount : server'.tasks.length < 2 ^ 32) :
    server'.Follows listing (fun _ => .nothing) Listed ∧
      Missed d cookie server.tasks.length server'.shared server'.holdings := by
  have hstart : Missed d cookie server.tasks.length server.shared server.holdings := by
    refine ⟨hs.sound, hpassed, ?_⟩
    intro j p hj hp
    have hlt := (List.getElem?_eq_some_iff.mp hp).1
    rw [Server.holdings, Pool.phases, List.length_map] at hlt
    omega
  exact Pool.run_phases (Missed d cookie server.tasks.length)
    (fun s _ => s.tasks.length < 2 ^ 32)
    (task_follows root) (fun s ps hi p _ c r s' _ h => listing_relies hsmall hi.sound h)
    (fun s t shared ps hi hc hturned => (changed_of_turned hsmall hi.sound hturned
      (by simpa [Pool.phases] using hc)).missed hne hi)
    ⟨hs.follows, hstart⟩ (Pool.along_length hrun hcount) hrun

/-- A page that was replied with more to come, in any run of the server: no request made later for
the same directory with the cookie of its last entry is ever answered with a page. This holds for
all interleavings of requests and for every time in between, as long as fewer than `2 ^ 32`
requests were made. -/
theorem listing_never_resumed (hsmall : host.Small)
    (hrun : Transition.run (Server.turn host root)
      (Server.new root retentionPeriod maxCachedPerDir w) turns = some server)
    {i : ℕ} {page : Interaction.Task FsCall FsCall.Reply Incoming Reply}
    (hpage : server.tasks[i]? = some page) {reply : Reply} (hreply : page.result = some reply)
    {cookie : Cookie3} (hmore : reply.page = some (some cookie, false))
    {dirid : FileHandleU64} {asked : Cookie3} (hdir : page.origin.listed = some (dirid, asked))
    {turns' : List (Turn Incoming Instant)}
    (hrun' : Transition.run (Server.turn host root) server turns' = some server')
    (hcount : server'.tasks.length < 2 ^ 32)
    {j : ℕ} (hj : server.tasks.length ≤ j)
    {next : Interaction.Task FsCall FsCall.Reply Incoming Reply}
    (hnext : server'.tasks[j]? = some next) (hcookie : next.origin.listed = some (dirid, cookie))
    {reply' : Reply} (hreply' : next.result = some reply') : reply'.page = none := by
  have hlength : server.tasks.length ≤ server'.tasks.length := Pool.run_length hrun'
  have hsound := sound_of_run hsmall (sound_new root retentionPeriod maxCachedPerDir w) hrun
    (by omega)
  -- the iterator of the page was dropped beyond the cookie
  have hlisted := hsound.follows page (List.mem_of_getElem? hpage)
  rw [Interaction.Task.result_eq_some.mp hreply] at hlisted
  obtain ⟨dirid', asked', iter, hdir', hp, hiter, hbeyond⟩ := hlisted _ _ hmore
  cases hdir.symm.trans hdir'
  have hb := hbeyond rfl cookie rfl
  have hdropped : .dropped asked iter ∈ server.holdings :=
    List.mem_map.mpr ⟨page, List.mem_of_getElem? hpage, hp⟩
  have hpassed := hsound.sound.passed asked iter hdropped cookie hb
  rw [hiter] at hpassed
  -- a later request that is answered with a page got an iterator there
  obtain ⟨hfollows, hmissed⟩ := missed_of_run hsmall hsound hb.ne_zero hpassed hrun' hcount
  cases hpage' : reply'.page with
  | none => rfl
  | some replied =>
    have hlisted' := hfollows next (List.mem_of_getElem? hnext)
    rw [Interaction.Task.result_eq_some.mp hreply'] at hlisted'
    obtain ⟨last, eof⟩ := replied
    obtain ⟨dirid', asked', iter', hdir', hp', hiter', -⟩ := hlisted' _ _ hpage'
    cases hcookie.symm.trans hdir'
    have hphase : server'.holdings[j]? = some (.dropped cookie iter') := by
      rw [Server.holdings, Pool.phases, List.getElem?_map, hnext, Option.map_some, hp']
    exact absurd (by rw [Holding.source, hiter']) (hmissed.missed j _ hj hphase)

end Sound

/-- A host with the two files of `World.sampleNames` in its root. -/
def twoFiles : HostFs Unit where
  answer _
    | .symlinkMetadata _ => (.ok { World.sampleMetadata with modified := some ⟨7, 0⟩ }, ())
    | .readDir _ => (.ok ⟨0, World.sampleNames.map .ok⟩, ())
    | c => (c.unanswered, ())
  hasEntry _ _ := False

theorem twoFiles_small : twoFiles.Small := by
  intro w path readDir h
  cases h
  decide

/-- A listing of the root with room for one of the files. -/
def rootListing (cookie : Cookie3) (cookieverf : Cookieverf3) : Incoming where
  context := NfsHandlers.sampleContext
  xid := 1
  now := 5
  request := .readdir ⟨NfsHandlers.sampleContext.fileHandleConverter.fhToNfs SymbolsCache.rootId,
    cookie, cookieverf, 150⟩

def rootVerifier : Cookieverf3 := .ofUInt64 0x700000000

/-- The first page is listed, and then the second one with the cookie and the verifier of it. -/
def twoPages : List (Turn Incoming Instant) × List (Turn Incoming Instant) :=
  (.start (rootListing 0 .noneCookieVerf) :: List.replicate 6 (.step 0),
    .start (rootListing 1 rootVerifier) :: List.replicate 3 (.step 1))

theorem listing_never_resumed_twoFiles :
    ∃ server server' : Server ListTable ℕ Unit,
      Transition.run (Server.turn twoFiles [sep]) (Server.new [sep] 60 20 ()) twoPages.1 =
        some server ∧
      Transition.run (Server.turn twoFiles [sep]) server twoPages.2 = some server' ∧
      ∃ page next reply, server.tasks[0]? = some page ∧ server'.tasks[1]? = some next ∧
        page.result.bind Reply.page = some (some 1, false) ∧ next.result = some reply ∧
        reply.page = none := by
  have hfirst : (Transition.run (Server.turn twoFiles [sep])
      (Server.new [sep] 60 20 () : Server ListTable ℕ Unit) twoPages.1).map (fun server =>
        (server.tasks.length, server.tasks[0]?.map fun t =>
          (t.origin.listed, t.result.bind Reply.page))) =
      some (1, some (some (1, 0), some (some 1, false))) := by rfl
  obtain ⟨server, hserver, heq⟩ := Option.map_eq_some_iff.mp hfirst
  obtain ⟨hlength, htask⟩ := Prod.mk.inj heq
  obtain ⟨page, hpage, heq⟩ := Option.map_eq_some_iff.mp htask
  obtain ⟨hdir, hmore⟩ := Prod.mk.inj heq
  obtain ⟨reply, hreply, hmore⟩ := Option.bind_eq_some_iff.mp hmore
  have hsecond : (Transition.run (Server.turn twoFiles [sep])
      (Server.new [sep] 60 20 () : Server ListTable ℕ Unit) (twoPages.1 ++ twoPages.2)).map
        (fun server => (server.tasks.length, server.tasks[1]?.map fun t =>
          (t.origin.listed, t.result.isSome))) =
      some (2, some (some (1, 1), true)) := by decide +kernel
  rw [Transition.run_append, hserver] at hsecond
  obtain ⟨server', hserver', heq⟩ := Option.map_eq_some_iff.mp hsecond
  obtain ⟨hlength', htask'⟩ := Prod.mk.inj heq
  obtain ⟨next, hnext, heq⟩ := Option.map_eq_some_iff.mp htask'
  obtain ⟨hcookie, hsome⟩ := Prod.mk.inj heq
  obtain ⟨reply', hreply'⟩ := Option.isSome_iff_exists.mp hsome
  have hnone := listing_never_resumed twoFiles_small hserver hpage hreply hmore hdir hserver'
    (by omega) (by omega) hnext hcookie hreply'
  exact ⟨server, server', hserver, hserver', page, next, reply', hpage, hnext,
    by rw [hreply]; exact hmore, hreply', hnone⟩

/-- What a client sees of a listing. -/
inductive Shown
  | page (entries : List (Filename3 × Cookie3)) (cookieverf : Cookieverf3) (eof : Bool)
  | failed (stat : Nfsstat3)
  deriving DecidableEq

def Reply.shown : Reply → Option Shown
  | .readdir (.ok res) => some (.page (res.reply.entries.items.map fun e => (e.name, e.cookie))
      res.cookieverf res.reply.eof)
  | .readdir (.err stat _) => some (.failed stat)
  | _ => none

/-- The client has the first of two files, asks for the rest and gets an error. -/
theorem listing_resume_refused :
    (Transition.run (Server.turn twoFiles [sep])
        (Server.new [sep] 60 20 () : Server ListTable ℕ Unit) (twoPages.1 ++ twoPages.2)).map
        (fun server => server.tasks.map fun t => t.result.bind Reply.shown) =
      some [some (.page [(⟨⟨[0x61]⟩⟩, 1)] rootVerifier false),
        some (.failed .nfs3errBadCookie)] := by
  decide +kernel

end Nfs3.Mirror
