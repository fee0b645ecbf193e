import Mathlib.Data.Fintype.Card
import Mathlib.Logic.Relation

/-!
# Following a partial function to its end

`follow next fuel a` goes from `a` along `next` until `next` has no value. Over a finite type
a chain that ends does so before it has visited more elements than there are, so enough fuel
makes `follow` exact: it finds the end if and only if there is one.
-/
namespace Chain

variable {V : Type} {next : V → Option V} {a b c : V}

def follow (next : V → Option V) : ℕ → V → Option V
  | 0, _ => none
  | fuel + 1, a =>
    match next a with
    | none => some a
    | some b => follow next fuel b

/-- The chain from `a` comes to an end in `b`. -/
structure Ends (next : V → Option V) (a b : V) : Prop where
  reaches : Relation.ReflTransGen (fun x y => next x = some y) a b
  last : next b = none

theorem Ends.cons (h : next a = some b) (hb : Ends next b c) : Ends next a c :=
  ⟨hb.reaches.head h, hb.last⟩

theorem Ends.tail (h : next a = some b) (ha : Ends next a c) : Ends next b c := by
  rcases Relation.ReflTransGen.cases_head ha.reaches with rfl | ⟨b', hb', hreach⟩
  · have hlast := ha.last
    rw [h] at hlast
    cases hlast
  · rw [h] at hb'
    cases hb'
    exact ⟨hreach, ha.last⟩

theorem Ends.unique (hb : Ends next a b) (hc : Ends next a c) : b = c := by
  obtain ⟨hreach, hlast⟩ := hb
  induction hreach using Relation.ReflTransGen.head_induction_on with
  | refl =>
    rcases Relation.ReflTransGen.cases_head hc.reaches with rfl | ⟨b', hb', -⟩
    · rfl
    · rw [hlast] at hb'
      cases hb'
  | head hstep _ ih => exact ih (hc.tail hstep)

theorem follow_sound {fuel : ℕ} (h : follow next fuel a = some b) : Ends next a b := by
  induction fuel generalizing a with
  | zero => cases h
  | succ fuel ih =>
    unfold follow at h
    split at h
    · rename_i hnone
      cases h
      exact ⟨.refl, hnone⟩
    · rename_i hsome
      exact (ih h).cons hsome

theorem follow_mono {fuel fuel' : ℕ} (hle : fuel ≤ fuel') (h : follow next fuel a = some b) :
    follow next fuel' a = some b := by
  induction fuel generalizing a fuel' with
  | zero => cases h
  | succ fuel ih =>
    obtain ⟨fuel', rfl⟩ : ∃ n, fuel' = n + 1 := ⟨fuel' - 1, by omega⟩
    unfold follow at h ⊢
    split at h
    · exact h
    · exact ih (by omega) h

/-- A chain that ends visits nothing twice. -/
theorem Ends.acyclic (h : Ends next a c) :
    ¬ Relation.TransGen (fun x y => next x = some y) a a := by
  obtain ⟨hreach, hlast⟩ := h
  induction hreach using Relation.ReflTransGen.head_induction_on with
  | refl =>
    intro hcycle
    obtain ⟨b, hb, -⟩ := Relation.TransGen.head'_iff.mp hcycle
    rw [hlast] at hb
    cases hb
  | head hstep _ ih =>
    -- a cycle through the first element goes through the second as well
    intro hcycle
    obtain ⟨b, hb, hback⟩ := Relation.TransGen.head'_iff.mp hcycle
    rw [hstep] at hb
    cases hb
    exact ih (Relation.TransGen.tail'_iff.mpr ⟨_, hback, hstep⟩)

section Bound

variable [Fintype V]

open Classical in
/-- What can be reached from an element, itself included. -/
noncomputable def ahead (next : V → Option V) (a : V) : Finset V :=
  Finset.univ.filter (Relation.ReflTransGen (fun x y => next x = some y) a)

theorem mem_ahead : b ∈ ahead next a ↔ Relation.ReflTransGen (fun x y => next x = some y) a b := by
  simp [ahead]

theorem follow_ahead (h : Ends next a b) : follow next (ahead next a).card a = some b := by
  obtain ⟨hreach, hlast⟩ := h
  induction hreach using Relation.ReflTransGen.head_induction_on with
  | refl =>
    have hpos : 0 < (ahead next b).card := Finset.card_pos.mpr ⟨b, mem_ahead.mpr .refl⟩
    have hone : follow next 1 b = some b := by simp [follow, hlast]
    exact follow_mono hpos hone
  | @head a c hstep hreach ih =>
    have hcycle : ¬ Relation.TransGen (fun x y => next x = some y) a a :=
      Ends.acyclic ⟨hreach.head hstep, hlast⟩
    have hlt : (ahead next c).card < (ahead next a).card := by
      refine Finset.card_lt_card ⟨?_, ?_⟩
      · intro x hx
        rw [mem_ahead] at hx ⊢
        exact hx.head hstep
      · intro hsub
        have ha : a ∈ ahead next c := hsub (mem_ahead.mpr .refl)
        exact hcycle (Relation.TransGen.head' hstep (mem_ahead.mp ha))
    have hnext : follow next ((ahead next c).card + 1) a = some b := by
      rw [follow, hstep]
      exact ih
    exact follow_mono hlt hnext

theorem follow_complete {fuel : ℕ} (hfuel : Fintype.card V ≤ fuel)
    (h : Ends next a b) : follow next fuel a = some b :=
  follow_mono ((Finset.card_le_univ _).trans hfuel) (follow_ahead h)

theorem follow_le_card (s : Finset V) (hs : ∀ x, next x ≠ none → x ∈ s) (h : Ends next a b) :
    follow next (s.card + 1) a = some b := by
  classical
  refine follow_mono ?_ (follow_ahead h)
  have hsub : ahead next a ⊆ insert b s := by
    intro x hx
    rw [Finset.mem_insert]
    by_cases hlast : next x = none
    · exact Or.inl (Ends.unique ⟨mem_ahead.mp hx, hlast⟩ h)
    · exact Or.inr (hs x hlast)
  exact (Finset.card_le_card hsub).trans (Finset.card_insert_le b s)

/-- With fuel for every element there is, following the chain is exact. -/
theorem follow_eq_some_iff {fuel : ℕ} (hfuel : Fintype.card V ≤ fuel) :
    follow next fuel a = some b ↔ Ends next a b :=
  ⟨follow_sound, follow_complete hfuel⟩

end Bound

/-! ## Chains of another function -/

section Changed

variable {next' : V → Option V} {n e : V}

theorem Ends.truncate (h : Ends next a c) (hnext : ∀ x, next' x = none ∨ next' x = next x) :
    ∃ b, Ends next' a b ∧ Relation.ReflTransGen (fun x y => next x = some y) a b := by
  obtain ⟨hreach, hlast⟩ := h
  induction hreach using Relation.ReflTransGen.head_induction_on with
  | refl =>
    have hnone : next' c = none := (hnext c).elim id fun heq => heq.trans hlast
    exact ⟨c, ⟨.refl, hnone⟩, .refl⟩
  | @head a b hstep _ ih =>
    rcases hnext a with hnone | heq
    · exact ⟨a, ⟨.refl, hnone⟩, .refl⟩
    · obtain ⟨d, hd, hreach⟩ := ih
      exact ⟨d, hd.cons (heq.trans hstep), hreach.head hstep⟩

/-- A chain that does not end in `n`, which has no next one, does not notice a new one. -/
theorem Ends.of_agree (h : Ends next a c) (hagree : ∀ x, x ≠ n → next' x = next x)
    (hn : next n = none) (hc : c ≠ n) : Ends next' a c := by
  obtain ⟨hreach, hlast⟩ := h
  induction hreach using Relation.ReflTransGen.head_induction_on with
  | refl => exact ⟨.refl, (hagree c hc).trans hlast⟩
  | @head a b hstep _ ih =>
    have ha : a ≠ n := by
      rintro rfl
      rw [hn] at hstep
      cases hstep
    exact ih.cons ((hagree a ha).trans hstep)

/-- Where `n` alone gets another next one, from which the chain ends, every chain ends. -/
theorem Ends.redirect (h : Ends next a c) (hagree : ∀ x, x ≠ n → next' x = next x)
    (hn : Ends next' n e) : ∃ b, Ends next' a b ∧ (b = e ∨ (b = c ∧ c ≠ n)) := by
  obtain ⟨hreach, hlast⟩ := h
  induction hreach using Relation.ReflTransGen.head_induction_on with
  | refl =>
    by_cases hc : c = n
    · exact ⟨e, hc ▸ hn, Or.inl rfl⟩
    · exact ⟨c, ⟨.refl, (hagree c hc).trans hlast⟩, Or.inr ⟨rfl, hc⟩⟩
  | @head a b hstep _ ih =>
    by_cases ha : a = n
    · exact ⟨e, ha ▸ hn, Or.inl rfl⟩
    · obtain ⟨d, hd, hend⟩ := ih
      exact ⟨d, hd.cons ((hagree a ha).trans hstep), hend⟩

end Changed

end Chain
