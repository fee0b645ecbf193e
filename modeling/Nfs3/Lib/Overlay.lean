import Mathlib.Data.List.Pairwise
import Mathlib.Order.Lattice

/-!
# Overwriting parts of a list

A patch overwrites a list from some position on and lengthens it where it reaches past the end.
Patches that start within the list and touch no common position can be applied in any order:
position by position, each is a function update.
-/
namespace Overlay

variable {α : Type}

structure Patch (α : Type) where
  start : ℕ
  items : List α

namespace Patch

def stop (p : Patch α) : ℕ := p.start + p.items.length

def Covers (p : Patch α) (k : ℕ) : Prop := p.start ≤ k ∧ k < p.stop

instance (p : Patch α) (k : ℕ) : Decidable (p.Covers k) :=
  inferInstanceAs (Decidable (_ ∧ _))

def Disjoint (p q : Patch α) : Prop := ∀ k, ¬ (p.Covers k ∧ q.Covers k)

theorem Disjoint.symm {p q : Patch α} (h : p.Disjoint q) : q.Disjoint p :=
  fun k hk => h k hk.symm

/-- What the patch makes of the items at every position. -/
def override (f : ℕ → Option α) (p : Patch α) : ℕ → Option α := fun k =>
  if p.Covers k then p.items[k - p.start]? else f k

theorem override_comm {p q : Patch α} (h : p.Disjoint q) (f : ℕ → Option α) :
    override (override f p) q = override (override f q) p := by
  funext k
  unfold override
  by_cases hp : p.Covers k
  · have hq : ¬ q.Covers k := fun hq => h k ⟨hp, hq⟩
    simp [hp, hq]
  · simp [hp]

end Patch

def apply (l : List α) (p : Patch α) : List α := l.take p.start ++ p.items ++ l.drop p.stop

variable {l : List α} {p : Patch α} {ps ps' : List (Patch α)}

theorem length_apply (h : p.start ≤ l.length) : (apply l p).length = max l.length p.stop := by
  simp only [apply, Patch.stop, List.length_append, List.length_take, List.length_drop]
  omega

theorem getElem?_apply (h : p.start ≤ l.length) :
    (fun k => (apply l p)[k]?) = p.override fun k => l[k]? := by
  funext k
  have htake : (l.take p.start).length = p.start := by
    rw [List.length_take]
    omega
  have hstop : p.stop = p.start + p.items.length := rfl
  unfold apply Patch.override
  rw [List.append_assoc]
  by_cases hlow : k < p.start
  · have hout : ¬ p.Covers k := fun hk => absurd hk.1 (by omega)
    rw [List.getElem?_append_left (by omega), List.getElem?_take_of_lt hlow, if_neg hout]
  rw [List.getElem?_append_right (by omega), htake]
  by_cases hhigh : k < p.stop
  · have hin : p.Covers k := ⟨by omega, hhigh⟩
    rw [List.getElem?_append_left (by omega), if_pos hin]
  · have hout : ¬ p.Covers k := fun hk => hhigh hk.2
    rw [List.getElem?_append_right (by omega), List.getElem?_drop, if_neg hout]
    congr 1
    omega

theorem getElem?_foldl_apply (h : ∀ p ∈ ps, p.start ≤ l.length) :
    (fun k => (ps.foldl apply l)[k]?) = ps.foldl Patch.override fun k => l[k]? := by
  induction ps generalizing l with
  | nil => rfl
  | cons p ps ih =>
    have hp := h p List.mem_cons_self
    rw [List.foldl_cons, List.foldl_cons, ← getElem?_apply hp]
    apply ih
    intro q hq
    rw [length_apply hp]
    exact (h q (List.mem_cons_of_mem p hq)).trans (le_max_left _ _)

/-- Disjoint patches that start within the list can be applied in any order. -/
theorem foldl_apply_perm (hstart : ∀ p ∈ ps, p.start ≤ l.length)
    (hdisjoint : ps.Pairwise Patch.Disjoint) (hperm : ps.Perm ps') :
    ps.foldl apply l = ps'.foldl apply l := by
  have hcomm : ∀ p ∈ ps, ∀ q ∈ ps, ∀ f : ℕ → Option α,
      Patch.override (Patch.override f p) q = Patch.override (Patch.override f q) p := by
    intro p hp q hq f
    by_cases hpq : p = q
    · rw [hpq]
    · have hsymm : Std.Symm (Patch.Disjoint (α := α)) := ⟨fun _ _ => Patch.Disjoint.symm⟩
      exact Patch.override_comm (hdisjoint.forall hp hq hpq) f
  have hfold := hperm.foldl_eq' hcomm fun k => l[k]?
  rw [← getElem?_foldl_apply hstart,
    ← getElem?_foldl_apply fun p hp => hstart p (hperm.mem_iff.mpr hp)] at hfold
  exact List.ext_getElem? fun k => congrFun hfold k

end Overlay
