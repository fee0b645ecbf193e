import Mathlib.Algebra.Ring.Nat
import Mathlib.Data.List.Basic

/-!
# Runs of a partial transition function

A step function returns `none` where the program it models would not return. `Along`
states a side condition of every step of a run, at the state in which it is taken.
-/
namespace Transition

variable {σ ω : Type} {step : σ → ω → Option σ} {s s' : σ} {ops : List ω}

def run (step : σ → ω → Option σ) : σ → List ω → Option σ
  | s, [] => some s
  | s, op :: ops => (step s op).bind fun s' => run step s' ops

def Along (step : σ → ω → Option σ) (P : σ → ω → Prop) : σ → List ω → Prop
  | _, [] => True
  | s, op :: ops => P s op ∧ ∀ s', step s op = some s' → Along step P s' ops

theorem along_cons_of_some {P : σ → ω → Prop} {op : ω} {s₁ : σ} (h : step s op = some s₁) :
    Along step P s (op :: ops) ↔ P s op ∧ Along step P s₁ ops := by
  simp only [Along, h, Option.some.injEq, forall_eq']

theorem along_cons_of_none {P : σ → ω → Prop} {op : ω} (h : step s op = none) :
    Along step P s (op :: ops) ↔ P s op := by
  simp [Along, h]

instance decidableAlong (P : σ → ω → Prop) [∀ s op, Decidable (P s op)] :
    ∀ s ops, Decidable (Along step P s ops)
  | _, [] => isTrue trivial
  | s, op :: ops =>
    match h : step s op with
    | none => decidable_of_iff _ (along_cons_of_none h).symm
    | some s₁ =>
      have := decidableAlong P s₁ ops
      decidable_of_iff _ (along_cons_of_some h).symm

theorem run_cons_eq_some {op : ω} (h : run step s (op :: ops) = some s') :
    ∃ s₁, step s op = some s₁ ∧ run step s₁ ops = some s' :=
  Option.bind_eq_some_iff.mp h

theorem run_cons_of_some {op : ω} {s₁ : σ} (h : step s op = some s₁) :
    run step s (op :: ops) = run step s₁ ops := by
  rw [run, h]
  rfl

theorem run_append (ops ops' : List ω) :
    run step s (ops ++ ops') = (run step s ops).bind fun s' => run step s' ops' := by
  induction ops generalizing s with
  | nil => rfl
  | cons op ops ih =>
    cases hs : step s op with
    | none => simp [run, hs]
    | some s₁ =>
      rw [List.cons_append, run_cons_of_some hs, run_cons_of_some hs]
      exact ih

theorem along_append {P : σ → ω → Prop} {ops ops' : List ω} :
    Along step P s (ops ++ ops') ↔
      Along step P s ops ∧ ∀ s', run step s ops = some s' → Along step P s' ops' := by
  induction ops generalizing s with
  | nil => simp [Along, run]
  | cons op ops ih =>
    cases hs : step s op with
    | none =>
      rw [List.cons_append, along_cons_of_none hs, along_cons_of_none hs]
      simp [run, hs]
    | some s₁ =>
      rw [List.cons_append, along_cons_of_some hs, along_cons_of_some hs, run_cons_of_some hs, ih,
        and_assoc]

theorem Along.mono {P Q : σ → ω → Prop} (h : ∀ s op, P s op → Q s op)
    (ha : Along step P s ops) : Along step Q s ops := by
  induction ops generalizing s with
  | nil => trivial
  | cons op ops ih => exact ⟨h s op ha.1, fun s' hs => ih (ha.2 s' hs)⟩

theorem Along.and {P Q : σ → ω → Prop} (h : Along step P s ops) (h' : Along step Q s ops) :
    Along step (fun s op => P s op ∧ Q s op) s ops := by
  induction ops generalizing s with
  | nil => trivial
  | cons op ops ih => exact ⟨⟨h.1, h'.1⟩, fun s' hs => ih (h.2 s' hs) (h'.2 s' hs)⟩

/-- What only grows stays below where it ends. -/
theorem along_of_mono {f : σ → ℕ} {bound : ℕ}
    (hmono : ∀ s op s', step s op = some s' → f s ≤ f s') (hr : run step s ops = some s')
    (hbound : f s' ≤ bound) : Along step (fun s _ => f s ≤ bound) s ops := by
  have hrun : ∀ (ops : List ω) s, run step s ops = some s' → f s ≤ f s' := by
    intro ops
    induction ops with
    | nil =>
      intro s hr
      cases hr
      exact Nat.le_refl _
    | cons op ops ih =>
      intro s hr
      obtain ⟨s₁, h₁, hr⟩ := run_cons_eq_some hr
      exact Nat.le_trans (hmono s op s₁ h₁) (ih s₁ hr)
  induction ops generalizing s with
  | nil => trivial
  | cons op ops ih =>
    refine ⟨Nat.le_trans (hrun _ s hr) hbound, fun s₁ h₁ => ih ?_⟩
    rwa [run_cons_of_some h₁] at hr

theorem Along.and_of_mem {P : σ → ω → Prop} {R : ω → Prop} (ha : Along step P s ops)
    (h : ∀ op ∈ ops, R op) : Along step (fun s op => P s op ∧ R op) s ops := by
  induction ops generalizing s with
  | nil => trivial
  | cons op ops ih =>
    refine ⟨⟨ha.1, h op (by simp)⟩, fun s' hs => ?_⟩
    exact ih (ha.2 s' hs) fun op' hmem => h op' (by simp [hmem])

/-- Two conditions that agree wherever an invariant holds. -/
theorem along_congr {Inv : σ → Prop} {P Q : σ → ω → Prop}
    (hstep : ∀ s op s', Inv s → step s op = some s' → Inv s')
    (h : ∀ s op, Inv s → (P s op ↔ Q s op)) (hs : Inv s) :
    Along step P s ops ↔ Along step Q s ops := by
  induction ops generalizing s with
  | nil => exact Iff.rfl
  | cons op ops ih =>
    refine and_congr (h s op hs) (forall_congr' fun s' => forall_congr' fun hs' => ?_)
    exact ih (hstep s op s' hs hs')

theorem along_of_forall {P : σ → ω → Prop} (h : ∀ s op, P s op) : Along step P s ops := by
  induction ops generalizing s with
  | nil => trivial
  | cons op ops ih => exact ⟨h s op, fun _ _ => ih⟩

/-- What every step preserves holds at the end of every run. -/
theorem run_invariant {Inv : σ → Prop} {P : σ → ω → Prop}
    (hstep : ∀ s op s', Inv s → P s op → step s op = some s' → Inv s')
    (hs : Inv s) (ha : Along step P s ops) (hr : run step s ops = some s') : Inv s' := by
  induction ops generalizing s with
  | nil =>
    cases hr
    exact hs
  | cons op ops ih =>
    obtain ⟨s₁, h₁, hr₁⟩ := run_cons_eq_some hr
    exact ih (hstep s op s₁ hs ha.1 h₁) (ha.2 s₁ h₁) hr₁

/-- The invariant may speak of a counter that each step advances, up to a bound. -/
theorem run_invariant_counted {cost : ω → ℕ} {bound n : ℕ} {Inv : ℕ → σ → Prop}
    (hstep : ∀ n s op s', Inv n s → n + cost op < bound → step s op = some s' →
      Inv (n + cost op) s')
    (hs : Inv n s) (hbound : n + (ops.map cost).sum < bound) (hr : run step s ops = some s') :
    Inv (n + (ops.map cost).sum) s' := by
  induction ops generalizing s n with
  | nil =>
    cases hr
    exact hs
  | cons op ops ih =>
    obtain ⟨s₁, h₁, hr₁⟩ := run_cons_eq_some hr
    simp only [List.map_cons, List.sum_cons, ← Nat.add_assoc] at hbound ⊢
    exact ih (hstep n s op s₁ hs (by omega) h₁) hbound hr₁

/-- If the invariant also lets every step return, every run returns. -/
theorem run_total {Inv : σ → Prop} {P : σ → ω → Prop}
    (hstep : ∀ s op, Inv s → P s op → ∃ s', step s op = some s' ∧ Inv s')
    (hs : Inv s) (ha : Along step P s ops) : ∃ s', run step s ops = some s' ∧ Inv s' := by
  induction ops generalizing s with
  | nil => exact ⟨s, rfl, hs⟩
  | cons op ops ih =>
    obtain ⟨s₁, h₁, hi⟩ := hstep s op hs ha.1
    rw [run_cons_of_some h₁]
    exact ih hi (ha.2 s₁ h₁)

/-! ## Runs with outputs -/

section Outputs

variable {ρ σ' : Type} {exec : σ → ω → Option (ρ × σ)} {exec' : σ' → ω → Option (ρ × σ')}

/-- What the steps of a run put out, and the state it ends in. -/
def outputs (exec : σ → ω → Option (ρ × σ)) : σ → List ω → Option (List ρ × σ)
  | s, [] => some ([], s)
  | s, op :: ops =>
    (exec s op).bind fun p => (outputs exec p.2 ops).map fun q => (p.1 :: q.1, q.2)

/-- A view of the state that every step respects is respected by every run. -/
theorem outputs_map {view : σ → σ'} {Inv : ℕ → σ → Prop} {P : σ → ω → Prop} {bound n : ℕ}
    (hexec : ∀ n s op, Inv n s → n < bound → P s op →
      exec' (view s) op = (exec s op).map fun p => (p.1, view p.2))
    (hstep : ∀ n s op p, Inv n s → n < bound → P s op → exec s op = some p → Inv (n + 1) p.2)
    (hs : Inv n s) (hbound : n + ops.length ≤ bound)
    (ha : Along (fun s op => (exec s op).map Prod.snd) P s ops) :
    outputs exec' (view s) ops = (outputs exec s ops).map fun q => (q.1, view q.2) := by
  induction ops generalizing s n with
  | nil => rfl
  | cons op ops ih =>
    have hn : n < bound := by
      simp only [List.length_cons] at hbound
      omega
    rw [outputs, outputs, hexec n s op hs hn ha.1]
    cases hp : exec s op with
    | none => rfl
    | some p =>
      have hle : n + 1 + ops.length ≤ bound := by
        simp only [List.length_cons] at hbound
        omega
      have hnext := ha.2 p.2 (congrArg (Option.map Prod.snd) hp)
      have hrest := ih (hstep n s op p hs hn ha.1 hp) hle hnext
      simp only [Option.map_some, Option.bind_some, hrest, Option.map_map]
      rfl

end Outputs

end Transition
