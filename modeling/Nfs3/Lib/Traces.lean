import Nfs3.Lib.Interleaving

/-!
# Programs under way

A program that was answered for a while has a rest. What holds along every way through the
program holds of the questions that were asked on the way to the rest.
-/
namespace Interaction

namespace Prog

variable {κ : Type} {ρ : κ → Type} {φ α β : Type} {m m' : Prog κ ρ α} {t : History κ ρ}

/-- The answers of the history lead from the program to the rest. -/
inductive Leads : Prog κ ρ α → History κ ρ → Prog κ ρ α → Prop
  | refl (m : Prog κ ρ α) : Leads m [] m
  | ask {c : κ} {next : ρ c → Prog κ ρ α} {r : ρ c} {t : History κ ρ} {m' : Prog κ ρ α} :
      Leads (next r) t m' → Leads (.ask c next) (⟨c, r⟩ :: t) m'

theorem Leads.snoc {c : κ} {next : ρ c → Prog κ ρ α} (h : m.Leads t m') (hm' : m' = .ask c next)
    (r : ρ c) : m.Leads (t ++ [⟨c, r⟩]) (next r) := by
  induction h with
  | refl m =>
    subst hm'
    exact .ask (.refl _)
  | ask _ ih => exact .ask (ih hm')

theorem Leads.yields {a : α} (h : m.Leads t m') (hm' : m' = .ret a) : m.Yields t a := by
  induction h with
  | refl m =>
    subst hm'
    exact .ret a
  | ask _ ih => exact .ask (ih hm')

theorem Yields.leads {a : α} (h : m.Yields t a) : m.Leads t (.ret a) := by
  induction h with
  | ret a => exact .refl _
  | ask _ ih => exact .ask ih

/-- Two operations are on their way in the first or in the second. -/
theorem Leads.bind_cases {f : α → Prog κ ρ β} {m' : Prog κ ρ β} (h : (m.bind f).Leads t m') :
    (∃ m₁, m.Leads t m₁ ∧ m' = m₁.bind f) ∨
      ∃ t₁ a t₂, m.Yields t₁ a ∧ (f a).Leads t₂ m' ∧ t = t₁ ++ t₂ := by
  induction m generalizing t with
  | ret a => exact .inr ⟨[], a, t, .ret a, h, rfl⟩
  | halt =>
    cases h
    exact .inl ⟨.halt, .refl _, rfl⟩
  | ask c next ih =>
    cases h with
    | refl => exact .inl ⟨.ask c next, .refl _, rfl⟩
    | ask h =>
      rcases ih _ h with ⟨m₁, hm₁, hm'⟩ | ⟨t₁, a, t₂, ha, ht₂, rfl⟩
      · exact .inl ⟨m₁, .ask hm₁, hm'⟩
      · exact .inr ⟨⟨c, _⟩ :: t₁, a, t₂, .ask ha, ht₂, rfl⟩

/-- What is asked on the way is judged by the history before it. -/
theorem Along.asked {N : Prop} {A : (c : κ) → ρ c → Prop} {P : History κ ρ → κ → Prop}
    {Q : History κ ρ → α → Prop} {h : History κ ρ} (hm : m.Along N A P Q h) (hl : m.Leads t m')
    (hA : ∀ c r, A c r) {t₁ t₂ : History κ ρ} {c : κ} {r : ρ c} (ht : t = t₁ ++ ⟨c, r⟩ :: t₂) :
    P (h ++ t₁) c := by
  induction hl generalizing h t₁ with
  | refl m => simp at ht
  | ask _ ih =>
    cases t₁ with
    | nil =>
      cases ht
      simpa using hm.1
    | cons e t₁ =>
      cases ht
      simpa using ih (hm.2 _ (hA _ _)) rfl

theorem Along.yields {N : Prop} {A : (c : κ) → ρ c → Prop} {P : History κ ρ → κ → Prop}
    {Q : History κ ρ → α → Prop} {h : History κ ρ} {a : α} (hm : m.Along N A P Q h)
    (hy : m.Yields t a) (hA : ∀ c r, A c r) : Q (h ++ t) a := by
  induction hy generalizing h with
  | ret a =>
    rw [List.append_nil]
    exact hm
  | ask _ ih => simpa using ih (hm.2 _ (hA _ _))

/-! ## Protocols on the way -/

section Protocols

variable {P : Protocol κ ρ φ} {Q : φ → α → Prop} {p : φ}

/-- A program that follows a protocol does so along every history that led to its phase. -/
theorem Follows.along {q : φ} {h : History κ ρ} (hm : m.Follows P Q p) (hp : p = P.after q h)
    (hrelies : ∀ p c r, P.relies p c r) :
    m.Along True (fun _ _ => True) (fun h c => P.allows (P.after q h) c)
      (fun h a => Q (P.after q h) a) h := by
  induction m generalizing p h with
  | ret a =>
    subst hp
    exact hm
  | halt => trivial
  | ask c next ih =>
    subst hp
    refine ⟨hm.1, fun r _ => ih r (hm.2 r (hrelies _ _ _)) ?_⟩
    simp [Protocol.after]

end Protocols

end Prog

/-! ## Tasks of a pool -/

namespace Pool

variable {κ : Type} {ρ : κ → Type} {ι α σ τ : Type} {program : ι → Prog κ ρ α}
  {answer : σ → (c : κ) → Option (ρ c × σ)} {tick : σ → τ → σ} {s s' : Pool κ ρ ι α σ}
  {t : Turn ι τ}

/-- The history of every task leads from its program to its rest. -/
def UnderWay (program : ι → Prog κ ρ α) (s : Pool κ ρ ι α σ) : Prop :=
  ∀ t ∈ s.tasks, (program t.origin).Leads t.history t.rest

theorem UnderWay.turned (hs : s.UnderWay program) (h : s.turn program answer tick t = some s') :
    s'.UnderWay program := by
  intro t' ht'
  cases t with
  | start origin =>
    cases h
    rcases List.mem_append.mp ht' with ht' | ht'
    · exact hs t' ht'
    · rw [List.mem_singleton.mp ht']
      exact .refl _
  | step index =>
    obtain ⟨origin, history, c, next, r, shared, htask, -, rfl⟩ := step_cases h
    rcases List.mem_or_eq_of_mem_set ht' with ht' | rfl
    · exact hs t' ht'
    · exact (hs _ (List.mem_of_getElem? htask)).snoc rfl r
  | tick time =>
    cases h
    exact hs t' ht'

end Pool

end Interaction
