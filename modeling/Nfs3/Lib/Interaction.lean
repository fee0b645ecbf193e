import Mathlib.Init

/-!
# Programs that ask the outside world

A program returns a value, halts without one, or asks and goes on with the answer. `Meets`
is the weakest precondition over every answer: all questions have one property, all results
another. `Ends` says that some answers lead to a result.

The questions of one program can be worked out by programs of another kind, also in a state
that they share.
-/
namespace Interaction

inductive Prog (κ : Type) (ρ : κ → Type) (α : Type) : Type
  | ret (a : α)
  | halt
  | ask (call : κ) (next : ρ call → Prog κ ρ α)

namespace Prog

variable {κ : Type} {ρ : κ → Type} {α β : Type}

def bind : Prog κ ρ α → (α → Prog κ ρ β) → Prog κ ρ β
  | ret a, f => f a
  | halt, _ => halt
  | ask call next, f => ask call fun r => (next r).bind f

instance : Monad (Prog κ ρ) where
  pure := ret
  bind := bind

theorem bind_eq (m : Prog κ ρ α) (f : α → Prog κ ρ β) : (m >>= f) = m.bind f := rfl

theorem bind_assoc {γ : Type} (m : Prog κ ρ α) (f : α → Prog κ ρ β) (g : β → Prog κ ρ γ) :
    (m.bind f).bind g = m.bind fun a => (f a).bind g := by
  induction m with
  | ret a => rfl
  | halt => rfl
  | ask c next ih =>
    simp only [bind]
    exact congrArg _ (funext ih)

/-- Whatever the answers, every question satisfies `P` and every result `Q`. -/
def Meets (P : κ → Prop) (Q : α → Prop) : Prog κ ρ α → Prop
  | ret a => Q a
  | halt => True
  | ask call next => P call ∧ ∀ r, (next r).Meets P Q

/-- Some answers lead to the result. -/
def Ends : Prog κ ρ α → α → Prop
  | ret a, b => a = b
  | halt, _ => False
  | ask _ next, b => ∃ r, (next r).Ends b

/-- No answers make the program halt. -/
def Total : Prog κ ρ α → Prop
  | ret _ => True
  | halt => False
  | ask _ next => ∀ r, (next r).Total

theorem Total.bind {m : Prog κ ρ α} {f : α → Prog κ ρ β} (hm : m.Total) (hf : ∀ a, (f a).Total) :
    (m.bind f).Total := by
  induction m with
  | ret a => exact hf a
  | halt => cases hm
  | ask c next ih => exact fun r => ih r (hm r)

/-- The result under one fixed way to answer. -/
def eval (answer : (c : κ) → ρ c) : Prog κ ρ α → Option α
  | ret a => some a
  | halt => none
  | ask call next => (next (answer call)).eval answer

variable {P : κ → Prop} {Q Q' : α → Prop} {m : Prog κ ρ α}

theorem meets_bind {R : β → Prop} {f : α → Prog κ ρ β} :
    (m.bind f).Meets P R ↔ m.Meets P fun a => (f a).Meets P R := by
  induction m with
  | ret a => rfl
  | halt => rfl
  | ask call next ih =>
    simp only [bind, Meets]
    exact and_congr_right fun _ => forall_congr' ih

theorem Meets.mono (h : m.Meets P Q) (hQ : ∀ a, Q a → Q' a) : m.Meets P Q' := by
  induction m with
  | ret a => exact hQ a h
  | halt => trivial
  | ask call next ih => exact ⟨h.1, fun r => ih r (h.2 r)⟩

theorem Meets.weaken {P' : κ → Prop} (h : m.Meets P Q) (hP : ∀ c, P c → P' c) : m.Meets P' Q := by
  induction m with
  | ret a => exact h
  | halt => trivial
  | ask call next ih => exact ⟨hP call h.1, fun r => ih r (h.2 r)⟩

theorem Meets.of_forall (hQ : ∀ a, Q a) : m.Meets (fun _ => True) Q := by
  induction m with
  | ret a => exact hQ a
  | halt => trivial
  | ask call next ih => exact ⟨trivial, ih⟩

theorem Meets.ends {a : α} (h : m.Meets P Q) (ha : m.Ends a) : Q a := by
  induction m with
  | ret b =>
    cases ha
    exact h
  | halt => cases ha
  | ask call next ih =>
    obtain ⟨r, hr⟩ := ha
    exact ih r (h.2 r) hr

/-- Questions and results may be looked at apart. -/
theorem Meets.of_ends (h : m.Meets P fun _ => True) (hQ : ∀ a, m.Ends a → Q a) : m.Meets P Q := by
  induction m with
  | ret a => exact hQ a rfl
  | halt => trivial
  | ask call next ih => exact ⟨h.1, fun r => ih r (h.2 r) fun a ha => hQ a ⟨r, ha⟩⟩

theorem ends_bind {f : α → Prog κ ρ β} {b : β} :
    (m.bind f).Ends b ↔ ∃ a, m.Ends a ∧ (f a).Ends b := by
  induction m with
  | ret a => simp [bind, Ends]
  | halt => simp [bind, Ends]
  | ask call next ih =>
    simp only [bind, Ends, ih]
    constructor
    · rintro ⟨r, a, ha, hb⟩
      exact ⟨a, ⟨r, ha⟩, hb⟩
    · rintro ⟨a, ⟨r, ha⟩, hb⟩
      exact ⟨r, a, ha, hb⟩

theorem eval_bind {answer : (c : κ) → ρ c} {f : α → Prog κ ρ β} :
    (m.bind f).eval answer = (m.eval answer).bind fun a => (f a).eval answer := by
  induction m with
  | ret a => rfl
  | halt => rfl
  | ask call next ih => exact ih _

theorem ends_of_eval {answer : (c : κ) → ρ c} {a : α} (h : m.eval answer = some a) : m.Ends a := by
  induction m with
  | ret b => exact Option.some.inj h
  | halt => cases h
  | ask call next ih => exact ⟨answer call, ih _ h⟩

/-! ## Programs over other programs -/

section Interp

variable {κ' : Type} {ρ' : κ' → Type}

/-- Every question is worked out by a program of another kind. -/
def interp (h : (c : κ) → Prog κ' ρ' (ρ c)) : Prog κ ρ α → Prog κ' ρ' α
  | ret a => ret a
  | halt => halt
  | ask c next => (h c).bind fun r => (next r).interp h

theorem interp_bind {h : (c : κ) → Prog κ' ρ' (ρ c)} {f : α → Prog κ ρ β} :
    (m.bind f).interp h = (m.interp h).bind fun a => (f a).interp h := by
  induction m with
  | ret a => rfl
  | halt => rfl
  | ask c next ih =>
    simp only [bind, interp, bind_assoc]
    exact congrArg _ (funext ih)

variable {σ : Type}

/-- Every question is worked out in the state that the one before left. -/
def interpIn (h : σ → (c : κ) → Prog κ' ρ' (ρ c × σ)) : Prog κ ρ α → σ → Prog κ' ρ' (α × σ)
  | ret a, s => ret (a, s)
  | halt, _ => halt
  | ask c next, s => (h s c).bind fun r => (next r.1).interpIn h r.2

theorem interpIn_bind {h : σ → (c : κ) → Prog κ' ρ' (ρ c × σ)} {f : α → Prog κ ρ β} {s : σ} :
    (m.bind f).interpIn h s = (m.interpIn h s).bind fun r => (f r.1).interpIn h r.2 := by
  induction m generalizing s with
  | ret a => rfl
  | halt => rfl
  | ask c next ih =>
    simp only [bind, interpIn, bind_assoc]
    exact congrArg _ (funext fun r => ih r.1)

end Interp

/-! ## Histories -/

/-- The questions asked so far, with their answers. -/
abbrev History (κ : Type) (ρ : κ → Type) := List (Σ c : κ, ρ c)

/-- The answers of the history lead the program through its questions to the result. -/
inductive Yields : Prog κ ρ α → History κ ρ → α → Prop
  | ret (a : α) : Yields (.ret a) [] a
  | ask {c : κ} {next : ρ c → Prog κ ρ α} {r : ρ c} {t : History κ ρ} {a : α} :
      Yields (next r) t a → Yields (.ask c next) (⟨c, r⟩ :: t) a

theorem Yields.ends {t : History κ ρ} {a : α} (h : m.Yields t a) : m.Ends a := by
  induction h with
  | ret a => rfl
  | ask _ ih => exact ⟨_, ih⟩

/-- Whatever answers that `A` admits the program gets, every question satisfies `P` and every
result `Q`, both judged by the history before them. `N` says whether it may halt. -/
def Along (N : Prop) (A : (c : κ) → ρ c → Prop) (P : History κ ρ → κ → Prop)
    (Q : History κ ρ → α → Prop) : Prog κ ρ α → History κ ρ → Prop
  | ret a, h => Q h a
  | halt, _ => N
  | ask c next, h => P h c ∧ ∀ r, A c r → (next r).Along N A P Q (h ++ [⟨c, r⟩])

variable {N : Prop} {A : (c : κ) → ρ c → Prop} {h : History κ ρ}

theorem along_bind {P : History κ ρ → κ → Prop} {R : History κ ρ → β → Prop}
    {f : α → Prog κ ρ β} :
    (m.bind f).Along N A P R h ↔ m.Along N A P (fun h a => (f a).Along N A P R h) h := by
  induction m generalizing h with
  | ret a => rfl
  | halt => rfl
  | ask c next ih =>
    simp only [bind, Along]
    exact and_congr_right fun _ => forall_congr' fun r => imp_congr_right fun _ => ih r

theorem Along.of_forall {Q : History κ ρ → α → Prop} (hQ : ∀ h a, Q h a) :
    m.Along True A (fun _ _ => True) Q h := by
  induction m generalizing h with
  | ret a => exact hQ h a
  | halt => trivial
  | ask c next ih => exact ⟨trivial, fun r _ => ih r⟩

/-- What holds of the questions and results may be weakened, knowing how the result came about
and that the history only grows. -/
theorem Along.imp {P P' : History κ ρ → κ → Prop} {Q Q' : History κ ρ → α → Prop}
    (hm : m.Along N A P Q h) (hP : ∀ t c, P (h ++ t) c → P' (h ++ t) c)
    (hQ : ∀ t a, m.Yields t a → Q (h ++ t) a → Q' (h ++ t) a) : m.Along N A P' Q' h := by
  induction m generalizing h with
  | ret a =>
    have hm : Q h a := hm
    have hQ : Q' h a := by simpa using hQ [] a (.ret a) (by simpa using hm)
    exact hQ
  | halt => exact hm
  | ask c next ih =>
    refine ⟨by simpa using hP [] c (by simpa using hm.1), fun r hr => ih r (hm.2 r hr) ?_ ?_⟩
    · intro t c' h'
      simpa using hP (⟨c, r⟩ :: t) c' (by simpa using h')
    · intro t a hy h'
      simpa using hQ (⟨c, r⟩ :: t) a (.ask hy) (by simpa using h')

/-- Questions that all have one property leave a history of such questions. -/
theorem Along.asking {P : History κ ρ → κ → Prop} {Q : History κ ρ → α → Prop} {P₀ : κ → Prop}
    (hm : m.Along N A P Q h) (hp : m.Meets P₀ fun _ => True) {h₀ t : History κ ρ}
    (hh : h = h₀ ++ t) (ht : ∀ e ∈ t, P₀ e.1) :
    m.Along N A (fun h' c => P h' c ∧ P₀ c ∧ ∃ t, h' = h₀ ++ t ∧ ∀ e ∈ t, P₀ e.1) Q h := by
  induction m generalizing h t with
  | ret a => exact hm
  | halt => exact hm
  | ask c next ih =>
    refine ⟨⟨hm.1, hp.1, t, hh, ht⟩, fun r hr => ?_⟩
    refine ih r (hm.2 r hr) (hp.2 r) (t := t ++ [⟨c, r⟩]) (by rw [hh, List.append_assoc]) ?_
    intro e he
    rcases List.mem_append.mp he with he | he
    · exact ht e he
    · rw [List.mem_singleton.mp he]
      exact hp.1

/-- What a program relies on is what the programs behind its questions return. -/
theorem Along.interp {κ' : Type} {ρ' : κ' → Type} {P' : κ' → Prop}
    {i : (c : κ) → Prog κ' ρ' (ρ c)}
    (hm : m.Along True A (fun _ => P) (fun _ => Q) h) (hi : ∀ c, P c → (i c).Meets P' (A c)) :
    (m.interp i).Meets P' Q := by
  induction m generalizing h with
  | ret a => exact hm
  | halt => trivial
  | ask c next ih =>
    rw [Prog.interp, meets_bind]
    exact (hi c hm.1).mono fun r hr => ih r (hm.2 r hr)

/-! ## Answers from a state -/

/-- The run of a program against a state that answers, `none` where it has no answer. -/
def runIn {σ : Type} (answer : σ → (c : κ) → Option (ρ c × σ)) :
    Prog κ ρ α → σ → Option (α × σ)
  | ret a, s => some (a, s)
  | halt, _ => none
  | ask c next, s => (answer s c).bind fun (r, s) => (next r).runIn answer s

theorem runIn_bind {σ : Type} {answer : σ → (c : κ) → Option (ρ c × σ)} {f : α → Prog κ ρ β}
    {s : σ} :
    (m.bind f).runIn answer s =
      (m.runIn answer s).bind fun r => (f r.1).runIn answer r.2 := by
  induction m generalizing s with
  | ret a => rfl
  | halt => rfl
  | ask c next ih =>
    simp only [bind, runIn, ih]
    cases answer s c <;> rfl

theorem ends_of_runIn {σ : Type} {answer : σ → (c : κ) → Option (ρ c × σ)} {s s' : σ} {a : α}
    (h : m.runIn answer s = some (a, s')) : m.Ends a := by
  induction m generalizing s with
  | ret b =>
    cases h
    rfl
  | halt => cases h
  | ask c next ih =>
    obtain ⟨⟨r, s₁⟩, -, hnext⟩ := Option.bind_eq_some_iff.mp h
    exact ⟨r, ih r hnext⟩

/-- What the answers to the calls of a program preserve holds after its run. -/
theorem Meets.runIn_invariant {σ : Type} {answer : σ → (c : κ) → Option (ρ c × σ)}
    {Inv : σ → Prop} (hm : m.Meets P Q)
    (hanswer : ∀ s c r s', P c → Inv s → answer s c = some (r, s') → Inv s') {s s' : σ} {a : α}
    (hs : Inv s) (h : m.runIn answer s = some (a, s')) : Inv s' := by
  induction m generalizing s with
  | ret b =>
    cases h
    exact hs
  | halt => cases h
  | ask c next ih =>
    obtain ⟨⟨r, s₁⟩, hr, hnext⟩ := Option.bind_eq_some_iff.mp h
    exact ih r (hm.2 r) (hanswer s c r s₁ hm.1 hs hr) hnext

/-- What every answer preserves holds after the run. -/
theorem runIn_invariant {σ : Type} {answer : σ → (c : κ) → Option (ρ c × σ)} {Inv : σ → Prop}
    (hanswer : ∀ s c r s', Inv s → answer s c = some (r, s') → Inv s') {s s' : σ} {a : α}
    (hs : Inv s) (h : m.runIn answer s = some (a, s')) : Inv s' := by
  have hm : m.Meets (fun _ => True) fun _ => True := Meets.of_forall fun _ => trivial
  exact hm.runIn_invariant (fun s c r s' _ => hanswer s c r s') hs h

theorem runIn_ask_bind {σ : Type} {answer : σ → (c : κ) → Option (ρ c × σ)} {s s' : σ} {c : κ}
    {r : ρ c} (h : answer s c = some (r, s')) (f : ρ c → Prog κ ρ β) :
    ((ask c ret).bind f).runIn answer s = (f r).runIn answer s' := by
  show (answer s c).bind _ = _
  rw [h]
  rfl

/-- The run of two operations that may fail. -/
theorem runIn_andThen {σ ε : Type} {answer : σ → (c : κ) → Option (ρ c × σ)}
    {m : ExceptT ε (Prog κ ρ) α} {f : α → ExceptT ε (Prog κ ρ) β} {s : σ} :
    (m >>= f).run.runIn answer s =
      (m.run.runIn answer s).bind fun
        | (.ok a, s) => (f a).run.runIn answer s
        | (.error e, s) => some (.error e, s) := by
  change (Prog.bind m.run (ExceptT.bindCont f)).runIn answer s = _
  rw [runIn_bind]
  refine congrArg (Option.bind _) (funext ?_)
  rintro ⟨r, s₁⟩
  cases r with
  | ok a => rfl
  | error e => rfl

end Prog

end Interaction
