import Mathlib.Data.List.Basic
import Nfs3.Lib.Interaction
import Nfs3.Lib.Transition

/-!
# Programs that take turns

Programs under way share a state that answers their questions. Whose question is answered next
is left open, so a run stands for one of all interleavings.

What a program will still do is hidden in its continuation. A `Protocol` makes it visible: every
program is in a phase, which the questions and their answers move on. An invariant of the shared
state and the phases then holds in all runs.
-/
namespace Interaction

/-- In which phase what may be asked, what is known of the answer, and the phase after it. -/
structure Protocol (κ : Type) (ρ : κ → Type) (φ : Type) where
  allows : φ → κ → Prop
  relies : φ → (c : κ) → ρ c → Prop
  next : φ → (c : κ) → ρ c → φ

namespace Prog

variable {κ : Type} {ρ : κ → Type} {φ α β : Type} {P : Protocol κ ρ φ} {Q Q' : φ → α → Prop}
  {m : Prog κ ρ α} {p : φ}

/-- From the phase on, the program asks what it may, and every result satisfies `Q`. -/
def Follows (P : Protocol κ ρ φ) (Q : φ → α → Prop) : Prog κ ρ α → φ → Prop
  | ret a, p => Q p a
  | halt, _ => True
  | ask c next, p => P.allows p c ∧ ∀ r, P.relies p c r → (next r).Follows P Q (P.next p c r)

theorem follows_bind {R : φ → β → Prop} {f : α → Prog κ ρ β} :
    (m.bind f).Follows P R p ↔ m.Follows P (fun p a => (f a).Follows P R p) p := by
  induction m generalizing p with
  | ret a => rfl
  | halt => rfl
  | ask c next ih =>
    simp only [bind, Follows]
    exact and_congr_right fun _ => forall_congr' fun r => imp_congr_right fun _ => ih r

theorem Follows.mono (h : m.Follows P Q p) (hQ : ∀ p a, Q p a → Q' p a) : m.Follows P Q' p := by
  induction m generalizing p with
  | ret a => exact hQ p a h
  | halt => trivial
  | ask c next ih => exact ⟨h.1, fun r hr => ih r (h.2 r hr)⟩

theorem follows_andThen {ε : Type} {m : ExceptT ε (Prog κ ρ) α} {f : α → ExceptT ε (Prog κ ρ) β}
    {R : φ → Except ε β → Prop} :
    (m >>= f).run.Follows P R p ↔
      m.run.Follows P (fun p r =>
        match r with
        | .ok a => (f a).run.Follows P R p
        | .error e => R p (.error e)) p := by
  change (Prog.bind m.run (ExceptT.bindCont f)).Follows P R p ↔ _
  rw [follows_bind]
  constructor
  · intro h
    refine h.mono ?_
    rintro p r hr
    cases r with
    | ok a => exact hr
    | error e => exact hr
  · intro h
    refine h.mono ?_
    rintro p r hr
    cases r with
    | ok a => exact hr
    | error e => exact hr

theorem Follows.of_forall (hallows : ∀ p c, P.allows p c) (hQ : ∀ p a, Q p a) :
    m.Follows P Q p := by
  induction m generalizing p with
  | ret a => exact hQ p a
  | halt => trivial
  | ask c next ih => exact ⟨hallows p c, fun r _ => ih r⟩

/-- Questions that may be asked at any time in a phase and do not end it. -/
theorem Meets.follows {A : κ → Prop} {Q : α → Prop} (h : m.Meets A Q)
    (hA : ∀ c, A c → P.allows p c ∧ ∀ r, P.next p c r = p) :
    m.Follows P (fun p' a => p' = p ∧ Q a) p := by
  induction m with
  | ret a => exact ⟨rfl, h⟩
  | halt => trivial
  | ask c next ih =>
    obtain ⟨hallows, hnext⟩ := hA c h.1
    refine ⟨hallows, fun r _ => ?_⟩
    rw [hnext r]
    exact ih r (h.2 r)

/-- A program over other programs follows a protocol of theirs if each of its questions is worked
out within it. -/
theorem Follows.interp {κ' : Type} {ρ' : κ' → Type} {P' : Protocol κ' ρ' φ}
    {i : (c : κ) → Prog κ' ρ' (ρ c)} (h : m.Follows P Q p)
    (hi : ∀ p c, P.allows p c →
      (i c).Follows P' (fun p' r => P.relies p c r ∧ p' = P.next p c r) p) :
    (m.interp i).Follows P' Q p := by
  induction m generalizing p with
  | ret a => exact h
  | halt => trivial
  | ask c next ih =>
    rw [Prog.interp, follows_bind]
    refine (hi p c h.1).mono ?_
    rintro p' r ⟨hr, rfl⟩
    exact ih r (h.2 r hr)

theorem follows_interp_ask {κ' : Type} {ρ' : κ' → Type} {P : Protocol κ' ρ' φ}
    {i : (c : κ) → Prog κ' ρ' (ρ c)} {c : κ} {next : ρ c → Prog κ ρ α} :
    ((ask c next).interp i).Follows P Q p ↔
      (i c).Follows P (fun p r => ((next r).interp i).Follows P Q p) p :=
  follows_bind

/-- Run alone, against answers that can be relied on. -/
theorem Follows.runIn {σ : Type} {answer : σ → (c : κ) → Option (ρ c × σ)} {s s' : σ} {a : α}
    (h : m.Follows P Q p)
    (hanswer : ∀ p s c r s', answer s c = some (r, s') → P.relies p c r)
    (hrun : m.runIn answer s = some (a, s')) : ∃ p', Q p' a := by
  induction m generalizing p s with
  | ret b =>
    cases hrun
    exact ⟨p, h⟩
  | halt => cases hrun
  | ask c next ih =>
    obtain ⟨⟨r, s₁⟩, hr, hnext⟩ := Option.bind_eq_some_iff.mp hrun
    exact ih r (h.2 r (hanswer p s c r s₁ hr)) hnext

end Prog

/-- The phase after a history. -/
def Protocol.after {κ : Type} {ρ : κ → Type} {φ : Type} (P : Protocol κ ρ φ) (p : φ)
    (h : Prog.History κ ρ) : φ :=
  h.foldl (fun p e => P.next p e.1 e.2) p

/-! ## Pools -/

/-- What the program was started for, what it asked so far, and the rest of it. -/
structure Task (κ : Type) (ρ : κ → Type) (ι α : Type) where
  origin : ι
  history : Prog.History κ ρ
  rest : Prog κ ρ α

/-- The result, once the program has come to it. -/
def Task.result {κ : Type} {ρ : κ → Type} {ι α : Type} (t : Task κ ρ ι α) : Option α :=
  match t.rest with
  | .ret a => some a
  | _ => none

theorem Task.result_eq_some {κ : Type} {ρ : κ → Type} {ι α : Type} {t : Task κ ρ ι α} {a : α} :
    t.result = some a ↔ t.rest = .ret a := by
  unfold result
  split <;> simp_all

structure Pool (κ : Type) (ρ : κ → Type) (ι α σ : Type) where
  shared : σ
  tasks : List (Task κ ρ ι α)

/-- What happens next: a program is started, one of those under way has its question answered,
or the shared state changes by itself. -/
inductive Turn (ι τ : Type)
  | start (origin : ι)
  | step (index : ℕ)
  | tick (time : τ)

namespace Pool

variable {κ : Type} {ρ : κ → Type} {ι α σ τ φ : Type}

section Turn

variable (program : ι → Prog κ ρ α) (answer : σ → (c : κ) → Option (ρ c × σ)) (tick : σ → τ → σ)

/-- `none` where nothing is asked or the question has no answer. -/
def turn (s : Pool κ ρ ι α σ) : Turn ι τ → Option (Pool κ ρ ι α σ)
  | .start origin => some { s with tasks := s.tasks ++ [⟨origin, [], program origin⟩] }
  | .step index =>
    match s.tasks[index]? with
    | some ⟨origin, history, .ask c next⟩ =>
      (answer s.shared c).map fun (r, shared) =>
        { shared, tasks := s.tasks.set index ⟨origin, history ++ [⟨c, r⟩], next r⟩ }
    | _ => none
  | .tick time => some { s with shared := tick s.shared time }

end Turn

variable {program : ι → Prog κ ρ α} {answer : σ → (c : κ) → Option (ρ c × σ)} {tick : σ → τ → σ}
  {s s' : Pool κ ρ ι α σ} {t : Turn ι τ} {turns : List (Turn ι τ)}

theorem step_cases {index : ℕ} (h : s.turn program answer tick (.step index) = some s') :
    ∃ origin history c next r shared, s.tasks[index]? = some ⟨origin, history, .ask c next⟩ ∧
      answer s.shared c = some (r, shared) ∧
      s' = { shared, tasks := s.tasks.set index ⟨origin, history ++ [⟨c, r⟩], next r⟩ } := by
  simp only [turn] at h
  split at h
  · rename_i origin history c next htask
    obtain ⟨⟨r, shared⟩, hanswer, rfl⟩ := Option.map_eq_some_iff.mp h
    exact ⟨origin, history, c, next, r, shared, htask, hanswer, rfl⟩
  · cases h

theorem turn_length (h : s.turn program answer tick t = some s') :
    s.tasks.length ≤ s'.tasks.length := by
  cases t with
  | start origin =>
    cases h
    simp
  | step index =>
    obtain ⟨origin, history, c, next, r, shared, -, -, rfl⟩ := step_cases h
    simp
  | tick time =>
    cases h
    exact Nat.le_refl _

theorem turn_total (hprogram : ∀ i, (program i).Total) (hs : ∀ t ∈ s.tasks, t.rest.Total)
    (h : s.turn program answer tick t = some s') : ∀ t ∈ s'.tasks, t.rest.Total := by
  intro t' ht'
  cases t with
  | start origin =>
    cases h
    rcases List.mem_append.mp ht' with ht' | ht'
    · exact hs t' ht'
    · rw [List.mem_singleton.mp ht']
      exact hprogram origin
  | step index =>
    obtain ⟨origin, history, c, next, r, shared, htask, -, rfl⟩ := step_cases h
    rcases List.mem_or_eq_of_mem_set ht' with ht' | rfl
    · exact hs t' ht'
    · exact hs _ (List.mem_of_getElem? htask) r
  | tick time =>
    cases h
    exact hs t' ht'

theorem turn_origins (h : s.turn program answer tick t = some s') :
    s.tasks.map Task.origin <+: s'.tasks.map Task.origin := by
  cases t with
  | start origin =>
    cases h
    rw [List.map_append]
    exact List.prefix_append _ _
  | step index =>
    obtain ⟨origin, history, c, next, r, shared, htask, -, rfl⟩ := step_cases h
    have hsame : (s.tasks.set index ⟨origin, history ++ [⟨c, r⟩], next r⟩).map Task.origin =
        s.tasks.map Task.origin := by
      refine List.ext_getElem? fun j => ?_
      by_cases hij : index = j
      · subst hij
        obtain ⟨hlt, -⟩ := List.getElem?_eq_some_iff.mp htask
        rw [List.getElem?_map, List.getElem?_map, List.getElem?_set_self hlt, htask]
        rfl
      · rw [List.getElem?_map, List.getElem?_map, List.getElem?_set_ne hij]
    exact ⟨[], by rw [List.append_nil, hsame]⟩
  | tick time =>
    cases h
    exact List.prefix_rfl

theorem run_length (h : Transition.run (turn program answer tick) s turns = some s') :
    s.tasks.length ≤ s'.tasks.length := by
  induction turns generalizing s with
  | nil =>
    cases h
    exact Nat.le_refl _
  | cons t turns ih =>
    obtain ⟨s₁, h₁, hrest⟩ := Transition.run_cons_eq_some h
    exact Nat.le_trans (turn_length h₁) (ih hrest)

theorem along_length {bound : ℕ} (h : Transition.run (turn program answer tick) s turns = some s')
    (hbound : s'.tasks.length < bound) :
    Transition.Along (turn program answer tick) (fun s _ => s.tasks.length < bound) s turns := by
  induction turns generalizing s with
  | nil => trivial
  | cons t turns ih =>
    refine ⟨Nat.lt_of_le_of_lt (run_length h) hbound, fun s₁ h₁ => ih ?_⟩
    rwa [Transition.run_cons_of_some h₁] at h

/-! ## Phases -/

/-- What one of the phases contributes to a collection over all of them. -/
theorem filterMap_set_perm {β : Type} (f : φ → Option β) {ps : List φ} {index : ℕ} {p : φ}
    (h : ps[index]? = some p) :
    ∃ rest, (ps.filterMap f).Perm ((f p).toList ++ rest) ∧
      ∀ p', ((ps.set index p').filterMap f).Perm ((f p').toList ++ rest) := by
  have hcons (q : φ) (ps : List φ) : (q :: ps).filterMap f = (f q).toList ++ ps.filterMap f := by
    cases hq : f q <;> simp [hq]
  induction ps generalizing index with
  | nil => cases h
  | cons q ps ih =>
    cases index with
    | zero =>
      cases h
      refine ⟨ps.filterMap f, ?_, fun p' => ?_⟩
      · rw [hcons]
      · rw [List.set_cons_zero, hcons]
    | succ index =>
      obtain ⟨rest, hrest, hset⟩ := ih h
      refine ⟨(f q).toList ++ rest, ?_, fun p' => ?_⟩
      · rw [hcons]
        exact (hrest.append_left _).trans (List.perm_append_comm_assoc _ _ _)
      · rw [List.set_cons_succ, hcons]
        exact ((hset p').append_left _).trans (List.perm_append_comm_assoc _ _ _)

section Phases

variable (P : Protocol κ ρ φ) (init : ι → φ)

def phases (s : Pool κ ρ ι α σ) : List φ := s.tasks.map fun t => P.after (init t.origin) t.history

/-- Every task follows the protocol from its phase on. -/
def Follows (Q : ι → φ → α → Prop) (s : Pool κ ρ ι α σ) : Prop :=
  ∀ t ∈ s.tasks, t.rest.Follows P (Q t.origin) (P.after (init t.origin) t.history)

/-- A turn, seen from the shared state and the phases. -/
inductive Turned (answer : σ → (c : κ) → Option (ρ c × σ)) (tick : σ → τ → σ) (shared : σ)
    (ps : List φ) : Turn ι τ → σ → List φ → Prop
  | start (origin : ι) : Turned answer tick shared ps (.start origin) shared (ps ++ [init origin])
  | step {index : ℕ} {p : φ} {c : κ} {r : ρ c} {shared' : σ} (phase : ps[index]? = some p)
      (allowed : P.allows p c) (answered : answer shared c = some (r, shared')) :
      Turned answer tick shared ps (.step index) shared' (ps.set index (P.next p c r))
  | tick (time : τ) : Turned answer tick shared ps (.tick time) (tick shared time) ps

variable {P} {init} {Q : ι → φ → α → Prop}

theorem Follows.turned (h : s.Follows P init Q)
    (hprogram : ∀ i, (program i).Follows P (Q i) (init i))
    (hrelies : ∀ p ∈ s.phases P init, ∀ c r shared, P.allows p c →
      answer s.shared c = some (r, shared) → P.relies p c r)
    (hturn : s.turn program answer tick t = some s') :
    s'.Follows P init Q ∧
      Turned P init answer tick s.shared (s.phases P init) t s'.shared (s'.phases P init) := by
  cases t with
  | start origin =>
    cases hturn
    constructor
    · intro t ht
      rcases List.mem_append.mp ht with ht | ht
      · exact h t ht
      · rw [List.mem_singleton.mp ht]
        exact hprogram origin
    · have hphases : phases P init { s with tasks := s.tasks ++ [⟨origin, [], program origin⟩] } =
          s.phases P init ++ [init origin] := by
        simp [phases, Protocol.after]
      rw [hphases]
      exact .start origin
  | step index =>
    obtain ⟨origin, history, c, next, r, shared, htask, hanswer, rfl⟩ := step_cases hturn
    have hmem := List.mem_of_getElem? htask
    have hfollows := h _ hmem
    have hphase : (s.phases P init)[index]? = some (P.after (init origin) history) := by
      simp [phases, htask]
    have hr := hrelies _ (List.mem_of_getElem? hphase) c r shared hfollows.1 hanswer
    have hafter : P.after (init origin) (history ++ [⟨c, r⟩]) =
        P.next (P.after (init origin) history) c r := by
      simp [Protocol.after]
    constructor
    · intro t ht
      rcases List.mem_or_eq_of_mem_set ht with ht | rfl
      · exact h t ht
      · dsimp only
        rw [hafter]
        exact hfollows.2 r hr
    · have hphases : phases P init
          { shared, tasks := s.tasks.set index ⟨origin, history ++ [⟨c, r⟩], next r⟩ } =
            (s.phases P init).set index (P.next (P.after (init origin) history) c r) := by
        rw [← hafter]
        simp [phases, List.map_set]
      rw [hphases]
      exact .step hphase hfollows.1 hanswer
  | tick time =>
    cases hturn
    exact ⟨h, .tick time⟩

/-- An invariant of the shared state and the phases holds at the end of every run whose turns meet
a side condition. -/
theorem run_phases (Inv : σ → List φ → Prop) (C : Pool κ ρ ι α σ → Turn ι τ → Prop)
    (hprogram : ∀ i, (program i).Follows P (Q i) (init i))
    (hrelies : ∀ shared ps, Inv shared ps → ∀ p ∈ ps, ∀ c r shared', P.allows p c →
      answer shared c = some (r, shared') → P.relies p c r)
    (hinv : ∀ s t shared ps, Inv s.shared (s.phases P init) → C s t →
      Turned P init answer tick s.shared (s.phases P init) t shared ps → Inv shared ps)
    (hs : s.Follows P init Q ∧ Inv s.shared (s.phases P init))
    (hside : Transition.Along (turn program answer tick) C s turns)
    (hrun : Transition.run (turn program answer tick) s turns = some s') :
    s'.Follows P init Q ∧ Inv s'.shared (s'.phases P init) := by
  have hstep : ∀ (s : Pool κ ρ ι α σ) t s', (s.Follows P init Q ∧ Inv s.shared (s.phases P init)) →
      C s t → s.turn program answer tick t = some s' →
      s'.Follows P init Q ∧ Inv s'.shared (s'.phases P init) := by
    rintro s t s' ⟨hfollows, hi⟩ hc hturn
    obtain ⟨hfollows', hturned⟩ := hfollows.turned hprogram (hrelies _ _ hi) hturn
    exact ⟨hfollows', hinv s t _ _ hi hc hturned⟩
  exact @Transition.run_invariant _ _ _ _ _ _
    (fun s => s.Follows P init Q ∧ Inv s.shared (s.phases P init)) C hstep hs hside hrun

end Phases

end Pool

end Interaction
