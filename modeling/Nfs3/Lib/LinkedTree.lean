import Mathlib.Logic.Basic
import Mathlib.Logic.Relation

/-!
# Trees kept by child sets and parent pointers

A store of nodes in which every node lists its children and some nodes point back to their
parent. The nodes form a tree when the two kinds of links agree: `WellFormed`. Three edits
keep it: a new leaf, a childless node taken out, a node moved to another parent.
-/
namespace LinkedTree

structure Shape (V : Type) where
  dom : V → Prop
  child : V → V → Prop
  /-- The parent pointer of a node that has one. -/
  up : V → Option V
  root : V

variable {V : Type} {S S' : Shape V} {p n : V}

structure WellFormed (S : Shape V) : Prop where
  root_mem : S.dom S.root
  closed : ∀ d i, S.child d i → S.dom i
  linked : ∀ i, S.dom i → i ≠ S.root → ∃ d, S.child d i
  unique : ∀ d d' i, S.child d i → S.child d' i → d = d'
  root_unlinked : ∀ d, ¬ S.child d S.root
  up_eq : ∀ d i u, S.child d i → S.up i = some u → u = d

/-- `S'` is `S` with the fresh node `n` under `p`. -/
structure AddLeaf (S : Shape V) (p n : V) (S' : Shape V) : Prop where
  fresh : ¬ S.dom n
  root : S'.root = S.root
  dom : ∀ i, S'.dom i ↔ S.dom i ∨ i = n
  child : ∀ d i, S'.child d i ↔ S.child d i ∨ (d = p ∧ i = n)
  up : ∀ i, i ≠ n → S'.up i = S.up i
  up_new : ∀ u, S'.up n = some u → u = p

theorem AddLeaf.wellFormed (h : AddLeaf S p n S') (hS : WellFormed S) : WellFormed S' := by
  have hne : ∀ d i, S.child d i → i ≠ n := by
    rintro d i hi rfl
    exact h.fresh (hS.closed d i hi)
  have hroot : S.root ≠ n := by
    rintro hr
    exact h.fresh (hr ▸ hS.root_mem)
  constructor
  · rw [h.root, h.dom]
    exact Or.inl hS.root_mem
  · intro d i hi
    rw [h.dom]
    exact ((h.child d i).mp hi).imp (hS.closed d i) And.right
  · intro i hi hr
    rw [h.root] at hr
    rcases (h.dom i).mp hi with hi | rfl
    · obtain ⟨d, hd⟩ := hS.linked i hi hr
      exact ⟨d, (h.child d i).mpr (Or.inl hd)⟩
    · exact ⟨p, (h.child p i).mpr (Or.inr ⟨rfl, rfl⟩)⟩
  · intro d d' i hd hd'
    rcases (h.child d i).mp hd with hd | ⟨rfl, rfl⟩
    · rcases (h.child d' i).mp hd' with hd' | ⟨rfl, rfl⟩
      · exact hS.unique d d' i hd hd'
      · exact absurd rfl (hne d i hd)
    · rcases (h.child d' i).mp hd' with hd' | ⟨rfl, -⟩
      · exact absurd rfl (hne d' i hd')
      · rfl
  · intro d hd
    rw [h.root] at hd
    rcases (h.child d S.root).mp hd with hd | ⟨-, hr⟩
    · exact hS.root_unlinked d hd
    · exact hroot hr
  · intro d i u hd hu
    rcases (h.child d i).mp hd with hd | ⟨rfl, rfl⟩
    · rw [h.up i (hne d i hd)] at hu
      exact hS.up_eq d i u hd hu
    · exact h.up_new u hu

/-- `S'` is `S` without the node `n`, which has no children. -/
structure RemoveLeaf (S : Shape V) (n : V) (S' : Shape V) : Prop where
  notRoot : n ≠ S.root
  leaf : ∀ i, ¬ S.child n i
  root : S'.root = S.root
  dom : ∀ i, S'.dom i ↔ S.dom i ∧ i ≠ n
  child : ∀ d i, S'.child d i ↔ S.child d i ∧ i ≠ n
  up : ∀ i, i ≠ n → S'.up i = S.up i

theorem RemoveLeaf.wellFormed (h : RemoveLeaf S n S') (hS : WellFormed S) : WellFormed S' := by
  constructor
  · rw [h.root, h.dom]
    exact ⟨hS.root_mem, h.notRoot.symm⟩
  · intro d i hi
    obtain ⟨hd, hn⟩ := (h.child d i).mp hi
    exact (h.dom i).mpr ⟨hS.closed d i hd, hn⟩
  · intro i hi hr
    rw [h.root] at hr
    obtain ⟨hi, hn⟩ := (h.dom i).mp hi
    obtain ⟨d, hd⟩ := hS.linked i hi hr
    exact ⟨d, (h.child d i).mpr ⟨hd, hn⟩⟩
  · intro d d' i hd hd'
    exact hS.unique d d' i ((h.child d i).mp hd).1 ((h.child d' i).mp hd').1
  · intro d hd
    rw [h.root] at hd
    exact hS.root_unlinked d ((h.child d S.root).mp hd).1
  · intro d i u hd hu
    obtain ⟨hd, hn⟩ := (h.child d i).mp hd
    rw [h.up i hn] at hu
    exact hS.up_eq d i u hd hu

/-- `S'` is `S` with the node `n` under `p` instead of its old parent. -/
structure Move (S : Shape V) (p n : V) (S' : Shape V) : Prop where
  mem : S.dom n
  notRoot : n ≠ S.root
  root : S'.root = S.root
  dom : ∀ i, S'.dom i ↔ S.dom i
  child : ∀ d i, S'.child d i ↔ (S.child d i ∧ i ≠ n) ∨ (d = p ∧ i = n)
  up : ∀ i, i ≠ n → S'.up i = S.up i
  up_moved : ∀ u, S'.up n = some u → u = p

theorem Move.wellFormed (h : Move S p n S') (hS : WellFormed S) : WellFormed S' := by
  constructor
  · rw [h.root, h.dom]
    exact hS.root_mem
  · intro d i hi
    rw [h.dom]
    rcases (h.child d i).mp hi with ⟨hd, -⟩ | ⟨-, rfl⟩
    · exact hS.closed d i hd
    · exact h.mem
  · intro i hi hr
    rw [h.root] at hr
    by_cases hn : i = n
    · exact ⟨p, (h.child p i).mpr (Or.inr ⟨rfl, hn⟩)⟩
    · obtain ⟨d, hd⟩ := hS.linked i ((h.dom i).mp hi) hr
      exact ⟨d, (h.child d i).mpr (Or.inl ⟨hd, hn⟩)⟩
  · intro d d' i hd hd'
    rcases (h.child d i).mp hd with ⟨hd, hn⟩ | ⟨rfl, rfl⟩
    · rcases (h.child d' i).mp hd' with ⟨hd', -⟩ | ⟨-, hi⟩
      · exact hS.unique d d' i hd hd'
      · exact absurd hi hn
    · rcases (h.child d' i).mp hd' with ⟨-, hn⟩ | ⟨rfl, -⟩
      · exact absurd rfl hn
      · rfl
  · intro d hd
    rw [h.root] at hd
    rcases (h.child d S.root).mp hd with ⟨hd, -⟩ | ⟨-, hr⟩
    · exact hS.root_unlinked d hd
    · exact h.notRoot hr.symm
  · intro d i u hd hu
    rcases (h.child d i).mp hd with ⟨hd, hn⟩ | ⟨rfl, rfl⟩
    · rw [h.up i hn] at hu
      exact hS.up_eq d i u hd hu
    · exact h.up_moved u hu

/-! ## Trees without loops -/

/-- Every node can be reached from the root. -/
def Rooted (S : Shape V) : Prop := ∀ i, S.dom i → Relation.ReflTransGen S.child S.root i

theorem AddLeaf.rooted (h : AddLeaf S p n S') (hS : Rooted S) (hp : S.dom p) : Rooted S' := by
  have hmono : ∀ i, Relation.ReflTransGen S.child S.root i →
      Relation.ReflTransGen S'.child S.root i := fun i hi =>
    Relation.ReflTransGen.mono (fun d j hj => (h.child d j).mpr (Or.inl hj)) _ _ hi
  intro i hi
  rw [h.root]
  rcases (h.dom i).mp hi with hi | rfl
  · exact hmono i (hS i hi)
  · exact (hmono p (hS p hp)).tail ((h.child p i).mpr (Or.inr ⟨rfl, rfl⟩))

/-- The links that do not lead to `n`. -/
def childExcept (S : Shape V) (n d i : V) : Prop := S.child d i ∧ i ≠ n

/-- Without the links to a node that has no children, the others are still reached. -/
theorem reaches_except_leaf {i : V} (hleaf : ∀ i, ¬ S.child n i)
    (h : Relation.ReflTransGen S.child S.root i) :
    Relation.ReflTransGen (childExcept S n) S.root i ∨ i = n := by
  induction h with
  | refl => exact Or.inl .refl
  | @tail d i _ hstep ih =>
    by_cases hi : i = n
    · exact Or.inr hi
    rcases ih with hreach | rfl
    · exact Or.inl (hreach.tail ⟨hstep, hi⟩)
    · exact absurd hstep (hleaf i)

theorem RemoveLeaf.rooted (h : RemoveLeaf S n S') (hS : Rooted S) : Rooted S' := by
  intro i hi
  obtain ⟨hdom, hne⟩ := (h.dom i).mp hi
  have hreach := (reaches_except_leaf h.leaf (hS i hdom)).resolve_right hne
  rw [h.root]
  exact Relation.ReflTransGen.mono (fun d j hj => (h.child d j).mpr hj) _ _ hreach

/-- A node may be moved to where one gets without it. -/
theorem Move.rooted (h : Move S p n S') (hS : Rooted S)
    (hp : Relation.ReflTransGen (childExcept S n) S.root p) : Rooted S' := by
  have htarget : Relation.ReflTransGen S'.child S.root p :=
    Relation.ReflTransGen.mono (fun d j hj => (h.child d j).mpr (Or.inl hj)) _ _ hp
  intro i hi
  have hreach := hS i ((h.dom i).mp hi)
  rw [h.root]
  clear hi
  induction hreach with
  | refl => exact .refl
  | @tail d j _ hstep ih =>
    by_cases hj : j = n
    · exact htarget.tail ((h.child p j).mpr (Or.inr ⟨rfl, hj⟩))
    · exact ih.tail ((h.child d j).mpr (Or.inl ⟨hstep, hj⟩))

/-- In a tree without loops no node is its own child. -/
theorem Rooted.not_child_self (hS : WellFormed S) (h : Rooted S) : ¬ S.child n n := by
  intro hself
  have hne : ∀ i, Relation.ReflTransGen S.child S.root i → i ≠ n := by
    intro i hreach
    induction hreach with
    | refl =>
      rintro rfl
      exact hS.root_unlinked S.root hself
    | @tail d i _ hstep ih =>
      rintro rfl
      exact ih (hS.unique d i i hstep hself)
  exact hne n (h n (hS.closed n n hself)) rfl

end LinkedTree
