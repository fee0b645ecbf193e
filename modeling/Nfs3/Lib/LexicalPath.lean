import Mathlib.Data.List.Basic

/-!
# Paths as texts

A path is a list of characters with a separator. Read from left to right, a segment leads one
level down or, if it is two dots, one level up; empty segments and single dots lead nowhere. A
list of segments never climbs if it does not go up from the level at which it started.
-/
namespace LexicalPath

variable {α : Type} [DecidableEq α] (sep dot : α)

/-- The texts between separators that lead somewhere. -/
def segments (p : List α) : List (List α) :=
  (p.splitOn sep).filter fun c => c ≠ [] ∧ c ≠ [dot]

/-- One segment from a level, `none` if it goes up from level `0`. -/
def move (d : ℕ) (c : List α) : Option ℕ :=
  if c = [dot, dot] then if d = 0 then none else some (d - 1) else some (d + 1)

/-- The level at which the segments end. -/
def level (d : ℕ) (cs : List (List α)) : Option ℕ := cs.foldlM (move dot) d

def NeverClimbs (cs : List (List α)) : Prop := (level dot 0 cs).isSome

variable {sep dot}

@[simp] theorem segments_nil : segments sep dot [] = [] := by
  simp [segments]

theorem segments_append_sep (a b : List α) :
    segments sep dot (a ++ sep :: b) = segments sep dot a ++ segments sep dot b := by
  rw [segments, List.splitOn_append_cons_self, List.filter_append]
  rfl

/-- A separator at the end makes no difference. -/
theorem segments_append_of_last {a : List α} (ha : a = [] ∨ a.getLast? = some sep) (b : List α) :
    segments sep dot (a ++ b) = segments sep dot a ++ segments sep dot b := by
  rcases ha with rfl | ha
  · simp
  · obtain ⟨init, rfl⟩ := List.getLast?_eq_some_iff.mp ha
    rw [List.append_assoc, List.singleton_append, segments_append_sep, segments_append_sep]
    simp

theorem segments_of_single {c : List α} (hsep : sep ∉ c) (hnil : c ≠ []) (hdot : c ≠ [dot]) :
    segments sep dot c = [c] := by
  rw [segments, List.splitOn_eq_singleton hsep, List.filter_cons_of_pos (by simp [hnil, hdot]),
    List.filter_nil]

theorem level_append (d : ℕ) (cs cs' : List (List α)) :
    level dot d (cs ++ cs') = (level dot d cs).bind fun d => level dot d cs' :=
  List.foldlM_append

theorem NeverClimbs.of_append {cs cs' : List (List α)} (h : NeverClimbs dot (cs ++ cs')) :
    NeverClimbs dot cs := by
  rw [NeverClimbs, level_append] at h
  exact Option.isSome_of_isSome_bind h

/-- A segment that is not two dots leads down. -/
theorem NeverClimbs.concat {cs : List (List α)} {c : List α} (h : NeverClimbs dot cs)
    (hc : c ≠ [dot, dot]) : NeverClimbs dot (cs ++ [c]) := by
  obtain ⟨d, hd⟩ := Option.isSome_iff_exists.mp h
  rw [NeverClimbs, level_append, hd]
  simp [level, move, hc]

theorem not_neverClimbs_cons (cs : List (List α)) : ¬NeverClimbs dot ([dot, dot] :: cs) := by
  simp [NeverClimbs, level, move]

end LexicalPath
