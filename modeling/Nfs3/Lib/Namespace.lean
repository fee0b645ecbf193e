import Mathlib.Data.List.Induction
import Mathlib.Logic.Function.Basic

/-!
# Hierarchical namespaces

What a hierarchical file system is for: objects under handles, files with data and directories
that bind names to other objects. An operation gives its result and the namespace it leaves
behind, which is the old one if the operation fails.

Two names mean the same in every directory: `dot` the directory itself, `dotDot` the one above.
-/

/-- A file or a directory, with its data. -/
inductive Namespace.Object (F D : Type)
  | file (data : F)
  | dir (data : D)

/-- The objects, what directories bind, and the directory above a directory. -/
@[ext]
structure Namespace (H N F D : Type) where
  object : H → Option (Namespace.Object F D)
  entry : H → N → Option H
  up : H → Option H
  root : H

namespace Namespace

variable {H N F D : Type}

inductive Failure
  | notFound
  | notDirectory
  | alreadyExists
  | notEmpty
  | invalid
  | noParent

def IsDir (s : Namespace H N F D) (d : H) : Prop := ∃ data, s.object d = some (.dir data)

/-- No name is bound in the directory. -/
def Empty (s : Namespace H N F D) (d : H) : Prop := ∀ n, s.entry d n = none

/-- The object at the end of a path of names. -/
def walk (s : Namespace H N F D) : H → List N → Option H
  | d, [] => some d
  | d, n :: p => (s.entry d n).bind fun i => s.walk i p

/-- There is a path from `i` to `d`. -/
def Below (s : Namespace H N F D) (i d : H) : Prop := ∃ p, s.walk i p = some d

/-! ## Operations -/

section Operations

variable [DecidableEq H] [DecidableEq N]

/-- A new object is bound. -/
def link (s : Namespace H N F D) (d : H) (n : N) (i : H) (o : Object F D) :
    Namespace H N F D :=
  { s with
    object := Function.update s.object i (some o)
    entry := fun d' n' => if d' = d ∧ n' = n then some i else s.entry d' n'
    up := Function.update s.up i
      (match o with
        | .dir _ => some d
        | .file _ => none) }

/-- An object goes, with its binding. -/
def unlink (s : Namespace H N F D) (d : H) (n : N) (i : H) : Namespace H N F D :=
  { s with
    object := Function.update s.object i none
    entry := fun d' n' => if d' = d ∧ n' = n then none else s.entry d' n'
    up := Function.update s.up i none }

/-- An object is bound elsewhere. -/
def move (s : Namespace H N F D) (fd : H) (fn : N) (td : H) (tn : N) (i : H) :
    Namespace H N F D :=
  { s with
    entry := fun d n =>
      if d = td ∧ n = tn then some i else if d = fd ∧ n = fn then none else s.entry d n
    up :=
      match s.object i with
      | some (.dir _) => Function.update s.up i (some td)
      | _ => s.up }

/-- An object gets other data. -/
def put (s : Namespace H N F D) (i : H) (o : Object F D) : Namespace H N F D :=
  { s with object := Function.update s.object i (some o) }

variable (dot dotDot : N)

def lookup (s : Namespace H N F D) (d : H) (n : N) : Except Failure H :=
  match s.object d with
  | none => .error .notFound
  | some (.file _) => .error .notDirectory
  | some (.dir _) =>
    if n = dot then .ok d
    else if n = dotDot then
      match s.up d with
      | some p => if (s.object p).isSome then .ok p else .error .noParent
      | none => .error .noParent
    else
      match s.entry d n with
      | some i => .ok i
      | none => .error .notFound

/-- A new object under a free name. -/
def make (s : Namespace H N F D) (d : H) (n : N) (i : H) (o : Object F D) :
    Except Failure Unit × Namespace H N F D :=
  match s.lookup dot dotDot d n with
  | .ok _ => (.error .alreadyExists, s)
  | .error .notFound =>
    match s.object d with
    | some (.dir _) => (.ok (), s.link d n i o)
    | _ => (.error .notFound, s)
  | .error e => (.error e, s)

open Classical in
/-- Files, and directories that are empty, can be removed. -/
noncomputable def remove (s : Namespace H N F D) (d : H) (n : N) :
    Except Failure Unit × Namespace H N F D :=
  if n = dot ∨ n = dotDot then (.error .invalid, s)
  else
    match s.lookup dot dotDot d n with
    | .error e => (.error e, s)
    | .ok i => if s.Empty i then (.ok (), s.unlink d n i) else (.error .notEmpty, s)

open Classical in
/-- What a rename of `i` takes away: nothing, a file for a file, an empty directory for a
directory. -/
noncomputable def replaceable (s : Namespace H N F D) (i td : H) (tn : N) :
    Except Failure (Option H) :=
  match s.lookup dot dotDot td tn with
  | .error .notFound => .ok none
  | .error e => .error e
  | .ok j =>
    match s.object i, s.object j with
    | some (.file _), some (.file _) =>
      if tn = dot ∨ tn = dotDot then .error .invalid else .ok (some j)
    | some (.dir _), some (.dir _) =>
      if ¬s.Empty j then .error .notEmpty
      else if tn = dot ∨ tn = dotDot then .error .invalid
      else .ok (some j)
    | _, _ => .error .notDirectory

/-- Without the object that gives way. -/
def vacate (s : Namespace H N F D) (td : H) (tn : N) : Option H → Namespace H N F D
  | none => s
  | some j => s.unlink td tn j

open Classical in
/-- A directory is not moved below itself. -/
noncomputable def rename (s : Namespace H N F D) (fd : H) (fn : N) (td : H) (tn : N) :
    Except Failure Unit × Namespace H N F D :=
  if fn = dot ∨ fn = dotDot then (.error .invalid, s)
  else
    match s.lookup dot dotDot fd fn with
    | .error e => (.error e, s)
    | .ok i =>
      if fd = td ∧ fn = tn then (.ok (), s)
      else
        match s.replaceable dot dotDot i td tn with
        | .error e => (.error e, s)
        | .ok target =>
          if ¬s.IsDir td then (.error .notFound, s)
          else if s.IsDir i ∧ s.Below i td then (.error .invalid, s)
          else (.ok (), (s.vacate td tn target).move fd fn td tn i)

end Operations

/-! ## Paths -/

/-- Bindings lead from directories to objects, each of which is bound once and can be reached
from the root. -/
structure WellFormed (s : Namespace H N F D) : Prop where
  dirs : ∀ {d n i}, s.entry d n = some i → s.IsDir d
  unique : ∀ {d d' n n' i}, s.entry d n = some i → s.entry d' n' = some i → d = d' ∧ n = n'
  root : ∀ d n, s.entry d n ≠ some s.root
  rooted : ∀ i, (s.object i).isSome → ∃ p, s.walk s.root p = some i

variable {s s' : Namespace H N F D} {d i : H} {n : N} {p q : List N}

theorem walk_append (s : Namespace H N F D) (d : H) (p q : List N) :
    s.walk d (p ++ q) = (s.walk d p).bind fun i => s.walk i q := by
  induction p generalizing d with
  | nil => rfl
  | cons n p ih =>
    simp only [List.cons_append, walk, Option.bind_assoc]
    exact congrArg _ (funext fun i => ih i)

theorem walk_append_of_eq (h : s.walk d p = some i) : s.walk d (p ++ q) = s.walk i q := by
  rw [walk_append, h, Option.bind_some]

/-- A path goes the same way where it meets the same bindings. -/
theorem walk_congr
    (h : ∀ q n r x, p = q ++ n :: r → s.walk d q = some x → s'.entry x n = s.entry x n) :
    s'.walk d p = s.walk d p := by
  induction p generalizing d with
  | nil => rfl
  | cons n p ih =>
    simp only [walk, h [] n p d rfl rfl]
    cases hentry : s.entry d n with
    | none => rfl
    | some i =>
      apply ih
      intro q m r x hp hx
      apply h (n :: q) m r x (by rw [hp, List.cons_append])
      simp [walk, hentry, hx]

theorem walk_of_empty (hempty : s.Empty i) (hp : s.walk i p = some d) : p = [] := by
  cases p with
  | nil => rfl
  | cons n p => simp [walk, hempty n] at hp

namespace WellFormed

variable (h : s.WellFormed)

include h

theorem path_unique (hp : s.walk s.root p = some i) (hq : s.walk s.root q = some i) : p = q := by
  induction p using List.reverseRecOn generalizing q i with
  | nil =>
    cases hp
    cases q using List.reverseRecOn with
    | nil => rfl
    | append_singleton q n =>
      rw [walk_append] at hq
      obtain ⟨d, -, hd⟩ := Option.bind_eq_some_iff.mp hq
      simp only [walk, Option.bind_fun_some] at hd
      exact absurd hd (h.root d n)
  | append_singleton p n ih =>
    rw [walk_append] at hp
    obtain ⟨d, hd, hentry⟩ := Option.bind_eq_some_iff.mp hp
    simp only [walk, Option.bind_fun_some] at hentry
    cases q using List.reverseRecOn with
    | nil =>
      cases hq
      exact absurd hentry (h.root d n)
    | append_singleton q m =>
      rw [walk_append] at hq
      obtain ⟨d', hd', hentry'⟩ := Option.bind_eq_some_iff.mp hq
      simp only [walk, Option.bind_fun_some] at hentry'
      obtain ⟨rfl, rfl⟩ := h.unique hentry hentry'
      rw [ih hd hd']

theorem empty_of_not_isDir (hi : ¬s.IsDir i) : s.Empty i := by
  intro n
  by_contra hentry
  obtain ⟨j, hj⟩ := Option.ne_none_iff_exists'.mp hentry
  exact hi (h.dirs hj)

end WellFormed

/-! ## What a rename moves -/

section Rename

variable [DecidableEq N] {dot dotDot : N} {fd td : H} {fn tn : N}

theorem lookup_ordinary (hdot : n ≠ dot) (hdotDot : n ≠ dotDot) :
    s.lookup dot dotDot d n = .ok i ↔ s.IsDir d ∧ s.entry d n = some i := by
  unfold lookup IsDir
  rcases s.object d with _ | data | data
  · simp
  · simp
  · cases hentry : s.entry d n with
    | none => simp [hdot, hdotDot]
    | some j => simp [hdot, hdotDot]

/-- Only an ordinary name can be renamed to. -/
theorem replaceable_ordinary {target : Option H} (hd : s.IsDir td)
    (h : s.replaceable dot dotDot i td tn = .ok target) : tn ≠ dot ∧ tn ≠ dotDot := by
  obtain ⟨data, hd⟩ := hd
  by_contra hdots
  have hdots : tn = dot ∨ tn = dotDot := by tauto
  have hfound : s.lookup dot dotDot td tn ≠ .error .notFound := by
    unfold lookup
    rw [hd]
    dsimp only
    split_ifs with hdot hdotDot
    · simp
    · split
      · split_ifs <;> simp
      · simp
    · tauto
  unfold replaceable at h
  split at h
  · exact hfound ‹_›
  · cases h
  · split at h
    · simp [hdots] at h
    · split_ifs at h
    · cases h

theorem replaceable_empty {j : H} (hwf : s.WellFormed) (hd : s.IsDir td)
    {target : Option H} (h : s.replaceable dot dotDot i td tn = .ok target)
    (hj : s.entry td tn = some j) : target = some j ∧ s.Empty j := by
  obtain ⟨hdot, hdotDot⟩ := replaceable_ordinary hd h
  have hlookup : s.lookup dot dotDot td tn = .ok j := (lookup_ordinary hdot hdotDot).mpr ⟨hd, hj⟩
  unfold replaceable at h
  rw [hlookup] at h
  dsimp only at h
  split at h
  · rename_i hi hfile
    have hnot : ¬s.IsDir j := by
      rintro ⟨data, hdata⟩
      rw [hfile] at hdata
      cases hdata
    rw [if_neg (by tauto)] at h
    cases h
    exact ⟨rfl, hwf.empty_of_not_isDir hnot⟩
  · split_ifs at h with hempty
    cases h
    exact ⟨rfl, hempty⟩
  · cases h

theorem replaceable_free {target : Option H} (hd : s.IsDir td)
    (h : s.replaceable dot dotDot i td tn = .ok target) (hj : s.entry td tn = none) :
    target = none := by
  obtain ⟨hdot, hdotDot⟩ := replaceable_ordinary hd h
  obtain ⟨data, hd⟩ := hd
  have hlookup : s.lookup dot dotDot td tn = .error .notFound := by
    simp [lookup, hd, hdot, hdotDot, hj]
  simp only [replaceable, hlookup, Except.ok.injEq] at h
  exact h.symm

variable [DecidableEq H]

/-- What a rename has done that returns without an error. -/
structure Renamed (s : Namespace H N F D) (fd : H) (fn : N) (td : H) (tn : N) (i : H)
    (s' : Namespace H N F D) : Prop where
  source : s.entry fd fn = some i
  target : s.IsDir td
  apart : ¬(s.IsDir i ∧ s.Below i td)
  replaced : ∀ j, s.entry td tn = some j → s.Empty j
  entry : ∀ d n, s'.entry d n =
    if d = td ∧ n = tn then some i else if d = fd ∧ n = fn then none else s.entry d n
  object : ∀ j, s.entry td tn ≠ some j → s'.object j = s.object j
  root : s'.root = s.root

theorem rename_ok (hwf : s.WellFormed) (hdistinct : ¬(fd = td ∧ fn = tn))
    (h : s.rename dot dotDot fd fn td tn = (.ok (), s')) : ∃ i, Renamed s fd fn td tn i s' := by
  unfold rename at h
  by_cases hdots : fn = dot ∨ fn = dotDot
  · rw [if_pos hdots] at h
    cases h
  rw [if_neg hdots] at h
  obtain ⟨hdot, hdotDot⟩ := not_or.mp hdots
  split at h
  · cases h
  rename_i i hlookup
  rw [if_neg hdistinct] at h
  split at h
  · cases h
  rename_i target htarget
  by_cases hd : s.IsDir td
  swap
  · rw [if_pos hd] at h
    cases h
  rw [if_neg (not_not.mpr hd)] at h
  by_cases hbelow : s.IsDir i ∧ s.Below i td
  · rw [if_pos hbelow] at h
    cases h
  rw [if_neg hbelow] at h
  obtain ⟨-, hsource⟩ := (lookup_ordinary hdot hdotDot).mp hlookup
  cases h
  refine ⟨i, hsource, hd, hbelow, fun j hj => (replaceable_empty hwf hd htarget hj).2, ?_, ?_, ?_⟩
  · intro d n
    cases target with
    | none => rfl
    | some j =>
      simp only [move, vacate, unlink]
      split_ifs <;> rfl
  · intro j hj
    cases hentry : s.entry td tn with
    | none =>
      rw [replaceable_free hd htarget hentry]
      rfl
    | some k =>
      obtain ⟨rfl, -⟩ := replaceable_empty hwf hd htarget hentry
      have hne : j ≠ k := by
        rintro rfl
        exact hj hentry
      simp [move, vacate, unlink, hne]
  · cases target <;> rfl

namespace Renamed

variable (h : Renamed s fd fn td tn i s') (hwf : s.WellFormed)

include h

theorem entry_other (ht : ¬(d = td ∧ n = tn)) (hf : ¬(d = fd ∧ n = fn)) :
    s'.entry d n = s.entry d n := by
  rw [h.entry, if_neg ht, if_neg hf]

include hwf

theorem not_walk_target : s.walk i p ≠ some td := by
  intro hp
  have hi : ¬s.IsDir i := fun hi => h.apart ⟨hi, p, hp⟩
  obtain rfl := walk_of_empty (hwf.empty_of_not_isDir hi) hp
  cases hp
  exact hi h.target

theorem not_walk_source {pf : List N} (hpf : s.walk s.root pf = some fd) :
    s.walk i p ≠ some fd := by
  intro hp
  have hloop : s.walk s.root (pf ++ fn :: p) = some fd := by
    rw [walk_append_of_eq hpf, walk, h.source, Option.bind_some, hp]
  have hlength := congrArg List.length (hwf.path_unique hloop hpf)
  simp at hlength

/-- Below the object that moves everything stays as it is. -/
theorem walk_moved {pf : List N} (hpf : s.walk s.root pf = some fd) :
    s'.walk i p = s.walk i p := by
  apply walk_congr
  intro q n r x _ hx
  apply h.entry_other
  · rintro ⟨rfl, -⟩
    exact h.not_walk_target hwf hx
  · rintro ⟨rfl, -⟩
    exact h.not_walk_source hwf hpf hx

theorem walk_other {pf pt : List N} (hpf : s.walk s.root pf = some fd)
    (hpt : s.walk s.root pt = some td) (hf : ¬(pf ++ [fn]) <+: p) (ht : ¬(pt ++ [tn]) <+: p) :
    s'.walk s.root p = s.walk s.root p := by
  apply walk_congr
  intro q n r x hp hx
  apply h.entry_other
  · rintro ⟨rfl, rfl⟩
    obtain rfl := hwf.path_unique hx hpt
    exact ht ⟨r, by simp [hp]⟩
  · rintro ⟨rfl, rfl⟩
    obtain rfl := hwf.path_unique hx hpf
    exact hf ⟨r, by simp [hp]⟩

theorem walk_target {pf pt : List N} (hpf : s.walk s.root pf = some fd)
    (hpt : s.walk s.root pt = some td) : s'.walk s.root pt = some td := by
  rw [h.walk_other hwf hpf hpt, hpt]
  · rintro ⟨r, rfl⟩
    rw [List.append_assoc, walk_append_of_eq hpf, List.singleton_append, walk, h.source,
      Option.bind_some] at hpt
    exact h.not_walk_target hwf hpt
  · intro hinitial
    have hlength := hinitial.length_le
    simp only [List.length_append, List.length_singleton] at hlength
    omega

theorem walk_source {pf pt : List N} (hpf : s.walk s.root pf = some fd)
    (hpt : s.walk s.root pt = some td) : s'.walk s.root pf = some fd := by
  rw [h.walk_other hwf hpf hpt, hpf]
  · intro hinitial
    have hlength := hinitial.length_le
    simp only [List.length_append, List.length_singleton] at hlength
    omega
  · -- nothing is left below an object that gives way, and the source is bound in `fd`
    rintro ⟨r, rfl⟩
    rw [List.append_assoc, walk_append_of_eq hpt, List.singleton_append, walk] at hpf
    obtain ⟨j, hj, hr⟩ := Option.bind_eq_some_iff.mp hpf
    have hempty := h.replaced j hj
    obtain rfl := walk_of_empty hempty hr
    cases hr
    have hsource := h.source
    rw [hempty fn] at hsource
    cases hsource

end Renamed

/-- A rename moves everything below the old path to the new one, and nothing else. -/
theorem rename_paths (hwf : s.WellFormed) (hdistinct : ¬(fd = td ∧ fn = tn))
    (h : s.rename dot dotDot fd fn td tn = (.ok (), s')) {pf pt : List N}
    (hpf : s.walk s.root pf = some fd) (hpt : s.walk s.root pt = some td) :
    (∀ p, s'.walk s.root (pt ++ tn :: p) = s.walk s.root (pf ++ fn :: p)) ∧
    (∀ p, s'.walk s.root (pf ++ fn :: p) = none) ∧
    (∀ p, ¬(pf ++ [fn]) <+: p → ¬(pt ++ [tn]) <+: p →
      s'.walk s.root p = s.walk s.root p) ∧
    ∀ j, s.entry td tn ≠ some j → s'.object j = s.object j := by
  obtain ⟨i, h⟩ := rename_ok hwf hdistinct h
  refine ⟨?_, ?_, fun p => h.walk_other hwf hpf hpt, h.object⟩
  · intro p
    have hentry : s'.entry td tn = some i := by rw [h.entry, if_pos ⟨rfl, rfl⟩]
    rw [walk_append_of_eq (h.walk_target hwf hpf hpt), walk_append_of_eq hpf, walk, walk, hentry,
      h.source, Option.bind_some, Option.bind_some, h.walk_moved hwf hpf]
  · intro p
    have hentry : s'.entry fd fn = none := by
      rw [h.entry, if_neg hdistinct, if_pos ⟨rfl, rfl⟩]
    rw [walk_append_of_eq (h.walk_source hwf hpf hpt), walk, hentry, Option.bind_none]

end Rename

end Namespace
