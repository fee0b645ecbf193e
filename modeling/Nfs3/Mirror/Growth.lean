import Nfs3.Mirror.Machine

/-!
# The memory of the mirror only grows

No step of any request takes a handle back or gives it another path: the symbols cache is
extended and stays sound, whatever the host answers. So a handle that was once given out leads to
the same path for as long as the mirror runs, also across requests that run at the same time.
-/
namespace Nfs3.Mirror

open Interaction (Prog)

variable {T S : Type} [SymbolTable T S] [DecidableEq S]

namespace Fs

/-- A later state of the memory. -/
structure Later (fs fs' : Fs T S) : Prop where
  sound : fs'.cache.inner.Sound
  grows : fs.cache.inner.Extends fs'.cache.inner

variable {fs fs' fs₁ : Fs T S}

theorem Later.refl (hs : fs.cache.inner.Sound) : Later fs fs := ⟨hs, .refl _⟩

theorem Later.of_cache (hs : fs.cache.inner.Sound) (h : fs'.cache = fs.cache) : Later fs fs' := by
  constructor
  · rw [h]
    exact hs
  · rw [h]
    exact .refl _

theorem Later.trans (h : Later fs fs₁) (h' : Later fs₁ fs') : Later fs fs' :=
  ⟨h'.sound, h.grows.trans h'.grows⟩

/-! ## Handles -/

theorem sound_new (root : PathBuf) (retentionPeriod : ℕ) (maxCachedPerDir : UInt16) :
    (new root retentionPeriod maxCachedPerDir : Fs T S).cache.inner.Sound :=
  (Session.valid_new root).sound

/-- The path below the root that a handle leads to, what `handle_to_path` gives. -/
def relativePath (fs : Fs T S) (id : FileHandleU64) : Option PathBuf :=
  (fs.cache.inner.idToPath.lookup id).bind (resolvePath fs.cache.inner.symbols)

theorem relativePath_of_ends {id : FileHandleU64} {p : PathBuf}
    (h : (fs.exec (.handleToPath id)).Ends ((.ok p : Except Nfsstat3 PathBuf), fs')) :
    fs' = fs ∧ fs.relativePath id = some p := by
  obtain ⟨r, hr, heq⟩ := Prog.ends_bind.mp h
  obtain ⟨rfl, rfl⟩ := Prod.mk.inj heq
  refine ⟨rfl, ?_⟩
  unfold SymbolsCache.handleToPath at hr
  unfold relativePath
  cases hid : fs.cache.inner.idToPath.lookup id with
  | none =>
    rw [hid] at hr
    cases hr
  | some path =>
    rw [hid] at hr
    dsimp only at hr
    cases hresolve : resolvePath fs.cache.inner.symbols path with
    | none =>
      rw [hresolve] at hr
      cases hr
    | some q =>
      rw [hresolve] at hr
      cases hr
      simp [hresolve]

/-- A handle leads to the same path later. -/
theorem Later.relativePath_eq (h : Later fs fs') (hs : fs.cache.inner.Sound) {id : FileHandleU64}
    {p : PathBuf} (hid : fs.relativePath id = some p) : fs'.relativePath id = some p := by
  obtain ⟨path, hpath, hresolve⟩ := Option.bind_eq_some_iff.mp hid
  obtain ⟨ns, hns, rfl⟩ := Option.map_eq_some_iff.mp hresolve
  have hstored := h.grows.pathToId path id ((hs.inverse path id).mpr hpath)
  have hnames : names fs'.cache.inner.symbols path = some ns :=
    names_of_kept h.grows.symbols hns
  rw [relativePath, (h.sound.inverse path id).mp hstored]
  simp [resolvePath, hnames]

/-! ## Runs -/

/-- One step of some request, with any answers of the host. -/
def ExecStep (fs fs' : Fs T S) : Prop := ∃ c r, (fs.exec c).Ends (r, fs')

/-- The program runs to its end while steps of other requests happen in between. -/
inductive RunsAmid {α : Type} : FsProg α → Fs T S → α → Fs T S → Prop
  | ret (a : α) (fs : Fs T S) : RunsAmid (.ret a) fs a fs
  | ask {c : FsCall} {next : c.Reply → FsProg α} {fs fs₁ fs' : Fs T S} {r : c.Reply} {a : α}
      (step : (fs.exec c).Ends (r, fs₁)) (rest : RunsAmid (next r) fs₁ a fs') :
      RunsAmid (.ask c next) fs a fs'
  | other {m : FsProg α} {fs fs₁ fs' : Fs T S} {a : α} (step : ExecStep fs fs₁)
      (rest : RunsAmid m fs₁ a fs') : RunsAmid m fs a fs'

theorem RunsAmid.of_ret {α : Type} {a b : α} (h : RunsAmid (.ret a) fs b fs') :
    b = a ∧ Relation.ReflTransGen ExecStep fs fs' := by
  generalize hret : (Prog.ret a : FsProg α) = m at h
  induction h with
  | ret b fs =>
    cases hret
    exact ⟨rfl, .refl⟩
  | ask _ _ => cases hret
  | other step _ ih =>
    obtain ⟨hb, hsteps⟩ := ih hret
    exact ⟨hb, .head step hsteps⟩

/-- The answer to a single question was given in some state on the way. -/
theorem RunsAmid.of_ask {c : FsCall} {r : c.Reply} (h : RunsAmid (.ask c .ret) fs r fs') :
    ∃ fs₁ fs₂, Relation.ReflTransGen ExecStep fs fs₁ ∧ (fs₁.exec c).Ends (r, fs₂) ∧
      Relation.ReflTransGen ExecStep fs₂ fs' := by
  generalize hask : (Prog.ask c .ret : FsProg c.Reply) = m at h
  induction h with
  | ret r fs => cases hask
  | @ask c' next fs fs₁ fs' r' a step rest ih =>
    cases hask
    obtain ⟨rfl, hsteps⟩ := rest.of_ret
    exact ⟨fs, fs₁, .refl, step, hsteps⟩
  | other step _ ih =>
    obtain ⟨fs₁, fs₂, hbefore, hends, hafter⟩ := ih hask
    exact ⟨fs₁, fs₂, .head step hbefore, hends, hafter⟩

/-- A program in two parts runs its first part first. -/
theorem RunsAmid.of_bind {α β : Type} {m : FsProg α} {f : α → FsProg β} {b : β}
    (h : RunsAmid (m.bind f) fs b fs') :
    ∃ a fs₁, RunsAmid m fs a fs₁ ∧ RunsAmid (f a) fs₁ b fs' := by
  generalize hbind : m.bind f = n at h
  induction h generalizing m with
  | ret b fs =>
    cases m with
    | ret a =>
      have hf : f a = .ret b := hbind
      exact ⟨a, fs, .ret a fs, hf ▸ .ret b fs⟩
    | halt => cases hbind
    | ask c next => cases hbind
  | @ask c next fs fs₁ fs' r b step rest ih =>
    cases m with
    | ret a =>
      have hf : f a = .ask c next := hbind
      exact ⟨a, fs, .ret a fs, hf ▸ .ask step rest⟩
    | halt => cases hbind
    | ask c' next' =>
      cases hbind
      obtain ⟨a, fs₂, hfirst, hsecond⟩ := ih rfl
      exact ⟨a, fs₂, .ask step hfirst, hsecond⟩
  | other step _ ih =>
    obtain ⟨a, fs₂, hfirst, hsecond⟩ := ih hbind
    exact ⟨a, fs₂, .other step hfirst, hsecond⟩

/-- A run alone on a host is one with no other steps in between. -/
theorem runsAmid_of_runIn {W α : Type} {host : HostFs W} {m : FsProg α} {a : α}
    {s s' : Machine T S W} (h : m.runIn (Machine.exec host) s = some (a, s')) :
    RunsAmid m s.fs a s'.fs := by
  induction m generalizing s with
  | ret b =>
    cases h
    exact .ret a _
  | halt => cases h
  | ask c next ih =>
    obtain ⟨⟨r, s₁⟩, hexec, hrest⟩ := Option.bind_eq_some_iff.mp h
    exact .ask (Machine.ends_of_exec hexec) (ih r hrest)

theorem reached_of_runIn {W α : Type} {host : HostFs W} {m : FsProg α} {a : α}
    {s s' : Machine T S W} (h : m.runIn (Machine.exec host) s = some (a, s')) :
    Relation.ReflTransGen ExecStep s.fs s'.fs := by
  have hanswer : ∀ (t : Machine T S W) c r t', Relation.ReflTransGen ExecStep s.fs t.fs →
      t.exec host c = some (r, t') → Relation.ReflTransGen ExecStep s.fs t'.fs := by
    intro t c r t' hreach hexec
    exact hreach.tail ⟨c, r, Machine.ends_of_exec hexec⟩
  exact Prog.runIn_invariant hanswer .refl h

/-! ## Steps -/

theorem later_initializeReadDir (hs : fs.cache.inner.Sound) (dirid : FileHandleU64)
    (cookie : UInt64) :
    (fs.initializeReadDir dirid cookie).Meets (fun _ => True) fun r => Later fs r.2 := by
  unfold initializeReadDir
  rw [Prog.meets_bind]
  refine Prog.Meets.of_forall fun path => ?_
  cases path with
  | error stat => exact .refl hs
  | ok relativePath =>
    dsimp only
    split_ifs
    · refine ⟨trivial, fun metadata => ?_⟩
      cases metadata with
      | error kind => exact .refl hs
      | ok metadata =>
        dsimp only
        split_ifs
        · refine ⟨trivial, fun readDir => ?_⟩
          cases readDir with
          | error kind => exact .refl hs
          | ok readDir => exact .of_cache hs rfl
        · exact .refl hs
    · split
      · exact .of_cache hs rfl
      · exact .of_cache hs rfl

variable [LawfulSymbolTable T S]

theorem later_lookup (hs : fs.cache.inner.Sound) {parent : SymbolsPath S} {id : FileHandleU64}
    (hparent : fs.cache.inner.idToPath.lookup id = some parent) (name : OsString)
    (checkPath : Bool) :
    (fs.cache.lookup parent name checkPath).Meets (fun _ => True)
      fun r => Later fs { fs with cache := r.2 } := by
  apply Prog.Meets.of_ends (Prog.Meets.of_forall fun _ => trivial)
  rintro ⟨r, cache⟩ hends
  have hlooked := Session.looked_of_lookup hends
  exact ⟨hlooked.sound hs ((hs.inverse _ _).mpr hparent), hlooked.extends⟩

theorem later_lookupById (hs : fs.cache.inner.Sound) (parentId : FileHandleU64) (name : OsString)
    (checkPath : Bool) :
    (fs.cache.lookupById parentId name checkPath).Meets (fun _ => True)
      fun r => Later fs { fs with cache := r.2 } := by
  unfold SymbolsCache.lookupById SymbolsCache.symbolsPath
  cases hparent : fs.cache.inner.idToPath.lookup parentId with
  | none => exact .refl hs
  | some parent => exact later_lookup hs hparent name checkPath

theorem later_nextEntryCommon (hs : fs.cache.inner.Sound) (iter : MirrorFsIterator) :
    (fs.nextEntryCommon iter).Meets (fun _ => True) fun r => Later fs r.2.2 := by
  unfold nextEntryCommon
  split
  · exact .refl hs
  split
  · exact .refl hs
  · exact .refl hs
  rename_i name pending _
  dsimp only
  unfold SymbolsCache.symbolsPath
  cases hparent : fs.cache.inner.idToPath.lookup iter.dirid with
  | none => exact .refl hs
  | some parent =>
    dsimp only
    rw [Prog.meets_bind]
    refine (later_lookup hs hparent name.name false).mono ?_
    rintro ⟨r, cache⟩ hlater
    cases r with
    | error stat => exact hlater
    | ok handle => exact hlater

theorem later_nextPlusLoop (fuel : ℕ) (hs : fs.cache.inner.Sound) (iter : MirrorFsIterator) :
    (nextPlusLoop fuel fs iter).Meets (fun _ => True) fun r => Later fs r.2.2 := by
  induction fuel generalizing fs iter with
  | zero => trivial
  | succ fuel ih =>
    unfold nextPlusLoop
    rw [Prog.meets_bind]
    refine (later_nextEntryCommon hs iter).mono ?_
    rintro ⟨entry, iter', fs₁⟩ hlater
    cases entry with
    | eof => exact hlater
    | err stat => exact hlater
    | ok entry =>
      dsimp only
      rw [Prog.meets_bind]
      refine Prog.Meets.of_forall fun path => ?_
      cases path with
      | error stat => exact (ih hlater.sound iter').mono fun _ h => hlater.trans h
      | ok relativePath => exact ⟨trivial, fun _ => hlater⟩

theorem later_exec (hs : fs.cache.inner.Sound) (c : FsCall) :
    (fs.exec c).Meets (fun _ => True) fun r => Later fs r.2 := by
  cases c with
  | host c => exact ⟨trivial, fun _ => .refl hs⟩
  | handleToPath id =>
    refine Prog.meets_bind.mpr ?_
    exact Prog.Meets.of_forall fun _ => .refl hs
  | lookupById parentId name checkPath =>
    refine Prog.meets_bind.mpr ?_
    exact (later_lookupById hs parentId name checkPath).mono fun _ h => h
  | getOrCreateIterator dirid cookie =>
    refine Prog.meets_bind.mpr ?_
    refine (later_initializeReadDir hs dirid cookie).mono ?_
    rintro ⟨r, fs₁⟩ hlater
    cases r with
    | error stat => exact hlater
    | ok found => exact hlater
  | next iter =>
    refine Prog.meets_bind.mpr (Prog.meets_bind.mpr ?_)
    refine (later_nextEntryCommon hs iter).mono ?_
    rintro ⟨r, iter', fs₁⟩ hlater
    cases r with
    | eof => exact hlater
    | err stat => exact hlater
    | ok entry => exact hlater
  | nextPlus iter =>
    refine Prog.meets_bind.mpr ?_
    exact (later_nextPlusLoop _ hs iter).mono fun _ h => h
  | drop iter now =>
    apply Later.of_cache hs
    show (fs.drop iter now).cache = fs.cache
    unfold drop
    split
    · rfl
    · rfl

/-! ## Any number of steps -/

theorem ExecStep.later (h : ExecStep fs fs') (hs : fs.cache.inner.Sound) : Later fs fs' := by
  obtain ⟨c, r, hends⟩ := h
  exact (later_exec hs c).ends hends

theorem later_of_run (hs : fs.cache.inner.Sound) (h : Relation.ReflTransGen ExecStep fs fs') :
    Later fs fs' := by
  induction h with
  | refl => exact .refl hs
  | tail _ hstep ih => exact ih.trans (hstep.later ih.sound)

theorem RunsAmid.later {α : Type} {m : FsProg α} {a : α} (h : RunsAmid m fs a fs')
    (hs : fs.cache.inner.Sound) : Later fs fs' := by
  induction h with
  | ret a fs => exact .refl hs
  | ask step _ ih =>
    have hstep := ExecStep.later ⟨_, _, step⟩ hs
    exact hstep.trans (ih hstep.sound)
  | other step _ ih =>
    have hstep := step.later hs
    exact hstep.trans (ih hstep.sound)

end Fs

end Nfs3.Mirror
