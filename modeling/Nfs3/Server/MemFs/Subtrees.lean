import Nfs3.Server.MemFs.Configured
import Nfs3.Server.MemFs.Refinement

/-!
# Renames move whole subtrees

Clients name objects by handles, but a mount resolves a path. In every state that regular
requests lead to, a path of ordinary components resolves as it does in the namespace, so that a
rename moves what is below the old path to the new one and leaves all other paths alone. Nothing
below the old path is touched for that: the parent field of the entry that moves is the only one
that changes.
-/
namespace Nfs3.Memfs

variable {s s' : MemFs} {order : HashOrder}

theorem resolve_toOption (hn : s.fs.Named) (ht : s.fs.Tree) (id : FileHandleU64) (p : Path) :
    ((lookupFs order s).resolve () id (p.map Component.filename)).1.toOption =
      s.fs.names.walk id (p.map Component.filename) := by
  induction p generalizing id with
  | nil => rfl
  | cons c p ih =>
    simp only [List.map_cons, LookupFs.resolve, Namespace.walk]
    rcases hn.lookup_specified order id c.filename with
      ⟨e, hlookup, -, hspec⟩ | ⟨f, hlookup, hspec⟩
    · have hentry := (Namespace.lookup_ordinary c.filename_ne_dot c.filename_ne_dotDot).mp hspec
      have hresult : (lookupFs order s).lookup () id c.filename = (.ok e.fileid, ()) := by
        simp [lookupFs, hlookup, Except.map]
      rw [hresult, hentry.2, Option.bind_some]
      exact ih e.fileid
    · have hresult : (lookupFs order s).lookup () id c.filename = (.error (stat f), ()) := by
        simp [lookupFs, hlookup, Except.map]
      have hentry : s.fs.names.entry id c.filename = none := by
        by_contra hsome
        obtain ⟨i, hi⟩ := Option.ne_none_iff_exists'.mp hsome
        have hdir := (ht.wellFormed hn).dirs hi
        have hok := (Namespace.lookup_ordinary c.filename_ne_dot c.filename_ne_dotDot).mpr
          ⟨hdir, hi⟩
        rw [hspec] at hok
        cases hok
      rw [hresult, hentry]
      rfl

theorem pathToIdImpl_resolve (p : Path) : s.pathToIdImpl order p.text =
    ((lookupFs order s).resolve () s.rootdir (p.map Component.filename)).1 := by
  rw [pathToIdImpl_eq, Path.text, String.toList_ofList, Path.names_chars]

theorem pathToIdImpl_toOption (hn : s.fs.Named) (ht : s.fs.Tree) (p : Path) :
    (s.pathToIdImpl order p.text).toOption =
      s.fs.names.walk s.rootdir (p.map Component.filename) := by
  rw [pathToIdImpl_resolve, resolve_toOption hn ht]

/-- `s'` is `s` with everything below `pf/fn` below `pt/tn` instead. -/
structure SubtreeMoved (s : MemFs) (pf : Path) (fn : Component) (pt : Path) (tn : Component)
    (s' : MemFs) : Prop where
  moved : ∀ order order' p, (s'.pathToIdImpl order' (Path.text (pt ++ tn :: p))).toOption =
    (s.pathToIdImpl order (Path.text (pf ++ fn :: p))).toOption
  vacated : ∀ order p, (s'.pathToIdImpl order (Path.text (pf ++ fn :: p))).toOption = none
  others : ∀ order order' p, ¬(pf ++ [fn]) <+: p → ¬(pt ++ [tn]) <+: p →
    (s'.pathToIdImpl order' (Path.text p)).toOption =
      (s.pathToIdImpl order (Path.text p)).toOption
  objects : ∀ order i, s.pathToIdImpl order (Path.text (pt ++ [tn])) ≠ .ok i →
    (s'.fs.get i).map Entry.object = (s.fs.get i).map Entry.object

theorem rename_names {env : Env} {fd td : FileHandleU64} {fn tn : Component} {reply : Reply}
    (ht : s.fs.Tree) (hn : s.fs.Named)
    (h : s.exec ⟨env, .rename fd fn.filename td tn.filename⟩ = some (.ok reply, s')) :
    s'.fs.Tree ∧ s'.fs.Named ∧ s'.rootdir = s.rootdir ∧
      s.fs.names.rename dot dotDot fd fn.filename td tn.filename = (.ok (), s'.fs.names) := by
  have hdot := fn.filename_ne_dot
  have hdotDot := fn.filename_ne_dotDot
  obtain ⟨r, fs', hrename, hr, hstate⟩ := MemFs.lift_eq_some h
  cases r with
  | error e => cases hr
  | ok _ =>
    have htears := MemFs.not_tears_of_ok hn.keyed (congrArg (Option.map Prod.fst) hrename)
    have hregular : s.Regular ⟨env, .change (.rename fd fn.filename td tn.filename)⟩ :=
      ⟨hdot, hdotDot, htears⟩
    have ht' := MemFs.exec_tree ht hn hregular h
    have hkeeps : s.KeepsNames ⟨env, .rename fd fn.filename td tn.filename⟩ := ⟨hdot, hdotDot⟩
    have hn' := MemFs.step_named hn hkeeps (congrArg (Option.map Prod.snd) h)
    subst hstate
    refine ⟨ht', hn', rfl, ?_⟩
    obtain ⟨fs₂, hspec, hnames⟩ := Fs.rename_specified ht hn hdot hdotDot htears
    rw [hrename, Option.some.injEq, Prod.mk.injEq] at hspec
    obtain ⟨hok, rfl⟩ := hspec
    rw [hnames]
    rcases hres : s.fs.names.rename dot dotDot fd fn.filename td tn.filename with ⟨r, s₂⟩
    rw [hres] at hok
    cases r with
    | error e => cases hok
    | ok _ => rfl

theorem Sound.subtreeMoved {n : ℕ} {env : Env} {pf pt : Path} {fn tn : Component}
    {fd td : FileHandleU64} {reply : Reply} (hs : s.Sound n)
    (hpf : s.pathToIdImpl env.order pf.text = .ok fd)
    (hpt : s.pathToIdImpl env.order pt.text = .ok td) (hdistinct : pf ++ [fn] ≠ pt ++ [tn])
    (h : s.exec ⟨env, .rename fd fn.filename td tn.filename⟩ = some (.ok reply, s')) :
    SubtreeMoved s pf fn pt tn s' := by
  have ht := hs.tree
  have hn := hs.named
  obtain ⟨ht', hn', hrootdir, hrename⟩ := rename_names ht hn h
  have hwf := ht.wellFormed hn
  have hpath : ∀ order (p : Path), (s.pathToIdImpl order p.text).toOption =
      s.fs.names.walk s.fs.names.root (p.map Component.filename) := by
    intro order p
    rw [pathToIdImpl_toOption hn ht, ← hs.root]
    rfl
  have hpath' : ∀ order (p : Path), (s'.pathToIdImpl order p.text).toOption =
      s'.fs.names.walk s.fs.names.root (p.map Component.filename) := by
    intro order p
    rw [pathToIdImpl_toOption hn' ht', hrootdir, ← hs.root]
    rfl
  have hwalkf := hpath env.order pf
  have hwalkt := hpath env.order pt
  rw [hpf] at hwalkf
  rw [hpt] at hwalkt
  -- the two paths are different, so they are different bindings
  have hne : ¬(fd = td ∧ fn.filename = tn.filename) := by
    rintro ⟨rfl, hname⟩
    have hmap := hwf.path_unique hwalkf.symm hwalkt.symm
    have hpaths : pf = pt := List.map_injective_iff.mpr (fun _ _ => Component.filename_inj) hmap
    exact hdistinct (by rw [hpaths, Component.filename_inj hname])
  obtain ⟨hmoved, hvacated, hothers, hobjects⟩ :=
    Namespace.rename_paths hwf hne hrename hwalkf.symm hwalkt.symm
  have hroot : s'.fs.names.root = s.fs.names.root := MemFs.exec_root h
  have hinitial : ∀ p q : Path, p.map Component.filename <+: q.map Component.filename ↔ p <+: q :=
    fun p q => List.prefix_map_iff_of_injective fun _ _ => Component.filename_inj
  constructor
  · intro order order' p
    rw [hpath, hpath']
    simpa using hmoved (p.map Component.filename)
  · intro order p
    rw [hpath']
    simpa using hvacated (p.map Component.filename)
  · intro order order' p hf ht
    rw [hpath, hpath']
    refine hothers _ ?_ ?_
    · simpa using fun hpre => hf ((hinitial _ _).mp (by simpa using hpre))
    · simpa using fun hpre => ht ((hinitial _ _).mp (by simpa using hpre))
  · intro order i hi
    refine hobjects i ?_
    intro hentry
    have htarget := hpath order (pt ++ [tn])
    rw [List.map_append, Namespace.walk_append_of_eq hwalkt.symm, List.map_singleton,
      Namespace.walk, hentry] at htarget
    cases hresult : s.pathToIdImpl order (Path.text (pt ++ [tn])) with
    | error e =>
      rw [hresult] at htarget
      cases htarget
    | ok j =>
      rw [hresult] at htarget hi
      cases htarget
      exact hi rfl

/-- In every state that regular requests lead to from the configured one, a rename that succeeds
moves what is below the old path to the new one, and nothing else. -/
theorem rename_moves_subtree {build : Build} {currentTime : Nfstime3} {envs : ℕ → Env}
    {config : MemFsConfig} {start : MemFs} {queries : List Query}
    (honce : MemFs.AddsOnce currentTime envs config)
    (hnew : MemFs.new currentTime envs config = some (.ok start))
    (hn : config.entries.length + queries.length + 1 < 2 ^ 64)
    (hregular : Transition.Along (fun s q => (MemFs.serve build s q).map Prod.snd) MemFs.Regular
      start queries)
    (hrun : Transition.run (fun s q => (MemFs.serve build s q).map Prod.snd) start queries = some s)
    {env : Env} {pf pt : Path} {fn tn : Component} {fd td : FileHandleU64} {reply : Reply}
    (hpf : s.pathToIdImpl env.order pf.text = .ok fd)
    (hpt : s.pathToIdImpl env.order pt.text = .ok td) (hdistinct : pf ++ [fn] ≠ pt ++ [tn])
    (h : s.exec ⟨env, .rename fd fn.filename td tn.filename⟩ = some (.ok reply, s')) :
    SubtreeMoved s pf fn pt tn s' :=
  Sound.subtreeMoved (MemFs.run_sound (MemFs.sound_new (by omega) honce hnew) hn hregular hrun)
    hpf hpt hdistinct h

def sampleComponent (c : Char) (h : c ≠ '/' ∧ c ≠ '.') : Component where
  name := [c]
  ne_nil := by simp
  no_slash := by simpa using h.1.symm
  ne_dot := by simpa using h.2
  ne_dotDot := by simp

/-- A directory `c` besides the configured ones. -/
def sampleMkdir : List Query := [⟨MemFs.sampleEnv, .change (.mkdir 1 ⟨⟨[0x63]⟩⟩)⟩]

theorem rename_moves_subtree_sampleAdds :
    let a := sampleComponent 'a' (by decide)
    let c := sampleComponent 'c' (by decide)
    let d := sampleComponent 'd' (by decide)
    ∃ start s s', MemFs.new ⟨0, 0⟩ (fun _ => MemFs.sampleEnv) (configOf sampleAdds) =
        some (.ok start) ∧
      Transition.run (fun s q => (MemFs.serve .checked s q).map Prod.snd) start sampleMkdir =
        some s ∧ SubtreeMoved s [] a [c] d s' ∧
      s.pathToIdImpl .ascending (Path.text [a, a]) = .ok 3 ∧
      s'.pathToIdImpl .ascending (Path.text [c, d, a]) = .ok 3 := by
  intro a c d
  obtain ⟨start, hnew, hb⟩ := built_new proper_sampleAdds (by decide) ⟨0, 0⟩
    fun _ => MemFs.sampleEnv
  have hrun : (MemFs.new ⟨0, 0⟩ (fun _ => MemFs.sampleEnv) (configOf sampleAdds)).map (fun r =>
      r.toOption.bind fun start =>
        (Transition.run (fun s q => (MemFs.serve .checked s q).map Prod.snd) start
          sampleMkdir).bind fun s =>
        (s.exec ⟨MemFs.sampleEnv, .rename 1 a.filename 4 d.filename⟩).map fun p =>
          (decide (start.nextid = 4 ∧ start.fs.NameFree 1 ⟨⟨[0x63]⟩⟩), p.1,
            [((lookupFs .ascending s).resolve () s.rootdir []).1,
              ((lookupFs .ascending s).resolve () s.rootdir [c.filename]).1,
              ((lookupFs .ascending s).resolve () s.rootdir [a.filename, a.filename]).1,
              ((lookupFs .ascending p.2).resolve () p.2.rootdir
                [c.filename, d.filename, a.filename]).1])) =
      some (some (true, .ok ⟨none, none⟩, [.ok 1, .ok 4, .ok 3, .ok 3])) := by
    simp only [MemFs.new, entries_configOf, sampleAdds, List.map, List.mapIdx_cons,
      List.mapIdx_nil, MemFs.configure, MemFs.addConfigured, pathToIdImpl_eq, Addition.entry,
      String.toList_ofList]
    decide +kernel
  rw [hnew, Option.map_some, Option.some.injEq, Except.toOption, Option.bind_some] at hrun
  obtain ⟨s, hs, hrename⟩ := Option.bind_eq_some_iff.mp hrun
  obtain ⟨⟨r, s'⟩, hexec, heq⟩ := Option.map_eq_some_iff.mp hrename
  simp only [Prod.mk.injEq, decide_eq_true_eq, List.cons.injEq, and_true] at heq
  obtain ⟨⟨hnextid, hfree⟩, rfl, hroot, hc, haa, hpath⟩ := heq
  have hlength : (configOf sampleAdds).entries.length = 2 := by
    rw [entries_configOf]
    rfl
  have hregular : Transition.Along (fun s q => (MemFs.serve .checked s q).map Prod.snd)
      MemFs.Regular start sampleMkdir := by
    refine ⟨⟨?_, by decide, by decide, hfree⟩, fun _ _ => trivial⟩
    rw [hnextid]
    decide
  have hmoved : SubtreeMoved s [] a [c] d s' := by
    refine rename_moves_subtree
      (MemFs.addsOnce_configOf proper_sampleAdds (by decide) ⟨0, 0⟩ _) hnew
      (by rw [hlength]; decide) hregular hs ?_ ?_ (by decide) hexec
    · rw [pathToIdImpl_resolve]
      exact hroot
    · rw [pathToIdImpl_resolve]
      exact hc
  refine ⟨start, s, s', hnew, hs, hmoved, ?_, ?_⟩
  · rw [pathToIdImpl_resolve]
    exact haa
  · rw [pathToIdImpl_resolve]
    exact hpath

end Nfs3.Memfs
