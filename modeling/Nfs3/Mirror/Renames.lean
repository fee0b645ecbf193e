import Nfs3.Mirror.Confinement
import Nfs3.Mirror.Growth
import Nfs3.Mirror.Recreate

/-!
# Handles across a rename

After a rename the handles of what was moved should lead to where it is now. The source looks
the two names up at the end of a rename to "invalidate cache entries", but a lookup only ever
adds to the cache: every handle goes on leading to the path it was given out for. Host paths are
compared, since the names that clients give may be absolute and may have more components than one.
-/
namespace Nfs3.Mirror

open Interaction (Prog)

namespace Fs

variable {T S : Type} [SymbolTable T S] [DecidableEq S] {fs fs' : Fs T S} {root : PathBuf}
  {fromDirid toDirid : FileHandleU64} {fromFilename toFilename : Filename3}

/-- What a rename of the host path `source` to `target` should do to the handles given out before
it: none of them leads to the old place or below it, and those that did lead to the same place
below the new one. `locate` says where the host finds a path, by the components below its own
root: by the text of the path alone, or also following symbolic links. -/
structure HandlesFollow (locate : PathBuf → List OsString) (root : PathBuf) (fs fs' : Fs T S)
    (source target : PathBuf) : Prop where
  vacated : ∀ id p, (fs.relativePath id).isSome → fs'.relativePath id = some p →
    ¬locate source <+: locate (root.join p)
  moved : ∀ id p rest, fs.relativePath id = some p →
    locate (root.join p) = locate source ++ rest →
    ∃ p', fs'.relativePath id = some p' ∧ locate (root.join p') = locate target ++ rest

theorem handlesFollow_iff {locate : PathBuf → List OsString} {source target : PathBuf}
    (hkept : ∀ id p, fs.relativePath id = some p → fs'.relativePath id = some p) :
    HandlesFollow locate root fs fs' source target ↔
      ∀ id p, fs.relativePath id = some p → ¬locate source <+: locate (root.join p) := by
  constructor
  · intro h id p hid
    exact h.vacated id p (by simp [hid]) (hkept id p hid)
  · intro hnone
    constructor
    · intro id p' hsome hid
      obtain ⟨p, hp⟩ := Option.isSome_iff_exists.mp hsome
      have hsame := hkept id p hp
      rw [hid] at hsame
      cases hsame
      exact hnone id p' hp
    · intro id p rest hid hbelow
      exact absurd ⟨rest, hbelow.symm⟩ (hnone id p hid)

theorem RunsAmid.of_andThen {ε α β : Type} {m : ExceptT ε FsProg α} {f : α → ExceptT ε FsProg β}
    {b : β} (h : RunsAmid (m >>= f).run fs (.ok b) fs') :
    ∃ a fs₁, RunsAmid m.run fs (.ok a) fs₁ ∧ RunsAmid (f a).run fs₁ (.ok b) fs' := by
  obtain ⟨r, fs₁, hfirst, hrest⟩ := RunsAmid.of_bind h
  cases r with
  | ok a => exact ⟨a, fs₁, hfirst, hrest⟩
  | error e => cases hrest.of_ret.1

theorem RunsAmid.of_path [LawfulSymbolTable T S] {p : PathBuf} {id : FileHandleU64}
    (hs : fs.cache.inner.Sound) (h : RunsAmid (path root id).run fs (.ok p) fs') :
    ∃ q, fs'.relativePath id = some q ∧ p = root.join q := by
  obtain ⟨q, fs₁, hask, hret⟩ := RunsAmid.of_andThen h
  obtain ⟨hp, hafter⟩ := RunsAmid.of_ret (a := (.ok (root.join q) : Except Nfsstat3 PathBuf)) hret
  obtain ⟨fs₂, fs₃, hbefore, hends, hbetween⟩ := RunsAmid.of_ask (c := .handleToPath id) hask
  obtain ⟨rfl, hpath⟩ := relativePath_of_ends hends
  have hs₃ := (later_of_run hs hbefore).sound
  have hlater := later_of_run hs₃ (hbetween.trans hafter)
  exact ⟨q, hlater.relativePath_eq hs₃ hpath, Except.ok.inj hp⟩

theorem RunsAmid.of_rename [LawfulSymbolTable T S] (hs : fs.cache.inner.Sound)
    (h : RunsAmid (rename root fromDirid fromFilename toDirid toFilename).run fs (.ok ()) fs') :
    ∃ fromDir toDir, fs'.relativePath fromDirid = some fromDir ∧
      fs'.relativePath toDirid = some toDir := by
  unfold rename at h
  dsimp only at h
  split at h
  · cases (RunsAmid.of_ret h).1
  · obtain ⟨p, fs₁, hfrom, h⟩ := RunsAmid.of_andThen h
    obtain ⟨p', fs₂, hto, h⟩ := RunsAmid.of_andThen h
    have hs₁ := (hfrom.later hs).sound
    have hs₂ := (hto.later hs₁).sound
    obtain ⟨fromDir, hfromDir, -⟩ := hfrom.of_path hs
    obtain ⟨toDir, htoDir, -⟩ := hto.of_path hs₁
    exact ⟨fromDir, toDir, ((hto.later hs₁).trans (h.later hs₂)).relativePath_eq hs₁ hfromDir,
      (h.later hs₂).relativePath_eq hs₂ htoDir⟩

/-- In every state that the mirror can be in, and with other requests running at the same time:
the handles given out before a rename follow it if and only if none of them led to its source or
below it, wherever the host finds the paths. -/
theorem rename_followed_iff [LawfulSymbolTable T S] {retentionPeriod : ℕ}
    {maxCachedPerDir : UInt16}
    (hreach : Relation.ReflTransGen ExecStep (new root retentionPeriod maxCachedPerDir) fs)
    (hrun : RunsAmid (rename root fromDirid fromFilename toDirid toFilename).run fs (.ok ()) fs') :
    ∃ fromDir toDir, fs'.relativePath fromDirid = some fromDir ∧
      fs'.relativePath toDirid = some toDir ∧
      let fromPath := (root.join fromDir).join (Filename3.asOsStr fromFilename)
      let toPath := (root.join toDir).join (Filename3.asOsStr toFilename)
      ∀ locate : PathBuf → List OsString, HandlesFollow locate root fs fs' fromPath toPath ↔
        ∀ id p, fs.relativePath id = some p → ¬locate fromPath <+: locate (root.join p) := by
  have hs := (later_of_run (sound_new root retentionPeriod maxCachedPerDir) hreach).sound
  obtain ⟨fromDir, toDir, hfrom, hto⟩ := hrun.of_rename hs
  refine ⟨fromDir, toDir, hfrom, hto, fun locate => handlesFollow_iff ?_⟩
  intro id p hid
  exact (hrun.later hs).relativePath_eq hs hid

/-- A mirror of a root with the file `f` in it. -/
def sampleStart : Machine ListTable ℕ (List PathBuf) := ⟨.new [sep] 60 20, [[sep, 0x66]]⟩

def sampleRename : FsM Unit :=
  rename [sep] SymbolsCache.rootId ⟨⟨[0x66]⟩⟩ SymbolsCache.rootId ⟨⟨[0x67]⟩⟩

/-- Whether the request succeeded, and the paths of the first handles after it. -/
def sampleOutcome : Except Nfsstat3 Unit × Machine ListTable ℕ (List PathBuf) →
    Bool × Option PathBuf × Option PathBuf
  | (r, s) => (r.toBool, s.fs.relativePath 1, s.fs.relativePath 2)

theorem ok_of_sampleOutcome {m : FsM Unit} {s : Machine ListTable ℕ (List PathBuf)}
    {root file : Option PathBuf}
    (h : (m.run.runIn (Machine.exec Machine.flatHost) s).map sampleOutcome =
      some (true, root, file)) :
    ∃ s', m.run.runIn (Machine.exec Machine.flatHost) s = some (.ok (), s') ∧
      s'.fs.relativePath 1 = root ∧ s'.fs.relativePath 2 = file := by
  obtain ⟨⟨r, s'⟩, hrun, heq⟩ := Option.map_eq_some_iff.mp h
  simp only [sampleOutcome, Prod.mk.injEq] at heq
  obtain ⟨hr, hroot, hfile⟩ := heq
  cases r with
  | ok u => exact ⟨s', hrun, hroot, hfile⟩
  | error stat => cases hr

theorem rename_followed_without_handle : ∃ fs',
    RunsAmid sampleRename.run sampleStart.fs (.ok ()) fs' ∧
      HandlesFollow segments [sep] sampleStart.fs fs' [sep, 0x66] [sep, 0x67] := by
  have houtcome : (sampleRename.run.runIn (Machine.exec Machine.flatHost) sampleStart).map
      sampleOutcome = some (true, some [], some [0x66]) := by decide +kernel
  obtain ⟨s', hrun, hroot, -⟩ := ok_of_sampleOutcome houtcome
  have hamid := runsAmid_of_runIn hrun
  obtain ⟨fromDir, toDir, hfrom, hto, hiff⟩ := rename_followed_iff .refl hamid
  have hfromDir : [] = fromDir := Option.some.inj (hroot.symm.trans hfrom)
  have htoDir : [] = toDir := Option.some.inj (hroot.symm.trans hto)
  subst hfromDir htoDir
  refine ⟨s'.fs, hamid, (hiff segments).mpr ?_⟩
  intro id p hid hbelow
  by_cases hone : id = 1
  · subst hone
    have hp : [] = p := Option.some.inj hid
    subst hp
    exact absurd hbelow (by decide)
  · have hnone : sampleStart.fs.cache.inner.idToPath.lookup id = none := by
      exact AList.lookup_insert_ne hone
    have hnowhere : sampleStart.fs.relativePath id = none := by simp [relativePath, hnone]
    cases hnowhere.symm.trans hid

theorem rename_leaves_handle : ∃ fs fs' : Fs ListTable ℕ,
    Relation.ReflTransGen ExecStep (.new [sep] 60 20) fs ∧
      RunsAmid sampleRename.run fs (.ok ()) fs' ∧
      fs.relativePath 2 = some [0x66] ∧ fs'.relativePath 2 = some [0x66] ∧
      ∀ locate, ¬HandlesFollow locate [sep] fs fs' [sep, 0x66] [sep, 0x67] := by
  let sampleLookup : FsM Unit := ignore (lookup SymbolsCache.rootId ⟨⟨[0x66]⟩⟩)
  have hlooked : (sampleLookup.run.runIn (Machine.exec Machine.flatHost) sampleStart).map
      sampleOutcome = some (true, some [], some [0x66]) := by decide +kernel
  have houtcome : ((sampleLookup >>= fun _ => sampleRename).run.runIn
      (Machine.exec Machine.flatHost) sampleStart).map sampleOutcome =
        some (true, some [], some [0x66]) := by decide +kernel
  obtain ⟨s, hlookup, -, hbefore⟩ := ok_of_sampleOutcome hlooked
  obtain ⟨s', hboth, -, hafter⟩ := ok_of_sampleOutcome houtcome
  have hrename : sampleRename.run.runIn (Machine.exec Machine.flatHost) s = some (.ok (), s') := by
    change (Prog.bind sampleLookup.run _).runIn _ _ = _ at hboth
    rw [Prog.runIn_bind, hlookup] at hboth
    exact hboth
  refine ⟨s.fs, s'.fs, reached_of_runIn hlookup, runsAmid_of_runIn hrename, hbefore, hafter, ?_⟩
  intro locate hfollow
  exact hfollow.vacated 2 [0x66] (by simp [hbefore]) hafter List.prefix_rfl

end Fs

end Nfs3.Mirror
