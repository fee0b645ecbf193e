import Nfs3.Server.MemFs.Config
import Nfs3.Server.MemFs.Handles

/-!
# Exclusive creation

A client that repeats `create_exclusive` is to get the file it made, and nobody else's. The
only trace of how a file came into being is its verifier, which a file that was made without
one has too: eight zero bytes.
-/
namespace Nfs3.Memfs

open ByteOrder (Bytes)

/-- `createverf3::default()`. -/
def noVerf : Createverf3 := ⟨Vector.replicate 8 0⟩

/-- The call that put the entry there that is under the handle at the end of the run; `made` is
the one for the entry at its start. -/
def maker (id : FileHandleU64) (made : Option Call) : MemFs → List Call → Option Call
  | _, [] => made
  | s, call :: calls =>
    match s.step call with
    | none => made
    | some s' =>
      maker id (if (s.fs.get id).isNone ∧ (s'.fs.get id).isSome then some call else made) s' calls

/-- The entry under the handle was made by `create_exclusive` with the verifier. -/
def MadeExclusively (start : MemFs) (calls : List Call) (id : FileHandleU64)
    (createverf : Createverf3) : Prop :=
  ∃ env dirid filename,
    maker id none start calls = some ⟨env, .createExclusive dirid filename createverf⟩

/-- The verifier with which a call makes files. -/
def Call.verf (call : Call) : Createverf3 :=
  match call.op with
  | .createExclusive _ _ createverf => createverf
  | _ => noVerf

namespace MemFs

variable {env : Env} {s s' start : MemFs} {calls : List Call} {id dirid : FileHandleU64}
  {filename : Filename3} {r : Except Nfsstat3 Reply} {f' : File}

theorem addFile_verf {attr : Sattr3} {content : Bytes} {verf : Option Createverf3}
    (h : s.addFile env dirid filename attr content verf = some (r, s'))
    (hnew : s.fs.get id = none) (hf' : s'.fs.get id = some (.file f')) :
    f'.verf = verf.getD noVerf := by
  obtain ⟨-, -, file, hfile, hcases⟩ := addFile_cases h
  rcases hcases with ⟨e, -, hfs⟩ | ⟨existing, -, -, -, hfs⟩ | ⟨-, -, hpushed⟩
  · rw [hfs, hnew] at hf'
    cases hf'
  · rw [hfs, hnew] at hf'
    cases hf'
  · rcases hpushed.file_cases hf' with ⟨rfl, -⟩ | hold
    · have hidentity := (Entry.sameLinks_setAttr hfile).identity
      have hverf := congrArg (fun i => i.2.2.2) hidentity
      exact Option.some.inj hverf
    · rw [hnew] at hold
      cases hold

/-- A file is new and has the verifier of the call, or keeps the one it had. -/
theorem step_verf {call : Call} (h : s.step call = some s')
    (hf' : s'.fs.get id = some (.file f')) :
    (s.fs.get id = none ∧ f'.verf = call.verf) ∨
      ∃ f, s.fs.get id = some (.file f) ∧ f'.verf = f.verf := by
  obtain ⟨⟨r, s₁⟩, hexec, rfl⟩ := Option.map_eq_some_iff.mp h
  rcases (exec_effect hexec).get hf' with ⟨hop, -, hnone⟩ | ⟨entry, hentry, hidentity, -⟩
  · refine Or.inl ⟨hnone, ?_⟩
    obtain ⟨env, op⟩ := call
    cases op with
    | create dirid filename attr => exact addFile_verf hexec hnone hf'
    | createExclusive dirid filename createverf =>
      obtain ⟨⟨r₀, s₀⟩, hadd, heq⟩ := Option.map_eq_some_iff.mp hexec
      cases heq
      exact addFile_verf hadd hnone hf'
    | mkdir dirid dirname =>
      obtain ⟨-, -, ⟨e, -, hfs⟩ | ⟨-, hpushed⟩⟩ := addDir_cases hexec
      · rw [hfs, hnone] at hf'
        cases hf'
      · rcases hpushed.file_cases hf' with ⟨hdir, -⟩ | hold
        · cases hdir
        · rw [hnone] at hold
          cases hold
    | remove | rename | setattr | write => cases hop
  · right
    cases entry with
    | file f =>
      have hverf := congrArg (fun i => i.2.2.2) hidentity
      exact ⟨f, hentry, Option.some.inj hverf⟩
    | dir dir => cases congrArg Prod.fst hidentity

theorem verf_eq_maker {made : Option Call} (hrun : Transition.run step start calls = some s)
    (hmade : ∀ f, start.fs.get id = some (.file f) → f.verf = made.elim noVerf Call.verf)
    (hf' : s.fs.get id = some (.file f')) :
    f'.verf = (maker id made start calls).elim noVerf Call.verf := by
  induction calls generalizing start made with
  | nil =>
    cases hrun
    exact hmade f' hf'
  | cons call calls ih =>
    obtain ⟨s₁, hstep, hrest⟩ := Transition.run_cons_eq_some hrun
    simp only [maker, hstep]
    refine ih hrest ?_
    intro f hf
    rcases step_verf hstep hf with ⟨hnone, hverf⟩ | ⟨f₀, hf₀, hverf⟩
    · rw [if_pos ⟨by rw [hnone]; rfl, by rw [hf]; rfl⟩]
      exact hverf
    · rw [if_neg (fun hnew => by simp [hf₀] at hnew), hverf]
      exact hmade f₀ hf₀

/-- A configured file has no verifier, and a handle is that of its entry. -/
def PlainFiles (s : MemFs) : Prop :=
  s.fs.Keyed ∧ ∀ id f, s.fs.get id = some (.file f) → f.verf = noVerf

theorem started_plainFiles (h : Started s) : s.PlainFiles := by
  have hpush : ∀ {s s' : MemFs} {dirid : FileHandleU64} {entry : Entry}, s.PlainFiles →
      s.fs.Pushed dirid entry s'.fs → (∀ f, entry = .file f → f.verf = noVerf) →
      s'.PlainFiles := by
    intro s s' dirid entry hs hpushed hentry
    refine ⟨hpushed.keyed hs.1, fun id f hf => ?_⟩
    rcases hpushed.file_cases hf with ⟨hnew, -⟩ | hold
    · exact hentry f hnew
    · exact hs.2 id f hold
  have hadd : ∀ env (s : MemFs) entry reply s', s.PlainFiles →
      s.addConfigured env entry = some (.ok reply, s') → s'.PlainFiles := by
    intro env s entry reply s' hs hadd
    obtain ⟨dirid, hdir | hfile⟩ := addConfigured_cases hadd
    · obtain ⟨-, -, ⟨e, hr, -⟩ | ⟨-, hpushed⟩⟩ := addDir_cases hdir
      · cases hr
      · refine hpush hs hpushed ?_
        rintro f ⟨⟩
    · obtain ⟨-, -, file, hset, hcases⟩ := addFile_cases hfile
      rcases hcases with ⟨e, hr, -⟩ | ⟨existing, -, hverf, -⟩ | ⟨-, -, hpushed⟩
      · cases hr
      · cases hverf
      · refine hpush hs hpushed ?_
        rintro f rfl
        have hidentity := (Entry.sameLinks_setAttr hset).identity
        exact Option.some.inj (congrArg (fun i => i.2.2.2) hidentity)
  have hdefault : ∀ currentTime, (default currentTime).PlainFiles := by
    intro currentTime
    refine ⟨(Fs.linked_new currentTime).keyed, fun id f hf => ?_⟩
    cases (Fs.get_new hf).2
  exact h.invariant hadd hdefault

theorem run_keyed_of_started (hstart : Started start)
    (hrun : Transition.run step start calls = some s) : s.fs.Keyed := by
  have hstep : ∀ (s : MemFs) call s', s.fs.Keyed → True → step s call = some s' → s'.fs.Keyed :=
    fun _ _ _ hk _ => step_keyed hk
  have hkeyed := Transition.run_invariant hstep (started_plainFiles hstart).1
    (Transition.along_of_forall fun _ _ => trivial) hrun
  exact hkeyed

theorem madeExclusively_cases {f : File} (hstart : Started start)
    (hrun : Transition.run step start calls = some s) (hf : s.fs.get id = some (.file f)) :
    (∀ v, MadeExclusively start calls id v ↔ v = f.verf) ∨
      (f.verf = noVerf ∧ ∀ v, ¬MadeExclusively start calls id v) := by
  have hplain : ∀ f, start.fs.get id = some (.file f) →
      f.verf = (none : Option Call).elim noVerf Call.verf := (started_plainFiles hstart).2 id
  have hverf := verf_eq_maker hrun hplain hf
  unfold MadeExclusively
  cases hmaker : maker id none start calls with
  | none =>
    rw [hmaker] at hverf
    exact Or.inr ⟨hverf, by rintro v ⟨env, dirid, filename, ⟨⟩⟩⟩
  | some call =>
    rw [hmaker] at hverf
    obtain ⟨env, op⟩ := call
    cases op with
    | createExclusive dirid filename createverf =>
      left
      intro v
      constructor
      · rintro ⟨env, dirid, filename, ⟨⟩⟩
        exact hverf.symm
      · rintro rfl
        exact ⟨env, dirid, filename, by rw [hverf]; rfl⟩
    | create | mkdir | remove | rename | setattr | write =>
      exact Or.inr ⟨hverf, by rintro v ⟨env, dirid, filename, ⟨⟩⟩⟩

theorem createExclusive_of_file {f : File} (createverf : Createverf3)
    (h : s.fs.lookup env.order dirid filename = .ok (.file f)) :
    s.createExclusive env dirid filename createverf =
      some (if createverf = f.verf then .ok ⟨some f.attr.fileid, none⟩ else .error .nfs3errExist,
        { s with nextid := s.nextid + 1 }) := by
  unfold createExclusive addFile
  dsimp only [Entry.setAttr, noChange, Entry.newFile, Entry.withAttr, Entry.name, File.new]
  rw [h]
  by_cases hverf : createverf = f.verf
  · rw [if_pos hverf]
    dsimp only
    rw [if_pos (by rw [hverf])]
    rfl
  · rw [if_neg hverf]
    dsimp only
    rw [if_neg (by simpa using hverf)]
    rfl

theorem createExclusive_of_dir {d : Dir} (createverf : Createverf3)
    (h : s.fs.lookup env.order dirid filename = .ok (.dir d)) :
    s.createExclusive env dirid filename createverf =
      some (.error .nfs3errExist, { s with nextid := s.nextid + 1 }) := by
  unfold createExclusive addFile
  dsimp only [Entry.setAttr, noChange, Entry.newFile, Entry.withAttr, Entry.name, File.new]
  rw [h]
  rfl

/-- `create_exclusive` on the existing `entry` returns `Ok` to the repetition of the call that
made it, with its handle and without a change to the entries, and `EXIST` otherwise. -/
structure KeyedByVerifier (start : MemFs) (calls : List Call) (s : MemFs) (env : Env)
    (dirid : FileHandleU64) (filename : Filename3) (createverf : Createverf3) (entry : Entry) :
    Prop where
  ok_iff : (∃ reply s', s.createExclusive env dirid filename createverf = some (.ok reply, s')) ↔
    ∃ f, entry = .file f ∧ MadeExclusively start calls f.attr.fileid createverf
  ok_reply : ∀ reply s', s.createExclusive env dirid filename createverf = some (.ok reply, s') →
    reply.id = some entry.fileid ∧ s'.fs = s.fs
  exist : (¬∃ f, entry = .file f ∧ MadeExclusively start calls f.attr.fileid createverf) →
    ∃ s', s.createExclusive env dirid filename createverf = some (.error .nfs3errExist, s')

variable {entry : Entry} {createverf : Createverf3}

theorem keyedByVerifier_dir {d : Dir} (h : s.fs.lookup env.order dirid filename = .ok (.dir d)) :
    KeyedByVerifier start calls s env dirid filename createverf (.dir d) := by
  have hexist := createExclusive_of_dir createverf h
  refine ⟨⟨?_, ?_⟩, ?_, fun _ => ⟨_, hexist⟩⟩
  · rintro ⟨reply, s', hok⟩
    rw [hexist] at hok
    cases hok
  · rintro ⟨f, ⟨⟩, -⟩
  · intro reply s' hok
    rw [hexist] at hok
    cases hok

theorem keyedByVerifier_file {f : File}
    (h : s.fs.lookup env.order dirid filename = .ok (.file f)) :
    KeyedByVerifier start calls s env dirid filename createverf (.file f) ↔
      (createverf = f.verf ↔ MadeExclusively start calls f.attr.fileid createverf) := by
  have hresult := createExclusive_of_file createverf h
  have hok : (∃ reply s', s.createExclusive env dirid filename createverf = some (.ok reply, s')) ↔
      createverf = f.verf := by
    rw [hresult]
    split_ifs with hverf
    · exact ⟨fun _ => hverf, fun _ => ⟨_, _, rfl⟩⟩
    · refine ⟨?_, fun heq => absurd heq hverf⟩
      rintro ⟨reply, s', ⟨⟩⟩
  have hmade : (∃ g, Entry.file f = .file g ∧
      MadeExclusively start calls g.attr.fileid createverf) ↔
        MadeExclusively start calls f.attr.fileid createverf := by
    constructor
    · rintro ⟨g, ⟨⟩, hg⟩
      exact hg
    · exact fun hf => ⟨f, rfl, hf⟩
  constructor
  · intro hlaw
    rw [← hok, ← hmade]
    exact hlaw.ok_iff
  · intro hiff
    refine ⟨hok.trans (hiff.trans hmade.symm), ?_, ?_⟩
    · intro reply s' hreply
      rw [hresult] at hreply
      split_ifs at hreply
      · cases hreply
        exact ⟨rfl, rfl⟩
      · cases hreply
    · intro hother
      rw [hmade, ← hiff] at hother
      rw [hresult, if_neg hother]
      exact ⟨_, rfl⟩

/-- Exclusive creation is keyed by its verifier if and only if it is not asked, with eight zero
bytes, for a file that was made in another way. -/
theorem createExclusive_keyed_iff (hstart : Started start)
    (hrun : Transition.run step start calls = some s)
    (hlookup : s.fs.lookup env.order dirid filename = .ok entry) (createverf : Createverf3) :
    KeyedByVerifier start calls s env dirid filename createverf entry ↔
      (createverf = noVerf → ∀ f, entry = .file f →
        ∃ v, MadeExclusively start calls f.attr.fileid v) := by
  cases entry with
  | dir d =>
    refine ⟨?_, fun _ => keyedByVerifier_dir hlookup⟩
    rintro - - f ⟨⟩
  | file f =>
    obtain ⟨id, hid⟩ := Fs.lookup_mem hlookup
    have hkey : f.attr.fileid = id := run_keyed_of_started hstart hrun id _ hid
    rw [keyedByVerifier_file hlookup, hkey]
    rcases madeExclusively_cases hstart hrun hid with hmade | ⟨hverf, hnever⟩
    · refine ⟨?_, fun _ => (hmade createverf).symm⟩
      rintro - - g ⟨⟩
      rw [hkey]
      exact ⟨f.verf, (hmade f.verf).mpr rfl⟩
    · constructor
      · intro hiff heq
        exact absurd (hiff.mp (heq.trans hverf.symm)) (hnever createverf)
      · intro hcondition
        refine ⟨fun heq => ?_, fun hmade => absurd hmade (hnever createverf)⟩
        obtain ⟨v, hv⟩ := hcondition (heq.trans hverf) f rfl
        rw [hkey] at hv
        exact absurd hv (hnever v)

def sampleVerf : Createverf3 := ⟨#v[1, 0, 0, 0, 0, 0, 0, 0]⟩

theorem createExclusive_keyed_repeated :
    ∃ s entry, Transition.run step (default ⟨0, 0⟩)
        [⟨sampleEnv, .createExclusive 1 ⟨⟨[0x66]⟩⟩ sampleVerf⟩] = some s ∧
      s.fs.lookup sampleEnv.order 1 ⟨⟨[0x66]⟩⟩ = .ok entry ∧
      KeyedByVerifier (default ⟨0, 0⟩) [⟨sampleEnv, .createExclusive 1 ⟨⟨[0x66]⟩⟩ sampleVerf⟩] s
        sampleEnv 1 ⟨⟨[0x66]⟩⟩ sampleVerf entry := by
  have hrun : (Transition.run step (default ⟨0, 0⟩)
      [⟨sampleEnv, .createExclusive 1 ⟨⟨[0x66]⟩⟩ sampleVerf⟩]).map (fun s =>
        s.fs.lookup sampleEnv.order 1 ⟨⟨[0x66]⟩⟩) =
      some (.ok (.file (.new ⟨⟨[0x66]⟩⟩ 2 [] sampleVerf ⟨0, 0⟩))) := by decide
  obtain ⟨s, hs, hlookup⟩ := Option.map_eq_some_iff.mp hrun
  refine ⟨s, _, hs, hlookup, ?_⟩
  refine (createExclusive_keyed_iff (started_default ⟨0, 0⟩) hs hlookup sampleVerf).mpr ?_
  intro hzero
  exact absurd hzero (by decide)

theorem createExclusive_zero_verf :
    ¬∀ (start : MemFs) (calls : List Call) (s : MemFs) (env : Env) (dirid : FileHandleU64)
      (filename : Filename3) (createverf : Createverf3) (entry : Entry), Started start →
      Transition.run step start calls = some s →
      s.fs.lookup env.order dirid filename = .ok entry →
      KeyedByVerifier start calls s env dirid filename createverf entry := by
  intro h
  let calls : List Call := [⟨sampleEnv, .create 1 ⟨⟨[0x66]⟩⟩ noChange⟩]
  have hrun : (Transition.run step (default ⟨0, 0⟩) calls).map (fun s =>
      s.fs.lookup sampleEnv.order 1 ⟨⟨[0x66]⟩⟩) =
      some (.ok (.file (.new ⟨⟨[0x66]⟩⟩ 2 [] noVerf ⟨0, 0⟩))) := by decide
  have hmaker : (maker 2 none (default ⟨0, 0⟩) calls).map (fun call =>
      match call.op with
      | .create .. => true
      | _ => false) = some true := by decide
  obtain ⟨s, hs, hlookup⟩ := Option.map_eq_some_iff.mp hrun
  have hlaw := h _ calls s sampleEnv 1 ⟨⟨[0x66]⟩⟩ noVerf _ (started_default ⟨0, 0⟩) hs hlookup
  obtain ⟨env, dirid, filename, hexclusive⟩ := ((keyedByVerifier_file hlookup).mp hlaw).mp rfl
  have hexclusive : maker 2 none (default ⟨0, 0⟩) calls = _ := hexclusive
  rw [hexclusive] at hmaker
  cases hmaker

end MemFs

end Nfs3.Memfs
