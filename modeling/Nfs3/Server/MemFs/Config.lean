import Nfs3.Server.FileSystem
import Nfs3.Server.MemFs.Operations

/-!
# Starting the in-memory file system

A file system starts with the root directory alone or with the entries of a configuration,
which are added one by one below paths that were added before. `default` is the start with an
empty configuration.
-/
namespace Nfs3.Memfs

open ByteOrder (Bytes)

structure MemFsConfigEntry where
  parent : String
  name : String
  isDir : Bool
  content : Bytes
  content_le : content.length ≤ maxCapacity

structure MemFsConfig where
  entries : List MemFsConfigEntry

/-- `trim_end_matches`: the pattern is taken off the end for as long as it stands there. -/
def trimEndMatches (pattern cs : List Char) : List Char :=
  if pattern ≠ [] ∧ pattern <:+ cs then
    trimEndMatches pattern (cs.take (cs.length - pattern.length))
  else cs
termination_by cs.length
decreasing_by
  rename_i h
  have hpos := List.length_pos_iff.mpr h.1
  have hle := h.2.length_le
  simp only [List.length_take]
  omega

namespace MemFsConfig

/-- `path.split('/').next_back()`; there is always a piece behind the last slash. -/
def lastComponent (path : String) : String := (path.splitOn "/").getLastD ""

/-- What `add_dir` and `add_file` have in common: the name is the last component, and the parent
what is left of the path without it. -/
def add (config : MemFsConfig) (path : String) (isDir : Bool) (content : Bytes)
    (content_le : content.length ≤ maxCapacity) : MemFsConfig :=
  let name := lastComponent path
  let parent := String.ofList (trimEndMatches name.toList path.toList)
  ⟨config.entries ++ [⟨parent, name, isDir, content, content_le⟩]⟩

def addDir (config : MemFsConfig) (path : String) : MemFsConfig :=
  config.add path true [] (Nat.zero_le _)

def addFile (config : MemFsConfig) (path : String) (content : Bytes)
    (content_le : content.length ≤ maxCapacity) : MemFsConfig :=
  config.add path false content content_le

end MemFsConfig

namespace MemFs

def pathToIdImpl (order : HashOrder) (s : MemFs) (path : String) : Except Nfsstat3 FileHandleU64 :=
  (path.splitOn "/").foldlM (fun fid component =>
    if component.isEmpty then .ok fid
    else (s.fs.lookup order fid (.ofString component)).map Entry.fileid) s.rootdir

/-- One round of the loop in `new`. -/
def addConfigured (env : Env) (s : MemFs) (entry : MemFsConfigEntry) :
    Option (Except Nfsstat3 Reply × MemFs) :=
  match s.pathToIdImpl env.order entry.parent with
  | .error e => some (.error e, s)
  | .ok id =>
    if entry.isDir then s.addDir env id (.ofString entry.name)
    else s.addFile env id (.ofString entry.name) noChange entry.content none

def configure (s : MemFs) :
    List (Env × MemFsConfigEntry) → Option (Except Nfsstat3 MemFs)
  | [] => some (.ok s)
  | (env, entry) :: entries =>
    (s.addConfigured env entry).bind fun
      | (.error e, _) => some (.error e)
      | (.ok _, s) => s.configure entries

/-- `MemFs::new`; the entry at position `n` is added in the environment `envs n`. -/
def new (currentTime : Nfstime3) (envs : ℕ → Env) (config : MemFsConfig) :
    Option (Except Nfsstat3 MemFs) :=
  (default currentTime).configure (config.entries.mapIdx fun n entry => (envs n, entry))

/-- The file systems a server can start with. -/
def Started (s : MemFs) : Prop :=
  ∃ currentTime envs config, new currentTime envs config = some (.ok s)

theorem started_default (currentTime : Nfstime3) : Started (default currentTime) :=
  ⟨currentTime, fun _ => ⟨.ascending, fun _ => ⟨0, 0⟩⟩, ⟨[]⟩, rfl⟩

theorem configure_invariant {Inv : MemFs → Prop} {s s' : MemFs}
    {entries : List (Env × MemFsConfigEntry)}
    (hadd : ∀ env s entry reply s', Inv s → s.addConfigured env entry = some (.ok reply, s') →
      Inv s')
    (hs : Inv s) (h : s.configure entries = some (.ok s')) : Inv s' := by
  induction entries generalizing s with
  | nil =>
    cases h
    exact hs
  | cons head entries ih =>
    obtain ⟨env, entry⟩ := head
    obtain ⟨⟨r, s₁⟩, hr, hrest⟩ := Option.bind_eq_some_iff.mp h
    cases r with
    | error e => cases hrest
    | ok reply => exact ih (hadd env s entry reply s₁ hs hr) hrest

/-- What holds of the root directory alone and stays true as entries are added holds at the
start. -/
theorem Started.invariant {Inv : MemFs → Prop} {s : MemFs}
    (hadd : ∀ env s entry reply s', Inv s → s.addConfigured env entry = some (.ok reply, s') →
      Inv s')
    (hdefault : ∀ currentTime, Inv (default currentTime)) (h : Started s) : Inv s := by
  obtain ⟨currentTime, envs, config, hnew⟩ := h
  exact configure_invariant hadd (hdefault currentTime) hnew

/-! ## Adding entries -/

variable {env : Env} {s s' : MemFs} {dirid : FileHandleU64} {filename : Filename3}
  {r : Except Nfsstat3 Reply}

theorem addConfigured_cases {entry : MemFsConfigEntry} {reply : Reply}
    (h : s.addConfigured env entry = some (.ok reply, s')) :
    ∃ dirid, s.addDir env dirid (.ofString entry.name) = some (.ok reply, s') ∨
      s.addFile env dirid (.ofString entry.name) noChange entry.content none =
        some (.ok reply, s') := by
  unfold addConfigured at h
  split at h
  · cases h
  · rename_i dirid hdirid
    split_ifs at h
    · exact ⟨dirid, Or.inl h⟩
    · exact ⟨dirid, Or.inr h⟩

theorem addDir_cases (h : s.addDir env dirid filename = some (r, s')) :
    s'.rootdir = s.rootdir ∧ s'.nextid = s.nextid + 1 ∧
    ((∃ e, r = .error e ∧ s'.fs = s.fs) ∨
      (r = .ok ⟨some s.nextid, some (Entry.newDir filename s.nextid dirid (env.time 0)).attr⟩ ∧
        s.fs.Pushed dirid (Entry.newDir filename s.nextid dirid (env.time 0)) s'.fs)) := by
  obtain ⟨r₀, fs', hpush, rfl, rfl⟩ := lift_eq_some h
  refine ⟨rfl, rfl, ?_⟩
  rcases Fs.push_cases hpush with ⟨e, rfl, rfl⟩ | ⟨rfl, hpushed⟩
  · exact Or.inl ⟨e, rfl, rfl⟩
  · exact Or.inr ⟨rfl, hpushed⟩

/-- A new file is linked, or a file of the same verifier was there, or the call has failed. -/
theorem addFile_cases {attr : Sattr3} {content : Bytes} {verf : Option Createverf3}
    (h : s.addFile env dirid filename attr content verf = some (r, s')) :
    s'.rootdir = s.rootdir ∧ s'.nextid = s.nextid + 1 ∧
    ∃ file, (Entry.newFile filename s.nextid content (verf.getD ⟨Vector.replicate 8 0⟩)
        (env.time 0)).setAttr attr (env.time 1) (env.time 2) = some file ∧
      ((∃ e, r = .error e ∧ s'.fs = s.fs) ∨
        (∃ existing, s.fs.lookup env.order dirid filename = .ok (.file existing) ∧
          verf = some existing.verf ∧ r = .ok ⟨some existing.attr.fileid, some file.attr⟩ ∧
          s'.fs = s.fs) ∨
        (s.fs.lookup env.order dirid filename = .error .nfs3errNoent ∧
          r = .ok ⟨some s.nextid, some file.attr⟩ ∧ s.fs.Pushed dirid file s'.fs)) := by
  unfold addFile at h
  dsimp only at h
  split at h
  · cases h
  rename_i file hfile
  have hname : file.name = filename := (Entry.sameLinks_setAttr hfile).name
  rw [hname] at h
  split at h
  · rename_i hnoent
    obtain ⟨r₀, fs', hpush, rfl, rfl⟩ := lift_eq_some h
    refine ⟨rfl, rfl, file, hfile, ?_⟩
    rcases Fs.push_cases hpush with ⟨e, rfl, rfl⟩ | ⟨rfl, hpushed⟩
    · exact Or.inl ⟨e, rfl, rfl⟩
    · exact Or.inr (Or.inr ⟨hnoent, rfl, hpushed⟩)
  · rename_i existing hexisting
    split_ifs at h with hverf
    · cases h
      exact ⟨rfl, rfl, file, hfile, Or.inr (Or.inl ⟨existing, hexisting, hverf, rfl, rfl⟩)⟩
    · cases h
      exact ⟨rfl, rfl, file, hfile, Or.inl ⟨_, rfl, rfl⟩⟩
  · cases h
    exact ⟨rfl, rfl, file, hfile, Or.inl ⟨_, rfl, rfl⟩⟩
  · cases h
    exact ⟨rfl, rfl, file, hfile, Or.inl ⟨_, rfl, rfl⟩⟩

end MemFs

end Nfs3.Memfs
