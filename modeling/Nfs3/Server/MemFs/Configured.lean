import Nfs3.Server.MemFs.Contents
import Nfs3.Server.MemFs.Listing
import Nfs3.Server.MemFs.Names
import Nfs3.Server.MountPath

/-!
# The file system of a configuration

A configuration is a list of paths, each below the root or below a directory that was listed
before it. The text of a path is cut at its last slash: the name repeats no earlier part of the
path, for it has no slash in it and the rest ends in one. The entry at position `k` gets the
handle of the `k`-th allocation, so that paths and handles determine each other.
-/
namespace Nfs3.Memfs

open ByteOrder (Bytes)
open Shared (drawn Issued drawn_ne drawn_ne_root drawn_succ not_issued)

/-! ## Paths -/

/-- A name that can stand in a path. -/
structure Component where
  name : List Char
  ne_nil : name ≠ []
  no_slash : '/' ∉ name
  ne_dot : name ≠ ['.']
  ne_dotDot : name ≠ ['.', '.']
  deriving DecidableEq

def Component.filename (c : Component) : Filename3 := .ofString (.ofList c.name)

theorem Component.filename_inj {c d : Component} (h : c.filename = d.filename) : c = d := by
  have hname := filename_injective h
  cases c
  cases d
  simpa using hname

theorem Component.filename_ne_dot (c : Component) : c.filename ≠ dot := by
  intro h
  have hdot : c.filename = .ofString (.ofList ['.']) := h.trans (by decide)
  exact c.ne_dot (filename_injective hdot)

theorem Component.filename_ne_dotDot (c : Component) : c.filename ≠ dotDot := by
  intro h
  have hdot : c.filename = .ofString (.ofList ['.', '.']) := h.trans (by decide)
  exact c.ne_dotDot (filename_injective hdot)

abbrev Path := List Component

namespace Path

def chars (p : Path) : List Char := p.flatMap fun c => '/' :: c.name

/-- The path as text, absolute and without a slash at its end. -/
def text (p : Path) : String := .ofList p.chars

theorem chars_concat (p : Path) (c : Component) : (p ++ [c]).chars = p.chars ++ '/' :: c.name := by
  simp [chars]

theorem splitOnP_name (c : Component) : c.name.splitOnP (· == '/') = [c.name] := by
  apply List.splitOnP_eq_singleton
  intro x hx
  have hne : x ≠ '/' := by
    rintro rfl
    exact c.no_slash hx
  simpa using hne

theorem components_chars (p : Path) : components p.chars = p.map Component.name := by
  induction p using List.reverseRecOn with
  | nil => rfl
  | append_singleton p c ih =>
    simp only [components] at ih ⊢
    rw [chars_concat, List.splitOnP_append_cons _ _ (by simp), List.filter_append, ih,
      splitOnP_name, List.map_append]
    simp [c.ne_nil]

theorem names_chars (p : Path) : LookupFs.names p.chars = p.map Component.filename := by
  simp [LookupFs.names, components_chars, Component.filename, Function.comp_def]

theorem names_chars_slash (p : Path) :
    LookupFs.names (p.chars ++ ['/']) = p.map Component.filename := by
  rw [LookupFs.names, components_append_slash]
  exact p.names_chars

theorem lastComponent_text (p : Path) (c : Component) :
    MemFsConfig.lastComponent (text (p ++ [c])) = .ofList c.name := by
  rw [MemFsConfig.lastComponent, splitOn_slash, text, String.toList_ofList, chars_concat,
    List.splitOnP_append_cons _ _ (by simp), splitOnP_name, List.map_append]
  simp

/-- The name is taken off once: what is left ends in a slash, which no name contains. -/
theorem trimEndMatches_chars (p : Path) (c : Component) :
    trimEndMatches c.name (p ++ [c]).chars = p.chars ++ ['/'] := by
  have hsuffix : c.name ≠ [] ∧ c.name <:+ (p ++ [c]).chars := by
    refine ⟨c.ne_nil, p.chars ++ ['/'], ?_⟩
    simp [chars_concat]
  have hslash : ¬(c.name ≠ [] ∧ c.name <:+ p.chars ++ ['/']) := by
    rintro ⟨hne, hmore⟩
    have hlast := hmore.getLast hne
    rw [List.getLast_append_singleton] at hlast
    exact c.no_slash (hlast ▸ List.getLast_mem hne)
  rw [trimEndMatches, if_pos hsuffix, trimEndMatches]
  have htake : (p ++ [c]).chars.take ((p ++ [c]).chars.length - c.name.length) =
      p.chars ++ ['/'] := by
    have hchars : (p ++ [c]).chars = (p.chars ++ ['/']) ++ c.name := by simp [chars_concat]
    rw [hchars, List.length_append, Nat.add_sub_cancel, List.take_left]
  rw [htake, if_neg hslash]

end Path

/-! ## Configurations -/

inductive Kind
  | dir
  | file (content : Bytes) (content_le : content.length ≤ maxCapacity)

namespace Kind

def isDir : Kind → Bool
  | dir => true
  | file .. => false

def content : Kind → Bytes
  | dir => []
  | file content _ => content

theorem content_le : ∀ kind : Kind, kind.content.length ≤ maxCapacity
  | dir => Nat.zero_le _
  | file _ h => h

/-- The entry is a directory, or a file with the content and its size. -/
def Describes : Kind → Entry → Prop
  | dir, .dir _ => True
  | file content _, .file f => f.content = content ∧ f.attr.size.toNat = content.length
  | _, _ => False

end Kind

/-- A call of `add_dir` or `add_file`, with the components of its path. -/
structure Addition where
  parent : Path
  name : Component
  kind : Kind

namespace Addition

def path (a : Addition) : Path := a.parent ++ [a.name]

def addTo (config : MemFsConfig) (a : Addition) : MemFsConfig :=
  match a.kind with
  | .dir => config.addDir a.path.text
  | .file content content_le => config.addFile a.path.text content content_le

/-- The entry that the call pushes. -/
def entry (a : Addition) : MemFsConfigEntry where
  parent := .ofList (a.parent.chars ++ ['/'])
  name := .ofList a.name.name
  isDir := a.kind.isDir
  content := a.kind.content
  content_le := a.kind.content_le

theorem addTo_eq (config : MemFsConfig) (a : Addition) :
    a.addTo config = ⟨config.entries ++ [a.entry]⟩ := by
  have hname : MemFsConfig.lastComponent a.path.text = .ofList a.name.name :=
    Path.lastComponent_text a.parent a.name
  have hparent : trimEndMatches a.name.name a.path.text.toList = a.parent.chars ++ ['/'] := by
    rw [Path.text, String.toList_ofList]
    exact Path.trimEndMatches_chars a.parent a.name
  rcases a with ⟨parent, name, kind⟩
  cases kind with
  | dir =>
    simp [addTo, entry, MemFsConfig.addDir, MemFsConfig.add, hname, hparent, Kind.isDir,
      Kind.content]
  | file content h =>
    simp [addTo, entry, MemFsConfig.addFile, MemFsConfig.add, hname, hparent, Kind.isDir,
      Kind.content]

end Addition

def configOf (adds : List Addition) : MemFsConfig := adds.foldl (fun c a => a.addTo c) ⟨[]⟩

theorem entries_configOf (adds : List Addition) :
    (configOf adds).entries = adds.map Addition.entry := by
  induction adds using List.reverseRecOn with
  | nil => rfl
  | append_singleton adds a ih =>
    rw [configOf, List.foldl_concat, ← configOf, Addition.addTo_eq, ih, List.map_append]
    rfl

/-- All paths are distinct, and each one is below the root or a directory listed before it. -/
structure Proper (adds : List Addition) : Prop where
  nodup : (adds.map Addition.path).Nodup
  parents : ∀ pre a post, adds = pre ++ a :: post →
    a.parent = [] ∨ ∃ b ∈ pre, b.path = a.parent ∧ b.kind = .dir

theorem Proper.init {adds : List Addition} {a : Addition} (h : Proper (adds ++ [a])) :
    Proper adds := by
  constructor
  · exact (List.nodup_append.mp (List.map_append ▸ h.nodup)).1
  · intro pre b post hadds
    apply h.parents pre b (post ++ [a])
    simp [hadds]

/-! ## Handles of paths -/

/-- The root, or the handle of the allocation for the path. -/
def handleOf (adds : List Addition) (p : Path) : FileHandleU64 :=
  if p = [] then 1 else drawn ((adds.map Addition.path).idxOf p)

section Handles

variable {adds : List Addition} {a b : Addition} {p q : Path}

/-- The paths that lead somewhere: the root and what was added. -/
def Known (adds : List Addition) (p : Path) : Prop := p = [] ∨ p ∈ adds.map Addition.path

theorem path_ne_nil (a : Addition) : a.path ≠ [] := by
  simp [Addition.path]

theorem handleOf_concat (h : Known adds p) : handleOf (adds ++ [a]) p = handleOf adds p := by
  rcases h with rfl | h
  · simp [handleOf]
  · simp [handleOf, List.idxOf_append_of_mem h]

theorem Proper.path_new (h : Proper (adds ++ [a])) : a.path ∉ adds.map Addition.path := by
  have hnodup := h.nodup
  rw [List.map_append, List.nodup_append] at hnodup
  intro hmem
  exact hnodup.2.2 _ hmem _ (by simp) rfl

theorem handleOf_new (h : Proper (adds ++ [a])) :
    handleOf (adds ++ [a]) a.path = drawn adds.length := by
  simp [handleOf, path_ne_nil, List.idxOf_append_of_notMem h.path_new]

theorem issued_handleOf (h : Known adds p) : Issued adds.length (handleOf adds p) := by
  unfold handleOf
  split_ifs with hp
  · exact Or.inl rfl
  · right
    have hlt := List.idxOf_lt_length_iff.mpr (h.resolve_left hp)
    exact ⟨_, by simpa using hlt, rfl⟩

theorem drawn_inj {k n m : ℕ} (hk : k < m) (hn : n < m) (hm : m < 2 ^ 64)
    (h : drawn k = drawn n) : k = n := by
  rcases Nat.lt_trichotomy k n with hlt | heq | hgt
  · exact absurd h (drawn_ne hlt (by omega))
  · exact heq
  · exact absurd h.symm (drawn_ne hgt (by omega))

/-- Different paths have different handles. -/
theorem handleOf_inj (hsize : adds.length ≤ maxCapacity) (hp : Known adds p) (hq : Known adds q)
    (h : handleOf adds p = handleOf adds q) : p = q := by
  have hmax : maxCapacity = 2 ^ 63 - 1 := rfl
  have hidx : ∀ {r : Path}, r ≠ [] → Known adds r →
      (adds.map Addition.path).idxOf r < adds.length := by
    intro r hr hknown
    simpa using List.idxOf_lt_length_iff.mpr (hknown.resolve_left hr)
  unfold handleOf at h
  split_ifs at h with hp₀ hq₀ hq₀
  · rw [hp₀, hq₀]
  · have hlt := hidx hq₀ hq
    exact absurd h.symm (drawn_ne_root (by omega))
  · have hlt := hidx hp₀ hp
    exact absurd h (drawn_ne_root (by omega))
  · have heq := drawn_inj (hidx hp₀ hp) (hidx hq₀ hq) (by omega) h
    exact (List.idxOf_inj (hp.resolve_left hp₀)).mp heq

theorem known_concat : Known (adds ++ [a]) p ↔ Known adds p ∨ p = a.path := by
  simp [Known, or_assoc, eq_comm]

theorem Proper.known_parent (h : Proper adds) (ha : a ∈ adds) : Known adds a.parent := by
  obtain ⟨pre, post, hadds⟩ := List.append_of_mem ha
  rcases h.parents pre a post hadds with hroot | ⟨b, hb, hpath, -⟩
  · exact Or.inl hroot
  · right
    rw [hadds, ← hpath]
    exact List.mem_map_of_mem (by simp [hb])

theorem Proper.known_new_parent (h : Proper (adds ++ [a])) : Known adds a.parent := by
  rcases h.parents adds a [] rfl with hroot | ⟨b, hmem, hpath, -⟩
  · exact Or.inl hroot
  · exact Or.inr (hpath ▸ List.mem_map_of_mem hmem)

end Handles

/-! ## The file system as entries are added -/

/-- The file system with the given entries in it and no others. -/
structure Built (adds : List Addition) (s : MemFs) : Prop where
  rootdir : s.rootdir = 1
  nextid : s.nextid = drawn adds.length
  named : s.fs.Named
  issued : ∀ i, (s.fs.get i).isSome → Issued adds.length i
  root : ∃ dir, s.fs.get 1 = some (.dir dir)
  entry : ∀ a ∈ adds, ∃ e, s.fs.get (handleOf adds a.path) = some e ∧
    e.name = a.name.filename ∧ a.kind.Describes e
  children : ∀ p, Known adds p → ∀ i, i ∈ s.fs.children (handleOf adds p) ↔
    ∃ a ∈ adds, a.parent = p ∧ i = handleOf adds a.path

theorem built_default (currentTime : Nfstime3) : Built [] (.default currentTime) := by
  refine ⟨rfl, rfl, Fs.named_new currentTime, ?_, ⟨.rootDir currentTime, rfl⟩, by simp, ?_⟩
  · intro i hi
    obtain ⟨e, he⟩ := Option.isSome_iff_exists.mp hi
    exact Or.inl (Fs.get_new he).1
  · intro p hp i
    obtain rfl : p = [] := by simpa [Known] using hp
    simp only [List.not_mem_nil, false_and, exists_false, iff_false]
    exact Fs.notMem_children_new

namespace Built

variable {adds : List Addition} {s : MemFs} {a : Addition} {p : Path}

/-- What lies under a path of the configuration. -/
theorem get_dir (hb : Built adds s) (h : p = [] ∨ ∃ b ∈ adds, b.path = p ∧ b.kind = .dir) :
    ∃ dir, s.fs.get (handleOf adds p) = some (.dir dir) := by
  rcases h with rfl | ⟨b, hmem, rfl, hkind⟩
  · simpa [handleOf] using hb.root
  · obtain ⟨e, hget, -, hdescribes⟩ := hb.entry b hmem
    rw [hkind] at hdescribes
    cases e with
    | file f => exact hdescribes.elim
    | dir dir => exact ⟨dir, hget⟩

/-- A name is looked up in the directory of its entry. -/
theorem lookup_entry (hb : Built adds s) (hproper : Proper adds) (ha : a ∈ adds)
    (order : HashOrder) :
    ∃ e, s.fs.lookup order (handleOf adds a.parent) a.name.filename = .ok e ∧
      e.fileid = handleOf adds a.path := by
  obtain ⟨e, hget, hname, -⟩ := hb.entry a ha
  have hchild : handleOf adds a.path ∈ s.fs.children (handleOf adds a.parent) :=
    (hb.children a.parent (hproper.known_parent ha) _).mpr ⟨a, ha, rfl, rfl⟩
  obtain ⟨dir, hdir, hmem⟩ := Fs.mem_children.mp hchild
  refine ⟨e, ?_, hb.named.keyed _ _ hget⟩
  have hscan := hb.named.scan_child hdir hmem hget order
  rw [hname] at hscan
  simp only [Fs.lookup, hdir, a.name.filename_ne_dot, a.name.filename_ne_dotDot, if_false, hscan]

end Built

theorem resolve_concat {order : HashOrder} {s : MemFs} {id id' : FileHandleU64}
    {names : List Filename3} {name : Filename3} {e : Entry}
    (h : (lookupFs order s).resolve () id names = (.ok id', ()))
    (hlookup : s.fs.lookup order id' name = .ok e) :
    (lookupFs order s).resolve () id (names ++ [name]) = (.ok e.fileid, ()) := by
  induction names generalizing id with
  | nil =>
    cases h
    simp [LookupFs.resolve, lookupFs, hlookup, Except.map]
  | cons first names ih =>
    simp only [List.cons_append, LookupFs.resolve] at h ⊢
    rcases hfirst : (lookupFs order s).lookup () id first with ⟨stat | next, _⟩
    · simp [hfirst] at h
    · rw [hfirst] at h
      exact ih h

theorem pathToIdImpl_eq (order : HashOrder) (s : MemFs) (path : String) :
    s.pathToIdImpl order path =
      ((lookupFs order s).resolve () s.rootdir (LookupFs.names path.toList)).1 := by
  have heq := (lookupByPath_eq_pathToIdImpl order s path).symm.trans
    ((lookupFs order s).lookupByPath_eq () path)
  simp only [Option.some.injEq] at heq
  exact congrArg Prod.fst heq

namespace Built

variable {adds : List Addition} {s : MemFs} {a : Addition} {p : Path}

/-- Every path of the configuration leads to its handle; the prefixes of a path lead to the
directories it passes. -/
theorem resolve_known (hb : Built adds s) (hproper : Proper adds) (order : HashOrder)
    (h : Known adds p) :
    (lookupFs order s).resolve () s.rootdir (p.map Component.filename) =
      (.ok (handleOf adds p), ()) := by
  induction p using List.reverseRecOn with
  | nil => simp [LookupFs.resolve, handleOf, hb.rootdir]
  | append_singleton p c ih =>
    obtain ⟨a, ha, hpath⟩ : ∃ a ∈ adds, a.path = p ++ [c] := by simpa [Known] using h
    obtain ⟨rfl, rfl⟩ : a.parent = p ∧ a.name = c := by
      simpa [Addition.path] using List.append_inj' hpath rfl
    obtain ⟨e, hlookup, hid⟩ := hb.lookup_entry hproper ha order
    rw [List.map_append, List.map_singleton, ← hpath, ← hid]
    exact resolve_concat (ih (hproper.known_parent ha)) hlookup

theorem pathToIdImpl_text (hb : Built adds s) (hproper : Proper adds) (order : HashOrder)
    (h : Known adds p) : s.pathToIdImpl order p.text = .ok (handleOf adds p) := by
  rw [pathToIdImpl_eq, Path.text, String.toList_ofList, Path.names_chars,
    hb.resolve_known hproper order h]

theorem pathToIdImpl_parent (hb : Built adds s) (hproper : Proper adds) (order : HashOrder)
    (h : Known adds p) :
    s.pathToIdImpl order (.ofList (p.chars ++ ['/'])) = .ok (handleOf adds p) := by
  rw [pathToIdImpl_eq, String.toList_ofList, Path.names_chars_slash,
    hb.resolve_known hproper order h]

/-! ## Adding one entry -/

/-- The new entry of an addition, before it is linked. -/
structure NewEntry (a : Addition) (id parent : FileHandleU64) (e : Entry) : Prop where
  fileid : e.fileid = id
  name : e.name = a.name.filename
  content : e.content = ∅
  up : ∀ u, e.up = some u → u = parent
  describes : a.kind.Describes e

theorem newEntry_dir (id parent : FileHandleU64) (currentTime : Nfstime3) (hkind : a.kind = .dir) :
    NewEntry a id parent (.newDir a.name.filename id parent currentTime) := by
  refine ⟨rfl, rfl, rfl, ?_, ?_⟩
  · intro u hu
    cases hu
    rfl
  · simp [hkind, Entry.newDir, Kind.Describes]

theorem newEntry_file (id parent : FileHandleU64) (currentTime : Nfstime3) (verf : Createverf3)
    {content : Bytes} {hle : content.length ≤ maxCapacity} (hkind : a.kind = .file content hle) :
    NewEntry a id parent (.newFile a.name.filename id content verf currentTime) := by
  refine ⟨rfl, rfl, rfl, ?_, ?_⟩
  · intro u hu
    cases hu
  · rw [hkind]
    exact ⟨rfl, (File.sized_new hle).size⟩

theorem get_new (hb : Built adds s) (hsize : adds.length < maxCapacity) :
    s.fs.get (drawn adds.length) = none := by
  have hmax : maxCapacity = 2 ^ 63 - 1 := rfl
  by_contra hsome
  exact not_issued (by omega) (hb.issued _ (Option.isSome_iff_ne_none.mpr hsome))

/-- No child of the parent has the name of a new path. -/
theorem nameFree_new (hb : Built adds s) (hproper : Proper (adds ++ [a]))
    (hknown : Known adds a.parent) :
    s.fs.NameFree (handleOf adds a.parent) a.name.filename := by
  intro i hi hname
  obtain ⟨b, hmem, hparent, rfl⟩ := (hb.children _ hknown i).mp hi
  obtain ⟨e, hget, hfilename, -⟩ := hb.entry b hmem
  rw [Fs.nameOf_of_get hget, hfilename] at hname
  have hpath : b.path = a.path := by
    rw [Addition.path, Addition.path, hparent, Component.filename_inj (Option.some.inj hname)]
  exact hproper.path_new (hpath ▸ List.mem_map_of_mem hmem)

/-- What was there keeps its handle, its name and its kind as another entry is linked. -/
theorem pushed_keeps {fs fs' : Fs} {parent i : FileHandleU64} {e old : Entry} {kind : Kind}
    (h : fs.Pushed parent e fs') (hget : fs.get i = some old) (hkind : kind.Describes old) :
    ∃ new, fs'.get i = some new ∧ new.name = old.name ∧ kind.Describes new := by
  obtain ⟨hfresh, dir, hdir, -, rfl⟩ := h
  have hne : i ≠ e.fileid := by
    rintro rfl
    simp [hfresh] at hget
  by_cases hi : i = parent
  · subst hi
    rw [Fs.get_insert_of_ne hne, hget] at hdir
    cases hdir
    refine ⟨_, Fs.get_insert_self, rfl, ?_⟩
    cases kind with
    | dir => trivial
    | file content hle => exact hkind.elim
  · refine ⟨old, ?_, rfl, hkind⟩
    rw [Fs.get_insert_of_ne hi, Fs.get_insert_of_ne hne, hget]

theorem pushed_new {fs fs' : Fs} {parent : FileHandleU64} {e : Entry}
    (h : fs.Pushed parent e fs') (hparent : (fs.get parent).isSome) :
    fs'.get e.fileid = some e := by
  obtain ⟨hfresh, dir, hdir, -, rfl⟩ := h
  have hne : e.fileid ≠ parent := by
    rintro rfl
    simp [hfresh] at hparent
  rw [Fs.get_insert_of_ne hne, Fs.get_insert_self]

/-- The children of a path are those it had, and the new one below its parent. -/
theorem exists_concat_iff (hproper : Proper (adds ++ [a])) {i : FileHandleU64} :
    (∃ b ∈ adds ++ [a], b.parent = p ∧ i = handleOf (adds ++ [a]) b.path) ↔
      (∃ b ∈ adds, b.parent = p ∧ i = handleOf adds b.path) ∨
        (a.parent = p ∧ i = drawn adds.length) := by
  constructor
  · rintro ⟨b, hmem, hparent, rfl⟩
    rcases List.mem_append.mp hmem with hmem | hmem
    · left
      exact ⟨b, hmem, hparent, handleOf_concat (Or.inr (List.mem_map_of_mem hmem))⟩
    · obtain rfl := List.mem_singleton.mp hmem
      exact Or.inr ⟨hparent, handleOf_new hproper⟩
  · rintro (⟨b, hmem, hparent, rfl⟩ | ⟨hparent, rfl⟩)
    · refine ⟨b, List.mem_append_left _ hmem, hparent, ?_⟩
      exact (handleOf_concat (Or.inr (List.mem_map_of_mem hmem))).symm
    · exact ⟨a, by simp, hparent, (handleOf_new hproper).symm⟩

theorem children_link (hb : Built adds s) (hproper : Proper (adds ++ [a]))
    (hsize : adds.length < maxCapacity) (hknown : Known adds a.parent) {fs' : Fs}
    (hchild : ∀ d i, i ∈ fs'.children d ↔ i ∈ s.fs.children d ∨
      (d = handleOf adds a.parent ∧ i = drawn adds.length))
    (hp : Known (adds ++ [a]) p) (i : FileHandleU64) :
    i ∈ fs'.children (handleOf (adds ++ [a]) p) ↔
      ∃ b ∈ adds ++ [a], b.parent = p ∧ i = handleOf (adds ++ [a]) b.path := by
  rw [exists_concat_iff hproper, hchild]
  rcases known_concat.mp hp with hp | rfl
  · have hsame : handleOf adds p = handleOf adds a.parent ↔ a.parent = p := by
      constructor
      · exact fun h => (handleOf_inj (by omega) hp hknown h).symm
      · rintro rfl
        rfl
    rw [handleOf_concat hp, hb.children p hp, hsame]
  · -- the new entry has no children, and is no parent yet
    have hempty : s.fs.children (drawn adds.length) = ∅ := by
      simp [Fs.children, hb.get_new hsize]
    have hne : drawn adds.length ≠ handleOf adds a.parent := by
      intro heq
      have hmax : maxCapacity = 2 ^ 63 - 1 := rfl
      exact not_issued (by omega) (heq ▸ issued_handleOf hknown)
    have hself : a.parent ≠ a.path := by
      intro heq
      simpa [Addition.path] using congrArg List.length heq
    have hnone : ¬∃ b ∈ adds, b.parent = a.path ∧ i = handleOf adds b.path := by
      rintro ⟨b, hmem, hparent, -⟩
      have hbelow := hproper.init.known_parent hmem
      rw [hparent] at hbelow
      exact hproper.path_new (hbelow.resolve_left (path_ne_nil a))
    simp [handleOf_new hproper, hempty, hne, hself, hnone]

/-- Linking the new entry in its parent. -/
theorem link (hb : Built adds s) (hproper : Proper (adds ++ [a]))
    (hsize : adds.length < maxCapacity)
    {e : Entry} {fs' : Fs} (he : NewEntry a (drawn adds.length) (handleOf adds a.parent) e)
    (hparent : (s.fs.get (handleOf adds a.parent)).isSome) (hknown : Known adds a.parent)
    (hpushed : s.fs.Pushed (handleOf adds a.parent) e fs') :
    Built (adds ++ [a]) { s with fs := fs', nextid := s.nextid + 1 } := by
  have hleaf := hpushed.addLeaf he.content he.up
  have hnew := handleOf_new hproper
  have hold : ∀ b ∈ adds, Known adds b.path := fun b hb => Or.inr (List.mem_map_of_mem hb)
  have hfree := hb.nameFree_new hproper hknown
  rw [← he.name] at hfree
  refine ⟨hb.rootdir, ?_, hpushed.named hb.named he.content hfree, ?_, ?_, ?_, ?_⟩
  · rw [List.length_append, List.length_singleton, ← drawn_succ, ← hb.nextid]
  · intro i hi
    rw [List.length_append, List.length_singleton]
    rcases (hleaf.dom i).mp hi with hi | hi
    · exact (hb.issued i hi).mono (by omega)
    · exact Or.inr ⟨adds.length, by omega, hi.trans he.fileid⟩
  · obtain ⟨dir, hdir⟩ := hb.root
    have hdescribes : Kind.dir.Describes (.dir dir) := trivial
    obtain ⟨new, hget, -, hnew⟩ := pushed_keeps hpushed hdir hdescribes
    cases new with
    | file f => exact hnew.elim
    | dir dir' => exact ⟨dir', hget⟩
  · intro b hmem
    rcases List.mem_append.mp hmem with hmem | hmem
    · obtain ⟨old, hget, hname, hdescribes⟩ := hb.entry b hmem
      obtain ⟨new, hget', hname', hdescribes'⟩ := pushed_keeps hpushed hget hdescribes
      rw [handleOf_concat (hold b hmem)]
      exact ⟨new, hget', hname'.trans hname, hdescribes'⟩
    · obtain rfl := List.mem_singleton.mp hmem
      rw [hnew, ← he.fileid]
      exact ⟨e, pushed_new hpushed hparent, he.name, he.describes⟩
  · intro p hp i
    apply hb.children_link hproper hsize hknown ?_ hp i
    intro d i
    rw [← he.fileid]
    exact hleaf.child d i

theorem push_of_dir {fs : Fs} {parent : FileHandleU64} {e : Entry} {dir : Dir}
    (hfresh : fs.get e.fileid = none) (hdir : fs.get parent = some (.dir dir))
    (hmem : e.fileid ∉ dir.content) :
    ∃ fs', fs.push parent e = some (.ok (), fs') ∧ fs.Pushed parent e fs' := by
  have hne : parent ≠ e.fileid := by
    rintro rfl
    simp [hfresh] at hdir
  have hget : (fs.insert e.fileid e).get parent = some (.dir dir) := by
    rw [Fs.get_insert_of_ne hne, hdir]
  refine ⟨_, ?_, hfresh, dir, hget, hmem, rfl⟩
  simp [Fs.push, hfresh, hget, hmem]

theorem setAttr_noChange (e : Entry) (t t' : Nfstime3) :
    e.setAttr MemFs.noChange t t' = some e := by
  cases e <;> rfl

/-- Pushing the new entry succeeds. -/
theorem lift_push (hb : Built adds s) (hproper : Proper (adds ++ [a]))
    (hsize : adds.length < maxCapacity) (hknown : Known adds a.parent) {dir : Dir}
    (hdir : s.fs.get (handleOf adds a.parent) = some (.dir dir)) {e : Entry}
    (he : NewEntry a s.nextid (handleOf adds a.parent) e) :
    ∃ s', (∀ reply : Reply, ({ s with nextid := s.nextid + 1 } : MemFs).lift
        (s.fs.push (handleOf adds a.parent) e) reply = some (.ok reply, s')) ∧
      Built (adds ++ [a]) s' := by
  rw [hb.nextid] at he
  have hfresh := hb.get_new hsize
  have hmem := hb.named.notMem_of_get_none (d := handleOf adds a.parent) hfresh
  rw [Fs.children_of_get hdir] at hmem
  rw [← he.fileid] at hfresh hmem
  obtain ⟨fs', hpush, hpushed⟩ := push_of_dir hfresh hdir hmem
  refine ⟨{ s with fs := fs', nextid := s.nextid + 1 }, ?_, ?_⟩
  · intro reply
    simp [MemFs.lift, hpush, Except.map]
  · exact hb.link hproper hsize he (by simp [hdir]) hknown hpushed

/-- One round of the loop adds the entry below its parent. -/
theorem addConfigured (hb : Built adds s) (hproper : Proper (adds ++ [a]))
    (hsize : adds.length < maxCapacity) (env : Env) :
    ∃ reply s', s.addConfigured env a.entry = some (.ok reply, s') ∧ Built (adds ++ [a]) s' := by
  have hdirs := hproper.parents adds a [] rfl
  have hknown := hproper.known_new_parent
  obtain ⟨dir, hdir⟩ := hb.get_dir hdirs
  have hpath : s.pathToIdImpl env.order a.entry.parent = .ok (handleOf adds a.parent) :=
    hb.pathToIdImpl_parent hproper.init env.order hknown
  cases hkind : a.kind with
  | dir =>
    have he := newEntry_dir s.nextid (handleOf adds a.parent) (env.time 0) hkind
    obtain ⟨s', hlift, hb'⟩ := hb.lift_push hproper hsize hknown hdir he
    have hisDir : a.entry.isDir = true := by simp [Addition.entry, hkind, Kind.isDir]
    obtain ⟨reply, hadd⟩ : ∃ reply, s.addDir env (handleOf adds a.parent) a.name.filename =
        some (.ok reply, s') := ⟨_, hlift _⟩
    refine ⟨reply, s', ?_, hb'⟩
    simp only [MemFs.addConfigured, hpath, hisDir, if_true]
    exact hadd
  | file content hle =>
    have he := newEntry_file s.nextid (handleOf adds a.parent) (env.time 0)
      ⟨Vector.replicate 8 0⟩ hkind
    obtain ⟨s', hlift, hb'⟩ := hb.lift_push hproper hsize hknown hdir he
    have hisDir : a.entry.isDir = false := by simp [Addition.entry, hkind, Kind.isDir]
    have hcontent : a.entry.content = content := by simp [Addition.entry, hkind, Kind.content]
    have hlookup : s.fs.lookup env.order (handleOf adds a.parent) a.name.filename =
        .error .nfs3errNoent := by
      have hscan := hb.named.scan_free hdir (hb.nameFree_new hproper hknown) env.order
      simp only [Fs.lookup, hdir, a.name.filename_ne_dot, a.name.filename_ne_dotDot, if_false,
        hscan]
    obtain ⟨reply, hadd⟩ : ∃ reply, s.addFile env (handleOf adds a.parent) a.name.filename
        MemFs.noChange content none = some (.ok reply, s') := by
      simp only [MemFs.addFile, setAttr_noChange, he.name, Option.getD_none, hlookup]
      exact ⟨_, hlift _⟩
    refine ⟨reply, s', ?_, hb'⟩
    simp only [MemFs.addConfigured, hpath, hisDir, Bool.false_eq_true, if_false, hcontent]
    exact hadd

/-! ## Listings -/

/-- The entry of a listing for an addition. -/
def listed (adds : List Addition) (a : Addition) : DirEntry :=
  ⟨handleOf adds a.path, a.name.filename, handleOf adds a.path⟩

theorem entriesOf_ids (hb : Built adds s) (hp : Known adds p) {ids : List FileHandleU64}
    (hids : ∀ i, i ∈ ids ↔ i ∈ s.fs.children (handleOf adds p)) (x : DirEntry) :
    x ∈ s.fs.entriesOf Fs.dirEntry ids ↔ ∃ a ∈ adds, a.parent = p ∧ x = listed adds a := by
  have hentry : ∀ a ∈ adds, (s.fs.get (handleOf adds a.path)).map
      (Fs.dirEntry (handleOf adds a.path)) = some (listed adds a) := by
    intro a ha
    obtain ⟨e, hget, hname, -⟩ := hb.entry a ha
    simp [hget, Fs.dirEntry, hname, listed]
  simp only [Fs.entriesOf, List.mem_filterMap]
  constructor
  · rintro ⟨i, hi, hx⟩
    obtain ⟨a, ha, hparent, rfl⟩ := (hb.children p hp i).mp ((hids i).mp hi)
    rw [hentry a ha] at hx
    exact ⟨a, ha, hparent, (Option.some.inj hx).symm⟩
  · rintro ⟨a, ha, hparent, rfl⟩
    refine ⟨handleOf adds a.path, ?_, hentry a ha⟩
    exact (hids _).mpr ((hb.children p hp _).mpr ⟨a, ha, hparent, rfl⟩)

theorem nodup_entriesOf {fs : Fs} {ids : List FileHandleU64} (h : ids.Nodup) :
    (fs.entriesOf Fs.dirEntry ids).Nodup := by
  apply h.filterMap
  intro i j x hi hj
  obtain ⟨e, -, rfl⟩ := Option.map_eq_some_iff.mp hi
  obtain ⟨e', -, he'⟩ := Option.map_eq_some_iff.mp hj
  exact (congrArg Entry3.fileid he').symm

theorem nodup_listed (hproper : Proper adds) (hsize : adds.length ≤ maxCapacity) (p : Path) :
    ((adds.filter (·.parent = p)).map (listed adds)).Nodup := by
  have hadds : adds.Nodup := List.Nodup.of_map _ hproper.nodup
  apply List.Nodup.map_on _ (hadds.filter _)
  intro a ha b hb heq
  have ha := (List.mem_filter.mp ha).1
  have hb := (List.mem_filter.mp hb).1
  have hpath : a.path = b.path :=
    handleOf_inj hsize (Or.inr (List.mem_map_of_mem ha)) (Or.inr (List.mem_map_of_mem hb))
      (congrArg Entry3.fileid heq)
  exact List.inj_on_of_nodup_map hproper.nodup ha hb hpath

/-- A directory lists the entries that were added below it. -/
theorem makeIter_perm (hb : Built adds s) (hproper : Proper adds)
    (hsize : adds.length ≤ maxCapacity)
    (hp : p = [] ∨ ∃ b ∈ adds, b.path = p ∧ b.kind = .dir) (order : HashOrder) :
    ∃ ids, s.fs.makeIter order (handleOf adds p) 0 = .ok ids ∧
      (s.fs.entriesOf Fs.dirEntry ids).Perm
        ((adds.filter (·.parent = p)).map (listed adds)) := by
  obtain ⟨dir, hdir⟩ := hb.get_dir hp
  have hknown : Known adds p := hp.imp_right fun ⟨b, hmem, hpath, _⟩ =>
    hpath ▸ List.mem_map_of_mem hmem
  refine ⟨order.iter (handleOf adds p) dir.content, by simp [Fs.makeIter, hdir], ?_⟩
  rw [List.perm_ext_iff_of_nodup (nodup_entriesOf (order.nodup_iter _ _))
    (nodup_listed hproper hsize p)]
  intro x
  rw [hb.entriesOf_ids hknown]
  · simp [and_assoc, eq_comm]
  · intro i
    rw [order.mem_iter, Fs.children_of_get hdir]
    rfl

end Built

/-! ## All entries -/

theorem configure_concat {s s₁ s₂ : MemFs} {entries : List (Env × MemFsConfigEntry)} {env : Env}
    {entry : MemFsConfigEntry} {reply : Reply} (h : s.configure entries = some (.ok s₁))
    (hadd : s₁.addConfigured env entry = some (.ok reply, s₂)) :
    s.configure (entries ++ [(env, entry)]) = some (.ok s₂) := by
  induction entries generalizing s with
  | nil =>
    cases h
    simp [MemFs.configure, hadd]
  | cons first entries ih =>
    obtain ⟨env', entry'⟩ := first
    obtain ⟨⟨r, s'⟩, hfirst, hrest⟩ := Option.bind_eq_some_iff.mp h
    cases r with
    | error e => cases hrest
    | ok reply' =>
      rw [List.cons_append, MemFs.configure, hfirst]
      exact ih hrest

theorem built_new {adds : List Addition} (hproper : Proper adds)
    (hsize : adds.length ≤ maxCapacity) (currentTime : Nfstime3) (envs : ℕ → Env) :
    ∃ s, MemFs.new currentTime envs (configOf adds) = some (.ok s) ∧ Built adds s := by
  unfold MemFs.new
  rw [entries_configOf]
  induction adds using List.reverseRecOn with
  | nil => exact ⟨_, rfl, built_default currentTime⟩
  | append_singleton adds a ih =>
    rw [List.length_append, List.length_singleton] at hsize
    obtain ⟨s, hconfigure, hb⟩ := ih hproper.init (by omega)
    obtain ⟨reply, s', hadd, hb'⟩ := hb.addConfigured hproper (by omega) (envs adds.length)
    refine ⟨s', ?_, hb'⟩
    rw [List.map_append, List.map_singleton, List.mapIdx_concat, List.length_map]
    exact configure_concat hconfigure hadd

/-- Whatever proper configuration it is given, the file system starts with it: every path leads,
in any iteration order, to an entry of its kind, with the content and the size of a file; paths
are told apart by their handles; and every directory lists the entries added below it. -/
theorem started_as_configured {adds : List Addition} (hproper : Proper adds)
    (hsize : adds.length ≤ maxCapacity) (currentTime : Nfstime3) (envs : ℕ → Env) :
    ∃ (s : MemFs) (handle : Path → FileHandleU64),
      MemFs.new currentTime envs (configOf adds) = some (.ok s) ∧ handle [] = s.rootdir ∧
      (∀ a ∈ adds, (∀ order, s.pathToIdImpl order a.path.text = .ok (handle a.path)) ∧
        ∃ e, s.fs.get (handle a.path) = some e ∧ a.kind.Describes e) ∧
      (∀ a ∈ adds, ∀ b ∈ adds, handle a.path = handle b.path → a.path = b.path) ∧
      ∀ p, (p = [] ∨ ∃ b ∈ adds, b.path = p ∧ b.kind = .dir) → ∀ order, ∃ ids entries,
        (Fs.readdir order).openDir s.fs (handle p) 0 = (.ok ids, s.fs) ∧
        Iterates (Fs.readdir order) (· = s.fs) entries ids ∧
        entries.Perm ((adds.filter (·.parent = p)).map fun a =>
          ⟨handle a.path, a.name.filename, handle a.path⟩) := by
  obtain ⟨s, hnew, hb⟩ := built_new hproper hsize currentTime envs
  have hknown : ∀ a ∈ adds, Known adds a.path := fun a ha => Or.inr (List.mem_map_of_mem ha)
  refine ⟨s, handleOf adds, hnew, hb.rootdir.symm, ?_, ?_, ?_⟩
  · intro a ha
    obtain ⟨e, hget, -, hdescribes⟩ := hb.entry a ha
    exact ⟨fun order => hb.pathToIdImpl_text hproper order (hknown a ha), e, hget, hdescribes⟩
  · intro a ha b hb'
    exact handleOf_inj hsize (hknown a ha) (hknown b hb')
  · intro p hp order
    obtain ⟨ids, hiter, hperm⟩ := hb.makeIter_perm hproper hsize hp order
    refine ⟨ids, _, ?_, Fs.iterates_dirVfs ?_, hperm⟩
    · exact congrArg (·, s.fs) hiter
    · rintro _ rfl _ _
      rfl

/-- A directory and a file in it that repeats its name. -/
def sampleAdds : List Addition :=
  let name : Component := ⟨['a'], by decide, by decide, by decide, by decide⟩
  [⟨[], name, .dir⟩, ⟨[name], name, .file [1, 2] (by decide)⟩]

theorem proper_sampleAdds : Proper sampleAdds := by
  constructor
  · decide
  · intro pre a post hadds
    match pre with
    | [] =>
      cases hadds
      exact Or.inl rfl
    | [first] =>
      cases hadds
      exact Or.inr ⟨_, List.mem_singleton_self _, rfl, rfl⟩
    | first :: second :: pre =>
      have hlength := congrArg List.length hadds
      simp [sampleAdds] at hlength

theorem started_as_configured_sampleAdds :
    ∃ s id f, MemFs.new ⟨0, 0⟩ (fun _ => MemFs.sampleEnv) (configOf sampleAdds) = some (.ok s) ∧
      s.pathToIdImpl .ascending "/a/a" = .ok id ∧ s.fs.get id = some (.file f) ∧
      f.content = [1, 2] := by
  obtain ⟨s, handle, hnew, -, hpaths, -⟩ := started_as_configured proper_sampleAdds (by decide)
    ⟨0, 0⟩ (fun _ => MemFs.sampleEnv)
  obtain ⟨hpath, e, hget, hdescribes⟩ := hpaths _ (List.mem_cons_of_mem _ List.mem_cons_self)
  cases e with
  | dir dir => exact hdescribes.elim
  | file f => exact ⟨s, _, f, hnew, hpath .ascending, hget, hdescribes.1⟩

end Nfs3.Memfs
