import Mathlib.Data.String.Basic
import Nfs3.Server.MemFs.Config
import Nfs3.Server.MountHandlers

/-!
# Which paths can be mounted

`MNT` cuts the export path off as a piece of text, trims slashes and then blanks, and has the
components of what is left looked up one after the other. A path should name the export or
something below it; what the text comparison and the blanks make of other paths is told by
`mount_exact_iff`.
-/
namespace Nfs3

open Interaction (Prog)

/-! ## Splitting at slashes -/

theorem splitOnAux_slash (s : String) (b i : String.Pos.Raw) (r : List String) :
    String.splitOnAux s "/" b i 0 r = String.splitAux s (· == '/') b i r := by
  have hget : String.Pos.Raw.get "/" 0 = '/' := rfl
  have hnext : String.Pos.Raw.next "/" 0 = ⟨1⟩ := rfl
  have hend : String.Pos.Raw.atEnd "/" ⟨1⟩ = true := rfl
  fun_induction String.splitAux s (· == '/') b i r with
  | case1 b i r h r' =>
    unfold String.splitOnAux
    simp [h, r']
  | case2 b i r h hlt hp i' ih =>
    unfold String.splitOnAux
    have hc : i.get s = '/' := by simpa using hp
    have hback : (i.next s).unoffsetBy ⟨1⟩ = i := by
      rw [String.Pos.Raw.next, hc]
      cases i
      rfl
    rw [if_neg h, hget, if_pos hp]
    dsimp only
    rw [hnext, if_pos hend, hback]
    exact ih
  | case3 b i r h hlt hp ih =>
    unfold String.splitOnAux
    have hback : i.unoffsetBy 0 = i := by
      cases i
      rfl
    rw [if_neg h, hget, if_neg hp, hback]
    exact ih

theorem splitOn_slash (s : String) :
    s.splitOn "/" = (s.toList.splitOnP (· == '/')).map String.ofList := by
  have hsep : ¬("/" == "") = true := by decide
  rw [String.splitOn, if_neg hsep, splitOnAux_slash, ← String.splitToList_of_valid]
  rfl

/-- The names between slashes that are not empty. -/
def components (cs : List Char) : List (List Char) :=
  (cs.splitOnP (· == '/')).filter (· ≠ [])

theorem components_cons_slash (cs : List Char) : components ('/' :: cs) = components cs := by
  simp [components, List.splitOnP_cons_eq_if_modifyHead]

theorem components_append_slash (cs : List Char) : components (cs ++ ['/']) = components cs := by
  simp [components, List.splitOnP_append_cons]

theorem components_dropWhile (cs : List Char) :
    components (cs.dropWhile (· = '/')) = components cs := by
  induction cs with
  | nil => rfl
  | cons c cs ih =>
    by_cases hc : c = '/'
    · rw [List.dropWhile_cons_of_pos (by simpa using hc), ih, hc, components_cons_slash]
    · rw [List.dropWhile_cons_of_neg (by simpa using hc)]

theorem components_trimEnd (cs : List Char) :
    components (MountHandlers.trimEnd (· = '/') cs) = components cs := by
  induction cs using List.reverseRecOn with
  | nil => rfl
  | append_singleton cs c ih =>
    unfold MountHandlers.trimEnd at ih ⊢
    rw [List.reverse_append, List.reverse_singleton, List.singleton_append]
    by_cases hc : c = '/'
    · rw [List.dropWhile_cons_of_pos (by simpa using hc), ih, hc, components_append_slash]
    · rw [List.dropWhile_cons_of_neg (by simpa using hc)]
      simp

/-- Together the names are the characters other than slashes. -/
theorem flatten_components (cs : List Char) : (components cs).flatten = cs.filter (· ≠ '/') := by
  rw [components, List.flatten_filter_ne_nil]
  induction cs with
  | nil => rfl
  | cons c cs ih =>
    rw [List.splitOnP_cons_eq_if_modifyHead]
    by_cases hc : c = '/'
    · simp [hc, ih]
    · obtain ⟨head, tail, heq⟩ := List.exists_cons_of_ne_nil (List.splitOnP_ne_nil (· == '/') cs)
      rw [heq] at ih ⊢
      rw [List.filter_cons_of_pos (by simpa using hc), ← ih]
      simp [hc]

theorem filename_injective :
    Function.Injective fun name : List Char => Filename3.ofString (.ofList name) := by
  intro a b hab
  have hbytes : (String.ofList a).toUTF8 = (String.ofList b).toUTF8 := by
    have hlist : (String.ofList a).toUTF8.data.toList = (String.ofList b).toUTF8.data.toList :=
      congrArg (fun f : Filename3 => f.val.data) hab
    exact ByteArray.ext (Array.toList_inj.mp hlist)
  exact String.ofList_injective (String.toByteArray_inj.mp hbytes)

/-! ## Trimming blanks -/

namespace MountHandlers

/-- White space stands neither first nor last among the characters other than slashes. -/
def NoOuterBlank (cs : List Char) : Prop :=
  (∀ c ∈ (cs.filter (· ≠ '/')).head?, ¬isWhitespace c) ∧
    ∀ c ∈ (cs.filter (· ≠ '/')).getLast?, ¬isWhitespace c

theorem not_isWhitespace_slash : isWhitespace '/' = false := by decide

/-- The path without the slashes around it. -/
def trimSlashes (cs : List Char) : List Char := trimEnd (· = '/') (cs.dropWhile (· = '/'))

theorem trimPath_eq (cs : List Char) :
    (trimPath cs).toList = trimEnd isWhitespace ((trimSlashes cs).dropWhile isWhitespace) := by
  simp [trimPath, trimSlashes]

theorem components_trimSlashes (cs : List Char) : components (trimSlashes cs) = components cs := by
  rw [trimSlashes, components_trimEnd, components_dropWhile]

theorem filter_trimSlashes (cs : List Char) :
    (trimSlashes cs).filter (· ≠ '/') = cs.filter (· ≠ '/') := by
  rw [← flatten_components, components_trimSlashes, flatten_components]

/-- The text has no slash in front. -/
def Unslashed (cs : List Char) : Prop := cs.head? ≠ some '/'

theorem unslashed_dropWhile (cs : List Char) : Unslashed (cs.dropWhile (· = '/')) := by
  intro h
  have hnot := List.head?_dropWhile_not (· = '/') cs
  rw [h] at hnot
  simp at hnot

/-- Without a slash in front, the first character is the first one other than slashes. -/
theorem head?_filter_of_unslashed {cs : List Char} (h : Unslashed cs) :
    (cs.filter (· ≠ '/')).head? = cs.head? := by
  cases cs with
  | nil => rfl
  | cons c cs =>
    have hc : c ≠ '/' := fun hc => h (by rw [hc, List.head?_cons])
    rw [List.filter_cons_of_pos (by simpa using hc), List.head?_cons, List.head?_cons]

theorem unslashed_trimSlashes (cs : List Char) : Unslashed (trimSlashes cs) := by
  intro h
  refine unslashed_dropWhile cs ?_
  have hprefix : trimSlashes cs <+: cs.dropWhile (· = '/') := by
    rw [trimSlashes, trimEnd]
    exact List.reverse_suffix.mp (by simpa using List.dropWhile_suffix _)
  obtain ⟨rest, hrest⟩ := hprefix
  rw [← hrest, List.head?_append, h]
  rfl

theorem unslashed_reverse_trimSlashes (cs : List Char) : Unslashed (trimSlashes cs).reverse := by
  rw [trimSlashes, trimEnd, List.reverse_reverse]
  exact unslashed_dropWhile _

theorem noOuterBlank_iff (cs : List Char) :
    NoOuterBlank cs ↔ (∀ c ∈ (trimSlashes cs).head?, ¬isWhitespace c) ∧
      ∀ c ∈ (trimSlashes cs).reverse.head?, ¬isWhitespace c := by
  rw [NoOuterBlank, ← filter_trimSlashes, head?_filter_of_unslashed (unslashed_trimSlashes cs),
    ← List.head?_reverse, ← List.filter_reverse,
    head?_filter_of_unslashed (unslashed_reverse_trimSlashes cs)]

theorem dropWhile_eq_self {p : Char → Bool} {cs : List Char} (h : ∀ c ∈ cs.head?, ¬p c) :
    cs.dropWhile p = cs := by
  cases cs with
  | nil => rfl
  | cons c cs => exact List.dropWhile_cons_of_neg (h c (by simp))

/-- Dropping blanks in front drops one that is no slash. -/
theorem length_filter_dropWhile_lt {cs : List Char} {c : Char} (hc : c ∈ cs.head?)
    (hblank : isWhitespace c) :
    ((cs.dropWhile isWhitespace).filter (· ≠ '/')).length < (cs.filter (· ≠ '/')).length := by
  cases cs with
  | nil => simp at hc
  | cons d cs =>
    obtain rfl : d = c := by simpa using hc
    have hslash : d ≠ '/' := by
      rintro rfl
      rw [not_isWhitespace_slash] at hblank
      cases hblank
    rw [List.dropWhile_cons_of_pos hblank, List.filter_cons_of_pos (by simpa using hslash),
      List.length_cons]
    exact Nat.lt_succ_of_le ((List.dropWhile_sublist _).filter _).length_le

theorem length_filter_trimEnd (p : Char → Bool) (cs : List Char) :
    ((trimEnd p cs).filter (· ≠ '/')).length =
      ((cs.reverse.dropWhile p).filter (· ≠ '/')).length := by
  rw [trimEnd, List.filter_reverse, List.length_reverse]

theorem length_filter_reverse (cs : List Char) :
    (cs.reverse.filter (· ≠ '/')).length = (cs.filter (· ≠ '/')).length := by
  rw [List.filter_reverse, List.length_reverse]

theorem components_trimPath {cs : List Char} (h : NoOuterBlank cs) :
    components (trimPath cs).toList = components cs := by
  obtain ⟨hfirst, hlast⟩ := (noOuterBlank_iff cs).mp h
  rw [trimPath_eq, dropWhile_eq_self hfirst, trimEnd, dropWhile_eq_self hlast,
    List.reverse_reverse, components_trimSlashes]

theorem length_trimPath_lt {cs : List Char} (h : ¬NoOuterBlank cs) :
    (components (trimPath cs).toList).flatten.length < (components cs).flatten.length := by
  rw [flatten_components, flatten_components, ← filter_trimSlashes cs, trimPath_eq,
    length_filter_trimEnd]
  set t := trimSlashes cs with ht
  have hsublist := List.dropWhile_sublist isWhitespace (l := (t.dropWhile isWhitespace).reverse)
  have hend := (hsublist.filter (· ≠ '/')).length_le
  rw [length_filter_reverse] at hend
  rw [noOuterBlank_iff, not_and_or] at h
  rcases h with hfirst | hlast
  · push Not at hfirst
    obtain ⟨c, hc, hblank⟩ := hfirst
    exact lt_of_le_of_lt hend (length_filter_dropWhile_lt hc hblank)
  · by_cases hfirst : ∀ c ∈ t.head?, ¬isWhitespace c
    · rw [dropWhile_eq_self hfirst]
      push Not at hlast
      obtain ⟨c, hc, hblank⟩ := hlast
      rw [← length_filter_reverse t]
      exact length_filter_dropWhile_lt hc hblank
    · push Not at hfirst
      obtain ⟨c, hc, hblank⟩ := hfirst
      exact lt_of_le_of_lt hend (length_filter_dropWhile_lt hc hblank)

end MountHandlers

/-! ## File systems that are walked -/

/-- `format!("/{}", export_name.trim_end_matches('/').trim_start_matches('/'))`. -/
def withExportName (exportName : String) : String :=
  .ofList ('/' :: (MountHandlers.trimEnd (· = '/') exportName.toList).dropWhile (· = '/'))

/-- What `lookup_by_path` uses of a file system. A lookup may change the state `σ`. -/
structure LookupFs (σ H : Type) where
  rootDir : H
  lookup : σ → H → Filename3 → Except Nfsstat3 H × σ

namespace LookupFs

variable {σ H : Type} (fs : LookupFs σ H)

/-- The names are looked up one by one, each in what the one before led to. -/
def resolve : σ → H → List Filename3 → Except Nfsstat3 H × σ
  | s, id, [] => (.ok id, s)
  | s, id, name :: names =>
    match fs.lookup s id name with
    | (.error stat, s) => (.error stat, s)
    | (.ok id, s) => resolve s id names

def vfsAnswer (s : σ) : (c : VfsCall H Unit Unit) → Option (c.Reply × σ)
  | .rootDir => some (fs.rootDir, s)
  | .lookup dirid filename => some (fs.lookup s dirid filename)
  | _ => none

/-- `lookup_by_path` in its default form. -/
def lookupByPath (s : σ) (path : String) : Option (Except Nfsstat3 H × σ) :=
  (defaultLookupByPath Vfs.rootDir Vfs.lookup path : VfsM H Unit Unit _).runIn fs.vfsAnswer s

def answer (s : σ) : (c : ServerCall H Unit Unit) → Option (c.Reply × σ)
  | .vfs (.lookupByPath path) => fs.lookupByPath s path
  | .mountSignal _ => some ((), s)
  | _ => none

def mount [FileHandle H] (s : σ) (context : RPCContext) (xid : UInt32) (path : Mount.Dirpath) :
    Option Mount.Mountres3 :=
  ((MountHandlers.mountproc3Mnt context xid path : ServerM H Unit Unit _).runIn fs.answer s).map
    Prod.fst

def names (cs : List Char) : List Filename3 :=
  (components cs).map fun name => .ofString (.ofList name)

theorem lookupComponents_eq (s : σ) (id : H) (parts : List (List Char)) :
    (lookupComponents Vfs.lookup id (parts.map String.ofList) :
        VfsM H Unit Unit _).runIn fs.vfsAnswer s =
      some (fs.resolve s id ((parts.filter (· ≠ [])).map fun name =>
        .ofString (.ofList name))) := by
  induction parts generalizing s id with
  | nil => rfl
  | cons part parts ih =>
    rw [List.map_cons, lookupComponents]
    by_cases hempty : part = []
    · rw [if_pos (by simp [hempty]), ih, List.filter_cons_of_neg (by simpa using hempty)]
    · rw [if_neg (by simpa [String.isEmpty_iff] using hempty),
        List.filter_cons_of_pos (by simpa using hempty), List.map_cons, resolve]
      rcases hlookup : fs.lookup s id (.ofString (.ofList part)) with ⟨result, s'⟩
      have hanswer : fs.vfsAnswer s (.lookup id (.ofString (.ofList part))) =
          some (result, s') := congrArg some hlookup
      refine (Prog.runIn_ask_bind hanswer _).trans ?_
      cases result with
      | error stat => rfl
      | ok id => exact ih s' id

theorem lookupByPath_eq (s : σ) (path : String) :
    fs.lookupByPath s path = some (fs.resolve s fs.rootDir (names path.toList)) := by
  rw [lookupByPath, defaultLookupByPath, splitOn_slash]
  have hanswer : fs.vfsAnswer s .rootDir = some (fs.rootDir, s) := rfl
  exact (Prog.runIn_ask_bind hanswer _).trans (fs.lookupComponents_eq s fs.rootDir _)

theorem runIn_signal (s : σ) (context : RPCContext) (mounted : Bool) :
    (signal context mounted : ServerM H Unit Unit Unit).runIn fs.answer s = some ((), s) := by
  unfold signal
  split_ifs
  · rfl
  · rfl

variable [FileHandle H]

def mountReply (context : RPCContext) (id : H) : Mount.Mountres3Ok :=
  ⟨⟨(context.fileHandleConverter.fhToNfs id).data⟩,
    [AuthFlavor.authNull.asU32, AuthFlavor.authUnix.asU32]⟩

theorem mount_eq {s : σ} {context : RPCContext} {xid : UInt32} {path : Mount.Dirpath}
    {utf8path : String} (h : MountHandlers.fromUtf8 path.val.data = some utf8path) :
    fs.mount s context xid path = some
      (match MountHandlers.stripExportName utf8path context.exportName with
      | none => .err .mnt3errNoent
      | some rest =>
        match (fs.resolve s fs.rootDir (names (MountHandlers.trimPath rest).toList)).1 with
        | .error _ => .err .mnt3errNoent
        | .ok id => .ok (mountReply context id)) := by
  unfold mount MountHandlers.mountproc3Mnt
  rw [h]
  dsimp only
  cases MountHandlers.stripExportName utf8path context.exportName with
  | none => rfl
  | some rest =>
    rcases hresolve : fs.resolve s fs.rootDir (names (MountHandlers.trimPath rest).toList) with
      ⟨result, s'⟩
    have hanswer : fs.answer s (.vfs (.lookupByPath (MountHandlers.trimPath rest))) =
        some (result, s') := (fs.lookupByPath_eq s _).trans (congrArg some hresolve)
    refine (congrArg (Option.map Prod.fst) (Prog.runIn_ask_bind hanswer _)).trans ?_
    dsimp only
    rw [hresolve]
    cases result with
    | error stat => rfl
    | ok id =>
      refine (congrArg (Option.map Prod.fst) Prog.runIn_bind).trans ?_
      rw [runIn_signal]
      rfl

end LookupFs

/-! ## The in-memory file system

It brings its own `lookup_by_path`, which walks the same way. -/

namespace Memfs

def lookupFs (order : HashOrder) (memfs : MemFs) : LookupFs Unit FileHandleU64 where
  rootDir := memfs.rootdir
  lookup _ dirid filename := ((memfs.fs.lookup order dirid filename).map Entry.fileid, ())

theorem lookupByPath_eq_pathToIdImpl (order : HashOrder) (memfs : MemFs) (path : String) :
    (lookupFs order memfs).lookupByPath () path = some (memfs.pathToIdImpl order path, ()) := by
  rw [LookupFs.lookupByPath_eq, MemFs.pathToIdImpl, splitOn_slash]
  unfold LookupFs.names components
  generalize path.toList.splitOnP (· == '/') = parts
  show some ((lookupFs order memfs).resolve () memfs.rootdir _) = _
  generalize memfs.rootdir = id
  congr 1
  induction parts generalizing id with
  | nil => rfl
  | cons part parts ih =>
    rw [List.map_cons, List.foldlM_cons]
    by_cases hempty : part = []
    · rw [List.filter_cons_of_neg (by simpa using hempty), ih, if_pos (by simp [hempty])]
      rfl
    · rw [List.filter_cons_of_pos (by simpa using hempty), List.map_cons, LookupFs.resolve,
        if_neg (by simpa [String.isEmpty_iff] using hempty)]
      rcases hlookup : (memfs.fs.lookup order id (.ofString (.ofList part))).map Entry.fileid with
        stat | id'
      · have hresult : (lookupFs order memfs).lookup () id (.ofString (.ofList part)) =
            (.error stat, ()) := congrArg (·, ()) hlookup
        rw [hresult]
        rfl
      · have hresult : (lookupFs order memfs).lookup () id (.ofString (.ofList part)) =
            (.ok id', ()) := congrArg (·, ()) hlookup
        rw [hresult]
        exact ih id'

end Memfs

/-! ## Mounting exactly the export -/

def Mount.Dirpath.ofString (path : String) : Mount.Dirpath := ⟨⟨path.toUTF8.data.toList⟩⟩

theorem fromUtf8_ofString (path : String) :
    MountHandlers.fromUtf8 (Mount.Dirpath.ofString path).val.data = some path := by
  have hvalid : path.toByteArray.IsValidUTF8 := path.isValidUTF8
  simp [MountHandlers.fromUtf8, Mount.Dirpath.ofString, String.fromUTF8?, hvalid, String.fromUTF8]

/-- The remainder of a path behind the export path does not go on with a name of it. -/
def AtBoundary (exportPath : String) (rest : List Char) : Prop :=
  rest = [] ∨ rest.head? = some '/' ∨ exportPath = "/"

/-- On every file system the path is mounted if and only if it is the export path and a
remainder whose components can be looked up, and the handle is the one they lead to. -/
def MountsExactly (exportName path : String) : Prop :=
  ∀ (σ H : Type) (_ : FileHandle H) (fs : LookupFs σ H) (s : σ) (context : RPCContext)
    (xid : UInt32) (reply : Mount.Mountres3Ok),
    context.exportName = withExportName exportName →
    (fs.mount s context xid (.ofString path) = some (.ok reply) ↔
      ∃ rest id, path.toList = (withExportName exportName).toList ++ rest ∧
        AtBoundary (withExportName exportName) rest ∧
        (fs.resolve s fs.rootDir (LookupFs.names rest)).1 = .ok id ∧
        reply = LookupFs.mountReply context id)

theorem stripExportName_eq_some {path exportPath : String} {rest : List Char} :
    MountHandlers.stripExportName path exportPath = some rest ↔
      path.toList = exportPath.toList ++ rest := by
  unfold MountHandlers.stripExportName
  constructor
  · intro h
    split_ifs at h with hprefix
    obtain ⟨rest', hrest⟩ := List.isPrefixOf_iff_prefix.mp hprefix
    rw [← hrest, List.drop_left] at h
    rw [← hrest, Option.some.inj h]
  · intro h
    rw [h, if_pos (List.isPrefixOf_iff_prefix.mpr (List.prefix_append _ _)), List.drop_left]

/-- What the code mounts: the remainder is taken as it is trimmed. -/
theorem LookupFs.mount_ok_iff {σ H : Type} [FileHandle H] (fs : LookupFs σ H) {s : σ}
    {context : RPCContext} {xid : UInt32} {path : String} {reply : Mount.Mountres3Ok} :
    fs.mount s context xid (.ofString path) = some (.ok reply) ↔
      ∃ rest id, path.toList = context.exportName.toList ++ rest ∧
        (fs.resolve s fs.rootDir (names (MountHandlers.trimPath rest).toList)).1 = .ok id ∧
        reply = mountReply context id := by
  rw [fs.mount_eq (fromUtf8_ofString path)]
  constructor
  · intro h
    split at h
    · cases h
    · next rest hrest =>
      split at h
      · cases h
      · next id hid =>
        cases h
        exact ⟨rest, id, stripExportName_eq_some.mp hrest, hid, rfl⟩
  · rintro ⟨rest, id, hpath, hid, rfl⟩
    rw [stripExportName_eq_some.mpr hpath]
    dsimp only
    rw [hid]

theorem mountsExactly_of {exportName path : String}
    (h : ∀ rest, path.toList = (withExportName exportName).toList ++ rest →
      AtBoundary (withExportName exportName) rest ∧ MountHandlers.NoOuterBlank rest) :
    MountsExactly exportName path := by
  intro σ H _ fs s context xid reply hexport
  rw [fs.mount_ok_iff, hexport]
  constructor
  · rintro ⟨rest, id, hpath, hid, hreply⟩
    obtain ⟨hboundary, hblank⟩ := h rest hpath
    rw [LookupFs.names, MountHandlers.components_trimPath hblank] at hid
    exact ⟨rest, id, hpath, hboundary, hid, hreply⟩
  · rintro ⟨rest, id, hpath, -, hid, hreply⟩
    rw [LookupFs.names, ← MountHandlers.components_trimPath (h rest hpath).2] at hid
    exact ⟨rest, id, hpath, hid, hreply⟩

/-- The file system in which there is nothing but the objects along one path, each known by the
names that lead to it. -/
def LookupFs.branch (path : List Filename3) : LookupFs Unit (List Filename3) where
  rootDir := []
  lookup _ dir name :=
    (if dir ++ [name] <+: path then .ok (dir ++ [name]) else .error .nfs3errNoent, ())

theorem LookupFs.resolve_branch {path dir names : List Filename3} (h : dir <+: path) :
    (∃ id, ((branch path).resolve () dir names).1 = .ok id) ↔ dir ++ names <+: path := by
  induction names generalizing dir with
  | nil => simpa [resolve] using h
  | cons name names ih =>
    rw [resolve]
    by_cases hname : dir ++ [name] <+: path
    · have hlookup : (branch path).lookup () dir name = (.ok (dir ++ [name]), ()) :=
        congrArg (·, ()) (if_pos hname)
      rw [hlookup]
      simpa using ih hname
    · have hlookup : (branch path).lookup () dir name = (.error .nfs3errNoent, ()) :=
        congrArg (·, ()) (if_neg hname)
      rw [hlookup]
      constructor
      · rintro ⟨id, ⟨⟩⟩
      · intro hprefix
        refine absurd (List.IsPrefix.trans ?_ hprefix) hname
        exact (List.prefix_append_right_inj dir).mpr (by simp)

/-- Longer names are not found where there is only the path of shorter ones. -/
theorem LookupFs.not_names_prefix {cs ds : List Char}
    (h : (components ds).flatten.length < (components cs).flatten.length) :
    ¬names cs <+: names ds := by
  intro hprefix
  have hcomponents := (List.prefix_map_iff_of_injective filename_injective).mp hprefix
  obtain ⟨rest, hrest⟩ := hcomponents
  rw [← hrest, List.flatten_append, List.length_append] at h
  omega

/-- Objects of `branch` are told apart by their names, not by the bytes of handles. -/
instance : FileHandle (List Filename3) where
  asBytes _ := []
  fromBytes _ := none

def exportContext (exportName : String) : RPCContext where
  localPort := 0
  clientAddr := ""
  auth := ⟨0, ⟨[]⟩, 0, 0, []⟩
  mountSignal := false
  exportName := withExportName exportName
  fileHandleConverter := ⟨0⟩

theorem conditions_of_mountsExactly {exportName path : String}
    (h : MountsExactly exportName path) {rest : List Char}
    (hpath : path.toList = (withExportName exportName).toList ++ rest) :
    AtBoundary (withExportName exportName) rest ∧ MountHandlers.NoOuterBlank rest := by
  obtain ⟨trimmed, htrimmed⟩ :
      ∃ names, names = LookupFs.names (MountHandlers.trimPath rest).toList := ⟨_, rfl⟩
  obtain ⟨id, hid⟩ := (LookupFs.resolve_branch (List.nil_prefix (l := trimmed))).mpr
    (List.prefix_refl trimmed)
  have hmount : (LookupFs.branch trimmed).mount () (exportContext exportName) 0 (.ofString path) =
      some (.ok (LookupFs.mountReply (exportContext exportName) id)) := by
    refine (LookupFs.branch trimmed).mount_ok_iff.mpr ⟨rest, id, hpath, ?_, rfl⟩
    rw [← htrimmed]
    exact hid
  obtain ⟨rest', id', hpath', hboundary, hid', -⟩ :=
    (h _ _ _ (LookupFs.branch trimmed) () (exportContext exportName) 0 _ rfl).mp hmount
  obtain rfl : rest = rest' := List.append_cancel_left (hpath.symm.trans hpath')
  refine ⟨hboundary, ?_⟩
  by_contra hblank
  refine LookupFs.not_names_prefix (MountHandlers.length_trimPath_lt hblank) ?_
  rw [← htrimmed]
  exact (LookupFs.resolve_branch List.nil_prefix).mp ⟨id', hid'⟩

/-- A path is mounted as its components say, whatever the file system, if and only if the text
behind the export path starts a new component and no blank of its names gets trimmed. -/
theorem mount_exact_iff (exportName path : String) :
    MountsExactly exportName path ↔
      ∀ rest, path.toList = (withExportName exportName).toList ++ rest →
        AtBoundary (withExportName exportName) rest ∧ MountHandlers.NoOuterBlank rest := by
  constructor
  · intro h rest hpath
    exact conditions_of_mountsExactly h hpath
  · exact mountsExactly_of

/-- With the export `/foo`, the path `/foobar` mounts the entry `bar` of the root. -/
theorem mount_beside_export : ¬∀ exportName path, MountsExactly exportName path := by
  intro h
  have hexport : withExportName "foo" = "/foo" := by decide
  have hpath : "/foobar".toList = (withExportName "foo").toList ++ ['b', 'a', 'r'] := by
    rw [hexport]
    decide
  have hconditions := conditions_of_mountsExactly (h "foo" "/foobar") hpath
  rw [hexport] at hconditions
  rcases hconditions.1 with h | h | h
  · cases h
  · simp at h
  · simp at h

end Nfs3
