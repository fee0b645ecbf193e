import Nfs3.Lib.Namespace
import Nfs3.Server.MemFs.Ancestors
import Nfs3.Server.MemFs.Moves

/-!
# The namespace the in-memory file system keeps

Where the flat map describes one tree and no two children of a directory have the same name,
it stands for a `Namespace`: names are bound in directories, directories know the one above.
The operations on the map, which scan content sets and climb along parent fields, then do what
the operations of the namespace are defined to do.
-/
namespace Nfs3.Memfs

open ByteOrder (Bytes)
open LinkedTree
open Namespace (Failure)

/-- What there is to a file apart from its name. -/
structure FileData where
  attr : Fattr3
  content : Bytes
  verf : Createverf3

abbrev Object := Namespace.Object FileData Fattr3

abbrev Names := Namespace FileHandleU64 Filename3 FileData Fattr3

def stat : Failure → Nfsstat3
  | .notFound => .nfs3errNoent
  | .notDirectory => .nfs3errNotdir
  | .alreadyExists => .nfs3errExist
  | .notEmpty => .nfs3errNotempty
  | .invalid => .nfs3errInval
  | .noParent => .nfs3errServerfault

namespace Entry

def object : Entry → Object
  | .file f => .file ⟨f.attr, f.content, f.verf⟩
  | .dir d => .dir d.attr

theorem object_congr {e e' : Entry} (hattr : e'.attr = e.attr) (hdata : e'.data = e.data) :
    e'.object = e.object := by
  cases e with
  | file f =>
    cases e' with
    | file f' =>
      obtain ⟨hcontent, hverf⟩ := Prod.mk.inj (Option.some.inj hdata)
      simp only [object]
      rw [hcontent, hverf, show f'.attr = f.attr from hattr]
    | dir d' => cases hdata
  | dir d =>
    cases e' with
    | file f' => cases hdata
    | dir d' => exact congrArg Namespace.Object.dir hattr

@[simp]
theorem object_relocate (e : Entry) (d : FileHandleU64) (name : Filename3) :
    (e.relocate d name).object = e.object := by
  cases e <;> rfl

end Entry

namespace Fs

variable {order : HashOrder} {fs fs' fs₁ : Fs} {d i j fd td : FileHandleU64}
  {name fn tn : Filename3} {entry : Entry}

def binding (fs : Fs) (d : FileHandleU64) (name : Filename3) : Option FileHandleU64 :=
  (HashOrder.ascending.iter d (fs.children d)).find? fun i => fs.nameOf i = some name

/-- The namespace in a state of the file system. -/
def names (fs : Fs) : Names where
  object i := (fs.get i).map Entry.object
  entry := fs.binding
  up := fs.up
  root := fs.root

/-- The outcome is the one that is specified. -/
def Specified (outcome : Outcome Unit) (spec : Except Failure Unit × Names) : Prop :=
  ∃ fs', outcome = some (spec.1.mapError stat, fs') ∧ fs'.names = spec.2

/-! ## Bindings -/

theorem Named.binding_eq_some (hn : fs.Named) : fs.binding d name = some i ↔ fs.Bound d name i := by
  constructor
  · intro h
    have hname := List.find?_some h
    have hmem := HashOrder.ascending.mem_iter.mp (List.mem_of_find?_eq_some h)
    exact ⟨hmem, by simpa using hname⟩
  · intro h
    have hsome : (fs.binding d name).isSome := by
      rw [binding, List.find?_isSome]
      exact ⟨i, HashOrder.ascending.mem_iter.mpr h.1, by simp [h.2]⟩
    obtain ⟨j, hj⟩ := Option.isSome_iff_exists.mp hsome
    have hname := List.find?_some hj
    have hmem := HashOrder.ascending.mem_iter.mp (List.mem_of_find?_eq_some hj)
    rw [hj, hn.unique d j hmem i h.1]
    rw [h.2]
    simpa using hname

theorem Named.binding_eq_none (hn : fs.Named) :
    fs.binding d name = none ↔ ∀ i, ¬fs.Bound d name i := by
  simp only [Option.eq_none_iff_forall_ne_some, ne_eq, hn.binding_eq_some]

theorem binding_congr (hchildren : fs'.children d = fs.children d)
    (hname : ∀ i, fs'.nameOf i = fs.nameOf i) : fs'.binding d name = fs.binding d name := by
  simp only [binding, hchildren, hname]

theorem Named.find_name {dir : Dir} (hn : fs.Named) (hd : fs.get d = some (.dir dir))
    (order : HashOrder) :
    ((order.iter d dir.content).find? fun i => (fs.get i).any fun f => f.name = name) =
      fs.binding d name := by
  have hmem : ∀ i, i ∈ order.iter d dir.content ↔ i ∈ fs.children d := by
    intro i
    rw [order.mem_iter, children_of_get hd]
    rfl
  have hany : ∀ i, ((fs.get i).any fun f => decide (f.name = name)) = true ↔
      fs.nameOf i = some name := by
    intro i
    unfold nameOf
    cases fs.get i <;> simp
  cases hfind : (order.iter d dir.content).find? fun i => (fs.get i).any fun f => f.name = name with
  | none =>
    refine (hn.binding_eq_none.mpr ?_).symm
    rintro i ⟨hi, hname⟩
    exact List.find?_eq_none.mp hfind i ((hmem i).mpr hi) ((hany i).mpr hname)
  | some i =>
    refine (hn.binding_eq_some.mpr ⟨?_, ?_⟩).symm
    · exact (hmem i).mp (List.mem_of_find?_eq_some hfind)
    · have hname := List.find?_some hfind
      exact (hany i).mp hname

theorem isDir_names : fs.names.IsDir d ↔ fs.isDirAt d = true := by
  unfold Namespace.IsDir isDirAt
  simp only [names]
  cases fs.get d with
  | none => simp
  | some e => cases e <;> simp [Entry.object, Entry.isDir]

theorem Named.empty_names (hn : fs.Named) : fs.names.Empty d ↔ fs.children d = ∅ := by
  constructor
  · intro h
    refine Finset.eq_empty_of_forall_notMem ?_
    intro i hi
    obtain ⟨name, hname⟩ := Option.isSome_iff_exists.mp (hn.closed d i hi)
    exact hn.binding_eq_none.mp (h name) i ⟨hi, hname⟩
  · intro h name
    refine hn.binding_eq_none.mpr ?_
    rintro i ⟨hi, -⟩
    rw [h] at hi
    cases hi

theorem Named.lookup_specified (hn : fs.Named) (order : HashOrder) (d : FileHandleU64)
    (name : Filename3) :
    (∃ e, fs.lookup order d name = .ok e ∧ fs.get e.fileid = some e ∧
      fs.names.lookup dot dotDot d name = .ok e.fileid) ∨
    ∃ f, fs.lookup order d name = .error (stat f) ∧
      fs.names.lookup dot dotDot d name = .error f := by
  cases hget : fs.get d with
  | none =>
    right
    exact ⟨.notFound, by simp [lookup, hget, stat], by simp [Namespace.lookup, names, hget]⟩
  | some e =>
    cases e with
    | file f =>
      right
      refine ⟨.notDirectory, by simp [lookup, hget, stat], ?_⟩
      simp [Namespace.lookup, names, hget, Entry.object]
    | dir dir =>
      have hkey : (Entry.dir dir).fileid = d := hn.keyed d _ hget
      by_cases hdot : name = dot
      · left
        refine ⟨.dir dir, by simp [lookup, hget, hdot], by rw [hkey, hget], ?_⟩
        simp [Namespace.lookup, names, hget, Entry.object, hdot, hkey]
      by_cases hdotDot : name = dotDot
      · subst hdotDot
        have hup : fs.up d = some dir.parent := up_of_get hget
        cases hparent : fs.get dir.parent with
        | none =>
          right
          refine ⟨.noParent, by simp [lookup, hget, hdot, hparent, stat], ?_⟩
          simp [Namespace.lookup, names, hget, Entry.object, hdot, hup, hparent]
        | some p =>
          left
          have hpkey : p.fileid = dir.parent := hn.keyed dir.parent p hparent
          refine ⟨p, by simp [lookup, hget, hdot, hparent], by rw [hpkey, hparent], ?_⟩
          simp [Namespace.lookup, names, hget, Entry.object, hdot, hup, hparent, hpkey]
      cases hbinding : fs.binding d name with
      | none =>
        right
        have hfree := hn.binding_eq_none.mp hbinding
        refine ⟨.notFound, hn.lookup_of_unbound hdot hdotDot (isDirAt_of_get hget) hfree, ?_⟩
        simp [Namespace.lookup, names, hget, Entry.object, hdot, hdotDot, hbinding]
      | some i =>
        left
        have hbound := hn.binding_eq_some.mp hbinding
        obtain ⟨e, he⟩ : ∃ e, fs.get i = some e := by
          have hsome := hn.closed d i hbound.1
          exact Option.isSome_iff_exists.mp (by simpa [nameOf] using hsome)
        have hekey : e.fileid = i := hn.keyed i e he
        refine ⟨e, hn.lookup_of_bound hdot hdotDot hbound he, by rw [hekey, he], ?_⟩
        simp [Namespace.lookup, names, hget, Entry.object, hdot, hdotDot, hbinding, hekey]

theorem Named.lookup_free (hn : fs.Named) (hdot : name ≠ dot) (hdotDot : name ≠ dotDot)
    (hdir : fs.isDirAt d) (hfree : fs.NameFree d name) :
    fs.names.lookup dot dotDot d name = .error .notFound := by
  obtain ⟨dir, hget⟩ := isDirAt_eq_true.mp hdir
  have hbinding : fs.binding d name = none :=
    hn.binding_eq_none.mpr fun i hi => hfree i hi.1 hi.2
  simp [Namespace.lookup, names, hget, Entry.object, hdot, hdotDot, hbinding]

/-! ## Edits -/

theorem object_insert :
    (fs.insert i entry).names.object =
      Function.update fs.names.object i (some entry.object) := by
  funext j
  simp only [names, get_insert, Function.update_apply]
  split_ifs <;> rfl

theorem object_erase : (fs.erase i).names.object = Function.update fs.names.object i none := by
  funext j
  simp only [names, get_erase, Function.update_apply]
  split_ifs <;> rfl

/-- The content set of a directory is not part of the object. -/
theorem object_insert_dir {dir : Dir} (dir' : Dir) (hget : fs.get i = some (.dir dir))
    (hattr : dir'.attr = dir.attr) :
    (fs.insert i (.dir dir')).names.object = fs.names.object := by
  rw [object_insert, Function.update_eq_self_iff]
  simp [names, hget, Entry.object, hattr]

theorem Named.binding_eq {o : Option FileHandleU64} (hn : fs.Named)
    (h : ∀ i, fs.Bound d name i ↔ o = some i) : fs.binding d name = o := by
  apply Option.ext
  intro i
  rw [hn.binding_eq_some, h]

theorem Pushed.bound_iff (h : Pushed fs d entry fs') (hn : fs.Named) (hcontent : entry.content = ∅)
    {e : FileHandleU64} : fs'.Bound e name i ↔
      (i = entry.fileid ∧ e = d ∧ name = entry.name) ∨ fs.Bound e name i := by
  have hnot : entry.fileid ∉ fs.children e := hn.notMem_of_get_none h.fresh
  have hchildren := h.children_eq (j := e) hcontent
  have hname : fs'.nameOf i = if i = entry.fileid then some entry.name else fs.nameOf i := by
    obtain ⟨dir, hget, -, rfl⟩ := h.eq
    have hrename : (Entry.dir (dir.addEntry entry.fileid)).name = (Entry.dir dir).name := rfl
    rw [nameOf_replace hget hrename, nameOf_insert]
  unfold Bound
  rw [hchildren, hname]
  by_cases hi : i = entry.fileid
  · subst hi
    by_cases he : e = d
    · subst he
      simp [hnot, eq_comm]
    · simp [he, hnot]
  · by_cases he : e = d <;> simp [hi, he]

theorem Pushed.names_eq (h : Pushed fs d entry fs') (hn : fs.Named) (hcontent : entry.content = ∅)
    (hup : ∀ u, entry.up = some u → u = d) (hfree : fs.NameFree d entry.name) :
    fs'.names = fs.names.link d entry.name entry.fileid entry.object := by
  have hn' := h.named hn hcontent hfree
  have hbound : ∀ e name i, fs'.Bound e name i ↔
      (i = entry.fileid ∧ e = d ∧ name = entry.name) ∨ fs.Bound e name i :=
    fun _ _ _ => h.bound_iff hn hcontent
  obtain ⟨-, dir, hget, -, rfl⟩ := h
  refine Namespace.ext ?_ ?_ ?_ rfl
  · rw [object_insert_dir (dir.addEntry _) hget rfl, object_insert]
    rfl
  · funext e name
    refine hn'.binding_eq fun i => ?_
    rw [hbound]
    simp only [Namespace.link]
    split_ifs with hnew
    · obtain ⟨rfl, rfl⟩ := hnew
      constructor
      · rintro (⟨rfl, -⟩ | hold)
        · rfl
        · exact absurd hold.2 (hfree i hold.1)
      · rintro ⟨⟩
        exact Or.inl ⟨rfl, rfl, rfl⟩
    · show _ ↔ fs.binding e name = some i
      rw [hn.binding_eq_some]
      tauto
  · funext i
    have hreplace := up_replace (j := i) hget
      (show (Entry.dir (dir.addEntry entry.fileid)).up = (Entry.dir dir).up from rfl)
    show Fs.up _ i = _
    rw [hreplace, up_insert]
    simp only [Namespace.link, names, Function.update_apply]
    split_ifs
    · cases entry with
      | file f => rfl
      | dir dir => exact congrArg some (hup _ rfl)
    · rfl

theorem Removed.names_eq (h : Removed fs td tn i fs') (hn : fs.Named) :
    fs'.names = fs.names.unlink td tn i := by
  have hn' := h.named hn
  have hbound : ∀ d name j, fs'.Bound d name j ↔ j ≠ i ∧ fs.Bound d name j :=
    fun _ _ _ => h.bound_iff hn
  have htarget : fs.Bound td tn i := by
    obtain ⟨entry, hentry, hname, -⟩ := h.entry
    exact ⟨h.child_mem, by rw [nameOf_of_get hentry, hname]⟩
  have hroot := h.root
  refine Namespace.ext ?_ ?_ ?_ hroot
  · obtain ⟨dir, hget, -, rfl⟩ := h.eq
    have hget' : (fs.erase i).get td = some (.dir dir) := by rw [get_erase_of_ne h.ne, hget]
    rw [object_insert_dir (dir.removeEntry _) hget' rfl, object_erase]
    rfl
  · funext d name
    refine hn'.binding_eq fun j => ?_
    rw [hbound]
    simp only [Namespace.unlink]
    split_ifs with hgone
    · obtain ⟨rfl, rfl⟩ := hgone
      refine iff_of_false ?_ (by simp)
      rintro ⟨hne, hj⟩
      have hunique := hn.unique d j hj.1 i htarget.1
      exact hne (hunique (hj.2.trans htarget.2.symm))
    · show _ ↔ fs.binding d name = some j
      rw [hn.binding_eq_some, and_iff_right_iff_imp]
      rintro hj rfl
      exact hgone (hn.bound_unique hj htarget)
  · funext j
    show fs'.up j = _
    rw [h.up_eq]
    simp only [Namespace.unlink, names, Function.update_apply]

theorem Moved.names_eq (h : Moved fs fd i td tn entry fs') (hn : fs.Named) (hn' : fs'.Named)
    (hget : fs.get i = some entry) (hsource : fs.Bound fd fn i) (hroot : fs'.root = fs.root) :
    fs'.names = fs.names.move fd fn td tn i := by
  have htarget : fs'.Bound td tn i := h.bound_iff.mpr (Or.inl ⟨rfl, rfl, rfl⟩)
  refine Namespace.ext ?_ ?_ ?_ hroot
  · funext j
    show (fs'.get j).map Entry.object = (fs.get j).map Entry.object
    by_cases hj : j = i
    · rw [hj, h.source, hget]
      simp
    cases hold : fs.get j with
    | none => rw [h.missing j hold]
    | some e =>
      obtain ⟨e', hget', hsame, -⟩ := h.other j e hj hold
      rw [hget']
      exact congrArg some (Entry.object_congr hsame.attr hsame.data)
  · funext d name
    refine hn'.binding_eq fun j => ?_
    simp only [Namespace.move]
    split_ifs with ht hf
    · obtain ⟨rfl, rfl⟩ := ht
      constructor
      · intro hj
        rw [hn'.unique d i htarget.1 j hj.1 (htarget.2.trans hj.2.symm)]
      · rintro ⟨⟩
        exact htarget
    · obtain ⟨rfl, rfl⟩ := hf
      refine iff_of_false ?_ (by simp)
      rw [h.bound_iff]
      rintro (⟨-, hd, hname⟩ | ⟨hne, hj⟩)
      · exact ht ⟨hd, hname⟩
      · exact hne (hn.unique d j hj.1 i hsource.1 (hj.2.trans hsource.2.symm))
    · show _ ↔ fs.binding d name = some j
      rw [h.bound_iff, hn.binding_eq_some]
      constructor
      · rintro (⟨-, hd, hname⟩ | ⟨-, hj⟩)
        · exact absurd ⟨hd, hname⟩ ht
        · exact hj
      · intro hj
        refine Or.inr ⟨?_, hj⟩
        rintro rfl
        exact hf (hn.bound_unique hj hsource)
  · funext j
    show fs'.up j = _
    have hother : j ≠ i → fs'.up j = fs.up j := by
      intro hj
      cases hold : fs.get j with
      | none => rw [up, up, hold, h.missing j hold]
      | some e =>
        obtain ⟨e', hget', hsame, -⟩ := h.other j e hj hold
        rw [up_of_get hold, up_of_get hget', hsame.up]
    simp only [Namespace.move, names, hget, Option.map_some]
    cases entry with
    | file f =>
      show fs'.up j = fs.up j
      by_cases hj : j = i
      · rw [hj, up_of_get h.source, up_of_get hget]
        rfl
      · exact hother hj
    | dir dir =>
      simp only [Entry.object, Function.update_apply]
      split_ifs with hj
      · rw [hj, up_of_get h.source]
        rfl
      · exact hother hj

theorem names_replace {entry' : Entry} (hget : fs.get i = some entry)
    (hlinks : entry.SameLinks entry') :
    (fs.insert i entry').names = fs.names.put i entry'.object := by
  refine Namespace.ext object_insert ?_ ?_ rfl
  · funext d name
    exact binding_congr (children_replace hget hlinks.content)
      fun j => nameOf_replace hget hlinks.name
  · funext j
    exact up_replace hget hlinks.up

/-! ## The operations -/

theorem push_specified (hn : fs.Named) (hfresh : ¬fs.Known entry.fileid) (hd : d ≠ entry.fileid)
    (hcontent : entry.content = ∅) (hup : ∀ u, entry.up = some u → u = d)
    (hfree : fs.NameFree d entry.name)
    (hlookup : fs.isDirAt d → fs.names.lookup dot dotDot d entry.name = .error .notFound) :
    Specified (fs.push d entry)
      (fs.names.make dot dotDot d entry.name entry.fileid entry.object) := by
  have hnone : fs.get entry.fileid = none := by
    by_contra hsome
    exact hfresh (Or.inl (Option.isSome_iff_ne_none.mpr hsome))
  have hnot : ¬(fs.get entry.fileid).isSome := by simp [hnone]
  have hpush : (fs.insert entry.fileid entry).get d = fs.get d := get_insert_of_ne hd
  cases hget : fs.get d with
  | none =>
    refine ⟨fs, ?_, ?_⟩
    · simp [push, hnot, hpush, hget, Namespace.make, Namespace.lookup, names, erase_insert hnone,
        Except.mapError, stat]
    · simp [Namespace.make, Namespace.lookup, names, hget]
  | some e =>
    cases e with
    | file f =>
      refine ⟨fs, ?_, ?_⟩
      · simp [push, hnot, hpush, hget, Namespace.make, Namespace.lookup, names, Entry.object,
          erase_insert hnone, Except.mapError, stat]
      · simp [Namespace.make, Namespace.lookup, names, hget, Entry.object]
    | dir dir =>
      have hmem : entry.fileid ∉ dir.content := fun hmem => hfresh (known_of_content hget hmem)
      have hpushed : Pushed fs d entry ((fs.insert entry.fileid entry).insert d
          (.dir (dir.addEntry entry.fileid))) := ⟨hnone, dir, by rw [hpush, hget], hmem, rfl⟩
      have hmake : fs.names.make dot dotDot d entry.name entry.fileid entry.object =
          (.ok (), fs.names.link d entry.name entry.fileid entry.object) := by
        rw [Namespace.make, hlookup (isDirAt_of_get hget)]
        simp [names, hget, Entry.object]
      rw [hmake]
      refine ⟨_, ?_, hpushed.names_eq hn hcontent hup hfree⟩
      simp [push, hnot, hpush, hget, hmem, Except.mapError]

theorem remove_specified (ht : fs.Tree) (hn : fs.Named) (order : HashOrder) (d : FileHandleU64)
    (name : Filename3) :
    Specified (fs.remove order d name) (fs.names.remove dot dotDot d name) := by
  by_cases hdots : name = dot ∨ name = dotDot
  · refine ⟨fs, ?_, ?_⟩
    · simp [remove, Namespace.remove, hdots, Except.mapError, stat]
    · simp [Namespace.remove, hdots]
  obtain ⟨hdot, hdotDot⟩ := not_or.mp hdots
  unfold remove Namespace.remove
  rw [if_neg hdots, if_neg hdots]
  cases hget : fs.get d with
  | none =>
    have hlookup : fs.names.lookup dot dotDot d name = .error .notFound := by
      simp [Namespace.lookup, names, hget]
    rw [hlookup]
    exact ⟨fs, rfl, rfl⟩
  | some e =>
    cases e with
    | file f =>
      have hlookup : fs.names.lookup dot dotDot d name = .error .notDirectory := by
        simp [Namespace.lookup, names, hget, Entry.object]
      rw [hlookup]
      exact ⟨fs, rfl, rfl⟩
    | dir dir =>
      dsimp only
      rw [hn.find_name hget]
      cases hbinding : fs.binding d name with
      | none =>
        have hlookup : fs.names.lookup dot dotDot d name = .error .notFound := by
          simp [Namespace.lookup, names, hget, Entry.object, hdot, hdotDot, hbinding]
        rw [hlookup]
        exact ⟨fs, rfl, rfl⟩
      | some i =>
        have hlookup : fs.names.lookup dot dotDot d name = .ok i := by
          simp [Namespace.lookup, names, hget, Entry.object, hdot, hdotDot, hbinding]
        have hbound := hn.binding_eq_some.mp hbinding
        obtain ⟨e, he, hname⟩ := Option.map_eq_some_iff.mp hbound.2
        have hempty : fs.names.Empty i ↔ e.content = ∅ := by
          rw [hn.empty_names, children_of_get he]
        have hne : d ≠ i := by
          rintro rfl
          exact Rooted.not_child_self ht.linked.tree ht.rooted hbound.1
        rw [hlookup]
        simp only [he]
        by_cases hcontent : e.content = ∅
        · rw [if_neg (not_not.mpr hcontent), if_pos (hempty.mpr hcontent),
            get_erase_of_ne hne, hget]
          have hmem : i ∈ dir.content := by
            have hchild := hbound.1
            rwa [children_of_get hget] at hchild
          have hremoved : Removed fs d name i
              ((fs.erase i).insert d (.dir (dir.removeEntry i))) :=
            ⟨hdot, hdotDot, hne, ⟨e, he, hname, hcontent⟩, dir, hget, hmem, rfl⟩
          exact ⟨_, rfl, hremoved.names_eq hn⟩
        · rw [if_pos hcontent, if_neg (fun h => hcontent (hempty.mp h))]
          exact ⟨fs, rfl, rfl⟩

/-! ## Renames -/

section Ancestors

variable {source : Entry}

theorem isDirAt_of_child (h : i ∈ fs.children d) : fs.isDirAt d = true := by
  obtain ⟨dir, hget, -⟩ := mem_children.mp h
  exact isDirAt_of_get hget

/-- In a tree a directory is below another if and only if a path leads there. -/
theorem Named.below_names (hn : fs.Named) :
    fs.names.Below i d ↔ Relation.ReflTransGen fs.shape.child i d := by
  constructor
  · rintro ⟨p, hp⟩
    induction p generalizing i with
    | nil =>
      cases hp
      exact .refl
    | cons name p ih =>
      obtain ⟨j, hj, hp⟩ := Option.bind_eq_some_iff.mp hp
      exact (ih hp).head (hn.binding_eq_some.mp hj).1
  · intro h
    induction h using Relation.ReflTransGen.head_induction_on with
    | refl => exact ⟨[], rfl⟩
    | @head i j hstep _ ih =>
      obtain ⟨p, hp⟩ := ih
      obtain ⟨name, hname⟩ := Option.isSome_iff_exists.mp (hn.closed i j hstep)
      have hbinding : fs.names.entry i name = some j := hn.binding_eq_some.mpr ⟨hstep, hname⟩
      exact ⟨name :: p, by rw [Namespace.walk, hbinding, Option.bind_some, hp]⟩

/-- The parent field of a directory says where it is. -/
theorem Linked.parentBelow (hl : fs.Linked) (hchild : i ∈ fs.children d) (hdir : fs.isDirAt i)
    (hne : i ≠ j) : fs.parentBelow [j] i = some d := by
  have hroot : i ≠ fs.root := by
    rintro rfl
    exact hl.tree.root_unlinked d hchild
  obtain ⟨dir, hget⟩ := isDirAt_eq_true.mp hdir
  have hup : fs.up i = some dir.parent := up_of_get hget
  rw [Fs.parentBelow, if_neg (by simp [hne, hroot]), hup,
    hl.tree.up_eq d i dir.parent hchild hup]

theorem checkAncestors_of_ends {c : FileHandleU64} (hdir : source.isDir)
    (h : Chain.Ends (fs.parentBelow [source.fileid]) td c) :
    fs.checkAncestors source td = some (fs.stopResult source.fileid c) := by
  rw [checkAncestors, if_pos hdir, ancestorLoop_eq_follow, Chain.follow_complete card_handles h]
  rfl

theorem checkAncestors_below (hl : fs.Linked) (hdir : source.isDir) (htd : fs.isDirAt td)
    (h : Relation.ReflTransGen fs.shape.child source.fileid td) :
    fs.checkAncestors source td = some (.error .nfs3errInval) := by
  have hends : Chain.Ends (fs.parentBelow [source.fileid]) td source.fileid := by
    induction h with
    | refl => exact ⟨.refl, by simp [Fs.parentBelow]⟩
    | @tail d i _ hstep ih =>
      by_cases hi : i = source.fileid
      · rw [hi]
        exact ⟨.refl, by simp [Fs.parentBelow]⟩
      · exact (ih (isDirAt_of_child hstep)).cons (hl.parentBelow hstep htd hi)
  rw [checkAncestors_of_ends hdir hends, stopResult, if_pos rfl]

theorem checkAncestors_apart (ht : fs.Tree) (hdir : source.isDir) (htd : fs.isDirAt td)
    (h : ¬Relation.ReflTransGen fs.shape.child source.fileid td) :
    fs.checkAncestors source td = some (.ok ()) := by
  obtain ⟨dir, hget⟩ := isDirAt_eq_true.mp htd
  have hreach : Relation.ReflTransGen fs.shape.child fs.root td :=
    ht.rooted td (by simp [shape, hget])
  have hends : Chain.Ends (fs.parentBelow [source.fileid]) td fs.root ∧ fs.isDirAt fs.root = true ∧
      fs.root ≠ source.fileid := by
    clear hget
    induction hreach with
    | refl =>
      refine ⟨⟨.refl, by simp [Fs.parentBelow]⟩, htd, ?_⟩
      intro hroot
      exact h (hroot ▸ .refl)
    | @tail d i _ hstep ih =>
      have hd : ¬Relation.ReflTransGen fs.shape.child source.fileid d := fun hd => h (hd.tail hstep)
      obtain ⟨hends, hroot⟩ := ih (isDirAt_of_child hstep) hd
      have hi : i ≠ source.fileid := by
        rintro rfl
        exact h .refl
      exact ⟨hends.cons (ht.linked.parentBelow hstep htd hi), hroot⟩
  obtain ⟨hends, hroot, hne⟩ := hends
  rw [checkAncestors_of_ends hdir hends]
  exact congrArg some (stopResult_ok_iff.mpr ⟨by simpa using hne, hroot⟩)

/-- A removal cuts no path but that to the removed entry. -/
theorem Removed.reaches_iff (h : Removed fs td tn i fs') (ht : WellFormed fs.shape) (hd : d ≠ i) :
    Relation.ReflTransGen fs'.shape.child j d ↔ Relation.ReflTransGen fs.shape.child j d := by
  have hleaf := h.removeLeaf ht
  constructor
  · exact Relation.ReflTransGen.mono (fun e k hk => ((hleaf.child e k).mp hk).1) _ _
  · intro hreach
    have hexcept := reaches_except_leaf (S := { fs.shape with root := j }) hleaf.leaf hreach
    exact Relation.ReflTransGen.mono (fun e k hk => (hleaf.child e k).mpr hk) _ _
      (hexcept.resolve_right hd)

/-- What becomes of the target of a rename, next to what the namespace says. -/
inductive Replaced (order : HashOrder) (fs : Fs) (source : Entry) (td : FileHandleU64)
    (tn : Filename3) : Prop
  | refused (f : Failure)
      (outcome : fs.replaceTarget order source td tn = some (.error (stat f), fs))
      (spec : fs.names.replaceable dot dotDot source.fileid td tn = .error f)
  | free (outcome : fs.replaceTarget order source td tn = some (.ok (), fs))
      (lookup : fs.lookup order td tn = .error .nfs3errNoent)
      (spec : fs.names.replaceable dot dotDot source.fileid td tn = .ok none)
  | removed (fs₁ : Fs) (target : Entry)
      (outcome : fs.replaceTarget order source td tn = some (.ok (), fs₁))
      (lookup : fs.lookup order td tn = .ok target)
      (remove : Removed fs td tn target.fileid fs₁)
      (spec : fs.names.replaceable dot dotDot source.fileid td tn = .ok (some target.fileid))

theorem replaced_of_kind {target : Entry} (hn : fs.Named)
    (hlookup : fs.lookup order td tn = .ok target) (hkind : target.isDir = source.isDir)
    (hempty : target.content = ∅)
    (houtcome : fs.replaceTarget order source td tn = fs.remove order td tn)
    (hspec : fs.names.replaceable dot dotDot source.fileid td tn =
      if tn = dot ∨ tn = dotDot then .error .invalid else .ok (some target.fileid)) :
    Replaced order fs source td tn := by
  by_cases hdots : tn = dot ∨ tn = dotDot
  · rw [if_pos hdots] at hspec
    refine .refused .invalid ?_ hspec
    rw [houtcome, remove, if_pos hdots]
    rfl
  · rw [if_neg hdots] at hspec
    obtain ⟨hdot, hdotDot⟩ := not_or.mp hdots
    obtain ⟨fs₁, hremove, hremoved⟩ := remove_replaceable hn.keyed
      ⟨hlookup, hkind, hempty, hdot, hdotDot⟩
    exact .removed fs₁ target (houtcome.trans hremove) hlookup hremoved hspec

theorem Named.replaced (hn : fs.Named) (hsource : fs.get source.fileid = some source)
    (order : HashOrder) (td : FileHandleU64) (tn : Filename3) :
    Replaced order fs source td tn := by
  have hobject : fs.names.object source.fileid = some source.object := by
    simp [names, hsource]
  rcases hn.lookup_specified order td tn with ⟨target, hlookup, hget, hspec⟩ | ⟨f, hlookup, hspec⟩
  · have htarget : fs.names.object target.fileid = some target.object := by
      simp [names, hget]
    have hempty : fs.names.Empty target.fileid ↔ target.content = ∅ := by
      rw [hn.empty_names, children_of_get hget]
    cases source with
    | file f =>
      cases target with
      | file g =>
        refine replaced_of_kind hn hlookup rfl rfl (by simp [replaceTarget, hlookup]) ?_
        rw [Namespace.replaceable, hspec]
        simp only [hobject, htarget, Entry.object]
      | dir g =>
        refine .refused .notDirectory (by simp [replaceTarget, hlookup, stat]) ?_
        rw [Namespace.replaceable, hspec]
        simp only [hobject, htarget, Entry.object]
    | dir f =>
      cases target with
      | file g =>
        refine .refused .notDirectory (by simp [replaceTarget, hlookup, stat]) ?_
        rw [Namespace.replaceable, hspec]
        simp only [hobject, htarget, Entry.object]
      | dir g =>
        by_cases hcontent : g.content = ∅
        · refine replaced_of_kind hn hlookup rfl hcontent ?_ ?_
          · simp [replaceTarget, hlookup, hcontent]
          · rw [Namespace.replaceable, hspec]
            simp only [hobject, htarget, Entry.object, hempty.mpr hcontent, not_true, if_false]
        · refine .refused .notEmpty (by simp [replaceTarget, hlookup, hcontent, stat]) ?_
          have hnot : ¬fs.names.Empty (Entry.dir g).fileid := fun h => hcontent (hempty.mp h)
          rw [Namespace.replaceable, hspec]
          simp only [hobject, htarget, Entry.object, hnot, not_false_eq_true, if_true]
  · by_cases hf : f = .notFound
    · subst hf
      refine .free ?_ hlookup ?_
      · cases source <;> simp [replaceTarget, hlookup, stat]
      · rw [Namespace.replaceable, hspec]
    · refine .refused f ?_ ?_
      · cases source <;> cases f <;> simp_all [replaceTarget, stat]
      · rw [Namespace.replaceable, hspec]
        cases f <;> first | rfl | exact absurd rfl hf

theorem names_isDir_source (hsource : fs.get source.fileid = some source) :
    fs.names.IsDir source.fileid ↔ source.isDir = true := by
  rw [isDir_names, isDirAt, hsource]
  rfl

/-- The second half of a rename, in the state after an existing target was taken away. -/
theorem rename_specified_of_replaced {target : Option FileHandleU64} (ht : fs.Tree)
    (hn : fs.Named) (hdot : fn ≠ dot) (hdotDot : fn ≠ dotDot) (hdistinct : ¬(fd = td ∧ fn = tn))
    (htears : ¬(Op.rename fd fn td tn).Tears order fs)
    (hlookup : fs.lookup order fd fn = .ok source) (hsource : fs.get source.fileid = some source)
    (hspec : fs.names.lookup dot dotDot fd fn = .ok source.fileid)
    (houtcome : fs.replaceTarget order source td tn = some (.ok (), fs₁))
    (htarget : fs.names.replaceable dot dotDot source.fileid td tn = .ok target)
    (hnames : fs₁.names = fs.names.vacate td tn target) (htd : fs.isDirAt td)
    (htd₁ : fs₁.isDirAt td)
    (hreach : Relation.ReflTransGen fs₁.shape.child source.fileid td ↔
      Relation.ReflTransGen fs.shape.child source.fileid td)
    (hkept : td ≠ source.fileid → fs₁.get source.fileid = some source) :
    Specified (fs.rename order fd fn td tn) (fs.names.rename dot dotDot fd fn td tn) := by
  have ht₁ : fs₁.Tree := ht.replaceTarget houtcome
  have hn₁ : fs₁.Named := replaceTarget_named hn houtcome
  have hchild : source.fileid ∈ fs₁.children fd :=
    source_after_replace hn.keyed hn.single hdot hdotDot hlookup hdistinct houtcome
  have hdir : fs.names.IsDir td := isDir_names.mpr htd
  have hfail : ∀ e, fs₁.checkAncestors source td = some (.error e) →
      fs.rename order fd fn td tn = some (.error e, fs₁) := by
    intro e hcheck
    simp only [rename, hlookup, if_neg hdistinct, houtcome, hcheck]
  have hpass : fs₁.checkAncestors source td = some (.ok ()) →
      fs.rename order fd fn td tn = some (fs₁.relink fd source.fileid td tn) := by
    intro hcheck
    simp only [rename, hlookup, if_neg hdistinct, houtcome, hcheck]
  have hdots : ¬(fn = dot ∨ fn = dotDot) := by tauto
  have hloop : fs.names.IsDir source.fileid ∧ fs.names.Below source.fileid td ↔
      source.isDir = true ∧ Relation.ReflTransGen fs.shape.child source.fileid td := by
    rw [hn.below_names, names_isDir_source hsource]
  simp only [Namespace.rename, if_neg hdots, hspec, if_neg hdistinct, htarget,
    if_neg (not_not.mpr hdir)]
  by_cases hbelow : source.isDir = true ∧
      Relation.ReflTransGen fs.shape.child source.fileid td
  · rw [if_pos (hloop.mpr hbelow)]
    have hrename := hfail _ (checkAncestors_below ht₁.linked hbelow.1 htd₁ (hreach.mpr hbelow.2))
    have hfs : fs₁ = fs := by
      by_contra hne
      exact htears ((rename_torn_iff hn.keyed).mp ⟨_, _, hrename, hne⟩)
    exact ⟨fs₁, hrename, by rw [hfs]⟩
  rw [if_neg (fun h => hbelow (hloop.mp h))]
  have hne : td ≠ source.fileid := by
    intro heq
    refine hbelow ⟨?_, heq ▸ .refl⟩
    rw [heq, isDirAt, hsource] at htd
    exact htd
  have hcheck : fs₁.checkAncestors source td = some (.ok ()) := by
    by_cases hkind : source.isDir = true
    · exact checkAncestors_apart ht₁ hkind htd₁ fun h => hbelow ⟨hkind, hreach.mp h⟩
    · rw [checkAncestors, if_neg hkind]
  obtain ⟨toDir, hto⟩ := isDirAt_eq_true.mp htd₁
  obtain ⟨fs', hrelink, -, -⟩ := relink_spec tn ht₁.linked hchild hto hne
  have hself : source.fileid ≠ fd := by
    intro heq
    rw [heq] at hchild
    exact Rooted.not_child_self ht₁.linked.tree ht₁.rooted hchild
  have hmoved := relink_moved ht₁.linked hchild hself hne.symm (hkept hne) hrelink
  have hname : fs₁.nameOf source.fileid = some fn := by
    rw [nameOf_of_get (hkept hne), (lookup_ok hdot hdotDot hlookup).1]
  have hn' := relink_named hn₁ hchild (replaceTarget_nameFree hn houtcome) hrelink
  refine ⟨fs', ?_, ?_⟩
  · rw [hpass hcheck, hrelink]
    rfl
  · rw [← hnames]
    exact hmoved.names_eq hn₁ hn' (hkept hne) ⟨hchild, hname⟩ (relink_up hrelink).1

theorem rename_specified_of_missing (hn : fs.Named) (hdot : fn ≠ dot) (hdotDot : fn ≠ dotDot)
    (hdistinct : ¬(fd = td ∧ fn = tn)) (htears : ¬(Op.rename fd fn td tn).Tears order fs)
    (hlookup : fs.lookup order fd fn = .ok source) (hsource : fs.get source.fileid = some source)
    (hspec : fs.names.lookup dot dotDot fd fn = .ok source.fileid)
    (houtcome : fs.replaceTarget order source td tn = some (.ok (), fs))
    (hfree : fs.lookup order td tn = .error .nfs3errNoent)
    (htarget : fs.names.replaceable dot dotDot source.fileid td tn = .ok none)
    (htd : fs.get td = none) :
    Specified (fs.rename order fd fn td tn) (fs.names.rename dot dotDot fd fn td tn) := by
  have hchild : source.fileid ∈ fs.children fd :=
    source_after_replace hn.keyed hn.single hdot hdotDot hlookup hdistinct houtcome
  have hdir : ¬fs.names.IsDir td := by
    rw [isDir_names, isDirAt, htd]
    simp
  have hkind : source.isDir = true := by
    by_contra hfile
    refine htears ⟨hdistinct, source, hlookup, Or.inl ⟨hfree, fun h => absurd h hfile, hchild, ?_⟩⟩
    exact Or.inl htd
  have hne : td ≠ source.fileid := by
    rintro rfl
    rw [htd] at hsource
    cases hsource
  have hcheck : fs.checkAncestors source td = some (.error .nfs3errNoent) := by
    rw [checkAncestors, if_pos hkind, ancestorLoop, if_neg hne, htd]
  have hdots : ¬(fn = dot ∨ fn = dotDot) := by tauto
  simp only [Namespace.rename, if_neg hdots, hspec, if_neg hdistinct, htarget, if_pos hdir]
  refine ⟨fs, ?_, rfl⟩
  simp only [rename, hlookup, if_neg hdistinct, houtcome, hcheck]
  rfl

/-- A rename of an ordinary name that does not fail halfway. -/
theorem rename_specified (ht : fs.Tree) (hn : fs.Named) (hdot : fn ≠ dot) (hdotDot : fn ≠ dotDot)
    (htears : ¬(Op.rename fd fn td tn).Tears order fs) :
    Specified (fs.rename order fd fn td tn) (fs.names.rename dot dotDot fd fn td tn) := by
  have hdots : ¬(fn = dot ∨ fn = dotDot) := by tauto
  rcases hn.lookup_specified order fd fn with
    ⟨source, hlookup, hsource, hspec⟩ | ⟨f, hlookup, hspec⟩
  swap
  · simp only [Namespace.rename, if_neg hdots, hspec]
    refine ⟨fs, ?_, rfl⟩
    simp only [rename, hlookup]
    rfl
  by_cases hdistinct : fd = td ∧ fn = tn
  · simp only [Namespace.rename, if_neg hdots, hspec, if_pos hdistinct]
    refine ⟨fs, ?_, rfl⟩
    simp only [rename, hlookup, if_pos hdistinct]
    rfl
  cases hn.replaced hsource order td tn with
  | refused f houtcome htarget =>
    simp only [Namespace.rename, if_neg hdots, hspec, if_neg hdistinct, htarget]
    refine ⟨fs, ?_, rfl⟩
    simp only [rename, hlookup, if_neg hdistinct, houtcome]
    rfl
  | free houtcome hfree htarget =>
    rcases get_of_lookup_noent hfree with hnone | ⟨dir, hdir⟩
    · exact rename_specified_of_missing hn hdot hdotDot hdistinct htears hlookup hsource hspec
        houtcome hfree htarget hnone
    · have htd := isDirAt_of_get hdir
      exact rename_specified_of_replaced ht hn hdot hdotDot hdistinct htears hlookup hsource hspec
        houtcome htarget rfl htd htd Iff.rfl fun _ => hsource
  | removed fs₁ target houtcome htlookup hremoved htarget =>
    obtain ⟨dir, hdir, -, -⟩ := hremoved.eq
    have htd := isDirAt_of_get hdir
    have htd₁ : fs₁.isDirAt td = true := hremoved.isDirAt_iff.mpr ⟨htd, hremoved.ne⟩
    have hchild : source.fileid ∈ fs₁.children fd :=
      source_after_replace hn.keyed hn.single hdot hdotDot hlookup hdistinct houtcome
    have hother : source.fileid ≠ target.fileid := by
      intro heq
      rw [heq, hremoved.children_erase hn] at hchild
      exact Finset.notMem_erase _ _ hchild
    refine rename_specified_of_replaced ht hn hdot hdotDot hdistinct htears hlookup hsource hspec
      houtcome htarget (hremoved.names_eq hn) htd htd₁
      (hremoved.reaches_iff ht.linked.tree hremoved.ne) ?_
    intro hne
    obtain ⟨e', hget', -, hsame⟩ := hremoved.other hother hsource
    rw [hget', hsame hne.symm]

end Ancestors

theorem Tree.wellFormed (ht : fs.Tree) (hn : fs.Named) : fs.names.WellFormed where
  dirs h := isDir_names.mpr (isDirAt_of_child (hn.binding_eq_some.mp h).1)
  unique h h' := hn.bound_unique (hn.binding_eq_some.mp h) (hn.binding_eq_some.mp h')
  root d _ h := ht.linked.tree.root_unlinked d (hn.binding_eq_some.mp h).1
  rooted i hi := hn.below_names.mpr (ht.rooted i (by simpa [names, shape] using hi))

/-! ## The tree is kept -/

theorem Removed.tree (h : Removed fs d name i fs') (ht : fs.Tree) : fs'.Tree :=
  ⟨h.linked ht.linked, (h.removeLeaf ht.linked.tree).rooted ht.rooted⟩

theorem Tree.replace {entry' : Entry} (ht : fs.Tree) (hget : fs.get i = some entry)
    (hlinks : entry.SameLinks entry') : (fs.insert i entry').Tree := by
  refine ⟨ht.linked.replace hget hlinks, ?_⟩
  intro j hj
  refine Relation.ReflTransGen.mono ?_ _ _ (ht.rooted j ((isSome_replace hget).mp hj))
  intro d k hk
  show k ∈ (fs.insert i entry').children d
  rw [children_replace hget hlinks.content]
  exact hk

theorem rename_tree {r : Except Nfsstat3 Unit} (ht : fs.Tree) (hn : fs.Named) (hdot : fn ≠ dot)
    (hdotDot : fn ≠ dotDot) (htears : ¬(Op.rename fd fn td tn).Tears order fs)
    (h : fs.rename order fd fn td tn = some (r, fs')) : fs'.Tree := by
  cases r with
  | error e =>
    have hfs : fs' = fs := by
      by_contra hne
      exact htears ((rename_torn_iff hn.keyed).mp ⟨e, fs', h, hne⟩)
    rw [hfs]
    exact ht
  | ok _ =>
    by_cases hdistinct : fd = td ∧ fn = tn
    · cases rename_cases h with
      | unchanged => exact ht
      | relinked _ hne => exact absurd hdistinct hne
    · obtain ⟨source, fs₁, hok⟩ := rename_ok ht hn.uniqueNames hdot hdotDot hdistinct h
      exact hok.tree'

end Fs

end Nfs3.Memfs
