import Nfs3.Lib.LinkedTree
import Nfs3.Server.MemFs.Operations

/-!
# The tree invariant of the in-memory file system

The flat map, the content sets of the directories and their parent fields describe one tree.
`push`, `remove` and a rename of an ordinary name into an existing directory are the three
edits of `LinkedTree`; the other calls leave the links alone.

Two renames are not edits of a tree. Under the source name `.` or `..` the directory itself
or its parent is linked a second time, and a file renamed into a directory that does not
exist has left its old directory when the new one turns out to be missing.
-/
namespace Nfs3.Memfs

open LinkedTree

namespace Fs

variable {order : HashOrder} {fs fs' : Fs} {i j : FileHandleU64} {entry : Entry}

def children (fs : Fs) (d : FileHandleU64) : Finset FileHandleU64 :=
  ((fs.get d).map Entry.content).getD ∅

def up (fs : Fs) (i : FileHandleU64) : Option FileHandleU64 := (fs.get i).bind Entry.up

def shape (fs : Fs) : Shape FileHandleU64 where
  dom i := (fs.get i).isSome
  child d i := i ∈ fs.children d
  up := fs.up
  root := fs.root

/-- Every entry is stored under its own file id. -/
def Keyed (fs : Fs) : Prop := ∀ i entry, fs.get i = some entry → entry.fileid = i

structure Linked (fs : Fs) : Prop where
  keyed : fs.Keyed
  tree : WellFormed fs.shape

/-- The agreement of the entries map, the content sets and the parent fields. -/
structure TreeInvariant (fs : Fs) : Prop where
  closed : ∀ d dir i, fs.get d = some (.dir dir) → i ∈ dir.content → ∃ entry, fs.get i = some entry
  linked : ∀ i entry, fs.get i = some entry → i ≠ fs.root →
    ∃! d, ∃ dir, fs.get d = some (.dir dir) ∧ i ∈ dir.content
  root : ∀ d dir, fs.get d = some (.dir dir) → fs.root ∉ dir.content
  parent : ∀ d dir i sub, fs.get d = some (.dir dir) → i ∈ dir.content →
    fs.get i = some (.dir sub) → sub.parent = d

theorem mem_children : i ∈ fs.children j ↔ ∃ dir, fs.get j = some (.dir dir) ∧ i ∈ dir.content := by
  unfold children
  cases h : fs.get j with
  | none => simp
  | some entry => cases entry <;> simp [Entry.content]

theorem children_of_get (h : fs.get i = some entry) : fs.children i = entry.content := by
  simp [children, h]

theorem up_of_get (h : fs.get i = some entry) : fs.up i = entry.up := by
  simp [up, h]

theorem Linked.treeInvariant (h : fs.Linked) : fs.TreeInvariant := by
  have ht := h.tree
  constructor
  · intro d dir i hd hi
    exact Option.isSome_iff_exists.mp (ht.closed d i (mem_children.mpr ⟨dir, hd, hi⟩))
  · intro i entry hi hroot
    obtain ⟨d, hd⟩ := ht.linked i (Option.isSome_iff_exists.mpr ⟨entry, hi⟩) hroot
    refine ⟨d, mem_children.mp hd, ?_⟩
    intro d' hd'
    exact ht.unique d' d i (mem_children.mpr hd') hd
  · intro d dir hd hroot
    exact ht.root_unlinked d (mem_children.mpr ⟨dir, hd, hroot⟩)
  · intro d dir i sub hd hi hsub
    exact ht.up_eq d i sub.parent (mem_children.mpr ⟨dir, hd, hi⟩) (up_of_get hsub)

theorem get_new {currentTime : Nfstime3} (h : (new currentTime).get i = some entry) :
    i = 1 ∧ entry = .dir (.rootDir currentTime) := by
  by_cases hi : i = 1
  · subst hi
    cases h
    exact ⟨rfl, rfl⟩
  · simp [get, new, Function.update_of_ne hi] at h

theorem notMem_children_new {currentTime : Nfstime3} : i ∉ (new currentTime).children j := by
  intro hi
  obtain ⟨dir, hd, hmem⟩ := mem_children.mp hi
  cases (get_new hd).2
  cases hmem

theorem linked_new (currentTime : Nfstime3) : (new currentTime).Linked := by
  constructor
  · intro i entry h
    obtain ⟨rfl, rfl⟩ := get_new h
    rfl
  · constructor
    · rfl
    · intro d i hi
      exact absurd hi notMem_children_new
    · intro i hi hroot
      obtain ⟨entry, he⟩ := Option.isSome_iff_exists.mp hi
      exact absurd (get_new he).1 hroot
    · intro d d' i hi
      exact absurd hi notMem_children_new
    · intro d
      exact notMem_children_new
    · intro d i u hi
      exact absurd hi notMem_children_new

theorem children_insert :
    (fs.insert i entry).children j = if j = i then entry.content else fs.children j := by
  unfold children
  rw [get_insert]
  split_ifs <;> rfl

theorem children_erase : (fs.erase i).children j = if j = i then ∅ else fs.children j := by
  unfold children
  rw [get_erase]
  split_ifs <;> rfl

theorem up_insert : (fs.insert i entry).up j = if j = i then entry.up else fs.up j := by
  unfold up
  rw [get_insert]
  split_ifs <;> rfl

theorem up_erase_of_ne (h : j ≠ i) : (fs.erase i).up j = fs.up j := by
  unfold up
  rw [get_erase_of_ne h]

theorem isSome_insert :
    ((fs.insert i entry).get j).isSome ↔ (fs.get j).isSome ∨ j = i := by
  rw [get_insert]
  split_ifs with h <;> simp [h]

theorem isSome_erase : ((fs.erase i).get j).isSome ↔ (fs.get j).isSome ∧ j ≠ i := by
  rw [get_erase]
  split_ifs with h <;> simp [h]

theorem Keyed.insert (h : fs.Keyed) (hid : entry.fileid = i) : (fs.insert i entry).Keyed := by
  intro j e hj
  rw [get_insert] at hj
  split_ifs at hj with hji
  · cases hj
    rw [hji, hid]
  · exact h j e hj

theorem Keyed.erase (h : fs.Keyed) : (fs.erase i).Keyed := by
  intro j e hj
  rw [get_erase] at hj
  split_ifs at hj
  exact h j e hj

theorem Pushed.keyed {p : FileHandleU64} (h : Pushed fs p entry fs') (hk : fs.Keyed) :
    fs'.Keyed := by
  obtain ⟨-, dir, hget, -, rfl⟩ := h
  have hk₁ : (fs.insert entry.fileid entry).Keyed := hk.insert rfl
  exact hk₁.insert (hk₁ p (.dir dir) hget)

/-- Replacing an entry that is there by one with the same parent changes no parent. -/
theorem up_replace {entry' : Entry} (h : fs.get i = some entry) (hup : entry'.up = entry.up) :
    (fs.insert i entry').up j = fs.up j := by
  rw [up_insert]
  split_ifs with hj
  · rw [hj, up_of_get h, hup]
  · rfl

theorem isSome_replace {entry' : Entry} (h : fs.get i = some entry) :
    ((fs.insert i entry').get j).isSome ↔ (fs.get j).isSome := by
  rw [isSome_insert, or_iff_left_iff_imp]
  rintro rfl
  simp [h]

theorem children_replace {entry' : Entry} (h : fs.get i = some entry)
    (hcontent : entry'.content = entry.content) :
    (fs.insert i entry').children j = fs.children j := by
  rw [children_insert]
  split_ifs with hj
  · rw [hj, children_of_get h, hcontent]
  · rfl

/-- An entry that leaves the only directory it is in. -/
theorem children_removeEntry {d : FileHandleU64} {dir : Dir} (hget : fs.get d = some (.dir dir))
    (hsingle : ∀ e, i ∈ fs.children e → e = d) :
    (fs.insert d (.dir (dir.removeEntry i))).children j = (fs.children j).erase i := by
  rw [children_insert]
  split_ifs with hj
  · rw [hj, children_of_get hget]
    rfl
  · exact (Finset.erase_eq_of_notMem fun hi => hj (hsingle j hi)).symm

theorem children_addEntry {d : FileHandleU64} {dir : Dir} (hget : fs.get d = some (.dir dir)) :
    (fs.insert d (.dir (dir.addEntry i))).children j =
      if j = d then Insert.insert i (fs.children j) else fs.children j := by
  rw [children_insert]
  split_ifs with hj
  · rw [hj, children_of_get hget]
    rfl
  · rfl

theorem Pushed.children_eq {p : FileHandleU64} (h : Pushed fs p entry fs')
    (hcontent : entry.content = ∅) :
    fs'.children j =
      if j = p then Insert.insert entry.fileid (fs.children j) else fs.children j := by
  obtain ⟨hfresh, dir, hget, -, rfl⟩ := h
  have hchildren : (fs.insert entry.fileid entry).children j = fs.children j := by
    rw [children_insert]
    split_ifs with hj
    · simp [hj, hcontent, children, hfresh]
    · rfl
  rw [children_addEntry hget, hchildren]

theorem Removed.child_mem {d : FileHandleU64} {name : Filename3}
    (h : Removed fs d name i fs') : i ∈ fs.children d := by
  obtain ⟨dir, hget, hmem, -⟩ := h.eq
  exact mem_children.mpr ⟨dir, hget, hmem⟩

theorem Removed.children_eq {d : FileHandleU64} {name : Filename3} (h : Removed fs d name i fs')
    (hsingle : ∀ e, i ∈ fs.children e → e = d) :
    fs'.children j = (fs.children j).erase i := by
  obtain ⟨entry, hentry, -, hempty⟩ := h.entry
  obtain ⟨dir, hget, -, rfl⟩ := h.eq
  have herase : (fs.erase i).children j = fs.children j := by
    rw [children_erase]
    split_ifs with hj
    · rw [hj, children_of_get hentry, hempty]
    · rfl
  have hget' : (fs.erase i).get d = some (.dir dir) := by rw [get_erase_of_ne h.ne, hget]
  rw [children_removeEntry hget', herase]
  intro e he
  rw [children_erase] at he
  split_ifs at he
  · cases he
  · exact hsingle e he

theorem Pushed.addLeaf {p : FileHandleU64} (h : Pushed fs p entry fs')
    (hcontent : entry.content = ∅) (hup : ∀ u, entry.up = some u → u = p) :
    AddLeaf fs.shape p entry.fileid fs'.shape := by
  have hchildren := fun j => h.children_eq (j := j) hcontent
  obtain ⟨hfresh, dir, hget, -, rfl⟩ := h
  have hups : ∀ j, ((fs.insert entry.fileid entry).insert p
      (.dir (dir.addEntry entry.fileid))).up j = (fs.insert entry.fileid entry).up j :=
    fun j => up_replace hget rfl
  constructor
  · simp [shape, hfresh]
  · rfl
  · intro i
    simp only [shape, isSome_replace hget, isSome_insert]
  · intro d i
    simp only [shape, hchildren]
    split_ifs with hd
    · simp [hd, or_comm]
    · simp [hd]
  · intro i hi
    simp only [shape, hups, up_insert, if_neg hi]
  · intro u hu
    simp only [shape, hups, up_insert, if_true] at hu
    exact hup u hu

theorem Removed.keyed {d : FileHandleU64} {name : Filename3} (h : Removed fs d name i fs')
    (hk : fs.Keyed) : fs'.Keyed := by
  obtain ⟨dir, hget, -, rfl⟩ := h.eq
  exact hk.erase.insert (hk d (.dir dir) hget)

theorem Removed.removeLeaf {d : FileHandleU64} {name : Filename3} (h : Removed fs d name i fs')
    (ht : WellFormed fs.shape) : RemoveLeaf fs.shape i fs'.shape := by
  have hchild := h.child_mem
  have hchildren := fun j => h.children_eq (j := j) fun e he => ht.unique e d i he hchild
  obtain ⟨entry, hentry, -, hempty⟩ := h.entry
  obtain ⟨dir, hget, -, rfl⟩ := h.eq
  have hleaf : fs.children i = ∅ := by rw [children_of_get hentry, hempty]
  have hget' : (fs.erase i).get d = some (.dir dir) := by rw [get_erase_of_ne h.ne, hget]
  have hups : ∀ j, ((fs.erase i).insert d (.dir (dir.removeEntry i))).up j = (fs.erase i).up j :=
    fun j => up_replace hget' rfl
  constructor
  · rintro rfl
    exact ht.root_unlinked d hchild
  · intro j
    simp [shape, hleaf]
  · rfl
  · intro j
    simp only [shape, isSome_replace hget', isSome_erase]
  · intro e j
    simp only [shape, hchildren, Finset.mem_erase, and_comm]
  · intro j hj
    simp only [shape, hups, up_erase_of_ne hj]

/-- A change of an entry that keeps its links changes nothing about the tree. -/
theorem Linked.replace {entry' : Entry} (h : fs.Linked) (hget : fs.get i = some entry)
    (hlinks : entry.SameLinks entry') : (fs.insert i entry').Linked := by
  have hshape : (fs.insert i entry').shape = fs.shape := by
    simp only [shape, root_insert, Shape.mk.injEq, and_true]
    refine ⟨?_, ?_, ?_⟩
    · funext j
      exact propext (isSome_replace hget)
    · funext d j
      rw [children_replace hget hlinks.content]
    · funext j
      exact up_replace hget hlinks.up
  constructor
  · exact h.keyed.insert (hlinks.fileid.trans (h.keyed i entry hget))
  · rw [hshape]
    exact h.tree

/-- In a tree, relinking a child of one directory under another always succeeds. -/
theorem relink_spec {fd td sid : FileHandleU64} {toDir : Dir} (name : Filename3) (h : fs.Linked)
    (hchild : sid ∈ fs.children fd) (htd : fs.get td = some (.dir toDir)) (hne : td ≠ sid) :
    ∃ fs', fs.relink fd sid td name = (.ok (), fs') ∧ fs'.Keyed ∧
      Move fs.shape td sid fs'.shape := by
  obtain ⟨fromDir, hfd, hmem⟩ := mem_children.mp hchild
  obtain ⟨entry, hentry⟩ := Option.isSome_iff_exists.mp (h.tree.closed fd sid hchild)
  -- the state after the entry has left its old directory
  set fs₁ := fs.insert fd (.dir (fromDir.removeEntry sid)) with hfs₁
  have hout : ∀ d, fs₁.children d = (fs.children d).erase sid := fun d =>
    children_removeEntry hfd fun e he => h.tree.unique e fd sid he hchild
  have hup₁ : ∀ j, fs₁.up j = fs.up j := fun j => up_replace hfd rfl
  have hdom₁ : ∀ j, (fs₁.get j).isSome ↔ (fs.get j).isSome := fun j => isSome_replace hfd
  obtain ⟨toDir₁, htd₁⟩ : ∃ toDir₁, fs₁.get td = some (.dir toDir₁) := by
    rw [hfs₁, get_insert]
    split_ifs
    · exact ⟨_, rfl⟩
    · exact ⟨_, htd⟩
  have hfresh : sid ∉ toDir₁.content := by
    have hnotMem := Finset.notMem_erase sid (fs.children td)
    rwa [← hout td, children_of_get htd₁] at hnotMem
  -- and after it has entered the new one
  set fs₂ := fs₁.insert td (.dir (toDir₁.addEntry sid)) with hfs₂
  have hdom₂ : ∀ j, (fs₂.get j).isSome ↔ (fs.get j).isSome := fun j =>
    (isSome_replace htd₁).trans (hdom₁ j)
  have hup₂ : ∀ j, fs₂.up j = fs.up j := by
    intro j
    rw [← hup₁ j]
    exact up_replace htd₁ rfl
  obtain ⟨entry₂, hentry₂⟩ := Option.isSome_iff_exists.mp ((hdom₂ sid).mpr (by simp [hentry]))
  have hk₁ : fs₁.Keyed := h.keyed.insert (h.keyed fd (.dir fromDir) hfd)
  have hk₂ : fs₂.Keyed := hk₁.insert (hk₁ td (.dir toDir₁) htd₁)
  refine ⟨fs₂.insert sid (entry₂.relocate td name), ?_, ?_, ?_⟩
  · simp only [relink, hfd, ← hfs₁, htd₁, hfresh, if_false, ← hfs₂, hentry₂]
  · exact hk₂.insert ((Entry.fileid_relocate ..).trans (hk₂ sid entry₂ hentry₂))
  constructor
  · simp [shape, hentry]
  · rintro rfl
    exact h.tree.root_unlinked fd hchild
  · rfl
  · intro j
    simp only [shape, isSome_replace hentry₂, hdom₂]
  · intro d j
    simp only [shape, children_replace hentry₂ (Entry.content_relocate ..)]
    rw [hfs₂, children_addEntry htd₁, hout]
    split_ifs with hd
    · simp [hd, and_comm, or_comm]
    · simp [hd, and_comm]
  · intro j hj
    simp only [shape, up_insert, if_neg hj, hup₂]
  · intro u hu
    simp only [shape, up_insert, if_true] at hu
    exact Entry.up_relocate hu

section Rename

variable {fd td : FileHandleU64} {fn tn : Filename3} {fromEntry : Entry} {fs₁ : Fs}

theorem Removed.linked {d : FileHandleU64} {name : Filename3} (h : Removed fs d name i fs')
    (hl : fs.Linked) : fs'.Linked :=
  ⟨h.keyed hl.keyed, (h.removeLeaf hl.tree).wellFormed hl.tree⟩

theorem replaceTarget_linked {r : Except Nfsstat3 Unit} (hl : fs.Linked)
    (h : fs.replaceTarget order fromEntry td tn = some (r, fs')) : fs'.Linked := by
  rcases replaceTarget_cases h with ⟨-, -, rfl⟩ | ⟨-, -, rfl⟩ | ⟨-, id, hremoved⟩
  · exact hl
  · exact hl
  · exact hremoved.linked hl

/-- The first round of the ancestor loop looks at the target directory. -/
theorem checkAncestors_dir {d : Dir} (h : fs.checkAncestors (.dir d) td = some (.ok ())) :
    td ≠ (Entry.dir d).fileid ∧ ∃ toDir, fs.get td = some (.dir toDir) := by
  have hdir : (Entry.dir d).isDir = true := rfl
  rw [checkAncestors, if_pos hdir, ancestorLoop] at h
  by_cases hne : td = (Entry.dir d).fileid
  · rw [if_pos hne] at h
    cases h
  rw [if_neg hne] at h
  refine ⟨hne, ?_⟩
  split at h
  · cases h
  · rename_i toDir htd
    exact ⟨toDir, htd⟩
  · cases h

theorem get_of_lookup_noent (h : fs.lookup order td tn = .error .nfs3errNoent) :
    fs.get td = none ∨ ∃ toDir, fs.get td = some (.dir toDir) := by
  unfold lookup at h
  split at h
  · exact Or.inl ‹_›
  · cases h
  · exact Or.inr ⟨_, ‹_›⟩

/-- After the target was replaced the source entry is still where it was. -/
theorem source_after_replace (hk : fs.Keyed)
    (hsingle : ∀ d d' i, i ∈ fs.children d → i ∈ fs.children d' → d = d')
    (hdot : fn ≠ dot) (hdotDot : fn ≠ dotDot)
    (hlookup : fs.lookup order fd fn = .ok fromEntry) (hdistinct : ¬ (fd = td ∧ fn = tn))
    (hreplace : fs.replaceTarget order fromEntry td tn = some (.ok (), fs₁)) :
    fromEntry.fileid ∈ fs₁.children fd := by
  obtain ⟨hname, dir, sid, hfd, hmem, hsid⟩ := lookup_ok hdot hdotDot hlookup
  have hid : fromEntry.fileid = sid := hk sid fromEntry hsid
  have hchild : sid ∈ fs.children fd := mem_children.mpr ⟨dir, hfd, hmem⟩
  rw [hid]
  rcases replaceTarget_cases hreplace with ⟨e, he, -⟩ | ⟨-, -, rfl⟩ | ⟨-, tid, hremoved⟩
  · cases he
  · exact hchild
  rw [hremoved.children_eq fun e he => hsingle e td tid he hremoved.child_mem]
  refine Finset.mem_erase.mpr ⟨?_, hchild⟩
  rintro rfl
  -- the removed entry would be the source, under the same name in the same directory
  obtain ⟨entry, hentry, htname, -⟩ := hremoved.entry
  have hdirs : fd = td := hsingle fd td sid hchild hremoved.child_mem
  rw [hsid] at hentry
  cases hentry
  exact hdistinct ⟨hdirs, hname.symm.trans htname⟩

/-- When a rename comes to relinking, the target is a directory other than the source. -/
theorem target_after_replace (hl : fs.Linked) (hlookup : fs.lookup order fd fn = .ok fromEntry)
    (htarget : ∀ f, fromEntry = .file f → (fs.get td).isSome)
    (hreplace : fs.replaceTarget order fromEntry td tn = some (.ok (), fs₁))
    (hcheck : fs₁.checkAncestors fromEntry td = some (.ok ())) :
    td ≠ fromEntry.fileid ∧ ∃ toDir, fs₁.get td = some (.dir toDir) := by
  cases fromEntry with
  | dir d => exact checkAncestors_dir hcheck
  | file f =>
    obtain ⟨sid, hsid⟩ := lookup_mem hlookup
    have hid := hl.keyed sid (.file f) hsid
    obtain ⟨toDir, htd⟩ : ∃ toDir, fs.get td = some (.dir toDir) := by
      rcases replaceTarget_cases hreplace with ⟨e, he, -⟩ | ⟨-, hnoent, -⟩ | ⟨-, tid, hremoved⟩
      · cases he
      · rcases get_of_lookup_noent hnoent with hnone | hdir
        · have := htarget f rfl
          simp [hnone] at this
        · exact hdir
      · obtain ⟨toDir, htd, -⟩ := hremoved.eq
        exact ⟨toDir, htd⟩
    constructor
    · rintro rfl
      rw [hid, hsid] at htd
      cases htd
    · rcases replaceTarget_cases hreplace with ⟨e, he, -⟩ | ⟨-, -, rfl⟩ | ⟨-, tid, hremoved⟩
      · cases he
      · exact ⟨toDir, htd⟩
      · obtain ⟨toDir', -, -, rfl⟩ := hremoved.eq
        exact ⟨_, get_insert_self⟩

theorem Renamed.linked {r : Except Nfsstat3 Unit} (h : Renamed order fs fd fn td tn r fs')
    (hl : fs.Linked) (hdot : fn ≠ dot) (hdotDot : fn ≠ dotDot)
    (htarget : ∀ f, fs.lookup order fd fn = .ok (.file f) → (fs.get td).isSome) : fs'.Linked := by
  cases h with
  | unchanged => exact hl
  | rejected hlookup hdistinct hreplace hcheck => exact replaceTarget_linked hl hreplace
  | @relinked fromEntry fs₁ _ _ hlookup hdistinct hreplace hcheck hrelink =>
    have hl₁ := replaceTarget_linked hl hreplace
    have hsource :=
      source_after_replace hl.keyed hl.tree.unique hdot hdotDot hlookup hdistinct hreplace
    have htarget' : ∀ f, fromEntry = .file f → (fs.get td).isSome := by
      rintro f rfl
      exact htarget f hlookup
    obtain ⟨hne, toDir, htd⟩ := target_after_replace hl hlookup htarget' hreplace hcheck
    obtain ⟨fs₂, hok, hkeyed, hmove⟩ := relink_spec tn hl₁ hsource htd hne
    rw [hok] at hrelink
    cases hrelink
    exact ⟨hkeyed, hmove.wellFormed hl₁.tree⟩

end Rename

theorem relink_keyed {fs fs' : Fs} {fd sid td : FileHandleU64} {tn : Filename3}
    {r : Except Nfsstat3 Unit} (hk : fs.Keyed) (h : fs.relink fd sid td tn = (r, fs')) :
    fs'.Keyed := by
  have hout : ∀ fromDir, fs.get fd = some (.dir fromDir) →
      (fs.insert fd (.dir (fromDir.removeEntry sid))).Keyed := fun fromDir hfd =>
    hk.insert (hk fd (.dir fromDir) hfd)
  have hin : ∀ fromDir toDir, fs.get fd = some (.dir fromDir) →
      (fs.insert fd (.dir (fromDir.removeEntry sid))).get td = some (.dir toDir) →
      ((fs.insert fd (.dir (fromDir.removeEntry sid))).insert td
        (.dir (toDir.addEntry sid))).Keyed := fun fromDir toDir hfd htd =>
    (hout fromDir hfd).insert (hout fromDir hfd td (.dir toDir) htd)
  cases relink_cases h with
  | unchanged => exact hk
  | unlinked _ hfd => exact hout _ hfd
  | linked _ hfd htd => exact hin _ _ hfd htd
  | renamed hfd htd hentry =>
    exact (hin _ _ hfd htd).insert
      ((Entry.fileid_relocate ..).trans (hin _ _ hfd htd sid _ hentry))

theorem replaceTarget_keyed {order : HashOrder} {fs fs' : Fs} {fromEntry : Entry}
    {td : FileHandleU64} {tn : Filename3} {r : Except Nfsstat3 Unit} (hk : fs.Keyed)
    (h : fs.replaceTarget order fromEntry td tn = some (r, fs')) : fs'.Keyed := by
  rcases replaceTarget_cases h with ⟨-, -, rfl⟩ | ⟨-, -, rfl⟩ | ⟨-, id, hremoved⟩
  · exact hk
  · exact hk
  · exact hremoved.keyed hk

end Fs

/-- A rename under an ordinary name, into an existing directory if it moves a file. The other
calls are always ordinary. -/
def Op.Ordinary (order : HashOrder) (fs : Fs) : Op → Prop
  | .rename fromDirid fromFilename toDirid _ =>
    fromFilename ≠ dot ∧ fromFilename ≠ dotDot ∧
      ((fs.lookup order fromDirid fromFilename).toOption.any (!·.isDir) → (fs.get toDirid).isSome)
  | .create .. | .createExclusive .. | .mkdir .. | .remove .. | .setattr .. | .write .. => True

instance (order : HashOrder) (fs : Fs) : DecidablePred (Op.Ordinary order fs)
  | .rename .. => inferInstanceAs (Decidable (_ ∧ _ ∧ _))
  | .create .. | .createExclusive .. | .mkdir .. | .remove .. | .setattr .. | .write .. =>
    inferInstanceAs (Decidable True)

namespace MemFs

def OrdinaryCall (s : MemFs) (call : Call) : Prop := call.op.Ordinary call.env.order s.fs

instance (s : MemFs) (call : Call) : Decidable (s.OrdinaryCall call) :=
  inferInstanceAs (Decidable (call.op.Ordinary call.env.order s.fs))

section Keyed

variable {s s' : MemFs} {call : Call}

theorem step_keyed (hk : s.fs.Keyed) (h : s.step call = some s') :
    s'.fs.Keyed := by
  obtain ⟨⟨r, s₁⟩, hexec, rfl⟩ := Option.map_eq_some_iff.mp h
  have heffect := exec_effect hexec
  obtain ⟨env, op⟩ := call
  generalize s₁.fs = fs' at heffect ⊢
  cases heffect with
  | unchanged => exact hk
  | pushed _ _ _ _ _ _ hpush => exact hpush.keyed hk
  | removed _ _ hremove => exact hremove.keyed hk
  | updated _ _ _ hget hlinks => exact hk.insert (hlinks.fileid.trans (hk _ _ hget))
  | renamed _ hrename =>
    cases hrename with
    | unchanged => exact hk
    | rejected _ _ hreplace _ => exact Fs.replaceTarget_keyed hk hreplace
    | relinked _ _ hreplace _ hrelink =>
      exact Fs.relink_keyed (Fs.replaceTarget_keyed hk hreplace) hrelink

theorem run_keyed {calls : List Call} {currentTime : Nfstime3}
    (hrun : Transition.run step (default currentTime) calls = some s) : s.fs.Keyed := by
  have hstep : ∀ s call s', s.fs.Keyed → True → step s call = some s' → s'.fs.Keyed :=
    fun _ _ _ hk _ => step_keyed hk
  have hkeyed := Transition.run_invariant hstep (Fs.linked_new currentTime).keyed
    (Transition.along_of_forall fun _ _ => trivial) hrun
  exact hkeyed

end Keyed

theorem step_linked {s s' : MemFs} {call : Call} (hl : s.fs.Linked) (hcall : s.OrdinaryCall call)
    (h : s.step call = some s') : s'.fs.Linked := by
  obtain ⟨⟨r, s₁⟩, hexec, rfl⟩ := Option.map_eq_some_iff.mp h
  have heffect := exec_effect hexec
  obtain ⟨env, op⟩ := call
  generalize s₁.fs = fs' at heffect ⊢
  cases heffect with
  | unchanged => exact hl
  | pushed _ _ _ _ hcontent hup hpush =>
    exact ⟨hpush.keyed hl.keyed, (hpush.addLeaf hcontent hup).wellFormed hl.tree⟩
  | removed _ _ hremove => exact hremove.linked hl
  | updated _ _ _ hget hlinks => exact hl.replace hget hlinks
  | renamed _ hrename =>
    obtain ⟨hdot, hdotDot, htarget⟩ := hcall
    refine hrename.linked hl hdot hdotDot ?_
    intro f hf
    exact htarget (by simp [hf, Except.toOption, Entry.isDir])

/-- In every state of a run of ordinary calls the entries map, the content sets and the
parent fields describe one tree. -/
theorem tree_invariant {calls : List Call} {currentTime : Nfstime3} {s : MemFs}
    (hcalls : Transition.Along step OrdinaryCall (default currentTime) calls)
    (hrun : Transition.run step (default currentTime) calls = some s) : s.fs.TreeInvariant := by
  have hstep : ∀ s call s', s.fs.Linked → OrdinaryCall s call → step s call = some s' →
      s'.fs.Linked := fun _ _ _ => step_linked
  have hlinked := Transition.run_invariant hstep (Fs.linked_new currentTime) hcalls hrun
  exact hlinked.treeInvariant

def sampleEnv : Env := ⟨.ascending, fun _ => ⟨0, 0⟩⟩

/-- Two directories `a` and `c`, a file `f` in `a`; `f` is moved to `c`, then `a` into `c`. -/
def sampleMoves : List Call :=
  [.mkdir 1 ⟨⟨[0x61]⟩⟩, .mkdir 1 ⟨⟨[0x63]⟩⟩, .create 2 ⟨⟨[0x66]⟩⟩ noChange,
    .rename 2 ⟨⟨[0x66]⟩⟩ 3 ⟨⟨[0x67]⟩⟩, .rename 1 ⟨⟨[0x61]⟩⟩ 3 ⟨⟨[0x61]⟩⟩].map (⟨sampleEnv, ·⟩)

theorem tree_invariant_moves :
    ∃ s, Transition.run step (default ⟨0, 0⟩) sampleMoves = some s ∧
      s.fs.children 3 = {4, 2} ∧ s.fs.TreeInvariant := by
  have hrun : (Transition.run step (default ⟨0, 0⟩) sampleMoves).map (·.fs.children 3) =
      some {4, 2} := by decide
  obtain ⟨s, hs, hchildren⟩ := Option.map_eq_some_iff.mp hrun
  exact ⟨s, hs, hchildren, tree_invariant (by decide) hs⟩

/-- Two directories `a` and `c`; the rename of `.` in `a` links `a` into `c` as well. -/
theorem tree_broken_by_dot :
    ¬ ∀ calls currentTime s, Transition.run step (default currentTime) calls = some s →
      s.fs.TreeInvariant := by
  intro h
  let calls : List Call :=
    [.mkdir 1 ⟨⟨[0x61]⟩⟩, .mkdir 1 ⟨⟨[0x63]⟩⟩, .rename 2 dot 3 ⟨⟨[0x62]⟩⟩].map (⟨sampleEnv, ·⟩)
  have hrun : (Transition.run step (default ⟨0, 0⟩) calls).map
      (fun s => (s.fs.root, s.fs.children 1, s.fs.children 3)) = some (1, {2, 3}, {2}) := by
    decide
  obtain ⟨s, hs, heq⟩ := Option.map_eq_some_iff.mp hrun
  obtain ⟨hroot, h1, h3⟩ : s.fs.root = 1 ∧ s.fs.children 1 = {2, 3} ∧ s.fs.children 3 = {2} := by
    simpa using heq
  have htree := h calls ⟨0, 0⟩ s hs
  have hin1 := Fs.mem_children.mp (show 2 ∈ s.fs.children 1 by simp [h1])
  have hin3 := Fs.mem_children.mp (show 2 ∈ s.fs.children 3 by simp [h3])
  obtain ⟨dir, hdir, hmem⟩ := hin1
  obtain ⟨entry, hentry⟩ := htree.closed 1 dir 2 hdir hmem
  obtain ⟨d, -, hunique⟩ := htree.linked 2 entry hentry (by rw [hroot]; decide)
  have heq13 : (1 : FileHandleU64) = 3 := (hunique 1 ⟨dir, hdir, hmem⟩).trans (hunique 3 hin3).symm
  exact absurd heq13 (by decide)

end MemFs

end Nfs3.Memfs
