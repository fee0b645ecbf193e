import Nfs3.Server.MemFs.Tree

/-!
# Names in the directories of the in-memory file system

Names are stored in the entries and found by a scan of the content set, so nothing but the
checks of the operations keeps two children of a directory from having the same name. Making a
file checks, and so does renaming; making a directory does not. A rename under the source name
`.` or `..` leaves a directory linked where it was, and renames it there as well.

Every other step either only unlinks, or links an entry that no directory holds under a name
that is free in its new directory.
-/
namespace Nfs3.Memfs

namespace Fs

variable {order : HashOrder} {fs fs' : Fs} {d i j : FileHandleU64} {entry : Entry}
  {name : Filename3}

def nameOf (fs : Fs) (i : FileHandleU64) : Option Filename3 := (fs.get i).map Entry.name

/-- No child of the directory has the name. -/
def NameFree (fs : Fs) (d : FileHandleU64) (name : Filename3) : Prop :=
  ∀ i ∈ fs.children d, fs.nameOf i ≠ some name

instance (fs : Fs) (d : FileHandleU64) (name : Filename3) : Decidable (fs.NameFree d name) :=
  Finset.decidableDforallFinset

/-- No two entries in the content set of one directory have the same name. -/
def UniqueNames (fs : Fs) : Prop :=
  ∀ d dir i j ei ej, fs.get d = some (.dir dir) → i ∈ dir.content → j ∈ dir.content →
    fs.get i = some ei → fs.get j = some ej → ei.name = ej.name → i = j

/-- Every linked entry is there, in one directory, under a name of its own. -/
structure Named (fs : Fs) : Prop where
  keyed : fs.Keyed
  closed : ∀ d, ∀ i ∈ fs.children d, (fs.nameOf i).isSome
  single : ∀ d d', ∀ i ∈ fs.children d, i ∈ fs.children d' → d = d'
  unique : ∀ d, ∀ i ∈ fs.children d, ∀ j ∈ fs.children d, fs.nameOf i = fs.nameOf j → i = j

theorem nameOf_of_get (h : fs.get i = some entry) : fs.nameOf i = some entry.name := by
  simp [nameOf, h]

theorem nameOf_insert :
    (fs.insert i entry).nameOf j = if j = i then some entry.name else fs.nameOf j := by
  unfold nameOf
  rw [get_insert]
  split_ifs <;> rfl

theorem nameOf_erase_of_ne (h : j ≠ i) : (fs.erase i).nameOf j = fs.nameOf j := by
  unfold nameOf
  rw [get_erase_of_ne h]

theorem nameOf_replace {entry' : Entry} (h : fs.get i = some entry)
    (hname : entry'.name = entry.name) : (fs.insert i entry').nameOf j = fs.nameOf j := by
  rw [nameOf_insert]
  split_ifs with hj
  · rw [hj, nameOf_of_get h, hname]
  · rfl

theorem Named.uniqueNames (h : fs.Named) : fs.UniqueNames := by
  intro d dir i j ei ej hd hi hj hei hej hname
  apply h.unique d i (mem_children.mpr ⟨dir, hd, hi⟩) j (mem_children.mpr ⟨dir, hd, hj⟩)
  rw [nameOf_of_get hei, nameOf_of_get hej, hname]

theorem named_new (currentTime : Nfstime3) : (new currentTime).Named := by
  constructor
  · exact (linked_new currentTime).keyed
  · intro d i hi
    exact absurd hi notMem_children_new
  · intro d d' i hi
    exact absurd hi notMem_children_new
  · intro d i hi
    exact absurd hi notMem_children_new

/-! ## The two kinds of steps -/

theorem Named.unlink (h : fs.Named) (hkeyed : fs'.Keyed)
    (hchild : ∀ d, fs'.children d ⊆ fs.children d)
    (hname : ∀ d, ∀ i ∈ fs'.children d, fs'.nameOf i = fs.nameOf i) : fs'.Named := by
  constructor
  · exact hkeyed
  · intro d i hi
    rw [hname d i hi]
    exact h.closed d i (hchild d hi)
  · intro d d' i hi hi'
    exact h.single d d' i (hchild d hi) (hchild d' hi')
  · intro d i hi j hj hij
    rw [hname d i hi, hname d j hj] at hij
    exact h.unique d i (hchild d hi) j (hchild d hj) hij

theorem Named.link (i p : FileHandleU64) (name : Filename3) (h : fs.Named) (hkeyed : fs'.Keyed)
    (hchild : ∀ d, fs'.children d =
      if d = p then Insert.insert i (fs.children d) else fs.children d)
    (hfresh : ∀ d, i ∉ fs.children d) (hfree : fs.NameFree p name)
    (hname : ∀ j, fs'.nameOf j = if j = i then some name else fs.nameOf j) : fs'.Named := by
  -- a child other than the new one was a child of the same directory, under the same name
  have hold : ∀ d j, j ∈ fs'.children d → j ≠ i → j ∈ fs.children d := by
    intro d j hj hji
    rw [hchild] at hj
    split_ifs at hj
    · exact Finset.mem_of_mem_insert_of_ne hj hji
    · exact hj
  have hnew : ∀ d, i ∈ fs'.children d → d = p := by
    intro d hd
    by_contra hne
    rw [hchild, if_neg hne] at hd
    exact hfresh d hd
  have hnames : ∀ j, j ≠ i → fs'.nameOf j = fs.nameOf j := by
    intro j hj
    rw [hname, if_neg hj]
  have hself : fs'.nameOf i = some name := by rw [hname, if_pos rfl]
  have hclash : ∀ d j, i ∈ fs'.children d → j ∈ fs'.children d → fs'.nameOf j = some name →
      j = i := by
    intro d j hi hj hjname
    by_contra hne
    have hd := hnew d hi
    subst hd
    rw [hnames j hne] at hjname
    exact hfree j (hold d j hj hne) hjname
  constructor
  · exact hkeyed
  · intro d j hj
    by_cases hji : j = i
    · rw [hji, hself]
      rfl
    · rw [hnames j hji]
      exact h.closed d j (hold d j hj hji)
  · intro d d' j hj hj'
    by_cases hji : j = i
    · subst hji
      exact (hnew d hj).trans (hnew d' hj').symm
    · exact h.single d d' j (hold d j hj hji) (hold d' j hj' hji)
  · intro d j hj k hk hjk
    by_cases hji : j = i
    · subst hji
      rw [hself] at hjk
      exact (hclash d k hj hk hjk.symm).symm
    by_cases hki : k = i
    · subst hki
      rw [hself] at hjk
      exact hclash d j hk hj hjk
    · rw [hnames j hji, hnames k hki] at hjk
      exact h.unique d j (hold d j hj hji) k (hold d k hk hki) hjk

/-! ## What the operations do to the names -/

theorem Named.notMem_of_get_none (h : fs.Named) (hi : fs.get i = none) : i ∉ fs.children d := by
  intro hmem
  have hsome := h.closed d i hmem
  simp [nameOf, hi] at hsome

theorem Pushed.named {p : FileHandleU64} (h : Pushed fs p entry fs') (hn : fs.Named)
    (hcontent : entry.content = ∅) (hfree : fs.NameFree p entry.name) : fs'.Named := by
  refine hn.link entry.fileid p entry.name (h.keyed hn.keyed) (fun _ => h.children_eq hcontent) ?_
    hfree ?_
  · intro d
    exact hn.notMem_of_get_none h.fresh
  · intro j
    obtain ⟨-, dir, hget, -, rfl⟩ := h
    have hrename : (Entry.dir (dir.addEntry entry.fileid)).name = (Entry.dir dir).name := rfl
    rw [nameOf_replace hget hrename, nameOf_insert]

theorem Removed.children_erase {d e : FileHandleU64} (h : Removed fs d name i fs')
    (hn : fs.Named) : fs'.children e = (fs.children e).erase i :=
  h.children_eq fun e' he => hn.single e' d i he h.child_mem

theorem Removed.nameOf {d : FileHandleU64} (h : Removed fs d name i fs') (hj : j ≠ i) :
    fs'.nameOf j = fs.nameOf j := by
  obtain ⟨dir, hget, -, rfl⟩ := h.eq
  have hget' : (fs.erase i).get d = some (.dir dir) := by rw [get_erase_of_ne h.ne, hget]
  have hrename : (Entry.dir (dir.removeEntry i)).name = (Entry.dir dir).name := rfl
  rw [nameOf_replace hget' hrename, nameOf_erase_of_ne hj]

theorem Removed.named {d : FileHandleU64} (h : Removed fs d name i fs') (hn : fs.Named) :
    fs'.Named := by
  refine hn.unlink (h.keyed hn.keyed) ?_ ?_
  · intro e
    rw [h.children_erase hn]
    exact Finset.erase_subset _ _
  · intro e j hj
    rw [h.children_erase hn] at hj
    exact h.nameOf (Finset.ne_of_mem_erase hj)

/-- The name of the removed entry was its alone. -/
theorem Removed.nameFree {d : FileHandleU64} (h : Removed fs d name i fs') (hn : fs.Named) :
    fs'.NameFree d name := by
  intro j hj hjname
  obtain ⟨entry, hentry, hname, -⟩ := h.entry
  rw [h.children_erase hn] at hj
  obtain ⟨hne, hjd⟩ := Finset.mem_erase.mp hj
  rw [h.nameOf hne] at hjname
  apply hne
  apply hn.unique d j hjd i h.child_mem
  rw [hjname, nameOf_of_get hentry, hname]

theorem Named.replace {entry' : Entry} (h : fs.Named) (hget : fs.get i = some entry)
    (hlinks : entry.SameLinks entry') : (fs.insert i entry').Named := by
  refine h.unlink (h.keyed.insert (hlinks.fileid.trans (h.keyed i entry hget))) ?_ ?_
  · intro d
    rw [children_replace hget hlinks.content]
  · intro d j _
    exact nameOf_replace hget hlinks.name

theorem scan_noent {ids : List FileHandleU64}
    (h : fs.scan name ids = .error .nfs3errNoent) : ∀ i ∈ ids, fs.nameOf i ≠ some name := by
  induction ids with
  | nil => simp
  | cons id ids ih =>
    unfold scan at h
    split at h
    · cases h
    rename_i f hf
    split_ifs at h with hname
    intro i hi
    rcases List.mem_cons.mp hi with rfl | hi
    · rw [nameOf_of_get hf]
      simpa using hname
    · exact ih h i hi

theorem nameFree_of_lookup_noent (h : fs.lookup order d name = .error .nfs3errNoent) :
    fs.NameFree d name := by
  unfold lookup at h
  intro i hi
  obtain ⟨dir, hget, hmem⟩ := mem_children.mp hi
  rw [hget] at h
  dsimp only at h
  split_ifs at h with hdot hdotDot
  · split at h <;> cases h
  · exact scan_noent h i (order.mem_iter.mpr hmem)

section Rename

variable {fd td sid : FileHandleU64} {fn tn : Filename3} {fromEntry : Entry} {fs₁ : Fs}
  {r : Except Nfsstat3 Unit}

theorem replaceTarget_named (hn : fs.Named)
    (h : fs.replaceTarget order fromEntry td tn = some (r, fs')) : fs'.Named := by
  rcases replaceTarget_cases h with ⟨-, -, rfl⟩ | ⟨-, -, rfl⟩ | ⟨-, id, hremoved⟩
  · exact hn
  · exact hn
  · exact hremoved.named hn

theorem replaceTarget_nameFree (hn : fs.Named)
    (h : fs.replaceTarget order fromEntry td tn = some (.ok (), fs')) : fs'.NameFree td tn := by
  rcases replaceTarget_cases h with ⟨e, he, -⟩ | ⟨-, hnoent, rfl⟩ | ⟨-, id, hremoved⟩
  · cases he
  · exact nameFree_of_lookup_noent hnoent
  · exact hremoved.nameFree hn

/-- Relinking takes the entry out of its directory and, if the new one is there, links it under
the free name. -/
theorem relink_named (hn : fs.Named) (hchild : sid ∈ fs.children fd) (hfree : fs.NameFree td tn)
    (h : fs.relink fd sid td tn = (r, fs')) : fs'.Named := by
  have hkeyed := relink_keyed hn.keyed h
  obtain ⟨fromDir, hfd, hmem⟩ := mem_children.mp hchild
  simp only [relink, hfd] at h
  -- the state after the entry has left its old directory
  set fs₁ := fs.insert fd (.dir (fromDir.removeEntry sid)) with hfs₁
  have hout : ∀ d, fs₁.children d = (fs.children d).erase sid := fun d =>
    children_removeEntry hfd fun e he => hn.single e fd sid he hchild
  have hnames₁ : ∀ j, fs₁.nameOf j = fs.nameOf j := fun j => nameOf_replace hfd rfl
  have hn₁ : fs₁.Named := by
    refine hn.unlink (hn.keyed.insert (hn.keyed fd (.dir fromDir) hfd)) ?_ fun _ j _ => hnames₁ j
    intro d
    rw [hout]
    exact Finset.erase_subset _ _
  split at h
  · rw [← (Prod.mk.inj h).2]
    exact hn₁
  · rw [← (Prod.mk.inj h).2]
    exact hn₁
  rename_i toDir htd
  split_ifs at h
  · rw [← (Prod.mk.inj h).2]
    exact hn₁
  -- and after it has entered the new one
  set fs₂ := fs₁.insert td (.dir (toDir.addEntry sid)) with hfs₂
  have hnames₂ : ∀ j, fs₂.nameOf j = fs.nameOf j := by
    intro j
    rw [← hnames₁ j]
    exact nameOf_replace htd rfl
  obtain ⟨entry, hentry⟩ : ∃ entry, fs₂.get sid = some entry := by
    have hsome := hn.closed fd sid hchild
    rw [← hnames₂] at hsome
    exact Option.isSome_iff_exists.mp (by simpa [nameOf] using hsome)
  simp only [hentry] at h
  obtain ⟨-, rfl⟩ := Prod.mk.inj h
  refine hn₁.link sid td tn hkeyed ?_ ?_ ?_ ?_
  · intro d
    rw [children_replace hentry (Entry.content_relocate ..), children_addEntry htd]
  · intro d
    rw [hout]
    exact Finset.notMem_erase _ _
  · intro j hj
    rw [hout] at hj
    rw [hnames₁]
    exact hfree j (Finset.mem_of_mem_erase hj)
  · intro j
    have hname : (entry.relocate td tn).name = tn := by cases entry <;> rfl
    rw [nameOf_insert, hname, hnames₂, hnames₁]

theorem Renamed.named (h : Renamed order fs fd fn td tn r fs') (hn : fs.Named)
    (hdot : fn ≠ dot) (hdotDot : fn ≠ dotDot) : fs'.Named := by
  cases h with
  | unchanged => exact hn
  | rejected hlookup hdistinct hreplace hcheck => exact replaceTarget_named hn hreplace
  | relinked hlookup hdistinct hreplace hcheck hrelink =>
    have hsource :=
      source_after_replace hn.keyed hn.single hdot hdotDot hlookup hdistinct hreplace
    exact relink_named (replaceTarget_named hn hreplace) hsource
      (replaceTarget_nameFree hn hreplace) hrelink

end Rename

/-- Among named children the scan finds the one with the name, in whatever order it looks. -/
theorem scan_of_mem {ids : List FileHandleU64} (hids : ∀ j ∈ ids, (fs.nameOf j).isSome)
    (hunique : ∀ j ∈ ids, fs.nameOf j = some entry.name → j = i) (hi : i ∈ ids)
    (hget : fs.get i = some entry) : fs.scan entry.name ids = .ok entry := by
  induction ids with
  | nil => cases hi
  | cons id ids ih =>
    obtain ⟨f, hf⟩ : ∃ f, fs.get id = some f := by
      have hsome := hids id List.mem_cons_self
      exact Option.isSome_iff_exists.mp (by simpa [nameOf] using hsome)
    simp only [scan, hf]
    split_ifs with hname
    · have hid : id = i := by
        apply hunique id List.mem_cons_self
        rw [nameOf_of_get hf, hname]
      subst hid
      rw [hget] at hf
      cases hf
      rfl
    · have hne : i ≠ id := by
        rintro rfl
        rw [hget] at hf
        cases hf
        exact hname rfl
      refine ih ?_ ?_ (List.mem_of_ne_of_mem hne hi)
      · exact fun j hj => hids j (List.mem_cons_of_mem id hj)
      · exact fun j hj => hunique j (List.mem_cons_of_mem id hj)

theorem scan_of_free {ids : List FileHandleU64} (hids : ∀ j ∈ ids, (fs.nameOf j).isSome)
    (hfree : ∀ j ∈ ids, fs.nameOf j ≠ some name) :
    fs.scan name ids = .error .nfs3errNoent := by
  induction ids with
  | nil => rfl
  | cons id ids ih =>
    obtain ⟨f, hf⟩ : ∃ f, fs.get id = some f := by
      have hsome := hids id List.mem_cons_self
      exact Option.isSome_iff_exists.mp (by simpa [nameOf] using hsome)
    have hname : f.name ≠ name := by
      intro hname
      exact hfree id List.mem_cons_self (by rw [nameOf_of_get hf, hname])
    simp only [scan, hf, if_neg hname]
    refine ih ?_ ?_
    · exact fun j hj => hids j (List.mem_cons_of_mem id hj)
    · exact fun j hj => hfree j (List.mem_cons_of_mem id hj)

theorem Named.scan_child {dir : Dir} (h : fs.Named) (hd : fs.get d = some (.dir dir))
    (hi : i ∈ dir.content) (hentry : fs.get i = some entry) (order : HashOrder) :
    fs.scan entry.name (order.iter d dir.content) = .ok entry := by
  have hmem : ∀ j ∈ order.iter d dir.content, j ∈ fs.children d :=
    fun j hj => mem_children.mpr ⟨dir, hd, order.mem_iter.mp hj⟩
  refine scan_of_mem (fun j hj => h.closed d j (hmem j hj)) ?_ (order.mem_iter.mpr hi) hentry
  intro j hj hjname
  exact h.unique d j (hmem j hj) i (mem_children.mpr ⟨dir, hd, hi⟩)
    (hjname.trans (nameOf_of_get hentry).symm)

theorem Named.scan_free {dir : Dir} (h : fs.Named) (hd : fs.get d = some (.dir dir))
    (hfree : fs.NameFree d name) (order : HashOrder) :
    fs.scan name (order.iter d dir.content) = .error .nfs3errNoent := by
  have hmem : ∀ j ∈ order.iter d dir.content, j ∈ fs.children d :=
    fun j hj => mem_children.mpr ⟨dir, hd, order.mem_iter.mp hj⟩
  exact scan_of_free (fun j hj => h.closed d j (hmem j hj)) (fun j hj => hfree j (hmem j hj))

theorem Named.lookup_order (h : fs.Named) (order order' : HashOrder) :
    fs.lookup order d name = fs.lookup order' d name := by
  cases hd : fs.get d with
  | none => simp only [lookup, hd]
  | some entry =>
    cases entry with
    | file f => simp only [lookup, hd]
    | dir dir =>
      have hscan : fs.scan name (order.iter d dir.content) =
          fs.scan name (order'.iter d dir.content) := by
        by_cases hfree : fs.NameFree d name
        · rw [h.scan_free hd hfree, h.scan_free hd hfree]
        · simp only [NameFree, not_forall, not_not] at hfree
          obtain ⟨i, hi, hname⟩ := hfree
          obtain ⟨entry, hentry, rfl⟩ := Option.map_eq_some_iff.mp hname
          rw [children_of_get hd] at hi
          rw [h.scan_child hd hi hentry, h.scan_child hd hi hentry]
      simp only [lookup, hd, hscan]

end Fs

/-- A directory is made under a name that is free where it is made, and a rename is of an
ordinary name. -/
def Op.KeepsNames (fs : Fs) : Op → Prop
  | .mkdir dirid dirname => fs.NameFree dirid dirname
  | .rename _ fromFilename _ _ => fromFilename ≠ dot ∧ fromFilename ≠ dotDot
  | .create .. | .createExclusive .. | .remove .. | .setattr .. | .write .. => True

instance (fs : Fs) : DecidablePred (Op.KeepsNames fs)
  | .mkdir dirid dirname => inferInstanceAs (Decidable (fs.NameFree dirid dirname))
  | .rename .. => inferInstanceAs (Decidable (_ ∧ _))
  | .create .. | .createExclusive .. | .remove .. | .setattr .. | .write .. =>
    inferInstanceAs (Decidable True)

namespace MemFs

variable {s s' : MemFs} {env : Env} {call : Call} {r : Except Nfsstat3 Reply}
  {dirid : FileHandleU64} {filename : Filename3}

def KeepsNames (s : MemFs) (call : Call) : Prop := call.op.KeepsNames s.fs

instance (s : MemFs) (call : Call) : Decidable (s.KeepsNames call) :=
  inferInstanceAs (Decidable (call.op.KeepsNames s.fs))

theorem lift_push_named {entry : Entry} {n : UInt64} {reply : Reply} (hn : s.fs.Named)
    (hcontent : entry.content = ∅) (hfree : s.fs.NameFree dirid entry.name)
    (h : ({ s with nextid := n } : MemFs).lift (s.fs.push dirid entry) reply = some (r, s')) :
    s'.fs.Named := by
  obtain ⟨r₀, fs', hp, rfl, rfl⟩ := lift_eq_some h
  rcases Fs.push_cases hp with ⟨e, rfl, rfl⟩ | ⟨rfl, hpush⟩
  · exact hn
  · exact hpush.named hn hcontent hfree

/-- A file is only added after a lookup of its name has found nothing. -/
theorem addFile_named {attr : Sattr3} {content : ByteOrder.Bytes} {verf : Option Createverf3}
    (hn : s.fs.Named) (h : s.addFile env dirid filename attr content verf = some (r, s')) :
    s'.fs.Named := by
  unfold addFile at h
  dsimp only at h
  split at h
  · cases h
  rename_i file hfile
  have hlinks := Entry.sameLinks_setAttr hfile
  split at h
  · rename_i hnoent
    exact lift_push_named hn hlinks.content (Fs.nameFree_of_lookup_noent hnoent) h
  · split_ifs at h
    · cases h
      exact hn
    · cases h
      exact hn
  · cases h
    exact hn
  · cases h
    exact hn

theorem step_named (hn : s.fs.Named) (hcall : s.KeepsNames call) (h : s.step call = some s') :
    s'.fs.Named := by
  obtain ⟨⟨r, s₁⟩, hexec, rfl⟩ := Option.map_eq_some_iff.mp h
  obtain ⟨env, op⟩ := call
  cases op with
  | create dirid filename attr => exact addFile_named hn hexec
  | createExclusive dirid filename createverf =>
    obtain ⟨⟨r₀, s₂⟩, hadd, he⟩ := Option.map_eq_some_iff.mp hexec
    cases he
    exact addFile_named hn hadd
  | mkdir dirid dirname =>
    have hfree : s.fs.NameFree dirid (Entry.newDir dirname s.nextid dirid (env.time 0)).name :=
      hcall
    exact lift_push_named hn rfl hfree hexec
  | remove dirid filename =>
    obtain ⟨r₀, fs', hremove, rfl, rfl⟩ := lift_eq_some hexec
    rcases Fs.remove_cases hremove with ⟨e, rfl, rfl⟩ | ⟨rfl, id, hremoved⟩
    · exact hn
    · exact hremoved.named hn
  | rename fromDirid fromFilename toDirid toFilename =>
    obtain ⟨r₀, fs', hrename, rfl, rfl⟩ := lift_eq_some hexec
    exact (Fs.rename_cases hrename).named hn hcall.1 hcall.2
  | setattr | write =>
    have heffect := exec_effect hexec
    generalize s₁.fs = fs' at heffect ⊢
    cases heffect with
    | unchanged => exact hn
    | removed _ _ hremove => exact hremove.named hn
    | updated _ _ _ hget hlinks => exact hn.replace hget hlinks
    | pushed _ _ hop => cases hop

/-- In every state of a run in which directories are made under free names and no rename is of
`.` or `..`, the children of a directory have different names, and a lookup does not depend on
the order in which they are visited. -/
theorem names_unique {calls : List Call} {currentTime : Nfstime3}
    (hcalls : Transition.Along step KeepsNames (default currentTime) calls)
    (hrun : Transition.run step (default currentTime) calls = some s) :
    s.fs.UniqueNames ∧ ∀ order order' dirid filename,
      s.fs.lookup order dirid filename = s.fs.lookup order' dirid filename := by
  have hstep : ∀ s call s', s.fs.Named → KeepsNames s call → step s call = some s' →
      s'.fs.Named := fun _ _ _ => step_named
  have hnamed := Transition.run_invariant hstep (Fs.named_new currentTime) hcalls hrun
  exact ⟨hnamed.uniqueNames, fun order order' _ _ => hnamed.lookup_order order order'⟩

theorem names_unique_moves :
    ∃ s, Transition.run step (default ⟨0, 0⟩) sampleMoves = some s ∧
      s.fs.children 3 = {4, 2} ∧ s.fs.UniqueNames ∧ ∀ order order' dirid filename,
        s.fs.lookup order dirid filename = s.fs.lookup order' dirid filename := by
  have hrun : (Transition.run step (default ⟨0, 0⟩) sampleMoves).map (·.fs.children 3) =
      some {4, 2} := by decide
  obtain ⟨s, hs, hchildren⟩ := Option.map_eq_some_iff.mp hrun
  exact ⟨s, hs, hchildren, names_unique (by decide) hs⟩

/-- A run after which two children of one directory have the same name. -/
theorem not_uniqueNames_of_run {calls : List Call} {d i j : FileHandleU64} {name : Filename3}
    (hrun : (Transition.run step (default ⟨0, 0⟩) calls).map (fun s =>
      (decide (i ∈ s.fs.children d ∧ j ∈ s.fs.children d), s.fs.nameOf i, s.fs.nameOf j)) =
        some (true, some name, some name)) (hij : i ≠ j) :
    ∃ s, Transition.run step (default ⟨0, 0⟩) calls = some s ∧ ¬ s.fs.UniqueNames := by
  obtain ⟨s, hs, heq⟩ := Option.map_eq_some_iff.mp hrun
  simp only [Prod.mk.injEq, decide_eq_true_eq] at heq
  obtain ⟨⟨hi, hj⟩, hni, hnj⟩ := heq
  refine ⟨s, hs, ?_⟩
  intro hunique
  obtain ⟨dir, hd, hmi⟩ := Fs.mem_children.mp hi
  obtain ⟨dir', hd', hmj⟩ := Fs.mem_children.mp hj
  rw [hd] at hd'
  cases hd'
  obtain ⟨ei, hei, hnei⟩ := Option.map_eq_some_iff.mp hni
  obtain ⟨ej, hej, hnej⟩ := Option.map_eq_some_iff.mp hnj
  exact hij (hunique d dir i j ei ej hd hmi hmj hei hej (hnei.trans hnej.symm))

theorem names_clash_mkdir :
    ¬ ∀ calls currentTime s, Transition.run step (default currentTime) calls = some s →
      s.fs.UniqueNames := by
  intro h
  let calls : List Call := [.mkdir 1 ⟨⟨[0x61]⟩⟩, .mkdir 1 ⟨⟨[0x61]⟩⟩].map (⟨sampleEnv, ·⟩)
  obtain ⟨s, hs, hclash⟩ := not_uniqueNames_of_run
    (show (Transition.run step (default ⟨0, 0⟩) calls).map (fun s =>
      (decide ((2 : FileHandleU64) ∈ s.fs.children 1 ∧ (3 : FileHandleU64) ∈ s.fs.children 1),
        s.fs.nameOf 2, s.fs.nameOf 3)) = some (true, some ⟨⟨[0x61]⟩⟩, some ⟨⟨[0x61]⟩⟩) by decide)
    (by decide)
  exact hclash (h calls ⟨0, 0⟩ s hs)

/-- Directories `a`, `b` and `c`; the rename of `.` in `a` to `b` in `c` also renames `a` where
it was, next to `b`. -/
theorem names_clash_dot :
    ∃ calls env s, Transition.Along step KeepsNames (default ⟨0, 0⟩) calls ∧
      Transition.run step (default ⟨0, 0⟩)
        (calls ++ [⟨env, .rename 2 dot 4 ⟨⟨[0x62]⟩⟩⟩]) = some s ∧ ¬ s.fs.UniqueNames := by
  let calls : List Call :=
    [.mkdir 1 ⟨⟨[0x61]⟩⟩, .mkdir 1 ⟨⟨[0x62]⟩⟩, .mkdir 1 ⟨⟨[0x63]⟩⟩].map (⟨sampleEnv, ·⟩)
  let rename : Call := ⟨sampleEnv, .rename 2 dot 4 ⟨⟨[0x62]⟩⟩⟩
  obtain ⟨s, hs, hclash⟩ := not_uniqueNames_of_run
    (show (Transition.run step (default ⟨0, 0⟩) (calls ++ [rename])).map (fun s =>
      (decide ((2 : FileHandleU64) ∈ s.fs.children 1 ∧ (3 : FileHandleU64) ∈ s.fs.children 1),
        s.fs.nameOf 2, s.fs.nameOf 3)) = some (true, some ⟨⟨[0x62]⟩⟩, some ⟨⟨[0x62]⟩⟩) by decide)
    (by decide)
  exact ⟨calls, sampleEnv, s, by decide, hs, hclash⟩

end MemFs

end Nfs3.Memfs
