import Nfs3.Server.MemFs.Ancestors
import Nfs3.Server.MemFs.Names

/-!
# What a rename moves

Names are bound to entries through the content set of a directory and the name that is stored
in the entry. In a tree whose directories bind every name at most once, a rename that succeeds
moves one binding: it takes away an existing target, unlinks the entry, links it again and
gives it the new name and parent. Nothing else changes, and the tree stays one.
-/
namespace Nfs3.Memfs

open LinkedTree

namespace Fs

variable {fs fs' : Fs} {d : FileHandleU64} {entry : Entry}

/-- The tree invariant, without loops. -/
structure Tree (fs : Fs) : Prop where
  linked : fs.Linked
  rooted : Rooted fs.shape

theorem tree_new (currentTime : Nfstime3) : (new currentTime).Tree := by
  refine ⟨linked_new currentTime, ?_⟩
  intro i hi
  obtain ⟨entry, hget⟩ := Option.isSome_iff_exists.mp hi
  rw [(get_new hget).1]
  exact .refl

theorem Pushed.tree (h : Pushed fs d entry fs') (ht : fs.Tree) (hcontent : entry.content = ∅)
    (hup : ∀ u, entry.up = some u → u = d) (hd : (fs.get d).isSome) : fs'.Tree := by
  have hleaf := h.addLeaf hcontent hup
  exact ⟨⟨h.keyed ht.linked.keyed, hleaf.wellFormed ht.linked.tree⟩, hleaf.rooted ht.rooted hd⟩

end Fs

namespace MemFs

variable {s s' : MemFs} {env : Env} {dirid : FileHandleU64} {filename : Filename3}
  {r : Except Nfsstat3 Reply}

theorem addDir_tree (ht : s.fs.Tree) (hd : dirid ≠ s.nextid)
    (h : s.addDir env dirid filename = some (r, s')) : s'.fs.Tree := by
  obtain ⟨-, -, ⟨e, -, hfs⟩ | ⟨-, hpushed⟩⟩ := addDir_cases h
  · rw [hfs]
    exact ht
  · refine hpushed.tree ht rfl ?_ ?_
    · rintro u ⟨⟩
      rfl
    · have hparent := hpushed.parent_isDirAt fun _ => hd
      obtain ⟨dir, hget⟩ := Fs.isDirAt_eq_true.mp hparent
      simp [hget]

theorem addFile_tree {attr : Sattr3} {content : ByteOrder.Bytes} {verf : Option Createverf3}
    (ht : s.fs.Tree) (hd : dirid ≠ s.nextid)
    (h : s.addFile env dirid filename attr content verf = some (r, s')) : s'.fs.Tree := by
  obtain ⟨-, -, file, hset, hcases⟩ := addFile_cases h
  rcases hcases with ⟨e, -, hfs⟩ | ⟨existing, -, -, -, hfs⟩ | ⟨-, -, hpushed⟩
  · rw [hfs]
    exact ht
  · rw [hfs]
    exact ht
  · have hlinks := Entry.sameLinks_setAttr hset
    refine hpushed.tree ht hlinks.content ?_ ?_
    · intro u hu
      rw [hlinks.up] at hu
      cases hu
    · have hparent := hpushed.parent_isDirAt fun _ => hlinks.fileid.symm ▸ hd
      obtain ⟨dir, hget⟩ := Fs.isDirAt_eq_true.mp hparent
      simp [hget]

/-- The call makes an entry and does not present the handle that is drawn for it. -/
def Makes (s : MemFs) (call : Call) : Prop :=
  match call.op with
  | .create dirid .. | .createExclusive dirid .. | .mkdir dirid _ => dirid ≠ s.nextid
  | .remove .. | .rename .. | .setattr .. | .write .. => False

instance (s : MemFs) : DecidablePred s.Makes
  | ⟨_, .create ..⟩ | ⟨_, .createExclusive ..⟩ | ⟨_, .mkdir ..⟩ =>
    inferInstanceAs (Decidable (_ ≠ _))
  | ⟨_, .remove ..⟩ | ⟨_, .rename ..⟩ | ⟨_, .setattr ..⟩ | ⟨_, .write ..⟩ =>
    inferInstanceAs (Decidable False)

theorem Makes.tree {call : Call} (hmakes : s.Makes call) (ht : s.fs.Tree)
    (h : s.exec call = some (r, s')) : s'.fs.Tree := by
  obtain ⟨env, op⟩ := call
  cases op with
  | create dirid filename attr => exact addFile_tree ht hmakes h
  | createExclusive dirid filename createverf =>
    obtain ⟨⟨r₀, s₀⟩, hadd, heq⟩ := Option.map_eq_some_iff.mp h
    cases heq
    exact addFile_tree ht hmakes hadd
  | mkdir dirid dirname => exact addDir_tree ht hmakes h
  | remove | rename | setattr | write => exact hmakes.elim

section Runs

variable {calls : List Call} {currentTime : Nfstime3}

theorem run_tree (hmakes : Transition.Along step Makes (default currentTime) calls)
    (hrun : Transition.run step (default currentTime) calls = some s) : s.fs.Tree := by
  have hstep : ∀ s call s', s.fs.Tree → s.Makes call → step s call = some s' → s'.fs.Tree := by
    intro s call s' ht hmakes h
    obtain ⟨⟨r, s₁⟩, hexec, rfl⟩ := Option.map_eq_some_iff.mp h
    exact hmakes.tree ht hexec
  have htree := Transition.run_invariant hstep (Fs.tree_new currentTime) hmakes hrun
  exact htree

theorem run_named (hcalls : Transition.Along step KeepsNames (default currentTime) calls)
    (hrun : Transition.run step (default currentTime) calls = some s) : s.fs.Named := by
  have hstep : ∀ s call s', s.fs.Named → KeepsNames s call → step s call = some s' →
      s'.fs.Named := fun _ _ _ => step_named
  have hnamed := Transition.run_invariant hstep (Fs.named_new currentTime) hcalls hrun
  exact hnamed

theorem run_linked (hcalls : Transition.Along step OrdinaryCall (default currentTime) calls)
    (hrun : Transition.run step (default currentTime) calls = some s) : s.fs.Linked := by
  have hstep : ∀ s call s', s.fs.Linked → OrdinaryCall s call → step s call = some s' →
      s'.fs.Linked := fun _ _ _ => step_linked
  have hlinked := Transition.run_invariant hstep (Fs.linked_new currentTime) hcalls hrun
  exact hlinked

end Runs

end MemFs

namespace Fs

variable {order order' : HashOrder} {fs fs' fs₁ : Fs} {d i j id fd td tid : FileHandleU64}
  {name fn tn : Filename3} {entry : Entry}

/-- The directory `d` has the entry `i` under the name. -/
def Bound (fs : Fs) (d : FileHandleU64) (name : Filename3) (i : FileHandleU64) : Prop :=
  i ∈ fs.children d ∧ fs.nameOf i = some name

theorem Linked.named (hl : fs.Linked) (hu : fs.UniqueNames) : fs.Named := by
  constructor
  · exact hl.keyed
  · intro d i hi
    have hsome := hl.tree.closed d i hi
    rw [nameOf, Option.isSome_map]
    exact hsome
  · intro d d' i hi hi'
    exact hl.tree.unique d d' i hi hi'
  · intro d i hi j hj hname
    obtain ⟨dir, hdir, hmem⟩ := mem_children.mp hi
    obtain ⟨dir', hdir', hmem'⟩ := mem_children.mp hj
    rw [hdir] at hdir'
    cases hdir'
    obtain ⟨ei, hei⟩ := Option.isSome_iff_exists.mp (hl.tree.closed d i hi)
    obtain ⟨ej, hej⟩ := Option.isSome_iff_exists.mp (hl.tree.closed d j hj)
    rw [nameOf_of_get hei, nameOf_of_get hej] at hname
    exact hu d dir i j ei ej hdir hmem hmem' hei hej (Option.some.inj hname)

theorem Named.lookup_of_bound (h : fs.Named) (hdot : name ≠ dot) (hdotDot : name ≠ dotDot)
    (hbound : fs.Bound d name i) (hget : fs.get i = some entry) :
    fs.lookup order d name = .ok entry := by
  obtain ⟨hchild, hname⟩ := hbound
  obtain ⟨dir, hdir, hmem⟩ := mem_children.mp hchild
  have hiter : ∀ j ∈ order.iter d dir.content, j ∈ fs.children d := fun j hj =>
    mem_children.mpr ⟨dir, hdir, order.mem_iter.mp hj⟩
  have hentry : entry.name = name := by
    rw [nameOf_of_get hget] at hname
    exact Option.some.inj hname
  simp only [lookup, hdir, if_neg hdot, if_neg hdotDot]
  rw [← hentry]
  refine scan_of_mem (fun j hj => h.closed d j (hiter j hj)) ?_ (order.mem_iter.mpr hmem) hget
  intro j hj hjname
  rw [hentry, ← hname] at hjname
  exact h.unique d j (hiter j hj) i hchild hjname

theorem Named.lookup_of_unbound (h : fs.Named) (hdot : name ≠ dot) (hdotDot : name ≠ dotDot)
    (hdir : fs.isDirAt d) (hbound : ∀ i, ¬fs.Bound d name i) :
    fs.lookup order d name = .error .nfs3errNoent := by
  obtain ⟨dir, hdir⟩ := isDirAt_eq_true.mp hdir
  have hiter : ∀ j ∈ order.iter d dir.content, j ∈ fs.children d := fun j hj =>
    mem_children.mpr ⟨dir, hdir, order.mem_iter.mp hj⟩
  simp only [lookup, hdir, if_neg hdot, if_neg hdotDot]
  refine scan_of_free (fun j hj => h.closed d j (hiter j hj)) ?_
  intro j hj hname
  exact hbound j ⟨hiter j hj, hname⟩

theorem bound_of_lookup (hdot : name ≠ dot) (hdotDot : name ≠ dotDot)
    (h : fs.lookup order d name = .ok entry) :
    ∃ i, fs.Bound d name i ∧ fs.get i = some entry := by
  obtain ⟨hname, dir, i, hdir, hmem, hget⟩ := lookup_ok hdot hdotDot h
  refine ⟨i, ⟨mem_children.mpr ⟨dir, hdir, hmem⟩, ?_⟩, hget⟩
  rw [nameOf_of_get hget, hname]

/-- An entry is bound in one directory, under one name. -/
theorem Named.bound_unique {d' : FileHandleU64} {name' : Filename3} (h : fs.Named)
    (hb : fs.Bound d name i) (hb' : fs.Bound d' name' i) : d = d' ∧ name = name' := by
  refine ⟨h.single d d' i hb.1 hb'.1, ?_⟩
  have hname := hb.2
  rw [hb'.2] at hname
  exact (Option.some.inj hname).symm

/-! ## The effect of relinking -/

/-- Two versions of an entry that differ in the children at most. -/
structure SameButLinks (e e' : Entry) : Prop where
  name : e'.name = e.name
  attr : e'.attr = e.attr
  data : e'.data = e.data
  up : e'.up = e.up

/-- `fs'` is `fs` with the entry `id` in the directory `td`, under the name `tn`. -/
structure Moved (fs : Fs) (fd id td : FileHandleU64) (tn : Filename3) (entry : Entry)
    (fs' : Fs) : Prop where
  source : fs'.get id = some (entry.relocate td tn)
  missing : ∀ i, fs.get i = none → fs'.get i = none
  other : ∀ i e, i ≠ id → fs.get i = some e →
    ∃ e', fs'.get i = some e' ∧ SameButLinks e e' ∧ (i ≠ fd → i ≠ td → e' = e)
  children : ∀ d, fs'.children d =
    if d = td then Insert.insert id ((fs.children d).erase id) else (fs.children d).erase id

theorem relink_moved (hl : fs.Linked) (hchild : id ∈ fs.children fd) (hfd : id ≠ fd)
    (htd : id ≠ td) (hget : fs.get id = some entry)
    (h : fs.relink fd id td tn = (.ok (), fs')) : Moved fs fd id td tn entry fs' := by
  obtain ⟨fromDir, hfrom, hmem⟩ := mem_children.mp hchild
  simp only [relink, hfrom] at h
  split at h
  · cases h
  · cases h
  rename_i toDir hto
  split_ifs at h
  · cases h
  rw [get_insert_of_ne htd, get_insert_of_ne hfd, hget] at h
  simp only [Prod.mk.injEq, true_and] at h
  subst h
  have hout : ∀ d, (fs.insert fd (.dir (fromDir.removeEntry id))).children d =
      (fs.children d).erase id := fun d =>
    children_removeEntry hfrom fun e he => hl.tree.unique e fd id he hchild
  constructor
  · exact get_insert_self
  · intro i hi
    have hid : i ≠ id := by
      rintro rfl
      rw [hget] at hi
      cases hi
    have hifd : i ≠ fd := by
      rintro rfl
      rw [hfrom] at hi
      cases hi
    have hitd : i ≠ td := by
      rintro rfl
      rw [get_insert_of_ne hifd, hi] at hto
      cases hto
    rw [get_insert_of_ne hid, get_insert_of_ne hitd, get_insert_of_ne hifd, hi]
  · intro i e hid hi
    rw [get_insert_of_ne hid, get_insert]
    rw [get_insert] at hto
    split_ifs with hitd
    · refine ⟨_, rfl, ?_, fun _ hne => absurd hitd hne⟩
      rw [hitd] at hi
      split_ifs at hto with htdfd
      · rw [htdfd, hfrom] at hi
        cases hi
        cases hto
        exact ⟨rfl, rfl, rfl, rfl⟩
      · rw [hi] at hto
        cases hto
        exact ⟨rfl, rfl, rfl, rfl⟩
    · rw [get_insert]
      split_ifs with hifd
      · refine ⟨_, rfl, ?_, fun hne => absurd hifd hne⟩
        rw [hifd, hfrom] at hi
        cases hi
        exact ⟨rfl, rfl, rfl, rfl⟩
      · exact ⟨e, hi, ⟨rfl, rfl, rfl, rfl⟩, fun _ _ => rfl⟩
  · intro d
    have hentry : ((fs.insert fd (.dir (fromDir.removeEntry id))).insert td
        (.dir (toDir.addEntry id))).get id = some entry := by
      rw [get_insert_of_ne htd, get_insert_of_ne hfd, hget]
    rw [children_replace hentry (Entry.content_relocate ..), children_addEntry hto, hout]

theorem Moved.nameOf (h : Moved fs fd id td tn entry fs') (j : FileHandleU64) :
    fs'.nameOf j = if j = id then some tn else fs.nameOf j := by
  split_ifs with hj
  · rw [hj, nameOf_of_get h.source]
    cases entry <;> rfl
  · cases hget : fs.get j with
    | none => rw [Fs.nameOf, Fs.nameOf, hget, h.missing j hget]
    | some e =>
      obtain ⟨e', hget', hsame, -⟩ := h.other j e hj hget
      rw [nameOf_of_get hget, nameOf_of_get hget', hsame.name]

theorem Moved.bound_iff (h : Moved fs fd id td tn entry fs') :
    fs'.Bound d name i ↔ (i = id ∧ d = td ∧ name = tn) ∨ (i ≠ id ∧ fs.Bound d name i) := by
  unfold Bound
  rw [h.children, h.nameOf]
  by_cases hi : i = id
  · subst hi
    by_cases hd : d = td
    · simp [hd, eq_comm]
    · simp [hd]
  · by_cases hd : d = td
    · simp [hi, hd]
    · simp [hi, hd]

theorem Removed.bound_iff (h : Removed fs td tn tid fs₁) (hn : fs.Named) :
    fs₁.Bound d name i ↔ i ≠ tid ∧ fs.Bound d name i := by
  unfold Bound
  rw [h.children_erase hn, Finset.mem_erase]
  constructor
  · rintro ⟨⟨hne, hmem⟩, hname⟩
    rw [h.nameOf hne] at hname
    exact ⟨hne, hmem, hname⟩
  · rintro ⟨hne, hmem, hname⟩
    exact ⟨⟨hne, hmem⟩, by rw [h.nameOf hne, hname]⟩

/-- Without the removed entry everything else is as before, but for the children of its
directory. -/
theorem Removed.other {e : Entry} (h : Removed fs td tn tid fs₁) (hne : i ≠ tid)
    (hget : fs.get i = some e) :
    ∃ e', fs₁.get i = some e' ∧ SameButLinks e e' ∧ (i ≠ td → e' = e) := by
  obtain ⟨dir, hdir, -, rfl⟩ := h.eq
  rw [get_insert]
  split_ifs with hi
  · rw [hi, hdir] at hget
    cases hget
    exact ⟨_, rfl, ⟨rfl, rfl, rfl, rfl⟩, fun hne => absurd hi hne⟩
  · rw [get_erase_of_ne hne]
    exact ⟨e, hget, ⟨rfl, rfl, rfl, rfl⟩, fun _ => rfl⟩

theorem Removed.missing (h : Removed fs td tn tid fs₁) (hget : fs.get i = none) :
    fs₁.get i = none := by
  obtain ⟨dir, hdir, -, rfl⟩ := h.eq
  have hi : i ≠ td := by
    rintro rfl
    rw [hdir] at hget
    cases hget
  rw [get_insert_of_ne hi, get_erase]
  split_ifs
  · rfl
  · exact hget

theorem SameButLinks.trans {e₁ e₂ e₃ : Entry} (h : SameButLinks e₁ e₂) (h' : SameButLinks e₂ e₃) :
    SameButLinks e₁ e₃ :=
  ⟨h'.name.trans h.name, h'.attr.trans h.attr, h'.data.trans h.data, h'.up.trans h.up⟩

/-! ## No loop comes about -/

/-- Parents that lead to the root without `id` are a way down that avoids it. -/
theorem reaches_of_ends {c : FileHandleU64} (hl : fs.Linked)
    (h : Chain.Ends (fs.parentBelow [id]) i c) (hi : (fs.get i).isSome)
    (hc : c ∉ [id]) (hdir : fs.isDirAt c) :
    Relation.ReflTransGen (childExcept fs.shape id) fs.root i := by
  obtain ⟨hreach, hlast⟩ := h
  induction hreach using Relation.ReflTransGen.head_induction_on with
  | refl =>
    obtain ⟨dir, hget⟩ := isDirAt_eq_true.mp hdir
    have hroot : c = fs.root := by
      by_contra hne
      rw [parentBelow, if_neg (not_or.mpr ⟨hc, hne⟩), up_of_get hget] at hlast
      cases hlast
    rw [hroot]
  | @head x y hstep _ ih =>
    unfold parentBelow at hstep
    split_ifs at hstep with hstop
    obtain ⟨hid, hroot⟩ := not_or.mp hstop
    obtain ⟨p, hp⟩ := hl.tree.linked x hi hroot
    obtain rfl : y = p := hl.tree.up_eq p x y hp hstep
    obtain ⟨dir, hget, -⟩ := mem_children.mp hp
    have hy : (fs.get y).isSome := by simp [hget]
    exact (ih hy).tail ⟨hp, by simpa using hid⟩

/-- Where the check of a rename lets the entry go, one gets without it. -/
theorem reaches_target (ht : fs.Tree) (hget : fs.get id = some entry) (hid : entry.fileid = id)
    (hdir : fs.isDirAt td) (hne : td ≠ id)
    (hcheck : fs.checkAncestors entry td = some (.ok ())) :
    Relation.ReflTransGen (childExcept fs.shape id) fs.root td := by
  obtain ⟨toDir, htd⟩ := isDirAt_eq_true.mp hdir
  have hsome : (fs.get td).isSome := by simp [htd]
  cases entry with
  | dir dir =>
    obtain ⟨c, hends, hstop, hc⟩ := checkAncestors_ok_iff.mp hcheck rfl
    rw [hid] at hends hstop
    exact reaches_of_ends ht.linked hends hsome hstop hc
  | file f =>
    -- a file has no children, so no way leads through it
    have hleaf : ∀ j, ¬fs.shape.child id j := by
      intro j hj
      obtain ⟨dir, hdir, -⟩ := mem_children.mp hj
      rw [hget] at hdir
      cases hdir
    exact (reaches_except_leaf hleaf (ht.rooted td hsome)).resolve_right hne

/-! ## The whole rename -/

/-- What a rename does that gets to the end: an existing target is taken away, the entry moved. -/
structure RenamedOk (order : HashOrder) (fs : Fs) (fd : FileHandleU64) (fn : Filename3)
    (td : FileHandleU64) (tn : Filename3) (source : Entry) (fs₁ fs' : Fs) : Prop where
  lookup : fs.lookup order fd fn = .ok source
  replaced : (fs.lookup order td tn = .error .nfs3errNoent ∧ fs₁ = fs) ∨
    ∃ target, fs.lookup order td tn = .ok target ∧ target.isDir = source.isDir ∧
      target.content = ∅ ∧ Removed fs td tn target.fileid fs₁
  source_get : fs₁.get source.fileid = some source
  tree : fs₁.Tree
  named : fs₁.Named
  moved : Moved fs₁ fd source.fileid td tn source fs'
  tree' : fs'.Tree
  named' : fs'.Named

/-- The steps that a successful rename has come through. -/
theorem rename_ok_steps (h : fs.rename order fd fn td tn = some (.ok (), fs'))
    (hdistinct : ¬(fd = td ∧ fn = tn)) :
    ∃ source fs₁, fs.lookup order fd fn = .ok source ∧
      fs.replaceTarget order source td tn = some (.ok (), fs₁) ∧
      fs₁.checkAncestors source td = some (.ok ()) ∧
      fs₁.relink fd source.fileid td tn = (.ok (), fs') := by
  unfold rename at h
  split at h
  · cases h
  rename_i source hlookup
  rw [if_neg hdistinct] at h
  split at h
  · cases h
  · cases h
  rename_i fs₁ hreplace
  split at h
  · cases h
  · cases h
  rename_i hcheck
  exact ⟨source, fs₁, hlookup, hreplace, hcheck, Option.some.inj h⟩

theorem isDirAt_of_relink (h : fs.relink fd id td tn = (.ok (), fs')) : fs.isDirAt td = true := by
  have hresult := relink_result fs fd id td tn
  rw [h] at hresult
  cases hresult with
  | done _ htd _ _ => exact htd

theorem Tree.replaceTarget {source : Entry} {r : Except Nfsstat3 Unit} (ht : fs.Tree)
    (h : fs.replaceTarget order source td tn = some (r, fs₁)) : fs₁.Tree := by
  refine ⟨replaceTarget_linked ht.linked h, ?_⟩
  rcases replaceTarget_cases h with ⟨-, -, rfl⟩ | ⟨-, -, rfl⟩ | ⟨-, target, hremoved⟩
  · exact ht.rooted
  · exact ht.rooted
  · exact (hremoved.removeLeaf ht.linked.tree).rooted ht.rooted

theorem rename_ok (ht : fs.Tree) (hu : fs.UniqueNames) (hdot : fn ≠ dot) (hdotDot : fn ≠ dotDot)
    (hdistinct : ¬(fd = td ∧ fn = tn))
    (h : fs.rename order fd fn td tn = some (.ok (), fs')) :
    ∃ source fs₁, RenamedOk order fs fd fn td tn source fs₁ fs' := by
  obtain ⟨source, fs₁, hlookup, hreplace, hcheck, hrelink⟩ := rename_ok_steps h hdistinct
  have hl := ht.linked
  have hn := hl.named hu
  have ht₁ : fs₁.Tree := ht.replaceTarget hreplace
  have hn₁ : fs₁.Named := replaceTarget_named hn hreplace
  have hchild :=
    source_after_replace hl.keyed hl.tree.unique hdot hdotDot hlookup hdistinct hreplace
  obtain ⟨sid, hsid⟩ := lookup_mem hlookup
  have hid : source.fileid = sid := hl.keyed sid source hsid
  have hdir₁ := isDirAt_of_relink hrelink
  have hreplaced : (fs.lookup order td tn = .error .nfs3errNoent ∧ fs₁ = fs) ∨
      ∃ target, fs.lookup order td tn = .ok target ∧ target.isDir = source.isDir ∧
        target.content = ∅ ∧ Removed fs td tn target.fileid fs₁ := by
    rcases replaceTarget_spec order source td tn hl.keyed with
      ⟨hnoent, heq⟩ | ⟨target, fs₂, hrep, heq, hremoved⟩ | ⟨-, -, e, heq⟩
    · rw [hreplace] at heq
      cases heq
      exact Or.inl ⟨hnoent, rfl⟩
    · rw [hreplace] at heq
      cases heq
      exact Or.inr ⟨target, hrep.lookup, hrep.kind, hrep.empty, hremoved⟩
    · rw [hreplace] at heq
      cases heq
  have hdir : fs.isDirAt td = true := by
    rcases hreplaced with ⟨-, rfl⟩ | ⟨target, -, -, -, hremoved⟩
    · exact hdir₁
    · exact (hremoved.isDirAt_iff.mp hdir₁).1
  have htarget : ∀ f, source = .file f → (fs.get td).isSome := by
    intro f _
    obtain ⟨dir, hget⟩ := isDirAt_eq_true.mp hdir
    simp [hget]
  obtain ⟨hne, toDir, htd⟩ := target_after_replace hl hlookup htarget hreplace hcheck
  have hsource : fs₁.get source.fileid = some source := by
    rcases hreplaced with ⟨-, rfl⟩ | ⟨target, -, -, -, hremoved⟩
    · rw [hid]
      exact hsid
    · have hnot : source.fileid ≠ target.fileid := by
        intro heq
        have hsome := ht₁.linked.tree.closed fd _ hchild
        rw [heq] at hsome
        simp [shape, hremoved.get_self] at hsome
      obtain ⟨e', hget', -, hsame⟩ := hremoved.other hnot (by rw [hid]; exact hsid)
      rw [hget', hsame hne.symm]
  have hself : source.fileid ≠ fd := by
    intro heq
    rw [heq] at hchild
    exact Rooted.not_child_self ht₁.linked.tree ht₁.rooted hchild
  obtain ⟨fs₂, hspec, hkeyed, hmove⟩ := relink_spec tn ht₁.linked hchild htd hne
  rw [hrelink] at hspec
  cases hspec
  have hreach := reaches_target ht₁ hsource rfl hdir₁ hne hcheck
  exact ⟨source, fs₁, hlookup, hreplaced, hsource, ht₁, hn₁,
    relink_moved ht₁.linked hchild hself hne.symm hsource hrelink,
    ⟨⟨hkeyed, hmove.wellFormed ht₁.linked.tree⟩, hmove.rooted ht₁.rooted hreach⟩,
    relink_named hn₁ hchild (replaceTarget_nameFree hn hreplace) hrelink⟩

/-- The entry under the target name of a rename. -/
def IsTarget (order : HashOrder) (fs : Fs) (td : FileHandleU64) (tn : Filename3)
    (i : FileHandleU64) : Prop :=
  ∃ target, fs.lookup order td tn = .ok target ∧ i = target.fileid

theorem not_isTarget_of_noent (hnoent : fs.lookup order td tn = .error .nfs3errNoent) :
    ¬IsTarget order fs td tn i := by
  rintro ⟨target, htarget, -⟩
  rw [hnoent] at htarget
  cases htarget

section RenamedOk

variable {source : Entry} (h : RenamedOk order fs fd fn td tn source fs₁ fs')

include h

theorem RenamedOk.bound_iff (hn : fs.Named) :
    fs'.Bound d name i ↔ (i = source.fileid ∧ d = td ∧ name = tn) ∨
      (i ≠ source.fileid ∧ ¬IsTarget order fs td tn i ∧ fs.Bound d name i) := by
  rw [h.moved.bound_iff]
  rcases h.replaced with ⟨hnoent, rfl⟩ | ⟨target, htarget, -, -, hremoved⟩
  · have hnot : ¬IsTarget order fs₁ td tn i := not_isTarget_of_noent hnoent
    simp [hnot]
  · have hiff : IsTarget order fs td tn i ↔ i = target.fileid := by
      constructor
      · rintro ⟨target', htarget', hi⟩
        rw [htarget] at htarget'
        cases htarget'
        exact hi
      · exact fun hi => ⟨target, htarget, hi⟩
    rw [hremoved.bound_iff hn, hiff]

theorem RenamedOk.other {e : Entry} (hi : i ≠ source.fileid) (hnot : ¬IsTarget order fs td tn i)
    (hget : fs.get i = some e) :
    ∃ e', fs'.get i = some e' ∧ SameButLinks e e' ∧ (i ≠ fd → i ≠ td → e' = e) := by
  rcases h.replaced with ⟨-, rfl⟩ | ⟨target, htarget, -, -, hremoved⟩
  · exact h.moved.other i e hi hget
  · have hne : i ≠ target.fileid := fun heq => hnot ⟨target, htarget, heq⟩
    obtain ⟨e₁, hget₁, hsame₁, heq₁⟩ := hremoved.other hne hget
    obtain ⟨e', hget', hsame', heq'⟩ := h.moved.other i e₁ hi hget₁
    refine ⟨e', hget', hsame₁.trans hsame', fun hfd htd => ?_⟩
    rw [heq' hfd htd, heq₁ htd]

theorem RenamedOk.missing (hget : fs.get i = none) : fs'.get i = none := by
  rcases h.replaced with ⟨-, rfl⟩ | ⟨target, -, -, -, hremoved⟩
  · exact h.moved.missing i hget
  · exact h.moved.missing i (hremoved.missing hget)

theorem RenamedOk.source_bound (hn : fs.Named) (hdot : fn ≠ dot) (hdotDot : fn ≠ dotDot) :
    fs.Bound fd fn source.fileid := by
  obtain ⟨i, hbound, hget⟩ := bound_of_lookup hdot hdotDot h.lookup
  rw [hn.keyed i source hget]
  exact hbound

theorem RenamedOk.get_source (hn : fs.Named) : fs.get source.fileid = some source := by
  obtain ⟨i, hget⟩ := lookup_mem h.lookup
  rw [hn.keyed i source hget]
  exact hget

theorem RenamedOk.get_target (htarget : IsTarget order fs td tn i) : fs'.get i = none := by
  obtain ⟨target, hlookup, rfl⟩ := htarget
  rcases h.replaced with ⟨hnoent, -⟩ | ⟨target', hlookup', -, -, hremoved⟩
  · rw [hnoent] at hlookup
    cases hlookup
  · rw [hlookup'] at hlookup
    cases hlookup
    exact h.moved.missing _ hremoved.get_self

theorem RenamedOk.isDirAt (hn : fs.Named) (hdir : fs.isDirAt d)
    (htarget : ¬IsTarget order fs td tn d) : fs'.isDirAt d = true := by
  obtain ⟨dir, hget⟩ := isDirAt_eq_true.mp hdir
  by_cases hd : d = source.fileid
  · have hsource := h.get_source hn
    rw [← hd, hget] at hsource
    cases hsource
    rw [hd]
    exact isDirAt_of_get h.moved.source
  · obtain ⟨e', hget', hsame, -⟩ := h.other hd htarget hget
    have hup := hsame.up
    cases e' with
    | file f => cases hup
    | dir dir' => exact isDirAt_of_get hget'

theorem RenamedOk.lookup_moved (hdot : tn ≠ dot) (hdotDot : tn ≠ dotDot) (hn : fs.Named) :
    fs'.lookup order' td tn = .ok (source.relocate td tn) := by
  have hbound : fs'.Bound td tn source.fileid := (h.bound_iff hn).mpr (Or.inl ⟨rfl, rfl, rfl⟩)
  exact h.named'.lookup_of_bound hdot hdotDot hbound h.moved.source

theorem RenamedOk.lookup_vacated (hn : fs.Named) (hdot : fn ≠ dot) (hdotDot : fn ≠ dotDot)
    (hdistinct : ¬(fd = td ∧ fn = tn)) : fs'.lookup order' fd fn = .error .nfs3errNoent := by
  have hsource := h.source_bound hn hdot hdotDot
  obtain ⟨dir, hget, hmem⟩ := mem_children.mp hsource.1
  have htarget : ¬IsTarget order fs td tn fd := by
    rintro ⟨target, hlookup, heq⟩
    obtain ⟨i, htarget⟩ := lookup_mem hlookup
    have hi : fd = i := heq.trans (hn.keyed i target htarget)
    rw [← hi, hget] at htarget
    cases htarget
    rcases h.replaced with ⟨hnoent, -⟩ | ⟨target', hlookup', -, hempty, -⟩
    · rw [hnoent] at hlookup
      cases hlookup
    · rw [hlookup'] at hlookup
      cases hlookup
      rw [show dir.content = ∅ from hempty] at hmem
      cases hmem
  refine h.named'.lookup_of_unbound hdot hdotDot (h.isDirAt hn (isDirAt_of_get hget) htarget) ?_
  intro i hbound
  rcases (h.bound_iff hn).mp hbound with ⟨-, hd, hname⟩ | ⟨hne, -, hold⟩
  · exact hdistinct ⟨hd, hname⟩
  · exact hne (hn.unique fd i hold.1 _ hsource.1 (hold.2.trans hsource.2.symm))

theorem RenamedOk.lookup_other (hn : fs.Named) (hfn : fn ≠ dot ∧ fn ≠ dotDot)
    (htn : tn ≠ dot ∧ tn ≠ dotDot) (hdot : name ≠ dot) (hdotDot : name ≠ dotDot)
    (hdir : fs.isDirAt d) (hsource : ¬(d = fd ∧ name = fn)) (htarget : ¬(d = td ∧ name = tn)) :
    (fs'.lookup order' d name).map Entry.fileid = (fs.lookup order d name).map Entry.fileid := by
  by_cases hbound : ∃ i, fs.Bound d name i
  · obtain ⟨i, hbound⟩ := hbound
    obtain ⟨e, hget⟩ : ∃ e, fs.get i = some e := by
      have hsome := hn.closed d i hbound.1
      exact Option.isSome_iff_exists.mp (by simpa [nameOf] using hsome)
    have hi : i ≠ source.fileid := by
      rintro rfl
      exact hsource (hn.bound_unique hbound (h.source_bound hn hfn.1 hfn.2))
    have hnot : ¬IsTarget order fs td tn i := by
      rintro ⟨target, hlookup, rfl⟩
      obtain ⟨k, hk, hget⟩ := bound_of_lookup htn.1 htn.2 hlookup
      rw [hn.keyed k target hget] at hbound
      exact htarget (hn.bound_unique hbound hk)
    obtain ⟨e', hget', hsame, -⟩ := h.other hi hnot hget
    have hbound' : fs'.Bound d name i := (h.bound_iff hn).mpr (Or.inr ⟨hi, hnot, hbound⟩)
    rw [hn.lookup_of_bound hdot hdotDot hbound hget,
      h.named'.lookup_of_bound hdot hdotDot hbound' hget']
    exact congrArg Except.ok (congrArg Fattr3.fileid hsame.attr)
  · push Not at hbound
    rw [hn.lookup_of_unbound hdot hdotDot hdir hbound]
    by_cases hgone : IsTarget order fs td tn d
    · simp only [Fs.lookup, h.get_target hgone]
    · rw [h.named'.lookup_of_unbound hdot hdotDot (h.isDirAt hn hdir hgone)]
      intro i hi
      rcases (h.bound_iff hn).mp hi with ⟨-, hd, hname⟩ | ⟨-, -, hold⟩
      · exact htarget ⟨hd, hname⟩
      · exact hbound i hold

end RenamedOk

/-- A rename moves one binding: `fs'` is `fs` but for what its two names are bound to. -/
structure MovesBinding (order : HashOrder) (fs : Fs) (fd : FileHandleU64) (fn : Filename3)
    (td : FileHandleU64) (tn : Filename3) (fs' : Fs) : Prop where
  moved : ∃ source moved, fs.lookup order fd fn = .ok source ∧
    (∀ order', fs'.lookup order' td tn = .ok moved) ∧ moved.attr = source.attr ∧
    moved.data = source.data ∧ moved.content = source.content
  vacated : ¬(fd = td ∧ fn = tn) → ∀ order', fs'.lookup order' fd fn = .error .nfs3errNoent
  replaced : ∀ source target, fs.lookup order fd fn = .ok source →
    fs.lookup order td tn = .ok target → target.fileid ≠ source.fileid →
    fs'.get target.fileid = none ∧ target.isDir = source.isDir ∧ target.content = ∅
  bindings : ∀ order' order'' d name, fs.isDirAt d → name ≠ dot → name ≠ dotDot →
    ¬(d = fd ∧ name = fn) → ¬(d = td ∧ name = tn) →
    (fs'.lookup order' d name).map Entry.fileid = (fs.lookup order'' d name).map Entry.fileid
  entries : ∀ i e, fs.get i = some e → ¬IsTarget order fs fd fn i → ¬IsTarget order fs td tn i →
    ∃ e', fs'.get i = some e' ∧ SameButLinks e e' ∧ (i ≠ fd → i ≠ td → e' = e)
  missing : ∀ i, fs.get i = none → fs'.get i = none
  tree : fs'.Tree
  uniqueNames : fs'.UniqueNames

theorem movesBinding_same (ht : fs.Tree) (hu : fs.UniqueNames)
    (hlookup : fs.lookup order fd fn = .ok entry) : MovesBinding order fs fd fn fd fn fs := by
  have hn := ht.linked.named hu
  constructor
  · refine ⟨entry, entry, hlookup, fun order' => ?_, rfl, rfl, rfl⟩
    rw [hn.lookup_order order' order, hlookup]
  · intro hdistinct
    exact absurd ⟨rfl, rfl⟩ hdistinct
  · intro source target hsource htarget hne
    rw [hsource] at htarget
    cases htarget
    exact absurd rfl hne
  · intro order' order'' d name _ _ _ _ _
    rw [hn.lookup_order order' order'']
  · intro i e hget _ _
    exact ⟨e, hget, ⟨rfl, rfl, rfl, rfl⟩, fun _ _ => rfl⟩
  · exact fun _ hget => hget
  · exact ht
  · exact hu

/-- In a tree with unique names a rename that returns `Ok` moves exactly one binding. -/
theorem rename_moves_binding (ht : fs.Tree) (hu : fs.UniqueNames) (hfn : fn ≠ dot ∧ fn ≠ dotDot)
    (htn : tn ≠ dot ∧ tn ≠ dotDot) (h : fs.rename order fd fn td tn = some (.ok (), fs')) :
    MovesBinding order fs fd fn td tn fs' := by
  by_cases hdistinct : fd = td ∧ fn = tn
  · obtain ⟨rfl, rfl⟩ := hdistinct
    unfold rename at h
    split at h
    · cases h
    · rename_i source hlookup
      rw [if_pos ⟨rfl, rfl⟩] at h
      cases h
      exact movesBinding_same ht hu hlookup
  have hn := ht.linked.named hu
  obtain ⟨source, fs₁, hok⟩ := rename_ok ht hu hfn.1 hfn.2 hdistinct h
  constructor
  · refine ⟨source, source.relocate td tn, hok.lookup,
      fun order' => hok.lookup_moved htn.1 htn.2 hn, ?_, ?_, ?_⟩
    · cases source <;> rfl
    · cases source <;> rfl
    · exact Entry.content_relocate ..
  · exact fun _ order' => hok.lookup_vacated hn hfn.1 hfn.2 hdistinct
  · intro source' target hsource htarget _
    rw [hok.lookup] at hsource
    cases hsource
    refine ⟨hok.get_target ⟨target, htarget, rfl⟩, ?_⟩
    rcases hok.replaced with ⟨hnoent, -⟩ | ⟨target', htarget', hkind, hempty, -⟩
    · rw [hnoent] at htarget
      cases htarget
    · rw [htarget'] at htarget
      cases htarget
      exact ⟨hkind, hempty⟩
  · intro order' order'' d name hdir hdot hdotDot hsource htarget
    rw [hn.lookup_order order'' order]
    exact hok.lookup_other hn hfn htn hdot hdotDot hdir hsource htarget
  · intro i e hget hsource htarget
    refine hok.other ?_ htarget hget
    rintro rfl
    exact hsource ⟨source, hok.lookup, rfl⟩
  · exact fun i => hok.missing
  · exact hok.tree'
  · exact hok.named'.uniqueNames

/-- Directories `a` and `c`, a file `f` in `a` and an empty directory `e` in `c`. -/
def sampleDirs : List Call :=
  [.mkdir 1 ⟨⟨[0x61]⟩⟩, .mkdir 1 ⟨⟨[0x63]⟩⟩, .create 2 ⟨⟨[0x66]⟩⟩ MemFs.noChange,
    .mkdir 3 ⟨⟨[0x65]⟩⟩].map (⟨MemFs.sampleEnv, ·⟩)

/-- `a` is moved into `c` with its file, over the empty directory. -/
theorem rename_moves_binding_directory :
    ∃ s fs', Transition.run MemFs.step (.default ⟨0, 0⟩) sampleDirs = some s ∧
      s.fs.children 2 = {4} ∧ s.fs.children 3 = {5} ∧ s.fs.children 5 = ∅ ∧
      s.fs.rename .ascending 1 ⟨⟨[0x61]⟩⟩ 3 ⟨⟨[0x65]⟩⟩ = some (.ok (), fs') ∧
      MovesBinding .ascending s.fs 1 ⟨⟨[0x61]⟩⟩ 3 ⟨⟨[0x65]⟩⟩ fs' := by
  have hrun : (Transition.run MemFs.step (.default ⟨0, 0⟩) sampleDirs).map (fun s =>
      (s.fs.children 2, s.fs.children 3, s.fs.children 5,
        (s.fs.rename .ascending 1 ⟨⟨[0x61]⟩⟩ 3 ⟨⟨[0x65]⟩⟩).map Prod.fst)) =
      some ({4}, {5}, ∅, some (.ok ())) := by decide
  obtain ⟨s, hs, heq⟩ := Option.map_eq_some_iff.mp hrun
  simp only [Prod.mk.injEq] at heq
  obtain ⟨ha, hc, he, hrename⟩ := heq
  obtain ⟨⟨r, fs'⟩, hfs', rfl⟩ := Option.map_eq_some_iff.mp hrename
  have htree := MemFs.run_tree (by decide) hs
  have hnamed := MemFs.run_named (by decide) hs
  exact ⟨s, fs', hs, ha, hc, he, hfs', rename_moves_binding htree hnamed.uniqueNames (by decide)
    (by decide) hfs'⟩

/-- A directory that is made in itself is linked once, below itself. A rename links it into the
root, and takes it out of its own content set. -/
theorem rename_empties_unrooted :
    ¬ ∀ order (fs : Fs) fd fn td tn fs' source moved, fs.Linked → fs.TreeInvariant →
      fs.UniqueNames → fs.isDirAt fd → fs.isDirAt td → fn ≠ dot ∧ fn ≠ dotDot →
      tn ≠ dot ∧ tn ≠ dotDot → fs.rename order fd fn td tn = some (.ok (), fs') →
      fs.lookup order fd fn = .ok source → fs'.lookup order td tn = .ok moved →
      moved.content = source.content := by
  intro h
  let calls : List Call := [⟨MemFs.sampleEnv, .mkdir 2 ⟨⟨[0x61]⟩⟩⟩]
  have hrun : (Transition.run MemFs.step (.default ⟨0, 0⟩) calls).bind (fun s =>
      (s.fs.rename .ascending 2 ⟨⟨[0x61]⟩⟩ 1 ⟨⟨[0x62]⟩⟩).map fun p =>
        (p.1, decide (s.fs.isDirAt 2 ∧ s.fs.isDirAt 1 ∧
          (s.fs.lookup .ascending 2 ⟨⟨[0x61]⟩⟩).toOption.map Entry.content = some {2} ∧
          (p.2.lookup .ascending 1 ⟨⟨[0x62]⟩⟩).toOption.map Entry.content = some ∅))) =
      some (.ok (), true) := by decide
  obtain ⟨s, hs, hrename⟩ := Option.bind_eq_some_iff.mp hrun
  obtain ⟨⟨r, fs'⟩, hfs', heq⟩ := Option.map_eq_some_iff.mp hrename
  simp only [Prod.mk.injEq, decide_eq_true_eq] at heq
  obtain ⟨rfl, hdir2, hdir1, hsource, hmoved⟩ := heq
  have hlinked := MemFs.run_linked (by decide) hs
  have hnamed := MemFs.run_named (by decide) hs
  cases hlookup : s.fs.lookup .ascending 2 ⟨⟨[0x61]⟩⟩ with
  | error e => simp [hlookup, Except.toOption] at hsource
  | ok source =>
    cases hlookup' : fs'.lookup .ascending 1 ⟨⟨[0x62]⟩⟩ with
    | error e => simp [hlookup', Except.toOption] at hmoved
    | ok moved =>
      have hkept := h .ascending s.fs 2 ⟨⟨[0x61]⟩⟩ 1 ⟨⟨[0x62]⟩⟩ fs' source moved hlinked
        hlinked.treeInvariant hnamed.uniqueNames hdir2 hdir1 (by decide) (by decide) hfs'
        hlookup hlookup'
      simp only [hlookup, hlookup', Except.toOption, Option.map_some, Option.some.injEq]
        at hsource hmoved
      rw [hsource, hmoved] at hkept
      exact absurd hkept (by decide)

end Fs

end Nfs3.Memfs
