import Nfs3.Server.MemFs.Tree

/-!
# The handles of the in-memory file system

A handle is known while it is a key of the entries map or a member of some content set. Only
creating an entry makes a handle known, and that handle was drawn from `nextid`. Drawing it
and linking the entry are two steps, between which other callers may run; `Shared` is the
state they share, with the handles that were drawn and not used so far.
-/
namespace Nfs3.Memfs

open ByteOrder (Bytes)

namespace Entry

/-- The bytes and the verifier of a file; a directory has none. -/
def data : Entry → Option (Bytes × Createverf3)
  | .file f => some (f.content, f.verf)
  | .dir _ => none

theorem identity_of_data {e e' : Entry} (hattr : e'.attr = e.attr) (hdata : e'.data = e.data) :
    e'.identity = e.identity := by
  cases e <;> cases e' <;> simp_all [identity, data, fileid, attr, verf, isDir]

end Entry

namespace Fs

variable {order : HashOrder} {fs fs' : Fs} {i k : FileHandleU64} {entry : Entry}

def Known (fs : Fs) (i : FileHandleU64) : Prop := (fs.get i).isSome ∨ ∃ d, i ∈ fs.children d

theorem known_of_get (h : fs.get k = some entry) : fs.Known k := Or.inl (by simp [h])

theorem known_of_content (h : fs.get k = some entry) (hi : i ∈ entry.content) : fs.Known i :=
  Or.inr ⟨k, by rwa [children_of_get h]⟩

theorem known_insert (h : (fs.insert k entry).Known i) :
    fs.Known i ∨ i = k ∨ i ∈ entry.content := by
  rcases h with h | ⟨d, hd⟩
  · rcases isSome_insert.mp h with h | rfl
    · exact Or.inl (Or.inl h)
    · exact Or.inr (Or.inl rfl)
  · rw [children_insert] at hd
    split_ifs at hd
    · exact Or.inr (Or.inr hd)
    · exact Or.inl (Or.inr ⟨d, hd⟩)

theorem known_erase (h : (fs.erase k).Known i) : fs.Known i := by
  rcases h with h | ⟨d, hd⟩
  · exact Or.inl (isSome_erase.mp h).1
  · rw [children_erase] at hd
    split_ifs at hd
    · cases hd
    · exact Or.inr ⟨d, hd⟩

/-- Replacing an entry by one whose content is known makes no handle known. -/
theorem known_replace {entry' : Entry} (hget : fs.get k = some entry)
    (hcontent : ∀ i ∈ entry'.content, fs.Known i) (h : (fs.insert k entry').Known i) :
    fs.Known i := by
  rcases known_insert h with h | rfl | h
  · exact h
  · exact known_of_get hget
  · exact hcontent i h

theorem Pushed.known {p : FileHandleU64} (h : Pushed fs p entry fs') (hcontent : entry.content = ∅)
    (hi : fs'.Known i) : fs.Known i ∨ i = entry.fileid := by
  obtain ⟨-, dir, hget, -, rfl⟩ := h
  have hnew : ∀ j, (fs.insert entry.fileid entry).Known j → fs.Known j ∨ j = entry.fileid := by
    intro j hj
    rcases known_insert hj with hj | hj | hj
    · exact Or.inl hj
    · exact Or.inr hj
    · simp [hcontent] at hj
  rcases known_insert hi with hi | rfl | hi
  · exact hnew i hi
  · exact hnew i (known_of_get hget)
  · rcases Finset.mem_insert.mp hi with rfl | hi
    · exact Or.inr rfl
    · exact hnew i (known_of_content hget hi)

theorem Removed.known {d : FileHandleU64} {name : Filename3} (h : Removed fs d name k fs')
    (hi : fs'.Known i) : fs.Known i := by
  obtain ⟨dir, hget, -, rfl⟩ := h.eq
  rcases known_insert hi with hi | rfl | hi
  · exact known_erase hi
  · exact known_of_get hget
  · exact known_of_content hget (Finset.mem_of_mem_erase hi)

theorem replaceTarget_known {fromEntry : Entry} {td : FileHandleU64} {tn : Filename3}
    {r : Except Nfsstat3 Unit} (h : fs.replaceTarget order fromEntry td tn = some (r, fs'))
    (hi : fs'.Known i) : fs.Known i := by
  rcases replaceTarget_cases h with ⟨-, -, rfl⟩ | ⟨-, -, rfl⟩ | ⟨-, id, hremoved⟩
  · exact hi
  · exact hi
  · exact hremoved.known hi

theorem relink_known {fd sid td : FileHandleU64} {tn : Filename3} {r : Except Nfsstat3 Unit}
    (h : fs.relink fd sid td tn = (r, fs')) (hi : fs'.Known i) : fs.Known i ∨ i = sid := by
  have hout : ∀ fromDir j, fs.get fd = some (.dir fromDir) →
      (fs.insert fd (.dir (fromDir.removeEntry sid))).Known j → fs.Known j :=
    fun fromDir j hfd =>
      known_replace hfd fun j hj => known_of_content hfd (Finset.mem_of_mem_erase hj)
  have hin : ∀ fromDir toDir j, fs.get fd = some (.dir fromDir) →
      (fs.insert fd (.dir (fromDir.removeEntry sid))).get td = some (.dir toDir) →
      ((fs.insert fd (.dir (fromDir.removeEntry sid))).insert td
        (.dir (toDir.addEntry sid))).Known j → fs.Known j ∨ j = sid := by
    intro fromDir toDir j hfd htd hj
    rcases known_insert hj with hj | rfl | hj
    · exact Or.inl (hout fromDir j hfd hj)
    · exact Or.inl (hout fromDir j hfd (known_of_get htd))
    · rcases Finset.mem_insert.mp hj with rfl | hj
      · exact Or.inr rfl
      · exact Or.inl (hout fromDir j hfd (known_of_content htd hj))
  cases relink_cases h with
  | unchanged => exact Or.inl hi
  | unlinked _ hfd => exact Or.inl (hout _ i hfd hi)
  | linked _ hfd htd => exact hin _ _ i hfd htd hi
  | renamed hfd htd hentry =>
    rcases known_insert hi with hi | rfl | hi
    · exact hin _ _ i hfd htd hi
    · exact Or.inr rfl
    · rw [Entry.content_relocate] at hi
      exact hin _ _ i hfd htd (known_of_content hentry hi)

theorem Renamed.known {fd td : FileHandleU64} {fn tn : Filename3} {r : Except Nfsstat3 Unit}
    (h : Renamed order fs fd fn td tn r fs') (hk : fs.Keyed) (hi : fs'.Known i) : fs.Known i := by
  cases h with
  | unchanged => exact hi
  | rejected _ _ hreplace _ => exact replaceTarget_known hreplace hi
  | relinked hlookup _ hreplace _ hrelink =>
    rcases relink_known hrelink hi with hi | rfl
    · exact replaceTarget_known hreplace hi
    · obtain ⟨id, hget⟩ := lookup_mem hlookup
      rw [hk id _ hget]
      exact known_of_get hget

/-- Every entry of the second state is one of the first with its attributes and data. -/
def Shrinks (fs fs' : Fs) : Prop :=
  ∀ i entry', fs'.get i = some entry' →
    ∃ entry, fs.get i = some entry ∧ entry'.attr = entry.attr ∧ entry'.data = entry.data

theorem Shrinks.refl (fs : Fs) : fs.Shrinks fs := fun _ entry h => ⟨entry, h, rfl, rfl⟩

theorem Shrinks.trans {fs₁ fs₂ fs₃ : Fs} (h : fs₁.Shrinks fs₂) (h' : fs₂.Shrinks fs₃) :
    fs₁.Shrinks fs₃ := by
  intro i entry₃ hget₃
  obtain ⟨entry₂, hget₂, hattr, hdata⟩ := h' i entry₃ hget₃
  obtain ⟨entry₁, hget₁, hattr', hdata'⟩ := h i entry₂ hget₂
  exact ⟨entry₁, hget₁, hattr.trans hattr', hdata.trans hdata'⟩

theorem shrinks_replace {entry' : Entry} (hget : fs.get k = some entry)
    (hattr : entry'.attr = entry.attr) (hdata : entry'.data = entry.data) :
    fs.Shrinks (fs.insert k entry') := by
  intro i entry₁ h
  rw [get_insert] at h
  split_ifs at h with hi
  · cases h
    exact ⟨entry, hi ▸ hget, hattr, hdata⟩
  · exact ⟨entry₁, h, rfl, rfl⟩

theorem shrinks_erase : fs.Shrinks (fs.erase k) := by
  intro i entry' h
  rw [get_erase] at h
  split_ifs at h
  exact ⟨entry', h, rfl, rfl⟩

theorem Removed.shrinks {d : FileHandleU64} {name : Filename3} (h : Removed fs d name k fs') :
    fs.Shrinks fs' := by
  obtain ⟨dir, hget, -, rfl⟩ := h.eq
  have hget' : (fs.erase k).get d = some (.dir dir) := by rw [get_erase_of_ne h.ne, hget]
  exact shrinks_erase.trans (shrinks_replace hget' rfl rfl)

theorem replaceTarget_shrinks {fromEntry : Entry} {td : FileHandleU64} {tn : Filename3}
    {r : Except Nfsstat3 Unit} (h : fs.replaceTarget order fromEntry td tn = some (r, fs')) :
    fs.Shrinks fs' := by
  rcases replaceTarget_cases h with ⟨-, -, rfl⟩ | ⟨-, -, rfl⟩ | ⟨-, id, hremoved⟩
  · exact .refl _
  · exact .refl _
  · exact hremoved.shrinks

theorem relink_shrinks {fd sid td : FileHandleU64} {tn : Filename3} {r : Except Nfsstat3 Unit}
    (h : fs.relink fd sid td tn = (r, fs')) : fs.Shrinks fs' := by
  have hout : ∀ fromDir, fs.get fd = some (.dir fromDir) →
      fs.Shrinks (fs.insert fd (.dir (fromDir.removeEntry sid))) :=
    fun fromDir hfd => shrinks_replace hfd rfl rfl
  have hin : ∀ fromDir toDir, fs.get fd = some (.dir fromDir) →
      (fs.insert fd (.dir (fromDir.removeEntry sid))).get td = some (.dir toDir) →
      fs.Shrinks ((fs.insert fd (.dir (fromDir.removeEntry sid))).insert td
        (.dir (toDir.addEntry sid))) :=
    fun fromDir toDir hfd htd => (hout fromDir hfd).trans (shrinks_replace htd rfl rfl)
  cases relink_cases h with
  | unchanged => exact .refl _
  | unlinked _ hfd => exact hout _ hfd
  | linked _ hfd htd => exact hin _ _ hfd htd
  | @renamed _ _ entry hfd htd hentry =>
    refine (hin _ _ hfd htd).trans (shrinks_replace hentry ?_ ?_)
    · cases entry <;> rfl
    · cases entry <;> rfl

theorem Renamed.shrinks {fd td : FileHandleU64} {fn tn : Filename3} {r : Except Nfsstat3 Unit}
    (h : Renamed order fs fd fn td tn r fs') : fs.Shrinks fs' := by
  cases h with
  | unchanged => exact .refl _
  | rejected _ _ hreplace _ => exact replaceTarget_shrinks hreplace
  | relinked _ _ hreplace _ hrelink =>
    exact (replaceTarget_shrinks hreplace).trans (relink_shrinks hrelink)

theorem Pushed.shrinks {p : FileHandleU64} (h : Pushed fs p entry fs') {entry' : Entry}
    (hget' : fs'.get i = some entry') (hne : i ≠ entry.fileid) :
    ∃ e, fs.get i = some e ∧ entry'.attr = e.attr ∧ entry'.data = e.data := by
  obtain ⟨-, dir, hget, -, rfl⟩ := h
  have hpush : (fs.insert entry.fileid entry).Shrinks
      ((fs.insert entry.fileid entry).insert p (.dir (dir.addEntry entry.fileid))) :=
    shrinks_replace hget rfl rfl
  obtain ⟨e, he, hattr, hdata⟩ := hpush i entry' hget'
  rw [get_insert_of_ne hne] at he
  exact ⟨e, he, hattr, hdata⟩

/-- Besides the new entry, every file was there before. -/
theorem Pushed.file_cases {parent : FileHandleU64} {f' : File}
    (h : fs.Pushed parent entry fs') (hf' : fs'.get i = some (.file f')) :
    entry = .file f' ∧ fs.get i = none ∨ fs.get i = some (.file f') := by
  obtain ⟨dir, -, -, rfl⟩ := h.eq
  rw [get_insert] at hf'
  split_ifs at hf' with hparent
  · cases hf'
  rw [get_insert] at hf'
  split_ifs at hf' with hid
  · left
    rw [hid]
    exact ⟨Option.some.inj hf', h.fresh⟩
  · exact Or.inr hf'

end Fs

/-- What a call does to the entry under a handle: the entry is the new one, or it is the one
that was there, with its data and attributes unless the call updates that very handle. -/
theorem Effect.get {order : HashOrder} {s : MemFs} {op : Op} {r : Except Nfsstat3 Reply} {fs' : Fs}
    {i : FileHandleU64} {entry' : Entry} (h : Effect order s op r fs')
    (hget : fs'.get i = some entry') :
    (op.allocates = true ∧ i = s.nextid ∧ s.fs.get i = none) ∨
    ∃ entry, s.fs.get i = some entry ∧ entry'.identity = entry.identity ∧
      (op.updates ≠ some i → entry'.attr = entry.attr ∧ entry'.data = entry.data) := by
  have hkept : s.fs.Shrinks fs' → ∃ entry, s.fs.get i = some entry ∧
      entry'.identity = entry.identity ∧
      (op.updates ≠ some i → entry'.attr = entry.attr ∧ entry'.data = entry.data) := by
    intro hshrinks
    obtain ⟨entry, he, hattr, hdata⟩ := hshrinks i entry' hget
    exact ⟨entry, he, Entry.identity_of_data hattr hdata, fun _ => ⟨hattr, hdata⟩⟩
  cases h with
  | unchanged => exact Or.inr (hkept (.refl _))
  | @pushed parent entry _ _ _ hop hid _ _ hpush =>
    by_cases hi : i = entry.fileid
    · exact Or.inl ⟨hop, hi.trans hid, hi ▸ hpush.fresh⟩
    · obtain ⟨e, he, hattr, hdata⟩ := hpush.shrinks hget hi
      exact Or.inr ⟨e, he, Entry.identity_of_data hattr hdata, fun _ => ⟨hattr, hdata⟩⟩
  | removed _ _ hremove => exact Or.inr (hkept hremove.shrinks)
  | @updated id entry entry₁ _ _ htarget hid hlinks =>
    rw [Fs.get_insert] at hget
    split_ifs at hget with hi
    · cases hget
      refine Or.inr ⟨entry, hi ▸ hid, hlinks.identity, ?_⟩
      intro hne
      exact absurd (hi ▸ htarget) hne
    · exact Or.inr ⟨entry', hget, rfl, fun _ => ⟨rfl, rfl⟩⟩
  | renamed _ hrename => exact Or.inr (hkept hrename.shrinks)

theorem Effect.known {order : HashOrder} {s : MemFs} {op : Op} {r : Except Nfsstat3 Reply}
    {fs' : Fs} {i : FileHandleU64} (h : Effect order s op r fs') (hk : s.fs.Keyed)
    (hi : fs'.Known i) : s.fs.Known i ∨ (op.allocates = true ∧ i = s.nextid) := by
  cases h with
  | unchanged => exact Or.inl hi
  | pushed _ _ hop hid hcontent _ hpush =>
    exact (hpush.known hcontent hi).imp_right fun hi => ⟨hop, hi.trans hid⟩
  | removed _ _ hremove => exact Or.inl (hremove.known hi)
  | updated _ _ _ hget hlinks =>
    refine Or.inl (Fs.known_replace hget ?_ hi)
    intro j hj
    rw [hlinks.content] at hj
    exact Fs.known_of_content hget hj
  | renamed _ hrename => exact Or.inl (hrename.known hk hi)

theorem MemFs.lift_state {s s' : MemFs} {outcome : Outcome Unit} {reply : Reply}
    {r : Except Nfsstat3 Reply} (h : s.lift outcome reply = some (r, s')) :
    s' = { s with fs := s'.fs } := by
  obtain ⟨r₀, fs', -, -, rfl⟩ := MemFs.lift_eq_some h
  rfl

theorem MemFs.addFile_state {s s' : MemFs} {env : Env} {dirid : FileHandleU64}
    {filename : Filename3} {attr : Sattr3} {content : Bytes} {verf : Option Createverf3}
    {r : Except Nfsstat3 Reply}
    (h : s.addFile env dirid filename attr content verf = some (r, s')) :
    s' = { s with fs := s'.fs, nextid := s.nextid + 1 } := by
  unfold MemFs.addFile at h
  dsimp only at h
  split at h
  · cases h
  split at h
  · exact MemFs.lift_state h
  · split_ifs at h
    · cases h
      rfl
    · cases h
      rfl
  · cases h
    rfl
  · cases h
    rfl

/-- The counter advances with every creation, also one that fails, and with nothing else. -/
theorem MemFs.exec_state {s s' : MemFs} {call : Call} {r : Except Nfsstat3 Reply}
    (h : s.exec call = some (r, s')) :
    s' = { s with
      fs := s'.fs
      nextid := if call.op.allocates = true then s.nextid + 1 else s.nextid } := by
  obtain ⟨env, op⟩ := call
  cases op with
  | create dirid filename attr => exact MemFs.addFile_state h
  | createExclusive dirid filename createverf =>
    obtain ⟨⟨r₀, s₁⟩, hadd, he⟩ := Option.map_eq_some_iff.mp h
    cases he
    exact MemFs.addFile_state hadd
  | mkdir dirid dirname => exact MemFs.lift_state h
  | remove dirid filename => exact MemFs.lift_state h
  | rename fromDirid fromFilename toDirid toFilename => exact MemFs.lift_state h
  | setattr id setattr =>
    simp only [MemFs.exec, MemFs.setattr] at h
    split at h
    · cases h
      rfl
    · obtain ⟨entry, -, he⟩ := Option.map_eq_some_iff.mp h
      cases he
      rfl
  | write id offset data =>
    simp only [MemFs.exec, MemFs.write] at h
    split at h
    · cases h
      rfl
    · cases h
      rfl
    · obtain ⟨w, -, he⟩ := Option.map_eq_some_iff.mp h
      cases w <;> cases he <;> rfl

/-! ## Interleaved callers -/

/-- The state the callers share: the file system, and the handles that were drawn from the
counter by callers that have not taken the lock yet. -/
structure Shared where
  mem : MemFs
  pending : List FileHandleU64

/-- The atomic steps of the callers: drawing a handle, the locked part of a creation with the
handle drawn for it, and any other operation. -/
inductive Act
  | fetchAdd
  | add (id : FileHandleU64) (call : Call)
  | other (call : Call)

namespace Act

def cost : Act → ℕ
  | .fetchAdd => 1
  | .add .. | .other _ => 0

/-- The handle through which a step changes data or attributes. -/
def updates : Act → Option FileHandleU64
  | .fetchAdd => none
  | .add _ call | .other call => call.op.updates

end Act

namespace Shared

def initial (currentTime : Nfstime3) : Shared := ⟨.default currentTime, []⟩

/-- The locked part of a creation is the call itself, started with the counter at its handle. -/
def step (s : Shared) : Act → Option Shared
  | .fetchAdd =>
    some ⟨{ s.mem with nextid := s.mem.nextid + 1 }, s.mem.nextid :: s.pending⟩
  | .add id call =>
    if id ∈ s.pending ∧ call.op.allocates = true then
      (({ s.mem with nextid := id } : MemFs).step call).map fun mem =>
        ⟨{ s.mem with fs := mem.fs }, s.pending.erase id⟩
    else none
  | .other call =>
    if call.op.allocates = true then none else (s.mem.step call).map fun mem => ⟨mem, s.pending⟩

def allocations (acts : List Act) : ℕ := (acts.map Act.cost).sum

/-- The handle of the `k`-th allocation; the counter starts at two. -/
def drawn (k : ℕ) : FileHandleU64 := .ofNat (2 + k)

theorem drawn_succ (k : ℕ) : drawn k + 1 = drawn (k + 1) := by
  rw [drawn, drawn, ← Nat.add_assoc, UInt64.ofNat_add (2 + k) 1]
  rfl

theorem drawn_ne {k n : ℕ} (hk : k < n) (hn : n < 2 ^ 64) : drawn k ≠ drawn n := by
  intro h
  have hnat := congrArg UInt64.toNat h
  simp only [drawn, UInt64.toNat_ofNat'] at hnat
  omega

theorem drawn_ne_root {n : ℕ} (hn : n + 1 < 2 ^ 64) : drawn n ≠ 1 := by
  intro h
  have hnat := congrArg UInt64.toNat h
  simp only [drawn, UInt64.toNat_ofNat', UInt64.toNat_one] at hnat
  omega

/-- The root, and the handles of the first `n` allocations. -/
def Issued (n : ℕ) (i : FileHandleU64) : Prop := i = 1 ∨ ∃ k < n, i = drawn k

theorem Issued.mono {n m : ℕ} (hle : n ≤ m) {i : FileHandleU64} (h : Issued n i) : Issued m i :=
  h.imp_right fun ⟨k, hk, hi⟩ => ⟨k, by omega, hi⟩

theorem not_issued {n : ℕ} (hn : n + 1 < 2 ^ 64) : ¬ Issued n (drawn n) := by
  rintro (h | ⟨k, hk, h⟩)
  · exact drawn_ne_root hn h
  · exact drawn_ne hk (by omega) h.symm

/-- The state after `n` allocations: nothing is known that was not issued, and what was drawn
and not used yet is not known. -/
structure Fresh (n : ℕ) (s : Shared) : Prop where
  keyed : s.mem.fs.Keyed
  nextid : s.mem.nextid = drawn n
  known : ∀ i, s.mem.fs.Known i → Issued n i
  pending : ∀ id ∈ s.pending, Issued n id ∧ ¬ s.mem.fs.Known id
  nodup : s.pending.Nodup

/-- A handle that was issued and will not be used to create an entry any more. -/
structure Spent (n : ℕ) (s : Shared) (i : FileHandleU64) : Prop where
  issued : Issued n i
  used : i ∉ s.pending

/-- What a step does to the file system, with the handle it can have made known. -/
theorem step_cases {s s' : Shared} {act : Act} (h : s.step act = some s') :
    (act = .fetchAdd ∧ s' = ⟨{ s.mem with nextid := s.mem.nextid + 1 },
      s.mem.nextid :: s.pending⟩) ∨
    (∃ id call r, act = .add id call ∧ id ∈ s.pending ∧
      Effect call.env.order { s.mem with nextid := id } call.op r s'.mem.fs ∧
      s'.mem.nextid = s.mem.nextid ∧ s'.pending = s.pending.erase id) ∨
    (∃ call r, act = .other call ∧ call.op.allocates = false ∧
      Effect call.env.order s.mem call.op r s'.mem.fs ∧ s'.mem.nextid = s.mem.nextid ∧
      s'.pending = s.pending) := by
  cases act with
  | fetchAdd =>
    cases h
    exact Or.inl ⟨rfl, rfl⟩
  | add id call =>
    simp only [step] at h
    split_ifs at h with hid
    obtain ⟨mem, hstep, rfl⟩ := Option.map_eq_some_iff.mp h
    obtain ⟨⟨r, mem⟩, hexec, rfl⟩ := Option.map_eq_some_iff.mp hstep
    have heffect := MemFs.exec_effect hexec
    exact Or.inr (Or.inl ⟨id, call, r, rfl, hid.1, heffect, rfl, rfl⟩)
  | other call =>
    simp only [step] at h
    split_ifs at h with hop
    obtain ⟨mem, hstep, rfl⟩ := Option.map_eq_some_iff.mp h
    obtain ⟨⟨r, mem⟩, hexec, rfl⟩ := Option.map_eq_some_iff.mp hstep
    have hnextid := congrArg MemFs.nextid (MemFs.exec_state hexec)
    rw [if_neg hop] at hnextid
    exact Or.inr (Or.inr ⟨call, r, rfl, by simpa using hop, MemFs.exec_effect hexec, hnextid, rfl⟩)

variable {n : ℕ} {s s' : Shared} {act : Act} {i : FileHandleU64}

theorem fresh_initial (currentTime : Nfstime3) : Fresh 0 (initial currentTime) := by
  have hl := Fs.linked_new currentTime
  refine ⟨hl.keyed, rfl, ?_, ?_, .nil⟩
  · intro i hi
    have hsome : ((Fs.new currentTime).get i).isSome := by
      rcases hi with hi | ⟨d, hd⟩
      · exact hi
      · exact hl.tree.closed d i hd
    obtain ⟨entry, hget⟩ := Option.isSome_iff_exists.mp hsome
    exact Or.inl (Fs.get_new hget).1
  · intro id hid
    cases hid

theorem step_keyed (hk : s.mem.fs.Keyed) (h : s.step act = some s') : s'.mem.fs.Keyed := by
  cases act with
  | fetchAdd =>
    cases h
    exact hk
  | add id call =>
    simp only [step] at h
    split_ifs at h
    obtain ⟨mem, hstep, rfl⟩ := Option.map_eq_some_iff.mp h
    have hkeyed := MemFs.step_keyed (s := { s.mem with nextid := id }) hk hstep
    exact hkeyed
  | other call =>
    simp only [step] at h
    split_ifs at h
    obtain ⟨mem, hstep, rfl⟩ := Option.map_eq_some_iff.mp h
    exact MemFs.step_keyed hk hstep

theorem step_fresh (hf : Fresh n s) (hn : n + act.cost < 2 ^ 64) (h : s.step act = some s') :
    Fresh (n + act.cost) s' := by
  have hkeyed := step_keyed hf.keyed h
  rcases step_cases h with ⟨rfl, rfl⟩ | ⟨id, call, r, rfl, hid, heffect, hnext, hpending⟩ |
    ⟨call, r, rfl, hop, heffect, hnext, hpending⟩
  · -- the handle that is drawn was never issued before
    have hnew := not_issued hn
    have hle : n ≤ n + Act.fetchAdd.cost := by omega
    refine ⟨hkeyed, ?_, fun i hi => (hf.known i hi).mono hle, ?_, ?_⟩
    · simp only [hf.nextid]
      exact drawn_succ n
    · intro id hid
      rcases List.mem_cons.mp hid with rfl | hid
      · rw [hf.nextid]
        exact ⟨Or.inr ⟨n, Nat.lt_succ_self n, rfl⟩, fun hi => hnew (hf.known _ hi)⟩
      · exact ⟨(hf.pending id hid).1.mono hle, (hf.pending id hid).2⟩
    · refine List.nodup_cons.mpr ⟨?_, hf.nodup⟩
      intro hmem
      rw [hf.nextid] at hmem
      exact hnew (hf.pending _ hmem).1
  · have hknown : ∀ i, s'.mem.fs.Known i → s.mem.fs.Known i ∨ i = id := by
      intro i hi
      exact (heffect.known hf.keyed hi).imp_right And.right
    refine ⟨hkeyed, hnext.trans hf.nextid, ?_, ?_, hpending ▸ hf.nodup.erase id⟩
    · intro i hi
      rcases hknown i hi with hi | rfl
      · exact hf.known i hi
      · exact (hf.pending i hid).1
    · intro j hj
      rw [hpending, hf.nodup.mem_erase_iff] at hj
      refine ⟨(hf.pending j hj.2).1, ?_⟩
      intro hjk
      rcases hknown j hjk with hjk | rfl
      · exact (hf.pending j hj.2).2 hjk
      · exact hj.1 rfl
  · have hknown : ∀ i, s'.mem.fs.Known i → s.mem.fs.Known i := by
      intro i hi
      rcases heffect.known hf.keyed hi with hi | ⟨hop', -⟩
      · exact hi
      · rw [hop] at hop'
        cases hop'
    refine ⟨hkeyed, hnext.trans hf.nextid, fun i hi => hf.known i (hknown i hi), ?_,
      hpending ▸ hf.nodup⟩
    intro id hid
    rw [hpending] at hid
    exact ⟨(hf.pending id hid).1, fun hi => (hf.pending id hid).2 (hknown id hi)⟩

/-- The entry under a handle after a step is a new one, for a handle that was pending, or the
entry that was there before. -/
theorem step_get {entry' : Entry} (h : s.step act = some s')
    (hget : s'.mem.fs.get i = some entry') :
    i ∈ s.pending ∨ ∃ entry, s.mem.fs.get i = some entry ∧ entry'.identity = entry.identity ∧
      (act.updates ≠ some i → entry'.attr = entry.attr ∧ entry'.data = entry.data) := by
  rcases step_cases h with ⟨rfl, rfl⟩ | ⟨id, call, r, rfl, hid, heffect, -, -⟩ |
    ⟨call, r, rfl, hop, heffect, -, -⟩
  · exact Or.inr ⟨entry', hget, rfl, fun _ => ⟨rfl, rfl⟩⟩
  · rcases heffect.get hget with ⟨-, rfl, -⟩ | hkept
    · exact Or.inl hid
    · exact Or.inr hkept
  · rcases heffect.get hget with ⟨hop', -⟩ | hkept
    · rw [hop] at hop'
      cases hop'
    · exact Or.inr hkept

theorem step_spent (hf : Fresh n s) (hn : n + act.cost < 2 ^ 64) (hi : Spent n s i)
    (h : s.step act = some s') : Spent (n + act.cost) s' i := by
  refine ⟨hi.issued.mono (by omega), ?_⟩
  rcases step_cases h with ⟨rfl, rfl⟩ | ⟨id, -, -, rfl, -, -, -, hpending⟩ |
    ⟨-, -, rfl, -, -, -, hpending⟩
  · intro hmem
    rcases List.mem_cons.mp hmem with rfl | hmem
    · rw [hf.nextid] at hi
      exact not_issued hn hi.issued
    · exact hi.used hmem
  · rw [hpending]
    exact fun hmem => hi.used (List.mem_of_mem_erase hmem)
  · rw [hpending]
    exact hi.used

theorem Fresh.spent {entry : Entry} (hf : Fresh n s) (hget : s.mem.fs.get i = some entry) :
    Spent n s i := by
  have hknown : s.mem.fs.Known i := Fs.known_of_get hget
  exact ⟨hf.known i hknown, fun hmem => (hf.pending i hmem).2 hknown⟩

/-- A spent handle denotes nothing, or the object with a given identity. -/
structure Denotes (i : FileHandleU64) (P : Entry → Prop) (n : ℕ) (s : Shared) : Prop where
  fresh : Fresh n s
  spent : Spent n s i
  get : ∀ entry, s.mem.fs.get i = some entry → P entry

theorem step_denotes {P : Entry → Prop}
    (hP : ∀ e e' : Entry, e'.identity = e.identity → P e → P e') (hi : Denotes i P n s)
    (hn : n + act.cost < 2 ^ 64) (h : s.step act = some s') : Denotes i P (n + act.cost) s' := by
  refine ⟨step_fresh hi.fresh hn h, step_spent hi.fresh hn hi.spent h, ?_⟩
  intro entry' hget'
  rcases step_get h hget' with hmem | ⟨entry, hget, hid, -⟩
  · exact absurd hmem hi.spent.used
  · exact hP entry entry' hid (hi.get entry hget)

theorem run_denotes {P : Entry → Prop}
    (hP : ∀ e e' : Entry, e'.identity = e.identity → P e → P e') {acts : List Act}
    (hi : Denotes i P n s) (hn : n + allocations acts < 2 ^ 64)
    (hrun : Transition.run step s acts = some s') : Denotes i P (n + allocations acts) s' :=
  Transition.run_invariant_counted (fun _ _ _ _ hi hn h => step_denotes hP hi hn h) hi hn hrun

theorem run_fresh {acts : List Act} (hf : Fresh n s) (hn : n + allocations acts < 2 ^ 64)
    (hrun : Transition.run step s acts = some s') : Fresh (n + allocations acts) s' :=
  Transition.run_invariant_counted (fun _ _ _ _ hf hn h => step_fresh hf hn h) hf hn hrun

/-- The guarantees about handles in a state that was reached with `n` allocations. -/
structure NeverReused (n : ℕ) (s : Shared) : Prop where
  /-- Before the counter wraps, every known handle is below it. -/
  below : 2 + n < 2 ^ 64 → ∀ i, s.mem.fs.Known i → i < s.mem.nextid
  keyed : ∀ i entry, s.mem.fs.get i = some entry → entry.fileid = i
  /-- A handle that resolves now and later denotes the same object. -/
  same : ∀ acts s' i entry entry', n + allocations acts < 2 ^ 64 →
    Transition.run step s acts = some s' → s.mem.fs.get i = some entry →
    s'.mem.fs.get i = some entry' → entry'.identity = entry.identity
  /-- Only an update through a handle changes the data and attributes of its object. -/
  untouched : ∀ act s' i entry entry', s.step act = some s' → act.updates ≠ some i →
    s.mem.fs.get i = some entry → s'.mem.fs.get i = some entry' →
    entry'.attr = entry.attr ∧ entry'.data = entry.data
  /-- A handle that resolved and no longer does never resolves again. -/
  gone : ∀ acts s₁ acts' s₂ i entry, n + allocations acts + allocations acts' < 2 ^ 64 →
    s.mem.fs.get i = some entry → Transition.run step s acts = some s₁ →
    s₁.mem.fs.get i = none → Transition.run step s₁ acts' = some s₂ → s₂.mem.fs.get i = none
  /-- With a new entry under a handle that was drawn for it, `push` neither finds the handle
  taken nor fails its assertion. -/
  push : ∀ id ∈ s.pending, ∀ parent entry, entry.fileid = id → entry.content = ∅ →
    ∃ r fs', s.mem.fs.push parent entry = some (r, fs') ∧ r ≠ .error .nfs3errExist

theorem Issued.lt {n : ℕ} (hn : 2 + n < 2 ^ 64) (h : Issued n i) : i < drawn n := by
  rw [UInt64.lt_iff_toNat_lt]
  rcases h with rfl | ⟨k, hk, rfl⟩
  · simp only [drawn, UInt64.toNat_ofNat', UInt64.toNat_one]
    omega
  · simp only [drawn, UInt64.toNat_ofNat']
    omega

theorem push_fresh {fs : Fs} {parent : FileHandleU64} {entry : Entry}
    (h : ¬ fs.Known entry.fileid) (hcontent : entry.content = ∅) :
    ∃ r fs', fs.push parent entry = some (r, fs') ∧ r ≠ .error .nfs3errExist := by
  have hfresh : ¬ (fs.get entry.fileid).isSome := fun hsome => h (Or.inl hsome)
  unfold Fs.push
  dsimp only
  rw [if_neg hfresh]
  split
  · exact ⟨_, _, rfl, by simp⟩
  · exact ⟨_, _, rfl, by simp⟩
  rename_i dir hget
  have hmem : entry.fileid ∉ dir.content := by
    intro hmem
    rw [Fs.get_insert] at hget
    split_ifs at hget
    · cases hget
      simp [show dir.content = ∅ from hcontent] at hmem
    · exact h (Fs.known_of_content hget hmem)
  rw [if_neg hmem]
  exact ⟨_, _, rfl, by simp⟩

theorem Fresh.neverReused (hf : Fresh n s) : NeverReused n s := by
  refine ⟨?_, hf.keyed, ?_, ?_, ?_, ?_⟩
  · intro hn i hi
    rw [hf.nextid]
    exact (hf.known i hi).lt hn
  · intro acts s' i entry entry' hn hrun hget hget'
    have hstart : Denotes i (fun e => e.identity = entry.identity) n s := by
      refine ⟨hf, hf.spent hget, ?_⟩
      intro e he
      rw [hget] at he
      cases he
      rfl
    exact (run_denotes (fun e e' hid he => hid.trans he) hstart hn hrun).get entry' hget'
  · intro act s' i entry entry' hstep hupdates hget hget'
    rcases step_get hstep hget' with hmem | ⟨entry₁, hentry₁, -, hkept⟩
    · exact absurd hmem (hf.spent hget).used
    · rw [hget] at hentry₁
      cases hentry₁
      exact hkept hupdates
  · intro acts s₁ acts' s₂ i entry hn hget hrun hnone hrun'
    have hstart : Denotes i (fun _ => True) n s := ⟨hf, hf.spent hget, fun _ _ => trivial⟩
    have hmid := run_denotes (fun _ _ _ _ => trivial) hstart (by omega) hrun
    have hdead : Denotes i (fun _ => False) (n + allocations acts) s₁ := by
      refine ⟨hmid.fresh, hmid.spent, ?_⟩
      intro e he
      rw [hnone] at he
      cases he
    have hend := run_denotes (fun _ _ _ h => h) hdead hn hrun'
    exact Option.eq_none_iff_forall_ne_some.mpr fun e he => hend.get e he
  · rintro id hid parent entry rfl hcontent
    exact push_fresh (hf.pending _ hid).2 hcontent

/-- A call that is not interrupted is an interleaving of its own. -/
theorem run_call {m m' : MemFs} {call : Call} (pending : List FileHandleU64)
    (h : m.step call = some m') :
    ∃ acts, allocations acts ≤ 1 ∧ Transition.run step ⟨m, pending⟩ acts = some ⟨m', pending⟩ := by
  obtain ⟨⟨r, m₁⟩, hexec, rfl⟩ := Option.map_eq_some_iff.mp h
  have hstate := MemFs.exec_state hexec
  by_cases hop : call.op.allocates = true
  · refine ⟨[.fetchAdd, .add m.nextid call], by simp [allocations, Act.cost], ?_⟩
    rw [if_pos hop] at hstate
    simp only [Transition.run, step, Option.bind_some, List.mem_cons, true_or, hop, and_self,
      if_true, h, Option.map_some, List.erase_cons_head]
    rw [hstate]
  · refine ⟨[.other call], by simp [allocations, Act.cost], ?_⟩
    simp only [Transition.run, step, if_neg hop, h, Option.map_some, Option.bind_some]

theorem run_calls {calls : List Call} {m m' : MemFs} (pending : List FileHandleU64)
    (h : Transition.run MemFs.step m calls = some m') :
    ∃ acts, allocations acts ≤ calls.length ∧
      Transition.run step ⟨m, pending⟩ acts = some ⟨m', pending⟩ := by
  induction calls generalizing m with
  | nil =>
    cases h
    exact ⟨[], le_rfl, rfl⟩
  | cons call calls ih =>
    obtain ⟨m₁, h₁, hr₁⟩ := Transition.run_cons_eq_some h
    obtain ⟨acts, hacts, hrun⟩ := run_call pending h₁
    obtain ⟨acts', hacts', hrun'⟩ := ih hr₁
    refine ⟨acts ++ acts', ?_, ?_⟩
    · simp only [allocations, List.map_append, List.sum_append, List.length_cons] at hacts hacts' ⊢
      omega
    · rw [Transition.run_append, hrun]
      exact hrun'

/-- Before the counter wraps, zero is no handle. -/
theorem known_ne_zero {calls : List Call} {currentTime : Nfstime3} {m : MemFs}
    (hrun : Transition.run MemFs.step (.default currentTime) calls = some m)
    (hn : 2 + calls.length < 2 ^ 64) (hi : m.fs.Known i) : i ≠ 0 := by
  obtain ⟨acts, hacts, hrun'⟩ := run_calls [] hrun
  have hf := run_fresh (fresh_initial currentTime) (by omega) hrun'
  rintro rfl
  rcases hf.known 0 hi with h | ⟨k, hk, h⟩
  · cases h
  · have hnat := congrArg UInt64.toNat h
    simp only [drawn, UInt64.toNat_ofNat', UInt64.toNat_zero] at hnat
    omega

/-- In every interleaving with fewer than `2 ^ 64` allocations handles are never reused. -/
theorem handles_never_reused {acts : List Act} {currentTime : Nfstime3} {s : Shared}
    (hrun : Transition.run step (initial currentTime) acts = some s)
    (hn : allocations acts < 2 ^ 64) : NeverReused (allocations acts) s := by
  have hf := run_fresh (fresh_initial currentTime) (by simpa using hn) hrun
  rw [Nat.zero_add] at hf
  exact hf.neverReused

/-- Two callers draw handles before either takes the lock; the second one creates first. -/
def sampleRace : List Act :=
  [.fetchAdd, .fetchAdd, .add 3 ⟨MemFs.sampleEnv, .mkdir 1 ⟨⟨[0x62]⟩⟩⟩,
    .add 2 ⟨MemFs.sampleEnv, .create 3 ⟨⟨[0x61]⟩⟩ MemFs.noChange⟩]

theorem handles_never_reused_race :
    ∃ s, Transition.run step (initial ⟨0, 0⟩) sampleRace = some s ∧ s.mem.nextid = 4 ∧
      NeverReused 2 s := by
  have hrun : (Transition.run step (initial ⟨0, 0⟩) sampleRace).map (·.mem.nextid) = some 4 := by
    decide
  obtain ⟨s, hs, hnext⟩ := Option.map_eq_some_iff.mp hrun
  exact ⟨s, hs, hnext, handles_never_reused hs (by decide)⟩

theorem run_fetchAdd (s : Shared) (m : ℕ) :
    ∃ pending, Transition.run step s (List.replicate m .fetchAdd) =
      some ⟨{ s.mem with nextid := s.mem.nextid + .ofNat m }, pending⟩ := by
  induction m generalizing s with
  | zero => exact ⟨s.pending, by simp [Transition.run]⟩
  | succ m ih =>
    obtain ⟨pending, hrun⟩ := ih ⟨{ s.mem with nextid := s.mem.nextid + 1 },
      s.mem.nextid :: s.pending⟩
    refine ⟨pending, ?_⟩
    rw [List.replicate_succ, Transition.run_cons_of_some rfl, hrun, UInt64.ofNat_add,
      UInt64.add_comm (.ofNat m), ← UInt64.add_assoc]
    rfl

theorem allocations_fetchAdd (m : ℕ) : allocations (List.replicate m .fetchAdd) = m := by
  simp [allocations, Act.cost]

/-- After `2 ^ 64 - 2` allocations the counter is back at zero, below the root. -/
theorem counter_wraps :
    ¬ ∀ acts currentTime s, Transition.run step (initial currentTime) acts = some s →
      allocations acts < 2 ^ 64 → ∀ i, s.mem.fs.Known i → i < s.mem.nextid := by
  intro h
  obtain ⟨pending, hrun⟩ := run_fetchAdd (initial ⟨0, 0⟩) (2 ^ 64 - 2)
  have hroot : (initial ⟨0, 0⟩).mem.fs.Known 1 := Or.inl rfl
  have hlt := h _ _ _ hrun (by rw [allocations_fetchAdd]; norm_num) 1 hroot
  have hnext : (initial ⟨0, 0⟩).mem.nextid + UInt64.ofNat (2 ^ 64 - 2) = 0 := by decide
  simp only [hnext] at hlt
  exact absurd hlt (by decide)

end Shared

end Nfs3.Memfs
