import Nfs3.Server.MemFs.Handles
import Nfs3.Server.Paging

/-!
# Directory listings of the in-memory file system

`make_iter` copies the handles of a directory behind the one given as cookie, in the iteration
order of the content set; the iterator looks the entries up as it goes and skips handles
without one. The cookie of an entry is its handle. With a stable iteration order this is a
fixed listing for as long as the directory is not modified, whatever happens elsewhere.
-/
namespace Nfs3.Memfs

open Nfs3

namespace Fs

variable {order : HashOrder} {fs fs' : Fs} {dirid : FileHandleU64}

def getattr (fs : Fs) (id : FileHandleU64) : Except Nfsstat3 Fattr3 :=
  match fs.get id with
  | none => .error .nfs3errNoent
  | some entry => .ok entry.attr

/-- The iterator is modelled by the handles it still has to visit. -/
def makeIter (order : HashOrder) (fs : Fs) (dirid : FileHandleU64) (startAfter : Cookie3) :
    Except Nfsstat3 (List FileHandleU64) :=
  match fs.get dirid with
  | none => .error .nfs3errNoent
  | some (.file _) => .error .nfs3errNotdir
  | some (.dir dir) =>
    let iter := order.iter dirid dir.content
    if startAfter ≠ 0 then
      match iter.dropWhile (· ≠ startAfter) with
      | [] => .error .nfs3errBadCookie
      | _ :: rest => .ok rest
    else .ok iter

def visitNextEntry {R : Type} (fs : Fs) (f : FileHandleU64 → Entry → R) :
    List FileHandleU64 → NextResult R × List FileHandleU64
  | [] => (.eof, [])
  | id :: rest =>
    match fs.get id with
    | none => fs.visitNextEntry f rest
    | some entry => (.ok (f id entry), rest)

def dirEntry (id : FileHandleU64) (entry : Entry) : DirEntry := ⟨id, entry.name, id⟩

def dirEntryPlus (id : FileHandleU64) (entry : Entry) : DirEntryPlus FileHandleU64 :=
  ⟨id, entry.name, id, some entry.attr, some id⟩

/-- The listing interface with the entries that `f` makes. -/
def dirVfs {R : Type} (order : HashOrder) (f : FileHandleU64 → Entry → R) :
    DirVfs Fs (List FileHandleU64) FileHandleU64 R where
  getattr fs id := (fs.getattr id, fs)
  openDir fs dirid cookie := (fs.makeIter order dirid cookie, fs)
  next fs iter :=
    let (result, rest) := fs.visitNextEntry f iter
    (result, rest, fs)
  drop fs _ := fs

def readdir (order : HashOrder) : DirVfs Fs (List FileHandleU64) FileHandleU64 DirEntry :=
  dirVfs order dirEntry

def readdirplus (order : HashOrder) :
    DirVfs Fs (List FileHandleU64) FileHandleU64 (DirEntryPlus FileHandleU64) :=
  dirVfs order dirEntryPlus

/-- The entries a list of handles stands for. -/
def entriesOf {R : Type} (fs : Fs) (f : FileHandleU64 → Entry → R) (ids : List FileHandleU64) :
    List R :=
  ids.filterMap fun id => (fs.get id).map (f id)

/-- The directory is not modified between two states: it has the same handles, and `f` makes the
same entries of them. -/
structure Unmodified {R : Type} (f : FileHandleU64 → Entry → R) (dirid : FileHandleU64)
    (fs fs' : Fs) : Prop where
  content : ∀ dir, fs.get dirid = some (.dir dir) →
    ∃ dir', fs'.get dirid = some (.dir dir') ∧ dir'.content = dir.content
  entries : ∀ id ∈ fs.children dirid, (fs'.get id).map (f id) = (fs.get id).map (f id)

theorem Unmodified.refl {R : Type} (f : FileHandleU64 → Entry → R) (dirid : FileHandleU64)
    (fs : Fs) : Unmodified f dirid fs fs :=
  ⟨fun dir hdir => ⟨dir, hdir, rfl⟩, fun _ _ => rfl⟩

theorem iterates_dirVfs {R : Type} {f : FileHandleU64 → Entry → R} {ids : List FileHandleU64}
    {P : Fs → Prop}
    (hP : ∀ s, P s → ∀ id ∈ ids, (s.get id).map (f id) = (fs.get id).map (f id)) :
    Iterates (dirVfs order f) P (fs.entriesOf f ids) ids := by
  induction ids with
  | nil =>
    intro s hs
    exact ⟨[], s, rfl, hs⟩
  | cons id ids ih =>
    have hrest := ih fun s hs j hj => hP s hs j (List.mem_cons_of_mem id hj)
    cases hget : fs.get id with
    | none =>
      -- the iterator passes over the handle in the same call
      have hentries : fs.entriesOf f (id :: ids) = fs.entriesOf f ids := by
        simp [entriesOf, hget]
      have hvisit : ∀ s, P s → s.visitNextEntry f (id :: ids) = s.visitNextEntry f ids := by
        intro s hs
        have hnone := hP s hs id List.mem_cons_self
        rw [hget, Option.map_none, Option.map_eq_none_iff] at hnone
        rw [visitNextEntry, hnone]
      rw [hentries]
      cases hL : fs.entriesOf f ids with
      | nil | cons =>
        rw [hL] at hrest
        intro s hs
        simpa [dirVfs, hvisit s hs] using hrest s hs
    | some entry =>
      have hentries : fs.entriesOf f (id :: ids) = f id entry :: fs.entriesOf f ids := by
        simp [entriesOf, hget]
      rw [hentries]
      intro s hs
      have hid := hP s hs id List.mem_cons_self
      rw [hget] at hid
      obtain ⟨entry', hget', hentry⟩ := Option.map_eq_some_iff.mp hid
      refine ⟨ids, s, ?_, hs, hrest⟩
      simp [dirVfs, visitNextEntry, hget', hentry]

/-- In a set of handles, what follows one of them is found again from the handle alone. -/
theorem dropWhile_of_nodup {pre post : List FileHandleU64} {id : FileHandleU64}
    (h : (pre ++ id :: post).Nodup) :
    (pre ++ id :: post).dropWhile (· ≠ id) = id :: post := by
  rw [List.dropWhile_append_of_pos]
  · simp
  · intro a ha
    have hne : a ≠ id := by
      rintro rfl
      exact (List.nodup_append.mp h).2.2 a ha a (by simp) rfl
    simpa using hne

theorem map_cookie_entriesOf {R : Type} {f : FileHandleU64 → Entry → R} {cookie : R → Cookie3}
    (hcookie : ∀ id entry, cookie (f id entry) = id) (ids : List FileHandleU64) :
    (fs.entriesOf f ids).map cookie = ids.filter fun id => (fs.get id).isSome := by
  induction ids with
  | nil => rfl
  | cons id ids ih =>
    cases hget : fs.get id with
    | none => simpa [entriesOf, hget] using ih
    | some entry => simpa [entriesOf, hget, hcookie] using ih

theorem lists_dirVfs {R : Type} {f : FileHandleU64 → Entry → R} {cookie : R → Cookie3}
    (hcookie : ∀ id entry, cookie (f id entry) = id) {dir : Dir}
    (hdir : fs.get dirid = some (.dir dir)) (hzero : (0 : FileHandleU64) ∉ dir.content) :
    Lists (dirVfs order f) (Unmodified f dirid fs) dirid cookie
      (fs.entriesOf f (order.iter dirid dir.content)) := by
  have hnodup := order.nodup_iter dirid dir.content
  have hfound : ∀ e ∈ fs.entriesOf f (order.iter dirid dir.content),
      cookie e ∈ order.iter dirid dir.content ∧ (fs.get (cookie e)).isSome := by
    intro e he
    have hc := List.mem_map_of_mem (f := cookie) he
    rw [map_cookie_entriesOf hcookie] at hc
    exact List.mem_filter.mp hc
  have hnonzero : ∀ e ∈ fs.entriesOf f (order.iter dirid dir.content), cookie e ≠ 0 := by
    intro e he heq
    exact hzero (order.mem_iter.mp (heq ▸ (hfound e he).1))
  have hdistinct : ((fs.entriesOf f (order.iter dirid dir.content)).map cookie).Nodup := by
    rw [map_cookie_entriesOf hcookie]
    exact hnodup.filter _
  have hsame : ∀ s, Unmodified f dirid fs s → ∀ id ∈ order.iter dirid dir.content,
      (s.get id).map (f id) = (fs.get id).map (f id) := fun s hs id hid =>
    hs.entries id (mem_children.mpr ⟨dir, hdir, order.mem_iter.mp hid⟩)
  refine ⟨hdistinct, hnonzero, fun _ hs => hs, ?_, ?_⟩
  · intro s hs
    obtain ⟨dir', hdir', hcontent⟩ := hs.content dir hdir
    refine ⟨order.iter dirid dir.content, s, ?_, hs, iterates_dirVfs hsame⟩
    simp [dirVfs, makeIter, hdir', hcontent]
  · intro s e hs he
    obtain ⟨dir', hdir', hcontent⟩ := hs.content dir hdir
    obtain ⟨hmem, hsome⟩ := hfound e he
    obtain ⟨pre, post, hsplit⟩ := List.append_of_mem hmem
    refine ⟨post, s, ?_, hs, ?_⟩
    · have hdrop := dropWhile_of_nodup (hsplit ▸ hnodup)
      simp only [dirVfs, makeIter, hdir', hcontent, hnonzero e he, hsplit, hdrop, ne_eq,
        not_false_eq_true, if_true]
    · obtain ⟨entry, hget⟩ := Option.isSome_iff_exists.mp hsome
      have hentries : fs.entriesOf f (order.iter dirid dir.content) =
          fs.entriesOf f pre ++ f (cookie e) entry :: fs.entriesOf f post := by
        rw [hsplit]
        simp [entriesOf, hget]
      have hafter := after_append (hentries ▸ hdistinct)
      rw [hcookie, ← hentries] at hafter
      rw [hafter]
      exact iterates_dirVfs fun s hs id hid => hsame s hs id (by simp [hsplit, hid])

end Fs

/-- Paging through a directory that does not change is complete and free of duplicates, for
READDIR and for READDIRPLUS, and the in-memory file system lists a directory in this way in all
states between which it is not modified, as long as zero is no handle, which holds until the
counter of handles wraps. -/
theorem directory_paging :
    (∀ (σ ι H : Type) [FileHandle H] (converter : FileHandleConverter)
      (vfs : DirVfs σ ι H DirEntry) (P : σ → Prop) (dir : NfsFh3) (dirid : H) (L : List DirEntry)
      (pages : List (DirPage Entry3)), converter.fhFromNfs dir = .ok dirid →
      Lists vfs P dirid Entry3.cookie L →
      Session (readdirExchange converter vfs P dir) Entry3.cookie pages → Complete L pages) ∧
    (∀ (σ ι H : Type) [FileHandle H] (converter : FileHandleConverter)
      (vfs : DirVfs σ ι H (DirEntryPlus H)) (P : σ → Prop) (dir : NfsFh3) (dirid : H)
      (L : List (DirEntryPlus H)) (pages : List (DirPage Entryplus3)),
      converter.fhFromNfs dir = .ok dirid → Lists vfs P dirid DirEntryPlus.cookie L →
      Session (readdirplusExchange converter vfs P dir) Entryplus3.cookie pages →
      Complete (L.map (·.intoEntry converter)) pages) ∧
    (∀ (order : HashOrder) (fs : Fs) (dirid : FileHandleU64) (dir : Dir),
      fs.get dirid = some (.dir dir) → (0 : FileHandleU64) ∉ dir.content →
      Lists (Fs.readdir order) (Fs.Unmodified Fs.dirEntry dirid fs) dirid Entry3.cookie
        (fs.entriesOf Fs.dirEntry (order.iter dirid dir.content)) ∧
      Lists (Fs.readdirplus order) (Fs.Unmodified Fs.dirEntryPlus dirid fs) dirid
        DirEntryPlus.cookie
        (fs.entriesOf Fs.dirEntryPlus (order.iter dirid dir.content))) ∧
    (∀ (calls : List Call) (currentTime : Nfstime3) (m : MemFs) (d : FileHandleU64) (dir : Dir),
      Transition.run MemFs.step (.default currentTime) calls = some m →
      2 + calls.length < 2 ^ 64 → m.fs.get d = some (.dir dir) →
      (0 : FileHandleU64) ∉ dir.content) := by
  refine ⟨?_, ?_, ?_, ?_⟩
  · intro σ ι H _ converter vfs P dir dirid L pages hdir hlists hsession
    exact readdir_session_complete hlists hdir hsession
  · intro σ ι H _ converter vfs P dir dirid L pages hdir hlists hsession
    exact readdirplus_session_complete hlists hdir hsession
  · intro order fs dirid dir hdir hzero
    exact ⟨Fs.lists_dirVfs (fun _ _ => rfl) hdir hzero, Fs.lists_dirVfs (fun _ _ => rfl) hdir hzero⟩
  · intro calls currentTime m d dir hrun hn hdir hzero
    exact Shared.known_ne_zero hrun hn (Fs.known_of_content hdir hzero) rfl

/-- Three files in the root directory. -/
def sampleFs : Fs :=
  let calls : List Call := [.create 1 ⟨⟨[0x61]⟩⟩ MemFs.noChange,
    .create 1 ⟨⟨[0x62]⟩⟩ MemFs.noChange,
    .create 1 ⟨⟨[0x63]⟩⟩ MemFs.noChange].map (⟨MemFs.sampleEnv, ·⟩)
  ((Transition.run MemFs.step (.default ⟨1, 0⟩) calls).map MemFs.fs).getD (.new ⟨1, 0⟩)

/-- The first of them is written to. -/
def sampleWritten : Fs :=
  (Transition.run MemFs.step ⟨sampleFs, 1, 5⟩ [⟨MemFs.sampleEnv, .write 2 0 [0x78]⟩]).elim sampleFs
    MemFs.fs

theorem sampleWritten_unmodified : Fs.Unmodified Fs.dirEntry 1 sampleFs sampleWritten := by
  constructor
  · intro dir hdir
    have hbefore : (sampleFs.get 1).map Entry.content = some {2, 3, 4} := by decide
    have hafter : (sampleWritten.get 1).map (fun e => (e.isDir, e.content)) =
        some (true, {2, 3, 4}) := by decide
    rw [hdir, Option.map_some, Option.some.injEq] at hbefore
    obtain ⟨entry, hget, hentry⟩ := Option.map_eq_some_iff.mp hafter
    obtain ⟨hisDir, hcontent⟩ := Prod.mk.inj hentry
    cases entry with
    | file f => cases hisDir
    | dir dir' => exact ⟨dir', hget, hcontent.trans hbefore.symm⟩
  · intro id hid
    have hchildren : sampleFs.children 1 = {2, 3, 4} := by decide
    simp only [hchildren, Finset.mem_insert, Finset.mem_singleton] at hid
    rcases hid with rfl | rfl | rfl <;> decide

/-- The pages a client gets with a count of 180 bytes, the second one after the write. -/
def samplePages : List (DirPage Entry3) :=
  [⟨[⟨2, ⟨⟨[0x61]⟩⟩, 2⟩, ⟨3, ⟨⟨[0x62]⟩⟩, 3⟩], false, .ofUInt64 0x100000000⟩,
    ⟨[⟨4, ⟨⟨[0x63]⟩⟩, 4⟩], true, .ofUInt64 0x100000000⟩]

theorem directory_paging_two_pages :
    let root : NfsFh3 := FileHandleConverter.fhToNfs ⟨7⟩ (1 : FileHandleU64)
    let L := sampleFs.entriesOf Fs.dirEntry (HashOrder.ascending.iter 1 {2, 3, 4})
    Session (readdirExchange ⟨7⟩ (Fs.readdir .ascending)
      (Fs.Unmodified Fs.dirEntry 1 sampleFs) root) Entry3.cookie samplePages ∧
    L = samplePages.flatMap DirPage.entries ∧ Complete L samplePages := by
  intro root L
  have hroot : FileHandleConverter.fhFromNfs ⟨7⟩ root = .ok (1 : FileHandleU64) := by decide
  have hdir : (sampleFs.get 1).map Entry.content = some {2, 3, 4} := by decide
  have hlisting : L = samplePages.flatMap DirPage.entries := by decide
  obtain ⟨entry, hentry, hcontent⟩ := Option.map_eq_some_iff.mp hdir
  cases entry with
  | file f => exact absurd hcontent (by decide : (∅ : Finset FileHandleU64) ≠ {2, 3, 4})
  | dir dir =>
    have hsession : Session (readdirExchange ⟨7⟩ (Fs.readdir .ascending)
        (Fs.Unmodified Fs.dirEntry 1 sampleFs) root) Entry3.cookie samplePages := by
      refine @Session.resume _ _ _ [] _ _ (.start ?_) ?_
      · exact readdirExchange_of_page 0 ⟨root, 0, .noneCookieVerf, 180⟩ (.refl _ _ _) (by simp)
          (by decide)
      · exact readdirExchange_of_page (s := sampleWritten) 0
          ⟨root, 3, .ofUInt64 0x100000000, 180⟩ sampleWritten_unmodified (by simp) (by decide)
    rw [Entry.content] at hcontent
    have hlists := (directory_paging.2.2.1 .ascending sampleFs 1 dir hentry
      (by rw [hcontent]; decide)).1
    rw [hcontent] at hlists
    exact ⟨hsession, hlisting, directory_paging.1 _ _ _ _ _ _ _ _ _ _ hroot hlists hsession⟩

end Nfs3.Memfs
