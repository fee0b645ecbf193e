import Nfs3.Server.Vfs
import Nfs3.Types.BoundedList
import Nfs3.Types.NfsArgs

/-!
# The handlers of READDIR and READDIRPLUS

Both handlers pull entries from an iterator of the file system until one does not fit into
the reply, and drop the iterator afterwards, the refused entry with it.
-/
namespace Nfs3

open ByteOrder (toBe length_toBe)

namespace Cookieverf3

def ofUInt64 (n : UInt64) : Cookieverf3 := ⟨⟨(toBe 8 n.toNat).toArray, by simp⟩⟩

def noneCookieVerf : Cookieverf3 := ofUInt64 0

def someCookieVerf : Cookieverf3 := ofUInt64 0xFFCCFFCCFFCCFFCC

def fromAttr : PostOpAttr → Cookieverf3
  | .some attr => ofUInt64 ((attr.mtime.seconds.toUInt64 <<< 32) ||| attr.mtime.nseconds.toUInt64)
  | .none => someCookieVerf

def isNone (verf : Cookieverf3) : Bool := verf = noneCookieVerf

end Cookieverf3

structure BoundedEntryPlusList where
  entries : BoundedList Entryplus3
  dircount : ℕ
  accumulatedDircount : ℕ

namespace BoundedEntryPlusList

def new (dircount maxcount : ℕ) : BoundedEntryPlusList := ⟨.new maxcount, dircount, 0⟩

/-- What an entry counts towards `dircount`. -/
def addedDircount (entry : Entryplus3) : ℕ :=
  packedSize entry.fileid + 4 + packedSize entry.name + packedSize entry.cookie

def tryPush (l : BoundedEntryPlusList) (entry : Entryplus3) : Option BoundedEntryPlusList :=
  if l.accumulatedDircount + addedDircount entry > l.dircount then none
  else
    (l.entries.tryPush entry).map fun entries =>
      { l with entries, accumulatedDircount := l.accumulatedDircount + addedDircount entry }

def intoInner (l : BoundedEntryPlusList) : XdrList Entryplus3 := l.entries.intoInner

theorem tryPush_entries {l l' : BoundedEntryPlusList} {entry : Entryplus3}
    (h : l.tryPush entry = some l') : l.entries.tryPush entry = some l'.entries := by
  unfold tryPush at h
  split_ifs at h
  obtain ⟨entries, hpush, rfl⟩ := Option.map_eq_some_iff.mp h
  exact hpush

end BoundedEntryPlusList

section Loop

variable {σ ι H E B : Type}

/-- The loop of both handlers, run for at most `fuel` rounds: entries are pushed until one is
refused, which gives `false`, or the iterator is at its end, which gives `true`. -/
def fill (vfs : DirVfs σ ι H E) (push : B → E → Option B) :
    (fuel : ℕ) → σ → ι → B → Option (Except Nfsstat3 (B × Bool) × ι × σ)
  | 0, _, _, _ => none
  | fuel + 1, s, iter, acc =>
    match vfs.next s iter with
    | (.ok entry, iter, s) =>
      match push acc entry with
      | none => some (.ok (acc, false), iter, s)
      | some acc => fill vfs push fuel s iter acc
    | (.eof, iter, s) => some (.ok (acc, true), iter, s)
    | (.err stat, iter, s) => some (.error stat, iter, s)

/-- A push takes room, so the loop ends when there was fuel for all of it. -/
theorem fill_isSome (vfs : DirVfs σ ι H E) {push : B → E → Option B} (room : B → ℕ)
    (hroom : ∀ acc entry acc', push acc entry = some acc' → room acc' < room acc) {fuel : ℕ}
    {s : σ} {iter : ι} {acc : B} (hfuel : room acc < fuel) :
    (fill vfs push fuel s iter acc).isSome := by
  induction fuel generalizing s iter acc with
  | zero => omega
  | succ fuel ih =>
    unfold fill
    split
    · split
      · rfl
      · rename_i acc' hpush
        have := hroom acc _ acc' hpush
        exact ih (by omega)
    · rfl
    · rfl

end Loop

section Handlers

variable {σ ι H : Type} [FileHandle H]

/-- A subtraction of `usize`, `none` where it underflows. -/
def checkedSub (a b : ℕ) : Option ℕ := if b ≤ a then some (a - b) else none

theorem checkedSub_of_le {a b : ℕ} (h : b ≤ a) : checkedSub a b = some (a - b) := if_pos h

def postOpAttr : Except Nfsstat3 Fattr3 → PostOpAttr
  | .ok attr => .some attr
  | .error _ => .none

/-- `none` only if the budget underflows or the loop does not end, which
`nfsproc3Readdir_isSome` excludes. -/
def nfsproc3Readdir (converter : FileHandleConverter) (vfs : DirVfs σ ι H DirEntry) (s : σ)
    (xid : UInt32) (args : Readdir3Args) : Option (Readdir3Res × σ) :=
  match converter.fhFromNfs args.dir with
  | .error stat => some (.err stat ⟨.none⟩, s)
  | .ok dirid =>
    let (dirAttr, s) := vfs.getattr s dirid
    let dirAttributes := postOpAttr dirAttr
    let cookieverf := Cookieverf3.fromAttr dirAttributes
    if args.cookieverf.isNone ∧ args.cookie ≠ 0 then
      some (.err .nfs3errBadCookie ⟨.none⟩, s)
    else if ¬ args.cookieverf.isNone ∧ args.cookieverf ≠ cookieverf then
      some (.err .nfs3errBadCookie ⟨.none⟩, s)
    else
      let resok : Readdir3Resok := ⟨dirAttributes, cookieverf, ⟨⟨[]⟩, false⟩⟩
      let emptyLen := packedSize xid + packedSize resok
      if emptyLen > args.count.toNat then some (.err .nfs3errToosmall ⟨dirAttributes⟩, s)
      else
        (checkedSub args.count.toNat emptyLen).bind fun maxBytesAllowed =>
        match vfs.openDir s dirid args.cookie with
        | (.error stat, s) => some (.err stat ⟨dirAttributes⟩, s)
        | (.ok iter, s) =>
          (fill vfs BoundedList.tryPush (maxBytesAllowed + 1) s iter (.new maxBytesAllowed)).map
            fun (result, iter, s) =>
              let res : Readdir3Res :=
                match result with
                | .error stat => .err stat ⟨dirAttributes⟩
                | .ok (acc, eof) =>
                  let entries := acc.intoInner
                  if entries.items = [] ∧ eof = false then .err .nfs3errToosmall ⟨dirAttributes⟩
                  else .ok { resok with reply := ⟨entries, eof⟩ }
              (res, vfs.drop s iter)

/-- The cookie verifier of the request is not looked at. -/
def nfsproc3Readdirplus (converter : FileHandleConverter) (vfs : DirVfs σ ι H (DirEntryPlus H))
    (s : σ) (args : Readdirplus3Args) : Option (Readdirplus3Res × σ) :=
  match converter.fhFromNfs args.dir with
  | .error stat => some (.err stat ⟨.none⟩, s)
  | .ok dirid =>
    let (dirAttr, s) := vfs.getattr s dirid
    let dirAttributes := postOpAttr dirAttr
    let dirversion := Cookieverf3.fromAttr dirAttributes
    if args.maxcount.toNat < 128 then some (.err .nfs3errToosmall ⟨dirAttributes⟩, s)
    else
      (checkedSub args.maxcount.toNat 128).bind fun maxBytesAllowed =>
      match vfs.openDir s dirid args.cookie with
      | (.error stat, s) => some (.err stat ⟨dirAttributes⟩, s)
      | (.ok iter, s) =>
        let push (acc : BoundedEntryPlusList) (entry : DirEntryPlus H) :=
          acc.tryPush (entry.intoEntry converter)
        (fill vfs push (maxBytesAllowed + 1) s iter
          (.new args.dircount.toNat maxBytesAllowed)).map fun (result, iter, s) =>
            let res : Readdirplus3Res :=
              match result with
              | .error stat => .err stat ⟨dirAttributes⟩
              | .ok (acc, eof) =>
                let entries := acc.intoInner
                if entries.items = [] ∧ eof = false then .err .nfs3errToosmall ⟨dirAttributes⟩
                else .ok ⟨dirAttributes, dirversion, ⟨entries, eof⟩⟩
            (res, vfs.drop s iter)

theorem nfsproc3Readdir_isSome (converter : FileHandleConverter) (vfs : DirVfs σ ι H DirEntry)
    (s : σ) (xid : UInt32) (args : Readdir3Args) :
    (nfsproc3Readdir converter vfs s xid args).isSome := by
  unfold nfsproc3Readdir
  split
  · rfl
  dsimp only
  split_ifs with hverf hmatch hfits
  · rfl
  · rfl
  · rfl
  rw [checkedSub_of_le (not_lt.mp hfits), Option.bind_some]
  split
  · rfl
  · rw [Option.isSome_map]
    apply fill_isSome vfs BoundedList.room
    · intro acc entry acc' h
      exact BoundedList.room_tryPush h
    · simp only [BoundedList.room, BoundedList.new]
      omega

theorem nfsproc3Readdirplus_isSome (converter : FileHandleConverter)
    (vfs : DirVfs σ ι H (DirEntryPlus H)) (s : σ) (args : Readdirplus3Args) :
    (nfsproc3Readdirplus converter vfs s args).isSome := by
  unfold nfsproc3Readdirplus
  split
  · rfl
  dsimp only
  split_ifs with hfits
  · rfl
  rw [checkedSub_of_le (not_lt.mp hfits), Option.bind_some]
  split
  · rfl
  · rw [Option.isSome_map]
    apply fill_isSome vfs fun acc => acc.entries.room
    · intro acc entry acc' h
      exact BoundedList.room_tryPush (BoundedEntryPlusList.tryPush_entries h)
    · simp only [BoundedList.room, BoundedList.new, BoundedEntryPlusList.new]
      omega

/-- The size of a reply before any entry is in it, with the word the handler adds for the xid. -/
def readdirEmptyLen (xid : UInt32) (dirAttributes : PostOpAttr) : ℕ :=
  packedSize xid +
    packedSize (⟨dirAttributes, .fromAttr dirAttributes, ⟨⟨[]⟩, false⟩⟩ : Readdir3Resok)

/-- How an Ok reply to READDIR came about: the budget, the iterator, and the run of the loop. -/
structure ReaddirOk (converter : FileHandleConverter) (vfs : DirVfs σ ι H DirEntry) (s : σ)
    (xid : UInt32) (args : Readdir3Args) (resok : Readdir3Resok) (s' : σ) (dirid : H)
    (iter iter' : ι) (s₂ s₃ : σ) (acc : BoundedList Entry3) : Prop where
  handle : converter.fhFromNfs args.dir = .ok dirid
  fits : readdirEmptyLen xid (postOpAttr (vfs.getattr s dirid).1) ≤ args.count.toNat
  opened : vfs.openDir (vfs.getattr s dirid).2 dirid args.cookie = (.ok iter, s₂)
  filled : fill vfs BoundedList.tryPush
    (args.count.toNat - readdirEmptyLen xid (postOpAttr (vfs.getattr s dirid).1) + 1) s₂ iter
    (.new (args.count.toNat - readdirEmptyLen xid (postOpAttr (vfs.getattr s dirid).1))) =
      some (.ok (acc, resok.reply.eof), iter', s₃)
  sent : ¬ (acc.list.items = [] ∧ resok.reply.eof = false)
  attributes : resok.dirAttributes = postOpAttr (vfs.getattr s dirid).1
  verifier : resok.cookieverf = .fromAttr resok.dirAttributes
  entries : resok.reply.entries = acc.list
  dropped : s' = vfs.drop s₃ iter'

theorem nfsproc3Readdir_ok {converter : FileHandleConverter} {vfs : DirVfs σ ι H DirEntry}
    {s s' : σ} {xid : UInt32} {args : Readdir3Args} {resok : Readdir3Resok}
    (h : nfsproc3Readdir converter vfs s xid args = some (.ok resok, s')) :
    ∃ dirid iter iter' s₂ s₃ acc,
      ReaddirOk converter vfs s xid args resok s' dirid iter iter' s₂ s₃ acc := by
  unfold nfsproc3Readdir at h
  split at h
  · cases h
  rename_i dirid hdir
  dsimp only at h
  split_ifs at h with hverf hmatch hfits
  · cases h
  · cases h
  · cases h
  rw [checkedSub_of_le (not_lt.mp hfits), Option.bind_some] at h
  split at h
  · cases h
  rename_i iter s₂ hopen
  obtain ⟨⟨result, iter', s₃⟩, hfill, hreply⟩ := Option.map_eq_some_iff.mp h
  obtain ⟨hres, hdrop⟩ := Prod.mk.inj hreply
  dsimp only at hres hdrop
  split at hres
  · cases hres
  rename_i acc eof
  by_cases hempty : acc.intoInner.items = [] ∧ eof = false
  · rw [if_pos hempty] at hres
    cases hres
  · rw [if_neg hempty] at hres
    cases hres
    exact ⟨dirid, iter, iter', s₂, s₃, acc, hdir, not_lt.mp hfits, hopen, hfill, hempty, rfl, rfl,
      rfl, hdrop.symm⟩

/-- How an Ok reply to READDIRPLUS came about. -/
structure ReaddirplusOk (converter : FileHandleConverter) (vfs : DirVfs σ ι H (DirEntryPlus H))
    (s : σ) (args : Readdirplus3Args) (resok : Readdirplus3Resok) (s' : σ) (dirid : H)
    (iter iter' : ι) (s₂ s₃ : σ) (acc : BoundedEntryPlusList) : Prop where
  handle : converter.fhFromNfs args.dir = .ok dirid
  fits : 128 ≤ args.maxcount.toNat
  opened : vfs.openDir (vfs.getattr s dirid).2 dirid args.cookie = (.ok iter, s₂)
  filled : fill vfs (fun (acc : BoundedEntryPlusList) (entry : DirEntryPlus H) =>
      acc.tryPush (entry.intoEntry converter)) (args.maxcount.toNat - 128 + 1) s₂ iter
      (.new args.dircount.toNat (args.maxcount.toNat - 128)) =
    some (.ok (acc, resok.reply.eof), iter', s₃)
  sent : ¬ (acc.entries.list.items = [] ∧ resok.reply.eof = false)
  attributes : resok.dirAttributes = postOpAttr (vfs.getattr s dirid).1
  verifier : resok.cookieverf = .fromAttr resok.dirAttributes
  entries : resok.reply.entries = acc.entries.list
  dropped : s' = vfs.drop s₃ iter'

theorem nfsproc3Readdirplus_ok {converter : FileHandleConverter}
    {vfs : DirVfs σ ι H (DirEntryPlus H)} {s s' : σ} {args : Readdirplus3Args}
    {resok : Readdirplus3Resok}
    (h : nfsproc3Readdirplus converter vfs s args = some (.ok resok, s')) :
    ∃ dirid iter iter' s₂ s₃ acc,
      ReaddirplusOk converter vfs s args resok s' dirid iter iter' s₂ s₃ acc := by
  unfold nfsproc3Readdirplus at h
  split at h
  · cases h
  rename_i dirid hdir
  dsimp only at h
  split_ifs at h with hfits
  · cases h
  rw [checkedSub_of_le (not_lt.mp hfits), Option.bind_some] at h
  split at h
  · cases h
  rename_i iter s₂ hopen
  obtain ⟨⟨result, iter', s₃⟩, hfill, hreply⟩ := Option.map_eq_some_iff.mp h
  obtain ⟨hres, hdrop⟩ := Prod.mk.inj hreply
  dsimp only at hres hdrop
  split at hres
  · cases hres
  rename_i acc eof
  by_cases hempty : acc.intoInner.items = [] ∧ eof = false
  · rw [if_pos hempty] at hres
    cases hres
  · rw [if_neg hempty] at hres
    cases hres
    exact ⟨dirid, iter, iter', s₂, s₃, acc, hdir, not_lt.mp hfits, hopen, hfill, hempty, rfl, rfl,
      rfl, hdrop.symm⟩

end Handlers

end Nfs3
