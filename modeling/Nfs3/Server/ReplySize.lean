import Nfs3.Server.ReadDir

/-!
# The size of directory replies

READDIR starts from the size of its own empty reply, READDIRPLUS from a reserve of 128 bytes.
Both leave to the lists of entries what remains, and these keep their size within it.
-/
namespace Nfs3

section Loop

variable {σ ι H E B : Type}

/-- What every push preserves holds of what the loop collected. -/
theorem fill_invariant {vfs : DirVfs σ ι H E} {push : B → E → Option B} {P : B → Prop}
    (hpush : ∀ acc entry acc', P acc → push acc entry = some acc' → P acc') {fuel : ℕ} {s s' : σ}
    {iter iter' : ι} {acc acc' : B} {eof : Bool} (hacc : P acc)
    (h : fill vfs push fuel s iter acc = some (.ok (acc', eof), iter', s')) : P acc' := by
  induction fuel generalizing s iter acc with
  | zero => cases h
  | succ fuel ih =>
    unfold fill at h
    split at h
    · split at h
      · cases h
        exact hacc
      · rename_i next hnext
        exact ih (hpush acc _ next hacc hnext) h
    · cases h
      exact hacc
    · cases h

end Loop

namespace BoundedEntryPlusList

/-- What the entries of a reply count towards `dircount`. -/
def totalDircount (entries : List Entryplus3) : ℕ := (entries.map addedDircount).sum

/-- Both running sizes are those of the entries, and within their limits. -/
structure Sized (dircount maxcount : ℕ) (l : BoundedEntryPlusList) : Prop where
  entries : l.entries.Sized maxcount
  limit : l.dircount = dircount
  accumulated : l.accumulatedDircount = totalDircount l.entries.list.items
  bound : l.accumulatedDircount ≤ dircount

theorem sized_new (dircount maxcount : ℕ) : Sized dircount maxcount (new dircount maxcount) where
  entries := BoundedList.sized_new maxcount
  limit := rfl
  accumulated := rfl
  bound := Nat.zero_le _

theorem Sized.tryPush {dircount maxcount : ℕ} {l l' : BoundedEntryPlusList} {entry : Entryplus3}
    (hl : Sized dircount maxcount l) (h : l.tryPush entry = some l') :
    Sized dircount maxcount l' := by
  have hentries := tryPush_entries h
  simp only [BoundedEntryPlusList.tryPush] at h
  split_ifs at h with hfit
  obtain ⟨entries, hpush, rfl⟩ := Option.map_eq_some_iff.mp h
  have hitems : entries.list.items = l.entries.list.items ++ [entry] :=
    BoundedList.items_tryPush hpush
  have hacc := hl.accumulated
  have hlimit := hl.limit
  refine ⟨hl.entries.tryPush hpush, hl.limit, ?_, ?_⟩
  · simp only [hitems, totalDircount, List.map_append, List.sum_append, List.map_cons,
      List.map_nil, List.sum_cons, List.sum_nil]
    rw [hacc, totalDircount]
    omega
  · dsimp only
    omega

end BoundedEntryPlusList

theorem packedSize_fattr3 (attr : Fattr3) : packedSize attr = 84 := by
  rw [packedSize_struct]
  repeat rw [packedSize_prod]
  simp only [packedSize_uint32, packedSize_uint64, packedSize_enum]
  simp only [packedSize_struct, packedSize_prod, packedSize_uint32]

theorem packedSize_postOpAttr_le (attr : PostOpAttr) : packedSize attr ≤ 88 := by
  cases attr with
  | none => decide
  | some attr =>
    have hsize : packedSize (.some attr : PostOpAttr) = 4 + packedSize attr := rfl
    rw [hsize, packedSize_fattr3]

/-- A reply is its status, the directory's attributes, the verifier, the entries and the flag. -/
theorem packedSize_readdir3Res (resok : Readdir3Resok) :
    packedSize (.ok resok : Readdir3Res) =
      4 + packedSize resok.dirAttributes + 8 + packedSize resok.reply.entries + 4 := by
  have hsize : packedSize (.ok resok : Readdir3Res) =
      4 + (packedSize resok.dirAttributes + (8 + (packedSize resok.reply.entries + 4))) := rfl
  omega

theorem packedSize_readdirplus3Res (resok : Readdirplus3Resok) :
    packedSize (.ok resok : Readdirplus3Res) =
      4 + packedSize resok.dirAttributes + 8 + packedSize resok.reply.entries + 4 := by
  have hsize : packedSize (.ok resok : Readdirplus3Res) =
      4 + (packedSize resok.dirAttributes + (8 + (packedSize resok.reply.entries + 4))) := rfl
  omega

theorem readdirEmptyLen_eq (xid : UInt32) (attr : PostOpAttr) :
    readdirEmptyLen xid attr = 4 + packedSize attr + 8 + 4 + 4 := by
  have hsize : readdirEmptyLen xid attr = 4 + (packedSize attr + (8 + (4 + 4))) := rfl
  omega

section Handlers

variable {σ ι H : Type} [FileHandle H] {converter : FileHandleConverter} {s s' : σ}

theorem readdir_reply_le {vfs : DirVfs σ ι H DirEntry} {xid : UInt32} {args : Readdir3Args}
    {resok : Readdir3Resok} (h : nfsproc3Readdir converter vfs s xid args = some (.ok resok, s')) :
    packedSize (.ok resok : Readdir3Res) ≤ args.count.toNat := by
  obtain ⟨dirid, iter, iter', s₂, s₃, acc, hok⟩ := nfsproc3Readdir_ok h
  have hfits := hok.fits
  rw [← hok.attributes, readdirEmptyLen_eq] at hfits
  have hsized := fill_invariant (fun _ _ _ hacc hpush => hacc.tryPush hpush)
    (BoundedList.sized_new _) hok.filled
  rw [← hok.attributes, readdirEmptyLen_eq] at hsized
  rw [packedSize_readdir3Res, hok.entries]
  obtain hempty | hbound := hsized.bound
  · have hnil : acc.list = ⟨[]⟩ := by rw [← hempty]
    rw [hnil, packedSize_xdrList_nil]
    omega
  · omega

theorem readdirplus_reply_le {vfs : DirVfs σ ι H (DirEntryPlus H)} {args : Readdirplus3Args}
    {resok : Readdirplus3Resok}
    (h : nfsproc3Readdirplus converter vfs s args = some (.ok resok, s')) :
    packedSize (.ok resok : Readdirplus3Res) ≤ args.maxcount.toNat ∧
      BoundedEntryPlusList.totalDircount resok.reply.entries.items ≤ args.dircount.toNat := by
  obtain ⟨dirid, iter, iter', s₂, s₃, acc, hok⟩ := nfsproc3Readdirplus_ok h
  have hfits := hok.fits
  have hsized := fill_invariant
    (fun _ _ _ (hacc : BoundedEntryPlusList.Sized _ _ _) hpush => hacc.tryPush hpush)
    (BoundedEntryPlusList.sized_new _ _) hok.filled
  have hattr := packedSize_postOpAttr_le resok.dirAttributes
  rw [packedSize_readdirplus3Res, hok.entries, ← hsized.accumulated]
  refine ⟨?_, hsized.bound⟩
  obtain hempty | hbound := hsized.entries.bound
  · have hnil : acc.entries.list = ⟨[]⟩ := by rw [← hempty]
    rw [hnil, packedSize_xdrList_nil]
    omega
  · omega

/-- Whatever the file system answers, both handlers return, so that neither budget underflows,
and an Ok reply is within the limits of its request. -/
theorem directory_replies_within_limits {ι' : Type} (converter : FileHandleConverter)
    (vfs : DirVfs σ ι H DirEntry) (vfsPlus : DirVfs σ ι' H (DirEntryPlus H)) (s : σ) (xid : UInt32)
    (args : Readdir3Args) (argsPlus : Readdirplus3Args) :
    (∃ res s', nfsproc3Readdir converter vfs s xid args = some (res, s') ∧
      ∀ resok, res = .ok resok → packedSize res ≤ args.count.toNat) ∧
    (∃ res s', nfsproc3Readdirplus converter vfsPlus s argsPlus = some (res, s') ∧
      ∀ resok, res = .ok resok → packedSize res ≤ argsPlus.maxcount.toNat ∧
        (resok.reply.entries.items.map fun e =>
          4 + packedSize e.fileid + packedSize e.name + packedSize e.cookie).sum ≤
            argsPlus.dircount.toNat) := by
  constructor
  · obtain ⟨⟨res, s'⟩, h⟩ := Option.isSome_iff_exists.mp
      (nfsproc3Readdir_isSome converter vfs s xid args)
    refine ⟨res, s', h, ?_⟩
    intro resok hres
    subst hres
    exact readdir_reply_le h
  · obtain ⟨⟨res, s'⟩, h⟩ := Option.isSome_iff_exists.mp
      (nfsproc3Readdirplus_isSome converter vfsPlus s argsPlus)
    refine ⟨res, s', h, ?_⟩
    intro resok hres
    subst hres
    obtain ⟨hmax, hdir⟩ := readdirplus_reply_le h
    refine ⟨hmax, ?_⟩
    have hadded : (fun e : Entryplus3 =>
        4 + packedSize e.fileid + packedSize e.name + packedSize e.cookie) =
          BoundedEntryPlusList.addedDircount := by
      funext e
      unfold BoundedEntryPlusList.addedDircount
      omega
    rw [hadded]
    exact hdir

end Handlers

end Nfs3
