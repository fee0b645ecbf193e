import Nfs3.Server.Signatures

/-!
# Handlers keep to the protocol

Every handler follows the protocol of requests from an empty footprint on, and its results are
sound.
-/
namespace Nfs3

open Interaction (Prog)

namespace NfsHandlers

open Footprint Signature

section Rules

variable {H I J α ε : Type} {presented : H → Prop}
  {Q : Footprint H I J → Nfs3Result α ε → Prop} {p : Footprint H I J} {fail : ε}

theorem follows_readWrite {body : VfsM H I J (Nfs3Result α ε)}
    (hfail : Q p (.err .nfs3errRofs fail))
    (hbody : body.Follows (requestProtocol I J presented) Q p.permit) :
    (readWrite fail body).Follows (requestProtocol I J presented) Q p :=
  follows_capabilities hfail hbody

variable [FileHandle H]

theorem follows_fhToId {context : RPCContext} {fh : NfsFh3}
    {body : H → VfsM H I J (Nfs3Result α ε)} (hfail : ∀ stat, Q p (.err stat fail))
    (hbody : ∀ id, context.fileHandleConverter.fhFromNfs fh = .ok id →
      (body id).Follows (requestProtocol I J presented) Q p) :
    (fhToId context fh fail body).Follows (requestProtocol I J presented) Q p := by
  unfold fhToId
  split
  · exact hfail _
  · next id hid => exact hbody id hid

/-- The start of the handlers that change a directory or an object: with a handle that cannot be
resolved or attributes that cannot be read, they fail before the change. -/
theorem follows_wcc {context : RPCContext} {fh : NfsFh3} {fhs : List NfsFh3}
    {f : H → Except Nfsstat3 WccAttr → VfsM H I J (Nfs3Result α ε)} (hfh : fh ∈ fhs)
    (hfail : ∀ p stat, p.listing.Closed → p.change = none → Q p (.err stat fail))
    (herror : ∀ id stat, f id (.error stat) = pure (.err stat fail))
    (hok : ∀ id attr, context.fileHandleConverter.fhFromNfs fh = .ok id →
      (f id (.ok (wccAttr attr))).Follows
        (requestProtocol I J (context.fileHandleConverter.Presents fhs)) Q
        (empty.permit.note (attrsOf id (.some attr)))) :
    (readWrite fail (fhToId context fh fail fun id => (getWccAttr id).bind (f id))).Follows
      (requestProtocol I J (context.fileHandleConverter.Presents fhs)) Q .empty := by
  apply follows_readWrite
  · exact hfail _ _ trivial rfl
  apply follows_fhToId
  · exact fun stat => hfail _ _ trivial rfl
  intro id hid
  apply follows_getWccAttr (.inl ⟨fh, hfh, hid⟩)
  · exact fun attr => hok id attr hid
  · intro stat
    rw [herror]
    exact hfail _ _ trivial rfl

end Rules

section Reading

variable {H : Type} (I J : Type) [FileHandle H] (context : RPCContext) (xid : UInt32)

theorem handles_getattr :
    Signature.getattr.Handles context.fileHandleConverter
      (nfsproc3Getattr context xid : _ → VfsM H I J _) := by
  intro args
  apply follows_fhToId
  · exact fun stat => sound_reading_err trivial rfl reports_nil
  intro id hid
  apply follows_getattr (.inl ⟨_, List.mem_singleton_self _, hid⟩)
  · intro attr
    refine sound_reading_ok trivial rfl (fun fh h => by cases h) ?_
    have hattrs : attrsOf id (.some attr) ⊆ [] ++ attrsOf id (.some attr) :=
      List.subset_append_right _ _
    exact reports_attrsOf (.inl hid) hattrs
  · exact fun stat => sound_reading_err trivial rfl reports_nil

theorem handles_lookup :
    Signature.lookup.Handles context.fileHandleConverter
      (nfsproc3Lookup context xid : _ → VfsM H I J _) := by
  intro args
  apply follows_fhToId
  · exact fun stat => sound_reading_err trivial rfl reports_nil
  intro dirid hdirid
  apply follows_getPostOpAttr (.inl ⟨_, List.mem_singleton_self _, hdirid⟩)
  intro dirAttributes
  apply follows_looking rfl
  · simpa [VfsCall.handles] using .inl ⟨_, List.mem_singleton_self _, hdirid⟩
  intro r
  cases r with
  | error stat =>
    exact sound_attributes_err hdirid rfl (by simp [VfsCall.attributes, empty]) trivial rfl
  | ok fid =>
    apply follows_getPostOpAttr (.inr (by simp [VfsCall.found, Except.toOption]))
    intro objAttributes
    refine sound_reading_ok trivial rfl ?_ (.append ?_ ?_)
    · simp [VfsCall.found, Except.toOption]
    · apply reports_attrsOf (.inr rfl)
      simp [VfsCall.attributes, empty]
    · apply reports_attrsOf (.inl hdirid)
      simp [VfsCall.attributes, empty]

theorem handles_read :
    Signature.read.Handles context.fileHandleConverter
      (nfsproc3Read context xid : _ → VfsM H I J _) := by
  intro args
  apply follows_fhToId
  · exact fun stat => sound_reading_err trivial rfl reports_nil
  intro id hid
  apply follows_getPostOpAttr (.inl ⟨_, List.mem_singleton_self _, hid⟩)
  intro fileAttributes
  apply follows_looking rfl
  · simpa [VfsCall.handles] using .inl ⟨_, List.mem_singleton_self _, hid⟩
  intro r
  cases r with
  | error stat =>
    exact sound_attributes_err hid rfl (by simp [VfsCall.attributes, empty]) trivial rfl
  | ok data =>
    change Prog.Follows _ _ (if data.1.length < 2 ^ 32 then pure _ else .halt) _
    split_ifs
    · exact sound_attributes_ok hid rfl rfl (by simp [VfsCall.attributes, empty]) trivial rfl
    · trivial

theorem handles_fsinfo :
    Signature.fsinfo.Handles context.fileHandleConverter
      (nfsproc3Fsinfo context xid : _ → VfsM H I J _) := by
  intro args
  apply follows_fhToId
  · exact fun stat => sound_reading_err trivial rfl reports_nil
  intro id hid
  apply follows_looking rfl
  · simpa [VfsCall.handles] using .inl ⟨_, List.mem_singleton_self _, hid⟩
  intro r
  cases r with
  | error stat => exact sound_reading_err trivial rfl reports_nil
  | ok fsinfo =>
    exact sound_attributes_ok hid rfl rfl (by simp [VfsCall.attributes, VfsCall.found, empty])
      trivial rfl

theorem handles_access :
    Signature.access.Handles context.fileHandleConverter
      (nfsproc3Access context xid : _ → VfsM H I J _) := by
  intro args
  apply follows_fhToId
  · exact fun stat => sound_reading_err trivial rfl reports_nil
  intro id hid
  apply follows_getPostOpAttr (.inl ⟨_, List.mem_singleton_self _, hid⟩)
  intro objAttributes
  apply follows_capabilities
  · exact sound_attributes_ok hid rfl rfl (by simp [empty]) trivial rfl
  · exact sound_attributes_ok hid rfl rfl (by simp [empty]) trivial rfl

theorem handles_pathconf :
    Signature.pathconf.Handles context.fileHandleConverter
      (nfsproc3Pathconf context xid : _ → VfsM H I J _) := by
  intro args
  apply follows_fhToId
  · exact fun stat => sound_reading_err trivial rfl reports_nil
  intro id hid
  apply follows_getPostOpAttr (.inl ⟨_, List.mem_singleton_self _, hid⟩)
  intro objAttributes
  exact sound_attributes_ok hid rfl rfl (by simp [empty]) trivial rfl

theorem handles_fsstat :
    Signature.fsstat.Handles context.fileHandleConverter
      (nfsproc3Fsstat context xid : _ → VfsM H I J _) := by
  intro args
  apply follows_fhToId
  · exact fun stat => sound_reading_err trivial rfl reports_nil
  intro id hid
  apply follows_getPostOpAttr (.inl ⟨_, List.mem_singleton_self _, hid⟩)
  intro objAttributes
  exact sound_attributes_ok hid rfl rfl (by simp [empty]) trivial rfl

theorem handles_readlink :
    Signature.readlink.Handles context.fileHandleConverter
      (nfsproc3Readlink context xid : _ → VfsM H I J _) := by
  intro args
  apply follows_fhToId
  · exact fun stat => sound_reading_err trivial rfl reports_nil
  intro id hid
  apply follows_getPostOpAttr (.inl ⟨_, List.mem_singleton_self _, hid⟩)
  intro symlinkAttributes
  apply follows_looking rfl
  · simpa [VfsCall.handles] using .inl ⟨_, List.mem_singleton_self _, hid⟩
  intro r
  cases r with
  | error stat =>
    exact sound_attributes_err hid rfl (by simp [VfsCall.attributes, empty]) trivial rfl
  | ok data =>
    exact sound_attributes_ok hid rfl rfl (by simp [VfsCall.attributes, empty]) trivial rfl

end Reading

section Listing

/-- The loop keeps what every entry keeps. -/
theorem follows_fill {H I J E B K : Type} {presented : H → Prop}
    {next : K → VfsM H I J (NextResult E × K)} {push : B → E → Option B}
    {Inv : Footprint H I J → K → B → Prop}
    (hnext : ∀ p iter acc, Inv p iter acc →
      (next iter).Follows (requestProtocol I J presented) (fun p r => Inv p r.2 acc ∧
        ∀ entry acc', r.1 = .ok entry → push acc entry = some acc' → Inv p r.2 acc') p)
    {fuel : ℕ} {iter : K} {acc : B} {p : Footprint H I J} (h : Inv p iter acc) :
    (fill next push fuel iter acc).Follows (requestProtocol I J presented)
      (fun p r => (∃ acc, Inv p r.2 acc) ∧
        ∀ acc eof, r.1 = .ok (acc, eof) → Inv p r.2 acc) p := by
  induction fuel generalizing iter acc p with
  | zero => trivial
  | succ fuel ih =>
    apply Prog.follows_bind.mpr
    refine (hnext p iter acc h).mono ?_
    rintro p ⟨result, iter⟩ ⟨hsame, hpush⟩
    cases result with
    | eof =>
      refine ⟨⟨acc, hsame⟩, fun acc' eof hacc => ?_⟩
      cases hacc
      exact hsame
    | err stat => exact ⟨⟨acc, hsame⟩, fun acc' eof hacc => by cases hacc⟩
    | ok entry =>
      dsimp only
      cases hentry : push acc entry with
      | none =>
        refine ⟨⟨acc, hsame⟩, fun acc' eof hacc => ?_⟩
        cases hacc
        exact hsame
      | some acc' => exact ih (hpush entry acc' rfl hentry)

variable {H : Type} (I J : Type) [FileHandle H] (context : RPCContext) (xid : UInt32)

theorem handles_readdir :
    Signature.readdir.Handles context.fileHandleConverter
      (nfsproc3Readdir context xid : _ → VfsM H I J _) := by
  intro args
  apply follows_fhToId
  · exact fun stat => sound_reading_err trivial rfl reports_nil
  intro dirid hdirid
  have hpresented := List.mem_singleton_self args.dir
  apply follows_getPostOpAttr (.inl ⟨_, hpresented, hdirid⟩)
  intro dirAttributes
  have hreports : Reports (H := H) ([] ++ attrsOf dirid dirAttributes)
      context.fileHandleConverter (attrsOf args.dir dirAttributes) :=
    reports_attrsOf (.inl hdirid) (by simp)
  dsimp only
  split_ifs with hverf hmatch hfits
  · exact sound_reading_err trivial rfl reports_nil
  · exact sound_reading_err trivial rfl reports_nil
  · exact sound_reading_err trivial rfl hreports
  rw [checkedSub_of_le (not_lt.mp hfits)]
  refine follows_reading rfl (fun _ => rfl) (fun _ => rfl) ?_ rfl fun r => ?_
  · simpa [VfsCall.handles] using .inl ⟨_, hpresented, hdirid⟩
  cases r with
  | error stat =>
    refine sound_reading_err trivial rfl (hreports.mono ?_)
    simp [VfsCall.attributes, empty]
  | ok iter =>
    let base : Footprint H I J := empty.note (attrsOf dirid dirAttributes)
    have hquiet (listing : Listing I J) (p : Footprint H I J) (hp : ∃ l, p = base.list l) :
        ((p.find []).note []).list listing = base.list listing := by
      obtain ⟨l, rfl⟩ := hp
      simp [list]
    have hnext : ∀ (p : Footprint H I J) (iter : I) (acc : BoundedList Entry3),
        p = base.list (.readdir iter) →
        (Vfs.readdirNext iter : VfsM H I J _).Follows
          (requestProtocol I J (context.fileHandleConverter.Presents [args.dir]))
          (fun p r => p = base.list (.readdir r.2) ∧ ∀ entry acc', r.1 = .ok entry →
            acc.tryPush entry = some acc' → p = base.list (.readdir r.2)) p := by
      rintro p iter acc rfl
      refine follows_reading rfl (fun _ => rfl) (fun _ => rfl) (fun _ h => by cases h) rfl ?_
      intro r
      have hphase := hquiet (.readdir r.2) _ ⟨.readdir iter, rfl⟩
      exact ⟨hphase, fun _ _ _ _ => hphase⟩
    change ((fill Vfs.readdirNext BoundedList.tryPush _ iter _).bind _).Follows _ _
      (((base.find []).note []).list (.readdir iter))
    rw [hquiet _ base ⟨.unopened, rfl⟩]
    refine Prog.follows_bind.mpr ((follows_fill hnext rfl).mono ?_)
    rintro p ⟨result, iter⟩ ⟨⟨-, rfl⟩, -⟩
    refine follows_reading rfl (fun _ => rfl) (fun _ => rfl) (fun _ h => by cases h) rfl ?_
    intro _
    change Prog.Follows _ _ _ (((Footprint.find _ []).note []).list .dropped)
    rw [hquiet _ _ ⟨.readdir iter, rfl⟩]
    cases result with
    | error stat => exact sound_reading_err trivial rfl hreports
    | ok r =>
      change Prog.Follows _ _ (if r.1.intoInner.items = [] ∧ r.2 = false then _ else _) _
      split_ifs
      · exact sound_reading_err trivial rfl hreports
      · exact sound_reading_ok trivial rfl (fun fh h => by cases h) hreports

/-- A page of READDIRPLUS under way: what its entries say is in the footprint. -/
structure Paged {H I J : Type} [FileHandle H] (converter : FileHandleConverter)
    (attrs : List (H × Fattr3)) (p : Footprint H I J) (iter : J) (acc : BoundedEntryPlusList) :
    Prop where
  listing : p.listing = .readdirplus iter
  change : p.change = none
  attrs : attrs ⊆ p.before
  granted : ∀ e ∈ acc.entries.list.items, ∀ fh ∈ handleOf e.nameHandle,
    ∃ id ∈ p.found, fh = converter.fhToNfs id
  reported : ∀ e ∈ acc.entries.list.items,
    Reports p.before converter (attrsNextTo e.nameHandle e.nameAttributes)

section Paged

variable {H I J : Type} [FileHandle H] {converter : FileHandleConverter}
  {attrs : List (H × Fattr3)} {p : Footprint H I J} {iter : J} {acc acc' : BoundedEntryPlusList}

theorem Paged.next (h : Paged converter attrs p iter acc)
    (r : (VfsCall.readdirplusNext iter : VfsCall H I J).Reply) (listing : J) :
    Paged converter attrs
      (((p.find ((VfsCall.readdirplusNext iter : VfsCall H I J).found r)).note
        ((VfsCall.readdirplusNext iter : VfsCall H I J).attributes r)).list
          (.readdirplus listing)) listing acc where
  listing := rfl
  change := by simp [h.change]
  attrs := by
    simpa [h.change] using List.subset_append_of_subset_left _ h.attrs
  granted e he fh hfh := by
    obtain ⟨id, hid, rfl⟩ := h.granted e he fh hfh
    exact ⟨id, by simp [hid], rfl⟩
  reported e he := by
    simpa [h.change] using (h.reported e he).mono (List.subset_append_left _ _)

/-- The entry that was read last may be put on the page. -/
theorem Paged.push {entry : DirEntryPlus H} (h : Paged converter attrs p iter acc)
    (hfound : ∀ id, entry.nameHandle = some id → id ∈ p.found)
    (hbefore : ∀ id attr, entry.nameHandle = some id → entry.nameAttributes = some attr →
      (id, attr) ∈ p.before)
    (hpush : acc.tryPush (entry.intoEntry converter) = some acc') :
    Paged converter attrs p iter acc' := by
  have hitems := BoundedList.items_tryPush (BoundedEntryPlusList.tryPush_entries hpush)
  obtain ⟨fileid, name, cookie, nameAttributes, nameHandle⟩ := entry
  refine ⟨h.listing, h.change, h.attrs, fun e he => ?_, fun e he => ?_⟩
  · rw [hitems] at he
    rcases List.mem_append.mp he with he | he
    · exact h.granted e he
    · rw [List.mem_singleton.mp he]
      intro fh hfh
      cases nameHandle with
      | none => cases hfh
      | some id => exact ⟨id, hfound id rfl, List.mem_singleton.mp hfh⟩
  · rw [hitems] at he
    rcases List.mem_append.mp he with he | he
    · exact h.reported e he
    · rw [List.mem_singleton.mp he]
      intro e he
      cases nameHandle with
      | none => cases he
      | some id =>
        cases nameAttributes with
        | none => cases he
        | some attr =>
          obtain rfl := List.mem_singleton.mp he
          exact ⟨id, .inr rfl, hbefore id attr rfl rfl⟩

end Paged

theorem handles_readdirplus :
    Signature.readdirplus.Handles context.fileHandleConverter
      (nfsproc3Readdirplus context xid : _ → VfsM H I J _) := by
  intro args
  apply follows_fhToId
  · exact fun stat => sound_reading_err trivial rfl reports_nil
  intro dirid hdirid
  have hpresented := List.mem_singleton_self args.dir
  apply follows_getPostOpAttr (.inl ⟨_, hpresented, hdirid⟩)
  intro dirAttributes
  have hreports (l : List (H × Fattr3)) (hl : attrsOf dirid dirAttributes ⊆ l) :
      Reports l context.fileHandleConverter (attrsOf args.dir dirAttributes) :=
    reports_attrsOf (.inl hdirid) hl
  dsimp only
  split_ifs with hfits
  · exact sound_reading_err trivial rfl (hreports _ (by simp [empty]))
  rw [checkedSub_of_le (not_lt.mp hfits)]
  refine follows_reading rfl (fun _ => rfl) (fun _ => rfl) ?_ rfl fun r => ?_
  · simpa [VfsCall.handles] using .inl ⟨_, hpresented, hdirid⟩
  cases r with
  | error stat =>
    exact sound_reading_err trivial rfl (hreports _ (by simp [VfsCall.attributes, empty]))
  | ok iter =>
    let push (acc : BoundedEntryPlusList) (entry : DirEntryPlus H) :=
      acc.tryPush (entry.intoEntry context.fileHandleConverter)
    have hnext : ∀ (p : Footprint H I J) (iter : J) (acc : BoundedEntryPlusList),
        Paged context.fileHandleConverter (attrsOf dirid dirAttributes) p iter acc →
        (Vfs.readdirplusNext iter : VfsM H I J _).Follows
          (requestProtocol I J (context.fileHandleConverter.Presents [args.dir]))
          (fun p r => Paged context.fileHandleConverter (attrsOf dirid dirAttributes) p r.2 acc ∧
            ∀ entry acc', r.1 = .ok entry → push acc entry = some acc' →
              Paged context.fileHandleConverter (attrsOf dirid dirAttributes) p r.2 acc') p := by
      intro p iter acc hp
      refine follows_reading rfl (fun _ => rfl) (fun _ => rfl) (fun _ h => by cases h)
        hp.listing ?_
      rintro ⟨result, iter'⟩
      have hsame := hp.next (result, iter') iter'
      refine ⟨hsame, ?_⟩
      rintro entry acc' rfl hpush
      refine hsame.push ?_ ?_ hpush
      · intro id hid
        simp [VfsCall.found, hid]
      · intro id attr hid hattr
        simp [VfsCall.attributes, hp.change, hid, hattr, Nfs3Option.ofOption, attrsOf]
    change ((fill Vfs.readdirplusNext push _ iter _).bind _).Follows _ _ _
    have hstart : Paged context.fileHandleConverter (attrsOf dirid dirAttributes)
        ((((empty.note (attrsOf dirid dirAttributes)).find []).note []).list (.readdirplus iter) :
          Footprint H I J) iter
        (BoundedEntryPlusList.new args.dircount.toNat (args.maxcount.toNat - 128)) := by
      refine ⟨rfl, rfl, ?_, ?_, ?_⟩
      · simp [empty]
      · intro e he
        cases he
      · intro e he
        cases he
    refine Prog.follows_bind.mpr ((follows_fill hnext hstart).mono ?_)
    rintro p ⟨result, iter'⟩ ⟨⟨acc, hp⟩, hresult⟩
    refine follows_reading rfl (fun _ => rfl) (fun _ => rfl) (fun _ h => by cases h)
      hp.listing ?_
    intro _
    have hquiet : ((p.find []).note []).list .dropped = p.list .dropped := by simp
    change Prog.Follows _ _ _ (((p.find []).note []).list .dropped)
    rw [hquiet]
    cases result with
    | error stat => exact sound_reading_err trivial hp.change (hreports _ hp.attrs)
    | ok r =>
      change Prog.Follows _ _ (if r.1.intoInner.items = [] ∧ r.2 = false then _ else _) _
      split_ifs
      · exact sound_reading_err trivial hp.change (hreports _ hp.attrs)
      · have hpage := hresult r.1 r.2 rfl
        refine sound_reading_ok trivial hp.change ?_ (.append (hreports _ hp.attrs) ?_)
        · intro fh hfh
          obtain ⟨e, he, hfh⟩ := List.mem_flatMap.mp hfh
          exact hpage.granted e he fh hfh
        · intro e he
          obtain ⟨entry, hentry, he⟩ := List.mem_flatMap.mp he
          exact hpage.reported entry hentry e he

end Listing

section Creating

variable {H I J : Type} {presented : H → Prop} {dirid : H} {name : Filename3} {how : Createhow3}
  {Q : Footprint H I J → Create3Res → Prop} {p : Footprint H I J}

/-- The call that creates the object, with the attributes that come with it. -/
theorem follows_createObject {f : Except Nfsstat3 H × PostOpAttr → VfsM H I J Create3Res}
    (hdirid : presented dirid ∨ dirid ∈ p.found) (hwritable : p.writable = true)
    (hchange : p.change = none)
    (hok : ∀ fid attrs, (f (.ok fid, attrs)).Follows (requestProtocol I J presented) Q
      (((p.finish (.ok ())).find [fid]).note (attrsOf fid attrs)))
    (herror : ∀ stat, (f (.error stat, .none)).Follows (requestProtocol I J presented) Q
      (((p.finish (.error stat)).find []).note [])) :
    ((createObject dirid name how).bind f).Follows (requestProtocol I J presented) Q p := by
  have hids : ∀ id ∈ [dirid], presented id ∨ id ∈ p.found := by simpa using hdirid
  cases how with
  | exclusive verf =>
    refine follows_changing rfl hids hwritable hchange fun r outcome houtcome => ?_
    cases houtcome
    cases r with
    | ok fid => exact hok fid .none
    | error stat => exact herror stat
  | unchecked attr =>
    refine follows_changing rfl hids hwritable hchange fun r outcome houtcome => ?_
    cases houtcome
    cases r with
    | ok created => exact hok created.1 (.some created.2)
    | error stat => exact herror stat
  | guarded attr =>
    refine follows_changing rfl hids hwritable hchange fun r outcome houtcome => ?_
    cases houtcome
    cases r with
    | ok created => exact hok created.1 (.some created.2)
    | error stat => exact herror stat

/-- Whether the name is taken is looked at before the object is created. -/
theorem follows_alreadyExists {f : Bool → VfsM H I J Create3Res}
    (hdirid : presented dirid ∨ dirid ∈ p.found)
    (hf : ∀ ids found, (f found).Follows (requestProtocol I J presented) Q (p.find ids)) :
    ((alreadyExists dirid name how).bind f).Follows (requestProtocol I J presented) Q p := by
  cases how with
  | exclusive verf =>
    have h := hf [] false
    rw [Footprint.find_nil] at h
    exact h
  | unchecked attr =>
    have h := hf [] false
    rw [Footprint.find_nil] at h
    exact h
  | guarded attr =>
    have hids : ∀ id ∈ [dirid], presented id ∨ id ∈ p.found := by simpa using hdirid
    refine follows_looking rfl hids fun r => ?_
    cases r with
    | ok fid =>
      change (f true).Follows _ Q ((p.find [fid]).note [])
      rw [Footprint.note_nil]
      exact hf [fid] true
    | error stat =>
      change (f false).Follows _ Q ((p.find []).note [])
      rw [Footprint.note_nil]
      exact hf [] false

end Creating

section Changing

variable {H : Type} (I J : Type) [FileHandle H] (context : RPCContext) (xid : UInt32)

theorem handles_write :
    Signature.write.Handles context.fileHandleConverter
      (nfsproc3Write context xid : _ → VfsM H I J _) := by
  intro args
  have hempty (p : Footprint H I J) :
      ∀ e ∈ [(args.file, emptyWcc)], p.Brackets context.fileHandleConverter e.1 e.2 :=
    List.forall_mem_singleton.mpr brackets_none
  apply follows_readWrite
  · exact sound_changing_err trivial (hempty _) ⟨_, rfl⟩
  split_ifs
  · exact sound_changing_err trivial (hempty _) ⟨_, rfl⟩
  apply follows_fhToId
  · exact fun stat => sound_changing_err trivial (hempty _) ⟨_, rfl⟩
  intro id hid
  have hpresented := List.mem_singleton_self args.file
  apply follows_getWccAttr (.inl ⟨_, hpresented, hid⟩)
  · intro attr
    refine follows_changing rfl ?_ rfl rfl ?_
    · simpa [VfsCall.handles] using .inl ⟨_, hpresented, hid⟩
    intro r outcome houtcome
    cases r with
    | ok fattr =>
      cases houtcome
      refine sound_wcc_ok hid rfl rfl rfl ?_ ?_ trivial rfl
      · simp [VfsCall.attributes, empty, attrsOf]
      · simp [VfsCall.attributes, empty, attrsOf, latest]
    | error stat =>
      cases houtcome
      refine sound_wcc_err hid rfl ?_ ?_ trivial rfl
      · simp [VfsCall.attributes, empty, attrsOf]
      · simp [attrsOf]
  · intro stat
    refine follows_changing rfl ?_ rfl rfl ?_
    · simpa [VfsCall.handles] using .inl ⟨_, hpresented, hid⟩
    intro r outcome houtcome
    cases r with
    | ok fattr =>
      cases houtcome
      refine sound_changing_ok trivial (fun fh h => by cases h) reports_nil ?_ rfl
      refine List.forall_mem_singleton.mpr (brackets_after hid ?_)
      simp [VfsCall.attributes, empty, attrsOf, latest]
    | error stat =>
      cases houtcome
      exact sound_changing_err trivial (hempty _) rfl

theorem handles_setattr :
    Signature.setattr.Handles context.fileHandleConverter
      (nfsproc3Setattr context xid : _ → VfsM H I J _) := by
  intro args
  have hpresented := List.mem_singleton_self args.object
  apply follows_wcc hpresented
  · exact fun p stat => sound_refused rfl
  · exact fun _ _ => rfl
  intro id attr hid
  -- the same call with and without a guard
  have happly : ∀ f : Except Nfsstat3 Fattr3 → VfsM H I J Setattr3Res,
      (∀ fattr, f (.ok fattr) = pure (.ok ⟨⟨.some (wccAttr attr), .some fattr⟩⟩)) →
      (∀ stat, f (.error stat) = pure (.err stat ⟨⟨.some (wccAttr attr), .none⟩⟩)) →
      (Prog.ask (.setattr id args.newAttributes) f).Follows
        (requestProtocol I J (context.fileHandleConverter.Presents [args.object]))
        (fun p r => Signature.setattr.Sound context.fileHandleConverter args r p)
        (empty.permit.note (attrsOf id (.some attr))) := by
    intro f hok herror
    refine follows_changing rfl ?_ rfl rfl ?_
    · simpa [VfsCall.handles] using .inl ⟨_, hpresented, hid⟩
    intro r outcome houtcome
    cases houtcome
    cases r with
    | ok fattr =>
      rw [hok]
      refine sound_wcc_ok hid rfl rfl rfl ?_ ?_ trivial rfl
      · simp [VfsCall.attributes, empty, attrsOf]
      · simp [VfsCall.attributes, empty, attrsOf, latest]
    | error stat =>
      rw [herror]
      refine sound_wcc_err hid rfl ?_ ?_ trivial rfl
      · simp [VfsCall.attributes, empty, attrsOf]
      · simp [attrsOf]
  dsimp only
  split
  · exact happly _ (fun _ => rfl) fun _ => rfl
  split_ifs
  · refine sound_wcc_err hid rfl ?_ ?_ trivial ⟨_, rfl⟩
    · simp [empty, attrsOf]
    · simp [attrsOf]
  · exact happly _ (fun _ => rfl) fun _ => rfl

theorem handles_remove :
    Signature.remove.Handles context.fileHandleConverter
      (nfsproc3Remove context xid : _ → VfsM H I J _) := by
  intro args
  have hpresented := List.mem_singleton_self args.object.dir
  apply follows_wcc hpresented
  · exact fun p stat => sound_refused rfl
  · exact fun _ _ => rfl
  intro dirid attr hdirid
  refine follows_changing rfl ?_ rfl rfl ?_
  · simpa [VfsCall.handles] using .inl ⟨_, hpresented, hdirid⟩
  intro r outcome houtcome
  cases houtcome
  cases r with
  | ok _ =>
    apply follows_getPostOpAttr (.inl ⟨_, hpresented, hdirid⟩)
    intro after
    exact sound_noted_ok hdirid rfl (by simp [empty, attrsOf]) trivial (fun fh h => by cases h)
      reports_nil rfl
  | error stat =>
    apply follows_getPostOpAttr (.inl ⟨_, hpresented, hdirid⟩)
    intro after
    exact sound_noted_err hdirid rfl (by simp [empty, attrsOf]) trivial rfl

theorem handles_mkdir :
    Signature.mkdir.Handles context.fileHandleConverter
      (nfsproc3Mkdir context xid : _ → VfsM H I J _) := by
  intro args
  have hpresented := List.mem_singleton_self args.where_.dir
  apply follows_wcc hpresented
  · exact fun p stat => sound_refused rfl
  · exact fun _ _ => rfl
  intro dirid attr hdirid
  refine follows_changing rfl ?_ rfl rfl ?_
  · simpa [VfsCall.handles] using .inl ⟨_, hpresented, hdirid⟩
  intro r outcome houtcome
  cases houtcome
  cases r with
  | ok created =>
    apply follows_getPostOpAttr (.inl ⟨_, hpresented, hdirid⟩)
    intro after
    refine sound_noted_ok hdirid rfl (by simp [empty, attrsOf]) trivial ?_ ?_ rfl
    · simp [handleOf, VfsCall.found, Except.toOption]
    · apply reports_attrsNextTo rfl
      simp [VfsCall.attributes, empty, attrsOf]
  | error stat =>
    apply follows_getPostOpAttr (.inl ⟨_, hpresented, hdirid⟩)
    intro after
    exact sound_noted_err hdirid rfl (by simp [empty, attrsOf]) trivial rfl

theorem handles_symlink :
    Signature.symlink.Handles context.fileHandleConverter
      (nfsproc3Symlink context xid : _ → VfsM H I J _) := by
  intro args
  have hpresented := List.mem_singleton_self args.where_.dir
  apply follows_wcc hpresented
  · exact fun p stat => sound_refused rfl
  · exact fun _ _ => rfl
  intro dirid attr hdirid
  refine follows_changing rfl ?_ rfl rfl ?_
  · simpa [VfsCall.handles] using .inl ⟨_, hpresented, hdirid⟩
  intro r outcome houtcome
  cases houtcome
  cases r with
  | ok created =>
    apply follows_getPostOpAttr (.inl ⟨_, hpresented, hdirid⟩)
    intro after
    refine sound_noted_ok hdirid rfl (by simp [empty, attrsOf]) trivial ?_ ?_ rfl
    · simp [handleOf, VfsCall.found, Except.toOption]
    · apply reports_attrsNextTo rfl
      simp [VfsCall.attributes, empty, attrsOf]
  | error stat =>
    apply follows_getPostOpAttr (.inl ⟨_, hpresented, hdirid⟩)
    intro after
    exact sound_noted_err hdirid rfl (by simp [empty, attrsOf]) trivial rfl

theorem handles_rename :
    Signature.rename.Handles context.fileHandleConverter
      (nfsproc3Rename context xid : _ → VfsM H I J _) := by
  intro args
  have hempty (p : Footprint H I J) : ∀ e ∈ [(args.from_.dir, emptyWcc), (args.to_.dir, emptyWcc)],
      p.Brackets context.fileHandleConverter e.1 e.2 := by
    rw [List.forall_mem_cons]
    exact ⟨brackets_none, List.forall_mem_singleton.mpr brackets_none⟩
  have hfrom : args.from_.dir ∈ [args.from_.dir, args.to_.dir] := by simp
  have hto : args.to_.dir ∈ [args.from_.dir, args.to_.dir] := by simp
  apply follows_readWrite
  · exact sound_changing_err trivial (hempty _) ⟨_, rfl⟩
  apply follows_fhToId
  · exact fun stat => sound_changing_err trivial (hempty _) ⟨_, rfl⟩
  intro fromDirid hfromDirid
  apply follows_fhToId
  · exact fun stat => sound_changing_err trivial (hempty _) ⟨_, rfl⟩
  intro toDirid htoDirid
  apply follows_getWccAttr (.inl ⟨_, hfrom, hfromDirid⟩)
  swap
  · exact fun stat => sound_changing_err trivial (hempty _) ⟨_, rfl⟩
  intro fromAttr
  apply follows_getWccAttr (.inl ⟨_, hto, htoDirid⟩)
  swap
  · exact fun stat => sound_changing_err trivial (hempty _) ⟨_, rfl⟩
  intro toAttr
  refine follows_changing rfl ?_ rfl rfl ?_
  · intro id hid
    rcases List.mem_pair.mp hid with rfl | rfl
    · exact .inl ⟨_, hfrom, hfromDirid⟩
    · exact .inl ⟨_, hto, htoDirid⟩
  intro r outcome houtcome
  cases houtcome
  apply follows_getPostOpAttr (.inl ⟨_, hfrom, hfromDirid⟩)
  intro postFrom
  apply follows_getPostOpAttr (.inl ⟨_, hto, htoDirid⟩)
  intro postTo
  have hwcc (outcome : Except Nfsstat3 Unit) :
      ∀ e ∈ [(args.from_.dir, (⟨.some (wccAttr fromAttr), postFrom⟩ : WccData)),
          (args.to_.dir, (⟨.some (wccAttr toAttr), postTo⟩ : WccData))],
        (((((((empty.permit.note (attrsOf fromDirid (.some fromAttr))).note
          (attrsOf toDirid (.some toAttr))).finish outcome).find []).note []).note
            (attrsOf fromDirid postFrom)).note (attrsOf toDirid postTo) :
              Footprint H I J).Brackets context.fileHandleConverter e.1 e.2 := by
    rw [List.forall_mem_cons, List.forall_mem_singleton]
    constructor
    · apply Brackets.note
      exact brackets_note hfromDirid (by simp [empty, attrsOf])
    · exact brackets_note htoDirid (by simp [empty, attrsOf])
  cases r with
  | ok _ =>
    exact sound_changing_ok trivial (fun fh h => by cases h) reports_nil (hwcc _) rfl
  | error stat => exact sound_changing_err trivial (hwcc _) rfl

theorem handles_create :
    Signature.create.Handles context.fileHandleConverter
      (nfsproc3Create context xid : _ → VfsM H I J _) := by
  intro args
  have hpresented := List.mem_singleton_self args.where_.dir
  apply follows_wcc hpresented
  · exact fun p stat => sound_refused rfl
  · exact fun _ _ => rfl
  intro dirid attr hdirid
  apply follows_alreadyExists (.inl ⟨_, hpresented, hdirid⟩)
  intro ids found
  split_ifs
  · apply follows_getPostOpAttr (.inl ⟨_, hpresented, hdirid⟩)
    intro after
    exact sound_noted_err hdirid rfl (by simp [empty, attrsOf]) trivial ⟨_, rfl⟩
  apply follows_createObject (.inl ⟨_, hpresented, hdirid⟩) rfl rfl
  · intro fid attrs
    apply follows_getPostOpAttr (.inl ⟨_, hpresented, hdirid⟩)
    intro after
    refine sound_noted_ok hdirid rfl (by simp [empty, attrsOf]) trivial ?_ ?_ rfl
    · intro fh hfh
      exact ⟨fid, by simp, List.mem_singleton.mp hfh⟩
    · apply reports_attrsNextTo rfl
      simp [empty]
  · intro stat
    apply follows_getPostOpAttr (.inl ⟨_, hpresented, hdirid⟩)
    intro after
    exact sound_noted_err hdirid rfl (by simp [empty, attrsOf]) trivial rfl

end Changing

end NfsHandlers

end Nfs3
