import Nfs3.Server.MemFs.Config
import Nfs3.Server.MemFs.Handles
import Nfs3.Server.MemFs.Writes

/-!
# Contents of files

The length of a file is kept three times: in the content itself and in two attributes. It is
changed when the file is made, by its creation attributes, by `setattr` and by a write that
grows the file; the three agree after every run.
-/
namespace Nfs3.Memfs

open ByteOrder (Bytes)

namespace File

structure Sized (f : File) : Prop where
  size : f.attr.size.toNat = f.content.length
  used : f.attr.used = f.attr.size

variable {f f' : File} {offset : UInt64} {data : Bytes}

theorem sized_new {name : Filename3} {id : FileHandleU64} {content : Bytes} {verf : Createverf3}
    {currentTime : Nfstime3} (h : content.length ≤ maxCapacity) :
    (new name id content verf currentTime).Sized := by
  refine ⟨?_, rfl⟩
  show (UInt64.ofNat content.length).toNat = content.length
  rw [UInt64.toNat_ofNat']
  unfold maxCapacity at h
  omega

/-- A file is cut or extended with zeroes to the size asked for. -/
theorem resize_spec {size : UInt64} (h : f.resize size = some f') :
    f'.Sized ∧ f'.content =
      f.content.take size.toNat ++ List.replicate (size.toNat - f.content.length) 0 := by
  unfold resize at h
  split_ifs at h
  cases h
  refine ⟨⟨?_, rfl⟩, rfl⟩
  simp only [List.length_append, List.length_take, List.length_replicate]
  omega

theorem sized_grown {c : Bytes} (hf : f.Sized) (hle : f.content.length ≤ c.length)
    (hlt : c.length < UInt64.size) : (f.grown c).Sized := by
  unfold grown
  split_ifs with hgrow
  · refine ⟨?_, rfl⟩
    show (UInt64.ofNat c.length).toNat = c.length
    rw [UInt64.toNat_ofNat', Nat.mod_eq_of_lt hlt]
  · refine ⟨?_, hf.used⟩
    show f.attr.size.toNat = c.length
    rw [hf.size]
    omega

/-- What a write that returns `Ok` leaves of a file. -/
structure Written (f : File) (offset : UInt64) (data : Bytes) (f' : File) : Prop where
  sized : f'.Sized
  length : f'.content.length = max f.content.length (offset.toNat + data.length)
  getElem? : ∀ k, f'.content[k]? =
    if offset.toNat ≤ k ∧ k < offset.toNat + data.length then data[k - offset.toNat]?
    else f.content[k]?

theorem write_spec (hf : f.Sized) (h : f.write offset data = some (.ok f')) :
    f.Written offset data f' := by
  let w : WriteRequest := ⟨offset, data⟩
  have hstop : w.stop = offset.toNat + data.length := rfl
  by_cases hstart : w.offset.toNat ≤ f.content.length
  · by_cases hcap : f.content.length < w.stop → w.stop ≤ maxCapacity
    · have hwrite := write_accepted hstart hcap
      rw [show f.write w.offset w.data = some (.ok f') from h] at hwrite
      obtain rfl : f' = f.grown (Overlay.apply f.content w.patch) := by
        cases hwrite
        rfl
      have hlength : (Overlay.apply f.content w.patch).length = max f.content.length w.stop :=
        Overlay.length_apply hstart
      have hold : f.content.length < UInt64.size := hf.size ▸ f.attr.size.toNat_lt
      have hbound : max f.content.length w.stop < UInt64.size := by
        unfold maxCapacity at hcap
        have hsize : UInt64.size = 2 ^ 64 := rfl
        omega
      refine ⟨sized_grown hf (by omega) (by omega), ?_, ?_⟩
      · rw [content_grown, hlength, hstop]
      · intro k
        rw [content_grown]
        exact congrFun (Overlay.getElem?_apply (p := w.patch) hstart) k
    · obtain ⟨hgrow, hover⟩ := Classical.not_imp.mp hcap
      rw [show f.write offset data = none from write_overflows hstart hgrow (by omega)] at h
      cases h
  · have hrefused : f.write offset data = some (.error .nfs3errInval) :=
      write_refused (w := w) (by omega)
    rw [hrefused] at h
    cases h

end File

namespace Entry

/-- A file stays a file, of the size asked for or as it was. -/
theorem setAttr_file {f : File} {setattr : Sattr3} {t t' : Nfstime3} {e : Entry}
    (h : (Entry.file f).setAttr setattr t t' = some e) :
    ∃ f', e = .file f' ∧ (f.Sized → f'.Sized) ∧
      f'.content = match setattr.size with
        | .some size => f.content.take size.toNat ++
            List.replicate (size.toNat - f.content.length) 0
        | .none => f.content := by
  unfold setAttr at h
  dsimp only [withAttr] at h
  split at h
  · rename_i size f₁ hsize heq
    cases heq
    obtain ⟨f', hresize, rfl⟩ := Option.map_eq_some_iff.mp h
    obtain ⟨hsized, hcontent⟩ := File.resize_spec hresize
    exact ⟨f', rfl, fun _ => hsized, by rw [hcontent, hsize]⟩
  · rename_i hother
    cases h
    refine ⟨_, rfl, fun hf => ⟨hf.size, hf.used⟩, ?_⟩
    cases hsize : setattr.size with
    | none => rfl
    | some size => exact absurd rfl (hother size _ hsize)

end Entry

namespace Fs

variable {fs fs' : Fs} {id : FileHandleU64}

/-- In every file the three lengths agree. -/
def Sized (fs : Fs) : Prop := ∀ id f, fs.get id = some (.file f) → f.Sized

theorem Shrinks.sized (h : fs.Shrinks fs') (hs : fs.Sized) : fs'.Sized := by
  intro id f' hf'
  obtain ⟨entry, hentry, hattr, hdata⟩ := h id _ hf'
  cases entry with
  | file f =>
    have hsized := hs id f hentry
    have hattr : f'.attr = f.attr := hattr
    have hcontent : f'.content = f.content := congrArg Prod.fst (Option.some.inj hdata)
    exact ⟨by rw [hattr, hcontent, hsized.size], by rw [hattr, hsized.used]⟩
  | dir dir => cases hdata

theorem Pushed.sized {parent : FileHandleU64} {entry : Entry} (h : fs.Pushed parent entry fs')
    (hentry : ∀ f, entry = .file f → f.Sized) (hs : fs.Sized) : fs'.Sized := by
  intro id f' hf'
  rcases h.file_cases hf' with ⟨heq, -⟩ | hold
  · exact hentry f' heq
  · exact hs id f' hold

end Fs

namespace MemFs

variable {env : Env} {s s' : MemFs} {id dirid : FileHandleU64} {filename : Filename3}
  {r : Except Nfsstat3 Reply}

theorem addFile_sized {attr : Sattr3} {content : Bytes} {verf : Option Createverf3}
    (hcontent : content.length ≤ maxCapacity) (hs : s.fs.Sized)
    (h : s.addFile env dirid filename attr content verf = some (r, s')) : s'.fs.Sized := by
  obtain ⟨-, -, file, hfile, hcases⟩ := addFile_cases h
  rcases hcases with ⟨e, -, hfs⟩ | ⟨existing, -, -, -, hfs⟩ | ⟨-, -, hpushed⟩
  · rw [hfs]
    exact hs
  · rw [hfs]
    exact hs
  · refine hpushed.sized ?_ hs
    rintro f rfl
    obtain ⟨f', hf', hsized, -⟩ := Entry.setAttr_file hfile
    cases hf'
    exact hsized (File.sized_new hcontent)

theorem addDir_sized (hs : s.fs.Sized) (h : s.addDir env dirid filename = some (r, s')) :
    s'.fs.Sized := by
  obtain ⟨-, -, ⟨e, -, hfs⟩ | ⟨-, hpushed⟩⟩ := addDir_cases h
  · rw [hfs]
    exact hs
  · refine hpushed.sized ?_ hs
    rintro f ⟨⟩

theorem started_sized (h : Started s) : s.fs.Sized := by
  have hadd : ∀ env (s : MemFs) entry reply s', s.fs.Sized →
      s.addConfigured env entry = some (.ok reply, s') → s'.fs.Sized := by
    intro env s entry reply s' hs hadd
    obtain ⟨dirid, hdir | hfile⟩ := addConfigured_cases hadd
    · exact addDir_sized hs hdir
    · exact addFile_sized entry.content_le hs hfile
  have hdefault : ∀ currentTime, (default currentTime).fs.Sized := by
    intro currentTime id f hf
    cases (Fs.get_new hf).2
  exact h.invariant hadd hdefault

theorem write_sized {offset : UInt64} {data : Bytes} (hs : s.fs.Sized)
    (h : s.write id offset data = some (r, s')) : s'.fs.Sized := by
  rcases write_cases h with ⟨e, -, rfl⟩ | ⟨f, f', hf, hwrite, -, rfl⟩
  · exact hs
  intro j g hg
  rw [Fs.get_insert] at hg
  split_ifs at hg with hj
  · cases hg
    exact (File.write_spec (hs id f hf) hwrite).sized
  · exact hs j g hg

theorem setattr_sized {setattr : Sattr3} (hs : s.fs.Sized)
    (h : s.setattr env id setattr = some (r, s')) : s'.fs.Sized := by
  rcases setattr_cases h with ⟨e, -, rfl⟩ | ⟨entry, entry', hentry, hset, -, rfl⟩
  · exact hs
  intro j g hg
  rw [Fs.get_insert] at hg
  split_ifs at hg with hj
  · cases hg
    cases entry with
    | file f =>
      obtain ⟨f', hf', hsized, -⟩ := Entry.setAttr_file hset
      cases hf'
      exact hsized (hs id f hentry)
    | dir dir =>
      have hkind := (Entry.sameLinks_setAttr hset).identity
      cases congrArg Prod.fst hkind
  · exact hs j g hg

theorem step_sized {call : Call} (hs : s.fs.Sized) (h : s.step call = some s') : s'.fs.Sized := by
  obtain ⟨⟨r, s₁⟩, hexec, rfl⟩ := Option.map_eq_some_iff.mp h
  obtain ⟨env, op⟩ := call
  cases op with
  | create dirid filename attr => exact addFile_sized (Nat.zero_le _) hs hexec
  | createExclusive dirid filename createverf =>
    obtain ⟨⟨r₀, s₀⟩, hadd, heq⟩ := Option.map_eq_some_iff.mp hexec
    cases heq
    exact addFile_sized (Nat.zero_le _) hs hadd
  | mkdir dirid dirname => exact addDir_sized hs hexec
  | remove dirid filename =>
    obtain ⟨r₀, fs', hremove, -, rfl⟩ := lift_eq_some hexec
    rcases Fs.remove_cases hremove with ⟨e, -, rfl⟩ | ⟨-, target, hremoved⟩
    · exact hs
    · exact hremoved.shrinks.sized hs
  | rename fromDirid fromFilename toDirid toFilename =>
    obtain ⟨r₀, fs', hrename, -, rfl⟩ := lift_eq_some hexec
    exact (Fs.rename_cases hrename).shrinks.sized hs
  | setattr id setattr => exact setattr_sized hs hexec
  | write id offset data => exact write_sized hs hexec

/-- A call that is not a write to the file or a `setattr` of it leaves its data as it is. -/
theorem step_data_kept {call : Call} {f f' : File} (h : s.step call = some s')
    (hop : call.op.updates ≠ some id) (hf : s.fs.get id = some (.file f))
    (hf' : s'.fs.get id = some (.file f')) : f'.content = f.content ∧ f'.attr = f.attr := by
  obtain ⟨⟨r, s₁⟩, hexec, rfl⟩ := Option.map_eq_some_iff.mp h
  rcases (exec_effect hexec).get hf' with ⟨-, -, hnone⟩ | ⟨entry, hentry, -, hkept⟩
  · rw [hf] at hnone
    cases hnone
  · rw [hf] at hentry
    cases hentry
    obtain ⟨hattr, hdata⟩ := hkept hop
    exact ⟨congrArg Prod.fst (Option.some.inj hdata), hattr⟩

/-- Files are arrays of bytes: their attributes tell their length, and the operations act on
the bytes of one file at a time. -/
structure ByteArrays (s : MemFs) : Prop where
  sized : ∀ id f, s.fs.get id = some (.file f) →
    f.attr.size.toNat = f.content.length ∧ f.attr.used.toNat = f.content.length
  write : ∀ id offset data reply s', s.write id offset data = some (.ok reply, s') →
    ∃ f f', s.fs.get id = some (.file f) ∧ s'.fs.get id = some (.file f') ∧
      f'.content.length = max f.content.length (offset.toNat + data.length) ∧
      (∀ k, f'.content[k]? =
        if offset.toNat ≤ k ∧ k < offset.toNat + data.length then data[k - offset.toNat]?
        else f.content[k]?) ∧
      reply.attr = some f'.attr ∧ f'.attr.size.toNat = f'.content.length ∧
      ∀ j, j ≠ id → s'.fs.get j = s.fs.get j
  setattr : ∀ env id sattr size f, s.fs.get id = some (.file f) → sattr.size = .some size →
    size.toNat ≤ maxCapacity → ∃ reply s' f', s.setattr env id sattr = some (.ok reply, s') ∧
      s'.fs.get id = some (.file f') ∧
      f'.content = f.content.take size.toNat ++
        List.replicate (size.toNat - f.content.length) 0 ∧
      ∀ j, j ≠ id → s'.fs.get j = s.fs.get j
  other : ∀ call s' id f f', s.step call = some s' → call.op.updates ≠ some id →
    s.fs.get id = some (.file f) → s'.fs.get id = some (.file f') →
    f'.content = f.content ∧ f'.attr = f.attr

theorem setattr_resizes {sattr : Sattr3} {size : UInt64} {f : File}
    (hf : s.fs.get id = some (.file f)) (hsize : sattr.size = .some size)
    (hcap : size.toNat ≤ maxCapacity) :
    ∃ reply s' f', s.setattr env id sattr = some (.ok reply, s') ∧
      s'.fs.get id = some (.file f') ∧
      f'.content = f.content.take size.toNat ++
        List.replicate (size.toNat - f.content.length) 0 ∧
      ∀ j, j ≠ id → s'.fs.get j = s.fs.get j := by
  obtain ⟨entry, hset⟩ : ∃ entry,
      (Entry.file f).setAttr sattr (env.time 0) (env.time 1) = some entry := by
    unfold Entry.setAttr
    dsimp only [Entry.withAttr]
    rw [hsize]
    dsimp only [File.resize]
    rw [if_pos hcap]
    exact ⟨_, rfl⟩
  obtain ⟨f', rfl, -, hcontent⟩ := Entry.setAttr_file hset
  rw [hsize] at hcontent
  refine ⟨⟨none, some f'.attr⟩, { s with fs := s.fs.insert id (.file f') }, f', ?_,
    Fs.get_insert_self, hcontent, fun j hj => Fs.get_insert_of_ne hj⟩
  unfold MemFs.setattr
  rw [hf]
  dsimp only
  rw [hset]
  rfl

theorem byteArrays_of_sized (hs : s.fs.Sized) : ByteArrays s where
  sized id f hf := by
    have hsized := hs id f hf
    exact ⟨hsized.size, by rw [hsized.used, hsized.size]⟩
  write id offset data reply s' h := by
    rcases write_cases h with ⟨e, hr, -⟩ | ⟨f, f', hf, hwrite, hr, rfl⟩
    · cases hr
    cases hr
    have hwritten := File.write_spec (hs id f hf) hwrite
    exact ⟨f, f', hf, Fs.get_insert_self, hwritten.length, hwritten.getElem?, rfl,
      hwritten.sized.size, fun j hj => Fs.get_insert_of_ne hj⟩
  setattr env id sattr size f hf hsize hcap := setattr_resizes hf hsize hcap
  other call s' id f f' h hop hf hf' := step_data_kept h hop hf hf'

/-- Whatever the configuration and the calls, files are arrays of bytes afterwards. -/
theorem contents_byteArrays {start : MemFs} {calls : List Call} (hstart : Started start)
    (hrun : Transition.run step start calls = some s) : ByteArrays s := by
  have hstep : ∀ (s : MemFs) call s', s.fs.Sized → True → s.step call = some s' → s'.fs.Sized :=
    fun s call s' hs _ h => step_sized hs h
  have hsized := Transition.run_invariant hstep (started_sized hstart)
    (Transition.along_of_forall fun _ _ => trivial) hrun
  exact byteArrays_of_sized hsized

/-- A file of three zeroes gets two bytes written over its end and is cut to one. -/
def sampleWrites : List Call :=
  let env : Env := ⟨.ascending, fun _ => ⟨0, 0⟩⟩
  [⟨env, .create 1 ⟨⟨[0x66]⟩⟩ { noChange with size := .some 3 }⟩, ⟨env, .write 2 2 [0x61, 0x62]⟩,
    ⟨env, .setattr 2 { noChange with size := .some 1 }⟩]

theorem contents_byteArrays_sampleWrites :
    ∃ s, Transition.run step (default ⟨0, 0⟩) sampleWrites = some s ∧ ByteArrays s := by
  have hrun : (Transition.run step (default ⟨0, 0⟩) sampleWrites).isSome := by decide
  obtain ⟨s, hs⟩ := Option.isSome_iff_exists.mp hrun
  exact ⟨s, hs, contents_byteArrays (started_default ⟨0, 0⟩) hs⟩

end MemFs

end Nfs3.Memfs
