import Nfs3.Server.NfsHandlers
import Nfs3.Server.ReplySize

/-!
# The verifier of READDIR

A reply carries the time of the last modification of the directory as eight bytes, a request
brings them back. Eight zero bytes in a request say that there is no verifier yet, which is
also what the time zero looks like.
-/
namespace Nfs3

open ByteOrder (toBe ofBe_toBe)
open Interaction (Prog)

namespace Cookieverf3

theorem ofUInt64_injective : Function.Injective ofUInt64 := by
  intro m n h
  have hlist : toBe 8 m.toNat = toBe 8 n.toNat := by
    simpa [ofUInt64] using h
  have hnat := congrArg ByteOrder.ofBe hlist
  rw [ofBe_toBe 8 _ (lt_of_lt_of_le m.toNat_lt (by norm_num)),
    ofBe_toBe 8 _ (lt_of_lt_of_le n.toNat_lt (by norm_num))] at hnat
  exact UInt64.toNat_inj.mp hnat

theorem toUInt64_shiftLeft_eq_zero {s : UInt32} : s.toUInt64 <<< 32 = 0 ↔ s = 0 := by
  have hshift : (s.toUInt64 <<< 32).toNat = s.toNat * 2 ^ 32 := by
    have hlt := s.toNat_lt
    rw [UInt64.toNat_shiftLeft, show (32 : UInt64).toNat % 64 = 32 from rfl, Nat.shiftLeft_eq,
      UInt32.toNat_toUInt64, Nat.mod_eq_of_lt]
    omega
  rw [← UInt64.toNat_inj, hshift, ← UInt32.toNat_inj]
  simp

theorem toUInt64_eq_zero {n : UInt32} : n.toUInt64 = 0 ↔ n = 0 := by
  rw [← UInt64.toNat_inj, UInt32.toNat_toUInt64, ← UInt32.toNat_inj]
  rfl

theorem isNone_fromAttr (attr : PostOpAttr) :
    (fromAttr attr).isNone ↔ ∃ a, attr = .some a ∧ a.mtime = ⟨0, 0⟩ := by
  cases attr with
  | none =>
    constructor
    · intro h
      have heq := ofUInt64_injective (of_decide_eq_true h)
      exact absurd heq (by decide)
    · rintro ⟨a, ha, -⟩
      cases ha
  | some a =>
    have hzero : (fromAttr (.some a)).isNone ↔ a.mtime.seconds = 0 ∧ a.mtime.nseconds = 0 := by
      rw [isNone, decide_eq_true_iff, fromAttr, noneCookieVerf, ofUInt64_injective.eq_iff,
        UInt64.or_eq_zero_iff, toUInt64_shiftLeft_eq_zero, toUInt64_eq_zero]
    rw [hzero]
    constructor
    · rintro ⟨hs, hn⟩
      have heta : a.mtime = ⟨a.mtime.seconds, a.mtime.nseconds⟩ := rfl
      exact ⟨a, rfl, by rw [heta, hs, hn]⟩
    · rintro ⟨a', ha, hm⟩
      cases ha
      simp [hm]

end Cookieverf3

namespace NfsHandlers

variable {H I J : Type} [FileHandle H]

/-- The file system is asked for the attributes only, and then the request is refused as one
with a bad cookie. -/
def RejectsVerifier (context : RPCContext) (xid : UInt32) (args : Readdir3Args) (dirid : H)
    (attr : Except Nfsstat3 Fattr3) : Prop :=
  ∃ fail, Prog.Yields (nfsproc3Readdir context xid args : VfsM H I J Readdir3Res)
    [⟨.getattr dirid, attr⟩] (.err .nfs3errBadCookie fail)

/-- The checks before the file system is asked for entries, as one case distinction. -/
theorem rejectsVerifier_iff {context : RPCContext} {xid : UInt32} {args : Readdir3Args} {dirid : H}
    (hid : context.fileHandleConverter.fhFromNfs args.dir = .ok dirid)
    (attr : Except Nfsstat3 Fattr3) :
    RejectsVerifier (I := I) (J := J) context xid args dirid attr ↔
      (args.cookieverf.isNone ∧ args.cookie ≠ 0) ∨
        (¬args.cookieverf.isNone ∧
          args.cookieverf ≠ Cookieverf3.fromAttr (nfsOptionFromResult attr)) := by
  unfold RejectsVerifier nfsproc3Readdir fhToId
  rw [hid]
  constructor
  · rintro ⟨fail, hyields⟩
    cases hyields with
    | ask hrest =>
      by_contra hpass
      obtain ⟨hnone, hmatch⟩ := not_or.mp hpass
      change Prog.Yields (ite _ _ _) _ _ at hrest
      rw [if_neg hnone, if_neg hmatch] at hrest
      dsimp only at hrest
      split_ifs at hrest
      · cases hrest
      · split at hrest
        · cases hrest
        · cases hrest
  · intro h
    refine ⟨⟨.none⟩, .ask ?_⟩
    change Prog.Yields (ite _ _ _) _ _
    rcases h with hnone | hmatch
    · rw [if_pos hnone]
      exact .ret _
    · rw [if_neg (fun hnone => hmatch.1 hnone.1), if_pos hmatch]
      exact .ret _

theorem cookieverf_of_yields {context : RPCContext} {xid : UInt32} {args : Readdir3Args} {dirid : H}
    {attr : Except Nfsstat3 Fattr3} {rest : Prog.History (VfsCall H I J) VfsCall.Reply}
    {resok : Readdir3Resok}
    (hyields : Prog.Yields (nfsproc3Readdir context xid args : VfsM H I J Readdir3Res)
      (⟨.getattr dirid, attr⟩ :: rest) (.ok resok)) :
    context.fileHandleConverter.fhFromNfs args.dir = .ok dirid ∧
      resok.cookieverf = Cookieverf3.fromAttr (nfsOptionFromResult attr) := by
  unfold nfsproc3Readdir fhToId at hyields
  cases hid : context.fileHandleConverter.fhFromNfs (H := H) args.dir with
  | error stat =>
    rw [hid] at hyields
    cases hyields
  | ok id =>
    rw [hid] at hyields
    cases hyields with
    | ask hrest =>
      refine ⟨rfl, ?_⟩
      have hmeets := Prog.Meets.ends (P := fun _ => True) (Q := fun res : Readdir3Res =>
        ∀ resok, res = .ok resok →
          resok.cookieverf = Cookieverf3.fromAttr (nfsOptionFromResult attr)) ?_ hrest.ends
      · exact hmeets resok rfl
      have hfail : ∀ (stat : Nfsstat3) (fail : Readdir3Resfail) (resok : Readdir3Resok),
          (Nfs3Result.err stat fail : Readdir3Res) = .ok resok →
            resok.cookieverf = Cookieverf3.fromAttr (nfsOptionFromResult attr) := by
        intro stat fail resok heq
        cases heq
      change Prog.Meets _ _ (ite _ _ _)
      split_ifs
      · exact hfail _ _
      · exact hfail _ _
      dsimp only
      split_ifs
      · exact hfail _ _
      · split
        · trivial
        · refine ⟨trivial, fun opened => ?_⟩
          cases opened with
          | error stat => exact hfail _ _
          | ok iter =>
            change Prog.Meets _ _ (Prog.bind (fill Vfs.readdirNext _ _ iter _) _)
            refine Prog.meets_bind.mpr (Prog.Meets.of_forall ?_)
            rintro ⟨result, iter⟩
            refine ⟨trivial, fun _ => ?_⟩
            cases result with
            | error stat => exact hfail _ _
            | ok filled =>
              change Prog.Meets _ _ (ite _ _ _)
              split_ifs
              · exact hfail _ _
              · rintro resok ⟨⟩
                rfl

/-- A request that brings back the verifier of an `Ok` reply, the attributes being still the
same, gets past the check of the verifier if and only if the reported time is not zero. -/
theorem verifier_honoured_iff {context : RPCContext} {xid : UInt32} {args : Readdir3Args}
    {dirid : H} {attr : Except Nfsstat3 Fattr3}
    {rest : Prog.History (VfsCall H I J) VfsCall.Reply} {resok : Readdir3Resok}
    (hyields : Prog.Yields (nfsproc3Readdir context xid args : VfsM H I J Readdir3Res)
      (⟨.getattr dirid, attr⟩ :: rest) (.ok resok))
    (xid' : UInt32) {args' : Readdir3Args} (hdir : args'.dir = args.dir)
    (hverf : args'.cookieverf = resok.cookieverf) (hcookie : args'.cookie ≠ 0) :
    ¬RejectsVerifier (I := I) (J := J) context xid' args' dirid attr ↔
      ∀ a, attr = .ok a → a.mtime ≠ ⟨0, 0⟩ := by
  obtain ⟨hid, hissued⟩ := cookieverf_of_yields hyields
  rw [← hdir] at hid
  rw [rejectsVerifier_iff hid, hverf, hissued, Cookieverf3.isNone_fromAttr]
  constructor
  · rintro hpass a rfl hzero
    exact hpass (Or.inl ⟨⟨a, rfl, hzero⟩, hcookie⟩)
  · rintro hnonzero (⟨⟨a, ha, hzero⟩, -⟩ | ⟨-, hne⟩)
    · cases attr with
      | error stat => cases ha
      | ok a' =>
        cases ha
        exact hnonzero a rfl hzero
    · exact hne rfl

def sampleContext : RPCContext where
  localPort := 0
  clientAddr := ""
  auth := ⟨0, ⟨[]⟩, 0, 0, []⟩
  mountSignal := false
  exportName := "/"
  fileHandleConverter := ⟨0⟩

/-- The attributes of the root directory, last modified at the given time. -/
def sampleAttr (mtime : Nfstime3) : Fattr3 :=
  ⟨.nf3dir, 0o755, 2, 0, 0, 0, 0, ⟨0, 0⟩, 0, 1, ⟨0, 0⟩, mtime, ⟨0, 0⟩⟩

def sampleArgs (cookie : Cookie3) (mtime : Nfstime3) : Readdir3Args where
  dir := sampleContext.fileHandleConverter.fhToNfs (1 : FileHandleU64)
  cookie
  cookieverf := if cookie = 0 then .noneCookieVerf else .fromAttr (.some (sampleAttr mtime))
  count := 1000

def sampleReply (mtime : Nfstime3) : Readdir3Resok :=
  ⟨.some (sampleAttr mtime), .fromAttr (.some (sampleAttr mtime)), ⟨⟨[]⟩, true⟩⟩

theorem yields_empty {context : RPCContext} {xid : UInt32} {args : Readdir3Args} {dirid : H}
    (attr : Fattr3) (iter : I) (hid : context.fileHandleConverter.fhFromNfs args.dir = .ok dirid)
    (hverf : args.cookieverf.isNone) (hcookie : args.cookie = 0)
    (hfits : readdirEmptyLen xid (.some attr) ≤ args.count.toNat) :
    Prog.Yields (nfsproc3Readdir context xid args : VfsM H I J Readdir3Res)
      [⟨.getattr dirid, .ok attr⟩, ⟨.readdir dirid args.cookie, .ok iter⟩,
        ⟨.readdirNext iter, (.eof, iter)⟩, ⟨.readdirDrop iter, ()⟩]
      (.ok ⟨.some attr, .fromAttr (.some attr), ⟨⟨[]⟩, true⟩⟩) := by
  unfold readdirEmptyLen at hfits
  unfold nfsproc3Readdir fhToId
  rw [hid]
  refine .ask ?_
  change Prog.Yields (ite _ _ _) _ _
  rw [if_neg (fun h => h.2 hcookie), if_neg (fun h => h.1 hverf)]
  dsimp only [nfsOptionFromResult]
  rw [if_neg (not_lt.mpr hfits), checkedSub_of_le hfits]
  exact .ask (.ask (.ask (.ret _)))

theorem sampleReply_yields (mtime : Nfstime3) :
    Prog.Yields (nfsproc3Readdir sampleContext 7 (sampleArgs 0 mtime) :
        VfsM FileHandleU64 Unit Unit Readdir3Res)
      [⟨.getattr 1, .ok (sampleAttr mtime)⟩, ⟨.readdir 1 0, .ok ()⟩, ⟨.readdirNext (), (.eof, ())⟩,
        ⟨.readdirDrop (), ()⟩]
      (.ok (sampleReply mtime)) := by
  have hattr : packedSize (.some (sampleAttr mtime) : PostOpAttr) =
      4 + packedSize (sampleAttr mtime) := rfl
  have hfits : readdirEmptyLen 7 (.some (sampleAttr mtime)) ≤ (1000 : UInt32).toNat := by
    rw [readdirEmptyLen_eq, hattr, packedSize_fattr3]
    decide
  refine yields_empty (sampleAttr mtime) () rfl ?_ rfl hfits
  exact decide_eq_true rfl

theorem verifier_honoured_one_second :
    ¬RejectsVerifier (I := Unit) (J := Unit) sampleContext 8 (sampleArgs 5 ⟨1, 0⟩)
      (1 : FileHandleU64) (.ok (sampleAttr ⟨1, 0⟩)) := by
  refine (verifier_honoured_iff (sampleReply_yields ⟨1, 0⟩) 8 ?_ ?_ ?_).mpr ?_
  · rfl
  · rfl
  · decide
  · rintro a ⟨⟩
    decide

theorem verifier_rejected_time_zero :
    ¬∀ (mtime : Nfstime3) (cookie : Cookie3), cookie ≠ 0 →
      Prog.Yields (nfsproc3Readdir sampleContext 7 (sampleArgs 0 mtime) :
          VfsM FileHandleU64 Unit Unit Readdir3Res)
        [⟨.getattr 1, .ok (sampleAttr mtime)⟩, ⟨.readdir 1 0, .ok ()⟩,
          ⟨.readdirNext (), (.eof, ())⟩, ⟨.readdirDrop (), ()⟩] (.ok (sampleReply mtime)) →
      ¬RejectsVerifier (I := Unit) (J := Unit) sampleContext 8 (sampleArgs cookie mtime)
        (1 : FileHandleU64) (.ok (sampleAttr mtime)) := by
  intro h
  refine h ⟨0, 0⟩ 5 (by decide) (sampleReply_yields ⟨0, 0⟩) ?_
  refine (rejectsVerifier_iff rfl _).mpr (Or.inl ⟨?_, by decide⟩)
  exact (Cookieverf3.isNone_fromAttr _).mpr ⟨sampleAttr ⟨0, 0⟩, rfl, rfl⟩

end NfsHandlers

end Nfs3
