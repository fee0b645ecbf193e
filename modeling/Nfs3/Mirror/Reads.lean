import Nfs3.Mirror.Operations
import Nfs3.Server.MemFs.Reads

/-!
# Reading files of the mirror

The host opens the file, tells its length and reads where it is told to. At or past the end of
the file the mirror does not read, and tells the end by comparing the length with the count
alone.
-/
namespace Nfs3.Mirror

open ByteOrder (Bytes)
open Interaction (Prog)
open Memfs (readRange Build)

/-- A host with one file whose content does not change. -/
def hostReads (content : Bytes) : Unit → (c : FsCall) → Option (c.Reply × Unit)
  | (), .host (.openRead _) => some ((.ok 0 : IoResult Fd), ())
  | (), .host (.fileLen _) => some ((.ok (.ofNat content.length) : IoResult UInt64), ())
  | (), .host (.readAt _ offset count) =>
    let buf := (content.drop offset.toNat).take count.toNat
    if buf.length = count.toNat then some ((.ok buf : IoResult Bytes), ())
    else some ((.error .other : IoResult Bytes), ())
  | (), _ => none

/-- `Fs::read` on that host. -/
def readHostFile (content : Bytes) (path : PathBuf) (start : UInt64) (count : UInt32) :
    Option (IoResult (Bytes × Bool)) :=
  ((Fs.readPath path start count).run.runIn (hostReads content) ()).map Prod.fst

/-- A client that reads on from an offset until it is told that the end is reached, for at most
`fuel` requests. -/
def readUntilEof (read : UInt64 → Option (IoResult (Bytes × Bool))) : ℕ → UInt64 → Option Bytes
  | 0, _ => none
  | fuel + 1, offset =>
    match read offset with
    | some (.ok (buf, true)) => some buf
    | some (.ok (buf, false)) =>
      (readUntilEof read fuel (offset + .ofNat buf.length)).map fun rest => buf ++ rest
    | _ => none

variable {content : Bytes} {path : PathBuf} {start : UInt64} {count : UInt32}

theorem readHostFile_eq :
    readHostFile content path start count =
      ((if start ≥ .ofNat content.length ∨ count = 0 then
          pure ([], decide (count.toUInt64 ≥ .ofNat content.length))
        else do
          let count := min count.toUInt64 (.ofNat content.length - start)
          let buf ← Host.readAt 0 start count
          return (buf, decide (start + count ≥ .ofNat content.length)) :
          IoM (Bytes × Bool)).run.runIn
        (hostReads content) ()).map Prod.fst :=
  rfl

theorem readHostFile_of_end (hlen : content.length < 2 ^ 64)
    (h : content.length ≤ start.toNat ∨ count = 0) :
    readHostFile content path start count =
      some (.ok ([], decide (content.length ≤ count.toNat))) := by
  have hsize : (UInt64.ofNat content.length).toNat = content.length :=
    UInt64.toNat_ofNat_of_lt' hlen
  have hend : start ≥ UInt64.ofNat content.length ∨ count = 0 := by
    rwa [ge_iff_le, UInt64.le_iff_toNat_le, hsize]
  have heof : count.toUInt64 ≥ UInt64.ofNat content.length ↔ content.length ≤ count.toNat := by
    rw [ge_iff_le, UInt64.le_iff_toNat_le, hsize]
    rfl
  rw [readHostFile_eq, if_pos hend, decide_eq_decide.mpr heof]
  rfl

theorem readHostFile_of_lt (hlen : content.length < 2 ^ 64) (hstart : start.toNat < content.length)
    (hcount : count ≠ 0) :
    readHostFile content path start count =
      some (.ok (readRange content start.toNat count.toNat)) := by
  have hsize : (UInt64.ofNat content.length).toNat = content.length :=
    UInt64.toNat_ofNat_of_lt' hlen
  have hnot : ¬(start ≥ UInt64.ofNat content.length ∨ count = 0) := by
    refine not_or.mpr ⟨?_, hcount⟩
    rw [ge_iff_le, UInt64.le_iff_toNat_le, hsize]
    omega
  -- what is left of the file bounds the number of bytes to read
  set k := min count.toUInt64 (.ofNat content.length - start) with hk
  have hsub : (UInt64.ofNat content.length - start).toNat = content.length - start.toNat := by
    rw [UInt64.toNat_sub_of_le, hsize]
    rw [UInt64.le_iff_toNat_le, hsize]
    omega
  have hkNat : k.toNat = min count.toNat (content.length - start.toNat) := by
    rw [← hsub]
    by_cases hle : count.toUInt64 ≤ .ofNat content.length - start
    · have hmin : k = count.toUInt64 := if_pos hle
      rw [hmin]
      exact (min_eq_left (UInt64.le_iff_toNat_le.mp hle)).symm
    · have hmin : k = .ofNat content.length - start := if_neg hle
      rw [hmin]
      exact (min_eq_right (le_of_lt (UInt64.lt_iff_toNat_lt.mp (UInt64.not_le.mp hle)))).symm
  have hadd : (start + k).toNat = start.toNat + k.toNat := by
    rw [UInt64.toNat_add, Nat.mod_eq_of_lt]
    omega
  have hbuf : (content.drop start.toNat).take k.toNat =
      (content.drop start.toNat).take count.toNat := by
    rw [List.take_eq_take_iff, hkNat, List.length_drop]
    omega
  have hfull : ((content.drop start.toNat).take k.toNat).length = k.toNat := by
    rw [List.length_take, List.length_drop]
    omega
  have heof : start + k ≥ UInt64.ofNat content.length ↔
      start.toNat + count.toNat ≥ content.length := by
    rw [ge_iff_le, UInt64.le_iff_toNat_le, hsize, hadd]
    omega
  have hread : hostReads content () (.host (.readAt 0 start k)) =
      some ((.ok ((content.drop start.toNat).take k.toNat) : IoResult Bytes), ()) :=
    if_pos hfull
  rw [readHostFile_eq, if_neg hnot]
  dsimp only
  rw [← hk, decide_eq_decide.mpr heof]
  change ((hostReads content () (.host (.readAt 0 start k))).bind _).map _ = _
  rw [hread, hbuf]
  rfl

/-- The mirror keeps the contract of `read`, agrees with the in-memory file system and lets a
client stop that has come to the end, if and only if the read starts before the end or the
count is at least the length of the file. -/
theorem mirror_read_contract_iff (content : Bytes) (hlen : content.length < 2 ^ 64)
    (path : PathBuf) (start : UInt64) (count : UInt32) :
    (readHostFile content path start count =
        some (.ok (readRange content start.toNat count.toNat)) ∧
      (start.toNat + count.toNat < 2 ^ 64 → ∀ (file : Memfs.File) (build : Build),
        file.content = content →
          readHostFile content path start count = (file.read build start count).map .ok) ∧
      (start.toNat = content.length → ∃ fuel,
        (readUntilEof (readHostFile content path · count) fuel start).isSome)) ↔
      start.toNat < content.length ∨ content.length ≤ count.toNat := by
  constructor
  · rintro ⟨hcontract, -, -⟩
    by_contra hnot
    obtain ⟨hstart, hcount⟩ := not_or.mp hnot
    rw [readHostFile_of_end hlen (Or.inl (not_lt.mp hstart))] at hcontract
    have heof := congrArg Prod.snd (Except.ok.inj (Option.some.inj hcontract))
    simp only [readRange, decide_eq_decide] at heof
    omega
  · intro hcond
    have hcontract : readHostFile content path start count =
        some (.ok (readRange content start.toNat count.toNat)) := by
      by_cases hbefore : start.toNat < content.length
      · by_cases hzero : count = 0
        · subst hzero
          rw [readHostFile_of_end hlen (Or.inr rfl)]
          have heof : content.length ≤ (0 : UInt32).toNat ↔
              start.toNat + (0 : UInt32).toNat ≥ content.length := by
            rw [show (0 : UInt32).toNat = 0 from rfl]
            omega
          rw [readRange, decide_eq_decide.mpr heof]
          rfl
        · exact readHostFile_of_lt hlen hbefore hzero
      · rw [readHostFile_of_end hlen (Or.inl (not_lt.mp hbefore)), readRange,
          List.drop_eq_nil_of_le (not_lt.mp hbefore), List.take_nil]
        have : content.length ≤ count.toNat ↔ start.toNat + count.toNat ≥ content.length := by
          omega
        rw [decide_eq_decide.mpr this]
    refine ⟨hcontract, ?_, ?_⟩
    · rintro hfits file build rfl
      rw [hcontract, Memfs.File.read_of_fits build hfits]
      rfl
    · intro hend
      refine ⟨1, ?_⟩
      have heof : (readRange content start.toNat count.toNat).2 = true := by
        simp [readRange]
        omega
      generalize hrange : readRange content start.toNat count.toNat = range at hcontract heof
      obtain ⟨buf, eof⟩ := range
      subst heof
      simp [readUntilEof, hcontract]

theorem mirror_read_contract_last_byte :
    readHostFile [0x61, 0x62, 0x63] [sep] 2 1 = some (.ok ([0x63], true)) := by
  have hcontract := (mirror_read_contract_iff [0x61, 0x62, 0x63] (by decide) [sep] 2 1).mpr
    (Or.inl (by decide))
  exact hcontract.1

theorem mirror_read_misses_eof :
    ¬∀ (content : Bytes) (path : PathBuf) (start : UInt64) (count : UInt32),
      content.length < 2 ^ 64 → readHostFile content path start count =
        some (.ok (readRange content start.toNat count.toNat)) := by
  intro h
  have hread : readHostFile [0x61, 0x62, 0x63] [sep] 3 1 = some (.ok ([], false)) := by
    exact readHostFile_of_end (by decide) (Or.inl (by decide))
  have hcontract := h [0x61, 0x62, 0x63] [sep] 3 1 (by decide)
  rw [hread] at hcontract
  have heof := congrArg Prod.snd (Except.ok.inj (Option.some.inj hcontract))
  exact absurd heof (by decide)

end Nfs3.Mirror
