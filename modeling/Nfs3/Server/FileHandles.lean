import Nfs3.Server.Vfs

/-!
# File handles on the wire

The bytes of a handle are the generation of the server, least significant byte first, and the
bytes of the file system's own handle. A server takes back the handles of its own generation
and nothing else: the handles of an older server are stale, those of a newer one and all bytes
that are no handle at all are bad. The comparison of equal generations is one of bytes, the
comparison of different ones is one of numbers; both see the same generation.
-/
namespace Nfs3

open ByteOrder (Bytes toBe ofBe ofBe_toBe toBe_ofBe_of_length length_toBe)

@[simp] theorem length_toLeBytes (n : UInt64) : (toLeBytes n).length = 8 := by
  simp [toLeBytes]

@[simp] theorem ofLeBytes_toLeBytes (n : UInt64) : ofLeBytes (toLeBytes n) = n := by
  have hn : n.toNat < 256 ^ 8 := n.toNat_lt
  simp [ofLeBytes, toLeBytes, ofBe_toBe 8 n.toNat hn]

theorem toLeBytes_ofLeBytes {bs : Bytes} (h : bs.length = 8) : toLeBytes (ofLeBytes bs) = bs := by
  have hlt := ByteOrder.ofBe_lt bs.reverse
  have hnat : (ofLeBytes bs).toNat = ofBe bs.reverse := by
    rw [List.length_reverse, h] at hlt
    simp only [ofLeBytes, UInt64.toNat_ofNat']
    omega
  rw [toLeBytes, hnat, toBe_ofBe_of_length (by simpa using h), List.reverse_reverse]

/-- A handle type whose values and byte strings determine each other. -/
class LawfulFileHandle (H : Type) [FileHandle H] : Prop where
  fromBytes_asBytes : ∀ h : H, FileHandle.fromBytes (FileHandle.asBytes h) = some h
  asBytes_of_fromBytes : ∀ (bytes : Bytes) (h : H),
    FileHandle.fromBytes bytes = some h → FileHandle.asBytes h = bytes

instance : LawfulFileHandle FileHandleU64 where
  fromBytes_asBytes h := by simp [FileHandle.asBytes, FileHandle.fromBytes]
  asBytes_of_fromBytes bytes h hbytes := by
    simp only [FileHandle.fromBytes, Option.ite_none_right_eq_some, Option.some.injEq] at hbytes
    obtain ⟨hlength, rfl⟩ := hbytes
    exact toLeBytes_ofLeBytes hlength

namespace FileHandleConverter

/-! ## The slices of the source -/

/-- `&bytes[start..stop]`, which panics outside the bytes. -/
def slice (bytes : Bytes) (start stop : ℕ) : Option Bytes :=
  if start ≤ stop ∧ stop ≤ bytes.length then some ((bytes.take stop).drop start) else none

/-- `check_handle` with every slice that it takes; `none` is a panic. -/
def checkHandleSliced (c : FileHandleConverter) (id : NfsFh3) : Option (Except Nfsstat3 Unit) := do
  let data := id.data.data
  if data.length < 8 then
    return .error .nfs3errBadhandle
  let generation ← slice data 0 8
  if generation = c.generationNumberLe then
    return .ok ()
  let idGen ← slice data 0 8
  -- `try_into` an array of eight bytes
  if idGen.length ≠ 8 then
    return .error .nfs3errBadhandle
  if ofLeBytes idGen < c.generationNumber then
    return .error .nfs3errStale
  return .error .nfs3errBadhandle

/-- `fh_from_nfs` with every slice that it takes; `none` is a panic. -/
def fhFromNfsSliced {H : Type} [FileHandle H] (c : FileHandleConverter) (id : NfsFh3) :
    Option (Except Nfsstat3 H) := do
  match ← c.checkHandleSliced id with
  | .error e => return .error e
  | .ok () =>
    let rest ← slice id.data.data 8 id.data.data.length
    match FileHandle.fromBytes rest with
    | some h => return .ok h
    | none => return .error .nfs3errBadhandle

theorem checkHandleSliced_eq (c : FileHandleConverter) (id : NfsFh3) :
    c.checkHandleSliced id = some (c.checkHandle id) := by
  by_cases hshort : id.data.data.length < 8
  · simp [checkHandleSliced, checkHandle, hshort]
  · have hlength : 8 ≤ id.data.data.length := by omega
    have hslice : slice id.data.data 0 8 = some (id.data.data.take 8) := by
      simp [slice, hlength]
    have htake : (id.data.data.take 8).length = 8 := by simpa using hlength
    by_cases hsame : id.data.data.take 8 = c.generationNumberLe
    · simp [checkHandleSliced, checkHandle, hshort, hslice, hsame]
    · by_cases holder : ofLeBytes (id.data.data.take 8) < c.generationNumber
      · simp [checkHandleSliced, checkHandle, hshort, hslice, hsame, holder, hlength]
      · simp [checkHandleSliced, checkHandle, hshort, hslice, hsame, holder, hlength]

/-! ## What a converter answers -/

section Answers

variable {H : Type} [FileHandle H] {c : FileHandleConverter} {id : NfsFh3}

/-- No slice is out of range: behind the check of the length all of them are inside the bytes. -/
theorem fhFromNfsSliced_eq : c.fhFromNfsSliced id = some (c.fhFromNfs id : Except Nfsstat3 H) := by
  cases hcheck : c.checkHandle id with
  | error e => simp [fhFromNfsSliced, fhFromNfs, checkHandleSliced_eq, hcheck]
  | ok _ =>
    have hlength : 8 ≤ id.data.data.length := by
      by_contra hshort
      simp [checkHandle, Nat.lt_of_not_le hshort] at hcheck
    have hslice : slice id.data.data 8 id.data.data.length = some (id.data.data.drop 8) := by
      simp [slice, hlength]
    cases hrest : (FileHandle.fromBytes (id.data.data.drop 8) : Option H) with
    | none => simp [fhFromNfsSliced, fhFromNfs, checkHandleSliced_eq, hcheck, hslice, hrest]
    | some h => simp [fhFromNfsSliced, fhFromNfs, checkHandleSliced_eq, hcheck, hslice, hrest]

theorem fhFromNfs_of_short (h : id.data.data.length < 8) :
    (c.fhFromNfs id : Except Nfsstat3 H) = .error .nfs3errBadhandle := by
  simp [fhFromNfs, checkHandle, h]

theorem fhFromNfs_of_same (hlength : 8 ≤ id.data.data.length)
    (hsame : ofLeBytes (id.data.data.take 8) = c.generationNumber) :
    (c.fhFromNfs id : Except Nfsstat3 H) =
      match FileHandle.fromBytes (id.data.data.drop 8) with
      | some h => .ok h
      | none => .error .nfs3errBadhandle := by
  have htake : (id.data.data.take 8).length = 8 := by simpa using hlength
  have hbytes : id.data.data.take 8 = c.generationNumberLe := by
    rw [generationNumberLe, ← hsame, toLeBytes_ofLeBytes htake]
  cases hrest : (FileHandle.fromBytes (id.data.data.drop 8) : Option H) with
  | none => simp [fhFromNfs, checkHandle, Nat.not_lt.mpr hlength, hbytes, hrest]
  | some h => simp [fhFromNfs, checkHandle, Nat.not_lt.mpr hlength, hbytes, hrest]

/-- Bytes of another generation: the order of the two decides, whatever the rest is. -/
theorem fhFromNfs_of_other (hlength : 8 ≤ id.data.data.length)
    (hother : ofLeBytes (id.data.data.take 8) ≠ c.generationNumber) :
    (c.fhFromNfs id : Except Nfsstat3 H) =
      if ofLeBytes (id.data.data.take 8) < c.generationNumber then .error .nfs3errStale
      else .error .nfs3errBadhandle := by
  have hbytes : id.data.data.take 8 ≠ c.generationNumberLe := by
    intro hbytes
    apply hother
    rw [hbytes, generationNumberLe, ofLeBytes_toLeBytes]
  by_cases holder : ofLeBytes (id.data.data.take 8) < c.generationNumber
  · simp [fhFromNfs, checkHandle, Nat.not_lt.mpr hlength, hbytes, holder]
  · simp [fhFromNfs, checkHandle, Nat.not_lt.mpr hlength, hbytes, holder]

theorem length_fhToNfs (h : H) : 8 ≤ (c.fhToNfs h).data.data.length := by
  simp [fhToNfs, generationNumberLe]

theorem take_fhToNfs (h : H) : (c.fhToNfs h).data.data.take 8 = toLeBytes c.generationNumber := by
  apply List.take_left'
  simp [generationNumberLe]

theorem drop_fhToNfs (h : H) : (c.fhToNfs h).data.data.drop 8 = FileHandle.asBytes h := by
  apply List.drop_left'
  simp [generationNumberLe]

variable [LawfulFileHandle H]

theorem fhFromNfs_fhToNfs (h : H) : c.fhFromNfs (c.fhToNfs h) = .ok h := by
  rw [fhFromNfs_of_same (length_fhToNfs h) (by rw [take_fhToNfs, ofLeBytes_toLeBytes]),
    drop_fhToNfs, LawfulFileHandle.fromBytes_asBytes]

theorem eq_fhToNfs_of_fhFromNfs {h : H} (hid : c.fhFromNfs id = .ok h) : id = c.fhToNfs h := by
  by_cases hshort : id.data.data.length < 8
  · rw [fhFromNfs_of_short hshort] at hid
    cases hid
  have hlength : 8 ≤ id.data.data.length := by omega
  by_cases hsame : ofLeBytes (id.data.data.take 8) = c.generationNumber
  · have htake : id.data.data.take 8 = c.generationNumberLe := by
      rw [generationNumberLe, ← hsame, toLeBytes_ofLeBytes (by simpa using hlength)]
    have hrest : FileHandle.asBytes h = id.data.data.drop 8 := by
      rw [fhFromNfs_of_same hlength hsame] at hid
      apply LawfulFileHandle.asBytes_of_fromBytes
      cases hparse : (FileHandle.fromBytes (id.data.data.drop 8) : Option H) with
      | none => simp [hparse] at hid
      | some h' => simpa [hparse] using hid
    rcases id with ⟨⟨data⟩⟩
    simp only [fhToNfs, hrest, ← htake, List.take_append_drop]
  · rw [fhFromNfs_of_other hlength hsame] at hid
    split_ifs at hid

end Answers

/-- A converter accepts the handles it issued, each as the handle it was issued for, and no other
bytes; handles of an older generation are stale under a newer one and handles of a newer one bad
under an older one; bytes that are too short or hold no handle behind the own generation are bad,
and behind another generation its age alone decides. No slice is taken outside the bytes. -/
theorem handle_exact_and_bound (H : Type) [FileHandle H] [LawfulFileHandle H] :
    (∀ (c : FileHandleConverter) (b : NfsFh3) (h : H),
      c.fhFromNfs b = .ok h ↔ b = c.fhToNfs h) ∧
    (∀ c₁ c₂ : FileHandleConverter, c₁.generationNumber < c₂.generationNumber → ∀ h : H,
      (c₂.fhFromNfs (c₁.fhToNfs h) : Except Nfsstat3 H) = .error .nfs3errStale ∧
      (c₁.fhFromNfs (c₂.fhToNfs h) : Except Nfsstat3 H) = .error .nfs3errBadhandle) ∧
    (∀ (c : FileHandleConverter) (b : NfsFh3), b.data.data.length < 8 →
      (c.fhFromNfs b : Except Nfsstat3 H) = .error .nfs3errBadhandle) ∧
    (∀ (c : FileHandleConverter) (rest : Bytes), (FileHandle.fromBytes rest : Option H) = none →
      (c.fhFromNfs ⟨⟨c.generationNumberLe ++ rest⟩⟩ : Except Nfsstat3 H) =
        .error .nfs3errBadhandle) ∧
    (∀ (c : FileHandleConverter) (b : NfsFh3), 8 ≤ b.data.data.length →
      ofLeBytes (b.data.data.take 8) ≠ c.generationNumber →
      (c.fhFromNfs b : Except Nfsstat3 H) =
        if ofLeBytes (b.data.data.take 8) < c.generationNumber then .error .nfs3errStale
        else .error .nfs3errBadhandle) ∧
    (∀ (c : FileHandleConverter) (b : NfsFh3),
      c.fhFromNfsSliced b = some (c.fhFromNfs b : Except Nfsstat3 H)) := by
  refine ⟨?_, ?_, fun c b => fhFromNfs_of_short, ?_, fun c b => fhFromNfs_of_other,
    fun c b => fhFromNfsSliced_eq⟩
  · intro c b h
    constructor
    · exact eq_fhToNfs_of_fhFromNfs
    · rintro rfl
      exact fhFromNfs_fhToNfs h
  · intro c₁ c₂ hlt h
    constructor
    · rw [fhFromNfs_of_other (length_fhToNfs h), take_fhToNfs, ofLeBytes_toLeBytes, if_pos hlt]
      rw [take_fhToNfs, ofLeBytes_toLeBytes]
      exact UInt64.ne_of_lt hlt
    · rw [fhFromNfs_of_other (length_fhToNfs h), take_fhToNfs, ofLeBytes_toLeBytes,
        if_neg (UInt64.lt_asymm hlt)]
      rw [take_fhToNfs, ofLeBytes_toLeBytes]
      exact (UInt64.ne_of_lt hlt).symm
  · intro c rest hrest
    have htake : (c.generationNumberLe ++ rest).take 8 = c.generationNumberLe := by
      apply List.take_left'
      simp [generationNumberLe]
    have hdrop : (c.generationNumberLe ++ rest).drop 8 = rest := by
      apply List.drop_left'
      simp [generationNumberLe]
    rw [fhFromNfs_of_same]
    · simp only [hdrop, hrest]
    · simp [generationNumberLe]
    · simp only [htake]
      simp [generationNumberLe]

theorem handle_exact_and_bound_u64 :
    ((⟨1⟩ : FileHandleConverter).fhFromNfs
        ((⟨1⟩ : FileHandleConverter).fhToNfs (42 : FileHandleU64))
        : Except Nfsstat3 FileHandleU64) = .ok 42 ∧
      ((⟨2⟩ : FileHandleConverter).fhFromNfs
        ((⟨1⟩ : FileHandleConverter).fhToNfs (42 : FileHandleU64))
        : Except Nfsstat3 FileHandleU64) = .error .nfs3errStale := by
  obtain ⟨hexact, hbound, -⟩ := handle_exact_and_bound FileHandleU64
  exact ⟨(hexact ⟨1⟩ _ 42).mpr rfl, (hbound ⟨1⟩ ⟨2⟩ (by decide) 42).1⟩

end FileHandleConverter

end Nfs3
