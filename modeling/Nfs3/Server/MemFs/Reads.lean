import Nfs3.Server.MemFs.Basic

/-!
# Reading files of the in-memory file system

The end of a read is computed by one addition of `usize` before anything is clamped to the
length of the file. A build with overflow checks panics where the sum does not fit, any other
build goes on with the wrapped sum.
-/
namespace Nfs3.Memfs

open ByteOrder (Bytes)

/-- Whether the build checks additions for overflow. -/
inductive Build
  | checked
  | wrapping
  deriving DecidableEq

/-- An addition of `usize`, `none` where it panics. -/
def Build.add : Build → ℕ → ℕ → Option ℕ
  | .checked, x, y => if x + y < 2 ^ 64 then some (x + y) else none
  | .wrapping, x, y => some ((x + y) % 2 ^ 64)

/-- `bytes[start..stop]`, `none` where the slice panics. -/
def slice (bytes : Bytes) (start stop : ℕ) : Option Bytes :=
  if start ≤ stop ∧ stop ≤ bytes.length then some ((bytes.take stop).drop start) else none

namespace File

def read (build : Build) (file : File) (offset : UInt64) (count : UInt32) :
    Option (Bytes × Bool) :=
  let start := offset.toNat
  (build.add start count.toNat).bind fun stop =>
    let bytes := file.content
    let eof := decide (stop ≥ bytes.length)
    let start := if start ≥ bytes.length then bytes.length else start
    let stop := if stop > bytes.length then bytes.length else stop
    (slice bytes start stop).map fun bytes => (bytes, eof)

end File

def MemFs.read (build : Build) (s : MemFs) (id : FileHandleU64) (offset : UInt64)
    (count : UInt32) : Option (Except Nfsstat3 (Bytes × Bool)) :=
  match s.fs.get id with
  | none => some (.error .nfs3errNoent)
  | some (.dir _) => some (.error .nfs3errIsdir)
  | some (.file file) => (file.read build offset count).map .ok

/-- What a read of `count` bytes at `offset` should give: the bytes that are there, and whether
the read comes to the end. -/
def readRange (content : Bytes) (offset count : ℕ) : Bytes × Bool :=
  ((content.drop offset).take count, decide (offset + count ≥ content.length))

theorem slice_clamped (bytes : Bytes) {start stop : ℕ} (h : start ≤ stop) :
    slice bytes (if start ≥ bytes.length then bytes.length else start)
      (if stop > bytes.length then bytes.length else stop) =
      some ((bytes.drop start).take (stop - start)) := by
  by_cases hstart : start ≥ bytes.length
  · rw [if_pos hstart, List.drop_eq_nil_of_le hstart, List.take_nil]
    by_cases hstop : stop > bytes.length
    · simp [slice, hstop]
    · have heq : stop = bytes.length := by omega
      simp [slice, heq]
  · rw [if_neg hstart]
    by_cases hstop : stop > bytes.length
    · rw [if_pos hstop, slice, if_pos ⟨by omega, le_refl _⟩, List.take_length,
        List.take_of_length_le (by rw [List.length_drop]; omega)]
    · rw [if_neg hstop, slice, if_pos ⟨h, by omega⟩, List.drop_take]

namespace File

variable {file : File} {offset : UInt64} {count : UInt32}

theorem read_of_fits (build : Build) (h : offset.toNat + count.toNat < 2 ^ 64) :
    file.read build offset count = some (readRange file.content offset.toNat count.toNat) := by
  have hadd : build.add offset.toNat count.toNat = some (offset.toNat + count.toNat) := by
    cases build with
    | checked => exact if_pos h
    | wrapping => exact congrArg some (Nat.mod_eq_of_lt h)
  rw [read, hadd, Option.bind_some]
  dsimp only
  rw [slice_clamped file.content (Nat.le_add_right _ _)]
  simp [readRange]

/-- Every build reads the file exactly if and only if the end of the read is a `usize`. -/
theorem read_exact_iff (file : File) (offset : UInt64) (count : UInt32) :
    (∀ build : Build,
      file.read build offset count = some (readRange file.content offset.toNat count.toNat)) ↔
      offset.toNat + count.toNat < 2 ^ 64 := by
  constructor
  · intro h
    by_contra hover
    have hnone : file.read .checked offset count = none := by
      rw [read, Build.add, if_neg hover]
      rfl
    rw [h .checked] at hnone
    cases hnone
  · intro h build
    exact read_of_fits build h

theorem read_last_offset_panics :
    ¬∀ (file : File) (offset : UInt64) (count : UInt32) (build : Build),
      file.read build offset count =
        some (readRange file.content offset.toNat count.toNat) := by
  intro h
  have hnone : (File.new ⟨⟨[0x66]⟩⟩ 2 [0x61] ⟨Vector.replicate 8 0⟩ ⟨0, 0⟩).read .wrapping
      0xFFFFFFFFFFFFFFFF 1 = none := by decide
  rw [h] at hnone
  cases hnone

end File

end Nfs3.Memfs
