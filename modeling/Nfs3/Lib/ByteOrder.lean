import Mathlib.Data.List.Induction
import Mathlib.Tactic

/-!
# Fixed-width big-endian numbers

A number below `256 ^ w` and the list of its `w` bytes, most significant first,
determine each other. Both directions are stated for an arbitrary width, so the
four- and eight-byte words of a wire format are instances of one pair of lemmas.
-/
namespace ByteOrder

abbrev Bytes := List UInt8

/-- The `w` low-order bytes of `n`, most significant byte first. -/
def toBe : ℕ → ℕ → Bytes
  | 0, _ => []
  | w + 1, n => toBe w (n / 256) ++ [UInt8.ofNat n]

/-- The number a byte string spells, most significant byte first. -/
def ofBe (bs : Bytes) : ℕ := bs.foldl (fun acc b => acc * 256 + b.toNat) 0

@[simp] theorem length_toBe (w n : ℕ) : (toBe w n).length = w := by
  induction w generalizing n with
  | zero => rfl
  | succ w ih => simp [toBe, ih]

@[simp] theorem ofBe_nil : ofBe [] = 0 := rfl

@[simp] theorem ofBe_append_singleton (bs : Bytes) (b : UInt8) :
    ofBe (bs ++ [b]) = ofBe bs * 256 + b.toNat := by
  simp [ofBe]

theorem ofBe_toBe (w n : ℕ) (h : n < 256 ^ w) : ofBe (toBe w n) = n := by
  induction w generalizing n with
  | zero =>
    have hn : n = 0 := by simpa using h
    simp [toBe, hn]
  | succ w ih =>
    have hq : n / 256 < 256 ^ w := by
      rw [Nat.div_lt_iff_lt_mul (by norm_num)]
      rwa [pow_succ] at h
    rw [toBe, ofBe_append_singleton, ih _ hq, UInt8.toNat_ofNat']
    omega

theorem ofBe_lt (bs : Bytes) : ofBe bs < 256 ^ bs.length := by
  induction bs using List.reverseRecOn with
  | nil => simp
  | append_singleton bs b ih =>
    have hb := b.toNat_lt
    rw [ofBe_append_singleton, List.length_append, List.length_singleton, pow_succ]
    omega

theorem toBe_ofBe (bs : Bytes) : toBe bs.length (ofBe bs) = bs := by
  induction bs using List.reverseRecOn with
  | nil => rfl
  | append_singleton bs b ih =>
    have hb := b.toNat_lt
    have hq : (ofBe bs * 256 + b.toNat) / 256 = ofBe bs := by omega
    have hr : UInt8.ofNat (ofBe bs * 256 + b.toNat) = b := by
      apply UInt8.toNat_inj.mp
      rw [UInt8.toNat_ofNat']
      omega
    rw [List.length_append, List.length_singleton, ofBe_append_singleton, toBe, hq, ih, hr]

theorem toBe_ofBe_of_length {w : ℕ} {bs : Bytes} (h : bs.length = w) :
    toBe w (ofBe bs) = bs := by
  rw [← h, toBe_ofBe]

end ByteOrder
