import Nfs3.Types.XdrCodec

/-!
# Laws of the XDR codec

`XdrSpec` says which values the wire can carry and where the padding of their
encodings lies, without looking at the three codec functions. `LawfulXdr` and
`ExactXdr` relate the functions to it. There is one instance for each primitive and
one for each shape the derive macro generates, so a derived type is lawful because
its fields are.
-/
namespace Nfs3

open ByteOrder ByteCodec

/-- `valid`: opaque and vector lengths fit in 32 bits and no union value lies outside
what its discriminant can express. `padding`: the positions of an encoding that a
reader ignores. -/
class XdrSpec (α : Type) where
  valid : α → Bool
  padding : α → List Bool

/-- The input is truncated or carries a discriminant nobody uses. -/
def IsDecodeError (e : Error) : Prop := e = .io ∨ ∃ value, e = .invalidEnumValue value

/-- Limited memory changes what unpacking does exactly where the allocator refuses one
of the sizes asked for. -/
class RationedXdr (α : Type) [XdrCodec α] : Prop where
  rationed : ∀ memory : Allocator, (XdrCodec.codec (α := α)).RationedBy memory.grants
    .outOfMemory (XdrCodec.codecIn memory)

class LawfulXdr (α : Type) [XdrCodec α] [XdrSpec α] : Prop where
  encodes : ∀ v : α, XdrSpec.valid v = true → ∃ bs, XdrCodec.codec.Encodes 4 v bs
  consumes : (XdrCodec.codec (α := α)).Consumes 4
  failsWith : (XdrCodec.codec (α := α)).FailsWith IsDecodeError

class ExactXdr (α : Type) [XdrCodec α] [XdrSpec α] : Prop where
  exact : (XdrCodec.codec (α := α)).Exact 4 XdrSpec.padding

section Memory

variable {α : Type} [XdrCodec α] [RationedXdr α] {memory : Allocator} {b : Bytes}

theorem unpackIn_of_granted (h : ∀ size ∈ requests α b, memory.grants size = true) :
    unpackIn (α := α) memory b = unpack b :=
  (RationedXdr.rationed memory).of_granted (List.all_eq_true.mpr h)

theorem unpackIn_of_refused {size : ℕ} (hsize : size ∈ requests α b)
    (h : memory.grants size = false) : unpackIn (α := α) memory b = .error .outOfMemory := by
  apply (RationedXdr.rationed memory).of_refused
  rw [List.all_eq_false]
  exact ⟨size, hsize, by simp [h]⟩

end Memory

theorem ne_outOfMemory {α : Type} [XdrCodec α] [XdrSpec α] [LawfulXdr α] {b : Bytes} {e : Error}
    (h : unpack (α := α) b = .error e) : e ≠ .outOfMemory := by
  rintro rfl
  rcases LawfulXdr.failsWith (α := α) b _ h with hio | ⟨value, hvalue⟩
  · cases hio
  · cases hvalue

/-! ## Reading and writing bytes -/

theorem allocate_unlimited_bind {α : Type} (size : ℕ) (f : Unit → ByteM Error α) :
    allocate .unlimited size >>= f = f () := rfl

theorem allocate_rationed (memory : Allocator) (size : ℕ) :
    Rationed memory.grants .outOfMemory (fun _ => [size])
      (allocate .unlimited size) (allocate memory size) := by
  intro b
  cases hsize : memory.grants size <;> simp [allocate, hsize] <;> rfl

theorem addPadding_eq (n : ℕ) : addPadding n = n + getPadding n := by
  unfold addPadding getPadding
  omega

theorem four_dvd_addPadding (n : ℕ) : 4 ∣ addPadding n := ⟨(n + 3) / 4, Nat.mul_comm _ _⟩

@[simp] theorem length_zeroPadding (n : ℕ) : (zeroPadding n).length = getPadding n := by
  simp [zeroPadding]

@[simp] theorem writeAll_eq (bs out : Bytes) : writeAll bs out = .ok ((), out ++ bs) := rfl

theorem readExact_append {n : ℕ} {bs : Bytes} (h : bs.length = n) (s : Bytes) :
    readExact n (bs ++ s) = .ok (bs, s) := by
  subst h
  simp [readExact]

theorem readExact_eq_ok {n : ℕ} {b bs s : Bytes} (h : readExact n b = .ok (bs, s)) :
    b = bs ++ s ∧ bs.length = n := by
  unfold readExact at h
  split_ifs at h with hn
  cases h
  exact ⟨(List.take_append_drop n b).symm, by simpa using hn⟩

theorem readExact_eq_error {n : ℕ} {b : Bytes} {e : Error} (h : readExact n b = .error e) :
    e = .io := by
  unfold readExact at h
  split_ifs at h
  cases h
  rfl

theorem writePadded_eq (bs out : Bytes) :
    writePadded bs out = .ok (addPadding bs.length, out ++ (bs ++ zeroPadding bs.length)) := by
  unfold writePadded
  rw [bind_of_ok (writeAll_eq bs out), bind_of_ok (writeAll_eq _ _)]
  simp [addPadding_eq]

theorem readPadded_append {n : ℕ} {bs pad : Bytes} (h : bs.length = n)
    (hp : pad.length = getPadding n) (s : Bytes) :
    readPadded n (bs ++ pad ++ s) = .ok ((bs, addPadding n), s) := by
  unfold readPadded
  rw [List.append_assoc, bind_of_ok (readExact_append h (pad ++ s))]
  split_ifs with hpos
  · rw [bind_of_ok (readExact_append hp s), addPadding_eq]
    rfl
  · have hz : getPadding n = 0 := by omega
    have hnil : pad = [] := List.eq_nil_of_length_eq_zero (hp.trans hz)
    rw [addPadding_eq, hz, hnil]
    rfl

theorem readPadded_eq_ok {n l : ℕ} {b bs s : Bytes} (h : readPadded n b = .ok ((bs, l), s)) :
    ∃ pad, b = bs ++ pad ++ s ∧ bs.length = n ∧ pad.length = getPadding n ∧
      l = addPadding n := by
  obtain ⟨buf, s₁, hbuf, hrest⟩ := bind_eq_ok h
  obtain ⟨rfl, hlen⟩ := readExact_eq_ok hbuf
  split_ifs at hrest with hpos
  · obtain ⟨pad, s₂, hpad, hpure⟩ := bind_eq_ok hrest
    obtain ⟨rfl, hplen⟩ := readExact_eq_ok hpad
    cases hpure
    exact ⟨pad, by simp, hlen, hplen, (addPadding_eq n).symm⟩
  · cases hrest
    have hz : getPadding n = 0 := by omega
    exact ⟨[], by simp, hlen, hz.symm, by rw [addPadding_eq, hz]; rfl⟩

theorem readPadded_eq_error {n : ℕ} {b : Bytes} {e : Error} (h : readPadded n b = .error e) :
    e = .io := by
  rcases bind_eq_error h with hbuf | ⟨buf, s, -, hrest⟩
  · exact readExact_eq_error hbuf
  · split_ifs at hrest
    · rcases bind_eq_error hrest with hpad | ⟨pad, s', -, hpure⟩
      · exact readExact_eq_error hpad
      · cases hpure
    · cases hrest

/-! ## Words -/

section Word

variable {α : Type} {w : ℕ} {f : α → ℕ} {g : ℕ → α}

theorem beWord_read_eq_ok {b s : Bytes} {v : α} {n : ℕ}
    (h : (beWord w f g).read b = .ok ((v, n), s)) :
    ∃ bytes, b = bytes ++ s ∧ bytes.length = w ∧ v = g (ofBe bytes) ∧ n = w := by
  obtain ⟨bytes, s', hr, hpure⟩ := bind_eq_ok h
  cases hpure
  obtain ⟨hb, hl⟩ := readExact_eq_ok hr
  exact ⟨bytes, hb, hl, rfl, rfl⟩

theorem beWord_encodes {k : ℕ} (hk : k ∣ w) (hlt : ∀ v, f v < 256 ^ w) (hgf : ∀ v, g (f v) = v)
    (v : α) : (beWord w f g).Encodes k v (toBe w (f v)) where
  size_eq := by simp [beWord]
  aligned := by simpa using hk
  writes out := by
    show (writeAll _ >>= _) out = _
    rw [bind_of_ok (writeAll_eq _ out), length_toBe]
    rfl
  reads s := by
    show (readExact w >>= _) _ = _
    rw [bind_of_ok (readExact_append (length_toBe w (f v)) s), ofBe_toBe w _ (hlt v), hgf,
      length_toBe]
    rfl

theorem beWord_exact {k : ℕ} (hk : k ∣ w) (hlt : ∀ v, f v < 256 ^ w) (hgf : ∀ v, g (f v) = v)
    (hfg : ∀ n, n < 256 ^ w → f (g n) = n) :
    (beWord w f g).Exact k (fun _ => List.replicate w false) := by
  intro b v n s h
  obtain ⟨bytes, rfl, rfl, rfl, rfl⟩ := beWord_read_eq_ok h
  have hv : toBe bytes.length (f (g (ofBe bytes))) = bytes := by
    rw [hfg _ (ofBe_lt bytes), toBe_ofBe]
  have he := beWord_encodes hk hlt hgf (g (ofBe bytes))
  rw [hv] at he
  exact ⟨bytes, bytes, rfl, rfl, he, rfl, AgreesOff.refl bytes⟩

theorem beWord_failsWith : (beWord w f g).FailsWith IsDecodeError := by
  intro b e h
  rcases bind_eq_error h with hr | ⟨bytes, s, -, hpure⟩
  · exact Or.inl (readExact_eq_error hr)
  · cases hpure

end Word

instance : XdrSpec UInt32 where
  valid _ := true
  padding _ := List.replicate 4 false

theorem u32_lt (v : UInt32) : v.toNat < 256 ^ 4 := v.toNat_lt

theorem u32_encodes (v : UInt32) : (XdrCodec.codec (α := UInt32)).Encodes 4 v (toBe 4 v.toNat) :=
  beWord_encodes (dvd_refl 4) u32_lt (fun _ => UInt32.ofNat_toNat) v

instance : ExactXdr UInt32 where
  exact := beWord_exact (dvd_refl 4) u32_lt (fun _ => UInt32.ofNat_toNat)
    fun _ hn => UInt32.toNat_ofNat_of_lt' hn

instance : LawfulXdr UInt32 where
  encodes v _ := ⟨_, u32_encodes v⟩
  consumes := (ExactXdr.exact (α := UInt32)).consumes
  failsWith := beWord_failsWith

instance : RationedXdr UInt32 := ⟨fun _ => .free _⟩

instance : RationedXdr UInt64 := ⟨fun _ => .free _⟩

instance : XdrSpec UInt64 where
  valid _ := true
  padding _ := List.replicate 8 false

theorem u64_lt (v : UInt64) : v.toNat < 256 ^ 8 := v.toNat_lt

instance : ExactXdr UInt64 where
  exact := beWord_exact (by norm_num) u64_lt (fun _ => UInt64.ofNat_toNat)
    fun _ hn => UInt64.toNat_ofNat_of_lt' hn

instance : LawfulXdr UInt64 where
  encodes v _ := ⟨_, beWord_encodes (by norm_num) u64_lt (fun _ => UInt64.ofNat_toNat) v⟩
  consumes := (ExactXdr.exact (α := UInt64)).consumes
  failsWith := beWord_failsWith

/-- What reading a word at the front of the input amounts to. -/
theorem unpack_u32_eq_ok {b s : Bytes} {v : UInt32} {n : ℕ}
    (h : unpack (α := UInt32) b = .ok ((v, n), s)) : b = toBe 4 v.toNat ++ s ∧ n = 4 := by
  obtain ⟨bytes, rfl, hl, rfl, rfl⟩ := beWord_read_eq_ok h
  have hlt : ofBe bytes < 2 ^ 32 := by
    have := ofBe_lt bytes
    rw [hl] at this
    norm_num at this ⊢
    exact this
  rw [UInt32.toNat_ofNat_of_lt' hlt, toBe_ofBe_of_length hl]
  exact ⟨rfl, rfl⟩

theorem unpack_u32_append (v : UInt32) (s : Bytes) :
    unpack (α := UInt32) (toBe 4 v.toNat ++ s) = .ok ((v, 4), s) := by
  have h := (u32_encodes v).reads s
  rwa [length_toBe] at h

theorem pack_u32 (v : UInt32) (out : Bytes) :
    pack v out = .ok (4, out ++ toBe 4 v.toNat) := by
  have h := (u32_encodes v).writes out
  rwa [length_toBe] at h

theorem unpack_u32_eq_error {b : Bytes} {e : Error} (h : unpack (α := UInt32) b = .error e) :
    IsDecodeError e := LawfulXdr.failsWith (α := UInt32) b e h

/-! ## Types written as one discriminant word -/

section Discriminant

variable {α : Type} {toTag : α → UInt32} {ofTag : UInt32 → Option α}

theorem tagWord_encodes (h : ∀ v, ofTag (toTag v) = some v) (v : α) :
    (tagWord toTag ofTag).Encodes 4 v (toBe 4 (toTag v).toNat) where
  size_eq := by simp [tagWord]
  aligned := by simp
  writes out := by
    rw [length_toBe]
    exact pack_u32 (toTag v) out
  reads s := by
    show (unpack >>= _) _ = _
    rw [bind_of_ok (unpack_u32_append (toTag v) s)]
    simp only [h, length_toBe]
    rfl

theorem tagWord_exact (h : ∀ v, ofTag (toTag v) = some v)
    (h' : ∀ t v, ofTag t = some v → toTag v = t) :
    (tagWord toTag ofTag).Exact 4 (fun _ => List.replicate 4 false) := by
  intro b v n s hr
  obtain ⟨⟨tag, m⟩, s', ht, hrest⟩ := bind_eq_ok hr
  obtain ⟨rfl, rfl⟩ := unpack_u32_eq_ok ht
  cases ho : ofTag tag with
  | none =>
    simp only [ho] at hrest
    cases hrest
  | some u =>
    simp only [ho] at hrest
    cases hrest
    have he := tagWord_encodes h v
    rw [h' tag v ho] at he
    exact ⟨_, _, rfl, length_toBe 4 _, he, length_toBe 4 _,
      by simpa using AgreesOff.refl (toBe 4 tag.toNat)⟩

theorem tagWord_failsWith : (tagWord toTag ofTag).FailsWith IsDecodeError := by
  intro b e h
  rcases bind_eq_error h with hr | ⟨⟨tag, m⟩, s, -, hrest⟩
  · exact unpack_u32_eq_error hr
  · cases ho : ofTag tag with
    | none =>
      simp only [ho] at hrest
      cases hrest
      exact Or.inr ⟨tag, rfl⟩
    | some u =>
      simp only [ho] at hrest
      cases hrest

end Discriminant

instance : XdrSpec Bool where
  valid _ := true
  padding _ := List.replicate 4 false

def boolTag (v : Bool) : UInt32 := if v then 1 else 0

def boolOfTag (tag : UInt32) : Option Bool :=
  if tag = 0 then some false else if tag = 1 then some true else none

theorem bool_codec : (XdrCodec.codec (α := Bool)) = tagWord boolTag boolOfTag := by
  have hread : (XdrCodec.codec (α := Bool)).read = (tagWord boolTag boolOfTag).read := by
    show (unpack >>= _) = (unpack >>= _)
    congr 1
    funext r
    unfold boolOfTag
    by_cases h0 : r.1 = 0
    · simp [h0]
    · by_cases h1 : r.1 = 1 <;> simp [h0, h1]
  show Codec.mk _ _ (XdrCodec.codec (α := Bool)).read _ = _
  rw [hread]
  rfl

theorem boolOfTag_boolTag (v : Bool) : boolOfTag (boolTag v) = some v := by
  cases v <;> rfl

theorem boolTag_of_boolOfTag (t : UInt32) (v : Bool) (h : boolOfTag t = some v) :
    boolTag v = t := by
  unfold boolOfTag at h
  split_ifs at h with h0 h1
  · cases h
    exact h0.symm
  · cases h
    exact h1.symm

instance : ExactXdr Bool where
  exact := by
    rw [bool_codec]
    exact tagWord_exact boolOfTag_boolTag boolTag_of_boolOfTag

instance : LawfulXdr Bool where
  encodes v _ := by
    rw [bool_codec]
    exact ⟨_, tagWord_encodes boolOfTag_boolTag v⟩
  consumes := (ExactXdr.exact (α := Bool)).consumes
  failsWith := by
    rw [bool_codec]
    exact tagWord_failsWith

instance : RationedXdr Bool := ⟨fun _ => .free _⟩

/-- A marker always takes a word, which is what makes the list loop end. -/
theorem bool_read_pos {b s : Bytes} {v : Bool} {n : ℕ}
    (h : (XdrCodec.codec (α := Bool)).read b = .ok ((v, n), s)) : 0 < n := by
  obtain ⟨p, bs, -, -, he, hl, -⟩ := ExactXdr.exact _ _ _ _ h
  have hs : XdrCodec.codec.size v = 4 := rfl
  have := he.size_eq
  omega

section Enum

variable {E : Type} [XdrEnum E]

instance : XdrSpec E where
  valid _ := true
  padding _ := List.replicate 4 false

theorem enumOfTag_asU32 (v : E) : enumOfTag (XdrEnum.asU32 v) = some v := by
  unfold enumOfTag
  cases hf : XdrEnum.variants.find? (fun u : E => XdrEnum.asU32 v = XdrEnum.asU32 u) with
  | none =>
    have := List.find?_eq_none.mp hf v (XdrEnum.complete v)
    simp at this
  | some u =>
    have heq : XdrEnum.asU32 v = XdrEnum.asU32 u := by simpa using List.find?_some hf
    have hinj := List.inj_on_of_nodup_map (XdrEnum.distinct (E := E))
    rw [hinj (XdrEnum.complete u) (XdrEnum.complete v) heq.symm]

theorem asU32_of_enumOfTag (t : UInt32) (v : E) (h : enumOfTag t = some v) :
    XdrEnum.asU32 v = t := by
  have heq : t = XdrEnum.asU32 v := by simpa using List.find?_some h
  exact heq.symm

instance : ExactXdr E where
  exact := tagWord_exact enumOfTag_asU32 asU32_of_enumOfTag

instance : LawfulXdr E where
  encodes v _ := ⟨_, tagWord_encodes enumOfTag_asU32 v⟩
  consumes := (ExactXdr.exact (α := E)).consumes
  failsWith := tagWord_failsWith

instance : RationedXdr E := ⟨fun _ => .free _⟩

end Enum

/-! ## Opaque data and vectors -/

instance : XdrSpec Void where
  valid _ := true
  padding _ := []

theorem void_encodes : (XdrCodec.codec (α := Void)).Encodes 4 ⟨⟩ [] where
  size_eq := rfl
  aligned := dvd_zero 4
  writes out := by
    rw [List.append_nil]
    rfl
  reads _ := rfl

instance : ExactXdr Void where
  exact := by
    intro b v n s h
    cases h
    exact ⟨[], [], rfl, rfl, void_encodes, rfl, .nil⟩

instance : LawfulXdr Void where
  encodes _ _ := ⟨_, void_encodes⟩
  consumes := (ExactXdr.exact (α := Void)).consumes
  failsWith := by
    intro b e h
    cases h

instance : RationedXdr Void := ⟨fun _ => .free _⟩

/-- Data bytes, then as many padding positions as fill up the word. -/
def paddedMask (len : ℕ) : List Bool :=
  List.replicate len false ++ List.replicate (getPadding len) true

theorem agreesOff_padded {bs pad : Bytes} (h : pad.length = getPadding bs.length) :
    AgreesOff (paddedMask bs.length) (bs ++ zeroPadding bs.length) (bs ++ pad) := by
  refine (AgreesOff.refl bs).append ?_
  have hz := AgreesOff.all_padding (p := zeroPadding bs.length) (q := pad) (by simp [h])
  rwa [length_zeroPadding] at hz

instance {n : ℕ} : XdrSpec (Vector UInt8 n) where
  valid _ := true
  padding _ := paddedMask n

theorem ofFn_getD_toList {n : ℕ} (v : Vector UInt8 n) :
    (Vector.ofFn fun i : Fin n => v.toList.getD i 0) = v := by
  ext i hi
  simp [List.getD]

theorem toList_ofFn_getD {n : ℕ} {bs : Bytes} (h : bs.length = n) :
    (Vector.ofFn fun i : Fin n => bs.getD i 0).toList = bs := by
  subst h
  rw [Vector.toList_ofFn]
  refine List.ext_getElem (by simp) fun i h₁ h₂ => ?_
  simp [List.getD]

theorem array_encodes {n : ℕ} (v : Vector UInt8 n) :
    XdrCodec.codec.Encodes 4 v (v.toList ++ zeroPadding n) where
  size_eq := by
    show addPadding n = _
    simp [addPadding_eq]
  aligned := by
    have hlen : (v.toList ++ zeroPadding n).length = addPadding n := by simp [addPadding_eq]
    rw [hlen]
    exact four_dvd_addPadding n
  writes out := by
    have h := writePadded_eq v.toList out
    rw [Vector.length_toList] at h
    rw [List.length_append, Vector.length_toList, length_zeroPadding, ← addPadding_eq]
    exact h
  reads s := by
    show (readPadded n >>= _) _ = _
    rw [bind_of_ok (readPadded_append v.length_toList (length_zeroPadding n) s)]
    simp only [ofFn_getD_toList, List.length_append, Vector.length_toList, length_zeroPadding,
      ← addPadding_eq]
    rfl

instance {n : ℕ} : ExactXdr (Vector UInt8 n) where
  exact := by
    intro b v l s h
    obtain ⟨⟨bs, m⟩, s', hr, hpure⟩ := bind_eq_ok h
    obtain ⟨pad, rfl, hbs, hpad, rfl⟩ := readPadded_eq_ok hr
    cases hpure
    have he := array_encodes (Vector.ofFn fun i : Fin n => bs.getD i 0)
    have ha := agreesOff_padded (hbs ▸ hpad)
    rw [hbs] at ha
    rw [toList_ofFn_getD hbs] at he
    exact ⟨bs ++ pad, bs ++ zeroPadding n, rfl, by simp [hbs, hpad, addPadding_eq], he,
      by simp [hbs, addPadding_eq], ha⟩

instance {n : ℕ} : LawfulXdr (Vector UInt8 n) where
  encodes v _ := ⟨_, array_encodes v⟩
  consumes := (ExactXdr.exact (α := Vector UInt8 n)).consumes
  failsWith := by
    intro b e h
    rcases bind_eq_error h with hr | ⟨⟨bs, m⟩, s, -, hpure⟩
    · exact Or.inl (readPadded_eq_error hr)
    · cases hpure

instance {n : ℕ} : RationedXdr (Vector UInt8 n) := ⟨fun _ => .free _⟩

instance : XdrSpec Opaque where
  valid v := decide (v.data.length < 2 ^ 32)
  padding v := List.replicate 4 false ++ paddedMask v.data.length

theorem lenTryInto_of_lt {len : ℕ} (h : len < 2 ^ 32) (out : Bytes) :
    lenTryInto len out = .ok (UInt32.ofNat len, out) := by
  unfold lenTryInto
  rw [if_pos h]
  rfl

theorem opaque_encodes (v : Opaque) (h : v.data.length < 2 ^ 32) :
    XdrCodec.codec.Encodes 4 v
      (toBe 4 v.data.length ++ (v.data ++ zeroPadding v.data.length)) where
  size_eq := by
    show 4 + addPadding v.data.length = _
    simp [addPadding_eq]
  aligned := by
    have hlen : (toBe 4 v.data.length ++ (v.data ++ zeroPadding v.data.length)).length =
        4 + addPadding v.data.length := by simp [addPadding_eq]
    rw [hlen]
    exact dvd_add (dvd_refl 4) (four_dvd_addPadding _)
  writes out := by
    show (lenTryInto v.data.length >>= _) out = _
    rw [bind_of_ok (lenTryInto_of_lt h out), bind_of_ok (pack_u32 _ out),
      bind_of_ok (writePadded_eq v.data _), UInt32.toNat_ofNat_of_lt' h]
    simp [addPadding_eq]
  reads s := by
    show (unpack >>= _) _ = _
    have hw := unpack_u32_append (UInt32.ofNat v.data.length)
      (v.data ++ zeroPadding v.data.length ++ s)
    rw [UInt32.toNat_ofNat_of_lt' h] at hw
    rw [List.append_assoc, bind_of_ok hw]
    simp only [UInt32.toNat_ofNat_of_lt' h, allocate_unlimited_bind]
    rw [bind_of_ok (readPadded_append rfl (length_zeroPadding v.data.length) s)]
    simp [addPadding_eq]

instance : ExactXdr Opaque where
  exact := by
    intro b v l s h
    obtain ⟨⟨len, m⟩, s₁, hlen, hrest⟩ := bind_eq_ok h
    obtain ⟨rfl, rfl⟩ := unpack_u32_eq_ok hlen
    simp only [allocate_unlimited_bind] at hrest
    obtain ⟨⟨bs, n⟩, s₂, hr, hpure⟩ := bind_eq_ok hrest
    obtain ⟨pad, rfl, hbs, hpad, rfl⟩ := readPadded_eq_ok hr
    cases hpure
    have hlt : bs.length < 2 ^ 32 := hbs ▸ len.toNat_lt
    have he := opaque_encodes ⟨bs⟩ hlt
    rw [← hbs] at hpad ⊢
    refine ⟨_, _, (List.append_assoc _ _ _).symm, ?_, he, ?_, ?_⟩
    · simp [hpad, addPadding_eq]
    · simp [addPadding_eq]
    · have hw := AgreesOff.refl (toBe 4 bs.length)
      rw [length_toBe] at hw
      exact hw.append (agreesOff_padded hpad)

instance : LawfulXdr Opaque where
  encodes v hv := ⟨_, opaque_encodes v (by simpa [XdrSpec.valid] using hv)⟩
  consumes := (ExactXdr.exact (α := Opaque)).consumes
  failsWith := by
    intro b e h
    rcases bind_eq_error h with hlen | ⟨⟨len, m⟩, s, -, hrest⟩
    · exact unpack_u32_eq_error hlen
    · simp only [allocate_unlimited_bind] at hrest
      rcases bind_eq_error hrest with hr | ⟨⟨bs, n⟩, s', -, hpure⟩
      · exact Or.inl (readPadded_eq_error hr)
      · cases hpure

instance : RationedXdr Opaque :=
  ⟨fun memory => (Rationed.free _).bind fun _ => (allocate_rationed memory _).then_free _⟩

instance : XdrSpec (List UInt32) where
  valid v := decide (v.length < 2 ^ 32)
  padding v := List.replicate (4 + v.length * 4) false

def itemBytes (items : List UInt32) : Bytes := items.flatMap fun v => toBe 4 v.toNat

@[simp] theorem length_itemBytes (items : List UInt32) :
    (itemBytes items).length = items.length * 4 := by
  induction items with
  | nil => rfl
  | cons v items ih =>
    simp only [itemBytes, List.flatMap_cons, List.length_append, length_toBe,
      List.length_cons] at ih ⊢
    omega

theorem packItems_eq (items : List UInt32) (n : ℕ) (out : Bytes) :
    packItems items n out = .ok (n + items.length * 4, out ++ itemBytes items) := by
  induction items generalizing n out with
  | nil => simp [packItems, itemBytes]
  | cons v items ih =>
    rw [packItems, bind_of_ok (pack_u32 v out), ih]
    simp only [itemBytes, List.flatMap_cons, List.append_assoc, List.length_cons]
    congr 2
    omega

theorem unpackItems_append (items acc : List UInt32) (n : ℕ) (s : Bytes) :
    unpackItems items.length acc n (itemBytes items ++ s) =
      .ok ((acc ++ items, n + items.length * 4), s) := by
  induction items generalizing acc n with
  | nil => simp [unpackItems, itemBytes]
  | cons v items ih =>
    have happ : itemBytes (v :: items) ++ s = toBe 4 v.toNat ++ (itemBytes items ++ s) := by
      simp [itemBytes]
    rw [happ, List.length_cons, unpackItems, bind_of_ok (unpack_u32_append v _)]
    simp only [ih, List.append_assoc, List.singleton_append]
    congr 3
    omega

theorem unpackItems_eq_ok {len n m : ℕ} {acc r : List UInt32} {b s : Bytes}
    (h : unpackItems len acc n b = .ok ((r, m), s)) :
    ∃ items, r = acc ++ items ∧ items.length = len ∧ b = itemBytes items ++ s ∧
      m = n + len * 4 := by
  induction len generalizing acc n b with
  | zero =>
    cases h
    exact ⟨[], by simp, rfl, rfl, rfl⟩
  | succ len ih =>
    rw [unpackItems] at h
    obtain ⟨⟨v, k⟩, s₁, hv, hrest⟩ := bind_eq_ok h
    obtain ⟨rfl, rfl⟩ := unpack_u32_eq_ok hv
    obtain ⟨items, rfl, rfl, rfl, rfl⟩ := ih hrest
    exact ⟨v :: items, by simp, rfl, by simp [itemBytes], by omega⟩

theorem unpackItems_eq_error {len n : ℕ} {acc : List UInt32} {b : Bytes} {e : Error}
    (h : unpackItems len acc n b = .error e) : IsDecodeError e := by
  induction len generalizing acc n b with
  | zero => cases h
  | succ len ih =>
    rw [unpackItems] at h
    rcases bind_eq_error h with hv | ⟨⟨v, k⟩, s, -, hrest⟩
    · exact unpack_u32_eq_error hv
    · exact ih hrest

theorem vec_encodes (v : List UInt32) (h : v.length < 2 ^ 32) :
    XdrCodec.codec.Encodes 4 v (toBe 4 v.length ++ itemBytes v) where
  size_eq := by
    show 4 + v.length * 4 = _
    simp
  aligned := by
    rw [List.length_append, length_toBe, length_itemBytes]
    exact dvd_add (dvd_refl 4) (Dvd.intro_left _ rfl)
  writes out := by
    show (lenTryInto v.length >>= _) out = _
    rw [bind_of_ok (lenTryInto_of_lt h out), bind_of_ok (pack_u32 _ out), packItems_eq,
      UInt32.toNat_ofNat_of_lt' h]
    simp
  reads s := by
    show (unpack >>= _) _ = _
    have hw := unpack_u32_append (UInt32.ofNat v.length) (itemBytes v ++ s)
    rw [UInt32.toNat_ofNat_of_lt' h] at hw
    rw [List.append_assoc, bind_of_ok hw]
    simp only [UInt32.toNat_ofNat_of_lt' h, allocate_unlimited_bind, unpackItems_append]
    simp

instance : ExactXdr (List UInt32) where
  exact := by
    intro b v l s h
    obtain ⟨⟨len, m⟩, s₁, hlen, hrest⟩ := bind_eq_ok h
    obtain ⟨rfl, rfl⟩ := unpack_u32_eq_ok hlen
    obtain ⟨items, rfl, hitems, rfl, rfl⟩ := unpackItems_eq_ok hrest
    have hlt : v.length < 2 ^ 32 := hitems ▸ len.toNat_lt
    rw [← hitems]
    refine ⟨_, _, (List.append_assoc _ _ _).symm, by simp, vec_encodes v hlt, by simp, ?_⟩
    have ha := AgreesOff.refl (toBe 4 v.length ++ itemBytes v)
    rwa [List.length_append, length_toBe, length_itemBytes] at ha

instance : LawfulXdr (List UInt32) where
  encodes v hv := ⟨_, vec_encodes v (by simpa [XdrSpec.valid] using hv)⟩
  consumes := (ExactXdr.exact (α := List UInt32)).consumes
  failsWith := by
    intro b e h
    rcases bind_eq_error h with hlen | ⟨⟨len, m⟩, s, -, hrest⟩
    · exact unpack_u32_eq_error hlen
    · exact unpackItems_eq_error hrest

instance : RationedXdr (List UInt32) :=
  ⟨fun memory => (Rationed.free _).bind fun _ => (allocate_rationed memory _).then_free _⟩

/-! ## Lists, structs and unions -/

section Composite

variable {α β : Type} [XdrCodec α] [XdrCodec β] [XdrSpec α] [XdrSpec β]

instance : XdrSpec (XdrList α) where
  valid v := v.items.all XdrSpec.valid
  padding v := Codec.markedPadding XdrSpec.padding XdrSpec.padding v.items

instance [ExactXdr α] : ExactXdr (XdrList α) where
  exact := ((ExactXdr.exact (α := Bool)).marked (by decide) ExactXdr.exact).iso (XdrList.equiv α)

instance [LawfulXdr α] : LawfulXdr (XdrList α) where
  encodes v hv := by
    have hall : ∀ a ∈ v.items, XdrSpec.valid a = true := by simpa [XdrSpec.valid] using hv
    have hmark : ∀ b : Bool, ∃ ms, XdrCodec.codec.Encodes 4 b ms :=
      fun b => LawfulXdr.encodes b rfl
    obtain ⟨cs, hcs⟩ := Codec.exists_markedEncodes hmark
      fun a ha => LawfulXdr.encodes a (hall a ha)
    exact ⟨cs, (hcs.encodes (by decide)).iso⟩
  consumes := ((LawfulXdr.consumes (α := Bool)).marked LawfulXdr.consumes).iso (XdrList.equiv α)
  failsWith := ((LawfulXdr.failsWith (α := Bool)).marked LawfulXdr.failsWith LawfulXdr.consumes
    LawfulXdr.consumes fun _ _ _ _ h => bool_read_pos h).iso (XdrList.equiv α)

instance [RationedXdr α] : RationedXdr (XdrList α) :=
  ⟨fun memory => (Codec.RationedBy.marked (RationedXdr.rationed memory)
    (RationedXdr.rationed memory)).iso (XdrList.equiv α)⟩

instance : XdrSpec (α × β) where
  valid v := XdrSpec.valid v.1 && XdrSpec.valid v.2
  padding v := XdrSpec.padding v.1 ++ XdrSpec.padding v.2

instance [ExactXdr α] [ExactXdr β] : ExactXdr (α × β) where
  exact := (ExactXdr.exact (α := α)).seq ExactXdr.exact

instance [LawfulXdr α] [LawfulXdr β] : LawfulXdr (α × β) where
  encodes v hv := by
    have hv' : XdrSpec.valid v.1 = true ∧ XdrSpec.valid v.2 = true := by
      simpa [XdrSpec.valid] using hv
    obtain ⟨bs, hbs⟩ := LawfulXdr.encodes v.1 hv'.1
    obtain ⟨cs, hcs⟩ := LawfulXdr.encodes v.2 hv'.2
    exact ⟨bs ++ cs, hbs.seq hcs⟩
  consumes := (LawfulXdr.consumes (α := α)).seq LawfulXdr.consumes
  failsWith := (LawfulXdr.failsWith (α := α)).seq LawfulXdr.failsWith

instance [RationedXdr α] [RationedXdr β] : RationedXdr (α × β) :=
  ⟨fun memory => (RationedXdr.rationed (α := α) memory).seq (RationedXdr.rationed memory)⟩

end Composite

section Struct

variable {S F : Type} [XdrStruct S F] [XdrCodec F] [XdrSpec F]

instance : XdrSpec S where
  valid v := XdrSpec.valid (XdrStruct.fields v)
  padding v := XdrSpec.padding (XdrStruct.fields v)

instance [ExactXdr F] : ExactXdr S where
  exact := (ExactXdr.exact (α := F)).iso XdrStruct.fields

instance [LawfulXdr F] : LawfulXdr S where
  encodes v hv := by
    obtain ⟨bs, hbs⟩ := LawfulXdr.encodes (XdrStruct.fields v) hv
    exact ⟨bs, hbs.iso⟩
  consumes := (LawfulXdr.consumes (α := F)).iso XdrStruct.fields
  failsWith := (LawfulXdr.failsWith (α := F)).iso XdrStruct.fields

instance [RationedXdr F] : RationedXdr S :=
  ⟨fun memory => (RationedXdr.rationed (α := F) memory).iso XdrStruct.fields⟩

end Struct

section Union

variable {α β : Type} [XdrSpec α] [XdrSpec β]

instance : XdrSpec (α ⊕ β) where
  valid := Sum.elim XdrSpec.valid XdrSpec.valid
  padding := Sum.elim XdrSpec.padding XdrSpec.padding

structure LawfulArms (a : Arms Error UInt32 α) : Prop where
  closed : a.Closed
  distinct : a.tags.Nodup
  encodes : ∀ v, XdrSpec.valid v = true → ∃ bs, a.Encodes 4 v bs
  consumes : a.Consumes 4
  failsWith : a.FailsWith IsDecodeError

structure ExactArms (a : Arms Error UInt32 α) : Prop extends LawfulArms a where
  exact : a.Exact 4 XdrSpec.padding

theorem LawfulArms.one [XdrCodec α] [LawfulXdr α] (tag : UInt32) :
    LawfulArms (xdrArm .unlimited α tag) where
  closed := .one tag _
  distinct := List.nodup_singleton tag
  encodes v hv := by
    obtain ⟨bs, hbs⟩ := LawfulXdr.encodes v hv
    exact ⟨bs, .one tag hbs⟩
  consumes := .one tag LawfulXdr.consumes
  failsWith := .one tag LawfulXdr.failsWith

theorem ExactArms.one [XdrCodec α] [LawfulXdr α] [ExactXdr α] (tag : UInt32) :
    ExactArms (xdrArm .unlimited α tag) where
  toLawfulArms := .one tag
  exact := .one tag ExactXdr.exact

section Or

variable {a : Arms Error UInt32 α} {b : Arms Error UInt32 β}

theorem LawfulArms.or (ha : LawfulArms a) (hb : LawfulArms b) (hd : (a.or b).tags.Nodup) :
    LawfulArms (a.or b) where
  closed := ha.closed.or hb.closed
  distinct := hd
  encodes v hv := by
    cases v with
    | inl v =>
      obtain ⟨bs, hbs⟩ := ha.encodes v hv
      exact ⟨bs, hbs.inl⟩
    | inr v =>
      obtain ⟨bs, hbs⟩ := hb.encodes v hv
      exact ⟨bs, hbs.inr ha.closed hb.closed hd⟩
  consumes := ha.consumes.or hb.consumes
  failsWith := ha.failsWith.or hb.failsWith

theorem ExactArms.or (ha : ExactArms a) (hb : ExactArms b) (hd : (a.or b).tags.Nodup) :
    ExactArms (a.or b) where
  toLawfulArms := ha.toLawfulArms.or hb.toLawfulArms hd
  exact := .or ha.closed hb.closed hd ha.exact hb.exact

end Or

class LawfulUnion (E : Type) {A : Type} [XdrUnion E A] [XdrSpec A] : Prop where
  lawful : LawfulArms (XdrUnion.arms E .unlimited)

class ExactUnion (E : Type) {A : Type} [XdrUnion E A] [XdrSpec A] : Prop where
  exact : ExactArms (XdrUnion.arms E .unlimited)

class RationedUnion (E : Type) {A : Type} [XdrUnion E A] : Prop where
  rationed : ∀ memory : Allocator, (XdrUnion.arms E .unlimited).RationedBy memory.grants
    .outOfMemory (XdrUnion.arms E memory)

theorem xdrArm_rationed {α : Type} [XdrCodec α] [RationedXdr α] (memory : Allocator)
    (tag : UInt32) :
    (xdrArm .unlimited α tag).RationedBy memory.grants .outOfMemory (xdrArm memory α tag) :=
  .one tag (RationedXdr.rationed memory)

variable {E A : Type} [XdrUnion E A] [XdrSpec A]

instance [ExactUnion E] : LawfulUnion E := ⟨ExactUnion.exact.toLawfulArms⟩

instance : XdrSpec E where
  valid v := XdrSpec.valid (XdrUnion.variants v)
  padding v := List.replicate 4 false ++ XdrSpec.padding (XdrUnion.variants v)

instance [ExactUnion E] : ExactXdr E where
  exact := (Tagged.Exact.codec (ExactXdr.exact (α := UInt32)) ExactUnion.exact.exact.tagged).iso
    XdrUnion.variants

instance [LawfulUnion E] : LawfulXdr E where
  encodes v hv := by
    obtain ⟨bs, hbs⟩ := (LawfulUnion.lawful (E := E)).encodes (XdrUnion.variants v) hv
    exact ⟨_, (Tagged.Encodes.codec (u32_encodes _) hbs.tagged).iso⟩
  consumes := (Tagged.Consumes.codec (LawfulXdr.consumes (α := UInt32))
    LawfulUnion.lawful.consumes.tagged).iso XdrUnion.variants
  failsWith := (Tagged.FailsWith.codec (LawfulXdr.failsWith (α := UInt32))
    (LawfulUnion.lawful.failsWith.tagged fun tag => Or.inr ⟨tag, rfl⟩)).iso XdrUnion.variants

omit [XdrSpec A] in
instance [RationedUnion E] : RationedXdr E :=
  ⟨fun memory => (Tagged.RationedBy.codec (RationedXdr.rationed (α := UInt32) memory)
    (RationedUnion.rationed (E := E) memory).tagged).iso XdrUnion.variants⟩

end Union

/-! ## Hand-written unions -/

section HandWritten

variable {τ α : Type}

/-- A class of wire types, as a predicate. -/
def WireClass := (β : Type) → XdrCodec β → XdrSpec β → Prop

def isLawful : WireClass := fun β _ _ => LawfulXdr β

def isExact : WireClass := fun β _ _ => LawfulXdr β ∧ ExactXdr β

/-- Under `tag`, `t` carries a value of one type of the class `P` and nothing else. -/
inductive PayloadArm (P : WireClass) (t : Tagged Error τ α) (valid : α → Bool)
    (padding : α → List Bool) (tag : τ) : Prop
  | mk {β : Type} [c : XdrCodec β] [d : XdrSpec β] (hP : P β c d) (f : β → α)
      (arm : t.Arm tag XdrCodec.codec f) (padding_eq : ∀ u, padding (f u) = XdrSpec.padding u)
      (valid_eq : ∀ v, valid v = true → t.tag v = tag → ∃ u, v = f u ∧ XdrSpec.valid u = true)

namespace PayloadArm

variable {P : WireClass} {t : Tagged Error τ α} {valid : α → Bool} {padding : α → List Bool}

/-- A tag that only `v` carries, without payload. -/
theorem void {tag : τ} (v : α) (hread : t.read tag = pure (v, 0)) (htag : t.tag v = tag)
    (hsize : t.size v = 0) (hwrite : t.write v = pure 0) (hpad : padding v = [])
    (huniq : ∀ w, t.tag w = tag → w = v) (hP : P Void inferInstance inferInstance) :
    PayloadArm P t valid padding tag :=
  .mk hP (fun _ : Void => v)
    ⟨hread.trans rfl, fun _ => htag, fun _ => hsize, fun _ => hwrite⟩ (fun _ => hpad)
    fun w _ hw => ⟨⟨⟩, huniq w hw, rfl⟩

theorem lawful {tag : τ} (h : PayloadArm isExact t valid padding tag) :
    PayloadArm isLawful t valid padding tag := by
  obtain ⟨⟨hl, -⟩, f, arm, padding_eq, valid_eq⟩ := h
  exact .mk hl f arm padding_eq valid_eq

theorem encodes (h : ∀ tag, PayloadArm isLawful t valid padding tag) {v : α}
    (hv : valid v = true) : ∃ bs, t.Encodes 4 v bs := by
  obtain ⟨hl, f, arm, -, valid_eq⟩ := h (t.tag v)
  obtain ⟨u, rfl, hu⟩ := valid_eq v hv rfl
  obtain ⟨bs, hbs⟩ := hl.encodes u hu
  exact ⟨bs, arm.encodes hbs⟩

theorem consumes (h : ∀ tag, PayloadArm isLawful t valid padding tag) : t.Consumes 4 := by
  intro tag b v n s hr
  obtain ⟨hl, f, arm, -, -⟩ := h tag
  exact arm.consumes hl.consumes hr

theorem failsWith (h : ∀ tag, PayloadArm isLawful t valid padding tag) :
    t.FailsWith IsDecodeError := by
  intro tag b e hr
  obtain ⟨hl, f, arm, -, -⟩ := h tag
  exact arm.failsWith hl.failsWith hr

theorem exact (h : ∀ tag, PayloadArm isExact t valid padding tag) : t.Exact 4 padding := by
  intro tag b v n s hr
  obtain ⟨⟨-, he⟩, f, arm, padding_eq, -⟩ := h tag
  exact arm.exact he.exact padding_eq hr

end PayloadArm

/-- Two readers of one payload, in unlimited and in limited memory. -/
theorem payload_rationed {α β : Type} [XdrCodec β] [RationedXdr β] (memory : Allocator)
    (f : β → α) :
    Rationed memory.grants .outOfMemory (requests β) (XdrCodec.codec.readAs f)
      ((XdrCodec.codecIn memory).readAs f) :=
  (RationedXdr.rationed memory).readAs f

/-- The part of `XdrSpec` that is about the payload behind a status. -/
class StatusSpec (α : Type) where
  valid : α → Bool
  padding : α → List Bool

instance [StatusSpec α] : XdrSpec α where
  valid := StatusSpec.valid
  padding v := List.replicate 4 false ++ StatusSpec.padding v

/-- Every status selects a payload of the class `P`. -/
def StatusArms (P : WireClass) (α : Type) {τ : Type} [XdrStatus α τ] [StatusSpec α] : Prop :=
  ∀ tag : τ, PayloadArm P (XdrStatus.tagged .unlimited) (StatusSpec.valid (α := α))
    StatusSpec.padding tag

class LawfulStatus (α : Type) {τ : Type} [XdrStatus α τ] [StatusSpec α] : Prop where
  arms : StatusArms isLawful α

class ExactStatus (α : Type) {τ : Type} [XdrStatus α τ] [StatusSpec α] : Prop where
  arms : StatusArms isExact α

class RationedStatus (α : Type) {τ : Type} [XdrStatus α τ] : Prop where
  rationed : ∀ memory : Allocator, (XdrStatus.tagged (α := α) .unlimited).RationedBy
    memory.grants .outOfMemory (XdrStatus.tagged memory)

variable [XdrStatus α τ] [XdrEnum τ] [StatusSpec α]

instance [ExactStatus α] : LawfulStatus α := ⟨fun tag => (ExactStatus.arms tag).lawful⟩

instance [ExactStatus α] : ExactXdr α where
  exact := Tagged.Exact.codec (ExactXdr.exact (α := τ)) (PayloadArm.exact ExactStatus.arms)

instance [LawfulStatus α] : LawfulXdr α where
  encodes v hv := by
    obtain ⟨ts, hts⟩ := LawfulXdr.encodes ((XdrStatus.tagged .unlimited).tag v) rfl
    obtain ⟨bs, hbs⟩ : ∃ bs, (XdrStatus.tagged (α := α) .unlimited).Encodes 4 v bs :=
      PayloadArm.encodes LawfulStatus.arms hv
    exact ⟨ts ++ bs, Tagged.Encodes.codec hts hbs⟩
  consumes := Tagged.Consumes.codec (LawfulXdr.consumes (α := τ))
    (PayloadArm.consumes LawfulStatus.arms)
  failsWith := Tagged.FailsWith.codec (LawfulXdr.failsWith (α := τ))
    (PayloadArm.failsWith LawfulStatus.arms)

omit [StatusSpec α] in
instance [RationedStatus α] : RationedXdr α :=
  ⟨fun memory => Tagged.RationedBy.codec (RationedXdr.rationed (α := τ) memory)
    (RationedStatus.rationed memory)⟩

end HandWritten

end Nfs3
