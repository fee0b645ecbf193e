import Nfs3.Lib.CodecCombinators

/-!
# The XDR codec of `nfs3_types`

`Pack` and `Unpack` are one class here: every type of the crate implements both.
Output is a growing byte vector, so writing itself never fails; input is a cursor
over a byte string, so reading fails exactly when too few bytes are left. Sizes are
natural numbers. A reader that fills a buffer of announced length asks the allocator
for all of it first.

The derive macro is modelled by what it generates: a struct is the sequence of its
fields, an enum without payloads is its discriminant, an enum with payloads is a
tag followed by the payload of the variant.
-/
namespace Nfs3

open ByteOrder ByteCodec

/-- The last two are not errors of the source: `outOfMemory` stands for the end of the
process when the allocator refuses, `diverged` for a read loop that does not end, which
no reader has. -/
inductive Error
  | io
  | invalidEnumValue (value : UInt32)
  | invalidLength (len : ℕ)
  | objectTooLarge (size : ℕ)
  | outOfMemory
  | diverged
  deriving DecidableEq, Repr

/-- The sizes in bytes for which there is memory; an empty request never gets as far as
the allocator. -/
structure Allocator where
  grants : ℕ → Bool
  grants_zero : grants 0 = true

def Allocator.unlimited : Allocator := ⟨fun _ => true, rfl⟩

/-- On a 32-bit target no request for more than `isize::MAX` bytes is granted. -/
def Allocator.target32 : Allocator := ⟨fun size => decide (size < 2 ^ 31), rfl⟩

class XdrCodec (α : Type) where
  codecIn : Allocator → Codec Error α

/-- Memory plays a part only where an allocator is named. -/
abbrev XdrCodec.codec {α : Type} [XdrCodec α] : Codec Error α := XdrCodec.codecIn .unlimited

section Traits

variable {α : Type} [XdrCodec α]

def packedSize (v : α) : ℕ := XdrCodec.codec.size v

def pack (v : α) : ByteM Error ℕ := XdrCodec.codec.write v

def unpack : ByteM Error (α × ℕ) := XdrCodec.codec.read

def unpackIn (memory : Allocator) : ByteM Error (α × ℕ) := (XdrCodec.codecIn memory).read

theorem unpackIn_unlimited : unpackIn (α := α) .unlimited = unpack := rfl

variable (α) in
/-- The sizes that unpacking an `α` asks the allocator for, in order. -/
def requests (b : Bytes) : List ℕ := (XdrCodec.codec (α := α)).requests b

end Traits

/-! ## Helpers -/

/-- `(sz + 3) & !3`. -/
def addPadding (sz : ℕ) : ℕ := (sz + 3) / 4 * 4

/-- `-(len as isize) & 3`. -/
def getPadding (len : ℕ) : ℕ := (4 - len % 4) % 4

def zeroPadding (len : ℕ) : Bytes := List.replicate (getPadding len) 0

def writeAll (bs : Bytes) : ByteM Error Unit := modify (· ++ bs)

def readExact (n : ℕ) : ByteM Error Bytes := fun b =>
  if n ≤ b.length then .ok (b.take n, b.drop n) else .error .io

/-- `Vec::with_capacity` and `vec![0; n]`, for `size` bytes. -/
def allocate (memory : Allocator) (size : ℕ) : ByteM Error Unit :=
  if memory.grants size then pure () else throw .outOfMemory

/-- `u32::try_from` on a length. -/
def lenTryInto (len : ℕ) : ByteM Error UInt32 :=
  if len < 2 ^ 32 then pure (UInt32.ofNat len) else throw (.objectTooLarge len)

/-- Bytes followed by the zeroes that fill up the last word. -/
def writePadded (bs : Bytes) : ByteM Error ℕ := do
  writeAll bs
  writeAll (zeroPadding bs.length)
  pure (bs.length + (zeroPadding bs.length).length)

/-- The counterpart: the padding bytes are read into a scratch buffer and ignored. -/
def readPadded (n : ℕ) : ByteM Error (Bytes × ℕ) := do
  let buf ← readExact n
  if 0 < getPadding n then
    let _ ← readExact (getPadding n)
    pure (buf, n + getPadding n)
  else
    pure (buf, n)

/-! ## Primitives -/

/-- A `w`-byte big-endian word. -/
def beWord {α : Type} (w : ℕ) (toNat : α → ℕ) (ofNat : ℕ → α) : Codec Error α where
  size _ := w
  write v := do
    writeAll (toBe w (toNat v))
    pure w
  read := do
    let bytes ← readExact w
    pure (ofNat (ofBe bytes), w)

instance : XdrCodec UInt32 := ⟨fun _ => beWord 4 UInt32.toNat UInt32.ofNat⟩

instance : XdrCodec UInt64 := ⟨fun _ => beWord 8 UInt64.toNat UInt64.ofNat⟩

instance : XdrCodec Bool where
  codecIn _ :=
    { size := fun _ => 4
      write := fun v => pack (if v then (1 : UInt32) else 0)
      read := do
        let (val, bytesRead) ← unpack (α := UInt32)
        if val = 0 then pure (false, bytesRead)
        else if val = 1 then pure (true, bytesRead)
        else throw (.invalidEnumValue val) }

/-- `[u8; N]`. -/
instance {n : ℕ} : XdrCodec (Vector UInt8 n) where
  codecIn _ :=
    { size := fun _ => addPadding n
      write := fun v => writePadded v.toList
      read := do
        let (buf, bytesRead) ← readPadded n
        pure (Vector.ofFn fun i => buf.getD i 0, bytesRead) }

def packItems : List UInt32 → ℕ → ByteM Error ℕ
  | [], bytesWritten => pure bytesWritten
  | item :: items, bytesWritten => do
    let n ← pack item
    packItems items (bytesWritten + n)

def unpackItems : ℕ → List UInt32 → ℕ → ByteM Error (List UInt32 × ℕ)
  | 0, vec, bytesRead => pure (vec, bytesRead)
  | len + 1, vec, bytesRead => do
    let (item, itemBytes) ← unpack (α := UInt32)
    unpackItems len (vec ++ [item]) (bytesRead + itemBytes)

/-- `Vec<u32>`: a count and that many words. -/
instance : XdrCodec (List UInt32) where
  codecIn memory :=
    { size := fun v => 4 + v.length * 4
      write := fun v => do
        let len ← lenTryInto v.length
        let bytesWritten ← pack len
        packItems v bytesWritten
      read := do
        let (len, lenBytes) ← unpack (α := UInt32)
        allocate memory (len.toNat * 4)
        unpackItems len.toNat [] lenBytes
      requests := requestsAfter (unpack (α := UInt32)) fun r _ => [r.1.toNat * 4] }

/-- Variable-length opaque data. -/
structure Opaque where
  data : Bytes
  deriving DecidableEq, Repr

instance : XdrCodec Opaque where
  codecIn memory :=
    { size := fun v => 4 + addPadding v.data.length
      write := fun v => do
        let len ← lenTryInto v.data.length
        let bytesWritten ← pack len
        let n ← writePadded v.data
        pure (bytesWritten + n)
      read := do
        let (len, bytesRead) ← unpack (α := UInt32)
        allocate memory len.toNat
        let (buf, n) ← readPadded len.toNat
        pure (⟨buf⟩, bytesRead + n)
      requests := requestsAfter (unpack (α := UInt32)) fun r _ => [r.1.toNat] }

/-- `Void` packs to nothing. -/
structure Void where
  deriving DecidableEq, Repr

instance : XdrCodec Void where
  codecIn _ :=
    { size := fun _ => 0
      write := fun _ => pure 0
      read := pure (⟨⟩, 0) }

/-- `List<T>`: every item is announced by `true`, the end by `false`. -/
structure XdrList (α : Type) where
  items : List α
  deriving DecidableEq, Repr

def XdrList.equiv (α : Type) : XdrList α ≃ List α where
  toFun := XdrList.items
  invFun := XdrList.mk

instance {α : Type} [XdrCodec α] : XdrCodec (XdrList α) :=
  ⟨fun memory => (Codec.marked (XdrCodec.codecIn memory) (XdrCodec.codecIn memory)
    .diverged).iso (XdrList.equiv α)⟩

/-! ## What the derive macro generates -/

/-- The fields of a struct, one after the other. -/
instance {α β : Type} [XdrCodec α] [XdrCodec β] : XdrCodec (α × β) :=
  ⟨fun memory => (XdrCodec.codecIn memory).seq (XdrCodec.codecIn memory)⟩

/-- `#[derive(XdrCodec)]` on a struct: its fields in declaration order. -/
class XdrStruct (S : Type) (F : outParam Type) where
  fields : S ≃ F

instance {S F : Type} [XdrStruct S F] [XdrCodec F] : XdrCodec S :=
  ⟨fun memory => (XdrCodec.codecIn memory).iso XdrStruct.fields⟩

/-- A value spelled by one word, with `ofTag` deciding which words are accepted. -/
def tagWord {α : Type} (toTag : α → UInt32) (ofTag : UInt32 → Option α) : Codec Error α where
  size _ := 4
  write v := pack (toTag v)
  read := do
    let (tag, bytesRead) ← unpack (α := UInt32)
    match ofTag tag with
    | some v => pure (v, bytesRead)
    | none => throw (.invalidEnumValue tag)

/-- `#[derive(XdrCodec)]` on an enum without payloads: its variants in declaration
order and their discriminants. -/
class XdrEnum (E : Type) where
  variants : List E
  asU32 : E → UInt32
  complete : ∀ v, v ∈ variants
  distinct : (variants.map asU32).Nodup

/-- The generated `match tag`, one guarded arm per variant. -/
def enumOfTag {E : Type} [XdrEnum E] (tag : UInt32) : Option E :=
  XdrEnum.variants.find? fun v => tag = XdrEnum.asU32 v

instance {E : Type} [XdrEnum E] : XdrCodec E :=
  ⟨fun _ => tagWord XdrEnum.asU32 enumOfTag⟩

/-- One variant of an enum with payloads, `#[xdr(tag)]`; a unit variant has payload
`Void`. -/
def xdrArm (memory : Allocator) (α : Type) [XdrCodec α] (tag : UInt32) : Arms Error UInt32 α :=
  .one tag (XdrCodec.codecIn memory)

/-- `#[derive(XdrCodec)]` on an enum with payloads: its variants as alternatives. -/
class XdrUnion (E : Type) (A : outParam Type) where
  arms : Allocator → Arms Error UInt32 A
  variants : E ≃ A

instance {E A : Type} [XdrUnion E A] : XdrCodec E :=
  ⟨fun memory => (((XdrUnion.arms E memory).tagged .invalidEnumValue).codec
    (XdrCodec.codecIn memory)).iso XdrUnion.variants⟩

/-! ## Hand-written unions -/

/-- A status enum `τ` in front of the payload it selects. -/
class XdrStatus (α : Type) (τ : outParam Type) where
  tagged : Allocator → Tagged Error τ α

instance {α τ : Type} [XdrStatus α τ] [XdrEnum τ] : XdrCodec α :=
  ⟨fun memory => (XdrStatus.tagged memory).codec (XdrCodec.codecIn memory)⟩

/-! ## Sizes -/

theorem packedSize_uint32 (v : UInt32) : packedSize v = 4 := rfl

theorem packedSize_uint64 (v : UInt64) : packedSize v = 8 := rfl

theorem packedSize_enum {E : Type} [XdrEnum E] (v : E) : packedSize v = 4 := rfl

theorem packedSize_prod {α β : Type} [XdrCodec α] [XdrCodec β] (v : α × β) :
    packedSize v = packedSize v.1 + packedSize v.2 := rfl

theorem packedSize_struct {S F : Type} [XdrStruct S F] [XdrCodec F] (v : S) :
    packedSize v = packedSize (XdrStruct.fields v) := rfl

end Nfs3
