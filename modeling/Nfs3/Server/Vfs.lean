import Nfs3.Types.NfsData

/-!
# The file system interface of the server

File handles and their wire form, the entries and results of directory iterators, and the
part of a file system that directory listings use. The methods of a file system may change
its state, also those that only read: an iterator can be kept for a later request.
-/
namespace Nfs3

open ByteOrder (Bytes toBe ofBe)

/-- The bytes of a number, least significant first. -/
def toLeBytes (n : UInt64) : Bytes := (toBe 8 n.toNat).reverse

def ofLeBytes (bs : Bytes) : UInt64 := .ofNat (ofBe bs.reverse)

class FileHandle (H : Type) where
  asBytes : H → Bytes
  fromBytes : Bytes → Option H

abbrev FileHandleU64 := UInt64

/-- `to_ne_bytes` on a little-endian machine. -/
instance : FileHandle FileHandleU64 where
  asBytes := toLeBytes
  fromBytes bytes := if bytes.length = 8 then some (ofLeBytes bytes) else none

structure FileHandleConverter where
  generationNumber : UInt64

namespace FileHandleConverter

variable {H : Type} [FileHandle H]

def generationNumberLe (c : FileHandleConverter) : Bytes := toLeBytes c.generationNumber

def fhToNfs (c : FileHandleConverter) (id : H) : NfsFh3 :=
  ⟨⟨c.generationNumberLe ++ FileHandle.asBytes id⟩⟩

def checkHandle (c : FileHandleConverter) (id : NfsFh3) : Except Nfsstat3 Unit :=
  let data := id.data.data
  if data.length < 8 then .error .nfs3errBadhandle
  else if data.take 8 = c.generationNumberLe then .ok ()
  else if ofLeBytes (data.take 8) < c.generationNumber then .error .nfs3errStale
  else .error .nfs3errBadhandle

def fhFromNfs (c : FileHandleConverter) (id : NfsFh3) : Except Nfsstat3 H :=
  match c.checkHandle id with
  | .error e => .error e
  | .ok () =>
    match FileHandle.fromBytes (id.data.data.drop 8) with
    | some h => .ok h
    | none => .error .nfs3errBadhandle

end FileHandleConverter

/-- An entry of `readdir` is an `entry3`. -/
abbrev DirEntry := Entry3

structure DirEntryPlus (H : Type) where
  fileid : Fileid3
  name : Filename3
  cookie : Cookie3
  nameAttributes : Option Fattr3
  nameHandle : Option H

def Nfs3Option.ofOption {α : Type} : Option α → Nfs3Option α
  | Option.some a => .some a
  | Option.none => .none

def DirEntryPlus.intoEntry {H : Type} [FileHandle H] (entry : DirEntryPlus H)
    (converter : FileHandleConverter) : Entryplus3 where
  fileid := entry.fileid
  name := entry.name
  cookie := entry.cookie
  nameAttributes := .ofOption entry.nameAttributes
  nameHandle := .ofOption (entry.nameHandle.map converter.fhToNfs)

inductive NextResult (α : Type)
  | ok (entry : α)
  | eof
  | err (stat : Nfsstat3)

/-- What the handlers of directory listings use of a file system: its attributes, its
iterators over entries of type `E`, and what dropping an iterator leaves behind. -/
structure DirVfs (σ ι H E : Type) where
  getattr : σ → H → Except Nfsstat3 Fattr3 × σ
  openDir : σ → H → Cookie3 → Except Nfsstat3 ι × σ
  next : σ → ι → NextResult E × ι × σ
  drop : σ → ι → σ

end Nfs3
