import Nfs3.Lib.Interaction
import Nfs3.Server.Vfs
import Nfs3.Types.NfsArgs

/-!
# File systems as parties that answer

A handler is a program that calls the methods of `NfsFileSystem`; what the file system answers
is left open, so one program stands for its runs against every file system. An iterator is
handed to its `next` and comes back with the answer.
-/
namespace Nfs3

open ByteOrder (Bytes)
open Interaction (Prog)

inductive VFSCapabilities
  | readOnly
  | readWrite
  deriving DecidableEq

/-- The methods of `NfsReadFileSystem` and `NfsFileSystem`, of the iterators they return and
the drop of an iterator. `I` and `J` are the iterators of `readdir` and `readdirplus`. -/
inductive VfsCall (H I J : Type)
  | rootDir
  | lookup (dirid : H) (filename : Filename3)
  | lookupByPath (path : String)
  | getattr (id : H)
  | read (id : H) (offset : UInt64) (count : UInt32)
  | readdir (dirid : H) (cookie : UInt64)
  | readdirNext (iter : I)
  | readdirDrop (iter : I)
  | readdirplus (dirid : H) (cookie : UInt64)
  | readdirplusNext (iter : J)
  | readdirplusDrop (iter : J)
  | readlink (id : H)
  | fsinfo (rootFileid : H)
  | capabilities
  | setattr (id : H) (setattr : Sattr3)
  | write (id : H) (offset : UInt64) (data : Bytes)
  | create (dirid : H) (filename : Filename3) (attr : Sattr3)
  | createExclusive (dirid : H) (filename : Filename3) (createverf : Createverf3)
  | mkdir (dirid : H) (dirname : Filename3)
  | remove (dirid : H) (filename : Filename3)
  | rename (fromDirid : H) (fromFilename : Filename3) (toDirid : H) (toFilename : Filename3)
  | symlink (dirid : H) (linkname : Filename3) (symlink : Nfspath3) (attr : Sattr3)

namespace VfsCall

variable {H I J : Type}

def Reply : VfsCall H I J → Type
  | rootDir => H
  | lookup .. | lookupByPath _ | createExclusive .. => Except Nfsstat3 H
  | getattr _ | setattr .. | write .. => Except Nfsstat3 Fattr3
  | read .. => Except Nfsstat3 (Bytes × Bool)
  | readdir .. => Except Nfsstat3 I
  | readdirNext _ => NextResult DirEntry × I
  | readdirplus .. => Except Nfsstat3 J
  | readdirplusNext _ => NextResult (DirEntryPlus H) × J
  | readdirDrop _ | readdirplusDrop _ => Unit
  | readlink _ => Except Nfsstat3 Nfspath3
  | fsinfo _ => Except Nfsstat3 Fsinfo3Resok
  | capabilities => VFSCapabilities
  | create .. | mkdir .. | symlink .. => Except Nfsstat3 (H × Fattr3)
  | remove .. | rename .. => Except Nfsstat3 Unit

/-- The methods of `NfsFileSystem` that change the file system. -/
def mutating : VfsCall H I J → Bool
  | setattr .. | write .. | create .. | createExclusive .. | mkdir .. | remove .. | rename ..
  | symlink .. => true
  | _ => false

end VfsCall

/-- A computation that calls a file system. -/
abbrev VfsM (H I J : Type) := Prog (VfsCall H I J) VfsCall.Reply

namespace Vfs

variable {H I J : Type}

def rootDir : VfsM H I J H := .ask .rootDir .ret

def lookup (dirid : H) (filename : Filename3) : VfsM H I J (Except Nfsstat3 H) :=
  .ask (.lookup dirid filename) .ret

def lookupByPath (path : String) : VfsM H I J (Except Nfsstat3 H) := .ask (.lookupByPath path) .ret

def getattr (id : H) : VfsM H I J (Except Nfsstat3 Fattr3) := .ask (.getattr id) .ret

def read (id : H) (offset : UInt64) (count : UInt32) :
    VfsM H I J (Except Nfsstat3 (Bytes × Bool)) :=
  .ask (.read id offset count) .ret

def readdir (dirid : H) (cookie : UInt64) : VfsM H I J (Except Nfsstat3 I) :=
  .ask (.readdir dirid cookie) .ret

def readdirNext (iter : I) : VfsM H I J (NextResult DirEntry × I) := .ask (.readdirNext iter) .ret

def readdirDrop (iter : I) : VfsM H I J Unit := .ask (.readdirDrop iter) .ret

def readdirplus (dirid : H) (cookie : UInt64) : VfsM H I J (Except Nfsstat3 J) :=
  .ask (.readdirplus dirid cookie) .ret

def readdirplusNext (iter : J) : VfsM H I J (NextResult (DirEntryPlus H) × J) :=
  .ask (.readdirplusNext iter) .ret

def readdirplusDrop (iter : J) : VfsM H I J Unit := .ask (.readdirplusDrop iter) .ret

def readlink (id : H) : VfsM H I J (Except Nfsstat3 Nfspath3) := .ask (.readlink id) .ret

def fsinfo (rootFileid : H) : VfsM H I J (Except Nfsstat3 Fsinfo3Resok) :=
  .ask (.fsinfo rootFileid) .ret

def capabilities : VfsM H I J VFSCapabilities := .ask .capabilities .ret

def setattr (id : H) (setattr : Sattr3) : VfsM H I J (Except Nfsstat3 Fattr3) :=
  .ask (.setattr id setattr) .ret

def write (id : H) (offset : UInt64) (data : Bytes) : VfsM H I J (Except Nfsstat3 Fattr3) :=
  .ask (.write id offset data) .ret

def create (dirid : H) (filename : Filename3) (attr : Sattr3) :
    VfsM H I J (Except Nfsstat3 (H × Fattr3)) :=
  .ask (.create dirid filename attr) .ret

def createExclusive (dirid : H) (filename : Filename3) (createverf : Createverf3) :
    VfsM H I J (Except Nfsstat3 H) :=
  .ask (.createExclusive dirid filename createverf) .ret

def mkdir (dirid : H) (dirname : Filename3) : VfsM H I J (Except Nfsstat3 (H × Fattr3)) :=
  .ask (.mkdir dirid dirname) .ret

def remove (dirid : H) (filename : Filename3) : VfsM H I J (Except Nfsstat3 Unit) :=
  .ask (.remove dirid filename) .ret

def rename (fromDirid : H) (fromFilename : Filename3) (toDirid : H) (toFilename : Filename3) :
    VfsM H I J (Except Nfsstat3 Unit) :=
  .ask (.rename fromDirid fromFilename toDirid toFilename) .ret

def symlink (dirid : H) (linkname : Filename3) (symlink : Nfspath3) (attr : Sattr3) :
    VfsM H I J (Except Nfsstat3 (H × Fattr3)) :=
  .ask (.symlink dirid linkname symlink attr) .ret

end Vfs

/-! ## Default methods -/

def mebibyte : UInt32 := 1024 * 1024

def gibibyte : UInt64 := 1024 * 1024 * 1024

def tebibyte : UInt64 := 1024 * 1024 * 1024 * 1024

def fsf3Symlink : UInt32 := 2

def fsf3Homogeneous : UInt32 := 8

def fsf3Cansettime : UInt32 := 16

def Filename3.ofString (s : String) : Filename3 := ⟨⟨s.toUTF8.data.toList⟩⟩

section Defaults

variable {κ : Type} {ρ : κ → Type} {H : Type}

/-- The components of a path that are not empty, in order, each looked up in the one before. -/
def lookupComponents (lookup : H → Filename3 → Prog κ ρ (Except Nfsstat3 H)) :
    H → List String → Prog κ ρ (Except Nfsstat3 H)
  | fid, [] => .ret (.ok fid)
  | fid, component :: components =>
    if component.isEmpty then lookupComponents lookup fid components
    else (lookup fid (.ofString component)).bind fun
      | .error stat => .ret (.error stat)
      | .ok fid => lookupComponents lookup fid components

/-- `lookup_by_path` of a file system that does not bring its own. -/
def defaultLookupByPath (rootDir : Prog κ ρ H)
    (lookup : H → Filename3 → Prog κ ρ (Except Nfsstat3 H)) (path : String) :
    Prog κ ρ (Except Nfsstat3 H) :=
  rootDir.bind fun fid => lookupComponents lookup fid (path.splitOn "/")

/-- `fsinfo` of a file system that does not bring its own. -/
def defaultFsinfo (getattr : H → Prog κ ρ (Except Nfsstat3 Fattr3)) (rootFileid : H) :
    Prog κ ρ (Except Nfsstat3 Fsinfo3Resok) :=
  (getattr rootFileid).bind fun dirAttr =>
    .ret (.ok
      { objAttributes := match dirAttr with
          | .ok attr => .some attr
          | .error _ => .none
        rtmax := mebibyte
        rtpref := mebibyte
        rtmult := mebibyte
        wtmax := mebibyte
        wtpref := mebibyte
        wtmult := mebibyte
        dtpref := mebibyte
        maxfilesize := 128 * gibibyte
        timeDelta := ⟨0, 1000000⟩
        properties := fsf3Symlink ||| fsf3Homogeneous ||| fsf3Cansettime })

end Defaults

end Nfs3
