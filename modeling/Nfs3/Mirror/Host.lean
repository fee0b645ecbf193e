import Mathlib.Data.UInt
import Nfs3.Lib.Interaction
import Nfs3.Server.Vfs

/-!
# The host file system

Everything the mirror does outside its own memory is a call to the host. Names and paths are
byte strings, as on unix. `PathBuf::push` and the components of a path are modelled as they are
documented; what the host answers is left open.
-/
namespace Nfs3.Mirror

open ByteOrder (Bytes)
open Interaction (Prog)

abbrev OsString := Bytes

/-- The separator of path components. -/
def sep : UInt8 := 0x2f

abbrev PathBuf := Bytes

instance : LawfulBEq PathBuf := inferInstance

namespace PathBuf

def isAbsolute (p : PathBuf) : Bool := p.head? = some sep

/-- An absolute path replaces the buffer, any other is appended. -/
def push (buf p : PathBuf) : PathBuf :=
  if isAbsolute p then p
  else if buf = [] ∨ buf.getLast? = some sep then buf ++ p
  else buf ++ sep :: p

def join (buf p : PathBuf) : PathBuf := push buf p

end PathBuf

/-- The kinds of io errors the mirror tells apart. -/
inductive ErrorKind
  | notFound
  | permissionDenied
  | alreadyExists
  | isADirectory
  | notADirectory
  | readOnlyFilesystem
  | unsupported
  | crossesDevices
  | other
  deriving DecidableEq

def mapIoError : ErrorKind → Nfsstat3
  | .notFound => .nfs3errNoent
  | .permissionDenied => .nfs3errAcces
  | .alreadyExists => .nfs3errExist
  | .isADirectory => .nfs3errIsdir
  | .notADirectory => .nfs3errNotdir
  | .readOnlyFilesystem => .nfs3errRofs
  | .unsupported => .nfs3errNotsupp
  | .crossesDevices => .nfs3errXdev
  | .other => .nfs3errIo

abbrev IoResult := Except ErrorKind

structure Metadata where
  fileType : Ftype3
  mode : UInt32
  nlink : UInt64
  uid : UInt32
  gid : UInt32
  len : UInt64
  /-- `none` where the time is not available or does not fit into an `nfstime3`. -/
  accessed : Option Nfstime3
  modified : Option Nfstime3
  created : Option Nfstime3

namespace Metadata

def isDir (m : Metadata) : Bool := m.fileType = .nf3dir

def isFile (m : Metadata) : Bool := m.fileType = .nf3reg

end Metadata

def modeUnmask (mode : UInt32) : UInt32 := (mode ||| 0x80) &&& 0x1FF

def toNfstime3 (time : Option Nfstime3) : Nfstime3 := time.getD ⟨0, 0⟩

def metadataToFattr3 (fileid : Fileid3) (m : Metadata) : Fattr3 where
  type := m.fileType
  mode := modeUnmask m.mode
  nlink := if m.nlink < 2 ^ 32 then m.nlink.toUInt32 else 0xFFFFFFFF
  uid := m.uid
  gid := m.gid
  size := m.len
  used := m.len
  rdev := ⟨0, 0⟩
  fsid := 0
  fileid := fileid
  atime := toNfstime3 m.accessed
  mtime := toNfstime3 m.modified
  ctime := toNfstime3 m.created

/-- The name of a directory entry: one component that is not `.` or `..`. -/
structure EntryName where
  name : OsString
  nonempty : name ≠ []
  single : sep ∉ name
  notDot : name ≠ [0x2e]
  notDotDot : name ≠ [0x2e, 0x2e]

/-- An open file on the host. -/
abbrev Fd := ℕ

/-- An open directory stream: which one it is, and what its successive `next_entry` will answer
before the end. -/
structure ReadDir where
  stream : ℕ
  pending : List (IoResult EntryName)

inductive HostCall
  | pathExists (path : PathBuf)
  | symlinkMetadata (path : PathBuf)
  | readDir (path : PathBuf)
  | readLink (path : PathBuf)
  | openRead (path : PathBuf)
  | openWrite (path : PathBuf)
  | openReadWrite (path : PathBuf)
  | createFile (path : PathBuf)
  | createNew (path : PathBuf)
  | createDir (path : PathBuf)
  | removeDir (path : PathBuf)
  | removeFile (path : PathBuf)
  | rename (source target : PathBuf)
  | symlink (target : Bytes) (link : PathBuf)
  | setFileAtime (path : PathBuf) (time : Option Nfstime3)
  | setFileMtime (path : PathBuf) (time : Option Nfstime3)
  | setPermissions (path : PathBuf) (mode : UInt32)
  | fileLen (file : Fd)
  | setLen (file : Fd) (size : UInt64)
  | readAt (file : Fd) (offset count : UInt64)
  | writeAt (file : Fd) (offset : UInt64) (data : Bytes)

namespace HostCall

/-- What the host answers. The bytes of a link target are data; it is the link that is made. -/
def Reply : HostCall → Type
  | pathExists _ => Bool
  | symlinkMetadata _ => IoResult Metadata
  | readDir _ => IoResult ReadDir
  | readLink _ => IoResult Bytes
  | openRead _ | openWrite _ | openReadWrite _ | createFile _ | createNew _ => IoResult Fd
  | createDir _ | removeDir _ | removeFile _ | rename .. | symlink .. => IoResult Unit
  | setFileAtime .. | setFileMtime .. | setPermissions .. => IoResult Unit
  | fileLen _ => IoResult UInt64
  | setLen .. | writeAt .. => IoResult Unit
  | readAt .. => IoResult Bytes

/-- A host that finds nothing and fails everything. -/
def unanswered : (c : HostCall) → c.Reply
  | pathExists _ => false
  | symlinkMetadata _ => (.error .other : IoResult Metadata)
  | readDir _ => (.error .other : IoResult ReadDir)
  | readLink _ => (.error .other : IoResult Bytes)
  | openRead _ | openWrite _ | openReadWrite _ | createFile _ | createNew _ =>
    (.error .other : IoResult Fd)
  | createDir _ | removeDir _ | removeFile _ | rename .. | symlink .. =>
    (.error .other : IoResult Unit)
  | setFileAtime .. | setFileMtime .. | setPermissions .. => (.error .other : IoResult Unit)
  | fileLen _ => (.error .other : IoResult UInt64)
  | setLen .. | writeAt .. => (.error .other : IoResult Unit)
  | readAt .. => (.error .other : IoResult Bytes)

/-- The paths a call hands to the host to be resolved. -/
def paths : HostCall → List PathBuf
  | pathExists path | symlinkMetadata path | readDir path | readLink path => [path]
  | openRead path | openWrite path | openReadWrite path => [path]
  | createFile path | createNew path | createDir path => [path]
  | removeDir path | removeFile path => [path]
  | rename source target => [source, target]
  | symlink _ link => [link]
  | setFileAtime path _ | setFileMtime path _ | setPermissions path _ => [path]
  | fileLen _ | setLen .. | readAt .. | writeAt .. => []

end HostCall

/-- A computation that may call the host. -/
abbrev HostM := Prog HostCall HostCall.Reply

end Nfs3.Mirror
