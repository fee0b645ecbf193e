import Nfs3.Mirror.Iterator
import Nfs3.Server.FileSystem

/-!
# The operations of the mirror

An operation is a program whose questions are calls to the host and accesses to the memory that
all operations share. The host is asked at an await point, where other operations may run; an
access to the shared memory is made under its lock, the existence tests of a lookup included.

`Fs.serve` is the implementation of the file system interface, `Fs.exec` what one access does.
-/
namespace Nfs3.Mirror

open ByteOrder (Bytes)
open Interaction (Prog)

/-- One step of an operation. Opening a directory, taking an entry and dropping an iterator are
one step each. -/
inductive FsCall
  | host (c : HostCall)
  | handleToPath (id : FileHandleU64)
  | lookupById (parentId : FileHandleU64) (name : OsString) (checkPath : Bool)
  | getOrCreateIterator (dirid : FileHandleU64) (cookie : UInt64)
  | next (iter : MirrorFsIterator)
  | nextPlus (iter : MirrorFsIterator)
  | drop (iter : MirrorFsIterator) (now : Instant)

def FsCall.Reply : FsCall → Type
  | host c => c.Reply
  | handleToPath _ => Except Nfsstat3 PathBuf
  | lookupById .. => Except Nfsstat3 FileHandleU64
  | getOrCreateIterator .. => Except Nfsstat3 MirrorFsIterator
  | next _ => NextResult DirEntry × MirrorFsIterator
  | nextPlus _ => NextResult (DirEntryPlus FileHandleU64) × MirrorFsIterator
  | drop .. => Unit

abbrev FsProg := Prog FsCall FsCall.Reply

/-- Operations that fail with a status. -/
abbrev FsM := ExceptT Nfsstat3 FsProg

/-- Host calls that fail with an io error. -/
abbrev IoM := ExceptT ErrorKind FsProg

def call (c : HostCall) : FsProg c.Reply := .ask (.host c) .ret

namespace Host

def symlinkMetadata (path : PathBuf) : IoM Metadata := call (.symlinkMetadata path)

def readDir (path : PathBuf) : IoM ReadDir := call (.readDir path)

def readLink (path : PathBuf) : IoM Bytes := call (.readLink path)

def openRead (path : PathBuf) : IoM Fd := call (.openRead path)

def openWrite (path : PathBuf) : IoM Fd := call (.openWrite path)

def openReadWrite (path : PathBuf) : IoM Fd := call (.openReadWrite path)

def createFile (path : PathBuf) : IoM Fd := call (.createFile path)

def createNew (path : PathBuf) : IoM Fd := call (.createNew path)

def createDir (path : PathBuf) : IoM Unit := call (.createDir path)

def removeDir (path : PathBuf) : IoM Unit := call (.removeDir path)

def removeFile (path : PathBuf) : IoM Unit := call (.removeFile path)

def rename (source target : PathBuf) : IoM Unit := call (.rename source target)

def symlink (target : Bytes) (link : PathBuf) : IoM Unit := call (.symlink target link)

def setFileAtime (path : PathBuf) (time : Option Nfstime3) : IoM Unit :=
  call (.setFileAtime path time)

def setFileMtime (path : PathBuf) (time : Option Nfstime3) : IoM Unit :=
  call (.setFileMtime path time)

def setPermissions (path : PathBuf) (mode : UInt32) : IoM Unit := call (.setPermissions path mode)

def fileLen (file : Fd) : IoM UInt64 := call (.fileLen file)

def setLen (file : Fd) (size : UInt64) : IoM Unit := call (.setLen file size)

def readAt (file : Fd) (offset count : UInt64) : IoM Bytes := call (.readAt file offset count)

def writeAt (file : Fd) (offset : UInt64) (data : Bytes) : IoM Unit :=
  call (.writeAt file offset data)

end Host

/-- `map_err(..)` -/
def mapErr {ε ε' α : Type} (f : ε → ε') (m : ExceptT ε FsProg α) : ExceptT ε' FsProg α :=
  ExceptT.mk (m.run.bind fun
    | .ok a => .ret (.ok a)
    | .error e => .ret (.error (f e)))

/-- The result of the operation, an error too. -/
def attempt {ε ε' α : Type} (m : ExceptT ε FsProg α) : ExceptT ε' FsProg (Except ε α) :=
  ExceptT.mk (m.run.bind fun r => .ret (.ok r))

/-- The result is thrown away. -/
def ignore {ε ε' α : Type} (m : ExceptT ε FsProg α) : ExceptT ε' FsProg Unit := do
  let _ ← attempt m

def setAtime (path : PathBuf) : SetAtime → FsM Unit
  | .setToServerTime => ignore (Host.setFileAtime path none)
  | .setToClientTime time => ignore (Host.setFileAtime path (some time))
  | .dontChange => pure ()

def setMtime (path : PathBuf) : SetMtime → FsM Unit
  | .setToServerTime => ignore (Host.setFileMtime path none)
  | .setToClientTime time => ignore (Host.setFileMtime path (some time))
  | .dontChange => pure ()

def setMode (path : PathBuf) : SetMode3 → FsM Unit
  | .some mode => ignore (Host.setPermissions path (modeUnmask mode))
  | .none => pure ()

def setSize (path : PathBuf) : SetSize3 → FsM Unit
  | .some size3 => do
    let file ← mapErr (fun _ => .nfs3errIo) (Host.openReadWrite path)
    mapErr (fun _ => .nfs3errIo) (Host.setLen file size3)
  | .none => pure ()

/-- `path_setattr` of the server's utilities: only setting the size can fail, and owner and
group are left as they are. -/
def pathSetattr (path : PathBuf) (setattr : Sattr3) : FsM Unit := do
  setAtime path setattr.atime
  setMtime path setattr.mtime
  setMode path setattr.mode
  setSize path setattr.size

def Filename3.asOsStr (filename : Filename3) : OsString := filename.val.data

namespace Fs

variable (root : PathBuf)

def path (id : FileHandleU64) : FsM PathBuf := do
  let relativePath ← ExceptT.mk (.ask (.handleToPath id) .ret)
  return root.join relativePath

/-- Under the lock of the symbols cache. -/
def lookupById (parentId : FileHandleU64) (name : OsString) (checkPath : Bool) :
    FsM FileHandleU64 :=
  ExceptT.mk (.ask (.lookupById parentId name checkPath) .ret)

def lookup (dirid : FileHandleU64) (filename : Filename3) : FsM FileHandleU64 :=
  lookupById dirid (Filename3.asOsStr filename) true

def getattr (id : FileHandleU64) : FsM Fattr3 := do
  let path ← path root id
  let metadata ← mapErr mapIoError (Host.symlinkMetadata path)
  return metadataToFattr3 id metadata

/-- The bytes of the file at the path, and whether its end is reached. -/
def readPath (path : PathBuf) (start : UInt64) (count : UInt32) : IoM (Bytes × Bool) := do
  let f ← Host.openRead path
  let len ← Host.fileLen f
  if start ≥ len ∨ count = 0 then
    return ([], count.toUInt64 ≥ len)
  else
    let count := min count.toUInt64 (len - start)
    let buf ← Host.readAt f start count
    return (buf, start + count ≥ len)

def read (id : FileHandleU64) (offset : UInt64) (count : UInt32) : FsM (Bytes × Bool) := do
  let path ← path root id
  mapErr mapIoError (readPath path offset count)

def readlink (id : FileHandleU64) : FsM Nfspath3 := do
  let path ← path root id
  let target ← mapErr
    (fun kind => if kind = .notFound then .nfs3errNoent else .nfs3errBadtype)
    (Host.readLink path)
  return ⟨⟨target⟩⟩

def setattr (id : FileHandleU64) (setattr : Sattr3) : FsM Fattr3 := do
  let path ← path root id
  pathSetattr path setattr
  getattr root id

def write (id : FileHandleU64) (offset : UInt64) (data : Bytes) : FsM Fattr3 := do
  let path ← path root id
  let metadata ← mapErr mapIoError (Host.symlinkMetadata path)
  if metadata.isFile then
    mapErr mapIoError do
      let file ← Host.openWrite path
      Host.writeAt file offset data
    getattr root id
  else throw .nfs3errInval

/-- A file that exists is truncated. -/
def createSized (path : PathBuf) (size : SetSize3) : IoM Unit := do
  let file ← Host.createFile path
  match size with
  | .some size => Host.setLen file size
  | .none => pure ()

def create (dirid : FileHandleU64) (filename : Filename3) (attr : Sattr3) :
    FsM (FileHandleU64 × Fattr3) := do
  let dirPath ← path root dirid
  let filePath := dirPath.join (Filename3.asOsStr filename)
  mapErr mapIoError (createSized filePath attr.size)
  let fileId ← lookupById dirid (Filename3.asOsStr filename) true
  let fattr ← setattr root fileId attr
  return (fileId, fattr)

/-- The verifier is not used. -/
def createExclusive (dirid : FileHandleU64) (filename : Filename3) : FsM FileHandleU64 := do
  let dirPath ← path root dirid
  let filePath := dirPath.join (Filename3.asOsStr filename)
  let _ ← mapErr mapIoError (Host.createNew filePath)
  lookupById dirid (Filename3.asOsStr filename) true

def mkdir (dirid : FileHandleU64) (dirname : Filename3) : FsM (FileHandleU64 × Fattr3) := do
  let dirPath ← path root dirid
  let newDirPath := dirPath.join (Filename3.asOsStr dirname)
  mapErr mapIoError (Host.createDir newDirPath)
  let newDirId ← lookupById dirid (Filename3.asOsStr dirname) true
  let fattr ← getattr root newDirId
  return (newDirId, fattr)

def remove (dirid : FileHandleU64) (filename : Filename3) : FsM Unit := do
  let dirPath ← path root dirid
  let filePath := dirPath.join (Filename3.asOsStr filename)
  mapErr mapIoError do
    let metadata ← Host.symlinkMetadata filePath
    if metadata.isDir then Host.removeDir filePath else Host.removeFile filePath

def dot : OsString := [0x2e]

def dotDot : OsString := [0x2e, 0x2e]

/-- The checks on the target of a rename, if it exists. -/
def checkTarget (fromMetadata : Metadata) (toPath : PathBuf) : IoResult Metadata → FsM Unit
  | .error _ => pure ()
  | .ok toMetadata =>
    if fromMetadata.isDir ≠ toMetadata.isDir then throw .nfs3errExist
    else if toMetadata.isDir then do
      let readDir ← mapErr mapIoError (Host.readDir toPath)
      match readDir.pending with
      | [] => pure ()
      | .error kind :: _ => throw (mapIoError kind)
      | .ok _ :: _ => throw .nfs3errNotempty
    else pure ()

def rename (fromDirid : FileHandleU64) (fromFilename : Filename3) (toDirid : FileHandleU64)
    (toFilename : Filename3) : FsM Unit :=
  let fromName := Filename3.asOsStr fromFilename
  let toName := Filename3.asOsStr toFilename
  if fromName = dot ∨ fromName = dotDot ∨ toName = dot ∨ toName = dotDot then
    throw .nfs3errInval
  else do
    let fromDirPath ← path root fromDirid
    let fromPath := fromDirPath.join fromName
    let toDirPath ← path root toDirid
    let toPath := toDirPath.join toName
    if fromDirid = toDirid ∧ fromFilename = toFilename then pure ()
    else
      let fromMetadata ← mapErr mapIoError (Host.symlinkMetadata fromPath)
      let toMetadata ← attempt (Host.symlinkMetadata toPath)
      checkTarget fromMetadata toPath toMetadata
      mapErr mapIoError (Host.rename fromPath toPath)
      ignore (lookupById fromDirid fromName false)
      ignore (lookupById toDirid toName false)

/-- The attributes of a new link are set if any of the three is given, and errors of it are
ignored. -/
def linkSetattr (linkId : FileHandleU64) (attr : Sattr3) : FsM Unit :=
  if attr.mode ≠ .none ∨ attr.uid ≠ .none ∨ attr.gid ≠ .none then ignore (setattr root linkId attr)
  else pure ()

def symlink (dirid : FileHandleU64) (linkname : Filename3) (symlink : Nfspath3) (attr : Sattr3) :
    FsM (FileHandleU64 × Fattr3) := do
  let dirPath ← path root dirid
  let linkPath := dirPath.join (Filename3.asOsStr linkname)
  mapErr mapIoError (Host.symlink symlink.val.data linkPath)
  let linkId ← lookupById dirid (Filename3.asOsStr linkname) true
  linkSetattr root linkId attr
  let fattr ← getattr root linkId
  return (linkId, fattr)

/-- The mirror as a file system, at a time of the clock. -/
def serve (now : Instant) :
    (c : VfsCall FileHandleU64 MirrorFsIterator MirrorFsIterator) → FsProg c.Reply
  | .rootDir => .ret SymbolsCache.rootId
  | .lookup dirid filename => lookup dirid filename
  | .lookupByPath path => defaultLookupByPath (.ret SymbolsCache.rootId) lookup path
  | .getattr id => getattr root id
  | .read id offset count => read root id offset count
  | .readdir dirid cookie => .ask (.getOrCreateIterator dirid cookie) .ret
  | .readdirNext iter => .ask (.next iter) .ret
  | .readdirDrop iter => .ask (.drop iter now) .ret
  | .readdirplus dirid cookie => .ask (.getOrCreateIterator dirid cookie) .ret
  | .readdirplusNext iter => .ask (.nextPlus iter) .ret
  | .readdirplusDrop iter => .ask (.drop iter now) .ret
  | .readlink id => readlink root id
  | .fsinfo rootFileid => defaultFsinfo (getattr root) rootFileid
  | .capabilities => .ret .readWrite
  | .setattr id attr => setattr root id attr
  | .write id offset data => write root id offset data
  | .create dirid filename attr => create root dirid filename attr
  | .createExclusive dirid filename _ => createExclusive root dirid filename
  | .mkdir dirid dirname => mkdir root dirid dirname
  | .remove dirid filename => remove root dirid filename
  | .rename fromDirid fromFilename toDirid toFilename =>
    rename root fromDirid fromFilename toDirid toFilename
  | .symlink dirid linkname target attr => symlink root dirid linkname target attr

end Fs

section Exec

variable {T S : Type} [SymbolTable T S] [DecidableEq S]

/-- What one step does to the shared memory. -/
def Fs.exec (fs : Fs T S) : (c : FsCall) → HostM (c.Reply × Fs T S)
  | .host c => .ask c fun r => .ret (r, fs)
  | .handleToPath id => (fs.cache.handleToPath id).bind fun r => .ret (r, fs)
  | .lookupById parentId name checkPath =>
    (fs.cache.lookupById parentId name checkPath).bind fun (r, cache) =>
      .ret (r, { fs with cache })
  | .getOrCreateIterator dirid cookie => fs.getOrCreateIterator dirid cookie
  | .next iter => (fs.next iter).bind fun (r, iter, fs) => .ret ((r, iter), fs)
  | .nextPlus iter => (fs.nextPlus iter).bind fun (r, iter, fs) => .ret ((r, iter), fs)
  | .drop iter now => .ret ((), fs.drop iter now)

/-- A request that runs alone. -/
def Fs.handle (fs : Fs T S) (now : Instant)
    (c : VfsCall FileHandleU64 MirrorFsIterator MirrorFsIterator) : HostM (c.Reply × Fs T S) :=
  (Fs.serve fs.root now c).interpIn Fs.exec fs

end Exec

end Nfs3.Mirror
