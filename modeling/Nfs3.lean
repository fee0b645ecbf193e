import Nfs3.Types.Wire
import Nfs3.Server.TrackerWindow
import Nfs3.Server.RpcWire
import Nfs3.Server.MemFs.Atomicity
import Nfs3.Server.MemFs.Listing
import Nfs3.Server.MemFs.Names
import Nfs3.Server.MemFs.Writes
import Nfs3.Server.MemFs.Reads
import Nfs3.Server.MemFs.Configured
import Nfs3.Server.MemFs.ExclusiveCreate
import Nfs3.Server.MemFs.Moves
import Nfs3.Server.MemFs.Ancestors
import Nfs3.Server.MemFs.DirVersion
import Nfs3.Server.FileHandles
import Nfs3.Server.ReplySize
import Nfs3.Server.ReadOnly
import Nfs3.Server.Verifier
import Nfs3.Server.MountPath
import Nfs3.Mirror.IteratorInvariant
import Nfs3.Mirror.Confinement
import Nfs3.Mirror.Reads
import Nfs3.Mirror.Recreate
import Nfs3.Mirror.Renames
import Nfs3.Mirror.Symlinks
import Nfs3.Mirror.GuardedCreate
import Nfs3.Mirror.Resume
import Nfs3.Client.AsyncRead
import Nfs3.Server.TcpLocks
import Nfs3.Server.TcpDelivery
import Nfs3.Server.TcpOnce
import Nfs3.Server.MemFs.Subtrees
import Nfs3.Lib.Traces
import Nfs3.Server.Footprint
import Nfs3.Server.Signatures
import Nfs3.Server.HandlersSound
import Nfs3.Server.RequestsSound
import Nfs3.Server.TcpRequests
