import Nfs3.Server.FileSystem
import Nfs3.Server.ReadDir
import Nfs3.Types.Rpc

/-!
# The handlers of the NFS procedures

Each handler is the program it runs against the file system. READDIR and READDIRPLUS agree with
the handlers over a file system with an explicit state.
-/
namespace Nfs3

open ByteOrder (Bytes toBe)
open Interaction (Prog)

/-- The part of the context that handlers read. `mountSignal` says whether somebody listens
for mounts. -/
structure RPCContext where
  localPort : UInt16
  clientAddr : String
  auth : AuthUnix
  mountSignal : Bool
  exportName : String
  fileHandleConverter : FileHandleConverter

/-- The bytes of the generation number. -/
def FileHandleConverter.verf (c : FileHandleConverter) : Writeverf3 :=
  ⟨⟨c.generationNumberLe.toArray, by simp [generationNumberLe, toLeBytes]⟩⟩

namespace NfsHandlers

variable {H I J α ε : Type}

section Handlers

variable [FileHandle H]

/-- `fh_to_id!`: a handle that cannot be resolved ends the handler. -/
def fhToId (context : RPCContext) (fh : NfsFh3) (fail : ε)
    (body : H → VfsM H I J (Nfs3Result α ε)) : VfsM H I J (Nfs3Result α ε) :=
  match context.fileHandleConverter.fhFromNfs fh with
  | .error stat => pure (.err stat fail)
  | .ok id => body id

/-- The check at the top of every handler that changes something. -/
def readWrite (fail : ε) (body : VfsM H I J (Nfs3Result α ε)) : VfsM H I J (Nfs3Result α ε) := do
  match ← Vfs.capabilities with
  | .readWrite => body
  | .readOnly => pure (.err .nfs3errRofs fail)

def nfsOptionFromResult {β : Type} : Except Nfsstat3 β → Nfs3Option β
  | .ok val => .some val
  | .error _ => .none

def getWccAttr (objectId : H) : VfsM H I J (Except Nfsstat3 WccAttr) := do
  let attr ← Vfs.getattr objectId
  pure (attr.map fun v => ⟨v.size, v.mtime, v.ctime⟩)

/-- The attributes as they are put into replies. -/
def getPostOpAttr (id : H) : VfsM H I J PostOpAttr := do
  let attr ← Vfs.getattr id
  pure (nfsOptionFromResult attr)

def emptyWcc : WccData := ⟨.none, .none⟩

/-! ## Reading -/

def nfsproc3Null (_ : RPCContext) (_xid : UInt32) (_ : Void) : VfsM H I J Void := pure ⟨⟩

def nfsproc3Getattr (context : RPCContext) (_xid : UInt32) (args : Getattr3Args) :
    VfsM H I J Getattr3Res :=
  fhToId context args.object ⟨⟩ fun id => do
    match ← Vfs.getattr id with
    | .ok objAttributes => pure (.ok ⟨objAttributes⟩)
    | .error stat => pure (.err stat ⟨⟩)

def nfsproc3Lookup (context : RPCContext) (_xid : UInt32) (args : Lookup3Args) :
    VfsM H I J Lookup3Res :=
  fhToId context args.what.dir ⟨.none⟩ fun dirid => do
    let dirAttributes ← getPostOpAttr dirid
    match ← Vfs.lookup dirid args.what.name with
    | .ok fid => do
      let objAttributes ← getPostOpAttr fid
      pure (.ok ⟨context.fileHandleConverter.fhToNfs fid, objAttributes, dirAttributes⟩)
    | .error stat => pure (.err stat ⟨dirAttributes⟩)

/-- Halts where `expect("buffer is too big")` fails. -/
def nfsproc3Read (context : RPCContext) (_xid : UInt32) (args : Read3Args) :
    VfsM H I J Read3Res :=
  fhToId context args.file ⟨.none⟩ fun id => do
    let fileAttributes ← getPostOpAttr id
    match ← Vfs.read id args.offset args.count with
    | .ok (bytes, eof) =>
      if bytes.length < 2 ^ 32 then
        pure (.ok ⟨fileAttributes, .ofNat bytes.length, eof, ⟨bytes⟩⟩)
      else .halt
    | .error stat => pure (.err stat ⟨fileAttributes⟩)

def nfsproc3Fsinfo (context : RPCContext) (_xid : UInt32) (args : Fsinfo3Args) :
    VfsM H I J Fsinfo3Res :=
  fhToId context args.fsroot ⟨.none⟩ fun id => do
    match ← Vfs.fsinfo id with
    | .ok fsinfo => pure (.ok fsinfo)
    | .error stat => pure (.err stat ⟨.none⟩)

def access3Read : UInt32 := 1

def access3Lookup : UInt32 := 2

def nfsproc3Access (context : RPCContext) (_xid : UInt32) (args : Access3Args) :
    VfsM H I J Access3Res :=
  fhToId context args.object ⟨.none⟩ fun id => do
    let objAttributes ← getPostOpAttr id
    match ← Vfs.capabilities with
    | .readWrite => pure (.ok ⟨objAttributes, args.access⟩)
    | .readOnly => pure (.ok ⟨objAttributes, args.access &&& (access3Read ||| access3Lookup)⟩)

def nfsproc3Pathconf (context : RPCContext) (_xid : UInt32) (args : Pathconf3Args) :
    VfsM H I J Pathconf3Res :=
  fhToId context args.object ⟨.none⟩ fun id => do
    let objAttributes ← getPostOpAttr id
    pure (.ok
      { objAttributes
        linkmax := 0
        nameMax := 32768
        noTrunc := true
        chownRestricted := true
        caseInsensitive := false
        casePreserving := true })

def nfsproc3Fsstat (context : RPCContext) (_xid : UInt32) (args : Fsstat3Args) :
    VfsM H I J Fsstat3Res :=
  fhToId context args.fsroot ⟨.none⟩ fun id => do
    let objAttributes ← getPostOpAttr id
    pure (.ok
      { objAttributes
        tbytes := tebibyte
        fbytes := tebibyte
        abytes := tebibyte
        tfiles := gibibyte
        ffiles := gibibyte
        afiles := gibibyte
        invarsec := 0xFFFFFFFF })

def nfsproc3Readlink (context : RPCContext) (_xid : UInt32) (args : Readlink3Args) :
    VfsM H I J Readlink3Res :=
  fhToId context args.symlink ⟨.none⟩ fun id => do
    let symlinkAttributes ← getPostOpAttr id
    match ← Vfs.readlink id with
    | .ok data => pure (.ok ⟨symlinkAttributes, data⟩)
    | .error stat => pure (.err stat ⟨symlinkAttributes⟩)

/-! ## Listing -/

/-- The loop of both listings, for at most `fuel` rounds: entries are pushed until one is
refused, which gives `false`, or the iterator is at its end, which gives `true`. -/
def fill {E B K : Type} (next : K → VfsM H I J (NextResult E × K)) (push : B → E → Option B) :
    (fuel : ℕ) → K → B → VfsM H I J (Except Nfsstat3 (B × Bool) × K)
  | 0, _, _ => .halt
  | fuel + 1, iter, acc => do
    match ← next iter with
    | (.ok entry, iter) =>
      match push acc entry with
      | none => pure (.ok (acc, false), iter)
      | some acc => fill next push fuel iter acc
    | (.eof, iter) => pure (.ok (acc, true), iter)
    | (.err stat, iter) => pure (.error stat, iter)

def nfsproc3Readdir (context : RPCContext) (xid : UInt32) (args : Readdir3Args) :
    VfsM H I J Readdir3Res :=
  fhToId context args.dir ⟨.none⟩ fun dirid => do
    let dirAttributes ← getPostOpAttr dirid
    let cookieverf := Cookieverf3.fromAttr dirAttributes
    if args.cookieverf.isNone ∧ args.cookie ≠ 0 then
      pure (.err .nfs3errBadCookie ⟨.none⟩)
    else if ¬ args.cookieverf.isNone ∧ args.cookieverf ≠ cookieverf then
      pure (.err .nfs3errBadCookie ⟨.none⟩)
    else
      let emptyLen := packedSize xid +
        packedSize (⟨dirAttributes, cookieverf, ⟨⟨[]⟩, false⟩⟩ : Readdir3Resok)
      if emptyLen > args.count.toNat then
        pure (.err .nfs3errToosmall ⟨dirAttributes⟩)
      else
        match checkedSub args.count.toNat emptyLen with
        | none => .halt
        | some maxBytesAllowed => do
          match ← Vfs.readdir dirid args.cookie with
          | .error stat => pure (.err stat ⟨dirAttributes⟩)
          | .ok iter => do
            let (result, iter) ← fill Vfs.readdirNext BoundedList.tryPush (maxBytesAllowed + 1)
              iter (.new maxBytesAllowed)
            Vfs.readdirDrop iter
            match result with
            | .error stat => pure (.err stat ⟨dirAttributes⟩)
            | .ok (acc, eof) =>
              if acc.intoInner.items = [] ∧ eof = false then
                pure (.err .nfs3errToosmall ⟨dirAttributes⟩)
              else pure (.ok ⟨dirAttributes, cookieverf, ⟨acc.intoInner, eof⟩⟩)

def nfsproc3Readdirplus (context : RPCContext) (_xid : UInt32) (args : Readdirplus3Args) :
    VfsM H I J Readdirplus3Res :=
  fhToId context args.dir ⟨.none⟩ fun dirid => do
    let dirAttributes ← getPostOpAttr dirid
    let dirversion := Cookieverf3.fromAttr dirAttributes
    if args.maxcount.toNat < 128 then
      pure (.err .nfs3errToosmall ⟨dirAttributes⟩)
    else
      match checkedSub args.maxcount.toNat 128 with
      | none => .halt
      | some maxBytesAllowed => do
        match ← Vfs.readdirplus dirid args.cookie with
        | .error stat => pure (.err stat ⟨dirAttributes⟩)
        | .ok iter => do
          let push (acc : BoundedEntryPlusList) (entry : DirEntryPlus H) :=
            acc.tryPush (entry.intoEntry context.fileHandleConverter)
          let (result, iter) ← fill Vfs.readdirplusNext push (maxBytesAllowed + 1) iter
            (.new args.dircount.toNat maxBytesAllowed)
          Vfs.readdirplusDrop iter
          match result with
          | .error stat => pure (.err stat ⟨dirAttributes⟩)
          | .ok (acc, eof) =>
            if acc.intoInner.items = [] ∧ eof = false then
              pure (.err .nfs3errToosmall ⟨dirAttributes⟩)
            else pure (.ok ⟨dirAttributes, dirversion, ⟨acc.intoInner, eof⟩⟩)

/-! ## Changing -/

def nfsproc3Write (context : RPCContext) (_xid : UInt32) (args : Write3Args) :
    VfsM H I J Write3Res :=
  readWrite ⟨emptyWcc⟩ do
    if args.data.data.length ≠ args.count.toNat then
      pure (.err .nfs3errInval ⟨emptyWcc⟩)
    else
      fhToId context args.file ⟨emptyWcc⟩ fun id => do
        let before := nfsOptionFromResult (← getWccAttr id)
        match ← Vfs.write id args.offset args.data.data with
        | .ok fattr =>
          pure (.ok ⟨⟨before, .some fattr⟩, args.count, .fileSync,
            context.fileHandleConverter.verf⟩)
        | .error stat => pure (.err stat ⟨⟨before, .none⟩⟩)

/-- The call of `create` or `create_exclusive`, with the attributes that are replied. -/
def createObject (dirid : H) (name : Filename3) :
    Createhow3 → VfsM H I J (Except Nfsstat3 H × PostOpAttr)
  | .exclusive verf => do
    let fid ← Vfs.createExclusive dirid name verf
    pure (fid, .none)
  | .unchecked targetAttributes | .guarded targetAttributes => do
    match ← Vfs.create dirid name targetAttributes with
    | .ok (fid, fattr) => pure (.ok fid, .some fattr)
    | .error e => pure (.error e, .none)

/-- Whether a GUARDED create finds the name taken. -/
def alreadyExists (dirid : H) (name : Filename3) : Createhow3 → VfsM H I J Bool
  | .guarded _ => do
    match ← Vfs.lookup dirid name with
    | .ok _ => pure true
    | .error _ => pure false
  | _ => pure false

def nfsproc3Create (context : RPCContext) (_xid : UInt32) (args : Create3Args) :
    VfsM H I J Create3Res :=
  readWrite ⟨emptyWcc⟩ <|
    fhToId context args.where_.dir ⟨emptyWcc⟩ fun dirid => do
      match ← getWccAttr dirid with
      | .error stat => pure (.err stat ⟨emptyWcc⟩)
      | .ok wccattr => do
        let before := Nfs3Option.some wccattr
        if ← alreadyExists dirid args.where_.name args.how then
          let after ← getPostOpAttr dirid
          pure (.err .nfs3errExist ⟨⟨before, after⟩⟩)
        else
          let (fid, postopattr) ← createObject dirid args.where_.name args.how
          let after ← getPostOpAttr dirid
          match fid with
          | .ok fid =>
            pure (.ok ⟨.some (context.fileHandleConverter.fhToNfs fid), postopattr,
              ⟨before, after⟩⟩)
          | .error stat => pure (.err stat ⟨⟨before, after⟩⟩)

def nfsproc3Setattr (context : RPCContext) (_xid : UInt32) (args : Setattr3Args) :
    VfsM H I J Setattr3Res :=
  readWrite ⟨emptyWcc⟩ <|
    fhToId context args.object ⟨emptyWcc⟩ fun id => do
      match ← getWccAttr id with
      | .error stat => pure (.err stat ⟨emptyWcc⟩)
      | .ok wccattr =>
        let before := Nfs3Option.some wccattr
        let apply : VfsM H I J Setattr3Res := do
          match ← Vfs.setattr id args.newAttributes with
          | .ok postOpAttr => pure (.ok ⟨⟨before, .some postOpAttr⟩⟩)
          | .error stat => pure (.err stat ⟨⟨before, .none⟩⟩)
        match args.guard with
        | .none => apply
        | .some guard =>
          if guard ≠ wccattr.ctime then pure (.err .nfs3errNotSync ⟨⟨before, .none⟩⟩)
          else apply

def nfsproc3Remove (context : RPCContext) (_xid : UInt32) (args : Remove3Args) :
    VfsM H I J Remove3Res :=
  readWrite ⟨emptyWcc⟩ <|
    fhToId context args.object.dir ⟨emptyWcc⟩ fun dirid => do
      match ← getWccAttr dirid with
      | .error stat => pure (.err stat ⟨emptyWcc⟩)
      | .ok v => do
        match ← Vfs.remove dirid args.object.name with
        | .ok () => do
          let after ← getPostOpAttr dirid
          pure (.ok ⟨⟨.some v, after⟩⟩)
        | .error stat => do
          let after ← getPostOpAttr dirid
          pure (.err stat ⟨⟨.some v, after⟩⟩)

def nfsproc3Rename (context : RPCContext) (_xid : UInt32) (args : Rename3Args) :
    VfsM H I J Rename3Res :=
  readWrite ⟨emptyWcc, emptyWcc⟩ <|
    fhToId context args.from_.dir ⟨emptyWcc, emptyWcc⟩ fun fromDirid =>
    fhToId context args.to_.dir ⟨emptyWcc, emptyWcc⟩ fun toDirid => do
      match ← getWccAttr fromDirid with
      | .error stat => pure (.err stat ⟨emptyWcc, emptyWcc⟩)
      | .ok preFrom => do
        match ← getWccAttr toDirid with
        | .error stat => pure (.err stat ⟨emptyWcc, emptyWcc⟩)
        | .ok preTo => do
          let result ← Vfs.rename fromDirid args.from_.name toDirid args.to_.name
          let postFrom ← getPostOpAttr fromDirid
          let postTo ← getPostOpAttr toDirid
          let fromdirWcc : WccData := ⟨.some preFrom, postFrom⟩
          let todirWcc : WccData := ⟨.some preTo, postTo⟩
          match result with
          | .ok () => pure (.ok ⟨fromdirWcc, todirWcc⟩)
          | .error stat => pure (.err stat ⟨fromdirWcc, todirWcc⟩)

def nfsproc3Mkdir (context : RPCContext) (_xid : UInt32) (args : Mkdir3Args) :
    VfsM H I J Mkdir3Res :=
  readWrite ⟨emptyWcc⟩ <|
    fhToId context args.where_.dir ⟨emptyWcc⟩ fun dirid => do
      match ← getWccAttr dirid with
      | .error stat => pure (.err stat ⟨emptyWcc⟩)
      | .ok v => do
        let result ← Vfs.mkdir dirid args.where_.name
        let after ← getPostOpAttr dirid
        match result with
        | .ok (fid, fattr) =>
          pure (.ok ⟨.some (context.fileHandleConverter.fhToNfs fid), .some fattr,
            ⟨.some v, after⟩⟩)
        | .error stat => pure (.err stat ⟨⟨.some v, after⟩⟩)

def nfsproc3Symlink (context : RPCContext) (_xid : UInt32) (args : Symlink3Args) :
    VfsM H I J Symlink3Res :=
  readWrite ⟨emptyWcc⟩ <|
    fhToId context args.where_.dir ⟨emptyWcc⟩ fun dirid => do
      match ← getWccAttr dirid with
      | .error stat => pure (.err stat ⟨emptyWcc⟩)
      | .ok v => do
        match ← Vfs.symlink dirid args.where_.name args.symlink.symlinkData
            args.symlink.symlinkAttributes with
        | .ok (fid, fattr) => do
          let after ← getPostOpAttr dirid
          pure (.ok ⟨.some (context.fileHandleConverter.fhToNfs fid), .some fattr,
            ⟨.some v, after⟩⟩)
        | .error stat => do
          let after ← getPostOpAttr dirid
          pure (.err stat ⟨⟨.some v, after⟩⟩)

end Handlers

/-! ## Listings of a file system with a state -/

section Agreement

variable {σ : Type}

/-- The answers of a file system that READDIR can list. -/
def readdirAnswers (vfs : DirVfs σ I H DirEntry) (s : σ) :
    (c : VfsCall H I J) → Option (c.Reply × σ)
  | .getattr id => some (vfs.getattr s id)
  | .readdir dirid cookie => some (vfs.openDir s dirid cookie)
  | .readdirNext iter =>
    let (result, iter, s) := vfs.next s iter
    some ((result, iter), s)
  | .readdirDrop iter => some ((), vfs.drop s iter)
  | _ => none

/-- The answers of a file system that READDIRPLUS can list. -/
def readdirplusAnswers (vfs : DirVfs σ J H (DirEntryPlus H)) (s : σ) :
    (c : VfsCall H I J) → Option (c.Reply × σ)
  | .getattr id => some (vfs.getattr s id)
  | .readdirplus dirid cookie => some (vfs.openDir s dirid cookie)
  | .readdirplusNext iter =>
    let (result, iter, s) := vfs.next s iter
    some ((result, iter), s)
  | .readdirplusDrop iter => some ((), vfs.drop s iter)
  | _ => none

theorem fill_runIn {E B K : Type} {vfs : DirVfs σ K H E}
    {answer : σ → (c : VfsCall H I J) → Option (c.Reply × σ)}
    {next : K → VfsM H I J (NextResult E × K)}
    (hnext : ∀ s iter, (next iter).runIn answer s =
      some (((vfs.next s iter).1, (vfs.next s iter).2.1), (vfs.next s iter).2.2))
    (push : B → E → Option B) (fuel : ℕ) (s : σ) (iter : K) (acc : B) :
    (fill next push fuel iter acc).runIn answer s =
      (Nfs3.fill vfs push fuel s iter acc).map fun r => ((r.1, r.2.1), r.2.2) := by
  induction fuel generalizing s iter acc with
  | zero => rfl
  | succ fuel ih =>
    unfold fill Nfs3.fill
    rw [Prog.bind_eq, Prog.runIn_bind, hnext, Option.bind_some]
    obtain ⟨result, iter', s'⟩ := vfs.next s iter
    cases result with
    | eof => rfl
    | err stat => rfl
    | ok entry =>
      dsimp only
      cases push acc entry with
      | none => rfl
      | some acc' => exact ih s' iter' acc'

/-- What a handler makes of the entries and the iterator it ends with. -/
theorem fill_bind_runIn {E B K R : Type} {vfs : DirVfs σ K H E}
    {answer : σ → (c : VfsCall H I J) → Option (c.Reply × σ)}
    {next : K → VfsM H I J (NextResult E × K)}
    (hnext : ∀ s iter, (next iter).runIn answer s =
      some (((vfs.next s iter).1, (vfs.next s iter).2.1), (vfs.next s iter).2.2))
    {finish : Except Nfsstat3 (B × Bool) × K → VfsM H I J R}
    {out : Except Nfsstat3 (B × Bool) × K × σ → R × σ}
    (hfinish : ∀ r iter s, (finish (r, iter)).runIn answer s = some (out (r, iter, s)))
    {push : B → E → Option B} {fuel : ℕ} {s : σ} {iter : K} {acc : B} :
    ((fill next push fuel iter acc).bind finish).runIn answer s =
      (Nfs3.fill vfs push fuel s iter acc).map out := by
  rw [Prog.runIn_bind, fill_runIn hnext]
  cases Nfs3.fill vfs push fuel s iter acc with
  | none => rfl
  | some r => exact hfinish r.1 r.2.1 r.2.2

theorem next_readdir (vfs : DirVfs σ I H DirEntry) (s : σ) (iter : I) :
    (Vfs.readdirNext iter : VfsM H I J (NextResult DirEntry × I)).runIn (readdirAnswers vfs) s =
      some (((vfs.next s iter).1, (vfs.next s iter).2.1), (vfs.next s iter).2.2) := rfl

theorem next_readdirplus (vfs : DirVfs σ J H (DirEntryPlus H)) (s : σ) (iter : J) :
    (Vfs.readdirplusNext iter : VfsM H I J (NextResult (DirEntryPlus H) × J)).runIn
        (readdirplusAnswers vfs) s =
      some (((vfs.next s iter).1, (vfs.next s iter).2.1), (vfs.next s iter).2.2) := rfl

theorem getPostOpAttr_runIn {answer : σ → (c : VfsCall H I J) → Option (c.Reply × σ)}
    {s s' : σ} {id : H} {attr : Except Nfsstat3 Fattr3}
    (h : answer s (.getattr id) = some (attr, s')) (f : PostOpAttr → VfsM H I J α) :
    ((getPostOpAttr id).bind f).runIn answer s = (f (postOpAttr attr)).runIn answer s' := by
  have hget : (getPostOpAttr id).runIn answer s = some (nfsOptionFromResult attr, s') :=
    Prog.runIn_ask_bind h _
  rw [Prog.runIn_bind, hget]
  cases attr <;> rfl

variable [FileHandle H]

theorem nfsproc3Readdir_runIn (context : RPCContext) (vfs : DirVfs σ I H DirEntry) (s : σ)
    (xid : UInt32) (args : Readdir3Args) :
    (nfsproc3Readdir context xid args : VfsM H I J Readdir3Res).runIn (readdirAnswers vfs) s =
      Nfs3.nfsproc3Readdir context.fileHandleConverter vfs s xid args := by
  unfold nfsproc3Readdir Nfs3.nfsproc3Readdir fhToId
  cases context.fileHandleConverter.fhFromNfs (H := H) args.dir with
  | error stat => rfl
  | ok dirid =>
    rcases hattr : vfs.getattr s dirid with ⟨attr, s₁⟩
    have hget : readdirAnswers (J := J) vfs s (.getattr dirid) = some (attr, s₁) :=
      congrArg some hattr
    simp only [hattr]
    rw [Prog.bind_eq, getPostOpAttr_runIn hget]
    split_ifs with hverf hmatch hfits
    · rfl
    · rfl
    · rfl
    rw [checkedSub_of_le (not_lt.mp hfits), Option.bind_some]
    rcases hopen : vfs.openDir s₁ dirid args.cookie with ⟨result, s₂⟩
    have hcall : readdirAnswers (J := J) vfs s₁ (.readdir dirid args.cookie) = some (result, s₂) :=
      congrArg some hopen
    refine (Prog.runIn_ask_bind hcall _).trans ?_
    cases result with
    | error stat => rfl
    | ok iter =>
      apply fill_bind_runIn (next_readdir vfs)
      intro result iter' s₃
      have hdrop : readdirAnswers (J := J) vfs s₃ (.readdirDrop iter') =
          some ((), vfs.drop s₃ iter') := rfl
      refine (Prog.runIn_ask_bind hdrop _).trans ?_
      cases result with
      | error stat => rfl
      | ok r =>
        dsimp only
        split_ifs <;> rfl

theorem nfsproc3Readdirplus_runIn (context : RPCContext) (vfs : DirVfs σ J H (DirEntryPlus H))
    (s : σ) (xid : UInt32) (args : Readdirplus3Args) :
    (nfsproc3Readdirplus context xid args : VfsM H I J Readdirplus3Res).runIn
        (readdirplusAnswers vfs) s =
      Nfs3.nfsproc3Readdirplus context.fileHandleConverter vfs s args := by
  unfold nfsproc3Readdirplus Nfs3.nfsproc3Readdirplus fhToId
  cases context.fileHandleConverter.fhFromNfs (H := H) args.dir with
  | error stat => rfl
  | ok dirid =>
    rcases hattr : vfs.getattr s dirid with ⟨attr, s₁⟩
    have hget : readdirplusAnswers (I := I) vfs s (.getattr dirid) = some (attr, s₁) :=
      congrArg some hattr
    simp only [hattr]
    rw [Prog.bind_eq, getPostOpAttr_runIn hget]
    split_ifs with hfits
    · rfl
    rw [checkedSub_of_le (not_lt.mp hfits), Option.bind_some]
    rcases hopen : vfs.openDir s₁ dirid args.cookie with ⟨result, s₂⟩
    have hcall : readdirplusAnswers (I := I) vfs s₁ (.readdirplus dirid args.cookie) =
        some (result, s₂) := congrArg some hopen
    refine (Prog.runIn_ask_bind hcall _).trans ?_
    cases result with
    | error stat => rfl
    | ok iter =>
      apply fill_bind_runIn (next_readdirplus vfs)
      intro result iter' s₃
      have hdrop : readdirplusAnswers (I := I) vfs s₃ (.readdirplusDrop iter') =
          some ((), vfs.drop s₃ iter') := rfl
      refine (Prog.runIn_ask_bind hdrop _).trans ?_
      cases result with
      | error stat => rfl
      | ok r =>
        dsimp only
        split_ifs <;> rfl

end Agreement

end NfsHandlers

end Nfs3
