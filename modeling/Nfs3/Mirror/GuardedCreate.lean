import Nfs3.Mirror.Lookups
import Nfs3.Mirror.Recreate
import Nfs3.Mirror.Requests

/-!
# GUARDED creates at the same time

A GUARDED create looks the name up and then makes the file with `File::create`, which opens a
file that is there and empties it. Between the two another create may look the name up too, and
then both succeed. If that does not happen, only one does, and its file is not emptied again.
-/
namespace Nfs3.Mirror

open Interaction (Prog Pool Turn Protocol)

/-! ## Where a request is -/

/-- How far a request has come. -/
inductive CreatePhase
  /-- Neither a GUARDED create of the name nor a WRITE. -/
  | free
  /-- A WRITE, or a create that found the name or could not make the file. -/
  | idle
  /-- A create that has not seen the directory yet. -/
  | fresh
  /-- It looks the name up next. -/
  | checking
  /-- It did not find the name and makes the file next. -/
  | passed
  /-- It made the file; the handle, once it has one. -/
  | opened (id : Option FileHandleU64)
  deriving DecidableEq

namespace CreatePhase

/-- The create is on its way from the lookup to the reply. -/
def Active : CreatePhase → Prop
  | passed | opened _ => True
  | _ => False

def init (dirid : FileHandleU64) (name : Filename3) (i : Incoming) : CreatePhase :=
  match i.request with
  | .create args =>
    match args.how, i.context.fileHandleConverter.fhFromNfs args.where_.dir with
    | .guarded _, .ok id => if id = dirid ∧ args.where_.name = name then .fresh else .free
    | _, _ => .free
  | .write _ => .idle
  | _ => .free

def next (p : CreatePhase) : (c : FsCall) → c.Reply → CreatePhase
  | .host (.symlinkMetadata _) => fun _ =>
    match p with
    | .fresh => .checking
    | p => p
  | .lookupById .. => fun r =>
    match p, (r : Except Nfsstat3 FileHandleU64) with
    | .checking, .ok _ => .idle
    | .checking, .error _ => .passed
    | .opened none, .ok id => .opened (some id)
    | p, _ => p
  | .host (.createFile _) => fun r =>
    match p, (r : IoResult Fd) with
    | .passed, .ok _ => .opened none
    | .passed, .error _ => .idle
    | p, _ => p
  | _ => fun _ => p

end CreatePhase

/-- A GUARDED create of the name in the directory, or a WRITE. -/
def Incoming.Concerns (dirid : FileHandleU64) (name : Filename3) (i : Incoming) : Prop :=
  (∃ args attr, i.request = .create args ∧ args.how = .guarded attr ∧
    i.context.fileHandleConverter.fhFromNfs args.where_.dir = .ok dirid ∧
    args.where_.name = name) ∨ ∃ args, i.request = .write args

/-- The phases of the requests under way. -/
def Server.createPhases {T S W : Type} [DecidableEq S] (dirid : FileHandleU64) (name : Filename3)
    (s : Server T S W) : List CreatePhase :=
  s.tasks.map fun t =>
    t.history.foldl (fun p e => p.next e.1 e.2) (CreatePhase.init dirid name t.origin)

/-- A create looks the name up only while no other one is between its lookup and the making of
the file. -/
def Server.Serial {T S W : Type} [DecidableEq S] (dirid : FileHandleU64) (name : Filename3)
    (s : Server T S W) : Turn Incoming Instant → Prop
  | .step index => (s.createPhases dirid name)[index]? = some .checking →
    .passed ∉ s.createPhases dirid name
  | _ => True

/-- The calls that can take data away from a file. -/
def HostCall.Truncates : HostCall → Prop
  | .createFile _ | .setLen .. => True
  | _ => False

/-- At most one create has succeeded, and once one has, no request is about to empty a file. -/
structure Server.Exclusive {T S W : Type} [DecidableEq S] (s : Server T S W) : Prop where
  once : ∀ (i j : ℕ) t t' ok ok', s.tasks[i]? = some t → s.tasks[j]? = some t' →
    t.result = some (.create (.ok ok)) → t'.result = some (.create (.ok ok')) → i = j
  kept : ∀ t ∈ s.tasks, ∀ ok, t.result = some (.create (.ok ok)) →
    ∀ t' ∈ s.tasks, ∀ c next, t'.rest = .ask (.host c) next → ¬c.Truncates

/-! ## The protocol -/

section Protocol

variable (root relativePath : PathBuf) (dirid : FileHandleU64) (name : Filename3)

/-- The path of the file. -/
def slotPath : PathBuf := (root.join relativePath).join (Filename3.asOsStr name)

/-- What a request may ask in its phase. -/
def CreatePhase.Allowed (p : CreatePhase) : FsCall → Prop
  | .handleToPath id =>
    p ≠ .checking ∧ ((p = .fresh ∨ p = .passed) → id = dirid)
  | .lookupById parentId filename checkPath => (p = .checking ∨ p = .opened none) ∧
    parentId = dirid ∧ filename = Filename3.asOsStr name ∧ checkPath = true
  | .host (.symlinkMetadata _) => p ≠ .checking ∧ p ≠ .passed
  | .host (.createFile path) => p = .passed ∧ path = slotPath root relativePath name
  | .host (.setLen ..) => ∃ id, p = .opened id
  | .host (.setPermissions path _) =>
    (∃ id, p = .opened id) ∧ path = slotPath root relativePath name
  | .host (.setFileAtime ..) | .host (.setFileMtime ..) | .host (.openReadWrite _) =>
    ∃ id, p = .opened id
  | .host (.openWrite _) | .host (.writeAt ..) => p = .idle
  | _ => False

def creating : Protocol FsCall FsCall.Reply CreatePhase where
  allows p c := p = .free ∨ p.Allowed root relativePath dirid name c
  relies p
    | .handleToPath id => fun r =>
      (id = dirid → r = Except.ok relativePath) ∧
        (p = .opened (some id) →
          r = Except.ok (relativePath.push (Filename3.asOsStr name)))
    | _ => fun _ => True
  next p := p.next

end Protocol

/-! ## The operations within the protocol -/

section Follows

variable {root relativePath : PathBuf} {dirid id : FileHandleU64} {name : Filename3}
  {p : CreatePhase}

theorem follows_path (h : p.Allowed root relativePath dirid name (.handleToPath id)) :
    (Fs.path root id).run.Follows (creating root relativePath dirid name) (fun p' r => p' = p ∧
      (id = dirid → r = .ok (root.join relativePath)) ∧
      (p = .opened (some id) → r = .ok (slotPath root relativePath name))) p := by
  unfold Fs.path
  rw [Prog.follows_andThen]
  refine ⟨.inr h, fun r hr => ?_⟩
  obtain ⟨hdir, hfile⟩ := hr
  cases r with
  | ok q =>
    refine ⟨rfl, fun hid => ?_, fun hp => ?_⟩
    · rw [Except.ok.inj (hdir hid)]
    · rw [Except.ok.inj (hfile hp), PathBuf.join_push]
      rfl
  | error stat =>
    refine ⟨rfl, fun hid => ?_, fun hp => ?_⟩
    · cases hdir hid
    · cases hfile hp

theorem follows_getattr (hchecking : p ≠ .checking) (hpassed : p ≠ .passed)
    (hfresh : p = .fresh → id = dirid) :
    (Fs.getattr root id).run.Follows (creating root relativePath dirid name)
      (fun p' _ => p' = if p = .fresh then .checking else p) p := by
  have hpath : p.Allowed root relativePath dirid name (.handleToPath id) := by
    refine ⟨hchecking, ?_⟩
    rintro (rfl | rfl)
    · exact hfresh rfl
    · exact absurd rfl hpassed
  unfold Fs.getattr
  rw [Prog.follows_andThen]
  refine (follows_path hpath).mono ?_
  rintro p' r ⟨rfl, hdir, -⟩
  cases r with
  | ok path =>
    dsimp only
    rw [Prog.follows_andThen]
    refine ⟨.inr ⟨hchecking, hpassed⟩, fun metadata _ => ?_⟩
    have hnext : p'.next (.host (.symlinkMetadata path)) metadata =
        if p' = .fresh then .checking else p' := by
      cases p' with
      | _ => rfl
    cases metadata with
    | ok metadata => exact hnext
    | error kind => exact hnext
  | error stat =>
    dsimp only
    split_ifs with hp
    · cases hdir (hfresh hp)
    · rfl

theorem follows_lookup :
    (Fs.lookup dirid name).run.Follows (creating root relativePath dirid name)
      (fun p' r => (∃ id, r = .ok id ∧ p' = .idle) ∨ ∃ stat, r = .error stat ∧ p' = .passed)
      .checking := by
  refine ⟨.inr ⟨.inl rfl, rfl, rfl, rfl⟩, fun r _ => ?_⟩
  cases r with
  | ok id => exact .inl ⟨id, rfl, rfl⟩
  | error stat => exact .inr ⟨stat, rfl, rfl⟩

theorem follows_setattr (attr : Sattr3) :
    (Fs.setattr root id attr).run.Follows (creating root relativePath dirid name)
      (fun p' _ => p' = .opened (some id)) (.opened (some id)) := by
  have hpath : (CreatePhase.opened (some id)).Allowed root relativePath dirid name
      (.handleToPath id) := by
    constructor
    · simp
    · simp
  unfold Fs.setattr
  rw [Prog.follows_andThen]
  refine (follows_path hpath).mono ?_
  rintro p' r ⟨rfl, -, hfile⟩
  cases hfile rfl
  dsimp only
  rw [Prog.follows_andThen]
  have hasks : Asks (fun c =>
      (CreatePhase.opened (some id)).Allowed root relativePath dirid name c ∧
      ∀ r, (CreatePhase.opened (some id)).next c r = .opened (some id))
      (pathSetattr (slotPath root relativePath name) attr).run := by
    apply asks_pathSetattr
    intro c hc
    cases c with
    | setFileAtime | setFileMtime | openReadWrite | setLen => exact ⟨⟨_, rfl⟩, fun _ => rfl⟩
    | setPermissions path mode => exact ⟨⟨⟨_, rfl⟩, hc⟩, fun _ => rfl⟩
    | _ => cases hc
  have hfollows := hasks.follows (P := creating root relativePath dirid name)
    (p := .opened (some id)) fun c hc => ⟨Or.inr hc.1, hc.2⟩
  refine hfollows.mono ?_
  rintro p' r ⟨rfl, -⟩
  cases r with
  | ok _ => exact follows_getattr (by simp) (by simp) (by simp)
  | error stat => rfl

theorem follows_register :
    (Fs.lookupById dirid (Filename3.asOsStr name) true).run.Follows
      (creating root relativePath dirid name)
      (fun p' r => (∃ id, r = .ok id ∧ p' = .opened (some id)) ∨
        ∃ stat, r = .error stat ∧ p' = .opened none) (.opened none) := by
  refine ⟨.inr ⟨.inr rfl, rfl, rfl, rfl⟩, fun r _ => ?_⟩
  cases r with
  | ok id => exact .inl ⟨id, rfl, rfl⟩
  | error stat => exact .inr ⟨stat, rfl, rfl⟩

/-- The file is made and, where a size is given, cut to it. -/
theorem follows_createSized (size : SetSize3) :
    (mapErr mapIoError (Fs.createSized (slotPath root relativePath name) size)).run.Follows
      (creating root relativePath dirid name)
      (fun p' r => p' = .opened none ∨ p' = .idle ∧ ∃ stat, r = .error stat) .passed := by
  refine Prog.follows_bind.mpr ?_
  unfold Fs.createSized
  rw [Prog.follows_andThen]
  refine ⟨.inr ⟨rfl, rfl⟩, fun file _ => ?_⟩
  cases file with
  | error kind => exact .inr ⟨rfl, _, rfl⟩
  | ok file =>
    cases size with
    | none => exact .inl rfl
    | some size =>
      refine ⟨.inr ⟨none, rfl⟩, fun r _ => ?_⟩
      cases r with
      | ok _ => exact .inl rfl
      | error kind => exact .inl rfl

theorem follows_create (attr : Sattr3) :
    (Fs.create root dirid name attr).run.Follows (creating root relativePath dirid name)
      (fun p' r => (∃ id, p' = .opened id) ∨ p' = .idle ∧ ∃ stat, r = .error stat) .passed := by
  have hpath : CreatePhase.passed.Allowed root relativePath dirid name (.handleToPath dirid) :=
    ⟨by simp, fun _ => rfl⟩
  unfold Fs.create
  rw [Prog.follows_andThen]
  refine (follows_path hpath).mono ?_
  rintro p' r ⟨rfl, hdir, -⟩
  cases hdir rfl
  dsimp only
  rw [Prog.follows_andThen]
  refine (follows_createSized attr.size).mono ?_
  rintro p' r (rfl | ⟨rfl, stat, rfl⟩)
  · cases r with
    | error stat => exact .inl ⟨none, rfl⟩
    | ok _ =>
      dsimp only
      rw [Prog.follows_andThen]
      refine follows_register.mono ?_
      rintro p' r (⟨fileId, rfl, rfl⟩ | ⟨stat, rfl, rfl⟩)
      · dsimp only
        rw [Prog.follows_andThen]
        refine (follows_setattr attr).mono ?_
        rintro p' r rfl
        cases r with
        | ok fattr => exact .inl ⟨some fileId, rfl⟩
        | error stat => exact .inl ⟨some fileId, rfl⟩
      · exact .inl ⟨none, rfl⟩
  · exact .inr ⟨rfl, stat, rfl⟩

/-- What a WRITE asks. -/
def FsCall.Writes : FsCall → Prop
  | .handleToPath _ => True
  | .host (.symlinkMetadata _) | .host (.openWrite _) | .host (.writeAt ..) => True
  | _ => False

theorem Asks.follows_idle {α : Type} {m : FsProg α} (h : Asks FsCall.Writes m) :
    m.Follows (creating root relativePath dirid name) (fun p' _ => p' = .idle) .idle := by
  have hA : ∀ c : FsCall, c.Writes → (creating root relativePath dirid name).allows .idle c ∧
      ∀ r, (creating root relativePath dirid name).next .idle c r = .idle := by
    intro c hc
    cases c with
    | handleToPath id => exact ⟨.inr ⟨by simp, by simp⟩, fun _ => rfl⟩
    | host c =>
      cases c with
      | symlinkMetadata path => exact ⟨.inr ⟨by simp, by simp⟩, fun _ => rfl⟩
      | openWrite path => exact ⟨.inr rfl, fun _ => rfl⟩
      | writeAt file offset data => exact ⟨.inr rfl, fun _ => rfl⟩
      | _ => cases hc
    | _ => cases hc
  refine (Prog.Meets.follows h hA).mono ?_
  rintro p' r ⟨rfl, -⟩
  rfl

theorem writes_path (root : PathBuf) (id : FileHandleU64) :
    Asks FsCall.Writes (Fs.path root id).run := by
  have hask : Asks FsCall.Writes (.ask (.handleToPath id) .ret) := ⟨trivial, fun _ => trivial⟩
  exact Asks.andThen hask fun _ => asks_ret _

theorem writes_getattr (root : PathBuf) (id : FileHandleU64) :
    Asks FsCall.Writes (Fs.getattr root id).run := by
  refine (writes_path root id).andThen fun path => ?_
  have hcall : Asks FsCall.Writes (call (.symlinkMetadata path)) := asks_call trivial
  exact Asks.andThen (Asks.mapErr hcall) fun _ => asks_ret _

theorem writes_write (root : PathBuf) (id : FileHandleU64) (offset : UInt64)
    (data : ByteOrder.Bytes) : Asks FsCall.Writes (Fs.write root id offset data).run := by
  refine (writes_path root id).andThen fun path => ?_
  have hmetadata : Asks FsCall.Writes (call (.symlinkMetadata path)) := asks_call trivial
  refine Asks.andThen (Asks.mapErr hmetadata) fun metadata => ?_
  split_ifs
  · have hopen : Asks FsCall.Writes (call (.openWrite path)) := asks_call trivial
    have hwrite : ∀ file, Asks FsCall.Writes (call (.writeAt file offset data)) :=
      fun _ => asks_call trivial
    refine Asks.andThen (Asks.mapErr ?_) fun _ => writes_getattr root id
    exact Asks.andThen hopen fun file => hwrite file
  · exact asks_ret _

/-! ## The handlers within the protocol -/

/-- A create that succeeded made the file. -/
def Replied (p : CreatePhase) (reply : Reply) : Prop :=
  ∀ ok, reply = .create (.ok ok) → p = .free ∨ ∃ id, p = .opened id

theorem follows_free (i : Incoming) :
    (i.task root).Follows (creating root relativePath dirid name) (fun p' r => Replied p' r)
      .free := by
  have hmeets : (i.task root).Meets (fun _ => True) fun _ => True :=
    Prog.Meets.of_forall fun _ => trivial
  have hA : ∀ c : FsCall, True → (creating root relativePath dirid name).allows .free c ∧
      ∀ r, (creating root relativePath dirid name).next .free c r = .free := by
    intro c _
    refine ⟨.inl rfl, fun r => ?_⟩
    cases c with
    | lookupById => rfl
    | host c =>
      cases c with
      | _ => rfl
    | _ => rfl
  refine (hmeets.follows hA).mono ?_
  rintro p' r ⟨rfl, -⟩ ok -
  exact .inl rfl

theorem follows_nfsproc3Write (context : RPCContext) (xid : UInt32) (now : Instant)
    (args : Write3Args) :
    ((NfsHandlers.nfsproc3Write context xid args).interp (Fs.serve root now)).Follows
      (creating root relativePath dirid name) (fun p' _ => p' = .idle) .idle := by
  unfold NfsHandlers.nfsproc3Write NfsHandlers.readWrite
  refine Prog.follows_interp_ask.mpr ?_
  change (Prog.interp _ (ite _ _ _)).Follows _ _ _
  split_ifs
  · rfl
  · unfold NfsHandlers.fhToId
    split
    · rfl
    · refine Prog.follows_interp_ask.mpr ?_
      refine (writes_getattr root _).follows_idle.mono ?_
      rintro p' before rfl
      refine Prog.follows_interp_ask.mpr ?_
      refine (writes_write root _ _ _).follows_idle.mono ?_
      rintro p' written rfl
      cases written with
      | ok fattr => rfl
      | error stat => rfl

theorem follows_nfsproc3Create {context : RPCContext} {args : Create3Args} {attr : Sattr3}
    (xid : UInt32) (now : Instant) (hhow : args.how = .guarded attr)
    (hid : context.fileHandleConverter.fhFromNfs args.where_.dir = .ok dirid)
    (hname : args.where_.name = name) :
    ((NfsHandlers.nfsproc3Create context xid args).interp (Fs.serve root now)).Follows
      (creating root relativePath dirid name)
      (fun p' r => ∀ ok, r = .ok ok → ∃ id, p' = .opened id) .fresh := by
  unfold NfsHandlers.nfsproc3Create NfsHandlers.readWrite NfsHandlers.fhToId
  rw [hid, hhow, hname]
  refine Prog.follows_interp_ask.mpr ?_
  refine Prog.follows_interp_ask.mpr ?_
  refine (follows_getattr (by simp) (by simp) fun _ => rfl).mono ?_
  rintro p' before hp'
  rw [if_pos rfl] at hp'
  subst hp'
  cases before with
  | error stat => exact fun ok h => nomatch h
  | ok v =>
    refine Prog.follows_interp_ask.mpr ?_
    refine follows_lookup.mono ?_
    rintro p' found (⟨fid, rfl, rfl⟩ | ⟨stat, rfl, rfl⟩)
    · refine Prog.follows_interp_ask.mpr ?_
      refine (writes_getattr root dirid).follows_idle.mono ?_
      rintro p' after rfl
      exact fun ok h => nomatch h
    · refine Prog.follows_interp_ask.mpr ?_
      refine (follows_create attr).mono ?_
      rintro p' created (⟨id, rfl⟩ | ⟨rfl, stat, rfl⟩)
      · cases created with
        | error stat =>
          refine Prog.follows_interp_ask.mpr ?_
          refine (follows_getattr (by simp) (by simp) (by simp)).mono ?_
          rintro p' after -
          exact fun ok h => nomatch h
        | ok made =>
          refine Prog.follows_interp_ask.mpr ?_
          refine (follows_getattr (by simp) (by simp) (by simp)).mono ?_
          rintro p' after hp'
          rw [if_neg (by simp)] at hp'
          exact fun ok _ => ⟨id, hp'⟩
      · refine Prog.follows_interp_ask.mpr ?_
        refine (writes_getattr root dirid).follows_idle.mono ?_
        rintro p' after -
        exact fun ok h => nomatch h

theorem follows_task (i : Incoming) :
    (i.task root).Follows (creating root relativePath dirid name) Replied
      (CreatePhase.init dirid name i) := by
  unfold CreatePhase.init
  split
  · rename_i args hrequest
    split
    · rename_i attr id hhow hid
      split_ifs with hboth
      · obtain ⟨rfl, hname⟩ := hboth
        unfold Incoming.task Incoming.respond
        rw [hrequest]
        refine Prog.interp_bind ▸ Prog.follows_bind.mpr ?_
        refine (follows_nfsproc3Create i.xid i.now hhow hid hname).mono ?_
        intro p' r hr ok hok
        cases hok
        exact .inr (hr ok rfl)
      · exact follows_free i
    · exact follows_free i
  · rename_i args hrequest
    unfold Incoming.task Incoming.respond
    rw [hrequest]
    refine Prog.interp_bind ▸ Prog.follows_bind.mpr ?_
    refine (follows_nfsproc3Write i.context i.xid i.now args).mono ?_
    intro p' r _ ok hok
    cases hok
  · exact follows_free i

end Follows

/-! ## The invariant -/

/-- Calls that change no entry of a directory, nor who can see it. -/
def HostCall.Harmless (path : PathBuf) : HostCall → Prop
  | .pathExists _ | .symlinkMetadata _ | .openWrite _ | .writeAt .. => True
  | .openReadWrite _ | .setLen .. | .setFileAtime .. | .setFileMtime .. => True
  | .setPermissions p _ => p = path
  | _ => False

/-- What is documented of the calls of creates and writes. Under the path nothing is there, or a
regular file that the server can see; `File::create` makes it. -/
structure HostFs.Slot {W : Type} (host : HostFs W) (dir path : PathBuf) where
  absent : W → Prop
  file : W → Prop
  dir_exists : ∀ w, file w → (host.answer w (.pathExists dir)).1 = true
  path_exists : ∀ w, file w → (host.answer w (.pathExists path)).1 = true
  absent_kept : ∀ w (c : HostCall), c.Harmless path → absent w → absent (host.answer w c).2
  file_kept : ∀ w (c : HostCall), c.Harmless path → file w → file (host.answer w c).2
  createFile_ok : ∀ w fd, absent w ∨ file w →
    ((host.answer w (.createFile path)).1 : IoResult Fd) = .ok fd →
    file (host.answer w (.createFile path)).2
  absent_error : ∀ w kind, absent w →
    ((host.answer w (.createFile path)).1 : IoResult Fd) = .error kind →
    absent (host.answer w (.createFile path)).2
  file_error : ∀ w kind, file w →
    ((host.answer w (.createFile path)).1 : IoResult Fd) = .error kind →
    file (host.answer w (.createFile path)).2

section Guarded

variable {T S W : Type} [SymbolTable T S] [DecidableEq S] {host : HostFs W}
  {root relativePath : PathBuf} {dirid : FileHandleU64} {name : Filename3}
  {slot : host.Slot (root.join relativePath) (slotPath root relativePath name)}
  {s s' : Machine T S W} {ps : List CreatePhase} {p p' : CreatePhase} {index : ℕ}

/-- Only one create is on its way from its lookup to its reply, and where it has made the file,
the file is there. -/
structure Guarded (slot : host.Slot (root.join relativePath) (slotPath root relativePath name))
    (dirid : FileHandleU64) (s : Machine T S W) (ps : List CreatePhase) : Prop where
  sound : s.fs.cache.inner.Sound
  rooted : s.Rooted
  root_eq : s.fs.root = root
  dir : s.fs.relativePath dirid = some relativePath
  host : slot.absent s.host ∨ slot.file s.host
  concerned : .free ∉ ps
  one : ∀ (i j : ℕ) p q, ps[i]? = some p → ps[j]? = some q → p.Active → q.Active → i = j
  opened : ∀ id, .opened id ∈ ps → slot.file s.host
  known : ∀ id, .opened (some id) ∈ ps →
    s.fs.relativePath id = some (relativePath.push (Filename3.asOsStr name))

theorem one_set (h : ∀ (i j : ℕ) p q, ps[i]? = some p → ps[j]? = some q → p.Active → q.Active →
      i = j) (hphase : ps[index]? = some p)
    (hactive : p'.Active → p.Active ∨ ∀ q ∈ ps, ¬q.Active) (i j : ℕ) (q q' : CreatePhase)
    (hi : (ps.set index p')[i]? = some q) (hj : (ps.set index p')[j]? = some q')
    (hq : q.Active) (hq' : q'.Active) : i = j := by
  -- the changed place is only active if it was before, or if no other is
  have hother : ∀ (k : ℕ) r, p'.Active → k ≠ index → (ps.set index p')[k]? = some r →
      r.Active → k = index := by
    intro k r hp' hk hr hractive
    rw [List.getElem?_set_ne (Ne.symm hk)] at hr
    rcases hactive hp' with hp | hnone
    · exact h k index r p hr hphase hractive hp
    · exact absurd hractive (hnone r (List.mem_of_getElem? hr))
  have hlt : index < ps.length := (List.getElem?_eq_some_iff.mp hphase).1
  have hself : (ps.set index p')[index]? = some p' := by simp [hlt]
  by_cases hieq : i = index
  · subst hieq
    obtain rfl : p' = q := Option.some.inj (hself.symm.trans hi)
    by_contra hne
    exact hne (hother j q' hq (fun h => hne h.symm) hj hq').symm
  · by_cases hjeq : j = index
    · subst hjeq
      obtain rfl : p' = q' := Option.some.inj (hself.symm.trans hj)
      exact hother i q hq' hieq hi hq
    · rw [List.getElem?_set_ne (Ne.symm hieq)] at hi
      rw [List.getElem?_set_ne (Ne.symm hjeq)] at hj
      exact h i j q q' hi hj hq hq'

theorem Guarded.phase_ne_free (h : Guarded slot dirid s ps) (hphase : ps[index]? = some p) :
    p ≠ .free := by
  rintro rfl
  exact h.concerned (List.mem_of_getElem? hphase)

theorem Guarded.hostPath (h : Guarded slot dirid s ps) :
    s.fs.hostPath dirid = some (root.join relativePath) := by
  rw [Fs.hostPath_eq, h.dir, h.root_eq]
  rfl

theorem exec_handleToPath_eq {id : FileHandleU64} {r : Except Nfsstat3 PathBuf}
    (hexec : s.exec host (.handleToPath id) = some (r, s')) : s'.host = s.host := by
  obtain ⟨⟨⟨r₁, fs⟩, w⟩, hrun, heq⟩ := Option.map_eq_some_iff.mp hexec
  cases heq
  change (Prog.bind (s.fs.cache.handleToPath id) _).runIn _ _ = _ at hrun
  unfold SymbolsCache.handleToPath at hrun
  split at hrun
  · cases hrun
    rfl
  · split at hrun
    · cases hrun
    · cases hrun
      rfl

theorem init_of_concerns {i : Incoming} (h : i.Concerns dirid name) :
    CreatePhase.init dirid name i = .fresh ∨ CreatePhase.init dirid name i = .idle := by
  rcases h with ⟨args, attr, hrequest, hhow, hid, hname⟩ | ⟨args, hrequest⟩
  · simp [CreatePhase.init, hrequest, hhow, hid, hname]
  · simp [CreatePhase.init, hrequest]

theorem Guarded.start (h : Guarded slot dirid s ps) (hp : p = .fresh ∨ p = .idle) :
    Guarded slot dirid s (ps ++ [p]) := by
  have hinactive : ¬p.Active := by
    rcases hp with rfl | rfl
    · exact fun h => h
    · exact fun h => h
  have hactive : ∀ (i : ℕ) q, (ps ++ [p])[i]? = some q → q.Active → ps[i]? = some q := by
    intro i q hi hq
    rcases Nat.lt_or_ge i ps.length with hlt | hge
    · rwa [List.getElem?_append_left hlt] at hi
    · rw [List.getElem?_append_right hge] at hi
      have hmem := List.mem_of_getElem? hi
      rw [List.mem_singleton] at hmem
      exact absurd (hmem ▸ hq) hinactive
  have hopened : ∀ id, .opened id ∈ ps ++ [p] → .opened id ∈ ps := by
    intro id hmem
    rcases List.mem_append.mp hmem with hmem | hmem
    · exact hmem
    · rw [← List.mem_singleton.mp hmem] at hinactive
      exact absurd trivial hinactive
  constructor
  · exact h.sound
  · exact h.rooted
  · exact h.root_eq
  · exact h.dir
  · exact h.host
  · intro hmem
    rcases List.mem_append.mp hmem with hmem | hmem
    · exact h.concerned hmem
    · rw [← List.mem_singleton.mp hmem] at hp
      rcases hp with hp | hp
      · cases hp
      · cases hp
  · intro i j q q' hi hj hq hq'
    exact h.one i j q q' (hactive i q hi hq) (hactive j q' hj hq') hq hq'
  · exact fun id hmem => h.opened id (hopened id hmem)
  · exact fun id hmem => h.known id (hopened (some id) hmem)

theorem Guarded.relies {c : FsCall} {r : c.Reply} (h : Guarded slot dirid s ps) (hp : p ∈ ps)
    (hexec : s.exec host c = some (r, s')) :
    (creating root relativePath dirid name).relies p c r := by
  cases c with
  | handleToPath id =>
    have hpath : ∀ q, s.fs.relativePath id = some q → r = Except.ok q := by
      intro q hq
      obtain ⟨path, hid, hresolve⟩ := Option.bind_eq_some_iff.mp hq
      have hanswer := hexec.symm.trans (Machine.exec_handleToPath_of_some hid hresolve)
      exact (Prod.mk.inj (Option.some.inj hanswer)).1
    constructor
    · rintro rfl
      exact hpath relativePath h.dir
    · rintro rfl
      exact hpath _ (h.known id hp)
  | _ => trivial

/-- Requests that follow the protocol under the invariant are exclusive. -/
theorem Guarded.exclusive {s : Server T S W}
    (h : Guarded slot dirid s.shared (s.createPhases dirid name))
    (hfollows : s.Follows (creating root relativePath dirid name) (CreatePhase.init dirid name)
      fun _ => Replied) : s.Exclusive := by
  have hphase : ∀ (i : ℕ) t, s.tasks[i]? = some t → ∃ p, p ≠ .free ∧
      (s.createPhases dirid name)[i]? = some p ∧
      t.rest.Follows (creating root relativePath dirid name) Replied p := by
    intro i t ht
    have hp : (s.createPhases dirid name)[i]? = some (t.history.foldl
        (fun p e => p.next e.1 e.2) (CreatePhase.init dirid name t.origin)) := by
      simp [Server.createPhases, ht]
    exact ⟨_, h.phase_ne_free hp, hp, hfollows t (List.mem_of_getElem? ht)⟩
  have hsucceeded : ∀ (i : ℕ) t ok, s.tasks[i]? = some t →
      t.result = some (.create (.ok ok)) →
      ∃ p, (s.createPhases dirid name)[i]? = some p ∧ p.Active := by
    intro i t ok ht hresult
    obtain ⟨p, hfree, hp, hrest⟩ := hphase i t ht
    rw [Interaction.Task.result_eq_some.mp hresult] at hrest
    rcases hrest ok rfl with hp' | ⟨id, rfl⟩
    · exact absurd hp' hfree
    · exact ⟨_, hp, trivial⟩
  constructor
  · intro i j t t' ok ok' hi hj hresult hresult'
    obtain ⟨p, hp, hactive⟩ := hsucceeded i t ok hi hresult
    obtain ⟨p', hp', hactive'⟩ := hsucceeded j t' ok' hj hresult'
    exact h.one i j p p' hp hp' hactive hactive'
  · intro t ht ok hresult t' ht' c next hask htruncates
    obtain ⟨i, hi⟩ := List.getElem?_of_mem ht
    obtain ⟨j, hj⟩ := List.getElem?_of_mem ht'
    obtain ⟨p, hp, hactive⟩ := hsucceeded i t ok hi hresult
    obtain ⟨p', hfree', hp', hrest'⟩ := hphase j t' hj
    rw [hask] at hrest'
    have hactive' : p'.Active := by
      rcases hrest'.1 with hfree | hallowed
      · exact absurd hfree hfree'
      · cases c with
        | createFile path =>
          rw [hallowed.1]
          trivial
        | setLen file size =>
          obtain ⟨id, rfl⟩ := hallowed
          trivial
        | _ => cases htruncates
    obtain rfl := h.one i j p p' hp hp' hactive hactive'
    obtain rfl : t = t' := Option.some.inj (hi.symm.trans hj)
    rw [Interaction.Task.result_eq_some.mp hresult] at hask
    cases hask

variable [LawfulSymbolTable T S]

theorem Guarded.set {c : FsCall} {r : c.Reply} (h : Guarded slot dirid s ps)
    (hphase : ps[index]? = some p) (hexec : s.exec host c = some (r, s'))
    (hhost : slot.absent s.host → slot.absent s'.host ∨ slot.file s'.host)
    (hfile : slot.file s.host → slot.file s'.host) (hfree : p' ≠ .free)
    (hactive : p'.Active → p.Active ∨ ∀ q ∈ ps, ¬q.Active)
    (hopened : ∀ id, p' = .opened id → slot.file s'.host)
    (hknown : ∀ id, p' = .opened (some id) →
      s'.fs.relativePath id = some (relativePath.push (Filename3.asOsStr name))) :
    Guarded slot dirid s' (ps.set index p') := by
  have hlater : Fs.Later s.fs s'.fs := Fs.ExecStep.later ⟨c, r, Machine.ends_of_exec hexec⟩ h.sound
  constructor
  · exact hlater.sound
  · exact Machine.exec_rooted h.rooted hexec
  · exact (Machine.exec_sameRoots hexec).root.trans h.root_eq
  · exact hlater.relativePath_eq h.sound h.dir
  · rcases h.host with habsent | hthere
    · exact hhost habsent
    · exact .inr (hfile hthere)
  · intro hmem
    rcases List.mem_or_eq_of_mem_set hmem with hmem | heq
    · exact h.concerned hmem
    · exact hfree heq.symm
  · exact one_set h.one hphase hactive
  · intro id hmem
    rcases List.mem_or_eq_of_mem_set hmem with hmem | heq
    · exact hfile (h.opened id hmem)
    · exact hopened id heq.symm
  · intro id hmem
    rcases List.mem_or_eq_of_mem_set hmem with hmem | heq
    · exact hlater.relativePath_eq h.sound (h.known id hmem)
    · exact hknown id heq.symm

/-- A request asks something and stays in its phase. -/
theorem Guarded.stay {c : FsCall} {r : c.Reply} (h : Guarded slot dirid s ps)
    (hphase : ps[index]? = some p) (hexec : s.exec host c = some (r, s'))
    (habsent : slot.absent s.host → slot.absent s'.host)
    (hfile : slot.file s.host → slot.file s'.host) :
    Guarded slot dirid s' (ps.set index p) := by
  have hmem := List.mem_of_getElem? hphase
  have hlater : Fs.Later s.fs s'.fs := Fs.ExecStep.later ⟨c, r, Machine.ends_of_exec hexec⟩ h.sound
  apply h.set hphase hexec (fun ha => .inl (habsent ha)) hfile (h.phase_ne_free hphase) .inl
  · rintro id rfl
    exact hfile (h.opened id hmem)
  · rintro id rfl
    exact hlater.relativePath_eq h.sound (h.known id hmem)

/-- A request moves on to a phase in which it has not passed its lookup. -/
theorem Guarded.leave {c : FsCall} {r : c.Reply} (h : Guarded slot dirid s ps)
    (hphase : ps[index]? = some p) (hexec : s.exec host c = some (r, s'))
    (habsent : slot.absent s.host → slot.absent s'.host)
    (hfile : slot.file s.host → slot.file s'.host) (hfree : p' ≠ .free) (hactive : ¬p'.Active) :
    Guarded slot dirid s' (ps.set index p') := by
  apply h.set hphase hexec (fun ha => .inl (habsent ha)) hfile hfree fun ha => absurd ha hactive
  · rintro id rfl
    exact absurd trivial hactive
  · rintro id rfl
    exact absurd trivial hactive

theorem Guarded.lookup_of_file {r : Except Nfsstat3 FileHandleU64} (h : Guarded slot dirid s ps)
    (hfile : slot.file s.host) {now : Instant}
    (hrun : s.answer host now (.lookup dirid name) = some (r, s')) : ∃ id, r = .ok id := by
  have hpath := h.hostPath
  cases hcached : s.fs.cached dirid (Filename3.asOsStr name) with
  | some id =>
    obtain ⟨fs', hanswer, -⟩ : ∃ fs', s.answer host now (.lookup dirid name) =
        some ((.ok id : Except Nfsstat3 FileHandleU64), ⟨fs', s.host⟩) ∧ _ :=
      Machine.answer_lookup_of_cached hcached hpath
    rw [hanswer] at hrun
    exact ⟨id, (Prod.mk.inj (Option.some.inj hrun)).1.symm⟩
  | none =>
    obtain ⟨parent, hid, hresolve⟩ := Option.bind_eq_some_iff.mp h.dir
    cases hintern : SymbolTable.intern s.fs.cache.inner.symbols (Filename3.asOsStr name) with
    | none =>
      rw [Machine.answer_lookup_eq hid, SymbolsCacheInner.lookup, hintern] at hrun
      cases hrun
    | some interned =>
      obtain ⟨symbol, symbols⟩ := interned
      have hnone : s.fs.cache.inner.pathToId.lookup (parent.join symbol) = none := by
        simpa [Fs.cached, hid, hintern] using hcached
      rw [Machine.answer_lookup_of_uncached hid hintern hnone] at hrun
      obtain ⟨ns, hns, hrelative⟩ := Option.map_eq_some_iff.mp hresolve
      have hinner : resolvePath { s.fs.cache.inner with symbols }.symbols parent =
          some relativePath := by
        rw [resolvePath, names_intern hintern hns]
        exact congrArg some hrelative
      -- the file stays where it is while the directory is tested
      obtain ⟨w₁, hdir⟩ : ∃ w₁, host.answer s.host (.pathExists (root.join relativePath)) =
          ((true : Bool), w₁) := ⟨_, Prod.ext (slot.dir_exists s.host hfile) rfl⟩
      have hfile₁ := slot.file_kept s.host (.pathExists (root.join relativePath)) trivial hfile
      rw [hdir] at hfile₁
      obtain ⟨w₂, hfound⟩ : ∃ w₂, host.answer w₁ (.pathExists (slotPath root relativePath name)) =
          ((true : Bool), w₂) := ⟨_, Prod.ext (slot.path_exists w₁ hfile₁) rfl⟩
      rw [show s.fs.cache.root = root from h.rooted.trans h.root_eq,
        Machine.runIn_testPath hinner hdir hfound] at hrun
      change (ite _ _ _) = _ at hrun
      split_ifs at hrun
      exact ⟨_, (Prod.mk.inj (Option.some.inj hrun)).1.symm⟩

theorem Guarded.step_lookup {r : Except Nfsstat3 FileHandleU64} (h : Guarded slot dirid s ps)
    (hphase : ps[index]? = some p) (hp : p = .checking ∨ p = .opened none)
    (hserial : p = .checking → .passed ∉ ps)
    (hexec : s.exec host (.lookupById dirid (Filename3.asOsStr name) true) = some (r, s')) :
    Guarded slot dirid s'
      (ps.set index (p.next (.lookupById dirid (Filename3.asOsStr name) true) r)) := by
  have hrun : s.answer host 0 (.lookup dirid name) = some (r, s') :=
    Machine.exec_lookupById.symm.trans hexec
  have habsent := Machine.lookup_kept (fun w path => slot.absent_kept w (.pathExists path) trivial)
    h.hostPath hrun
  have hfile := Machine.lookup_kept (fun w path => slot.file_kept w (.pathExists path) trivial)
    h.hostPath hrun
  rcases hp with rfl | rfl
  · cases r with
    | ok id =>
      change Guarded slot dirid s' (ps.set index .idle)
      exact h.leave hphase hexec habsent hfile (by simp) (by simp [CreatePhase.Active])
    | error stat =>
      -- nobody else has passed, and a file that was made would have been found
      have hnone : ∀ q ∈ ps, ¬q.Active := by
        intro q hq hactive
        cases q with
        | passed => exact hserial rfl hq
        | opened id =>
          obtain ⟨id', heq⟩ := h.lookup_of_file (h.opened id hq) hrun
          cases heq
        | _ => exact hactive
      change Guarded slot dirid s' (ps.set index .passed)
      apply h.set hphase hexec (fun ha => .inl (habsent ha)) hfile (by simp) fun _ => .inr hnone
      · simp
      · simp
  · have hthere := h.opened none (List.mem_of_getElem? hphase)
    cases r with
    | error stat => exact h.stay hphase hexec habsent hfile
    | ok id =>
      change Guarded slot dirid s' (ps.set index (.opened (some id)))
      apply h.set hphase hexec (fun ha => .inl (habsent ha)) hfile (by simp)
        fun _ => .inl trivial
      · intro _ _
        exact hfile hthere
      · intro id' heq
        cases heq
        exact (Machine.relativePath_of_lookup h.sound h.dir hrun).2

theorem Guarded.step_createFile {r : IoResult Fd} (h : Guarded slot dirid s ps)
    (hphase : ps[index]? = some .passed)
    (hexec : s.exec host (.host (.createFile (slotPath root relativePath name))) = some (r, s')) :
    Guarded slot dirid s' (ps.set index
      (CreatePhase.passed.next (.host (.createFile (slotPath root relativePath name))) r)) := by
  obtain ⟨hr, hs'⟩ := Prod.mk.inj (Option.some.inj hexec)
  have hhost : s'.host = (host.answer s.host (.createFile (slotPath root relativePath name))).2 :=
    congrArg Machine.host hs'.symm
  cases r with
  | ok fd =>
    have hmade := slot.createFile_ok s.host fd h.host hr
    rw [← hhost] at hmade
    change Guarded slot dirid s' (ps.set index (.opened none))
    apply h.set hphase hexec (fun _ => .inr hmade) (fun _ => hmade) (by simp) fun _ => .inl trivial
    · intro _ _
      exact hmade
    · intro id heq
      cases heq
  | error kind =>
    change Guarded slot dirid s' (ps.set index .idle)
    apply h.leave hphase hexec
    · intro habsent
      rw [hhost]
      exact slot.absent_error s.host kind habsent hr
    · intro hfile
      rw [hhost]
      exact slot.file_error s.host kind hfile hr
    · simp
    · simp [CreatePhase.Active]

theorem Guarded.step {c : FsCall} {r : c.Reply} (h : Guarded slot dirid s ps)
    (hphase : ps[index]? = some p) (hallowed : p.Allowed root relativePath dirid name c)
    (hserial : p = .checking → .passed ∉ ps) (hexec : s.exec host c = some (r, s')) :
    Guarded slot dirid s' (ps.set index (p.next c r)) := by
  cases c with
  | handleToPath id =>
    have hhost := exec_handleToPath_eq hexec
    apply h.stay hphase hexec
    · rw [hhost]
      exact fun habsent => habsent
    · rw [hhost]
      exact fun hfile => hfile
  | lookupById parentId filename checkPath =>
    obtain ⟨hp, rfl, rfl, rfl⟩ := hallowed
    exact h.step_lookup hphase hp hserial hexec
  | host c =>
    have hhost : s'.host = (host.answer s.host c).2 :=
      (congrArg Machine.host (Prod.mk.inj (Option.some.inj hexec)).2).symm
    have hstay : c.Harmless (slotPath root relativePath name) →
        Guarded slot dirid s' (ps.set index p) := by
      intro hc
      apply h.stay hphase hexec
      · rw [hhost]
        exact slot.absent_kept s.host c hc
      · rw [hhost]
        exact slot.file_kept s.host c hc
    cases c with
    | symlinkMetadata path =>
      cases p with
      | fresh =>
        change Guarded slot dirid s' (ps.set index .checking)
        apply h.leave hphase hexec
        · rw [hhost]
          exact slot.absent_kept s.host _ trivial
        · rw [hhost]
          exact slot.file_kept s.host _ trivial
        · simp
        · simp [CreatePhase.Active]
      | _ => exact hstay trivial
    | createFile path =>
      obtain ⟨rfl, rfl⟩ := hallowed
      exact h.step_createFile hphase hexec
    | setLen | setFileAtime | setFileMtime | openReadWrite | openWrite | writeAt =>
      exact hstay trivial
    | setPermissions path mode => exact hstay hallowed.2
    | _ => cases hallowed
  | _ => cases hallowed

theorem Guarded.turned {s : Server T S W} {t : Turn Incoming Instant} {shared : Machine T S W}
    (h : Guarded slot dirid s.shared (s.createPhases dirid name)) (hserial : s.Serial dirid name t)
    (hconcerns : ∀ i, t = .start i → i.Concerns dirid name)
    (hturned : Pool.Turned (creating root relativePath dirid name) (CreatePhase.init dirid name)
      (Machine.exec host) Server.clean s.shared (s.createPhases dirid name) t shared ps) :
    Guarded slot dirid shared ps := by
  cases hturned with
  | start origin => exact h.start (init_of_concerns (hconcerns origin rfl))
  | step hphase hallowed hanswer =>
    rcases hallowed with hfree | hallowed
    · exact absurd hfree (h.phase_ne_free hphase)
    · refine h.step hphase hallowed ?_ hanswer
      rintro rfl
      exact hserial hphase
  | tick time =>
    exact ⟨h.sound, h.rooted, h.root_eq, h.dir, h.host, h.concerned, h.one, h.opened, h.known⟩

/-- Any number of GUARDED creates of a name that is absent, together with any WRITEs, however
their steps mix: as long as no create looks the name up while another one is between its lookup
and the making of the file, at most one of them succeeds, and its file is not emptied again. -/
theorem guarded_create_exclusive {retentionPeriod : ℕ} {maxCachedPerDir : UInt16}
    {start : Machine T S W} {turns : List (Turn Incoming Instant)} {s : Server T S W}
    (slot : host.Slot (root.join relativePath) (slotPath root relativePath name))
    (hreach : Relation.ReflTransGen Fs.ExecStep (.new root retentionPeriod maxCachedPerDir)
      start.fs)
    (hdir : start.fs.relativePath dirid = some relativePath) (habsent : slot.absent start.host)
    (hconcerns : ∀ i, .start i ∈ turns → i.Concerns dirid name)
    (hserial : Transition.Along (Server.turn host root) (Server.Serial dirid name) ⟨start, []⟩
      turns)
    (hrun : Transition.run (Server.turn host root) ⟨start, []⟩ turns = some s) :
    s.Exclusive := by
  obtain ⟨hrooted, hroot⟩ := Machine.rooted_of_reached hreach
  have hsound := (Fs.later_of_run (Fs.sound_new root retentionPeriod maxCachedPerDir) hreach).sound
  have hstart : Guarded slot dirid start [] := by
    refine ⟨hsound, hrooted, hroot, hdir, .inl habsent, ?_, ?_, ?_, ?_⟩
    · simp
    · simp
    · simp
    · simp
  have hconcerns' : ∀ t ∈ turns, ∀ i, t = .start i → i.Concerns dirid name := by
    rintro t ht i rfl
    exact hconcerns i ht
  have hnone : Pool.Follows (creating root relativePath dirid name) (CreatePhase.init dirid name)
      (fun _ => Replied) (⟨start, []⟩ : Server T S W) := by
    intro t ht
    cases ht
  obtain ⟨hfollows, hguarded⟩ := Pool.run_phases (Guarded slot dirid)
    (fun (s : Server T S W) t => Server.Serial dirid name s t ∧
      ∀ i, t = .start i → i.Concerns dirid name)
    (fun i => follows_task i) (fun shared ps h p hp c r shared' _ hexec => h.relies hp hexec)
    (fun s t shared ps h hc hturned => Guarded.turned h hc.1 hc.2 hturned) ⟨hnone, hstart⟩
    (hserial.and_of_mem hconcerns') hrun
  exact Guarded.exclusive hguarded hfollows

end Guarded

/-! ## Two creates -/

section Sample

open Machine (flatHost sampleCreate)

theorem concerns_sampleCreate : sampleCreate.Concerns SymbolsCache.rootId ⟨⟨[0x66]⟩⟩ :=
  .inl ⟨_, _, rfl, rfl, rfl, rfl⟩

/-- The place of the file `f` in the root. -/
def sampleSlot : flatHost.Slot (PathBuf.join [sep] []) (slotPath [sep] [] ⟨⟨[0x66]⟩⟩) where
  absent files := [sep, 0x66] ∉ files
  file files := [sep, 0x66] ∈ files
  dir_exists _ _ := rfl
  path_exists files h := by
    change decide (_ ∨ [sep, 0x66] ∈ files) = true
    simp [h]
  absent_kept files c hc h := by
    cases c with
    | pathExists | symlinkMetadata | openWrite | writeAt | openReadWrite | setLen | setFileAtime
      | setFileMtime | setPermissions => exact h
    | _ => cases hc
  file_kept files c hc h := by
    cases c with
    | pathExists | symlinkMetadata | openWrite | writeAt | openReadWrite | setLen | setFileAtime
      | setFileMtime | setPermissions => exact h
    | _ => cases hc
  createFile_ok files fd _ _ := by
    change [sep, 0x66] ∈ ite ([sep, 0x66] ∈ files) files ([sep, 0x66] :: files)
    split_ifs with hmem
    · exact hmem
    · simp
  absent_error _ _ _ h := nomatch h
  file_error _ _ _ h := nomatch h

instance decidableSerial {T S W : Type} [DecidableEq S] (dirid : FileHandleU64) (name : Filename3)
    (s : Server T S W) : ∀ t, Decidable (s.Serial dirid name t)
  | .start _ => isTrue trivial
  | .step _ => inferInstanceAs (Decidable (_ = _ → _ ∉ _))
  | .tick _ => isTrue trivial

/-- Which of the requests are creates that succeeded. -/
def succeeded (s : Server ListTable ℕ (List PathBuf)) : List Bool :=
  s.tasks.map fun t =>
    match t.result with
    | some (.create (.ok _)) => true
    | _ => false

/-- Two creates of the same name are under way. -/
def twoCreates : List (Turn Incoming Instant) := [.start sampleCreate, .start sampleCreate]

/-- The server before them. -/
def sampleServer : Server ListTable ℕ (List PathBuf) := ⟨⟨.new [sep] 60 20, []⟩, []⟩

/-- One after the other: the first create succeeds, and the second one does not. -/
theorem guarded_create_in_turn : ∃ s, Transition.run (Server.turn flatHost [sep]) sampleServer
      (twoCreates ++ List.replicate 11 (.step 0) ++ List.replicate 5 (.step 1)) = some s ∧
    succeeded s = [true, false] ∧ s.Exclusive := by
  have houtcome : (Transition.run (Server.turn flatHost [sep]) sampleServer
      (twoCreates ++ List.replicate 11 (.step 0) ++ List.replicate 5 (.step 1))).map succeeded =
    some [true, false] := by decide +kernel
  obtain ⟨s, hrun, hsucceeded⟩ := Option.map_eq_some_iff.mp houtcome
  refine ⟨s, hrun, hsucceeded, ?_⟩
  have hdir : sampleServer.shared.fs.relativePath SymbolsCache.rootId = some [] := by rfl
  refine guarded_create_exclusive sampleSlot .refl hdir (List.not_mem_nil) ?_ ?_ hrun
  · intro i hi
    have heq : i = sampleCreate := by simpa [twoCreates] using hi
    rw [heq]
    exact concerns_sampleCreate
  · decide +kernel

theorem result_of_succeeded {s : Server ListTable ℕ (List PathBuf)} {i : ℕ}
    (h : (succeeded s)[i]? = some true) :
    ∃ t ok, s.tasks[i]? = some t ∧ t.result = some (.create (.ok ok)) := by
  simp only [succeeded, List.getElem?_map, Option.map_eq_some_iff] at h
  obtain ⟨t, ht, htrue⟩ := h
  split at htrue
  · rename_i ok hresult
    exact ⟨t, ok, ht, hresult⟩
  · cases htrue

/-- The path under which a request is about to make a file. -/
def aboutToCreate (s : Server ListTable ℕ (List PathBuf)) : List (Option PathBuf) :=
  s.tasks.map fun t =>
    match t.rest with
    | .ask (.host (.createFile path)) _ => some path
    | _ => none

theorem rest_of_aboutToCreate {s : Server ListTable ℕ (List PathBuf)} {i : ℕ} {path : PathBuf}
    (h : (aboutToCreate s)[i]? = some (some path)) :
    ∃ t next, s.tasks[i]? = some t ∧ t.rest = .ask (.host (.createFile path)) next := by
  simp only [aboutToCreate, List.getElem?_map, Option.map_eq_some_iff] at h
  obtain ⟨t, ht, hsome⟩ := h
  split at hsome
  · rename_i path' next hrest
    cases hsome
    exact ⟨t, next, ht, hrest⟩
  · cases hsome

/-- Both creates look the name up; then the first one runs to its reply, and the second one up to
where it makes the file. -/
def overlapping : List (Turn Incoming Instant) :=
  twoCreates ++ List.replicate 3 (.step 0) ++ List.replicate 3 (.step 1) ++
    List.replicate 8 (.step 0) ++ [.step 1]

/-- Both creates look the name up before either makes the file. When the first one has succeeded
and its client may write, the second one is about to empty the file, and then it succeeds too. -/
theorem guarded_create_twice :
    ∃ turns, (∀ i, .start i ∈ turns → i.Concerns SymbolsCache.rootId ⟨⟨[0x66]⟩⟩) ∧
      (∃ s, Transition.run (Server.turn flatHost [sep]) sampleServer turns = some s ∧
        succeeded s = [true, false] ∧ aboutToCreate s = [none, some [sep, 0x66]] ∧
        ¬s.Exclusive) ∧
      ∃ s, Transition.run (Server.turn flatHost [sep]) sampleServer
          (turns ++ List.replicate 7 (.step 1)) = some s ∧
        succeeded s = [true, true] ∧ ¬s.Exclusive := by
  refine ⟨overlapping, ?_, ?_, ?_⟩
  · intro i hi
    have heq : i = sampleCreate := by simpa [overlapping, twoCreates] using hi
    rw [heq]
    exact concerns_sampleCreate
  · have houtcome : (Transition.run (Server.turn flatHost [sep]) sampleServer overlapping).map
        (fun s => (succeeded s, aboutToCreate s)) =
        some ([true, false], [none, some [sep, 0x66]]) := by decide +kernel
    obtain ⟨s, hrun, heq⟩ := Option.map_eq_some_iff.mp houtcome
    obtain ⟨hsucceeded, habout⟩ := Prod.mk.inj heq
    refine ⟨s, hrun, hsucceeded, habout, fun hexclusive => ?_⟩
    obtain ⟨t, ok, ht, hok⟩ := result_of_succeeded (i := 0) (by rw [hsucceeded]; rfl)
    obtain ⟨t', next, ht', hrest⟩ := rest_of_aboutToCreate (i := 1) (by rw [habout]; rfl)
    exact hexclusive.kept t (List.mem_of_getElem? ht) ok hok t' (List.mem_of_getElem? ht') _ _
      hrest trivial
  · have houtcome : (Transition.run (Server.turn flatHost [sep]) sampleServer
        (overlapping ++ List.replicate 7 (.step 1))).map succeeded =
        some [true, true] := by decide +kernel
    obtain ⟨s, hrun, hsucceeded⟩ := Option.map_eq_some_iff.mp houtcome
    refine ⟨s, hrun, hsucceeded, fun hexclusive => ?_⟩
    obtain ⟨t, ok, ht, hok⟩ := result_of_succeeded (i := 0) (by rw [hsucceeded]; rfl)
    obtain ⟨t', ok', ht', hok'⟩ := result_of_succeeded (i := 1) (by rw [hsucceeded]; rfl)
    exact absurd (hexclusive.once 0 1 t t' ok ok' ht ht' hok hok') (by decide)

end Sample

end Nfs3.Mirror
