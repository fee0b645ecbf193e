import Nfs3.Server.HandlersSound
import Nfs3.Server.TcpTasks

/-!
# Requests keep to the protocol

What handlers do is what whole messages do, since nothing but a handler calls the file system.
-/
namespace Nfs3

open ByteOrder (Bytes)
open Interaction Prog

/-! ## The calls of a message -/

section Calls

variable {H I J α : Type}

/-- The calls to the file system. -/
def vfsIn (h : History (ServerCall H I J) ServerCall.Reply) :
    History (VfsCall H I J) VfsCall.Reply :=
  h.filterMap fun e =>
    match e with
    | ⟨.vfs c, r⟩ => some ⟨c, r⟩
    | _ => none

theorem vfsIn_append (t t' : History (ServerCall H I J) ServerCall.Reply) :
    vfsIn (t ++ t') = vfsIn t ++ vfsIn t' :=
  List.filterMap_append

theorem vfsIn_between (clientAddr : String) (xid : UInt32) (lock : Tracker.TransactionLock)
    (t : History (ServerCall H I J) ServerCall.Reply) :
    vfsIn (started clientAddr xid (.ok lock) :: t ++ [dropped lock]) = vfsIn t := by
  rw [vfsIn_append]
  exact List.append_nil _

/-- A call to the file system, found among all calls. -/
theorem vfsIn_split {t : History (ServerCall H I J) ServerCall.Reply} {c : VfsCall H I J}
    {r : c.Reply} {t₁ t₂ : History (VfsCall H I J) VfsCall.Reply}
    (h : vfsIn t = t₁ ++ ⟨c, r⟩ :: t₂) :
    ∃ u₁ u₂, t = u₁ ++ ⟨.vfs c, r⟩ :: u₂ ∧ vfsIn u₁ = t₁ := by
  obtain ⟨u₁, u, rfl, hu₁, hu⟩ := List.filterMap_eq_append_iff.mp h
  obtain ⟨v, e, u₂, rfl, hv, he, -⟩ := List.filterMap_eq_cons_iff.mp hu
  have hquiet : vfsIn v = [] := List.filterMap_eq_nil_iff.mpr hv
  obtain ⟨c', r'⟩ := e
  cases c' with
  | vfs c' =>
    cases he
    refine ⟨u₁ ++ v, u₂, by simp, ?_⟩
    rw [vfsIn_append, hquiet, List.append_nil]
    exact hu₁
  | _ => cases he

/-- The protocol of requests among all calls of the server. -/
def serverProtocol {H : Type} (I J : Type) (presented : H → Prop) :
    Protocol (ServerCall H I J) ServerCall.Reply (Footprint H I J) where
  allows
    | p, .vfs c => p.Allows presented c
    | _, _ => True
  relies _ _ _ := True
  next
    | p, .vfs c, r => p.next c r
    | p, .startTransaction .., _ => p
    | p, .dropLock _, _ => p
    | p, .mountSignal _, _ => p

variable {presented : H → Prop}

theorem after_serverProtocol (h : History (ServerCall H I J) ServerCall.Reply) :
    (serverProtocol I J presented).after .empty h = footprint (vfsIn h) := by
  have hafter (p : Footprint H I J) : (serverProtocol I J presented).after p h =
      (vfsIn h).foldl (fun p e => p.next e.1 e.2) p := by
    induction h generalizing p with
    | nil => rfl
    | cons e h ih =>
      obtain ⟨c, r⟩ := e
      cases c with
      | vfs c => exact ih _
      | startTransaction _ _ | dropLock _ | mountSignal _ => exact ih _
  exact hafter .empty

theorem liftVfs_follows {Q : Footprint H I J → α → Prop} {m : VfsM H I J α} {p : Footprint H I J}
    (h : m.Follows (requestProtocol I J presented) Q p) :
    (liftVfs m).Follows (serverProtocol I J presented) Q p := by
  induction m generalizing p with
  | ret a => exact h
  | halt => trivial
  | ask c next ih => exact ⟨h.1, fun r _ => ih r (h.2 r trivial)⟩

theorem signal_follows {Q : Footprint H I J → Unit → Prop} {context : RPCContext} {mounted : Bool}
    {p : Footprint H I J} (h : Q p ()) :
    (signal context mounted : ServerM H I J Unit).Follows (serverProtocol I J presented) Q p := by
  unfold signal
  split_ifs
  · exact ⟨trivial, fun _ _ => h⟩
  · exact h

end Calls

/-! ## Procedures -/

section Procedures

variable {H I J : Type} [FileHandle H]

/-- The handler of the procedure keeps to the signature. -/
def Signature.Serves {p : Procedure H I J} (sig : Signature p.Args p.Res) : Prop :=
  ∀ (context : RPCContext) (xid : UInt32) (a : p.Args), (p.handler context xid a).Follows
    (serverProtocol I J (context.fileHandleConverter.Presents (sig.presented a)))
    (fun foot r => sig.Sound context.fileHandleConverter a r foot) .empty

/-- A procedure without handles that has asked nothing. -/
theorem Signature.sound_plain {A R : Type} {converter : FileHandleConverter} {a : A} {r : R}
    {p : Footprint H I J} (hclosed : p.listing.Closed) (hchange : p.change = none) :
    (Signature.plain fun _ : R => []).Sound converter a r p where
  closed := hclosed
  granted fh h := by cases h
  reported e he := by cases he
  wcc e he := by cases he
  reading _ := hchange
  changing h := by cases h

theorem serves_of_handles {A R : Type} [XdrCodec A] [XdrSpec A] [LawfulXdr A] [RationedXdr A]
    [XdrCodec R] [XdrSpec R] [LawfulXdr R] {sig : Signature A R}
    {handler : RPCContext → UInt32 → A → VfsM H I J R}
    (h : ∀ context xid, sig.Handles context.fileHandleConverter (handler context xid)) :
    Signature.Serves (p := Procedure.ofVfs handler) sig :=
  fun context xid a => liftVfs_follows (h context xid a)

theorem nfsProcedure_serves {proc : NfsProgram} {p : Procedure H I J}
    (hp : nfsProcedure proc = some p) :
    ∃ sig : Signature p.Args p.Res, nfsSigned proc = some ⟨p, sig⟩ ∧ sig.Serves := by
  cases proc with
  | nfsproc3Null =>
    cases hp
    exact ⟨_, rfl, fun context xid a => Signature.sound_plain trivial rfl⟩
  | nfsproc3Getattr =>
    cases hp
    exact ⟨_, rfl, serves_of_handles (NfsHandlers.handles_getattr I J)⟩
  | nfsproc3Lookup =>
    cases hp
    exact ⟨_, rfl, serves_of_handles (NfsHandlers.handles_lookup I J)⟩
  | nfsproc3Read =>
    cases hp
    exact ⟨_, rfl, serves_of_handles (NfsHandlers.handles_read I J)⟩
  | nfsproc3Fsinfo =>
    cases hp
    exact ⟨_, rfl, serves_of_handles (NfsHandlers.handles_fsinfo I J)⟩
  | nfsproc3Access =>
    cases hp
    exact ⟨_, rfl, serves_of_handles (NfsHandlers.handles_access I J)⟩
  | nfsproc3Pathconf =>
    cases hp
    exact ⟨_, rfl, serves_of_handles (NfsHandlers.handles_pathconf I J)⟩
  | nfsproc3Fsstat =>
    cases hp
    exact ⟨_, rfl, serves_of_handles (NfsHandlers.handles_fsstat I J)⟩
  | nfsproc3Readlink =>
    cases hp
    exact ⟨_, rfl, serves_of_handles (NfsHandlers.handles_readlink I J)⟩
  | nfsproc3Readdir =>
    cases hp
    exact ⟨_, rfl, serves_of_handles (NfsHandlers.handles_readdir I J)⟩
  | nfsproc3Readdirplus =>
    cases hp
    exact ⟨_, rfl, serves_of_handles (NfsHandlers.handles_readdirplus I J)⟩
  | nfsproc3Write =>
    cases hp
    exact ⟨_, rfl, serves_of_handles (NfsHandlers.handles_write I J)⟩
  | nfsproc3Create =>
    cases hp
    exact ⟨_, rfl, serves_of_handles (NfsHandlers.handles_create I J)⟩
  | nfsproc3Setattr =>
    cases hp
    exact ⟨_, rfl, serves_of_handles (NfsHandlers.handles_setattr I J)⟩
  | nfsproc3Remove | nfsproc3Rmdir =>
    cases hp
    exact ⟨_, rfl, serves_of_handles (NfsHandlers.handles_remove I J)⟩
  | nfsproc3Rename =>
    cases hp
    exact ⟨_, rfl, serves_of_handles (NfsHandlers.handles_rename I J)⟩
  | nfsproc3Mkdir =>
    cases hp
    exact ⟨_, rfl, serves_of_handles (NfsHandlers.handles_mkdir I J)⟩
  | nfsproc3Symlink =>
    cases hp
    exact ⟨_, rfl, serves_of_handles (NfsHandlers.handles_symlink I J)⟩
  | nfsproc3Mknod | nfsproc3Link | nfsproc3Commit => cases hp

theorem sound_mnt {converter : FileHandleConverter} {a : Mount.Dirpath} {r : Mount.Mountres3}
    {p : Footprint H I J} (hclosed : p.listing.Closed) (hchange : p.change = none)
    (hgranted : ∀ v, r = .ok v →
      ∃ id ∈ p.found, (⟨v.fhandle.val⟩ : NfsFh3) = converter.fhToNfs id) :
    Signature.mnt.Sound converter a r p where
  closed := hclosed
  granted fh h := by
    cases r with
    | err stat => cases h
    | ok v =>
      rw [List.mem_singleton.mp h]
      exact hgranted v rfl
  reported e he := by cases he
  wcc e he := by cases he
  reading _ := hchange
  changing h := by cases h

theorem mountProcedure_serves {proc : Mount.MountProgram} {p : Procedure H I J}
    (hp : mountProcedure proc = some p) :
    ∃ sig : Signature p.Args p.Res, mountSigned proc = some ⟨p, sig⟩ ∧ sig.Serves := by
  cases proc with
  | mountproc3Null | mountproc3Export =>
    cases hp
    exact ⟨_, rfl, fun context xid a => Signature.sound_plain trivial rfl⟩
  | mountproc3Umntall =>
    cases hp
    refine ⟨_, rfl, fun context xid a => ?_⟩
    apply follows_bind.mpr
    exact signal_follows (Signature.sound_plain trivial rfl)
  | mountproc3Umnt =>
    cases hp
    refine ⟨_, rfl, fun context xid a => ?_⟩
    show (MountHandlers.mountproc3Umnt context xid a).Follows _ _ _
    unfold MountHandlers.mountproc3Umnt
    split
    · exact Signature.sound_plain trivial rfl
    · apply follows_bind.mpr
      exact signal_follows (Signature.sound_plain trivial rfl)
  | mountproc3Mnt =>
    cases hp
    refine ⟨_, rfl, fun context xid a => ?_⟩
    have herror (p : Footprint H I J) (stat : Mount.Mountstat3) (hclosed : p.listing.Closed)
        (hchange : p.change = none) :
        Signature.mnt.Sound context.fileHandleConverter a (Mount.Mountres3.err stat) p :=
      sound_mnt hclosed hchange fun v h => by cases h
    show (MountHandlers.mountproc3Mnt context xid a).Follows _ _ _
    unfold MountHandlers.mountproc3Mnt
    split
    · exact herror _ _ trivial rfl
    split
    · exact herror _ _ trivial rfl
    refine ⟨⟨fun id h => (by cases h), fun h => (by cases h), trivial⟩, fun r _ => ?_⟩
    cases r with
    | error stat => exact herror _ _ trivial rfl
    | ok fileid =>
      change ((signal context true).bind _).Follows _ _ _
      apply follows_bind.mpr
      apply signal_follows
      refine sound_mnt trivial rfl ?_
      intro v hv
      cases hv
      exact ⟨fileid, List.mem_append_right _ (List.mem_singleton_self _), rfl⟩
  | mountproc3Dump => cases hp

theorem portmapProcedure_serves {proc : Portmap.PmapProg} {p : Procedure H I J}
    (hp : portmapProcedure proc = some p) :
    ∃ sig : Signature p.Args p.Res, portmapSigned proc = some ⟨p, sig⟩ ∧ sig.Serves := by
  cases proc with
  | pmapprocNull | pmapprocGetport =>
    cases hp
    exact ⟨_, rfl, fun context xid a => Signature.sound_plain trivial rfl⟩
  | _ => cases hp

theorem names_serves {call : CallBody} {p : Procedure H I J} (hp : call.Names p) :
    ∃ sig : Signature p.Args p.Res, call.signed = some ⟨p, sig⟩ ∧ sig.Serves := by
  obtain ⟨program, hmem, hprog, -, hproc⟩ := hp
  simp only [programs, List.mem_cons, List.not_mem_nil, or_false] at hmem
  rcases hmem with rfl | rfl | rfl
  · obtain ⟨tag, htag, hp⟩ := Option.bind_eq_some_iff.mp hproc
    obtain ⟨sig, hsig, hserves⟩ := portmapProcedure_serves hp
    refine ⟨sig, ?_, hserves⟩
    have h : call.prog = 100000 := hprog
    rw [CallBody.signed, if_pos h, htag]
    exact hsig
  · obtain ⟨tag, htag, hp⟩ := Option.bind_eq_some_iff.mp hproc
    obtain ⟨sig, hsig, hserves⟩ := mountProcedure_serves hp
    refine ⟨sig, ?_, hserves⟩
    have h : call.prog = 100005 := hprog
    rw [CallBody.signed, h, if_neg (by decide), if_pos rfl, htag]
    exact hsig
  · obtain ⟨tag, htag, hp⟩ := Option.bind_eq_some_iff.mp hproc
    obtain ⟨sig, hsig, hserves⟩ := nfsProcedure_serves hp
    refine ⟨sig, ?_, hserves⟩
    have h : call.prog = 100003 := hprog
    rw [CallBody.signed, h, if_neg (by decide), if_neg (by decide), if_pos rfl, htag]
    exact hsig

end Procedures

/-! ## Messages -/

section Messages

variable {H I J : Type} [FileHandle H]

variable (I J) in
/-- The handle stands among the arguments of the message. -/
def PresentedIn (converter : FileHandleConverter) (message : Bytes) (id : H) : Prop :=
  ∃ (xid : UInt32) (call : CallBody) (rest : Bytes) (p : Procedure H I J)
    (sig : Signature p.Args p.Res) (a : p.Args), IsCall message xid call rest ∧
      call.signed = some ⟨p, sig⟩ ∧ DecodesTo p rest a ∧ converter.Presents (sig.presented a) id

theorem message_along (context : RPCContext) (message : Bytes) :
    (handleRpcMessage context message : ServerM H I J _).Along True (fun _ _ => True)
      (fun h c => ∀ c', c = .vfs c' → (footprint (vfsIn h)).Allows
        (PresentedIn I J context.fileHandleConverter message) c')
      (Answered context message fun _ _ _ _ _ _ => True) [] := by
  refine handleRpcMessage_along (affords_unlimited ..) (fun _ _ h => by cases h)
    (fun _ _ _ h => by cases h) ?_
  intro m p a auth lock hcall hrpcvers hauth hp ha
  obtain ⟨sig, hsig, hserves⟩ := names_serves hp
  have halong := (hserves { context with auth } m.xid a).along (q := .empty)
    (h := [started context.clientAddr m.xid (.ok lock)]) rfl fun _ _ _ => trivial
  refine halong.imp ?_ fun _ _ _ _ _ _ => trivial
  rintro t c hallows c' rfl
  have hallows : Footprint.Allows _ _ c' := hallows
  rw [after_serverProtocol] at hallows
  refine ⟨fun id hid => ?_, hallows.change, hallows.listing⟩
  rcases hallows.handles id hid with hid | hid
  · exact .inl ⟨m.xid, m.body, m.takeData, p, sig, a, hcall, hsig, ha, hid⟩
  · exact .inr hid

/-- What is to hold of a procedure with this signature, its arguments, its result and the calls to
the file system that it made. -/
abbrev ServedProp (H I J : Type) :=
  ∀ {A R : Type}, Signature A R → A → R → History (VfsCall H I J) VfsCall.Reply → Prop

/-- The procedure ran, and its result was packed behind the xid; `Q` holds of it. -/
def Served (message : Bytes) (Q : ServedProp H I J) (context : RPCContext) (xid : UInt32)
    (p : Procedure H I J) (a : p.Args) (t : History (ServerCall H I J) ServerCall.Reply)
    (result : Except RpcError HandleResult) : Prop :=
  ∃ (r : p.Res) (m : IncomingRpcMessage) (call : CallBody) (rest : Bytes)
    (sig : Signature p.Args p.Res), (p.handler context xid a).Yields t r ∧ m.xid = xid ∧
      result = m.intoSuccessReply r ∧ IsCall message xid call rest ∧
      call.signed = some ⟨p, sig⟩ ∧ Q sig a r (vfsIn t)

section Answers

variable {context : RPCContext} {message : Bytes}
  {t : History (ServerCall H I J) ServerCall.Reply} {result : Except RpcError HandleResult}

theorem Answered.imp {S S' : RPCContext → UInt32 → (p : Procedure H I J) → p.Args →
      History (ServerCall H I J) ServerCall.Reply → Except RpcError HandleResult → Prop}
    (h : Answered context message S t result)
    (hS : ∀ (xid : UInt32) (call : CallBody) (rest : Bytes) (auth : AuthUnix)
      (p : Procedure H I J) (a : p.Args) (u : History (ServerCall H I J) ServerCall.Reply),
      IsCall message xid call rest → call.Names p → vfsIn t = vfsIn u →
        S { context with auth } xid p a u result → S' { context with auth } xid p a u result) :
    Answered context message S' t result := by
  cases h with
  | undecodable h => exact .undecodable h
  | notACall h => exact .notACall h
  | rpcMismatch hcall h hreply => exact .rpcMismatch hcall h hreply
  | badAuth hcall hvers hflavor h => exact .badAuth hcall hvers hflavor h
  | duplicate hcall hvers hauth => exact .duplicate hcall hvers hauth
  | systemErr hcall hvers hauth hreply => exact .systemErr hcall hvers hauth hreply
  | refused hcall hvers hauth h hreply => exact .refused hcall hvers hauth h hreply
  | @served xid call rest lock auth p a u result hcall hvers hauth hp ha h =>
    have hcalls := vfsIn_between (H := H) (I := I) (J := J) context.clientAddr xid lock u
    exact .served hcall hvers hauth hp ha (hS xid call rest auth p a u hcall hp hcalls h)

theorem Answered.sound (h : Answered context message Tcp.Ran t result) :
    Answered context message (Served message fun sig a r calls =>
      calls = vfsIn t ∧ sig.Sound context.fileHandleConverter a r (footprint calls)) t result := by
  refine h.imp ?_
  rintro xid call rest auth p a u hcall hp hcalls ⟨r, m, hyields, hxid, hresult⟩
  obtain ⟨sig, hsig, hserves⟩ := names_serves hp
  have hsound := ((hserves { context with auth } xid a).along (q := .empty) (h := []) rfl
    fun _ _ _ => trivial).yields hyields fun _ _ => trivial
  rw [List.nil_append, after_serverProtocol] at hsound
  exact ⟨r, m, call, rest, sig, hyields, hxid, hresult, hcall, hsig, hcalls.symm, hsound⟩

theorem Answered.mono {Q Q' : ServedProp H I J}
    (h : Answered context message (Served message Q) t result)
    (hQ : ∀ {A R : Type} (sig : Signature A R) (a : A) (r : R) calls, Q sig a r calls →
      Q' sig a r calls) : Answered context message (Served message Q') t result := by
  refine h.imp ?_
  rintro xid call rest auth p a u - - -
    ⟨r, m, call, rest, sig, hyields, hxid, hresult, hcall, hsig, hq⟩
  exact ⟨r, m, call, rest, sig, hyields, hxid, hresult, hcall, hsig, hQ sig a r _ hq⟩

/-- Without a procedure there are no calls. -/
theorem Answered.calls {Q : ServedProp H I J}
    (h : Answered context message (Served message Q) t result) :
    vfsIn t = [] ∨ ∃ (p : Procedure H I J) (sig : Signature p.Args p.Res) (a : p.Args) (r : p.Res),
      Q sig a r (vfsIn t) := by
  cases h with
  | @served xid call rest lock auth p a u result hcall hvers hauth hp ha h =>
    obtain ⟨r, m, call, rest, sig, -, -, -, -, -, hq⟩ := h
    rw [vfsIn_between]
    exact .inr ⟨p, sig, a, r, hq⟩
  | _ => exact .inl rfl

end Answers

end Messages

end Nfs3
