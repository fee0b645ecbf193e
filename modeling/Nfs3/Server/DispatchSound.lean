import Nfs3.Server.Dispatch

/-!
# What becomes of a message

As long as there is memory for what a message announces, it meets one of the fates listed by
`Answered`, in the order of the checks, and the file system is called only while a procedure runs
on arguments that were decoded from it.
-/
namespace Nfs3

open ByteOrder (Bytes)
open ByteCodec
open Interaction Prog

/-! ## Messages on the wire -/

/-- The message decodes as a call with this header, and `rest` follows it. -/
def IsCall (message : Bytes) (xid : UInt32) (call : CallBody) (rest : Bytes) : Prop :=
  ∃ n, unpack (α := RpcMsg) message = .ok ((⟨xid, .call call⟩, n), rest)

/-- The message decodes as a reply with this header, and `payload` follows it. -/
def IsReply (message : Bytes) (xid : UInt32) (body : ReplyBody) (payload : Bytes) : Prop :=
  ∃ n, unpack (α := RpcMsg) message = .ok ((⟨xid, .reply body⟩, n), payload)

/-- An AUTH_UNIX credential carries a decodable body. -/
def Authentic (call : CallBody) : Prop :=
  call.cred.flavor = .authUnix →
    ∃ auth n s, unpack (α := AuthUnix) call.cred.body.data = .ok ((auth, n), s)

/-- Packing succeeds and appends the payload. -/
def Packs {α : Type} [XdrCodec α] (v : α) (payload : Bytes) : Prop :=
  ∀ out, pack v out = .ok (payload.length, out ++ payload)

theorem exists_packs {α : Type} [XdrCodec α] [XdrSpec α] [LawfulXdr α] {v : α}
    (h : XdrSpec.valid v = true) : ∃ payload, Packs v payload := by
  obtain ⟨bs, he⟩ := LawfulXdr.encodes v h
  exact ⟨bs, he.writes⟩

theorem packMessage_eq {R : Type} [XdrCodec R] {rpc : RpcMsg} {header : Bytes}
    (hrpc : XdrCodec.codec.Encodes 4 rpc header) {result : R} {payload : Bytes}
    (h : Packs result payload) : packMessage rpc result = .ok (header ++ payload) := by
  have hpack : pack rpc [] = .ok (header.length, header) := hrpc.writes []
  unfold packMessage
  rw [hpack]
  dsimp only
  rw [h header]

theorem packs_void : Packs (⟨⟩ : Void) [] := by
  intro out
  rw [List.append_nil]
  rfl

theorem reply_eq {R : Type} [XdrCodec R] {message : IncomingRpcMessage} {body : ReplyBody}
    (hbody : XdrSpec.valid body = true) {result : R} {payload : Bytes} (h : Packs result payload) :
    ∃ bytes, message.reply body result = .ok (.reply bytes) ∧
      IsReply bytes message.xid body payload := by
  have hrpc : XdrSpec.valid (⟨message.xid, .reply body⟩ : RpcMsg) = true := hbody
  obtain ⟨header, he⟩ := LawfulXdr.encodes _ hrpc
  refine ⟨header ++ payload, ?_, header.length, he.reads payload⟩
  rw [IncomingRpcMessage.reply, packMessage_eq he h]

theorem intoErrorReply_eq (message : IncomingRpcMessage) (err : AcceptStatData) :
    ∃ bytes, message.intoErrorReply err = .ok (.reply bytes) ∧
      IsReply bytes message.xid (.msgAccepted ⟨.default, err⟩) [] :=
  reply_eq rfl packs_void

theorem intoRpcMismatch_eq (message : IncomingRpcMessage) :
    ∃ bytes, message.intoRpcMismatch = .ok (.reply bytes) ∧
      IsReply bytes message.xid (.msgDenied (.rpcMismatch 2 2)) [] :=
  reply_eq rfl packs_void

theorem intoSuccessReply_eq {R : Type} [XdrCodec R] (message : IncomingRpcMessage) {result : R}
    {payload : Bytes} (h : Packs result payload) :
    ∃ bytes, message.intoSuccessReply result = .ok (.reply bytes) ∧
      IsReply bytes message.xid (.msgAccepted ⟨.default, .success⟩) payload :=
  reply_eq rfl h

/-! ## Fates -/

section Fates

variable {H I J : Type}

/-- The answer of the tracker. -/
def started (clientAddr : String) (xid : UInt32)
    (r : Except Tracker.TransactionError Tracker.TransactionLock) :
    Σ c : ServerCall H I J, c.Reply :=
  ⟨.startTransaction clientAddr xid, r⟩

def dropped (lock : Tracker.TransactionLock) : Σ c : ServerCall H I J, c.Reply :=
  ⟨.dropLock lock, ()⟩

/-- The arguments are all of the rest of the message. -/
def DecodesTo (p : Procedure H I J) (rest : Bytes) (a : p.Args) : Prop :=
  ∃ n, unpack rest = .ok ((a, n), [])

variable [FileHandle H]

def programs : List (Program H I J) := [portmapProgram, mountProgram, nfsProgram]

/-- The call names the procedure by its program, version and number. -/
def CallBody.Names (call : CallBody) (p : Procedure H I J) : Prop :=
  ∃ program ∈ programs, call.prog = program.prog ∧ call.vers = program.vers ∧
    program.procedure call.proc = some p

/-- The numbers of the programs differ. -/
theorem CallBody.Names.unique {call : CallBody} {p p' : Procedure H I J} (h : call.Names p)
    (h' : call.Names p') : p = p' := by
  obtain ⟨program, hmem, hprog, -, hproc⟩ := h
  obtain ⟨program', hmem', hprog', -, hproc'⟩ := h'
  have hnodup : ((programs : List (Program H I J)).map Program.prog).Nodup := by
    show ([100000, 100005, 100003] : List UInt32).Nodup
    decide
  obtain rfl := List.inj_on_of_nodup_map hnodup hmem hmem' (hprog.symm.trans hprog')
  rw [hproc] at hproc'
  exact Option.some.inj hproc'

variable (H I J) in
/-- Why an admitted call is refused. -/
inductive Refused (call : CallBody) (rest : Bytes) : AcceptStatData → Prop
  | progUnavail (h : ∀ program ∈ (programs : List (Program H I J)), call.prog ≠ program.prog) :
      Refused call rest .progUnavail
  | progMismatch {program : Program H I J} (hmem : program ∈ programs)
      (hprog : call.prog = program.prog) (h : call.vers ≠ program.vers) :
      Refused call rest (.progMismatch program.vers program.vers)
  | procUnavail {program : Program H I J} (hmem : program ∈ programs)
      (hprog : call.prog = program.prog) (hvers : call.vers = program.vers)
      (h : program.procedure call.proc = none) : Refused call rest .procUnavail
  | garbageArgs {p : Procedure H I J} (hp : call.Names p) (h : ∀ a, ¬ DecodesTo p rest a) :
      Refused call rest .garbageArgs

/-- The first check that fails decides; `S` says what a procedure that runs does. -/
inductive Answered (context : RPCContext) (message : Bytes)
    (S : RPCContext → UInt32 → (p : Procedure H I J) → p.Args →
      History (ServerCall H I J) ServerCall.Reply → Except RpcError HandleResult → Prop) :
    History (ServerCall H I J) ServerCall.Reply → Except RpcError HandleResult → Prop
  | undecodable {err : Error} (h : unpack (α := RpcMsg) message = .error err) :
      Answered context message S [] (.error (.unpackMessage err))
  | notACall {xid : UInt32} {body : ReplyBody} {rest : Bytes} (h : IsReply message xid body rest) :
      Answered context message S [] (.error (.expectedCall xid))
  | rpcMismatch {xid : UInt32} {call : CallBody} {rest bytes : Bytes}
      (hcall : IsCall message xid call rest) (h : call.rpcvers ≠ 2)
      (hreply : IsReply bytes xid (.msgDenied (.rpcMismatch 2 2)) []) :
      Answered context message S [] (.ok (.reply bytes))
  | badAuth {xid : UInt32} {call : CallBody} {rest : Bytes} {err : Error}
      (hcall : IsCall message xid call rest) (hvers : call.rpcvers = 2)
      (hflavor : call.cred.flavor = .authUnix)
      (h : unpack (α := AuthUnix) call.cred.body.data = .error err) :
      Answered context message S [] (.error (.codec err))
  | duplicate {xid : UInt32} {call : CallBody} {rest : Bytes}
      (hcall : IsCall message xid call rest) (hvers : call.rpcvers = 2) (hauth : Authentic call) :
      Answered context message S [started context.clientAddr xid (.error .alreadyExists)]
        (.ok .noReply)
  | systemErr {xid : UInt32} {call : CallBody} {rest bytes : Bytes}
      (hcall : IsCall message xid call rest) (hvers : call.rpcvers = 2) (hauth : Authentic call)
      (hreply : IsReply bytes xid (.msgAccepted ⟨.default, .systemErr⟩) []) :
      Answered context message S [started context.clientAddr xid (.error .tooManyRequests)]
        (.ok (.reply bytes))
  | refused {xid : UInt32} {call : CallBody} {rest bytes : Bytes} {lock : Tracker.TransactionLock}
      {err : AcceptStatData} (hcall : IsCall message xid call rest) (hvers : call.rpcvers = 2)
      (hauth : Authentic call) (h : Refused H I J call rest err)
      (hreply : IsReply bytes xid (.msgAccepted ⟨.default, err⟩) []) :
      Answered context message S [started context.clientAddr xid (.ok lock), dropped lock]
        (.ok (.reply bytes))
  | served {xid : UInt32} {call : CallBody} {rest : Bytes} {lock : Tracker.TransactionLock}
      {auth : AuthUnix} {p : Procedure H I J} {a : p.Args}
      {t : History (ServerCall H I J) ServerCall.Reply} {result : Except RpcError HandleResult}
      (hcall : IsCall message xid call rest) (hvers : call.rpcvers = 2) (hauth : Authentic call)
      (hp : call.Names p) (ha : DecodesTo p rest a) (h : S { context with auth } xid p a t result) :
      Answered context message S (started context.clientAddr xid (.ok lock) :: t ++ [dropped lock])
        result

/-- The allocator grants every length announced in a part of the message that is decoded: the
header, the AUTH_UNIX credential behind it and, once the tracker has admitted the call, the
arguments of the procedure. -/
structure Affords (memory : Allocator) (A : (c : ServerCall H I J) → c.Reply → Prop)
    (context : RPCContext) (message : Bytes) : Prop where
  header : ∀ size ∈ requests RpcMsg message, memory.grants size = true
  cred : ∀ xid call rest, IsCall message xid call rest → call.rpcvers = 2 →
    call.cred.flavor = .authUnix →
      ∀ size ∈ requests AuthUnix call.cred.body.data, memory.grants size = true
  args : ∀ xid call rest lock (p : Procedure H I J), IsCall message xid call rest →
    call.rpcvers = 2 → Authentic call → A (.startTransaction context.clientAddr xid) (.ok lock) →
      call.Names p → ∀ size ∈ requests p.Args rest, memory.grants size = true

theorem affords_unlimited (A : (c : ServerCall H I J) → c.Reply → Prop) (context : RPCContext)
    (message : Bytes) : Affords .unlimited A context message where
  header _ _ := rfl
  cred _ _ _ _ _ _ _ _ := rfl
  args _ _ _ _ _ _ _ _ _ _ _ _ := rfl

end Fates

/-! ## The checks, one by one -/

theorem IsCall.unique {message : Bytes} {xid xid' : UInt32} {call call' : CallBody}
    {rest rest' : Bytes} (h : IsCall message xid call rest)
    (h' : IsCall message xid' call' rest') : xid = xid' ∧ call = call' ∧ rest = rest' := by
  obtain ⟨n, hu⟩ := h
  obtain ⟨n', hu'⟩ := h'
  rw [hu] at hu'
  cases hu'
  exact ⟨rfl, rfl, rfl⟩

theorem tryFrom_cases {memory : Allocator} {message : Bytes}
    (hmemory : ∀ size ∈ requests RpcMsg message, memory.grants size = true) :
    (∃ err, unpack (α := RpcMsg) message = .error err ∧
      IncomingRpcMessage.tryFrom message memory = .error (.unpackMessage err)) ∨
    (∃ xid body rest, IsReply message xid body rest ∧
      IncomingRpcMessage.tryFrom message memory = .error (.expectedCall xid)) ∨
    ∃ m, IsCall message m.xid m.body m.takeData ∧
      IncomingRpcMessage.tryFrom message memory = .ok m := by
  unfold IncomingRpcMessage.tryFrom
  rw [unpackIn_of_granted hmemory]
  rcases hu : unpack (α := RpcMsg) message with err | ⟨⟨⟨xid, body⟩, n⟩, rest⟩
  · exact .inl ⟨err, rfl, rfl⟩
  · cases body with
    | reply body => exact .inr (.inl ⟨xid, body, rest, ⟨n, hu⟩, rfl⟩)
    | call call =>
      refine .inr (.inr ⟨⟨xid, call, message, n⟩, ⟨n, ?_⟩, rfl⟩)
      obtain ⟨p, hmessage, hlen, -⟩ := LawfulXdr.consumes message _ n rest hu
      have hrest : message.drop n = rest := by
        rw [hmessage, ← hlen, List.drop_left]
      show _ = Except.ok ((_, n), message.drop n)
      rw [hrest]
      exact hu

theorem tryFrom_of_isCall {memory : Allocator} {message : Bytes} {xid : UInt32} {call : CallBody}
    {rest : Bytes} (hmemory : ∀ size ∈ requests RpcMsg message, memory.grants size = true)
    (hcall : IsCall message xid call rest) :
    ∃ m, IncomingRpcMessage.tryFrom message memory = .ok m ∧ m.xid = xid ∧ m.body = call ∧
      m.takeData = rest := by
  obtain ⟨n, hu⟩ := hcall
  rcases tryFrom_cases hmemory with
    ⟨err, hu', -⟩ | ⟨xid', body, rest', ⟨n', hu'⟩, -⟩ | ⟨m, hcall', htry⟩
  · rw [hu] at hu'
    cases hu'
  · rw [hu] at hu'
    cases hu'
  · obtain ⟨hxid, hbody, hrest⟩ := hcall'.unique ⟨n, hu⟩
    exact ⟨m, htry, hxid, hbody, hrest⟩

theorem authenticate_cases {memory : Allocator} (context : RPCContext) {call : CallBody}
    (hmemory : call.cred.flavor = .authUnix →
      ∀ size ∈ requests AuthUnix call.cred.body.data, memory.grants size = true) :
    (∃ err, call.cred.flavor = .authUnix ∧
      unpack (α := AuthUnix) call.cred.body.data = .error err ∧
      authenticate context call.cred memory = .error (.codec err)) ∨
    ∃ auth, Authentic call ∧
      authenticate context call.cred memory = .ok { context with auth } := by
  unfold authenticate
  by_cases hflavor : call.cred.flavor = .authUnix
  · rw [if_pos hflavor, unpackIn_of_granted (hmemory hflavor)]
    rcases hu : unpack (α := AuthUnix) call.cred.body.data with err | ⟨⟨auth, n⟩, rest⟩
    · exact .inl ⟨err, hflavor, rfl, rfl⟩
    · exact .inr ⟨auth, fun _ => ⟨auth, n, rest, hu⟩, rfl⟩
  · exact .inr ⟨context.auth, fun h => absurd h hflavor, by rw [if_neg hflavor]⟩

section Dispatch

variable {H I J : Type} {N : Prop} {A : (c : ServerCall H I J) → c.Reply → Prop}
  {P : History (ServerCall H I J) ServerCall.Reply → ServerCall H I J → Prop}
  {Q : History (ServerCall H I J) ServerCall.Reply → Except RpcError HandleResult → Prop}
  {h : History (ServerCall H I J) ServerCall.Reply} {memory : Allocator}

theorem handle_along {context : RPCContext} {m : IncomingRpcMessage} {p : Procedure H I J}
    (hmemory : ∀ size ∈ requests p.Args m.takeData, memory.grants size = true)
    (hgarbage : ∀ bytes, (∀ a, ¬ DecodesTo p m.takeData a) →
      IsReply bytes m.xid (.msgAccepted ⟨.default, .garbageArgs⟩) [] → Q h (.ok (.reply bytes)))
    (hrun : ∀ a, DecodesTo p m.takeData a → (p.handler context m.xid a).Along N A P
      (fun h r => Q h (m.intoSuccessReply r)) h) :
    (handle context m p memory).Along N A P Q h := by
  obtain ⟨bytes, hbytes, hreply⟩ := intoErrorReply_eq m .garbageArgs
  unfold handle
  rw [unpackIn_of_granted hmemory]
  rcases hu : unpack (α := p.Args) m.takeData with err | ⟨⟨args, n⟩, rest⟩
  · dsimp only
    rw [if_neg (ne_outOfMemory hu), hbytes]
    refine hgarbage bytes (fun a ⟨n, ha⟩ => ?_) hreply
    rw [hu] at ha
    cases ha
  · dsimp only
    by_cases hrest : rest = []
    · rw [if_neg (not_not.mpr hrest)]
      refine along_bind.mpr (hrun args ⟨n, ?_⟩)
      rw [hu, hrest]
    · rw [if_pos hrest, hbytes]
      refine hgarbage bytes (fun a ⟨n, ha⟩ => ?_) hreply
      rw [hu] at ha
      cases ha
      exact hrest rfl

variable [FileHandle H]

theorem program_along {context : RPCContext} {m : IncomingRpcMessage} {program : Program H I J}
    (hmem : program ∈ programs) (hprog : m.body.prog = program.prog)
    (hmemory : ∀ p : Procedure H I J, m.body.Names p →
      ∀ size ∈ requests p.Args m.takeData, memory.grants size = true)
    (hrefused : ∀ err bytes, Refused H I J m.body m.takeData err →
      IsReply bytes m.xid (.msgAccepted ⟨.default, err⟩) [] → Q h (.ok (.reply bytes)))
    (hrun : ∀ (p : Procedure H I J) a, m.body.Names p → DecodesTo p m.takeData a →
      (p.handler context m.xid a).Along N A P (fun h r => Q h (m.intoSuccessReply r)) h) :
    (program.handle context m memory).Along N A P Q h := by
  unfold Program.handle
  split_ifs with hvers
  · obtain ⟨bytes, hbytes, hreply⟩ :=
      intoErrorReply_eq m (.progMismatch program.vers program.vers)
    rw [hbytes]
    exact hrefused _ bytes (.progMismatch hmem hprog hvers) hreply
  · rw [ne_eq, not_not] at hvers
    rcases hproc : program.procedure m.body.proc with _ | p
    · obtain ⟨bytes, hbytes, hreply⟩ := intoErrorReply_eq m .procUnavail
      dsimp only
      rw [hbytes]
      exact hrefused _ bytes (.procUnavail hmem hprog hvers hproc) hreply
    · have hnames : m.body.Names p := ⟨program, hmem, hprog, hvers, hproc⟩
      exact handle_along (hmemory p hnames)
        (fun bytes hargs => hrefused _ bytes (.garbageArgs hnames hargs))
        fun a => hrun p a hnames

theorem dispatch_along {context : RPCContext} {m : IncomingRpcMessage}
    (hmemory : ∀ p : Procedure H I J, m.body.Names p →
      ∀ size ∈ requests p.Args m.takeData, memory.grants size = true)
    (hrefused : ∀ err bytes, Refused H I J m.body m.takeData err →
      IsReply bytes m.xid (.msgAccepted ⟨.default, err⟩) [] → Q h (.ok (.reply bytes)))
    (hrun : ∀ (p : Procedure H I J) a, m.body.Names p → DecodesTo p m.takeData a →
      (p.handler context m.xid a).Along N A P (fun h r => Q h (m.intoSuccessReply r)) h) :
    (dispatch context m memory).Along N A P Q h := by
  unfold dispatch
  split_ifs with hportmap hmount hnfs
  · exact program_along (by simp [programs]) hportmap hmemory hrefused hrun
  · exact program_along (by simp [programs]) hmount hmemory hrefused hrun
  · exact program_along (by simp [programs]) hnfs hmemory hrefused hrun
  · obtain ⟨bytes, hbytes, hreply⟩ := intoErrorReply_eq m .progUnavail
    rw [hbytes]
    exact hrefused _ bytes (.progUnavail (by simp [programs, hportmap, hmount, hnfs])) hreply

theorem dispatch_eq {program : Program H I J} (hmem : program ∈ programs) {m : IncomingRpcMessage}
    (hprog : m.body.prog = program.prog) (context : RPCContext) (memory : Allocator) :
    dispatch context m memory = program.handle context m memory := by
  simp only [programs, List.mem_cons, List.not_mem_nil, or_false] at hmem
  unfold dispatch
  rcases hmem with rfl | rfl | rfl
  · rw [if_pos hprog]
  · have hportmap : (mountProgram : Program H I J).prog ≠
        (portmapProgram : Program H I J).prog := by
      show (100005 : UInt32) ≠ 100000
      decide
    rw [hprog, if_neg hportmap, if_pos rfl]
  · have hportmap : (nfsProgram : Program H I J).prog ≠ (portmapProgram : Program H I J).prog := by
      show (100003 : UInt32) ≠ 100000
      decide
    have hmount : (nfsProgram : Program H I J).prog ≠ (mountProgram : Program H I J).prog := by
      show (100003 : UInt32) ≠ 100005
      decide
    rw [hprog, if_neg hportmap, if_neg hmount, if_pos rfl]

theorem dispatch_of_names {m : IncomingRpcMessage} {p : Procedure H I J} (hp : m.body.Names p)
    (context : RPCContext) (memory : Allocator) :
    dispatch context m memory = handle context m p memory := by
  obtain ⟨program, hmem, hprog, hvers, hproc⟩ := hp
  rw [dispatch_eq hmem hprog, Program.handle, if_neg (not_not.mpr hvers), hproc]

/-- The cascade as a whole: what is left to show is what a procedure does when it runs. -/
theorem handleRpcMessage_along {context : RPCContext} {message : Bytes}
    {S : RPCContext → UInt32 → (p : Procedure H I J) → p.Args →
      History (ServerCall H I J) ServerCall.Reply → Except RpcError HandleResult → Prop}
    (hmemory : Affords memory A context message)
    (hstart : ∀ xid, P [] (.startTransaction context.clientAddr xid))
    (hdrop : ∀ h lock, P h (.dropLock lock))
    (hrun : ∀ (m : IncomingRpcMessage) (p : Procedure H I J) a auth lock,
      IsCall message m.xid m.body m.takeData →
      m.body.rpcvers = 2 → Authentic m.body → m.body.Names p → DecodesTo p m.takeData a →
      (p.handler { context with auth } m.xid a).Along N A P
        (fun h r => ∀ t, h = started context.clientAddr m.xid (.ok lock) :: t →
          S { context with auth } m.xid p a t (m.intoSuccessReply r))
        [started context.clientAddr m.xid (.ok lock)]) :
    (handleRpcMessage context message memory).Along N A P (Answered context message S) [] := by
  unfold handleRpcMessage
  rcases tryFrom_cases hmemory.header with
    ⟨err, hu, htry⟩ | ⟨xid, body, rest, hreply, htry⟩ | ⟨m, hcall, htry⟩
  · rw [htry]
    dsimp only
    rw [if_neg (by simpa using ne_outOfMemory hu)]
    exact .undecodable hu
  · rw [htry]
    exact .notACall hreply
  rw [htry]
  dsimp only
  split_ifs with hvers
  · obtain ⟨bytes, hbytes, hreply⟩ := intoRpcMismatch_eq m
    rw [hbytes]
    exact .rpcMismatch hcall hvers hreply
  rw [ne_eq, not_not] at hvers
  rcases authenticate_cases context (hmemory.cred _ _ _ hcall hvers) with
    ⟨err, hflavor, hu, hauth⟩ | ⟨auth, hauthentic, hauth⟩
  · rw [hauth]
    dsimp only
    rw [if_neg (by simpa using ne_outOfMemory hu)]
    exact .badAuth hcall hvers hflavor hu
  rw [hauth]
  refine ⟨hstart m.xid, fun r hr => ?_⟩
  match r with
  | .error .alreadyExists => exact .duplicate hcall hvers hauthentic
  | .error .tooManyRequests =>
    obtain ⟨bytes, hbytes, hreply⟩ := intoErrorReply_eq m .systemErr
    show Answered context message S _ (m.intoErrorReply .systemErr)
    rw [hbytes]
    exact .systemErr hcall hvers hauthentic hreply
  | .ok lock =>
    have hdispatch : (dispatch { context with auth } m memory).Along N A P
        (fun h result => Answered context message S (h ++ [dropped lock]) result)
        [started context.clientAddr m.xid (.ok lock)] := by
      refine dispatch_along (fun p => hmemory.args _ _ _ lock p hcall hvers hauthentic hr)
        (fun err bytes hrefused hreply => ?_) fun p a hp ha => ?_
      · exact .refused hcall hvers hauthentic hrefused hreply
      · refine (hrun m p a auth lock hcall hvers hauthentic hp ha).imp (fun _ _ hP => hP) ?_
        intro t r _ hS
        exact .served hcall hvers hauthentic hp ha (hS t rfl)
    have hwhole : ((dispatch { context with auth } m memory).bind fun result =>
        (dropLock lock).bind fun _ => .ret result).Along N A P (Answered context message S)
        [started context.clientAddr m.xid (.ok lock)] := by
      refine along_bind.mpr (hdispatch.imp (fun _ _ hP => hP) fun t result _ hanswered => ?_)
      exact ⟨hdrop _ lock, fun _ _ => hanswered⟩
    exact hwhole

end Dispatch

/-! ## What procedures ask for -/

section Questions

variable {H I J α : Type}

def ServerCall.isVfs : ServerCall H I J → Bool
  | .vfs _ => true
  | _ => false

def ServerCall.isTracker : ServerCall H I J → Bool
  | .startTransaction .. | .dropLock _ => true
  | _ => false

theorem liftVfs_meets {P : ServerCall H I J → Prop} (hP : ∀ c, P (.vfs c)) (m : VfsM H I J α) :
    (liftVfs m).Meets P fun _ => True := by
  induction m with
  | ret a => trivial
  | halt => trivial
  | ask c next ih => exact ⟨hP c, ih⟩

theorem signal_meets {P : ServerCall H I J → Prop} (hP : ∀ b, P (.mountSignal b))
    (context : RPCContext) (mounted : Bool) : (signal context mounted).Meets P fun _ => True := by
  unfold signal
  split_ifs
  · exact ⟨hP mounted, fun _ => trivial⟩
  · trivial

variable [FileHandle H]

theorem nfsProcedure_meets {P : ServerCall H I J → Prop} (hP : ∀ c, P (.vfs c)) {proc : NfsProgram}
    {p : Procedure H I J} (hp : nfsProcedure proc = some p) (context : RPCContext) (xid : UInt32)
    (a : p.Args) : (p.handler context xid a).Meets P fun _ => True := by
  cases proc <;> cases hp <;> exact liftVfs_meets hP _

theorem mountProcedure_meets {P : ServerCall H I J → Prop} (hP : ∀ c, P (.vfs c))
    (hsignal : ∀ b, P (.mountSignal b)) {proc : Mount.MountProgram} {p : Procedure H I J}
    (hp : mountProcedure proc = some p) (context : RPCContext) (xid : UInt32) (a : p.Args) :
    (p.handler context xid a).Meets P fun _ => True := by
  cases proc with
  | mountproc3Null =>
    cases hp
    trivial
  | mountproc3Dump => cases hp
  | mountproc3Export =>
    cases hp
    trivial
  | mountproc3Umntall =>
    cases hp
    exact meets_bind.mpr ((signal_meets hsignal context false).mono fun _ _ => trivial)
  | mountproc3Umnt =>
    cases hp
    show (MountHandlers.mountproc3Umnt context xid a).Meets P _
    unfold MountHandlers.mountproc3Umnt
    split
    · trivial
    · exact meets_bind.mpr ((signal_meets hsignal context false).mono fun _ _ => trivial)
  | mountproc3Mnt =>
    cases hp
    show (MountHandlers.mountproc3Mnt context xid a).Meets P _
    unfold MountHandlers.mountproc3Mnt
    split
    · trivial
    split
    · trivial
    refine meets_bind.mpr ((liftVfs_meets hP _).mono fun r _ => ?_)
    cases r with
    | error stat => trivial
    | ok fileid =>
      exact meets_bind.mpr ((signal_meets hsignal context true).mono fun _ _ => trivial)

/-- The port mapper does not touch the file system, and no procedure the tracker. -/
theorem procedure_meets {program : Program H I J} (hmem : program ∈ programs) {proc : UInt32}
    {p : Procedure H I J} (hp : program.procedure proc = some p) (context : RPCContext)
    (xid : UInt32) (a : p.Args) :
    (p.handler context xid a).Meets (fun c => c.isTracker = false ∧
      (c.isVfs = true → program = mountProgram ∨ program = nfsProgram)) fun _ => True := by
  simp only [programs, List.mem_cons, List.not_mem_nil, or_false] at hmem
  rcases hmem with rfl | rfl | rfl
  · obtain ⟨tag, -, htag⟩ := Option.bind_eq_some_iff.mp hp
    cases tag <;> cases htag <;> trivial
  · obtain ⟨tag, -, htag⟩ := Option.bind_eq_some_iff.mp hp
    exact mountProcedure_meets (fun _ => ⟨rfl, fun _ => .inl rfl⟩)
      (fun _ => ⟨rfl, fun h => by cases h⟩) htag context xid a
  · obtain ⟨tag, -, htag⟩ := Option.bind_eq_some_iff.mp hp
    exact nfsProcedure_meets (fun _ => ⟨rfl, fun _ => .inr rfl⟩) htag context xid a

end Questions

/-! ## Soundness -/

section Soundness

variable {H I J : Type} [FileHandle H]

/-- What has happened before the file system is called: the message passed every check, and its
transaction was admitted and is still locked. -/
inductive Cleared (context : RPCContext) (message : Bytes) :
    History (ServerCall H I J) ServerCall.Reply → Prop
  | mk {xid : UInt32} {call : CallBody} {rest : Bytes} {p : Procedure H I J} {a : p.Args}
      {lock : Tracker.TransactionLock} {t : History (ServerCall H I J) ServerCall.Reply}
      (hcall : IsCall message xid call rest) (hrpcvers : call.rpcvers = 2)
      (hauth : Authentic call)
      (hprog : call.prog = (mountProgram : Program H I J).prog ∨
        call.prog = (nfsProgram : Program H I J).prog)
      (hvers : call.vers = 3) (hp : call.Names p) (ha : DecodesTo p rest a)
      (hheld : dropped lock ∉ t) :
      Cleared context message (started context.clientAddr xid (.ok lock) :: t)

/-- The procedure ran on the arguments, and its result is the payload of a reply. -/
def Succeeds (context : RPCContext) (xid : UInt32) (p : Procedure H I J) (a : p.Args)
    (t : History (ServerCall H I J) ServerCall.Reply) (result : Except RpcError HandleResult) :
    Prop :=
  ∃ r payload bytes, (p.handler context xid a).Yields t r ∧ Packs r payload ∧
    IsReply bytes xid (.msgAccepted ⟨.default, .success⟩) payload ∧ result = .ok (.reply bytes)

/-- With answers that `A` admits, every procedure returns a result that can be packed. -/
def SmallResults (A : (c : ServerCall H I J) → c.Reply → Prop) (context : RPCContext) : Prop :=
  ∀ program ∈ (programs : List (Program H I J)), ∀ proc p, program.procedure proc = some p →
    ∀ auth xid a h, (p.handler { context with auth } xid a).Along False A (fun _ _ => True)
      (fun _ r => ∃ payload, Packs r payload) h

section Memory

variable {A : (c : ServerCall H I J) → c.Reply → Prop} {context : RPCContext} {message : Bytes}
  {memory : Allocator}

/-- Where a length is refused, the server does not live to see the next check. -/
theorem affords_of_along {P : History (ServerCall H I J) ServerCall.Reply → ServerCall H I J → Prop}
    {Q : History (ServerCall H I J) ServerCall.Reply → Except RpcError HandleResult → Prop}
    (h : (handleRpcMessage context message memory).Along False A P Q []) :
    Affords memory A context message := by
  unfold handleRpcMessage at h
  have hheader : ∀ size ∈ requests RpcMsg message, memory.grants size = true := by
    intro size hsize
    by_contra hrefused
    rw [IncomingRpcMessage.tryFrom,
      unpackIn_of_refused hsize (Bool.eq_false_of_not_eq_true hrefused)] at h
    exact h
  have hcred : ∀ xid call rest, IsCall message xid call rest → call.rpcvers = 2 →
      call.cred.flavor = .authUnix →
        ∀ size ∈ requests AuthUnix call.cred.body.data, memory.grants size = true := by
    intro xid call rest hcall hvers hflavor size hsize
    obtain ⟨m, htry, rfl, rfl, rfl⟩ := tryFrom_of_isCall hheader hcall
    by_contra hrefused
    have hvers : ¬m.body.rpcvers ≠ rpcVersion2 := not_not.mpr hvers
    rw [htry] at h
    dsimp only at h
    rw [if_neg hvers, authenticate, if_pos hflavor,
      unpackIn_of_refused hsize (Bool.eq_false_of_not_eq_true hrefused)] at h
    exact h
  refine ⟨hheader, hcred, ?_⟩
  intro xid call rest lock p hcall hvers hauthentic hlock hp size hsize
  obtain ⟨m, htry, rfl, rfl, rfl⟩ := tryFrom_of_isCall hheader hcall
  have hversion : ¬m.body.rpcvers ≠ rpcVersion2 := not_not.mpr hvers
  rw [htry] at h
  dsimp only at h
  rw [if_neg hversion] at h
  rcases authenticate_cases context (hcred _ _ _ hcall hvers) with
    ⟨err, hflavor, hu, -⟩ | ⟨auth, -, hauth⟩
  · obtain ⟨auth, n, s, hu'⟩ := hauthentic hflavor
    rw [hu] at hu'
    cases hu'
  rw [hauth] at h
  have hlocked : ((dispatch { context with auth } m memory).bind fun result =>
      (dropLock lock).bind fun _ => .ret result).Along False A P Q
      [started context.clientAddr m.xid (.ok lock)] := h.2 (.ok lock) hlock
  by_contra hrefused
  rw [along_bind, dispatch_of_names hp, handle,
    unpackIn_of_refused hsize (Bool.eq_false_of_not_eq_true hrefused)] at hlocked
  exact hlocked

theorem dispatch_sound (hsmall : SmallResults A context)
    (hmemory : Affords memory A context message) :
    (handleRpcMessage context message memory).Along False A
      (fun h c => c.isVfs = true → Cleared context message h)
      (Answered context message Succeeds) [] := by
  refine handleRpcMessage_along hmemory (fun _ h => by cases h) (fun _ _ h => by cases h) ?_
  intro m p a auth lock hcall hrpcvers hauth hp ha
  obtain ⟨program, hmem, hprog, hvers, hproc⟩ := hp
  have hp : m.body.Names p := ⟨program, hmem, hprog, hvers, hproc⟩
  have hhandler := (hsmall program hmem _ p hproc auth m.xid a
    [started context.clientAddr m.xid (.ok lock)]).asking
      (procedure_meets hmem hproc { context with auth } m.xid a)
      (t := []) (List.append_nil _).symm (by simp)
  refine hhandler.imp ?_ ?_
  · rintro t c ⟨-, ⟨-, hvfs⟩, t', ht', hquiet⟩ hc
    obtain rfl := List.append_cancel_left ht'
    refine .mk hcall hrpcvers hauth ?_ ?_ hp ha fun hmem => ?_
    · rcases hvfs hc with rfl | rfl
      · exact .inl hprog
      · exact .inr hprog
    · rcases hvfs hc with rfl | rfl
      · exact hvers
      · exact hvers
    · have hfalse := (hquiet _ hmem).1
      cases hfalse
  · rintro t r hyields ⟨payload, hpacks⟩ t' ht'
    obtain ⟨bytes, hbytes, hreply⟩ := intoSuccessReply_eq m hpacks
    obtain rfl : t = t' := by simpa using ht'
    exact ⟨r, payload, bytes, hyields, hpacks, hreply, hbytes⟩

/-- Whatever the bytes of the message and the answers of the tracker and the file system, the
file system is called only for a message that is cleared, and the message meets exactly the fate
of the first check it fails, as long as there is memory for the lengths it announces; otherwise
there are answers with which it ends the server instead. -/
theorem dispatch_sound_iff (memory : Allocator) (hsmall : SmallResults A context)
    (message : Bytes) :
    (handleRpcMessage context message memory).Along False A
      (fun h c => c.isVfs = true → Cleared context message h)
      (Answered context message Succeeds) [] ↔ Affords memory A context message :=
  ⟨affords_of_along, dispatch_sound hsmall⟩

theorem affords_of_names {xid : UInt32} {call : CallBody} {rest : Bytes} {p : Procedure H I J}
    (hcall : IsCall message xid call rest) (hp : call.Names p)
    (hheader : ∀ size ∈ requests RpcMsg message, memory.grants size = true)
    (hcred : ∀ size ∈ requests AuthUnix call.cred.body.data, memory.grants size = true)
    (hargs : ∀ size ∈ requests p.Args rest, memory.grants size = true) :
    Affords memory A context message where
  header := hheader
  cred _ _ _ hcall' _ _ := by
    obtain ⟨-, rfl, -⟩ := hcall.unique hcall'
    exact hcred
  args _ _ _ _ _ hcall' _ _ _ hp' := by
    obtain ⟨-, rfl, rfl⟩ := hcall.unique hcall'
    obtain rfl := hp.unique hp'
    exact hargs

end Memory

/-! A read-only file system without a root, to run the theorem on. -/

def failing : (c : VfsCall H I J) → c.Reply → Prop
  | .capabilities, (r : VFSCapabilities) => r = .readOnly
  | .getattr _, (r : Except Nfsstat3 Fattr3) => r = .error .nfs3errIo
  | .lookup .., (r : Except Nfsstat3 H) => r = .error .nfs3errIo
  | .lookupByPath _, (r : Except Nfsstat3 H) => r = .error .nfs3errIo
  | .read .., (r : Except Nfsstat3 (Bytes × Bool)) => r = .error .nfs3errIo
  | .readdir .., (r : Except Nfsstat3 I) => r = .error .nfs3errIo
  | .readdirplus .., (r : Except Nfsstat3 J) => r = .error .nfs3errIo
  | .readlink _, (r : Except Nfsstat3 Nfspath3) => r = .error .nfs3errIo
  | .fsinfo _, (r : Except Nfsstat3 Fsinfo3Resok) => r = .error .nfs3errIo
  | _, _ => True

def failingServer : (c : ServerCall H I J) → c.Reply → Prop
  | .vfs c, r => failing c r
  | _, _ => True

/-- All results of the program can be packed when the file system fails. -/
def Small {α : Type} [XdrCodec α] (m : ServerM H I J α) : Prop :=
  ∀ h, m.Along False failingServer (fun _ _ => True) (fun _ r => ∃ payload, Packs r payload) h

theorem fhFromNfs_ne_ok {converter : FileHandleConverter} {fh : NfsFh3} {stat : Nfsstat3}
    (h : converter.fhFromNfs (H := H) fh = .error stat) : stat ≠ .nfs3Ok := by
  have hcheck : converter.checkHandle fh ≠ .error .nfs3Ok := by
    unfold FileHandleConverter.checkHandle
    dsimp only
    split_ifs <;> simp
  rintro rfl
  unfold FileHandleConverter.fhFromNfs at h
  split at h
  · next e he =>
    cases h
    exact hcheck he
  · split at h <;> cases h

section Results

variable {α ε : Type} [XdrCodec α] [XdrSpec α] [LawfulXdr α] [XdrCodec ε] [XdrSpec ε]
  [LawfulXdr ε] {fail : ε}

theorem small_fhToId {context : RPCContext} {fh : NfsFh3}
    {body : H → VfsM H I J (Nfs3Result α ε)} (hfail : XdrSpec.valid fail = true)
    (hbody : ∀ id, Small (liftVfs (body id))) :
    Small (liftVfs (NfsHandlers.fhToId context fh fail body)) := by
  unfold NfsHandlers.fhToId
  split
  · next stat hstat =>
    intro h
    have hvalid : XdrSpec.valid (Nfs3Result.err stat fail : Nfs3Result α ε) = true := by
      show (stat != .nfs3Ok && XdrSpec.valid fail) = true
      rw [hfail, Bool.and_true, bne_iff_ne]
      exact fhFromNfs_ne_ok hstat
    exact exists_packs hvalid
  · exact hbody _

omit [FileHandle H] in
theorem small_readWrite {body : VfsM H I J (Nfs3Result α ε)} (hfail : XdrSpec.valid fail = true) :
    Small (liftVfs (NfsHandlers.readWrite fail body)) := by
  refine fun h => ⟨trivial, fun r hr => ?_⟩
  cases hr
  have hvalid : XdrSpec.valid (Nfs3Result.err .nfs3errRofs fail : Nfs3Result α ε) = true := hfail
  exact exists_packs hvalid

omit [FileHandle H] [XdrSpec α] [LawfulXdr α] in
theorem small_getPostOpAttr {id : H} {f : PostOpAttr → VfsM H I J α}
    (h : Small (liftVfs (f .none))) :
    Small (liftVfs ((NfsHandlers.getPostOpAttr id).bind f)) := by
  refine fun t => ⟨trivial, fun r hr => ?_⟩
  cases hr
  exact h _

end Results

theorem failing_mount (context : RPCContext)
    (hname : context.exportName.toUTF8.data.toList.length < 2 ^ 32) {proc : Mount.MountProgram}
    {p : Procedure H I J} (hp : mountProcedure proc = some p) (xid : UInt32) (a : p.Args) :
    Small (p.handler context xid a) := by
  have hsignal (mounted : Bool) : Small (H := H) (I := I) (J := J)
      ((signal context mounted).bind fun _ => .ret (⟨⟩ : Void)) := by
    intro h
    unfold signal
    split_ifs
    · exact ⟨trivial, fun _ _ => exists_packs rfl⟩
    · exact exists_packs rfl
  cases proc with
  | mountproc3Null =>
    cases hp
    exact fun h => exists_packs rfl
  | mountproc3Dump => cases hp
  | mountproc3Export =>
    cases hp
    have hvalid : XdrSpec.valid
        (⟨[⟨⟨⟨context.exportName.toUTF8.data.toList⟩⟩, ⟨[]⟩⟩]⟩ : Mount.Exports) = true := by
      show ((decide (context.exportName.toUTF8.data.toList.length < 2 ^ 32) && true) && true) = true
      rw [decide_eq_true hname]
      rfl
    obtain ⟨payload, hpacks⟩ := exists_packs hvalid
    exact fun h => ⟨payload, hpacks⟩
  | mountproc3Umntall =>
    cases hp
    exact hsignal false
  | mountproc3Umnt =>
    cases hp
    show Small (MountHandlers.mountproc3Umnt context xid a)
    unfold MountHandlers.mountproc3Umnt
    split
    · exact fun h => exists_packs rfl
    · exact hsignal false
  | mountproc3Mnt =>
    cases hp
    show Small (MountHandlers.mountproc3Mnt context xid a)
    unfold MountHandlers.mountproc3Mnt
    split
    · exact fun h => exists_packs rfl
    split
    · exact fun h => exists_packs rfl
    refine fun h => ⟨trivial, fun r hr => ?_⟩
    cases hr
    exact exists_packs rfl

theorem failing_nfs {context : RPCContext} {proc : NfsProgram} {p : Procedure H I J}
    (hp : nfsProcedure proc = some p) (xid : UInt32) (a : p.Args) :
    Small (p.handler context xid a) := by
  cases proc with
  | nfsproc3Null =>
    cases hp
    exact fun h => exists_packs rfl
  | nfsproc3Getattr | nfsproc3Fsinfo =>
    cases hp
    refine small_fhToId rfl fun id h => ⟨trivial, fun r hr => ?_⟩
    cases hr
    exact exists_packs rfl
  | nfsproc3Lookup | nfsproc3Read | nfsproc3Readlink | nfsproc3Access =>
    cases hp
    refine small_fhToId rfl fun id => small_getPostOpAttr fun h => ⟨trivial, fun r hr => ?_⟩
    cases hr
    exact exists_packs rfl
  | nfsproc3Pathconf | nfsproc3Fsstat =>
    cases hp
    exact small_fhToId rfl fun id => small_getPostOpAttr fun h => exists_packs rfl
  | nfsproc3Readdir =>
    cases hp
    refine small_fhToId rfl fun id => small_getPostOpAttr ?_
    dsimp only
    split_ifs with hverf hmatch hfits
    · exact fun h => exists_packs rfl
    · exact fun h => exists_packs rfl
    · exact fun h => exists_packs rfl
    · rw [checkedSub_of_le (not_lt.mp hfits)]
      refine fun h => ⟨trivial, fun r hr => ?_⟩
      cases hr
      exact exists_packs rfl
  | nfsproc3Readdirplus =>
    cases hp
    refine small_fhToId rfl fun id => small_getPostOpAttr ?_
    dsimp only
    split_ifs with hfits
    · exact fun h => exists_packs rfl
    · rw [checkedSub_of_le (not_lt.mp hfits)]
      refine fun h => ⟨trivial, fun r hr => ?_⟩
      cases hr
      exact exists_packs rfl
  | nfsproc3Write | nfsproc3Create | nfsproc3Setattr | nfsproc3Remove | nfsproc3Rmdir
  | nfsproc3Rename | nfsproc3Mkdir | nfsproc3Symlink =>
    cases hp
    exact small_readWrite rfl
  | nfsproc3Mknod | nfsproc3Link | nfsproc3Commit => cases hp

theorem failing_small {context : RPCContext}
    (hname : context.exportName.toUTF8.data.toList.length < 2 ^ 32) :
    SmallResults (failingServer : (c : ServerCall H I J) → c.Reply → Prop) context := by
  intro program hmem proc p hp auth xid a h
  simp only [programs, List.mem_cons, List.not_mem_nil, or_false] at hmem
  rcases hmem with rfl | rfl | rfl
  · obtain ⟨tag, -, htag⟩ := Option.bind_eq_some_iff.mp hp
    cases tag <;> cases htag <;> exact exists_packs rfl
  · obtain ⟨tag, -, htag⟩ := Option.bind_eq_some_iff.mp hp
    exact failing_mount { context with auth } hname htag xid a h
  · obtain ⟨tag, -, htag⟩ := Option.bind_eq_some_iff.mp hp
    exact failing_nfs htag xid a h

end Soundness

def sampleContext : RPCContext := ⟨2049, "client", ⟨0, ⟨[]⟩, 0, 0, []⟩, false, "", ⟨0⟩⟩

/-- LOOKUP of "a" in a directory, by user 1000 of group 100. -/
def sampleLookup : Bytes :=
  [0, 0, 0, 7, 0, 0, 0, 0, 0, 0, 0, 2, 0, 1, 134, 163, 0, 0, 0, 3, 0, 0, 0, 3,
    0, 0, 0, 1, 0, 0, 0, 24, 0, 0, 0, 0, 0, 0, 0, 0, 0, 0, 3, 232, 0, 0, 0, 100,
    0, 0, 0, 1, 0, 0, 0, 100, 0, 0, 0, 0, 0, 0, 0, 0] ++
  [0, 0, 0, 16, 0, 0, 0, 0, 0, 0, 0, 0, 0, 0, 0, 0, 0, 0, 0, 1, 0, 0, 0, 1, 97, 0, 0, 0]

theorem dispatch_sound_iff_lookup :
    SmallResults (failingServer : (c : ServerCall FileHandleU64 Unit Unit) → c.Reply → Prop)
        sampleContext ∧
      (handleRpcMessage sampleContext sampleLookup .target32 :
        ServerM FileHandleU64 Unit Unit _).Along False failingServer
        (fun h c => c.isVfs = true → Cleared sampleContext sampleLookup h)
        (Answered sampleContext sampleLookup Succeeds) [] := by
  have hsmall : SmallResults
      (failingServer : (c : ServerCall FileHandleU64 Unit Unit) → c.Reply → Prop) sampleContext :=
    failing_small (by decide)
  let call : CallBody :=
    ⟨2, 100003, 3, 3, ⟨.authUnix, ⟨(sampleLookup.drop 32).take 24⟩⟩, ⟨.authNull, ⟨[]⟩⟩⟩
  have hcall : IsCall sampleLookup 7 call (sampleLookup.drop 64) := ⟨64, rfl⟩
  have hp : call.Names
      (.ofVfs NfsHandlers.nfsproc3Lookup : Procedure FileHandleU64 Unit Unit) :=
    ⟨nfsProgram, by simp [programs], rfl, rfl, rfl⟩
  exact ⟨hsmall, (dispatch_sound_iff .target32 hsmall sampleLookup).mpr
    (affords_of_names hcall hp (by decide) (by decide) (by decide))⟩

/-- A NULL call with an AUTH_UNIX credential that announces 2 ^ 32 - 1 groups. -/
def sampleGroups : Bytes :=
  [0, 0, 0, 7, 0, 0, 0, 0, 0, 0, 0, 2, 0, 1, 134, 163, 0, 0, 0, 3, 0, 0, 0, 0,
    0, 0, 0, 1, 0, 0, 0, 20, 0, 0, 0, 0, 0, 0, 0, 0, 0, 0, 3, 232, 0, 0, 0, 100,
    255, 255, 255, 255, 0, 0, 0, 0, 0, 0, 0, 0]

theorem dispatch_out_of_memory :
    (handleRpcMessage sampleContext sampleGroups .target32 :
        ServerM FileHandleU64 Unit Unit _) = .halt ∧
      ¬∀ memory (A : (c : ServerCall FileHandleU64 Unit Unit) → c.Reply → Prop) context message,
        SmallResults A context → (handleRpcMessage context message memory).Along False A
          (fun h c => c.isVfs = true → Cleared context message h)
          (Answered context message Succeeds) [] := by
  have hhalt : (handleRpcMessage sampleContext sampleGroups .target32 :
      ServerM FileHandleU64 Unit Unit _) = .halt := rfl
  refine ⟨hhalt, fun h => ?_⟩
  have halong := h .target32 failingServer sampleContext sampleGroups (failing_small (by decide))
  rw [hhalt] at halong
  exact halong

end Nfs3
