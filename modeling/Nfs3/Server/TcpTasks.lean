import Nfs3.Server.DispatchSound
import Nfs3.Server.Tcp

/-!
# What the tasks of the server do

A task goes through three stages: it asks the tracker to admit its call, holds the lock while the
call is carried out, and drops it, also when it panics. Then it sends what came of the call, if
anything, to the channel of its own connection.

What holds of the shared state and the phases of the tasks then follows for all runs of the
server from what single events do to them.
-/
namespace Nfs3.Tcp

open ByteOrder (Bytes)
open Interaction Prog
open Tracker (TransactionLock)

/-! ## Stages -/

inductive Stage
  | fresh
  | holding (lock : TransactionLock)
  | released

def Stage.lock : Stage → Option TransactionLock
  | holding lock => some lock
  | fresh | released => none

section Stages

variable {H I J α : Type}

/-- The tracker is asked about the call of the message, and the lock it hands out is the one
that is dropped. Everything else happens in between. -/
def stages (incoming : Incoming) : Protocol (ServerCall H I J) ServerCall.Reply Stage where
  allows
    | .fresh, .startTransaction clientAddr xid =>
      clientAddr = incoming.clientAddr ∧ ∃ call rest, IsCall incoming.message xid call rest
    | .holding lock, .dropLock lock' => lock' = lock
    | .holding _, .vfs _ => True
    | .holding _, .mountSignal _ => True
    | _, _ => False
  relies _ _ _ := True
  next
    | _, .startTransaction .., (.ok lock : Except Tracker.TransactionError TransactionLock) =>
      .holding lock
    | _, .startTransaction .., (.error _ : Except Tracker.TransactionError TransactionLock) =>
      .released
    | _, .dropLock _, _ => .released
    | stage, .vfs _, _ => stage
    | stage, .mountSignal _, _ => stage

/-- The lock that `unwind` keeps track of is the one of the stage. -/
theorem lock_next {incoming : Incoming} {stage : Stage} {c : ServerCall H I J} (r : c.Reply)
    (h : (stages incoming).allows stage c) :
    ((stages incoming).next stage c r).lock = lockAfter stage.lock c r := by
  cases stage with
  | fresh =>
    cases c with
    | startTransaction clientAddr xid =>
      cases (r : Except Tracker.TransactionError TransactionLock) <;> rfl
    | dropLock _ | vfs _ | mountSignal _ => cases h
  | holding lock =>
    cases c with
    | startTransaction _ _ => cases h
    | dropLock _ | vfs _ | mountSignal _ => rfl
  | released => cases c <;> cases h

theorem handle_meets {P : ServerCall H I J → Prop} {context : RPCContext} {m : IncomingRpcMessage}
    {p : Procedure H I J} (h : ∀ a, (p.handler context m.xid a).Meets P fun _ => True) :
    (handle context m p).Meets P fun _ => True := by
  unfold handle
  split
  · split_ifs <;> trivial
  · split_ifs
    · trivial
    · exact meets_bind.mpr ((h _).mono fun _ _ => trivial)

variable [FileHandle H]

theorem dispatch_meets (context : RPCContext) (m : IncomingRpcMessage) :
    (dispatch context m : ServerM H I J _).Meets (fun c => c.isTracker = false)
      fun _ => True := by
  have hprogram (program : Program H I J) (hmem : program ∈ programs) :
      (program.handle context m).Meets (fun c => c.isTracker = false) fun _ => True := by
    unfold Program.handle
    split_ifs
    · trivial
    · split
      · trivial
      · next p hp =>
        refine handle_meets fun a => ?_
        exact (procedure_meets hmem hp context m.xid a).weaken fun _ hc => hc.1
  unfold dispatch
  split_ifs
  · exact hprogram _ (by simp [programs])
  · exact hprogram _ (by simp [programs])
  · exact hprogram _ (by simp [programs])
  · trivial

/-- Whatever is answered, handling a message goes through the stages and ends without a lock. -/
theorem handleRpcMessage_follows {incoming : Incoming} {context : RPCContext}
    (haddr : context.clientAddr = incoming.clientAddr) :
    (handleRpcMessage context incoming.message : ServerM H I J _).Follows (stages incoming)
      (fun stage _ => stage.lock = none) .fresh := by
  unfold handleRpcMessage
  rcases @tryFrom_cases .unlimited incoming.message fun _ _ => rfl with
    ⟨err, hu, htry⟩ | ⟨xid, body, rest, -, htry⟩ | ⟨m, hcall, htry⟩
  · rw [htry]
    dsimp only
    rw [if_neg (by simpa using ne_outOfMemory hu)]
    exact rfl
  · rw [htry]
    exact rfl
  rw [htry]
  dsimp only
  split_ifs with hvers
  · exact rfl
  rcases @authenticate_cases .unlimited context m.body fun _ _ _ => rfl with
    ⟨err, -, hu, hauth⟩ | ⟨auth, -, hauth⟩
  · rw [hauth]
    dsimp only
    rw [if_neg (by simpa using ne_outOfMemory hu)]
    exact rfl
  rw [hauth]
  refine ⟨⟨haddr, m.body, m.takeData, hcall⟩, fun r _ => ?_⟩
  match r with
  | .error .alreadyExists => exact rfl
  | .error .tooManyRequests => exact rfl
  | .ok lock =>
    have hdispatch : (dispatch { context with auth } m : ServerM H I J _).Follows (stages incoming)
        (fun stage _ => stage = .holding lock ∧ True) (.holding lock) := by
      refine (dispatch_meets _ m).follows fun c hc => ?_
      cases c with
      | startTransaction _ _ | dropLock _ => cases hc
      | vfs _ | mountSignal _ => exact ⟨trivial, fun _ => rfl⟩
    have hwhole : ((dispatch { context with auth } m : ServerM H I J _).bind fun result =>
        (dropLock lock).bind fun _ => .ret result).Follows (stages incoming)
          (fun stage _ => stage.lock = none) (.holding lock) := by
      refine follows_bind.mpr (hdispatch.mono ?_)
      rintro stage result ⟨rfl, -⟩
      exact ⟨rfl, fun _ _ => rfl⟩
    exact hwhole

end Stages

/-! ## Phases -/

/-- Where a task is: what handling its message has asked so far, the stage this led to, and what
was sent. -/
structure Phase (H I J : Type) where
  incoming : Incoming
  asked : History (ServerCall H I J) ServerCall.Reply
  stage : Stage
  sent : Option SocketMessage

section Phases

variable {H I J α : Type}

def Phase.start (incoming : Incoming) : Phase H I J := ⟨incoming, [], .fresh, none⟩

def Phase.lock (p : Phase H I J) : Option TransactionLock := p.stage.lock

/-- The procedure ran on the arguments, and its result was packed behind the xid. -/
def Ran (context : RPCContext) (xid : UInt32) (p : Procedure H I J) (a : p.Args)
    (t : History (ServerCall H I J) ServerCall.Reply) (result : Except RpcError HandleResult) :
    Prop :=
  ∃ r, ∃ m : IncomingRpcMessage, (p.handler context xid a).Yields t r ∧ m.xid = xid ∧
    result = m.intoSuccessReply r

variable [FileHandle H]

/-- The result is what becomes of the message when the questions are answered like this. -/
def Concluded (listener : NFSTcpListener) (incoming : Incoming)
    (asked : History (ServerCall H I J) ServerCall.Reply)
    (result : Except RpcError HandleResult) : Prop :=
  Answered (listener.context incoming.clientAddr) incoming.message Ran asked result

/-- Only what came of the message is sent, once and to its own connection. Only the file system
panics. -/
def taskProtocol (listener : NFSTcpListener) :
    Protocol (SocketCall H I J) SocketCall.Reply (Phase H I J) where
  allows p
    | .server c => (stages p.incoming).allows p.stage c ∧ p.sent = none
    | .send connection message =>
      connection = p.incoming.connection ∧ p.lock = none ∧ p.sent = none ∧
        ∃ result, Concluded listener p.incoming p.asked result ∧
          socketMessage result = some message
  relies _
    | .server c, (r : Option c.Reply) => c.isVfs = false → r ≠ none
    | .send .., _ => True
  next p
    | .server c, r =>
      match (r : Option c.Reply) with
      | some r =>
        { p with asked := p.asked ++ [⟨c, r⟩], stage := (stages p.incoming).next p.stage c r }
      | none => p
    | .send _ message, _ => { p with sent := some message }

/-- How a task ends: without its lock, and with what came of the message sent, or nothing after
a panic. -/
structure Phase.Ended (listener : NFSTcpListener) (incoming : Incoming) (p : Phase H I J)
    (result : Option (Except RpcError HandleResult)) : Prop where
  incoming_eq : p.incoming = incoming
  lock_eq : p.lock = none
  sent_eq : p.sent = result.bind socketMessage
  concluded : ∀ r, result = some r → Concluded listener incoming p.asked r

/-- What is known of a task when it has handled its message: the result, if there is one,
satisfies `A`. -/
structure Handled (incoming : Incoming)
    (A : History (ServerCall H I J) ServerCall.Reply → α → Prop) (p : Phase H I J)
    (result : Option α) : Prop where
  incoming_eq : p.incoming = incoming
  lock_eq : p.lock = none
  sent_eq : p.sent = none
  result : ∀ a, result = some a → A p.asked a

variable {listener : NFSTcpListener} {p : Phase H I J}
  {A : History (ServerCall H I J) ServerCall.Reply → α → Prop}

theorem release_follows (hsent : p.sent = none) :
    (release p.lock).Follows (taskProtocol listener) (Handled p.incoming A) p := by
  have hresult (p' : Phase H I J) : ∀ a, (none : Option α) = some a → A p'.asked a := by
    intro a ha
    cases ha
  obtain ⟨incoming, asked, stage, sent⟩ := p
  cases stage with
  | fresh | released => exact ⟨rfl, rfl, hsent, hresult _⟩
  | holding lock =>
    refine ⟨⟨rfl, hsent⟩, fun r hr => ?_⟩
    cases (r : Option Unit) with
    | none => exact absurd rfl (hr rfl)
    | some r => exact ⟨rfl, rfl, hsent, hresult _⟩

theorem unwind_follows {m : ServerM H I J α}
    (halong : m.Along True (fun _ _ => True) (fun _ _ => True) A p.asked)
    (hstages : m.Follows (stages p.incoming) (fun stage _ => stage.lock = none) p.stage)
    (hsent : p.sent = none) :
    (unwind p.lock m).Follows (taskProtocol listener) (Handled p.incoming A) p := by
  induction m generalizing p with
  | ret a =>
    refine ⟨rfl, hstages, hsent, ?_⟩
    rintro _ ⟨⟩
    exact halong
  | halt => exact release_follows hsent
  | ask c next ih =>
    rw [unwind]
    refine ⟨⟨hstages.1, hsent⟩, fun r _ => ?_⟩
    cases (r : Option c.Reply) with
    | none => exact release_follows hsent
    | some r =>
      have hlock := lock_next r hstages.1
      have hnext := @ih r
        ⟨p.incoming, p.asked ++ [⟨c, r⟩], (stages p.incoming).next p.stage c r, p.sent⟩
        (halong.2 r trivial) (hstages.2 r trivial) hsent
      rw [Phase.lock, hlock] at hnext
      exact hnext

/-- Every task follows the protocol, whatever its message. -/
theorem task_follows (listener : NFSTcpListener) (incoming : Incoming) :
    (listener.task incoming : SocketM H I J _).Follows (taskProtocol listener)
      (Phase.Ended listener incoming) (.start incoming) := by
  have halong : (handleRpcMessage (listener.context incoming.clientAddr) incoming.message :
      ServerM H I J _).Along True (fun _ _ => True) (fun _ _ => True)
        (Concluded listener incoming) [] := by
    refine handleRpcMessage_along (affords_unlimited ..) (fun _ => trivial) (fun _ _ => trivial) ?_
    intro m p a auth lock hcall hrpcvers hauth hp ha
    have hhandler : (p.handler { listener.context incoming.clientAddr with auth } m.xid a).Along
        True (fun _ _ => True) (fun _ _ => True) (fun _ _ => True)
          [started (listener.context incoming.clientAddr).clientAddr m.xid (.ok lock)] :=
      Along.of_forall fun _ _ => trivial
    refine hhandler.imp (fun _ _ _ => trivial) fun t r hyields _ t' ht' => ?_
    obtain rfl : t = t' := by simpa using ht'
    exact ⟨r, m, hyields, rfl, rfl⟩
  have hunwind : (unwind none (handleRpcMessage (listener.context incoming.clientAddr)
      incoming.message : ServerM H I J _)).Follows (taskProtocol listener)
        (Handled incoming (Concluded listener incoming)) (.start incoming) :=
    unwind_follows (p := .start incoming) halong (handleRpcMessage_follows rfl) rfl
  refine follows_bind.mpr (hunwind.mono fun p result hp => ?_)
  obtain ⟨hincoming, hlock, hsent, hresult⟩ := hp
  cases hm : result.bind socketMessage with
  | none => exact ⟨hincoming, hlock, hsent.trans hm.symm, hresult⟩
  | some message =>
    obtain ⟨r, hr, hmessage⟩ := Option.bind_eq_some_iff.mp hm
    refine ⟨⟨by rw [hincoming], hlock, hsent, r, ?_, hmessage⟩, fun _ _ => ?_⟩
    · rw [hincoming]
      exact hresult r hr
    · exact ⟨hincoming, hlock, hm.symm, hresult⟩

end Phases

/-! ## Runs -/

section Runs

abbrev MessageTask (H I J : Type) :=
  Task (SocketCall H I J) SocketCall.Reply Incoming (Option (Except RpcError HandleResult))

variable {H I J σ : Type} [FileHandle H] {listener : NFSTcpListener}
  {vfs : σ → (c : VfsCall H I J) → Option (Option c.Reply × σ)}

def phases (listener : NFSTcpListener) (s : Server H I J σ) : List (Phase H I J) :=
  s.phases (taskProtocol listener) .start

def phaseOf (listener : NFSTcpListener) (t : MessageTask H I J) : Phase H I J :=
  (taskProtocol listener).after (.start t.origin) t.history

theorem phases_eq (listener : NFSTcpListener) (s : Server H I J σ) :
    phases listener s = s.tasks.map (phaseOf listener) := rfl

theorem incoming_next (p : Phase H I J) (c : SocketCall H I J) (r : c.Reply) :
    ((taskProtocol listener).next p c r).incoming = p.incoming := by
  cases c with
  | send connection message => rfl
  | server c => cases (r : Option c.Reply) <;> rfl

theorem incoming_phaseOf (listener : NFSTcpListener) (t : MessageTask H I J) :
    (phaseOf listener t).incoming = t.origin := by
  have hafter (h : History (SocketCall H I J) SocketCall.Reply) (p : Phase H I J) :
      ((taskProtocol listener).after p h).incoming = p.incoming := by
    induction h generalizing p with
    | nil => rfl
    | cons e h ih => exact (ih _).trans (incoming_next p e.1 e.2)
  exact hafter t.history (.start t.origin)

theorem incoming_phases (listener : NFSTcpListener) (s : Server H I J σ) :
    (phases listener s).map Phase.incoming = s.tasks.map Task.origin := by
  rw [phases_eq, List.map_map]
  exact List.map_congr_left fun t _ => incoming_phaseOf listener t

/-- What handling the message asked, with the answers. -/
def askedIn (h : History (SocketCall H I J) SocketCall.Reply) :
    History (ServerCall H I J) ServerCall.Reply :=
  h.filterMap fun e =>
    match e with
    | ⟨.server c, r⟩ => (r : Option c.Reply).map fun r => ⟨c, r⟩
    | ⟨.send .., _⟩ => none

theorem asked_phaseOf (listener : NFSTcpListener) (t : MessageTask H I J) :
    (phaseOf listener t).asked = askedIn t.history := by
  have hafter (h : History (SocketCall H I J) SocketCall.Reply) (p : Phase H I J) :
      ((taskProtocol listener).after p h).asked = p.asked ++ askedIn h := by
    induction h generalizing p with
    | nil => exact (List.append_nil _).symm
    | cons e h ih =>
      obtain ⟨c, r⟩ := e
      refine (ih _).trans ?_
      cases c with
      | send connection message => rfl
      | server c =>
        cases (r : Option c.Reply) with
        | none => rfl
        | some r => exact List.append_assoc ..
  exact hafter t.history (.start t.origin)

/-- Every task follows the protocol from its phase on. -/
def OnTrack (listener : NFSTcpListener) (s : Server H I J σ) : Prop :=
  s.Follows (taskProtocol listener) .start (Phase.Ended listener)

theorem OnTrack.concluded {s : Server H I J σ} (h : OnTrack listener s) {t : MessageTask H I J}
    (ht : t ∈ s.tasks) {result : Except RpcError HandleResult}
    (hrest : t.rest = .ret (some result)) :
    Concluded listener t.origin (askedIn t.history) result := by
  have hfollows := h t ht
  rw [hrest] at hfollows
  rw [← asked_phaseOf listener t]
  exact hfollows.concluded result rfl

theorem answer_relies {s s' : Service σ} {c : SocketCall H I J} {r : c.Reply}
    (h : Service.answer vfs s c = some (r, s')) (p : Phase H I J) :
    (taskProtocol listener).relies p c r := by
  cases c with
  | send connection message => trivial
  | server c =>
    intro hvfs hnone
    cases hnone
    cases c with
    | vfs c => cases hvfs
    | mountSignal mounted => cases h
    | startTransaction clientAddr xid =>
      obtain ⟨r, -, hr⟩ := Option.map_eq_some_iff.mp h
      cases hr
    | dropLock lock =>
      obtain ⟨r, -, hr⟩ := Option.map_eq_some_iff.mp h
      cases hr

/-- An event, seen from the shared state and the phases. -/
inductive Stepped (listener : NFSTcpListener)
    (vfs : σ → (c : VfsCall H I J) → Option (Option c.Reply × σ)) (shared : Service σ)
    (ps : List (Phase H I J)) : Event → Service σ → List (Phase H I J) → Prop
  | task {index : ℕ} {p : Phase H I J} {c : SocketCall H I J} {r : c.Reply} {shared' : Service σ}
      (phase : ps[index]? = some p) (allowed : (taskProtocol listener).allows p c)
      (answered : Service.answer vfs shared c = some (r, shared')) :
      Stepped listener vfs shared ps (.task index) shared'
        (ps.set index ((taskProtocol listener).next p c r))
  | other {event : Event} {shared' : Service σ} {incoming : Option Incoming}
      (performed : shared.perform event = some (shared', incoming)) :
      Stepped listener vfs shared ps event shared' (ps ++ incoming.toList.map .start)

theorem step_cases {s s' : Server H I J σ} {event : Event}
    (h : s.step listener vfs event = some s') :
    (∃ index, event = .task index ∧ s.turn listener.task (Service.answer vfs)
      (fun shared (_ : Unit) => shared) (.step index) = some s') ∨
    ∃ shared incoming, s.shared.perform event = some (shared, incoming) ∧
      s' = ⟨shared, s.tasks ++
        incoming.toList.map fun incoming => ⟨incoming, [], listener.task incoming⟩⟩ := by
  cases event with
  | task index => exact .inl ⟨index, rfl, h⟩
  | accept _ | receive _ _ | read _ | reply _ _ | close _ | clock _ | cleanup
  | cleanupClient _ =>
    unfold Server.step at h
    obtain ⟨⟨shared, incoming⟩, hperform, hs'⟩ := Option.bind_eq_some_iff.mp h
    exact .inr ⟨shared, incoming, hperform, (Option.some.inj hs').symm⟩

theorem OnTrack.stepped {s s' : Server H I J σ} {event : Event} (h : OnTrack listener s)
    (hstep : s.step listener vfs event = some s') :
    OnTrack listener s' ∧
      Stepped listener vfs s.shared (phases listener s) event s'.shared (phases listener s') := by
  rcases step_cases hstep with ⟨index, rfl, hturn⟩ | ⟨shared, incoming, hperform, rfl⟩
  · obtain ⟨hfollows, hturned⟩ := Pool.Follows.turned h (task_follows listener)
      (fun p _ c r shared _ hanswer => answer_relies hanswer p) hturn
    refine ⟨hfollows, ?_⟩
    unfold phases
    generalize Pool.phases _ _ s' = ps' at hturned ⊢
    generalize s'.shared = shared' at hturned ⊢
    cases hturned with
    | step phase allowed answered => exact .task phase allowed answered
  · constructor
    · intro t ht
      rcases List.mem_append.mp ht with ht | ht
      · exact h t ht
      · obtain ⟨incoming, -, rfl⟩ := List.mem_map.mp ht
        exact task_follows listener incoming
    · have hphases : phases listener ⟨shared, s.tasks ++
          incoming.toList.map fun incoming => ⟨incoming, [], listener.task incoming⟩⟩ =
            phases listener s ++ incoming.toList.map .start := by
        simp [phases, Pool.phases, Protocol.after, Function.comp_def]
      rw [hphases]
      exact .other hperform

/-- What the events preserve of the shared state and the phases, under a side condition, holds
at the end of a run. -/
theorem run_phases_from {Inv : Service σ → List (Phase H I J) → Prop}
    {C : Server H I J σ → Event → Prop}
    (hinv : ∀ s event shared' ps', Inv s.shared (phases listener s) → C s event →
      Stepped listener vfs s.shared (phases listener s) event shared' ps' → Inv shared' ps')
    {s s' : Server H I J σ} (hs : OnTrack listener s ∧ Inv s.shared (phases listener s))
    {events : List Event} (hevents : Transition.Along (Server.step listener vfs) C s events)
    (hrun : Transition.run (Server.step listener vfs) s events = some s') :
    OnTrack listener s' ∧ Inv s'.shared (phases listener s') := by
  have hstep : ∀ (s : Server H I J σ) event s',
      (OnTrack listener s ∧ Inv s.shared (phases listener s)) → C s event →
      s.step listener vfs event = some s' →
      OnTrack listener s' ∧ Inv s'.shared (phases listener s') := by
    rintro s event s' ⟨htrack, hs⟩ hc hstep
    obtain ⟨htrack', hstepped⟩ := htrack.stepped hstep
    exact ⟨htrack', hinv _ _ _ _ hs hc hstepped⟩
  exact @Transition.run_invariant _ _ _ _ _ _
    (fun s => OnTrack listener s ∧ Inv s.shared (phases listener s)) _ hstep hs hevents hrun

/-- What the events preserve of the shared state and the phases holds in every run. -/
theorem run_phases {Inv : Service σ → List (Phase H I J) → Prop} {C : Event → Prop} {fs : σ}
    (hinit : Inv (.init fs) [])
    (hinv : ∀ shared ps event shared' ps', Inv shared ps → C event →
      Stepped listener vfs shared ps event shared' ps' → Inv shared' ps')
    {events : List Event} (hevents : ∀ event ∈ events, C event) {s : Server H I J σ}
    (hrun : Transition.run (Server.step listener vfs) (Server.init fs) events = some s) :
    OnTrack listener s ∧ Inv s.shared (phases listener s) := by
  have hstart : OnTrack listener (Server.init fs : Server H I J σ) := by
    intro t ht
    cases ht
  have halways : Transition.Along (Server.step listener vfs) (fun _ _ => True) (Server.init fs)
      events := Transition.along_of_forall fun _ _ => trivial
  refine @run_phases_from _ _ _ _ _ listener vfs Inv (fun _ event => True ∧ C event) ?_
    (Server.init fs) s ⟨hstart, hinit⟩ events (halways.and_of_mem hevents) hrun
  intro s event shared' ps' hs hc hstep
  exact hinv _ _ event _ _ hs hc.2 hstep

end Runs

/-- A file system that does not answer, to run the server on. -/
def silentVfs (_ : Unit) (c : VfsCall FileHandleU64 Unit Unit) : Option (Option c.Reply × Unit) :=
  none

end Nfs3.Tcp
