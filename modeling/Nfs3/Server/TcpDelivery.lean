import Nfs3.Server.TcpTasks

/-!
# What a connection delivers

A task is spawned for exactly the messages that have arrived on a connection, in their order.
What its socket carries is a sequence of whole replies, each of them sent by a task of this
connection; none is lost, doubled or torn while the connection is open.
-/
namespace Nfs3.Tcp

open ByteOrder (Bytes)
open ByteCodec
open Interaction Prog

/-! ## Reading while more bytes arrive -/

theorem streams_readExact (n : ℕ) : Streams (readExact n) := by
  intro b bs rest h s
  obtain ⟨rfl, hlen⟩ := readExact_eq_ok h
  rw [List.append_assoc]
  exact readExact_append hlen (rest ++ s)

theorem streams_recvFragment (data : Bytes) : Streams (RpcWire.recvFragment data) := by
  refine (streams_readExact 4).bind fun headerBuf => ?_
  exact (streams_readExact _).bind fun fragment => streams_pure _

theorem streams_recv (cur : RpcWire.PackedRpcMessage) : Streams cur.recv := by
  cases cur with
  | complete data => exact streams_pure _
  | incomplete data =>
    refine (streams_recvFragment data).bind fun r => ?_
    obtain ⟨eof, data⟩ := r
    dsimp only
    split_ifs
    · exact streams_pure _
    · exact streams_pure _

theorem streams_read (cur : RpcWire.PackedRpcMessage) : Streams (RpcWire.read cur) := by
  refine (streams_recv cur).bind fun r => ?_
  obtain ⟨isLast, cur⟩ := r
  dsimp only
  split_ifs
  · cases cur with
    | complete data => exact streams_pure _
    | incomplete data => exact streams_throw _
  · exact streams_pure _

theorem streams_readLoop (n : ℕ) (cur : RpcWire.PackedRpcMessage) :
    Streams (RpcWire.readLoop n cur) := by
  induction n generalizing cur with
  | zero => exact streams_pure _
  | succ n ih =>
    refine (streams_read cur).bind fun r => ?_
    obtain ⟨message, cur⟩ := r
    exact (ih cur).bind fun r => streams_pure _

/-! ## One connection -/

/-- The messages that arrived on a connection. -/
def messagesOn (connection : ℕ) (incoming : List Incoming) : List Bytes :=
  (incoming.filter fun i => i.connection = connection).map Incoming.message

/-- The replies fit into a fragment each, so that they can be written. -/
abbrev Replies := List {m : Bytes // m.length < 2 ^ 31}

def Replies.sent (replies : Replies) : List SocketMessage := replies.map fun m => .ok m.1

/-- A connection on which `incoming` arrived and whose tasks have sent `sent` to its channel. -/
structure Delivers (connection : ℕ) (c : Connection) (incoming : List Incoming)
    (sent : List SocketMessage) : Prop where
  messages : ∃ n, RpcWire.readLoop n .new c.received =
    .ok ((messagesOn connection incoming, c.curFragment), c.pipe)
  replies : ∃ written : Replies, c.socket = (RpcWire.singles written).flatMap RpcWire.Record.bytes ∧
    (written.sent ++ c.replies).Subperm sent ∧
    (c.isOpen = true → (written.sent ++ c.replies).Perm sent)

namespace Delivers

variable {connection : ℕ} {c c' : Connection} {incoming : List Incoming} {sent : List SocketMessage}

theorem new (clientAddr : String) (h : messagesOn connection incoming = []) :
    Delivers connection (.new clientAddr) incoming [] where
  messages := ⟨0, by rw [h]; rfl⟩
  replies := ⟨[], rfl, List.Subperm.refl _, fun _ => .refl _⟩

theorem perm {sent' : List SocketMessage} (h : Delivers connection c incoming sent)
    (hperm : sent.Perm sent') : Delivers connection c incoming sent' where
  messages := h.messages
  replies := by
    obtain ⟨written, hsocket, hsub, hopen⟩ := h.replies
    exact ⟨written, hsocket, hsub.trans hperm.subperm, fun ho => (hopen ho).trans hperm⟩

theorem receive {bytes : Bytes} (h : Delivers connection c incoming sent)
    (hc : c.receive bytes = some c') : Delivers connection c' incoming sent := by
  unfold Connection.receive at hc
  split_ifs at hc
  cases hc
  obtain ⟨n, hn⟩ := h.messages
  exact ⟨⟨n, streams_readLoop n .new _ _ _ hn bytes⟩, h.replies⟩

theorem read {message : Option Bytes} (h : Delivers connection c incoming sent)
    (hc : c.read = some (message, c')) (clientAddr : String) :
    Delivers connection c'
      (incoming ++ message.toList.map fun message => ⟨connection, clientAddr, message⟩) sent := by
  unfold Connection.read at hc
  split at hc
  · cases hc
  · next message' curFragment pipe hread =>
    cases hc
    obtain ⟨n, hn⟩ := h.messages
    refine ⟨⟨n + 1, ?_⟩, h.replies⟩
    have hone : RpcWire.readLoop 1 c.curFragment c.pipe =
        .ok ((message.toList ++ [], curFragment), pipe) :=
      RpcWire.readLoop_succ hread rfl
    have hmessages : messagesOn connection (incoming ++
        message.toList.map fun message => ⟨connection, clientAddr, message⟩) =
          messagesOn connection incoming ++ (message.toList ++ []) := by
      cases message <;> simp [messagesOn]
    rw [hmessages]
    exact RpcWire.readLoop_add hn hone

theorem close (h : Delivers connection c incoming sent) :
    Delivers connection c.close incoming sent where
  messages := h.messages
  replies := by
    obtain ⟨written, hsocket, hsub, -⟩ := h.replies
    refine ⟨written, hsocket, ?_, fun ho => by cases ho⟩
    rw [Connection.close, List.append_nil]
    exact (List.sublist_append_left _ _).subperm.trans hsub

/-- A reply that is taken from the channel is written as a whole. -/
theorem reply (h : Delivers connection c incoming sent) (hc : c.reply none = some c') :
    Delivers connection c' incoming sent := by
  unfold Connection.reply at hc
  split_ifs at hc with hopen
  split at hc
  · cases hc
  · cases hc
    exact h.close
  · next message replies hreplies =>
    by_cases hlen : message.length < 2 ^ 31
    · rw [RpcWire.writeFragment_eq hlen] at hc
      cases hc
      obtain ⟨written, hsocket, -, hperm⟩ := h.replies
      have hsent : Replies.sent (written ++ [⟨message, hlen⟩]) ++ replies =
          written.sent ++ c.replies := by
        simp [Replies.sent, hreplies]
      refine ⟨h.messages, written ++ [⟨message, hlen⟩], ?_, ?_, fun _ => ?_⟩
      · simp [hsocket, RpcWire.singles]
      · rw [hsent]
        exact (hperm hopen).subperm
      · rw [hsent]
        exact hperm hopen
    · have hwrite : RpcWire.writeFragment c.socket message = none := if_neg hlen
      rw [hwrite] at hc
      cases hc
      exact h.close

theorem send (h : Delivers connection c incoming sent) (message : SocketMessage) :
    Delivers connection (c.send message) incoming (message :: sent) := by
  obtain ⟨written, hsocket, hsub, hperm⟩ := h.replies
  unfold Connection.send
  split_ifs with hopen
  · have hnew : (written.sent ++ (c.replies ++ [message])).Perm (message :: sent) := by
      rw [← List.append_assoc]
      exact (List.perm_append_singleton _ _).trans ((hperm hopen).cons message)
    exact ⟨h.messages, written, hsocket, hnew.subperm, fun _ => hnew⟩
  · refine ⟨h.messages, written, hsocket, ?_, fun ho => absurd ho hopen⟩
    exact hsub.trans (List.sublist_cons_self _ _).subperm

end Delivers

/-! ## All connections -/

section Server

variable {H I J σ : Type}

/-- What a task has sent to the channel of the connection. -/
def sentOn (connection : ℕ) (p : Phase H I J) : Option SocketMessage :=
  if p.incoming.connection = connection then p.sent else none

structure Delivering (connection : ℕ) (shared : Service σ) (ps : List (Phase H I J)) : Prop where
  accepted : ∀ p ∈ ps, p.incoming.connection < shared.connections.length
  delivers : ∀ c, shared.connections[connection]? = some c →
    Delivers connection c (ps.map Phase.incoming) (ps.filterMap (sentOn connection))

variable {connection : ℕ} {shared shared' : Service σ} {ps : List (Phase H I J)}

/-- A task goes on. -/
theorem Delivering.set {index : ℕ} {p p' : Phase H I J} (h : Delivering connection shared ps)
    (hp : ps[index]? = some p) (hincoming : p'.incoming = p.incoming)
    (hlength : shared'.connections.length = shared.connections.length)
    (hdelivers : ∀ rest c', (ps.filterMap (sentOn connection)).Perm
      ((sentOn connection p).toList ++ rest) → shared'.connections[connection]? = some c' →
      Delivers connection c' (ps.map Phase.incoming) ((sentOn connection p').toList ++ rest)) :
    Delivering connection shared' (ps.set index p') := by
  have hmap : (ps.set index p').map Phase.incoming = ps.map Phase.incoming := by
    have hget : (ps.map Phase.incoming)[index]? = some p.incoming := by simp [hp]
    obtain ⟨hlt, heq⟩ := List.getElem?_eq_some_iff.mp hget
    rw [List.map_set, hincoming, ← heq, List.set_getElem_self]
  obtain ⟨rest, hrest, hset⟩ := Pool.filterMap_set_perm (sentOn connection) hp
  refine ⟨fun q hq => ?_, fun c' hc' => ?_⟩
  · rw [hlength]
    rcases List.mem_or_eq_of_mem_set hq with hq | rfl
    · exact h.accepted q hq
    · rw [hincoming]
      exact h.accepted p (List.mem_of_getElem? hp)
  · rw [hmap]
    exact (hdelivers rest c' hrest hc').perm (hset p').symm

/-- What tasks ask of the file system and the tracker does not touch the connections. -/
theorem connections_answerServer {vfs : σ → (c : VfsCall H I J) → Option (Option c.Reply × σ)}
    {c : ServerCall H I J} {r : Option c.Reply}
    (h : Service.answerServer vfs shared c = some (r, shared')) :
    shared'.connections = shared.connections := by
  cases c with
  | mountSignal mounted =>
    cases h
    rfl
  | startTransaction clientAddr xid =>
    obtain ⟨r', -, hr⟩ := Option.map_eq_some_iff.mp h
    cases hr
    rfl
  | dropLock lock =>
    obtain ⟨r', -, hr⟩ := Option.map_eq_some_iff.mp h
    cases hr
    rfl
  | vfs c =>
    obtain ⟨r', -, hr⟩ := Option.map_eq_some_iff.mp h
    cases hr
    rfl

variable [FileHandle H] {listener : NFSTcpListener}
  {vfs : σ → (c : VfsCall H I J) → Option (Option c.Reply × σ)}

theorem Delivering.task {index : ℕ} {p : Phase H I J} {c : SocketCall H I J} {r : c.Reply}
    (h : Delivering connection shared ps) (hp : ps[index]? = some p)
    (hallowed : (taskProtocol listener).allows p c)
    (hanswer : Service.answer vfs shared c = some (r, shared')) :
    Delivering connection shared' (ps.set index ((taskProtocol listener).next p c r)) := by
  cases c with
  | server c =>
    have hconnections := connections_answerServer hanswer
    have hkeep (p' : Phase H I J) (hincoming : p'.incoming = p.incoming)
        (hsent : p'.sent = p.sent) : Delivering connection shared' (ps.set index p') := by
      refine h.set hp hincoming (by rw [hconnections]) fun rest c' hrest hc' => ?_
      rw [hconnections] at hc'
      have hsame : sentOn connection p' = sentOn connection p := by
        rw [sentOn, sentOn, hincoming, hsent]
      rw [hsame]
      exact (h.delivers c' hc').perm hrest
    cases (r : Option c.Reply) with
    | none => exact hkeep _ rfl rfl
    | some r => exact hkeep _ rfl rfl
  | send connection' message =>
    obtain ⟨rfl, -, hnone, -⟩ := hallowed
    cases hanswer
    refine h.set hp rfl (List.length_modify ..) fun rest c' hrest hc' => ?_
    rw [List.getElem?_modify] at hc'
    have hbefore : sentOn connection p = none := by
      unfold sentOn
      split_ifs
      · exact hnone
      · rfl
    rw [hbefore] at hrest
    by_cases heq : p.incoming.connection = connection
    · obtain ⟨c, hc, rfl⟩ := Option.map_eq_some_iff.mp hc'
      have hafter : sentOn connection ((taskProtocol listener).next p
          (.send p.incoming.connection message) ()) = some message := if_pos heq
      rw [hafter, if_pos heq]
      exact ((h.delivers c hc).send message).perm (hrest.cons message)
    · obtain ⟨c, hc, rfl⟩ := Option.map_eq_some_iff.mp hc'
      have hafter : sentOn connection ((taskProtocol listener).next p
          (.send p.incoming.connection message) ()) = none := if_neg heq
      rw [hafter, if_neg heq]
      exact (h.delivers c hc).perm hrest

omit [FileHandle H] in
/-- Tasks that start have not sent anything. -/
theorem filterMap_sentOn_start (connection : ℕ) (arrived : List Incoming) :
    (ps ++ arrived.map Phase.start).filterMap (sentOn connection) =
      ps.filterMap (sentOn connection) := by
  have hnil : (arrived.map Phase.start).filterMap (sentOn (H := H) (I := I) (J := J) connection) =
      [] := by
    refine List.filterMap_eq_nil_iff.mpr fun p hp => ?_
    obtain ⟨a, -, rfl⟩ := List.mem_map.mp hp
    unfold sentOn
    split_ifs <;> rfl
  rw [List.filterMap_append, hnil, List.append_nil]

omit [FileHandle H] in
theorem map_incoming_start (arrived : List Incoming) :
    (ps ++ arrived.map Phase.start).map Phase.incoming = ps.map Phase.incoming ++ arrived := by
  simp [Phase.start, Function.comp_def]

omit [FileHandle H] in
/-- Something happens to one of the connections, and `arrived` with it. -/
theorem Delivering.update {i : ℕ} {c c' : Connection} {arrived : List Incoming}
    (h : Delivering connection shared ps) (hc : shared.connections[i]? = some c)
    (hconnections : shared'.connections = shared.connections.set i c')
    (harrived : ∀ a ∈ arrived, a.connection = i)
    (hdelivers : i = connection → ∀ incoming sent, Delivers connection c incoming sent →
      Delivers connection c' (incoming ++ arrived) sent) :
    Delivering connection shared' (ps ++ arrived.map Phase.start) := by
  obtain ⟨hlt, -⟩ := List.getElem?_eq_some_iff.mp hc
  refine ⟨fun p hp => ?_, fun d hd => ?_⟩
  · rw [hconnections, List.length_set]
    rcases List.mem_append.mp hp with hp | hp
    · exact h.accepted p hp
    · obtain ⟨a, ha, rfl⟩ := List.mem_map.mp hp
      rw [Phase.start, harrived a ha]
      exact hlt
  · rw [filterMap_sentOn_start, map_incoming_start]
    rw [hconnections] at hd
    by_cases hi : i = connection
    · subst hi
      rw [List.getElem?_set_self hlt] at hd
      cases hd
      exact hdelivers rfl _ _ (h.delivers c hc)
    · rw [List.getElem?_set_ne hi] at hd
      have hnil : arrived.filter (fun a => a.connection = connection) = [] := by
        refine List.filter_eq_nil_iff.mpr fun a ha => ?_
        simp [harrived a ha, hi]
      obtain ⟨hread, hreplies⟩ := h.delivers d hd
      refine ⟨?_, hreplies⟩
      rwa [messagesOn, List.filter_append, hnil, List.append_nil]

omit [FileHandle H] in
theorem Delivering.accept (h : Delivering connection shared ps) {clientAddr : String}
    (hconnections : shared'.connections = shared.connections ++ [.new clientAddr]) :
    Delivering connection shared' ps := by
  refine ⟨fun p hp => ?_, fun d hd => ?_⟩
  · rw [hconnections, List.length_append]
    exact Nat.lt_add_right _ (h.accepted p hp)
  · rw [hconnections] at hd
    by_cases hlt : connection < shared.connections.length
    · rw [List.getElem?_append_left hlt] at hd
      exact h.delivers d hd
    · -- nothing has arrived yet on a connection that was not accepted before
      have hnone : ∀ p ∈ ps, ¬ p.incoming.connection = connection := by
        intro p hp heq
        exact hlt (heq ▸ h.accepted p hp)
      have hd : d = .new clientAddr := by
        rw [List.getElem?_append_right (Nat.le_of_not_lt hlt)] at hd
        exact List.mem_singleton.mp (List.mem_of_getElem? hd)
      have hsent : ps.filterMap (sentOn connection) = [] :=
        List.filterMap_eq_nil_iff.mpr fun p hp => if_neg (hnone p hp)
      have hmessages : messagesOn connection (ps.map Phase.incoming) = [] := by
        have hnil : (ps.map Phase.incoming).filter (fun a => a.connection = connection) = [] := by
          refine List.filter_eq_nil_iff.mpr fun a ha => ?_
          obtain ⟨p, hp, rfl⟩ := List.mem_map.mp ha
          simp [hnone p hp]
        rw [messagesOn, hnil, List.map_nil]
      rw [hd, hsent]
      exact .new clientAddr hmessages

/-- Writes to the socket of the connection do not fail. -/
def Event.Writes (connection : ℕ) (event : Event) : Prop :=
  ∀ written, event ≠ .reply connection (some written)

omit [FileHandle H] in
theorem Delivering.perform {event : Event} {incoming : Option Incoming}
    (h : Delivering connection shared ps) (hevent : event.Writes connection)
    (hperform : shared.perform event = some (shared', incoming)) :
    Delivering connection shared' (ps ++ incoming.toList.map Phase.start) := by
  have hsame (hconnections : shared'.connections = shared.connections) :
      Delivering connection shared' (ps ++ ([] : List Incoming).map Phase.start) := by
    rw [List.map_nil, List.append_nil]
    exact ⟨hconnections ▸ h.accepted, hconnections ▸ h.delivers⟩
  have hupdate {i : ℕ} {f : Connection → Option Connection}
      (hf : i = connection → ∀ c c' incoming sent, f c = some c' →
        Delivers connection c incoming sent → Delivers connection c' incoming sent)
      (hmap : (shared.update i f).map (fun s => (s, (none : Option Incoming))) =
        some (shared', incoming)) :
      Delivering connection shared' (ps ++ incoming.toList.map Phase.start) := by
    obtain ⟨s, hs, hr⟩ := Option.map_eq_some_iff.mp hmap
    cases hr
    obtain ⟨c, hc, hs⟩ := Option.bind_eq_some_iff.mp hs
    obtain ⟨c', hc', hs⟩ := Option.bind_eq_some_iff.mp hs
    cases hs
    have harrived : ∀ a ∈ ([] : List Incoming), a.connection = i := by simp
    refine h.update hc rfl harrived fun hi incoming sent hd => ?_
    rw [Option.toList_none, List.append_nil]
    exact hf hi c c' incoming sent hc' hd
  cases event with
  | accept clientAddr =>
    cases hperform
    rw [Option.toList_none, List.map_nil, List.append_nil]
    exact h.accept rfl
  | receive i bytes => exact hupdate (fun _ _ _ _ _ hc hd => hd.receive hc) hperform
  | reply i written =>
    refine hupdate (fun hi c c' _ _ hc hd => ?_) hperform
    subst hi
    cases written with
    | none => exact hd.reply hc
    | some written => exact absurd rfl (hevent written)
  | close i =>
    refine hupdate (fun _ c c' _ _ hc hd => ?_) hperform
    cases hc
    exact hd.close
  | read i =>
    obtain ⟨c, hc, hperform⟩ := Option.bind_eq_some_iff.mp hperform
    obtain ⟨⟨message, c'⟩, hread, hperform⟩ := Option.bind_eq_some_iff.mp hperform
    cases hperform
    refine h.update hc rfl ?_ fun hi incoming sent hd => ?_
    · intro a ha
      cases message with
      | none => cases ha
      | some message =>
        cases List.mem_singleton.mp ha
        rfl
    · subst hi
      have hnext := hd.read hread c'.clientAddr
      cases message with
      | none => exact hnext
      | some message => exact hnext
  | clock elapsed =>
    cases hperform
    exact hsame rfl
  | cleanup | cleanupClient clientAddr =>
    obtain ⟨tracker, -, hr⟩ := Option.map_eq_some_iff.mp hperform
    cases hr
    exact hsame rfl
  | task index => cases hperform

theorem Delivering.stepped {event : Event} {ps' : List (Phase H I J)}
    (h : Delivering connection shared ps) (hevent : event.Writes connection)
    (hstep : Stepped listener vfs shared ps event shared' ps') :
    Delivering connection shared' ps' := by
  cases hstep with
  | task phase allowed answered => exact h.task phase allowed answered
  | other performed => exact h.perform hevent performed

/-! ## Replies of the tasks -/

/-- What was sent, once the task is done. -/
def outcome (t : MessageTask H I J) : Option SocketMessage :=
  t.result.bind fun r => r.bind socketMessage

/-- The replies of the tasks of a connection that are done. -/
def answersOn (connection : ℕ) (tasks : List (MessageTask H I J)) : List SocketMessage :=
  (tasks.filter fun t => t.origin.connection = connection).filterMap outcome

theorem sent_phaseOf {t : MessageTask H I J}
    (h : t.rest.Follows (taskProtocol listener) (Phase.Ended listener t.origin)
      (phaseOf listener t)) (htotal : t.rest.Total) :
    (phaseOf listener t).sent = outcome t := by
  unfold outcome Task.result
  cases hrest : t.rest with
  | ret result =>
    rw [hrest] at h
    exact h.sent_eq
  | halt =>
    rw [hrest] at htotal
    cases htotal
  | ask c next =>
    rw [hrest] at h
    cases c with
    | server c => exact h.1.2
    | send connection message => exact h.1.2.2.1

omit [FileHandle H] in
theorem total_unwind {α : Type} (held : Option Tracker.TransactionLock) (m : ServerM H I J α) :
    (unwind held m).Total := by
  have hrelease (held : Option Tracker.TransactionLock) :
      (release held : SocketM H I J (Option α)).Total := by
    cases held with
    | none => trivial
    | some lock => exact fun _ => trivial
  induction m generalizing held with
  | ret a => trivial
  | halt => exact hrelease held
  | ask c next ih =>
    rw [unwind]
    intro r
    cases (r : Option c.Reply) with
    | none => exact hrelease held
    | some r => exact ih r _

theorem total_task (listener : NFSTcpListener) (incoming : Incoming) :
    (listener.task incoming : SocketM H I J _).Total := by
  refine (total_unwind none _).bind fun result => ?_
  cases result.bind socketMessage with
  | none => trivial
  | some message => exact fun _ => trivial

/-- No task of the server halts: panics are caught. -/
theorem total_of_run {fs : σ} {events : List Event} {s : Server H I J σ}
    (hrun : Transition.run (Server.step listener vfs) (Server.init fs) events = some s) :
    ∀ t ∈ s.tasks, t.rest.Total := by
  have hstep : ∀ (s : Server H I J σ) event s', (∀ t ∈ s.tasks, t.rest.Total) → True →
      s.step listener vfs event = some s' → ∀ t ∈ s'.tasks, t.rest.Total := by
    intro s event s' hs _ hstep
    rcases step_cases hstep with ⟨index, -, hturn⟩ | ⟨shared, incoming, -, rfl⟩
    · exact Pool.turn_total (total_task listener) hs hturn
    · intro t ht
      rcases List.mem_append.mp ht with ht | ht
      · exact hs t ht
      · obtain ⟨incoming, -, rfl⟩ := List.mem_map.mp ht
        exact total_task listener incoming
  have hinit : ∀ t ∈ (Server.init fs : Server H I J σ).tasks, t.rest.Total := by
    intro t ht
    cases ht
  exact Transition.run_invariant hstep hinit (Transition.along_of_forall fun _ _ => trivial) hrun

/-- Whatever clients, tasks and clock do: the messages of a connection are handled in the order in
which they came, each by a task of its own; the replies in the channel and on the socket are those
of the tasks that are done, as long as the connection is open; and each of these results is what
became of its message. -/
theorem replies_delivered (listener : NFSTcpListener)
    (vfs : σ → (c : VfsCall H I J) → Option (Option c.Reply × σ)) (fs : σ) (connection : ℕ)
    (events : List Event) (hevents : ∀ event ∈ events, event.Writes connection)
    (s : Server H I J σ)
    (hrun : Transition.run (Server.step listener vfs) (Server.init fs) events = some s) :
    (∀ c, s.shared.connections[connection]? = some c →
      Delivers connection c (s.tasks.map Task.origin) (answersOn connection s.tasks)) ∧
    ∀ t ∈ s.tasks, ∀ result, t.result = some (some result) →
      Concluded listener t.origin (askedIn t.history) result := by
  have htotal := total_of_run hrun
  have hinit : Delivering connection (.init fs) ([] : List (Phase H I J)) := by
    refine ⟨by simp, fun c hc => ?_⟩
    cases hc
  obtain ⟨htrack, hdelivering⟩ := run_phases hinit
    (fun _ _ _ _ _ h hevent hstep => h.stepped hevent hstep) hevents hrun
  refine ⟨fun c hc => ?_, fun t ht result hresult => ?_⟩
  · have hdelivers := hdelivering.delivers c hc
    have hsent : (phases listener s).filterMap (sentOn connection) =
        answersOn connection s.tasks := by
      rw [phases_eq, List.filterMap_map, answersOn, List.filterMap_filter]
      refine List.filterMap_congr fun t ht => ?_
      have hsame := sent_phaseOf (htrack t ht) (htotal t ht)
      simp [sentOn, incoming_phaseOf, hsame]
    rwa [incoming_phases, hsent] at hdelivers
  · exact htrack.concluded ht (Task.result_eq_some.mp hresult)

end Server

/-- A NULL call with the xid 9 arrives in two parts and is answered. -/
def nullExchange : List Event :=
  let call : Bytes :=
    [0, 0, 0, 9, 0, 0, 0, 0, 0, 0, 0, 2, 0, 1, 134, 163, 0, 0, 0, 3] ++ List.replicate 20 0
  let fragment := RpcWire.fragmentBytes true call
  [.accept "a", .receive 0 (fragment.take 17), .receive 0 (fragment.drop 17), .read 0, .task 0,
    .task 0, .task 0, .reply 0 none]

theorem replies_delivered_null :
    ∃ s c, Transition.run (Server.step ⟨2049, false, "/", ⟨0⟩⟩ silentVfs) (Server.init ())
        nullExchange = some s ∧
      s.shared.connections[0]? = some c ∧
      c.socket = [128, 0, 0, 24, 0, 0, 0, 9, 0, 0, 0, 1] ++ List.replicate 16 0 ∧
      Delivers 0 c (s.tasks.map Task.origin) (answersOn 0 s.tasks) := by
  have hrun : (Transition.run (Server.step ⟨2049, false, "/", ⟨0⟩⟩ silentVfs) (Server.init ())
      nullExchange).map (fun s => s.shared.connections.map Connection.socket) =
        some [[128, 0, 0, 24, 0, 0, 0, 9, 0, 0, 0, 1] ++ List.replicate 16 0] := by
    decide +kernel
  obtain ⟨s, hs, hconnections⟩ := Option.map_eq_some_iff.mp hrun
  obtain ⟨c, hc, hsocket⟩ := List.map_eq_singleton_iff.mp hconnections
  have hget : s.shared.connections[0]? = some c := by rw [hc, List.getElem?_cons_zero]
  have hwrites : ∀ event ∈ nullExchange, event.Writes 0 := by
    simp [nullExchange, Event.Writes]
  obtain ⟨hdelivers, -⟩ := replies_delivered _ _ () 0 nullExchange hwrites s hs
  exact ⟨s, c, hs, hget, hsocket, hdelivers c hget⟩

end Nfs3.Tcp
