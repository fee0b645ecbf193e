import Nfs3.Server.RequestsSound

/-!
# What the requests of the server do to the file system

Every task of the server has gone a part of the way of its message, so what holds along that way
holds in every run, however the tasks take turns.
-/
namespace Nfs3.Tcp

open ByteOrder (Bytes)
open Interaction Prog
open Tracker (TransactionLock)

/-! ## Tasks under way -/

section UnderWay

variable {H I J α : Type}

/-- The calls of a task to the file system that were answered. -/
def callsIn (h : History (SocketCall H I J) SocketCall.Reply) :
    History (VfsCall H I J) VfsCall.Reply :=
  vfsIn (askedIn h)

theorem release_leads {held : Option TransactionLock}
    {h : History (SocketCall H I J) SocketCall.Reply} {m : SocketM H I J (Option α)}
    (hl : (release held).Leads h m) : callsIn h = [] := by
  cases held with
  | none =>
    cases hl
    rfl
  | some lock =>
    cases hl with
    | refl => rfl
    | @ask _ _ r _ _ hl =>
      cases hl
      cases (r : Option Unit) <;> rfl

theorem unwind_leads {m : ServerM H I J α} {held : Option TransactionLock}
    {h : History (SocketCall H I J) SocketCall.Reply} {m' : SocketM H I J (Option α)}
    (hl : (unwind held m).Leads h m') : ∃ t m₁, m.Leads t m₁ ∧ callsIn h = vfsIn t := by
  induction m generalizing held h with
  | ret a =>
    cases hl
    exact ⟨[], .ret a, .refl _, rfl⟩
  | halt => exact ⟨[], .halt, .refl _, release_leads hl⟩
  | ask c next ih =>
    rw [unwind] at hl
    cases hl with
    | refl => exact ⟨[], .ask c next, .refl _, rfl⟩
    | @ask _ _ r _ _ hl =>
      cases r with
      | none =>
        have hcalls := release_leads hl
        exact ⟨[], .ask c next, .refl _, hcalls⟩
      | some r =>
        obtain ⟨t, m₁, hm₁, hcalls⟩ := ih r hl
        refine ⟨⟨c, r⟩ :: t, m₁, .ask hm₁, ?_⟩
        have hcons (u : History (ServerCall H I J) ServerCall.Reply) :
            vfsIn (⟨c, r⟩ :: u) = vfsIn [⟨c, r⟩] ++ vfsIn u :=
          vfsIn_append [⟨c, r⟩] u
        exact (hcons _).trans ((congrArg _ hcalls).trans (hcons t).symm)

theorem send_leads {connection : ℕ} {message : Option SocketMessage} {a : α}
    {h : History (SocketCall H I J) SocketCall.Reply} {m : SocketM H I J α}
    (hl : ((send connection message).bind fun _ => .ret a).Leads h m) : callsIn h = [] := by
  cases message with
  | none =>
    cases hl
    rfl
  | some message =>
    cases hl with
    | refl => rfl
    | ask hl =>
      cases hl
      rfl

variable [FileHandle H] {listener : NFSTcpListener} {incoming : Incoming}

theorem task_leads {h : History (SocketCall H I J) SocketCall.Reply}
    {m : SocketM H I J (Option (Except RpcError HandleResult))}
    (hl : (listener.task incoming).Leads h m) :
    ∃ t m₁, (handleRpcMessage (listener.context incoming.clientAddr) incoming.message).Leads t m₁ ∧
      callsIn h = vfsIn t := by
  rcases hl.bind_cases with ⟨m', hm', rfl⟩ | ⟨h₁, result, h₂, hresult, hsend, rfl⟩
  · exact unwind_leads hm'
  · obtain ⟨t, m₁, hm₁, hcalls⟩ := unwind_leads hresult.leads
    refine ⟨t, m₁, hm₁, ?_⟩
    have happend : askedIn (h₁ ++ h₂) = askedIn h₁ ++ askedIn h₂ := List.filterMap_append
    rw [callsIn, happend, vfsIn_append]
    change callsIn h₁ ++ callsIn h₂ = vfsIn t
    rw [hcalls, send_leads hsend, List.append_nil]

end UnderWay

/-! ## Runs -/

section Runs

variable {H I J σ : Type} [FileHandle H] {listener : NFSTcpListener}
  {vfs : σ → (c : VfsCall H I J) → Option (Option c.Reply × σ)}

theorem underWay_step {s s' : Server H I J σ} {event : Event} (hs : s.UnderWay listener.task)
    (hstep : s.step listener vfs event = some s') : s'.UnderWay listener.task := by
  rcases step_cases hstep with ⟨index, rfl, hturn⟩ | ⟨shared, incoming, hperform, rfl⟩
  · exact hs.turned hturn
  · intro t ht
    rcases List.mem_append.mp ht with ht | ht
    · exact hs t ht
    · obtain ⟨incoming, -, rfl⟩ := List.mem_map.mp ht
      exact .refl _

theorem underWay_of_run {fs : σ} {events : List Event} {s : Server H I J σ}
    (hrun : Transition.run (Server.step listener vfs) (Server.init fs) events = some s) :
    s.UnderWay listener.task := by
  have hstart : (Server.init fs : Server H I J σ).UnderWay listener.task := by
    intro t ht
    cases ht
  have hstep : ∀ (s : Server H I J σ) event s', s.UnderWay listener.task → True →
      s.step listener vfs event = some s' → s'.UnderWay listener.task :=
    fun s event s' hs _ h => underWay_step hs h
  have halways : Transition.Along (Server.step listener vfs) (fun _ _ => True) (Server.init fs)
      events := Transition.along_of_forall fun _ _ => trivial
  exact Transition.run_invariant hstep hstart halways hrun

variable {fs : σ} {events : List Event} {s : Server H I J σ}
  {t : MessageTask H I J} {t₁ t₂ : History (VfsCall H I J) VfsCall.Reply}

theorem calls_allowed
    (hrun : Transition.run (Server.step listener vfs) (Server.init fs) events = some s)
    (ht : t ∈ s.tasks) {c : VfsCall H I J} {r : c.Reply}
    (hcalls : callsIn t.history = t₁ ++ ⟨c, r⟩ :: t₂) :
    (footprint t₁).Allows (PresentedIn I J listener.fileHandleConverter t.origin.message) c := by
  obtain ⟨u, m, hm, hu⟩ := task_leads (underWay_of_run hrun t ht)
  have halong := message_along (H := H) (I := I) (J := J)
    (listener.context t.origin.clientAddr) t.origin.message
  obtain ⟨u₁, u₂, rfl, rfl⟩ := vfsIn_split (hu.symm.trans hcalls)
  exact halong.asked hm (fun _ _ => trivial) rfl c rfl

/-- What became of the message of a task; `Q` holds if a procedure ran. -/
def Outcome (listener : NFSTcpListener) (t : MessageTask H I J)
    (result : Except RpcError HandleResult) (Q : ServedProp H I J) : Prop :=
  Answered (listener.context t.origin.clientAddr) t.origin.message (Served t.origin.message Q)
    (askedIn t.history) result

/-- Every task that is done failed a check or has answered with a sound result. -/
theorem outcome_sound
    (hrun : Transition.run (Server.step listener vfs) (Server.init fs) events = some s)
    (ht : t ∈ s.tasks) {result : Except RpcError HandleResult}
    (hrest : t.rest = .ret (some result)) :
    Outcome listener t result fun sig a r calls => calls = callsIn t.history ∧
      sig.Sound listener.fileHandleConverter a r (footprint calls) := by
  obtain ⟨htrack, -⟩ := @run_phases _ _ _ _ _ listener vfs (fun _ _ => True) (fun _ => True) fs
    trivial (fun _ _ _ _ _ _ _ _ => trivial) events (fun _ _ => trivial) s hrun
  exact (htrack.concluded ht hrest).sound

end Runs

/-! ## Two calls -/

/-- A file system that counts the directories made in it, which are all empty. -/
def countingVfs (made : ℕ) (c : VfsCall FileHandleU64 Unit Unit) : Option (Option c.Reply × ℕ) :=
  let attr : Fattr3 :=
    ⟨.nf3dir, 0o755, 2, 0, 0, 0, 0, ⟨0, 0⟩, 0, 1, ⟨0, 0⟩, ⟨0, 0⟩, ⟨0, 0⟩⟩
  match c with
  | .capabilities => some (some VFSCapabilities.readWrite, made)
  | .getattr _ => some (some (.ok attr), made)
  | .mkdir .. => some (some (.ok (2, attr)), made + 1)
  | .readdir .. => some (some (.ok ()), made)
  | .readdirNext _ => some (some (.eof, ()), made)
  | .readdirDrop _ => some (some (), made)
  | _ => some (none, made)

/-- The head of a call of an NFS procedure with the xid 9, and the handle of the root. -/
def callOnRoot (proc : UInt8) : Bytes :=
  [0, 0, 0, 9, 0, 0, 0, 0, 0, 0, 0, 2, 0, 1, 134, 163, 0, 0, 0, 3, 0, 0, 0, proc] ++
    List.replicate 16 0 ++ [0, 0, 0, 16] ++ List.replicate 8 0 ++ [1] ++ List.replicate 7 0

/-- MKDIR of `d`. -/
def mkdirCall : Bytes := callOnRoot 9 ++ [0, 0, 0, 1, 100, 0, 0, 0] ++ List.replicate 24 0

/-- READDIR from the start on. -/
def readdirCall : Bytes := callOnRoot 16 ++ List.replicate 16 0 ++ [0, 0, 4, 0]

/-- The call arrives, and its task takes seven turns: the lock, four calls to the file system, the
lock again and the reply. -/
def served (call : Bytes) : List Event :=
  [.accept "a", .receive 0 (RpcWire.fragmentBytes true call), .read 0] ++
    List.replicate 7 (.task 0)

/-- The calls of each task, whether they change something, and whether the task has a result. -/
def progress (s : Server FileHandleU64 Unit Unit ℕ) : List (List Bool × Bool) :=
  s.tasks.map fun t => ((callsIn t.history).map fun e => e.1.mutating, t.result.join.isSome)

theorem exists_of_progress {s : Server FileHandleU64 Unit Unit ℕ} {changed : List Bool}
    (h : progress s = [(changed, true)]) :
    ∃ t ∈ s.tasks, ∃ result, t.rest = .ret (some result) ∧
      (callsIn t.history).map (fun e => e.1.mutating) = changed := by
  obtain ⟨t, ht, hprogress⟩ := List.map_eq_singleton_iff.mp h
  obtain ⟨hchanged, hsome⟩ := Prod.mk.inj hprogress
  obtain ⟨result, hresult⟩ := Option.isSome_iff_exists.mp hsome
  refine ⟨t, ?_, result, Task.result_eq_some.mp (Option.join_eq_some_iff.mp hresult), hchanged⟩
  rw [ht]
  exact List.mem_singleton_self t

theorem mkdir_progress :
    (Transition.run (Server.step ⟨2049, false, "/", ⟨0⟩⟩ countingVfs) (Server.init 0)
      (served mkdirCall)).map progress = some [([false, false, true, false], true)] := by
  decide +kernel

theorem readdir_progress :
    (Transition.run (Server.step ⟨2049, false, "/", ⟨0⟩⟩ countingVfs) (Server.init 0)
      (served readdirCall)).map progress = some [([false, false, false, false], true)] := by
  decide +kernel

/-! ## Requests -/

section Requests

variable {H I J σ : Type} [FileHandle H]

/-- A request works on handles of its own only: each one that it passes to the file system stands
for one of its arguments or was in an earlier answer, and each one that it gives away was in an
answer. -/
theorem handles_accounted (listener : NFSTcpListener)
    (vfs : σ → (c : VfsCall H I J) → Option (Option c.Reply × σ)) (fs : σ) (events : List Event)
    (s : Server H I J σ)
    (hrun : Transition.run (Server.step listener vfs) (Server.init fs) events = some s)
    (t : MessageTask H I J) (ht : t ∈ s.tasks) :
    (∀ t₁ (c : VfsCall H I J) (r : c.Reply) t₂, callsIn t.history = t₁ ++ ⟨c, r⟩ :: t₂ →
      ∀ id ∈ c.handles, PresentedIn I J listener.fileHandleConverter t.origin.message id ∨
        ∃ e ∈ t₁, id ∈ e.1.found e.2) ∧
    ∀ result, t.rest = .ret (some result) → Outcome listener t result fun sig _ r calls =>
      ∀ fh ∈ sig.granted r, ∃ e ∈ calls, ∃ id ∈ e.1.found e.2,
        fh = listener.fileHandleConverter.fhToNfs id := by
  constructor
  · intro t₁ c r t₂ hcalls id hid
    rcases (calls_allowed hrun ht hcalls).handles id hid with hid | hid
    · exact .inl hid
    · rw [footprint_found] at hid
      exact .inr (List.mem_flatMap.mp hid)
  · intro result hrest
    refine (outcome_sound hrun ht hrest).mono fun sig a r calls ⟨_, hsound⟩ fh hfh => ?_
    obtain ⟨id, hid, hsame⟩ := hsound.granted fh hfh
    rw [footprint_found] at hid
    obtain ⟨e, he, hid⟩ := List.mem_flatMap.mp hid
    exact ⟨e, he, id, hid, hsame⟩

theorem handles_accounted_mkdir :
    ∃ s, Transition.run (Server.step ⟨2049, false, "/", ⟨0⟩⟩ countingVfs) (Server.init 0)
        (served mkdirCall) = some s ∧
      ∃ t ∈ s.tasks, ∃ result, t.rest = .ret (some result) ∧
        (callsIn t.history).map (fun e => e.1.mutating) = [false, false, true, false] ∧
        Outcome ⟨2049, false, "/", ⟨0⟩⟩ t result fun sig _ r calls =>
          ∀ fh ∈ sig.granted r, ∃ e ∈ calls, ∃ id ∈ e.1.found e.2,
            fh = (⟨0⟩ : FileHandleConverter).fhToNfs id := by
  obtain ⟨s, hs, hprogress⟩ := Option.map_eq_some_iff.mp mkdir_progress
  obtain ⟨t, ht, result, hrest, hchanged⟩ := exists_of_progress hprogress
  obtain ⟨-, hgranted⟩ := handles_accounted _ countingVfs 0 _ s hs t ht
  exact ⟨s, hs, t, ht, result, hrest, hchanged, hgranted result hrest⟩

/-- A request opens one iterator at most, reads the one that the last answer left, and drops it
before it replies. -/
theorem iterators_linear (listener : NFSTcpListener)
    (vfs : σ → (c : VfsCall H I J) → Option (Option c.Reply × σ)) (fs : σ) (events : List Event)
    (s : Server H I J σ)
    (hrun : Transition.run (Server.step listener vfs) (Server.init fs) events = some s)
    (t : MessageTask H I J) (ht : t ∈ s.tasks) :
    (∀ t₁ (c : VfsCall H I J) (r : c.Reply) t₂, callsIn t.history = t₁ ++ ⟨c, r⟩ :: t₂ →
      (footprint t₁).listing.Allows c) ∧
    ∀ result, t.rest = .ret (some result) → (footprint (callsIn t.history)).listing.Closed := by
  constructor
  · intro t₁ c r t₂ hcalls
    exact (calls_allowed hrun ht hcalls).listing
  · intro result hrest
    rcases (outcome_sound hrun ht hrest).calls with hcalls | ⟨p, sig, a, r, -, hsound⟩
    · rw [callsIn, hcalls]
      trivial
    · exact hsound.closed

theorem iterators_linear_readdir :
    ∃ s, Transition.run (Server.step ⟨2049, false, "/", ⟨0⟩⟩ countingVfs) (Server.init 0)
        (served readdirCall) = some s ∧
      ∃ t ∈ s.tasks, (callsIn t.history).length = 4 ∧
        (footprint (callsIn t.history)).listing.Closed := by
  obtain ⟨s, hs, hprogress⟩ := Option.map_eq_some_iff.mp readdir_progress
  obtain ⟨t, ht, result, hrest, hchanged⟩ := exists_of_progress hprogress
  have hlength := congrArg List.length hchanged
  rw [List.length_map] at hlength
  obtain ⟨-, hclosed⟩ := iterators_linear _ countingVfs 0 _ s hs t ht
  exact ⟨s, hs, t, ht, hlength, hclosed result hrest⟩

end Requests

end Nfs3.Tcp
