import Nfs3.Client.Rpc

/-!
# Reading a reply from a connection

The client reads through `AsyncRead`: a read puts some bytes at the front of a buffer, and
`async_read_exact` repeats it until the buffer is full. A connection that was closed has no more
bytes to give and says so by a read of no bytes, which the loop does not tell from progress.
Whatever returns at all, returns what `RpcClient.recvReply` says of the bytes of the connection.
-/
namespace Nfs3

open ByteOrder ByteCodec

/-- `std::io::Error`, of which nothing is read. -/
abbrev IoError := Unit

/-- A read into a buffer of the given length: the bytes it put at the front of the buffer. -/
class AsyncRead (S : Type) where
  asyncRead : S → ℕ → Except IoError Bytes × S

/-- How a call of the client ends. It is `pending` while the reads it was allowed do not suffice. -/
inductive Outcome (α : Type)
  | returned (a : α)
  | panicked
  | pending
  deriving DecidableEq

namespace Outcome

def map {α β : Type} (f : α → β) : Outcome α → Outcome β
  | returned a => .returned (f a)
  | panicked => .panicked
  | pending => .pending

@[simp] theorem map_eq_pending {α β : Type} {f : α → β} {o : Outcome α} :
    o.map f = .pending ↔ o = .pending := by
  cases o with
  | returned a => simp [map]
  | panicked => simp [map]
  | pending => simp [map]

end Outcome

namespace AsyncRead

variable {S : Type} [AsyncRead S]

/-- `async_read_exact` into a buffer of the given length, with at most `fuel` reads. -/
def asyncReadExact : ℕ → S → ℕ → Outcome (Except IoError Bytes × S)
  | _, s, 0 => .returned (.ok [], s)
  | 0, _, _ + 1 => .pending
  | fuel + 1, s, len + 1 =>
    match asyncRead s (len + 1) with
    | (.error e, s) => .returned (.error e, s)
    | (.ok bytes, s) =>
      -- `&mut buf[n..]`
      if bytes.length ≤ len + 1 then
        (asyncReadExact fuel s (len + 1 - bytes.length)).map fun (r, s) => (r.map (bytes ++ ·), s)
      else .panicked

/-- `RpcClient::recv_reply`, with at most `fuel` reads for each buffer. -/
def recvReply {R : Type} [XdrCodec R] (fuel : ℕ) (s : S) (xid : UInt32) :
    Outcome (Except ClientError R × S) :=
  match asyncReadExact fuel s 4 with
  | .pending => .pending
  | .panicked => .panicked
  | .returned (.error _, s) => .returned (.error .io, s)
  | .returned (.ok buf, s) =>
    let fragmentHeader := FragmentHeader.ofBytes buf
    if fragmentHeader.eof then
      match asyncReadExact fuel s fragmentHeader.fragmentLength.toNat with
      | .pending => .pending
      | .panicked => .panicked
      | .returned (.error _, s) => .returned (.error .io, s)
      | .returned (.ok buf, s) => .returned (RpcClient.parseReply xid buf, s)
    else .panicked

end AsyncRead

/-! ## Sources that end -/

/-- A source of bytes that ends: as long as it holds bytes a read takes some of them, at most as
many as the buffer has room for, and then every read takes none. -/
class ByteSource (S : Type) extends AsyncRead S where
  data : S → Bytes
  read_some : ∀ (s : S) (len : ℕ), 0 < len → ∃ bytes s', asyncRead s len = (.ok bytes, s') ∧
    data s = bytes ++ data s' ∧ bytes.length ≤ len ∧ (data s ≠ [] → bytes ≠ [])

/-- A source as the chunks that it delivers, one for each read unless the buffer is smaller. -/
structure Chunks where
  chunks : List Bytes
  nonempty : ∀ chunk ∈ chunks, chunk ≠ []

namespace Chunks

def asyncRead (s : Chunks) (len : ℕ) : Bytes × Chunks :=
  match s with
  | ⟨[], h⟩ => ([], ⟨[], h⟩)
  | ⟨chunk :: chunks, h⟩ =>
    if hlen : len < chunk.length then
      (chunk.take len, ⟨chunk.drop len :: chunks, by
        intro c hc
        rcases List.mem_cons.mp hc with rfl | hc
        · simp [hlen]
        · exact h c (by simp [hc])⟩)
    else (chunk, ⟨chunks, fun c hc => h c (List.mem_cons_of_mem _ hc)⟩)

instance : ByteSource Chunks where
  asyncRead s len := (.ok (s.asyncRead len).1, (s.asyncRead len).2)
  data s := s.chunks.flatten
  read_some s len hlen := by
    refine ⟨_, _, rfl, ?_⟩
    rcases s with ⟨_ | ⟨chunk, chunks⟩, h⟩
    · simp [asyncRead]
    · have hchunk : chunk ≠ [] := h chunk List.mem_cons_self
      simp only [asyncRead]
      split_ifs with hshort
      · refine ⟨?_, ?_, fun _ => ?_⟩
        · simp [← List.append_assoc]
        · simp
        · simp [hchunk, hlen.ne']
      · refine ⟨?_, ?_, fun _ => hchunk⟩
        · simp
        · simpa using hshort

end Chunks

namespace ByteSource

open AsyncRead

variable {S : Type} [ByteSource S]

/-- A call that returns has filled the buffer with the first bytes of the source. -/
theorem asyncReadExact_cases (fuel : ℕ) (s : S) (n : ℕ) :
    asyncReadExact fuel s n = .pending ∨
      n ≤ (data s).length ∧ ∃ s', data s' = (data s).drop n ∧
        asyncReadExact fuel s n = .returned (.ok ((data s).take n), s') := by
  induction fuel generalizing s n with
  | zero =>
    cases n with
    | zero => simp [asyncReadExact]
    | succ n => simp [asyncReadExact]
  | succ fuel ih =>
    cases n with
    | zero => simp [asyncReadExact]
    | succ n =>
      obtain ⟨bytes, s₁, hread, hdata, hle, -⟩ := read_some s (n + 1) (by omega)
      have hlen : (data s).length = bytes.length + (data s₁).length := by simp [hdata]
      rcases ih s₁ (n + 1 - bytes.length) with hrest | ⟨hn, s', hdrop, hrest⟩
      · left
        simp [asyncReadExact, hread, hle, hrest, Outcome.map]
      · right
        refine ⟨by omega, s', ?_, ?_⟩
        · rw [hdrop, hdata, List.drop_append, List.drop_of_length_le hle, List.nil_append]
        · simp [asyncReadExact, hread, hle, hrest, Outcome.map, Except.map, hdata,
            List.take_append, List.take_of_length_le hle]

theorem asyncReadExact_of_le (fuel : ℕ) (s : S) (n : ℕ) (hfuel : n ≤ fuel)
    (hn : n ≤ (data s).length) : asyncReadExact fuel s n ≠ .pending := by
  induction fuel generalizing s n with
  | zero =>
    obtain rfl : n = 0 := by omega
    simp [asyncReadExact]
  | succ fuel ih =>
    cases n with
    | zero => simp [asyncReadExact]
    | succ n =>
      obtain ⟨bytes, s', hread, hdata, hle, hne⟩ := read_some s (n + 1) (by omega)
      have hpos : 0 < bytes.length := by
        apply List.length_pos_iff.mpr
        apply hne
        intro hnil
        simp [hnil] at hn
      have hlen : (data s).length = bytes.length + (data s').length := by simp [hdata]
      have hrest := ih s' (n + 1 - bytes.length) (by omega) (by omega)
      simpa [asyncReadExact, hread, hle] using hrest

theorem asyncReadExact_eq {fuel n : ℕ} {s : S} (hfuel : n ≤ fuel) (hn : n ≤ (data s).length) :
    ∃ s', data s' = (data s).drop n ∧
      asyncReadExact fuel s n = .returned (.ok ((data s).take n), s') := by
  rcases asyncReadExact_cases fuel s n with hpending | ⟨-, h⟩
  · exact absurd hpending (asyncReadExact_of_le fuel s n hfuel hn)
  · exact h

theorem asyncReadExact_of_lt (fuel : ℕ) {s : S} {n : ℕ} (hn : (data s).length < n) :
    asyncReadExact fuel s n = .pending := by
  rcases asyncReadExact_cases fuel s n with hpending | ⟨hle, -⟩
  · exact hpending
  · omega

/-- The call ends, well with the first `n` bytes where the source holds them and else with an
error. -/
def ReadsExactly (s : S) (n : ℕ) : Prop :=
  ∃ fuel r s', asyncReadExact fuel s n = .returned (r, s') ∧
    if n ≤ (data s).length then r = .ok ((data s).take n) ∧ data s' = (data s).drop n
    else ∃ e, r = .error e

theorem readsExactly_iff (s : S) (n : ℕ) : ReadsExactly s n ↔ n ≤ (data s).length := by
  constructor
  · rintro ⟨fuel, r, s', h, -⟩
    by_contra hshort
    rw [asyncReadExact_of_lt fuel (Nat.lt_of_not_le hshort)] at h
    cases h
  · intro hn
    obtain ⟨s', hdata, h⟩ := asyncReadExact_eq le_rfl hn
    exact ⟨n, _, s', h, by simp [hn, hdata]⟩

/-! ## Replies -/

section Replies

variable {R : Type} [XdrCodec R] {s : S} {xid : UInt32}

theorem readExact_of_le {n : ℕ} {b : Bytes} (h : n ≤ b.length) :
    readExact n b = .ok (b.take n, b.drop n) := by
  simp [readExact, h]

theorem readExact_of_lt {n : ℕ} {b : Bytes} (h : b.length < n) : readExact n b = .error .io := by
  simp [readExact, Nat.not_le.mpr h]

/-- A reply comes back, with enough reads, exactly where the bytes of the connection hold one. -/
theorem recvReply_returned_iff {r : Except ClientError R} {rest : Bytes} (sent : Bytes) :
    (∃ fuel s', recvReply fuel s xid = .returned (r, s') ∧ data s' = rest) ↔
      RpcClient.recvReply ⟨sent, data s⟩ xid = some (r, ⟨sent, rest⟩) := by
  constructor
  · rintro ⟨fuel, s', h, hrest⟩
    rcases asyncReadExact_cases fuel s 4 with hpending | ⟨hword, s₁, hdata₁, hread₁⟩
    · simp [recvReply, hpending] at h
    simp only [recvReply, hread₁] at h
    simp only [RpcClient.recvReply, readExact_of_le hword, RpcClient.recvFragment, ← hdata₁]
    generalize FragmentHeader.ofBytes ((data s).take 4) = header at h ⊢
    split_ifs at h ⊢ with heof
    rcases asyncReadExact_cases fuel s₁ header.fragmentLength.toNat
      with hpending | ⟨hlen, s₂, hdata₂, hread₂⟩
    · simp [hpending] at h
    simp only [hread₂, Outcome.returned.injEq, Prod.mk.injEq] at h
    obtain ⟨rfl, rfl⟩ := h
    simp [readExact_of_le hlen, ← hdata₂, hrest]
  · intro h
    by_cases hword : (data s).length < 4
    · simp [RpcClient.recvReply, readExact_of_lt hword] at h
    have hword : 4 ≤ (data s).length := by omega
    simp only [RpcClient.recvReply, readExact_of_le hword, RpcClient.recvFragment] at h
    generalize hheader : FragmentHeader.ofBytes ((data s).take 4) = header at h
    split_ifs at h with heof
    by_cases hlen : ((data s).drop 4).length < header.fragmentLength.toNat
    · simp [readExact_of_lt hlen] at h
    have hlen : header.fragmentLength.toNat ≤ ((data s).drop 4).length := by omega
    simp only [readExact_of_le hlen, Option.some.injEq, Prod.mk.injEq, Connection.mk.injEq,
      true_and] at h
    -- enough reads for either buffer
    obtain ⟨s₁, hdata₁, hread₁⟩ := asyncReadExact_eq (le_max_left 4 header.fragmentLength.toNat)
      hword
    rw [← hdata₁] at hlen h
    obtain ⟨s₂, hdata₂, hread₂⟩ := asyncReadExact_eq (le_max_right 4 header.fragmentLength.toNat)
      hlen
    refine ⟨max 4 header.fragmentLength.toNat, s₂, ?_, hdata₂.trans h.2⟩
    simp only [recvReply, hread₁, hheader, heof, if_true, hread₂, h.1]

/-! ## What the bytes of a connection begin with -/

theorem take_of_fragment {last : Bool} {frag tail incoming : Bytes}
    (h : incoming <+: RpcWire.fragmentBytes last frag ++ tail) (hword : 4 ≤ incoming.length) :
    incoming.take 4 = toBe 4 (frag.length + if last then 2 ^ 31 else 0) := by
  obtain ⟨more, hmore⟩ := h
  have htake : (incoming ++ more).take 4 = incoming.take 4 := List.take_append_of_le_length hword
  rw [← htake, hmore, RpcWire.fragmentBytes, List.append_assoc]
  apply List.take_left'
  simp

theorem recvReply_of_more {frag tail : Bytes} {io : Connection} (hfrag : frag.length < 2 ^ 31)
    (h : io.incoming <+: RpcWire.fragmentBytes false frag ++ tail) :
    (RpcClient.recvReply io xid : Option (Except ClientError R × Connection)) = none := by
  by_cases hword : io.incoming.length < 4
  · simp [RpcClient.recvReply, readExact_of_lt hword]
  have hword : 4 ≤ io.incoming.length := by omega
  have heof := (RpcWire.header_of_fragment false hfrag).2
  rw [← take_of_fragment h hword] at heof
  simp [RpcClient.recvReply, readExact_of_le hword, RpcClient.recvFragment, heof]

theorem recvReply_of_cut_last {frag : Bytes} {io : Connection} (hfrag : frag.length < 2 ^ 31)
    (h : io.incoming <+: RpcWire.fragmentBytes true frag)
    (hne : io.incoming ≠ RpcWire.fragmentBytes true frag) :
    (RpcClient.recvReply io xid : Option (Except ClientError R × Connection)) = none := by
  by_cases hword : io.incoming.length < 4
  · simp [RpcClient.recvReply, readExact_of_lt hword]
  have hword : 4 ≤ io.incoming.length := by omega
  have hshort : io.incoming.length < (RpcWire.fragmentBytes true frag).length := by
    apply lt_of_le_of_ne h.length_le
    intro hlen
    exact hne (h.eq_of_length hlen)
  have hheader := RpcWire.header_of_fragment true hfrag
  have hprefix : io.incoming <+: RpcWire.fragmentBytes true frag ++ [] := by simpa using h
  rw [← take_of_fragment hprefix hword] at hheader
  have hlen : (io.incoming.drop 4).length <
      (FragmentHeader.ofBytes (io.incoming.take 4)).fragmentLength.toNat := by
    simp only [hheader.1, RpcWire.fragmentBytes, List.length_append, length_toBe,
      List.length_drop] at hshort ⊢
    omega
  simp [RpcClient.recvReply, readExact_of_le hword, RpcClient.recvFragment, hheader.2,
    readExact_of_lt hlen]

theorem bytes_of_nil (record : RpcWire.Record) (h : record.fragments = []) :
    record.bytes = RpcWire.fragmentBytes true record.last := by
  simp only [RpcWire.Record.bytes, h, List.flatMap_nil, List.nil_append]

theorem bytes_of_cons {record : RpcWire.Record} {first : Bytes} {fragments : List Bytes}
    (h : record.fragments = first :: fragments) :
    ∃ tail, record.bytes = RpcWire.fragmentBytes false first ++ tail := by
  simp only [RpcWire.Record.bytes, h, List.flatMap_cons, List.append_assoc]
  exact ⟨_, rfl⟩

theorem recvReply_of_cut (record : RpcWire.Record) {io : Connection}
    (hcut : io.incoming <+: record.bytes) (hne : io.incoming ≠ record.bytes) :
    (RpcClient.recvReply io xid : Option (Except ClientError R × Connection)) = none := by
  cases h : record.fragments with
  | nil =>
    rw [bytes_of_nil record h] at hcut hne
    exact recvReply_of_cut_last record.last_lt hcut hne
  | cons first fragments =>
    obtain ⟨tail, hbytes⟩ := bytes_of_cons h
    rw [hbytes] at hcut
    exact recvReply_of_more (record.fragments_lt first (by simp [h])) hcut

theorem recvReply_of_fragments {record : RpcWire.Record} (h : record.fragments ≠ [])
    (sent rest : Bytes) :
    (RpcClient.recvReply ⟨sent, record.bytes ++ rest⟩ xid :
      Option (Except ClientError R × Connection)) = none := by
  obtain ⟨first, fragments, hfragments⟩ := List.exists_cons_of_ne_nil h
  obtain ⟨tail, hbytes⟩ := bytes_of_cons hfragments
  apply recvReply_of_more (record.fragments_lt first (by simp [hfragments]))
  show record.bytes ++ rest <+: RpcWire.fragmentBytes false first ++ (tail ++ rest)
  rw [hbytes, List.append_assoc]

/-! ## Connections that are closed -/

/-- Reading a buffer ends as it should exactly where the source holds the bytes. On a connection
that was closed before or inside a reply, `recv_reply` does not return at all. -/
theorem read_ends_iff_enough (s : S) :
    (∀ n, ReadsExactly s n ↔ n ≤ (data s).length) ∧
      ∀ (record : RpcWire.Record) (xid : UInt32), data s <+: record.bytes →
        data s ≠ record.bytes → ¬ ∃ (fuel : ℕ) (r : Except ClientError R) (s' : S),
          recvReply fuel s xid = .returned (r, s') := by
  refine ⟨readsExactly_iff s, ?_⟩
  rintro record xid hcut hne ⟨fuel, r, s', h⟩
  have hreply := (recvReply_returned_iff []).mp ⟨fuel, s', h, rfl⟩
  rw [recvReply_of_cut record hcut hne] at hreply
  cases hreply

theorem closed_connection_loops :
    ¬ ReadsExactly (⟨[], by simp⟩ : Chunks) 4 ∧
      ∀ fuel, (recvReply fuel (⟨[], by simp⟩ : Chunks) 1 :
        Outcome (Except ClientError UInt32 × Chunks)) = .pending := by
  have hshort : (data (⟨[], by simp⟩ : Chunks)).length < 4 := by decide
  constructor
  · rw [readsExactly_iff]
    omega
  · intro fuel
    simp [recvReply, asyncReadExact_of_lt fuel hshort]

/-! ## Replies in fragments -/

/-- Both connections give the same result, value or error, and leave the same bytes. -/
def SameReply (R : Type) [XdrCodec R] (xid : UInt32) (s t : S) (rest : Bytes) : Prop :=
  ∃ r : Except ClientError R,
    (∃ fuel s', recvReply fuel s xid = .returned (r, s') ∧ data s' = rest) ∧
      ∃ fuel t', recvReply fuel t xid = .returned (r, t') ∧ data t' = rest

/-- A reply is received as if it had come in one fragment exactly if it did. -/
theorem fragments_accepted_iff_single (R : Type) [XdrCodec R] (record : RpcWire.Record)
    (hsize : record.message.length < 2 ^ 31) (rest : Bytes) {s t : S}
    (hs : data s = record.bytes ++ rest)
    (ht : data t = (RpcWire.Record.single record.message hsize).bytes ++ rest) (xid : UInt32) :
    SameReply R xid s t rest ↔ record.fragments = [] := by
  constructor
  · rintro ⟨r, hreply, -⟩
    by_contra hfragments
    rw [recvReply_returned_iff [], hs, recvReply_of_fragments hfragments] at hreply
    cases hreply
  · intro hfragments
    have hmessage : record.message = record.last := by
      simp only [RpcWire.Record.message, hfragments, List.flatten_nil, List.nil_append]
    have hbytes : record.bytes = (RpcWire.Record.single record.message hsize).bytes := by
      rw [bytes_of_nil record hfragments, bytes_of_nil (.single _ hsize) rfl, ← hmessage]
      rfl
    refine ⟨RpcClient.parseReply xid record.message, ?_, ?_⟩
    · rw [recvReply_returned_iff [], hs, hbytes, recvReply_single]
    · rw [recvReply_returned_iff [], ht, recvReply_single]

end Replies

/-- The reply to call 1 with the number 42 in it, cut behind the xid or not cut at all. -/
def answer42 (cut : Bool) : RpcWire.Record :=
  let xid : Bytes := [0, 0, 0, 1]
  let body : Bytes := [0, 0, 0, 1, 0, 0, 0, 0, 0, 0, 0, 0, 0, 0, 0, 0, 0, 0, 0, 0, 0, 0, 0, 42]
  if cut then ⟨[xid], body, by simp [xid], by simp [body]⟩
  else .single (xid ++ body) (by simp [xid, body])

/-- A connection that delivers the bytes of a record at once. -/
def ofRecord (record : RpcWire.Record) : Chunks :=
  ⟨[record.bytes], by
    intro chunk hchunk
    obtain rfl := List.mem_singleton.mp hchunk
    simp [RpcWire.Record.bytes, RpcWire.fragmentBytes, toBe]⟩

theorem data_ofRecord (record : RpcWire.Record) : data (ofRecord record) = record.bytes := by
  show [record.bytes].flatten = record.bytes
  simp

theorem fragments_accepted_iff_single_answer42 :
    SameReply UInt32 1 (ofRecord (answer42 false)) (ofRecord (answer42 false)) [] := by
  refine (fragments_accepted_iff_single UInt32 (answer42 false) (by decide) [] ?_ ?_ 1).mpr rfl
  · rw [data_ofRecord, List.append_nil]
  · rw [data_ofRecord, List.append_nil]
    rfl

theorem two_fragments_refused :
    (recvReply 28 (ofRecord (answer42 true)) 1 : Outcome (Except ClientError UInt32 × Chunks)) =
        .panicked ∧
      ¬ SameReply UInt32 1 (ofRecord (answer42 true)) (ofRecord (answer42 false)) [] ∧
      ∃ t', recvReply 28 (ofRecord (answer42 false)) 1 =
        (.returned (.ok (42 : UInt32), t') : Outcome (Except ClientError UInt32 × Chunks)) := by
  refine ⟨?_, ?_, ?_⟩
  · rfl
  · rintro ⟨r, hreply, -⟩
    rw [recvReply_returned_iff [], data_ofRecord] at hreply
    have hfragments : (answer42 true).fragments ≠ [] := by decide
    have hnone : (RpcClient.recvReply ⟨[], (answer42 true).bytes ++ []⟩ 1 :
        Option (Except ClientError UInt32 × Connection)) = none :=
      recvReply_of_fragments hfragments [] []
    rw [List.append_nil] at hnone
    rw [hnone] at hreply
    cases hreply
  · exact ⟨_, rfl⟩

end ByteSource

end Nfs3
