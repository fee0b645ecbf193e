import Mathlib.Data.Nat.Bitwise
import Nfs3.Types.Rpc

/-!
# Record marking

A message travels as one or more fragments, each behind a header word with its length and,
in the top bit, whether it is the last one. `SocketMessageHandler` collects them. The
socket is the byte string still to be read; reading past its end is an error.
-/
namespace Nfs3.RpcWire

open ByteOrder ByteCodec

/-! ## The receiving side -/

inductive PackedRpcMessage
  | incomplete (data : Bytes)
  | complete (data : Bytes)
  deriving DecidableEq

/-- `IncompleteRpcMessage::recv`: the buffer is grown and the fragment read into its new
part. -/
def recvFragment (data : Bytes) : ByteM Error (Bool × Bytes) := do
  let headerBuf ← readExact 4
  let header := FragmentHeader.ofBytes headerBuf
  let prevLength := data.length
  let buf := data ++ List.replicate header.fragmentLength.toNat 0
  let fragment ← readExact (buf.drop prevLength).length
  pure (header.eof, buf.take prevLength ++ fragment)

namespace PackedRpcMessage

def new : PackedRpcMessage := .incomplete []

def recv : PackedRpcMessage → ByteM Error (Bool × PackedRpcMessage)
  | .incomplete data => do
    let (eof, data) ← recvFragment data
    if eof then pure (eof, .complete data) else pure (eof, .incomplete data)
  | .complete data => pure (true, .complete data)

end PackedRpcMessage

/-- `SocketMessageHandler::read`: one fragment; a complete message is taken out and handed
on. `diverged` stands for the `unreachable!()` of the source. -/
def read (curFragment : PackedRpcMessage) : ByteM Error (Option Bytes × PackedRpcMessage) := do
  let (isLast, curFragment) ← curFragment.recv
  if isLast then
    match curFragment with
    | .complete data => pure (some data, .new)
    | .incomplete _ => throw .diverged
  else
    pure (none, curFragment)

/-- `read` in a loop: the messages handed on by `n` calls. -/
def readLoop : ℕ → PackedRpcMessage → ByteM Error (List Bytes × PackedRpcMessage)
  | 0, curFragment => pure ([], curFragment)
  | n + 1, curFragment => do
    let (message, curFragment) ← read curFragment
    let (messages, curFragment) ← readLoop n curFragment
    pure (message.toList ++ messages, curFragment)

/-! ## The sending side -/

/-- `write_fragment`, `none` where an assertion fails. -/
def writeFragment (socket : Bytes) (buf : Bytes) : Option Bytes :=
  if buf.length < 2 ^ 31 then do
    let fragmentHeader ← FragmentHeader.new (UInt32.ofNat buf.length) true
    some (socket ++ fragmentHeader.intoXdrBuf ++ buf)
  else none

/-! ## The format -/

/-- A fragment on the wire: the length, with the top bit set on the last fragment of a
message, and the data. -/
def fragmentBytes (last : Bool) (data : Bytes) : Bytes :=
  toBe 4 (data.length + if last then 2 ^ 31 else 0) ++ data

/-- A message cut into fragments; there is always a last one. -/
structure Record where
  fragments : List Bytes
  last : Bytes
  fragments_lt : ∀ f ∈ fragments, f.length < 2 ^ 31
  last_lt : last.length < 2 ^ 31

namespace Record

def message (r : Record) : Bytes := r.fragments.flatten ++ r.last

def bytes (r : Record) : Bytes :=
  r.fragments.flatMap (fragmentBytes false) ++ fragmentBytes true r.last

def count (r : Record) : ℕ := r.fragments.length + 1

/-- A message sent as a single fragment. -/
def single (m : Bytes) (h : m.length < 2 ^ 31) : Record := ⟨[], m, by simp, h⟩

end Record

/-! ## Headers -/

theorem header_toNat {n : ℕ} (h : n < 2 ^ 32) : (UInt32.ofNat n).toNat = n :=
  UInt32.toNat_ofNat_of_lt' h

theorem fragmentLength_ofNat {n : ℕ} (h : n < 2 ^ 32) :
    (FragmentHeader.mk (UInt32.ofNat n)).fragmentLength.toNat = n % 2 ^ 31 := by
  rw [FragmentHeader.fragmentLength, UInt32.toNat_and, header_toNat h]
  exact Nat.and_two_pow_sub_one_eq_mod n 31

theorem eof_ofNat {n : ℕ} (h : n < 2 ^ 32) :
    (FragmentHeader.mk (UInt32.ofNat n)).eof = decide (2 ^ 31 ≤ n) := by
  have hand : (UInt32.ofNat n &&& FragmentHeader.eofFlag).toNat =
      2 ^ 31 * (n.testBit 31).toNat := by
    rw [UInt32.toNat_and, header_toNat h, Nat.and_comm]
    exact Nat.two_pow_and n 31
  have hbit : n.testBit 31 = decide (2 ^ 31 ≤ n) := by
    rw [Nat.testBit_eq_decide_div_mod_eq]
    refine decide_eq_decide.mpr ?_
    omega
  have hne : UInt32.ofNat n &&& FragmentHeader.eofFlag = 0 ↔ ¬ 2 ^ 31 ≤ n := by
    rw [← UInt32.toNat_inj, hand, hbit]
    simp
  unfold FragmentHeader.eof
  by_cases hn : 2 ^ 31 ≤ n
  · rw [decide_eq_true hn, bne_iff_ne]
    exact fun h0 => hne.mp h0 hn
  · rw [decide_eq_false hn, hne.mpr hn]
    rfl

theorem new_last {n : ℕ} (h : n < 2 ^ 31) :
    FragmentHeader.new (UInt32.ofNat n) true = some ⟨UInt32.ofNat (n + 2 ^ 31)⟩ := by
  have hle : UInt32.ofNat n ≤ FragmentHeader.mask := by
    rw [UInt32.le_iff_toNat_le, header_toNat (by omega)]
    show n ≤ 2 ^ 31 - 1
    omega
  have hor : UInt32.ofNat n ||| FragmentHeader.eofFlag = UInt32.ofNat (n + 2 ^ 31) := by
    apply UInt32.toNat_inj.mp
    rw [UInt32.toNat_or, header_toNat (by omega), header_toNat (by omega), Nat.or_comm]
    have hadd := Nat.two_pow_add_eq_or_of_lt h 1
    rw [Nat.mul_one] at hadd
    rw [Nat.add_comm]
    exact hadd.symm
  simp [FragmentHeader.new, hle, hor]

/-! ## Reassembly -/

theorem header_of_fragment (last : Bool) {n : ℕ} (h : n < 2 ^ 31) :
    (FragmentHeader.ofBytes (toBe 4 (n + if last then 2 ^ 31 else 0))).fragmentLength.toNat = n ∧
      (FragmentHeader.ofBytes (toBe 4 (n + if last then 2 ^ 31 else 0))).eof = last := by
  have hlt : n + (if last then 2 ^ 31 else 0) < 2 ^ 32 := by
    split_ifs <;> omega
  rw [FragmentHeader.ofBytes, ofBe_toBe 4 _ (by norm_num at hlt ⊢; exact hlt),
    fragmentLength_ofNat hlt, eof_ofNat hlt]
  cases last with
  | false =>
    simp only [Bool.false_eq_true, ↓reduceIte, Nat.add_zero, decide_eq_false_iff_not]
    omega
  | true =>
    simp only [↓reduceIte, decide_eq_true_eq]
    omega

theorem recvFragment_append (last : Bool) {frag : Bytes} (h : frag.length < 2 ^ 31)
    (data s : Bytes) :
    recvFragment data (fragmentBytes last frag ++ s) = .ok ((last, data ++ frag), s) := by
  obtain ⟨hlen, heof⟩ := header_of_fragment last h
  unfold recvFragment fragmentBytes
  rw [List.append_assoc, bind_of_ok (readExact_append (length_toBe 4 _) (frag ++ s))]
  simp only [List.drop_left, List.take_left, List.length_replicate, hlen, heof]
  rw [bind_of_ok (readExact_append rfl s)]
  rfl

theorem read_more {frag : Bytes} (h : frag.length < 2 ^ 31) (data s : Bytes) :
    read (.incomplete data) (fragmentBytes false frag ++ s) =
      .ok ((none, .incomplete (data ++ frag)), s) := by
  have hrecv : PackedRpcMessage.recv (.incomplete data) (fragmentBytes false frag ++ s) =
      .ok ((false, .incomplete (data ++ frag)), s) := by
    show (recvFragment data >>= _) _ = _
    rw [bind_of_ok (recvFragment_append false h data s)]
    rfl
  unfold read
  rw [bind_of_ok hrecv]
  rfl

theorem read_last {frag : Bytes} (h : frag.length < 2 ^ 31) (data s : Bytes) :
    read (.incomplete data) (fragmentBytes true frag ++ s) =
      .ok ((some (data ++ frag), .new), s) := by
  have hrecv : PackedRpcMessage.recv (.incomplete data) (fragmentBytes true frag ++ s) =
      .ok ((true, .complete (data ++ frag)), s) := by
    show (recvFragment data >>= _) _ = _
    rw [bind_of_ok (recvFragment_append true h data s)]
    rfl
  unfold read
  rw [bind_of_ok hrecv]
  rfl

theorem readLoop_succ {n : ℕ} {cur cur' cur'' : PackedRpcMessage} {b b' b'' : Bytes}
    {m : Option Bytes} {ms : List Bytes} (h : read cur b = .ok ((m, cur'), b'))
    (hl : readLoop n cur' b' = .ok ((ms, cur''), b'')) :
    readLoop (n + 1) cur b = .ok ((m.toList ++ ms, cur''), b'') := by
  rw [readLoop, bind_of_ok h]
  show (readLoop n cur' >>= _) b' = _
  rw [bind_of_ok hl]
  rfl

/-- Running the loop on is running it again. -/
theorem readLoop_add {m n : ℕ} {cur cur' cur'' : PackedRpcMessage} {b b' b'' : Bytes}
    {ms ms' : List Bytes} (h : readLoop m cur b = .ok ((ms, cur'), b'))
    (h' : readLoop n cur' b' = .ok ((ms', cur''), b'')) :
    readLoop (m + n) cur b = .ok ((ms ++ ms', cur''), b'') := by
  induction m generalizing cur b ms with
  | zero =>
    cases h
    rw [Nat.zero_add]
    exact h'
  | succ m ih =>
    rw [readLoop] at h
    obtain ⟨⟨msg, cur₁⟩, b₁, hread, hrest⟩ := bind_eq_ok h
    obtain ⟨⟨msgs, cur₂⟩, b₂, hloop, hpure⟩ := bind_eq_ok hrest
    cases hpure
    rw [Nat.succ_add, List.append_assoc]
    exact readLoop_succ hread (ih hloop)

/-- Fragments that are not the last one only fill the buffer. -/
theorem readLoop_fragments {fs : List Bytes} (h : ∀ f ∈ fs, f.length < 2 ^ 31) (data s : Bytes) :
    readLoop fs.length (.incomplete data) (fs.flatMap (fragmentBytes false) ++ s) =
      .ok (([], .incomplete (data ++ fs.flatten)), s) := by
  induction fs generalizing data with
  | nil =>
    rw [List.flatten_nil, List.append_nil]
    rfl
  | cons f fs ih =>
    have hread := read_more (h f (by simp)) data (fs.flatMap (fragmentBytes false) ++ s)
    have hloop := ih (fun g hg => h g (List.mem_cons_of_mem f hg)) (data ++ f)
    rw [List.append_assoc] at hloop
    rw [List.flatMap_cons, List.append_assoc, List.flatten_cons, List.length_cons]
    exact readLoop_succ hread hloop

theorem readLoop_record (r : Record) (s : Bytes) :
    readLoop r.count .new (r.bytes ++ s) = .ok (([r.message], .new), s) := by
  rw [Record.bytes, List.append_assoc]
  have hlast : readLoop 1 (.incomplete ([] ++ r.fragments.flatten))
      (fragmentBytes true r.last ++ s) = .ok (([r.message], .new), s) :=
    readLoop_succ (read_last r.last_lt _ s) rfl
  exact readLoop_add (readLoop_fragments r.fragments_lt [] _) hlast

theorem readLoop_records (rs : List Record) (s : Bytes) :
    readLoop (rs.map Record.count).sum .new (rs.flatMap Record.bytes ++ s) =
      .ok ((rs.map Record.message, .new), s) := by
  induction rs with
  | nil => rfl
  | cons r rs ih =>
    rw [List.flatMap_cons, List.append_assoc, List.map_cons, List.map_cons, List.sum_cons]
    exact readLoop_add (readLoop_record r _) ih

theorem writeFragment_eq {m : Bytes} (h : m.length < 2 ^ 31) (socket : Bytes) :
    writeFragment socket m = some (socket ++ (Record.single m h).bytes) := by
  have hheader : (FragmentHeader.mk (UInt32.ofNat (m.length + 2 ^ 31))).intoXdrBuf =
      toBe 4 (m.length + 2 ^ 31) := by
    rw [FragmentHeader.intoXdrBuf, header_toNat (by omega)]
  simp only [writeFragment, if_pos h, new_last h, Option.bind_eq_bind, Option.bind_some, hheader,
    Record.bytes, Record.single, List.flatMap_nil, List.nil_append, fragmentBytes, ↓reduceIte,
    List.append_assoc]

/-- The records of messages that are sent whole. -/
def singles (ms : List {m : Bytes // m.length < 2 ^ 31}) : List Record :=
  ms.map fun m => Record.single m.1 m.2

theorem writeFragments_eq (ms : List {m : Bytes // m.length < 2 ^ 31}) (socket : Bytes) :
    (ms.map Subtype.val).foldlM writeFragment socket =
      some (socket ++ (singles ms).flatMap Record.bytes) := by
  induction ms generalizing socket with
  | nil =>
    simp [singles]
  | cons m ms ih =>
    rw [List.map_cons, List.foldlM_cons, writeFragment_eq m.2, Option.bind_eq_bind,
      Option.bind_some, ih, List.append_assoc]
    rfl

/-- Whatever the messages and wherever they were cut, reading fragment by fragment hands on
exactly the messages, consumes exactly their bytes and is ready for the next message; on an
exhausted stream it hands on nothing more. What `write_fragment` sends is such a stream. -/
theorem record_reassembly (rs : List Record) (s : Bytes) :
    readLoop (rs.map Record.count).sum .new (rs.flatMap Record.bytes ++ s) =
        .ok ((rs.map Record.message, .new), s) ∧
      read .new [] = .error .io ∧
      ∀ ms : List {m : Bytes // m.length < 2 ^ 31},
        (ms.map Subtype.val).foldlM writeFragment [] =
            some ((singles ms).flatMap Record.bytes) ∧
          (singles ms).map Record.message = ms.map Subtype.val := by
  refine ⟨readLoop_records rs s, rfl, fun ms => ⟨writeFragments_eq ms [], ?_⟩⟩
  simp [singles, Record.message, Record.single, Function.comp_def]

/-- Two fragments, the first one empty, and the start of the next message. -/
example : readLoop 2 .new (fragmentBytes false [] ++ fragmentBytes true [1, 2] ++ [9]) =
    .ok (([[1, 2]], .new), [9]) := by rfl

end Nfs3.RpcWire
