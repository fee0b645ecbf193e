import Nfs3.Lib.ByteOrder
import Mathlib.Logic.Equiv.Defs

/-!
# Byte codecs and their laws

A codec is three separately written functions: the announced size, a writer that
appends to an output and a reader that consumes a prefix of an input. `Encodes`
ties them together at one value, `Consumes` and `Exact` say what a successful
read of arbitrary bytes means. A reader may ask for memory before the data that
should fill it has arrived; `Rationed` says what becomes of it when the memory is
not granted. Each combinator (sequencing, transport along an equivalence,
marker-terminated lists, tagged alternatives) comes with one lemma per law, so the
laws of a composite format follow its construction.
-/
namespace ByteCodec

open ByteOrder (Bytes)

variable {ε α β τ : Type} {k : ℕ}

/-- A computation over a byte string that is either the output written so far
or the input still to be read. -/
abbrev ByteM (ε : Type) := StateT Bytes (Except ε)

@[simp] theorem pure_apply (a : α) (s : Bytes) : (pure a : ByteM ε α) s = .ok (a, s) := rfl

theorem bind_of_ok {m : ByteM ε α} {f : α → ByteM ε β}
    {s s' : Bytes} {a : α} (h : m s = .ok (a, s')) : (m >>= f) s = f a s' := by
  show Except.bind (m s) (fun p => f p.1 p.2) = _
  rw [h]
  rfl

theorem bind_of_error {m : ByteM ε α} {f : α → ByteM ε β}
    {s : Bytes} {e : ε} (h : m s = .error e) : (m >>= f) s = .error e := by
  show Except.bind (m s) (fun p => f p.1 p.2) = _
  rw [h]
  rfl

theorem bind_eq_ok {m : ByteM ε α} {f : α → ByteM ε β}
    {s : Bytes} {r : β × Bytes} (h : (m >>= f) s = .ok r) :
    ∃ a s', m s = .ok (a, s') ∧ f a s' = .ok r := by
  cases hm : m s with
  | error e =>
    rw [bind_of_error hm] at h
    cases h
  | ok p =>
    rw [bind_of_ok hm] at h
    exact ⟨p.1, p.2, rfl, h⟩

theorem bind_eq_error {m : ByteM ε α} {f : α → ByteM ε β}
    {s : Bytes} {e : ε} (h : (m >>= f) s = .error e) :
    m s = .error e ∨ ∃ a s', m s = .ok (a, s') ∧ f a s' = .error e := by
  cases hm : m s with
  | error e' =>
    rw [bind_of_error hm] at h
    exact Or.inl (by simpa using h)
  | ok p =>
    rw [bind_of_ok hm] at h
    exact Or.inr ⟨p.1, p.2, rfl, h⟩

/-- What was read from the bytes so far does not depend on those still to come. -/
def Streams (m : ByteM ε α) : Prop :=
  ∀ b a rest, m b = .ok (a, rest) → ∀ s, m (b ++ s) = .ok (a, rest ++ s)

theorem streams_pure (a : α) : Streams (pure a : ByteM ε α) := by
  intro b a' rest h s
  cases h
  rfl

theorem streams_throw (e : ε) : Streams (throw e : ByteM ε α) := by
  intro b a rest h
  cases h

theorem Streams.bind {m : ByteM ε α} {f : α → ByteM ε β} (hm : Streams m)
    (hf : ∀ a, Streams (f a)) : Streams (m >>= f) := by
  intro b c rest h s
  obtain ⟨a, b', hb, hrest⟩ := bind_eq_ok h
  rw [bind_of_ok (hm b a b' hb s)]
  exact hf a b' c rest hrest s

/-! ## Memory asked for ahead of the data -/

/-- What is asked for after `m` has run: nothing if it fails. -/
def requestsAfter (m : ByteM ε α) (next : α → Bytes → List ℕ) (b : Bytes) : List ℕ :=
  match m b with
  | .ok (a, s) => next a s
  | .error _ => []

theorem requestsAfter_of_ok {m : ByteM ε α} {next : α → Bytes → List ℕ} {b s : Bytes} {a : α}
    (h : m b = .ok (a, s)) : requestsAfter m next b = next a s := by
  simp [requestsAfter, h]

theorem requestsAfter_of_error {m : ByteM ε α} {next : α → Bytes → List ℕ} {b : Bytes} {e : ε}
    (h : m b = .error e) : requestsAfter m next b = [] := by
  simp [requestsAfter, h]

/-- `m'` does what `m` does while `memory` grants the sizes asked for, and stops with
`refused` at the first one it does not grant. -/
def Rationed (memory : ℕ → Bool) (refused : ε) (requests : Bytes → List ℕ)
    (m m' : ByteM ε α) : Prop :=
  ∀ b, m' b = if (requests b).all memory then m b else .error refused

namespace Rationed

variable {memory : ℕ → Bool} {refused : ε} {requests : Bytes → List ℕ} {m m' : ByteM ε α}

theorem free (m : ByteM ε α) : Rationed memory refused (fun _ => []) m m := by
  intro b
  simp

theorem of_granted (h : Rationed memory refused requests m m') {b : Bytes}
    (hb : (requests b).all memory = true) : m' b = m b := by
  rw [h b, if_pos hb]

theorem of_refused (h : Rationed memory refused requests m m') {b : Bytes}
    (hb : (requests b).all memory = false) : m' b = .error refused := by
  rw [h b, hb]
  rfl

theorem granted_of_ok (h : Rationed memory refused requests m m') {b : Bytes} {r : α × Bytes}
    (hr : m' b = .ok r) : (requests b).all memory = true := by
  cases hb : (requests b).all memory with
  | true => rfl
  | false =>
    rw [h.of_refused hb] at hr
    cases hr

theorem ok_of_ok (h : Rationed memory refused requests m m') {b : Bytes} {r : α × Bytes}
    (hr : m' b = .ok r) : m b = .ok r := by
  rw [← h.of_granted (h.granted_of_ok hr), hr]

/-- The requests of the first part come first; the second part adds its own where the
first leaves off. -/
theorem bind {next : α → Bytes → List ℕ} {f f' : α → ByteM ε β}
    (hm : Rationed memory refused requests m m')
    (hf : ∀ a, Rationed memory refused (next a) (f a) (f' a)) :
    Rationed memory refused (fun b => requests b ++ requestsAfter m next b)
      (m >>= f) (m' >>= f') := by
  intro b
  cases hb : (requests b).all memory with
  | false =>
    rw [bind_of_error (hm.of_refused hb), List.all_append, hb]
    rfl
  | true =>
    cases hr : m b with
    | error e =>
      have hr' : m' b = .error e := (hm.of_granted hb).trans hr
      rw [bind_of_error hr', bind_of_error hr]
      simp [requestsAfter_of_error hr, hb]
    | ok r =>
      have hr' : m' b = .ok r := (hm.of_granted hb).trans hr
      rw [bind_of_ok hr', bind_of_ok hr, hf r.1 r.2]
      simp [requestsAfter_of_ok hr, hb]

/-- A second part that asks for nothing adds nothing. -/
theorem then_free (hm : Rationed memory refused requests m m') (f : α → ByteM ε β) :
    Rationed memory refused requests (m >>= f) (m' >>= f) := by
  intro b
  have hbind := hm.bind (fun a => free (f a)) b
  cases hr : m b with
  | error e => simpa [requestsAfter_of_error hr] using hbind
  | ok r => simpa [requestsAfter_of_ok hr] using hbind

end Rationed

/-- Positions `true` of the mask are padding; at every other position the two
strings carry the same byte. All three have one length. -/
inductive AgreesOff : List Bool → Bytes → Bytes → Prop
  | nil : AgreesOff [] [] []
  | padding {m p q} (x y : UInt8) : AgreesOff m p q → AgreesOff (true :: m) (x :: p) (y :: q)
  | byte {m p q} (x : UInt8) : AgreesOff m p q → AgreesOff (false :: m) (x :: p) (x :: q)

theorem AgreesOff.append {m m' : List Bool} {p p' q q' : Bytes}
    (h : AgreesOff m p q) (h' : AgreesOff m' p' q') :
    AgreesOff (m ++ m') (p ++ p') (q ++ q') := by
  induction h with
  | nil => exact h'
  | padding x y _ ih => exact .padding x y ih
  | byte x _ ih => exact .byte x ih

theorem AgreesOff.refl (p : Bytes) : AgreesOff (List.replicate p.length false) p p := by
  induction p with
  | nil => exact .nil
  | cons x p ih => exact .byte x ih

theorem AgreesOff.all_padding {p q : Bytes} (h : p.length = q.length) :
    AgreesOff (List.replicate p.length true) p q := by
  induction p generalizing q with
  | nil =>
    cases q with
    | nil => exact .nil
    | cons y q => simp at h
  | cons x p ih =>
    cases q with
    | nil => simp at h
    | cons y q => exact .padding x y (ih (by simpa using h))

/-- Outside the padding positions the two strings agree index by index. -/
theorem AgreesOff.getElem? {m : List Bool} {p q : Bytes} (h : AgreesOff m p q) (i : ℕ)
    (hi : m[i]? = some false) : p[i]? = q[i]? := by
  induction h generalizing i with
  | nil => simp at hi
  | padding x y _ ih =>
    cases i with
    | zero => simp at hi
    | succ i => simpa using ih i (by simpa using hi)
  | byte x _ ih =>
    cases i with
    | zero => rfl
    | succ i => simpa using ih i (by simpa using hi)

/-- A write appends to the output and reports the number of bytes written; a read
consumes input from the front and reports the number of bytes read, and asks for the
memory of the sizes `requests` on the way. -/
structure Codec (ε α : Type) where
  size : α → ℕ
  write : α → ByteM ε ℕ
  read : ByteM ε (α × ℕ)
  requests : Bytes → List ℕ := fun _ => []

namespace Codec

variable (c : Codec ε α) (d : Codec ε β)

/-- `bs` is what the three functions agree on for `v`: it has the announced size,
a multiple of `k`; writing appends exactly it; reading it back returns `v`, reports
its length and leaves whatever follows untouched. -/
structure Encodes (k : ℕ) (v : α) (bs : Bytes) : Prop where
  size_eq : c.size v = bs.length
  aligned : k ∣ bs.length
  writes : ∀ out, c.write v out = .ok (bs.length, out ++ bs)
  reads : ∀ s, c.read (bs ++ s) = .ok ((v, bs.length), s)

/-- A write that succeeds appends as many bytes as announced, and says so. -/
def Announces (v : α) : Prop :=
  ∀ out n out', c.write v out = .ok (n, out') →
    n = c.size v ∧ ∃ bs, out' = out ++ bs ∧ bs.length = n

/-- A successful read removed a prefix of the reported, aligned length. -/
def Consumes (k : ℕ) : Prop :=
  ∀ b v n s, c.read b = .ok ((v, n), s) → ∃ p, b = p ++ s ∧ p.length = n ∧ k ∣ n

/-- A read that returned `v` removed an encoding of `v`, up to padding. -/
def ExactAt (k : ℕ) (padding : α → List Bool) (v : α) : Prop :=
  ∀ b n s, c.read b = .ok ((v, n), s) →
    ∃ p bs, b = p ++ s ∧ p.length = n ∧ c.Encodes k v bs ∧ bs.length = n ∧
      AgreesOff (padding v) bs p

def Exact (k : ℕ) (padding : α → List Bool) : Prop :=
  ∀ b v n s, c.read b = .ok ((v, n), s) →
    ∃ p bs, b = p ++ s ∧ p.length = n ∧ c.Encodes k v bs ∧ bs.length = n ∧
      AgreesOff (padding v) bs p

/-- Reading fails only with errors satisfying `P`. -/
def FailsWith (P : ε → Prop) : Prop := ∀ b e, c.read b = .error e → P e

/-- `c'` reads as `c` does, in limited memory. -/
def RationedBy (memory : ℕ → Bool) (refused : ε) (c' : Codec ε α) : Prop :=
  Rationed memory refused c.requests c.read c'.read

variable {c d} {c' : Codec ε α} {d' : Codec ε β} {memory : ℕ → Bool} {refused : ε}

theorem Exact.at {padding : α → List Bool} (h : c.Exact k padding) (v : α) :
    c.ExactAt k padding v := fun b n s hr => h b v n s hr

theorem Exact.consumes {padding : α → List Bool} (h : c.Exact k padding) : c.Consumes k := by
  intro b v n s hr
  obtain ⟨p, bs, hb, hp, he, hl, -⟩ := h b v n s hr
  exact ⟨p, hb, hp, hl ▸ he.aligned⟩

/-- A single encoding of each value: the writer determines it. -/
theorem Encodes.announces {v : α} {bs : Bytes} (h : c.Encodes k v bs) : c.Announces v := by
  intro out n out' hwrite
  rw [h.writes out] at hwrite
  cases hwrite
  exact ⟨h.size_eq.symm, bs, rfl, rfl⟩

theorem Encodes.unique {v : α} {bs cs : Bytes} (h : c.Encodes k v bs) (h' : c.Encodes k v cs) :
    bs = cs := by
  have hw := (h.writes []).symm.trans (h'.writes [])
  simp only [List.nil_append, Except.ok.injEq, Prod.mk.injEq] at hw
  exact hw.2

/-! ## Sequencing -/

/-- One value after the other: counts add up, errors cut the rest off. -/
def seq (c : Codec ε α) (d : Codec ε β) : Codec ε (α × β) where
  size v := c.size v.1 + d.size v.2
  write v := do
    let m ← c.write v.1
    let n ← d.write v.2
    pure (m + n)
  read := do
    let (a, m) ← c.read
    let (b, n) ← d.read
    pure ((a, b), m + n)
  requests b := c.requests b ++ requestsAfter c.read (fun _ => d.requests) b

theorem seq_read_of_ok {b s s' : Bytes} {v : α} {w : β} {m n : ℕ}
    (h : c.read b = .ok ((v, m), s)) (h' : d.read s = .ok ((w, n), s')) :
    (c.seq d).read b = .ok (((v, w), m + n), s') := by
  show (c.read >>= _) b = _
  rw [bind_of_ok h]
  show (d.read >>= _) s = _
  rw [bind_of_ok h']
  rfl

theorem seq_read_eq_ok {b s' : Bytes} {v : α × β} {l : ℕ}
    (h : (c.seq d).read b = .ok ((v, l), s')) :
    ∃ m n s, c.read b = .ok ((v.1, m), s) ∧ d.read s = .ok ((v.2, n), s') ∧ l = m + n := by
  obtain ⟨⟨a, m⟩, s, hc, hrest⟩ := bind_eq_ok h
  obtain ⟨⟨a', n⟩, s'', hd, hpure⟩ := bind_eq_ok hrest
  cases hpure
  exact ⟨m, n, s, hc, hd, rfl⟩

theorem Encodes.seq {v : α} {w : β} {bs cs : Bytes} (hc : c.Encodes k v bs)
    (hd : d.Encodes k w cs) : (c.seq d).Encodes k (v, w) (bs ++ cs) where
  size_eq := by simp [Codec.seq, hc.size_eq, hd.size_eq]
  aligned := by
    rw [List.length_append]
    exact dvd_add hc.aligned hd.aligned
  writes out := by
    show (c.write v >>= _) out = _
    rw [bind_of_ok (hc.writes out)]
    show (d.write w >>= _) (out ++ bs) = _
    rw [bind_of_ok (hd.writes (out ++ bs))]
    simp
  reads s := by
    rw [List.append_assoc, seq_read_of_ok (hc.reads (cs ++ s)) (hd.reads s), List.length_append]

theorem Consumes.seq (hc : c.Consumes k) (hd : d.Consumes k) : (c.seq d).Consumes k := by
  intro b v l s' h
  obtain ⟨m, n, s, hcr, hdr, rfl⟩ := seq_read_eq_ok h
  obtain ⟨p, rfl, rfl, hm⟩ := hc _ _ _ _ hcr
  obtain ⟨q, rfl, rfl, hn⟩ := hd _ _ _ _ hdr
  exact ⟨p ++ q, by simp, by simp, dvd_add hm hn⟩

theorem ExactAt.seq {pc : α → List Bool} {pd : β → List Bool} {v : α × β}
    (hc : c.ExactAt k pc v.1) (hd : d.ExactAt k pd v.2) :
    (c.seq d).ExactAt k (fun v => pc v.1 ++ pd v.2) v := by
  intro b l s' h
  obtain ⟨m, n, s, hcr, hdr, rfl⟩ := seq_read_eq_ok h
  obtain ⟨p, bs, rfl, rfl, hev, hbs, hp⟩ := hc _ _ _ hcr
  obtain ⟨q, cs, rfl, rfl, hew, hcs, hq⟩ := hd _ _ _ hdr
  exact ⟨p ++ q, bs ++ cs, by simp, by simp, hev.seq hew, by simp [hbs, hcs], hp.append hq⟩

theorem Exact.seq {pc : α → List Bool} {pd : β → List Bool} (hc : c.Exact k pc)
    (hd : d.Exact k pd) : (c.seq d).Exact k (fun v => pc v.1 ++ pd v.2) :=
  fun b v l s h => ((hc.at v.1).seq (hd.at v.2)) b l s h

theorem FailsWith.seq {P : ε → Prop} (hc : c.FailsWith P) (hd : d.FailsWith P) :
    (c.seq d).FailsWith P := by
  intro b e h
  rcases bind_eq_error h with hcr | ⟨⟨a, m⟩, s, -, hrest⟩
  · exact hc b e hcr
  · rcases bind_eq_error hrest with hdr | ⟨⟨a', n⟩, s', -, hpure⟩
    · exact hd s e hdr
    · cases hpure

theorem RationedBy.seq (hc : c.RationedBy memory refused c')
    (hd : d.RationedBy memory refused d') :
    (c.seq d).RationedBy memory refused (c'.seq d') :=
  Rationed.bind hc fun _ => Rationed.then_free hd _

/-! ## Reading into a larger type -/

/-- Read a `β` and present it as an `α`. -/
def readAs (d : Codec ε β) (f : β → α) : ByteM ε (α × ℕ) := do
  let (b, n) ← d.read
  pure (f b, n)

theorem readAs_of_ok {f : β → α} {b s : Bytes} {u : β} {n : ℕ} (h : d.read b = .ok ((u, n), s)) :
    d.readAs f b = .ok ((f u, n), s) := by
  show (d.read >>= _) b = _
  rw [bind_of_ok h]
  rfl

theorem readAs_eq_ok {f : β → α} {b s : Bytes} {v : α} {n : ℕ}
    (h : d.readAs f b = .ok ((v, n), s)) : ∃ u, d.read b = .ok ((u, n), s) ∧ v = f u := by
  obtain ⟨⟨u, m⟩, s', hd, hpure⟩ := bind_eq_ok h
  cases hpure
  exact ⟨u, hd, rfl⟩

theorem readAs_eq_error {f : β → α} {b : Bytes} {e : ε} (h : d.readAs f b = .error e) :
    d.read b = .error e := by
  rcases bind_eq_error h with hd | ⟨⟨u, n⟩, s, -, hpure⟩
  · exact hd
  · cases hpure

theorem RationedBy.readAs (h : d.RationedBy memory refused d') (f : β → α) :
    Rationed memory refused d.requests (d.readAs f) (d'.readAs f) :=
  Rationed.then_free h _

/-! ## Transport along an equivalence -/

def iso (c : Codec ε α) (f : β ≃ α) : Codec ε β where
  size v := c.size (f v)
  write v := c.write (f v)
  read := c.readAs f.symm
  requests := c.requests

theorem iso_read_eq_ok {f : β ≃ α} {b s : Bytes} {v : β} {n : ℕ}
    (h : (c.iso f).read b = .ok ((v, n), s)) : c.read b = .ok ((f v, n), s) := by
  obtain ⟨u, hu, rfl⟩ := readAs_eq_ok h
  rw [hu, f.apply_symm_apply]

theorem Encodes.iso {f : β ≃ α} {v : β} {bs : Bytes} (h : c.Encodes k (f v) bs) :
    (c.iso f).Encodes k v bs where
  size_eq := h.size_eq
  aligned := h.aligned
  writes := h.writes
  reads s := by
    have hr := readAs_of_ok (f := f.symm) (h.reads s)
    rwa [f.symm_apply_apply] at hr

theorem Consumes.iso (f : β ≃ α) (h : c.Consumes k) : (c.iso f).Consumes k :=
  fun b v n s hr => h b (f v) n s (iso_read_eq_ok hr)

theorem ExactAt.iso {padding : α → List Bool} {f : β ≃ α} {v : β}
    (h : c.ExactAt k padding (f v)) : (c.iso f).ExactAt k (fun v => padding (f v)) v := by
  intro b n s hr
  obtain ⟨p, bs, hb, hp, he, hl, ha⟩ := h b n s (iso_read_eq_ok hr)
  exact ⟨p, bs, hb, hp, he.iso, hl, ha⟩

theorem Exact.iso {padding : α → List Bool} (f : β ≃ α) (h : c.Exact k padding) :
    (c.iso f).Exact k (fun v => padding (f v)) :=
  fun b v n s hr => (h.at (f v)).iso b n s hr

theorem FailsWith.iso {P : ε → Prop} (f : β ≃ α) (h : c.FailsWith P) :
    (c.iso f).FailsWith P :=
  fun b e hr => h b e (readAs_eq_error hr)

theorem RationedBy.iso (f : β ≃ α) (h : c.RationedBy memory refused c') :
    (c.iso f).RationedBy memory refused (c'.iso f) :=
  RationedBy.readAs h f.symm

end Codec

end ByteCodec
