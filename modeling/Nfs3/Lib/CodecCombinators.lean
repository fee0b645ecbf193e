import Nfs3.Lib.Codec

/-!
# Marker-terminated lists and tagged alternatives

A list is written as one marker in front of every item and a closing marker; its
reader is a loop that ends at the closing marker. The loop runs on fuel, one unit
per item, and a separate error stands for exhausting it: a marker that always
consumes input makes that error unreachable.

A `Tagged` value is written as a tag followed by a payload whose reader depends on
the tag. `Arms` builds one from separate alternatives; it knows the tags of its arms,
so disjointness is one `Nodup` fact.
-/
namespace ByteCodec

open ByteOrder (Bytes)

variable {ε α β τ : Type} {k : ℕ} {memory : ℕ → Bool} {refused : ε}

namespace Codec

/-! ## Marker-terminated lists -/

def writeMarked (mark : Codec ε Bool) (c : Codec ε α) : List α → ℕ → ByteM ε ℕ
  | [], len => do
    let n ← mark.write false
    pure (len + n)
  | a :: as, len => do
    let m ← mark.write true
    let n ← c.write a
    writeMarked mark c as (len + m + n)

def readMarked (mark : Codec ε Bool) (c : Codec ε α) (stuck : ε) :
    ℕ → List α → ℕ → ByteM ε (List α × ℕ)
  | 0, _, _ => throw stuck
  | fuel + 1, items, len => do
    let (more, m) ← mark.read
    if more then
      let (a, n) ← c.read
      readMarked mark c stuck fuel (items ++ [a]) (len + m + n)
    else
      pure (items, len + m)

def requestsMarked (mark : Codec ε Bool) (c : Codec ε α) : ℕ → Bytes → List ℕ
  | 0, _ => []
  | fuel + 1, b =>
    mark.requests b ++ requestsAfter mark.read
      (fun r s =>
        if r.1 then
          c.requests s ++ requestsAfter c.read (fun _ => requestsMarked mark c fuel) s
        else []) b

def marked (mark : Codec ε Bool) (c : Codec ε α) (stuck : ε) : Codec ε (List α) where
  size items := items.foldl (fun len a => len + mark.size true + c.size a) 0 + mark.size false
  write items := writeMarked mark c items 0
  read := fun b => readMarked mark c stuck (b.length + 1) [] 0 b
  requests := fun b => requestsMarked mark c (b.length + 1) b

variable {mark : Codec ε Bool} {c : Codec ε α} {stuck : ε}

/-- The byte strings that spell a list, item by item. -/
inductive MarkedEncodes (mark : Codec ε Bool) (c : Codec ε α) (k : ℕ) : List α → Bytes → Prop
  | nil {ms} : mark.Encodes k false ms → MarkedEncodes mark c k [] ms
  | cons {a as ms bs cs} : mark.Encodes k true ms → c.Encodes k a bs →
      MarkedEncodes mark c k as cs → MarkedEncodes mark c k (a :: as) (ms ++ bs ++ cs)

theorem writeMarked_announces {items : List α} (hm : ∀ b, mark.Announces b)
    (hc : ∀ a ∈ items, c.Announces a) {len n : ℕ} {out out' : Bytes}
    (h : writeMarked mark c items len out = .ok (n, out')) :
    n = items.foldl (fun len a => len + mark.size true + c.size a) len + mark.size false ∧
      ∃ bs, out' = out ++ bs ∧ len + bs.length = n := by
  induction items generalizing len out with
  | nil =>
    obtain ⟨m, out₁, hmark, hret⟩ := bind_eq_ok h
    cases hret
    obtain ⟨rfl, bs, rfl, hlength⟩ := hm false _ _ _ hmark
    exact ⟨rfl, bs, rfl, by rw [hlength]⟩
  | cons a as ih =>
    obtain ⟨m, out₁, hmark, hrest⟩ := bind_eq_ok h
    obtain ⟨l, out₂, hitem, hloop⟩ := bind_eq_ok hrest
    obtain ⟨rfl, ms, rfl, hms⟩ := hm true _ _ _ hmark
    obtain ⟨rfl, bs, rfl, hbs⟩ := hc a (by simp) _ _ _ hitem
    obtain ⟨hn, cs, rfl, hcs⟩ := ih (fun a ha => hc a (by simp [ha])) hloop
    refine ⟨hn, ms ++ bs ++ cs, by simp, ?_⟩
    simp only [List.length_append]
    omega

theorem Announces.marked {items : List α} (hm : ∀ b, mark.Announces b)
    (hc : ∀ a ∈ items, c.Announces a) : (marked mark c stuck).Announces items := by
  intro out n out' h
  obtain ⟨hn, bs, hout, hbs⟩ := writeMarked_announces hm hc h
  exact ⟨hn, bs, hout, by omega⟩

theorem exists_markedEncodes {items : List α} (hm : ∀ b, ∃ ms, mark.Encodes k b ms)
    (hc : ∀ a ∈ items, ∃ bs, c.Encodes k a bs) : ∃ cs, MarkedEncodes mark c k items cs := by
  induction items with
  | nil =>
    obtain ⟨ms, hms⟩ := hm false
    exact ⟨ms, .nil hms⟩
  | cons a as ih =>
    obtain ⟨ms, hms⟩ := hm true
    obtain ⟨bs, hbs⟩ := hc a (by simp)
    obtain ⟨cs, hcs⟩ := ih fun a ha => hc a (by simp [ha])
    exact ⟨ms ++ bs ++ cs, .cons hms hbs hcs⟩

theorem MarkedEncodes.size_eq {items : List α} {cs : Bytes}
    (h : MarkedEncodes mark c k items cs) (len : ℕ) :
    items.foldl (fun len a => len + mark.size true + c.size a) len + mark.size false =
      len + cs.length := by
  induction h generalizing len with
  | nil hms => simp [hms.size_eq]
  | cons hms hbs _ ih =>
    rw [List.foldl_cons, ih, hms.size_eq, hbs.size_eq]
    simp only [List.length_append]
    omega

theorem MarkedEncodes.aligned {items : List α} {cs : Bytes}
    (h : MarkedEncodes mark c k items cs) : k ∣ cs.length := by
  induction h with
  | nil hms => exact hms.aligned
  | cons hms hbs _ ih =>
    simp only [List.length_append]
    exact dvd_add (dvd_add hms.aligned hbs.aligned) ih

theorem MarkedEncodes.writes {items : List α} {cs : Bytes}
    (h : MarkedEncodes mark c k items cs) (len : ℕ) (out : Bytes) :
    writeMarked mark c items len out = .ok (len + cs.length, out ++ cs) := by
  induction h generalizing len out with
  | nil hms =>
    rw [writeMarked, bind_of_ok (hms.writes out)]
    rfl
  | cons hms hbs _ ih =>
    rw [writeMarked, bind_of_ok (hms.writes out), bind_of_ok (hbs.writes _), ih]
    simp [Nat.add_assoc]

theorem MarkedEncodes.reads {items : List α} {cs : Bytes}
    (h : MarkedEncodes mark c k items cs) (fuel : ℕ) (hf : items.length < fuel)
    (acc : List α) (len : ℕ) (s : Bytes) :
    readMarked mark c stuck fuel acc len (cs ++ s) =
      .ok ((acc ++ items, len + cs.length), s) := by
  induction h generalizing fuel acc len with
  | nil hms =>
    obtain ⟨fuel, rfl⟩ : ∃ f, fuel = f + 1 := ⟨fuel - 1, by omega⟩
    rw [readMarked, bind_of_ok (hms.reads s)]
    simp
  | @cons a as ms bs cs hms hbs _ ih =>
    obtain ⟨fuel, rfl⟩ : ∃ f, fuel = f + 1 := ⟨fuel - 1, by simp at hf; omega⟩
    rw [readMarked, List.append_assoc, List.append_assoc, bind_of_ok (hms.reads _)]
    simp only [↓reduceIte]
    rw [bind_of_ok (hbs.reads _), ih fuel (by simpa using hf)]
    simp [Nat.add_assoc]

/-- Markers are not empty, so a list has no more items than bytes. -/
theorem MarkedEncodes.length_le {items : List α} {cs : Bytes} (hpos : 0 < mark.size true)
    (h : MarkedEncodes mark c k items cs) : items.length ≤ cs.length := by
  induction h with
  | nil _ => simp
  | cons hms _ _ ih =>
    have := hms.size_eq
    simp only [List.length_cons, List.length_append]
    omega

theorem MarkedEncodes.encodes {items : List α} {cs : Bytes} (hpos : 0 < mark.size true)
    (h : MarkedEncodes mark c k items cs) : (marked mark c stuck).Encodes k items cs where
  size_eq := by simpa [marked] using h.size_eq 0
  aligned := h.aligned
  writes out := by simpa [marked] using h.writes 0 out
  reads s := by
    have hl := h.length_le hpos
    have hf : items.length < (cs ++ s).length + 1 := by
      rw [List.length_append]
      omega
    have hr : readMarked mark c stuck ((cs ++ s).length + 1) [] 0 (cs ++ s) = _ :=
      h.reads _ hf [] 0 s
    simpa [marked] using hr

/-- The padding of a list is that of its markers and items in order. -/
def markedPadding (pm : Bool → List Bool) (pc : α → List Bool) : List α → List Bool
  | [] => pm false
  | a :: as => pm true ++ pc a ++ markedPadding pm pc as

theorem readMarked_step {fuel len : ℕ} {acc : List α} {b : Bytes}
    {r : (List α × ℕ) × Bytes}
    (h : readMarked mark c stuck (fuel + 1) acc len b = .ok r) :
    (∃ m, mark.read b = .ok ((false, m), r.2) ∧ r.1 = (acc, len + m)) ∨
      ∃ m n s a s', mark.read b = .ok ((true, m), s) ∧ c.read s = .ok ((a, n), s') ∧
        readMarked mark c stuck fuel (acc ++ [a]) (len + m + n) s' = .ok r := by
  rw [readMarked] at h
  obtain ⟨⟨more, m⟩, s, hm, hrest⟩ := bind_eq_ok h
  cases more with
  | false =>
    cases hrest
    exact Or.inl ⟨m, hm, rfl⟩
  | true =>
    obtain ⟨⟨a, n⟩, s', ha, hloop⟩ := bind_eq_ok hrest
    exact Or.inr ⟨m, n, s, a, s', hm, ha, hloop⟩

theorem readMarked_consumes (hm : mark.Consumes k) (hc : c.Consumes k) {fuel len l : ℕ}
    {acc items : List α} {b s : Bytes}
    (h : readMarked mark c stuck fuel acc len b = .ok ((items, l), s)) :
    ∃ p, b = p ++ s ∧ l = len + p.length ∧ k ∣ p.length := by
  induction fuel generalizing acc len b with
  | zero => cases h
  | succ fuel ih =>
    rcases readMarked_step h with ⟨m, hmr, hr⟩ | ⟨m, n, s₁, a, s₂, hmr, hcr, hloop⟩
    · obtain ⟨p, rfl, rfl, hk⟩ := hm _ _ _ _ hmr
      cases hr
      exact ⟨p, rfl, rfl, hk⟩
    · obtain ⟨p, rfl, rfl, hkp⟩ := hm _ _ _ _ hmr
      obtain ⟨q, rfl, rfl, hkq⟩ := hc _ _ _ _ hcr
      obtain ⟨r, rfl, rfl, hkr⟩ := ih hloop
      exact ⟨p ++ q ++ r, by simp, by simp [Nat.add_assoc],
        by simpa [Nat.add_assoc] using dvd_add (dvd_add hkp hkq) hkr⟩

theorem Consumes.marked (hm : mark.Consumes k) (hc : c.Consumes k) :
    (marked mark c stuck).Consumes k := by
  intro b v n s h
  obtain ⟨p, hb, hl, hk⟩ := readMarked_consumes hm hc h
  simp only [Nat.zero_add] at hl
  exact ⟨p, hb, hl.symm, hl ▸ hk⟩

theorem readMarked_exact {pm : Bool → List Bool} {pc : α → List Bool} (hm : mark.Exact k pm)
    (hc : c.Exact k pc) {fuel len l : ℕ} {acc items : List α} {b s : Bytes}
    (h : readMarked mark c stuck fuel acc len b = .ok ((items, l), s)) :
    ∃ new p cs, items = acc ++ new ∧ b = p ++ s ∧ l = len + p.length ∧
      MarkedEncodes mark c k new cs ∧ cs.length = p.length ∧
      AgreesOff (markedPadding pm pc new) cs p := by
  induction fuel generalizing acc len b with
  | zero => cases h
  | succ fuel ih =>
    rcases readMarked_step h with ⟨m, hmr, hr⟩ | ⟨m, n, s₁, a, s₂, hmr, hcr, hloop⟩
    · obtain ⟨p, ms, rfl, rfl, hms, hlen, ha⟩ := hm _ _ _ _ hmr
      cases hr
      exact ⟨[], p, ms, by simp, rfl, rfl, .nil hms, hlen, ha⟩
    · obtain ⟨p, ms, rfl, rfl, hms, hlm, ham⟩ := hm _ _ _ _ hmr
      obtain ⟨q, bs, rfl, rfl, hbs, hlb, hab⟩ := hc _ _ _ _ hcr
      obtain ⟨new, r, cs, rfl, rfl, rfl, hcs, hlc, hac⟩ := ih hloop
      exact ⟨a :: new, p ++ q ++ r, ms ++ bs ++ cs, by simp, by simp, by simp [Nat.add_assoc],
        .cons hms hbs hcs, by simp [hlm, hlb, hlc], (ham.append hab).append hac⟩

theorem Exact.marked {pm : Bool → List Bool} {pc : α → List Bool} (hpos : 0 < mark.size true)
    (hm : mark.Exact k pm) (hc : c.Exact k pc) :
    (marked mark c stuck).Exact k (markedPadding pm pc) := by
  intro b v n s h
  obtain ⟨new, p, cs, rfl, hb, hl, hcs, hlen, ha⟩ := readMarked_exact hm hc h
  simp only [Nat.zero_add] at hl
  exact ⟨p, cs, hb, hl.symm, hcs.encodes hpos, hlen.trans hl.symm, ha⟩

/-- With more fuel than input bytes the loop never exhausts its fuel: every turn
reads a marker, and a marker takes at least one byte. -/
theorem readMarked_failsWith {P : ε → Prop} (hm : mark.FailsWith P) (hc : c.FailsWith P)
    (hmk : mark.Consumes k) (hck : c.Consumes k)
    (hpos : ∀ b v n s, mark.read b = .ok ((v, n), s) → 0 < n) {fuel len : ℕ} {acc : List α}
    {b : Bytes} (hf : b.length < fuel) {e : ε}
    (h : readMarked mark c stuck fuel acc len b = .error e) : P e := by
  induction fuel generalizing acc len b with
  | zero => omega
  | succ fuel ih =>
    rw [readMarked] at h
    rcases bind_eq_error h with hmr | ⟨⟨more, m⟩, s, hmr, hrest⟩
    · exact hm b e hmr
    · have hm0 := hpos _ _ _ _ hmr
      obtain ⟨p, rfl, rfl, -⟩ := hmk _ _ _ _ hmr
      cases more with
      | false => cases hrest
      | true =>
        rcases bind_eq_error hrest with hcr | ⟨⟨a, n⟩, s', hcr, hloop⟩
        · exact hc s e hcr
        · obtain ⟨q, rfl, rfl, -⟩ := hck _ _ _ _ hcr
          refine ih ?_ hloop
          simp only [List.length_append] at hf
          omega

theorem FailsWith.marked {P : ε → Prop} (hm : mark.FailsWith P) (hc : c.FailsWith P)
    (hmk : mark.Consumes k) (hck : c.Consumes k)
    (hpos : ∀ b v n s, mark.read b = .ok ((v, n), s) → 0 < n) :
    (marked mark c stuck).FailsWith P :=
  fun b _ h => readMarked_failsWith hm hc hmk hck hpos (Nat.lt_succ_self b.length) h

theorem readMarked_rationed {mark' : Codec ε Bool} {c' : Codec ε α}
    (hm : mark.RationedBy memory refused mark') (hc : c.RationedBy memory refused c')
    (fuel : ℕ) (acc : List α) (len : ℕ) :
    Rationed memory refused (requestsMarked mark c fuel)
      (readMarked mark c stuck fuel acc len) (readMarked mark' c' stuck fuel acc len) := by
  induction fuel generalizing acc len with
  | zero => exact .free _
  | succ fuel ih =>
    apply Rationed.bind hm
    rintro ⟨more, m⟩
    cases more with
    | false => exact .free _
    | true => exact Rationed.bind hc fun _ => ih _ _

theorem RationedBy.marked {mark' : Codec ε Bool} {c' : Codec ε α}
    (hm : mark.RationedBy memory refused mark') (hc : c.RationedBy memory refused c') :
    (marked mark c stuck).RationedBy memory refused (marked mark' c' stuck) :=
  fun b => readMarked_rationed hm hc (b.length + 1) [] 0 b

end Codec

/-! ## A tag and its payload -/

/-- The tag and payload of a value, and for each tag the reader of its payload. -/
structure Tagged (ε τ α : Type) where
  tag : α → τ
  size : α → ℕ
  write : α → ByteM ε ℕ
  read : τ → ByteM ε (α × ℕ)
  requests : τ → Bytes → List ℕ := fun _ _ => []

namespace Tagged

/-- The tag, then the payload. -/
def codec (tc : Codec ε τ) (t : Tagged ε τ α) : Codec ε α where
  size v := tc.size (t.tag v) + t.size v
  write v := do
    let m ← tc.write (t.tag v)
    let n ← t.write v
    pure (m + n)
  read := do
    let (tag, m) ← tc.read
    let (v, n) ← t.read tag
    pure (v, m + n)
  requests b := tc.requests b ++ requestsAfter tc.read (fun r => t.requests r.1) b

/-- `bs` is the payload encoding of `v`, read back under the tag of `v`. -/
structure Encodes (t : Tagged ε τ α) (k : ℕ) (v : α) (bs : Bytes) : Prop where
  size_eq : t.size v = bs.length
  aligned : k ∣ bs.length
  writes : ∀ out, t.write v out = .ok (bs.length, out ++ bs)
  reads : ∀ s, t.read (t.tag v) (bs ++ s) = .ok ((v, bs.length), s)

def Consumes (t : Tagged ε τ α) (k : ℕ) : Prop :=
  ∀ tag b v n s, t.read tag b = .ok ((v, n), s) → ∃ p, b = p ++ s ∧ p.length = n ∧ k ∣ n

def ExactAt (t : Tagged ε τ α) (k : ℕ) (padding : α → List Bool) (v : α) : Prop :=
  ∀ tag b n s, t.read tag b = .ok ((v, n), s) →
    t.tag v = tag ∧ ∃ p bs, b = p ++ s ∧ p.length = n ∧ t.Encodes k v bs ∧ bs.length = n ∧
      AgreesOff (padding v) bs p

def Exact (t : Tagged ε τ α) (k : ℕ) (padding : α → List Bool) : Prop :=
  ∀ tag b v n s, t.read tag b = .ok ((v, n), s) →
    t.tag v = tag ∧ ∃ p bs, b = p ++ s ∧ p.length = n ∧ t.Encodes k v bs ∧ bs.length = n ∧
      AgreesOff (padding v) bs p

def FailsWith (t : Tagged ε τ α) (P : ε → Prop) : Prop :=
  ∀ tag b e, t.read tag b = .error e → P e

def RationedBy (t : Tagged ε τ α) (memory : ℕ → Bool) (refused : ε) (t' : Tagged ε τ α) : Prop :=
  ∀ tag, Rationed memory refused (t.requests tag) (t.read tag) (t'.read tag)

/-- Under `tag` the payload is a value of the format `c`, wrapped by `f`. -/
structure Arm (t : Tagged ε τ α) (tag : τ) (c : Codec ε β) (f : β → α) : Prop where
  read_eq : t.read tag = c.readAs f
  tag_eq : ∀ u, t.tag (f u) = tag
  size_eq : ∀ u, t.size (f u) = c.size u
  write_eq : ∀ u, t.write (f u) = c.write u

namespace Arm

variable {t : Tagged ε τ α} {tag : τ} {c : Codec ε β} {f : β → α}

theorem encodes (ha : t.Arm tag c f) {u : β} {bs : Bytes} (h : c.Encodes k u bs) :
    t.Encodes k (f u) bs where
  size_eq := (ha.size_eq u).trans h.size_eq
  aligned := h.aligned
  writes out := by rw [ha.write_eq, h.writes]
  reads s := by rw [ha.tag_eq, ha.read_eq, Codec.readAs_of_ok (h.reads s)]

theorem consumes (ha : t.Arm tag c f) (h : c.Consumes k) {b s : Bytes} {v : α} {n : ℕ}
    (hr : t.read tag b = .ok ((v, n), s)) : ∃ p, b = p ++ s ∧ p.length = n ∧ k ∣ n := by
  rw [ha.read_eq] at hr
  obtain ⟨u, hu, rfl⟩ := Codec.readAs_eq_ok hr
  exact h b u n s hu

theorem exact (ha : t.Arm tag c f) {pb : β → List Bool} {pa : α → List Bool} (h : c.Exact k pb)
    (hp : ∀ u, pa (f u) = pb u) {b s : Bytes} {v : α} {n : ℕ}
    (hr : t.read tag b = .ok ((v, n), s)) :
    t.tag v = tag ∧ ∃ p bs, b = p ++ s ∧ p.length = n ∧ t.Encodes k v bs ∧ bs.length = n ∧
      AgreesOff (pa v) bs p := by
  rw [ha.read_eq] at hr
  obtain ⟨u, hu, rfl⟩ := Codec.readAs_eq_ok hr
  obtain ⟨p, bs, hb, hn, he, hl, hag⟩ := h b u n s hu
  exact ⟨ha.tag_eq u, p, bs, hb, hn, ha.encodes he, hl, by rwa [hp]⟩

theorem failsWith (ha : t.Arm tag c f) {P : ε → Prop} (h : c.FailsWith P) {b : Bytes} {e : ε}
    (hr : t.read tag b = .error e) : P e := by
  rw [ha.read_eq] at hr
  exact h b e (Codec.readAs_eq_error hr)

end Arm

variable {tc : Codec ε τ} {t : Tagged ε τ α}

theorem codec_read_eq_ok {b s : Bytes} {v : α} {l : ℕ}
    (h : (t.codec tc).read b = .ok ((v, l), s)) :
    ∃ tag m s' n, tc.read b = .ok ((tag, m), s') ∧ t.read tag s' = .ok ((v, n), s) ∧
      l = m + n := by
  obtain ⟨⟨tag, m⟩, s', ht, hrest⟩ := bind_eq_ok h
  obtain ⟨⟨u, n⟩, s'', hu, hp⟩ := bind_eq_ok hrest
  cases hp
  exact ⟨tag, m, s', n, ht, hu, rfl⟩

theorem Encodes.codec {v : α} {ts bs : Bytes} (ht : tc.Encodes k (t.tag v) ts)
    (h : t.Encodes k v bs) : (t.codec tc).Encodes k v (ts ++ bs) where
  size_eq := by simp [Tagged.codec, ht.size_eq, h.size_eq]
  aligned := by
    rw [List.length_append]
    exact dvd_add ht.aligned h.aligned
  writes out := by
    show (tc.write (t.tag v) >>= _) out = _
    rw [bind_of_ok (ht.writes out), bind_of_ok (h.writes (out ++ ts))]
    simp
  reads s := by
    show (tc.read >>= _) (ts ++ bs ++ s) = _
    rw [List.append_assoc, bind_of_ok (ht.reads (bs ++ s))]
    show (t.read (t.tag v) >>= _) (bs ++ s) = _
    rw [bind_of_ok (h.reads s)]
    simp

theorem Consumes.codec (ht : tc.Consumes k) (h : t.Consumes k) : (t.codec tc).Consumes k := by
  intro b v l s hb
  obtain ⟨tag, m, s', n, htr, hrs, rfl⟩ := codec_read_eq_ok hb
  obtain ⟨p, rfl, rfl, hm⟩ := ht _ _ _ _ htr
  obtain ⟨q, rfl, rfl, hn⟩ := h _ _ _ _ _ hrs
  exact ⟨p ++ q, by simp, by simp, dvd_add hm hn⟩

theorem ExactAt.codec {pt : τ → List Bool} {pa : α → List Bool} {v : α} (ht : tc.Exact k pt)
    (h : t.ExactAt k pa v) : (t.codec tc).ExactAt k (fun v => pt (t.tag v) ++ pa v) v := by
  intro b l s hb
  obtain ⟨tag, m, s', n, htr, hrs, rfl⟩ := codec_read_eq_ok hb
  obtain ⟨p, ts, rfl, rfl, het, hlt, hat⟩ := ht _ _ _ _ htr
  obtain ⟨rfl, q, bs, rfl, rfl, hea, hla, haa⟩ := h _ _ _ _ hrs
  exact ⟨p ++ q, ts ++ bs, by simp, by simp, hea.codec het, by simp [hlt, hla], hat.append haa⟩

theorem Exact.codec {pt : τ → List Bool} {pa : α → List Bool} (ht : tc.Exact k pt)
    (h : t.Exact k pa) : (t.codec tc).Exact k (fun v => pt (t.tag v) ++ pa v) :=
  fun b v l s hb => (ExactAt.codec ht fun tag b n s hr => h tag b v n s hr) b l s hb

theorem FailsWith.codec {P : ε → Prop} (ht : tc.FailsWith P) (h : t.FailsWith P) :
    (t.codec tc).FailsWith P := by
  intro b e hb
  rcases bind_eq_error hb with htr | ⟨⟨tag, m⟩, s', -, hrest⟩
  · exact ht b e htr
  · rcases bind_eq_error hrest with hrs | ⟨⟨u, n⟩, s'', -, hp⟩
    · exact h tag s' e hrs
    · cases hp

theorem RationedBy.codec {tc' : Codec ε τ} {t' : Tagged ε τ α}
    (ht : tc.RationedBy memory refused tc') (h : t.RationedBy memory refused t') :
    (t.codec tc).RationedBy memory refused (t'.codec tc') :=
  Rationed.bind ht fun r => Rationed.then_free (h r.1) _

end Tagged

/-! ## Alternatives -/

/-- The arms of a tagged union over tags `τ`: the tag and payload of a value, and
for each tag the reader of its payload. -/
structure Arms (ε τ α : Type) where
  tags : List τ
  tag : α → τ
  size : α → ℕ
  write : α → ByteM ε ℕ
  read : τ → Option (ByteM ε (α × ℕ))
  requests : τ → Bytes → List ℕ := fun _ _ => []

namespace Arms

def one [DecidableEq τ] (t : τ) (c : Codec ε α) : Arms ε τ α where
  tags := [t]
  tag := fun _ => t
  size := c.size
  write := c.write
  read := fun t' => if t' = t then some c.read else none
  requests := fun t' b => if t' = t then c.requests b else []

def or (a : Arms ε τ α) (b : Arms ε τ β) : Arms ε τ (α ⊕ β) where
  tags := a.tags ++ b.tags
  tag := Sum.elim a.tag b.tag
  size := Sum.elim a.size b.size
  write := Sum.elim a.write b.write
  read := fun t =>
    match a.read t with
    | some r => some ((fun p => (Sum.inl p.1, p.2)) <$> r)
    | none =>
      match b.read t with
      | some r => some ((fun p => (Sum.inr p.1, p.2)) <$> r)
      | none => none
  requests := fun t => if (a.read t).isSome then a.requests t else b.requests t

/-- An unknown tag is an error. -/
def tagged (a : Arms ε τ α) (unknown : τ → ε) : Tagged ε τ α where
  tag := a.tag
  size := a.size
  write := a.write
  read t :=
    match a.read t with
    | some r => r
    | none => throw (unknown t)
  requests := a.requests

/-- Values carry listed tags, and only listed tags have a reader. -/
structure Closed (a : Arms ε τ α) : Prop where
  tag_mem : ∀ v, a.tag v ∈ a.tags
  read_none : ∀ t, t ∉ a.tags → a.read t = none

theorem Closed.one [DecidableEq τ] (t : τ) (c : Codec ε α) : (Arms.one t c).Closed where
  tag_mem v := by simp [Arms.one]
  read_none t' h := by
    have hne : t' ≠ t := by simpa [Arms.one] using h
    simp [Arms.one, hne]

theorem Closed.or {a : Arms ε τ α} {b : Arms ε τ β} (ha : a.Closed) (hb : b.Closed) :
    (a.or b).Closed where
  tag_mem v := by
    cases v with
    | inl v => exact List.mem_append_left _ (ha.tag_mem v)
    | inr v => exact List.mem_append_right _ (hb.tag_mem v)
  read_none t h := by
    have h' : t ∉ a.tags ∧ t ∉ b.tags := by simpa [Arms.or] using h
    simp [Arms.or, ha.read_none t h'.1, hb.read_none t h'.2]

/-- `bs` is the payload encoding of `v`, read back under the tag of `v`. -/
structure Encodes (a : Arms ε τ α) (k : ℕ) (v : α) (bs : Bytes) : Prop where
  size_eq : a.size v = bs.length
  aligned : k ∣ bs.length
  writes : ∀ out, a.write v out = .ok (bs.length, out ++ bs)
  reads : ∃ r, a.read (a.tag v) = some r ∧ ∀ s, r (bs ++ s) = .ok ((v, bs.length), s)

def Consumes (a : Arms ε τ α) (k : ℕ) : Prop :=
  ∀ t r, a.read t = some r → ∀ b v n s, r b = .ok ((v, n), s) →
    ∃ p, b = p ++ s ∧ p.length = n ∧ k ∣ n

def Exact (a : Arms ε τ α) (k : ℕ) (padding : α → List Bool) : Prop :=
  ∀ t r, a.read t = some r → ∀ b v n s, r b = .ok ((v, n), s) →
    a.tag v = t ∧ ∃ p bs, b = p ++ s ∧ p.length = n ∧ a.Encodes k v bs ∧ bs.length = n ∧
      AgreesOff (padding v) bs p

def FailsWith (a : Arms ε τ α) (P : ε → Prop) : Prop :=
  ∀ t r, a.read t = some r → ∀ b e, r b = .error e → P e

/-- The same tags have a reader on both sides, and without one nothing is asked for. -/
structure RationedBy (a : Arms ε τ α) (memory : ℕ → Bool) (refused : ε) (a' : Arms ε τ α) :
    Prop where
  unknown : ∀ t, a.read t = none → a'.read t = none ∧ a.requests t = fun _ => []
  known : ∀ t r, a.read t = some r →
    ∃ r', a'.read t = some r' ∧ Rationed memory refused (a.requests t) r r'

section One

variable [DecidableEq τ]

theorem one_read_eq_some {t t' : τ} {c : Codec ε α} {r : ByteM ε (α × ℕ)}
    (h : (Arms.one t c).read t' = some r) : t' = t ∧ r = c.read := by
  by_cases ht : t' = t
  · simp only [Arms.one, ht, ↓reduceIte, Option.some.injEq] at h
    exact ⟨ht, h.symm⟩
  · simp [Arms.one, ht] at h

theorem Encodes.one (t : τ) {c : Codec ε α} {v : α} {bs : Bytes} (h : c.Encodes k v bs) :
    (Arms.one t c).Encodes k v bs where
  size_eq := h.size_eq
  aligned := h.aligned
  writes := h.writes
  reads := ⟨c.read, by simp [Arms.one], h.reads⟩

theorem Consumes.one (t : τ) {c : Codec ε α} (h : c.Consumes k) : (Arms.one t c).Consumes k := by
  intro t' r hr b v n s hb
  obtain ⟨rfl, rfl⟩ := one_read_eq_some hr
  exact h b v n s hb

theorem Exact.one (t : τ) {c : Codec ε α} {padding : α → List Bool} (h : c.Exact k padding) :
    (Arms.one t c).Exact k padding := by
  intro t' r hr b v n s hb
  obtain ⟨rfl, rfl⟩ := one_read_eq_some hr
  obtain ⟨p, bs, hp, hn, he, hl, ha⟩ := h b v n s hb
  exact ⟨rfl, p, bs, hp, hn, Encodes.one t' he, hl, ha⟩

theorem FailsWith.one (t : τ) {c : Codec ε α} {P : ε → Prop} (h : c.FailsWith P) :
    (Arms.one t c).FailsWith P := by
  intro t' r hr b e hb
  obtain ⟨rfl, rfl⟩ := one_read_eq_some hr
  exact h b e hb

theorem RationedBy.one (t : τ) {c c' : Codec ε α} (h : c.RationedBy memory refused c') :
    (Arms.one t c).RationedBy memory refused (Arms.one t c') where
  unknown t' hr := by
    have hne : t' ≠ t := by
      rintro rfl
      simp [Arms.one] at hr
    simp [Arms.one, hne]
  known t' r hr := by
    obtain ⟨rfl, rfl⟩ := one_read_eq_some hr
    exact ⟨c'.read, by simp [Arms.one], by simpa [Arms.one, Codec.RationedBy] using h⟩

end One

theorem map_eq_ok {γ δ : Type} {f : γ → δ} {r : ByteM ε γ} {b s : Bytes} {w : δ}
    (h : (f <$> r) b = .ok (w, s)) : ∃ u, r b = .ok (u, s) ∧ w = f u := by
  rw [map_eq_pure_bind] at h
  obtain ⟨u, s', hr, hp⟩ := bind_eq_ok h
  cases hp
  exact ⟨u, hr, rfl⟩

theorem map_of_ok {γ δ : Type} {f : γ → δ} {r : ByteM ε γ} {b s : Bytes} {u : γ}
    (h : r b = .ok (u, s)) : (f <$> r) b = .ok (f u, s) := by
  rw [map_eq_pure_bind, bind_of_ok h]
  rfl

theorem map_eq_error {γ δ : Type} {f : γ → δ} {r : ByteM ε γ} {b : Bytes} {e : ε}
    (h : (f <$> r) b = .error e) : r b = .error e := by
  rw [map_eq_pure_bind] at h
  rcases bind_eq_error h with hr | ⟨u, s, -, hp⟩
  · exact hr
  · cases hp

section Or

variable {a : Arms ε τ α} {b : Arms ε τ β}

theorem or_read_eq_some {t : τ} {r : ByteM ε ((α ⊕ β) × ℕ)} (h : (a.or b).read t = some r) :
    (∃ ra, a.read t = some ra ∧ r = (fun p => (Sum.inl p.1, p.2)) <$> ra) ∨
      ∃ rb, a.read t = none ∧ b.read t = some rb ∧ r = (fun p => (Sum.inr p.1, p.2)) <$> rb := by
  simp only [Arms.or] at h
  cases ha : a.read t with
  | some ra =>
    simp only [ha, Option.some.injEq] at h
    exact Or.inl ⟨ra, rfl, h.symm⟩
  | none =>
    cases hb : b.read t with
    | some rb =>
      simp only [ha, hb, Option.some.injEq] at h
      exact Or.inr ⟨rb, rfl, rfl, h.symm⟩
    | none => simp [ha, hb] at h

theorem Encodes.inl {v : α} {bs : Bytes} (h : a.Encodes k v bs) :
    (a.or b).Encodes k (.inl v) bs where
  size_eq := h.size_eq
  aligned := h.aligned
  writes := h.writes
  reads := by
    obtain ⟨r, hr, hs⟩ := h.reads
    refine ⟨(fun p => (Sum.inl p.1, p.2)) <$> r, ?_, fun s => map_of_ok (hs s)⟩
    simp [Arms.or, hr]

/-- The right arm is reached only when the tags of the two sides are disjoint. -/
theorem Encodes.inr (ha : a.Closed) (hb : b.Closed) (hd : (a.or b).tags.Nodup) {w : β}
    {bs : Bytes} (h : b.Encodes k w bs) : (a.or b).Encodes k (.inr w) bs where
  size_eq := h.size_eq
  aligned := h.aligned
  writes := h.writes
  reads := by
    obtain ⟨r, hr, hs⟩ := h.reads
    have hnot : b.tag w ∉ a.tags := fun hm =>
      (List.disjoint_of_nodup_append hd) hm (hb.tag_mem w)
    refine ⟨(fun p => (Sum.inr p.1, p.2)) <$> r, ?_, fun s => map_of_ok (hs s)⟩
    simp [Arms.or, ha.read_none _ hnot, hr]

theorem Consumes.or (ha : a.Consumes k) (hb : b.Consumes k) : (a.or b).Consumes k := by
  intro t r hr i v n s hi
  rcases or_read_eq_some hr with ⟨ra, hra, rfl⟩ | ⟨rb, -, hrb, rfl⟩
  · obtain ⟨⟨u, m⟩, hu, heq⟩ := map_eq_ok hi
    cases heq
    exact ha t ra hra i u m s hu
  · obtain ⟨⟨u, m⟩, hu, heq⟩ := map_eq_ok hi
    cases heq
    exact hb t rb hrb i u m s hu

theorem Exact.or {pa : α → List Bool} {pb : β → List Bool} (hca : a.Closed) (hcb : b.Closed)
    (hd : (a.or b).tags.Nodup) (ha : a.Exact k pa) (hb : b.Exact k pb) :
    (a.or b).Exact k (Sum.elim pa pb) := by
  intro t r hr i v n s hi
  rcases or_read_eq_some hr with ⟨ra, hra, rfl⟩ | ⟨rb, -, hrb, rfl⟩
  · obtain ⟨⟨u, m⟩, hu, heq⟩ := map_eq_ok hi
    cases heq
    obtain ⟨ht, p, bs, hp, hn, he, hl, hag⟩ := ha t ra hra i u m s hu
    exact ⟨ht, p, bs, hp, hn, he.inl, hl, hag⟩
  · obtain ⟨⟨u, m⟩, hu, heq⟩ := map_eq_ok hi
    cases heq
    obtain ⟨ht, p, bs, hp, hn, he, hl, hag⟩ := hb t rb hrb i u m s hu
    exact ⟨ht, p, bs, hp, hn, he.inr hca hcb hd, hl, hag⟩

theorem FailsWith.or {P : ε → Prop} (ha : a.FailsWith P) (hb : b.FailsWith P) :
    (a.or b).FailsWith P := by
  intro t r hr i e hi
  rcases or_read_eq_some hr with ⟨ra, hra, rfl⟩ | ⟨rb, -, hrb, rfl⟩
  · exact ha t ra hra i e (map_eq_error hi)
  · exact hb t rb hrb i e (map_eq_error hi)

theorem map_rationed {γ δ : Type} {f : γ → δ} {requests : Bytes → List ℕ} {r r' : ByteM ε γ}
    (h : Rationed memory refused requests r r') :
    Rationed memory refused requests (f <$> r) (f <$> r') := by
  rw [map_eq_pure_bind, map_eq_pure_bind]
  exact h.then_free _

theorem RationedBy.or {a' : Arms ε τ α} {b' : Arms ε τ β}
    (ha : a.RationedBy memory refused a') (hb : b.RationedBy memory refused b') :
    (a.or b).RationedBy memory refused (a'.or b') where
  unknown t hr := by
    cases hra : a.read t with
    | some ra => simp [Arms.or, hra] at hr
    | none =>
      cases hrb : b.read t with
      | some rb => simp [Arms.or, hra, hrb] at hr
      | none =>
        simp [Arms.or, hra, (ha.unknown t hra).1, (hb.unknown t hrb).1, (hb.unknown t hrb).2]
  known t r hr := by
    rcases or_read_eq_some hr with ⟨ra, hra, rfl⟩ | ⟨rb, hra, hrb, rfl⟩
    · obtain ⟨ra', hra', h⟩ := ha.known t ra hra
      refine ⟨(fun p => (Sum.inl p.1, p.2)) <$> ra', by simp [Arms.or, hra'], ?_⟩
      simpa [Arms.or, hra] using map_rationed h
    · obtain ⟨rb', hrb', h⟩ := hb.known t rb hrb
      refine ⟨(fun p => (Sum.inr p.1, p.2)) <$> rb', ?_, ?_⟩
      · simp [Arms.or, (ha.unknown t hra).1, hrb']
      · simpa [Arms.or, hra] using map_rationed h

end Or

section Tagged

variable {unknown : τ → ε} {a : Arms ε τ α}

theorem tagged_read_eq_ok {t : τ} {b : Bytes} {r : (α × ℕ) × Bytes}
    (h : (a.tagged unknown).read t b = .ok r) : ∃ rd, a.read t = some rd ∧ rd b = .ok r := by
  simp only [Arms.tagged] at h
  cases hr : a.read t with
  | none =>
    rw [hr] at h
    cases h
  | some rd =>
    rw [hr] at h
    exact ⟨rd, rfl, h⟩

theorem Encodes.tagged {v : α} {bs : Bytes} (h : a.Encodes k v bs) :
    (a.tagged unknown).Encodes k v bs where
  size_eq := h.size_eq
  aligned := h.aligned
  writes := h.writes
  reads s := by
    obtain ⟨r, hr, hs⟩ := h.reads
    simpa [Arms.tagged, hr] using hs s

theorem Consumes.tagged (h : a.Consumes k) : (a.tagged unknown).Consumes k := by
  intro t b v n s hb
  obtain ⟨r, hr, hrs⟩ := tagged_read_eq_ok hb
  exact h t r hr b v n s hrs

theorem Exact.tagged {padding : α → List Bool} (h : a.Exact k padding) :
    (a.tagged unknown).Exact k padding := by
  intro t b v n s hb
  obtain ⟨r, hr, hrs⟩ := tagged_read_eq_ok hb
  obtain ⟨ht, p, bs, hp, hn, he, hl, ha⟩ := h t r hr b v n s hrs
  exact ⟨ht, p, bs, hp, hn, he.tagged, hl, ha⟩

theorem FailsWith.tagged {P : ε → Prop} (h : a.FailsWith P) (hu : ∀ t, P (unknown t)) :
    (a.tagged unknown).FailsWith P := by
  intro t b e hb
  simp only [Arms.tagged] at hb
  cases hr : a.read t with
  | none =>
    rw [hr] at hb
    cases hb
    exact hu t
  | some r =>
    rw [hr] at hb
    exact h t r hr b e hb

theorem RationedBy.tagged {a' : Arms ε τ α} (h : a.RationedBy memory refused a') :
    (a.tagged unknown).RationedBy memory refused (a'.tagged unknown) := by
  intro t
  cases hr : a.read t with
  | none =>
    obtain ⟨hr', hreq⟩ := h.unknown t hr
    simp only [Arms.tagged, hr, hr', hreq]
    exact .free _
  | some r =>
    obtain ⟨r', hr', hration⟩ := h.known t r hr
    simpa only [Arms.tagged, hr, hr'] using hration

end Tagged

end Arms

end ByteCodec
