import Nfs3.Lib.Overlay
import Nfs3.Server.MemFs.Basic

/-!
# Writes to one file in any order

The server runs every request in a task of its own, so writes that a client sends together may
reach a file in any order. A write that starts behind the end of the file is refused instead of
extending it, and whether it does can depend on the writes processed before.

What a write that is not refused leaves behind is an overlay of its data on the content.
-/
namespace Nfs3.Memfs

open ByteOrder (Bytes)
open Overlay (Patch)

structure WriteRequest where
  offset : UInt64
  data : Bytes
  deriving DecidableEq

namespace WriteRequest

def patch (w : WriteRequest) : Patch UInt8 := ⟨w.offset.toNat, w.data⟩

/-- The position behind the last byte of the request. -/
def stop (w : WriteRequest) : ℕ := w.patch.stop

/-- No byte is in the range of both requests. -/
def Disjoint (w w' : WriteRequest) : Prop := w.patch.Disjoint w'.patch

end WriteRequest

namespace MemFs

/-- The requests are processed in the order of the list; the status of each is kept with it. -/
def processWrites (id : FileHandleU64) :
    MemFs → List WriteRequest → Option (List (WriteRequest × Except Nfsstat3 Unit) × MemFs)
  | s, [] => some ([], s)
  | s, w :: ws =>
    (s.write id w.offset w.data).bind fun (r, s) =>
      (processWrites id s ws).map fun (statuses, s) => ((w, r.map fun _ => ()) :: statuses, s)

/-- In whatever order the requests are processed, the calls return, every request gets the same
status, and the file ends with the same content and size. -/
def OrderIrrelevant (s : MemFs) (id : FileHandleU64) (ws : List WriteRequest) : Prop :=
  ∀ ws₁ ws₂, ws₁.Perm ws → ws₂.Perm ws → ∃ statuses₁ s₁ file₁ statuses₂ s₂ file₂,
    s.processWrites id ws₁ = some (statuses₁, s₁) ∧ s₁.fs.get id = some (.file file₁) ∧
    s.processWrites id ws₂ = some (statuses₂, s₂) ∧ s₂.fs.get id = some (.file file₂) ∧
    statuses₁.Perm statuses₂ ∧ file₁.content = file₂.content ∧ file₁.attr.size = file₂.attr.size

end MemFs

/-- No request starts behind the end of the file, at or before the end of another that starts
within it, and none that starts within the file outgrows the largest vector. -/
structure WritesCommute (len : ℕ) (ws : List WriteRequest) : Prop where
  apart : ∀ w ∈ ws, ∀ w' ∈ ws, w.offset.toNat ≤ len → len < w'.offset.toNat →
    w.stop < w'.offset.toNat
  fits : ∀ w ∈ ws, w.offset.toNat ≤ len → len < w.stop → w.stop ≤ maxCapacity

theorem WritesCommute.perm {len : ℕ} {ws ws' : List WriteRequest} (h : WritesCommute len ws)
    (hperm : ws.Perm ws') : WritesCommute len ws' where
  apart w hw w' hw' := h.apart w (hperm.mem_iff.mpr hw) w' (hperm.mem_iff.mpr hw')
  fits w hw := h.fits w (hperm.mem_iff.mpr hw)

namespace File

variable {f : File} {w : WriteRequest} {ws : List WriteRequest} {c c' : Bytes}

/-- The file with a new content; the size is only touched when the file grows. -/
def grown (f : File) (c : Bytes) : File :=
  if f.content.length < c.length then
    { f with
      content := c
      attr := { f.attr with size := .ofNat c.length, used := .ofNat c.length } }
  else { f with content := c }

@[simp]
theorem content_grown : (f.grown c).content = c := by
  unfold grown
  split_ifs <;> rfl

theorem grown_self : f.grown f.content = f := by
  simp [grown]

theorem grown_grown (h : f.content.length ≤ c.length) (h' : c.length ≤ c'.length) :
    (f.grown c).grown c' = f.grown c' := by
  by_cases hc : f.content.length < c.length
  · have houter : f.content.length < c'.length := by omega
    by_cases hc' : c.length < c'.length
    · simp [grown, hc, hc', houter]
    · have hlength : c'.length = c.length := by omega
      simp [grown, hc, hlength]
  · have hlength : c.length = f.content.length := by omega
    simp [grown, hlength]

theorem write_refused (h : f.content.length < w.offset.toNat) :
    f.write w.offset w.data = some (.error .nfs3errInval) := by
  rw [write, if_pos h]

theorem write_overflows (h : w.offset.toNat ≤ f.content.length) (hgrow : f.content.length < w.stop)
    (hcap : maxCapacity < w.stop) : f.write w.offset w.data = none := by
  have hstop : w.stop = w.offset.toNat + w.data.length := rfl
  simp only [write]
  rw [if_neg (by omega), if_pos (by omega), if_neg (by omega)]
  rfl

theorem write_accepted (h : w.offset.toNat ≤ f.content.length)
    (hcap : f.content.length < w.stop → w.stop ≤ maxCapacity) :
    f.write w.offset w.data = some (.ok (f.grown (Overlay.apply f.content w.patch))) := by
  have hstop : w.stop = w.offset.toNat + w.data.length := rfl
  have hlength : (Overlay.apply f.content w.patch).length = max f.content.length w.stop :=
    Overlay.length_apply h
  simp only [write]
  rw [if_neg (by omega)]
  by_cases hgrow : f.content.length < w.stop
  · have hfits := hcap hgrow
    have hsmall : (UInt64.ofNat w.stop).toNat = w.stop := by
      rw [UInt64.toNat_ofNat']
      unfold maxCapacity at hfits
      omega
    rw [if_pos (by omega), if_pos (by omega), resize, ← hstop, if_pos (by omega), hsmall]
    unfold grown
    have hmax : max f.content.length w.stop = w.stop := by omega
    rw [hlength, hmax, if_pos hgrow]
    simp only [Option.map_some, Option.some.injEq, Except.ok.injEq]
    congr 1
    -- the zeroes the file was extended with are all overwritten
    have htake : f.content.take w.stop = f.content := List.take_of_length_le (by omega)
    have hdrop : f.content.drop w.stop = [] := List.drop_of_length_le (by omega)
    have hpatch : w.patch.stop = w.stop := rfl
    rw [Overlay.apply, hpatch, htake, hdrop, List.take_append_of_le_length h,
      List.drop_append, hdrop]
    simp [WriteRequest.patch]
  · rw [if_neg (by omega)]
    unfold grown
    rw [hlength, if_neg (by omega)]
    rfl

/-- The requests processed one after the other on the file alone. -/
def writes : File → List WriteRequest → Option (List (WriteRequest × Except Nfsstat3 Unit) × File)
  | f, [] => some ([], f)
  | f, w :: ws =>
    (f.write w.offset w.data).bind fun
      | .error e => (writes f ws).map fun (statuses, f) => ((w, .error e) :: statuses, f)
      | .ok f => (writes f ws).map fun (statuses, f) => ((w, .ok ()) :: statuses, f)

/-- What each request is answered when the order does not matter. -/
def status (len : ℕ) (w : WriteRequest) : WriteRequest × Except Nfsstat3 Unit :=
  (w, if w.offset.toNat ≤ len then .ok () else .error .nfs3errInval)

/-- The data of the requests that start within the file. -/
def accepted (len : ℕ) (ws : List WriteRequest) : List (Patch UInt8) :=
  (ws.filter fun w => w.offset.toNat ≤ len).map WriteRequest.patch

theorem writes_eq (hlen : f.content.length ≤ c.length)
    (hclear : ∀ w ∈ ws, f.content.length < w.offset.toNat → c.length < w.offset.toNat)
    (h : WritesCommute f.content.length ws) :
    (f.grown c).writes ws = some (ws.map (status f.content.length),
      f.grown ((accepted f.content.length ws).foldl Overlay.apply c)) := by
  induction ws generalizing c with
  | nil => rfl
  | cons w ws ih =>
    have htail : WritesCommute f.content.length ws :=
      ⟨fun w₁ h₁ w₂ h₂ => h.apart w₁ (List.mem_cons_of_mem w h₁) w₂ (List.mem_cons_of_mem w h₂),
        fun w₁ h₁ => h.fits w₁ (List.mem_cons_of_mem w h₁)⟩
    have hcontent : (f.grown c).content = c := content_grown
    by_cases hstart : w.offset.toNat ≤ f.content.length
    · have hfits : (f.grown c).content.length < w.stop → w.stop ≤ maxCapacity := by
        rw [hcontent]
        intro hgrow
        exact h.fits w List.mem_cons_self hstart (by omega)
      have hwrite := write_accepted (f := f.grown c) (w := w) (by rw [hcontent]; omega) hfits
      have hlength : (Overlay.apply c w.patch).length = max c.length w.stop :=
        Overlay.length_apply (hstart.trans hlen)
      rw [hcontent, grown_grown hlen (by omega)] at hwrite
      have hrest := ih (c := Overlay.apply c w.patch) (by omega) ?_ htail
      · simp only [writes, hwrite, Option.bind_some, hrest, Option.map_some, List.map_cons]
        simp [status, accepted, hstart]
      · intro w' hw' hbehind
        have h₁ := hclear w' (List.mem_cons_of_mem w hw') hbehind
        have h₂ := h.apart w List.mem_cons_self w' (List.mem_cons_of_mem w hw') hstart hbehind
        omega
    · have hbehind := hclear w List.mem_cons_self (by omega)
      have hwrite := write_refused (f := f.grown c) (w := w) (by rw [hcontent]; omega)
      have hrest := ih hlen (fun w' hw' => hclear w' (List.mem_cons_of_mem w hw')) htail
      simp only [writes, hwrite, Option.bind_some, hrest, Option.map_some, List.map_cons]
      simp [status, accepted, hstart]

theorem writes_perm {ws₁ ws₂ : List WriteRequest} (hdisjoint : ws₁.Pairwise WriteRequest.Disjoint)
    (h : WritesCommute f.content.length ws₁) (hperm : ws₁.Perm ws₂) :
    ∃ statuses₁ statuses₂ f', f.writes ws₁ = some (statuses₁, f') ∧
      f.writes ws₂ = some (statuses₂, f') ∧ statuses₁.Perm statuses₂ := by
  have hrun₁ := writes_eq (f := f) (c := f.content) le_rfl (fun _ _ hw => hw) h
  have hrun₂ := writes_eq (f := f) (c := f.content) le_rfl (fun _ _ hw => hw) (h.perm hperm)
  have hstart : ∀ p ∈ accepted f.content.length ws₁, p.start ≤ f.content.length := by
    intro p hp
    obtain ⟨w, hw, rfl⟩ := List.mem_map.mp hp
    have hle := (List.mem_filter.mp hw).2
    exact of_decide_eq_true hle
  have hpairwise : (accepted f.content.length ws₁).Pairwise Patch.Disjoint :=
    List.pairwise_map.mpr (hdisjoint.filter _)
  have hfold := Overlay.foldl_apply_perm hstart hpairwise ((hperm.filter _).map _)
  rw [grown_self] at hrun₁ hrun₂
  refine ⟨_, _, _, hrun₁, ?_, hperm.map _⟩
  rw [hrun₂, hfold]
  rfl

theorem write_of_le {r : Except Nfsstat3 File} (hstart : w.offset.toNat ≤ f.content.length)
    (h : f.write w.offset w.data = some r) :
    r = .ok (f.grown (Overlay.apply f.content w.patch)) := by
  by_cases hcap : f.content.length < w.stop → w.stop ≤ maxCapacity
  · rw [write_accepted hstart hcap] at h
    exact (Option.some.inj h).symm
  · obtain ⟨hgrow, hover⟩ := Classical.not_imp.mp hcap
    rw [write_overflows hstart hgrow (by omega)] at h
    cases h

theorem length_write {f' : File} (h : f.write w.offset w.data = some (.ok f')) :
    f.content.length ≤ f'.content.length ∧ w.stop ≤ f'.content.length := by
  by_cases hstart : w.offset.toNat ≤ f.content.length
  · have hlength : (Overlay.apply f.content w.patch).length = max f.content.length w.stop :=
      Overlay.length_apply hstart
    cases write_of_le hstart h
    rw [content_grown]
    omega
  · rw [write_refused (by omega)] at h
    cases h

/-- A file only grows, so a request that starts within it is accepted whenever it comes. -/
theorem writes_ok {f' : File} {statuses : List (WriteRequest × Except Nfsstat3 Unit)}
    (h : f.writes ws = some (statuses, f')) {r : Except Nfsstat3 Unit} (hw : (w, r) ∈ statuses)
    (hstart : w.offset.toNat ≤ f.content.length) : r = .ok () := by
  induction ws generalizing f statuses with
  | nil =>
    cases h
    cases hw
  | cons w₁ ws ih =>
    obtain ⟨r₁, hwrite, hrest⟩ := Option.bind_eq_some_iff.mp h
    cases r₁ with
    | error e =>
      obtain ⟨⟨rest, f₁⟩, hrun, heq⟩ := Option.map_eq_some_iff.mp hrest
      cases heq
      rcases List.mem_cons.mp hw with hhead | htail
      · cases hhead
        cases write_of_le hstart hwrite
      · exact ih hrun htail hstart
    | ok f₂ =>
      obtain ⟨⟨rest, f₁⟩, hrun, heq⟩ := Option.map_eq_some_iff.mp hrest
      cases heq
      rcases List.mem_cons.mp hw with hhead | htail
      · cases hhead
        rfl
      · exact ih hrun htail (hstart.trans (length_write hwrite).1)

end File

namespace MemFs

variable {s : MemFs} {id : FileHandleU64} {f : File} {ws : List WriteRequest}

theorem processWrites_eq (h : s.fs.get id = some (.file f)) :
    s.processWrites id ws = (f.writes ws).map fun (statuses, f) =>
      (statuses, { s with fs := s.fs.insert id (.file f) }) := by
  induction ws generalizing s f with
  | nil =>
    simp [processWrites, File.writes, Fs.insert_self h]
  | cons w ws ih =>
    simp only [processWrites, MemFs.write, h, File.writes]
    cases hwrite : f.write w.offset w.data with
    | none => rfl
    | some r =>
      cases r with
      | error e =>
        simp only [Option.map_some, Option.bind_some, ih h, Option.map_map]
        rfl
      | ok f' =>
        have hget : ({ s with fs := s.fs.insert id (.file f') } : MemFs).fs.get id =
            some (.file f') := Fs.get_insert_self
        simp only [Option.map_some, Option.bind_some, ih hget, Option.map_map]
        congr 1
        funext x
        simp [Fs.insert, Except.map]

/-- Requests with disjoint ranges can be processed in any order if and only if none starts
behind the end of the file where another one may have moved it. -/
theorem writes_order_irrelevant_iff (h : s.fs.get id = some (.file f))
    (hdisjoint : ws.Pairwise WriteRequest.Disjoint) :
    s.OrderIrrelevant id ws ↔ WritesCommute f.content.length ws := by
  constructor
  · intro horder
    constructor
    · intro w hw w' hw' hstart hbehind
      by_contra hreach
      -- `w'` first is refused, after `w` it is accepted
      obtain ⟨statuses₁, s₁, -, statuses₂, s₂, -, hrun₁, -, hrun₂, -, hperm, -⟩ :=
        horder (w' :: ws.erase w') (w :: ws.erase w) (List.perm_cons_erase hw').symm
          (List.perm_cons_erase hw).symm
      rw [processWrites_eq h] at hrun₁ hrun₂
      obtain ⟨⟨out₁, f₁⟩, hout₁, heq₁⟩ := Option.map_eq_some_iff.mp hrun₁
      obtain ⟨⟨out₂, f₂⟩, hout₂, heq₂⟩ := Option.map_eq_some_iff.mp hrun₂
      cases heq₁
      cases heq₂
      have hrefused : (w', .error .nfs3errInval) ∈ statuses₁ := by
        rw [File.writes, File.write_refused hbehind] at hout₁
        obtain ⟨⟨rest, f₃⟩, -, heq⟩ := Option.map_eq_some_iff.mp hout₁
        cases heq
        exact List.mem_cons_self
      have hmem := hperm.mem_iff.mp hrefused
      obtain ⟨r, hwrite, hrest⟩ := Option.bind_eq_some_iff.mp hout₂
      have hr := File.write_of_le hstart hwrite
      subst hr
      obtain ⟨⟨rest, f₃⟩, hrun, heq⟩ := Option.map_eq_some_iff.mp hrest
      cases heq
      rcases List.mem_cons.mp hmem with hhead | htail
      · cases hhead
      · have hgrown := (File.length_write hwrite).2
        have hok := File.writes_ok hrun htail (by omega)
        cases hok
    · intro w hw hstart hgrow
      by_contra hcap
      obtain ⟨statuses₁, s₁, -, -, -, -, hrun₁, -⟩ :=
        horder (w :: ws.erase w) ws (List.perm_cons_erase hw).symm (.refl ws)
      rw [processWrites_eq h, File.writes, File.write_overflows hstart hgrow (by omega)] at hrun₁
      cases hrun₁
  · intro hcommute ws₁ ws₂ hperm₁ hperm₂
    have hcommute₁ : WritesCommute f.content.length ws₁ := hcommute.perm hperm₁.symm
    have hdisjoint₁ : ws₁.Pairwise WriteRequest.Disjoint :=
      (hperm₁.pairwise_iff fun hd => hd.symm).mpr hdisjoint
    obtain ⟨statuses₁, statuses₂, f', hrun₁, hrun₂, hperm⟩ :=
      File.writes_perm hdisjoint₁ hcommute₁ (hperm₁.trans hperm₂.symm)
    refine ⟨statuses₁, { s with fs := s.fs.insert id (.file f') }, f', statuses₂,
      { s with fs := s.fs.insert id (.file f') }, f', ?_, Fs.get_insert_self, ?_,
      Fs.get_insert_self, hperm, rfl, rfl⟩
    · rw [processWrites_eq h, hrun₁]
      rfl
    · rw [processWrites_eq h, hrun₂]
      rfl

/-- A file of two bytes under the handle 2. -/
def sampleFile : MemFs :=
  let file := File.new ⟨⟨[0x66]⟩⟩ 2 [0x78, 0x79] ⟨Vector.replicate 8 0⟩ ⟨0, 0⟩
  { default ⟨0, 0⟩ with fs := (Fs.new ⟨0, 0⟩).insert 2 (.file file) }

theorem writes_order_irrelevant_gap :
    sampleFile.OrderIrrelevant 2 [⟨0, [0x61]⟩, ⟨1, [0x62, 0x63]⟩, ⟨5, [0x64]⟩] := by
  refine (writes_order_irrelevant_iff rfl ?_).mpr ⟨by decide, by decide⟩
  refine .cons ?_ (.cons ?_ (List.pairwise_singleton _ _))
  · intro w hw k hk
    obtain ⟨⟨-, hlow⟩, hhigh, -⟩ := hk
    rcases List.mem_cons.mp hw with rfl | hw
    · exact absurd (hhigh.trans_lt hlow) (by decide)
    · cases List.mem_singleton.mp hw
      exact absurd (hhigh.trans_lt hlow) (by decide)
  · intro w hw k hk
    obtain ⟨⟨-, hlow⟩, hhigh, -⟩ := hk
    cases List.mem_singleton.mp hw
    exact absurd (hhigh.trans_lt hlow) (by decide)

/-- Two adjacent writes to a file that was just created: the second is refused if it comes
first. -/
theorem writes_order_matters :
    ¬ ∀ (s : MemFs) (id : FileHandleU64) (f : File) (ws : List WriteRequest),
      s.fs.get id = some (.file f) → ws.Pairwise WriteRequest.Disjoint →
        s.OrderIrrelevant id ws := by
  intro h
  let w : WriteRequest := ⟨0, [0x61]⟩
  let w' : WriteRequest := ⟨1, [0x62]⟩
  let created : Option MemFs :=
    (default ⟨0, 0⟩).step ⟨⟨.ascending, fun _ => ⟨0, 0⟩⟩, .create 1 ⟨⟨[0x66]⟩⟩ noChange⟩
  have hfile : created.bind (·.fs.get 2) =
      some (.file (.new ⟨⟨[0x66]⟩⟩ 2 [] ⟨Vector.replicate 8 0⟩ ⟨0, 0⟩)) := by decide
  have hforward : (created.bind (·.processWrites 2 [w, w'])).map Prod.fst =
      some [(w, .ok ()), (w', .ok ())] := by decide
  have hbackward : (created.bind (·.processWrites 2 [w', w])).map Prod.fst =
      some [(w', .error .nfs3errInval), (w, .ok ())] := by decide
  obtain ⟨s, hs⟩ : ∃ s, created = some s := Option.isSome_iff_exists.mp (by decide)
  rw [hs, Option.bind_some] at hfile hforward hbackward
  have hdisjoint : [w, w'].Pairwise WriteRequest.Disjoint := by
    refine .cons ?_ (List.pairwise_singleton _ _)
    intro x hx k hk
    cases List.mem_singleton.mp hx
    exact absurd (hk.2.1.trans_lt hk.1.2) (by decide)
  obtain ⟨statuses₁, s₁, -, statuses₂, s₂, -, hrun₁, -, hrun₂, -, hperm, -⟩ :=
    h s 2 _ [w, w'] hfile hdisjoint [w, w'] [w', w] (.refl _) (List.Perm.swap _ _ _)
  rw [hrun₁] at hforward
  rw [hrun₂] at hbackward
  cases hforward
  cases hbackward
  have hmem := hperm.mem_iff.mp (List.mem_cons_of_mem _ List.mem_cons_self)
  exact absurd hmem (by decide)

end MemFs

end Nfs3.Memfs
