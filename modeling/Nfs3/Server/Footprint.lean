import Nfs3.Lib.Traces
import Nfs3.Server.DispatchSound

/-!
# What a request asks of the file system

The calls of a request leave a footprint: the handles and attributes it was given, what became of
the change it made, and the iterator it holds. A request may use the handles of its arguments and
those it was given; it changes one thing at most, once the file system has said that it can be
changed; and it reads one iterator at most, in turn.
-/
namespace Nfs3

open Interaction (Prog Protocol)
open Interaction.Prog (History)

/-! ## Calls -/

/-- Attributes with what they belong to. -/
def attrsOf {X : Type} (x : X) : PostOpAttr → List (X × Fattr3)
  | .some attr => [(x, attr)]
  | .none => []

namespace VfsCall

variable {H I J : Type}

/-- The handles that the call uses. -/
def handles : VfsCall H I J → List H
  | lookup id _ | getattr id | read id _ _ | readdir id _ | readdirplus id _ | readlink id
  | fsinfo id | setattr id _ | write id _ _ | create id _ _ | createExclusive id _ _ | mkdir id _
  | remove id _ | symlink id _ _ _ => [id]
  | rename fromDirid _ toDirid _ => [fromDirid, toDirid]
  | rootDir | lookupByPath _ | readdirNext _ | readdirDrop _ | readdirplusNext _
  | readdirplusDrop _ | capabilities => []

/-- The handles in the answer. -/
def found : (c : VfsCall H I J) → c.Reply → List H
  | rootDir, (id : H) => [id]
  | lookup .., (r : Except Nfsstat3 H) | lookupByPath _, (r : Except Nfsstat3 H)
  | createExclusive .., (r : Except Nfsstat3 H) => r.toOption.toList
  | create .., (r : Except Nfsstat3 (H × Fattr3)) | mkdir .., (r : Except Nfsstat3 (H × Fattr3))
  | symlink .., (r : Except Nfsstat3 (H × Fattr3)) => (r.toOption.map Prod.fst).toList
  | readdirplusNext _, ((.ok entry, _) : NextResult (DirEntryPlus H) × J) =>
    entry.nameHandle.toList
  | _, _ => []

/-- The attributes in the answer, with the handles they belong to. -/
def attributes : (c : VfsCall H I J) → c.Reply → List (H × Fattr3)
  | getattr id, (.ok attr : Except Nfsstat3 Fattr3)
  | setattr id _, (.ok attr : Except Nfsstat3 Fattr3)
  | write id _ _, (.ok attr : Except Nfsstat3 Fattr3) => [(id, attr)]
  | create .., (.ok r : Except Nfsstat3 (H × Fattr3))
  | mkdir .., (.ok r : Except Nfsstat3 (H × Fattr3))
  | symlink .., (.ok r : Except Nfsstat3 (H × Fattr3)) => [r]
  | fsinfo id, (.ok r : Except Nfsstat3 Fsinfo3Resok) => attrsOf id r.objAttributes
  | readdirplusNext _, ((.ok entry, _) : NextResult (DirEntryPlus H) × J) =>
    entry.nameHandle.toList.flatMap fun id => attrsOf id (.ofOption entry.nameAttributes)
  | _, _ => []

/-- How a changing call came out. -/
def outcome : (c : VfsCall H I J) → c.Reply → Option (Except Nfsstat3 Unit)
  | setattr .., (r : Except Nfsstat3 Fattr3) | write .., (r : Except Nfsstat3 Fattr3) =>
    some (r.map fun _ => ())
  | createExclusive .., (r : Except Nfsstat3 H) => some (r.map fun _ => ())
  | create .., (r : Except Nfsstat3 (H × Fattr3)) | mkdir .., (r : Except Nfsstat3 (H × Fattr3))
  | symlink .., (r : Except Nfsstat3 (H × Fattr3)) => some (r.map fun _ => ())
  | remove .., (r : Except Nfsstat3 Unit) | rename .., (r : Except Nfsstat3 Unit) => some r
  | _, _ => none

/-- The file system says that it can be changed. -/
def permits : (c : VfsCall H I J) → c.Reply → Bool
  | capabilities, (r : VFSCapabilities) => r = .readWrite
  | _, _ => false

end VfsCall

/-! ## Footprints -/

/-- The iterator of a request. -/
inductive Listing (I J : Type)
  | unopened
  | readdir (iter : I)
  | readdirplus (iter : J)
  | dropped

namespace Listing

variable {H I J : Type}

/-- An iterator is opened when there was none, and the one that is open is read and dropped. -/
def Allows : Listing I J → VfsCall H I J → Prop
  | listing, .readdir .. | listing, .readdirplus .. => listing = unopened
  | listing, .readdirNext iter | listing, .readdirDrop iter => listing = readdir iter
  | listing, .readdirplusNext iter | listing, .readdirplusDrop iter => listing = readdirplus iter
  | _, _ => True

def next (listing : Listing I J) : (c : VfsCall H I J) → c.Reply → Listing I J
  | .readdir .., (.ok iter : Except Nfsstat3 I) => readdir iter
  | .readdirNext _, (r : NextResult DirEntry × I) => readdir r.2
  | .readdirplus .., (.ok iter : Except Nfsstat3 J) => readdirplus iter
  | .readdirplusNext _, (r : NextResult (DirEntryPlus H) × J) => readdirplus r.2
  | .readdirDrop _, _ | .readdirplusDrop _, _ => dropped
  | _, _ => listing

/-- No iterator is left open. -/
def Closed : Listing I J → Prop
  | unopened | dropped => True
  | readdir _ | readdirplus _ => False

end Listing

/-- `before` are the attributes reported before the change, all of them where there was none,
`after` those reported by the change and after it. -/
structure Footprint (H I J : Type) where
  found : List H
  before : List (H × Fattr3)
  after : List (H × Fattr3)
  writable : Bool
  change : Option (Except Nfsstat3 Unit)
  listing : Listing I J

namespace Footprint

variable {H I J : Type}

def empty : Footprint H I J := ⟨[], [], [], false, none, .unopened⟩

def next (p : Footprint H I J) (c : VfsCall H I J) (r : c.Reply) : Footprint H I J :=
  let change := (c.outcome r).or p.change
  { found := p.found ++ c.found r
    before := match change with
      | none => p.before ++ c.attributes r
      | some _ => p.before
    after := match change with
      | none => p.after
      | some _ => p.after ++ c.attributes r
    writable := p.writable || c.permits r
    change
    listing := p.listing.next c r }

/-- What the request may ask next, with these handles among its arguments. -/
structure Allows (presented : H → Prop) (p : Footprint H I J) (c : VfsCall H I J) : Prop where
  handles : ∀ id ∈ c.handles, presented id ∨ id ∈ p.found
  change : c.mutating = true → p.writable = true ∧ p.change = none
  listing : p.listing.Allows c

/-! ### One answer at a time -/

def find (p : Footprint H I J) (ids : List H) : Footprint H I J :=
  { p with found := p.found ++ ids }

def note (p : Footprint H I J) (attrs : List (H × Fattr3)) : Footprint H I J :=
  match p.change with
  | none => { p with before := p.before ++ attrs }
  | some _ => { p with after := p.after ++ attrs }

def finish (p : Footprint H I J) (outcome : Except Nfsstat3 Unit) : Footprint H I J :=
  { p with change := some outcome }

def permit (p : Footprint H I J) : Footprint H I J := { p with writable := true }

def list (p : Footprint H I J) (listing : Listing I J) : Footprint H I J := { p with listing }

section Fields

variable (p : Footprint H I J) (ids : List H) (attrs : List (H × Fattr3))
  (outcome : Except Nfsstat3 Unit) (listing : Listing I J)

@[simp] theorem find_nil : p.find [] = p := by simp [find]

@[simp] theorem note_nil : p.note [] = p := by
  obtain ⟨found, before, after, writable, change, listing⟩ := p
  cases change <;> simp [note]

@[simp] theorem found_find : (p.find ids).found = p.found ++ ids := rfl

@[simp] theorem before_find : (p.find ids).before = p.before := rfl

@[simp] theorem after_find : (p.find ids).after = p.after := rfl

@[simp] theorem writable_find : (p.find ids).writable = p.writable := rfl

@[simp] theorem change_find : (p.find ids).change = p.change := by rw [find]

@[simp] theorem listing_find : (p.find ids).listing = p.listing := rfl

@[simp] theorem found_note : (p.note attrs).found = p.found := by
  unfold note
  split <;> rfl

@[simp] theorem writable_note : (p.note attrs).writable = p.writable := by
  unfold note
  split <;> rfl

@[simp] theorem change_note : (p.note attrs).change = p.change := by
  unfold note
  split <;> rfl

@[simp] theorem listing_note : (p.note attrs).listing = p.listing := by
  unfold note
  split <;> rfl

variable {p} in
@[simp] theorem before_note (h : p.change = none) : (p.note attrs).before = p.before ++ attrs := by
  rw [note, h]

variable {p} in
@[simp] theorem after_note (h : p.change = none) : (p.note attrs).after = p.after := by
  rw [note, h]

variable {p} in
@[simp] theorem before_note_of_changed (h : p.change.isSome) :
    (p.note attrs).before = p.before := by
  obtain ⟨outcome, h⟩ := Option.isSome_iff_exists.mp h
  rw [note, h]

variable {p} in
@[simp] theorem after_note_of_changed (h : p.change.isSome) :
    (p.note attrs).after = p.after ++ attrs := by
  obtain ⟨outcome, h⟩ := Option.isSome_iff_exists.mp h
  rw [note, h]

@[simp] theorem found_finish : (p.finish outcome).found = p.found := rfl

@[simp] theorem before_finish : (p.finish outcome).before = p.before := rfl

@[simp] theorem after_finish : (p.finish outcome).after = p.after := rfl

@[simp] theorem writable_finish : (p.finish outcome).writable = p.writable := rfl

@[simp] theorem change_finish : (p.finish outcome).change = some outcome := by rw [finish]

@[simp] theorem listing_finish : (p.finish outcome).listing = p.listing := rfl

@[simp] theorem found_permit : p.permit.found = p.found := rfl

@[simp] theorem before_permit : p.permit.before = p.before := rfl

@[simp] theorem after_permit : p.permit.after = p.after := rfl

@[simp] theorem writable_permit : p.permit.writable = true := rfl

@[simp] theorem change_permit : p.permit.change = p.change := by rw [permit]

@[simp] theorem listing_permit : p.permit.listing = p.listing := rfl

@[simp] theorem found_list : (p.list listing).found = p.found := rfl

@[simp] theorem before_list : (p.list listing).before = p.before := rfl

@[simp] theorem after_list : (p.list listing).after = p.after := rfl

@[simp] theorem change_list : (p.list listing).change = p.change := by rw [list]

@[simp] theorem listing_list : (p.list listing).listing = listing := rfl

end Fields

@[simp] theorem list_listing (p : Footprint H I J) : p.list p.listing = p := rfl

/-- A call that changes nothing. -/
theorem next_of_reading {p : Footprint H I J} {c : VfsCall H I J} {r : c.Reply}
    (houtcome : c.outcome r = none) (hpermits : c.permits r = false) :
    p.next c r = ((p.find (c.found r)).note (c.attributes r)).list (p.listing.next c r) := by
  obtain ⟨found, before, after, writable, change, listing⟩ := p
  cases change <;> simp [next, houtcome, hpermits, find, note, list]

/-- A call that changes something. -/
theorem next_of_changing {p : Footprint H I J} {c : VfsCall H I J} {r : c.Reply}
    {outcome : Except Nfsstat3 Unit} (houtcome : c.outcome r = some outcome)
    (hpermits : c.permits r = false) (hlisting : p.listing.next c r = p.listing) :
    p.next c r = ((p.finish outcome).find (c.found r)).note (c.attributes r) := by
  simp [next, houtcome, hpermits, hlisting, find, note, finish]

end Footprint

/-- The footprint of the calls so far. -/
def footprint {H I J : Type} (t : History (VfsCall H I J) VfsCall.Reply) : Footprint H I J :=
  t.foldl (fun p e => p.next e.1 e.2) .empty

section History

variable {H I J : Type} {t t' : History (VfsCall H I J) VfsCall.Reply}

theorem footprint_append_singleton (t : History (VfsCall H I J) VfsCall.Reply)
    (e : Σ c : VfsCall H I J, c.Reply) :
    footprint (t ++ [e]) = (footprint t).next e.1 e.2 := by
  simp [footprint]

theorem footprint_found (t : History (VfsCall H I J) VfsCall.Reply) :
    (footprint t).found = t.flatMap fun e => e.1.found e.2 := by
  induction t using List.reverseRecOn with
  | nil => rfl
  | append_singleton t e ih => simp [footprint_append_singleton, Footprint.next, ih]

/-- The attributes were in an answer before the first changing call. -/
def ReportedBefore (t : History (VfsCall H I J) VfsCall.Reply) (id : H) (attr : Fattr3) : Prop :=
  ∃ t₁ e t₂, t = t₁ ++ e :: t₂ ∧ (id, attr) ∈ e.1.attributes e.2 ∧
    ∀ e' ∈ t₁ ++ [e], e'.1.mutating = false

/-- The attributes were in the answer of a changing call or after one. -/
def ReportedAfter (t : History (VfsCall H I J) VfsCall.Reply) (id : H) (attr : Fattr3) : Prop :=
  ∃ t₁ e t₂, t = t₁ ++ e :: t₂ ∧ (id, attr) ∈ e.1.attributes e.2 ∧
    ∃ e' ∈ t₁ ++ [e], e'.1.mutating = true

variable {id : H} {attr : Fattr3}

theorem ReportedBefore.append (h : ReportedBefore t id attr) (t' : History (VfsCall H I J) _) :
    ReportedBefore (t ++ t') id attr := by
  obtain ⟨t₁, e, t₂, rfl, hmem, hquiet⟩ := h
  exact ⟨t₁, e, t₂ ++ t', by simp, hmem, hquiet⟩

theorem ReportedAfter.append (h : ReportedAfter t id attr) (t' : History (VfsCall H I J) _) :
    ReportedAfter (t ++ t') id attr := by
  obtain ⟨t₁, e, t₂, rfl, hmem, hchanged⟩ := h
  exact ⟨t₁, e, t₂ ++ t', by simp, hmem, hchanged⟩

end History

def requestProtocol {H : Type} (I J : Type) (presented : H → Prop) :
    Protocol (VfsCall H I J) VfsCall.Reply (Footprint H I J) where
  allows p c := p.Allows presented c
  relies _ _ _ := True
  next p c r := p.next c r

/-! ## Rules -/

/-- The calls that neither change anything nor concern an iterator, `capabilities` apart. -/
def VfsCall.looks {H I J : Type} : VfsCall H I J → Bool
  | rootDir | lookup .. | lookupByPath _ | getattr _ | read .. | readlink _ | fsinfo _ => true
  | _ => false

namespace NfsHandlers

section Rules

variable {H I J α : Type} {presented : H → Prop} {Q : Footprint H I J → α → Prop}
  {p : Footprint H I J} {c : VfsCall H I J} {f : c.Reply → VfsM H I J α}

theorem follows_reading (hc : c.mutating = false) (houtcome : ∀ r, c.outcome r = none)
    (hpermits : ∀ r, c.permits r = false) (hids : ∀ id ∈ c.handles, presented id ∨ id ∈ p.found)
    (hlisting : p.listing.Allows c)
    (hf : ∀ r, (f r).Follows (requestProtocol I J presented) Q
      (((p.find (c.found r)).note (c.attributes r)).list (p.listing.next c r))) :
    (Prog.ask c f).Follows (requestProtocol I J presented) Q p := by
  refine ⟨⟨hids, fun h => ?_, hlisting⟩, fun r _ => ?_⟩
  · rw [hc] at h
    cases h
  · show (f r).Follows (requestProtocol I J presented) Q (p.next c r)
    rw [Footprint.next_of_reading (houtcome r) (hpermits r)]
    exact hf r

theorem follows_looking (hc : c.looks = true)
    (hids : ∀ id ∈ c.handles, presented id ∨ id ∈ p.found)
    (hf : ∀ r, (f r).Follows (requestProtocol I J presented) Q
      ((p.find (c.found r)).note (c.attributes r))) :
    (Prog.ask c f).Follows (requestProtocol I J presented) Q p := by
  apply follows_reading
  · cases c <;> first | rfl | cases hc
  · intro r
    cases c <;> first | rfl | cases hc
  · intro r
    cases c <;> first | rfl | cases hc
  · exact hids
  · cases c <;> trivial
  · intro r
    have hlisting : p.listing.next c r = ((p.find (c.found r)).note (c.attributes r)).listing := by
      rw [Footprint.listing_note, Footprint.listing_find]
      cases c <;> first | rfl | cases hc
    rw [hlisting, Footprint.list_listing]
    exact hf r

theorem follows_changing (hc : c.mutating = true)
    (hids : ∀ id ∈ c.handles, presented id ∨ id ∈ p.found) (hwritable : p.writable = true)
    (hchange : p.change = none)
    (hf : ∀ r outcome, c.outcome r = some outcome →
      (f r).Follows (requestProtocol I J presented) Q
        (((p.finish outcome).find (c.found r)).note (c.attributes r))) :
    (Prog.ask c f).Follows (requestProtocol I J presented) Q p := by
  have hallows : p.Allows presented c := by
    refine ⟨hids, fun _ => ⟨hwritable, hchange⟩, ?_⟩
    cases c <;> simp_all [VfsCall.mutating, Listing.Allows]
  refine ⟨hallows, fun r _ => ?_⟩
  have houtcome : ∃ outcome, c.outcome r = some outcome := by
    cases c <;> first | exact ⟨_, rfl⟩ | cases hc
  obtain ⟨outcome, houtcome⟩ := houtcome
  have hnext : p.next c r =
      ((p.finish outcome).find (c.found r)).note (c.attributes r) := by
    apply Footprint.next_of_changing houtcome
    · cases c <;> first | rfl | cases hc
    · cases c <;> first | rfl | cases hc
  show (f r).Follows (requestProtocol I J presented) Q (p.next c r)
  rw [hnext]
  exact hf r outcome houtcome

theorem follows_capabilities {f : VFSCapabilities → VfsM H I J α}
    (hreadOnly : (f .readOnly).Follows (requestProtocol I J presented) Q p)
    (hreadWrite : (f .readWrite).Follows (requestProtocol I J presented) Q p.permit) :
    (Prog.ask .capabilities f).Follows (requestProtocol I J presented) Q p := by
  have hallows : p.Allows presented (.capabilities : VfsCall H I J) := by
    refine ⟨fun _ h => ?_, fun h => ?_, trivial⟩
    · cases h
    · cases h
  refine ⟨hallows, fun r _ => ?_⟩
  cases r with
  | readOnly =>
    have hnext : p.next (.capabilities : VfsCall H I J) VFSCapabilities.readOnly = p :=
      (Footprint.next_of_reading rfl rfl).trans
        (by simp [VfsCall.found, VfsCall.attributes, Listing.next])
    change (f .readOnly).Follows _ Q (p.next .capabilities VFSCapabilities.readOnly)
    rw [hnext]
    exact hreadOnly
  | readWrite =>
    have hnext : p.next (.capabilities : VfsCall H I J) VFSCapabilities.readWrite = p.permit := by
      obtain ⟨found, before, after, writable, change, listing⟩ := p
      cases change <;>
        simp [Footprint.next, VfsCall.found, VfsCall.attributes, VfsCall.outcome,
          VfsCall.permits, Listing.next, Footprint.permit]
    change (f .readWrite).Follows _ Q (p.next .capabilities VFSCapabilities.readWrite)
    rw [hnext]
    exact hreadWrite

theorem follows_getattr {id : H} {f : Except Nfsstat3 Fattr3 → VfsM H I J α}
    (hid : presented id ∨ id ∈ p.found)
    (hok : ∀ attr, (f (.ok attr)).Follows (requestProtocol I J presented) Q
      (p.note (attrsOf id (.some attr))))
    (herror : ∀ stat, (f (.error stat)).Follows (requestProtocol I J presented) Q p) :
    (Prog.ask (.getattr id) f).Follows (requestProtocol I J presented) Q p := by
  apply follows_looking rfl
  · simpa [VfsCall.handles] using hid
  · intro r
    cases r with
    | ok attr =>
      change (f (.ok attr)).Follows _ Q ((p.find []).note (attrsOf id (.some attr)))
      rw [Footprint.find_nil]
      exact hok attr
    | error stat =>
      change (f (.error stat)).Follows _ Q ((p.find []).note [])
      rw [Footprint.find_nil, Footprint.note_nil]
      exact herror stat

theorem follows_getPostOpAttr {id : H} {f : PostOpAttr → VfsM H I J α}
    (hid : presented id ∨ id ∈ p.found)
    (hf : ∀ attrs, (f attrs).Follows (requestProtocol I J presented) Q
      (p.note (attrsOf id attrs))) :
    ((getPostOpAttr id).bind f).Follows (requestProtocol I J presented) Q p := by
  apply follows_getattr hid
  · exact fun attr => hf (.some attr)
  · intro stat
    have hnone := hf .none
    rw [attrsOf, Footprint.note_nil] at hnone
    exact hnone

def wccAttr (attr : Fattr3) : WccAttr := ⟨attr.size, attr.mtime, attr.ctime⟩

theorem follows_getWccAttr {id : H} {f : Except Nfsstat3 WccAttr → VfsM H I J α}
    (hid : presented id ∨ id ∈ p.found)
    (hok : ∀ attr, (f (.ok (wccAttr attr))).Follows (requestProtocol I J presented) Q
      (p.note (attrsOf id (.some attr))))
    (herror : ∀ stat, (f (.error stat)).Follows (requestProtocol I J presented) Q p) :
    ((getWccAttr id).bind f).Follows (requestProtocol I J presented) Q p :=
  follows_getattr hid hok herror

end Rules

end NfsHandlers

end Nfs3
