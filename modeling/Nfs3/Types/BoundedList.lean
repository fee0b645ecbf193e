import Nfs3.Types.XdrLaws

/-!
# Lists with a byte budget

`BoundedList` keeps the packed size of its list next to it and refuses an item that would
take that size over the limit.
-/
namespace Nfs3

theorem packedSize_xdrList_nil {α : Type} [XdrCodec α] : packedSize (⟨[]⟩ : XdrList α) = 4 := rfl

theorem packedSize_xdrList_concat {α : Type} [XdrCodec α] (items : List α) (item : α) :
    packedSize (⟨items ++ [item]⟩ : XdrList α) =
      packedSize (⟨items⟩ : XdrList α) + (packedSize item + 4) := by
  have hsize : ∀ l : List α, packedSize (⟨l⟩ : XdrList α) =
      l.foldl (fun len a => len + 4 + packedSize a) 0 + 4 := fun _ => rfl
  rw [hsize, hsize, List.foldl_append, List.foldl_cons, List.foldl_nil]
  omega

structure BoundedList (α : Type) where
  list : XdrList α
  currentSize : ℕ
  maxSize : ℕ

namespace BoundedList

variable {α : Type} [XdrCodec α] {l l' : BoundedList α} {item : α}

def new (maxSize : ℕ) : BoundedList α where
  list := ⟨[]⟩
  currentSize := packedSize (⟨[]⟩ : XdrList α)
  maxSize

/-- `none` where the item is handed back; the list is then as it was. -/
def tryPush (l : BoundedList α) (item : α) : Option (BoundedList α) :=
  let itemSize := packedSize item + 4
  if l.currentSize + itemSize > l.maxSize then none
  else some { l with list := ⟨l.list.items ++ [item]⟩, currentSize := l.currentSize + itemSize }

def intoInner (l : BoundedList α) : XdrList α := l.list

/-- How many bytes the list may still grow. -/
def room (l : BoundedList α) : ℕ := l.maxSize - l.currentSize

theorem items_tryPush (h : l.tryPush item = some l') :
    l'.list.items = l.list.items ++ [item] := by
  simp only [tryPush] at h
  split_ifs at h
  cases h
  rfl

theorem room_tryPush (h : l.tryPush item = some l') : l'.room < l.room := by
  simp only [tryPush] at h
  split_ifs at h with hfit
  cases h
  simp only [room]
  omega

/-- The running size is the packed size of the list, and within the limit once an item is in. -/
structure Sized (limit : ℕ) (l : BoundedList α) : Prop where
  size : l.currentSize = packedSize l.list
  max : l.maxSize = limit
  bound : l.list.items = [] ∨ packedSize l.list ≤ limit

theorem sized_new (limit : ℕ) : Sized limit (new limit : BoundedList α) :=
  ⟨rfl, rfl, .inl rfl⟩

theorem Sized.tryPush {limit : ℕ} (hl : Sized limit l) (h : l.tryPush item = some l') :
    Sized limit l' := by
  simp only [BoundedList.tryPush] at h
  split_ifs at h with hfit
  cases h
  have hsize := packedSize_xdrList_concat l.list.items item
  have hcurrent : l.currentSize = packedSize (⟨l.list.items⟩ : XdrList α) := hl.size
  have hmax := hl.max
  refine ⟨?_, hl.max, .inr ?_⟩
  · dsimp only
    omega
  · dsimp only
    omega

/-! ## Sequences of calls -/

/-- A call of `try_push`: its result, and the list after it. -/
def push (l : BoundedList α) (item : α) : Except α Unit × BoundedList α :=
  match l.tryPush item with
  | some l' => (.ok (), l')
  | none => (.error item, l)

/-- Calls one after the other, with the result of each. -/
def pushAll (l : BoundedList α) : List α → List (Except α Unit) × BoundedList α
  | [] => ([], l)
  | item :: items =>
    let (result, l) := l.push item
    let (results, l) := l.pushAll items
    (result :: results, l)

/-- The items whose calls succeeded. -/
def accepted : List α → List (Except α Unit) → List α
  | item :: items, .ok () :: results => item :: accepted items results
  | _ :: items, .error _ :: results => accepted items results
  | _, _ => []

theorem Sized.push {limit : ℕ} (hl : Sized limit l) (item : α) : Sized limit (l.push item).2 := by
  unfold BoundedList.push
  cases h : l.tryPush item with
  | none => exact hl
  | some l' => exact hl.tryPush h

/-- The call is refused exactly if the list with the item would be too large. -/
theorem Sized.tryPush_eq_none {limit : ℕ} (hl : Sized limit l) :
    l.tryPush item = none ↔ limit < packedSize (⟨l.list.items ++ [item]⟩ : XdrList α) := by
  have hsize : l.currentSize = packedSize (⟨l.list.items⟩ : XdrList α) := hl.size
  have hmax := hl.max
  rw [packedSize_xdrList_concat]
  simp only [BoundedList.tryPush]
  split_ifs with hfit
  · simp
    omega
  · simp
    omega

theorem pushAll_accepted (l : BoundedList α) (items : List α) :
    (l.pushAll items).2.list.items =
      l.list.items ++ accepted items (l.pushAll items).1 := by
  induction items generalizing l with
  | nil => simp [pushAll, accepted]
  | cons item items ih =>
    cases h : l.tryPush item with
    | none => simp [pushAll, push, h, accepted, ih]
    | some l' => simp [pushAll, push, h, accepted, ih, items_tryPush h]

theorem Sized.pushAll {limit : ℕ} (hl : Sized limit l) (items : List α) :
    Sized limit (l.pushAll items).2 := by
  induction items generalizing l with
  | nil => exact hl
  | cons item items ih => exact ih (hl.push item)

omit [XdrCodec α] in
theorem mem_of_mem_accepted {items : List α} {results : List (Except α Unit)}
    (h : item ∈ accepted items results) : item ∈ items := by
  induction items generalizing results with
  | nil => simp [accepted] at h
  | cons first items ih =>
    cases results with
    | nil => simp [accepted] at h
    | cons result results =>
      cases result with
      | error _ => exact List.mem_cons_of_mem _ (ih h)
      | ok _ =>
        rcases List.mem_cons.mp h with rfl | h
        · simp
        · exact List.mem_cons_of_mem _ (ih h)

theorem announces_xdrList {items : List α}
    (h : ∀ item ∈ items, XdrCodec.codec.Announces item) :
    XdrCodec.codec.Announces (⟨items⟩ : XdrList α) := by
  have hmark : ∀ b : Bool, XdrCodec.codec.Announces b := by
    intro b
    obtain ⟨bs, hbs⟩ := LawfulXdr.encodes b rfl
    exact hbs.announces
  have hmarked : (ByteCodec.Codec.marked XdrCodec.codec XdrCodec.codec Error.diverged).Announces
      items := .marked hmark h
  exact hmarked

/-- After any calls of `try_push`: the running size is the packed size of the list; the list holds
the accepted items in order; its packed size is within the limit or that of the empty list, and
the number of bytes that packing it writes. The next item is refused exactly if it would exceed
the limit; then it comes back and the list stays as it is, else it is appended. -/
theorem bounded_list_greedy (limit : ℕ) (items : List α) :
    ∃ results l, (new limit : BoundedList α).pushAll items = (results, l) ∧
      l.currentSize = packedSize l.list ∧ l.list.items = accepted items results ∧
      packedSize l.list ≤ max limit 4 ∧
      ((∀ item ∈ items, XdrCodec.codec.Announces item) → XdrCodec.codec.Announces l.list) ∧
      ∀ item, (limit < packedSize (⟨l.list.items ++ [item]⟩ : XdrList α) →
          l.push item = (.error item, l)) ∧
        (packedSize (⟨l.list.items ++ [item]⟩ : XdrList α) ≤ limit →
          ∃ l', l.push item = (.ok (), l') ∧ l'.list.items = l.list.items ++ [item]) := by
  rcases h : (new limit : BoundedList α).pushAll items with ⟨results, l⟩
  have hkept : l.list.items = accepted items results := by
    have hitems := pushAll_accepted (new limit : BoundedList α) items
    rw [h] at hitems
    exact hitems
  have hsized : Sized limit l := by
    simpa [h] using (sized_new (α := α) limit).pushAll items
  refine ⟨results, l, rfl, hsized.size, hkept, ?_, ?_, ?_⟩
  · rcases hsized.bound with hempty | hbound
    · have hnil : l.list = ⟨[]⟩ := congrArg XdrList.mk hempty
      rw [hnil, packedSize_xdrList_nil]
      exact le_max_right _ _
    · exact hbound.trans (le_max_left _ _)
  · intro hall
    apply announces_xdrList
    intro item hitem
    rw [hkept] at hitem
    exact hall item (mem_of_mem_accepted hitem)
  · intro item
    constructor
    · intro hlarge
      simp [push, hsized.tryPush_eq_none.mpr hlarge]
    · intro hsmall
      cases htry : l.tryPush item with
      | none =>
        have hlarge := hsized.tryPush_eq_none.mp htry
        omega
      | some l' => exact ⟨l', by simp [push, htry], items_tryPush htry⟩

example : (((new 27 : BoundedList UInt32).pushAll [0x1234, 0x5678, 0x9abc]).1).map
    (·.toOption.isSome) = [true, true, false] := by decide

end BoundedList

end Nfs3
