import Mathlib.Data.List.Infix
import Nfs3.Server.ReadDir

/-!
# Paging through a directory

A file system lists a directory as `L` when its iterators walk through `L`: from the start
for the cookie zero, from behind an entry for the cookie of that entry. A session is a
sequence of requests of which each resumes where the reply before it ended. The pages of a
session are a prefix of the listing, and all of it when a page says so.
-/
namespace Nfs3

section Contract

variable {σ ι H E : Type}

/-- The part of a listing behind the entry with a cookie. -/
def after (cookie : E → Cookie3) (c : Cookie3) : List E → List E
  | [] => []
  | e :: es => if cookie e = c then es else after cookie c es

/-- From every state in `P` the iterator gives the entries of the list, then its end. -/
def Iterates (vfs : DirVfs σ ι H E) (P : σ → Prop) : List E → ι → Prop
  | [], iter => ∀ s, P s → ∃ iter' s', vfs.next s iter = (.eof, iter', s') ∧ P s'
  | e :: es, iter => ∀ s, P s → ∃ iter' s',
      vfs.next s iter = (.ok e, iter', s') ∧ P s' ∧ Iterates vfs P es iter'

/-- In the states in `P` the directory has the fixed listing `L`. -/
structure Lists (vfs : DirVfs σ ι H E) (P : σ → Prop) (dirid : H) (cookie : E → Cookie3)
    (L : List E) : Prop where
  distinct : (L.map cookie).Nodup
  nonzero : ∀ e ∈ L, cookie e ≠ 0
  getattr : ∀ s, P s → P (vfs.getattr s dirid).2
  start : ∀ s, P s → ∃ iter s', vfs.openDir s dirid 0 = (.ok iter, s') ∧ P s' ∧
    Iterates vfs P L iter
  resume : ∀ s e, P s → e ∈ L → ∃ iter s', vfs.openDir s dirid (cookie e) = (.ok iter, s') ∧
    P s' ∧ Iterates vfs P (after cookie (cookie e) L) iter

theorem after_append {cookie : E → Cookie3} {pre post : List E} {e : E}
    (h : ((pre ++ e :: post).map cookie).Nodup) :
    after cookie (cookie e) (pre ++ e :: post) = post := by
  induction pre with
  | nil => simp [after]
  | cons a pre ih =>
    simp only [List.cons_append, List.map_cons, List.nodup_cons] at h
    have hne : cookie a ≠ cookie e := by
      intro heq
      apply h.1
      rw [heq]
      simp
    rw [List.cons_append, after, if_neg hne]
    exact ih h.2

/-- What is left of a listing for a request with a cookie. -/
def remaining (cookie : E → Cookie3) (c : Cookie3) (L : List E) : List E :=
  if c = 0 then L else after cookie c L

theorem Lists.opens {vfs : DirVfs σ ι H E} {P : σ → Prop} {dirid : H} {cookie : E → Cookie3}
    {L : List E} (h : Lists vfs P dirid cookie L) {c : Cookie3}
    (hc : c = 0 ∨ ∃ e ∈ L, cookie e = c) {s : σ} (hs : P s) :
    ∃ iter s', vfs.openDir s dirid c = (.ok iter, s') ∧ P s' ∧
      Iterates vfs P (remaining cookie c L) iter := by
  rcases hc with rfl | ⟨e, he, rfl⟩
  · exact h.start s hs
  · rw [remaining, if_neg (h.nonzero e he)]
    exact h.resume s e hs he

end Contract

section Loop

variable {σ ι H E B F : Type} {vfs : DirVfs σ ι H E} {push : B → E → Option B} {P : σ → Prop}

/-- The loop takes a first part of what the iterator has, and stops before the end only at an
entry that was refused. -/
theorem fill_spec (items : B → List F) (conv : E → F)
    (hpush : ∀ acc entry acc', push acc entry = some acc' →
      items acc' = items acc ++ [conv entry])
    {fuel : ℕ} {L : List E} {s s' : σ} {iter iter' : ι} {acc : B}
    {result : Except Nfsstat3 (B × Bool)} (hiter : Iterates vfs P L iter) (hs : P s)
    (h : fill vfs push fuel s iter acc = some (result, iter', s')) :
    ∃ page rest acc' eof, result = .ok (acc', eof) ∧ L = page ++ rest ∧
      items acc' = items acc ++ page.map conv ∧ (eof = true ↔ rest = []) := by
  induction fuel generalizing L s iter acc with
  | zero => cases h
  | succ fuel ih =>
    unfold fill at h
    cases L with
    | nil =>
      obtain ⟨iter₁, s₁, hnext, hs₁⟩ := hiter s hs
      rw [hnext] at h
      cases h
      exact ⟨[], [], acc, true, rfl, rfl, by simp, by simp⟩
    | cons e es =>
      obtain ⟨iter₁, s₁, hnext, hs₁, hiter₁⟩ := hiter s hs
      rw [hnext] at h
      dsimp only at h
      split at h
      · cases h
        exact ⟨[], e :: es, acc, false, rfl, rfl, by simp, by simp⟩
      · rename_i acc₁ hacc₁
        obtain ⟨page, rest, acc', eof, hresult, hL, hitems, heof⟩ := ih hiter₁ hs₁ h
        refine ⟨e :: page, rest, acc', eof, hresult, by rw [hL]; rfl, ?_, heof⟩
        rw [hitems, hpush acc e acc₁ hacc₁]
        simp

end Loop

/-- What a client sees of an Ok reply to a listing request. -/
structure DirPage (F : Type) where
  entries : List F
  eof : Bool
  cookieverf : Cookieverf3
  deriving DecidableEq

section Session

variable {F : Type} {cookie : F → Cookie3} {M : List F}

/-- The last cookie received so far; zero at the beginning. -/
def lastCookie (cookie : F → Cookie3) (pages : List (DirPage F)) : Cookie3 :=
  ((pages.flatMap DirPage.entries).getLast?.map cookie).getD 0

/-- The pages of a sequence of requests that were all answered with Ok. `exchange c verf page`
says that a request with the cookie `c`, and the verifier `verf` unless it is the first one,
was answered with `page`. -/
inductive Session (exchange : Cookie3 → Option Cookieverf3 → DirPage F → Prop)
    (cookie : F → Cookie3) : List (DirPage F) → Prop
  | start {page : DirPage F} (h : exchange 0 none page) : Session exchange cookie [page]
  | resume {pages : List (DirPage F)} {last page : DirPage F}
      (hsession : Session exchange cookie (pages ++ [last]))
      (h : exchange (lastCookie cookie (pages ++ [last])) (some last.cookieverf) page) :
      Session exchange cookie (pages ++ [last] ++ [page])

/-- One page against what was left of the listing: a first part of it, which is not empty
unless it is the last one. -/
structure PageOf (rest : List F) (page : DirPage F) (rest' : List F) : Prop where
  split : rest = page.entries ++ rest'
  eof : page.eof = true ↔ rest' = []
  progress : page.eof = false → page.entries ≠ []

/-- The state of a session: what came, and what is left. -/
structure Progress (M : List F) (pages : List (DirPage F)) (rest : List F) : Prop where
  split : M = pages.flatMap DirPage.entries ++ rest
  eof : (∃ page ∈ pages, page.eof = true) ↔ rest = []
  progress : ∀ page ∈ pages, page.eof = false → page.entries ≠ []

theorem Progress.snoc {pages : List (DirPage F)} {page : DirPage F} {rest rest' : List F}
    (h : Progress M pages rest) (hpage : PageOf rest page rest') :
    Progress M (pages ++ [page]) rest' := by
  constructor
  · rw [h.split, hpage.split]
    simp
  · simp only [List.mem_append, List.mem_singleton, or_and_right, exists_or, exists_eq_left]
    rw [h.eof, hpage.eof, or_iff_right_iff_imp]
    intro hrest
    have hsplit := hpage.split
    rw [hrest, eq_comm, List.append_eq_nil_iff] at hsplit
    exact hsplit.2
  · intro p hp
    rcases List.mem_append.mp hp with hp | hp
    · exact h.progress p hp
    · rw [List.mem_singleton.mp hp]
      exact hpage.progress

/-- The cookie a session resumes with leaves exactly the rest. -/
theorem Progress.resumes {pages : List (DirPage F)} {rest : List F} (h : Progress M pages rest)
    (hne : pages ≠ []) (hdistinct : (M.map cookie).Nodup) (hnonzero : ∀ e ∈ M, cookie e ≠ 0) :
    (lastCookie cookie pages = 0 ∨ ∃ e ∈ M, cookie e = lastCookie cookie pages) ∧
      remaining cookie (lastCookie cookie pages) M = rest := by
  rcases List.eq_nil_or_concat (pages.flatMap DirPage.entries) with hnil | ⟨pre, e, hall⟩
  · -- nothing came, so every page said that it was the last one
    have hlast : lastCookie cookie pages = 0 := by simp [lastCookie, hnil]
    obtain ⟨page, hpage⟩ := List.exists_mem_of_ne_nil pages hne
    have hempty : page.entries = [] := List.flatMap_eq_nil_iff.mp hnil page hpage
    have heof : page.eof = true := by
      by_contra hfalse
      exact h.progress page hpage (by simpa using hfalse) hempty
    have hrest : rest = [] := h.eof.mp ⟨page, hpage, heof⟩
    refine ⟨Or.inl hlast, ?_⟩
    rw [hlast, remaining, if_pos rfl, h.split, hnil, hrest]
    rfl
  · rw [List.concat_eq_append] at hall
    have hM : M = pre ++ e :: rest := by rw [h.split, hall]; simp
    have hlast : lastCookie cookie pages = cookie e := by simp [lastCookie, hall]
    have he : e ∈ M := by rw [hM]; simp
    refine ⟨Or.inr ⟨e, he, hlast.symm⟩, ?_⟩
    rw [hlast, remaining, if_neg (hnonzero e he), hM]
    exact after_append (hM ▸ hdistinct)

theorem Session.progress {exchange : Cookie3 → Option Cookieverf3 → DirPage F → Prop}
    (hdistinct : (M.map cookie).Nodup) (hnonzero : ∀ e ∈ M, cookie e ≠ 0)
    (hpage : ∀ c verf page, (c = 0 ∨ ∃ e ∈ M, cookie e = c) → exchange c verf page →
      ∃ rest', PageOf (remaining cookie c M) page rest')
    {pages : List (DirPage F)} (h : Session exchange cookie pages) :
    ∃ rest, Progress M pages rest := by
  induction h with
  | start h =>
    obtain ⟨rest, hp⟩ := hpage _ _ _ (Or.inl rfl) h
    rw [remaining, if_pos rfl] at hp
    exact ⟨rest, by simpa using hp.split, by simpa using hp.eof, by simpa using hp.progress⟩
  | resume _ h ih =>
    obtain ⟨rest, hprogress⟩ := ih
    obtain ⟨hc, hrest⟩ := hprogress.resumes (by simp) hdistinct hnonzero
    obtain ⟨rest', hp⟩ := hpage _ _ _ hc h
    rw [hrest] at hp
    exact ⟨rest', hprogress.snoc hp⟩

/-- The pages are complete and free of duplicates: they are a first part of the listing, none
but the last is empty, and they are all of it exactly when one of them says so. -/
structure Complete (M : List F) (pages : List (DirPage F)) : Prop where
  progress : ∀ page ∈ pages, page.eof = false → page.entries ≠ []
  isPrefix : pages.flatMap DirPage.entries <+: M
  all_iff : pages.flatMap DirPage.entries = M ↔ ∃ page ∈ pages, page.eof = true

theorem Progress.complete {pages : List (DirPage F)} {rest : List F} (h : Progress M pages rest) :
    Complete M pages := by
  refine ⟨h.progress, ⟨rest, h.split.symm⟩, ?_⟩
  rw [h.eof, h.split]
  constructor
  · intro hall
    exact List.append_cancel_left (hall.symm.trans (List.append_nil _).symm)
  · rintro rfl
    simp

end Session

section Handlers

variable {σ ι H : Type} [FileHandle H] {converter : FileHandleConverter} {P : σ → Prop}
  {dir : NfsFh3} {dirid : H}

/-- A READDIR request on `dir` in a state in `P`, and its Ok reply. -/
def readdirExchange (converter : FileHandleConverter) (vfs : DirVfs σ ι H DirEntry) (P : σ → Prop)
    (dir : NfsFh3) (c : Cookie3) (verf : Option Cookieverf3) (page : DirPage Entry3) : Prop :=
  ∃ s xid args s' resok, P s ∧ args.dir = dir ∧ args.cookie = c ∧
    (∀ v, verf = some v → args.cookieverf = v) ∧
    nfsproc3Readdir converter vfs s xid args = some (.ok resok, s') ∧
    page = ⟨resok.reply.entries.items, resok.reply.eof, resok.cookieverf⟩

/-- The page in an Ok reply to READDIR. -/
def readdirPage (reply : Option (Readdir3Res × σ)) : Option (DirPage Entry3) :=
  reply.bind fun (res, _) =>
    match res with
    | .ok resok => some ⟨resok.reply.entries.items, resok.reply.eof, resok.cookieverf⟩
    | .err _ _ => none

theorem readdirExchange_of_page {vfs : DirVfs σ ι H DirEntry} {s : σ} (xid : UInt32)
    (args : Readdir3Args) {verf : Option Cookieverf3} {page : DirPage Entry3} (hs : P s)
    (hverf : ∀ v, verf = some v → args.cookieverf = v)
    (h : readdirPage (nfsproc3Readdir converter vfs s xid args) = some page) :
    readdirExchange converter vfs P args.dir args.cookie verf page := by
  obtain ⟨⟨res, s'⟩, hreply, hpage⟩ := Option.bind_eq_some_iff.mp h
  cases res with
  | ok resok => exact ⟨s, xid, args, s', resok, hs, rfl, rfl, hverf, hreply,
      (Option.some.inj hpage).symm⟩
  | err code fail => cases hpage

/-- A READDIRPLUS request on `dir` in a state in `P`, and its Ok reply. -/
def readdirplusExchange (converter : FileHandleConverter) (vfs : DirVfs σ ι H (DirEntryPlus H))
    (P : σ → Prop) (dir : NfsFh3) (c : Cookie3) (verf : Option Cookieverf3)
    (page : DirPage Entryplus3) : Prop :=
  ∃ s args s' resok, P s ∧ args.dir = dir ∧ args.cookie = c ∧
    (∀ v, verf = some v → args.cookieverf = v) ∧
    nfsproc3Readdirplus converter vfs s args = some (.ok resok, s') ∧
    page = ⟨resok.reply.entries.items, resok.reply.eof, resok.cookieverf⟩

/-- A page that both handlers send only if it is not empty or the last one. -/
theorem pageOf_of_fill {F : Type} {rest page rest' : List F} {eof : Bool} {verf : Cookieverf3}
    (hsplit : rest = page ++ rest') (heof : eof = true ↔ rest' = [])
    (hsent : ¬ (page = [] ∧ eof = false)) : PageOf rest ⟨page, eof, verf⟩ rest' := by
  refine ⟨hsplit, heof, ?_⟩
  intro hfalse hnil
  exact hsent ⟨hnil, hfalse⟩

theorem readdirExchange_pageOf {vfs : DirVfs σ ι H DirEntry} {L : List DirEntry}
    (hlists : Lists vfs P dirid Entry3.cookie L) (hdir : converter.fhFromNfs dir = .ok dirid)
    {c : Cookie3} {verf : Option Cookieverf3} {page : DirPage Entry3}
    (hc : c = 0 ∨ ∃ e ∈ L, e.cookie = c) (h : readdirExchange converter vfs P dir c verf page) :
    ∃ rest', PageOf (remaining Entry3.cookie c L) page rest' := by
  obtain ⟨s, xid, args, s', resok, hs, rfl, rfl, -, hreply, rfl⟩ := h
  obtain ⟨dirid', iter, iter', s₂, s₃, acc, hok⟩ := nfsproc3Readdir_ok hreply
  obtain rfl : dirid = dirid' := Except.ok.inj (hdir.symm.trans hok.handle)
  obtain ⟨iter₁, s₁, hopen, hs₁, hiter⟩ := hlists.opens hc (hlists.getattr s hs)
  cases hopen.symm.trans hok.opened
  obtain ⟨taken, rest', acc', eof, hres, hsplit, hitems, heof⟩ :=
    fill_spec (fun acc : BoundedList Entry3 => acc.list.items) id
      (fun acc entry acc' hpush => BoundedList.items_tryPush hpush) hiter hs₁ hok.filled
  cases hres
  simp only [BoundedList.new, List.nil_append, List.map_id_fun, id_eq] at hitems
  have hsent := hok.sent
  rw [hitems] at hsent
  rw [hok.entries, hitems]
  exact ⟨rest', pageOf_of_fill hsplit heof hsent⟩

theorem after_map {E F : Type} {cookie : E → Cookie3} {cookie' : F → Cookie3} {conv : E → F}
    (hconv : ∀ e, cookie' (conv e) = cookie e) (c : Cookie3) (L : List E) :
    after cookie' c (L.map conv) = (after cookie c L).map conv := by
  induction L with
  | nil => rfl
  | cons e L ih =>
    simp only [List.map_cons, after, hconv]
    split_ifs
    · rfl
    · exact ih

theorem remaining_map {E F : Type} {cookie : E → Cookie3} {cookie' : F → Cookie3} {conv : E → F}
    (hconv : ∀ e, cookie' (conv e) = cookie e) (c : Cookie3) (L : List E) :
    remaining cookie' c (L.map conv) = (remaining cookie c L).map conv := by
  unfold remaining
  split_ifs
  · rfl
  · exact after_map hconv c L

theorem readdirplusExchange_pageOf {vfs : DirVfs σ ι H (DirEntryPlus H)}
    {L : List (DirEntryPlus H)} (hlists : Lists vfs P dirid DirEntryPlus.cookie L)
    (hdir : converter.fhFromNfs dir = .ok dirid) {c : Cookie3} {verf : Option Cookieverf3}
    {page : DirPage Entryplus3} (hc : c = 0 ∨ ∃ e ∈ L, e.cookie = c)
    (h : readdirplusExchange converter vfs P dir c verf page) :
    ∃ rest', PageOf (remaining Entryplus3.cookie c (L.map (·.intoEntry converter))) page rest' := by
  obtain ⟨s, args, s', resok, hs, rfl, rfl, -, hreply, rfl⟩ := h
  obtain ⟨dirid', iter, iter', s₂, s₃, acc, hok⟩ := nfsproc3Readdirplus_ok hreply
  obtain rfl : dirid = dirid' := Except.ok.inj (hdir.symm.trans hok.handle)
  obtain ⟨iter₁, s₁, hopen, hs₁, hiter⟩ := hlists.opens hc (hlists.getattr s hs)
  cases hopen.symm.trans hok.opened
  obtain ⟨taken, rest', acc', eof, hres, hsplit, hitems, heof⟩ :=
    fill_spec (fun acc : BoundedEntryPlusList => acc.entries.list.items)
      (fun entry : DirEntryPlus H => entry.intoEntry converter)
      (fun acc entry acc' hpush =>
        BoundedList.items_tryPush (BoundedEntryPlusList.tryPush_entries hpush)) hiter hs₁ hok.filled
  cases hres
  simp only [BoundedEntryPlusList.new, BoundedList.new, List.nil_append] at hitems
  have hconv : ∀ e : DirEntryPlus H, (e.intoEntry converter).cookie = e.cookie := fun _ => rfl
  have hsent := hok.sent
  rw [hitems] at hsent
  rw [hok.entries, hitems]
  refine ⟨rest'.map (·.intoEntry converter), pageOf_of_fill ?_ ?_ hsent⟩
  · rw [remaining_map hconv, hsplit, List.map_append]
  · rw [heof, List.map_eq_nil_iff]

theorem readdir_session_complete {vfs : DirVfs σ ι H DirEntry} {L : List DirEntry}
    (hlists : Lists vfs P dirid Entry3.cookie L) (hdir : converter.fhFromNfs dir = .ok dirid)
    {pages : List (DirPage Entry3)}
    (h : Session (readdirExchange converter vfs P dir) Entry3.cookie pages) :
    Complete L pages := by
  obtain ⟨rest, hprogress⟩ := h.progress hlists.distinct hlists.nonzero
    fun c verf page hc hex => readdirExchange_pageOf hlists hdir hc hex
  exact hprogress.complete

theorem readdirplus_session_complete {vfs : DirVfs σ ι H (DirEntryPlus H)}
    {L : List (DirEntryPlus H)} (hlists : Lists vfs P dirid DirEntryPlus.cookie L)
    (hdir : converter.fhFromNfs dir = .ok dirid) {pages : List (DirPage Entryplus3)}
    (h : Session (readdirplusExchange converter vfs P dir) Entryplus3.cookie pages) :
    Complete (L.map (·.intoEntry converter)) pages := by
  have hcookies : (L.map (·.intoEntry converter)).map Entryplus3.cookie =
      L.map DirEntryPlus.cookie := by
    rw [List.map_map]
    rfl
  have hmem : ∀ c, (∃ e ∈ L.map (·.intoEntry converter), e.cookie = c) → ∃ e ∈ L, e.cookie = c := by
    rintro c ⟨e, he, rfl⟩
    obtain ⟨e', he', rfl⟩ := List.mem_map.mp he
    exact ⟨e', he', rfl⟩
  have hdistinct : ((L.map (·.intoEntry converter)).map Entryplus3.cookie).Nodup := by
    rw [hcookies]
    exact hlists.distinct
  have hnonzero : ∀ e ∈ L.map (·.intoEntry converter), e.cookie ≠ 0 := by
    intro e he
    obtain ⟨e', he', rfl⟩ := List.mem_map.mp he
    exact hlists.nonzero e' he'
  obtain ⟨rest, hprogress⟩ := h.progress hdistinct hnonzero
    fun c verf page hc hex => readdirplusExchange_pageOf hlists hdir (hc.imp_right (hmem c)) hex
  exact hprogress.complete

end Handlers

end Nfs3
