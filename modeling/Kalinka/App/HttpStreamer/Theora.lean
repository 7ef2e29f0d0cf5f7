import Kalinka.Lib.Run

/-!
# The Theora reader

A Theora stream comes in Ogg pages, and those of several logical streams are mixed.  The reader
gives the pages on in portions, and keeps the ones that a new client needs first: the page that
begins a stream, the first page behind it, and the pages that continue this one.

`throughout_right_iff` says which calls keep that header right.  Whether a page is continued is said
by the page behind it, and `getData` asks the page itself.
-/

namespace Kalinka.Theora

open Run

/-- A page, with its place among the pages of its stream. -/
structure Page where
  serial : Int32
  bos : Bool
  continued : Bool
  /-- `KLKASSERT(!ogg_page_continued(&page))` -/
  fresh : bos → ¬continued
  data : List UInt8
  deriving DecidableEq

/-- Binary data, as the pages whose bytes they are. -/
abbrev BinaryData := List Page

/-- `TheoraReader`, the pages that it has not read, and what its calls have returned. -/
structure TheoraReader where
  unread : List Page
  /-- Whether the end of the pages is an empty `recv`; otherwise it throws, or waits. -/
  eos : Bool
  mHeader : BinaryData := []
  /-- `m_was_header` of the entries of `m_streams`, which makes them when they are missing. -/
  mStreams : Int32 → Bool := fun _ => false
  portions : List BinaryData := []

/-! ## The code -/

/-- The loop of `getData`: a page, and the next one while it is continued; and what is left. -/
def readOn (eos : Bool) : List Page → Option (BinaryData × List Page)
  | [] => if eos then some ([], []) else none
  | page :: unread =>
    if page.continued then (readOn eos unread).map fun r => (page :: r.1, r.2)
    else some ([page], unread)

/-- `TheoraReader::getData`; `none` when it does not return. -/
def getData (r : TheoraReader) : Option (BinaryData × TheoraReader) :=
  match r.unread with
  | [] => if r.eos then some ([], r) else none
  | page :: unread =>
    if page.bos then
      some ([page], { r with
        unread := unread
        mStreams := Function.update r.mStreams page.serial false
        mHeader := r.mHeader ++ [page] })
    else
      (readOn r.eos r.unread).map fun (data, unread) =>
        if r.mStreams page.serial then (data, { r with unread := unread })
        else (data, { r with
          unread := unread
          mStreams := Function.update r.mStreams page.serial true
          mHeader := r.mHeader ++ data })

/-- A call, with its portion noted. -/
def step (r : TheoraReader) (_ : Unit) : Option TheoraReader :=
  (getData r).map fun p => { p.2 with portions := r.portions ++ [p.1] }

/-! ## What the header is -/

/-- The pages of a stream behind the last one that begins it. -/
def sinceBos (serial : Int32) (before : List Page) : List Page :=
  ((before.filter (·.serial = serial)).reverse.takeWhile (!·.bos)).reverse

/-- A page that begins a stream, the first one behind that, or one that continues this. -/
def IsHeader (before : List Page) (page : Page) : Prop :=
  page.bos ∨ sinceBos page.serial before = [] ∨
    (page.continued ∧ ∀ q ∈ (sinceBos page.serial before).tail, q.continued)

instance (before : List Page) (page : Page) : Decidable (IsHeader before page) := by
  unfold IsHeader
  infer_instance

/-- The header pages among some pages, behind the others. -/
def headerFrom (before : List Page) : List Page → List Page
  | [] => []
  | page :: pages =>
    if IsHeader before page then page :: headerFrom (before ++ [page]) pages
    else headerFrom (before ++ [page]) pages

/-- The portions are the pages that have been read, each once and in order, and the header is the
header pages of these. -/
structure Right (pages : List Page) (r : TheoraReader) : Prop where
  portions : r.portions.flatten ++ r.unread = pages
  header : r.mHeader = headerFrom [] r.portions.flatten

/-- The pages that a call is about to read: those up to one that is not continued. -/
def nextPages (unread : List Page) : List Page :=
  unread.takeWhile (·.continued) ++ (unread.dropWhile (·.continued)).take 1

/-- Unless its first page begins a stream, a call reads header pages only if the page's
stream has had no header, and no header page otherwise. -/
def HeaderOk (r : TheoraReader) (_ : Unit) : Prop :=
  ∀ page, r.unread.head? = some page → page.bos = false →
    ∀ l q l', nextPages r.unread = l ++ q :: l' →
      (IsHeader (r.portions.flatten ++ l) q ↔ r.mStreams page.serial = false)

variable {before pages pages' unread unread' data : List Page} {page : Page} {eos : Bool}
variable {r r' : TheoraReader} {calls : List Unit}

theorem headerFrom_append : headerFrom before (pages ++ pages') =
    headerFrom before pages ++ headerFrom (before ++ pages) pages' := by
  induction pages generalizing before with
  | nil => rw [List.append_nil]; rfl
  | cons page pages ih =>
    rw [List.cons_append, headerFrom, headerFrom, ih, List.append_assoc, List.singleton_append]
    split <;> rfl

theorem length_headerFrom_le (before pages : List Page) :
    (headerFrom before pages).length ≤ pages.length := by
  induction pages generalizing before with
  | nil => exact Nat.le_refl _
  | cons page pages ih =>
    have hle := ih (before ++ [page])
    rw [headerFrom, List.length_cons]
    split
    · exact Nat.succ_le_succ hle
    · exact Nat.le_succ_of_le hle

theorem forall_split_cons {P : List Page → Page → Prop} :
    (∀ l q l', page :: pages = l ++ q :: l' → P l q) ↔
      P [] page ∧ ∀ l q l', pages = l ++ q :: l' → P (page :: l) q := by
  constructor
  · exact fun h => ⟨h [] page pages rfl, fun l q l' heq => h (page :: l) q l' (heq ▸ rfl)⟩
  · rintro ⟨hhead, htail⟩ l q l' heq
    cases l with
    | nil =>
      cases heq
      exact hhead
    | cons x l =>
      obtain ⟨rfl, hrest⟩ := List.cons.inj heq
      exact htail l q l' hrest

/-- All of some pages are header pages, or none is. -/
theorem headerFrom_eq_iff (before pages : List Page) (b : Bool) :
    (headerFrom before pages = if b then [] else pages) ↔
      ∀ l q l', pages = l ++ q :: l' → (IsHeader (before ++ l) q ↔ b = false) := by
  induction pages generalizing before with
  | nil => exact iff_of_true (by cases b <;> rfl) (by simp)
  | cons page pages ih =>
    have hrest : (∀ l q l', pages = l ++ q :: l' →
        (IsHeader (before ++ page :: l) q ↔ b = false)) ↔
        headerFrom (before ++ [page]) pages = if b then [] else pages := by
      simp only [ih, List.append_assoc, List.singleton_append]
    rw [forall_split_cons, hrest, List.append_nil, headerFrom]
    have hlen := length_headerFrom_le (before ++ [page]) pages
    by_cases hpage : IsHeader before page
    · rw [if_pos hpage]
      cases b <;> simp [hpage]
    · rw [if_neg hpage]
      cases b
      · refine iff_of_false (fun heq => ?_) (by simp [hpage])
        have := congrArg List.length heq
        simp only [Bool.false_eq_true, if_false, List.length_cons] at this
        omega
      · simp [hpage]

/-! ## One call -/

theorem readOn_eq (h : readOn eos unread = some (data, unread')) :
    data = nextPages unread ∧ data ++ unread' = unread := by
  induction unread generalizing data with
  | nil =>
    rw [readOn, Option.ite_none_right_eq_some] at h
    cases h.2
    exact ⟨rfl, rfl⟩
  | cons page unread ih =>
    rw [readOn] at h
    split at h
    next hcont =>
      obtain ⟨⟨data, rest⟩, hrest, heq⟩ := Option.map_eq_some_iff.1 h
      cases heq
      obtain ⟨hdata, hsplit⟩ := ih hrest
      rw [nextPages, List.takeWhile_cons_of_pos hcont, List.dropWhile_cons_of_pos hcont]
      exact ⟨congrArg (page :: ·) hdata, congrArg (page :: ·) hsplit⟩
    next hcont =>
      cases h
      rw [nextPages, List.takeWhile_cons_of_neg hcont, List.dropWhile_cons_of_neg hcont]
      exact ⟨rfl, rfl⟩

/-- What a call may do to the pages and the header. -/
inductive Called (r r' : TheoraReader) : Prop
  | eos (hunread : r.unread = []) (hrest : r'.unread = [])
      (hportions : r'.portions = r.portions ++ [[]]) (hheader : r'.mHeader = r.mHeader)
  | bos (page : Page) (hbos : page.bos = true) (hunread : r.unread = page :: r'.unread)
      (hportions : r'.portions = r.portions ++ [[page]])
      (hheader : r'.mHeader = r.mHeader ++ [page])
  | pages (page : Page) (hhead : r.unread.head? = some page) (hbos : page.bos = false)
      (hunread : r.unread = nextPages r.unread ++ r'.unread)
      (hportions : r'.portions = r.portions ++ [nextPages r.unread])
      (hheader : r'.mHeader =
        r.mHeader ++ if r.mStreams page.serial then [] else nextPages r.unread)

theorem step_cases (h : step r () = some r') : Called r r' := by
  obtain ⟨⟨data, s⟩, hget, rfl⟩ := Option.map_eq_some_iff.1 h
  unfold getData at hget
  split at hget
  next hnil =>
    rw [Option.ite_none_right_eq_some] at hget
    cases hget.2
    exact .eos hnil hnil rfl rfl
  next page unread hcons =>
    split at hget
    next hbos =>
      cases hget
      exact .bos page hbos hcons rfl rfl
    next hbos =>
      obtain ⟨⟨data', unread'⟩, hread, hput⟩ := Option.map_eq_some_iff.1 hget
      obtain ⟨rfl, hsplit⟩ := readOn_eq hread
      have hhead : r.unread.head? = some page := by rw [hcons]; rfl
      dsimp only at hput
      split at hput
      next hwas =>
        cases hput
        refine .pages page hhead (Bool.eq_false_iff.2 hbos) hsplit.symm rfl ?_
        rw [if_pos hwas, List.append_nil]
      next hwas =>
        cases hput
        refine .pages page hhead (Bool.eq_false_iff.2 hbos) hsplit.symm rfl ?_
        rw [if_neg hwas]

/-! ## All calls -/

theorem flatten_append_step (h : step r () = some r') :
    r'.portions.flatten ++ r'.unread = r.portions.flatten ++ r.unread := by
  obtain ⟨hunread, hrest, hportions, -⟩ | ⟨page, -, hunread, hportions, -⟩ |
    ⟨page, -, -, hunread, hportions, -⟩ := step_cases h
  · rw [hportions, hrest, hunread]
    simp
  · rw [hportions, hunread]
    simp
  · rw [hportions]
    nth_rw 2 [hunread]
    simp

/-- One call keeps the header right exactly if it reads what it should. -/
theorem right_step_iff (hr : Right pages r) (h : step r () = some r') :
    Right pages r' ↔ HeaderOk r () := by
  have hflat := (flatten_append_step h).trans hr.portions
  have hiff : Right pages r' ↔ r'.mHeader = headerFrom [] r'.portions.flatten :=
    ⟨Right.header, fun hheader => ⟨hflat, hheader⟩⟩
  rw [hiff]
  obtain ⟨hunread, hrest, hportions, hheader⟩ | ⟨page, hbos, hunread, hportions, hheader⟩ |
    ⟨page, hhead, hbos, hunread, hportions, hheader⟩ := step_cases h
  · refine iff_of_true ?_ fun page hpage => ?_
    · rw [hheader, hr.header, hportions]
      simp
    · rw [hunread] at hpage
      cases hpage
  · refine iff_of_true ?_ fun page' hpage hnot => ?_
    · rw [hheader, hr.header, hportions, List.flatten_append, headerFrom_append]
      simp [headerFrom, IsHeader, hbos]
    · rw [hunread] at hpage
      cases hpage
      exact absurd hbos (Bool.eq_false_iff.1 hnot)
  · rw [hheader, hr.header, hportions, List.flatten_append, headerFrom_append,
      List.append_cancel_left_eq, List.flatten_singleton, List.nil_append]
    have hpages := headerFrom_eq_iff r.portions.flatten (nextPages r.unread)
      (r.mStreams page.serial)
    constructor
    · intro heq page' hpage _
      cases hhead.symm.trans hpage
      exact hpages.1 heq.symm
    · intro hok
      exact (hpages.2 (hok page hhead hbos)).symm

/-- The header is right after every call exactly if each call reads what it should. -/
theorem throughout_right_iff :
    Throughout step (Right pages) { unread := pages, eos := eos } calls ↔
      EachStep step HeaderOk { unread := pages, eos := eos } calls :=
  throughout_iff_eachStep (I := fun _ => True) (fun _ _ => trivial)
    (fun _ hr h => right_step_iff hr h) trivial ⟨rfl, rfl⟩

/-- A header packet over two pages: the first is not continued, and the second is not saved. -/
theorem not_right_of_packet_over_pages :
    ¬∀ (pages : List Page) (eos : Bool) (calls : List Unit),
      Throughout step (Right pages) { unread := pages, eos := eos } calls := by
  intro hall
  have h := hall [⟨7, true, false, by decide, [0]⟩, ⟨7, false, false, by decide, [1]⟩,
    ⟨7, false, true, by decide, [2]⟩, ⟨7, false, false, by decide, [3]⟩] true [(), (), ()]
  have hright := ((h.2 _ rfl).2 _ rfl).2 _ rfl
  exact absurd hright.header (by decide)

end Kalinka.Theora
