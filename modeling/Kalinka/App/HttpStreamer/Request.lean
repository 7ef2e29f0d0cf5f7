import Mathlib.Data.List.Infix
import Mathlib.Data.List.TakeWhile
import Mathlib.Data.Nat.Notation
import Kalinka.App.HttpStreamer.ConThread
import Kalinka.Lib.Words

/-!
# Requests in segments

`processRequest` reads until its text has a blank line, and takes the first line of that.  What one
`recv` gives is added as a C string: a NUL takes the bytes behind it in the segment along.

`safe_iff` says for which bytes the request is the same however they are cut into segments, and
there is a first line.
-/

namespace Kalinka.Http

open Utils (split)

/-! ## Reading -/

/-- `SOCKBUFFSIZE` -/
def sockBuffSize : ℕ := 16384

def chr (b : UInt8) : Char := Char.ofNat b.toNat

/-- `toString`, which ends at the first NUL. -/
def BinaryData.toString (data : BinaryData) : List Char := (data.takeWhile (· ≠ 0)).map chr

/-- `request` has `SEPARATOR1` or `SEPARATOR2`. -/
def Blank (request : List Char) : Prop :=
  "\r\n\r\n".toList <:+: request ∨ "\n\n".toList <:+: request

instance : DecidablePred Blank := fun request =>
  inferInstanceAs (Decidable (_ <:+: request ∨ _ <:+: request))

/-- The loop of `processRequest` with what its calls of `recv` give.  It ends in an exception when
the connection is closed or no more data come in time. -/
def readRequest (request : List Char) : List BinaryData → Option (List Char)
  | [] => none
  | buff :: rest =>
    if buff = [] then none
    else if Blank (request ++ buff.toString) then some (request ++ buff.toString)
    else readRequest (request ++ buff.toString) rest

/-- What becomes of the bytes of a client. -/
inductive Outcome
  /-- `vector[0]` of an empty vector -/
  | outOfRange
  | exception
  | request (type : RequestType) (path : Path) (version : HTTPVersion)
  deriving DecidableEq, Repr

/-- `parseRequest(vector[0])` -/
def parseFirst : List (List Char) → Outcome
  | [] => .outOfRange
  | line :: _ =>
    match ConnectThread.parseRequest {} line with
    | (t, true) => .request t.mRequestType t.mPath t.mHttpVersion
    | (_, false) => .exception

/-- `processRequest` up to `getInThread()`. -/
def processRequest (segs : List BinaryData) : Outcome :=
  match readRequest [] segs with
  | none => .exception
  | some request => parseFirst (split request "\r\n".toList)

/-! ## What is asked of it -/

/-- The bytes of a client as its segments bring them. -/
structure Segments (bs : BinaryData) (segs : List BinaryData) : Prop where
  flatten : segs.flatten = bs
  nonempty : ∀ seg ∈ segs, seg ≠ []
  le : ∀ seg ∈ segs, seg.length ≤ sockBuffSize

/-- An exception, or a type, a path and a version that the streamer knows. -/
inductive WellFormed : Outcome → Prop
  | exception : WellFormed .exception
  | request {type : RequestType} {path : Path} {version : HTTPVersion} (htype : type ≠ .unknown)
      (hpath : path.head? = some '/') (hversion : version ≠ .unknown) :
      WellFormed (.request type path version)

/-- Every segmentation of the bytes has the same well-formed outcome. -/
def Safe (bs : BinaryData) : Prop :=
  ∃ out, WellFormed out ∧ ∀ segs, Segments bs segs → processRequest segs = out

/-! ## The bytes for which it holds -/

def isBreak (c : Char) : Bool := c ∈ ['\r', '\n']

def isBlank (c : Char) : Bool := c ∈ ['\t', ' ']

/-- The line breaks with which the text begins. -/
def lead (text : List Char) : List Char := text.takeWhile isBreak

def RequestType.word : RequestType → Option (List Char)
  | .unknown => none
  | .head => some "HEAD".toList
  | .get => some "GET".toList

def HTTPVersion.word : HTTPVersion → Option (List Char)
  | .unknown => none
  | .http10 => some "HTTP/1.0".toList
  | .http11 => some "HTTP/1.1".toList

/-- The line has three words: a type, a path and a version. -/
def RequestLine (line : List Char) (type : RequestType) (path : Path) (version : HTTPVersion) :
    Prop :=
  ∃ method protocol, Text.Words isBlank line [method, path, protocol] ∧
    type.word = some method ∧ path.head? = some '/' ∧ version.word = some protocol

/-- The text has a blank line, which its leading line breaks do not have, and its first line is
the line of the request. -/
structure IsRequest (text : List Char) (type : RequestType) (path : Path)
    (version : HTTPVersion) : Prop where
  blank : Blank text
  notLead : ¬Blank (lead text)
  line : ∃ line lines, Text.Words isBreak text (line :: lines) ∧
    RequestLine line type path version

/-- What may be left of the bytes: each NUL is lost, and with it some of the bytes behind it, as
many as fit into its segment. -/
inductive Thinned : BinaryData → List Char → Prop
  | nil : Thinned [] []
  | keep {b : UInt8} {bs : BinaryData} {text : List Char} (hb : b ≠ 0) (h : Thinned bs text) :
      Thinned (b :: bs) (chr b :: text)
  | cut {bs : BinaryData} {text : List Char} (lost : BinaryData)
      (hlt : lost.length < sockBuffSize) (h : Thinned bs text) :
      Thinned (0 :: (lost ++ bs)) text

/-- The losses do not matter: what is left has a blank line neither among the leading line breaks
nor behind the line of a request, or it always is the same request. -/
def NulsHarmless (bs : BinaryData) : Prop :=
  (∀ text, Thinned bs text →
    ¬Blank (lead text) ∧ ∀ type path version, ¬IsRequest text type path version) ∨
  ∃ type path version, ∀ text, Thinned bs text → IsRequest text type path version

/-- There is a blank line before the first NUL, and it is not among the leading line breaks; or
there is none before the first NUL, and what NULs take along does not matter. -/
def RequestOk (bs : BinaryData) : Prop :=
  if Blank bs.toString then ¬Blank (lead bs.toString) else NulsHarmless bs

variable {b : UInt8} {bs seg : BinaryData} {segs : List BinaryData}
variable {text rest u : List Char} {line path : List Char}
variable {type : RequestType} {version : HTTPVersion}

/-! ## Lines -/

/-- What has only characters of one kind, and lies in a text that goes on with others, lies in
front of these. -/
theorem infix_of_append {α : Type*} {p : α → Bool} {s l l' : List α} (hne : s ≠ [])
    (hs : ∀ c ∈ s, p c = true) (hl : ∀ c ∈ l', p c = false) (h : s <:+: l ++ l') : s <:+: l := by
  induction l' using List.reverseRecOn with
  | nil => rwa [List.append_nil] at h
  | append_singleton l' c ih =>
    rw [← List.append_assoc, List.infix_concat_iff] at h
    obtain hsuffix | hinfix := h
    · have hmem : c ∈ s := by
        obtain ⟨front, heq⟩ := hsuffix
        have hlast := congrArg List.getLast? heq
        rw [List.getLast?_append_of_ne_nil _ hne, List.getLast?_concat] at hlast
        exact List.mem_of_getLast? hlast
      have hc := hl c (List.mem_append_right _ List.mem_cons_self)
      rw [hs c hmem] at hc
      cases hc
    · exact ih (fun c hc => hl c (List.mem_append_left _ hc)) hinfix

theorem Blank.mono (h : Blank u) (hu : u <:+: text) : Blank text :=
  h.imp (·.trans hu) (·.trans hu)

theorem Blank.of_append (hrest : ∀ c ∈ rest, isBreak c = false) (h : Blank (text ++ rest)) :
    Blank text :=
  h.imp (infix_of_append (by decide) (by decide) hrest)
    (infix_of_append (by decide) (by decide) hrest)

theorem mem_lead {c : Char} (h : c ∈ lead text) : isBreak c = true := List.mem_takeWhile_imp h

theorem lead_mono (h : u <+: text) : lead u <+: lead text := by
  obtain ⟨rest, rfl⟩ := h
  unfold lead
  rw [List.takeWhile_append]
  split
  · exact (List.takeWhile_prefix _).trans (List.prefix_append _ _)
  · exact List.prefix_rfl

theorem lead_eq_self (h : ∀ c ∈ text, isBreak c = true) : lead text = text :=
  List.takeWhile_eq_self_iff.2 h

/-- A text with a blank line that does not stand at its beginning has a first line that has
ended. -/
theorem exists_firstLine (h : Blank text) (hlead : ¬Blank (lead text)) :
    ∃ w c rest, text = lead text ++ (w ++ c :: rest) ∧ w ≠ [] ∧ (∀ c ∈ w, isBreak c = false) ∧
      isBreak c = true := by
  have hsplit : lead text ++ text.dropWhile isBreak = text := List.takeWhile_append_dropWhile
  generalize hrest : text.dropWhile isBreak = rest at hsplit
  have hline := List.takeWhile_append_dropWhile (p := fun c => !isBreak c) (l := rest)
  have hw : ∀ c ∈ rest.takeWhile fun c => !isBreak c, isBreak c = false := fun c hc => by
    simpa using List.mem_takeWhile_imp hc
  cases hend : rest.dropWhile fun c => !isBreak c with
  | nil =>
    rw [hend, List.append_nil] at hline
    rw [hline] at hw
    exact absurd (Blank.of_append hw (hsplit.symm ▸ h)) hlead
  | cons c more =>
    refine ⟨rest.takeWhile fun c => !isBreak c, c, more, ?_, ?_, hw, ?_⟩
    · rw [← hend, hline, hsplit]
    · intro hnil
      cases hcons : rest with
      | nil => rw [hcons] at hend; cases hend
      | cons d l =>
        have hd := List.head_dropWhile_not isBreak (l := text) (by rw [hrest, hcons]; simp)
        simp only [hrest, hcons, List.head_cons] at hd
        simp [hcons, hd] at hnil
    · have hc := List.head_dropWhile_not (fun c => !isBreak c) (l := rest) (by rw [hend]; simp)
      simpa [hend] using hc

/-- What a text with a blank line asks for. -/
def requestOutcome (text : List Char) : Outcome := parseFirst (split text "\r\n".toList)

theorem split_eq_words : split text "\r\n".toList = Text.words isBreak text := rfl

/-- The first line stays the same however the text goes on. -/
theorem requestOutcome_append (h : Blank u) (hlead : ¬Blank (lead u)) (hu : u <+: text) :
    requestOutcome text = requestOutcome u := by
  obtain ⟨w, c, rest, heq, hw, hbreak, hc⟩ := exists_firstLine h hlead
  obtain ⟨more, rfl⟩ := hu
  have hwords (l : List Char) : Text.words isBreak (lead u ++ (w ++ c :: l)) =
      w :: Text.words isBreak l := by
    rw [Text.words_append_of_forall fun _ => mem_lead, Text.words_append_cons hw hbreak hc]
  have hmore : u ++ more = lead u ++ (w ++ c :: (rest ++ more)) := by
    conv_lhs => rw [heq]
    simp only [List.append_assoc, List.cons_append]
  have hfirst : Text.words isBreak u = w :: Text.words isBreak rest := by
    rw [← hwords rest, ← heq]
  rw [requestOutcome, requestOutcome, split_eq_words, split_eq_words, hmore, hwords, hfirst]
  rfl

theorem not_blank_lead_append (h : Blank u) (hlead : ¬Blank (lead u)) (hu : u <+: text) :
    ¬Blank (lead text) := by
  obtain ⟨w, c, rest, heq, hw, hbreak, -⟩ := exists_firstLine h hlead
  obtain ⟨more, rfl⟩ := hu
  obtain ⟨d, w, rfl⟩ := List.exists_cons_of_ne_nil hw
  have hd : ¬isBreak d = true := by simp [hbreak d List.mem_cons_self]
  have hsame : lead (u ++ more) = lead u := by
    conv_lhs => rw [heq]
    rw [List.append_assoc, lead, List.takeWhile_append_of_pos fun _ => mem_lead,
      List.cons_append, List.cons_append, List.takeWhile_cons_of_neg hd, List.append_nil]
  rwa [hsame]

/-! ## The first line -/

section Parse

open ConnectThread.parseRequest

variable {t : ConnectThread} {word : List Char}

theorem parseVersion_of_word (h : version.word = some word) :
    parseVersion t word = ({ t with mHttpVersion := version }, true) := by
  cases version with
  | unknown => cases h
  | http10 =>
    obtain rfl := Option.some.inj h
    rw [parseVersion, if_pos rfl]
  | http11 =>
    obtain rfl := Option.some.inj h
    rw [parseVersion, if_neg (by decide), if_pos rfl]

theorem parseVersion_of_not_word (h : ∀ version : HTTPVersion, version.word ≠ some word) :
    (parseVersion t word).2 = false := by
  have h10 : word ≠ "HTTP/1.0".toList := fun heq => h .http10 (heq ▸ rfl)
  have h11 : word ≠ "HTTP/1.1".toList := fun heq => h .http11 (heq ▸ rfl)
  rw [parseVersion, if_neg h10, if_neg h11]

theorem parsePath_of_not (h : ∀ version : HTTPVersion, path.head? = some '/' →
    version.word ≠ some word) : (parsePath t path word).2 = false := by
  rw [parsePath]
  split
  next => rfl
  next hpath => exact parseVersion_of_not_word fun version => h version (not_not.1 hpath)

theorem parsePath_of_word (hpath : path.head? = some '/') (h : version.word = some word) :
    parsePath t path word = ({ t with mPath := path, mHttpVersion := version }, true) := by
  rw [parsePath, if_neg (not_not.2 hpath), parseVersion_of_word h]

theorem parseRequest_of_requestLine (h : RequestLine line type path version) :
    t.parseRequest line =
      ({ t with mRequestType := type, mPath := path, mHttpVersion := version }, true) := by
  obtain ⟨method, protocol, hwords, htype, hpath, hversion⟩ := h
  have hsplit : split line ['\t', ' '] = [method, path, protocol] := hwords.eq_words
  rw [ConnectThread.parseRequest, hsplit]
  cases type with
  | unknown => cases htype
  | head =>
    obtain rfl := Option.some.inj htype
    exact (if_pos rfl).trans (parsePath_of_word hpath hversion)
  | get =>
    obtain rfl := Option.some.inj htype
    exact (if_neg (by decide)).trans ((if_pos rfl).trans (parsePath_of_word hpath hversion))

theorem parseRequest_of_not_requestLine
    (h : ∀ type path version, ¬RequestLine line type path version) :
    (t.parseRequest line).2 = false := by
  rw [ConnectThread.parseRequest]
  split
  next method path protocol hsplit =>
    have hwords : Text.Words isBlank line [method, path, protocol] := Text.words_iff.2 hsplit
    have hnone (type : RequestType) (htype : type.word = some method) (version : HTTPVersion)
        (hpath : path.head? = some '/') : version.word ≠ some protocol := fun hversion =>
      h type path version ⟨method, protocol, hwords, htype, hpath, hversion⟩
    split
    next heq => exact parsePath_of_not (hnone .head (heq ▸ rfl))
    next =>
      split
      next heq => exact parsePath_of_not (hnone .get (heq ▸ rfl))
      next => rfl
  next => rfl

end Parse

theorem parseFirst_of_requestLine {lines : List (List Char)}
    (h : RequestLine line type path version) :
    parseFirst (line :: lines) = .request type path version := by
  rw [parseFirst, parseRequest_of_requestLine h]

theorem parseFirst_of_not_requestLine {lines : List (List Char)}
    (h : ∀ type path version, ¬RequestLine line type path version) :
    parseFirst (line :: lines) = .exception := by
  have hfalse := parseRequest_of_not_requestLine (t := {}) h
  rw [parseFirst]
  split
  next heq => rw [heq] at hfalse; cases hfalse
  next => rfl

theorem RequestLine.wellFormed (h : RequestLine line type path version) :
    WellFormed (.request type path version) := by
  obtain ⟨method, protocol, -, htype, hpath, hversion⟩ := h
  exact .request (by rintro rfl; cases htype) hpath (by rintro rfl; cases hversion)

/-- What a text asks for whose blank lines do not stand at its beginning. -/
def answer (text : List Char) : Outcome :=
  if Blank text then requestOutcome text else .exception

/-- Such a text is a request, or there is an exception. -/
theorem answer_cases (hlead : ¬Blank (lead text)) :
    (∃ type path version, IsRequest text type path version ∧
        answer text = .request type path version) ∨
      (∀ type path version, ¬IsRequest text type path version) ∧ answer text = .exception := by
  by_cases h : Blank text
  · obtain ⟨w, c, rest, heq, hw, hbreak, hc⟩ := exists_firstLine h hlead
    have hwords : Text.words isBreak text = w :: Text.words isBreak rest := by
      rw [heq, Text.words_append_of_forall fun _ => mem_lead, Text.words_append_cons hw hbreak hc]
    rw [answer, if_pos h, requestOutcome, split_eq_words, hwords]
    by_cases hline : ∃ type path version, RequestLine w type path version
    · obtain ⟨type, path, version, hline⟩ := hline
      exact .inl ⟨type, path, version, ⟨h, hlead, w, _, Text.words_iff.2 hwords, hline⟩,
        parseFirst_of_requestLine hline⟩
    · simp only [not_exists] at hline
      refine .inr ⟨fun type path version hrequest => ?_, parseFirst_of_not_requestLine hline⟩
      obtain ⟨line, lines, hfirst, hrequest⟩ := hrequest.line
      have hsame := hfirst.eq_words
      rw [hwords] at hsame
      cases hsame
      exact hline type path version hrequest
  · exact .inr ⟨fun type path version hrequest => h hrequest.blank, if_neg h⟩

theorem IsRequest.answer (h : IsRequest text type path version) :
    answer text = .request type path version := by
  obtain ⟨line, lines, hwords, hline⟩ := h.line
  rw [Http.answer, if_pos h.blank, requestOutcome, split_eq_words, hwords.eq_words,
    parseFirst_of_requestLine hline]

theorem isRequest_iff (hlead : ¬Blank (lead text)) :
    IsRequest text type path version ↔ answer text = .request type path version := by
  refine ⟨IsRequest.answer, fun h => ?_⟩
  obtain ⟨type', path', version', hrequest, heq⟩ | ⟨-, heq⟩ := answer_cases hlead
  · rw [h] at heq
    cases heq
    exact hrequest
  · rw [h] at heq
    cases heq

theorem IsRequest.wellFormed (h : IsRequest text type path version) :
    WellFormed (.request type path version) := by
  obtain ⟨line, lines, -, hline⟩ := h.line
  exact hline.wellFormed

/-! ## Reading the segments -/

/-- The text of the segments. -/
def textOf (segs : List BinaryData) : List Char := segs.flatMap BinaryData.toString

/-- A request that has been read is what the first segments bring. -/
theorem readRequest_cases (request : List Char) (hne : ∀ seg ∈ segs, seg ≠ []) :
    (∃ u, readRequest request segs = some u ∧ Blank u ∧ u <+: request ++ textOf segs) ∨
      readRequest request segs = none ∧ (segs = [] ∨ ¬Blank (request ++ textOf segs)) := by
  induction segs generalizing request with
  | nil => exact .inr ⟨rfl, .inl rfl⟩
  | cons seg segs ih =>
    obtain ⟨hseg, hsegs⟩ := List.forall_mem_cons.1 hne
    have hcons : request ++ textOf (seg :: segs) = request ++ seg.toString ++ textOf segs := by
      rw [textOf, List.flatMap_cons, List.append_assoc]
      rfl
    rw [readRequest, if_neg hseg, hcons]
    by_cases hblank : Blank (request ++ seg.toString)
    · rw [if_pos hblank]
      exact .inl ⟨_, rfl, hblank, List.prefix_append _ _⟩
    · rw [if_neg hblank]
      obtain hread | ⟨hnone, hend⟩ := ih (request ++ seg.toString) hsegs
      · exact .inl hread
      · refine .inr ⟨hnone, .inr ?_⟩
        obtain rfl | hend := hend
        · rwa [textOf, List.flatMap_nil, List.append_nil]
        · exact hend

theorem processRequest_eq_answer (hne : ∀ seg ∈ segs, seg ≠ [])
    (hlead : ¬Blank (lead (textOf segs))) : processRequest segs = answer (textOf segs) := by
  obtain ⟨u, hread, hblank, hu⟩ | ⟨hnone, hend⟩ := readRequest_cases [] hne
  · rw [List.nil_append] at hu
    have hleadu : ¬Blank (lead u) := fun h => hlead (h.mono (lead_mono hu).isInfix)
    rw [answer, if_pos (hblank.mono hu.isInfix), requestOutcome_append hblank hleadu hu]
    simp only [processRequest, hread, requestOutcome]
  · have hnot : ¬Blank (textOf segs) := by
      obtain rfl | hend := hend
      · decide
      · exact hend
    simp only [processRequest, hnone, answer, if_neg hnot]

/-- When each segment brings one character at most, the reading ends before the first line. -/
theorem readRequest_lead (request : List Char) (hne : ∀ seg ∈ segs, seg ≠ [])
    (hshort : ∀ seg ∈ segs, seg.toString.length ≤ 1) (hrequest : ∀ c ∈ request, isBreak c = true)
    (hnot : ¬Blank request) (hlead : Blank (lead (request ++ textOf segs))) :
    ∃ u, readRequest request segs = some u ∧ ∀ c ∈ u, isBreak c = true := by
  induction segs generalizing request with
  | nil =>
    rw [textOf, List.flatMap_nil, List.append_nil, lead_eq_self hrequest] at hlead
    exact absurd hlead hnot
  | cons seg segs ih =>
    obtain ⟨hseg, hsegs⟩ := List.forall_mem_cons.1 hne
    obtain ⟨hone, hshort⟩ := List.forall_mem_cons.1 hshort
    have hcons : request ++ textOf (seg :: segs) = request ++ seg.toString ++ textOf segs := by
      rw [textOf, List.flatMap_cons, List.append_assoc]
      rfl
    rw [hcons] at hlead
    have hbreaks : ∀ c ∈ request ++ seg.toString, isBreak c = true := by
      match hseg : seg.toString with
      | [] => rwa [List.append_nil]
      | c :: d :: l => rw [hseg] at hone; simp at hone
      | [c] =>
        -- any other character would end the leading line breaks with a blank line among them
        by_cases hc : isBreak c = true
        · exact List.forall_mem_append.2 ⟨hrequest, by simpa using hc⟩
        · rw [hseg, List.append_assoc, lead, List.takeWhile_append_of_pos hrequest,
            List.singleton_append, List.takeWhile_cons_of_neg hc, List.append_nil] at hlead
          exact absurd hlead hnot
    rw [readRequest, if_neg hseg]
    by_cases hblank : Blank (request ++ seg.toString)
    · rw [if_pos hblank]
      exact ⟨_, rfl, hbreaks⟩
    · rw [if_neg hblank]
      exact ih (request ++ seg.toString) hsegs hshort hbreaks hblank hlead

/-! ## What NULs take along -/

theorem exists_thinned (bs : BinaryData) : ∃ text, Thinned bs text := by
  induction bs with
  | nil => exact ⟨[], .nil⟩
  | cons b bs ih =>
    obtain ⟨text, h⟩ := ih
    by_cases hb : b = 0
    · subst hb
      exact ⟨text, .cut [] (by decide) h⟩
    · exact ⟨_, .keep hb h⟩

theorem toString_cons_of_ne (hb : b ≠ 0) :
    BinaryData.toString (b :: bs) = chr b :: bs.toString := by
  rw [BinaryData.toString, List.takeWhile_cons_of_pos (by simpa using hb), List.map_cons]
  rfl

theorem toString_zero_cons : BinaryData.toString (0 :: bs) = [] := rfl

theorem Thinned.append (h : Thinned bs text) (hlen : seg.length ≤ sockBuffSize) :
    Thinned (seg ++ bs) (seg.toString ++ text) := by
  induction seg with
  | nil => exact h
  | cons b seg ih =>
    rw [List.length_cons] at hlen
    by_cases hb : b = 0
    · subst hb
      rw [toString_zero_cons]
      exact .cut seg hlen h
    · rw [toString_cons_of_ne hb]
      exact .keep hb (ih (by omega))

theorem Segments.thinned (h : Segments bs segs) : Thinned bs (textOf segs) := by
  obtain ⟨rfl, -, hle⟩ := h
  induction segs with
  | nil => exact .nil
  | cons seg segs ih =>
    obtain ⟨hseg, hsegs⟩ := List.forall_mem_cons.1 hle
    exact (ih hsegs).append hseg

theorem Thinned.segments (h : Thinned bs text) : ∃ segs, Segments bs segs ∧ textOf segs = text ∧
    ∀ seg ∈ segs, seg.toString.length ≤ 1 := by
  induction h with
  | nil => exact ⟨[], ⟨rfl, by simp, by simp⟩, rfl, by simp⟩
  | @keep b bs text hb _ ih =>
    obtain ⟨segs, ⟨hflat, hne, hle⟩, htext, hshort⟩ := ih
    refine ⟨[b] :: segs, ⟨by rw [List.flatten_cons, hflat]; rfl, ?_, ?_⟩, ?_, ?_⟩
    · exact List.forall_mem_cons.2 ⟨by simp, hne⟩
    · exact List.forall_mem_cons.2 ⟨(by decide : 1 ≤ sockBuffSize), hle⟩
    · rw [textOf, List.flatMap_cons, toString_cons_of_ne hb, ← htext]
      rfl
    · refine List.forall_mem_cons.2 ⟨?_, hshort⟩
      rw [toString_cons_of_ne hb]
      exact Nat.le_refl 1
  | @cut bs text lost hlt _ ih =>
    obtain ⟨segs, ⟨hflat, hne, hle⟩, htext, hshort⟩ := ih
    refine ⟨(0 :: lost) :: segs, ⟨by rw [List.flatten_cons, hflat]; rfl, ?_, ?_⟩, ?_, ?_⟩
    · exact List.forall_mem_cons.2 ⟨by simp, hne⟩
    · exact List.forall_mem_cons.2 ⟨hlt, hle⟩
    · rw [textOf, List.flatMap_cons, toString_zero_cons, ← htext]
      rfl
    · exact List.forall_mem_cons.2 ⟨Nat.zero_le 1, hshort⟩

theorem Thinned.toString_prefix (h : Thinned bs text) : bs.toString <+: text := by
  induction h with
  | nil => exact List.prefix_rfl
  | keep hb _ ih =>
    rw [toString_cons_of_ne hb]
    exact List.cons_prefix_cons.2 ⟨rfl, ih⟩
  | cut => exact List.nil_prefix

/-! ## All segmentations -/

/-- With a blank line at the beginning of what may be left, the reading may end before the first
line. -/
theorem exists_outOfRange (h : Thinned bs text) (hlead : Blank (lead text)) :
    ∃ segs, Segments bs segs ∧ processRequest segs = .outOfRange := by
  obtain ⟨segs, hsegs, rfl, hshort⟩ := h.segments
  obtain ⟨u, hread, hu⟩ := readRequest_lead [] hsegs.nonempty hshort (by simp)
    (by decide) hlead
  refine ⟨segs, hsegs, ?_⟩
  have hnone : Text.words isBreak u = [] := by
    have happend := Text.words_append_of_forall (l := []) hu
    rwa [List.append_nil] at happend
  simp only [processRequest, hread, split_eq_words, hnone, parseFirst]

theorem safe_iff_thinned : Safe bs ↔ ∃ out, WellFormed out ∧
    ∀ text, Thinned bs text → ¬Blank (lead text) ∧ answer text = out := by
  refine exists_congr fun out => and_congr_right fun hout => ?_
  constructor
  · intro h text htext
    have hlead : ¬Blank (lead text) := fun hlead => by
      obtain ⟨segs, hsegs, hrange⟩ := exists_outOfRange htext hlead
      rw [← h segs hsegs, hrange] at hout
      cases hout
    obtain ⟨segs, hsegs, rfl, -⟩ := htext.segments
    exact ⟨hlead, (processRequest_eq_answer hsegs.nonempty hlead).symm.trans (h segs hsegs)⟩
  · intro h segs hsegs
    obtain ⟨hlead, hanswer⟩ := h _ hsegs.thinned
    rw [processRequest_eq_answer hsegs.nonempty hlead, hanswer]

theorem safe_iff_nulsHarmless : Safe bs ↔ NulsHarmless bs := by
  rw [safe_iff_thinned]
  constructor
  · rintro ⟨out, hout, h⟩
    cases hout with
    | exception =>
      refine .inl fun text htext => ⟨(h text htext).1, fun type path version hrequest => ?_⟩
      have hanswer := (h text htext).2
      rw [hrequest.answer] at hanswer
      cases hanswer
    | @request type path version =>
      refine .inr ⟨type, path, version, fun text htext => ?_⟩
      obtain ⟨hlead, hanswer⟩ := h text htext
      exact (isRequest_iff hlead).2 hanswer
  · rintro (h | ⟨type, path, version, h⟩)
    · refine ⟨.exception, .exception, fun text htext => ⟨(h text htext).1, ?_⟩⟩
      obtain ⟨type, path, version, hrequest, -⟩ | ⟨-, hanswer⟩ := answer_cases (h text htext).1
      · exact absurd hrequest ((h text htext).2 type path version)
      · exact hanswer
    · obtain ⟨text, htext⟩ := exists_thinned bs
      exact ⟨_, (h text htext).wellFormed,
        fun text htext => ⟨(h text htext).notLead, (h text htext).answer⟩⟩

/-- With a blank line before the first NUL, nothing behind it matters. -/
theorem nulsHarmless_iff (h : Blank bs.toString) :
    NulsHarmless bs ↔ ¬Blank (lead bs.toString) := by
  rw [← safe_iff_nulsHarmless, safe_iff_thinned]
  constructor
  · rintro ⟨out, -, hall⟩ hlead
    obtain ⟨text, htext⟩ := exists_thinned bs
    exact (hall text htext).1 (hlead.mono (lead_mono htext.toString_prefix).isInfix)
  · intro hlead
    have hanswer (text : List Char) (htext : Thinned bs text) :
        ¬Blank (lead text) ∧ answer text = answer bs.toString := by
      have hprefix := htext.toString_prefix
      refine ⟨not_blank_lead_append h hlead hprefix, ?_⟩
      rw [answer, answer, if_pos h, if_pos (h.mono hprefix.isInfix),
        requestOutcome_append h hlead hprefix]
    obtain ⟨type, path, version, hrequest, heq⟩ | ⟨-, heq⟩ := answer_cases hlead
    · exact ⟨_, hrequest.wellFormed, heq ▸ hanswer⟩
    · exact ⟨_, .exception, heq ▸ hanswer⟩

/-- The bytes whose every segmentation has the same well-formed outcome. -/
theorem safe_iff (bs : BinaryData) : Safe bs ↔ RequestOk bs := by
  rw [safe_iff_nulsHarmless, RequestOk]
  split
  next h => exact nulsHarmless_iff h
  next => rfl

/-- The end of the request stands behind a NUL, and is read if it comes in the next segment. -/
example (line : BinaryData) (h : line = "GET / HTTP/1.0".toList.map fun c => c.toNat.toUInt8) :
    processRequest [line ++ [0, 10, 10]] = .exception ∧
      processRequest [line ++ [0], [10, 10]] = .request .get ['/'] .http10 := by
  subst h
  decide

theorem processRequest_breaks : processRequest [[13, 10, 13, 10]] = .outOfRange := by decide

/-- A request of two line breaks has no line. -/
theorem breaks_not_safe : ¬Safe [13, 10, 13, 10] := by
  rintro ⟨out, hout, h⟩
  have heq := h [[13, 10, 13, 10]] ⟨rfl, by decide, by decide⟩
  rw [processRequest_breaks] at heq
  rw [← heq] at hout
  cases hout

end Kalinka.Http
