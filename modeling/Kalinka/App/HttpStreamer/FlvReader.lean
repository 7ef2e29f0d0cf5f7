import Kalinka.Common.Socket.Tcp

/-!
# The FLV reader

`FLVReader::getData` reads the header of a stream once, and then a tag with each call: its header,
its body and the size field behind it.  What is to be read is said by the bytes read before.

`framed_iff` says for which streams each call returns its tag, however the socket cuts the stream:
those whose data offset leaves room for the first size field in an `int`.
-/

namespace Kalinka.Flv

open Wire Tcp
open Snmp (Segment stream)

/-- What `getData` reads and changes. -/
structure FLVReader where
  mSock : Connection
  mRealHeader : List UInt8 := []
  mBrokenCount : UInt64 := 0

/-- The ends of a call that returns nothing; `undefined` is a signed overflow. -/
inductive Ending
  | throws
  | waits
  | undefined
  deriving DecidableEq, Repr

abbrev ReaderM := StateT FLVReader (Except Ending)

/-! ## The code -/

/-- `m_sock->recvAll` with a buffer of `n` bytes. -/
def recvAll (n : ℕ) : ReaderM (List UInt8) := fun r =>
  match Tcp.recvAll n r.mSock with
  | .returns data rest => .ok (data, { r with mSock := rest })
  | .throws => .error .throws
  | .waits => .error .waits

/-- `BOOST_ASSERT` -/
def assert (p : Prop) [Decidable p] : ReaderM Unit := if p then pure () else throw .throws

/-- The value of an expression of type `int`. -/
def int (n : ℕ) : ReaderM ℕ := if n < 2 ^ 31 then pure n else throw .undefined

/-- `FLV_AUDIODATA`, `FLV_VIDEODATA`, `FLV_SCRIPTDATAOBJECT` -/
def dataTypes : List UInt8 := [8, 9, 18]

def increaseBrokenCount : ReaderM Unit :=
  modify fun r => { r with mBrokenCount := r.mBrokenCount + 1 }

/-- The first part of `FLVReader::getData`: `m_real_header` is empty. -/
def readHeader : ReaderM Unit := do
  let header ← recvAll 9
  -- `FLV_UI32(flvheader->headersize) + 4`
  let headersize ← int (ofBE ((header.drop 5).take 4))
  let realHeaderSize ← int (headersize + 4)
  assert (9 < realHeaderSize)
  let rest ← recvAll (realHeaderSize - 9)
  modify fun r => { r with mRealHeader := r.mRealHeader ++ header ++ rest }

/-- The second part of `FLVReader::getData`. -/
def readTag : ReaderM (List UInt8) := do
  let tag ← recvAll 11
  assert (tag.length = 11)
  -- `FLV_UI24(flvtag->datasize) + 4`
  let datasize ← int (ofBE ((tag.drop 1).take 3))
  let realDataSize ← int (datasize + 4)
  let realData ← recvAll realDataSize
  unless tag.head? ∈ dataTypes.map some do increaseBrokenCount
  assert (realData.length = realDataSize)
  return tag ++ realData

/-- `FLVReader::getData` into an empty buffer. -/
def getData : ReaderM (List UInt8) := do
  if (← get).mRealHeader = [] then readHeader
  readTag

/-- The portions of `k` calls. -/
def getPortions : ℕ → ReaderM (List (List UInt8))
  | 0 => return []
  | k + 1 => do
    let data ← getData
    let portions ← getPortions k
    return data :: portions

/-! ## The format -/

/-- A header whose data begin behind `offset` bytes, and the size field of no tag. -/
structure Header where
  offset : ℕ
  le_offset : 6 ≤ offset
  offset_lt : offset < 2 ^ 31
  bytes : List UInt8
  length_bytes : bytes.length = offset + 4
  offset_bytes : (bytes.drop 5).take 4 = be 4 offset

/-- The header as an encoder writes it that has sound and pictures. -/
def Header.ofOffset (offset : ℕ) (hle : 6 ≤ offset) (hlt : offset < 2 ^ 31) : Header where
  offset := offset
  le_offset := hle
  offset_lt := hlt
  bytes := [0x46, 0x4C, 0x56, 0x01, 0x05] ++ (be 4 offset ++ List.replicate (offset - 5) 0)
  length_bytes := by
    simp only [List.length_append, length_be, List.length_replicate, List.length_cons,
      List.length_nil]
    omega
  offset_bytes := List.take_left' (length_be 4 offset)

/-- A tag, with the time and the stream in `info`, and the size field behind it. -/
structure Tag where
  type : UInt8
  info : List UInt8
  length_info : info.length = 7
  body : List UInt8
  length_body : body.length < 2 ^ 24
  previousTagSize : List UInt8
  length_previousTagSize : previousTagSize.length = 4

namespace Tag

def header (t : Tag) : List UInt8 := t.type :: (be 3 t.body.length ++ t.info)

def data (t : Tag) : List UInt8 := t.body ++ t.previousTagSize

def bytes (t : Tag) : List UInt8 := t.header ++ t.data

end Tag

/-- Each call returns its tag; the saved header, the portions and what has not been read are the
stream. -/
def Framed (h : Header) (tags : List Tag) (c : Connection) : Prop :=
  ∀ k ≤ tags.length, ∃ r, getPortions k { mSock := c } = .ok ((tags.take k).map Tag.bytes, r) ∧
    r.mRealHeader = (if k = 0 then [] else h.bytes) ∧
    r.mRealHeader ++ (tags.take k).flatMap Tag.bytes ++ stream r.mSock.segs = stream c.segs

variable {n k : ℕ} {a b bs data : List UInt8} {h : Header} {t : Tag} {tags : List Tag}
variable {r r' : FLVReader} {c : Connection} {e : Ending} {α β : Type}

/-! ## Single steps -/

theorem bind_ok {x : ReaderM α} {f : α → ReaderM β} {v : α} (hx : x r = .ok (v, r')) :
    (x >>= f) r = f v r' := by
  change (x r >>= fun p => f p.1 p.2) = f v r'
  rw [hx]
  rfl

theorem bind_error {x : ReaderM α} {f : α → ReaderM β} (hx : x r = .error e) :
    (x >>= f) r = .error e := by
  change (x r >>= fun p => f p.1 p.2) = .error e
  rw [hx]
  rfl

theorem assert_of {p : Prop} [Decidable p] (hp : p) : assert p r = .ok ((), r) := by
  rw [assert, if_pos hp]
  rfl

theorem int_of_lt (hn : n < 2 ^ 31) : int n r = .ok (n, r) := by
  rw [int, if_pos hn]
  rfl

theorem get_eq (r : FLVReader) : (get : ReaderM FLVReader) r = .ok (r, r) := rfl

theorem increaseBrokenCount_eq (r : FLVReader) :
    increaseBrokenCount r = .ok ((), { r with mBrokenCount := r.mBrokenCount + 1 }) := rfl

/-- The bytes that are asked for come, and nothing else changes. -/
theorem recvAll_eq (hn : 0 < n) (hlt : n < 2 ^ 31) (ha : a.length = n)
    (hs : stream r.mSock.segs = a ++ b) :
    ∃ c, recvAll n r = .ok (a, { r with mSock := c }) ∧ stream c.segs = b := by
  obtain ⟨segs, hall, hstream⟩ := Tcp.recvAll_of_lt hn hlt ha hs
  refine ⟨{ r.mSock with segs := segs }, ?_, hstream⟩
  rw [recvAll, hall]

/-! ## The header -/

theorem take_header (h : Header) : (h.bytes.take 9).length = 9 := by
  have := h.le_offset
  rw [List.length_take, h.length_bytes]
  omega

theorem ofBE_header (h : Header) : ofBE (((h.bytes.take 9).drop 5).take 4) = h.offset := by
  have hlt := h.offset_lt
  have htake : ((h.bytes.take 9).drop 5).take 4 = (h.bytes.drop 5).take 4 := by
    rw [List.drop_take, List.take_take, Nat.min_eq_left (by decide)]
  rw [htake, h.offset_bytes, ofBE_be (by omega)]

/-- The header is read when the size field behind it still fits. -/
theorem readHeader_eq (hlt : h.offset + 4 < 2 ^ 31) (hnil : r.mRealHeader = [])
    (hs : stream r.mSock.segs = h.bytes ++ b) :
    ∃ c, readHeader r = .ok ((), { r with mSock := c, mRealHeader := h.bytes }) ∧
      stream c.segs = b := by
  have hle := h.le_offset
  have hlen := h.length_bytes
  have hsplit : stream r.mSock.segs = h.bytes.take 9 ++ (h.bytes.drop 9 ++ b) := by
    rw [← List.append_assoc, List.take_append_drop, hs]
  obtain ⟨c₁, hall₁, hc₁⟩ := recvAll_eq (by decide) (by decide) (take_header h) hsplit
  have hrest : (h.bytes.drop 9).length = h.offset + 4 - 9 := by rw [List.length_drop, hlen]
  obtain ⟨c₂, hall₂, hc₂⟩ := recvAll_eq (r := { r with mSock := c₁ }) (by omega) (by omega) hrest
    hc₁
  refine ⟨c₂, ?_, hc₂⟩
  rw [readHeader, bind_ok hall₁, ofBE_header, bind_ok (int_of_lt h.offset_lt),
    bind_ok (int_of_lt hlt), bind_ok (assert_of (by omega)), bind_ok hall₂]
  have hheader : r.mRealHeader ++ h.bytes.take 9 ++ h.bytes.drop 9 = h.bytes := by
    rw [hnil, List.nil_append, List.take_append_drop]
  exact congrArg (fun l => Except.ok ((), { r with mSock := c₂, mRealHeader := l })) hheader

/-- Otherwise its size overflows. -/
theorem readHeader_overflow (hge : 2 ^ 31 ≤ h.offset + 4)
    (hs : stream r.mSock.segs = h.bytes ++ b) : readHeader r = .error .undefined := by
  have hsplit : stream r.mSock.segs = h.bytes.take 9 ++ (h.bytes.drop 9 ++ b) := by
    rw [← List.append_assoc, List.take_append_drop, hs]
  obtain ⟨c₁, hall₁, hc₁⟩ := recvAll_eq (by decide) (by decide) (take_header h) hsplit
  rw [readHeader, bind_ok hall₁, ofBE_header, bind_ok (int_of_lt h.offset_lt), int,
    if_neg (by omega)]
  rfl

/-! ## Tags -/

theorem Tag.length_header (t : Tag) : t.header.length = 11 := by
  simp [Tag.header, t.length_info]

theorem Tag.ofBE_header (t : Tag) : ofBE ((t.header.drop 1).take 3) = t.body.length := by
  have htake : (t.header.drop 1).take 3 = be 3 t.body.length :=
    List.take_left' (length_be 3 _)
  rw [htake, ofBE_be t.length_body]

theorem Tag.length_data (t : Tag) : t.data.length = t.body.length + 4 := by
  rw [Tag.data, List.length_append, t.length_previousTagSize]

theorem readTag_eq (hs : stream r.mSock.segs = t.bytes ++ b) :
    ∃ c count, readTag r = .ok (t.bytes, { r with mSock := c, mBrokenCount := count }) ∧
      stream c.segs = b := by
  have hlt := t.length_body
  rw [Tag.bytes, List.append_assoc] at hs
  obtain ⟨c₁, hall₁, hc₁⟩ := recvAll_eq (by decide) (by decide) t.length_header hs
  obtain ⟨c₂, hall₂, hc₂⟩ := recvAll_eq (r := { r with mSock := c₁ }) (by omega) (by omega)
    t.length_data hc₁
  refine ⟨c₂, ?_⟩
  rw [readTag, bind_ok hall₁, bind_ok (assert_of t.length_header), t.ofBE_header,
    bind_ok (int_of_lt (by omega)), bind_ok (int_of_lt (by omega)), bind_ok hall₂]
  split
  next =>
    exact ⟨r.mBrokenCount, bind_ok (assert_of t.length_data), hc₂⟩
  next =>
    refine ⟨r.mBrokenCount + 1, ?_, hc₂⟩
    rw [bind_ok (increaseBrokenCount_eq _)]
    exact bind_ok (assert_of t.length_data)

/-! ## Calls -/

theorem getData_of_nil (hnil : r.mRealHeader = []) (hr : readHeader r = .ok ((), r')) :
    getData r = readTag r' := by
  rw [getData, bind_ok (get_eq r), if_pos hnil, bind_ok hr]

theorem getData_of_error (hnil : r.mRealHeader = []) (hr : readHeader r = .error e) :
    getData r = .error e := by
  rw [getData, bind_ok (get_eq r), if_pos hnil, bind_error hr]

theorem getData_of_ne (hne : r.mRealHeader ≠ []) : getData r = readTag r := by
  rw [getData, bind_ok (get_eq r), if_neg hne]

/-- With the header saved, each call reads a tag. -/
theorem getPortions_eq (hne : r.mRealHeader ≠ [])
    (hs : stream r.mSock.segs = tags.flatMap Tag.bytes ++ b) :
    ∃ c count, getPortions tags.length r =
      .ok (tags.map Tag.bytes, { r with mSock := c, mBrokenCount := count }) ∧
      stream c.segs = b := by
  induction tags generalizing r with
  | nil => exact ⟨r.mSock, r.mBrokenCount, rfl, hs⟩
  | cons t tags ih =>
    rw [List.flatMap_cons, List.append_assoc] at hs
    obtain ⟨c₁, count₁, htag, hc₁⟩ := readTag_eq hs
    obtain ⟨c₂, count₂, hrest, hc₂⟩ := ih (r := { r with mSock := c₁, mBrokenCount := count₁ }) hne
      hc₁
    refine ⟨c₂, count₂, ?_, hc₂⟩
    rw [List.length_cons, getPortions, bind_ok ((getData_of_ne hne).trans htag), bind_ok hrest]
    rfl

/-- The calls up to some tag, from the beginning of the stream. -/
theorem framed_of_lt (hlt : h.offset + 4 < 2 ^ 31)
    (hs : stream c.segs = h.bytes ++ tags.flatMap Tag.bytes) : Framed h tags c := by
  intro k hk
  cases k with
  | zero => exact ⟨{ mSock := c }, rfl, rfl, rfl⟩
  | succ k =>
    cases tags with
    | nil => cases hk
    | cons t tags =>
      have hne : h.bytes ≠ [] := by
        rw [← List.length_pos_iff, h.length_bytes]
        omega
      obtain ⟨c₁, hheader, hc₁⟩ := readHeader_eq (r := { mSock := c }) hlt rfl hs
      rw [List.flatMap_cons] at hc₁
      obtain ⟨c₂, count₂, htag, hc₂⟩ := readTag_eq (r := ⟨c₁, h.bytes, 0⟩) hc₁
      have hk' : (tags.take k).length = k := List.length_take_of_le (Nat.le_of_succ_le_succ hk)
      have hsplit : tags.flatMap Tag.bytes =
          (tags.take k).flatMap Tag.bytes ++ (tags.drop k).flatMap Tag.bytes := by
        rw [← List.flatMap_append, List.take_append_drop]
      rw [hsplit] at hc₂
      obtain ⟨c₃, count₃, hrest, hc₃⟩ := getPortions_eq (r := ⟨c₂, h.bytes, count₂⟩) hne hc₂
      rw [hk'] at hrest
      refine ⟨⟨c₃, h.bytes, count₃⟩, ?_, rfl, ?_⟩
      · rw [getPortions, bind_ok ((getData_of_nil rfl hheader).trans htag), bind_ok hrest]
        rfl
      · rw [hs, hc₃, List.take_succ_cons, List.flatMap_cons, List.flatMap_cons, hsplit]
        simp only [List.append_assoc]

theorem not_framed_of_ge (hge : 2 ^ 31 ≤ h.offset + 4) (hne : tags ≠ [])
    (hs : stream c.segs = h.bytes ++ tags.flatMap Tag.bytes) : ¬Framed h tags c := by
  intro hframed
  obtain ⟨r, hcall, -⟩ := hframed 1 (List.length_pos_iff.2 hne)
  have hover := readHeader_overflow (r := { mSock := c }) hge hs
  rw [getPortions, bind_error (getData_of_error rfl hover)] at hcall
  cases hcall

/-- The tags are told apart exactly when the header's size is one for an `int`, or there are
none. -/
theorem framed_iff (hs : stream c.segs = h.bytes ++ tags.flatMap Tag.bytes) :
    Framed h tags c ↔ h.offset + 4 < 2 ^ 31 ∨ tags = [] := by
  constructor
  · intro hframed
    by_contra hnot
    rw [not_or] at hnot
    exact not_framed_of_ge (Nat.not_lt.1 hnot.1) hnot.2 hs hframed
  · rintro (hlt | rfl)
    · exact framed_of_lt hlt hs
    · intro k hk
      obtain rfl := Nat.le_zero.1 hk
      exact ⟨{ mSock := c }, rfl, rfl, rfl⟩

/-- A header and two tags, the second of no known type, cut into pieces of all sizes. -/
theorem framed_two_tags :
    Framed (.ofOffset 9 (by decide) (by decide))
      [⟨18, [0, 0, 0, 0, 0, 0, 0], rfl, [2, 0], by decide, [0, 0, 0, 13], rfl⟩,
        ⟨7, [0, 0, 1, 0, 0, 0, 0], rfl, [], by decide, [0, 0, 0, 11], rfl⟩]
      ⟨[⟨[0x46, 0x4C, 0x56, 1, 5, 0, 0], nofun, by decide⟩,
        ⟨[0, 9, 0, 0, 0, 0, 18, 0, 0], nofun, by decide⟩,
        ⟨[2, 0, 0, 0, 0, 0, 0, 0, 2], nofun, by decide⟩,
        ⟨[0, 0, 0, 0, 13, 7, 0, 0, 0, 0, 0, 1, 0, 0, 0, 0, 0, 0, 0, 11], nofun, by decide⟩],
        true⟩ :=
  (framed_iff (by decide)).2 (.inl (by decide))

/-- The greatest offset but three: the size of the header is not an `int`. -/
theorem not_framed_overflow :
    ¬∀ (h : Header) (tags : List Tag) (c : Connection),
      stream c.segs = h.bytes ++ tags.flatMap Tag.bytes → Framed h tags c := by
  intro hall
  obtain ⟨h, hoffset⟩ : ∃ h : Header, h.offset = 2 ^ 31 - 4 :=
    ⟨.ofOffset (2 ^ 31 - 4) (by decide) (by decide), rfl⟩
  let t : Tag := ⟨18, [0, 0, 0, 0, 0, 0, 0], rfl, [2, 0], by decide, [0, 0, 0, 13], rfl⟩
  obtain ⟨segs, hs⟩ := exists_stream_eq (h.bytes ++ [t].flatMap Tag.bytes)
  exact not_framed_of_ge (by omega) (List.cons_ne_nil t []) hs (hall h [t] ⟨segs, false⟩ hs)

end Kalinka.Flv
