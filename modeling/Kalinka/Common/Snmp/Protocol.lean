import Mathlib.Data.Int.Notation
import Mathlib.Data.List.TakeWhile
import Mathlib.Tactic.ByContra
import Kalinka.Common.Snmp.Table
import Kalinka.Common.Utils

/-!
# The SNMP protocol

The daemon and the agent send each other scalars and tables over a stream socket: a header with the
type and the size, then the serialization.  The receiver reads the header and then as many bytes as
that says, however the socket cuts the stream.

`delivers_iff` says exactly which messages come through, each with its own bytes and no others.
-/

namespace Kalinka.Snmp

open Wire
open Utils (toInt toInt_of_lt toInt_neg)

/-! ## Values -/

inductive ValueType
  | undefined
  | scalar
  | table
  deriving DecidableEq, Repr

def ValueType.toNat : ValueType → ℕ
  | .undefined => 0
  | .scalar => 1
  | .table => 2

inductive IData
  | scalar (value : StringWrapper)
  | table (t : Table)
  deriving DecidableEq

namespace IData

def getType : IData → ValueType
  | .scalar _ => .scalar
  | .table _ => .table

/-- `serialize`: `toString` of a scalar throws for a null. -/
def serialize : IData → Option (List UInt8)
  | .scalar value => value
  | .table t => t.serialize

/-- The switch of `recvData`; `BinaryData::toString` makes a C string of the bytes. -/
def deserialize (type : ℕ) (data : List UInt8) : Option IData :=
  if type = ValueType.scalar.toNat then some (.scalar (some (data.takeWhile (· ≠ 0))))
  else if type = ValueType.table.toNat then
    match Table.deserialize data with
    | .ok t => some (.table t)
    | _ => none
  else none

end IData

/-! ## Sending -/

/-- What one `send` or `recv` of the system can transfer. -/
def maxRwCount : ℕ := 0x7ffff000

/-- `chunk_size` in `Socket::send`: `getsockopt` writes `SO_SNDBUF`, an `int`, over the low half of
the data size. -/
def chunkSize (sndbuf size : ℕ) : ℕ := size / UInt32.size * UInt32.size + sndbuf

/-- `Socket::send`: `none` when it throws, a chunk being too large for one `send`. -/
def send (sndbuf : ℕ) (data : List UInt8) : Option (List UInt8) :=
  if min data.length (chunkSize sndbuf data.length) ≤ maxRwCount then some data else none

/-- `ProtocolHeader`: the type, four bytes of padding, and the size, a `size_t`. -/
def header (type : ValueType) (size : ℕ) : List UInt8 :=
  le 4 type.toNat ++ (le 4 0 ++ le 8 size)

/-- `Protocol::sendData`, by the bytes that it gives to the socket. -/
def sendData (sndbuf : ℕ) (msg : IData) : Option (List UInt8) := do
  let data ← msg.serialize
  let head ← send sndbuf (header msg.getType data.length)
  let body ← send sndbuf data
  return head ++ body

def sendAll (sndbuf : ℕ) : List IData → Option (List UInt8)
  | [] => some []
  | msg :: msgs => do
    let bytes ← sendData sndbuf msg
    let rest ← sendAll sndbuf msgs
    return bytes ++ rest

/-! ## Receiving -/

/-- What one `recv` of the system finds. -/
structure Segment where
  bytes : List UInt8
  ne_nil : bytes ≠ []
  length_le : bytes.length ≤ maxRwCount

/-- The stream that a segmentation is of. -/
def stream (segs : List Segment) : List UInt8 := segs.flatMap Segment.bytes

/-- What a `recv` of `n` bytes leaves of the first segment. -/
def Segment.dropInto (seg : Segment) (n : ℕ) (segs : List Segment) : List Segment :=
  if h : seg.bytes.drop n = [] then segs
  else ⟨seg.bytes.drop n, h, Nat.le_trans (by simp) seg.length_le⟩ :: segs

/-- `TCPSocket::recv` into a buffer of `n` bytes: `none` when `BOOST_ASSERT` throws, the buffer
being empty, or when it waits for more.  The buffer is cut only if the count is below its size,
taken as an `int`. -/
def recv (n : ℕ) : List Segment → Option (List UInt8 × List Segment)
  | [] => none
  | seg :: segs =>
    if n = 0 then none
    else
      let count := min n seg.bytes.length
      let data := if (count : ℤ) < toInt n then [] else List.replicate (n - count) 0
      some (seg.bytes.take n ++ data, seg.dropInto n segs)

theorem length_pos_of_recv {n : ℕ} {segs segs' : List Segment} {data : List UInt8}
    (h : recv n segs = some (data, segs')) : 0 < n ∧ 0 < data.length := by
  cases segs with
  | nil => cases h
  | cons seg segs =>
    rw [recv] at h
    split at h
    · cases h
    next hn =>
      cases h
      have hseg := List.length_pos_iff.2 seg.ne_nil
      rw [List.length_append, List.length_take]
      omega

/-- `Socket::recvAll` for a buffer of `n` bytes. -/
def recvAll (n : ℕ) (segs : List Segment) : Option (List UInt8 × List Segment) :=
  match _h : recv n segs with
  | none => none
  | some (data, segs') =>
    if data.length = n then some (data, segs')
    else (recvAll (n - data.length) segs').map fun p => (data ++ p.1, p.2)
termination_by n
decreasing_by
  have := length_pos_of_recv _h
  omega

/-- `Protocol::recvData`: the value, and what is left of the stream. -/
def recvData (segs : List Segment) : Option (IData × List Segment) := do
  let (head, segs) ← recvAll 16 segs
  let size := ofLE (head.drop 8)
  if size = 0 then none
  else
    let (data, segs) ← recvAll size segs
    (IData.deserialize (ofLE (head.take 4)) data).map (·, segs)

variable {n : ℕ} {a b data : List UInt8} {seg : Segment} {segs segs' : List Segment}
variable {msg msg' : IData} {msgs : List IData} {sndbuf : ℕ}

/-! ## The receive loop -/

@[simp] theorem stream_nil : stream [] = [] := rfl

@[simp] theorem stream_cons : stream (seg :: segs) = seg.bytes ++ stream segs := List.flatMap_cons

theorem stream_dropInto : stream (seg.dropInto n segs) = seg.bytes.drop n ++ stream segs := by
  unfold Segment.dropInto
  split
  next h => rw [h, List.nil_append]
  next => exact stream_cons

theorem stream_eq_nil_iff : stream segs = [] ↔ segs = [] := by
  cases segs with
  | nil => exact iff_of_true rfl rfl
  | cons seg segs => simp [seg.ne_nil]

theorem recv_cons (hn : n ≠ 0) : recv n (seg :: segs) =
    some (seg.bytes.take n ++ (if ((min n seg.bytes.length : ℕ) : ℤ) < toInt n then []
      else List.replicate (n - min n seg.bytes.length) 0), seg.dropInto n segs) := if_neg hn

/-- The segment has all bytes that are asked for. -/
theorem recv_of_le (hn : n ≠ 0) (hle : n ≤ seg.bytes.length) :
    recv n (seg :: segs) = some (seg.bytes.take n, seg.dropInto n segs) := by
  rw [recv_cons hn, Nat.min_eq_left hle, Nat.sub_self, List.replicate_zero, ite_self,
    List.append_nil]

/-- The segment is used up. -/
theorem recv_of_gt (hlt : n < 2 ^ 31) (hgt : seg.bytes.length < n) :
    recv n (seg :: segs) = some (seg.bytes, segs) := by
  have hcut : ((min n seg.bytes.length : ℕ) : ℤ) < toInt n := by
    rw [toInt_of_lt hlt]
    omega
  have hdrop : seg.dropInto n segs = segs := dif_pos (List.drop_of_length_le (by omega))
  rw [recv_cons (by omega), if_pos hcut, List.append_nil, hdrop,
    List.take_of_length_le (by omega)]

theorem recvAll_eq_of_length (h : recv n segs = some (data, segs')) (hlen : data.length = n) :
    recvAll n segs = some (data, segs') := by
  rw [recvAll]
  split
  next hrecv => cases h.symm.trans hrecv
  next hrecv =>
    cases h.symm.trans hrecv
    exact if_pos hlen

theorem recvAll_eq_of_ne (h : recv n segs = some (data, segs')) (hlen : data.length ≠ n) :
    recvAll n segs = (recvAll (n - data.length) segs').map fun p => (data ++ p.1, p.2) := by
  rw [recvAll]
  split
  next hrecv => cases h.symm.trans hrecv
  next hrecv =>
    cases h.symm.trans hrecv
    exact if_neg hlen

/-- Below 2 GiB exactly the bytes that are asked for are received, however the stream is cut. -/
theorem recvAll_of_lt (hn : 0 < n) (hlt : n < 2 ^ 31) (ha : a.length = n)
    (h : stream segs = a ++ b) : ∃ segs', recvAll n segs = some (a, segs') ∧ stream segs' = b := by
  induction n using Nat.strongRecOn generalizing segs a with
  | _ n ih =>
    cases segs with
    | nil =>
      have hnil := (List.append_eq_nil_iff.1 h.symm).1
      rw [hnil] at ha
      exact absurd ha (by simp; omega)
    | cons seg segs =>
      rw [stream_cons] at h
      have hseg : seg.bytes <+: a ++ b := ⟨stream segs, h⟩
      have hpos := List.length_pos_iff.2 seg.ne_nil
      by_cases hle : n ≤ seg.bytes.length
      · obtain ⟨c, hc⟩ := List.prefix_of_prefix_length_le (List.prefix_append a b) hseg
          (ha.trans_le hle)
        have hrecv : recv n (seg :: segs) = some (a, seg.dropInto n segs) := by
          rw [recv_of_le (by omega) hle, ← hc, List.take_left' ha]
        refine ⟨_, recvAll_eq_of_length hrecv ha, ?_⟩
        rw [stream_dropInto, ← hc, List.drop_left' ha]
        rw [← hc, List.append_assoc] at h
        exact List.append_cancel_left h
      · have hrecv : recv n (seg :: segs) = some (seg.bytes, segs) :=
          recv_of_gt hlt (Nat.lt_of_not_le hle)
        obtain ⟨c, hc⟩ := List.prefix_of_prefix_length_le hseg (List.prefix_append a b) (by omega)
        rw [← hc, List.append_assoc] at h
        have hlen : c.length = n - seg.bytes.length := by
          rw [← ha, ← hc, List.length_append]
          omega
        obtain ⟨segs', hall, hstream⟩ := ih (n - seg.bytes.length) (by omega) (by omega) (by omega)
          hlen (List.append_cancel_left h)
        refine ⟨segs', ?_, hstream⟩
        rw [recvAll_eq_of_ne hrecv (by omega), hall, ← hc]
        rfl

/-- From 2 GiB on the buffer is not cut, so the first `recv` ends the loop, and what it has not
transferred stays in the stream. -/
theorem not_recvAll_of_ge (hn : 2 ^ 31 ≤ n) (hlt : n < UInt32.size) (ha : a.length = n)
    (h : stream segs = a ++ b) : ¬∃ data segs', recvAll n segs = some (data, segs') ∧
      stream segs' = b := by
  rintro ⟨data, segs', hall, hstream⟩
  cases segs with
  | nil =>
    rw [recvAll] at hall
    cases hall
  | cons seg segs =>
    have hcut : ¬((min n seg.bytes.length : ℕ) : ℤ) < toInt n := by
      have := toInt_neg hn hlt
      omega
    have hrecv : recv n (seg :: segs) = _ := recv_cons (by omega)
    rw [if_neg hcut] at hrecv
    have hdone := recvAll_eq_of_length hrecv <| by
      rw [List.length_append, List.length_take, List.length_replicate]
      omega
    cases hdone.symm.trans hall
    have hseg : seg.bytes.length < n :=
      Nat.lt_of_le_of_lt seg.length_le (Nat.lt_of_lt_of_le (by decide) hn)
    rw [stream_dropInto, List.drop_of_length_le (by omega), List.nil_append] at hstream
    have hlen := congrArg List.length h
    rw [stream_cons, hstream, List.length_append, List.length_append] at hlen
    omega

/-! ## One message -/

theorem length_header (type : ValueType) : (header type n).length = 16 := by simp [header]

theorem ofLE_take_header (type : ValueType) : ofLE ((header type n).take 4) = type.toNat := by
  rw [header, List.take_left' (length_le 4 _), ofLE_le]
  cases type <;> decide

theorem ofLE_drop_header (type : ValueType) (h : n < UInt32.size) :
    ofLE ((header type n).drop 8) = n := by
  rw [header, ← List.append_assoc, List.drop_left' (by simp), ofLE_le]
  exact Nat.lt_trans h (by decide)

theorem of_send_eq_some (h : send sndbuf data = some a) : a = data ∧ data.length < UInt32.size := by
  rw [send, Option.ite_none_right_eq_some] at h
  obtain ⟨hmin, heq⟩ := h
  refine ⟨(Option.some.inj heq).symm, Nat.not_le.1 fun hge => ?_⟩
  have hchunk : UInt32.size ≤ chunkSize sndbuf data.length :=
    Nat.le_trans (Nat.le_mul_of_pos_left _ (Nat.div_pos hge (by decide))) (Nat.le_add_right ..)
  have hle : UInt32.size ≤ maxRwCount := Nat.le_trans (Nat.le_min.2 ⟨hge, hchunk⟩) hmin
  exact absurd hle (by decide)

theorem of_sendData_eq_some (h : sendData sndbuf msg = some a) :
    ∃ data, msg.serialize = some data ∧ data.length < UInt32.size ∧
      a = header msg.getType data.length ++ data := by
  simp only [sendData, Option.bind_eq_bind, Option.bind_eq_some_iff, Option.pure_def,
    Option.some.injEq] at h
  obtain ⟨data, hser, head, hhead, body, hbody, rfl⟩ := h
  obtain ⟨rfl, -⟩ := of_send_eq_some hhead
  obtain ⟨rfl, hlt⟩ := of_send_eq_some hbody
  exact ⟨body, hser, hlt, rfl⟩

/-- The header comes whole, and says how much is to be received. -/
theorem recvData_eq {type : ValueType} (hlt : n < UInt32.size)
    (h : stream segs = header type n ++ b) : ∃ segs', stream segs' = b ∧
      recvData segs = if n = 0 then none else
        (recvAll n segs').bind fun r => (IData.deserialize type.toNat r.1).map (·, r.2) := by
  obtain ⟨segs', hall, hstream⟩ := recvAll_of_lt (by decide) (by decide) (length_header type) h
  refine ⟨segs', hstream, ?_⟩
  simp only [recvData, hall, Option.bind_eq_bind, Option.bind_some, ofLE_drop_header type hlt,
    ofLE_take_header]

/-- No NUL cuts a value, and the number of columns tells the rows. -/
def IData.Plain : IData → Prop
  | .scalar value => ∀ str, value = some str → 0 ∉ str
  | .table t => ∀ row ∈ t.mData, row.cells ≠ [] ∧ row.Clean

/-- What comes through: a plain value with a serialization that is neither empty nor has 2 GiB. -/
def IData.Faithful (msg : IData) : Prop :=
  msg.Plain ∧ ∀ data, msg.serialize = some data → data ≠ [] ∧ data.length < 2 ^ 31

theorem takeWhile_eq_self_iff : a.takeWhile (· ≠ 0) = a ↔ 0 ∉ a := by
  rw [List.takeWhile_eq_self_iff]
  constructor
  · intro h hmem
    simpa using h 0 hmem
  · intro h x hx
    exact decide_eq_true fun hzero => h (hzero ▸ hx)

theorem deserialize_eq_some_iff (h : msg.serialize = some data) :
    IData.deserialize msg.getType.toNat data = some msg ↔ msg.Plain := by
  cases msg with
  | scalar value =>
    obtain rfl : value = some data := h
    have hdes : IData.deserialize (IData.scalar (some data)).getType.toNat data =
        some (.scalar (some (data.takeWhile (· ≠ 0)))) := rfl
    rw [hdes, Option.some.injEq, IData.scalar.injEq, Option.some.injEq, takeWhile_eq_self_iff]
    exact ⟨fun hzero str hstr => Option.some.inj hstr ▸ hzero, fun hplain => hplain data rfl⟩
  | table t =>
    have hdes : IData.deserialize (IData.table t).getType.toNat data =
        match Table.deserialize data with
        | .ok t => some (.table t)
        | _ => none := rfl
    rw [hdes]
    constructor
    · intro hok
      split at hok
      next t' ht' =>
        cases hok
        exact (Table.of_deserialize_eq_ok ht').1
      next => cases hok
    · intro hplain
      have hok := Table.deserialize_of_serialize (fun row hrow => (hplain row hrow).1)
        (fun row hrow => (hplain row hrow).2) h
      rw [hok]

/-- A message is received, with its own bytes and no others, if and only if it is faithful. -/
theorem recvData_iff (hsend : sendData sndbuf msg = some a) (h : stream segs = a ++ b) :
    (∃ segs', recvData segs = some (msg, segs') ∧ stream segs' = b) ↔ msg.Faithful := by
  obtain ⟨data, hser, hlt, rfl⟩ := of_sendData_eq_some hsend
  rw [List.append_assoc] at h
  obtain ⟨segs₁, hstream, hrecv⟩ := recvData_eq hlt h
  constructor
  · rintro ⟨segs', hmsg, hrest⟩
    rw [hrecv] at hmsg
    split at hmsg
    · cases hmsg
    next hne =>
      obtain ⟨⟨r, segs₂⟩, hall, hmap⟩ := Option.bind_eq_some_iff.1 hmsg
      obtain ⟨msg', hdes, heq⟩ := Option.map_eq_some_iff.1 hmap
      cases heq
      have hsize : data.length < 2 ^ 31 := by
        by_contra hge
        exact not_recvAll_of_ge (Nat.not_lt.1 hge) hlt rfl hstream ⟨r, segs₂, hall, hrest⟩
      obtain ⟨segs₃, hall', -⟩ := recvAll_of_lt (by omega) hsize rfl hstream
      cases hall.symm.trans hall'
      refine ⟨(deserialize_eq_some_iff hser).1 hdes, fun data' hdata' => ?_⟩
      cases hser.symm.trans hdata'
      exact ⟨List.length_pos_iff.1 (by omega), hsize⟩
  · rintro ⟨hplain, hall⟩
    obtain ⟨hne, hsize⟩ := hall data hser
    have hpos := List.length_pos_iff.2 hne
    obtain ⟨segs', hall', hrest⟩ := recvAll_of_lt hpos hsize rfl hstream
    refine ⟨segs', ?_, hrest⟩
    rw [hrecv, if_neg (by omega), hall', Option.bind_some, (deserialize_eq_some_iff hser).2 hplain]
    rfl

/-! ## A sequence of messages -/

/-- The messages are received as they have been sent, each with its own bytes, and nothing is left
of the stream. -/
def Delivers (sndbuf : ℕ) : List IData → List Segment → Prop
  | [], segs => segs = []
  | msg :: msgs, segs => ∃ segs', recvData segs = some (msg, segs') ∧
      sendAll sndbuf msgs = some (stream segs') ∧ Delivers sndbuf msgs segs'

/-- However the stream is cut, messages are delivered if and only if all of them are faithful. -/
theorem delivers_iff (hsend : sendAll sndbuf msgs = some (stream segs)) :
    Delivers sndbuf msgs segs ↔ ∀ msg ∈ msgs, msg.Faithful := by
  induction msgs generalizing segs with
  | nil =>
    have hnil : segs = [] := stream_eq_nil_iff.1 (Option.some.inj hsend).symm
    exact iff_of_true hnil (by simp)
  | cons msg msgs ih =>
    simp only [sendAll, Option.bind_eq_bind, Option.bind_eq_some_iff, Option.pure_def,
      Option.some.injEq] at hsend
    obtain ⟨a, ha, b, hb, hstream⟩ := hsend
    have hmsg := recvData_iff ha hstream.symm
    rw [List.forall_mem_cons, ← hmsg]
    constructor
    · rintro ⟨segs', hrecv, hall, hdel⟩
      have hb' : stream segs' = b := Option.some.inj (hall.symm.trans hb)
      exact ⟨⟨segs', hrecv, hb'⟩, (ih hall).1 hdel⟩
    · rintro ⟨⟨segs', hrecv, rfl⟩, hrest⟩
      exact ⟨segs', hrecv, hb, (ih hb).2 hrest⟩

/-- A scalar and an empty table, cut in the middle of the first header. -/
theorem delivers_scalar_table :
    Delivers 212992 [.scalar (some [65, 66]), .table {}]
      [⟨[1, 0, 0], nofun, by decide⟩,
        ⟨[0, 0, 0, 0, 0, 2, 0, 0, 0, 0, 0, 0, 0, 65, 66, 2, 0, 0, 0], nofun, by decide⟩,
        ⟨[0, 0, 0, 0, 8, 0, 0, 0, 0, 0, 0, 0, 0, 0, 0, 0, 0, 0, 0, 0], nofun, by decide⟩] := by
  refine (delivers_iff rfl).2 (List.forall_mem_cons.2 ⟨?_, List.forall_mem_singleton.2 ?_⟩)
  · refine ⟨fun str h => ?_, fun data h => ?_⟩ <;> cases h <;> decide
  · refine ⟨nofun, fun data h => ?_⟩
    cases h
    decide

/-- The receiver asserts that there is something behind the header; an empty scalar is nothing. -/
theorem emptyScalar_not_delivered :
    ∃ segs, sendAll 212992 [.scalar (some [])] = some (stream segs) ∧
      ¬Delivers 212992 [.scalar (some [])] segs := by
  refine ⟨[⟨header .scalar 0, nofun, by decide⟩], rfl, ?_⟩
  rintro ⟨segs', hrecv, -⟩
  have hstream : stream [⟨header .scalar 0, nofun, by decide⟩] = header .scalar 0 ++ [] :=
    stream_cons
  obtain ⟨_, -, heq⟩ := recvData_eq (n := 0) (by decide) hstream
  rw [if_pos rfl] at heq
  cases heq.symm.trans hrecv

end Kalinka.Snmp
