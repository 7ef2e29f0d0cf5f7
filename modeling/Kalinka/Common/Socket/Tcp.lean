import Kalinka.Common.Snmp.Protocol

/-!
# Portions out of a TCP stream

`Socket::recvAll` over a `TCPSocket`: it asks for the bytes that are missing until there are none,
and throws when the stream ends before that.

`exact_recvAll_iff` says for which sizes and segmentations it returns exactly the first bytes of
the stream and leaves the others: those where `recv` sees in time that it has not filled the buffer.
Below 2 GiB that is always so.
-/

namespace Kalinka.Tcp

open Snmp (Segment stream)
open Utils (toInt toInt_of_lt toInt_neg)

/-- What the peer has sent, as the socket will give it, and whether the stream ends behind that. -/
structure Connection where
  segs : List Segment
  closed : Bool

/-- The end of a call, if it has one. -/
inductive Received
  | returns (data : List UInt8) (rest : Connection)
  | throws
  | waits

/-- The end of a call that had the data before. -/
def Received.prepend (data : List UInt8) : Received → Received
  | returns tmp rest => returns (data ++ tmp) rest
  | throws => throws
  | waits => waits

/-! ## The code -/

/-- `TCPSocket::recv` into a buffer of `n` bytes. -/
def recv (n : ℕ) (c : Connection) : Received :=
  -- `BOOST_ASSERT(data.empty() == false)`
  if n = 0 then .throws
  else
    match Snmp.recv n c.segs with
    | none => if c.closed then .throws else .waits
    | some (data, segs) => .returns data { c with segs := segs }

/-- The loop of `Socket::recvAll`.  `checkData` says that there is something as soon as there are
bytes, or the stream has ended. -/
def recvLoop (requiredSize : ℕ) (data : List UInt8) (c : Connection) : Received :=
  if data.length = requiredSize then .returns data c
  -- `BOOST_ASSERT(data.size() < required_size)`
  else if requiredSize < data.length then .throws
  else
    match recv (requiredSize - data.length) c with
    | .returns tmp rest =>
      -- `BOOST_ASSERT(tmp.empty() == false)`
      if tmp = [] then .throws else recvLoop requiredSize (data ++ tmp) rest
    | r => r
termination_by requiredSize - data.length
decreasing_by
  next htmp =>
    have hpos := List.length_pos_iff.2 htmp
    rw [List.length_append]
    omega

/-- `Socket::recvAll` for a buffer of `requiredSize` bytes. -/
def recvAll (requiredSize : ℕ) (c : Connection) : Received :=
  match recv requiredSize c with
  | .returns data rest => recvLoop requiredSize data rest
  | r => r

/-! ## What is asked for -/

/-- The first `n` bytes are returned and the others are left; when the stream ends before, the call
throws, and when it does not go on, the call waits. -/
def Exact (n : ℕ) (c : Connection) : Prop :=
  if n ≤ (stream c.segs).length then
    ∃ rest, recvAll n c = .returns ((stream c.segs).take n) rest ∧
      stream rest.segs = (stream c.segs).drop n ∧ rest.closed = c.closed
  else recvAll n c = if c.closed then .throws else .waits

/-- Each `recv` finds all bytes that are missing, or fewer than their number taken as an `int`. -/
def CountsOk : ℕ → List Segment → Prop
  | _, [] => True
  | n, seg :: segs => n ≤ seg.bytes.length ∨
      (seg.bytes.length : ℤ) < toInt n ∧ CountsOk (n - seg.bytes.length) segs

variable {n k requiredSize : ℕ} {seg : Segment} {segs segs' : List Segment} {b : Bool}
variable {c rest : Connection} {data tmp : List UInt8}

/-- Every stream has a segmentation. -/
theorem exists_stream_eq (l : List UInt8) : ∃ segs, stream segs = l := by
  induction l with
  | nil => exact ⟨[], rfl⟩
  | cons x l ih =>
    obtain ⟨segs, hsegs⟩ := ih
    have hle : [x].length ≤ Snmp.maxRwCount := Nat.one_le_of_lt (by decide : 0 < Snmp.maxRwCount)
    refine ⟨⟨[x], List.cons_ne_nil x [], hle⟩ :: segs, ?_⟩
    rw [Snmp.stream_cons, hsegs]
    rfl

/-- Below 2 GiB every segmentation is good. -/
theorem countsOk_of_lt (h : n < 2 ^ 31) : CountsOk n segs := by
  induction segs generalizing n with
  | nil => trivial
  | cons seg segs ih =>
    by_cases hle : n ≤ seg.bytes.length
    · exact .inl hle
    · refine .inr ⟨?_, ih (by omega)⟩
      rw [toInt_of_lt h]
      omega

theorem prepend_append {r : Received} : r.prepend (data ++ tmp) = (r.prepend tmp).prepend data := by
  cases r with
  | returns rest c => exact congrArg (Received.returns · c) (List.append_assoc ..)
  | throws => rfl
  | waits => rfl

theorem prepend_eq_returns_iff {r : Received} {all : List UInt8} :
    r.prepend data = .returns all rest ↔ ∃ tmp, r = .returns tmp rest ∧ data ++ tmp = all := by
  cases r <;> simp [Received.prepend, and_comm]

theorem prepend_eq_end_iff {r : Received} : r.prepend data = (if b then .throws else .waits) ↔
    r = if b then .throws else .waits := by
  cases r <;> cases b <;> simp [Received.prepend]

/-! ## One `recv` -/

theorem recv_nil (hn : 0 < n) (b : Bool) :
    recv n ⟨[], b⟩ = if b then .throws else .waits := if_neg (by omega)

theorem recv_cons_of_le (hn : 0 < n) (hle : n ≤ seg.bytes.length) :
    recv n ⟨seg :: segs, b⟩ = .returns (seg.bytes.take n) ⟨seg.dropInto n segs, b⟩ := by
  rw [recv, if_neg (by omega), Snmp.recv_of_le (by omega) hle]

theorem snmpRecv_of_gt (hgt : seg.bytes.length < n) : Snmp.recv n (seg :: segs) =
    some (seg.bytes ++ if (seg.bytes.length : ℤ) < toInt n then []
      else List.replicate (n - seg.bytes.length) 0, segs) := by
  have hdrop : seg.dropInto n segs = segs := dif_pos (List.drop_of_length_le (by omega))
  rw [Snmp.recv_cons (by omega), hdrop, Nat.min_eq_right (by omega),
    List.take_of_length_le (by omega)]

/-- The buffer is cut to what has come. -/
theorem recv_cons_of_cut (hgt : seg.bytes.length < n) (hcut : (seg.bytes.length : ℤ) < toInt n) :
    recv n ⟨seg :: segs, b⟩ = .returns seg.bytes ⟨segs, b⟩ := by
  rw [recv, if_neg (by omega), snmpRecv_of_gt hgt, if_pos hcut, List.append_nil]

/-- The buffer keeps its size, and its end the zeros that it has been made of. -/
theorem recv_cons_of_not_cut (hgt : seg.bytes.length < n)
    (hcut : ¬(seg.bytes.length : ℤ) < toInt n) :
    recv n ⟨seg :: segs, b⟩ =
      .returns (seg.bytes ++ List.replicate (n - seg.bytes.length) 0) ⟨segs, b⟩ := by
  rw [recv, if_neg (by omega), snmpRecv_of_gt hgt, if_neg hcut]

theorem of_recv_eq_returns (h : recv n c = .returns data rest) : 0 < n ∧ 0 < data.length := by
  unfold recv at h
  split at h
  · cases h
  · split at h
    · split at h <;> cases h
    next hrecv =>
      cases h
      exact Snmp.length_pos_of_recv hrecv

/-! ## The loop -/

theorem recvLoop_full (h : data.length = requiredSize) :
    recvLoop requiredSize data c = .returns data c := by
  rw [recvLoop, if_pos h]

theorem recvLoop_of_lt (h : data.length < requiredSize) : recvLoop requiredSize data c =
    match recv (requiredSize - data.length) c with
    | .returns tmp rest => recvLoop requiredSize (data ++ tmp) rest
    | r => r := by
  rw [recvLoop, if_neg (by omega), if_neg (by omega)]
  split
  next hrecv =>
    rw [if_neg (List.length_pos_iff.1 (of_recv_eq_returns hrecv).2)]
  · rfl

theorem length_le_of_recv (h : recv n c = .returns data rest) : data.length ≤ n := by
  obtain ⟨segs, b⟩ := c
  have hn := (of_recv_eq_returns h).1
  cases segs with
  | nil =>
    rw [recv_nil hn] at h
    cases b <;> cases h
  | cons seg segs =>
    by_cases hle : n ≤ seg.bytes.length
    · rw [recv_cons_of_le hn hle] at h
      cases h
      exact List.length_take_le _ _
    by_cases hcut : (seg.bytes.length : ℤ) < toInt n
    · rw [recv_cons_of_cut (by omega) hcut] at h
      cases h
      omega
    · rw [recv_cons_of_not_cut (by omega) hcut] at h
      cases h
      rw [List.length_append, List.length_replicate]
      omega

/-- The loop is a `recvAll` of what is missing. -/
theorem recvLoop_eq_prepend (h : data.length < requiredSize) :
    recvLoop requiredSize data c = (recvAll (requiredSize - data.length) c).prepend data := by
  induction hk : requiredSize - data.length using Nat.strongRecOn
    generalizing requiredSize data c with
  | _ k ih =>
    rw [recvLoop_of_lt h, hk, recvAll]
    cases hrecv : recv k c with
    | throws => rfl
    | waits => rfl
    | returns tmp rest =>
      dsimp only
      have hpos := (of_recv_eq_returns hrecv).2
      have hle := length_le_of_recv hrecv
      have happ : (data ++ tmp).length = data.length + tmp.length := List.length_append
      rcases Nat.eq_or_lt_of_le hle with heq | hlt
      · rw [recvLoop_full (by omega), recvLoop_full heq]
        rfl
      · have houter : recvLoop requiredSize (data ++ tmp) rest =
            (recvAll (k - tmp.length) rest).prepend (data ++ tmp) :=
          ih (k - tmp.length) (by omega) (by omega) (by omega)
        rw [houter, ih (k - tmp.length) (by omega) hlt rfl, prepend_append]

theorem recvAll_nil (hn : 0 < n) : recvAll n ⟨[], b⟩ = if b then .throws else .waits := by
  rw [recvAll, recv_nil hn]
  cases b <;> rfl

theorem recvAll_of_le (hn : 0 < n) (hle : n ≤ seg.bytes.length) :
    recvAll n ⟨seg :: segs, b⟩ = .returns (seg.bytes.take n) ⟨seg.dropInto n segs, b⟩ := by
  rw [recvAll, recv_cons_of_le hn hle]
  exact recvLoop_full (List.length_take_of_le hle)

theorem recvAll_of_cut (hgt : seg.bytes.length < n) (hcut : (seg.bytes.length : ℤ) < toInt n) :
    recvAll n ⟨seg :: segs, b⟩ =
      (recvAll (n - seg.bytes.length) ⟨segs, b⟩).prepend seg.bytes := by
  rw [recvAll, recv_cons_of_cut hgt hcut]
  exact recvLoop_eq_prepend hgt

theorem recvAll_of_not_cut (hgt : seg.bytes.length < n)
    (hcut : ¬(seg.bytes.length : ℤ) < toInt n) : recvAll n ⟨seg :: segs, b⟩ =
      .returns (seg.bytes ++ List.replicate (n - seg.bytes.length) 0) ⟨segs, b⟩ := by
  rw [recvAll, recv_cons_of_not_cut hgt hcut]
  refine recvLoop_full ?_
  rw [List.length_append, List.length_replicate]
  omega

/-- The receiver of the SNMP protocol is this one, without the ends that are not a return. -/
theorem snmpRecvAll_eq_some_iff (hn : 0 < n) : Snmp.recvAll n segs = some (data, segs') ↔
    recvAll n ⟨segs, b⟩ = .returns data ⟨segs', b⟩ := by
  induction segs generalizing n data with
  | nil =>
    rw [recvAll_nil hn, Snmp.recvAll]
    constructor
    · intro h
      cases h
    · intro h
      cases b <;> cases h
  | cons seg segs ih =>
    by_cases hle : n ≤ seg.bytes.length
    · have hall : Snmp.recvAll n (seg :: segs) = some (seg.bytes.take n, seg.dropInto n segs) :=
        Snmp.recvAll_eq_of_length (Snmp.recv_of_le (by omega) hle) (List.length_take_of_le hle)
      rw [hall, recvAll_of_le hn hle]
      simp
    have hrecv : Snmp.recv n (seg :: segs) = _ := snmpRecv_of_gt (Nat.lt_of_not_le hle)
    by_cases hcut : (seg.bytes.length : ℤ) < toInt n
    · rw [if_pos hcut, List.append_nil] at hrecv
      rw [Snmp.recvAll_eq_of_ne hrecv (by omega), recvAll_of_cut (by omega) hcut]
      rw [Option.map_eq_some_iff, prepend_eq_returns_iff]
      constructor
      · rintro ⟨⟨tmp, segs⟩, htmp, heq⟩
        cases heq
        exact ⟨tmp, (ih (by omega)).1 htmp, rfl⟩
      · rintro ⟨tmp, htmp, rfl⟩
        exact ⟨(tmp, segs'), (ih (by omega)).2 htmp, rfl⟩
    · rw [if_neg hcut] at hrecv
      have hall := Snmp.recvAll_eq_of_length hrecv <| by
        rw [List.length_append, List.length_replicate]
        omega
      rw [hall, recvAll_of_not_cut (by omega) hcut]
      simp

/-- A reader that asks for less than 2 GiB gets what is there, however the stream is cut. -/
theorem recvAll_of_lt {a l : List UInt8} (hn : 0 < n) (hlt : n < 2 ^ 31) (ha : a.length = n)
    (h : stream c.segs = a ++ l) :
    ∃ segs, recvAll n c = .returns a { c with segs := segs } ∧ stream segs = l := by
  obtain ⟨segs, hall, hstream⟩ := Snmp.recvAll_of_lt hn hlt ha h
  exact ⟨segs, (snmpRecvAll_eq_some_iff hn).1 hall, hstream⟩

/-! ## Exactly the first bytes -/

theorem exact_of_le (hn : 0 < n) (hle : n ≤ seg.bytes.length) : Exact n ⟨seg :: segs, b⟩ := by
  have hlen : n ≤ (stream (seg :: segs)).length := by
    rw [Snmp.stream_cons, List.length_append]
    omega
  rw [Exact, if_pos hlen]
  refine ⟨⟨seg.dropInto n segs, b⟩, ?_, ?_, rfl⟩
  · rw [recvAll_of_le hn hle, Snmp.stream_cons, List.take_append_of_le_length hle]
  · rw [Snmp.stream_dropInto, Snmp.stream_cons, List.drop_append_of_le_length hle]

theorem exact_iff_of_cut (hgt : seg.bytes.length < n) (hcut : (seg.bytes.length : ℤ) < toInt n) :
    Exact n ⟨seg :: segs, b⟩ ↔ Exact (n - seg.bytes.length) ⟨segs, b⟩ := by
  have hlen : n ≤ (stream (seg :: segs)).length ↔ n - seg.bytes.length ≤ (stream segs).length := by
    rw [Snmp.stream_cons, List.length_append]
    omega
  have htake : (stream (seg :: segs)).take n =
      seg.bytes ++ (stream segs).take (n - seg.bytes.length) := by
    rw [Snmp.stream_cons, List.take_append, List.take_of_length_le (by omega)]
  have hdrop : (stream (seg :: segs)).drop n = (stream segs).drop (n - seg.bytes.length) := by
    rw [Snmp.stream_cons, List.drop_append, List.drop_of_length_le (by omega), List.nil_append]
  rw [Exact, Exact, recvAll_of_cut hgt hcut]
  by_cases h : n ≤ (stream (seg :: segs)).length
  · rw [if_pos h, if_pos (hlen.1 h), htake, hdrop]
    refine exists_congr fun rest => and_congr_left fun _ => prepend_eq_returns_iff.trans ?_
    simp only [List.append_cancel_left_eq, exists_eq_right]
  · rw [if_neg h, if_neg (mt hlen.2 h)]
    exact prepend_eq_end_iff

/-- What has been taken for bytes of the stream, and is not, is missing behind it. -/
theorem not_exact_of_not_cut (hgt : seg.bytes.length < n)
    (hcut : ¬(seg.bytes.length : ℤ) < toInt n) : ¬Exact n ⟨seg :: segs, b⟩ := by
  intro h
  have hall : recvAll n ⟨seg :: segs, b⟩ = _ := recvAll_of_not_cut hgt hcut
  rw [Exact, hall] at h
  split at h
  next hlen =>
    obtain ⟨rest, hret, hrest, -⟩ := h
    obtain ⟨-, rfl⟩ := Received.returns.inj hret
    have hdrop : (stream segs).length = _ := congrArg List.length hrest
    rw [List.length_drop, Snmp.stream_cons, List.length_append] at hdrop
    rw [Snmp.stream_cons, List.length_append] at hlen
    omega
  · cases b <;> cases h

/-- `recvAll` is right exactly when each `recv` sees whether it has filled the buffer. -/
theorem exact_recvAll_iff (hn : 0 < n) : Exact n c ↔ CountsOk n c.segs := by
  obtain ⟨segs, b⟩ := c
  induction segs generalizing n with
  | nil =>
    refine iff_of_true ?_ trivial
    rw [Exact, if_neg (by simp; omega)]
    exact recvAll_nil hn
  | cons seg segs ih =>
    by_cases hle : n ≤ seg.bytes.length
    · exact iff_of_true (exact_of_le hn hle) (.inl hle)
    by_cases hcut : (seg.bytes.length : ℤ) < toInt n
    · rw [exact_iff_of_cut (by omega) hcut, ih (by omega)]
      exact ⟨fun h => .inr ⟨hcut, h⟩, fun h => (h.resolve_left hle).2⟩
    · exact iff_of_false (not_exact_of_not_cut (by omega) hcut)
        fun h => hcut (h.resolve_left hle).1

/-- Three segments for five bytes: the last one is cut. -/
theorem exact_recvAll_five :
    Exact 5 ⟨[⟨[1, 2], nofun, by decide⟩, ⟨[3], nofun, by decide⟩,
      ⟨[4, 5, 6], nofun, by decide⟩], false⟩ :=
  (exact_recvAll_iff (by decide)).2 (countsOk_of_lt (by decide))

/-- A peer that closes after one byte of 2 GiB: `recvAll` returns 2 GiB of it and zeros. -/
theorem not_exact_twoGiB :
    ¬∀ (n : ℕ) (c : Connection), 0 < n → Exact n c := by
  intro h
  let seg : Segment := ⟨[7], nofun, by decide⟩
  have hneg := toInt_neg (Nat.le_refl (2 ^ 31)) (by decide)
  have hgt : seg.bytes.length < 2 ^ 31 := by decide
  exact not_exact_of_not_cut hgt (by omega) (h (2 ^ 31) ⟨[seg], true⟩ (by decide))

end Kalinka.Tcp
