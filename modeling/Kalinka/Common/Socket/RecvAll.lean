import Mathlib.Algebra.BigOperators.Group.List.Basic
import Mathlib.Algebra.Ring.Nat
import Mathlib.Data.Int.Notation
import Mathlib.Data.List.Basic
import Mathlib.Data.Nat.Notation
import Kalinka.Common.Utils

/-!
# Portions out of datagrams

`Socket::recvAll` fills a buffer: it asks for the bytes that are missing until there are none.  A
`UDPListenSocket` gives one datagram at a time, and what is longer than the buffer is cut.

`lossless_iff` says for which datagrams and portions nothing is lost: those where every end of a
portion is the end of a datagram.
-/

namespace Kalinka.Sock

open Utils (toInt toInt_of_lt)

abbrev BinaryData := List UInt8

structure Datagram where
  payload : BinaryData
  nonempty : payload ≠ []

/-- The size of a buffer that a reader asks for; it fits an `int`. -/
structure PortionSize where
  size : ℕ
  pos : 0 < size
  lt : size < 2 ^ 31

/-! ## Receiving -/

/-- `UDPListenSocket::recv` with a buffer of the size: `recvfrom` writes as much of the datagram as
the buffer takes, and a buffer that is not full is cut to that. -/
def recv (size : ℕ) (d : Datagram) : BinaryData :=
  let count := (d.payload.take size).length
  let data := d.payload.take size ++ List.replicate (size - count) 0
  if (count : ℤ) < toInt size then data.take count else data

/-- The loop of `recvAll`: the data, and the datagrams that are left; `none` while it waits for
more, or when an assertion fails. -/
def recvLoop (requiredSize : ℕ) (data : BinaryData) :
    List Datagram → Option (BinaryData × List Datagram)
  | [] => if data.length = requiredSize then some (data, []) else none
  | d :: ds =>
    if data.length = requiredSize then some (data, d :: ds)
    else if data.length < requiredSize then
      -- `BOOST_ASSERT(tmp.empty() == false)`
      if recv (requiredSize - data.length) d = [] then none
      else recvLoop requiredSize (data ++ recv (requiredSize - data.length) d) ds
    else none

/-- `Socket::recvAll` with a buffer of the size. -/
def recvAll (requiredSize : ℕ) : List Datagram → Option (BinaryData × List Datagram)
  | [] => none
  -- `BOOST_ASSERT(data.empty() == false)` in `recv`
  | d :: ds => if requiredSize = 0 then none else recvLoop requiredSize (recv requiredSize d) ds

/-- A reader's calls of `recvAll`, up to the first that does not return: the buffers, and the
datagrams that none of them has received. -/
def recvAlls : List PortionSize → List Datagram → List BinaryData × List Datagram
  | [], ds => ([], ds)
  | p :: ps, ds =>
    match recvAll p.size ds with
    | none => ([], ds)
    | some (data, rest) => (data :: (recvAlls ps rest).1, (recvAlls ps rest).2)

/-! ## What is lost -/

/-- All bytes of the datagrams. -/
def stream (ds : List Datagram) : BinaryData := ds.flatMap Datagram.payload

/-- The reader gets a prefix of the stream, and every byte of the datagrams it has received. -/
structure Lossless (ps : List PortionSize) (ds : List Datagram) : Prop where
  start : (recvAlls ps ds).1.flatten <+: stream ds
  kept : (recvAlls ps ds).1.flatten ++ stream (recvAlls ps ds).2 = stream ds

/-- The size of the first portions together. -/
def sizeOf (ps : List PortionSize) : ℕ := (ps.map PortionSize.size).sum

/-- As far as the stream goes, each portion ends with a datagram. -/
def Fits (ps : List PortionSize) (ds : List Datagram) : Prop :=
  ∀ j, sizeOf (ps.take j) ≤ (stream ds).length →
    ∃ k, (stream (ds.take k)).length = sizeOf (ps.take j)

variable {d : Datagram} {ds rest : List Datagram} {p : PortionSize} {ps : List PortionSize}
variable {size requiredSize : ℕ} {data : BinaryData}

@[simp] theorem stream_nil : stream [] = [] := rfl

@[simp] theorem stream_cons : stream (d :: ds) = d.payload ++ stream ds := List.flatMap_cons

@[simp] theorem stream_append : stream (ds ++ rest) = stream ds ++ stream rest :=
  List.flatMap_append

/-- A buffer whose size fits an `int` gets what the datagram has for it. -/
theorem recv_eq (h : size < 2 ^ 31) : recv size d = d.payload.take size := by
  unfold recv
  dsimp only
  rw [toInt_of_lt h]
  split
  next => exact List.take_left
  next hfull =>
    have hlen := List.length_take_le size d.payload
    have hzero : size - (d.payload.take size).length = 0 := by omega
    rw [hzero, List.replicate_zero, List.append_nil]

theorem length_stream_take_le (k : ℕ) (ds : List Datagram) :
    (stream (ds.take k)).length ≤ (stream ds).length := by
  conv_rhs => rw [← List.take_append_drop k ds, stream_append, List.length_append]
  exact Nat.le_add_right _ _

/-! ## One call -/

/-- A call takes datagrams until they are enough, and then returns the portion. -/
inductive Received (requiredSize : ℕ) (data : BinaryData) (ds : List Datagram) :
    Option (BinaryData × List Datagram) → Prop
  | waits (h : data.length + (stream ds).length < requiredSize) : Received requiredSize data ds none
  | returns (taken : List Datagram) (last : Datagram) (rest : List Datagram)
      (hds : ds = taken ++ last :: rest)
      (hlt : data.length + (stream taken).length < requiredSize)
      (hle : requiredSize ≤ data.length + (stream (taken ++ [last])).length) :
      Received requiredSize data ds
        (some ((data ++ stream (taken ++ [last])).take requiredSize, rest))

theorem recvLoop_full (h : data.length = requiredSize) :
    recvLoop requiredSize data ds = some (data, ds) := by
  cases ds <;> simp [recvLoop, h]

theorem received_recvLoop (hsize : requiredSize < 2 ^ 31) (h : data.length < requiredSize) :
    Received requiredSize data ds (recvLoop requiredSize data ds) := by
  induction ds generalizing data with
  | nil =>
    rw [recvLoop, if_neg (Nat.ne_of_lt h)]
    exact .waits (by simpa using h)
  | cons d ds ih =>
    have hrecv : recv (requiredSize - data.length) d =
        d.payload.take (requiredSize - data.length) := recv_eq (by omega)
    have hlen : (d.payload.take (requiredSize - data.length)).length =
        min (requiredSize - data.length) d.payload.length := List.length_take
    have hpos := List.length_pos_iff.2 d.nonempty
    have hne : recv (requiredSize - data.length) d ≠ [] := by
      rw [hrecv, ← List.length_pos_iff, hlen]
      omega
    have hstep : recvLoop requiredSize data (d :: ds) =
        recvLoop requiredSize (data ++ d.payload.take (requiredSize - data.length)) ds := by
      rw [recvLoop, if_neg (Nat.ne_of_lt h), if_pos h, if_neg hne, hrecv]
    rw [hstep]
    by_cases henough : requiredSize ≤ data.length + d.payload.length
    · have hfull : (data ++ d.payload.take (requiredSize - data.length)).length =
          requiredSize := by
        rw [List.length_append, hlen]
        omega
      have htake : data ++ d.payload.take (requiredSize - data.length) =
          (data ++ stream ([] ++ [d])).take requiredSize := by
        rw [List.take_append, List.take_of_length_le (Nat.le_of_lt h)]
        simp
      rw [recvLoop_full hfull, htake]
      exact .returns [] d ds rfl (by simpa using h) (by simpa using henough)
    · have hall : d.payload.take (requiredSize - data.length) = d.payload :=
        List.take_of_length_le (by omega)
      rw [hall]
      have hshort : (data ++ d.payload).length < requiredSize := by
        rw [List.length_append]
        omega
      have hrest := ih hshort
      generalize recvLoop requiredSize (data ++ d.payload) ds = res at hrest ⊢
      cases hrest with
      | waits hwaits =>
        refine .waits ?_
        rw [stream_cons, List.length_append]
        rw [List.length_append] at hwaits
        omega
      | returns taken last rest hds hlt hle =>
        rw [List.append_assoc, ← stream_cons, ← List.cons_append]
        refine .returns (d :: taken) last rest (by rw [hds]; rfl) ?_ ?_
        · rw [stream_cons, List.length_append]
          rw [List.length_append] at hlt
          omega
        · rw [List.cons_append, stream_cons, List.length_append]
          rw [List.length_append] at hle
          omega

theorem recv_ne_nil (hpos : 0 < size) (hsize : size < 2 ^ 31) : recv size d ≠ [] := by
  rw [recv_eq hsize]
  intro hnil
  obtain hzero | hempty := List.take_eq_nil_iff.1 hnil
  · exact absurd hzero (Nat.ne_of_gt hpos)
  · exact d.nonempty hempty

theorem recvLoop_nil_cons (h : 0 < requiredSize) (hne : recv requiredSize d ≠ []) :
    recvLoop requiredSize [] (d :: ds) = recvLoop requiredSize (recv requiredSize d) ds := by
  have hzero : ([] : BinaryData).length ≠ requiredSize := Nat.ne_of_lt h
  have hlt : ([] : BinaryData).length < requiredSize := h
  rw [recvLoop, if_neg hzero, if_pos hlt, List.length_nil, Nat.sub_zero, if_neg hne,
    List.nil_append]

theorem recvAll_eq (hpos : 0 < requiredSize) (hsize : requiredSize < 2 ^ 31) :
    recvAll requiredSize ds = recvLoop requiredSize [] ds := by
  cases ds with
  | nil => rw [recvAll, recvLoop, if_neg (by exact Nat.ne_of_lt hpos)]
  | cons d ds =>
    rw [recvAll, if_neg (Nat.ne_of_gt hpos), recvLoop_nil_cons hpos (recv_ne_nil hpos hsize)]

theorem received_recvAll (p : PortionSize) (ds : List Datagram) :
    Received p.size [] ds (recvAll p.size ds) := by
  rw [recvAll_eq p.pos p.lt]
  exact received_recvLoop p.lt p.pos

/-! ## All calls -/

/-- A reader gets no more bytes than the datagrams have that it receives. -/
theorem length_recvAlls_le (ps : List PortionSize) (ds : List Datagram) :
    (recvAlls ps ds).1.flatten.length + (stream (recvAlls ps ds).2).length ≤
      (stream ds).length := by
  induction ps generalizing ds with
  | nil => simp [recvAlls]
  | cons p ps ih =>
    rw [recvAlls]
    have hcall := received_recvAll p ds
    generalize recvAll p.size ds = res at hcall
    cases hcall with
    | waits => simp
    | returns taken last rest hds hlt hle =>
      have hrest := ih rest
      subst hds
      simp only [List.flatten_cons, List.length_append, List.length_take, stream_append,
        stream_cons, List.nil_append, List.length_nil, stream_nil] at hrest hle ⊢
      omega

@[simp] theorem sizeOf_cons : sizeOf (p :: ps) = p.size + sizeOf ps := by simp [sizeOf]

theorem fits_cons_iff_of_waits (h : (stream ds).length < p.size) : Fits (p :: ps) ds := by
  intro j hj
  cases j with
  | zero => exact ⟨0, rfl⟩
  | succ j =>
    rw [List.take_succ_cons, sizeOf_cons] at hj
    omega

/-- The end of a portion that is the end of the datagrams it takes. -/
theorem fits_cons_iff_of_eq {taken : List Datagram} (h : (stream taken).length = p.size) :
    Fits (p :: ps) (taken ++ rest) ↔ Fits ps rest := by
  constructor
  · intro hfits j hj
    obtain ⟨k, hk⟩ := hfits (j + 1) (by
      rw [List.take_succ_cons, sizeOf_cons, stream_append, List.length_append]
      omega)
    rw [List.take_succ_cons, sizeOf_cons, List.take_append, stream_append,
      List.length_append] at hk
    by_cases hle : k ≤ taken.length
    · have hsub := length_stream_take_le k taken
      rw [Nat.sub_eq_zero_of_le hle, List.take_zero, stream_nil, List.length_nil] at hk
      exact ⟨0, by rw [List.take_zero, stream_nil, List.length_nil]; omega⟩
    · rw [List.take_of_length_le (by omega)] at hk
      exact ⟨k - taken.length, by omega⟩
  · intro hfits j hj
    cases j with
    | zero => exact ⟨0, rfl⟩
    | succ j =>
      rw [List.take_succ_cons, sizeOf_cons] at hj ⊢
      rw [stream_append, List.length_append] at hj
      obtain ⟨k, hk⟩ := hfits j (by omega)
      refine ⟨taken.length + k, ?_⟩
      rw [List.take_append, List.take_of_length_le (by omega), Nat.add_sub_cancel_left,
        stream_append, List.length_append]
      omega

/-- A datagram that is cut has no end where the portion ends. -/
theorem not_fits_of_cut {taken : List Datagram} {last : Datagram}
    (hlt : (stream taken).length < p.size) (hcut : p.size < (stream (taken ++ [last])).length) :
    ¬Fits (p :: ps) (taken ++ last :: rest) := by
  intro hfits
  have hsplit : taken ++ last :: rest = (taken ++ [last]) ++ rest := by simp
  obtain ⟨k, hk⟩ := hfits 1 (by
    rw [List.take_succ_cons, sizeOf_cons, hsplit, stream_append, List.length_append]
    simp only [List.take_zero, sizeOf, List.map_nil, List.sum_nil]
    omega)
  rw [List.take_succ_cons, sizeOf_cons, List.take_zero] at hk
  simp only [sizeOf, List.map_nil, List.sum_nil, Nat.add_zero] at hk
  by_cases hle : k ≤ taken.length
  · rw [List.take_append_of_le_length hle] at hk
    have hsub := length_stream_take_le k taken
    omega
  · have htake : (taken ++ last :: rest).take k =
        (taken ++ [last]) ++ rest.take (k - (taken.length + 1)) := by
      rw [hsplit, List.take_append, List.take_of_length_le (by simp; omega), List.length_append,
        List.length_singleton]
    have hsub : (stream ((taken ++ last :: rest).take k)).length =
        (stream (taken ++ [last])).length +
          (stream (rest.take (k - (taken.length + 1)))).length := by
      rw [htake, stream_append, List.length_append]
    omega

theorem length_stream_of_forall {l : ℕ} (h : ∀ d ∈ ds, d.payload.length = l) :
    (stream ds).length = l * ds.length := by
  induction ds with
  | nil => rfl
  | cons d ds ih =>
    obtain ⟨hd, hds⟩ := List.forall_mem_cons.1 h
    rw [stream_cons, List.length_append, hd, ih hds, List.length_cons, Nat.mul_succ, Nat.add_comm]

theorem dvd_sizeOf {l : ℕ} (h : ∀ p ∈ ps, l ∣ p.size) : l ∣ sizeOf ps := by
  induction ps with
  | nil => exact Nat.dvd_zero l
  | cons p ps ih =>
    obtain ⟨hp, hps⟩ := List.forall_mem_cons.1 h
    rw [sizeOf_cons]
    exact Nat.dvd_add hp (ih hps)

/-- Datagrams of one size, of which each portion takes a whole number, as 1316 bytes in the
`188 * 1050` of an MPEG transport stream. -/
theorem fits_of_dvd {l : ℕ} (hds : ∀ d ∈ ds, d.payload.length = l) (hps : ∀ p ∈ ps, l ∣ p.size) :
    Fits ps ds := by
  intro j hj
  obtain ⟨k, hk⟩ := dvd_sizeOf fun p hp => hps p (List.mem_of_mem_take hp (i := j))
  refine ⟨k, ?_⟩
  rw [length_stream_of_forall fun d hd => hds d (List.mem_of_mem_take hd), List.length_take, hk]
  rw [length_stream_of_forall hds, hk] at hj
  obtain rfl | hl := Nat.eq_zero_or_pos l
  · simp
  · rw [Nat.min_eq_left (Nat.le_of_mul_le_mul_left hj hl)]

theorem lossless_of_kept
    (h : (recvAlls ps ds).1.flatten ++ stream (recvAlls ps ds).2 = stream ds) :
    Lossless ps ds :=
  ⟨⟨_, h⟩, h⟩

/-- For all datagrams and portions: the reader gets a prefix of the stream and no byte is dropped if
and only if every portion, as far as the stream goes, ends with a datagram. -/
theorem lossless_iff (ps : List PortionSize) (ds : List Datagram) :
    Lossless ps ds ↔ Fits ps ds := by
  induction ps generalizing ds with
  | nil =>
    refine iff_of_true (lossless_of_kept (by simp [recvAlls])) fun j _ => ⟨0, ?_⟩
    simp [sizeOf]
  | cons p ps ih =>
    have hcall := received_recvAll p ds
    generalize hres : recvAll p.size ds = res at hcall
    cases hcall with
    | waits hwaits =>
      refine iff_of_true (lossless_of_kept (by simp [recvAlls, hres])) ?_
      exact fits_cons_iff_of_waits (by simpa using hwaits)
    | returns taken last rest hds hlt hle =>
      rw [List.nil_append] at hres
      rw [List.length_nil, Nat.zero_add] at hlt hle
      have hfst : (recvAlls (p :: ps) ds).1 =
          (stream (taken ++ [last])).take p.size :: (recvAlls ps rest).1 := by
        rw [recvAlls, hres]
      have hsnd : (recvAlls (p :: ps) ds).2 = (recvAlls ps rest).2 := by rw [recvAlls, hres]
      have hsplit : ds = (taken ++ [last]) ++ rest := by simp [hds]
      have hstream : stream ds = stream (taken ++ [last]) ++ stream rest := by
        rw [hsplit, stream_append]
      obtain heq | hcut := Nat.eq_or_lt_of_le hle
      · have hkept : (recvAlls (p :: ps) ds).1.flatten ++ stream (recvAlls (p :: ps) ds).2 =
            stream ds ↔ (recvAlls ps rest).1.flatten ++ stream (recvAlls ps rest).2 =
              stream rest := by
          rw [hfst, hsnd, hstream, heq, List.take_length, List.flatten_cons, List.append_assoc,
            List.append_cancel_left_eq]
        have hfits : Fits (p :: ps) ds ↔ Fits ps rest := by
          rw [hsplit]
          exact fits_cons_iff_of_eq heq.symm
        rw [hfits, ← ih]
        exact ⟨fun h => lossless_of_kept (hkept.1 h.kept),
          fun h => lossless_of_kept (hkept.2 h.kept)⟩
      · refine iff_of_false (fun h => ?_) (hds ▸ not_fits_of_cut hlt hcut)
        have hlen := congrArg List.length h.kept
        have hmore := length_recvAlls_le ps rest
        rw [hfst, hsnd, hstream, List.flatten_cons, List.length_append, List.length_append,
          List.length_append, List.length_take] at hlen
        omega

/-- The reader for FLV asks for the 9 bytes of the file header, and then for the 4 behind it. -/
def flvPortions : List PortionSize := [⟨9, by decide, by decide⟩, ⟨4, by decide, by decide⟩]

/-- The 13 bytes in one datagram, and a tag in the next. -/
def flvDatagrams : List Datagram :=
  [⟨[0x46, 0x4C, 0x56, 1, 5, 0, 0, 0, 9, 0, 0, 0, 0], by decide⟩, ⟨[8, 0, 0, 4], by decide⟩]

theorem recvAlls_flvDatagrams : (recvAlls flvPortions flvDatagrams).1 =
    [[0x46, 0x4C, 0x56, 1, 5, 0, 0, 0, 9], [8, 0, 0, 4]] := rfl

/-- The 4 bytes are lost, and the reader gets the tag in their place. -/
theorem flvHeader_cut : ¬Lossless flvPortions flvDatagrams := by
  intro h
  have hstart := h.start
  rw [recvAlls_flvDatagrams] at hstart
  exact absurd hstart (by decide)

end Kalinka.Sock
