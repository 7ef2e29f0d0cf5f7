import Kalinka.App.Dvb.Streamer.Plugin.Getstream2.Psi
import Mathlib.Algebra.Ring.Nat

/-!
# Outputs of a stream

`stream_send` gives a packet to each output of a stream.  An output collects packets in a buffer
until no other one fits, and sends them as one datagram.  Whether a datagram arrives is not looked
at.
-/

namespace Kalinka.Getstream2

def UDP_MAX_TS : ℕ := (1500 - 40) / TS_PACKET_SIZE

/-! ## Buffers of atoms -/

/-- `simplebuffer_s` -/
structure SimpleBuffer (atoms atomsize headroom : ℕ) where
  buffer : Block (atoms * atomsize + headroom)
  fill : ℕ := 0

namespace SimpleBuffer

variable {atoms atomsize headroom m : ℕ}

/-- `sb_free_atoms` -/
def freeAtoms (sb : SimpleBuffer atoms atomsize headroom) : ℕ := atoms - sb.fill

/-- `sb_add_atoms` -/
def addAtoms (sb : SimpleBuffer atoms atomsize headroom) (atom : Block m) (n : ℕ) :
    Option (SimpleBuffer atoms atomsize headroom) := do
  let copy := min n sb.freeAtoms
  let buffer ← sb.buffer.memcpy (sb.fill * atomsize + headroom) atom 0 (copy * atomsize)
  some { buffer, fill := sb.fill + copy }

/-- `sb_buflen` -/
def buflen (sb : SimpleBuffer atoms atomsize headroom) : ℕ := sb.fill * atomsize + headroom

/-- What is read of the buffer. -/
def content (sb : SimpleBuffer atoms atomsize headroom) : List UInt8 :=
  sb.buffer.bytes.take sb.buflen

/-- `sb_zap` -/
def zap (sb : SimpleBuffer atoms atomsize headroom) : SimpleBuffer atoms atomsize headroom :=
  { sb with fill := 0 }

variable {sb : SimpleBuffer atoms atomsize headroom}

/-- An atom is added behind the others. -/
theorem exists_addAtoms (atom : Block atomsize) (hfill : sb.fill < atoms) :
    ∃ sb', sb.addAtoms atom 1 = some sb' ∧ sb'.fill = sb.fill + 1 ∧
      sb'.content = sb.content ++ atom.bytes := by
  have hcopy : min 1 sb.freeAtoms = 1 := Nat.min_eq_left (Nat.sub_pos_of_lt hfill)
  have hroom : sb.fill * atomsize + headroom + 1 * atomsize ≤ atoms * atomsize + headroom := by
    have := Nat.mul_le_mul_right atomsize hfill
    rw [Nat.succ_mul] at this
    omega
  have hatom : 0 + 1 * atomsize ≤ atomsize := by omega
  obtain ⟨d, hd⟩ := Block.exists_memcpy sb.buffer atom hatom hroom
  have htake := Block.take_memcpy hd
  refine ⟨⟨d, sb.fill + 1⟩, ?_, rfl, ?_⟩
  · simp only [addAtoms, hcopy, hd]
    rfl
  · rw [List.drop_zero, Nat.one_mul,
      List.take_of_length_le (Nat.le_of_eq atom.length_bytes)] at htake
    rw [content, buflen, Nat.succ_mul, Nat.add_right_comm]
    exact htake

end SimpleBuffer

/-! ## Outputs -/

/-- `output_s`, for UDP; `count` is the one of `klkstat_s`. -/
structure OutputS where
  receiver : ℕ
  buffer : SimpleBuffer UDP_MAX_TS TS_PACKET_SIZE 0
  klkstat : Option ℕ
  /-- the datagrams that were sent -/
  sent : List (List UInt8) := []

/-- The part of `output_send_udp` behind the packet that was added; `len` is the result of `send`,
which is asked when the buffer is full. -/
def OutputS.flush (o : OutputS) (buffer : SimpleBuffer UDP_MAX_TS TS_PACKET_SIZE 0) (len : ℤ) :
    OutputS :=
  if buffer.freeAtoms = 0 then
    { o with
      buffer := buffer.zap
      klkstat := o.klkstat.map fun count => if 0 < len then count + len.toNat else count
      sent := o.sent ++ [buffer.content] }
  else { o with buffer }

/-- `output_send_udp` -/
def outputSendUdp (o : OutputS) (tsp : TsPacket) (len : ℤ) : Option OutputS :=
  (o.buffer.addAtoms tsp 1).map fun buffer => o.flush buffer len

/-- `output_send` -/
def outputSend (o : OutputS) (tsp : TsPacket) (len : ℤ) : Option OutputS :=
  if o.receiver = 0 then some o else outputSendUdp o tsp len

/-- `stream_send`, with a result of `send` for each output. -/
def streamSend : List OutputS → TsPacket → List ℤ → Option (List OutputS)
  | [], _, _ => some []
  | o :: ol, tsp, lens => do
    let o ← outputSend o tsp (lens.headD 0)
    let ol ← streamSend ol tsp lens.tail
    some (o :: ol)

/-- The packets of a stream, one after the other. -/
def streamSendAll : List OutputS → List (TsPacket × List ℤ) → Option (List OutputS)
  | ol, [] => some ol
  | ol, (tsp, lens) :: rest => do
    let ol ← streamSend ol tsp lens
    streamSendAll ol rest

/-! ## What an output sends -/

/-- An output has sent these packets, apart from those that wait for a full datagram. -/
structure OutputS.Carries (o : OutputS) (pkts : List TsPacket) : Prop where
  fill_lt : o.buffer.fill < UDP_MAX_TS
  full : ∀ d ∈ o.sent, d.length = UDP_MAX_TS * TS_PACKET_SIZE
  bytes : o.sent.flatten ++ o.buffer.content = pkts.flatMap (·.bytes)
  count : o.sent.length * UDP_MAX_TS + o.buffer.fill = pkts.length

theorem OutputS.receiver_flush (o : OutputS) (buffer : SimpleBuffer UDP_MAX_TS TS_PACKET_SIZE 0)
    (len : ℤ) : (o.flush buffer len).receiver = o.receiver := by
  unfold flush
  split <;> rfl

/-- A packet is added, and a buffer that is full is sent. -/
theorem OutputS.Carries.flush {o : OutputS} {pkts : List TsPacket} (h : o.Carries pkts)
    {tsp : TsPacket} {buffer : SimpleBuffer UDP_MAX_TS TS_PACKET_SIZE 0}
    (hfill : buffer.fill = o.buffer.fill + 1)
    (hcontent : buffer.content = o.buffer.content ++ tsp.bytes) (len : ℤ) :
    (o.flush buffer len).Carries (pkts ++ [tsp]) := by
  have hlength : (pkts ++ [tsp]).length = pkts.length + 1 := List.length_append
  have hbytes : o.sent.flatten ++ buffer.content = (pkts ++ [tsp]).flatMap (·.bytes) := by
    rw [hcontent, ← List.append_assoc, h.bytes]
    simp
  unfold OutputS.flush
  split
  next hfull =>
    have hlast : buffer.fill = UDP_MAX_TS :=
      Nat.le_antisymm (hfill ▸ h.fill_lt) (Nat.le_of_sub_eq_zero hfull)
    have hdatagram : buffer.content.length = UDP_MAX_TS * TS_PACKET_SIZE := by
      rw [SimpleBuffer.content, List.length_take, buffer.buffer.length_bytes, SimpleBuffer.buflen,
        hlast, Nat.min_self, Nat.add_zero]
    have hzap : buffer.zap.content = [] := by
      rw [SimpleBuffer.content, SimpleBuffer.buflen, SimpleBuffer.zap, Nat.zero_mul, Nat.add_zero,
        List.take_zero]
    refine ⟨Nat.zero_lt_of_lt h.fill_lt, fun d hd => ?_, ?_, ?_⟩
    · obtain hd | hd := List.mem_append.1 hd
      · exact h.full d hd
      · exact List.mem_singleton.1 hd ▸ hdatagram
    · dsimp only
      rw [hzap, List.append_nil, List.flatten_append, List.flatten_singleton, hbytes]
    · have hcount := h.count
      dsimp only [SimpleBuffer.zap]
      rw [List.length_append, List.length_singleton, Nat.succ_mul, hlength]
      omega
  next hfull =>
    refine ⟨Nat.lt_of_sub_pos (Nat.pos_of_ne_zero hfull), h.full, hbytes, ?_⟩
    dsimp only
    rw [hfill, hlength, ← Nat.add_assoc, h.count]

theorem exists_outputSendUdp {o : OutputS} {pkts : List TsPacket} (h : o.Carries pkts)
    (tsp : TsPacket) (len : ℤ) :
    ∃ o', outputSendUdp o tsp len = some o' ∧ o'.receiver = o.receiver ∧
      o'.Carries (pkts ++ [tsp]) := by
  obtain ⟨buffer, hadd, hfill, hcontent⟩ := SimpleBuffer.exists_addAtoms tsp h.fill_lt
  refine ⟨o.flush buffer len, ?_, o.receiver_flush buffer len, h.flush hfill hcontent len⟩
  rw [outputSendUdp, hadd, Option.map_some]

/-- An output without receivers does nothing, and the others have sent the packets. -/
def Sends (o o' : OutputS) (pkts : List TsPacket) : Prop :=
  o'.receiver = o.receiver ∧ (o.receiver = 0 → o' = o) ∧ (o.receiver ≠ 0 → o'.Carries pkts)

theorem exists_outputSend {o o' : OutputS} {pkts : List TsPacket} (h : Sends o o' pkts)
    (tsp : TsPacket) (len : ℤ) :
    ∃ o'', outputSend o' tsp len = some o'' ∧ Sends o o'' (pkts ++ [tsp]) := by
  obtain ⟨hreceiver, hnone, hsome⟩ := h
  by_cases h0 : o.receiver = 0
  · exact ⟨o', if_pos (hreceiver.trans h0), hreceiver, hnone, absurd h0⟩
  · obtain ⟨o'', heq, hreceiver', hcarries⟩ := exists_outputSendUdp (hsome h0) tsp len
    exact ⟨o'', (if_neg (hreceiver ▸ h0)).trans heq, hreceiver'.trans hreceiver,
      fun h => absurd h h0, fun _ => hcarries⟩

theorem exists_streamSend {ol ol' : List OutputS} {pkts : List TsPacket}
    (h : List.Forall₂ (Sends · · pkts) ol ol') (tsp : TsPacket) (lens : List ℤ) :
    ∃ ol'', streamSend ol' tsp lens = some ol'' ∧
      List.Forall₂ (Sends · · (pkts ++ [tsp])) ol ol'' := by
  induction h generalizing lens with
  | nil => exact ⟨[], rfl, .nil⟩
  | cons ho _ ih =>
    obtain ⟨o'', heq, ho''⟩ := exists_outputSend ho tsp (lens.headD 0)
    obtain ⟨ol'', heq', hol''⟩ := ih lens.tail
    refine ⟨o'' :: ol'', ?_, .cons ho'' hol''⟩
    rw [streamSend, heq]
    simp [heq']

theorem exists_streamSendAll_of_sends {ol ol' : List OutputS} {pkts : List TsPacket}
    (h : List.Forall₂ (Sends · · pkts) ol ol') (tsps : List (TsPacket × List ℤ)) :
    ∃ ol'', streamSendAll ol' tsps = some ol'' ∧
      List.Forall₂ (Sends · · (pkts ++ tsps.map Prod.fst)) ol ol'' := by
  induction tsps generalizing ol' pkts with
  | nil => exact ⟨ol', rfl, by simpa using h⟩
  | cons tsp tsps ih =>
    obtain ⟨ol₁, heq, h₁⟩ := exists_streamSend h tsp.1 tsp.2
    obtain ⟨ol'', heq', h'⟩ := ih h₁
    refine ⟨ol'', ?_, by simpa using h'⟩
    rw [streamSendAll, heq]
    exact heq'

/-- Whatever becomes of the datagrams, each output sends the packets of its stream in their order in
datagrams of seven, never writes outside its buffer, and holds less than seven of them back. -/
theorem exists_streamSendAll (ol : List OutputS) (hol : ∀ o ∈ ol, o.buffer.fill = 0 ∧ o.sent = [])
    (tsps : List (TsPacket × List ℤ)) :
    ∃ ol', streamSendAll ol tsps = some ol' ∧
      List.Forall₂ (Sends · · (tsps.map Prod.fst)) ol ol' := by
  have hinit : List.Forall₂ (Sends · · []) ol ol := by
    refine List.forall₂_same.2 fun o ho => ⟨rfl, fun _ => rfl, fun _ => ?_⟩
    obtain ⟨hfill, hsent⟩ := hol o ho
    refine ⟨by rw [hfill]; decide, by simp [hsent], ?_, by simp [hfill, hsent]⟩
    simp [hsent, SimpleBuffer.content, SimpleBuffer.buflen, hfill]
  exact exists_streamSendAll_of_sends hinit tsps

/-- One output without receivers and one with some, and eight packets. -/
theorem exists_streamSendAll_eight : ∃ ol',
    streamSendAll [⟨0, ⟨Block.fill _ 0, 0⟩, none, []⟩, ⟨2, ⟨Block.fill _ 0, 0⟩, some 0, []⟩]
      (List.replicate 8 (Block.fill _ 0x47, [0, 1316])) = some ol' ∧
    List.Forall₂ (Sends · · ((List.replicate 8 (Block.fill _ 0x47, [0, 1316])).map Prod.fst))
      [⟨0, ⟨Block.fill _ 0, 0⟩, none, []⟩, ⟨2, ⟨Block.fill _ 0, 0⟩, some 0, []⟩] ol' :=
  exists_streamSendAll _ (by simp) _

end Kalinka.Getstream2
