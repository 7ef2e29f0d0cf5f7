import Kalinka.App.Dvb.Streamer.Plugin.Getstream2.PsiBounds
import Kalinka.Lib.Fragments

/-!
# From a section to packets and back

`psi_segment_and_send` cuts a section into packets.  `psi_reassemble` gets it back, also when some
packets are lost on the way: as long as never sixteen of them are lost in a row, exactly the
sections that arrive in full and undamaged are given to the callbacks.
-/

namespace Kalinka.Getstream2

/-! ## Sending -/

/-- The header of a packet; in a unit start, with the pointer to the section. -/
def segmentHeader (pid cc : ℕ) (first : Bool) : List UInt8 :=
  0x47 :: (UInt8.ofNat (pid >>> 8) ||| if first then 0x40 else 0) :: UInt8.ofNat (pid &&& 0xff) ::
    (0x10 ||| UInt8.ofNat (cc &&& 0xf)) :: if first then [0] else []

/-- A packet with a part of a section, as `psi_segment_and_send` fills it. -/
def segmentPacket (pid cc : ℕ) (first : Bool) (part : List UInt8) : TsPacket :=
  Block.ofList TS_PACKET_SIZE (segmentHeader pid cc first ++ part) 0xff

/-- The loop of `psi_segment_and_send`. -/
def segmentLoop (data : List UInt8) (plen pid cc pkts left : ℕ) : List TsPacket :=
  let tspayloadoff := if pkts = 0 then 5 else 4
  let copylen := min left (TS_PACKET_SIZE - tspayloadoff)
  let ts := segmentPacket pid (cc + pkts) (pkts = 0) ((data.drop (plen - left)).take copylen)
  if left - copylen = 0 then [ts]
  else ts :: segmentLoop data plen pid cc (pkts + 1) (left - copylen)
termination_by left
decreasing_by
  have h188 : TS_PACKET_SIZE = 188 := rfl
  split at * <;> omega

/-- `psi_segment_and_send`, with the packets that it sends; it reads behind the buffer of a section
that is too long for it. -/
def psiSegmentAndSend (section_ : PsiSec) (pid cc : ℕ) : Option (List TsPacket) :=
  let plen := psiLen section_.data.bytes
  if plen ≤ PSI_MAX_SIZE then some (segmentLoop section_.data.bytes plen pid cc 0 plen) else none

/-- The bytes of a section that declares its length and fits into a buffer. -/
structure Section where
  bytes : List UInt8
  header_le : PSI_HDR_LEN ≤ bytes.length
  length_le : bytes.length ≤ PSI_MAX_SIZE
  declared : psiLen bytes = bytes.length

/-- Where the part of a section begins that is in a packet. -/
def partStart (k : ℕ) : ℕ := 184 * k - 1

/-- The part of a section that is in a packet. -/
def part (bs : List UInt8) (k : ℕ) : List UInt8 :=
  (bs.drop (partStart k)).take (partStart (k + 1) - partStart k)

def partCount (bs : List UInt8) : ℕ := (bs.length + 184) / 184

/-- A packet of a section, with its continuity counter. -/
def partPacket (pid : ℕ) (bs : List UInt8) (k q : ℕ) : TsPacket :=
  segmentPacket pid q (k = 0) (part bs k)

theorem segmentPacket_mod (pid q : ℕ) (first : Bool) (part : List UInt8) :
    segmentPacket pid (q % 16) first part = segmentPacket pid q first part := by
  have hmask : q % 16 &&& 0xf = q &&& 0xf := by
    rw [Nat.and_two_pow_sub_one_eq_mod (q % 16) 4, Nat.and_two_pow_sub_one_eq_mod q 4]
    exact Nat.mod_mod q 16
  simp only [segmentPacket, segmentHeader, hmask]

theorem partStart_lt {bs : List UInt8} {k : ℕ} (hbs : 0 < bs.length) (hk : k < partCount bs) :
    partStart k < bs.length := by
  rw [partCount] at hk
  rw [partStart]
  omega

theorem length_le_partStart_iff (bs : List UInt8) (k : ℕ) :
    bs.length ≤ partStart (k + 1) ↔ partCount bs ≤ k + 1 := by
  rw [partCount, partStart]
  omega

theorem partCount_pos (bs : List UInt8) : 0 < partCount bs := by
  rw [partCount]
  omega

/-- The room that a packet leaves for the section. -/
theorem partStart_succ_sub (k : ℕ) :
    partStart (k + 1) - partStart k = TS_PACKET_SIZE - if k = 0 then 5 else 4 := by
  have h188 : TS_PACKET_SIZE = 188 := rfl
  rw [partStart, partStart]
  split <;> omega

theorem length_part (bs : List UInt8) (k : ℕ) :
    (part bs k).length = min (partStart (k + 1)) bs.length - partStart k := by
  rw [part, List.length_take, List.length_drop]
  omega

/-- The loop sends the parts one after the other. -/
theorem segmentLoop_eq {data bs : List UInt8} {k : ℕ} (pid cc : ℕ) (hbs : data.take bs.length = bs)
    (hpos : 0 < bs.length) (hk : k < partCount bs) :
    segmentLoop data bs.length pid cc k (bs.length - partStart k) =
      (List.range' k (partCount bs - k)).map fun i => partPacket pid bs i ((cc + i) % 16) := by
  have hlt := partStart_lt hpos hk
  have hslice : (data.drop (bs.length - (bs.length - partStart k))).take
      (min (bs.length - partStart k) (TS_PACKET_SIZE - if k = 0 then 5 else 4)) = part bs k := by
    rw [part, partStart_succ_sub, Nat.sub_sub_self hlt.le]
    conv => rhs; rw [← hbs]
    rw [List.drop_take, List.take_take, Nat.min_comm]
  have hleft : bs.length - partStart k -
      min (bs.length - partStart k) (TS_PACKET_SIZE - if k = 0 then 5 else 4) =
      bs.length - partStart (k + 1) := by
    rw [← partStart_succ_sub, partStart, partStart]
    omega
  have hhead : segmentPacket pid (cc + k) (k = 0) (part bs k) =
      partPacket pid bs k ((cc + k) % 16) := (segmentPacket_mod _ _ _ _).symm
  rw [segmentLoop, hslice, hleft, hhead]
  by_cases hlast : k + 1 = partCount bs
  · have hdone := Nat.sub_eq_zero_of_le ((length_le_partStart_iff bs k).2 hlast.ge)
    rw [if_pos hdone, ← hlast, Nat.add_sub_cancel_left]
    rfl
  · have hmore : ¬ bs.length - partStart (k + 1) = 0 := fun h => by
      have := (length_le_partStart_iff bs k).1 (Nat.le_of_sub_eq_zero h)
      omega
    rw [if_neg hmore, segmentLoop_eq pid cc hbs hpos (by omega),
      show partCount bs - k = partCount bs - (k + 1) + 1 by omega, List.range'_succ, List.map_cons]
termination_by partCount bs - k

/-! ## Receiving -/

theorem length_segmentHeader (pid cc : ℕ) (first : Bool) :
    (segmentHeader pid cc first).length = if first then 5 else 4 := by
  cases first <;> rfl

theorem segmentPacket_bytes {pid cc : ℕ} {first : Bool} {part : List UInt8}
    (hpart : (if first then 5 else 4) + part.length ≤ TS_PACKET_SIZE) :
    (segmentPacket pid cc first part).bytes = segmentHeader pid cc first ++ part ++
      List.replicate (TS_PACKET_SIZE - ((if first then 5 else 4) + part.length)) 0xff := by
  rw [segmentPacket, Block.ofList_bytes (by rwa [List.length_append, length_segmentHeader]),
    List.length_append, length_segmentHeader]

theorem tsByte_segmentPacket (pid cc : ℕ) (first : Bool) (part : List UInt8) {i : ℕ} (hi : i < 4) :
    tsByte (segmentPacket pid cc first part) i = (segmentHeader pid cc first).getD i 0 := by
  have hlen : i < (segmentHeader pid cc first).length := by
    rw [length_segmentHeader]
    split <;> omega
  have h188 : i < TS_PACKET_SIZE := Nat.lt_trans hi (by decide)
  change ((segmentHeader pid cc first ++ part ++ List.replicate TS_PACKET_SIZE 0xff).take
    TS_PACKET_SIZE).getD i 0 = _
  rw [List.getD_eq_getElem?_getD, List.getElem?_take_of_lt h188, List.append_assoc,
    List.getElem?_append_left hlen, ← List.getD_eq_getElem?_getD]

theorem pid_flags : ∀ (pid : Fin 32) (first : Bool),
    (UInt8.ofNat pid ||| if first then 0x40 else 0) &&& 0x80 = 0 ∧
    decide ((UInt8.ofNat pid ||| if first then 0x40 else 0) &&& 0x40 ≠ 0) = first := by
  decide

theorem cc_flags : ∀ cc : Fin 16,
    ((0x10 ||| UInt8.ofNat cc) &&& 0x30) >>> 4 = 1 ∧
    ((0x10 ||| UInt8.ofNat cc) &&& 0xf).toNat = cc := by
  decide

section

variable {pid cc : ℕ} (first : Bool) (part : List UInt8)

theorem tsByte_three_segmentPacket :
    tsByte (segmentPacket pid cc first part) 3 = 0x10 ||| UInt8.ofNat (cc % 16) := by
  rw [tsByte_segmentPacket _ _ _ _ (by decide), ← Nat.and_two_pow_sub_one_eq_mod cc 4]
  rfl

theorem tsCc_segmentPacket : tsCc (segmentPacket pid cc first part) = cc % 16 := by
  rw [tsCc, tsByte_three_segmentPacket]
  exact (cc_flags ⟨cc % 16, Nat.mod_lt _ (by decide)⟩).2

theorem tsAfc_segmentPacket : tsAfc (segmentPacket pid cc first part) = 1 := by
  rw [tsAfc, tsByte_three_segmentPacket]
  exact (cc_flags ⟨cc % 16, Nat.mod_lt _ (by decide)⟩).1

theorem tsPayloadStart_segmentPacket : tsPayloadStart (segmentPacket pid cc first part) = 4 := by
  rw [tsPayloadStart, tsAfLen, tsHasAf, tsAfc_segmentPacket]
  rfl

variable (hpid : pid < 0x2000)
include hpid

theorem tsTei_segmentPacket : tsTei (segmentPacket pid cc first part) = false := by
  rw [tsTei, tsByte_segmentPacket _ _ _ _ (by decide)]
  have hflags := (pid_flags ⟨pid >>> 8, by rw [Nat.shiftRight_eq_div_pow]; omega⟩ first).1
  exact decide_eq_false (not_not.2 hflags)

theorem tsPusi_segmentPacket : tsPusi (segmentPacket pid cc first part) = first := by
  rw [tsPusi, tsByte_segmentPacket _ _ _ _ (by decide)]
  exact (pid_flags ⟨pid >>> 8, by rw [Nat.shiftRight_eq_div_pow]; omega⟩ first).2

/-- The payload is right behind the header. -/
theorem payload_segmentPacket :
    payload (segmentPacket pid cc first part) 0 = some (.ok (if first then 5 else 4)) := by
  have hstart : sectionStart (segmentPacket pid cc first part) = some (if first then 5 else 4) := by
    rw [sectionStart, tsPusi_segmentPacket first part hpid, tsPayloadStart_segmentPacket]
    cases first with
    | false => rfl
    | true =>
      have hpointer : (segmentPacket pid cc true part).bytes[4]? = some 0 := by
        change ((segmentHeader pid cc true ++ part ++ List.replicate TS_PACKET_SIZE 0xff).take
          TS_PACKET_SIZE)[4]? = _
        rw [List.getElem?_take_of_lt (by decide)]
        rfl
      rw [if_pos rfl, hpointer]
      rfl
  rw [payload, if_neg (not_not.2 rfl), tsTei_segmentPacket first part hpid, tsHasPayload,
    tsAfc_segmentPacket, hstart]
  cases first <;> rfl

end

/-- The first bytes of the payload are the part, and stuffing is behind it. -/
theorem drop_segmentPacket {pid cc off : ℕ} {first : Bool} {part : List UInt8}
    (hoff : off = if first then 5 else 4) (hpart : off + part.length ≤ TS_PACKET_SIZE) :
    (segmentPacket pid cc first part).bytes.drop off =
      part ++ List.replicate (TS_PACKET_SIZE - (off + part.length)) 0xff := by
  subst hoff
  rw [segmentPacket_bytes hpart, List.append_assoc,
    List.drop_append_of_le_length (length_segmentHeader pid cc first).ge,
    List.drop_of_length_le (length_segmentHeader pid cc first).le, List.nil_append]

section

variable {s s' : PsiSec} {ts : TsPacket} {p n : ℕ} (hp : payload ts 0 = some (.ok p))
  (hused : tsPusi ts = true ∨ s.valid ≠ 0)
  (hstep : startOrContinue s ts p = some (s', ((p + n : ℕ) : ℤ)))

include hp hused

theorem psiReassemble_of_step (hstep : startOrContinue s ts p = some (s', ((p + n : ℕ) : ℤ)))
    {rc : ℤ} (hrc : checkSection s' ((p + n : ℕ) : ℤ) = some rc) :
    psiReassemble s ts 0 = some (s', rc) := by
  have hidle : ¬ ((!tsPusi ts) = true ∧ s.valid = 0) := fun h => by
    rcases hused with hused | hused
    · rw [hused] at h
      exact absurd h.1 (by decide)
    · exact hused h.2
  unfold psiReassemble
  simp only [hp, Option.bind_eq_bind, Option.bind_some, if_neg hidle, hstep, hrc]

include hstep

/-- A section that is not complete waits for the next packet. -/
theorem dvrSectionReassemble_of_incomplete (hpart : s'.len ≠ s'.valid) :
    dvrSectionReassemble s ts = some (s', []) := by
  have hrc : checkSection s' ((p + n : ℕ) : ℤ) = some PSI_RC_INCOMPLETE := if_pos (.inl hpart)
  have hcall := psiReassemble_of_step hp hused hstep hrc
  unfold dvrSectionReassemble sectionLoop
  rw [if_pos (by decide), hcall]
  rfl

/-- A section that is complete is given to the callbacks once if its checksum is right and stuffing
is behind it. -/
theorem dvrSectionReassemble_of_complete (hlen : s'.len = s'.valid)
    (hvalid : PSI_HDR_LEN ≤ s'.valid)
    {ok : Bool} (hcrc : s'.psiCrcValid = some ok)
    (hrest : p + n = TS_PACKET_SIZE ∨ ts.bytes[p + n]? = some 0xff) :
    dvrSectionReassemble s ts = some (s', if ok then [s'] else []) := by
  have hrc : checkSection s' ((p + n : ℕ) : ℤ) =
      some (if ok then ((p + n : ℕ) : ℤ) else PSI_RC_CRCFAIL) := by
    rw [checkSection, if_neg (not_or.2 ⟨not_not.2 hlen, Nat.not_lt.2 hvalid⟩), hcrc]
    rfl
  have hcall := psiReassemble_of_step hp hused hstep hrc
  have hloop : sectionLoop (TS_PACKET_SIZE + 1) s' ts (p + n) = some (s', []) := by
    unfold sectionLoop
    rcases hrest with hend | hstuff
    · rw [if_neg (by omega)]
    · obtain ⟨hlt, -⟩ := List.getElem?_eq_some_iff.1 hstuff
      have hpos := payload_pos hp
      have hpay : payload ts (p + n) = some (.error PSI_RC_NOPAYLOAD) := by
        rw [payload, if_pos (by omega), hstuff]
        rfl
      rw [if_pos (hlt.trans_eq ts.length_bytes), psiReassemble, hpay]
      rfl
  unfold dvrSectionReassemble sectionLoop
  rw [if_pos (by decide), hcall]
  cases ok with
  | false => rfl
  | true =>
    simp only [Option.bind_eq_bind, Option.bind_some, if_true, Int.toNat_natCast, hloop]
    rw [if_neg (by omega)]

end

/-! ## A section on its way -/

/-- The first `k` packets of a section have been put together; the last one had the continuity
counter `q`. -/
structure Holding (bs : List UInt8) (k q : ℕ) (s : PsiSec) : Prop where
  bounded : Bounded s
  pos : 0 < k
  cc : s.cc = q
  len : s.len = bs.length
  valid : s.valid = min bs.length (partStart k)
  bytes : s.data.bytes.take s.valid = bs.take s.valid

theorem Holding.valid_pos {bs : List UInt8} {k q : ℕ} {s : PsiSec} (hs : Holding bs k q s)
    (hbs : 0 < bs.length) : s.valid ≠ 0 := by
  have hpos := hs.pos
  rw [hs.valid, partStart]
  omega

/-- With the last packet, the section is complete. -/
theorem Holding.complete {m : Section} {q : ℕ} {s : PsiSec}
    (hs : Holding m.bytes (partCount m.bytes) q s) :
    s.len = s.valid ∧ PSI_HDR_LEN ≤ s.valid ∧ s.content = m.bytes ∧
      s.psiCrcValid = some (crcValid m.bytes) := by
  have hle : m.bytes.length ≤ partStart (partCount m.bytes) := by
    have := length_le_partStart_iff m.bytes (partCount m.bytes - 1)
    rw [Nat.sub_add_cancel (partCount_pos _)] at this
    exact this.2 le_rfl
  have hvalid : s.valid = m.bytes.length := hs.valid.trans (Nat.min_eq_left hle)
  have hlen0 : s.len ≠ 0 := by
    rw [hs.len]
    exact Nat.ne_of_gt (Nat.lt_of_lt_of_le (by decide) m.header_le)
  have hplen : psiLen s.data.bytes = m.bytes.length :=
    (hs.bounded.inv.declared hlen0).symm.trans hs.len
  have hcontent : s.content = m.bytes := by
    rw [PsiSec.content, hplen, ← hvalid, hs.bytes, hvalid, List.take_length]
  refine ⟨hs.len.trans hvalid.symm, hvalid ▸ m.header_le, hcontent, ?_⟩
  rw [PsiSec.psiCrcValid, hplen]
  rw [if_pos ⟨Nat.le_trans (by decide) m.header_le, m.length_le⟩, hcontent]

/-- What is delivered of a section. -/
def Section.value (m : Section) : List (List UInt8) := if crcValid m.bytes then [m.bytes] else []

theorem Holding.map_content {m : Section} {k q : ℕ} {s : PsiSec} (hs : Holding m.bytes k q s) :
    (if k = partCount m.bytes then if crcValid m.bytes then [s] else [] else []).map
      PsiSec.content = if k = partCount m.bytes then m.value else [] := by
  by_cases hlast : k = partCount m.bytes
  · subst hlast
    rw [if_pos rfl, if_pos rfl, Section.value]
    split
    · rw [List.map_singleton, hs.complete.2.2.1]
    · rfl
  · rw [if_neg hlast, if_neg hlast, List.map_nil]

theorem Holding.incomplete {m : Section} {k q : ℕ} {s : PsiSec} (hs : Holding m.bytes k q s)
    (hk : k < partCount m.bytes) : s.len ≠ s.valid := by
  have hpos : 0 < m.bytes.length := Nat.lt_of_lt_of_le (by decide) m.header_le
  have := partStart_lt hpos hk
  rw [hs.len, hs.valid]
  omega

section

variable {m : Section} {pid k q : ℕ} {s s' : PsiSec}

theorem part_le (bs : List UInt8) (k : ℕ) :
    (if k = 0 then 5 else 4) + (part bs k).length ≤ TS_PACKET_SIZE := by
  have hroom := partStart_succ_sub k
  have hlen := length_part bs k
  have h188 : TS_PACKET_SIZE = 188 := rfl
  by_cases hk : k = 0
  · rw [if_pos hk] at hroom ⊢
    omega
  · rw [if_neg hk] at hroom ⊢
    omega

theorem drop_partPacket (pid : ℕ) (bs : List UInt8) (k q : ℕ) :
    (partPacket pid bs k q).bytes.drop (if k = 0 then 5 else 4) =
      part bs k ++
        List.replicate (TS_PACKET_SIZE - ((if k = 0 then 5 else 4) + (part bs k).length)) 0xff :=
  drop_segmentPacket (by simp) (part_le bs k)

theorem payload_partPacket (hpid : pid < 0x2000) (bs : List UInt8) (k q : ℕ) :
    payload (partPacket pid bs k q) 0 = some (.ok (if k = 0 then 5 else 4)) := by
  rw [partPacket, payload_segmentPacket _ _ hpid]
  simp

theorem tsPusi_partPacket (hpid : pid < 0x2000) (bs : List UInt8) (k q : ℕ) :
    tsPusi (partPacket pid bs k q) = decide (k = 0) := tsPusi_segmentPacket _ _ hpid

theorem tsCc_partPacket (pid : ℕ) (bs : List UInt8) (k q : ℕ) :
    tsCc (partPacket pid bs k q) = q % 16 := tsCc_segmentPacket _ _

/-- Behind the part of a packet there is nothing or stuffing. -/
theorem stuffing_partPacket (pid : ℕ) (bs : List UInt8) (k q : ℕ) :
    (if k = 0 then 5 else 4) + (part bs k).length = TS_PACKET_SIZE ∨
      (partPacket pid bs k q).bytes[(if k = 0 then 5 else 4) + (part bs k).length]? =
        some 0xff := by
  refine (part_le bs k).eq_or_lt.imp_right fun hlt => ?_
  rw [← List.getElem?_drop, drop_partPacket, List.getElem?_append_right le_rfl, Nat.sub_self,
    List.getElem?_replicate_of_lt (by omega)]

/-- What a packet does that has been used up to the end of its part. -/
theorem Holding.dvrSectionReassemble (hpid : pid < 0x2000) (hk : k < partCount m.bytes)
    (hs' : Holding m.bytes (k + 1) (q % 16) s') (hused : k = 0 ∨ s.valid ≠ 0)
    (hstep : startOrContinue s (partPacket pid m.bytes k q) (if k = 0 then 5 else 4) =
      some (s', (((if k = 0 then 5 else 4) + (part m.bytes k).length : ℕ) : ℤ))) :
    dvrSectionReassemble s (partPacket pid m.bytes k q) =
      some (s',
        if k + 1 = partCount m.bytes then if crcValid m.bytes then [s'] else [] else []) := by
  have hp := payload_partPacket hpid m.bytes k q
  have huse : tsPusi (partPacket pid m.bytes k q) = true ∨ s.valid ≠ 0 := by
    rw [tsPusi_partPacket hpid, decide_eq_true_iff]
    exact hused
  by_cases hlast : k + 1 = partCount m.bytes
  · rw [if_pos hlast]
    rw [hlast] at hs'
    obtain ⟨hlen, hvalid, -, hcrc⟩ := hs'.complete
    exact dvrSectionReassemble_of_complete hp huse hstep hlen hvalid hcrc
      (stuffing_partPacket pid m.bytes k q)
  · rw [if_neg hlast]
    exact dvrSectionReassemble_of_incomplete hp huse hstep (hs'.incomplete (by omega))

theorem Holding.first (m : Section) (hpid : pid < 0x2000) (s : PsiSec) (q : ℕ) :
    ∃ s', Getstream2.dvrSectionReassemble s (partPacket pid m.bytes 0 q) =
        some (s', if 1 = partCount m.bytes then if crcValid m.bytes then [s'] else [] else []) ∧
      Holding m.bytes 1 (q % 16) s' := by
  have h188 : TS_PACKET_SIZE = 188 := rfl
  have h8 : PSI_HDR_LEN = 8 := rfl
  have hheader := m.header_le
  have hoff : 5 < TS_PACKET_SIZE := by decide
  obtain ⟨s', n, hstart, hinv, hn, hle, hvalid, hcc, htake, hend, hmax⟩ :=
    exists_psiReassembleStart s (partPacket pid m.bytes 0 q) hoff
  have hdrop := drop_partPacket pid m.bytes 0 q
  have hpart : part m.bytes 0 = m.bytes.take 183 := rfl
  rw [if_pos rfl, hpart] at hdrop
  -- the length is the one of the section, which the first packet holds
  have h3 : 3 ≤ n := by
    by_cases h0 : s'.len = 0
    · omega
    · have := hinv.three_le h0
      omega
  have hlen0 : s'.len ≠ 0 := by omega
  have hlen : s'.len = m.bytes.length := by
    rw [hinv.declared hlen0, ← m.declared]
    refine psiLen_congr ?_
    have htake3 : (List.take n s'.data.bytes).take 3 =
        (((partPacket pid m.bytes 0 q).bytes.drop 5).take n).take 3 := by rw [htake]
    rw [List.take_take, List.take_take, Nat.min_eq_left h3, hdrop,
      List.take_append_of_le_length (by rw [List.length_take]; omega), List.take_take] at htake3
    exact htake3
  have hn183 : n = min m.bytes.length 183 := by omega
  have hpartlen : (m.bytes.take 183).length = n := by
    rw [List.length_take, hn183, Nat.min_comm]
  have hs' : Holding m.bytes 1 (q % 16) s' := by
    refine ⟨(bounded_start (by decide) hstart).1, Nat.one_pos,
      hcc.trans (tsCc_partPacket pid m.bytes 0 q), hlen, hvalid.trans hn183, ?_⟩
    rw [hvalid, htake, hdrop, List.take_append_of_le_length hpartlen.ge, List.take_take]
    congr 1
    omega
  refine ⟨s', Holding.dvrSectionReassemble hpid (partCount_pos _) hs' (.inl rfl) ?_, hs'⟩
  rw [startOrContinue, tsPusi_partPacket hpid, if_pos (by rfl), if_pos rfl, hstart, hpart, hpartlen]

theorem Holding.next (hpid : pid < 0x2000) (hs : Holding m.bytes k q s)
    (hk : k < partCount m.bytes) :
    ∃ s', Getstream2.dvrSectionReassemble s (partPacket pid m.bytes k ((q + 1) % 16)) =
        some (s', if k + 1 = partCount m.bytes then if crcValid m.bytes then [s'] else [] else []) ∧
      Holding m.bytes (k + 1) ((q + 1) % 16) s' := by
  have h188 : TS_PACKET_SIZE = 188 := rfl
  have hheader := m.header_le
  have hmax := m.length_le
  have hpos := hs.pos
  have hlt := partStart_lt (Nat.lt_of_lt_of_le (by decide) hheader) hk
  have hvalid : s.valid = partStart k := hs.valid.trans (Nat.min_eq_right hlt.le)
  have hlen0 : s.len ≠ 0 := by
    rw [hs.len]
    omega
  have hfits : s.Fits := .inr ⟨hs.len ▸ hheader, hs.len ▸ hmax⟩
  have hoff : 4 + PSI_HDR_LEN ≤ TS_PACKET_SIZE := by decide
  obtain ⟨s', r, hcont⟩ :=
    exists_psiReassembleContinue (partPacket pid m.bytes k ((q + 1) % 16)) hs.bounded hfits hoff
  rcases psiReassembleContinue_eq_some hs.bounded.inv (by decide) hcont with
    ⟨hcc, -⟩ | ⟨-, hinv, hcc, n, rfl, hle, hv, htake, hend, hkeep, -⟩
  · rw [hs.cc, tsCc_partPacket, Nat.mod_mod] at hcc
    exact absurd rfl hcc
  · obtain ⟨hlen, hn⟩ := hkeep hlen0
    rw [hs.len] at hlen hn
    rw [usub_of_le (hvalid.trans_le hlt.le) (Nat.lt_of_le_of_lt hmax (by decide))] at hn
    have hsucc : partStart (k + 1) = partStart k + 184 := by
      rw [partStart, partStart]
      omega
    have hnpart : (part m.bytes k).length = n := by
      rw [length_part]
      omega
    have hdrop := drop_partPacket pid m.bytes k ((q + 1) % 16)
    rw [if_neg (Nat.ne_of_gt hpos)] at hdrop
    have hs' : Holding m.bytes (k + 1) ((q + 1) % 16 % 16) s' := by
      refine ⟨(bounded_continue hs.bounded (by decide) hcont).1, Nat.succ_pos k,
        hcc.trans (tsCc_partPacket pid m.bytes k _), hlen, by omega, ?_⟩
      rw [htake, hs.bytes, hdrop, ← hnpart, List.take_left, hv, List.take_add, hvalid]
      congr 1
      rw [part, ← hnpart, length_part, List.take_eq_take_iff, List.length_drop]
      omega
    refine ⟨s', Holding.dvrSectionReassemble hpid hk hs'
      (.inr (hs.valid_pos (Nat.lt_of_lt_of_le (by decide) hheader))) ?_, Nat.mod_mod _ _ ▸ hs'⟩
    rw [startOrContinue, tsPusi_partPacket hpid, decide_eq_false (Nat.ne_of_gt hpos),
      if_neg (Nat.ne_of_gt hpos), hnpart]
    exact hcont

end

/-! ## Sections on their way -/

/-- A packet that does not go on with the section ends it. -/
theorem dvrSectionReassemble_of_ne {s : PsiSec} {pid k q : ℕ} {bs : List UInt8}
    (hpid : pid < 0x2000)
    (hk : 0 < k) (hvalid : s.valid ≠ 0) (hcc : (s.cc + 1) % 16 ≠ q % 16) :
    dvrSectionReassemble s (partPacket pid bs k q) = some (s.clear, []) := by
  have hpusi : tsPusi (partPacket pid bs k q) = false := by
    rw [tsPusi_partPacket hpid, decide_eq_false (Nat.ne_of_gt hk)]
  have hstep : startOrContinue s (partPacket pid bs k q) 4 = some (s.clear, PSI_RC_CCFAIL) := by
    rw [startOrContinue, hpusi, if_neg Bool.false_ne_true, psiReassembleContinue, next_cc,
      tsCc_partPacket, if_pos hcc]
  have hcall : psiReassemble s (partPacket pid bs k q) 0 = some (s.clear, PSI_RC_INCOMPLETE) := by
    have hrc : checkSection s.clear PSI_RC_CCFAIL = some PSI_RC_INCOMPLETE :=
      if_pos (.inr (by decide : 0 < PSI_HDR_LEN))
    unfold psiReassemble
    simp only [payload_partPacket hpid, if_neg (Nat.ne_of_gt hk), Option.bind_eq_bind,
      Option.bind_some, hvalid, and_false, if_false, hstep, hrc]
  unfold dvrSectionReassemble sectionLoop
  rw [if_pos (by decide), hcall]
  rfl

/-- Without a unit start, a packet does not begin a section. -/
theorem dvrSectionReassemble_of_idle {s : PsiSec} {pid k q : ℕ} {bs : List UInt8}
    (hpid : pid < 0x2000) (hk : 0 < k) (hvalid : s.valid = 0) :
    dvrSectionReassemble s (partPacket pid bs k q) = some (s, []) := by
  have hcall : psiReassemble s (partPacket pid bs k q) 0 = some (s, PSI_RC_NOPAYLOAD) := by
    unfold psiReassemble
    simp only [payload_partPacket hpid, tsPusi_partPacket hpid, hvalid, Option.bind_eq_bind,
      Option.bind_some, Nat.ne_of_gt hk, decide_false, Bool.not_false, and_self, if_true]
  unfold dvrSectionReassemble sectionLoop
  rw [if_pos (by decide), hcall]
  rfl

/-- Sections are messages, and packets are frames that are numbered modulo 16. -/
def psiProtocol (pid : ℕ) (hpid : pid < 0x2000) :
    Fragments.Protocol 16 Section TsPacket PsiSec (List UInt8) where
  count m := partCount m.bytes
  frame m k q := partPacket pid m.bytes k q
  value := Section.value
  step s ts := (dvrSectionReassemble s ts).map fun r => (r.1, r.2.map PsiSec.content)
  Idle s := s.valid = 0
  Holds s m k q := Holding m.bytes k q s
  count_pos m := partCount_pos m.bytes
  first {s} m {q} _ hq := by
    obtain ⟨s', hstep, hs'⟩ := Holding.first m hpid s q
    rw [Nat.mod_eq_of_lt hq] at hs'
    exact ⟨s', by rw [hstep, Option.map_some, hs'.map_content], hs'⟩
  next {s m k q} hs hk := by
    obtain ⟨s', hstep, hs'⟩ := Holding.next hpid hs hk
    exact ⟨s', by rw [hstep, Option.map_some, hs'.map_content], hs'⟩
  other {s m' k' q' m k q} hs hk _ hq hne := by
    have hvalid := hs.valid_pos (Nat.lt_of_lt_of_le (by decide) m'.header_le)
    have hcc : (s.cc + 1) % 16 ≠ q % 16 := by rwa [hs.cc, Nat.mod_eq_of_lt hq]
    exact ⟨s.clear, by rw [dvrSectionReassemble_of_ne hpid hk hvalid hcc]; rfl, rfl⟩
  idle {s m k q} hs hk _ _ := ⟨s, by rw [dvrSectionReassemble_of_idle hpid hk hs]; rfl, hs⟩

/-- Sections that are sent on a pid one after the other, and the continuity counter goes on. -/
def sendSections (pid : ℕ) : ℕ → List PsiSec → Option (List TsPacket)
  | _, [] => some []
  | cc, section_ :: rest => do
    let pkts ← psiSegmentAndSend section_ pid cc
    let more ← sendSections pid ((cc + pkts.length) &&& 0xf) rest
    some (pkts ++ more)

/-- The length that the section declares holds a header and fits into the buffer. -/
structure PsiSec.WellFormed (s : PsiSec) : Prop where
  header_le : PSI_HDR_LEN ≤ psiLen s.data.bytes
  length_le : psiLen s.data.bytes ≤ PSI_MAX_SIZE

/-- The sections all of whose packets arrive. -/
def inFull : List PsiSec → List Bool → List PsiSec
  | [], _ => []
  | section_ :: rest, flags =>
    let pkts := partCount section_.content
    (if (flags.take pkts).all id then [section_] else []) ++ inFull rest (flags.drop pkts)

theorem PsiSec.length_content {s : PsiSec} (hs : psiLen s.data.bytes ≤ PSI_MAX_SIZE) :
    s.content.length = psiLen s.data.bytes :=
  List.length_take_of_le (hs.trans_eq s.data.length_bytes.symm)

/-- A well-formed section, as what is on its way. -/
def PsiSec.WellFormed.section {s : PsiSec} (hs : s.WellFormed) : Section where
  bytes := s.content
  header_le := PsiSec.length_content hs.length_le ▸ hs.header_le
  length_le := PsiSec.length_content hs.length_le ▸ hs.length_le
  declared := by
    rw [PsiSec.length_content hs.length_le]
    refine psiLen_congr ?_
    rw [PsiSec.content, List.take_take, Nat.min_eq_left (three_le_psiLen _)]

theorem psiSegmentAndSend_eq {s : PsiSec} (hs : s.WellFormed) (pid cc : ℕ) (hpid : pid < 0x2000) :
    psiSegmentAndSend s pid cc = some ((psiProtocol pid hpid).framesFrom cc hs.section 0) := by
  have hlen := PsiSec.length_content hs.length_le
  have hpos : 0 < s.content.length := by
    rw [hlen]
    exact Nat.lt_of_lt_of_le (by decide) hs.header_le
  have htake : s.data.bytes.take s.content.length = s.content := by rw [hlen]; rfl
  have hloop := segmentLoop_eq pid cc htake hpos (partCount_pos _)
  rw [psiSegmentAndSend, if_pos hs.length_le, ← hlen]
  exact congrArg some hloop

theorem sendSections_eq {pid : ℕ} (hpid : pid < 0x2000) {secs : List PsiSec}
    (hsecs : ∀ s ∈ secs, s.WellFormed) (cc : ℕ) :
    ∃ ms : List Section, sendSections pid cc secs = some ((psiProtocol pid hpid).sent cc ms) ∧
      ∀ flags, (psiProtocol pid hpid).delivered ms flags =
        ((inFull secs flags).map PsiSec.content).filter crcValid := by
  induction secs generalizing cc with
  | nil => exact ⟨[], rfl, fun _ => rfl⟩
  | cons s rest ih =>
    have hs := hsecs s List.mem_cons_self
    have hsend := psiSegmentAndSend_eq hs pid cc hpid
    have hcount : ((psiProtocol pid hpid).framesFrom cc hs.section 0).length =
        partCount s.content := Fragments.Protocol.length_framesFrom _ _ _
    obtain ⟨ms, hms, hflags⟩ := ih (fun t ht => hsecs t (List.mem_cons_of_mem s ht))
      ((cc + partCount s.content) &&& 0xf)
    have hmod : (cc + partCount s.content) &&& 0xf ≡ cc + partCount s.content [MOD 16] := by
      rw [Nat.and_two_pow_sub_one_eq_mod _ 4]
      exact Nat.mod_modEq _ _
    refine ⟨hs.section :: ms, ?_, fun flags => ?_⟩
    · simp only [sendSections, hsend, hcount, Option.bind_eq_bind, Option.bind_some, hms]
      rw [Fragments.Protocol.sent_congr hmod]
      rfl
    · rw [Fragments.Protocol.delivered, hflags, inFull, List.map_append, List.filter_append]
      congr 1
      change (if (flags.take (partCount s.content)).all id then hs.section.value else []) = _
      split
      · rw [List.map_singleton, List.filter_cons, List.filter_nil]
        rfl
      · rfl

theorem run_psiProtocol {pid : ℕ} (hpid : pid < 0x2000) {s last : PsiSec} {pkts : List TsPacket}
    {contents : List (List UInt8)} (h : (psiProtocol pid hpid).run s pkts = some (last, contents)) :
    ∃ out, reassembleAll s pkts = some (last, out) ∧ out.map PsiSec.content = contents := by
  induction pkts generalizing s contents with
  | nil =>
    cases h
    exact ⟨[], rfl, rfl⟩
  | cons ts rest ih =>
    obtain ⟨⟨s', cs⟩, hts, h⟩ := Option.bind_eq_some_iff.1 h
    obtain ⟨⟨last', cs'⟩, hrest, h⟩ := Option.bind_eq_some_iff.1 h
    obtain ⟨rfl, rfl⟩ := Prod.mk.inj (Option.some.inj h)
    obtain ⟨⟨t, out₁⟩, hstep, heq⟩ := Option.map_eq_some_iff.1 hts
    obtain ⟨rfl, rfl⟩ := Prod.mk.inj heq
    obtain ⟨out₂, hout, rfl⟩ := ih hrest
    refine ⟨out₁ ++ out₂, ?_, List.map_append⟩
    simp only [reassembleAll, hstep, Option.bind_eq_bind, Option.bind_some, hout]

/-- **If never sixteen packets in a row are lost, exactly the sections that arrive in full and have
a checksum that is right are given to the callbacks**, in their order and with their bytes. -/
theorem exists_reassembleAll_sendSections {pid : ℕ} (hpid : pid < 0x2000) (cc : ℕ)
    {secs : List PsiSec} (hsecs : ∀ s ∈ secs, s.WellFormed) :
    ∃ pkts, sendSections pid cc secs = some pkts ∧
      ∀ flags : List Bool, flags.length = pkts.length → ¬ List.replicate 16 false <:+: flags →
        ∃ last out, reassembleAll {} (Fragments.arrive flags pkts) = some (last, out) ∧
          out.map PsiSec.content = ((inFull secs flags).map PsiSec.content).filter crcValid := by
  obtain ⟨ms, hms, hdelivered⟩ := sendSections_eq hpid hsecs cc
  refine ⟨_, hms, fun flags hlen hflags => ?_⟩
  obtain ⟨last, hrun⟩ :=
    Fragments.Protocol.exists_run_arrive (P := psiProtocol pid hpid) (s := {}) rfl hlen hflags
  obtain ⟨out, hout, hcontents⟩ := run_psiProtocol hpid hrun
  exact ⟨last, out, hout, hcontents.trans (hdelivered flags)⟩

end Kalinka.Getstream2
