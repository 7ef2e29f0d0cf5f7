import Kalinka.App.Dvb.Streamer.Plugin.Getstream2.Crc32
import Kalinka.Lib.Block
import Kalinka.Lib.Wire
import Mathlib.Data.Nat.Bitwise

/-!
# Sections from transport packets

`psi_reassemble` puts a section of program specific information together from the packets of a pid,
and `dvr_section_reassemble` gives each one to the callbacks.  The packets come from the air.

Reading outside of the packet or writing outside of the buffer of the section is `none`.
-/

namespace Kalinka.Getstream2

def TS_PACKET_SIZE : ℕ := 188
def PSI_MAX_SIZE : ℕ := 4096
def PSI_HDR_LEN : ℕ := 8
def PSI_SECLEN_ADD : ℕ := 3
def CRC32_LEN : ℕ := 4

def PSI_RC_TEI : ℤ := -1
def PSI_RC_NOPAYLOAD : ℤ := -2
def PSI_RC_INCOMPLETE : ℤ := -3
def PSI_RC_CRCFAIL : ℤ := -4
def PSI_RC_CCFAIL : ℤ := -5
def PSI_RC_CORRUPT : ℤ := -7

/-! ## Packets -/

/-- A packet of the transport stream. -/
abbrev TsPacket := Block TS_PACKET_SIZE

/-- A byte of the header. -/
def tsByte (ts : TsPacket) (i : ℕ) : UInt8 := ts.bytes.getD i 0

def tsTei (ts : TsPacket) : Bool := tsByte ts 1 &&& 0x80 ≠ 0

def tsPusi (ts : TsPacket) : Bool := tsByte ts 1 &&& 0x40 ≠ 0

def tsPid (ts : TsPacket) : ℕ := ((tsByte ts 1).toNat <<< 8 ||| (tsByte ts 2).toNat) &&& 0x1fff

def tsAfc (ts : TsPacket) : UInt8 := (tsByte ts 3 &&& 0x30) >>> 4

def tsHasPayload (ts : TsPacket) : Bool := tsAfc ts &&& 0x1 ≠ 0

def tsHasAf (ts : TsPacket) : Bool := tsAfc ts &&& 0x2 ≠ 0

def tsAfLen (ts : TsPacket) : ℕ := if tsHasAf ts then (tsByte ts 4).toNat + 1 else 0

def tsPayloadStart (ts : TsPacket) : ℕ := tsAfLen ts + 4

def tsCc (ts : TsPacket) : ℕ := (tsByte ts 3 &&& 0xf).toNat

/-! ## Sections -/

/-- `psisec_s` -/
structure PsiSec where
  len : ℕ := 0
  valid : ℕ := 0
  pid : ℕ := 0
  cc : ℕ := 0
  data : Block PSI_MAX_SIZE := Block.fill PSI_MAX_SIZE 0
  deriving DecidableEq

/-- `_psi_len` -/
def psiLen (data : List UInt8) : ℕ :=
  (((data.getD 1 0).toNat <<< 8 ||| (data.getD 2 0).toNat) &&& 0xfff) + PSI_SECLEN_ADD

/-- Four bytes as a number, the highest first. -/
def word32 (crcp : List UInt8) : BitVec 32 :=
  (crcp.getD 0 0).toBitVec.setWidth 32 <<< 24 ||| (crcp.getD 1 0).toBitVec.setWidth 32 <<< 16 |||
    (crcp.getD 2 0).toBitVec.setWidth 32 <<< 8 ||| (crcp.getD 3 0).toBitVec.setWidth 32

/-- The last four bytes of a string are the checksum of what is in front of them. -/
def crcValid (bs : List UInt8) : Bool :=
  word32 (bs.drop (bs.length - CRC32_LEN)) =
    crc32Be 0 0xffffffff#32 (bs.take (bs.length - CRC32_LEN))

namespace PsiSec

/-- What a callback reads of a section. -/
def content (section_ : PsiSec) : List UInt8 :=
  section_.data.bytes.take (psiLen section_.data.bytes)

/-- `psi_crc_valid`; the buffer has no checksum of a section that is too short or too long for
it. -/
def psiCrcValid (section_ : PsiSec) : Option Bool :=
  let plen := psiLen section_.data.bytes
  if CRC32_LEN ≤ plen ∧ plen ≤ PSI_MAX_SIZE then some (crcValid section_.content) else none

/-- `psi_section_clear` -/
def clear (section_ : PsiSec) : PsiSec := { section_ with valid := 0, len := 0 }

end PsiSec

/-- The difference of two numbers that are `unsigned int`. -/
def usub (a b : ℕ) : ℕ := (a + 2 ^ 32 - b) % 2 ^ 32

/-- The part of `psi_reassemble_continue` that completes the header. -/
def completeHeader (section_ : PsiSec) (ts : TsPacket) (off : ℕ) : Option (PsiSec × ℕ) :=
  if section_.len = 0 then do
    let copylen := usub PSI_HDR_LEN section_.valid
    let data ← section_.data.memcpy section_.valid ts off copylen
    some ({ section_ with data, valid := section_.valid + copylen, len := psiLen data.bytes },
      off + copylen)
  else some (section_, off)

def psiReassembleContinue (section_ : PsiSec) (ts : TsPacket) (off : ℕ) : Option (PsiSec × ℤ) :=
  if (section_.cc + 1) &&& 0xf ≠ tsCc ts then some (section_.clear, PSI_RC_CCFAIL)
  else do
    let (section_, off) ← completeHeader section_ ts off
    let copylen := min (usub TS_PACKET_SIZE off) (usub section_.len section_.valid)
    let data ← section_.data.memcpy section_.valid ts off copylen
    some ({ section_ with data, valid := section_.valid + copylen, cc := tsCc ts },
      off + copylen)

def psiReassembleStart (section_ : PsiSec) (ts : TsPacket) (off : ℕ) : Option (PsiSec × ℤ) := do
  let left := TS_PACKET_SIZE - off
  let len := if PSI_HDR_LEN < left then psiLen (ts.bytes.drop off) else 0
  let copylen := if PSI_HDR_LEN < left then min len left else left
  let data ← section_.data.memcpy 0 ts off copylen
  some ({ len, valid := copylen, pid := tsPid ts, cc := tsCc ts, data }, off + copylen)

/-- The payload of a packet; in a unit start, the section that the pointer names. -/
def sectionStart (ts : TsPacket) : Option ℕ :=
  if tsPusi ts then (ts.bytes[tsPayloadStart ts]?).map (tsPayloadStart ts + ·.toNat + 1)
  else some (tsPayloadStart ts)

/-- Where `psi_reassemble` finds the payload, or its result when it finds none. -/
def payload (ts : TsPacket) (off : ℕ) : Option (Except ℤ ℕ) :=
  if off ≠ 0 then
    (ts.bytes[off]?).map fun b => if b = 0xff then .error PSI_RC_NOPAYLOAD else .ok off
  else if tsTei ts then some (.error PSI_RC_TEI)
  else if !tsHasPayload ts then some (.error PSI_RC_NOPAYLOAD)
  else
    (sectionStart ts).map fun payload =>
      if TS_PACKET_SIZE ≤ payload then .error PSI_RC_CORRUPT else .ok payload

/-- Without a unit start, the section goes on. -/
def startOrContinue (section_ : PsiSec) (ts : TsPacket) (off : ℕ) : Option (PsiSec × ℤ) :=
  if tsPusi ts then psiReassembleStart section_ ts off else psiReassembleContinue section_ ts off

/-- The result of `psi_reassemble` behind the payload that was used. -/
def checkSection (section_ : PsiSec) (noff : ℤ) : Option ℤ :=
  if section_.len ≠ section_.valid ∨ section_.valid < PSI_HDR_LEN then some PSI_RC_INCOMPLETE
  else section_.psiCrcValid.map fun valid => if valid then noff else PSI_RC_CRCFAIL

def psiReassemble (section_ : PsiSec) (ts : TsPacket) (off : ℕ) : Option (PsiSec × ℤ) := do
  match ← payload ts off with
  | .error rc => some (section_, rc)
  | .ok payload =>
    if !tsPusi ts ∧ section_.valid = 0 then some (section_, PSI_RC_NOPAYLOAD)
    else
      let (section_, noff) ← startOrContinue section_ ts payload
      let rc ← checkSection section_ noff
      some (section_, rc)

/-- The loop of `dvr_section_reassemble`, with the sections that it gives to the callbacks. -/
def sectionLoop : ℕ → PsiSec → TsPacket → ℕ → Option (PsiSec × List PsiSec)
  | 0, _, _, _ => none
  | fuel + 1, section_, ts, off =>
    if off < TS_PACKET_SIZE then do
      let (section_, off) ← psiReassemble section_ ts off
      if off < 0 then some (section_, [])
      else
        let (last, out) ← sectionLoop fuel section_ ts off.toNat
        some (last, section_ :: out)
    else some (section_, [])

/-- `dvr_section_reassemble`; each round of the loop but the second one makes progress. -/
def dvrSectionReassemble (section_ : PsiSec) (ts : TsPacket) : Option (PsiSec × List PsiSec) :=
  sectionLoop (TS_PACKET_SIZE + 2) section_ ts 0

/-- The packets of a pid, one after the other. -/
def reassembleAll : PsiSec → List TsPacket → Option (PsiSec × List PsiSec)
  | section_, [] => some (section_, [])
  | section_, ts :: rest => do
    let (section_, out) ← dvrSectionReassemble section_ ts
    let (last, outs) ← reassembleAll section_ rest
    some (last, out ++ outs)

/-! ## Lengths -/

theorem psiLen_congr {xs ys : List UInt8} (h : xs.take 3 = ys.take 3) : psiLen xs = psiLen ys := by
  have hget (i : ℕ) (hi : i < 3) : xs.getD i 0 = ys.getD i 0 := by
    have := congrArg (·.getD i 0) h
    simpa [List.getD_eq_getElem?_getD, List.getElem?_take, hi] using this
  rw [psiLen, psiLen, hget 1 (by decide), hget 2 (by decide)]

theorem three_le_psiLen (data : List UInt8) : 3 ≤ psiLen data := Nat.le_add_left _ _

theorem psiLen_lt (data : List UInt8) : psiLen data < 4099 := by
  have := Nat.and_le_right (n := (data.getD 1 0).toNat <<< 8 ||| (data.getD 2 0).toNat) (m := 0xfff)
  rw [psiLen, PSI_SECLEN_ADD]
  omega

theorem usub_of_le {a b : ℕ} (hba : b ≤ a) (ha : a < 2 ^ 32) : usub a b = a - b := by
  rw [usub]
  omega

theorem lt_usub_of_lt {a b : ℕ} (hab : a < b) (hb : b ≤ PSI_MAX_SIZE) :
    TS_PACKET_SIZE < usub a b := by
  rw [PSI_MAX_SIZE] at hb
  rw [usub, TS_PACKET_SIZE]
  omega

theorem tsCc_lt (ts : TsPacket) : tsCc ts < 16 := by
  rw [tsCc, UInt8.toNat_and]
  exact Nat.lt_of_le_of_lt Nat.and_le_right (by decide)

theorem next_cc (n : ℕ) : (n + 1) &&& 0xf = (n + 1) % 16 := Nat.and_two_pow_sub_one_eq_mod (n + 1) 4

/-! ## The state of a section -/

namespace PsiSec

/-- What every packet keeps: either the header is not complete, or the length is the one that the
header declares. -/
structure Inv (s : PsiSec) : Prop where
  valid_le : s.valid ≤ PSI_MAX_SIZE
  header : s.len = 0 → s.valid ≤ PSI_HDR_LEN
  three_le : s.len ≠ 0 → 3 ≤ s.valid
  declared : s.len ≠ 0 → s.len = psiLen s.data.bytes

theorem Inv.len_lt {s : PsiSec} (hs : s.Inv) : s.len < 4099 := by
  by_cases h0 : s.len = 0
  · omega
  · rw [hs.declared h0]
    exact psiLen_lt _

theorem inv_default : ({} : PsiSec).Inv :=
  ⟨Nat.zero_le _, fun _ => Nat.zero_le _, absurd rfl, absurd rfl⟩

theorem Inv.clear {s : PsiSec} : s.clear.Inv :=
  ⟨Nat.zero_le _, fun _ => Nat.zero_le _, absurd rfl, absurd rfl⟩

end PsiSec

/-- The first bytes of a buffer that has been extended. -/
theorem take_three {d d' : Block PSI_MAX_SIZE} {v v' : ℕ} {bs : List UInt8}
    (h : d'.bytes.take v' = d.bytes.take v ++ bs) (hv : 3 ≤ v) (hmax : v ≤ PSI_MAX_SIZE)
    (hv' : v ≤ v') : psiLen d'.bytes = psiLen d.bytes := by
  have hlen : (d.bytes.take v).length = v :=
    List.length_take_of_le (hmax.trans_eq d.length_bytes.symm)
  refine psiLen_congr ?_
  calc d'.bytes.take 3 = (d'.bytes.take v').take 3 := by
        rw [List.take_take, Nat.min_eq_left (hv.trans hv')]
    _ = (d.bytes.take v).take 3 := by
        rw [h, List.take_append_of_le_length (hv.trans_eq hlen.symm)]
    _ = d.bytes.take 3 := by rw [List.take_take, Nat.min_eq_left hv]

/-! ## What the two halves of the reassembly do -/

theorem exists_psiReassembleStart (section_ : PsiSec) (ts : TsPacket) {off : ℕ}
    (hoff : off < TS_PACKET_SIZE) :
    ∃ s' n, psiReassembleStart section_ ts off = some (s', ((off + n : ℕ) : ℤ)) ∧ s'.Inv ∧
      0 < n ∧ off + n ≤ TS_PACKET_SIZE ∧ s'.valid = n ∧ s'.cc = tsCc ts ∧
      s'.data.bytes.take n = (ts.bytes.drop off).take n ∧
      (off + n = TS_PACKET_SIZE ∨ s'.valid = s'.len) ∧ s'.valid ≤ max s'.len PSI_HDR_LEN := by
  have h188 : TS_PACKET_SIZE = 188 := rfl
  have h4096 : PSI_MAX_SIZE = 4096 := rfl
  have h8 : PSI_HDR_LEN = 8 := rfl
  have hlen := three_le_psiLen (ts.bytes.drop off)
  unfold psiReassembleStart
  by_cases h : PSI_HDR_LEN < TS_PACKET_SIZE - off
  · simp only [if_pos h]
    have hsrc : off + min (psiLen (ts.bytes.drop off)) (TS_PACKET_SIZE - off) ≤ TS_PACKET_SIZE := by
      omega
    have hdst : 0 + min (psiLen (ts.bytes.drop off)) (TS_PACKET_SIZE - off) ≤ PSI_MAX_SIZE := by
      omega
    obtain ⟨d, hd⟩ := Block.exists_memcpy section_.data ts hsrc hdst
    have htake := Block.take_memcpy hd
    rw [Nat.zero_add, List.take_zero, List.nil_append] at htake
    have hdecl : psiLen (ts.bytes.drop off) = psiLen d.bytes := by
      refine psiLen_congr ?_
      have := congrArg (List.take 3) htake
      rwa [List.take_take, List.take_take, Nat.min_eq_left (by omega), eq_comm] at this
    rw [hd]
    refine ⟨_, _, rfl, ⟨?_, ?_, fun _ => ?_, fun _ => hdecl⟩, ?_, ?_, rfl, rfl, htake, ?_, ?_⟩
    all_goals
      first
        | omega
        | (dsimp only; omega)
  · simp only [if_neg h]
    have hsrc : off + (TS_PACKET_SIZE - off) ≤ TS_PACKET_SIZE := by omega
    have hdst : 0 + (TS_PACKET_SIZE - off) ≤ PSI_MAX_SIZE := by omega
    obtain ⟨d, hd⟩ := Block.exists_memcpy section_.data ts hsrc hdst
    have htake := Block.take_memcpy hd
    rw [Nat.zero_add, List.take_zero, List.nil_append] at htake
    rw [hd]
    refine ⟨_, _, rfl, ⟨?_, fun _ => ?_, absurd rfl, absurd rfl⟩, ?_, ?_, rfl, rfl, htake, ?_, ?_⟩
    all_goals
      first
        | omega
        | (dsimp only; omega)

/-- A header that is complete stays as it is; else it is completed first. -/
theorem completeHeader_eq_some {section_ s' : PsiSec} {ts : TsPacket} {off off' : ℕ}
    (hs : section_.Inv) (hoff : off ≤ TS_PACKET_SIZE)
    (h : completeHeader section_ ts off = some (s', off')) :
    s'.Inv ∧ s'.len ≠ 0 ∧ ∃ n, off' = off + n ∧ off' ≤ TS_PACKET_SIZE ∧
      s'.valid = section_.valid + n ∧
      s'.data.bytes.take s'.valid =
        section_.data.bytes.take section_.valid ++ (ts.bytes.drop off).take n ∧
      (section_.len ≠ 0 → s' = section_ ∧ n = 0) ∧
      (section_.len = 0 → s'.valid = PSI_HDR_LEN) := by
  unfold completeHeader at h
  split at h
  next h0 =>
    have hle := hs.header h0
    simp only [Option.bind_eq_bind, Option.bind_eq_some_iff, Option.some.injEq,
      Prod.mk.injEq] at h
    obtain ⟨d, hd, rfl, rfl⟩ := h
    have husub : usub PSI_HDR_LEN section_.valid = PSI_HDR_LEN - section_.valid :=
      usub_of_le hle (by decide)
    have hvalid : section_.valid + usub PSI_HDR_LEN section_.valid = PSI_HDR_LEN := by
      rw [husub]
      exact Nat.add_sub_cancel' hle
    have hlen := three_le_psiLen d.bytes
    refine ⟨⟨?_, fun h => ?_, fun _ => ?_, fun _ => rfl⟩, ?_, _, rfl, (Block.le_of_memcpy hd).1,
      rfl, Block.take_memcpy hd, absurd h0, fun _ => hvalid⟩
    · exact (Block.le_of_memcpy hd).2
    · exact absurd h (Nat.ne_of_gt (Nat.zero_lt_of_lt hlen))
    · exact (by decide : 3 ≤ PSI_HDR_LEN).trans_eq hvalid.symm
    · exact Nat.ne_of_gt (Nat.zero_lt_of_lt hlen)
  next h0 =>
    obtain ⟨rfl, rfl⟩ := Prod.mk.inj (Option.some.inj h)
    exact ⟨hs, h0, 0, rfl, hoff, rfl, by simp, fun _ => ⟨rfl, rfl⟩, fun h => absurd h h0⟩

/-- A packet is refused, or its payload is added, but not more than up to the end of the section. -/
theorem psiReassembleContinue_eq_some {section_ s' : PsiSec} {ts : TsPacket} {off : ℕ} {r : ℤ}
    (hs : section_.Inv) (hoff : off ≤ TS_PACKET_SIZE)
    (h : psiReassembleContinue section_ ts off = some (s', r)) :
    ((section_.cc + 1) % 16 ≠ tsCc ts ∧ s' = section_.clear ∧ r = PSI_RC_CCFAIL) ∨
    ((section_.cc + 1) % 16 = tsCc ts ∧ s'.Inv ∧ s'.cc = tsCc ts ∧
      ∃ n : ℕ, r = ((off + n : ℕ) : ℤ) ∧ off + n ≤ TS_PACKET_SIZE ∧
        s'.valid = section_.valid + n ∧
        s'.data.bytes.take s'.valid =
          section_.data.bytes.take section_.valid ++ (ts.bytes.drop off).take n ∧
        (off + n = TS_PACKET_SIZE ∨ s'.valid = s'.len) ∧
        (section_.len ≠ 0 → s'.len = section_.len ∧ n ≤ usub section_.len section_.valid) ∧
        (section_.len = 0 → PSI_HDR_LEN ≤ s'.len → s'.valid ≤ s'.len)) := by
  unfold psiReassembleContinue at h
  rw [next_cc] at h
  split at h
  next hcc =>
    obtain ⟨rfl, rfl⟩ := Prod.mk.inj (Option.some.inj h)
    exact .inl ⟨hcc, rfl, rfl⟩
  next hcc =>
    right
    simp only [Option.bind_eq_bind, Option.bind_eq_some_iff, Option.some.injEq, Prod.exists,
      Prod.mk.injEq] at h
    obtain ⟨s₁, off₁, hhead, d, hd, rfl, rfl⟩ := h
    obtain ⟨hs₁, hlen₁, n₁, rfl, hoff₁, hvalid₁, htake₁, hkeep, hheader⟩ :=
      completeHeader_eq_some hs hoff hhead
    obtain ⟨hsrc, hdst⟩ := Block.le_of_memcpy hd
    have htake := Block.take_memcpy hd
    have hroom : usub TS_PACKET_SIZE (off + n₁) = TS_PACKET_SIZE - (off + n₁) :=
      usub_of_le hoff₁ (by decide)
    -- the part ends with the packet, unless the section ends earlier
    have hend : off + n₁ + min (usub TS_PACKET_SIZE (off + n₁)) (usub s₁.len s₁.valid) =
          TS_PACKET_SIZE ∨
        s₁.valid + min (usub TS_PACKET_SIZE (off + n₁)) (usub s₁.len s₁.valid) = s₁.len := by
      by_cases hle : s₁.valid ≤ s₁.len
      · have hrest := usub_of_le hle (Nat.lt_trans hs₁.len_lt (by decide))
        omega
      · have hhuge := lt_usub_of_lt (Nat.lt_of_not_le hle) hs₁.valid_le
        omega
    have hgrow := Nat.le_add_right s₁.valid
      (min (usub TS_PACKET_SIZE (off + n₁)) (usub s₁.len s₁.valid))
    refine ⟨not_not.1 hcc, ⟨hdst, fun h => absurd h hlen₁, fun _ => ?_, fun _ => ?_⟩, rfl, _,
      congrArg _ (Nat.add_assoc _ _ _), Nat.add_assoc _ _ _ ▸ hsrc, ?_, ?_,
      hend.imp_left (Nat.add_assoc _ _ _ ▸ ·), fun h => ?_, fun h hle => ?_⟩
    · exact (hs₁.three_le hlen₁).trans hgrow
    · exact (hs₁.declared hlen₁).trans
        (take_three htake (hs₁.three_le hlen₁) hs₁.valid_le hgrow).symm
    · rw [← Nat.add_assoc, ← hvalid₁]
    · -- both parts come from the packet, one behind the other
      rw [htake, htake₁, List.take_add, List.drop_drop, List.append_assoc]
    · obtain ⟨rfl, rfl⟩ := hkeep h
      refine ⟨rfl, ?_⟩
      rw [Nat.zero_add]
      exact Nat.min_le_right _ _
    · have hvalid := hheader h
      have hle₁ : PSI_HDR_LEN ≤ s₁.len := hle
      have hrest := usub_of_le (hvalid.trans_le hle₁) (Nat.lt_trans hs₁.len_lt (by decide))
      change s₁.valid + _ ≤ s₁.len
      omega

end Kalinka.Getstream2
