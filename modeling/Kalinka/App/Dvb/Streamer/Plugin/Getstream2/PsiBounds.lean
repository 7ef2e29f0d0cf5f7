import Kalinka.App.Dvb.Streamer.Plugin.Getstream2.PsiOrigin

/-!
# What keeps the reassembly inside its buffers

`psi_reassemble` checks neither the length that a section declares nor how much of a packet its
adaptation field leaves.  As long as the declared lengths fit into the buffer and hold a header, and
as long as the adaptation fields leave room for a header, it stays inside the packet and the buffer.
-/

namespace Kalinka.Getstream2

/-- The length that the section declares, if it is known, holds a header and fits into the
buffer. -/
def PsiSec.Fits (s : PsiSec) : Prop :=
  s.len = 0 ∨ PSI_HDR_LEN ≤ s.len ∧ s.len ≤ PSI_MAX_SIZE

instance (s : PsiSec) : Decidable s.Fits := inferInstanceAs (Decidable (_ ∨ _))

/-- No more has been put together than a section that holds a header declares. -/
structure Bounded (s : PsiSec) : Prop where
  inv : s.Inv
  valid_le : s.len ≠ 0 → PSI_HDR_LEN ≤ s.len → s.valid ≤ s.len

/-- The adaptation field of the packet leaves room for the header of a section. -/
def Roomy (ts : TsPacket) : Prop := tsPayloadStart ts + PSI_HDR_LEN ≤ TS_PACKET_SIZE

theorem bounded_default : Bounded {} := ⟨PsiSec.inv_default, absurd rfl⟩

theorem bounded_start {s s' : PsiSec} {ts : TsPacket} {off : ℕ} {r : ℤ}
    (hoff : off < TS_PACKET_SIZE) (h : psiReassembleStart s ts off = some (s', r)) :
    Bounded s' ∧ s'.cc = tsCc ts ∧ (off : ℤ) < r := by
  obtain ⟨s₁, n, heq, hinv, hn, -, -, hcc, -, -, hmax⟩ := exists_psiReassembleStart s ts hoff
  obtain ⟨rfl, rfl⟩ := Prod.mk.inj (Option.some.inj (heq.symm.trans h))
  exact ⟨⟨hinv, fun _ hle => hmax.trans_eq (Nat.max_eq_left hle)⟩, hcc, by omega⟩

theorem bounded_continue {s s' : PsiSec} {ts : TsPacket} {off : ℕ} {r : ℤ} (hs : Bounded s)
    (hoff : off ≤ TS_PACKET_SIZE) (h : psiReassembleContinue s ts off = some (s', r)) :
    Bounded s' ∧ (0 ≤ r → s'.cc = tsCc ts ∧ (off : ℤ) ≤ r) := by
  rcases psiReassembleContinue_eq_some hs.inv hoff h with
    ⟨-, rfl, rfl⟩ | ⟨-, hinv, hcc, n, rfl, -, hv, -, -, hkeep, hheader⟩
  · exact ⟨⟨PsiSec.Inv.clear, absurd rfl⟩, fun h => absurd h (by decide)⟩
  · refine ⟨⟨hinv, fun _ hle => ?_⟩, fun _ => ⟨hcc, by omega⟩⟩
    by_cases h0 : s.len = 0
    · exact hheader h0 hle
    · obtain ⟨hlen, hn⟩ := hkeep h0
      have hvalid := hs.valid_le h0 (hlen ▸ hle)
      have hrest := usub_of_le hvalid (Nat.lt_trans hs.inv.len_lt (by decide))
      omega

/-! ## One call -/

theorem exists_completeHeader {s : PsiSec} (ts : TsPacket) {off : ℕ} (hs : s.Inv)
    (hoff : off + PSI_HDR_LEN ≤ TS_PACKET_SIZE) :
    ∃ s' off', completeHeader s ts off = some (s', off') := by
  unfold completeHeader
  split
  next h0 =>
    have hle := hs.header h0
    have husub : usub PSI_HDR_LEN s.valid = PSI_HDR_LEN - s.valid := usub_of_le hle (by decide)
    have hmax : PSI_HDR_LEN ≤ PSI_MAX_SIZE := by decide
    have hsrc : off + usub PSI_HDR_LEN s.valid ≤ TS_PACKET_SIZE := by omega
    have hdst : s.valid + usub PSI_HDR_LEN s.valid ≤ PSI_MAX_SIZE := by omega
    obtain ⟨d, hd⟩ := Block.exists_memcpy s.data ts hsrc hdst
    simp only [hd, Option.bind_eq_bind, Option.bind_some]
    exact ⟨_, _, rfl⟩
  next h0 => exact ⟨_, _, rfl⟩

theorem exists_psiReassembleContinue {s : PsiSec} (ts : TsPacket) {off : ℕ} (hs : Bounded s)
    (hfits : s.Fits) (hoff : off + PSI_HDR_LEN ≤ TS_PACKET_SIZE) :
    ∃ s' r, psiReassembleContinue s ts off = some (s', r) := by
  unfold psiReassembleContinue
  split
  · exact ⟨_, _, rfl⟩
  · obtain ⟨s₁, off₁, hhead⟩ := exists_completeHeader ts hs.inv hoff
    obtain ⟨hs₁, hlen₁, n₁, rfl, hoff₁, hvalid₁, -, hkeep, hheader⟩ :=
      completeHeader_eq_some hs.inv (Nat.le_of_add_right_le hoff) hhead
    have hroom : usub TS_PACKET_SIZE (off + n₁) = TS_PACKET_SIZE - (off + n₁) :=
      usub_of_le hoff₁ (by decide)
    have hdst : s₁.valid + min (usub TS_PACKET_SIZE (off + n₁)) (usub s₁.len s₁.valid) ≤
        PSI_MAX_SIZE := by
      by_cases h0 : s.len = 0
      · -- a header and a packet
        have h188 : PSI_HDR_LEN + TS_PACKET_SIZE ≤ PSI_MAX_SIZE := by decide
        have := hheader h0
        omega
      · obtain ⟨rfl, rfl⟩ := hkeep h0
        obtain ⟨h8, hmax⟩ := hfits.resolve_left h0
        have hvalid := hs.valid_le h0 h8
        have hrest := usub_of_le hvalid (Nat.lt_trans hs.inv.len_lt (by decide))
        omega
    have hsrc : off + n₁ + min (usub TS_PACKET_SIZE (off + n₁)) (usub s₁.len s₁.valid) ≤
        TS_PACKET_SIZE := by omega
    obtain ⟨d, hd⟩ := Block.exists_memcpy s₁.data ts hsrc hdst
    simp only [hhead, Option.bind_eq_bind, Option.bind_some, hd]
    exact ⟨_, _, rfl⟩

theorem exists_checkSection {s : PsiSec} (hs : s.Inv) (noff : ℤ) :
    ∃ r, checkSection s noff = some r := by
  unfold checkSection
  split
  · exact ⟨_, rfl⟩
  next hpart =>
    rw [not_or, not_not, Nat.not_lt] at hpart
    have hpos : s.len ≠ 0 := by
      rw [hpart.1]
      exact Nat.ne_of_gt (Nat.lt_of_lt_of_le (by decide) hpart.2)
    have hplen : psiLen s.data.bytes = s.valid := (hs.declared hpos).symm.trans hpart.1
    have hcrc : CRC32_LEN ≤ PSI_HDR_LEN := by decide
    unfold PsiSec.psiCrcValid
    dsimp only
    rw [if_pos ⟨hplen ▸ hcrc.trans hpart.2, hplen ▸ hs.valid_le⟩]
    exact ⟨_, rfl⟩

theorem exists_payload_zero {ts : TsPacket} (hts : Roomy ts) :
    ∃ res, payload ts 0 = some res := by
  have hlt : tsPayloadStart ts < ts.bytes.length := by
    have h188 : PSI_HDR_LEN = 8 := rfl
    rw [ts.length_bytes]
    rw [Roomy] at hts
    omega
  unfold payload sectionStart
  rw [if_neg (not_not.2 rfl), List.getElem?_eq_getElem hlt]
  split
  · exact ⟨_, rfl⟩
  · split
    · exact ⟨_, rfl⟩
    · split <;> exact ⟨_, rfl⟩

/-- Without a unit start, the payload that is used is the one behind the adaptation field. -/
theorem payload_of_continue {ts : TsPacket} {p : ℕ} (hpusi : tsPusi ts = false)
    (hp : payload ts 0 = some (.ok p)) : p = tsPayloadStart ts := by
  unfold payload sectionStart at hp
  rw [if_neg (not_not.2 rfl), hpusi] at hp
  split at hp
  · cases hp
  · split at hp
    · cases hp
    · obtain ⟨q, hq, hp⟩ := Option.map_eq_some_iff.1 hp
      split at hp
      · cases hp
      · cases hp
        exact (Option.some.inj hq).symm

/-! ## One packet -/

/-- A call in a good state goes on with a good state. -/
theorem exists_psiReassemble {s : PsiSec} {ts : TsPacket} {off : ℕ} (hs : Bounded s)
    (hoff : off < TS_PACKET_SIZE) (hpay : ∃ res, payload ts off = some res)
    (hcont : tsPusi ts = false → ∀ p, payload ts off = some (.ok p) →
      ∃ s' r, psiReassembleContinue s ts p = some (s', r)) :
    ∃ s' r, psiReassemble s ts off = some (s', r) ∧ Bounded s' ∧
      (0 ≤ r → s'.cc = tsCc ts ∧ (tsPusi ts = true ∨ off = 0 → (off : ℤ) < r)) := by
  obtain ⟨res, hres⟩ := hpay
  unfold psiReassemble
  rw [hres]
  cases res with
  | error rc =>
    exact ⟨s, rc, rfl, hs, fun h => absurd (neg_of_payload_error hres) (Int.not_lt.2 h)⟩
  | ok p =>
    obtain ⟨hp, hpo⟩ := lt_of_payload_ok hres
    simp only [Option.bind_eq_bind, Option.bind_some]
    split
    · exact ⟨s, _, rfl, hs, fun h => absurd h (by decide)⟩
    · cases hpusi : tsPusi ts with
      | true =>
        obtain ⟨s', n, heq, -⟩ := exists_psiReassembleStart s ts hp
        obtain ⟨hs', hcc, hlt⟩ := bounded_start hp heq
        obtain ⟨rc, hrc⟩ := exists_checkSection hs'.inv ((p + n : ℕ) : ℤ)
        refine ⟨s', rc, ?_, hs', fun h => ?_⟩
        · simp only [startOrContinue, hpusi, if_true, heq, Option.bind_some, hrc]
        · obtain ⟨rfl, -⟩ := (checkSection_eq_some hrc).resolve_left (Int.not_lt.2 h)
          refine ⟨hcc, fun _ => ?_⟩
          by_cases h0 : off = 0
          · omega
          · exact hpo h0 ▸ hlt
      | false =>
        obtain ⟨s', noff, heq⟩ := hcont hpusi p hres
        obtain ⟨hs', hcc⟩ := bounded_continue hs hp.le heq
        obtain ⟨rc, hrc⟩ := exists_checkSection hs'.inv noff
        refine ⟨s', rc, ?_, hs', fun h => ?_⟩
        · simp only [startOrContinue, hpusi, Bool.false_eq_true, if_false, heq, Option.bind_some,
            hrc]
        · obtain ⟨rfl, -⟩ := (checkSection_eq_some hrc).resolve_left (Int.not_lt.2 h)
          refine ⟨(hcc h).1, fun hfirst => ?_⟩
          obtain rfl := hfirst.resolve_left Bool.false_ne_true
          have hpos := payload_pos hres
          have hle := (hcc h).2
          omega

/-- A later call for the same packet. -/
theorem exists_psiReassemble_later {s : PsiSec} {ts : TsPacket} {off : ℕ} (hs : Bounded s)
    (hcc : s.cc = tsCc ts) (hpos : off ≠ 0) (hoff : off < TS_PACKET_SIZE) :
    ∃ s' r, psiReassemble s ts off = some (s', r) ∧ Bounded s' ∧
      (0 ≤ r → s'.cc = tsCc ts ∧ (off : ℤ) < r) := by
  have hne : (s.cc + 1) % 16 ≠ tsCc ts := by
    have := tsCc_lt ts
    omega
  have hcont (p : ℕ) : psiReassembleContinue s ts p = some (s.clear, PSI_RC_CCFAIL) := by
    rw [psiReassembleContinue, next_cc, if_pos hne]
  have hpay : ∃ res, payload ts off = some res := by
    rw [payload, if_pos hpos, List.getElem?_eq_getElem (hoff.trans_eq ts.length_bytes.symm)]
    exact ⟨_, rfl⟩
  obtain ⟨s', r, heq, hs', hmore⟩ :=
    exists_psiReassemble hs hoff hpay fun _ p _ => ⟨_, _, hcont p⟩
  refine ⟨s', r, heq, hs', fun h => ⟨(hmore h).1, ?_⟩⟩
  cases hpusi : tsPusi ts with
  | true => exact (hmore h).2 (.inl hpusi)
  | false =>
    -- the continuity counter ends the loop
    rcases psiReassemble_eq_some heq with ⟨-, hr, -⟩ | ⟨p, -, -, noff, hstep, hr⟩
    · exact absurd hr (Int.not_lt.2 h)
    · rw [startOrContinue, hpusi, if_neg Bool.false_ne_true, hcont] at hstep
      obtain ⟨-, rfl⟩ := Prod.mk.inj (Option.some.inj hstep)
      obtain ⟨rfl, -⟩ := hr.resolve_left (Int.not_lt.2 h)
      exact absurd h (by decide)

theorem exists_sectionLoop {s : PsiSec} {ts : TsPacket} {off fuel : ℕ} (hs : Bounded s)
    (hcc : s.cc = tsCc ts) (hpos : off ≠ 0) (hfuel : TS_PACKET_SIZE - off < fuel) :
    ∃ last out, sectionLoop fuel s ts off = some (last, out) ∧ Bounded last := by
  induction fuel generalizing s off with
  | zero => exact absurd hfuel (Nat.not_lt_zero _)
  | succ fuel ih =>
    unfold sectionLoop
    split
    next hoff =>
      obtain ⟨s', r, heq, hs', hmore⟩ := exists_psiReassemble_later hs hcc hpos hoff
      simp only [heq, Option.bind_eq_bind, Option.bind_some]
      split
      · exact ⟨_, _, rfl, hs'⟩
      next hr =>
        obtain ⟨hcc', hlt⟩ := hmore (Int.not_lt.1 hr)
        have hpos' : r.toNat ≠ 0 := by omega
        obtain ⟨last, out, hloop, hlast⟩ := ih hs' hcc' hpos' (by omega)
        simp only [hloop, Option.bind_some]
        exact ⟨_, _, rfl, hlast⟩
    next hoff => exact ⟨_, _, rfl, hs⟩

theorem exists_dvrSectionReassemble {s : PsiSec} {ts : TsPacket} (hs : Bounded s) (hfits : s.Fits)
    (hts : Roomy ts) :
    ∃ last out, dvrSectionReassemble s ts = some (last, out) ∧ Bounded last := by
  have hcont : tsPusi ts = false → ∀ p, payload ts 0 = some (.ok p) →
      ∃ s' r, psiReassembleContinue s ts p = some (s', r) := fun hpusi p hp =>
    exists_psiReassembleContinue ts hs hfits (payload_of_continue hpusi hp ▸ hts)
  obtain ⟨s', r, heq, hs', hmore⟩ :=
    exists_psiReassemble hs (by decide) (exists_payload_zero hts) hcont
  unfold dvrSectionReassemble sectionLoop
  rw [if_pos (by decide)]
  simp only [heq, Option.bind_eq_bind, Option.bind_some]
  split
  · exact ⟨_, _, rfl, hs'⟩
  next hr =>
    obtain ⟨hcc, hlt⟩ := hmore (Int.not_lt.1 hr)
    have hpos := hlt (.inr rfl)
    have hpos' : r.toNat ≠ 0 := by omega
    have hfuel : TS_PACKET_SIZE - r.toNat < TS_PACKET_SIZE + 1 := by omega
    obtain ⟨last, out, hloop, hlast⟩ := exists_sectionLoop hs' hcc hpos' hfuel
    simp only [hloop, Option.bind_some]
    exact ⟨_, _, rfl, hlast⟩

/-! ## Whole runs -/

theorem isSome_of_bounded {s : PsiSec} {pkts : List TsPacket} (hs : Bounded s)
    (hpkts : ∀ ts ∈ pkts, Roomy ts)
    (hfits : ∀ front, front <+: pkts → ∀ s' out, reassembleAll s front = some (s', out) → s'.Fits) :
    (reassembleAll s pkts).isSome := by
  induction pkts generalizing s with
  | nil => rfl
  | cons ts rest ih =>
    have hnow := hfits [] (List.nil_prefix) s [] rfl
    obtain ⟨s', out, hts, hs'⟩ := exists_dvrSectionReassemble hs hnow (hpkts ts List.mem_cons_self)
    have hfits' : ∀ front, front <+: rest → ∀ t o, reassembleAll s' front = some (t, o) → t.Fits :=
      fun front hfront t o ho =>
        hfits (ts :: front) ((List.prefix_cons_inj ts).2 hfront) t (out ++ o) (by
          simp [reassembleAll, hts, ho])
    have hrest := ih hs' (fun t ht => hpkts t (List.mem_cons_of_mem ts ht)) hfits'
    obtain ⟨⟨last, outs⟩, hlast⟩ := Option.isSome_iff_exists.1 hrest
    simp [reassembleAll, hts, hlast]

/-- **As long as the sections fit and the packets leave room for a header, nothing is read outside
of a packet and nothing is written outside of the buffer.** -/
theorem isSome_reassembleAll {pkts : List TsPacket} (hpkts : ∀ ts ∈ pkts, Roomy ts)
    (hfits : ∀ front, front <+: pkts → ∀ s out, reassembleAll {} front = some (s, out) → s.Fits) :
    (reassembleAll {} pkts).isSome :=
  isSome_of_bounded bounded_default hpkts hfits

theorem isSome_reassembleAll_patTs : (reassembleAll {} [patTs, patTs]).isSome := by
  refine isSome_reassembleAll ?_ fun front hfront s out h => ?_
  · simp only [List.mem_cons, List.not_mem_nil, or_false, or_self, forall_eq, Roomy]
    decide +kernel
  · have hfits : ∀ front ∈ [patTs, patTs].inits, (reassembleAll {} front).all (·.1.Fits) := by
      decide +kernel
    have hs := hfits front ((List.mem_inits _ _).2 hfront)
    rw [h] at hs
    exact of_decide_eq_true hs

end Kalinka.Getstream2
