import Kalinka.App.Dvb.Streamer.Plugin.Getstream2.Psi
import Mathlib.Data.List.Chain

/-!
# Where a section comes from

Whatever packets arrive, a section that is given to the callbacks is never stitched together from
what does not belong together: it has a checksum that is right, and its bytes come from one unit
start and the packets that follow it without a gap in their continuity counters.
-/

namespace Kalinka.Getstream2

/-- Does `psi_reassemble` look at the payload of the packet? -/
def usable (ts : TsPacket) : Bool :=
  match payload ts 0 with
  | some (.ok _) => true
  | _ => false

/-- The payload of a packet, in a unit start from the section on that the pointer names. -/
def payloadOf (ts : TsPacket) : List UInt8 :=
  match payload ts 0 with
  | some (.ok p) => ts.bytes.drop p
  | _ => []

/-- A packet goes on with what another one began. -/
def Follows (a b : TsPacket) : Prop := tsPusi b = false ∧ (tsCc a + 1) % 16 = tsCc b

/-- A unit start, and packets that go on with it one after the other. -/
def Unbroken (first : TsPacket) (rest : List TsPacket) : Prop :=
  tsPusi first = true ∧ List.IsChain Follows (first :: rest)

/-- What an unbroken sequence of packets carries from the byte `skip` on. -/
def carried (first : TsPacket) (rest : List TsPacket) (skip : ℕ) : List UInt8 :=
  (payloadOf first).drop skip ++ rest.flatMap payloadOf

/-- The section is complete, and its checksum is right. -/
def PsiSec.Complete (s : PsiSec) : Prop :=
  s.len = s.valid ∧ PSI_HDR_LEN ≤ s.valid ∧ s.psiCrcValid = some true

/-- What has been put together of a section comes from the end of `hist`; a section that is complete
may have left something of it. -/
structure Gathered (hist : List TsPacket) (s : PsiSec) : Prop where
  inv : s.Inv
  origin : s.valid ≠ 0 → ∃ front first rest skip, hist = front ++ first :: rest ∧
    Unbroken first rest ∧ tsCc ((first :: rest).getLast (List.cons_ne_nil _ _)) = s.cc ∧
    (s.data.bytes.take s.valid = carried first rest skip ∨
      s.valid = s.len ∧ s.data.bytes.take s.valid <+: carried first rest skip)

/-! ## One call -/

theorem neg_of_payload_error {ts : TsPacket} {off : ℕ} {rc : ℤ}
    (h : payload ts off = some (.error rc)) : rc < 0 := by
  unfold payload at h
  split at h
  · obtain ⟨b, -, hb⟩ := Option.map_eq_some_iff.1 h
    split at hb
    · cases hb
      decide
    · cases hb
  · split at h
    · cases h
      decide
    · split at h
      · cases h
        decide
      · obtain ⟨p, -, hp⟩ := Option.map_eq_some_iff.1 h
        split at hp
        · cases hp
          decide
        · cases hp

theorem lt_of_payload_ok {ts : TsPacket} {off p : ℕ} (h : payload ts off = some (.ok p)) :
    p < TS_PACKET_SIZE ∧ (off ≠ 0 → p = off) := by
  unfold payload at h
  split at h
  next h0 =>
    obtain ⟨b, hb, hp⟩ := Option.map_eq_some_iff.1 h
    split at hp
    · cases hp
    · cases hp
      obtain ⟨hlt, -⟩ := List.getElem?_eq_some_iff.1 hb
      exact ⟨hlt.trans_eq ts.length_bytes, fun _ => rfl⟩
  next h0 =>
    refine ⟨?_, fun h => absurd h h0⟩
    split at h
    · cases h
    · split at h
      · cases h
      · obtain ⟨q, -, hq⟩ := Option.map_eq_some_iff.1 h
        split at hq
        · cases hq
        next hlt =>
          cases hq
          exact Nat.lt_of_not_le hlt

/-- The payload of a packet is behind its header. -/
theorem payload_pos {ts : TsPacket} {p : ℕ} (h : payload ts 0 = some (.ok p)) : 0 < p := by
  unfold payload at h
  rw [if_neg (not_not.2 rfl)] at h
  split at h
  · cases h
  · split at h
    · cases h
    · obtain ⟨q, hq, hp⟩ := Option.map_eq_some_iff.1 h
      split at hp
      · cases hp
      · cases hp
        unfold sectionStart at hq
        split at hq
        · obtain ⟨b, -, rfl⟩ := Option.map_eq_some_iff.1 hq
          exact Nat.succ_pos _
        · obtain rfl := Option.some.inj hq
          exact Nat.succ_pos _

theorem checkSection_eq_some {s : PsiSec} {noff r : ℤ} (h : checkSection s noff = some r) :
    r < 0 ∨ r = noff ∧ s.Complete := by
  unfold checkSection at h
  split at h
  · cases h
    exact .inl (by decide)
  next hpart =>
    rw [not_or, not_not, Nat.not_lt] at hpart
    obtain ⟨ok, hok, rfl⟩ := Option.map_eq_some_iff.1 h
    cases ok
    · exact .inl (by rw [if_neg Bool.false_ne_true]; decide)
    · exact .inr ⟨rfl, hpart.1, hpart.2, hok⟩

/-- A call leaves the section, or it uses the payload of the packet. -/
theorem psiReassemble_eq_some {s s' : PsiSec} {ts : TsPacket} {off : ℕ} {r : ℤ}
    (h : psiReassemble s ts off = some (s', r)) :
    (s' = s ∧ r < 0 ∧ ((∃ rc, payload ts off = some (.error rc)) ∨ s.valid = 0)) ∨
    ∃ p, payload ts off = some (.ok p) ∧ (tsPusi ts = true ∨ s.valid ≠ 0) ∧
      ∃ noff, startOrContinue s ts p = some (s', noff) ∧ (r < 0 ∨ r = noff ∧ s'.Complete) := by
  unfold psiReassemble at h
  obtain ⟨res, hres, h⟩ := Option.bind_eq_some_iff.1 h
  cases res with
  | error rc =>
    obtain ⟨rfl, rfl⟩ := Prod.mk.inj (Option.some.inj h)
    exact .inl ⟨rfl, neg_of_payload_error hres, .inl ⟨_, hres⟩⟩
  | ok p =>
    dsimp only at h
    split at h
    next hidle =>
      obtain ⟨rfl, rfl⟩ := Prod.mk.inj (Option.some.inj h)
      exact .inl ⟨rfl, by decide, .inr hidle.2⟩
    next hidle =>
      obtain ⟨⟨s₁, noff⟩, hstep, h⟩ := Option.bind_eq_some_iff.1 h
      obtain ⟨rc, hrc, h⟩ := Option.bind_eq_some_iff.1 h
      obtain ⟨rfl, rfl⟩ := Prod.mk.inj (Option.some.inj h)
      have hused : tsPusi ts = true ∨ s.valid ≠ 0 := by
        cases hp : tsPusi ts
        · exact .inr fun h0 => hidle ⟨by simp [hp], h0⟩
        · exact .inl rfl
      exact .inr ⟨p, hres, hused, noff, hstep, checkSection_eq_some hrc⟩

theorem payloadOf_eq {ts : TsPacket} {p : ℕ} (h : payload ts 0 = some (.ok p)) :
    payloadOf ts = ts.bytes.drop p := by
  rw [payloadOf, h]

theorem usable_of_ok {ts : TsPacket} {p : ℕ} (h : payload ts 0 = some (.ok p)) :
    usable ts = true := by
  rw [usable, h]

theorem Gathered.of_valid_eq_zero {hist : List TsPacket} {s : PsiSec} (hs : s.Inv)
    (h : s.valid = 0) : Gathered hist s := ⟨hs, fun hne => absurd h hne⟩

/-- A section that begins in a packet. -/
theorem Gathered.start (hist : List TsPacket) {s s' : PsiSec} {ts : TsPacket} {off p : ℕ} {r : ℤ}
    (hp : payload ts 0 = some (.ok p)) (hpusi : tsPusi ts = true) (hpo : p ≤ off)
    (hoff : off < TS_PACKET_SIZE) (h : psiReassembleStart s ts off = some (s', r)) :
    Gathered (hist ++ [ts]) s' ∧ s'.cc = tsCc ts ∧ off < r.toNat := by
  obtain ⟨s₁, n, heq, hinv, hn, hle, hvalid, hcc, htake, hend, -⟩ :=
    exists_psiReassembleStart s ts hoff
  obtain ⟨rfl, rfl⟩ := Prod.mk.inj (Option.some.inj (heq.symm.trans h))
  refine ⟨⟨hinv, fun _ => ⟨hist, ts, [], off - p, rfl, ⟨hpusi, List.IsChain.singleton _⟩, hcc.symm,
    ?_⟩⟩, hcc, ?_⟩
  · have hcarried : carried ts [] (off - p) = ts.bytes.drop off := by
      rw [carried, payloadOf_eq hp, List.drop_drop, Nat.add_sub_cancel' hpo]
      exact List.append_nil _
    rw [hcarried, hvalid, htake]
    refine hend.imp (fun hfull => ?_) fun hlen => ⟨hvalid ▸ hlen, List.take_prefix _ _⟩
    rw [List.take_of_length_le]
    rw [List.length_drop, ts.length_bytes]
    omega
  · rw [Int.toNat_natCast]
    omega

/-- A section that goes on in a packet. -/
theorem Gathered.continue {hist : List TsPacket} {s s' : PsiSec} {ts : TsPacket} {p : ℕ} {r : ℤ}
    (hs : Gathered hist s) (hp : payload ts 0 = some (.ok p)) (hpusi : tsPusi ts = false)
    (hvalid : s.valid ≠ 0) (h : psiReassembleContinue s ts p = some (s', r)) :
    Gathered (hist ++ [ts]) s' ∧ (s'.valid ≠ 0 → s'.cc = tsCc ts ∧ p ≤ r.toNat) := by
  obtain ⟨hlt, -⟩ := lt_of_payload_ok hp
  rcases psiReassembleContinue_eq_some hs.inv hlt.le h with
    ⟨-, rfl, -⟩ | ⟨hcc, hinv, hcc', n, rfl, -, hv, htake, hend, hkeep, -⟩
  · exact ⟨.of_valid_eq_zero PsiSec.Inv.clear rfl, absurd rfl⟩
  · refine ⟨⟨hinv, fun _ => ?_⟩, fun _ => ⟨hcc', ?_⟩⟩
    · obtain ⟨front, first, rest, skip, rfl, ⟨hfirst, hchain⟩, hlast, hbytes⟩ := hs.origin hvalid
      have hcarried : carried first (rest ++ [ts]) skip =
          carried first rest skip ++ ts.bytes.drop p := by
        simp [carried, payloadOf_eq hp]
      refine ⟨front, first, rest ++ [ts], skip, by simp, ⟨hfirst, ?_⟩, by simp [hcc'], ?_⟩
      · rw [← List.cons_append]
        refine List.IsChain.append hchain (List.IsChain.singleton _) ?_
        rintro a ha b hb
        rw [List.getLast?_eq_some_getLast (List.cons_ne_nil _ _), Option.mem_some_iff] at ha
        rw [List.head?_cons, Option.mem_some_iff] at hb
        subst ha hb
        exact ⟨hpusi, hlast.symm ▸ hcc⟩
      · rw [hcarried, htake]
        rcases hbytes with hbytes | ⟨hfull, hbytes⟩
        · rw [hbytes]
          refine hend.imp (fun hall => ?_) fun hlen => ⟨hlen, ?_⟩
          · rw [List.take_of_length_le]
            rw [List.length_drop, ts.length_bytes]
            omega
          · exact (List.prefix_append_right_inj _).2 (List.take_prefix _ _)
        · -- nothing is added to a section that is complete
          obtain ⟨hlen, hn⟩ := hkeep (hfull ▸ hvalid)
          rw [hfull, usub_of_le le_rfl (Nat.lt_trans hs.inv.len_lt (by decide)), Nat.sub_self,
            Nat.le_zero] at hn
          subst hn
          refine .inr ⟨by rw [hv, hlen, hfull, Nat.add_zero], ?_⟩
          rw [List.take_zero, List.append_nil]
          exact hbytes.trans (List.prefix_append _ _)
    · rw [Int.toNat_natCast]
      exact Nat.le_add_right p n

/-! ## One packet -/

/-- The first call for a packet. -/
theorem Gathered.first {hist : List TsPacket} {s s' : PsiSec} {ts : TsPacket} {r : ℤ}
    (hs : Gathered hist s) (h : psiReassemble s ts 0 = some (s', r)) :
    Gathered (hist ++ [ts].filter usable) s' ∧
      (0 ≤ r → s'.Complete ∧ s'.cc = tsCc ts ∧
        ∃ p, payload ts 0 = some (.ok p) ∧ p ≤ r.toNat) := by
  rcases psiReassemble_eq_some h with ⟨rfl, hr, hwhy⟩ | ⟨p, hp, hused, noff, hstep, hr⟩
  · refine ⟨?_, fun h0 => absurd hr (Int.not_lt.2 h0)⟩
    rcases hwhy with ⟨rc, hrc⟩ | h0
    · have hskip : usable ts = false := by rw [usable, hrc]
      simpa [hskip] using hs
    · exact .of_valid_eq_zero hs.inv h0
  · have hkeep : [ts].filter usable = [ts] := by simp [usable_of_ok hp]
    rw [hkeep]
    unfold startOrContinue at hstep
    split at hstep
    next hpusi =>
      obtain ⟨hs', hcc, hlt⟩ :=
        Gathered.start hist hp hpusi le_rfl (lt_of_payload_ok hp).1 hstep
      refine ⟨hs', fun h0 => ?_⟩
      obtain ⟨rfl, hcomplete⟩ := hr.resolve_left (Int.not_lt.2 h0)
      exact ⟨hcomplete, hcc, p, hp, hlt.le⟩
    next hpusi =>
      rw [Bool.not_eq_true] at hpusi
      obtain ⟨hs', hcc⟩ := hs.continue hp hpusi (hused.resolve_left (by simp [hpusi])) hstep
      refine ⟨hs', fun h0 => ?_⟩
      obtain ⟨rfl, hcomplete⟩ := hr.resolve_left (Int.not_lt.2 h0)
      have hvalid : s'.valid ≠ 0 := Nat.ne_of_gt (Nat.lt_of_lt_of_le (by decide) hcomplete.2.1)
      exact ⟨hcomplete, (hcc hvalid).1, p, hp, (hcc hvalid).2⟩

/-- A later call for the same packet: only a unit start has more sections in it. -/
theorem Gathered.later {hist : List TsPacket} {s s' : PsiSec} {ts : TsPacket} {off p : ℕ} {r : ℤ}
    (hs : Gathered (hist ++ [ts]) s) (hcc : s.cc = tsCc ts) (hp : payload ts 0 = some (.ok p))
    (hpo : p ≤ off) (hoff : off ≠ 0) (h : psiReassemble s ts off = some (s', r)) :
    Gathered (hist ++ [ts]) s' ∧ (0 ≤ r → s'.Complete ∧ s'.cc = tsCc ts ∧ p ≤ r.toNat) := by
  rcases psiReassemble_eq_some h with ⟨rfl, hr, -⟩ | ⟨q, hq, -, noff, hstep, hr⟩
  · exact ⟨hs, fun h0 => absurd hr (Int.not_lt.2 h0)⟩
  · obtain ⟨hlt, hqo⟩ := lt_of_payload_ok hq
    obtain rfl := hqo hoff
    unfold startOrContinue at hstep
    split at hstep
    next hpusi =>
      obtain ⟨hs', hcc', hlt'⟩ := Gathered.start hist hp hpusi hpo hlt hstep
      refine ⟨hs', fun h0 => ?_⟩
      obtain ⟨rfl, hcomplete⟩ := hr.resolve_left (Int.not_lt.2 h0)
      exact ⟨hcomplete, hcc', hpo.trans hlt'.le⟩
    next hpusi =>
      -- the packet has its own continuity counter, not the next one
      rcases psiReassembleContinue_eq_some hs.inv hlt.le hstep with ⟨-, rfl, rfl⟩ | ⟨hnext, -⟩
      · refine ⟨.of_valid_eq_zero PsiSec.Inv.clear rfl, fun h0 => ?_⟩
        obtain ⟨rfl, -⟩ := hr.resolve_left (Int.not_lt.2 h0)
        exact absurd h0 (by decide)
      · have := tsCc_lt ts
        omega

theorem Gathered.loop {hist : List TsPacket} {s last : PsiSec} {ts : TsPacket} {off p fuel : ℕ}
    {out : List PsiSec} (hs : Gathered (hist ++ [ts]) s) (hcc : s.cc = tsCc ts)
    (hp : payload ts 0 = some (.ok p)) (hpo : p ≤ off) (hoff : off ≠ 0)
    (h : sectionLoop fuel s ts off = some (last, out)) :
    Gathered (hist ++ [ts]) last ∧ ∀ d ∈ out, d.Complete ∧ Gathered (hist ++ [ts]) d := by
  induction fuel generalizing s off out with
  | zero => cases h
  | succ fuel ih =>
    unfold sectionLoop at h
    split at h
    · obtain ⟨⟨s', r⟩, hstep, h⟩ := Option.bind_eq_some_iff.1 h
      obtain ⟨hs', hmore⟩ := hs.later hcc hp hpo hoff hstep
      dsimp only at h
      split at h
      · obtain ⟨rfl, rfl⟩ := Prod.mk.inj (Option.some.inj h)
        exact ⟨hs', fun d hd => absurd hd List.not_mem_nil⟩
      next hr =>
        obtain ⟨hcomplete, hcc', hpr⟩ := hmore (Int.not_lt.1 hr)
        obtain ⟨⟨last', out'⟩, hloop, h⟩ := Option.bind_eq_some_iff.1 h
        obtain ⟨rfl, rfl⟩ := Prod.mk.inj (Option.some.inj h)
        have hpos : r.toNat ≠ 0 := by
          have := payload_pos hp
          omega
        obtain ⟨hlast, hout⟩ := ih hs' hcc' hpr hpos hloop
        refine ⟨hlast, fun d hd => ?_⟩
        rcases List.mem_cons.1 hd with rfl | hd
        · exact ⟨hcomplete, hs'⟩
        · exact hout d hd
    · obtain ⟨rfl, rfl⟩ := Prod.mk.inj (Option.some.inj h)
      exact ⟨hs, fun d hd => absurd hd List.not_mem_nil⟩

theorem Gathered.packet {hist : List TsPacket} {s last : PsiSec} {ts : TsPacket}
    {out : List PsiSec} (hs : Gathered hist s) (h : dvrSectionReassemble s ts = some (last, out)) :
    Gathered (hist ++ [ts].filter usable) last ∧
      ∀ d ∈ out, d.Complete ∧ Gathered (hist ++ [ts].filter usable) d := by
  unfold dvrSectionReassemble sectionLoop at h
  rw [if_pos (by decide)] at h
  obtain ⟨⟨s', r⟩, hstep, h⟩ := Option.bind_eq_some_iff.1 h
  obtain ⟨hs', hmore⟩ := hs.first hstep
  dsimp only at h
  split at h
  · obtain ⟨rfl, rfl⟩ := Prod.mk.inj (Option.some.inj h)
    exact ⟨hs', fun d hd => absurd hd List.not_mem_nil⟩
  next hr =>
    obtain ⟨hcomplete, hcc', p, hp, hpr⟩ := hmore (Int.not_lt.1 hr)
    obtain ⟨⟨last', out'⟩, hloop, h⟩ := Option.bind_eq_some_iff.1 h
    obtain ⟨rfl, rfl⟩ := Prod.mk.inj (Option.some.inj h)
    have hkeep : [ts].filter usable = [ts] := by simp [usable_of_ok hp]
    rw [hkeep] at hs' ⊢
    have hpos : r.toNat ≠ 0 := by
      have := payload_pos hp
      omega
    obtain ⟨hlast, hout⟩ := hs'.loop hcc' hp hpr hpos hloop
    refine ⟨hlast, fun d hd => ?_⟩
    rcases List.mem_cons.1 hd with rfl | hd
    · exact ⟨hcomplete, hs'⟩
    · exact hout d hd

/-! ## Whole runs -/

theorem Gathered.run {hist pkts : List TsPacket} {s last : PsiSec} {out : List PsiSec}
    (hs : Gathered hist s) (h : reassembleAll s pkts = some (last, out)) :
    ∀ d ∈ out, d.Complete ∧ ∃ hist', hist' <+: hist ++ pkts.filter usable ∧ Gathered hist' d := by
  induction pkts generalizing hist s out with
  | nil =>
    cases h
    exact fun d hd => absurd hd List.not_mem_nil
  | cons ts rest ih =>
    obtain ⟨⟨s', out₁⟩, hts, h⟩ := Option.bind_eq_some_iff.1 h
    obtain ⟨⟨last', out₂⟩, hrest, h⟩ := Option.bind_eq_some_iff.1 h
    obtain ⟨rfl, rfl⟩ := Prod.mk.inj (Option.some.inj h)
    obtain ⟨hs', hout₁⟩ := hs.packet hts
    have hsplit : hist ++ (ts :: rest).filter usable =
        hist ++ [ts].filter usable ++ rest.filter usable := by
      rw [List.append_assoc, ← List.filter_append]
      rfl
    rw [hsplit]
    intro d hd
    rcases List.mem_append.1 hd with hd | hd
    · obtain ⟨hcomplete, hd⟩ := hout₁ d hd
      exact ⟨hcomplete, _, List.prefix_append _ _, hd⟩
    · exact ih hs' hrest d hd

/-- The bytes that a callback reads of a section that is complete. -/
theorem PsiSec.Complete.content_eq {d : PsiSec} (hd : d.Complete) (hinv : d.Inv) :
    d.content = d.data.bytes.take d.valid ∧ d.content.length = d.valid ∧
      crcValid d.content = true := by
  obtain ⟨hlen, hvalid, hcrc⟩ := hd
  have hpos : d.len ≠ 0 := by
    rw [hlen]
    exact Nat.ne_of_gt (Nat.lt_of_lt_of_le (by decide) hvalid)
  have hplen : psiLen d.data.bytes = d.valid := (hinv.declared hpos).symm.trans hlen
  refine ⟨by rw [content, hplen], ?_, ?_⟩
  · rw [content, hplen]
    exact List.length_take_of_le (hinv.valid_le.trans_eq d.data.length_bytes.symm)
  · unfold psiCrcValid at hcrc
    dsimp only at hcrc
    split at hcrc
    · exact Option.some.inj hcrc
    · cases hcrc

/-- What a callback reads of a section that is complete. -/
theorem Gathered.content {hist : List TsPacket} {d : PsiSec} (h : Gathered hist d)
    (hcomplete : d.Complete) :
    PSI_HDR_LEN ≤ d.content.length ∧ d.content.length = psiLen d.content ∧
      crcValid d.content = true ∧
      ∃ front first rest skip, hist = front ++ first :: rest ∧ Unbroken first rest ∧
        d.content <+: carried first rest skip := by
  obtain ⟨hcontent, hlen, hcrc⟩ := hcomplete.content_eq h.inv
  have hvalid : d.valid ≠ 0 := Nat.ne_of_gt (Nat.lt_of_lt_of_le (by decide) hcomplete.2.1)
  obtain ⟨front, first, rest, skip, hhist, hunbroken, -, hbytes⟩ := h.origin hvalid
  have hdecl : psiLen d.content = d.valid := by
    have h3 : 3 ≤ d.valid := Nat.le_trans (by decide) hcomplete.2.1
    have hpos : d.len ≠ 0 := hcomplete.1.symm ▸ hvalid
    have hhead : (d.data.bytes.take d.valid).take 3 = d.data.bytes.take 3 := by
      rw [List.take_take, Nat.min_eq_left h3]
    rw [hcontent, psiLen_congr hhead, ← h.inv.declared hpos, hcomplete.1]
  refine ⟨hlen ▸ hcomplete.2.1, hlen.trans hdecl.symm, hcrc, front, first, rest, skip, hhist,
    hunbroken, ?_⟩
  rw [hcontent]
  exact hbytes.elim (fun h => h ▸ List.prefix_refl _) And.right

/-- **Every section that is given to the callbacks is whole, has a checksum that is right, and comes
from a unit start and the packets that follow it without a gap.** -/
theorem section_of_reassembleAll {pkts : List TsPacket} {last d : PsiSec} {out : List PsiSec}
    (h : reassembleAll {} pkts = some (last, out)) (hd : d ∈ out) :
    PSI_HDR_LEN ≤ d.content.length ∧ d.content.length = psiLen d.content ∧
      crcValid d.content = true ∧
      ∃ front first rest back skip, pkts.filter usable = front ++ first :: rest ++ back ∧
        Unbroken first rest ∧ d.content <+: carried first rest skip := by
  have hstart : Gathered [] {} := .of_valid_eq_zero PsiSec.inv_default rfl
  obtain ⟨hcomplete, hist', ⟨back, hback⟩, hgath⟩ := hstart.run h d hd
  obtain ⟨hheader, hlen, hcrc, front, first, rest, skip, rfl, hunbroken, hcontent⟩ :=
    hgath.content hcomplete
  exact ⟨hheader, hlen, hcrc, front, first, rest, back, skip, hback.symm, hunbroken, hcontent⟩

/-- A packet with a program association table of one program. -/
def patTs : TsPacket :=
  Block.ofList TS_PACKET_SIZE [0x47, 0x40, 0, 0x10, 0, 0, 0x80, 0x0d, 0, 0, 1, 0, 0, 0, 1, 1, 0,
    0x0a, 0x20, 0x4f, 0x99] 0xff

theorem section_of_reassembleAll_patTs :
    ∃ last d out, reassembleAll {} [patTs] = some (last, d :: out) ∧
      PSI_HDR_LEN ≤ d.content.length ∧ d.content.length = psiLen d.content ∧
      crcValid d.content = true ∧
      ∃ front first rest back skip, [patTs].filter usable = front ++ first :: rest ++ back ∧
        Unbroken first rest ∧ d.content <+: carried first rest skip := by
  have hrun : (reassembleAll {} [patTs]).any (·.2 ≠ []) = true := by decide +kernel
  obtain ⟨⟨last, out⟩, h, hout⟩ := (Option.any_eq_true _ _).1 hrun
  obtain ⟨d, out, rfl⟩ := List.exists_cons_of_ne_nil (of_decide_eq_true hout)
  exact ⟨last, d, out, h, section_of_reassembleAll h List.mem_cons_self⟩

end Kalinka.Getstream2
