import Kalinka.App.Dvb.Streamer.Plugin.Getstream2.PsiSegment

/-!
# Sections that are damaged on their way

A section is accepted if it is a multiple of the polynomial.  So the checksum detects every damage
that is confined to four bytes in a row, and a receiver gets exactly the sections that arrive in
full and undamaged.
-/

namespace Kalinka.Getstream2

/-- Up to four bytes in a row are changed, behind the length of the section. -/
def Damaged (bs bs' : List UInt8) : Prop :=
  ∃ front xs ys back, bs = front ++ xs ++ back ∧ bs' = front ++ ys ++ back ∧ 3 ≤ front.length ∧
    xs.length = ys.length ∧ xs.length ≤ CRC32_LEN ∧ xs ≠ ys

theorem crcpoly_odd : CRCPOLY_BE.getLsbD 0 = true := by decide

theorem word32_eq_word (b₀ b₁ b₂ b₃ : UInt8) :
    word32 [b₀, b₁, b₂, b₃] = Crc.word [b₀, b₁, b₂, b₃] := by
  apply BitVec.eq_of_getLsbD_eq
  intro i hi
  simp only [word32, Crc.word, List.getD_cons_zero, List.getD_cons_succ, BitVec.getLsbD_or,
    BitVec.getLsbD_xor, BitVec.getLsbD_shiftLeft, BitVec.getLsbD_setWidth,
    BitVec.getLsbD_ushiftRight, Crc.getLsbD_high, BitVec.getLsbD_zero]
  interval_cases i <;> simp

/-- A checksum is right if the section with its checksum leaves no remainder. -/
theorem crcValid_iff {bs : List UInt8} (hbs : CRC32_LEN ≤ bs.length) :
    crcValid bs = true ↔ Crc.crc CRCPOLY_BE 0xffffffff#32 bs = 0#32 := by
  have hlast : (bs.drop (bs.length - CRC32_LEN)).length = 4 := by
    rw [List.length_drop]
    exact Nat.sub_sub_self hbs
  obtain ⟨b₀, b₁, b₂, b₃, hbytes⟩ : ∃ b₀ b₁ b₂ b₃,
      bs.drop (bs.length - CRC32_LEN) = [b₀, b₁, b₂, b₃] := by
    match bs.drop (bs.length - CRC32_LEN), hlast with
    | [b₀, b₁, b₂, b₃], _ => exact ⟨b₀, b₁, b₂, b₃, rfl⟩
  have hzero (n : ℕ) : (Crc.shift CRCPOLY_BE)^[n] 0#32 = 0#32 :=
    Function.iterate_fixed (Crc.shift_zero _) n
  rw [crcValid, hbytes, word32_eq_word, crc32Be_eq_crc, decide_eq_true_iff, eq_comm]
  conv => rhs; rw [← List.take_append_drop (bs.length - CRC32_LEN) bs, hbytes]
  rw [Crc.crc_append, Crc.crc_eq_iterate_word _ _ [b₀, b₁, b₂, b₃] le_rfl]
  constructor
  · intro h
    rw [h, BitVec.xor_self, hzero]
  · intro h
    rw [← hzero (8 * [b₀, b₁, b₂, b₃].length)] at h
    exact BitVec.xor_eq_zero_iff.1 ((Crc.shift_injective crcpoly_odd).iterate _ h)

/-- **Damage that is confined to four bytes in a row is detected.** -/
theorem crcValid_of_damaged {bs bs' : List UInt8} (hbs : CRC32_LEN ≤ bs.length)
    (hvalid : crcValid bs = true) (h : Damaged bs bs') : crcValid bs' = false := by
  obtain ⟨front, xs, ys, back, rfl, rfl, -, hlen, h4, hne⟩ := h
  have hbs' : CRC32_LEN ≤ (front ++ ys ++ back).length := by
    simpa only [List.length_append, hlen] using hbs
  rw [crcValid_iff hbs] at hvalid
  rw [Bool.eq_false_iff, Ne, crcValid_iff hbs', ← hvalid]
  exact (Crc.crc_ne_of_burst crcpoly_odd hne hlen (Nat.mul_le_mul_left 8 h4) _ front back).symm

/-! ## Damage on the way -/

/-- What arrives in place of a section. -/
def Transmitted (s s' : PsiSec) : Prop := s'.content = s.content ∨ Damaged s.content s'.content

/-- The sections that arrive in full and undamaged. -/
def intact : List PsiSec → List PsiSec → List Bool → List PsiSec
  | section_ :: rest, section' :: rest', flags =>
    let pkts := partCount section_.content
    (if (flags.take pkts).all id ∧ section'.content = section_.content then [section_] else []) ++
      intact rest rest' (flags.drop pkts)
  | _, _, _ => []

theorem psiLen_content (s : PsiSec) : psiLen s.content = psiLen s.data.bytes := by
  refine psiLen_congr ?_
  rw [PsiSec.content, List.take_take, Nat.min_eq_left (three_le_psiLen _)]

theorem Damaged.length_eq {bs bs' : List UInt8} (h : Damaged bs bs') : bs'.length = bs.length := by
  obtain ⟨front, xs, ys, back, rfl, rfl, -, hlen, -⟩ := h
  simp only [List.length_append, hlen]

theorem Damaged.psiLen_eq {bs bs' : List UInt8} (h : Damaged bs bs') : psiLen bs' = psiLen bs := by
  obtain ⟨front, xs, ys, back, rfl, rfl, hfront, -⟩ := h
  refine psiLen_congr ?_
  rw [List.append_assoc, List.append_assoc, List.take_append_of_le_length hfront,
    List.take_append_of_le_length hfront]

/-- Damage leaves the length. -/
theorem Transmitted.psiLen_eq {s s' : PsiSec} (h : Transmitted s s') :
    psiLen s'.data.bytes = psiLen s.data.bytes := by
  rw [← psiLen_content, ← psiLen_content]
  rcases h with h | h
  · rw [h]
  · exact h.psiLen_eq

theorem Transmitted.wellFormed {s s' : PsiSec} (h : Transmitted s s') (hs : s.WellFormed) :
    s'.WellFormed := ⟨h.psiLen_eq ▸ hs.header_le, h.psiLen_eq ▸ hs.length_le⟩

theorem wellFormed_of_transmitted {secs secs' : List PsiSec}
    (h : List.Forall₂ Transmitted secs secs')
    (hsecs : ∀ s ∈ secs, s.WellFormed) : ∀ s' ∈ secs', s'.WellFormed := by
  induction h with
  | nil => exact fun s' hs' => absurd hs' List.not_mem_nil
  | @cons s s' secs secs' hs _ ih =>
    intro t ht
    rcases List.mem_cons.1 ht with rfl | ht
    · exact hs.wellFormed (hsecs s List.mem_cons_self)
    · exact ih (fun u hu => hsecs u (List.mem_cons_of_mem s hu)) t ht

/-- What is accepted of the sections that arrive in full is what is intact. -/
theorem filter_inFull {secs secs' : List PsiSec} (h : List.Forall₂ Transmitted secs secs')
    (hsecs : ∀ s ∈ secs, s.WellFormed ∧ crcValid s.content = true) (flags : List Bool) :
    ((inFull secs' flags).map PsiSec.content).filter crcValid =
      (intact secs secs' flags).map PsiSec.content := by
  induction h generalizing flags with
  | nil => rfl
  | @cons s s' secs secs' hs _ ih =>
    obtain ⟨hwf, hvalid⟩ := hsecs s List.mem_cons_self
    have hlen := PsiSec.length_content hwf.length_le
    have hcount : partCount s'.content = partCount s.content := by
      rw [partCount, partCount, PsiSec.length_content (hs.wellFormed hwf).length_le, hs.psiLen_eq,
        hlen]
    have hnow : ((if (flags.take (partCount s.content)).all id then [s'] else []).map
        PsiSec.content).filter crcValid =
        (if (flags.take (partCount s.content)).all id ∧ s'.content = s.content then [s]
          else []).map PsiSec.content := by
      by_cases hall : (flags.take (partCount s.content)).all id = true
      · rw [if_pos hall, List.map_singleton, List.filter_cons, List.filter_nil]
        by_cases heq : s'.content = s.content
        · rw [heq, if_pos hvalid, if_pos ⟨hall, rfl⟩, List.map_singleton]
        · have hbad := crcValid_of_damaged (hlen ▸ Nat.le_trans (by decide) hwf.header_le) hvalid
            (hs.resolve_left heq)
          rw [hbad, if_neg Bool.false_ne_true, if_neg (not_and_of_not_right _ heq), List.map_nil]
      · rw [if_neg hall, if_neg (not_and_of_not_left _ hall), List.map_nil, List.filter_nil]
    rw [inFull, intact, hcount, List.map_append, List.filter_append, List.map_append, hnow,
      ih fun t ht => hsecs t (List.mem_cons_of_mem s ht)]

/-- **A receiver gets exactly the sections that arrive in full and undamaged**, if never sixteen
packets in a row are lost and the damage of a section is confined to four bytes in a row. -/
theorem exists_reassembleAll_of_transmitted {pid : ℕ} (hpid : pid < 0x2000) (cc : ℕ)
    {secs secs' : List PsiSec} (hsecs : ∀ s ∈ secs, s.WellFormed ∧ crcValid s.content = true)
    (h : List.Forall₂ Transmitted secs secs') :
    ∃ pkts, sendSections pid cc secs' = some pkts ∧
      ∀ flags : List Bool, flags.length = pkts.length → ¬ List.replicate 16 false <:+: flags →
        ∃ last out, reassembleAll {} (Fragments.arrive flags pkts) = some (last, out) ∧
          out.map PsiSec.content = (intact secs secs' flags).map PsiSec.content := by
  obtain ⟨pkts, hpkts, hflags⟩ := exists_reassembleAll_sendSections hpid cc
    (wellFormed_of_transmitted h fun s hs => (hsecs s hs).1)
  refine ⟨pkts, hpkts, fun flags hlen hlost => ?_⟩
  obtain ⟨last, out, hout, hcontents⟩ := hflags flags hlen hlost
  exact ⟨last, out, hout, hcontents.trans (filter_inFull h hsecs flags)⟩

def patSec : PsiSec := { data := Block.ofList PSI_MAX_SIZE (patTs.bytes.drop 5) 0 }

/-- The number of the program has another bit. -/
def badSec : PsiSec := { data := Block.ofList PSI_MAX_SIZE ((patTs.bytes.drop 5).set 9 3) 0 }

theorem exists_reassembleAll_of_transmitted_bit :
    ∃ pkts, sendSections 0 15 [patSec, badSec] = some pkts ∧
      ∀ flags : List Bool, flags.length = pkts.length → ¬ List.replicate 16 false <:+: flags →
        ∃ last out, reassembleAll {} (Fragments.arrive flags pkts) = some (last, out) ∧
          out.map PsiSec.content =
            (intact [patSec, patSec] [patSec, badSec] flags).map PsiSec.content := by
  have hpat : patSec.WellFormed ∧ crcValid patSec.content = true :=
    ⟨⟨by decide +kernel, by decide +kernel⟩, by decide +kernel⟩
  have hbad : Damaged patSec.content badSec.content :=
    ⟨patSec.content.take 9, [1], [3], patSec.content.drop 10, by decide +kernel, by decide +kernel,
      by decide +kernel, rfl, by decide, by decide⟩
  refine exists_reassembleAll_of_transmitted (by decide) 15 ?_
    (.cons (.inl rfl) (.cons (.inr hbad) .nil))
  simpa using hpat

end Kalinka.Getstream2
