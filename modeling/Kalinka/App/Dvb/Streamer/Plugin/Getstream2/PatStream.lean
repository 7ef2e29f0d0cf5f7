import Kalinka.App.Dvb.Streamer.Plugin.Getstream2.Pat

/-!
# The tables of a stream at a receiver

`current_of_streamSendPats` follows the tables of a stream over a channel that loses packets to an
adapter that receives them.
-/

namespace Kalinka.Getstream2

/-- What `pat_parse` reads of a table that was sent: its programs, and its checksum as one more. -/
def received (program : List PatProg) : List PatProg :=
  program ++ [readProgram (crcBytes (crc32Be 0 0xffffffff#32 (patFront program 0 0)))]

/-- The programs of the first table that arrives in full. -/
def firstInFull : List (List PatProg) → List Bool → Option (List PatProg)
  | [], _ => none
  | program :: rest, flags =>
    let pkts := partCount (patBytes program 0 0)
    if (flags.take pkts).all id then some program else firstInFull rest (flags.drop pkts)

/-- The section carries the table of a stream. -/
def Carries (section_ : PsiSec) (program : List PatProg) : Prop :=
  section_.content = patBytes program 0 0

/-! ## One table -/

theorem exists_patSection {program : List PatProg} (h : Fitting program) :
    ∃ s, patSection program 0 0 = some s ∧ Carries s program ∧ s.WellFormed := by
  have hlen := length_patBytes program 0 0
  have hfit : (patBytes program 0 0).length ≤ PSI_MAX_SIZE := by
    have := h.1
    rw [hlen, PSI_MAX_SIZE]
    omega
  have htake : (Block.ofList PSI_MAX_SIZE (patBytes program 0 0 ++
      List.replicate (PSI_SECTION_MAX - (patBytes program 0 0).length) 0xff) 0).bytes.take
      (patBytes program 0 0).length = patBytes program 0 0 := by
    change (List.take _ (_ ++ _ ++ _)).take _ = _
    rw [List.take_take, Nat.min_eq_left hfit, List.append_assoc, List.take_left]
  have hplen : psiLen (Block.ofList PSI_MAX_SIZE (patBytes program 0 0 ++
      List.replicate (PSI_SECTION_MAX - (patBytes program 0 0).length) 0xff) 0).bytes =
      (patBytes program 0 0).length := by
    refine Eq.trans (psiLen_congr ?_) (psiLen_patBytes program 0 0 h.1)
    rw [← congrArg (List.take 3) htake, List.take_take, Nat.min_eq_left (by omega)]
  refine ⟨_, if_pos hfit, ?_, ⟨?_, ?_⟩⟩
  · rw [Carries, PsiSec.content]
    dsimp only
    rw [hplen, htake]
  · dsimp only
    rw [hplen, hlen, PSI_HDR_LEN]
    omega
  · dsimp only
    rwa [hplen]

section

variable {s : PsiSec} {program : List PatProg} (hs : Carries s program) (h : Fitting program)
include hs h

theorem psiLen_of_carries : psiLen s.data.bytes = 12 + program.length * 4 := by
  rw [← psiLen_content, hs, psiLen_patBytes program 0 0 h.1, length_patBytes]

/-- A byte of the table. -/
theorem getD_of_carries {i : ℕ} (hi : i < 12 + program.length * 4) :
    s.data.bytes.getD i 0 = (patBytes program 0 0).getD i 0 := by
  rw [← hs, PsiSec.content, psiLen_of_carries hs h, List.getD_eq_getElem?_getD,
    List.getD_eq_getElem?_getD, List.getElem?_take_of_lt hi]

theorem version_of_carries : s.data.bytes.getD 5 0 = 1 := by
  rw [getD_of_carries hs h (by omega)]
  change UInt8.ofNat ((0 &&& 0x1f) <<< 1 ||| 1) = 1
  decide

theorem psiVersion_of_carries : psiVersion s = 0 := by
  rw [psiVersion, version_of_carries hs h]
  decide

theorem psiCurrentNext_of_carries : psiCurrentNext s = true := by
  rw [psiCurrentNext, version_of_carries hs h]
  decide

theorem psiTableId_of_carries : psiTableId s = PAT_TABLE_ID := by
  rw [psiTableId, getD_of_carries hs h (by omega)]
  rfl

theorem psiSectionNumber_of_carries : psiSectionNumber s = 0 := by
  rw [psiSectionNumber, getD_of_carries hs h (by omega)]
  rfl

theorem psiLastSectionNumber_of_carries : psiLastSectionNumber s = 0 := by
  rw [psiLastSectionNumber, getD_of_carries hs h (by omega)]
  rfl

/-- **The programs of a table can be read back, and its checksum is read as one more.** -/
theorem patPrograms_of_carries : patPrograms s = some (received program) := by
  have hpnrno : patPnrno s = program.length := by
    rw [patPnrno, psiLen_of_carries hs h, PSI_HDR_LEN, CRC32_LEN, PAT_PNR_LEN]
    have : ((12 + program.length * 4 : ℕ) : ℤ) - (8 : ℕ) - (4 : ℕ) = program.length * (4 : ℕ) := by
      push_cast
      omega
    rw [this]
    exact Int.mul_tdiv_cancel _ (by decide)
  rw [patPrograms, if_neg (by omega), hpnrno, Int.toNat_natCast, received, ← map_readProgram h.2]
  congr 1
  refine List.map_congr_left fun i hi => ?_
  rw [List.mem_range] at hi
  have hentries : (patBytes program 0 0).drop 8 =
      program.flatMap patEntry ++ crcBytes (crc32Be 0 0xffffffff#32 (patFront program 0 0)) := rfl
  refine readProgram_congr fun k hk => ?_
  have hbyte := getD_of_carries hs h (i := 8 + i * 4 + k) (by omega)
  rw [List.getD_eq_getElem?_getD, List.getD_eq_getElem?_getD] at hbyte
  rw [← hentries, List.drop_drop, List.getD_eq_getElem?_getD, List.getD_eq_getElem?_getD,
    List.getElem?_drop, List.getElem?_drop]
  exact hbyte

/-- The first table that is received is kept. -/
theorem patSectionCb_of_carries {a : PatState} (hnew : a.klknewprog = false)
    (hpsi : a.psi 0 = none) :
    ∃ a' calls, patSectionCb a s = some (a', calls) ∧ a'.klknewprog = false ∧ a'.psi 0 = some s ∧
      a'.current = some (received program) := by
  have htable : psiUpdateTable a.psi s = some (Function.update a.psi 0 (some s), true) := by
    rw [psiUpdateTable, psiSectionNumber_of_carries hs h, hpsi]
    rfl
  have hparse : patParse (Function.update a.psi 0 (some s)) = some (received program) := by
    rw [patParse, Function.update_self]
    simp only [Option.bind_eq_bind, Option.bind_some, psiLastSectionNumber_of_carries hs h]
    rw [if_pos (by decide)]
    simp [patPrograms_of_carries hs h]
  unfold patSectionCb
  rw [psiCurrentNext_of_carries hs h, psiTableId_of_carries hs h]
  simp only [Bool.not_true, Bool.false_eq_true, if_false, ne_eq, not_true, hnew, htable,
    Option.bind_eq_bind, Option.bind_some, and_false, hparse]
  have hkept : Function.update a.psi 0 (some s) 0 = some s := Function.update_self _ _ _
  exact ⟨_, _, rfl, rfl, hkept, rfl⟩

/-- A later table has the version of the first one. -/
theorem patSectionCb_of_version {a : PatState} {s₀ : PsiSec} (hnew : a.klknewprog = false)
    (hpsi : a.psi 0 = some s₀) (hversion : psiVersion s₀ = 0) :
    patSectionCb a s = some (a, []) := by
  have htable : psiUpdateTable a.psi s = some (a.psi, false) := by
    rw [psiUpdateTable, psiSectionNumber_of_carries hs h, if_pos (by decide), hpsi, if_pos]
    rw [psiVersion_of_carries hs h, Option.any_some, hversion]
    rfl
  unfold patSectionCb
  rw [psiCurrentNext_of_carries hs h, psiTableId_of_carries hs h]
  simp only [Bool.not_true, Bool.false_eq_true, if_false, ne_eq, not_true, hnew, htable,
    Option.bind_eq_bind, Option.bind_some, Bool.not_false, and_self, if_true]

end

/-! ## All tables -/

theorem forall₂_carries_iff {secs : List PsiSec} {programs : List (List PatProg)} :
    List.Forall₂ Carries secs programs ↔
      secs.map PsiSec.content = programs.map fun program => patBytes program 0 0 := by
  rw [← List.forall₂_eq_eq_eq, List.forall₂_map_left_iff, List.forall₂_map_right_iff]
  rfl

/-- A run of the callback: the first table decides. -/
theorem exists_patSections {secs : List PsiSec} {programs : List (List PatProg)}
    (h : List.Forall₂ Carries secs programs) (hfit : ∀ program ∈ programs, Fitting program) :
    ∃ a, patSections {} secs = some a ∧ a.current = programs.head?.map received := by
  have hlater : ∀ {secs programs}, List.Forall₂ Carries secs programs →
      (∀ program ∈ programs, Fitting program) → ∀ {a : PatState} {s₀}, a.klknewprog = false →
      a.psi 0 = some s₀ → psiVersion s₀ = 0 → patSections a secs = some a := by
    intro secs programs h hfit a s₀ hnew hpsi hversion
    induction h with
    | nil => rfl
    | @cons s program secs programs hs _ ih =>
      have hcb := patSectionCb_of_version hs (hfit program List.mem_cons_self) hnew hpsi hversion
      simp only [patSections, hcb, Option.bind_eq_bind, Option.bind_some]
      exact ih fun p hp => hfit p (List.mem_cons_of_mem program hp)
  cases h with
  | nil => exact ⟨{}, rfl, rfl⟩
  | @cons s program secs programs hs hrest =>
    have hprogram := hfit program List.mem_cons_self
    obtain ⟨a, calls, hcb, hnew, hpsi, hcurrent⟩ :=
      patSectionCb_of_carries (a := {}) hs hprogram rfl rfl
    have hkeep := hlater hrest (fun p hp => hfit p (List.mem_cons_of_mem program hp)) hnew hpsi
      (psiVersion_of_carries hs hprogram)
    refine ⟨a, ?_, hcurrent⟩
    simp only [patSections, hcb, Option.bind_eq_bind, Option.bind_some]
    exact hkeep

/-- The sections of a stream. -/
theorem streamSendPats_eq {programs : List (List PatProg)}
    (hfit : ∀ program ∈ programs, Fitting program) (patcc : ℕ) :
    ∃ secs, List.Forall₂ Carries secs programs ∧ (∀ s ∈ secs, s.WellFormed) ∧
      streamSendPats patcc programs = sendSections 0 patcc secs := by
  have hsecs : ∃ secs,
      List.Forall₂ (fun s program => patSection program 0 0 = some s) secs programs ∧
      List.Forall₂ Carries secs programs ∧ ∀ s ∈ secs, s.WellFormed := by
    induction programs with
    | nil => exact ⟨[], .nil, .nil, fun s hs => absurd hs List.not_mem_nil⟩
    | cons program rest ih =>
      obtain ⟨s, hs, hcarries, hwf⟩ := exists_patSection (hfit program List.mem_cons_self)
      obtain ⟨secs, hsecs, hall, hwfs⟩ := ih fun p hp => hfit p (List.mem_cons_of_mem program hp)
      refine ⟨s :: secs, .cons hs hsecs, .cons hcarries hall, fun t ht => ?_⟩
      rcases List.mem_cons.1 ht with rfl | ht
      · exact hwf
      · exact hwfs t ht
  obtain ⟨secs, hsecs, hcarries, hwf⟩ := hsecs
  refine ⟨secs, hcarries, hwf, ?_⟩
  clear hcarries hwf hfit
  induction hsecs generalizing patcc with
  | nil => rfl
  | @cons s program secs programs hs _ ih =>
    have hsend : patSend program patcc 0 0 = psiSegmentAndSend s 0 patcc := by
      rw [patSend, hs]
      rfl
    rw [streamSendPats, sendSections, hsend]
    refine Option.bind_congr fun pkts _ => ?_
    rw [ih]

/-- What arrives in full of the sections carries the first table that arrives in full. -/
theorem exists_inFull {secs : List PsiSec} {programs : List (List PatProg)}
    (h : List.Forall₂ Carries secs programs) (hfit : ∀ program ∈ programs, Fitting program)
    (flags : List Bool) :
    ∃ programs', List.Forall₂ Carries (inFull secs flags) programs' ∧
      (∀ program ∈ programs', Fitting program) ∧ programs'.head? = firstInFull programs flags := by
  induction h generalizing flags with
  | nil => exact ⟨[], .nil, hfit, rfl⟩
  | @cons s program secs programs hs _ ih =>
    obtain ⟨programs', hrest, hfit', hhead⟩ :=
      ih (fun p hp => hfit p (List.mem_cons_of_mem program hp))
        (flags.drop (partCount (patBytes program 0 0)))
    have hcontent : s.content = patBytes program 0 0 := hs
    by_cases hall : (flags.take (partCount (patBytes program 0 0))).all id = true
    · refine ⟨program :: programs', ?_, fun p hp => ?_, ?_⟩
      · rw [inFull, hcontent]
        rw [if_pos hall]
        exact .cons hs hrest
      · rcases List.mem_cons.1 hp with rfl | hp
        · exact hfit p List.mem_cons_self
        · exact hfit' p hp
      · rw [firstInFull, if_pos hall]
        rfl
    · refine ⟨programs', ?_, hfit', ?_⟩
      · rw [inFull, hcontent]
        rw [if_neg hall]
        exact hrest
      · rw [firstInFull, if_neg hall]
        exact hhead

/-- What is taken of the sections that arrive. -/
theorem exists_patSections_inFull {secs out : List PsiSec} {programs : List (List PatProg)}
    (hcarries : List.Forall₂ Carries secs programs) (hfit : ∀ program ∈ programs, Fitting program)
    {flags : List Bool}
    (hcontents : out.map PsiSec.content =
      ((inFull secs flags).map PsiSec.content).filter crcValid) :
    ∃ adapter, patSections {} out = some adapter ∧
      adapter.current = (firstInFull programs flags).map received := by
  obtain ⟨programs', hall, hfit', hhead⟩ := exists_inFull hcarries hfit flags
  rw [forall₂_carries_iff] at hall
  have hvalid : ((inFull secs flags).map PsiSec.content).filter crcValid =
      programs'.map fun program => patBytes program 0 0 := by
    rw [hall, List.filter_eq_self]
    intro bs hbs
    obtain ⟨program, -, rfl⟩ := List.mem_map.1 hbs
    exact crcValid_patBytes program 0 0
  obtain ⟨adapter, hadapter, hcurrent⟩ :=
    exists_patSections (forall₂_carries_iff.2 (hcontents.trans hvalid)) hfit'
  exact ⟨adapter, hadapter, hhead ▸ hcurrent⟩

/-- **An adapter that receives a stream stays with the first table that arrives in full**, whatever
tables follow, as long as never sixteen packets in a row are lost. -/
theorem current_of_streamSendPats {programs : List (List PatProg)}
    (hfit : ∀ program ∈ programs, Fitting program) (patcc : ℕ) :
    ∃ pkts, streamSendPats patcc programs = some pkts ∧
      ∀ flags : List Bool, flags.length = pkts.length → ¬ List.replicate 16 false <:+: flags →
        ∃ last out adapter, reassembleAll {} (Fragments.arrive flags pkts) = some (last, out) ∧
          patSections {} out = some adapter ∧
          adapter.current = (firstInFull programs flags).map received := by
  obtain ⟨secs, hcarries, hwf, hsend⟩ := streamSendPats_eq hfit patcc
  have hpid : 0 < 0x2000 := by decide
  obtain ⟨pkts, hpkts, hflags⟩ := exists_reassembleAll_sendSections hpid patcc hwf
  refine ⟨pkts, hsend.trans hpkts, fun flags hlen hlost => ?_⟩
  obtain ⟨last, out, hout, hcontents⟩ := hflags flags hlen hlost
  obtain ⟨adapter, hadapter, hcurrent⟩ := exists_patSections_inFull hcarries hfit hcontents
  exact ⟨last, out, adapter, hout, hadapter, hcurrent⟩

theorem current_of_streamSendPats_twoTicks :
    ∃ pkts, streamSendPats 15 [[⟨1, 0x100⟩], [⟨1, 0x100⟩, ⟨2, 0x200⟩]] = some pkts ∧
      ∀ flags : List Bool, flags.length = pkts.length → ¬ List.replicate 16 false <:+: flags →
        ∃ last out adapter, reassembleAll {} (Fragments.arrive flags pkts) = some (last, out) ∧
          patSections {} out = some adapter ∧
          adapter.current =
            (firstInFull [[⟨1, 0x100⟩], [⟨1, 0x100⟩, ⟨2, 0x200⟩]] flags).map received :=
  current_of_streamSendPats (by simp [Fitting, PatProg.Fits]) 15

end Kalinka.Getstream2
