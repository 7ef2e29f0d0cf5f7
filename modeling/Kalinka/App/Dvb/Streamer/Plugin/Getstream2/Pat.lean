import Kalinka.App.Dvb.Streamer.Plugin.Getstream2.PsiDamage

/-!
# Program association tables

A stream sends a table of its programs on every tick of a timer (`stream_send_pat`), and an adapter
keeps the tables that it receives (`pat_section_cb`).

All tables of a stream have the same version.  So an adapter that receives a stream stays with the
first table that arrives in full, and it takes the checksum of that table for one more program.
-/

namespace Kalinka.Getstream2

def PAT_HDR_LEN : ℕ := 8
def PAT_PNR_LEN : ℕ := 4
def PSI_SECTION_MAX : ℕ := 255
def PAT_TABLE_ID : UInt8 := 0

/-- `patprog_s` -/
structure PatProg where
  pnr : ℕ
  pid : ℕ
  deriving DecidableEq, Repr

/-! ## Sending -/

def patEntry (pp : PatProg) : List UInt8 :=
  [UInt8.ofNat (pp.pnr >>> 8), UInt8.ofNat (pp.pnr &&& 0xff), UInt8.ofNat (pp.pid >>> 8),
    UInt8.ofNat (pp.pid &&& 0xff)]

/-- A table of `pat_send` in front of its checksum. -/
def patFront (program : List PatProg) (version tid : ℕ) : List UInt8 :=
  let patlen := PAT_HDR_LEN + program.length * 4 + CRC32_LEN
  let seclen := (patlen - PSI_SECLEN_ADD) &&& 0xfff
  [PAT_TABLE_ID, UInt8.ofNat (0x80 ||| (seclen >>> 8)), UInt8.ofNat (seclen &&& 0xff),
    UInt8.ofNat (tid >>> 8), UInt8.ofNat (tid &&& 0xff),
    UInt8.ofNat ((version &&& 0x1f) <<< 1 ||| 1), 0, 0] ++ program.flatMap patEntry

/-- A checksum in bytes, the highest one first. -/
def crcBytes (ccrc : BitVec 32) : List UInt8 :=
  [UInt8.ofBitVec ((ccrc >>> 24).setWidth 8), UInt8.ofBitVec ((ccrc >>> 16).setWidth 8),
    UInt8.ofBitVec ((ccrc >>> 8).setWidth 8), UInt8.ofBitVec (ccrc.setWidth 8)]

def patBytes (program : List PatProg) (version tid : ℕ) : List UInt8 :=
  patFront program version tid ++
    crcBytes (crc32Be 0 0xffffffff#32 (patFront program version tid))

/-- The section that `pat_send` fills; it does not check whether the programs fit into it. -/
def patSection (program : List PatProg) (version tid : ℕ) : Option PsiSec :=
  let pat := patBytes program version tid
  if pat.length ≤ PSI_MAX_SIZE then
    some { data :=
      Block.ofList PSI_MAX_SIZE (pat ++ List.replicate (PSI_SECTION_MAX - pat.length) 0xff) 0 }
  else none

def patSend (program : List PatProg) (cc version tid : ℕ) : Option (List TsPacket) := do
  let section_ ← patSection program version tid
  psiSegmentAndSend section_ 0 cc

/-- The ticks of a stream, each with the programs of its inputs; `patcc` goes on from one to the
next. -/
def streamSendPats : ℕ → List (List PatProg) → Option (List TsPacket)
  | _, [] => some []
  | patcc, program :: rest => do
    let pkts ← patSend program patcc 0 0
    let more ← streamSendPats ((patcc + pkts.length) &&& 0xf) rest
    some (pkts ++ more)

/-! ## Receiving -/

def psiVersion (section_ : PsiSec) : UInt8 := (section_.data.bytes.getD 5 0 &&& 0x3e) >>> 1

def psiCurrentNext (section_ : PsiSec) : Bool := section_.data.bytes.getD 5 0 &&& 1 ≠ 0

def psiTableId (section_ : PsiSec) : UInt8 := section_.data.bytes.getD 0 0

def psiSectionNumber (section_ : PsiSec) : ℕ := (section_.data.bytes.getD 6 0).toNat

def psiLastSectionNumber (section_ : PsiSec) : ℕ := (section_.data.bytes.getD 7 0).toNat

/-- `psi_s`, with the sections of its array. -/
abbrev PsiTable := ℕ → Option PsiSec

/-- `psi_update_table`: is the section new?  The array has no element for the last number. -/
def psiUpdateTable (psi : PsiTable) (section_ : PsiSec) : Option (PsiTable × Bool) :=
  let secnum := psiSectionNumber section_
  if secnum < PSI_SECTION_MAX then
    if (psi secnum).any (psiVersion section_ = psiVersion ·) then some (psi, false)
    else some (Function.update psi secnum (some section_), true)
  else none

/-- The number of programs of a section; one less than `pat_parse` reads. -/
def patPnrno (section_ : PsiSec) : ℤ :=
  ((psiLen section_.data.bytes : ℤ) - PSI_HDR_LEN - CRC32_LEN).tdiv PAT_PNR_LEN

/-- The program at the beginning of some bytes. -/
def readProgram (pat : List UInt8) : PatProg where
  pnr := (pat.getD 0 0).toNat <<< 8 ||| (pat.getD 1 0).toNat
  pid := ((pat.getD 2 0).toNat <<< 8 ||| (pat.getD 3 0).toNat) &&& 0x1fff

/-- `pat_pnrfrompat` and `pat_pidfrompat` -/
def patProgram (section_ : PsiSec) (i : ℕ) : PatProg :=
  readProgram (section_.data.bytes.drop (PAT_HDR_LEN + i * 4))

/-- The programs of one section.  A negative number is a large one to the loop, which then leaves
the buffer. -/
def patPrograms (section_ : PsiSec) : Option (List PatProg) :=
  if patPnrno section_ < 0 then none
  else some ((List.range ((patPnrno section_).toNat + 1)).map (patProgram section_))

/-- `pat_parse`; a table without a first section gives no programs, which `pat_update` does not
check. -/
def patParse (psi : PsiTable) : Option (List PatProg) := do
  let first ← psi 0
  if psiLastSectionNumber first < PSI_SECTION_MAX then
    let programs ← ((List.range (psiLastSectionNumber first + 1)).filterMap psi).mapM patPrograms
    some programs.flatten
  else none

/-- What the adapter keeps of the tables. -/
structure PatState where
  psi : PsiTable := fun _ => none
  last : Option (List PatProg) := none
  current : Option (List PatProg) := none
  klknewprog : Bool := false

/-- `pat_update`, with its calls of `pmt_pidfrompat`. -/
def patUpdate (last : Option (List PatProg)) (current : List PatProg) : List (ℕ × ℕ) :=
  match last with
  | none => current.map fun pcur => (pcur.pnr, pcur.pid)
  | some last =>
    (current.filter fun pcur => (last.find? (·.pnr = pcur.pnr)).any (·.pid ≠ pcur.pid)).map
        (fun pcur => (pcur.pnr, pcur.pid)) ++
      (last.filter fun plast => !current.any (·.pnr = plast.pnr)).map fun plast => (plast.pnr, 0)

/-- `pat_section_cb`, with the calls of `pmt_pidfrompat`. -/
def patSectionCb (adapter : PatState) (section_ : PsiSec) : Option (PatState × List (ℕ × ℕ)) :=
  if !psiCurrentNext section_ then some (adapter, [])
  else if psiTableId section_ ≠ PAT_TABLE_ID then some (adapter, [])
  else do
    let adapter' : PatState :=
      if adapter.klknewprog then { adapter with current := none, last := none, klknewprog := false }
      else adapter
    let (psi, new) ← psiUpdateTable adapter.psi section_
    if !adapter.klknewprog ∧ !new then some (adapter, [])
    else
      let current ← patParse psi
      some ({ adapter' with psi, last := adapter'.current, current := some current },
        patUpdate adapter'.current current)

/-- The sections that are given to the callback, one after the other. -/
def patSections : PatState → List PsiSec → Option PatState
  | adapter, [] => some adapter
  | adapter, section_ :: rest => do
    let (adapter, _) ← patSectionCb adapter section_
    patSections adapter rest

/-! ## A table that is sent -/

/-- A program whose numbers fit into an entry. -/
def PatProg.Fits (pp : PatProg) : Prop := pp.pnr < 0x10000 ∧ pp.pid < 0x2000

/-- Programs that fit into one section. -/
def Fitting (program : List PatProg) : Prop := program.length ≤ 1021 ∧ ∀ pp ∈ program, pp.Fits

theorem shift_lor (a b : UInt8) : a.toNat <<< 8 ||| b.toNat = a.toNat * 256 + b.toNat := by
  rw [← Nat.shiftLeft_add_eq_or_of_lt b.toNat_lt, Nat.shiftLeft_eq]

theorem toNat_high {n : ℕ} (hn : n < 0x10000) : (UInt8.ofNat (n >>> 8)).toNat = n / 256 := by
  rw [UInt8.toNat_ofNat', Nat.shiftRight_eq_div_pow]
  omega

theorem toNat_low (n : ℕ) : (UInt8.ofNat (n &&& 0xff)).toNat = n % 256 := by
  rw [UInt8.toNat_ofNat', Nat.and_two_pow_sub_one_eq_mod n 8]
  omega

theorem readProgram_patEntry {pp : PatProg} (hpp : pp.Fits) (rest : List UInt8) :
    readProgram (patEntry pp ++ rest) = pp := by
  obtain ⟨hpnr, hpid⟩ := hpp
  have hpid' : pp.pid < 0x10000 := Nat.lt_trans hpid (by decide)
  simp only [readProgram, patEntry, List.cons_append, List.nil_append, List.getD_cons_zero,
    List.getD_cons_succ, shift_lor]
  rw [toNat_high hpnr, toNat_high hpid', toNat_low, toNat_low,
    Nat.and_two_pow_sub_one_eq_mod _ 13, Nat.div_add_mod', Nat.div_add_mod',
    Nat.mod_eq_of_lt hpid]

theorem readProgram_congr {xs ys : List UInt8} (h : ∀ k < 4, xs.getD k 0 = ys.getD k 0) :
    readProgram xs = readProgram ys := by
  rw [readProgram, readProgram, h 0 (by decide), h 1 (by decide), h 2 (by decide), h 3 (by decide)]

/-- The entries, and one more that is read behind them. -/
theorem map_readProgram {program : List PatProg} (hprogram : ∀ pp ∈ program, pp.Fits)
    (tail : List UInt8) :
    (List.range (program.length + 1)).map
        (fun i => readProgram ((program.flatMap patEntry ++ tail).drop (i * 4))) =
      program ++ [readProgram tail] := by
  induction program with
  | nil => rfl
  | cons pp rest ih =>
    have hhead := readProgram_patEntry (hprogram pp List.mem_cons_self)
      (rest.flatMap patEntry ++ tail)
    have hdrop (i : ℕ) : ((pp :: rest).flatMap patEntry ++ tail).drop ((i + 1) * 4) =
        (rest.flatMap patEntry ++ tail).drop (i * 4) := by
      rw [Nat.succ_mul, Nat.add_comm, ← List.drop_drop, List.flatMap_cons, List.append_assoc]
      rfl
    rw [List.length_cons, List.range_succ_eq_map, List.map_cons, List.map_map, List.cons_append,
      ← ih fun q hq => hprogram q (List.mem_cons_of_mem pp hq)]
    have hfirst : readProgram (((pp :: rest).flatMap patEntry ++ tail).drop (0 * 4)) = pp := by
      rwa [Nat.zero_mul, List.drop_zero, List.flatMap_cons, List.append_assoc]
    rw [hfirst]
    exact congrArg (pp :: ·) (List.map_congr_left fun i _ => congrArg readProgram (hdrop i))

theorem length_flatMap_patEntry (program : List PatProg) :
    (program.flatMap patEntry).length = program.length * 4 := by
  induction program with
  | nil => rfl
  | cons pp rest ih =>
    rw [List.flatMap_cons, List.length_append, ih, List.length_cons, Nat.succ_mul, Nat.add_comm]
    rfl

section

variable (program : List PatProg) (version tid : ℕ)

theorem length_patFront : (patFront program version tid).length = 8 + program.length * 4 := by
  rw [patFront, List.length_append, length_flatMap_patEntry]
  rfl

theorem length_patBytes : (patBytes program version tid).length = 12 + program.length * 4 := by
  rw [patBytes, List.length_append, length_patFront]
  change 8 + program.length * 4 + 4 = _
  omega

theorem toNat_syntax : ∀ x : Fin 16, (UInt8.ofNat (0x80 ||| x)).toNat = 128 + x := by
  decide

/-- The length of a section that is not too long can be read back. -/
theorem psiLen_seclen {seclen : ℕ} (h : seclen < 4096) (b : UInt8) (rest : List UInt8) :
    psiLen (b :: UInt8.ofNat (0x80 ||| (seclen >>> 8)) :: UInt8.ofNat (seclen &&& 0xff) :: rest) =
      seclen + 3 := by
  have hshift : seclen >>> 8 = seclen / 256 := Nat.shiftRight_eq_div_pow seclen 8
  have hhigh := toNat_syntax ⟨seclen >>> 8, by omega⟩
  rw [psiLen, List.getD_cons_succ, List.getD_cons_zero, List.getD_cons_succ, List.getD_cons_succ,
    List.getD_cons_zero, shift_lor, hhigh, toNat_low, Nat.and_two_pow_sub_one_eq_mod _ 12,
    PSI_SECLEN_ADD]
  dsimp only
  omega

theorem psiLen_patBytes (h : program.length ≤ 1021) :
    psiLen (patBytes program version tid) = (patBytes program version tid).length := by
  have hmask : (PAT_HDR_LEN + program.length * 4 + CRC32_LEN - PSI_SECLEN_ADD) &&& 0xfff =
      program.length * 4 + 9 := by
    rw [Nat.and_two_pow_sub_one_eq_mod _ 12, PAT_HDR_LEN, CRC32_LEN, PSI_SECLEN_ADD]
    omega
  rw [length_patBytes, patBytes, patFront, hmask]
  exact (psiLen_seclen (by omega) _ _).trans (by omega)

theorem word32_crcBytes (ccrc : BitVec 32) : word32 (crcBytes ccrc) = ccrc := by
  apply BitVec.eq_of_getLsbD_eq
  intro i hi
  simp only [word32, crcBytes, List.getD_cons_zero, List.getD_cons_succ, BitVec.getLsbD_or,
    BitVec.getLsbD_shiftLeft, BitVec.getLsbD_setWidth, BitVec.getLsbD_ushiftRight]
  interval_cases i <;> simp

theorem crcValid_patBytes : crcValid (patBytes program version tid) = true := by
  have hlen : (patBytes program version tid).length - CRC32_LEN =
      (patFront program version tid).length := by
    rw [length_patBytes, length_patFront, CRC32_LEN]
    omega
  rw [crcValid, hlen, patBytes, List.drop_left, List.take_left, word32_crcBytes]
  exact decide_eq_true rfl

end

end Kalinka.Getstream2
