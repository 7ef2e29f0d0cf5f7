import Kalinka.App.Dvb.Streamer.Plugin.Getstream2.Dvr
import Kalinka.App.Dvb.Streamer.Plugin.Getstream2.Pat

/-!
# Programs

A program has one callback in the demultiplexer for each of its streams and each of its pids:
those of its elementary streams, the one with the clock and the one with its own table.  The
program association table says which pid has that table (`pmt_pidfrompat`), and the program map
table says which other pids there are (`pmt_update`).

`none` is what the program does not survive: a pid outside of the array of a program, a table
without its first section, or a program that has been freed.
-/

namespace Kalinka.Getstream2

open Function

def PMT_TABLE_ID : UInt8 := 2

/-! ## The table -/

/-- Two bytes of a section. -/
def psiWord (section_ : PsiSec) (i : ℕ) : Option ℕ := do
  let high ← section_.data.bytes[i]?
  let low ← section_.data.bytes[i + 1]?
  some (high.toNat <<< 8 ||| low.toNat)

def pmtPnr (section_ : PsiSec) : Option ℕ := psiWord section_ 3

def pmtPcr (section_ : PsiSec) : Option ℕ := (psiWord section_ 8).map (· &&& 0x1fff)

/-- `pmt_first_es` -/
def pmtFirstEs (section_ : PsiSec) : Option ℕ :=
  (psiWord section_ 10).map fun w => 12 + (w &&& 0x3ff)

/-- `pmt_next_es`; zero behind the last one. -/
def pmtNextEs (section_ : PsiSec) (es : ℕ) : Option ℕ :=
  (psiWord section_ (es + 3)).map fun w =>
    let nes := es + (w &&& 0xfff) + 5
    if psiLen section_.data.bytes - CRC32_LEN ≤ nes then 0 else nes

def pmtEsPid (section_ : PsiSec) (es : ℕ) : Option ℕ :=
  (psiWord section_ (es + 1)).map (· &&& 0x1fff)

/-- The walk of `pmt_parse` over the elementary streams of a section, with their pids. -/
def walkEs : ℕ → PsiSec → ℕ → Option (List ℕ)
  | 0, _, _ => none
  | fuel + 1, section_, esoff => do
    let pid ← pmtEsPid section_ esoff
    let next ← pmtNextEs section_ esoff
    if next = 0 then some [pid]
    else do
      let rest ← walkEs fuel section_ next
      some (pid :: rest)

/-- `pmt_s`; the type of an elementary stream only goes to the log. -/
structure Pmt where
  pcrpid : ℕ := 0
  es : List ℕ := []
  deriving DecidableEq, Repr

namespace Pmt

/-- What one section adds. -/
def addSection (pmt : Pmt) (section_ : PsiSec) : Option Pmt := do
  let pcr ← pmtPcr section_
  let first ← pmtFirstEs section_
  let es ← walkEs PSI_MAX_SIZE section_ first
  some { pcrpid := if pcr ≠ PID_MAX then pcr else pmt.pcrpid, es := pmt.es ++ es }

end Pmt

/-- `pmt_parse`; `pmt_update` does not check whether there is a table. -/
def pmtParse (psi : PsiTable) : Option Pmt := do
  let first ← psi 0
  if psiLastSectionNumber first < PSI_SECTION_MAX then
    ((List.range (psiLastSectionNumber first + 1)).filterMap psi).foldlM Pmt.addSection {}
  else none

/-! ## One program -/

/-- `program_s` -/
structure Program where
  pnr : ℕ
  pmtpid : ℕ := 0
  pmtpidcb : Option PidCallback := none
  /-- the callbacks of a pid, one for each stream -/
  pidtable : ℕ → List PidCallback := fun _ => []
  psi : PsiTable := fun _ => none
  pmtlast : Option Pmt := none
  pmtcurrent : Option Pmt := none
  /-- the streams -/
  progcbl : List ℕ := []
  freed : Bool := false

namespace Program

/-- `pmt_prog_gets_pid` -/
def getsPid (prog : Program) (pid : ℕ) : Bool := prog.pidtable pid ≠ []

end Program

/-- A callback for each stream. -/
def joinStreams : Demux → ℕ → List ℕ → Demux × List PidCallback
  | a, _, [] => (a, [])
  | a, pid, stream :: pcbl =>
    let (a, cbc) := a.dvrAddPcb pid .ts (.streamSend stream)
    let (a, cbcl) := joinStreams a pid pcbl
    (a, cbc :: cbcl)

def leaveCallbacks : Demux → ℕ → List PidCallback → Option Demux
  | a, _, [] => some a
  | a, pid, cbc :: cbcl => do
    let a ← a.dvrDelPcb pid cbc
    leaveCallbacks a pid cbcl

/-- `pmt_prog_join_pid`; the array of the program ends in front of the last pid. -/
def pmtProgJoinPid (a : Demux) (prog : Program) (pid : ℕ) : Option (Demux × Program) :=
  if pid < PID_MAX then
    let (a, cbcl) := joinStreams a pid prog.progcbl
    some (a, { prog with pidtable := update prog.pidtable pid (prog.pidtable pid ++ cbcl) })
  else none

def pmtProgLeavePid (a : Demux) (prog : Program) (pid : ℕ) : Option (Demux × Program) :=
  (leaveCallbacks a pid (prog.pidtable pid)).map fun a =>
    (a, { prog with pidtable := update prog.pidtable pid [] })

/-- A pid that the program does not get yet. -/
def joinNew (a : Demux) (prog : Program) (pid : ℕ) : Option (Demux × Program) :=
  if prog.getsPid pid then some (a, prog) else pmtProgJoinPid a prog pid

/-- An elementary stream that the table before had is taken for granted. -/
def joinEsPid (last : Option Pmt) (a : Demux) (prog : Program) (pid : ℕ) :
    Option (Demux × Program) :=
  if last.any (pid ∈ ·.es) then some (a, prog) else joinNew a prog pid

/-- The loop of `pmt_update` over the elementary streams. -/
def joinEs (last : Option Pmt) : Demux → Program → List ℕ → Option (Demux × Program)
  | a, prog, [] => some (a, prog)
  | a, prog, pid :: es => (joinEsPid last a prog pid).bind fun (a, prog) => joinEs last a prog es

def joinPcr (current : Pmt) (a : Demux) (prog : Program) : Option (Demux × Program) :=
  if current.pcrpid ≠ PID_MAX then joinNew a prog current.pcrpid else some (a, prog)

/-- Is a pid still in use? -/
def Pmt.uses (current : Pmt) (prog : Program) (pid : ℕ) : Bool :=
  current.pcrpid = pid ∨ prog.pmtpid = pid ∨ pid ∈ current.es

def leaveUnused (current : Pmt) (a : Demux) (prog : Program) (pid : ℕ) :
    Option (Demux × Program) :=
  if prog.getsPid pid ∧ !current.uses prog pid then pmtProgLeavePid a prog pid else some (a, prog)

/-- The last loop of `pmt_update`. -/
def leaveOld (current : Pmt) : Demux → Program → List ℕ → Option (Demux × Program)
  | a, prog, [] => some (a, prog)
  | a, prog, pid :: pids =>
    (leaveUnused current a prog pid).bind fun (a, prog) => leaveOld current a prog pids

/-- `pmt_update` -/
def pmtUpdate (a : Demux) (prog : Program) (current : Pmt) : Option (Demux × Program) :=
  (joinEs prog.pmtlast a prog current.es).bind fun (a, prog) =>
    (joinPcr current a prog).bind fun (a, prog) => leaveOld current a prog (List.range PID_MAX)

/-- `pmt_dvr_pmt_cb` -/
def pmtDvrPmtCb (a : Demux) (prog : Program) (section_ : PsiSec) : Option (Demux × Program) :=
  if !psiCurrentNext section_ then some (a, prog)
  else if psiTableId section_ ≠ PMT_TABLE_ID then some (a, prog)
  else if pmtPnr section_ ≠ some prog.pnr then some (a, prog)
  else do
    let (psi, new) ← psiUpdateTable prog.psi section_
    if !new then some (a, prog)
    else do
      let pmt ← pmtParse psi
      pmtUpdate a { prog with psi, pmtlast := prog.pmtcurrent, pmtcurrent := some pmt } pmt

/-- The part of `pmt_pidfrompat` that leaves the pid before. -/
def leavePmtPid (a : Demux) (prog : Program) : Option (Demux × Program) :=
  if prog.pmtpid ≠ 0 then do
    let pmtpidcb ← prog.pmtpidcb
    let a ← a.dvrDelPcb prog.pmtpid pmtpidcb
    pmtProgLeavePid a prog prog.pmtpid
  else some (a, prog)

/-- The part of `pmt_pidfrompat` that joins the new pid. -/
def joinPmtPid (a : Demux) (prog : Program) (pmtpid : ℕ) : Option (Demux × Program) :=
  if pmtpid ≠ 0 then
    let (a, pmtpidcb) := a.dvrAddPcb pmtpid .section (.pmtDvrPmtCb prog.pnr)
    pmtProgJoinPid a { prog with pmtpidcb } pmtpid
  else some (a, prog)

/-- `pmt_pidfrompat` for a program that is wanted. -/
def programPidfrompat (a : Demux) (prog : Program) (pmtpid : ℕ) : Option (Demux × Program) :=
  if prog.pmtpid = pmtpid then some (a, prog)
  else
    (leavePmtPid a prog).bind fun (a, prog) =>
      (joinPmtPid a prog pmtpid).map fun (a, prog) => (a, { prog with pmtpid })

/-- The loop of `pmt_prog_del_cb`. -/
def leaveAll : Demux → Program → List ℕ → Option (Demux × Program)
  | a, prog, [] => some (a, prog)
  | a, prog, pid :: pids =>
    (pmtProgLeavePid a prog pid).bind fun (a, prog) => leaveAll a prog pids

/-- `pmt_prog_del_cb`; a program without a pid for its table keeps its callbacks. -/
def pmtProgDelCb (a : Demux) (prog : Program) : Option (Demux × Program) :=
  if prog.pmtpid ≠ 0 then
    (leaveAll a prog (List.range PID_MAX)).bind fun (a, prog) => do
      let pmtpidcb ← prog.pmtpidcb
      let a ← a.dvrDelPcb prog.pmtpid pmtpidcb
      some (a, { prog with pmtpidcb := none })
  else some (a, prog)

/-! ## All programs -/

/-- The parts of `adapter_s` that `pat.c` and `pmt.c` keep. -/
structure Adapter where
  demux : Demux
  pat : PatState := {}
  /-- the callback for program association tables -/
  patcbc : Option PidCallback := none
  pnrlist : List Program := []

/-- `pmt_prog_from_pnr`: is there such a program? -/
def pmtProgFromPnr (pnr : ℕ) : List Program → Option Bool
  | [] => some false
  | prog :: pl =>
    if prog.freed then none else if prog.pnr = pnr then some true else pmtProgFromPnr pnr pl

/-- What a function does to a program, which `pnrlist` still holds. -/
def withProgram (pnr : ℕ) (f : Demux → Program → Option (Demux × Program)) :
    Demux → List Program → Option (Demux × List Program)
  | _, [] => none
  | a, prog :: pl =>
    if prog.pnr = pnr then
      if prog.freed then none else (f a prog).map fun (a, prog) => (a, prog :: pl)
    else (withProgram pnr f a pl).map fun (a, pl) => (a, prog :: pl)

namespace Adapter

def onProgram (adapter : Adapter) (pnr : ℕ)
    (f : Demux → Program → Option (Demux × Program)) : Option Adapter :=
  (withProgram pnr f adapter.demux adapter.pnrlist).map fun (demux, pnrlist) =>
    { adapter with demux, pnrlist }

def pmtPidfrompat (adapter : Adapter) (pnr pmtpid : ℕ) : Option Adapter := do
  if ← pmtProgFromPnr pnr adapter.pnrlist then
    adapter.onProgram pnr fun a prog => programPidfrompat a prog pmtpid
  else some adapter

def pidsFromPat : Adapter → List (ℕ × ℕ) → Option Adapter
  | adapter, [] => some adapter
  | adapter, (pnr, pmtpid) :: calls => do
    let adapter ← adapter.pmtPidfrompat pnr pmtpid
    pidsFromPat adapter calls

/-- `pat_section_cb`, with what it does to the programs. -/
def patSection (adapter : Adapter) (section_ : PsiSec) : Option Adapter := do
  let (pat, calls) ← patSectionCb adapter.pat section_
  pidsFromPat { adapter with pat } calls

/-- `pat_init` -/
def patInit (adapter : Adapter) : Adapter :=
  match adapter.patcbc with
  | some _ => adapter
  | none =>
    let (demux, patcbc) := adapter.demux.dvrAddPcb 0 .section .patSectionCb
    { adapter with demux, patcbc }

/-- `pmt_prog_new`, if there is no such program. -/
def pmtProgNew (adapter : Adapter) (pnr : ℕ) (found : Bool) : Adapter :=
  if found then adapter else { adapter with pnrlist := adapter.pnrlist ++ [{ pnr }] }

/-- `pmt_join_pnr` -/
def pmtJoinPnr (adapter : Adapter) (pnr stream : ℕ) : Option Adapter := do
  let found ← pmtProgFromPnr pnr adapter.pnrlist
  let adapter ← (adapter.pmtProgNew pnr found).onProgram pnr fun a prog =>
    some (a, { prog with progcbl := prog.progcbl ++ [stream] })
  some adapter.patInit

/-- `pmt_leave_pnr`; the program that is freed stays in the list. -/
def pmtLeavePnr (adapter : Adapter) (pnr : ℕ) : Option Adapter := do
  if ← pmtProgFromPnr pnr adapter.pnrlist then
    adapter.onProgram pnr fun a prog => do
      let (a, prog) ← pmtProgDelCb a prog
      some (a, { prog with freed := true })
  else some adapter

/-- A callback for sections. -/
def callback (adapter : Adapter) (s : PsiSec) (pcb : PidCallback) : Option Adapter :=
  match pcb.callback with
  | .patSectionCb => adapter.patSection s
  | .pmtDvrPmtCb pnr => adapter.onProgram pnr fun a prog => pmtDvrPmtCb a prog s
  | _ => some adapter

end Adapter

/-- What happens to an adapter. -/
inductive AdapterAction
  /-- `pmt_join_pnr` -/
  | join (pnr stream : ℕ)
  /-- `pmt_leave_pnr` -/
  | leave (pnr : ℕ)
  /-- the plugin has added streams -/
  | newprog
  /-- `dvr_section_reassemble` gives a section to a callback of its pid -/
  | callback (pid : ℕ) (s : PsiSec) (pcb : PidCallback)

def Adapter.step (adapter : Adapter) : AdapterAction → Option Adapter
  | .join pnr stream => adapter.pmtJoinPnr pnr stream
  | .leave pnr => adapter.pmtLeavePnr pnr
  | .newprog => some { adapter with pat := { adapter.pat with klknewprog := true } }
  | .callback pid s pcb =>
    if pcb ∈ (adapter.demux.pidtable pid).sectioncallback then adapter.callback s pcb else none

/-- The first program with a number is changed, and no other one. -/
theorem withProgram_eq_some {pnr : ℕ} {f : Demux → Program → Option (Demux × Program)}
    {a a' : Demux} {pl pl' : List Program} (h : withProgram pnr f a pl = some (a', pl')) :
    ∃ front prog prog' back, pl = front ++ prog :: back ∧ pl' = front ++ prog' :: back ∧
      (∀ p ∈ front, p.pnr ≠ pnr) ∧ prog.pnr = pnr ∧ prog.freed = false ∧
      f a prog = some (a', prog') := by
  induction pl generalizing a' pl' with
  | nil => cases h
  | cons prog pl ih =>
    unfold withProgram at h
    split at h
    next hpnr =>
      split at h
      · cases h
      next hfreed =>
        obtain ⟨⟨a₁, prog'⟩, hf, ⟨⟩⟩ := Option.map_eq_some_iff.1 h
        exact ⟨[], prog, prog', pl, rfl, rfl, by simp, hpnr, Bool.eq_false_iff.2 hfreed, hf⟩
    next hpnr =>
      obtain ⟨⟨a₁, pl₁⟩, hrest, ⟨⟩⟩ := Option.map_eq_some_iff.1 h
      obtain ⟨front, q, q', back, rfl, rfl, hfront, hq, hfreed, hf⟩ := ih hrest
      exact ⟨prog :: front, q, q', back, rfl, rfl, List.forall_mem_cons.2 ⟨hpnr, hfront⟩, hq,
        hfreed, hf⟩

end Kalinka.Getstream2
