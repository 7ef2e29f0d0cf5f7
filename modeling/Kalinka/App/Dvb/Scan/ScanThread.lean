import Mathlib.Data.List.Basic
import Mathlib.Data.Nat.Notation
import Mathlib.Logic.Relation
import Mathlib.Tactic.Tauto
import Kalinka.Lib.Decimal
import Kalinka.Lib.Run

/-!
# The scan thread

`Scan::startScan` gets a device from the dvb module and hands it to the `ScanThread`, whose loop
waits in `m_trigger.startWait(0)` until there is a scan to do.  `doScan` then tries the lines of the
scan data one after another, a DVB-S line on up to five DiSEqC positions, and gives the device back
at the end.

Here is the thread with its loop and its processor, and any number of calls of `startScan`,
`stopScan` and `stop` from outside.  `Inv` is what every reachable state keeps.
-/

namespace Kalinka.DvbScan

open Run

/-- `dev::TYPE` -/
inductive DevType
  | dvbS
  | dvbT
  | other
  deriving DecidableEq, Repr

structure Dev where
  uuid : String
  type : DevType
  deriving DecidableEq, Repr

/-- A line of the scan data, as its tokens. -/
abbrev ScanLine := List String

/-! ## Tuning -/

namespace OptionConverter

/-- The keys of `m_code_rate`. -/
def codeRate : List String :=
  ["NONE", "1/2", "2/3", "3/4", "4/5", "5/6", "6/7", "7/8", "8/9", "AUTO"]

def bandwidth : List String := ["8MHz", "7MHz", "6MHz", "AUTO"]

def modulation : List String :=
  ["QPSK", "QAM16", "QAM32", "QAM64", "QAM128", "QAM256", "AUTO", "8VSB", "16VSB"]

def transmode : List String := ["2k", "8k", "AUTO"]

def guard : List String := ["1/32", "1/16", "1/8", "1/4", "AUTO"]

def hierarchy : List String := ["NONE", "1", "2", "4", "AUTO"]

/-- `getOption` finds the key. -/
def getOption (key : String) (map : List String) : Bool := map.contains key

end OptionConverter

/-- `boost::lexical_cast<uint>` does not throw: it takes a sign, and wraps round below zero. -/
def isUint (s : String) : Bool :=
  (Decimal.parse s.toList).any fun n => n.natAbs < UInt32.size

/-- `tuneDVBS` returns. -/
def tuneDVBS (dev : Dev) (data : ScanLine) : Bool :=
  match data with
  | [_, _, _, sr, fec] =>
    dev.type = .dvbS && isUint sr && OptionConverter.getOption fec OptionConverter.codeRate
  | _ => false

/-- `tuneDVBT` returns. -/
def tuneDVBT (dev : Dev) (data : ScanLine) : Bool :=
  match data with
  | [_, _, bw, hi, lo, mod, mode, guard, hier] =>
    dev.type = .dvbT &&
      OptionConverter.getOption bw OptionConverter.bandwidth &&
      OptionConverter.getOption hi OptionConverter.codeRate &&
      OptionConverter.getOption lo OptionConverter.codeRate &&
      OptionConverter.getOption mod OptionConverter.modulation &&
      OptionConverter.getOption mode OptionConverter.transmode &&
      OptionConverter.getOption guard OptionConverter.guard &&
      OptionConverter.getOption hier OptionConverter.hierarchy
  | _ => false

/-- What the processor is started for. -/
inductive Source
  | dvbS (diseqc : ℕ)
  | dvbT
  deriving DecidableEq, Repr

/-- What `doScan` starts the processor for, if the line can be tuned. -/
def tune (dev : Dev) (data : ScanLine) : Option Source :=
  if data.head? = some "S" then
    if tuneDVBS dev data then some (.dvbS 0) else none
  else if data.head? = some "T" then
    if tuneDVBT dev data then some .dvbT else none
  else none

/-- `setData` keeps the line. -/
def supported (data : ScanLine) : Bool :=
  match data.head?.bind (·.toList.head?) with
  | some c => c = 'S' || c = 'T'
  | none => false

/-! ## The thread -/

/-- Where the thread is; `todo` are the lines that `doScan` has not come to. -/
inductive Pc
  /-- at `while (!isStopped())` -/
  | check
  | beforeWait
  /-- in `pthread_cond_wait` -/
  | waiting
  | woken
  /-- at the start of `doScan` -/
  | begin
  | lines (todo : List ScanLine)
  /-- before `m_processor->start` -/
  | tuned (source : Source) (todo : List ScanLine)
  /-- in the main loop of the processor -/
  | run (source : Source) (todo : List ScanLine)
  /-- before `save2DB` -/
  | save (source : Source) (todo : List ScanLine)
  | ended
  deriving DecidableEq, Repr

namespace Pc

/-- The lines of the data are being worked off. -/
def inScan : Pc → Bool
  | .lines _ | .tuned _ _ | .run _ _ | .save _ _ => true
  | _ => false

def inRun : Pc → Bool
  | .run _ _ => true
  | _ => false

end Pc

structure ScanThread where
  /-- `m_trigger.m_exit` -/
  mExit : Bool := false
  /-- `m_trigger.m_loop` -/
  mLoop : Bool := false
  /-- `isStopped()` -/
  stopped : Bool := false
  mDev : Option Dev := none
  mData : List ScanLine := []
  /-- the numbers of the channels -/
  mScanChannel : List ℕ := []
  pc : Pc := .check
  /-- the processor's run has been told to stop -/
  quit : Bool := false
  /-- calls of `stop` that have not signalled the trigger yet -/
  stopping : ℕ := 0
  /-- a scan has been accepted and not been taken up by `doScan` -/
  toScan : Bool := false
  /-- a scan has been accepted, and its device has not been given back -/
  accepted : Bool := false
  /-- `stopScan` has returned since the scan was accepted and before its end -/
  scanStopped : Bool := false
  /-- the processor has been started for a scan after that -/
  late : Bool := false
  /-- the devices that the dvb module has handed out for scanning -/
  occupied : List String := []
  /-- those that it has handed out to calls that failed -/
  failed : List String := []
  deriving DecidableEq, Repr

/-- A call of `Scan::startScan` with what it finds. -/
structure Request where
  /-- the file name of the scan data -/
  data : String
  /-- RESOURCE of the answer to DVBSTART, if its STATUS is OK -/
  resource : Option String
  /-- the type of the device that is found for RESOURCE -/
  dev : Option DevType
  /-- the lines that are read from the file -/
  config : Option (List ScanLine)
  deriving DecidableEq, Repr

namespace ScanThread

/-- A scan has been accepted and is not over. -/
def live (s : ScanThread) : Bool := s.toScan || s.pc.inScan

/-- `m_trigger.startWait(0)`, up to the first `pthread_cond_wait`. -/
def startWait (s : ScanThread) : ScanThread :=
  if s.mExit then { s with mExit := false, mLoop := false, pc := .woken }
  else { s with mLoop := true, pc := .waiting }

/-- `m_trigger.stopWait()` -/
def stopWait (s : ScanThread) : ScanThread :=
  if s.mLoop then { s with mExit := true } else s

/-- `stopScan`: only a run of the processor hears of it. -/
def stopScan (s : ScanThread) : ScanThread :=
  { s with quit := s.quit || s.pc.inRun, scanStopped := s.scanStopped || s.live }

/-- `startScan`, and whether it returns. -/
def startScan (s : ScanThread) (uuid : String) (r : Request) : ScanThread × Bool :=
  if uuid = "" ∨ r.data = "" ∨ s.mDev.isSome then (s, false)
  else
    match r.dev with
    | none => (s, false)
    | some type =>
      -- `setData` clears the old data before it reads the file
      let s := { s with
        mDev := some ⟨uuid, type⟩, mData := [], mScanChannel := [], scanStopped := false }
      match r.config with
      | none => (s, false)
      | some config =>
        (stopWait { s with mData := config.filter supported, toScan := true, accepted := true },
          true)

/-- The processor has been started, or its `start` throws; only `doScanDVBS` ignores that. -/
def start (s : ScanThread) (source : Source) (todo : List ScanLine) (ok : Bool) : ScanThread :=
  { s with
    late := s.late || s.scanStopped
    quit := s.quit && !ok
    pc := if ok then .run source todo else
      match source with
      | .dvbS _ => .save source todo
      | .dvbT => .lines todo }

/-- `saveSDT` and `savePMT`: one entry for each number. -/
def saveSDT (s : ScanThread) (no : ℕ) : ScanThread :=
  { s with
    mScanChannel := if no ∈ s.mScanChannel then s.mScanChannel else s.mScanChannel ++ [no] }

/-- `save2DB`, and where the thread goes on: with the next DiSEqC position if nothing was found on
this one, else with the next line. -/
def save2DB (s : ScanThread) (source : Source) (todo : List ScanLine) (ok : Bool) : ScanThread :=
  { s with
    mScanChannel := []
    pc := match source with
      | .dvbS diseqc =>
        if ok ∧ s.mScanChannel = [] ∧ diseqc + 1 < 5 then .tuned (.dvbS (diseqc + 1)) todo
        else .lines todo
      | .dvbT => .lines todo }

/-- `clearScan`; when DVBSTOP cannot be sent, `m_dev` stays. -/
def clearScan (s : ScanThread) (dev : Dev) (sent : Bool) : ScanThread :=
  if sent then
    { s with
      pc := .check, mDev := none, accepted := false, occupied := s.occupied.erase dev.uuid }
  else { s with pc := .check }

end ScanThread

/-- `Scan::startScan`, and whether a scan has been started.  It throws when DVBSTART is rejected;
when the thread's `startScan` throws, it stops the scan and returns. -/
def Scan.startScan (s : ScanThread) (r : Request) : ScanThread × Bool :=
  match r.resource with
  | none => (s, false)
  | some uuid =>
    match ScanThread.startScan { s with occupied := uuid :: s.occupied } uuid r with
    | (s, true) => (s, true)
    | (s, false) => ({ s.stopScan with failed := uuid :: s.failed }, false)

inductive Action
  /-- `while (!isStopped())` -/
  | check
  | startWait
  /-- `pthread_cond_wait` returns -/
  | wake
  /-- `if (!isStopped())` -/
  | recheck
  | begin
  | tune
  | start (ok : Bool)
  | saveSDT (no : ℕ)
  /-- the main loop of the processor ends, at the latest after `SCANINTERVAL` -/
  | runEnds
  | save2DB (ok : Bool)
  | clearScan (sent : Bool)
  | startScan (request : Request)
  | stopScan
  /-- `Thread::stop` in `stop` -/
  | stop
  /-- `m_trigger.stopWait()` in `stop` -/
  | stopWait
  deriving DecidableEq, Repr

/-- The thread itself makes the step. -/
def Action.ofThread : Action → Bool
  | .startScan _ | .stopScan | .stop | .stopWait => false
  | _ => true

namespace ScanThread

def step (s : ScanThread) : Action → Option ScanThread
  | .check =>
    if s.pc = .check then some { s with pc := if s.stopped then .ended else .beforeWait } else none
  | .startWait => if s.pc = .beforeWait ∧ s.mLoop = false then some s.startWait else none
  | .wake =>
    if s.pc = .waiting ∧ s.mExit = true then
      some { s with mExit := false, mLoop := false, pc := .woken }
    else none
  | .recheck =>
    if s.pc = .woken then some { s with pc := if s.stopped then .check else .begin } else none
  | .begin =>
    match s.pc, s.mDev with
    | .begin, some _ => some { s with toScan := false, pc := .lines s.mData }
    | .begin, none => some { s with pc := .check }
    | _, _ => none
  | .tune =>
    match s.pc, s.mDev with
    | .lines (line :: todo), some dev =>
      some { s with
        pc := match DvbScan.tune dev line with
          | some source => .tuned source todo
          | none => .lines todo }
    | .lines (_ :: _), none => some { s with pc := .check }
    | _, _ => none
  | .start ok =>
    match s.pc with
    | .tuned source todo => some (s.start source todo ok)
    | _ => none
  | .saveSDT no => if s.pc.inRun then some (s.saveSDT no) else none
  | .runEnds =>
    match s.pc with
    | .run source todo => some { s with pc := .save source todo }
    | _ => none
  | .save2DB ok =>
    match s.pc with
    | .save source todo => some (s.save2DB source todo ok)
    | _ => none
  | .clearScan sent =>
    match s.pc, s.mDev with
    | .lines [], some dev => some (s.clearScan dev sent)
    | .lines [], none => some { s with pc := .check }
    | _, _ => none
  | .startScan r => some (Scan.startScan s r).1
  | .stopScan => some s.stopScan
  | .stop => some { s with stopped := true, stopping := s.stopping + 1 }
  | .stopWait =>
    if s.stopping = 0 then none else some { s.stopWait with stopping := s.stopping - 1 }

/-- The thread goes on alone, whatever the processor and the database do. -/
def Goes : ScanThread → ScanThread → Prop :=
  Relation.ReflTransGen fun s t => ∃ a, a.ofThread = true ∧ step s a = some t

/-- The trigger has called the thread into `doScan`. -/
def Called (s : ScanThread) : Prop :=
  s.pc = .begin ∨ s.stopped = false ∧ (s.pc = .woken ∨ s.pc = .waiting ∧ s.mExit = true)

/-- The device of the accepted scan. -/
def scanDev (s : ScanThread) : List String :=
  if s.accepted then s.mDev.toList.map Dev.uuid else []

/-- What the source keeps. -/
structure Inv (s : ScanThread) : Prop where
  loop : s.mLoop = true ↔ s.pc = .waiting
  exit : s.mExit = true → s.pc = .waiting
  stopping : s.stopping ≠ 0 → s.stopped = true
  dev : s.accepted = true → s.mDev.isSome = true
  toScan : s.toScan = true → s.accepted = true
  inScan : s.pc.inScan = true → s.accepted = true ∧ s.toScan = false
  called : s.Called → s.toScan = true
  occupied : s.occupied.Perm (s.scanDev ++ s.failed)

variable {s s' t : ScanThread} {a : Action} {r : Request} {uuid : String} {dev : Dev}
variable {source : Source} {line : ScanLine} {todo : List ScanLine} {ok : Bool} {no : ℕ}

/-! ## Starting a scan -/

/-- What a call of `Scan::startScan` can do. -/
inductive Starts (s : ScanThread) (r : Request) : ScanThread × Bool → Prop
  /-- DVBSTART is rejected -/
  | rejected (h : r.resource = none) : Starts s r (s, false)
  /-- nothing has been set when the thread's `startScan` throws -/
  | refused {uuid : String} (h : r.resource = some uuid)
      (hbad : uuid = "" ∨ r.data = "" ∨ s.mDev.isSome = true ∨ r.dev = none) :
      Starts s r ({ s.stopScan with
        occupied := uuid :: s.occupied, failed := uuid :: s.failed }, false)
  /-- the device has been set when the scan data cannot be read -/
  | unread {uuid : String} {type : DevType} (h : r.resource = some uuid)
      (hgood : uuid ≠ "" ∧ r.data ≠ "")
      (hfree : s.mDev = none) (hdev : r.dev = some type) (hconfig : r.config = none) :
      Starts s r ({ s with
        mDev := some ⟨uuid, type⟩, mData := [], mScanChannel := [], quit := s.quit || s.pc.inRun
        scanStopped := s.live, occupied := uuid :: s.occupied, failed := uuid :: s.failed }, false)
  | accepted {uuid : String} {type : DevType} {config : List ScanLine}
      (h : r.resource = some uuid) (hgood : uuid ≠ "" ∧ r.data ≠ "")
      (hfree : s.mDev = none) (hdev : r.dev = some type) (hconfig : r.config = some config) :
      Starts s r ({ s with
        mDev := some ⟨uuid, type⟩, mData := config.filter supported, mScanChannel := []
        scanStopped := false, toScan := true, accepted := true, mExit := s.mExit || s.mLoop
        occupied := uuid :: s.occupied }, true)

theorem startScan_cases (s : ScanThread) (r : Request) : Starts s r (Scan.startScan s r) := by
  unfold Scan.startScan
  cases hresource : r.resource with
  | none => exact .rejected hresource
  | some uuid =>
    unfold ScanThread.startScan
    by_cases hbad : uuid = "" ∨ r.data = "" ∨ s.mDev.isSome
    · simp only [if_pos hbad]
      exact .refused hresource (by tauto)
    · simp only [if_neg hbad]
      simp only [not_or, Bool.not_eq_true, Option.isSome_eq_false_iff, Option.isNone_iff_eq_none]
        at hbad
      cases hdev : r.dev with
      | none => exact .refused hresource (.inr (.inr (.inr hdev)))
      | some type =>
        cases hconfig : r.config with
        | none =>
          have h := Starts.unread hresource ⟨hbad.1, hbad.2.1⟩ hbad.2.2 hdev hconfig
          simpa [stopScan, live] using h
        | some config =>
          have h := Starts.accepted hresource ⟨hbad.1, hbad.2.1⟩ hbad.2.2 hdev hconfig
          cases hloop : s.mLoop <;> simpa [stopWait, hloop] using h

theorem pc_startScan (s : ScanThread) (r : Request) : (Scan.startScan s r).1.pc = s.pc := by
  have hstart := startScan_cases s r
  generalize Scan.startScan s r = p at hstart ⊢
  cases hstart <;> rfl

/-! ## Steps -/

/-- What a step can do: one constructor for each of its branches. -/
inductive Moves (s : ScanThread) : Action → ScanThread → Prop
  | quit (h : s.pc = .check) (hstop : s.stopped = true) : Moves s .check { s with pc := .ended }
  | check (h : s.pc = .check) (hstop : s.stopped = false) :
      Moves s .check { s with pc := .beforeWait }
  | pass (h : s.pc = .beforeWait) (hloop : s.mLoop = false) (hexit : s.mExit = true) :
      Moves s .startWait { s with mExit := false, mLoop := false, pc := .woken }
  | wait (h : s.pc = .beforeWait) (hloop : s.mLoop = false) (hexit : s.mExit = false) :
      Moves s .startWait { s with mLoop := true, pc := .waiting }
  | wake (h : s.pc = .waiting) (hexit : s.mExit = true) :
      Moves s .wake { s with mExit := false, mLoop := false, pc := .woken }
  | turnBack (h : s.pc = .woken) (hstop : s.stopped = true) :
      Moves s .recheck { s with pc := .check }
  | recheck (h : s.pc = .woken) (hstop : s.stopped = false) :
      Moves s .recheck { s with pc := .begin }
  | begin (h : s.pc = .begin) {dev : Dev} (hdev : s.mDev = some dev) :
      Moves s .begin { s with toScan := false, pc := .lines s.mData }
  | beginThrows (h : s.pc = .begin) (hdev : s.mDev = none) :
      Moves s .begin { s with pc := .check }
  | tune {line : ScanLine} {todo : List ScanLine} {dev : Dev} {source : Source}
      (h : s.pc = .lines (line :: todo)) (hdev : s.mDev = some dev)
      (htune : DvbScan.tune dev line = some source) :
      Moves s .tune { s with pc := .tuned source todo }
  | skip {line : ScanLine} {todo : List ScanLine} {dev : Dev}
      (h : s.pc = .lines (line :: todo)) (hdev : s.mDev = some dev)
      (htune : DvbScan.tune dev line = none) : Moves s .tune { s with pc := .lines todo }
  | tuneThrows {line : ScanLine} {todo : List ScanLine} (h : s.pc = .lines (line :: todo))
      (hdev : s.mDev = none) : Moves s .tune { s with pc := .check }
  | start {source : Source} {todo : List ScanLine} {ok : Bool} (h : s.pc = .tuned source todo) :
      Moves s (.start ok) (s.start source todo ok)
  | saveSDT {source : Source} {todo : List ScanLine} {no : ℕ} (h : s.pc = .run source todo) :
      Moves s (.saveSDT no) (s.saveSDT no)
  | runEnds {source : Source} {todo : List ScanLine} (h : s.pc = .run source todo) :
      Moves s .runEnds { s with pc := .save source todo }
  | save2DB {source : Source} {todo : List ScanLine} {ok : Bool} (h : s.pc = .save source todo) :
      Moves s (.save2DB ok) (s.save2DB source todo ok)
  | clearScan {dev : Dev} {sent : Bool} (h : s.pc = .lines []) (hdev : s.mDev = some dev) :
      Moves s (.clearScan sent) (s.clearScan dev sent)
  | clearThrows {sent : Bool} (h : s.pc = .lines []) (hdev : s.mDev = none) :
      Moves s (.clearScan sent) { s with pc := .check }
  | startScan {r : Request} : Moves s (.startScan r) (Scan.startScan s r).1
  | stopScan : Moves s .stopScan s.stopScan
  | stop : Moves s .stop { s with stopped := true, stopping := s.stopping + 1 }
  | stopWait (h : s.stopping ≠ 0) :
      Moves s .stopWait
        { s with mExit := s.mExit || s.mLoop, stopping := s.stopping - 1 }

theorem step_cases (h : s.step a = some s') : s.Moves a s' := by
  cases a with
  | check =>
    simp only [step, Option.ite_none_right_eq_some, Option.some.injEq] at h
    obtain ⟨hpc, rfl⟩ := h
    split
    next hstop => exact .quit hpc hstop
    next hstop => exact .check hpc (Bool.eq_false_iff.2 hstop)
  | startWait =>
    simp only [step, Option.ite_none_right_eq_some, Option.some.injEq, startWait] at h
    obtain ⟨⟨hpc, hloop⟩, rfl⟩ := h
    split
    next hexit => exact .pass hpc hloop hexit
    next hexit => exact .wait hpc hloop (Bool.eq_false_iff.2 hexit)
  | wake =>
    simp only [step, Option.ite_none_right_eq_some, Option.some.injEq] at h
    obtain ⟨⟨hpc, hexit⟩, rfl⟩ := h
    exact .wake hpc hexit
  | recheck =>
    simp only [step, Option.ite_none_right_eq_some, Option.some.injEq] at h
    obtain ⟨hpc, rfl⟩ := h
    split
    next hstop => exact .turnBack hpc hstop
    next hstop => exact .recheck hpc (Bool.eq_false_iff.2 hstop)
  | begin =>
    simp only [step] at h
    split at h
    next dev hpc hdev => exact Option.some.inj h ▸ .begin hpc hdev
    next hpc hdev => exact Option.some.inj h ▸ .beginThrows hpc hdev
    next => cases h
  | tune =>
    simp only [step] at h
    split at h
    next line todo dev hpc hdev =>
      obtain rfl := Option.some.inj h
      cases htune : DvbScan.tune dev line with
      | none => exact .skip hpc hdev htune
      | some source => exact .tune hpc hdev htune
    next hpc hdev => exact Option.some.inj h ▸ .tuneThrows hpc hdev
    next => cases h
  | start ok =>
    simp only [step] at h
    split at h
    next hpc => exact Option.some.inj h ▸ .start hpc
    next => cases h
  | saveSDT no =>
    simp only [step, Option.ite_none_right_eq_some, Option.some.injEq] at h
    obtain ⟨hrun, rfl⟩ := h
    cases hpc : s.pc with
    | run source todo => exact .saveSDT hpc
    | _ => rw [hpc] at hrun; cases hrun
  | runEnds =>
    simp only [step] at h
    split at h
    next hpc => exact Option.some.inj h ▸ .runEnds hpc
    next => cases h
  | save2DB ok =>
    simp only [step] at h
    split at h
    next hpc => exact Option.some.inj h ▸ .save2DB hpc
    next => cases h
  | clearScan sent =>
    simp only [step] at h
    split at h
    next hpc hdev => exact Option.some.inj h ▸ .clearScan hpc hdev
    next hpc hdev => exact Option.some.inj h ▸ .clearThrows hpc hdev
    next => cases h
  | startScan r => exact Option.some.inj h ▸ .startScan
  | stopScan => exact Option.some.inj h ▸ .stopScan
  | stop => exact Option.some.inj h ▸ .stop
  | stopWait =>
    simp only [step, Option.ite_none_left_eq_some, Option.some.injEq] at h
    obtain ⟨hstopping, rfl⟩ := h
    have hmove := Moves.stopWait hstopping
    cases hloop : s.mLoop <;> simpa [stopWait, hloop] using hmove

/-! ## The invariant -/

theorem inv_init : Inv {} := by
  refine ⟨by decide, nofun, fun h => absurd rfl h, nofun, nofun, nofun, ?_, .nil⟩
  rintro (h | ⟨-, h | ⟨h, -⟩⟩) <;> cases h

theorem inv_startScan (hI : s.Inv) : (Scan.startScan s r).1.Inv := by
  have hstart := startScan_cases s r
  generalize Scan.startScan s r = p at hstart ⊢
  obtain ⟨hloop, hexit, hstopping, hdev, htoScan, hinScan, hcalled, hocc⟩ := hI
  cases hstart with
  | rejected => exact ⟨hloop, hexit, hstopping, hdev, htoScan, hinScan, hcalled, hocc⟩
  | refused =>
    refine ⟨hloop, hexit, hstopping, hdev, htoScan, hinScan, hcalled, ?_⟩
    exact (hocc.cons _).trans List.perm_middle.symm
  | unread _ _ hfree =>
    have hacc : s.accepted = false := by simpa [hfree] using hdev
    refine ⟨hloop, hexit, hstopping, fun _ => rfl, htoScan, hinScan, hcalled, ?_⟩
    simp only [scanDev, hacc] at hocc ⊢
    exact hocc.cons _
  | accepted _ _ hfree =>
    have hacc : s.accepted = false := by simpa [hfree] using hdev
    refine ⟨hloop, ?_, hstopping, fun _ => rfl, fun _ => rfl, ?_, fun _ => rfl, ?_⟩
    · intro h
      obtain h | h := Bool.or_eq_true_iff.1 h
      · exact hexit h
      · exact hloop.1 h
    · intro h
      cases hacc.symm.trans (hinScan h).1
    · simp only [scanDev, hacc] at hocc ⊢
      exact hocc.cons _

theorem not_called_of_pc (hbegin : s.pc ≠ .begin) (hwoken : s.pc ≠ .woken)
    (hwaiting : s.pc ≠ .waiting) : ¬s.Called := by
  rintro (h | ⟨-, h | ⟨h, -⟩⟩)
  · exact hbegin h
  · exact hwoken h
  · exact hwaiting h

theorem not_called_of_inScan (h : s.pc.inScan = true) : ¬s.Called := by
  apply not_called_of_pc <;> intro hpc <;> rw [hpc] at h <;> cases h

/-- On its way through the lines the thread changes nothing that the invariant is about. -/
theorem Inv.goOn (hI : s.Inv) (h : s.pc.inScan = true) {pc : Pc} (hpc : pc.inScan = true)
    (quit late : Bool) (channels : List ℕ) :
    Inv { s with pc := pc, quit := quit, late := late, mScanChannel := channels } := by
  have hwait : s.pc ≠ .waiting := fun heq => by rw [heq] at h; cases h
  have hwait' : pc ≠ .waiting := fun heq => by rw [heq] at hpc; cases hpc
  exact ⟨hI.loop.trans (iff_of_false hwait hwait'), fun hexit => absurd (hI.exit hexit) hwait,
    hI.stopping, hI.dev, hI.toScan, fun _ => hI.inScan h,
    fun hcall => absurd hcall (not_called_of_inScan hpc), hI.occupied⟩

/-- From outside of the wait to a place of the loop. -/
theorem Inv.moveTo (hI : s.Inv) (h : s.pc ≠ .waiting) {pc : Pc} (hscan : pc.inScan = false)
    (hpc : pc ≠ .waiting) (hcalled : Called { s with pc := pc } → s.Called) :
    Inv { s with pc := pc } := by
  refine ⟨hI.loop.trans (iff_of_false h hpc), fun hexit => absurd (hI.exit hexit) h, hI.stopping,
    hI.dev, hI.toScan, fun hscan' => ?_, fun hcall => hI.called (hcalled hcall), hI.occupied⟩
  cases hscan.symm.trans hscan'

theorem Inv.leave (hI : s.Inv) (h : s.pc ≠ .waiting) : Inv { s with pc := .check } :=
  hI.moveTo h rfl nofun fun hcall => absurd hcall (not_called_of_pc nofun nofun nofun)

theorem inv_wait (hI : s.Inv) (hexit : s.mExit = false) :
    Inv { s with mLoop := true, pc := .waiting } := by
  refine ⟨iff_of_true rfl rfl, fun _ => rfl, hI.stopping, hI.dev, hI.toScan, nofun, ?_,
    hI.occupied⟩
  rintro (h | ⟨-, h | ⟨-, h⟩⟩)
  · cases h
  · cases h
  · cases hexit.symm.trans h

theorem inv_wake (hI : s.Inv) (h : s.pc = .waiting) (hexit : s.mExit = true) :
    Inv { s with mExit := false, mLoop := false, pc := .woken } := by
  refine ⟨iff_of_false nofun nofun, nofun, hI.stopping, hI.dev, hI.toScan, nofun, ?_, hI.occupied⟩
  rintro (h' | ⟨hrun, -⟩)
  · cases h'
  · exact hI.called (.inr ⟨hrun, .inr ⟨h, hexit⟩⟩)

theorem inv_begin (hI : s.Inv) (h : s.pc = .begin) :
    Inv { s with toScan := false, pc := .lines s.mData } := by
  have hwait : s.pc ≠ .waiting := by rw [h]; nofun
  have hacc : s.accepted = true := hI.toScan (hI.called (.inl h))
  exact ⟨hI.loop.trans (iff_of_false hwait nofun), fun hexit => absurd (hI.exit hexit) hwait,
    hI.stopping, hI.dev, nofun, fun _ => ⟨hacc, rfl⟩,
    fun hcall => absurd hcall (not_called_of_inScan rfl), hI.occupied⟩

theorem inScan_start : (s.start source todo ok).pc.inScan = true := by
  cases ok <;> cases source <;> rfl

theorem inScan_save2DB : (s.save2DB source todo ok).pc.inScan = true := by
  cases source with
  | dvbS diseqc => dsimp only [save2DB]; split <;> rfl
  | dvbT => rfl

theorem inv_start (hI : s.Inv) (h : s.pc = .tuned source todo) : (s.start source todo ok).Inv :=
  hI.goOn (h ▸ rfl) (inScan_start (s := s)) _ _ _

theorem inv_save2DB (hI : s.Inv) (h : s.pc = .save source todo) :
    (s.save2DB source todo ok).Inv :=
  hI.goOn (h ▸ rfl) (inScan_save2DB (s := s)) _ _ _

theorem accepted_of_live (hI : s.Inv) (h : s.live = true) : s.accepted = true := by
  obtain h | h := Bool.or_eq_true_iff.1 h
  · exact hI.toScan h
  · exact (hI.inScan h).1

theorem mDev_of_live (hI : s.Inv) (h : s.live = true) : s.mDev.isSome = true :=
  hI.dev (accepted_of_live hI h)

theorem live_of_mDev (hI : s.Inv) (h : s.mDev = none) : s.live = false := by
  apply Bool.eq_false_iff.2
  intro hlive
  have hdev := mDev_of_live hI hlive
  rw [h] at hdev
  cases hdev

theorem pc_clearScan : (s.clearScan dev ok).pc = .check := by cases ok <;> rfl

theorem toScan_clearScan : (s.clearScan dev ok).toScan = s.toScan := by cases ok <;> rfl

theorem live_of_inScan (h : s.pc.inScan = true) : s.live = true := by
  rw [live, h, Bool.or_true]

theorem live_of_called (hI : s.Inv) (h : s.Called) : s.live = true :=
  Bool.or_eq_true_iff.2 (.inl (hI.called h))

theorem live_clearScan (hI : s.Inv) (h : s.pc.inScan = true) :
    (s.clearScan dev ok).live = false := by
  rw [live, toScan_clearScan, pc_clearScan, (hI.inScan h).2]
  rfl

theorem inv_clearScan (hI : s.Inv) (h : s.pc = .lines []) (hdev : s.mDev = some dev) :
    (s.clearScan dev ok).Inv := by
  have hleave := hI.leave (by rw [h]; simp)
  obtain ⟨hacc, hscan⟩ := hI.inScan (by rw [h]; rfl)
  cases ok with
  | false => exact hleave
  | true =>
    obtain ⟨hloop, hexit, hstopping, -, -, -, hcalled, hocc⟩ := hleave
    refine ⟨hloop, hexit, hstopping, nofun, fun h' => ?_, nofun, hcalled, ?_⟩
    · cases hscan.symm.trans h'
    · have hperm := hocc.erase dev.uuid
      simp only [scanDev, hacc, hdev] at hperm
      simpa [clearScan, scanDev] using hperm

theorem inv_stopWait (hI : s.Inv) (h : s.stopping ≠ 0) :
    Inv { s with mExit := s.mExit || s.mLoop, stopping := s.stopping - 1 } := by
  have hstop := hI.stopping h
  refine ⟨hI.loop, fun hexit => ?_, fun _ => hstop, hI.dev, hI.toScan, hI.inScan, ?_, hI.occupied⟩
  · obtain hexit | hloop := Bool.or_eq_true_iff.1 hexit
    · exact hI.exit hexit
    · exact hI.loop.1 hloop
  · rintro (hpc | ⟨hrun, -⟩)
    · exact hI.called (.inl hpc)
    · cases hstop.symm.trans hrun

theorem inv_step (hI : s.Inv) (h : s.step a = some s') : s'.Inv := by
  cases step_cases h with
  | tune hpc | skip hpc | runEnds hpc | saveSDT hpc =>
    exact hI.goOn (by rw [hpc]; rfl) (by simp [hpc, Pc.inScan]) _ _ _
  | start hpc => exact inv_start hI hpc
  | save2DB hpc => exact inv_save2DB hI hpc
  | clearScan hpc hdev => exact inv_clearScan hI hpc hdev
  | tuneThrows hpc | clearThrows hpc | beginThrows hpc | turnBack hpc =>
    exact hI.leave (by rw [hpc]; nofun)
  | quit hpc | check hpc =>
    refine hI.moveTo (by rw [hpc]; nofun) rfl nofun fun hcall => ?_
    exact absurd hcall (not_called_of_pc nofun nofun nofun)
  | recheck hpc hrun =>
    exact hI.moveTo (by rw [hpc]; nofun) rfl nofun fun _ => .inr ⟨hrun, .inl hpc⟩
  | pass hpc _ hexit => cases hpc.symm.trans (hI.exit hexit)
  | wait _ _ hexit => exact inv_wait hI hexit
  | wake hpc hexit => exact inv_wake hI hpc hexit
  | begin hpc => exact inv_begin hI hpc
  | startScan => exact inv_startScan hI
  | stopScan => exact ⟨hI.loop, hI.exit, hI.stopping, hI.dev, hI.toScan, hI.inScan, hI.called,
      hI.occupied⟩
  | stop =>
    refine ⟨hI.loop, hI.exit, fun _ => rfl, hI.dev, hI.toScan, hI.inScan, ?_, hI.occupied⟩
    rintro (hpc | ⟨hrun, -⟩)
    · exact hI.called (.inl hpc)
    · cases hrun
  | stopWait hstop => exact inv_stopWait hI hstop

end ScanThread

end Kalinka.DvbScan
