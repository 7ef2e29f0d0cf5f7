import Kalinka.App.Dvb.Scan.ScanThread
import Kalinka.Common.Utils
import Kalinka.Lib.Interleave
import Kalinka.Lib.Keyed

/-!
# The channels of a scan

While a transponder is scanned, its SDT tells the names of the services and its PMTs the pids, and
the receiver delivers the two in any order.  `saveSDT` and `savePMT` put what they tell into the
channel with the service's number, which is made by the first of them.

`scan_events_commute` says that the channels do not depend on that order.
-/

namespace Kalinka.DvbScan

open Keyed Interleave

/-- `PID_VIDEO`, `PID_AUDIO`, or another string. -/
inductive PidType
  | video
  | audio
  | other
  deriving DecidableEq, Repr

structure ScanChannel where
  mChannelNo : ℕ
  mName : List Char := []
  mProvider : List Char := []
  mVideoPid : List ℕ := []
  mAudioPid : List ℕ := []
  /-- scrambled by default -/
  mScrambling : Bool := true
  mDev : Dev
  deriving DecidableEq, Repr

/-- The arguments of `saveSDT`. -/
structure SDT where
  no : ℕ
  name : List Char
  prvname : List Char
  scrambled : Bool

/-- The arguments of `savePMT`. -/
structure PMT where
  no : ℕ
  pid : ℕ
  type : PidType

/-! ## The code -/

namespace ScanChannel

def setChannelName (c : ScanChannel) (name : List Char) : ScanChannel :=
  { c with mName := Utils.trim name }

def setProviderName (c : ScanChannel) (name : List Char) : ScanChannel :=
  { c with mProvider := Utils.trim name }

def setScrambling (c : ScanChannel) (value : Bool) : ScanChannel := { c with mScrambling := value }

/-- `push_back`, if the pid is not in the list. -/
def addTo (list : List ℕ) (pid : ℕ) : List ℕ := if pid ∈ list then list else list ++ [pid]

/-- `none` when it throws. -/
def addPid (c : ScanChannel) (pid : ℕ) : PidType → Option ScanChannel
  | .video => some { c with mVideoPid := addTo c.mVideoPid pid }
  | .audio => some { c with mAudioPid := addTo c.mAudioPid pid }
  | .other => none

end ScanChannel

/-- What `saveSDT` does to the channel that it has found or made. -/
def SDT.set (e : SDT) (c : ScanChannel) : ScanChannel :=
  ((c.setChannelName e.name).setProviderName e.prvname).setScrambling e.scrambled

/-- What `savePMT` does to the channel that it has found: if `addPid` throws, nothing. -/
def PMT.set (e : PMT) (c : ScanChannel) : ScanChannel := (c.addPid e.pid e.type).getD c

/-- `ScanThread::saveSDT`.  A channel is made if there is a device, else the assertion fails. -/
def saveSDT (mDev : Option Dev) (mScanChannel : List ScanChannel) (e : SDT) : List ScanChannel :=
  upsert ScanChannel.mChannelNo e.no e.set
    (mDev.map fun dev => e.set { mChannelNo := e.no, mDev := dev }) mScanChannel

/-- `ScanThread::savePMT`.  A channel whose pid cannot be added is not put in. -/
def savePMT (mDev : Option Dev) (mScanChannel : List ScanChannel) (e : PMT) : List ScanChannel :=
  upsert ScanChannel.mChannelNo e.no e.set
    (mDev.bind fun dev => ({ mChannelNo := e.no, mDev := dev } : ScanChannel).addPid e.pid e.type)
    mScanChannel

/-- What one event makes of the channels. -/
def save (mDev : Option Dev) (mScanChannel : List ScanChannel) : SDT ⊕ PMT → List ScanChannel
  | .inl e => saveSDT mDev mScanChannel e
  | .inr e => savePMT mDev mScanChannel e

/-! ## One channel -/

/-- What an event makes of the channel with some number. -/
def saveEntry (mDev : Option Dev) (no : ℕ) (c : Option ScanChannel) :
    SDT ⊕ PMT → Option ScanChannel
  | .inl e =>
    if e.no = no then (c.map e.set).or (mDev.map fun dev => e.set { mChannelNo := no, mDev := dev })
    else c
  | .inr e =>
    if e.no = no then (c.map e.set).or
      (mDev.bind fun dev => ({ mChannelNo := no, mDev := dev } : ScanChannel).addPid e.pid e.type)
    else c

variable {mDev : Option Dev} {no pid : ℕ} {type : PidType} {c : ScanChannel}
variable {mScanChannel : List ScanChannel} {e : SDT ⊕ PMT} {l l' : List (SDT ⊕ PMT)}

theorem mChannelNo_set_sdt (e : SDT) (c : ScanChannel) : (e.set c).mChannelNo = c.mChannelNo := rfl

theorem mChannelNo_addPid {c' : ScanChannel} (h : c.addPid pid type = some c') :
    c'.mChannelNo = c.mChannelNo := by
  cases type <;> cases h <;> rfl

theorem mChannelNo_set_pmt (e : PMT) (c : ScanChannel) : (e.set c).mChannelNo = c.mChannelNo := by
  unfold PMT.set
  cases h : c.addPid e.pid e.type with
  | none => rfl
  | some c' => exact mChannelNo_addPid h

theorem mChannelNo_new_sdt (e : SDT) :
    ∀ c ∈ mDev.map fun dev => e.set { mChannelNo := e.no, mDev := dev }, c.mChannelNo = e.no := by
  intro c hc
  obtain ⟨dev, -, rfl⟩ := Option.map_eq_some_iff.1 hc
  rfl

theorem mChannelNo_new_pmt (e : PMT) :
    ∀ c ∈ mDev.bind fun dev =>
      ({ mChannelNo := e.no, mDev := dev } : ScanChannel).addPid e.pid e.type,
    c.mChannelNo = e.no := by
  intro c hc
  obtain ⟨dev, -, hadd⟩ := Option.bind_eq_some_iff.1 hc
  exact mChannelNo_addPid hadd

/-- The two kinds of events write different parts of a channel, and either may make it. -/
theorem saveEntry_comm (mDev : Option Dev) (no : ℕ) (c : Option ScanChannel) (a : SDT) (b : PMT) :
    saveEntry mDev no (saveEntry mDev no c (.inl a)) (.inr b) =
      saveEntry mDev no (saveEntry mDev no c (.inr b)) (.inl a) := by
  by_cases ha : a.no = no
  · by_cases hb : b.no = no
    · obtain ⟨_, pid, type⟩ := b
      simp only [saveEntry, if_pos ha, if_pos hb]
      cases c <;> cases mDev <;> cases type <;> rfl
    · simp only [saveEntry, if_neg hb]
  · simp only [saveEntry, if_neg ha]

/-! ## All channels -/

theorem primary_save (h : Primary ScanChannel.mChannelNo mScanChannel) :
    Primary ScanChannel.mChannelNo (save mDev mScanChannel e) := by
  cases e with
  | inl e => exact h.upsert (mChannelNo_set_sdt e) (mChannelNo_new_sdt e)
  | inr e => exact h.upsert (mChannelNo_set_pmt e) (mChannelNo_new_pmt e)

theorem select_save : select ScanChannel.mChannelNo no (save mDev mScanChannel e) =
    saveEntry mDev no (select ScanChannel.mChannelNo no mScanChannel) e := by
  cases e with
  | inl e =>
    by_cases hno : e.no = no
    · rw [saveEntry, if_pos hno, ← hno]
      exact select_upsert_self (mChannelNo_set_sdt e) (mChannelNo_new_sdt e)
    · rw [saveEntry, if_neg hno]
      exact select_upsert_of_ne (mChannelNo_set_sdt e) (mChannelNo_new_sdt e) hno
  | inr e =>
    by_cases hno : e.no = no
    · rw [saveEntry, if_pos hno, ← hno]
      exact select_upsert_self (mChannelNo_set_pmt e) (mChannelNo_new_pmt e)
    · rw [saveEntry, if_neg hno]
      exact select_upsert_of_ne (mChannelNo_set_pmt e) (mChannelNo_new_pmt e) hno

theorem primary_foldl (h : Primary ScanChannel.mChannelNo mScanChannel) :
    Primary ScanChannel.mChannelNo (l.foldl (save mDev) mScanChannel) := by
  induction l generalizing mScanChannel with
  | nil => exact h
  | cons e l ih => exact ih (primary_save h)

theorem select_foldl : select ScanChannel.mChannelNo no (l.foldl (save mDev) mScanChannel) =
    l.foldl (saveEntry mDev no) (select ScanChannel.mChannelNo no mScanChannel) := by
  induction l generalizing mScanChannel with
  | nil => rfl
  | cons e l ih => rw [List.foldl_cons, ih, select_save, List.foldl_cons]

/-- Two interleavings of the same events lead to the same channels, one for each number. -/
theorem scan_events_commute (hsdt : lefts l = lefts l') (hpmt : rights l = rights l') :
    Primary ScanChannel.mChannelNo (l.foldl (save mDev) []) ∧
      (l.foldl (save mDev) []).Perm (l'.foldl (save mDev) []) := by
  have hnil : Primary ScanChannel.mChannelNo [] := List.nodup_nil
  refine ⟨primary_foldl hnil, perm_of_select_eq (primary_foldl hnil) (primary_foldl hnil) ?_⟩
  intro no
  rw [select_foldl, select_foldl]
  exact foldl_eq_of_commute (saveEntry_comm mDev no) hsdt hpmt

/-- A service whose PMT comes last, or first. -/
theorem scan_events_commute_two_orders :
    let sdt : SDT := ⟨28, "arte\n".toList, "ZDF".toList, false⟩
    let pmt : ℕ → PMT := fun pid => ⟨28, pid, .audio⟩
    Primary ScanChannel.mChannelNo
        ([.inl sdt, .inr (pmt 402), .inr (pmt 401)].foldl (save (some ⟨"dev", .dvbS⟩)) []) ∧
      ([.inl sdt, .inr (pmt 402), .inr (pmt 401)].foldl (save (some ⟨"dev", .dvbS⟩)) []).Perm
        ([.inr (pmt 402), .inl sdt, .inr (pmt 401)].foldl (save (some ⟨"dev", .dvbS⟩)) []) :=
  scan_events_commute rfl rfl

/-- The model of the scan thread has the numbers of these channels. -/
theorem mScanChannel_save {s : ScanThread} {dev : Dev}
    (h : s.mScanChannel = mScanChannel.map ScanChannel.mChannelNo) (e : SDT) :
    (s.saveSDT e.no).mScanChannel =
      (saveSDT (some dev) mScanChannel e).map ScanChannel.mChannelNo := by
  rw [saveSDT, map_upsert (mChannelNo_set_sdt e) (mChannelNo_new_sdt e), ScanThread.saveSDT, h]
  simp

end Kalinka.DvbScan
