import Kalinka.App.Dvb.Scan.ScanThread

/-!
# Scans that cannot be started

`Scan::startScan` answers a failure of the thread's `startScan` with `stopScan`: that ends a run of
the scan before, leaves a device set if it was the scan data that could not be read, and never gives
back the device that DVBSTART has handed out.

`eachStep_startAtomic_iff` says exactly which sequences of calls do not come to that.
-/

namespace Kalinka.DvbScan

open Run

/-- The device is known and the scan data can be read. -/
structure Request.Valid (r : Request) (uuid : String) : Prop where
  uuid : uuid ≠ ""
  data : r.data ≠ ""
  dev : r.dev ≠ none
  config : r.config ≠ none

namespace ScanThread

/-- What a call that fails leaves. -/
structure LeavesAlone (s s' : ScanThread) : Prop where
  /-- the scan that runs goes on -/
  running : s.mDev ≠ none → s'.mDev = s.mDev ∧ s'.mData = s.mData ∧
    s'.mScanChannel = s.mScanChannel ∧ s'.pc = s.pc ∧ s'.quit = s.quit
  unset : s.mDev = none → s'.mDev = none
  givenBack : s'.occupied = s.occupied
  /-- a later call can start a scan on any device -/
  later : s.mDev = none → ∀ r uuid, r.resource = some uuid → r.Valid uuid →
    (Scan.startScan s' r).2 = true

/-- A call of `Scan::startScan` that fails leaves alone what it finds. -/
def StartAtomic (s : ScanThread) : Action → Prop
  | .startScan r => (Scan.startScan s r).2 = false → LeavesAlone s (Scan.startScan s r).1
  | _ => True

/-- A call for which DVBSTART hands out a device is valid and finds no device set. -/
def StartOk (s : ScanThread) : Action → Prop
  | .startScan r => ∀ uuid, r.resource = some uuid → r.Valid uuid ∧ s.mDev = none
  | _ => True

variable {s s' : ScanThread} {a : Action} {r : Request} {uuid : String} {acts : List Action}

theorem startScan_of_mDev_eq_none (hfree : s.mDev = none) (hresource : r.resource = some uuid)
    (hvalid : r.Valid uuid) : (Scan.startScan s r).2 = true := by
  have hstart := startScan_cases s r
  generalize Scan.startScan s r = p at hstart ⊢
  cases hstart with
  | accepted => rfl
  | rejected h => cases h.symm.trans hresource
  | unread _ _ _ _ hconfig => exact absurd hconfig hvalid.config
  | refused h hbad =>
    cases h.symm.trans hresource
    obtain h | h | h | h := hbad
    · exact absurd h hvalid.uuid
    · exact absurd h hvalid.data
    · rw [hfree] at h
      cases h
    · exact absurd h hvalid.dev

theorem startScan_iff : (Scan.startScan s r).2 = true ↔
    ∃ uuid, r.resource = some uuid ∧ r.Valid uuid ∧ s.mDev = none := by
  refine ⟨fun h => ?_, fun ⟨_, hresource, hvalid, hfree⟩ =>
    startScan_of_mDev_eq_none hfree hresource hvalid⟩
  have hstart := startScan_cases s r
  generalize Scan.startScan s r = p at hstart h
  cases hstart with
  | accepted hresource hgood hfree hdev hconfig =>
    exact ⟨_, hresource, ⟨hgood.1, hgood.2, by simp [hdev], by simp [hconfig]⟩, hfree⟩
  | _ => cases h

/-- A call that is rejected has changed nothing. -/
theorem leavesAlone_refl : LeavesAlone s s where
  running _ := ⟨rfl, rfl, rfl, rfl, rfl⟩
  unset h := h
  givenBack := rfl
  later hfree _ _ := startScan_of_mDev_eq_none hfree

theorem startAtomic_iff : StartAtomic s (.startScan r) ↔ StartOk s (.startScan r) := by
  rw [StartAtomic, StartOk]
  have hstart := startScan_cases s r
  generalize Scan.startScan s r = p at hstart ⊢
  -- the device of a call that fails stays occupied
  have hkeeps (uuid : String) : uuid :: s.occupied ≠ s.occupied := fun h => by
    simpa using congrArg List.length h
  cases hstart with
  | rejected h =>
    apply iff_of_true (fun _ => leavesAlone_refl)
    intro uuid huuid
    cases h.symm.trans huuid
  | refused h hbad =>
    apply iff_of_false (fun hatomic => hkeeps _ (hatomic rfl).givenBack)
    intro hok
    obtain ⟨hvalid, hfree⟩ := hok _ h
    obtain h | h | h | h := hbad
    · exact hvalid.uuid h
    · exact hvalid.data h
    · rw [hfree] at h
      cases h
    · exact hvalid.dev h
  | unread h _ _ _ hconfig =>
    apply iff_of_false (fun hatomic => hkeeps _ (hatomic rfl).givenBack)
    intro hok
    exact (hok _ h).1.config hconfig
  | accepted h hgood hfree hdev hconfig =>
    apply iff_of_true nofun
    intro uuid huuid
    cases h.symm.trans huuid
    exact ⟨⟨hgood.1, hgood.2, by simp [hdev], by simp [hconfig]⟩, hfree⟩

/-- In a run, every failing call leaves alone what it finds if and only if each call for which
DVBSTART hands out a device is valid and finds no device set. -/
theorem eachStep_startAtomic_iff :
    EachStep step StartAtomic {} acts ↔ EachStep step StartOk {} acts := by
  refine eachStep_congr (I := Inv) inv_step (fun {_ a _} _ _ => ?_) inv_init
  cases a with
  | startScan r => exact startAtomic_iff
  | _ => exact Iff.rfl

/-- A missing file leaves the device set and occupied, and every later call fails. -/
theorem missingFile_not_startAtomic :
    ∃ s, exec step {} [.startScan ⟨"scan-s.conf", some "dev1", some .dvbS, none⟩] = some s ∧
      ¬EachStep step StartAtomic {} [.startScan ⟨"scan-s.conf", some "dev1", some .dvbS, none⟩] ∧
      s.mDev = some ⟨"dev1", .dvbS⟩ ∧ s.occupied = ["dev1"] ∧
      (Scan.startScan s ⟨"scan-t.conf", some "dev2", some .dvbT, some []⟩).2 = false := by
  refine ⟨_, rfl, fun h => ?_, rfl, rfl, rfl⟩
  exact nomatch ((h _ rfl).1 rfl).unset rfl

end ScanThread

end Kalinka.DvbScan
