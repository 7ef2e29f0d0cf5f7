import Kalinka.App.Dvb.Scan.ScanThread

/-!
# Stopping a scan

`stopScan` ends one run of the processor.  `doScan` does not hear of it and goes on with the next
DiSEqC position and the next line, so the scan goes on after the stop unless there is nothing left
that it could start the processor for.

`throughout_ends_iff` says exactly in which interleavings every stopped scan ends.
-/

namespace Kalinka.DvbScan

open Run

/-! ## The length of a scan -/

namespace Source

/-- The steps that are left before `doScan` is done with the line. -/
def rank : Source → ℕ
  | .dvbS diseqc => 3 * (5 - diseqc) + 3
  | .dvbT => 3

end Source

namespace Pc

/-- The lines that `doScan` has not come to. -/
def todo : Pc → List ScanLine
  | .lines todo | .tuned _ todo | .run _ todo | .save _ todo => todo
  | _ => []

/-- A bound on the steps that are left in the scan. -/
def rank : Pc → ℕ
  | .lines todo => 19 * todo.length + 1
  | .tuned source todo => 19 * todo.length + 1 + source.rank
  | .run source todo => 19 * todo.length + source.rank
  | .save source todo => 19 * todo.length + source.rank - 1
  | _ => 0

end Pc

/-- A step with which the thread comes nearer to the end of the scan. -/
def Action.advances (a : Action) : Bool :=
  match a with
  | .saveSDT _ => false
  | a => a.ofThread

namespace ScanThread

/-- None of the lines can be tuned. -/
def Untunable (s : ScanThread) (lines : List ScanLine) : Prop :=
  ∀ dev, s.mDev = some dev → ∀ line ∈ lines, DvbScan.tune dev line = none

/-- There is nothing left that the processor could be started for. -/
structure Ending (s : ScanThread) : Prop where
  called : s.Called → s.Untunable s.mData
  todo : s.Untunable s.pc.todo
  tuned : ∀ source todo, s.pc ≠ .tuned source todo
  /-- on a position before the last one something has been found -/
  position : ∀ diseqc todo,
    s.pc = .run (.dvbS diseqc) todo ∨ s.pc = .save (.dvbS diseqc) todo →
      diseqc + 1 < 5 → s.mScanChannel ≠ []

/-- The scan ends when it has been stopped. -/
structure Ends (s : ScanThread) : Prop where
  /-- the processor has not been started after the stop, and is not when the thread goes on -/
  noStart : ∀ t, s.Goes t → t.late = false
  /-- at the end the device has been given back -/
  released : s.scanStopped = true → s.live = false → s.mDev = none ∧ s.occupied.Perm s.failed
  /-- until then no other scan is accepted, and this one is not lost -/
  refused : s.live = true → ∀ r, (Scan.startScan s r).2 = false ∧
    (Scan.startScan s r).1.mDev = s.mDev ∧ (Scan.startScan s r).1.mData = s.mData ∧
    (Scan.startScan s r).1.live = true
  /-- the thread can go on, and comes to the end after a bounded number of steps -/
  ends : s.pc.inScan = true → (∃ a, a.advances = true ∧ (s.step a).isSome = true) ∧
    ∃ n, ∀ acts t, exec step s acts = some t →
      Throughout step (fun t => t.pc.inScan = true) s acts → acts.countP Action.advances ≤ n

/-- A scan is stopped, by a call or by another call that fails to start one, when there is nothing
left to start the processor for, and at the end of a stopped scan DVBSTOP can be sent. -/
def StopOk (s : ScanThread) : Action → Prop
  | .stopScan => s.live = true → s.Ending
  | .startScan r => r.resource ≠ none → s.live = true → s.Ending
  | .clearScan sent => s.scanStopped = true → sent = true
  | _ => True

variable {s s' t : ScanThread} {a : Action} {r : Request} {acts : List Action}
variable {source : Source} {line : ScanLine} {todo : List ScanLine} {ok : Bool} {no : ℕ}
variable {dev : Dev}

/-! ## The end of the scan -/

theorem source_rank_pos : 0 < source.rank := by
  cases source <;> exact Nat.succ_pos _

theorem rank_start (h : s.pc = .tuned source todo) :
    (s.start source todo ok).pc.rank + 1 ≤ s.pc.rank := by
  rw [h]
  cases ok with
  | true => simp only [start, if_true, Pc.rank]; omega
  | false =>
    cases source with
    | dvbS diseqc => simp only [start, Bool.false_eq_true, if_false, Pc.rank]; omega
    | dvbT => simp only [start, Bool.false_eq_true, if_false, Pc.rank, Source.rank]; omega

theorem rank_save2DB (h : s.pc = .save source todo) :
    (s.save2DB source todo ok).pc.rank + 1 ≤ s.pc.rank := by
  rw [h]
  cases source with
  | dvbT => simp only [save2DB, Pc.rank, Source.rank]; omega
  | dvbS diseqc =>
    simp only [save2DB]
    split <;> simp only [Pc.rank, Source.rank] <;> omega

theorem source_rank_le (h : DvbScan.tune dev line = some source) : source.rank ≤ 18 := by
  unfold DvbScan.tune at h
  split at h
  · cases (Option.ite_none_right_eq_some.1 h).2
    exact Nat.le_refl _
  · split at h
    · cases (Option.ite_none_right_eq_some.1 h).2
      exact (by decide : 3 ≤ 18)
    · cases h

theorem rank_step (hs : s.pc.inScan = true) (hs' : s'.pc.inScan = true)
    (h : s.step a = some s') : s'.pc.rank + (if a.advances then 1 else 0) ≤ s.pc.rank := by
  cases step_cases h with
  | tune hpc _ htune =>
    have hrank := source_rank_le htune
    rw [hpc]
    simp only [Pc.rank, List.length_cons]
    split <;> omega
  | skip hpc =>
    rw [hpc]
    simp only [Pc.rank, List.length_cons]
    split <;> omega
  | start hpc => exact rank_start hpc
  | @runEnds source todo hpc =>
    rw [hpc]
    have hpos : 0 < source.rank := source_rank_pos
    simp only [Pc.rank]
    split <;> omega
  | save2DB hpc => exact rank_save2DB hpc
  | startScan => exact Nat.le_of_eq (congrArg Pc.rank (pc_startScan s _))
  | saveSDT | stopScan | stop | stopWait => exact Nat.le_refl _
  | clearScan => rw [pc_clearScan] at hs'; cases hs'
  | clearThrows | tuneThrows | beginThrows | turnBack | quit | check | pass | wait | wake
  | recheck => cases hs'
  | begin hpc => rw [hpc] at hs; cases hs

theorem exists_advances (hI : s.Inv) (h : s.pc.inScan = true) :
    ∃ a, a.advances = true ∧ (s.step a).isSome = true := by
  obtain ⟨dev, hdev⟩ := Option.isSome_iff_exists.1 (hI.dev (hI.inScan h).1)
  cases hpc : s.pc with
  | lines todo =>
    cases todo with
    | nil => exact ⟨.clearScan true, rfl, by simp [step, hpc, hdev]⟩
    | cons line todo => exact ⟨.tune, rfl, by simp [step, hpc, hdev]⟩
  | tuned source todo => exact ⟨.start true, rfl, by simp [step, hpc]⟩
  | run source todo => exact ⟨.runEnds, rfl, by simp [step, hpc]⟩
  | save source todo => exact ⟨.save2DB true, rfl, by simp [step, hpc]⟩
  | _ => rw [hpc] at h; cases h

/-- The scan does not go on for ever. -/
theorem scan_ends (h : exec step s acts = some t)
    (hscan : Throughout step (fun t => t.pc.inScan = true) s acts) :
    acts.countP Action.advances ≤ s.pc.rank :=
  Nat.le_of_add_right_le (countP_add_rank_le (fun s => s.pc.rank) rank_step h hscan)

/-- A scan that is not over keeps the device, so that no other one is accepted. -/
theorem startScan_of_live (hI : s.Inv) (h : s.live = true) (r : Request) :
    (Scan.startScan s r).2 = false ∧ (Scan.startScan s r).1.mDev = s.mDev ∧
      (Scan.startScan s r).1.mData = s.mData ∧ (Scan.startScan s r).1.live = true := by
  have hdev := mDev_of_live hI h
  have hstart := startScan_cases s r
  generalize Scan.startScan s r = p at hstart ⊢
  cases hstart with
  | rejected | refused => exact ⟨rfl, rfl, rfl, h⟩
  | unread _ _ hfree | accepted _ _ hfree => rw [hfree] at hdev; cases hdev

/-! ## Nothing left to start -/

/-- The processor has not been started too late, and there is nothing left to start it for once the
scan has been stopped. -/
structure Quiet (s : ScanThread) : Prop where
  late : s.late = false
  ending : s.scanStopped = true → s.live = true → s.Ending

/-- A scan is stopped when there is nothing left to start the processor for. -/
def QuietOk (s : ScanThread) : Action → Prop
  | .stopScan => s.live = true → s.Ending
  | .startScan r => r.resource ≠ none → s.live = true → s.Ending
  | _ => True

theorem Untunable.nil : s.Untunable [] := fun _ _ _ => nofun

theorem quiet_of_not_live (hlate : s.late = false) (h : s.live = false) : s.Quiet :=
  ⟨hlate, fun _ h' => (nomatch h.symm.trans h')⟩

/-- Outside of the lines nothing is started but what the thread has been called for. -/
theorem Ending.of_not_inScan (h : s.pc.inScan = false) (hcalled : s.Called → s.Untunable s.mData) :
    s.Ending := by
  refine ⟨hcalled, ?_, fun source todo hpc => ?_, fun diseqc todo hpc => ?_⟩
  · cases hpc : s.pc with
    | lines | tuned | run | save => rw [hpc] at h; cases h
    | _ => exact .nil
  · rw [hpc] at h
    cases h
  · obtain hpc | hpc := hpc <;> rw [hpc] at h <;> cases h

theorem Ending.of_lines (hpc : s.pc = .lines todo) (h : s.Untunable todo) : s.Ending := by
  have hcalled : ¬s.Called := not_called_of_inScan (by rw [hpc]; rfl)
  refine ⟨(absurd · hcalled), ?_, fun _ _ h' => (nomatch hpc.symm.trans h'), ?_⟩
  · rw [hpc]
    exact h
  · rintro _ _ (h' | h') <;> cases hpc.symm.trans h'

/-- A step of the loop. -/
theorem quiet_of_not_inScan (hq : s.Quiet) (hlate : s'.late = s.late)
    (hstopped : s'.scanStopped = s.scanStopped) (hscan : s'.toScan = s.toScan)
    (h : s'.pc.inScan = false) (hdev : s'.mDev = s.mDev) (hdata : s'.mData = s.mData)
    (hcalled : s'.Called → s.Called) : s'.Quiet := by
  refine ⟨hlate.trans hq.late, fun hstop hlive => .of_not_inScan h fun hcall => ?_⟩
  rw [live, h, Bool.or_false, hscan] at hlive
  have hending := hq.ending (hstopped.symm.trans hstop) (Bool.or_eq_true_iff.2 (.inl hlive))
  rw [Untunable, hdev, hdata]
  exact hending.called (hcalled hcall)

/-- A call from outside that does not change where the thread is. -/
theorem Ending.congr (he : s.Ending) (hpc : s'.pc = s.pc) (hdev : s'.mDev = s.mDev)
    (hdata : s'.mData = s.mData) (hchannel : s'.mScanChannel = s.mScanChannel)
    (hcalled : s'.Called → s.Called) : s'.Ending := by
  obtain ⟨hcall, htodo, htuned, hposition⟩ := he
  refine ⟨fun h => ?_, ?_, ?_, ?_⟩
  · rw [Untunable, hdev, hdata]
    exact hcall (hcalled h)
  · rw [Untunable, hdev, hpc]
    exact htodo
  · rw [hpc]
    exact htuned
  · rw [hpc, hchannel]
    exact hposition

theorem late_clearScan : (s.clearScan dev ok).late = s.late := by cases ok <;> rfl

theorem quiet_start (hq : s.Quiet) (hpc : s.pc = .tuned source todo) :
    (s.start source todo ok).Quiet := by
  have hlive : s.live = true := live_of_inScan (by rw [hpc]; rfl)
  have hstopped : s.scanStopped = false := Bool.eq_false_iff.2 fun h =>
    (hq.ending h hlive).tuned source todo hpc
  refine ⟨?_, fun h => nomatch hstopped.symm.trans h⟩
  show (s.late || s.scanStopped) = false
  rw [hq.late, hstopped]
  rfl

theorem quiet_runEnds (hq : s.Quiet) (hpc : s.pc = .run source todo) :
    Quiet { s with pc := .save source todo } := by
  refine ⟨hq.late, fun hstopped _ => ?_⟩
  obtain ⟨-, htodo, -, hposition⟩ := hq.ending hstopped (live_of_inScan (by rw [hpc]; rfl))
  rw [hpc] at htodo
  refine ⟨(absurd · (not_called_of_inScan rfl)), htodo, nofun, fun diseqc todo' h => ?_⟩
  obtain h | h := h <;> cases h
  exact hposition diseqc todo (.inl hpc)

theorem quiet_save2DB (hq : s.Quiet) (hpc : s.pc = .save source todo) :
    (s.save2DB source todo ok).Quiet := by
  refine ⟨hq.late, fun hstopped _ => ?_⟩
  have he : s.Ending := hq.ending hstopped (live_of_inScan (by rw [hpc]; rfl))
  have htodo : s.Untunable todo := by
    have h := he.todo
    rwa [hpc] at h
  cases source with
  | dvbT => exact .of_lines rfl htodo
  | dvbS diseqc =>
    have hlast : ¬(ok = true ∧ s.mScanChannel = [] ∧ diseqc + 1 < 5) := fun h =>
      he.position diseqc todo (.inr hpc) h.2.2 h.2.1
    exact .of_lines (if_neg hlast) htodo

theorem quiet_saveSDT (hq : s.Quiet) : (s.saveSDT no).Quiet := by
  refine ⟨hq.late, fun hstopped hlive => ?_⟩
  obtain ⟨hcalled, htodo, htuned, -⟩ := hq.ending hstopped hlive
  refine ⟨hcalled, htodo, htuned, fun _ _ _ _ hnil => ?_⟩
  -- the number has been entered
  rw [saveSDT] at hnil
  split at hnil
  next h => rw [hnil] at h; cases h
  next => simp at hnil

/-- A step from the lines back to the lines. -/
theorem quiet_lines (hq : s.Quiet) (hscan : s.pc.inScan = true)
    (htodo : s.Ending → s.Untunable todo) : Quiet { s with pc := .lines todo } :=
  ⟨hq.late, fun hstopped _ => .of_lines rfl (htodo (hq.ending hstopped (live_of_inScan hscan)))⟩

theorem called_stop (h : Called { s with stopped := true, stopping := s.stopping + 1 }) :
    s.Called := by
  obtain hpc | ⟨hrun, -⟩ := h
  · exact .inl hpc
  · cases hrun

theorem called_stopWait (hI : s.Inv) (hne : s.stopping ≠ 0)
    (h : Called { s with mExit := s.mExit || s.mLoop, stopping := s.stopping - 1 }) : s.Called := by
  obtain hpc | ⟨hrun, -⟩ := h
  · exact .inl hpc
  · cases (hI.stopping hne).symm.trans hrun

/-- `stopScan`, when it does not come alone. -/
theorem quiet_stopScan_iff (hq : s.Quiet) (occupied failed : List String) :
    Quiet { s.stopScan with occupied := occupied, failed := failed } ↔
      (s.live = true → s.Ending) := by
  constructor
  · intro hq' hlive
    have hstopped : s.stopScan.scanStopped = true := by rw [stopScan, hlive, Bool.or_true]
    exact (hq'.ending hstopped hlive).congr rfl rfl rfl rfl id
  · intro hending
    exact ⟨hq.late, fun _ hlive => (hending hlive).congr rfl rfl rfl rfl id⟩

theorem quiet_startScan_iff (hI : s.Inv) (hq : s.Quiet) :
    (Scan.startScan s r).1.Quiet ↔ (r.resource ≠ none → s.live = true → s.Ending) := by
  have hstart := startScan_cases s r
  generalize Scan.startScan s r = p at hstart ⊢
  cases hstart with
  | rejected h => exact iff_of_true hq fun hne => absurd h hne
  | refused h =>
    rw [quiet_stopScan_iff hq]
    exact ⟨fun h' _ => h', fun h' => h' (by simp [h])⟩
  | unread _ _ hfree =>
    have hidle : s.live = false := live_of_mDev hI hfree
    refine iff_of_true ⟨hq.late, fun hstopped => ?_⟩ fun _ hlive => nomatch hidle.symm.trans hlive
    cases hidle.symm.trans hstopped
  | accepted _ _ hfree =>
    have hidle : s.live = false := live_of_mDev hI hfree
    exact iff_of_true ⟨hq.late, nofun⟩ fun _ hlive => nomatch hidle.symm.trans hlive

theorem quiet_step_iff (hI : s.Inv) (hq : s.Quiet) (h : s.step a = some s') :
    s'.Quiet ↔ QuietOk s a := by
  cases step_cases h with
  | startScan => exact quiet_startScan_iff hI hq
  | stopScan => exact quiet_stopScan_iff hq _ _
  | stop =>
    refine iff_of_true ⟨hq.late, fun hstopped hlive => ?_⟩ trivial
    exact (hq.ending hstopped hlive).congr rfl rfl rfl rfl called_stop
  | stopWait hne =>
    refine iff_of_true ⟨hq.late, fun hstopped hlive => ?_⟩ trivial
    exact (hq.ending hstopped hlive).congr rfl rfl rfl rfl (called_stopWait hI hne)
  | start hpc => exact iff_of_true (quiet_start hq hpc) trivial
  | save2DB hpc => exact iff_of_true (quiet_save2DB hq hpc) trivial
  | saveSDT => exact iff_of_true (quiet_saveSDT hq) trivial
  | runEnds hpc => exact iff_of_true (quiet_runEnds hq hpc) trivial
  | skip hpc =>
    refine iff_of_true (quiet_lines hq (by rw [hpc]; rfl) fun he dev hdev line hline => ?_) trivial
    have htodo := he.todo
    rw [hpc] at htodo
    exact htodo dev hdev line (List.mem_cons_of_mem _ hline)
  | tune hpc hdev htune =>
    refine iff_of_true ⟨hq.late, fun hstopped _ => ?_⟩ trivial
    have htodo := (hq.ending hstopped (live_of_inScan (by rw [hpc]; rfl))).todo
    rw [hpc] at htodo
    cases htune.symm.trans (htodo _ hdev _ List.mem_cons_self)
  | begin hpc =>
    have hlive : s.live = true := live_of_called hI (.inl hpc)
    refine iff_of_true ⟨hq.late, fun hstopped _ => .of_lines rfl ?_⟩ trivial
    exact (hq.ending hstopped hlive).called (.inl hpc)
  | beginThrows hpc hdev =>
    cases (live_of_mDev hI hdev).symm.trans (live_of_called hI (.inl hpc))
  | tuneThrows hpc hdev | clearThrows hpc hdev =>
    cases (live_of_mDev hI hdev).symm.trans (live_of_inScan (by rw [hpc]; rfl))
  | clearScan hpc =>
    refine iff_of_true (quiet_of_not_live (late_clearScan.trans hq.late) ?_) trivial
    exact live_clearScan hI (by rw [hpc]; rfl)
  | pass hpc _ hexit => cases hpc.symm.trans (hI.exit hexit)
  | quit | turnBack | check =>
    refine iff_of_true (quiet_of_not_inScan hq rfl rfl rfl rfl rfl rfl fun hcall => ?_) trivial
    exact absurd hcall (not_called_of_pc nofun nofun nofun)
  | wait _ _ hexit =>
    refine iff_of_true (quiet_of_not_inScan hq rfl rfl rfl rfl rfl rfl ?_) trivial
    rintro (h' | ⟨-, h' | ⟨-, h'⟩⟩)
    · cases h'
    · cases h'
    · cases hexit.symm.trans h'
  | wake hpc hexit =>
    refine iff_of_true (quiet_of_not_inScan hq rfl rfl rfl rfl rfl rfl ?_) trivial
    rintro (h' | ⟨hrun, -⟩)
    · cases h'
    · exact .inr ⟨hrun, .inr ⟨hpc, hexit⟩⟩
  | recheck hpc hrun =>
    refine iff_of_true (quiet_of_not_inScan hq rfl rfl rfl rfl rfl rfl fun _ => ?_) trivial
    exact .inr ⟨hrun, .inl hpc⟩

/-! ## Going on alone -/

theorem quietOk_of_ofThread (h : a.ofThread = true) : QuietOk s a := by
  cases a <;> trivial

theorem late_of_goes (hI : s.Inv) (hq : s.Quiet) (h : s.Goes t) : t.late = false := by
  have ht : t.Inv ∧ t.Quiet := by
    refine reflTransGen_induction (I := fun t => t.Inv ∧ t.Quiet) ?_ ⟨hI, hq⟩ h
    rintro u a u' ⟨hI, hq⟩ hthread hstep
    exact ⟨inv_step hI hstep, (quiet_step_iff hI hq hstep).2 (quietOk_of_ofThread hthread)⟩
  exact ht.2.late

/-- The scan has been stopped, and however the thread goes on alone, it does not start the
processor. -/
structure Stays (s : ScanThread) : Prop where
  stopped : s.scanStopped = true
  noStart : ∀ t, s.Goes t → t.late = false

theorem Stays.goOn (h : s.Stays) (hthread : a.ofThread = true) (hstep : s.step a = some s')
    (hstopped : s'.scanStopped = s.scanStopped) : s'.Stays :=
  ⟨hstopped.trans h.stopped, fun t hgoes => h.noStart t (.head ⟨a, hthread, hstep⟩ hgoes)⟩

theorem Stays.not_tuned (h : s.Stays) : s.pc ≠ .tuned source todo := by
  intro hpc
  have hstep : s.step (.start true) = some (s.start source todo true) := by simp [step, hpc]
  have hlate := (h.goOn rfl hstep rfl).noStart _ .refl
  rw [show (s.start source todo true).late = (s.late || s.scanStopped) from rfl, h.stopped,
    Bool.or_true] at hlate
  cases hlate

/-- Going through the lines, the thread would start the processor for the first one that can be
tuned. -/
theorem Stays.untunable (h : s.Stays) (hpc : s.pc = .lines todo) : s.Untunable todo := by
  induction todo generalizing s with
  | nil => exact .nil
  | cons line todo ih =>
    intro dev hdev
    cases htune : DvbScan.tune dev line with
    | some source =>
      have hstep : s.step .tune = some { s with pc := .tuned source todo } := by
        simp [step, hpc, hdev, htune]
      exact absurd rfl (h.goOn rfl hstep rfl).not_tuned
    | none =>
      have hstep : s.step .tune = some { s with pc := .lines todo } := by
        simp [step, hpc, hdev, htune]
      have hrest : Untunable { s with pc := .lines todo } todo := ih (h.goOn rfl hstep rfl) rfl
      exact List.forall_mem_cons.2 ⟨htune, hrest dev hdev⟩

theorem Stays.ending_of_save (h : s.Stays) (hpc : s.pc = .save source todo) : s.Ending := by
  have hstep : s.step (.save2DB false) = some (s.save2DB source todo false) := by simp [step, hpc]
  have hlines : (s.save2DB source todo false).pc = .lines todo := by cases source <;> rfl
  have htodo : s.Untunable todo := (h.goOn rfl hstep rfl).untunable hlines
  have hcalled : ¬s.Called := not_called_of_inScan (by rw [hpc]; rfl)
  refine ⟨(absurd · hcalled), by rwa [hpc], fun _ _ => h.not_tuned, ?_⟩
  intro diseqc _ hpos hlt hnil
  -- nothing was found on this position, and the next one would be tried
  obtain hpos | hpos := hpos <;> cases hpc.symm.trans hpos
  have hstep : s.step (.save2DB true) = some (s.save2DB (.dvbS diseqc) todo true) := by
    simp [step, hpc]
  exact (h.goOn rfl hstep rfl).not_tuned (if_pos ⟨rfl, hnil, hlt⟩)

theorem Stays.ending_of_run (h : s.Stays) (hpc : s.pc = .run source todo) : s.Ending := by
  have hstep : s.step .runEnds = some { s with pc := .save source todo } := by simp [step, hpc]
  obtain ⟨-, htodo, -, hposition⟩ := (h.goOn rfl hstep rfl).ending_of_save rfl
  have hcalled : ¬s.Called := not_called_of_inScan (by rw [hpc]; rfl)
  refine ⟨(absurd · hcalled), by rwa [hpc], fun _ _ => h.not_tuned, fun diseqc _ hpos => ?_⟩
  obtain hpos | hpos := hpos <;> cases hpc.symm.trans hpos
  exact hposition diseqc todo (.inr rfl)

theorem Stays.untunable_of_begin (h : s.Stays) (hpc : s.pc = .begin) : s.Untunable s.mData := by
  intro dev hdev
  have hstep : s.step .begin = some { s with toScan := false, pc := .lines s.mData } := by
    simp [step, hpc, hdev]
  exact (h.goOn rfl hstep rfl).untunable rfl dev hdev

theorem Stays.untunable_of_woken (h : s.Stays) (hpc : s.pc = .woken) (hrun : s.stopped = false) :
    s.Untunable s.mData := by
  have hstep : s.step .recheck = some { s with pc := .begin } := by simp [step, hpc, hrun]
  exact (h.goOn rfl hstep rfl).untunable_of_begin rfl

theorem Stays.untunable_of_called (h : s.Stays) (hcalled : s.Called) : s.Untunable s.mData := by
  obtain hpc | ⟨hrun, hpc | ⟨hpc, hexit⟩⟩ := hcalled
  · exact h.untunable_of_begin hpc
  · exact h.untunable_of_woken hpc hrun
  · have hstep : s.step .wake = some { s with mExit := false, mLoop := false, pc := .woken } := by
      simp [step, hpc, hexit]
    exact (h.goOn rfl hstep rfl).untunable_of_woken rfl hrun

theorem Stays.ending (h : s.Stays) : s.Ending := by
  cases hpc : s.pc with
  | lines todo => exact .of_lines hpc (h.untunable hpc)
  | tuned source todo => exact absurd hpc h.not_tuned
  | run source todo => exact h.ending_of_run hpc
  | save source todo => exact h.ending_of_save hpc
  | _ => exact .of_not_inScan (by rw [hpc]; rfl) h.untunable_of_called

theorem quiet_of_noStart (h : ∀ t, s.Goes t → t.late = false) : s.Quiet :=
  ⟨h s .refl, fun hstopped _ => Stays.ending ⟨hstopped, h⟩⟩

/-! ## Giving the device back -/

/-- After a stopped scan no device is set. -/
def Released (s : ScanThread) : Prop :=
  s.scanStopped = true → s.live = false → s.mDev = none

/-- At the end of a stopped scan DVBSTOP can be sent. -/
def ReleasedOk (s : ScanThread) : Action → Prop
  | .clearScan sent => s.scanStopped = true → sent = true
  | _ => True

theorem released_of_live (h : s.live = true) : s.Released := fun _ h' =>
  nomatch h.symm.trans h'

theorem occupied_of_mDev (hI : s.Inv) (h : s.mDev = none) : s.occupied.Perm s.failed := by
  have hacc : s.accepted = false := Bool.eq_false_iff.2 fun hacc => by
    have hdev := hI.dev hacc
    rw [h] at hdev
    cases hdev
  simpa [scanDev, hacc] using hI.occupied

theorem released_stopScan (hr : s.Released) (occupied failed : List String) :
    Released { s.stopScan with occupied := occupied, failed := failed } := by
  intro hstopped hlive
  have hidle : s.live = false := hlive
  rw [show s.stopScan.scanStopped = (s.scanStopped || s.live) from rfl, hidle, Bool.or_false]
    at hstopped
  exact hr hstopped hidle

theorem released_startScan (hI : s.Inv) (hr : s.Released) : (Scan.startScan s r).1.Released := by
  have hstart := startScan_cases s r
  generalize Scan.startScan s r = p at hstart ⊢
  cases hstart with
  | rejected => exact hr
  | refused => exact released_stopScan hr _ _
  | unread _ _ hfree =>
    intro hstopped
    cases (live_of_mDev hI hfree).symm.trans hstopped
  | accepted => exact nofun

theorem released_clearScan_iff {sent : Bool} (hI : s.Inv) (hpc : s.pc = .lines [])
    (hdev : s.mDev = some dev) :
    (s.clearScan dev sent).Released ↔ ReleasedOk s (.clearScan sent) := by
  cases sent with
  | true => exact iff_of_true (fun _ _ => rfl) fun _ => rfl
  | false =>
    constructor
    · intro hr hstopped
      cases hdev.symm.trans (hr hstopped (live_clearScan hI (by rw [hpc]; rfl)))
    · intro hok hstopped
      cases hok hstopped

theorem released_of_not_inScan (hr : s.Released) (hpc : s.pc.inScan = false)
    (hstopped : s'.scanStopped = s.scanStopped) (hscan : s'.toScan = s.toScan)
    (hdev : s'.mDev = s.mDev) : s'.Released := by
  intro hstopped' hlive
  have hidle : s'.toScan = false := (Bool.or_eq_false_iff.1 hlive).1
  rw [hdev]
  apply hr (hstopped.symm.trans hstopped')
  rw [live, hpc, ← hscan, hidle]
  rfl

theorem released_step_iff (hI : s.Inv) (hr : s.Released) (h : s.step a = some s') :
    s'.Released ↔ ReleasedOk s a := by
  cases step_cases h with
  | startScan => exact iff_of_true (released_startScan hI hr) trivial
  | stopScan => exact iff_of_true (released_stopScan hr _ _) trivial
  | clearScan hpc hdev => exact released_clearScan_iff hI hpc hdev
  | stop | stopWait | saveSDT => exact iff_of_true hr trivial
  | begin | tune | skip | runEnds =>
    exact iff_of_true (released_of_live (live_of_inScan rfl)) trivial
  | start => exact iff_of_true (released_of_live (live_of_inScan inScan_start)) trivial
  | save2DB => exact iff_of_true (released_of_live (live_of_inScan inScan_save2DB)) trivial
  | tuneThrows hpc hdev | clearThrows hpc hdev =>
    cases (live_of_mDev hI hdev).symm.trans (live_of_inScan (by rw [hpc]; rfl))
  | quit hpc | turnBack hpc | check hpc | pass hpc | wait hpc | wake hpc | recheck hpc
  | beginThrows hpc =>
    exact iff_of_true (released_of_not_inScan hr (by rw [hpc]; rfl) rfl rfl rfl) trivial

/-! ## Runs -/

theorem ends_iff (hI : s.Inv) : s.Ends ↔ s.Quiet ∧ s.Released := by
  constructor
  · intro h
    exact ⟨quiet_of_noStart h.noStart, fun hstopped hidle => (h.released hstopped hidle).1⟩
  · rintro ⟨hq, hr⟩
    refine ⟨fun t => late_of_goes hI hq, fun hstopped hidle => ?_, startScan_of_live hI,
      fun hscan => ⟨exists_advances hI hscan, s.pc.rank, fun acts t => scan_ends⟩⟩
    have hdev := hr hstopped hidle
    exact ⟨hdev, occupied_of_mDev hI hdev⟩

theorem stopOk_iff : StopOk s a ↔ QuietOk s a ∧ ReleasedOk s a := by
  cases a <;> simp [StopOk, QuietOk, ReleasedOk]

/-- In a run every stopped scan ends, in each state and also when the thread goes on alone, if and
only if all steps meet `StopOk`. -/
theorem throughout_ends_iff : Throughout step Ends {} acts ↔ EachStep step StopOk {} acts := by
  refine throughout_iff_eachStep (I := Inv) inv_step (fun hI he h => ?_) inv_init ?_
  · obtain ⟨hq, hr⟩ := (ends_iff hI).1 he
    rw [ends_iff (inv_step hI h), quiet_step_iff hI hq h, released_step_iff hI hr h, stopOk_iff]
  · exact (ends_iff inv_init).2 ⟨quiet_of_not_live rfl rfl, nofun⟩

/-- A scan of two lines that is stopped while the first one is processed. -/
def stoppedInRun : List Action :=
  let line := ["T", "578000000", "8MHz", "3/4", "NONE", "QAM64", "8k", "1/32", "NONE"]
  [.check, .startWait, .startScan ⟨"scan-t.conf", some "dev1", some .dvbT, some [line, line]⟩,
    .wake, .recheck, .begin, .tune, .start true, .stopScan, .runEnds, .save2DB true, .tune]

/-- The scan goes on with the second line. -/
theorem stoppedInRun_not_ends :
    ∃ s t, exec step {} stoppedInRun = some s ∧ s.step (.start true) = some t ∧
      s.scanStopped = true ∧ t.pc.inRun = true ∧ t.late = true ∧ ¬s.Ends := by
  refine ⟨_, _, rfl, rfl, rfl, rfl, rfl, fun h => ?_⟩
  exact nomatch h.noStart _ (.single ⟨.start true, rfl, rfl⟩)

end ScanThread

end Kalinka.DvbScan
