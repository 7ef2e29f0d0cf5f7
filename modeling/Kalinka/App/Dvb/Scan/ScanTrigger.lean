import Kalinka.App.Dvb.Scan.StartScan

/-!
# The trigger of the scan thread

`startScan` and `stop` signal a trigger that only a thread in the wait hears.  A signal that comes
while the thread is on its way from the last scan to the wait is lost: the thread goes to sleep with
a scan to do, or although it has been stopped.

`throughout_neverBlocked_iff` says exactly which interleavings do not come to that.
-/

namespace Kalinka.DvbScan

open Run

namespace ScanThread

/-- The thread sleeps, nothing is going to wake it, and there is a scan to do or it has been
stopped. -/
structure Blocked (s : ScanThread) : Prop where
  waiting : s.pc = .waiting
  exit : s.mExit = false
  stopping : s.stopping = 0
  called : s.toScan = true ∨ s.stopped = true

/-- The thread is not blocked, and does not get blocked when it goes on alone. -/
def NeverBlocked (s : ScanThread) : Prop := ∀ t, s.Goes t → ¬t.Blocked

/-- On its way to the wait and in it, the thread has been signalled if there is a scan to do or if
it has been stopped. -/
structure Safe (s : ScanThread) : Prop where
  check : s.pc = .check → s.toScan = true → s.stopped = true
  beforeWait : s.pc = .beforeWait → s.stopping = 0 → s.toScan = false ∧ s.stopped = false
  waiting : s.pc = .waiting → s.mExit = false → s.stopping = 0 →
    s.toScan = false ∧ s.stopped = false

/-- A call that starts a scan does not come before the thread waits, unless the thread is going to
be stopped, and the last signal of `stop` does not come between the check and the wait. -/
def CallOk (s : ScanThread) : Action → Prop
  | .startScan r => ∀ uuid, r.resource = some uuid → r.Valid uuid → s.mDev = none →
      (s.pc = .check → s.stopped = true) ∧ (s.pc = .beforeWait → s.stopping ≠ 0)
  | .stopWait => s.pc = .beforeWait → s.stopping ≠ 1
  | _ => True

variable {s s' t : ScanThread} {a : Action} {r : Request} {acts : List Action}

/-! ## One step -/

theorem Safe.of_pc (hcheck : s.pc ≠ .check) (hbefore : s.pc ≠ .beforeWait)
    (hwaiting : s.pc ≠ .waiting) : s.Safe :=
  ⟨fun h => absurd h hcheck, fun h => absurd h hbefore, fun h => absurd h hwaiting⟩

theorem Safe.of_inScan (h : s.pc.inScan = true) : s.Safe := by
  apply Safe.of_pc <;> intro hpc <;> rw [hpc] at h <;> cases h

/-- The end of a scan. -/
theorem Safe.of_check (hpc : s.pc = .check) (h : s.toScan = true → s.stopped = true) : s.Safe :=
  ⟨fun _ => h, fun h' => (nomatch hpc.symm.trans h'), fun h' => (nomatch hpc.symm.trans h')⟩

theorem safe_startScan_iff (hI : s.Inv) (hs : s.Safe) :
    (Scan.startScan s r).1.Safe ↔ CallOk s (.startScan r) := by
  rw [CallOk]
  have hstart := startScan_cases s r
  have hiff := startScan_iff (s := s) (r := r)
  generalize Scan.startScan s r = p at hstart hiff ⊢
  cases hstart with
  | accepted hresource hgood hfree hdev hconfig =>
    have hvalid : ∃ uuid, r.resource = some uuid ∧ r.Valid uuid ∧ s.mDev = none := hiff.1 rfl
    constructor
    · intro hs' _ _ _ _
      refine ⟨fun hpc => hs'.check hpc rfl, fun hpc hstop => ?_⟩
      exact nomatch (hs'.beforeWait hpc hstop).1
    · intro hok
      obtain ⟨uuid, hresource, hvalid, hfree⟩ := hvalid
      obtain ⟨hcheck, hbefore⟩ := hok uuid hresource hvalid hfree
      refine ⟨fun hpc _ => hcheck hpc, fun hpc hstop => absurd hstop (hbefore hpc), ?_⟩
      intro hpc hexit
      -- the thread in the wait hears the signal
      rw [hI.loop.2 hpc, Bool.or_true] at hexit
      cases hexit
  | rejected | refused | unread =>
    apply iff_of_true ⟨hs.check, hs.beforeWait, hs.waiting⟩
    intro uuid hresource hvalid hfree
    exact nomatch hiff.2 ⟨uuid, hresource, hvalid, hfree⟩

theorem safe_stopWait_iff (hI : s.Inv) (h : s.stopping ≠ 0) :
    Safe { s with mExit := s.mExit || s.mLoop, stopping := s.stopping - 1 } ↔
      CallOk s .stopWait := by
  have hstop := hI.stopping h
  constructor
  · intro hs' hpc hone
    have hzero : s.stopping - 1 = 0 := by omega
    cases hstop.symm.trans (hs'.beforeWait hpc hzero).2
  · intro hok
    refine ⟨fun _ _ => hstop, fun hpc hzero => ?_, fun hpc hexit => ?_⟩
    · have hne : s.stopping ≠ 1 := hok hpc
      dsimp only at hzero
      omega
    · dsimp only at hexit
      rw [hI.loop.2 hpc, Bool.or_true] at hexit
      cases hexit

theorem safe_step_iff (hI : s.Inv) (hs : s.Safe) (h : s.step a = some s') :
    s'.Safe ↔ CallOk s a := by
  cases step_cases h with
  | startScan => exact safe_startScan_iff hI hs
  | stopWait hne => exact safe_stopWait_iff hI hne
  | stopScan => exact iff_of_true ⟨hs.check, hs.beforeWait, hs.waiting⟩ trivial
  | stop => exact iff_of_true ⟨fun _ _ => rfl, fun _ => nofun, fun _ _ => nofun⟩ trivial
  | check hpc hstop =>
    refine iff_of_true ⟨nofun, fun _ _ => ⟨?_, hstop⟩, nofun⟩ trivial
    apply Bool.eq_false_iff.2
    intro hscan
    cases hstop.symm.trans (hs.check hpc hscan)
  | wait hpc => exact iff_of_true ⟨nofun, nofun, fun _ _ => hs.beforeWait hpc⟩ trivial
  | quit | pass | wake | recheck => exact iff_of_true (.of_pc nofun nofun nofun) trivial
  | turnBack _ hstop => exact iff_of_true (.of_check rfl fun _ => hstop) trivial
  | beginThrows _ hdev | tuneThrows _ hdev | clearThrows _ hdev =>
    refine iff_of_true (.of_check rfl fun hscan => ?_) trivial
    cases (Bool.or_eq_false_iff.1 (live_of_mDev hI hdev)).1.symm.trans hscan
  | clearScan hpc =>
    refine iff_of_true (.of_check pc_clearScan fun hscan => ?_) trivial
    rw [toScan_clearScan, (hI.inScan (by rw [hpc]; rfl)).2] at hscan
    cases hscan
  | begin | tune | skip | runEnds => exact iff_of_true (.of_inScan rfl) trivial
  | start => exact iff_of_true (.of_inScan inScan_start) trivial
  | save2DB => exact iff_of_true (.of_inScan inScan_save2DB) trivial
  | saveSDT hpc => exact iff_of_true (.of_inScan (hpc ▸ rfl)) trivial

/-! ## Going on alone -/

theorem Safe.not_blocked (hs : s.Safe) : ¬s.Blocked := by
  rintro ⟨hwaiting, hexit, hstopping, hcalled⟩
  obtain ⟨hscan, hstop⟩ := hs.waiting hwaiting hexit hstopping
  obtain h | h := hcalled
  · cases hscan.symm.trans h
  · cases hstop.symm.trans h

theorem callOk_of_ofThread (h : a.ofThread = true) : CallOk s a := by
  cases a <;> trivial

theorem neverBlocked_of_safe (hI : s.Inv) (hs : s.Safe) : s.NeverBlocked := by
  intro t hgoes
  have ht : t.Inv ∧ t.Safe := by
    refine reflTransGen_induction (I := fun t => t.Inv ∧ t.Safe) ?_ ⟨hI, hs⟩ hgoes
    rintro u a u' ⟨hI, hs⟩ hthread hstep
    exact ⟨inv_step hI hstep, (safe_step_iff hI hs hstep).2 (callOk_of_ofThread hthread)⟩
  exact ht.2.not_blocked

theorem NeverBlocked.step (h : s.NeverBlocked) (hthread : a.ofThread = true)
    (hstep : s.step a = some s') : s'.NeverBlocked := fun t hgoes =>
  h t (.head ⟨a, hthread, hstep⟩ hgoes)

/-- Without a signal, the thread that comes to the wait sleeps. -/
theorem not_called_of_beforeWait (hI : s.Inv) (hn : s.NeverBlocked) (hpc : s.pc = .beforeWait)
    (hstopping : s.stopping = 0) : s.toScan = false ∧ s.stopped = false := by
  have hne : s.pc ≠ .waiting := by rw [hpc]; nofun
  have hexit : s.mExit = false := Bool.eq_false_iff.2 fun h => hne (hI.exit h)
  have hloop : s.mLoop = false := Bool.eq_false_iff.2 fun h => hne (hI.loop.1 h)
  have hstep : s.step .startWait = some { s with mLoop := true, pc := .waiting } := by
    simp [step, hpc, hloop, startWait, hexit]
  have hn' := (hn.step rfl hstep) _ .refl
  by_contra hcalled
  refine hn' ⟨rfl, hexit, hstopping, ?_⟩
  simpa [or_iff_not_imp_left] using hcalled

theorem safe_of_neverBlocked (hI : s.Inv) (hn : s.NeverBlocked) : s.Safe := by
  refine ⟨fun hpc hscan => ?_, not_called_of_beforeWait hI hn, fun hpc hexit hstopping => ?_⟩
  · by_contra hstop
    have hrun : s.stopped = false := Bool.eq_false_iff.2 hstop
    have hstep : s.step .check = some { s with pc := .beforeWait } := by simp [step, hpc, hrun]
    have hzero : s.stopping = 0 := by
      by_contra hne
      exact hstop (hI.stopping hne)
    have hfalse := not_called_of_beforeWait (inv_step hI hstep) (hn.step rfl hstep) rfl hzero
    cases hscan.symm.trans hfalse.1
  · by_contra hcalled
    refine hn s .refl ⟨hpc, hexit, hstopping, ?_⟩
    simpa [or_iff_not_imp_left] using hcalled

theorem neverBlocked_iff (hI : s.Inv) : s.NeverBlocked ↔ s.Safe :=
  ⟨safe_of_neverBlocked hI, neverBlocked_of_safe hI⟩

/-! ## Runs -/

/-- In a run the thread is never blocked, not even when from some state on it goes on alone, if and
only if all calls meet `CallOk`. -/
theorem throughout_neverBlocked_iff :
    Throughout step NeverBlocked {} acts ↔ EachStep step CallOk {} acts := by
  refine throughout_iff_eachStep (I := Inv) inv_step (fun hI hn h => ?_) inv_init ?_
  · rw [neverBlocked_iff (inv_step hI h)]
    exact safe_step_iff hI ((neverBlocked_iff hI).1 hn) h
  · exact neverBlocked_of_safe inv_init (.of_check rfl nofun)

/-- A scan that is started before the thread has come to its first wait. -/
theorem firstScan_blocked :
    let r : Request := ⟨"scan-s.conf", some "dev1", some .dvbS, some []⟩
    ∃ s, exec step {} [.startScan r, .check, .startWait] = some s ∧
      s.Blocked ∧ s.mDev = some ⟨"dev1", .dvbS⟩ ∧ s.toScan = true :=
  ⟨_, rfl, ⟨rfl, rfl, rfl, .inl rfl⟩, rfl, rfl⟩

end ScanThread

end Kalinka.DvbScan
