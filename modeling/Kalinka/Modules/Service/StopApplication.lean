import Kalinka.Modules.Service.Service

/-!
# Stopping an application

`stopApplication` reads the pid and then signals it, while the monitor forks, waits and forks again.
The pid is 0 before the first `setPid`, and after the child has been reaped it is still that of the
dead child.  `throughout_stops` says in which runs every signal goes to the current child and every
return leaves the application down for good: those in which the pid is read while the monitor is in
`waitpid`, `waitpid` does not return before the signal, and it never fails for a living child.
-/

namespace Kalinka

open Run Function

namespace MonitorPc

/-- The child that the monitor is busy with. -/
def child : MonitorPc → Option ℕ
  | .setPid pid | .waitpid pid => some pid
  | _ => .none

/-- The child that it is in `waitpid` for. -/
def waits : MonitorPc → Option ℕ
  | .waitpid pid => some pid
  | _ => .none

end MonitorPc

namespace ServicePc

/-- `stopApplication` is about to read the pid. -/
def reads : ServicePc → Option AppInfoPtr
  | .stop info .getPid _ _ | .stop info .getPid4Kill _ _ => some info
  | _ => .none

/-- It has read the pid and is about to signal it. -/
def signals : ServicePc → Option (AppInfoPtr × ℕ)
  | .stop info (.term pid) _ _ | .stop info (.kill pid) _ _ => some (info, pid)
  | _ => .none

end ServicePc

namespace Proc

/-- The application whose child the process is. -/
def info : Proc → Option AppInfoPtr
  | .alive info | .zombie info _ => some info
  | _ => none

end Proc

namespace Service

/-- Every signal of `stopApplication` went to the current child, whose pid is positive, and at every
return the process was dead and its monitor past its loop. -/
structure Stops (s : Service) : Prop where
  signals : ∀ current ∈ s.signals, current = true
  returns : ∀ down ∈ s.returns, down = true

/-- The pid is read while the monitor is in `waitpid`; `waitpid` does not return while there is a
signal to be sent to the pid that was read, and does not fail for a living child. -/
def StopOk (s : Service) : ServiceAction → Prop
  | .service _ => ∀ info ∈ s.pc.reads, (s.monitor info).waits.isSome = true
  | .monitor info fails => ∀ pid ∈ (s.monitor info).waits,
      (∀ signal ∈ s.pc.signals, signal.1 ≠ info) ∧ (fails = true → s.procs pid ≠ .alive info)
  | _ => True

instance (s : Service) (a : ServiceAction) : Decidable (s.StopOk a) :=
  match a with
  | .service _ => inferInstanceAs (Decidable (∀ info ∈ s.pc.reads, _))
  | .monitor info _ => inferInstanceAs (Decidable (∀ pid ∈ (s.monitor info).waits, _))
  | .processDB _ | .stopApplications | .exit .. => .isTrue trivial

/-- Every monitor that exists has been noted in its info, or is about to be. -/
def Threaded (s : Service) : Prop :=
  ∀ info, s.monitor info ≠ .none → s.mThread info = true ∨ ∃ starts, s.pc = .setThread info starts

/-- The child of a monitor is one of the processes. -/
structure Tracked (s : Service) : Prop where
  pos : 0 < s.nextPid
  zero : s.procs 0 = .free
  fresh : ∀ pid, s.nextPid ≤ pid → s.procs pid = .free
  child : ∀ info pid, (s.monitor info).child = some pid → (s.procs pid).info = some info

/-- What the condition keeps: only the current child of an application is alive, and a pid that is
about to be signalled is that of the child which its monitor waits for. -/
structure Held (s : Service) : Prop where
  object : ∀ info, s.nextObject ≤ info.object → s.monitor info = .none
  mPid : ∀ info, ∀ pid ∈ (s.monitor info).waits, s.mPid info = pid
  alive : ∀ pid info, s.procs pid = .alive info → (s.monitor info).child = some pid
  signals : ∀ signal ∈ s.pc.signals, (s.monitor signal.1).waits = some signal.2

variable {s s' : Service} {a : ServiceAction} {info : AppInfoPtr} {pid : ℕ} {fails : Bool}

theorem current_iff : s.current info pid = true ↔ (s.monitor info).child = some pid := by
  unfold current
  cases s.monitor info <;> simp [MonitorPc.child]

/-! ## The children -/

theorem Quiet.procs_info (h : Quiet s s') (pid : ℕ) : (s'.procs pid).info = (s.procs pid).info := by
  obtain heq | ⟨info, status, halive, hzombie⟩ := h.procs pid
  · rw [heq]
  · rw [halive, hzombie]
    rfl

theorem Quiet.free (h : Quiet s s') (hfree : s.procs pid = .free) : s'.procs pid = .free := by
  obtain heq | ⟨info, status, halive, -⟩ := h.procs pid
  · rw [heq, hfree]
  · cases hfree.symm.trans halive

theorem Quiet.tracked (hq : Quiet s s') (h : s.Tracked) : s'.Tracked := by
  refine ⟨hq.nextPid ▸ h.pos, hq.free h.zero, fun pid hpid => ?_, fun info pid hchild => ?_⟩
  · rw [hq.nextPid] at hpid
    exact hq.free (h.fresh pid hpid)
  · rw [hq.monitor] at hchild
    rw [hq.procs_info]
    exact h.child info pid hchild

/-- A monitor goes on without a child, or with the one it has. -/
theorem Tracked.setMonitor {pc : MonitorPc} (h : s.Tracked)
    (hchild : ∀ pid, pc.child = some pid → (s.procs pid).info = some info) :
    (s.setMonitor info pc).Tracked := by
  refine ⟨h.pos, h.zero, h.fresh, fun other pid hother => ?_⟩
  by_cases heq : other = info
  · subst heq
    exact hchild pid (by simpa [Service.setMonitor] using hother)
  · exact h.child other pid (by simpa [Service.setMonitor, update_of_ne heq] using hother)

theorem Tracked.fork (h : s.Tracked) :
    ({ (s.setProc s.nextPid (.alive info)).setMonitor info (.setPid s.nextPid) with
      nextPid := s.nextPid + 1 } : Service).Tracked := by
  refine ⟨Nat.succ_pos _, ?_, fun pid hpid => ?_, fun other pid hother => ?_⟩
  · have hpos := h.pos
    have hne : 0 ≠ s.nextPid := by omega
    exact (update_of_ne hne ..).trans h.zero
  · have hlt : s.nextPid < pid := hpid
    have hne : pid ≠ s.nextPid := by omega
    exact (update_of_ne hne ..).trans (h.fresh pid (by omega))
  · show (update s.procs s.nextPid (Proc.alive info) pid).info = some other
    by_cases heq : other = info
    · subst heq
      have hpid : s.nextPid = pid := by
        simpa [Service.setMonitor, MonitorPc.child] using hother
      rw [← hpid, update_self]
      rfl
    · have hold : (s.monitor other).child = some pid := by
        simpa [Service.setMonitor, Service.setProc, update_of_ne heq] using hother
      have hinfo := h.child other pid hold
      have hne : pid ≠ s.nextPid := by
        rintro rfl
        rw [h.fresh _ (Nat.le_refl _)] at hinfo
        cases hinfo
      rwa [update_of_ne hne]

/-- The child of a monitor is reaped. -/
theorem Tracked.reap {pc : MonitorPc} (h : s.Tracked) (hpc : s.monitor info = .waitpid pid)
    (hnew : pc.child = none) : ((s.setProc pid .reaped).setMonitor info pc).Tracked := by
  have hmine : (s.procs pid).info = some info := h.child info pid (by rw [hpc]; rfl)
  have hne : ∀ {q}, s.procs q = .free → q ≠ pid := by
    rintro q hfree rfl
    rw [hfree] at hmine
    cases hmine
  refine ⟨h.pos, (update_of_ne (hne h.zero) ..).trans h.zero, fun q hq => ?_,
    fun other q hother => ?_⟩
  · have hfree := h.fresh q hq
    exact (update_of_ne (hne hfree) ..).trans hfree
  · show (update s.procs pid Proc.reaped q).info = some other
    by_cases heq : other = info
    · subst heq
      have hnone : pc.child = some q := by simpa [Service.setMonitor] using hother
      cases hnew.symm.trans hnone
    · have hinfo := h.child other q
        (by simpa [Service.setMonitor, Service.setProc, update_of_ne heq] using hother)
      have hq : q ≠ pid := by
        rintro rfl
        exact heq (Option.some.inj (hinfo.symm.trans hmine))
      rwa [update_of_ne hq]

theorem Tracked.monitorStep (h : s.Tracked) (hs : s.monitorStep info fails = some s') :
    s'.Tracked := by
  cases monitorStep_cases hs with
  | inList | noFork | noWait => exact h.setMonitor nofun
  | add =>
    have hset : (s.setMonitor info .fork).Tracked := h.setMonitor nofun
    exact ⟨hset.pos, hset.zero, hset.fresh, hset.child⟩
  | fork => exact h.fork
  | setPid _ pid hpc =>
    have hset : (s.setMonitor info (.waitpid pid)).Tracked := h.setMonitor fun pid' hpid' =>
      h.child info pid' (by rw [hpc]; exact hpid')
    exact ⟨hset.pos, hset.zero, hset.fresh, hset.child⟩
  | reaped pid pc hpc _ hnew =>
    have hnone : pc.child = none := by obtain rfl | rfl := hnew <;> rfl
    exact h.reap hpc hnone
  | removed =>
    have hset : (s.setMonitor info .ended).Tracked := h.setMonitor nofun
    exact ⟨hset.pos, hset.zero, hset.fresh, hset.child⟩

/-! ## What the monitors and the other steps leave alone -/

/-- What `stopApplication` has recorded, and where the message thread is. -/
structure SameThread (s s' : Service) : Prop where
  pc : s'.pc = s.pc
  mThread : s'.mThread = s.mThread
  signals : s'.signals = s.signals
  returns : s'.returns = s.returns

/-- A step of a monitor changes its own place only. -/
theorem monitorStep_frame (hs : s.monitorStep info fails = some s') :
    SameThread s s' ∧ s.monitor info ≠ .none ∧ ∃ pc, s'.monitor = update s.monitor info pc := by
  cases monitorStep_cases hs with
  | inList _ hpc | add _ hpc | noFork hpc | fork hpc | setPid _ _ hpc | noWait _ hpc
  | reaped _ _ hpc =>
    exact ⟨⟨rfl, rfl, rfl, rfl⟩, by simp [hpc], _, rfl⟩
  | removed _ hpc =>
    have hne : s.monitor info ≠ .none := by obtain hpc | hpc := hpc <;> simp [hpc]
    exact ⟨⟨rfl, rfl, rfl, rfl⟩, hne, _, rfl⟩

/-- A monitor thread is not made by its own steps. -/
theorem monitorStep_ne_none {other : AppInfoPtr} (hs : s.monitorStep info fails = some s')
    (hother : s'.monitor other ≠ .none) : s.monitor other ≠ .none := by
  obtain ⟨-, hinfo, pc, hmonitor⟩ := monitorStep_frame hs
  by_cases heq : other = info
  · rwa [heq]
  · rwa [hmonitor, update_of_ne heq] at hother

theorem kill_frame (s : Service) (pid : ℕ) :
    (s.kill pid).mThread = s.mThread ∧ (s.kill pid).mPid = s.mPid := by
  unfold Service.kill
  split
  · exact ⟨rfl, rfl⟩
  · split <;> exact ⟨rfl, rfl⟩

/-- A step of `stopApplication` leaves `m_thread` and `m_pid` alone, and it signals next only a pid
that it has just read. -/
theorem stopStep_frame {stops : List AppInfoPtr} {starts : List String} {pc : StopPc}
    (hs : s.stopStep info stops starts fails pc = some s') :
    s'.mThread = s.mThread ∧ s'.mPid = s.mPid ∧ ∀ signal ∈ s'.pc.signals,
      (ServicePc.stop info pc stops starts).reads = some signal.1 ∧
        s.mPid signal.1 = signal.2 := by
  have hnone : ∀ signal ∈ (none : Option (AppInfoPtr × ℕ)),
      (ServicePc.stop info pc stops starts).reads = some signal.1 ∧
        s.mPid signal.1 = signal.2 :=
    fun signal hsignal => absurd hsignal (Option.not_mem_none signal)
  cases pc with
  | getPid | getPid4Kill =>
    obtain rfl := Option.some.inj hs
    refine ⟨rfl, rfl, fun signal hsignal => ?_⟩
    obtain rfl := Option.some.inj hsignal
    exact ⟨rfl, rfl⟩
  | term pid =>
    simp only [stopStep] at hs
    split at hs
    · split at hs <;>
      · obtain rfl := Option.some.inj hs
        exact ⟨rfl, rfl, hnone⟩
    · obtain rfl := Option.some.inj hs
      exact ⟨rfl, rfl, hnone⟩
  | timedJoin =>
    simp only [stopStep] at hs
    split at hs
    · obtain rfl := Option.some.inj hs
      exact ⟨rfl, rfl, hnone⟩
    · split at hs
      · obtain rfl := Option.some.inj hs
        exact ⟨rfl, rfl, hnone⟩
      · cases hs
  | kill pid =>
    obtain ⟨hmThread, hmPid⟩ := kill_frame (s.signal info pid) pid
    simp only [stopStep] at hs
    split at hs <;>
    · obtain rfl := Option.some.inj hs
      exact ⟨hmThread, hmPid, hnone⟩
  | join =>
    simp only [stopStep] at hs
    split at hs
    · obtain rfl := Option.some.inj hs
      exact ⟨rfl, rfl, hnone⟩
    · cases hs

/-! ## The threads of the monitors -/

theorem Threaded.of_pc_ne (h : s.Threaded) (hpc : ∀ info starts, s.pc ≠ .setThread info starts)
    (hmonitor : s'.monitor = s.monitor) (hmThread : s'.mThread = s.mThread) : s'.Threaded := by
  intro info hinfo
  rw [hmonitor] at hinfo
  obtain hthread | ⟨starts, hset⟩ := h info hinfo
  · rw [hmThread]
    exact Or.inl hthread
  · exact absurd hset (hpc info starts)

theorem Threaded.serviceStep (h : s.Threaded) (hs : s.serviceStep fails = some s') :
    s'.Threaded := by
  unfold Service.serviceStep at hs
  split at hs
  · cases hs
  next hpc =>
    obtain rfl := Option.some.inj hs
    exact h.of_pc_ne (by simp [hpc]) rfl rfl
  next hpc =>
    obtain rfl := Option.some.inj hs
    exact h.of_pc_ne (by simp [hpc]) rfl rfl
  next hpc =>
    split at hs <;>
    · obtain rfl := Option.some.inj hs
      exact h.of_pc_ne (by simp [hpc]) rfl rfl
  next appUuid starts hpc =>
    cases fails with
    | true =>
      obtain rfl := Option.some.inj hs
      exact h.of_pc_ne (by simp [hpc]) rfl rfl
    | false =>
      obtain rfl := Option.some.inj hs
      intro info hinfo
      by_cases heq : info = ⟨appUuid, s.nextObject⟩
      · subst heq
        exact Or.inr ⟨starts, rfl⟩
      · have hold : s.monitor info ≠ .none := by
          simpa [Service.setMonitor, update_of_ne heq] using hinfo
        obtain hthread | ⟨starts, hset⟩ := h info hold
        · exact Or.inl hthread
        · cases hpc.symm.trans hset
  next info starts hpc =>
    obtain rfl := Option.some.inj hs
    intro other hother
    left
    by_cases heq : other = info
    · subst heq
      exact update_self ..
    · obtain hthread | ⟨starts, hset⟩ := h other hother
      · exact (update_of_ne heq ..).trans hthread
      · obtain ⟨hsame, -⟩ := ServicePc.setThread.inj (hpc.symm.trans hset)
        exact absurd hsame.symm heq
  next hpc =>
    exact h.of_pc_ne (by simp [hpc]) (quiet_stopStep hs).monitor (stopStep_frame hs).1

theorem threaded_step (h : s.Threaded) (hs : s.step a = some s') : s'.Threaded := by
  obtain ⟨-, hidle, stops, starts, rfl⟩ | ⟨fails, rfl, hservice⟩ | ⟨info, fails, rfl, hmonitor⟩ |
    ⟨pid, status, info, rfl, halive, rfl⟩ := step_cases hs
  · exact h.of_pc_ne (by simp [hidle]) rfl rfl
  · exact h.serviceStep hservice
  · intro other hother
    have hsame := (monitorStep_frame hmonitor).1
    rw [hsame.mThread, hsame.pc]
    exact h other (monitorStep_ne_none hmonitor hother)
  · exact h

theorem tracked_step (h : s.Tracked) (hs : s.step a = some s') : s'.Tracked := by
  obtain ⟨-, hidle, stops, starts, rfl⟩ | ⟨fails, rfl, hservice⟩ | ⟨info, fails, rfl, hmonitor⟩ |
    ⟨pid, status, info, rfl, halive, rfl⟩ := step_cases hs
  · exact ⟨h.pos, h.zero, h.fresh, h.child⟩
  · obtain ⟨appUuid, starts, -, -, rfl⟩ | ⟨-, hq⟩ := serviceStep_cases hservice
    · have hset : (s.setMonitor ⟨appUuid, s.nextObject⟩ .add).Tracked :=
        h.setMonitor (by simp [MonitorPc.child])
      exact ⟨hset.pos, hset.zero, hset.fresh, hset.child⟩
    · exact hq.tracked h
  · exact h.monitorStep hmonitor
  · exact (quiet_setProc_zombie halive).tracked h

/-! ## The pid that is signalled -/

theorem MonitorPc.child_of_waits {pc : MonitorPc} (h : pc.waits = some pid) :
    pc = .waitpid pid ∧ pc.child = some pid := by
  cases pc <;> cases h
  exact ⟨rfl, rfl⟩

/-- The message thread signals only a pid that it has just read. -/
theorem serviceStep_signals (hs : s.serviceStep fails = some s') :
    s'.mPid = s.mPid ∧ ∀ signal ∈ s'.pc.signals,
      s.pc.reads = some signal.1 ∧ s.mPid signal.1 = signal.2 := by
  have hnone : ∀ signal ∈ (none : Option (AppInfoPtr × ℕ)),
      s.pc.reads = some signal.1 ∧ s.mPid signal.1 = signal.2 :=
    fun signal hsignal => absurd hsignal (Option.not_mem_none signal)
  unfold serviceStep at hs
  split at hs
  · cases hs
  · obtain rfl := Option.some.inj hs
    exact ⟨rfl, hnone⟩
  next hpc =>
    obtain rfl := Option.some.inj hs
    exact ⟨rfl, hnone⟩
  next hpc =>
    split at hs <;>
    · obtain rfl := Option.some.inj hs
      exact ⟨rfl, hnone⟩
  next hpc =>
    split at hs <;>
    · obtain rfl := Option.some.inj hs
      exact ⟨rfl, hnone⟩
  next hpc =>
    obtain rfl := Option.some.inj hs
    exact ⟨rfl, hnone⟩
  next hpc =>
    rw [hpc]
    exact (stopStep_frame hs).2

theorem Quiet.alive_of (hq : Quiet s s') (halive : s'.procs pid = .alive info) :
    s.procs pid = .alive info := by
  obtain heq | ⟨_, _, -, hzombie⟩ := hq.procs pid
  · rwa [heq] at halive
  · cases halive.symm.trans hzombie

theorem Held.serviceStep (h : s.Held) (hok : s.StopOk (.service fails))
    (hs : s.serviceStep fails = some s') : s'.Held := by
  obtain ⟨hmPid, hsignals⟩ := serviceStep_signals hs
  have hread : ∀ signal ∈ s'.pc.signals, (s.monitor signal.1).waits = some signal.2 := by
    intro signal hsignal
    obtain ⟨hreads, hpid⟩ := hsignals signal hsignal
    obtain ⟨pid, hwaits⟩ := Option.isSome_iff_exists.1 (hok signal.1 hreads)
    rw [hwaits, ← hpid, h.mPid signal.1 pid hwaits]
  obtain ⟨appUuid, starts, -, -, rfl⟩ | ⟨-, hq⟩ := serviceStep_cases hs
  · -- the monitor is new
    have hnone := h.object ⟨appUuid, s.nextObject⟩ (Nat.le_refl _)
    refine ⟨fun info hinfo => ?_, fun info pid hpid => ?_, fun pid info halive => ?_, nofun⟩
    · have hlt : s.nextObject < info.object := hinfo
      have hne : info ≠ ⟨appUuid, s.nextObject⟩ := by
        rintro rfl
        exact Nat.lt_irrefl _ hlt
      exact (update_of_ne hne ..).trans (h.object info (Nat.le_of_lt hlt))
    · by_cases heq : info = ⟨appUuid, s.nextObject⟩
      · subst heq
        simp [Service.setMonitor, MonitorPc.waits] at hpid
      · exact h.mPid info pid (by simpa [Service.setMonitor, update_of_ne heq] using hpid)
    · have hchild := h.alive pid info halive
      by_cases heq : info = ⟨appUuid, s.nextObject⟩
      · rw [heq, hnone] at hchild
        cases hchild
      · simpa [Service.setMonitor, update_of_ne heq] using hchild
  · refine ⟨fun info hinfo => ?_, fun info pid hpid => ?_, fun pid info halive => ?_, ?_⟩
    · rw [hq.monitor]
      exact h.object info (Nat.le_trans hq.object hinfo)
    · rw [hq.monitor] at hpid
      rw [hmPid]
      exact h.mPid info pid hpid
    · rw [hq.monitor]
      exact h.alive pid info (hq.alive_of halive)
    · rw [hq.monitor]
      exact hread

/-- A monitor goes on without a child that could be alive. -/
theorem Held.setMonitor {pc : MonitorPc} {t : Service} (h : s.Held)
    (hok : s.StopOk (.monitor info fails)) (hthere : s.monitor info ≠ .none)
    (hobject : t.nextObject = s.nextObject) (hpc : t.pc = s.pc)
    (hmonitor : t.monitor = update s.monitor info pc)
    (hmPid : ∀ other, other ≠ info → t.mPid other = s.mPid other)
    (hwaits : ∀ pid ∈ pc.waits, t.mPid info = pid)
    (halive : ∀ pid other, t.procs pid = .alive other →
      if other = info then pc.child = some pid else s.procs pid = .alive other) : t.Held := by
  have hother : ∀ {other}, other ≠ info → t.monitor other = s.monitor other := fun hne => by
    rw [hmonitor, update_of_ne hne]
  refine ⟨fun other hle => ?_, fun other pid hpid => ?_, fun pid other hpid => ?_,
    fun signal hsignal => ?_⟩
  · have hnone := h.object other (hobject ▸ hle)
    have hne : other ≠ info := by
      rintro rfl
      exact hthere hnone
    rw [hother hne, hnone]
  · by_cases heq : other = info
    · subst heq
      rw [hmonitor, update_self] at hpid
      exact hwaits pid hpid
    · rw [hother heq] at hpid
      rw [hmPid other heq]
      exact h.mPid other pid hpid
  · have hpid' := halive pid other hpid
    by_cases heq : other = info
    · subst heq
      rw [hmonitor, update_self]
      simpa using hpid'
    · rw [if_neg heq] at hpid'
      rw [hother heq]
      exact h.alive pid other hpid'
  · rw [hpc] at hsignal
    have hwait := h.signals signal hsignal
    have hne : signal.1 ≠ info := by
      intro heq
      exact (hok signal.2 (heq ▸ hwait)).1 signal hsignal heq
    rw [hother hne]
    exact hwait

theorem Held.monitorStep (h : s.Held) (hok : s.StopOk (.monitor info fails))
    (hs : s.monitorStep info fails = some s') : s'.Held := by
  -- a monitor without a child has no living process
  have hchildless : ∀ {pc : MonitorPc}, (s.monitor info).child = none →
      ∀ pid other, s.procs pid = .alive other →
        if other = info then pc.child = some pid else s.procs pid = .alive other := by
    intro pc hnone pid other halive
    split
    next heq =>
      have hchild := h.alive pid other halive
      rw [heq, hnone] at hchild
      cases hchild
    next => exact halive
  cases monitorStep_cases hs with
  | inList _ hpc | add _ hpc | noFork hpc =>
    exact h.setMonitor hok (by simp [hpc]) rfl rfl rfl (fun _ _ => rfl) nofun
      (hchildless (by rw [hpc]; rfl))
  | removed _ hpc =>
    have hthere : s.monitor info ≠ .none ∧ (s.monitor info).child = none := by
      obtain hpc | hpc := hpc <;> simp [hpc, MonitorPc.child]
    exact h.setMonitor hok hthere.1 rfl rfl rfl (fun _ _ => rfl) nofun (hchildless hthere.2)
  | fork hpc =>
    refine h.setMonitor hok (by simp [hpc]) rfl rfl rfl (fun _ _ => rfl) nofun
      fun pid other halive => ?_
    by_cases hpid : pid = s.nextPid
    · subst hpid
      obtain rfl := Proc.alive.inj ((update_self ..).symm.trans halive)
      simp [MonitorPc.child]
    · exact hchildless (by rw [hpc]; rfl) pid other ((update_of_ne hpid ..).symm.trans halive)
  | setPid _ pid hpc =>
    refine h.setMonitor hok (by simp [hpc]) rfl rfl rfl (fun _ hne => update_of_ne hne ..)
      (fun pid' hpid' => ?_) fun pid' other halive => ?_
    · exact (update_self ..).trans (Option.some.inj hpid')
    · split
      next heq =>
        have hchild := h.alive pid' other halive
        rw [heq, hpc] at hchild
        exact hchild
      next => exact halive
  | noWait pid hpc =>
    refine h.setMonitor hok (by simp [hpc]) rfl rfl rfl (fun _ _ => rfl) nofun
      fun pid' other halive => ?_
    split
    next heq =>
      subst heq
      have hchild := h.alive pid' other halive
      rw [hpc] at hchild
      obtain rfl : pid = pid' := Option.some.inj hchild
      exact absurd halive ((hok pid (by rw [hpc]; rfl)).2 rfl)
    next => exact halive
  | reaped pid pc hpc _ hnew =>
    refine h.setMonitor hok (by simp [hpc]) rfl rfl rfl (fun _ _ => rfl)
      (by obtain rfl | rfl := hnew <;> exact nofun) fun pid' other halive => ?_
    by_cases hpid : pid' = pid
    · subst hpid
      cases (update_self ..).symm.trans halive
    · have hold : s.procs pid' = .alive other := (update_of_ne hpid ..).symm.trans halive
      split
      next heq =>
        have hchild := h.alive pid' other hold
        rw [heq, hpc] at hchild
        exact absurd (Option.some.inj hchild).symm hpid
      next => exact hold

theorem held_step (h : s.Held) (hok : s.StopOk a) (hs : s.step a = some s') : s'.Held := by
  obtain ⟨-, -, stops, starts, rfl⟩ | ⟨fails, rfl, hservice⟩ | ⟨info, fails, rfl, hmonitor⟩ |
    ⟨pid, status, info, rfl, halive, rfl⟩ := step_cases hs
  · exact ⟨h.object, h.mPid, h.alive, nofun⟩
  · exact h.serviceStep hok hservice
  · exact h.monitorStep hok hmonitor
  · exact ⟨h.object, h.mPid, fun pid' info' halive' =>
      h.alive pid' info' ((quiet_setProc_zombie halive).alive_of halive'), h.signals⟩

/-! ## Signals and returns -/

theorem Stops.of_eq (h : s.Stops) (hsignals : s'.signals = s.signals)
    (hreturns : s'.returns = s.returns) : s'.Stops := by
  refine ⟨?_, ?_⟩
  · rw [hsignals]
    exact h.signals
  · rw [hreturns]
    exact h.returns

/-- The current child has a pid of its own. -/
theorem Tracked.pos_of_child (h : s.Tracked) (hchild : (s.monitor info).child = some pid) :
    0 < pid := by
  have hinfo := h.child info pid hchild
  apply Nat.pos_of_ne_zero
  rintro rfl
  rw [h.zero] at hinfo
  cases hinfo

theorem Tracked.killSucceeds (h : s.Tracked) (hchild : (s.monitor info).child = some pid) :
    s.killSucceeds pid fails = true := by
  have hinfo := h.child info pid hchild
  have hpos := h.pos_of_child hchild
  rw [Service.killSucceeds, if_neg (by omega)]
  cases hproc : s.procs pid with
  | free | reaped =>
    rw [hproc] at hinfo
    cases hinfo
  | alive other => rfl
  | zombie other status => rfl

/-- A signal to the current child. -/
theorem signal_forall (ht : s.Tracked) (h : s.Stops) (hchild : (s.monitor info).child = some pid) :
    ∀ current ∈ (s.signal info pid).signals, current = true := by
  intro current hmem
  obtain hold | hnew := List.mem_append.1 hmem
  · exact h.signals current hold
  · rw [List.mem_singleton.1 hnew, Bool.and_eq_true, decide_eq_true_iff, current_iff]
    exact ⟨ht.pos_of_child hchild, hchild⟩

/-- The monitor has ended, and all processes with it. -/
theorem stops_stopReturns {stops : List AppInfoPtr} {starts : List String} (hheld : s.Held)
    (h : s.Stops) (hended : s.monitor info = .ended) :
    (s.stopReturns info stops starts).Stops := by
  refine ⟨h.signals, fun down hmem => ?_⟩
  obtain hold | hnew := List.mem_append.1 hmem
  · exact h.returns down hold
  · rw [List.mem_singleton.1 hnew, Service.down, hended, Bool.and_eq_true, List.all_eq_true]
    refine ⟨rfl, fun pid _ => decide_eq_true fun halive => ?_⟩
    have hchild := hheld.alive pid info halive
    rw [hended] at hchild
    cases hchild

theorem kill_signals (s : Service) (pid : ℕ) : (s.kill pid).signals = s.signals := by
  unfold kill
  split
  · rfl
  · split <;> rfl

theorem kill_returns (s : Service) (pid : ℕ) : (s.kill pid).returns = s.returns := by
  unfold kill
  split
  · rfl
  · split <;> rfl

/-- One step of `stopApplication`. -/
theorem stops_stopStep {stops : List AppInfoPtr} {starts : List String} {pc : StopPc}
    (ht : s.Tracked) (hthread : s.Threaded) (hheld : s.Held) (h : s.Stops)
    (hpc : s.pc = .stop info pc stops starts)
    (hs : s.stopStep info stops starts fails pc = some s') : s'.Stops := by
  cases pc with
  | getPid | getPid4Kill =>
    obtain rfl := Option.some.inj hs
    exact h.of_eq rfl rfl
  | term pid =>
    obtain ⟨hwait, hchild⟩ :=
      MonitorPc.child_of_waits (hheld.signals (info, pid) (by rw [hpc]; rfl))
    have hmThread : s.mThread info = true := by
      obtain hmThread | ⟨starts, hset⟩ := hthread info (by simp [hwait])
      · exact hmThread
      · cases hpc.symm.trans hset
    simp only [stopStep, ht.killSucceeds hchild, hmThread, if_true] at hs
    obtain rfl := Option.some.inj hs
    exact ⟨signal_forall ht h hchild, h.returns⟩
  | kill pid =>
    obtain ⟨-, hchild⟩ := MonitorPc.child_of_waits (hheld.signals (info, pid) (by rw [hpc]; rfl))
    simp only [stopStep, ht.killSucceeds hchild, if_true] at hs
    obtain rfl := Option.some.inj hs
    refine ⟨?_, ?_⟩
    · show ∀ current ∈ ((s.signal info pid).kill pid).signals, current = true
      rw [kill_signals]
      exact signal_forall ht h hchild
    · show ∀ down ∈ ((s.signal info pid).kill pid).returns, down = true
      rw [kill_returns]
      exact h.returns
  | timedJoin =>
    simp only [stopStep] at hs
    split at hs
    next hended =>
      obtain rfl := Option.some.inj hs
      exact stops_stopReturns hheld h hended
    next =>
      split at hs
      · obtain rfl := Option.some.inj hs
        exact h.of_eq rfl rfl
      · cases hs
  | join =>
    simp only [stopStep] at hs
    split at hs
    next hended =>
      obtain rfl := Option.some.inj hs
      exact stops_stopReturns hheld h hended
    · cases hs

theorem stops_serviceStep (ht : s.Tracked) (hthread : s.Threaded) (hheld : s.Held) (h : s.Stops)
    (hs : s.serviceStep fails = some s') : s'.Stops := by
  unfold serviceStep at hs
  split at hs
  · cases hs
  · obtain rfl := Option.some.inj hs
    exact h.of_eq rfl rfl
  · obtain rfl := Option.some.inj hs
    exact h.of_eq rfl rfl
  · split at hs <;>
    · obtain rfl := Option.some.inj hs
      exact h.of_eq rfl rfl
  · split at hs <;>
    · obtain rfl := Option.some.inj hs
      exact h.of_eq rfl rfl
  · obtain rfl := Option.some.inj hs
    exact h.of_eq rfl rfl
  next hpc => exact stops_stopStep ht hthread hheld h hpc hs

theorem stops_step (ht : s.Tracked) (hthread : s.Threaded) (hheld : s.Held) (h : s.Stops)
    (hs : s.step a = some s') : s'.Stops := by
  obtain ⟨-, -, stops, starts, rfl⟩ | ⟨fails, rfl, hservice⟩ | ⟨info, fails, rfl, hmonitor⟩ |
    ⟨pid, status, info, rfl, halive, rfl⟩ := step_cases hs
  · exact h.of_eq rfl rfl
  · exact stops_serviceStep ht hthread hheld h hservice
  · have hsame := (monitorStep_frame hmonitor).1
    exact h.of_eq hsame.signals hsame.returns
  · exact h.of_eq rfl rfl

/-- Where the pid is read in `waitpid`, `waitpid` does not return before the signal and does not
fail for a living child, every signal goes to the current child and every return leaves the
application down. -/
theorem throughout_stops {as : List ServiceAction} (h : EachStep step StopOk {} as) :
    Throughout step Stops {} as := by
  refine throughout_of_eachStep
    (I := fun s => s.Tracked ∧ s.Threaded ∧ s.Held ∧ s.Stops) ?_ (fun hI => hI.2.2.2) ?_ h
  · rintro s a s' ⟨ht, hthread, hheld, hstops⟩ hok hs
    exact ⟨tracked_step ht hs, threaded_step hthread hs, held_step hheld hok hs,
      stops_step ht hthread hheld hstops hs⟩
  · refine ⟨⟨Nat.one_pos, rfl, fun _ _ => rfl, nofun⟩, fun info hnone => absurd rfl hnone,
      ⟨fun _ _ => rfl, nofun, nofun, nofun⟩, nofun, nofun⟩

/-- The child crashes once and is started again.  It is asked to stop, does not in time, and is
killed. -/
theorem throughout_stops_kill :
    let run := [.processDB ["app"],
      .service false, .service false, .service false, .service false,
      .monitor ⟨"app", 0⟩ false, .monitor ⟨"app", 0⟩ false, .monitor ⟨"app", 0⟩ false,
      .exit 1 .crashed, .monitor ⟨"app", 0⟩ false, .monitor ⟨"app", 0⟩ false,
      .monitor ⟨"app", 0⟩ false,
      .processDB [], .service false, .service false, .service false, .service true,
      .service false, .service false, .monitor ⟨"app", 0⟩ false, .monitor ⟨"app", 0⟩ false,
      .service false]
    Throughout step Stops {} run ∧
      (exec step {} run).map (fun s => (s.signals, s.returns)) = some ([true, true], [true]) :=
  ⟨throughout_stops (by decide +kernel), rfl⟩

/-- The application is to be stopped before its monitor has set the pid, and the signal goes to the
process group of the daemon. -/
theorem group_signaled : ∃ s,
    exec step {} [.processDB ["app"],
      .service false, .service false, .service false, .service false,
      .monitor ⟨"app", 0⟩ false, .monitor ⟨"app", 0⟩ false,
      .processDB [], .service false, .service false] = some s ∧
    s.pc = .stop ⟨"app", 0⟩ (.term 0) [] [] ∧ s.monitor ⟨"app", 0⟩ = .setPid 1 ∧
    (exec step s [.service false]).map signals = some [false] :=
  ⟨_, rfl, rfl, rfl, rfl⟩

end Service

end Kalinka
