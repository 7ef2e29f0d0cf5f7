import Kalinka.Modules.Service.Service
import Mathlib.Data.List.Nodup

/-!
# One monitor for each application

`startApplication` looks the application up in `m_apps`, into which its monitor puts it later.
`throughout_single_iff` says exactly which runs keep one monitor and one process for each
application and the list in step with the monitors: those in which no thread is created for an
application that has a monitor, and no process is forked for an application whose last one was left
alive by a failed `waitpid`.
-/

namespace Kalinka

open Run Function

namespace MonitorPc

/-- The thread of the monitor exists. -/
def active : MonitorPc → Bool
  | .none | .ended => false
  | _ => true

/-- The monitor is between its `m_apps.add` and its `m_apps.remove`. -/
def registered : MonitorPc → Bool
  | .fork | .setPid _ | .waitpid _ | .remove => true
  | _ => false

theorem active_of_registered {pc : MonitorPc} (h : pc.registered = true) : pc.active = true := by
  cases pc <;> first | rfl | cases h

end MonitorPc

namespace Service

structure Single (s : Service) : Prop where
  monitors : ∀ info other, (s.monitor info).active = true → (s.monitor other).active = true →
    info.appUuid = other.appUuid → info = other
  children : ∀ pid pid' info other, s.procs pid = .alive info → s.procs pid' = .alive other →
    info.appUuid = other.appUuid → pid = pid'
  listed : ∀ uuid, uuid ∈ s.uuids ↔
    ∃ info, info.appUuid = uuid ∧ (s.monitor info).registered = true

/-- No monitor is created while an earlier one of the application has not come to `m_apps.add` or is
behind `m_apps.remove` (in between `m_apps.find` has found it), and no process is forked while a
failed `waitpid` has left one. -/
def SingleOk (s : Service) : ServiceAction → Prop
  | .service false => ∀ appUuid starts, s.pc = .create appUuid starts →
      ∀ info, info.appUuid = appUuid → (s.monitor info).active = false
  | .monitor info false => s.monitor info = .fork →
      ∀ pid other, s.procs pid = .alive other → other.appUuid ≠ info.appUuid
  | _ => True

/-- What the code keeps besides: no application is listed twice, no `m_apps.add` has failed, and
infos and pids are new when they are made. -/
structure Orderly (s : Service) : Prop where
  unique : s.uuids.Nodup
  added : ∀ info, s.monitor info ≠ .failed
  object : ∀ info, s.nextObject ≤ info.object → s.monitor info = .none
  pid : ∀ pid, s.nextPid ≤ pid → s.procs pid = .free

variable {s s' : Service} {a : ServiceAction} {info : AppInfoPtr} {pid : ℕ} {fails : Bool}

/-! ## Steps that leave the monitors alone -/

theorem Quiet.alive (h : Quiet s s') (halive : s'.procs pid = .alive info) :
    s.procs pid = .alive info := by
  obtain heq | ⟨_, _, _, hzombie⟩ := h.procs pid
  · exact heq ▸ halive
  · cases hzombie.symm.trans halive

theorem Quiet.single (hq : Quiet s s') (h : s.Single) : s'.Single := by
  refine ⟨?_, fun pid pid' info other hpid hpid' => ?_, ?_⟩
  · rw [hq.monitor]
    exact h.monitors
  · exact h.children pid pid' info other (hq.alive hpid) (hq.alive hpid')
  · rw [uuids, hq.mApps, hq.monitor]
    exact h.listed

theorem Quiet.orderly (hq : Quiet s s') (h : s.Orderly) : s'.Orderly := by
  refine ⟨?_, ?_, fun info hobject => ?_, fun pid hpid => ?_⟩
  · rw [uuids, hq.mApps]
    exact h.unique
  · rw [hq.monitor]
    exact h.added
  · rw [hq.monitor]
    exact h.object info (Nat.le_trans hq.object hobject)
  · rw [hq.nextPid] at hpid
    obtain heq | ⟨info, _, halive, _⟩ := hq.procs pid
    · rw [heq]
      exact h.pid pid hpid
    · cases (h.pid pid hpid).symm.trans halive

/-! ## Steps of a monitor -/

@[simp] theorem setMonitor_monitor (pc : MonitorPc) :
    (s.setMonitor info pc).monitor = update s.monitor info pc := rfl

@[simp] theorem setMonitor_mApps (pc : MonitorPc) : (s.setMonitor info pc).mApps = s.mApps := rfl

@[simp] theorem setMonitor_procs (pc : MonitorPc) : (s.setMonitor info pc).procs = s.procs := rfl

@[simp] theorem setProc_procs (proc : Proc) :
    (s.setProc pid proc).procs = update s.procs pid proc := rfl

@[simp] theorem removeApp_monitor : (s.removeApp info).monitor = s.monitor := rfl

/-- A registered monitor goes on. -/
theorem Single.setMonitor {pc : MonitorPc} (h : s.Single)
    (hold : (s.monitor info).registered = true) (hnew : pc.registered = true) :
    (s.setMonitor info pc).Single := by
  have hactive : ∀ other,
      ((s.setMonitor info pc).monitor other).active = (s.monitor other).active := by
    intro other
    by_cases heq : other = info
    · rw [heq, setMonitor_monitor, update_self, MonitorPc.active_of_registered hold,
        MonitorPc.active_of_registered hnew]
    · rw [setMonitor_monitor, update_of_ne heq]
  have hregistered : ∀ other,
      ((s.setMonitor info pc).monitor other).registered = (s.monitor other).registered := by
    intro other
    by_cases heq : other = info
    · rw [heq, setMonitor_monitor, update_self, hold, hnew]
    · rw [setMonitor_monitor, update_of_ne heq]
  refine ⟨?_, h.children, ?_⟩
  · simp only [hactive]
    exact h.monitors
  · simp only [hregistered]
    exact h.listed

theorem Orderly.setMonitor {pc : MonitorPc} (h : s.Orderly) (hold : s.monitor info ≠ .none)
    (hnew : pc ≠ .failed) : (s.setMonitor info pc).Orderly := by
  refine ⟨h.unique, fun other => ?_, fun other hobject => ?_, h.pid⟩
  · by_cases heq : other = info
    · rwa [heq, setMonitor_monitor, update_self]
    · rw [setMonitor_monitor, update_of_ne heq]
      exact h.added other
  · have hnone := h.object other hobject
    by_cases heq : other = info
    · exact absurd (heq ▸ hnone) hold
    · rwa [setMonitor_monitor, update_of_ne heq]

/-- A step of an active monitor makes no monitor active. -/
theorem active_of_setMonitor {pc : MonitorPc} {other : AppInfoPtr}
    (hold : (s.monitor info).active = true)
    (h : ((s.setMonitor info pc).monitor other).active = true) :
    (s.monitor other).active = true := by
  by_cases heq : other = info
  · rwa [heq]
  · rwa [setMonitor_monitor, update_of_ne heq] at h

/-- A monitor that is about to register finds its application not listed. -/
theorem Single.not_mem_uuids (h : s.Single) (hpc : s.monitor info = .add) :
    info.appUuid ∉ s.uuids := by
  intro hmem
  obtain ⟨other, huuid, hregistered⟩ := (h.listed _).1 hmem
  have hsame : other = info :=
    h.monitors other info (MonitorPc.active_of_registered hregistered) (by rw [hpc]; rfl) huuid
  rw [hsame, hpc] at hregistered
  cases hregistered

theorem Single.add (h : s.Single) (hpc : s.monitor info = .add) :
    ({ s.setMonitor info .fork with mApps := s.mApps ++ [info] } : Service).Single := by
  have hactive : (s.monitor info).active = true := by rw [hpc]; rfl
  refine ⟨fun i j hi hj huuid => ?_, h.children, fun uuid => ?_⟩
  · exact h.monitors i j (active_of_setMonitor hactive hi) (active_of_setMonitor hactive hj) huuid
  · have hmem : uuid ∈ (s.mApps ++ [info]).map AppInfoPtr.appUuid ↔
        uuid ∈ s.uuids ∨ uuid = info.appUuid := by
      simp [uuids]
    show uuid ∈ (s.mApps ++ [info]).map AppInfoPtr.appUuid ↔ _
    rw [hmem, h.listed]
    constructor
    · rintro (⟨other, huuid, hregistered⟩ | rfl)
      · have hne : other ≠ info := by
          rintro rfl
          rw [hpc] at hregistered
          cases hregistered
        exact ⟨other, huuid, by simpa [update_of_ne hne] using hregistered⟩
      · exact ⟨info, rfl, by simp [MonitorPc.registered]⟩
    · rintro ⟨other, huuid, hregistered⟩
      by_cases heq : other = info
      · exact Or.inr (heq ▸ huuid.symm)
      · exact Or.inl ⟨other, huuid, by simpa [update_of_ne heq] using hregistered⟩

theorem Orderly.add (h : s.Orderly) (hpc : s.monitor info = .add)
    (hnew : info.appUuid ∉ s.uuids) :
    ({ s.setMonitor info .fork with mApps := s.mApps ++ [info] } : Service).Orderly := by
  have hset : (s.setMonitor info .fork).Orderly := h.setMonitor (by simp [hpc]) (by simp)
  refine ⟨?_, hset.added, hset.object, hset.pid⟩
  show ((s.mApps ++ [info]).map AppInfoPtr.appUuid).Nodup
  rw [List.map_append, List.nodup_append_comm]
  exact List.nodup_cons.2 ⟨hnew, h.unique⟩

theorem uuids_removeApp (s : Service) (info : AppInfoPtr) :
    (s.removeApp info).uuids = s.uuids.erase info.appUuid := by
  rw [uuids, uuids, List.erase_eq_eraseP, List.eraseP_map]
  simp only [removeApp, Function.comp_def, beq_eq_decide, eq_comm]

theorem Single.remove (h : s.Single) (ho : s.Orderly) (hpc : s.monitor info = .remove) :
    ((s.removeApp info).setMonitor info .ended).Single := by
  have hactive : (s.monitor info).active = true := by rw [hpc]; rfl
  refine ⟨fun i j hi hj huuid => ?_, h.children, fun uuid => ?_⟩
  · exact h.monitors i j (active_of_setMonitor hactive hi) (active_of_setMonitor hactive hj) huuid
  · show uuid ∈ (s.removeApp info).uuids ↔ _
    rw [uuids_removeApp, ho.unique.mem_erase_iff, h.listed]
    constructor
    · rintro ⟨hne, other, huuid, hregistered⟩
      have hother : other ≠ info := by
        rintro rfl
        exact hne huuid.symm
      exact ⟨other, huuid, by simpa [update_of_ne hother] using hregistered⟩
    · rintro ⟨other, huuid, hregistered⟩
      have hother : other ≠ info := by
        rintro rfl
        simp [MonitorPc.registered] at hregistered
      have hold : (s.monitor other).registered = true := by
        simpa [update_of_ne hother] using hregistered
      refine ⟨fun heq => hother ?_, other, huuid, hold⟩
      exact h.monitors other info (MonitorPc.active_of_registered hold) hactive
        (huuid.trans heq)

theorem Orderly.remove (h : s.Orderly) (hpc : s.monitor info = .remove) :
    ((s.removeApp info).setMonitor info .ended).Orderly := by
  have hset : (s.setMonitor info .ended).Orderly := h.setMonitor (by simp [hpc]) (by simp)
  refine ⟨?_, hset.added, hset.object, hset.pid⟩
  show (s.removeApp info).uuids.Nodup
  rw [uuids_removeApp]
  exact h.unique.erase _

/-- A child that has been waited for is reaped. -/
theorem Single.setProc {proc : Proc} (h : s.Single) (hproc : ∀ info, proc ≠ .alive info) :
    (s.setProc pid proc).Single := by
  have halive : ∀ {q info}, (s.setProc pid proc).procs q = .alive info →
      s.procs q = .alive info := by
    intro q info hq
    by_cases heq : q = pid
    · subst heq
      exact absurd ((update_self ..).symm.trans hq) (hproc info)
    · rwa [setProc_procs, update_of_ne heq] at hq
  exact ⟨h.monitors, fun p q i j hp hq => h.children p q i j (halive hp) (halive hq), h.listed⟩

theorem Orderly.setProc {proc : Proc} (h : s.Orderly) (hpid : pid < s.nextPid) :
    (s.setProc pid proc).Orderly := by
  refine ⟨h.unique, h.added, h.object, fun q hq => ?_⟩
  have hne : q ≠ pid := by
    rintro rfl
    exact absurd hpid (Nat.not_lt.2 hq)
  rw [setProc_procs, update_of_ne hne]
  exact h.pid q hq

theorem Orderly.lt_of_ne_free (h : s.Orderly) (hpid : s.procs pid ≠ .free) : pid < s.nextPid :=
  Nat.lt_of_not_le fun hle => hpid (h.pid pid hle)

/-- A monitor goes on whose child has been waited for. -/
theorem single_reaped {pc : MonitorPc} (h : s.Single) (ho : s.Orderly)
    (hold : (s.monitor info).registered = true) (hnew : pc.registered = true)
    (hproc : s.procs pid ≠ .free) :
    ((s.setProc pid .reaped).setMonitor info pc).Single ∧
      ((s.setProc pid .reaped).setMonitor info pc).Orderly := by
  have hreaped : (s.setProc pid .reaped).Single := h.setProc nofun
  have hpresent : s.monitor info ≠ .none := fun hnone => by rw [hnone] at hold; cases hold
  have hne : pc ≠ .failed := fun hfailed => by rw [hfailed] at hnew; cases hnew
  have hpid : pid < s.nextPid := ho.lt_of_ne_free hproc
  exact ⟨hreaped.setMonitor hold hnew, (ho.setProc hpid).setMonitor hpresent hne⟩

/-- A `fork` gives the application a second process exactly if it has one already. -/
theorem single_fork_iff (h : s.Single) (ho : s.Orderly) (hpc : s.monitor info = .fork) :
    ({ (s.setProc s.nextPid (.alive info)).setMonitor info (.setPid s.nextPid) with
      nextPid := s.nextPid + 1 } : Service).Single ↔
    ∀ pid other, s.procs pid = .alive other → other.appUuid ≠ info.appUuid := by
  have hnew : (s.setProc s.nextPid (.alive info)).procs s.nextPid = .alive info := update_self ..
  have hold : ∀ {q}, q ≠ s.nextPid → (s.setProc s.nextPid (.alive info)).procs q = s.procs q :=
    fun hne => update_of_ne hne ..
  constructor
  · intro h' pid other halive huuid
    have hne : pid ≠ s.nextPid := by
      rintro rfl
      cases (ho.pid _ (Nat.le_refl _)).symm.trans halive
    exact hne (h'.children pid s.nextPid other info ((hold hne).trans halive) hnew huuid)
  · intro hall
    have hset : (s.setMonitor info (.setPid s.nextPid)).Single :=
      h.setMonitor (by rw [hpc]; rfl) rfl
    refine ⟨hset.monitors, fun p q i j hp hq huuid => ?_, hset.listed⟩
    have hmine : ∀ {r k}, (s.setProc s.nextPid (.alive info)).procs r = .alive k →
        k.appUuid = info.appUuid → r = s.nextPid := by
      intro r k hr hk
      by_contra hne
      exact hall r k ((hold hne).symm.trans hr) hk
    by_cases hpn : p = s.nextPid
    · subst hpn
      obtain rfl := Proc.alive.inj (hnew.symm.trans hp)
      exact (hmine hq huuid.symm).symm
    · by_cases hqn : q = s.nextPid
      · subst hqn
        obtain rfl := Proc.alive.inj (hnew.symm.trans hq)
        exact absurd (hmine hp huuid) hpn
      · exact h.children p q i j ((hold hpn).symm.trans hp) ((hold hqn).symm.trans hq) huuid

theorem Orderly.fork (h : s.Orderly) (hpc : s.monitor info = .fork) :
    ({ (s.setProc s.nextPid (.alive info)).setMonitor info (.setPid s.nextPid) with
      nextPid := s.nextPid + 1 } : Service).Orderly := by
  have hset : (s.setMonitor info (.setPid s.nextPid)).Orderly :=
    h.setMonitor (by simp [hpc]) (by simp)
  refine ⟨hset.unique, hset.added, hset.object, fun pid hpid => ?_⟩
  have hlt : s.nextPid < pid := hpid
  have hne : pid ≠ s.nextPid := by omega
  exact (update_of_ne hne ..).trans (h.pid pid (by omega))

/-- A new monitor thread is a second one exactly if the application has one already. -/
theorem single_create_iff (h : s.Single) (ho : s.Orderly) (appUuid : String) (pc : ServicePc) :
    ({ s.setMonitor ⟨appUuid, s.nextObject⟩ .add with pc, nextObject := s.nextObject + 1 } :
      Service).Single ↔ ∀ info, info.appUuid = appUuid → (s.monitor info).active = false := by
  have hnone : s.monitor ⟨appUuid, s.nextObject⟩ = .none := ho.object _ (Nat.le_refl _)
  have hold : ∀ {other}, other ≠ ⟨appUuid, s.nextObject⟩ →
      (s.setMonitor ⟨appUuid, s.nextObject⟩ .add).monitor other = s.monitor other :=
    fun hne => update_of_ne hne ..
  constructor
  · intro h' info huuid
    by_contra hactive
    have hne : info ≠ ⟨appUuid, s.nextObject⟩ := by
      rintro rfl
      rw [hnone] at hactive
      exact hactive rfl
    refine hne (h'.monitors info _ ?_ ?_ huuid)
    · show ((s.setMonitor ⟨appUuid, s.nextObject⟩ .add).monitor info).active = true
      rw [hold hne]
      exact eq_true_of_ne_false hactive
    · show (update s.monitor _ MonitorPc.add _).active = true
      rw [update_self]
      rfl
  · intro hall
    refine ⟨fun i j hi hj huuid => ?_, h.children, fun uuid => ?_⟩
    · have hmine : ∀ {k}, ((s.setMonitor ⟨appUuid, s.nextObject⟩ .add).monitor k).active = true →
          k.appUuid = appUuid → k = ⟨appUuid, s.nextObject⟩ := by
        intro k hk hkuuid
        by_contra hne
        rw [hold hne, hall k hkuuid] at hk
        cases hk
      by_cases hi' : i = ⟨appUuid, s.nextObject⟩
      · subst hi'
        exact (hmine hj huuid.symm).symm
      · by_cases hj' : j = ⟨appUuid, s.nextObject⟩
        · subst hj'
          exact absurd (hmine hi huuid) hi'
        · rw [hold hi'] at hi
          rw [hold hj'] at hj
          exact h.monitors i j hi hj huuid
    · refine (h.listed uuid).trans (exists_congr fun other => and_congr_right fun _ => ?_)
      by_cases heq : other = ⟨appUuid, s.nextObject⟩
      · subst heq
        simp [hnone, MonitorPc.registered]
      · rw [hold heq]

theorem Orderly.create (h : s.Orderly) (appUuid : String) (pc : ServicePc) :
    ({ s.setMonitor ⟨appUuid, s.nextObject⟩ .add with pc, nextObject := s.nextObject + 1 } :
      Service).Orderly := by
  refine ⟨h.unique, fun info => ?_, fun info hobject => ?_, h.pid⟩
  · by_cases heq : info = ⟨appUuid, s.nextObject⟩
    · subst heq
      simp
    · show update s.monitor _ MonitorPc.add info ≠ .failed
      rw [update_of_ne heq]
      exact h.added info
  · have hne : info ≠ ⟨appUuid, s.nextObject⟩ := by
      rintro rfl
      exact absurd hobject (Nat.not_succ_le_self _)
    exact (update_of_ne hne ..).trans (h.object info (Nat.le_of_succ_le hobject))

/-! ## Runs -/

theorem single_monitorStep (h : s.Single) (ho : s.Orderly)
    (hs : s.monitorStep info fails = some s') :
    (s'.Single ↔ s.SingleOk (.monitor info fails)) ∧ s'.Orderly := by
  have hok : s.monitor info ≠ .fork → s.SingleOk (.monitor info fails) := by
    intro hne
    cases fails with
    | true => trivial
    | false => exact fun hpc => absurd hpc hne
  cases monitorStep_cases hs with
  | inList _ hpc hmem => exact absurd hmem (h.not_mem_uuids hpc)
  | add _ hpc hnew => exact ⟨iff_of_true (h.add hpc) (hok (by simp [hpc])), ho.add hpc hnew⟩
  | noFork hpc | noWait _ hpc =>
    have hregistered : (s.monitor info).registered = true := by rw [hpc]; rfl
    exact ⟨iff_of_true (h.setMonitor hregistered rfl) trivial,
      ho.setMonitor (by simp [hpc]) nofun⟩
  | fork hpc =>
    exact ⟨(single_fork_iff h ho hpc).trans ⟨fun hall _ => hall, fun hok => hok hpc⟩,
      ho.fork hpc⟩
  | setPid _ pid hpc =>
    have hset : (s.setMonitor info (.waitpid pid)).Single :=
      h.setMonitor (by rw [hpc]; rfl) rfl
    have hoset : (s.setMonitor info (.waitpid pid)).Orderly :=
      ho.setMonitor (by simp [hpc]) nofun
    exact ⟨iff_of_true ⟨hset.monitors, hset.children, hset.listed⟩ (hok (by simp [hpc])),
      ⟨hoset.unique, hoset.added, hoset.object, hoset.pid⟩⟩
  | reaped pid pc hpc hproc hnew =>
    have hregistered : pc.registered = true := by obtain rfl | rfl := hnew <;> rfl
    obtain ⟨hsingle, horderly⟩ := single_reaped h ho (by rw [hpc]; rfl) hregistered hproc
    exact ⟨iff_of_true hsingle (hok (by simp [hpc])), horderly⟩
  | removed _ hpc =>
    have hremove := hpc.resolve_right (ho.added info)
    exact ⟨iff_of_true (h.remove ho hremove) (hok (by simp [hremove])), ho.remove hremove⟩

theorem single_step (h : s.Single) (ho : s.Orderly) (hs : s.step a = some s') :
    (s'.Single ↔ s.SingleOk a) ∧ s'.Orderly := by
  obtain ⟨ha, -, stops, starts, rfl⟩ | ⟨fails, rfl, hservice⟩ | ⟨info, fails, rfl, hmonitor⟩ |
    ⟨pid, status, info, rfl, halive, rfl⟩ := step_cases hs
  · have hq : Quiet s { s with pc := .loops stops starts } := quiet_notes ..
    have hok : s.SingleOk a := by
      obtain ⟨apps, rfl⟩ | rfl := ha <;> trivial
    exact ⟨iff_of_true (hq.single h) hok, hq.orderly ho⟩
  · obtain ⟨appUuid, starts, hpc, rfl, rfl⟩ | ⟨hnot, hq⟩ := serviceStep_cases hservice
    · refine ⟨(single_create_iff h ho appUuid _).trans ?_, ho.create appUuid _⟩
      constructor
      · intro hall appUuid' starts' hpc'
        obtain ⟨rfl, -⟩ := ServicePc.create.inj (hpc.symm.trans hpc')
        exact hall
      · exact fun hok => hok appUuid starts hpc
    · refine ⟨iff_of_true (hq.single h) ?_, hq.orderly ho⟩
      cases fails with
      | true => trivial
      | false => exact fun appUuid starts hpc => absurd (hnot appUuid starts hpc) (by decide)
  · exact single_monitorStep h ho hmonitor
  · have hq : Quiet s (s.setProc pid (.zombie info status)) := quiet_setProc_zombie halive
    exact ⟨iff_of_true (hq.single h) trivial, hq.orderly ho⟩

theorem throughout_single_iff (as : List ServiceAction) :
    Throughout step Single {} as ↔ EachStep step SingleOk {} as := by
  refine throughout_iff_eachStep_of_ok (fun ho h _ hs => (single_step h ho hs).2)
    (fun ho h hs => (single_step h ho hs).1) (I := Orderly) ?_ ?_
  · exact ⟨List.nodup_nil, nofun, fun _ _ => rfl, fun _ _ => rfl⟩
  · refine ⟨nofun, nofun, fun uuid => iff_of_false nofun ?_⟩
    rintro ⟨info, -, hregistered⟩
    cases hregistered

/-- Two runs of `processDB` come before the first monitor has registered: the application gets two
monitors, and the second one takes it out of the list, while its process runs. -/
theorem second_monitor : ∃ s,
    exec step {} [.processDB ["app"],
      .service false, .service false, .service false, .service false,
      .processDB ["app"], .service false, .service false,
      .monitor ⟨"app", 0⟩ false, .monitor ⟨"app", 0⟩ false,
      .monitor ⟨"app", 1⟩ false, .monitor ⟨"app", 1⟩ false] = some s ∧
    s.mApps = [] ∧ s.procs 1 = .alive ⟨"app", 0⟩ ∧ s.monitor ⟨"app", 0⟩ = .setPid 1 :=
  ⟨_, rfl, rfl, rfl, rfl⟩

end Service

end Kalinka
