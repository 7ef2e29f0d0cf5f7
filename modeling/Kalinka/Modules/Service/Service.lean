import Kalinka.Lib.Run
import Mathlib.Data.Nat.Notation
import Mathlib.Logic.Function.Basic

/-!
# The service module

The message thread of the module runs `processDB`, and at the end `stopApplications`; for each
application it starts, a monitor thread registers the application, forks its process, waits for it
and forks again after a crash.  Every access to the shared lists and to a pid under its own lock,
every system call and every end of a process is a step of its own.

The info of an application to be started is made when its thread is created; before that only its
uuid is looked at.  A pid is never given twice here; to a pid that has been reaped `kill` may still
succeed, because the kernel may have given it to somebody else.
-/

namespace Kalinka

open Function

/-- `AppInfoPtr`: the application and which object of its uuid. -/
structure AppInfoPtr where
  appUuid : String
  object : ℕ
  deriving DecidableEq, Repr

/-- How a process ended: by itself, by `SIGSEGV`, `SIGABRT` or `SIGBUS`, or by another signal. -/
inductive WaitStatus
  | exited
  | crashed
  | signaled
  deriving DecidableEq, Repr

/-- A process id: not yet given, or that of a child. -/
inductive Proc
  | free
  | alive (info : AppInfoPtr)
  | zombie (info : AppInfoPtr) (status : WaitStatus)
  | reaped
  deriving DecidableEq, Repr

/-- Where `doApplicationMonitor` is; `failed` is the handler after a failed `m_apps.add`. -/
inductive MonitorPc
  | none
  | add
  | fork
  | setPid (pid : ℕ)
  | waitpid (pid : ℕ)
  | remove
  | failed
  | ended
  deriving DecidableEq, Repr

/-- Where `stopApplication` is. -/
inductive StopPc
  | getPid
  /-- `kill(pid, SIGTERM)` -/
  | term (pid : ℕ)
  | timedJoin
  | getPid4Kill
  /-- `kill(pid, SIGKILL)` -/
  | kill (pid : ℕ)
  | join
  deriving DecidableEq, Repr

/-- Where the message thread is: outside, at the head of the loops over the applications to stop and
to start, in `startApplication` before the thread is created or before `setThread`, or in
`stopApplication`. -/
inductive ServicePc
  | idle
  | loops (stops : List AppInfoPtr) (starts : List String)
  | create (appUuid : String) (starts : List String)
  | setThread (info : AppInfoPtr) (starts : List String)
  | stop (info : AppInfoPtr) (pc : StopPc) (stops : List AppInfoPtr) (starts : List String)
  deriving DecidableEq, Repr

structure Service where
  /-- `m_apps` -/
  mApps : List AppInfoPtr := []
  /-- `m_pid` of each info -/
  mPid : AppInfoPtr → ℕ := fun _ => 0
  /-- `m_thread` is set. -/
  mThread : AppInfoPtr → Bool := fun _ => false
  monitor : AppInfoPtr → MonitorPc := fun _ => .none
  pc : ServicePc := .idle
  nextObject : ℕ := 0
  procs : ℕ → Proc := fun _ => .free
  nextPid : ℕ := 1
  /-- `SIGKILL` has gone to the process group of the daemon. -/
  killed : Bool := false
  /-- for each signal of `stopApplication`, whether it went to the current child -/
  signals : List Bool := []
  /-- for each return of `stopApplication`, whether the application was down for good -/
  returns : List Bool := []

inductive ServiceAction
  | processDB (apps : List String)
  | stopApplications
  /-- the next step of the message thread; with `fails` a thread cannot be created, a `timed_join`
  times out, or a `kill` finds nobody under a reaped pid -/
  | service (fails : Bool)
  /-- the next step of a monitor; with `fails` the `fork` or the `waitpid` fails -/
  | monitor (info : AppInfoPtr) (fails : Bool)
  /-- the end of a process -/
  | exit (pid : ℕ) (status : WaitStatus)
  deriving DecidableEq, Repr

namespace Service

def uuids (s : Service) : List String := s.mApps.map AppInfoPtr.appUuid

def setMonitor (s : Service) (info : AppInfoPtr) (pc : MonitorPc) : Service :=
  { s with monitor := update s.monitor info pc }

def setProc (s : Service) (pid : ℕ) (proc : Proc) : Service :=
  { s with procs := update s.procs pid proc }

/-- `AppInfoStorage::getMissing`. -/
def getMissing (s : Service) (apps : List String) : List AppInfoPtr :=
  s.mApps.filter fun info => info.appUuid ∉ apps

/-- The pid is that of the child the monitor is busy with. -/
def current (s : Service) (info : AppInfoPtr) (pid : ℕ) : Bool :=
  decide (s.monitor info = .setPid pid ∨ s.monitor info = .waitpid pid)

/-- The process of the application is dead and its monitor starts no other. -/
def down (s : Service) (info : AppInfoPtr) : Bool :=
  decide (s.monitor info ∈ [.none, .remove, .failed, .ended]) &&
    (List.range s.nextPid).all fun pid => s.procs pid ≠ .alive info

/-- Whether `kill` returns 0.  The pid 0 stands for the process group of the daemon. -/
def killSucceeds (s : Service) (pid : ℕ) (fails : Bool) : Bool :=
  if pid = 0 then true
  else match s.procs pid with
    | .free => false
    | .reaped => !fails
    | _ => true

/-- What `SIGKILL` does to its receiver. -/
def kill (s : Service) (pid : ℕ) : Service :=
  if pid = 0 then { s with killed := true }
  else match s.procs pid with
    | .alive info => s.setProc pid (.zombie info .signaled)
    | _ => s

/-- `stopApplication` returns. -/
def stopReturns (s : Service) (info : AppInfoPtr) (stops : List AppInfoPtr)
    (starts : List String) : Service :=
  { s with returns := s.returns ++ [s.down info], pc := .loops stops starts }

def signal (s : Service) (info : AppInfoPtr) (pid : ℕ) : Service :=
  { s with signals := s.signals ++ [decide (0 < pid) && s.current info pid] }

/-- One step of `stopApplication`. -/
def stopStep (s : Service) (info : AppInfoPtr) (stops : List AppInfoPtr) (starts : List String)
    (fails : Bool) : StopPc → Option Service
  | .getPid => some { s with pc := .stop info (.term (s.mPid info)) stops starts }
  | .term pid =>
    let s' := s.signal info pid
    if s.killSucceeds pid fails then
      -- `BOOST_ASSERT(thread)`
      if s.mThread info then some { s' with pc := .stop info .timedJoin stops starts }
      else some (s'.stopReturns info stops starts)
    else some (s'.stopReturns info stops starts)
  | .timedJoin =>
    if s.monitor info = .ended then some (s.stopReturns info stops starts)
    else if fails then some { s with pc := .stop info .getPid4Kill stops starts }
    else none
  | .getPid4Kill => some { s with pc := .stop info (.kill (s.mPid info)) stops starts }
  | .kill pid =>
    let s' := (s.signal info pid).kill pid
    if s.killSucceeds pid fails then some { s' with pc := .stop info .join stops starts }
    else some (s'.stopReturns info stops starts)
  | .join => if s.monitor info = .ended then some (s.stopReturns info stops starts) else none

/-- One step of the message thread. -/
def serviceStep (s : Service) (fails : Bool) : Option Service :=
  match s.pc with
  | .idle => none
  | .loops [] [] => some { s with pc := .idle }
  | .loops (info :: stops) starts => some { s with pc := .stop info .getPid stops starts }
  | .loops [] (appUuid :: starts) =>
    -- `m_apps.find(info)`
    if appUuid ∈ s.uuids then some { s with pc := .loops [] starts }
    else some { s with pc := .create appUuid starts }
  | .create appUuid starts =>
    let info : AppInfoPtr := ⟨appUuid, s.nextObject⟩
    if fails then
      some { s with pc := .stop info .getPid [] starts, nextObject := s.nextObject + 1 }
    else
      some { s.setMonitor info .add with
        pc := .setThread info starts, nextObject := s.nextObject + 1 }
  | .setThread info starts =>
    some { s with mThread := update s.mThread info true, pc := .loops [] starts }
  | .stop info pc stops starts => s.stopStep info stops starts fails pc

/-- The end of `waitpid`.  The test for its failure is never true, so a failed wait passes for the
exit of the process. -/
def waited (s : Service) (info : AppInfoPtr) (pid : ℕ) (fails : Bool) : Option Service :=
  if fails then some (s.setMonitor info .remove)
  else match s.procs pid with
    | .zombie _ .crashed => some ((s.setProc pid .reaped).setMonitor info .fork)
    | .zombie .. => some ((s.setProc pid .reaped).setMonitor info .remove)
    | _ => none

/-- `AppInfoStorage::remove`, which takes out the first info of the same application. -/
def removeApp (s : Service) (info : AppInfoPtr) : Service :=
  { s with mApps := s.mApps.eraseP fun other => other.appUuid = info.appUuid }

/-- One step of `doApplicationMonitor`. -/
def monitorStep (s : Service) (info : AppInfoPtr) (fails : Bool) : Option Service :=
  match s.monitor info with
  | .none | .ended => none
  | .add =>
    if info.appUuid ∈ s.uuids then some (s.setMonitor info .failed)
    else some { s.setMonitor info .fork with mApps := s.mApps ++ [info] }
  | .fork =>
    if fails then some (s.setMonitor info .remove)
    else some { (s.setProc s.nextPid (.alive info)).setMonitor info (.setPid s.nextPid) with
      nextPid := s.nextPid + 1 }
  | .setPid pid =>
    some { s.setMonitor info (.waitpid pid) with mPid := update s.mPid info pid }
  | .waitpid pid => s.waited info pid fails
  | .remove | .failed => some ((s.removeApp info).setMonitor info .ended)

def step (s : Service) : ServiceAction → Option Service
  | .processDB apps =>
    if s.killed = false ∧ s.pc = .idle then
      some { s with pc := .loops (s.getMissing apps) apps }
    else none
  | .stopApplications =>
    if s.killed = false ∧ s.pc = .idle then some { s with pc := .loops s.mApps [] } else none
  | .service fails => if s.killed then none else s.serviceStep fails
  | .monitor info fails => if s.killed then none else s.monitorStep info fails
  | .exit pid status =>
    match s.procs pid with
    | .alive info => some (s.setProc pid (.zombie info status))
    | _ => none

/-! ## What the steps do -/

/-- Outside the message thread and its records, processes may have ended. -/
structure Quiet (s s' : Service) : Prop where
  mApps : s'.mApps = s.mApps
  monitor : s'.monitor = s.monitor
  nextPid : s'.nextPid = s.nextPid
  object : s.nextObject ≤ s'.nextObject
  procs : ∀ pid, s'.procs pid = s.procs pid ∨
    ∃ info status, s.procs pid = .alive info ∧ s'.procs pid = .zombie info status

variable {s s' : Service} {a : ServiceAction} {info : AppInfoPtr} {pid : ℕ} {fails : Bool}

theorem Quiet.of_eq (hmApps : s'.mApps = s.mApps) (hmonitor : s'.monitor = s.monitor)
    (hnextPid : s'.nextPid = s.nextPid) (hobject : s.nextObject ≤ s'.nextObject)
    (hprocs : s'.procs = s.procs) : Quiet s s' :=
  ⟨hmApps, hmonitor, hnextPid, hobject, fun pid => Or.inl (congrFun hprocs pid)⟩

theorem Quiet.refl (s : Service) : Quiet s s := .of_eq rfl rfl rfl (by omega) rfl

/-- The message thread goes on and takes notes. -/
theorem quiet_notes (s : Service) (pc : ServicePc) (mThread : AppInfoPtr → Bool)
    (signals returns : List Bool) : Quiet s { s with pc, mThread, signals, returns } :=
  .of_eq rfl rfl rfl (by simp) rfl

theorem quiet_setProc_zombie {status : WaitStatus} (h : s.procs pid = .alive info) :
    Quiet s (s.setProc pid (.zombie info status)) := by
  refine ⟨rfl, rfl, rfl, by simp [setProc], fun pid' => ?_⟩
  by_cases heq : pid' = pid
  · subst heq
    exact Or.inr ⟨info, status, h, update_self ..⟩
  · exact Or.inl (update_of_ne heq ..)

theorem quiet_kill (s : Service) (pid : ℕ) : Quiet s (s.kill pid) := by
  unfold kill
  split
  · exact .of_eq rfl rfl rfl (by simp) rfl
  · split
    next info halive => exact quiet_setProc_zombie halive
    · exact Quiet.refl s

/-- A request finds the message thread idle; else a thread takes a step, or a process ends. -/
theorem step_cases (h : s.step a = some s') :
    (((∃ apps, a = .processDB apps) ∨ a = .stopApplications) ∧ s.pc = .idle ∧
      ∃ stops starts, s' = { s with pc := .loops stops starts }) ∨
    (∃ fails, a = .service fails ∧ s.serviceStep fails = some s') ∨
    (∃ info fails, a = .monitor info fails ∧ s.monitorStep info fails = some s') ∨
    ∃ pid status info, a = .exit pid status ∧ s.procs pid = .alive info ∧
      s' = s.setProc pid (.zombie info status) := by
  cases a with
  | processDB apps =>
    simp only [step] at h
    split at h
    next hidle => exact Or.inl ⟨Or.inl ⟨apps, rfl⟩, hidle.2, _, _, (Option.some.inj h).symm⟩
    · cases h
  | stopApplications =>
    simp only [step] at h
    split at h
    next hidle => exact Or.inl ⟨Or.inr rfl, hidle.2, _, _, (Option.some.inj h).symm⟩
    · cases h
  | service fails =>
    simp only [step] at h
    split at h
    · cases h
    · exact Or.inr (Or.inl ⟨fails, rfl, h⟩)
  | monitor info fails =>
    simp only [step] at h
    split at h
    · cases h
    · exact Or.inr (Or.inr (Or.inl ⟨info, fails, rfl, h⟩))
  | exit pid status =>
    simp only [step] at h
    split at h
    next info halive =>
      exact Or.inr (Or.inr (Or.inr ⟨pid, status, info, rfl, halive, (Option.some.inj h).symm⟩))
    · cases h

/-- What a step of a monitor does. -/
inductive MonitorMoves (s : Service) (info : AppInfoPtr) : Bool → Service → Prop
  | inList (fails : Bool) (hpc : s.monitor info = .add) (hmem : info.appUuid ∈ s.uuids) :
      MonitorMoves s info fails (s.setMonitor info .failed)
  | add (fails : Bool) (hpc : s.monitor info = .add) (hnew : info.appUuid ∉ s.uuids) :
      MonitorMoves s info fails { s.setMonitor info .fork with mApps := s.mApps ++ [info] }
  | noFork (hpc : s.monitor info = .fork) : MonitorMoves s info true (s.setMonitor info .remove)
  | fork (hpc : s.monitor info = .fork) : MonitorMoves s info false
      { (s.setProc s.nextPid (.alive info)).setMonitor info (.setPid s.nextPid) with
        nextPid := s.nextPid + 1 }
  | setPid (fails : Bool) (pid : ℕ) (hpc : s.monitor info = .setPid pid) :
      MonitorMoves s info fails
        { s.setMonitor info (.waitpid pid) with mPid := update s.mPid info pid }
  | noWait (pid : ℕ) (hpc : s.monitor info = .waitpid pid) :
      MonitorMoves s info true (s.setMonitor info .remove)
  | reaped (pid : ℕ) (pc : MonitorPc) (hpc : s.monitor info = .waitpid pid)
      (hproc : s.procs pid ≠ .free) (hnew : pc = .fork ∨ pc = .remove) :
      MonitorMoves s info false ((s.setProc pid .reaped).setMonitor info pc)
  | removed (fails : Bool) (hpc : s.monitor info = .remove ∨ s.monitor info = .failed) :
      MonitorMoves s info fails ((s.removeApp info).setMonitor info .ended)

theorem monitorStep_cases (h : s.monitorStep info fails = some s') :
    MonitorMoves s info fails s' := by
  unfold monitorStep at h
  split at h
  · cases h
  · cases h
  next hpc =>
    split at h
    next hmem => exact Option.some.inj h ▸ .inList fails hpc hmem
    next hnew => exact Option.some.inj h ▸ .add fails hpc hnew
  next hpc =>
    cases fails with
    | true => exact Option.some.inj h ▸ .noFork hpc
    | false => exact Option.some.inj h ▸ .fork hpc
  next pid hpc => exact Option.some.inj h ▸ .setPid fails pid hpc
  next pid hpc =>
    cases fails with
    | true => exact Option.some.inj h ▸ .noWait pid hpc
    | false =>
      simp only [waited, Bool.false_eq_true, if_false] at h
      split at h
      next hproc => exact Option.some.inj h ▸ .reaped pid _ hpc (by simp [hproc]) (.inl rfl)
      next hproc => exact Option.some.inj h ▸ .reaped pid _ hpc (by simp [hproc]) (.inr rfl)
      · cases h
  next hpc => exact Option.some.inj h ▸ .removed fails (.inl hpc)
  next hpc => exact Option.some.inj h ▸ .removed fails (.inr hpc)

/-- `stopApplication` leaves the lists and the monitors alone. -/
theorem quiet_stopStep {stops : List AppInfoPtr} {starts : List String} {pc : StopPc}
    (h : s.stopStep info stops starts fails pc = some s') : Quiet s s' := by
  cases pc with
  | getPid | getPid4Kill =>
    obtain rfl := Option.some.inj h
    exact quiet_notes ..
  | term pid =>
    simp only [stopStep] at h
    split at h
    · split at h <;>
      · obtain rfl := Option.some.inj h
        exact quiet_notes ..
    · obtain rfl := Option.some.inj h
      exact quiet_notes ..
  | timedJoin =>
    simp only [stopStep] at h
    split at h
    · obtain rfl := Option.some.inj h
      exact quiet_notes ..
    · split at h
      · obtain rfl := Option.some.inj h
        exact quiet_notes ..
      · cases h
  | kill pid =>
    have hkill := quiet_kill (s.signal info pid) pid
    simp only [stopStep] at h
    split at h <;>
    · obtain rfl := Option.some.inj h
      exact ⟨hkill.mApps, hkill.monitor, hkill.nextPid, hkill.object, hkill.procs⟩
  | join =>
    simp only [stopStep] at h
    split at h
    · obtain rfl := Option.some.inj h
      exact quiet_notes ..
    · cases h

/-- The message thread creates a monitor, or it leaves the lists and the monitors alone. -/
theorem serviceStep_cases (h : s.serviceStep fails = some s') :
    (∃ appUuid starts, s.pc = .create appUuid starts ∧ fails = false ∧
      s' = { s.setMonitor ⟨appUuid, s.nextObject⟩ .add with
        pc := .setThread ⟨appUuid, s.nextObject⟩ starts, nextObject := s.nextObject + 1 }) ∨
    (∀ appUuid starts, s.pc = .create appUuid starts → fails = true) ∧ Quiet s s' := by
  unfold serviceStep at h
  split at h
  next hpc => cases h
  next hpc =>
    obtain rfl := Option.some.inj h
    exact Or.inr ⟨by simp [hpc], quiet_notes ..⟩
  next hpc =>
    obtain rfl := Option.some.inj h
    exact Or.inr ⟨by simp [hpc], quiet_notes ..⟩
  next hpc =>
    split at h <;>
    · obtain rfl := Option.some.inj h
      exact Or.inr ⟨by simp [hpc], quiet_notes ..⟩
  next appUuid starts hpc =>
    cases fails with
    | true =>
      obtain rfl := Option.some.inj h
      exact Or.inr ⟨fun _ _ _ => rfl, .of_eq rfl rfl rfl (by simp) rfl⟩
    | false =>
      obtain rfl := Option.some.inj h
      exact Or.inl ⟨appUuid, starts, hpc, rfl, rfl⟩
  next hpc =>
    obtain rfl := Option.some.inj h
    exact Or.inr ⟨by simp [hpc], quiet_notes ..⟩
  next hpc => exact Or.inr ⟨by simp [hpc], quiet_stopStep h⟩

end Service

end Kalinka
