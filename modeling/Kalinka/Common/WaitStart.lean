import Kalinka.Common.Semaphore
import Kalinka.Lib.Run
import Mathlib.Tactic.ByContra

/-!
# Waiting for the start of a module

`Module::init` resets the start semaphore and registers the checkpoints, the thread of the module
passes them, and the last one posts the semaphore.  `waitStart` tests the checkpoint count and then
waits on the semaphore.  A wait that times out or is interrupted posts "to restore initial state",
although it has taken nothing.

`throughout_returnsReady` says when `waitStart` returns normally for started modules only.
-/

namespace Kalinka

open Run

/-- The start synchronisation of one module. -/
structure Startup where
  mStartSem : Semaphore := .init
  mCheckpointCount : ℕ := 0
  /-- `init()` has been called. -/
  inited : Bool := false
  /-- the checkpoints that the last `init()` has still to register -/
  toRegister : ℕ := 0
  /-- The thread that belongs to the last `init()` is running. -/
  thread : Bool := false
  /-- the running threads of former `init()` calls -/
  overtaken : ℕ := 0
  /-- the checkpoints passed since the last `init()` by the thread that belongs to it -/
  passed : ℕ := 0
  /-- the `waitStart` calls between `isStarted()` and their `sem_timedwait` -/
  waiting : ℕ := 0
  /-- the `waitStart` calls whose `sem_timedwait` has failed, before their post -/
  failed : ℕ := 0
  /-- for each normal return of a `waitStart`, whether the module had started -/
  returns : List Bool := []
  deriving DecidableEq, Repr

inductive StartupAction
  /-- `m_start_sem.init()` in `Module::init` -/
  | init
  | registerStartupCheckpoint
  | threadStart
  | passStartupCheckpoint
  | threadEnd
  /-- a checkpoint passed by the thread of a former `init()` -/
  | overtakenPass
  | overtakenEnd
  /-- `isStarted()` at the begin of a `waitStart` -/
  | isStarted
  /-- `sem_timedwait` takes a unit. -/
  | timedwait
  /-- `EINTR` or `ETIMEDOUT` -/
  | interrupt
  /-- the post of a failed wait, after which `waitStart` throws -/
  | restore
  deriving DecidableEq, Repr

namespace Startup

/-- All checkpoints have been passed since the last `init()`. -/
def started (s : Startup) (checkpoints : ℕ) : Bool :=
  s.inited && s.toRegister == 0 && decide (checkpoints ≤ s.passed)

/-- The effect of `passStartupCheckpoint()` on the module. -/
def pass (s : Startup) : Startup :=
  if s.mCheckpointCount - 1 = 0 then { s with mCheckpointCount := 0, mStartSem := s.mStartSem.post }
  else { s with mCheckpointCount := s.mCheckpointCount - 1 }

/-- The steps for a module whose `init()` registers so many checkpoints: one for a `Module`, two for
a `ModuleWithDB`.  The count is not reset by `init()`. -/
def step (checkpoints : ℕ) (s : Startup) : StartupAction → Option Startup
  | .init =>
    if s.toRegister = 0 then
      some { s with
        mStartSem := .init, inited := true, toRegister := checkpoints, thread := false,
        overtaken := if s.thread then s.overtaken + 1 else s.overtaken, passed := 0 }
    else none
  | .registerStartupCheckpoint =>
    if s.toRegister = 0 then none
    else some { s with
      mCheckpointCount := s.mCheckpointCount + 1, toRegister := s.toRegister - 1 }
  | .threadStart =>
    if s.inited ∧ s.toRegister = 0 then some { s with thread := true } else none
  | .passStartupCheckpoint =>
    if s.thread then some ({ s with passed := s.passed + 1 } : Startup).pass else none
  | .threadEnd => if s.thread then some { s with thread := false } else none
  | .overtakenPass => if s.overtaken = 0 then none else some s.pass
  | .overtakenEnd =>
    if s.overtaken = 0 then none else some { s with overtaken := s.overtaken - 1 }
  | .isStarted =>
    if 0 < s.mCheckpointCount then some { s with waiting := s.waiting + 1 }
    else some { s with returns := s.returns ++ [s.started checkpoints] }
  | .timedwait =>
    if s.waiting = 0 then none
    else s.mStartSem.tryWait.map fun sem => { s with
      mStartSem := sem, waiting := s.waiting - 1, returns := s.returns ++ [s.started checkpoints] }
  | .interrupt =>
    if s.waiting = 0 then none
    else some { s with waiting := s.waiting - 1, failed := s.failed + 1 }
  | .restore =>
    if s.failed = 0 then none
    else some { s with mStartSem := s.mStartSem.post, failed := s.failed - 1 }

/-- Every normal return was from a started module, and the semaphore of a module that has not
started lets no later `waitStart` return. -/
structure ReturnsReady (checkpoints : ℕ) (s : Startup) : Prop where
  returns : ∀ started ∈ s.returns, started = true
  sem : s.started checkpoints = false → s.mStartSem.value = 0

/-- The condition under which a step keeps `ReturnsReady`: `init()` finds no thread of a former
`init()` running, `isStarted()` does not find the count at zero before the first `init()` or before
`init()` has registered its checkpoints, and a failed wait posts for a started module only. -/
def WaitOk (checkpoints : ℕ) (s : Startup) : StartupAction → Prop
  | .init => s.thread = false
  | .isStarted => s.mCheckpointCount = 0 → s.inited = true ∧ s.toRegister = 0
  | .restore => s.started checkpoints = true
  | _ => True

/-- What the code keeps besides: no thread has been overtaken, and the checkpoints that are counted,
still to be registered or passed are enough. -/
structure Counted (checkpoints : ℕ) (s : Startup) : Prop where
  overtaken : s.overtaken = 0
  thread : s.thread = true → s.inited = true ∧ s.toRegister = 0
  enough : s.inited = true → checkpoints ≤ s.mCheckpointCount + s.toRegister + s.passed

variable {checkpoints : ℕ} {s s' : Startup} {a : StartupAction}

/-! ## The steps -/

theorem started_eq_true_iff : s.started checkpoints = true ↔
    s.inited = true ∧ s.toRegister = 0 ∧ checkpoints ≤ s.passed := by
  simp [started, and_assoc]

/-- The last checkpoint posts, the others are counted. -/
theorem pass_eq (s : Startup) : (s.mCheckpointCount ≤ 1 ∧
      s.pass = { s with mCheckpointCount := 0, mStartSem := s.mStartSem.post }) ∨
    (1 < s.mCheckpointCount ∧ s.pass = { s with mCheckpointCount := s.mCheckpointCount - 1 }) := by
  unfold pass
  by_cases h : s.mCheckpointCount - 1 = 0
  · left
    exact ⟨by omega, if_pos h⟩
  · right
    exact ⟨by omega, if_neg h⟩

theorem step_init_eq_some_iff : s.step checkpoints .init = some s' ↔ s.toRegister = 0 ∧
    s' = { s with
      mStartSem := .init, inited := true, toRegister := checkpoints, thread := false,
      overtaken := if s.thread then s.overtaken + 1 else s.overtaken, passed := 0 } := by
  by_cases h : s.toRegister = 0 <;> simp [step, h, eq_comm (b := s')]

theorem step_register_eq_some_iff : s.step checkpoints .registerStartupCheckpoint = some s' ↔
    s.toRegister ≠ 0 ∧ s' = { s with
      mCheckpointCount := s.mCheckpointCount + 1, toRegister := s.toRegister - 1 } := by
  by_cases h : s.toRegister = 0 <;> simp [step, h, eq_comm (b := s')]

theorem step_threadStart_eq_some_iff : s.step checkpoints .threadStart = some s' ↔
    (s.inited = true ∧ s.toRegister = 0) ∧ s' = { s with thread := true } := by
  by_cases h : s.inited = true ∧ s.toRegister = 0 <;> simp [step, h, eq_comm (b := s')]

theorem step_pass_eq_some_iff : s.step checkpoints .passStartupCheckpoint = some s' ↔
    s.thread = true ∧ s' = ({ s with passed := s.passed + 1 } : Startup).pass := by
  by_cases h : s.thread = true <;> simp [step, h, eq_comm (b := s')]

theorem step_threadEnd_eq_some_iff : s.step checkpoints .threadEnd = some s' ↔
    s.thread = true ∧ s' = { s with thread := false } := by
  by_cases h : s.thread = true <;> simp [step, h, eq_comm (b := s')]

theorem step_isStarted_eq_some_iff : s.step checkpoints .isStarted = some s' ↔
    (0 < s.mCheckpointCount ∧ s' = { s with waiting := s.waiting + 1 }) ∨
    (s.mCheckpointCount = 0 ∧ s' = { s with returns := s.returns ++ [s.started checkpoints] }) := by
  by_cases h : 0 < s.mCheckpointCount
  · simp [step, h, Nat.ne_of_gt h, eq_comm (b := s')]
  · simp [step, Nat.eq_zero_of_not_pos h, eq_comm (b := s')]

theorem step_timedwait_eq_some_iff : s.step checkpoints .timedwait = some s' ↔ s.waiting ≠ 0 ∧
    ∃ sem : Semaphore, s.mStartSem.value = sem.value + 1 ∧ s' = { s with
      mStartSem := sem, waiting := s.waiting - 1,
      returns := s.returns ++ [s.started checkpoints] } := by
  by_cases h : s.waiting = 0
  · simp [step, h]
  · simp [step, h, Semaphore.tryWait_eq_some_iff, eq_comm (b := s')]

theorem step_interrupt_eq_some_iff : s.step checkpoints .interrupt = some s' ↔ s.waiting ≠ 0 ∧
    s' = { s with waiting := s.waiting - 1, failed := s.failed + 1 } := by
  by_cases h : s.waiting = 0 <;> simp [step, h, eq_comm (b := s')]

theorem step_restore_eq_some_iff : s.step checkpoints .restore = some s' ↔ s.failed ≠ 0 ∧
    s' = { s with mStartSem := s.mStartSem.post, failed := s.failed - 1 } := by
  by_cases h : s.failed = 0 <;> simp [step, h, eq_comm (b := s')]

/-- Without overtaken threads their steps are not enabled. -/
theorem Counted.step_overtaken_ne_some (h : s.Counted checkpoints) :
    s.step checkpoints .overtakenPass ≠ some s' ∧ s.step checkpoints .overtakenEnd ≠ some s' := by
  simp [step, h.overtaken]

/-! ## The count -/

theorem Counted.pass (h : s.Counted checkpoints) :
    ({ s with passed := s.passed + 1 } : Startup).pass.Counted checkpoints := by
  obtain ⟨hle, heq⟩ | ⟨hlt, heq⟩ := pass_eq { s with passed := s.passed + 1 }
  · rw [heq]
    refine ⟨h.overtaken, h.thread, fun hinit => ?_⟩
    have hcount : s.mCheckpointCount ≤ 1 := hle
    have henough := h.enough hinit
    show checkpoints ≤ 0 + s.toRegister + (s.passed + 1)
    omega
  · rw [heq]
    refine ⟨h.overtaken, h.thread, fun hinit => ?_⟩
    have henough := h.enough hinit
    show checkpoints ≤ s.mCheckpointCount - 1 + s.toRegister + (s.passed + 1)
    omega

theorem Counted.step (h : s.Counted checkpoints) (hok : s.WaitOk checkpoints a)
    (hs : s.step checkpoints a = some s') : s'.Counted checkpoints := by
  cases a with
  | init =>
    obtain ⟨-, rfl⟩ := step_init_eq_some_iff.1 hs
    have hthread : s.thread = false := hok
    refine ⟨?_, nofun, fun _ => ?_⟩
    · simp [hthread, h.overtaken]
    · show checkpoints ≤ s.mCheckpointCount + checkpoints + 0
      omega
  | registerStartupCheckpoint =>
    obtain ⟨hne, rfl⟩ := step_register_eq_some_iff.1 hs
    refine ⟨h.overtaken, fun hthread => absurd (h.thread hthread).2 hne, fun hinit => ?_⟩
    have henough := h.enough hinit
    show checkpoints ≤ s.mCheckpointCount + 1 + (s.toRegister - 1) + s.passed
    omega
  | threadStart =>
    obtain ⟨hready, rfl⟩ := step_threadStart_eq_some_iff.1 hs
    exact ⟨h.overtaken, fun _ => hready, h.enough⟩
  | passStartupCheckpoint =>
    obtain ⟨-, rfl⟩ := step_pass_eq_some_iff.1 hs
    exact h.pass
  | threadEnd =>
    obtain ⟨-, rfl⟩ := step_threadEnd_eq_some_iff.1 hs
    exact ⟨h.overtaken, nofun, h.enough⟩
  | overtakenPass => exact absurd hs h.step_overtaken_ne_some.1
  | overtakenEnd => exact absurd hs h.step_overtaken_ne_some.2
  | isStarted =>
    obtain ⟨-, rfl⟩ | ⟨-, rfl⟩ := step_isStarted_eq_some_iff.1 hs <;>
      exact ⟨h.overtaken, h.thread, h.enough⟩
  | timedwait =>
    obtain ⟨-, sem, -, rfl⟩ := step_timedwait_eq_some_iff.1 hs
    exact ⟨h.overtaken, h.thread, h.enough⟩
  | interrupt =>
    obtain ⟨-, rfl⟩ := step_interrupt_eq_some_iff.1 hs
    exact ⟨h.overtaken, h.thread, h.enough⟩
  | restore =>
    obtain ⟨-, rfl⟩ := step_restore_eq_some_iff.1 hs
    exact ⟨h.overtaken, h.thread, h.enough⟩

/-- A module whose count has come down to zero after `init()` has started. -/
theorem Counted.started (h : s.Counted checkpoints) (hcount : s.mCheckpointCount = 0)
    (hready : s.inited = true ∧ s.toRegister = 0) : s.started checkpoints = true := by
  have henough := h.enough hready.1
  have hregistered := hready.2
  exact started_eq_true_iff.2 ⟨hready.1, hready.2, by omega⟩

/-! ## The returns -/

theorem forall_mem_append_started {returns : List Bool} (h : ∀ started ∈ returns, started = true)
    (hs : s.started checkpoints = true) :
    ∀ started ∈ returns ++ [s.started checkpoints], started = true :=
  List.forall_mem_append.2 ⟨h, List.forall_mem_singleton.2 hs⟩

/-- A pass by the module's own thread posts only when it is the last one. -/
theorem ReturnsReady.pass (h : s.ReturnsReady checkpoints) (hcounted : s.Counted checkpoints)
    (hthread : s.thread = true) :
    ({ s with passed := s.passed + 1 } : Startup).pass.ReturnsReady checkpoints := by
  have hcounted' := hcounted.pass
  have hready := hcounted.thread hthread
  obtain ⟨-, heq⟩ | ⟨-, heq⟩ := pass_eq { s with passed := s.passed + 1 }
  · rw [heq] at hcounted' ⊢
    have hstarted := hcounted'.started rfl hready
    exact ⟨h.returns, fun hnot => absurd hstarted (by rw [hnot]; decide)⟩
  · rw [heq]
    refine ⟨h.returns, fun hnot => h.sem ?_⟩
    by_contra hstarted
    obtain ⟨hinit, hregistered, hle⟩ := started_eq_true_iff.1 (eq_true_of_ne_false hstarted)
    have hlater : ({ s with
        mCheckpointCount := s.mCheckpointCount - 1, passed := s.passed + 1 } :
        Startup).started checkpoints = true :=
      started_eq_true_iff.2 ⟨hinit, hregistered, Nat.le_succ_of_le hle⟩
    exact absurd (hnot.symm.trans hlater) (by decide)

theorem ReturnsReady.step (h : s.ReturnsReady checkpoints) (hcounted : s.Counted checkpoints)
    (hok : s.WaitOk checkpoints a) (hs : s.step checkpoints a = some s') :
    s'.ReturnsReady checkpoints := by
  cases a with
  | init =>
    obtain ⟨-, rfl⟩ := step_init_eq_some_iff.1 hs
    exact ⟨h.returns, fun _ => rfl⟩
  | registerStartupCheckpoint =>
    obtain ⟨hne, rfl⟩ := step_register_eq_some_iff.1 hs
    refine ⟨h.returns, fun _ => h.sem ?_⟩
    by_contra hstarted
    exact hne (started_eq_true_iff.1 (eq_true_of_ne_false hstarted)).2.1
  | threadStart =>
    obtain ⟨-, rfl⟩ := step_threadStart_eq_some_iff.1 hs
    exact ⟨h.returns, h.sem⟩
  | passStartupCheckpoint =>
    obtain ⟨hthread, rfl⟩ := step_pass_eq_some_iff.1 hs
    exact h.pass hcounted hthread
  | threadEnd =>
    obtain ⟨-, rfl⟩ := step_threadEnd_eq_some_iff.1 hs
    exact ⟨h.returns, h.sem⟩
  | overtakenPass => exact absurd hs hcounted.step_overtaken_ne_some.1
  | overtakenEnd => exact absurd hs hcounted.step_overtaken_ne_some.2
  | isStarted =>
    obtain ⟨-, rfl⟩ | ⟨hcount, rfl⟩ := step_isStarted_eq_some_iff.1 hs
    · exact ⟨h.returns, h.sem⟩
    · exact ⟨forall_mem_append_started h.returns (hcounted.started hcount (hok hcount)), h.sem⟩
  | timedwait =>
    obtain ⟨-, sem, hsem, rfl⟩ := step_timedwait_eq_some_iff.1 hs
    have hstarted : s.started checkpoints = true := by
      by_contra hnot
      have hzero := h.sem (eq_false_of_ne_true hnot)
      omega
    refine ⟨forall_mem_append_started h.returns hstarted, fun hnot => ?_⟩
    exact absurd (hstarted.symm.trans hnot) (by decide)
  | interrupt =>
    obtain ⟨-, rfl⟩ := step_interrupt_eq_some_iff.1 hs
    exact ⟨h.returns, h.sem⟩
  | restore =>
    obtain ⟨-, rfl⟩ := step_restore_eq_some_iff.1 hs
    have hstarted : s.started checkpoints = true := hok
    exact ⟨h.returns, fun hnot => absurd (hstarted.symm.trans hnot) (by decide)⟩

/-- In every run whose steps meet `WaitOk`, a `waitStart` returns normally only for a module that
has passed all its checkpoints since the last `init()`. -/
theorem throughout_returnsReady (checkpoints : ℕ) (as : List StartupAction)
    (hok : EachStep (step checkpoints) (WaitOk checkpoints) {} as) :
    Throughout (step checkpoints) (ReturnsReady checkpoints) {} as :=
  throughout_of_eachStep
    (I := fun s => s.Counted checkpoints ∧ s.ReturnsReady checkpoints)
    (fun h hok hs => ⟨h.1.step hok hs, h.2.step h.1 hok hs⟩) And.right
    ⟨⟨rfl, nofun, nofun⟩, nofun, fun _ => rfl⟩ hok

/-- A loader that waits while the thread passes the only checkpoint. -/
theorem throughout_returnsReady_load : Throughout (step 1) (ReturnsReady 1) {}
    [.init, .registerStartupCheckpoint, .threadStart, .isStarted, .passStartupCheckpoint,
      .timedwait] :=
  throughout_returnsReady 1 _ <|
    .cons rfl rfl <| .cons rfl trivial <| .cons rfl trivial <| .cons rfl nofun <|
    .cons rfl trivial <| .cons rfl trivial trivial

/-- A wait that times out lets the next `waitStart` return before the thread has even begun. -/
theorem timeout_starts_module : ∃ s, exec (step 1) {}
    [.init, .registerStartupCheckpoint, .isStarted, .interrupt, .restore, .isStarted, .timedwait] =
      some s ∧ s.thread = false ∧ s.passed = 0 ∧ s.returns = [false] :=
  ⟨_, rfl, rfl, rfl, rfl⟩

/-- A loader that comes between the reset of the semaphore and the registration does not wait. -/
example : ∃ s, exec (step 1) {} [.init, .isStarted] = some s ∧ s.returns = [false] :=
  ⟨_, rfl, rfl⟩

end Startup

end Kalinka
