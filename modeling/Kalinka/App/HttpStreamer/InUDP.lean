import Kalinka.App.HttpStreamer.InThread
import Kalinka.Common.Semaphore

/-!
# Inputs on demand

An `InUDPThread` reads its input only while somebody is connected.  `m_sem` mirrors the count of
connections: `increaseConnectionCount` posts a unit and `decreaseConnectionCount` takes one, the
thread takes one to see that it is needed and gives it back.  It gives the unit of `initReader`
back only when the reader has been initialised.  A connection whose request fails before it is
counted leaves like the others, and takes a unit that it has not posted.

`throughout_onDemand_iff` says exactly which runs never find the input without connections while
there is one.
-/

namespace Kalinka.Http

open Run

/-- Where the thread is.  It holds `m_init_lock` from `lock` to `initialised`. -/
inductive UdpPc
  /-- in `start()`, before `while (!isStopped())` -/
  | start
  /-- in `initReader`, before `resetListener()` and `Locker lock(&m_init_lock)` -/
  | lock
  /-- before the `sem_wait` of `m_sem.wait()` -/
  | wait
  /-- asleep in it -/
  | blocked
  /-- behind it, before `if (!isStopped())` -/
  | woken
  /-- the reader is there, before `m_sem.post()` -/
  | initialised
  /-- in `doLoop`, before `while (!isStopped())` and the `sem_trywait` of `m_sem.isLocked()` -/
  | loop
  /-- before the post of `isLocked()` -/
  | probed
  /-- before `doLoopAction` -/
  | receive
  /-- behind the `try` block of `start()` -/
  | clearing
  | finished
  deriving DecidableEq, Repr

namespace UdpPc

def hasInitLock : UdpPc → Bool
  | .wait | .blocked | .woken | .initialised => true
  | _ => false

/-- The thread has a unit of `m_sem` that it will give back. -/
def hand : UdpPc → ℕ
  | .woken | .initialised | .probed => 1
  | _ => 0

end UdpPc

structure InUDPThread where
  /-- the base class, with `m_con_count` -/
  inThread : InThread := {}
  mSem : Semaphore := .init
  stopped : Bool := false
  pc : UdpPc := .start
  /-- connections that have been counted and not posted -/
  arriving : ℕ := 0
  /-- connections that have posted and wait for `m_init_lock` -/
  entering : ℕ := 0
  served : ℕ := 0
  /-- connections that are counted no longer and have not done their `sem_trywait` -/
  leaving : ℕ := 0
  /-- connections that were never counted, have decreased the count all the same and have not done
  their `sem_trywait` -/
  strangers : ℕ := 0
  /-- units that the thread took and did not give back -/
  lost : ℕ := 0
  /-- units that connections took which were never counted -/
  taken : ℕ := 0
  /-- calls of `stop()` that have not posted -/
  stopping : ℕ := 0
  /-- units of `stop()`, of an interrupted wait, and of a connection that took none when it left -/
  extra : ℕ := 0
  /-- the connections counted each time the thread went to sleep or closed its reader, finding
  the semaphore locked -/
  decisions : List ℕ := []
  deriving DecidableEq, Repr

inductive UdpAction
  /-- the next step of the thread, which may throw -/
  | go (ok : Bool)
  /-- `sem_wait` finds the value 0 -/
  | block
  /-- `sem_wait` takes a unit -/
  | take
  /-- `sem_wait` returns `EINTR` -/
  | interrupt
  /-- the `sem_trywait` of `isLocked()` -/
  | isLocked
  /-- `InThread::increaseConnectionCount` -/
  | arrive
  /-- `m_sem.post()` of `increaseConnectionCount` -/
  | post
  /-- `Locker lock(&m_init_lock)` of `increaseConnectionCount` -/
  | enter
  /-- `InThread::decreaseConnectionCount` -/
  | leave
  /-- `m_sem.trywait()` of `decreaseConnectionCount` -/
  | tryWait
  /-- the same two by a connection that was never counted -/
  | leaveUncounted
  | tryWaitUncounted
  /-- `InThread::stop` -/
  | stop
  /-- `m_sem.post()` of `stop()` -/
  | postStop
  deriving DecidableEq, Repr

namespace InUDPThread

/-- The counted connections, whatever `m_con_count` says. -/
def counted (s : InUDPThread) : ℕ := s.arriving + s.entering + s.served

/-- The next step of the thread that does not take a unit. -/
def go (s : InUDPThread) (ok : Bool) : Option InUDPThread :=
  match s.pc with
  | .start => some { s with pc := if s.stopped then .finished else .lock }
  | .lock => some { s with pc := if ok then .wait else .clearing }
  | .woken =>
    if s.stopped then some { s with lost := s.lost + 1, pc := .clearing }
    else if ok then some { s with pc := .initialised }
    else some { s with lost := s.lost + 1, pc := .clearing }
  | .initialised => some { s with mSem := s.mSem.post, pc := .loop }
  | .loop => if s.stopped then some { s with pc := .clearing } else none
  | .probed => some { s with mSem := s.mSem.post, pc := .receive }
  | .receive => some { s with pc := if ok then .loop else .clearing }
  -- `BOOST_ASSERT(self.get() == this)` stands behind the `catch` blocks
  | .clearing => some { s with pc := if ok then .start else .finished }
  | .wait | .blocked | .finished => none

def step (s : InUDPThread) : UdpAction → Option InUDPThread
  | .go ok => s.go ok
  | .block =>
    match s.pc, s.mSem.tryWait with
    | .wait, none =>
      some { s with pc := .blocked, decisions := s.decisions ++ [s.counted] }
    | _, _ => none
  | .take =>
    match s.pc, s.mSem.tryWait with
    | .wait, some sem | .blocked, some sem => some { s with mSem := sem, pc := .woken }
    | _, _ => none
  | .interrupt =>
    match s.pc with
    | .blocked => some { s with extra := s.extra + 1, pc := .woken }
    | _ => none
  | .isLocked =>
    match s.pc, s.mSem.tryWait with
    | .loop, none =>
      some { s with pc := .clearing, decisions := s.decisions ++ [s.counted] }
    | .loop, some sem => some { s with mSem := sem, pc := .probed }
    | _, _ => none
  | .arrive =>
    some { s with
      inThread := s.inThread.increaseConnectionCount, arriving := s.arriving + 1 }
  | .post =>
    if s.arriving = 0 then none
    else some { s with
      mSem := s.mSem.post, arriving := s.arriving - 1, entering := s.entering + 1 }
  | .enter =>
    if s.entering = 0 ∨ s.pc.hasInitLock = true then none
    else some { s with entering := s.entering - 1, served := s.served + 1 }
  | .leave =>
    if s.served = 0 then none
    else some { s with
      inThread := s.inThread.decreaseConnectionCount
      served := s.served - 1
      leaving := s.leaving + 1 }
  | .tryWait =>
    if s.leaving = 0 then none
    else
      match s.mSem.tryWait with
      | some sem => some { s with mSem := sem, leaving := s.leaving - 1 }
      | none => some { s with leaving := s.leaving - 1, extra := s.extra + 1 }
  | .leaveUncounted =>
    some { s with
      inThread := s.inThread.decreaseConnectionCount, strangers := s.strangers + 1 }
  | .tryWaitUncounted =>
    if s.strangers = 0 then none
    else
      match s.mSem.tryWait with
      | some sem =>
        some { s with mSem := sem, strangers := s.strangers - 1, taken := s.taken + 1 }
      | none => some { s with strangers := s.strangers - 1 }
  | .stop => some { s with stopped := true, stopping := s.stopping + 1 }
  | .postStop =>
    if s.stopping = 0 then none
    else some { s with
      mSem := s.mSem.post, stopping := s.stopping - 1, extra := s.extra + 1 }

structure OnDemand (s : InUDPThread) : Prop where
  /-- When the thread goes to sleep or closes its reader, no connection is counted. -/
  decisions : ∀ count ∈ s.decisions, count = 0
  /-- Nobody who has posted waits for a thread that sleeps on. -/
  woken : s.pc = .blocked → s.mSem.value = 0 → s.entering + s.served = 0

/-- The condition under which a step keeps this: when the thread finds no unit, the units left over
make up for those that arriving connections have still to post, those the thread has lost and those
that were taken by connections that never posted; and a connection that leaves takes the last unit
of a sleeping thread only while more units are left over than lost and taken so. -/
def UnitOk (s : InUDPThread) : UdpAction → Prop
  | .block | .isLocked =>
    s.mSem.value = 0 → s.arriving + s.lost + s.taken ≤ s.leaving + s.extra
  | .tryWait | .tryWaitUncounted =>
    s.pc = .blocked → s.mSem.value = 1 → s.lost + s.taken < s.leaving + s.extra
  | _ => True

/-- Every unit is accounted for. -/
def Balanced (s : InUDPThread) : Prop :=
  s.mSem.value + s.pc.hand + s.arriving + s.lost + s.taken = s.counted + s.leaving + s.extra

variable {s s' : InUDPThread} {a : UdpAction} {ok : Bool}

/-- The steps of the thread that take no unit leave the connections alone, and each unit it had is
given back or lost. -/
theorem go_cases (hs : s.go ok = some s') : ∃ mSem pc lost,
    s' = { s with mSem, pc, lost } ∧ pc ≠ .blocked ∧
      mSem.value + pc.hand + lost = s.mSem.value + s.pc.hand + s.lost := by
  cases hpc : s.pc with
  | start =>
    simp only [go, hpc, Option.some.injEq] at hs
    subst hs
    refine ⟨_, _, _, rfl, ?_, ?_⟩ <;> cases s.stopped <;> simp [UdpPc.hand]
  | woken =>
    simp only [go, hpc] at hs
    split_ifs at hs
    · obtain rfl := Option.some.inj hs
      exact ⟨_, _, _, rfl, by simp, by simp only [UdpPc.hand]; omega⟩
    · obtain rfl := Option.some.inj hs
      exact ⟨_, _, _, rfl, by simp, rfl⟩
    · obtain rfl := Option.some.inj hs
      exact ⟨_, _, _, rfl, by simp, by simp only [UdpPc.hand]; omega⟩
  | initialised | probed =>
    simp only [go, hpc, Option.some.injEq] at hs
    subst hs
    exact ⟨_, _, _, rfl, by simp, rfl⟩
  | loop =>
    simp only [go, hpc] at hs
    split_ifs at hs
    obtain rfl := Option.some.inj hs
    exact ⟨_, _, _, rfl, by simp, rfl⟩
  | lock | receive | clearing =>
    simp only [go, hpc, Option.some.injEq] at hs
    subst hs
    refine ⟨_, _, _, rfl, ?_, ?_⟩ <;> cases ok <;> simp [UdpPc.hand]
  | wait | blocked | finished =>
    simp only [go, hpc] at hs
    cases hs

theorem step_block_eq_some_iff : s.step .block = some s' ↔
    s.pc = .wait ∧ s.mSem.value = 0 ∧
      s' = { s with pc := .blocked, decisions := s.decisions ++ [s.counted] } := by
  rw [← Semaphore.tryWait_eq_none_iff]
  cases hpc : s.pc <;> cases hsem : s.mSem.tryWait <;> simp [step, hpc, hsem, eq_comm]

theorem step_take_eq_some_iff : s.step .take = some s' ↔
    (s.pc = .wait ∨ s.pc = .blocked) ∧ ∃ sem : Semaphore, s.mSem.value = sem.value + 1 ∧
      s' = { s with mSem := sem, pc := .woken } := by
  simp only [← Semaphore.tryWait_eq_some_iff]
  cases hpc : s.pc <;> cases hsem : s.mSem.tryWait <;> simp [step, hpc, hsem, eq_comm]

theorem step_interrupt_eq_some_iff : s.step .interrupt = some s' ↔
    s.pc = .blocked ∧ s' = { s with extra := s.extra + 1, pc := .woken } := by
  cases hpc : s.pc <;> simp [step, hpc, eq_comm]

theorem step_isLocked_eq_some_iff : s.step .isLocked = some s' ↔ s.pc = .loop ∧
    (s.mSem.value = 0 ∧ s' = { s with
        pc := .clearing, decisions := s.decisions ++ [s.counted] } ∨
      ∃ sem : Semaphore, s.mSem.value = sem.value + 1 ∧
        s' = { s with mSem := sem, pc := .probed }) := by
  simp only [← Semaphore.tryWait_eq_some_iff, ← Semaphore.tryWait_eq_none_iff]
  cases hpc : s.pc <;> cases hsem : s.mSem.tryWait <;> simp [step, hpc, hsem, eq_comm]

theorem step_post_eq_some_iff : s.step .post = some s' ↔
    s.arriving ≠ 0 ∧ s' = { s with
      mSem := s.mSem.post, arriving := s.arriving - 1, entering := s.entering + 1 } := by
  by_cases h : s.arriving = 0 <;> simp [step, h, eq_comm]

theorem step_enter_eq_some_iff : s.step .enter = some s' ↔
    (s.entering ≠ 0 ∧ s.pc.hasInitLock = false) ∧
      s' = { s with entering := s.entering - 1, served := s.served + 1 } := by
  simp only [step, Option.ite_none_left_eq_some, not_or, Bool.not_eq_true, Option.some.injEq,
    eq_comm (b := s'), ne_eq]

theorem step_leave_eq_some_iff : s.step .leave = some s' ↔
    s.served ≠ 0 ∧ s' = { s with
      inThread := s.inThread.decreaseConnectionCount
      served := s.served - 1
      leaving := s.leaving + 1 } := by
  by_cases h : s.served = 0 <;> simp [step, h, eq_comm]

theorem step_tryWait_eq_some_iff : s.step .tryWait = some s' ↔ s.leaving ≠ 0 ∧
    (s.mSem.value = 0 ∧ s' = { s with leaving := s.leaving - 1, extra := s.extra + 1 } ∨
      ∃ sem : Semaphore, s.mSem.value = sem.value + 1 ∧
        s' = { s with mSem := sem, leaving := s.leaving - 1 }) := by
  simp only [← Semaphore.tryWait_eq_some_iff, ← Semaphore.tryWait_eq_none_iff]
  by_cases h : s.leaving = 0
  · simp [step, h]
  · cases hsem : s.mSem.tryWait <;> simp [step, h, hsem, eq_comm]

theorem step_tryWaitUncounted_eq_some_iff : s.step .tryWaitUncounted = some s' ↔
    s.strangers ≠ 0 ∧ (s.mSem.value = 0 ∧ s' = { s with strangers := s.strangers - 1 } ∨
      ∃ sem : Semaphore, s.mSem.value = sem.value + 1 ∧
        s' = { s with mSem := sem, strangers := s.strangers - 1, taken := s.taken + 1 }) := by
  simp only [← Semaphore.tryWait_eq_some_iff, ← Semaphore.tryWait_eq_none_iff]
  by_cases h : s.strangers = 0
  · simp [step, h]
  · cases hsem : s.mSem.tryWait <;> simp [step, h, hsem, eq_comm]

theorem step_postStop_eq_some_iff : s.step .postStop = some s' ↔
    s.stopping ≠ 0 ∧ s' = { s with
      mSem := s.mSem.post, stopping := s.stopping - 1, extra := s.extra + 1 } := by
  by_cases h : s.stopping = 0 <;> simp [step, h, eq_comm]

theorem Balanced.step (h : s.Balanced) (hs : s.step a = some s') : s'.Balanced := by
  unfold Balanced counted at h ⊢
  cases a with
  | go ok =>
    obtain ⟨mSem, pc, lost, rfl, -, hgo⟩ := go_cases hs
    simp only
    omega
  | block =>
    obtain ⟨hpc, -, rfl⟩ := step_block_eq_some_iff.1 hs
    simpa [hpc, UdpPc.hand] using h
  | take =>
    obtain ⟨hpc, sem, hsem, rfl⟩ := step_take_eq_some_iff.1 hs
    obtain hpc | hpc := hpc <;> simp only [hpc, UdpPc.hand] at h ⊢ <;> omega
  | interrupt =>
    obtain ⟨hpc, rfl⟩ := step_interrupt_eq_some_iff.1 hs
    simp only [hpc, UdpPc.hand] at h ⊢
    omega
  | isLocked =>
    obtain ⟨hpc, ⟨hsem, rfl⟩ | ⟨sem, hsem, rfl⟩⟩ := step_isLocked_eq_some_iff.1 hs
    · simpa [hpc, UdpPc.hand] using h
    · simp only [hpc, UdpPc.hand] at h ⊢
      omega
  | arrive =>
    obtain rfl := Option.some.inj hs
    simp only
    omega
  | post =>
    obtain ⟨hne, rfl⟩ := step_post_eq_some_iff.1 hs
    simp only [Semaphore.value_post]
    omega
  | enter =>
    obtain ⟨⟨hne, -⟩, rfl⟩ := step_enter_eq_some_iff.1 hs
    simp only
    omega
  | leave =>
    obtain ⟨hne, rfl⟩ := step_leave_eq_some_iff.1 hs
    simp only
    omega
  | tryWait =>
    obtain ⟨hne, ⟨hsem, rfl⟩ | ⟨sem, hsem, rfl⟩⟩ := step_tryWait_eq_some_iff.1 hs <;> simp only <;>
      omega
  | leaveUncounted | stop =>
    obtain rfl := Option.some.inj hs
    exact h
  | tryWaitUncounted =>
    obtain ⟨-, ⟨-, rfl⟩ | ⟨sem, hsem, rfl⟩⟩ := step_tryWaitUncounted_eq_some_iff.1 hs
    · exact h
    · simp only
      omega
  | postStop =>
    obtain ⟨-, rfl⟩ := step_postStop_eq_some_iff.1 hs
    simp only [Semaphore.value_post]
    omega

/-! ## When the thread sleeps -/

theorem onDemand_append_iff {s : InUDPThread} {pc : UdpPc} (h : s.OnDemand) :
    OnDemand { s with pc := pc, decisions := s.decisions ++ [s.counted] } ↔ s.counted = 0 := by
  constructor
  · intro h'
    exact h'.decisions _ (List.mem_append_right _ List.mem_cons_self)
  · intro hzero
    refine ⟨fun count hcount => ?_, fun _ _ => ?_⟩
    · obtain hmem | hlast := List.mem_append.1 hcount
      · exact h.decisions count hmem
      · rw [List.mem_singleton.1 hlast, hzero]
    · unfold counted at hzero
      simp only
      omega

/-- A connection, counted or not, takes the last unit of a sleeping thread. -/
theorem Balanced.last_unit_iff (hb : s.Balanced) (hpc : s.pc = .blocked) (hone : s.mSem.value = 1) :
    s.entering + s.served = 0 ↔ s.lost + s.taken < s.leaving + s.extra := by
  unfold Balanced counted at hb
  simp only [hpc, UdpPc.hand] at hb
  omega

theorem onDemand_step_iff (hb : s.Balanced) (h : s.OnDemand) (hs : s.step a = some s') :
    s'.OnDemand ↔ s.UnitOk a := by
  have hunits := hb
  unfold Balanced counted at hunits
  cases a with
  | go ok =>
    obtain ⟨mSem, pc, lost, rfl, hpc, -⟩ := go_cases hs
    exact iff_of_true ⟨h.decisions, fun h' => absurd h' hpc⟩ trivial
  | block =>
    obtain ⟨hpc, hsem, rfl⟩ := step_block_eq_some_iff.1 hs
    rw [onDemand_append_iff h]
    simp only [hpc, UdpPc.hand] at hunits
    simp only [UnitOk, counted]
    omega
  | take =>
    obtain ⟨-, sem, -, rfl⟩ := step_take_eq_some_iff.1 hs
    exact iff_of_true ⟨h.decisions, fun h' => by cases h'⟩ trivial
  | interrupt =>
    obtain ⟨-, rfl⟩ := step_interrupt_eq_some_iff.1 hs
    exact iff_of_true ⟨h.decisions, fun h' => by cases h'⟩ trivial
  | isLocked =>
    obtain ⟨hpc, hlocked⟩ := step_isLocked_eq_some_iff.1 hs
    simp only [hpc, UdpPc.hand] at hunits
    obtain ⟨hsem, rfl⟩ | ⟨sem, hsem, rfl⟩ := hlocked
    · rw [onDemand_append_iff h]
      simp only [UnitOk, counted]
      omega
    · exact iff_of_true ⟨h.decisions, fun h' => by cases h'⟩ fun hzero => by omega
  | arrive =>
    obtain rfl := Option.some.inj hs
    exact iff_of_true ⟨h.decisions, h.woken⟩ trivial
  | post =>
    obtain ⟨-, rfl⟩ := step_post_eq_some_iff.1 hs
    exact iff_of_true ⟨h.decisions, fun _ h' => by cases h'⟩ trivial
  | enter =>
    obtain ⟨⟨hne, hlock⟩, rfl⟩ := step_enter_eq_some_iff.1 hs
    refine iff_of_true ⟨h.decisions, fun h' => ?_⟩ trivial
    change s.pc = .blocked at h'
    rw [h'] at hlock
    cases hlock
  | leave =>
    obtain ⟨hne, rfl⟩ := step_leave_eq_some_iff.1 hs
    refine iff_of_true ⟨h.decisions, fun hpc hsem => ?_⟩ trivial
    have hwoken := h.woken hpc hsem
    omega
  | tryWait =>
    obtain ⟨hne, ⟨hsem, rfl⟩ | ⟨sem, hsem, rfl⟩⟩ := step_tryWait_eq_some_iff.1 hs
    · exact iff_of_true ⟨h.decisions, h.woken⟩ fun _ hone => by omega
    · constructor
      · exact fun h' hpc hone =>
          (hb.last_unit_iff hpc hone).1 (h'.woken hpc (Nat.succ_inj.1 (hsem.symm.trans hone)))
      · refine fun hok => ⟨h.decisions, fun hpc hzero => ?_⟩
        have hone : s.mSem.value = 1 := hsem.trans (congrArg (· + 1) hzero)
        exact (hb.last_unit_iff hpc hone).2 (hok hpc hone)
  | leaveUncounted | stop =>
    obtain rfl := Option.some.inj hs
    exact iff_of_true ⟨h.decisions, h.woken⟩ trivial
  | tryWaitUncounted =>
    obtain ⟨-, ⟨hsem, rfl⟩ | ⟨sem, hsem, rfl⟩⟩ := step_tryWaitUncounted_eq_some_iff.1 hs
    · exact iff_of_true ⟨h.decisions, h.woken⟩ fun _ hone => by omega
    · constructor
      · exact fun h' hpc hone =>
          (hb.last_unit_iff hpc hone).1 (h'.woken hpc (Nat.succ_inj.1 (hsem.symm.trans hone)))
      · refine fun hok => ⟨h.decisions, fun hpc hzero => ?_⟩
        have hone : s.mSem.value = 1 := hsem.trans (congrArg (· + 1) hzero)
        exact (hb.last_unit_iff hpc hone).2 (hok hpc hone)
  | postStop =>
    obtain ⟨-, rfl⟩ := step_postStop_eq_some_iff.1 hs
    exact iff_of_true ⟨h.decisions, fun _ h' => by cases h'⟩ trivial

/-- The runs in which the thread never sleeps or closes its reader while somebody is connected. -/
theorem throughout_onDemand_iff (as : List UdpAction) :
    Throughout step OnDemand {} as ↔ EachStep step UnitOk {} as :=
  throughout_iff_eachStep Balanced.step onDemand_step_iff rfl ⟨by simp, by simp⟩

/-- `initReader` throws with the unit of the only connection in its hand, and the thread goes back
to sleep. -/
theorem failed_init_sleeps : ∃ s, exec step {}
      [.go true, .go true, .arrive, .post, .take, .go false, .go true, .go true, .go true,
        .block] = some s ∧
    s.pc = .blocked ∧ s.mSem.value = 0 ∧ s.entering = 1 ∧ s.decisions = [1] :=
  ⟨_, rfl, by decide, by decide, by decide, by decide⟩

/-- A connection arrives while the last one leaves, and the thread closes the reader between its
count and its post. -/
example : ∃ s, exec step {}
      [.go true, .go true, .arrive, .post, .take, .go true, .go true, .enter, .leave, .tryWait,
        .arrive, .isLocked] = some s ∧
    s.pc = .clearing ∧ s.inThread.mConCount = 1 ∧ s.decisions = [1] :=
  ⟨_, rfl, by decide, by decide, by decide⟩

/-- A request of an unknown version fails before it is counted, and when it leaves the thread closes
the reader of the connection that is there. -/
example : ∃ s, exec step {}
      [.go true, .go true, .arrive, .post, .take, .go true, .go true, .enter, .leaveUncounted,
        .tryWaitUncounted, .isLocked] = some s ∧
    s.pc = .clearing ∧ s.served = 1 ∧ s.inThread.mConCount = 0 ∧ s.decisions = [1] :=
  ⟨_, rfl, by decide, by decide, by decide, by decide⟩

end InUDPThread

end Kalinka.Http
