import Kalinka.Common.Semaphore
import Kalinka.Lib.Run

/-!
# Triggers

Calls of `init()`, `isStopped()`, `wait()` and `stop()` on one `Trigger` by any number of threads,
one semaphore operation at a time.  `isStopped()` and `wait()` take a unit of the semaphore and
give it back with a post.  An interrupted `sem_wait` is not repeated: the post follows although
nothing was taken.

Between its two operations such a call hides a unit from the polls of the other threads, or adds
one to the semaphore of a later `init()`.  `throughout_answersRight_iff` says exactly which polls
answer right nevertheless.
-/

namespace Kalinka

open Run

/-- What an `isStopped()` returns, and whether `stop()` had been called since the last `init()` at
the time of its `sem_trywait`. -/
structure Answer where
  returned : Bool
  stopped : Bool
  deriving DecidableEq, Repr

structure Trigger where
  /-- `m_sem` -/
  mSem : Semaphore := .init
  /-- the calls before their post that took a unit since the last `init()` -/
  takers : ℕ := 0
  /-- the other calls before their post: interrupted waits, and calls an `init()` has overtaken -/
  strays : ℕ := 0
  /-- the `stop()` calls since the last `init()` -/
  stops : ℕ := 0
  /-- the posts of strays since the last `init()` -/
  extra : ℕ := 0
  answers : List Answer := []
  deriving DecidableEq, Repr

inductive TriggerAction
  | init
  | stop
  /-- the `sem_trywait` of an `isStopped()` -/
  | isStopped
  /-- the `sem_wait` of a `wait()` -/
  | wait
  /-- `sem_wait` returns `EINTR` -/
  | interrupt
  /-- the post of a call that took a unit -/
  | post
  | strayPost
  deriving DecidableEq, Repr

namespace Trigger

/-- `stop()` has been called since the last `init()`. -/
def stopped (t : Trigger) : Bool := decide (0 < t.stops)

def step (t : Trigger) : TriggerAction → Option Trigger
  | .init =>
    some { t with
      mSem := .init, takers := 0, strays := t.strays + t.takers, stops := 0, extra := 0 }
  | .stop => some { t with mSem := t.mSem.post, stops := t.stops + 1 }
  | .isStopped =>
    match t.mSem.tryWait with
    | some sem =>
      some { t with
        mSem := sem, takers := t.takers + 1, answers := t.answers ++ [⟨true, t.stopped⟩] }
    -- `isLocked()` returns true without a post
    | none => some { t with answers := t.answers ++ [⟨false, t.stopped⟩] }
  | .wait => t.mSem.tryWait.map fun sem => { t with mSem := sem, takers := t.takers + 1 }
  | .interrupt => some { t with strays := t.strays + 1 }
  | .post =>
    if t.takers = 0 then none else some { t with mSem := t.mSem.post, takers := t.takers - 1 }
  | .strayPost =>
    if t.strays = 0 then none
    else some { t with mSem := t.mSem.post, strays := t.strays - 1, extra := t.extra + 1 }

/-- Every answer says whether a stop had been called. -/
def AnswersRight (t : Trigger) : Prop := ∀ answer ∈ t.answers, answer.returned = answer.stopped

/-- After a stop, not every unit is in the hands of a call before its post; before the first stop,
every unit that a stray has posted is. -/
def PollSees (t : Trigger) : Prop :=
  if 0 < t.stops then t.takers < t.stops + t.extra else t.takers = t.extra

/-- The condition under which a step keeps the answers right. -/
def PollOk (t : Trigger) (a : TriggerAction) : Prop := a = .isStopped → t.PollSees

/-- Every unit came from a stop or a stray, and is in the semaphore or with a taker. -/
def Balanced (t : Trigger) : Prop := t.mSem.value + t.takers = t.stops + t.extra

variable {t t' : Trigger} {a : TriggerAction}

/-! ## The steps -/

theorem step_isStopped_eq_some_iff : t.step .isStopped = some t' ↔
    (t.mSem.value = 0 ∧ t' = { t with answers := t.answers ++ [⟨false, t.stopped⟩] }) ∨
    (∃ sem : Semaphore, t.mSem.value = sem.value + 1 ∧ t' = { t with
      mSem := sem, takers := t.takers + 1, answers := t.answers ++ [⟨true, t.stopped⟩] }) := by
  simp only [← Semaphore.tryWait_eq_none_iff, ← Semaphore.tryWait_eq_some_iff, step]
  cases t.mSem.tryWait <;> simp [eq_comm]

theorem step_wait_eq_some_iff : t.step .wait = some t' ↔
    ∃ sem : Semaphore, t.mSem.value = sem.value + 1 ∧
      t' = { t with mSem := sem, takers := t.takers + 1 } := by
  simp only [← Semaphore.tryWait_eq_some_iff, step, Option.map_eq_some_iff, eq_comm (b := t')]

theorem step_post_eq_some_iff : t.step .post = some t' ↔
    t.takers ≠ 0 ∧ t' = { t with mSem := t.mSem.post, takers := t.takers - 1 } := by
  by_cases h : t.takers = 0 <;> simp [step, h, eq_comm]

theorem step_strayPost_eq_some_iff : t.step .strayPost = some t' ↔
    t.strays ≠ 0 ∧
      t' = { t with mSem := t.mSem.post, strays := t.strays - 1, extra := t.extra + 1 } := by
  by_cases h : t.strays = 0 <;> simp [step, h, eq_comm]

theorem Balanced.step (h : t.Balanced) (ht : t.step a = some t') : t'.Balanced := by
  unfold Balanced at h
  cases a with
  | init => obtain rfl := Option.some.inj ht; rfl
  | stop =>
    obtain rfl := Option.some.inj ht
    show t.mSem.post.value + t.takers = t.stops + 1 + t.extra
    rw [Semaphore.value_post]
    omega
  | isStopped =>
    obtain ⟨-, rfl⟩ | ⟨sem, hsem, rfl⟩ := step_isStopped_eq_some_iff.1 ht
    · exact h
    · show sem.value + (t.takers + 1) = t.stops + t.extra
      omega
  | wait =>
    obtain ⟨sem, hsem, rfl⟩ := step_wait_eq_some_iff.1 ht
    show sem.value + (t.takers + 1) = t.stops + t.extra
    omega
  | interrupt => obtain rfl := Option.some.inj ht; exact h
  | post =>
    obtain ⟨hne, rfl⟩ := step_post_eq_some_iff.1 ht
    show t.mSem.post.value + (t.takers - 1) = t.stops + t.extra
    rw [Semaphore.value_post]
    omega
  | strayPost =>
    obtain ⟨-, rfl⟩ := step_strayPost_eq_some_iff.1 ht
    show t.mSem.post.value + t.takers = t.stops + (t.extra + 1)
    rw [Semaphore.value_post]
    omega

/-! ## The polls -/

theorem answersRight_append_iff {answer : Answer} :
    AnswersRight { t with answers := t.answers ++ [answer] } ↔
      t.AnswersRight ∧ answer.returned = answer.stopped := by
  simp only [AnswersRight, List.forall_mem_append, List.forall_mem_singleton]

/-- The poll finds a unit if and only if a stop has been called. -/
theorem Balanced.pollSees_iff (h : t.Balanced) : t.PollSees ↔ (0 < t.mSem.value ↔ 0 < t.stops) := by
  unfold Balanced at h
  unfold PollSees
  split <;> omega

theorem answersRight_step_iff (h : t.Balanced) (hright : t.AnswersRight)
    (ht : t.step a = some t') : t'.AnswersRight ↔ t.PollOk a := by
  cases a with
  | isStopped =>
    have hok : t.PollOk .isStopped ↔ (0 < t.mSem.value ↔ 0 < t.stops) := by
      rw [← h.pollSees_iff]
      exact ⟨fun hok => hok rfl, fun hsees _ => hsees⟩
    rw [hok]
    obtain ⟨hsem, rfl⟩ | ⟨sem, hsem, rfl⟩ := step_isStopped_eq_some_iff.1 ht
    · rw [answersRight_append_iff, and_iff_right hright, hsem]
      simp [stopped]
    · have happ : AnswersRight { t with answers := t.answers ++ [⟨true, t.stopped⟩] } ↔ _ :=
        answersRight_append_iff
      apply happ.trans
      rw [and_iff_right hright, hsem]
      simp [stopped]
  | init => obtain rfl := Option.some.inj ht; exact iff_of_true hright nofun
  | stop => obtain rfl := Option.some.inj ht; exact iff_of_true hright nofun
  | wait =>
    obtain ⟨sem, -, rfl⟩ := step_wait_eq_some_iff.1 ht
    exact iff_of_true hright nofun
  | interrupt => obtain rfl := Option.some.inj ht; exact iff_of_true hright nofun
  | post =>
    obtain ⟨-, rfl⟩ := step_post_eq_some_iff.1 ht
    exact iff_of_true hright nofun
  | strayPost =>
    obtain ⟨-, rfl⟩ := step_strayPost_eq_some_iff.1 ht
    exact iff_of_true hright nofun

/-- The runs in which every `isStopped()` answers right: those in which every poll finds a unit if
and only if there has been a stop. -/
theorem throughout_answersRight_iff (as : List TriggerAction) :
    Throughout step AnswersRight {} as ↔ EachStep step PollOk {} as :=
  throughout_iff_eachStep (fun h ht => h.step ht) answersRight_step_iff rfl nofun

/-- A second poll misses the stop while the first one is before its post. -/
theorem poll_hides_stop : ∃ t, exec step {} [.stop, .isStopped, .isStopped] = some t ∧
    ⟨false, true⟩ ∈ t.answers :=
  ⟨_, rfl, by decide⟩

/-- The post of an interrupted wait is seen as a stop. -/
example : ∃ t, exec step {} [.interrupt, .strayPost, .isStopped] = some t ∧
    t.answers = [⟨true, false⟩] :=
  ⟨_, rfl, rfl⟩

end Trigger

end Kalinka
