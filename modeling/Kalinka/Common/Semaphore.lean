import Mathlib.Data.Nat.Notation

/-!
# Semaphores and triggers

`BaseSemaphore` is a POSIX semaphore, here its value.  A `Trigger` is a semaphore whose positive
value means stopped: `init` sets it to zero, `stop` posts, and `isStopped` is a `sem_trywait`
followed, when that succeeds, by a post that gives the unit back.  The two are separate atomic
operations, so a run takes them as two steps.
-/

namespace Kalinka

/-- The value of the semaphore in `BaseSemaphore`. -/
abbrev Semaphore := ℕ

namespace Semaphore

/-- `init`: the semaphore anew, with the value 0. -/
def init : Semaphore := 0

/-- `sem_post`. -/
def post (sem : Semaphore) : Semaphore := sem + 1

/-- `sem_trywait`: the value afterwards, or `none` for `EAGAIN`. -/
def tryWait : Semaphore → Option Semaphore
  | 0 => none
  | sem + 1 => some sem

/-- The value as a number. -/
def value (sem : Semaphore) : ℕ := sem

@[simp] theorem value_init : init.value = 0 := rfl

@[simp] theorem value_post (sem : Semaphore) : sem.post.value = sem.value + 1 := rfl

theorem tryWait_eq_some_iff {sem sem' : Semaphore} :
    sem.tryWait = some sem' ↔ sem.value = sem'.value + 1 := by
  cases sem with
  | zero => exact iff_of_false nofun nofun
  | succ n => exact Option.some_inj.trans Nat.succ_inj.symm

theorem tryWait_eq_none_iff {sem : Semaphore} : sem.tryWait = none ↔ sem.value = 0 := by
  cases sem with
  | zero => exact iff_of_true rfl rfl
  | succ n => exact iff_of_false nofun nofun

end Semaphore

end Kalinka
