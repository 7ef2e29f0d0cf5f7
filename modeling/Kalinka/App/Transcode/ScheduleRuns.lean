import Mathlib.Order.WellFounded
import Kalinka.App.Transcode.ScheduleInfo

/-!
# The runs of the schedule

`TimerThread` waits for an interval, runs `doSchedulePlayback`, and waits for the next interval from
the end of that run.  So every run shifts the ones behind it by the seconds that it takes, and where
the sum of these comes into another minute, a minute is passed over.

`samples_iff` says that a schedule is observed in each of its minutes, and its task started at most
once in each, exactly if no minute that is passed over is one of the schedule.
-/

namespace Kalinka.Trans

/-! ## The thread -/

/-- Nanoseconds. -/
def second : ℕ := 1000000000

/-- `SCHEDULE_INTERVAL`, in seconds. -/
def scheduleInterval : ℕ := 60

/-- `time(NULL)` -/
def time (now : ℕ) : ℕ := now / second

/-- When `Event::startWait` gives up, called at `now`: the nanoseconds of the time are left out. -/
def startWait (now interval : ℕ) : ℕ := (time now + interval) * second

/-- The calendar minute of a time. -/
def minute (now : ℕ) : ℕ := time now / 60

/-- The times of the thread: when it starts, and for each run how long it is from the end of the
wait to the check of the schedule, and from there to the end of the run. -/
structure TimerThread where
  start : ℕ
  before : ℕ → ℕ
  after : ℕ → ℕ

namespace TimerThread

/-- When the thread comes to the wait before run `k`. -/
def waits (t : TimerThread) : ℕ → ℕ
  | 0 => t.start
  | k + 1 => startWait (t.waits k) scheduleInterval + t.before k + t.after k

/-- When run `k` checks the schedule. -/
def checks (t : TimerThread) (k : ℕ) : ℕ :=
  startWait (t.waits k) scheduleInterval + t.before k

/-- Every minute of the schedule that begins when the thread is running is observed, and no two runs
start the task in one minute. -/
structure Samples (t : TimerThread) (info : StartInfo) (localtime : ℕ → Tm) : Prop where
  observed : ∀ m, t.start ≤ m * 60 * second → info.isMatch (localtime m) →
    ∃ k, minute (t.checks k) = m
  once : ∀ (runningCount actualDuration : ℕ → ℕ) (j k : ℕ),
    info.needStart (runningCount j) (actualDuration j) (localtime (minute (t.checks j))) →
    info.needStart (runningCount k) (actualDuration k) (localtime (minute (t.checks k))) →
    minute (t.checks j) = minute (t.checks k) → j = k

/-! ## The drift -/

/-- The whole seconds that the runs before run `k` take. -/
def spent (t : TimerThread) : ℕ → ℕ
  | 0 => 0
  | k + 1 => t.spent k + (t.before k + t.after k) / second

/-- The second of run `k`, without the intervals that have been waited for. -/
def drift (t : TimerThread) (k : ℕ) : ℕ := time t.start + t.spent k + t.before k / second

/-- The minute begins when the thread is running, and is before the first run or between two. -/
def PassesOver (t : TimerThread) (m : ℕ) : Prop :=
  t.start ≤ m * 60 * second ∧ (m < 1 + t.drift 0 / 60 ∨
    ∃ k, k + 1 + t.drift k / 60 < m ∧ m < k + 2 + t.drift (k + 1) / 60)

variable {t : TimerThread} {info : StartInfo} {localtime : ℕ → Tm} {j k m : ℕ}

theorem time_startWait_add (now interval d : ℕ) :
    time (startWait now interval + d) = time now + interval + d / second := by
  unfold time startWait
  rw [Nat.add_comm, Nat.add_mul_div_right _ _ (by decide), Nat.add_comm, time]

theorem time_waits (t : TimerThread) (k : ℕ) :
    time (t.waits k) = 60 * k + (time t.start + t.spent k) := by
  induction k with
  | zero => simp [waits, spent]
  | succ k ih =>
    rw [waits, Nat.add_assoc, time_startWait_add, ih, spent, scheduleInterval]
    omega

theorem minute_checks (t : TimerThread) (k : ℕ) : minute (t.checks k) = k + 1 + t.drift k / 60 := by
  rw [minute, checks, time_startWait_add, time_waits, drift, scheduleInterval]
  omega

theorem drift_le_succ (t : TimerThread) (k : ℕ) : t.drift k ≤ t.drift (k + 1) := by
  have hle : t.before k / second ≤ (t.before k + t.after k) / second :=
    Nat.div_le_div_right (Nat.le_add_right _ _)
  calc t.drift k ≤ time t.start + t.spent k + (t.before k + t.after k) / second :=
        Nat.add_le_add_left hle _
    _ ≤ t.drift (k + 1) := by rw [drift, spent, ← Nat.add_assoc]; exact Nat.le_add_right _ _

theorem minute_checks_strictMono (t : TimerThread) : StrictMono fun k => minute (t.checks k) := by
  apply strictMono_nat_of_lt_succ
  intro k
  have hle : t.drift k / 60 ≤ t.drift (k + 1) / 60 := Nat.div_le_div_right (t.drift_le_succ k)
  simp only [minute_checks]
  omega

/-- A growing sequence meets what it does not pass over. -/
theorem exists_eq_iff_of_strictMono {f : ℕ → ℕ} (hf : StrictMono f) :
    (∃ k, f k = m) ↔ f 0 ≤ m ∧ ∀ k, ¬ (f k < m ∧ m < f (k + 1)) := by
  constructor
  · rintro ⟨k, rfl⟩
    refine ⟨hf.monotone (Nat.zero_le k), fun j ⟨hjk, hkj⟩ => ?_⟩
    have hlt : j < k := hf.lt_iff_lt.1 hjk
    have hle : k < j + 1 := hf.lt_iff_lt.1 hkj
    omega
  · rintro ⟨hzero, hgap⟩
    by_contra hnone
    have hbelow : ∀ k, f k < m := by
      intro k
      induction k with
      | zero => exact Nat.lt_of_le_of_ne hzero fun heq => hnone ⟨0, heq⟩
      | succ k ih =>
        have hle : f (k + 1) ≤ m := Nat.not_lt.1 fun hlt => hgap k ⟨ih, hlt⟩
        exact Nat.lt_of_le_of_ne hle fun heq => hnone ⟨k + 1, heq⟩
    exact absurd (hf.le_apply (x := m)) (Nat.not_le.2 (hbelow m))

theorem exists_checks_iff (h : t.start ≤ m * 60 * second) :
    (∃ k, minute (t.checks k) = m) ↔ ¬ t.PassesOver m := by
  rw [exists_eq_iff_of_strictMono t.minute_checks_strictMono, PassesOver, and_iff_right h, not_or,
    not_exists, Nat.not_lt]
  simp only [minute_checks, Nat.zero_add]

/-- Every minute of a schedule is observed, and its task started at most once in it. -/
theorem samples_iff :
    t.Samples info localtime ↔ ∀ m, t.PassesOver m → ¬ info.isMatch (localtime m) := by
  constructor
  · intro h m hpass hmatch
    exact (exists_checks_iff hpass.1).1 (h.observed m hpass.1 hmatch) hpass
  · intro h
    refine ⟨fun m hstart hmatch => ?_, fun _ _ j k _ _ heq => ?_⟩
    · exact (exists_checks_iff hstart).2 fun hpass => h m hpass hmatch
    · exact t.minute_checks_strictMono.injective heq

end TimerThread

/-- A run of one second in the last second of a minute: there is no run in minute 2. -/
def lateThread : TimerThread :=
  ⟨59 * second, fun _ => 0, fun k => if k = 0 then second else 0⟩

theorem always_not_samples : ∃ info : StartInfo, StartInfo.new Schedule.always = .ok info ∧
    ¬ lateThread.Samples info fun _ => newYear := by
  refine ⟨⟨⟨['*'], ['*'], ['*'], ['*'], ['*']⟩, false⟩, by decide, fun h => ?_⟩
  have hobserved := h.observed 2 (by decide) (by decide)
  refine (TimerThread.exists_checks_iff (by decide)).1 hobserved ⟨by decide, .inr ⟨0, ?_⟩⟩
  decide

end Kalinka.Trans
