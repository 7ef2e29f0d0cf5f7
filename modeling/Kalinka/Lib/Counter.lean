import Mathlib.Data.List.Count

/-!
# Counters that stop at zero

A counter goes up and down, and a step down from zero does nothing.  `run` takes the steps in order,
and `misses` counts those that do nothing.  Taking all steps up first, or all steps down first, ends
elsewhere:

* `upsFirst_iff`: with the steps up first the counter ends where it should exactly if no step misses
  or the counter ends at zero.
* `downsFirst_iff`: with the steps down first, exactly if the steps down that do not miss find their
  count there at the start.
-/

namespace Counter

/-- A step of a counter. -/
inductive Step
  | up
  | down
  deriving DecidableEq, Repr

def Step.run (n : ℕ) : Step → ℕ
  | .up => n + 1
  | .down => n - 1

/-- The counter after the steps, one by one. -/
def run (n : ℕ) (steps : List Step) : ℕ := steps.foldl Step.run n

/-- How many of the steps find the counter at zero and do nothing. -/
def misses : ℕ → List Step → ℕ
  | _, [] => 0
  | n, .up :: steps => misses (n + 1) steps
  | 0, .down :: steps => misses 0 steps + 1
  | n + 1, .down :: steps => misses n steps

def ups (steps : List Step) : ℕ := steps.count .up

def downs (steps : List Step) : ℕ := steps.count .down

variable {n : ℕ} {steps : List Step}

theorem run_up : run n (.up :: steps) = run (n + 1) steps := rfl

theorem run_down : run n (.down :: steps) = run (n - 1) steps := rfl

theorem ups_up : ups (.up :: steps) = ups steps + 1 := List.count_cons_self

theorem ups_down : ups (.down :: steps) = ups steps := List.count_cons_of_ne (by decide)

theorem downs_up : downs (.up :: steps) = downs steps := List.count_cons_of_ne (by decide)

theorem downs_down : downs (.down :: steps) = downs steps + 1 := List.count_cons_self

theorem run_append (n : ℕ) (steps steps' : List Step) :
    run n (steps ++ steps') = run (run n steps) steps' := List.foldl_append

theorem ups_append (steps steps' : List Step) : ups (steps ++ steps') = ups steps + ups steps' :=
  List.count_append

theorem downs_append (steps steps' : List Step) :
    downs (steps ++ steps') = downs steps + downs steps' :=
  List.count_append

/-- What goes down is there at the start or has gone up, unless it misses. -/
theorem run_add_downs (n : ℕ) (steps : List Step) :
    run n steps + downs steps = n + ups steps + misses n steps := by
  induction steps generalizing n with
  | nil => rfl
  | cons step steps ih =>
    cases step with
    | up =>
      rw [run_up, downs_up, ups_up, misses, ih (n + 1)]
      omega
    | down =>
      rw [run_down, downs_down, ups_down]
      cases n with
      | zero =>
        have h := ih 0
        rw [misses, Nat.zero_sub]
        omega
      | succ n =>
        have h := ih n
        rw [misses, Nat.add_sub_cancel]
        omega

theorem misses_le (n : ℕ) (steps : List Step) : misses n steps ≤ downs steps - n := by
  induction steps generalizing n with
  | nil => exact Nat.zero_le _
  | cons step steps ih =>
    cases step with
    | up =>
      have h := ih (n + 1)
      rw [misses, downs_up]
      omega
    | down =>
      rw [downs_down]
      cases n with
      | zero =>
        have h := ih 0
        rw [misses]
        omega
      | succ n =>
        have h := ih n
        rw [misses]
        omega

theorem upsFirst_iff :
    run n steps = n + ups steps - downs steps ↔ misses n steps = 0 ∨ run n steps = 0 := by
  have h := run_add_downs n steps
  omega

theorem downsFirst_iff :
    run n steps = n - downs steps + ups steps ↔ downs steps ≤ n + misses n steps := by
  have h := run_add_downs n steps
  have hle := misses_le n steps
  omega

end Counter
