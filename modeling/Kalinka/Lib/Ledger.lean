import Mathlib.Data.List.Count

/-!
# Ledgers of starts and stops

The log of a party that starts and stops keys, and beside it the keys that it knows to hold.  The
log is `Balanced` when every start has been matched by a stop, except one for each key that is held;
it `Covers` the held keys when no key is held or stopped more often than it has been started.

What has got lost stays lost: a start whose key is not held, or a key that is forgotten, leaves a
log that is not balanced any more (`not_balanced_start`, `not_balanced_of_cons`), and the `_iff`
lemmas say that an operation does not balance it again.
-/

namespace Ledger

/-- An entry of the log. -/
inductive Entry (K : Type*)
  | start (key : K)
  | stop (key : K)
  deriving DecidableEq, Repr

open Entry

variable {K : Type*} [DecidableEq K] {log : List (Entry K)} {held held' : List K} {k : K}

/-- Every start but those of the held keys is matched by one stop. -/
def Balanced (log : List (Entry K)) (held : List K) : Prop :=
  ∀ k, log.count (start k) = log.count (stop k) + held.count k

/-- Every held key, and every stop, has a start of its own. -/
def Covers (log : List (Entry K)) (held : List K) : Prop :=
  ∀ k, log.count (stop k) + held.count k ≤ log.count (start k)

/-- Every start is matched by exactly one stop. -/
def Settled (log : List (Entry K)) : Prop :=
  ∀ k, log.count (start k) = log.count (stop k)

theorem balanced_nil_iff : Balanced log [] ↔ Settled log := by
  simp [Balanced, Settled]

theorem balanced_nil : Balanced ([] : List (Entry K)) [] := fun _ => rfl

theorem Balanced.covers (h : Balanced log held) : Covers log held := fun k =>
  Nat.le_of_eq (h k).symm

theorem balanced_perm (h : held.Perm held') : Balanced log held ↔ Balanced log held' :=
  forall_congr' fun k => by rw [h.count_eq]

theorem covers_perm (h : held.Perm held') : Covers log held ↔ Covers log held' :=
  forall_congr' fun k => by rw [h.count_eq]

/-! ## Starting -/

theorem count_stop_cons_start (k k' : K) :
    (start k :: log).count (stop k') = log.count (stop k') :=
  List.count_cons_of_ne (by simp)

theorem count_start_cons_stop (k k' : K) :
    (stop k :: log).count (start k') = log.count (start k') :=
  List.count_cons_of_ne (by simp)

theorem balanced_start_iff : Balanced (start k :: log) (k :: held) ↔ Balanced log held := by
  apply forall_congr'
  intro k'
  by_cases hk : k = k'
  · subst hk
    simp [← Nat.add_assoc]
  · simp [hk]

theorem covers_start_iff : Covers (start k :: log) (k :: held) ↔ Covers log held := by
  apply forall_congr'
  intro k'
  by_cases hk : k = k'
  · subst hk
    simp [← Nat.add_assoc]
  · simp [hk]

/-- What has been started is not held. -/
theorem Covers.start (h : Covers log held) : Covers (start k :: log) held := by
  intro k'
  have := h k'
  rw [count_stop_cons_start, List.count_cons]
  omega

theorem not_balanced_start (h : Covers log held) : ¬Balanced (start k :: log) held := by
  intro hbal
  have hk := hbal k
  have hcov := h k
  rw [List.count_cons_self, count_stop_cons_start] at hk
  omega

/-! ## Stopping and forgetting -/

theorem balanced_stop_iff : Balanced (stop k :: log) held ↔ Balanced log (k :: held) := by
  apply forall_congr'
  intro k'
  by_cases hk : k = k'
  · subst hk
    rw [count_start_cons_stop, List.count_cons_self, List.count_cons_self]
    omega
  · simp [hk]

theorem covers_stop_iff : Covers (stop k :: log) held ↔ Covers log (k :: held) := by
  apply forall_congr'
  intro k'
  by_cases hk : k = k'
  · subst hk
    rw [count_start_cons_stop, List.count_cons_self, List.count_cons_self]
    omega
  · simp [hk]

theorem Covers.of_cons (h : Covers log (k :: held)) : Covers log held := by
  intro k'
  have := h k'
  rw [List.count_cons] at this
  omega

theorem not_balanced_of_cons (h : Covers log (k :: held)) : ¬Balanced log held := by
  intro hbal
  have hk := hbal k
  have hcov := h k
  rw [List.count_cons_self] at hcov
  omega

end Ledger
