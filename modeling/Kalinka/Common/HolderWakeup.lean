import Kalinka.Common.HolderRun

/-!
# Stopping a message holder

`stop` sets `m_wait_exit` only for a consumer that it finds waiting, and `get` does not look at
`m_stop` before it waits.  `throughout_comesBack_iff` says exactly which runs of a standard holder
keep the promise that a stopped holder does not hold its consumer: those in which `get` is never
entered on a stopped and empty holder, and `stop` never finds a waiting consumer whose
`m_wait_loop` a `start` has cleared.
-/

namespace Kalinka

open Run

namespace HolderSystem

variable {s s' : HolderSystem StandardContainer} {a : HolderAction}

/-- A consumer blocked in a stopped holder finds `m_wait_exit` set, has been signalled, and
returns from `get` when it wakes up. -/
def ComesBack (s : HolderSystem StandardContainer) : Prop :=
  ∀ signalled, s.holder.mStop = true → s.consumer = .blocked signalled →
    s.holder.mWaitExit = true ∧ signalled = true ∧
      ∀ ret, ∃ s', s.step (.wake ret) = some s' ∧ s'.consumer = .outside

/-- `get` does not begin to wait in a stopped holder, and `stop` sees a consumer that waits. -/
def StopSeen (s : HolderSystem StandardContainer) : HolderAction → Prop
  | .get => s.holder.mStop = true → s.holder.container ≠ []
  | .stop => ∀ signalled, s.consumer = .blocked signalled → s.holder.mWaitLoop = true
  | _ => True

/-- The flags speak of the consumer: `m_wait_loop` is set only while it is blocked, and
`m_wait_exit` only when it was signalled as well. -/
structure FlagsMatch (s : HolderSystem StandardContainer) : Prop where
  loop : s.holder.mWaitLoop = true → ∃ signalled, s.consumer = .blocked signalled
  exit : s.holder.mWaitExit = true → s.holder.mWaitLoop = true ∧ s.consumer = .blocked true

theorem FlagsMatch.of_clear (hl : s.holder.mWaitLoop = false) (he : s.holder.mWaitExit = false) :
    FlagsMatch s :=
  ⟨fun h => absurd h (by simp [hl]), fun h => absurd h (by simp [he])⟩

/-- Without `m_wait_loop` there is no `m_wait_exit` either. -/
theorem FlagsMatch.exit_eq_false (hf : FlagsMatch s) (hl : s.holder.mWaitLoop = false) :
    s.holder.mWaitExit = false := by
  cases he : s.holder.mWaitExit with
  | false => rfl
  | true =>
    have hl' := (hf.exit he).1
    simp [hl] at hl'

/-- The end of `get` leaves the consumer outside and both wait flags cleared. -/
theorem afterGet_getExit (s : HolderSystem StandardContainer)
    (h : MessageHolderBase StandardContainer) :
    (s.afterGet h.getExit).consumer = .outside ∧ (s.afterGet h.getExit).holder.mStop = h.mStop ∧
      (s.afterGet h.getExit).holder.mWaitLoop = false ∧
      (s.afterGet h.getExit).holder.mWaitExit = false := by
  rw [h.getExit_standard]
  split
  · exact ⟨rfl, rfl, rfl, rfl⟩
  · split <;> exact ⟨rfl, rfl, rfl, rfl⟩

theorem FlagsMatch.getExit (s : HolderSystem StandardContainer)
    (h : MessageHolderBase StandardContainer) : FlagsMatch (s.afterGet h.getExit) :=
  .of_clear (afterGet_getExit s h).2.2.1 (afterGet_getExit s h).2.2.2

theorem FlagsMatch.wait (s : HolderSystem StandardContainer)
    (h : MessageHolderBase StandardContainer) (he : h.mWaitExit = false) :
    FlagsMatch (s.afterGet (.wait { h with mWaitLoop := true })) :=
  ⟨fun _ => ⟨false, rfl⟩, fun hx => absurd (he.symm.trans hx) (by simp)⟩

theorem FlagsMatch.waitLoop (s : HolderSystem StandardContainer)
    (h : MessageHolderBase StandardContainer) : FlagsMatch (s.afterGet h.waitLoop) := by
  unfold MessageHolderBase.waitLoop
  split
  · exact .getExit s h
  · exact .wait s h (eq_false_of_ne_true ‹_›)

theorem FlagsMatch.step (hf : FlagsMatch s) (h : s.step a = some s') : FlagsMatch s' := by
  cases a with
  | start =>
    obtain rfl := Option.some.inj h
    exact .of_clear rfl rfl
  | add msg =>
    obtain rfl := Option.some.inj h
    cases msg with
    | none => simpa [afterAdd, broadcast, MessageHolderBase.add_standard_none] using hf
    | some msg =>
      simp only [afterAdd, MessageHolderBase.add_standard_some]
      cases s.holder.mStop with
      | true => simpa [broadcast] using hf
      | false =>
        cases hl : s.holder.mWaitLoop with
        | false => exact .of_clear rfl (by simp [hf.exit_eq_false hl])
        | true =>
          obtain ⟨signalled, hc⟩ := hf.loop hl
          constructor <;> simp [broadcast, hc, Consumer.signal]
  | clear =>
    obtain rfl := Option.some.inj h
    exact ⟨hf.loop, hf.exit⟩
  | stop =>
    obtain ⟨-, rfl⟩ := step_stop_eq_some_iff.1 h
    unfold MessageHolderBase.stop
    split
    · obtain ⟨signalled, hc⟩ := hf.loop ‹_›
      constructor <;> simp_all [broadcast, Consumer.signal]
    · exact ⟨hf.loop, hf.exit⟩
  | get =>
    obtain ⟨-, rfl⟩ := step_get_eq_some_iff.1 h
    rw [MessageHolderBase.get_standard]
    split
    · exact .waitLoop s _
    · exact .getExit s _
  | wake ret =>
    obtain ⟨-, rfl⟩ := step_wake_eq_some_iff.1 h
    rw [MessageHolderBase.wake_standard]
    exact .waitLoop s _

/-- With matching flags, `ComesBack` says no more than that `m_wait_exit` is set. -/
theorem comesBack_iff (hf : FlagsMatch s) :
    ComesBack s ↔ ∀ signalled, s.holder.mStop = true → s.consumer = .blocked signalled →
      s.holder.mWaitExit = true := by
  refine ⟨fun h signalled hs hc => (h signalled hs hc).1, fun h signalled hs hc => ?_⟩
  have he := h signalled hs hc
  have hc' := (hf.exit he).2
  refine ⟨he, by simpa using hc.symm.trans hc', fun ret => ⟨_, by simp only [step, hc]; rfl, ?_⟩⟩
  rw [MessageHolderBase.wake_standard, MessageHolderBase.waitLoop, if_pos he]
  exact (afterGet_getExit s s.holder).1

/-- The end of `get` leaves nobody blocked. -/
theorem not_blocked_afterGet_getExit (s : HolderSystem StandardContainer)
    (h : MessageHolderBase StandardContainer) (signalled : Bool) :
    (s.afterGet h.getExit).consumer ≠ .blocked signalled := by
  rw [(afterGet_getExit s h).1]
  simp

/-- One step keeps a blocked consumer's way out exactly when it meets `StopSeen`. -/
theorem comesBack_step_iff (hf : FlagsMatch s) (hc : ComesBack s) (h : s.step a = some s') :
    ComesBack s' ↔ StopSeen s a := by
  rw [comesBack_iff (hf.step h)]
  rw [comesBack_iff hf] at hc
  cases a with
  | start =>
    obtain rfl := Option.some.inj h
    simp [StopSeen, MessageHolderBase.start]
  | add msg =>
    obtain rfl := Option.some.inj h
    cases msg with
    | none => simpa [StopSeen, afterAdd, broadcast, MessageHolderBase.add_standard_none] using hc
    | some msg =>
      simp only [StopSeen, afterAdd, MessageHolderBase.add_standard_some]
      cases hs : s.holder.mStop with
      | true => simpa [broadcast, hs] using hc
      | false => simp
  | clear =>
    obtain rfl := Option.some.inj h
    exact iff_of_true hc trivial
  | stop =>
    obtain ⟨-, rfl⟩ := step_stop_eq_some_iff.1 h
    cases hl : s.holder.mWaitLoop with
    | true => simp [StopSeen, MessageHolderBase.stop, hl]
    | false =>
      have he := hf.exit_eq_false hl
      simp [StopSeen, MessageHolderBase.stop, broadcast, hl, he]
  | get =>
    obtain ⟨hcons, rfl⟩ := step_get_eq_some_iff.1 h
    rw [MessageHolderBase.get_standard]
    by_cases hempty : s.holder.container = []
    · -- the consumer is outside, so no flag of an earlier wait is left
      have hl : s.holder.mWaitLoop = false := by
        apply eq_false_of_ne_true
        intro hl
        obtain ⟨signalled, hb⟩ := hf.loop hl
        simp [hcons] at hb
      have he := hf.exit_eq_false hl
      simp [StopSeen, MessageHolderBase.waitLoop, afterGet, hempty, he]
    · rw [if_neg hempty]
      refine iff_of_true (fun signalled _ hb => ?_) (fun _ => hempty)
      exact absurd hb (not_blocked_afterGet_getExit s s.holder signalled)
  | wake ret =>
    obtain ⟨⟨signalled, hcons⟩, rfl⟩ := step_wake_eq_some_iff.1 h
    refine iff_of_true (fun signalled' hs hb => ?_) trivial
    rw [MessageHolderBase.wake_standard, MessageHolderBase.waitLoop] at hs hb
    by_cases he : s.holder.mWaitExit = true
    · rw [if_pos he] at hb
      exact absurd hb (not_blocked_afterGet_getExit s s.holder signalled')
    · rw [if_neg he] at hs
      exact absurd (hc signalled hs hcons) he

/-- A run of a standard holder always lets the consumer of a stopped holder out exactly when its
steps all meet `StopSeen`. -/
theorem throughout_comesBack_iff (as : List HolderAction) :
    Throughout step ComesBack (fresh ([] : StandardContainer)) as ↔
      EachStep step StopSeen (fresh ([] : StandardContainer)) as :=
  throughout_iff_eachStep FlagsMatch.step comesBack_step_iff (.of_clear rfl rfl)
    (fun _ hs => absurd hs (by simp [fresh]))

/-- A `stop` that falls between two `get` calls sends no signal, and the next `get` waits in the
stopped holder. -/
theorem stop_before_get_blocks :
    ∃ s, exec step (fresh ([] : StandardContainer)) [.start, .clear, .stop, .get] = some s ∧
      s.holder.mStop = true ∧ s.consumer = .blocked false ∧ s.holder.mWaitExit = false :=
  ⟨{ holder := { container := [], mStop := true, mWaitLoop := true }, consumer := .blocked false },
    by decide, rfl, rfl, rfl⟩

end HolderSystem

end Kalinka
