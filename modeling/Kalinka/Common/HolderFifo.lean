import Kalinka.Common.HolderRun

/-!
# The message holder is a FIFO queue

Between a `start` and the next `stop` the standard holder loses and duplicates nothing: what
successful `get` calls have returned, followed by what the container still holds, is what `add` has
accepted, in the order of the critical sections (`fifo`).
-/

namespace Kalinka

open Run

namespace HolderSystem

variable {s s' : HolderSystem StandardContainer} {a : HolderAction}

/-- The actions of the producers and of the consumer. -/
def IsService : HolderAction → Prop
  | .add _ | .get | .wake _ => True
  | _ => False

/-- The invariant of a running holder.  The wait flags are those of the consumer, `m_wait_exit`
stands for a message that is there to be taken, and a consumer blocked without it has nothing to
take. -/
structure Running (s : HolderSystem StandardContainer) : Prop where
  stop : s.holder.mStop = false
  queue : s.returned ++ s.holder.container = s.accepted
  outside : s.consumer = .outside → s.holder.mWaitLoop = false ∧ s.holder.mWaitExit = false
  blocked : ∀ signalled, s.consumer = .blocked signalled → s.holder.mWaitLoop = true
  idle : ∀ signalled, s.consumer = .blocked signalled → s.holder.mWaitExit = false →
    s.holder.container = []
  exit : s.holder.mWaitExit = true → s.holder.container ≠ []

/-- Taking the first message of a running holder moves it from the container to the consumer. -/
theorem Running.getExit (hr : Running s) (hc : s.holder.container ≠ []) :
    Running (s.afterGet s.holder.getExit) := by
  obtain ⟨msg, rest, hcons⟩ := List.exists_cons_of_ne_nil hc
  have hq := hr.queue
  rw [hcons] at hq
  rw [MessageHolderBase.getExit_standard, if_neg (by simp [hr.stop]), hcons]
  constructor <;> simp [afterGet, hr.stop, hq]

/-- Waiting in a running holder that has nothing to take. -/
theorem Running.wait (hr : Running s) (hc : s.holder.container = [])
    (he : s.holder.mWaitExit = false) :
    Running (s.afterGet (.wait { s.holder with mWaitLoop := true })) where
  stop := hr.stop
  queue := hr.queue
  outside h := by cases h
  blocked _ _ := rfl
  idle _ _ _ := hc
  exit h := absurd (he.symm.trans h) (by simp)

theorem Running.waitLoop (hr : Running s)
    (hc : s.holder.mWaitExit = false → s.holder.container = []) :
    Running (s.afterGet s.holder.waitLoop) := by
  unfold MessageHolderBase.waitLoop
  split
  · exact hr.getExit (hr.exit ‹_›)
  · have he := eq_false_of_ne_true ‹_›
    exact hr.wait (hc he) he

/-- An `add` appends to the container, and wakes the consumer if it waits. -/
theorem Running.add (hr : Running s) (msg : Message) :
    Running (s.afterAdd (some msg) (s.holder.add (some msg))) := by
  have hq := hr.queue
  rw [MessageHolderBase.add_standard_some, if_neg (by simp [hr.stop])]
  refine ⟨hr.stop, by simp [afterAdd, ← hq], fun h => ?_, fun signalled h => ?_,
    fun signalled h he => ?_, by simp [afterAdd]⟩
  · cases hcons : s.consumer with
    | outside => simpa [afterAdd] using hr.outside hcons
    | blocked signalled =>
      simp [afterAdd, broadcast, hcons, hr.blocked signalled hcons, Consumer.signal] at h
  all_goals
    cases hcons : s.consumer with
    | outside => simp [afterAdd, broadcast, hcons, (hr.outside hcons).1] at h
    | blocked signalled => simp_all [afterAdd, hr.blocked signalled hcons]

theorem Running.step (hr : Running s) (ha : IsService a) (h : s.step a = some s') :
    Running s' := by
  cases a with
  | start | clear | stop => cases ha
  | add msg =>
    obtain rfl := Option.some.inj h
    cases msg with
    | none => rw [MessageHolderBase.add_standard_none]; exact ⟨hr.1, hr.2, hr.3, hr.4, hr.5, hr.6⟩
    | some msg => exact hr.add msg
  | get =>
    obtain ⟨-, rfl⟩ := step_get_eq_some_iff.1 h
    rw [MessageHolderBase.get_standard]
    by_cases hc : s.holder.container = []
    · rw [if_pos hc]
      exact hr.waitLoop fun _ => hc
    · rw [if_neg hc]
      exact hr.getExit hc
  | wake ret =>
    obtain ⟨⟨signalled, hcons⟩, rfl⟩ := step_wake_eq_some_iff.1 h
    rw [MessageHolderBase.wake_standard]
    exact hr.waitLoop (hr.idle signalled hcons)

theorem running_started (h : MessageHolderBase StandardContainer) : Running (started h) := by
  constructor <;> simp [started, MessageHolderBase.start]

/-- After a `start` and before any `stop`, whatever the producers and the consumer do, the messages
returned so far followed by those in the container are the accepted messages in order, and a
consumer blocked without `m_wait_exit` has an empty container before it. -/
theorem fifo (h : MessageHolderBase StandardContainer) (as : List HolderAction)
    (has : ∀ a ∈ as, IsService a) (s : HolderSystem StandardContainer)
    (hs : exec step (started h) as = some s) :
    s.returned ++ s.holder.container = s.accepted ∧
      ∀ signalled, s.consumer = .blocked signalled → s.holder.mWaitExit = false →
        s.holder.container = [] := by
  have hr : Running s := exec_induction_of_eachStep (fun hr ha h => hr.step ha h)
    (running_started h) (eachStep_of_forall_mem fun a ha _ => has a ha) hs
  exact ⟨hr.queue, hr.idle⟩

/-- Two producers, and a consumer that has to wait for the first of them. -/
theorem fifo_two_producers :
    let as : List HolderAction := [.get, .add (some { id := "a", uuid := 1 }), .wake .ok,
      .add (some { id := "b", uuid := 2 })]
    ∃ s, exec step (started { container := [] }) as = some s ∧
      s.returned ++ s.holder.container = s.accepted ∧ s.accepted.length = 2 := by
  refine ⟨{ holder := { container := [{ id := "b", uuid := 2 }] }
            accepted := [{ id := "a", uuid := 1 }, { id := "b", uuid := 2 }]
            returned := [{ id := "a", uuid := 1 }] }, by decide, ?_, rfl⟩
  exact (fifo _ _ (by simp [IsService]) _
    (show exec step (started { container := [] }) [.get, .add (some { id := "a", uuid := 1 }),
      .wake .ok, .add (some { id := "b", uuid := 2 })] = some _ by decide)).1

end HolderSystem

end Kalinka
