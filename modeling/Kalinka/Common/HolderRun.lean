import Kalinka.Lib.Run
import Kalinka.Common.MessageHolder

/-!
# A message holder, its producers and its consumer

The runs of one holder that any number of threads start, stop and add to, and that one thread
reads.  The sections of `MessageHolder.lean` are the steps.  The derived `stop` clears the
container before it takes the mutex, so a stop is two steps, and other steps may come in between.

The consumer may leave the condition wait at any time; it has to leave it when it was signalled,
that is, when a broadcast was made after it began to wait.
-/

namespace Kalinka

/-- Where the consumer is: not in `get`, or in the condition wait of `get`. -/
inductive Consumer
  | outside
  | blocked (signalled : Bool)
  deriving DecidableEq, Repr

/-- The effect of `pthread_cond_broadcast` on the consumer. -/
def Consumer.signal : Consumer → Consumer
  | .outside => .outside
  | .blocked _ => .blocked true

/-- A holder together with its users.  `accepted` and `returned` record the messages whose `add`
returned `OK` and the messages that successful `get` calls returned, in the order of the
sections. -/
structure HolderSystem (C : Type) where
  holder : MessageHolderBase C
  consumer : Consumer := .outside
  /-- The `stop` calls between the clearing of the container and their section. -/
  stopping : ℕ := 0
  accepted : List Message := []
  returned : List Message := []
  deriving DecidableEq, Repr

/-- The sections of the holder, one step each. -/
inductive HolderAction
  | start
  | add (msg : IMessagePtr)
  | clear
  | stop
  | get
  | wake (ret : WaitRet)
  deriving DecidableEq, Repr

namespace HolderSystem

variable {C : Type} [HolderOps C]

/-- Signal the consumer if a section has made a broadcast. -/
def broadcast (consumer : Consumer) (b : Bool) : Consumer :=
  if b then consumer.signal else consumer

/-- The consumer's state after one of its sections. -/
def afterGet (s : HolderSystem C) : GetOut C → HolderSystem C
  | .wait h => { s with holder := h, consumer := .blocked false }
  | .done rc msg h =>
    { s with
      holder := h
      consumer := .outside
      returned := if rc = .ok then s.returned ++ msg.toList else s.returned }

/-- The producers' and stoppers' state after an `add`. -/
def afterAdd (s : HolderSystem C) (msg : IMessagePtr) (out : AddOut C) : HolderSystem C :=
  { s with
    holder := out.holder
    consumer := broadcast s.consumer out.broadcast
    accepted := if out.rc = .ok then s.accepted ++ msg.toList else s.accepted }

def step (s : HolderSystem C) : HolderAction → Option (HolderSystem C)
  | .start => some { s with holder := s.holder.start }
  | .add msg => some (s.afterAdd msg (s.holder.add msg))
  | .clear => some { s with holder := s.holder.clear, stopping := s.stopping + 1 }
  | .stop =>
    if s.stopping = 0 then none
    else some { s with
      holder := s.holder.stop.2
      consumer := broadcast s.consumer s.holder.stop.1
      stopping := s.stopping - 1 }
  | .get =>
    match s.consumer with
    | .outside => some (s.afterGet s.holder.get)
    | .blocked _ => none
  | .wake ret =>
    match s.consumer with
    | .outside => none
    | .blocked _ => some (s.afterGet (s.holder.wake ret))

variable {s s' : HolderSystem C}

theorem step_stop_eq_some_iff :
    s.step .stop = some s' ↔ s.stopping ≠ 0 ∧
      { s with
        holder := s.holder.stop.2
        consumer := broadcast s.consumer s.holder.stop.1
        stopping := s.stopping - 1 } = s' := by
  by_cases hs : s.stopping = 0
  · simp [step, hs]
  · simp [step, hs]

theorem step_get_eq_some_iff :
    s.step .get = some s' ↔ s.consumer = .outside ∧ s.afterGet s.holder.get = s' := by
  unfold step
  cases s.consumer <;> simp

theorem step_wake_eq_some_iff {ret : WaitRet} :
    s.step (.wake ret) = some s' ↔
      (∃ signalled, s.consumer = .blocked signalled) ∧ s.afterGet (s.holder.wake ret) = s' := by
  unfold step
  cases s.consumer <;> simp

/-- A holder fresh from its constructor, with its consumer outside. -/
def fresh (container : C) : HolderSystem C := { holder := { container := container } }

/-- A holder at the return of `start`, with its consumer outside.  What the container holds then
counts as accepted. -/
def started (h : MessageHolderBase StandardContainer) : HolderSystem StandardContainer :=
  { holder := h.start, accepted := h.container }

end HolderSystem

/-! ## The sections of the standard holder -/

namespace MessageHolderBase

variable (h : MessageHolderBase StandardContainer)

/-- Outside the flags that `get` resets, its end only takes the first message out, and only from
a holder that is not stopped. -/
theorem getExit_standard :
    h.getExit =
      if h.mStop then .done .error none ⟨h.container, h.mStop, false, false⟩
      else match h.container with
        | [] => .done .error none ⟨[], h.mStop, false, false⟩
        | msg :: rest => .done .ok (some msg) ⟨rest, h.mStop, false, false⟩ := by
  unfold getExit
  rcases h with ⟨_ | ⟨msg, rest⟩, stop, exit, loop⟩ <;> cases stop <;> rfl

theorem get_standard : h.get = if h.container = [] then h.waitLoop else h.getExit := by
  unfold get
  rcases h with ⟨_ | ⟨msg, rest⟩, stop, exit, loop⟩ <;> rfl

/-- With the interval 0 the return value of the wait is not looked at. -/
theorem wake_standard (ret : WaitRet) : h.wake ret = h.waitLoop := rfl

theorem add_standard_none : h.add none = ⟨.error, false, h⟩ := by
  unfold add
  split <;> rfl

theorem add_standard_some (msg : Message) :
    h.add (some msg) =
      if h.mStop then ⟨.error, false, h⟩
      else ⟨.ok, h.mWaitLoop,
        ⟨h.container ++ [msg], h.mStop, h.mWaitLoop || h.mWaitExit, h.mWaitLoop⟩⟩ := by
  unfold add
  rcases h with ⟨container, stop, exit, loop⟩
  cases stop <;> cases loop <;> rfl

end MessageHolderBase

end Kalinka
