import Mathlib.Logic.Function.Basic
import Kalinka.Common.Module

/-!
# The message core

`MessageCore::process` hands an asynchronous message to its receivers one after the other, while
modules are added, started, stopped and read.  `Module::addMessage` is the section of
`m_container.add` followed by the two steps of `isStopped()`.  An exception, of `addMessage` or for
an unknown id, leaves the loop over the receivers.

A run notes for each receiver whether it was known and accepted messages when its turn came; for
the receivers behind the one that threw, that is the moment of the exception.
`throughout_fannedOut_iff` says exactly which runs deliver to just these.
-/

namespace Kalinka

open Run Function

/-- Where `process` is: at the head of the loop, before the section of `m_container.add`, before
the `sem_trywait` of `isStopped()` or the post that undoes it. -/
inductive ProcessPc
  | idle
  | next (msg : Message) (rest : List String)
  | add (msg : Message) (id : String) (rest : List String)
  | check (msg : Message) (id : String) (rc : Result) (rest : List String)
  | restore (msg : Message) (id : String) (rest : List String)
  | ended (thrown : Bool)
  deriving DecidableEq, Repr

/-- The message core and the modules that `getModule` knows. -/
structure MessageCore where
  modules : String → Option Module := fun _ => none
  pc : ProcessPc := .idle
  /-- the receivers of the last message -/
  receivers : List String := []
  /-- the receivers whose turn has come, and whether they were known and accepted messages -/
  moments : List (String × Bool) := []
  /-- the receivers whose container has taken the message -/
  delivered : List String := []

inductive MessageCoreAction
  | addModule (id : String)
  | module (id : String) (a : ModuleAction)
  | process (msg : Message)
  /-- the next step of `process` -/
  | go
  deriving DecidableEq, Repr

namespace MessageCore

/-- The receiver is known and accepts messages. -/
def accepts (s : MessageCore) (id : String) : Bool :=
  match s.modules id with
  | some m => m.accepts
  | none => false

/-- An exception in the turn of the receiver before `rest`. -/
def throw (s : MessageCore) (rest : List String) : MessageCore :=
  { s with pc := .ended true, moments := s.moments ++ rest.map fun id => (id, s.accepts id) }

/-- The section of `m_container.add` in `addMessage`. -/
def addMessage (s : MessageCore) (m : Module) (msg : Message) (id : String) (rest : List String) :
    MessageCore :=
  let out := m.mContainer.holder.add (some msg)
  { s with
    modules := update s.modules id
      (some { m with mContainer := m.mContainer.afterAdd (some msg) out })
    moments := s.moments ++ [(id, m.accepts)]
    delivered := if out.rc = .ok then s.delivered ++ [id] else s.delivered
    pc := .check msg id out.rc rest }

def setTrigger (s : MessageCore) (m : Module) (id : String) (mStop : Semaphore) : MessageCore :=
  { s with modules := update s.modules id (some { m with mStop }) }

/-- One step of `process`. -/
def go (s : MessageCore) : Option MessageCore :=
  match s.pc with
  | .idle | .ended _ => none
  | .next _ [] => some { s with pc := .ended false }
  | .next msg (id :: rest) =>
    match s.modules id with
    | none => some (s.throw (id :: rest))
    | some _ => some { s with pc := .add msg id rest }
  | .add msg id rest => (s.modules id).map fun m => s.addMessage m msg id rest
  | .check msg id rc rest =>
    match s.modules id with
    | none => none
    | some m =>
      match m.mStop.tryWait with
      | some sem => some { s.setTrigger m id sem with pc := .restore msg id rest }
      -- not stopped: `BOOST_ASSERT(rc == OK)`
      | none => if rc = .ok then some { s with pc := .next msg rest } else some (s.throw rest)
  | .restore msg id rest =>
    (s.modules id).map fun m => { s.setTrigger m id m.mStop.post with pc := .next msg rest }

def step (s : MessageCore) : MessageCoreAction → Option MessageCore
  | .addModule id =>
    if id = "" ∨ (s.modules id).isSome then none
    else some { s with modules := update s.modules id (some {}) }
  | .module id a =>
    match s.modules id with
    | none => none
    | some m => (m.step a).map fun m' => { s with modules := update s.modules id (some m') }
  | .process msg =>
    match s.pc with
    | .idle | .ended _ =>
      if msg.type = .async then
        some { s with
          pc := .next msg msg.receivers
          receivers := msg.receivers
          moments := []
          delivered := [] }
      else none
    | _ => none
  | .go => s.go

/-- The message was delivered, in list order, to the receivers that were known and accepted
messages when their turn came, and at the end every receiver has had its turn. -/
structure FannedOut (s : MessageCore) : Prop where
  delivered : s.delivered = (s.moments.filter Prod.snd).map Prod.fst
  complete : ∀ thrown, s.pc = .ended thrown → s.moments.map Prod.fst = s.receivers

/-- `process` is left by an exception only when nobody further down the list would take the
message. -/
def LeavesNobody (s : MessageCore) : MessageCoreAction → Prop
  | .go =>
    match s.pc with
    | .next _ (id :: rest) => s.modules id = none → ∀ r ∈ rest, s.accepts r = false
    | .check _ id rc rest =>
      ∀ m, s.modules id = some m → m.mStop = 0 → rc = .error → ∀ r ∈ rest, s.accepts r = false
    | _ => True
  | _ => True

/-- The receivers whose turn has not come. -/
def ahead : ProcessPc → List String
  | .next _ rest | .check _ _ _ rest | .restore _ _ rest => rest
  | .add _ id rest => id :: rest
  | .idle | .ended _ => []

/-- Every receiver has had its turn or still has it before it. -/
def Turns (s : MessageCore) : Prop := s.moments.map Prod.fst ++ ahead s.pc = s.receivers

variable {s s' : MessageCore} {a : MessageCoreAction} {rest : List String}

theorem turns_throw (h : s.moments.map Prod.fst ++ rest = s.receivers) : Turns (s.throw rest) := by
  simp only [Turns, throw, ahead, List.append_nil, List.map_append, List.map_map]
  rw [← h]
  congr 1
  exact List.map_id _

theorem fannedOut_throw_iff (hf : FannedOut s) (h : s.moments.map Prod.fst ++ rest = s.receivers) :
    FannedOut (s.throw rest) ↔ ∀ r ∈ rest, s.accepts r = false := by
  have hcomplete : ∀ thrown, (s.throw rest).pc = .ended thrown →
      (s.throw rest).moments.map Prod.fst = (s.throw rest).receivers := fun _ _ => by
    simpa [Turns, ahead, throw] using turns_throw h
  constructor
  · intro hf'
    have hdel := hf'.delivered
    simp only [throw, List.filter_append, List.map_append] at hdel
    rw [← hf.delivered, List.self_eq_append_right, List.map_eq_nil_iff,
      List.filter_eq_nil_iff] at hdel
    simpa using hdel
  · intro hrest
    refine ⟨?_, hcomplete⟩
    have hnil : (rest.map fun id => (id, s.accepts id)).filter Prod.snd = [] :=
      List.filter_eq_nil_iff.2 (by simpa using hrest)
    simp only [throw, List.filter_append, hnil, List.append_nil]
    exact hf.delivered

theorem Turns.go (h : Turns s) (hs : s.go = some s') : Turns s' := by
  unfold Turns at h
  cases hpc : s.pc with
  | idle | ended => simp [MessageCore.go, hpc] at hs
  | next msg rest =>
    rw [hpc] at h
    cases rest with
    | nil =>
      simp only [MessageCore.go, hpc, Option.some.injEq] at hs
      subst hs
      exact h
    | cons id rest =>
      simp only [MessageCore.go, hpc] at hs
      split at hs
      · obtain rfl := Option.some.inj hs
        exact turns_throw h
      · obtain rfl := Option.some.inj hs
        exact h
  | add msg id rest =>
    rw [hpc] at h
    simp only [MessageCore.go, hpc] at hs
    obtain ⟨m, -, rfl⟩ := Option.map_eq_some_iff.1 hs
    simpa [Turns, addMessage, ahead] using h
  | check msg id rc rest =>
    rw [hpc] at h
    simp only [MessageCore.go, hpc] at hs
    split at hs
    · cases hs
    split at hs
    · obtain rfl := Option.some.inj hs
      exact h
    split at hs
    · obtain rfl := Option.some.inj hs
      exact h
    · obtain rfl := Option.some.inj hs
      exact turns_throw h
  | restore msg id rest =>
    rw [hpc] at h
    simp only [MessageCore.go, hpc] at hs
    obtain ⟨m, -, rfl⟩ := Option.map_eq_some_iff.1 hs
    exact h

/-- Only `go` has to do with the receivers of the message in progress: any other step changes a
module, or begins with a new message. -/
theorem step_cases (ha : a ≠ .go) (hs : s.step a = some s') :
    (∃ modules, s' = { s with modules }) ∨
      ∃ msg, s' = { s with
        pc := .next msg msg.receivers
        receivers := msg.receivers
        moments := []
        delivered := [] } := by
  cases a with
  | addModule id =>
    simp only [MessageCore.step] at hs
    split at hs
    · cases hs
    · exact .inl ⟨_, (Option.some.inj hs).symm⟩
  | module id a =>
    simp only [MessageCore.step] at hs
    split at hs
    · cases hs
    · obtain ⟨m', -, rfl⟩ := Option.map_eq_some_iff.1 hs
      exact .inl ⟨_, rfl⟩
  | process msg =>
    simp only [MessageCore.step] at hs
    split at hs
    · obtain ⟨-, hs⟩ := Option.ite_none_right_eq_some.1 hs
      exact .inr ⟨msg, (Option.some.inj hs).symm⟩
    · obtain ⟨-, hs⟩ := Option.ite_none_right_eq_some.1 hs
      exact .inr ⟨msg, (Option.some.inj hs).symm⟩
    · cases hs
  | go => exact absurd rfl ha

theorem Turns.step (h : Turns s) (hs : s.step a = some s') : Turns s' := by
  by_cases ha : a = .go
  · subst ha
    exact h.go hs
  · rcases step_cases ha hs with ⟨modules, rfl⟩ | ⟨msg, rfl⟩
    · exact h
    · rfl

/-- A message is accepted exactly if the container takes messages. -/
theorem add_rc_eq_ok_iff (m : Module) (msg : Message) :
    (m.mContainer.holder.add (some msg)).rc = .ok ↔ m.accepts = true := by
  rw [MessageHolderBase.add_standard_some, Module.accepts]
  cases m.mContainer.holder.mStop <;> simp

theorem fannedOut_addMessage (hf : FannedOut s) (m : Module) (msg : Message) (id : String)
    (rest : List String) : FannedOut (s.addMessage m msg id rest) := by
  refine ⟨?_, fun _ hpc => by cases hpc⟩
  simp only [addMessage, List.filter_append, List.map_append, add_rc_eq_ok_iff]
  rw [← hf.delivered]
  cases m.accepts <;> simp

/-- One step goes on delivering to the right receivers exactly when it meets `LeavesNobody`. -/
theorem fannedOut_go_iff (ht : Turns s) (hf : FannedOut s) (hs : s.go = some s') :
    FannedOut s' ↔ LeavesNobody s .go := by
  unfold Turns at ht
  cases hpc : s.pc with
  | idle | ended => simp [go, hpc] at hs
  | next msg rest =>
    rw [hpc] at ht
    cases rest with
    | nil =>
      simp only [go, hpc, Option.some.injEq] at hs
      subst hs
      simp only [LeavesNobody, hpc, iff_true]
      exact ⟨hf.delivered, fun _ _ => by simpa [ahead] using ht⟩
    | cons id rest =>
      simp only [go, hpc] at hs
      simp only [LeavesNobody, hpc]
      cases hm : s.modules id with
      | none =>
        simp only [hm, Option.some.injEq] at hs
        subst hs
        have hself : s.accepts id = false := by simp [accepts, hm]
        have ht' : s.moments.map Prod.fst ++ id :: rest = s.receivers := ht
        rw [fannedOut_throw_iff hf ht', List.forall_mem_cons]
        exact ⟨fun h _ => h.2, fun h => ⟨hself, h rfl⟩⟩
      | some m =>
        simp only [hm, Option.some.injEq] at hs
        subst hs
        exact iff_of_true ⟨hf.delivered, fun _ hpc' => by cases hpc'⟩ (fun hnone => by cases hnone)
  | add msg id rest =>
    simp only [go, hpc] at hs
    obtain ⟨m, -, rfl⟩ := Option.map_eq_some_iff.1 hs
    simp only [LeavesNobody, hpc, iff_true]
    exact fannedOut_addMessage hf m msg id rest
  | check msg id rc rest =>
    rw [hpc] at ht
    simp only [go, hpc] at hs
    simp only [LeavesNobody, hpc]
    split at hs
    · cases hs
    rename_i m hm
    cases htrig : m.mStop with
    | succ n =>
      simp only [htrig, Semaphore.tryWait] at hs
      obtain rfl := Option.some.inj hs
      refine iff_of_true ⟨hf.delivered, fun _ hpc' => by cases hpc'⟩ fun m' hm' hzero => ?_
      obtain rfl := Option.some.inj (hm.symm.trans hm')
      exact absurd (htrig.symm.trans hzero) (by simp)
    | zero =>
      simp only [htrig, Semaphore.tryWait] at hs
      cases rc with
      | ok =>
        obtain rfl := Option.some.inj hs
        exact iff_of_true ⟨hf.delivered, fun _ hpc' => by cases hpc'⟩ (fun _ _ _ h => by cases h)
      | error =>
        obtain rfl := Option.some.inj hs
        apply (fannedOut_throw_iff hf ht).trans
        exact ⟨fun h _ _ _ _ => h, fun h => h m hm htrig rfl⟩
  | restore msg id rest =>
    simp only [go, hpc] at hs
    obtain ⟨m, -, rfl⟩ := Option.map_eq_some_iff.1 hs
    simp only [LeavesNobody, hpc, iff_true]
    exact ⟨hf.delivered, fun _ hpc' => by cases hpc'⟩

theorem fannedOut_step_iff (ht : Turns s) (hf : FannedOut s) (hs : s.step a = some s') :
    FannedOut s' ↔ LeavesNobody s a := by
  by_cases ha : a = .go
  · subst ha
    exact fannedOut_go_iff ht hf hs
  have hleaves : LeavesNobody s a := by
    cases a with
    | go => exact absurd rfl ha
    | addModule | module | process => trivial
  refine iff_of_true ?_ hleaves
  rcases step_cases ha hs with ⟨modules, rfl⟩ | ⟨msg, rfl⟩
  · exact ⟨hf.delivered, hf.complete⟩
  · exact ⟨rfl, fun _ hpc => by cases hpc⟩

/-- A run delivers every message to the receivers that would take it exactly when its steps all
meet `LeavesNobody`. -/
theorem throughout_fannedOut_iff (as : List MessageCoreAction) :
    Throughout step FannedOut {} as ↔ EachStep step LeavesNobody {} as :=
  throughout_iff_eachStep Turns.step fannedOut_step_iff rfl ⟨rfl, fun _ h => by cases h⟩

/-- The message reaches `A` between `Thread::init` and `m_container.start`.  `A` rejects it, and
`B`, which would take it, does not get it. -/
theorem restart_cuts_off_next_receiver :
    ∃ s, exec step {} [.addModule "A", .addModule "B", .module "A" .stop, .module "A" .clear,
        .module "A" .stopContainer, .module "A" .init, .module "A" .initCheck,
        .process { id := "m", uuid := 0, type := .async, receivers := ["A", "B"] },
        .go, .go, .go] = some s ∧
      s.pc = .ended true ∧ s.moments = [("A", false), ("B", true)] ∧ s.delivered = [] :=
  ⟨_, rfl, by decide, by decide, by decide⟩

end MessageCore

end Kalinka
