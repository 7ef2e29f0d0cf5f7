import Kalinka.Common.Module
import Mathlib.Data.List.Perm.Subperm

/-!
# Restarted modules

What a holder keeps from one run of its module to the next.  `stop` clears the container and raises
`m_stop` in two sections and `start` does not clear, so what an `add` puts in between is there when
the next run begins.  `MessageHolder4SyncRes` is stopped by the thread of the module on its way out,
in the same two sections.

`throughout_fresh_iff` says that a run handles nothing stale exactly if every `start` finds its
container empty.
-/

namespace Kalinka

open Run HolderOps

/-- The messages a container holds, and what its operations do to them. -/
class HolderMessages (C : Type) [HolderOps C] where
  messages : C → List Message
  messages_clear : ∀ c : C, messages (clear c) = []
  messages_getUnsafe : ∀ c : C,
    (getUnsafe c).1.toList ++ messages (getUnsafe c).2 = messages c
  messages_addUnsafe : ∀ (msg : IMessagePtr) (c : C), (messages (addUnsafe msg c).2).Subperm
    (messages c ++ if (addUnsafe msg c).1 = .ok then msg.toList else [])

open HolderMessages

instance : HolderMessages StandardContainer where
  messages := id
  messages_clear _ := rfl
  messages_getUnsafe c := by cases c <;> rfl
  messages_addUnsafe msg c := by
    cases msg with
    | none => exact (List.append_nil c).symm ▸ List.Subperm.refl c
    | some msg => exact List.Subperm.refl _

instance : HolderMessages SyncResContainer where
  messages := Option.toList
  messages_clear _ := rfl
  messages_getUnsafe c := List.append_nil _
  messages_addUnsafe msg c := by
    cases msg with
    | none => exact (List.append_nil c.toList).symm ▸ List.Subperm.refl _
    | some msg =>
      by_cases hmsg : msg.type = .syncRes
      -- the new response takes the place of the old one
      · simp [addUnsafe, hmsg, (List.sublist_append_right c.toList [msg]).subperm]
      · simp [addUnsafe, hmsg, List.Subperm.refl]

namespace HolderSystem

variable {C : Type} [HolderOps C] [HolderMessages C] {s s' : HolderSystem C} {a : HolderAction}

/-- The records begin anew with a `start`. -/
def startRecords (s : HolderSystem C) : HolderSystem C :=
  { s with holder := s.holder.start, accepted := [], returned := [] }

/-- What `get` has returned since the last `start`, and what the container still holds, has been
accepted since then. -/
def Fresh (s : HolderSystem C) : Prop :=
  (s.returned ++ messages s.holder.container).Subperm s.accepted

theorem fresh_startRecords_iff : s.startRecords.Fresh ↔ messages s.holder.container = [] :=
  List.subperm_nil

/-! ## The sections -/

theorem Fresh.getExit (h : s.Fresh) : (s.afterGet s.holder.getExit).Fresh := by
  have hget := messages_getUnsafe s.holder.container
  unfold MessageHolderBase.getExit
  by_cases hstop : s.holder.mStop = true
  · simpa [hstop, afterGet, Fresh] using h
  · rcases hout : getUnsafe s.holder.container with ⟨_ | msg, c⟩
    · rw [hout] at hget
      have hmsgs : messages c = messages s.holder.container := hget
      simpa [hstop, hout, afterGet, Fresh, hmsgs] using h
    · rw [hout] at hget
      have hmsgs : msg :: messages c = messages s.holder.container := hget
      simpa [hstop, hout, afterGet, Fresh, hmsgs] using h

theorem Fresh.waitLoop (h : s.Fresh) : (s.afterGet s.holder.waitLoop).Fresh := by
  unfold MessageHolderBase.waitLoop
  split
  · exact h.getExit
  · exact h

theorem Fresh.get (h : s.Fresh) : (s.afterGet s.holder.get).Fresh := by
  unfold MessageHolderBase.get
  split
  · exact h.waitLoop
  · exact h.getExit

theorem Fresh.wake (h : s.Fresh) (ret : WaitRet) : (s.afterGet (s.holder.wake ret)).Fresh := by
  unfold MessageHolderBase.wake
  split_ifs
  · exact h.getExit
  · exact h.getExit
  · exact h.waitLoop
  · exact h.waitLoop

theorem Fresh.add (h : s.Fresh) (msg : IMessagePtr) :
    (s.afterAdd msg (s.holder.add msg)).Fresh := by
  have hadd := messages_addUnsafe msg s.holder.container
  unfold MessageHolderBase.add
  by_cases hstop : s.holder.mStop = true
  · simpa [hstop, afterAdd, Fresh] using h
  · rcases hout : addUnsafe msg s.holder.container with ⟨rc, c⟩
    rw [hout] at hadd
    cases rc with
    | ok =>
      have hmore : (s.returned ++ messages c).Subperm (s.accepted ++ msg.toList) := by
        have hc : (messages c).Subperm (messages s.holder.container ++ msg.toList) := hadd
        have happ := (List.subperm_append_left s.returned).2 hc
        rw [← List.append_assoc] at happ
        exact happ.trans ((List.subperm_append_right msg.toList).2 h)
      by_cases hloop : s.holder.mWaitLoop = true <;>
        simpa [hstop, hout, hloop, afterAdd, Fresh] using hmore
    | error =>
      have hc : (messages c).Subperm (messages s.holder.container ++ []) := hadd
      rw [List.append_nil] at hc
      have hless := ((List.subperm_append_left s.returned).2 hc).trans h
      simpa [hstop, hout, afterAdd, Fresh] using hless

theorem Fresh.clear (h : s.Fresh) :
    ({ s with holder := s.holder.clear, stopping := s.stopping + 1 } : HolderSystem C).Fresh := by
  have hempty : messages (HolderOps.clear s.holder.container) = [] := messages_clear _
  show (s.returned ++ messages (HolderOps.clear s.holder.container)).Subperm s.accepted
  rw [hempty]
  exact ((List.subperm_append_left s.returned).2 List.nil_subperm).trans h

theorem Fresh.stop (h : s.Fresh) {consumer : Consumer} {stopping : ℕ} :
    ({ s with holder := s.holder.stop.2, consumer, stopping } : HolderSystem C).Fresh := by
  unfold MessageHolderBase.stop
  split <;> exact h

/-- Every section but `start` keeps a holder fresh. -/
theorem Fresh.step (h : s.Fresh) (ha : a ≠ .start) (hs : s.step a = some s') : s'.Fresh := by
  cases a with
  | start => exact absurd rfl ha
  | add msg => obtain rfl := Option.some.inj hs; exact h.add msg
  | clear => obtain rfl := Option.some.inj hs; exact h.clear
  | stop => obtain ⟨-, rfl⟩ := step_stop_eq_some_iff.1 hs; exact h.stop
  | get => obtain ⟨-, rfl⟩ := step_get_eq_some_iff.1 hs; exact h.get
  | wake ret => obtain ⟨-, rfl⟩ := step_wake_eq_some_iff.1 hs; exact h.wake ret

end HolderSystem

/-- A module with both of its holders. -/
structure RestartedModule where
  module : Module := {}
  mSyncContainer : HolderSystem SyncResContainer := .fresh none
  /-- `init` is between `m_container.start()` and `m_sync_container.start()`. -/
  startingSync : Bool := false

inductive RestartAction
  | init
  | initCheck
  | initRestore
  /-- `m_container.start()` in `init` -/
  | start
  /-- `m_sync_container.start()` in `init` -/
  | startSync
  | stop
  | clear
  | stopContainer
  /-- `m_sync_container.stop()` in `postMainLoop` -/
  | clearSync
  | stopSync
  | poll
  | pollEnd
  | addMessage (msg : Message)
  | get
  | wake (ret : WaitRet)
  | getSync
  | wakeSync (ret : WaitRet)
  deriving DecidableEq, Repr

namespace RestartedModule

def ofModule (s : RestartedModule) (a : ModuleAction) : Option RestartedModule :=
  (s.module.step a).map fun module => { s with module }

def ofSync (s : RestartedModule) (a : HolderAction) : Option RestartedModule :=
  (s.mSyncContainer.step a).map fun mSyncContainer => { s with mSyncContainer }

def step (s : RestartedModule) : RestartAction → Option RestartedModule
  | .init => if s.startingSync then none else s.ofModule .init
  | .initCheck => s.ofModule .initCheck
  | .initRestore => s.ofModule .initRestore
  | .start =>
    if s.module.init = .start then
      some { s with
        module := { s.module with init := .outside, mContainer := s.module.mContainer.startRecords }
        startingSync := true }
    else none
  | .startSync =>
    if s.startingSync then
      some { s with mSyncContainer := s.mSyncContainer.startRecords, startingSync := false }
    else none
  | .stop => s.ofModule .stop
  | .clear => s.ofModule .clear
  | .stopContainer => s.ofModule .stopContainer
  | .clearSync => s.ofSync .clear
  | .stopSync => s.ofSync .stop
  | .poll => s.ofModule .poll
  | .pollEnd => s.ofModule .pollEnd
  | .addMessage msg =>
    if msg.type = .syncRes then s.ofSync (.add (some msg)) else s.ofModule (.add (some msg))
  | .get => s.ofModule .get
  | .wake ret => s.ofModule (.wake ret)
  | .getSync => s.ofSync .get
  | .wakeSync ret => s.ofSync (.wake ret)

/-- Neither holder has returned or holds a message from before its last `start`. -/
def Fresh (s : RestartedModule) : Prop := s.module.mContainer.Fresh ∧ s.mSyncContainer.Fresh

/-- The condition under which a step keeps the module fresh: `start` finds the container empty. -/
def StartOk (s : RestartedModule) : RestartAction → Prop
  | .start => s.module.mContainer.holder.container = []
  | .startSync => s.mSyncContainer.holder.container = none
  | _ => True

variable {s s' : RestartedModule} {a : RestartAction}

theorem step_start_eq_some_iff : s.step .start = some s' ↔ s.module.init = .start ∧ s' = { s with
    module := { s.module with init := .outside, mContainer := s.module.mContainer.startRecords }
    startingSync := true } := by
  by_cases h : s.module.init = .start <;> simp [step, h, eq_comm (b := s')]

theorem step_startSync_eq_some_iff : s.step .startSync = some s' ↔ s.startingSync = true ∧
    s' = { s with mSyncContainer := s.mSyncContainer.startRecords, startingSync := false } := by
  by_cases h : s.startingSync = true <;> simp [step, h, eq_comm (b := s')]

theorem mContainer_of_container {m m' : Module} {b : HolderAction} (hm : m.container b = some m') :
    m.mContainer.step b = some m'.mContainer := by
  obtain ⟨holder, hholder, rfl⟩ := Option.map_eq_some_iff.1 hm
  exact hholder

/-- A step of the receiving half of a module is a section of its container or leaves it alone. -/
theorem mContainer_of_step {m m' : Module} {b : ModuleAction} (hb : b ≠ .start)
    (hm : m.step b = some m') : m'.mContainer = m.mContainer ∨
      ∃ c, c ≠ HolderAction.start ∧ m.mContainer.step c = some m'.mContainer := by
  cases b with
  | start => exact absurd rfl hb
  | clear =>
    simp only [Module.step] at hm
    split at hm
    · cases hm
    · have hclear := mContainer_of_container hm
      exact Or.inr ⟨.clear, nofun, hclear⟩
  | stopContainer => exact Or.inr ⟨.stop, nofun, mContainer_of_container hm⟩
  | add msg => exact Or.inr ⟨.add msg, nofun, mContainer_of_container hm⟩
  | get => exact Or.inr ⟨.get, nofun, mContainer_of_container hm⟩
  | wake ret => exact Or.inr ⟨.wake ret, nofun, mContainer_of_container hm⟩
  | stop => obtain rfl := Option.some.inj hm; exact Or.inl rfl
  | init | initCheck | initRestore | poll | pollEnd => left; grind [Module.step]

theorem Fresh.ofModule (h : s.Fresh) {b : ModuleAction} (hs : s.ofModule b = some s')
    (hb : b ≠ .start) : s'.Fresh := by
  obtain ⟨m, hm, rfl⟩ := Option.map_eq_some_iff.1 hs
  refine ⟨?_, h.2⟩
  obtain heq | ⟨c, hc, hstep⟩ := mContainer_of_step hb hm
  · show m.mContainer.Fresh
    rw [heq]
    exact h.1
  · exact h.1.step hc hstep

theorem Fresh.ofSync (h : s.Fresh) {b : HolderAction} (hs : s.ofSync b = some s')
    (hb : b ≠ .start) : s'.Fresh := by
  obtain ⟨holder, hholder, rfl⟩ := Option.map_eq_some_iff.1 hs
  exact ⟨h.1, h.2.step hb hholder⟩

theorem fresh_step_iff (h : s.Fresh) (hs : s.step a = some s') : s'.Fresh ↔ s.StartOk a := by
  cases a with
  | start =>
    obtain ⟨-, rfl⟩ := step_start_eq_some_iff.1 hs
    have hcontainer := HolderSystem.fresh_startRecords_iff (s := s.module.mContainer)
    exact ⟨fun hfresh => hcontainer.1 hfresh.1, fun hempty => ⟨hcontainer.2 hempty, h.2⟩⟩
  | startSync =>
    obtain ⟨-, rfl⟩ := step_startSync_eq_some_iff.1 hs
    have hcontainer := HolderSystem.fresh_startRecords_iff (s := s.mSyncContainer)
    rw [show messages s.mSyncContainer.holder.container = [] ↔ s.StartOk .startSync from
      Option.toList_eq_nil_iff] at hcontainer
    exact ⟨fun hfresh => hcontainer.1 hfresh.2, fun hempty => ⟨h.1, hcontainer.2 hempty⟩⟩
  | init =>
    refine iff_of_true ?_ trivial
    simp only [step] at hs
    split at hs
    · cases hs
    · exact h.ofModule hs nofun
  | addMessage msg =>
    refine iff_of_true ?_ trivial
    simp only [step] at hs
    split at hs
    · exact h.ofSync hs nofun
    · exact h.ofModule hs nofun
  | initCheck | initRestore | stop | clear | stopContainer | poll | pollEnd | get | wake ret =>
    exact iff_of_true (h.ofModule hs nofun) trivial
  | clearSync | stopSync | getSync | wakeSync ret => exact iff_of_true (h.ofSync hs nofun) trivial

/-- The runs in which neither holder ever returns or keeps a message from before its last `start`:
those in which every `start` finds its container empty. -/
theorem throughout_fresh_iff (as : List RestartAction) :
    Throughout step Fresh {} as ↔ EachStep step StartOk {} as :=
  throughout_iff_eachStep (I := fun _ => True) (fun _ _ => trivial)
    (fun _ h hs => fresh_step_iff h hs)
    trivial ⟨List.Subperm.refl [], List.Subperm.refl []⟩

/-- A message that comes between the clearing and the stop flag is returned in the next run, in
which nothing has been accepted; a response likewise. -/
theorem stale_messages_returned :
    let request : Message := { id := "request", uuid := 1 }
    let response : Message := { id := "response", uuid := 2, type := .syncRes }
    ∃ s, exec step {} [.init, .initCheck, .start, .startSync,
        .stop, .clear, .addMessage request, .stopContainer,
        .clearSync, .addMessage response, .stopSync,
        .init, .initCheck, .start, .startSync, .get, .getSync] = some s ∧
      s.module.mContainer.returned = [request] ∧ s.module.mContainer.accepted = [] ∧
      s.mSyncContainer.returned = [response] ∧ s.mSyncContainer.accepted = [] :=
  ⟨_, rfl, rfl, rfl, rfl, rfl⟩

end RestartedModule

end Kalinka
