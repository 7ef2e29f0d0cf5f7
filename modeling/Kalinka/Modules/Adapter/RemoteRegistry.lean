import Kalinka.Common.ProcessorRegistry
import Kalinka.Modules.Adapter.Adapter

/-!
# Subscriptions of remote modules

The adapter receives a message for all remote modules that have asked for it.  It notes each of them
in `m_remote_messages` and then registers its own processor for the message, every time; the second
time the map of the processor has the message already, and the call throws.

`eachStep_subscribed_iff` says in which sequences of calls each asynchronous subscription succeeds
and the messages reach the subscriber, and no call that throws changes anything.
-/

namespace Kalinka.Adapter

open Run Function

/-- The adapter, with the registry of the local modules. -/
structure RemoteState where
  remote : RemoteMessages := {}
  processor : ProcessorState
  /-- the messages for which the map has `processRemoteASync` -/
  remoteASync : List String := []

/-- A call of `registerRemoteMessage`. -/
structure RemoteCall where
  msgId : String
  modId : String
  type : MsgType
  deriving DecidableEq, Repr

namespace RemoteState

/-- `registerRemoteMessage`: the state afterwards, and whether it throws. -/
def registerRemoteMessage (s : RemoteState) (c : RemoteCall) : RemoteState × Bool :=
  if c.modId ∈ s.remote.ids c.msgId then (s, false)
  else
    let s := { s with remote := s.remote.register c.msgId c.modId }
    match c.type with
    | .async =>
      let remoteASync :=
        if c.msgId ∈ s.processor.processor.mProcessors then s.remoteASync
        else c.msgId :: s.remoteASync
      let (processor, throws) := s.processor.registerASync c.msgId
      ({ s with processor, remoteASync }, throws)
    | .syncReq =>
      let (processor, throws) := s.processor.registerSync c.msgId
      ({ s with processor }, throws)
    | .undef | .syncRes => (s, true)

def step (s : RemoteState) (c : RemoteCall) : Option RemoteState :=
  some (s.registerRemoteMessage c).1

/-- The adapter gets the message and its map has `processRemoteASync` for it. -/
def Forwards (s : RemoteState) (msgId : String) : Prop :=
  msgId ∈ s.remoteASync ∧
    s.processor.processor.mModid ∈ (s.processor.registry.async msgId).getD []

instance (s : RemoteState) (msgId : String) : Decidable (s.Forwards msgId) :=
  inferInstanceAs (Decidable (_ ∧ _))

/-- `processRemoteASync`: the remote modules that an asynchronous message is sent to. -/
def receivers (s : RemoteState) (msgId : String) : List String :=
  if s.Forwards msgId then s.remote.ids msgId else []

/-- A call that throws changes nothing, and an asynchronous subscription succeeds, and from then on
every message is sent to the subscriber once. -/
def Subscribed (s : RemoteState) (c : RemoteCall) : Prop :=
  ((s.registerRemoteMessage c).2 = true → (s.registerRemoteMessage c).1 = s) ∧
  (c.type = .async → (s.registerRemoteMessage c).2 = false ∧
    ∀ cs t, exec step (s.registerRemoteMessage c).1 cs = some t →
      (t.receivers c.msgId).count c.modId = 1)

/-- A module that is not noted for the message is the first that the adapter registers for it, and
the registry takes the message; a module that is noted for an asynchronous message gets it. -/
def SubscribeOk (s : RemoteState) (c : RemoteCall) : Prop :=
  (c.modId ∉ s.remote.ids c.msgId → c.msgId ∉ s.processor.processor.mProcessors ∧
    s.processor.Accepts c.msgId c.type) ∧
  (c.modId ∈ s.remote.ids c.msgId → c.type = .async → s.Forwards c.msgId)

variable {s s' t : RemoteState} {c : RemoteCall} {cs : List RemoteCall} {msgId modId : String}

/-! ## What a call does -/

theorem mem_ids_register (m : RemoteMessages) (msgId modId : String) :
    modId ∈ (m.register msgId modId).ids msgId := by
  unfold RemoteMessages.register
  split
  next h => exact h
  next => simp

theorem subset_ids_register (m : RemoteMessages) (msgId modId id : String) :
    m.ids id ⊆ (m.register msgId modId).ids id := by
  unfold RemoteMessages.register
  split
  · exact List.Subset.refl _
  · by_cases hid : id = msgId
    · subst hid
      simp
    · simp [hid]

theorem registerRemoteMessage_of_mem (h : c.modId ∈ s.remote.ids c.msgId) :
    s.registerRemoteMessage c = (s, false) := if_pos h

/-- The type is asynchronous or synchronous, and the processor makes the registration; or the type
is another one, and the call throws. -/
theorem registerRemoteMessage_of_notMem (h : c.modId ∉ s.remote.ids c.msgId) :
    s.registerRemoteMessage c =
      ({ remote := s.remote.register c.msgId c.modId
         processor :=
           if c.type = .async ∨ c.type = .syncReq then (s.processor.register c.msgId c.type).1
           else s.processor
         remoteASync :=
           if c.type = .async ∧ c.msgId ∉ s.processor.processor.mProcessors then
             c.msgId :: s.remoteASync
           else s.remoteASync },
        if c.type = .async ∨ c.type = .syncReq then (s.processor.register c.msgId c.type).2
        else true) := by
  rw [registerRemoteMessage, if_neg h]
  cases htype : c.type with
  | async =>
    by_cases hmem : c.msgId ∈ s.processor.processor.mProcessors <;>
      simp [hmem, ProcessorState.registerASync]
  | syncReq => simp [ProcessorState.registerSync]
  | undef | syncRes => simp

/-- The module is noted, whether the call throws or not. -/
theorem mem_ids_registerRemoteMessage (s : RemoteState) (c : RemoteCall) :
    c.modId ∈ (s.registerRemoteMessage c).1.remote.ids c.msgId := by
  by_cases h : c.modId ∈ s.remote.ids c.msgId
  · rw [registerRemoteMessage_of_mem h]
    exact h
  · rw [registerRemoteMessage_of_notMem h]
    exact mem_ids_register s.remote c.msgId c.modId

/-- The registry only grows. -/
theorem grows_register (p : ProcessorState) (msgId : String) (type : MsgType) :
    (p.register msgId type).1.processor.mModid = p.processor.mModid ∧
      ∀ id, (p.registry.async id).getD [] ⊆
        ((p.register msgId type).1.registry.async id).getD [] := by
  obtain ⟨-, heq⟩ | ⟨-, -, heq⟩ | ⟨-, -, registry, hreg, heq⟩ :=
    ProcessorState.register_cases p msgId type <;> rw [heq]
  · exact ⟨rfl, fun _ => List.Subset.refl _⟩
  · exact ⟨rfl, fun _ => List.Subset.refl _⟩
  · refine ⟨rfl, fun id => ?_⟩
    obtain ⟨-, -, rfl⟩ | ⟨-, -, rfl⟩ := Registry.registerMessage_cases hreg
    · exact List.Subset.refl _
    · by_cases hid : id = msgId
      · subst hid
        simp
      · simp [hid]

theorem Forwards.registerRemoteMessage (h : s.Forwards msgId) (c : RemoteCall) :
    (s.registerRemoteMessage c).1.Forwards msgId := by
  by_cases hmem : c.modId ∈ s.remote.ids c.msgId
  · rw [registerRemoteMessage_of_mem hmem]
    exact h
  · rw [registerRemoteMessage_of_notMem hmem]
    obtain ⟨hmod, hsub⟩ := grows_register s.processor c.msgId c.type
    refine ⟨?_, ?_⟩
    · dsimp only
      split
      · exact List.mem_cons_of_mem _ h.1
      · exact h.1
    · dsimp only
      split
      · rw [hmod]
        exact hsub msgId h.2
      · exact h.2

theorem count_receivers_eq_one_iff :
    (s.receivers msgId).count modId = 1 ↔ s.Forwards msgId ∧ modId ∈ s.remote.ids msgId := by
  rw [receivers]
  by_cases h : s.Forwards msgId
  · rw [if_pos h, and_iff_right h]
    constructor
    · intro hcount
      exact List.count_pos_iff.1 (by omega)
    · exact List.count_eq_one_of_mem (s.remote.nodup msgId)
  · rw [if_neg h]
    exact iff_of_false (by simp) fun h' => h h'.1

/-- What reaches a subscriber goes on reaching it. -/
theorem count_receivers_exec (h : (s.receivers msgId).count modId = 1)
    (hexec : exec step s cs = some t) : (t.receivers msgId).count modId = 1 := by
  rw [count_receivers_eq_one_iff] at h ⊢
  refine exec_induction (I := fun s => s.Forwards msgId ∧ modId ∈ s.remote.ids msgId) ?_ h hexec
  rintro s c s' ⟨hforwards, hmem⟩ hstep
  obtain rfl := Option.some.inj hstep
  refine ⟨hforwards.registerRemoteMessage c, ?_⟩
  by_cases hnoted : c.modId ∈ s.remote.ids c.msgId
  · rw [registerRemoteMessage_of_mem hnoted]
    exact hmem
  · rw [registerRemoteMessage_of_notMem hnoted]
    exact subset_ids_register s.remote c.msgId c.modId msgId hmem

/-! ## Which calls are right -/

theorem subscribed_iff_of_mem (hmem : c.modId ∈ s.remote.ids c.msgId) :
    s.Subscribed c ↔ s.SubscribeOk c := by
  have hcall := registerRemoteMessage_of_mem hmem
  rw [Subscribed, SubscribeOk, hcall]
  constructor
  · rintro ⟨-, hasync⟩
    refine ⟨fun hnot => absurd hmem hnot, fun _ htype => ?_⟩
    exact (count_receivers_eq_one_iff.1 ((hasync htype).2 [] s rfl)).1
  · rintro ⟨-, hforwards⟩
    refine ⟨fun h => (by cases h), fun htype => ⟨rfl, fun cs t hexec => ?_⟩⟩
    exact count_receivers_exec (count_receivers_eq_one_iff.2 ⟨hforwards hmem htype, hmem⟩) hexec

/-- The first call of a module for a message returns if the processor makes the registration. -/
theorem returns_iff_of_notMem (hmem : c.modId ∉ s.remote.ids c.msgId) :
    (s.registerRemoteMessage c).2 = false ↔
      c.msgId ∉ s.processor.processor.mProcessors ∧ s.processor.Accepts c.msgId c.type := by
  rw [registerRemoteMessage_of_notMem hmem]
  dsimp only
  split
  next =>
    obtain ⟨hin, heq⟩ | ⟨hin, hnot, heq⟩ | ⟨hin, haccepts, registry, -, heq⟩ :=
      ProcessorState.register_cases s.processor c.msgId c.type <;> rw [heq]
    · exact iff_of_false (by simp) fun h => h.1 hin
    · exact iff_of_false (by simp) fun h => hnot h.2
    · exact iff_of_true rfl ⟨hin, haccepts⟩
  next htype =>
    refine iff_of_false (by simp) fun h => ?_
    have haccepts := h.2
    cases hc : c.type with
    | async => exact htype (.inl hc)
    | syncReq => exact htype (.inr hc)
    | undef | syncRes =>
      rw [hc] at haccepts
      exact haccepts

/-- When it returns, the adapter forwards the message from then on. -/
theorem forwards_of_returns (hmem : c.modId ∉ s.remote.ids c.msgId) (htype : c.type = .async)
    (hreturns : (s.registerRemoteMessage c).2 = false) :
    (s.registerRemoteMessage c).1.Forwards c.msgId := by
  obtain ⟨hin, haccepts⟩ := (returns_iff_of_notMem hmem).1 hreturns
  rw [registerRemoteMessage_of_notMem hmem]
  refine ⟨by simp [htype, hin], ?_⟩
  dsimp only
  rw [if_pos (.inl htype)]
  obtain ⟨hin', -⟩ | ⟨-, hnot, -⟩ | ⟨-, -, registry, hreg, heq⟩ :=
    ProcessorState.register_cases s.processor c.msgId c.type
  · exact absurd hin' hin
  · exact absurd haccepts hnot
  · rw [heq]
    obtain ⟨hsync, -⟩ | ⟨-, -, rfl⟩ := Registry.registerMessage_cases hreg
    · exact absurd (htype.symm.trans hsync) (by decide)
    · simp

theorem subscribed_iff_of_notMem (hmem : c.modId ∉ s.remote.ids c.msgId) :
    s.Subscribed c ↔ s.SubscribeOk c := by
  have hok : s.SubscribeOk c ↔ (s.registerRemoteMessage c).2 = false := by
    rw [returns_iff_of_notMem hmem]
    exact ⟨fun h => h.1 hmem, fun h => ⟨fun _ => h, fun hnoted => absurd hnoted hmem⟩⟩
  rw [hok]
  constructor
  · rintro ⟨hatomic, -⟩
    by_contra hthrow
    -- a call that throws has noted the module
    have hnoted := mem_ids_registerRemoteMessage s c
    rw [hatomic (by simpa using hthrow)] at hnoted
    exact hmem hnoted
  · intro hreturns
    refine ⟨fun h => absurd (hreturns.symm.trans h) (by decide), fun htype => ⟨hreturns, ?_⟩⟩
    intro cs t hexec
    have hforwards := forwards_of_returns hmem htype hreturns
    have hnoted := mem_ids_registerRemoteMessage s c
    exact count_receivers_exec (count_receivers_eq_one_iff.2 ⟨hforwards, hnoted⟩) hexec

/-- The sequences of calls, by an adapter that has noted no remote module yet, in which every
asynchronous subscription succeeds for good and every call that throws changes nothing. -/
theorem eachStep_subscribed_iff (processor : ProcessorState) (cs : List RemoteCall) :
    EachStep step Subscribed { processor } cs ↔ EachStep step SubscribeOk { processor } cs := by
  apply eachStep_congr (I := fun _ => True) (fun _ _ => trivial) _ trivial
  intro s c _ _ _
  by_cases hmem : c.modId ∈ s.remote.ids c.msgId
  · exact subscribed_iff_of_mem hmem
  · exact subscribed_iff_of_notMem hmem

/-- The second module that subscribes to a message: the call throws, and the module is noted. -/
theorem second_subscription_throws : ¬ EachStep step Subscribed
    { processor := { processor := { mModid := "adapter" }, registry := {} } }
    [⟨"msg", "first", .async⟩, ⟨"msg", "second", .async⟩] := by
  intro h
  obtain ⟨-, h⟩ := h _ rfl
  obtain ⟨⟨-, hasync⟩, -⟩ := h _ rfl
  have hreturns := (hasync rfl).1
  revert hreturns
  decide

end RemoteState

end Kalinka.Adapter
