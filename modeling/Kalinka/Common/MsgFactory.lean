import Mathlib.Data.List.Nodup
import Mathlib.Logic.Function.Basic
import Kalinka.Lib.Run
import Kalinka.Common.Message

/-!
# The message registry

`MessageFactory`: which modules receive which message ids.  Each call holds the factory's own
mutex from beginning to end, so a run of the registry is a sequence of calls.

A run carries the set of registrations that ought to be there: a successful `registerMessage` adds
one, and `unregisterMessage` takes the caller's out.  `throughout_exact_iff` says exactly which
runs keep the registry equal to that set.
-/

namespace Kalinka

open Run Function

/-- `MessageFactory`.  A `std::map` is the function from its keys to its entries. -/
structure MessageFactory where
  mUuid : UUID := 0
  /-- `m_sync_container` -/
  sync : String → Option String := fun _ => none
  /-- `m_async_container` -/
  async : String → Option (List String) := fun _ => none

namespace MessageFactory

/-- `generateUUID`: `m_uuid++`. -/
def generateUUID (f : MessageFactory) : UUID × MessageFactory :=
  (f.mUuid, { f with mUuid := f.mUuid + 1 })

/-- `getMessage`: the message, or `none` for an exception, and the factory afterwards. -/
def getMessage (f : MessageFactory) (id : String) : Option Message × MessageFactory :=
  match f.async id with
  | some receivers =>
    let (uuid, f) := f.generateUUID
    (receivers.foldlM Message.addReceiver { id, uuid, type := .async }, f)
  | none =>
    match f.sync id with
    | none => (none, f)
    | some modId =>
      let (uuid, f) := f.generateUUID
      (Message.addReceiver { id, uuid, type := .syncReq } modId, f)

/-- `hasMessage`. -/
def hasMessage (f : MessageFactory) (id : String) : Bool :=
  (f.async id).isSome || (f.sync id).isSome

/-- `registerMessage`: `none` when it throws, and then nothing was changed: the entry that
`m_async_container[msg_id]` would create is there already. -/
def registerMessage (f : MessageFactory) (msgId modId : String) : MsgType → Option MessageFactory
  | .syncReq =>
    if (f.sync msgId).isSome then none
    else some { f with sync := update f.sync msgId (some modId) }
  | .async =>
    if modId ∈ (f.async msgId).getD [] then none
    else some { f with
      async := update f.async msgId (some ((f.async msgId).getD [] ++ [modId])) }
  | .undef | .syncRes => none

/-- `unregisterMessage`.  The iterator that `erase` gets is valid only if the module is in the
list. -/
def unregisterMessage (f : MessageFactory) (msgId modId : String) : MessageFactory :=
  if (f.sync msgId).isSome then { f with sync := update f.sync msgId none }
  else match f.async msgId with
    | some receivers => { f with async := update f.async msgId (some (receivers.erase modId)) }
    | none => f

end MessageFactory

/-- The registration of a module for a message id as one type. -/
structure Registration where
  msgId : String
  modId : String
  type : MsgType
  deriving DecidableEq, Repr

/-- The registry, and the registrations its callers have made and not taken back. -/
structure Registry where
  factory : MessageFactory := {}
  current : List Registration := []

inductive RegistryAction
  | register (msgId modId : String) (type : MsgType)
  | unregister (msgId modId : String)
  | get (msgId : String)
  deriving DecidableEq, Repr

namespace Registry

/-- A module unregisters only a message id that it has registered. -/
def step (s : Registry) : RegistryAction → Option Registry
  | .register msgId modId type =>
    match s.factory.registerMessage msgId modId type with
    | none => some s
    | some f => some { factory := f, current := ⟨msgId, modId, type⟩ :: s.current }
  | .unregister msgId modId =>
    if ∃ r ∈ s.current, r.msgId = msgId ∧ r.modId = modId then
      some { factory := s.factory.unregisterMessage msgId modId
             current := s.current.filter fun r => ¬ (r.msgId = msgId ∧ r.modId = modId) }
    else none
  | .get msgId => some { s with factory := (s.factory.getMessage msgId).2 }

/-- The registration of `modId` for `msgId` is in the containers of the factory. -/
def Registered (f : MessageFactory) : Registration → Prop
  | ⟨msgId, modId, .syncReq⟩ => f.sync msgId = some modId
  | ⟨msgId, modId, .async⟩ => ∃ receivers, f.async msgId = some receivers ∧ modId ∈ receivers
  | _ => False

/-- The registry holds the current registrations and nothing else, and answers accordingly. -/
structure Exact (s : Registry) : Prop where
  registered : ∀ r, Registered s.factory r ↔ r ∈ s.current
  has : ∀ id, s.factory.hasMessage id = true ↔ ∃ r ∈ s.current, r.msgId = id
  throws : ∀ id, (s.factory.getMessage id).1 = none ↔ s.factory.hasMessage id = false
  receivers : ∀ id msg, (s.factory.getMessage id).1 = some msg →
    msg.receivers.Nodup ∧ msg.receivers ≠ [] ∧
      ∃ type, ∀ modId, modId ∈ msg.receivers ↔ ⟨id, modId, type⟩ ∈ s.current

/-- `unregisterMessage` is not called for an id that another module has registered as synchronous,
nor by a module registered as both types, nor by the last receiver of an asynchronous message. -/
def TakesOne (s : Registry) : RegistryAction → Prop
  | .unregister msgId modId =>
    match s.factory.sync msgId with
    | some owner => owner = modId ∧ ∀ receivers, s.factory.async msgId = some receivers →
        modId ∉ receivers
    | none => s.factory.async msgId ≠ some [modId]
  | _ => True

/-! ## `getMessage` -/

theorem foldlM_addReceiver (receivers : List String) (msg : Message)
    (h : (msg.receivers ++ receivers).Nodup) :
    receivers.foldlM Message.addReceiver msg =
      some { msg with receivers := msg.receivers ++ receivers } := by
  induction receivers generalizing msg with
  | nil => simp
  | cons id rest ih =>
    have hid : id ∉ msg.receivers := fun hm =>
      (List.nodup_append.1 h).2.2 id hm id List.mem_cons_self rfl
    rw [List.foldlM_cons, Message.addReceiver, if_neg hid]
    refine (ih _ ?_).trans ?_
    · simpa using h
    · simp

/-- With receiver lists free of duplicates, `getMessage` finds the asynchronous receivers first,
then the synchronous one. -/
theorem getMessage_fst (f : MessageFactory) (id : String)
    (hn : ∀ receivers, f.async id = some receivers → receivers.Nodup) :
    (f.getMessage id).1 = match f.async id with
      | some receivers => some { id, uuid := f.mUuid, type := .async, receivers }
      | none => (f.sync id).map fun modId =>
          { id, uuid := f.mUuid, type := .syncReq, receivers := [modId] } := by
  unfold MessageFactory.getMessage
  cases ha : f.async id with
  | some receivers => exact foldlM_addReceiver receivers _ (by simpa using hn receivers ha)
  | none => cases hs : f.sync id <;> simp [Message.addReceiver, MessageFactory.generateUUID]

theorem getMessage_snd (f : MessageFactory) (id : String) :
    (f.getMessage id).2.sync = f.sync ∧ (f.getMessage id).2.async = f.async := by
  unfold MessageFactory.getMessage
  split
  · exact ⟨rfl, rfl⟩
  · split <;> exact ⟨rfl, rfl⟩

/-! ## What makes the registry exact -/

variable {s s' : Registry} {a : RegistryAction}

/-- No receiver list names a module twice. -/
def ReceiversNodup (f : MessageFactory) : Prop :=
  ∀ id receivers, f.async id = some receivers → receivers.Nodup

/-- The containers hold the current registrations, and no empty receiver list. -/
structure Matches (s : Registry) : Prop where
  registered : ∀ r, Registered s.factory r ↔ r ∈ s.current
  nonempty : ∀ id, s.factory.async id ≠ some []

theorem hasMessage_eq_true_iff (f : MessageFactory) (id : String) :
    f.hasMessage id = true ↔ (∃ l, f.async id = some l) ∨ ∃ modId, f.sync id = some modId := by
  simp [MessageFactory.hasMessage, Option.isSome_iff_exists]

theorem getMessage_eq_none_iff {f : MessageFactory} (hn : ReceiversNodup f) (id : String) :
    (f.getMessage id).1 = none ↔ f.hasMessage id = false := by
  rw [getMessage_fst f id (hn id), MessageFactory.hasMessage]
  cases f.async id <;> simp

theorem Matches.has (hm : Matches s) (id : String) :
    s.factory.hasMessage id = true ↔ ∃ r ∈ s.current, r.msgId = id := by
  rw [hasMessage_eq_true_iff]
  constructor
  · rintro (⟨_ | ⟨modId, rest⟩, ha⟩ | ⟨modId, hs⟩)
    · exact absurd ha (hm.nonempty id)
    · exact ⟨⟨id, modId, .async⟩, (hm.registered _).1 ⟨_, ha, List.mem_cons_self⟩, rfl⟩
    · exact ⟨⟨id, modId, .syncReq⟩, (hm.registered _).1 hs, rfl⟩
  · rintro ⟨⟨_, modId, type⟩, hr, rfl⟩
    have hreg := (hm.registered _).2 hr
    cases type with
    | syncReq => exact .inr ⟨modId, hreg⟩
    | async =>
      obtain ⟨receivers, ha, -⟩ := hreg
      exact .inl ⟨receivers, ha⟩
    | undef | syncRes => exact hreg.elim

theorem Matches.receivers (hm : Matches s) (hn : ReceiversNodup s.factory) {id : String}
    {msg : Message} (hg : (s.factory.getMessage id).1 = some msg) :
    msg.receivers.Nodup ∧ msg.receivers ≠ [] ∧
      ∃ type, ∀ modId, modId ∈ msg.receivers ↔ ⟨id, modId, type⟩ ∈ s.current := by
  rw [getMessage_fst _ id (hn id)] at hg
  cases ha : s.factory.async id with
  | some receivers =>
    rw [ha] at hg
    obtain rfl := Option.some.inj hg
    refine ⟨hn id receivers ha, fun he => hm.nonempty id (ha.trans (congrArg some he)), .async,
      fun modId => ?_⟩
    rw [← hm.registered]
    simp [Registered, ha]
  | none =>
    rw [ha] at hg
    obtain ⟨owner, hs, rfl⟩ := Option.map_eq_some_iff.1 hg
    refine ⟨List.nodup_singleton owner, List.cons_ne_nil _ _, .syncReq, fun modId => ?_⟩
    rw [← hm.registered]
    simp [Registered, hs, eq_comm]

/-- With receiver lists free of duplicates, exactness is a matter of the containers. -/
theorem exact_iff_matches (hn : ReceiversNodup s.factory) : Exact s ↔ Matches s := by
  constructor
  · intro he
    refine ⟨he.registered, fun id ha => ?_⟩
    have hg := getMessage_fst s.factory id (hn id)
    rw [ha] at hg
    exact (he.receivers id _ hg).2.1 rfl
  · intro hm
    exact ⟨hm.registered, hm.has, getMessage_eq_none_iff hn, fun _ _ => hm.receivers hn⟩

/-! ## Steps -/

/-- A registration that succeeds either takes the free synchronous entry, or adds the module to the
asynchronous receivers. -/
theorem registerMessage_cases {f f' : MessageFactory} {msgId modId : String} {type : MsgType}
    (h : f.registerMessage msgId modId type = some f') :
    type = .syncReq ∧ f.sync msgId = none ∧
        f' = { f with sync := update f.sync msgId (some modId) } ∨
      type = .async ∧ modId ∉ (f.async msgId).getD [] ∧
        f' = { f with
          async := update f.async msgId (some ((f.async msgId).getD [] ++ [modId])) } := by
  cases type with
  | syncReq =>
    simp only [MessageFactory.registerMessage] at h
    split at h
    · cases h
    · rename_i hfree
      exact .inl ⟨rfl, by simpa using hfree, (Option.some.inj h).symm⟩
  | async =>
    simp only [MessageFactory.registerMessage] at h
    split at h
    · cases h
    · exact .inr ⟨rfl, ‹_›, (Option.some.inj h).symm⟩
  | undef | syncRes => cases h

theorem ReceiversNodup.update {f : MessageFactory} (hn : ReceiversNodup f) {msgId : String}
    {l : List String} (hl : l.Nodup) :
    ReceiversNodup { f with async := Function.update f.async msgId (some l) } := by
  intro id receivers ha
  dsimp only at ha
  by_cases hid : id = msgId
  · subst hid
    rw [update_self] at ha
    exact Option.some.inj ha ▸ hl
  · rw [update_of_ne hid] at ha
    exact hn id receivers ha

theorem ReceiversNodup.registerMessage {f f' : MessageFactory} (hn : ReceiversNodup f)
    {msgId modId : String} {type : MsgType} (h : f.registerMessage msgId modId type = some f') :
    ReceiversNodup f' := by
  rcases registerMessage_cases h with ⟨-, -, rfl⟩ | ⟨-, hnew, rfl⟩
  · exact hn
  · have hold : ((f.async msgId).getD []).Nodup := by
      cases hl : f.async msgId with
      | none => exact List.nodup_nil
      | some l => exact hn msgId l hl
    have hnodup : ((f.async msgId).getD [] ++ [modId]).Nodup :=
      hold.append (List.nodup_singleton modId) (by simpa using hnew)
    exact hn.update hnodup

theorem ReceiversNodup.unregisterMessage {f : MessageFactory} (hn : ReceiversNodup f)
    (msgId modId : String) : ReceiversNodup (f.unregisterMessage msgId modId) := by
  unfold MessageFactory.unregisterMessage
  split
  · exact hn
  split
  · exact hn.update ((hn msgId _ ‹_›).erase modId)
  · exact hn

theorem ReceiversNodup.step (hn : ReceiversNodup s.factory) (h : s.step a = some s') :
    ReceiversNodup s'.factory := by
  cases a with
  | get msgId =>
    obtain rfl := Option.some.inj h
    intro id receivers ha
    exact hn id receivers ((getMessage_snd s.factory msgId).2 ▸ ha)
  | register msgId modId type =>
    simp only [Registry.step] at h
    split at h
    · exact Option.some.inj h ▸ hn
    · exact Option.some.inj h ▸ hn.registerMessage ‹_›
  | unregister msgId modId =>
    simp only [Registry.step] at h
    split at h
    · exact Option.some.inj h ▸ hn.unregisterMessage msgId modId
    · cases h

/-- A registration adds itself to the containers, and nothing else. -/
theorem registered_registerMessage {f f' : MessageFactory} {msgId modId : String} {type : MsgType}
    (h : f.registerMessage msgId modId type = some f') (r : Registration) :
    Registered f' r ↔ r = ⟨msgId, modId, type⟩ ∨ Registered f r := by
  obtain ⟨id, m, t⟩ := r
  rcases registerMessage_cases h with ⟨rfl, hfree, rfl⟩ | ⟨rfl, -, rfl⟩
  · cases t <;> simp only [Registered, Registration.mk.injEq, reduceCtorEq, and_false, false_or]
    by_cases hid : id = msgId
    · subst hid
      simp [hfree, eq_comm]
    · simp [hid]
  · cases t <;> simp only [Registered, Registration.mk.injEq, reduceCtorEq, and_false, false_or]
    by_cases hid : id = msgId
    · subst hid
      cases f.async id <;> simp [or_comm]
    · simp [hid]

theorem nonempty_registerMessage {f f' : MessageFactory} {msgId modId : String} {type : MsgType}
    (hne : ∀ id, f.async id ≠ some []) (h : f.registerMessage msgId modId type = some f')
    (id : String) : f'.async id ≠ some [] := by
  rcases registerMessage_cases h with ⟨-, -, rfl⟩ | ⟨-, -, rfl⟩
  · exact hne id
  · by_cases hid : id = msgId
    · subst hid
      simp
    · simpa [hid] using hne id

theorem matches_register (hm : Matches s) {msgId modId : String} {type : MsgType}
    (h : s.step (.register msgId modId type) = some s') : Matches s' := by
  simp only [Registry.step] at h
  split at h
  · exact Option.some.inj h ▸ hm
  rename_i f hf
  obtain rfl := Option.some.inj h
  refine ⟨fun r => ?_, nonempty_registerMessage hm.nonempty hf⟩
  rw [registered_registerMessage hf, hm.registered, List.mem_cons]

theorem matches_get (hm : Matches s) {msgId : String}
    (h : s.step (.get msgId) = some s') : Matches s' := by
  obtain rfl := Option.some.inj h
  obtain ⟨hs, ha⟩ := getMessage_snd s.factory msgId
  refine ⟨fun r => ?_, fun id => ?_⟩
  · rw [← hm.registered]
    obtain ⟨id, m, t⟩ := r
    cases t <;> simp [Registered, hs, ha]
  · simpa [ha] using hm.nonempty id

/-- An unregistration takes a synchronous registration, whoever made it. -/
theorem registered_unregisterMessage_sync {f : MessageFactory} {msgId owner : String}
    (hs : f.sync msgId = some owner) (modId : String) (r : Registration) :
    Registered (f.unregisterMessage msgId modId) r ↔
      Registered f r ∧ r ≠ ⟨msgId, owner, .syncReq⟩ := by
  obtain ⟨id, m, t⟩ := r
  simp only [MessageFactory.unregisterMessage, hs, Option.isSome_some, if_true]
  cases t <;> simp only [Registered, ne_eq, Registration.mk.injEq, reduceCtorEq, and_false,
    not_false_eq_true, and_true]
  by_cases hid : id = msgId
  · subst hid
    simp [hs, eq_comm]
  · simp [hid]

/-- Without a synchronous registration it takes the caller's asynchronous one. -/
theorem registered_unregisterMessage_async {f : MessageFactory} (hn : ReceiversNodup f)
    {msgId : String} {l : List String} (hs : f.sync msgId = none) (ha : f.async msgId = some l)
    (modId : String) (r : Registration) :
    Registered (f.unregisterMessage msgId modId) r ↔
      Registered f r ∧ r ≠ ⟨msgId, modId, .async⟩ := by
  obtain ⟨id, m, t⟩ := r
  simp only [MessageFactory.unregisterMessage, hs, ha, Option.isSome_none, if_false,
    Bool.false_eq_true]
  cases t <;> simp only [Registered, ne_eq, Registration.mk.injEq, reduceCtorEq, and_false,
    not_false_eq_true, and_true]
  by_cases hid : id = msgId
  · subst hid
    simp [ha, (hn id l ha).mem_erase_iff, and_comm]
  · simp [hid]

/-- The containers lose the registrations with `P` and the current ones those of `modId` for
`msgId`: they go on agreeing exactly when these are the same. -/
theorem registered_filter_iff (hm : Matches s) {f : MessageFactory} (msgId modId : String)
    {P : Registration → Prop} (hf : ∀ r, Registered f r ↔ Registered s.factory r ∧ ¬ P r) :
    (∀ r, Registered f r ↔
        r ∈ s.current.filter fun r => ¬ (r.msgId = msgId ∧ r.modId = modId)) ↔
      ∀ r, Registered s.factory r → (P r ↔ r.msgId = msgId ∧ r.modId = modId) := by
  apply forall_congr'
  intro r
  rw [hf, List.mem_filter, ← hm.registered, decide_eq_true_eq, and_congr_right_iff]
  exact imp_congr_right fun _ => not_iff_not

theorem matches_unregister_sync (hm : Matches s) {msgId modId owner : String}
    (hs : s.factory.sync msgId = some owner) (h : s.step (.unregister msgId modId) = some s') :
    Matches s' ↔ TakesOne s (.unregister msgId modId) := by
  simp only [Registry.step] at h
  split at h
  case isFalse => cases h
  obtain rfl := Option.some.inj h
  have hne : ∀ id, (s.factory.unregisterMessage msgId modId).async id ≠ some [] := by
    simpa [MessageFactory.unregisterMessage, hs] using hm.nonempty
  have hreg := registered_filter_iff hm msgId modId
    fun r => registered_unregisterMessage_sync hs modId r
  simp only [TakesOne, hs]
  constructor
  · intro hm'
    have hall := hreg.1 hm'.registered
    refine ⟨((hall ⟨msgId, owner, .syncReq⟩ hs).1 rfl).2, fun receivers ha hmem => ?_⟩
    cases (hall ⟨msgId, modId, .async⟩ ⟨receivers, ha, hmem⟩).2 ⟨rfl, rfl⟩
  · rintro ⟨rfl, hno⟩
    refine ⟨hreg.2 fun r hr => ?_, hne⟩
    obtain ⟨id, m, t⟩ := r
    cases t with
    | syncReq => simp
    | async =>
      obtain ⟨receivers, ha, hmem⟩ := hr
      simp only [Registration.mk.injEq, reduceCtorEq, and_false, false_iff]
      rintro ⟨rfl, rfl⟩
      exact hno receivers ha hmem
    | undef | syncRes => exact hr.elim

theorem matches_unregister_async (hm : Matches s) (hn : ReceiversNodup s.factory)
    {msgId modId : String} (hs : s.factory.sync msgId = none)
    (h : s.step (.unregister msgId modId) = some s') :
    Matches s' ↔ TakesOne s (.unregister msgId modId) := by
  simp only [Registry.step] at h
  split at h
  case isFalse => cases h
  rename_i hown
  obtain rfl := Option.some.inj h
  -- the caller's own registration can only be an asynchronous one
  obtain ⟨l, ha, hmem⟩ : ∃ l, s.factory.async msgId = some l ∧ modId ∈ l := by
    obtain ⟨⟨id, m, t⟩, hr, rfl, rfl⟩ := hown
    have hreg := (hm.registered _).2 hr
    cases t with
    | syncReq => exact absurd (hs.symm.trans hreg) (by simp)
    | async => exact hreg
    | undef | syncRes => exact hreg.elim
  have hf : (s.factory.unregisterMessage msgId modId).async =
      update s.factory.async msgId (some (l.erase modId)) := by
    simp [MessageFactory.unregisterMessage, hs, ha]
  have hreg := (registered_filter_iff hm msgId modId
    fun r => registered_unregisterMessage_async hn hs ha modId r).2 <| by
      rintro ⟨id, m, t⟩ hr
      cases t with
      | syncReq =>
        simp only [Registration.mk.injEq, reduceCtorEq, and_false, false_iff]
        rintro ⟨rfl, rfl⟩
        exact absurd (hs.symm.trans hr) (by simp)
      | async => simp
      | undef | syncRes => exact hr.elim
  have herase : l.erase modId = [] ↔ l = [modId] := by
    rw [List.erase_eq_nil_iff]
    exact or_iff_right fun hl => by simp [hl] at hmem
  simp only [TakesOne, hs, ha, ne_eq, Option.some.injEq]
  rw [← herase]
  constructor
  · intro hm' he
    exact hm'.nonempty msgId (by simp [hf, he])
  · intro hne
    refine ⟨hreg, fun id => ?_⟩
    rw [hf]
    by_cases hid : id = msgId
    · simpa [hid] using hne
    · simpa [hid] using hm.nonempty id

/-- One call keeps the registry exact exactly when it meets `TakesOne`. -/
theorem exact_step_iff (hn : ReceiversNodup s.factory) (he : Exact s) (h : s.step a = some s') :
    Exact s' ↔ TakesOne s a := by
  rw [exact_iff_matches (hn.step h)]
  have hm := (exact_iff_matches hn).1 he
  cases a with
  | register msgId modId type => exact iff_of_true (matches_register hm h) trivial
  | get msgId => exact iff_of_true (matches_get hm h) trivial
  | unregister msgId modId =>
    cases hs : s.factory.sync msgId with
    | some owner => exact matches_unregister_sync hm hs h
    | none => exact matches_unregister_async hm hn hs h

/-- A sequence of calls keeps the registry exact exactly when its unregistrations all meet
`TakesOne`. -/
theorem throughout_exact_iff (as : List RegistryAction) :
    Throughout step Exact {} as ↔ EachStep step TakesOne {} as := by
  have hn : ReceiversNodup ({} : Registry).factory := fun _ _ ha => by cases ha
  have hm : Matches {} := ⟨fun ⟨_, _, t⟩ => by cases t <;> simp [Registered], fun _ => by simp⟩
  exact throughout_iff_eachStep (I := fun s => ReceiversNodup s.factory) (fun hn h => hn.step h)
    exact_step_iff hn ((exact_iff_matches hn).2 hm)

/-- The last receiver unregisters, and the message is still there, now with no receiver. -/
theorem last_receiver_leaves_message :
    ∃ s, exec step {} [.register "m" "A" .async, .unregister "m" "A"] = some s ∧
      s.current = [] ∧ s.factory.hasMessage "m" = true ∧
      (s.factory.getMessage "m").1 = some { id := "m", uuid := 0, type := .async } :=
  ⟨_, rfl, by decide, by decide, by decide⟩

end Registry

end Kalinka
