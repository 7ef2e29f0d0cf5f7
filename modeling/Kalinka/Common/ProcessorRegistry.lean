import Kalinka.Common.MsgFactory

/-!
# Processors and the message registry

A `Processor` keeps a map of its messages, and tells the registry of all modules about each.  The
entry in the map comes first, and stays if the registry refuses the message; the destructor takes
back whatever is in the map.

`registration_iff` says which calls that throw change nothing, and in which runs a module takes back
exactly its own registrations when its processor is destroyed.
-/

namespace Kalinka

open Run Function Registry

/-- `cli::ICommand` -/
structure CliCommand where
  name : String
  messageId : String
  deriving DecidableEq, Repr

/-- `Processor`.  The functions in the map are left out. -/
structure Processor where
  mModid : String
  /-- the keys of `m_processors` -/
  mProcessors : List String := []
  mClicommands : List CliCommand := []
  deriving DecidableEq, Repr

/-- A processor and the registry. -/
structure ProcessorState where
  processor : Processor
  registry : MessageFactory

/-- The pointer to a command may be empty. -/
inductive ProcessorCall
  | registerASync (msgid : String)
  | registerSync (msgid : String)
  | registerCLI (command : Option CliCommand)
  deriving DecidableEq, Repr

namespace ProcessorState

/-- `registerASync` and `registerSync`: the state afterwards, and whether the call throws. -/
def register (s : ProcessorState) (msgid : String) (type : MsgType) : ProcessorState × Bool :=
  if msgid ∈ s.processor.mProcessors then (s, true)
  else
    let s := { s with processor.mProcessors := s.processor.mProcessors ++ [msgid] }
    match s.registry.registerMessage msgid s.processor.mModid type with
    | none => (s, true)
    | some registry => ({ s with registry }, false)

def registerASync (s : ProcessorState) (msgid : String) : ProcessorState × Bool :=
  s.register msgid .async

def registerSync (s : ProcessorState) (msgid : String) : ProcessorState × Bool :=
  s.register msgid .syncReq

def registerCLI (s : ProcessorState) : Option CliCommand → ProcessorState × Bool
  | none => (s, true)
  | some command =>
    if ∃ c ∈ s.processor.mClicommands, c.name = command.name then (s, true)
    else
      registerSync { s with processor.mClicommands := s.processor.mClicommands ++ [command] }
        command.messageId

def call (s : ProcessorState) : ProcessorCall → ProcessorState × Bool
  | .registerASync msgid => s.registerASync msgid
  | .registerSync msgid => s.registerSync msgid
  | .registerCLI command => s.registerCLI command

/-- The iterator that `unregisterMessage` erases is valid. -/
def eraseOk (f : MessageFactory) (msgid modid : String) : Bool :=
  (f.sync msgid).isSome || match f.async msgid with
    | some receivers => modid ∈ receivers
    | none => true

/-- `unregisterAll`; `none` when `erase` gets the end of a list. -/
def unregisterAll (s : ProcessorState) : Option MessageFactory :=
  s.processor.mProcessors.foldlM (fun f msgid =>
    if eraseOk f msgid s.processor.mModid then some (f.unregisterMessage msgid s.processor.mModid)
    else none) s.registry

/-- A call that throws leaves the processor and the registry as they were. -/
def Atomic (s : ProcessorState) (c : ProcessorCall) : Prop := (s.call c).2 = true → (s.call c).1 = s

/-- The registry takes a message of the processor. -/
def Accepts (s : ProcessorState) (msgid : String) : MsgType → Prop
  | .syncReq => s.registry.sync msgid = none
  | .async => s.processor.mModid ∉ (s.registry.async msgid).getD []
  | _ => False

/-- The call throws at once, or does not throw: the message is in the map already, or the registry
takes it; for a command its name is taken, or both the map and the registry are free. -/
def CallOk (s : ProcessorState) : ProcessorCall → Prop
  | .registerASync msgid => msgid ∈ s.processor.mProcessors ∨ s.Accepts msgid .async
  | .registerSync msgid => msgid ∈ s.processor.mProcessors ∨ s.Accepts msgid .syncReq
  | .registerCLI none => True
  | .registerCLI (some command) => (∃ c ∈ s.processor.mClicommands, c.name = command.name) ∨
      command.messageId ∉ s.processor.mProcessors ∧ s.Accepts command.messageId .syncReq

end ProcessorState

/-- The processors of all modules, by module id, and their registry.  `corrupt` is set when `erase`
has got the end of a list. -/
structure ProcessorSystem where
  registry : MessageFactory := {}
  processor : String → Option Processor := fun _ => none
  corrupt : Bool := false

inductive ProcessorAction
  | create (modid : String)
  | call (modid : String) (c : ProcessorCall)
  | destroy (modid : String)
  deriving DecidableEq, Repr

namespace ProcessorSystem

def step (s : ProcessorSystem) (a : ProcessorAction) : Option ProcessorSystem :=
  if s.corrupt then none
  else match a with
    | .create modid => match s.processor modid with
      | none => some { s with processor := update s.processor modid (some { mModid := modid }) }
      | some _ => none
    | .call modid c => (s.processor modid).map fun processor =>
      let after := (ProcessorState.call { processor, registry := s.registry } c).1
      { s with
        registry := after.registry
        processor := update s.processor modid (some after.processor) }
    | .destroy modid => (s.processor modid).map fun processor =>
      let s' := { s with processor := update s.processor modid none }
      match ProcessorState.unregisterAll { processor, registry := s.registry } with
      | some registry => { s' with registry }
      | none => { s' with corrupt := true }

/-- A destroyed processor has taken back the registrations of its module, and no other ones. -/
def DestroyExact (s : ProcessorSystem) : ProcessorAction → Prop
  | .destroy modid => ∀ s', s.step (.destroy modid) = some s' → s'.corrupt = false ∧
      ∀ r, Registered s'.registry r ↔ Registered s.registry r ∧ r.modId ≠ modid
  | _ => True

/-- The condition under which it has: for each message in its map the module is the synchronous
receiver and no asynchronous one, or there is no synchronous one and it is among the asynchronous
ones, if there is a list; for the other messages it is no receiver. -/
def DestroyOk (s : ProcessorSystem) : ProcessorAction → Prop
  | .destroy modid => ∀ processor, s.processor modid = some processor →
      (∀ msgid ∈ processor.mProcessors, match s.registry.sync msgid with
        | some owner => owner = modid ∧ modid ∉ (s.registry.async msgid).getD []
        | none => ∀ receivers, s.registry.async msgid = some receivers → modid ∈ receivers) ∧
      ∀ msgid ∉ processor.mProcessors, s.registry.sync msgid ≠ some modid ∧
        modid ∉ (s.registry.async msgid).getD []
  | _ => True

end ProcessorSystem

variable {f f' : MessageFactory} {msgid modid : String} {msgids : List String}

/-! ## One registration -/

namespace ProcessorState

variable {s : ProcessorState} {type : MsgType}

theorem registerMessage_eq_none_iff :
    s.registry.registerMessage msgid s.processor.mModid type = none ↔ ¬ s.Accepts msgid type := by
  cases type with
  | syncReq =>
    rw [MessageFactory.registerMessage, Accepts]
    cases s.registry.sync msgid <;> simp
  | async =>
    rw [MessageFactory.registerMessage, Accepts]
    split <;> simp_all
  | undef | syncRes => exact iff_of_true rfl id

/-- What a call does: it throws at once, adds the message to the map and throws, or adds it to the
map and to the registry. -/
theorem register_cases (s : ProcessorState) (msgid : String) (type : MsgType) :
    msgid ∈ s.processor.mProcessors ∧ s.register msgid type = (s, true) ∨
    msgid ∉ s.processor.mProcessors ∧ ¬ s.Accepts msgid type ∧ s.register msgid type =
      ({ s with processor.mProcessors := s.processor.mProcessors ++ [msgid] }, true) ∨
    msgid ∉ s.processor.mProcessors ∧ s.Accepts msgid type ∧
      ∃ registry, s.registry.registerMessage msgid s.processor.mModid type = some registry ∧
        s.register msgid type =
          ({ processor := { s.processor with mProcessors := s.processor.mProcessors ++ [msgid] }
             registry }, false) := by
  rw [register]
  by_cases hmem : msgid ∈ s.processor.mProcessors
  · exact .inl ⟨hmem, if_pos hmem⟩
  · rw [if_neg hmem]
    cases hreg : s.registry.registerMessage msgid s.processor.mModid type with
    | none => exact .inr (.inl ⟨hmem, registerMessage_eq_none_iff.1 hreg, by simp [hreg]⟩)
    | some registry =>
      have haccepts : s.Accepts msgid type := by
        by_contra hnot
        rw [registerMessage_eq_none_iff.2 hnot] at hreg
        cases hreg
      exact .inr (.inr ⟨hmem, haccepts, registry, rfl, by simp [hreg]⟩)

theorem mProcessors_append_ne (s : ProcessorState) (msgid : String) :
    { s with processor.mProcessors := s.processor.mProcessors ++ [msgid] } ≠ s := by
  intro h
  simpa using congrArg (fun s => s.processor.mProcessors.length) h

theorem atomic_register_iff : ((s.register msgid type).2 = true → (s.register msgid type).1 = s) ↔
    msgid ∈ s.processor.mProcessors ∨ s.Accepts msgid type := by
  obtain ⟨hmem, heq⟩ | ⟨hmem, hnot, heq⟩ | ⟨hmem, haccepts, registry, -, heq⟩ :=
    register_cases s msgid type
  · exact iff_of_true (fun _ => by rw [heq]) (.inl hmem)
  · rw [heq]
    apply iff_of_false
    · exact fun h => mProcessors_append_ne s msgid (h rfl)
    · rintro (h | h)
      · exact hmem h
      · exact hnot h
  · refine iff_of_true (fun h => ?_) (.inr haccepts)
    rw [heq] at h
    cases h

/-- A command stays in the list when its message cannot be registered. -/
theorem atomic_registerCLI_iff (command : CliCommand) :
    s.Atomic (.registerCLI (some command)) ↔ s.CallOk (.registerCLI (some command)) := by
  rw [Atomic, call, registerCLI, CallOk]
  by_cases hname : ∃ c ∈ s.processor.mClicommands, c.name = command.name
  · rw [if_pos hname]
    exact iff_of_true (fun _ => rfl) (.inl hname)
  · rw [if_neg hname, or_iff_right hname, registerSync]
    have hne : ∀ s' : ProcessorState,
        s'.processor.mClicommands = s.processor.mClicommands ++ [command] → s' ≠ s := by
      rintro s' hs' rfl
      simpa using congrArg List.length hs'
    obtain ⟨hmem, heq⟩ | ⟨hmem, hnot, heq⟩ | ⟨hmem, haccepts, registry, -, heq⟩ := register_cases
      { s with processor.mClicommands := s.processor.mClicommands ++ [command] }
      command.messageId .syncReq
    · rw [heq]
      exact iff_of_false (fun h => hne _ rfl (h rfl)) fun h => h.1 hmem
    · rw [heq]
      exact iff_of_false (fun h => hne _ rfl (h rfl)) fun h => hnot h.2
    · rw [heq]
      exact iff_of_true nofun ⟨hmem, haccepts⟩

theorem atomic_iff (s : ProcessorState) (c : ProcessorCall) : s.Atomic c ↔ s.CallOk c := by
  cases c with
  | registerASync msgid => exact atomic_register_iff
  | registerSync msgid => exact atomic_register_iff
  | registerCLI command =>
    cases command with
    | none => exact iff_of_true (fun _ => rfl) trivial
    | some command => exact atomic_registerCLI_iff command

/-! ## The destructor -/

theorem sync_unregisterMessage (f : MessageFactory) (msgid modid id : String) :
    (f.unregisterMessage msgid modid).sync id = if id = msgid then none else f.sync id := by
  unfold MessageFactory.unregisterMessage
  by_cases hid : id = msgid
  · subst hid
    cases hs : f.sync id with
    | some owner => simp
    | none => cases ha : f.async id <;> simp [hs]
  · cases hs : f.sync msgid with
    | some owner => simp [hid]
    | none => cases ha : f.async msgid <;> simp [hid]

theorem async_unregisterMessage (f : MessageFactory) (msgid modid id : String) :
    (f.unregisterMessage msgid modid).async id =
      if id = msgid ∧ f.sync id = none then (f.async id).map fun receivers => receivers.erase modid
      else f.async id := by
  unfold MessageFactory.unregisterMessage
  by_cases hid : id = msgid
  · subst hid
    cases hs : f.sync id with
    | some owner => simp
    | none => cases ha : f.async id <;> simp [ha]
  · cases hs : f.sync msgid with
    | some owner => simp [hid]
    | none => cases ha : f.async msgid <;> simp [hid]

/-- The loop of `unregisterAll`. -/
def unregister (modid : String) (f : MessageFactory) (msgids : List String) :
    Option MessageFactory :=
  msgids.foldlM (fun f msgid =>
    if eraseOk f msgid modid then some (f.unregisterMessage msgid modid) else none) f

/-- The messages of the map are unregistered one by one, without an effect on each other. -/
theorem unregister_eq_some (hnodup : msgids.Nodup)
    (hok : ∀ msgid ∈ msgids, eraseOk f msgid modid = true) :
    ∃ f', unregister modid f msgids = some f' ∧
      (∀ id, f'.sync id = if id ∈ msgids then none else f.sync id) ∧
      ∀ id, f'.async id = if id ∈ msgids ∧ f.sync id = none then
        (f.async id).map fun receivers => receivers.erase modid else f.async id := by
  induction msgids generalizing f with
  | nil => exact ⟨f, rfl, by simp, by simp⟩
  | cons msgid msgids ih =>
    obtain ⟨hnot, hnodup⟩ := List.nodup_cons.1 hnodup
    obtain ⟨hfirst, hrest⟩ := List.forall_mem_cons.1 hok
    have hother : ∀ id ∈ msgids, (f.unregisterMessage msgid modid).sync id = f.sync id ∧
        (f.unregisterMessage msgid modid).async id = f.async id := by
      intro id hid
      have hne : id ≠ msgid := ne_of_mem_of_not_mem hid hnot
      rw [sync_unregisterMessage, async_unregisterMessage, if_neg hne,
        if_neg fun h => hne h.1]
      exact ⟨rfl, rfl⟩
    have hrest' : ∀ id ∈ msgids, eraseOk (f.unregisterMessage msgid modid) id modid = true := by
      intro id hid
      rw [eraseOk, (hother id hid).1, (hother id hid).2]
      exact hrest id hid
    obtain ⟨f', hf', hsync, hasync⟩ := ih hnodup hrest'
    refine ⟨f', ?_, fun id => ?_, fun id => ?_⟩
    · rw [unregister, List.foldlM_cons, if_pos hfirst]
      exact hf'
    · rw [hsync, sync_unregisterMessage]
      by_cases hid : id = msgid
      · simp [hid]
      · simp [hid]
    · rw [hasync]
      by_cases hid : id = msgid
      · subst hid
        rw [if_neg fun h => hnot h.1, async_unregisterMessage]
        simp
      · by_cases hmem : id ∈ msgids
        · rw [(hother id hmem).1, (hother id hmem).2]
          simp [hmem]
        · rw [if_neg fun h => hmem h.1, async_unregisterMessage, if_neg fun h => hid h.1]
          simp [hid, hmem]

theorem unregister_eq_none (hnodup : msgids.Nodup) (hmem : msgid ∈ msgids)
    (hok : eraseOk f msgid modid = false) : unregister modid f msgids = none := by
  induction msgids generalizing f with
  | nil => cases hmem
  | cons id msgids ih =>
    obtain ⟨hnot, hnodup⟩ := List.nodup_cons.1 hnodup
    rw [unregister, List.foldlM_cons]
    by_cases hid : eraseOk f id modid = true
    · rw [if_pos hid]
      obtain rfl | hmem := List.mem_cons.1 hmem
      · exact absurd (hid.symm.trans hok) (by decide)
      · have hne : msgid ≠ id := ne_of_mem_of_not_mem hmem hnot
        apply ih hnodup hmem
        rw [eraseOk, sync_unregisterMessage, async_unregisterMessage, if_neg hne,
          if_neg fun h => hne h.1]
        exact hok
    · rw [if_neg hid]
      rfl

end ProcessorState

namespace ProcessorSystem

variable {s s' : ProcessorSystem} {a : ProcessorAction}

/-- No list of receivers names a module twice, a processor has the id of its module, and no map has
a message twice. -/
structure WellFormed (s : ProcessorSystem) : Prop where
  receivers : ReceiversNodup s.registry
  processor : ∀ modid p, s.processor modid = some p → p.mModid = modid ∧ p.mProcessors.Nodup

theorem wellFormed_register {t : ProcessorState} {type : MsgType} (ht : ReceiversNodup t.registry)
    (hkeys : t.processor.mProcessors.Nodup) :
    ReceiversNodup (t.register msgid type).1.registry ∧
      (t.register msgid type).1.processor.mModid = t.processor.mModid ∧
      (t.register msgid type).1.processor.mProcessors.Nodup := by
  have happend : msgid ∉ t.processor.mProcessors →
      (t.processor.mProcessors ++ [msgid]).Nodup := by
    intro hmem
    exact hkeys.append (List.nodup_singleton _) (by simpa using hmem)
  obtain ⟨-, heq⟩ | ⟨hmem, -, heq⟩ | ⟨hmem, -, registry, hreg, heq⟩ :=
    ProcessorState.register_cases t msgid type <;> rw [heq]
  · exact ⟨ht, rfl, hkeys⟩
  · exact ⟨ht, rfl, happend hmem⟩
  · exact ⟨ht.registerMessage hreg, rfl, happend hmem⟩

theorem wellFormed_call {t : ProcessorState} (ht : ReceiversNodup t.registry)
    (hkeys : t.processor.mProcessors.Nodup) (c : ProcessorCall) :
    ReceiversNodup (t.call c).1.registry ∧
      (t.call c).1.processor.mModid = t.processor.mModid ∧
      (t.call c).1.processor.mProcessors.Nodup := by
  cases c with
  | registerASync msgid => exact wellFormed_register ht hkeys
  | registerSync msgid => exact wellFormed_register ht hkeys
  | registerCLI command =>
    cases command with
    | none => exact ⟨ht, rfl, hkeys⟩
    | some command =>
      rw [ProcessorState.call, ProcessorState.registerCLI]
      split
      · exact ⟨ht, rfl, hkeys⟩
      · exact wellFormed_register (t := { t with
          processor.mClicommands := t.processor.mClicommands ++ [command] }) ht hkeys

/-- What an action does, while the registry is sound. -/
theorem step_cases (h : s.step a = some s') : s.corrupt = false ∧ (
    (∃ modid, a = .create modid ∧ s.processor modid = none ∧
      s' = { s with processor := update s.processor modid (some { mModid := modid }) }) ∨
    (∃ modid c processor, a = .call modid c ∧ s.processor modid = some processor ∧
      s' = { s with
        registry := (ProcessorState.call { processor, registry := s.registry } c).1.registry
        processor := update s.processor modid
          (some (ProcessorState.call { processor, registry := s.registry } c).1.processor) }) ∨
    ∃ modid processor, a = .destroy modid ∧ s.processor modid = some processor ∧
      ((∃ registry,
        ProcessorState.unregister processor.mModid s.registry processor.mProcessors =
          some registry ∧
        s' = { s with registry, processor := update s.processor modid none }) ∨
      ProcessorState.unregister processor.mModid s.registry processor.mProcessors = none ∧
        s' = { s with processor := update s.processor modid none, corrupt := true })) := by
  unfold step at h
  split at h
  · cases h
  next hcorrupt =>
  refine ⟨by simpa using hcorrupt, ?_⟩
  cases a with
  | create modid =>
    left
    simp only at h
    split at h
    next hnone => exact ⟨modid, rfl, hnone, (Option.some.inj h).symm⟩
    next => cases h
  | call modid c =>
    right; left
    obtain ⟨processor, hproc, heq⟩ := Option.map_eq_some_iff.1 h
    exact ⟨modid, c, processor, rfl, hproc, heq.symm⟩
  | destroy modid =>
    right; right
    obtain ⟨processor, hproc, heq⟩ := Option.map_eq_some_iff.1 h
    refine ⟨modid, processor, rfl, hproc, ?_⟩
    cases hun : ProcessorState.unregister processor.mModid s.registry processor.mProcessors with
    | some registry =>
      left
      have hall : ProcessorState.unregisterAll { processor, registry := s.registry } =
          some registry := hun
      rw [hall] at heq
      exact ⟨registry, rfl, heq.symm⟩
    | none =>
      right
      have hall : ProcessorState.unregisterAll { processor, registry := s.registry } = none := hun
      rw [hall] at heq
      exact ⟨rfl, heq.symm⟩

theorem ReceiversNodup.unregister {modid : String} (hf : ReceiversNodup f)
    (h : ProcessorState.unregister modid f msgids = some f') : ReceiversNodup f' := by
  induction msgids generalizing f with
  | nil => exact Option.some.inj h ▸ hf
  | cons msgid msgids ih =>
    rw [ProcessorState.unregister, List.foldlM_cons] at h
    split at h
    · exact ih (hf.unregisterMessage msgid modid) h
    · cases h

theorem WellFormed.step (hs : s.WellFormed) (h : s.step a = some s') : s'.WellFormed := by
  have hupdate (modid : String) (new : Option Processor)
      (hnew : ∀ p, new = some p → p.mModid = modid ∧ p.mProcessors.Nodup) :
      ∀ id q, update s.processor modid new id = some q → q.mModid = id ∧ q.mProcessors.Nodup := by
    apply (forall_update_iff s.processor fun id x =>
      ∀ q, x = some q → q.mModid = id ∧ q.mProcessors.Nodup).2
    exact ⟨hnew, fun id _ => hs.processor id⟩
  obtain ⟨-, ⟨modid, rfl, -, rfl⟩ | ⟨modid, c, processor, rfl, hproc, rfl⟩ |
    ⟨modid, processor, rfl, -, hend⟩⟩ := step_cases h
  · refine ⟨hs.receivers, hupdate modid _ fun p hp => ?_⟩
    obtain rfl := Option.some.inj hp
    exact ⟨rfl, List.nodup_nil⟩
  · obtain ⟨hmod, hkeys⟩ := hs.processor modid processor hproc
    obtain ⟨hreg, hmod', hkeys'⟩ :=
      wellFormed_call (t := { processor, registry := s.registry }) hs.receivers hkeys c
    refine ⟨hreg, hupdate modid _ fun p hp => ?_⟩
    obtain rfl := Option.some.inj hp
    exact ⟨hmod'.trans hmod, hkeys'⟩
  · have hold := hupdate modid none nofun
    obtain ⟨registry, hun, rfl⟩ | ⟨-, rfl⟩ := hend
    · exact ⟨ReceiversNodup.unregister hs.receivers hun, hold⟩
    · exact ⟨hs.receivers, hold⟩

/-- The registrations, message by message. -/
theorem forall_registered_iff : (∀ r, Registered f' r ↔ Registered f r ∧ r.modId ≠ modid) ↔
    ∀ id, (∀ owner, f'.sync id = some owner ↔ f.sync id = some owner ∧ owner ≠ modid) ∧
      ∀ receiver, receiver ∈ (f'.async id).getD [] ↔
        receiver ∈ (f.async id).getD [] ∧ receiver ≠ modid := by
  have hasync : ∀ (f : MessageFactory) (id receiver : String),
      Registered f ⟨id, receiver, .async⟩ ↔ receiver ∈ (f.async id).getD [] := by
    intro f id receiver
    rw [Registered]
    cases f.async id <;> simp
  constructor
  · intro h id
    refine ⟨fun owner => h ⟨id, owner, .syncReq⟩, fun receiver => ?_⟩
    rw [← hasync, ← hasync]
    exact h ⟨id, receiver, .async⟩
  · rintro h ⟨id, owner, type⟩
    cases type with
    | syncReq => exact (h id).1 owner
    | async =>
      rw [hasync, hasync]
      exact (h id).2 owner
    | undef | syncRes => exact (and_iff_left_of_imp False.elim).symm

theorem forall_and_ne_iff {α : Type} {p : α → Prop} {x : α} :
    (∀ y, p y ↔ p y ∧ y ≠ x) ↔ ¬ p x := by
  constructor
  · intro h hx
    exact ((h x).1 hx).2 rfl
  · intro hx y
    exact ⟨fun hy => ⟨hy, fun heq => hx (heq ▸ hy)⟩, And.left⟩

/-- A run of the destructor without an invalid iterator. -/
theorem forall_registered_unregister_iff (hf : ReceiversNodup f) (hnodup : msgids.Nodup)
    (hok : ∀ msgid ∈ msgids, ProcessorState.eraseOk f msgid modid = true)
    (h : ProcessorState.unregister modid f msgids = some f') :
    (∀ r, Registered f' r ↔ Registered f r ∧ r.modId ≠ modid) ↔
      (∀ msgid ∈ msgids, match f.sync msgid with
        | some owner => owner = modid ∧ modid ∉ (f.async msgid).getD []
        | none => ∀ receivers, f.async msgid = some receivers → modid ∈ receivers) ∧
      ∀ msgid ∉ msgids, f.sync msgid ≠ some modid ∧ modid ∉ (f.async msgid).getD [] := by
  obtain ⟨f'', hf'', hsync, hasync⟩ := ProcessorState.unregister_eq_some hnodup hok
  obtain rfl := Option.some.inj (h.symm.trans hf'')
  rw [forall_registered_iff, ← forall_and]
  apply forall_congr'
  intro id
  rw [hsync, hasync]
  by_cases hid : id ∈ msgids
  · simp only [hid, true_and, if_true, true_imp_iff, not_true_eq_false, false_imp_iff, and_true]
    cases hs : f.sync id with
    | some owner =>
      simp only [reduceCtorEq, if_false, forall_and_ne_iff, Option.some.injEq, false_iff, not_and,
        not_not, forall_eq']
    | none =>
      refine iff_of_true ⟨fun owner => by simp, fun receiver => ?_⟩ fun receivers hreceivers => ?_
      · cases ha : f.async id with
        | none => simp
        | some receivers =>
          simp only [if_true, Option.map_some, Option.getD_some]
          rw [(hf id receivers ha).mem_erase_iff, and_comm]
      · have hmem := hok id hid
        simpa [ProcessorState.eraseOk, hs, hreceivers] using hmem
  · simp only [hid, false_and, if_false, false_imp_iff, true_and, not_false_eq_true, true_imp_iff,
      forall_and_ne_iff, ne_eq]

theorem destroyExact_destroy_iff (h : s.step (.destroy modid) = some s') :
    s.DestroyExact (.destroy modid) ↔ s'.corrupt = false ∧
      ∀ r, Registered s'.registry r ↔ Registered s.registry r ∧ r.modId ≠ modid := by
  constructor
  · intro hall
    exact hall s' h
  · intro hs' s'' hs''
    obtain rfl := Option.some.inj (h.symm.trans hs'')
    exact hs'

theorem destroyOk_destroy_iff {processor : Processor} (hproc : s.processor modid = some processor) :
    s.DestroyOk (.destroy modid) ↔
      (∀ msgid ∈ processor.mProcessors, match s.registry.sync msgid with
        | some owner => owner = modid ∧ modid ∉ (s.registry.async msgid).getD []
        | none => ∀ receivers, s.registry.async msgid = some receivers → modid ∈ receivers) ∧
      ∀ msgid ∉ processor.mProcessors, s.registry.sync msgid ≠ some modid ∧
        modid ∉ (s.registry.async msgid).getD [] := by
  constructor
  · intro hall
    exact hall processor hproc
  · intro hmsgs p hp
    obtain rfl := Option.some.inj (hproc.symm.trans hp)
    exact hmsgs

/-- Where the module is the synchronous receiver or in the list, no iterator is invalid. -/
theorem eraseOk_of_receives (h : match f.sync msgid with
      | some owner => owner = modid ∧ modid ∉ (f.async msgid).getD []
      | none => ∀ receivers, f.async msgid = some receivers → modid ∈ receivers) :
    ProcessorState.eraseOk f msgid modid = true := by
  rw [ProcessorState.eraseOk]
  cases hsync : f.sync msgid with
  | some owner => rfl
  | none =>
    rw [hsync] at h
    cases hasync : f.async msgid with
    | none => rfl
    | some receivers => simpa using h receivers hasync

theorem destroyExact_iff (hs : s.WellFormed) (h : s.step a = some s') :
    s.DestroyExact a ↔ s.DestroyOk a := by
  obtain ⟨hcorrupt, ⟨modid, rfl, -, -⟩ | ⟨modid, c, processor, rfl, -, -⟩ |
    ⟨modid, processor, rfl, hproc, hend⟩⟩ := step_cases h
  · exact Iff.rfl
  · exact Iff.rfl
  obtain ⟨rfl, hnodup⟩ := hs.processor modid processor hproc
  rw [destroyExact_destroy_iff h, destroyOk_destroy_iff hproc]
  obtain ⟨registry, hun, rfl⟩ | ⟨hun, rfl⟩ := hend
  · have hall : ∀ msgid ∈ processor.mProcessors,
        ProcessorState.eraseOk s.registry msgid processor.mModid = true := by
      intro msgid hmem
      by_contra hnot
      have hnone := ProcessorState.unregister_eq_none hnodup hmem (Bool.not_eq_true _ ▸ hnot)
      exact absurd (hun.symm.trans hnone) (by simp)
    exact (and_iff_right hcorrupt).trans
      (forall_registered_unregister_iff hs.receivers hnodup hall hun)
  · refine iff_of_false (fun hend => nomatch hend.1) fun hmsgs => ?_
    -- no iterator is invalid, so the destructor would have come to its end
    obtain ⟨f', hf', -, -⟩ := ProcessorState.unregister_eq_some hnodup fun msgid hmem =>
      eraseOk_of_receives (hmsgs.1 msgid hmem)
    exact absurd (hun.symm.trans hf') (by simp)

theorem wellFormed_init : WellFormed {} := ⟨nofun, nofun⟩

/-- The calls that change nothing when they throw, and the runs in which each destroyed processor
has taken back the registrations of its module and no other ones. -/
theorem registration_iff (s : ProcessorState) (c : ProcessorCall) (as : List ProcessorAction) :
    (s.Atomic c ↔ s.CallOk c) ∧
      (EachStep step DestroyExact {} as ↔ EachStep step DestroyOk {} as) := by
  constructor
  · exact ProcessorState.atomic_iff s c
  · exact eachStep_congr (fun hs h => hs.step h) (fun hs h => destroyExact_iff hs h)
      wellFormed_init

/-- A module wants a synchronous message that another one has: the call throws and leaves the
message in its map, and when it is destroyed, the message is taken from the other module. -/
theorem failed_registration_takes_message :
    let refused : ProcessorState :=
      { processor := { mModid := "b" }
        registry := { sync := update (fun _ => none) "msg" (some "a") } }
    ¬ refused.Atomic (.registerSync "msg") ∧
    ¬ EachStep step DestroyExact {} [.create "a", .call "a" (.registerSync "msg"), .create "b",
      .call "b" (.registerSync "msg"), .destroy "b"] := by
  refine ⟨fun h => ?_, fun h => ?_⟩
  · have hkept := congrArg (fun s => s.processor.mProcessors) (h rfl)
    exact absurd hkept (by decide)
  · obtain ⟨-, h⟩ := h _ rfl
    obtain ⟨-, h⟩ := h _ rfl
    obtain ⟨-, h⟩ := h _ rfl
    obtain ⟨-, h⟩ := h _ rfl
    obtain ⟨hexact, -⟩ := h _ rfl
    obtain ⟨-, hregistered⟩ := hexact _ rfl
    have hlost : none = some "a" := (hregistered ⟨"msg", "a", .syncReq⟩).2 ⟨rfl, by decide⟩
    cases hlost

end ProcessorSystem

end Kalinka
