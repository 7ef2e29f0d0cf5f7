import Mathlib.Logic.Function.Basic
import Kalinka.Lib.Run
import Kalinka.Common.MessageHolder

/-!
# Synchronous calls of one module

`Module::sendSyncMessage` as any number of threads of one module run it, with the responders that
hand their answers to `Module::addMessage`.  All callers share `m_sync_container`, a holder with
room for one message, and a caller drops a message that carries another UUID than its request.

A step is one section of the holder, with the caller's own code up to its next section: the
request goes out in `send`, `get` and `wake` are the sections of `m_sync_container.get`, and
`respond` is `addMessage` for a `SYNC_RES`.  Every request is answered at most once, before or after
its caller has timed out.  No two requests carry one UUID (`IMessageFactory::generateUUID`), and a
response carries the id and the UUID of its request (`MessageFactory::getResponse`), so the two
assertions after the loop of `sendSyncMessage` hold.

`throughout_delivered_iff` says exactly which runs deliver every response that comes in time.
-/

namespace Kalinka

open Run Function

/-! ## The sections of the holder of one response -/

namespace MessageHolderBase

variable (h : MessageHolderBase SyncResContainer)

theorem getExit_syncRes (hs : h.mStop = false) :
    h.getExit = match h.container with
      | none => .done .error none ⟨none, false, false, false⟩
      | some m => .done .ok (some m) ⟨none, false, false, false⟩ := by
  rcases h with ⟨_ | m, stop, exit, loop⟩ <;> cases hs <;> rfl

theorem add_syncRes {msg : Message} (hs : h.mStop = false) (ht : msg.type = .syncRes) :
    (h.add (some msg)).holder = ⟨some msg, false, h.mWaitLoop || h.mWaitExit, h.mWaitLoop⟩ := by
  rcases h with ⟨container, stop, exit, loop⟩
  cases hs
  cases loop <;> simp [add, HolderOps.addUnsafe, ht]

end MessageHolderBase

/-! ## Callers and responders -/

/-- A thread in `sendSyncMessage`, with the UUID of its request. -/
inductive SyncCall
  | idle
  /-- The request is with the receiver; next the section of `get` up to the wait. -/
  | calling (uuid : UUID)
  /-- In the condition wait of `get`. -/
  | blocked (uuid : UUID)
  | returned (uuid : UUID) (out : Message)
  /-- `get` was not `OK`, and the exception was thrown: after the timeout, or before it. -/
  | failed (uuid : UUID) (timedOut : Bool)
  deriving DecidableEq, Repr

namespace SyncCall

/-- The UUID of the last request. -/
def uuid? : SyncCall → Option UUID
  | .idle => none
  | .calling uuid | .blocked uuid | .returned uuid _ | .failed uuid _ => some uuid

/-- The UUID of the request, while the call is in progress. -/
def pending? : SyncCall → Option UUID
  | .calling uuid | .blocked uuid => some uuid
  | _ => none

/-- The UUID of the request, until its response has come or its caller has timed out. -/
def open? : SyncCall → Option UUID
  | .calling uuid | .blocked uuid | .failed uuid false => some uuid
  | _ => none

theorem uuid?_of_pending? {call : SyncCall} {uuid : UUID} (h : call.pending? = some uuid) :
    call.uuid? = some uuid := by
  cases call <;> simp_all [pending?, uuid?]

theorem uuid?_of_open? {call : SyncCall} {uuid : UUID} (h : call.open? = some uuid) :
    call.uuid? = some uuid := by
  unfold open? at h
  split at h <;> simp_all [uuid?]

theorem open?_of_pending? {call : SyncCall} {uuid : UUID} (h : call.pending? = some uuid) :
    call.open? = some uuid := by
  cases call <;> simp_all [pending?, open?]

theorem open?_eq_some_iff {call : SyncCall} {uuid : UUID} :
    call.open? = some uuid ↔ call.pending? = some uuid ∨ call = .failed uuid false := by
  rcases call with _ | _ | _ | _ | ⟨_, _ | _⟩ <;> simp [open?, pending?]

end SyncCall

/-- The threads of one module around its `m_sync_container`. -/
structure SyncSystem (T : Type) where
  holder : MessageHolderBase SyncResContainer
  call : T → SyncCall
  /-- The UUIDs of the requests so far. -/
  used : List UUID
  /-- The UUIDs of the requests whose response has not been passed to `addMessage`. -/
  unanswered : List UUID
  /-- The response to a thread's last request, if it was passed to `addMessage` before the
  thread's timeout. -/
  answered : T → IMessagePtr

inductive SyncAction (T : Type)
  | send (c : T) (uuid : UUID)
  | respond (msg : Message)
  | get (c : T)
  | wake (c : T) (ret : WaitRet)
  deriving DecidableEq, Repr

namespace SyncSystem

variable {T : Type} [DecidableEq T]

/-- The loop of `sendSyncMessage` after a section of `get`: a message with another UUID is dropped
and `get` is called again. -/
def afterGet (s : SyncSystem T) (c : T) (uuid : UUID) (timedOut : Bool) :
    GetOut SyncResContainer → SyncSystem T
  | .wait h => { s with holder := h, call := update s.call c (.blocked uuid) }
  | .done .ok (some out) h =>
    { s with
      holder := h
      call := update s.call c (if out.uuid ≠ uuid then .calling uuid else .returned uuid out) }
  | .done _ _ h => { s with holder := h, call := update s.call c (.failed uuid timedOut) }

def step (s : SyncSystem T) : SyncAction T → Option (SyncSystem T)
  | .send c uuid =>
    if (s.call c).pending? = none ∧ uuid ∉ s.used then
      some { s with
        call := update s.call c (.calling uuid)
        used := uuid :: s.used
        unanswered := uuid :: s.unanswered
        answered := update s.answered c none }
    else none
  | .respond msg =>
    if msg.uuid ∈ s.unanswered ∧ msg.type = .syncRes then
      some { s with
        holder := (s.holder.add (some msg)).holder
        unanswered := s.unanswered.erase msg.uuid
        answered := fun c => if (s.call c).open? = some msg.uuid then some msg else s.answered c }
    else none
  | .get c =>
    match s.call c with
    | .calling uuid => some (s.afterGet c uuid false s.holder.get)
    | _ => none
  | .wake c ret =>
    match s.call c with
    | .blocked uuid => some (s.afterGet c uuid (ret = .etimedout) (s.holder.wake ret))
    | _ => none

/-- A module right after its `init`. -/
def init : SyncSystem T where
  holder := { container := none }
  call _ := .idle
  used := []
  unanswered := []
  answered _ := none

variable {s s' : SyncSystem T} {a : SyncAction T} {c c' : T} {r m : Message} {uuid : UUID}

theorem step_send_eq_some_iff :
    s.step (.send c uuid) = some s' ↔ ((s.call c).pending? = none ∧ uuid ∉ s.used) ∧
      { s with
        call := update s.call c (.calling uuid)
        used := uuid :: s.used
        unanswered := uuid :: s.unanswered
        answered := update s.answered c none } = s' := by
  by_cases hguard : (s.call c).pending? = none ∧ uuid ∉ s.used
  · simp [step, hguard]
  · simp only [step, if_neg hguard]
    exact iff_of_false (by simp) fun h => hguard h.1

/-- The response `r` of the thread `c` has been returned to it, or it lies in the container and
the next section of `c` that does not go back to waiting returns it. -/
def Safe (s : SyncSystem T) (c : T) (r : Message) : Prop :=
  s.call c = .returned r.uuid r ∨
    (s.call c).pending? = some r.uuid ∧ s.holder.container = some r ∧
      (s.call c = .calling r.uuid →
        ∃ s', s.step (.get c) = some s' ∧ s'.call c = .returned r.uuid r) ∧
      (s.call c = .blocked r.uuid → ∀ ret, ret ≠ .eintr →
        ∃ s', s.step (.wake c ret) = some s' ∧ s'.call c = .returned r.uuid r)

/-- No response that came before its caller's timeout is overwritten, handed to another caller or
dropped. -/
def Delivered (s : SyncSystem T) : Prop := ∀ c r, s.answered c = some r → s.Safe c r

/-- A section of `c` that does not wait takes what is in the container. -/
def Takes (s : SyncSystem T) : SyncAction T → T → Prop
  | .get c, c' => c = c'
  | .wake c ret, c' => c = c' ∧ (ret = .eintr → s.holder.mWaitExit = true)
  | _, _ => False

/-- `addMessage` does not find the container taken by the response of a call in progress, nor the
caller gone before its timeout, and a caller that takes a message takes none that carries the UUID
of another call in progress. -/
def SlotOwned (s : SyncSystem T) : SyncAction T → Prop
  | .respond r =>
    (∀ m c, s.holder.container = some m → (s.call c).pending? ≠ some m.uuid) ∧
      ∀ c, s.call c ≠ .failed r.uuid false
  | a => ∀ c, s.Takes a c → ∀ m, s.holder.container = some m →
      ∀ c', c' ≠ c → (s.call c').pending? ≠ some m.uuid

/-! ## The invariant -/

/-- What holds in every run: UUIDs tell the calls apart, and a message in the container that
carries the UUID of a call in progress is the response of that call. -/
structure Consistent (s : SyncSystem T) : Prop where
  stop : s.holder.mStop = false
  used : ∀ {c uuid}, (s.call c).uuid? = some uuid → uuid ∈ s.used
  distinct : ∀ {c c' uuid}, (s.call c).uuid? = some uuid → (s.call c').uuid? = some uuid → c = c'
  unanswered : ∀ {uuid}, uuid ∈ s.unanswered → uuid ∈ s.used
  nodup : s.unanswered.Nodup
  slot : ∀ {m}, s.holder.container = some m → m.uuid ∈ s.used ∧ m.uuid ∉ s.unanswered
  answered : ∀ {c r}, s.answered c = some r →
    (s.call c).uuid? = some r.uuid ∧ r.uuid ∉ s.unanswered
  own : ∀ {c m}, s.holder.container = some m → (s.call c).pending? = some m.uuid →
    s.answered c = some m

/-- How a section of `get` can end for a thread with the request `uuid`, with `container` before
it: it waits, or it finds nothing and gives up, or it takes the message out. -/
inductive SectionEnd (container : SyncResContainer) (takes : Prop) (uuid : UUID) :
    MessageHolderBase SyncResContainer → SyncCall → Prop
  | wait {h} (hh : h.container = container) (idle : container = none ∨ ¬ takes) :
    SectionEnd container takes uuid h (.blocked uuid)
  | giveUp {h} (timedOut : Bool) (hc : container = none) (hh : h.container = none) :
    SectionEnd container takes uuid h (.failed uuid timedOut)
  | take {h m} (hc : container = some m) (ht : takes) (hh : h.container = none) :
    SectionEnd container takes uuid h
      (if m.uuid ≠ uuid then .calling uuid else .returned uuid m)

/-- `s'` is `s` after a section of `c` that ends as `SectionEnd` says. -/
def AfterSection (s : SyncSystem T) (c : T) (uuid : UUID) (takes : Prop) (s' : SyncSystem T) :
    Prop :=
  ∃ h' call, s' = { s with holder := h', call := update s.call c call } ∧ h'.mStop = false ∧
    SectionEnd s.holder.container takes uuid h' call

theorem afterSection_getExit {takes : Prop} (hs : s.holder.mStop = false) (ht : takes)
    (timedOut : Bool) :
    s.AfterSection c uuid takes (s.afterGet c uuid timedOut s.holder.getExit) := by
  rw [s.holder.getExit_syncRes hs]
  cases hc : s.holder.container with
  | none => exact ⟨_, _, rfl, rfl, .giveUp timedOut hc rfl⟩
  | some m => exact ⟨_, _, rfl, rfl, .take hc ht rfl⟩

theorem afterSection_waitLoop {takes : Prop} (hs : s.holder.mStop = false)
    (he : s.holder.mWaitExit = true → takes)
    (hw : s.holder.mWaitExit = false → s.holder.container = none ∨ ¬ takes) (timedOut : Bool) :
    s.AfterSection c uuid takes (s.afterGet c uuid timedOut s.holder.waitLoop) := by
  unfold MessageHolderBase.waitLoop
  split
  · exact afterSection_getExit hs (he ‹_›) timedOut
  · exact ⟨_, _, rfl, hs, .wait rfl (hw (eq_false_of_ne_true ‹_›))⟩

theorem afterSection_get (hs : s.holder.mStop = false) (h : s.step (.get c) = some s') :
    ∃ uuid, s.call c = .calling uuid ∧ s.AfterSection c uuid (s.Takes (.get c) c) s' := by
  simp only [step] at h
  split at h
  · rename_i uuid hcall
    obtain rfl := Option.some.inj h
    refine ⟨uuid, hcall, ?_⟩
    unfold MessageHolderBase.get
    split
    · rename_i hemp
      exact afterSection_waitLoop hs (fun _ => rfl)
        (fun _ => .inl (Option.isNone_iff_eq_none.1 hemp)) false
    · exact afterSection_getExit hs rfl false
  · cases h

theorem afterSection_wake {ret : WaitRet} (hs : s.holder.mStop = false)
    (h : s.step (.wake c ret) = some s') :
    ∃ uuid, s.call c = .blocked uuid ∧ s.AfterSection c uuid (s.Takes (.wake c ret) c) s' := by
  simp only [step] at h
  split at h
  · rename_i uuid hcall
    obtain rfl := Option.some.inj h
    refine ⟨uuid, hcall, ?_⟩
    cases ret with
    | ok | etimedout => exact afterSection_getExit hs ⟨rfl, fun h => by cases h⟩ _
    | eintr =>
      exact afterSection_waitLoop hs (fun he => ⟨rfl, fun _ => he⟩)
        (fun he => .inr fun ht => by simp [ht.2 rfl] at he) _
  · cases h

omit [DecidableEq T] in
theorem consistent_init : Consistent (init : SyncSystem T) := by
  constructor <;> simp [init, SyncCall.uuid?]

theorem SectionEnd.uuid? {container takes h' call} (h : SectionEnd container takes uuid h' call) :
    call.uuid? = some uuid := by
  cases h with
  | wait | giveUp => rfl
  | take => split <;> rfl

/-- The sections of `get` keep the invariant. -/
theorem Consistent.afterSection {takes : Prop} (hc : Consistent s)
    (hp : (s.call c).pending? = some uuid) (h : s.AfterSection c uuid takes s') :
    Consistent s' := by
  obtain ⟨h', call, rfl, hs, hend⟩ := h
  have hu : ∀ c', (update s.call c call c').uuid? = (s.call c').uuid? := by
    intro c'
    by_cases hcc : c' = c
    · rw [hcc, update_self, hend.uuid?, SyncCall.uuid?_of_pending? hp]
    · rw [update_of_ne hcc]
  have hslot : ∀ m, h'.container = some m → s.holder.container = some m ∧ call = .blocked uuid := by
    intro m hm
    cases hend with
    | wait hh => exact ⟨hh ▸ hm, rfl⟩
    | giveUp _ _ hh | take _ _ hh => simp [hh] at hm
  refine ⟨hs, ?_, ?_, hc.unanswered, hc.nodup, fun hm => hc.slot (hslot _ hm).1, ?_, ?_⟩
  · exact fun h => hc.used (hu _ ▸ h)
  · exact fun h h' => hc.distinct (hu _ ▸ h) (hu _ ▸ h')
  · exact fun h => ⟨(hu _).trans (hc.answered h).1, (hc.answered h).2⟩
  · intro c' m hm hpend
    obtain ⟨hm', rfl⟩ := hslot m hm
    apply hc.own hm'
    change (update s.call c (.blocked uuid) c').pending? = some m.uuid at hpend
    by_cases hcc : c' = c
    · rw [hcc, update_self] at hpend
      rw [hcc, hp]
      exact hpend
    · rwa [update_of_ne hcc] at hpend

/-- A new request: its UUID is not that of any call, message or response so far. -/
theorem Consistent.send (hc : Consistent s) (h : s.step (.send c uuid) = some s') :
    Consistent s' := by
  obtain ⟨⟨-, hfresh⟩, rfl⟩ := step_send_eq_some_iff.1 h
  have hcall : ∀ {c' u}, (update s.call c (.calling uuid) c').uuid? = some u →
      c' = c ∧ u = uuid ∨ c' ≠ c ∧ (s.call c').uuid? = some u := by
    intro c' u hu
    by_cases hcc : c' = c
    · rw [hcc, update_self] at hu
      exact .inl ⟨hcc, (Option.some.inj hu).symm⟩
    · rw [update_of_ne hcc] at hu
      exact .inr ⟨hcc, hu⟩
  have hne : ∀ {u}, u ∈ s.used → u ≠ uuid := fun hu hu' => hfresh (hu' ▸ hu)
  refine ⟨hc.stop, fun hu => ?_, fun hu hu' => ?_, fun hu => ?_, ?_, fun hm => ?_, fun hr => ?_,
    fun {c' m} hm hp => ?_⟩
  · rcases hcall hu with ⟨-, rfl⟩ | ⟨-, hu⟩
    · exact List.mem_cons_self
    · exact List.mem_cons_of_mem _ (hc.used hu)
  · rcases hcall hu with ⟨rfl, rfl⟩ | ⟨-, h₁⟩
    · rcases hcall hu' with ⟨h₂, -⟩ | ⟨-, h₂⟩
      · exact h₂.symm
      · exact absurd rfl (hne (hc.used h₂))
    · rcases hcall hu' with ⟨-, h₂⟩ | ⟨-, h₂⟩
      · exact absurd h₂ (hne (hc.used h₁))
      · exact hc.distinct h₁ h₂
  · rcases List.mem_cons.1 hu with rfl | hu
    · exact List.mem_cons_self
    · exact List.mem_cons_of_mem _ (hc.unanswered hu)
  · exact List.nodup_cons.2 ⟨fun hu => hfresh (hc.unanswered hu), hc.nodup⟩
  · obtain ⟨hused, hun⟩ := hc.slot hm
    exact ⟨List.mem_cons_of_mem _ hused, by simp [hne hused, hun]⟩
  · rename_i c' r
    by_cases hcc : c' = c
    · simp [hcc] at hr
    · simp only [update_of_ne hcc] at hr ⊢
      obtain ⟨hu, hun⟩ := hc.answered hr
      exact ⟨hu, by simp [hne (hc.used hu), hun]⟩
  · rcases hcall (SyncCall.uuid?_of_pending? hp) with ⟨rfl, hu⟩ | ⟨hcc, -⟩
    · exact absurd hu (hne (hc.slot hm).1)
    · simp only [update_of_ne hcc] at hp ⊢
      exact hc.own hm hp

/-- What `addMessage` does with a response. -/
theorem respond_eq (hs : s.holder.mStop = false) (h : s.step (.respond r) = some s') :
    r.uuid ∈ s.unanswered ∧ s'.holder.mStop = false ∧ s'.holder.container = some r ∧
      s'.call = s.call ∧ s'.used = s.used ∧ s'.unanswered = s.unanswered.erase r.uuid ∧
      s'.answered = fun c => if (s.call c).open? = some r.uuid then some r else s.answered c := by
  simp only [step] at h
  split at h
  · rename_i hguard
    obtain rfl := Option.some.inj h
    rw [MessageHolderBase.add_syncRes _ hs hguard.2]
    exact ⟨hguard.1, rfl, rfl, rfl, rfl, rfl, rfl⟩
  · cases h

theorem Consistent.respond (hc : Consistent s) (h : s.step (.respond r) = some s') :
    Consistent s' := by
  obtain ⟨hmem, hs, hslot, hcall, hused, hun, hans⟩ := respond_eq hc.stop h
  have hgone : r.uuid ∉ s'.unanswered := hun ▸ hc.nodup.not_mem_erase
  refine ⟨hs, fun hu => ?_, fun hu hu' => ?_, fun hu => ?_, ?_, fun hm => ?_, fun {c r'} hr => ?_,
    fun {c m} hm hp => ?_⟩
  · exact hused ▸ hc.used (hcall ▸ hu)
  · exact hc.distinct (hcall ▸ hu) (hcall ▸ hu')
  · exact hused ▸ hc.unanswered (List.mem_of_mem_erase (hun ▸ hu))
  · exact hun ▸ hc.nodup.erase _
  · obtain rfl := Option.some.inj (hslot.symm.trans hm)
    exact ⟨hused ▸ hc.unanswered hmem, hgone⟩
  · simp only [hans] at hr
    split at hr
    · rename_i hopen
      obtain rfl := Option.some.inj hr
      exact ⟨hcall ▸ SyncCall.uuid?_of_open? hopen, hgone⟩
    · obtain ⟨hu, hnot⟩ := hc.answered hr
      exact ⟨hcall ▸ hu, fun hm => hnot (List.mem_of_mem_erase (hun ▸ hm))⟩
  · obtain rfl := Option.some.inj (hslot.symm.trans hm)
    simp only [hans]
    exact if_pos (SyncCall.open?_of_pending? (hcall ▸ hp))

theorem Consistent.step (hc : Consistent s) (h : s.step a = some s') : Consistent s' := by
  cases a with
  | send c uuid => exact hc.send h
  | respond r => exact hc.respond h
  | get c =>
    obtain ⟨uuid, hcall, hafter⟩ := afterSection_get hc.stop h
    exact hc.afterSection (by simp [hcall, SyncCall.pending?]) hafter
  | wake c ret =>
    obtain ⟨uuid, hcall, hafter⟩ := afterSection_wake hc.stop h
    exact hc.afterSection (by simp [hcall, SyncCall.pending?]) hafter

/-! ## Delivery -/

/-- In a consistent state a response in the container is returned by the next section of its
caller. -/
theorem safe_iff_returned (hc : Consistent s) :
    s.Safe c r ↔ s.call c = .returned r.uuid r ∨
      (s.call c).pending? = some r.uuid ∧ s.holder.container = some r := by
  refine or_congr_right ⟨fun h => ⟨h.1, h.2.1⟩, fun ⟨hp, hslot⟩ => ⟨hp, hslot, fun hcall => ?_,
    fun hcall ret hret => ?_⟩⟩
  · refine ⟨_, by simp only [step, hcall]; rfl, ?_⟩
    simp [MessageHolderBase.get, MessageHolderBase.getExit_syncRes _ hc.stop, hslot, afterGet,
      HolderOps.empty]
  · refine ⟨_, by simp only [step, hcall]; rfl, ?_⟩
    have hwake : s.holder.wake ret = s.holder.getExit := by
      cases ret with
      | ok | etimedout => rfl
      | eintr => exact absurd rfl hret
    simp [hwake, MessageHolderBase.getExit_syncRes _ hc.stop, hslot, afterGet]

theorem delivered_iff (hc : Consistent s) :
    s.Delivered ↔ ∀ c r, s.answered c = some r → s.call c = .returned r.uuid r ∨
      (s.call c).pending? = some r.uuid ∧ s.holder.container = some r :=
  forall₃_congr fun _ _ _ => safe_iff_returned hc

/-- A section of `c` keeps every response safe unless it takes the response of another call. -/
theorem delivered_afterSection_iff {takes : Prop} (hc : Consistent s) (hd : s.Delivered)
    (hp : (s.call c).pending? = some uuid) (h : s.AfterSection c uuid takes s') :
    s'.Delivered ↔ (takes → ∀ m, s.holder.container = some m →
      ∀ c', c' ≠ c → (s.call c').pending? ≠ some m.uuid) := by
  rw [delivered_iff (hc.afterSection hp h)]
  rw [delivered_iff hc] at hd
  obtain ⟨h', call, rfl, hs, hend⟩ := h
  -- a response for `c` itself lies in the container
  have hown : ∀ r, s.answered c = some r → r.uuid = uuid ∧ s.holder.container = some r := by
    intro r hr
    rcases hd c r hr with h | ⟨hpr, hslot⟩
    · simp [h, SyncCall.pending?] at hp
    · exact ⟨Option.some.inj (hpr.symm.trans hp), hslot⟩
  cases hend with
  | wait hh idle =>
    refine iff_of_true (fun c' r hr => ?_) (fun ht m hm => ?_)
    · by_cases hcc : c' = c
      · obtain ⟨hu, hslot⟩ := hown r (hcc ▸ hr)
        exact .inr ⟨by simp [hcc, SyncCall.pending?, hu], hh.trans hslot⟩
      · simpa [hcc, hh] using hd c' r hr
    · exact absurd ht (idle.resolve_left (by simp [hm]))
  | giveUp timedOut hnone hh =>
    refine iff_of_true (fun c' r hr => ?_) (fun _ m hm => by simp [hnone] at hm)
    by_cases hcc : c' = c
    · simp [(hown r (hcc ▸ hr)).2] at hnone
    · simpa [hcc, hh, hnone] using hd c' r hr
  | @take m hslot ht hh =>
    constructor
    · intro hd' _ m' hm' c' hcc hp'
      obtain rfl := Option.some.inj (hslot.symm.trans hm')
      -- what is taken is the response of `c'`, which is then neither returned nor in the container
      have := hd' c' m (hc.own hslot hp')
      rcases this with h | ⟨-, h⟩
      · simp only [update_of_ne hcc] at h
        simp [h, SyncCall.pending?] at hp'
      · exact absurd (hh.symm.trans h) (by simp)
    · intro hno c' r hr
      by_cases hcc : c' = c
      · obtain ⟨hu, hslot'⟩ := hown r (hcc ▸ hr)
        obtain rfl := Option.some.inj (hslot.symm.trans hslot')
        exact .inl (by simp [hcc, hu])
      · rcases hd c' r hr with h | ⟨hp', hslot'⟩
        · exact .inl (by simpa [hcc] using h)
        · obtain rfl := Option.some.inj (hslot.symm.trans hslot')
          exact absurd hp' (hno ht m hslot c' hcc)

/-- A response keeps every response safe unless it replaces one in the container, or comes for a
caller that has given up. -/
theorem delivered_respond_iff (hc : Consistent s) (hd : s.Delivered)
    (h : s.step (.respond r) = some s') : s'.Delivered ↔ s.SlotOwned (.respond r) := by
  rw [delivered_iff (hc.respond h)]
  rw [delivered_iff hc] at hd
  obtain ⟨hmem, -, hslot, hcall, -, -, hans⟩ := respond_eq hc.stop h
  simp only [hans, hcall, hslot, Option.some.injEq]
  constructor
  · intro hd'
    refine ⟨fun m c hm hp => ?_, fun c hf => ?_⟩
    · have hopen : (s.call c).open? ≠ some r.uuid := by
        rw [SyncCall.open?_of_pending? hp]
        exact fun h => (hc.slot hm).2 (Option.some.inj h ▸ hmem)
      rcases hd' c m (by rw [if_neg hopen]; exact hc.own hm hp) with h | ⟨-, rfl⟩
      · simp [h, SyncCall.pending?] at hp
      · exact (hc.slot hm).2 hmem
    · rcases hd' c r (by simp [hf, SyncCall.open?]) with h | ⟨h, -⟩
      · simp [hf] at h
      · simp [hf, SyncCall.pending?] at h
  · rintro ⟨hfree, hthere⟩ c r' hr'
    split at hr'
    · rename_i hopen
      obtain rfl := Option.some.inj hr'
      exact .inr ⟨(SyncCall.open?_eq_some_iff.1 hopen).resolve_right (hthere c), rfl⟩
    · rcases hd c r' hr' with h | ⟨hp, hslot'⟩
      · exact .inl h
      · exact absurd hp (hfree r' c hslot')

theorem delivered_send (hc : Consistent s) (hd : s.Delivered)
    (h : s.step (.send c uuid) = some s') : s'.Delivered := by
  rw [delivered_iff (hc.send h)]
  rw [delivered_iff hc] at hd
  obtain ⟨-, rfl⟩ := step_send_eq_some_iff.1 h
  intro c' r hr
  by_cases hcc : c' = c
  · simp [hcc] at hr
  · simp only [update_of_ne hcc] at hr ⊢
    exact hd c' r hr

theorem delivered_step_iff (hc : Consistent s) (hd : s.Delivered) (h : s.step a = some s') :
    s'.Delivered ↔ s.SlotOwned a := by
  cases a with
  | send c uuid => exact iff_of_true (delivered_send hc hd h) fun _ ht => ht.elim
  | respond r => exact delivered_respond_iff hc hd h
  | get c =>
    obtain ⟨uuid, hcall, hafter⟩ := afterSection_get hc.stop h
    rw [delivered_afterSection_iff hc hd (by simp [hcall, SyncCall.pending?]) hafter]
    exact ⟨fun hno _ ht => ht ▸ hno rfl, fun hno ht => hno c ht⟩
  | wake c ret =>
    obtain ⟨uuid, hcall, hafter⟩ := afterSection_wake hc.stop h
    rw [delivered_afterSection_iff hc hd (by simp [hcall, SyncCall.pending?]) hafter]
    exact ⟨fun hno _ ht => ht.1 ▸ hno ⟨rfl, ht.2⟩, fun hno ht => hno c ht⟩

/-- A run delivers every response that comes before its caller's timeout exactly when its steps
all meet `SlotOwned`. -/
theorem throughout_delivered_iff (as : List (SyncAction T)) :
    Throughout step Delivered (init : SyncSystem T) as ↔
      EachStep step SlotOwned (init : SyncSystem T) as :=
  throughout_iff_eachStep Consistent.step delivered_step_iff consistent_init
    (fun _ _ hr => by cases hr)

/-- Two threads wait.  The response of the second wakes both, the first takes it and drops it, and
the second fails at its timeout. -/
theorem response_dropped :
    ∃ s, exec step (init : SyncSystem Bool)
        [.send false 0, .send true 1, .get false, .get true,
          .respond { id := "x", uuid := 1, type := .syncRes },
          .wake false .ok, .wake true .etimedout] = some s ∧
      s.answered true = some { id := "x", uuid := 1, type := .syncRes } ∧
      s.call true = .failed 1 true ∧ s.call false = .calling 0 :=
  ⟨_, rfl, by decide, by decide, by decide⟩

end SyncSystem

end Kalinka
