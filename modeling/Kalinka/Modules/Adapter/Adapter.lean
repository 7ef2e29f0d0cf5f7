import Mathlib.Data.List.Nodup
import Kalinka.Common.Message
import Kalinka.Common.Processor

/-!
# The status of remote synchronous messages

A remote application registers its messages with the adapter.  For a synchronous one the adapter's
processor asks every receiver over the wire, copies the data of the answers into its own response,
and drops the exceptions of those that fail; then `Processor::processSync` sets `STATUS`, as for any
other processor.  `faithful_iff` says exactly when the requester finds the remote `STATUS` there.
-/

namespace Kalinka.Adapter

open Function

/-! ## The registry -/

/-- `m_remote_messages`: the modules, by message, and none of them twice. -/
structure RemoteMessages where
  ids : String → List String := fun _ => []
  nodup : ∀ msgId, (ids msgId).Nodup := by exact fun _ => List.nodup_nil

/-- `registerRemoteMessage`, up to the registration of the processor. -/
def RemoteMessages.register (m : RemoteMessages) (msgId modId : String) : RemoteMessages :=
  if h : modId ∈ m.ids msgId then m
  else
    { ids := update m.ids msgId (m.ids msgId ++ [modId])
      nodup := by
        intro id
        by_cases hid : id = msgId
        · subst hid
          rw [update_self, ← List.concat_eq_append, List.nodup_concat]
          exact ⟨h, m.nodup id⟩
        · rw [update_of_ne hid]
          exact m.nodup id }

/-! ## The remote side -/

/-- How `MessagesProtocol::sendSync` ends for a receiver: the registered function that the remote
processor has run, and the exception that comes back instead of its response. -/
inductive RemoteAnswer
  | answered (func : SyncFunction)
  /-- the function has run, but its response did not come back -/
  | lost (func : SyncFunction) (err : Exception)
  /-- nothing has run -/
  | failed (err : Exception)

namespace RemoteAnswer

/-- What the caller gets: the response, in which the remote `Processor::processSync` has set
`STATUS`, or an exception of the protocol, of the network or of the remote adapter. -/
def result : RemoteAnswer → Except Exception Data
  | answered func => .ok (processSync func)
  | lost _ err | failed err => .error err

/-- The registered function that has run. -/
def func? : RemoteAnswer → Option SyncFunction
  | answered func | lost func _ => some func
  | failed _ => none

/-- The loop over the receivers does not catch what comes back. -/
def escapes : RemoteAnswer → Bool
  | lost _ .unknown | failed .unknown => true
  | _ => false

end RemoteAnswer

abbrev SendSync := String → Message → RemoteAnswer

/-- A remote application: no function for a module that does not exist or has no processor for the
message. -/
structure Application where
  reachable : Bool := true
  /-- whether the response comes before the time of the remote adapter is over -/
  inTime : Bool := true
  processor : String → Message → Option SyncFunction

/-- `MessagesProxy::sendSync` with `sendSyncMessage` of the remote adapter. -/
def Application.sendSync (app : Application) (input : Message) : RemoteAnswer :=
  if app.reachable = false then .failed (.std "ICE exception")
  else
    match input.receivers with
    | [receiver] =>
      match app.processor receiver input with
      | some func =>
        if app.inTime then .answered func
        else .lost func (.std "Module could not get response for sync message")
      | none => .failed (.std "Cannot get receiver module or response")
    | _ => .failed (.std "list.size() == 1")

/-! ## The adapter's processor -/

/-- The loops over `mValues` and `mLists`, which copy a response into `out`. -/
def copyData (out data : Data) : Data where
  mValues key := (data.mValues key).or (out.mValues key)
  mLists key := (data.mLists key).or (out.mLists key)

/-- The loop over the receivers: only a `std::exception` is caught. -/
def askReceivers (sendSync : SendSync) (input : Message) : List String → SyncFunction
  | [], out => (out, none)
  | receiver :: receivers, out =>
    match (sendSync receiver { input with receivers := [receiver] }).result with
    | .ok data => askReceivers sendSync input receivers (copyData out data)
    | .error (.std _) => askReceivers sendSync input receivers out
    | .error .unknown => (out, some .unknown)

def processRemoteSync (m : RemoteMessages) (sendSync : SendSync) (input : Message) : SyncFunction :=
  fun out =>
    if m.ids input.id = [] then (out, some (.std "receivers.empty() == false"))
    else askReceivers sendSync input (m.ids input.id) out

/-- What the requester gets: the processor that `registerRemoteMessage` has registered. -/
def response (m : RemoteMessages) (sendSync : SendSync) (input : Message) : Data :=
  processSync (processRemoteSync m sendSync input)

/-! ## The status of the remote side -/

/-- The calls that the loop makes. -/
def calls (sendSync : SendSync) (input : Message) : List String → List RemoteAnswer
  | [] => []
  | receiver :: receivers =>
    let call := sendSync receiver { input with receivers := [receiver] }
    if call.escapes then [call] else call :: calls sendSync input receivers

/-- The `STATUS` that a registered function leaves: what it has set, `FAILED` if it throws, and `OK`
if it returns without having set any. -/
def producedStatus (func : SyncFunction) : String :=
  match func {} with
  | (out, none) => (out.mValues msg.key.STATUS).getD msg.key.OK
  | (_, some _) => msg.key.FAILED

/-- The registered function that has run for the request, the last one with several receivers. -/
def lastFunc (m : RemoteMessages) (sendSync : SendSync) (input : Message) : Option SyncFunction :=
  ((calls sendSync input (m.ids input.id)).filterMap RemoteAnswer.func?).getLast?

/-- `STATUS` is the one that the registered function has left, and `FAILED` if none has run. -/
def Faithful (m : RemoteMessages) (sendSync : SendSync) (input : Message) : Prop :=
  (response m sendSync input).mValues msg.key.STATUS =
    some ((lastFunc m sendSync input).elim msg.key.FAILED producedStatus)

/-- The local processor throws: nobody has registered the message, or a call escapes the loop. -/
def Throws (m : RemoteMessages) (sendSync : SendSync) (input : Message) : Prop :=
  m.ids input.id = [] ∨
    (calls sendSync input (m.ids input.id)).any RemoteAnswer.escapes = true

instance (m : RemoteMessages) (sendSync : SendSync) (input : Message) :
    Decidable (Throws m sendSync input) :=
  inferInstanceAs (Decidable (_ ∨ _))

variable {m : RemoteMessages} {sendSync : SendSync} {input : Message}

theorem RemoteAnswer.escapes_iff (call : RemoteAnswer) :
    call.escapes = true ↔ call.result = .error .unknown := by
  cases call with
  | answered func => simp [escapes, result]
  | lost func err | failed err => cases err <;> simp [escapes, result]

/-- The loop ends with an exception exactly if a call escapes it. -/
theorem askReceivers_eq_none_iff (receivers : List String) (out : Data) :
    (askReceivers sendSync input receivers out).2 = none ↔
      (calls sendSync input receivers).any RemoteAnswer.escapes = false := by
  induction receivers generalizing out with
  | nil => simp [askReceivers, calls]
  | cons receiver receivers ih =>
    rw [askReceivers, calls]
    generalize sendSync receiver { input with receivers := [receiver] } = call
    have hcaught : call.result ≠ .error .unknown → call.escapes = false := fun hresult =>
      Bool.eq_false_iff.2 fun hescapes => hresult (call.escapes_iff.1 hescapes)
    split
    next data hresult => simp [hcaught, hresult, ih]
    next what hresult => simp [hcaught, hresult, ih]
    next hresult => simp [call.escapes_iff.2 hresult]

/-- The adapter's own `STATUS`: `OK` whatever the receivers have answered. -/
theorem status_response : (response m sendSync input).mValues msg.key.STATUS =
    some (if Throws m sendSync input then msg.key.FAILED else msg.key.OK) := by
  have hthrows : (processRemoteSync m sendSync input {}).2 = none ↔ ¬ Throws m sendSync input := by
    unfold processRemoteSync Throws
    split
    next hids => simp [hids]
    next hids => simp [askReceivers_eq_none_iff, hids]
  unfold response
  rw [status_processSync]
  simp only [hthrows, ite_not]

/-- The requester finds the remote `STATUS` if and only if that is `OK`, or `FAILED` with an
exception that the adapter does not catch. -/
theorem faithful_iff (m : RemoteMessages) (sendSync : SendSync) (input : Message) :
    Faithful m sendSync input ↔
      (lastFunc m sendSync input).elim (Throws m sendSync input) fun func =>
        producedStatus func =
          if Throws m sendSync input then msg.key.FAILED else msg.key.OK := by
  have hne : msg.key.OK ≠ msg.key.FAILED := by decide
  unfold Faithful
  rw [status_response, Option.some.injEq]
  cases lastFunc m sendSync input with
  | none =>
    rw [Option.elim_none, Option.elim_none, ite_eq_left_iff]
    exact ⟨fun h => by_contra fun hno => hne (h hno), fun h hno => absurd h hno⟩
  | some func => exact eq_comm

/-- A remote function that throws, one that sets `FAILED` itself and returns, and an application
that cannot be reached: the requester finds `OK` each time. -/
theorem failure_reported_as_ok :
    ∃ (m : RemoteMessages) (throwing failing unreachable : Application) (input : Message),
      (lastFunc m (fun _ => throwing.sendSync) input).map producedStatus = some msg.key.FAILED ∧
      (lastFunc m (fun _ => failing.sendSync) input).map producedStatus = some msg.key.FAILED ∧
      (lastFunc m (fun _ => unreachable.sendSync) input).map producedStatus = none ∧
      ∀ app ∈ [throwing, failing, unreachable],
        (response m (fun _ => app.sendSync) input).mValues msg.key.STATUS = some msg.key.OK ∧
        ¬ Faithful m (fun _ => app.sendSync) input := by
  refine ⟨RemoteMessages.register {} "file" "launcher",
    { processor := fun _ _ => some fun out => (out, some (.std "No such file")) },
    { processor := fun _ _ => some fun out =>
        (out.setValue msg.key.STATUS msg.key.FAILED, none) },
    { reachable := false, processor := fun _ _ => none },
    { id := "file", uuid := 1 }, rfl, rfl, rfl, ?_⟩
  simp only [List.forall_mem_cons, List.not_mem_nil, false_implies, implies_true, and_true,
    Faithful]
  decide

end Kalinka.Adapter
