import Mathlib.Data.String.Basic
import Kalinka.Common.Message
import Kalinka.Lib.SortedSet

/-!
# Messages between nodes

`msg2ice` makes the structure that goes over the wire out of a message, and `ice2msg` wraps such a
structure into a message again.  The structure has no UUID and no type: the receiving node gives the
message a UUID of its own, and who gets it sets the type.

`ice2msg_msg2ice` says what of a message comes through.
-/

namespace Kalinka.Adapter

/-- A `std::map` to strings. -/
abbrev StringMap := SortedSet (Prod.fst : String × String → String)

/-- A `std::map` to lists. -/
abbrev StringListMap := SortedSet (Prod.fst : String × List String → String)

/-- `ipc::SMessage` -/
structure SMessage where
  mID : String
  mSender : String
  mValues : StringMap := {}
  mLists : StringListMap := {}
  mReceivers : List String := []

/-- `klk::Message`, with what it carries. -/
structure DataMessage extends Message where
  mValues : StringMap := {}
  mLists : StringListMap := {}

/-- `ipc::Message`: the base class has members of its own for the id and the sender. -/
structure IpcMessage where
  mIceData : SMessage
  mId : String
  mUuid : UUID
  mType : MsgType
  mSenderId : String
  mId_eq : mId = mIceData.mID

inductive IMessage
  | message (msg : DataMessage)
  | ipc (msg : IpcMessage)

namespace IMessage

def getID : IMessage → String
  | .message msg => msg.id
  | .ipc msg => msg.mId

def getUUID : IMessage → UUID
  | .message msg => msg.uuid
  | .ipc msg => msg.mUuid

def getType : IMessage → MsgType
  | .message msg => msg.type
  | .ipc msg => msg.mType

def getSenderID : IMessage → String
  | .message msg => msg.senderID
  | .ipc msg => msg.mSenderId

def getReceiverList : IMessage → List String
  | .message msg => msg.receivers
  | .ipc msg => msg.mIceData.mReceivers

/-- `hasValue` and `getValue`, which throws when there is none. -/
def getValue (msg : IMessage) (key : String) : Option String :=
  match msg with
  | .message msg => (msg.mValues.find key).map Prod.snd
  | .ipc msg => (msg.mIceData.mValues.find key).map Prod.snd

def getList (msg : IMessage) (key : String) : Option (List String) :=
  match msg with
  | .message msg => (msg.mLists.find key).map Prod.snd
  | .ipc msg => (msg.mIceData.mLists.find key).map Prod.snd

/-- `setSenderID` has set no other sender than the message came with; an `ipc::Message` does not put
it into its data. -/
def SenderKept : IMessage → Prop
  | .message _ => True
  | .ipc msg => msg.mSenderId = msg.mIceData.mSender

end IMessage

/-! ## The converter -/

/-- `std::copy` of `data` to the end of `lists[key]`, which is made if it is not there. -/
def StringListMap.append (lists : StringListMap) (key : String) (data : List String) :
    StringListMap :=
  match lists.find key with
  | none => lists.insert (key, data)
  | some (_, old) => (lists.erase key).insert (key, old ++ data)

/-- `Message::convertTo`, the specialization for `ipc::SMessage`. -/
def convertTo (msg : DataMessage) : SMessage where
  mID := msg.id
  mSender := msg.senderID
  mValues := msg.mValues
  mLists :=
    msg.mLists.elems.foldl (fun lists value => StringListMap.append lists value.1 value.2) {}
  mReceivers := msg.receivers

/-- `Converter::msg2ice` -/
def msg2ice : IMessage → SMessage
  | .message msg => convertTo msg
  | .ipc msg => msg.mIceData

/-- `Converter::ice2msg`: `uuid` is what `generateUUID` gives, and `type` what `m_type`, which the
constructor does not set, happens to hold. -/
def ice2msg (uuid : UUID) (type : MsgType) (msg : SMessage) : IMessage :=
  .ipc ⟨msg, msg.mID, uuid, type, msg.mSender, rfl⟩

/-! ## Both ways -/

theorem append_of_forall_lt {lists : StringListMap} {value : String × List String}
    (h : ∀ value' ∈ lists, value'.1 < value.1) :
    (StringListMap.append lists value.1 value.2).elems = lists.elems ++ [value] := by
  have hfind : lists.find value.1 = none := by
    apply SortedSet.find_eq_none_iff.2
    intro hkey
    obtain ⟨value', hmem, heq⟩ := SortedSet.mem_keys.1 hkey
    exact (h value' hmem).ne heq
  rw [StringListMap.append, hfind]
  exact SortedSet.elems_insert_of_forall_lt h

/-- The loop copies the lists in their order. -/
theorem elems_foldl_append {values : List (String × List String)} {lists : StringListMap}
    (hsorted : values.Pairwise fun a b => a.1 < b.1)
    (h : ∀ value' ∈ lists, ∀ value ∈ values, value'.1 < value.1) :
    (values.foldl (fun lists value => StringListMap.append lists value.1 value.2) lists).elems =
      lists.elems ++ values := by
  induction values generalizing lists with
  | nil => exact (List.append_nil _).symm
  | cons value values ih =>
    obtain ⟨hvalue, hsorted⟩ := List.pairwise_cons.1 hsorted
    have happend := append_of_forall_lt fun value' hmem => h value' hmem value List.mem_cons_self
    rw [List.foldl_cons, ih hsorted, happend, List.append_assoc, List.singleton_append]
    intro value' hmem
    rw [SortedSet.mem_def, happend, List.mem_append, List.mem_singleton] at hmem
    obtain hmem | rfl := hmem
    · exact fun v hv => h value' hmem v (List.mem_cons_of_mem value hv)
    · exact hvalue

theorem mLists_convertTo (msg : DataMessage) : (convertTo msg).mLists = msg.mLists := by
  apply SortedSet.eq_of_elems_eq
  rw [convertTo, elems_foldl_append msg.mLists.sorted (by simp [SortedSet.mem_def])]
  rfl

/-- Two messages are equal in every field. -/
structure SameFields (msg msg' : IMessage) : Prop where
  id : msg'.getID = msg.getID
  uuid : msg'.getUUID = msg.getUUID
  type : msg'.getType = msg.getType
  sender : msg'.getSenderID = msg.getSenderID
  receivers : msg'.getReceiverList = msg.getReceiverList
  values : ∀ key, msg'.getValue key = msg.getValue key
  lists : ∀ key, msg'.getList key = msg.getList key

/-- The id, the receivers, the values and the lists of a message come through, and the sender it
came with; the UUID is the one of the receiving node.  A structure comes back as it was. -/
theorem ice2msg_msg2ice (uuid : UUID) (type : MsgType) :
    (∀ msg : IMessage,
      (ice2msg uuid type (msg2ice msg)).getID = msg.getID ∧
      (ice2msg uuid type (msg2ice msg)).getReceiverList = msg.getReceiverList ∧
      (∀ key, (ice2msg uuid type (msg2ice msg)).getValue key = msg.getValue key) ∧
      (∀ key, (ice2msg uuid type (msg2ice msg)).getList key = msg.getList key) ∧
      (msg.SenderKept → (ice2msg uuid type (msg2ice msg)).getSenderID = msg.getSenderID) ∧
      (ice2msg uuid type (msg2ice msg)).getUUID = uuid) ∧
    ∀ ice : SMessage, msg2ice (ice2msg uuid type ice) = ice := by
  refine ⟨fun msg => ?_, fun ice => rfl⟩
  cases msg with
  | message msg =>
    refine ⟨rfl, rfl, fun _ => rfl, fun key => ?_, fun _ => rfl, rfl⟩
    simp only [ice2msg, msg2ice, IMessage.getList, mLists_convertTo]
  | ipc msg =>
    exact ⟨msg.mId_eq.symm, rfl, fun _ => rfl, fun _ => rfl, fun hkept => hkept.symm, rfl⟩

/-- A message with a value and an empty list. -/
theorem ice2msg_msg2ice_emptyList :
    let msg : IMessage := .message
      { id := "msg", uuid := 7, type := .async, senderID := "mod", receivers := ["a", "b"],
        mValues := ⟨[("key", "")], by simp⟩, mLists := ⟨[("list", [])], by simp⟩ }
    (ice2msg 8 .undef (msg2ice msg)).getSenderID = "mod" ∧
      (ice2msg 8 .undef (msg2ice msg)).getList "list" = msg.getList "list" :=
  have h := (ice2msg_msg2ice 8 .undef).1 (.message
    { id := "msg", uuid := 7, type := .async, senderID := "mod", receivers := ["a", "b"],
      mValues := ⟨[("key", "")], by simp⟩, mLists := ⟨[("list", [])], by simp⟩ })
  ⟨h.2.2.2.2.1 trivial, h.2.2.2.1 "list"⟩

/-- The UUID and the type do not come through. -/
theorem uuid_not_converted :
    let msg : IMessage := .message { id := "msg", uuid := 7, type := .async, senderID := "mod" }
    ¬SameFields msg (ice2msg 8 .undef (msg2ice msg)) := fun h => nomatch h.type

end Kalinka.Adapter
