import Mathlib.Data.Nat.Notation

/-!
# Messages

The part of `IMessage` / `Message` that the message holders, the registry and the dispatcher read:
the id, the UUID, the type, the sender and the receiver list.  A null `IMessagePtr` is `none`.
-/

namespace Kalinka

/-- `klk::Result`. -/
inductive Result
  | ok
  | error
  deriving DecidableEq, Repr

/-- `klk::msg::Type`. -/
inductive MsgType
  | undef
  | async
  | syncReq
  | syncRes
  deriving DecidableEq, Repr

/-- `klk::msg::UUID`, a `u_int`. -/
abbrev UUID := UInt32

/-- `klk::Message`. -/
structure Message where
  id : String
  uuid : UUID
  type : MsgType := .undef
  senderID : String := ""
  receivers : List String := []
  deriving DecidableEq, Repr

/-- `klk::IMessagePtr`. -/
abbrev IMessagePtr := Option Message

/-- `Message::addReceiver`: `none` when `BOOST_ASSERT` throws, the receiver being there already. -/
def Message.addReceiver (msg : Message) (id : String) : Option Message :=
  if id ∈ msg.receivers then none else some { msg with receivers := msg.receivers ++ [id] }

end Kalinka
