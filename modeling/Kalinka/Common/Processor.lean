import Mathlib.Logic.Function.Basic

/-!
# Processors of synchronous messages

`Processor::processSync` wraps the function that has been registered for a synchronous message: it
creates the response, calls the function, and sets `STATUS` by whether the function has thrown.
What the function writes there itself is lost.
-/

namespace Kalinka

open Function

namespace msg.key

def STATUS : String := "status"
def OK : String := "ok"
def FAILED : String := "failed"
def ERROR : String := "error"

end msg.key

/-- `err::UNSPECIFIED` -/
def UNSPECIFIED : String := "Unspecified error"

/-- An exception: a `std::exception` with its `what()`, or anything else. -/
inductive Exception
  | std (what : String)
  | unknown
  deriving DecidableEq, Repr

/-- What a message carries: `m_values` and `m_lists`. -/
structure Data where
  mValues : String → Option String := fun _ => none
  mLists : String → Option (List String) := fun _ => none

namespace Data

/-- `setData` for a simple value -/
def setValue (out : Data) (key data : String) : Data :=
  { out with mValues := update out.mValues key (some data) }

@[simp] theorem mValues_setValue_self (out : Data) (key data : String) :
    (out.setValue key data).mValues key = some data := update_self ..

theorem mValues_setValue_of_ne {key key' : String} (h : key' ≠ key) (out : Data) (data : String) :
    (out.setValue key data).mValues key' = out.mValues key' := update_of_ne h ..

end Data

/-- A function for a synchronous message, with the message bound: what it makes of the response,
and the exception it throws. -/
abbrev SyncFunction := Data → Data × Option Exception

/-- `Processor::processSync` up to the message that it sends back; `getResponse` has created an
empty response. -/
def processSync (func : SyncFunction) : Data :=
  match func {} with
  | (out, none) => out.setValue msg.key.STATUS msg.key.OK
  | (out, some (.std what)) =>
    (out.setValue msg.key.STATUS msg.key.FAILED).setValue msg.key.ERROR what
  | (out, some .unknown) =>
    (out.setValue msg.key.STATUS msg.key.FAILED).setValue msg.key.ERROR UNSPECIFIED

/-- The `STATUS` of the response says whether the function has thrown, and nothing else. -/
theorem status_processSync (func : SyncFunction) : (processSync func).mValues msg.key.STATUS =
    some (if (func {}).2 = none then msg.key.OK else msg.key.FAILED) := by
  have hne : msg.key.STATUS ≠ msg.key.ERROR := by decide
  unfold processSync
  split <;> rename_i h <;> rw [h]
  · simp
  · rw [Data.mValues_setValue_of_ne hne]
    simp
  · rw [Data.mValues_setValue_of_ne hne]
    simp

end Kalinka
