import Kalinka.Common.Message

/-!
# Message holders

`MessageHolderBase` and its two derived holders.  Every function below is the body of one section
under `m_wait_mutex`, hence one atomic step of a run; `get` is cut where `pthread_cond_wait` and
`pthread_cond_timedwait` give the mutex up.

The wait interval is a constant that each derived class passes to the base constructor, so it sits
with the virtual operations in `HolderOps`.  The log lines, the error branch of
`pthread_cond_broadcast` (which cannot fail on an initialised condition variable) and `KLKASSERT`
(which only logs in a release build) are left out.
-/

namespace Kalinka

/-- What a derived holder with container type `C` hands to `MessageHolderBase`. -/
class HolderOps (C : Type) where
  /-- The argument of the base class constructor, in seconds. -/
  waitInterval : ℕ
  empty : C → Bool
  /-- The message taken out, or `none` for `ERROR`, and the container left behind. -/
  getUnsafe : C → IMessagePtr × C
  addUnsafe : IMessagePtr → C → Result × C
  /-- What the derived `stop` does to the container before it calls the base class. -/
  clear : C → C

open HolderOps

/-- `m_container` of `MessageHolder4Standard`. -/
abbrev StandardContainer := List Message

/-- `MessageHolder4Standard`. -/
instance : HolderOps StandardContainer where
  waitInterval := 0
  empty := List.isEmpty
  getUnsafe
    | [] => (none, [])
    | msg :: rest => (some msg, rest)
  addUnsafe
    | none, container => (.error, container)
    | some msg, container => (.ok, container ++ [msg])
  clear _ := []

/-- `m_msg` of `MessageHolder4SyncRes`. -/
abbrev SyncResContainer := IMessagePtr

/-- `TIMEINTERVAL4SYNCRES`. -/
def timeInterval4SyncRes : ℕ := 10

/-- `MessageHolder4SyncRes`.  `addUnsafe` asserts the type of the message, and `add` turns the
exception into `ERROR`. -/
instance : HolderOps SyncResContainer where
  waitInterval := timeInterval4SyncRes
  empty := Option.isNone
  getUnsafe msg := (msg, none)
  addUnsafe
    | none, slot => (.error, slot)
    | some msg, slot => if msg.type = .syncRes then (.ok, some msg) else (.error, slot)
  clear _ := none

/-- `MessageHolderBase`. -/
structure MessageHolderBase (C : Type) where
  container : C
  mStop : Bool := false
  mWaitExit : Bool := false
  mWaitLoop : Bool := false
  deriving DecidableEq, Repr

/-- What the condition wait returns to the consumer; `ok` is also what a spurious wake-up gives. -/
inductive WaitRet
  | ok
  | eintr
  | etimedout
  deriving DecidableEq, Repr

/-- How a section of `get` ends: in the condition wait, or with the return of `get`. -/
inductive GetOut (C : Type)
  | wait (holder : MessageHolderBase C)
  | done (rc : Result) (msg : IMessagePtr) (holder : MessageHolderBase C)

/-- How the section of `add` ends; `broadcast` says whether the waiters were woken. -/
structure AddOut (C : Type) where
  rc : Result
  broadcast : Bool
  holder : MessageHolderBase C

namespace MessageHolderBase

variable {C : Type} [HolderOps C]

/-- The end of `get`, after the wait loop.  The `rc = ERROR` of a timed-out wait is overwritten
here. -/
def getExit (h : MessageHolderBase C) : GetOut C :=
  let h := { h with mWaitLoop := false, mWaitExit := false }
  if h.mStop then .done .error none h
  else match getUnsafe h.container with
    | (none, c) => .done .error none { h with container := c }
    | (some msg, c) => .done .ok (some msg) { h with container := c }

/-- The head of `while (!m_wait_exit)`. -/
def waitLoop (h : MessageHolderBase C) : GetOut C :=
  if h.mWaitExit then h.getExit else .wait { h with mWaitLoop := true }

/-- The section of `get` up to the condition wait. -/
def get (h : MessageHolderBase C) : GetOut C :=
  if empty h.container then h.waitLoop else h.getExit

/-- The section of `get` after the condition wait has returned `ret`. -/
def wake (h : MessageHolderBase C) (ret : WaitRet) : GetOut C :=
  if waitInterval C ≠ 0 then
    if ret = .etimedout then h.getExit
    else if ret ≠ .eintr then h.getExit
    else h.waitLoop
  else h.waitLoop

/-- `MessageHolderBase::add`. -/
def add (h : MessageHolderBase C) (msg : IMessagePtr) : AddOut C :=
  if h.mStop then ⟨.error, false, h⟩
  else match addUnsafe msg h.container with
    | (.error, c) => ⟨.error, false, { h with container := c }⟩
    | (.ok, c) =>
      if h.mWaitLoop then ⟨.ok, true, { h with container := c, mWaitExit := true }⟩
      else ⟨.ok, false, { h with container := c }⟩

/-- `MessageHolderBase::start`. -/
def start (h : MessageHolderBase C) : MessageHolderBase C :=
  { h with mStop := false, mWaitLoop := false, mWaitExit := false }

/-- The part of the derived `stop` that runs before, and outside, the section. -/
def clear (h : MessageHolderBase C) : MessageHolderBase C :=
  { h with container := HolderOps.clear h.container }

/-- `MessageHolderBase::stop`, with the broadcast flag. -/
def stop (h : MessageHolderBase C) : Bool × MessageHolderBase C :=
  if h.mWaitLoop then (true, { h with mStop := true, mWaitExit := true })
  else (false, { h with mStop := true })

end MessageHolderBase

end Kalinka
