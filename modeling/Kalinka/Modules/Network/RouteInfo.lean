import Mathlib.Logic.Function.Basic
import Kalinka.Lib.Run
import Kalinka.Common.Message

/-!
# Route locks

The lock columns of `klk_network_routes` and the stored procedures on them, as the network modules
of any number of hosts call them.  A procedure runs without a transaction, so each of its SQL
statements is a step of its own, and so is a test that reads the clock; the code between two of them
belongs to the step before.

Each host has a message thread (`NETSTART`, `NETSTOP` and the clearing in `postMainLoop`) and a
timer thread (`updateLock`).  A host goes by the UUID of its network device, the `resource` of the
procedures, and a route by its UUID.  Time counts in seconds.
-/

namespace Kalinka

open Run Function

/-- The lock columns of a route. -/
structure RouteRow where
  lockTimestamp : ℕ := 0
  lockResource : Option String := none
  deriving DecidableEq, Repr

/-- `@NETWORK_LOCK_INTERVAL@`. -/
def networkLockInterval : ℕ := 35

/-- The test of `klk_network_route_lock`. -/
def RouteRow.free (row : RouteRow) (now : ℕ) (resource : String) : Bool :=
  row.lockResource = none ∨ row.lockTimestamp < now ∨ row.lockResource = some resource

/-- The tests of `klk_network_route_getlock`. -/
def RouteRow.inUse (row : RouteRow) (now : ℕ) : Bool :=
  row.lockResource ≠ none ∧ ¬ row.lockTimestamp < now

/-- The clock and the table, and what has been promised about the locks: until when a host may take
a route for its own, by the last lock call that reported success to it, and the releases of locks
that belonged to another host and had not expired. -/
structure RouteDb where
  now : ℕ
  rows : String → Option RouteRow
  held : String → String → Option ℕ
  wrong : List (String × String) := []

namespace RouteDb

/-- The `UPDATE` of `klk_network_route_lock`. -/
def lock (db : RouteDb) (host route : String) : RouteDb :=
  match db.rows route with
  | none => db
  | some _ =>
    let lockTimestamp := db.now + 2 * networkLockInterval
    { db with
      rows := update db.rows route (some { lockTimestamp, lockResource := some host })
      held := update db.held host (update (db.held host) route (some lockTimestamp)) }

/-- The `UPDATE` of `klk_network_route_unlock`. -/
def unlock (db : RouteDb) (host route : String) : RouteDb :=
  match db.rows route with
  | none => db
  | some row =>
    { db with
      rows := update db.rows route (some {})
      held := update db.held host (update (db.held host) route none)
      wrong := if row.free db.now host then db.wrong else (host, route) :: db.wrong }

/-! ## What the two `UPDATE`s do -/

variable {db : RouteDb} {host route : String} {row : RouteRow}

theorem lock_of_rows_eq_none (hrow : db.rows route = none) : db.lock host route = db := by
  rw [lock, hrow]

theorem unlock_of_rows_eq_none (hrow : db.rows route = none) : db.unlock host route = db := by
  rw [unlock, hrow]

theorem rows_lock (hrow : db.rows route = some row) :
    (db.lock host route).rows = update db.rows route
      (some { lockTimestamp := db.now + 2 * networkLockInterval, lockResource := some host }) := by
  rw [lock, hrow]

theorem wrong_lock (host route : String) : (db.lock host route).wrong = db.wrong := by
  unfold lock
  split <;> rfl

theorem rows_unlock (hrow : db.rows route = some row) :
    (db.unlock host route).rows = update db.rows route (some {}) := by
  rw [unlock, hrow]

theorem wrong_unlock (hrow : db.rows route = some row) :
    (db.unlock host route).wrong =
      if row.free db.now host then db.wrong else (host, route) :: db.wrong := by
  rw [unlock, hrow]

end RouteDb

/-- In `klk_network_route_lock`: before the `SELECT`, the test of what it read, the `UPDATE`. -/
inductive LockPc
  | select
  | test (row : RouteRow)
  | update
  deriving DecidableEq, Repr

/-- In `klk_network_route_getlock`: before the `SELECT`, the tests of what it read. -/
inductive GetlockPc
  | select
  | test (row : RouteRow)
  deriving DecidableEq, Repr

/-- The message thread of a host. -/
inductive MsgPc
  | idle
  /-- `NETSTART`: `isInUse()`, `setInUse(true)`, and `isInUse()` again -/
  | startInUse (route : String) (pc : GetlockPc)
  | startLock (route : String) (pc : LockPc)
  | startConfirm (route : String) (pc : GetlockPc)
  /-- `NETSTOP`: `isInUse()` and `setInUse(false)` -/
  | stopInUse (route : String) (pc : GetlockPc)
  | stopUnlock (route : String)
  /-- `postMainLoop`: `clearInUse()` of one route after the other -/
  | clearSelect (route : String) (rest : List String)
  | clearUnlock (route : String) (rest : List String)
  deriving DecidableEq, Repr

/-- The timer thread of a host: `updateInUse()` of one route after the other. -/
inductive TimerPc
  | idle
  | updateSelect (route : String) (rest : List String)
  | updateLock (route : String) (rest : List String) (pc : LockPc)
  deriving DecidableEq, Repr

/-- All hosts and their database.  `released` holds of a host and a route from a `NETSTOP` that
returns `OK`, or from the clearing at shutdown, until the next `NETSTART`. -/
structure RouteSystem where
  db : RouteDb
  msg : String → MsgPc := fun _ => .idle
  timer : String → TimerPc := fun _ => .idle
  released : String → String → Bool := fun _ _ => false

inductive RouteAction
  | tick (seconds : ℕ)
  | netStart (host route : String)
  | netStop (host route : String)
  | shutdown (host : String) (routes : List String)
  | keepAlive (host : String) (routes : List String)
  /-- the next step of the host's message thread, and of its timer thread -/
  | msg (host : String)
  | timer (host : String)
  deriving DecidableEq, Repr

namespace RouteSystem

def nextClear : List String → MsgPc
  | [] => .idle
  | route :: rest => .clearSelect route rest

def nextUpdate : List String → TimerPc
  | [] => .idle
  | route :: rest => .updateSelect route rest

def setMsg (s : RouteSystem) (host : String) (pc : MsgPc) : RouteSystem :=
  { s with msg := update s.msg host pc }

def setTimer (s : RouteSystem) (host : String) (pc : TimerPc) : RouteSystem :=
  { s with timer := update s.timer host pc }

def setReleased (s : RouteSystem) (host : String) (routes : List String) (b : Bool) :
    RouteSystem :=
  { s with released := update s.released host fun route =>
      if route ∈ routes then b else s.released host route }

/-- `isInUse()`: the next step, or the answer. -/
def getlock (s : RouteSystem) (route : String) : GetlockPc → GetlockPc ⊕ Bool
  | .select =>
    match s.db.rows route with
    | none => .inr false
    | some row => .inl (.test row)
  | .test row => .inr (row.inUse s.db.now)

/-- `klk_network_route_lock` up to its `UPDATE`: the next step, or `none` for the result -1. -/
def lockTest (s : RouteSystem) (host route : String) : LockPc → Option LockPc
  | .select => (s.db.rows route).map .test
  | .test row => if row.free s.db.now host then some .update else none
  | .update => some .update

/-- One step of the message thread.  Where `BOOST_ASSERT` or `doStart` throws, it is idle again. -/
def msgStep (s : RouteSystem) (host : String) : MsgPc → Option RouteSystem
  | .idle => none
  | .startInUse route pc =>
    match s.getlock route pc with
    | .inl pc => some (s.setMsg host (.startInUse route pc))
    | .inr true => some (s.setMsg host .idle)
    | .inr false => some (s.setMsg host (.startLock route .select))
  | .startLock route .update =>
    some ({ s with db := s.db.lock host route }.setMsg host (.startConfirm route .select))
  | .startLock route pc =>
    match s.lockTest host route pc with
    | some pc => some (s.setMsg host (.startLock route pc))
    | none => some (s.setMsg host .idle)
  | .startConfirm route pc =>
    match s.getlock route pc with
    | .inl pc => some (s.setMsg host (.startConfirm route pc))
    | .inr _ => some (s.setMsg host .idle)
  | .stopInUse route pc =>
    match s.getlock route pc with
    | .inl pc => some (s.setMsg host (.stopInUse route pc))
    | .inr true => some (s.setMsg host (.stopUnlock route))
    | .inr false => some (s.setMsg host .idle)
  | .stopUnlock route =>
    some (({ s with db := s.db.unlock host route }.setReleased host [route] true).setMsg host .idle)
  | .clearSelect route rest =>
    match s.db.rows route with
    -- -1, and the exception ends the loop
    | none => some ((s.setReleased host (route :: rest) true).setMsg host .idle)
    | some row =>
      if row.lockResource = some host then some (s.setMsg host (.clearUnlock route rest))
      else some ((s.setReleased host [route] true).setMsg host (nextClear rest))
  | .clearUnlock route rest =>
    some (({ s with db := s.db.unlock host route }.setReleased host [route] true).setMsg host
      (nextClear rest))

/-- One step of the timer thread. -/
def timerStep (s : RouteSystem) (host : String) : TimerPc → Option RouteSystem
  | .idle => none
  | .updateSelect route rest =>
    match s.db.rows route with
    -- -1, and the exception ends the loop
    | none => some (s.setTimer host .idle)
    | some row =>
      if row.lockResource = some host then some (s.setTimer host (.updateLock route rest .select))
      else some (s.setTimer host (nextUpdate rest))
  | .updateLock route rest .update =>
    some ({ s with db := s.db.lock host route }.setTimer host (nextUpdate rest))
  | .updateLock route rest pc =>
    match s.lockTest host route pc with
    | some pc => some (s.setTimer host (.updateLock route rest pc))
    | none => some (s.setTimer host .idle)

def step (s : RouteSystem) : RouteAction → Option RouteSystem
  | .tick seconds => some { s with db := { s.db with now := s.db.now + seconds } }
  | .netStart host route =>
    if s.msg host = .idle then
      some ((s.setReleased host [route] false).setMsg host (.startInUse route .select))
    else none
  | .netStop host route =>
    if s.msg host = .idle then some (s.setMsg host (.stopInUse route .select)) else none
  | .shutdown host routes =>
    if s.msg host = .idle then some (s.setMsg host (nextClear routes)) else none
  | .keepAlive host routes =>
    if s.timer host = .idle then some (s.setTimer host (nextUpdate routes)) else none
  | .msg host => s.msgStep host (s.msg host)
  | .timer host => s.timerStep host (s.timer host)

/-- All hosts idle, at some time, with any locks in the table; these count as held. -/
def start (now : ℕ) (rows : String → Option RouteRow) : RouteSystem where
  db := {
    now, rows
    held := fun host route => match rows route with
      | some row => if row.lockResource = some host then some row.lockTimestamp else none
      | none => none }

end RouteSystem

end Kalinka
