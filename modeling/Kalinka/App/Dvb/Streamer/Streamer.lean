import Kalinka.Lib.Lease
import Kalinka.Lib.Run
import Mathlib.Data.List.Dedup
import Mathlib.Data.List.Sort

/-!
# The DVB streamer

The stations of `klk_app_dvb_streamer` and the streamers of any number of hosts that share them.
The stored procedures run without a transaction, so each of their SQL statements is a step of its
own, and so is a test that reads the clock.

Each host has a message thread (`processDB`, `processSignalLost` and the clearing at start and
shutdown) and the threads of two timers (`updateLock` and `checkFailed`).  When a `Station` object
has been taken out of `m_info`, the timer or the stream may still have a pointer to it, so it is
destroyed, which unlocks the station, at some later time.  A station goes by its UUID.  What the DVB
and the network modules answer is given with the step.  Time counts in seconds.
-/

namespace Kalinka

open Run Function

/-- The columns of a station that only the administrator writes. -/
structure StationInfo where
  station : String
  enable : Bool := true
  priority : ℕ := 0
  source : String
  deriving DecidableEq, Repr

/-- `@DVBSTREAMER_LOCK_INTERVAL@`. -/
def dvbstreamerLockInterval : ℕ := 37

/-- The tables: `lock_timestamp` and `lock_used_host` of the stations, their other columns, and the
failed stations with their hosts.  `wrong` notes the unlocks that cleared the lock of another
host. -/
structure StationDb where
  locks : Lease.Table String String
  stations : List StationInfo
  failed : List (String × String) := []
  wrong : List (String × String) := []

namespace StationDb

/-- The `UPDATE` of `klk_app_dvb_station_lock`. -/
def lock (db : StationDb) (host station : String) : StationDb :=
  { db with
    locks := db.locks.grant host station (db.locks.now + 2 * dvbstreamerLockInterval) }

/-- The `UPDATE` of `klk_app_dvb_station_unlock`. -/
def unlock (db : StationDb) (host station : String) : StationDb :=
  { db with
    locks := db.locks.release host station
    wrong := match db.locks.owner station with
      | some other => if other = host then db.wrong else (host, station) :: db.wrong
      | none => db.wrong }

/-- `klk_app_dvb_station_list`, as far as the host has locked the stations. -/
def stationList (db : StationDb) (host : String) : List String :=
  (db.stations.map StationInfo.station).filter fun station => db.locks.owner station = some host

/-- The condition of the cursor of `klk_app_dvb_station_get`. -/
def selects (db : StationDb) (usedHost source : String) (info : StationInfo) : Bool :=
  (db.locks.rows info.station).any (fun row => row.expires < db.locks.now) && info.enable &&
    info.source = source && (info.station, usedHost) ∉ db.failed

/-- The cursor of `klk_app_dvb_station_get`. -/
def curStation (db : StationDb) (usedHost source : String) : List String :=
  ((db.stations.filter (db.selects usedHost source)).insertionSort
    (fun info info' => info.priority ≤ info'.priority)).map StationInfo.station

/-- `klk_app_dvb_failed_station_add`. -/
def setFailed (db : StationDb) (host station : String) : StationDb :=
  { db with failed := (station, host) :: db.failed }

/-- `klk_app_dvb_failed_station_del`. -/
def clearFailed (db : StationDb) (host : String) : StationDb :=
  { db with failed := db.failed.filter fun failed => failed.2 ≠ host }

/-- The administrator changes a station. -/
def edit (db : StationDb) (info : StationInfo) : StationDb :=
  { db with stations := db.stations.map fun old =>
      if old.station = info.station then info else old }

def enabled (db : StationDb) (station : String) : Bool :=
  db.stations.any fun info => info.station = station && info.enable

end StationDb

/-- In `klk_app_dvb_station_lock`: before the `SELECT`, the test of what it read, the `UPDATE`. -/
inductive StationLockPc
  | select
  | test (row : Lease.Row String)
  | update
  deriving DecidableEq, Repr

/-- A new station: `setChannel`, which ends with `setInUse(true)`, then `setRoute` and
`startStream`. -/
inductive StationStartPc
  | setChannel
  | setInUse (pc : StationLockPc)
  | setRoute
  deriving DecidableEq, Repr

/-- A run of `processDB`: the sources that are left, what `getCurrentInfoFromDB` has found, and the
new stations so far, which stream already. -/
structure ProcessDB where
  sources : List String
  current : List String := []
  started : List String := []
  deriving DecidableEq, Repr

/-- Where the message thread of a streamer is. -/
inductive StreamerPc
  | idle
  /-- `getCurrentInfoFromDB`: the list, and the unlocks of the stations that are not in `m_info` -/
  | list (sources : List String)
  | unlock (stations : List String) (run : ProcessDB)
  /-- `getNewInfoFromDB`: the loop over the sources -/
  | sources (run : ProcessDB)
  /-- `klk_app_dvb_station_get`: the stations of the cursor, and those in `tmp_res` -/
  | get (pc : StationLockPc) (stations tmpRes : List String) (run : ProcessDB)
  /-- the loop over the result -/
  | start (pc : StationStartPc) (stations failList : List String) (run : ProcessDB)
  | setFailed (stations failList : List String) (run : ProcessDB)
  /-- `fail_list.clear()` -/
  | destroy (stations : List String) (run : ProcessDB)
  /-- `processSignalLost` -/
  | signalLost (stations del : List String)
  deriving DecidableEq, Repr

/-- Where `updateLock` is: before the `SELECT` of `klk_app_dvb_station_update_lock`, or in
`klk_app_dvb_station_lock`. -/
inductive UpdateLockPc
  | select (stations : List String)
  | lock (pc : StationLockPc) (stations : List String)
  deriving DecidableEq, Repr

/-- A host.  `dropped` are the `Station` objects outside `m_info` that are not destroyed yet.  A run
of `processDB` watches the stations of `m_info` that are enabled and marked as locked by the host
when it starts, and notes in `lost` those that are not streamed, not locked by the host or marked
failed when it ends. -/
structure StreamerHost where
  msg : StreamerPc := .idle
  timer : UpdateLockPc := .select []
  info : List String := []
  dropped : List String := []
  watched : List String := []
  lost : List String := []

structure StreamerSystem where
  db : StationDb
  host : String → StreamerHost := fun _ => {}

inductive StreamerAction
  | tick (seconds : ℕ)
  | edit (info : StationInfo)
  | processDB (host : String) (sources : List String)
  /-- the stations of `m_info` on the device go -/
  | signalLost (host : String) (stations : List String)
  /-- `preMainLoop` and `postMainLoop` -/
  | clear (host : String)
  | updateLock (host : String)
  | clearFailed (host : String)
  /-- the next step of the message thread, with the answer of a module, and of the timer thread -/
  | msg (host : String) (ok : Bool)
  | timer (host : String)
  /-- the end of a `Station` object -/
  | destroy (host station : String)
  deriving DecidableEq, Repr

/-- The host whose state a step changes. -/
def StreamerAction.host : StreamerAction → Option String
  | .processDB host _ | .signalLost host _ | .clear host | .updateLock host | .msg host _
  | .timer host | .destroy host _ => some host
  | .tick _ | .edit _ | .clearFailed _ => none

namespace StationDb

/-- `klk_app_dvb_station_lock` up to its `UPDATE`: the next step, or `none` for the result -1. -/
def lockTest (db : StationDb) (host station : String) : StationLockPc → Option StationLockPc
  | .select => (db.locks.rows station).map .test
  | .test row => if row.free db.locks.now host then some .update else none
  | .update => some .update

/-- Some station that a run has watched is not as it should be at its end. -/
def lostStations (db : StationDb) (host : String) (watched info : List String) : List String :=
  watched.filter fun station =>
    station ∉ info || db.locks.owner station ≠ some host || (station, host) ∈ db.failed

end StationDb

namespace StreamerHost

/-- The end of `processDB`.  Stations that started although `m_info` has them are not added. -/
def endProcessDB (h : StreamerHost) (db : StationDb) (host : String) (run : ProcessDB) :
    StreamerHost :=
  let dbdata := run.current ++ run.started
  let del := h.info.filter fun station => station ∉ dbdata
  let add := (run.started.filter fun station => station ∉ h.info).dedup
  let info := h.info.filter (fun station => station ∈ dbdata) ++ add
  { h with
    msg := .idle
    info := info
    dropped := h.dropped ++ del ++ run.started.diff add
    watched := []
    lost := h.lost ++ db.lostStations host h.watched info }

/-- One step of the message thread. -/
def msgStep (h : StreamerHost) (db : StationDb) (host : String) (ok : Bool) :
    StreamerPc → Option (StationDb × StreamerHost)
  | .idle => none
  | .list sources =>
    let own := db.stationList host
    some (db, { h with
      msg := .unlock (own.filter fun station => station ∉ h.info)
        { sources, current := own.filter fun station => station ∈ h.info } })
  | .unlock [] run => some (db, { h with msg := .sources run })
  | .unlock (station :: stations) run =>
    some (db.unlock host station, { h with msg := .unlock stations run })
  | .sources ⟨[], current, started⟩ =>
    some (db, h.endProcessDB db host ⟨[], current, started⟩)
  | .sources ⟨source :: sources, current, started⟩ =>
    some (db, { h with
      msg := .get .select (db.curStation host source) [] ⟨sources, current, started⟩ })
  | .get _ [] tmpRes run => some (db, { h with msg := .start .setChannel tmpRes [] run })
  | .get .update (station :: stations) tmpRes run =>
    some (db.lock host station,
      { h with msg := .get .select stations (tmpRes ++ [station]) run })
  | .get pc (station :: stations) tmpRes run =>
    match db.lockTest host station pc with
    | some pc => some (db, { h with msg := .get pc (station :: stations) tmpRes run })
    | none => some (db, { h with msg := .get .select stations tmpRes run })
  | .start _ [] failList run => some (db, { h with msg := .setFailed failList failList run })
  | .start .setChannel (station :: stations) failList run =>
    if ok then
      some (db, { h with msg := .start (.setInUse .select) (station :: stations) failList run })
    else some (db, { h with msg := .start .setChannel stations (failList ++ [station]) run })
  | .start (.setInUse .update) (station :: stations) failList run =>
    some (db.lock host station,
      { h with msg := .start .setRoute (station :: stations) failList run })
  | .start (.setInUse pc) (station :: stations) failList run =>
    match db.lockTest host station pc with
    | some pc =>
      some (db, { h with msg := .start (.setInUse pc) (station :: stations) failList run })
    -- the assertion throws
    | none => some (db, { h with msg := .start .setChannel stations (failList ++ [station]) run })
  | .start .setRoute (station :: stations) failList run =>
    if ok then
      some (db, { h with
        msg := .start .setChannel stations failList
          { run with started := run.started ++ [station] } })
    else some (db, { h with msg := .start .setChannel stations (failList ++ [station]) run })
  | .setFailed [] failList run => some (db, { h with msg := .destroy failList run })
  | .setFailed (station :: stations) failList run =>
    some (db.setFailed host station, { h with msg := .setFailed stations failList run })
  | .destroy [] run => some (db, { h with msg := .sources run })
  | .destroy (station :: stations) run =>
    some (db.unlock host station, { h with msg := .destroy stations run })
  | .signalLost [] del =>
    some (db, { h with
      msg := .idle
      info := h.info.filter fun station => station ∉ del
      dropped := h.dropped ++ del })
  | .signalLost (station :: stations) del =>
    some (db.setFailed host station, { h with msg := .signalLost stations del })

/-- One step of `updateLock`.  An exception ends the turn of one station only. -/
def timerStep (h : StreamerHost) (db : StationDb) (host : String) :
    UpdateLockPc → Option (StationDb × StreamerHost)
  | .select [] | .lock _ [] => none
  | .select (station :: stations) =>
    if db.locks.owner station = some host then
      some (db, { h with timer := .lock .select (station :: stations) })
    else some (db, { h with timer := .select stations })
  | .lock .update (station :: stations) =>
    some (db.lock host station, { h with timer := .select stations })
  | .lock pc (station :: stations) =>
    match db.lockTest host station pc with
    | some pc => some (db, { h with timer := .lock pc (station :: stations) })
    | none => some (db, { h with timer := .select stations })

end StreamerHost

namespace StreamerSystem

def setHost (s : StreamerSystem) (host : String) (h : StreamerHost) : StreamerSystem :=
  { s with host := update s.host host h }

/-- The stations that a run of `processDB` watches. -/
def watch (s : StreamerSystem) (host : String) : List String :=
  (s.host host).info.filter fun station =>
    s.db.enabled station && s.db.locks.owner station = some host

def step (s : StreamerSystem) : StreamerAction → Option StreamerSystem
  | .tick seconds => some { s with db := { s.db with locks := s.db.locks.tick seconds } }
  | .edit info => some { s with db := s.db.edit info }
  | .processDB host sources =>
    if (s.host host).msg = .idle then
      some (s.setHost host { s.host host with
        msg := .list sources.eraseDups, watched := s.watch host })
    else none
  | .signalLost host stations =>
    if (s.host host).msg = .idle then
      let del := (s.host host).info.filter fun station => station ∈ stations
      some (s.setHost host { s.host host with msg := .signalLost del del })
    else none
  | .clear host =>
    if (s.host host).msg = .idle then
      some ({ s with db := s.db.clearFailed host }.setHost host { s.host host with
        info := [], dropped := (s.host host).dropped ++ (s.host host).info })
    else none
  | .updateLock host =>
    if (s.host host).timer = .select [] then
      some (s.setHost host { s.host host with timer := .select (s.host host).info })
    else none
  | .clearFailed host => some { s with db := s.db.clearFailed host }
  | .msg host ok =>
    ((s.host host).msgStep s.db host ok (s.host host).msg).map fun (db, h) =>
      { s with db }.setHost host h
  | .timer host =>
    ((s.host host).timerStep s.db host (s.host host).timer).map fun (db, h) =>
      { s with db }.setHost host h
  | .destroy host station =>
    if station ∈ (s.host host).dropped then
      some ({ s with db := s.db.unlock host station }.setHost host { s.host host with
        dropped := (s.host host).dropped.erase station })
    else none

/-- All hosts idle, at some time, with any locks in the table. -/
def start (now : ℕ) (rows : String → Option (Lease.Row String)) (stations : List StationInfo)
    (failed : List (String × String)) : StreamerSystem where
  db := { locks := .start now rows, stations, failed }

end StreamerSystem

/-! ## What the steps write -/

/-- A write to a station: the `UPDATE`s of its lock, and the `INSERT` of a failure. -/
inductive StationWrite
  | lock (host station : String)
  | unlock (host station : String)
  | setFailed (host station : String)
  deriving DecidableEq, Repr

/-- The write that is the next step of a message thread. -/
def StreamerPc.write (host : String) : StreamerPc → Option StationWrite
  | .get .update (station :: _) _ _ => some (.lock host station)
  | .start (.setInUse .update) (station :: _) _ _ => some (.lock host station)
  | .unlock (station :: _) _ | .destroy (station :: _) _ => some (.unlock host station)
  | .setFailed (station :: _) _ _ | .signalLost (station :: _) _ => some (.setFailed host station)
  | _ => none

def UpdateLockPc.write (host : String) : UpdateLockPc → Option StationWrite
  | .lock .update (station :: _) => some (.lock host station)
  | _ => none

/-- The write to a station that an action makes. -/
def StreamerSystem.write? (s : StreamerSystem) : StreamerAction → Option StationWrite
  | .msg host _ => (s.host host).msg.write host
  | .timer host => (s.host host).timer.write host
  | .destroy host station => some (.unlock host station)
  | _ => none

/-- What a step can do to the tables. -/
inductive StationDb.Step (db : StationDb) (write : Option StationWrite) : StationDb → Prop
  | same {db' : StationDb} (hw : write = none) (hlocks : db'.locks = db.locks)
      (hwrong : db'.wrong = db.wrong) (hfailed : db'.failed ⊆ db.failed)
      (hstations : db'.stations.map StationInfo.station = db.stations.map StationInfo.station) :
      Step db write db'
  | tick (n : ℕ) (hw : write = none) : Step db write { db with locks := db.locks.tick n }
  | lock (host station : String) (hw : write = some (.lock host station)) :
      Step db write (db.lock host station)
  | unlock (host station : String) (hw : write = some (.unlock host station)) :
      Step db write (db.unlock host station)
  | setFailed (host station : String) (hw : write = some (.setFailed host station)) :
      Step db write (db.setFailed host station)

variable {db db' : StationDb} {h h' : StreamerHost} {host : String} {ok : Bool}

/-- The administrator adds no station and takes none away. -/
theorem StationDb.edit_stations (db : StationDb) (info : StationInfo) :
    (db.edit info).stations.map StationInfo.station = db.stations.map StationInfo.station := by
  simp only [edit, List.map_map]
  apply List.map_congr_left
  intro old _
  simp only [Function.comp_apply]
  split
  next heq => exact heq.symm
  · rfl

/-- What a step of the message thread can do: one constructor for each of its branches. -/
inductive StreamerHost.MsgMoves (h : StreamerHost) (db : StationDb) (host : String) :
    StreamerPc → StationDb → StreamerHost → Prop
  | list (sources : List String) :
      MsgMoves h db host (.list sources) db { h with
        msg := .unlock ((db.stationList host).filter fun station => station ∉ h.info)
          { sources, current := (db.stationList host).filter fun station => station ∈ h.info } }
  | unlocked (run : ProcessDB) :
      MsgMoves h db host (.unlock [] run) db { h with msg := .sources run }
  | unlock (station : String) (stations : List String) (run : ProcessDB) :
      MsgMoves h db host (.unlock (station :: stations) run) (db.unlock host station)
        { h with msg := .unlock stations run }
  | finish (current started : List String) :
      MsgMoves h db host (.sources ⟨[], current, started⟩) db
        (h.endProcessDB db host ⟨[], current, started⟩)
  | source (source : String) (sources current started : List String) :
      MsgMoves h db host (.sources ⟨source :: sources, current, started⟩) db { h with
        msg := .get .select (db.curStation host source) [] ⟨sources, current, started⟩ }
  | got (pc : StationLockPc) (tmpRes : List String) (run : ProcessDB) :
      MsgMoves h db host (.get pc [] tmpRes run) db
        { h with msg := .start .setChannel tmpRes [] run }
  | getLock (station : String) (stations tmpRes : List String) (run : ProcessDB) :
      MsgMoves h db host (.get .update (station :: stations) tmpRes run) (db.lock host station)
        { h with msg := .get .select stations (tmpRes ++ [station]) run }
  | getTest (station : String) (stations tmpRes : List String) (run : ProcessDB)
      {pc pc' : StationLockPc} (hpc : pc ≠ .update)
      (htest : db.lockTest host station pc = some pc') :
      MsgMoves h db host (.get pc (station :: stations) tmpRes run) db
        { h with msg := .get pc' (station :: stations) tmpRes run }
  | getNone (station : String) (stations tmpRes : List String) (run : ProcessDB)
      {pc : StationLockPc} (hpc : pc ≠ .update)
      (htest : db.lockTest host station pc = none) :
      MsgMoves h db host (.get pc (station :: stations) tmpRes run) db
        { h with msg := .get .select stations tmpRes run }
  | started (pc : StationStartPc) (failList : List String) (run : ProcessDB) :
      MsgMoves h db host (.start pc [] failList run) db
        { h with msg := .setFailed failList failList run }
  | setChannel (station : String) (stations failList : List String) (run : ProcessDB) :
      MsgMoves h db host (.start .setChannel (station :: stations) failList run) db
        { h with msg := .start (.setInUse .select) (station :: stations) failList run }
  | inUseLock (station : String) (stations failList : List String) (run : ProcessDB) :
      MsgMoves h db host (.start (.setInUse .update) (station :: stations) failList run)
        (db.lock host station)
        { h with msg := .start .setRoute (station :: stations) failList run }
  | inUseTest (station : String) (stations failList : List String) (run : ProcessDB)
      {pc pc' : StationLockPc} (hpc : pc ≠ .update)
      (htest : db.lockTest host station pc = some pc') :
      MsgMoves h db host (.start (.setInUse pc) (station :: stations) failList run) db
        { h with msg := .start (.setInUse pc') (station :: stations) failList run }
  | setRoute (station : String) (stations failList : List String) (run : ProcessDB) :
      MsgMoves h db host (.start .setRoute (station :: stations) failList run) db { h with
        msg := .start .setChannel stations failList
          { run with started := run.started ++ [station] } }
  | fail (station : String) (stations failList : List String) (run : ProcessDB)
      {pc : StationStartPc} (hpc : pc ≠ .setInUse .update) :
      MsgMoves h db host (.start pc (station :: stations) failList run) db
        { h with msg := .start .setChannel stations (failList ++ [station]) run }
  | failed (failList : List String) (run : ProcessDB) :
      MsgMoves h db host (.setFailed [] failList run) db { h with msg := .destroy failList run }
  | setFailed (station : String) (stations failList : List String) (run : ProcessDB) :
      MsgMoves h db host (.setFailed (station :: stations) failList run)
        (db.setFailed host station) { h with msg := .setFailed stations failList run }
  | destroyed (run : ProcessDB) :
      MsgMoves h db host (.destroy [] run) db { h with msg := .sources run }
  | destroy (station : String) (stations : List String) (run : ProcessDB) :
      MsgMoves h db host (.destroy (station :: stations) run) (db.unlock host station)
        { h with msg := .destroy stations run }
  | signalled (del : List String) :
      MsgMoves h db host (.signalLost [] del) db { h with
        msg := .idle
        info := h.info.filter fun station => station ∉ del
        dropped := h.dropped ++ del }
  | signalLost (station : String) (stations del : List String) :
      MsgMoves h db host (.signalLost (station :: stations) del) (db.setFailed host station)
        { h with msg := .signalLost stations del }

theorem StreamerHost.msgStep_cases {pc : StreamerPc}
    (hs : h.msgStep db host ok pc = some (db', h')) : h.MsgMoves db host pc db' h' := by
  have move : ∀ {db₁ h₁}, some (db₁, h₁) = some (db', h') → h.MsgMoves db host pc db₁ h₁ →
      h.MsgMoves db host pc db' h' := by
    intro db₁ h₁ heq hmove
    obtain ⟨rfl, rfl⟩ := Prod.mk.inj (Option.some.inj heq)
    exact hmove
  cases pc with
  | idle => cases hs
  | list sources => exact move hs (.list sources)
  | unlock stations run =>
    cases stations with
    | nil => exact move hs (.unlocked run)
    | cons station stations => exact move hs (.unlock station stations run)
  | sources run =>
    obtain ⟨_ | ⟨source, sources⟩, current, started⟩ := run
    · exact move hs (.finish current started)
    · exact move hs (.source source sources current started)
  | get pc stations tmpRes run =>
    cases stations with
    | nil => cases pc <;> exact move hs (.got _ tmpRes run)
    | cons station stations =>
      cases pc with
      | update => exact move hs (.getLock station stations tmpRes run)
      | select | test =>
        simp only [msgStep] at hs
        split at hs
        next htest => exact move hs (.getTest station stations tmpRes run (by simp) htest)
        next htest => exact move hs (.getNone station stations tmpRes run (by simp) htest)
  | start pc stations failList run =>
    cases stations with
    | nil =>
      cases pc with
      | setChannel | setRoute => exact move hs (.started _ failList run)
      | setInUse pc => cases pc <;> exact move hs (.started _ failList run)
    | cons station stations =>
      cases pc with
      | setChannel =>
        simp only [msgStep] at hs
        split at hs
        · exact move hs (.setChannel station stations failList run)
        · exact move hs (.fail station stations failList run (by simp))
      | setRoute =>
        simp only [msgStep] at hs
        split at hs
        · exact move hs (.setRoute station stations failList run)
        · exact move hs (.fail station stations failList run (by simp))
      | setInUse pc =>
        cases pc with
        | update => exact move hs (.inUseLock station stations failList run)
        | select | test =>
          simp only [msgStep] at hs
          split at hs
          next htest => exact move hs (.inUseTest station stations failList run (by simp) htest)
          next => exact move hs (.fail station stations failList run (by simp))
  | setFailed stations failList run =>
    cases stations with
    | nil => exact move hs (.failed failList run)
    | cons station stations => exact move hs (.setFailed station stations failList run)
  | destroy stations run =>
    cases stations with
    | nil => exact move hs (.destroyed run)
    | cons station stations => exact move hs (.destroy station stations run)
  | signalLost stations del =>
    cases stations with
    | nil => exact move hs (.signalled del)
    | cons station stations => exact move hs (.signalLost station stations del)

theorem StreamerPc.write_get {pc : StationLockPc} {stations tmpRes : List String}
    {run : ProcessDB} (h : stations = [] ∨ pc ≠ .update) :
    (StreamerPc.get pc stations tmpRes run).write host = none := by
  cases stations with
  | nil => cases pc <;> rfl
  | cons station stations =>
    cases pc with
    | update => exact absurd rfl (h.resolve_left (List.cons_ne_nil _ _))
    | select | test => rfl

theorem StreamerPc.write_start {pc : StationStartPc} {stations failList : List String}
    {run : ProcessDB} (h : stations = [] ∨ pc ≠ .setInUse .update) :
    (StreamerPc.start pc stations failList run).write host = none := by
  unfold StreamerPc.write
  split
  next heq => cases heq
  next heq =>
    cases heq
    exact absurd rfl (h.resolve_left (List.cons_ne_nil _ _))
  next heq => cases heq
  next heq => cases heq
  next heq => cases heq
  next heq => cases heq
  next => rfl

theorem StreamerHost.msgStep_db {pc : StreamerPc}
    (hs : h.msgStep db host ok pc = some (db', h')) : db.Step (pc.write host) db' := by
  have same : ∀ {write : Option StationWrite}, write = none → db.Step write db := fun hw =>
    .same hw rfl rfl (List.Subset.refl _) rfl
  cases StreamerHost.msgStep_cases hs with
  | unlock | destroy => exact .unlock _ _ rfl
  | getLock | inUseLock => exact .lock _ _ rfl
  | setFailed | signalLost => exact .setFailed _ _ rfl
  | got => exact same (StreamerPc.write_get (.inl rfl))
  | getTest _ _ _ _ hpc | getNone _ _ _ _ hpc => exact same (StreamerPc.write_get (.inr hpc))
  | started => exact same (StreamerPc.write_start (.inl rfl))
  | inUseTest _ _ _ _ hpc => exact same (StreamerPc.write_start (.inr (by simpa using hpc)))
  | fail _ _ _ _ hpc => exact same (StreamerPc.write_start (.inr hpc))
  | _ => exact same rfl

theorem StreamerPc.write_eq_unlock {pc : StreamerPc} {host' station : String}
    (hw : pc.write host = some (.unlock host' station)) : host' = host ∧ ∃ stations run,
      pc = .unlock (station :: stations) run ∨ pc = .destroy (station :: stations) run := by
  unfold StreamerPc.write at hw
  split at hw
  next => cases hw
  next => cases hw
  next stations run =>
    obtain ⟨rfl, rfl⟩ := StationWrite.unlock.inj (Option.some.inj hw)
    exact ⟨rfl, stations, run, Or.inl rfl⟩
  next stations run =>
    obtain ⟨rfl, rfl⟩ := StationWrite.unlock.inj (Option.some.inj hw)
    exact ⟨rfl, stations, run, Or.inr rfl⟩
  all_goals cases hw

theorem StreamerPc.write_eq_setFailed {pc : StreamerPc} {host' station : String}
    (hw : pc.write host = some (.setFailed host' station)) : host' = host ∧
      ((∃ stations failList run, pc = .setFailed (station :: stations) failList run) ∨
        ∃ stations del, pc = .signalLost (station :: stations) del) := by
  unfold StreamerPc.write at hw
  split at hw
  next => cases hw
  next => cases hw
  next => cases hw
  next => cases hw
  next stations failList run =>
    obtain ⟨rfl, rfl⟩ := StationWrite.setFailed.inj (Option.some.inj hw)
    exact ⟨rfl, Or.inl ⟨stations, failList, run, rfl⟩⟩
  next stations del =>
    obtain ⟨rfl, rfl⟩ := StationWrite.setFailed.inj (Option.some.inj hw)
    exact ⟨rfl, Or.inr ⟨stations, del, rfl⟩⟩
  next => cases hw

theorem UpdateLockPc.write_eq {pc : UpdateLockPc} {write : StationWrite}
    (hw : pc.write host = some write) : ∃ station, write = .lock host station := by
  unfold UpdateLockPc.write at hw
  split at hw
  next station stations => exact ⟨station, (Option.some.inj hw).symm⟩
  · cases hw

/-- `updateLock` changes its own place only. -/
theorem StreamerHost.timerStep_eq {pc : UpdateLockPc}
    (hs : h.timerStep db host pc = some (db', h')) : ∃ timer, h' = { h with timer } := by
  have same : ∀ {db₀ timer}, some (db₀, { h with timer }) = some (db', h') →
      ∃ timer, h' = { h with timer } := by
    intro db₀ timer heq
    obtain ⟨-, rfl⟩ := Prod.mk.inj (Option.some.inj heq)
    exact ⟨timer, rfl⟩
  cases pc with
  | select stations =>
    cases stations with
    | nil => cases hs
    | cons station stations =>
      simp only [timerStep] at hs
      split at hs <;> exact same hs
  | lock pc stations =>
    cases stations with
    | nil => cases hs
    | cons station stations =>
      cases pc with
      | update => exact same hs
      | select | test =>
        simp only [timerStep] at hs
        split at hs <;> exact same hs

theorem StreamerHost.timerStep_db {pc : UpdateLockPc}
    (hs : h.timerStep db host pc = some (db', h')) : db.Step (pc.write host) db' := by
  have same : ∀ {h''}, pc.write host = none → some (db, h'') = some (db', h') →
      db.Step (pc.write host) db' := by
    intro h'' hw heq
    obtain ⟨rfl, -⟩ := Prod.mk.inj (Option.some.inj heq)
    exact .same hw rfl rfl (List.Subset.refl _) rfl
  cases pc with
  | select stations =>
    cases stations with
    | nil => cases hs
    | cons station stations =>
      simp only [timerStep] at hs
      split at hs <;> exact same rfl hs
  | lock pc stations =>
    cases stations with
    | nil => cases hs
    | cons station stations =>
      cases pc with
      | update =>
        obtain ⟨rfl, -⟩ := Prod.mk.inj (Option.some.inj hs)
        exact .lock _ _ rfl
      | select | test =>
        simp only [timerStep] at hs
        split at hs <;> exact same rfl hs

namespace StreamerSystem

variable {s s' : StreamerSystem} {a : StreamerAction}

@[simp] theorem setHost_db (h : StreamerHost) : (s.setHost host h).db = s.db := rfl

@[simp] theorem setHost_host (h : StreamerHost) :
    (s.setHost host h).host = update s.host host h := rfl

/-- A step of the message thread of a host changes the tables and that host only. -/
theorem step_msg (hs : s.step (.msg host ok) = some s') :
    ∃ db h, (s.host host).msgStep s.db host ok (s.host host).msg = some (db, h) ∧
      s' = { s with db }.setHost host h := by
  obtain ⟨⟨db, h⟩, hmsg, rfl⟩ := Option.map_eq_some_iff.1 hs
  exact ⟨db, h, hmsg, rfl⟩

theorem step_timer (hs : s.step (.timer host) = some s') :
    ∃ db h, (s.host host).timerStep s.db host (s.host host).timer = some (db, h) ∧
      s' = { s with db }.setHost host h := by
  obtain ⟨⟨db, h⟩, htimer, rfl⟩ := Option.map_eq_some_iff.1 hs
  exact ⟨db, h, htimer, rfl⟩

theorem step_db (hs : s.step a = some s') : s.db.Step (s.write? a) s'.db := by
  cases a with
  | tick seconds =>
    obtain rfl := Option.some.inj hs
    exact .tick seconds rfl
  | edit info =>
    obtain rfl := Option.some.inj hs
    exact .same rfl rfl rfl (List.Subset.refl _) (StationDb.edit_stations s.db info)
  | clearFailed host =>
    obtain rfl := Option.some.inj hs
    exact .same rfl rfl rfl (List.filter_subset_self _) rfl
  | processDB host sources | signalLost host stations | updateLock host =>
    simp only [step] at hs
    split at hs
    · obtain rfl := Option.some.inj hs
      exact .same rfl rfl rfl (List.Subset.refl _) rfl
    · cases hs
  | clear host =>
    simp only [step] at hs
    split at hs
    · obtain rfl := Option.some.inj hs
      exact .same rfl rfl rfl (List.filter_subset_self _) rfl
    · cases hs
  | msg host ok =>
    obtain ⟨db, h, hmsg, rfl⟩ := step_msg hs
    exact StreamerHost.msgStep_db hmsg
  | timer host =>
    obtain ⟨db, h, htimer, rfl⟩ := step_timer hs
    exact StreamerHost.timerStep_db htimer
  | destroy host station =>
    simp only [step] at hs
    split at hs
    · obtain rfl := Option.some.inj hs
      exact .unlock _ _ rfl
    · cases hs

/-- A step of one host leaves the others as they are. -/
theorem step_host_of_ne {host : String} (hs : s.step a = some s') (hne : a.host ≠ some host) :
    s'.host host = s.host host := by
  have hother : ∀ {t : StreamerSystem} {host' : String} {h : StreamerHost},
      some host' ≠ some host → t.host = s.host → (t.setHost host' h).host host = s.host host := by
    intro t host' h hne ht
    rw [setHost_host, update_of_ne fun heq => hne (congrArg some heq.symm), ht]
  cases a with
  | tick seconds | edit info | clearFailed host' =>
    obtain rfl := Option.some.inj hs
    rfl
  | processDB host' _ | signalLost host' _ | clear host' | updateLock host' | destroy host' _ =>
    simp only [step] at hs
    split at hs
    · obtain rfl := Option.some.inj hs
      exact hother hne rfl
    · cases hs
  | msg host' ok =>
    obtain ⟨db, h, -, rfl⟩ := step_msg hs
    exact hother (t := { s with db }) hne rfl
  | timer host' =>
    obtain ⟨db, h, -, rfl⟩ := step_timer hs
    exact hother (t := { s with db }) hne rfl

/-- Only these hosts have done anything. -/
def Only (hosts : List String) (s : StreamerSystem) : Prop := ∀ host ∉ hosts, s.host host = {}

theorem Only.step {hosts : List String} (h : s.Only hosts) (ha : ∀ host ∈ a.host, host ∈ hosts)
    (hs : s.step a = some s') : s'.Only hosts := by
  intro host hnot
  rw [step_host_of_ne hs fun heq => hnot (ha host heq)]
  exact h host hnot

/-- A condition that is tested for these hosts holds of all hosts when nobody else does anything. -/
theorem eachStep_of_only {hosts : List String} {check ok : StreamerSystem → StreamerAction → Prop}
    {as : List StreamerAction} (h : s.Only hosts)
    (hhosts : ∀ {s a}, check s a → a.host.all (· ∈ hosts) = true)
    (hcheck : ∀ {s a}, s.Only hosts → check s a → ok s a) (hok : EachStep step check s as) :
    EachStep step ok s as := by
  refine EachStep.imp (I := Only hosts) (fun hI hc hs => ?_) (fun hI hc _ => hcheck hI hc) h hok
  refine hI.step (fun host hhost => ?_) hs
  have ha := hhosts hc
  rw [hhost] at ha
  exact of_decide_eq_true ha

end StreamerSystem

end Kalinka
