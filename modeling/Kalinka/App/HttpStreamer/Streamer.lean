import Mathlib.Data.String.Basic
import Kalinka.App.HttpStreamer.InThread
import Kalinka.Lib.Run
import Kalinka.Lib.SortedSet

/-!
# Updates of the HTTP streamer

`Streamer::processDB` sets up the route of the output, and then the inputs: it reads the rows of the
database, deletes the inputs that have no row and adds those that are new.  A TCP route is a server,
so `getRouteInfoByUUID` locks it with NETSTART, and `stopRoute` unlocks it with NETSTOP.

An update is a sequence of steps, one for each row, each deleted input and each added input.  The
answers of the network module, and whether a thread can be started, are part of the action.
-/

namespace Kalinka.HttpStreamer

open Kalinka.Http (Path Protocol isRouteMatch trimPath)

/-! ## Routes and inputs -/

/-- `sock::Type`. -/
inductive SockType
  | unicast
  | multicast
  deriving DecidableEq, Repr

structure RouteInfo where
  uuid : String
  name : String
  host : String
  port : ℕ
  protocol : Protocol
  type : SockType
  deriving DecidableEq, Repr

/-- `InputInfo`, whose UUID and name are those of its route. -/
structure InputInfo where
  route : RouteInfo
  path : Path
  mname : String
  muuid : String
  deriving DecidableEq, Repr

def InputInfo.uuid (info : InputInfo) : String := info.route.uuid

/-- What NETINFO is answered with status OK; the port is the result of `lexical_cast`. -/
structure NetInfo where
  name : String
  host : String
  type : SockType
  port : Option ℕ
  protocol : Protocol
  deriving DecidableEq, Repr

def NetInfo.toRouteInfo (info : NetInfo) (uuid : String) (port : ℕ) : RouteInfo :=
  { uuid, name := info.name, host := info.host, port, protocol := info.protocol, type := info.type }

/-- A row of `klk_app_http_streamer_route_get`; no column is NULL. -/
structure Row where
  inRoute : String
  outPath : Path
  name : String
  uuid : String
  deriving DecidableEq, Repr

/-- The constructor of `InputInfo` and its setters; `none` when one of them throws. -/
def Row.toInputInfo (row : Row) (route : RouteInfo) : Option InputInfo :=
  if route.name = "" ∨ row.outPath = [] ∨ row.name = "" ∨ row.uuid = "" then none
  else some { route, path := row.outPath, mname := row.name, muuid := row.uuid }

/-- The streamer with its `Factory`. -/
structure Streamer where
  mInfo : SortedSet InputInfo.uuid := {}
  /-- `m_list` of `InThreadContainer`: a running thread is its entry here -/
  mList : List InputInfo := []
  /-- the route of the out thread -/
  outRoute : Option RouteInfo := none
  /-- `m_stop` of the factory and of the container -/
  stopped : Bool := false
  /-- the routes with a NETSTART answered OK and no NETSTOP answered OK after it -/
  locks : List String := []

/-- What happens while an input is added. -/
structure AddEnv where
  /-- the thread is allocated and its start succeeds -/
  started : Bool
  /-- `addElem` does not throw -/
  added : Bool
  /-- NETSTOP is answered OK -/
  netStop : Bool
  deriving DecidableEq, Repr

/-- What happens while the output is set up. -/
structure OutEnv where
  netInfo : Option NetInfo
  /-- NETSTART is answered OK -/
  netStart : Bool
  /-- NETSTOP for the old route is answered OK -/
  netStop : Bool
  /-- the out thread starts again -/
  restarted : Bool
  deriving DecidableEq, Repr

namespace Streamer

def lock (s : Streamer) (uuid : String) : Streamer := { s with locks := uuid :: s.locks }

def unlock (s : Streamer) (uuid : String) : Streamer :=
  { s with locks := s.locks.filter (· ≠ uuid) }

/-- `getRouteInfoByUUID`, with the answers to NETINFO and NETSTART; `none` when it throws. -/
def getRouteInfoByUUID (s : Streamer) (uuid : String) (netInfo : Option NetInfo)
    (netStart : Bool) : Streamer × Option RouteInfo :=
  if uuid = "" then (s, none)
  else
    match netInfo with
    | none => (s, none)
    | some info =>
      match info.port with
      | none => (s, none)
      | some port =>
        match info.protocol with
        | .udp => (s, some (info.toRouteInfo uuid port))
        | .tcpip =>
          if netStart then (s.lock uuid, some (info.toRouteInfo uuid port)) else (s, none)

/-- `stopRoute`, with the answer to NETSTOP; `none` when it throws. -/
def stopRoute (s : Streamer) (route : RouteInfo) (netStop : Bool) : Option Streamer :=
  if route.protocol ≠ .tcpip then some s
  else if netStop then some (s.unlock route.uuid) else none

/-! ## The container of the input threads -/

def getThreadByPath (s : Streamer) (path : Path) : Option InputInfo :=
  if path = [] then none else s.mList.find? fun t => isRouteMatch path t.path

/-- `IsRouteMatch` for an info: the thread of its route. -/
def getThreadByInfo (s : Streamer) (info : InputInfo) : Option InputInfo :=
  s.mList.find? fun t => t.uuid = info.uuid

/-- The thread of the info can be built and its start succeeds. -/
def Startable (info : InputInfo) (started : Bool) : Prop :=
  info.route.host ≠ "" ∧ info.route.port > 0 ∧ started = true

instance (info : InputInfo) (started : Bool) : Decidable (Startable info started) :=
  inferInstanceAs (Decidable (_ ∧ _ ∧ _))

/-- `InThreadContainer::addInfo`; `none` when it throws. -/
def addInfo (s : Streamer) (info : InputInfo) (started : Bool) : Option Streamer :=
  match s.getThreadByInfo info with
  | some t =>
    -- `updateInfo` asserts that the protocol stays
    if info.route.protocol = t.route.protocol then
      some { s with
        mList := s.mList.replaceF fun t => if t.uuid = info.uuid then some info else none }
    else none
  | none =>
    if (s.getThreadByPath info.path).isSome then none
    else if s.stopped then some s
    else if Startable info started then some { s with mList := s.mList ++ [info] }
    else none

/-- `InThreadContainer::delInfo`; `none` when there is no thread with the path. -/
def delInfo (s : Streamer) (info : InputInfo) : Option Streamer :=
  if (s.getThreadByPath info.path).isSome then
    some { s with mList := s.mList.eraseP fun t => isRouteMatch info.path t.path }
  else none

/-! ## Inputs -/

/-- `delInputInfo` catches what is thrown on its way. -/
def delInputInfo (s : Streamer) (info : InputInfo) (netStop : Bool) : Streamer :=
  match s.delInfo info with
  | none => s
  | some s' =>
    match s'.stopRoute info.route netStop with
    | none => s'
    | some s'' => { s'' with mInfo := s''.mInfo.erase info.uuid }

/-- `addInputInfo` of an info that `m_info` does not have. -/
def addInputInfo (s : Streamer) (info : InputInfo) (env : AddEnv) : Streamer :=
  match s.addInfo info env.started with
  | none => s.delInputInfo info env.netStop
  | some s' =>
    if env.added then { s' with mInfo := s'.mInfo.insert info }
    else s'.delInputInfo info env.netStop

/-- `addInfo` or `addElem` throws. -/
def AddFails (s : Streamer) (info : InputInfo) (env : AddEnv) : Prop :=
  s.addInfo info env.started = none ∨ env.added = false

/-! ## The output -/

/-- `Factory::setOutRoute`, and whether it returns: the restart of the out thread may throw. -/
def setOutRoute (s : Streamer) (route : RouteInfo) (restarted : Bool) : Streamer × Bool :=
  if s.stopped then (s, true)
  else if route.host = "" ∨ route.port = 0 then (s, false)
  else ({ s with outRoute := some route }, restarted)

/-- `stopRoute` of the old route, if there is one. -/
def stopOutRoute (s : Streamer) (netStop : Bool) : Option Streamer :=
  match s.outRoute with
  | none => some s
  | some old => s.stopRoute old netStop

/-- `processOutRoute`, with the result of `getOutRoute`, and whether it returns. -/
def processOutRoute (s : Streamer) (uuid : String) (env : OutEnv) : Streamer × Bool :=
  if uuid = "" then (s, false)
  else if s.outRoute.any (·.uuid = uuid) then (s, true)
  else
    match s.getRouteInfoByUUID uuid env.netInfo env.netStart with
    | (s', none) => (s', false)
    | (s', some route) =>
      match s'.stopOutRoute env.netStop with
      | none => (s', false)
      | some s'' => s''.setOutRoute route env.restarted

variable {s s' : Streamer} {info t : InputInfo} {route : RouteInfo} {path path' : Path}
variable {l : List InputInfo}
variable {uuid : String} {netInfo : Option NetInfo} {netStart netStop started restarted : Bool}

/-! ## What the operations do -/

theorem isRouteMatch_self : isRouteMatch path path = true ↔ trimPath path ≠ [] := by
  simp [isRouteMatch]

theorem isRouteMatch_of_trimPath_eq_nil (h : trimPath path = []) :
    ¬isRouteMatch path path' = true := by
  simp [isRouteMatch, h]

/-- The first thread of the route gets the new info. -/
theorem replaceF_of_find? (h : (l.find? fun t => t.uuid = info.uuid) = some t) :
    ∃ as bs, l = as ++ t :: bs ∧
      (l.replaceF fun t => if t.uuid = info.uuid then some info else none) =
        as ++ info :: bs := by
  induction l with
  | nil => cases h
  | cons a l ih =>
    by_cases ha : a.uuid = info.uuid
    · rw [List.find?_cons_of_pos (by simpa using ha)] at h
      cases h
      exact ⟨[], l, rfl, by simp [List.replaceF, ha]⟩
    · rw [List.find?_cons_of_neg (by simpa using ha)] at h
      obtain ⟨as, bs, rfl, hreplace⟩ := ih h
      refine ⟨a :: as, bs, rfl, ?_⟩
      rw [List.replaceF, if_neg ha, hreplace]
      rfl

theorem getThreadByPath_eq_none_iff :
    s.getThreadByPath path = none ↔ ∀ t ∈ s.mList, ¬isRouteMatch path t.path = true := by
  unfold getThreadByPath
  split
  case isTrue hpath =>
    subst hpath
    simp [isRouteMatch, trimPath]
  case isFalse => simp [List.find?_eq_none]

theorem isSome_getThreadByPath_iff :
    (s.getThreadByPath path).isSome ↔ ∃ t ∈ s.mList, isRouteMatch path t.path = true := by
  rw [Option.isSome_iff_ne_none, Ne, getThreadByPath_eq_none_iff]
  simp

theorem stopRoute_of_udp (hprot : route.protocol = .udp) :
    s.stopRoute route netStop = some s :=
  if_pos (by simp [hprot])

theorem stopRoute_of_tcpip (hprot : route.protocol = .tcpip) :
    s.stopRoute route netStop = if netStop then some (s.unlock route.uuid) else none :=
  if_neg (by simp [hprot])

/-- NETSTART is sent for the route, and answered OK. -/
def Locks (uuid : String) (info : NetInfo) (netStart : Bool) : Prop :=
  uuid ≠ "" ∧ info.port ≠ none ∧ info.protocol = .tcpip ∧ netStart = true

/-- `getRouteInfoByUUID` in each of its cases. -/
inductive GetRouteInfo (s : Streamer) (uuid : String) (netInfo : Option NetInfo)
    (netStart : Bool) : Streamer × Option RouteInfo → Prop
  | threw (hlock : ∀ info, netInfo = some info → ¬Locks uuid info netStart) :
      GetRouteInfo s uuid netInfo netStart (s, none)
  | udp (info : NetInfo) (port : ℕ) (hinfo : netInfo = some info) (huuid : uuid ≠ "")
      (hprot : info.protocol = .udp) :
      GetRouteInfo s uuid netInfo netStart (s, some (info.toRouteInfo uuid port))
  | tcpip (info : NetInfo) (port : ℕ) (hinfo : netInfo = some info)
      (hport : info.port = some port) (hlock : Locks uuid info netStart) :
      GetRouteInfo s uuid netInfo netStart (s.lock uuid, some (info.toRouteInfo uuid port))

theorem getRouteInfoByUUID_cases (s : Streamer) (uuid : String) (netInfo : Option NetInfo)
    (netStart : Bool) :
    GetRouteInfo s uuid netInfo netStart (s.getRouteInfoByUUID uuid netInfo netStart) := by
  unfold getRouteInfoByUUID
  by_cases huuid : uuid = ""
  · rw [if_pos huuid]
    exact .threw fun _ _ hlock => hlock.1 huuid
  · rw [if_neg huuid]
    cases netInfo with
    | none => exact .threw fun _ h => nomatch h
    | some info =>
      dsimp only
      cases hport : info.port with
      | none => exact .threw fun _ h hlock => hlock.2.1 (Option.some.inj h ▸ hport)
      | some port =>
        dsimp only
        cases hprot : info.protocol with
        | udp => exact .udp info port rfl huuid hprot
        | tcpip =>
          cases netStart with
          | false => exact .threw fun _ _ hlock => Bool.false_ne_true hlock.2.2.2
          | true => exact .tcpip info port rfl hport ⟨huuid, by simp [hport], hprot, rfl⟩

/-- `addInfo` in each of its cases. -/
inductive AddInfo (s : Streamer) (info : InputInfo) (started : Bool) : Option Streamer → Prop
  | updated (t : InputInfo) (hfind : s.getThreadByInfo info = some t)
      (hprot : info.route.protocol = t.route.protocol) :
      AddInfo s info started (some { s with
        mList := s.mList.replaceF fun t => if t.uuid = info.uuid then some info else none })
  | protocol (t : InputInfo) (hfind : s.getThreadByInfo info = some t)
      (hprot : info.route.protocol ≠ t.route.protocol) : AddInfo s info started none
  | taken (hfind : s.getThreadByInfo info = none)
      (hpath : (s.getThreadByPath info.path).isSome) : AddInfo s info started none
  | stopped (hfind : s.getThreadByInfo info = none)
      (hpath : s.getThreadByPath info.path = none) (hstopped : s.stopped = true) :
      AddInfo s info started (some s)
  | started (hfind : s.getThreadByInfo info = none)
      (hpath : s.getThreadByPath info.path = none) (hstopped : s.stopped = false)
      (hstart : Startable info started) :
      AddInfo s info started (some { s with mList := s.mList ++ [info] })
  | failed (hfind : s.getThreadByInfo info = none)
      (hpath : s.getThreadByPath info.path = none) (hstopped : s.stopped = false)
      (hstart : ¬Startable info started) : AddInfo s info started none

theorem addInfo_cases (s : Streamer) (info : InputInfo) (started : Bool) :
    AddInfo s info started (s.addInfo info started) := by
  unfold addInfo
  cases hfind : s.getThreadByInfo info with
  | some t =>
    dsimp only
    split
    case isTrue hprot => exact .updated t hfind hprot
    case isFalse hprot => exact .protocol t hfind hprot
  | none =>
    dsimp only
    split
    case isTrue hpath => exact .taken hfind hpath
    case isFalse hpath =>
      have hnone : s.getThreadByPath info.path = none := by simpa using hpath
      split
      case isTrue hstopped => exact .stopped hfind hnone hstopped
      case isFalse hstopped =>
        have hruns : s.stopped = false := by simpa using hstopped
        split
        case isTrue hstart => exact .started hfind hnone hruns hstart
        case isFalse hstart => exact .failed hfind hnone hruns hstart

/-- `delInputInfo` in each of its cases. -/
inductive DelInputInfo (s : Streamer) (info : InputInfo) (netStop : Bool) : Streamer → Prop
  | unknown (hpath : s.getThreadByPath info.path = none) : DelInputInfo s info netStop s
  | locked (hpath : (s.getThreadByPath info.path).isSome) (hprot : info.route.protocol = .tcpip)
      (hstop : netStop = false) :
      DelInputInfo s info netStop
        { s with mList := s.mList.eraseP fun t => isRouteMatch info.path t.path }
  | udp (hpath : (s.getThreadByPath info.path).isSome) (hprot : info.route.protocol = .udp) :
      DelInputInfo s info netStop { s with
        mList := s.mList.eraseP fun t => isRouteMatch info.path t.path
        mInfo := s.mInfo.erase info.uuid }
  | tcpip (hpath : (s.getThreadByPath info.path).isSome) (hprot : info.route.protocol = .tcpip)
      (hstop : netStop = true) :
      DelInputInfo s info netStop { s with
        mList := s.mList.eraseP fun t => isRouteMatch info.path t.path
        mInfo := s.mInfo.erase info.uuid
        locks := (s.unlock info.uuid).locks }

theorem delInputInfo_cases (s : Streamer) (info : InputInfo) (netStop : Bool) :
    DelInputInfo s info netStop (s.delInputInfo info netStop) := by
  unfold delInputInfo delInfo
  by_cases hpath : (s.getThreadByPath info.path).isSome
  · rw [if_pos hpath]
    dsimp only
    cases hprot : info.route.protocol with
    | udp =>
      rw [stopRoute_of_udp hprot]
      exact .udp hpath hprot
    | tcpip =>
      rw [stopRoute_of_tcpip hprot]
      cases hstop : netStop with
      | false => exact .locked hpath hprot rfl
      | true => exact .tcpip hpath hprot rfl
  · rw [if_neg hpath]
    exact .unknown (by simpa using hpath)

/-- `addInfo` changes the thread list only. -/
theorem eq_of_addInfo_eq_some (h : s.addInfo info started = some s') :
    s' = { s with mList := s'.mList } := by
  have hcases := addInfo_cases s info started
  rw [h] at hcases
  cases hcases <;> rfl

theorem mem_mInfo_of_mem_delInputInfo (h : t ∈ (s.delInputInfo info netStop).mInfo) :
    t ∈ s.mInfo := by
  have hcases := delInputInfo_cases s info netStop
  generalize s.delInputInfo info netStop = s' at h hcases
  cases hcases with
  | unknown | locked => exact h
  | udp | tcpip => exact (SortedSet.mem_erase.1 h).1

theorem mem_mInfo_delInputInfo (h : t ∈ s.mInfo) (hne : t.uuid ≠ info.uuid) :
    t ∈ (s.delInputInfo info netStop).mInfo := by
  have hcases := delInputInfo_cases s info netStop
  generalize s.delInputInfo info netStop = s' at hcases ⊢
  cases hcases with
  | unknown | locked => exact h
  | udp | tcpip => exact SortedSet.mem_erase.2 ⟨h, hne⟩

/-- An input that `m_info` does not have is not taken out of it. -/
theorem mInfo_delInputInfo (hnew : info.uuid ∉ s.mInfo.keys) :
    (s.delInputInfo info netStop).mInfo = s.mInfo := by
  have hcases := delInputInfo_cases s info netStop
  generalize s.delInputInfo info netStop = s' at hcases ⊢
  cases hcases with
  | unknown | locked => rfl
  | udp | tcpip => exact SortedSet.erase_eq_self hnew

/-- Only the lock of a TCP route whose thread is found is given back. -/
theorem mem_locks_delInputInfo : uuid ∈ (s.delInputInfo info netStop).locks ↔
    uuid ∈ s.locks ∧ ¬(uuid = info.uuid ∧ info.route.protocol = .tcpip ∧
      (s.getThreadByPath info.path).isSome ∧ netStop = true) := by
  have hcases := delInputInfo_cases s info netStop
  generalize s.delInputInfo info netStop = s' at hcases ⊢
  cases hcases with
  | unknown hpath => simp [hpath]
  | locked hpath hprot hstop => simp [hstop]
  | udp hpath hprot => simp [hprot]
  | tcpip hpath hprot hstop => simp [unlock, hpath, hprot, hstop]

/-- `addInputInfo` in each of its cases. -/
inductive AddInputInfo (s : Streamer) (info : InputInfo) (env : AddEnv) : Streamer → Prop
  | threw (hadd : s.addInfo info env.started = none) :
      AddInputInfo s info env (s.delInputInfo info env.netStop)
  | added (s' : Streamer) (hadd : s.addInfo info env.started = some s')
      (helem : env.added = true) :
      AddInputInfo s info env { s' with mInfo := s'.mInfo.insert info }
  | notAdded (s' : Streamer) (hadd : s.addInfo info env.started = some s')
      (helem : env.added = false) :
      AddInputInfo s info env (s'.delInputInfo info env.netStop)

theorem addInputInfo_cases (s : Streamer) (info : InputInfo) (env : AddEnv) :
    AddInputInfo s info env (s.addInputInfo info env) := by
  unfold addInputInfo
  cases hadd : s.addInfo info env.started with
  | none => exact .threw hadd
  | some s' =>
    cases helem : env.added with
    | true => exact .added s' hadd helem
    | false => exact .notAdded s' hadd helem

theorem mem_keys_of_mem_keys_addInputInfo {env : AddEnv}
    (h : uuid ∈ (s.addInputInfo info env).mInfo.keys) :
    uuid = info.uuid ∨ uuid ∈ s.mInfo.keys := by
  have hcases := addInputInfo_cases s info env
  generalize s.addInputInfo info env = s' at h hcases
  cases hcases with
  | threw =>
    obtain ⟨t, ht, rfl⟩ := SortedSet.mem_keys.1 h
    exact .inr (SortedSet.mem_keys.2 ⟨t, mem_mInfo_of_mem_delInputInfo ht, rfl⟩)
  | added s' hadd =>
    rw [eq_of_addInfo_eq_some hadd] at h
    exact SortedSet.mem_keys_insert.1 h
  | notAdded s' hadd =>
    obtain ⟨t, ht, rfl⟩ := SortedSet.mem_keys.1 h
    have hmem : t ∈ s'.mInfo := mem_mInfo_of_mem_delInputInfo ht
    rw [eq_of_addInfo_eq_some hadd] at hmem
    exact .inr (SortedSet.mem_keys.2 ⟨t, hmem, rfl⟩)

/-! ## The rows of the database -/

/-- `InfoContainer::getInfoByUUID`; `none` when it throws. -/
def getInfoByUUID (s : Streamer) (uuid : String) : Option InputInfo :=
  if uuid = "" then none else s.mInfo.find uuid

/-- The loop body of `getInputInfoFromDB`: a known input is taken as it is, for a new one the route
is asked for.  What the second way throws is caught. -/
def getInputInfo (s : Streamer) (set : SortedSet InputInfo.uuid) (row : Row)
    (netInfo : Option NetInfo) (netStart : Bool) : Streamer × SortedSet InputInfo.uuid :=
  match s.getInfoByUUID row.inRoute with
  | some info => (s, set.insert info)
  | none =>
    match s.getRouteInfoByUUID row.inRoute netInfo netStart with
    | (s', none) => (s', set)
    | (s', some route) =>
      match row.toInputInfo route with
      | none => (s', set)
      | some info => (s', set.insert info)

theorem mem_of_getInfoByUUID_eq_some (h : s.getInfoByUUID uuid = some info) :
    info ∈ s.mInfo := by
  unfold getInfoByUUID at h
  split at h
  · cases h
  · exact (SortedSet.find_eq_some_iff.1 h).1

theorem not_mem_keys_of_getInfoByUUID_eq_none (h : s.getInfoByUUID uuid = none)
    (huuid : uuid ≠ "") : uuid ∉ s.mInfo.keys := by
  rw [getInfoByUUID, if_neg huuid] at h
  exact SortedSet.find_eq_none_iff.1 h

/-- Neither the constructor of `InputInfo` nor one of its setters throws. -/
def Complete (row : Row) (name : String) : Prop :=
  name ≠ "" ∧ row.outPath ≠ [] ∧ row.name ≠ "" ∧ row.uuid ≠ ""

/-- The loop body of `getInputInfoFromDB` in each of its cases. -/
inductive GetInputInfo (s : Streamer) (set : SortedSet InputInfo.uuid) (row : Row)
    (netInfo : Option NetInfo) (netStart : Bool) :
    Streamer × SortedSet InputInfo.uuid → Prop
  | known (info : InputInfo) (hfind : s.getInfoByUUID row.inRoute = some info) :
      GetInputInfo s set row netInfo netStart (s, set.insert info)
  | skipped (hfind : s.getInfoByUUID row.inRoute = none)
      (hlock : ∀ info, netInfo = some info → ¬Locks row.inRoute info netStart) :
      GetInputInfo s set row netInfo netStart (s, set)
  | udp (info : InputInfo) (hfind : s.getInfoByUUID row.inRoute = none)
      (hlock : ∀ info, netInfo = some info → ¬Locks row.inRoute info netStart)
      (hne : row.inRoute ≠ "") (huuid : info.uuid = row.inRoute) :
      GetInputInfo s set row netInfo netStart (s, set.insert info)
  | refused (info : NetInfo) (hfind : s.getInfoByUUID row.inRoute = none)
      (hinfo : netInfo = some info) (hlock : Locks row.inRoute info netStart)
      (hrow : ¬Complete row info.name) :
      GetInputInfo s set row netInfo netStart (s.lock row.inRoute, set)
  | tcpip (info : NetInfo) (input : InputInfo) (hfind : s.getInfoByUUID row.inRoute = none)
      (hinfo : netInfo = some info) (hlock : Locks row.inRoute info netStart)
      (hrow : Complete row info.name) (huuid : input.uuid = row.inRoute)
      (hprot : input.route.protocol = .tcpip) :
      GetInputInfo s set row netInfo netStart (s.lock row.inRoute, set.insert input)

theorem toInputInfo_of_complete (route : RouteInfo) {row : Row} (h : Complete row route.name) :
    row.toInputInfo route =
      some { route, path := row.outPath, mname := row.name, muuid := row.uuid } :=
  if_neg fun hempty => hempty.elim h.1 fun h' => h'.elim h.2.1 fun h'' => h''.elim h.2.2.1 h.2.2.2

theorem toInputInfo_of_not_complete (route : RouteInfo) {row : Row} (h : ¬Complete row route.name) :
    row.toInputInfo route = none := by
  refine if_pos (by_contra fun hempty => h ?_)
  simpa only [Complete, not_or] using hempty

theorem getInputInfo_cases (s : Streamer) (set : SortedSet InputInfo.uuid) (row : Row)
    (netInfo : Option NetInfo) (netStart : Bool) :
    GetInputInfo s set row netInfo netStart (s.getInputInfo set row netInfo netStart) := by
  unfold getInputInfo
  cases hfind : s.getInfoByUUID row.inRoute with
  | some info => exact .known info hfind
  | none =>
    dsimp only
    have hroute := getRouteInfoByUUID_cases s row.inRoute netInfo netStart
    generalize s.getRouteInfoByUUID row.inRoute netInfo netStart = res at hroute
    cases hroute with
    | threw hlock => exact .skipped hfind hlock
    | udp info port hinfo huuid hprot =>
      have hlock : ∀ info, netInfo = some info → ¬Locks row.inRoute info netStart := by
        rintro info' h ⟨-, -, htcp, -⟩
        cases hinfo.symm.trans h
        cases hprot.symm.trans htcp
      dsimp only
      by_cases hrow : Complete row info.name
      · rw [toInputInfo_of_complete (info.toRouteInfo row.inRoute port) hrow]
        exact .udp _ hfind hlock huuid rfl
      · rw [toInputInfo_of_not_complete (info.toRouteInfo row.inRoute port) hrow]
        exact .skipped hfind hlock
    | tcpip info port hinfo hport hlock =>
      dsimp only
      by_cases hrow : Complete row info.name
      · rw [toInputInfo_of_complete (info.toRouteInfo row.inRoute port) hrow]
        exact .tcpip info _ hfind hinfo hlock hrow rfl hlock.2.2.1
      · rw [toInputInfo_of_not_complete (info.toRouteInfo row.inRoute port) hrow]
        exact .refused info hfind hinfo hlock hrow

end Streamer

/-! ## Updates -/

/-- Where an update is. -/
inductive Pc
  | idle
  /-- `getInputInfoFromDB`, with the set so far -/
  | rows (set : SortedSet InputInfo.uuid)
  /-- the inputs still to be deleted, and the set from the database -/
  | dels (todo : List InputInfo) (current : SortedSet InputInfo.uuid)
  /-- the inputs still to be added -/
  | adds (todo : List InputInfo)

structure Update where
  streamer : Streamer := {}
  pc : Pc := .idle

inductive Action
  /-- `processDB` up to the end of `processOutRoute`; without a route, `getOutRoute` throws -/
  | processOutRoute (uuid : Option String) (env : OutEnv)
  | row (row : Row) (netInfo : Option NetInfo) (netStart : Bool)
  /-- `getInputInfoFromDB` throws -/
  | rowsFailed
  /-- `getDel` -/
  | rowsRead
  | delInputInfo (netStop : Bool)
  /-- `getAdd` -/
  | deleted
  | addInputInfo (env : AddEnv)
  /-- the update is completed -/
  | added
  /-- `Factory::stop` -/
  | stop
  deriving DecidableEq, Repr

def step (u : Update) (a : Action) : Option Update :=
  match u.pc, a with
  | .idle, .processOutRoute none _ => some u
  | .idle, .processOutRoute (some uuid) env =>
    match u.streamer.processOutRoute uuid env with
    | (s, true) => some { streamer := s, pc := .rows {} }
    | (s, false) => some { streamer := s, pc := .idle }
  | .rows set, .row row netInfo netStart =>
    let (s, set') := u.streamer.getInputInfo set row netInfo netStart
    some { streamer := s, pc := .rows set' }
  | .rows _, .rowsFailed => some { u with pc := .idle }
  | .rows set, .rowsRead =>
    some { u with pc := .dels (u.streamer.mInfo.difference set).elems set }
  | .dels (info :: todo) current, .delInputInfo netStop =>
    some { streamer := u.streamer.delInputInfo info netStop, pc := .dels todo current }
  | .dels [] current, .deleted =>
    some { u with pc := .adds (current.difference u.streamer.mInfo).elems }
  | .adds (info :: todo), .addInputInfo env =>
    some { streamer := u.streamer.addInputInfo info env, pc := .adds todo }
  | .adds [], .added => some { u with pc := .idle }
  | _, .stop => some { u with streamer := { u.streamer with stopped := true } }
  | _, _ => none

/-- What a step can do. -/
inductive Moves (u : Update) : Action → Update → Prop
  | noOutRoute (env : OutEnv) (hpc : u.pc = .idle) : Moves u (.processOutRoute none env) u
  | outRoute (uuid : String) (env : OutEnv) (hpc : u.pc = .idle)
      (hok : (u.streamer.processOutRoute uuid env).2 = true) :
      Moves u (.processOutRoute (some uuid) env)
        { streamer := (u.streamer.processOutRoute uuid env).1, pc := .rows {} }
  | outRouteFailed (uuid : String) (env : OutEnv) (hpc : u.pc = .idle)
      (hok : (u.streamer.processOutRoute uuid env).2 = false) :
      Moves u (.processOutRoute (some uuid) env)
        { streamer := (u.streamer.processOutRoute uuid env).1, pc := .idle }
  | row (set : SortedSet InputInfo.uuid) (row : Row) (netInfo : Option NetInfo) (netStart : Bool)
      (hpc : u.pc = .rows set) :
      Moves u (.row row netInfo netStart)
        { streamer := (u.streamer.getInputInfo set row netInfo netStart).1
          pc := .rows (u.streamer.getInputInfo set row netInfo netStart).2 }
  | rowsFailed (set : SortedSet InputInfo.uuid) (hpc : u.pc = .rows set) :
      Moves u .rowsFailed { u with pc := .idle }
  | rowsRead (set : SortedSet InputInfo.uuid) (hpc : u.pc = .rows set) :
      Moves u .rowsRead { u with pc := .dels (u.streamer.mInfo.difference set).elems set }
  | delInputInfo (info : InputInfo) (todo : List InputInfo) (current : SortedSet InputInfo.uuid)
      (netStop : Bool) (hpc : u.pc = .dels (info :: todo) current) :
      Moves u (.delInputInfo netStop)
        { streamer := u.streamer.delInputInfo info netStop, pc := .dels todo current }
  | deleted (current : SortedSet InputInfo.uuid) (hpc : u.pc = .dels [] current) :
      Moves u .deleted { u with pc := .adds (current.difference u.streamer.mInfo).elems }
  | addInputInfo (info : InputInfo) (todo : List InputInfo) (env : AddEnv)
      (hpc : u.pc = .adds (info :: todo)) :
      Moves u (.addInputInfo env)
        { streamer := u.streamer.addInputInfo info env, pc := .adds todo }
  | added (hpc : u.pc = .adds []) : Moves u .added { u with pc := .idle }
  | stop : Moves u .stop { u with streamer := { u.streamer with stopped := true } }

variable {u u' : Update} {a : Action}

theorem step_cases (h : step u a = some u') : Moves u a u' := by
  unfold step at h
  split at h
  case h_1 env hpc => cases h; exact .noOutRoute env hpc
  case h_2 uuid env hpc =>
    split at h
    case h_1 s hs =>
      cases h
      simpa [hs] using Moves.outRoute uuid env hpc (by rw [hs])
    case h_2 s hs =>
      cases h
      simpa [hs] using Moves.outRouteFailed uuid env hpc (by rw [hs])
  case h_3 set row netInfo netStart hpc => cases h; exact .row set row netInfo netStart hpc
  case h_4 set hpc => cases h; exact .rowsFailed set hpc
  case h_5 set hpc => cases h; exact .rowsRead set hpc
  case h_6 info todo current netStop hpc =>
    cases h
    exact .delInputInfo info todo current netStop hpc
  case h_7 current hpc => cases h; exact .deleted current hpc
  case h_8 info todo env hpc => cases h; exact .addInputInfo info todo env hpc
  case h_9 hpc => cases h; exact .added hpc
  case h_10 => cases h; exact .stop
  case h_11 => cases h

/-! ## The inputs of an update -/

/-- Where the set and `m_info` share a UUID they share the input. -/
def Known (s : Streamer) (set : SortedSet InputInfo.uuid) : Prop :=
  ∀ i ∈ set, i.uuid ∈ s.mInfo.keys → i ∈ s.mInfo

/-- The inputs that are still to be deleted are in `m_info`, and those that are still to be added
are not. -/
def Inv (u : Update) : Prop :=
  match u.pc with
  | .idle => True
  | .rows set => Known u.streamer set
  | .dels todo current =>
    (todo.map InputInfo.uuid).Nodup ∧ (∀ i ∈ todo, i ∈ u.streamer.mInfo) ∧ Known u.streamer current
  | .adds todo =>
    (todo.map InputInfo.uuid).Nodup ∧ ∀ i ∈ todo, i.uuid ∉ u.streamer.mInfo.keys

section

variable {set : SortedSet InputInfo.uuid} {todo : List InputInfo} {info i : InputInfo}

theorem Inv.of_rows (hI : Inv u) (hpc : u.pc = .rows set) : Known u.streamer set := by
  simpa only [Inv, hpc] using hI

theorem Inv.of_dels (hI : Inv u) (hpc : u.pc = .dels todo set) :
    (todo.map InputInfo.uuid).Nodup ∧ (∀ i ∈ todo, i ∈ u.streamer.mInfo) ∧
      Known u.streamer set := by
  simpa only [Inv, hpc] using hI

theorem Inv.of_adds (hI : Inv u) (hpc : u.pc = .adds todo) :
    (todo.map InputInfo.uuid).Nodup ∧ ∀ i ∈ todo, i.uuid ∉ u.streamer.mInfo.keys := by
  simpa only [Inv, hpc] using hI

theorem Known.insert {s : Streamer} (h : Known s set)
    (hinfo : info.uuid ∈ s.mInfo.keys → info ∈ s.mInfo) : Known s (set.insert info) := by
  intro i hi hkeys
  obtain rfl | hmem := SortedSet.mem_of_mem_insert hi
  · exact hinfo hkeys
  · exact h i hmem hkeys

theorem Known.delInputInfo {s : Streamer} {netStop : Bool} (h : Known s set) :
    Known (s.delInputInfo info netStop) set := by
  intro i hi hkeys
  obtain ⟨t, ht, htuuid⟩ := SortedSet.mem_keys.1 hkeys
  have hts : t ∈ s.mInfo := Streamer.mem_mInfo_of_mem_delInputInfo ht
  have his : i ∈ s.mInfo := h i hi (SortedSet.mem_keys.2 ⟨t, hts, htuuid⟩)
  exact SortedSet.eq_of_key_eq hts his htuuid ▸ ht

theorem Known.getInputInfo {s : Streamer} {row : Row} {netInfo : Option NetInfo} {netStart : Bool}
    (h : Known s set) :
    Known (s.getInputInfo set row netInfo netStart).1
      (s.getInputInfo set row netInfo netStart).2 := by
  have hcases := Streamer.getInputInfo_cases s set row netInfo netStart
  generalize s.getInputInfo set row netInfo netStart = res at hcases ⊢
  cases hcases with
  | known info hfind => exact h.insert fun _ => Streamer.mem_of_getInfoByUUID_eq_some hfind
  | skipped | refused => exact h
  | udp info hfind hlock hne huuid =>
    have hnew := Streamer.not_mem_keys_of_getInfoByUUID_eq_none hfind hne
    exact h.insert fun hkeys => absurd (huuid ▸ hkeys) hnew
  | tcpip info input hfind hinfo hlock hrow huuid =>
    have hnew := Streamer.not_mem_keys_of_getInfoByUUID_eq_none hfind hlock.1
    exact Known.insert (s := s.lock row.inRoute) h fun hkeys => absurd (huuid ▸ hkeys) hnew

/-- The head of the list has a UUID of its own. -/
theorem uuid_ne_of_mem (h : ((info :: todo).map InputInfo.uuid).Nodup) (hi : i ∈ todo) :
    i.uuid ≠ info.uuid := fun heq => (List.nodup_cons.1 h).1 (heq ▸ List.mem_map_of_mem hi)

theorem inv_step (hI : Inv u) (h : step u a = some u') : Inv u' := by
  cases step_cases h with
  | noOutRoute => exact hI
  | outRouteFailed | rowsFailed | added => trivial
  | outRoute => exact fun _ hi => absurd hi List.not_mem_nil
  | row set row netInfo netStart hpc => exact (hI.of_rows hpc).getInputInfo
  | rowsRead set hpc =>
    refine ⟨(u.streamer.mInfo.difference set).nodup_keys, fun i hi => ?_, hI.of_rows hpc⟩
    exact (SortedSet.mem_difference.1 hi).1
  | delInputInfo info todo current netStop hpc =>
    obtain ⟨hnodup, hmem, hknown⟩ := hI.of_dels hpc
    refine ⟨(List.nodup_cons.1 hnodup).2, fun i hi => ?_, hknown.delInputInfo⟩
    apply Streamer.mem_mInfo_delInputInfo (hmem i (List.mem_cons_of_mem info hi))
    exact uuid_ne_of_mem hnodup hi
  | deleted current =>
    refine ⟨(current.difference u.streamer.mInfo).nodup_keys, fun i hi => ?_⟩
    exact (SortedSet.mem_difference.1 hi).2
  | addInputInfo info todo env hpc =>
    obtain ⟨hnodup, hnew⟩ := hI.of_adds hpc
    refine ⟨(List.nodup_cons.1 hnodup).2, fun i hi hkeys => ?_⟩
    obtain heq | hmem := Streamer.mem_keys_of_mem_keys_addInputInfo hkeys
    · exact uuid_ne_of_mem hnodup hi heq
    · exact hnew i (List.mem_cons_of_mem info hi) hmem
  | stop => exact hI

end

end Kalinka.HttpStreamer
