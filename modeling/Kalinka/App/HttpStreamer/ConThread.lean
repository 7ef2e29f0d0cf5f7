import Mathlib.Data.Nat.Notation
import Mathlib.Tactic.SplitIfs
import Kalinka.Common.Utils
import Kalinka.Lib.Run

/-!
# Connection threads of the HTTP streamer

A `ConnectThread` reads its request, looks up the input of the path, answers, and then sends what
lies in `m_data`.  Meanwhile the input thread calls `addData` for every portion of media data: it
tests the path and the size of `m_data`, and in a later section appends the portion.

`parseRequest` makes the path known some steps before `processRequest` appends the header of the
stream.  `throughout_headerFirst` says in which runs the header is sent first all the same: those in
which no input thread finds the path in between.
-/

namespace Kalinka.Http

open Run
open Utils (split toInt toSize)

/-! ## Data and requests -/

abbrev BinaryData := List UInt8

/-- A path, of a request or of an input. -/
abbrev Path := List Char

/-- `SafeList<BinaryData>`. -/
abbrev DataList := List BinaryData

/-- `SafeList::size`: `std::accumulate` keeps the sum in an `int`, since its initial value is one,
while `Accumulator` takes and returns a `size_t`. -/
def DataList.size (l : DataList) : ℕ :=
  toSize (l.foldl (fun size elem => toInt (toSize size + elem.length)) 0)

/-- Behind a portion of 4 GiB there is room for more. -/
example (data : BinaryData) (h : data.length = 2 ^ 32) : DataList.size [data, [1]] = 1 := by
  have hwrap : toInt (toSize 0 + data.length) = 0 := by rw [h]; rfl
  rw [DataList.size, List.foldl_cons, hwrap]
  rfl

/-- `CONNECTIONBUFFER_MAX_SIZE` -/
def connectionBufferMaxSize : ℕ := 1 * 1024 * 1024

/-- `WAITINTERVAL4SLOW`, in seconds. -/
def waitInterval4Slow : ℕ := 60 * 10

inductive RequestType
  | unknown
  | head
  | get
  deriving DecidableEq, Repr

inductive ResponseType
  | unknown
  | ok
  | notFound
  deriving DecidableEq, Repr

inductive HTTPVersion
  | unknown
  | http10
  | http11
  deriving DecidableEq, Repr

/-- What the log of a connection shows of `m_data`. -/
inductive Item
  /-- `processRequest` has passed its last block, with this header of the stream -/
  | header (data : BinaryData)
  | portion (data : BinaryData)
  deriving DecidableEq, Repr

/-- What the item has put into `m_data`: an empty header is not appended. -/
def Item.toList : Item → DataList
  | .header data => if data = [] then [] else [data]
  | .portion data => [data]

/-! ## The thread -/

/-- Where the thread is; an input thread is named by its number. -/
inductive ConnectPc
  /-- in `processRequest`, before `parseRequest` -/
  | request
  /-- before `getInThread()` -/
  | lookup
  /-- before `processResponse(inthread)` -/
  | respond (inthread : Option ℕ)
  /-- before `processOK(inthread)` -/
  | ok (inthread : ℕ)
  /-- before the header of `inthread` is taken and appended -/
  | header (inthread : ℕ)
  /-- in `processData`, before `while(!isStopped())` -/
  | loop
  /-- in `m_wait.startWait` -/
  | wait
  /-- before `while (m_data.empty() == false)` -/
  | send
  /-- behind the `try` of `start()`, before `getInThread()` -/
  | closing
  /-- before `inthread->decreaseConnectionCount()` -/
  | leave (inthread : ℕ)
  | finished
  deriving DecidableEq, Repr

namespace ConnectPc

/-- The header of the stream is still ahead. -/
def beforeHeader : ConnectPc → Bool
  | .request | .lookup | .respond _ | .ok _ | .header _ => true
  | _ => false

/-- Between `parseRequest` and the header of the stream. -/
def answering : ConnectPc → Bool
  | .lookup | .respond _ | .ok _ | .header _ => true
  | _ => false

/-- `start()` has left its `try` block. -/
def left : ConnectPc → Bool
  | .closing | .leave _ | .finished => true
  | _ => false

/-- In `processData`. -/
def inData : ConnectPc → Bool
  | .loop | .wait | .send => true
  | _ => false

theorem answering_of_beforeHeader {pc : ConnectPc} (h : pc.beforeHeader = true)
    (hne : pc ≠ .request) : pc.answering = true := by
  cases pc <;> simp_all [beforeHeader, answering]

theorem beforeHeader_of_inData {pc : ConnectPc} (h : pc.inData = true) :
    pc.beforeHeader = false := by
  cases pc <;> simp_all [inData, beforeHeader]

end ConnectPc

structure ConnectThread where
  mPath : Path := []
  mData : DataList := []
  mRequestType : RequestType := .unknown
  mResponseType : ResponseType := .unknown
  mHttpVersion : HTTPVersion := .unknown
  mHangTime : ℕ := 0
  /-- the state of `m_stop` -/
  stopped : Bool := false
  pc : ConnectPc := .request
  /-- the portion of an input thread between the test of `m_data.size()` and `push_back` -/
  adding : Option BinaryData := none
  /-- `processRequest` has passed the block with the header -/
  headed : Bool := false
  accepted : List Item := []
  /-- the items taken out of `m_data` for `sendData` -/
  sent : DataList := []
  deriving DecidableEq, Repr

inductive ConnectAction
  | parseRequest (reqstr : List Char)
  /-- `getInThread()` returns `inthread` -/
  | getInThread (inthread : Option ℕ)
  | processResponse
  | processOK
  /-- the last block of `processRequest`, with what `getHeader()` returns -/
  | pushHeader (header : BinaryData)
  /-- `m_wait.startWait` returns `OK` -/
  | wake
  /-- the next step of `processData` outside the wait -/
  | processData
  /-- an exception inside the `try` of `start()` -/
  | fail
  | decreaseConnectionCount
  | stop
  /-- an input thread calls `addData` at the time `now` -/
  | addData (path : Path) (data : BinaryData) (now : ℕ)
  /-- its `m_data.push_back` -/
  | push
  deriving DecidableEq, Repr

/-- The actions that append to `m_data`. -/
def ConnectAction.appends : ConnectAction → Bool
  | .pushHeader _ | .push => true
  | _ => false

namespace ConnectThread

/-- `parseRequest`: the thread afterwards, and whether it returned without an exception.  What was
set before an exception stays set. -/
def parseRequest (t : ConnectThread) (reqstr : List Char) : ConnectThread × Bool :=
  match split reqstr ['\t', ' '] with
  | [method, path, version] =>
    if method = "HEAD".toList then parsePath { t with mRequestType := .head } path version
    else if method = "GET".toList then parsePath { t with mRequestType := .get } path version
    else (t, false)
  | _ => (t, false)
where
  parsePath (t : ConnectThread) (path : Path) (version : List Char) : ConnectThread × Bool :=
    if path.head? ≠ some '/' then (t, false)
    else parseVersion { t with mPath := path } version
  parseVersion (t : ConnectThread) (version : List Char) : ConnectThread × Bool :=
    if version = "HTTP/1.0".toList then ({ t with mHttpVersion := .http10 }, true)
    else if version = "HTTP/1.1".toList then ({ t with mHttpVersion := .http11 }, true)
    else ({ t with mHttpVersion := .unknown }, false)

/-- `addData` up to the `push_back`. -/
def addData (t : ConnectThread) (path : Path) (data : BinaryData) (now : ℕ) : ConnectThread :=
  if path = t.mPath then
    if t.mData.size > connectionBufferMaxSize then
      if t.mHangTime = 0 then { t with mHangTime := now }
      else if now - t.mHangTime > waitInterval4Slow then { t with stopped := true }
      else t
    else { t with mHangTime := 0, adding := some data }
  else t

def pushHeader (t : ConnectThread) (header : BinaryData) : ConnectThread :=
  { t with
    mData := t.mData ++ (Item.header header).toList
    headed := true
    accepted := t.accepted ++ [.header header]
    pc := .loop }

def push (t : ConnectThread) (data : BinaryData) : ConnectThread :=
  { t with
    mData := t.mData ++ [data]
    accepted := t.accepted ++ [.portion data]
    adding := none }

def step (t : ConnectThread) : ConnectAction → Option ConnectThread
  | .parseRequest reqstr =>
    match t.pc with
    | .request =>
      let out := t.parseRequest reqstr
      some { out.1 with pc := if out.2 then .lookup else .closing }
    | _ => none
  | .getInThread inthread =>
    match t.pc, inthread with
    | .lookup, _ => some { t with pc := .respond inthread }
    | .closing, some i => some { t with pc := .leave i }
    | .closing, none => some { t with pc := .finished }
    | _, _ => none
  | .processResponse =>
    match t.pc with
    | .respond (some i) => some { t with mResponseType := .ok, pc := .ok i }
    | .respond none => some { t with mResponseType := .notFound, pc := .closing }
    | _ => none
  | .processOK =>
    match t.pc with
    | .ok i => some { t with pc := if t.mRequestType = .get then .header i else .closing }
    | _ => none
  | .pushHeader header =>
    match t.pc with
    | .header _ => some (t.pushHeader header)
    | _ => none
  | .wake =>
    match t.pc with
    | .wait => some { t with pc := if t.stopped then .closing else .send }
    | _ => none
  | .processData =>
    match t.pc, t.mData with
    | .loop, _ => some { t with pc := if t.stopped then .closing else .wait }
    | .send, [] => some { t with pc := .loop }
    | .send, data :: rest => some { t with mData := rest, sent := t.sent ++ [data] }
    | _, _ => none
  | .fail => if t.pc.left then none else some { t with pc := .closing }
  | .decreaseConnectionCount =>
    match t.pc with
    | .leave _ => some { t with pc := .finished }
    | _ => none
  | .stop => some { t with stopped := true }
  -- one portion at a time: `sendConnectionData` holds the lock of the container
  | .addData path data now =>
    if path ≠ [] ∧ t.adding = none then some (t.addData path data now) else none
  | .push => t.adding.map t.push

/-- What a connection sends begins with the header of the stream, no portion is accepted before
the header of a request that gets one, and the items are sent in the order in which they were
accepted. -/
structure Ordered (t : ConnectThread) : Prop where
  headerFirst : (∀ header, .header header ∉ t.accepted) ∨
    ∃ header portions, t.accepted = .header header :: List.map .portion portions
  /-- The first item sent is the header, where the stream has one. -/
  headerSent : ∀ data rest, t.sent = data :: rest →
    ∃ header portions, t.accepted = .header header :: portions ∧ (header ≠ [] → data = header)
  fifo : t.sent ++ t.mData = t.accepted.flatMap Item.toList

/-- No input thread calls `addData` with the path of a GET request between the end of its
`parseRequest` and the block of `processRequest` that appends the header. -/
def WindowOk (t : ConnectThread) (a : ConnectAction) : Prop :=
  t.mRequestType = .get → t.pc.answering = true →
    ∀ path data now, a = .addData path data now → path ≠ t.mPath

/-- What holds in every run. -/
structure Logged (t : ConnectThread) : Prop where
  fifo : t.sent ++ t.mData = t.accepted.flatMap Item.toList
  headed : t.headed = true ↔ ∃ header, .header header ∈ t.accepted
  early : t.pc.beforeHeader = true → t.headed = false

variable {t t' : ConnectThread} {a : ConnectAction} {path : Path} {data : BinaryData} {now : ℕ}

/-! ## The steps -/

/-- A step that appends nothing to `m_data`. -/
structure Quiet (t : ConnectThread) (a : ConnectAction) (t' : ConnectThread) : Prop where
  noAppend : a.appends = false
  accepted : t'.accepted = t.accepted
  headed : t'.headed = t.headed
  data : t'.sent ++ t'.mData = t.sent ++ t.mData
  sent : t'.sent = t.sent ∨
    ∃ data rest, a = .processData ∧ t.pc = .send ∧ t.mData = data :: rest
  adding : t'.adding = t.adding ∨
    ∃ data now, a = .addData t.mPath data now ∧ t.mPath ≠ [] ∧ t'.adding = some data
  /-- Only `parseRequest` sets what the request asks for. -/
  request : t.pc ≠ .request ∨ t'.pc = .request → t'.mPath = t.mPath ∧
    t'.mRequestType = t.mRequestType ∧ t'.mHttpVersion = t.mHttpVersion
  get : ∀ i, t'.pc = .header i → t.pc = .header i ∨ t'.mRequestType = .get

theorem quiet_goto {pc : ConnectPc} (response : ResponseType) (ha : a.appends = false)
    (hget : ∀ i, pc = .header i → t.mRequestType = .get) :
    Quiet t a { t with mResponseType := response, pc := pc } :=
  ⟨ha, rfl, rfl, rfl, .inl rfl, .inl rfl, fun _ => ⟨rfl, rfl, rfl⟩, fun i hi => .inr (hget i hi)⟩

theorem parseRequest_frame (t : ConnectThread) (reqstr : List Char) :
    ∃ path type version, (t.parseRequest reqstr).1 =
      { t with mPath := path, mRequestType := type, mHttpVersion := version } := by
  have hversion (t : ConnectThread) (version : List Char) : ∃ version',
      (parseRequest.parseVersion t version).1 = { t with mHttpVersion := version' } := by
    unfold parseRequest.parseVersion
    split_ifs <;> exact ⟨_, rfl⟩
  have hpath (t : ConnectThread) (path : Path) (version : List Char) : ∃ path' version',
      (parseRequest.parsePath t path version).1 =
        { t with mPath := path', mHttpVersion := version' } := by
    unfold parseRequest.parsePath
    split_ifs
    · exact ⟨_, _, rfl⟩
    · obtain ⟨version', h⟩ := hversion { t with mPath := path } version
      exact ⟨path, version', h⟩
  unfold parseRequest
  split
  · split_ifs
    · obtain ⟨path', version', h⟩ := hpath { t with mRequestType := .head } _ _
      exact ⟨path', .head, version', h⟩
    · obtain ⟨path', version', h⟩ := hpath { t with mRequestType := .get } _ _
      exact ⟨path', .get, version', h⟩
    · exact ⟨_, _, _, rfl⟩
  · exact ⟨_, _, _, rfl⟩

theorem addData_frame (t : ConnectThread) (path : Path) (data : BinaryData) (now : ℕ) :
    ∃ hang stopped adding, t.addData path data now =
      { t with mHangTime := hang, stopped := stopped, adding := adding } ∧
      (adding = t.adding ∨ path = t.mPath ∧ adding = some data) := by
  unfold addData
  split_ifs with hpath
  · exact ⟨_, _, _, rfl, .inl rfl⟩
  · exact ⟨_, _, _, rfl, .inl rfl⟩
  · exact ⟨_, _, _, rfl, .inl rfl⟩
  · exact ⟨_, _, _, rfl, .inr ⟨hpath, rfl⟩⟩
  · exact ⟨_, _, _, rfl, .inl rfl⟩

/-- Where a step takes the thread. -/
inductive Moves : ConnectAction → ConnectPc → ConnectPc → Prop
  | stays (b pc) : Moves b pc pc
  | parsed (reqstr) : Moves (.parseRequest reqstr) .request .lookup
  | found (i) : Moves (.getInThread i) .lookup (.respond i)
  | leaves (i) : Moves (.getInThread (some i)) .closing (.leave i)
  | unknown : Moves (.getInThread none) .closing .finished
  | counted (i) : Moves .processResponse (.respond (some i)) (.ok i)
  | answered (i) : Moves .processOK (.ok i) (.header i)
  | headed (data i) : Moves (.pushHeader data) (.header i) .loop
  | goesOn (b) {pc pc'} (h : pc.inData = true) (h' : pc'.inData = true) : Moves b pc pc'
  | closes (b) {pc} (h : pc.left = false) : Moves b pc .closing
  | left (i) : Moves .decreaseConnectionCount (.leave i) .finished

/-- What a step can do: only the two appends change what has been accepted. -/
theorem step_cases (hs : t.step a = some t') : Moves a t.pc t'.pc ∧
    (Quiet t a t' ∨
      (∃ header i, a = .pushHeader header ∧ t.pc = .header i ∧ t' = t.pushHeader header) ∨
      ∃ data, a = .push ∧ t.adding = some data ∧ t' = t.push data) := by
  cases a with
  | parseRequest reqstr =>
    simp only [step] at hs
    split at hs
    · rename_i hpc
      obtain ⟨path, type, version, hframe⟩ := t.parseRequest_frame reqstr
      rw [hframe, Option.some.injEq] at hs
      subst hs
      rw [hpc]
      cases h : (t.parseRequest reqstr).2 with
      | true =>
        refine ⟨.parsed reqstr, .inl ⟨rfl, rfl, rfl, rfl, .inl rfl, .inl rfl, ?_, by simp⟩⟩
        simp [hpc]
      | false =>
        refine ⟨.closes _ rfl, .inl ⟨rfl, rfl, rfl, rfl, .inl rfl, .inl rfl, ?_, by simp⟩⟩
        simp [hpc]
    · cases hs
  | getInThread inthread =>
    simp only [step] at hs
    split at hs <;> rename_i hpc
    · obtain rfl := Option.some.inj hs
      rw [hpc]
      exact ⟨.found _, .inl (quiet_goto _ rfl (by simp))⟩
    · obtain rfl := Option.some.inj hs
      rw [hpc]
      exact ⟨.leaves _, .inl (quiet_goto _ rfl (by simp))⟩
    · obtain rfl := Option.some.inj hs
      rw [hpc]
      exact ⟨.unknown, .inl (quiet_goto _ rfl (by simp))⟩
    · cases hs
  | processResponse =>
    simp only [step] at hs
    split at hs <;> rename_i hpc
    · obtain rfl := Option.some.inj hs
      rw [hpc]
      exact ⟨.counted _, .inl (quiet_goto _ rfl (by simp))⟩
    · obtain rfl := Option.some.inj hs
      rw [hpc]
      exact ⟨.closes _ rfl, .inl (quiet_goto _ rfl (by simp))⟩
    · cases hs
  | processOK =>
    simp only [step] at hs
    split at hs
    · rename_i i hpc
      obtain rfl := Option.some.inj hs
      rw [hpc]
      by_cases hget : t.mRequestType = .get
      · rw [if_pos hget]
        exact ⟨.answered i, .inl (quiet_goto _ rfl fun _ _ => hget)⟩
      · rw [if_neg hget]
        exact ⟨.closes _ rfl, .inl (quiet_goto _ rfl (by simp))⟩
    · cases hs
  | pushHeader header =>
    simp only [step] at hs
    split at hs
    · rename_i i hpc
      obtain rfl := Option.some.inj hs
      rw [hpc]
      exact ⟨.headed header i, .inr (.inl ⟨header, i, rfl, rfl, rfl⟩)⟩
    · cases hs
  | wake =>
    simp only [step] at hs
    split at hs
    · rename_i hpc
      obtain rfl := Option.some.inj hs
      rw [hpc]
      by_cases hstopped : t.stopped = true
      · rw [if_pos hstopped]
        exact ⟨.closes _ rfl, .inl (quiet_goto _ rfl (by simp))⟩
      · rw [if_neg hstopped]
        exact ⟨.goesOn _ rfl rfl, .inl (quiet_goto _ rfl (by simp))⟩
    · cases hs
  | processData =>
    simp only [step] at hs
    split at hs
    · rename_i hpc
      obtain rfl := Option.some.inj hs
      rw [hpc]
      by_cases hstopped : t.stopped = true
      · rw [if_pos hstopped]
        exact ⟨.closes _ rfl, .inl (quiet_goto _ rfl (by simp))⟩
      · rw [if_neg hstopped]
        exact ⟨.goesOn _ rfl rfl, .inl (quiet_goto _ rfl (by simp))⟩
    · rename_i hpc hdata
      obtain rfl := Option.some.inj hs
      rw [hpc]
      exact ⟨.goesOn _ rfl rfl, .inl (quiet_goto _ rfl (by simp))⟩
    · rename_i data rest hpc hdata
      obtain rfl := Option.some.inj hs
      refine ⟨.stays _ _, .inl ⟨rfl, rfl, rfl, ?_, .inr ⟨data, rest, rfl, hpc, hdata⟩, .inl rfl,
        fun _ => ⟨rfl, rfl, rfl⟩, fun _ => .inl⟩⟩
      rw [hdata, List.append_assoc, List.singleton_append]
    · cases hs
  | fail =>
    simp only [step] at hs
    split at hs
    · cases hs
    · rename_i hleft
      obtain rfl := Option.some.inj hs
      exact ⟨.closes _ (eq_false_of_ne_true hleft), .inl (quiet_goto _ rfl (by simp))⟩
  | decreaseConnectionCount =>
    simp only [step] at hs
    split at hs
    · rename_i i hpc
      obtain rfl := Option.some.inj hs
      rw [hpc]
      exact ⟨.left i, .inl (quiet_goto _ rfl (by simp))⟩
    · cases hs
  | stop =>
    obtain rfl := Option.some.inj hs
    exact ⟨.stays _ _, .inl ⟨rfl, rfl, rfl, rfl, .inl rfl, .inl rfl, fun _ => ⟨rfl, rfl, rfl⟩,
      fun _ => .inl⟩⟩
  | addData path data now =>
    obtain ⟨⟨hpath, -⟩, hs⟩ := Option.ite_none_right_eq_some.1 hs
    obtain rfl := Option.some.inj hs
    obtain ⟨hang, stopped, adding, hframe, hadding⟩ := t.addData_frame path data now
    rw [hframe]
    refine ⟨.stays _ _, .inl ⟨rfl, rfl, rfl, rfl, .inl rfl, hadding.imp_right ?_,
      fun _ => ⟨rfl, rfl, rfl⟩, fun _ => .inl⟩⟩
    rintro ⟨rfl, h⟩
    exact ⟨data, now, rfl, hpath, h⟩
  | push =>
    obtain ⟨data, hadding, rfl⟩ := Option.map_eq_some_iff.1 hs
    exact ⟨.stays _ _, .inr (.inr ⟨data, rfl, hadding, rfl⟩)⟩

theorem Moves.request {pc : ConnectPc} (h : Moves a pc .request) : pc = .request := by
  cases h with
  | stays => rfl
  | goesOn _ _ hin => cases hin

theorem Moves.inData {pc pc' : ConnectPc} (h : Moves a pc pc') (ha : a.appends = false)
    (hpc : pc'.inData = true) : pc.inData = true := by
  cases h with
  | stays => exact hpc
  | goesOn _ hin => exact hin
  | headed => cases ha
  | parsed | found | leaves | unknown | counted | answered | closes | left => cases hpc

theorem Moves.beforeHeader {pc pc' : ConnectPc} (h : Moves a pc pc')
    (hpc : pc'.beforeHeader = true) : pc.beforeHeader = true := by
  cases h with
  | stays => exact hpc
  | goesOn _ _ hin => rw [ConnectPc.beforeHeader_of_inData hin] at hpc; cases hpc
  | parsed | found | counted | answered => rfl
  | leaves | unknown | headed | closes | left => cases hpc

theorem Logged.step (h : t.Logged) (hs : t.step a = some t') : t'.Logged := by
  obtain ⟨hmoves, hquiet | ⟨header, -, -, -, rfl⟩ | ⟨data, -, -, rfl⟩⟩ := step_cases hs
  · refine ⟨?_, ?_, fun hpc => ?_⟩
    · rw [hquiet.data, hquiet.accepted, h.fifo]
    · rw [hquiet.headed, hquiet.accepted, h.headed]
    · rw [hquiet.headed, h.early (hmoves.beforeHeader hpc)]
  · refine ⟨?_, ?_, fun hpc => by cases hpc⟩
    · simp only [pushHeader, List.flatMap_append, List.flatMap_singleton, ← List.append_assoc,
        h.fifo]
    · exact iff_of_true rfl ⟨header, List.mem_append_right _ List.mem_cons_self⟩
  · refine ⟨?_, ?_, h.early⟩
    · simp only [push, List.flatMap_append, List.flatMap_singleton, ← List.append_assoc, h.fifo,
        Item.toList]
    · refine h.headed.trans (exists_congr fun header => ?_)
      simp [push]

/-! ## The order -/

/-- What holds in the runs that keep the window free: nothing is on its way into `m_data` while a
request that gets a header waits for it. -/
structure Early (t : ConnectThread) : Prop where
  unparsed : t.pc = .request → t.mPath = []
  get : ∀ i, t.pc = .header i → t.mRequestType = .get
  fresh : t.pc.beforeHeader = true → t.pc = .request ∨ t.mRequestType = .get →
    t.adding = none ∧ t.accepted = []
  inData : t.pc.inData = true → t.headed = true
  sent : t.sent ≠ [] → t.headed = true

theorem Early.quiet (h : t.Early) (hok : t.WindowOk a) (hmoves : Moves a t.pc t'.pc)
    (hquiet : Quiet t a t') : t'.Early := by
  refine ⟨fun hpc => ?_, fun i hpc => ?_, fun hbefore htype => ?_, fun hpc => ?_, fun hsent => ?_⟩
  · rw [(hquiet.request (.inr hpc)).1]
    rw [hpc] at hmoves
    exact h.unparsed hmoves.request
  · obtain hheader | htype := hquiet.get i hpc
    · rw [(hquiet.request (.inl (by simp [hheader]))).2.1]
      exact h.get i hheader
    · exact htype
  · have hbefore' := hmoves.beforeHeader hbefore
    have htype' : t.pc = .request ∨ t.mRequestType = .get := by
      by_cases hpc : t.pc = .request
      · exact .inl hpc
      · rw [(hquiet.request (.inl hpc)).2.1] at htype
        exact htype.imp_left fun hpc' => (hpc' ▸ hmoves).request
    obtain ⟨hadding, haccepted⟩ := h.fresh hbefore' htype'
    rw [hquiet.accepted]
    refine ⟨hquiet.adding.elim (·.trans hadding) ?_, haccepted⟩
    rintro ⟨data, now, rfl, hpath, -⟩
    -- neither before `parseRequest` nor in the window
    have hrequest : t.pc ≠ .request := fun hpc => hpath (h.unparsed hpc)
    have hanswering := ConnectPc.answering_of_beforeHeader hbefore' hrequest
    exact absurd rfl (hok (htype'.resolve_left hrequest) hanswering _ data now rfl)
  · rw [hquiet.headed]
    exact h.inData (hmoves.inData hquiet.noAppend hpc)
  · rw [hquiet.headed]
    obtain heq | ⟨_, _, -, hpc, -⟩ := hquiet.sent
    · exact h.sent (heq ▸ hsent)
    · exact h.inData (by rw [hpc]; rfl)

theorem early_step (h : t.Early) (hok : t.WindowOk a) (hs : t.step a = some t') : t'.Early := by
  obtain ⟨hmoves, hquiet | ⟨header, i, rfl, hpc, rfl⟩ | ⟨data, rfl, hadding, rfl⟩⟩ := step_cases hs
  · exact h.quiet hok hmoves hquiet
  · exact ⟨nofun, nofun, nofun, fun _ => rfl, fun _ => rfl⟩
  · refine ⟨h.unparsed, h.get, fun hbefore htype => ?_, h.inData, h.sent⟩
    rw [(h.fresh hbefore htype).1] at hadding
    cases hadding

/-- With the log as it is in every run, the order is a matter of what was accepted first. -/
theorem Logged.ordered (h : t.Logged) (hearly : t.Early)
    (hfirst : (∀ header, .header header ∉ t.accepted) ∨
      ∃ header portions, t.accepted = .header header :: List.map .portion portions) :
    t.Ordered := by
  refine ⟨hfirst, fun data rest hsent => ?_, h.fifo⟩
  obtain ⟨header, hmem⟩ := h.headed.1 (hearly.sent (by simp [hsent]))
  obtain hnone | ⟨header, portions, hcons⟩ := hfirst
  · exact absurd hmem (hnone header)
  · refine ⟨header, _, hcons, fun hne => ?_⟩
    have hfifo := h.fifo
    rw [hsent, hcons, List.flatMap_cons, Item.toList, if_neg hne] at hfifo
    exact (List.cons.inj hfifo).1

theorem ordered_step (h : t.Logged) (hearly : t.Early) (ho : t.Ordered) (hok : t.WindowOk a)
    (hs : t.step a = some t') : t'.Ordered := by
  apply (h.step hs).ordered (early_step hearly hok hs)
  obtain ⟨-, hquiet | ⟨header, i, rfl, hpc, rfl⟩ | ⟨data, rfl, -, rfl⟩⟩ := step_cases hs
  · rw [hquiet.accepted]
    exact ho.headerFirst
  · right
    have hempty := (hearly.fresh (by rw [hpc]; rfl) (.inr (hearly.get i hpc))).2
    exact ⟨header, [], by simp [pushHeader, hempty]⟩
  · obtain hnone | ⟨header, portions, hcons⟩ := ho.headerFirst
    · left
      intro header
      simp [push, hnone]
    · right
      exact ⟨header, portions ++ [data], by simp [push, hcons]⟩

/-- Where no input thread finds the path of a GET request between `parseRequest` and the block with
the header, the header is accepted and sent first. -/
theorem throughout_headerFirst {as : List ConnectAction} (h : EachStep step WindowOk {} as) :
    Throughout step Ordered {} as :=
  throughout_of_eachStep (I := fun t => t.Logged ∧ t.Early ∧ t.Ordered)
    (fun hI hok hs => ⟨hI.1.step hs, early_step hI.2.1 hok hs,
      ordered_step hI.1 hI.2.1 hI.2.2 hok hs⟩)
    (fun hI => hI.2.2)
    ⟨⟨rfl, by simp, fun _ => rfl⟩, ⟨fun _ => rfl, nofun, fun _ _ => ⟨rfl, rfl⟩, nofun, nofun⟩,
      ⟨.inl nofun, nofun, rfl⟩⟩ h

instance (t : ConnectThread) (a : ConnectAction) : Decidable (t.WindowOk a) :=
  match a with
  | .addData path _ _ =>
    decidable_of_iff (t.mRequestType = .get → t.pc.answering = true → path ≠ t.mPath)
      ⟨fun h hget hpc _ _ _ heq => (ConnectAction.addData.inj heq).1 ▸ h hget hpc,
        fun h hget hpc => h hget hpc _ _ _ rfl⟩
  | .parseRequest _ | .getInThread _ | .processResponse | .processOK | .pushHeader _ | .wake
  | .processData | .fail | .decreaseConnectionCount | .stop | .push =>
    .isTrue fun _ _ _ _ _ heq => nomatch heq

/-- While a request is answered there is a portion for another path, and the portions of its own
come when the header is there. -/
theorem throughout_headerFirst_get :
    let run := [.parseRequest "GET /a HTTP/1.0".toList, .getInThread (some 0),
      .addData "/b".toList [9] 0, .processResponse, .processOK, .pushHeader [0x46, 0x4C, 0x56],
      .processData, .addData "/a".toList [1] 0, .push, .wake, .processData, .processData,
      .addData "/a".toList [2] 0, .push, .processData]
    Throughout step Ordered {} run ∧
      (exec step {} run).map ConnectThread.sent = some [[0x46, 0x4C, 0x56], [1], [2]] :=
  ⟨throughout_headerFirst (by decide +kernel), by decide +kernel⟩

/-- A portion that comes right after `parseRequest` is sent before the header. -/
theorem portion_before_header : ∃ t, exec step {}
      [.parseRequest "GET /a HTTP/1.0".toList, .addData "/a".toList [1] 0, .push,
        .getInThread (some 0), .processResponse, .processOK, .pushHeader [0x46, 0x4C, 0x56],
        .processData, .wake, .processData, .processData] = some t ∧
    t.accepted = [.portion [1], .header [0x46, 0x4C, 0x56]] ∧
    t.sent = [[1], [0x46, 0x4C, 0x56]] :=
  ⟨_, rfl, by decide, by decide⟩

end ConnectThread

end Kalinka.Http
