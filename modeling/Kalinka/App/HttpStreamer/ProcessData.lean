import Mathlib.Data.Nat.Notation
import Kalinka.App.HttpStreamer.ConThread
import Kalinka.Lib.Run

/-!
# The wait of a connection thread

`processData` waits in `m_wait.startWait` before it looks at `m_data`, and `Event::stopWait` does
nothing unless the thread waits.  `addData` and `stop` call `stopWait`; `processRequest`, which
appends the header, does not.  When the time of the wait is up, the thread ends with what lies in
`m_data`.

`throughout_fed_iff` says in which runs nothing lies there unnoticed.
-/

namespace Kalinka.Http

open Run

/-- A connection thread with its `m_wait`.  In `.wait` the thread stands before the wait while
`mLoop` is false, and in `pthread_cond_timedwait` while it is true. -/
structure Sender where
  thread : ConnectThread := {}
  /-- `m_wait.m_exit` -/
  mExit : Bool := false
  /-- `m_wait.m_loop` -/
  mLoop : Bool := false
  /-- `addData` has still to call `stopWait` -/
  signalling : Bool := false
  /-- the calls of `stop` that have not called `stopWait` yet -/
  stopping : ℕ := 0
  /-- what lay in `m_data` when the time of a wait was up -/
  dropped : DataList := []
  deriving DecidableEq, Repr

/-- The steps that others take with the thread. -/
def ConnectAction.foreign : ConnectAction → Bool
  | .stop | .addData .. | .push => true
  | _ => false

namespace Sender

inductive Action
  /-- a step of the thread outside the wait -/
  | thread (a : ConnectAction)
  | startWait
  /-- the wait returns `OK`, also without a signal -/
  | wake
  /-- the wait returns `ERROR` -/
  | timeout
  /-- `addData`, up to its `push_back` or its `stopWait` -/
  | addData (path : Path) (data : BinaryData) (now : ℕ)
  | push
  /-- the `stopWait` of `addData` -/
  | signal
  /-- `Thread::stop` -/
  | stop
  /-- the `stopWait` of `stop` -/
  | stopWait
  deriving DecidableEq, Repr

/-- `m_wait.stopWait()` -/
def stopWait (s : Sender) : Sender := if s.mLoop then { s with mExit := true } else s

/-- The end of `m_wait.startWait`, with the thread behind it. -/
def endWait (s : Sender) (thread : ConnectThread) : Sender :=
  { s with thread, mExit := false, mLoop := false }

/-- The wait gives no data any more: `processData` throws. -/
def timeout (s : Sender) : Sender :=
  { s.endWait { s.thread with pc := .closing } with dropped := s.dropped ++ s.thread.mData }

def step (s : Sender) : Action → Option Sender
  | .thread a =>
    if s.thread.pc = .wait ∨ a.foreign = true then none
    else (s.thread.step a).map fun t => { s with thread := t }
  | .startWait =>
    if s.thread.pc = .wait ∧ s.mLoop = false then
      if s.mExit then (s.thread.step .wake).map s.endWait else some { s with mLoop := true }
    else none
  | .wake => if s.mLoop then (s.thread.step .wake).map s.endWait else none
  | .timeout => if s.mLoop then some s.timeout else none
  | .addData path data now =>
    if s.signalling then none
    else (s.thread.step (.addData path data now)).map fun t =>
      { s with thread := t, signalling := decide (path = s.thread.mPath ∧ t.adding = none) }
  | .push => (s.thread.step .push).map fun t => { s with thread := t, signalling := true }
  | .signal => if s.signalling then some { s.stopWait with signalling := false } else none
  | .stop =>
    (s.thread.step .stop).map fun t => { s with thread := t, stopping := s.stopping + 1 }
  | .stopWait =>
    if s.stopping = 0 then none else some { s.stopWait with stopping := s.stopping - 1 }

/-! ## What is asked of it -/

/-- There is something to be sent, or the thread has been stopped. -/
def Called (s : Sender) : Prop := s.thread.mData ≠ [] ∨ s.thread.stopped = true

/-- A call of `stopWait` is still to come. -/
def Signals (s : Sender) : Prop :=
  s.thread.adding ≠ none ∨ s.signalling = true ∨ s.stopping ≠ 0

/-- The thread is in the wait, no wake-up is pending, and it is called. -/
structure Starved (s : Sender) : Prop where
  waiting : s.mLoop = true
  exit : s.mExit = false
  signals : ¬s.Signals
  called : s.Called

/-- The thread is not starved, and no wait has dropped anything. -/
structure Fed (s : Sender) : Prop where
  notStarved : ¬s.Starved
  dropped : s.dropped = []

/-- A wake-up is on its way: its `stopWait` is still to come, or the thread has not noticed it. -/
def Waking (s : Sender) : Prop := s.Signals ∨ s.mExit = true

/-- A wait only begins when there is nothing to be sent and the thread goes on, or when a `stopWait`
is still to come; and its time is not up between the `push_back` of something that is still there
and the wake-up for it. -/
def WaitOk (s : Sender) : Action → Prop
  | .startWait => s.Called → s.Signals
  | .timeout => s.Waking → s.thread.mData = []
  | _ => True

/-- What holds in every run. -/
structure Inv (s : Sender) : Prop where
  loop : s.mLoop = true → s.thread.pc = .wait
  exit : s.mExit = true → s.mLoop = true

variable {s s' : Sender} {t : ConnectThread} {a : Action} {b : ConnectAction}

/-! ## The steps of others -/

/-- Others append to `m_data` and stop the thread; it stays where it is. -/
theorem pc_of_foreign (hb : b.foreign = true) (h : s.thread.step b = some t) :
    t.pc = s.thread.pc := by
  cases b with
  | stop => exact Option.some.inj h ▸ rfl
  | addData path data now =>
    obtain ⟨-, h⟩ := Option.ite_none_right_eq_some.1 h
    obtain ⟨hang, stopped, adding, hframe, -⟩ := s.thread.addData_frame path data now
    rw [hframe, Option.some.injEq] at h
    exact h ▸ rfl
  | push =>
    obtain ⟨data, -, rfl⟩ := Option.map_eq_some_iff.1 h
    rfl
  | _ => cases hb

/-- A portion for another path changes nothing. -/
theorem addData_of_ne {path : Path} {data : BinaryData} {now : ℕ} (hne : path ≠ s.thread.mPath)
    (h : s.thread.step (.addData path data now) = some t) : t = s.thread := by
  obtain ⟨-, h⟩ := Option.ite_none_right_eq_some.1 h
  rw [ConnectThread.addData, if_neg hne] at h
  exact (Option.some.inj h).symm

theorem Inv.signalled (hI : s.Inv) : s.stopWait.Inv := by
  unfold stopWait
  split
  next h => exact ⟨hI.loop, fun _ => h⟩
  next => exact hI

theorem Inv.step (hI : s.Inv) (hs : s.step a = some s') : s'.Inv := by
  cases a with
  | thread b =>
    obtain ⟨hpc, hs⟩ := Option.ite_none_left_eq_some.1 hs
    obtain ⟨t, -, rfl⟩ := Option.map_eq_some_iff.1 hs
    exact ⟨fun hloop => absurd (.inl (hI.loop hloop)) hpc, hI.exit⟩
  | startWait =>
    obtain ⟨hpc, hs⟩ := Option.ite_none_right_eq_some.1 hs
    split at hs
    · obtain ⟨t, -, rfl⟩ := Option.map_eq_some_iff.1 hs
      exact ⟨fun h => (by cases h), fun h => (by cases h)⟩
    · obtain rfl := Option.some.inj hs
      exact ⟨fun _ => hpc.1, fun _ => rfl⟩
  | wake =>
    obtain ⟨-, hs⟩ := Option.ite_none_right_eq_some.1 hs
    obtain ⟨t, -, rfl⟩ := Option.map_eq_some_iff.1 hs
    exact ⟨fun h => (by cases h), fun h => (by cases h)⟩
  | timeout =>
    obtain ⟨-, hs⟩ := Option.ite_none_right_eq_some.1 hs
    obtain rfl := Option.some.inj hs
    exact ⟨fun h => (by cases h), fun h => (by cases h)⟩
  | addData path data now =>
    obtain ⟨-, hs⟩ := Option.ite_none_left_eq_some.1 hs
    obtain ⟨t, ht, rfl⟩ := Option.map_eq_some_iff.1 hs
    exact ⟨fun h => (pc_of_foreign rfl ht).trans (hI.loop h), hI.exit⟩
  | push =>
    obtain ⟨t, ht, rfl⟩ := Option.map_eq_some_iff.1 hs
    exact ⟨fun h => (pc_of_foreign rfl ht).trans (hI.loop h), hI.exit⟩
  | signal =>
    obtain ⟨-, hs⟩ := Option.ite_none_right_eq_some.1 hs
    obtain rfl := Option.some.inj hs
    exact ⟨hI.signalled.loop, hI.signalled.exit⟩
  | stop =>
    obtain rfl := Option.some.inj hs
    exact ⟨hI.loop, hI.exit⟩
  | stopWait =>
    obtain ⟨-, hs⟩ := Option.ite_none_left_eq_some.1 hs
    obtain rfl := Option.some.inj hs
    exact ⟨hI.signalled.loop, hI.signalled.exit⟩

/-! ## Waits -/

theorem fed_of_not_loop (h : s.mLoop = false) (hdropped : s.dropped = []) : s.Fed :=
  ⟨fun hstarved => (by rw [hstarved.waiting] at h; cases h), hdropped⟩

theorem fed_of_signals (h : s.Signals) (hdropped : s.dropped = []) : s.Fed :=
  ⟨fun hstarved => hstarved.signals h, hdropped⟩

theorem fed_of_exit (h : s.mExit = true) (hdropped : s.dropped = []) : s.Fed :=
  ⟨fun hstarved => (by rw [hstarved.exit] at h; cases h), hdropped⟩

/-- A `stopWait` either finds the thread outside the wait or wakes it up. -/
theorem fed_stopWait (signalling : Bool) (stopping : ℕ) (hdropped : s.dropped = []) :
    ({ s.stopWait with signalling, stopping } : Sender).Fed := by
  unfold stopWait
  split
  next => exact fed_of_exit rfl hdropped
  next h => exact fed_of_not_loop (eq_false_of_ne_true h) hdropped

theorem fed_startWait_iff (hdropped : s.dropped = []) (hexit : s.mExit = false) :
    ({ s with mLoop := true } : Sender).Fed ↔ (s.Called → s.Signals) := by
  constructor
  · intro h hcalled
    by_contra hsignals
    exact h.notStarved ⟨rfl, hexit, hsignals, hcalled⟩
  · exact fun h => ⟨fun hstarved => hstarved.signals (h hstarved.called), hdropped⟩

/-- In a wait with something to be sent a wake-up is on its way. -/
theorem waking_of_fed (h : s.Fed) (hloop : s.mLoop = true) (hdata : s.thread.mData ≠ []) :
    s.Waking := by
  by_contra hwaking
  obtain ⟨hsignals, hexit⟩ := not_or.1 hwaking
  exact h.notStarved ⟨hloop, eq_false_of_ne_true hexit, hsignals, .inl hdata⟩

theorem fed_step_iff (hI : s.Inv) (h : s.Fed) (hs : s.step a = some s') :
    s'.Fed ↔ s.WaitOk a := by
  have hdropped := h.dropped
  cases a with
  | thread b =>
    obtain ⟨hpc, hs⟩ := Option.ite_none_left_eq_some.1 hs
    obtain ⟨t, -, rfl⟩ := Option.map_eq_some_iff.1 hs
    have hloop : s.mLoop = false :=
      eq_false_of_ne_true fun hloop => hpc (.inl (hI.loop hloop))
    exact iff_of_true (fed_of_not_loop hloop hdropped) trivial
  | startWait =>
    obtain ⟨⟨-, hloop⟩, hs⟩ := Option.ite_none_right_eq_some.1 hs
    have hexit : s.mExit = false := eq_false_of_ne_true fun hexit => by
      rw [hI.exit hexit] at hloop
      cases hloop
    rw [if_neg (by simp [hexit]), Option.some.injEq] at hs
    subst hs
    exact fed_startWait_iff hdropped hexit
  | wake =>
    obtain ⟨-, hs⟩ := Option.ite_none_right_eq_some.1 hs
    obtain ⟨t, -, rfl⟩ := Option.map_eq_some_iff.1 hs
    exact iff_of_true (fed_of_not_loop rfl hdropped) trivial
  | timeout =>
    obtain ⟨hloop, hs⟩ := Option.ite_none_right_eq_some.1 hs
    obtain rfl := Option.some.inj hs
    have heq : s.timeout.dropped = s.thread.mData := by
      rw [timeout, hdropped, List.nil_append]
    refine ⟨fun h _ => heq.symm.trans h.dropped, fun hok => fed_of_not_loop rfl (heq.trans ?_)⟩
    by_contra hdata
    exact hdata (hok (waking_of_fed h hloop hdata))
  | addData path data now =>
    refine iff_of_true ?_ trivial
    obtain ⟨hsignalling, hs⟩ := Option.ite_none_left_eq_some.1 hs
    obtain ⟨t, ht, rfl⟩ := Option.map_eq_some_iff.1 hs
    by_cases hpath : path = s.thread.mPath
    · refine fed_of_signals ?_ hdropped
      by_cases hadding : t.adding = none
      · exact .inr (.inl (decide_eq_true ⟨hpath, hadding⟩))
      · exact .inl hadding
    · obtain rfl := addData_of_ne hpath ht
      refine ⟨fun hstarved => h.notStarved ⟨hstarved.waiting, hstarved.exit, ?_, hstarved.called⟩,
        hdropped⟩
      rintro (hadding | hsignal | hstopping)
      · exact hstarved.signals (.inl hadding)
      · exact hsignalling hsignal
      · exact hstarved.signals (.inr (.inr hstopping))
  | push =>
    obtain ⟨t, -, rfl⟩ := Option.map_eq_some_iff.1 hs
    exact iff_of_true (fed_of_signals (.inr (.inl rfl)) hdropped) trivial
  | signal =>
    obtain ⟨-, hs⟩ := Option.ite_none_right_eq_some.1 hs
    obtain rfl := Option.some.inj hs
    exact iff_of_true (fed_stopWait false _ hdropped) trivial
  | stop =>
    obtain rfl := Option.some.inj hs
    exact iff_of_true (fed_of_signals (.inr (.inr (Nat.succ_ne_zero _))) hdropped) trivial
  | stopWait =>
    obtain ⟨-, hs⟩ := Option.ite_none_left_eq_some.1 hs
    obtain rfl := Option.some.inj hs
    exact iff_of_true (fed_stopWait _ (s.stopping - 1) hdropped) trivial

/-- The runs in which the thread never waits on what has to be sent: those in which a wait only
begins when there is nothing, or with a `stopWait` to come, and its time is not up between a
`push_back` and the wake-up. -/
theorem throughout_fed_iff (as : List Action) :
    Throughout step Fed {} as ↔ EachStep step WaitOk {} as :=
  throughout_iff_eachStep Inv.step fed_step_iff ⟨fun h => (by cases h), fun h => (by cases h)⟩
    (fed_of_not_loop rfl rfl)

/-- The thread waits right after the header has been appended. -/
def headerRun : List Action :=
  [.thread (.parseRequest "GET /a HTTP/1.0".toList), .thread (.getInThread (some 0)),
    .thread .processResponse, .thread .processOK, .thread (.pushHeader [0x46, 0x4C, 0x56]),
    .thread .processData, .startWait]

/-- The header waits for the first portion, and is lost if that does not come in time. -/
theorem header_starved : ∃ s, exec step {} headerRun = some s ∧ s.Starved ∧
    ∃ s', s.step .timeout = some s' ∧ s'.dropped = [[0x46, 0x4C, 0x56]] := by
  refine ⟨_, rfl, ⟨rfl, rfl, ?_, .inl (List.cons_ne_nil _ _)⟩, _, rfl, rfl⟩
  rintro (hadding | hsignalling | hstopping)
  · exact hadding rfl
  · cases hsignalling
  · exact hstopping rfl

end Sender

end Kalinka.Http
