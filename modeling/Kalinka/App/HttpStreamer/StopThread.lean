import Mathlib.Data.List.Basic
import Mathlib.Data.Nat.Notation
import Mathlib.Logic.Relation
import Mathlib.Tactic.ByContra
import Kalinka.Lib.Run

/-!
# The stop thread of the HTTP streamer

A connection thread cannot join itself, so at its end it puts itself into `m_data` of the
`StopThread` and signals `m_wait`.  The stop thread waits for a signal, then stops and joins what
lies in `m_data` until that is empty, and waits again.

`Event::stopWait` does nothing unless a thread is in `startWait`, and the thread does not look at
`m_data` before it waits.  `throughout_neverStarved_iff` says exactly which interleavings do not
leave a connection in `m_data`, or a stopped thread, without a wake-up.
-/

namespace Kalinka.Http

open Run

/-- Where the stop thread is. -/
inductive StopPc
  /-- at `while (!isStopped())` -/
  | check
  | beforeWait
  /-- in `pthread_cond_wait` -/
  | waiting
  /-- at `m_data.empty()` -/
  | drain
  /-- behind that, before `!isStopped()` and `retrive_front` -/
  | retrieve
  /-- in `stopThread` of the scheduler -/
  | join (conn : String)
  | ended
  deriving DecidableEq, Repr

structure StopThread where
  /-- `m_wait.m_exit` -/
  mExit : Bool := false
  /-- `m_wait.m_loop` -/
  mLoop : Bool := false
  /-- `isStopped()` -/
  stopped : Bool := false
  /-- the connections to be stopped, by their uuids -/
  mData : List String := []
  pc : StopPc := .check
  /-- `m_list` of the `ConnectThreadContainer` -/
  mList : List String := []
  /-- the connection for which `addConnectThread` is between `push_back` and `stopWait`; its caller
  holds the lock of the container -/
  adding : Option String := none
  /-- calls of `stop` that have not signalled yet -/
  stopping : ℕ := 0
  deriving DecidableEq, Repr

namespace StopThread

/-- `m_wait.startWait(0)`, up to the first `pthread_cond_wait`. -/
def startWait (s : StopThread) : StopThread :=
  if s.mExit then { s with mExit := false, mLoop := false, pc := .drain }
  else { s with mLoop := true, pc := .waiting }

/-- `m_wait.stopWait()` -/
def stopWait (s : StopThread) : StopThread :=
  if s.mLoop then { s with mExit := true } else s

inductive Action
  | check
  | startWait
  | wake
  | drain
  | retrieve
  | joined
  /-- `stopThread` of the scheduler throws: it does not know the thread (yet) -/
  | joinThrows
  /-- `startConnectThread`: the list has the connection before the scheduler has -/
  | connect (conn : String)
  /-- `push_back`, for `notifyStopConnectThread` of the connection or for `stopThreads` -/
  | addConnectThread (conn : String)
  /-- `stopWait` of `addConnectThread`; the caller takes the connection off its list -/
  | added
  /-- `Thread::stop` -/
  | stop
  /-- `stopWait` of `stop` -/
  | stopWait
  deriving DecidableEq, Repr

/-- The steps of the thread itself, when its joins return. -/
def Action.ofThread : Action → Bool
  | .check | .startWait | .wake | .drain | .retrieve | .joined => true
  | _ => false

def step (s : StopThread) : Action → Option StopThread
  | .check =>
    if s.pc = .check then some { s with pc := if s.stopped then .ended else .beforeWait } else none
  | .startWait => if s.pc = .beforeWait ∧ s.mLoop = false then some s.startWait else none
  | .wake =>
    if s.pc = .waiting ∧ s.mExit = true then
      some { s with mExit := false, mLoop := false, pc := .drain }
    else none
  | .drain =>
    if s.pc = .drain then some { s with pc := if s.mData = [] then .check else .retrieve } else none
  | .retrieve =>
    match s.pc, s.mData with
    | .retrieve, conn :: rest =>
      if s.stopped then some { s with pc := .check }
      else some { s with mData := rest, pc := .join conn }
    | _, _ => none
  | .joined =>
    match s.pc with
    | .join _ => some { s with pc := .drain }
    | _ => none
  | .joinThrows =>
    match s.pc with
    | .join _ => some { s with pc := .check }
    | _ => none
  | .connect conn =>
    if s.adding = none ∧ conn ∉ s.mList then some { s with mList := s.mList ++ [conn] } else none
  | .addConnectThread conn =>
    if s.adding = none ∧ conn ∈ s.mList then
      some { s with mData := s.mData ++ [conn], adding := some conn }
    else none
  | .added =>
    match s.adding with
    | some conn => some { s.stopWait with mList := s.mList.erase conn, adding := none }
    | none => none
  | .stop => some { s with stopped := true, stopping := s.stopping + 1 }
  | .stopWait =>
    if s.stopping = 0 then none else some { s.stopWait with stopping := s.stopping - 1 }

/-- There is a connection to be stopped, or the thread has been stopped. -/
def Called (s : StopThread) : Prop := s.mData ≠ [] ∨ s.stopped = true

/-- A call has still to signal. -/
def Signals (s : StopThread) : Prop := s.adding ≠ none ∨ s.stopping ≠ 0

/-- The thread sleeps in `startWait`, no wake-up is pending, and it is called. -/
structure Starved (s : StopThread) : Prop where
  waiting : s.pc = .waiting
  exit : s.mExit = false
  signals : ¬s.Signals
  called : s.Called

/-- The thread goes on alone. -/
def Goes : StopThread → StopThread → Prop :=
  Relation.ReflTransGen fun s t => ∃ a, a.ofThread = true ∧ step s a = some t

/-- The thread is not starved, and does not get so when it goes on alone. -/
def NeverStarved (s : StopThread) : Prop := ∀ t, s.Goes t → ¬t.Starved

/-- What the source keeps. -/
structure Inv (s : StopThread) : Prop where
  loop : s.mLoop = true ↔ s.pc = .waiting
  exit : s.mExit = true → s.pc = .waiting
  stopping : s.stopping ≠ 0 → s.stopped = true

/-- On its way to the wait and in it, a thread that is called has a signal to come. -/
structure Safe (s : StopThread) : Prop where
  check : s.pc = .check → s.mData ≠ [] → s.stopped = true ∨ s.adding ≠ none
  beforeWait : s.pc = .beforeWait → s.Called → s.Signals
  waiting : s.pc = .waiting → s.mExit = false → s.Called → s.Signals

/-- The last signal that is to come does not come between the thread's last look at what it is
called for and its wait, and a join that throws leaves no connection behind. -/
def CallOk (s : StopThread) : Action → Prop
  | .added => (s.pc = .check → s.mData = [] ∨ s.stopped = true) ∧
      (s.pc = .beforeWait → s.Called → s.stopping ≠ 0)
  | .stopWait => s.pc = .beforeWait → s.adding ≠ none ∨ s.stopping ≠ 1
  | .joinThrows => s.mData = [] ∨ s.stopped = true ∨ s.adding ≠ none
  | _ => True

variable {s s' t : StopThread} {a : Action} {acts : List Action}

/-! ## Steps -/

/-- What a step can do: one constructor for each of its branches. -/
inductive Moves (s : StopThread) : Action → StopThread → Prop
  | quit (h : s.pc = .check) (hstop : s.stopped = true) : Moves s .check { s with pc := .ended }
  | check (h : s.pc = .check) (hstop : s.stopped = false) :
      Moves s .check { s with pc := .beforeWait }
  | pass (h : s.pc = .beforeWait) (hexit : s.mExit = true) :
      Moves s .startWait { s with mExit := false, mLoop := false, pc := .drain }
  | wait (h : s.pc = .beforeWait) (hexit : s.mExit = false) :
      Moves s .startWait { s with mLoop := true, pc := .waiting }
  | wake (h : s.pc = .waiting) (hexit : s.mExit = true) :
      Moves s .wake { s with mExit := false, mLoop := false, pc := .drain }
  | drained (h : s.pc = .drain) (hdata : s.mData = []) : Moves s .drain { s with pc := .check }
  | drain (h : s.pc = .drain) (hdata : s.mData ≠ []) : Moves s .drain { s with pc := .retrieve }
  | turnBack (h : s.pc = .retrieve) (hstop : s.stopped = true) :
      Moves s .retrieve { s with pc := .check }
  | retrieve {conn : String} {rest : List String} (h : s.pc = .retrieve)
      (hdata : s.mData = conn :: rest) (hstop : s.stopped = false) :
      Moves s .retrieve { s with mData := rest, pc := .join conn }
  | joined {conn : String} (h : s.pc = .join conn) : Moves s .joined { s with pc := .drain }
  | joinThrows {conn : String} (h : s.pc = .join conn) : Moves s .joinThrows { s with pc := .check }
  | connect {conn : String} : Moves s (.connect conn) { s with mList := s.mList ++ [conn] }
  | addConnectThread {conn : String} (h : s.adding = none) (hmem : conn ∈ s.mList) :
      Moves s (.addConnectThread conn) { s with mData := s.mData ++ [conn], adding := some conn }
  | added {conn : String} (h : s.adding = some conn) :
      Moves s .added
        { s with mExit := s.mExit || s.mLoop, mList := s.mList.erase conn, adding := none }
  | stop : Moves s .stop { s with stopped := true, stopping := s.stopping + 1 }
  | stopWait (h : s.stopping ≠ 0) :
      Moves s .stopWait { s with mExit := s.mExit || s.mLoop, stopping := s.stopping - 1 }

theorem step_cases (h : s.step a = some s') : s.Moves a s' := by
  cases a with
  | check =>
    simp only [step, Option.ite_none_right_eq_some, Option.some.injEq] at h
    obtain ⟨hpc, rfl⟩ := h
    split
    next hstop => exact .quit hpc hstop
    next hstop => exact .check hpc (Bool.eq_false_iff.2 hstop)
  | startWait =>
    simp only [step, Option.ite_none_right_eq_some, Option.some.injEq, startWait] at h
    obtain ⟨⟨hpc, -⟩, rfl⟩ := h
    split
    next hexit => exact .pass hpc hexit
    next hexit => exact .wait hpc (Bool.eq_false_iff.2 hexit)
  | wake =>
    simp only [step, Option.ite_none_right_eq_some, Option.some.injEq] at h
    obtain ⟨⟨hpc, hexit⟩, rfl⟩ := h
    exact .wake hpc hexit
  | drain =>
    simp only [step, Option.ite_none_right_eq_some, Option.some.injEq] at h
    obtain ⟨hpc, rfl⟩ := h
    split
    next hdata => exact .drained hpc hdata
    next hdata => exact .drain hpc hdata
  | retrieve =>
    simp only [step] at h
    split at h
    next conn rest hpc hdata =>
      split at h
      next hstop => exact Option.some.inj h ▸ .turnBack hpc hstop
      next hstop => exact Option.some.inj h ▸ .retrieve hpc hdata (Bool.eq_false_iff.2 hstop)
    next => cases h
  | joined =>
    simp only [step] at h
    split at h
    next conn hpc => exact Option.some.inj h ▸ .joined hpc
    next => cases h
  | joinThrows =>
    simp only [step] at h
    split at h
    next conn hpc => exact Option.some.inj h ▸ .joinThrows hpc
    next => cases h
  | connect conn =>
    simp only [step, Option.ite_none_right_eq_some, Option.some.injEq] at h
    obtain ⟨-, rfl⟩ := h
    exact .connect
  | addConnectThread conn =>
    simp only [step, Option.ite_none_right_eq_some, Option.some.injEq] at h
    obtain ⟨⟨hnone, hmem⟩, rfl⟩ := h
    exact .addConnectThread hnone hmem
  | added =>
    simp only [step] at h
    split at h
    next conn hadd =>
      have hmove := Moves.added hadd
      obtain rfl := Option.some.inj h
      cases hloop : s.mLoop <;> simpa [StopThread.stopWait, hloop] using hmove
    next => cases h
  | stop => exact Option.some.inj h ▸ .stop
  | stopWait =>
    simp only [step, Option.ite_none_left_eq_some, Option.some.injEq] at h
    obtain ⟨hne, rfl⟩ := h
    have hmove := Moves.stopWait hne
    cases hloop : s.mLoop <;> simpa [StopThread.stopWait, hloop] using hmove

theorem inv_init : Inv {} := ⟨by simp, nofun, fun h => absurd rfl h⟩

/-- A step of the thread that does not lead into the wait. -/
theorem Inv.moveTo (hI : s.Inv) (h : s.pc ≠ .waiting) (data : List String) {pc : StopPc}
    (hpc : pc ≠ .waiting) : Inv { s with mData := data, pc := pc } :=
  ⟨iff_of_false (fun hloop => h (hI.loop.1 hloop)) hpc, fun hexit => absurd (hI.exit hexit) h,
    hI.stopping⟩

theorem Inv.signal (hI : s.Inv) : (s.mExit || s.mLoop) = true → s.pc = .waiting := fun h =>
  (Bool.or_eq_true_iff.1 h).elim hI.exit hI.loop.1

theorem inv_step (hI : s.Inv) (h : s.step a = some s') : s'.Inv := by
  cases step_cases h with
  | quit hpc | check hpc | drained hpc | drain hpc | turnBack hpc | retrieve hpc | joined hpc
  | joinThrows hpc => exact hI.moveTo (by rw [hpc]; nofun) _ nofun
  | pass | wake => exact ⟨by simp, nofun, hI.stopping⟩
  | wait _ hexit => exact ⟨by simp, fun h => (nomatch hexit.symm.trans h), hI.stopping⟩
  | connect | addConnectThread => exact ⟨hI.loop, hI.exit, hI.stopping⟩
  | added => exact ⟨hI.loop, hI.signal, hI.stopping⟩
  | stop => exact ⟨hI.loop, hI.exit, fun _ => rfl⟩
  | stopWait hne => exact ⟨hI.loop, hI.signal, fun _ => hI.stopping hne⟩

/-! ## Safe states -/

theorem Safe.of_pc (hcheck : s.pc ≠ .check) (hbefore : s.pc ≠ .beforeWait)
    (hwaiting : s.pc ≠ .waiting) : s.Safe :=
  ⟨fun h => absurd h hcheck, fun h => absurd h hbefore, fun h => absurd h hwaiting⟩

/-- The thread has come back to the check. -/
theorem safe_iff_of_check (h : s.pc = .check) :
    s.Safe ↔ (s.mData = [] ∨ s.stopped = true ∨ s.adding ≠ none) := by
  constructor
  · intro hs
    by_cases hdata : s.mData = []
    · exact .inl hdata
    · exact .inr (hs.check h hdata)
  · intro hsafe
    refine ⟨fun _ hdata => hsafe.resolve_left hdata, fun hpc => ?_, fun hpc => ?_⟩
    · cases h.symm.trans hpc
    · cases h.symm.trans hpc

/-- A signal reaches a thread that waits. -/
theorem exit_of_signal (hI : s.Inv) (hpc : s.pc = .waiting) : (s.mExit || s.mLoop) = true := by
  rw [hI.loop.2 hpc, Bool.or_true]

theorem safe_added_iff (hI : s.Inv) {conn : String} :
    Safe { s with mExit := s.mExit || s.mLoop, mList := s.mList.erase conn, adding := none } ↔
      CallOk s .added := by
  constructor
  · intro hs'
    refine ⟨fun hpc => ?_, fun hpc hcalled => ?_⟩
    · by_cases hdata : s.mData = []
      · exact .inl hdata
      · exact .inr ((hs'.check hpc hdata).resolve_right fun h => h rfl)
    · exact (hs'.beforeWait hpc hcalled).resolve_left fun h => h rfl
  · rintro ⟨hcheck, hbefore⟩
    refine ⟨fun hpc hdata => .inl ((hcheck hpc).resolve_left hdata), fun hpc hcalled => ?_, ?_⟩
    · exact .inr (hbefore hpc hcalled)
    · intro hpc hexit
      cases hexit.symm.trans (exit_of_signal hI hpc)

theorem safe_stopWait_iff (hI : s.Inv) (h : s.stopping ≠ 0) :
    Safe { s with mExit := s.mExit || s.mLoop, stopping := s.stopping - 1 } ↔
      CallOk s .stopWait := by
  have hstop : s.stopped = true := hI.stopping h
  constructor
  · intro hs' hpc
    refine (hs'.beforeWait hpc (.inr hstop)).imp_right fun hne hone => hne ?_
    change s.stopping - 1 = 0
    omega
  · intro hok
    refine ⟨fun _ _ => .inl hstop, fun hpc _ => (hok hpc).imp_right fun hne hzero => ?_, ?_⟩
    · change s.stopping - 1 = 0 at hzero
      omega
    · intro hpc hexit
      cases hexit.symm.trans (exit_of_signal hI hpc)

theorem safe_step_iff (hI : s.Inv) (hs : s.Safe) (h : s.step a = some s') :
    s'.Safe ↔ CallOk s a := by
  cases step_cases h with
  | quit | pass | wake | drain | retrieve | joined =>
    exact iff_of_true (.of_pc nofun nofun nofun) trivial
  | check hpc hstop =>
    refine iff_of_true ⟨nofun, fun _ hcalled => .inl ?_, nofun⟩ trivial
    -- not being stopped, the thread is called for a connection, which has still to signal
    have hdata : s.mData ≠ [] := hcalled.resolve_right fun h => (nomatch hstop.symm.trans h)
    exact (hs.check hpc hdata).resolve_left fun h => (nomatch hstop.symm.trans h)
  | wait hpc => exact iff_of_true ⟨nofun, nofun, fun _ _ => hs.beforeWait hpc⟩ trivial
  | drained _ hdata => exact iff_of_true ((safe_iff_of_check rfl).2 (.inl hdata)) trivial
  | turnBack _ hstop => exact iff_of_true ((safe_iff_of_check rfl).2 (.inr (.inl hstop))) trivial
  | joinThrows => exact safe_iff_of_check rfl
  | connect => exact iff_of_true ⟨hs.check, hs.beforeWait, hs.waiting⟩ trivial
  | addConnectThread =>
    exact iff_of_true
      ⟨fun _ _ => .inr nofun, fun _ _ => .inl nofun, fun _ _ _ => .inl nofun⟩ trivial
  | added => exact safe_added_iff hI
  | stop =>
    refine iff_of_true ⟨fun _ _ => .inl rfl, fun _ _ => .inr ?_, fun _ _ _ => .inr ?_⟩ trivial
    · exact Nat.succ_ne_zero _
    · exact Nat.succ_ne_zero _
  | stopWait hne => exact safe_stopWait_iff hI hne

/-! ## Going on alone -/

theorem Safe.not_starved (hs : s.Safe) : ¬s.Starved := fun h =>
  h.signals (hs.waiting h.waiting h.exit h.called)

theorem callOk_of_ofThread (h : a.ofThread = true) : CallOk s a := by
  cases a with
  | added | stopWait | joinThrows => cases h
  | _ => trivial

theorem neverStarved_of_safe (hI : s.Inv) (hs : s.Safe) : s.NeverStarved := by
  intro t hgoes
  have ht : t.Inv ∧ t.Safe := by
    refine reflTransGen_induction (I := fun t => t.Inv ∧ t.Safe) ?_ ⟨hI, hs⟩ hgoes
    rintro u a u' ⟨hI, hs⟩ hthread hstep
    exact ⟨inv_step hI hstep, (safe_step_iff hI hs hstep).2 (callOk_of_ofThread hthread)⟩
  exact ht.2.not_starved

theorem NeverStarved.of_step (h : s.NeverStarved) (hthread : a.ofThread = true)
    (hstep : s.step a = some s') : s'.NeverStarved := fun t hgoes =>
  h t (.head ⟨a, hthread, hstep⟩ hgoes)

/-- A thread that comes to the wait without a signal to come sleeps. -/
theorem signals_of_beforeWait (hI : s.Inv) (hn : s.NeverStarved) (hpc : s.pc = .beforeWait)
    (hcalled : s.Called) : s.Signals := by
  have hne : s.pc ≠ .waiting := by rw [hpc]; nofun
  have hexit : s.mExit = false := Bool.eq_false_iff.2 fun h => hne (hI.exit h)
  have hloop : s.mLoop = false := Bool.eq_false_iff.2 fun h => hne (hI.loop.1 h)
  have hstep : s.step .startWait = some { s with mLoop := true, pc := .waiting } := by
    simp [step, hpc, hloop, startWait, hexit]
  by_contra hsignals
  exact hn.of_step rfl hstep _ .refl ⟨rfl, hexit, hsignals, hcalled⟩

theorem safe_of_neverStarved (hI : s.Inv) (hn : s.NeverStarved) : s.Safe := by
  refine ⟨fun hpc hdata => ?_, signals_of_beforeWait hI hn, fun hpc hexit hcalled => ?_⟩
  · by_cases hstop : s.stopped = true
    · exact .inl hstop
    · have hrun : s.stopped = false := Bool.eq_false_iff.2 hstop
      have hstep : s.step .check = some { s with pc := .beforeWait } := by simp [step, hpc, hrun]
      have hsignals := signals_of_beforeWait (inv_step hI hstep) (hn.of_step rfl hstep) rfl
        (.inl hdata)
      exact .inr (hsignals.resolve_right fun hne => hstop (hI.stopping hne))
  · by_contra hsignals
    exact hn s .refl ⟨hpc, hexit, hsignals, hcalled⟩

theorem neverStarved_iff (hI : s.Inv) : s.NeverStarved ↔ s.Safe :=
  ⟨safe_of_neverStarved hI, neverStarved_of_safe hI⟩

/-! ## Runs -/

/-- In a run the thread is never starved, not even when from some state on it goes on alone, if and
only if all steps meet `CallOk`. -/
theorem throughout_neverStarved_iff :
    Throughout step NeverStarved {} acts ↔ EachStep step CallOk {} acts := by
  refine throughout_iff_eachStep (I := Inv) inv_step (fun hI hn h => ?_) inv_init ?_
  · rw [neverStarved_iff (inv_step hI h)]
    exact safe_step_iff hI ((neverStarved_iff hI).1 hn) h
  · exact neverStarved_of_safe inv_init ((safe_iff_of_check rfl).2 (.inl rfl))

/-- A connection that finishes before the thread has come to its first wait. -/
theorem firstConnection_starved :
    ∃ s, exec step {} [.connect "c", .check, .addConnectThread "c", .added, .startWait] = some s ∧
      s.Starved ∧ s.mData = ["c"] :=
  ⟨_, rfl, ⟨rfl, rfl, fun h => h.elim (· rfl) (· rfl), .inl nofun⟩, rfl⟩

end StopThread

end Kalinka.Http
