import Kalinka.Common.Snmp.Protocol
import Kalinka.Lib.Run

/-!
# Stopping a receiver

`Raw::stopCheckData` writes to the pipe that `Raw::checkData` selects on together with the socket.
`checkData` then takes what has been written out of the pipe and returns `ERROR`, as it does after
its timeout.  `Socket::recvAll` calls `checkData` before each `recv` but the first, and when it
returns `ERROR`, calls it again.

`throughout_heeds_iff` says which stops end a `recvAll`: those that come when the peer has closed
the connection and there is nothing left to receive.
-/

namespace Kalinka.StopRecv

open Run Relation
open Utils (toInt)

/-- Where `recvAll` is. -/
inductive Pc
  /-- in `recv` of a buffer of the size -/
  | recv (size : ℕ)
  /-- at `while(data.size() != required_size)` -/
  | loop
  /-- in `select` of `checkData` -/
  | select
  | returned
  | threw
  deriving DecidableEq, Repr

/-- A `recvAll`, with its connection. -/
structure Call where
  requiredSize : ℕ
  /-- `data.size()` -/
  size : ℕ := 0
  pc : Pc := .recv requiredSize
  /-- how many bytes wait in the socket -/
  unread : ℕ := 0
  /-- the peer has closed the connection -/
  closed : Bool := false
  /-- how many calls of `stopCheckData` have their data in the pipe -/
  stopData : ℕ := 0
  /-- `stopCheckData` has been called since the beginning -/
  stopped : Bool := false
  /-- data have been received after that -/
  late : Bool := false
  deriving DecidableEq, Repr

inductive Action
  /-- The peer sends so many bytes. -/
  | send (count : ℕ)
  /-- The peer closes the connection. -/
  | close
  | stopCheckData
  /-- `recv` gets so many bytes. -/
  | recv (count : ℕ)
  /-- The call goes on without receiving. -/
  | goOn
  deriving DecidableEq, Repr

namespace Call

/-- The call has not ended. -/
def inProgress (s : Call) : Bool := s.pc ≠ .returned ∧ s.pc ≠ .threw

/-- `TCPSocket::recv` of a buffer of the size when there are bytes: the buffer is cut if the count
is below its size, taken as an `int`. -/
def received (s : Call) (size count : ℕ) : Call :=
  { s with
    size := s.size + if (count : ℤ) < toInt size then count else size
    pc := .loop
    unread := s.unread - count
    late := s.late || s.stopped }

/-- A step of the call that receives nothing, if it does not have to wait. -/
def goOn (s : Call) : Option Call :=
  match s.pc with
  | .recv size =>
    -- `BOOST_ASSERT(data.empty() == false)`
    if size = 0 then some { s with pc := .threw }
    -- `ClosedConnection`
    else if s.unread = 0 ∧ s.closed then some { s with pc := .threw }
    else none
  | .loop => some { s with pc := if s.size = s.requiredSize then .returned else .select }
  | .select =>
    if s.stopData ≠ 0 then
      -- the stop data are read, `ERROR`
      some { s with stopData := s.stopData - 1, pc := .loop }
    else if s.unread = 0 ∧ s.closed = false then
      -- the timeout, `ERROR`
      some { s with pc := .loop }
    else some { s with pc := .recv (s.requiredSize - s.size) }
  | .returned => none
  | .threw => none

def step (s : Call) : Action → Option Call
  | .send count =>
    if s.closed = false ∧ count ≠ 0 then some { s with unread := s.unread + count } else none
  | .close => some { s with closed := true }
  | .stopCheckData =>
    some { s with stopData := s.stopData + 1, stopped := s.stopped || s.inProgress }
  | .recv count =>
    match s.pc with
    | .recv size =>
      if 0 < count ∧ count ≤ size ∧ count ≤ s.unread then some (s.received size count) else none
    | _ => none
  | .goOn => s.goOn

/-! ## What is asked for -/

/-- Going on alone, the call throws, and receives nothing before. -/
def Ends (s : Call) : Prop :=
  ∃ t, ReflTransGen (fun s t => goOn s = some t) s t ∧ t.pc = .threw

/-- After a stop nothing has been received, and the call has thrown or is going to, whatever the
peer does. -/
structure Heeds (s : Call) : Prop where
  late : s.stopped = true → s.late = false
  returned : s.stopped = true → s.pc ≠ .returned
  ends : s.stopped = true → s.inProgress = true → s.Ends

/-- The connection is closed, nothing waits in the socket, and a byte is missing; or the buffer is
empty. -/
def Doomed (s : Call) : Prop :=
  s.pc = .recv 0 ∨ s.closed = true ∧ s.unread = 0 ∧ s.size < s.requiredSize

/-- A stop during the call comes when it has to throw anyway. -/
def StopOk (s : Call) : Action → Prop
  | .stopCheckData => s.inProgress = true → s.Doomed
  | _ => True

/-- What each step keeps. -/
structure Inv (s : Call) : Prop where
  size_le : s.size ≤ s.requiredSize
  recv : ∀ size, s.pc = .recv size → size = s.requiredSize - s.size
  empty : s.pc = .recv 0 → s.requiredSize = 0
  select : s.pc = .select → s.size < s.requiredSize
  late : s.late = true → s.stopped = true

variable {s s' t : Call} {a : Action} {requiredSize unread stopData : ℕ} {closed : Bool}
variable {as : List Action}

/-! ## Steps -/

/-- What a step of the call without receiving may be. -/
inductive GoesOn (s : Call) : Call → Prop
  | throws (size : ℕ) (hpc : s.pc = .recv size)
      (hempty : size = 0 ∨ s.unread = 0 ∧ s.closed = true) : GoesOn s { s with pc := .threw }
  | returns (hpc : s.pc = .loop) (hsize : s.size = s.requiredSize) :
      GoesOn s { s with pc := .returned }
  | select (hpc : s.pc = .loop) (hsize : s.size ≠ s.requiredSize) :
      GoesOn s { s with pc := .select }
  | stop (hpc : s.pc = .select) (hstop : s.stopData ≠ 0) :
      GoesOn s { s with stopData := s.stopData - 1, pc := .loop }
  | timeout (hpc : s.pc = .select) (hopen : s.unread = 0 ∧ s.closed = false) :
      GoesOn s { s with pc := .loop }
  | ready (hpc : s.pc = .select) (hready : ¬(s.unread = 0 ∧ s.closed = false)) :
      GoesOn s { s with pc := .recv (s.requiredSize - s.size) }

theorem goesOn_of_goOn (h : s.goOn = some t) : GoesOn s t := by
  unfold goOn at h
  split at h
  next size hpc =>
    split at h
    next hzero =>
      cases h
      exact .throws size hpc (.inl hzero)
    · split at h
      next hclosed =>
        cases h
        exact .throws size hpc (.inr hclosed)
      · cases h
  next hpc =>
    cases h
    split
    next hsize => exact .returns hpc hsize
    next hsize => exact .select hpc hsize
  next hpc =>
    split at h
    next hstop =>
      cases h
      exact .stop hpc hstop
    · split at h
      next hopen =>
        cases h
        exact .timeout hpc hopen
      next hready =>
        cases h
        exact .ready hpc hready
  · cases h
  · cases h

theorem eq_of_send {count : ℕ} (h : step s (.send count) = some s') :
    s.closed = false ∧ s' = { s with unread := s.unread + count } := by
  rw [step, Option.ite_none_right_eq_some] at h
  exact ⟨h.1.1, (Option.some.inj h.2).symm⟩

theorem eq_of_recv {count : ℕ} (h : step s (.recv count) = some s') :
    ∃ size, s.pc = .recv size ∧ 0 < count ∧ count ≤ size ∧ count ≤ s.unread ∧
      s' = s.received size count := by
  rw [step] at h
  split at h
  next size hpc =>
    rw [Option.ite_none_right_eq_some] at h
    obtain ⟨⟨hpos, hcount, hunread⟩, heq⟩ := h
    exact ⟨size, hpc, hpos, hcount, hunread, (Option.some.inj heq).symm⟩
  · cases h

theorem inv_goOn (hI : Inv s) (h : s.goOn = some t) : Inv t := by
  obtain ⟨hle, hrecv, hempty, hselect, hlate⟩ := hI
  cases goesOn_of_goOn h with
  | throws size hpc hzero => exact ⟨hle, nofun, nofun, nofun, hlate⟩
  | returns hpc hsize => exact ⟨hle, nofun, nofun, nofun, hlate⟩
  | select hpc hsize => exact ⟨hle, nofun, nofun, fun _ => Nat.lt_of_le_of_ne hle hsize, hlate⟩
  | stop hpc hstop => exact ⟨hle, nofun, nofun, nofun, hlate⟩
  | timeout hpc hopen => exact ⟨hle, nofun, nofun, nofun, hlate⟩
  | ready hpc hready =>
    have hlt := hselect hpc
    refine ⟨hle, fun size hsize => (Pc.recv.inj hsize).symm, fun hzero => ?_, nofun, hlate⟩
    have := Pc.recv.inj hzero
    omega

theorem inv_step (hI : Inv s) (h : step s a = some s') : Inv s' := by
  cases a with
  | send count =>
    obtain ⟨-, rfl⟩ := eq_of_send h
    exact ⟨hI.size_le, hI.recv, hI.empty, hI.select, hI.late⟩
  | close =>
    cases h
    exact ⟨hI.size_le, hI.recv, hI.empty, hI.select, hI.late⟩
  | stopCheckData =>
    cases h
    refine ⟨hI.size_le, hI.recv, hI.empty, hI.select, fun hlate => ?_⟩
    exact Bool.or_eq_true_iff.2 (.inl (hI.late hlate))
  | recv count =>
    obtain ⟨size, hpc, hpos, hcount, hunread, rfl⟩ := eq_of_recv h
    have hsize := hI.recv size hpc
    have hle := hI.size_le
    refine ⟨?_, nofun, nofun, nofun, fun hlate => ?_⟩
    · simp only [received]
      split <;> omega
    · exact (Bool.or_eq_true_iff.1 hlate).elim hI.late id
  | goOn => exact inv_goOn hI h

/-! ## Where a call ends -/

theorem goOn_of_closed {size : ℕ} (hpc : s.pc = .recv size) (h : s.unread = 0 ∧ s.closed = true) :
    s.goOn = some { s with pc := .threw } := by
  unfold goOn
  rw [hpc]
  dsimp only
  rw [if_pos h, ite_self]

theorem goOn_of_empty (hpc : s.pc = .recv 0) : s.goOn = some { s with pc := .threw } := by
  unfold goOn
  rw [hpc]
  rfl

theorem goOn_of_missing (hpc : s.pc = .loop) (hsize : s.size < s.requiredSize) :
    s.goOn = some { s with pc := .select } := by
  unfold goOn
  rw [hpc]
  dsimp only
  rw [if_neg (Nat.ne_of_lt hsize)]

theorem goOn_of_stopData (hpc : s.pc = .select) (hstop : s.stopData ≠ 0) :
    s.goOn = some { s with stopData := s.stopData - 1, pc := .loop } := by
  unfold goOn
  rw [hpc]
  dsimp only
  rw [if_pos hstop]

theorem goOn_of_ready (hpc : s.pc = .select) (hstop : s.stopData = 0) (hclosed : s.closed = true) :
    s.goOn = some { s with pc := .recv (s.requiredSize - s.size) } := by
  unfold goOn
  rw [hpc]
  dsimp only
  rw [if_neg (not_not.2 hstop), if_neg (by simp [hclosed])]

theorem Ends.head (h : s.goOn = some t) (ht : t.Ends) : s.Ends := by
  obtain ⟨u, hsteps, hu⟩ := ht
  exact ⟨u, hsteps.head h, hu⟩

theorem ends_of_recv {size : ℕ} (hpc : s.pc = .recv size) (h : s.unread = 0 ∧ s.closed = true) :
    s.Ends :=
  Ends.head (goOn_of_closed hpc h) ⟨_, .refl, rfl⟩

/-- Each stop in the pipe costs a round. -/
theorem ends_of_select (hpc : s.pc = .select) (h : s.unread = 0 ∧ s.closed = true)
    (hsize : s.size < s.requiredSize) : s.Ends := by
  induction hk : s.stopData generalizing s with
  | zero => exact Ends.head (goOn_of_ready hpc hk h.2) (ends_of_recv rfl h)
  | succ k ih =>
    have hstop : s.stopData ≠ 0 := by omega
    refine Ends.head (goOn_of_stopData hpc hstop) ?_
    rw [hk, Nat.add_sub_cancel]
    refine Ends.head (goOn_of_missing rfl hsize) ?_
    exact ih rfl h hsize rfl

theorem ends_of_doomed (hprog : s.inProgress = true) (h : s.Doomed) : s.Ends := by
  obtain hpc | ⟨hclosed, hunread, hsize⟩ := h
  · exact Ends.head (goOn_of_empty hpc) ⟨_, .refl, rfl⟩
  · cases hpc : s.pc with
    | recv size => exact ends_of_recv hpc ⟨hunread, hclosed⟩
    | loop =>
      refine Ends.head (goOn_of_missing hpc hsize) ?_
      exact ends_of_select rfl ⟨hunread, hclosed⟩ hsize
    | select => exact ends_of_select hpc ⟨hunread, hclosed⟩ hsize
    | returned => simp [inProgress, hpc] at hprog
    | threw => simp [inProgress, hpc] at hprog

/-- The state that lets a call throw does not come about by its own steps. -/
theorem not_doomed_goOn (hI : Inv s) (hnot : ¬s.Doomed) (h : s.goOn = some t) :
    ¬t.Doomed ∧ t.pc ≠ .threw := by
  have hrest : ¬(s.closed = true ∧ s.unread = 0 ∧ s.size < s.requiredSize) :=
    fun hd => hnot (.inr hd)
  cases goesOn_of_goOn h with
  | throws size hpc hempty =>
    have hsize := hI.recv size hpc
    obtain rfl | ⟨hunread, hclosed⟩ := hempty
    · exact absurd (.inl hpc) hnot
    · have hle := hI.size_le
      by_cases hzero : size = 0
      · exact absurd (.inl (hzero ▸ hpc)) hnot
      · exact absurd ⟨hclosed, hunread, by omega⟩ hrest
  | returns hpc hsize => exact ⟨fun hd => hd.elim nofun hrest, nofun⟩
  | select hpc hsize => exact ⟨fun hd => hd.elim nofun hrest, nofun⟩
  | stop hpc hstop => exact ⟨fun hd => hd.elim nofun hrest, nofun⟩
  | timeout hpc hopen => exact ⟨fun hd => hd.elim nofun hrest, nofun⟩
  | ready hpc hready =>
    have hlt := hI.select hpc
    refine ⟨fun hd => hd.elim (fun hzero => ?_) hrest, nofun⟩
    have := Pc.recv.inj hzero
    omega

theorem ends_iff (hI : Inv s) (hprog : s.inProgress = true) : s.Ends ↔ s.Doomed := by
  refine ⟨fun ⟨t, hsteps, ht⟩ => ?_, ends_of_doomed hprog⟩
  by_contra hnot
  have hkept : Inv t ∧ ¬t.Doomed ∧ t.pc ≠ .threw := by
    clear ht
    induction hsteps with
    | refl => exact ⟨hI, hnot, (of_decide_eq_true hprog).2⟩
    | tail _ hstep ih =>
      obtain ⟨hI', hnot', -⟩ := ih
      exact ⟨inv_goOn hI' hstep, not_doomed_goOn hI' hnot' hstep⟩
  exact hkept.2.2 ht

/-! ## Stops -/

theorem heeds_iff (hI : Inv s) : s.Heeds ↔
    (s.stopped = true → s.late = false ∧ s.pc ≠ .returned ∧ (s.inProgress = true → s.Doomed)) := by
  constructor
  · rintro ⟨hlate, hret, hends⟩ hstop
    exact ⟨hlate hstop, hret hstop, fun hprog => (ends_iff hI hprog).1 (hends hstop hprog)⟩
  · intro h
    exact ⟨fun hstop => (h hstop).1, fun hstop => (h hstop).2.1,
      fun hstop hprog => (ends_iff hI hprog).2 ((h hstop).2.2 hprog)⟩

theorem inProgress_iff : s.inProgress = true ↔ s.pc ≠ .returned ∧ s.pc ≠ .threw := by
  simp [inProgress]

theorem inProgress_of_goOn (h : s.goOn = some t) : s.inProgress = true := by
  rw [inProgress_iff]
  cases goesOn_of_goOn h <;> simp [*]

/-- Only a stop makes a call a stopped one. -/
theorem stopped_step (h : step s a = some s') (ha : a ≠ .stopCheckData) :
    s'.stopped = s.stopped := by
  cases a with
  | send count =>
    obtain ⟨-, rfl⟩ := eq_of_send h
    rfl
  | close =>
    cases h
    rfl
  | stopCheckData => exact absurd rfl ha
  | recv count =>
    obtain ⟨size, -, -, -, -, rfl⟩ := eq_of_recv h
    rfl
  | goOn => cases goesOn_of_goOn h <;> rfl

/-- A call that has to throw does so without receiving. -/
theorem heeds_step_of_stopped (hI : Inv s) (hs : s.Heeds) (hstop : s.stopped = true)
    (h : step s a = some s') : s'.Heeds := by
  obtain ⟨hlate, hret, hdoomed⟩ := (heeds_iff hI).1 hs hstop
  refine (heeds_iff (inv_step hI h)).2 fun _ => ?_
  cases a with
  | send count =>
    obtain ⟨hopen, rfl⟩ := eq_of_send h
    refine ⟨hlate, hret, fun hprog => (hdoomed hprog).imp_right fun hclosed => ?_⟩
    exact absurd hclosed.1 (Bool.eq_false_iff.1 hopen)
  | close =>
    cases h
    exact ⟨hlate, hret, fun hprog => (hdoomed hprog).imp_right fun hclosed => ⟨rfl, hclosed.2⟩⟩
  | stopCheckData =>
    cases h
    exact ⟨hlate, hret, hdoomed⟩
  | recv count =>
    -- there is nothing to receive
    obtain ⟨size, hpc, hpos, hcount, hunread, -⟩ := eq_of_recv h
    have hprog : s.inProgress = true := inProgress_iff.2 (by simp [hpc])
    obtain hzero | ⟨-, hnone, -⟩ := hdoomed hprog
    · have := Pc.recv.inj (hpc.symm.trans hzero)
      omega
    · omega
  | goOn =>
    have hd := hdoomed (inProgress_of_goOn h)
    cases goesOn_of_goOn h with
    | throws size hpc hempty =>
      exact ⟨hlate, nofun, fun hprog => absurd rfl (inProgress_iff.1 hprog).2⟩
    | returns hpc hsize =>
      have hrest := hd.resolve_left (by simp [hpc])
      omega
    | select hpc hsize => exact ⟨hlate, nofun, fun _ => .inr (hd.resolve_left (by simp [hpc]))⟩
    | stop hpc hdata => exact ⟨hlate, nofun, fun _ => .inr (hd.resolve_left (by simp [hpc]))⟩
    | timeout hpc hopen => exact ⟨hlate, nofun, fun _ => .inr (hd.resolve_left (by simp [hpc]))⟩
    | ready hpc hready => exact ⟨hlate, nofun, fun _ => .inr (hd.resolve_left (by simp [hpc]))⟩

theorem heeds_step_iff (hI : Inv s) (hs : s.Heeds) (h : step s a = some s') :
    s'.Heeds ↔ StopOk s a := by
  by_cases hstop : s.stopped = true
  · refine iff_of_true (heeds_step_of_stopped hI hs hstop h) ?_
    cases a with
    | stopCheckData => exact ((heeds_iff hI).1 hs hstop).2.2
    | _ => trivial
  rw [heeds_iff (inv_step hI h)]
  by_cases ha : a = .stopCheckData
  · subst ha
    cases h
    have hlate : s.late = false := Bool.eq_false_iff.2 (mt hI.late hstop)
    constructor
    · exact fun hh hprog => (hh (Bool.or_eq_true_iff.2 (.inr hprog))).2.2 hprog
    · intro hok hstop'
      have hprog := (Bool.or_eq_true_iff.1 hstop').resolve_left hstop
      exact ⟨hlate, (inProgress_iff.1 hprog).1, fun _ => hok hprog⟩
  · refine iff_of_true (fun hstop' => absurd (stopped_step h ha ▸ hstop') hstop) ?_
    cases a with
    | stopCheckData => exact absurd rfl ha
    | _ => trivial

/-- A call, before anything has happened. -/
theorem inv_start : Inv { requiredSize, unread, closed, stopData } where
  size_le := Nat.zero_le _
  recv _ hpc := (Pc.recv.inj hpc).symm
  empty hpc := Pc.recv.inj hpc
  select := nofun
  late := nofun

/-- A stop ends the call, whatever comes after it, exactly if each comes when the call has to throw
anyway. -/
theorem throughout_heeds_iff :
    Throughout step Heeds { requiredSize, unread, closed, stopData } as ↔
      EachStep step StopOk { requiredSize, unread, closed, stopData } as :=
  throughout_iff_eachStep inv_step heeds_step_iff inv_start ⟨nofun, nofun, nofun⟩

/-- The first of two bytes has come, and the call waits for the second; the stop is read, and the
call goes on waiting. -/
theorem not_heeds_silent_peer :
    ¬∀ (requiredSize unread stopData : ℕ) (closed : Bool) (as : List Action),
      Throughout step Heeds { requiredSize, unread, closed, stopData } as := by
  intro hall
  have h := hall 2 0 0 false [.send 1, .recv 1, .goOn, .stopCheckData, .goOn]
  have hexec : exec step { requiredSize := 2 } [.send 1, .recv 1, .goOn, .stopCheckData, .goOn] =
      some ⟨2, 1, .loop, 0, false, 0, true, false⟩ := by decide
  have hlast : Heeds ⟨2, 1, .loop, 0, false, 0, true, false⟩ :=
    ((((h.2 _ rfl).2 _ rfl).2 _ rfl).2 _ rfl).2 _ rfl
  have hdoomed := ((heeds_iff (exec_induction inv_step inv_start hexec)).1 hlast rfl).2.2 rfl
  exact absurd hdoomed (by simp [Doomed])

end Call

end Kalinka.StopRecv
