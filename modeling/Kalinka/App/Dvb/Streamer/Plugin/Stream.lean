import Kalinka.Lib.Counter
import Kalinka.Lib.Run

/-!
# The queues of the streamer plugin

Station threads queue what is to be started in `m_add_streams` and what is to be stopped in
`m_del_streams`, and the timer of the plugin thread works the queues off: the starts first, and only
if the device has a lock, then the stops in any case.  So a start overtakes the stops that were
queued before it, and a stop overtakes the starts that wait for the lock.

`throughout_inOrder_iff` says exactly which runs end where the operations lead in the order in which
they were issued.
-/

namespace Kalinka.Getstream2

open Run

/-- `IStation`, as the plugin sees it; `getChannelNumber` without a value throws.  A station has its
route before it is queued: without one `initStation` would throw again from its own log message, and
with that end the timer. -/
structure IStation where
  /-- the object -/
  ptr : ℕ
  channelNumber : Option ℕ
  route : String × ℕ
  deriving DecidableEq, Repr

/-- `stream_s`, with its input and its output. -/
structure StreamS where
  pnr : ℕ
  remoteaddr : String
  remoteport : ℕ
  deriving DecidableEq, Repr

structure Stream where
  /-- `m_adapter.streams`: what is running -/
  streams : List StreamS := []
  klknewprog : Bool := false
  mStreams : List IStation := []
  mAddStreams : List IStation := []
  mDelStreams : List IStation := []
  deriving DecidableEq, Repr

/-- An operation of a station thread. -/
inductive Op
  | add (station : IStation)
  | del (station : IStation)
  deriving DecidableEq, Repr

namespace Stream

def addStation (s : Stream) (station : IStation) : Stream :=
  { s with mAddStreams := s.mAddStreams ++ [station] }

def delStation (s : Stream) (station : IStation) : Stream :=
  { s with mDelStreams := s.mDelStreams ++ [station] }

/-- `initStation`; nothing is started when `getChannelNumber` throws. -/
def initStation (s : Stream) (station : IStation) : Stream :=
  match station.channelNumber with
  | some pnr =>
    { s with
      streams := s.streams ++
        [{ pnr, remoteaddr := station.route.1, remoteport := station.route.2 }]
      mStreams := s.mStreams ++ [station] }
  | none => s

/-- `deinitStation`: the first stream of the program is stopped. -/
def deinitStation (s : Stream) (station : IStation) : Stream :=
  { s with
    streams := match station.channelNumber with
      | some pnr => s.streams.eraseP (·.pnr = pnr)
      | none => s.streams
    mStreams := s.mStreams.filter (·.ptr ≠ station.ptr) }

/-- `updateInfo`, as far as it works the queues off. -/
def updateInfo (s : Stream) (hasLock : Bool) : Stream :=
  let s :=
    if hasLock then
      { s.mAddStreams.foldl initStation s with
        klknewprog := s.klknewprog || !s.mAddStreams.isEmpty
        mAddStreams := [] }
    else s
  { s.mDelStreams.foldl deinitStation s with mDelStreams := [] }

/-- An operation that is applied at once. -/
def apply (s : Stream) : Op → Stream
  | .add station => s.initStation station
  | .del station => s.deinitStation station

/-- How many streams of the channel are running. -/
def running (s : Stream) (pnr : ℕ) : ℕ := s.streams.countP (·.pnr = pnr)

end Stream

namespace Op

def add? : Op → Option IStation
  | .add station => some station
  | .del _ => none

def del? : Op → Option IStation
  | .add _ => none
  | .del station => some station

/-- What the operation does to the streams of a channel. -/
def step (pnr : ℕ) : Op → Option Counter.Step
  | .add station => if station.channelNumber = some pnr then some .up else none
  | .del station => if station.channelNumber = some pnr then some .down else none

end Op

/-- What the operations do to the streams of a channel. -/
def steps (pnr : ℕ) (ops : List Op) : List Counter.Step := ops.filterMap (Op.step pnr)

/-- The plugin, with the operations that have been issued, and those of them that have not been
applied. -/
structure Queued where
  stream : Stream := {}
  issued : List Op := []
  pending : List Op := []
  deriving DecidableEq, Repr

inductive QueueAction
  | issue (op : Op)
  | updateInfo (hasLock : Bool)
  deriving DecidableEq, Repr

namespace Queued

def step (q : Queued) : QueueAction → Option Queued
  | .issue (.add station) =>
    some
      { stream := q.stream.addStation station
        issued := q.issued ++ [.add station]
        pending := q.pending ++ [.add station] }
  | .issue (.del station) =>
    some
      { stream := q.stream.delStation station
        issued := q.issued ++ [.del station]
        pending := q.pending ++ [.del station] }
  | .updateInfo hasLock =>
    some { q with
      stream := q.stream.updateInfo hasLock
      pending := if hasLock then [] else (q.pending.filterMap Op.add?).map .add }

/-- The operations that are left, in the order in which they were issued, lead to the streams to
which all operations lead in that order. -/
def InOrder (q : Queued) : Prop :=
  ∀ pnr, (q.issued.foldl Stream.apply {}).running pnr =
    (q.pending.foldl Stream.apply q.stream).running pnr

/-- With a lock: for every channel, no operation that is left stops it when it is not running, or it
ends up stopped.  Without a lock: the stops that are left find no stream that has been started by
one of the starts that are left. -/
def Ok (q : Queued) : QueueAction → Prop
  | .issue _ => True
  | .updateInfo true => ∀ pnr,
      Counter.misses (q.stream.running pnr) (steps pnr q.pending) = 0 ∨
        (q.pending.foldl Stream.apply q.stream).running pnr = 0
  | .updateInfo false => ∀ pnr,
      Counter.downs (steps pnr q.pending) ≤
        q.stream.running pnr + Counter.misses (q.stream.running pnr) (steps pnr q.pending)

end Queued

/-! ## Counting the streams of a channel -/

namespace Stream

variable {s : Stream} {station : IStation} {op : Op} {ops : List Op} {pnr : ℕ} {hasLock : Bool}

theorem countP_eraseP (number : ℕ) (l : List StreamS) :
    (l.eraseP (·.pnr = number)).countP (·.pnr = pnr) =
      l.countP (·.pnr = pnr) - if number = pnr then 1 else 0 := by
  induction l with
  | nil => simp
  | cons stream l ih =>
    by_cases hnumber : stream.pnr = number
    · rw [List.eraseP_cons_of_pos (by simpa using hnumber), List.countP_cons, hnumber]
      by_cases hpnr : number = pnr <;> simp [hpnr]
    · rw [List.eraseP_cons_of_neg (by simpa using hnumber), List.countP_cons, List.countP_cons, ih]
      by_cases hpnr : number = pnr
      · have hne : stream.pnr ≠ pnr := fun h => hnumber (h.trans hpnr.symm)
        simp [hpnr, hne]
      · simp [hpnr]

theorem step_add (h : station.channelNumber = some pnr) :
    (Op.add station).step pnr = some .up := if_pos h

theorem step_add_of_ne (h : station.channelNumber ≠ some pnr) :
    (Op.add station).step pnr = none := if_neg h

theorem step_del (h : station.channelNumber = some pnr) :
    (Op.del station).step pnr = some .down := if_pos h

theorem step_del_of_ne (h : station.channelNumber ≠ some pnr) :
    (Op.del station).step pnr = none := if_neg h

theorem running_initStation :
    (s.initStation station).running pnr =
      s.running pnr + Counter.ups ((Op.add station).step pnr).toList := by
  unfold initStation
  cases hnumber : station.channelNumber with
  | none => simp [Op.step, hnumber, Counter.ups]
  | some number =>
    by_cases hpnr : number = pnr
    · rw [step_add (hpnr ▸ hnumber)]
      simp [running, hpnr, Counter.ups]
    · rw [step_add_of_ne fun h => hpnr (Option.some.inj (hnumber.symm.trans h))]
      simp [running, hpnr, Counter.ups]

theorem running_deinitStation :
    (s.deinitStation station).running pnr =
      s.running pnr - Counter.downs ((Op.del station).step pnr).toList := by
  cases hnumber : station.channelNumber with
  | none => simp [Op.step, hnumber, deinitStation, running, Counter.downs]
  | some number =>
    simp only [deinitStation, running, hnumber, countP_eraseP]
    by_cases hpnr : number = pnr
    · rw [step_del (hpnr ▸ hnumber), if_pos hpnr]
      rfl
    · rw [step_del_of_ne fun h => hpnr (Option.some.inj (hnumber.symm.trans h)), if_neg hpnr]
      rfl

theorem steps_cons : steps pnr (op :: ops) = (op.step pnr).toList ++ steps pnr ops := by
  rw [steps, List.filterMap_cons, steps]
  cases op.step pnr <;> rfl

/-- One operation is one step of the counter of each channel, or none. -/
theorem running_apply :
    (s.apply op).running pnr = Counter.run (s.running pnr) (op.step pnr).toList := by
  cases op with
  | add station =>
    rw [apply, running_initStation, Op.step]
    split <;> rfl
  | del station =>
    rw [apply, running_deinitStation, Op.step]
    split <;> rfl

theorem running_foldl_apply :
    (ops.foldl apply s).running pnr = Counter.run (s.running pnr) (steps pnr ops) := by
  induction ops generalizing s with
  | nil => rfl
  | cons op ops ih => rw [List.foldl_cons, ih, running_apply, steps_cons, Counter.run_append]

theorem running_foldl_initStation :
    ((ops.filterMap Op.add?).foldl initStation s).running pnr =
      s.running pnr + Counter.ups (steps pnr ops) := by
  induction ops generalizing s with
  | nil => rfl
  | cons op ops ih =>
    rw [steps_cons, Counter.ups_append]
    cases op with
    | add station =>
      show ((ops.filterMap Op.add?).foldl initStation (s.initStation station)).running pnr = _
      rw [ih, running_initStation, Nat.add_assoc]
    | del station =>
      show ((ops.filterMap Op.add?).foldl initStation s).running pnr = _
      have hups : Counter.ups ((Op.del station).step pnr).toList = 0 := by
        rw [Op.step]
        split <;> rfl
      rw [ih, hups, Nat.zero_add]

theorem running_foldl_deinitStation :
    ((ops.filterMap Op.del?).foldl deinitStation s).running pnr =
      s.running pnr - Counter.downs (steps pnr ops) := by
  induction ops generalizing s with
  | nil => rfl
  | cons op ops ih =>
    rw [steps_cons, Counter.downs_append]
    cases op with
    | add station =>
      show ((ops.filterMap Op.del?).foldl deinitStation s).running pnr = _
      have hdowns : Counter.downs ((Op.add station).step pnr).toList = 0 := by
        rw [Op.step]
        split <;> rfl
      rw [ih, hdowns, Nat.zero_add]
    | del station =>
      show ((ops.filterMap Op.del?).foldl deinitStation (s.deinitStation station)).running pnr = _
      rw [ih, running_deinitStation, Nat.sub_sub]

/-! ## Working the queues off -/

theorem mDelStreams_initStation : (s.initStation station).mDelStreams = s.mDelStreams := by
  unfold initStation
  split <;> rfl

theorem mDelStreams_foldl_initStation (l : List IStation) :
    (l.foldl initStation s).mDelStreams = s.mDelStreams := by
  induction l generalizing s with
  | nil => rfl
  | cons station l ih => rw [List.foldl_cons, ih, mDelStreams_initStation]

theorem mAddStreams_foldl_deinitStation (l : List IStation) :
    (l.foldl deinitStation s).mAddStreams = s.mAddStreams := by
  induction l generalizing s with
  | nil => rfl
  | cons station l ih => rw [List.foldl_cons, ih, deinitStation]

/-- The queues are those of the operations that have not been applied. -/
structure Holds (s : Stream) (ops : List Op) : Prop where
  add : s.mAddStreams = ops.filterMap Op.add?
  del : s.mDelStreams = ops.filterMap Op.del?

/-- With a lock the starts come first. -/
theorem running_updateInfo_true (h : s.Holds ops) :
    (s.updateInfo true).running pnr =
      s.running pnr + Counter.ups (steps pnr ops) - Counter.downs (steps pnr ops) := by
  have hdel : (s.mAddStreams.foldl initStation s).mDelStreams = ops.filterMap Op.del? :=
    (mDelStreams_foldl_initStation _).trans h.del
  show ((s.mAddStreams.foldl initStation s).mDelStreams.foldl deinitStation
    { s.mAddStreams.foldl initStation s with
      klknewprog := s.klknewprog || !s.mAddStreams.isEmpty
      mAddStreams := [] }).running pnr = _
  rw [hdel, running_foldl_deinitStation, ← running_foldl_initStation, ← h.add]
  rfl

/-- Without a lock only the stops are applied. -/
theorem running_updateInfo_false (h : s.Holds ops) :
    (s.updateInfo false).running pnr = s.running pnr - Counter.downs (steps pnr ops) := by
  rw [← running_foldl_deinitStation, ← h.del]
  rfl

end Stream

/-! ## Runs -/

open Kalinka.Getstream2.Stream

namespace Queued

variable {q q' : Queued} {a : QueueAction} {acts : List QueueAction}

/-- The queues hold what is pending. -/
def Inv (q : Queued) : Prop := q.stream.Holds q.pending

theorem inv_step (hI : q.Inv) (h : q.step a = some q') : q'.Inv := by
  cases a with
  | issue op =>
    cases op with
    | add station =>
      cases h
      constructor
      · simp [addStation, hI.add, List.filterMap_append, Op.add?]
      · simp [addStation, hI.del, List.filterMap_append, Op.del?]
    | del station =>
      cases h
      constructor
      · simp [delStation, hI.add, List.filterMap_append, Op.add?]
      · simp [delStation, hI.del, List.filterMap_append, Op.del?]
  | updateInfo hasLock =>
    cases h
    cases hasLock with
    | true => exact ⟨mAddStreams_foldl_deinitStation _, rfl⟩
    | false =>
      refine ⟨(mAddStreams_foldl_deinitStation _).trans ?_, ?_⟩
      · show q.stream.mAddStreams = ((q.pending.filterMap Op.add?).map Op.add).filterMap Op.add?
        rw [hI.add, List.filterMap_map]
        exact List.filterMap_some.symm
      · show [] = ((q.pending.filterMap Op.add?).map Op.add).filterMap Op.del?
        rw [List.filterMap_map]
        exact (List.filterMap_eq_nil_iff.2 fun _ _ => rfl).symm

/-- An operation that is queued behind the others. -/
theorem inOrder_issue {s : Stream} {op : Op} (hq : q.InOrder)
    (hs : ∀ pnr, s.running pnr = q.stream.running pnr) :
    InOrder ⟨s, q.issued ++ [op], q.pending ++ [op]⟩ := by
  intro pnr
  show ((q.issued ++ [op]).foldl Stream.apply {}).running pnr =
    ((q.pending ++ [op]).foldl Stream.apply s).running pnr
  rw [List.foldl_append, List.foldl_append, List.foldl_cons, List.foldl_nil, List.foldl_cons,
    List.foldl_nil, running_apply, running_apply, hq pnr, running_foldl_apply, running_foldl_apply,
    hs pnr]

theorem inOrder_step_iff (hI : q.Inv) (hq : q.InOrder) (h : q.step a = some q') :
    q'.InOrder ↔ Ok q a := by
  cases a with
  | issue op =>
    refine iff_of_true ?_ trivial
    cases op with
    | add station | del station =>
      cases h
      exact inOrder_issue hq fun _ => rfl
  | updateInfo hasLock =>
    cases h
    cases hasLock with
    | true =>
      apply forall_congr'
      intro pnr
      show (q.issued.foldl Stream.apply {}).running pnr = (q.stream.updateInfo true).running pnr ↔ _
      rw [hq pnr, running_updateInfo_true hI, running_foldl_apply]
      exact Counter.upsFirst_iff
    | false =>
      apply forall_congr'
      intro pnr
      show (q.issued.foldl Stream.apply {}).running pnr =
        (((q.pending.filterMap Op.add?).map Op.add).foldl Stream.apply
          (q.stream.updateInfo false)).running pnr ↔ _
      rw [hq pnr, List.foldl_map]
      show _ = ((q.pending.filterMap Op.add?).foldl initStation
        (q.stream.updateInfo false)).running pnr ↔ _
      rw [running_foldl_initStation, running_updateInfo_false hI, running_foldl_apply]
      exact Counter.downsFirst_iff

theorem inOrder_start : InOrder {} := fun _ => rfl

/-- A run leads where its operations lead in the order in which they were issued exactly if each
run of the timer finds the queues in a state that meets `Ok`. -/
theorem throughout_inOrder_iff :
    Throughout step InOrder {} acts ↔ EachStep step Ok {} acts :=
  throughout_iff_eachStep (I := Inv) inv_step inOrder_step_iff ⟨rfl, rfl⟩ inOrder_start

/-- A station of channel 5. -/
def station5 : IStation := { ptr := 1, channelNumber := some 5, route := ("239.0.0.1", 1234) }

/-- A station that is added and deleted while the device has no lock is started when it has one, and
nothing stops it any more. -/
theorem deleted_station_runs :
    ∃ q, exec step {} [.issue (.add station5), .issue (.del station5), .updateInfo false,
        .updateInfo true] = some q ∧
      q.stream.mAddStreams = [] ∧ q.stream.mDelStreams = [] ∧ q.pending = [] ∧
      q.stream.running 5 = 1 ∧ (q.issued.foldl Stream.apply {}).running 5 = 0 :=
  ⟨_, rfl, rfl, rfl, rfl, rfl, rfl⟩

end Queued

end Kalinka.Getstream2
