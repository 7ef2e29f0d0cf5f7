import Mathlib.Data.Nat.Notation
import Mathlib.Tactic.ByContra
import Kalinka.Lib.Run

/-!
# The main loop of a GStreamer thread

`gst::Thread::start` runs the main loop that `init` has created, and `stop` asks a running loop to
quit: it attaches a source to the loop's context, and the source's callback quits the loop.  A
`stop` that finds no running loop does nothing, and a loop that is entered later does not know of
it.

Here is one thread without a time limit, and any number of calls of `stop`, from the scheduler and
for events of the bus.  `throughout_served_iff` says exactly which interleavings never leave the
thread in a loop that nothing will quit.
-/

namespace Kalinka.Gst

open Run

/-- How far the thread has come.  `looping` is inside `g_main_loop_run` until `g_main_loop_quit`,
as `g_main_loop_is_running` says; `quitting` is behind it. -/
inductive Phase
  | created
  /-- behind `init`, up to the first line of `g_main_loop_run` -/
  | initialised
  | looping
  | quitting
  /-- in `clean` -/
  | cleaning
  | ended
  deriving DecidableEq, Repr

/-- `gst::Thread`, with the number of the calls of `stop` at each point. -/
structure Thread where
  phase : Phase := .created
  /-- `m_loop` is not `NULL` -/
  mLoop : Bool := false
  /-- `m_bus_id` is not 0 -/
  mBusId : Bool := false
  /-- sources with `quitCallback` in the context of the loop -/
  sources : ℕ := 0
  /-- calls of `stop` that hold a reference of the running loop -/
  holding : ℕ := 0
  /-- calls behind `g_source_attach` -/
  attached : ℕ := 0
  /-- calls that have seen no running loop -/
  missed : ℕ := 0
  /-- calls behind `init` that have returned -/
  stopped : ℕ := 0
  deriving DecidableEq, Repr

inductive Action
  | init
  /-- the first line of `g_main_loop_run`, behind `playPipeline` -/
  | run
  /-- `playPipeline` throws -/
  | playThrows
  /-- the context dispatches a source -/
  | quitCallback
  | leaveLoop
  /-- the change to `GST_STATE_NULL` succeeds (`nulled`) or not -/
  | clean (nulled : Bool)
  /-- `stop` up to the check of the loop -/
  | stop
  /-- `stop` up to `g_source_attach` -/
  | attach
  | return (attached : Bool)
  deriving DecidableEq, Repr

namespace Thread

/-- `isStopped`: with it, `stopThreadByInfo` leaves the thread alone. -/
def isStopped (s : Thread) : Bool := !s.mBusId

/-- `stopLoop`, called by `quitCallback`. -/
def stopLoop (s : Thread) : Thread :=
  { s with
    mBusId := false
    phase := if s.mLoop = true ∧ s.phase = .looping then .quitting else s.phase }

def step (s : Thread) : Action → Option Thread
  | .init =>
    if s.phase = .created then some { s with phase := .initialised, mLoop := true, mBusId := true }
    else none
  | .run => if s.phase = .initialised then some { s with phase := .looping } else none
  | .playThrows => if s.phase = .initialised then some { s with phase := .cleaning } else none
  | .quitCallback =>
    if s.sources ≠ 0 then some { s.stopLoop with sources := s.sources - 1 } else none
  | .leaveLoop => if s.phase = .quitting then some { s with phase := .cleaning } else none
  | .clean nulled =>
    if s.phase = .cleaning then
      some { s with phase := .ended, mBusId := false, mLoop := s.mLoop && !nulled }
    else none
  | .stop =>
    if s.phase = .created then some s
    else if s.mLoop = true ∧ s.phase = .looping then some { s with holding := s.holding + 1 }
    else some { s with missed := s.missed + 1 }
  | .attach =>
    if s.holding ≠ 0 then
      -- a freed loop has no context
      some { s with
        holding := s.holding - 1
        sources := if s.mLoop = true then s.sources + 1 else s.sources
        attached := s.attached + 1 }
    else none
  | .return true =>
    if s.attached ≠ 0 then
      some { s with attached := s.attached - 1, stopped := s.stopped + 1 }
    else none
  | .return false =>
    if s.missed ≠ 0 then some { s with missed := s.missed - 1, stopped := s.stopped + 1 } else none

variable {s s' t : Thread} {a : Action} {as : List Action}

/-- The thread is in the loop, and without another call of `stop` it stays there. -/
structure Blocked (s : Thread) : Prop where
  looping : s.phase = .looping
  forever : ∀ as t, .stop ∉ as → exec step s as = some t → t.phase = .looping

/-- Once a call of `stop` has returned, the thread is not blocked. -/
def Served (s : Thread) : Prop := 0 < s.stopped → ¬ s.Blocked

/-- What the source keeps: a loop that runs has been created, and the callbacks of the calls that
have attached a source during the loop are to come. -/
structure Inv (s : Thread) : Prop where
  fresh : s.phase = .created → s.missed = 0 ∧ s.stopped = 0
  idle : s.phase = .created ∨ s.phase = .initialised →
    s.holding = 0 ∧ s.attached = 0 ∧ s.sources = 0
  loop : s.phase = .initialised ∨ s.phase = .looping → s.mLoop = true ∧ s.mBusId = true
  pending : s.phase = .looping → s.attached ≤ s.sources

/-- The loop is entered before a call of `stop` has returned, and no call that has missed the loop
returns while it runs, unless another one will quit it. -/
def StepOk (s : Thread) : Action → Prop
  | .run => s.stopped = 0
  | .return false => s.phase = .looping → 0 < s.sources + s.holding
  | _ => True

/-- What a step can do: one constructor for each of its branches. -/
inductive Moves (s : Thread) : Action → Thread → Prop
  | init (h : s.phase = .created) :
      Moves s .init { s with phase := .initialised, mLoop := true, mBusId := true }
  | run (h : s.phase = .initialised) : Moves s .run { s with phase := .looping }
  | playThrows (h : s.phase = .initialised) : Moves s .playThrows { s with phase := .cleaning }
  | quitCallback (h : s.sources ≠ 0) :
      Moves s .quitCallback { s.stopLoop with sources := s.sources - 1 }
  | leaveLoop (h : s.phase = .quitting) : Moves s .leaveLoop { s with phase := .cleaning }
  | clean {nulled} (h : s.phase = .cleaning) : Moves s (.clean nulled)
      { s with phase := .ended, mBusId := false, mLoop := s.mLoop && !nulled }
  | stopEarly (h : s.phase = .created) : Moves s .stop s
  | hold (hloop : s.mLoop = true) (h : s.phase = .looping) :
      Moves s .stop { s with holding := s.holding + 1 }
  | miss (hc : s.phase ≠ .created) (h : ¬ (s.mLoop = true ∧ s.phase = .looping)) :
      Moves s .stop { s with missed := s.missed + 1 }
  | attach (h : s.holding ≠ 0) : Moves s .attach { s with
      holding := s.holding - 1
      sources := if s.mLoop = true then s.sources + 1 else s.sources
      attached := s.attached + 1 }
  | returnAttached (h : s.attached ≠ 0) : Moves s (.return true)
      { s with attached := s.attached - 1, stopped := s.stopped + 1 }
  | returnMissed (h : s.missed ≠ 0) : Moves s (.return false)
      { s with missed := s.missed - 1, stopped := s.stopped + 1 }

theorem moves_of_step (hs : s.step a = some s') : Moves s a s' := by
  cases a with
  | stop =>
    simp only [step] at hs
    split at hs
    · rename_i hcreated
      rw [← Option.some.inj hs]
      exact .stopEarly hcreated
    · rename_i hcreated
      split at hs <;> rename_i hloop <;> rw [← Option.some.inj hs]
      · exact .hold hloop.1 hloop.2
      · exact .miss hcreated hloop
  | «return» attached =>
    cases attached <;> simp only [step, Option.ite_none_right_eq_some, Option.some.injEq] at hs <;>
      rw [← hs.2]
    · exact .returnMissed hs.1
    · exact .returnAttached hs.1
  | init | run | playThrows | quitCallback | leaveLoop | clean | attach =>
    simp only [step, Option.ite_none_right_eq_some, Option.some.injEq] at hs
    rw [← hs.2]
    constructor
    exact hs.1

theorem inv_default : Inv {} := by constructor <;> decide

theorem Inv.step (h : s.Inv) (hs : s.step a = some s') : s'.Inv := by
  obtain ⟨hfresh, hidle, hloop, hpending⟩ := h
  cases moves_of_step hs with
  | init hphase | run hphase | playThrows hphase | leaveLoop hphase | clean hphase =>
    constructor <;> simp_all
  | quitCallback hsources =>
    constructor <;> simp_all [stopLoop] <;> grind
  | stopEarly hphase => exact ⟨hfresh, hidle, hloop, hpending⟩
  | hold hloop' hphase | miss hcreated hphase =>
    constructor <;> simp_all
  | attach hholding =>
    refine ⟨hfresh, fun hphase => absurd (hidle hphase).1 hholding, hloop, fun hphase => ?_⟩
    dsimp only
    rw [if_pos (hloop (.inr hphase)).1]
    exact Nat.succ_le_succ (hpending hphase)
  | returnAttached hattached =>
    have hrun : s.phase ≠ .created ∧ s.phase ≠ .initialised :=
      ⟨fun hp => hattached (hidle (.inl hp)).2.1, fun hp => hattached (hidle (.inr hp)).2.1⟩
    refine ⟨fun hp => absurd hp hrun.1, ?_, hloop, fun hp => ?_⟩
    · exact fun hp => hp.elim (fun hp => absurd hp hrun.1) fun hp => absurd hp hrun.2
    · exact Nat.le_trans (Nat.sub_le _ _) (hpending hp)
  | returnMissed hmissed =>
    exact ⟨fun hp => absurd (hfresh hp).1 hmissed, hidle, hloop, hpending⟩

/-! ## Blocked threads -/

/-- A schedule without another call of `stop` leads to the end of the thread. -/
def Ends (s : Thread) : Prop := ∃ as t, .stop ∉ as ∧ exec step s as = some t ∧ t.phase = .ended

theorem Ends.cons (h : s'.Ends) (hs : s.step a = some s') (ha : .stop ≠ a) : s.Ends := by
  obtain ⟨as, t, has, ht, hended⟩ := h
  refine ⟨a :: as, t, ?_, exec_cons_eq_some_iff.2 ⟨s', hs, ht⟩, hended⟩
  exact fun hmem => (List.mem_cons.1 hmem).elim ha has

theorem ends_of_cleaning (h : s.phase = .cleaning) : s.Ends := by
  have hclean : s.step (.clean true) =
      some { s with phase := .ended, mBusId := false, mLoop := s.mLoop && !true } := if_pos h
  exact ⟨[.clean true], _, by decide, exec_cons_eq_some_iff.2 ⟨_, hclean, rfl⟩, rfl⟩

theorem ends_of_quitting (h : s.phase = .quitting) : s.Ends := by
  have hleave : s.step .leaveLoop = some { s with phase := .cleaning } := if_pos h
  exact (ends_of_cleaning rfl).cons hleave (by decide)

/-- An attached source quits the loop. -/
theorem ends_of_sources (h : s.phase = .looping) (hloop : s.mLoop = true) (hs : s.sources ≠ 0) :
    s.Ends := by
  have hquit : s.step .quitCallback = some { s.stopLoop with sources := s.sources - 1 } :=
    if_pos hs
  refine (ends_of_quitting ?_).cons hquit (by decide)
  exact if_pos ⟨hloop, h⟩

/-- A call that holds the running loop attaches one. -/
theorem ends_of_holding (h : s.phase = .looping) (hloop : s.mLoop = true) (hs : s.holding ≠ 0) :
    s.Ends := by
  have hattach : s.step .attach = some { s with
      holding := s.holding - 1, sources := s.sources + 1, attached := s.attached + 1 } := by
    simp [step, hs, hloop]
  exact (ends_of_sources (by exact h) (by exact hloop) (Nat.succ_ne_zero _)).cons hattach
    (by decide)

theorem not_blocked_of_ends (h : s.Ends) : ¬ s.Blocked := by
  obtain ⟨as, t, has, ht, hended⟩ := h
  intro hblocked
  have hlooping := hblocked.forever as t has ht
  rw [hended] at hlooping
  cases hlooping

/-- Without a source and without a call that will attach one, only a call of `stop` helps. -/
theorem blocked_of_sources_eq_zero (h : s.phase = .looping) (hsources : s.sources = 0)
    (hholding : s.holding = 0) : s.Blocked := by
  refine ⟨h, fun as t has ht => ?_⟩
  induction as generalizing s with
  | nil => exact Option.some.inj ht ▸ h
  | cons a as ih =>
    obtain ⟨s', hs', ht'⟩ := exec_cons_eq_some_iff.1 ht
    have has' : .stop ∉ as := fun hmem => has (List.mem_cons_of_mem a hmem)
    cases moves_of_step hs' with
    | init hphase | run hphase | playThrows hphase | leaveLoop hphase | clean hphase =>
      rw [h] at hphase
      cases hphase
    | quitCallback hne => exact absurd hsources hne
    | attach hne => exact absurd hholding hne
    | stopEarly | hold | miss => exact absurd List.mem_cons_self has
    | returnAttached | returnMissed =>
      exact ih (by exact h) (by exact hsources) (by exact hholding) has' ht'

theorem Inv.blocked_iff (h : s.Inv) :
    s.Blocked ↔ s.phase = .looping ∧ s.sources + s.holding = 0 := by
  constructor
  · intro hblocked
    have hloop := (h.loop (.inr hblocked.looping)).1
    refine ⟨hblocked.looping, Nat.add_eq_zero_iff.2 ⟨?_, ?_⟩⟩
    · by_contra hsources
      exact not_blocked_of_ends (ends_of_sources hblocked.looping hloop hsources) hblocked
    · by_contra hholding
      exact not_blocked_of_ends (ends_of_holding hblocked.looping hloop hholding) hblocked
  · rintro ⟨hphase, hzero⟩
    obtain ⟨hsources, hholding⟩ := Nat.add_eq_zero_iff.1 hzero
    exact blocked_of_sources_eq_zero hphase hsources hholding

theorem Inv.served_iff (h : s.Inv) :
    s.Served ↔ (0 < s.stopped → s.phase = .looping → 0 < s.sources + s.holding) := by
  unfold Served
  rw [h.blocked_iff, not_and]
  exact imp_congr_right fun _ => imp_congr_right fun _ => Nat.pos_iff_ne_zero.symm

/-! ## Runs -/

theorem Inv.phase_stopLoop_ne (h : s.Inv) : s.stopLoop.phase ≠ .looping := by
  intro hphase
  unfold stopLoop at hphase
  dsimp only at hphase
  split at hphase
  · cases hphase
  · rename_i hrun
    exact hrun ⟨(h.loop (.inr hphase)).1, hphase⟩

/-- One step keeps the thread served if and only if it meets `StepOk`. -/
theorem Inv.step_iff (h : s.Inv) (hserved : s.Served) (hs : s.step a = some s') :
    s'.Served ↔ s.StepOk a := by
  rw [(h.step hs).served_iff]
  rw [h.served_iff] at hserved
  cases moves_of_step hs with
  | init | playThrows | leaveLoop | clean => exact iff_of_true (by simp) trivial
  | run hphase =>
    obtain ⟨hholding, -, hsources⟩ := h.idle (.inr hphase)
    simp [StepOk, hholding, hsources]
  | quitCallback =>
    refine iff_of_true (fun _ hphase => ?_) trivial
    have hne := h.phase_stopLoop_ne
    exact absurd hphase hne
  | stopEarly => exact iff_of_true hserved trivial
  | hold => exact iff_of_true (fun _ _ => by simp [← Nat.add_assoc]) trivial
  | miss => exact iff_of_true hserved trivial
  | attach hholding =>
    refine iff_of_true (fun hstopped hphase => ?_) trivial
    have hloop := (h.loop (.inr hphase)).1
    dsimp only
    rw [if_pos hloop]
    omega
  | returnAttached hattached =>
    refine iff_of_true (fun _ hphase => ?_) trivial
    have hpending := h.pending hphase
    change 0 < s.sources + s.holding
    omega
  | returnMissed => simp [StepOk]

/-- A run never leaves a stopped thread in its loop for good if and only if all of its steps meet
`StepOk`. -/
theorem throughout_served_iff (as : List Action) :
    Throughout step Served {} as ↔ EachStep step StepOk {} as :=
  throughout_iff_eachStep (I := Inv) (fun h hs => h.step hs) (fun h hp hs => h.step_iff hp hs)
    inv_default fun h => absurd h (Nat.lt_irrefl 0)

/-- A call of `stop` between `init` and the loop finds nothing to quit. -/
theorem stopped_before_loop : ∃ s, exec step {} [.init, .stop, .return false, .run] = some s ∧
    s.stopped = 1 ∧ s.isStopped = false ∧ s.Blocked ∧ ¬ s.Served := by
  have hblocked : Blocked
      { phase := .looping, mLoop := true, mBusId := true, stopped := 1 } :=
    blocked_of_sources_eq_zero rfl rfl rfl
  exact ⟨_, rfl, rfl, rfl, hblocked, fun h => h (by decide) hblocked⟩

end Thread

end Kalinka.Gst
