import Mathlib.Algebra.Ring.Nat
import Mathlib.Data.List.Basic
import Mathlib.Data.Nat.Notation
import Mathlib.Tactic.SplitIfs
import Kalinka.Lib.Run

/-!
# The running time of tasks

A `Task` adds GStreamer's running time of its branch to `m_running_time` whenever it is told of a
change of stage: when the stream of its pipeline ends, when the pipeline is stopped, and when the
task is deleted or paused.  Its destructor hands `m_running_time` over to the `TaskInfo`.

GStreamer keeps, for a pipeline, the base time: at a change to PLAYING it is set so that the clock
is ahead of it by the running time so far, and a change to PAUSED leaves it alone
(`BaseTime.Documented`).  So the difference that `getRunningTime` takes is all the time the pipeline
has played, and the time since its last pause.

`throughout_accounted_iff` says in which runs the tasks get the time their pipeline has played.
-/

namespace Kalinka.Trans.RunningTime

open Run

/-- How GStreamer keeps the times of a pipeline. -/
structure BaseTime where
  /-- the base time, at a change to PLAYING -/
  select : (clock startTime : ℕ) → ℕ
  /-- the start time, at a change to PAUSED -/
  keep : (clock baseTime : ℕ) → ℕ

/-- The clock is ahead of the base time by the running time, which goes on where it was. -/
structure BaseTime.Documented (b : BaseTime) : Prop where
  select : ∀ clock startTime, startTime ≤ clock → b.select clock startTime + startTime = clock
  keep : ∀ clock baseTime, baseTime ≤ clock → baseTime + b.keep clock baseTime = clock

structure Task where
  uuid : String
  /-- `m_branch` is not `NULL` -/
  mBranch : Bool := false
  /-- a `GstClockTime`, below `2 ^ 64` -/
  mRunningTime : ℕ := 0
  /-- how long the pipeline had played when the task was added -/
  joined : ℕ := 0
  /-- how long it had played when the task was last told of a change of stage -/
  due : ℕ := 0
  deriving DecidableEq, Repr

/-- A pipeline, with what GStreamer keeps for it. -/
structure Pipeline where
  mStorage : List Task := []
  initialised : Bool := false
  /-- the last time on the clock -/
  clock : ℕ := 0
  /-- its elements have the clock, from the first change to PLAYING on -/
  hasClock : Bool := false
  /-- it is in the state PLAYING -/
  playing : Bool := false
  baseTime : ℕ := 0
  /-- the running time at the last change to PAUSED -/
  startTime : ℕ := 0
  /-- the end of the stream, or a stop of the running loop -/
  ended : Bool := false
  /-- how long it has played until then -/
  played : ℕ := 0
  /-- for each task that is gone, what its destructor handed to `addRunningTime`, and how long the
  pipeline had played with it -/
  finished : List (ℕ × ℕ) := []
  deriving DecidableEq, Repr

inductive Action
  | addTask (uuid : String)
  /-- `initTask` for every task -/
  | init
  | play (now : ℕ)
  | pause (now : ℕ)
  /-- `callBus` gets the end of the stream -/
  | eos (now : ℕ)
  /-- `gst::Thread::stop`, which may find the loop running -/
  | stop (now : ℕ) (running : Bool)
  /-- `delTask`, whose changes of GStreamer's elements may fail -/
  | delTask (uuid : String) (now : ℕ) (ok : Bool)
  /-- `setPause` of a task -/
  | setPause (uuid : String) (now : ℕ)
  /-- `m_storage.clear()` in `clean` -/
  | clean (now : ℕ)
  deriving DecidableEq, Repr

namespace Pipeline

variable (b : BaseTime)

/-- It is later. -/
def advance (p : Pipeline) (now : ℕ) : Pipeline :=
  { p with
    clock := now
    played := if p.playing ∧ ¬p.ended then p.played + (now - p.clock) else p.played }

/-- GStreamer's change from PAUSED to PLAYING. -/
def toPlaying (p : Pipeline) : Pipeline :=
  if p.playing then p
  else { p with playing := true, hasClock := true, baseTime := b.select p.clock p.startTime }

/-- GStreamer's change from PLAYING to PAUSED. -/
def toPaused (p : Pipeline) : Pipeline :=
  if p.playing then { p with playing := false, startTime := b.keep p.clock p.baseTime } else p

/-- `Task::getRunningTime`; before it plays, an element has no clock. -/
def getRunningTime (p : Pipeline) (branch : Bool) : ℕ :=
  if branch ∧ p.hasClock then (p.clock + 2 ^ 64 - p.baseTime) % 2 ^ 64 else 0

/-- `Task::updateRunningTime`, and the same in `Task::setPause`. -/
def updateRunningTime (p : Pipeline) (t : Task) : Task :=
  { t with
    mRunningTime := if t.mBranch then (t.mRunningTime + p.getRunningTime t.mBranch) % 2 ^ 64
      else t.mRunningTime
    due := p.played }

def processStageChange (p : Pipeline) : Pipeline :=
  { p with mStorage := p.mStorage.map p.updateRunningTime }

/-- One task is told. -/
def updateTask (p : Pipeline) (uuid : String) : Pipeline :=
  { p with mStorage := p.mStorage.map fun t => if t.uuid = uuid then p.updateRunningTime t else t }

/-- The destructor of the task hands its running time over. -/
def finish (p : Pipeline) (t : Task) : ℕ × ℕ := (t.mRunningTime, p.played - t.joined)

/-- The tasks for which `q` holds go. -/
def remove (p : Pipeline) (q : Task → Bool) : Pipeline :=
  { p with
    mStorage := p.mStorage.filter fun t => !q t
    finished := p.finished ++ (p.mStorage.filter q).map p.finish }

/-- `delTask`; `getBranch` throws for a task without a branch. -/
def delTask (p : Pipeline) (uuid : String) (ok : Bool) : Pipeline :=
  if ok then (p.updateTask uuid).remove fun t => t.uuid = uuid ∧ t.mBranch else p.updateTask uuid

/-- The clock does not go back, and does not run over. -/
def Later (p : Pipeline) (now : ℕ) : Prop := p.clock ≤ now ∧ now < 2 ^ 64

instance (p : Pipeline) (now : ℕ) : Decidable (p.Later now) := inferInstanceAs (Decidable (_ ∧ _))

/-- A step at the time `now`. -/
def later (p : Pipeline) (now : ℕ) (f : Pipeline → Pipeline) : Option Pipeline :=
  if p.Later now then some (f (p.advance now)) else none

def step (p : Pipeline) : Action → Option Pipeline
  | .addTask uuid =>
    if p.mStorage.any (·.uuid = uuid) then some p
    else some { p with mStorage := p.mStorage ++ [{ uuid, joined := p.played, due := p.played }] }
  | .init =>
    if p.initialised then none
    else some { p with
      initialised := true, mStorage := p.mStorage.map fun t => { t with mBranch := true } }
  | .play now => if p.initialised then p.later now (toPlaying b) else none
  | .pause now => p.later now (toPaused b)
  | .eos now => p.later now fun p => { p.processStageChange with ended := true }
  | .stop now running =>
    p.later now fun p => if running then { p.processStageChange with ended := true } else p
  | .delTask uuid now ok => p.later now (delTask · uuid ok)
  | .setPause uuid now => p.later now (updateTask · uuid)
  | .clean now => p.later now (remove · fun _ => true)

/-! ## What is asked of it -/

/-- What a task has is what the pipeline had played with it when it was last told of a change of
stage; and what it has handed over is what the pipeline had played with it. -/
structure Accounted (p : Pipeline) : Prop where
  tasks : ∀ t ∈ p.mStorage, t.mRunningTime + t.joined = t.due
  finished : ∀ e ∈ p.finished, e.1 = e.2

/-- When a task with a branch in a pipeline that has played is told of a change of stage, it has not
been told of any time before, and the pipeline plays or has stopped to just now; any other task is
only told when the pipeline has not played since. -/
def ReportOk (p : Pipeline) (t : Task) : Prop :=
  if t.mBranch = true ∧ p.hasClock = true then t.due = 0 ∧ p.baseTime + p.played = p.clock
  else t.due = p.played

/-- The tasks that are told may be told, and a pipeline that goes has not played since its tasks
were told. -/
def StepOk (p : Pipeline) : Action → Prop
  | .eos now | .stop now true => ∀ t ∈ p.mStorage, (p.advance now).ReportOk t
  | .delTask uuid now _ | .setPause uuid now =>
    ∀ t ∈ p.mStorage, t.uuid = uuid → (p.advance now).ReportOk t
  | .clean now => ∀ t ∈ p.mStorage, t.due = (p.advance now).played
  | _ => True

/-- What GStreamer keeps is right. -/
structure Clocked (p : Pipeline) : Prop where
  lt : p.clock < 2 ^ 64
  unused : p.hasClock = false → p.playing = false ∧ p.played = 0 ∧ p.startTime = 0
  base : p.hasClock = true → p.baseTime + p.played ≤ p.clock
  playing : p.playing = true → p.ended = false → p.baseTime + p.played = p.clock
  paused : p.playing = false → p.played ≤ p.startTime ∧ p.startTime ≤ p.clock ∧
    (p.ended = false → p.startTime = p.played)

/-- What holds in every run. -/
structure Inv (p : Pipeline) : Prop where
  clocked : p.Clocked
  due : ∀ t ∈ p.mStorage, t.joined ≤ t.due ∧ t.due ≤ p.played
  branch : ∀ t ∈ p.mStorage, t.mBranch = true → t.joined = 0
  early : p.initialised = false → p.hasClock = false

variable {b} {p p' : Pipeline} {t : Task} {a : Action} {now : ℕ} {uuid : String}

/-! ## The clock -/

theorem Clocked.advance (h : p.Clocked) (hnow : p.Later now) : (p.advance now).Clocked := by
  obtain ⟨hle, hlt⟩ := hnow
  obtain ⟨-, hunused, hbase, hplaying, hpaused⟩ := h
  unfold Pipeline.advance
  split
  next hplay =>
    obtain ⟨hplay, hended⟩ := hplay
    have heq := hplaying hplay (eq_false_of_ne_true hended)
    refine ⟨hlt, fun hclock => ?_, fun _ => ?_, fun _ _ => ?_, fun hpause => ?_⟩
    · rw [(hunused hclock).1] at hplay
      cases hplay
    · dsimp only
      omega
    · dsimp only
      omega
    · rw [hplay] at hpause
      cases hpause
  next hplay =>
    refine ⟨hlt, hunused, fun hclock => Nat.le_trans (hbase hclock) hle, fun h h' => ?_,
      fun hpause => ?_⟩
    · exact absurd ⟨h, ne_true_of_eq_false h'⟩ hplay
    · exact ⟨(hpaused hpause).1, Nat.le_trans (hpaused hpause).2.1 hle, (hpaused hpause).2.2⟩

theorem Clocked.toPlaying (hb : b.Documented) (h : p.Clocked) : (p.toPlaying b).Clocked := by
  obtain ⟨hlt, hunused, hbase, hplaying, hpaused⟩ := h
  unfold Pipeline.toPlaying
  split
  next => exact ⟨hlt, hunused, hbase, hplaying, hpaused⟩
  next hplay =>
    obtain ⟨hplayed, hstart, heq⟩ := hpaused (eq_false_of_ne_true hplay)
    have hselect := hb.select _ _ hstart
    refine ⟨hlt, fun h => (by cases h), fun _ => ?_, fun _ hended => ?_, fun h => (by cases h)⟩
    · dsimp only
      omega
    · have := heq hended
      dsimp only
      omega

theorem Clocked.toPaused (hb : b.Documented) (h : p.Clocked) : (p.toPaused b).Clocked := by
  obtain ⟨hlt, hunused, hbase, hplaying, hpaused⟩ := h
  unfold Pipeline.toPaused
  split
  next hplay =>
    have hclock : p.hasClock = true := Classical.by_contradiction fun hclock => by
      rw [(hunused (eq_false_of_ne_true hclock)).1] at hplay
      cases hplay
    have hle := hbase hclock
    have hkeep := hb.keep _ _ (Nat.le_of_add_right_le hle)
    refine ⟨hlt, fun h => (by rw [hclock] at h; cases h), hbase, fun h => (by cases h),
      fun _ => ⟨?_, ?_, fun hended => ?_⟩⟩
    · dsimp only
      omega
    · dsimp only
      omega
    · have := hplaying hplay hended
      dsimp only
      omega
  next => exact ⟨hlt, hunused, hbase, hplaying, hpaused⟩

theorem Clocked.toEnded (h : p.Clocked) : Clocked { p with ended := true } :=
  ⟨h.lt, h.unused, h.base, fun _ h => (by cases h),
    fun hpause => ⟨(h.paused hpause).1, (h.paused hpause).2.1, fun h => by cases h⟩⟩

theorem Clocked.of_storage (h : p.Clocked) (storage : List Task) (initialised : Bool)
    (finished : List (ℕ × ℕ)) : Clocked { p with mStorage := storage, initialised, finished } :=
  ⟨h.lt, h.unused, h.base, h.playing, h.paused⟩

/-! ## The tasks -/

theorem played_le_advance : p.played ≤ (p.advance now).played := by
  unfold advance
  split
  · exact Nat.le_add_right _ _
  · exact Nat.le_refl _

/-- What a report adds. -/
theorem updateRunningTime_eq_iff (hc : p.Clocked) (hdue : t.joined ≤ t.due ∧ t.due ≤ p.played)
    (hbranch : t.mBranch = true → t.joined = 0) (h : t.mRunningTime + t.joined = t.due) :
    (p.updateRunningTime t).mRunningTime + t.joined = p.played ↔ p.ReportOk t := by
  have hlt := hc.lt
  unfold updateRunningTime ReportOk getRunningTime
  cases hb : t.mBranch with
  | false => simp [h]
  | true =>
    have hzero := hbranch hb
    cases hclock : p.hasClock with
    | false =>
      have hplayed := (hc.unused hclock).2.1
      simp
      omega
    | true =>
      have hbase := hc.base hclock
      simp
      omega

/-- The tasks may be told, removed and added; the pipeline itself is as it was. -/
theorem Inv.of_storage {storage : List Task} {finished : List (ℕ × ℕ)} (hI : p.Inv)
    (hdue : ∀ t ∈ storage, t.joined ≤ t.due ∧ t.due ≤ p.played)
    (hbranch : ∀ t ∈ storage, t.mBranch = true → t.joined = 0) :
    Inv { p with mStorage := storage, finished } :=
  ⟨hI.clocked.of_storage _ _ _, hdue, hbranch, hI.early⟩

theorem Inv.advance (hI : p.Inv) (hnow : p.Later now) : (p.advance now).Inv :=
  ⟨hI.clocked.advance hnow,
    fun t ht => ⟨(hI.due t ht).1, Nat.le_trans (hI.due t ht).2 played_le_advance⟩, hI.branch,
    hI.early⟩

theorem Accounted.advance (h : p.Accounted) : (p.advance now).Accounted := ⟨h.tasks, h.finished⟩

theorem Inv.processStageChange (hI : p.Inv) : p.processStageChange.Inv :=
  hI.of_storage (List.forall_mem_map.2 fun t ht =>
      ⟨Nat.le_trans (hI.due t ht).1 (hI.due t ht).2, Nat.le_refl _⟩)
    (List.forall_mem_map.2 hI.branch)

theorem Inv.updateTask (hI : p.Inv) (uuid : String) : (p.updateTask uuid).Inv := by
  refine hI.of_storage (List.forall_mem_map.2 fun t ht => ?_)
    (List.forall_mem_map.2 fun t ht => ?_)
  · split
    · exact ⟨Nat.le_trans (hI.due t ht).1 (hI.due t ht).2, Nat.le_refl _⟩
    · exact hI.due t ht
  · split <;> exact hI.branch t ht

theorem Inv.remove (hI : p.Inv) (q : Task → Bool) : (p.remove q).Inv :=
  hI.of_storage (fun t ht => hI.due t (List.mem_filter.1 ht).1)
    fun t ht => hI.branch t (List.mem_filter.1 ht).1

theorem Inv.delTask (hI : p.Inv) {ok : Bool} : (p.delTask uuid ok).Inv := by
  unfold Pipeline.delTask
  split
  · exact (hI.updateTask _).remove _
  · exact hI.updateTask _

theorem Inv.toEnded (hI : p.Inv) : Inv { p with ended := true } :=
  ⟨hI.clocked.toEnded, hI.due, hI.branch, hI.early⟩

theorem Inv.toPlaying (hb : b.Documented) (hI : p.Inv) (hinit : p.initialised = true) :
    (p.toPlaying b).Inv := by
  have hclocked := hI.clocked.toPlaying hb
  unfold Pipeline.toPlaying at hclocked ⊢
  split at hclocked
  next h => rwa [if_pos h]
  next h =>
    rw [if_neg h]
    exact ⟨hclocked, hI.due, hI.branch, fun h => by rw [hinit] at h; cases h⟩

theorem Inv.toPaused (hb : b.Documented) (hI : p.Inv) : (p.toPaused b).Inv := by
  have hclocked := hI.clocked.toPaused hb
  unfold Pipeline.toPaused at hclocked ⊢
  split at hclocked
  next h =>
    rw [if_pos h]
    exact ⟨hclocked, hI.due, hI.branch, hI.early⟩
  next h => rwa [if_neg h]

theorem Inv.init (hI : p.Inv) (hinit : p.initialised = false) : Inv { p with
    initialised := true, mStorage := p.mStorage.map fun t => { t with mBranch := true } } := by
  have hzero := (hI.clocked.unused (hI.early hinit)).2.1
  refine ⟨hI.clocked.of_storage _ _ _, List.forall_mem_map.2 hI.due,
    List.forall_mem_map.2 fun t ht _ => ?_, fun h => by cases h⟩
  have hdue := hI.due t ht
  dsimp only
  omega

theorem Inv.step (hb : b.Documented) (hI : p.Inv) (hs : p.step b a = some p') : p'.Inv := by
  cases a with
  | addTask uuid =>
    simp only [Pipeline.step] at hs
    split at hs <;> obtain rfl := Option.some.inj hs
    · exact hI
    · exact hI.of_storage (List.forall_mem_append.2 ⟨hI.due, by simp⟩)
        (List.forall_mem_append.2 ⟨hI.branch, by simp⟩)
  | init =>
    obtain ⟨hinit, hs⟩ := Option.ite_none_left_eq_some.1 hs
    exact Option.some.inj hs ▸ hI.init (eq_false_of_ne_true hinit)
  | play now =>
    obtain ⟨hinit, hs⟩ := Option.ite_none_right_eq_some.1 hs
    obtain ⟨hnow, hs⟩ := Option.ite_none_right_eq_some.1 hs
    exact Option.some.inj hs ▸ (hI.advance hnow).toPlaying hb hinit
  | pause now =>
    obtain ⟨hnow, hs⟩ := Option.ite_none_right_eq_some.1 hs
    exact Option.some.inj hs ▸ (hI.advance hnow).toPaused hb
  | eos now =>
    obtain ⟨hnow, hs⟩ := Option.ite_none_right_eq_some.1 hs
    exact Option.some.inj hs ▸ (hI.advance hnow).processStageChange.toEnded
  | stop now running =>
    obtain ⟨hnow, hs⟩ := Option.ite_none_right_eq_some.1 hs
    cases running with
    | false => exact Option.some.inj hs ▸ hI.advance hnow
    | true => exact Option.some.inj hs ▸ (hI.advance hnow).processStageChange.toEnded
  | delTask uuid now ok =>
    obtain ⟨hnow, hs⟩ := Option.ite_none_right_eq_some.1 hs
    exact Option.some.inj hs ▸ (hI.advance hnow).delTask
  | setPause uuid now =>
    obtain ⟨hnow, hs⟩ := Option.ite_none_right_eq_some.1 hs
    exact Option.some.inj hs ▸ (hI.advance hnow).updateTask _
  | clean now =>
    obtain ⟨hnow, hs⟩ := Option.ite_none_right_eq_some.1 hs
    exact Option.some.inj hs ▸ (hI.advance hnow).remove _

/-! ## The accounts -/

theorem accounted_processStageChange_iff (hI : p.Inv) (h : p.Accounted) :
    p.processStageChange.Accounted ↔ ∀ t ∈ p.mStorage, p.ReportOk t := by
  have hreport (t : Task) (ht : t ∈ p.mStorage) :=
    updateRunningTime_eq_iff hI.clocked (hI.due t ht) (hI.branch t ht) (h.tasks t ht)
  constructor
  · intro h' t ht
    exact (hreport t ht).1 (h'.tasks _ (List.mem_map_of_mem ht))
  · intro hok
    exact ⟨List.forall_mem_map.2 fun t ht => (hreport t ht).2 (hok t ht), h.finished⟩

theorem accounted_updateTask_iff (hI : p.Inv) (h : p.Accounted) :
    (p.updateTask uuid).Accounted ↔ ∀ t ∈ p.mStorage, t.uuid = uuid → p.ReportOk t := by
  have hreport (t : Task) (ht : t ∈ p.mStorage) :=
    updateRunningTime_eq_iff hI.clocked (hI.due t ht) (hI.branch t ht) (h.tasks t ht)
  constructor
  · intro h' t ht huuid
    have hupdated := h'.tasks _ (List.mem_map_of_mem ht)
    rw [if_pos huuid] at hupdated
    exact (hreport t ht).1 hupdated
  · refine fun hok => ⟨List.forall_mem_map.2 fun t ht => ?_, h.finished⟩
    split
    next huuid => exact (hreport t ht).2 (hok t ht huuid)
    next => exact h.tasks t ht

theorem accounted_remove_iff {q : Task → Bool} : (p.remove q).Accounted ↔
    (∀ t ∈ p.mStorage, q t = false → t.mRunningTime + t.joined = t.due) ∧
      (∀ e ∈ p.finished, e.1 = e.2) ∧
      ∀ t ∈ p.mStorage, q t = true → t.mRunningTime = p.played - t.joined := by
  constructor
  · rintro ⟨htasks, hfinished⟩
    obtain ⟨hbefore, hnew⟩ := List.forall_mem_append.1 hfinished
    refine ⟨fun t ht hq => htasks t (List.mem_filter.2 ⟨ht, by simp [hq]⟩), hbefore,
      fun t ht hq => hnew _ (List.mem_map_of_mem (List.mem_filter.2 ⟨ht, hq⟩))⟩
  · rintro ⟨htasks, hbefore, hnew⟩
    refine ⟨fun t ht => ?_,
      List.forall_mem_append.2 ⟨hbefore, List.forall_mem_map.2 fun t ht => ?_⟩⟩
    · obtain ⟨ht, hq⟩ := List.mem_filter.1 ht
      exact htasks t ht (by simpa using hq)
    · obtain ⟨ht, hq⟩ := List.mem_filter.1 ht
      exact hnew t ht hq

theorem accounted_clean_iff (hI : p.Inv) (h : p.Accounted) :
    (p.remove fun _ => true).Accounted ↔ ∀ t ∈ p.mStorage, t.due = p.played := by
  rw [accounted_remove_iff]
  have hiff (t : Task) (ht : t ∈ p.mStorage) :
      t.mRunningTime = p.played - t.joined ↔ t.due = p.played := by
    have htask := h.tasks t ht
    have hdue := hI.due t ht
    omega
  constructor
  · exact fun ⟨_, _, hnew⟩ t ht => (hiff t ht).1 (hnew t ht rfl)
  · exact fun hok => ⟨fun t ht hq => (by cases hq), h.finished,
      fun t ht _ => (hiff t ht).2 (hok t ht)⟩

theorem due_updateTask (ht : t ∈ (p.updateTask uuid).mStorage) (huuid : t.uuid = uuid) :
    t.due = p.played := by
  obtain ⟨u, hu, rfl⟩ := List.mem_map.1 ht
  split at huuid
  next h => rw [if_pos h]; rfl
  next h => exact absurd huuid h

theorem accounted_delTask_iff (hI : p.Inv) (h : p.Accounted) {ok : Bool} :
    (p.delTask uuid ok).Accounted ↔ ∀ t ∈ p.mStorage, t.uuid = uuid → p.ReportOk t := by
  unfold Pipeline.delTask
  split
  case isFalse => exact accounted_updateTask_iff hI h
  case isTrue =>
    rw [← accounted_updateTask_iff hI h, accounted_remove_iff]
    have hdue := (hI.updateTask uuid).due
    -- a task that goes has just been told
    have htold (t : Task) (ht : t ∈ (p.updateTask uuid).mStorage)
        (hq : decide (t.uuid = uuid ∧ t.mBranch = true) = true) :
        t.mRunningTime = p.played - t.joined ↔ t.mRunningTime + t.joined = t.due := by
      have heq := due_updateTask ht (of_decide_eq_true hq).1
      have hle := hdue t ht
      omega
    constructor
    · rintro ⟨htasks, hfinished, hgone⟩
      refine ⟨fun t ht => ?_, hfinished⟩
      cases hq : decide (t.uuid = uuid ∧ t.mBranch = true) with
      | false => exact htasks t ht hq
      | true => exact (htold t ht hq).1 (hgone t ht hq)
    · exact fun h' => ⟨fun t ht _ => h'.tasks t ht, h'.finished,
        fun t ht hq => (htold t ht hq).2 (h'.tasks t ht)⟩

theorem accounted_toEnded_iff : Accounted { p with ended := true } ↔ p.Accounted :=
  ⟨fun h => ⟨h.tasks, h.finished⟩, fun h => ⟨h.tasks, h.finished⟩⟩

theorem Accounted.toPlaying (h : p.Accounted) : (p.toPlaying b).Accounted := by
  unfold Pipeline.toPlaying
  split <;> exact ⟨h.tasks, h.finished⟩

theorem Accounted.toPaused (h : p.Accounted) : (p.toPaused b).Accounted := by
  unfold Pipeline.toPaused
  split <;> exact ⟨h.tasks, h.finished⟩

theorem accounted_step_iff (hI : p.Inv) (h : p.Accounted) (hs : p.step b a = some p') :
    p'.Accounted ↔ p.StepOk a := by
  cases a with
  | addTask uuid =>
    refine iff_of_true ?_ trivial
    simp only [Pipeline.step] at hs
    split at hs <;> obtain rfl := Option.some.inj hs
    · exact h
    · exact ⟨List.forall_mem_append.2 ⟨h.tasks, by simp⟩, h.finished⟩
  | init =>
    obtain ⟨-, hs⟩ := Option.ite_none_left_eq_some.1 hs
    obtain rfl := Option.some.inj hs
    exact iff_of_true ⟨List.forall_mem_map.2 h.tasks, h.finished⟩ trivial
  | play now =>
    obtain ⟨-, hs⟩ := Option.ite_none_right_eq_some.1 hs
    obtain ⟨-, hs⟩ := Option.ite_none_right_eq_some.1 hs
    exact iff_of_true (Option.some.inj hs ▸ h.advance.toPlaying) trivial
  | pause now =>
    obtain ⟨-, hs⟩ := Option.ite_none_right_eq_some.1 hs
    exact iff_of_true (Option.some.inj hs ▸ h.advance.toPaused) trivial
  | eos now =>
    obtain ⟨hnow, hs⟩ := Option.ite_none_right_eq_some.1 hs
    obtain rfl := Option.some.inj hs
    exact accounted_toEnded_iff.trans
      (accounted_processStageChange_iff (hI.advance hnow) h.advance)
  | stop now running =>
    obtain ⟨hnow, hs⟩ := Option.ite_none_right_eq_some.1 hs
    obtain rfl := Option.some.inj hs
    cases running with
    | false => exact iff_of_true h.advance trivial
    | true =>
      exact accounted_toEnded_iff.trans
        (accounted_processStageChange_iff (hI.advance hnow) h.advance)
  | delTask uuid now ok =>
    obtain ⟨hnow, hs⟩ := Option.ite_none_right_eq_some.1 hs
    obtain rfl := Option.some.inj hs
    exact accounted_delTask_iff (hI.advance hnow) h.advance
  | setPause uuid now =>
    obtain ⟨hnow, hs⟩ := Option.ite_none_right_eq_some.1 hs
    obtain rfl := Option.some.inj hs
    exact accounted_updateTask_iff (hI.advance hnow) h.advance
  | clean now =>
    obtain ⟨hnow, hs⟩ := Option.ite_none_right_eq_some.1 hs
    obtain rfl := Option.some.inj hs
    exact accounted_clean_iff (hI.advance hnow) h.advance

/-- The runs in which every task gets the time that its pipeline plays. -/
theorem throughout_accounted_iff (hb : b.Documented) (as : List Action) :
    Throughout (step b) Accounted {} as ↔ EachStep (step b) StepOk {} as :=
  throughout_iff_eachStep (Inv.step hb) accounted_step_iff
    ⟨⟨by decide, fun _ => ⟨rfl, rfl, rfl⟩, fun h => (by cases h), fun h => (by cases h),
      fun _ => ⟨Nat.le_refl _, Nat.le_refl _, fun _ => rfl⟩⟩, by simp, by simp, fun _ => rfl⟩
    ⟨by simp, by simp⟩

/-- The times as GStreamer keeps them. -/
def gst : BaseTime where
  select clock startTime := clock - startTime
  keep clock baseTime := clock - baseTime

theorem documented_gst : gst.Documented :=
  ⟨fun _ _ => Nat.sub_add_cancel, fun _ _ => Nat.add_sub_cancel'⟩

/-- The pipeline pauses for two seconds, and the stream ends. -/
def pauseRun : List Action :=
  [.addTask "1", .init, .play 1000000000, .pause 5000000000, .play 7000000000, .eos 10000000000,
    .clean 12000000000]

theorem throughout_accounted_pauseRun : Throughout (step gst) Accounted {} pauseRun ∧
    ∃ p, exec (step gst) {} pauseRun = some p ∧ p.finished = [(7000000000, 7000000000)] := by
  refine ⟨(throughout_accounted_iff documented_gst pauseRun).2 ?_, _, rfl, by decide⟩
  refine .cons rfl trivial <| .cons rfl trivial <| .cons rfl trivial <| .cons rfl trivial <|
    .cons rfl trivial <| .cons rfl ?_ <| .cons rfl ?_ trivial
  · intro t ht
    obtain rfl := List.mem_singleton.1 ht
    rw [ReportOk, if_pos (by decide)]
    decide
  · intro t ht
    obtain rfl := List.mem_singleton.1 ht
    decide

/-- At its end the stream has played for 10 seconds, and the stop tells the task again. -/
theorem stage_told_twice : ∃ p, exec (step gst) {} [.addTask "1", .init, .play 0,
      .eos 10000000000, .stop 10000000000 true, .clean 10000000000] = some p ∧
    p.finished = [(20000000000, 10000000000)] ∧ ¬p.Accounted := by
  refine ⟨_, rfl, by decide, fun h => ?_⟩
  exact absurd (h.finished (20000000000, 10000000000) (by decide)) (by decide)

end Pipeline

end Kalinka.Trans.RunningTime
