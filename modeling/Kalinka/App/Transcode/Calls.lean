import Mathlib.Data.Nat.Notation
import Mathlib.Logic.Function.Basic
import Kalinka.App.Transcode.Pipeline

/-!
# Calls on the scheduler, side by side

The message thread, the timer thread and the thread of the event processor call `trans::Scheduler`
at the same time, while the threads of the pipelines start, fail and end.  Each function takes its
locks for one lookup, one insertion or one removal at a time, so a call is cut into the steps
between them: `Pc` says how far it has come.

A pipeline is an object on the heap, numbered in the order of creation.  A removed one lives on in
the calls that hold it, and `m_pipelines` may get a new one for its source.
-/

namespace Kalinka.Trans

open Function

/-- A pipeline, and what the base scheduler knows of its thread.  `kept` and `stops` are no data of
the source. -/
structure Object where
  /-- the UUID of the source, which its events carry -/
  source : String
  mStorage : Storage := {}
  /-- its thread is in `m_threads` -/
  listed : Bool := false
  running : Bool := false
  /-- `m_bus_id` is not 0 -/
  mBusId : Bool := false
  /-- how many threads it has had -/
  threads : ℕ := 0
  /-- `stop()` has been called on the last of them -/
  stopped : Bool := false
  /-- the tasks that have been added, and not been deleted or stopped since -/
  kept : List String := []
  /-- the pipelines that the calls of `stop()` on it were meant for -/
  stops : List ℕ := []
  deriving DecidableEq, Repr

namespace Object

/-- `Pipeline::addTask`, or `none` when it throws. -/
def addTask (o : Object) (uuid : String) : Option Object :=
  if h : o.mStorage.findTask uuid = none then
    some { o with mStorage := o.mStorage.pushBack { uuid } h, kept := o.kept ++ [uuid] }
  else none

/-- `Pipeline::delTask`, or `none` when it throws: the branch of the task can be taken out (`ok`)
or not. -/
def delTask (o : Object) (uuid : String) (ok : Bool) : Option Object :=
  match o.mStorage.findTask uuid with
  | none => some o
  | some _ =>
    if ok = true then
      some { o with mStorage := o.mStorage.erase uuid, kept := o.kept.filter (· ≠ uuid) }
    else none

def clean (o : Object) : Object := { o with mStorage := {}, mBusId := false }

/-- `startThread`: `init` succeeds (`ready`), or ends with `clean`.  A pipeline that fails here by
itself fails its tasks.  One whose last thread is still busy has its main loop, and `init` throws:
that is no failure of the tasks that have been added to it. -/
def startThread (o : Object) (ready : Bool) : Object :=
  if ready = true ∧ o.running = false then
    { o with
      listed := true, running := true, mBusId := true, threads := o.threads + 1, stopped := false }
  else { o.clean with kept := if o.running = true then o.kept else [] }

/-- `stop()`, by a call that is meant for the pipeline `origin`. -/
def stop (o : Object) (origin : ℕ) : Object :=
  { o with stopped := true, stops := origin :: o.stops }

/-- The thread cleans up and ends.  Without a `stop()` it has failed, and its tasks with it. -/
def threadEnds (o : Object) : Object :=
  { o.clean with running := false, kept := if o.stopped = true then o.kept else [] }

variable {o o' : Object} {uuid : String} {ready ok : Bool}

theorem addTask_eq_some_iff : o.addTask uuid = some o' ↔
    ∃ h : o.mStorage.findTask uuid = none,
      { o with mStorage := o.mStorage.pushBack { uuid } h, kept := o.kept ++ [uuid] } = o' := by
  by_cases h : o.mStorage.findTask uuid = none
  · simp [addTask, h]
  · simp [addTask, h]

theorem delTask_eq_some (h : o.delTask uuid ok = some o') : o' = o ∨
    o' = { o with mStorage := o.mStorage.erase uuid, kept := o.kept.filter (· ≠ uuid) } := by
  unfold delTask at h
  split at h
  · exact .inl (Option.some.inj h).symm
  · exact .inr (Option.some.inj (Option.ite_none_right_eq_some.1 h).2).symm

@[simp] theorem source_startThread : (o.startThread ready).source = o.source := by
  unfold startThread
  split <;> rfl

@[simp] theorem stops_startThread : (o.startThread ready).stops = o.stops := by
  unfold startThread
  split <;> rfl

end Object

/-- How far a call has come.  A call of `stopPipeline` knows the pipeline it is meant for
(`origin`): the one that sent the event, or the one `delTask` has found. -/
inductive Pc
  | idle
  /-- `addTask` behind the lookup -/
  | adding (p : ℕ) (uuid : String)
  /-- `delTask` behind the lookup, and behind `Pipeline::delTask` -/
  | deleting (p : ℕ) (uuid : String)
  | deleted (p : ℕ)
  /-- `stopPipeline` has been called, for an event or at the end of `delTask` -/
  | stopPipeline (source : String) (origin : ℕ) (event : Bool)
  /-- it has found a pipeline; an event stops the tasks the pipeline has then -/
  | found (p : ℕ) (source : String) (origin : ℕ) (tasks : List String)
  /-- behind `getThreadInfo` -/
  | informed (p : ℕ) (source : String) (origin : ℕ)
  /-- in `pthread_join` -/
  | joining (p : ℕ) (source : String) (origin threads : ℕ)
  /-- behind `stopThreadByInfo` -/
  | joined (p : ℕ) (source : String) (origin : ℕ)
  /-- behind `stopThread` -/
  | erasing (source : String)
  deriving DecidableEq, Repr

/-- The scheduler, the pipelines and the calls in progress. -/
structure Calls where
  mPipelines : String → Option ℕ := fun _ => none
  objects : ℕ → Object := fun _ => { source := "" }
  /-- the number of the next pipeline -/
  next : ℕ := 0
  /-- `m_storage` of the event processor: the UUIDs, with the pipelines that have sent them -/
  events : List (String × ℕ) := []
  /-- the call each thread is in -/
  calls : ℕ → Pc := fun _ => .idle

namespace Calls

/-- The steps of the calls, by the number of the calling thread, and those of the pipelines. -/
inductive Action
  | addTask (i : ℕ) (source uuid : String)
  /-- `Pipeline::addTask` -/
  | pushTask (i : ℕ)
  | delTask (i : ℕ) (source uuid : String)
  /-- `Pipeline::delTask` -/
  | eraseTask (i : ℕ) (ok : Bool)
  /-- `Pipeline::empty` -/
  | empty (i : ℕ)
  /-- `getEvent`, and the call of `processStopEvent` -/
  | getEvent (i : ℕ)
  | getPipeline (i : ℕ)
  | getThreadInfo (i : ℕ)
  | stopThreadByInfo (i : ℕ)
  | join (i : ℕ)
  | eraseThread (i : ℕ)
  /-- `m_pipelines.erase(uuid)` -/
  | erasePipeline (i : ℕ)
  | startThread (p : ℕ) (ready : Bool)
  /-- an error or the end of the stream -/
  | addEvent (p : ℕ)
  /-- the callback that `stop()` has put into the main loop -/
  | stopLoop (p : ℕ)
  | threadEnds (p : ℕ)
  deriving DecidableEq, Repr

def setObject (s : Calls) (p : ℕ) (o : Object) : Calls := { s with objects := update s.objects p o }

def setCall (s : Calls) (i : ℕ) (pc : Pc) : Calls := { s with calls := update s.calls i pc }

/-- `m_pipelines.insert` of a new pipeline. -/
def insertPipeline (s : Calls) (source : String) : Calls :=
  { s with
    mPipelines := update s.mPipelines source (some s.next)
    objects := update s.objects s.next { source }
    next := s.next + 1 }

def erasePipeline (s : Calls) (source : String) : Calls :=
  { s with mPipelines := update s.mPipelines source none }

def step (s : Calls) : Action → Option Calls
  | .addTask i source uuid =>
    match s.calls i with
    | .idle =>
      match s.mPipelines source with
      | some p => some (s.setCall i (.adding p uuid))
      | none => some ((s.insertPipeline source).setCall i (.adding s.next uuid))
    | _ => none
  | .pushTask i =>
    match s.calls i with
    | .adding p uuid =>
      match (s.objects p).addTask uuid with
      | some o => some ((s.setObject p o).setCall i .idle)
      | none => some (s.setCall i .idle)
    | _ => none
  | .delTask i source uuid =>
    match s.calls i with
    | .idle =>
      match s.mPipelines source with
      | some p => some (s.setCall i (.deleting p uuid))
      | none => some s
    | _ => none
  | .eraseTask i ok =>
    match s.calls i with
    | .deleting p uuid =>
      match (s.objects p).delTask uuid ok with
      | some o => some ((s.setObject p o).setCall i (.deleted p))
      | none => some (s.setCall i .idle)
    | _ => none
  | .empty i =>
    match s.calls i with
    | .deleted p =>
      if (s.objects p).mStorage.tasks.isEmpty then
        some (s.setCall i (.stopPipeline (s.objects p).source p false))
      else some (s.setCall i .idle)
    | _ => none
  | .getEvent i =>
    match s.calls i, s.events with
    | .idle, (source, origin) :: events =>
      some ({ s with events }.setCall i (.stopPipeline source origin true))
    | _, _ => none
  | .getPipeline i =>
    match s.calls i with
    | .stopPipeline source origin event =>
      match s.mPipelines source with
      | some p =>
        let tasks := if event = true then (s.objects p).kept else []
        some (s.setCall i (.found p source origin tasks))
      | none => some (s.setCall i .idle)
    | _ => none
  | .getThreadInfo i =>
    match s.calls i with
    | .found p source origin tasks =>
      if (s.objects p).listed = true then
        let kept := (s.objects p).kept.filter (· ∉ tasks)
        some ((s.setObject p { s.objects p with kept }).setCall i (.informed p source origin))
      else some (s.setCall i .idle)
    | _ => none
  | .stopThreadByInfo i =>
    match s.calls i with
    | .informed p source origin =>
      -- `isStopped()`
      if (s.objects p).mBusId = false then some (s.setCall i (.joined p source origin))
      else
        some ((s.setObject p ((s.objects p).stop origin)).setCall i
          (.joining p source origin (s.objects p).threads))
    | _ => none
  | .join i =>
    match s.calls i with
    | .joining p source origin threads =>
      if (s.objects p).running = true ∧ (s.objects p).threads = threads then none
      else some (s.setCall i (.joined p source origin))
    | _ => none
  | .eraseThread i =>
    match s.calls i with
    | .joined p source _ =>
      some ((s.setObject p { s.objects p with listed := false }).setCall i (.erasing source))
    | _ => none
  | .erasePipeline i =>
    match s.calls i with
    | .erasing source => some ((s.erasePipeline source).setCall i .idle)
    | _ => none
  | .startThread p ready =>
    if p < s.next ∧ (s.objects p).listed = false then
      some (s.setObject p ((s.objects p).startThread ready))
    else none
  | .addEvent p =>
    if (s.objects p).threads ≠ 0 then
      some { s with events := s.events ++ [((s.objects p).source, p)] }
    else none
  | .stopLoop p =>
    if (s.objects p).running = true ∧ (s.objects p).stopped = true then
      some (s.setObject p { s.objects p with mBusId := false })
    else none
  | .threadEnds p =>
    if (s.objects p).running = true then some (s.setObject p (s.objects p).threadEnds) else none

/-! ## What the updates do -/

theorem forall_setObject_iff {s : Calls} {p : ℕ} {o : Object} (P : ℕ → Object → Prop) :
    (∀ q, P q ((s.setObject p o).objects q)) ↔ P p o ∧ ∀ q, q ≠ p → P q (s.objects q) :=
  forall_update_iff s.objects P

theorem forall_setCall_iff {s : Calls} {i : ℕ} {pc : Pc} (P : ℕ → Pc → Prop) :
    (∀ j, P j ((s.setCall i pc).calls j)) ↔ P i pc ∧ ∀ j, j ≠ i → P j (s.calls j) :=
  forall_update_iff s.calls P

theorem forall_insertPipeline_iff {s : Calls} {source : String} (P : ℕ → Object → Prop) :
    (∀ q, P q ((s.insertPipeline source).objects q)) ↔
      P s.next { source } ∧ ∀ q, q ≠ s.next → P q (s.objects q) :=
  forall_update_iff s.objects P

/-! ## What a step can do -/

/-- One constructor for each branch of `step`. -/
inductive Moves (s : Calls) : Action → Calls → Prop
  | findPipeline {i source uuid p} (hp : s.mPipelines source = some p) :
      Moves s (.addTask i source uuid) (s.setCall i (.adding p uuid))
  | insertPipeline {i source uuid} (hp : s.mPipelines source = none) :
      Moves s (.addTask i source uuid) ((s.insertPipeline source).setCall i (.adding s.next uuid))
  | pushTask {i p uuid o} (hi : s.calls i = .adding p uuid)
      (ho : (s.objects p).addTask uuid = some o) :
      Moves s (.pushTask i) ((s.setObject p o).setCall i .idle)
  | pushThrows {i p uuid} (hi : s.calls i = .adding p uuid)
      (ho : (s.objects p).addTask uuid = none) : Moves s (.pushTask i) (s.setCall i .idle)
  | delTask {i source uuid p} (hp : s.mPipelines source = some p) :
      Moves s (.delTask i source uuid) (s.setCall i (.deleting p uuid))
  | nothingToDelete {i source uuid} : Moves s (.delTask i source uuid) s
  | eraseTask {i ok p uuid o} (ho : (s.objects p).delTask uuid ok = some o) :
      Moves s (.eraseTask i ok) ((s.setObject p o).setCall i (.deleted p))
  | eraseThrows {i ok} : Moves s (.eraseTask i ok) (s.setCall i .idle)
  | empty {i p} : Moves s (.empty i) (s.setCall i (.stopPipeline (s.objects p).source p false))
  | notEmpty {i} : Moves s (.empty i) (s.setCall i .idle)
  | getEvent {i source origin events} :
      Moves s (.getEvent i) ({ s with events }.setCall i (.stopPipeline source origin true))
  | getPipeline {i source origin event p tasks} (hi : s.calls i = .stopPipeline source origin event)
      (hp : s.mPipelines source = some p) :
      Moves s (.getPipeline i) (s.setCall i (.found p source origin tasks))
  | noPipeline {i source origin event} (hi : s.calls i = .stopPipeline source origin event)
      (hp : s.mPipelines source = none) : Moves s (.getPipeline i) (s.setCall i .idle)
  | getThreadInfo {i p source origin tasks} (hi : s.calls i = .found p source origin tasks) :
      Moves s (.getThreadInfo i) ((s.setObject p { s.objects p with
        kept := (s.objects p).kept.filter (· ∉ tasks) }).setCall i (.informed p source origin))
  | noThread {i} : Moves s (.getThreadInfo i) (s.setCall i .idle)
  | isStopped {i p source origin} (hi : s.calls i = .informed p source origin) :
      Moves s (.stopThreadByInfo i) (s.setCall i (.joined p source origin))
  | stop {i p source origin threads} (hi : s.calls i = .informed p source origin) :
      Moves s (.stopThreadByInfo i) ((s.setObject p ((s.objects p).stop origin)).setCall i
        (.joining p source origin threads))
  | join {i p source origin threads} (hi : s.calls i = .joining p source origin threads) :
      Moves s (.join i) (s.setCall i (.joined p source origin))
  | eraseThread {i p source} :
      Moves s (.eraseThread i)
        ((s.setObject p { s.objects p with listed := false }).setCall i (.erasing source))
  | erasePipeline {i source} (hi : s.calls i = .erasing source) :
      Moves s (.erasePipeline i) ((s.erasePipeline source).setCall i .idle)
  | startThread {p ready} :
      Moves s (.startThread p ready) (s.setObject p ((s.objects p).startThread ready))
  | addEvent {p} :
      Moves s (.addEvent p) { s with events := s.events ++ [((s.objects p).source, p)] }
  | stopLoop {p} : Moves s (.stopLoop p) (s.setObject p { s.objects p with mBusId := false })
  | threadEnds {p} : Moves s (.threadEnds p) (s.setObject p (s.objects p).threadEnds)

theorem moves_of_step {s s' : Calls} {a : Action} (hs : s.step a = some s') : Moves s a s' := by
  cases a with
  | addTask i source uuid =>
    simp only [step] at hs
    split at hs
    · split at hs <;> rename_i hp <;> rw [← Option.some.inj hs]
      · exact .findPipeline hp
      · exact .insertPipeline hp
    · cases hs
  | pushTask i =>
    simp only [step] at hs
    split at hs
    · rename_i hi
      split at hs <;> rename_i ho <;> rw [← Option.some.inj hs]
      · exact .pushTask hi ho
      · exact .pushThrows hi ho
    · cases hs
  | delTask i source uuid =>
    simp only [step] at hs
    split at hs
    · split at hs <;> rename_i hp <;> rw [← Option.some.inj hs]
      · exact .delTask hp
      · exact .nothingToDelete
    · cases hs
  | eraseTask i ok =>
    simp only [step] at hs
    split at hs
    · split at hs <;> rename_i ho <;> rw [← Option.some.inj hs]
      · exact .eraseTask ho
      · exact .eraseThrows
    · cases hs
  | empty i =>
    simp only [step] at hs
    split at hs
    · split at hs <;> rw [← Option.some.inj hs]
      · exact .empty
      · exact .notEmpty
    · cases hs
  | getEvent i =>
    simp only [step] at hs
    split at hs
    · rw [← Option.some.inj hs]
      exact .getEvent
    · cases hs
  | getPipeline i =>
    simp only [step] at hs
    split at hs
    · rename_i hi
      split at hs <;> rename_i hp <;> rw [← Option.some.inj hs]
      · exact .getPipeline hi hp
      · exact .noPipeline hi hp
    · cases hs
  | getThreadInfo i =>
    simp only [step] at hs
    split at hs
    · rename_i hi
      split at hs <;> rw [← Option.some.inj hs]
      · exact .getThreadInfo hi
      · exact .noThread
    · cases hs
  | stopThreadByInfo i =>
    simp only [step] at hs
    split at hs
    · rename_i hi
      split at hs <;> rw [← Option.some.inj hs]
      · exact .isStopped hi
      · exact .stop hi
    · cases hs
  | join i =>
    simp only [step] at hs
    split at hs
    · rename_i hi
      split at hs
      · cases hs
      · rw [← Option.some.inj hs]
        exact .join hi
    · cases hs
  | eraseThread i =>
    simp only [step] at hs
    split at hs
    · rw [← Option.some.inj hs]
      exact .eraseThread
    · cases hs
  | erasePipeline i =>
    simp only [step] at hs
    split at hs
    · rename_i hi
      rw [← Option.some.inj hs]
      exact .erasePipeline hi
    · cases hs
  | startThread p ready =>
    simp only [step, Option.ite_none_right_eq_some, Option.some.injEq] at hs
    rw [← hs.2]
    exact .startThread
  | addEvent p =>
    simp only [step, Option.ite_none_right_eq_some, Option.some.injEq] at hs
    rw [← hs.2]
    exact .addEvent
  | stopLoop p =>
    simp only [step, Option.ite_none_right_eq_some, Option.some.injEq] at hs
    rw [← hs.2]
    exact .stopLoop
  | threadEnds p =>
    simp only [step, Option.ite_none_right_eq_some, Option.some.injEq] at hs
    rw [← hs.2]
    exact .threadEnds

end Calls

end Kalinka.Trans
