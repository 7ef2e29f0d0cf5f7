import Mathlib.Logic.Function.Basic
import Mathlib.Tactic.SplitIfs
import Kalinka.App.Transcode.Pipeline
import Kalinka.Lib.Run

/-!
# Tasks and branches

`trans::Scheduler` keeps one pipeline for each source, adds tasks to it and deletes them, starts and
stops it.  Here its operations come one after the other, in any order and with any failure of
GStreamer.

The branches are built in `Pipeline::init` alone, so a task that is added to a pipeline that has
been started gets none.  `throughout_branched_iff` says exactly which runs keep tasks and branches
together.
-/

namespace Kalinka.Trans

open Run Function

namespace Pipeline

/-- Every task of a started pipeline has its branch, and every branch belongs to a task. -/
structure Branched (p : Pipeline) : Prop where
  initialised : p.started = true →
    ∀ task ∈ p.mStorage.tasks, task.mBranch = true ∧ task.uuid ∈ p.branches
  owned : ∀ uuid ∈ p.branches, ∃ task ∈ p.mStorage.tasks, task.uuid = uuid

/-- The branches are those of the tasks once the pipeline has been started, and none before. -/
structure Aligned (p : Pipeline) : Prop where
  branches : p.branches = if p.started = true then p.mStorage.tasks.map Task.uuid else []
  initialised : ∀ task ∈ p.mStorage.tasks, task.mBranch = p.started

/-- `startThread`: `init`, and the thread when it returns. -/
def startThread (p : Pipeline) (ready : Bool) (branch : String → BranchResult) (nulled : Bool) :
    Pipeline :=
  let out := p.init ready branch nulled
  if out.2 = true then { out.1 with thread := .running } else out.1

/-- The thread goes through `clean()` and ends. -/
def endThread (p : Pipeline) (nulled : Bool) : Pipeline := { p.clean nulled with thread := .ended }

/-- When `init` fails behind the first branch it has added, its `clean` takes the pipeline down. -/
def InitOk (p : Pipeline) (ready : Bool) (branch : String → BranchResult) (nulled : Bool) : Prop :=
  nulled = false → p.mPipeline = none → ready = true →
    (∃ task ∈ p.mStorage.tasks, branch task.uuid ≠ .linked) →
    ∀ task, p.mStorage.tasks.head? = some task → branch task.uuid = .failed

variable {p p' : Pipeline} {uuid : String} {ready nulled ok : Bool}
variable {branch : String → BranchResult}

/-! ## One pipeline -/

theorem Aligned.branched (h : p.Aligned) : p.Branched := by
  have hbranches := h.branches
  constructor
  · intro hs task htask
    rw [if_pos hs] at hbranches
    rw [hbranches]
    exact ⟨(h.initialised task htask).trans hs, List.mem_map_of_mem htask⟩
  · intro uuid huuid
    rw [hbranches] at huuid
    split at huuid
    · exact List.mem_map.1 huuid
    · cases huuid

theorem aligned_default : Aligned {} := ⟨rfl, fun _ h => by cases h⟩

theorem aligned_of_empty (ht : p.mStorage.tasks = []) (hb : p.branches = []) : p.Aligned := by
  constructor
  · rw [hb, ht]
    split <;> rfl
  · rw [ht]
    exact fun _ h => by cases h

theorem branched_iff_of_empty (ht : p.mStorage.tasks = []) : p.Branched ↔ p.branches = [] := by
  constructor
  · intro h
    apply List.eq_nil_iff_forall_not_mem.2
    intro uuid huuid
    obtain ⟨task, htask, -⟩ := h.owned uuid huuid
    rw [ht] at htask
    cases htask
  · exact fun hb => (aligned_of_empty ht hb).branched

theorem branches_clean_eq_nil_iff :
    (p.clean nulled).branches = [] ↔ (nulled = false → p.branches = []) := by
  cases nulled with
  | false => exact ⟨fun h _ => h, fun h => h rfl⟩
  | true => exact iff_of_true rfl (by simp)

/-- What `clean` leaves behind has no tasks, so it must have no branches. -/
theorem branched_clean_iff : (p.clean nulled).Branched ↔ (nulled = false → p.branches = []) :=
  (branched_iff_of_empty rfl).trans branches_clean_eq_nil_iff

theorem aligned_clean (h : nulled = false → p.branches = []) : (p.clean nulled).Aligned :=
  aligned_of_empty rfl (branches_clean_eq_nil_iff.2 h)

theorem addTask_eq_some_iff : p.addTask uuid = some p' ↔
    ∃ h : p.mStorage.findTask uuid = none,
      { p with mStorage := p.mStorage.pushBack { uuid } h } = p' := by
  by_cases h : p.mStorage.findTask uuid = none
  · simp [addTask, h]
  · simp [addTask, h]

theorem Aligned.addTask (h : p.Aligned) (hs : p.started = false) (ha : p.addTask uuid = some p') :
    p'.Aligned := by
  obtain ⟨hfind, rfl⟩ := addTask_eq_some_iff.1 ha
  have hbranches := h.branches
  rw [if_neg (by simp [hs])] at hbranches
  constructor
  · change p.branches = if p.started = true then _ else []
    rw [hbranches, if_neg (by simp [hs])]
  · intro task htask
    change task.mBranch = p.started
    obtain hmem | hlast := List.mem_append.1 htask
    · exact h.initialised task hmem
    · rw [List.mem_singleton.1 hlast, hs]

/-- A task that is added to a started pipeline has no branch. -/
theorem not_branched_addTask (hs : p.started = true) (ha : p.addTask uuid = some p') :
    ¬ p'.Branched := by
  obtain ⟨hfind, rfl⟩ := addTask_eq_some_iff.1 ha
  intro h
  have hlast := h.initialised hs { uuid } (List.mem_append_right _ List.mem_cons_self)
  exact absurd hlast.1 (by simp)

theorem Aligned.delTask (h : p.Aligned) (uuid : String) (ok : Bool) :
    (p.delTask uuid ok).1.Aligned := by
  unfold Pipeline.delTask
  split
  · exact h
  · rename_i task hfind
    split
    · rename_i hok
      obtain ⟨htask, rfl⟩ := Storage.findTask_eq_some hfind
      have hs : p.started = true := (h.initialised task htask).symm.trans hok.1
      have hbranches := h.branches
      rw [if_pos hs] at hbranches
      constructor
      · change (p.mPipeline.map (·.erase task.uuid)).getD [] =
          if p.started = true then (p.mStorage.erase task.uuid).tasks.map Task.uuid else []
        rw [if_pos hs, Storage.map_uuid_erase, ← hbranches, Pipeline.branches]
        cases p.mPipeline <;> rfl
      · exact fun other hother => h.initialised other (List.mem_of_mem_eraseP hother)
    · exact h

theorem Aligned.addTask_getD (h : p.Aligned)
    (hok : p.started = true → p.mStorage.findTask uuid ≠ none) :
    ((p.addTask uuid).getD p).Aligned := by
  cases ha : p.addTask uuid with
  | none => exact h
  | some p' =>
    apply h.addTask _ ha
    by_contra hs
    obtain ⟨hfind, -⟩ := addTask_eq_some_iff.1 ha
    exact hok (by simpa using hs) hfind

theorem Aligned.addTask_branched_iff (h : p.Aligned) : ((p.addTask uuid).getD p).Branched ↔
    (p.started = true → p.mStorage.findTask uuid ≠ none) := by
  refine ⟨fun hbranched hs hfind => ?_, fun hok => (h.addTask_getD hok).branched⟩
  have ha := addTask_eq_some_iff.2 ⟨hfind, rfl⟩
  rw [ha] at hbranched
  exact not_branched_addTask hs ha hbranched

theorem aligned_startThread
    (hinit : (p.init ready branch nulled).2 = true) :
    (p.startThread ready branch nulled).Aligned := by
  unfold startThread
  rw [if_pos hinit]
  unfold init at hinit ⊢
  cases hp : p.mPipeline with
  | some branches => simp [hp] at hinit
  | none =>
    simp only [hp] at hinit ⊢
    split_ifs at hinit ⊢ with hready hall
    constructor
    · change (initTasks branch p.mStorage.tasks).1 = if true = true then
        p.mStorage.setBranches.tasks.map Task.uuid else []
      rw [if_pos rfl, Storage.map_uuid_setBranches, initTasks_fst hall]
    · intro task htask
      obtain ⟨task', -, rfl⟩ := List.mem_map.1 htask
      rfl

/-- An `init` that throws ends with `clean`, and leaves branches behind if and only if it does not
meet `InitOk`. -/
theorem Aligned.init_of_fail (h : p.Aligned) (hs : p.started = false)
    (hinit : (p.init ready branch nulled).2 = false) :
    ∃ branches, p.startThread ready branch nulled =
        { p with mPipeline := some branches }.clean nulled ∧
      ((nulled = false → branches = []) ↔ p.InitOk ready branch nulled) := by
  have hbranches := h.branches
  rw [if_neg (by simp [hs])] at hbranches
  unfold startThread
  rw [if_neg (by simp [hinit])]
  unfold init at hinit ⊢
  unfold InitOk
  cases hp : p.mPipeline with
  | some branches =>
    simp only [Pipeline.branches, hp, Option.getD_some] at hbranches
    exact ⟨[], by simp [clean, hp, hbranches], iff_of_true (fun _ => rfl) (by simp)⟩
  | none =>
    simp only [hp] at hinit ⊢
    split_ifs at hinit ⊢ with hready hall
    · refine ⟨[], rfl, iff_of_true (fun _ => rfl) fun _ _ htrue hfailed => ?_⟩
      obtain hfalse | hempty := hready
      · simp [hfalse] at htrue
      · obtain ⟨task, htask, -⟩ := hfailed
        simp [empty] at hempty
        simp [hempty] at htask
    · refine ⟨_, rfl, imp_congr_right fun _ => ?_⟩
      rw [initTasks_fst_eq_nil_iff]
      rw [initTasks_snd_eq_true_iff] at hall
      have hready' : ready = true := by
        cases ready <;> simp at hready ⊢
      have hfailed : ∃ task ∈ p.mStorage.tasks, branch task.uuid ≠ .linked := by
        simpa using hall
      exact ⟨fun h' _ _ _ => h', fun h' => h' trivial hready' hfailed⟩

theorem initOk_of_init (h : (p.init ready branch nulled).2 = true) :
    p.InitOk ready branch nulled := by
  intro _ hp _ hfailed
  obtain ⟨task, htask, hunlinked⟩ := hfailed
  rw [init, hp] at h
  dsimp only at h
  split_ifs at h with _ hall
  exact absurd (initTasks_snd_eq_true_iff.1 hall task htask) hunlinked

theorem Aligned.startThread_branched_iff (h : p.Aligned) (hs : p.started = false) :
    (p.startThread ready branch nulled).Branched ↔ p.InitOk ready branch nulled := by
  cases hinit : (p.init ready branch nulled).2 with
  | true => exact iff_of_true (aligned_startThread hinit).branched (initOk_of_init hinit)
  | false =>
    obtain ⟨branches, heq, hiff⟩ := h.init_of_fail hs hinit
    rw [heq, branched_clean_iff]
    exact hiff

theorem Aligned.startThread (h : p.Aligned) (hs : p.started = false)
    (hok : p.InitOk ready branch nulled) : (p.startThread ready branch nulled).Aligned := by
  cases hinit : (p.init ready branch nulled).2 with
  | true => exact aligned_startThread hinit
  | false =>
    obtain ⟨branches, heq, hiff⟩ := h.init_of_fail hs hinit
    rw [heq]
    exact aligned_clean (hiff.2 hok)

theorem Aligned.endThread_branched_iff (h : p.Aligned) (hs : p.thread = .running) :
    (p.endThread nulled).Branched ↔ (nulled = false → p.mStorage.tasks = []) := by
  have hbranches := h.branches
  rw [if_pos (by simp [started, hs])] at hbranches
  have hend : (p.endThread nulled).Branched ↔ (p.clean nulled).branches = [] :=
    branched_iff_of_empty rfl
  rw [hend, branches_clean_eq_nil_iff, hbranches, List.map_eq_nil_iff]

theorem Aligned.endThread (h : p.Aligned) (hs : p.thread = .running)
    (hok : nulled = false → p.mStorage.tasks = []) : (p.endThread nulled).Aligned :=
  aligned_of_empty rfl ((branched_iff_of_empty rfl).1 ((h.endThread_branched_iff hs).2 hok))

end Pipeline

/-! ## The scheduler -/

/-- `trans::Scheduler` between two of its calls: `mPipelines` by the UUIDs of the sources, and
whether `m_stop` is set. -/
structure Scheduler where
  mPipelines : String → Option Pipeline := fun _ => none
  mStop : Bool := false

/-- The calls on the scheduler, with what GStreamer does, and the end of a pipeline's thread. -/
inductive Action
  | addTask (source uuid : String)
  | delTask (source uuid : String) (ok : Bool)
  | playPipeline (source : String) (ready : Bool) (branch : String → BranchResult) (nulled : Bool)
  /-- `processStopEvent`, for an error or the end of the stream -/
  | processStopEvent (source : String)
  /-- `start` runs into an exception, or the loop has been left -/
  | threadEnds (source : String) (nulled : Bool)
  | stop

namespace Scheduler

def put (s : Scheduler) (source : String) (p : Option Pipeline) : Scheduler :=
  { s with mPipelines := update s.mPipelines source p }

/-- `addTask`, with the exception of the pipeline's `addTask` behind the insertion. -/
def addTask (s : Scheduler) (source uuid : String) : Scheduler :=
  let p := (s.mPipelines source).getD {}
  s.put source (some ((p.addTask uuid).getD p))

/-- `stopPipeline`: `stopThread` throws for a thread that has not been started, and otherwise joins
the thread. -/
def stopPipeline (s : Scheduler) (source : String) : Scheduler :=
  match s.mPipelines source with
  | none => s
  | some p => if s.mStop = true ∨ p.started = true then s.put source none else s

def delTask (s : Scheduler) (source uuid : String) (ok : Bool) : Scheduler :=
  match s.mPipelines source with
  | none => s
  | some p =>
    let out := p.delTask uuid ok
    let s' := s.put source (some out.1)
    if out.2 = true ∧ out.1.empty = true then s'.stopPipeline source else s'

/-- `playPipeline`: a started pipeline is moved to `PLAYING`, which leaves its tasks alone, as
`pausePipeline` does. -/
def playPipeline (s : Scheduler) (source : String) (ready : Bool) (branch : String → BranchResult)
    (nulled : Bool) : Scheduler :=
  match s.mPipelines source with
  | none => s
  | some p =>
    if s.mStop = true ∨ p.started = true then s
    else s.put source (some (p.startThread ready branch nulled))

def threadEnds (s : Scheduler) (source : String) (nulled : Bool) : Option Scheduler :=
  match s.mPipelines source with
  | none => none
  | some p =>
    if p.thread = .running then
      some (s.put source (some (p.endThread nulled)))
    else none

def step (s : Scheduler) : Action → Option Scheduler
  | .addTask source uuid => some (s.addTask source uuid)
  | .delTask source uuid ok => some (s.delTask source uuid ok)
  | .playPipeline source ready branch nulled => some (s.playPipeline source ready branch nulled)
  | .processStopEvent source => some (s.stopPipeline source)
  | .threadEnds source nulled => s.threadEnds source nulled
  | .stop => some { mStop := true }

/-- `Branched`, for every pipeline. -/
def Branched (s : Scheduler) : Prop := ∀ source p, s.mPipelines source = some p → p.Branched

def Aligned (s : Scheduler) : Prop := ∀ source p, s.mPipelines source = some p → p.Aligned

/-- Tasks are added before the pipeline is started, unless the pipeline has them already.  When the
initialisation of a pipeline or its end leaves branches, they are taken down. -/
def StepOk (s : Scheduler) : Action → Prop
  | .addTask source uuid => ∀ p, s.mPipelines source = some p → p.started = true →
      p.mStorage.findTask uuid ≠ none
  | .playPipeline source ready branch nulled => s.mStop = false →
      ∀ p, s.mPipelines source = some p → p.started = false → p.InitOk ready branch nulled
  | .threadEnds source nulled => nulled = false →
      ∀ p, s.mPipelines source = some p → p.mStorage.tasks = []
  | _ => True

variable {s s' : Scheduler} {a : Action} {source uuid : String} {o : Option Pipeline}
variable {ready nulled ok : Bool} {branch : String → BranchResult}

theorem Aligned.branched (h : s.Aligned) : s.Branched := fun source p hp => (h source p hp).branched

@[simp] theorem put_self (s : Scheduler) (source : String) (o : Option Pipeline) :
    (s.put source o).mPipelines source = o := by simp [put]

theorem put_of_ne {source' : String} (h : source' ≠ source) (s : Scheduler)
    (o : Option Pipeline) : (s.put source o).mPipelines source' = s.mPipelines source' := by
  simp [put, h]

theorem Aligned.put (h : s.Aligned) (ho : ∀ p, o = some p → p.Aligned) :
    (s.put source o).Aligned := by
  intro source' p hp
  by_cases hsource : source' = source
  · subst hsource
    exact ho p ((put_self s source' o).symm.trans hp)
  · exact h source' p ((put_of_ne hsource s o).symm.trans hp)

theorem Aligned.branched_put_iff (h : s.Aligned) :
    (s.put source o).Branched ↔ ∀ p, o = some p → p.Branched := by
  constructor
  · intro hput p hp
    exact hput source p ((put_self s source o).trans hp)
  · intro ho source' p hp
    by_cases hsource : source' = source
    · subst hsource
      exact ho p ((put_self s source' o).symm.trans hp)
    · exact (h source' p ((put_of_ne hsource s o).symm.trans hp)).branched

theorem Aligned.stopPipeline (h : s.Aligned) (source : String) :
    (s.stopPipeline source).Aligned := by
  unfold Scheduler.stopPipeline
  split
  · exact h
  · split
    · exact h.put (by simp)
    · exact h

theorem Aligned.delTask (h : s.Aligned) (source uuid : String) (ok : Bool) :
    (s.delTask source uuid ok).Aligned := by
  unfold Scheduler.delTask
  split
  · exact h
  · rename_i p hp
    have hput : (s.put source (some (p.delTask uuid ok).1)).Aligned := by
      apply h.put
      rintro p' hp'
      rw [← Option.some.inj hp']
      exact (h source p hp).delTask uuid ok
    dsimp only
    split
    · exact hput.stopPipeline source
    · exact hput

/-! ## Runs -/

theorem Aligned.getD (h : s.Aligned) (source : String) :
    ((s.mPipelines source).getD {}).Aligned := by
  cases hp : s.mPipelines source with
  | none => exact Pipeline.aligned_default
  | some p => exact h source p hp

theorem stepOk_addTask_iff : s.StepOk (.addTask source uuid) ↔
    (((s.mPipelines source).getD {}).started = true →
      ((s.mPipelines source).getD {}).mStorage.findTask uuid ≠ none) := by
  unfold StepOk
  cases hp : s.mPipelines source with
  | none => simp [hp, Pipeline.started]
  | some p => simp [hp]

theorem Aligned.branched_addTask_iff (h : s.Aligned) :
    (s.addTask source uuid).Branched ↔ s.StepOk (.addTask source uuid) := by
  unfold addTask
  rw [h.branched_put_iff, stepOk_addTask_iff, ← (h.getD source).addTask_branched_iff]
  simp

theorem Aligned.addTask (h : s.Aligned) (hok : s.StepOk (.addTask source uuid)) :
    (s.addTask source uuid).Aligned := by
  apply h.put
  intro p hp
  rw [← Option.some.inj hp]
  exact (h.getD source).addTask_getD (stepOk_addTask_iff.1 hok)

theorem Aligned.branched_playPipeline_iff (h : s.Aligned) :
    (s.playPipeline source ready branch nulled).Branched ↔
      s.StepOk (.playPipeline source ready branch nulled) := by
  unfold playPipeline StepOk
  cases hp : s.mPipelines source with
  | none => exact iff_of_true h.branched (by simp [hp])
  | some p =>
    simp only [hp, Option.some.injEq, forall_eq']
    split_ifs with hs
    · apply iff_of_true h.branched
      intro hstop hs'
      simp [hstop, hs'] at hs
    · have hstop : s.mStop = false ∧ p.started = false := by simpa using hs
      rw [h.branched_put_iff]
      simp only [Option.some.injEq, forall_eq', hstop, forall_const]
      exact (h source p hp).startThread_branched_iff hstop.2

theorem Aligned.playPipeline (h : s.Aligned)
    (hok : s.StepOk (.playPipeline source ready branch nulled)) :
    (s.playPipeline source ready branch nulled).Aligned := by
  unfold Scheduler.playPipeline
  cases hp : s.mPipelines source with
  | none => exact h
  | some p =>
    dsimp only
    split_ifs with hs
    · exact h
    · have hstop : s.mStop = false ∧ p.started = false := by simpa using hs
      apply h.put
      intro p' hp'
      rw [← Option.some.inj hp']
      exact (h source p hp).startThread hstop.2 (hok hstop.1 p hp hstop.2)

theorem threadEnds_eq_some_iff : s.threadEnds source nulled = some s' ↔
    ∃ p, s.mPipelines source = some p ∧ p.thread = .running ∧
      s.put source (some (p.endThread nulled)) = s' := by
  unfold threadEnds
  cases hp : s.mPipelines source with
  | none => simp
  | some p => simp

theorem aligned_stopped : Aligned { mStop := true } := fun _ _ hp => by cases hp

theorem Aligned.step (h : s.Aligned) (hok : s.StepOk a) (hs : s.step a = some s') :
    s'.Aligned := by
  cases a with
  | addTask source uuid =>
    rw [← Option.some.inj hs]
    exact h.addTask hok
  | delTask source uuid ok =>
    rw [← Option.some.inj hs]
    exact h.delTask source uuid ok
  | playPipeline source ready branch nulled =>
    rw [← Option.some.inj hs]
    exact h.playPipeline hok
  | processStopEvent source =>
    rw [← Option.some.inj hs]
    exact h.stopPipeline source
  | threadEnds source nulled =>
    obtain ⟨p, hp, hrunning, rfl⟩ := threadEnds_eq_some_iff.1 hs
    apply h.put
    intro p' hp'
    rw [← Option.some.inj hp']
    exact (h source p hp).endThread hrunning fun hnulled => hok hnulled p hp
  | stop =>
    rw [← Option.some.inj hs]
    exact aligned_stopped

/-- One step keeps every task with its branch if and only if it meets `StepOk`. -/
theorem Aligned.step_iff (h : s.Aligned) (hs : s.step a = some s') : s'.Branched ↔ s.StepOk a := by
  cases a with
  | addTask source uuid =>
    rw [← Option.some.inj hs]
    exact h.branched_addTask_iff
  | playPipeline source ready branch nulled =>
    rw [← Option.some.inj hs]
    exact h.branched_playPipeline_iff
  | threadEnds source nulled =>
    obtain ⟨p, hp, hrunning, rfl⟩ := threadEnds_eq_some_iff.1 hs
    rw [h.branched_put_iff]
    simp only [Option.some.injEq, forall_eq']
    rw [(h source p hp).endThread_branched_iff hrunning]
    simp [StepOk, hp]
  | delTask | processStopEvent | stop =>
    exact iff_of_true (h.step (by trivial) hs).branched trivial

/-- A run keeps tasks and branches together if and only if all of its steps meet `StepOk`. -/
theorem throughout_branched_iff (as : List Action) :
    Throughout step Branched {} as ↔ EachStep step StepOk {} as :=
  throughout_iff_eachStep_of_ok (I := Aligned) (fun h _ hok hs => h.step hok hs)
    (fun h _ hs => h.step_iff hs) (fun _ _ hp => by cases hp) fun _ _ hp => by cases hp

/-- The task `b` is added while the pipeline is playing: it is in the storage, has no branch, and a
later `delTask` of it throws. -/
theorem task_without_branch : ∃ s, exec step {}
    [.addTask "source" "a", .playPipeline "source" true (fun _ => .linked) true,
      .addTask "source" "b"] = some s ∧
    ∃ p, s.mPipelines "source" = some p ∧ p.started = true ∧ p.branches = ["a"] ∧
      p.mStorage.findTask "b" = some { uuid := "b" } ∧ ¬ s.Branched ∧
      p.delTask "b" true = (p, false) := by
  refine ⟨_, rfl, _, rfl, by decide, by decide, by decide, ?_, by decide⟩
  intro h
  have hlast := ((h "source" _ rfl).initialised (by decide) { uuid := "b" } (by decide)).1
  exact absurd hlast (by decide)

end Scheduler

end Kalinka.Trans
