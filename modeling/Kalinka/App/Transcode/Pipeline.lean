import Mathlib.Data.List.Nodup

/-!
# Pipelines of the transcoder

A `Pipeline` transcodes one source for several tasks.  Its storage holds the tasks, and `init`
builds a branch for each of them when the thread of the pipeline starts.  `clean` empties the
storage before it takes the GStreamer pipeline down.

What GStreamer does (a branch that cannot be created, an element that cannot be linked, a change of
state that fails) is an argument of the functions.
-/

namespace Kalinka.Trans

/-- `trans::Task`; `mBranch` says that `m_branch` is not `NULL`. -/
structure Task where
  uuid : String
  mBranch : Bool := false
  deriving DecidableEq, Repr

/-- `m_storage`: no two tasks have one UUID. -/
structure Storage where
  tasks : List Task := []
  nodup : (tasks.map Task.uuid).Nodup := by exact List.nodup_nil
  deriving DecidableEq, Repr

namespace Storage

/-- `findTask` -/
def findTask (s : Storage) (uuid : String) : Option Task := s.tasks.find? (·.uuid = uuid)

theorem findTask_eq_none_iff {s : Storage} {uuid : String} :
    s.findTask uuid = none ↔ uuid ∉ s.tasks.map Task.uuid := by
  simp [findTask, List.find?_eq_none, List.mem_map]

theorem findTask_eq_some {s : Storage} {uuid : String} {task : Task}
    (h : s.findTask uuid = some task) : task ∈ s.tasks ∧ task.uuid = uuid :=
  ⟨List.mem_of_find?_eq_some h, by simpa using List.find?_some h⟩

def pushBack (s : Storage) (task : Task) (h : s.findTask task.uuid = none) : Storage where
  tasks := s.tasks ++ [task]
  nodup := by
    rw [List.map_append, List.map_singleton, ← List.concat_eq_append, List.nodup_concat]
    exact ⟨findTask_eq_none_iff.1 h, s.nodup⟩

/-- `m_storage.erase(find)` -/
def erase (s : Storage) (uuid : String) : Storage where
  tasks := s.tasks.eraseP (·.uuid = uuid)
  nodup := s.nodup.sublist (List.eraseP_sublist.map _)

/-- `setBranch` for every task. -/
def setBranches (s : Storage) : Storage where
  tasks := s.tasks.map fun task => { task with mBranch := true }
  nodup := by simpa [List.map_map, Function.comp_def] using s.nodup

theorem map_uuid_erase (s : Storage) (uuid : String) :
    (s.erase uuid).tasks.map Task.uuid = (s.tasks.map Task.uuid).erase uuid := by
  rw [List.erase_eq_eraseP, List.eraseP_map]
  have hp : (fun task : Task => decide (task.uuid = uuid)) = (uuid == ·) ∘ Task.uuid := by
    funext task
    exact Bool.eq_iff_iff.2 (by simpa using ⟨Eq.symm, Eq.symm⟩)
  rw [← hp]
  rfl

theorem map_uuid_setBranches (s : Storage) :
    s.setBranches.tasks.map Task.uuid = s.tasks.map Task.uuid := by
  simp [setBranches, List.map_map, Function.comp_def]

end Storage

/-- What becomes of the branch of a task in `initTask`. -/
inductive BranchResult
  /-- it cannot be created, or not be added to the pipeline -/
  | failed
  /-- it is added, but cannot be linked -/
  | unlinked
  | linked
  deriving DecidableEq, Repr

/-- The thread of a pipeline, as the base scheduler knows it: `ended` is behind `clean()`, and still
in `m_threads`. -/
inductive ThreadState
  | notStarted
  | running
  | ended
  deriving DecidableEq, Repr

structure Pipeline where
  mStorage : Storage := {}
  /-- the branches in `m_pipeline`, by the UUIDs of their tasks, or `none` for `NULL`; `m_loop`
  comes and goes with it -/
  mPipeline : Option (List String) := none
  thread : ThreadState := .notStarted
  deriving DecidableEq, Repr

namespace Pipeline

def branches (p : Pipeline) : List String := p.mPipeline.getD []

/-- `Scheduler::isStarted` -/
def started (p : Pipeline) : Bool := p.thread ≠ .notStarted

def empty (p : Pipeline) : Bool := p.mStorage.tasks.isEmpty

/-- `addTask`, or `none` when it throws. -/
def addTask (p : Pipeline) (uuid : String) : Option Pipeline :=
  if h : p.mStorage.findTask uuid = none then
    some { p with mStorage := p.mStorage.pushBack { uuid } h }
  else none

/-- `delTask`: the pipeline afterwards, and whether it returned without an exception.  The changes
of GStreamer's elements succeed (`ok`) or not. -/
def delTask (p : Pipeline) (uuid : String) (ok : Bool) : Pipeline × Bool :=
  match p.mStorage.findTask uuid with
  | none => (p, true)
  | some task =>
    -- `getBranch()` throws for a task without one, `gst_bin_remove` fails for a strange element
    if task.mBranch = true ∧ uuid ∈ p.branches ∧ ok = true then
      ({ p with
          mStorage := p.mStorage.erase uuid
          mPipeline := p.mPipeline.map (·.erase uuid) }, true)
    else (p, false)

/-- `clean`: the storage is emptied first, and `m_pipeline` is freed after the change to
`GST_STATE_NULL`, if that succeeds (`nulled`). -/
def clean (p : Pipeline) (nulled : Bool) : Pipeline :=
  { p with mStorage := {}, mPipeline := if nulled then none else p.mPipeline }

/-- `initTask` for one task after the other, up to the first that throws: the branches that have
been added, and whether all went well. -/
def initTasks (branch : String → BranchResult) : List Task → List String × Bool
  | [] => ([], true)
  | task :: tasks =>
    match branch task.uuid with
    | .failed => ([], false)
    | .unlinked => ([task.uuid], false)
    | .linked =>
      let rest := initTasks branch tasks
      (task.uuid :: rest.1, rest.2)

/-- `init`: the pipeline afterwards, and whether it returned without an exception.  `ready` says
that the elements before the branches are in place. -/
def init (p : Pipeline) (ready : Bool) (branch : String → BranchResult) (nulled : Bool) :
    Pipeline × Bool :=
  match p.mPipeline with
  -- `BOOST_ASSERT(m_loop == NULL)` in `gst::Thread::init`
  | some _ => (p.clean nulled, false)
  | none =>
    -- `BOOST_ASSERT(m_storage.empty() == false)` behind the elements
    if ready = false ∨ p.empty = true then
      ({ p with mPipeline := some [] }.clean nulled, false)
    else
      let out := initTasks branch p.mStorage.tasks
      if out.2 = true then
        ({ p with mStorage := p.mStorage.setBranches, mPipeline := some out.1 }, true)
      else ({ p with mPipeline := some out.1 }.clean nulled, false)

variable {p : Pipeline} {uuid : String} {branch : String → BranchResult} {tasks : List Task}

theorem initTasks_snd_eq_true_iff :
    (initTasks branch tasks).2 = true ↔ ∀ task ∈ tasks, branch task.uuid = .linked := by
  induction tasks with
  | nil => simp [initTasks]
  | cons task tasks ih =>
    rw [List.forall_mem_cons, ← ih, initTasks]
    cases branch task.uuid <;> simp

theorem initTasks_fst (h : (initTasks branch tasks).2 = true) :
    (initTasks branch tasks).1 = tasks.map Task.uuid := by
  induction tasks with
  | nil => rfl
  | cons task tasks ih =>
    rw [initTasks] at h ⊢
    cases hb : branch task.uuid with
    | failed | unlinked => simp [hb] at h
    | linked =>
      simp only [hb] at h ⊢
      rw [ih h, List.map_cons]

theorem initTasks_fst_eq_nil_iff : (initTasks branch tasks).1 = [] ↔
    ∀ task, tasks.head? = some task → branch task.uuid = .failed := by
  cases tasks with
  | nil => simp [initTasks]
  | cons task tasks =>
    rw [initTasks]
    cases hb : branch task.uuid <;> simp [hb]

end Pipeline

end Kalinka.Trans
