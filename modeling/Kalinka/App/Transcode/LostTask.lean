import Kalinka.App.Transcode.Calls
import Kalinka.Lib.Run

/-!
# Tasks in removed pipelines

`addTask` looks a pipeline up and adds the task to it later, and `stopPipeline` erases whatever
pipeline is registered for the source by then.  `throughout_noLostTask_iff` says exactly which runs
keep every added task in a registered pipeline.
-/

namespace Kalinka.Trans

open Run Function

namespace Calls

variable {s s' : Calls} {a : Action} {p : ℕ} {o o' : Object} {source uuid : String}
variable {pipelines : String → Option ℕ} {ready ok : Bool}

/-- The tasks of a pipeline that have been added, and neither deleted nor stopped, are in its
storage, and the pipeline is registered. -/
def Safe (pipelines : String → Option ℕ) (p : ℕ) (o : Object) : Prop :=
  ∀ uuid ∈ o.kept, uuid ∈ o.mStorage.tasks.map Task.uuid ∧ pipelines o.source = some p

def NoLostTask (s : Calls) : Prop := ∀ p, Safe s.mPipelines p (s.objects p)

/-- Pipelines are registered under the UUIDs of their sources. -/
def Filed (s : Calls) : Prop :=
  ∀ source p, s.mPipelines source = some p → p < s.next ∧ (s.objects p).source = source

/-- A task is added to a registered pipeline, a pipeline is erased without tasks, none is added
between a `stop()` and the end of the thread, and no thread is started for tasks that were added
while the last one is still busy. -/
def StepOk (s : Calls) : Action → Prop
  | .pushTask i => ∀ p uuid, s.calls i = .adding p uuid →
      (s.objects p).mStorage.findTask uuid = none → s.mPipelines (s.objects p).source = some p
  | .erasePipeline i => ∀ source, s.calls i = .erasing source →
      ∀ p, s.mPipelines source = some p → (s.objects p).kept = []
  | .threadEnds p => (s.objects p).stopped = true → (s.objects p).kept = []
  | .startThread p _ => (s.objects p).running = true → (s.objects p).kept = []
  | _ => True

/-! ## Registered pipelines -/

theorem Filed.setObject (h : s.Filed) (ho : o.source = (s.objects p).source) :
    (s.setObject p o).Filed := by
  intro source q hq
  obtain ⟨hlt, hsource⟩ := h source q hq
  refine ⟨hlt, ?_⟩
  by_cases hqp : q = p
  · subst hqp
    simpa [Calls.setObject, ho] using hsource
  · simpa [Calls.setObject, hqp] using hsource

theorem Filed.insertPipeline (h : s.Filed) : (s.insertPipeline source).Filed := by
  intro source' q hq
  by_cases hsource : source' = source
  · subst hsource
    have hnext : s.next = q := by simpa [Calls.insertPipeline] using hq
    subst hnext
    simp [Calls.insertPipeline]
  · have hq' : s.mPipelines source' = some q := by
      simpa [Calls.insertPipeline, hsource] using hq
    obtain ⟨hlt, hq''⟩ := h source' q hq'
    refine ⟨Nat.lt_succ_of_lt hlt, ?_⟩
    simpa [Calls.insertPipeline, Nat.ne_of_lt hlt] using hq''

theorem Filed.erasePipeline (h : s.Filed) : (s.erasePipeline source).Filed := by
  intro source' q hq
  by_cases hsource : source' = source
  · subst hsource
    simp [Calls.erasePipeline] at hq
  · exact h source' q (by simpa [Calls.erasePipeline, hsource] using hq)

theorem Filed.step (h : s.Filed) (hs : s.step a = some s') : s'.Filed := by
  cases moves_of_step hs with
  | findPipeline | pushThrows | delTask | nothingToDelete | eraseThrows | empty | notEmpty
  | getEvent | getPipeline | noPipeline | noThread | isStopped | join | addEvent => exact h
  | insertPipeline => exact h.insertPipeline
  | pushTask hi ho =>
    obtain ⟨hfind, rfl⟩ := Object.addTask_eq_some_iff.1 ho
    exact h.setObject rfl
  | eraseTask ho =>
    obtain rfl | rfl := Object.delTask_eq_some ho
    · exact h.setObject rfl
    · exact h.setObject rfl
  | getThreadInfo | stop | eraseThread | stopLoop | threadEnds => exact h.setObject rfl
  | erasePipeline => exact h.erasePipeline
  | startThread => exact h.setObject Object.source_startThread

/-! ## Lost tasks -/

theorem NoLostTask.setObject_iff (h : s.NoLostTask) :
    (s.setObject p o).NoLostTask ↔ Safe s.mPipelines p o := by
  apply (forall_setObject_iff (Safe s.mPipelines)).trans
  exact and_iff_left fun q _ => h q

theorem NoLostTask.insertPipeline (h : s.NoLostTask) (hp : s.mPipelines source = none) :
    (s.insertPipeline source).NoLostTask := by
  apply (forall_insertPipeline_iff (Safe (s.insertPipeline source).mPipelines)).2
  refine ⟨fun _ huuid => (by cases huuid), fun q _ uuid huuid => ?_⟩
  obtain ⟨hmem, hreg⟩ := h q uuid huuid
  refine ⟨hmem, ?_⟩
  have hne : (s.objects q).source ≠ source := by
    rintro rfl
    rw [hp] at hreg
    cases hreg
  exact (update_of_ne hne _ _).trans hreg

theorem NoLostTask.erasePipeline_iff (h : s.NoLostTask) (hI : s.Filed) :
    (s.erasePipeline source).NoLostTask ↔
      ∀ p, s.mPipelines source = some p → (s.objects p).kept = [] := by
  constructor
  · intro hlost p hp
    apply List.eq_nil_iff_forall_not_mem.2
    intro uuid huuid
    have hreg := (hlost p uuid huuid).2
    change update s.mPipelines source none (s.objects p).source = some p at hreg
    rw [(hI source p hp).2, update_self] at hreg
    cases hreg
  · intro hkept p uuid huuid
    obtain ⟨hmem, hreg⟩ := h p uuid huuid
    refine ⟨hmem, ?_⟩
    have hne : (s.objects p).source ≠ source := by
      rintro rfl
      exact List.ne_nil_of_mem huuid (hkept p hreg)
    exact (update_of_ne hne _ _).trans hreg

theorem Safe.addTask_iff (h : Safe pipelines p o) (ho : o.addTask uuid = some o') :
    Safe pipelines p o' ↔ pipelines o.source = some p := by
  obtain ⟨hfind, rfl⟩ := Object.addTask_eq_some_iff.1 ho
  constructor
  · intro hsafe
    exact (hsafe uuid (List.mem_append_right _ List.mem_cons_self)).2
  · intro hreg other hother
    refine ⟨?_, hreg⟩
    change other ∈ (o.mStorage.tasks ++ [_]).map Task.uuid
    rw [List.map_append, List.mem_append]
    obtain hmem | hlast := List.mem_append.1 hother
    · exact .inl (h other hmem).1
    · exact .inr hlast

theorem Safe.delTask (h : Safe pipelines p o) (ho : o.delTask uuid ok = some o') :
    Safe pipelines p o' := by
  obtain rfl | rfl := Object.delTask_eq_some ho
  · exact h
  · intro other hother
    obtain ⟨hmem, hne⟩ := List.mem_filter.1 hother
    refine ⟨?_, (h other hmem).2⟩
    change other ∈ (o.mStorage.erase uuid).tasks.map Task.uuid
    rw [Storage.map_uuid_erase, List.mem_erase_of_ne (by simpa using hne)]
    exact (h other hmem).1

/-- An empty storage is safe exactly if no task is to be kept. -/
theorem safe_iff_of_empty (ho : o.mStorage = {}) : Safe pipelines p o ↔ o.kept = [] := by
  constructor
  · intro hsafe
    apply List.eq_nil_iff_forall_not_mem.2
    intro uuid huuid
    have hmem := (hsafe uuid huuid).1
    rw [ho] at hmem
    cases hmem
  · intro hkept uuid huuid
    rw [hkept] at huuid
    cases huuid

/-- A thread that cannot be started empties the storage. -/
theorem Safe.startThread_iff (h : Safe pipelines p o) :
    Safe pipelines p (o.startThread ready) ↔ (o.running = true → o.kept = []) := by
  unfold Object.startThread
  split
  next hready =>
    apply iff_of_true h
    rw [hready.2]
    exact nofun
  next =>
    apply (safe_iff_of_empty rfl).trans
    exact ite_eq_right_iff

/-- The end of a thread empties the storage. -/
theorem Safe.threadEnds_iff : Safe pipelines p o.threadEnds ↔ (o.stopped = true → o.kept = []) := by
  apply (safe_iff_of_empty rfl).trans
  exact ite_eq_right_iff

/-- One step loses no task if and only if it meets `StepOk`. -/
theorem NoLostTask.step_iff (hI : s.Filed) (h : s.NoLostTask) (hs : s.step a = some s') :
    s'.NoLostTask ↔ s.StepOk a := by
  cases moves_of_step hs with
  | findPipeline | delTask | nothingToDelete | eraseThrows | empty | notEmpty | getEvent
  | getPipeline | noPipeline | noThread | isStopped | join | addEvent =>
    exact iff_of_true h trivial
  | insertPipeline hp => exact iff_of_true (h.insertPipeline hp) trivial
  | pushTask hi ho =>
    obtain ⟨hfind, -⟩ := Object.addTask_eq_some_iff.1 ho
    apply (h.setObject_iff.trans ((h _).addTask_iff ho)).trans
    simp [StepOk, hi, hfind]
  | pushThrows hi ho =>
    apply iff_of_true h
    intro p uuid hi' hfind
    obtain ⟨rfl, rfl⟩ := Pc.adding.inj (hi.symm.trans hi')
    rw [Object.addTask_eq_some_iff.2 ⟨hfind, rfl⟩] at ho
    cases ho
  | eraseTask ho => exact iff_of_true (h.setObject_iff.2 ((h _).delTask ho)) trivial
  | getThreadInfo =>
    refine iff_of_true (h.setObject_iff.2 fun uuid huuid => ?_) trivial
    exact h _ uuid (List.mem_of_mem_filter huuid)
  | stop | eraseThread | stopLoop => exact iff_of_true (h.setObject_iff.2 (h _)) trivial
  | erasePipeline hi =>
    apply (h.erasePipeline_iff hI).trans
    simp [StepOk, hi]
  | startThread => exact h.setObject_iff.trans (h _).startThread_iff
  | threadEnds => exact h.setObject_iff.trans Safe.threadEnds_iff

/-- A run loses no task if and only if all of its steps meet `StepOk`. -/
theorem throughout_noLostTask_iff (as : List Action) :
    Throughout step NoLostTask {} as ↔ EachStep step StepOk {} as :=
  throughout_iff_eachStep (I := Filed) (fun h hs => h.step hs) (fun hI h hs => h.step_iff hI hs)
    (fun _ _ hp => by cases hp) fun _ _ huuid => by cases huuid

/-- The thread 1 deletes the last task, finds the pipeline empty and stops it.  The thread 0 has
looked it up before it is erased, and adds a task to it. -/
theorem task_in_removed_pipeline : ∃ s, exec step {}
    [.addTask 0 "source" "a", .pushTask 0, .startThread 0 true, .delTask 1 "source" "a",
      .eraseTask 1 true, .empty 1, .addTask 0 "source" "b", .getPipeline 1, .getThreadInfo 1,
      .stopThreadByInfo 1, .stopLoop 0, .threadEnds 0, .join 1, .eraseThread 1, .erasePipeline 1,
      .pushTask 0] = some s ∧
    s.calls 0 = .idle ∧ (s.objects 0).kept = ["b"] ∧
      (s.objects 0).mStorage.tasks.map Task.uuid = ["b"] ∧ s.mPipelines "source" = none ∧
      ¬ s.NoLostTask := by
  refine ⟨_, rfl, rfl, by decide, by decide, by decide, ?_⟩
  intro h
  have hreg := (h 0 "b" (by decide)).2
  exact absurd hreg (by decide)

end Calls

end Kalinka.Trans
