import Kalinka.App.Transcode.Calls
import Kalinka.Lib.Run

/-!
# Stop messages and later pipelines

A stop message carries the UUID of a source and waits in the queue of the event processor.  By the
time it is handled, `getPipeline` may find a later pipeline for the same source.
`throughout_ownStops_iff` says that nothing else goes wrong: a run stops pipelines for their own
messages, and for the requests made while they were current, exactly if every lookup finds the
pipeline the call is meant for, or none.
-/

namespace Kalinka.Trans

open Run Function

/-- The pipeline that a call of `stopPipeline` has found, and the one it is meant for. -/
def Pc.target : Pc → Option (ℕ × ℕ)
  | .found p _ origin _ => some (p, origin)
  | .informed p _ origin => some (p, origin)
  | .joining p _ origin _ => some (p, origin)
  | .joined p _ origin => some (p, origin)
  | _ => none

namespace Calls

variable {s s' : Calls} {a : Action} {i p : ℕ} {o : Object} {pc : Pc} {source : String}

/-- `stop()` has been called, and is going to be called, on no pipeline but the one the call is
meant for. -/
structure OwnStops (s : Calls) : Prop where
  stopped : ∀ p, ∀ origin ∈ (s.objects p).stops, p = origin
  stopping : ∀ i p origin, (s.calls i).target = some (p, origin) → p = origin

/-- The pipeline that is registered when `stopPipeline` looks it up is the one that sent the event,
or the one that `delTask` has found. -/
def LookupOk (s : Calls) : Action → Prop
  | .getPipeline i => ∀ source origin event, s.calls i = .stopPipeline source origin event →
      ∀ p, s.mPipelines source = some p → p = origin
  | _ => True

theorem OwnStops.setCall_iff (h : s.OwnStops) : (s.setCall i pc).OwnStops ↔
    ∀ p origin, pc.target = some (p, origin) → p = origin := by
  constructor
  · intro hown p origin htarget
    apply hown.stopping i p origin
    simpa [Calls.setCall] using htarget
  · intro hpc
    refine ⟨h.stopped, ?_⟩
    apply (forall_setCall_iff fun _ pc => ∀ p origin, pc.target = some (p, origin) → p = origin).2
    exact ⟨hpc, fun j _ => h.stopping j⟩

theorem OwnStops.setCall (h : s.OwnStops) (hpc : pc.target = none) : (s.setCall i pc).OwnStops := by
  apply h.setCall_iff.2
  intro p origin htarget
  rw [hpc] at htarget
  cases htarget

/-- A call goes on with the pipeline it has. -/
theorem OwnStops.advance (h : s.OwnStops) {pc' : Pc} (hi : s.calls i = pc')
    (hpc : pc.target = pc'.target) : (s.setCall i pc).OwnStops := by
  apply h.setCall_iff.2
  intro p origin htarget
  apply h.stopping i p origin
  rw [hi, ← hpc, htarget]

theorem OwnStops.setObject (h : s.OwnStops) (ho : ∀ origin ∈ o.stops, p = origin) :
    (s.setObject p o).OwnStops := by
  refine ⟨?_, h.stopping⟩
  apply (forall_setObject_iff fun q o => ∀ origin ∈ o.stops, q = origin).2
  exact ⟨ho, fun q _ => h.stopped q⟩

theorem OwnStops.insertPipeline (h : s.OwnStops) : (s.insertPipeline source).OwnStops := by
  refine ⟨?_, h.stopping⟩
  apply (forall_insertPipeline_iff fun q o => ∀ origin ∈ o.stops, q = origin).2
  exact ⟨fun _ horigin => (by cases horigin), fun q _ => h.stopped q⟩

/-- One step stops the right pipeline if and only if it meets `LookupOk`. -/
theorem OwnStops.step_iff (h : s.OwnStops) (hs : s.step a = some s') :
    s'.OwnStops ↔ s.LookupOk a := by
  cases moves_of_step hs with
  | nothingToDelete | addEvent => exact iff_of_true ⟨h.stopped, h.stopping⟩ trivial
  | findPipeline | pushThrows | delTask | eraseThrows | empty | notEmpty | noThread =>
    exact iff_of_true (h.setCall rfl) trivial
  | insertPipeline => exact iff_of_true (h.insertPipeline.setCall rfl) trivial
  | pushTask hi ho =>
    obtain ⟨-, rfl⟩ := Object.addTask_eq_some_iff.1 ho
    refine iff_of_true (OwnStops.setCall ?_ rfl) trivial
    exact h.setObject (h.stopped _)
  | eraseTask ho =>
    refine iff_of_true (OwnStops.setCall ?_ rfl) trivial
    obtain rfl | rfl := Object.delTask_eq_some ho
    · exact h.setObject (h.stopped _)
    · exact h.setObject (h.stopped _)
  | @getEvent i source origin events =>
    have hevents : OwnStops { s with events } := ⟨h.stopped, h.stopping⟩
    exact iff_of_true (hevents.setCall rfl) trivial
  | getPipeline hi hp =>
    rw [h.setCall_iff]
    simp [LookupOk, Pc.target, hi, hp]
  | noPipeline hi hp =>
    apply iff_of_true (h.setCall rfl)
    simp [LookupOk, hi, hp]
  | getThreadInfo hi =>
    refine iff_of_true (OwnStops.advance ?_ hi rfl) trivial
    exact h.setObject (h.stopped _)
  | isStopped hi => exact iff_of_true (h.advance hi rfl) trivial
  | stop hi =>
    refine iff_of_true (OwnStops.advance (h.setObject ?_) hi rfl) trivial
    intro origin horigin
    obtain rfl | hmem := List.mem_cons.1 horigin
    · exact h.stopping _ _ _ (congrArg Pc.target hi)
    · exact h.stopped _ origin hmem
  | join hi => exact iff_of_true (h.advance hi rfl) trivial
  | eraseThread =>
    refine iff_of_true (OwnStops.setCall ?_ rfl) trivial
    exact h.setObject (h.stopped _)
  | @erasePipeline i source =>
    have herase : OwnStops (s.erasePipeline source) := ⟨h.stopped, h.stopping⟩
    exact iff_of_true (herase.setCall rfl) trivial
  | startThread =>
    refine iff_of_true (h.setObject ?_) trivial
    rw [Object.stops_startThread]
    exact h.stopped _
  | stopLoop | threadEnds => exact iff_of_true (h.setObject (h.stopped _)) trivial

theorem ownStops_default : OwnStops {} where
  stopped _ _ h := by cases h
  stopping _ _ _ h := by cases h

/-- A run stops no pipeline for another one if and only if all of its steps meet `LookupOk`. -/
theorem throughout_ownStops_iff (as : List Action) :
    Throughout step OwnStops {} as ↔ EachStep step LookupOk {} as :=
  throughout_iff_eachStep (I := fun _ => True) (fun _ _ => trivial) (fun _ h hs => h.step_iff hs)
    trivial ownStops_default

/-- The first pipeline reaches the end of its stream and is stopped by `delTask`.  A second one is
started for the same source, and the message of the first one stops it. -/
theorem later_pipeline_stopped : ∃ s, exec step {}
    [.addTask 0 "source" "a", .pushTask 0, .startThread 0 true, .addEvent 0,
      .delTask 0 "source" "a", .eraseTask 0 true, .empty 0, .getPipeline 0, .getThreadInfo 0,
      .stopThreadByInfo 0, .stopLoop 0, .threadEnds 0, .join 0, .eraseThread 0, .erasePipeline 0,
      .addTask 0 "source" "b", .pushTask 0, .startThread 1 true, .getEvent 1, .getPipeline 1,
      .getThreadInfo 1, .stopThreadByInfo 1, .stopLoop 1, .threadEnds 1, .join 1, .eraseThread 1,
      .erasePipeline 1] = some s ∧
    s.mPipelines "source" = none ∧ (s.objects 1).mStorage.tasks = [] ∧
      (s.objects 1).stops = [0] ∧ ¬ s.OwnStops := by
  refine ⟨_, rfl, rfl, by decide, by decide, ?_⟩
  intro h
  exact absurd (h.stopped 1 0 (by decide)) (by decide)

end Calls

end Kalinka.Trans
