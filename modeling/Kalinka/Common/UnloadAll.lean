import Kalinka.Common.Mod.Dep
import Kalinka.Common.SchedulerCalls

/-!
# Unloading modules

`ModuleFactory::unload` stops the thread of one module.  `unloadAll` reads the sorted list of the
dependencies and calls `unload` for each name in it, then clears the dependencies and stops what is
left in the scheduler.  The list has names of modules that were never loaded, and not those of
modules without dependencies.

Any number of callers unload modules by hand or all of them at the same time, and between any two
of their accesses to the factory and to its scheduler the others take steps.  A thread pointer is a
position in `m_modules`; no module is loaded in the meantime.

A module that is still being stopped by hand is passed over, because its trigger is stopped already:
`stops_before_returned`.
-/

namespace Kalinka

open Relation DirectedGraph Run Function

/-- A call of `unload`, or of `unloadAll` if `all`, with the names it still has to go through. -/
structure UnloadCall where
  all : Bool
  todo : List String
  deriving DecidableEq, Repr

/-- Where `unload` is: before `isStarted`, before `stopThread`, in it, or before the assertion. -/
inductive UnloadStage
  | isStarted
  | stopThread
  | stopping
  | assertion
  deriving DecidableEq, Repr

inductive UnloadPc
  | idle
  /-- before the `unload` of the next name -/
  | next (call : UnloadCall)
  /-- in `unload(id)`, which has found the module with this thread -/
  | unload (stage : UnloadStage) (id : String) (thread : ThreadPtr) (call : UnloadCall)
  /-- before `m_dependency.clear()` -/
  | clear
  /-- before `Scheduler::stop`, or in it -/
  | stop
  | stopping
  deriving DecidableEq, Repr

/-- The part of `ModuleFactory` that unloads, and its callers. -/
structure UnloadSystem where
  /-- the ids -/
  mModules : List String
  mDependency : Dependency
  mScheduler : SchedulerSystem
  call : Caller → UnloadPc := fun _ => .idle

inductive UnloadAction
  | unload (c : Caller) (id : String)
  | unloadAll (c : Caller)
  /-- the next step of the call that `c` is in -/
  | go (c : Caller)
  /-- what the threads do themselves -/
  | thread (a : SchedulerAction)

namespace UnloadSystem

variable (topologicalSort : DependencyGraph → List ℕ)

/-- `getModule`, for the thread of the module. -/
def getModule (s : UnloadSystem) (id : String) : Option ThreadPtr :=
  s.mModules.findIdx? (· = id)

/-- The scheduler has a thread of this module. -/
def isStarted (s : UnloadSystem) (id : String) : Bool :=
  match s.getModule id with
  | some thread => s.mScheduler.isStartedUnsafe thread
  | none => false

def setCall (s : UnloadSystem) (c : Caller) (pc : UnloadPc) : UnloadSystem :=
  { s with call := update s.call c pc }

/-- `unload` up to the module's thread; an exception ends the whole call. -/
def next (s : UnloadSystem) (call : UnloadCall) : UnloadPc :=
  match call.todo with
  | [] => if call.all then .clear else .idle
  | id :: todo =>
    if id = "" then .idle
    else match s.getModule id with
      | none => .next { call with todo }
      | some thread => .unload .isStarted id thread { call with todo }

/-- The scheduler's next step in the call that `c` is in there. -/
def goScheduler (s : UnloadSystem) (c : Caller) (pc : UnloadPc) : Option UnloadSystem :=
  (s.mScheduler.go c).map fun mScheduler => { s with mScheduler }.setCall c pc

/-- `getThreadInfo` does not find the thread, and throws. -/
def throws (s : UnloadSystem) (c : Caller) : Bool :=
  match s.mScheduler.pc c with
  | .getThreadInfo thread => !s.mScheduler.isStartedUnsafe thread
  | _ => false

/-- One step of `unload` from the module's thread on. -/
def goUnload (s : UnloadSystem) (c : Caller) (id : String) (thread : ThreadPtr)
    (call : UnloadCall) : UnloadStage → Option UnloadSystem
  | .isStarted =>
    if s.mScheduler.locked then none
    else some (s.setCall c (.unload
      (if s.mScheduler.isStartedUnsafe thread then .stopThread else .assertion) id thread call))
  | .stopThread =>
    (s.mScheduler.step (.stopThread c thread)).map fun mScheduler =>
      { s with mScheduler }.setCall c (.unload .stopping id thread call)
  | .stopping =>
    if s.mScheduler.pc c = .idle then some (s.setCall c (.unload .assertion id thread call))
    else s.goScheduler c (if s.throws c then .idle else .unload .stopping id thread call)
  | .assertion =>
    if s.mScheduler.locked then none
    else some (s.setCall c (if s.mScheduler.isStartedUnsafe thread then .idle else .next call))

/-- One step of the call that `c` is in. -/
def go (s : UnloadSystem) (c : Caller) : Option UnloadSystem :=
  match s.call c with
  | .idle => none
  | .next call => some (s.setCall c (s.next call))
  | .unload stage id thread call => s.goUnload c id thread call stage
  | .clear => some ({ s with mDependency := s.mDependency.clear }.setCall c .stop)
  | .stop =>
    (s.mScheduler.step (.stop c)).map fun mScheduler => { s with mScheduler }.setCall c .stopping
  | .stopping =>
    if s.mScheduler.pc c = .idle then some (s.setCall c .idle) else s.goScheduler c .stopping

def step (s : UnloadSystem) : UnloadAction → Option UnloadSystem
  | .unload c id =>
    if s.call c = .idle ∧ s.mScheduler.pc c = .idle then
      some (s.setCall c (.next ⟨false, [id]⟩))
    else none
  | .unloadAll c =>
    if s.call c = .idle ∧ s.mScheduler.pc c = .idle then
      some (s.setCall c (.next ⟨true, s.mDependency.getSortedList topologicalSort⟩))
    else none
  | .go c => s.go c
  | .thread a =>
    if a.own then (s.mScheduler.step a).map fun mScheduler => { s with mScheduler } else none

/-- The names that a caller in `unloadAll` is not done with. -/
def todo : UnloadPc → Option (List String)
  | .next call => if call.all then some call.todo else none
  | .unload _ id _ call => if call.all then some (id :: call.todo) else none
  | .clear | .stop | .stopping => some []
  | .idle => none

/-- The next step of `c`, in `unloadAll`, calls `stop()` of the module `id`. -/
def Stops (s : UnloadSystem) (c : Caller) (id : String) : Prop :=
  todo (s.call c) ≠ none ∧ ∃ info call, s.mScheduler.pc c = .stopThreadByInfo .stop info call ∧
    s.getModule id = some info.thread

variable {topologicalSort : DependencyGraph → List ℕ}
variable {s s' : UnloadSystem} {sorted l : List String} {c : Caller} {pc : UnloadPc}
variable {id x y : String} {thread : ThreadPtr} {call : UnloadCall}

/-! ## The walk

A caller in `unloadAll` has a suffix of the sorted list to go through, and the modules before it
are not started.  Nobody starts them again. -/

/-- Where the call of the scheduler is that `c` makes at a place of `unloadAll`. -/
def Placed (s : UnloadSystem) (sorted : List String) (c : Caller) : UnloadPc → Prop
  | .unload .stopping _ thread _ => s.mScheduler.Only (· = thread) (s.mScheduler.pc c)
  | .stopping =>
    s.mScheduler.Only (fun thread => ∀ x ∈ sorted, s.getModule x ≠ some thread) (s.mScheduler.pc c)
  | _ => s.mScheduler.pc c = .idle

/-- The thread at this place is the one of the module. -/
def OfModule (s : UnloadSystem) : UnloadPc → Prop
  | .unload _ id thread _ => s.getModule id = some thread
  | _ => True

/-- What holds of a caller in `unloadAll` with `l` to go. -/
structure Doing (s : UnloadSystem) (sorted : List String) (c : Caller) (pc : UnloadPc)
    (l : List String) : Prop where
  suffix : l <:+ sorted
  done : ∀ x ∈ sorted, x ∉ l → s.isStarted x = false
  ofModule : s.OfModule pc
  placed : s.Placed sorted c pc

structure Inv (topologicalSort : DependencyGraph → List ℕ) (sorted : List String)
    (s : UnloadSystem) : Prop where
  /-- The dependencies are cleared only when the walk is over. -/
  list : s.mDependency.getSortedList topologicalSort = sorted ∨
    s.mDependency.getSortedList topologicalSort = [] ∧ ∀ x ∈ sorted, s.isStarted x = false
  doing : ∀ c l, todo (s.call c) = some l → s.Doing sorted c (s.call c) l

theorem isStarted_eq (h : s.getModule x = some thread) :
    s.isStarted x = s.mScheduler.isStartedUnsafe thread := by
  rw [isStarted, h]

theorem isStarted_shrinks {mScheduler : SchedulerSystem} (h : s.mScheduler.Shrinks c mScheduler)
    (hx : s.isStarted x = false) : { s with mScheduler }.isStarted x = false := by
  cases hmodule : s.getModule x with
  | none =>
    unfold isStarted
    split
    · rename_i thread hthread
      cases hmodule.symm.trans hthread
    · rfl
  | some thread =>
    rw [isStarted_eq hmodule] at hx
    have heq := isStarted_eq (s := { s with mScheduler }) hmodule
    rw [heq]
    exact h.isStartedUnsafe hx

theorem isStarted_setCall : (s.setCall c pc).isStarted x = s.isStarted x := rfl

theorem Doing.setCall {c' : Caller} {pc' : UnloadPc} (h : s.Doing sorted c pc l) :
    (s.setCall c' pc').Doing sorted c pc l :=
  ⟨h.suffix, h.done, h.ofModule, h.placed⟩

/-- A step of one caller does not disturb another one. -/
theorem Doing.shrinks {c' : Caller} {mScheduler : SchedulerSystem} (h : s.Doing sorted c' pc l)
    (hs : SchedulerSystem.Shrinks c s.mScheduler mScheduler) (hc : c' ≠ c) :
    { s with mScheduler }.Doing sorted c' pc l where
  suffix := h.suffix
  done x hx hl := isStarted_shrinks hs (h.done x hx hl)
  ofModule := h.ofModule
  placed := by
    have hpc := hs.pc c' hc
    have hplaced := h.placed
    cases pc with
    | unload stage id thread call =>
      cases stage with
      | stopping =>
        rw [Placed, hpc]
        exact SchedulerSystem.Only.shrinks hs hplaced
      | _ => exact hpc.trans hplaced
    | stopping =>
      rw [Placed, hpc]
      exact SchedulerSystem.Only.shrinks hs hplaced
    | _ => exact hpc.trans hplaced

/-- A step of `c` in the scheduler, to `pc`. -/
theorem Inv.move {mScheduler : SchedulerSystem} (h : Inv topologicalSort sorted s)
    (hs : SchedulerSystem.Shrinks c s.mScheduler mScheduler)
    (hc : ∀ l, todo pc = some l → { s with mScheduler }.Doing sorted c pc l) :
    Inv topologicalSort sorted ({ s with mScheduler }.setCall c pc) where
  list := by
    refine h.list.imp_right (And.imp_right fun hall x hx => ?_)
    rw [isStarted_setCall]
    exact isStarted_shrinks hs (hall x hx)
  doing c' l hl := by
    by_cases hcc : c' = c
    · subst hcc
      have hself : ({ s with mScheduler }.setCall c' pc).call c' = pc := update_self _ _ _
      rw [hself] at hl ⊢
      exact (hc l hl).setCall
    · have hother : ({ s with mScheduler }.setCall c pc).call c' = s.call c' := update_of_ne hcc _ _
      rw [hother] at hl ⊢
      exact ((h.doing c' l hl).shrinks hs hcc).setCall

/-- A step of `c` outside the scheduler. -/
theorem Inv.setCall (h : Inv topologicalSort sorted s)
    (hc : ∀ l, todo pc = some l → s.Doing sorted c pc l) :
    Inv topologicalSort sorted (s.setCall c pc) :=
  h.move ⟨fun _ => id, fun _ _ => rfl⟩ hc

/-- A step of `c` in the scheduler leaves the walk where it is. -/
theorem Doing.go {mScheduler : SchedulerSystem} {pc' : UnloadPc} (h : s.Doing sorted c pc l)
    (hs : SchedulerSystem.Shrinks c s.mScheduler mScheduler) (hmodule : s.OfModule pc')
    (hplaced : { s with mScheduler }.Placed sorted c pc') :
    { s with mScheduler }.Doing sorted c pc' l :=
  ⟨h.suffix, fun x hx hl => isStarted_shrinks hs (h.done x hx hl), hmodule, hplaced⟩

/-- The walk goes on once `id` is not started. -/
theorem Doing.tail (h : s.Doing sorted c pc (id :: l)) (hid : s.isStarted id = false)
    (hidle : s.mScheduler.pc c = .idle) : s.Doing sorted c (.next ⟨true, l⟩) l where
  suffix := (List.suffix_cons id l).trans h.suffix
  done x hx hl := by
    by_cases hxid : x = id
    · rwa [hxid]
    · exact h.done x hx (by simp [hxid, hl])
  ofModule := trivial
  placed := hidle

theorem Inv.next (h : Inv topologicalSort sorted s) (hpc : s.call c = .next call) :
    Inv topologicalSort sorted (s.setCall c (s.next call)) := by
  apply h.setCall
  intro l hl
  obtain ⟨all, todo'⟩ := call
  cases all with
  | false =>
    unfold UnloadSystem.next at hl
    split at hl
    · cases hl
    split at hl
    · cases hl
    split at hl <;> cases hl
  | true =>
    have hdo := h.doing c todo' (by rw [hpc]; rfl)
    rw [hpc] at hdo
    unfold UnloadSystem.next at hl ⊢
    cases todo' with
    | nil =>
      obtain rfl := Option.some.inj hl
      exact ⟨hdo.suffix, hdo.done, trivial, hdo.placed⟩
    | cons id rest =>
      dsimp only at hl ⊢
      split at hl
      · cases hl
      rename_i hid
      rw [if_neg hid]
      cases hmodule : s.getModule id with
      | none =>
        simp only [hmodule] at hl ⊢
        obtain rfl := Option.some.inj hl
        exact hdo.tail (by rw [isStarted, hmodule]) hdo.placed
      | some thread =>
        simp only [hmodule] at hl ⊢
        obtain rfl := Option.some.inj hl
        exact ⟨hdo.suffix, hdo.done, hmodule, hdo.placed⟩

theorem todo_unload {stage : UnloadStage} :
    todo (.unload stage id thread call) = some l ↔ call.all = true ∧ id :: call.todo = l := by
  rcases call with ⟨⟨⟩, rest⟩ <;> simp [todo]

theorem Inv.goUnload {stage : UnloadStage} (h : Inv topologicalSort sorted s)
    (hpc : s.call c = .unload stage id thread call)
    (hs : s.goUnload c id thread call stage = some s') : Inv topologicalSort sorted s' := by
  have hdo : ∀ l, todo (.unload stage id thread call) = some l →
      s.Doing sorted c (.unload stage id thread call) l := fun l hl => by
    have hdo := h.doing c l (by rw [hpc, hl])
    rwa [hpc] at hdo
  cases stage with
  | isStarted =>
    simp only [UnloadSystem.goUnload] at hs
    split at hs
    · cases hs
    obtain rfl := Option.some.inj hs
    apply h.setCall
    intro l hl
    have hold := hdo l (todo_unload.2 (todo_unload.1 hl))
    refine ⟨hold.suffix, hold.done, hold.ofModule, ?_⟩
    split <;> exact hold.placed
  | stopThread =>
    obtain ⟨mScheduler, hstep, rfl⟩ := Option.map_eq_some_iff.1 hs
    obtain ⟨hshrinks, honly⟩ := SchedulerSystem.shrinks_stopThread hstep
    apply h.move hshrinks
    intro l hl
    have hold := hdo l (todo_unload.2 (todo_unload.1 hl))
    exact hold.go hshrinks hold.ofModule honly
  | stopping =>
    simp only [UnloadSystem.goUnload] at hs
    split at hs
    · rename_i hidle
      obtain rfl := Option.some.inj hs
      apply h.setCall
      intro l hl
      have hold := hdo l (todo_unload.2 (todo_unload.1 hl))
      exact ⟨hold.suffix, hold.done, hold.ofModule, hidle⟩
    · obtain ⟨mScheduler, hgo, rfl⟩ := Option.map_eq_some_iff.1 hs
      have hgoes := SchedulerSystem.goes_go hgo
      apply h.move hgoes.toShrinks
      intro l hl
      split at hl
      · cases hl
      rename_i hthrows
      rw [if_neg hthrows]
      have hold := hdo l hl
      exact hold.go hgoes.toShrinks hold.ofModule (hgoes.only _ hold.placed)
  | assertion =>
    simp only [UnloadSystem.goUnload] at hs
    split at hs
    · cases hs
    obtain rfl := Option.some.inj hs
    apply h.setCall
    intro l hl
    split at hl
    · cases hl
    rename_i hstarted
    rw [if_neg hstarted]
    obtain ⟨all, rest⟩ := call
    cases all with
    | false => cases hl
    | true =>
      obtain rfl := Option.some.inj hl
      have hold := hdo _ rfl
      refine hold.tail ?_ hold.placed
      rw [isStarted_eq hold.ofModule]
      exact Bool.eq_false_iff.2 hstarted

theorem getSortedList_clear (topologicalSort : DependencyGraph → List ℕ) (d : Dependency) :
    d.clear.getSortedList topologicalSort = [] := by
  simp [Dependency.clear, Dependency.getSortedList]

/-- When all is walked through, what is left in the scheduler is no module of the list. -/
theorem Doing.left (h : s.Doing sorted c pc []) :
    ∀ info ∈ s.mScheduler.mThreads, ∀ x ∈ sorted, s.getModule x ≠ some info.thread := by
  intro info hinfo x hx hmodule
  have hnot := h.done x hx List.not_mem_nil
  rw [isStarted_eq hmodule, SchedulerSystem.isStartedUnsafe, List.any_eq_false] at hnot
  exact hnot info hinfo (by simp)

theorem Inv.go (h : Inv topologicalSort sorted s) (hs : s.go c = some s') :
    Inv topologicalSort sorted s' := by
  have hdo : ∀ pc l, s.call c = pc → todo pc = some l → s.Doing sorted c pc l := by
    rintro _ l rfl hl
    exact h.doing c l hl
  unfold UnloadSystem.go at hs
  split at hs
  case h_1 => cases hs
  case h_2 hpc =>
    obtain rfl := Option.some.inj hs
    exact h.next hpc
  case h_3 hpc => exact h.goUnload hpc hs
  case h_4 hpc =>
    obtain rfl := Option.some.inj hs
    have hold := hdo _ [] hpc rfl
    have hcleared : Inv topologicalSort sorted { s with mDependency := s.mDependency.clear } :=
      ⟨.inr ⟨getSortedList_clear _ s.mDependency, fun x hx => hold.done x hx List.not_mem_nil⟩,
        fun c l hl => ⟨(h.doing c l hl).suffix, (h.doing c l hl).done, (h.doing c l hl).ofModule,
          (h.doing c l hl).placed⟩⟩
    apply hcleared.setCall
    intro l hl
    obtain rfl := Option.some.inj hl
    exact ⟨hold.suffix, hold.done, trivial, hold.placed⟩
  case h_5 hpc =>
    obtain ⟨mScheduler, hstop, rfl⟩ := Option.map_eq_some_iff.1 hs
    obtain ⟨hshrinks, hstopping⟩ := SchedulerSystem.shrinks_stop hstop
    apply h.move hshrinks
    intro l hl
    obtain rfl := Option.some.inj hl
    have hold := hdo _ [] hpc rfl
    have hplaced : { s with mScheduler }.Placed sorted c .stopping := by
      rw [Placed]
      dsimp only
      rw [hstopping]
      exact fun info hinfo => hold.left info (hshrinks.mThreads info hinfo)
    exact hold.go hshrinks trivial hplaced
  case h_6 hpc =>
    split at hs
    · obtain rfl := Option.some.inj hs
      exact h.setCall fun l hl => by cases hl
    · obtain ⟨mScheduler, hgo, rfl⟩ := Option.map_eq_some_iff.1 hs
      have hgoes := SchedulerSystem.goes_go hgo
      apply h.move hgoes.toShrinks
      intro l hl
      have hold := hdo _ l hpc hl
      exact hold.go hgoes.toShrinks trivial (hgoes.only _ hold.placed)

/-- What the threads do themselves. -/
theorem Inv.ownStep {a : SchedulerAction} (h : Inv topologicalSort sorted s)
    (hs : s.step topologicalSort (.thread a) = some s') : Inv topologicalSort sorted s' := by
  have hown : ∃ mScheduler, SchedulerSystem.Still s.mScheduler mScheduler ∧
      s' = { s with mScheduler } := by
    simp only [UnloadSystem.step] at hs
    split at hs
    · obtain ⟨mScheduler, hstep, rfl⟩ := Option.map_eq_some_iff.1 hs
      exact ⟨mScheduler, SchedulerSystem.still_step hstep ‹_›, rfl⟩
    · cases hs
  obtain ⟨mScheduler, hstill, rfl⟩ := hown
  refine ⟨h.list.imp_right (And.imp_right fun hall x hx => ?_), fun c l hl => ?_⟩
  · exact isStarted_shrinks (hstill.shrinks 0) (hall x hx)
  · exact (h.doing c l hl).shrinks (hstill.shrinks (c + 1)) (Nat.ne_of_lt (Nat.lt_succ_self c))

theorem Inv.step {a : UnloadAction} (h : Inv topologicalSort sorted s)
    (hs : s.step topologicalSort a = some s') : Inv topologicalSort sorted s' := by
  cases a with
  | unload c id =>
    simp only [UnloadSystem.step] at hs
    split at hs
    · obtain rfl := Option.some.inj hs
      exact h.setCall fun l hl => by cases hl
    · cases hs
  | unloadAll c =>
    simp only [UnloadSystem.step] at hs
    split at hs
    · rename_i hidle
      obtain rfl := Option.some.inj hs
      apply h.setCall
      intro l hl
      obtain rfl := Option.some.inj hl
      rcases h.list with heq | ⟨heq, hall⟩ <;> rw [heq]
      · exact ⟨List.suffix_rfl, fun x hx hnot => absurd hx hnot, trivial, hidle.2⟩
      · exact ⟨List.nil_suffix, fun x hx _ => hall x hx, trivial, hidle.2⟩
    · cases hs
  | go c => exact h.go hs
  | thread a => exact h.ownStep hs

theorem getModule_inj (hx : s.getModule x = some thread) (hy : s.getModule y = some thread) :
    x = y := by
  obtain ⟨_, hxi, -⟩ := List.findIdx?_eq_some_iff_getElem.1 hx
  obtain ⟨_, hyi, -⟩ := List.findIdx?_eq_some_iff_getElem.1 hy
  rw [decide_eq_true_eq] at hxi hyi
  exact hxi.symm.trans hyi

/-- In a walk through a sorted list a module is stopped when those that lead to it are not
started. -/
theorem Inv.isStarted_of_stops {r : String → String → Prop} (h : Inv topologicalSort sorted s)
    (hsorted : Topological r sorted) (hstops : s.Stops c y) (hxy : r x y) :
    s.isStarted x = false := by
  obtain ⟨htodo, info, call, hpc, hy⟩ := hstops
  obtain ⟨l, hl⟩ := Option.ne_none_iff_exists'.1 htodo
  have hdo := h.doing c l hl
  have hedge := hsorted.edge x y hxy
  have hx : x ∈ sorted := hedge.subset List.mem_cons_self
  have hplaced := hdo.placed
  generalize s.call c = pc at hl hdo hplaced
  unfold Placed at hplaced
  rw [hpc] at hplaced
  split at hplaced
  case h_1 id thread call =>
    obtain ⟨rfl, -⟩ := hplaced
    obtain rfl := getModule_inj hdo.ofModule hy
    obtain ⟨-, rfl⟩ := todo_unload.1 hl
    exact hdo.done x hx (hsorted.not_mem hdo.suffix hxy)
  case h_2 => exact absurd hy (hplaced.1 y (hedge.subset (by simp)))
  case h_3 => cases hplaced

/-! ## The OS threads of the modules -/

/-- No OS thread of the module runs. -/
def Returned (s : UnloadSystem) (id : String) : Prop :=
  ∀ thread, s.getModule id = some thread → ∀ pthread, s.mScheduler.os pthread ≠ .running thread

/-- Whether the step passes over no OS thread that runs. -/
def joinOk (s : UnloadSystem) : UnloadAction → Bool
  | .go c => s.mScheduler.joinOk c
  | _ => true

theorem accounted_goScheduler (h : s.mScheduler.Accounted) (hok : s.mScheduler.joinOk c = true)
    (hs : s.goScheduler c pc = some s') : s'.mScheduler.Accounted := by
  obtain ⟨mScheduler, hgo, rfl⟩ := Option.map_eq_some_iff.1 hs
  exact h.go hok hgo

theorem accounted_goUnload {stage : UnloadStage} (h : s.mScheduler.Accounted)
    (hok : s.mScheduler.joinOk c = true) (hs : s.goUnload c id thread call stage = some s') :
    s'.mScheduler.Accounted := by
  cases stage with
  | isStarted | assertion =>
    simp only [UnloadSystem.goUnload] at hs
    split at hs
    · cases hs
    · obtain rfl := Option.some.inj hs
      exact h
  | stopThread =>
    obtain ⟨mScheduler, hstop, rfl⟩ := Option.map_eq_some_iff.1 hs
    exact h.stopThread hstop
  | stopping =>
    simp only [UnloadSystem.goUnload] at hs
    split at hs
    · obtain rfl := Option.some.inj hs
      exact h
    · exact accounted_goScheduler h hok hs

theorem accounted_go (h : s.mScheduler.Accounted) (hok : s.mScheduler.joinOk c = true)
    (hs : s.go c = some s') : s'.mScheduler.Accounted := by
  unfold UnloadSystem.go at hs
  split at hs
  case h_1 => cases hs
  case h_2 | h_4 =>
    obtain rfl := Option.some.inj hs
    exact h
  case h_3 => exact accounted_goUnload h hok hs
  case h_5 =>
    obtain ⟨mScheduler, hstop, rfl⟩ := Option.map_eq_some_iff.1 hs
    exact h.stop hstop
  case h_6 =>
    split at hs
    · obtain rfl := Option.some.inj hs
      exact h
    · exact accounted_goScheduler h hok hs

theorem accounted_step {a : UnloadAction} (h : s.mScheduler.Accounted) (hok : s.joinOk a = true)
    (hs : s.step topologicalSort a = some s') : s'.mScheduler.Accounted := by
  cases a with
  | unload c id | unloadAll c =>
    simp only [UnloadSystem.step] at hs
    split at hs
    · obtain rfl := Option.some.inj hs
      exact h
    · cases hs
  | go c => exact accounted_go h hok hs
  | thread a =>
    simp only [UnloadSystem.step] at hs
    split at hs
    · obtain ⟨mScheduler, hstep, rfl⟩ := Option.map_eq_some_iff.1 hs
      exact h.own hstep ‹_›
    · cases hs

/-- A module that is not started has no OS thread that runs. -/
theorem returned_of_not_isStarted (h : s.mScheduler.Accounted) (hx : s.isStarted x = false) :
    s.Returned x := by
  intro thread hmodule pthread
  rw [isStarted_eq hmodule] at hx
  exact h.not_running hx

/-- Nobody is in a call, and the scheduler's list has the OS threads that run, one for each thread
object. -/
structure Ready (s : UnloadSystem) : Prop where
  call : ∀ c, s.call c = .idle
  pc : ∀ c, s.mScheduler.pc c = .idle
  listed : ∀ thread id, s.mScheduler.os id = .running thread → ⟨thread, id⟩ ∈ s.mScheduler.mThreads
  once : (s.mScheduler.mThreads.map ThreadInfo.thread).Nodup

theorem Ready.accounted (h : s.Ready) : s.mScheduler.Accounted where
  listed := h.listed
  once := h.once
  dealt c := by
    rw [h.pc c]
    exact SchedulerSystem.dealt_of_takes fun _ => rfl

/-! ## Unloading everything -/

/-- What `getSortedList` returns for the dependencies `d`, and what `unloadAll` does with it,
whichever modules are there and started.  When it stops a module, no module that depends on it is
in the scheduler's list.  Their OS threads have returned if no call of `stopThread` or `stop` in
the run has passed over one that runs. -/
structure UnloadOrder (topologicalSort : DependencyGraph → List ℕ) (d : Dependency) : Prop where
  perm : (d.getSortedList topologicalSort).Perm d.mGraph.tags
  nodup : (d.getSortedList topologicalSort).Nodup
  before : ∀ x y, TransGen d.mGraph.Edge x y → [x, y].Sublist (d.getSortedList topologicalSort)
  unlisted : ∀ s as s', s.mDependency = d → (∀ c, todo (s.call c) = none) →
    exec (step topologicalSort) s as = some s' →
    ∀ c x y, s'.Stops c y → TransGen d.mGraph.Edge x y → s'.isStarted x = false
  returned : ∀ s as s', s.mDependency = d → s.Ready →
    EachStep (step topologicalSort) (fun s a => s.joinOk a = true) s as →
    exec (step topologicalSort) s as = some s' →
    ∀ c x y, s'.Stops c y → TransGen d.mGraph.Edge x y → s'.Returned x

theorem unlisted {d : Dependency} {as : List UnloadAction}
    (hsorted : Topological (TransGen d.mGraph.Edge) (d.getSortedList topologicalSort))
    (hdep : s.mDependency = d) (hfree : ∀ c, todo (s.call c) = none)
    (hrun : exec (UnloadSystem.step topologicalSort) s as = some s') (hstops : s'.Stops c y)
    (hxy : TransGen d.mGraph.Edge x y) : s'.isStarted x = false := by
  have hinit : Inv topologicalSort (d.getSortedList topologicalSort) s := by
    refine ⟨.inl (by rw [hdep]), fun c l hl => ?_⟩
    rw [hfree c] at hl
    cases hl
  have hinv := exec_induction (I := Inv topologicalSort (d.getSortedList topologicalSort))
    Inv.step hinit hrun
  exact hinv.isStarted_of_stops hsorted hstops hxy

theorem unloadOrder {backEdge : DependencyGraph → Bool} {d : Dependency}
    (hback : DependencyGraph.FindsCycles backEdge)
    (hsort : DependencyGraph.SortsReverse topologicalSort) (as : List DependencyAction)
    (hd : exec (Dependency.step backEdge) {} as = some d) : UnloadOrder topologicalSort d := by
  have hw : d.mGraph.WellFormed :=
    exec_induction (I := fun d : Dependency => d.mGraph.WellFormed)
      (Dependency.wellFormed_step hback) DependencyGraph.wellFormed_nil hd
  have hsorted := Dependency.topological_getSortedList hsort hw
  refine ⟨Dependency.perm_getSortedList hsort hw, hsorted.nodup, hsorted.edge, ?_, ?_⟩
  · intro s bs s' hdep hfree hrun c x y hstops hxy
    exact unlisted hsorted hdep hfree hrun hstops hxy
  · intro s bs s' hdep hready hok hrun c x y hstops hxy
    have hfree : ∀ c, todo (s.call c) = none := fun c => by rw [hready.call c]; rfl
    have haccounted := exec_induction_of_eachStep (I := fun s => s.mScheduler.Accounted)
      accounted_step hready.accounted hok hrun
    exact returned_of_not_isStarted haccounted (unlisted hsorted hdep hfree hrun hstops hxy)

/-- Three modules in a row, all of them started. -/
def chain : UnloadSystem where
  mModules := ["t1", "t3", "t6"]
  mDependency := { mGraph := [⟨"t1", [1]⟩, ⟨"t3", [2]⟩, ⟨"t6", []⟩], mCount := 3 }
  mScheduler := {
    mThreads := [⟨0, 2⟩, ⟨1, 1⟩, ⟨2, 0⟩]
    os := fun id => if id < 3 then .running (2 - id) else .absent
    nextId := 3 }

theorem edge_chain : TransGen chain.mDependency.mGraph.Edge "t1" "t3" :=
  .single ⟨0, 1, rfl, rfl, List.mem_cons_self⟩

theorem ready_chain : chain.Ready where
  call _ := rfl
  pc _ := rfl
  listed thread id hid := by
    have hlisted : ∀ id < 3, ⟨2 - id, id⟩ ∈ chain.mScheduler.mThreads := by decide
    simp only [chain] at hid
    split at hid
    · obtain rfl := OsThread.running.inj hid
      exact hlisted id ‹_›
    · cases hid
  once := by decide

/-- Caller 0 unloads all modules while caller 1 unloads the last one by hand. -/
def unloadBoth : List UnloadAction :=
  [.unload 1 "t6", .unloadAll 0, .go 0, .go 0, .go 1, .go 1, .go 0, .go 0, .go 0, .go 0, .go 0,
    .go 1, .go 1, .thread (.returns 2)] ++ List.replicate 9 (.go 0)

theorem unloadOrder_chain :
    exec (Dependency.step Dependency.depthFirstSearch) {}
        [.addDependency "t1" "t3", .addDependency "t3" "t6"] = some chain.mDependency ∧
      UnloadOrder Dependency.searchOrder chain.mDependency ∧
      ∃ s, exec (step Dependency.searchOrder) chain unloadBoth = some s ∧ s.Stops 0 "t3" ∧
        s.isStarted "t3" = true ∧ s.isStarted "t6" = true ∧ s.Returned "t1" := by
  have hunload := unloadOrder Dependency.findsCycles_depthFirstSearch
    Dependency.sortsReverse_searchOrder [.addDependency "t1" "t3", .addDependency "t3" "t6"]
    (d := chain.mDependency) rfl
  have hrun : ∃ s, exec (step Dependency.searchOrder) chain unloadBoth = some s ∧
      s.Stops 0 "t3" ∧ s.isStarted "t3" = true ∧ s.isStarted "t6" = true :=
    ⟨_, rfl, ⟨by decide, _, _, rfl, rfl⟩, rfl, rfl⟩
  obtain ⟨s, hs, hstops, h3, h6⟩ := hrun
  exact ⟨rfl, hunload, s, hs, hstops, h3, h6,
    hunload.returned chain _ s rfl ready_chain (by decide) hs 0 _ _ hstops edge_chain⟩

/-- Caller 1 waits in the join of the first module's thread.  Caller 0 finds it stopped and goes on
to the second module. -/
theorem stops_before_returned :
    exec (Dependency.step Dependency.depthFirstSearch) {}
        [.addDependency "t1" "t3", .addDependency "t3" "t6"] = some chain.mDependency ∧
      chain.Ready ∧ TransGen chain.mDependency.mGraph.Edge "t1" "t3" ∧
      ∃ s, exec (step Dependency.searchOrder) chain
          (.unload 1 "t1" :: List.replicate 7 (.go 1) ++
            .unloadAll 0 :: List.replicate 14 (.go 0)) = some s ∧
        s.Stops 0 "t3" ∧ ¬ s.Returned "t1" :=
  ⟨rfl, ready_chain, edge_chain, _, rfl, ⟨by decide, _, _, rfl, rfl⟩,
    fun h => h 0 (by decide) 2 (by decide)⟩

end UnloadSystem

end Kalinka
