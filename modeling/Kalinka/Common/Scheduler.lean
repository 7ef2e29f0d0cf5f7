import Mathlib.Data.List.Nodup
import Mathlib.Logic.Function.Basic
import Kalinka.Lib.Run
import Kalinka.Common.Semaphore

/-!
# The thread scheduler

`Scheduler` keeps a list of the OS threads it has created.  `startThread` runs under `m_lock`;
`stopThread` and `stop` copy the list entries under the lock, stop and join without it, and take
the entries out of the list under the lock again.  Any number of callers do this at once, while the
threads may stop themselves, poll their trigger and return from `start()`.

`Scheduler::stopThreadByInfo` takes `isStopped()` for "already joined".  `throughout_orderly` says
what that needs.
-/

namespace Kalinka

open Run Function

/-- The identity of a thread object, of an OS thread, and of a caller of the scheduler. -/
abbrev ThreadPtr := ℕ
abbrev PThread := ℕ
abbrev Caller := ℕ

/-- `ThreadInfo`: the fields `m_thread` and `m_id`. -/
structure ThreadInfo where
  thread : ThreadPtr
  id : PThread
  deriving DecidableEq, Repr

/-- An OS thread runs `start()` of a thread object until that returns. -/
inductive OsThread
  | absent
  | running (thread : ThreadPtr)
  | returned (thread : ThreadPtr)
  deriving DecidableEq, Repr

/-- The call a caller is in: `stopThread(target)`, or `stop()` for `none`, the list entries still
to be stopped, and the OS threads the call is responsible for. -/
structure StopCall where
  target : Option ThreadPtr
  rest : List ThreadInfo
  owed : List PThread
  deriving DecidableEq, Repr

/-- Where `stopThreadByInfo` is: before the `sem_trywait` of `isStopped()`, before the post that
undoes it, before `stop()`, before `pthread_join`, or blocked in it. -/
inductive ByInfo
  | check
  | restore
  | stop
  | join
  | wait
  deriving DecidableEq, Repr

inductive CallerPc
  | idle
  /-- `startThread`, which has found `m_stop` stopped and holds the lock -/
  | startRestore
  /-- `stopThread`, which has found `m_stop` stopped -/
  | stopRestore (owed : List PThread)
  | getThreadInfo (thread : ThreadPtr)
  | getActiveThreads
  | stopThreadByInfo (stage : ByInfo) (info : ThreadInfo) (call : StopCall)
  /-- before the section that takes the entries out of the list -/
  | erase (call : StopCall)
  deriving DecidableEq, Repr

/-- The scheduler, its threads and its callers.  `joined` counts the `pthread_join` calls on an OS
thread; `reported` holds the OS threads that calls which have returned normally were responsible
for. -/
structure SchedulerSystem where
  mThreads : List ThreadInfo := []
  mStop : Semaphore := .init
  /-- `m_lock` is held by a `startThread` between two steps. -/
  locked : Bool := false
  /-- `m_stop` of each thread object -/
  trigger : ThreadPtr → Semaphore := fun _ => .init
  /-- the `isStopped()` calls of others between their `sem_trywait` and their post -/
  polls : ThreadPtr → ℕ := fun _ => 0
  os : PThread → OsThread := fun _ => .absent
  nextId : PThread := 0
  joined : PThread → ℕ := fun _ => 0
  pc : Caller → CallerPc := fun _ => .idle
  reported : List PThread := []

inductive SchedulerAction
  /-- `startThread`; `created` says whether `pthread_create` succeeds -/
  | startThread (c : Caller) (thread : ThreadPtr) (created : Bool)
  | stopThread (c : Caller) (thread : ThreadPtr)
  | stop (c : Caller)
  /-- the next step of the call that `c` is in -/
  | go (c : Caller)
  /-- `Thread::stop`, by the thread itself or by anybody else -/
  | threadStop (thread : ThreadPtr)
  /-- the two steps of `Thread::isStopped` -/
  | poll (thread : ThreadPtr)
  | pollEnd (thread : ThreadPtr)
  /-- `start()` returns -/
  | returns (id : PThread)
  deriving DecidableEq, Repr

namespace SchedulerSystem

/-- `start()` has returned in this OS thread. -/
def finished (s : SchedulerSystem) (id : PThread) : Bool :=
  match s.os id with
  | .returned _ => true
  | _ => false

/-- `isStartedUnsafe`. -/
def isStartedUnsafe (s : SchedulerSystem) (thread : ThreadPtr) : Bool :=
  s.mThreads.any (·.thread = thread)

def setPc (s : SchedulerSystem) (c : Caller) (pc : CallerPc) : SchedulerSystem :=
  { s with pc := update s.pc c pc }

def setTrigger (s : SchedulerSystem) (thread : ThreadPtr) (sem : Semaphore) : SchedulerSystem :=
  { s with trigger := update s.trigger thread sem }

/-- The rest of `startThread` once `m_stop` was found not stopped: `init()`, `pthread_create` and
the new entry.  If `pthread_create` fails, `BOOST_ASSERT` throws. -/
def createThread (s : SchedulerSystem) (thread : ThreadPtr) (created : Bool) : SchedulerSystem :=
  if s.isStartedUnsafe thread then s
  else if created then
    { s.setTrigger thread .init with
      os := update s.os s.nextId (.running thread)
      nextId := s.nextId + 1
      mThreads := ⟨thread, s.nextId⟩ :: s.mThreads }
  else s.setTrigger thread .init

/-- The next entry, or the end of the call. -/
def nextInfo (call : StopCall) : CallerPc :=
  match call.rest with
  | [] => .erase call
  | info :: rest => .stopThreadByInfo .check info { call with rest }

/-- `eraseThread`, or the `m_threads.clear()` of `stop`. -/
def eraseInfo (mThreads : List ThreadInfo) : Option ThreadPtr → List ThreadInfo
  | some thread => mThreads.eraseP (·.thread = thread)
  | none => []

/-- One step of `stopThreadByInfo`.  A second `pthread_join` on the same OS thread returns an error
at once, which is logged. -/
def stopThreadByInfo (s : SchedulerSystem) (c : Caller) (info : ThreadInfo) (call : StopCall) :
    ByInfo → Option SchedulerSystem
  | .check =>
    match (s.trigger info.thread).tryWait with
    | some sem =>
      some ((s.setTrigger info.thread sem).setPc c (.stopThreadByInfo .restore info call))
    | none => some (s.setPc c (.stopThreadByInfo .stop info call))
  | .restore =>
    some ((s.setTrigger info.thread (s.trigger info.thread).post).setPc c (nextInfo call))
  | .stop =>
    some ((s.setTrigger info.thread (s.trigger info.thread).post).setPc c
      (.stopThreadByInfo .join info call))
  | .join =>
    some ({ s with joined := update s.joined info.id (s.joined info.id + 1) }.setPc c
      (if s.joined info.id = 0 then .stopThreadByInfo .wait info call else nextInfo call))
  | .wait => if s.finished info.id then some (s.setPc c (nextInfo call)) else none

/-- One step of the call that `c` is in. -/
def go (s : SchedulerSystem) (c : Caller) : Option SchedulerSystem :=
  match s.pc c with
  | .idle => none
  | .startRestore => some ({ s with mStop := s.mStop.post, locked := false }.setPc c .idle)
  | .stopRestore owed =>
    some ({ s with mStop := s.mStop.post, reported := s.reported ++ owed }.setPc c .idle)
  | .getThreadInfo thread =>
    if s.locked then none
    else match s.mThreads.find? (·.thread = thread) with
      -- the exception "Could not get a thread by info"
      | none => some (s.setPc c .idle)
      | some info => some (s.setPc c (.stopThreadByInfo .check info ⟨some thread, [], [info.id]⟩))
  | .getActiveThreads =>
    if s.locked then none
    else some (s.setPc c (nextInfo ⟨none, s.mThreads, s.mThreads.map ThreadInfo.id⟩))
  | .stopThreadByInfo stage info call => s.stopThreadByInfo c info call stage
  | .erase call =>
    if s.locked then none
    else some ({ s with
      mThreads := eraseInfo s.mThreads call.target
      reported := s.reported ++ call.owed }.setPc c .idle)

def step (s : SchedulerSystem) : SchedulerAction → Option SchedulerSystem
  | .startThread c thread created =>
    if s.pc c ≠ .idle ∨ s.locked then none
    else match s.mStop.tryWait with
      | some sem => some ({ s with mStop := sem, locked := true }.setPc c .startRestore)
      | none => some (s.createThread thread created)
  | .stopThread c thread =>
    if s.pc c ≠ .idle then none
    else match s.mStop.tryWait with
      | some sem =>
        let owed := s.mThreads.filter fun info => info.thread = thread
        some ({ s with mStop := sem }.setPc c (.stopRestore (owed.map ThreadInfo.id)))
      | none => some (s.setPc c (.getThreadInfo thread))
  | .stop c =>
    if s.pc c ≠ .idle ∨ s.locked then none
    else some ({ s with mStop := s.mStop.post }.setPc c .getActiveThreads)
  | .go c => s.go c
  | .threadStop thread => some (s.setTrigger thread (s.trigger thread).post)
  | .poll thread =>
    match (s.trigger thread).tryWait with
    | some sem =>
      some { s.setTrigger thread sem with polls := update s.polls thread (s.polls thread + 1) }
    | none => some s
  | .pollEnd thread =>
    if s.polls thread = 0 then none
    else some { s.setTrigger thread (s.trigger thread).post with
      polls := update s.polls thread (s.polls thread - 1) }
  | .returns id =>
    match s.os id with
    | .running thread => some { s with os := update s.os id (.returned thread) }
    | _ => none

/-- What the scheduler promises. -/
structure Orderly (s : SchedulerSystem) : Prop where
  /-- No thread object has two live OS threads. -/
  single : ∀ thread id id', s.os id = .running thread → s.os id' = .running thread → id = id'
  joined : ∀ id, s.joined id ≤ 1
  /-- The threads that a call which returned was responsible for have returned. -/
  returned : ∀ id ∈ s.reported, s.finished id = true

/-- The OS thread that a caller is going to join. -/
def claim : CallerPc → Option PThread
  | .stopThreadByInfo .stop info _ | .stopThreadByInfo .join info _ => some info.id
  | _ => none

/-- What `stopThreadByInfo` reads off `isStopped()` is so: a stopped thread has returned from
`start()`, and nobody else has joined or is going to join one that is not stopped.  Only threads
that have returned are taken out of the list, or passed over because the scheduler is stopped. -/
def Careful (s : SchedulerSystem) : SchedulerAction → Prop
  | .stopThread _ thread =>
    0 < s.mStop → ∀ info ∈ s.mThreads, info.thread = thread → s.finished info.id = true
  | .go c =>
    match s.pc c with
    | .stopThreadByInfo .check info _ =>
      if 0 < s.trigger info.thread then s.finished info.id = true
      else s.joined info.id = 0 ∧ ∀ c', claim (s.pc c') ≠ some info.id
    | .erase call =>
      ∀ info ∈ s.mThreads, info ∉ eraseInfo s.mThreads call.target → s.finished info.id = true
    | _ => True
  | _ => True

/-- The OS threads that a call is responsible for, and those of them it has not dealt with yet. -/
def owed : CallerPc → List PThread
  | .stopRestore owed => owed
  | .stopThreadByInfo _ _ call | .erase call => call.owed
  | _ => []

def pending : CallerPc → List PThread
  | .stopThreadByInfo .restore _ call => call.rest.map ThreadInfo.id
  | .stopThreadByInfo _ info call => info.id :: call.rest.map ThreadInfo.id
  | _ => []

variable {s s' : SchedulerSystem} {a : SchedulerAction} {c : Caller} {pc : CallerPc}

/-- The invariant of the careful runs. -/
structure Sound (s : SchedulerSystem) : Prop where
  listed : ∀ thread id, s.os id = .running thread → ⟨thread, id⟩ ∈ s.mThreads
  once : (s.mThreads.map ThreadInfo.thread).Nodup
  absent : ∀ id, s.nextId ≤ id → s.os id = .absent
  joined : ∀ id, s.joined id ≤ 1
  unjoined : ∀ c id, claim (s.pc c) = some id → s.joined id = 0
  exclusive : ∀ c c' id, claim (s.pc c) = some id → claim (s.pc c') = some id → c = c'
  owed : ∀ c, ∀ id ∈ owed (s.pc c), s.finished id = true ∨ id ∈ pending (s.pc c)
  reported : ∀ id ∈ s.reported, s.finished id = true

theorem finished_iff {id : PThread} :
    s.finished id = true ↔ ∃ thread, s.os id = .returned thread := by
  unfold finished
  cases s.os id <;> simp

theorem finished_mono {id : PThread}
    (h : ∀ thread, s.os id = .returned thread → s'.os id = .returned thread)
    (hf : s.finished id = true) : s'.finished id = true := by
  obtain ⟨thread, ht⟩ := finished_iff.1 hf
  exact finished_iff.2 ⟨thread, h thread ht⟩

/-- What happens to an OS thread that has not returned leaves those that have. -/
theorem returned_update {id id' : PThread} {thread : ThreadPtr} {os : OsThread}
    (hid : ∀ thread, s.os id ≠ .returned thread) (h : s.os id' = .returned thread) :
    update s.os id os id' = .returned thread := by
  have hne : id' ≠ id := by
    rintro rfl
    exact hid thread h
  rwa [update_of_ne hne]

theorem Sound.orderly (h : Sound s) : Orderly s where
  single thread id id' hid hid' := by
    have heq := List.inj_on_of_nodup_map h.once (h.listed _ _ hid) (h.listed _ _ hid') rfl
    exact congrArg ThreadInfo.id heq
  joined := h.joined
  returned := h.reported

/-! ## The steps of a call

What a step of caller `c` changes beside its own place are the semaphores, which the invariant
does not mention. -/

theorem Sound.move (h : Sound s)
    (hc : ∀ id, claim pc = some id → s.joined id = 0 ∧ ∀ c', claim (s.pc c') = some id → c' = c)
    (ho : ∀ id ∈ SchedulerSystem.owed pc, s.finished id = true ∨ id ∈ pending pc) :
    Sound (s.setPc c pc) where
  listed := h.listed
  once := h.once
  absent := h.absent
  joined := h.joined
  reported := h.reported
  unjoined c' id hclaim := by
    simp only [setPc, update_apply] at hclaim
    split at hclaim
    · exact (hc id hclaim).1
    · exact h.unjoined c' id hclaim
  exclusive c₁ c₂ id h₁ h₂ := by
    simp only [setPc, update_apply] at h₁ h₂
    split at h₁ <;> split at h₂
    · simp [*]
    · subst_vars
      exact ((hc id h₁).2 c₂ h₂).symm
    · subst_vars
      exact (hc id h₂).2 c₁ h₁
    · exact h.exclusive c₁ c₂ id h₁ h₂
  owed c' id hid := by
    simp only [setPc, update_apply] at hid ⊢
    split at hid
    · rw [if_pos ‹_›]
      exact ho id hid
    · rw [if_neg ‹_›]
      exact h.owed c' id hid

/-- The invariant does not mention the semaphores. -/
theorem Sound.semaphores (h : Sound s) (mStop : Semaphore) (locked : Bool)
    (trigger : ThreadPtr → Semaphore) (polls : ThreadPtr → ℕ) :
    Sound { s with mStop, locked, trigger, polls } :=
  ⟨h.listed, h.once, h.absent, h.joined, h.unjoined, h.exclusive, h.owed, h.reported⟩

/-- A step to a place with no claim. -/
theorem Sound.moveTo (h : Sound s) (hc : claim pc = none)
    (ho : ∀ id ∈ SchedulerSystem.owed pc, s.finished id = true ∨ id ∈ pending pc) :
    Sound (s.setPc c pc) :=
  h.move (fun id hid => by simp [hc] at hid) ho

theorem Sound.report (h : Sound s) {ids : List PThread} (hids : ∀ id ∈ ids, s.finished id = true) :
    Sound { s with reported := s.reported ++ ids } :=
  { h with
    reported := fun id hid => (List.mem_append.1 hid).elim (h.reported id) (hids id) }

/-- A call that has dealt with all of its threads has seen them return. -/
theorem Sound.finished_of_owed (h : Sound s) (hpc : s.pc c = pc) (hp : pending pc = []) :
    ∀ id ∈ SchedulerSystem.owed pc, s.finished id = true := by
  subst hpc
  intro id hid
  have hcases := h.owed c id hid
  rw [hp] at hcases
  exact hcases.resolve_right List.not_mem_nil

theorem claim_nextInfo (call : StopCall) : claim (nextInfo call) = none := by
  unfold nextInfo
  split <;> rfl

theorem owed_nextInfo (call : StopCall) : owed (nextInfo call) = call.owed := by
  unfold nextInfo
  split <;> rfl

theorem pending_nextInfo (call : StopCall) :
    pending (nextInfo call) = call.rest.map ThreadInfo.id := by
  unfold nextInfo
  split <;> simp [pending, *]

/-- Once the current entry's thread has returned, the call goes on to the next one. -/
theorem Sound.moveNext (h : Sound s) {stage : ByInfo} {info : ThreadInfo} {call : StopCall}
    (hpc : s.pc c = .stopThreadByInfo stage info call)
    (hf : stage ≠ .restore → s.finished info.id = true) : Sound (s.setPc c (nextInfo call)) := by
  apply h.moveTo (claim_nextInfo call)
  intro id hid
  rw [owed_nextInfo] at hid
  rw [pending_nextInfo]
  have := h.owed c id (by rwa [hpc])
  rw [hpc] at this
  cases stage with
  | restore => exact this
  | _ =>
    rcases this with hfin | hmem
    · exact .inl hfin
    · rcases List.mem_cons.1 hmem with rfl | hmem
      · exact .inl (hf (by simp))
      · exact .inr hmem

/-- The first `pthread_join` of a thread that nobody is going to join any more. -/
theorem Sound.countJoin (h : Sound s) {id : PThread} (hzero : s.joined id = 0)
    (hnone : ∀ c, claim (s.pc c) ≠ some id) :
    Sound { s with joined := update s.joined id (s.joined id + 1) } :=
  { h with
    joined := fun id' => by
      by_cases hid : id' = id
      · simp [hid, hzero]
      · simpa [hid] using h.joined id'
    unjoined := fun c id' hclaim => by
      have hid : id' ≠ id := fun heq => hnone c (heq ▸ hclaim)
      simpa [hid] using h.unjoined c id' hclaim }

/-- The `pthread_join` of the only caller that is going to join the thread. -/
theorem Sound.join (h : Sound s) {info : ThreadInfo} {call : StopCall}
    (hpc : s.pc c = .stopThreadByInfo .join info call) :
    s.joined info.id = 0 ∧
      Sound ({ s with joined := update s.joined info.id (s.joined info.id + 1) }.setPc c
        (.stopThreadByInfo .wait info call)) := by
  have hclaim : claim (s.pc c) = some info.id := by rw [hpc]; rfl
  have howed := h.owed c
  rw [hpc] at howed
  refine ⟨h.unjoined c _ hclaim, ?_⟩
  have hmove : Sound (s.setPc c (.stopThreadByInfo .wait info call)) := h.moveTo rfl howed
  apply hmove.countJoin (h.unjoined c _ hclaim)
  intro c' hc'
  by_cases hcc : c' = c
  · subst hcc
    simp [setPc, claim] at hc'
  · simp only [setPc, update_of_ne hcc] at hc'
    exact hcc (h.exclusive c' c _ hc' hclaim)

theorem Sound.stopThreadByInfo (h : Sound s) {stage : ByInfo} {info : ThreadInfo} {call : StopCall}
    (hpc : s.pc c = .stopThreadByInfo stage info call) (hok : Careful s (.go c))
    (hs : s.stopThreadByInfo c info call stage = some s') : Sound s' := by
  have howed := h.owed c
  simp only [Careful, hpc] at hok
  rw [hpc] at howed
  cases stage with
  | check =>
    simp only [SchedulerSystem.stopThreadByInfo] at hs
    cases ht : s.trigger info.thread with
    | zero =>
      simp only [ht, Semaphore.tryWait] at hs
      obtain rfl := Option.some.inj hs
      obtain ⟨hzero, hnone⟩ : s.joined info.id = 0 ∧ ∀ c', claim (s.pc c') ≠ some info.id := by
        simpa [ht] using hok
      refine h.move (fun id hid => ?_) howed
      obtain rfl := Option.some.inj hid
      exact ⟨hzero, fun c' hc' => absurd hc' (hnone c')⟩
    | succ n =>
      simp only [ht, Semaphore.tryWait] at hs
      obtain rfl := Option.some.inj hs
      have hfin : s.finished info.id = true := by simpa [ht] using hok
      apply (h.semaphores _ _ _ _).moveTo rfl
      intro id hid
      rcases howed id hid with hid | hid
      · exact .inl hid
      · rcases List.mem_cons.1 hid with rfl | hid
        · exact .inl hfin
        · exact .inr hid
  | restore =>
    obtain rfl := Option.some.inj hs
    exact (h.semaphores _ _ _ _).moveNext hpc (by simp)
  | stop =>
    obtain rfl := Option.some.inj hs
    have hclaim : claim (s.pc c) = some info.id := by rw [hpc]; rfl
    refine (h.semaphores _ _ _ _).move (fun id hid => ?_) howed
    obtain rfl := Option.some.inj hid
    exact ⟨h.unjoined c _ hclaim, fun c' hc' => h.exclusive c' c _ hc' hclaim⟩
  | join =>
    obtain ⟨hzero, hjoin⟩ := h.join hpc
    simp only [SchedulerSystem.stopThreadByInfo, if_pos hzero] at hs
    exact Option.some.inj hs ▸ hjoin
  | wait =>
    simp only [SchedulerSystem.stopThreadByInfo] at hs
    split at hs
    · obtain rfl := Option.some.inj hs
      exact h.moveNext hpc fun _ => ‹_›
    · cases hs

theorem eraseInfo_sublist (l : List ThreadInfo) (target : Option ThreadPtr) :
    (eraseInfo l target).Sublist l := by
  cases target with
  | some thread => exact List.eraseP_sublist
  | none => exact List.nil_sublist l

/-- The section that takes the entries of threads that have returned out of the list. -/
theorem Sound.erase (h : Sound s) {call : StopCall} (hpc : s.pc c = .erase call)
    (hok : Careful s (.go c)) :
    Sound ({ s with
      mThreads := eraseInfo s.mThreads call.target
      reported := s.reported ++ call.owed }.setPc c .idle) := by
  simp only [Careful, hpc] at hok
  have howed : ∀ id ∈ call.owed, s.finished id = true := h.finished_of_owed hpc rfl
  have hsub := eraseInfo_sublist s.mThreads call.target
  have h' : Sound { s with mThreads := eraseInfo s.mThreads call.target } :=
    { h with
      once := h.once.sublist (hsub.map _)
      listed := fun thread id hid => by
        by_contra hno
        obtain ⟨thread', hret⟩ := finished_iff.1 (hok _ (h.listed thread id hid) hno)
        exact absurd (hid.symm.trans hret) (by simp) }
  exact (h'.report howed).moveTo rfl (by simp [SchedulerSystem.owed])

theorem Sound.go (h : Sound s) (hok : Careful s (.go c)) (hs : s.go c = some s') : Sound s' := by
  cases hpc : s.pc c with
  | idle => simp [SchedulerSystem.go, hpc] at hs
  | startRestore =>
    simp only [SchedulerSystem.go, hpc, Option.some.injEq] at hs
    subst hs
    exact (h.semaphores _ _ _ _).moveTo rfl (by simp [SchedulerSystem.owed])
  | stopRestore ids =>
    simp only [SchedulerSystem.go, hpc, Option.some.injEq] at hs
    subst hs
    have hids : ∀ id ∈ ids, s.finished id = true := h.finished_of_owed hpc rfl
    have h' : Sound { s with mStop := s.mStop.post, reported := s.reported ++ ids } :=
      (h.report hids).semaphores _ _ _ _
    exact h'.moveTo rfl (by simp [SchedulerSystem.owed])
  | getThreadInfo thread =>
    simp only [SchedulerSystem.go, hpc] at hs
    split at hs
    · cases hs
    split at hs
    · obtain rfl := Option.some.inj hs
      exact h.moveTo rfl (by simp [SchedulerSystem.owed])
    · obtain rfl := Option.some.inj hs
      exact h.moveTo rfl fun id hid => .inr (by simpa [pending, SchedulerSystem.owed] using hid)
  | getActiveThreads =>
    simp only [SchedulerSystem.go, hpc] at hs
    split at hs
    · cases hs
    obtain rfl := Option.some.inj hs
    refine h.moveTo (claim_nextInfo _) fun id hid => .inr ?_
    rw [owed_nextInfo] at hid
    rwa [pending_nextInfo]
  | stopThreadByInfo stage info call =>
    simp only [SchedulerSystem.go, hpc] at hs
    exact h.stopThreadByInfo hpc hok hs
  | erase call =>
    simp only [SchedulerSystem.go, hpc] at hs
    split at hs
    · cases hs
    obtain rfl := Option.some.inj hs
    exact h.erase hpc hok

/-! ## The other steps -/

/-- A new OS thread, for a thread object that has none. -/
theorem Sound.createThread (h : Sound s) (thread : ThreadPtr) (created : Bool) :
    Sound (s.createThread thread created) := by
  unfold SchedulerSystem.createThread
  split
  · exact h
  rename_i hnew
  split
  · have hnew : ∀ info ∈ s.mThreads, info.thread ≠ thread := by
      simpa [isStartedUnsafe] using hnew
    have hos : ∀ thread', s.os s.nextId ≠ .returned thread' := by
      rw [h.absent s.nextId (Nat.le_refl _)]
      simp
    constructor
    case listed =>
      intro t id hid
      by_cases hne : id = s.nextId
      · subst hne
        simp only [update_self, OsThread.running.injEq] at hid
        exact hid ▸ List.mem_cons_self
      · simp only [update_of_ne hne] at hid
        exact List.mem_cons_of_mem _ (h.listed t id hid)
    case once =>
      refine List.nodup_cons.2 ⟨fun hmem => ?_, h.once⟩
      obtain ⟨info, hinfo, heq⟩ := List.mem_map.1 hmem
      exact hnew info hinfo heq
    case absent =>
      intro id hid
      simpa [Nat.ne_of_gt hid] using h.absent id (Nat.le_of_succ_le hid)
    case joined => exact h.joined
    case unjoined => exact h.unjoined
    case exclusive => exact h.exclusive
    case owed =>
      intro c id hid
      exact (h.owed c id hid).imp_left (finished_mono fun _ => returned_update hos)
    case reported =>
      intro id hid
      exact finished_mono (fun _ => returned_update hos) (h.reported id hid)
  · exact h.semaphores _ _ _ _

theorem Sound.returns (h : Sound s) {id : PThread} {thread : ThreadPtr}
    (hid : s.os id = .running thread) :
    Sound { s with os := update s.os id (.returned thread) } := by
  have hos : ∀ thread', s.os id ≠ .returned thread' := by simp [hid]
  exact { h with
    listed := fun t id' hid' => by
      by_cases hne : id' = id
      · simp [hne] at hid'
      · exact h.listed t id' (by simpa [hne] using hid')
    absent := fun id' hle => by
      have hne : id' ≠ id := fun heq => by
        simp [← heq, h.absent id' hle] at hid
      simpa [hne] using h.absent id' hle
    owed := fun c id' hid' =>
      (h.owed c id' hid').imp_left (finished_mono fun _ => returned_update hos)
    reported := fun id' hid' => finished_mono (fun _ => returned_update hos) (h.reported id' hid') }

theorem Sound.step (h : Sound s) (hok : Careful s a) (hs : s.step a = some s') : Sound s' := by
  cases a with
  | startThread c thread created =>
    simp only [SchedulerSystem.step] at hs
    split at hs
    · cases hs
    split at hs
    · obtain rfl := Option.some.inj hs
      exact (h.semaphores _ _ _ _).moveTo rfl (by simp [SchedulerSystem.owed])
    · exact Option.some.inj hs ▸ h.createThread thread created
  | stopThread c thread =>
    simp only [SchedulerSystem.step] at hs
    split at hs
    · cases hs
    cases ht : s.mStop with
    | zero =>
      simp only [ht, Semaphore.tryWait] at hs
      obtain rfl := Option.some.inj hs
      exact h.moveTo rfl (by simp [SchedulerSystem.owed])
    | succ n =>
      simp only [ht, Semaphore.tryWait] at hs
      obtain rfl := Option.some.inj hs
      refine (h.semaphores _ _ _ _).moveTo rfl fun id hid => .inl ?_
      obtain ⟨info, hinfo, rfl⟩ := List.mem_map.1 hid
      obtain ⟨hmem, hthread⟩ := List.mem_filter.1 hinfo
      exact hok (ht ▸ Nat.succ_pos n) info hmem (by simpa using hthread)
  | stop c =>
    simp only [SchedulerSystem.step] at hs
    split at hs
    · cases hs
    obtain rfl := Option.some.inj hs
    exact (h.semaphores _ _ _ _).moveTo rfl (by simp [SchedulerSystem.owed])
  | go c => exact h.go hok hs
  | threadStop thread => exact Option.some.inj hs ▸ h.semaphores _ _ _ _
  | poll thread =>
    simp only [SchedulerSystem.step] at hs
    split at hs
    · exact Option.some.inj hs ▸ h.semaphores _ _ _ _
    · exact Option.some.inj hs ▸ h
  | pollEnd thread =>
    simp only [SchedulerSystem.step] at hs
    split at hs
    · cases hs
    · exact Option.some.inj hs ▸ h.semaphores _ _ _ _
  | returns id =>
    simp only [SchedulerSystem.step] at hs
    split at hs
    · exact Option.some.inj hs ▸ h.returns ‹_›
    · cases hs

theorem sound_init : Sound {} where
  listed _ _ h := by cases h
  once := List.nodup_nil
  absent _ _ := rfl
  joined _ := Nat.zero_le 1
  unjoined _ _ h := by cases h
  exclusive _ _ _ h := by cases h
  owed _ _ h := by cases h
  reported _ h := by cases h

/-- A run of a new scheduler whose steps are all careful keeps its promises throughout. -/
theorem throughout_orderly (as : List SchedulerAction) (hok : EachStep step Careful {} as) :
    Throughout step Orderly {} as :=
  throughout_of_eachStep Sound.step Sound.orderly sound_init hok

/-- Thread 7 is started by caller 0 and stopped by caller 1. -/
theorem throughout_orderly_start_stop :
    Throughout step Orderly {} [.startThread 0 7 true, .stopThread 1 7, .go 1, .go 1, .go 1, .go 1,
      .returns 0, .go 1, .go 1] := by
  refine throughout_orderly _ <|
    .cons rfl trivial <| .cons rfl (fun h => absurd h (by decide)) <| .cons rfl trivial <|
    .cons rfl ?_ <| .cons rfl trivial <| .cons rfl trivial <| .cons rfl trivial <|
    .cons rfl trivial <| .cons rfl ?_ trivial
  · apply And.intro rfl
    intro c' hc'
    by_cases hc : c' = 1
    · subst hc
      cases hc'
    · simp only [setPc, update_of_ne hc] at hc'
      cases hc'
  · intro info hinfo _
    obtain rfl := List.mem_singleton.1 hinfo
    rfl

/-- A thread that has stopped itself is not joined.  `stopThread` returns while it still runs, and
it can be started again beside itself. -/
theorem self_stop_runs_twice :
    ∃ s, exec step {} [.startThread 0 7 true, .threadStop 7, .stopThread 1 7, .go 1, .go 1, .go 1,
        .go 1, .startThread 0 7 true] = some s ∧
      s.os 0 = .running 7 ∧ s.os 1 = .running 7 ∧ s.reported = [0] :=
  ⟨_, rfl, by decide, by decide, by decide⟩

end SchedulerSystem

end Kalinka
