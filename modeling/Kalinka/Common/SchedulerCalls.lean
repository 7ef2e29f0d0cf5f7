import Kalinka.Common.Scheduler

/-!
# The calls that stop threads

What a step of `stopThread` or `stop` changes: no thread is added, no other caller moves, and a call
stops only the threads it was made for.  As long as no call passes over an OS thread that runs, the
list has all of those, whatever the callers and the threads do; no thread is started here.
-/

namespace Kalinka

open Function

/-- What threads do themselves: they poll their trigger, stop and return. -/
def SchedulerAction.own : SchedulerAction → Bool
  | .threadStop _ | .poll _ | .pollEnd _ | .returns _ => true
  | _ => false

namespace SchedulerSystem

variable {s s' : SchedulerSystem} {c : Caller} {p q : ThreadPtr → Prop}

/-- No thread is added, and no caller but `c` moves. -/
structure Shrinks (c : Caller) (s s' : SchedulerSystem) : Prop where
  mThreads : ∀ info ∈ s'.mThreads, info ∈ s.mThreads
  pc : ∀ c', c' ≠ c → s'.pc c' = s.pc c'

/-- The call at this place stops only threads with `p`. -/
def Only (s : SchedulerSystem) (p : ThreadPtr → Prop) : CallerPc → Prop
  | .getThreadInfo thread => p thread
  | .getActiveThreads => ∀ info ∈ s.mThreads, p info.thread
  | .stopThreadByInfo _ info call => p info.thread ∧ ∀ info' ∈ call.rest, p info'.thread
  | _ => True

theorem Shrinks.isStartedUnsafe (h : Shrinks c s s') {thread : ThreadPtr}
    (hs : s.isStartedUnsafe thread = false) : s'.isStartedUnsafe thread = false := by
  unfold SchedulerSystem.isStartedUnsafe at hs ⊢
  rw [List.any_eq_false] at hs ⊢
  exact fun info hinfo => hs info (h.mThreads info hinfo)

theorem Only.shrinks (h : Shrinks c s s') {pc : CallerPc} (hs : s.Only p pc) : s'.Only p pc := by
  cases pc with
  | getActiveThreads => exact fun info hinfo => hs info (h.mThreads info hinfo)
  | _ => exact hs

/-- What a step of the scheduler for `c` does. -/
structure Goes (c : Caller) (s s' : SchedulerSystem) : Prop extends Shrinks c s s' where
  only : ∀ p, s.Only p (s.pc c) → s'.Only p (s'.pc c)

theorem goes_setPc {t : SchedulerSystem} {pc : CallerPc}
    (hthreads : ∀ info ∈ t.mThreads, info ∈ s.mThreads) (hpc : t.pc = s.pc)
    (honly : ∀ p, s.Only p (s.pc c) → (t.setPc c pc).Only p pc) : Goes c s (t.setPc c pc) where
  mThreads := hthreads
  pc c' hc := by
    have hother : (t.setPc c pc).pc c' = t.pc c' := update_of_ne hc _ _
    rw [hother, hpc]
  only p hp := by
    have hself : (t.setPc c pc).pc c = pc := update_self _ _ _
    rw [hself]
    exact honly p hp

theorem only_nextInfo {call : StopCall} (h : ∀ info ∈ call.rest, p info.thread) :
    s.Only p (nextInfo call) := by
  unfold nextInfo
  split
  · trivial
  · rename_i info rest heq
    rw [heq] at h
    exact ⟨h info List.mem_cons_self, fun i hi => h i (List.mem_cons_of_mem _ hi)⟩

theorem goes_stopThreadByInfo {stage : ByInfo} {info : ThreadInfo} {call : StopCall}
    (hpc : s.pc c = .stopThreadByInfo stage info call)
    (h : s.stopThreadByInfo c info call stage = some s') : Goes c s s' := by
  have hnext : ∀ {t : SchedulerSystem} p, s.Only p (s.pc c) → t.Only p (nextInfo call) := by
    intro t p hp
    rw [hpc] at hp
    exact only_nextInfo hp.2
  have hsame : ∀ {t : SchedulerSystem} {stage : ByInfo} p, s.Only p (s.pc c) →
      t.Only p (.stopThreadByInfo stage info call) := by
    intro t stage p hp
    rwa [hpc] at hp
  cases stage with
  | check =>
    simp only [SchedulerSystem.stopThreadByInfo] at h
    split at h <;> obtain rfl := Option.some.inj h
    · exact goes_setPc (fun _ => id) rfl hsame
    · exact goes_setPc (fun _ => id) rfl hsame
  | restore =>
    obtain rfl := Option.some.inj h
    exact goes_setPc (fun _ => id) rfl hnext
  | stop =>
    obtain rfl := Option.some.inj h
    exact goes_setPc (fun _ => id) rfl hsame
  | join =>
    obtain rfl := Option.some.inj h
    refine goes_setPc (fun _ => id) rfl ?_
    split
    · exact hsame
    · exact hnext
  | wait =>
    simp only [SchedulerSystem.stopThreadByInfo] at h
    split at h
    · obtain rfl := Option.some.inj h
      exact goes_setPc (fun _ => id) rfl hnext
    · cases h

theorem goes_go (h : s.go c = some s') : Goes c s s' := by
  unfold SchedulerSystem.go at h
  split at h
  case h_1 => cases h
  case h_2 | h_3 =>
    obtain rfl := Option.some.inj h
    exact goes_setPc (fun _ => id) rfl fun _ _ => trivial
  case h_4 thread hpc =>
    split at h
    · cases h
    split at h <;> obtain rfl := Option.some.inj h
    · exact goes_setPc (fun _ => id) rfl fun _ _ => trivial
    · rename_i info hfind
      have hthread : info.thread = thread := by simpa using List.find?_some hfind
      refine goes_setPc (fun _ => id) rfl ?_
      intro p hp
      rw [hpc] at hp
      exact ⟨hthread ▸ hp, by simp⟩
  case h_5 hpc =>
    split at h
    · cases h
    obtain rfl := Option.some.inj h
    refine goes_setPc (fun _ => id) rfl ?_
    intro p hp
    rw [hpc] at hp
    exact only_nextInfo hp
  case h_6 hpc => exact goes_stopThreadByInfo hpc h
  case h_7 call _ =>
    split at h
    · cases h
    obtain rfl := Option.some.inj h
    exact goes_setPc (fun _ => (eraseInfo_sublist _ _).mem) rfl fun _ _ => trivial

theorem shrinks_stopThread {thread : ThreadPtr} (h : s.step (.stopThread c thread) = some s') :
    Shrinks c s s' ∧ s'.Only (· = thread) (s'.pc c) := by
  have hpc : ∀ (t : SchedulerSystem) pc, (t.setPc c pc).pc c = pc := fun _ _ => update_self _ _ _
  simp only [step] at h
  split at h
  · cases h
  split at h <;> obtain rfl := Option.some.inj h
  · refine ⟨⟨fun _ => id, fun c' hc => update_of_ne hc _ _⟩, ?_⟩
    rw [hpc]
    trivial
  · refine ⟨⟨fun _ => id, fun c' hc => update_of_ne hc _ _⟩, ?_⟩
    rw [hpc]
    exact rfl

/-- No caller moves. -/
structure Still (s s' : SchedulerSystem) : Prop where
  mThreads : s'.mThreads = s.mThreads
  pc : s'.pc = s.pc

theorem Still.shrinks (h : Still s s') (c : Caller) : Shrinks c s s' where
  mThreads _ hinfo := h.mThreads ▸ hinfo
  pc c' _ := congrFun h.pc c'

theorem still_step {a : SchedulerAction} (h : s.step a = some s') (ha : a.own = true) :
    Still s s' := by
  cases a with
  | threadStop thread =>
    obtain rfl := Option.some.inj h
    exact ⟨rfl, rfl⟩
  | poll thread =>
    simp only [step] at h
    split at h <;> obtain rfl := Option.some.inj h <;> exact ⟨rfl, rfl⟩
  | pollEnd thread =>
    simp only [step] at h
    split at h
    · cases h
    · obtain rfl := Option.some.inj h
      exact ⟨rfl, rfl⟩
  | returns id =>
    simp only [step] at h
    split at h
    · obtain rfl := Option.some.inj h
      exact ⟨rfl, rfl⟩
    · cases h
  | startThread | stopThread | stop | go => cases ha

theorem shrinks_stop (h : s.step (.stop c) = some s') :
    Shrinks c s s' ∧ s'.pc c = .getActiveThreads := by
  simp only [step] at h
  split at h
  · cases h
  obtain rfl := Option.some.inj h
  exact ⟨⟨fun _ => id, fun c' hc => update_of_ne hc _ _⟩, update_self _ _ _⟩

/-! ## The OS threads of the entries

A call takes entries out of the list at its end.  The OS threads of these have returned if the call
has passed over none that has not. -/

/-- Whether a call passes over no OS thread in which `start()` has not returned: one whose trigger
it finds stopped, or that was joined before. -/
def joinOk (s : SchedulerSystem) (c : Caller) : Bool :=
  match s.pc c with
  | .stopThreadByInfo .check info _ => s.trigger info.thread = 0 || s.finished info.id
  | .stopThreadByInfo .join info _ => s.joined info.id = 0 || s.finished info.id
  | _ => true

/-- The entries that the call at this place takes out of the list at its end. -/
def takes : CallerPc → ThreadInfo → Bool
  | .stopThreadByInfo _ _ call, info | .erase call, info => call.target.all (info.thread = ·)
  | _, _ => false

/-- A call that will take an entry out of the list has seen its OS thread return, or will still come
to it. -/
def Dealt (s : SchedulerSystem) (pc : CallerPc) : Prop :=
  ∀ info ∈ s.mThreads, takes pc info = true → s.finished info.id = true ∨ info.id ∈ pending pc

/-- Every OS thread that runs is in the list. -/
structure Accounted (s : SchedulerSystem) : Prop where
  listed : ∀ thread id, s.os id = .running thread → ⟨thread, id⟩ ∈ s.mThreads
  once : (s.mThreads.map ThreadInfo.thread).Nodup
  dealt : ∀ c, s.Dealt (s.pc c)

theorem Accounted.not_running (h : Accounted s) {thread : ThreadPtr} {id : PThread}
    (hthread : s.isStartedUnsafe thread = false) : s.os id ≠ .running thread := by
  intro hid
  rw [SchedulerSystem.isStartedUnsafe, List.any_eq_false] at hthread
  exact hthread _ (h.listed thread id hid) (decide_eq_true rfl)

theorem takes_nextInfo (call : StopCall) (info : ThreadInfo) :
    takes (nextInfo call) info = call.target.all (info.thread = ·) := by
  unfold nextInfo
  split <;> rfl

/-- A step of `c` to `pc`. -/
theorem Accounted.move {t : SchedulerSystem} {pc : CallerPc} (h : Accounted s)
    (hthreads : t.mThreads.Sublist s.mThreads) (hos : t.os = s.os) (hpc : t.pc = s.pc)
    (hlisted : ∀ thread id, s.os id = .running thread → ⟨thread, id⟩ ∈ t.mThreads)
    (hc : s.Dealt pc) : Accounted (t.setPc c pc) where
  listed thread id hid := hlisted thread id (hos ▸ hid)
  once := h.once.sublist (hthreads.map _)
  dealt c' := by
    have hdealt : s.Dealt ((t.setPc c pc).pc c') := by
      by_cases hcc : c' = c
      · subst hcc
        have hself : (t.setPc c' pc).pc c' = pc := update_self _ _ _
        rwa [hself]
      · have hother : (t.setPc c pc).pc c' = s.pc c' := hpc ▸ update_of_ne hcc _ _
        rw [hother]
        exact h.dealt c'
    intro info hinfo htakes
    have hfinished : (t.setPc c pc).finished info.id = s.finished info.id := by
      simp only [finished, setPc, hos]
    rw [hfinished]
    exact hdealt info (hthreads.subset hinfo) htakes

/-- A step of `c` that leaves the list as it is. -/
theorem Accounted.moveTo {t : SchedulerSystem} {pc : CallerPc} (h : Accounted s)
    (hthreads : t.mThreads = s.mThreads) (hos : t.os = s.os) (hpc : t.pc = s.pc)
    (hc : s.Dealt pc) : Accounted (t.setPc c pc) :=
  h.move (hthreads ▸ List.Sublist.refl _) hos hpc (hthreads ▸ h.listed) hc

theorem dealt_of_takes {pc : CallerPc} (hpc : ∀ info, takes pc info = false) : s.Dealt pc :=
  fun info _ htakes => by simp [hpc info] at htakes

/-- Once the current entry's thread has returned, the call goes on to the next one. -/
theorem Accounted.dealt_nextInfo (h : Accounted s) {stage : ByInfo} {info : ThreadInfo}
    {call : StopCall} (hpc : s.pc c = .stopThreadByInfo stage info call)
    (hf : stage ≠ .restore → s.finished info.id = true) : s.Dealt (nextInfo call) := by
  intro info' hinfo' htakes
  rw [takes_nextInfo] at htakes
  have hdealt := h.dealt c info' hinfo'
  rw [hpc] at hdealt
  rw [pending_nextInfo]
  cases stage with
  | restore => exact hdealt htakes
  | _ =>
    rcases hdealt htakes with hfin | hmem
    · exact .inl hfin
    rcases List.mem_cons.1 hmem with heq | hmem
    · exact .inl (heq ▸ hf (by simp))
    · exact .inr hmem

theorem Accounted.stopThreadByInfo (h : Accounted s) {stage : ByInfo} {info : ThreadInfo}
    {call : StopCall} (hpc : s.pc c = .stopThreadByInfo stage info call) (hok : s.joinOk c = true)
    (hs : s.stopThreadByInfo c info call stage = some s') : Accounted s' := by
  have hdealt := h.dealt c
  simp only [joinOk, hpc] at hok
  rw [hpc] at hdealt
  cases stage with
  | check =>
    simp only [SchedulerSystem.stopThreadByInfo] at hs
    cases ht : s.trigger info.thread with
    | zero =>
      simp only [ht, Semaphore.tryWait] at hs
      obtain rfl := Option.some.inj hs
      exact h.moveTo rfl rfl rfl hdealt
    | succ n =>
      simp only [ht, Semaphore.tryWait] at hs
      obtain rfl := Option.some.inj hs
      have hfin : s.finished info.id = true := by simpa [ht] using hok
      refine h.moveTo rfl rfl rfl fun info' hinfo' htakes => ?_
      rcases hdealt info' hinfo' htakes with hfin' | hmem
      · exact .inl hfin'
      rcases List.mem_cons.1 hmem with heq | hmem
      · exact .inl (heq ▸ hfin)
      · exact .inr hmem
  | restore =>
    obtain rfl := Option.some.inj hs
    exact h.moveTo rfl rfl rfl (h.dealt_nextInfo hpc (by simp))
  | stop =>
    obtain rfl := Option.some.inj hs
    exact h.moveTo rfl rfl rfl hdealt
  | join =>
    obtain rfl := Option.some.inj hs
    split
    · exact h.moveTo rfl rfl rfl hdealt
    · rename_i hjoined
      have hfin : s.finished info.id = true := by simpa [hjoined] using hok
      exact h.moveTo rfl rfl rfl (h.dealt_nextInfo hpc fun _ => hfin)
  | wait =>
    simp only [SchedulerSystem.stopThreadByInfo] at hs
    split at hs
    · obtain rfl := Option.some.inj hs
      exact h.moveTo rfl rfl rfl (h.dealt_nextInfo hpc fun _ => ‹_›)
    · cases hs

/-- The entries that a call takes out of the list are those it says. -/
theorem takes_of_not_mem_eraseInfo {l : List ThreadInfo} {call : StopCall} {info : ThreadInfo}
    (hinfo : info ∈ l) (hno : info ∉ eraseInfo l call.target) :
    takes (.erase call) info = true := by
  rw [takes]
  cases htarget : call.target with
  | none => rfl
  | some thread =>
    rw [htarget] at hno
    by_contra hne
    exact hno ((List.mem_eraseP_of_neg (by simpa using hne)).2 hinfo)

theorem Accounted.go (h : Accounted s) (hok : s.joinOk c = true) (hs : s.go c = some s') :
    Accounted s' := by
  unfold SchedulerSystem.go at hs
  split at hs
  case h_1 => cases hs
  case h_2 | h_3 =>
    obtain rfl := Option.some.inj hs
    exact h.moveTo rfl rfl rfl (dealt_of_takes fun _ => rfl)
  case h_4 thread hpc =>
    split at hs
    · cases hs
    split at hs <;> obtain rfl := Option.some.inj hs
    · exact h.moveTo rfl rfl rfl (dealt_of_takes fun _ => rfl)
    · rename_i info hfind
      have hthread : info.thread = thread := by simpa using List.find?_some hfind
      refine h.moveTo rfl rfl rfl fun info' hinfo' htakes => .inr ?_
      have hthread' : info'.thread = thread := by simpa [takes] using htakes
      have heq := List.inj_on_of_nodup_map h.once hinfo' (List.mem_of_find?_eq_some hfind)
        (hthread'.trans hthread.symm)
      exact heq ▸ List.mem_cons_self
  case h_5 hpc =>
    split at hs
    · cases hs
    obtain rfl := Option.some.inj hs
    refine h.moveTo rfl rfl rfl fun info hinfo _ => .inr ?_
    rw [pending_nextInfo]
    exact List.mem_map_of_mem hinfo
  case h_6 hpc => exact h.stopThreadByInfo hpc hok hs
  case h_7 call hpc =>
    split at hs
    · cases hs
    obtain rfl := Option.some.inj hs
    refine h.move (eraseInfo_sublist _ _) rfl rfl ?_ (dealt_of_takes fun _ => rfl)
    intro thread id hid
    by_contra hno
    have hmem := h.listed thread id hid
    have hdealt := h.dealt c ⟨thread, id⟩ hmem
    rw [hpc] at hdealt
    rcases hdealt (takes_of_not_mem_eraseInfo hmem hno) with hfin | hnil
    · obtain ⟨thread', hreturned⟩ := finished_iff.1 hfin
      cases hid.symm.trans hreturned
    · cases hnil

theorem Accounted.stopThread (h : Accounted s) {thread : ThreadPtr}
    (hs : s.step (.stopThread c thread) = some s') : Accounted s' := by
  simp only [SchedulerSystem.step] at hs
  split at hs
  · cases hs
  split at hs <;> obtain rfl := Option.some.inj hs <;>
    exact h.moveTo rfl rfl rfl (dealt_of_takes fun _ => rfl)

theorem Accounted.stop (h : Accounted s) (hs : s.step (.stop c) = some s') : Accounted s' := by
  simp only [SchedulerSystem.step] at hs
  split at hs
  · cases hs
  obtain rfl := Option.some.inj hs
  exact h.moveTo rfl rfl rfl (dealt_of_takes fun _ => rfl)

/-- An OS thread that runs has run before, and those that have returned stay so. -/
theorem os_own {a : SchedulerAction} (hs : s.step a = some s') (ha : a.own = true) :
    (∀ thread id, s'.os id = .running thread → s.os id = .running thread) ∧
      ∀ id, s.finished id = true → s'.finished id = true := by
  cases a with
  | threadStop thread =>
    obtain rfl := Option.some.inj hs
    exact ⟨fun _ _ => id, fun _ => id⟩
  | poll thread =>
    simp only [step] at hs
    split at hs <;> obtain rfl := Option.some.inj hs <;> exact ⟨fun _ _ => id, fun _ => id⟩
  | pollEnd thread =>
    simp only [step] at hs
    split at hs
    · cases hs
    · obtain rfl := Option.some.inj hs
      exact ⟨fun _ _ => id, fun _ => id⟩
  | returns id =>
    simp only [step] at hs
    split at hs
    · rename_i hid
      obtain rfl := Option.some.inj hs
      refine ⟨fun thread id' hid' => ?_, fun id' => finished_mono fun _ =>
        returned_update (by simp [hid])⟩
      by_cases hne : id' = id
      · simp [hne] at hid'
      · simpa [hne] using hid'
    · cases hs
  | startThread | stopThread | stop | go => cases ha

/-- What the threads do themselves. -/
theorem Accounted.own (h : Accounted s) {a : SchedulerAction} (hs : s.step a = some s')
    (ha : a.own = true) : Accounted s' := by
  have hstill := still_step hs ha
  obtain ⟨hrunning, hfinished⟩ := os_own hs ha
  refine ⟨fun thread id hid => ?_, hstill.mThreads ▸ h.once, fun c info hinfo htakes => ?_⟩
  · exact hstill.mThreads ▸ h.listed thread id (hrunning thread id hid)
  · rw [hstill.pc] at htakes ⊢
    rw [hstill.mThreads] at hinfo
    exact (h.dealt c info hinfo htakes).imp_left (hfinished info.id)

end SchedulerSystem

end Kalinka
