import Mathlib.Data.List.Nodup
import Mathlib.Logic.Function.Basic
import Kalinka.App.HttpStreamer.ConThread
import Kalinka.Lib.Run

/-!
# The container of the connection threads

A connection is in `m_list` from before its thread starts.  It leaves the list when its `start()`
comes to an end, in `notifyStopConnectThread`, or when its input is stopped, in `stopThreads`; both
hand it to the `StopThread`, under the lock of the container.

`throughout_retiredOnce` says that each connection is handed over once, in any order of these.
-/

namespace Kalinka.Http

open Run Function

/-- Where a connection is. -/
inductive StartPc
  | absent
  /-- in `startConnectThread`, before `m_stop.isStopped()` -/
  | created
  /-- behind it, before the `push_back` -/
  | checked
  /-- before `startThread` -/
  | listed
  /-- in `start()`, before `notifyStop()` -/
  | running
  /-- in `notifyStopConnectThread`, before `m_stop.isStopped()` -/
  | notifying
  /-- behind it, up to the end -/
  | locking
  /-- `start()` has returned -/
  | returned
  /-- `startConnectThread` has found the container stopped -/
  | refused
  deriving DecidableEq, Repr

namespace StartPc

/-- Behind the `push_back`. -/
def entered : StartPc → Bool
  | .listed | .running | .notifying | .locking | .returned => true
  | _ => false

end StartPc

/-- Who holds the lock of the container; the connections are numbered. -/
inductive Holder
  | free
  /-- `notifyStopConnectThread` of `n` has found `i` -/
  | found (n i : ℕ)
  /-- it has handed `i` over -/
  | added (n i : ℕ)
  /-- the first loop of `stopThreads`: the rest of `m_list`, and the `stoplist` -/
  | scanning (path : Path) (rest stoplist : List ℕ)
  /-- its second loop -/
  | removing (stoplist : List ℕ)
  deriving DecidableEq, Repr

/-- The connections that have been handed over, and that the holder has still to take out. -/
def Holder.pending : Holder → List ℕ
  | .free | .found .. => []
  | .added _ i => [i]
  | .scanning _ _ stoplist | .removing stoplist => stoplist

structure ConnectThreadContainer where
  mList : List ℕ := []
  /-- the state of `m_stop` -/
  stopped : Bool := false
  lock : Holder := .free
  /-- the number of the next connection -/
  next : ℕ := 0
  pc : ℕ → StartPc := fun _ => .absent
  /-- what `generateUUID` has returned for the connection -/
  uuid : ℕ → String := fun _ => ""
  mPath : ℕ → Path := fun _ => []
  /-- what `addConnectThread` of the `StopThread` has been called with -/
  handed : List ℕ := []

inductive ContainerStep
  | create (uuid : String)
  /-- the next step of `startConnectThread` for the connection -/
  | startConnectThread (n : ℕ)
  /-- `parseRequest` -/
  | parseRequest (n : ℕ) (path : Path)
  /-- the connection comes to `notifyStop()`, or to its lock -/
  | notifyStop (n : ℕ)
  /-- `Locker lock(&m_lock)` of `notifyStopConnectThread`, and `find_if` -/
  | find (n : ℕ)
  /-- `Locker lock(&m_lock)` of `stopThreads` for an input with the path -/
  | stopThreads (path : Path)
  /-- the next step of the holder of the lock -/
  | hold
  | stop
  deriving DecidableEq, Repr

namespace ConnectThreadContainer

def setPc (s : ConnectThreadContainer) (n : ℕ) (pc : StartPc) : ConnectThreadContainer :=
  { s with pc := update s.pc n pc }

/-- `addConnectThread` -/
def addConnectThread (s : ConnectThreadContainer) (i : ℕ) : ConnectThreadContainer :=
  { s with handed := s.handed ++ [i] }

/-- The next step under the lock. -/
def hold (s : ConnectThreadContainer) : Option ConnectThreadContainer :=
  match s.lock with
  | .free => none
  | .found n i => some { s.addConnectThread i with lock := .added n i }
  | .added n i => some { s.setPc n .returned with mList := s.mList.erase i, lock := .free }
  | .scanning path (i :: rest) stoplist =>
    if s.mPath i = path then
      some { s.addConnectThread i with lock := .scanning path rest (stoplist ++ [i]) }
    else some { s with lock := .scanning path rest stoplist }
  | .scanning _ [] stoplist => some { s with lock := .removing stoplist }
  | .removing (i :: stoplist) =>
    some { s with mList := s.mList.filter (· ≠ i), lock := .removing stoplist }
  | .removing [] => some { s with lock := .free }

def step (s : ConnectThreadContainer) : ContainerStep → Option ConnectThreadContainer
  | .create uuid =>
    some { s.setPc s.next .created with uuid := update s.uuid s.next uuid, next := s.next + 1 }
  | .startConnectThread n =>
    match s.pc n with
    | .created => some (s.setPc n (if s.stopped then .refused else .checked))
    | .checked =>
      if s.lock = .free then some { s.setPc n .listed with mList := s.mList ++ [n] } else none
    | .listed => some (s.setPc n .running)
    | _ => none
  | .parseRequest n path =>
    if s.pc n = .running then some { s with mPath := update s.mPath n path } else none
  | .notifyStop n =>
    match s.pc n with
    | .running => some (s.setPc n .notifying)
    | .notifying => some (s.setPc n (if s.stopped then .returned else .locking))
    | _ => none
  | .find n =>
    if s.pc n = .locking ∧ s.lock = .free then
      match s.mList.find? fun i => s.uuid i = s.uuid n with
      | none => some (s.setPc n .returned)
      | some i => some { s with lock := .found n i }
    else none
  | .stopThreads path =>
    if path ≠ [] ∧ s.lock = .free then some { s with lock := .scanning path s.mList [] } else none
  | .hold => s.hold
  | .stop => some { s with stopped := true }

/-- No connection is handed over twice; and unless the container has been stopped, one whose
`start()` has returned has been handed over, and is in the container no longer. -/
structure RetiredOnce (s : ConnectThreadContainer) : Prop where
  once : ∀ n, s.handed.count n ≤ 1
  returned : s.stopped = false → ∀ n, s.pc n = .returned → s.handed.count n = 1 ∧ n ∉ s.mList

/-- The UUIDs that a run asks for. -/
def uuids (as : List ContainerStep) : List String :=
  as.filterMap fun
    | .create uuid => some uuid
    | _ => none

/-- A new connection has a UUID of its own. -/
def FreshUuid (s : ConnectThreadContainer) (a : ContainerStep) : Prop :=
  ∀ uuid, a = .create uuid → ∀ n < s.next, s.uuid n ≠ uuid

/-- What the holder of the lock knows. -/
def HolderOk (s : ConnectThreadContainer) : Prop :=
  match s.lock with
  | .free => True
  | .found n i => n = i ∧ s.pc n = .locking ∧ i ∈ s.mList ∧ i ∉ s.handed
  | .added n i => n = i ∧ s.pc n = .locking ∧ i ∈ s.handed
  | .scanning _ rest stoplist =>
    rest.Nodup ∧ (∀ i ∈ rest, i ∈ s.mList ∧ i ∉ s.handed) ∧ ∀ i ∈ stoplist, i ∈ s.handed
  | .removing stoplist => ∀ i ∈ stoplist, i ∈ s.handed

/-- What holds in every run. -/
structure Inv (s : ConnectThreadContainer) : Prop where
  uuid : ∀ i < s.next, ∀ j < s.next, s.uuid i = s.uuid j → i = j
  lt : ∀ n, s.pc n ≠ .absent → n < s.next
  list : s.mList.Nodup
  handed : s.handed.Nodup
  holder : s.HolderOk
  entered : ∀ n, n ∈ s.mList ∨ n ∈ s.handed → (s.pc n).entered = true
  somewhere : ∀ n, (s.pc n).entered = true → s.pc n ≠ .returned → n ∈ s.mList ∨ n ∈ s.handed
  returned : s.stopped = false → ∀ n, s.pc n = .returned → n ∈ s.handed ∧ n ∉ s.mList
  /-- Whoever is in both lists is about to be taken out. -/
  both : ∀ n ∈ s.mList, n ∈ s.handed → n ∈ s.lock.pending

variable {s s' : ConnectThreadContainer} {a : ContainerStep} {as : List ContainerStep} {n i : ℕ}

/-! ## Steps of a connection -/

theorem setPc_pc_self {pc : StartPc} : (s.setPc n pc).pc n = pc := update_self ..

theorem setPc_pc_of_ne {pc : StartPc} (h : i ≠ n) : (s.setPc n pc).pc i = s.pc i :=
  update_of_ne h ..

/-- Another connection than the holder's takes a step. -/
theorem HolderOk.setPc {pc : StartPc} (h : s.HolderOk)
    (hlock : s.pc n = .locking → s.lock = .free) : (s.setPc n pc).HolderOk := by
  have hne (m : ℕ) (hm : s.pc m = .locking) (hheld : s.lock ≠ .free) : m ≠ n := by
    rintro rfl
    exact hheld (hlock hm)
  unfold HolderOk at h ⊢
  cases hholder : s.lock with
  | free => simp [ConnectThreadContainer.setPc, hholder]
  | found m i =>
    simp only [hholder] at h
    have hm := hne m h.2.1 (by simp [hholder])
    simpa only [ConnectThreadContainer.setPc, hholder, update_of_ne hm] using h
  | added m i =>
    simp only [hholder] at h
    have hm := hne m h.2.1 (by simp [hholder])
    simpa only [ConnectThreadContainer.setPc, hholder, update_of_ne hm] using h
  | scanning | removing => simpa only [ConnectThreadContainer.setPc, hholder] using h

/-- A connection goes on, on the same side of the `push_back`. -/
theorem Inv.setPc {pc : StartPc} (hI : s.Inv) (habsent : s.pc n ≠ .absent)
    (hentered : pc.entered = (s.pc n).entered) (hlock : s.pc n = .locking → s.lock = .free)
    (hback : s.pc n ≠ .returned)
    (hreturned : pc = .returned → s.stopped = false → n ∈ s.handed ∧ n ∉ s.mList) :
    (s.setPc n pc).Inv where
  uuid := hI.uuid
  lt m hm := by
    by_cases h : m = n
    · exact h ▸ hI.lt n habsent
    · rw [setPc_pc_of_ne h] at hm
      exact hI.lt m hm
  list := hI.list
  handed := hI.handed
  holder := hI.holder.setPc hlock
  entered m hm := by
    by_cases h : m = n
    · subst h
      rw [setPc_pc_self, hentered]
      exact hI.entered m hm
    · rw [setPc_pc_of_ne h]
      exact hI.entered m hm
  somewhere m hm hne := by
    by_cases h : m = n
    · subst h
      rw [setPc_pc_self, hentered] at hm
      exact hI.somewhere m hm hback
    · rw [setPc_pc_of_ne h] at hm hne
      exact hI.somewhere m hm hne
  returned hruns m hm := by
    by_cases h : m = n
    · subst h
      rw [setPc_pc_self] at hm
      exact hreturned hm hruns
    · rw [setPc_pc_of_ne h] at hm
      exact hI.returned hruns m hm
  both := hI.both

theorem Inv.pc_next (hI : s.Inv) : s.pc s.next = .absent :=
  Classical.by_contradiction fun h => Nat.lt_irrefl _ (hI.lt s.next h)

theorem Inv.lt_of_mem (hI : s.Inv) (h : n ∈ s.mList ∨ n ∈ s.handed) : n < s.next := by
  refine hI.lt n fun habsent => ?_
  have hentered := hI.entered n h
  rw [habsent] at hentered
  cases hentered

theorem Inv.create {uuid : String} (hI : s.Inv) (hfresh : s.FreshUuid (.create uuid)) :
    Inv { s.setPc s.next .created with
      uuid := update s.uuid s.next uuid, next := s.next + 1 } := by
  have hnew := hI.pc_next
  have hpc (n : ℕ) (hn : n ≠ s.next) : (s.setPc s.next .created).pc n = s.pc n :=
    setPc_pc_of_ne hn
  have hother (n : ℕ) (h : n ∈ s.mList ∨ n ∈ s.handed) : n ≠ s.next :=
    Nat.ne_of_lt (hI.lt_of_mem h)
  refine ⟨fun i hi j hj heq => ?_, fun n hn => ?_, hI.list, hI.handed,
    hI.holder.setPc fun h => (by rw [hnew] at h; cases h), fun n hn => ?_, fun n hn hne => ?_,
    fun hruns n hn => ?_, hI.both⟩
  · have hold (k : ℕ) (hk : k ≠ s.next) : update s.uuid s.next uuid k = s.uuid k :=
      update_of_ne hk ..
    change update s.uuid s.next uuid i = update s.uuid s.next uuid j at heq
    obtain hi | rfl := Nat.lt_succ_iff_lt_or_eq.1 hi <;>
      obtain hj | rfl := Nat.lt_succ_iff_lt_or_eq.1 hj
    · rw [hold i (Nat.ne_of_lt hi), hold j (Nat.ne_of_lt hj)] at heq
      exact hI.uuid i hi j hj heq
    · rw [hold i (Nat.ne_of_lt hi), update_self] at heq
      exact absurd heq (hfresh uuid rfl i hi)
    · rw [hold j (Nat.ne_of_lt hj), update_self] at heq
      exact absurd heq.symm (hfresh uuid rfl j hj)
    · rfl
  · by_cases h : n = s.next
    · exact h ▸ Nat.lt_succ_self _
    · exact Nat.lt_succ_of_lt (hI.lt n (by rwa [← hpc n h]))
  · exact (hpc n (hother n hn)).symm ▸ hI.entered n hn
  · have h : n ≠ s.next := by
      rintro rfl
      simp only [setPc_pc_self, StartPc.entered] at hn
      cases hn
    simp only [hpc n h] at hn hne
    exact hI.somewhere n hn hne
  · have h : n ≠ s.next := by
      rintro rfl
      simp only [setPc_pc_self] at hn
      cases hn
    simp only [hpc n h] at hn
    exact hI.returned hruns n hn

theorem Inv.push (hI : s.Inv) (hpc : s.pc n = .checked) (hlock : s.lock = .free) :
    Inv { s.setPc n .listed with mList := s.mList ++ [n] } := by
  have hnew : ¬(n ∈ s.mList ∨ n ∈ s.handed) := fun h => by
    have hentered := hI.entered n h
    rw [hpc] at hentered
    cases hentered
  obtain ⟨hlist, hhanded⟩ := not_or.1 hnew
  have hother (m : ℕ) (h : m ≠ n) : (s.setPc n .listed).pc m = s.pc m := setPc_pc_of_ne h
  refine ⟨hI.uuid, fun m hm => ?_, ?_, hI.handed, ?_, fun m hm => ?_, fun m hm hne => ?_,
    fun hruns m hm => ?_, fun m hm hmem => ?_⟩
  · by_cases h : m = n
    · exact h ▸ hI.lt n (by simp [hpc])
    · exact hI.lt m (by rwa [← hother m h])
  · exact List.nodup_append'.2 ⟨hI.list, List.nodup_singleton n, by simpa using hlist⟩
  · simp only [HolderOk, ConnectThreadContainer.setPc, hlock]
  · by_cases h : m = n
    · subst h
      simp only [setPc_pc_self, StartPc.entered]
    · simp only [hother m h]
      refine hI.entered m (hm.imp_left fun hm => ?_)
      exact (List.mem_append.1 hm).resolve_right (by simpa using h)
  · by_cases h : m = n
    · exact .inl (by simp [h])
    · simp only [hother m h] at hm hne
      exact (hI.somewhere m hm hne).imp_left (List.mem_append_left _)
  · have h : m ≠ n := by
      rintro rfl
      simp only [setPc_pc_self] at hm
      cases hm
    simp only [hother m h] at hm
    obtain ⟨hmem, hnot⟩ := hI.returned hruns m hm
    exact ⟨hmem, by simp [hnot, h]⟩
  · obtain hm | hm := List.mem_append.1 hm
    · exact hI.both m hm hmem
    · rw [List.mem_singleton.1 hm] at hmem
      exact absurd hmem hhanded

/-! ## Steps under the lock -/

/-- With the lock free, no connection is in both lists. -/
theorem Inv.not_mem_handed (hI : s.Inv) (hlock : s.lock = .free) (h : n ∈ s.mList) :
    n ∉ s.handed := fun hmem => by
  have hpending := hI.both n h hmem
  rw [hlock] at hpending
  cases hpending

/-- `addConnectThread` for a connection that has not been handed over. -/
theorem Inv.addConnectThread {lock : Holder} (hI : s.Inv) (hlist : i ∈ s.mList)
    (hnew : i ∉ s.handed) (hpending : ∀ n ∈ s.lock.pending, n ∈ lock.pending)
    (hi : i ∈ lock.pending)
    (hholder : HolderOk { s.addConnectThread i with lock }) :
    Inv { s.addConnectThread i with lock } where
  uuid := hI.uuid
  lt := hI.lt
  list := hI.list
  handed := List.nodup_append'.2 ⟨hI.handed, List.nodup_singleton i, by simpa using hnew⟩
  holder := hholder
  entered n hn := by
    refine hI.entered n ?_
    obtain hn | hn := hn
    · exact .inl hn
    · obtain hn | hn := List.mem_append.1 hn
      · exact .inr hn
      · exact .inl (List.mem_singleton.1 hn ▸ hlist)
  somewhere n hn hne := (hI.somewhere n hn hne).imp_right (List.mem_append_left _)
  returned hruns n hn :=
    (hI.returned hruns n hn).imp_left (List.mem_append_left _)
  both n hn hmem := by
    obtain hmem | hmem := List.mem_append.1 hmem
    · exact hpending n (hI.both n hn hmem)
    · exact List.mem_singleton.1 hmem ▸ hi

/-- A connection that has been handed over is taken out of the list. -/
theorem Inv.remove {lock : Holder} {list : List ℕ} (hI : s.Inv) (hi : i ∈ s.handed)
    (hlist : list = s.mList.filter (· ≠ i))
    (hpending : ∀ n ∈ s.lock.pending, n ≠ i → n ∈ lock.pending)
    (hholder : HolderOk { s with mList := list, lock }) : Inv { s with mList := list, lock } := by
  have hmem (n : ℕ) : n ∈ list ↔ n ∈ s.mList ∧ n ≠ i := by simp [hlist]
  refine ⟨hI.uuid, hI.lt, hlist ▸ hI.list.filter _, hI.handed, hholder,
    fun n hn => hI.entered n (hn.imp_left fun h => ((hmem n).1 h).1), fun n hn hne => ?_,
    fun hruns n hn => ?_, fun n hn hhanded => ?_⟩
  · by_cases h : n = i
    · exact .inr (h ▸ hi)
    · exact (hI.somewhere n hn hne).imp_left fun hn => (hmem n).2 ⟨hn, h⟩
  · exact (hI.returned hruns n hn).imp_right fun hnot h => hnot ((hmem n).1 h).1
  · obtain ⟨hn, hne⟩ := (hmem n).1 hn
    exact hpending n (hI.both n hn hhanded) hne

/-- Only the place of the holder changes. -/
theorem Inv.setLock {lock : Holder} (hI : s.Inv)
    (hpending : ∀ n ∈ s.lock.pending, n ∈ lock.pending) (hholder : HolderOk { s with lock }) :
    Inv { s with lock } :=
  ⟨hI.uuid, hI.lt, hI.list, hI.handed, hholder, hI.entered, hI.somewhere, hI.returned,
    fun n hn hmem => hpending n (hI.both n hn hmem)⟩

theorem Inv.hold (hI : s.Inv) (hs : s.hold = some s') : s'.Inv := by
  have hholder := hI.holder
  unfold ConnectThreadContainer.hold at hs
  split at hs
  next => cases hs
  next n i hlock =>
    obtain rfl := Option.some.inj hs
    simp only [HolderOk, hlock] at hholder
    obtain ⟨hn, hpc, hlist, hnew⟩ := hholder
    refine hI.addConnectThread hlist hnew (by simp [hlock, Holder.pending])
      (by simp [Holder.pending]) ⟨hn, hpc, ?_⟩
    exact List.mem_append_right _ List.mem_cons_self
  next n i hlock =>
    obtain rfl := Option.some.inj hs
    simp only [HolderOk, hlock] at hholder
    obtain ⟨rfl, hpc, hhanded⟩ := hholder
    have hfilter : s.mList.erase n = s.mList.filter (· ≠ n) := by
      rw [hI.list.erase_eq_filter]
      exact List.filter_congr fun _ _ => by rw [Bool.eq_iff_iff]; simp
    have hremoved : Inv { s with mList := s.mList.erase n, lock := .free } :=
      hI.remove hhanded hfilter (by simp [hlock, Holder.pending]) trivial
    exact hremoved.setPc (by simp [hpc]) (by simp [hpc, StartPc.entered]) (fun _ => rfl)
      (by simp [hpc]) fun _ _ => ⟨hhanded, hI.list.not_mem_erase⟩
  next path i rest stoplist hlock =>
    simp only [HolderOk, hlock] at hholder
    obtain ⟨hnodup, hrest, hstop⟩ := hholder
    obtain ⟨hi, hrest⟩ := List.forall_mem_cons.1 hrest
    obtain ⟨hnot, hnodup⟩ := List.nodup_cons.1 hnodup
    split at hs
    · obtain rfl := Option.some.inj hs
      refine hI.addConnectThread hi.1 hi.2 (by simp [hlock, Holder.pending]; tauto)
        (by simp [Holder.pending]) ⟨hnodup, fun k hk => ⟨(hrest k hk).1, fun hmem => ?_⟩, ?_⟩
      · obtain hmem | hmem := List.mem_append.1 hmem
        · exact (hrest k hk).2 hmem
        · exact hnot (List.mem_singleton.1 hmem ▸ hk)
      · refine List.forall_mem_append.2 ⟨fun k hk => List.mem_append_left _ (hstop k hk), ?_⟩
        exact fun k hk => List.mem_append_right _ hk
    · obtain rfl := Option.some.inj hs
      exact hI.setLock (by simp [hlock, Holder.pending]) ⟨hnodup, hrest, hstop⟩
  next path stoplist hlock =>
    obtain rfl := Option.some.inj hs
    simp only [HolderOk, hlock] at hholder
    exact hI.setLock (by simp [hlock, Holder.pending]) hholder.2.2
  next i stoplist hlock =>
    obtain rfl := Option.some.inj hs
    simp only [HolderOk, hlock] at hholder
    obtain ⟨hi, hstop⟩ := List.forall_mem_cons.1 hholder
    exact hI.remove hi rfl (by simp [hlock, Holder.pending]; tauto) hstop
  next hlock =>
    obtain rfl := Option.some.inj hs
    exact hI.setLock (by simp [hlock, Holder.pending]) trivial

theorem Inv.step (hI : s.Inv) (hfresh : s.FreshUuid a) (hs : s.step a = some s') : s'.Inv := by
  cases a with
  | create uuid =>
    obtain rfl := Option.some.inj hs
    exact hI.create hfresh
  | startConnectThread n =>
    simp only [ConnectThreadContainer.step] at hs
    split at hs
    next hpc =>
      obtain rfl := Option.some.inj hs
      apply hI.setPc
      all_goals cases s.stopped <;> simp [hpc, StartPc.entered]
    next hpc =>
      obtain ⟨hlock, hs⟩ := Option.ite_none_right_eq_some.1 hs
      obtain rfl := Option.some.inj hs
      exact hI.push hpc hlock
    next hpc =>
      obtain rfl := Option.some.inj hs
      apply hI.setPc <;> simp [hpc, StartPc.entered]
    next => cases hs
  | parseRequest n path =>
    obtain ⟨hpc, hs⟩ := Option.ite_none_right_eq_some.1 hs
    obtain rfl := Option.some.inj hs
    exact ⟨hI.uuid, hI.lt, hI.list, hI.handed, hI.holder, hI.entered, hI.somewhere, hI.returned,
      hI.both⟩
  | notifyStop n =>
    simp only [ConnectThreadContainer.step] at hs
    split at hs
    next hpc =>
      obtain rfl := Option.some.inj hs
      apply hI.setPc <;> simp [hpc, StartPc.entered]
    next hpc =>
      obtain rfl := Option.some.inj hs
      cases hstopped : s.stopped with
      | true => apply hI.setPc <;> simp [hpc, hstopped, StartPc.entered]
      | false => apply hI.setPc <;> simp [hpc, StartPc.entered]
    next => cases hs
  | find n =>
    obtain ⟨⟨hpc, hlock⟩, hs⟩ := Option.ite_none_right_eq_some.1 hs
    have hn : n < s.next := hI.lt n (by simp [hpc])
    split at hs
    next hnone =>
      obtain rfl := Option.some.inj hs
      have hlist : n ∉ s.mList := fun h => by simpa using List.find?_eq_none.1 hnone n h
      have hhanded : n ∈ s.handed :=
        (hI.somewhere n (by simp [hpc, StartPc.entered]) (by simp [hpc])).resolve_left hlist
      exact hI.setPc (by simp [hpc]) (by simp [hpc, StartPc.entered]) (fun _ => hlock)
        (by simp [hpc]) fun _ _ => ⟨hhanded, hlist⟩
    next i hfound =>
      obtain rfl := Option.some.inj hs
      have hlist := List.mem_of_find?_eq_some hfound
      have huuid : s.uuid i = s.uuid n := by simpa using List.find?_some hfound
      have heq := hI.uuid i (hI.lt_of_mem (.inl hlist)) n hn huuid
      exact hI.setLock (by simp [hlock, Holder.pending])
        ⟨heq.symm, hpc, hlist, hI.not_mem_handed hlock hlist⟩
  | stopThreads path =>
    obtain ⟨⟨-, hlock⟩, hs⟩ := Option.ite_none_right_eq_some.1 hs
    obtain rfl := Option.some.inj hs
    exact hI.setLock (by simp [hlock, Holder.pending])
      ⟨hI.list, fun i hi => ⟨hi, hI.not_mem_handed hlock hi⟩, by simp⟩
  | hold => exact hI.hold hs
  | stop =>
    obtain rfl := Option.some.inj hs
    exact ⟨hI.uuid, hI.lt, hI.list, hI.handed, hI.holder, hI.entered, hI.somewhere,
      fun h => (by cases h), hI.both⟩

/-! ## Runs -/

theorem Inv.retiredOnce (hI : s.Inv) : s.RetiredOnce :=
  ⟨List.nodup_iff_count_le_one.1 hI.handed, fun hruns n hn =>
    (hI.returned hruns n hn).imp_left (List.count_eq_one_of_mem hI.handed)⟩

theorem inv_init : Inv {} :=
  ⟨by simp, fun _ h => absurd rfl h, .nil, .nil, trivial, by simp,
    fun _ h => (by cases h), fun _ _ h => (by cases h), by simp⟩

theorem hold_frame (hs : s.hold = some s') : s'.next = s.next ∧ s'.uuid = s.uuid := by
  unfold ConnectThreadContainer.hold at hs
  split at hs <;> (try split at hs) <;> cases hs <;> exact ⟨rfl, rfl⟩

/-- Only a new connection has a new UUID. -/
theorem uuid_step (hs : s.step a = some s') : s'.next = s.next ∧ s'.uuid = s.uuid ∨
    ∃ uuid, a = .create uuid ∧ s'.next = s.next + 1 ∧ s'.uuid = update s.uuid s.next uuid := by
  cases a with
  | create uuid =>
    obtain rfl := Option.some.inj hs
    exact .inr ⟨uuid, rfl, rfl, rfl⟩
  | startConnectThread | notifyStop =>
    simp only [ConnectThreadContainer.step] at hs
    split at hs <;> (try split at hs) <;> cases hs <;> exact .inl ⟨rfl, rfl⟩
  | parseRequest | stopThreads =>
    obtain ⟨-, hs⟩ := Option.ite_none_right_eq_some.1 hs
    exact .inl (Option.some.inj hs ▸ ⟨rfl, rfl⟩)
  | find =>
    obtain ⟨-, hs⟩ := Option.ite_none_right_eq_some.1 hs
    split at hs <;> cases hs <;> exact .inl ⟨rfl, rfl⟩
  | hold => exact .inl (hold_frame hs)
  | stop => exact .inl (Option.some.inj hs ▸ ⟨rfl, rfl⟩)

theorem uuids_cons_sublist (a : ContainerStep) (as : List ContainerStep) :
    (uuids as).Sublist (uuids (a :: as)) :=
  (List.sublist_cons_self a as).filterMap _

/-- UUIDs that are all different are new when they come. -/
theorem eachStep_freshUuid (h : (uuids as).Nodup) (hnew : ∀ n < s.next, s.uuid n ∉ uuids as) :
    EachStep step FreshUuid s as := by
  induction as generalizing s with
  | nil => trivial
  | cons a as ih =>
    intro s' hs
    have hsub := uuids_cons_sublist a as
    refine ⟨fun uuid ha n hn heq => hnew n hn ?_, ih (h.sublist hsub) fun n hn => ?_⟩
    · rw [heq, ha]
      exact List.mem_cons_self
    · obtain ⟨hnext, huuid⟩ | ⟨uuid, rfl, hnext, huuid⟩ := uuid_step hs
      · rw [huuid]
        exact fun hmem => hnew n (hnext ▸ hn) (hsub.subset hmem)
      · rw [huuid]
        rw [hnext] at hn
        obtain hn | rfl := Nat.lt_succ_iff_lt_or_eq.1 hn
        · rw [update_of_ne (Nat.ne_of_lt hn)]
          exact fun hmem => hnew n hn (hsub.subset hmem)
        · rw [update_self]
          exact (List.nodup_cons.1 h).1

/-- In every order of connections that start and end and of inputs that are stopped, each connection
is handed over once, if no two of them have the same UUID. -/
theorem throughout_retiredOnce (as : List ContainerStep) (huuid : (uuids as).Nodup) :
    Throughout step RetiredOnce {} as :=
  throughout_of_eachStep Inv.step Inv.retiredOnce inv_init
    (eachStep_freshUuid huuid fun _ h => absurd h (Nat.not_lt_zero _))

/-- Two connections end while the input of the first one is stopped. -/
def retireRun : List ContainerStep :=
  [.create "1", .startConnectThread 0, .create "2", .startConnectThread 0, .startConnectThread 1,
    .startConnectThread 0, .startConnectThread 1, .startConnectThread 1,
    .parseRequest 0 "/a".toList, .parseRequest 1 "/b".toList, .stopThreads "/a".toList,
    .notifyStop 0, .hold, .notifyStop 1, .notifyStop 0, .hold, .hold, .notifyStop 1, .hold, .hold,
    .find 1, .hold, .hold, .find 0]

theorem throughout_retireRun : (uuids retireRun).Nodup ∧
    Throughout step RetiredOnce {} retireRun ∧
    ∃ s, exec step {} retireRun = some s ∧ s.pc 0 = .returned ∧ s.pc 1 = .returned ∧
      s.handed = [0, 1] ∧ s.mList = [] :=
  ⟨by decide, throughout_retiredOnce retireRun (by decide), _, rfl, rfl, rfl, rfl, rfl⟩

end ConnectThreadContainer

end Kalinka.Http
