import Mathlib.Data.List.Nodup
import Mathlib.Data.Nat.Notation
import Kalinka.App.HttpStreamer.Streamer
import Kalinka.Lib.Keyed

/-!
# The container of the input threads

`addInfo` looks for a thread with the route of the info.  If there is one, it gets the info; if not,
no thread may have the path, and a new one is started.  `getThreadByPath` and `delInfo` look for the
path without the slashes at its ends, and `InThread::start` asserts that the path of a thread leads
to the thread itself.

`throughout_registry_iff` says in which runs it does.
-/

namespace Kalinka.HttpStreamer

open Kalinka.Http (Path isRouteMatch trimPath)
open Run Keyed

/-! ## Input threads -/

structure InThread where
  /-- which object it is -/
  number : ℕ
  mInfo : InputInfo
  mRoute : RouteInfo
  deriving DecidableEq, Repr

namespace InThread

def uuid (t : InThread) : String := t.mInfo.uuid

/-- The path without the slashes at its ends. -/
def path (t : InThread) : Path := trimPath t.mInfo.path

def checkRoute (t : InThread) (uuid : String) : Bool := t.mRoute.uuid = uuid

/-- `setRoute`, and whether it returns. -/
def setRoute (t : InThread) (route : RouteInfo) : InThread × Bool :=
  if t.checkRoute route.uuid then (t, false)
  else if route.host = "" ∨ route.port = 0 then (t, false)
  else ({ t with mRoute := route }, true)

/-- `updateInfo`, and whether it returns. -/
def updateInfo (t : InThread) (info : InputInfo) : InThread × Bool :=
  if info.route.protocol ≠ t.mInfo.route.protocol then (t, false)
  else if t.checkRoute info.route.uuid then ({ t with mInfo := info }, true)
  else
    match t.setRoute info.route with
    | (t', true) => ({ t' with mInfo := info }, true)
    | (t', false) => (t', false)

end InThread

/-! ## The container -/

structure InThreadContainer where
  mList : List InThread := []
  /-- the state of `m_stop` -/
  stopped : Bool := false
  /-- the number of the next thread -/
  next : ℕ := 0

inductive ContainerAction
  /-- a new thread is allocated and `started`, or this throws -/
  | addInfo (info : InputInfo) (started : Bool)
  /-- `stopThread` returns, or throws -/
  | delInfo (info : InputInfo) (returns : Bool)
  | stop
  deriving DecidableEq, Repr

namespace InThreadContainer

def getThreadByPath (c : InThreadContainer) (path : Path) : Option InThread :=
  if path = [] then none else c.mList.find? fun t => isRouteMatch path t.mInfo.path

/-- `addInfo`, and whether it returns. -/
def addInfo (c : InThreadContainer) (info : InputInfo) (started : Bool) :
    InThreadContainer × Bool :=
  match c.mList.find? fun t => t.uuid = info.uuid with
  | some found =>
    ({ c with
        mList := update InThread.number found.number (fun t => (t.updateInfo info).1) c.mList },
      (found.updateInfo info).2)
  | none =>
    if c.mList.any fun t => isRouteMatch info.path t.mInfo.path then (c, false)
    else if c.stopped then (c, true)
    else if Streamer.Startable info started then
      ({ c with mList := c.mList ++ [⟨c.next, info, info.route⟩], next := c.next + 1 }, true)
    else (c, false)

/-- `delInfo` up to the removal from `m_list`, and whether it gets there. -/
def delInfo (c : InThreadContainer) (info : InputInfo) (returns : Bool) :
    InThreadContainer × Bool :=
  match c.getThreadByPath info.path with
  | none => (c, false)
  | some thread =>
    if returns then ({ c with mList := delete InThread.number thread.number c.mList }, true)
    else (c, false)

def step (c : InThreadContainer) : ContainerAction → Option InThreadContainer
  | .addInfo info started => some (c.addInfo info started).1
  | .delInfo info returns => some (c.delInfo info returns).1
  | .stop => some { c with stopped := true }

/-! ## The keys -/

/-- No two threads have the same route, or the same path but for slashes at its ends, and the path
of a thread leads to it. -/
structure Registry (c : InThreadContainer) : Prop where
  uuids : c.mList.Pairwise fun t u => t.uuid ≠ u.uuid
  paths : c.mList.Pairwise fun t u => t.path = u.path → t.path = []
  lookup : ∀ t ∈ c.mList, c.getThreadByPath t.mInfo.path = some t

/-- There is a thread for the route, and the protocol is still the same. -/
def Updates (c : InThreadContainer) (info : InputInfo) : Prop :=
  ∃ t ∈ c.mList, t.uuid = info.uuid ∧ info.route.protocol = t.mInfo.route.protocol

/-- There is no thread for the route, none has the path, and a new one starts. -/
def Starts (c : InThreadContainer) (info : InputInfo) (started : Bool) : Prop :=
  (∀ t ∈ c.mList, t.uuid ≠ info.uuid) ∧
    (∀ t ∈ c.mList, ¬isRouteMatch info.path t.mInfo.path = true) ∧ c.stopped = false ∧
    Streamer.Startable info started

/-- A thread only gets a path with more than slashes, and with a new info only one that no other
thread has. -/
def StepOk (c : InThreadContainer) : ContainerAction → Prop
  | .addInfo info started =>
    (c.Updates info → trimPath info.path ≠ [] ∧
      ∀ t ∈ c.mList, t.uuid ≠ info.uuid → t.path ≠ trimPath info.path) ∧
    (c.Starts info started → trimPath info.path ≠ [])
  | _ => True

/-- What holds in every run. -/
structure Inv (c : InThreadContainer) : Prop where
  numbers : Primary InThread.number c.mList
  lt : ∀ t ∈ c.mList, t.number < c.next
  uuids : Primary InThread.uuid c.mList
  route : ∀ t ∈ c.mList, t.mRoute.uuid = t.uuid

variable {c c' : InThreadContainer} {t u : InThread} {info : InputInfo} {started returns : Bool}
variable {a : ContainerAction} {as : List ContainerAction}

/-! ## The operations -/

theorem updateInfo_of_protocol (hroute : t.mRoute.uuid = info.uuid)
    (h : info.route.protocol = t.mInfo.route.protocol) :
    t.updateInfo info = ({ t with mInfo := info }, true) := by
  have hcheck : t.checkRoute info.route.uuid = true := decide_eq_true hroute
  rw [InThread.updateInfo, if_neg (not_not.2 h), if_pos hcheck]

theorem updateInfo_of_not_protocol (h : info.route.protocol ≠ t.mInfo.route.protocol) :
    t.updateInfo info = (t, false) := if_pos h

/-- The thread gets the info. -/
def setInfo (c : InThreadContainer) (t : InThread) (info : InputInfo) : InThreadContainer :=
  { c with mList := update InThread.number t.number (fun t => { t with mInfo := info }) c.mList }

/-- A new thread for the info. -/
def addThread (c : InThreadContainer) (info : InputInfo) : InThreadContainer :=
  { c with mList := c.mList ++ [⟨c.next, info, info.route⟩], next := c.next + 1 }

/-- What `addInfo` can do. -/
inductive AddInfo (c : InThreadContainer) (info : InputInfo) (started : Bool) :
    InThreadContainer × Bool → Prop
  | updated (t : InThread) (ht : t ∈ c.mList) (huuid : t.uuid = info.uuid)
      (hprot : info.route.protocol = t.mInfo.route.protocol) :
      AddInfo c info started (c.setInfo t info, true)
  | started (h : c.Starts info started) : AddInfo c info started (c.addThread info, true)
  | same (returns : Bool) (hupdates : ¬c.Updates info) (hstarts : ¬c.Starts info started) :
      AddInfo c info started (c, returns)

theorem Inv.addInfo_cases (hI : c.Inv) (info : InputInfo) (started : Bool) :
    AddInfo c info started (c.addInfo info started) := by
  unfold addInfo
  cases hfind : c.mList.find? fun t => t.uuid = info.uuid with
  | some found =>
    have hmem := List.mem_of_find?_eq_some hfind
    have huuid : found.uuid = info.uuid := by simpa using List.find?_some hfind
    have hroute : found.mRoute.uuid = info.uuid := (hI.route found hmem).trans huuid
    have hsame (t : InThread) (ht : t ∈ c.mList) (h : t.number = found.number) : t = found :=
      eq_of_key_eq hI.numbers ht hmem h
    by_cases hprot : info.route.protocol = found.mInfo.route.protocol
    · have hlist : update InThread.number found.number (fun t => (t.updateInfo info).1) c.mList =
          update InThread.number found.number (fun t => { t with mInfo := info }) c.mList := by
        apply List.map_congr_left
        intro t ht
        split
        next h =>
          obtain rfl := hsame t ht h
          exact congrArg Prod.fst (updateInfo_of_protocol hroute hprot)
        next => rfl
      dsimp only
      rw [hlist, updateInfo_of_protocol hroute hprot]
      exact .updated found hmem huuid hprot
    · have hlist : update InThread.number found.number (fun t => (t.updateInfo info).1) c.mList =
          c.mList := by
        refine update_of_fixed fun t ht h => ?_
        obtain rfl := hsame t ht h
        rw [updateInfo_of_not_protocol hprot]
      dsimp only
      rw [hlist, updateInfo_of_not_protocol hprot]
      refine .same false ?_ fun hstarts => hstarts.1 found hmem huuid
      rintro ⟨t, ht, htuuid, htprot⟩
      obtain rfl := eq_of_key_eq hI.uuids ht hmem (htuuid.trans huuid.symm)
      exact hprot htprot
  | none =>
    have hnone : ∀ t ∈ c.mList, t.uuid ≠ info.uuid := by simpa using hfind
    have hupdates : ¬c.Updates info := fun ⟨t, ht, huuid, _⟩ => hnone t ht huuid
    dsimp only
    split
    next hpath =>
      refine .same false hupdates fun hstarts => ?_
      obtain ⟨t, ht, hmatch⟩ := List.any_eq_true.1 hpath
      exact hstarts.2.1 t ht hmatch
    next hpath =>
      split
      next hstopped =>
        exact .same true hupdates fun hstarts => by
          rw [hstarts.2.2.1] at hstopped
          cases hstopped
      next hstopped =>
        split
        next hstart =>
          refine .started ⟨hnone, fun t ht hmatch => hpath ?_, by simpa using hstopped, hstart⟩
          exact List.any_eq_true.2 ⟨t, ht, hmatch⟩
        next hstart => exact .same false hupdates fun hstarts => hstart hstarts.2.2.2

/-- An `addInfo` that throws changes nothing. -/
theorem Inv.addInfo_of_throw (hI : c.Inv) (h : (c.addInfo info started).2 = false) :
    (c.addInfo info started).1 = c := by
  have hcases := hI.addInfo_cases info started
  generalize c.addInfo info started = res at h hcases
  cases hcases with
  | updated | started => cases h
  | same => rfl

theorem delInfo_cases (c : InThreadContainer) (info : InputInfo) (returns : Bool) :
    (c.delInfo info returns).1 = c ∨ ∃ t, (c.delInfo info returns).1 =
      { c with mList := delete InThread.number t c.mList } := by
  unfold delInfo
  cases c.getThreadByPath info.path with
  | none => exact .inl rfl
  | some thread =>
    cases returns with
    | false => exact .inl rfl
    | true => exact .inr ⟨thread.number, rfl⟩

/-! ## The keys after a step -/

theorem Inv.setInfo (hI : c.Inv) (ht : t ∈ c.mList) (huuid : t.uuid = info.uuid) :
    (c.setInfo t info).Inv where
  numbers := hI.numbers.update fun _ => rfl
  lt := forall_mem_update.2 fun u hu => by
    split <;> exact hI.lt u hu
  uuids := by
    have hkeys : (c.setInfo t info).mList.map InThread.uuid = c.mList.map InThread.uuid := by
      rw [InThreadContainer.setInfo, update, List.map_map]
      apply List.map_congr_left
      intro u hu
      rw [Function.comp_apply]
      split
      next h =>
        obtain rfl := eq_of_key_eq hI.numbers hu ht h
        exact huuid.symm
      next => rfl
    rw [Primary, hkeys]
    exact hI.uuids
  route := forall_mem_update.2 fun u hu => by
    split
    next h =>
      obtain rfl := eq_of_key_eq hI.numbers hu ht h
      exact (hI.route u hu).trans huuid
    next => exact hI.route u hu

theorem Inv.addThread (hI : c.Inv) (hnew : ∀ t ∈ c.mList, t.uuid ≠ info.uuid) :
    (c.addThread info).Inv where
  numbers := hI.numbers.append fun t ht => Nat.ne_of_lt (hI.lt t ht)
  lt := List.forall_mem_append.2
    ⟨fun t ht => Nat.lt_succ_of_lt (hI.lt t ht), by simp [InThreadContainer.addThread]⟩
  uuids := hI.uuids.append hnew
  route := List.forall_mem_append.2 ⟨hI.route, by simp [InThread.uuid, InputInfo.uuid]⟩

theorem Inv.step (hI : c.Inv) (h : c.step a = some c') : c'.Inv := by
  cases a with
  | addInfo info started =>
    obtain rfl := Option.some.inj h
    have hcases := hI.addInfo_cases info started
    generalize c.addInfo info started = res at hcases ⊢
    cases hcases with
    | updated t ht huuid => exact hI.setInfo ht huuid
    | started hstarts => exact hI.addThread hstarts.1
    | same => exact hI
  | delInfo info returns =>
    obtain rfl := Option.some.inj h
    obtain hsame | ⟨n, hdel⟩ := delInfo_cases c info returns
    · rwa [hsame]
    · rw [hdel]
      exact ⟨hI.numbers.delete, fun t ht => hI.lt t (mem_delete.1 ht).1,
        hI.uuids.sublist List.filter_sublist,
        fun t ht => hI.route t (mem_delete.1 ht).1⟩
  | stop =>
    obtain rfl := Option.some.inj h
    exact ⟨hI.numbers, hI.lt, hI.uuids, hI.route⟩

theorem isRouteMatch_of_path_eq (info : InputInfo) (h : t.path = trimPath info.path)
    (hne : t.path ≠ []) :
    isRouteMatch info.path t.mInfo.path = true := by
  have heq : trimPath t.mInfo.path = trimPath info.path := h
  have hne' : trimPath t.mInfo.path ≠ [] := hne
  rw [heq] at hne'
  simp [isRouteMatch, heq, hne']

theorem path_of_getThreadByPath (h : c.getThreadByPath t.mInfo.path = some u) :
    u ∈ c.mList ∧ t.path ≠ [] ∧ t.path = u.path := by
  unfold getThreadByPath at h
  split at h
  · cases h
  · refine ⟨List.mem_of_find?_eq_some h, ?_⟩
    have hmatch := List.find?_some h
    simp only [isRouteMatch, Bool.and_eq_true, decide_eq_true_eq] at hmatch
    exact ⟨hmatch.1.1, hmatch.2⟩

theorem Inv.registry_iff (hI : c.Inv) :
    c.Registry ↔ Primary InThread.path c.mList ∧ ∀ t ∈ c.mList, t.path ≠ [] := by
  constructor
  · intro h
    have hne (t : InThread) (ht : t ∈ c.mList) : t.path ≠ [] :=
      (path_of_getThreadByPath (h.lookup t ht)).2.1
    refine ⟨List.pairwise_map.2 (h.paths.imp_of_mem fun ht _ himp heq => ?_), hne⟩
    exact hne _ ht (himp heq)
  · rintro ⟨hpaths, hne⟩
    refine ⟨List.pairwise_map.1 hI.uuids, (List.pairwise_map.1 hpaths).imp fun hdiff heq =>
      absurd heq hdiff, fun t ht => ?_⟩
    cases hfind : c.getThreadByPath t.mInfo.path with
    | some u =>
      obtain ⟨hu, -, heq⟩ := path_of_getThreadByPath hfind
      rw [eq_of_key_eq hpaths ht hu heq]
    | none =>
      unfold getThreadByPath at hfind
      split at hfind
      next hnil => exact absurd (show t.path = [] by rw [InThread.path, hnil]; rfl) (hne t ht)
      next =>
        have hmatch := isRouteMatch_of_path_eq t.mInfo rfl (hne t ht)
        exact absurd hmatch (by simpa using List.find?_eq_none.1 hfind t ht)

theorem registry_setInfo_iff (hI : c.Inv) (h : c.Registry) (ht : t ∈ c.mList)
    (huuid : t.uuid = info.uuid) : (c.setInfo t info).Registry ↔ trimPath info.path ≠ [] ∧
      ∀ u ∈ c.mList, u.uuid ≠ info.uuid → u.path ≠ trimPath info.path := by
  obtain ⟨hpaths, hne⟩ := hI.registry_iff.1 h
  have hother (u : InThread) (hu : u ∈ c.mList) : u.uuid ≠ info.uuid ↔ u.number ≠ t.number := by
    refine not_congr ⟨fun heq => ?_, fun heq => ?_⟩
    · rw [eq_of_key_eq hI.uuids hu ht (heq.trans huuid.symm)]
    · rw [eq_of_key_eq hI.numbers hu ht heq, huuid]
  rw [(hI.setInfo ht huuid).registry_iff]
  constructor
  · rintro ⟨hpaths', hne'⟩
    have hnew : ({ t with mInfo := info } : InThread) ∈ (c.setInfo t info).mList :=
      List.mem_map.2 ⟨t, ht, if_pos rfl⟩
    refine ⟨hne' _ hnew, fun u hu hdiff heq => ?_⟩
    have hnumber := (hother u hu).1 hdiff
    have hkept : u ∈ (c.setInfo t info).mList := List.mem_map.2 ⟨u, hu, if_neg hnumber⟩
    have hsame : u = { t with mInfo := info } := eq_of_key_eq hpaths' hkept hnew heq
    exact hnumber (by rw [hsame])
  · rintro ⟨htrim, hdiff⟩
    have hnodup : (c.setInfo t info).mList.Nodup :=
      List.Nodup.of_map _ (hI.setInfo ht huuid).numbers
    constructor
    · refine (List.nodup_map_iff_inj_on hnodup).2 (forall_mem_update.2 fun u hu =>
        forall_mem_update.2 fun v hv heq => ?_)
      by_cases hut : u.number = t.number <;> by_cases hvt : v.number = t.number
      · rw [eq_of_key_eq hI.numbers hu hv (hut.trans hvt.symm)]
      · rw [if_pos hut, if_neg hvt] at heq
        exact absurd heq.symm (hdiff v hv ((hother v hv).2 hvt))
      · rw [if_neg hut, if_pos hvt] at heq
        exact absurd heq (hdiff u hu ((hother u hu).2 hut))
      · rw [if_neg hut, if_neg hvt] at heq ⊢
        exact eq_of_key_eq hpaths hu hv heq
    · refine forall_mem_update.2 fun u hu => ?_
      split
      · exact htrim
      · exact hne u hu

theorem registry_addThread_iff (hI : c.Inv) (h : c.Registry)
    (hnew : ∀ t ∈ c.mList, t.uuid ≠ info.uuid)
    (hpath : ∀ t ∈ c.mList, ¬isRouteMatch info.path t.mInfo.path = true) :
    (c.addThread info).Registry ↔ trimPath info.path ≠ [] := by
  obtain ⟨hpaths, hne⟩ := hI.registry_iff.1 h
  rw [(hI.addThread hnew).registry_iff]
  constructor
  · rintro ⟨-, hne'⟩
    exact hne' _ (List.mem_append_right _ List.mem_cons_self)
  · refine fun htrim => ⟨hpaths.append fun t ht heq => ?_, ?_⟩
    · exact hpath t ht (isRouteMatch_of_path_eq info heq (hne t ht))
    · exact List.forall_mem_append.2 ⟨hne, by simpa [InThread.path] using htrim⟩

theorem registry_step_iff (hI : c.Inv) (h : c.Registry) (hs : c.step a = some c') :
    c'.Registry ↔ c.StepOk a := by
  cases a with
  | addInfo info started =>
    obtain rfl := Option.some.inj hs
    have hcases := hI.addInfo_cases info started
    generalize c.addInfo info started = res at hcases ⊢
    cases hcases with
    | updated t ht huuid hprot =>
      have hstarts : ¬c.Starts info started := fun hstarts => hstarts.1 t ht huuid
      rw [registry_setInfo_iff hI h ht huuid, StepOk]
      exact ⟨fun hok => ⟨fun _ => hok, fun h => absurd h hstarts⟩,
        fun hok => hok.1 ⟨t, ht, huuid, hprot⟩⟩
    | started hstarts =>
      have hupdates : ¬c.Updates info := fun ⟨t, ht, huuid, _⟩ => hstarts.1 t ht huuid
      rw [registry_addThread_iff hI h hstarts.1 hstarts.2.1, StepOk]
      exact ⟨fun hok => ⟨fun h => absurd h hupdates, fun _ => hok⟩, fun hok => hok.2 hstarts⟩
    | same _ hupdates hstarts =>
      exact iff_of_true h ⟨fun h => absurd h hupdates, fun h => absurd h hstarts⟩
  | delInfo info returns =>
    refine iff_of_true ?_ trivial
    have hI' := hI.step hs
    obtain rfl := Option.some.inj hs
    rw [hI'.registry_iff]
    obtain ⟨hpaths, hne⟩ := hI.registry_iff.1 h
    obtain hsame | ⟨n, hdel⟩ := delInfo_cases c info returns
    · rw [hsame]
      exact ⟨hpaths, hne⟩
    · rw [hdel]
      exact ⟨hpaths.sublist List.filter_sublist, fun t ht => hne t (mem_delete.1 ht).1⟩
  | stop =>
    obtain rfl := Option.some.inj hs
    exact iff_of_true ⟨h.uuids, h.paths, h.lookup⟩ trivial

/-- In every run an `addInfo` that throws changes nothing; and the keys are unique throughout if
and only if no thread gets a path without more than slashes, or with a new info the path of another
thread. -/
theorem throughout_registry_iff (as : List ContainerAction) :
    (∀ c, exec step {} as = some c → ∀ info started, (c.addInfo info started).2 = false →
      (c.addInfo info started).1 = c) ∧
    (Throughout step Registry {} as ↔ EachStep step StepOk {} as) := by
  have hI : Inv {} := ⟨.nil, by simp, .nil, by simp⟩
  refine ⟨fun c h info started hthrow => ?_, throughout_iff_eachStep Inv.step registry_step_iff hI
    ⟨.nil, .nil, by simp⟩⟩
  exact (exec_induction Inv.step hI h).addInfo_of_throw hthrow

def inputOf (uuid path : String) : InputInfo :=
  { route := ⟨uuid, "in", "localhost", 1234, .udp, .unicast⟩, path := path.toList, mname := "FLV",
    muuid := "flv" }

/-- An input gets the path of another one with a new info. -/
theorem same_path : ¬Throughout step Registry {} [.addInfo (inputOf "1" "/a") true,
    .addInfo (inputOf "2" "/b") true, .addInfo (inputOf "2" "/a") true] := by
  intro h
  have hlast := ((h.2 _ rfl).2 _ rfl).2 _ rfl
  have hlookup := hlast.lookup ⟨1, inputOf "2" "/a", (inputOf "2" "/b").route⟩ (by decide)
  exact absurd hlookup (by decide)

end InThreadContainer

end Kalinka.HttpStreamer
