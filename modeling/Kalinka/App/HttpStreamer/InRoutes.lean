import Kalinka.App.HttpStreamer.Streamer
import Kalinka.Lib.Keyed

/-!
# The inputs after an update

`processInRoute` compares `m_info` and the rows of the database by their UUIDs alone, and takes an
input that it knows as it is.  The thread of a deleted input is looked up by its path, so that it
may be the one of another input.

`converged_iff` says from which states, and for which rows, an update without a failure leaves just
the inputs of the rows running.
-/

namespace Kalinka.HttpStreamer

open Run
open Kalinka.Http (Path isRouteMatch trimPath)

/-! ## What an input runs as -/

/-- A route, its path and the UUID of its media type. -/
structure Form where
  uuid : String
  path : Path
  muuid : String
  deriving DecidableEq, Repr

def InputInfo.form (info : InputInfo) : Form :=
  { uuid := info.uuid, path := info.path, muuid := info.muuid }

def Row.form (row : Row) : Form := { uuid := row.inRoute, path := row.outPath, muuid := row.uuid }

/-- The path by which a thread is found. -/
def InputInfo.key (info : InputInfo) : Path := trimPath info.path

namespace Streamer

/-- `Factory::stop` stops all threads. -/
def running (s : Streamer) : List InputInfo := if s.stopped then [] else s.mList

/-- The running inputs are those of the rows. -/
def Converged (s : Streamer) (rows : List Row) : Prop :=
  ∀ form, form ∈ s.running.map InputInfo.form ↔ form ∈ rows.map Row.form

/-- The inputs without a row. -/
def gone (s : Streamer) (rows : List Row) : List InputInfo :=
  s.mInfo.elems.filter fun info => info.uuid ∉ rows.map Row.inRoute

/-- Of the threads with its path, as many as are deleted come before this one. -/
def Stays (s : Streamer) (rows : List Row) (before : List InputInfo) (t : InputInfo) : Prop :=
  (s.gone rows).countP (fun i => i.key = t.key) ≤ before.countP fun i => i.key = t.key

/-- The rows show the known inputs as they run, and the deletions stop the threads without a row. -/
structure Settled (s : Streamer) (rows : List Row) : Prop where
  unique : ∀ row ∈ rows, ∀ row' ∈ rows, row.inRoute = row'.inRoute → row.form = row'.form
  known : ∀ row ∈ rows, ∀ info ∈ s.mInfo, info.uuid = row.inRoute → info.form = row.form
  runs : ∀ row ∈ rows, row.inRoute ∈ s.mInfo.keys → row.inRoute ∈ s.mList.map InputInfo.uuid
  stays : ∀ as t bs, s.mList = as ++ t :: bs → t.uuid ∈ rows.map Row.inRoute →
    t.uuid ∈ s.mInfo.keys → s.Stays rows as t
  stops : ∀ as t bs, s.mList = as ++ t :: bs → t.uuid ∉ rows.map Row.inRoute → ¬s.Stays rows as t

/-! ## The threads -/

/-- A route has one thread, and one that is in `m_info` runs with what is there. -/
structure Threads (s : Streamer) : Prop where
  nodup : (s.mList.map InputInfo.uuid).Nodup
  known : ∀ t ∈ s.mList, t.uuid ∈ s.mInfo.keys → t ∈ s.mInfo

variable {s s' : Streamer} {info t : InputInfo} {env : AddEnv} {path : Path} {row : Row}
variable {uuid : String} {netInfo : Option NetInfo} {netStart netStop started : Bool}
variable {set : SortedSet InputInfo.uuid}

theorem getThreadByInfo_eq_none_iff :
    s.getThreadByInfo info = none ↔ info.uuid ∉ s.mList.map InputInfo.uuid := by
  simp [getThreadByInfo, List.find?_eq_none]

/-- After `addInfo` the route has the thread of the info, unless nothing is started any more. -/
theorem mem_mList_of_addInfo (hnodup : (s.mList.map InputInfo.uuid).Nodup)
    (h : s.addInfo info started = some s') :
    t ∈ s'.mList ↔ (t = info ∧ (s.stopped = false ∨ info.uuid ∈ s.mList.map InputInfo.uuid)) ∨
      t ∈ s.mList ∧ t.uuid ≠ info.uuid := by
  have hother : s.getThreadByInfo info = none → ∀ t ∈ s.mList, t.uuid ≠ info.uuid :=
    fun hfind t ht heq => getThreadByInfo_eq_none_iff.1 hfind (heq ▸ List.mem_map_of_mem ht)
  have hcases := addInfo_cases s info started
  rw [h] at hcases
  cases hcases with
  | updated t' hfind hprot =>
    have hmem : info.uuid ∈ s.mList.map InputInfo.uuid := by
      by_contra hnot
      cases hfind.symm.trans (getThreadByInfo_eq_none_iff.2 hnot)
    have huuid : t'.uuid = info.uuid := by simpa using List.find?_some hfind
    obtain ⟨as, bs, hlist, hreplace⟩ := replaceF_of_find? hfind
    dsimp only
    rw [hlist] at hnodup
    rw [hreplace, hlist]
    have hne : ∀ i ∈ as ++ bs, i.uuid ≠ info.uuid := by
      rw [List.map_append, List.map_cons] at hnodup
      have hnot := (List.nodup_cons.1 (List.nodup_middle.1 hnodup)).1
      rw [← List.map_append, huuid] at hnot
      exact fun i hi heq => hnot (heq ▸ List.mem_map_of_mem hi)
    simp only [List.mem_append, List.mem_cons]
    constructor
    · rintro (has | rfl | hbs)
      · exact .inr ⟨.inl has, hne t (List.mem_append_left bs has)⟩
      · exact .inl ⟨rfl, .inr (hlist ▸ hmem)⟩
      · exact .inr ⟨.inr (.inr hbs), hne t (List.mem_append_right as hbs)⟩
    · rintro (⟨rfl, -⟩ | ⟨has | rfl | hbs, hneq⟩)
      · exact .inr (.inl rfl)
      · exact .inl has
      · exact absurd huuid hneq
      · exact .inr (.inr hbs)
  | stopped hfind hpath hstopped =>
    have hnot := getThreadByInfo_eq_none_iff.1 hfind
    simp only [hstopped, hnot, Bool.true_eq_false, or_self, and_false, false_or]
    exact (and_iff_left_of_imp (hother hfind t)).symm
  | started hfind hpath hstopped hstart =>
    simp only [hstopped, List.mem_append, List.mem_singleton, true_or, and_true]
    rw [or_comm]
    exact or_congr_right (and_iff_left_of_imp (hother hfind t)).symm

theorem nodup_of_addInfo (hnodup : (s.mList.map InputInfo.uuid).Nodup)
    (h : s.addInfo info started = some s') : (s'.mList.map InputInfo.uuid).Nodup := by
  have hcases := addInfo_cases s info started
  rw [h] at hcases
  cases hcases with
  | updated t' hfind hprot =>
    have huuid : t'.uuid = info.uuid := by simpa using List.find?_some hfind
    obtain ⟨as, bs, hlist, hreplace⟩ := replaceF_of_find? hfind
    dsimp only
    rw [hlist, List.map_append, List.map_cons, huuid] at hnodup
    rwa [hreplace, List.map_append, List.map_cons]
  | stopped => exact hnodup
  | started hfind hpath hstopped hstart =>
    refine Keyed.Primary.append hnodup fun t ht heq => ?_
    exact getThreadByInfo_eq_none_iff.1 hfind (heq ▸ List.mem_map_of_mem ht)

theorem Threads.delInputInfo (h : s.Threads) : (s.delInputInfo info netStop).Threads := by
  have hsub : (s.mList.eraseP fun t => isRouteMatch info.path t.path).Sublist s.mList :=
    List.eraseP_sublist
  have hcases := delInputInfo_cases s info netStop
  generalize s.delInputInfo info netStop = s' at hcases ⊢
  cases hcases with
  | unknown => exact h
  | locked => exact ⟨h.nodup.sublist (hsub.map _), fun t ht => h.known t (hsub.mem ht)⟩
  | udp | tcpip =>
    refine ⟨h.nodup.sublist (hsub.map _), fun t ht hkeys => ?_⟩
    obtain ⟨hkeys, hne⟩ := SortedSet.mem_keys_erase.1 hkeys
    exact SortedSet.mem_erase.2 ⟨h.known t (hsub.mem ht) hkeys, hne⟩

theorem Threads.addInfo (h : s.Threads) (hnew : info.uuid ∉ s.mInfo.keys)
    (hadd : s.addInfo info started = some s') : s'.Threads := by
  refine ⟨nodup_of_addInfo h.nodup hadd, fun t ht hkeys => ?_⟩
  rw [eq_of_addInfo_eq_some hadd] at hkeys ⊢
  obtain ⟨rfl, -⟩ | ⟨ht, -⟩ := (mem_mList_of_addInfo h.nodup hadd).1 ht
  · exact absurd hkeys hnew
  · exact h.known t ht hkeys

theorem Threads.addInputInfo (h : s.Threads) (hnew : info.uuid ∉ s.mInfo.keys) :
    (s.addInputInfo info env).Threads := by
  have hcases := addInputInfo_cases s info env
  generalize s.addInputInfo info env = s' at hcases ⊢
  cases hcases with
  | threw => exact h.delInputInfo
  | added s' hadd helem =>
    have hadded := h.addInfo hnew hadd
    have hinfo : s'.mInfo = s.mInfo := by rw [eq_of_addInfo_eq_some hadd]
    refine ⟨hadded.nodup, fun t ht hkeys => ?_⟩
    have hmem : t ∈ s'.mInfo.insert info ↔ t = info ∨ t ∈ s'.mInfo :=
      SortedSet.mem_insert (hinfo ▸ hnew)
    obtain ⟨rfl, -⟩ | ⟨ht', hne⟩ := (mem_mList_of_addInfo h.nodup hadd).1 ht
    · exact hmem.2 (.inl rfl)
    · refine hmem.2 (.inr (hadded.known t ht ?_))
      exact (SortedSet.mem_keys_insert.1 hkeys).resolve_left hne
  | notAdded s' hadd helem => exact (h.addInfo hnew hadd).delInputInfo

/-- The inputs and their threads stay as they are. -/
structure SameInputs (s s' : Streamer) : Prop where
  mList : s'.mList = s.mList
  mInfo : s'.mInfo = s.mInfo
  stopped : s'.stopped = s.stopped

theorem SameInputs.trans {s'' : Streamer} (h : SameInputs s s') (h' : SameInputs s' s'') :
    SameInputs s s'' :=
  ⟨h'.mList.trans h.mList, h'.mInfo.trans h.mInfo, h'.stopped.trans h.stopped⟩

theorem sameInputs_getInputInfo (s : Streamer) (set : SortedSet InputInfo.uuid) (row : Row)
    (netInfo : Option NetInfo) (netStart : Bool) :
    SameInputs s (s.getInputInfo set row netInfo netStart).1 := by
  have hcases := getInputInfo_cases s set row netInfo netStart
  generalize s.getInputInfo set row netInfo netStart = res at hcases ⊢
  cases hcases <;> exact ⟨rfl, rfl, rfl⟩

theorem sameInputs_stopRoute {route : RouteInfo} (h : s.stopRoute route netStop = some s') :
    SameInputs s s' := by
  unfold stopRoute at h
  split at h
  · cases h
    exact ⟨rfl, rfl, rfl⟩
  · obtain ⟨-, h⟩ := Option.ite_none_right_eq_some.1 h
    cases h
    exact ⟨rfl, rfl, rfl⟩

theorem sameInputs_stopOutRoute (h : s.stopOutRoute netStop = some s') : SameInputs s s' := by
  unfold stopOutRoute at h
  split at h
  · cases h
    exact ⟨rfl, rfl, rfl⟩
  · exact sameInputs_stopRoute h

theorem sameInputs_setOutRoute (s : Streamer) (route : RouteInfo) (restarted : Bool) :
    SameInputs s (s.setOutRoute route restarted).1 := by
  unfold setOutRoute
  split_ifs <;> exact ⟨rfl, rfl, rfl⟩

theorem sameInputs_getRouteInfoByUUID (s : Streamer) (uuid : String) (netInfo : Option NetInfo)
    (netStart : Bool) : SameInputs s (s.getRouteInfoByUUID uuid netInfo netStart).1 := by
  have hcases := getRouteInfoByUUID_cases s uuid netInfo netStart
  generalize s.getRouteInfoByUUID uuid netInfo netStart = res at hcases ⊢
  cases hcases <;> exact ⟨rfl, rfl, rfl⟩

theorem sameInputs_processOutRoute (s : Streamer) (uuid : String) (env : OutEnv) :
    SameInputs s (s.processOutRoute uuid env).1 := by
  have hroute := sameInputs_getRouteInfoByUUID s uuid env.netInfo env.netStart
  unfold processOutRoute
  split_ifs
  · exact ⟨rfl, rfl, rfl⟩
  · exact ⟨rfl, rfl, rfl⟩
  · split
    case h_1 s' hs =>
      rw [hs] at hroute
      exact hroute
    case h_2 s' route hs =>
      rw [hs] at hroute
      split
      case h_1 => exact hroute
      case h_2 s'' hs' =>
        have hstop := hroute.trans (sameInputs_stopOutRoute hs')
        exact hstop.trans (sameInputs_setOutRoute s'' route env.restarted)

theorem Threads.of_same (h : s.Threads) (hsame : SameInputs s s') : s'.Threads := by
  refine ⟨hsame.mList ▸ h.nodup, fun t ht hkeys => ?_⟩
  rw [hsame.mList] at ht
  rw [hsame.mInfo] at hkeys ⊢
  exact h.known t ht hkeys

theorem stopped_delInputInfo : (s.delInputInfo info netStop).stopped = s.stopped := by
  have hcases := delInputInfo_cases s info netStop
  generalize s.delInputInfo info netStop = s' at hcases ⊢
  cases hcases <;> rfl

theorem stopped_addInputInfo : (s.addInputInfo info env).stopped = s.stopped := by
  have hcases := addInputInfo_cases s info env
  generalize s.addInputInfo info env = s' at hcases ⊢
  cases hcases with
  | threw => exact stopped_delInputInfo
  | added s' hadd helem => rw [eq_of_addInfo_eq_some hadd]
  | notAdded s' hadd helem => rw [stopped_delInputInfo, eq_of_addInfo_eq_some hadd]

end Streamer

variable {u u' : Update} {a : Action} {acts : List Action}

theorem threads_step (hI : Inv u ∧ u.streamer.Threads) (h : step u a = some u') :
    Inv u' ∧ u'.streamer.Threads := by
  refine ⟨inv_step hI.1 h, ?_⟩
  have hT := hI.2
  cases step_cases h with
  | noOutRoute | rowsFailed | rowsRead | deleted | added => exact hT
  | stop => exact ⟨hT.nodup, hT.known⟩
  | outRoute | outRouteFailed => exact hT.of_same (Streamer.sameInputs_processOutRoute ..)
  | row => exact hT.of_same (Streamer.sameInputs_getInputInfo ..)
  | delInputInfo => exact hT.delInputInfo
  | addInputInfo info todo env hpc =>
    exact hT.addInputInfo ((hI.1.of_adds hpc).2 info List.mem_cons_self)

/-- Nothing starts again after `Factory::stop`. -/
theorem stopped_of_exec (h : exec step u acts = some u') :
    u'.streamer.stopped = true ↔ u.streamer.stopped = true ∨ .stop ∈ acts := by
  induction acts generalizing u with
  | nil =>
    cases h
    simp
  | cons a acts ih =>
    obtain ⟨t, ht, hacts⟩ := exec_cons_eq_some_iff.1 h
    rw [ih hacts, List.mem_cons]
    have hstep : t.streamer.stopped = true ↔ u.streamer.stopped = true ∨ .stop = a := by
      cases step_cases ht with
      | stop => simp
      | noOutRoute | rowsFailed | rowsRead | deleted | added => simp
      | outRoute uuid env | outRouteFailed uuid env =>
        simp [(Streamer.sameInputs_processOutRoute u.streamer uuid env).stopped]
      | row => simp [(Streamer.sameInputs_getInputInfo ..).stopped]
      | delInputInfo => simp [Streamer.stopped_delInputInfo]
      | addInputInfo => simp [Streamer.stopped_addInputInfo]
    rw [hstep, or_assoc]

/-! ## Steps that do not fail -/

/-- The rows that are read. -/
def rowsOf (acts : List Action) : List Row :=
  acts.filterMap fun
    | .row row _ _ => some row
    | _ => none

/-- Nothing is thrown in the step. -/
def Succeeds (u : Update) : Action → Prop
  | .row row netInfo netStart =>
    (u.streamer.getInfoByUUID row.inRoute).isSome ∨
      ((u.streamer.getRouteInfoByUUID row.inRoute netInfo netStart).2.bind row.toInputInfo).isSome
  | .rowsFailed => False
  | .delInputInfo netStop => ∀ info todo current, u.pc = .dels (info :: todo) current →
      ((u.streamer.delInfo info).bind (·.stopRoute info.route netStop)).isSome
  | .addInputInfo env => ∀ info todo, u.pc = .adds (info :: todo) →
      ¬Streamer.AddFails u.streamer info env
  | _ => True

namespace Streamer

variable {s s' : Streamer} {info t : InputInfo} {env : AddEnv} {row : Row} {route : RouteInfo}
variable {uuid : String} {netInfo : Option NetInfo} {netStart netStop started : Bool}

theorem uuid_of_getRouteInfoByUUID
    (h : (s.getRouteInfoByUUID uuid netInfo netStart).2 = some route) : route.uuid = uuid := by
  have hcases := getRouteInfoByUUID_cases s uuid netInfo netStart
  generalize s.getRouteInfoByUUID uuid netInfo netStart = res at hcases h
  cases hcases with
  | threw => cases h
  | udp | tcpip =>
    cases h
    rfl

theorem form_of_toInputInfo (h : row.toInputInfo route = some info)
    (huuid : route.uuid = row.inRoute) : info.form = row.form := by
  unfold Row.toInputInfo at h
  split at h
  · cases h
  · cases h
    simp [InputInfo.form, InputInfo.uuid, Row.form, huuid]

/-- A row that is read gives an input of its route, and a new one is as the row says. -/
theorem getInputInfo_of_succeeds (set : SortedSet InputInfo.uuid)
    (h : (s.getInfoByUUID row.inRoute).isSome ∨
      ((s.getRouteInfoByUUID row.inRoute netInfo netStart).2.bind row.toInputInfo).isSome) :
    ∃ info, (s.getInputInfo set row netInfo netStart).2 = set.insert info ∧
      info.uuid = row.inRoute ∧ (info.uuid ∉ s.mInfo.keys → info.form = row.form) := by
  unfold getInputInfo
  cases hfind : s.getInfoByUUID row.inRoute with
  | some info =>
    have hmem := mem_of_getInfoByUUID_eq_some hfind
    refine ⟨info, rfl, ?_, fun hnew => absurd (SortedSet.mem_keys.2 ⟨info, hmem, rfl⟩) hnew⟩
    unfold getInfoByUUID at hfind
    obtain ⟨-, hfind⟩ := Option.ite_none_left_eq_some.1 hfind
    exact (SortedSet.find_eq_some_iff.1 hfind).2
  | none =>
    obtain ⟨info, hinfo⟩ := Option.isSome_iff_exists.1 (h.resolve_left (by simp [hfind]))
    obtain ⟨route, hroute, hrow⟩ := Option.bind_eq_some_iff.1 hinfo
    have hform := form_of_toInputInfo hrow (uuid_of_getRouteInfoByUUID hroute)
    refine ⟨info, ?_, congrArg Form.uuid hform, fun _ => hform⟩
    dsimp only
    split
    case h_1 hnone =>
      rw [hnone] at hroute
      cases hroute
    case h_2 hsome =>
      rw [hsome] at hroute
      cases hroute
      rw [hrow]

/-- A deletion takes the first thread with the path of the input. -/
theorem delInputInfo_of_succeeds
    (h : ((s.delInfo info).bind (·.stopRoute info.route netStop)).isSome) :
    (s.delInputInfo info netStop).mInfo = s.mInfo.erase info.uuid ∧
      (s.delInputInfo info netStop).mList = s.mList.eraseP fun t => t.key = info.key := by
  obtain ⟨s'', hs''⟩ := Option.isSome_iff_exists.1 h
  obtain ⟨s', hdel, hstop⟩ := Option.bind_eq_some_iff.1 hs''
  unfold delInputInfo
  rw [hdel]
  dsimp only
  rw [hstop]
  unfold delInfo at hdel
  obtain ⟨hpath, hdel⟩ := Option.ite_none_right_eq_some.1 hdel
  cases hdel
  obtain ⟨hlist, hinfo, -⟩ := sameInputs_stopRoute hstop
  obtain ⟨t, -, hmatch⟩ := isSome_getThreadByPath_iff.1 hpath
  have hne : trimPath info.path ≠ [] := fun htrim =>
    isRouteMatch_of_trimPath_eq_nil htrim hmatch
  have hkey : (fun t : InputInfo => isRouteMatch info.path t.path) =
      fun t => decide (t.key = info.key) := by
    funext t
    rw [isRouteMatch, InputInfo.key, InputInfo.key]
    by_cases heq : trimPath t.path = trimPath info.path
    · simp [heq, hne]
    · simp [heq, Ne.symm heq]
  exact ⟨congrArg (·.erase info.uuid) hinfo, hlist.trans (by rw [hkey])⟩

theorem addInputInfo_of_succeeds (h : ¬AddFails s info env) :
    ∃ s', s.addInfo info env.started = some s' ∧
      s.addInputInfo info env = { s' with mInfo := s'.mInfo.insert info } := by
  obtain ⟨hadd, helem⟩ := not_or.1 h
  obtain ⟨s', hs'⟩ := Option.ne_none_iff_exists'.1 hadd
  refine ⟨s', hs', ?_⟩
  unfold addInputInfo
  rw [hs']
  exact if_pos (by simpa using helem)

end Streamer

/-! ## The passes of an update -/

section

variable {set current : SortedSet InputInfo.uuid} {todo : List InputInfo}

/-- What is left of an update goes on to its end, and nothing fails. -/
structure Completes (u : Update) (acts : List Action) (u' : Update) : Prop where
  steps : exec step u acts = some u'
  done : u'.pc = .adds []
  once : .added ∉ acts
  succeeds : EachStep step Succeeds u acts

theorem Completes.of_cons (h : Completes u (a :: acts) u') : ∃ t, step u a = some t ∧
    a ≠ .added ∧ Succeeds u a ∧ Completes t acts u' := by
  obtain ⟨t, ht, hacts⟩ := exec_cons_eq_some_iff.1 h.steps
  obtain ⟨hok, hoks⟩ := h.succeeds t ht
  refine ⟨t, ht, fun heq => h.once (heq ▸ List.mem_cons_self), hok, hacts, h.done, ?_, hoks⟩
  exact fun hmem => h.once (List.mem_cons_of_mem a hmem)

/-- The additions start the threads of the new inputs, and leave the other ones. -/
theorem mem_mList_of_adds (h : Completes u acts u') (hI : Inv u ∧ u.streamer.Threads)
    (hpc : u.pc = .adds todo) (hstop : u'.streamer.stopped = false) :
    rowsOf acts = [] ∧ ∀ t, t ∈ u'.streamer.mList ↔
      t ∈ todo ∨ t ∈ u.streamer.mList ∧ t.uuid ∉ todo.map InputInfo.uuid := by
  induction acts generalizing u todo with
  | nil =>
    cases h.steps
    cases hpc.symm.trans h.done
    exact ⟨rfl, by simp⟩
  | cons a acts ih =>
    obtain ⟨t, ht, hadded, hok, hrest⟩ := h.of_cons
    have hI' := threads_step hI ht
    cases step_cases ht with
    | noOutRoute _ hpc' | outRoute _ _ hpc' | outRouteFailed _ _ hpc' | row _ _ _ _ hpc'
    | rowsFailed _ hpc' | rowsRead _ hpc' | delInputInfo _ _ _ _ hpc' | deleted _ hpc' =>
      cases hpc.symm.trans hpc'
    | added => exact absurd rfl hadded
    | stop =>
      have hmem := ih hrest hI' hpc
      exact hmem
    | addInputInfo info todo' env hpc' =>
      cases hpc.symm.trans hpc'
      obtain ⟨s', hadd, hinput⟩ := Streamer.addInputInfo_of_succeeds (hok info todo' hpc)
      have hruns : u.streamer.stopped = false := by
        by_contra hstopped
        have hstopped' := (stopped_of_exec h.steps).2 (.inl (by simpa using hstopped))
        cases hstop.symm.trans hstopped'
      have hlist : ∀ t, t ∈ (u.streamer.addInputInfo info env).mList ↔
          t = info ∨ t ∈ u.streamer.mList ∧ t.uuid ≠ info.uuid := by
        intro t
        rw [hinput, Streamer.mem_mList_of_addInfo hI.2.nodup hadd]
        simp [hruns]
      obtain ⟨hrows, hmem⟩ := ih hrest hI' rfl
      refine ⟨hrows, fun t => ?_⟩
      have hnew := (List.nodup_cons.1 (hI.1.of_adds hpc).1).1
      rw [hmem, hlist, List.mem_cons, List.map_cons, List.mem_cons, not_or, and_assoc.symm]
      constructor
      · rintro (htodo | ⟨rfl | hold, hne⟩)
        · exact .inl (.inr htodo)
        · exact .inl (.inl rfl)
        · exact .inr ⟨hold, hne⟩
      · rintro ((rfl | htodo) | ⟨hold, hne⟩)
        · exact .inr ⟨.inl rfl, hnew⟩
        · exact .inl htodo
        · exact .inr ⟨.inr hold, hne⟩

/-- The deletions take the first threads with the paths of the deleted inputs. -/
theorem mem_mList_of_dels (h : Completes u acts u') (hI : Inv u ∧ u.streamer.Threads)
    (hpc : u.pc = .dels todo current) (hgone : ∀ i ∈ todo, i.uuid ∉ current.keys)
    (hstop : u'.streamer.stopped = false) :
    rowsOf acts = [] ∧ ∀ t, t ∈ u'.streamer.mList ↔
      (t ∈ current ∧ t.uuid ∉ u.streamer.mInfo.keys) ∨
        t ∈ Keyed.eraseFirsts InputInfo.key (todo.map InputInfo.key) u.streamer.mList ∧
          (t.uuid ∈ current.keys → t.uuid ∈ u.streamer.mInfo.keys) := by
  induction acts generalizing u todo with
  | nil =>
    cases h.steps
    cases hpc.symm.trans h.done
  | cons a acts ih =>
    obtain ⟨t, ht, hadded, hok, hrest⟩ := h.of_cons
    have hI' := threads_step hI ht
    cases step_cases ht with
    | noOutRoute _ hpc' | outRoute _ _ hpc' | outRouteFailed _ _ hpc' | row _ _ _ _ hpc'
    | rowsFailed _ hpc' | rowsRead _ hpc' | addInputInfo _ _ _ hpc' => cases hpc.symm.trans hpc'
    | added => exact absurd rfl hadded
    | stop =>
      have hmem := ih hrest hI' hpc hgone
      exact hmem
    | deleted current' hpc' =>
      cases hpc.symm.trans hpc'
      obtain ⟨hrows, hmem⟩ := mem_mList_of_adds hrest hI' rfl hstop
      refine ⟨hrows, fun t => ?_⟩
      have hnew : t ∈ (current.difference u.streamer.mInfo).elems ↔
          t ∈ current ∧ t.uuid ∉ u.streamer.mInfo.keys := SortedSet.mem_difference
      have hkeys : t.uuid ∉ (current.difference u.streamer.mInfo).elems.map InputInfo.uuid ↔
          (t.uuid ∈ current.keys → t.uuid ∈ u.streamer.mInfo.keys) := by
        have hdiff :=
          SortedSet.mem_keys_difference (s := current) (t := u.streamer.mInfo) (k := t.uuid)
        exact (not_congr hdiff).trans (by simp)
      rw [hmem, hnew, hkeys]
      rfl
    | delInputInfo info todo' current' netStop hpc' =>
      cases hpc.symm.trans hpc'
      obtain ⟨hinfo, hlist⟩ := Streamer.delInputInfo_of_succeeds (hok info todo' current hpc)
      obtain ⟨hinfogone, hgone'⟩ := List.forall_mem_cons.1 hgone
      obtain ⟨hrows, hmem⟩ := ih hrest hI' rfl hgone'
      refine ⟨hrows, fun t => ?_⟩
      have hkeys : t.uuid ∈ current.keys →
          (t.uuid ∈ (u.streamer.mInfo.erase info.uuid).keys ↔ t.uuid ∈ u.streamer.mInfo.keys) := by
        intro hcur
        rw [SortedSet.mem_keys_erase]
        exact and_iff_left fun heq => hinfogone (heq ▸ hcur)
      rw [hmem, hinfo, hlist, List.map_cons, Keyed.eraseFirsts_cons]
      refine or_congr (and_congr_right fun ht => ?_) (and_congr_right fun _ => ?_)
      · exact not_congr (hkeys (SortedSet.mem_keys.2 ⟨t, ht, rfl⟩))
      · exact forall_congr' hkeys

/-- The rows make the set that the passes compare with `m_info`. -/
theorem mem_mList_of_rows (h : Completes u acts u') (hI : Inv u ∧ u.streamer.Threads)
    (hpc : u.pc = .rows set) (hstop : u'.streamer.stopped = false) :
    ∃ current : SortedSet InputInfo.uuid,
      (∀ uuid, uuid ∈ current.keys ↔ uuid ∈ set.keys ∨ uuid ∈ (rowsOf acts).map Row.inRoute) ∧
      (∀ i ∈ current, i.uuid ∉ u.streamer.mInfo.keys →
        i ∈ set ∨ i.form ∈ (rowsOf acts).map Row.form) ∧
      ∀ t, t ∈ u'.streamer.mList ↔
        (t ∈ current ∧ t.uuid ∉ u.streamer.mInfo.keys) ∨
          t ∈ Keyed.eraseFirsts InputInfo.key
              ((u.streamer.mInfo.difference current).elems.map InputInfo.key) u.streamer.mList ∧
            (t.uuid ∈ current.keys → t.uuid ∈ u.streamer.mInfo.keys) := by
  induction acts generalizing u set with
  | nil =>
    cases h.steps
    cases hpc.symm.trans h.done
  | cons a acts ih =>
    obtain ⟨t, ht, hadded, hok, hrest⟩ := h.of_cons
    have hI' := threads_step hI ht
    cases step_cases ht with
    | noOutRoute _ hpc' | outRoute _ _ hpc' | outRouteFailed _ _ hpc' | deleted _ hpc'
    | delInputInfo _ _ _ _ hpc' | addInputInfo _ _ _ hpc' => cases hpc.symm.trans hpc'
    | added => exact absurd rfl hadded
    | rowsFailed => exact absurd hok id
    | stop =>
      have hmem := ih hrest hI' hpc
      exact hmem
    | rowsRead set' hpc' =>
      cases hpc.symm.trans hpc'
      obtain ⟨hrows, hmem⟩ := mem_mList_of_dels hrest hI' rfl
        (fun i hi => (SortedSet.mem_difference.1 hi).2) hstop
      have hrows' : rowsOf (.rowsRead :: acts) = [] := hrows
      refine ⟨set, fun uuid => ?_, fun i hi _ => .inl hi, hmem⟩
      simp [hrows']
    | row set' row netInfo netStart hpc' =>
      cases hpc.symm.trans hpc'
      obtain ⟨info, hset, huuid, hform⟩ := Streamer.getInputInfo_of_succeeds set hok
      obtain ⟨hlist, hinfo, -⟩ :=
        Streamer.sameInputs_getInputInfo u.streamer set row netInfo netStart
      obtain ⟨current, hkeys, hnew, hmem⟩ := ih hrest hI' rfl
      rw [hset] at hkeys hnew
      rw [hinfo] at hnew hmem
      rw [hlist] at hmem
      have hrows : rowsOf (.row row netInfo netStart :: acts) = row :: rowsOf acts := rfl
      refine ⟨current, fun uuid => ?_, fun i hi hnot => ?_, hmem⟩
      · rw [hkeys, SortedSet.mem_keys_insert, hrows, List.map_cons, List.mem_cons, huuid]
        exact or_assoc.trans or_left_comm
      · rw [hrows, List.map_cons, List.mem_cons]
        obtain hi' | hi' := hnew i hi hnot
        · obtain rfl | hi' := SortedSet.mem_of_mem_insert hi'
          · exact .inr (.inl (hform hnot))
          · exact .inl hi'
        · exact .inr (.inr hi')

end

/-! ## Convergence -/

namespace Streamer

variable {s : Streamer} {rows : List Row} {current : SortedSet InputInfo.uuid}
variable {as bs l : List InputInfo} {t t' : InputInfo}

theorem Threads.eq_of_uuid_eq (h : s.Threads) (ht : t ∈ s.mList) (ht' : t' ∈ s.mList)
    (huuid : t.uuid = t'.uuid) : t = t' := List.inj_on_of_nodup_map h.nodup ht ht' huuid

/-- The inputs to delete are those without a row. -/
theorem difference_perm_gone (hkeys : ∀ uuid, uuid ∈ current.keys ↔ uuid ∈ rows.map Row.inRoute) :
    (s.mInfo.difference current).elems.Perm (s.gone rows) := by
  refine (List.perm_ext_iff_of_nodup ?_ ?_).2 fun i => ?_
  · exact (s.mInfo.difference current).nodup_keys.of_map
  · exact (List.Nodup.of_map _ s.mInfo.nodup_keys).filter _
  · rw [gone, List.mem_filter, decide_eq_true_iff, ← hkeys]
    exact SortedSet.mem_difference

/-- The threads at the end are the new inputs and those that the deletions have left. -/
structure Passes (s : Streamer) (rows : List Row) (current : SortedSet InputInfo.uuid)
    (l : List InputInfo) : Prop where
  keys : ∀ uuid, uuid ∈ current.keys ↔ uuid ∈ rows.map Row.inRoute
  new : ∀ i ∈ current, i.uuid ∉ s.mInfo.keys → i.form ∈ rows.map Row.form
  threads : ∀ t, t ∈ l ↔ (t ∈ current ∧ t.uuid ∉ s.mInfo.keys) ∨
    t ∈ Keyed.eraseFirsts InputInfo.key
        ((s.mInfo.difference current).elems.map InputInfo.key) s.mList ∧
      (t.uuid ∈ current.keys → t.uuid ∈ s.mInfo.keys)

namespace Passes

theorem mem_eraseFirsts_iff (h : Passes s rows current l) (hT : s.Threads)
    (hlist : s.mList = as ++ t :: bs) :
    t ∈ Keyed.eraseFirsts InputInfo.key
        ((s.mInfo.difference current).elems.map InputInfo.key) s.mList ↔ s.Stays rows as t := by
  have hnodup : (as ++ t :: bs).Nodup := List.Nodup.of_map _ (hlist ▸ hT.nodup)
  rw [hlist, Keyed.mem_eraseFirsts_iff hnodup, List.countP_map,
    (difference_perm_gone h.keys).countP_eq]
  rfl

/-- A thread of a known route that the deletions have left. -/
theorem mem_iff_of_mem_keys (h : Passes s rows current l) (hkey : t.uuid ∈ s.mInfo.keys) :
    t ∈ l ↔ t ∈ Keyed.eraseFirsts InputInfo.key
      ((s.mInfo.difference current).elems.map InputInfo.key) s.mList := by
  rw [h.threads]
  constructor
  · rintro (⟨-, hnot⟩ | ⟨hleft, -⟩)
    · exact absurd hkey hnot
    · exact hleft
  · exact fun hleft => .inr ⟨hleft, fun _ => hkey⟩

theorem eq_of_mem (h : Passes s rows current l) (hT : s.Threads) (ht : t ∈ l) (ht' : t' ∈ l)
    (hrow : t.uuid ∈ rows.map Row.inRoute) (huuid : t.uuid = t'.uuid) : t = t' := by
  by_cases hkey : t.uuid ∈ s.mInfo.keys
  · have hleft := (h.mem_iff_of_mem_keys hkey).1 ht
    have hleft' := (h.mem_iff_of_mem_keys (huuid ▸ hkey)).1 ht'
    exact hT.eq_of_uuid_eq (Keyed.eraseFirsts_subset hleft) (Keyed.eraseFirsts_subset hleft') huuid
  · have hcurrent : ∀ i ∈ l, i.uuid = t.uuid → i ∈ current := by
      intro i hi hi'
      obtain ⟨hcur, -⟩ | ⟨-, himp⟩ := (h.threads i).1 hi
      · exact hcur
      · exact absurd (hi' ▸ himp ((h.keys i.uuid).2 (hi' ▸ hrow))) hkey
    exact SortedSet.eq_of_key_eq (hcurrent t ht rfl) (hcurrent t' ht' huuid.symm) huuid

theorem settled (h : Passes s rows current l) (hT : s.Threads)
    (hforms : ∀ form, form ∈ l.map InputInfo.form ↔ form ∈ rows.map Row.form) :
    s.Settled rows := by
  have hthread : ∀ row ∈ rows, ∃ t ∈ l, t.form = row.form := fun row hrow =>
    List.mem_map.1 ((hforms row.form).2 (List.mem_map_of_mem hrow))
  -- the thread of a known row has been there before
  have hold : ∀ row ∈ rows, ∀ t ∈ l, t.form = row.form → row.inRoute ∈ s.mInfo.keys →
      t ∈ Keyed.eraseFirsts InputInfo.key
        ((s.mInfo.difference current).elems.map InputInfo.key) s.mList := by
    intro row hrow t ht hform hkey
    have huuid : t.uuid = row.inRoute := congrArg Form.uuid hform
    exact (h.mem_iff_of_mem_keys (huuid ▸ hkey)).1 ht
  constructor
  case unique =>
    intro row hrow row' hrow' heq
    obtain ⟨t, ht, hform⟩ := hthread row hrow
    obtain ⟨t', ht', hform'⟩ := hthread row' hrow'
    have huuid : t.uuid = row.inRoute := congrArg Form.uuid hform
    have huuid' : t'.uuid = row'.inRoute := congrArg Form.uuid hform'
    have hmem : t.uuid ∈ rows.map Row.inRoute := huuid ▸ List.mem_map_of_mem hrow
    have hsame := h.eq_of_mem hT ht ht' hmem (huuid.trans (heq.trans huuid'.symm))
    rw [← hform, ← hform', hsame]
  case known =>
    intro row hrow info hinfo huuid
    obtain ⟨t, ht, hform⟩ := hthread row hrow
    have hkey : row.inRoute ∈ s.mInfo.keys := SortedSet.mem_keys.2 ⟨info, hinfo, huuid⟩
    have htuuid : t.uuid = row.inRoute := congrArg Form.uuid hform
    have ht' := Keyed.eraseFirsts_subset (hold row hrow t ht hform hkey)
    have htinfo := hT.known t ht' (htuuid ▸ hkey)
    exact SortedSet.eq_of_key_eq hinfo htinfo (huuid.trans htuuid.symm) ▸ hform
  case runs =>
    intro row hrow hkey
    obtain ⟨t, ht, hform⟩ := hthread row hrow
    have ht' := Keyed.eraseFirsts_subset (hold row hrow t ht hform hkey)
    exact List.mem_map.2 ⟨t, ht', congrArg Form.uuid hform⟩
  case stays =>
    intro as t bs hlist hrow hkey
    obtain ⟨row, hrow, hinRoute⟩ := List.mem_map.1 hrow
    obtain ⟨t', ht', hform⟩ := hthread row hrow
    have huuid : t'.uuid = t.uuid := (congrArg Form.uuid hform).trans hinRoute
    have hleft := hold row hrow t' ht' hform (hinRoute ▸ hkey)
    have hsame := hT.eq_of_uuid_eq (Keyed.eraseFirsts_subset hleft) (by simp [hlist]) huuid
    exact (h.mem_eraseFirsts_iff hT hlist).1 (hsame ▸ hleft)
  case stops =>
    intro as t bs hlist hrow hstays
    have hleft := (h.mem_eraseFirsts_iff hT hlist).2 hstays
    have hmem : t ∈ l :=
      (h.threads t).2 (.inr ⟨hleft, fun hcur => absurd ((h.keys t.uuid).1 hcur) hrow⟩)
    obtain ⟨row, hrow', hform⟩ := List.mem_map.1 ((hforms t.form).1 (List.mem_map_of_mem hmem))
    exact hrow (List.mem_map.2 ⟨row, hrow', congrArg Form.uuid hform⟩)

theorem mem_rows (h : Passes s rows current l) (hT : s.Threads) (hs : s.Settled rows)
    (ht : t ∈ l) : t.form ∈ rows.map Row.form := by
  obtain ⟨hcur, hnot⟩ | ⟨hleft, himp⟩ := (h.threads t).1 ht
  · exact h.new t hcur hnot
  · have hmem := Keyed.eraseFirsts_subset hleft
    obtain ⟨as, bs, hlist⟩ := List.append_of_mem hmem
    have hstays := (h.mem_eraseFirsts_iff hT hlist).1 hleft
    have hrow : t.uuid ∈ rows.map Row.inRoute :=
      by_contra fun hnot => hs.stops as t bs hlist hnot hstays
    have hinfo := hT.known t hmem (himp ((h.keys t.uuid).2 hrow))
    obtain ⟨row, hrow, hinRoute⟩ := List.mem_map.1 hrow
    exact List.mem_map.2 ⟨row, hrow, (hs.known row hrow t hinfo hinRoute.symm).symm⟩

theorem mem_forms {row : Row} (h : Passes s rows current l) (hT : s.Threads) (hs : s.Settled rows)
    (hrow : row ∈ rows) : row.form ∈ l.map InputInfo.form := by
  by_cases hkey : row.inRoute ∈ s.mInfo.keys
  · obtain ⟨t, ht, huuid⟩ := List.mem_map.1 (hs.runs row hrow hkey)
    obtain ⟨as, bs, hlist⟩ := List.append_of_mem ht
    have hrow' : t.uuid ∈ rows.map Row.inRoute := huuid ▸ List.mem_map_of_mem hrow
    have hstays := hs.stays as t bs hlist hrow' (huuid ▸ hkey)
    have hleft := (h.mem_eraseFirsts_iff hT hlist).2 hstays
    have hinfo := hT.known t ht (huuid ▸ hkey)
    have hmem := (h.mem_iff_of_mem_keys (huuid ▸ hkey)).2 hleft
    exact List.mem_map.2 ⟨t, hmem, hs.known row hrow t hinfo huuid⟩
  · have hcur := (h.keys row.inRoute).2 (List.mem_map_of_mem hrow)
    obtain ⟨i, hi, huuid⟩ := SortedSet.mem_keys.1 hcur
    have hnot : i.uuid ∉ s.mInfo.keys := huuid ▸ hkey
    obtain ⟨row', hrow', hform'⟩ := List.mem_map.1 (h.new i hi hnot)
    refine List.mem_map.2 ⟨i, (h.threads i).2 (.inl ⟨hi, hnot⟩), hform'.symm.trans ?_⟩
    exact hs.unique row' hrow' row hrow ((congrArg Form.uuid hform').trans huuid)

theorem forms_iff (h : Passes s rows current l) (hT : s.Threads) :
    (∀ form, form ∈ l.map InputInfo.form ↔ form ∈ rows.map Row.form) ↔ s.Settled rows := by
  refine ⟨h.settled hT, fun hs form => ⟨fun hform => ?_, fun hform => ?_⟩⟩
  · obtain ⟨t, ht, rfl⟩ := List.mem_map.1 hform
    exact h.mem_rows hT hs ht
  · obtain ⟨row, hrow, rfl⟩ := List.mem_map.1 hform
    exact h.mem_forms hT hs hrow

end Passes

end Streamer

open Streamer

/-- After an update of which no step fails the running inputs are those of the rows exactly if the
state before it was settled for these; after a stop, only if there are no rows. -/
theorem converged_iff {before : List Action} (hbefore : exec step {} before = some u)
    (hpc : u.pc = .rows {}) (h : Completes u acts u') :
    u'.streamer.Converged (rowsOf acts) ↔
      if u.streamer.stopped = true ∨ .stop ∈ acts then rowsOf acts = []
      else u.streamer.Settled (rowsOf acts) := by
  have hstart : Inv {} ∧ ({} : Update).streamer.Threads :=
    ⟨trivial, List.nodup_nil, fun _ ht => nomatch ht⟩
  have hI : Inv u ∧ u.streamer.Threads :=
    exec_induction (I := fun u => Inv u ∧ u.streamer.Threads) threads_step hstart hbefore
  unfold Converged running
  by_cases hstop : u'.streamer.stopped = true
  · rw [if_pos hstop, if_pos ((stopped_of_exec h.steps).1 hstop)]
    constructor
    · intro hforms
      apply List.map_eq_nil_iff.1
      exact List.eq_nil_iff_forall_not_mem.2 fun form hform => nomatch (hforms form).2 hform
    · intro hrows form
      simp [hrows]
  · rw [if_neg hstop, if_neg fun hstopped => hstop ((stopped_of_exec h.steps).2 hstopped)]
    obtain ⟨current, hkeys, hnew, hmem⟩ := mem_mList_of_rows h hI hpc (by simpa using hstop)
    have hpasses : u.streamer.Passes (rowsOf acts) current u'.streamer.mList :=
      ⟨fun uuid => (hkeys uuid).trans (or_iff_right List.not_mem_nil),
        fun i hi hnot => (hnew i hi hnot).resolve_left List.not_mem_nil, hmem⟩
    exact hpasses.forms_iff hI.2

/-! ## Two updates -/

/-- The beginning of an update, with a TCP route for the output. -/
def beginUpdate : Action :=
  .processOutRoute (some "out")
    { netInfo := some { name := "out", host := "127.0.0.1", type := .unicast, port := some 8080,
                        protocol := .tcpip }
      netStart := true, netStop := true, restarted := true }

/-- The row of one input. -/
def inputRow (path : Path) : Row :=
  { inRoute := "in", outPath := path, name := "FLV", uuid := "flv" }

/-- The row of an input is read. -/
def readInput (uuid : String) (path : Path) : Action :=
  .row { inputRow path with inRoute := uuid }
    (some { name := uuid, host := "127.0.0.1", type := .unicast, port := some 5001,
            protocol := .tcpip }) true

def addInput : Action := .addInputInfo ⟨true, true, true⟩

/-- An update starts two inputs, and another one begins. -/
def twoInputs : List Action :=
  [beginUpdate, readInput "a" ['/', 'a'], readInput "b" ['/', 'b'], .rowsRead, .deleted, addInput,
    addInput, .added, beginUpdate]

/-- It stops the first one of them and starts a third one. -/
def otherInputs : List Action :=
  [readInput "b" ['/', 'b'], readInput "c" ['/', 'c'], .rowsRead, .delInputInfo true, .deleted,
    addInput]

theorem otherInputs_completes : ∃ u u' a b, exec step {} twoInputs = some u ∧ u.pc = .rows {} ∧
    u.streamer.stopped = false ∧ u.streamer.mList = [a, b] ∧ u.streamer.mInfo.elems = [a, b] ∧
    a.form = ⟨"a", ['/', 'a'], "flv"⟩ ∧ b.form = ⟨"b", ['/', 'b'], "flv"⟩ ∧
    Completes u otherInputs u' ∧
    u'.streamer.running.map InputInfo.form =
      [⟨"b", ['/', 'b'], "flv"⟩, ⟨"c", ['/', 'c'], "flv"⟩] := by
  refine ⟨_, _, _, _, rfl, rfl, rfl, rfl, rfl, rfl, rfl, ⟨rfl, rfl, by decide, ?_⟩, by decide⟩
  refine .cons rfl (.inl rfl) (.cons rfl (.inr rfl) (.cons rfl trivial (.cons rfl ?_
    (.cons rfl trivial (.cons rfl ?_ trivial)))))
  · rintro info todo current ⟨⟩
    rfl
  · intro info todo hpc hfails
    cases hpc
    obtain hadd | helem := hfails
    · cases hadd
    · cases helem

/-- The thread of the first input is the one that is stopped. -/
theorem settled_otherInputs {s : Streamer} {a b : InputInfo} (hlist : s.mList = [a, b])
    (hinfo : s.mInfo.elems = [a, b]) (ha : a.form = ⟨"a", ['/', 'a'], "flv"⟩)
    (hb : b.form = ⟨"b", ['/', 'b'], "flv"⟩) : s.Settled (rowsOf otherInputs) := by
  obtain ⟨hauuid, hapath, -⟩ := Form.mk.inj ha
  obtain ⟨hbuuid, hbpath, -⟩ := Form.mk.inj hb
  have hrows : (rowsOf otherInputs).map Row.inRoute = ["b", "c"] := rfl
  have hgone : s.gone (rowsOf otherInputs) = [a] := by
    rw [gone, hinfo, hrows]
    simp [hauuid, hbuuid]
  have hkey : a.key ≠ b.key := by
    rw [InputInfo.key, InputInfo.key, hapath, hbpath]
    decide
  have hsplit : ∀ as t bs, s.mList = as ++ t :: bs → as = [] ∧ t = a ∨ as = [a] ∧ t = b := by
    intro as t bs h
    rw [hlist] at h
    match as with
    | [] => exact .inl ⟨rfl, (List.cons.inj h).1.symm⟩
    | [x] =>
      obtain ⟨hx, htail⟩ := List.cons.inj h
      exact .inr ⟨by rw [hx], (List.cons.inj htail).1.symm⟩
    | x :: y :: as => simp at h
  constructor
  case unique => decide
  case known =>
    intro row hrow info hmem huuid
    rw [SortedSet.mem_def, hinfo] at hmem
    obtain rfl | hmem := List.mem_cons.1 hmem
    · have hnone : "a" ∉ (rowsOf otherInputs).map Row.inRoute := by decide
      rw [← hauuid, huuid] at hnone
      exact absurd (List.mem_map_of_mem hrow) hnone
    · obtain rfl := List.mem_singleton.1 hmem
      have hform : ∀ row ∈ rowsOf otherInputs, row.inRoute = "b" →
          row.form = ⟨"b", ['/', 'b'], "flv"⟩ := by decide
      exact hb.trans (hform row hrow (huuid.symm.trans hbuuid)).symm
  case runs =>
    intro row _ hkey
    rwa [SortedSet.keys, hinfo, ← hlist] at hkey
  case stays =>
    intro as t bs h hmem _
    obtain ⟨rfl, rfl⟩ | ⟨rfl, rfl⟩ := hsplit as t bs h
    · rw [hrows, hauuid] at hmem
      exact absurd hmem (by decide)
    · simp [Stays, hgone, hkey]
  case stops =>
    intro as t bs h hmem
    obtain ⟨rfl, rfl⟩ | ⟨rfl, rfl⟩ := hsplit as t bs h
    · simp [Stays, hgone]
    · rw [hrows, hbuuid] at hmem
      exact absurd List.mem_cons_self hmem

theorem otherInputs_converged :
    ∃ u u', exec step {} twoInputs = some u ∧ Completes u otherInputs u' ∧
      u'.streamer.running.map InputInfo.uuid = ["b", "c"] ∧
      u'.streamer.Converged (rowsOf otherInputs) := by
  obtain ⟨u, u', a, b, hu, hpc, hstopped, hlist, hinfo, ha, hb, h, hrunning⟩ :=
    otherInputs_completes
  have huuids : u'.streamer.running.map InputInfo.uuid = ["b", "c"] := by
    have := congrArg (List.map Form.uuid) hrunning
    rwa [List.map_map] at this
  refine ⟨u, u', hu, h, huuids, (converged_iff hu hpc h).2 ?_⟩
  rw [if_neg (by simp [hstopped, otherInputs, readInput, addInput])]
  exact settled_otherInputs hlist hinfo ha hb
/-! ## A changed row -/

/-- The row is read, and the network module gives its route. -/
def readRow (path : Path) : Action :=
  .row (inputRow path)
    (some { name := "in", host := "127.0.0.1", type := .unicast, port := some 5001,
            protocol := .tcpip }) true

/-- The update that starts the input. -/
def firstUpdate (path : Path) : List Action :=
  [readRow path, .rowsRead, .deleted, .addInputInfo ⟨true, true, true⟩]

/-- The path of the only row changes from "/a" to "/b". -/
theorem changedPath_not_converged :
    ∃ u u', exec step {} (beginUpdate :: firstUpdate ['/', 'a'] ++ [.added, beginUpdate]) = some u ∧
      u.pc = .rows {} ∧ Completes u [readRow ['/', 'b'], .rowsRead, .deleted] u' ∧
      u'.streamer.running.map InputInfo.path = [['/', 'a']] ∧
      ¬u'.streamer.Converged (rowsOf [readRow ['/', 'b'], .rowsRead, .deleted]) := by
  refine ⟨_, _, rfl, rfl, ⟨rfl, rfl, by decide, ?_⟩, rfl, fun h => ?_⟩
  · exact .cons rfl (.inl rfl) (.cons rfl trivial (.cons rfl trivial trivial))
  · have hform := (h (inputRow ['/', 'b']).form).2 List.mem_cons_self
    revert hform
    decide

end Kalinka.HttpStreamer
