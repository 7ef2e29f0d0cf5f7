import Kalinka.App.HttpStreamer.Streamer

/-!
# Inputs that cannot be added

When `addInputInfo` fails, the input is deleted again, and `delInputInfo` looks its thread up by the
path of the input.  A path that is in use leads to the thread of another input, which is stopped and
taken out of the list; for a path of slashes nothing is found, and a thread that has been started
just before stays.

`eachStep_untouched_iff` says which failed additions leave everything as it was.
-/

namespace Kalinka.HttpStreamer

open Run
open Kalinka.Http (Path Protocol isRouteMatch trimPath)

namespace Streamer

variable {s s' : Streamer} {info t : InputInfo} {env : AddEnv} {netStop : Bool}

/-! ## A failed addition -/

/-- Nothing has changed but the lock of the route with the UUID. -/
structure Untouched (s : Streamer) (uuid : String) (s' : Streamer) : Prop where
  mInfo : s'.mInfo = s.mInfo
  mList : s'.mList = s.mList
  locks : ∀ u ≠ uuid, u ∈ s'.locks ↔ u ∈ s.locks

/-- The clean-up finds the thread that has been started, and no other one. -/
def AddSafe (s : Streamer) (info : InputInfo) (started : Bool) : Prop :=
  match s.getThreadByInfo info with
  | some t =>
    if info.route.protocol = t.route.protocol then t = info ∧ trimPath info.path = []
    else s.getThreadByPath info.path = none
  | none =>
    s.getThreadByPath info.path = none ∧
      (s.stopped = true ∨ ¬Startable info started ∨ trimPath info.path ≠ [])

theorem mList_delInputInfo :
    (s.delInputInfo info netStop).mList =
      s.mList.eraseP fun t => isRouteMatch info.path t.path := by
  have hcases := delInputInfo_cases s info netStop
  generalize s.delInputInfo info netStop = s' at hcases ⊢
  cases hcases with
  | unknown hpath => exact (List.eraseP_of_forall_not (getThreadByPath_eq_none_iff.1 hpath)).symm
  | locked | udp | tcpip => rfl

/-- For an input that `m_info` does not have, only the thread list matters. -/
theorem untouched_delInputInfo_iff (hnew : info.uuid ∉ s.mInfo.keys) (hinfo : s'.mInfo = s.mInfo)
    (hlocks : s'.locks = s.locks) :
    Untouched s info.uuid (s'.delInputInfo info netStop) ↔
      (s'.mList.eraseP fun t => isRouteMatch info.path t.path) = s.mList := by
  refine ⟨fun h => mList_delInputInfo.symm.trans h.mList, fun h => ?_⟩
  refine ⟨?_, mList_delInputInfo.trans h, fun u hu => ?_⟩
  · exact (mInfo_delInputInfo (hinfo ▸ hnew)).trans hinfo
  · rw [mem_locks_delInputInfo, hlocks]
    simp [hu]

/-- The thread of the route has been updated: the clean-up must not find a thread. -/
theorem eraseP_replaceF_eq_iff (h : s.getThreadByInfo info = some t) :
    ((s.mList.replaceF fun t => if t.uuid = info.uuid then some info else none).eraseP
        fun t => isRouteMatch info.path t.path) = s.mList ↔
      t = info ∧ trimPath info.path = [] := by
  obtain ⟨as, bs, hlist, hreplace⟩ := replaceF_of_find? h
  rw [hreplace, hlist]
  by_cases htrim : trimPath info.path = []
  · have hself : ((as ++ info :: bs).eraseP fun t => isRouteMatch info.path t.path) =
        as ++ info :: bs :=
      List.eraseP_of_forall_not fun _ _ => isRouteMatch_of_trimPath_eq_nil htrim
    rw [hself, List.append_cancel_left_eq, List.cons_eq_cons]
    simp [htrim, eq_comm]
  · refine iff_of_false (fun heq => ?_) fun hand => htrim hand.2
    have hmem : info ∈ as ++ info :: bs := by simp
    have hlen := List.length_eraseP_of_mem (p := fun t => isRouteMatch info.path t.path) hmem
      (isRouteMatch_self.2 htrim)
    rw [heq] at hlen
    simp at hlen

/-- A new thread has been started: the clean-up must find it. -/
theorem eraseP_append_eq_iff (hpath : s.getThreadByPath info.path = none) :
    ((s.mList ++ [info]).eraseP fun t => isRouteMatch info.path t.path) = s.mList ↔
      trimPath info.path ≠ [] := by
  have hnone := getThreadByPath_eq_none_iff.1 hpath
  rw [List.eraseP_append_right _ hnone, ← isRouteMatch_self]
  cases hself : isRouteMatch info.path info.path <;> simp [hself]

theorem addInputInfo_untouched_iff (hnew : info.uuid ∉ s.mInfo.keys)
    (hfails : AddFails s info env) :
    Untouched s info.uuid (s.addInputInfo info env) ↔ AddSafe s info env.started := by
  have herase : (s.mList.eraseP fun t => isRouteMatch info.path t.path) = s.mList ↔
      s.getThreadByPath info.path = none :=
    List.eraseP_eq_self_iff.trans getThreadByPath_eq_none_iff.symm
  have hadd := addInfo_cases s info env.started
  unfold addInputInfo AddSafe
  generalize hres : s.addInfo info env.started = res at hadd
  cases hadd with
  | updated t hfind hprot =>
    have helem : env.added = false := hfails.resolve_left (by simp [hres])
    simp only [hfind, helem, if_pos hprot, Bool.false_eq_true, if_false]
    exact (untouched_delInputInfo_iff hnew (by rfl) (by rfl)).trans (eraseP_replaceF_eq_iff hfind)
  | protocol t hfind hprot =>
    simp only [hfind, if_neg hprot]
    exact (untouched_delInputInfo_iff hnew rfl rfl).trans herase
  | taken hfind hpath =>
    have hsome : s.getThreadByPath info.path ≠ none := Option.isSome_iff_ne_none.1 hpath
    simp only [hfind, hsome, false_and, iff_false]
    exact fun h => hsome (herase.1 ((untouched_delInputInfo_iff hnew rfl rfl).1 h))
  | stopped hfind hpath hstopped =>
    have helem : env.added = false := hfails.resolve_left (by simp [hres])
    simp only [hfind, hpath, hstopped, helem, true_and, true_or, iff_true, Bool.false_eq_true,
      if_false]
    exact (untouched_delInputInfo_iff hnew rfl rfl).2 (herase.2 hpath)
  | started hfind hpath hstopped hstart =>
    have helem : env.added = false := hfails.resolve_left (by simp [hres])
    simp only [hfind, hpath, hstopped, hstart, helem, true_and, Bool.false_eq_true, if_false,
      not_true_eq_false, false_or]
    exact (untouched_delInputInfo_iff hnew (by rfl) (by rfl)).trans (eraseP_append_eq_iff hpath)
  | failed hfind hpath hstopped hstart =>
    simp only [hfind, hpath, hstart, true_and, not_false_eq_true, true_or, or_true, iff_true]
    exact (untouched_delInputInfo_iff hnew rfl rfl).2 (herase.2 hpath)

end Streamer

/-! ## Updates -/

open Streamer

/-- If the addition fails, everything is as before but the lock of its own route. -/
def AddUntouched (u : Update) : Action → Prop
  | .addInputInfo env => ∀ info todo, u.pc = .adds (info :: todo) →
      AddFails u.streamer info env →
        Untouched u.streamer info.uuid (u.streamer.addInputInfo info env)
  | _ => True

/-- If the addition fails, the clean-up finds the thread that has been started, and no other. -/
def AddOk (u : Update) : Action → Prop
  | .addInputInfo env => ∀ info todo, u.pc = .adds (info :: todo) →
      AddFails u.streamer info env → AddSafe u.streamer info env.started
  | _ => True

theorem addUntouched_iff {u : Update} {a : Action} (hI : Inv u) :
    AddUntouched u a ↔ AddOk u a := by
  cases a with
  | addInputInfo env =>
    refine forall_congr' fun info => forall_congr' fun todo => forall_congr' fun hpc =>
      forall_congr' fun hfails => addInputInfo_untouched_iff ?_ hfails
    exact (hI.of_adds hpc).2 info List.mem_cons_self
  | _ => exact Iff.rfl

/-- In a run from the start, the failed additions change nothing exactly if the clean-up of each
finds its own thread. -/
theorem eachStep_untouched_iff {acts : List Action} :
    EachStep step AddUntouched {} acts ↔ EachStep step AddOk {} acts :=
  eachStep_congr (I := Inv) inv_step (fun hI _ => addUntouched_iff hI) trivial

/-- The TCP route that NETINFO describes. -/
def tcpRoute (name : String) (port : ℕ) : NetInfo :=
  { name, host := "127.0.0.1", type := .unicast, port := some port, protocol := .tcpip }

/-- An update with two rows whose paths are one without the slashes, up to the second addition. -/
def samePath : List Action :=
  [.processOutRoute (some "out")
      { netInfo := some (tcpRoute "out" 8080), netStart := true, netStop := true,
        restarted := true },
    .row ⟨"r1", ['v'], "FLV", "flv"⟩ (some (tcpRoute "in1" 5001)) true,
    .row ⟨"r2", ['/', 'v'], "FLV", "flv"⟩ (some (tcpRoute "in2" 5002)) true,
    .rowsRead, .deleted, .addInputInfo ⟨true, true, true⟩]

/-- The second input cannot be added, and the clean-up stops the thread of the first. -/
theorem samePath_stops_thread :
    ∃ u info, exec step {} samePath = some u ∧ u.pc = .adds [info] ∧
      AddFails u.streamer info ⟨true, true, true⟩ ∧
      u.streamer.mList.map InputInfo.uuid = ["r1"] ∧
      (u.streamer.addInputInfo info ⟨true, true, true⟩).mList = [] ∧
      ¬Untouched u.streamer info.uuid (u.streamer.addInputInfo info ⟨true, true, true⟩) := by
  refine ⟨_, _, rfl, rfl, .inl rfl, rfl, rfl, fun h => ?_⟩
  have hlist : [] = _ := h.mList
  cases hlist

end Kalinka.HttpStreamer
