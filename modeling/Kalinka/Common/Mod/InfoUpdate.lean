import Kalinka.Common.Mod.InfoContainer

/-!
# Updates of module infos in place

An info whose UUID is in the container already stays the same object, so that it shows the new
answer of the database only as far as its `updateInfo` copies it.  `FileInfo`, `HTTPInfo` and
`DVInfo` override `mod::Info::updateInfo` and copy all they read from the database.  `RouteInfo` and
`TaskInfo` inherit it: only the name is copied.

`processDB_routes_tasks_current_iff` says when the routes and the tasks carry the last answer, and
`processDB_file_http_dv_current` that the other infos always do.
-/

namespace Kalinka

namespace Mod.InfoContainer

variable {T F : Type} {uuid : Ptr → String} {cls : InfoClass T} {c : InfoContainer T uuid}
variable {set : InfoSet uuid} {elem e p : Ptr} {l : List Ptr}

/-! ## The objects after an update -/

theorem value_addElem_of_uuid_ne (h : uuid elem ≠ uuid p) :
    (addElem cls true c elem).value p = c.value p := by
  unfold addElem
  cases hfind : c.mContainer.find (uuid elem) with
  | none => rfl
  | some q =>
    have hq : uuid q = uuid elem := (SortedSet.find_eq_some_iff.1 hfind).2
    have hne : p ≠ q := fun heq => h (hq ▸ heq ▸ rfl)
    exact Function.update_of_ne hne _ _

theorem value_addElem_of_notMem (hp : p ∉ c.mContainer) :
    (addElem cls true c elem).value p = c.value p := by
  unfold addElem
  cases hfind : c.mContainer.find (uuid elem) with
  | none => rfl
  | some q =>
    have hq : q ∈ c.mContainer := (SortedSet.find_eq_some_iff.1 hfind).1
    have hne : p ≠ q := fun heq => hp (heq ▸ hq)
    exact Function.update_of_ne hne _ _

theorem value_addElem_of_mem (hp : p ∈ c.mContainer) (h : uuid elem = uuid p) :
    (addElem cls true c elem).value p = cls.updateInfo (c.value p) (c.value elem) := by
  have hfind : c.mContainer.find (uuid elem) = some p :=
    SortedSet.find_eq_some_iff.2 ⟨hp, h.symm⟩
  unfold addElem
  rw [hfind]
  exact Function.update_self _ _ _

theorem value_foldl_addElem_of_uuid_ne (h : ∀ e ∈ l, uuid e ≠ uuid p) :
    (l.foldl (addElem cls true) c).value p = c.value p := by
  induction l generalizing c with
  | nil => rfl
  | cons e l ih =>
    obtain ⟨he, hl⟩ := List.forall_mem_cons.1 h
    rw [List.foldl_cons, ih hl, value_addElem_of_uuid_ne he]

/-- An element of the container is updated by the one added that has its UUID. -/
theorem value_foldl_addElem_of_mem (hl : l.Pairwise fun a b => uuid a < uuid b) (he : e ∈ l)
    (hp : p ∈ c.mContainer) (h : uuid e = uuid p) :
    (l.foldl (addElem cls true) c).value p = cls.updateInfo (c.value p) (c.value e) := by
  induction l generalizing c with
  | nil => exact absurd he List.not_mem_nil
  | cons a l ih =>
    obtain ⟨ha, hl⟩ := List.pairwise_cons.1 hl
    rw [List.foldl_cons]
    obtain rfl | he := List.mem_cons.1 he
    · have hrest : ∀ b ∈ l, uuid b ≠ uuid p := fun b hb => h ▸ (ha b hb).ne'
      rw [value_foldl_addElem_of_uuid_ne hrest, value_addElem_of_mem hp h]
    · have hae : uuid a ≠ uuid e := (ha e he).ne
      rw [ih hl he (mem_addElem.2 (.inl hp)), value_addElem_of_uuid_ne (h ▸ hae),
        value_addElem_of_uuid_ne hae]

/-- An element that is added new is not changed. -/
theorem value_foldl_addElem_of_notMem (hl : l.Pairwise fun a b => uuid a < uuid b) (hpl : p ∈ l)
    (hp : p ∉ c.mContainer) : (l.foldl (addElem cls true) c).value p = c.value p := by
  induction l generalizing c with
  | nil => exact absurd hpl List.not_mem_nil
  | cons a l ih =>
    obtain ⟨ha, hl⟩ := List.pairwise_cons.1 hl
    rw [List.foldl_cons]
    obtain rfl | hpl := List.mem_cons.1 hpl
    · rw [value_foldl_addElem_of_uuid_ne fun b hb => (ha b hb).ne', value_addElem_of_notMem hp]
    · have hap : uuid a ≠ uuid p := (ha p hpl).ne
      have hpa : p ∉ (addElem cls true c a).mContainer := by
        rw [mem_addElem]
        rintro (hmem | ⟨rfl, -⟩)
        · exact hp hmem
        · exact hap rfl
      rw [ih hl hpl hpa, value_addElem_of_uuid_ne hap]

theorem value_foldl_delElem : (l.foldl (delElem cls true) c).value = c.value := by
  induction l generalizing c with
  | nil => rfl
  | cons e l ih => rw [List.foldl_cons, ih, value_delElem]

theorem value_processDB_of_mem (hp : p ∈ c.mContainer) (he : e ∈ set) (h : uuid e = uuid p) :
    (processDB cls c set).value p = cls.updateInfo (c.value p) (c.value e) := by
  have hset : uuid p ∈ set.keys := SortedSet.mem_keys.2 ⟨e, he, h⟩
  have hdel : p ∈ (del cls c (c.getDel set) true).mContainer :=
    mem_del_getDel.2 ⟨hp, absurd hset⟩
  apply (value_foldl_addElem_of_mem set.sorted he hdel h).trans
  rw [del, value_foldl_delElem]

theorem value_processDB_of_new (hp : p ∈ set) (hnew : uuid p ∉ c.mContainer.keys) :
    (processDB cls c set).value p = c.value p := by
  have hdel : p ∉ (del cls c (c.getDel set) true).mContainer := fun h =>
    hnew (SortedSet.mem_keys.2 ⟨p, (mem_del_getDel.1 h).1, rfl⟩)
  apply (value_foldl_addElem_of_notMem set.sorted hp hdel).trans
  rw [del, value_foldl_delElem]

/-! ## Carrying the answer of the database -/

/-- Every element that the database has and that is not in use carries the fields of the answer. -/
def Current (cls : InfoClass T) (fields : T → F) (set : InfoSet uuid) (answer : Ptr → T)
    (c : InfoContainer T uuid) : Prop :=
  ∀ p ∈ c.mContainer, ∀ e ∈ set, uuid e = uuid p → cls.isInUse (c.value p) = false →
    fields (c.value p) = fields (answer e)

/-- The infos that stay decide: the new ones are the objects of the answer. -/
theorem current_processDB_iff {fields : T → F}
    (huse : ∀ info value, cls.isInUse (cls.updateInfo info value) = cls.isInUse info) :
    Current cls fields set c.value (processDB cls c set) ↔
      ∀ p ∈ c.mContainer, ∀ e ∈ set, uuid e = uuid p → cls.isInUse (c.value p) = false →
        fields (cls.updateInfo (c.value p) (c.value e)) = fields (c.value e) := by
  constructor
  · intro h p hp e he heq hfree
    have hmem : p ∈ (processDB cls c set).mContainer :=
      mem_processDB.2 (.inl ⟨hp, absurd (SortedSet.mem_keys.2 ⟨e, he, heq⟩)⟩)
    have hvalue : (processDB cls c set).value p = cls.updateInfo (c.value p) (c.value e) :=
      value_processDB_of_mem hp he heq
    have hcur := h p hmem e he heq
    rw [hvalue, huse] at hcur
    exact hcur hfree
  · intro h p hmem e he heq hfree
    obtain ⟨hp, -⟩ | ⟨hpset, hnew⟩ := mem_processDB.1 hmem
    · rw [value_processDB_of_mem hp he heq] at hfree ⊢
      rw [huse] at hfree
      exact h p hp e he heq hfree
    · obtain rfl := SortedSet.eq_of_key_eq he hpset heq
      rw [value_processDB_of_new hpset hnew]

end Mod.InfoContainer

open Kalinka.Mod Kalinka.Mod.InfoContainer

/-! ## The classes of infos -/

/-- `net::RouteInfo`; whether the route is in use is read from the database. -/
structure RouteInfo extends Info where
  host : String
  port : String
  protocol : String
  type : String
  dev : Ptr
  deriving DecidableEq, Repr

/-- `updateInfo` is inherited from `mod::Info`. -/
def RouteInfo.infoClass : InfoClass RouteInfo where
  isInUse info := info.inUse
  updateInfo info value := { info with toInfo := info.toInfo.updateInfo value.toInfo }

/-- All that is read from the database but the UUID. -/
def RouteInfo.fields (info : RouteInfo) : RouteInfo := { info with inUse := false }

/-- The routes differ in their names at most. -/
def RouteInfo.SameRoute (info value : RouteInfo) : Prop :=
  info.host = value.host ∧ info.port = value.port ∧ info.protocol = value.protocol ∧
    info.type = value.type ∧ info.dev = value.dev

theorem RouteInfo.fields_updateInfo_iff {info value : RouteInfo} :
    (infoClass.updateInfo info value).fields = value.fields ↔ info.SameRoute value := by
  simp only [infoClass, Info.updateInfo, fields, SameRoute, RouteInfo.mk.injEq, true_and]

namespace Trans

/-- `trans::SourceInfo` -/
structure SourceInfo where
  uuid : String
  name : String
  mediaType : String
  type : String
  deriving DecidableEq, Repr

/-- `quality::Video` -/
structure Video where
  size : String
  quality : String
  deriving DecidableEq, Repr

/-- `ScheduleInfo`, with the fields of its `CrontabParser`. -/
structure ScheduleInfo where
  minute : String
  hour : String
  dayOfMonth : String
  month : String
  dayOfWeek : String
  once : Bool
  duration : ℕ
  deriving DecidableEq, Repr

/-- `trans::TaskInfo` -/
structure TaskInfo extends Info where
  source : SourceInfo
  destination : SourceInfo
  vquality : Video
  schedule : ScheduleInfo
  runningTime : ℕ := 0
  runningCount : ℕ := 0
  deriving DecidableEq, Repr

namespace TaskInfo

/-- `updateInfo` is inherited from `mod::Info`. -/
def infoClass : InfoClass TaskInfo where
  isInUse info := info.inUse
  updateInfo info value := { info with toInfo := info.toInfo.updateInfo value.toInfo }

def addRunningTime (info : TaskInfo) (duration : ℕ) : TaskInfo :=
  if duration = 0 then info
  else { info with
    runningTime := info.runningTime + duration, runningCount := info.runningCount + 1 }

/-- All that is read from the database but the UUID. -/
def fields (info : TaskInfo) : TaskInfo :=
  { info with inUse := false, runningTime := 0, runningCount := 0 }

/-- The tasks differ in their names at most. -/
def SameTask (info value : TaskInfo) : Prop :=
  info.source = value.source ∧ info.destination = value.destination ∧
    info.vquality = value.vquality ∧ info.schedule = value.schedule

variable {info value : TaskInfo} {duration : ℕ}

theorem fields_updateInfo_iff :
    (infoClass.updateInfo info value).fields = value.fields ↔ info.SameTask value := by
  simp only [infoClass, Info.updateInfo, fields, SameTask, TaskInfo.mk.injEq, true_and, and_true]

theorem fields_addRunningTime : (info.addRunningTime duration).fields = info.fields := by
  unfold addRunningTime
  split <;> rfl

theorem inUse_addRunningTime : (info.addRunningTime duration).inUse = info.inUse := by
  unfold addRunningTime
  split <;> rfl

/-- The end of tasks changes neither what is read from the database nor the use. -/
theorem foldl_addRunningTime (ended : List (Ptr × ℕ)) (value : Ptr → TaskInfo) (p : Ptr) :
    let value' := ended.foldl
      (fun value task => Function.update value task.1 ((value task.1).addRunningTime task.2)) value
    (value' p).fields = (value p).fields ∧ (value' p).inUse = (value p).inUse := by
  induction ended generalizing value with
  | nil => exact ⟨rfl, rfl⟩
  | cons task ended ih =>
    obtain ⟨hfields, huse⟩ := ih (Function.update value task.1 _)
    refine ⟨hfields.trans ?_, huse.trans ?_⟩
    all_goals by_cases h : p = task.1
    · rw [h, Function.update_self, fields_addRunningTime]
    · rw [Function.update_of_ne h]
    · rw [h, Function.update_self, inUse_addRunningTime]
    · rw [Function.update_of_ne h]

theorem sameTask_iff_of_fields_eq {info' value' : TaskInfo} (hinfo : info'.fields = info.fields)
    (hvalue : value'.fields = value.fields) : info'.SameTask value' ↔ info.SameTask value := by
  simp only [fields, TaskInfo.mk.injEq] at hinfo hvalue
  obtain ⟨-, hsource, hdest, hquality, hschedule, -, -⟩ := hinfo
  obtain ⟨-, hsource', hdest', hquality', hschedule', -, -⟩ := hvalue
  unfold SameTask
  rw [hsource, hdest, hquality, hschedule, hsource', hdest', hquality', hschedule']

end TaskInfo

/-- `Transcode::processDB`.  `deinitInfo` ends the scheduled tasks of the infos to be deleted;
`ended` are the tasks that end, each with its info and its running time. -/
def processDB {uuid : Ptr → String} (c : InfoContainer TaskInfo uuid) (db : InfoSet uuid)
    (ended : List (Ptr × ℕ)) : InfoContainer TaskInfo uuid :=
  let delSet := c.getDel db
  let value := ended.foldl
    (fun value task => Function.update value task.1 ((value task.1).addRunningTime task.2)) c.value
  add TaskInfo.infoClass (del TaskInfo.infoClass { c with value } delSet true) db true

end Trans

/-- `FileInfo` of the file module. -/
structure FileInfo extends Info where
  path : String
  deriving DecidableEq, Repr

def FileInfo.infoClass : InfoClass FileInfo where
  isInUse info := info.inUse
  updateInfo info value :=
    { info with toInfo := info.toInfo.updateInfo value.toInfo, path := value.path }

/-- `HTTPInfo` of the HTTP source module. -/
structure HTTPInfo extends Info where
  addr : String
  login : String
  passwd : String
  deriving DecidableEq, Repr

def HTTPInfo.infoClass : InfoClass HTTPInfo where
  isInUse info := info.inUse
  updateInfo info value :=
    { info with
      toInfo := info.toInfo.updateInfo value.toInfo
      addr := value.addr, login := value.login, passwd := value.passwd }

/-- `fw::DVInfo`; the port is not in the database. -/
structure DVInfo extends Info where
  description : String
  port : String := "-1"
  deriving DecidableEq, Repr

def DVInfo.infoClass : InfoClass DVInfo where
  isInUse info := info.inUse
  updateInfo info value :=
    { info with toInfo := info.toInfo.updateInfo value.toInfo, description := value.description }

/-! ## Who carries the answer -/

open Kalinka.Trans (TaskInfo)

theorem routes_current_iff {uuid : Ptr → String} (c : InfoContainer RouteInfo uuid)
    (db : InfoSet uuid) :
    Current RouteInfo.infoClass RouteInfo.fields db c.value
        (InfoContainer.processDB RouteInfo.infoClass c db) ↔
      ∀ p ∈ c.mContainer, ∀ e ∈ db, uuid e = uuid p → (c.value p).inUse = false →
        (c.value p).SameRoute (c.value e) := by
  rw [current_processDB_iff fun _ _ => rfl]
  simp only [RouteInfo.fields_updateInfo_iff]
  rfl

theorem tasks_current_iff {uuid : Ptr → String} (c : InfoContainer TaskInfo uuid)
    (db : InfoSet uuid) (ended : List (Ptr × ℕ)) :
    Current TaskInfo.infoClass TaskInfo.fields db c.value (Trans.processDB c db ended) ↔
      ∀ p ∈ c.mContainer, ∀ e ∈ db, uuid e = uuid p → (c.value p).inUse = false →
        (c.value p).SameTask (c.value e) := by
  obtain ⟨value', hvalue'⟩ : ∃ value', value' = ended.foldl (fun value task =>
      Function.update value task.1 ((value task.1).addRunningTime task.2)) c.value := ⟨_, rfl⟩
  have hsame := TaskInfo.foldl_addRunningTime ended c.value
  simp only [← hvalue'] at hsame
  have hprocess : Trans.processDB c db ended =
      InfoContainer.processDB TaskInfo.infoClass { c with value := value' } db := by
    rw [hvalue']
    rfl
  have hanswer (c' : InfoContainer TaskInfo uuid) :
      Current TaskInfo.infoClass TaskInfo.fields db c.value c' ↔
        Current TaskInfo.infoClass TaskInfo.fields db value' c' := by
    unfold Current
    simp only [(hsame _).1]
  rw [hanswer, hprocess]
  refine (current_processDB_iff fun _ _ => rfl).trans ?_
  simp only [TaskInfo.fields_updateInfo_iff]
  refine forall₄_congr fun p _ e _ => imp_congr_right fun _ => ?_
  rw [TaskInfo.sameTask_iff_of_fields_eq (hsame p).1 (hsame e).1]
  show (value' p).inUse = false → _ ↔ _
  rw [(hsame p).2]

/-- After an update, the routes and the tasks that are not in use carry all that the database has
for them if and only if those in the container already did before, up to their names. -/
theorem processDB_routes_tasks_current_iff (uuid : Ptr → String) (db : InfoSet uuid) :
    (∀ c : InfoContainer RouteInfo uuid,
      Current RouteInfo.infoClass RouteInfo.fields db c.value
          (InfoContainer.processDB RouteInfo.infoClass c db) ↔
        ∀ p ∈ c.mContainer, ∀ e ∈ db, uuid e = uuid p → (c.value p).inUse = false →
          (c.value p).SameRoute (c.value e)) ∧
    ∀ (c : InfoContainer TaskInfo uuid) (ended : List (Ptr × ℕ)),
      Current TaskInfo.infoClass TaskInfo.fields db c.value (Trans.processDB c db ended) ↔
        ∀ p ∈ c.mContainer, ∀ e ∈ db, uuid e = uuid p → (c.value p).inUse = false →
          (c.value p).SameTask (c.value e) :=
  ⟨fun c => routes_current_iff c db, fun c ended => tasks_current_iff c db ended⟩

/-- The route `a` moves to another host: the object `0` keeps the old one. -/
theorem processDB_keeps_old_host :
    let uuid : Ptr → String := fun _ => "a"
    let value : Ptr → RouteInfo := fun p =>
      { name := "route", host := if p = 0 then "10.0.0.1" else "10.0.0.2", port := "1234"
        protocol := "udp", type := "unicast", dev := 7 }
    let db : InfoSet uuid := .ofList uuid [1]
    let c : InfoContainer RouteInfo uuid := { mContainer := .ofList uuid [0], value }
    ¬ Current RouteInfo.infoClass RouteInfo.fields db value
      (InfoContainer.processDB RouteInfo.infoClass c db) := by
  intro uuid value db c h
  have hmem : (0 : Ptr) ∈ (InfoContainer.processDB RouteInfo.infoClass c db).mContainer :=
    SortedSet.mem_def.2 (by decide)
  have hdb : (1 : Ptr) ∈ db := SortedSet.mem_def.2 (by decide)
  have hhost := congrArg RouteInfo.host (h 0 hmem 1 hdb rfl (by decide))
  exact absurd hhost (by decide)

/-- The infos whose class overrides `updateInfo` carry the answer after every update. -/
theorem processDB_file_http_dv_current (uuid : Ptr → String) (db : InfoSet uuid) :
    (∀ c : InfoContainer FileInfo uuid,
      Current FileInfo.infoClass (fun info => (info.name, info.path)) db c.value
        (InfoContainer.processDB FileInfo.infoClass c db)) ∧
    (∀ c : InfoContainer HTTPInfo uuid,
      Current HTTPInfo.infoClass (fun info => (info.name, info.addr, info.login, info.passwd)) db
        c.value (InfoContainer.processDB HTTPInfo.infoClass c db)) ∧
    ∀ c : InfoContainer DVInfo uuid,
      Current DVInfo.infoClass (fun info => (info.name, info.description)) db c.value
        (InfoContainer.processDB DVInfo.infoClass c db) := by
  refine ⟨fun c => ?_, fun c => ?_, fun c => ?_⟩
  all_goals
    rw [current_processDB_iff fun _ _ => rfl]
    exact fun p _ e _ _ _ => rfl

end Kalinka
