import Mathlib.Logic.Function.Basic
import Mathlib.Tactic.SplitIfs
import Kalinka.Lib.Run

/-!
# The construction of tasks

The constructor of a `Task` initialises the destination of its `TaskInfo`, sets the duration
callback and initialises the source.  When one of them throws, `deinit` undoes what has been done,
and it does so on the objects of the `TaskInfo`, which another task may have been constructed from.

The modules for files, routes and IEEE1394 devices lock what a START asks for, unless it is in use.
Which call throws, and how the modules answer, is part of the action.

`eachStep_atomic_iff` says in which runs the constructions that fail leave everything as it was.
-/

namespace Kalinka.Trans.TaskInit

open Run Function

/-- The classes derived from `SourceInfo`. -/
inductive SourceType
  | file
  | net
  | httpSrc
  | fw
  deriving DecidableEq, Repr

inductive Direction
  | source
  | sink
  deriving DecidableEq, Repr

inductive Protocol
  | tcpip
  | udp
  deriving DecidableEq, Repr

/-- What becomes of a request to a module. -/
inductive Answer
  | ok
  | rejected
  /-- the module does what it is asked for, but does not answer OK in time -/
  | lost
  deriving DecidableEq, Repr

/-- What is locked: a file, a route or a device. -/
abbrev Lock := SourceType × String

structure SourceInfo where
  type : SourceType
  uuid : String
  /-- the attempt that has made `m_element`, if this is not `NULL` -/
  mElement : Option ℕ := none
  /-- `m_module` is not `NULL` -/
  mModule : Bool := false
  deriving DecidableEq, Repr

structure TaskInfo where
  mSource : SourceInfo
  mDestination : SourceInfo
  /-- the task of the callback, if this is not the default -/
  mGetDuration : Option ℕ := none
  deriving DecidableEq, Repr

/-- What happens while a source is initialised. -/
structure InitEnv where
  /-- the protocol, if NETINFO is answered OK -/
  netInfo : Option Protocol
  /-- FILESTART or FILEINFO, NETSTART, HTTPSRCSTART, IEEE1394START -/
  start : Answer
  /-- the address is not empty, or the IEEE1394 port a number -/
  parsed : Bool
  /-- GStreamer has the plugin -/
  made : Bool
  /-- the file of a source exists, or the port of a route is a number -/
  props : Bool
  deriving DecidableEq, Repr

/-! ## Sources -/

/-- An initialisation so far, and whether it goes on. -/
structure Init where
  src : SourceInfo
  locks : List Lock
  ok : Bool
  deriving DecidableEq, Repr

def Init.andThen (r : Init) (f : SourceInfo → List Lock → Init) : Init :=
  if r.ok then f r.src r.locks else r

namespace SourceInfo

def lock (src : SourceInfo) : Lock := (src.type, src.uuid)

def setElement (src : SourceInfo) (attempt : ℕ) : SourceInfo :=
  { src with mElement := some attempt }

def setModule (src : SourceInfo) : SourceInfo := { src with mModule := true }

/-- A START that locks; on OK, `m_module` is set. -/
def start (src : SourceInfo) (locks : List Lock) (answer : Answer) : Init :=
  if src.lock ∈ locks then { src, locks, ok := false }
  else
    match answer with
    | .ok => { src := src.setModule, locks := src.lock :: locks, ok := true }
    | .rejected => { src, locks, ok := false }
    | .lost => { src, locks := src.lock :: locks, ok := false }

/-- A request that does not lock. -/
def request (src : SourceInfo) (locks : List Lock) (answer : Answer) : Init :=
  { src, locks, ok := answer = .ok }

/-- `SourceInfo::initElement`. -/
def initElement (src : SourceInfo) (locks : List Lock) (attempt : ℕ) (made : Bool) : Init :=
  if src.mElement.isSome then { src, locks, ok := false }
  else if made then { src := src.setElement attempt, locks, ok := true }
  else { src, locks, ok := false }

/-- `FileInfo::initInternal`, which tests for the element as `initElement` does. -/
def initFile (src : SourceInfo) (direction : Direction) (locks : List Lock) (attempt : ℕ)
    (env : InitEnv) : Init :=
  (src.initElement locks attempt env.made).andThen fun src locks =>
    (match direction with
      | .sink => src.start locks env.start
      | .source => src.request locks env.start).andThen fun src locks =>
        { src, locks, ok := direction = Direction.sink ∨ env.props = true }

/-- `NetInfo::initInternal`: only the route of a UDP sink is locked. -/
def initNet (src : SourceInfo) (direction : Direction) (locks : List Lock) (attempt : ℕ)
    (env : InitEnv) : Init :=
  match env.netInfo with
  | none => { src, locks, ok := false }
  | some proto =>
    (if direction = .sink ∧ proto = .udp then src.start locks env.start
      else { src, locks, ok := true }).andThen fun src locks =>
        (src.initElement locks attempt env.made).andThen fun src locks =>
          { src, locks, ok := env.props }

/-- `HTTPSrcInfo::initInternal`. -/
def initHTTPSrc (src : SourceInfo) (locks : List Lock) (attempt : ℕ) (env : InitEnv) : Init :=
  (src.request locks env.start).andThen fun src locks =>
    Init.andThen { src, locks, ok := env.parsed } fun src locks =>
      src.initElement locks attempt env.made

/-- `FWSrcInfo::initInternal`. -/
def initFW (src : SourceInfo) (locks : List Lock) (attempt : ℕ) (env : InitEnv) : Init :=
  (src.start locks env.start).andThen fun src locks =>
    Init.andThen { src, locks, ok := env.parsed } fun src locks =>
      src.initElement locks attempt env.made

def initInternal (src : SourceInfo) (direction : Direction) (locks : List Lock) (attempt : ℕ)
    (env : InitEnv) : Init :=
  match src.type with
  | .file => src.initFile direction locks attempt env
  | .net => src.initNet direction locks attempt env
  | .httpSrc => src.initHTTPSrc locks attempt env
  | .fw => src.initFW locks attempt env

/-- `SourceInfo::init`: a source that has its element stays as it is. -/
def init (src : SourceInfo) (direction : Direction) (locks : List Lock) (attempt : ℕ)
    (env : InitEnv) : Init :=
  if direction = .source ∧ src.mElement.isSome then { src, locks, ok := true }
  else src.initInternal direction locks attempt env

/-- `deinit`, with the answer to the STOP; a rejection is ignored. -/
def deinit (src : SourceInfo) (locks : List Lock) (stop : Answer) : SourceInfo × List Lock :=
  ({ src with mElement := none, mModule := false },
    if src.mModule ∧ stop ≠ .rejected then locks.filter (· ≠ src.lock) else locks)

/-! ### What the initialisation does -/

/-- The module locks for the initialisation of a source without an element. -/
def Takes (src : SourceInfo) (direction : Direction) (locks : List Lock) (env : InitEnv) : Prop :=
  src.lock ∉ locks ∧ env.start ≠ .rejected ∧
    match src.type with
    | .file => direction = .sink ∧ env.made = true
    | .net => direction = .sink ∧ env.netInfo = some .udp
    | .httpSrc => False
    | .fw => True

/-- The initialisation of a source without an element returns. -/
def Inits (src : SourceInfo) (direction : Direction) (locks : List Lock) (env : InitEnv) : Prop :=
  env.made = true ∧
    match src.type with
    | .file => env.start = .ok ∧ if direction = .sink then src.lock ∉ locks else env.props = true
    | .net => env.props = true ∧ env.netInfo ≠ none ∧
        (direction = .sink → env.netInfo = some .udp → src.lock ∉ locks ∧ env.start = .ok)
    | .httpSrc => env.start = .ok ∧ env.parsed = true
    | .fw => src.lock ∉ locks ∧ env.start = .ok ∧ env.parsed = true

/-- What the initialisation of a source without an element results in. -/
structure Initialised (src : SourceInfo) (direction : Direction) (locks : List Lock) (attempt : ℕ)
    (env : InitEnv) (r : Init) : Prop where
  lock : r.src.lock = src.lock
  mem : ∀ l, l ∈ r.locks ↔ l ∈ locks ∨ l = src.lock ∧ src.Takes direction locks env
  mModule : r.src.mModule = true ↔
    src.mModule = true ∨ src.Takes direction locks env ∧ env.start = .ok
  ok : r.ok = true ↔ src.Inits direction locks env
  mElement : r.ok = true → r.src.mElement = some attempt

@[simp] theorem lock_setElement {src : SourceInfo} {attempt : ℕ} :
    (src.setElement attempt).lock = src.lock := rfl

@[simp] theorem mElement_setElement {src : SourceInfo} {attempt : ℕ} :
    (src.setElement attempt).mElement = some attempt := rfl

@[simp] theorem mModule_setElement {src : SourceInfo} {attempt : ℕ} :
    (src.setElement attempt).mModule = src.mModule := rfl

@[simp] theorem lock_setModule {src : SourceInfo} : src.setModule.lock = src.lock := rfl

@[simp] theorem mElement_setModule {src : SourceInfo} : src.setModule.mElement = src.mElement := rfl

@[simp] theorem mModule_setModule {src : SourceInfo} : src.setModule.mModule = true := rfl

variable {src : SourceInfo} {direction : Direction} {locks : List Lock} {attempt : ℕ}
variable {env : InitEnv} {l : Lock} {answer : Answer} {made : Bool}

/-- `initElement` without an element. -/
theorem initElement_of_none (h : src.mElement = none) :
    src.initElement locks attempt made =
      if made then { src := src.setElement attempt, locks, ok := true }
      else { src, locks, ok := false } :=
  if_neg (by simp [h])

/-- `start` in each of its cases. -/
inductive Start (src : SourceInfo) (locks : List Lock) (answer : Answer) : Init → Prop
  | inUse (hlock : src.lock ∈ locks) : Start src locks answer { src, locks, ok := false }
  | rejected (hlock : src.lock ∉ locks) (hanswer : answer = .rejected) :
      Start src locks answer { src, locks, ok := false }
  | lost (hlock : src.lock ∉ locks) (hanswer : answer = .lost) :
      Start src locks answer { src, locks := src.lock :: locks, ok := false }
  | ok (hlock : src.lock ∉ locks) (hanswer : answer = .ok) :
      Start src locks answer
        { src := src.setModule, locks := src.lock :: locks, ok := true }

theorem start_cases (src : SourceInfo) (locks : List Lock) (answer : Answer) :
    Start src locks answer (src.start locks answer) := by
  unfold start
  by_cases hlock : src.lock ∈ locks
  · rw [if_pos hlock]
    exact .inUse hlock
  · rw [if_neg hlock]
    cases answer with
    | ok => exact .ok hlock rfl
    | rejected => exact .rejected hlock rfl
    | lost => exact .lost hlock rfl

theorem initFile_spec (htype : src.type = .file) (h : src.mElement = none) :
    Initialised src direction locks attempt env (src.initFile direction locks attempt env) := by
  unfold initFile
  rw [initElement_of_none h]
  cases hmade : env.made with
  | false => constructor <;> simp [Init.andThen, Takes, Inits, htype, hmade]
  | true =>
    cases direction with
    | source =>
      cases hanswer : env.start <;> constructor <;>
        simp [Init.andThen, request, Takes, Inits, htype, hmade, hanswer]
    | sink =>
      have hstart := start_cases (src.setElement attempt) locks env.start
      simp only [Init.andThen, if_true]
      generalize (src.setElement attempt).start locks env.start = r at hstart ⊢
      cases hstart with
      | inUse hlock | rejected hlock hanswer | lost hlock hanswer | ok hlock hanswer =>
        rw [lock_setElement] at hlock
        constructor <;> simp [Takes, Inits, *, or_comm]

theorem initNet_spec (htype : src.type = .net) (h : src.mElement = none) :
    Initialised src direction locks attempt env (src.initNet direction locks attempt env) := by
  unfold initNet
  cases hinfo : env.netInfo with
  | none => constructor <;> simp [Takes, Inits, htype, hinfo]
  | some proto =>
    dsimp only
    split_ifs with hlocks
    · obtain ⟨rfl, rfl⟩ := hlocks
      have hstart := start_cases src locks env.start
      generalize src.start locks env.start = r at hstart ⊢
      cases hstart with
      | inUse hlock | rejected hlock hanswer | lost hlock hanswer =>
        constructor <;> simp [Init.andThen, Takes, Inits, *, or_comm]
      | ok hlock hanswer =>
        have h' : src.setModule.mElement = none := h
        simp only [Init.andThen, if_true, initElement_of_none h']
        cases hmade : env.made <;> constructor <;>
          simp [Takes, Inits, htype, hinfo, hlock, hanswer, hmade, or_comm]
    · have hfree : direction = .sink → ¬proto = .udp := not_and.1 hlocks
      simp only [Init.andThen, if_true, initElement_of_none h]
      cases hmade : env.made <;> constructor <;>
        simp +contextual [Takes, Inits, htype, hinfo, hmade, hfree]

theorem initHTTPSrc_spec (htype : src.type = .httpSrc) (h : src.mElement = none) :
    Initialised src direction locks attempt env (src.initHTTPSrc locks attempt env) := by
  unfold initHTTPSrc request
  simp only [Init.andThen, initElement_of_none h]
  cases hanswer : env.start <;> cases hparsed : env.parsed <;> cases hmade : env.made <;>
    constructor <;> simp [Takes, Inits, htype, hanswer, hparsed, hmade]

theorem initFW_spec (htype : src.type = .fw) (h : src.mElement = none) :
    Initialised src direction locks attempt env (src.initFW locks attempt env) := by
  unfold initFW
  have hstart := start_cases src locks env.start
  generalize src.start locks env.start = r at hstart ⊢
  cases hstart with
  | inUse hlock | rejected hlock hanswer | lost hlock hanswer =>
    constructor <;> simp [Init.andThen, Takes, Inits, *, or_comm]
  | ok hlock hanswer =>
    have h' : src.setModule.mElement = none := h
    simp only [Init.andThen, if_true, initElement_of_none h']
    cases hparsed : env.parsed <;> cases hmade : env.made <;> constructor <;>
      simp [Takes, Inits, htype, hlock, hanswer, hparsed, hmade, or_comm]

theorem initInternal_spec (h : src.mElement = none) :
    Initialised src direction locks attempt env
      (src.initInternal direction locks attempt env) := by
  unfold initInternal
  cases htype : src.type with
  | file => exact initFile_spec htype h
  | net => exact initNet_spec htype h
  | httpSrc => exact initHTTPSrc_spec htype h
  | fw => exact initFW_spec htype h

theorem initElement_of_some (h : src.mElement ≠ none) :
    src.initElement locks attempt made = { src, locks, ok := false } :=
  if_pos (Option.isSome_iff_ne_none.2 h)

/-- A destination with an element is not initialised again. -/
theorem not_ok_of_init {r : Init} (h : src.mElement ≠ none)
    (hr : src.init .sink locks attempt env = r) : r.ok = false := by
  subst hr
  unfold init initInternal
  rw [if_neg (by simp)]
  have hstart := start_cases src locks env.start
  have h' : src.setModule.mElement ≠ none := h
  cases src.type with
  | file =>
    dsimp only
    rw [initFile, initElement_of_some h]
    rfl
  | net =>
    dsimp only
    unfold initNet
    split
    · rfl
    · split_ifs
      · generalize src.start locks env.start = r at hstart ⊢
        cases hstart <;> simp [Init.andThen, initElement_of_some h']
      · simp [Init.andThen, initElement_of_some h]
  | httpSrc =>
    dsimp only
    unfold initHTTPSrc request
    cases env.start <;> cases env.parsed <;> simp [Init.andThen, initElement_of_some h]
  | fw =>
    dsimp only
    unfold initFW
    generalize src.start locks env.start = r at hstart ⊢
    cases env.parsed <;> cases hstart <;> simp [Init.andThen, initElement_of_some h']

/-- A source that has its element stays as it is. -/
theorem init_of_mElement (h : src.mElement ≠ none) :
    src.init .source locks attempt env = { src, locks, ok := true } :=
  if_pos ⟨rfl, Option.isSome_iff_ne_none.2 h⟩

theorem initialised_of_init {r : Init} (h : src.mElement = none)
    (hr : src.init direction locks attempt env = r) :
    Initialised src direction locks attempt env r := by
  rw [init, if_neg (by simp [h])] at hr
  exact hr ▸ initInternal_spec h

/-- Of the sources, only a device is locked. -/
theorem Takes.type_eq (h : src.Takes .source locks env) : src.type = .fw := by
  unfold Takes at h
  cases htype : src.type <;> simp_all

/-- A source gets its lock after the destination if it would get it before, and if this is not the
one that the destination has got. -/
theorem takes_source_iff (src : SourceInfo) (env : InitEnv) {dst : SourceInfo} {dstEnv : InitEnv}
    {locks' : List Lock} (hinits : dst.Inits .sink locks dstEnv)
    (hmem : ∀ l, l ∈ locks' ↔ l ∈ locks ∨ l = dst.lock ∧ dst.Takes .sink locks dstEnv) :
    src.Takes .source locks' env ↔ src.Takes .source locks env ∧ src.lock ≠ dst.lock := by
  constructor
  · intro h
    have hnot : ¬(src.lock ∈ locks ∨ src.lock = dst.lock ∧ dst.Takes .sink locks dstEnv) := by
      rw [← hmem]
      exact h.1
    obtain ⟨hlocks, hdst⟩ := not_or.1 hnot
    refine ⟨⟨hlocks, h.2⟩, fun heq => hdst ⟨heq, ?_⟩⟩
    -- the destination would be the device
    have htype : dst.type = .fw := (congrArg Prod.fst heq).symm.trans h.type_eq
    simp only [Inits, htype] at hinits
    simp [Takes, htype, hinits.2.1, hinits.2.2.1]
  · rintro ⟨h, hne⟩
    refine ⟨fun hlock => ?_, h.2⟩
    obtain hlock | ⟨heq, -⟩ := (hmem src.lock).1 hlock
    · exact h.1 hlock
    · exact hne heq

end SourceInfo

/-! ## Tasks -/

structure Task where
  /-- the attempt that has constructed it -/
  id : ℕ
  /-- the `TaskInfo` it has been constructed from -/
  info : ℕ
  deriving DecidableEq, Repr

/-- The `TaskInfo` objects and the tasks. -/
structure Transcode where
  infos : ℕ → TaskInfo
  tasks : List Task := []
  /-- what the modules have locked for the application -/
  locks : List Lock := []
  /-- how many constructions there have been -/
  attempts : ℕ := 0

/-- What happens while a task is constructed. -/
structure TaskEnv where
  destination : InitEnv
  source : InitEnv
  /-- the answer to the STOP of the clean-up -/
  stop : Answer
  deriving DecidableEq, Repr

namespace Transcode

/-- `deinit` of the task's constructor and destructor; the branch is not set, or cleared. -/
def deinit (s : Transcode) (info : ℕ) (stop : Answer) : Transcode :=
  let task := s.infos info
  let (destination, locks) := task.mDestination.deinit s.locks stop
  { s with
    infos := update s.infos info
      { task with mDestination := destination, mGetDuration := none }
    locks }

/-- The constructor of `Task`, and whether it returns. -/
def construct (s : Transcode) (info : ℕ) (env : TaskEnv) : Transcode × Bool :=
  let task := s.infos info
  let destination := task.mDestination.init .sink s.locks s.attempts env.destination
  let s' := { s with
    infos := update s.infos info { task with mDestination := destination.src }
    locks := destination.locks
    attempts := s.attempts + 1 }
  if destination.ok then
    let source := task.mSource.init .source destination.locks s.attempts env.source
    let s'' := { s' with
      infos := update s.infos info
        { mSource := source.src, mDestination := destination.src, mGetDuration := some s.attempts }
      locks := source.locks }
    if source.ok then ({ s'' with tasks := { id := s.attempts, info } :: s.tasks }, true)
    else (s''.deinit info env.stop, false)
  else (s'.deinit info env.stop, false)

/-- The destructor. -/
def destroy (s : Transcode) (t : Task) (stop : Answer) : Transcode :=
  { s with tasks := s.tasks.erase t }.deinit t.info stop

/-- `m_source->deinit()` in `Pipeline::clean`. -/
def deinitSource (s : Transcode) (info : ℕ) (stop : Answer) : Transcode :=
  let task := s.infos info
  let (source, locks) := task.mSource.deinit s.locks stop
  { s with infos := update s.infos info { task with mSource := source }, locks }

end Transcode

inductive Action
  | construct (info : ℕ) (env : TaskEnv)
  /-- the destructor, also after `addTask` has thrown -/
  | destroy (t : Task) (stop : Answer)
  | deinitSource (info : ℕ) (stop : Answer)
  deriving DecidableEq, Repr

def step (s : Transcode) : Action → Option Transcode
  | .construct info env => some (s.construct info env).1
  | .destroy t stop => if t ∈ s.tasks then some (s.destroy t stop) else none
  | .deinitSource info stop => some (s.deinitSource info stop)

/-- Sources and destinations as `getSource` creates them, each for one `TaskInfo`. -/
def created (source destination : ℕ → SourceType × String) : Transcode where
  infos info :=
    { mSource := { type := (source info).1, uuid := (source info).2 }
      mDestination := { type := (destination info).1, uuid := (destination info).2 } }

/-! ## Failed constructions -/

namespace Transcode

/-- The task keeps its destination's element, its lock and its callback. -/
structure Keeps (s s' : Transcode) (t : Task) : Prop where
  mDestination : (s'.infos t.info).mDestination = (s.infos t.info).mDestination
  mGetDuration : (s'.infos t.info).mGetDuration = (s.infos t.info).mGetDuration
  lock : (s.infos t.info).mDestination.lock ∈ s.locks →
    (s.infos t.info).mDestination.lock ∈ s'.locks

/-- All tasks keep what they have, and no lock has come to stay. -/
structure Undone (s s' : Transcode) : Prop where
  keeps : ∀ t ∈ s.tasks, Keeps s s' t
  locks : ∀ l ∈ s'.locks, l ∈ s.locks

/-- No task has been constructed from the `TaskInfo`, the clean-up gives back the lock of the
destination, and no lock is taken for the source. -/
structure Safe (s : Transcode) (info : ℕ) (env : TaskEnv) : Prop where
  unshared : ∀ t ∈ s.tasks, t.info ≠ info
  released : (s.infos info).mDestination.Takes .sink s.locks env.destination →
    env.destination.start = .ok ∧ env.stop ≠ .rejected
  source : (s.infos info).mDestination.Inits .sink s.locks env.destination →
    (s.infos info).mSource.mElement = none →
      (s.infos info).mSource.Takes .source s.locks env.source →
        (s.infos info).mSource.lock = (s.infos info).mDestination.lock

/-- The destination of a task has an element, and any other one has neither an element nor a
lock. -/
structure Inv (s : Transcode) : Prop where
  nodup : (s.tasks.map Task.info).Nodup
  running : ∀ t ∈ s.tasks, (s.infos t.info).mDestination.mElement ≠ none
  idle : ∀ info ∉ s.tasks.map Task.info,
    (s.infos info).mDestination.mElement = none ∧ (s.infos info).mDestination.mModule = false

variable {s s' : Transcode} {info info' : ℕ} {env : TaskEnv} {stop : Answer} {t : Task} {l : Lock}

theorem mem_locks_deinit : l ∈ (s.deinit info stop).locks ↔
    l ∈ s.locks ∧ ¬(l = (s.infos info).mDestination.lock ∧
      (s.infos info).mDestination.mModule = true ∧ stop ≠ .rejected) := by
  unfold deinit SourceInfo.deinit
  dsimp only
  split_ifs with hstop
  · simp [hstop]
  · simp [not_and_of_not_right _ hstop]

theorem infos_deinit : (s.deinit info stop).infos = update s.infos info
    { s.infos info with
      mDestination := { (s.infos info).mDestination with mElement := none, mModule := false }
      mGetDuration := none } := rfl

/-- The construction in each of its cases; what is left of a failed one is undone by `deinit`. -/
inductive Construct (s : Transcode) (info : ℕ) (env : TaskEnv) : Transcode × Bool → Prop
  | destination (d : Init)
      (hd : (s.infos info).mDestination.init .sink s.locks s.attempts env.destination = d)
      (hok : d.ok = false) :
      Construct s info env
        ({ s with
            infos := update s.infos info { s.infos info with mDestination := d.src }
            locks := d.locks
            attempts := s.attempts + 1 : Transcode }.deinit info env.stop, false)
  | source (d q : Init)
      (hd : (s.infos info).mDestination.init .sink s.locks s.attempts env.destination = d)
      (hq : (s.infos info).mSource.init .source d.locks s.attempts env.source = q)
      (hdok : d.ok = true) (hqok : q.ok = false) :
      Construct s info env
        ({ s with
            infos := update s.infos info ⟨q.src, d.src, some s.attempts⟩
            locks := q.locks
            attempts := s.attempts + 1 : Transcode }.deinit info env.stop, false)
  | constructed (d q : Init)
      (hd : (s.infos info).mDestination.init .sink s.locks s.attempts env.destination = d)
      (hq : (s.infos info).mSource.init .source d.locks s.attempts env.source = q)
      (hdok : d.ok = true) (hqok : q.ok = true) :
      Construct s info env
        ({ infos := update s.infos info ⟨q.src, d.src, some s.attempts⟩
           tasks := ⟨s.attempts, info⟩ :: s.tasks
           locks := q.locks
           attempts := s.attempts + 1 }, true)

theorem construct_cases (s : Transcode) (info : ℕ) (env : TaskEnv) :
    Construct s info env (s.construct info env) := by
  unfold construct
  dsimp only
  split_ifs with hdok hqok
  · exact .constructed _ _ rfl rfl hdok hqok
  · exact .source _ _ rfl rfl hdok (by simpa using hqok)
  · exact .destination _ rfl (by simpa using hdok)

theorem infos_construct_of_ne (hne : info' ≠ info) :
    (s.construct info env).1.infos info' = s.infos info' := by
  have hcases := construct_cases s info env
  generalize s.construct info env = res at hcases ⊢
  cases hcases <;> simp [infos_deinit, hne]

/-- A failed construction leaves the destination without an element. -/
theorem idle_construct (h : (s.construct info env).2 = false) :
    ((s.construct info env).1.infos info).mDestination.mElement = none ∧
      ((s.construct info env).1.infos info).mDestination.mModule = false := by
  have hcases := construct_cases s info env
  generalize s.construct info env = res at hcases h ⊢
  cases hcases with
  | destination | source => simp [infos_deinit]
  | constructed => cases h

theorem tasks_construct (h : (s.construct info env).2 = false) :
    (s.construct info env).1.tasks = s.tasks := by
  have hcases := construct_cases s info env
  generalize s.construct info env = res at hcases h ⊢
  cases hcases with
  | destination | source => rfl
  | constructed => cases h

/-- The locks after a failed construction: the source may have taken one, and the one of the
destination may have been given back. -/
theorem mem_locks_construct (h : (s.construct info env).2 = false)
    (hidle : (s.infos info).mDestination.mElement = none ∧
      (s.infos info).mDestination.mModule = false) :
    l ∈ (s.construct info env).1.locks ↔
      (l ∈ s.locks ∨
        (l = (s.infos info).mDestination.lock ∧
          (s.infos info).mDestination.Takes .sink s.locks env.destination) ∨
        l = (s.infos info).mSource.lock ∧
          (s.infos info).mDestination.Inits .sink s.locks env.destination ∧
          (s.infos info).mSource.mElement = none ∧
          (s.infos info).mSource.Takes .source s.locks env.source ∧
          (s.infos info).mSource.lock ≠ (s.infos info).mDestination.lock) ∧
      ¬(l = (s.infos info).mDestination.lock ∧
        ((s.infos info).mDestination.Takes .sink s.locks env.destination ∧
          env.destination.start = .ok) ∧ env.stop ≠ .rejected) := by
  have hcases := construct_cases s info env
  generalize s.construct info env = res at hcases h ⊢
  cases hcases with
  | destination d hd hok =>
    have hspec := SourceInfo.initialised_of_init hidle.1 hd
    have hnot : ¬(s.infos info).mDestination.Inits .sink s.locks env.destination := by
      rw [← hspec.ok, hok]
      exact Bool.false_ne_true
    rw [mem_locks_deinit]
    simp only [update_self, hspec.lock, hspec.mem, hspec.mModule, hidle.2, Bool.false_eq_true,
      false_or, hnot, false_and, and_false, or_false]
  | source d q hd hq hdok hqok =>
    have hspec := SourceInfo.initialised_of_init hidle.1 hd
    have hinits := hspec.ok.1 hdok
    have helement : (s.infos info).mSource.mElement = none := by
      by_contra hne
      rw [SourceInfo.init_of_mElement hne] at hq
      cases hq
      cases hqok
    have hsource := SourceInfo.initialised_of_init helement hq
    have htakes := SourceInfo.takes_source_iff (s.infos info).mSource env.source hinits hspec.mem
    rw [mem_locks_deinit]
    simp only [update_self, hspec.lock, hspec.mModule, hidle.2, Bool.false_eq_true, false_or,
      hsource.mem, hspec.mem, htakes, hinits, helement, true_and, or_assoc]
  | constructed => cases h

/-- Without another task on its `TaskInfo`, the locks decide. -/
theorem locks_iff (h : (s.construct info env).2 = false)
    (hidle : (s.infos info).mDestination.mElement = none ∧
      (s.infos info).mDestination.mModule = false) (hunshared : ∀ t ∈ s.tasks, t.info ≠ info) :
    (∀ l ∈ (s.construct info env).1.locks, l ∈ s.locks) ↔ Safe s info env := by
  constructor
  · intro hlocks
    refine ⟨hunshared, fun htakes => ?_, fun hinits helement htakes => ?_⟩
    · by_contra hnot
      refine htakes.1 (hlocks _ ((mem_locks_construct h hidle).2 ⟨.inr (.inl ⟨rfl, htakes⟩), ?_⟩))
      exact fun hback => hnot ⟨hback.2.1.2, hback.2.2⟩
    · by_contra hne
      have hlock : (s.infos info).mSource.lock ∈ (s.construct info env).1.locks :=
        (mem_locks_construct h hidle).2
          ⟨.inr (.inr ⟨rfl, hinits, helement, htakes, hne⟩), fun hback => hne hback.1⟩
      exact htakes.1 (hlocks _ hlock)
  · intro hsafe l hl
    obtain ⟨hmem | ⟨rfl, htakes⟩ | ⟨-, hinits, helement, htakes, hne⟩, hback⟩ :=
      (mem_locks_construct h hidle).1 hl
    · exact hmem
    · obtain ⟨hstart, hstop⟩ := hsafe.released htakes
      exact absurd ⟨rfl, ⟨htakes, hstart⟩, hstop⟩ hback
    · exact absurd (hsafe.source hinits helement htakes) hne

/-- Tasks of other `TaskInfo`s keep what they have. -/
theorem keeps_of_unshared (h : (s.construct info env).2 = false)
    (hidle : (s.infos info).mDestination.mElement = none ∧
      (s.infos info).mDestination.mModule = false) (hne : t.info ≠ info) :
    Keeps s (s.construct info env).1 t := by
  have hinfos : (s.construct info env).1.infos t.info = s.infos t.info :=
    infos_construct_of_ne hne
  refine ⟨by rw [hinfos], by rw [hinfos], fun hlock => ?_⟩
  refine (mem_locks_construct h hidle).2 ⟨.inl hlock, fun hback => ?_⟩
  exact hback.2.1.1.1 (hback.1 ▸ hlock)

theorem construct_undone_iff (hI : Inv s) (h : (s.construct info env).2 = false) :
    Undone s (s.construct info env).1 ↔ Safe s info env := by
  by_cases hunshared : ∀ t ∈ s.tasks, t.info ≠ info
  · have hidle := hI.idle info (by simpa using hunshared)
    constructor
    · exact fun hundone => (locks_iff h hidle hunshared).1 hundone.locks
    · intro hsafe
      refine ⟨fun t ht => ?_, (locks_iff h hidle hunshared).2 hsafe⟩
      exact keeps_of_unshared h hidle (hunshared t ht)
  · refine iff_of_false (fun hundone => hunshared fun t ht heq => ?_) fun hsafe =>
      hunshared hsafe.unshared
    -- the clean-up takes the element of the task
    subst heq
    have hnone := (idle_construct h).1
    rw [(hundone.keeps t ht).mDestination] at hnone
    exact hI.running t ht hnone

/-! ## Runs -/

theorem Inv.construct_of_fails (hI : Inv s) (h : (s.construct info env).2 = false)
    (hunshared : ∀ t ∈ s.tasks, t.info ≠ info) : Inv (s.construct info env).1 := by
  have htasks := tasks_construct h
  constructor
  case nodup => rw [htasks]; exact hI.nodup
  case running =>
    intro t ht
    rw [htasks] at ht
    rw [infos_construct_of_ne (hunshared t ht)]
    exact hI.running t ht
  case idle =>
    intro info' hinfo'
    rw [htasks] at hinfo'
    by_cases heq : info' = info
    · subst heq
      exact idle_construct h
    · rw [infos_construct_of_ne heq]
      exact hI.idle info' hinfo'

theorem Inv.construct_of_returns (hI : Inv s) (h : (s.construct info env).2 = true) :
    Inv (s.construct info env).1 := by
  have hcases := construct_cases s info env
  generalize s.construct info env = res at hcases h ⊢
  cases hcases with
  | destination | source => cases h
  | constructed d q hd hq hdok hqok =>
    have hunshared : info ∉ s.tasks.map Task.info := by
      intro hmem
      obtain ⟨t, ht, rfl⟩ := List.mem_map.1 hmem
      cases hdok.symm.trans (SourceInfo.not_ok_of_init (hI.running t ht) hd)
    have hspec := SourceInfo.initialised_of_init (hI.idle info hunshared).1 hd
    constructor
    case nodup => exact List.nodup_cons.2 ⟨hunshared, hI.nodup⟩
    case running =>
      refine List.forall_mem_cons.2 ⟨?_, fun t ht => ?_⟩
      · simp [hspec.mElement hdok]
      · have hne : t.info ≠ info := fun heq => hunshared (heq ▸ List.mem_map_of_mem ht)
        simpa [hne] using hI.running t ht
    case idle =>
      intro info' hinfo'
      obtain ⟨hne, hinfo'⟩ := not_or.1 (mt List.mem_cons.2 hinfo')
      simpa [hne] using hI.idle info' hinfo'

theorem Inv.destroy (hI : Inv s) (ht : t ∈ s.tasks) : Inv (s.destroy t stop) := by
  have hsub : (s.tasks.erase t).Sublist s.tasks := List.erase_sublist
  have hperm : (s.tasks.map Task.info).Perm (t.info :: (s.tasks.erase t).map Task.info) :=
    (List.perm_cons_erase ht).map Task.info
  have hnot := (List.nodup_cons.1 (hperm.nodup hI.nodup)).1
  unfold Transcode.destroy
  constructor
  case nodup => exact hI.nodup.sublist (hsub.map _)
  case running =>
    intro t' ht'
    have hne : t'.info ≠ t.info := fun heq => hnot (heq ▸ List.mem_map_of_mem ht')
    rw [infos_deinit, update_of_ne hne]
    exact hI.running t' (hsub.mem ht')
  case idle =>
    intro info' hinfo'
    rw [infos_deinit]
    by_cases heq : info' = t.info
    · subst heq
      simp
    · rw [update_of_ne heq]
      refine hI.idle info' fun hmem => ?_
      exact hinfo' ((List.mem_cons.1 (hperm.mem_iff.1 hmem)).resolve_left heq)

theorem mDestination_deinitSource :
    ((s.deinitSource info stop).infos info').mDestination = (s.infos info').mDestination := by
  unfold deinitSource
  dsimp only
  by_cases heq : info' = info
  · subst heq
    rw [update_self]
  · rw [update_of_ne heq]

theorem Inv.deinitSource (hI : Inv s) : Inv (s.deinitSource info stop) := by
  constructor
  case nodup => exact hI.nodup
  case running =>
    intro t ht
    rw [mDestination_deinitSource]
    exact hI.running t ht
  case idle =>
    intro info' hinfo'
    rw [mDestination_deinitSource]
    exact hI.idle info' hinfo'

end Transcode

open Transcode

/-- If the construction fails, it has left nothing. -/
def Atomic (s : Transcode) : Action → Prop
  | .construct info env =>
    (s.construct info env).2 = false → Undone s (s.construct info env).1
  | _ => True

/-- If the construction fails, it is of a `TaskInfo` of its own, and keeps no lock. -/
def ConstructOk (s : Transcode) : Action → Prop
  | .construct info env => (s.construct info env).2 = false → Safe s info env
  | _ => True

variable {s s' : Transcode} {a : Action}

theorem inv_step (hI : Inv s) (hok : ConstructOk s a) (h : step s a = some s') : Inv s' := by
  cases a with
  | construct info env =>
    cases h
    cases hret : (s.construct info env).2 with
    | true => exact hI.construct_of_returns hret
    | false => exact hI.construct_of_fails hret (hok hret).unshared
  | destroy t stop =>
    obtain ⟨ht, h⟩ := Option.ite_none_right_eq_some.1 h
    cases h
    exact hI.destroy ht
  | deinitSource info stop =>
    cases h
    exact hI.deinitSource

theorem atomic_iff (hI : Inv s) : Atomic s a ↔ ConstructOk s a := by
  cases a with
  | construct info env => exact forall_congr' fun h => construct_undone_iff hI h
  | destroy | deinitSource => exact Iff.rfl

theorem inv_created (source destination : ℕ → SourceType × String) :
    Inv (created source destination) where
  nodup := List.nodup_nil
  running _ ht := absurd ht List.not_mem_nil
  idle _ _ := ⟨rfl, rfl⟩

/-- In a run, the constructions that fail leave everything as it was exactly if each of them is of a
`TaskInfo` that no task has been constructed from, and keeps no lock. -/
theorem eachStep_atomic_iff (source destination : ℕ → SourceType × String) (as : List Action) :
    EachStep step Atomic (created source destination) as ↔
      EachStep step ConstructOk (created source destination) as :=
  eachStep_congr_of_ok inv_step (fun hI _ => atomic_iff hI) (inv_created source destination)

/-! ## A task that is constructed twice -/

/-- Everything goes well for a UDP route and a file. -/
def allWell : TaskEnv where
  destination := { netInfo := some .udp, start := .ok, parsed := true, made := true, props := true }
  source := { netInfo := none, start := .ok, parsed := true, made := true, props := true }
  stop := .ok

/-- The second construction is rejected by the network module, and takes the element, the lock and
the callback of the task. -/
theorem second_takes :
    ∃ s, exec step (created (fun _ => (.file, "movie")) fun _ => (.net, "route"))
        [.construct 0 allWell] = some s ∧
      s.tasks = [⟨0, 0⟩] ∧ (s.infos 0).mDestination.mElement = some 0 ∧
      (s.infos 0).mGetDuration = some 0 ∧ s.locks = [(.net, "route")] ∧
      (s.construct 0 allWell).2 = false ∧
      ((s.construct 0 allWell).1.infos 0).mDestination.mElement = none ∧
      ((s.construct 0 allWell).1.infos 0).mGetDuration = none ∧
      (s.construct 0 allWell).1.locks = [] ∧
      ¬Atomic s (.construct 0 allWell) := by
  refine ⟨_, rfl, rfl, rfl, rfl, rfl, rfl, rfl, rfl, rfl, fun h => ?_⟩
  have hkeeps := ((h rfl).keeps ⟨0, 0⟩ List.mem_cons_self).mDestination
  cases congrArg SourceInfo.mElement hkeeps

end Kalinka.Trans.TaskInit
