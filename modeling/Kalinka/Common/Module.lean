import Kalinka.Common.Semaphore
import Kalinka.Common.HolderRun

/-!
# Modules as receivers

The part of `Module` that decides whether `addMessage` takes a message: the stop trigger of its
`Thread` base and `m_container`.  `init` sets the trigger back before it starts the container, and
`stop` stops the trigger before the container, so the two do not change together.
-/

namespace Kalinka

/-- Where a call of `Module::init` is, which holds the module's own lock: before the `sem_trywait`
of its assertion on `isStopped()`, before the post that undoes it, or before
`m_container.start()`. -/
inductive InitPc
  | outside
  | check
  | restore
  | start
  deriving DecidableEq, Repr

/-- A module, as a receiver of requests and asynchronous messages. -/
structure Module where
  /-- `m_stop` of `Thread` -/
  mStop : Semaphore := .init
  mContainer : HolderSystem StandardContainer := .fresh []
  init : InitPc := .outside
  /-- the `Module::stop` calls between `Thread::stop()` and `m_container.stop()` -/
  stops : ℕ := 0
  /-- the `isStopped()` calls between their `sem_trywait` and their post -/
  polls : ℕ := 0

inductive ModuleAction
  | init
  | initCheck
  | initRestore
  | start
  | stop
  | clear
  | stopContainer
  | poll
  | pollEnd
  | add (msg : IMessagePtr)
  | get
  | wake (ret : WaitRet)
  deriving DecidableEq, Repr

namespace Module

/-- A section of `m_container`. -/
def container (m : Module) (a : HolderAction) : Option Module :=
  (m.mContainer.step a).map fun mContainer => { m with mContainer }

/-- The steps of `init` and `stop`, of the module's own thread and of other senders. -/
def step (m : Module) : ModuleAction → Option Module
  | .init => if m.init = .outside then some { m with mStop := .init, init := .check } else none
  | .initCheck =>
    if m.init = .check then
      match m.mStop.tryWait with
      | some sem => some { m with mStop := sem, init := .restore }
      | none => some { m with init := .start }
    else none
  -- `BOOST_ASSERT(isStopped() == false)` throws
  | .initRestore =>
    if m.init = .restore then some { m with mStop := m.mStop.post, init := .outside } else none
  | .start =>
    if m.init = .start then ({ m with init := .outside } : Module).container .start else none
  | .stop => some { m with mStop := m.mStop.post, stops := m.stops + 1 }
  | .clear =>
    if m.stops = 0 then none else ({ m with stops := m.stops - 1 } : Module).container .clear
  | .stopContainer => m.container .stop
  | .poll =>
    match m.mStop.tryWait with
    | some sem => some { m with mStop := sem, polls := m.polls + 1 }
    | none => some m
  | .pollEnd =>
    if m.polls = 0 then none else some { m with mStop := m.mStop.post, polls := m.polls - 1 }
  | .add msg => m.container (.add msg)
  | .get => m.container .get
  | .wake ret => m.container (.wake ret)

/-- The container takes messages. -/
def accepts (m : Module) : Bool := !m.mContainer.holder.mStop

end Module

end Kalinka
