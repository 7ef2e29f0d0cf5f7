import Kalinka.App.HttpStreamer.InUDP

/-!
# The reader of an input on demand

`InThread::start` resets the reader in each turn, and `initReader` of an `InUDPThread` sets it again
with `m_init_lock` held.  `increaseConnectionCount` ends with that lock, so that the connection
finds the reader; but a connection that comes before the thread has taken the lock does not wait.

`throughout_ready_iff` says in which runs the reader is there for every connection that was let
through.
-/

namespace Kalinka.Http

open Run

/-- The place follows an initialisation of the reader in the same turn, or begins a turn. -/
def UdpPc.hasReader : UdpPc → Bool
  | .lock | .wait | .blocked | .woken => false
  | _ => true

/-- An input with its reader. -/
structure UdpInput where
  thread : InUDPThread := {}
  /-- `m_reader` is set -/
  mReader : Bool := false
  /-- the last initialisation threw -/
  threw : Bool := false
  /-- the first turn of `start()` has begun -/
  begun : Bool := false
  /-- the connections that were let through while the input was not stopped and its last
  initialisation had not thrown, and that are still counted -/
  promised : ℕ := 0
  deriving DecidableEq, Repr

inductive ReaderAction
  | udp (a : UdpAction)
  /-- `decreaseConnectionCount` for one of the promised connections, or for another one -/
  | leave (promised : Bool)
  deriving DecidableEq, Repr

namespace UdpInput

/-- The step of the thread with what it does to the reader. -/
def afterGo (s : UdpInput) (ok : Bool) (thread : InUDPThread) : UdpInput :=
  match s.thread.pc with
  | .start =>
    if s.thread.stopped then { s with thread }
    -- `resetReader()`
    else { s with thread, mReader := false, begun := true }
  | .lock => { s with thread, threw := s.threw || !ok }
  | .woken =>
    if s.thread.stopped then { s with thread }
    else { s with thread, mReader := s.mReader || ok, threw := !ok }
  | _ => { s with thread }

/-- `increaseConnectionCount` returns. -/
def afterEnter (s : UdpInput) (thread : InUDPThread) : UdpInput :=
  if s.thread.stopped ∨ s.threw then { s with thread }
  else { s with thread, promised := s.promised + 1 }

def step (s : UdpInput) : ReaderAction → Option UdpInput
  | .udp (.go ok) => (s.thread.step (.go ok)).map (s.afterGo ok)
  | .udp .enter => (s.thread.step .enter).map s.afterEnter
  | .udp .leave => none
  | .udp a => (s.thread.step a).map fun thread => { s with thread }
  | .leave true =>
    if s.promised = 0 then none
    else (s.thread.step .leave).map fun thread => { s with thread, promised := s.promised - 1 }
  | .leave false =>
    if s.thread.served ≤ s.promised then none
    else (s.thread.step .leave).map fun thread => { s with thread }

/-- Every promised connection finds the reader. -/
def Ready (s : UdpInput) : Prop := s.promised ≠ 0 → s.mReader = true

/-- No connection is promised the reader while the thread is between the beginning of a turn and
`m_init_lock`, or before its first turn; and no turn begins while a promised connection is there. -/
def StepOk (s : UdpInput) : ReaderAction → Prop
  | .udp .enter => s.thread.stopped = false → s.threw = false →
      s.thread.pc ≠ .lock ∧ (s.thread.pc = .start → s.begun = true)
  | .udp (.go _) => s.thread.pc = .start → s.thread.stopped = false → s.promised = 0
  | _ => True

/-- What holds in every run. -/
structure Inv (s : UdpInput) : Prop where
  begun : s.thread.stopped = false → s.thread.pc ≠ .start → s.begun = true
  reader : s.thread.stopped = false → s.threw = false →
    (s.mReader = true ↔ s.thread.pc.hasReader = true ∧ s.begun = true)

variable {s s' : UdpInput} {thread : InUDPThread} {a : ReaderAction} {b : UdpAction} {ok : Bool}

/-! ## The steps of the thread -/

/-- Where the thread goes in a step that neither begins a turn nor initialises the reader. -/
theorem pc_of_step (hb : ∀ ok, b ≠ .go ok) (h : s.thread.step b = some thread) :
    (thread.pc = .start ↔ s.thread.pc = .start) ∧
      thread.pc.hasReader = s.thread.pc.hasReader ∧
      (thread.stopped = false → s.thread.stopped = false) := by
  cases b with
  | go ok => exact absurd rfl (hb ok)
  | block =>
    obtain ⟨hpc, -, rfl⟩ := InUDPThread.step_block_eq_some_iff.1 h
    simp [hpc, UdpPc.hasReader]
  | take =>
    obtain ⟨hpc | hpc, sem, -, rfl⟩ := InUDPThread.step_take_eq_some_iff.1 h <;>
      simp [hpc, UdpPc.hasReader]
  | interrupt =>
    obtain ⟨hpc, rfl⟩ := InUDPThread.step_interrupt_eq_some_iff.1 h
    simp [hpc, UdpPc.hasReader]
  | isLocked =>
    obtain ⟨hpc, ⟨-, rfl⟩ | ⟨sem, -, rfl⟩⟩ := InUDPThread.step_isLocked_eq_some_iff.1 h <;>
      simp [hpc, UdpPc.hasReader]
  | arrive =>
    obtain rfl := Option.some.inj h
    exact ⟨Iff.rfl, rfl, id⟩
  | post =>
    obtain ⟨-, rfl⟩ := InUDPThread.step_post_eq_some_iff.1 h
    exact ⟨Iff.rfl, rfl, id⟩
  | enter =>
    obtain ⟨-, rfl⟩ := InUDPThread.step_enter_eq_some_iff.1 h
    exact ⟨Iff.rfl, rfl, id⟩
  | leave =>
    obtain ⟨-, rfl⟩ := InUDPThread.step_leave_eq_some_iff.1 h
    exact ⟨Iff.rfl, rfl, id⟩
  | tryWait =>
    obtain ⟨-, ⟨-, rfl⟩ | ⟨sem, -, rfl⟩⟩ := InUDPThread.step_tryWait_eq_some_iff.1 h <;>
      exact ⟨Iff.rfl, rfl, id⟩
  | leaveUncounted =>
    obtain rfl := Option.some.inj h
    exact ⟨Iff.rfl, rfl, id⟩
  | tryWaitUncounted =>
    obtain ⟨-, ⟨-, rfl⟩ | ⟨sem, -, rfl⟩⟩ := InUDPThread.step_tryWaitUncounted_eq_some_iff.1 h <;>
      exact ⟨Iff.rfl, rfl, id⟩
  | stop =>
    obtain rfl := Option.some.inj h
    exact ⟨Iff.rfl, rfl, fun h => by cases h⟩
  | postStop =>
    obtain ⟨-, rfl⟩ := InUDPThread.step_postStop_eq_some_iff.1 h
    exact ⟨Iff.rfl, rfl, id⟩

/-- The thread takes a step of others, or one that leaves the reader alone. -/
theorem Inv.of_step (hI : s.Inv) (hb : ∀ ok, b ≠ .go ok) (h : s.thread.step b = some thread)
    (promised : ℕ) : Inv { s with thread, promised } := by
  obtain ⟨hstart, hreader, hstopped⟩ := pc_of_step hb h
  refine ⟨fun hruns hne => hI.begun (hstopped hruns) fun heq => hne (hstart.2 heq),
    fun hruns hthrew => ?_⟩
  rw [hI.reader (hstopped hruns) hthrew]
  simp only [hreader]

theorem Inv.of_stopped (h : s.thread.stopped = true) : s.Inv :=
  ⟨fun hruns => (by rw [h] at hruns; cases hruns), fun hruns => (by rw [h] at hruns; cases hruns)⟩

/-- Both before and after a step the thread has its reader. -/
theorem Inv.of_hasReader (hI : s.Inv) (hpc : s.thread.pc ≠ .start)
    (hreader : s.thread.pc.hasReader = true) (hpc' : thread.pc.hasReader = true)
    (hstopped : thread.stopped = s.thread.stopped) : Inv { s with thread } := by
  refine ⟨fun hruns _ => hI.begun (hstopped ▸ hruns) hpc, fun hruns hthrew => ?_⟩
  rw [hI.reader (hstopped ▸ hruns) hthrew]
  simp only [hreader, hpc']

@[simp] theorem thread_afterGo : (s.afterGo ok thread).thread = thread := by
  unfold afterGo
  split <;> (try split) <;> rfl

theorem Inv.go (hI : s.Inv) (h : s.thread.go ok = some thread) : (s.afterGo ok thread).Inv := by
  cases hstopped : s.thread.stopped with
  | true =>
    obtain ⟨mSem, pc, lost, rfl, -, -⟩ := InUDPThread.go_cases h
    exact .of_stopped (by rw [thread_afterGo]; exact hstopped)
  | false =>
    cases hpc : s.thread.pc with
    | start =>
      simp only [InUDPThread.go, hpc, hstopped, Option.some.injEq] at h
      subst h
      simp only [afterGo, hpc, hstopped]
      exact ⟨fun _ _ => rfl, fun _ _ => by simp [UdpPc.hasReader]⟩
    | lock =>
      have hbegun := hI.begun hstopped (by simp [hpc])
      simp only [InUDPThread.go, hpc, Option.some.injEq] at h
      subst h
      simp only [afterGo, hpc]
      refine ⟨fun _ _ => hbegun, fun _ hthrew => ?_⟩
      obtain ⟨hthrew, hok⟩ := Bool.or_eq_false_iff.1 hthrew
      have hreader := hI.reader hstopped hthrew
      cases ok with
      | false => cases hok
      | true => simpa [hpc, UdpPc.hasReader] using hreader
    | woken =>
      have hbegun := hI.begun hstopped (by simp [hpc])
      simp only [InUDPThread.go, hpc, hstopped] at h
      cases ok with
      | false =>
        obtain rfl := Option.some.inj h
        simp only [afterGo, hpc, hstopped]
        exact ⟨fun _ _ => hbegun, fun _ hthrew => by cases hthrew⟩
      | true =>
        obtain rfl := Option.some.inj h
        simp only [afterGo, hpc, hstopped]
        exact ⟨fun _ _ => hbegun, fun _ _ => by simp [UdpPc.hasReader, hbegun]⟩
    | initialised | probed =>
      simp only [InUDPThread.go, hpc, Option.some.injEq] at h
      subst h
      simp only [afterGo, hpc]
      exact hI.of_hasReader (by simp [hpc]) (by simp [hpc, UdpPc.hasReader]) rfl rfl
    | loop => simp [InUDPThread.go, hpc, hstopped] at h
    | receive | clearing =>
      simp only [InUDPThread.go, hpc, Option.some.injEq] at h
      subst h
      simp only [afterGo, hpc]
      refine hI.of_hasReader (by simp [hpc]) (by simp [hpc, UdpPc.hasReader]) ?_ rfl
      cases ok <;> rfl
    | wait | blocked | finished =>
      simp only [InUDPThread.go, hpc] at h
      cases h

/-- What a step can do: a step of the thread, a connection that is let through, or a step that
leaves the reader alone and promises it to nobody. -/
inductive Moves (s : UdpInput) : ReaderAction → UdpInput → Prop
  | go (ok : Bool) (thread : InUDPThread) (h : s.thread.go ok = some thread) :
      Moves s (.udp (.go ok)) (s.afterGo ok thread)
  | enter (thread : InUDPThread) (h : s.thread.step .enter = some thread) :
      Moves s (.udp .enter) (s.afterEnter thread)
  | other (a : ReaderAction) (b : UdpAction) (thread : InUDPThread) (promised : ℕ)
      (hb : ∀ ok, b ≠ .go ok) (h : s.thread.step b = some thread) (hle : promised ≤ s.promised)
      (hok : s.StepOk a) : Moves s a { s with thread, promised }

theorem step_cases (hs : s.step a = some s') : Moves s a s' := by
  cases a with
  | udp b =>
    cases b with
    | go ok =>
      obtain ⟨thread, h, rfl⟩ := Option.map_eq_some_iff.1 hs
      exact .go ok thread h
    | enter =>
      obtain ⟨thread, h, rfl⟩ := Option.map_eq_some_iff.1 hs
      exact .enter thread h
    | leave => cases hs
    | arrive =>
      obtain rfl := Option.some.inj hs
      exact .other _ .arrive _ s.promised (by simp) rfl (Nat.le_refl _) trivial
    | stop =>
      obtain rfl := Option.some.inj hs
      exact .other _ .stop _ s.promised (by simp) rfl (Nat.le_refl _) trivial
    | leaveUncounted =>
      obtain rfl := Option.some.inj hs
      exact .other _ .leaveUncounted _ s.promised (by simp) rfl (Nat.le_refl _) trivial
    | block | take | interrupt | isLocked | post | tryWait | tryWaitUncounted | postStop =>
      obtain ⟨thread, h, rfl⟩ := Option.map_eq_some_iff.1 hs
      exact .other _ _ thread s.promised (by simp) h (Nat.le_refl _) trivial
  | leave promised =>
    cases promised with
    | true =>
      obtain ⟨-, hs⟩ := Option.ite_none_left_eq_some.1 hs
      obtain ⟨thread, h, rfl⟩ := Option.map_eq_some_iff.1 hs
      exact .other _ .leave thread _ (by simp) h (Nat.sub_le _ _) trivial
    | false =>
      obtain ⟨-, hs⟩ := Option.ite_none_left_eq_some.1 hs
      obtain ⟨thread, h, rfl⟩ := Option.map_eq_some_iff.1 hs
      exact .other _ .leave thread _ (by simp) h (Nat.le_refl _) trivial

theorem Inv.step (hI : s.Inv) (hs : s.step a = some s') : s'.Inv := by
  cases step_cases hs with
  | go ok thread h => exact hI.go h
  | enter thread h =>
    unfold afterEnter
    split <;> exact hI.of_step (by simp) h _
  | other _ b thread promised hb h => exact hI.of_step hb h promised

/-! ## The promise -/

/-- Only the beginning of a turn takes the reader away. -/
theorem ready_afterGo_iff (h : s.Ready) : (s.afterGo ok thread).Ready ↔
    (s.thread.pc = .start → s.thread.stopped = false → s.promised = 0) := by
  cases hpc : s.thread.pc with
  | start =>
    cases hstopped : s.thread.stopped with
    | true => simpa [afterGo, hpc, hstopped, Ready] using h
    | false => simp [afterGo, hpc, hstopped, Ready]
  | woken =>
    refine iff_of_true ?_ (by simp)
    simp only [afterGo, hpc]
    split
    · exact h
    · exact fun hne => by simp [h hne]
  | _ => simpa [afterGo, hpc, Ready] using h

/-- A connection that is let through in a turn finds the reader behind `m_init_lock`, and at the
beginning of the first turn it does not. -/
theorem ready_afterEnter_iff (hI : s.Inv) (h : s.Ready) (hlock : s.thread.pc.hasInitLock = false) :
    (s.afterEnter thread).Ready ↔ s.StepOk (.udp .enter) := by
  unfold afterEnter
  split
  next hexempt =>
    refine iff_of_true h fun hruns hthrew => ?_
    obtain hstopped | hthrew' := hexempt
    · rw [hruns] at hstopped
      cases hstopped
    · rw [hthrew] at hthrew'
      cases hthrew'
  next hexempt =>
    obtain ⟨hruns, hthrew⟩ := not_or.1 hexempt
    have hruns := eq_false_of_ne_true hruns
    have hthrew := eq_false_of_ne_true hthrew
    have hreader := hI.reader hruns hthrew
    have hready : Ready { s with thread, promised := s.promised + 1 } ↔ s.mReader = true :=
      ⟨fun h => h (Nat.succ_ne_zero _), fun h _ => h⟩
    have hbegun := hI.begun hruns
    rw [hready, hreader]
    simp only [StepOk, hruns, hthrew, forall_true_left]
    cases hpc : s.thread.pc <;> simp_all [UdpPc.hasReader, UdpPc.hasInitLock]

theorem ready_step_iff (hI : s.Inv) (h : s.Ready) (hs : s.step a = some s') :
    s'.Ready ↔ s.StepOk a := by
  cases step_cases hs with
  | go ok thread => exact ready_afterGo_iff h
  | enter thread henter =>
    obtain ⟨⟨-, hlock⟩, -⟩ := InUDPThread.step_enter_eq_some_iff.1 henter
    exact ready_afterEnter_iff hI h hlock
  | other _ b thread promised hb hstep hle hok =>
    exact iff_of_true (fun hne => h fun hzero => hne (Nat.le_zero.1 (hzero ▸ hle))) hok

/-- The runs in which every connection that is let through finds the reader as long as it is
connected. -/
theorem throughout_ready_iff (as : List ReaderAction) :
    Throughout step Ready {} as ↔ EachStep step StepOk {} as :=
  throughout_iff_eachStep Inv.step ready_step_iff
    ⟨fun _ h => absurd rfl h, fun _ _ => by simp⟩ fun h => absurd rfl h

/-- A connection comes while the thread is before `m_init_lock`, and is let through without a
reader. -/
theorem let_through : ∃ s, exec step {} [.udp (.go true), .udp .arrive, .udp .post, .udp .enter] =
      some s ∧ s.thread.stopped = false ∧ s.threw = false ∧ ¬s.Ready := by
  refine ⟨_, rfl, rfl, rfl, fun h => ?_⟩
  cases h (by decide)

end UdpInput

end Kalinka.Http
