import Mathlib.Data.List.DropRight
import Mathlib.Logic.Function.Basic
import Mathlib.Tactic.ByContra
import Kalinka.App.HttpStreamer.ConThread

/-!
# Inputs of the HTTP streamer and their connections

An `InThread` counts the connections it serves, and `InThreadContainer` finds it by its path.  A
`ConnectThread` looks its input up twice: before it answers the request, when the input counts it,
and behind the `try` block of `start()`, when it is taken off again.  It gets to the second lookup
from everywhere, and by then the path may be unknown, or lead to another input.

`throughout_counted_iff` says exactly which runs keep the counts right.
-/

namespace Kalinka.Http

open Run Function

/-! ## Inputs -/

/-- `sock::Protocol`. -/
inductive Protocol
  | tcpip
  | udp
  deriving DecidableEq, Repr

/-- `InputInfo`, with the UUID and the protocol of its route. -/
structure InputInfo where
  uuid : String
  protocol : Protocol
  path : Path
  deriving DecidableEq, Repr

structure InThread where
  mInfo : InputInfo := { uuid := "", protocol := .tcpip, path := [] }
  mConCount : ℕ := 0
  deriving DecidableEq, Repr

namespace InThread

def increaseConnectionCount (t : InThread) : InThread := { t with mConCount := t.mConCount + 1 }

def decreaseConnectionCount (t : InThread) : InThread :=
  if t.mConCount > 0 then { t with mConCount := t.mConCount - 1 } else t

/-- `updateInfo`: nothing changes when an assertion throws. -/
def updateInfo (t : InThread) (info : InputInfo) : InThread :=
  if info.protocol = t.mInfo.protocol then { t with mInfo := info } else t

@[simp] theorem mConCount_updateInfo (t : InThread) (info : InputInfo) :
    (t.updateInfo info).mConCount = t.mConCount := by
  unfold updateInfo
  split <;> rfl

@[simp] theorem mConCount_decreaseConnectionCount (t : InThread) :
    t.decreaseConnectionCount.mConCount = t.mConCount - 1 := by
  unfold decreaseConnectionCount
  split
  · rfl
  · omega

end InThread

/-- The path without the slashes at its ends. -/
def trimPath (path : Path) : Path := (path.dropWhile (· = '/')).rdropWhile (· = '/')

/-- `IsRouteMatch` for a path. -/
def isRouteMatch (path path' : Path) : Bool :=
  trimPath path ≠ [] && trimPath path' ≠ [] && trimPath path = trimPath path'

/-! ## The way of a connection thread -/

namespace ConnectPc

/-- The input thread that the thread holds on to. -/
def inthread? : ConnectPc → Option ℕ
  | .respond inthread => inthread
  | .ok i | .header i | .leave i => some i
  | _ => none

/-- The thread has not been counted yet. -/
def beforeCount : ConnectPc → Bool
  | .request | .lookup | .respond _ => true
  | _ => false

end ConnectPc

namespace ConnectThread

variable {a : ConnectAction} {pc pc' : ConnectPc} {i : ℕ}

theorem Moves.finished (h : Moves a pc .finished) :
    pc = .finished ∨ a = .getInThread none ∨ a = .decreaseConnectionCount := by
  cases h with
  | stays => exact .inl rfl
  | unknown => exact .inr (.inl rfl)
  | goesOn _ _ h' => cases h'
  | left => exact .inr (.inr rfl)

theorem Moves.beforeCount (h : Moves a pc pc') (hpc : pc'.beforeCount = true) :
    pc.beforeCount = true := by
  cases h with
  | stays => exact hpc
  | parsed | found => rfl
  | goesOn _ _ h' => cases pc' <;> simp [ConnectPc.inData, ConnectPc.beforeCount] at h' hpc
  | leaves | unknown | counted | answered | headed | closes | left => cases hpc

theorem Moves.inthread? (h : Moves a pc pc') (hpc : pc'.inthread? = some i) :
    pc.inthread? = some i ∨ a = .getInThread (some i) := by
  cases h with
  | stays | counted | answered => exact .inl hpc
  | found inthread => exact .inr (congrArg _ hpc)
  | leaves j => exact .inr (congrArg _ hpc)
  | goesOn _ _ h' => cases pc' <;> simp [ConnectPc.inData, ConnectPc.inthread?] at h' hpc
  | parsed | unknown | headed | closes | left => cases hpc

end ConnectThread

/-! ## The streamer -/

/-- A connection thread, and the input it has been counted on and not yet left. -/
structure Connection where
  thread : ConnectThread := {}
  counted : Option ℕ := none
  deriving DecidableEq, Repr

/-- The inputs and connections of the streamer.  An `InThread` object keeps its number when it is
taken out of `m_list`. -/
structure HttpStreamer where
  inThreads : ℕ → InThread := fun _ => {}
  /-- the number of the next `InThread` -/
  next : ℕ := 0
  /-- `m_list` of `InThreadContainer` -/
  mList : List ℕ := []
  connections : List Connection := []
  /-- for each connection that was taken off: the input it was counted on, and the input it was
  taken off -/
  taken : List (Option ℕ × ℕ) := []

inductive HttpAction
  | connect
  /-- a step of the `k`-th connection -/
  | connection (k : ℕ) (a : ConnectAction)
  /-- `addInfo`; a new thread is `started` or its start throws -/
  | addInfo (info : InputInfo) (started : Bool)
  /-- `delInfo` up to the removal from `m_list` -/
  | delInfo (path : Path)
  deriving DecidableEq, Repr

namespace HttpStreamer

def getThreadByPath (s : HttpStreamer) (path : Path) : Option ℕ :=
  if path = [] then none else s.mList.find? fun i => isRouteMatch path (s.inThreads i).mInfo.path

def setInThread (s : HttpStreamer) (i : ℕ) (t : InThread) : HttpStreamer :=
  { s with inThreads := update s.inThreads i t }

def setConnection (s : HttpStreamer) (k : ℕ) (c : Connection) : HttpStreamer :=
  { s with connections := s.connections.set k c }

def addInfo (s : HttpStreamer) (info : InputInfo) (started : Bool) : HttpStreamer :=
  match s.mList.find? fun i => (s.inThreads i).mInfo.uuid = info.uuid with
  | some i => s.setInThread i ((s.inThreads i).updateInfo info)
  | none =>
    -- `BOOST_ASSERT(find_path == m_list.end())`
    if s.mList.any (fun i => isRouteMatch info.path (s.inThreads i).mInfo.path) || !started then s
    else { s.setInThread s.next { mInfo := info } with
      next := s.next + 1, mList := s.mList ++ [s.next] }

/-- The step `a` has taken the thread of the connection `c` to `t`. -/
def afterStep (s : HttpStreamer) (k : ℕ) (c : Connection) (t : ConnectThread) :
    ConnectAction → Option HttpStreamer
  | .getInThread inthread =>
    if inthread = s.getThreadByPath c.thread.mPath then
      some (s.setConnection k ⟨t, if t.pc = .finished then none else c.counted⟩)
    else none
  | .processResponse =>
    match c.thread.pc with
    | .respond (some i) =>
      some ((s.setConnection k ⟨t, some i⟩).setInThread i
        (s.inThreads i).increaseConnectionCount)
    | _ => some (s.setConnection k ⟨t, c.counted⟩)
  | .decreaseConnectionCount =>
    match c.thread.pc with
    | .leave i =>
      some { (s.setConnection k ⟨t, none⟩).setInThread i
          (s.inThreads i).decreaseConnectionCount with
        taken := if (s.inThreads i).mConCount > 0 then s.taken ++ [(c.counted, i)] else s.taken }
    | _ => none
  | _ => some (s.setConnection k ⟨t, c.counted⟩)

def step (s : HttpStreamer) : HttpAction → Option HttpStreamer
  | .connect => some { s with connections := s.connections ++ [{}] }
  | .connection k a =>
    (s.connections[k]?).bind fun c => (c.thread.step a).bind fun t => s.afterStep k c t a
  | .addInfo info started => some (s.addInfo info started)
  | .delInfo path =>
    -- `BOOST_ASSERT(thread)`
    (s.getThreadByPath path).map fun i => { s with mList := s.mList.filter (· ≠ i) }

/-- The connections that have been counted on the input and have not finished. -/
def countOn (s : HttpStreamer) (i : ℕ) : ℕ := s.connections.countP (·.counted = some i)

structure Counted (s : HttpStreamer) : Prop where
  count : ∀ i, (s.inThreads i).mConCount = s.countOn i
  /-- A connection is taken off the input it was counted on. -/
  sameInput : ∀ e ∈ s.taken, e.1 = some e.2
  ended : (∀ c ∈ s.connections, c.thread.pc = .finished) → ∀ i, (s.inThreads i).mConCount = 0

/-- The condition under which a step keeps the counts: at the end of a connection thread its path
leads to the input that has counted it, or it was never counted and its path leads nowhere or to an
input without connections. -/
def LeaveOk (s : HttpStreamer) : HttpAction → Prop
  | .connection k (.getInThread none) => ∀ c, s.connections[k]? = some c →
      c.thread.pc = .closing → c.counted = none
  | .connection k .decreaseConnectionCount => ∀ c, s.connections[k]? = some c →
      ∀ i, c.thread.pc = .leave i →
        c.counted = some i ∨ c.counted = none ∧ (s.inThreads i).mConCount = 0
  | _ => True

/-! ## Where the connections are -/

/-- What holds in every run. -/
structure Numbered (s : HttpStreamer) : Prop where
  list : ∀ i ∈ s.mList, i < s.next
  pointer : ∀ c ∈ s.connections, ∀ i, c.thread.pc.inthread? = some i → i < s.next
  fresh : ∀ i, s.next ≤ i → (s.inThreads i).mConCount = 0
  early : ∀ c ∈ s.connections, c.thread.pc.beforeCount = true → c.counted = none
  finished : ∀ c ∈ s.connections, c.thread.pc = .finished → c.counted = none

variable {s s' : HttpStreamer} {a : HttpAction} {k i : ℕ} {c : Connection} {t : ConnectThread}
variable {b : ConnectAction}

theorem getThreadByPath_mem {path : Path} (h : s.getThreadByPath path = some i) : i ∈ s.mList := by
  unfold getThreadByPath at h
  split at h
  · cases h
  · exact List.mem_of_find?_eq_some h

theorem countOn_setConnection (hc : s.connections[k]? = some c) (c' : Connection) (i : ℕ) :
    (s.setConnection k c').countOn i + (if c.counted = some i then 1 else 0) =
      s.countOn i + (if c'.counted = some i then 1 else 0) := by
  obtain ⟨hk, hget⟩ := List.getElem?_eq_some_iff.1 hc
  have hset : (s.setConnection k c').countOn i = s.countOn i -
      (if c.counted = some i then 1 else 0) + (if c'.counted = some i then 1 else 0) := by
    simpa [hget, countOn, setConnection] using
      List.countP_set (p := fun c => decide (c.counted = some i)) (a := c') hk
  have hpos : c.counted = some i → 0 < s.countOn i := fun h =>
    List.countP_pos_iff.2 ⟨c, List.mem_of_getElem? hc, by simpa using h⟩
  rw [hset]
  by_cases h : c.counted = some i
  · have := hpos h
    simp only [if_pos h]
    omega
  · simp only [if_neg h]
    omega

/-- What a step of the `k`-th connection does to the streamer. -/
inductive AfterStep (s : HttpStreamer) (k : ℕ) (c : Connection) (t : ConnectThread) :
    ConnectAction → HttpStreamer → Prop
  /-- the thread goes on, or it has stopped looking for its input -/
  | quiet {b'} (hfinished : t.pc = .finished → c.thread.pc = .finished)
      (hearly : t.pc.beforeCount = true → c.thread.pc.beforeCount = true)
      (hpointer : ∀ i, t.pc.inthread? = some i →
        c.thread.pc.inthread? = some i ∨ i ∈ s.mList)
      (hunknown : b' = .getInThread none → c.thread.pc ≠ .closing)
      (hleave : b' ≠ .decreaseConnectionCount) :
      AfterStep s k c t b' (s.setConnection k ⟨t, c.counted⟩)
  | unknown (hpc : c.thread.pc = .closing) (ht : t.pc = .finished) :
      AfterStep s k c t (.getInThread none) (s.setConnection k ⟨t, none⟩)
  | counted {j} (hpc : c.thread.pc = .respond (some j)) (ht : t.pc = .ok j) :
      AfterStep s k c t .processResponse ((s.setConnection k ⟨t, some j⟩).setInThread j
        (s.inThreads j).increaseConnectionCount)
  | left {j} (hpc : c.thread.pc = .leave j) (ht : t.pc = .finished) :
      AfterStep s k c t .decreaseConnectionCount
        { (s.setConnection k ⟨t, none⟩).setInThread j
            (s.inThreads j).decreaseConnectionCount with
          taken := if (s.inThreads j).mConCount > 0 then s.taken ++ [(c.counted, j)]
            else s.taken }

theorem step_connection (hs : s.step (.connection k b) = some s') :
    ∃ c t, s.connections[k]? = some c ∧ c.thread.step b = some t ∧ AfterStep s k c t b s' := by
  obtain ⟨c, hc, hbind⟩ := Option.bind_eq_some_iff.1 hs
  obtain ⟨t, ht, hafter⟩ := Option.bind_eq_some_iff.1 hbind
  refine ⟨c, t, hc, ht, ?_⟩
  have hmoves := (ConnectThread.step_cases ht).1
  have hquiet (hb : ∀ inthread, b ≠ .getInThread inthread) (hb' : b ≠ .decreaseConnectionCount) :
      AfterStep s k c t b (s.setConnection k ⟨t, c.counted⟩) := by
    refine .quiet (fun h => ?_) hmoves.beforeCount (fun i hi => ?_) (fun h => absurd h (hb _)) hb'
    · rw [h] at hmoves
      exact hmoves.finished.resolve_right (not_or_intro (hb _) hb')
    · exact .inl ((hmoves.inthread? hi).resolve_right (hb _))
  cases b with
  | getInThread inthread =>
    obtain ⟨hlookup, hset⟩ := Option.ite_none_right_eq_some.1 hafter
    have hlist (i : ℕ) (hi : inthread = some i) : i ∈ s.mList := getThreadByPath_mem (hlookup ▸ hi)
    simp only [ConnectThread.step] at ht
    split at ht
    · rename_i hpc
      obtain rfl := Option.some.inj ht
      rw [if_neg (by simp), Option.some.injEq] at hset
      subst hset
      exact .quiet (by simp) (fun _ => by rw [hpc]; rfl) (fun i hi => .inr (hlist i hi))
        (by simp [hpc]) (by simp)
    · rename_i j hpc
      obtain rfl := Option.some.inj ht
      rw [if_neg (by simp), Option.some.injEq] at hset
      subst hset
      exact .quiet (by simp) (fun h => by cases h) (fun i hi => .inr (hlist i hi)) (by simp)
        (by simp)
    · rename_i hpc
      obtain rfl := Option.some.inj ht
      rw [if_pos rfl, Option.some.injEq] at hset
      subst hset
      exact .unknown hpc rfl
    · cases ht
  | processResponse =>
    simp only [afterStep] at hafter
    split at hafter
    · rename_i i hpc
      obtain rfl := Option.some.inj hafter
      simp only [ConnectThread.step, hpc, Option.some.injEq] at ht
      subst ht
      exact .counted hpc rfl
    · obtain rfl := Option.some.inj hafter
      exact hquiet (by simp) (by simp)
  | decreaseConnectionCount =>
    simp only [afterStep] at hafter
    split at hafter
    · rename_i i hpc
      obtain rfl := Option.some.inj hafter
      simp only [ConnectThread.step, hpc, Option.some.injEq] at ht
      subst ht
      exact .left hpc rfl
    · cases hafter
  | parseRequest | processOK | pushHeader | wake | processData | fail | stop | addData | push =>
    obtain rfl := Option.some.inj hafter
    exact hquiet (by simp) (by simp)

/-! ## The invariant -/

/-- The numbers of the inputs may grow, and counts may change below `next`. -/
theorem Numbered.setInThread (h : s.Numbered) (hi : i < s.next) (t : InThread) :
    (s.setInThread i t).Numbered := by
  refine ⟨h.list, h.pointer, fun j hj => ?_, h.early, h.finished⟩
  change (update s.inThreads i t j).mConCount = 0
  change s.next ≤ j at hj
  rw [update_of_ne (by omega)]
  exact h.fresh j hj

theorem Numbered.setConnection (h : s.Numbered) {c' : Connection}
    (hpointer : ∀ i, c'.thread.pc.inthread? = some i → i < s.next)
    (hearly : c'.thread.pc.beforeCount = true → c'.counted = none)
    (hfinished : c'.thread.pc = .finished → c'.counted = none) :
    (s.setConnection k c').Numbered := by
  refine ⟨h.list, fun c hc => ?_, h.fresh, fun c hc => ?_, fun c hc => ?_⟩ <;>
    obtain hmem | rfl := List.mem_or_eq_of_mem_set hc
  · exact h.pointer c hmem
  · exact hpointer
  · exact h.early c hmem
  · exact hearly
  · exact h.finished c hmem
  · exact hfinished

theorem Numbered.addInfo (h : s.Numbered) (info : InputInfo) (started : Bool) :
    (s.addInfo info started).Numbered := by
  unfold HttpStreamer.addInfo
  split
  · rename_i i hfind
    exact h.setInThread (h.list i (List.mem_of_find?_eq_some hfind)) _
  · split
    · exact h
    · refine ⟨fun i hi => ?_, fun c hc i hi => ?_, fun i hi => ?_, h.early, h.finished⟩
      · obtain hi | hi := List.mem_append.1 hi
        · exact Nat.lt_succ_of_lt (h.list i hi)
        · rw [List.mem_singleton.1 hi]
          exact Nat.lt_succ_self _
      · exact Nat.lt_succ_of_lt (h.pointer c hc i hi)
      · change (update s.inThreads s.next _ i).mConCount = 0
        change s.next + 1 ≤ i at hi
        rw [update_of_ne (by omega)]
        exact h.fresh i (by omega)

theorem Numbered.afterStep (h : s.Numbered) (hc : c ∈ s.connections)
    (hs : AfterStep s k c t b s') : s'.Numbered := by
  cases hs with
  | quiet hfinished hearly hpointer =>
    refine h.setConnection (fun i hi => ?_) (fun ht => h.early c hc (hearly ht))
      fun ht => h.finished c hc (hfinished ht)
    exact (hpointer i hi).elim (h.pointer c hc i) (h.list i)
  | unknown hpc ht =>
    exact h.setConnection (fun i hi => by simp [ht, ConnectPc.inthread?] at hi) (fun _ => rfl)
      fun _ => rfl
  | counted hpc ht =>
    have hj := h.pointer c hc _ (congrArg ConnectPc.inthread? hpc)
    refine (h.setConnection (fun i hi => ?_) (fun he => ?_) fun he => ?_).setInThread hj _
    · obtain rfl : _ = i := Option.some.inj (ht ▸ hi)
      exact hj
    · simp [ht, ConnectPc.beforeCount] at he
    · simp [ht] at he
  | @left j hpc ht =>
    have hj := h.pointer c hc j (congrArg ConnectPc.inthread? hpc)
    have hset : (s.setConnection k ⟨t, none⟩).Numbered :=
      h.setConnection (fun i hi => by simp [ht, ConnectPc.inthread?] at hi) (fun _ => rfl)
        fun _ => rfl
    have h' := hset.setInThread hj (s.inThreads j).decreaseConnectionCount
    exact ⟨h'.list, h'.pointer, h'.fresh, h'.early, h'.finished⟩

theorem Numbered.step (h : s.Numbered) (hs : s.step a = some s') : s'.Numbered := by
  cases a with
  | connect =>
    obtain rfl := Option.some.inj hs
    refine ⟨h.list, fun c hc => ?_, h.fresh, fun c hc => ?_, fun c hc => ?_⟩ <;>
      obtain hc | hc := List.mem_append.1 hc
    · exact h.pointer c hc
    · simp [List.mem_singleton.1 hc, ConnectPc.inthread?]
    · exact h.early c hc
    · simp [List.mem_singleton.1 hc]
    · exact h.finished c hc
    · simp [List.mem_singleton.1 hc]
  | connection k b =>
    obtain ⟨c, t, hc, -, hs⟩ := step_connection hs
    exact h.afterStep (List.mem_of_getElem? hc) hs
  | addInfo info started =>
    obtain rfl := Option.some.inj hs
    exact h.addInfo info started
  | delInfo path =>
    obtain ⟨i, -, rfl⟩ := Option.map_eq_some_iff.1 hs
    exact ⟨fun j hj => h.list j (List.mem_filter.1 hj).1, h.pointer, h.fresh, h.early, h.finished⟩

/-! ## The counts -/

theorem Numbered.counted_iff (h : s.Numbered) : s.Counted ↔
    (∀ i, (s.inThreads i).mConCount = s.countOn i) ∧ ∀ e ∈ s.taken, e.1 = some e.2 := by
  refine ⟨fun hc => ⟨hc.count, hc.sameInput⟩, fun hc => ⟨hc.1, hc.2, fun hended i => ?_⟩⟩
  rw [hc.1 i]
  apply List.countP_eq_zero.2
  intro c hmem
  simp [h.finished c hmem (hended c hmem)]

/-- The count of an input when the connection `c` is counted no longer. -/
theorem Counted.setConnection_none (h : s.Counted) (hc : s.connections[k]? = some c)
    (t : ConnectThread) (i : ℕ) : (s.setConnection k ⟨t, none⟩).countOn i +
      (if c.counted = some i then 1 else 0) = (s.inThreads i).mConCount := by
  rw [countOn_setConnection hc, h.count]
  rfl

theorem counted_unknown_iff (h : s.Counted) (hc : s.connections[k]? = some c) :
    (∀ i, (s.inThreads i).mConCount = (s.setConnection k ⟨t, none⟩).countOn i) ↔
      c.counted = none := by
  constructor
  · intro hcount
    apply Option.eq_none_iff_forall_ne_some.2
    intro i hi
    have hset := h.setConnection_none hc t i
    rw [if_pos hi, ← hcount i] at hset
    omega
  · intro hnone i
    have hset := h.setConnection_none hc t i
    rw [hnone, if_neg (by simp)] at hset
    exact hset.symm

theorem counted_left_iff (h : s.Counted) (hc : s.connections[k]? = some c) (j : ℕ) :
    ((∀ i, (update s.inThreads j (s.inThreads j).decreaseConnectionCount i).mConCount =
        (s.setConnection k ⟨t, none⟩).countOn i) ∧
      ∀ e ∈ (if (s.inThreads j).mConCount > 0 then s.taken ++ [(c.counted, j)] else s.taken),
        e.1 = some e.2) ↔
      c.counted = some j ∨ c.counted = none ∧ (s.inThreads j).mConCount = 0 := by
  constructor
  · rintro ⟨hcount, -⟩
    have hj := h.setConnection_none hc t j
    rw [← hcount j, update_self, InThread.mConCount_decreaseConnectionCount] at hj
    cases hcounted : c.counted with
    | none =>
      rw [hcounted, if_neg (by simp)] at hj
      exact .inr ⟨rfl, by omega⟩
    | some i =>
      refine .inl (congrArg some ?_)
      by_contra hne
      have hi := h.setConnection_none hc t i
      rw [← hcount i, update_of_ne hne, if_pos hcounted] at hi
      omega
  · intro hok
    refine ⟨?_, fun e he => ?_⟩
    · apply (forall_update_iff s.inThreads fun i t' =>
        t'.mConCount = (s.setConnection k ⟨t, none⟩).countOn i).2
      constructor
      · have hj := h.setConnection_none hc t j
        rw [InThread.mConCount_decreaseConnectionCount]
        obtain hcounted | ⟨hnone, hzero⟩ := hok
        · rw [if_pos hcounted] at hj
          omega
        · omega
      · intro i hij
        have hne : c.counted ≠ some i := by
          obtain hcounted | ⟨hnone, -⟩ := hok
          · rw [hcounted]
            exact fun heq => hij (Option.some.inj heq).symm
          · simp [hnone]
        have hi := h.setConnection_none hc t i
        rw [if_neg hne] at hi
        exact hi.symm
    · split at he
      · rename_i hpos
        obtain hmem | hlast := List.mem_append.1 he
        · exact h.sameInput e hmem
        · rw [List.mem_singleton.1 hlast]
          obtain hcounted | ⟨-, hzero⟩ := hok
          · exact hcounted
          · omega
      · exact h.sameInput e he

theorem counted_afterStep_iff (hn : s.Numbered) (h : s.Counted)
    (hc : s.connections[k]? = some c) (hs : AfterStep s k c t b s') :
    s'.Counted ↔ s.LeaveOk (.connection k b) := by
  rw [(hn.afterStep (List.mem_of_getElem? hc) hs).counted_iff]
  cases hs with
  | quiet hfinished hearly hpointer hunknown hleave =>
    refine iff_of_true ⟨fun i => ?_, h.sameInput⟩ ?_
    · have hset := countOn_setConnection hc ⟨t, c.counted⟩ i
      exact (h.count i).trans (Nat.add_right_cancel hset).symm
    · cases b with
      | getInThread inthread =>
        cases inthread with
        | none =>
          intro c' hc' hpc
          obtain rfl := Option.some.inj (hc.symm.trans hc')
          exact absurd hpc (hunknown rfl)
        | some i => trivial
      | decreaseConnectionCount => exact absurd rfl hleave
      | parseRequest | processResponse | processOK | pushHeader | wake | processData | fail | stop
        | addData | push => trivial
  | unknown hpc ht =>
    refine (and_iff_left h.sameInput).trans ((counted_unknown_iff h hc).trans ?_)
    refine ⟨fun hnone c' hc' _ => ?_, fun hok => hok c hc hpc⟩
    rwa [← Option.some.inj (hc.symm.trans hc')]
  | @counted j hpc ht =>
    refine iff_of_true ⟨fun i => ?_, h.sameInput⟩ trivial
    change (update s.inThreads j _ i).mConCount = (s.setConnection k ⟨t, some j⟩).countOn i
    have hset := countOn_setConnection hc ⟨t, some j⟩ i
    rw [hn.early c (List.mem_of_getElem? hc) (by rw [hpc]; rfl), if_neg (by simp)] at hset
    by_cases hij : i = j
    · rw [hij] at hset ⊢
      rw [if_pos rfl, ← h.count] at hset
      rw [update_self]
      exact hset.symm
    · rw [if_neg fun heq => hij (Option.some.inj heq).symm] at hset
      rw [update_of_ne hij, h.count]
      exact hset.symm
  | @left j hpc ht =>
    refine (counted_left_iff h hc j).trans ⟨fun hok c' hc' i hi => ?_, fun hok => hok c hc j hpc⟩
    obtain rfl := Option.some.inj (hc.symm.trans hc')
    obtain rfl : j = i := ConnectPc.leave.inj (hpc.symm.trans hi)
    exact hok

theorem Counted.count_update (h : s.Counted) {u : InThread} (hu : u.mConCount = s.countOn i) :
    ∀ j, (update s.inThreads i u j).mConCount = s.countOn j := by
  apply (forall_update_iff s.inThreads fun j u => u.mConCount = s.countOn j).2
  exact ⟨hu, fun j _ => h.count j⟩

theorem counted_addInfo (hn : s.Numbered) (h : s.Counted) (info : InputInfo) (started : Bool) :
    (s.addInfo info started).Counted := by
  apply (hn.addInfo info started).counted_iff.2
  unfold HttpStreamer.addInfo
  split
  · rename_i i hfind
    refine ⟨h.count_update ?_, h.sameInput⟩
    rw [InThread.mConCount_updateInfo, h.count]
  · split
    · exact ⟨h.count, h.sameInput⟩
    · refine ⟨h.count_update ?_, h.sameInput⟩
      rw [← h.count, hn.fresh s.next le_rfl]

theorem counted_step_iff (hn : s.Numbered) (h : s.Counted) (hs : s.step a = some s') :
    s'.Counted ↔ s.LeaveOk a := by
  cases a with
  | connect =>
    refine iff_of_true ((hn.step hs).counted_iff.2 ?_) trivial
    obtain rfl := Option.some.inj hs
    refine ⟨fun i => (h.count i).trans ?_, h.sameInput⟩
    change _ = (s.connections ++ [({} : Connection)]).countP fun c => decide (c.counted = some i)
    rw [List.countP_append]
    rfl
  | connection k b =>
    obtain ⟨c, t, hc, -, hs⟩ := step_connection hs
    exact counted_afterStep_iff hn h hc hs
  | addInfo info started =>
    obtain rfl := Option.some.inj hs
    exact iff_of_true (counted_addInfo hn h info started) trivial
  | delInfo path =>
    obtain ⟨i, -, rfl⟩ := Option.map_eq_some_iff.1 hs
    exact iff_of_true ⟨h.count, h.sameInput, h.ended⟩ trivial

/-- The runs that keep the counts: those in which the path of every connection thread leads, when
the thread ends, to the input that has counted it. -/
theorem throughout_counted_iff (as : List HttpAction) :
    Throughout step Counted {} as ↔ EachStep step LeaveOk {} as :=
  throughout_iff_eachStep Numbered.step counted_step_iff
    ⟨by simp, by simp, fun _ _ => rfl, by simp, by simp⟩ ⟨fun _ => rfl, by simp, fun _ _ => rfl⟩

/-- A request with an unknown HTTP version takes off a connection that was counted and is still
being served. -/
theorem failed_request_taken_off : ∃ s, exec step {}
      [.addInfo ⟨"r", .tcpip, "/a".toList⟩ true, .connect, .connect,
        .connection 0 (.parseRequest "GET /a HTTP/1.0".toList),
        .connection 0 (.getInThread (some 0)), .connection 0 .processResponse,
        .connection 1 (.parseRequest "GET /a HTTP/2.0".toList),
        .connection 1 (.getInThread (some 0)), .connection 1 .decreaseConnectionCount] = some s ∧
    (s.inThreads 0).mConCount = 0 ∧ s.countOn 0 = 1 ∧ s.taken = [(none, 0)] :=
  ⟨_, rfl, by decide, by decide, by decide⟩

end HttpStreamer

end Kalinka.Http
