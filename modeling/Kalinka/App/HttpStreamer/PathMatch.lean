import Kalinka.App.HttpStreamer.InThread

/-!
# Whose data a connection gets

A connection looks its input up by its path, and `IsRouteMatch` leaves the slashes at the ends of
the paths out.  The data and the stops of an input go to the connections whose path is the path of
the input, slash for slash.

`agree_iff_pathsOk` says for which paths the two find the same.
-/

namespace Kalinka.Http

open Run Function

/-! ## The test of a connection -/

namespace ConnectThread

/-- `isPathMatch` -/
def isPathMatch (t : ConnectThread) (path : Path) : Bool := path = t.mPath

variable {t : ConnectThread} {path : Path} {data : BinaryData} {now : ℕ}

theorem isPathMatch_iff : t.isPathMatch path = true ↔ path = t.mPath := decide_eq_true_iff

variable {t' : ConnectThread} {b : ConnectAction}

/-- Only `parseRequest` sets the path. -/
theorem mPath_step (h : t.step b = some t') : t'.mPath = t.mPath ∨ t.pc = .request := by
  obtain ⟨-, hquiet | ⟨header, i, -, -, rfl⟩ | ⟨data, -, -, rfl⟩⟩ := step_cases h
  · exact (em (t.pc = .request)).symm.imp_left fun hpc => (hquiet.request (.inl hpc)).1
  · exact .inl rfl
  · exact .inl rfl

end ConnectThread

/-! ## The inputs and their connections -/

namespace HttpStreamer

/-- The path of an input. -/
def pathOf (s : HttpStreamer) (i : ℕ) : Path := (s.inThreads i).mInfo.path

/-- The connections to which `sendConnectionData` gives a portion of the input; none when the
path is empty, which the assertion does not let pass. -/
def receivers (s : HttpStreamer) (i : ℕ) : List Connection :=
  if s.pathOf i = [] then []
  else s.connections.filter fun c => c.thread.isPathMatch (s.pathOf i)

/-- The `stoplist` of `stopThreads` for the input. -/
def stopList (s : HttpStreamer) (i : ℕ) : List Connection :=
  if s.pathOf i = [] then [] else s.connections.filter fun c => c.thread.mPath = s.pathOf i

/-- The data of the input and its stops reach the connection. -/
structure Reached (s : HttpStreamer) (i : ℕ) (c : Connection) : Prop where
  data : c ∈ s.receivers i
  stop : c ∈ s.stopList i

/-- The look-up of the connection gives an input exactly if this reaches the connection. -/
def Agree (s : HttpStreamer) (c : Connection) : Prop :=
  ∀ i ∈ s.mList, s.getThreadByPath c.thread.mPath = some i ↔ s.Reached i c

/-- The inputs in the list whose paths differ from the path of a request in the slashes at the ends
at most. -/
def candidates (s : HttpStreamer) (path : Path) : List ℕ :=
  s.mList.filter fun i => trimPath (s.pathOf i) = trimPath path

/-- For a request with more than slashes, the first candidate is spelled as the request and no other
one is.  For a request of slashes none is spelled so. -/
def PathsOk (s : HttpStreamer) (path : Path) : Prop :=
  if trimPath path = [] then ∀ i ∈ s.candidates path, s.pathOf i ≠ path
  else ∀ i is, s.candidates path = i :: is → s.pathOf i = path ∧ ∀ j ∈ is, j ≠ i → s.pathOf j ≠ path

variable {s : HttpStreamer} {c : Connection} {i : ℕ} {path : Path}

theorem reached_iff (hc : c ∈ s.connections) (hne : c.thread.mPath ≠ []) :
    s.Reached i c ↔ s.pathOf i = c.thread.mPath := by
  constructor
  · rintro ⟨-, hstop⟩
    unfold stopList at hstop
    split at hstop
    · cases hstop
    · exact (of_decide_eq_true (List.mem_filter.1 hstop).2).symm
  · intro heq
    have hpath : s.pathOf i ≠ [] := heq ▸ hne
    constructor
    · rw [receivers, if_neg hpath]
      exact List.mem_filter.2 ⟨hc, ConnectThread.isPathMatch_iff.2 heq⟩
    · rw [stopList, if_neg hpath]
      exact List.mem_filter.2 ⟨hc, decide_eq_true heq.symm⟩

/-- The look-up takes the first candidate. -/
theorem getThreadByPath_eq_head? (h : trimPath path ≠ []) :
    s.getThreadByPath path = (s.candidates path).head? := by
  have hne : path ≠ [] := fun heq => h (by rw [heq]; rfl)
  have hmatch : (fun i => isRouteMatch path (s.inThreads i).mInfo.path) =
      fun i => decide (trimPath (s.pathOf i) = trimPath path) := by
    funext i
    by_cases heq : trimPath (s.pathOf i) = trimPath path
    · have htrim : trimPath (s.inThreads i).mInfo.path = trimPath path := heq
      simp [isRouteMatch, heq, htrim, h]
    · have htrim : ¬trimPath path = trimPath (s.inThreads i).mInfo.path := fun h' => heq h'.symm
      simp [isRouteMatch, heq, htrim]
  rw [getThreadByPath, if_neg hne, hmatch, candidates, List.head?_filter]

theorem getThreadByPath_of_trimPath_eq_nil (h : trimPath path = []) :
    s.getThreadByPath path = none := by
  have hmatch : ∀ i, isRouteMatch path (s.inThreads i).mInfo.path = false := fun i => by
    simp [isRouteMatch, h]
  simp [getThreadByPath, hmatch]

theorem mem_candidates_of_pathOf (hi : i ∈ s.mList) (h : s.pathOf i = path) :
    i ∈ s.candidates path :=
  List.mem_filter.2 ⟨hi, decide_eq_true (congrArg trimPath h)⟩

/-- The look-up of a connection and the data and stops of the inputs agree if and only if the paths
are spelled so that the first candidate, and no other input, has the path of the request. -/
theorem agree_iff_pathsOk (hc : c ∈ s.connections) (hpath : c.thread.mPath.head? = some '/') :
    s.Agree c ↔ s.PathsOk c.thread.mPath := by
  have hne : c.thread.mPath ≠ [] := fun heq => by rw [heq] at hpath; cases hpath
  have hreached : s.Agree c ↔ ∀ i ∈ s.mList,
      s.getThreadByPath c.thread.mPath = some i ↔ s.pathOf i = c.thread.mPath :=
    forall_congr' fun i => forall_congr' fun _ => by rw [reached_iff hc hne]
  rw [hreached, PathsOk]
  split
  next htrim =>
    rw [getThreadByPath_of_trimPath_eq_nil htrim]
    constructor
    · intro h i hi heq
      cases (h i (List.mem_filter.1 hi).1).2 heq
    · intro h i hi
      exact iff_of_false nofun fun heq => h i (mem_candidates_of_pathOf hi heq) heq
  next htrim =>
    rw [getThreadByPath_eq_head? htrim]
    constructor
    · intro h i is hcons
      have hmem : ∀ j ∈ i :: is, j ∈ s.mList := fun j hj =>
        (List.mem_filter.1 (hcons ▸ hj : j ∈ s.candidates c.thread.mPath)).1
      rw [hcons] at h
      refine ⟨(h i (hmem i List.mem_cons_self)).1 rfl, fun j hj hji heq => hji ?_⟩
      exact (Option.some.inj ((h j (hmem j (List.mem_cons_of_mem i hj))).2 heq)).symm
    · intro h i hi
      cases hcand : s.candidates c.thread.mPath with
      | nil =>
        refine iff_of_false nofun fun heq => ?_
        have hmem := mem_candidates_of_pathOf hi heq
        rw [hcand] at hmem
        cases hmem
      | cons j js =>
        obtain ⟨hfirst, hothers⟩ := h j js hcand
        constructor
        · intro heq
          exact Option.some.inj heq ▸ hfirst
        · intro heq
          have hmem := mem_candidates_of_pathOf hi heq
          rw [hcand] at hmem
          by_contra hji
          have hij : i ≠ j := fun hij => hji (congrArg some hij.symm)
          exact hothers i ((List.mem_cons.1 hmem).resolve_left hij) hij heq

/-! ## Clients that have been accepted -/

/-- The thread of the route of the info. -/
def getThreadByInfo (s : HttpStreamer) (info : InputInfo) : Option ℕ :=
  s.mList.find? fun i => (s.inThreads i).mInfo.uuid = info.uuid

/-- What an input in the list sends reaches every client that it has accepted, and so do its
stops. -/
def Served (s : HttpStreamer) : Prop :=
  ∀ c ∈ s.connections, ∀ i ∈ s.mList, c.counted = some i → s.Reached i c

/-- A client is accepted by an input with its very path, and the path of an input that has accepted
clients stays. -/
def AcceptOk (s : HttpStreamer) : HttpAction → Prop
  | .connection k .processResponse => ∀ c, s.connections[k]? = some c →
      ∀ i ∈ s.mList, c.thread.pc = .respond (some i) → s.pathOf i = c.thread.mPath
  | .addInfo info _ => ∀ i, s.getThreadByInfo info = some i →
      info.protocol = (s.inThreads i).mInfo.protocol →
        ∀ c ∈ s.connections, c.counted = some i → info.path = c.thread.mPath
  | _ => True

/-- What holds in every run: a client that is being accepted has a path. -/
structure Accepted (s : HttpStreamer) : Prop where
  responding : ∀ c ∈ s.connections, ∀ i, c.thread.pc = .respond (some i) → c.thread.mPath ≠ []
  counted : ∀ c ∈ s.connections, ∀ i, c.counted = some i → i < s.next ∧ c.thread.mPath ≠ []

variable {s' : HttpStreamer} {a : HttpAction} {b : ConnectAction} {k : ℕ} {t : ConnectThread}

theorem Accepted.served_iff (h : s.Accepted) : s.Served ↔
    ∀ c ∈ s.connections, ∀ i ∈ s.mList, c.counted = some i → s.pathOf i = c.thread.mPath :=
  forall_congr' fun c => forall_congr' fun hc => forall_congr' fun i => forall_congr' fun _ =>
    forall_congr' fun hi => reached_iff hc (h.counted c hc i hi).2

/-! ### The steps -/

theorem pathOf_setInThread_self (s : HttpStreamer) (i : ℕ) (u : InThread) :
    (s.setInThread i u).pathOf i = u.mInfo.path := by
  simp [pathOf, setInThread]

theorem pathOf_setInThread_of_ne {j : ℕ} (h : j ≠ i) (u : InThread) :
    (s.setInThread i u).pathOf j = s.pathOf j := by
  simp [pathOf, setInThread, h]

theorem pathOf_setInThread {u : InThread} (h : u.mInfo = (s.inThreads i).mInfo) (j : ℕ) :
    (s.setInThread i u).pathOf j = s.pathOf j := by
  by_cases hji : j = i
  · rw [hji, pathOf_setInThread_self, h, pathOf]
  · exact pathOf_setInThread_of_ne hji u

theorem mInfo_decreaseConnectionCount (u : InThread) :
    u.decreaseConnectionCount.mInfo = u.mInfo := by
  unfold InThread.decreaseConnectionCount
  split <;> rfl

/-- What the two invariants need to know of a step of a connection: its input counts it, or it
is counted where it was or no longer. -/
structure Stepped (s : HttpStreamer) (k : ℕ) (c c' : Connection) (s' : HttpStreamer) : Prop where
  connections : s'.connections = s.connections.set k c'
  mList : s'.mList = s.mList
  next : s'.next = s.next
  paths : ∀ i, s'.pathOf i = s.pathOf i
  path : c'.thread.mPath = c.thread.mPath ∨ c.thread.pc = .request

theorem stepped (h : s.step (.connection k b) = some s') :
    ∃ c c', s.connections[k]? = some c ∧ c.thread.step b = some c'.thread ∧
      Stepped s k c c' s' ∧
      ((∃ j, b = .processResponse ∧ c.thread.pc = .respond (some j) ∧ c'.counted = some j) ∨
        (∀ j, b = .processResponse → c.thread.pc ≠ .respond (some j)) ∧
          (c'.counted = c.counted ∨ c'.counted = none)) := by
  obtain ⟨c, t, hc, ht, hs⟩ := step_connection h
  have hpath := ConnectThread.mPath_step ht
  by_cases hb : ∃ j, b = .processResponse ∧ c.thread.pc = .respond (some j)
  · obtain ⟨j, rfl, hpc⟩ := hb
    have hstep : s.step (.connection k .processResponse) =
        some ((s.setConnection k ⟨t, some j⟩).setInThread j
          (s.inThreads j).increaseConnectionCount) := by
      simp [step, hc, ht, afterStep, hpc]
    obtain rfl := Option.some.inj (hstep.symm.trans h)
    exact ⟨c, ⟨t, some j⟩, hc, ht, ⟨rfl, rfl, rfl, pathOf_setInThread rfl, hpath⟩,
      .inl ⟨j, rfl, hpc, rfl⟩⟩
  · have hother (j : ℕ) (hb' : b = .processResponse) : c.thread.pc ≠ .respond (some j) :=
      fun hpc => hb ⟨j, hb', hpc⟩
    cases hs with
    | quiet =>
      exact ⟨c, ⟨t, c.counted⟩, hc, ht, ⟨rfl, rfl, rfl, fun _ => rfl, hpath⟩,
        .inr ⟨hother, .inl rfl⟩⟩
    | unknown =>
      exact ⟨c, ⟨t, none⟩, hc, ht, ⟨rfl, rfl, rfl, fun _ => rfl, hpath⟩,
        .inr ⟨hother, .inr rfl⟩⟩
    | counted hpc => exact absurd ⟨_, rfl, hpc⟩ hb
    | @left j =>
      have hpaths := pathOf_setInThread (s := s.setConnection k ⟨t, none⟩)
        (mInfo_decreaseConnectionCount (s.inThreads j))
      exact ⟨c, ⟨t, none⟩, hc, ht, ⟨rfl, rfl, rfl, hpaths, hpath⟩, .inr ⟨hother, .inr rfl⟩⟩

theorem getInThread_eq {inthread : Option ℕ}
    (h : s.step (.connection k (.getInThread inthread)) = some s')
    (hc : s.connections[k]? = some c) : inthread = s.getThreadByPath c.thread.mPath := by
  obtain ⟨c', hc', hbind⟩ := Option.bind_eq_some_iff.1 h
  obtain ⟨t, -, hafter⟩ := Option.bind_eq_some_iff.1 hbind
  obtain rfl := Option.some.inj (hc.symm.trans hc')
  exact (Option.ite_none_right_eq_some.1 hafter).1

/-- `addInfo` in each of its cases. -/
inductive AddInfo (s : HttpStreamer) (info : InputInfo) : HttpStreamer → Prop
  | updated (i : ℕ) (hfind : s.getThreadByInfo info = some i)
      (hprot : info.protocol = (s.inThreads i).mInfo.protocol) :
      AddInfo s info (s.setInThread i { s.inThreads i with mInfo := info })
  | asserted (i : ℕ) (hfind : s.getThreadByInfo info = some i)
      (hprot : info.protocol ≠ (s.inThreads i).mInfo.protocol) :
      AddInfo s info (s.setInThread i (s.inThreads i))
  | threw (hfind : s.getThreadByInfo info = none) : AddInfo s info s
  | started (hfind : s.getThreadByInfo info = none) : AddInfo s info
      { s.setInThread s.next { mInfo := info } with
        next := s.next + 1, mList := s.mList ++ [s.next] }

theorem addInfo_cases (s : HttpStreamer) (info : InputInfo) (started : Bool) :
    AddInfo s info (s.addInfo info started) := by
  unfold HttpStreamer.addInfo
  split
  next i hfind =>
    unfold InThread.updateInfo
    split
    next hprot => exact .updated i hfind hprot
    next hprot => exact .asserted i hfind hprot
  next hfind =>
    split
    · exact .threw hfind
    · exact .started hfind

/-! ### What holds in every run -/

theorem Accepted.connection (hn : s.Numbered) (h : s.Accepted)
    (hs : s.step (.connection k b) = some s') : s'.Accepted := by
  obtain ⟨c, c', hc, ht, hstep, hcounted⟩ := stepped hs
  have hmem : c ∈ s.connections := List.mem_of_getElem? hc
  have hresponding (i : ℕ) (hpc' : c'.thread.pc = .respond (some i)) : c'.thread.mPath ≠ [] := by
    have hmoves := (ConnectThread.step_cases ht).1
    generalize hpc : c.thread.pc = pc at hmoves
    generalize c'.thread.pc = pc' at hpc' hmoves
    cases hmoves with
    | stays =>
      have heq := hstep.path.resolve_right (by rw [hpc, hpc']; nofun)
      rw [heq]
      exact h.responding c hmem i (hpc.trans hpc')
    | found inthread =>
      have heq := hstep.path.resolve_right (by rw [hpc]; nofun)
      obtain rfl := ConnectPc.respond.inj hpc'
      rw [heq]
      intro hnil
      have hfind := getInThread_eq hs hc
      rw [hnil] at hfind
      cases hfind
    | goesOn _ _ hin =>
      rw [hpc'] at hin
      cases hin
    | parsed | leaves | unknown | counted | answered | headed | closes | left => cases hpc'
  have hcounted' (i : ℕ) (hi : c'.counted = some i) : i < s.next ∧ c'.thread.mPath ≠ [] := by
    obtain ⟨j, -, hpc, hj⟩ | ⟨-, hsame | hnone⟩ := hcounted
    · obtain rfl := Option.some.inj (hj.symm.trans hi)
      have heq := hstep.path.resolve_right (by rw [hpc]; nofun)
      rw [heq]
      exact ⟨hn.pointer c hmem j (congrArg ConnectPc.inthread? hpc), h.responding c hmem j hpc⟩
    · have hold := hsame.symm.trans hi
      have heq := hstep.path.resolve_right fun hpc => by
        have hnone := hn.early c hmem (by rw [hpc]; rfl)
        cases hnone.symm.trans hold
      rw [heq]
      exact h.counted c hmem i hold
    · cases hnone.symm.trans hi
  constructor
  · rw [hstep.connections]
    intro e he
    obtain he | rfl := List.mem_or_eq_of_mem_set he
    · exact h.responding e he
    · exact hresponding
  · rw [hstep.connections, hstep.next]
    intro e he
    obtain he | rfl := List.mem_or_eq_of_mem_set he
    · exact h.counted e he
    · exact hcounted'

theorem Accepted.step (hn : s.Numbered) (h : s.Accepted) (hs : s.step a = some s') :
    s'.Accepted := by
  cases a with
  | connect =>
    obtain rfl := Option.some.inj hs
    constructor
    · intro c hc i hpc
      obtain hc | hc := List.mem_append.1 hc
      · exact h.responding c hc i hpc
      · rw [List.mem_singleton.1 hc] at hpc
        cases hpc
    · intro c hc i hi
      obtain hc | hc := List.mem_append.1 hc
      · exact h.counted c hc i hi
      · rw [List.mem_singleton.1 hc] at hi
        cases hi
  | connection k b => exact h.connection hn hs
  | addInfo info started =>
    obtain rfl := Option.some.inj hs
    have hadd := addInfo_cases s info started
    generalize s.addInfo info started = s' at hadd
    cases hadd with
    | updated | asserted | threw => exact ⟨h.responding, h.counted⟩
    | started =>
      refine ⟨h.responding, fun c hc i hi => ?_⟩
      obtain ⟨hlt, hne⟩ := h.counted c hc i hi
      exact ⟨Nat.lt_succ_of_lt hlt, hne⟩
  | delInfo path =>
    obtain ⟨i, -, rfl⟩ := Option.map_eq_some_iff.1 hs
    exact ⟨h.responding, h.counted⟩

/-! ### When clients are served -/

theorem served_connection_iff (hn : s.Numbered) (ha : s.Accepted) (h : s.Served)
    (hs : s.step (.connection k b) = some s') : s'.Served ↔ s.AcceptOk (.connection k b) := by
  rw [(ha.connection hn hs).served_iff]
  rw [ha.served_iff] at h
  obtain ⟨c, c', hc, -, hstep, hcounted⟩ := stepped hs
  have hmem : c ∈ s.connections := List.mem_of_getElem? hc
  rw [hstep.connections, hstep.mList]
  have hset : (∀ e ∈ s.connections.set k c', ∀ i ∈ s.mList, e.counted = some i →
      s'.pathOf i = e.thread.mPath) ↔
      ∀ i ∈ s.mList, c'.counted = some i → s.pathOf i = c'.thread.mPath := by
    constructor
    · intro hall i hi hci
      have hlt : k < s.connections.length := (List.getElem?_eq_some_iff.1 hc).1
      rw [← hstep.paths]
      exact hall c' (List.mem_set hlt c') i hi hci
    · intro hnew e he i hi hei
      rw [hstep.paths]
      obtain he | rfl := List.mem_or_eq_of_mem_set he
      · exact h e he i hi hei
      · exact hnew i hi hei
  rw [hset]
  obtain ⟨j, rfl, hpc, hj⟩ | ⟨hother, hsame⟩ := hcounted
  · have heq := hstep.path.resolve_right (by rw [hpc]; nofun)
    rw [hj, heq]
    constructor
    · intro hnew e he i hi hpc'
      obtain rfl := Option.some.inj (hc.symm.trans he)
      obtain rfl : j = i := by simpa using hpc.symm.trans hpc'
      exact hnew j hi rfl
    · intro hok i hi hji
      obtain rfl := Option.some.inj hji
      exact hok c hc j hi hpc
  · refine iff_of_true (fun i hi hci => ?_) ?_
    · obtain hsame | hnone := hsame
      · have hold := hsame.symm.trans hci
        have heq := hstep.path.resolve_right fun hpc => by
          have hnone := hn.early c hmem (by rw [hpc]; rfl)
          cases hnone.symm.trans hold
        rw [heq]
        exact h c hmem i hi hold
      · cases hnone.symm.trans hci
    · cases b with
      | processResponse =>
        intro e he i _ hpc
        obtain rfl := Option.some.inj (hc.symm.trans he)
        exact absurd hpc (hother i rfl)
      | parseRequest | getInThread | processOK | pushHeader | wake | processData | fail
      | decreaseConnectionCount | stop | addData | push => trivial

theorem served_addInfo_iff (ha : s.Accepted) (h : s.Served) {info : InputInfo} {started : Bool}
    (ha' : (s.addInfo info started).Accepted) :
    (s.addInfo info started).Served ↔ s.AcceptOk (.addInfo info started) := by
  rw [ha'.served_iff]
  rw [ha.served_iff] at h
  have hadd := addInfo_cases s info started
  generalize s.addInfo info started = s' at hadd
  cases hadd with
  | updated i hfind hprot =>
    have hi : i ∈ s.mList := List.mem_of_find?_eq_some hfind
    constructor
    · intro hall j hj _ c hc hcj
      obtain rfl := Option.some.inj (hfind.symm.trans hj)
      have hpath := hall c hc i hi hcj
      rwa [pathOf_setInThread_self] at hpath
    · intro hok c hc j hj hcj
      by_cases hji : j = i
      · subst hji
        rw [pathOf_setInThread_self]
        exact hok j hfind hprot c hc hcj
      · rw [pathOf_setInThread_of_ne hji]
        exact h c hc j hj hcj
  | asserted i hfind hprot =>
    refine iff_of_true (fun c hc j hj hcj => ?_) fun j hj hprot' => ?_
    · rw [pathOf_setInThread rfl]
      exact h c hc j hj hcj
    · obtain rfl := Option.some.inj (hfind.symm.trans hj)
      exact absurd hprot' hprot
  | threw hfind =>
    exact iff_of_true h fun j hj => by cases hfind.symm.trans hj
  | started hfind =>
    refine iff_of_true (fun c hc j hj hcj => ?_) fun j hj => by cases hfind.symm.trans hj
    have hlt := (ha.counted c hc j hcj).1
    refine (pathOf_setInThread_of_ne (Nat.ne_of_lt hlt) _).trans (h c hc j ?_ hcj)
    obtain hj | hj := List.mem_append.1 hj
    · exact hj
    · exact absurd (List.mem_singleton.1 hj) (Nat.ne_of_lt hlt)

theorem served_step_iff (hI : s.Numbered ∧ s.Accepted) (h : s.Served) (hs : s.step a = some s') :
    s'.Served ↔ s.AcceptOk a := by
  obtain ⟨hn, ha⟩ := hI
  cases a with
  | connect =>
    obtain rfl := Option.some.inj hs
    rw [Accepted.served_iff (ha.step (a := .connect) hn rfl)]
    rw [ha.served_iff] at h
    refine iff_of_true (fun c hc i hi hci => ?_) trivial
    obtain hc | hc := List.mem_append.1 hc
    · exact h c hc i hi hci
    · rw [List.mem_singleton.1 hc] at hci
      cases hci
  | connection k b => exact served_connection_iff hn ha h hs
  | addInfo info started =>
    obtain rfl := Option.some.inj hs
    exact served_addInfo_iff ha h (ha.step (a := .addInfo info started) hn rfl)
  | delInfo path =>
    have ha' := ha.step hn hs
    obtain ⟨i, -, rfl⟩ := Option.map_eq_some_iff.1 hs
    rw [ha'.served_iff]
    rw [ha.served_iff] at h
    exact iff_of_true (fun c hc j hj => h c hc j (List.mem_filter.1 hj).1) trivial

/-- In every state, the look-up of a connection with a request agrees with what reaches it exactly
if its path is spelled as `PathsOk` says; and in a run every accepted client is served exactly if
all steps meet `AcceptOk`. -/
theorem paths_agree_iff (as : List HttpAction) :
    (∀ (s : HttpStreamer) (c : Connection), c ∈ s.connections →
      c.thread.mPath.head? = some '/' → (s.Agree c ↔ s.PathsOk c.thread.mPath)) ∧
    (Throughout step Served {} as ↔ EachStep step AcceptOk {} as) := by
  refine ⟨fun s c hc hpath => agree_iff_pathsOk hc hpath, ?_⟩
  refine throughout_iff_eachStep (I := fun s => s.Numbered ∧ s.Accepted) ?_ served_step_iff ?_ ?_
  · exact fun hI hs => ⟨hI.1.step hs, hI.2.step hI.1 hs⟩
  · exact ⟨⟨by simp, by simp, fun _ _ => rfl, by simp, by simp⟩, by simp, by simp⟩
  · intro c hc
    cases hc

/-- A client asks for the path of the input with a slash at its end: the input accepts it, and
sends it nothing. -/
theorem slash_at_end : ∃ s c, exec step {}
      [.addInfo ⟨"r", .tcpip, "/a".toList⟩ true, .connect,
        .connection 0 (.parseRequest "GET /a/ HTTP/1.1".toList),
        .connection 0 (.getInThread (some 0)), .connection 0 .processResponse] = some s ∧
    s.connections = [c] ∧ c.counted = some 0 ∧ s.getThreadByPath c.thread.mPath = some 0 ∧
    s.receivers 0 = [] ∧ s.stopList 0 = [] ∧ ¬s.Agree c ∧ ¬s.Served := by
  refine ⟨_, _, rfl, rfl, rfl, rfl, rfl, rfl, fun h => ?_, fun h => ?_⟩
  · have hmem := ((h 0 (by decide)).1 rfl).data
    cases hmem
  · have hmem := (h _ List.mem_cons_self 0 (by decide) rfl).data
    cases hmem

end HttpStreamer

end Kalinka.Http
