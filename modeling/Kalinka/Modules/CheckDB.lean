import Kalinka.Lib.Run
import Mathlib.Data.Int.Notation
import Mathlib.Data.Nat.Notation
import Mathlib.Logic.Function.Basic

/-!
# The database checker

Transactions write rows to `klk_log`; the timer of the `checkdb` module reads the largest visible
id, selects the modules of the rows above `m_last`, sends them one `CHANGEDB` message and takes the
id it has read for `m_last`.  The message core hands the message to the receivers one after the
other and leaves the rest out when it comes to an unknown one.

An id is given at the insert and becomes visible at the commit, so a row may appear below `m_last`.
`throughout_covered_iff` says exactly which runs leave no row behind.
-/

namespace Kalinka

open Run Function

/-- A row of `klk_log`. -/
structure LogRow where
  id : ℕ
  moduleUuid : String
  deriving DecidableEq, Repr

/-- Where `CheckDB::checkDB` is: outside, before `klk_checkdb_get_changed`, or before `sendMessage`
and the assignment of `m_last`. -/
inductive PollPc
  | idle
  | getChanged (newLast : ℕ)
  | send (newLast : ℕ) (receivers : List String)
  deriving DecidableEq, Repr

/-- What `Module::addMessage` does: the container takes the message, or it refuses the message,
which only a stopped module takes without an exception. -/
inductive AddOutcome
  | accepted
  | ignored
  | thrown
  deriving DecidableEq, Repr

/-- The log, the module and the way of its messages to their receivers. -/
structure CheckDB where
  nextId : ℕ := 1
  /-- the committed rows -/
  rows : List LogRow := []
  /-- the rows of the open transactions, each with the number of its transaction -/
  inserted : List (ℕ × LogRow) := []
  /-- `getModule` finds the module. -/
  modules : String → Bool
  mLast : ℤ := -1
  pc : PollPc := .idle
  /-- the receivers of the messages that wait for the message core -/
  queue : List (List String) := []
  /-- the receivers that `MessageCore::process` has still to serve -/
  receivers : List String := []
  /-- the rows whose module was registered when they became visible and has accepted no message
  since -/
  unserved : List LogRow := []

inductive CheckDBAction
  | insert (transaction : ℕ) (moduleUuid : String)
  | commit (transaction : ℕ)
  | rollback (transaction : ℕ)
  | addModule (id : String)
  | getLastId
  /-- the modules in the order in which the database returns them -/
  | getChanged (receivers : List String)
  /-- `Module::addMessage` of the message core; `ignored` when the core has been stopped -/
  | sendMessage (ignored : Bool)
  /-- an exception leaves `checkDB` -/
  | throw
  /-- the message core is stopped: its container is cleared -/
  | stopCore
  /-- the message core takes the next message -/
  | process
  /-- the next receiver of the message -/
  | addMessage (outcome : AddOutcome)
  deriving DecidableEq, Repr

namespace CheckDB

/-- `klk_checkdb_get_lastid`. -/
def lastId (s : CheckDB) : ℕ := (s.rows.map LogRow.id).foldr max 0

/-- `klk_checkdb_get_changed` may return these modules. -/
def Changed (s : CheckDB) (receivers : List String) : Prop :=
  receivers.Nodup ∧
    (∀ id ∈ receivers, ∃ row ∈ s.rows, s.mLast < row.id ∧ row.moduleUuid = id) ∧
    ∀ row ∈ s.rows, s.mLast < row.id → row.moduleUuid ∈ receivers

instance (s : CheckDB) (receivers : List String) : Decidable (s.Changed receivers) :=
  inferInstanceAs (Decidable (_ ∧ _ ∧ _))

/-- The rows a commit makes visible. -/
def rowsOf (s : CheckDB) (transaction : ℕ) : List LogRow :=
  (s.inserted.filter fun row => row.1 = transaction).map Prod.snd

def dropTransaction (s : CheckDB) (transaction : ℕ) : List (ℕ × LogRow) :=
  s.inserted.filter fun row => row.1 ≠ transaction

/-- The receiver has accepted its message. -/
def serve (s : CheckDB) (id : String) : List LogRow :=
  s.unserved.filter fun row => row.moduleUuid ≠ id

def step (s : CheckDB) : CheckDBAction → Option CheckDB
  | .insert transaction moduleUuid =>
    some { s with
      nextId := s.nextId + 1, inserted := s.inserted ++ [(transaction, ⟨s.nextId, moduleUuid⟩)] }
  | .commit transaction =>
    some { s with
      rows := s.rows ++ s.rowsOf transaction
      inserted := s.dropTransaction transaction
      unserved := s.unserved ++ (s.rowsOf transaction).filter fun row => s.modules row.moduleUuid }
  | .rollback transaction => some { s with inserted := s.dropTransaction transaction }
  | .addModule id => some { s with modules := update s.modules id true }
  | .getLastId =>
    if s.pc = .idle then
      if s.mLast < s.lastId then some { s with pc := .getChanged s.lastId }
      else some { s with mLast := s.lastId }
    else none
  | .getChanged receivers =>
    match s.pc with
    | .getChanged newLast =>
      if s.Changed receivers then
        if receivers = [] then some { s with mLast := newLast, pc := .idle }
        else some { s with pc := .send newLast receivers }
      else none
    | _ => none
  | .sendMessage ignored =>
    match s.pc with
    | .send newLast receivers =>
      some { s with
        queue := if ignored then s.queue else s.queue ++ [receivers]
        mLast := newLast
        pc := .idle }
    | _ => none
  | .throw => if s.pc = .idle then none else some { s with pc := .idle }
  | .stopCore => some { s with queue := [] }
  | .process =>
    match s.receivers, s.queue with
    | [], receivers :: queue => some { s with receivers, queue }
    | _, _ => none
  | .addMessage outcome =>
    match s.receivers with
    | [] => none
    | id :: rest =>
      if s.modules id then
        match outcome with
        | .accepted => some { s with receivers := rest, unserved := s.serve id }
        | .ignored => some { s with receivers := rest }
        | .thrown => some { s with receivers := [] }
      -- unknown module id
      else some { s with receivers := [] }

/-- The ids up to here have been selected for a message. -/
def mark (s : CheckDB) : ℤ :=
  match s.pc with
  | .send newLast _ => newLast
  | _ => s.mLast

/-- The receivers before the first unknown one. -/
def reached (s : CheckDB) (receivers : List String) : List String :=
  receivers.takeWhile s.modules

/-- A message on its way from the container of the message core will reach the module. -/
def UnderWay (s : CheckDB) (id : String) : Prop :=
  id ∈ s.reached s.receivers ∨ ∃ receivers ∈ s.queue, id ∈ s.reached receivers

/-- The message that the poll is about to send will reach the module. -/
def ToBeSent (s : CheckDB) (id : String) : Prop :=
  ∃ newLast receivers, s.pc = .send newLast receivers ∧ id ∈ s.reached receivers

/-- The next poll selects the row, or a message to its module is coming. -/
def Covers (s : CheckDB) (row : LogRow) : Prop :=
  s.mark < row.id ∨ s.UnderWay row.moduleUuid ∨ s.ToBeSent row.moduleUuid

/-- So it is when the message that is being handed out goes to these receivers only. -/
def CoversBehind (s : CheckDB) (receivers : List String) (row : LogRow) : Prop :=
  Covers { s with receivers } row

/-- No visible row is left behind. -/
def Covered (s : CheckDB) : Prop := ∀ row ∈ s.unserved, s.Covers row

/-- The condition under which a step leaves no row behind.  A row must not become visible at or
below the mark unless a message to its module is coming; when the mark is raised, the modules of the
rows it passes must come before the first unknown one; and neither an exception nor a module that
ignores a message because it has been stopped may take away the only message to the module of a row
below the mark. -/
def CoverOk (s : CheckDB) : CheckDBAction → Prop
  | .commit transaction =>
    ∀ row ∈ s.rowsOf transaction, s.modules row.moduleUuid = true → s.Covers row
  | .getChanged receivers =>
    ∀ newLast, s.pc = .getChanged newLast → ∀ row ∈ s.unserved,
      newLast < row.id ∨ s.UnderWay row.moduleUuid ∨ row.moduleUuid ∈ s.reached receivers
  | .throw => ∀ row ∈ s.unserved, s.mLast < row.id ∨ s.UnderWay row.moduleUuid
  | .sendMessage true => ∀ row ∈ s.unserved, s.mark < row.id ∨ s.UnderWay row.moduleUuid
  | .stopCore => ∀ row ∈ s.unserved, Covers { s with queue := [] } row
  | .addMessage .thrown =>
    ∀ id rest, s.receivers = id :: rest → s.modules id = true → ∀ row ∈ s.unserved,
      s.CoversBehind [] row
  | .addMessage .ignored =>
    ∀ id rest, s.receivers = id :: rest → s.modules id = true → ∀ row ∈ s.unserved,
      row.moduleUuid = id → s.CoversBehind rest row
  | _ => True

/-- The checker before its first poll, with any log and any registered modules. -/
def fresh (modules : String → Bool) (rows : List LogRow) (nextId : ℕ) : CheckDB :=
  { modules, rows, nextId }

variable {s s' : CheckDB} {a : CheckDBAction} {row : LogRow} {id : String}

/-! ## The receivers that are reached -/

theorem reached_cons_of_pos {rest : List String} (h : s.modules id = true) :
    s.reached (id :: rest) = id :: s.reached rest :=
  List.takeWhile_cons_of_pos h

theorem reached_cons_of_neg {rest : List String} (h : s.modules id ≠ true) :
    s.reached (id :: rest) = [] :=
  List.takeWhile_cons_of_neg h

theorem mem_reached_addModule {receivers : List String} {new : String}
    (h : id ∈ s.reached receivers) :
    id ∈ ({ s with modules := update s.modules new true } : CheckDB).reached receivers := by
  induction receivers with
  | nil => exact h
  | cons first rest ih =>
    have hupdate : s.modules first = true → update s.modules new true first = true := by
      intro hfirst
      by_cases heq : first = new
      · rw [heq, update_self]
      · rwa [update_of_ne heq]
    by_cases hfirst : s.modules first = true
    · rw [reached_cons_of_pos hfirst] at h
      rw [reached_cons_of_pos (hupdate hfirst)]
      obtain rfl | hrest := List.mem_cons.1 h
      · exact List.mem_cons_self
      · exact List.mem_cons_of_mem _ (ih hrest)
    · rw [reached_cons_of_neg hfirst] at h
      cases h

theorem mark_of_ne_send (h : ∀ newLast receivers, s.pc ≠ .send newLast receivers) :
    s.mark = s.mLast := by
  unfold mark
  split
  · exact absurd ‹_› (h _ _)
  · rfl

/-- Before the message is built, only the mark and the messages under way cover a row. -/
theorem covers_of_ne_send (h : ∀ newLast receivers, s.pc ≠ .send newLast receivers) :
    s.Covers row ↔ s.mLast < row.id ∨ s.UnderWay row.moduleUuid := by
  have hsend : ¬ s.ToBeSent row.moduleUuid := fun ⟨newLast, receivers, hpc, _⟩ => h _ _ hpc
  simp only [Covers, mark_of_ne_send h, hsend, or_false]

/-! ## The steps -/

theorem covered_commit_iff {transaction : ℕ} (h : s.Covered)
    (hs : s.step (.commit transaction) = some s') :
    s'.Covered ↔ s.CoverOk (.commit transaction) := by
  obtain rfl := Option.some.inj hs
  constructor
  · intro h' row hrow hknown
    exact h' row (List.mem_append_right _ (List.mem_filter.2 ⟨hrow, hknown⟩))
  · intro hok row hrow
    obtain hold | hnew := List.mem_append.1 hrow
    · exact h row hold
    · obtain ⟨hmem, hknown⟩ := List.mem_filter.1 hnew
      exact hok row hmem hknown

theorem covered_addModule (h : s.Covered) :
    ({ s with modules := update s.modules id true } : CheckDB).Covered := by
  intro row hrow
  obtain hmark | (hway | ⟨receivers, hmem, hway⟩) | ⟨newLast, receivers, hpc, hsend⟩ := h row hrow
  · exact Or.inl hmark
  · exact Or.inr (Or.inl (Or.inl (mem_reached_addModule hway)))
  · exact Or.inr (Or.inl (Or.inr ⟨receivers, hmem, mem_reached_addModule hway⟩))
  · exact Or.inr (Or.inr ⟨newLast, receivers, hpc, mem_reached_addModule hsend⟩)

theorem covered_getLastId (h : s.Covered) (hs : s.step .getLastId = some s') : s'.Covered := by
  simp only [step] at hs
  split at hs
  next hpc =>
    have hidle : ∀ newLast receivers, s.pc ≠ .send newLast receivers := by simp [hpc]
    split at hs
    · obtain rfl := Option.some.inj hs
      intro row hrow
      have hcovers := (covers_of_ne_send hidle).1 (h row hrow)
      exact (covers_of_ne_send (by simp)).2 hcovers
    next hle =>
      obtain rfl := Option.some.inj hs
      intro row hrow
      have hcovers := (covers_of_ne_send hidle).1 (h row hrow)
      refine (covers_of_ne_send (by simp [hpc])).2 (hcovers.imp_left fun hlt => ?_)
      show (s.lastId : ℤ) < row.id
      omega
  · cases hs

theorem covered_getChanged_iff {receivers : List String}
    (hs : s.step (.getChanged receivers) = some s') :
    s'.Covered ↔ s.CoverOk (.getChanged receivers) := by
  simp only [step] at hs
  split at hs
  next newLast hpc =>
    have hok : s.CoverOk (.getChanged receivers) ↔ ∀ row ∈ s.unserved,
        newLast < row.id ∨ s.UnderWay row.moduleUuid ∨ row.moduleUuid ∈ s.reached receivers := by
      constructor
      · exact fun hok => hok newLast hpc
      · intro hall newLast' hpc'
        obtain rfl : newLast = newLast' := PollPc.getChanged.inj (hpc.symm.trans hpc')
        exact hall
    rw [hok]
    split at hs
    · split at hs
      next hnil =>
        obtain rfl := Option.some.inj hs
        apply forall₂_congr
        intro row hrow
        rw [covers_of_ne_send (by simp), hnil]
        exact or_congr Int.ofNat_lt (or_iff_left List.not_mem_nil).symm
      · obtain rfl := Option.some.inj hs
        refine forall₂_congr fun row hrow => or_congr Int.ofNat_lt (or_congr Iff.rfl ?_)
        constructor
        · rintro ⟨newLast', receivers', hpc', hmem⟩
          obtain ⟨-, rfl⟩ := PollPc.send.inj hpc'
          exact hmem
        · exact fun hmem => ⟨newLast, receivers, rfl, hmem⟩
    · cases hs
  · cases hs

theorem covered_sendMessage_iff {ignored : Bool} (h : s.Covered)
    (hs : s.step (.sendMessage ignored) = some s') :
    s'.Covered ↔ s.CoverOk (.sendMessage ignored) := by
  simp only [step] at hs
  split at hs
  next newLast receivers hpc =>
    obtain rfl := Option.some.inj hs
    have hmark : s.mark = newLast := by simp only [mark, hpc]
    cases ignored with
    | true =>
      refine forall₂_congr fun row hrow => ?_
      rw [covers_of_ne_send (by simp), hmark]
      rfl
    | false =>
      refine iff_of_true ?_ trivial
      intro row hrow
      apply (covers_of_ne_send (by simp)).2
      obtain hlt | (hway | ⟨queued, hmem, hway⟩) | ⟨newLast', receivers', hpc', hsend⟩ := h row hrow
      · exact Or.inl (hmark ▸ hlt)
      · exact Or.inr (Or.inl hway)
      · exact Or.inr (Or.inr ⟨queued, List.mem_append_left _ hmem, hway⟩)
      · obtain ⟨-, rfl⟩ := PollPc.send.inj (hpc.symm.trans hpc')
        exact Or.inr (Or.inr ⟨receivers, List.mem_append_right _ List.mem_cons_self, hsend⟩)
  · cases hs

theorem covered_throw_iff (hs : s.step .throw = some s') : s'.Covered ↔ s.CoverOk .throw := by
  simp only [step] at hs
  split at hs
  · cases hs
  · obtain rfl := Option.some.inj hs
    exact forall₂_congr fun row hrow => covers_of_ne_send (by simp)

theorem covered_process (h : s.Covered) (hs : s.step .process = some s') : s'.Covered := by
  simp only [step] at hs
  split at hs
  next receivers queue hnil hqueue =>
    obtain rfl := Option.some.inj hs
    intro row hrow
    obtain hlt | (hway | ⟨queued, hmem, hway⟩) | hsend := h row hrow
    · exact Or.inl hlt
    · rw [hnil] at hway
      cases hway
    · rw [hqueue] at hmem
      obtain rfl | hlater := List.mem_cons.1 hmem
      · exact Or.inr (Or.inl (Or.inl hway))
      · exact Or.inr (Or.inl (Or.inr ⟨queued, hlater, hway⟩))
    · exact Or.inr (Or.inr hsend)
  · cases hs

/-- An unknown module id is no loss: nothing behind it would have been reached. -/
theorem covered_of_unknown {rest : List String} (h : s.Covered)
    (hreceivers : s.receivers = id :: rest)
    (hid : s.modules id ≠ true) : ({ s with receivers := [] } : CheckDB).Covered := by
  intro row hrow
  obtain hlt | (hway | hway) | hsend := h row hrow
  · exact Or.inl hlt
  · rw [hreceivers, reached_cons_of_neg hid] at hway
    cases hway
  · exact Or.inr (Or.inl (Or.inr hway))
  · exact Or.inr (Or.inr hsend)

theorem mem_serve_iff : row ∈ s.serve id ↔ row ∈ s.unserved ∧ row.moduleUuid ≠ id := by
  simp only [serve, List.mem_filter, decide_eq_true_eq]

theorem covered_of_served {rest : List String} (h : s.Covered)
    (hreceivers : s.receivers = id :: rest)
    (hid : s.modules id = true) :
    ({ s with receivers := rest, unserved := s.serve id } : CheckDB).Covered := by
  intro row hrow
  obtain ⟨hmem, hne⟩ := mem_serve_iff.1 hrow
  obtain hlt | (hway | hway) | hsend := h row hmem
  · exact Or.inl hlt
  · rw [hreceivers, reached_cons_of_pos hid] at hway
    exact Or.inr (Or.inl (Or.inl ((List.mem_cons.1 hway).resolve_left hne)))
  · exact Or.inr (Or.inl (Or.inr hway))
  · exact Or.inr (Or.inr hsend)

/-- An exception in the turn of a receiver drops the receivers behind it. -/
theorem covered_of_thrown_iff {rest : List String} (hreceivers : s.receivers = id :: rest)
    (hid : s.modules id = true) :
    ({ s with receivers := [] } : CheckDB).Covered ↔ s.CoverOk (.addMessage .thrown) := by
  constructor
  · exact fun h _ _ _ _ => h
  · exact fun hok => hok id rest hreceivers hid

/-- A message that a receiver ignores is one less for the rows of its module. -/
theorem covered_of_ignored_iff {rest : List String} (h : s.Covered)
    (hreceivers : s.receivers = id :: rest) (hid : s.modules id = true) :
    ({ s with receivers := rest } : CheckDB).Covered ↔ s.CoverOk (.addMessage .ignored) := by
  constructor
  · intro h' id' rest' hreceivers' _ row hrow _
    obtain ⟨-, rfl⟩ := List.cons.inj (hreceivers.symm.trans hreceivers')
    exact h' row hrow
  · intro hok row hrow
    by_cases heq : row.moduleUuid = id
    · exact hok id rest hreceivers hid row hrow heq
    · obtain hlt | (hway | hway) | hsend := h row hrow
      · exact Or.inl hlt
      · rw [hreceivers, reached_cons_of_pos hid] at hway
        exact Or.inr (Or.inl (Or.inl ((List.mem_cons.1 hway).resolve_left heq)))
      · exact Or.inr (Or.inl (Or.inr hway))
      · exact Or.inr (Or.inr hsend)

theorem covered_addMessage_iff {outcome : AddOutcome} (h : s.Covered)
    (hs : s.step (.addMessage outcome) = some s') :
    s'.Covered ↔ s.CoverOk (.addMessage outcome) := by
  simp only [step] at hs
  split at hs
  · cases hs
  next id rest hreceivers =>
    split at hs
    next hid =>
      cases outcome with
      | accepted =>
        obtain rfl := Option.some.inj hs
        exact iff_of_true (covered_of_served h hreceivers hid) trivial
      | ignored =>
        obtain rfl := Option.some.inj hs
        exact covered_of_ignored_iff h hreceivers hid
      | thrown =>
        obtain rfl := Option.some.inj hs
        exact covered_of_thrown_iff hreceivers hid
    next hid =>
      obtain rfl := Option.some.inj hs
      apply iff_of_true (covered_of_unknown h hreceivers hid)
      have hknown : ∀ id' rest', s.receivers = id' :: rest' → s.modules id' ≠ true := by
        intro id' rest' hreceivers'
        obtain ⟨rfl, -⟩ := List.cons.inj (hreceivers.symm.trans hreceivers')
        exact hid
      cases outcome with
      | accepted => trivial
      | ignored | thrown => exact fun id' rest' h' hid' => absurd hid' (hknown id' rest' h')

theorem covered_step_iff (h : s.Covered) (hs : s.step a = some s') : s'.Covered ↔ s.CoverOk a := by
  cases a with
  | insert | rollback =>
    obtain rfl := Option.some.inj hs
    exact iff_of_true h trivial
  | commit transaction => exact covered_commit_iff h hs
  | addModule id =>
    obtain rfl := Option.some.inj hs
    exact iff_of_true (covered_addModule h) trivial
  | getLastId => exact iff_of_true (covered_getLastId h hs) trivial
  | getChanged receivers => exact covered_getChanged_iff hs
  | sendMessage ignored => exact covered_sendMessage_iff h hs
  | throw => exact covered_throw_iff hs
  | stopCore =>
    obtain rfl := Option.some.inj hs
    exact Iff.rfl
  | process => exact iff_of_true (covered_process h hs) trivial
  | addMessage outcome => exact covered_addMessage_iff h hs

/-- The runs in which every visible row of a registered module is above the mark or has a message to
its module coming: those whose steps all meet `CoverOk`. -/
theorem throughout_covered_iff (modules : String → Bool) (rows : List LogRow) (nextId : ℕ)
    (as : List CheckDBAction) : Throughout step Covered (fresh modules rows nextId) as ↔
      EachStep step CoverOk (fresh modules rows nextId) as :=
  throughout_iff_eachStep (I := fun _ => True) (fun _ _ => trivial)
    (fun _ h hs => covered_step_iff h hs) trivial nofun

/-- Once the poll has caught up and every message has been handed out, no covered row waits. -/
theorem Covered.unserved_eq_nil (h : s.Covered) (hmark : ∀ row ∈ s.unserved, row.id ≤ s.mLast)
    (hpc : s.pc = .idle) (hqueue : s.queue = []) (hreceivers : s.receivers = []) :
    s.unserved = [] := by
  apply List.eq_nil_iff_forall_not_mem.2
  intro row hrow
  obtain hlt | hway | ⟨receivers, hmem, -⟩ := (covers_of_ne_send (by simp [hpc])).1 (h row hrow)
  · have hle := hmark row hrow
    omega
  · rw [hreceivers] at hway
    cases hway
  · rw [hqueue] at hmem
    cases hmem

/-- The row with the smaller id is committed last.  The poll has passed it by then, nothing is on
its way, and the next poll does not look for it. -/
theorem late_commit_skipped : ∃ s, exec step (fresh (fun _ => true) [] 1)
    [.insert 1 "dvb", .insert 2 "network", .commit 2, .getLastId, .getChanged ["network"],
      .sendMessage false, .process, .addMessage .accepted, .commit 1, .getLastId] = some s ∧
    s.unserved = [⟨1, "dvb"⟩] ∧ s.mLast = 2 ∧ s.pc = .idle ∧ s.queue = [] ∧ s.receivers = [] :=
  ⟨_, rfl, rfl, rfl, rfl, rfl, rfl⟩

/-- A module id nobody knows comes first in the batch. -/
example : ∃ s, exec step (fresh (· == "dvb") [] 1)
    [.insert 1 "asterisk", .insert 1 "dvb", .commit 1, .getLastId,
      .getChanged ["asterisk", "dvb"], .sendMessage false, .process, .addMessage .accepted,
      .getLastId] = some s ∧
    s.unserved = [⟨2, "dvb"⟩] ∧ s.mLast = 2 ∧ s.pc = .idle ∧ s.queue = [] ∧ s.receivers = [] :=
  ⟨_, rfl, rfl, rfl, rfl, rfl, rfl⟩

end CheckDB

end Kalinka
