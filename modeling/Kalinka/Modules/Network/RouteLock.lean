import Kalinka.Lib.Lease
import Kalinka.Modules.Network.RouteInfo

/-!
# Mutual exclusion of the route locks

The lock procedures read the row, test what they read and write the row in separate statements, and
`klk_network_route_unlock` writes without a test.  `throughout_exclusive_iff` says exactly which
runs keep the locks exclusive: those in which every `UPDATE` finds the row such that its host's lock
test would succeed on it.
-/

namespace Kalinka

open Run Function

namespace RouteDb

/-- A lock call has reported success to the host, which has not released the route since, and the
lock has not expired. -/
def Active (db : RouteDb) (host route : String) : Prop :=
  ∃ lockTimestamp, db.held host route = some lockTimestamp ∧ ¬ lockTimestamp < db.now

/-- No two hosts have a route at the same time, and nobody has released another host's lock. -/
structure Exclusive (db : RouteDb) : Prop where
  exclusive : ∀ route host host', db.Active host route → db.Active host' route → host = host'
  releases : db.wrong = []

/-- The lock test of the host would succeed on the row as it is. -/
def Free (db : RouteDb) (host route : String) : Prop :=
  ∀ row, db.rows route = some row → row.free db.now host = true

/-- The lock columns as a lease table. -/
def leases (db : RouteDb) : Lease.Table String String where
  now := db.now
  rows route := (db.rows route).map fun row => ⟨row.lockTimestamp, row.lockResource⟩
  held := db.held

variable {db : RouteDb} {host route : String} {row : RouteRow}

theorem free_iff : db.Free host route ↔ db.leases.Free host route := by
  constructor
  · intro hfree lease hlease
    obtain ⟨row, hrow, rfl⟩ := Option.map_eq_some_iff.1 hlease
    exact hfree row hrow
  · intro hfree row hrow
    exact hfree _ (congrArg (Option.map _) hrow)

theorem leases_lock : (db.lock host route).leases =
    db.leases.grant host route (db.now + 2 * networkLockInterval) := by
  cases hrow : db.rows route with
  | none =>
    rw [lock_of_rows_eq_none hrow, Lease.Table.grant_of_rows_eq_none (by simp [leases, hrow])]
  | some row =>
    simp only [leases, Lease.Table.grant, lock, hrow, Option.map_some, Lease.Table.mk.injEq,
      true_and, and_true]
    funext route'
    by_cases hr : route' = route
    · subst hr
      simp
    · simp [hr]

theorem leases_unlock : (db.unlock host route).leases = db.leases.release host route := by
  cases hrow : db.rows route with
  | none =>
    rw [unlock_of_rows_eq_none hrow, Lease.Table.release_of_rows_eq_none (by simp [leases, hrow])]
  | some row =>
    simp only [leases, Lease.Table.release, unlock, hrow, Option.map_some, Lease.Table.mk.injEq,
      true_and, and_true]
    funext route'
    by_cases hr : route' = route
    · subst hr
      simp
    · simp [hr]

theorem exclusive_of_shown (h : db.leases.Shown) (hw : db.wrong = []) : Exclusive db :=
  ⟨h.exclusive, hw⟩

/-! ## The two `UPDATE`s keep the table in order -/

theorem shown_lock (h : db.leases.Shown) (hfree : db.Free host route) :
    (db.lock host route).leases.Shown := by
  rw [leases_lock]
  exact h.grant (free_iff.1 hfree) (Nat.le_add_right _ _)

theorem shown_unlock (h : db.leases.Shown) (hfree : db.Free host route) :
    (db.unlock host route).leases.Shown := by
  rw [leases_unlock]
  exact h.release (free_iff.1 hfree)

theorem exclusive_lock_iff (h : db.leases.Shown) (he : Exclusive db) :
    Exclusive (db.lock host route) ↔ db.Free host route := by
  constructor
  · intro he'
    have hleases : (db.lock host route).leases.Exclusive := he'.exclusive
    rw [leases_lock] at hleases
    rw [free_iff]
    exact (Lease.Table.exclusive_grant_iff h (Nat.le_add_right _ _)).1 hleases
  · intro hfree
    exact exclusive_of_shown (shown_lock h hfree) ((wrong_lock host route).trans he.releases)

theorem exclusive_unlock_iff (h : db.leases.Shown) (he : Exclusive db) :
    Exclusive (db.unlock host route) ↔ db.Free host route := by
  constructor
  · intro he' row hrow
    by_contra hfree
    have hw := he'.releases
    rw [wrong_unlock hrow, if_neg hfree] at hw
    cases hw
  · refine fun hfree => exclusive_of_shown (shown_unlock h hfree) ?_
    cases hrow : db.rows route with
    | none => rw [unlock_of_rows_eq_none hrow, he.releases]
    | some row => rw [wrong_unlock hrow, if_pos (hfree row hrow), he.releases]

end RouteDb

/-! ## Runs -/

namespace RouteSystem

variable {s s' : RouteSystem} {a : RouteAction} {host : String}

/-- The host and the route of the `UPDATE` that is the next step of a thread. -/
def msgUpdate (host : String) : MsgPc → Option (String × String)
  | .startLock route .update | .stopUnlock route | .clearUnlock route _ => some (host, route)
  | _ => none

def timerUpdate (host : String) : TimerPc → Option (String × String)
  | .updateLock route _ .update => some (host, route)
  | _ => none

def nextUpdate? (s : RouteSystem) : RouteAction → Option (String × String)
  | .msg host => msgUpdate host (s.msg host)
  | .timer host => timerUpdate host (s.timer host)
  | _ => none

/-- Every `UPDATE` of the lock columns finds the row such that its host's lock test would succeed on
it. -/
def UpdatesFree (s : RouteSystem) (a : RouteAction) : Prop :=
  ∀ host route, s.nextUpdate? a = some (host, route) → s.db.Free host route

/-- What a step can do to the database. -/
inductive DbStep (db : RouteDb) (update : Option (String × String)) : RouteDb → Prop
  | same (hu : update = none) : DbStep db update db
  | tick (n : ℕ) (hu : update = none) : DbStep db update { db with now := db.now + n }
  | lock (h r : String) (hu : update = some (h, r)) : DbStep db update (db.lock h r)
  | unlock (h r : String) (hu : update = some (h, r)) : DbStep db update (db.unlock h r)

theorem dbStep_msgStep {pc : MsgPc} (hs : s.msgStep host pc = some s') :
    DbStep s.db (msgUpdate host pc) s'.db := by
  cases pc with
  | idle => cases hs
  | startInUse route pc =>
    simp only [msgStep] at hs
    split at hs <;> exact Option.some.inj hs ▸ .same rfl
  | startLock route pc =>
    cases pc with
    | update => exact Option.some.inj hs ▸ .lock _ _ rfl
    | select | test =>
      simp only [msgStep] at hs
      split at hs <;> exact Option.some.inj hs ▸ .same rfl
  | startConfirm route pc =>
    simp only [msgStep] at hs
    split at hs <;> exact Option.some.inj hs ▸ .same rfl
  | stopInUse route pc =>
    simp only [msgStep] at hs
    split at hs <;> exact Option.some.inj hs ▸ .same rfl
  | stopUnlock route => exact Option.some.inj hs ▸ .unlock _ _ rfl
  | clearSelect route rest =>
    simp only [msgStep] at hs
    split at hs
    · exact Option.some.inj hs ▸ .same rfl
    · split at hs <;> exact Option.some.inj hs ▸ .same rfl
  | clearUnlock route rest => exact Option.some.inj hs ▸ .unlock _ _ rfl

theorem dbStep_timerStep {pc : TimerPc} (hs : s.timerStep host pc = some s') :
    DbStep s.db (timerUpdate host pc) s'.db := by
  cases pc with
  | idle => cases hs
  | updateSelect route rest =>
    simp only [timerStep] at hs
    split at hs
    · exact Option.some.inj hs ▸ .same rfl
    · split at hs <;> exact Option.some.inj hs ▸ .same rfl
  | updateLock route rest pc =>
    cases pc with
    | update => exact Option.some.inj hs ▸ .lock _ _ rfl
    | select | test =>
      simp only [timerStep] at hs
      split at hs <;> exact Option.some.inj hs ▸ .same rfl

theorem dbStep_step (hs : s.step a = some s') : DbStep s.db (s.nextUpdate? a) s'.db := by
  cases a with
  | tick seconds => exact Option.some.inj hs ▸ .tick seconds rfl
  | netStart host route | netStop host route | shutdown host routes | keepAlive host routes =>
    simp only [step] at hs
    split at hs
    · exact Option.some.inj hs ▸ .same rfl
    · cases hs
  | msg host => exact dbStep_msgStep hs
  | timer host => exact dbStep_timerStep hs

theorem shown_step (h : s.db.leases.Shown) (hok : UpdatesFree s a) (hs : s.step a = some s') :
    s'.db.leases.Shown := by
  have hdb := dbStep_step hs
  generalize s'.db = db' at hdb
  cases hdb with
  | same => exact h
  | tick n => exact h.tick n
  | lock host route hu => exact RouteDb.shown_lock h (hok host route hu)
  | unlock host route hu => exact RouteDb.shown_unlock h (hok host route hu)

theorem exclusive_step_iff (h : s.db.leases.Shown) (he : s.db.Exclusive)
    (hs : s.step a = some s') : s'.db.Exclusive ↔ UpdatesFree s a := by
  have hdb := dbStep_step hs
  unfold UpdatesFree
  generalize s'.db = db' at hdb
  generalize s.nextUpdate? a = update at hdb
  cases hdb with
  | same hu => exact iff_of_true he (by simp [hu])
  | tick n hu =>
    have hshown : ({ s.db with now := s.db.now + n } : RouteDb).leases.Shown := h.tick n
    exact iff_of_true (RouteDb.exclusive_of_shown hshown he.releases) (by simp [hu])
  | lock host route hu =>
    rw [RouteDb.exclusive_lock_iff h he]
    simp [hu]
  | unlock host route hu =>
    rw [RouteDb.exclusive_unlock_iff h he]
    simp [hu]

theorem leases_start (now : ℕ) (rows : String → Option RouteRow) :
    (start now rows).db.leases = Lease.Table.start now fun route =>
      (rows route).map fun row => ⟨row.lockTimestamp, row.lockResource⟩ := by
  simp only [RouteDb.leases, start, Lease.Table.start, Lease.Table.mk.injEq, true_and]
  funext host route
  cases rows route <;> rfl

/-- Whatever locks the table has at the start: a run keeps the locks exclusive exactly when its
`UPDATE`s all find the row free for their host. -/
theorem throughout_exclusive_iff (now : ℕ) (rows : String → Option RouteRow)
    (as : List RouteAction) :
    Throughout step (fun s => s.db.Exclusive) (start now rows) as ↔
      EachStep step UpdatesFree (start now rows) as :=
  have hstart : (start now rows).db.leases.Shown :=
    leases_start now rows ▸ Lease.Table.shown_start now _
  throughout_iff_eachStep_of_ok (I := fun s => s.db.leases.Shown)
    (fun h _ hok hs => shown_step h hok hs) exclusive_step_iff hstart
    (RouteDb.exclusive_of_shown hstart rfl)

/-- Both hosts test the row before either writes it, and both are told that the route is theirs. -/
theorem two_hosts_lock :
    ∃ s, exec step (start 0 fun _ => some {}) [.netStart "A" "r", .netStart "B" "r",
        .msg "A", .msg "A", .msg "B", .msg "B",
        .msg "A", .msg "A", .msg "B", .msg "B", .msg "A", .msg "B"] = some s ∧
      s.db.Active "A" "r" ∧ s.db.Active "B" "r" :=
  ⟨_, rfl, ⟨70, by decide, by decide⟩, ⟨70, by decide, by decide⟩⟩

end RouteSystem

end Kalinka
