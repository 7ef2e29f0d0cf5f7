import Kalinka.Modules.Network.RouteInfo

/-!
# Releases that last

`klk_network_route_update_lock` reads the owner of the lock in one statement and has the lock
renewed in later ones, on the timer thread, while the message thread may release the route.
`throughout_kept_iff` says exactly which runs keep every release until the next `NETSTART`.
-/

namespace Kalinka

open Run Function

namespace RouteSystem

/-- A route that was released on a host is not marked locked by it. -/
def Kept (s : RouteSystem) : Prop :=
  ∀ host route row, s.released host route = true → s.db.rows route = some row →
    row.lockResource ≠ some host

/-- The timer thread does not renew the lock of a route that has been released since it read the
owner, and the clearing at shutdown is not ended by a missing route while it has one before it that
is marked locked by its host. -/
def RenewsUnreleased (s : RouteSystem) : RouteAction → Prop
  | .timer host => ∀ route rest, s.timer host = .updateLock route rest .update →
      (s.db.rows route).isSome → s.released host route = false
  | .msg host => ∀ route rest, s.msg host = .clearSelect route rest → s.db.rows route = none →
      ∀ r ∈ rest, ∀ row, s.db.rows r = some row → row.lockResource ≠ some host
  | _ => True

/-- The route of a `NETSTART` that has not taken the lock yet. -/
def starting : MsgPc → Option String
  | .startInUse route _ | .startLock route _ => some route
  | _ => none

/-- During a `NETSTART` the route does not count as released. -/
def StartUnreleased (s : RouteSystem) : Prop :=
  ∀ host route, starting (s.msg host) = some route → s.released host route = false

variable {s s' : RouteSystem} {a : RouteAction} {host route : String} {routes rest : List String}
variable {pc : MsgPc}

/-! ## Releases -/

theorem released_setReleased (h r : String) (b : Bool) :
    (s.setReleased host routes b).released h r =
      if h = host ∧ r ∈ routes then b else s.released h r := by
  by_cases hh : h = host
  · subst hh
    by_cases hr : r ∈ routes <;> simp [setReleased, hr]
  · simp [setReleased, hh]

theorem kept_release_iff (hk : Kept s) :
    Kept (s.setReleased host routes true) ↔
      ∀ r ∈ routes, ∀ row, s.db.rows r = some row → row.lockResource ≠ some host := by
  constructor
  · intro hk' r hr row hrow
    exact hk' host r row ((released_setReleased host r true).trans (if_pos ⟨rfl, hr⟩)) hrow
  · intro h host' r row hrel hrow
    rw [released_setReleased] at hrel
    split at hrel
    · rename_i hc
      obtain ⟨rfl, hr⟩ := hc
      exact h r hr row hrow
    · exact hk host' r row hrel hrow

theorem Kept.restart (hk : Kept s) : Kept (s.setReleased host routes false) := by
  intro host' r row hrel hrow
  rw [released_setReleased] at hrel
  split at hrel
  · cases hrel
  · exact hk host' r row hrel hrow

/-- A lock `UPDATE` goes against a release exactly if its route is released on its host. -/
theorem kept_lock_iff (hk : Kept s) :
    Kept { s with db := s.db.lock host route } ↔
      ((s.db.rows route).isSome → s.released host route = false) := by
  cases hrow : s.db.rows route with
  | none =>
    rw [RouteDb.lock_of_rows_eq_none hrow]
    exact iff_of_true hk (by simp)
  | some row =>
    have hrows : (s.db.lock host route).rows = _ := RouteDb.rows_lock hrow
    constructor
    · intro hk' _
      by_contra hrel
      have hnew := (congrFun hrows route).trans (update_self ..)
      exact hk' host route _ (eq_true_of_ne_false hrel) hnew rfl
    · intro hrel host' r row' hrel' hrow'
      rw [hrows] at hrow'
      by_cases hr : r = route
      · subst hr
        rw [update_self] at hrow'
        obtain rfl := Option.some.inj hrow'
        intro howner
        obtain rfl := Option.some.inj howner
        exact absurd (hrel'.symm.trans (hrel rfl)) (by simp)
      · rw [update_of_ne hr] at hrow'
        exact hk host' r row' hrel' hrow'

/-- After the unlock `UPDATE` nobody is marked as the owner. -/
theorem lockResource_unlock {row : RouteRow}
    (hrow : (s.db.unlock host route).rows route = some row) : row.lockResource = none := by
  cases hold : s.db.rows route with
  | none => simp [RouteDb.unlock_of_rows_eq_none hold, hold] at hrow
  | some old =>
    rw [RouteDb.rows_unlock hold, update_self] at hrow
    obtain rfl := Option.some.inj hrow
    rfl

theorem rows_unlock_of_ne {r : String} (hr : r ≠ route) :
    (s.db.unlock host route).rows r = s.db.rows r := by
  cases hold : s.db.rows route with
  | none => rw [RouteDb.unlock_of_rows_eq_none hold]
  | some old => rw [RouteDb.rows_unlock hold, update_of_ne hr]

theorem Kept.unlock (hk : Kept s) :
    Kept ({ s with db := s.db.unlock host route }.setReleased host [route] true) := by
  have hk₁ : Kept { s with db := s.db.unlock host route } := by
    intro host' r row hrel hrow
    by_cases hr : r = route
    · subst hr
      simp [lockResource_unlock hrow]
    · exact hk host' r row hrel ((rows_unlock_of_ne hr).symm.trans hrow)
  apply (kept_release_iff hk₁).2
  intro r hr row hrow
  obtain rfl := List.mem_singleton.1 hr
  simp [lockResource_unlock hrow]

/-! ## Steps -/

theorem StartUnreleased.setMsg (h : StartUnreleased s)
    (hpc : ∀ route, starting pc = some route → s.released host route = false) :
    StartUnreleased (s.setMsg host pc) := by
  intro h' r hr
  by_cases hh : h' = host
  · subst hh
    simp only [RouteSystem.setMsg, update_self] at hr
    exact hpc r hr
  · simp only [RouteSystem.setMsg, update_of_ne hh] at hr
    exact h h' r hr

/-- A release leaves no `NETSTART` of the host behind, since it is the message thread's own. -/
theorem StartUnreleased.setReleased (h : StartUnreleased s) (b : Bool)
    (hpc : ∀ route, starting pc = some route → route ∈ routes ∧ b = false) :
    StartUnreleased ((s.setReleased host routes b).setMsg host pc) := by
  intro h' r hr
  by_cases hh : h' = host
  · subst hh
    simp only [RouteSystem.setMsg, update_self] at hr
    exact (released_setReleased h' r b).trans (by simp [hpc r hr])
  · simp only [RouteSystem.setMsg, update_of_ne hh] at hr
    apply (released_setReleased h' r b).trans
    rw [if_neg (fun hc => hh hc.1)]
    exact h h' r hr

theorem starting_nextClear (rest : List String) : starting (nextClear rest) = none := by
  cases rest <;> rfl

/-- What a step does to the locks and the releases. -/
inductive Moves (s : RouteSystem) : RouteAction → RouteSystem → Prop
  /-- a step that changes none of them, and begins no `NETSTART` -/
  | quiet (a : RouteAction) (s' : RouteSystem) (hrows : s'.db.rows = s.db.rows)
      (hreleased : s'.released = s.released)
      (hstart : ∀ host r, starting (s'.msg host) = some r → starting (s.msg host) = some r)
      (hok : RenewsUnreleased s a) : Moves s a s'
  | netStart (host route : String) : Moves s (.netStart host route)
      ((s.setReleased host [route] false).setMsg host (.startInUse route .select))
  | lock (host route : String) (hpc : s.msg host = .startLock route .update) :
      Moves s (.msg host)
        ({ s with db := s.db.lock host route }.setMsg host (.startConfirm route .select))
  | unlock (host route : String) (pc : MsgPc) (hstart : starting pc = none)
      (hok : RenewsUnreleased s (.msg host)) : Moves s (.msg host)
        (({ s with db := s.db.unlock host route }.setReleased host [route] true).setMsg host pc)
  | missing (host route : String) (rest : List String)
      (hpc : s.msg host = .clearSelect route rest) (hrow : s.db.rows route = none) :
      Moves s (.msg host) ((s.setReleased host (route :: rest) true).setMsg host .idle)
  | other (host route : String) (rest : List String) (row : RouteRow)
      (hpc : s.msg host = .clearSelect route rest) (hrow : s.db.rows route = some row)
      (howner : row.lockResource ≠ some host) :
      Moves s (.msg host) ((s.setReleased host [route] true).setMsg host (nextClear rest))
  | renew (host route : String) (rest : List String)
      (hpc : s.timer host = .updateLock route rest .update) : Moves s (.timer host)
        ({ s with db := s.db.lock host route }.setTimer host (nextUpdate rest))

/-- A message thread goes on with the same `NETSTART`, or with none. -/
theorem moves_setMsg (hstart : ∀ r, starting pc = some r → starting (s.msg host) = some r)
    (hok : RenewsUnreleased s a) : Moves s a (s.setMsg host pc) := by
  refine .quiet a _ rfl rfl (fun host' r hr => ?_) hok
  by_cases hh : host' = host
  · subst hh
    simp only [setMsg, update_self] at hr
    exact hstart r hr
  · simpa only [setMsg, update_of_ne hh] using hr

theorem moves_setTimer {pc : TimerPc} (hok : RenewsUnreleased s a) :
    Moves s a (s.setTimer host pc) := .quiet a _ rfl rfl (fun _ _ h => h) hok

theorem moves_msgStep (hs : s.msgStep host (s.msg host) = some s') : Moves s (.msg host) s' := by
  -- only at `clearSelect` does it matter what the table shows
  have hok (hne : ∀ route rest, s.msg host ≠ .clearSelect route rest) :
      RenewsUnreleased s (.msg host) := fun route rest h => absurd h (hne route rest)
  cases hpc : s.msg host with
  | idle =>
    rw [hpc] at hs
    cases hs
  | startInUse route pc =>
    rw [hpc] at hs
    simp only [msgStep] at hs
    split at hs
    · exact Option.some.inj hs ▸ moves_setMsg (by simp [hpc, starting]) (hok (by simp [hpc]))
    · exact Option.some.inj hs ▸ moves_setMsg nofun (hok (by simp [hpc]))
    · exact Option.some.inj hs ▸ moves_setMsg (by simp [hpc, starting]) (hok (by simp [hpc]))
  | startLock route pc =>
    rw [hpc] at hs
    cases pc with
    | update => exact Option.some.inj hs ▸ .lock host route hpc
    | select | test =>
      simp only [msgStep] at hs
      split at hs
      · exact Option.some.inj hs ▸ moves_setMsg (by simp [hpc, starting]) (hok (by simp [hpc]))
      · exact Option.some.inj hs ▸ moves_setMsg nofun (hok (by simp [hpc]))
  | startConfirm route pc | stopInUse route pc =>
    rw [hpc] at hs
    simp only [msgStep] at hs
    split at hs <;> exact Option.some.inj hs ▸ moves_setMsg nofun (hok (by simp [hpc]))
  | stopUnlock route =>
    rw [hpc] at hs
    exact Option.some.inj hs ▸ .unlock host route .idle rfl (hok (by simp [hpc]))
  | clearSelect route rest =>
    rw [hpc] at hs
    simp only [msgStep] at hs
    split at hs
    next hrow => exact Option.some.inj hs ▸ .missing host route rest hpc hrow
    next row hrow =>
      split at hs
      · exact Option.some.inj hs ▸ moves_setMsg nofun (by simp [RenewsUnreleased, hpc, hrow])
      next howner => exact Option.some.inj hs ▸ .other host route rest row hpc hrow howner
  | clearUnlock route rest =>
    rw [hpc] at hs
    exact Option.some.inj hs ▸
      .unlock host route _ (starting_nextClear rest) (hok (by simp [hpc]))

theorem moves_timerStep (hs : s.timerStep host (s.timer host) = some s') :
    Moves s (.timer host) s' := by
  cases hpc : s.timer host with
  | idle =>
    rw [hpc] at hs
    cases hs
  | updateSelect route rest =>
    rw [hpc] at hs
    have hok : RenewsUnreleased s (.timer host) := by simp [RenewsUnreleased, hpc]
    simp only [timerStep] at hs
    split at hs
    · exact Option.some.inj hs ▸ moves_setTimer hok
    · split at hs <;> exact Option.some.inj hs ▸ moves_setTimer hok
  | updateLock route rest pc =>
    rw [hpc] at hs
    cases pc with
    | update => exact Option.some.inj hs ▸ .renew host route rest hpc
    | select | test =>
      have hok : RenewsUnreleased s (.timer host) := by simp [RenewsUnreleased, hpc]
      simp only [timerStep] at hs
      split at hs <;> exact Option.some.inj hs ▸ moves_setTimer hok

theorem step_cases (hs : s.step a = some s') : Moves s a s' := by
  cases a with
  | tick seconds => exact Option.some.inj hs ▸ .quiet _ _ rfl rfl (fun _ _ h => h) trivial
  | netStart host route =>
    simp only [step] at hs
    split at hs
    · exact Option.some.inj hs ▸ .netStart host route
    · cases hs
  | netStop host route =>
    simp only [step] at hs
    split at hs
    · exact Option.some.inj hs ▸ moves_setMsg nofun trivial
    · cases hs
  | shutdown host routes =>
    simp only [step] at hs
    split at hs
    · exact Option.some.inj hs ▸ moves_setMsg (by simp [starting_nextClear]) trivial
    · cases hs
  | keepAlive host routes =>
    simp only [step] at hs
    split at hs
    · exact Option.some.inj hs ▸ moves_setTimer trivial
    · cases hs
  | msg host => exact moves_msgStep hs
  | timer host => exact moves_timerStep hs

theorem startUnreleased_step (h : StartUnreleased s) (hs : s.step a = some s') :
    StartUnreleased s' := by
  cases step_cases hs with
  | quiet _ _ _ hreleased hstart =>
    intro host r hr
    rw [hreleased]
    exact h host r (hstart host r hr)
  | netStart => exact h.setReleased false (by simp [starting])
  | lock host route =>
    exact StartUnreleased.setMsg (s := { s with db := s.db.lock host route }) h nofun
  | unlock host route pc hstart =>
    exact StartUnreleased.setReleased (s := { s with db := s.db.unlock host route }) h true
      (by simp [hstart])
  | missing => exact h.setReleased true nofun
  | other _ _ rest => exact h.setReleased true (by simp [starting_nextClear])
  | renew => exact h

/-- One step keeps the releases exactly when it meets `RenewsUnreleased`. -/
theorem kept_step_iff (h : StartUnreleased s) (hk : Kept s) (hs : s.step a = some s') :
    Kept s' ↔ RenewsUnreleased s a := by
  cases step_cases hs with
  | quiet _ _ hrows hreleased _ hok =>
    refine iff_of_true ?_ hok
    unfold Kept
    rw [hrows, hreleased]
    exact hk
  | netStart => exact iff_of_true hk.restart trivial
  | lock host route hpc =>
    refine iff_of_true ((kept_lock_iff hk).2 fun _ => h host route ?_) ?_
    · rw [hpc]
      rfl
    · simp [RenewsUnreleased, hpc]
  | unlock _ _ _ _ hok => exact iff_of_true hk.unlock hok
  | missing host route rest hpc hrow =>
    refine (kept_release_iff hk).trans ?_
    simp [RenewsUnreleased, hpc, hrow]
  | other host route rest row hpc hrow howner =>
    refine iff_of_true ((kept_release_iff hk).2 fun r hr row' hrow' => ?_) ?_
    · obtain rfl := List.mem_singleton.1 hr
      obtain rfl := Option.some.inj (hrow.symm.trans hrow')
      exact howner
    · simp [RenewsUnreleased, hpc, hrow]
  | renew host route rest hpc =>
    refine (kept_lock_iff hk).trans ?_
    simp [RenewsUnreleased, hpc]

/-- A run keeps every release until the next `NETSTART` exactly when its steps all meet
`RenewsUnreleased`. -/
theorem throughout_kept_iff (now : ℕ) (rows : String → Option RouteRow) (as : List RouteAction) :
    Throughout step Kept (start now rows) as ↔
      EachStep step RenewsUnreleased (start now rows) as :=
  throughout_iff_eachStep startUnreleased_step kept_step_iff (fun _ _ h => by cases h)
    (fun _ _ _ h => by cases h)

/-- The release falls between the keep-alive's reading of the owner and its `UPDATE`. -/
theorem release_undone :
    ∃ s, exec step (start 0 fun _ => some {}) [.netStart "A" "r", .msg "A", .msg "A", .msg "A",
        .msg "A", .msg "A", .msg "A", .msg "A", .keepAlive "A" ["r"], .timer "A", .netStop "A" "r",
        .msg "A", .msg "A", .msg "A", .timer "A", .timer "A", .timer "A"] = some s ∧
      s.msg "A" = .idle ∧ s.released "A" "r" = true ∧
      s.db.rows "r" = some { lockTimestamp := 70, lockResource := some "A" } :=
  ⟨_, rfl, by decide, by decide, by decide⟩

end RouteSystem

end Kalinka
