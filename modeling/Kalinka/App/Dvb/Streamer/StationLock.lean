import Kalinka.App.Dvb.Streamer.Streamer

/-!
# Exclusive stations

The lock procedure reads the row, tests what it read and writes the row in separate statements, and
the destructor of a station unlocks it whoever has it.  `throughout_stationExclusive` says in which
runs no two hosts stream a station under their locks and no host clears the lock of another: those
in which every lock is taken from a row that passes the test at that moment, of a station that no
other host has a `Station` object of.
-/

namespace Kalinka

open Run Function

/-- The stations that a run of `processDB` has started. -/
def StreamerPc.started : StreamerPc → List String
  | .unlock _ run | .sources run | .get _ _ _ run | .start _ _ _ run | .setFailed _ _ run
  | .destroy _ run => run.started
  | _ => []

/-- The stations that a run of `processDB` is to unlock, or has locked for `Station` objects. -/
def StreamerPc.claims : StreamerPc → List String
  | .unlock stations run => stations ++ run.started
  | .sources run => run.started
  | .get _ _ tmpRes run => tmpRes ++ run.started
  | .start _ stations failList run => stations ++ failList ++ run.started
  | .setFailed _ failList run => failList ++ run.started
  | .destroy stations run => stations ++ run.started
  | .signalLost _ del => del
  | _ => []

namespace StreamerHost

def Streams (h : StreamerHost) (station : String) : Prop :=
  station ∈ h.info ∨ station ∈ h.msg.started

/-- The host has a `Station` object of the station, or is about to make one, or to unlock it. -/
def Claims (h : StreamerHost) (station : String) : Prop :=
  station ∈ h.info ∨ station ∈ h.dropped ∨ station ∈ h.msg.claims

end StreamerHost

namespace StreamerSystem

/-- No two hosts stream one station under an unexpired lock, and no host has cleared the lock of
another. -/
structure StationExclusive (s : StreamerSystem) : Prop where
  streams : ∀ station host host', (s.host host).Streams station → (s.host host').Streams station →
    s.db.locks.Active host station → s.db.locks.Active host' station → host = host'
  unlocks : s.db.wrong = []

/-- A station is locked from a row that passes the test of the host at that moment, and no other
host claims it. -/
def LocksUnclaimed (s : StreamerSystem) (a : StreamerAction) : Prop :=
  ∀ host station, s.write? a = some (.lock host station) → s.db.locks.Free host station ∧
    ∀ other, other ≠ host → ¬ (s.host other).Claims station

/-- A host claims only what it has locked, or what nobody has. -/
def Claimed (s : StreamerSystem) : Prop :=
  ∀ host station, (s.host host).Claims station →
    ∀ other, s.db.locks.owner station = some other → other = host

end StreamerSystem

/-! ## Claims -/

namespace StreamerHost

variable {db db' : StationDb} {h h' : StreamerHost} {host station : String} {ok : Bool}

theorem claims_of_subset {msg : StreamerPc} (hmsg : msg.claims ⊆ h.msg.claims)
    (hclaims : ({ h with msg } : StreamerHost).Claims station) : h.Claims station :=
  hclaims.imp_right (Or.imp_right fun hmem => hmsg hmem)

theorem claims_endProcessDB {run : ProcessDB} (hmsg : h.msg = .sources run)
    (hclaims : (h.endProcessDB db host run).Claims station) : h.Claims station := by
  have hstarted : station ∈ run.started → h.Claims station := by
    intro hmem
    right; right
    rwa [hmsg]
  obtain hinfo | hdropped | hnone := hclaims
  · obtain hold | hadd := List.mem_append.1 hinfo
    · exact Or.inl (List.mem_of_mem_filter hold)
    · exact hstarted (List.mem_of_mem_filter (List.mem_dedup.1 hadd))
  · obtain hold | hrest := List.mem_append.1 hdropped
    · obtain hold | hdel := List.mem_append.1 hold
      · exact Or.inr (Or.inl hold)
      · exact Or.inl (List.mem_of_mem_filter hdel)
    · exact hstarted (List.diff_subset _ _ hrest)
  · cases hnone

/-- A station of the loop over the result goes to the fail list. -/
theorem claims_fail {pc pc' : StationStartPc} {stations failList : List String} {run : ProcessDB} :
    (StreamerPc.start pc' stations (failList ++ [station]) run).claims ⊆
      (StreamerPc.start pc (station :: stations) failList run).claims := by
  intro x hx
  simp only [StreamerPc.claims, List.mem_append, List.mem_cons, List.not_mem_nil, or_false] at hx ⊢
  tauto

/-- The message thread claims only what it has claimed before, or what its host has locked. -/
theorem claims_msgStep (hs : h.msgStep db host ok h.msg = some (db', h'))
    (hclaims : h'.Claims station) :
    h.Claims station ∨ ∀ other, db'.locks.owner station = some other → other = host := by
  have hmove := msgStep_cases hs
  generalize hmsg : h.msg = pc at hmove
  have keep : ∀ {msg : StreamerPc}, ({ h with msg } : StreamerHost).Claims station →
      msg.claims ⊆ pc.claims → h.Claims station :=
    fun hclaims hsub => claims_of_subset (by rwa [hmsg]) hclaims
  cases hmove with
  | list sources =>
    obtain hinfo | hdropped | hmem := hclaims
    · exact .inl (.inl hinfo)
    · exact .inl (.inr (.inl hdropped))
    · right
      intro other howner
      have hown : station ∈ db.stationList host := by
        simp only [StreamerPc.claims, List.append_nil] at hmem
        exact List.mem_of_mem_filter hmem
      have hhost := of_decide_eq_true (List.mem_filter.1 hown).2
      exact Option.some.inj (howner.symm.trans hhost)
  | getLock station' =>
    by_cases hsame : station = station'
    · subst hsame
      right
      exact fun other howner => Lease.Table.eq_of_owner_grant howner
    · left
      obtain hinfo | hdropped | hmem := hclaims
      · exact .inl hinfo
      · exact .inr (.inl hdropped)
      · right; right
        rw [hmsg]
        simpa [StreamerPc.claims, hsame] using hmem
  | finish => exact .inl (claims_endProcessDB hmsg hclaims)
  | signalled =>
    left
    obtain hinfo | hdropped | hnone := hclaims
    · exact .inl (List.mem_of_mem_filter hinfo)
    · obtain hold | hdel := List.mem_append.1 hdropped
      · exact .inr (.inl hold)
      · right; right
        rwa [hmsg]
    · cases hnone
  | fail => exact .inl (keep hclaims claims_fail)
  | setRoute =>
    refine .inl (keep hclaims fun x hx => ?_)
    simp only [StreamerPc.claims, List.mem_append, List.mem_cons, List.not_mem_nil, or_false]
      at hx ⊢
    tauto
  | got => exact .inl (keep hclaims (by simp [StreamerPc.claims]))
  | unlock | destroy => exact .inl (keep hclaims (List.subset_cons_self _ _))
  | _ => exact .inl (keep hclaims (List.Subset.refl _))

/-- A station that is to be unlocked is claimed. -/
theorem claims_of_unlock {host' : String} (hw : h.msg.write host = some (.unlock host' station)) :
    host' = host ∧ h.Claims station := by
  obtain ⟨hhost, stations, run, hmsg | hmsg⟩ := StreamerPc.write_eq_unlock hw <;>
  · refine ⟨hhost, Or.inr (Or.inr ?_)⟩
    rw [hmsg]
    exact List.mem_cons_self

end StreamerHost

namespace StreamerSystem

variable {s s' : StreamerSystem} {a : StreamerAction} {host station : String}

/-- A host whose step adds no claim. -/
theorem claims_setHost {host' : String} {h : StreamerHost} {t : StreamerSystem}
    (ht : t.host = s.host) (hh : h.Claims station → (s.host host').Claims station)
    (hclaims : ((t.setHost host' h).host host).Claims station) :
    (s.host host).Claims station := by
  by_cases heq : host = host'
  · subst heq
    rw [setHost_host, update_self] at hclaims
    exact hh hclaims
  · rwa [setHost_host, update_of_ne heq, ht] at hclaims

theorem claims_step (hs : s.step a = some s') (hclaims : (s'.host host).Claims station) :
    (s.host host).Claims station ∨
      ∀ other, s'.db.locks.owner station = some other → other = host := by
  cases a with
  | tick seconds | edit info | clearFailed host' =>
    obtain rfl := Option.some.inj hs
    exact Or.inl hclaims
  | processDB host' sources =>
    simp only [step] at hs
    split at hs
    · obtain rfl := Option.some.inj hs
      refine Or.inl (claims_setHost rfl (fun h => ?_) hclaims)
      exact h.imp_right fun h => Or.inl (h.resolve_right List.not_mem_nil)
    · cases hs
  | signalLost host' stations =>
    simp only [step] at hs
    split at hs
    · obtain rfl := Option.some.inj hs
      refine Or.inl (claims_setHost rfl (fun h => ?_) hclaims)
      obtain hinfo | hdropped | hdel := h
      · exact Or.inl hinfo
      · exact Or.inr (Or.inl hdropped)
      · exact Or.inl (List.mem_of_mem_filter hdel)
    · cases hs
  | clear host' =>
    simp only [step] at hs
    split at hs
    next hidle =>
      obtain rfl := Option.some.inj hs
      refine Or.inl (claims_setHost rfl (fun h => ?_) hclaims)
      obtain hnone | hdropped | hmsg := h
      · cases hnone
      · obtain hold | hinfo := List.mem_append.1 hdropped
        · exact Or.inr (Or.inl hold)
        · exact Or.inl hinfo
      · exact Or.inr (Or.inr hmsg)
    · cases hs
  | updateLock host' =>
    simp only [step] at hs
    split at hs
    · obtain rfl := Option.some.inj hs
      refine Or.inl (claims_setHost rfl (fun h => ?_) hclaims)
      exact h
    · cases hs
  | msg host' ok =>
    obtain ⟨db, h, hmsg, rfl⟩ := step_msg hs
    by_cases heq : host = host'
    · subst heq
      rw [setHost_host, update_self] at hclaims
      exact StreamerHost.claims_msgStep hmsg hclaims
    · left
      rwa [setHost_host, update_of_ne heq] at hclaims
  | timer host' =>
    obtain ⟨db, h, htimer, rfl⟩ := step_timer hs
    obtain ⟨timer, rfl⟩ := StreamerHost.timerStep_eq htimer
    refine Or.inl (claims_setHost (t := { s with db }) rfl (fun h => ?_) hclaims)
    exact h
  | destroy host' station' =>
    simp only [step] at hs
    split at hs
    · obtain rfl := Option.some.inj hs
      refine Or.inl (claims_setHost rfl (fun h => ?_) hclaims)
      exact h.imp_right (Or.imp_left List.mem_of_mem_erase)
    · cases hs

/-- A host unlocks only stations that it claims. -/
theorem claims_of_write {host' : String} (hs : s.step a = some s')
    (hw : s.write? a = some (.unlock host' station)) : (s.host host').Claims station := by
  cases a with
  | msg host ok =>
    obtain ⟨rfl, hclaims⟩ := StreamerHost.claims_of_unlock hw
    exact hclaims
  | timer host =>
    obtain ⟨station, hlock⟩ := UpdateLockPc.write_eq hw
    cases hlock
  | destroy host station' =>
    obtain ⟨rfl, rfl⟩ := StationWrite.unlock.inj (Option.some.inj hw)
    simp only [step] at hs
    split at hs
    next hdropped => exact Or.inr (Or.inl hdropped)
    · cases hs
  | _ => cases hw

/-! ## Runs -/

theorem claimed_step (h : s.Claimed) (hok : s.LocksUnclaimed a) (hs : s.step a = some s') :
    s'.Claimed := by
  intro host station hclaims other howner
  obtain hclaims | hlocked := claims_step hs hclaims
  · have hdb := step_db hs
    generalize s'.db = db' at hdb howner
    have hold := h host station hclaims other
    cases hdb with
    | same hw hlocks =>
      rw [hlocks] at howner
      exact hold howner
    | tick n hw => exact hold howner
    | setFailed host' station' hw => exact hold howner
    | lock host' station' hw =>
      by_cases hstation : station = station'
      · subst hstation
        have hmine : host = host' := by
          by_contra hne
          exact (hok host' station hw).2 host hne hclaims
        rw [hmine]
        exact Lease.Table.eq_of_owner_grant howner
      · rw [StationDb.lock, Lease.Table.owner_grant_of_ne hstation] at howner
        exact hold howner
    | unlock host' station' hw =>
      by_cases hstation : station = station'
      · subst hstation
        rw [StationDb.unlock, Lease.Table.owner_release] at howner
        cases howner
      · rw [StationDb.unlock, Lease.Table.owner_release_of_ne hstation] at howner
        exact hold howner
  · exact hlocked other howner

/-- Unlocking what is nobody else's is not wrong. -/
theorem wrong_unlock (h : ∀ other, s.db.locks.owner station = some other → other = host) :
    (s.db.unlock host station).wrong = s.db.wrong := by
  unfold StationDb.unlock
  cases howner : s.db.locks.owner station with
  | none => rfl
  | some other => exact if_pos (h other howner)

theorem shown_step (h : s.Claimed) (hshown : s.db.locks.Shown) (hok : s.LocksUnclaimed a)
    (hs : s.step a = some s') : s'.db.locks.Shown ∧ s'.db.wrong = s.db.wrong := by
  have hdb := step_db hs
  generalize s'.db = db' at hdb
  cases hdb with
  | same hw hlocks hwrong =>
    rw [hlocks]
    exact ⟨hshown, hwrong⟩
  | tick n hw => exact ⟨hshown.tick n, rfl⟩
  | setFailed host station hw => exact ⟨hshown, rfl⟩
  | lock host station hw =>
    exact ⟨hshown.grant (hok host station hw).1 (by omega), rfl⟩
  | unlock host station hw =>
    have hmine := h host station (claims_of_write hs hw)
    exact ⟨hshown.release (Lease.Table.free_of_owner hmine), wrong_unlock hmine⟩

theorem throughout_stationExclusive {now : ℕ} {rows : String → Option (Lease.Row String)}
    {stations : List StationInfo} {failed : List (String × String)} {as : List StreamerAction}
    (h : EachStep step LocksUnclaimed (start now rows stations failed) as) :
    Throughout step StationExclusive (start now rows stations failed) as := by
  refine throughout_of_eachStep
    (I := fun s => s.Claimed ∧ s.db.locks.Shown ∧ s.db.wrong = []) ?_ ?_ ?_ h
  · rintro s a s' ⟨hclaimed, hshown, hwrong⟩ hok hs
    obtain ⟨hshown', hwrong'⟩ := shown_step hclaimed hshown hok hs
    exact ⟨claimed_step hclaimed hok hs, hshown', hwrong'.trans hwrong⟩
  · rintro s ⟨-, hshown, hwrong⟩
    exact ⟨fun station host host' _ _ => hshown.exclusive station host host', hwrong⟩
  · refine ⟨?_, Lease.Table.shown_start now rows, rfl⟩
    rintro host station (hnone | hnone | hnone) <;> cases hnone

/-- `LocksUnclaimed`, tested for these hosts, the only ones that do anything. -/
def locksUnclaimedAmong (hosts : List String) (s : StreamerSystem) (a : StreamerAction) : Bool :=
  a.host.all (· ∈ hosts) && match s.write? a with
    | some (.lock host station) =>
      (s.db.locks.rows station).all (fun row => row.free s.db.locks.now host) &&
        hosts.all fun other => other = host || (station ∉ (s.host other).info &&
          station ∉ (s.host other).dropped && station ∉ (s.host other).msg.claims)
    | _ => true

theorem locksUnclaimed_of_among {hosts : List String} (h : s.Only hosts)
    (hok : locksUnclaimedAmong hosts s a = true) : s.LocksUnclaimed a := by
  intro host station hw
  have hlock := (Bool.and_eq_true_iff.1 hok).2
  rw [hw] at hlock
  obtain ⟨hfree, hothers⟩ := Bool.and_eq_true_iff.1 hlock
  refine ⟨fun row hrow => ?_, fun other hne hclaims => ?_⟩
  · rwa [hrow] at hfree
  · by_cases hmem : other ∈ hosts
    · have hnot := List.all_eq_true.1 hothers other hmem
      simp only [hne, decide_false, Bool.false_or, Bool.and_eq_true, decide_eq_true_eq] at hnot
      obtain hinfo | hdropped | hmsg := hclaims
      · exact hnot.1.1 hinfo
      · exact hnot.1.2 hdropped
      · exact hnot.2 hmsg
    · rw [h other hmem] at hclaims
      simp [StreamerHost.Claims, StreamerPc.claims] at hclaims

theorem eachStep_locksUnclaimed (hosts : List String) {as : List StreamerAction}
    (h : s.Only hosts) (hok : EachStep step (fun s a => locksUnclaimedAmong hosts s a) s as) :
    EachStep step LocksUnclaimed s as :=
  eachStep_of_only h (fun hok => (Bool.and_eq_true_iff.1 hok).1) locksUnclaimed_of_among hok

/-- A host streams a station until the signal is lost.  The end of the `Station` object unlocks it,
another host takes it over, and the first one leaves it alone. -/
theorem throughout_stationExclusive_takeOver :
    let run := .processDB "A" ["s"] :: List.replicate 16 (.msg "A" true) ++
      .signalLost "A" ["u"] :: List.replicate 2 (.msg "A" true) ++
      .destroy "A" "u" :: .processDB "B" ["s"] :: List.replicate 16 (.msg "B" true) ++
      .tick 20 :: .processDB "A" ["s"] :: List.replicate 8 (.msg "A" true)
    let first := start 1 (fun _ => some {}) [{ station := "u", source := "s" }] []
    Throughout step StationExclusive first run ∧ ∃ s, exec step first run = some s ∧
      (s.host "B").Streams "u" ∧ s.db.locks.Active "B" "u" ∧ ¬ (s.host "A").Streams "u" :=
  ⟨throughout_stationExclusive
      (eachStep_locksUnclaimed ["A", "B"] (fun _ _ => rfl) (by decide +kernel)),
    _, rfl, .inl (by decide), ⟨_, rfl, by decide⟩, not_or.2 ⟨by decide, by decide⟩⟩

/-- A host that is late finds its station locked by another one, and the end of its `Station` object
unlocks it. -/
theorem late_unlock : ∃ s,
    exec step (start 1 (fun _ => some {}) [{ station := "u", source := "s" }] [])
      (.processDB "A" ["s"] :: List.replicate 16 (.msg "A" true) ++
        .tick 75 :: .processDB "B" ["s"] :: List.replicate 16 (.msg "B" true) ++
        .processDB "A" ["s"] :: List.replicate 8 (.msg "A" true)) = some s ∧
      (s.host "B").Streams "u" ∧ s.db.locks.Active "B" "u" ∧
      (exec step s [.destroy "A" "u"]).map (fun s => s.db.wrong) = some [("A", "u")] :=
  ⟨_, rfl, .inl (by decide), ⟨_, rfl, by decide⟩, rfl⟩

end StreamerSystem

end Kalinka
