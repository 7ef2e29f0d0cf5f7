import Kalinka.App.Dvb.Streamer.Streamer

/-!
# Stations that go on streaming

A run of `processDB` selects every enabled station whose lock has run out, also one that the host
itself streams; the second `Station` object of it fails, is marked as failed and unlocks the station
when it is destroyed.  `throughout_stable` says in which runs this does not happen: those in which
the selection finds no watched station and nobody else touches one.
-/

namespace Kalinka

open Run Function

/-- What a run of `processDB` leaves alone: a station that `getCurrentInfoFromDB` has found, and
that is in none of the lists that the run still goes through. -/
def StreamerPc.Keeps (station : String) : StreamerPc → Prop
  | .idle | .signalLost .. => False
  | .list _ => True
  | .unlock stations run => station ∉ stations ∧ station ∈ run.current
  | .sources run => station ∈ run.current
  | .get _ stations tmpRes run => station ∉ stations ++ tmpRes ∧ station ∈ run.current
  | .start _ stations failList run => station ∉ stations ++ failList ∧ station ∈ run.current
  | .setFailed stations failList run => station ∉ stations ++ failList ∧ station ∈ run.current
  | .destroy stations run => station ∉ stations ∧ station ∈ run.current

/-- The tables show a station that the host has locked and not marked failed. -/
structure StationDb.Held (db : StationDb) (host station : String) : Prop where
  listed : station ∈ db.stations.map StationInfo.station
  owner : db.locks.owner station = some host
  unmarked : (station, host) ∉ db.failed

namespace StreamerSystem

/-- Every run of `processDB` that has ended left the stations that it watched streamed, locked by
the host and not marked failed. -/
def Stable (s : StreamerSystem) : Prop := ∀ host, (s.host host).lost = []

/-- No station is marked failed when a run begins to watch it, no watched station is selected, and
nobody but the run and the timer of its host writes the lock of one. -/
structure Undisturbed (s : StreamerSystem) (a : StreamerAction) : Prop where
  unmarked : ∀ host sources, a = .processDB host sources → ∀ station ∈ s.watch host,
    (station, host) ∉ s.db.failed
  unselected : ∀ host ok source sources current started, a = .msg host ok →
    (s.host host).msg = .sources ⟨source :: sources, current, started⟩ →
    ∀ station ∈ (s.host host).watched, station ∉ s.db.curStation host source
  others : ∀ host station, s.write? a = some (.lock host station) ∨
      s.write? a = some (.unlock host station) →
    ∀ other, station ∈ (s.host other).watched → host = other
  destroyed : ∀ host station, a = .destroy host station → station ∉ (s.host host).watched

/-- A watched station is as it should be, and the run leaves it alone. -/
structure Watching (s : StreamerSystem) (host station : String) : Prop where
  info : station ∈ (s.host host).info
  held : s.db.Held host station
  keeps : (s.host host).msg.Keeps station

end StreamerSystem

/-! ## The message thread -/

namespace StreamerHost

variable {db db' : StationDb} {h h' : StreamerHost} {host station : String} {ok : Bool}

theorem keeps_fail {pc pc' : StationStartPc} {stations failList : List String} {run : ProcessDB}
    {station' : String}
    (hkeeps : (StreamerPc.start pc (station' :: stations) failList run).Keeps station) :
    (StreamerPc.start pc' stations (failList ++ [station']) run).Keeps station := by
  refine ⟨fun hmem => hkeeps.1 ?_, hkeeps.2⟩
  simp only [List.mem_append, List.mem_cons, List.not_mem_nil, or_false] at hmem ⊢
  tauto

/-- A step of the message thread leaves the watched stations alone, or it is the end of a run that
has found them all. -/
theorem keeps_msgStep (hs : h.msgStep db host ok h.msg = some (db', h'))
    (hkeeps : ∀ station ∈ h.watched, h.msg.Keeps station)
    (hinfo : ∀ station ∈ h.watched, station ∈ h.info)
    (hlist : ∀ station ∈ h.watched, station ∈ db.stationList host)
    (hsel : ∀ source sources current started,
      h.msg = .sources ⟨source :: sources, current, started⟩ →
      ∀ station ∈ h.watched, station ∉ db.curStation host source) :
    (h'.watched = h.watched ∧ h'.lost = h.lost ∧
      ∀ station ∈ h.watched, station ∈ h'.info ∧ h'.msg.Keeps station) ∨
    ∃ run, h' = h.endProcessDB db host run ∧ ∀ station ∈ h.watched, station ∈ run.current := by
  have hmove := msgStep_cases hs
  generalize hmsg : h.msg = pc at hmove hkeeps hsel
  have keep : ∀ {msg : StreamerPc}, (∀ station ∈ h.watched, msg.Keeps station) →
      h.watched = h.watched ∧ h.lost = h.lost ∧
        ∀ station ∈ h.watched, station ∈ h.info ∧ msg.Keeps station :=
    fun hmsg => ⟨rfl, rfl, fun station hmem => ⟨hinfo station hmem, hmsg station hmem⟩⟩
  cases hmove with
  | list =>
    refine .inl (keep fun station hmem => ⟨fun hnot => ?_, ?_⟩)
    · exact of_decide_eq_true (List.mem_filter.1 hnot).2 (hinfo station hmem)
    · exact List.mem_filter.2 ⟨hlist station hmem, decide_eq_true (hinfo station hmem)⟩
  | finish => exact .inr ⟨_, rfl, hkeeps⟩
  | source source sources current started =>
    refine .inl (keep fun station hmem => ⟨?_, hkeeps station hmem⟩)
    rw [List.append_nil]
    exact hsel source sources current started rfl station hmem
  | getLock =>
    refine .inl (keep fun station hmem => ⟨fun hin => ?_, (hkeeps station hmem).2⟩)
    apply (hkeeps station hmem).1
    simp only [List.mem_append, List.mem_cons, List.not_mem_nil, or_false] at hin ⊢
    tauto
  | got | started =>
    refine .inl (keep fun station hmem => ?_)
    simpa [StreamerPc.Keeps] using hkeeps station hmem
  | unlocked | destroyed => exact .inl (keep fun station hmem => (hkeeps station hmem).2)
  -- the station that is done with leaves the list
  | unlock | getNone | setRoute | setFailed | destroy =>
    refine .inl (keep fun station hmem => ⟨fun hin => ?_, (hkeeps station hmem).2⟩)
    exact (hkeeps station hmem).1 (List.mem_cons_of_mem _ hin)
  | fail => exact .inl (keep fun station hmem => keeps_fail (hkeeps station hmem))
  | signalled => exact .inl ⟨rfl, rfl, fun station hmem => (hkeeps station hmem).elim⟩
  | getTest | setChannel | inUseLock | inUseTest | failed | signalLost => exact .inl (keep hkeeps)

/-- The end of a run that finds its watched stations as they should be. -/
theorem endProcessDB_lost {run : ProcessDB}
    (hcurrent : ∀ station ∈ h.watched, station ∈ run.current)
    (hinfo : ∀ station ∈ h.watched, station ∈ h.info)
    (howner : ∀ station ∈ h.watched, db.locks.owner station = some host)
    (hunmarked : ∀ station ∈ h.watched, (station, host) ∉ db.failed) :
    (h.endProcessDB db host run).lost = h.lost := by
  have hnone : db.lostStations host h.watched (h.endProcessDB db host run).info = [] := by
    apply List.filter_eq_nil_iff.2
    intro station hmem
    have hkept : station ∈ (h.endProcessDB db host run).info := by
      refine List.mem_append_left _ (List.mem_filter.2 ⟨hinfo station hmem, ?_⟩)
      exact decide_eq_true (List.mem_append_left _ (hcurrent station hmem))
    simp [hkept, howner station hmem, hunmarked station hmem]
  show h.lost ++ db.lostStations host h.watched (h.endProcessDB db host run).info = h.lost
  rw [hnone, List.append_nil]

end StreamerHost

namespace StreamerSystem

variable {s s' : StreamerSystem} {a : StreamerAction} {host station : String} {ok : Bool}

/-! ## The tables -/

/-- An undisturbed step leaves the tables of a watched station as they should be. -/
theorem Watching.held_step (h : s.Watching host station) (hmem : station ∈ (s.host host).watched)
    (hok : s.Undisturbed a) (hs : s.step a = some s') : s'.db.Held host station := by
  have hdb := step_db hs
  obtain ⟨hlisted, howner, hunmarked⟩ := h.held
  generalize s'.db = db' at hdb
  cases hdb with
  | same hw hlocks hwrong hfailed hstations =>
    refine ⟨?_, ?_, fun hin => hunmarked (hfailed hin)⟩
    · rwa [hstations]
    · rwa [hlocks]
  | tick n hw => exact ⟨hlisted, howner, hunmarked⟩
  | lock host' station' hw =>
    refine ⟨hlisted, ?_, hunmarked⟩
    by_cases heq : station = station'
    · subst heq
      obtain rfl := hok.others host' station (Or.inl hw) host hmem
      exact Lease.Table.owner_grant howner
    · exact (Lease.Table.owner_grant_of_ne heq).trans howner
  | unlock host' station' hw =>
    refine ⟨hlisted, ?_, hunmarked⟩
    by_cases heq : station = station'
    · subst heq
      obtain rfl := hok.others host' station (Or.inr hw) host hmem
      -- the run of the host itself unlocks other stations only
      exfalso
      cases a with
      | msg host ok =>
        obtain ⟨rfl, stations, run, hmsg | hmsg⟩ := StreamerPc.write_eq_unlock hw <;>
        · have hkeeps := h.keeps
          rw [hmsg] at hkeeps
          exact hkeeps.1 List.mem_cons_self
      | timer host =>
        obtain ⟨station, hlock⟩ := UpdateLockPc.write_eq hw
        cases hlock
      | destroy host station' =>
        obtain ⟨rfl, rfl⟩ := StationWrite.unlock.inj (Option.some.inj hw)
        exact hok.destroyed host station' rfl hmem
      | _ => cases hw
    · exact (Lease.Table.owner_release_of_ne heq).trans howner
  | setFailed host' station' hw =>
    refine ⟨hlisted, howner, fun hin => ?_⟩
    obtain heq | hin := List.mem_cons.1 hin
    · obtain ⟨rfl, rfl⟩ := Prod.mk.inj heq
      cases a with
      | msg host' ok =>
        obtain ⟨rfl, ⟨stations, failList, run, hmsg⟩ | ⟨stations, del, hmsg⟩⟩ :=
          StreamerPc.write_eq_setFailed hw
        · have hkeeps := h.keeps
          rw [hmsg] at hkeeps
          exact hkeeps.1 List.mem_cons_self
        · have hkeeps := h.keeps
          rw [hmsg] at hkeeps
          exact hkeeps
      | timer host' =>
        obtain ⟨station, hlock⟩ := UpdateLockPc.write_eq hw
        cases hlock
      | _ => cases hw
    · exact hunmarked hin

/-! ## Runs -/

/-- Every watched station is as it should be. -/
def AllWatching (s : StreamerSystem) : Prop :=
  ∀ host, ∀ station ∈ (s.host host).watched, s.Watching host station

/-- The run of an idle host watches nothing. -/
theorem AllWatching.not_idle (h : s.AllWatching) (hmem : station ∈ (s.host host).watched) :
    (s.host host).msg ≠ .idle := by
  intro hidle
  have hkeeps := (h host station hmem).keeps
  rw [hidle] at hkeeps
  exact hkeeps

/-- A step of one host. -/
theorem AllWatching.setHost {t : StreamerSystem} {h' : StreamerHost} (h : s.AllWatching)
    (hstable : s.Stable) (ht : t.host = s.host)
    (hheld : ∀ other, ∀ station ∈ (s.host other).watched, t.db.Held other station)
    (hlost : h'.lost = (s.host host).lost)
    (hwatched : ∀ station ∈ h'.watched,
      t.db.Held host station ∧ station ∈ h'.info ∧ h'.msg.Keeps station) :
    (t.setHost host h').AllWatching ∧ (t.setHost host h').Stable := by
  constructor
  · intro other station hmem
    by_cases heq : other = host
    · subst heq
      have hself : (t.setHost other h').host other = h' := update_self ..
      rw [hself] at hmem
      obtain ⟨hheld, hinfo, hkeeps⟩ := hwatched station hmem
      exact ⟨by rwa [hself], hheld, by rwa [hself]⟩
    · have hother : (t.setHost host h').host other = s.host other := by
        rw [setHost_host, update_of_ne heq, ht]
      rw [hother] at hmem
      have hold := h other station hmem
      refine ⟨?_, hheld other station hmem, ?_⟩
      · rw [hother]
        exact hold.info
      · rw [hother]
        exact hold.keeps
  · intro other
    by_cases heq : other = host
    · subst heq
      exact (congrArg StreamerHost.lost (update_self ..)).trans (hlost.trans (hstable other))
    · rw [setHost_host, update_of_ne heq, ht]
      exact hstable other

/-- A run that begins watches stations that are as they should be. -/
theorem held_of_mem_watch (hunmarked : (station, host) ∉ s.db.failed)
    (hmem : station ∈ s.watch host) :
    s.db.Held host station ∧ station ∈ (s.host host).info := by
  obtain ⟨hinfo, htest⟩ := List.mem_filter.1 hmem
  obtain ⟨henabled, howner⟩ := Bool.and_eq_true_iff.1 htest
  obtain ⟨info, hlisted, hstation⟩ := List.any_eq_true.1 henabled
  refine ⟨⟨?_, of_decide_eq_true howner, hunmarked⟩, hinfo⟩
  exact List.mem_map.2 ⟨info, hlisted, of_decide_eq_true (Bool.and_eq_true_iff.1 hstation).1⟩

theorem allWatching_step (h : s.AllWatching) (hstable : s.Stable) (hok : s.Undisturbed a)
    (hs : s.step a = some s') : s'.AllWatching ∧ s'.Stable := by
  have hheld : ∀ other, ∀ station ∈ (s.host other).watched, s'.db.Held other station :=
    fun other station hmem => (h other station hmem).held_step hmem hok hs
  have hsame : s'.host = s.host → s'.AllWatching ∧ s'.Stable := by
    intro heq
    refine ⟨fun other station hmem => ?_, fun other => by rw [heq]; exact hstable other⟩
    rw [heq] at hmem
    have hold := h other station hmem
    exact ⟨by rw [heq]; exact hold.info, hheld other station hmem, by rw [heq]; exact hold.keeps⟩
  cases a with
  | tick seconds | edit info | clearFailed host =>
    obtain rfl := Option.some.inj hs
    exact hsame rfl
  | processDB host sources =>
    simp only [step] at hs
    split at hs
    · obtain rfl := Option.some.inj hs
      refine h.setHost hstable rfl hheld rfl fun station hmem => ?_
      have hunmarked := hok.unmarked host sources rfl station hmem
      obtain ⟨hnew, hinfo⟩ := held_of_mem_watch hunmarked hmem
      exact ⟨hnew, hinfo, trivial⟩
    · cases hs
  | signalLost host stations | clear host =>
    simp only [step] at hs
    split at hs
    next hidle =>
      obtain rfl := Option.some.inj hs
      exact h.setHost hstable rfl hheld rfl fun station hmem =>
        absurd hidle (h.not_idle hmem)
    · cases hs
  | updateLock host | destroy host station =>
    simp only [step] at hs
    split at hs
    · obtain rfl := Option.some.inj hs
      refine h.setHost hstable rfl hheld rfl fun station hmem => ?_
      have hold := h host station hmem
      exact ⟨hheld host station hmem, hold.info, hold.keeps⟩
    · cases hs
  | msg host ok =>
    obtain ⟨db, h', hmsg, rfl⟩ := step_msg hs
    have hlist : ∀ station ∈ (s.host host).watched, station ∈ s.db.stationList host := by
      intro station hmem
      have hold := (h host station hmem).held
      exact List.mem_filter.2 ⟨hold.listed, decide_eq_true hold.owner⟩
    have hsel := fun source sources current started =>
      hok.unselected host ok source sources current started rfl
    obtain ⟨hwatched, hlost, hkept⟩ | ⟨run, rfl, hcurrent⟩ := StreamerHost.keeps_msgStep hmsg
      (fun station hmem => (h host station hmem).keeps)
      (fun station hmem => (h host station hmem).info) hlist hsel
    · apply h.setHost (t := { s with db }) hstable rfl hheld hlost
      intro station hmem
      rw [hwatched] at hmem
      exact ⟨hheld host station hmem, hkept station hmem⟩
    · refine h.setHost (t := { s with db }) hstable rfl hheld ?_ fun station hmem =>
        absurd hmem List.not_mem_nil
      exact StreamerHost.endProcessDB_lost hcurrent (fun station hmem => (h host station hmem).info)
        (fun station hmem => (h host station hmem).held.owner)
        (fun station hmem => (h host station hmem).held.unmarked)
  | timer host =>
    obtain ⟨db, h', htimer, rfl⟩ := step_timer hs
    obtain ⟨timer, rfl⟩ := StreamerHost.timerStep_eq htimer
    refine h.setHost (t := { s with db }) hstable rfl hheld rfl fun station hmem => ?_
    have hold := h host station hmem
    exact ⟨hheld host station hmem, hold.info, hold.keeps⟩

theorem throughout_stable {now : ℕ} {rows : String → Option (Lease.Row String)}
    {stations : List StationInfo} {failed : List (String × String)} {as : List StreamerAction}
    (h : EachStep step Undisturbed (start now rows stations failed) as) :
    Throughout step Stable (start now rows stations failed) as :=
  throughout_of_eachStep (I := fun s => s.AllWatching ∧ s.Stable)
    (fun hI hok hs => allWatching_step hI.1 hI.2 hok hs) And.right
    ⟨fun _ _ hmem => (List.not_mem_nil hmem).elim, fun _ => rfl⟩ h

/-- The source whose stations `getCurrentInfoFromDB` selects next. -/
def nextSource : StreamerPc → Option String
  | .sources ⟨source :: _, _, _⟩ => some source
  | _ => none

/-- The host and the station of a write to the locks. -/
def lockWrite : StationWrite → Option (String × String)
  | .lock host station => some (host, station)
  | .unlock host station => some (host, station)
  | .setFailed _ _ => none

/-- What `Undisturbed` says of the host that takes the step. -/
def ownUndisturbed (s : StreamerSystem) : StreamerAction → Bool
  | .processDB host _ => (s.watch host).all fun station =>
    s.db.failed.all fun mark => mark ≠ (station, host)
  | .msg host _ => (nextSource (s.host host).msg).all fun source =>
    (s.host host).watched.all fun station => station ∉ s.db.curStation host source
  | .destroy host station => station ∉ (s.host host).watched
  | _ => true

/-- `Undisturbed`, tested for these hosts, the only ones that do anything. -/
def undisturbedAmong (hosts : List String) (s : StreamerSystem) (a : StreamerAction) : Bool :=
  a.host.all (· ∈ hosts) && s.ownUndisturbed a && ((s.write? a).bind lockWrite).all fun write =>
    hosts.all fun other => write.1 = other || write.2 ∉ (s.host other).watched

theorem undisturbed_of_among {hosts : List String} (h : s.Only hosts)
    (hok : undisturbedAmong hosts s a = true) : s.Undisturbed a := by
  simp only [undisturbedAmong, Bool.and_eq_true] at hok
  obtain ⟨⟨-, hown⟩, hwrite⟩ := hok
  refine ⟨?_, ?_, fun host station hw other hmem => ?_, ?_⟩
  · rintro host sources rfl station hmem hmark
    have hmarks := List.all_eq_true.1 hown station hmem
    exact of_decide_eq_true (List.all_eq_true.1 hmarks _ hmark) rfl
  · rintro host ok source sources current started rfl hmsg station hmem
    simp only [ownUndisturbed, hmsg, nextSource, Option.all_some] at hown
    exact of_decide_eq_true (List.all_eq_true.1 hown station hmem)
  · have hall : hosts.all fun other => host = other || station ∉ (s.host other).watched := by
      obtain hw | hw := hw <;> simpa only [hw, Option.bind_some, lockWrite, Option.all_some] using
        hwrite
    by_cases hother : other ∈ hosts
    · simpa [hmem] using List.all_eq_true.1 hall other hother
    · rw [h other hother] at hmem
      cases hmem
  · rintro host station rfl
    exact of_decide_eq_true hown

theorem eachStep_undisturbed (hosts : List String) {as : List StreamerAction} (h : s.Only hosts)
    (hok : EachStep step (fun s a => undisturbedAmong hosts s a) s as) :
    EachStep step Undisturbed s as := by
  refine eachStep_of_only h (fun hok => ?_) undisturbed_of_among hok
  simp only [undisturbedAmong, Bool.and_eq_true] at hok
  exact hok.1.1

/-- A station is streamed and its lock refreshed.  The next run watches it, while another host looks
for stations of the same source, and leaves it as it is. -/
theorem throughout_stable_watched :
    let first := start 1 (fun _ => some {}) [{ station := "u", source := "s" }] []
    let begun := .processDB "A" ["s"] :: List.replicate 16 (.msg "A" true) ++
      .tick 20 :: .updateLock "A" :: List.replicate 4 (.timer "A") ++
      [.tick 60, .processDB "B" ["s"], .processDB "A" ["s"]]
    let rest := (List.replicate 8 [.msg "A" true, .msg "B" true]).flatten
    Throughout step Stable first (begun ++ rest) ∧
      (∃ s, exec step first begun = some s ∧ (s.host "A").watched = ["u"]) ∧
      ∃ s, exec step first (begun ++ rest) = some s ∧ (s.host "A").msg = .idle ∧
        (s.host "A").info = ["u"] ∧ s.db.locks.owner "u" = some "A" ∧ s.db.failed = [] :=
  ⟨throughout_stable
      (eachStep_undisturbed ["A", "B"] (fun _ _ => rfl) (by decide +kernel)),
    ⟨_, rfl, by decide +kernel⟩, _, rfl, by decide +kernel, by decide +kernel, by decide +kernel,
    by decide +kernel⟩

/-- The lock of a streamed station has run out before the next run: the station is left streaming,
but marked failed and unlocked. -/
theorem own_station_failed : ∃ s,
    exec step (start 1 (fun _ => some {}) [{ station := "u", source := "s" }] [])
      (.processDB "A" ["s"] :: List.replicate 16 (.msg "A" true) ++
        .tick 75 :: .processDB "A" ["s"] :: List.replicate 14 (.msg "A" false)) = some s ∧
      (s.host "A").info = ["u"] ∧ s.db.failed = [("u", "A")] ∧ s.db.locks.owner "u" = none ∧
      (s.host "A").lost = ["u"] :=
  ⟨_, rfl, rfl, rfl, rfl, rfl⟩

end StreamerSystem

end Kalinka
