import Mathlib.Data.Int.Notation
import Kalinka.Lib.Ledger
import Kalinka.Lib.Run

/-!
# Resources of a station

A `Station` tunes its channel with DVBSTART and locks its route with NETSTART, and its destructor
gives back what the members `m_channel` and `m_route_uuid` name.  `setRoute` sets its member before
it reads the rest of the answer; `setChannel` looks up the device and parses the channel number
first, and when one of these throws, the destructor knows nothing of the channel.

`settled_iff` says exactly which stations give back all they have started.
-/

namespace Kalinka.Stream

open Run Ledger

/-- What a station starts. -/
inductive Resource
  | channel (uuid : String)
  | route (uuid : String)
  deriving DecidableEq, Repr

/-- The answer to DVBSTART. -/
structure DvbAnswer where
  /-- STATUS is OK -/
  ok : Bool
  /-- the device that is found for RESOURCE -/
  dev : Option String
  /-- TVCHANNELNO, if it is a number -/
  no : Option ℕ
  deriving DecidableEq, Repr

/-- The answer to NETSTART. -/
structure NetAnswer where
  /-- STATUS is OK -/
  ok : Bool
  /-- NETPROTO is UDP -/
  udp : Bool
  host : String
  /-- NETPORT, if it is a number -/
  port : Option ℤ
  deriving DecidableEq, Repr

structure Station where
  mRoute : String × ℤ := ("", 0)
  mChannel : String := ""
  mDev : Option String := none
  mRouteUuid : String := ""
  mNo : ℕ := 0
  /-- the object has been destroyed -/
  gone : Bool := false
  /-- the starts that were answered OK and the stops that were sent, the last one first -/
  log : List (Entry Resource) := []
  deriving DecidableEq, Repr

namespace Station

/-- `setChannel`, and whether it returns; the last flag is the result of `setInUse(true)`. -/
def setChannel (s : Station) (channel : String) (answer : DvbAnswer) (locked : Bool) :
    Station × Bool :=
  if channel = "" ∨ answer.ok = false then (s, false)
  else
    let s := { s with log := .start (.channel channel) :: s.log }
    match answer.dev with
    | none => (s, false)
    | some dev =>
      match answer.no with
      | none => ({ s with mDev := some dev }, false)
      | some no => ({ s with mDev := some dev, mNo := no, mChannel := channel }, locked)

/-- `setRoute`, and whether it returns. -/
def setRoute (s : Station) (route : String) (answer : NetAnswer) : Station × Bool :=
  if route = "" ∨ answer.ok = false then (s, false)
  else
    let s := { s with log := .start (.route route) :: s.log }
    if s.mRouteUuid ≠ "" then (s, false)
    else
      let s := { s with mRouteUuid := route }
      if answer.udp = false then (s, false)
      else
        match answer.port with
        | none => (s, false)
        | some port => ({ s with mRoute := (answer.host, port) }, true)

/-- `unsetChannel`; the members are cleared also when DVBSTOP cannot be sent. -/
def unsetChannel (s : Station) (sent : Bool) : Station :=
  if s.mChannel = "" then s
  else
    { s with
      log := if sent then .stop (.channel s.mChannel) :: s.log else s.log
      mChannel := ""
      mDev := none }

/-- `unsetRoute`; the member is cleared also when NETSTOP cannot be sent. -/
def unsetRoute (s : Station) (sent : Bool) : Station :=
  if s.mRouteUuid = "" then s
  else
    { s with
      log := if sent then .stop (.route s.mRouteUuid) :: s.log else s.log
      mRouteUuid := "" }

/-- `freeResources` without the lock of the station. -/
def freeResources (s : Station) (dvbStop netStop : Bool) : Station :=
  (s.unsetChannel dvbStop).unsetRoute netStop

end Station

inductive StationAction
  | setChannel (channel : String) (answer : DvbAnswer) (locked : Bool)
  | setRoute (route : String) (answer : NetAnswer)
  /-- `startStream` and `stopStream` hand the station to the plugin, or throw before -/
  | stream
  /-- the destructor; the flags say which of its messages can be sent -/
  | destroy (dvbStop netStop : Bool)
  deriving DecidableEq, Repr

namespace Station

def step (s : Station) (a : StationAction) : Option Station :=
  if s.gone then none
  else
    match a with
    | .setChannel channel answer locked => some (s.setChannel channel answer locked).1
    | .setRoute route answer => some (s.setRoute route answer).1
    | .stream => some s
    | .destroy dvbStop netStop => some { s.freeResources dvbStop netStop with gone := true }

/-- The channel that the station knows of. -/
def heldChannel (s : Station) : List Resource :=
  if s.mChannel = "" then [] else [.channel s.mChannel]

/-- The route that the station knows of. -/
def heldRoute (s : Station) : List Resource :=
  if s.mRouteUuid = "" then [] else [.route s.mRouteUuid]

def held (s : Station) : List Resource := s.heldChannel ++ s.heldRoute

/-- The station knows of all it has started. -/
def Keeps (s : Station) : Prop := Balanced s.log s.held

/-- What the station knows of has been started, and a destroyed one knows of nothing. -/
structure Inv (s : Station) : Prop where
  covers : Covers s.log s.held
  gone : s.gone = true → s.held = []

/-- A channel is started when none is set and gets to its member, a route is started when none is
set, and what is set when the station is destroyed is given back. -/
def Ok (s : Station) : StationAction → Prop
  | .setChannel channel answer _ => channel ≠ "" → answer.ok = true →
      s.mChannel = "" ∧ answer.dev ≠ none ∧ answer.no ≠ none
  | .setRoute route answer => route ≠ "" → answer.ok = true → s.mRouteUuid = ""
  | .stream => True
  | .destroy dvbStop netStop =>
      (s.mChannel ≠ "" → dvbStop = true) ∧ (s.mRouteUuid ≠ "" → netStop = true)

variable {s s' : Station} {a : StationAction} {channel route : String} {locked sent : Bool}
variable {dvb : DvbAnswer} {net : NetAnswer} {acts : List StationAction}

/-! ## The calls -/

theorem held_of_mChannel_eq (h : s.mChannel = "") : s.held = s.heldRoute := by
  rw [held, heldChannel, if_pos h, List.nil_append]

theorem held_of_mChannel_ne (h : s.mChannel ≠ "") :
    s.held = .channel s.mChannel :: s.heldRoute := by
  rw [held, heldChannel, if_neg h, List.singleton_append]

theorem held_of_mRouteUuid_eq (h : s.mRouteUuid = "") : s.held = s.heldChannel := by
  rw [held, heldRoute, if_pos h, List.append_nil]

theorem held_perm_of_mRouteUuid_ne (h : s.mRouteUuid ≠ "") :
    s.held.Perm (.route s.mRouteUuid :: s.heldChannel) := by
  rw [held, heldRoute, if_neg h]
  exact List.perm_append_singleton _ _

/-- The route alone is covered, too. -/
theorem covers_heldRoute (h : Covers s.log s.held) : Covers s.log s.heldRoute := by
  by_cases hchannel : s.mChannel = ""
  · rwa [held_of_mChannel_eq hchannel] at h
  · rw [held_of_mChannel_ne hchannel] at h
    exact h.of_cons

/-- Without the channel the log is balanced only if there was none. -/
theorem balanced_heldRoute_iff (h : Covers s.log s.held) :
    Balanced s.log s.heldRoute ↔ s.Keeps ∧ s.mChannel = "" := by
  by_cases hchannel : s.mChannel = ""
  · rw [Keeps, held_of_mChannel_eq hchannel]
    exact (and_iff_left hchannel).symm
  · rw [held_of_mChannel_ne hchannel] at h
    exact iff_of_false (not_balanced_of_cons h) fun hand => hchannel hand.2

theorem setChannel_covers (h : Covers s.log s.held) :
    Covers (s.setChannel channel dvb locked).1.log (s.setChannel channel dvb locked).1.held := by
  unfold setChannel
  split_ifs with hsend
  · exact h
  · cases dvb.dev with
    | none => exact h.start
    | some dev =>
      cases dvb.no with
      | none => exact h.start
      | some no =>
        have hne : channel ≠ "" := fun heq => hsend (.inl heq)
        rw [held_of_mChannel_ne hne]
        exact covers_start_iff.2 (covers_heldRoute h)

theorem setChannel_keeps_iff (h : Covers s.log s.held) :
    (s.setChannel channel dvb locked).1.Keeps ↔
      s.Keeps ∧ Ok s (.setChannel channel dvb locked) := by
  unfold setChannel
  split_ifs with hsend
  · refine (and_iff_left fun hne hok => ?_).symm
    obtain heq | hfalse := hsend
    · exact absurd heq hne
    · cases hok.symm.trans hfalse
  · obtain ⟨hne, hok⟩ := not_or.1 hsend
    have hsent : Ok s (.setChannel channel dvb locked) ↔
        s.mChannel = "" ∧ dvb.dev ≠ none ∧ dvb.no ≠ none :=
      ⟨fun hok' => hok' hne (by simpa using hok), fun h' _ _ => h'⟩
    rw [hsent]
    cases hdev : dvb.dev with
    | none => exact iff_of_false (not_balanced_start h) fun hand => hand.2.2.1 rfl
    | some dev =>
      cases hno : dvb.no with
      | none => exact iff_of_false (not_balanced_start h) fun hand => hand.2.2.2 rfl
      | some no =>
        rw [Keeps, held_of_mChannel_ne hne]
        apply (balanced_start_iff.trans (balanced_heldRoute_iff h)).trans
        simp

/-- With the route set, only what the log and the member say matters. -/
theorem setRoute_of_mRouteUuid_eq (hsend : ¬(route = "" ∨ net.ok = false))
    (hroute : s.mRouteUuid = "") :
    (s.setRoute route net).1.log = .start (.route route) :: s.log ∧
      (s.setRoute route net).1.held.Perm (.route route :: s.held) := by
  have hne : route ≠ "" := (not_or.1 hsend).1
  have hperm : ∀ m, ({ s with
      log := .start (.route route) :: s.log, mRouteUuid := route, mRoute := m } : Station).held.Perm
        (.route route :: s.held) := by
    intro m
    rw [held_of_mRouteUuid_eq hroute]
    exact held_perm_of_mRouteUuid_ne hne
  unfold setRoute
  rw [if_neg hsend]
  dsimp only
  rw [if_neg (not_not.2 hroute)]
  split
  · exact ⟨rfl, hperm s.mRoute⟩
  · cases net.port with
    | none => exact ⟨rfl, hperm s.mRoute⟩
    | some port => exact ⟨rfl, hperm (net.host, port)⟩

theorem setRoute_of_mRouteUuid_ne (hsend : ¬(route = "" ∨ net.ok = false))
    (hroute : s.mRouteUuid ≠ "") :
    (s.setRoute route net).1 = { s with log := .start (.route route) :: s.log } := by
  unfold setRoute
  rw [if_neg hsend]
  dsimp only
  rw [if_pos hroute]

theorem setRoute_covers (h : Covers s.log s.held) :
    Covers (s.setRoute route net).1.log (s.setRoute route net).1.held := by
  by_cases hsend : route = "" ∨ net.ok = false
  · rw [setRoute, if_pos hsend]
    exact h
  · by_cases hroute : s.mRouteUuid = ""
    · obtain ⟨hlog, hperm⟩ := setRoute_of_mRouteUuid_eq hsend hroute
      rw [hlog]
      exact (covers_perm hperm).2 (covers_start_iff.2 h)
    · rw [setRoute_of_mRouteUuid_ne hsend hroute]
      exact h.start

theorem setRoute_keeps_iff (h : Covers s.log s.held) :
    (s.setRoute route net).1.Keeps ↔ s.Keeps ∧ Ok s (.setRoute route net) := by
  by_cases hsend : route = "" ∨ net.ok = false
  · rw [setRoute, if_pos hsend]
    refine (and_iff_left fun hne hok => ?_).symm
    obtain heq | hfalse := hsend
    · exact absurd heq hne
    · cases hok.symm.trans hfalse
  · obtain ⟨hne, hok⟩ := not_or.1 hsend
    by_cases hroute : s.mRouteUuid = ""
    · obtain ⟨hlog, hperm⟩ := setRoute_of_mRouteUuid_eq hsend hroute
      rw [Keeps, hlog, balanced_perm hperm, balanced_start_iff]
      exact (and_iff_left fun _ _ => hroute).symm
    · rw [setRoute_of_mRouteUuid_ne hsend hroute]
      refine iff_of_false (not_balanced_start h) fun hand => hroute ?_
      exact hand.2 hne (by simpa using hok)

theorem unsetChannel_covers (h : Covers s.log s.held) :
    Covers (s.unsetChannel sent).log (s.unsetChannel sent).held := by
  unfold unsetChannel
  split_ifs with hchannel hsent
  · exact h
  · rw [held_of_mChannel_ne hchannel] at h
    exact covers_stop_iff.2 h
  · rw [held_of_mChannel_ne hchannel] at h
    exact h.of_cons

theorem unsetChannel_keeps_iff (h : Covers s.log s.held) :
    (s.unsetChannel sent).Keeps ↔ s.Keeps ∧ (s.mChannel ≠ "" → sent = true) := by
  unfold unsetChannel
  split_ifs with hchannel hsent
  · exact (and_iff_left fun hne => absurd hchannel hne).symm
  · refine Iff.trans ?_ (and_iff_left fun _ => hsent).symm
    rw [Keeps, Keeps, held_of_mChannel_ne hchannel]
    exact balanced_stop_iff
  · rw [held_of_mChannel_ne hchannel] at h
    exact iff_of_false (not_balanced_of_cons h) fun hand => hsent (hand.2 hchannel)

theorem unsetRoute_covers (h : Covers s.log s.held) :
    Covers (s.unsetRoute sent).log (s.unsetRoute sent).held := by
  unfold unsetRoute
  split_ifs with hroute hsent
  · exact h
  · rw [covers_perm (held_perm_of_mRouteUuid_ne hroute)] at h
    rw [held_of_mRouteUuid_eq rfl]
    exact covers_stop_iff.2 h
  · rw [covers_perm (held_perm_of_mRouteUuid_ne hroute)] at h
    rw [held_of_mRouteUuid_eq rfl]
    exact h.of_cons

theorem unsetRoute_keeps_iff (h : Covers s.log s.held) :
    (s.unsetRoute sent).Keeps ↔ s.Keeps ∧ (s.mRouteUuid ≠ "" → sent = true) := by
  unfold unsetRoute
  split_ifs with hroute hsent
  · exact (and_iff_left fun hne => absurd hroute hne).symm
  · refine Iff.trans ?_ (and_iff_left fun _ => hsent).symm
    rw [Keeps, Keeps, held_of_mRouteUuid_eq rfl,
      balanced_perm (held_perm_of_mRouteUuid_ne hroute)]
    exact balanced_stop_iff
  · rw [covers_perm (held_perm_of_mRouteUuid_ne hroute)] at h
    rw [Keeps, held_of_mRouteUuid_eq rfl]
    exact iff_of_false (not_balanced_of_cons h) fun hand => hsent (hand.2 hroute)

theorem mRouteUuid_unsetChannel : (s.unsetChannel sent).mRouteUuid = s.mRouteUuid := by
  unfold unsetChannel
  split <;> rfl

theorem held_freeResources {dvbStop netStop : Bool} :
    (s.freeResources dvbStop netStop).held = [] := by
  have hchannel : (s.unsetChannel dvbStop).mChannel = "" := by
    by_cases h : s.mChannel = ""
    · rwa [unsetChannel, if_pos h]
    · rw [unsetChannel, if_neg h]
  rw [freeResources]
  by_cases hroute : (s.unsetChannel dvbStop).mRouteUuid = ""
  · rw [unsetRoute, if_pos hroute, held_of_mRouteUuid_eq hroute, heldChannel, if_pos hchannel]
  · rw [unsetRoute, if_neg hroute, held_of_mRouteUuid_eq rfl, heldChannel, if_pos hchannel]

theorem gone_setChannel : (s.setChannel channel dvb locked).1.gone = s.gone := by
  unfold setChannel
  split
  · rfl
  · cases dvb.dev with
    | none => rfl
    | some dev => cases dvb.no <;> rfl

theorem gone_setRoute : (s.setRoute route net).1.gone = s.gone := by
  unfold setRoute
  split
  · rfl
  · dsimp only
    split
    · rfl
    · split
      · rfl
      · cases net.port <;> rfl

/-! ## The life of a station -/

theorem step_eq_some_iff : s.step a = some s' ↔ s.gone = false ∧
    match a with
    | .setChannel channel answer locked => s' = (s.setChannel channel answer locked).1
    | .setRoute route answer => s' = (s.setRoute route answer).1
    | .stream => s' = s
    | .destroy dvbStop netStop => s' = { s.freeResources dvbStop netStop with gone := true } := by
  unfold step
  cases s.gone with
  | true => simp
  | false => cases a <;> simp [eq_comm]

theorem inv_step (hI : s.Inv) (h : s.step a = some s') : s'.Inv := by
  obtain ⟨halive, h⟩ := step_eq_some_iff.1 h
  cases a with
  | setChannel channel answer locked =>
    subst h
    refine ⟨setChannel_covers hI.covers, fun hgone => ?_⟩
    cases halive.symm.trans (gone_setChannel.symm.trans hgone)
  | setRoute route answer =>
    subst h
    refine ⟨setRoute_covers hI.covers, fun hgone => ?_⟩
    cases halive.symm.trans (gone_setRoute.symm.trans hgone)
  | stream => exact h ▸ hI
  | destroy dvbStop netStop =>
    subst h
    exact ⟨unsetRoute_covers (unsetChannel_covers hI.covers), fun _ => held_freeResources⟩

/-- A step keeps track of what has been started exactly if it meets `Ok`, and none finds again what
has been lost. -/
theorem keeps_step_iff (hI : s.Inv) (h : s.step a = some s') : s'.Keeps ↔ s.Keeps ∧ Ok s a := by
  obtain ⟨-, h⟩ := step_eq_some_iff.1 h
  cases a with
  | setChannel channel answer locked => exact h ▸ setChannel_keeps_iff hI.covers
  | setRoute route answer => exact h ▸ setRoute_keeps_iff hI.covers
  | stream => exact h ▸ (and_iff_left trivial).symm
  | destroy dvbStop netStop =>
    subst h
    apply (unsetRoute_keeps_iff (unsetChannel_covers hI.covers)).trans
    rw [unsetChannel_keeps_iff hI.covers, mRouteUuid_unsetChannel, and_assoc]
    exact Iff.rfl

theorem inv_start : Inv {} := ⟨balanced_nil.covers, fun _ => rfl⟩

/-- When the station is gone, each start is matched by exactly one stop if and only if all of its
steps have met `Ok`. -/
theorem settled_iff (h : exec step {} acts = some s) (hgone : s.gone = true) :
    Settled s.log ↔ EachStep step Ok {} acts := by
  have hI : s.Inv := exec_induction inv_step inv_start h
  have hrun := exec_iff_eachStep (I := Inv) inv_step keeps_step_iff inv_start h
  rw [Keeps, hI.gone hgone, balanced_nil_iff] at hrun
  exact hrun.trans (and_iff_right balanced_nil)

/-- A station that is tuned, gets its route, is streamed and destroyed. -/
def streamed : List StationAction :=
  [.setChannel "c" ⟨true, some "dev", some 1⟩ true,
    .setRoute "r" ⟨true, true, "239.0.0.1", some 1234⟩, .stream, .destroy true true]

theorem streamed_settled :
    ∃ s, exec step {} streamed = some s ∧ s.gone = true ∧ Settled s.log := by
  have hrun : exec step {} streamed = some _ := rfl
  refine ⟨_, hrun, rfl, (settled_iff hrun rfl).2 ?_⟩
  apply EachStep.cons rfl fun _ _ => ⟨rfl, by decide, by decide⟩
  apply EachStep.cons rfl fun _ _ => rfl
  apply EachStep.cons rfl trivial
  exact EachStep.cons rfl ⟨fun _ => rfl, fun _ => rfl⟩ trivial

/-- The device of the answer is not known, so the channel is never given back. -/
theorem unknownDev_not_settled :
    ∃ s, exec step {} [.setChannel "c" ⟨true, none, some 1⟩ true, .destroy true true] = some s ∧
      s.gone = true ∧ s.log = [.start (.channel "c")] ∧ ¬Settled s.log := by
  refine ⟨_, rfl, rfl, rfl, fun h => ?_⟩
  have hcount : 1 = 0 := h (.channel "c")
  omega

end Station

end Kalinka.Stream
