import Mathlib.Algebra.Group.Int.Defs
import Mathlib.Algebra.Order.Group.Int
import Kalinka.Lib.Keyed
import Kalinka.Lib.Run
import Kalinka.Common.Sql.Resources

/-!
# Bandwidth of the DVB channels

A scan stores each channel it has found with `ScanChannel::save2DB`: `klk_dvb_channel_find` and
`klk_dvb_s_channel_addupdate` or `klk_dvb_t_channel_addupdate`, then `klk_dvb_channel_pid_del`, and
`klk_dvb_channel_pid_add` for each pid.  `klk_dvb_channels.bandwidth` is to be what the types of the
channel's pids take.  `klk_dvb_channel_pid_add` adds the share of the new pid to it;
`klk_dvb_channel_pid_del` takes nothing off.

`balanced_iff` says which calls leave the bandwidths right, `scanned_again_iff` which channels a
second scan leaves as they are.  A value outside the range of INTEGER is an error of the server, and
each statement commits by itself.  The rows of `klk_dvb_s_channels` and `klk_dvb_t_channels` are
left out, except that their statement may fail.
-/

namespace Kalinka.DvbServer

open Keyed Run

/-- `Text` are the values of a VARCHAR, equal if the collation says so. -/
structure Channel (Text : Type) where
  channel : Text
  name : Text
  provider : Option Text
  channelNo : ℤ
  signalSource : Option Text
  bandwidth : ℤ
  dvbType : Text
  deriving DecidableEq

structure PidType (Text : Type) where
  pidType : Text
  bandwidth : ℤ

structure Pid (Text : Type) where
  pid : Text
  pidType : Text
  channel : Text
  pidNo : ℤ
  description : Text
  deriving DecidableEq

/-- The tables of `dvb.sql.in` that the procedures read and write. -/
structure Db (Text : Type) where
  /-- the keys of `klk_dvb_signal_sources` and `klk_dvb_types` -/
  signalSources : List Text := []
  dvbTypes : List Text := []
  pidTypes : List (PidType Text) := []
  channels : List (Channel Text) := []
  pids : List (Pid Text) := []

/-- What the procedures write to a channel. -/
structure ChannelArgs (Text : Type) where
  signalSource : Option Text
  name : Text
  provider : Option Text
  channelNo : ℤ

/-- The range of INTEGER. -/
def inRange (x : ℤ) : Bool := -2 ^ 31 ≤ x ∧ x < 2 ^ 31

variable {Text : Type} [DecidableEq Text]

namespace Db

/-! ## The procedures -/

/-- `klk_dvb_channel_find` -/
def channelFind (db : Db Text) (name provider : Text) : Option Text :=
  (db.channels.find? fun c => c.name = name ∧ c.provider = some provider).map Channel.channel

/-- The unique key on name and provider and the foreign key on the signal source let a row have
these values. -/
def accepts (db : Db Text) (channel : Text) (args : ChannelArgs Text) : Bool :=
  (∀ c ∈ db.channels, c.channel ≠ channel →
    ¬(c.provider ≠ none ∧ c.name = args.name ∧ c.provider = args.provider)) ∧
  (args.signalSource = none ∨ ∃ source ∈ db.signalSources, args.signalSource = some source)

/-- `klk_dvb_s_channel_add` and `klk_dvb_t_channel_add`, for a channel that is not there; `child` is
whether the second INSERT succeeds. -/
def channelAdd (db : Db Text) (channel : Text) (args : ChannelArgs Text) (dvbType : Text)
    (child : Bool) : Server.Answer × Db Text :=
  if db.accepts channel args ∧ dvbType ∈ db.dvbTypes then
    (if child then .value 0 else .error, { db with channels := db.channels ++
      [⟨channel, args.name, args.provider, args.channelNo, args.signalSource, 0, dvbType⟩] })
  else (.error, db)

def setArgs (args : ChannelArgs Text) (c : Channel Text) : Channel Text :=
  { c with
    signalSource := args.signalSource
    name := args.name
    provider := args.provider
    channelNo := args.channelNo }

/-- `klk_dvb_s_channel_update` and `klk_dvb_t_channel_update`. -/
def channelUpdate (db : Db Text) (channel : Text) (args : ChannelArgs Text) (child : Bool) :
    Server.Answer × Db Text :=
  if db.accepts channel args then
    (if child then .value 0 else .error,
      { db with channels := update Channel.channel channel (setArgs args) db.channels })
  else (.error, db)

/-- `klk_dvb_s_channel_addupdate` and `klk_dvb_t_channel_addupdate`. -/
def channelAddUpdate (db : Db Text) (channel : Text) (args : ChannelArgs Text) (dvbType : Text)
    (child : Bool) : Server.Answer × Db Text :=
  match select Channel.channel channel db.channels with
  | none => db.channelAdd channel args dvbType child
  | some c => db.channelUpdate c.channel args child

/-- `klk_dvb_channel_pid_add`: the handler for NOT FOUND returns -1.  The INSERT comes after the
UPDATE. -/
def channelPidAdd (db : Db Text) (p : Pid Text) : Server.Answer × Db Text :=
  match select PidType.pidType p.pidType db.pidTypes with
  | none => (.value (-1), db)
  | some t =>
    match select Channel.channel p.channel db.channels with
    | none => (.value (-1), db)
    | some c =>
      if inRange (c.bandwidth + t.bandwidth) then
        let db := { db with
          channels := update Channel.channel p.channel
            (fun c' => { c' with bandwidth := c.bandwidth + t.bandwidth }) db.channels }
        if ∀ p' ∈ db.pids, p'.pid ≠ p.pid then (.value 0, { db with pids := db.pids ++ [p] })
        else (.error, db)
      else (.error, db)

/-- `klk_dvb_channel_pid_del` -/
def channelPidDel (db : Db Text) (channel : Text) : Server.Answer × Db Text :=
  (.value 0, { db with pids := db.pids.filter (·.channel ≠ channel) })

inductive Call (Text : Type)
  | channelAddUpdate (channel : Text) (args : ChannelArgs Text) (dvbType : Text) (child : Bool)
  | channelPidAdd (p : Pid Text)
  | channelPidDel (channel : Text)

def call (db : Db Text) : Call Text → Server.Answer × Db Text
  | .channelAddUpdate channel args dvbType child => db.channelAddUpdate channel args dvbType child
  | .channelPidAdd p => db.channelPidAdd p
  | .channelPidDel channel => db.channelPidDel channel

/-- A call as a scan makes it: `generateUUID` gives a new pid each time. -/
def step (db : Db Text) : Call Text → Option (Db Text)
  | .channelPidAdd p =>
    if ∀ p' ∈ db.pids, p'.pid ≠ p.pid then some (db.channelPidAdd p).2 else none
  | c => some (db.call c).2

end Db

/-! ## Saving a channel -/

/-- `ScanChannel`, with the parameters of its device that are read. -/
structure ScanChannel where
  mChannelNo : ℕ
  mName : String
  mProvider : String
  mVideoPid : List ℕ
  mAudioPid : List ℕ
  mScrambling : Bool
  /-- `dev::TYPE` and `dev::SOURCE` of `m_dev` -/
  type : String
  source : String

/-- How `save2DB` ends. -/
inductive SaveResult
  | skipped
  | saved
  | thrown
  deriving DecidableEq, Repr

/-- How the server reads a string, and the UUIDs `dev::DVB_S`, `dev::DVB_T`, `PID_VIDEO` and
`PID_AUDIO`. -/
structure Constants (Text : Type) where
  text : String → Text
  dvbS : String
  dvbT : String
  pidVideo : String
  pidAudio : String

namespace ScanChannel

variable (k : Constants Text)

/-- The name under which `save2DB` stores the channel. -/
def name (sc : ScanChannel) : String :=
  if sc.mName = "" then "Channel_" ++ toString sc.mChannelNo else sc.mName

/-- The type of pid and the number, in the order of the `savePid2DB` calls. -/
def pids (sc : ScanChannel) : List (Text × ℕ) :=
  sc.mVideoPid.map (k.text k.pidVideo, ·) ++ sc.mAudioPid.map (k.text k.pidAudio, ·)

/-- The `savePid2DB` calls, until one throws; `uuid` are the next `generateUUID()`. -/
def savePids (uuid : ℕ → Text) (channel : Text) (db : Db Text) :
    List (Text × ℕ) → Bool × Db Text
  | [] => (true, db)
  | (pidType, no) :: rest =>
    match db.channelPidAdd ⟨uuid 0, pidType, channel, no, k.text ""⟩ with
    | (.value 0, db) => savePids (uuid ∘ Nat.succ) channel db rest
    | (_, db) => (false, db)

/-- The DVB type whose procedure `save2DB` calls. -/
def dvbType (sc : ScanChannel) : Option Text :=
  if sc.type = k.dvbS then some (k.text k.dvbS)
  else if sc.type = k.dvbT then some (k.text k.dvbT)
  else none

def args (sc : ScanChannel) : ChannelArgs Text :=
  ⟨some (k.text sc.source), k.text sc.name, some (k.text sc.mProvider), sc.mChannelNo⟩

/-- `save2DB`. -/
def save2DB (uuid : ℕ → Text) (sc : ScanChannel) (db : Db Text) : SaveResult × Db Text :=
  if sc.mScrambling ∨ sc.mAudioPid = [] then (.skipped, db)
  else match sc.dvbType k with
    | none => (.thrown, db)
    | some dvbType =>
      let channel := (db.channelFind (k.text sc.name) (k.text sc.mProvider)).getD (uuid 0)
      match db.channelAddUpdate channel (sc.args k) dvbType true with
      | (.value 0, db) =>
        match db.channelPidDel channel with
        | (.value 0, db) =>
          match savePids k (uuid ∘ Nat.succ) channel db (sc.pids k) with
          | (true, db) => (.saved, db)
          | (false, db) => (.thrown, db)
        | (_, db) => (.thrown, db)
      | (_, db) => (.thrown, db)

end ScanChannel

namespace Db

/-! ## Balanced databases -/

def typeBandwidth (db : Db Text) (pidType : Text) : ℤ :=
  match select PidType.pidType pidType db.pidTypes with
  | some t => t.bandwidth
  | none => 0

/-- What a pid takes of a channel. -/
def share (db : Db Text) (channel : Text) (p : Pid Text) : ℤ :=
  if p.channel = channel then db.typeBandwidth p.pidType else 0

/-- What the types of the channel's pids take. -/
def total (db : Db Text) (channel : Text) : ℤ := (db.pids.map (db.share channel)).sum

/-- The bandwidth of each channel is what the types of its pids take. -/
def Balanced (db : Db Text) : Prop := ∀ c ∈ db.channels, c.bandwidth = db.total c.channel

instance (db : Db Text) : Decidable db.Balanced :=
  inferInstanceAs (Decidable (∀ c ∈ db.channels, c.bandwidth = db.total c.channel))

/-- The keys of the schema hold. -/
structure Consistent (db : Db Text) : Prop where
  channelKey : Primary Channel.channel db.channels
  nameKey : ∀ c ∈ db.channels, ∀ c' ∈ db.channels, c.provider ≠ none → c.name = c'.name →
    c.provider = c'.provider → c.channel = c'.channel
  channel : ∀ p ∈ db.pids, ∃ c ∈ db.channels, c.channel = p.channel

variable {db db' : Db Text} {c : Channel Text} {p : Pid Text} {channel : Text} {b b' : ℤ}
variable {args : ChannelArgs Text} {dvbType : Text} {child : Bool}

theorem total_eq_zero (h : db.Consistent) (hc : ∀ c ∈ db.channels, c.channel ≠ channel) :
    db.total channel = 0 := by
  apply List.sum_eq_zero
  intro x hx
  obtain ⟨p, hp, rfl⟩ := List.mem_map.1 hx
  obtain ⟨c, hmem, hkey⟩ := h.channel p hp
  exact if_neg fun heq => hc c hmem (hkey.trans heq)

/-! ## Adding and updating a channel -/

/-- What the calls that add or update a channel can do. -/
inductive AddUpdates (db : Db Text) (channel : Text) (args : ChannelArgs Text) (dvbType : Text)
    (child : Bool) : Server.Answer × Db Text → Prop
  | refused : AddUpdates db channel args dvbType child (.error, db)
  | adds (hnew : ∀ c ∈ db.channels, c.channel ≠ channel) (haccepts : db.accepts channel args) :
    AddUpdates db channel args dvbType child
      (if child then .value 0 else .error, { db with channels := db.channels ++
        [⟨channel, args.name, args.provider, args.channelNo, args.signalSource, 0, dvbType⟩] })
  | updates {c : Channel Text} (hc : c ∈ db.channels) (hkey : c.channel = channel)
      (haccepts : db.accepts channel args) :
    AddUpdates db channel args dvbType child (if child then .value 0 else .error,
      { db with channels := update Channel.channel channel (setArgs args) db.channels })

theorem addUpdates_channelAddUpdate (db : Db Text) (channel : Text) (args : ChannelArgs Text)
    (dvbType : Text) (child : Bool) :
    AddUpdates db channel args dvbType child
      (db.channelAddUpdate channel args dvbType child) := by
  unfold channelAddUpdate
  split
  next hsel =>
    unfold channelAdd
    split
    next hok => exact .adds (select_eq_none_iff.1 hsel) hok.1
    next => exact .refused
  next c hsel =>
    obtain ⟨hc, rfl⟩ := of_select_eq_some hsel
    unfold channelUpdate
    split
    next hok => exact .updates hc rfl hok
    next => exact .refused

theorem accepts_iff : db.accepts channel args = true ↔
    (∀ c ∈ db.channels, c.channel ≠ channel →
      ¬(c.provider ≠ none ∧ c.name = args.name ∧ c.provider = args.provider)) ∧
    (args.signalSource = none ∨ ∃ source ∈ db.signalSources, args.signalSource = some source) :=
  decide_eq_true_iff

theorem consistent_channelAddUpdate (h : db.Consistent) :
    (db.channelAddUpdate channel args dvbType child).2.Consistent := by
  have hcases := addUpdates_channelAddUpdate db channel args dvbType child
  generalize db.channelAddUpdate channel args dvbType child = out at hcases ⊢
  cases hcases with
  | refused => exact h
  | adds hnew haccepts =>
    obtain ⟨hunique, -⟩ := accepts_iff.1 haccepts
    refine ⟨h.channelKey.append hnew, ?_, fun p hp => ?_⟩
    · refine List.forall_mem_append.2 ⟨fun c hc => List.forall_mem_append.2
        ⟨h.nameKey c hc, List.forall_mem_singleton.2 fun hne hname hprovider => ?_⟩,
        List.forall_mem_singleton.2 <| List.forall_mem_append.2
          ⟨fun c hc hne hname hprovider => ?_, List.forall_mem_singleton.2 fun _ _ _ => rfl⟩⟩
      · exact absurd ⟨hne, hname, hprovider⟩ (hunique c hc (hnew c hc))
      · refine absurd ⟨?_, hname.symm, hprovider.symm⟩ (hunique c hc (hnew c hc))
        exact fun hnone => hne (hprovider.trans hnone)
    · exact (h.channel p hp).imp fun c hc => hc.imp_left (List.mem_append_left _)
  | @updates c hc hkey haccepts =>
    obtain ⟨hunique, -⟩ := accepts_iff.1 haccepts
    refine ⟨h.channelKey.update fun _ => rfl, ?_, fun p hp => ?_⟩
    · refine forall_mem_update.2 fun c₁ h₁ => forall_mem_update.2 fun c₂ h₂ => ?_
      have hnot : ∀ c' ∈ db.channels, c'.channel ≠ channel → c'.provider = args.provider →
          c'.provider ≠ none → c'.name ≠ args.name := fun c' hc' hne hprovider hnone hname =>
        hunique c' hc' hne ⟨hnone, hname, hprovider⟩
      split <;> split
      · exact fun _ _ _ => ‹c₁.channel = channel›.trans ‹c₂.channel = channel›.symm
      · intro hnone hname hprovider
        exact absurd hname.symm (hnot c₂ h₂ ‹_› hprovider.symm fun h => hnone (hprovider.trans h))
      · intro hnone hname hprovider
        exact absurd hname (hnot c₁ h₁ ‹_› hprovider hnone)
      · exact h.nameKey c₁ h₁ c₂ h₂
    · obtain ⟨c, hc, hkey⟩ := h.channel p hp
      refine ⟨_, List.mem_map_of_mem hc, ?_⟩
      rw [apply_ite Channel.channel]
      exact (ite_self _).trans hkey

theorem balanced_channelAddUpdate (h : db.Consistent) (hb : db.Balanced) :
    (db.channelAddUpdate channel args dvbType child).2.Balanced := by
  have hcases := addUpdates_channelAddUpdate db channel args dvbType child
  generalize db.channelAddUpdate channel args dvbType child = out at hcases ⊢
  cases hcases with
  | refused => exact hb
  | adds hnew =>
    exact List.forall_mem_append.2
      ⟨hb, List.forall_mem_singleton.2 (total_eq_zero h hnew).symm⟩
  | updates =>
    refine forall_mem_update.2 fun c hc => ?_
    rw [apply_ite Channel.bandwidth, apply_ite Channel.channel]
    exact (ite_self _).trans ((hb c hc).trans (congrArg db.total (ite_self _).symm))

/-! ## Adding and deleting pids -/

/-- What `klk_dvb_channel_pid_add` makes of the bandwidth `b`. -/
def addShare (db : Db Text) (b : ℤ) (pidType : Text) : Option ℤ :=
  match select PidType.pidType pidType db.pidTypes with
  | none => none
  | some t => if inRange (b + t.bandwidth) then some (b + t.bandwidth) else none

/-- The tables with these pids of a channel, and its new bandwidth. -/
def addPids (db : Db Text) (channel : Text) (b : ℤ) (rows : List (Pid Text)) : Db Text :=
  { db with
    channels := update Channel.channel channel (fun c => { c with bandwidth := b }) db.channels
    pids := db.pids ++ rows }

def addPid (db : Db Text) (p : Pid Text) (b : ℤ) : Db Text := db.addPids p.channel b [p]

theorem addShare_eq_some {pidType : Text} (h : db.addShare b pidType = some b') :
    b' = b + db.typeBandwidth pidType := by
  unfold addShare at h
  split at h
  next => cases h
  next t hsel =>
    have ht : db.typeBandwidth pidType = t.bandwidth := by rw [typeBandwidth, hsel]
    split at h
    · rw [ht, Option.some.inj h]
    · cases h

theorem channelPidAdd_of_some (hnew : ∀ p' ∈ db.pids, p'.pid ≠ p.pid)
    (hc : select Channel.channel p.channel db.channels = some c)
    (hb : db.addShare c.bandwidth p.pidType = some b) :
    db.channelPidAdd p = (.value 0, db.addPid p b) := by
  unfold addShare at hb
  unfold channelPidAdd
  split at hb
  · cases hb
  split at hb
  next hrange =>
    obtain rfl := Option.some.inj hb
    simp only [hc, hrange, if_true]
    exact if_pos hnew
  next => cases hb

theorem channelPidAdd_of_none (hc : select Channel.channel p.channel db.channels = some c)
    (hb : db.addShare c.bandwidth p.pidType = none) :
    (db.channelPidAdd p).1 ≠ .value 0 ∧ (db.channelPidAdd p).2 = db := by
  unfold addShare at hb
  unfold channelPidAdd
  split at hb
  · exact ⟨by simp, rfl⟩
  split at hb
  next => cases hb
  next hrange =>
    simp only [hc]
    rw [if_neg hrange]
    exact ⟨by simp, rfl⟩

theorem channelPidAdd_of_unknown (hc : select Channel.channel p.channel db.channels = none) :
    (db.channelPidAdd p).2 = db := by
  unfold channelPidAdd
  split
  · rfl
  · rw [hc]

theorem addPids_addPids {rows rows' : List (Pid Text)} :
    (db.addPids channel b rows).addPids channel b' rows' =
      db.addPids channel b' (rows ++ rows') := by
  have hupdate : update Channel.channel channel (fun c => { c with bandwidth := b' })
      (update Channel.channel channel (fun c => { c with bandwidth := b }) db.channels) =
      update Channel.channel channel (fun c => { c with bandwidth := b' }) db.channels :=
    update_update (f := fun c : Channel Text => { c with bandwidth := b }) fun _ => rfl
  rw [addPids, addPids, addPids, hupdate, List.append_assoc]

theorem addPids_channels_eq_iff {rows : List (Pid Text)} (h : db.Consistent)
    (hc : c ∈ db.channels) :
    (db.addPids c.channel b rows).channels = db.channels ↔ b = c.bandwidth := by
  constructor
  · intro heq
    have hmem := List.mem_map_of_mem (f := fun c' : Channel Text =>
      if c'.channel = c.channel then { c' with bandwidth := b } else c') hc
    rw [if_pos rfl] at hmem
    have hold : { c with bandwidth := b } ∈ db.channels := heq ▸ hmem
    exact congrArg Channel.bandwidth (eq_of_key_eq h.channelKey hold hc rfl)
  · rintro rfl
    apply update_of_fixed
    intro c' hc' hkey
    rw [eq_of_key_eq h.channelKey hc' hc hkey]

theorem total_addPid : (db.addPid p b).total channel = db.total channel + db.share channel p := by
  rw [total, addPid, addPids, List.map_append, List.sum_append, List.map_singleton,
    List.sum_singleton]
  rfl

theorem balanced_addPid (hbal : db.Balanced) (hc : c ∈ db.channels) (hkey : c.channel = p.channel)
    (hb : db.addShare c.bandwidth p.pidType = some b) : (db.addPid p b).Balanced := by
  refine forall_mem_update.2 fun c' hc' => ?_
  split
  next hcc =>
    have hself : db.share p.channel p = db.typeBandwidth p.pidType := if_pos rfl
    have htotal : (db.addPid p b).total c'.channel = b := by
      rw [hcc, total_addPid, hself, addShare_eq_some hb, ← hkey, hbal c hc]
    exact htotal.symm
  next hcc => rw [total_addPid, share, if_neg (Ne.symm hcc), add_zero, hbal c' hc']

theorem consistent_addPids {rows : List (Pid Text)} (h : db.Consistent) (hc : c ∈ db.channels)
    (hrows : ∀ p ∈ rows, p.channel = c.channel) : (db.addPids channel b rows).Consistent where
  channelKey := h.channelKey.update fun _ => rfl
  nameKey := by
    refine forall_mem_update.2 fun c₁ h₁ => forall_mem_update.2 fun c₂ h₂ => ?_
    simpa only [apply_ite Channel.provider, apply_ite Channel.name, apply_ite Channel.channel,
      ite_self] using h.nameKey c₁ h₁ c₂ h₂
  channel := by
    have hold : ∀ k, (∃ c ∈ db.channels, c.channel = k) →
        ∃ c ∈ (db.addPids channel b rows).channels, c.channel = k := by
      rintro k ⟨c, hc, rfl⟩
      refine ⟨_, List.mem_map_of_mem hc, ?_⟩
      rw [apply_ite Channel.channel]
      exact ite_self _
    exact List.forall_mem_append.2
      ⟨fun p hp => hold _ (h.channel p hp), fun p hp => hold _ ⟨c, hc, (hrows p hp).symm⟩⟩

/-- Nothing is deleted elsewhere. -/
theorem total_channelPidDel (k : Text) :
    (db.channelPidDel channel).2.total k = if k = channel then 0 else db.total k := by
  have hshare : (db.channelPidDel channel).2.share k = db.share k := rfl
  rw [total, hshare, channelPidDel]
  split
  next hk =>
    apply List.sum_eq_zero
    intro x hx
    obtain ⟨p, hp, rfl⟩ := List.mem_map.1 hx
    have hne : p.channel ≠ channel := by simpa using (List.mem_filter.1 hp).2
    exact if_neg fun heq => hne (heq.trans hk)
  next hk =>
    rw [total]
    induction db.pids with
    | nil => rfl
    | cons p rest ih =>
      by_cases hp : p.channel = channel
      · have hzero : db.share k p = 0 := if_neg fun heq => hk (heq.symm.trans hp)
        rw [List.filter_cons_of_neg (by simpa using hp), List.map_cons, List.sum_cons, hzero,
          zero_add, ih]
      · rw [List.filter_cons_of_pos (by simpa using hp), List.map_cons, List.map_cons,
          List.sum_cons, List.sum_cons, ih]

/-- Deleting a channel's pids leaves the bandwidths right exactly if they take nothing. -/
theorem balanced_channelPidDel_iff (h : db.Consistent) (hb : db.Balanced) :
    (db.channelPidDel channel).2.Balanced ↔ db.total channel = 0 := by
  constructor
  · intro hdel
    by_cases hc : ∃ c ∈ db.channels, c.channel = channel
    · obtain ⟨c, hc, rfl⟩ := hc
      have hzero := hdel c hc
      rw [total_channelPidDel, if_pos rfl] at hzero
      rw [← hb c hc, hzero]
    · exact total_eq_zero h fun c hmem hkey => hc ⟨c, hmem, hkey⟩
  · intro hzero c hc
    rw [total_channelPidDel]
    split
    next heq => rw [hb c hc, heq, hzero]
    next => exact hb c hc

/-! ## Runs -/

/-- The calls that keep the bandwidths right. -/
def CallOk (db : Db Text) : Call Text → Prop
  | .channelPidDel channel => db.total channel = 0
  | _ => True

theorem step_channelPidAdd (h : step db (.channelPidAdd p) = some db') :
    db' = db ∨ ∃ c b, c ∈ db.channels ∧ c.channel = p.channel ∧
      db.addShare c.bandwidth p.pidType = some b ∧ db' = db.addPid p b := by
  simp only [step] at h
  split at h
  next hnew =>
    obtain rfl := Option.some.inj h
    cases hc : select Channel.channel p.channel db.channels with
    | none => exact .inl (channelPidAdd_of_unknown hc)
    | some c =>
      obtain ⟨hmem, hkey⟩ := of_select_eq_some hc
      cases hb : db.addShare c.bandwidth p.pidType with
      | none => exact .inl (channelPidAdd_of_none hc hb).2
      | some b => exact .inr ⟨c, b, hmem, hkey, hb, by rw [channelPidAdd_of_some hnew hc hb]⟩
  next => cases h

theorem Consistent.channelPidDel (h : db.Consistent) : (db.channelPidDel channel).2.Consistent :=
  ⟨h.channelKey, h.nameKey, fun p hp => h.channel p (List.mem_filter.1 hp).1⟩

theorem consistent_step {a : Call Text} (h : db.Consistent) (hs : step db a = some db') :
    db'.Consistent := by
  cases a with
  | channelAddUpdate =>
    obtain rfl := Option.some.inj hs
    exact consistent_channelAddUpdate h
  | channelPidAdd p =>
    rcases step_channelPidAdd hs with rfl | ⟨c, b, hc, hkey, -, rfl⟩
    · exact h
    · exact consistent_addPids h hc (List.forall_mem_singleton.2 hkey.symm)
  | channelPidDel channel =>
    obtain rfl := Option.some.inj hs
    exact h.channelPidDel

theorem balanced_step_iff {a : Call Text} (h : db.Consistent) (hb : db.Balanced)
    (hs : step db a = some db') : db'.Balanced ↔ CallOk db a := by
  cases a with
  | channelAddUpdate =>
    obtain rfl := Option.some.inj hs
    exact iff_of_true (balanced_channelAddUpdate h hb) trivial
  | channelPidAdd p =>
    refine iff_of_true ?_ trivial
    rcases step_channelPidAdd hs with rfl | ⟨c, b, hc, hkey, hshare, rfl⟩
    · exact hb
    · exact balanced_addPid hb hc hkey hshare
  | channelPidDel channel =>
    obtain rfl := Option.some.inj hs
    exact balanced_channelPidDel_iff h hb

theorem throughout_balanced_iff (h : db.Consistent) (hb : db.Balanced) (calls : List (Call Text)) :
    Throughout step Balanced db calls ↔ EachStep step CallOk db calls :=
  throughout_iff_eachStep consistent_step balanced_step_iff h hb

end Db

namespace ScanChannel

open Db

variable {k : Constants Text} {db db' : Db Text} {c : Channel Text} {channel : Text} {b b' : ℤ}
variable {uuid uuid' : ℕ → Text} {sc : ScanChannel} {l : List (Text × ℕ)}

/-! ## Saving the pids -/

/-- What `generateUUID()` promises for the pids. -/
structure Fresh (uuid : ℕ → Text) (db : Db Text) : Prop where
  injective : Function.Injective uuid
  new : ∀ n, ∀ p ∈ db.pids, p.pid ≠ uuid n

/-- The bandwidth of a channel with bandwidth `b` after the calls for these pids, if they succeed.
-/
def shares (db : Db Text) : ℤ → List (Text × ℕ) → Option ℤ
  | b, [] => some b
  | b, (pidType, _) :: rest => (db.addShare b pidType).bind fun b => shares db b rest

/-- The rows that the calls add. -/
def rows (k : Constants Text) (uuid : ℕ → Text) (channel : Text) : List (Text × ℕ) → List (Pid Text)
  | [] => []
  | (pidType, no) :: rest =>
    ⟨uuid 0, pidType, channel, no, k.text ""⟩ :: rows k (uuid ∘ Nat.succ) channel rest

theorem Fresh.addPid {pidType : Text} {no : ℤ} {description : Text} (h : Fresh uuid db) :
    Fresh (uuid ∘ Nat.succ) (db.addPid ⟨uuid 0, pidType, channel, no, description⟩ b) where
  injective := h.injective.comp Nat.succ_injective
  new n := by
    refine List.forall_mem_append.2 ⟨h.new _, List.forall_mem_singleton.2 fun heq => ?_⟩
    exact Nat.succ_ne_zero n (h.injective heq).symm

/-- Only the pid types matter. -/
theorem shares_congr (h : db'.pidTypes = db.pidTypes) : shares db' b l = shares db b l := by
  induction l generalizing b with
  | nil => rfl
  | cons x rest ih =>
    have hone : db'.addShare b x.1 = db.addShare b x.1 := by rw [addShare, addShare, h]
    rw [shares, shares, hone]
    exact congrArg _ (funext fun b => ih)

theorem shares_eq_some (h : shares db b l = some b') :
    b' = b + (l.map fun x => db.typeBandwidth x.1).sum := by
  induction l generalizing b with
  | nil => simpa using (Option.some.inj h).symm
  | cons x rest ih =>
    obtain ⟨b₁, hone, hrest⟩ := Option.bind_eq_some_iff.1 h
    rw [ih hrest, addShare_eq_some hone, List.map_cons, List.sum_cons, add_assoc]

theorem savePids_eq (hfresh : Fresh uuid db) (hkey : Primary Channel.channel db.channels)
    (hc : c ∈ db.channels) (hchannel : c.channel = channel) :
    (∀ b, shares db c.bandwidth l = some b →
      savePids k uuid channel db l = (true, db.addPids channel b (rows k uuid channel l))) ∧
    (shares db c.bandwidth l = none → (savePids k uuid channel db l).1 = false) := by
  induction l generalizing db c uuid with
  | nil =>
    refine ⟨fun b hb => ?_, nofun⟩
    obtain rfl := Option.some.inj hb
    have hsame : update Channel.channel channel (fun c' => { c' with bandwidth := c.bandwidth })
        db.channels = db.channels := by
      apply update_of_fixed
      intro c' hc' hchannel'
      rw [eq_of_key_eq hkey hc' hc (hchannel'.trans hchannel.symm)]
    rw [rows, addPids, hsame, List.append_nil]
    rfl
  | cons x rest ih =>
    obtain ⟨pidType, no⟩ := x
    have hsel := select_eq_some hkey hc hchannel
    rw [shares, savePids]
    cases hone : db.addShare c.bandwidth pidType with
    | none =>
      refine ⟨nofun, fun _ => ?_⟩
      have hno := channelPidAdd_of_none (p := ⟨uuid 0, pidType, channel, no, k.text ""⟩) hsel hone
      split
      next heq => exact absurd (congrArg Prod.fst heq) hno.1
      next => rfl
    | some b₁ =>
      rw [channelPidAdd_of_some (p := ⟨uuid 0, pidType, channel, no, k.text ""⟩) (hfresh.new 0)
        hsel hone]
      have hrow : { c with bandwidth := b₁ } ∈ update Channel.channel channel
          (fun c => { c with bandwidth := b₁ }) db.channels := by
        have hmem := List.mem_map_of_mem (f := fun c' : Channel Text =>
          if c'.channel = channel then { c' with bandwidth := b₁ } else c') hc
        rwa [if_pos hchannel] at hmem
      have hfresh' : Fresh (uuid ∘ Nat.succ)
          (db.addPid ⟨uuid 0, pidType, channel, no, k.text ""⟩ b₁) := hfresh.addPid
      obtain ⟨hsome, hnone⟩ := ih hfresh' (hkey.update fun _ => rfl) hrow hchannel
      have hshares : shares (db.addPid ⟨uuid 0, pidType, channel, no, k.text ""⟩ b₁) b₁ rest =
          shares db b₁ rest := shares_congr rfl
      rw [hshares] at hsome hnone
      refine ⟨fun b hb => (hsome b hb).trans ?_, hnone⟩
      exact congrArg (Prod.mk true) addPids_addPids

/-! ## Scanning twice -/

/-- The channel is stored, with the values that a scan would give it. -/
structure Stored (db : Db Text) (channel : Text) (args : ChannelArgs Text) (c : Channel Text) :
    Prop where
  mem : c ∈ db.channels
  key : c.channel = channel
  set : setArgs args c = c
  accepts : db.accepts channel args = true

variable {args : ChannelArgs Text} {dvbType : Text}

theorem stored_of_channelAddUpdate
    (hs : db.channelAddUpdate channel args dvbType true = (.value 0, db')) :
    ∃ c, Stored db' channel args c := by
  have hcases := addUpdates_channelAddUpdate db channel args dvbType true
  rw [hs] at hcases
  cases hcases with
  | adds hnew haccepts =>
    refine ⟨_, List.mem_append_right _ List.mem_cons_self, rfl, rfl, ?_⟩
    obtain ⟨hunique, hsource⟩ := accepts_iff.1 haccepts
    refine accepts_iff.2 ⟨List.forall_mem_append.2 ⟨hunique, ?_⟩, hsource⟩
    exact List.forall_mem_singleton.2 fun hne => absurd rfl hne
  | @updates c hc hkey haccepts =>
    refine ⟨_, List.mem_map_of_mem hc, ?_, ?_, ?_⟩
    · rw [if_pos hkey]
      exact hkey
    · rw [if_pos hkey]
      rfl
    · obtain ⟨hunique, hsource⟩ := accepts_iff.1 haccepts
      refine accepts_iff.2 ⟨forall_mem_update.2 fun c' hc' => ?_, hsource⟩
      split
      · exact fun hne => absurd ‹c'.channel = channel› hne
      · exact hunique c' hc'

theorem Stored.channelAddUpdate (h : Stored db channel args c)
    (hkey : Primary Channel.channel db.channels) :
    db.channelAddUpdate channel args dvbType true = (.value 0, db) := by
  have hsame : update Channel.channel channel (setArgs args) db.channels = db.channels := by
    apply update_of_fixed
    intro c' hc' hchannel
    rw [eq_of_key_eq hkey hc' h.mem (hchannel.trans h.key.symm)]
    exact h.set
  rw [Db.channelAddUpdate, select_eq_some hkey h.mem h.key]
  dsimp only
  rw [h.key, channelUpdate, if_pos h.accepts, hsame]
  rfl

theorem Stored.channelFind (h : Stored db channel args c) (hcons : db.Consistent) {provider : Text}
    (hprovider : args.provider = some provider) :
    db.channelFind args.name provider = some channel := by
  have hc : c.name = args.name ∧ c.provider = some provider := by
    rw [← h.set, ← hprovider]
    exact ⟨rfl, rfl⟩
  rw [Db.channelFind]
  cases hfind : db.channels.find? fun c => c.name = args.name ∧ c.provider = some provider with
  | none =>
    rw [List.find?_eq_none] at hfind
    exact absurd (decide_eq_true hc) (hfind c h.mem)
  | some c' =>
    have hmem := List.mem_of_find?_eq_some hfind
    have hfound : c'.name = args.name ∧ c'.provider = some provider := by
      simpa using List.find?_some hfind
    have hkey := hcons.nameKey c' hmem c h.mem (by simp [hfound.2]) (hfound.1.trans hc.1.symm)
      (hfound.2.trans hc.2.symm)
    rw [Option.map_some, hkey, h.key]

/-- What `save2DB` does once the channel is stored. -/
def savedPids (k : Constants Text) (uuid : ℕ → Text) (channel : Text) (l : List (Text × ℕ))
    (db : Db Text) : SaveResult × Db Text :=
  match savePids k (uuid ∘ Nat.succ) channel (db.channelPidDel channel).2 l with
  | (true, db) => (.saved, db)
  | (false, db) => (.thrown, db)

theorem pids_channelAddUpdate {child : Bool} :
    (db.channelAddUpdate channel args dvbType child).2.pids = db.pids ∧
      (db.channelAddUpdate channel args dvbType child).2.pidTypes = db.pidTypes := by
  have hcases := addUpdates_channelAddUpdate db channel args dvbType child
  generalize db.channelAddUpdate channel args dvbType child = out at hcases ⊢
  cases hcases <;> exact ⟨rfl, rfl⟩

/-- A scan that stores the channel. -/
theorem of_save2DB (h : db.Consistent) (hs : sc.save2DB k uuid db = (.saved, db')) :
    ¬(sc.mScrambling ∨ sc.mAudioPid = []) ∧ (∃ dvbType, sc.dvbType k = some dvbType) ∧
      ∃ db₁ channel c, db₁.Consistent ∧ db₁.pids = db.pids ∧ db₁.pidTypes = db.pidTypes ∧
        Stored db₁ channel (sc.args k) c ∧
        savedPids k uuid channel (sc.pids k) db₁ = (.saved, db') := by
  unfold save2DB at hs
  split at hs
  · cases hs
  next hstore =>
    split at hs
    · cases hs
    next dvbType htype =>
      extract_lets channel at hs
      split at hs
      next db₁ hadd =>
        have hcons : (db.channelAddUpdate channel (sc.args k) dvbType true).2.Consistent :=
          consistent_channelAddUpdate h
        have hpids : (db.channelAddUpdate channel (sc.args k) dvbType true).2.pids = db.pids ∧
          (db.channelAddUpdate channel (sc.args k) dvbType true).2.pidTypes = db.pidTypes :=
          pids_channelAddUpdate
        rw [hadd] at hcons hpids
        obtain ⟨c, hc⟩ := stored_of_channelAddUpdate hadd
        exact ⟨hstore, ⟨dvbType, htype⟩, db₁, channel, c, hcons, hpids.1, hpids.2, hc, hs⟩
      next => cases hs

/-- A scan of a channel that is stored as the scan would store it. -/
theorem save2DB_of_stored (h : db.Consistent) (hstore : ¬(sc.mScrambling ∨ sc.mAudioPid = []))
    (htype : sc.dvbType k = some dvbType) (hc : Stored db channel (sc.args k) c) :
    sc.save2DB k uuid db = savedPids k uuid channel (sc.pids k) db := by
  rw [save2DB, if_neg hstore, htype]
  have hfind : db.channelFind (k.text sc.name) (k.text sc.mProvider) = some channel :=
    hc.channelFind h rfl
  dsimp only
  rw [hfind, Option.getD_some, hc.channelAddUpdate h.channelKey]
  rfl

theorem savedPids_eq (hfresh : Fresh uuid db) (h : db.Consistent)
    (hc : Stored db channel args c) :
    (∀ b, shares db c.bandwidth l = some b → savedPids k uuid channel l db =
      (.saved, (db.channelPidDel channel).2.addPids channel b
        (rows k (uuid ∘ Nat.succ) channel l))) ∧
    (shares db c.bandwidth l = none → (savedPids k uuid channel l db).1 = .thrown) := by
  have hdel : Fresh (uuid ∘ Nat.succ) (db.channelPidDel channel).2 :=
    ⟨hfresh.injective.comp Nat.succ_injective,
      fun n p hp => hfresh.new _ p (List.mem_filter.1 hp).1⟩
  obtain ⟨hsome, hnone⟩ := savePids_eq (k := k) (l := l) hdel h.channelKey hc.mem hc.key
  have hshares : shares (db.channelPidDel channel).2 c.bandwidth l = shares db c.bandwidth l :=
    shares_congr rfl
  rw [hshares] at hsome hnone
  unfold savedPids
  refine ⟨fun b hb => by rw [hsome b hb], fun hno => ?_⟩
  have hfalse := hnone hno
  split
  next heq => rw [heq] at hfalse; cases hfalse
  next => rfl

/-- What a pid is but for its UUID. -/
def content (p : Pid Text) : Text × Text × ℤ × Text :=
  (p.pidType, p.channel, p.pidNo, p.description)

/-- The channels and the pids are the same, but for the UUIDs of the pids. -/
def Unchanged (db db' : Db Text) : Prop :=
  db'.channels = db.channels ∧ db'.pids.map content = db.pids.map content

omit [DecidableEq Text] in
theorem content_rows :
    (rows k uuid channel l).map content = (rows k uuid' channel l).map content := by
  induction l generalizing uuid uuid' with
  | nil => rfl
  | cons x rest ih => rw [rows, rows, List.map_cons, List.map_cons, ih]; rfl

omit [DecidableEq Text] in
theorem channel_of_mem_rows : ∀ p ∈ rows k uuid channel l, p.channel = channel := by
  induction l generalizing uuid with
  | nil => nofun
  | cons x rest ih => exact List.forall_mem_cons.2 ⟨rfl, ih⟩

theorem Stored.addPids {rows : List (Pid Text)} (h : Stored db channel args c) :
    Stored ((db.channelPidDel channel).2.addPids channel b rows) channel args
      { c with bandwidth := b } where
  mem := by
    have hmem := List.mem_map_of_mem (f := fun c' : Channel Text =>
      if c'.channel = channel then { c' with bandwidth := b } else c') h.mem
    rwa [if_pos h.key] at hmem
  key := h.key
  set := congrArg (fun c' : Channel Text => { c' with bandwidth := b }) h.set
  accepts := by
    obtain ⟨hunique, hsource⟩ := accepts_iff.1 h.accepts
    refine accepts_iff.2 ⟨forall_mem_update.2 fun c' hc' => ?_, hsource⟩
    simpa only [apply_ite Channel.provider, apply_ite Channel.name, apply_ite Channel.channel,
      ite_self] using hunique c' hc'

/-- A scan of a channel that is stored with these pids. -/
theorem savedPids_unchanged_iff (hfresh : Fresh uuid db) (h : db.Consistent)
    (hc : Stored db channel args c) (hpids : db.pids.map content =
      (db.pids.filter (·.channel ≠ channel) ++ rows k uuid' channel l).map content) :
    (savedPids k uuid channel l db).1 = .saved ∧ Unchanged db (savedPids k uuid channel l db).2 ↔
      shares db c.bandwidth l = some c.bandwidth := by
  obtain ⟨hsome, hnone⟩ := savedPids_eq (k := k) (l := l) hfresh h hc
  obtain rfl := hc.key
  cases hb : shares db c.bandwidth l with
  | none => simp [hnone hb]
  | some b =>
    rw [hsome b hb, Option.some.injEq, and_iff_right rfl]
    have hdel : (db.channelPidDel c.channel).2.Consistent := h.channelPidDel
    constructor
    · rintro ⟨hchannels, -⟩
      exact (addPids_channels_eq_iff hdel hc.mem).1 hchannels
    · intro heq
      refine ⟨(addPids_channels_eq_iff hdel hc.mem).2 heq, ?_⟩
      rw [hpids, List.map_append, content_rows]
      exact List.map_append

/-- The pids of the second scan take the place of those of the first. -/
theorem pids_scanned_again (pids : List (Pid Text)) :
    (pids.filter (·.channel ≠ channel) ++ rows k uuid channel l).map content =
      ((pids.filter (·.channel ≠ channel) ++ rows k uuid channel l).filter (·.channel ≠ channel) ++
        rows k uuid channel l).map content := by
  have hrows : (rows k uuid channel l).filter (·.channel ≠ channel) = [] := by
    refine List.filter_eq_nil_iff.2 fun p hp => ?_
    simp [channel_of_mem_rows p hp]
  have hpids : (pids.filter (·.channel ≠ channel)).filter (·.channel ≠ channel) =
      pids.filter (·.channel ≠ channel) := by
    rw [List.filter_filter]
    simp
  rw [List.filter_append, hrows, hpids, List.append_nil]

/-- A second scan of a channel that a first one has stored succeeds and leaves it as it is exactly
if the types of its pids take nothing. -/
theorem scanned_again_iff (h : db.Consistent) (hfresh : Fresh uuid db) (hfresh' : Fresh uuid' db')
    (hs : sc.save2DB k uuid db = (.saved, db')) :
    (sc.save2DB k uuid' db').1 = .saved ∧ Unchanged db' (sc.save2DB k uuid' db').2 ↔
      ((sc.pids k).map fun x => db.typeBandwidth x.1).sum = 0 := by
  obtain ⟨hstore, ⟨dvbType, htype⟩, db₁, channel, c, hcons, hpids, htypes, hc, hsaved⟩ :=
    of_save2DB h hs
  have hfresh₁ : Fresh uuid db₁ := ⟨hfresh.injective, hpids ▸ hfresh.new⟩
  obtain ⟨hsome, hnone⟩ := savedPids_eq (l := sc.pids k) (k := k) hfresh₁ hcons hc
  cases hb : shares db₁ c.bandwidth (sc.pids k) with
  | none =>
    have hthrown := hnone hb
    rw [hsaved] at hthrown
    cases hthrown
  | some b =>
    have hdb' := hsaved.symm.trans (hsome b hb)
    obtain rfl := (Prod.mk.inj hdb').2
    have hone : db₁.typeBandwidth = db.typeBandwidth := by
      funext pidType
      rw [typeBandwidth, typeBandwidth, htypes]
    have hsum := shares_eq_some hb
    rw [hone] at hsum
    have hcons' : ((db₁.channelPidDel channel).2.addPids channel b
        (rows k (uuid ∘ Nat.succ) channel (sc.pids k))).Consistent :=
      consistent_addPids hcons.channelPidDel hc.mem fun p hp =>
        (channel_of_mem_rows p hp).trans hc.key.symm
    have hagain := savedPids_unchanged_iff (k := k) (l := sc.pids k) hfresh' hcons' hc.addPids
      (pids_scanned_again _)
    rw [save2DB_of_stored hcons' hstore htype hc.addPids, hagain]
    have hshares : shares ((db₁.channelPidDel channel).2.addPids channel b
        (rows k (uuid ∘ Nat.succ) channel (sc.pids k))) b (sc.pids k) = shares db₁ b (sc.pids k) :=
      shares_congr rfl
    dsimp only
    rw [hshares]
    constructor
    · intro hsame
      have hsum' := shares_eq_some hsame
      rw [hone] at hsum'
      omega
    · intro hzero
      have hbc : b = c.bandwidth := by omega
      rwa [← hbc] at hb

end ScanChannel

namespace Db

open ScanChannel

variable {db : Db Text}

/-- Which calls leave the bandwidths right, and which channels a second scan leaves as they are. -/
theorem bandwidth_iff (k : Constants Text) (h : db.Consistent) (hb : db.Balanced) :
    (∀ calls, Throughout step Balanced db calls ↔ EachStep step CallOk db calls) ∧
      ∀ uuid uuid' (sc : ScanChannel) db', Fresh uuid db → Fresh uuid' db' →
        sc.save2DB k uuid db = (.saved, db') →
        ((sc.save2DB k uuid' db').1 = .saved ∧ Unchanged db' (sc.save2DB k uuid' db').2 ↔
          ((sc.pids k).map fun x => db.typeBandwidth x.1).sum = 0) :=
  ⟨throughout_balanced_iff h hb, fun _ _ _ _ hfresh hfresh' => scanned_again_iff h hfresh hfresh'⟩

/-- No channels yet. -/
def unscanned : Db String where
  signalSources := ["astra"]
  dvbTypes := ["s", "t"]
  pidTypes := [⟨"video", 6000⟩, ⟨"audio", 256⟩, ⟨"unknown", 0⟩]

def constants : Constants String := ⟨id, "s", "t", "video", "audio"⟩

def ard : ScanChannel := ⟨1, "ARD", "", [101], [102], false, "s", "astra"⟩

def uuids (start n : ℕ) : String := String.ofList (List.replicate (start + n) 'u')

theorem length_uuids (start n : ℕ) : (uuids start n).length = start + n := by simp [uuids]

theorem fresh_uuids {db : Db String} {start : ℕ} (h : ∀ p ∈ db.pids, p.pid.length < start) :
    Fresh (uuids start) db where
  injective m n heq := by
    have hlen := congrArg String.length heq
    rw [length_uuids, length_uuids] at hlen
    omega
  new n p hp heq := by
    have hlen := h p hp
    rw [heq, length_uuids] at hlen
    omega

theorem bandwidth_iff_unscanned :
    let scanned := (ard.save2DB constants (uuids 1) unscanned).2
    (∀ calls, Throughout step Balanced unscanned calls ↔ EachStep step CallOk unscanned calls) ∧
      ((ard.save2DB constants (uuids 4) scanned).1 = .saved ∧
        Unchanged scanned (ard.save2DB constants (uuids 4) scanned).2 ↔
          ((ard.pids constants).map fun x => unscanned.typeBandwidth x.1).sum = 0) := by
  obtain ⟨hruns, hscan⟩ := bandwidth_iff constants
    (show unscanned.Consistent from ⟨List.nodup_nil, nofun, nofun⟩)
    (show unscanned.Balanced from nofun)
  exact ⟨hruns, hscan (uuids 1) (uuids 4) ard _ (fresh_uuids (by decide))
    (fresh_uuids (by decide))
    (Prod.ext (by decide) rfl)⟩

/-- The second scan of a channel with a video and an audio pid doubles its bandwidth. -/
theorem second_scan_doubles_bandwidth :
    let first := ard.save2DB constants (uuids 1) unscanned
    let second := ard.save2DB constants (uuids 4) first.2
    first.1 = .saved ∧ first.2.Balanced ∧ first.2.channels.map Channel.bandwidth = [6256] ∧
      second.1 = .saved ∧ ¬ second.2.Balanced ∧
      second.2.channels.map Channel.bandwidth = [12512] ∧ second.2.pids.length = 2 := by
  decide

end Db

end Kalinka.DvbServer
