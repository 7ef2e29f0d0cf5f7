import Kalinka.Lib.Run
import Mathlib.Data.Int.Notation
import Mathlib.Data.List.Nodup
import Mathlib.Logic.Function.Basic

/-!
# The DVB processor

`DVBSTART` and `DVBSTOP` for streaming and for scanning, and the check of the devices by the timer,
which also finds out that a signal is lost.  An exception leaves a handler early; what has been set
by then stays set, so each handler below gives the state at its end, however it ends.

A request carries what the database answers to it.  The SNMP traps, the signal statistics of a
device and the reply are left out.
-/

namespace Kalinka

open Function

/-- `klk::dev::State`. -/
inductive DevState
  | idle
  | work
  deriving DecidableEq, Repr

/-- The values of `dev::DVBACTIVITY`. -/
inductive DvbActivity
  | streaming
  | scaning
  deriving DecidableEq, Repr

/-- The device types. -/
inductive DvbType
  | dvbS
  | dvbT
  | dvbC
  deriving DecidableEq, Repr

/-- The tune parameters of a transponder. -/
inductive Tune
  | dvbS (frequency codeRateHp : ℤ) (polarity : String) (symbolRate diseqcSrc : ℤ)
  | dvbT (frequency codeRateHp codeRateLp modulation transmode guard hierarchy bandwidth : ℤ)
  deriving DecidableEq, Repr

namespace Tune

def type : Tune → DvbType
  | dvbS .. => .dvbS
  | dvbT .. => .dvbT

def frequency : Tune → ℤ
  | dvbS frequency .. => frequency
  | dvbT frequency .. => frequency

/-- `BOOST_ASSERT(polarity.empty() == false)`. -/
def valid : Tune → Bool
  | dvbS _ _ polarity _ _ => polarity ≠ ""
  | dvbT .. => true

end Tune

/-- A DVB device.  A parameter that is not there is `none`. -/
structure Dev where
  type : DvbType
  source : Option String := none
  state : DevState := .idle
  activity : Option DvbActivity := none
  lostLock : Bool := false
  tune : Option Tune := none
  deriving DecidableEq, Repr

namespace Dev

/-- `CheckDevByFrequency`; `none` when the assertion on the frequency throws. -/
def checkDevByFrequency (dev : Dev) (frequency : ℤ) (source : String) : Option Bool :=
  if dev.source = none then some false
  else if dev.lostLock then some false
  else if dev.activity ≠ some .streaming then some false
  else dev.tune.map fun tune => decide (tune.frequency = frequency ∧ dev.source = some source)

/-- `CheckFreeDev` of `streamchannel.cpp`. -/
def checkFreeDev (dev : Dev) (source : String) : Bool :=
  if dev.source = none then false
  else if dev.lostLock then false
  else decide (dev.state = .idle ∧ dev.source = some source)

/-- `CheckFreeDev` of `processor.cpp`, which asks for the source without a test and does not look at
the lost lock. -/
def checkFreeDev4Scan (dev : Dev) (source : String) : Option Bool :=
  dev.source.map fun own => if own = source then decide (dev.state = .idle) else false

end Dev

/-- A channel in `m_channels`, with the tune parameters it was started with. -/
structure StreamChannel where
  id : String
  dev : String
  tune : Tune
  deriving DecidableEq, Repr

/-- A row of `klk_dvb_s_channel_get` or `klk_dvb_t_channel_get`. -/
structure ChannelInfo where
  tune : Tune
  name : String
  number : String
  deriving DecidableEq, Repr

/-- `DVBSTART` for streaming.  There is no `info` when the type is neither DVB-S nor DVB-T or the
database does not know the channel. -/
structure StreamRequest where
  source : String
  channelId : String
  info : Option ChannelInfo
  deriving DecidableEq, Repr

/-- The processor and the devices, in the order of `getResourceByType(DVB_ALL)`. -/
structure DvbProcessor where
  devs : List String
  dev : String → Dev
  channels : List StreamChannel := []

namespace DvbProcessor

def setDev (s : DvbProcessor) (uuid : String) (dev : Dev) : DvbProcessor :=
  { s with dev := update s.dev uuid dev }

/-- `getResourceByType`. -/
def ofType (s : DvbProcessor) (type : DvbType) : List String :=
  s.devs.filter fun uuid => (s.dev uuid).type = type

/-- `StreamChannel::findWorkingDev`; `none` for an exception. -/
def findWorkingDev (s : DvbProcessor) (source : String) (tune : Tune) : Option (Option String) :=
  (s.ofType tune.type).findM? fun uuid =>
    (s.dev uuid).checkDevByFrequency tune.frequency source

/-- `StreamChannel::findFreeDev`. -/
def findFreeDev (s : DvbProcessor) (source : String) (tune : Tune) : Option String :=
  (s.ofType tune.type).find? fun uuid => (s.dev uuid).checkFreeDev source

def setTune (s : DvbProcessor) (uuid : String) (tune : Tune) : DvbProcessor :=
  s.setDev uuid { s.dev uuid with tune := some tune }

/-- `StreamChannel::setData`: the state at its end and the device, if it does not throw. -/
def setData (s : DvbProcessor) (source : String) (info : ChannelInfo) :
    DvbProcessor × Option String :=
  let named (uuid : String) : Option String :=
    if info.name = "" ∨ info.number = "" then none else some uuid
  match s.findWorkingDev source info.tune with
  | none => (s, none)
  | some (some uuid) =>
    (s, if (s.dev uuid).tune = some info.tune then named uuid else none)
  | some none =>
    match s.findFreeDev source info.tune with
    | none => (s, none)
    | some uuid => (s.setTune uuid info.tune, named uuid)

/-- `StreamContainer::insertStreamChannel` and the end of `doStartStream`. -/
def insertStreamChannel (s : DvbProcessor) (channel : StreamChannel) : DvbProcessor :=
  if channel.id ∈ s.channels.map StreamChannel.id then s
  else
    { s.setDev channel.dev { s.dev channel.dev with
        state := .work, activity := some .streaming, lostLock := false } with
      channels := s.channels ++ [channel] }

def doStartStream (s : DvbProcessor) (request : StreamRequest) : DvbProcessor :=
  if request.source = "" ∨ request.channelId = "" then s
  else match request.info with
    | none => s
    | some info =>
      if info.tune.valid then
        match s.setData request.source info with
        | (s, none) => s
        | (s, some uuid) => s.insertStreamChannel ⟨request.channelId, uuid, info.tune⟩
      else s

/-- `doStopStream`, with `removeStreamChannel`. -/
def doStopStream (s : DvbProcessor) (channelId : String) : DvbProcessor :=
  if channelId = "" then s
  else { s with channels := s.channels.eraseP fun channel => channel.id = channelId }

/-- The device that `doStartScan` takes. -/
def findScanDev (s : DvbProcessor) (source : String) : Option (Option String) :=
  s.devs.findM? fun uuid => (s.dev uuid).checkFreeDev4Scan source

def doStartScan (s : DvbProcessor) (source : String) : DvbProcessor :=
  if source = "" then s
  else match s.findScanDev source with
    | some (some uuid) =>
      s.setDev uuid { s.dev uuid with state := .work, activity := some .scaning }
    | _ => s

def doStopScan (s : DvbProcessor) (resource : String) : DvbProcessor :=
  if resource ∈ s.devs then s.setDev resource { s.dev resource with state := .idle } else s

def doSignalLost (s : DvbProcessor) (uuid : String) : DvbProcessor :=
  s.setDev uuid { s.dev uuid with lostLock := true, state := .idle }

/-- `DVB::checkDVBDev`; `lost` when the device has not been updated for long or has no lock. -/
def checkDVBDev (s : DvbProcessor) (uuid : String) (lost : Bool) : DvbProcessor :=
  let s := s.setDev uuid { s.dev uuid with lostLock := false }
  if (s.dev uuid).state = .idle then s
  else if lost then s.doSignalLost uuid
  else s

/-- `dev::DVB::update`, which a database change calls; no source when the database does not know the
device. -/
def updateDev (s : DvbProcessor) (uuid : String) (source : Option String) : DvbProcessor :=
  s.setDev uuid { s.dev uuid with
    lostLock := false, source := source.or (s.dev uuid).source }

/-- `clean`, with which `preMainLoop` begins a run. -/
def clean (s : DvbProcessor) : DvbProcessor :=
  { s with channels := [], dev := fun uuid => { s.dev uuid with state := .idle } }

end DvbProcessor

inductive DvbAction
  | startStream (request : StreamRequest)
  | stopStream (channelId : String)
  | startScan (source : String)
  | stopScan (resource : String)
  | checkDev (uuid : String) (lost : Bool)
  | updateDev (uuid : String) (source : Option String)
  deriving DecidableEq, Repr

namespace DvbProcessor

/-- The events that the module processes, one after the other. -/
def step (s : DvbProcessor) : DvbAction → Option DvbProcessor
  | .startStream request => some (s.doStartStream request)
  | .stopStream channelId => some (s.doStopStream channelId)
  | .startScan source => some (s.doStartScan source)
  | .stopScan resource => some (s.doStopScan resource)
  | .checkDev uuid lost => if uuid ∈ s.devs then some (s.checkDVBDev uuid lost) else none
  | .updateDev uuid source => if uuid ∈ s.devs then some (s.updateDev uuid source) else none

/-- A channel of `m_channels` uses the device. -/
def Used (s : DvbProcessor) (uuid : String) : Prop := ∃ channel ∈ s.channels, channel.dev = uuid

/-- `doStartStream` sets the tune parameters of this device: it finds no working device, and this
free one. -/
def Retunes (s : DvbProcessor) (request : StreamRequest) (uuid : String) (info : ChannelInfo) :
    Prop :=
  ¬(request.source = "" ∨ request.channelId = "") ∧ request.info = some info ∧
    info.tune.valid = true ∧ s.findWorkingDev request.source info.tune = some none ∧
    s.findFreeDev request.source info.tune = some uuid

/-- `doStartScan` takes this device. -/
def Scans (s : DvbProcessor) (source uuid : String) : Prop :=
  source ≠ "" ∧ s.findScanDev source = some (some uuid)

/-- No channel occurs twice in `m_channels`. -/
def UniqueIds (s : DvbProcessor) : Prop := (s.channels.map StreamChannel.id).Nodup

variable {s s' : DvbProcessor} {a : DvbAction} {uuid source : String} {request : StreamRequest}

/-! ## What the handlers do -/

@[simp] theorem setDev_channels (dev : Dev) : (s.setDev uuid dev).channels = s.channels := rfl

@[simp] theorem setDev_dev (dev : Dev) : (s.setDev uuid dev).dev = update s.dev uuid dev := rfl

theorem insertStreamChannel_cases (s : DvbProcessor) (channel : StreamChannel) :
    s.insertStreamChannel channel = s ∨
    channel.id ∉ s.channels.map StreamChannel.id ∧
      s.insertStreamChannel channel =
        { s.setDev channel.dev { s.dev channel.dev with
            state := .work, activity := some .streaming, lostLock := false } with
          channels := s.channels ++ [channel] } := by
  unfold insertStreamChannel
  by_cases h : channel.id ∈ s.channels.map StreamChannel.id
  · exact Or.inl (if_pos h)
  · exact Or.inr ⟨h, if_neg h⟩

/-- `doStartStream` retunes a free device and may then insert the channel; or it retunes nothing,
and at most inserts the channel on a device that has its tune parameters. -/
theorem doStartStream_cases (s : DvbProcessor) (request : StreamRequest) :
    (∃ uuid info, s.Retunes request uuid info ∧
      (s.doStartStream request = s.setTune uuid info.tune ∨ s.doStartStream request =
        (s.setTune uuid info.tune).insertStreamChannel ⟨request.channelId, uuid, info.tune⟩)) ∨
    (∀ uuid info, ¬ s.Retunes request uuid info) ∧ (s.doStartStream request = s ∨
      ∃ (uuid : String) (info : ChannelInfo), (s.dev uuid).tune = some info.tune ∧
        s.doStartStream request = s.insertStreamChannel ⟨request.channelId, uuid, info.tune⟩) := by
  unfold doStartStream
  split
  next hkeys => exact Or.inr ⟨fun _ _ h => h.1 hkeys, Or.inl rfl⟩
  next hkeys =>
  split
  next hinfo =>
    refine Or.inr ⟨fun _ _ h => ?_, Or.inl rfl⟩
    cases hinfo.symm.trans h.2.1
  next info hinfo =>
  have hsame : ∀ {uuid info'}, s.Retunes request uuid info' → info' = info := fun h =>
    Option.some.inj (h.2.1.symm.trans hinfo)
  split
  next hvalid =>
    unfold setData
    rcases hwork : s.findWorkingDev request.source info.tune with _ | _ | uuid
    · refine Or.inr ⟨fun uuid info' h => ?_, Or.inl rfl⟩
      obtain rfl := hsame h
      cases hwork.symm.trans h.2.2.2.1
    · rcases hfree : s.findFreeDev request.source info.tune with _ | uuid
      · refine Or.inr ⟨fun uuid info' h => ?_, Or.inl rfl⟩
        obtain rfl := hsame h
        cases hfree.symm.trans h.2.2.2.2
      · left
        refine ⟨uuid, info, ⟨hkeys, hinfo, hvalid, hwork, hfree⟩, ?_⟩
        by_cases hnamed : info.name = "" ∨ info.number = "" <;> simp [hnamed]
    · right
      refine ⟨fun uuid' info' h => ?_, ?_⟩
      · obtain rfl := hsame h
        cases hwork.symm.trans h.2.2.2.1
      by_cases htune : (s.dev uuid).tune = some info.tune
      · by_cases hnamed : info.name = "" ∨ info.number = ""
        · simp [htune, hnamed]
        · right
          exact ⟨uuid, info, htune, by simp [htune, hnamed]⟩
      · simp [htune]
  next hvalid =>
    refine Or.inr ⟨fun uuid info' h => ?_, Or.inl rfl⟩
    obtain rfl := hsame h
    exact hvalid h.2.2.1

/-- `findFreeDev` gives one device. -/
theorem Retunes.eq {uuid' : String} {info info' : ChannelInfo} (h : s.Retunes request uuid info)
    (h' : s.Retunes request uuid' info') : uuid' = uuid ∧ info' = info := by
  obtain rfl := Option.some.inj (h'.2.1.symm.trans h.2.1)
  exact ⟨Option.some.inj (h'.2.2.2.2.symm.trans h.2.2.2.2), rfl⟩

theorem doStartScan_cases (s : DvbProcessor) (source : String) :
    ((∀ uuid, ¬ s.Scans source uuid) ∧ s.doStartScan source = s) ∨
    ∃ uuid, (∀ uuid', s.Scans source uuid' ↔ uuid' = uuid) ∧ s.doStartScan source =
      s.setDev uuid { s.dev uuid with state := .work, activity := some .scaning } := by
  unfold doStartScan Scans
  split
  next hnil => exact Or.inl ⟨fun _ h => h.1 hnil, rfl⟩
  next hne =>
    split
    next uuid hscan =>
      refine Or.inr ⟨uuid, fun uuid' => ?_, rfl⟩
      simp [hne, hscan, eq_comm]
    next hscan => exact Or.inl ⟨fun uuid h => hscan uuid h.2, rfl⟩

/-- The timer clears the lost lock of a device, or it frees the device. -/
theorem checkDVBDev_cases (s : DvbProcessor) (uuid : String) (lost : Bool) :
    ¬((s.dev uuid).state = .work ∧ lost = true) ∧
      s.checkDVBDev uuid lost = s.setDev uuid { s.dev uuid with lostLock := false } ∨
    ((s.dev uuid).state = .work ∧ lost = true) ∧ s.checkDVBDev uuid lost =
      s.setDev uuid { s.dev uuid with lostLock := true, state := .idle } := by
  unfold checkDVBDev
  cases hstate : (s.dev uuid).state with
  | idle => simp [hstate]
  | work => cases lost <;> simp [hstate, doSignalLost, setDev]

theorem eq_true_of_findM?_eq_some {α : Type} {p : α → Option Bool} {l : List α} {x : α}
    (h : l.findM? p = some (some x)) : p x = some true := by
  induction l with
  | nil => cases h
  | cons first rest ih =>
    obtain ⟨found, hfirst, hrest⟩ := Option.bind_eq_some_iff.1 h
    cases found with
    | false => exact ih hrest
    | true =>
      obtain rfl := Option.some.inj (Option.some.inj hrest)
      exact hfirst

/-- A device taken for a scan was idle. -/
theorem Scans.state (h : s.Scans source uuid) : (s.dev uuid).state = .idle := by
  have hfound : (s.dev uuid).checkFreeDev4Scan source = some true :=
    eq_true_of_findM?_eq_some (p := fun uuid => (s.dev uuid).checkFreeDev4Scan source) h.2
  obtain ⟨own, -, hown⟩ := Option.map_eq_some_iff.1 hfound
  split at hown
  · exact of_decide_eq_true hown
  · cases hown

/-! ## The channel ids -/

theorem UniqueIds.insertStreamChannel (h : s.UniqueIds) (channel : StreamChannel) :
    (s.insertStreamChannel channel).UniqueIds := by
  obtain heq | ⟨hnew, heq⟩ := insertStreamChannel_cases s channel
  · rwa [heq]
  · rw [heq]
    show ((s.channels ++ [channel]).map StreamChannel.id).Nodup
    rw [List.map_append, List.nodup_append_comm]
    exact List.nodup_cons.2 ⟨hnew, h⟩

theorem UniqueIds.doStopStream (h : s.UniqueIds) (channelId : String) :
    (s.doStopStream channelId).UniqueIds := by
  unfold DvbProcessor.doStopStream
  split
  · exact h
  · exact List.Nodup.sublist (List.eraseP_sublist.map _) h

theorem UniqueIds.step (h : s.UniqueIds) (hs : s.step a = some s') : s'.UniqueIds := by
  cases a with
  | startStream request =>
    obtain rfl := Option.some.inj hs
    obtain ⟨uuid, info, -, heq | heq⟩ | ⟨-, heq | ⟨uuid, info, -, heq⟩⟩ :=
      doStartStream_cases s request
    · rw [heq]; exact h
    · rw [heq]; exact UniqueIds.insertStreamChannel (s := s.setTune uuid info.tune) h _
    · rwa [heq]
    · rw [heq]; exact h.insertStreamChannel _
  | startScan source =>
    obtain rfl := Option.some.inj hs
    obtain ⟨-, heq⟩ | ⟨uuid, -, heq⟩ := doStartScan_cases s source
    · rwa [heq]
    · rw [heq]; exact h
  | stopStream channelId =>
    obtain rfl := Option.some.inj hs
    exact h.doStopStream channelId
  | stopScan resource =>
    obtain rfl := Option.some.inj hs
    unfold doStopScan
    split <;> exact h
  | checkDev uuid lost =>
    simp only [DvbProcessor.step] at hs
    split at hs
    · obtain rfl := Option.some.inj hs
      obtain ⟨-, heq⟩ | ⟨-, heq⟩ := checkDVBDev_cases s uuid lost
      · rw [heq]; exact h
      · rw [heq]; exact h
    · cases hs
  | updateDev uuid source =>
    simp only [DvbProcessor.step] at hs
    split at hs
    · obtain rfl := Option.some.inj hs
      exact h
    · cases hs

end DvbProcessor

end Kalinka
