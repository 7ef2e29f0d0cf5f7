import Kalinka.Modules.Dvb.Processor

/-!
# Who uses a tuner for what

The channels on one device share its transponder, and a device that scans carries none.
`throughout_tunerExclusive_iff` says exactly which runs keep this: a device whose signal was lost is
idle while its channels are still in `m_channels`, and it must not be tuned to another transponder
or taken for a scan before they have been stopped.
-/

namespace Kalinka

open Run Function

namespace DvbProcessor

structure Exclusive (s : DvbProcessor) : Prop where
  /-- A device is tuned for each of its channels. -/
  tuned : ∀ channel ∈ s.channels, (s.dev channel.dev).tune = some channel.tune
  /-- No device scans while a channel is on it. -/
  scan : ∀ channel ∈ s.channels,
    ¬((s.dev channel.dev).state = .work ∧ (s.dev channel.dev).activity = some .scaning)
  unique : s.UniqueIds

/-- The condition under which an event keeps the tuners exclusive: a free device that is tuned anew
carries only channels of the same transponder, and a device taken for a scan carries none. -/
def TunerOk (s : DvbProcessor) : DvbAction → Prop
  | .startStream request => ∀ uuid info, s.Retunes request uuid info →
      ∀ channel ∈ s.channels, channel.dev = uuid → channel.tune = info.tune
  | .startScan source => ∀ uuid, s.Scans source uuid → ¬ s.Used uuid
  | _ => True

variable {s s' : DvbProcessor} {a : DvbAction} {uuid source channelId : String}

/-- A device may change as long as it stays tuned for its channels and does not scan with one on
it. -/
theorem Exclusive.setDev (h : s.Exclusive) {dev : Dev}
    (htune : ∀ channel ∈ s.channels, channel.dev = uuid → dev.tune = some channel.tune)
    (hscan : s.Used uuid → ¬(dev.state = .work ∧ dev.activity = some .scaning)) :
    (s.setDev uuid dev).Exclusive := by
  refine ⟨fun channel hmem => ?_, fun channel hmem => ?_, h.unique⟩
  · rw [setDev_dev]
    by_cases hdev : channel.dev = uuid
    · rw [hdev, update_self]
      exact htune channel hmem hdev
    · rw [update_of_ne hdev]
      exact h.tuned channel hmem
  · rw [setDev_dev]
    by_cases hdev : channel.dev = uuid
    · rw [hdev, update_self]
      exact hscan ⟨channel, hmem, hdev⟩
    · rw [update_of_ne hdev]
      exact h.scan channel hmem

/-- Freeing a device and clearing or setting its lost lock is never a loss. -/
theorem Exclusive.setDev_of_tune_eq (h : s.Exclusive) {dev : Dev}
    (htune : dev.tune = (s.dev uuid).tune) (hactivity : dev.activity = (s.dev uuid).activity)
    (hstate : dev.state = .work → (s.dev uuid).state = .work) : (s.setDev uuid dev).Exclusive := by
  refine h.setDev (fun channel hmem hdev => ?_) fun hused hscan => ?_
  · rw [htune, ← hdev]
    exact h.tuned channel hmem
  · obtain ⟨channel, hmem, rfl⟩ := hused
    exact h.scan channel hmem ⟨hstate hscan.1, hactivity ▸ hscan.2⟩

theorem Exclusive.insertStreamChannel (h : s.Exclusive) {channel : StreamChannel}
    (htune : (s.dev channel.dev).tune = some channel.tune) :
    (s.insertStreamChannel channel).Exclusive := by
  obtain heq | ⟨hnew, heq⟩ := insertStreamChannel_cases s channel
  · rwa [heq]
  · rw [heq]
    have hset : (s.setDev channel.dev { s.dev channel.dev with
        state := .work, activity := some .streaming, lostLock := false }).Exclusive := by
      refine h.setDev (fun old hmem hdev => ?_) (by simp)
      exact hdev ▸ h.tuned old hmem
    refine ⟨fun old hmem => ?_, fun old hmem => ?_, heq ▸ h.unique.insertStreamChannel channel⟩
    · obtain hold | hlast := List.mem_append.1 hmem
      · exact hset.tuned old hold
      · obtain rfl := List.mem_singleton.1 hlast
        simp [htune]
    · obtain hold | hlast := List.mem_append.1 hmem
      · exact hset.scan old hold
      · obtain rfl := List.mem_singleton.1 hlast
        simp

theorem exclusive_setTune_iff (h : s.Exclusive) (tune : Tune) : (s.setTune uuid tune).Exclusive ↔
    ∀ channel ∈ s.channels, channel.dev = uuid → channel.tune = tune := by
  constructor
  · intro h' channel hmem hdev
    have htuned := h'.tuned channel hmem
    simp only [setTune, setDev_dev, hdev, update_self] at htuned
    exact (Option.some.inj htuned).symm
  · intro hall
    refine h.setDev (fun channel hmem hdev => ?_) fun hused => ?_
    · rw [hall channel hmem hdev]
    · obtain ⟨channel, hmem, rfl⟩ := hused
      exact h.scan channel hmem

theorem exclusive_doStartStream_iff (h : s.Exclusive) (request : StreamRequest) :
    (s.doStartStream request).Exclusive ↔ s.TunerOk (.startStream request) := by
  obtain ⟨uuid, info, hretunes, heq⟩ | ⟨hnot, heq⟩ := doStartStream_cases s request
  · have hok : s.TunerOk (.startStream request) ↔ (s.setTune uuid info.tune).Exclusive := by
      rw [exclusive_setTune_iff h]
      constructor
      · exact fun hok => hok uuid info hretunes
      · intro hall uuid' info' hretunes'
        obtain ⟨rfl, rfl⟩ := hretunes.eq hretunes'
        exact hall
    rw [hok]
    obtain heq | heq := heq
    · rw [heq]
    · rw [heq]
      constructor
      · intro h'
        -- the insertion leaves the tune parameters as they are
        apply (exclusive_setTune_iff h info.tune).2
        intro channel hmem hdev
        obtain hins | ⟨-, hins⟩ := insertStreamChannel_cases (s.setTune uuid info.tune)
          ⟨request.channelId, uuid, info.tune⟩
        · rw [hins] at h'
          exact (exclusive_setTune_iff h info.tune).1 h' channel hmem hdev
        · rw [hins] at h'
          have htuned := h'.tuned channel (List.mem_append_left _ hmem)
          simp only [setTune, setDev_dev, hdev, update_self] at htuned
          exact (Option.some.inj htuned).symm
      · intro h'
        exact h'.insertStreamChannel (by simp [setTune])
  · refine iff_of_true ?_ fun uuid info hretunes => absurd hretunes (hnot uuid info)
    obtain heq | ⟨uuid, info, htune, heq⟩ := heq
    · rwa [heq]
    · rw [heq]
      exact h.insertStreamChannel htune

theorem exclusive_doStartScan_iff (h : s.Exclusive) (source : String) :
    (s.doStartScan source).Exclusive ↔ s.TunerOk (.startScan source) := by
  obtain ⟨hnot, heq⟩ | ⟨uuid, hscans, heq⟩ := doStartScan_cases s source
  · rw [heq]
    exact iff_of_true h fun uuid hscan => absurd hscan (hnot uuid)
  · rw [heq]
    constructor
    · rintro h' uuid' hscan ⟨channel, hmem, hdev⟩
      obtain rfl := (hscans uuid').1 hscan
      have hwork := h'.scan channel hmem
      simp [hdev] at hwork
    · intro hok
      have hunused := hok uuid ((hscans uuid).2 rfl)
      exact h.setDev (fun channel hmem hdev => absurd ⟨channel, hmem, hdev⟩ hunused)
        fun hused => absurd hused hunused

theorem Exclusive.doStopStream (h : s.Exclusive) (channelId : String) :
    (s.doStopStream channelId).Exclusive := by
  have hunique := h.unique.doStopStream channelId
  by_cases hnil : channelId = ""
  · rwa [DvbProcessor.doStopStream, if_pos hnil]
  · rw [DvbProcessor.doStopStream, if_neg hnil] at hunique ⊢
    refine ⟨fun channel hmem => ?_, fun channel hmem => ?_, hunique⟩
    · exact h.tuned channel (List.mem_of_mem_eraseP hmem)
    · exact h.scan channel (List.mem_of_mem_eraseP hmem)

theorem Exclusive.checkDVBDev (h : s.Exclusive) (uuid : String) (lost : Bool) :
    (s.checkDVBDev uuid lost).Exclusive := by
  obtain ⟨-, heq⟩ | ⟨-, heq⟩ := checkDVBDev_cases s uuid lost
  · rw [heq]
    exact h.setDev_of_tune_eq rfl rfl id
  · rw [heq]
    exact h.setDev_of_tune_eq rfl rfl nofun

theorem exclusive_step_iff (h : s.Exclusive) (hs : s.step a = some s') :
    s'.Exclusive ↔ s.TunerOk a := by
  cases a with
  | startStream request =>
    obtain rfl := Option.some.inj hs
    exact exclusive_doStartStream_iff h request
  | startScan source =>
    obtain rfl := Option.some.inj hs
    exact exclusive_doStartScan_iff h source
  | stopStream channelId =>
    obtain rfl := Option.some.inj hs
    exact iff_of_true (h.doStopStream channelId) trivial
  | stopScan resource =>
    obtain rfl := Option.some.inj hs
    refine iff_of_true ?_ trivial
    unfold doStopScan
    split
    · exact h.setDev_of_tune_eq rfl rfl nofun
    · exact h
  | checkDev uuid lost =>
    simp only [step] at hs
    split at hs
    · obtain rfl := Option.some.inj hs
      exact iff_of_true (h.checkDVBDev uuid lost) trivial
    · cases hs
  | updateDev uuid source =>
    simp only [step] at hs
    split at hs
    · obtain rfl := Option.some.inj hs
      exact iff_of_true (h.setDev_of_tune_eq rfl rfl id) trivial
    · cases hs

/-- The runs, from the beginning of a run of the module, that keep the tuners exclusive. -/
theorem throughout_tunerExclusive_iff (devs : List String) (dev : String → Dev)
    (as : List DvbAction) :
    Throughout step Exclusive (clean { devs, dev }) as ↔
      EachStep step TunerOk (clean { devs, dev }) as :=
  throughout_iff_eachStep (I := fun _ => True) (fun _ _ => trivial)
    (fun _ h hs => exclusive_step_iff h hs) trivial ⟨nofun, nofun, List.nodup_nil⟩

/-- A DVB-S channel request. -/
def requestS (channelId : String) (frequency : ℤ) : StreamRequest where
  source := "astra"
  channelId := channelId
  info := some ⟨.dvbS frequency 3 "H" 27500 0, "name", "1"⟩

/-- The signal of the only card is lost, the next check clears the lost lock, and another channel
gets the card while the first one is still in `m_channels`. -/
theorem lost_device_retuned : ∃ s channel,
    exec step
      (clean { devs := ["card"], dev := fun _ => { type := .dvbS, source := some "astra" } })
      [.startStream (requestS "1" 10000), .checkDev "card" true, .checkDev "card" false,
        .startStream (requestS "2" 11000)] = some s ∧
    channel ∈ s.channels ∧ (s.dev channel.dev).tune ≠ some channel.tune :=
  ⟨_, ⟨"1", "card", .dvbS 10000 3 "H" 27500 0⟩, rfl, by decide, by decide⟩

/-- A card whose signal was lost is taken for a scan. -/
example : ∃ s channel,
    exec step
      (clean { devs := ["card"], dev := fun _ => { type := .dvbS, source := some "astra" } })
      [.startStream (requestS "1" 10000), .checkDev "card" true, .startScan "astra"] = some s ∧
    channel ∈ s.channels ∧ (s.dev channel.dev).activity = some .scaning :=
  ⟨_, ⟨"1", "card", .dvbS 10000 3 "H" 27500 0⟩, rfl, by decide, by decide⟩

end DvbProcessor

end Kalinka
