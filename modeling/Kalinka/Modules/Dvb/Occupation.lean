import Kalinka.Modules.Dvb.Processor

/-!
# Which devices are occupied

A device that works for streaming should carry a channel, and the other way round.  `doStopStream`
takes the channel out of `m_channels` and leaves the device alone, `doSignalLost` and `doStopScan`
free the device and leave its channels alone.  `throughout_occupied_iff` says that a run keeps the
devices in order exactly if it does none of this.
-/

namespace Kalinka

open Run Function

namespace DvbProcessor

def Streams (dev : Dev) : Prop := dev.state = .work ∧ dev.activity = some .streaming

/-- The devices that work for streaming are those in use. -/
def Occupied (s : DvbProcessor) : Prop := ∀ uuid, Streams (s.dev uuid) ↔ s.Used uuid

/-- The condition under which an event keeps the devices in order: a stopped channel leaves another
one on its device, and a device that a scan stop or the loss of the signal frees carries none. -/
def OccupationOk (s : DvbProcessor) : DvbAction → Prop
  | .stopStream channelId => channelId ≠ "" → ∀ channel ∈ s.channels, channel.id = channelId →
      ∃ other ∈ s.channels, other.id ≠ channelId ∧ other.dev = channel.dev
  | .stopScan resource => resource ∈ s.devs → ¬ s.Used resource
  | .checkDev uuid true => ¬ s.Used uuid
  | _ => True

variable {s s' : DvbProcessor} {a : DvbAction} {uuid source channelId : String}

theorem occupied_setDev_iff (h : s.Occupied) (dev : Dev) :
    (s.setDev uuid dev).Occupied ↔ (Streams dev ↔ s.Used uuid) := by
  constructor
  · intro h'
    have hdev := h' uuid
    rwa [setDev_dev, update_self] at hdev
  · intro hdev uuid'
    rw [setDev_dev]
    by_cases heq : uuid' = uuid
    · rw [heq, update_self]
      exact hdev
    · rw [update_of_ne heq]
      exact h uuid'

/-- A change that leaves the state and the activity alone. -/
theorem Occupied.setDev (h : s.Occupied) {dev : Dev} (hstate : dev.state = (s.dev uuid).state)
    (hactivity : dev.activity = (s.dev uuid).activity) : (s.setDev uuid dev).Occupied := by
  apply (occupied_setDev_iff h dev).2
  rw [Streams, hstate, hactivity]
  exact h uuid

/-- A device that is freed must not be in use. -/
theorem occupied_setDev_idle_iff (h : s.Occupied) {dev : Dev} (hdev : dev.state = .idle) :
    (s.setDev uuid dev).Occupied ↔ ¬ s.Used uuid := by
  have hnot : ¬ Streams dev := fun hstreams => nomatch hdev.symm.trans hstreams.1
  rw [occupied_setDev_iff h, iff_false_left hnot]

theorem Occupied.insertStreamChannel (h : s.Occupied) (channel : StreamChannel) :
    (s.insertStreamChannel channel).Occupied := by
  obtain heq | ⟨-, heq⟩ := insertStreamChannel_cases s channel
  · rwa [heq]
  · rw [heq]
    intro uuid
    by_cases hdev : uuid = channel.dev
    · subst hdev
      refine iff_of_true ?_ ⟨channel, List.mem_append_right _ List.mem_cons_self, rfl⟩
      simp [Streams]
    · have hold : s.Used uuid ↔ ∃ old ∈ s.channels ++ [channel], old.dev = uuid := by
        constructor
        · rintro ⟨old, hmem, hold⟩
          exact ⟨old, List.mem_append_left _ hmem, hold⟩
        · rintro ⟨old, hmem, hold⟩
          obtain hmem | hlast := List.mem_append.1 hmem
          · exact ⟨old, hmem, hold⟩
          · obtain rfl := List.mem_singleton.1 hlast
            exact absurd hold.symm hdev
      simp only [setDev_dev, update_of_ne hdev]
      exact (h uuid).trans hold

theorem Occupied.doStartStream (h : s.Occupied) (request : StreamRequest) :
    (s.doStartStream request).Occupied := by
  have htune : ∀ uuid tune, (s.setTune uuid tune).Occupied := fun _ _ => h.setDev rfl rfl
  obtain ⟨uuid, info, -, heq | heq⟩ | ⟨-, heq | ⟨uuid, info, -, heq⟩⟩ :=
    doStartStream_cases s request
  · rw [heq]; exact htune uuid info.tune
  · rw [heq]; exact (htune uuid info.tune).insertStreamChannel _
  · rwa [heq]
  · rw [heq]; exact h.insertStreamChannel _

/-- An idle device is not in use, so a scan may take it. -/
theorem Occupied.doStartScan (h : s.Occupied) (source : String) :
    (s.doStartScan source).Occupied := by
  obtain ⟨-, heq⟩ | ⟨uuid, hscans, heq⟩ := doStartScan_cases s source
  · rwa [heq]
  · rw [heq]
    have hidle := ((hscans uuid).2 rfl).state
    have hunused : ¬ s.Used uuid := fun hused => nomatch hidle.symm.trans ((h uuid).2 hused).1
    exact (occupied_setDev_iff h _).2 (iff_of_false (by simp [Streams]) hunused)

/-- With unique ids, the other channels are the ones with another id. -/
theorem mem_eraseP_iff {channels : List StreamChannel} {other : StreamChannel}
    (h : (channels.map StreamChannel.id).Nodup) :
    other ∈ channels.eraseP (fun channel => decide (channel.id = channelId)) ↔
      other ∈ channels ∧ other.id ≠ channelId := by
  induction channels with
  | nil => simp
  | cons first rest ih =>
    obtain ⟨hfirst, hrest⟩ := List.nodup_cons.1 h
    by_cases hid : first.id = channelId
    · rw [List.eraseP_cons_of_pos (by simpa using hid)]
      constructor
      · intro hmem
        refine ⟨List.mem_cons_of_mem _ hmem, fun hother => hfirst ?_⟩
        rw [hid, ← hother]
        exact List.mem_map_of_mem hmem
      · rintro ⟨hmem, hne⟩
        exact (List.mem_cons.1 hmem).resolve_left fun heq => hne (heq ▸ hid)
    · rw [List.eraseP_cons_of_neg (by simpa using hid), List.mem_cons, List.mem_cons, ih hrest]
      constructor
      · rintro (rfl | ⟨hmem, hne⟩)
        · exact ⟨Or.inl rfl, hid⟩
        · exact ⟨Or.inr hmem, hne⟩
      · rintro ⟨rfl | hmem, hne⟩
        · exact Or.inl rfl
        · exact Or.inr ⟨hmem, hne⟩

theorem occupied_doStopStream_iff (hunique : s.UniqueIds) (h : s.Occupied) (channelId : String) :
    (s.doStopStream channelId).Occupied ↔ s.OccupationOk (.stopStream channelId) := by
  by_cases hnil : channelId = ""
  · rw [DvbProcessor.doStopStream, if_pos hnil]
    exact iff_of_true h fun hne => absurd hnil hne
  · rw [DvbProcessor.doStopStream, if_neg hnil]
    constructor
    · intro h' _ channel hmem hid
      -- the device works for streaming, so it must still be in use
      obtain ⟨other, hother, hdev⟩ := (h' channel.dev).1 ((h channel.dev).2 ⟨channel, hmem, rfl⟩)
      obtain ⟨hother, hne⟩ := (mem_eraseP_iff hunique).1 hother
      exact ⟨other, hother, hne, hdev⟩
    · intro hok uuid
      refine (h uuid).trans ⟨?_, ?_⟩
      · rintro ⟨channel, hmem, rfl⟩
        by_cases hid : channel.id = channelId
        · obtain ⟨other, hother, hne, hdev⟩ := hok hnil channel hmem hid
          exact ⟨other, (mem_eraseP_iff hunique).2 ⟨hother, hne⟩, hdev⟩
        · exact ⟨channel, (mem_eraseP_iff hunique).2 ⟨hmem, hid⟩, rfl⟩
      · rintro ⟨channel, hmem, hdev⟩
        exact ⟨channel, List.mem_of_mem_eraseP hmem, hdev⟩

theorem occupied_checkDVBDev_iff (h : s.Occupied) (uuid : String) (lost : Bool) :
    (s.checkDVBDev uuid lost).Occupied ↔ s.OccupationOk (.checkDev uuid lost) := by
  obtain ⟨hnot, heq⟩ | ⟨⟨-, rfl⟩, heq⟩ := checkDVBDev_cases s uuid lost
  · rw [heq]
    refine iff_of_true (h.setDev rfl rfl) ?_
    cases lost with
    | false => trivial
    | true =>
      intro hused
      have hwork := ((h uuid).2 hused).1
      exact hnot ⟨hwork, rfl⟩
  · rw [heq]
    exact occupied_setDev_idle_iff h rfl

theorem occupied_step_iff (hunique : s.UniqueIds) (h : s.Occupied) (hs : s.step a = some s') :
    s'.Occupied ↔ s.OccupationOk a := by
  cases a with
  | startStream request =>
    obtain rfl := Option.some.inj hs
    exact iff_of_true (h.doStartStream request) trivial
  | stopStream channelId =>
    obtain rfl := Option.some.inj hs
    exact occupied_doStopStream_iff hunique h channelId
  | startScan source =>
    obtain rfl := Option.some.inj hs
    exact iff_of_true (h.doStartScan source) trivial
  | stopScan resource =>
    obtain rfl := Option.some.inj hs
    by_cases hmem : resource ∈ s.devs
    · rw [doStopScan, if_pos hmem, occupied_setDev_idle_iff h rfl]
      exact ⟨fun hunused _ => hunused, fun hok => hok hmem⟩
    · rw [doStopScan, if_neg hmem]
      exact iff_of_true h fun hmem' => absurd hmem' hmem
  | checkDev uuid lost =>
    simp only [step] at hs
    split at hs
    · obtain rfl := Option.some.inj hs
      exact occupied_checkDVBDev_iff h uuid lost
    · cases hs
  | updateDev uuid source =>
    simp only [step] at hs
    split at hs
    · obtain rfl := Option.some.inj hs
      exact iff_of_true (h.setDev rfl rfl) trivial
    · cases hs

/-- The runs, from the beginning of a run of the module, in which the devices that work for
streaming are always those in use. -/
theorem throughout_occupied_iff (devs : List String) (dev : String → Dev) (as : List DvbAction) :
    Throughout step Occupied (clean { devs, dev }) as ↔
      EachStep step OccupationOk (clean { devs, dev }) as :=
  throughout_iff_eachStep (fun h hs => h.step hs) occupied_step_iff List.nodup_nil
    fun _ => iff_of_false nofun nofun

/-- The only channel is stopped, its card goes on working, and a scan finds no free card. -/
theorem stopped_channel_keeps_device : ∃ s,
    exec step (clean { devs := ["card"], dev := fun _ => { type := .dvbT, source := some "air" } })
      [.startStream ⟨"air", "1", some ⟨.dvbT 474000 2 1 3 1 0 0 8, "name", "1"⟩⟩, .stopStream "1"] =
      some s ∧
    s.channels = [] ∧ Streams (s.dev "card") ∧ s.findScanDev "air" = some none :=
  ⟨_, rfl, rfl, ⟨rfl, rfl⟩, rfl⟩

end DvbProcessor

end Kalinka
