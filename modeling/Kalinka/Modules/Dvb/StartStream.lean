import Kalinka.Modules.Dvb.Processor

/-!
# When a stream starts

`findWorkingDev` looks for a device that streams on the frequency, and the first one it finds must
have all the other parameters, or the request fails; a free device is not tried then.  A free device
is tuned before the name and the number of the channel are looked at, and before `m_channels` is
asked whether it has the channel already.

`succeeds_iff` says which requests succeed when some device could take the channel, and
`eachStep_unchanged_iff` in which runs a request that fails leaves everything as it was.
-/

namespace Kalinka

open Run Function

/-- The row passes the assertions on its texts. -/
def ChannelInfo.Complete (info : ChannelInfo) : Prop :=
  info.tune.valid = true ∧ info.name ≠ "" ∧ info.number ≠ ""

namespace DvbProcessor

/-- The request does not throw: the channel is in `m_channels` at its end. -/
def Succeeds (s : DvbProcessor) (request : StreamRequest) : Prop :=
  ∃ uuid tune, (s.doStartStream request).channels = s.channels ++ [⟨request.channelId, uuid, tune⟩]

/-- A device that could take a channel: of the right type and source and without a lost lock, it is
idle or streams with the same parameters. -/
def Offers (s : DvbProcessor) (source : String) (tune : Tune) (uuid : String) : Prop :=
  uuid ∈ s.ofType tune.type ∧ (s.dev uuid).source = some source ∧ (s.dev uuid).lostLock = false ∧
    ((s.dev uuid).state = .idle ∨ (s.dev uuid).activity = some .streaming ∧
      (s.dev uuid).tune = some tune)

/-- The first device about which `CheckDevByFrequency` does not say no has the same parameters. -/
def FirstMatches (s : DvbProcessor) (source : String) (tune : Tune) : Prop :=
  ∀ before uuid after, s.ofType tune.type = before ++ uuid :: after →
    (∀ u ∈ before, (s.dev u).checkDevByFrequency tune.frequency source = some false) →
    (s.dev uuid).checkDevByFrequency tune.frequency source ≠ some false →
    (s.dev uuid).tune = some tune

/-- The first free device has the parameters already. -/
def FreeMatches (s : DvbProcessor) (source : String) (tune : Tune) : Prop :=
  ∀ before uuid after, s.ofType tune.type = before ++ uuid :: after →
    (∀ u ∈ before, (s.dev u).checkFreeDev source = false) →
    (s.dev uuid).checkFreeDev source = true → (s.dev uuid).tune = some tune

/-- The condition under which a request that fails changes nothing: where the row has no name or no
number, or `m_channels` has the channel, some device streams on the frequency, or there is no device
to tune. -/
def StartOk (s : DvbProcessor) : DvbAction → Prop
  | .startStream request => ∀ info, ¬(request.source = "" ∨ request.channelId = "") →
      request.info = some info → info.tune.valid = true →
      ((info.name = "" ∨ info.number = "") ∨
        request.channelId ∈ s.channels.map StreamChannel.id) →
      (∃ u ∈ s.ofType info.tune.type,
        (s.dev u).checkDevByFrequency info.tune.frequency request.source ≠ some false) ∨
      s.FreeMatches request.source info.tune
  | _ => True

/-- A request that fails leaves the devices and `m_channels` as they were. -/
def Unchanged (s : DvbProcessor) : DvbAction → Prop
  | .startStream request => ¬ s.Succeeds request → s.doStartStream request = s
  | _ => True

variable {s : DvbProcessor} {request : StreamRequest} {info : ChannelInfo} {tune : Tune}
variable {uuid source : String}

/-! ## The search for a device -/

/-- The search goes on as long as the test says no. -/
theorem findM?_cases {α : Type} (f : α → Option Bool) (l : List α) :
    (∀ x ∈ l, f x = some false) ∧ l.findM? f = some none ∨
    ∃ before x after, l = before ++ x :: after ∧ (∀ y ∈ before, f y = some false) ∧
      f x ≠ some false ∧ l.findM? f = (f x).map fun _ => some x := by
  induction l with
  | nil => exact .inl ⟨nofun, rfl⟩
  | cons x l ih =>
    cases hx : f x with
    | none => exact .inr ⟨[], x, l, rfl, nofun, by simp [hx], by simp [hx]⟩
    | some found =>
      cases found with
      | true => exact .inr ⟨[], x, l, rfl, nofun, by simp [hx], by simp [hx]⟩
      | false =>
        have hrest : (x :: l).findM? f = l.findM? f := by simp [hx]
        rw [hrest]
        obtain ⟨hall, heq⟩ | ⟨before, y, after, rfl, hbefore, hy, heq⟩ := ih
        · exact .inl ⟨List.forall_mem_cons.2 ⟨hx, hall⟩, heq⟩
        · exact .inr ⟨x :: before, y, after, rfl, List.forall_mem_cons.2 ⟨hx, hbefore⟩, hy, heq⟩

/-- There is one first device that the test does not say no to. -/
theorem eq_of_first {α : Type} {no : α → Prop} {before after before' after' : List α} {x y : α}
    (heq : before ++ x :: after = before' ++ y :: after') (hbefore : ∀ z ∈ before, no z)
    (hx : ¬ no x) (hbefore' : ∀ z ∈ before', no z) (hy : ¬ no y) : x = y := by
  induction before generalizing before' with
  | nil =>
    cases before' with
    | nil => exact (List.cons.inj heq).1
    | cons z before' =>
      obtain ⟨rfl, -⟩ := List.cons.inj heq
      exact absurd (hbefore' x List.mem_cons_self) hx
  | cons z before ih =>
    cases before' with
    | nil =>
      obtain ⟨rfl, -⟩ := List.cons.inj heq
      exact absurd (hbefore z List.mem_cons_self) hy
    | cons z' before' =>
      exact ih (List.cons.inj heq).2 (fun u hu => hbefore u (List.mem_cons_of_mem _ hu))
        fun u hu => hbefore' u (List.mem_cons_of_mem _ hu)

/-- The assertion on the frequency throws for a device without parameters. -/
theorem tune_eq_none_of_check {dev : Dev} {frequency : ℤ}
    (h : dev.checkDevByFrequency frequency source = none) : dev.tune = none := by
  unfold Dev.checkDevByFrequency at h
  split at h
  · cases h
  split at h
  · cases h
  split at h
  · cases h
  exact Option.map_eq_none_iff.1 h

theorem check_of_streams {dev : Dev} (hsource : dev.source = some source)
    (hlock : dev.lostLock = false) (hactivity : dev.activity = some .streaming)
    (htune : dev.tune = some tune) :
    dev.checkDevByFrequency tune.frequency source = some true := by
  simp [Dev.checkDevByFrequency, hsource, hlock, hactivity, htune]

/-- The device if the row has the name and the number. -/
def named (info : ChannelInfo) (uuid : String) : Option String :=
  if info.name = "" ∨ info.number = "" then none else some uuid

/-- `setData` takes the first working device as it is, or tunes the first free one. -/
theorem setData_cases (s : DvbProcessor) (source : String) (info : ChannelInfo) :
    (∃ before uuid after, s.ofType info.tune.type = before ++ uuid :: after ∧
      (∀ u ∈ before,
        (s.dev u).checkDevByFrequency info.tune.frequency source = some false) ∧
      (s.dev uuid).checkDevByFrequency info.tune.frequency source ≠ some false ∧
      s.setData source info =
        (s, if (s.dev uuid).tune = some info.tune then named info uuid else none)) ∨
    (∀ u ∈ s.ofType info.tune.type,
      (s.dev u).checkDevByFrequency info.tune.frequency source = some false) ∧
    ((∀ u ∈ s.ofType info.tune.type, (s.dev u).checkFreeDev source = false) ∧
        s.setData source info = (s, none) ∨
      ∃ before uuid after, s.ofType info.tune.type = before ++ uuid :: after ∧
        (∀ u ∈ before, (s.dev u).checkFreeDev source = false) ∧
        (s.dev uuid).checkFreeDev source = true ∧
        s.setData source info = (s.setTune uuid info.tune, named info uuid)) := by
  unfold setData findWorkingDev
  obtain ⟨hall, heq⟩ | ⟨before, uuid, after, hsplit, hbefore, hcheck, heq⟩ := findM?_cases
    (fun u => (s.dev u).checkDevByFrequency info.tune.frequency source) (s.ofType info.tune.type)
  · right
    rw [heq]
    refine ⟨hall, ?_⟩
    unfold findFreeDev
    cases hfree : (s.ofType info.tune.type).find? fun u => (s.dev u).checkFreeDev source with
    | none => exact .inl ⟨by simpa using hfree, rfl⟩
    | some uuid =>
      obtain ⟨hfound, before, after, hsplit, hbefore⟩ := List.find?_eq_some_iff_append.1 hfree
      exact .inr ⟨before, uuid, after, hsplit, by simpa using hbefore, hfound, rfl⟩
  · left
    refine ⟨before, uuid, after, hsplit, hbefore, hcheck, ?_⟩
    rw [heq]
    cases hfound : (s.dev uuid).checkDevByFrequency info.tune.frequency source with
    | none => simp [tune_eq_none_of_check hfound]
    | some found => rfl

/-! ## Requests that succeed -/

theorem doStartStream_eq (hkeys : ¬(request.source = "" ∨ request.channelId = ""))
    (hinfo : request.info = some info) (hvalid : info.tune.valid = true) :
    s.doStartStream request = match s.setData request.source info with
      | (s, none) => s
      | (s, some uuid) => s.insertStreamChannel ⟨request.channelId, uuid, info.tune⟩ := by
  rw [doStartStream, if_neg hkeys, hinfo]
  exact if_pos hvalid

theorem not_succeeds_of_channels (h : (s.doStartStream request).channels = s.channels) :
    ¬ s.Succeeds request := by
  rintro ⟨uuid, tune, heq⟩
  rw [h] at heq
  simpa using congrArg List.length heq

theorem channels_insertStreamChannel (channel : StreamChannel)
    (hnew : channel.id ∉ s.channels.map StreamChannel.id) :
    (s.insertStreamChannel channel).channels = s.channels ++ [channel] := by
  rw [insertStreamChannel, if_neg hnew]

/-- A request for a channel that is not started yet succeeds if `setData` has found a device. -/
theorem succeeds_iff_setData (hkeys : ¬(request.source = "" ∨ request.channelId = ""))
    (hinfo : request.info = some info) (hvalid : info.tune.valid = true)
    (hnew : request.channelId ∉ s.channels.map StreamChannel.id) :
    s.Succeeds request ↔ (s.setData request.source info).2 ≠ none := by
  have hchannels : (s.setData request.source info).1.channels = s.channels := by
    obtain ⟨_, uuid, _, -, -, -, heq⟩ | ⟨-, ⟨-, heq⟩ | ⟨_, uuid, _, -, -, -, heq⟩⟩ :=
      setData_cases s request.source info <;> rw [heq]
    rfl
  have heq := doStartStream_eq (s := s) hkeys hinfo hvalid
  generalize s.setData request.source info = result at hchannels heq
  obtain ⟨s', dev⟩ := result
  cases dev with
  | none =>
    have hsame : (s.doStartStream request).channels = s.channels := by rw [heq]; exact hchannels
    exact iff_of_false (not_succeeds_of_channels hsame) fun hne => hne rfl
  | some uuid =>
    refine iff_of_true ⟨uuid, info.tune, ?_⟩ (Option.some_ne_none uuid)
    rw [heq]
    dsimp only at hchannels ⊢
    rw [← hchannels] at hnew ⊢
    exact channels_insertStreamChannel _ hnew

theorem named_ne_none_iff : named info uuid ≠ none ↔ info.name ≠ "" ∧ info.number ≠ "" := by
  rw [named, Ne, ite_eq_left_iff, ← not_or]
  simp

theorem firstMatches_iff {before after : List String}
    (hsplit : s.ofType tune.type = before ++ uuid :: after)
    (hbefore : ∀ u ∈ before, (s.dev u).checkDevByFrequency tune.frequency source = some false)
    (hcheck : (s.dev uuid).checkDevByFrequency tune.frequency source ≠ some false) :
    s.FirstMatches source tune ↔ (s.dev uuid).tune = some tune := by
  constructor
  · intro h
    exact h before uuid after hsplit hbefore hcheck
  · intro htune before' uuid' after' hsplit' hbefore' hcheck'
    have hsame := eq_of_first (hsplit.symm.trans hsplit') hbefore hcheck hbefore' hcheck'
    exact hsame ▸ htune

/-- Some device could take the channel: the request succeeds exactly if the row is complete and the
first device that the search for a working one stops at has the parameters. -/
theorem succeeds_iff (hkeys : ¬(request.source = "" ∨ request.channelId = ""))
    (hinfo : request.info = some info)
    (hnew : request.channelId ∉ s.channels.map StreamChannel.id)
    (hoffers : s.Offers request.source info.tune uuid) :
    s.Succeeds request ↔ info.Complete ∧ s.FirstMatches request.source info.tune := by
  by_cases hvalid : info.tune.valid = true
  · rw [succeeds_iff_setData hkeys hinfo hvalid hnew, ChannelInfo.Complete, and_iff_right hvalid]
    obtain ⟨before, found, after, hsplit, hbefore, hcheck, heq⟩ | ⟨hall, hfree⟩ :=
      setData_cases s request.source info
    · rw [heq, firstMatches_iff hsplit hbefore hcheck]
      by_cases htune : (s.dev found).tune = some info.tune
      · rw [if_pos htune, named_ne_none_iff, and_iff_left htune]
      · rw [if_neg htune]
        exact iff_of_false (fun hne => hne rfl) fun h => htune h.2
    · have hfirst : s.FirstMatches request.source info.tune := by
        intro before u after hsplit _ hcheck
        exact absurd (hall u (hsplit ▸ by simp)) hcheck
      rw [and_iff_left hfirst]
      obtain ⟨hnone, -⟩ | ⟨_, found, _, -, -, -, heq⟩ := hfree
      · -- the device that could take the channel is neither working nor free
        exfalso
        obtain ⟨hmem, hsource, hlock, hidle | ⟨hactivity, htune⟩⟩ := hoffers
        · have hno := hnone uuid hmem
          simp [Dev.checkFreeDev, hsource, hlock, hidle] at hno
        · have hyes := check_of_streams hsource hlock hactivity htune
          exact absurd (hyes.symm.trans (hall uuid hmem)) (by decide)
      · rw [heq]
        exact named_ne_none_iff
  · have hsame : s.doStartStream request = s := by
      rw [doStartStream, if_neg hkeys, hinfo]
      exact if_neg hvalid
    exact iff_of_false (not_succeeds_of_channels (by rw [hsame])) fun h => hvalid h.1.1

/-- The first card streams another transponder of the frequency, and the second one is free. -/
def twoCards : DvbProcessor where
  devs := ["a", "b"]
  dev uuid :=
    if uuid = "a" then
      { type := .dvbT, source := some "air", state := .work, activity := some .streaming
        tune := some (.dvbT 474000 2 1 3 1 0 0 8) }
    else { type := .dvbT, source := some "air" }

theorem succeeds_second_card :
    twoCards.Succeeds ⟨"air", "1", some ⟨.dvbT 474000 2 1 3 1 0 0 8, "name", "1"⟩⟩ ↔
      (⟨.dvbT 474000 2 1 3 1 0 0 8, "name", "1"⟩ : ChannelInfo).Complete ∧
        twoCards.FirstMatches "air" (.dvbT 474000 2 1 3 1 0 0 8) := by
  apply succeeds_iff
  · decide
  · rfl
  · decide
  · show twoCards.Offers _ _ "b"
    exact ⟨by decide, rfl, rfl, .inl rfl⟩

theorem fails_beside_free_card :
    twoCards.Offers "air" (.dvbT 474000 2 1 3 1 1 0 8) "b" ∧
    ¬ twoCards.Succeeds ⟨"air", "1", some ⟨.dvbT 474000 2 1 3 1 1 0 8, "name", "1"⟩⟩ :=
  ⟨⟨by decide, rfl, rfl, .inl rfl⟩, not_succeeds_of_channels rfl⟩

/-! ## Requests that fail -/

theorem succeeds_of_insert {s' : DvbProcessor} (hchannels : s'.channels = s.channels)
    (hnew : request.channelId ∉ s.channels.map StreamChannel.id)
    (h : s.doStartStream request = s'.insertStreamChannel ⟨request.channelId, uuid, tune⟩) :
    s.Succeeds request := by
  refine ⟨uuid, tune, ?_⟩
  rw [← hchannels] at hnew
  rw [h, channels_insertStreamChannel _ hnew, hchannels]

theorem setTune_eq_self_iff : s.setTune uuid tune = s ↔ (s.dev uuid).tune = some tune := by
  constructor
  · intro h
    have hdev := congrFun (congrArg DvbProcessor.dev h) uuid
    rw [setTune, setDev_dev, update_self] at hdev
    rw [← hdev]
  · intro h
    rw [setTune, ← h, setDev, update_eq_self]

theorem freeMatches_iff {before after : List String}
    (hsplit : s.ofType tune.type = before ++ uuid :: after)
    (hbefore : ∀ u ∈ before, (s.dev u).checkFreeDev source = false)
    (hfree : (s.dev uuid).checkFreeDev source = true) :
    s.FreeMatches source tune ↔ (s.dev uuid).tune = some tune := by
  constructor
  · intro h
    exact h before uuid after hsplit hbefore hfree
  · intro htune before' uuid' after' hsplit' hbefore' hfree'
    have hsame := eq_of_first (hsplit.symm.trans hsplit') hbefore (by simp [hfree]) hbefore'
      (by simp [hfree'])
    exact hsame ▸ htune

/-- A request that passes the assertions on its keys and parameters. -/
theorem startOk_iff (hkeys : ¬(request.source = "" ∨ request.channelId = ""))
    (hinfo : request.info = some info) (hvalid : info.tune.valid = true) :
    s.StartOk (.startStream request) ↔
      ((info.name = "" ∨ info.number = "") ∨
        request.channelId ∈ s.channels.map StreamChannel.id) →
      (∃ u ∈ s.ofType info.tune.type,
        (s.dev u).checkDevByFrequency info.tune.frequency request.source ≠ some false) ∨
      s.FreeMatches request.source info.tune := by
  constructor
  · intro h
    exact h info hkeys hinfo hvalid
  · intro h info' _ hinfo' _
    obtain rfl := Option.some.inj (hinfo.symm.trans hinfo')
    exact h

/-- Where `setData` tunes nothing, a request that fails changes nothing. -/
theorem unchanged_of_setData {dev : Option String}
    (hkeys : ¬(request.source = "" ∨ request.channelId = ""))
    (hinfo : request.info = some info) (hvalid : info.tune.valid = true)
    (hset : s.setData request.source info = (s, dev)) : s.Unchanged (.startStream request) := by
  intro hfail
  have heq := doStartStream_eq (s := s) hkeys hinfo hvalid
  rw [hset] at heq
  cases dev with
  | none => exact heq
  | some dev =>
    by_cases hnew : request.channelId ∈ s.channels.map StreamChannel.id
    · exact heq.trans (if_pos hnew)
    · exact absurd (succeeds_of_insert rfl hnew heq) hfail

/-- Where it tunes the first free device, a request that fails then leaves it tuned. -/
theorem unchanged_iff_of_tuned (hkeys : ¬(request.source = "" ∨ request.channelId = ""))
    (hinfo : request.info = some info) (hvalid : info.tune.valid = true)
    (hset : s.setData request.source info = (s.setTune uuid info.tune, named info uuid)) :
    s.Unchanged (.startStream request) ↔
      ((info.name = "" ∨ info.number = "") ∨
        request.channelId ∈ s.channels.map StreamChannel.id) →
      (s.dev uuid).tune = some info.tune := by
  have heq := doStartStream_eq (s := s) hkeys hinfo hvalid
  rw [hset] at heq
  rw [← setTune_eq_self_iff]
  by_cases hfails : (info.name = "" ∨ info.number = "") ∨
      request.channelId ∈ s.channels.map StreamChannel.id
  · have hend : s.doStartStream request = s.setTune uuid info.tune := by
      rw [heq]
      by_cases hname : info.name = "" ∨ info.number = ""
      · rw [named, if_pos hname]
      · rw [named, if_neg hname]
        exact if_pos (hfails.resolve_left hname)
    have hnot : ¬ s.Succeeds request := not_succeeds_of_channels (by rw [hend]; rfl)
    rw [Unchanged, hend]
    exact ⟨fun h _ => h hnot, fun h _ => h hfails⟩
  · refine iff_of_true (fun hnot => absurd ?_ hnot) fun h => absurd h hfails
    rw [not_or] at hfails
    rw [named, if_neg hfails.1] at heq
    have hchannels : (s.setTune uuid info.tune).channels = s.channels := rfl
    exact succeeds_of_insert hchannels hfails.2 heq

theorem unchanged_startStream_iff (s : DvbProcessor) (request : StreamRequest) :
    s.Unchanged (.startStream request) ↔ s.StartOk (.startStream request) := by
  by_cases hkeys : request.source = "" ∨ request.channelId = ""
  · exact iff_of_true (fun _ => if_pos hkeys) fun _ h => absurd hkeys h
  cases hinfo : request.info with
  | none =>
    refine iff_of_true (fun _ => ?_) fun info _ h => ?_
    · rw [doStartStream, if_neg hkeys, hinfo]
    · exact absurd (hinfo.symm.trans h) (by simp)
  | some info =>
    by_cases hvalid : info.tune.valid = true
    swap
    · refine iff_of_true (fun _ => ?_) fun info' _ h hvalid' => ?_
      · rw [doStartStream, if_neg hkeys, hinfo]
        exact if_neg hvalid
      · obtain rfl := Option.some.inj (hinfo.symm.trans h)
        exact absurd hvalid' hvalid
    rw [startOk_iff hkeys hinfo hvalid]
    obtain ⟨before, u, after, hsplit, -, hcheck, hset⟩ | ⟨hall, ⟨hnone, hset⟩ | hfree⟩ :=
      setData_cases s request.source info
    · have hmem : u ∈ s.ofType info.tune.type := by simp [hsplit]
      exact iff_of_true (unchanged_of_setData hkeys hinfo hvalid hset)
        fun _ => .inl ⟨u, hmem, hcheck⟩
    · refine iff_of_true (unchanged_of_setData hkeys hinfo hvalid hset) fun _ => .inr ?_
      intro before u after hsplit _ hyes
      exact absurd (hnone u (by simp [hsplit])) (by simp [hyes])
    · obtain ⟨before, u, after, hsplit, hbefore, hyes, hset⟩ := hfree
      have hno : ¬ ∃ u ∈ s.ofType info.tune.type,
          (s.dev u).checkDevByFrequency info.tune.frequency request.source ≠ some false := by
        rintro ⟨u, hu, hcheck⟩
        exact hcheck (hall u hu)
      rw [or_iff_right hno, freeMatches_iff hsplit hbefore hyes]
      exact unchanged_iff_of_tuned hkeys hinfo hvalid hset

theorem unchanged_iff (s : DvbProcessor) (a : DvbAction) : s.Unchanged a ↔ s.StartOk a := by
  cases a with
  | startStream request => exact unchanged_startStream_iff s request
  | _ => exact Iff.rfl

/-- The runs, from the beginning of a run of the module, in which no request that fails changes
anything. -/
theorem eachStep_unchanged_iff (devs : List String) (dev : String → Dev) (as : List DvbAction) :
    EachStep step Unchanged (clean { devs, dev }) as ↔
      EachStep step StartOk (clean { devs, dev }) as :=
  eachStep_congr (I := fun _ => True) (fun _ _ => trivial) (fun _ _ => unchanged_iff _ _) trivial

/-- The signal of the first card is lost, and its channel is started once more: the second card is
tuned, and the request fails. -/
theorem second_start_tunes_second_card :
    let tune : Tune := .dvbT 474000 2 1 3 1 0 0 8
    let request : StreamRequest := ⟨"air", "1", some ⟨tune, "name", "1"⟩⟩
    ∃ s, exec step (clean { devs := ["a", "b"]
                            dev := fun _ => { type := .dvbT, source := some "air" } })
        [.startStream request, .checkDev "a" true] = some s ∧
      ¬ s.Succeeds request ∧ (s.dev "b").tune = none ∧
      ((s.doStartStream request).dev "b").tune = some tune :=
  ⟨_, rfl, not_succeeds_of_channels rfl, rfl, rfl⟩

end DvbProcessor

end Kalinka
