import Kalinka.App.Dvb.Streamer.Plugin.Getstream2.Receiver

/-!
# Runs of a receiver

A run of the receiver is one of its adapter, whose sections come from the packets of their pid.  So
what holds of every run of an adapter holds whatever packets arrive.
-/

namespace Kalinka.Getstream2

open Function Run

namespace Receiver

variable {budgetmode opened : Bool} {device : ℕ → Bool} {r r' : Receiver} {pid : ℕ}
variable {actions : List ReceiverAction}

/-- The sections that are being put together come from the packets of their pids so far. -/
structure Traced (budgetmode opened : Bool) (device : ℕ → Bool) (hist : ℕ → List TsPacket)
    (r : Receiver) : Prop where
  sound : r.adapter.Sound budgetmode opened device
  gathered : ∀ pid seccb, (r.row pid).seccb = some seccb →
    Gathered (hist pid) (r.sections pid seccb.call)
  fresh : ∀ pid call, r.adapter.demux.calls ≤ call → r.sections pid call = {}

variable {hist : ℕ → List TsPacket}

/-- A callback that puts sections together begins with an empty one. -/
theorem Traced.withAdapter {P : ℕ → DvrCb → Prop} {adapter : Adapter}
    (h : r.Traced budgetmode opened device hist)
    (hsound : adapter.Sound budgetmode opened device)
    (hcalls : Demux.Calls P r.adapter.demux adapter.demux) :
    Traced budgetmode opened device hist { r with adapter } where
  sound := hsound
  gathered pid seccb hseccb := by
    obtain hold | hnew := hcalls.seccb hseccb
    · exact h.gathered pid seccb hold
    · rw [show r.sections pid seccb.call = {} from h.fresh pid seccb.call hnew]
      exact .of_valid_eq_zero PsiSec.inv_default rfl
  fresh pid call hcall := h.fresh pid call (hcalls.calls_le.trans hcall)

/-- The section of one pid goes on. -/
theorem Traced.setSection {ts : TsPacket} {seccb : PidCallback} {last : PsiSec}
    (h : r.Traced budgetmode opened device hist) (hpid : pid ≤ PID_MAX)
    (hseccb : (r.row pid).seccb = some seccb)
    (hlast : Gathered (hist pid ++ [ts].filter usable) last) :
    (r.setSection pid seccb.call last).Traced budgetmode opened device
      (update hist pid (hist pid ++ [ts].filter usable)) where
  sound := h.sound
  gathered q c hc := by
    by_cases hq : q = pid
    · subst hq
      obtain rfl := Option.some.inj (hseccb.symm.trans hc)
      rw [update_self, sections_setSection]
      exact hlast
    · have hsame : (r.setSection pid seccb.call last).sections q = r.sections q :=
        update_of_ne hq _ _
      rw [update_of_ne hq, hsame]
      exact h.gathered q c hc
  fresh q call hcall := by
    obtain ⟨t, href, -⟩ := h.sound.inv.holds.exists_refines
    have hserves := href.serves pid hpid
    have hlt : seccb.call < r.adapter.demux.calls := by
      rw [href.calls]
      exact hserves.fresh seccb (hserves.seccb_mem seccb hseccb)
    have hne : call ≠ seccb.call := (hlt.trans_le hcall).ne'
    have hsame : (r.setSection pid seccb.call last).sections q call = r.sections q call := by
      by_cases hq : q = pid
      · subst hq
        simp [Receiver.setSection, hne]
      · simp [Receiver.setSection, hq]
    rw [hsame]
    exact h.fresh q call hcall

/-- The packets of a pid so far, and those of some actions. -/
def extended (hist : ℕ → List TsPacket) (actions : List ReceiverAction) (pid : ℕ) :
    List TsPacket :=
  hist pid ++ (actions.filterMap (ReceiverAction.arrived pid)).filter usable

theorem extended_packet {ts : TsPacket} (hsync : tsByte ts 0 = TS_SYNC) :
    extended hist [.packet ts] =
      update hist (tsPid ts) (hist (tsPid ts) ++ [ts].filter usable) := by
  funext pid
  by_cases hpid : tsPid ts = pid
  · subst hpid
    simp [extended, ReceiverAction.arrived, hsync]
  · simp [extended, ReceiverAction.arrived, hpid, Ne.symm hpid]

/-- A packet gives the adapter sections that it completes. -/
theorem Traced.packet {ts : TsPacket} (h : r.Traced budgetmode opened device hist)
    (heq : r.dvrInputTs ts = some r') :
    ∃ calls, exec Adapter.step r.adapter calls = some r'.adapter ∧
      (∀ action ∈ calls, ∃ pid s pcb, action = .callback pid s pcb ∧ s.Complete ∧
        Gathered (extended hist [.packet ts] pid) s) ∧
      r'.Traced budgetmode opened device (extended hist [.packet ts]) := by
  by_cases hsync : tsByte ts 0 = TS_SYNC
  swap
  · have hsame : extended hist [.packet ts] = hist := by
      funext pid
      simp [extended, ReceiverAction.arrived, hsync]
    rw [dvrInputTs, if_pos hsync] at heq
    obtain rfl := Option.some.inj heq
    exact ⟨[], rfl, by simp, hsame.symm ▸ h⟩
  rw [extended_packet hsync]
  obtain ⟨hnone, hadapter, hsections⟩ |
    ⟨seccb, last, out, hseccb, hloop, hrun, hsections, hsound, hcalls⟩ :=
    dvrInputTs_cases h.sound hsync heq
  · refine ⟨[], congrArg some hadapter.symm, by simp, hadapter ▸ h.sound, ?_, ?_⟩
    · intro q c hc
      rw [row, hadapter] at hc
      rw [hsections]
      have hq : q ≠ tsPid ts := by
        rintro rfl
        cases hnone.symm.trans hc
      rw [update_of_ne hq]
      exact h.gathered q c hc
    · rw [hadapter, hsections]
      exact h.fresh
  · obtain ⟨hlast, hout⟩ := (h.gathered _ seccb hseccb).packet hloop
    refine ⟨_, hrun, fun action hmem => ?_, ?_⟩
    · obtain ⟨s, hs, pcb, rfl⟩ := Adapter.exists_callback_of_mem_deliveries hmem
      obtain ⟨hcomplete, hgath⟩ := hout s hs
      refine ⟨tsPid ts, s, pcb, rfl, hcomplete, ?_⟩
      rwa [update_self]
    · have hset := h.setSection (tsPid_le ts) hseccb hlast
      have hnext := hset.withAdapter hsound hcalls
      exact ⟨hnext.sound, hsections ▸ hnext.gathered, hsections ▸ hnext.fresh⟩

theorem step_of_control {action : ReceiverAction} {call : AdapterAction}
    (h : action.control = some call) :
    call.isCallback = false ∧ (∀ pid, action.arrived pid = none) ∧
      r.step action = (r.adapter.step call).map fun adapter => { r with adapter } := by
  cases action with
  | packet ts => cases h
  | join pnr stream | leave pnr | newprog =>
    obtain rfl := Option.some.inj h
    exact ⟨rfl, fun _ => rfl, rfl⟩

/-- What one action does: the adapter takes it, or it is given sections of the packet. -/
theorem Traced.step {action : ReceiverAction} (h : r.Traced budgetmode opened device hist)
    (heq : r.step action = some r') :
    ∃ calls, exec Adapter.step r.adapter calls = some r'.adapter ∧
      calls.filter (!·.isCallback) = [action].filterMap ReceiverAction.control ∧
      (∀ pid s pcb, .callback pid s pcb ∈ calls →
        s.Complete ∧ Gathered (extended hist [action] pid) s) ∧
      r'.Traced budgetmode opened device (extended hist [action]) := by
  cases hcontrol : action.control with
  | some call =>
    obtain ⟨hcall, harrived, hstep⟩ := step_of_control (r := r) hcontrol
    have hsame : extended hist [action] = hist := by
      funext pid
      simp [extended, harrived]
    rw [hstep] at heq
    obtain ⟨adapter, hadapter, rfl⟩ := Option.map_eq_some_iff.1 heq
    obtain ⟨P, hcalls⟩ := h.sound.exists_calls hcall hadapter
    refine ⟨[call], by rw [exec_cons, hadapter]; rfl, by simp [hcontrol, hcall], ?_,
      hsame.symm ▸ h.withAdapter (h.sound.step hadapter) hcalls⟩
    intro pid s pcb hmem
    obtain rfl := List.mem_singleton.1 hmem
    cases hcall
  | none =>
    cases action with
    | join pnr stream | leave pnr | newprog => cases hcontrol
    | packet ts =>
      obtain ⟨calls, hrun, hcalls, htraced⟩ := h.packet heq
      refine ⟨calls, hrun, ?_, fun pid s pcb hmem => ?_, htraced⟩
      · rw [List.filterMap_cons_none hcontrol, List.filterMap_nil]
        refine List.filter_eq_nil_iff.2 fun call hmem => ?_
        obtain ⟨pid, s, pcb, rfl, -⟩ := hcalls call hmem
        simp [AdapterAction.isCallback]
      · obtain ⟨pid', s', pcb', ⟨⟩, hsection⟩ := hcalls _ hmem
        exact hsection

theorem extended_cons (action : ReceiverAction) :
    extended hist (action :: actions) = extended (extended hist [action]) actions := by
  funext pid
  have hsplit : action :: actions = [action] ++ actions := rfl
  rw [hsplit, extended, List.filterMap_append, List.filter_append, ← List.append_assoc]
  rfl

/-- A run of the receiver is one of its adapter. -/
theorem Traced.run (h : r.Traced budgetmode opened device hist)
    (heq : exec Receiver.step r actions = some r') :
    ∃ calls, exec Adapter.step r.adapter calls = some r'.adapter ∧
      calls.filter (!·.isCallback) = actions.filterMap ReceiverAction.control ∧
      (∀ pid s pcb, .callback pid s pcb ∈ calls →
        s.Complete ∧ ∃ hist', hist' <+: extended hist actions pid ∧ Gathered hist' s) ∧
      r'.adapter.Sound budgetmode opened device := by
  induction actions generalizing r hist with
  | nil =>
    obtain rfl := Option.some.inj heq
    exact ⟨[], rfl, rfl, by simp, h.sound⟩
  | cons action actions ih =>
    obtain ⟨r₁, haction, heq⟩ := exec_cons_eq_some_iff.1 heq
    obtain ⟨calls₁, hrun₁, hcontrol₁, hcalls₁, h₁⟩ := h.step haction
    obtain ⟨calls₂, hrun₂, hcontrol₂, hcalls₂, hsound⟩ := ih h₁ heq
    refine ⟨calls₁ ++ calls₂, ?_, ?_, ?_, hsound⟩
    · rw [exec_append, hrun₁, Option.bind_some, hrun₂]
    · have hsplit : action :: actions = [action] ++ actions := rfl
      rw [List.filter_append, hcontrol₁, hcontrol₂, hsplit, List.filterMap_append]
    · rw [extended_cons]
      intro pid s pcb hmem
      obtain hmem | hmem := List.mem_append.1 hmem
      · obtain ⟨hcomplete, hgath⟩ := hcalls₁ pid s pcb hmem
        exact ⟨hcomplete, _, List.prefix_append _ _, hgath⟩
      · exact hcalls₂ pid s pcb hmem

theorem traced_init : Traced budgetmode opened device (fun _ => [])
    { adapter := { demux := Demux.dvrInit budgetmode opened device } } where
  sound := Adapter.sound_init
  gathered pid seccb hseccb := by cases hseccb
  fresh _ _ _ := rfl

/-- The receiver in the middle of a run. -/
theorem sound_of_exec
    (h : exec step { adapter := { demux := Demux.dvrInit budgetmode opened device } } actions =
      some r) : r.adapter.Sound budgetmode opened device := by
  obtain ⟨-, -, -, -, hsound⟩ := traced_init.run h
  exact hsound

/-- **The adapter takes a run of its own**: what is not a packet happens to it in the same order,
and each section that it is given is whole, has a checksum that is right, and comes from a unit
start and the packets of the same pid that follow it without a gap, whatever else arrives between
them. -/
theorem exists_exec_adapter
    (h : exec step { adapter := { demux := Demux.dvrInit budgetmode opened device } } actions =
      some r) :
    ∃ calls, exec Adapter.step { demux := Demux.dvrInit budgetmode opened device } calls =
        some r.adapter ∧
      calls.filter (!·.isCallback) = actions.filterMap ReceiverAction.control ∧
      ∀ pid s pcb, .callback pid s pcb ∈ calls →
        PSI_HDR_LEN ≤ s.content.length ∧ s.content.length = psiLen s.content ∧
        crcValid s.content = true ∧
        ∃ front first rest back skip,
          (actions.filterMap (ReceiverAction.arrived pid)).filter usable =
            front ++ first :: rest ++ back ∧
          Unbroken first rest ∧ s.content <+: carried first rest skip := by
  obtain ⟨calls, hrun, hcontrol, hcalls, -⟩ := traced_init.run h
  refine ⟨calls, hrun, hcontrol, fun pid s pcb hmem => ?_⟩
  obtain ⟨hcomplete, hist, ⟨back, hback⟩, hgath⟩ := hcalls pid s pcb hmem
  obtain ⟨hheader, hlen, hcrc, front, first, rest, skip, rfl, hunbroken, hcontent⟩ :=
    hgath.content hcomplete
  exact ⟨hheader, hlen, hcrc, front, first, rest, back, skip, hback.symm, hunbroken, hcontent⟩

/-- A packet brings the table, which says where to wait for the one of the program. -/
theorem exists_exec_adapter_patTs : ∃ r calls,
    exec step { adapter := { demux := Demux.dvrInit false true fun _ => true } }
      [.join 1 7, .packet patTs] = some r ∧
    r.adapter.pnrlist.any (·.pmtpid = 0x100) = true ∧
    exec Adapter.step { demux := Demux.dvrInit false true fun _ => true } calls =
      some r.adapter ∧
    calls.filter (!·.isCallback) = [.join 1 7] ∧
    ∀ pid s pcb, .callback pid s pcb ∈ calls →
      PSI_HDR_LEN ≤ s.content.length ∧ s.content.length = psiLen s.content ∧
      crcValid s.content = true ∧
      ∃ front first rest back skip,
        ([ReceiverAction.join 1 7, .packet patTs].filterMap (ReceiverAction.arrived pid)).filter
          usable = front ++ first :: rest ++ back ∧
        Unbroken first rest ∧ s.content <+: carried first rest skip := by
  have hrun : (exec step { adapter := { demux := Demux.dvrInit false true fun _ => true } }
      [.join 1 7, .packet patTs]).any (·.adapter.pnrlist.any (·.pmtpid = 0x100)) = true := by
    decide +kernel
  obtain ⟨r, h, hpmtpid⟩ := (Option.any_eq_true _ _).1 hrun
  obtain ⟨calls, hcalls, hcontrol, hsections⟩ := exists_exec_adapter h
  exact ⟨r, calls, h, hpmtpid, hcalls, hcontrol, hsections⟩

/-- **The loops over the callbacks, which the callbacks change, do what they are for**: a packet is
given to each stream once, and each section in it to each callback once. -/
theorem dvrInputTs_eq_takePacket
    (h : exec step { adapter := { demux := Demux.dvrInit budgetmode opened device } } actions =
      some r) {ts : TsPacket} (hsync : tsByte ts 0 = TS_SYNC) :
    r.dvrInputTs ts = r.takePacket ts := by
  have hvisits : r.Visits budgetmode opened device (tsPid ts) (r.row (tsPid ts)) :=
    ⟨sound_of_exec h, rfl⟩
  exact hvisits.dvrInputTs_eq hsync

/-- The callback for the table adds callbacks for another pid in the middle of the loops. -/
theorem dvrInputTs_eq_takePacket_patTs : ∃ r,
    Receiver.dvrInputTs { adapter := Adapter.joined } patTs = some r ∧
    r.adapter.pnrlist.any (·.pmtpid = 0x100) = true ∧
    Receiver.takePacket { adapter := Adapter.joined } patTs = some r := by
  have hjoin : exec step { adapter := { demux := Demux.dvrInit false true fun _ => true } }
      [.join 1 7] = some { adapter := Adapter.joined } := rfl
  have hsync : tsByte patTs 0 = TS_SYNC := by decide +kernel
  have hrun : (Receiver.dvrInputTs { adapter := Adapter.joined } patTs).any
      (·.adapter.pnrlist.any (·.pmtpid = 0x100)) = true := by decide +kernel
  obtain ⟨r, hr, hpmtpid⟩ := (Option.any_eq_true _ _).1 hrun
  exact ⟨r, hr, hpmtpid, (dvrInputTs_eq_takePacket hjoin hsync).symm.trans hr⟩

end Receiver

end Kalinka.Getstream2
