import Kalinka.App.Dvb.Streamer.Plugin.Getstream2.PatStream
import Kalinka.App.Dvb.Streamer.Plugin.Getstream2.ReceiverRun

/-!
# The table of a receiver

What an adapter knows of the program association table depends on the packets of the pid 0, on the
first stream that joins and on when the plugin has added streams.  It does not depend on the packets
of other pids, on the programs that come and go, or on the device.

So a stream whose tables arrive among packets of other pids is understood as if they came alone.
-/

namespace Kalinka.Getstream2

open Function Run

/-- What matters to the table. -/
inductive PatEvent
  | join
  | newprog
  | packet (ts : TsPacket)

def ReceiverAction.patEvent : ReceiverAction → Option PatEvent
  | .join _ _ => some .join
  | .leave _ => none
  | .newprog => some .newprog
  | .packet ts => if tsByte ts 0 = TS_SYNC ∧ tsPid ts = 0 then some (.packet ts) else none

/-- The section of the pid 0, as soon as a stream has joined, and the table. -/
structure PatView where
  section_ : Option PsiSec := none
  pat : PatState := {}

namespace PatView

/-- The sections of a packet are given to the table. -/
def packet (v : PatView) (ts : TsPacket) (section_ : PsiSec) : Option PatView := do
  let (last, out) ← dvrSectionReassemble section_ ts
  let pat ← patSections v.pat out
  some { section_ := some last, pat }

def step (v : PatView) : PatEvent → Option PatView
  | .join => some { v with section_ := some (v.section_.getD {}) }
  | .newprog => some { v with pat := { v.pat with klknewprog := true } }
  | .packet ts =>
    match v.section_ with
    | none => some v
    | some section_ => v.packet ts section_

end PatView

/-! ## The adapter -/

namespace Adapter

variable {budgetmode opened : Bool} {device : ℕ → Bool} {adapter adapter' : Adapter} {pid : ℕ}

theorem Sound.mem_sectioncallback_zero (h : adapter.Sound budgetmode opened device)
    {pcb : PidCallback} :
    pcb ∈ (adapter.demux.pidtable 0).sectioncallback ↔ adapter.patcbc = some pcb := by
  rw [h.inv.holds.mem_sectioncallback_iff (Nat.zero_le _)]
  have hpat : adapter.patcbc = some pcb → pcb ∈ adapter.held 0 := by
    intro hpcb
    exact List.mem_append_right _ (by simp [hpcb])
  constructor
  · rintro ⟨hheld, htype⟩
    obtain hheld | hheld := List.mem_append.1 hheld
    · obtain ⟨prog, hprog, hheld⟩ := List.mem_flatMap.1 hheld
      obtain hheld | hheld := List.mem_append.1 hheld
      · simp [Program.pmtHeld] at hheld
      · rw [(h.wired.programs prog hprog).served.ts 0 pcb hheld] at htype
        cases htype
    · simpa using hheld
  · intro hpcb
    have hsuits := h.inv.holds.suits (hpat hpcb)
    rw [h.wired.patcbc pcb hpcb] at hsuits
    exact ⟨hpat hpcb, hsuits⟩

/-- The sections of the pid 0 are given to the callback for the table. -/
theorem Sound.sectioncallback_zero (h : adapter.Sound budgetmode opened device) :
    (adapter.demux.pidtable 0).sectioncallback = adapter.patcbc.toList := by
  have hnodup := (h.inv.holds.nodup (Nat.zero_le _)).2
  have hmem (pcb : PidCallback) : pcb ∈ (adapter.demux.pidtable 0).sectioncallback ↔
      pcb ∈ adapter.patcbc.toList := by
    rw [h.mem_sectioncallback_zero, Option.mem_toList]
  cases hpat : adapter.patcbc with
  | none =>
    rw [hpat] at hmem
    exact List.eq_nil_iff_forall_not_mem.2 fun pcb hpcb => List.not_mem_nil ((hmem pcb).1 hpcb)
  | some pcb =>
    rw [hpat] at hmem
    have hperm := (List.perm_ext_iff_of_nodup hnodup (List.nodup_singleton pcb)).2 hmem
    exact List.perm_singleton.1 hperm

/-- The sections of the pid 0 are put together as soon as a stream has joined. -/
theorem Sound.seccb_zero_isSome (h : adapter.Sound budgetmode opened device) :
    (adapter.demux.pidtable 0).seccb.isSome = adapter.patcbc.isSome := by
  obtain ⟨t, href, -⟩ := h.inv.holds.exists_refines
  have hserves := href.serves 0 (Nat.zero_le _)
  rw [Bool.eq_iff_iff, hserves.seccb_isSome, hserves.secuser, h.sectioncallback_zero]
  cases adapter.patcbc <;> simp

/-- Sections that are given to the callback for the table. -/
theorem Primary.patSections {pcb : PidCallback} {out : List PsiSec} (h : adapter.Primary)
    (hpcb : pcb.callback = .patSectionCb)
    (heq : exec Adapter.step adapter (out.map (.callback 0 · pcb)) = some adapter') :
    patSections adapter.pat out = some adapter'.pat := by
  induction out generalizing adapter with
  | nil => exact congrArg (·.map Adapter.pat) heq
  | cons s out ih =>
    rw [List.map_cons] at heq
    obtain ⟨adapter₁, hstep, heq⟩ := exec_cons_eq_some_iff.1 heq
    have hnext := ih (h.step hstep) heq
    obtain ⟨-, hcallback⟩ := Option.ite_none_right_eq_some.1 hstep
    rw [Adapter.callback, hpcb] at hcallback
    obtain ⟨⟨pat, calls⟩, hpat, hcalls⟩ := Option.bind_eq_some_iff.1 hcallback
    have hprimary : Primary { adapter with pat } := h
    obtain ⟨hsame, -⟩ := views_pidsFromPat hprimary hcalls
    rw [Getstream2.patSections, hpat]
    simpa [hsame] using hnext

/-- The table is changed by its callback only. -/
theorem Primary.pat_step {action : AdapterAction} (h : adapter.Primary)
    (hnew : action ≠ .newprog)
    (hcallback : ∀ pid s pcb, action = .callback pid s pcb → pcb.callback ≠ .patSectionCb)
    (heq : adapter.step action = some adapter') : adapter'.pat = adapter.pat := by
  obtain ⟨hpat, -⟩ | ⟨-, hpat | ⟨hnew', -⟩⟩ | ⟨pid, s, pcb, -, haction, hpcb, -⟩ :=
    views_step h heq
  · exact hpat
  · exact hpat
  · exact absurd hnew' hnew
  · exact absurd hpcb (hcallback pid s pcb haction)

/-- The sections of other pids do not matter to the table. -/
theorem Sound.pat_of_ne {actions : List AdapterAction}
    (h : adapter.Sound budgetmode opened device) (hpid : pid ≤ PID_MAX) (h0 : pid ≠ 0)
    (hactions : ∀ action ∈ actions, ∃ s pcb, action = .callback pid s pcb)
    (heq : exec Adapter.step adapter actions = some adapter') : adapter'.pat = adapter.pat := by
  refine (exec_induction_of_eachStep (I := fun b => b.Sound budgetmode opened device ∧
    b.pat = adapter.pat) ?_ ⟨h, rfl⟩
    (eachStep_of_forall_mem fun action hmem _ => hactions action hmem) heq).2
  rintro b action b' ⟨hb, hpat⟩ ⟨s, pcb, rfl⟩ hstep
  refine ⟨hb.step hstep, Eq.trans ?_ hpat⟩
  refine hb.primary.pat_step (by simp) ?_ hstep
  rintro _ _ _ ⟨⟩ hcb
  obtain ⟨hpcb, -⟩ := Option.ite_none_right_eq_some.1 hstep
  obtain ⟨hzero, -⟩ | ⟨prog, -, -, -, hpmt⟩ := hb.mem_sectioncallback hpid hpcb
  · exact h0 hzero
  · rw [hcb] at hpmt
    cases hpmt

/-- After `pmt_join_pnr` there is a callback for the table. -/
theorem patcbc_pmtJoinPnr {pnr stream : ℕ}
    (heq : adapter.pmtJoinPnr pnr stream = some adapter') : adapter'.patcbc.isSome = true := by
  obtain ⟨found, -, heq⟩ := Option.bind_eq_some_iff.1 heq
  obtain ⟨adapter₁, -, ⟨⟩⟩ := Option.bind_eq_some_iff.1 heq
  unfold patInit
  split
  next pcb hpcb => exact Option.isSome_iff_exists.2 ⟨pcb, hpcb⟩
  next => rfl

end Adapter

/-! ## The receiver -/

namespace Receiver

variable {budgetmode opened : Bool} {device : ℕ → Bool} {r r' : Receiver}
variable {hist : ℕ → List TsPacket} {actions : List ReceiverAction}

/-- The receiver, as far as the table is concerned. -/
def patView (r : Receiver) : PatView where
  section_ := (r.row 0).seccb.map fun seccb => r.sections 0 seccb.call
  pat := r.adapter.pat

theorem patView_congr (hpart : r'.adapter.demux.sectionPart 0 = r.adapter.demux.sectionPart 0)
    (hsections : r'.sections 0 = r.sections 0) (hpat : r'.adapter.pat = r.adapter.pat) :
    r'.patView = r.patView := by
  have hseccb : (r'.row 0).seccb = (r.row 0).seccb := congrArg (·.2.2) hpart
  rw [patView, patView, hseccb, hsections, hpat]

theorem patView_of_seccb {seccb : PidCallback} (h : (r.row 0).seccb = some seccb) :
    r.patView = ⟨some (r.sections 0 seccb.call), r.adapter.pat⟩ := by
  rw [patView, h]
  rfl

theorem Traced.patView_join {pnr stream : ℕ} {adapter : Adapter}
    (h : r.Traced budgetmode opened device hist)
    (heq : r.adapter.pmtJoinPnr pnr stream = some adapter) :
    r.patView.step .join = some (patView { r with adapter }) := by
  have hstep : r.adapter.step (.join pnr stream) = some adapter := heq
  have hsound := h.sound.step hstep
  have hpat : adapter.pat = r.adapter.pat :=
    h.sound.primary.pat_step (by simp) (by simp) hstep
  have hisSome := h.sound.seccb_zero_isSome
  cases hseccb : (r.row 0).seccb with
  | some seccb =>
    -- nothing is added
    have hpatcbc : r.adapter.patcbc ≠ none := by
      intro hnone
      rw [hnone, show (r.adapter.demux.pidtable 0).seccb = some seccb from hseccb] at hisSome
      cases hisSome
    have hcalls : Demux.Calls (fun _ _ => False) r.adapter.demux adapter.demux :=
      Adapter.calls_pmtJoinPnr (fun hnone => hpatcbc hnone) heq
    have hview : patView { r with adapter } = r.patView :=
      patView_congr (hcalls.sectionPart_eq fun _ => False.elim) rfl hpat
    rw [hview, patView_of_seccb hseccb]
    rfl
  | none =>
    have hnew := hsound.seccb_zero_isSome.trans (Adapter.patcbc_pmtJoinPnr heq)
    obtain ⟨seccb, hseccb'⟩ := Option.isSome_iff_exists.1 hnew
    have hcalls : Demux.Calls (fun _ _ => True) r.adapter.demux adapter.demux :=
      Adapter.calls_pmtJoinPnr (fun _ => trivial) heq
    have hfresh : r.sections 0 seccb.call = {} := by
      obtain hold | hcall := hcalls.seccb hseccb'
      · cases hseccb.symm.trans hold
      · exact h.fresh 0 seccb.call hcall
    have hrow : (row { r with adapter } 0).seccb = some seccb := hseccb'
    rw [patView_of_seccb hrow, PatView.step, patView, hseccb]
    exact congrArg some (congrArg₂ PatView.mk (congrArg some hfresh).symm hpat.symm)

/-- The sections of a packet of the pid 0. -/
theorem Traced.patView_packet {ts : TsPacket} (h : r.Traced budgetmode opened device hist)
    (hsync : tsByte ts 0 = TS_SYNC) (h0 : tsPid ts = 0) (heq : r.dvrInputTs ts = some r') :
    r.patView.step (.packet ts) = some r'.patView := by
  have hcases := dvrInputTs_cases h.sound hsync heq
  rw [h0] at hcases
  obtain ⟨hnone, hadapter, hsections⟩ |
    ⟨seccb, last, out, hseccb, hloop, hrun, hsections, -, hcalls⟩ := hcases
  · have hview : r'.patView = r.patView :=
      patView_congr (hadapter ▸ rfl) (hsections ▸ rfl) (hadapter ▸ rfl)
    rw [hview, PatView.step, patView, hnone]
    rfl
  · have hsome := h.sound.seccb_zero_isSome
    rw [show (r.adapter.demux.pidtable 0).seccb = some seccb from hseccb] at hsome
    obtain ⟨pcb, hpcb⟩ := Option.isSome_iff_exists.1 hsome.symm
    have hlist : (r.row 0).sectioncallback = [pcb] := by
      rw [row, h.sound.sectioncallback_zero, hpcb]
      rfl
    have hdeliveries : Adapter.deliveries 0 [pcb] out = out.map (.callback 0 · pcb) :=
      List.map_eq_flatMap.symm
    rw [hlist, hdeliveries] at hrun
    have hpat := h.sound.primary.patSections (h.sound.wired.patcbc pcb hpcb) hrun
    have hseccb' : (r'.row 0).seccb = some seccb := by
      rw [row, hcalls.pidtable_eq fun _ hq => hq.1 rfl]
      exact hseccb
    have hlast : r'.sections 0 seccb.call = last := by
      rw [hsections]
      exact sections_setSection 0 seccb.call last
    rw [patView_of_seccb hseccb', hlast, patView_of_seccb hseccb, PatView.step]
    simp only [PatView.packet, Option.bind_eq_bind]
    rw [hloop, Option.bind_some, hpat, Option.bind_some]

/-- Another packet. -/
theorem Traced.patView_of_ne {ts : TsPacket} (h : r.Traced budgetmode opened device hist)
    (hts : ¬(tsByte ts 0 = TS_SYNC ∧ tsPid ts = 0)) (heq : r.dvrInputTs ts = some r') :
    r'.patView = r.patView := by
  by_cases hsync : tsByte ts 0 = TS_SYNC
  swap
  · rw [dvrInputTs, if_pos hsync] at heq
    exact congrArg patView (Option.some.inj heq).symm
  have h0 : tsPid ts ≠ 0 := fun h0 => hts ⟨hsync, h0⟩
  obtain ⟨-, hadapter, hsections⟩ |
    ⟨seccb, last, out, -, -, hrun, hsections, -, hcalls⟩ := dvrInputTs_cases h.sound hsync heq
  · exact patView_congr (hadapter ▸ rfl) (hsections ▸ rfl) (hadapter ▸ rfl)
  · have hcallbacks :=
      Adapter.callbacks_deliveries (tsPid ts) (r.row (tsPid ts)).sectioncallback out
    have hsections₀ : r'.sections 0 = r.sections 0 := by
      rw [hsections]
      exact update_of_ne h0.symm _ _
    exact patView_congr (hcalls.sectionPart_eq fun _ hq => hq.2 rfl) hsections₀
      (h.sound.pat_of_ne (tsPid_le ts) h0 hcallbacks hrun)

/-- What one action does to the table. -/
theorem Traced.patView_step {action : ReceiverAction} (h : r.Traced budgetmode opened device hist)
    (heq : r.step action = some r') :
    exec PatView.step r.patView ([action].filterMap ReceiverAction.patEvent) = some r'.patView := by
  cases action with
  | join pnr stream =>
    obtain ⟨adapter, hjoin, rfl⟩ := Option.map_eq_some_iff.1 heq
    exact exec_cons_eq_some_iff.2 ⟨_, h.patView_join hjoin, rfl⟩
  | leave pnr =>
    obtain ⟨adapter, hleave, rfl⟩ := Option.map_eq_some_iff.1 heq
    have hstep : r.adapter.step (.leave pnr) = some adapter := hleave
    have hpat : adapter.pat = r.adapter.pat :=
      h.sound.primary.pat_step (by simp) (by simp) hstep
    have hpart := (h.sound.calls_leave hleave).sectionPart_eq fun _ hq => hq rfl
    have hview : patView { r with adapter } = r.patView := patView_congr hpart rfl hpat
    exact congrArg some hview.symm
  | newprog =>
    obtain rfl := Option.some.inj heq
    rfl
  | packet ts =>
    by_cases hts : tsByte ts 0 = TS_SYNC ∧ tsPid ts = 0
    · have hevent : ReceiverAction.patEvent (.packet ts) = some (.packet ts) := if_pos hts
      rw [List.filterMap_cons_some hevent]
      exact exec_cons_eq_some_iff.2 ⟨_, h.patView_packet hts.1 hts.2 heq, rfl⟩
    · have hevent : ReceiverAction.patEvent (.packet ts) = none := if_neg hts
      rw [List.filterMap_cons_none hevent]
      exact congrArg some (h.patView_of_ne hts heq).symm

theorem Traced.patView_run (h : r.Traced budgetmode opened device hist)
    (heq : exec Receiver.step r actions = some r') :
    exec PatView.step r.patView (actions.filterMap ReceiverAction.patEvent) = some r'.patView := by
  induction actions generalizing r hist with
  | nil => exact congrArg (·.map patView) heq
  | cons action actions ih =>
    obtain ⟨r₁, haction, heq⟩ := exec_cons_eq_some_iff.1 heq
    obtain ⟨-, -, -, -, h₁⟩ := h.step haction
    have hsplit : action :: actions = [action] ++ actions := rfl
    rw [hsplit, List.filterMap_append, exec_append, h.patView_step haction, Option.bind_some]
    exact ih h₁ heq

/-- **The table of an adapter is the one that the packets of the pid 0 alone would make**: the
packets of other pids, the programs that come and go and the device do not matter. -/
theorem exec_patView
    (h : exec step { adapter := { demux := Demux.dvrInit budgetmode opened device } } actions =
      some r) :
    exec PatView.step {} (actions.filterMap ReceiverAction.patEvent) = some r.patView :=
  traced_init.patView_run h

/-- A packet of the pid that the table gives, with nothing in it. -/
def emptyTs : TsPacket := Block.ofList TS_PACKET_SIZE [0x47, 0x01, 0x00, 0x10] 0

/-- A packet of another pid arrives, and another program is wanted, before the table comes. -/
theorem exists_exec_joins : ∃ r,
    exec step { adapter := { demux := Demux.dvrInit false true fun _ => true } }
      [.join 1 7, .packet emptyTs, .join 2 8, .packet patTs] = some r := by
  have hrun : (exec step { adapter := { demux := Demux.dvrInit false true fun _ => true } }
      [.join 1 7, .packet emptyTs, .join 2 8, .packet patTs]).isSome = true := by decide +kernel
  exact Option.isSome_iff_exists.1 hrun

theorem of_pid_patTs : tsByte patTs 0 = TS_SYNC ∧ tsPid patTs = 0 := by decide +kernel

theorem of_pid_emptyTs : ¬(tsByte emptyTs 0 = TS_SYNC ∧ tsPid emptyTs = 0) := by decide +kernel

theorem exec_patView_patTs : ∃ r,
    exec step { adapter := { demux := Demux.dvrInit false true fun _ => true } }
      [.join 1 7, .packet emptyTs, .join 2 8, .packet patTs] = some r ∧
    exec PatView.step {} [.join, .join, .packet patTs] = some r.patView := by
  obtain ⟨r, h⟩ := exists_exec_joins
  have hview := exec_patView h
  simp only [List.filterMap, ReceiverAction.patEvent, if_pos of_pid_patTs,
    if_neg of_pid_emptyTs] at hview
  exact ⟨r, h, hview⟩

end Receiver

/-! ## A stream among other packets -/

theorem patSections_append (a : PatState) (xs ys : List PsiSec) :
    patSections a (xs ++ ys) = (patSections a xs).bind (patSections · ys) := by
  induction xs generalizing a with
  | nil => rfl
  | cons s xs ih =>
    rw [List.cons_append, patSections, patSections]
    cases patSectionCb a s with
    | none => rfl
    | some res => exact ih res.1

/-- Once a stream has joined, the packets are put together and their sections are taken. -/
theorem PatView.exec_arrived {actions : List ReceiverAction} {v v' : PatView} {section_ : PsiSec}
    (hsection : v.section_ = some section_) (hnew : ReceiverAction.newprog ∉ actions)
    (heq : exec PatView.step v (actions.filterMap ReceiverAction.patEvent) = some v') :
    ∃ last out, reassembleAll section_ (actions.filterMap (ReceiverAction.arrived 0)) =
        some (last, out) ∧ patSections v.pat out = some v'.pat := by
  induction actions generalizing v section_ with
  | nil =>
    obtain rfl := Option.some.inj heq
    exact ⟨section_, [], rfl, rfl⟩
  | cons action actions ih =>
    have hrest : ReceiverAction.newprog ∉ actions := fun hmem => hnew (List.mem_cons_of_mem _ hmem)
    cases action with
    | newprog => exact absurd List.mem_cons_self hnew
    | leave pnr => exact ih hsection hrest heq
    | join pnr stream =>
      obtain ⟨v₁, hjoin, heq⟩ := exec_cons_eq_some_iff.1 heq
      obtain rfl := Option.some.inj hjoin
      have hjoined : some (v.section_.getD {}) = some section_ := by
        rw [hsection, Option.getD_some]
      exact ih (v := { v with section_ := some (v.section_.getD {}) }) hjoined hrest heq
    | packet ts =>
      by_cases hts : tsByte ts 0 = TS_SYNC ∧ tsPid ts = 0
      · have hevent : ReceiverAction.patEvent (.packet ts) = some (.packet ts) := if_pos hts
        have harrived : ReceiverAction.arrived 0 (.packet ts) = some ts := if_pos hts
        rw [List.filterMap_cons_some hevent] at heq
        obtain ⟨v₁, hpacket, heq⟩ := exec_cons_eq_some_iff.1 heq
        rw [PatView.step, hsection] at hpacket
        obtain ⟨⟨last₁, out₁⟩, hout₁, hpacket⟩ := Option.bind_eq_some_iff.1 hpacket
        obtain ⟨pat₁, hpat₁, ⟨⟩⟩ := Option.bind_eq_some_iff.1 hpacket
        obtain ⟨last, out, hout, hpat⟩ := ih rfl hrest heq
        refine ⟨last, out₁ ++ out, ?_, ?_⟩
        · rw [List.filterMap_cons_some harrived, reassembleAll, hout₁]
          simp only [Option.bind_eq_bind, Option.bind_some]
          rw [hout, Option.bind_some]
        · rw [patSections_append, hpat₁, Option.bind_some, hpat]
      · have hevent : ReceiverAction.patEvent (.packet ts) = none := if_neg hts
        have harrived : ReceiverAction.arrived 0 (.packet ts) = none := if_neg hts
        rw [List.filterMap_cons_none hevent] at heq
        rw [List.filterMap_cons_none harrived]
        exact ih hsection hrest heq

/-- A table of one program goes into one packet. -/
theorem patSend_singleton {pp : PatProg} {cc : ℕ} {ts : TsPacket}
    (h : (patSection [pp] 0 0).any (fun s => psiLen s.data.bytes = 16 ∧
      segmentPacket 0 cc true (s.data.bytes.take 16) = ts) = true) :
    patSend [pp] cc 0 0 = some [ts] := by
  obtain ⟨s, hs, hsent⟩ := (Option.any_eq_true _ _).1 h
  obtain ⟨hlen, hpkt⟩ := of_decide_eq_true hsent
  have hloop : segmentLoop s.data.bytes 16 0 cc 0 16 = [ts] := by
    rw [segmentLoop, ← hpkt]
    rfl
  rw [patSend, hs, Option.bind_eq_bind, Option.bind_some, psiSegmentAndSend, hlen, hloop]
  rfl

/-- A packet with the table of another program. -/
def otherTs (cc : ℕ) : TsPacket := segmentPacket 0 cc true (patBytes [⟨2, 0x200⟩] 0 0)

/-- Three ticks of a stream whose program goes and comes back. -/
theorem streamSendPats_patTs : streamSendPats 15 [[⟨2, 0x200⟩], [⟨1, 0x100⟩], [⟨2, 0x200⟩]] =
    some [otherTs 15, patTs, otherTs 1] := by
  have hfirst : patSend [⟨2, 0x200⟩] 15 0 0 = some [otherTs 15] :=
    patSend_singleton (by decide +kernel)
  have hsecond : patSend [⟨1, 0x100⟩] 0 0 0 = some [patTs] := patSend_singleton (by decide +kernel)
  have hthird : patSend [⟨2, 0x200⟩] 1 0 0 = some [otherTs 1] :=
    patSend_singleton (by decide +kernel)
  simp only [streamSendPats, hfirst, hsecond, hthird, List.length_singleton, Nat.reduceAdd,
    Nat.reduceAnd, Option.bind_eq_bind, Option.bind_some]
  rfl

namespace Receiver

variable {budgetmode opened : Bool} {device : ℕ → Bool} {r : Receiver}
variable {actions : List ReceiverAction}

/-- **A receiver stays with the first table of a stream that arrives in full**, whatever packets of
other pids arrive between those of the stream, whatever joins and leaves, and whatever the device
does, as long as never sixteen packets of the stream in a row are lost and the plugin adds no
streams. -/
theorem current_of_arrived {programs : List (List PatProg)}
    (hfit : ∀ program ∈ programs, Fitting program) {patcc : ℕ} {pkts : List TsPacket}
    (hpkts : streamSendPats patcc programs = some pkts) {flags : List Bool}
    (hlen : flags.length = pkts.length) (hlost : ¬ List.replicate 16 false <:+: flags)
    {pnr stream : ℕ} (hnew : ReceiverAction.newprog ∉ actions)
    (harrived : actions.filterMap (ReceiverAction.arrived 0) = Fragments.arrive flags pkts)
    (h : exec step { adapter := { demux := Demux.dvrInit budgetmode opened device } }
      (.join pnr stream :: actions) = some r) :
    r.adapter.pat.current = (firstInFull programs flags).map received := by
  obtain ⟨secs, hcarries, hwf, hsend⟩ := streamSendPats_eq hfit patcc
  have hpid : 0 < 0x2000 := by decide
  obtain ⟨pkts', hpkts', hflags⟩ := exists_reassembleAll_sendSections hpid patcc hwf
  obtain rfl := Option.some.inj (hpkts'.symm.trans (hsend.symm.trans hpkts))
  obtain ⟨last, out, hout, hcontents⟩ := hflags flags hlen hlost
  obtain ⟨pat, hpat, hcurrent⟩ := exists_patSections_inFull hcarries hfit hcontents
  obtain ⟨v, hjoin, hrun⟩ := exec_cons_eq_some_iff.1 (traced_init.patView_run h)
  obtain rfl := Option.some.inj hjoin
  have hempty : some (Option.getD none {}) = some ({} : PsiSec) := rfl
  obtain ⟨last', out', hout', hpat'⟩ := PatView.exec_arrived hempty hnew hrun
  rw [harrived, hout] at hout'
  obtain ⟨⟨⟩⟩ := hout'
  have hsame : pat = r.adapter.pat := Option.some.inj (hpat.symm.trans hpat')
  exact hsame ▸ hcurrent

/-- The first table is lost, and another program is wanted between the other two. -/
theorem current_of_arrived_patTs : ∃ r,
    exec step { adapter := { demux := Demux.dvrInit false true fun _ => true } }
      [.join 1 7, .packet emptyTs, .packet patTs, .join 2 8, .packet (otherTs 1)] = some r ∧
    r.adapter.pat.current = some (received [⟨1, 0x100⟩]) := by
  have hrun : (exec step { adapter := { demux := Demux.dvrInit false true fun _ => true } }
      [.join 1 7, .packet emptyTs, .packet patTs, .join 2 8, .packet (otherTs 1)]).isSome =
        true := by decide +kernel
  obtain ⟨r, h⟩ := Option.isSome_iff_exists.1 hrun
  have hother : tsByte (otherTs 1) 0 = TS_SYNC ∧ tsPid (otherTs 1) = 0 := by decide +kernel
  have harrived : [ReceiverAction.packet emptyTs, .packet patTs, .join 2 8,
      .packet (otherTs 1)].filterMap (ReceiverAction.arrived 0) =
        Fragments.arrive [false, true, true] [otherTs 15, patTs, otherTs 1] := by
    simp only [List.filterMap, ReceiverAction.arrived, if_pos of_pid_patTs, if_pos hother,
      if_neg of_pid_emptyTs]
    rfl
  have hlost : ¬ List.replicate 16 false <:+: [false, true, true] := by decide
  have hfit : ∀ program ∈ ([[⟨2, 0x200⟩], [⟨1, 0x100⟩], [⟨2, 0x200⟩]] : List (List PatProg)),
      Fitting program := by
    simp [Fitting, PatProg.Fits]
  have hfirst : firstInFull [[⟨2, 0x200⟩], [⟨1, 0x100⟩], [⟨2, 0x200⟩]] [false, true, true] =
      some [⟨1, 0x100⟩] := by decide +kernel
  have hcurrent := current_of_arrived hfit streamSendPats_patTs rfl hlost (by simp) harrived h
  rw [hfirst] at hcurrent
  exact ⟨r, h, hcurrent⟩

end Receiver

end Kalinka.Getstream2
