import Kalinka.App.Dvb.Streamer.Plugin.Getstream2.PmtCalls
import Kalinka.Lib.Walk

/-!
# All packets of an adapter

`dvr_input_ts` gives a packet to the callbacks of its pid, and one of them puts sections together
and gives these to callbacks of its own, which add and delete callbacks while the loops go on.

The loops visit the callbacks that were there at their beginning, each once.  So the adapter takes
a run of its own, with sections that the packets of their pid have carried, however the packets of
other pids and the programs that come and go are interleaved with them.
-/

namespace Kalinka.Getstream2

open Function Run Walk

def TS_SYNC : UInt8 := 0x47

structure Receiver where
  adapter : Adapter
  /-- the section of a pid, known by the call of `dvr_add_pcb` that made it -/
  sections : ℕ → ℕ → PsiSec := fun _ _ => {}
  /-- what the streams have been given -/
  sent : List (ℕ × TsPacket) := []

namespace Receiver

def row (r : Receiver) (pid : ℕ) : DvrPt := r.adapter.demux.pidtable pid

def setSection (r : Receiver) (pid call : ℕ) (s : PsiSec) : Receiver :=
  { r with sections := update r.sections pid (update (r.sections pid) call s) }

/-- A callback for sections. -/
def giveSection (s : PsiSec) (r : Receiver) (pcb : PidCallback) : Option Receiver :=
  (r.adapter.callback s pcb).map fun adapter => { r with adapter }

/-- The loop of `dvr_section_reassemble`, with the callbacks. -/
def reassembleLoop (pid : ℕ) (ts : TsPacket) : ℕ → Receiver → ℕ → Option Receiver
  | 0, _, _ => none
  | fuel + 1, r, off =>
    if off < TS_PACKET_SIZE then do
      let seccb ← (r.row pid).seccb
      let (s, off) ← psiReassemble (r.sections pid seccb.call) ts off
      let r := r.setSection pid seccb.call s
      if off < 0 then some r
      else do
        let r ← walk (fun r => (r.row pid).sectioncallback) (giveSection s) r
        reassembleLoop pid ts fuel r off.toNat
    else some r

/-- A callback for packets; one for sections is never among them. -/
def packetCallback (pid : ℕ) (ts : TsPacket) (r : Receiver) (pcb : PidCallback) :
    Option Receiver :=
  match pcb.callback with
  | .streamSend stream => some { r with sent := r.sent ++ [(stream, ts)] }
  | .dvrSectionReassemble => reassembleLoop pid ts (TS_PACKET_SIZE + 2) r 0
  | _ => none

/-- `dvr_input_ts` -/
def dvrInputTs (r : Receiver) (ts : TsPacket) : Option Receiver :=
  if tsByte ts 0 ≠ TS_SYNC then some r
  else do
    let r ← walk (·.adapter.demux.fullcb) (packetCallback (tsPid ts) ts) r
    walk (fun r => (r.row (tsPid ts)).callback) (packetCallback (tsPid ts) ts) r

end Receiver

/-- What happens to a receiver. -/
inductive ReceiverAction
  /-- `pmt_join_pnr` -/
  | join (pnr stream : ℕ)
  /-- `pmt_leave_pnr` -/
  | leave (pnr : ℕ)
  /-- the plugin has added streams -/
  | newprog
  /-- `dvr_read` finds a packet in its buffer -/
  | packet (ts : TsPacket)

namespace ReceiverAction

/-- What is not a packet happens to the adapter. -/
def control : ReceiverAction → Option AdapterAction
  | .join pnr stream => some (.join pnr stream)
  | .leave pnr => some (.leave pnr)
  | .newprog => some .newprog
  | .packet _ => none

/-- The packet, if it is one of the pid. -/
def arrived (pid : ℕ) : ReceiverAction → Option TsPacket
  | .packet ts => if tsByte ts 0 = TS_SYNC ∧ tsPid ts = pid then some ts else none
  | _ => none

end ReceiverAction

def Receiver.step (r : Receiver) : ReceiverAction → Option Receiver
  | .packet ts => r.dvrInputTs ts
  | .join pnr stream => (r.adapter.pmtJoinPnr pnr stream).map fun adapter => { r with adapter }
  | .leave pnr => (r.adapter.pmtLeavePnr pnr).map fun adapter => { r with adapter }
  | .newprog => (r.adapter.step .newprog).map fun adapter => { r with adapter }

def AdapterAction.isCallback : AdapterAction → Bool
  | .callback _ _ _ => true
  | _ => false

/-! ## The lists -/

namespace Interest

variable {t t' : Interest}

/-- What is added has not been there before. -/
structure Fresh (t : Interest) : Prop where
  nodup : ∀ pid, (t.subs pid).Nodup
  lt : ∀ pid, ∀ pcb ∈ t.subs pid, pcb.call < t.calls

theorem Fresh.step {call : DvrCall} (h : t.Fresh) (hcall : t.step call = some t') : t'.Fresh := by
  obtain ⟨pid, type, callback, rfl, -, rfl⟩ | ⟨pid, pcb, rfl, -, -, rfl⟩ := step_cases hcall
  · refine ⟨fun q => ?_, fun q c hc => ?_⟩
    · by_cases hq : q = pid
      · subst hq
        have hnodup : (t.subs q ++ [(⟨t.calls, type, callback⟩ : PidCallback)]).Nodup :=
          DvrPt.nodup_append (h.nodup q) (h.lt q) rfl
        simpa [add] using hnodup
      · simpa [add, hq] using h.nodup q
    · by_cases hq : q = pid
      · subst hq
        have hc' : c ∈ t.subs q ++ [⟨t.calls, type, callback⟩] := by simpa [add] using hc
        exact DvrPt.fresh_append (h.lt q) rfl c hc'
      · have hc' : c ∈ t.subs q := by simpa [add, hq] using hc
        exact Nat.lt_succ_of_lt (h.lt q c hc')
  · refine ⟨fun q => ?_, fun q c hc => ?_⟩
    · by_cases hq : q = pid
      · subst hq
        simpa [del] using (h.nodup q).erase pcb
      · simpa [del, hq] using h.nodup q
    · by_cases hq : q = pid
      · subst hq
        exact h.lt q c (List.mem_of_mem_erase (by simpa [del] using hc))
      · exact h.lt q c (by simpa [del, hq] using hc)

end Interest

namespace Holds

variable {budgetmode opened : Bool} {device : ℕ → Bool} {a : Demux}
variable {held : ℕ → List PidCallback} {pid : ℕ}

/-- The lists that the loops go along have each callback once. -/
theorem nodup (h : Holds budgetmode opened device a held) (hpid : pid ≤ PID_MAX) :
    (a.pidtable pid).callback.Nodup ∧ (a.pidtable pid).sectioncallback.Nodup := by
  obtain ⟨calls, t, -, ht, ha, -⟩ := h
  obtain ⟨a', ha', href⟩ :=
    exec_simulation Demux.Refines.step (Demux.refines_init budgetmode opened device) ht
  obtain rfl := Option.some.inj (ha'.symm.trans ha)
  have hfresh : t.Fresh := exec_induction Interest.Fresh.step ⟨by simp, by simp⟩ ht
  have hserves := href.serves pid hpid
  refine ⟨hserves.nodup, ?_⟩
  rw [hserves.sections]
  exact (hfresh.nodup pid).filter _

/-- A callback for packets is the one that puts the sections together, or it is for a stream. -/
theorem callback_cases (h : Holds budgetmode opened device a held) (hpid : pid ≤ PID_MAX)
    {pcb : PidCallback} (hpcb : pcb ∈ (a.pidtable pid).callback) :
    (a.pidtable pid).seccb = some pcb ∧ pcb.callback = .dvrSectionReassemble ∨
      ∃ stream, pcb.callback = .streamSend stream := by
  obtain ⟨t, href, hsubs⟩ := h.exists_refines
  by_cases hseccb : (a.pidtable pid).seccb = some pcb
  · exact .inl ⟨hseccb, h.seccb_callback hseccb⟩
  · have hmem : pcb ∈ (t.subs pid).filter (·.type = .ts) := by
      rw [← (href.serves pid hpid).ts]
      exact List.mem_filter.2 ⟨hpcb, decide_eq_true hseccb⟩
    obtain ⟨hsub, htype⟩ := List.mem_filter.1 hmem
    have hsuits := h.suits ((hsubs pid).mem_iff.1 hsub)
    rw [of_decide_eq_true htype] at hsuits
    unfold Callback.Suits at hsuits
    split at hsuits
    next stream hcb => exact .inr ⟨stream, hcb⟩
    next => exact hsuits.elim
    next => cases hsuits
    next => cases hsuits

end Holds

namespace Adapter

variable {budgetmode opened : Bool} {device : ℕ → Bool} {adapter adapter' : Adapter} {pid : ℕ}

/-- Nobody wants all packets. -/
theorem Sound.fullcb (h : adapter.Sound budgetmode opened device) : adapter.demux.fullcb = [] := by
  obtain ⟨t, href, hsubs⟩ := h.inv.holds.exists_refines
  rw [href.full]
  refine List.eq_nil_iff_forall_not_mem.2 fun pcb hpcb => ?_
  obtain hheld | hheld := List.mem_append.1 ((hsubs (PID_MAX + 1)).mem_iff.1 hpcb)
  · obtain ⟨prog, hprog, hheld⟩ := List.mem_flatMap.1 hheld
    have hwired := h.wired.programs prog hprog
    obtain hheld | hheld := List.mem_append.1 hheld
    · unfold Program.pmtHeld at hheld
      split at hheld
      next hpmtpid =>
        have hlt := hwired.pmtpid_lt
        omega
      next => exact List.not_mem_nil hheld
    · have hlt := hwired.served.lt (PID_MAX + 1) (List.ne_nil_of_mem hheld)
      omega
  · exact List.not_mem_nil hheld

theorem calls_pmtJoinPnr {P : ℕ → DvrCb → Prop} {pnr stream : ℕ}
    (hP : adapter.patcbc = none → P 0 .section)
    (heq : adapter.pmtJoinPnr pnr stream = some adapter') :
    Demux.Calls P adapter.demux adapter'.demux := by
  obtain ⟨found, -, heq⟩ := Option.bind_eq_some_iff.1 heq
  obtain ⟨adapter₁, hprog, ⟨⟩⟩ := Option.bind_eq_some_iff.1 heq
  have hnew : (adapter.pmtProgNew pnr found).demux = adapter.demux ∧
      (adapter.pmtProgNew pnr found).patcbc = adapter.patcbc := by
    unfold pmtProgNew
    split <;> exact ⟨rfl, rfl⟩
  obtain ⟨-, hpatcbc, -⟩ := onProgram_eq_some (Q := fun _ => True) (by simp) hprog (by simp)
  have hadded : Demux.Calls P (adapter.pmtProgNew pnr found).demux adapter₁.demux := by
    refine calls_onProgram hprog ?_
    rintro prog - - - a' prog' ⟨⟩
    exact .refl
  have hinit : Demux.Calls P adapter₁.demux adapter₁.patInit.demux := by
    unfold patInit
    split
    · exact .refl
    next hnone =>
      exact Demux.calls_dvrAddPcb (Nat.zero_le _) .patSectionCb
        (hP (hnew.2.symm.trans (hpatcbc.symm.trans hnone)))
  exact (hnew.1 ▸ hadded).trans hinit

theorem Sound.exists_calls {action : AdapterAction} (h : adapter.Sound budgetmode opened device)
    (haction : action.isCallback = false) (heq : adapter.step action = some adapter') :
    ∃ P, Demux.Calls P adapter.demux adapter'.demux := by
  cases action with
  | join pnr stream => exact ⟨fun _ _ => True, calls_pmtJoinPnr (fun _ => trivial) heq⟩
  | leave pnr => exact ⟨_, h.calls_leave heq⟩
  | newprog =>
    obtain rfl := Option.some.inj heq
    exact ⟨fun _ _ => True, .refl⟩
  | callback pid s pcb => cases haction

/-! ## The sections of one packet -/

/-- Sections are given to all callbacks, one section after the other. -/
def deliveries (pid : ℕ) (l : List PidCallback) (out : List PsiSec) : List AdapterAction :=
  out.flatMap fun s => l.map (.callback pid s ·)

theorem exists_callback_of_mem_deliveries {l : List PidCallback} {out : List PsiSec}
    {action : AdapterAction} (h : action ∈ deliveries pid l out) :
    ∃ s ∈ out, ∃ pcb, action = .callback pid s pcb := by
  obtain ⟨s, hs, h⟩ := List.mem_flatMap.1 h
  obtain ⟨pcb, -, rfl⟩ := List.mem_map.1 h
  exact ⟨s, hs, pcb, rfl⟩

theorem callbacks_deliveries (pid : ℕ) (l : List PidCallback) (out : List PsiSec) :
    ∀ action ∈ deliveries pid l out, ∃ s pcb, action = .callback pid s pcb := by
  intro action hmem
  obtain ⟨s, -, pcb, rfl⟩ := exists_callback_of_mem_deliveries hmem
  exact ⟨s, pcb, rfl⟩

theorem deliveries_cons (l : List PidCallback) (s : PsiSec) (out : List PsiSec) :
    deliveries pid l (s :: out) = l.map (.callback pid s ·) ++ deliveries pid l out :=
  List.flatMap_cons

/-- The sections of a pid leave its row as it is. -/
theorem Sound.exec_callbacks {actions : List AdapterAction}
    (h : adapter.Sound budgetmode opened device) (hpid : pid ≤ PID_MAX)
    (hactions : ∀ action ∈ actions, ∃ s pcb, action = .callback pid s pcb)
    (heq : exec Adapter.step adapter actions = some adapter') :
    adapter'.Sound budgetmode opened device ∧
      Demux.Calls (fun q type => q ≠ pid ∧ (q = 0 → type = .ts)) adapter.demux adapter'.demux := by
  refine exec_induction_of_eachStep (I := fun b => b.Sound budgetmode opened device ∧
    Demux.Calls (fun q type => q ≠ pid ∧ (q = 0 → type = .ts)) adapter.demux b.demux) ?_
    ⟨h, .refl⟩ (eachStep_of_forall_mem fun action hmem _ => hactions action hmem) heq
  rintro b action b' ⟨hb, hcalls⟩ ⟨s, pcb, rfl⟩ hstep
  refine ⟨hb.step hstep, hcalls.trans ?_⟩
  obtain ⟨hpcb, hcallback⟩ := Option.ite_none_right_eq_some.1 hstep
  exact hb.calls_callback hpid hpcb hcallback

end Adapter

namespace Receiver

variable {budgetmode opened : Bool} {device : ℕ → Bool} {r r' : Receiver} {pid : ℕ}

/-- The receiver as it is in the loops over the callbacks of a pid. -/
structure Visits (budgetmode opened : Bool) (device : ℕ → Bool) (pid : ℕ) (pt : DvrPt)
    (r : Receiver) : Prop where
  sound : r.adapter.Sound budgetmode opened device
  row : r.row pid = pt

theorem Visits.exec_callbacks {pt : DvrPt} {actions : List AdapterAction} {adapter' : Adapter}
    (h : r.Visits budgetmode opened device pid pt) (hpid : pid ≤ PID_MAX)
    (hactions : ∀ action ∈ actions, ∃ s pcb, action = .callback pid s pcb)
    (heq : exec Adapter.step r.adapter actions = some adapter') :
    Visits budgetmode opened device pid pt { r with adapter := adapter' } := by
  obtain ⟨hsound, hcalls⟩ := h.sound.exec_callbacks hpid hactions heq
  exact ⟨hsound, (hcalls.pidtable_eq fun _ hq => hq.1 rfl).trans h.row⟩

theorem Visits.setSection {pt : DvrPt} (h : r.Visits budgetmode opened device pid pt) (call : ℕ)
    (s : PsiSec) : (r.setSection pid call s).Visits budgetmode opened device pid pt :=
  ⟨h.sound, h.row⟩

theorem setSection_self (pid call : ℕ) : r.setSection pid call (r.sections pid call) = r := by
  rw [Receiver.setSection, update_eq_self, update_eq_self]

theorem sections_setSection (pid call : ℕ) (s : PsiSec) :
    (r.setSection pid call s).sections pid call = s := by
  simp [Receiver.setSection]

theorem setSection_setSection (pid call : ℕ) (s s' : PsiSec) :
    (r.setSection pid call s).setSection pid call s' = r.setSection pid call s' := by
  simp [Receiver.setSection]

/-- A callback of the pid takes a step of the adapter. -/
theorem Visits.giveSection {pt : DvrPt} {s : PsiSec} {pcb : PidCallback}
    (h : r.Visits budgetmode opened device pid pt) (hpcb : pcb ∈ pt.sectioncallback) :
    giveSection s r pcb =
      (r.adapter.step (.callback pid s pcb)).map fun adapter => { r with adapter } := by
  have hmem : pcb ∈ (r.row pid).sectioncallback := by rwa [h.row]
  exact congrArg (Option.map _) (if_pos hmem).symm

theorem Visits.exec_giveSection {pt : DvrPt} {s : PsiSec} {l : List PidCallback}
    (h : r.Visits budgetmode opened device pid pt) (hpid : pid ≤ PID_MAX)
    (hl : ∀ pcb ∈ l, pcb ∈ pt.sectioncallback) :
    exec (Receiver.giveSection s) r l =
      (exec Adapter.step r.adapter (l.map (.callback pid s ·))).map
        fun adapter => { r with adapter } := by
  induction l generalizing r with
  | nil => rfl
  | cons pcb l ih =>
    obtain ⟨hpcb, hl⟩ := List.forall_mem_cons.1 hl
    rw [exec_cons, h.giveSection hpcb, List.map_cons, exec_cons]
    cases hstep : r.adapter.step (.callback pid s pcb) with
    | none => rfl
    | some adapter =>
      have hrun : exec Adapter.step r.adapter [.callback pid s pcb] = some adapter := by
        rw [exec_cons, hstep]
        rfl
      have hnext := h.exec_callbacks hpid (by simp) hrun
      rw [Option.map_some, Option.bind_some, Option.bind_some, ih hnext hl]

/-- The loop over the callbacks for sections visits those that are there at its beginning. -/
theorem Visits.walk_giveSection {pt : DvrPt} {s : PsiSec}
    (h : r.Visits budgetmode opened device pid pt) (hpid : pid ≤ PID_MAX) :
    walk (fun r => (r.row pid).sectioncallback) (Receiver.giveSection s) r =
      (exec Adapter.step r.adapter (pt.sectioncallback.map (.callback pid s ·))).map
        fun adapter => { r with adapter } := by
  have hnodup : pt.sectioncallback.Nodup := h.row ▸ (h.sound.inv.holds.nodup hpid).2
  rw [← h.exec_giveSection hpid fun _ => id]
  refine walk_eq_exec (I := Visits budgetmode opened device pid pt) hnodup
    (fun hs => congrArg DvrPt.sectioncallback hs.row) ?_ h
  intro r pcb r' hr hpcb heq
  rw [hr.giveSection hpcb] at heq
  obtain ⟨adapter, hstep, rfl⟩ := Option.map_eq_some_iff.1 heq
  have hrun : exec Adapter.step r.adapter [.callback pid s pcb] = some adapter := by
    rw [exec_cons, hstep]
    rfl
  exact hr.exec_callbacks hpid (by simp) hrun

/-- The sections of a packet may as well be put together first and given to the callbacks then. -/
theorem Visits.reassembleLoop_eq {pt : DvrPt} {ts : TsPacket} {seccb : PidCallback} {fuel off : ℕ}
    (h : r.Visits budgetmode opened device pid pt) (hpid : pid ≤ PID_MAX)
    (hseccb : pt.seccb = some seccb) :
    reassembleLoop pid ts fuel r off =
      (sectionLoop fuel (r.sections pid seccb.call) ts off).bind fun (last, out) =>
        (exec Adapter.step r.adapter (Adapter.deliveries pid pt.sectioncallback out)).map
          fun adapter => Receiver.setSection { r with adapter } pid seccb.call last := by
  induction fuel generalizing r off with
  | zero => rfl
  | succ fuel ih =>
    have hrow : (r.row pid).seccb = some seccb := by rw [h.row, hseccb]
    unfold reassembleLoop sectionLoop
    by_cases hoff : off < TS_PACKET_SIZE
    swap
    · rw [if_neg hoff, if_neg hoff]
      exact congrArg some (setSection_self pid seccb.call).symm
    rw [if_pos hoff, if_pos hoff, hrow]
    simp only [Option.bind_eq_bind, Option.bind_some]
    cases hstep : psiReassemble (r.sections pid seccb.call) ts off with
    | none => rfl
    | some res =>
      obtain ⟨s, noff⟩ := res
      simp only [Option.bind_some]
      by_cases hneg : noff < 0
      · rw [if_pos hneg, if_pos hneg]
        rfl
      rw [if_neg hneg, if_neg hneg]
      have hvisits := h.setSection seccb.call s
      rw [hvisits.walk_giveSection hpid]
      cases hrun : exec Adapter.step r.adapter (pt.sectioncallback.map (.callback pid s ·)) with
      | none =>
        -- the sections that follow do not matter
        rw [show (r.setSection pid seccb.call s).adapter = r.adapter from rfl, hrun]
        cases sectionLoop fuel s ts noff.toNat with
        | none => rfl
        | some res => simp [Adapter.deliveries_cons, exec_append, hrun]
      | some adapter =>
        rw [show (r.setSection pid seccb.call s).adapter = r.adapter from rfl, hrun]
        have hnext := hvisits.exec_callbacks hpid (by simp) hrun
        rw [Option.map_some, Option.bind_some, ih hnext]
        cases hloop : sectionLoop fuel s ts noff.toNat with
        | none => simp [sections_setSection, hloop]
        | some res =>
          simp only [sections_setSection, hloop, Adapter.deliveries_cons, exec_append, hrun,
            Option.bind_some]
          refine congrArg (Option.map · _) (funext fun b => ?_)
          exact setSection_setSection (r := { r with adapter := b }) pid seccb.call s res.1


/-! ## One packet -/

theorem Visits.packetCallback {pt : DvrPt} {ts : TsPacket} {pcb : PidCallback}
    (h : r.Visits budgetmode opened device pid pt) (hpid : pid ≤ PID_MAX)
    (hpcb : pcb ∈ pt.callback) (heq : packetCallback pid ts r pcb = some r') :
    r'.Visits budgetmode opened device pid pt := by
  have hmem : pcb ∈ (r.row pid).callback := by rwa [h.row]
  unfold Receiver.packetCallback at heq
  obtain ⟨hseccb, hcb⟩ | ⟨stream, hcb⟩ := h.sound.inv.holds.callback_cases hpid hmem
  · rw [hcb] at heq
    dsimp only at heq
    have hseccb' : pt.seccb = some pcb := h.row ▸ hseccb
    rw [h.reassembleLoop_eq hpid hseccb'] at heq
    obtain ⟨⟨last, out⟩, hloop, heq⟩ := Option.bind_eq_some_iff.1 heq
    obtain ⟨adapter, hrun, rfl⟩ := Option.map_eq_some_iff.1 heq
    have hcalls := Adapter.callbacks_deliveries pid pt.sectioncallback out
    exact (h.exec_callbacks hpid hcalls hrun).setSection pcb.call last
  · rw [hcb] at heq
    obtain rfl := Option.some.inj heq
    exact ⟨h.sound, h.row⟩

/-- What the streams among some callbacks are given. -/
def given (ts : TsPacket) (l : List PidCallback) : List (ℕ × TsPacket) :=
  l.filterMap fun pcb =>
    match pcb.callback with
    | .streamSend stream => some (stream, ts)
    | _ => none

theorem exec_streamSend {ts : TsPacket} {l : List PidCallback}
    (hl : ∀ pcb ∈ l, ∃ stream, pcb.callback = .streamSend stream) :
    exec (Receiver.packetCallback pid ts) r l = some { r with sent := r.sent ++ given ts l } := by
  induction l generalizing r with
  | nil => simp [exec, given]
  | cons pcb l ih =>
    obtain ⟨⟨stream, hcb⟩, hl⟩ := List.forall_mem_cons.1 hl
    have hgiven : given ts (pcb :: l) = (stream, ts) :: given ts l := by
      simp [given, hcb]
    rw [exec_cons, Receiver.packetCallback, hcb]
    dsimp only
    rw [Option.bind_some, ih hl, hgiven, List.append_assoc]
    rfl

/-- What a packet is for: the sections in it are put together and given to their callbacks, and the
streams get it, each once. -/
def takePacket (r : Receiver) (ts : TsPacket) : Option Receiver :=
  match (r.row (tsPid ts)).seccb with
  | none => some { r with sent := r.sent ++ given ts (r.row (tsPid ts)).callback }
  | some seccb => do
    let (last, out) ← dvrSectionReassemble (r.sections (tsPid ts) seccb.call) ts
    let adapter ← exec Adapter.step r.adapter
      (Adapter.deliveries (tsPid ts) (r.row (tsPid ts)).sectioncallback out)
    some
      { r.setSection (tsPid ts) seccb.call last with
        adapter, sent := r.sent ++ given ts (r.row (tsPid ts)).callback }

theorem tsPid_le (ts : TsPacket) : tsPid ts ≤ PID_MAX := Nat.and_le_right

/-- The callbacks for packets of a pid, one after the other. -/
theorem Visits.exec_packetCallback {pt : DvrPt} {ts : TsPacket}
    (h : r.Visits budgetmode opened device (tsPid ts) pt) :
    exec (Receiver.packetCallback (tsPid ts) ts) r pt.callback = r.takePacket ts := by
  have hpid := tsPid_le ts
  have hrow : r.row (tsPid ts) = pt := h.row
  have hcases : ∀ pcb ∈ pt.callback, pt.seccb = some pcb ∧ pcb.callback = .dvrSectionReassemble ∨
      ∃ stream, pcb.callback = .streamSend stream := by
    rw [← hrow]
    exact fun pcb => h.sound.inv.holds.callback_cases hpid
  rw [takePacket, hrow]
  cases hseccb : pt.seccb with
  | none =>
    have hstreams : ∀ pcb ∈ pt.callback, ∃ stream, pcb.callback = .streamSend stream := by
      intro pcb hpcb
      refine (hcases pcb hpcb).resolve_left fun hc => ?_
      rw [hseccb] at hc
      cases hc.1
    exact exec_streamSend hstreams
  | some seccb =>
    obtain ⟨t, href, -⟩ := h.sound.inv.holds.exists_refines
    have hserves : pt.Serves (t.subs (tsPid ts)) t.calls := hrow ▸ href.serves (tsPid ts) hpid
    obtain ⟨front, back, hsplit⟩ := List.append_of_mem (hserves.seccb_mem seccb hseccb)
    have hnodup := hserves.nodup
    rw [hsplit] at hcases hnodup ⊢
    obtain ⟨-, hback, hne⟩ := List.nodup_append.1 hnodup
    -- there is only one callback that puts the sections together
    have hfront : ∀ pcb ∈ front, ∃ stream, pcb.callback = .streamSend stream := by
      intro pcb hpcb
      refine (hcases pcb (List.mem_append_left _ hpcb)).resolve_left fun hc => ?_
      rw [hseccb] at hc
      exact hne pcb hpcb seccb List.mem_cons_self (Option.some.inj hc.1).symm
    have hrest : ∀ pcb ∈ back, ∃ stream, pcb.callback = .streamSend stream := by
      intro pcb hpcb
      refine (hcases pcb (List.mem_append_right _ (List.mem_cons_of_mem _ hpcb))).resolve_left
        fun hc => ?_
      rw [hseccb] at hc
      obtain rfl := Option.some.inj hc.1
      exact (List.nodup_cons.1 hback).1 hpcb
    have hcb : seccb.callback = .dvrSectionReassemble :=
      h.sound.inv.holds.seccb_callback (hrow.symm ▸ hseccb)
    have hgiven : given ts (front ++ seccb :: back) = given ts front ++ given ts back := by
      simp [given, hcb]
    have hvisits : Visits budgetmode opened device (tsPid ts) pt
        { r with sent := r.sent ++ given ts front } := ⟨h.sound, h.row⟩
    rw [exec_append, exec_streamSend hfront, Option.bind_some, exec_cons, Receiver.packetCallback,
      hcb, hgiven]
    dsimp only
    rw [hvisits.reassembleLoop_eq hpid hseccb]
    unfold dvrSectionReassemble
    cases sectionLoop (TS_PACKET_SIZE + 2) (r.sections (tsPid ts) seccb.call) ts 0 with
    | none => rfl
    | some res =>
      obtain ⟨last, out⟩ := res
      simp only [Option.bind_eq_bind, Option.bind_some]
      cases exec Adapter.step r.adapter
          (Adapter.deliveries (tsPid ts) pt.sectioncallback out) with
      | none => rfl
      | some adapter =>
        rw [Option.map_some, Option.bind_some, Option.bind_some, exec_streamSend hrest]
        simp only [Receiver.setSection, List.append_assoc]

/-- The loops of `dvr_input_ts` may as well go along the lists as they are at their beginning. -/
theorem Visits.dvrInputTs_eq {ts : TsPacket} {pt : DvrPt}
    (h : r.Visits budgetmode opened device (tsPid ts) pt) (hsync : tsByte ts 0 = TS_SYNC) :
    r.dvrInputTs ts = r.takePacket ts := by
  have hnodup : pt.callback.Nodup := h.row ▸ (h.sound.inv.holds.nodup (tsPid_le ts)).1
  rw [← h.exec_packetCallback, dvrInputTs, if_neg (not_not.2 hsync), walk, h.sound.fullcb]
  refine walk_eq_exec (I := Visits budgetmode opened device (tsPid ts) pt) hnodup
    (fun hs => congrArg DvrPt.callback hs.row) ?_ h
  exact fun hs hpcb heq => hs.packetCallback (tsPid_le ts) hpcb heq

/-- What a packet does: nothing, unless the sections of its pid are put together. -/
theorem dvrInputTs_cases {ts : TsPacket} (h : r.adapter.Sound budgetmode opened device)
    (hsync : tsByte ts 0 = TS_SYNC) (heq : r.dvrInputTs ts = some r') :
    ((r.row (tsPid ts)).seccb = none ∧ r'.adapter = r.adapter ∧ r'.sections = r.sections) ∨
    ∃ seccb last out, (r.row (tsPid ts)).seccb = some seccb ∧
      dvrSectionReassemble (r.sections (tsPid ts) seccb.call) ts = some (last, out) ∧
      exec Adapter.step r.adapter
        (Adapter.deliveries (tsPid ts) (r.row (tsPid ts)).sectioncallback out) = some r'.adapter ∧
      r'.sections = (r.setSection (tsPid ts) seccb.call last).sections ∧
      r'.adapter.Sound budgetmode opened device ∧
      Demux.Calls (fun q type => q ≠ tsPid ts ∧ (q = 0 → type = .ts)) r.adapter.demux
        r'.adapter.demux := by
  have hvisits : r.Visits budgetmode opened device (tsPid ts) (r.row (tsPid ts)) := ⟨h, rfl⟩
  rw [hvisits.dvrInputTs_eq hsync, takePacket] at heq
  split at heq
  next hnone =>
    obtain rfl := Option.some.inj heq
    exact .inl ⟨hnone, rfl, rfl⟩
  next seccb hseccb =>
    obtain ⟨⟨last, out⟩, hloop, heq⟩ := Option.bind_eq_some_iff.1 heq
    obtain ⟨adapter, hrun, heq⟩ := Option.bind_eq_some_iff.1 heq
    obtain rfl := Option.some.inj heq
    have hcallbacks :=
      Adapter.callbacks_deliveries (tsPid ts) (r.row (tsPid ts)).sectioncallback out
    obtain ⟨hsound, hcalls⟩ := h.exec_callbacks (tsPid_le ts) hcallbacks hrun
    exact .inr ⟨seccb, last, out, hseccb, hloop, hrun, rfl, hsound, hcalls⟩

end Receiver

end Kalinka.Getstream2
