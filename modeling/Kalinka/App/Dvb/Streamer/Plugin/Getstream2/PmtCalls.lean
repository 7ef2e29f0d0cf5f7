import Kalinka.App.Dvb.Streamer.Plugin.Getstream2.PatTrack

/-!
# The calls of a program

A function of `pmt.c` changes the demultiplexer only by calls of `dvr_add_pcb` and `dvr_del_pcb`.
`Demux.Calls` says which ones: what they are not about stays as it is.

So a callback never changes the lists of the pid whose section it has been given, and the loops of
`dvr_input_ts` and of `dvr_section_reassemble` never lose the element that they are at.
-/

namespace Kalinka.Getstream2

open Function Run

namespace DvrCall

def pid : DvrCall → ℕ
  | .add pid _ _ => pid
  | .del pid _ => pid

def type : DvrCall → DvrCb
  | .add _ type _ => type
  | .del _ pcb => pcb.type

end DvrCall

/-! ## The demultiplexer -/

namespace Demux

variable {a a' a'' : Demux} {P Q : ℕ → DvrCb → Prop} {pid q : ℕ} {pcb : PidCallback}

/-- The tables have been changed by some calls, whose pids and types are known. -/
def Calls (P : ℕ → DvrCb → Prop) (a a' : Demux) : Prop :=
  ∃ calls, (∀ call ∈ calls, P call.pid call.type) ∧ exec Demux.step a calls = some a'

theorem Calls.refl : Calls P a a := ⟨[], by simp, rfl⟩

theorem Calls.trans (h : Calls P a a') (h' : Calls P a' a'') : Calls P a a'' := by
  obtain ⟨calls, hcalls, ha⟩ := h
  obtain ⟨calls', hcalls', ha'⟩ := h'
  refine ⟨calls ++ calls', List.forall_mem_append.2 ⟨hcalls, hcalls'⟩, ?_⟩
  rw [exec_append, ha]
  exact ha'

theorem Calls.mono (h : Calls P a a') (hPQ : ∀ q type, P q type → Q q type) : Calls Q a a' := by
  obtain ⟨calls, hcalls, ha⟩ := h
  exact ⟨calls, fun call hcall => hPQ _ _ (hcalls call hcall), ha⟩

theorem calls_dvrAddPcb (hpid : pid ≤ PID_MAX + 1) {type : DvrCb} (callback : Callback)
    (hP : P pid type) : Calls P a (a.dvrAddPcb pid type callback).1 := by
  refine ⟨[.add pid type callback], List.forall_mem_singleton.2 hP, ?_⟩
  rw [exec_cons, Demux.step, if_pos hpid]
  rfl

theorem calls_dvrDelPcb (hpid : pid ≤ PID_MAX) (hP : P pid pcb.type)
    (h : a.dvrDelPcb pid pcb = some a') : Calls P a a' := by
  refine ⟨[.del pid pcb], List.forall_mem_singleton.2 hP, ?_⟩
  rw [exec_cons, Demux.step, if_pos hpid, h]
  rfl

/-! ## What a call leaves alone -/

theorem pidtable_dmxJoinPid (opened : Bool) :
    (a.dmxJoinPid pid opened).pidtable = a.pidtable := by
  unfold dmxJoinPid
  split_ifs <;> rfl

theorem pidtable_addTs :
    (a.addTs pid pcb).pidtable = update a.pidtable pid
      { a.pidtable pid with callback := (a.pidtable pid).callback ++ [pcb] } := by
  unfold addTs
  by_cases hnil : (a.pidtable pid).callback = []
  · simp [hnil, setPt, pidtable_dmxJoinPid]
  · simp [hnil, setPt]

theorem pidtable_delTs :
    (a.delTs pid pcb).pidtable = update a.pidtable pid
      { a.pidtable pid with callback := (a.pidtable pid).callback.erase pcb } := by
  rw [delTs_eq]

theorem pidtable_setPt_of_ne (hne : q ≠ pid) (pt : DvrPt) :
    (a.setPt pid pt).pidtable q = a.pidtable q := update_of_ne hne _ _

theorem pidtable_addSection_of_ne (hne : q ≠ pid) :
    (a.addSection pid pcb).pidtable q = a.pidtable q := by
  unfold addSection addSeccb
  rw [pidtable_setPt_of_ne hne]
  split
  · rw [pidtable_setPt_of_ne hne, pidtable_addTs, update_of_ne hne]
  · rfl

theorem pidtable_delSection_of_ne (hne : q ≠ pid) (h : a.delSection pid pcb = some a') :
    a'.pidtable q = a.pidtable q := by
  obtain ⟨a₁, hseccb, rfl⟩ := Option.map_eq_some_iff.1 h
  rw [pidtable_setPt_of_ne hne]
  unfold delSeccb at hseccb
  split at hseccb
  · obtain ⟨seccb, -, rfl⟩ := Option.map_eq_some_iff.1 hseccb
    rw [pidtable_setPt_of_ne hne, pidtable_delTs, update_of_ne hne, pidtable_setPt_of_ne hne]
  · rw [← Option.some.inj hseccb, pidtable_setPt_of_ne hne]

theorem pidtable_step_of_ne {call : DvrCall} (hne : q ≠ call.pid) (h : a.step call = some a') :
    a'.pidtable q = a.pidtable q := by
  cases call with
  | add pid type callback =>
    obtain ⟨-, ⟨⟩⟩ := Option.ite_none_right_eq_some.1 h
    unfold dvrAddPcb addPcb
    split
    · rfl
    · cases type with
      | ts => exact (congrFun pidtable_addTs q).trans (update_of_ne hne _ _)
      | «section» => exact pidtable_addSection_of_ne hne
  | del pid pcb =>
    obtain ⟨-, h⟩ := Option.ite_none_right_eq_some.1 h
    have hq : q ≠ pid := hne
    unfold dvrDelPcb at h
    split at h
    · rw [← Option.some.inj h, pidtable_delTs, update_of_ne hq]
    · exact pidtable_delSection_of_ne hq h

/-- The callbacks for sections of a pid, with the callback that puts them together. -/
def sectionPart (a : Demux) (pid : ℕ) : List PidCallback × ℕ × Option PidCallback :=
  ((a.pidtable pid).sectioncallback, (a.pidtable pid).secuser, (a.pidtable pid).seccb)

theorem sectionPart_update {callback : List PidCallback} {table : ℕ → DvrPt}
    (h : table = update a.pidtable pid { a.pidtable pid with callback }) :
    (fun q => ((table q).sectioncallback, (table q).secuser, (table q).seccb)) =
      a.sectionPart := by
  funext q
  by_cases hq : q = pid
  · subst hq
    simp [h, sectionPart]
  · simp [h, hq, sectionPart]

theorem sectionPart_step_of_ts {call : DvrCall} (htype : call.type = .ts)
    (h : a.step call = some a') : a'.sectionPart = a.sectionPart := by
  cases call with
  | add pid type callback =>
    obtain ⟨-, ⟨⟩⟩ := Option.ite_none_right_eq_some.1 h
    obtain rfl : type = .ts := htype
    unfold dvrAddPcb addPcb
    split
    · rfl
    · exact sectionPart_update pidtable_addTs
  | del pid pcb =>
    obtain ⟨-, h⟩ := Option.ite_none_right_eq_some.1 h
    have htype' : pcb.type = .ts := htype
    unfold dvrDelPcb at h
    rw [htype'] at h
    exact Option.some.inj h ▸ sectionPart_update pidtable_delTs

theorem pidtable_setPt_self (pt : DvrPt) : (a.setPt pid pt).pidtable pid = pt := update_self _ _ _

theorem seccb_addSection {seccb : PidCallback}
    (h : ((a.addSection pid pcb).pidtable pid).seccb = some seccb) :
    (a.pidtable pid).seccb = some seccb ∨ seccb = ⟨pcb.call, .ts, .dvrSectionReassemble⟩ := by
  unfold addSection addSeccb at h
  rw [pidtable_setPt_self] at h
  dsimp only at h
  split at h
  · rw [pidtable_setPt_self] at h
    exact .inr (Option.some.inj h).symm
  · exact .inl h

theorem seccb_delSection {seccb : PidCallback} (h : a.delSection pid pcb = some a')
    (hseccb : (a'.pidtable pid).seccb = some seccb) : (a.pidtable pid).seccb = some seccb := by
  obtain ⟨a₁, hdel, rfl⟩ := Option.map_eq_some_iff.1 h
  rw [pidtable_setPt_self] at hseccb
  unfold delSeccb at hdel
  split at hdel
  · obtain ⟨c, -, rfl⟩ := Option.map_eq_some_iff.1 hdel
    rw [pidtable_setPt_self] at hseccb
    cases hseccb
  · obtain rfl := Option.some.inj hdel
    rwa [pidtable_setPt_self] at hseccb

/-- The callback that puts the sections of a pid together stays, is taken away, or is new. -/
theorem seccb_step {call : DvrCall} {seccb : PidCallback} (h : a.step call = some a')
    (hseccb : (a'.pidtable q).seccb = some seccb) :
    (a.pidtable q).seccb = some seccb ∨ seccb = ⟨a.calls, .ts, .dvrSectionReassemble⟩ := by
  by_cases hts : call.type = .ts
  · have hpart : (a'.sectionPart q).2.2 = (a.sectionPart q).2.2 := by
      rw [sectionPart_step_of_ts hts h]
    exact .inl (hpart.symm.trans hseccb)
  by_cases hq : q = call.pid
  swap
  · exact .inl (pidtable_step_of_ne hq h ▸ hseccb)
  subst hq
  cases call with
  | add pid type callback =>
    obtain ⟨-, ⟨⟩⟩ := Option.ite_none_right_eq_some.1 h
    unfold dvrAddPcb addPcb at hseccb
    split at hseccb
    · exact .inl hseccb
    cases type with
    | ts => exact absurd rfl hts
    | «section» => exact seccb_addSection hseccb
  | del pid pcb =>
    obtain ⟨-, h⟩ := Option.ite_none_right_eq_some.1 h
    unfold dvrDelPcb at h
    split at h
    next htype => exact absurd htype hts
    · exact .inl (seccb_delSection h hseccb)

theorem calls_addTs : (a.addTs pid pcb).calls = a.calls := by
  unfold addTs dmxJoinPid
  split_ifs <;> rfl

theorem calls_delTs : (a.delTs pid pcb).calls = a.calls := by rw [delTs_eq]

theorem calls_addPcb : (a.addPcb pid pcb).calls = a.calls := by
  unfold addPcb
  split
  · rfl
  split
  · exact calls_addTs
  · unfold addSection addSeccb
    dsimp only [setPt]
    split
    · exact calls_addTs
    · rfl

theorem calls_dvrDelPcb_eq (h : a.dvrDelPcb pid pcb = some a') : a'.calls = a.calls := by
  unfold dvrDelPcb at h
  split at h
  · exact Option.some.inj h ▸ calls_delTs
  obtain ⟨a₁, hdel, rfl⟩ := Option.map_eq_some_iff.1 h
  change a₁.calls = a.calls
  unfold delSeccb at hdel
  split at hdel
  · obtain ⟨c, -, rfl⟩ := Option.map_eq_some_iff.1 hdel
    exact (calls_delTs (a := a.setPt pid _))
  · exact Option.some.inj hdel ▸ rfl

theorem calls_le_step {call : DvrCall} (h : a.step call = some a') : a.calls ≤ a'.calls := by
  cases call with
  | add pid type callback =>
    obtain ⟨-, ⟨⟩⟩ := Option.ite_none_right_eq_some.1 h
    unfold dvrAddPcb
    rw [calls_addPcb]
    exact Nat.le_succ a.calls
  | del pid pcb => exact (calls_dvrDelPcb_eq (Option.ite_none_right_eq_some.1 h).2).ge

theorem Calls.calls_le (h : Calls P a a') : a.calls ≤ a'.calls := by
  obtain ⟨calls, -, ha⟩ := h
  refine exec_induction (I := fun b => a.calls ≤ b.calls) ?_ le_rfl ha
  exact fun hb hstep => hb.trans (calls_le_step hstep)

/-- A callback that is new has been made by one of the calls. -/
theorem Calls.seccb (h : Calls P a a') {seccb : PidCallback}
    (hseccb : (a'.pidtable q).seccb = some seccb) :
    (a.pidtable q).seccb = some seccb ∨ a.calls ≤ seccb.call := by
  obtain ⟨calls, -, ha⟩ := h
  have hinv : a.calls ≤ a'.calls ∧ ∀ c, (a'.pidtable q).seccb = some c →
      (a.pidtable q).seccb = some c ∨ a.calls ≤ c.call := by
    refine exec_induction (I := fun b => a.calls ≤ b.calls ∧ ∀ c, (b.pidtable q).seccb = some c →
      (a.pidtable q).seccb = some c ∨ a.calls ≤ c.call) ?_ ⟨le_rfl, fun _ => .inl⟩ ha
    rintro b call b' ⟨hle, hb⟩ hstep
    refine ⟨hle.trans (calls_le_step hstep), fun c hc => ?_⟩
    obtain hc | rfl := seccb_step hstep hc
    · exact hb c hc
    · exact .inr hle
  exact hinv.2 seccb hseccb

theorem Calls.pidtable_eq (h : Calls P a a') (hP : ∀ type, ¬P q type) :
    a'.pidtable q = a.pidtable q := by
  obtain ⟨calls, hcalls, ha⟩ := h
  have hok : EachStep Demux.step (fun _ call => q ≠ call.pid) a calls :=
    eachStep_of_forall_mem fun call hcall _ hq => hP _ (hq ▸ hcalls call hcall)
  refine exec_induction_of_eachStep (I := fun b => b.pidtable q = a.pidtable q) ?_ rfl hok ha
  exact fun hb hne hstep => (pidtable_step_of_ne hne hstep).trans hb

theorem Calls.sectionPart_eq (h : Calls P a a') (hP : ∀ type, P q type → type = .ts) :
    a'.sectionPart q = a.sectionPart q := by
  obtain ⟨calls, hcalls, ha⟩ := h
  have hok : EachStep Demux.step (fun _ call => call.pid = q → call.type = .ts) a calls :=
    eachStep_of_forall_mem fun call hcall _ hq => hP _ (hq ▸ hcalls call hcall)
  refine exec_induction_of_eachStep (I := fun b => b.sectionPart q = a.sectionPart q) ?_ rfl hok ha
  intro b call b' hb hts hstep
  rw [← hb]
  by_cases hq : call.pid = q
  · rw [sectionPart_step_of_ts (hts hq) hstep]
  · rw [sectionPart, sectionPart, pidtable_step_of_ne (Ne.symm hq) hstep]

end Demux

/-! ## One program -/

section

variable {a a' : Demux} {prog prog' : Program} {P : ℕ → DvrCb → Prop} {pid : ℕ}

theorem calls_joinStreams (hpid : pid ≤ PID_MAX) (hP : P pid .ts) (pcbl : List ℕ) :
    Demux.Calls P a (joinStreams a pid pcbl).1 := by
  induction pcbl generalizing a with
  | nil => exact .refl
  | cons stream pcbl ih =>
    exact (Demux.calls_dvrAddPcb (Nat.le_succ_of_le hpid) (.streamSend stream) hP).trans ih

theorem calls_leaveCallbacks {cbcl : List PidCallback} (hpid : pid ≤ PID_MAX) (hP : P pid .ts)
    (hcbcl : ∀ cbc ∈ cbcl, cbc.type = .ts) (h : leaveCallbacks a pid cbcl = some a') :
    Demux.Calls P a a' := by
  induction cbcl generalizing a with
  | nil => exact Option.some.inj h ▸ .refl
  | cons cbc cbcl ih =>
    obtain ⟨hcbc, hcbcl⟩ := List.forall_mem_cons.1 hcbcl
    obtain ⟨a₁, hdel, h⟩ := Option.bind_eq_some_iff.1 h
    exact (Demux.calls_dvrDelPcb hpid (hcbc ▸ hP) hdel).trans (ih hcbcl h)

theorem calls_pmtProgJoinPid (hP : P pid .ts) (h : pmtProgJoinPid a prog pid = some (a', prog')) :
    Demux.Calls P a a' := by
  obtain ⟨hpid, ⟨⟩⟩ := Option.ite_none_right_eq_some.1 h
  exact calls_joinStreams hpid.le hP prog.progcbl

theorem calls_pmtProgLeavePid (hserved : prog.Served) (hpid : pid ≤ PID_MAX) (hP : P pid .ts)
    (h : pmtProgLeavePid a prog pid = some (a', prog')) : Demux.Calls P a a' := by
  obtain ⟨a₁, hleave, ⟨⟩⟩ := Option.map_eq_some_iff.1 h
  exact calls_leaveCallbacks hpid hP (hserved.ts pid) hleave

/-- Only a pid that the program does not get is joined. -/
theorem calls_joinNew (hP : prog.pidtable pid = [] → P pid .ts)
    (h : joinNew a prog pid = some (a', prog')) : Demux.Calls P a a' := by
  unfold joinNew at h
  split at h
  · obtain ⟨⟨⟩⟩ := h
    exact .refl
  next hgets => exact calls_pmtProgJoinPid (hP (by simpa [Program.getsPid] using hgets)) h

theorem calls_joinEs {last : Option Pmt} {es : List ℕ} (hserved : prog.Served)
    (hP : ∀ q, prog.pidtable q = [] → P q .ts) (h : joinEs last a prog es = some (a', prog')) :
    Demux.Calls P a a' := by
  induction es generalizing a prog with
  | nil =>
    obtain ⟨⟨⟩⟩ := h
    exact .refl
  | cons pid es ih =>
    obtain ⟨⟨a₁, prog₁⟩, hpid, hes⟩ := Option.bind_eq_some_iff.1 h
    unfold joinEsPid at hpid
    split at hpid
    · obtain ⟨⟨⟩⟩ := hpid
      exact ih hserved hP hes
    · have hturns := turns_joinNew hpid
      refine (calls_joinNew (hP pid) hpid).trans (ih (hturns.served hserved) (fun q hq => ?_) hes)
      refine hP q (by_contra fun hgets => ?_)
      exact (hturns.gets hserved q).2 (.inl hgets) hq

theorem calls_joinPcr {current : Pmt} (hP : ∀ q, prog.pidtable q = [] → P q .ts)
    (h : joinPcr current a prog = some (a', prog')) : Demux.Calls P a a' := by
  unfold joinPcr at h
  split at h
  · exact calls_joinNew (hP _) h
  · obtain ⟨⟨⟩⟩ := h
    exact .refl

/-- Only a pid that is not in use is left. -/
theorem calls_leaveOld {current : Pmt} {pids : List ℕ} (hpids : ∀ pid ∈ pids, pid ≤ PID_MAX)
    (hserved : prog.Served) (hP : ∀ q, current.uses prog q = false → P q .ts)
    (h : leaveOld current a prog pids = some (a', prog')) : Demux.Calls P a a' := by
  induction pids generalizing a prog with
  | nil =>
    obtain ⟨⟨⟩⟩ := h
    exact .refl
  | cons pid pids ih =>
    obtain ⟨hpid, hpids⟩ := List.forall_mem_cons.1 hpids
    obtain ⟨⟨a₁, prog₁⟩, hleave, hrest⟩ := Option.bind_eq_some_iff.1 h
    have hturns := turns_leaveUnused hleave
    have huses (q : ℕ) : current.uses prog₁ q = current.uses prog q := by
      rw [hturns.same]
      rfl
    have hrest' := ih hpids (hturns.served hserved) (fun q hq => hP q (huses q ▸ hq)) hrest
    unfold leaveUnused at hleave
    split at hleave
    next hunused =>
      have hunused' : current.uses prog pid = false := by simpa using hunused.2
      exact (calls_pmtProgLeavePid hserved hpid (hP pid hunused') hleave).trans hrest'
    next =>
      obtain ⟨⟨⟩⟩ := hleave
      exact hrest'

theorem calls_leaveAll {pids : List ℕ} (hpids : ∀ pid ∈ pids, pid ≤ PID_MAX)
    (hserved : prog.Served) (hP : ∀ q, P q .ts) (h : leaveAll a prog pids = some (a', prog')) :
    Demux.Calls P a a' := by
  induction pids generalizing a prog with
  | nil =>
    obtain ⟨⟨⟩⟩ := h
    exact .refl
  | cons pid pids ih =>
    obtain ⟨hpid, hpids⟩ := List.forall_mem_cons.1 hpids
    obtain ⟨⟨a₁, prog₁⟩, hleave, hrest⟩ := Option.bind_eq_some_iff.1 h
    have hserved' := (turns_pmtProgLeavePid hleave).served hserved
    exact (calls_pmtProgLeavePid hserved hpid (hP pid) hleave).trans (ih hpids hserved' hrest)

/-- The calls are for packets, and none is for a pid that is in use and that the program gets. -/
theorem calls_pmtUpdate {current : Pmt} (hserved : prog.Served)
    (h : pmtUpdate a prog current = some (a', prog')) :
    Demux.Calls (fun q type => type = .ts ∧
      (prog.pidtable q = [] ∨ current.uses prog q = false)) a a' := by
  obtain ⟨⟨a₁, prog₁⟩, hes, h⟩ := Option.bind_eq_some_iff.1 h
  obtain ⟨⟨a₂, prog₂⟩, hpcr, hold⟩ := Option.bind_eq_some_iff.1 h
  have hturns₁ := turns_joinEs hes
  have hturns₂ := turns_joinPcr hpcr
  have hserved₁ := hturns₁.served hserved
  have huses (q : ℕ) : current.uses prog₂ q = current.uses prog q := by
    rw [hturns₂.same, hturns₁.same]
    rfl
  have hnew (q : ℕ) (hq : prog₁.pidtable q = []) : prog.pidtable q = [] := by
    by_contra hgets
    exact (hturns₁.gets hserved q).2 (.inl hgets) hq
  refine Demux.Calls.trans (calls_joinEs hserved (fun q hq => ⟨rfl, .inl hq⟩) hes) ?_
  refine Demux.Calls.trans (calls_joinPcr (fun q hq => ⟨rfl, .inl (hnew q hq)⟩) hpcr) ?_
  exact calls_leaveOld (fun _ => le_of_mem_range) (hturns₂.served hserved₁)
    (fun q hq => ⟨rfl, .inr (huses q ▸ hq)⟩) hold

/-- A section for a program makes no call for the pid that it comes from. -/
theorem calls_pmtDvrPmtCb {s : PsiSec} (hserved : prog.Served)
    (h : pmtDvrPmtCb a prog s = some (a', prog')) :
    Demux.Calls (fun q type => type = .ts ∧ (q = prog.pmtpid → prog.pidtable q = [])) a a' := by
  unfold pmtDvrPmtCb at h
  split at h
  · obtain ⟨⟨⟩⟩ := h
    exact .refl
  split at h
  · obtain ⟨⟨⟩⟩ := h
    exact .refl
  split at h
  · obtain ⟨⟨⟩⟩ := h
    exact .refl
  obtain ⟨⟨psi, new⟩, -, h⟩ := Option.bind_eq_some_iff.1 h
  dsimp only at h
  split at h
  · obtain ⟨⟨⟩⟩ := h
    exact .refl
  obtain ⟨pmt, -, h⟩ := Option.bind_eq_some_iff.1 h
  have hserved' :
      Program.Served { prog with psi, pmtlast := prog.pmtcurrent, pmtcurrent := some pmt } :=
    ⟨hserved.streams, hserved.lt, hserved.ts, hserved.first⟩
  refine (calls_pmtUpdate hserved' h).mono fun q type hq => ⟨hq.1, ?_⟩
  rintro rfl
  exact hq.2.resolve_right (by simp [Pmt.uses])

theorem calls_leavePmtPid (hserved : prog.Served) (hlt : prog.pmtpid < PID_MAX)
    (hP : prog.pmtpid ≠ 0 → ∀ type, P prog.pmtpid type)
    (h : leavePmtPid a prog = some (a', prog')) : Demux.Calls P a a' := by
  unfold leavePmtPid at h
  split at h
  next h0 =>
    obtain ⟨pmtpidcb, -, h⟩ := Option.bind_eq_some_iff.1 h
    obtain ⟨a₁, hdel, h⟩ := Option.bind_eq_some_iff.1 h
    exact (Demux.calls_dvrDelPcb hlt.le (hP h0 _) hdel).trans
      (calls_pmtProgLeavePid hserved hlt.le (hP h0 _) h)
  next =>
    obtain ⟨⟨⟩⟩ := h
    exact .refl

theorem calls_joinPmtPid {pmtpid : ℕ} (hP : pmtpid ≠ 0 → ∀ type, P pmtpid type)
    (h : joinPmtPid a prog pmtpid = some (a', prog')) : Demux.Calls P a a' := by
  unfold joinPmtPid at h
  split at h
  next h0 =>
    have hlt : pmtpid < PID_MAX := (Option.ite_none_right_eq_some.1 h).1
    let added := a.dvrAddPcb pmtpid .section (.pmtDvrPmtCb prog.pnr)
    have hjoin : pmtProgJoinPid added.1 { prog with pmtpidcb := some added.2 } pmtpid =
        some (a', prog') := h
    exact (Demux.calls_dvrAddPcb (Nat.le_succ_of_le hlt.le) _ (hP h0 _)).trans
      (calls_pmtProgJoinPid (hP h0 _) hjoin)
  next =>
    obtain ⟨⟨⟩⟩ := h
    exact .refl

/-- A new pid for the table makes no call for the pid of the program association table. -/
theorem calls_programPidfrompat {pmtpid : ℕ} (hserved : prog.Served) (hlt : prog.pmtpid < PID_MAX)
    (h : programPidfrompat a prog pmtpid = some (a', prog')) :
    Demux.Calls (fun q _ => q ≠ 0) a a' := by
  unfold programPidfrompat at h
  split at h
  · obtain ⟨⟨⟩⟩ := h
    exact .refl
  obtain ⟨⟨a₁, prog₁⟩, hleave, h⟩ := Option.bind_eq_some_iff.1 h
  obtain ⟨⟨a₂, prog₂⟩, hjoin, ⟨⟩⟩ := Option.map_eq_some_iff.1 h
  exact (calls_leavePmtPid hserved hlt (fun h0 _ => h0) hleave).trans
    (calls_joinPmtPid (fun h0 _ => h0) hjoin)

/-- A program that goes makes calls for packets, and one for its table. -/
theorem calls_pmtProgDelCb (hserved : prog.Served) (hlt : prog.pmtpid < PID_MAX)
    (h : pmtProgDelCb a prog = some (a', prog')) :
    Demux.Calls (fun q type => type = .ts ∨ q ≠ 0) a a' := by
  unfold pmtProgDelCb at h
  split at h
  next h0 =>
    obtain ⟨⟨a₁, prog₁⟩, hall, h⟩ := Option.bind_eq_some_iff.1 h
    obtain ⟨pmtpidcb, -, h⟩ := Option.bind_eq_some_iff.1 h
    obtain ⟨a₂, hdel, ⟨⟩⟩ := Option.bind_eq_some_iff.1 h
    have hpmtpid := (turns_leaveAll hall).pmtpid
    rw [hpmtpid] at hdel
    exact (calls_leaveAll (fun _ => le_of_mem_range) hserved (fun _ => .inl rfl) hall).trans
      (Demux.calls_dvrDelPcb hlt.le (.inr h0) hdel)
  next =>
    obtain ⟨⟨⟩⟩ := h
    exact .refl

end

/-! ## What the demultiplexer has -/

namespace Holds

variable {budgetmode opened : Bool} {device : ℕ → Bool} {a : Demux}
variable {held : ℕ → List PidCallback} {pid : ℕ} {pcb : PidCallback}

theorem suits (h : Holds budgetmode opened device a held) (hpcb : pcb ∈ held pid) :
    pcb.callback.Suits pcb.type := by
  obtain ⟨calls, t, hcalls, ht, -, hsubs⟩ := h
  have hok : EachStep Interest.step (fun _ call => call.Ordinary) { device } calls :=
    eachStep_of_forall_mem fun call hcall _ => hcalls call hcall
  have hinv : ∀ pid, ∀ pcb ∈ t.subs pid, pcb.callback.Suits pcb.type := by
    refine exec_induction_of_eachStep
      (I := fun t => ∀ pid, ∀ pcb ∈ t.subs pid, pcb.callback.Suits pcb.type) ?_ (by simp) hok ht
    intro t call t' hall hordinary hstep q c hc
    obtain ⟨pid, type, callback, rfl, -, rfl⟩ | ⟨pid, pcb, rfl, -, -, rfl⟩ :=
      Interest.step_cases hstep
    all_goals by_cases hq : q = pid
    · subst hq
      have hc' : c ∈ t.subs q ++ [⟨t.calls, type, callback⟩] := by
        simpa only [Interest.add, update_self] using hc
      obtain hc | hc := List.mem_append.1 hc'
      · exact hall q c hc
      · obtain rfl := List.mem_singleton.1 hc
        exact hordinary
    · exact hall q c (by simpa [Interest.add, hq] using hc)
    · subst hq
      exact hall q c (List.mem_of_mem_erase (by simpa [Interest.del] using hc))
    · exact hall q c (by simpa [Interest.del, hq] using hc)
  exact hinv pid pcb ((hsubs pid).mem_iff.2 hpcb)

theorem seccb_callback (h : Holds budgetmode opened device a held) {seccb : PidCallback}
    (hseccb : (a.pidtable pid).seccb = some seccb) : seccb.callback = .dvrSectionReassemble := by
  obtain ⟨calls, t, -, -, ha, -⟩ := h
  refine exec_induction (I := fun a => ∀ pid seccb, (a.pidtable pid).seccb = some seccb →
    seccb.callback = .dvrSectionReassemble) ?_ ?_ ha pid seccb hseccb
  · intro a call a' hall hstep q c hc
    obtain hc | rfl := Demux.seccb_step hstep hc
    · exact hall q c hc
    · rfl
  · simp [Demux.dvrInit]

theorem mem_sectioncallback_iff (h : Holds budgetmode opened device a held) (hpid : pid ≤ PID_MAX) :
    pcb ∈ (a.pidtable pid).sectioncallback ↔ pcb ∈ held pid ∧ pcb.type = .section := by
  obtain ⟨t, href, hsubs⟩ := h.exists_refines
  rw [(href.serves pid hpid).sections, List.mem_filter, (hsubs pid).mem_iff, decide_eq_true_iff]

end Holds

/-! ## All programs -/

namespace Program

/-- What a program remembers is its own, and it gets the packets with its table. -/
structure Wired (prog : Program) : Prop where
  served : prog.Served
  pmtpidcb : ∀ pcb, prog.pmtpidcb = some pcb → pcb.callback = .pmtDvrPmtCb prog.pnr
  pmtpid_lt : prog.pmtpid < PID_MAX
  gets : prog.freed = false → prog.pmtpid ≠ 0 → prog.pidtable prog.pmtpid ≠ []

variable {a a' : Demux} {prog prog' : Program}

theorem wired_new (pnr stream : ℕ) : Wired { pnr, progcbl := [stream] } where
  served := (follows_new pnr stream).served
  pmtpidcb := by simp
  pmtpid_lt := (by decide : 0 < PID_MAX)
  gets := by simp

theorem Wired.join (h : prog.Wired) (stream : ℕ) :
    Wired { prog with progcbl := prog.progcbl ++ [stream] } where
  served := by
    refine ⟨by simp, h.served.lt, h.served.ts, fun pid stream' hpid hstream => ?_⟩
    rw [List.head?_append_of_ne_nil _ h.served.streams] at hstream
    exact h.served.first pid stream' hpid hstream
  pmtpidcb := h.pmtpidcb
  pmtpid_lt := h.pmtpid_lt
  gets := h.gets

theorem Wired.pmtDvrPmtCb (h : prog.Wired) {s : PsiSec}
    (heq : pmtDvrPmtCb a prog s = some (a', prog')) : prog'.Wired := by
  unfold Getstream2.pmtDvrPmtCb at heq
  split at heq
  · obtain ⟨⟨⟩⟩ := heq
    exact h
  split at heq
  · obtain ⟨⟨⟩⟩ := heq
    exact h
  split at heq
  · obtain ⟨⟨⟩⟩ := heq
    exact h
  obtain ⟨⟨psi, new⟩, -, heq⟩ := Option.bind_eq_some_iff.1 heq
  dsimp only at heq
  split at heq
  · obtain ⟨⟨⟩⟩ := heq
    exact h
  obtain ⟨pmt, -, heq⟩ := Option.bind_eq_some_iff.1 heq
  have hturns := turns_pmtUpdate heq
  have hserved :
      Served { prog with psi, pmtlast := prog.pmtcurrent, pmtcurrent := some pmt } :=
    ⟨h.served.streams, h.served.lt, h.served.ts, h.served.first⟩
  refine ⟨hturns.served hserved, ?_, hturns.pmtpid ▸ h.pmtpid_lt, fun hfreed h0 => ?_⟩
  · rw [hturns.same]
    exact h.pmtpidcb
  · rw [hturns.freed] at hfreed
    rw [hturns.pmtpid] at h0 ⊢
    exact (hturns.gets hserved _).2 ⟨.inl (.inl (h.gets hfreed h0)), by simp [Pmt.uses]⟩

theorem Wired.programPidfrompat (h : prog.Wired) {pmtpid : ℕ}
    (heq : programPidfrompat a prog pmtpid = some (a', prog')) : prog'.Wired := by
  unfold Getstream2.programPidfrompat at heq
  split at heq
  · obtain ⟨⟨⟩⟩ := heq
    exact h
  obtain ⟨⟨a₁, prog₁⟩, hleave, heq⟩ := Option.bind_eq_some_iff.1 heq
  obtain ⟨⟨a₂, prog₂⟩, hjoin, ⟨⟩⟩ := Option.map_eq_some_iff.1 heq
  have hleave := turns_leavePmtPid hleave
  have hserved₁ := hleave.served h.served
  have hcb₁ : ∀ pcb, prog₁.pmtpidcb = some pcb → pcb.callback = .pmtDvrPmtCb prog₁.pnr := by
    rw [hleave.same]
    exact h.pmtpidcb
  have hcb₂ : ∀ pcb, prog₂.pmtpidcb = some pcb → pcb.callback = .pmtDvrPmtCb prog₁.pnr := by
    unfold joinPmtPid at hjoin
    split at hjoin
    · obtain ⟨-, ⟨⟩⟩ := Option.ite_none_right_eq_some.1 hjoin
      rintro pcb ⟨⟩
      rfl
    · obtain ⟨⟨⟩⟩ := hjoin
      exact hcb₁
  have hlt : pmtpid < PID_MAX := by
    unfold joinPmtPid at hjoin
    split at hjoin
    · exact (Option.ite_none_right_eq_some.1 hjoin).1
    next h0 =>
      rw [not_not.1 h0]
      decide
  have hjoin := turns_joinPmtPid hjoin
  have hserved₁' : Served { prog₁ with pmtpidcb := prog₂.pmtpidcb } :=
    ⟨hserved₁.streams, hserved₁.lt, hserved₁.ts, hserved₁.first⟩
  have hserved₂ := hjoin.served hserved₁'
  refine ⟨⟨hserved₂.streams, hserved₂.lt, hserved₂.ts, hserved₂.first⟩, ?_, hlt, fun _ h0 => ?_⟩
  · rw [hjoin.pnr_progcbl.1]
    exact hcb₂
  · exact (hjoin.gets hserved₁' pmtpid).2 (.inr ⟨h0, rfl⟩)

theorem Wired.pmtProgDelCb (h : prog.Wired) (heq : pmtProgDelCb a prog = some (a', prog')) :
    Wired { prog' with freed := true } := by
  unfold Getstream2.pmtProgDelCb at heq
  split at heq
  · obtain ⟨⟨a₁, prog₁⟩, hall, heq⟩ := Option.bind_eq_some_iff.1 heq
    obtain ⟨pmtpidcb, -, heq⟩ := Option.bind_eq_some_iff.1 heq
    obtain ⟨a₂, -, ⟨⟩⟩ := Option.bind_eq_some_iff.1 heq
    have hturns := turns_leaveAll hall
    have hserved := hturns.served h.served
    exact ⟨⟨hserved.streams, hserved.lt, hserved.ts, hserved.first⟩, by simp,
      hturns.pmtpid ▸ h.pmtpid_lt, by simp⟩
  · obtain ⟨⟨⟩⟩ := heq
    exact ⟨⟨h.served.streams, h.served.lt, h.served.ts, h.served.first⟩, h.pmtpidcb,
      h.pmtpid_lt, by simp⟩

end Program

namespace Adapter

variable {adapter adapter' : Adapter} {budgetmode opened : Bool} {device : ℕ → Bool}

/-- One program has changed, and nothing but it and the demultiplexer. -/
theorem onProgram_eq_some {Q : Program → Prop} {pnr : ℕ}
    {f : Demux → Program → Option (Demux × Program)} (h : ∀ prog ∈ adapter.pnrlist, Q prog)
    (heq : adapter.onProgram pnr f = some adapter')
    (hf : ∀ a prog a' prog', Q prog → f a prog = some (a', prog') → Q prog') :
    (∀ prog ∈ adapter'.pnrlist, Q prog) ∧ adapter'.patcbc = adapter.patcbc ∧
      ∃ prog ∈ adapter.pnrlist, prog.pnr = pnr ∧ prog.freed = false ∧
        ∃ prog', f adapter.demux prog = some (adapter'.demux, prog') := by
  obtain ⟨⟨demux, pnrlist⟩, hwith, ⟨⟩⟩ := Option.map_eq_some_iff.1 heq
  obtain ⟨front, prog, prog', back, hpl, rfl, -, hpnr, hfreed, hprog⟩ := withProgram_eq_some hwith
  rw [hpl] at h
  obtain ⟨hfront, hmid⟩ := List.forall_mem_append.1 h
  obtain ⟨hmid, hback⟩ := List.forall_mem_cons.1 hmid
  refine ⟨List.forall_mem_append.2 ⟨hfront, List.forall_mem_cons.2 ⟨hf _ _ _ _ hmid hprog, hback⟩⟩,
    rfl, prog, by simp [hpl], hpnr, hfreed, prog', hprog⟩

/-- All programs are wired, and so is the adapter. -/
structure Wired (adapter : Adapter) : Prop where
  programs : ∀ prog ∈ adapter.pnrlist, prog.Wired
  patcbc : ∀ pcb, adapter.patcbc = some pcb → pcb.callback = .patSectionCb

theorem Wired.onProgram {pnr : ℕ} {f : Demux → Program → Option (Demux × Program)}
    (h : adapter.Wired) (heq : adapter.onProgram pnr f = some adapter')
    (hf : ∀ a prog a' prog', prog.Wired → f a prog = some (a', prog') → prog'.Wired) :
    adapter'.Wired := by
  obtain ⟨hprograms, hpatcbc, -⟩ := onProgram_eq_some h.programs heq hf
  exact ⟨hprograms, hpatcbc ▸ h.patcbc⟩

theorem Wired.pmtPidfrompat {pnr pmtpid : ℕ} (h : adapter.Wired)
    (heq : adapter.pmtPidfrompat pnr pmtpid = some adapter') : adapter'.Wired := by
  obtain ⟨found, -, heq⟩ := Option.bind_eq_some_iff.1 heq
  cases found with
  | false => exact Option.some.inj heq ▸ h
  | true => exact h.onProgram heq fun _ _ _ _ hprog hcall => hprog.programPidfrompat hcall

theorem Wired.pidsFromPat {calls : List (ℕ × ℕ)} (h : adapter.Wired)
    (heq : adapter.pidsFromPat calls = some adapter') : adapter'.Wired := by
  induction calls generalizing adapter with
  | nil => exact Option.some.inj heq ▸ h
  | cons call calls ih =>
    obtain ⟨adapter₁, hcall, hcalls⟩ := Option.bind_eq_some_iff.1 heq
    exact ih (h.pmtPidfrompat hcall) hcalls

theorem Wired.patInit (h : adapter.Wired) : adapter.patInit.Wired := by
  unfold Adapter.patInit
  split
  · exact h
  · refine ⟨h.programs, ?_⟩
    rintro pcb ⟨⟩
    rfl

theorem Wired.pmtJoinPnr {pnr stream : ℕ} (h : adapter.Wired)
    (heq : adapter.pmtJoinPnr pnr stream = some adapter') : adapter'.Wired := by
  obtain ⟨found, hfound, heq⟩ := Option.bind_eq_some_iff.1 heq
  obtain ⟨adapter₁, hprog, ⟨⟩⟩ := Option.bind_eq_some_iff.1 heq
  refine Wired.patInit ?_
  cases found with
  | true =>
    refine h.onProgram hprog ?_
    rintro a prog a' prog' hwired ⟨⟩
    exact hwired.join stream
  | false =>
    have hpl := pnr_ne_of_pmtProgFromPnr hfound
    obtain ⟨⟨demux, pnrlist⟩, hwith, ⟨⟩⟩ := Option.map_eq_some_iff.1 hprog
    rw [show (adapter.pmtProgNew pnr false).pnrlist = adapter.pnrlist ++ [{ pnr }] from rfl,
      withProgram_concat hpl rfl rfl] at hwith
    obtain ⟨⟨⟩⟩ := hwith
    exact ⟨List.forall_mem_append.2
      ⟨h.programs, List.forall_mem_singleton.2 (Program.wired_new pnr stream)⟩, h.patcbc⟩

theorem Wired.callback {s : PsiSec} {pcb : PidCallback} (h : adapter.Wired)
    (heq : adapter.callback s pcb = some adapter') : adapter'.Wired := by
  unfold Adapter.callback at heq
  split at heq
  · obtain ⟨⟨pat, calls⟩, -, hcalls⟩ := Option.bind_eq_some_iff.1 heq
    have hwired : Wired { adapter with pat } := ⟨h.programs, h.patcbc⟩
    exact hwired.pidsFromPat hcalls
  · exact h.onProgram heq fun _ _ _ _ hprog hcb => hprog.pmtDvrPmtCb hcb
  · exact Option.some.inj heq ▸ h

theorem Wired.step {action : AdapterAction} (h : adapter.Wired)
    (heq : adapter.step action = some adapter') : adapter'.Wired := by
  cases action with
  | join pnr stream => exact h.pmtJoinPnr heq
  | leave pnr =>
    obtain ⟨found, -, heq⟩ := Option.bind_eq_some_iff.1 heq
    cases found with
    | false => exact Option.some.inj heq ▸ h
    | true =>
      refine h.onProgram heq fun a prog a' prog' hprog hleave => ?_
      obtain ⟨⟨a₁, prog₁⟩, hdel, ⟨⟩⟩ := Option.bind_eq_some_iff.1 hleave
      exact hprog.pmtProgDelCb hdel
  | newprog => exact Option.some.inj heq ▸ ⟨h.programs, h.patcbc⟩
  | callback pid s pcb => exact h.callback (Option.ite_none_right_eq_some.1 heq).2

/-- What holds of an adapter in every run. -/
structure Sound (budgetmode opened : Bool) (device : ℕ → Bool) (adapter : Adapter) : Prop where
  inv : adapter.Inv budgetmode opened device
  primary : adapter.Primary
  wired : adapter.Wired

theorem sound_init :
    Sound budgetmode opened device { demux := Demux.dvrInit budgetmode opened device } where
  inv := inv_of_exec (show exec Adapter.step _ [] = some _ from rfl)
  primary := by simp [Primary, views]
  wired := ⟨by simp, by simp⟩

theorem Sound.step {action : AdapterAction} (h : adapter.Sound budgetmode opened device)
    (heq : adapter.step action = some adapter') : adapter'.Sound budgetmode opened device :=
  ⟨h.inv.step heq, h.primary.step heq, h.wired.step heq⟩

theorem calls_onProgram {pnr : ℕ} {f : Demux → Program → Option (Demux × Program)}
    {P : ℕ → DvrCb → Prop} (heq : adapter.onProgram pnr f = some adapter')
    (hf : ∀ prog ∈ adapter.pnrlist, prog.pnr = pnr → prog.freed = false → ∀ a' prog',
      f adapter.demux prog = some (a', prog') → Demux.Calls P adapter.demux a') :
    Demux.Calls P adapter.demux adapter'.demux := by
  obtain ⟨-, -, prog, hprog, hpnr, hfreed, prog', hcall⟩ :=
    onProgram_eq_some (Q := fun _ => True) (by simp) heq (by simp)
  exact hf prog hprog hpnr hfreed _ prog' hcall

theorem calls_pidsFromPat {calls : List (ℕ × ℕ)} (hinv : adapter.Inv budgetmode opened device)
    (hwired : adapter.Wired) (heq : adapter.pidsFromPat calls = some adapter') :
    Demux.Calls (fun q _ => q ≠ 0) adapter.demux adapter'.demux := by
  induction calls generalizing adapter with
  | nil => exact Option.some.inj heq ▸ .refl
  | cons call calls ih =>
    obtain ⟨adapter₁, hcall, hcalls⟩ := Option.bind_eq_some_iff.1 heq
    have hinv₁ : adapter₁.Inv budgetmode opened device := by
      have hone : adapter.pidsFromPat [call] = some adapter₁ := by
        rw [Adapter.pidsFromPat, hcall]
        rfl
      exact hinv.pidsFromPat hone
    refine Demux.Calls.trans ?_ (ih hinv₁ (hwired.pmtPidfrompat hcall) hcalls)
    obtain ⟨found, -, hcall⟩ := Option.bind_eq_some_iff.1 hcall
    cases found with
    | false => exact Option.some.inj hcall ▸ .refl
    | true =>
      refine calls_onProgram hcall fun prog hprog _ hfreed a' prog' hpid => ?_
      exact calls_programPidfrompat (hwired.programs prog hprog).served
        (hinv.ok prog hprog hfreed).pmtpid_lt hpid

/-- A callback for sections is the one of the adapter, or the one of a program. -/
theorem Sound.mem_sectioncallback (h : adapter.Sound budgetmode opened device) {pid : ℕ}
    (hpid : pid ≤ PID_MAX) {pcb : PidCallback}
    (hpcb : pcb ∈ (adapter.demux.pidtable pid).sectioncallback) :
    pid = 0 ∧ pcb.callback = .patSectionCb ∨
      ∃ prog ∈ adapter.pnrlist, prog.pmtpid = pid ∧ pid ≠ 0 ∧
        pcb.callback = .pmtDvrPmtCb prog.pnr := by
  obtain ⟨hheld, htype⟩ := (h.inv.holds.mem_sectioncallback_iff hpid).1 hpcb
  obtain hheld | hheld := List.mem_append.1 hheld
  · obtain ⟨prog, hprog, hheld⟩ := List.mem_flatMap.1 hheld
    have hwired := h.wired.programs prog hprog
    obtain hheld | hheld := List.mem_append.1 hheld
    · unfold Program.pmtHeld at hheld
      split at hheld
      next hpmtpid =>
        exact .inr ⟨prog, hprog, hpmtpid.1, hpmtpid.2,
          hwired.pmtpidcb pcb (Option.mem_toList.1 hheld)⟩
      next => exact absurd hheld List.not_mem_nil
    · rw [hwired.served.ts pid pcb hheld] at htype
      cases htype
  · split at hheld
    next h0 => exact .inl ⟨h0, h.wired.patcbc pcb (Option.mem_toList.1 hheld)⟩
    next => exact absurd hheld List.not_mem_nil

/-- A callback makes no call for the pid whose section it has been given. -/
theorem Sound.calls_callback (h : adapter.Sound budgetmode opened device) {pid : ℕ}
    (hpid : pid ≤ PID_MAX) {s : PsiSec} {pcb : PidCallback}
    (hpcb : pcb ∈ (adapter.demux.pidtable pid).sectioncallback)
    (heq : adapter.callback s pcb = some adapter') :
    Demux.Calls (fun q type => q ≠ pid ∧ (q = 0 → type = .ts)) adapter.demux adapter'.demux := by
  unfold Adapter.callback at heq
  obtain ⟨rfl, hcb⟩ | ⟨prog, hprog, rfl, h0, hcb⟩ := h.mem_sectioncallback hpid hpcb
  · rw [hcb] at heq
    obtain ⟨⟨pat, calls⟩, -, hcalls⟩ := Option.bind_eq_some_iff.1 heq
    have hinv : Inv budgetmode opened device { adapter with pat } := ⟨h.inv.ok, h.inv.holds⟩
    have hwired : Wired { adapter with pat } := ⟨h.wired.programs, h.wired.patcbc⟩
    exact (calls_pidsFromPat hinv hwired hcalls).mono fun q _ hq => ⟨hq, fun hq' => absurd hq' hq⟩
  · rw [hcb] at heq
    refine calls_onProgram heq fun prog' hprog' hpnr hfreed a' prog'' hcall => ?_
    -- there is only one program with the number
    have hview : prog'.view = prog.view := by
      refine List.inj_on_of_nodup_map h.primary (List.mem_map_of_mem hprog')
        (List.mem_map_of_mem hprog) hpnr
    have hpmtpid : prog'.pmtpid = prog.pmtpid := congrArg ProgramView.pmtpid hview
    have hwired := h.wired.programs prog' hprog'
    refine (calls_pmtDvrPmtCb hwired.served hcall).mono fun q type hq => ⟨?_, fun _ => hq.1⟩
    rintro rfl
    exact hwired.gets hfreed (hpmtpid ▸ h0) (hpmtpid ▸ hq.2 hpmtpid.symm)

/-- A program that goes makes no call for the sections of the pid 0. -/
theorem Sound.calls_leave (h : adapter.Sound budgetmode opened device) {pnr : ℕ}
    (heq : adapter.pmtLeavePnr pnr = some adapter') :
    Demux.Calls (fun q type => q = 0 → type = .ts) adapter.demux adapter'.demux := by
  obtain ⟨found, -, heq⟩ := Option.bind_eq_some_iff.1 heq
  cases found with
  | false => exact Option.some.inj heq ▸ .refl
  | true =>
    refine calls_onProgram heq fun prog hprog _ hfreed a' prog' hleave => ?_
    obtain ⟨⟨a₁, prog₁⟩, hdel, ⟨⟩⟩ := Option.bind_eq_some_iff.1 hleave
    refine (calls_pmtProgDelCb (h.wired.programs prog hprog).served
      (h.inv.ok prog hprog hfreed).pmtpid_lt hdel).mono fun q type hq h0 => ?_
    exact hq.resolve_right (not_not.2 h0)

/-- **No callback changes the lists of the pid whose section it has been given**, so the loops over
them never lose the element that they are at. -/
theorem pidtable_callback_of_exec {actions : List AdapterAction}
    (h : exec step { demux := Demux.dvrInit budgetmode opened device } actions = some adapter)
    {pid : ℕ} (hpid : pid ≤ PID_MAX) {s : PsiSec} {pcb : PidCallback}
    (hpcb : pcb ∈ (adapter.demux.pidtable pid).sectioncallback)
    (heq : adapter.callback s pcb = some adapter') :
    adapter'.demux.pidtable pid = adapter.demux.pidtable pid := by
  have hsound : adapter.Sound budgetmode opened device := exec_induction Sound.step sound_init h
  exact (hsound.calls_callback hpid hpcb heq).pidtable_eq fun _ hq => hq.1 rfl

/-- The first table makes a program wait for its own one, on another pid. -/
theorem pidtable_callback_of_exec_joined : ∃ adapter',
    exec step { demux := Demux.dvrInit false true fun _ => true } [.join 1 7] = some joined ∧
    joined.callback patSec ⟨0, .section, .patSectionCb⟩ = some adapter' ∧
    adapter'.demux.pidtable 0x100 ≠ joined.demux.pidtable 0x100 ∧
    adapter'.demux.pidtable 0 = joined.demux.pidtable 0 := by
  have hjoin : exec step { demux := Demux.dvrInit false true fun _ => true } [.join 1 7] =
      some joined := rfl
  have hpcb : ⟨0, .section, .patSectionCb⟩ ∈ (joined.demux.pidtable 0).sectioncallback := by
    decide +kernel
  have hrun : (joined.callback patSec ⟨0, .section, .patSectionCb⟩).any (fun s =>
      s.demux.pidtable 0x100 ≠ joined.demux.pidtable 0x100) = true := by decide +kernel
  obtain ⟨adapter', heq, hother⟩ := (Option.any_eq_true _ _).1 hrun
  exact ⟨adapter', hjoin, heq, of_decide_eq_true hother,
    pidtable_callback_of_exec hjoin (Nat.zero_le _) hpcb heq⟩

end Adapter

end Kalinka.Getstream2
