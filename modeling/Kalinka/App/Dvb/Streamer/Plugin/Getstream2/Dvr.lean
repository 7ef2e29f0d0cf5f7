import Kalinka.Lib.Run
import Mathlib.Data.List.Nodup
import Mathlib.Data.Option.Basic
import Mathlib.Logic.Function.Basic

/-!
# Callbacks and filters

`dvr_add_pcb` and `dvr_del_pcb` keep the callbacks for the packets and for the sections of a pid.
The first callback for packets opens a filter of the device, and the last one that goes closes it.
The first callback for sections adds a callback for packets, which puts the sections together, and
the last one that goes takes it away.

`Interest` says what this is for: a list of callbacks for each pid, and a filter that is opened for
the first of them and closed after the last one.  The tables of the demultiplexer simulate it.
-/

namespace Kalinka.Getstream2

open Function Run

def PID_MAX : ℕ := 0x1fff

inductive DvrCb
  | ts
  | section
  deriving DecidableEq, Repr

/-- The function and the argument of a callback. -/
inductive Callback
  | streamSend (stream : ℕ)
  | dvrSectionReassemble
  | patSectionCb
  | pmtDvrPmtCb (pnr : ℕ)
  deriving DecidableEq, Repr

/-- `pidcallback_s`, known by the call of `dvr_add_pcb` that made it. -/
structure PidCallback where
  call : ℕ
  type : DvrCb
  callback : Callback
  deriving DecidableEq, Repr

/-- `dvrpt_s` -/
structure DvrPt where
  callback : List PidCallback := []
  sectioncallback : List PidCallback := []
  secuser : ℕ := 0
  /-- the callback that puts the sections together -/
  seccb : Option PidCallback := none
  deriving DecidableEq, Repr

/-- `secuser--`, of an `unsigned int`; going up it does not wrap, since each user has a
`pidcallback_s`. -/
def DvrPt.secuserDel (pt : DvrPt) : ℕ :=
  if pt.secuser = 0 then 0xffffffff else pt.secuser - 1

/-- The parts of `adapter_s` that `dvr.c` and `dmx.c` keep. -/
structure Demux where
  budgetmode : Bool := false
  fullcb : List PidCallback := []
  pidtable : ℕ → DvrPt := fun _ => {}
  /-- the pids whose filter has a descriptor -/
  filters : ℕ → Bool := fun _ => false
  /-- how often `dvr_add_pcb` has been called -/
  calls : ℕ := 0
  /-- whether the device can be opened and takes the filter in a call -/
  device : ℕ → Bool := fun _ => true

namespace Demux

/-- `dmx_join_pid` -/
def dmxJoinPid (a : Demux) (pid : ℕ) (opened : Bool) : Demux :=
  if a.budgetmode && a.filters (PID_MAX + 1) then a
  else if a.filters pid then a
  else if opened then { a with filters := update a.filters pid true }
  else a

def dmxLeavePid (a : Demux) (pid : ℕ) : Demux :=
  { a with filters := update a.filters pid false }

def setPt (a : Demux) (pid : ℕ) (pt : DvrPt) : Demux :=
  { a with pidtable := update a.pidtable pid pt }

/-- `dvr_add_pcb` for packets; it does not look at what `dmx_join_pid` returns. -/
def addTs (a : Demux) (pid : ℕ) (pcb : PidCallback) : Demux :=
  let a := if (a.pidtable pid).callback = [] then a.dmxJoinPid pid (a.device pcb.call) else a
  let pt := a.pidtable pid
  a.setPt pid { pt with callback := pt.callback ++ [pcb] }

/-- The first callback for sections makes a callback for packets. -/
def addSeccb (a : Demux) (pid : ℕ) (seccb : PidCallback) : Demux :=
  if (a.pidtable pid).secuser = 0 then
    let a := a.addTs pid seccb
    a.setPt pid { a.pidtable pid with seccb := some seccb }
  else a

/-- `dvr_add_pcb` for sections. -/
def addSection (a : Demux) (pid : ℕ) (pcb : PidCallback) : Demux :=
  let a := a.addSeccb pid ⟨pcb.call, .ts, .dvrSectionReassemble⟩
  let pt := a.pidtable pid
  a.setPt pid
    { pt with secuser := pt.secuser + 1, sectioncallback := pt.sectioncallback ++ [pcb] }

/-- `dvr_add_pcb`, as soon as there is a `pidcallback_s`. -/
def addPcb (a : Demux) (pid : ℕ) (pcb : PidCallback) : Demux :=
  if pid = PID_MAX + 1 then { a with fullcb := a.fullcb ++ [pcb] }
  else
    match pcb.type with
    | .ts => a.addTs pid pcb
    | .section => a.addSection pid pcb

/-- `dvr_add_pcb` -/
def dvrAddPcb (a : Demux) (pid : ℕ) (type : DvrCb) (callback : Callback) : Demux × PidCallback :=
  let pcb : PidCallback := ⟨a.calls, type, callback⟩
  ({ a with calls := a.calls + 1 }.addPcb pid pcb, pcb)

/-- `dvr_del_pcb` for packets. -/
def delTs (a : Demux) (pid : ℕ) (pcb : PidCallback) : Demux :=
  let pt := a.pidtable pid
  let a := a.setPt pid { pt with callback := pt.callback.erase pcb }
  if (a.pidtable pid).callback = [] then a.dmxLeavePid pid else a

/-- The last callback for sections takes the callback for packets away; there is no check whether
there is one. -/
def delSeccb (a : Demux) (pid : ℕ) : Option Demux :=
  if (a.pidtable pid).secuser = 0 then
    (a.pidtable pid).seccb.map fun seccb =>
      let a := a.delTs pid seccb
      a.setPt pid { a.pidtable pid with seccb := none }
  else some a

/-- `dvr_del_pcb` for sections. -/
def delSection (a : Demux) (pid : ℕ) (pcb : PidCallback) : Option Demux :=
  let pt := a.pidtable pid
  ((a.setPt pid { pt with secuser := pt.secuserDel }).delSeccb pid).map fun a =>
    let pt := a.pidtable pid
    a.setPt pid { pt with sectioncallback := pt.sectioncallback.erase pcb }

/-- `dvr_del_pcb` -/
def dvrDelPcb (a : Demux) (pid : ℕ) (pcb : PidCallback) : Option Demux :=
  match pcb.type with
  | .ts => some (a.delTs pid pcb)
  | .section => a.delSection pid pcb

/-- `dmx_init` and `dvr_init`; the budget mode is switched off if its filter cannot be opened. -/
def dvrInit (budgetmode opened : Bool) (device : ℕ → Bool) : Demux where
  budgetmode := budgetmode && opened
  filters := update (fun _ => false) (PID_MAX + 1) (budgetmode && opened)
  device := device

/-- Whether the packets of a pid arrive. -/
def arrives (a : Demux) (pid : ℕ) : Bool :=
  a.filters pid || a.budgetmode && a.filters (PID_MAX + 1)

end Demux

/-- A call of `dvr_add_pcb` or of `dvr_del_pcb`. -/
inductive DvrCall
  | add (pid : ℕ) (type : DvrCb) (callback : Callback)
  | del (pid : ℕ) (pcb : PidCallback)
  deriving DecidableEq, Repr

/-- A call; `none` if it leaves the tables or follows a pointer that is not there. -/
def Demux.step (a : Demux) : DvrCall → Option Demux
  | .add pid type callback =>
    if pid ≤ PID_MAX + 1 then some (a.dvrAddPcb pid type callback).1 else none
  | .del pid pcb => if pid ≤ PID_MAX then a.dvrDelPcb pid pcb else none

/-! ## What the tables are for -/

/-- Who wants the packets of a pid, and whether its filter is open. -/
structure Interest where
  subs : ℕ → List PidCallback := fun _ => []
  opened : ℕ → Bool := fun _ => false
  calls : ℕ := 0
  device : ℕ → Bool := fun _ => true

namespace Interest

/-- The filter is opened for the first one; there is no second try. -/
def add (t : Interest) (pid : ℕ) (pcb : PidCallback) : Interest :=
  { t with
    subs := update t.subs pid (t.subs pid ++ [pcb])
    opened := if t.subs pid = [] then update t.opened pid (t.device pcb.call) else t.opened
    calls := t.calls + 1 }

/-- The filter is closed after the last one. -/
def del (t : Interest) (pid : ℕ) (pcb : PidCallback) : Interest :=
  { t with
    subs := update t.subs pid ((t.subs pid).erase pcb)
    opened := if (t.subs pid).erase pcb = [] then update t.opened pid false else t.opened }

/-- Only what was added and is still there can be deleted, and nothing for all packets. -/
def step (t : Interest) : DvrCall → Option Interest
  | .add pid type callback =>
    if pid ≤ PID_MAX + 1 then some (t.add pid ⟨t.calls, type, callback⟩) else none
  | .del pid pcb => if pid ≤ PID_MAX ∧ pcb ∈ t.subs pid then some (t.del pid pcb) else none

theorem step_cases {t t' : Interest} {call : DvrCall} (h : t.step call = some t') :
    (∃ pid type callback, call = .add pid type callback ∧ pid ≤ PID_MAX + 1 ∧
      t' = t.add pid ⟨t.calls, type, callback⟩) ∨
    ∃ pid pcb, call = .del pid pcb ∧ pid ≤ PID_MAX ∧ pcb ∈ t.subs pid ∧ t' = t.del pid pcb := by
  cases call with
  | add pid type callback =>
    obtain ⟨hpid, ⟨⟩⟩ := Option.ite_none_right_eq_some.1 h
    exact .inl ⟨pid, type, callback, rfl, hpid, rfl⟩
  | del pid pcb =>
    obtain ⟨hpid, ⟨⟩⟩ := Option.ite_none_right_eq_some.1 h
    exact .inr ⟨pid, pcb, rfl, hpid.1, hpid.2, rfl⟩

end Interest

/-! ## One row -/

/-- A row of the table holds the callbacks of a list, and one more if there are some for
sections. -/
structure DvrPt.Serves (pt : DvrPt) (subs : List PidCallback) (calls : ℕ) : Prop where
  ts : pt.callback.filter (fun pcb => pt.seccb ≠ some pcb) = subs.filter (·.type = .ts)
  sections : pt.sectioncallback = subs.filter (·.type = .section)
  secuser : pt.secuser = pt.sectioncallback.length
  seccb_mem : ∀ pcb, pt.seccb = some pcb → pcb ∈ pt.callback
  seccb_isSome : pt.seccb.isSome ↔ pt.secuser ≠ 0
  nodup : pt.callback.Nodup
  fresh : ∀ pcb ∈ pt.callback, pcb.call < calls
  fresh_subs : ∀ pcb ∈ subs, pcb.call < calls

namespace DvrPt

variable {pt : DvrPt} {subs : List PidCallback} {calls calls' : ℕ} {pcb : PidCallback}

theorem eq_nil_of_filter {subs : List PidCallback} (hts : subs.filter (·.type = .ts) = [])
    (hsection : subs.filter (·.type = .section) = []) : subs = [] := by
  refine List.eq_nil_iff_forall_not_mem.2 fun pcb hpcb => ?_
  cases htype : pcb.type with
  | ts => exact List.filter_eq_nil_iff.1 hts pcb hpcb (decide_eq_true htype)
  | «section» => exact List.filter_eq_nil_iff.1 hsection pcb hpcb (decide_eq_true htype)

theorem serves_nil : Serves {} [] calls where
  ts := rfl
  sections := rfl
  secuser := rfl
  seccb_mem := by simp
  seccb_isSome := by simp
  nodup := List.nodup_nil
  fresh := by simp
  fresh_subs := by simp

theorem Serves.mono (h : pt.Serves subs calls) (hle : calls ≤ calls') : pt.Serves subs calls' :=
  { h with
    fresh := fun pcb hpcb => Nat.lt_of_lt_of_le (h.fresh pcb hpcb) hle
    fresh_subs := fun pcb hpcb => Nat.lt_of_lt_of_le (h.fresh_subs pcb hpcb) hle }

theorem Serves.seccb_eq_none_iff (h : pt.Serves subs calls) : pt.seccb = none ↔ pt.secuser = 0 := by
  rw [← Option.not_isSome_iff_eq_none, h.seccb_isSome, not_not]

/-- The callbacks for packets are gone exactly if all of them are. -/
theorem Serves.callback_eq_nil_iff (h : pt.Serves subs calls) : pt.callback = [] ↔ subs = [] := by
  constructor
  · intro hnil
    have hnone : pt.seccb = none := Option.eq_none_iff_forall_ne_some.2 fun pcb hpcb =>
      List.not_mem_nil (hnil ▸ h.seccb_mem pcb hpcb)
    refine eq_nil_of_filter ?_ ?_
    · rw [← h.ts, hnil, List.filter_nil]
    · rw [← h.sections, ← List.length_eq_zero_iff, ← h.secuser]
      exact h.seccb_eq_none_iff.1 hnone
  · rintro rfl
    have hzero : pt.secuser = 0 := by rw [h.secuser, h.sections, List.filter_nil, List.length_nil]
    have hts := h.ts
    rw [h.seccb_eq_none_iff.2 hzero] at hts
    simpa using hts

theorem Serves.seccb_ne (h : pt.Serves subs calls) (hcall : pcb.call = calls) :
    pt.seccb ≠ some pcb := fun heq =>
  Nat.ne_of_lt (h.fresh pcb (h.seccb_mem pcb heq)) hcall

/-- What is deleted is not the callback that puts the sections together. -/
theorem Serves.mem_callback (h : pt.Serves subs calls) (htype : pcb.type = .ts)
    (hpcb : pcb ∈ subs) : pcb ∈ pt.callback ∧ pt.seccb ≠ some pcb := by
  have hmem : pcb ∈ pt.callback.filter (fun pcb => pt.seccb ≠ some pcb) := by
    rw [h.ts]
    exact List.mem_filter.2 ⟨hpcb, decide_eq_true htype⟩
  exact (List.mem_filter.1 hmem).imp_right of_decide_eq_true

theorem fresh_append {l : List PidCallback} (hl : ∀ pcb ∈ l, pcb.call < calls)
    (hcall : pcb.call = calls) : ∀ c ∈ l ++ [pcb], c.call < calls + 1 := by
  intro c hc
  obtain hc | hc := List.mem_append.1 hc
  · exact Nat.lt_succ_of_lt (hl c hc)
  · rw [List.mem_singleton.1 hc, hcall]
    exact Nat.lt_succ_self calls

theorem nodup_append {l : List PidCallback} (hl : l.Nodup) (hfresh : ∀ pcb ∈ l, pcb.call < calls)
    (hcall : pcb.call = calls) : (l ++ [pcb]).Nodup := by
  refine List.Nodup.append hl (List.nodup_singleton pcb) (List.disjoint_singleton.2 fun hpcb => ?_)
  exact Nat.ne_of_lt (hfresh pcb hpcb) hcall

theorem Serves.addTs (h : pt.Serves subs calls) (htype : pcb.type = .ts)
    (hcall : pcb.call = calls) :
    { pt with callback := pt.callback ++ [pcb] : DvrPt }.Serves (subs ++ [pcb]) (calls + 1) where
  ts := by
    have hne := h.seccb_ne hcall
    rw [List.filter_append, List.filter_append, ← h.ts]
    simp [hne, htype]
  sections := by
    rw [List.filter_append, ← h.sections]
    simp [htype]
  secuser := h.secuser
  seccb_mem c hc := List.mem_append_left _ (h.seccb_mem c hc)
  seccb_isSome := h.seccb_isSome
  nodup := nodup_append h.nodup h.fresh hcall
  fresh := fresh_append h.fresh hcall
  fresh_subs := fresh_append h.fresh_subs hcall

/-- The first one for sections. -/
theorem Serves.addSection_first {seccb : PidCallback} (h : pt.Serves subs calls)
    (htype : pcb.type = .section) (hcall : pcb.call = calls) (hseccb : seccb.call = calls)
    (hzero : pt.secuser = 0) :
    Serves
      { callback := pt.callback ++ [seccb], seccb := some seccb, secuser := pt.secuser + 1,
        sectioncallback := pt.sectioncallback ++ [pcb] }
      (subs ++ [pcb]) (calls + 1) where
  ts := by
    have hts := h.ts
    rw [h.seccb_eq_none_iff.2 hzero] at hts
    have hne : pt.callback.filter (fun c => some seccb ≠ some c) = pt.callback :=
      List.filter_eq_self.2 fun c hc => decide_eq_true fun heq =>
        Nat.ne_of_lt (h.fresh c hc) (Option.some.inj heq ▸ hseccb)
    rw [List.filter_append, List.filter_append, hne, ← hts]
    simp [htype]
  sections := by
    rw [List.filter_append, ← h.sections]
    simp [htype]
  secuser := by
    rw [List.length_append, ← h.secuser]
    rfl
  seccb_mem c hc := List.mem_append_right _ (List.mem_singleton.2 (Option.some.inj hc).symm)
  seccb_isSome := by simp
  nodup := nodup_append h.nodup h.fresh hseccb
  fresh := fresh_append h.fresh hseccb
  fresh_subs := fresh_append h.fresh_subs hcall

theorem Serves.addSection (h : pt.Serves subs calls) (htype : pcb.type = .section)
    (hcall : pcb.call = calls) (hzero : pt.secuser ≠ 0) :
    { pt with
      secuser := pt.secuser + 1
      sectioncallback := pt.sectioncallback ++ [pcb] : DvrPt }.Serves (subs ++ [pcb])
        (calls + 1) where
  ts := by
    rw [List.filter_append, ← h.ts]
    simp [htype]
  sections := by
    rw [List.filter_append, ← h.sections]
    simp [htype]
  secuser := by
    rw [List.length_append, ← h.secuser]
    rfl
  seccb_mem := h.seccb_mem
  seccb_isSome := by simp [h.seccb_isSome, hzero]
  nodup := h.nodup
  fresh c hc := Nat.lt_succ_of_lt (h.fresh c hc)
  fresh_subs := fresh_append h.fresh_subs hcall

theorem filter_erase_of_type {type : DvrCb} (htype : pcb.type ≠ type) :
    (subs.erase pcb).filter (·.type = type) = subs.filter (·.type = type) := by
  rw [← List.erase_filter, List.erase_of_not_mem]
  simp [htype]

theorem Serves.delTs (h : pt.Serves subs calls) (htype : pcb.type = .ts) (hpcb : pcb ∈ subs) :
    { pt with callback := pt.callback.erase pcb : DvrPt }.Serves (subs.erase pcb) calls where
  ts := by rw [← List.erase_filter, ← List.erase_filter, h.ts]
  sections := h.sections.trans (filter_erase_of_type (by simp [htype])).symm
  secuser := h.secuser
  seccb_mem c hc := by
    have hne : c ≠ pcb := by
      rintro rfl
      exact (h.mem_callback htype hpcb).2 hc
    exact (List.mem_erase_of_ne hne).2 (h.seccb_mem c hc)
  seccb_isSome := h.seccb_isSome
  nodup := h.nodup.erase pcb
  fresh c hc := h.fresh c (List.mem_of_mem_erase hc)
  fresh_subs c hc := h.fresh_subs c (List.mem_of_mem_erase hc)

theorem Serves.mem_sectioncallback (h : pt.Serves subs calls) (htype : pcb.type = .section)
    (hpcb : pcb ∈ subs) : pcb ∈ pt.sectioncallback := by
  rw [h.sections]
  exact List.mem_filter.2 ⟨hpcb, decide_eq_true htype⟩

/-- What is deleted has been counted. -/
theorem Serves.secuser_ne_zero (h : pt.Serves subs calls) (htype : pcb.type = .section)
    (hpcb : pcb ∈ subs) : pt.secuser ≠ 0 := by
  rw [h.secuser]
  exact Nat.ne_of_gt (List.length_pos_of_mem (h.mem_sectioncallback htype hpcb))

theorem Serves.length_erase (h : pt.Serves subs calls) (htype : pcb.type = .section)
    (hpcb : pcb ∈ subs) : pt.secuserDel = (pt.sectioncallback.erase pcb).length := by
  rw [secuserDel, if_neg (h.secuser_ne_zero htype hpcb),
    List.length_erase_of_mem (h.mem_sectioncallback htype hpcb), h.secuser]

/-- The last one for sections. -/
theorem Serves.delSection_last {seccb : PidCallback} (h : pt.Serves subs calls)
    (htype : pcb.type = .section) (hpcb : pcb ∈ subs) (hseccb : pt.seccb = some seccb)
    (hzero : pt.secuserDel = 0) :
    Serves
      { callback := pt.callback.erase seccb, seccb := none, secuser := pt.secuserDel,
        sectioncallback := pt.sectioncallback.erase pcb }
      (subs.erase pcb) calls where
  ts := by
    have hts := h.ts
    rw [hseccb] at hts
    rw [filter_erase_of_type (by simp [htype]), ← hts, h.nodup.erase_eq_filter, List.filter_filter]
    refine List.filter_congr fun c _ => ?_
    by_cases heq : c = seccb
    · simp [heq]
    · simp [heq, Ne.symm heq]
  sections := by rw [← List.erase_filter, h.sections]
  secuser := h.length_erase htype hpcb
  seccb_mem := by simp
  seccb_isSome := by simp [hzero]
  nodup := h.nodup.erase seccb
  fresh c hc := h.fresh c (List.mem_of_mem_erase hc)
  fresh_subs c hc := h.fresh_subs c (List.mem_of_mem_erase hc)

theorem Serves.delSection (h : pt.Serves subs calls) (htype : pcb.type = .section)
    (hpcb : pcb ∈ subs) (hzero : pt.secuserDel ≠ 0) :
    { pt with
      secuser := pt.secuserDel
      sectioncallback := pt.sectioncallback.erase pcb : DvrPt }.Serves (subs.erase pcb)
        calls where
  ts := h.ts.trans (filter_erase_of_type (by simp [htype])).symm
  sections := by rw [← List.erase_filter, h.sections]
  secuser := h.length_erase htype hpcb
  seccb_mem := h.seccb_mem
  seccb_isSome := by
    simp [h.seccb_isSome, h.secuser_ne_zero htype hpcb, hzero]
  nodup := h.nodup
  fresh := h.fresh
  fresh_subs c hc := h.fresh_subs c (List.mem_of_mem_erase hc)

end DvrPt

/-! ## The whole table -/

/-- The tables of the demultiplexer hold what is wanted. -/
structure Demux.Refines (a : Demux) (t : Interest) : Prop where
  calls : a.calls = t.calls
  device : a.device = t.device
  full : a.fullcb = t.subs (PID_MAX + 1)
  serves : ∀ pid ≤ PID_MAX, (a.pidtable pid).Serves (t.subs pid) t.calls
  filters : ∀ pid ≤ PID_MAX, a.filters pid = (!a.budgetmode && t.opened pid)
  budget : a.filters (PID_MAX + 1) = a.budgetmode
  closed : ∀ pid, t.subs pid = [] → t.opened pid = false

namespace Demux

variable {a : Demux} {t : Interest} {pid : ℕ} {pcb : PidCallback}

theorem dmxJoinPid_eq {opened : Bool} (hbudget : a.filters (PID_MAX + 1) = a.budgetmode)
    (hpid : a.filters pid = false) :
    a.dmxJoinPid pid opened =
      { a with filters := update a.filters pid (!a.budgetmode && opened) } := by
  have hsame : update a.filters pid false = a.filters := by rw [← hpid, update_eq_self]
  unfold dmxJoinPid
  rw [hbudget, Bool.and_self]
  by_cases hmode : a.budgetmode = true
  · have hnone : (!a.budgetmode && opened) = false := by simp [hmode]
    rw [if_pos hmode, hnone, hsame]
  · have hopened : (!a.budgetmode && opened) = opened := by simp [hmode]
    rw [if_neg hmode, if_neg (Bool.eq_false_iff.1 hpid), hopened]
    cases opened with
    | false => rw [hsame, if_neg Bool.false_ne_true]
    | true => rfl

/-- The filters after the callbacks of a pid got one more. -/
def opening (a : Demux) (pid : ℕ) (pcb : PidCallback) : ℕ → Bool :=
  if (a.pidtable pid).callback = [] then
    update a.filters pid (!a.budgetmode && a.device pcb.call)
  else a.filters

/-- The filters after the callbacks of a pid have changed. -/
def closing (a : Demux) (pid : ℕ) (callback : List PidCallback) : ℕ → Bool :=
  if callback = [] then update a.filters pid false else a.filters

theorem addTs_eq (hbudget : a.filters (PID_MAX + 1) = a.budgetmode)
    (hpid : (a.pidtable pid).callback = [] → a.filters pid = false) :
    a.addTs pid pcb =
      { a with
        filters := a.opening pid pcb
        pidtable := update a.pidtable pid
          { a.pidtable pid with callback := (a.pidtable pid).callback ++ [pcb] } } := by
  unfold addTs opening
  by_cases hnil : (a.pidtable pid).callback = []
  · simp [hnil, dmxJoinPid_eq hbudget (hpid hnil), setPt]
  · simp [hnil, setPt]

theorem addSection_eq (hbudget : a.filters (PID_MAX + 1) = a.budgetmode)
    (hpid : (a.pidtable pid).callback = [] → a.filters pid = false)
    (hzero : (a.pidtable pid).secuser = 0) :
    a.addSection pid pcb =
      { a with
        filters := a.opening pid pcb
        pidtable := update a.pidtable pid
          { callback := (a.pidtable pid).callback ++ [⟨pcb.call, .ts, .dvrSectionReassemble⟩]
            seccb := some ⟨pcb.call, .ts, .dvrSectionReassemble⟩
            secuser := (a.pidtable pid).secuser + 1
            sectioncallback := (a.pidtable pid).sectioncallback ++ [pcb] } } := by
  unfold addSection addSeccb
  rw [if_pos hzero, addTs_eq hbudget hpid]
  simp [setPt, opening]

theorem addSection_eq_of_ne (hzero : (a.pidtable pid).secuser ≠ 0) :
    a.addSection pid pcb =
      { a with
        pidtable := update a.pidtable pid
          { a.pidtable pid with
            secuser := (a.pidtable pid).secuser + 1
            sectioncallback := (a.pidtable pid).sectioncallback ++ [pcb] } } := by
  unfold addSection addSeccb
  rw [if_neg hzero]
  rfl

theorem delTs_eq :
    a.delTs pid pcb =
      { a with
        filters := a.closing pid ((a.pidtable pid).callback.erase pcb)
        pidtable := update a.pidtable pid
          { a.pidtable pid with callback := (a.pidtable pid).callback.erase pcb } } := by
  unfold delTs closing
  by_cases hnil : (a.pidtable pid).callback.erase pcb = [] <;>
    simp [setPt, hnil, dmxLeavePid]

theorem delSection_eq {seccb : PidCallback} (hzero : (a.pidtable pid).secuserDel = 0)
    (hseccb : (a.pidtable pid).seccb = some seccb) :
    a.delSection pid pcb = some
      { a with
        filters := a.closing pid ((a.pidtable pid).callback.erase seccb)
        pidtable := update a.pidtable pid
          { callback := (a.pidtable pid).callback.erase seccb
            seccb := none
            secuser := (a.pidtable pid).secuserDel
            sectioncallback := (a.pidtable pid).sectioncallback.erase pcb } } := by
  unfold delSection delSeccb
  simp [setPt, hzero, hseccb, delTs_eq, closing]

theorem delSection_eq_of_ne (hzero : (a.pidtable pid).secuserDel ≠ 0) :
    a.delSection pid pcb = some
      { a with
        pidtable := update a.pidtable pid
          { a.pidtable pid with
            secuser := (a.pidtable pid).secuserDel
            sectioncallback := (a.pidtable pid).sectioncallback.erase pcb } } := by
  unfold delSection delSeccb
  simp [setPt, hzero]

/-! ## Simulation -/

theorem Refines.add_row (h : a.Refines t) (hpid : pid ≤ PID_MAX) {pt : DvrPt}
    (hpt : pt.Serves (t.subs pid ++ [pcb]) (t.calls + 1)) {filters : ℕ → Bool}
    (hfilters : filters =
      if t.subs pid = [] then update a.filters pid (!a.budgetmode && a.device pcb.call)
      else a.filters) :
    Refines { a with calls := a.calls + 1, filters, pidtable := update a.pidtable pid pt }
      (t.add pid pcb) where
  calls := congrArg (· + 1) h.calls
  device := h.device
  full := by
    have hne : PID_MAX + 1 ≠ pid := Nat.ne_of_gt (Nat.lt_succ_of_le hpid)
    exact h.full.trans (update_of_ne hne _ _).symm
  serves pid' hpid' := by
    by_cases heq : pid' = pid
    · subst heq
      simpa [Interest.add] using hpt
    · simpa [Interest.add, heq] using (h.serves pid' hpid').mono (Nat.le_succ t.calls)
  filters pid' hpid' := by
    by_cases heq : pid' = pid
    · subst heq
      by_cases hnil : t.subs pid' = [] <;>
        simp [hfilters, Interest.add, hnil, h.filters pid' hpid', h.device]
    · by_cases hnil : t.subs pid = [] <;>
        simp [hfilters, Interest.add, hnil, heq, h.filters pid' hpid']
  budget := by
    have hne : PID_MAX + 1 ≠ pid := Nat.ne_of_gt (Nat.lt_succ_of_le hpid)
    by_cases hnil : t.subs pid = [] <;> simp [hfilters, hnil, hne, h.budget]
  closed pid' hnil' := by
    by_cases heq : pid' = pid
    · subst heq
      simp [Interest.add] at hnil'
    · have hnil'' : t.subs pid' = [] := by simpa [Interest.add, heq] using hnil'
      by_cases hnil : t.subs pid = [] <;> simp [Interest.add, hnil, heq, h.closed pid' hnil'']

theorem Refines.add_full (h : a.Refines t) :
    Refines { a with calls := a.calls + 1, fullcb := a.fullcb ++ [pcb] }
      (t.add (PID_MAX + 1) pcb) where
  calls := congrArg (· + 1) h.calls
  device := h.device
  full := by simp [Interest.add, h.full]
  serves pid hpid := by
    have hne : pid ≠ PID_MAX + 1 := Nat.ne_of_lt (Nat.lt_succ_of_le hpid)
    simpa [Interest.add, hne] using (h.serves pid hpid).mono (Nat.le_succ t.calls)
  filters pid hpid := by
    have hne : pid ≠ PID_MAX + 1 := Nat.ne_of_lt (Nat.lt_succ_of_le hpid)
    by_cases hnil : t.subs (PID_MAX + 1) = [] <;>
      simp [Interest.add, hnil, hne, h.filters pid hpid]
  budget := h.budget
  closed pid hnil := by
    by_cases heq : pid = PID_MAX + 1
    · subst heq
      simp [Interest.add] at hnil
    · have hnil' : t.subs pid = [] := by simpa [Interest.add, heq] using hnil
      by_cases h0 : t.subs (PID_MAX + 1) = [] <;> simp [Interest.add, h0, heq, h.closed pid hnil']

theorem Refines.del_row (h : a.Refines t) (hpid : pid ≤ PID_MAX) {pt : DvrPt}
    (hpt : pt.Serves ((t.subs pid).erase pcb) t.calls) {filters : ℕ → Bool}
    (hfilters : filters =
      if (t.subs pid).erase pcb = [] then update a.filters pid false else a.filters) :
    Refines { a with filters, pidtable := update a.pidtable pid pt } (t.del pid pcb) where
  calls := h.calls
  device := h.device
  full := by
    have hne : PID_MAX + 1 ≠ pid := Nat.ne_of_gt (Nat.lt_succ_of_le hpid)
    exact h.full.trans (update_of_ne hne _ _).symm
  serves pid' hpid' := by
    by_cases heq : pid' = pid
    · subst heq
      simpa [Interest.del] using hpt
    · simpa [Interest.del, heq] using h.serves pid' hpid'
  filters pid' hpid' := by
    by_cases heq : pid' = pid
    · subst heq
      by_cases hnil : (t.subs pid').erase pcb = [] <;>
        simp [hfilters, Interest.del, hnil, h.filters pid' hpid']
    · by_cases hnil : (t.subs pid).erase pcb = [] <;>
        simp [hfilters, Interest.del, hnil, heq, h.filters pid' hpid']
  budget := by
    have hne : PID_MAX + 1 ≠ pid := Nat.ne_of_gt (Nat.lt_succ_of_le hpid)
    by_cases hnil : (t.subs pid).erase pcb = [] <;> simp [hfilters, hnil, hne, h.budget]
  closed pid' hnil' := by
    by_cases heq : pid' = pid
    · subst heq
      have hnil : (t.subs pid').erase pcb = [] := by simpa [Interest.del] using hnil'
      simp [Interest.del, hnil]
    · have hnil'' : t.subs pid' = [] := by simpa [Interest.del, heq] using hnil'
      by_cases hnil : (t.subs pid).erase pcb = [] <;>
        simp [Interest.del, hnil, heq, h.closed pid' hnil'']

theorem Refines.closed_of_nil (h : a.Refines t) (hpid : pid ≤ PID_MAX)
    (hnil : (a.pidtable pid).callback = []) : a.filters pid = false := by
  rw [h.filters pid hpid, h.closed pid ((h.serves pid hpid).callback_eq_nil_iff.1 hnil),
    Bool.and_false]

/-- `dvr_add_pcb` does what is wanted. -/
theorem Refines.dvrAddPcb (h : a.Refines t) (hpid : pid ≤ PID_MAX + 1) {type : DvrCb}
    {callback : Callback} :
    (a.dvrAddPcb pid type callback).2 = ⟨t.calls, type, callback⟩ ∧
      (a.dvrAddPcb pid type callback).1.Refines (t.add pid ⟨t.calls, type, callback⟩) := by
  refine ⟨congrArg (PidCallback.mk · type callback) h.calls, ?_⟩
  rw [← h.calls]
  by_cases hfull : pid = PID_MAX + 1
  · subst hfull
    simpa [Demux.dvrAddPcb, addPcb] using h.add_full
  have hle : pid ≤ PID_MAX := Nat.le_of_lt_succ (Nat.lt_of_le_of_ne hpid hfull)
  have hserves := h.serves pid hle
  have hclosed := h.closed_of_nil hle
  simp only [Demux.dvrAddPcb, addPcb, if_neg hfull]
  cases type with
  | ts =>
    dsimp only
    rw [addTs_eq (a := { a with calls := a.calls + 1 }) h.budget hclosed]
    refine h.add_row hle (hserves.addTs rfl h.calls) ?_
    simp only [opening, hserves.callback_eq_nil_iff]
  | «section» =>
    dsimp only
    by_cases hzero : (a.pidtable pid).secuser = 0
    · rw [addSection_eq (a := { a with calls := a.calls + 1 }) h.budget hclosed hzero]
      refine h.add_row hle (hserves.addSection_first rfl h.calls h.calls hzero) ?_
      simp only [opening, hserves.callback_eq_nil_iff]
    · rw [addSection_eq_of_ne (a := { a with calls := a.calls + 1 }) hzero]
      refine h.add_row hle (hserves.addSection rfl h.calls hzero) (if_neg fun hnil => ?_).symm
      refine hzero ?_
      rw [hserves.secuser, hserves.sections, hnil, List.filter_nil, List.length_nil]

/-- `dvr_del_pcb` takes away what was added. -/
theorem Refines.dvrDelPcb (h : a.Refines t) (hpid : pid ≤ PID_MAX) (hpcb : pcb ∈ t.subs pid) :
    ∃ a', a.dvrDelPcb pid pcb = some a' ∧ a'.Refines (t.del pid pcb) := by
  have hserves := h.serves pid hpid
  unfold Demux.dvrDelPcb
  cases htype : pcb.type with
  | ts =>
    have hrow := hserves.delTs htype hpcb
    refine ⟨_, rfl, ?_⟩
    rw [delTs_eq]
    refine h.del_row hpid hrow ?_
    simp only [closing, hrow.callback_eq_nil_iff]
  | «section» =>
    by_cases hzero : (a.pidtable pid).secuserDel = 0
    · have hsome : (a.pidtable pid).seccb.isSome := by
        rw [hserves.seccb_isSome]
        exact hserves.secuser_ne_zero htype hpcb
      obtain ⟨seccb, hseccb⟩ := Option.isSome_iff_exists.1 hsome
      have hrow := hserves.delSection_last htype hpcb hseccb hzero
      refine ⟨_, delSection_eq hzero hseccb, h.del_row hpid hrow ?_⟩
      simp only [closing, hrow.callback_eq_nil_iff]
    · have hrow := hserves.delSection htype hpcb hzero
      refine ⟨_, delSection_eq_of_ne hzero, h.del_row hpid hrow (if_neg fun hnil => ?_).symm⟩
      have hsubs := hserves.callback_eq_nil_iff.1 (hrow.callback_eq_nil_iff.2 hnil)
      exact List.not_mem_nil (hsubs ▸ hpcb)

theorem refines_init (budgetmode opened : Bool) (device : ℕ → Bool) :
    (dvrInit budgetmode opened device).Refines { device } where
  calls := rfl
  device := rfl
  full := rfl
  serves _ _ := DvrPt.serves_nil
  filters pid hpid := by
    have hne : pid ≠ PID_MAX + 1 := Nat.ne_of_lt (Nat.lt_succ_of_le hpid)
    simp [dvrInit, hne]
  budget := by simp [dvrInit]
  closed _ _ := rfl

/-- The tables follow every call that is allowed. -/
theorem Refines.step {call : DvrCall} {t' : Interest} (h : a.Refines t)
    (hcall : t.step call = some t') : ∃ a', a.step call = some a' ∧ a'.Refines t' := by
  obtain ⟨pid, type, callback, rfl, hpid, rfl⟩ | ⟨pid, pcb, rfl, hpid, hpcb, rfl⟩ :=
    Interest.step_cases hcall
  · exact ⟨_, if_pos hpid, (h.dvrAddPcb hpid).2⟩
  · obtain ⟨a', ha', href⟩ := h.dvrDelPcb hpid hpcb
    exact ⟨a', (if_pos hpid).trans ha', href⟩

end Demux

/-! ## Filters -/

namespace Interest

variable {t t' : Interest} {calls : List DvrCall} {device : ℕ → Bool}

/-- Where no attempt fails, the filters that are open are those that somebody wants. -/
structure Served (t : Interest) : Prop where
  device : ∀ call, t.device call = true
  opened : ∀ pid, t.opened pid = true ↔ t.subs pid ≠ []

theorem Served.step {call : DvrCall} (h : t.Served) (hcall : t.step call = some t') :
    t'.Served := by
  obtain ⟨pid, type, callback, rfl, -, rfl⟩ | ⟨pid, pcb, rfl, -, -, rfl⟩ := step_cases hcall
  · refine ⟨h.device, fun pid' => ?_⟩
    by_cases hnil : t.subs pid = []
    · by_cases heq : pid' = pid <;> simp [add, hnil, heq, h.device, h.opened]
    · by_cases heq : pid' = pid
      · subst heq
        simp [add, hnil, (h.opened pid').2 hnil]
      · simp [add, hnil, heq, h.opened]
  · refine ⟨h.device, fun pid' => ?_⟩
    by_cases hnil : (t.subs pid).erase pcb = []
    · by_cases heq : pid' = pid <;> simp [del, hnil, heq, h.opened]
    · by_cases heq : pid' = pid
      · subst heq
        have hne : t.subs pid' ≠ [] := fun h0 => hnil (by rw [h0, List.erase_nil])
        simp [del, hnil, (h.opened pid').2 hne]
      · simp [del, hnil, heq, h.opened]

end Interest

/-- Whoever deletes only what was added never makes `dvr.c` follow a pointer that is not there, and
its tables and filters are what is wanted. -/
theorem exists_exec_refines (budgetmode opened : Bool) (device : ℕ → Bool) (calls : List DvrCall)
    {t : Interest} (h : exec Interest.step { device } calls = some t) :
    ∃ a, exec Demux.step (Demux.dvrInit budgetmode opened device) calls = some a ∧ a.Refines t ∧
      ((∀ call, device call = true) →
        ∀ pid ≤ PID_MAX, a.arrives pid = true ↔ a.budgetmode = true ∨ t.subs pid ≠ []) := by
  obtain ⟨a, ha, href⟩ :=
    exec_simulation Demux.Refines.step (Demux.refines_init budgetmode opened device) h
  refine ⟨a, ha, href, fun hdevice pid hpid => ?_⟩
  have hserved : t.Served :=
    exec_induction Interest.Served.step ⟨hdevice, fun _ => by simp⟩ h
  rw [Demux.arrives, href.filters pid hpid, href.budget, ← hserved.opened pid]
  cases a.budgetmode <;> simp

/-- A callback for sections, and one for packets that comes and goes. -/
theorem exists_exec_refines_section : ∃ t a,
    exec Interest.step {} [.add 0 .section .patSectionCb, .add 256 .ts (.streamSend 7),
      .del 256 ⟨1, .ts, .streamSend 7⟩] = some t ∧
    exec Demux.step (Demux.dvrInit false true fun _ => true) [.add 0 .section .patSectionCb,
      .add 256 .ts (.streamSend 7), .del 256 ⟨1, .ts, .streamSend 7⟩] = some a ∧
    a.Refines t ∧
    ∀ pid ≤ PID_MAX, a.arrives pid = true ↔ a.budgetmode = true ∨ t.subs pid ≠ [] := by
  have hcalls : exec Interest.step {} [.add 0 .section .patSectionCb,
      .add 256 .ts (.streamSend 7), .del 256 ⟨1, .ts, .streamSend 7⟩] = some _ := rfl
  obtain ⟨a, ha, href, harrives⟩ := exists_exec_refines false true (fun _ => true) _ hcalls
  exact ⟨_, a, hcalls, ha, href, harrives fun _ => rfl⟩

end Kalinka.Getstream2
