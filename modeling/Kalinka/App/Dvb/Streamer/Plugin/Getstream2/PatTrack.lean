import Kalinka.App.Dvb.Streamer.Plugin.Getstream2.PmtPids
import Mathlib.Data.List.Nodup

/-!
# The pid of a program's table

`pat_update` compares each program association table with the one before and tells the programs what
has changed.  So the pid that a program has for its table is never one that the current table does
not give it, and it is the one of the current table as long as no table has been without the
program.  But a program that comes back is only noticed when its pid has changed.
-/

namespace Kalinka.Getstream2

open Function Run

/-- What `pat.c` changes of a program, and how it finds it. -/
structure ProgramView where
  pnr : ℕ
  freed : Bool
  pmtpid : ℕ
  deriving DecidableEq, Repr

def Program.view (prog : Program) : ProgramView := ⟨prog.pnr, prog.freed, prog.pmtpid⟩

/-- The pid that a table gives a program. -/
def listed (table : List PatProg) (pnr : ℕ) : Option ℕ :=
  (table.find? (·.pnr = pnr)).map (·.pid)

/-- No program is in a table twice. -/
def Distinct (table : List PatProg) : Prop := (table.map (·.pnr)).Nodup

instance (table : List PatProg) : Decidable (Distinct table) :=
  inferInstanceAs (Decidable (List.Nodup _))

/-! ## What `pat_update` says about a program -/

/-- The pid after a table, from the one before it: what the table before said, and what the new one
says. -/
def tracked (pmtpid : ℕ) : Option (Option ℕ) → Option ℕ → ℕ
  | none, now => now.getD pmtpid
  | some none, _ => pmtpid
  | some (some _), none => 0
  | some (some pid), some pid' => if pid = pid' then pmtpid else pid'

theorem tracked_eq_zero_or {pmtpid : ℕ} {before : Option (Option ℕ)} {now : Option ℕ}
    (hfirst : pmtpid ≠ 0 → before = none → now.isSome)
    (hbefore : pmtpid ≠ 0 → ∀ l, before = some l → l = some pmtpid) :
    tracked pmtpid before now = 0 ∨ now = some (tracked pmtpid before now) := by
  by_cases h0 : pmtpid = 0
  · subst h0
    match before, now with
    | none, none => exact .inl rfl
    | none, some pid => exact .inr rfl
    | some none, _ => exact .inl rfl
    | some (some pid), none => exact .inl rfl
    | some (some pid), some pid' => by_cases heq : pid = pid' <;> simp [tracked, heq]
  · match before, now with
    | none, none => cases hfirst h0 rfl
    | none, some pid => exact .inr rfl
    | some none, _ => cases hbefore h0 none rfl
    | some (some pid), none => exact .inl rfl
    | some (some pid), some pid' =>
      obtain rfl := Option.some.inj (hbefore h0 _ rfl)
      by_cases heq : pid = pid' <;> simp [tracked, heq]

theorem listed_eq_some_iff {table : List PatProg} (h : Distinct table) {pnr pid : ℕ} :
    listed table pnr = some pid ↔ ⟨pnr, pid⟩ ∈ table := by
  constructor
  · intro hl
    obtain ⟨pp, hpp, rfl⟩ := Option.map_eq_some_iff.1 hl
    have hpnr : pp.pnr = pnr := by simpa using List.find?_some hpp
    subst hpnr
    exact List.mem_of_find?_eq_some hpp
  · intro hmem
    cases hfind : table.find? (·.pnr = pnr) with
    | none => simpa using List.find?_eq_none.1 hfind _ hmem
    | some pp =>
      have hpnr : pp.pnr = pnr := by simpa using List.find?_some hfind
      have heq := List.inj_on_of_nodup_map h (List.mem_of_find?_eq_some hfind) hmem hpnr
      rw [listed, hfind, heq]
      rfl

theorem listed_eq_none_iff {table : List PatProg} {pnr : ℕ} :
    listed table pnr = none ↔ ∀ pp ∈ table, pp.pnr ≠ pnr := by
  simp [listed]

/-- The pid of a program's table after some calls of `pmt_pidfrompat`. -/
def pidAfter (pnr : ℕ) (calls : List (ℕ × ℕ)) (pmtpid : ℕ) : ℕ :=
  calls.foldl (fun pmtpid call => if call.1 = pnr then call.2 else pmtpid) pmtpid

theorem pidAfter_of_not_mem {pnr pmtpid : ℕ} {calls : List (ℕ × ℕ)}
    (h : ∀ call ∈ calls, call.1 ≠ pnr) : pidAfter pnr calls pmtpid = pmtpid := by
  induction calls with
  | nil => rfl
  | cons call calls ih =>
    obtain ⟨hcall, hcalls⟩ := List.forall_mem_cons.1 h
    rw [pidAfter, List.foldl_cons, if_neg hcall]
    exact ih hcalls

theorem pidAfter_of_mem {pnr pid pmtpid : ℕ} {calls : List (ℕ × ℕ)}
    (hnodup : (calls.map Prod.fst).Nodup) (h : (pnr, pid) ∈ calls) :
    pidAfter pnr calls pmtpid = pid := by
  induction calls generalizing pmtpid with
  | nil => cases h
  | cons call calls ih =>
    obtain ⟨hnot, hnodup⟩ := List.nodup_cons.1 hnodup
    rw [pidAfter, List.foldl_cons]
    obtain rfl | h := List.mem_cons.1 h
    · rw [if_pos rfl]
      exact pidAfter_of_not_mem fun call hcall heq => hnot (List.mem_map.2 ⟨call, hcall, heq⟩)
    · exact ih hnodup h

/-- The calls for a program whose pid has changed. -/
def changed (last current : List PatProg) : List (ℕ × ℕ) :=
  (current.filter fun pcur => (last.find? (·.pnr = pcur.pnr)).any (·.pid ≠ pcur.pid)).map
    fun pcur => (pcur.pnr, pcur.pid)

/-- The calls for the programs that are gone. -/
def gone (last current : List PatProg) : List (ℕ × ℕ) :=
  (last.filter fun plast => !current.any (·.pnr = plast.pnr)).map fun plast => (plast.pnr, 0)

section

variable {last current : List PatProg} (hlast : Distinct last) (hcurrent : Distinct current)

theorem mem_changed_iff (hcurrent : Distinct current) {pnr pid : ℕ} :
    (pnr, pid) ∈ changed last current ↔
      listed current pnr = some pid ∧ ∃ pid', listed last pnr = some pid' ∧ pid' ≠ pid := by
  rw [listed_eq_some_iff hcurrent, changed, List.mem_map]
  constructor
  · rintro ⟨pp, hpp, ⟨⟩⟩
    obtain ⟨hmem, hany⟩ := List.mem_filter.1 hpp
    obtain ⟨pl, hpl, hne⟩ := (Option.any_eq_true _ _).1 hany
    exact ⟨hmem, pl.pid, by rw [listed, hpl]; rfl, of_decide_eq_true hne⟩
  · rintro ⟨hmem, pid', hpid', hne⟩
    obtain ⟨pl, hpl, rfl⟩ := Option.map_eq_some_iff.1 hpid'
    exact ⟨⟨pnr, pid⟩, List.mem_filter.2 ⟨hmem, by simp [hpl, hne]⟩, rfl⟩

theorem mem_gone_iff {pnr pid : ℕ} :
    (pnr, pid) ∈ gone last current ↔
      pid = 0 ∧ listed current pnr = none ∧ (listed last pnr).isSome := by
  rw [gone, List.mem_map, listed_eq_none_iff]
  constructor
  · rintro ⟨pp, hpp, ⟨⟩⟩
    obtain ⟨hmem, hany⟩ := List.mem_filter.1 hpp
    refine ⟨rfl, by simpa using hany, ?_⟩
    simpa [listed] using ⟨pp, hmem, rfl⟩
  · rintro ⟨rfl, hnone, hsome⟩
    obtain ⟨pp, hmem, hpnr⟩ : ∃ pp ∈ last, pp.pnr = pnr := by simpa [listed] using hsome
    refine ⟨pp, List.mem_filter.2 ⟨hmem, ?_⟩, by rw [hpnr]⟩
    simpa [hpnr] using hnone

include hlast hcurrent

/-- No program is told twice. -/
theorem nodup_changed_append_gone :
    ((changed last current ++ gone last current).map Prod.fst).Nodup := by
  rw [List.map_append, changed, gone, List.map_map, List.map_map]
  refine List.Nodup.append (hcurrent.sublist (List.filter_sublist.map _))
    (hlast.sublist (List.filter_sublist.map _)) fun pnr hpnr hpnr' => ?_
  obtain ⟨pp, hpp, rfl⟩ := List.mem_map.1 hpnr
  obtain ⟨pl, hpl, heq⟩ := List.mem_map.1 hpnr'
  have hnone := (List.mem_filter.1 hpl).2
  rw [Bool.not_eq_true', List.any_eq_false] at hnone
  exact hnone pp (List.mem_filter.1 hpp).1 (decide_eq_true heq.symm)

theorem pidAfter_changed_append_gone (pnr pmtpid : ℕ) :
    pidAfter pnr (changed last current ++ gone last current) pmtpid =
      tracked pmtpid (some (listed last pnr)) (listed current pnr) := by
  have hnodup := nodup_changed_append_gone hlast hcurrent
  cases hl : listed last pnr with
  | none =>
    refine pidAfter_of_not_mem fun call hcall heq => ?_
    subst heq
    obtain hcall | hcall := List.mem_append.1 hcall
    · obtain ⟨-, pid', hpid', -⟩ := (mem_changed_iff hcurrent).1 hcall
      simp [hl] at hpid'
    · simpa [hl] using (mem_gone_iff.1 hcall).2.2
  | some pid =>
    cases hc : listed current pnr with
    | none =>
      refine pidAfter_of_mem hnodup (List.mem_append_right _ (mem_gone_iff.2 ⟨rfl, hc, ?_⟩))
      rw [hl]
      rfl
    | some pid' =>
      by_cases heq : pid = pid'
      · rw [tracked, if_pos heq]
        refine pidAfter_of_not_mem fun call hcall hpnr => ?_
        subst hpnr
        obtain hcall | hcall := List.mem_append.1 hcall
        · obtain ⟨hcur, pid'', hpid'', hne⟩ := (mem_changed_iff hcurrent).1 hcall
          rw [hl] at hpid''
          rw [hc] at hcur
          exact hne (by rw [← Option.some.inj hpid'', ← Option.some.inj hcur, heq])
        · simpa [hc] using (mem_gone_iff.1 hcall).2.1
      · rw [tracked, if_neg heq]
        exact pidAfter_of_mem hnodup
          (List.mem_append_left _ ((mem_changed_iff hcurrent).2 ⟨hc, pid, hl, heq⟩))

end

/-- The first table, or the first one after streams were added. -/
theorem pidAfter_first {current : List PatProg} (hcurrent : Distinct current) (pnr pmtpid : ℕ) :
    pidAfter pnr (patUpdate none current) pmtpid = tracked pmtpid none (listed current pnr) := by
  have hnodup : ((patUpdate none current).map Prod.fst).Nodup := by
    rw [patUpdate, List.map_map]
    exact hcurrent
  cases hc : listed current pnr with
  | none =>
    refine pidAfter_of_not_mem fun call hcall => ?_
    obtain ⟨pp, hpp, rfl⟩ := List.mem_map.1 hcall
    exact listed_eq_none_iff.1 hc pp hpp
  | some pid =>
    refine pidAfter_of_mem hnodup (List.mem_map.2 ⟨⟨pnr, pid⟩, ?_, rfl⟩)
    exact (listed_eq_some_iff hcurrent).1 hc

/-- `pat_update` tells a program what is new. -/
theorem pidAfter_patUpdate {last : Option (List PatProg)} {current : List PatProg}
    (hlast : ∀ table, last = some table → Distinct table) (hcurrent : Distinct current)
    (pnr pmtpid : ℕ) :
    pidAfter pnr (patUpdate last current) pmtpid =
      tracked pmtpid (last.map (listed · pnr)) (listed current pnr) := by
  cases last with
  | none => exact pidAfter_first hcurrent pnr pmtpid
  | some last => exact pidAfter_changed_append_gone (hlast last rfl) hcurrent pnr pmtpid

/-- A section is not of interest, or it makes a table current. -/
theorem patSectionCb_cases {pat pat' : PatState} {s : PsiSec} {calls : List (ℕ × ℕ)}
    (h : patSectionCb pat s = some (pat', calls)) :
    pat' = pat ∧ calls = [] ∨
    ∃ psi last table, last = (if pat.klknewprog then none else pat.current) ∧
      pat' = { psi, last, current := some table, klknewprog := false } ∧
      calls = patUpdate last table := by
  unfold patSectionCb at h
  split at h
  · obtain ⟨⟨⟩⟩ := h
    exact .inl ⟨rfl, rfl⟩
  split at h
  · obtain ⟨⟨⟩⟩ := h
    exact .inl ⟨rfl, rfl⟩
  obtain ⟨⟨psi, new⟩, -, h⟩ := Option.bind_eq_some_iff.1 h
  dsimp only at h
  split at h
  · obtain ⟨⟨⟩⟩ := h
    exact .inl ⟨rfl, rfl⟩
  obtain ⟨table, -, ⟨⟩⟩ := Option.bind_eq_some_iff.1 h
  refine .inr ⟨psi, _, table, rfl, ?_, ?_⟩ <;> cases hnew : pat.klknewprog <;> simp [hnew]

/-! ## What the steps do to the programs -/

theorem view_programPidfrompat {a a' : Demux} {prog prog' : Program} {pmtpid : ℕ}
    (h : programPidfrompat a prog pmtpid = some (a', prog')) :
    prog'.view = { prog.view with pmtpid } := by
  unfold programPidfrompat at h
  split at h
  next heq =>
    obtain ⟨⟨⟩⟩ := h
    rw [← heq]
    rfl
  next =>
    obtain ⟨⟨a₁, prog₁⟩, hleave, h⟩ := Option.bind_eq_some_iff.1 h
    obtain ⟨⟨a₂, prog₂⟩, hjoin, ⟨⟩⟩ := Option.map_eq_some_iff.1 h
    have hleave := Program.turns_leavePmtPid hleave
    have hjoin := Program.turns_joinPmtPid hjoin
    rw [Program.view, Program.view, hjoin.pnr_progcbl.1, hjoin.freed]
    exact congrArg₂ (ProgramView.mk · · pmtpid) hleave.pnr_progcbl.1 hleave.freed

theorem view_pmtDvrPmtCb {a a' : Demux} {prog prog' : Program} {s : PsiSec}
    (h : pmtDvrPmtCb a prog s = some (a', prog')) : prog'.view = prog.view := by
  unfold pmtDvrPmtCb at h
  split at h
  · obtain ⟨⟨⟩⟩ := h
    rfl
  split at h
  · obtain ⟨⟨⟩⟩ := h
    rfl
  split at h
  · obtain ⟨⟨⟩⟩ := h
    rfl
  obtain ⟨⟨psi, new⟩, -, h⟩ := Option.bind_eq_some_iff.1 h
  dsimp only at h
  split at h
  · obtain ⟨⟨⟩⟩ := h
    rfl
  obtain ⟨pmt, -, h⟩ := Option.bind_eq_some_iff.1 h
  have hturns := turns_pmtUpdate h
  rw [Program.view, hturns.pnr_progcbl.1, hturns.freed, hturns.pmtpid]
  rfl

theorem view_leave {a a' : Demux} {prog prog' : Program}
    (h : (pmtProgDelCb a prog).bind (fun p => some (p.1, { p.2 with freed := true })) =
      some (a', prog')) : prog'.view = { prog.view with freed := true } := by
  obtain ⟨⟨a₁, prog₁⟩, hdel, ⟨⟩⟩ := Option.bind_eq_some_iff.1 h
  unfold pmtProgDelCb at hdel
  split at hdel
  next =>
    obtain ⟨⟨a₂, prog₂⟩, hall, hdel⟩ := Option.bind_eq_some_iff.1 hdel
    obtain ⟨pmtpidcb, -, hdel⟩ := Option.bind_eq_some_iff.1 hdel
    obtain ⟨a₃, -, ⟨⟩⟩ := Option.bind_eq_some_iff.1 hdel
    have hturns := turns_leaveAll hall
    exact congrArg₂ (ProgramView.mk · true ·) hturns.pnr_progcbl.1 hturns.pmtpid
  next =>
    obtain ⟨⟨⟩⟩ := hdel
    rfl

namespace Adapter

variable {adapter adapter' : Adapter}

def views (adapter : Adapter) : List ProgramView := adapter.pnrlist.map Program.view

/-- No number has two programs. -/
def Primary (adapter : Adapter) : Prop := (adapter.views.map (·.pnr)).Nodup

theorem map_ite_of_ne {pnr : ℕ} {g : ProgramView → ProgramView} {views : List ProgramView}
    (h : ∀ v ∈ views, v.pnr ≠ pnr) : views.map (fun v => if v.pnr = pnr then g v else v) = views :=
  (List.map_congr_left fun v hv => if_neg (h v hv)).trans (List.map_id views)

/-- A function is applied to the program with a number. -/
theorem views_onProgram {pnr : ℕ} {f : Demux → Program → Option (Demux × Program)}
    {g : ProgramView → ProgramView} (hprimary : adapter.Primary)
    (h : adapter.onProgram pnr f = some adapter')
    (hf : ∀ a prog a' prog', f a prog = some (a', prog') → prog'.view = g prog.view) :
    adapter'.pat = adapter.pat ∧
      adapter'.views = adapter.views.map fun v => if v.pnr = pnr then g v else v := by
  obtain ⟨⟨demux, pnrlist⟩, hwith, ⟨⟩⟩ := Option.map_eq_some_iff.1 h
  obtain ⟨front, prog, prog', back, hpl, rfl, hfront, hpnr, -, hprog⟩ := withProgram_eq_some hwith
  refine ⟨rfl, ?_⟩
  have hback : ∀ v ∈ back.map Program.view, v.pnr ≠ pnr := by
    rw [Primary, views, hpl, List.map_append, List.map_cons, List.map_append, List.map_cons,
      List.nodup_append] at hprimary
    intro v hv heq
    exact (List.nodup_cons.1 hprimary.2.1).1 (List.mem_map.2 ⟨v, hv, heq.trans hpnr.symm⟩)
  have hfront' : ∀ v ∈ front.map Program.view, v.pnr ≠ pnr := by simpa [Program.view] using hfront
  rw [views, views, hpl, List.map_append, List.map_cons, List.map_append, List.map_cons,
    List.map_append, List.map_cons, map_ite_of_ne hfront', map_ite_of_ne hback, hf _ _ _ _ hprog]
  exact congrArg (front.map Program.view ++ · :: back.map Program.view) (if_pos hpnr).symm

theorem views_pmtPidfrompat {pnr pmtpid : ℕ} (hprimary : adapter.Primary)
    (h : adapter.pmtPidfrompat pnr pmtpid = some adapter') :
    adapter'.pat = adapter.pat ∧
      adapter'.views = adapter.views.map fun v => if v.pnr = pnr then { v with pmtpid } else v := by
  obtain ⟨found, hfound, h⟩ := Option.bind_eq_some_iff.1 h
  cases found with
  | true => exact views_onProgram hprimary h fun _ _ _ _ => view_programPidfrompat
  | false =>
    obtain rfl := Option.some.inj h
    have hne : ∀ v ∈ adapter.views, v.pnr ≠ pnr := by
      simpa [views, Program.view] using pnr_ne_of_pmtProgFromPnr hfound
    exact ⟨rfl, (map_ite_of_ne hne).symm⟩

theorem primary_of_map {g : ProgramView → ProgramView} (hprimary : adapter.Primary)
    (hg : ∀ v, (g v).pnr = v.pnr) (h : adapter'.views = adapter.views.map g) :
    adapter'.Primary := by
  rw [Primary, h, List.map_map]
  exact (List.map_congr_left fun v _ => hg v) ▸ hprimary

theorem views_pidsFromPat {calls : List (ℕ × ℕ)} (hprimary : adapter.Primary)
    (h : adapter.pidsFromPat calls = some adapter') :
    adapter'.pat = adapter.pat ∧
      adapter'.views = adapter.views.map fun v =>
        { v with pmtpid := pidAfter v.pnr calls v.pmtpid } := by
  induction calls generalizing adapter with
  | nil =>
    obtain ⟨⟨⟩⟩ := h
    exact ⟨rfl, (List.map_id _).symm⟩
  | cons call calls ih =>
    obtain ⟨adapter₁, hcall, hcalls⟩ := Option.bind_eq_some_iff.1 h
    obtain ⟨hpat₁, hviews₁⟩ := views_pmtPidfrompat hprimary hcall
    have hprimary₁ : adapter₁.Primary := by
      refine primary_of_map hprimary (fun v => ?_) hviews₁
      split <;> rfl
    obtain ⟨hpat, hviews⟩ := ih hprimary₁ hcalls
    refine ⟨hpat.trans hpat₁, ?_⟩
    rw [hviews, hviews₁, List.map_map]
    refine List.map_congr_left fun v _ => ?_
    by_cases hv : v.pnr = call.1
    · simp [hv, pidAfter]
    · simp [hv, Ne.symm hv, pidAfter]

/-- What a step does to the programs: one is new, one is freed, or a table has been read. -/
theorem views_step {action : AdapterAction} (hprimary : adapter.Primary)
    (h : adapter.step action = some adapter') :
    (adapter'.pat = adapter.pat ∧
        ((∃ pnr, (∀ v ∈ adapter.views, v.pnr ≠ pnr) ∧
            adapter'.views = adapter.views ++ [⟨pnr, false, 0⟩]) ∨
          ∃ pnr, adapter'.views = adapter.views.map fun v =>
            if v.pnr = pnr then { v with freed := true } else v)) ∨
      (adapter'.views = adapter.views ∧
        (adapter'.pat = adapter.pat ∨
          action = .newprog ∧ adapter'.pat = { adapter.pat with klknewprog := true })) ∨
      ∃ pid s pcb calls, action = .callback pid s pcb ∧ pcb.callback = .patSectionCb ∧
        patSectionCb adapter.pat s = some (adapter'.pat, calls) ∧
        adapter'.views = adapter.views.map fun v =>
          { v with pmtpid := pidAfter v.pnr calls v.pmtpid } := by
  cases action with
  | join pnr stream =>
    obtain ⟨found, hfound, h⟩ := Option.bind_eq_some_iff.1 h
    obtain ⟨adapter₁, hprog, ⟨⟩⟩ := Option.bind_eq_some_iff.1 h
    have hinit : adapter₁.patInit.pat = adapter₁.pat ∧ adapter₁.patInit.views = adapter₁.views := by
      unfold Adapter.patInit
      split <;> exact ⟨rfl, rfl⟩
    rw [hinit.1, hinit.2]
    have hsame : ∀ (a : Demux) (prog : Program) (a' : Demux) (prog' : Program),
        some (a, { prog with progcbl := prog.progcbl ++ [stream] }) = some (a', prog') →
          prog'.view = prog.view := by
      rintro a prog a' prog' ⟨⟩
      rfl
    cases found with
    | true =>
      obtain ⟨hpat, hviews⟩ := views_onProgram hprimary hprog (g := id) hsame
      exact .inr (.inl ⟨hviews.trans (by simp), .inl hpat⟩)
    | false =>
      have hne : ∀ v ∈ adapter.views, v.pnr ≠ pnr := by
        simpa [views, Program.view] using pnr_ne_of_pmtProgFromPnr hfound
      have hviews' : (adapter.pmtProgNew pnr false).views = adapter.views ++ [⟨pnr, false, 0⟩] := by
        simp [views, Adapter.pmtProgNew, Program.view]
      have hprimary' : (adapter.pmtProgNew pnr false).Primary := by
        rw [Primary, hviews', List.map_append, List.map_singleton]
        refine List.Nodup.append hprimary (List.nodup_singleton _) ?_
        simpa [List.disjoint_singleton] using hne
      obtain ⟨hpat, hviews⟩ := views_onProgram hprimary' hprog (g := id) hsame
      refine .inl ⟨hpat, .inl ⟨pnr, hne, hviews.trans ?_⟩⟩
      rw [hviews']
      simp
  | leave pnr =>
    obtain ⟨found, -, h⟩ := Option.bind_eq_some_iff.1 h
    cases found with
    | false => exact .inr (.inl (Option.some.inj h ▸ ⟨rfl, .inl rfl⟩))
    | true =>
      obtain ⟨hpat, hviews⟩ := views_onProgram hprimary h (g := fun v => { v with freed := true })
        fun _ _ _ _ hleave => view_leave hleave
      exact .inl ⟨hpat, .inr ⟨pnr, hviews⟩⟩
  | newprog => exact .inr (.inl (Option.some.inj h ▸ ⟨rfl, .inr ⟨rfl, rfl⟩⟩))
  | callback pid s pcb =>
    obtain ⟨-, h⟩ := Option.ite_none_right_eq_some.1 h
    unfold Adapter.callback at h
    split at h
    next hpcb =>
      obtain ⟨⟨pat, calls⟩, hpat, hcalls⟩ := Option.bind_eq_some_iff.1 h
      have hprimary' : Primary { adapter with pat } := hprimary
      obtain ⟨hpat', hviews⟩ := views_pidsFromPat hprimary' hcalls
      exact .inr (.inr ⟨pid, s, pcb, calls, rfl, hpcb, hpat' ▸ hpat, hviews⟩)
    · obtain ⟨hpat, hviews⟩ := views_onProgram hprimary h (g := id) fun _ _ _ _ => view_pmtDvrPmtCb
      exact .inr (.inl ⟨hviews.trans (by simp), .inl hpat⟩)
    · exact .inr (.inl (Option.some.inj h ▸ ⟨rfl, .inl rfl⟩))

theorem Primary.step {action : AdapterAction} (h : adapter.Primary)
    (heq : adapter.step action = some adapter') : adapter'.Primary := by
  obtain ⟨-, ⟨pnr, hne, hviews⟩ | ⟨pnr, hviews⟩⟩ | ⟨hviews, -⟩ |
    ⟨-, -, -, calls, -, -, -, hviews⟩ :=
    views_step h heq
  · rw [Primary, hviews, List.map_append, List.map_singleton]
    refine List.Nodup.append h (List.nodup_singleton _) ?_
    simpa [List.disjoint_singleton] using hne
  · refine primary_of_map h (fun v => ?_) hviews
    split <;> rfl
  · rwa [Primary, hviews]
  · refine primary_of_map h (fun v => ?_) hviews
    rfl

theorem primary_of_exec {budgetmode opened : Bool} {device : ℕ → Bool}
    {actions : List AdapterAction}
    (h : exec step { demux := Demux.dvrInit budgetmode opened device } actions = some adapter) :
    adapter.Primary :=
  exec_induction Primary.step (by simp [Primary, views]) h

/-- No program is forgotten. -/
theorem exists_pnr_step {action : AdapterAction} {pnr : ℕ} (hprimary : adapter.Primary)
    (h : ∃ v ∈ adapter.views, v.pnr = pnr) (heq : adapter.step action = some adapter') :
    ∃ v ∈ adapter'.views, v.pnr = pnr := by
  obtain ⟨v, hv, hpnr⟩ := h
  obtain ⟨-, ⟨pnr', -, hviews⟩ | ⟨pnr', hviews⟩⟩ | ⟨hviews, -⟩ |
    ⟨-, -, -, calls, -, -, -, hviews⟩ :=
    views_step hprimary heq
  · exact ⟨v, hviews ▸ List.mem_append_left _ hv, hpnr⟩
  · refine ⟨_, hviews ▸ List.mem_map_of_mem hv, ?_⟩
    split <;> exact hpnr
  · exact ⟨v, hviews ▸ hv, hpnr⟩
  · refine ⟨_, hviews ▸ List.mem_map.2 ⟨v, hv, rfl⟩, ?_⟩
    exact hpnr

/-- An action of the program association table leaves a table current. -/
def Receives (adapter : Adapter) (action : AdapterAction) (table : List PatProg) : Prop :=
  ∃ pid s pcb pat calls, action = .callback pid s pcb ∧ pcb.callback = .patSectionCb ∧
    patSectionCb adapter.pat s = some (pat, calls) ∧ pat.current = some table

theorem pat_step {action : AdapterAction} (hprimary : adapter.Primary)
    (h : adapter.step action = some adapter') :
    adapter'.pat = adapter.pat ∨
      (action = .newprog ∧ adapter'.pat = { adapter.pat with klknewprog := true }) ∨
      ∃ last table psi, adapter.Receives action table ∧
        last = (if adapter.pat.klknewprog then none else adapter.pat.current) ∧
        adapter'.pat = { psi, last, current := some table, klknewprog := false } := by
  obtain ⟨hpat, -⟩ | ⟨-, hpat | hpat⟩ | ⟨pid, s, pcb, calls, haction, hpcb, hcb, -⟩ :=
    views_step hprimary h
  · exact .inl hpat
  · exact .inl hpat
  · exact .inr (.inl hpat)
  · obtain ⟨hsame, -⟩ | ⟨psi, last, table, hlast, hnew, -⟩ := patSectionCb_cases hcb
    · exact .inl hsame
    · exact .inr (.inr ⟨last, table, psi,
        ⟨pid, s, pcb, _, calls, haction, hpcb, hcb, by rw [hnew]⟩, hlast, hnew⟩)

/-- What each step keeps for each program that has not been freed. -/
theorem forall_views_step {P : PatState → ProgramView → Prop} {action : AdapterAction}
    (hprimary : adapter.Primary) (h : ∀ v ∈ adapter.views, v.freed = false → P adapter.pat v)
    (hjoin : ∀ pnr, (∀ v ∈ adapter.views, v.pnr ≠ pnr) → P adapter.pat ⟨pnr, false, 0⟩)
    (hnewprog : action = .newprog → ∀ v, P adapter.pat v →
      P { adapter.pat with klknewprog := true } v)
    (hpat : ∀ pat last table psi, adapter.Receives action table →
      last = (if adapter.pat.klknewprog then none else adapter.pat.current) →
      pat = { psi, last, current := some table, klknewprog := false } →
      ∀ v ∈ adapter.views, v.freed = false → P adapter.pat v →
        P pat { v with pmtpid := pidAfter v.pnr (patUpdate last table) v.pmtpid })
    (heq : adapter.step action = some adapter') :
    ∀ v ∈ adapter'.views, v.freed = false → P adapter'.pat v := by
  obtain ⟨hpat', hviews | hviews⟩ | ⟨hviews, hpat' | hpat'⟩ |
      ⟨pid, s, pcb, calls, haction, hpcb, hcb, hviews⟩ := views_step hprimary heq
  · obtain ⟨pnr, hne, hviews⟩ := hviews
    rw [hpat', hviews]
    intro v hv hfreed
    obtain hv | hv := List.mem_append.1 hv
    · exact h v hv hfreed
    · exact List.mem_singleton.1 hv ▸ hjoin pnr hne
  · obtain ⟨pnr, hviews⟩ := hviews
    rw [hpat', hviews]
    intro v hv hfreed
    obtain ⟨w, hw, rfl⟩ := List.mem_map.1 hv
    split at hfreed
    · cases hfreed
    next hpnr =>
      rw [if_neg hpnr]
      exact h w hw hfreed
  · rwa [hpat', hviews]
  · rw [hpat'.2, hviews]
    exact fun v hv hfreed => hnewprog hpat'.1 v (h v hv hfreed)
  · rw [hviews]
    intro v hv hfreed
    obtain ⟨w, hw, rfl⟩ := List.mem_map.1 hv
    obtain ⟨hsame, rfl⟩ | ⟨psi, last, table, hlast, hnew, rfl⟩ := patSectionCb_cases hcb
    · rw [hsame]
      exact h w hw hfreed
    · exact hpat _ last table psi
        ⟨pid, s, pcb, _, _, haction, hpcb, hcb, by rw [hnew]⟩ hlast hnew w hw hfreed (h w hw hfreed)

/-! ## Runs -/

/-- No program is twice in the table that is current. -/
def CurrentDistinct (adapter : Adapter) : Prop :=
  ∀ table, adapter.pat.current = some table → Distinct table

theorem CurrentDistinct.step {action : AdapterAction} (h : adapter.CurrentDistinct)
    (hprimary : adapter.Primary) (hok : ∀ table, adapter.Receives action table → Distinct table)
    (heq : adapter.step action = some adapter') : adapter'.CurrentDistinct := by
  intro t ht
  obtain hpat | ⟨-, hpat⟩ | ⟨last, table, psi, hreceives, -, hpat⟩ := pat_step hprimary heq
  · exact h t (hpat ▸ ht)
  · rw [hpat] at ht
    exact h t ht
  · rw [hpat] at ht
    exact Option.some.inj ht ▸ hok table hreceives

theorem CurrentDistinct.last (h : adapter.CurrentDistinct) {last : Option (List PatProg)}
    (hlast : last = if adapter.pat.klknewprog then none else adapter.pat.current) :
    ∀ table, last = some table → Distinct table := by
  rintro table rfl
  split at hlast
  · cases hlast
  · exact h table hlast.symm

/-- No program is twice in a table, and the first table after streams were added has all programs
that are received. -/
def Complete (adapter : Adapter) (action : AdapterAction) : Prop :=
  ∀ table, adapter.Receives action table → Distinct table ∧
    (adapter.pat.klknewprog = true → ∀ v ∈ adapter.views, v.freed = false → v.pmtpid ≠ 0 →
      (listed table v.pnr).isSome)

/-- The pid of a program is none, or the one of the current table. -/
def UpToDate (pat : PatState) (v : ProgramView) : Prop :=
  v.pmtpid = 0 ∨ ∃ table, pat.current = some table ∧ listed table v.pnr = some v.pmtpid

theorem upToDate_step {action : AdapterAction}
    (h : adapter.Primary ∧ adapter.CurrentDistinct ∧
      ∀ v ∈ adapter.views, v.freed = false → UpToDate adapter.pat v)
    (hok : adapter.Complete action) (heq : adapter.step action = some adapter') :
    adapter'.Primary ∧ adapter'.CurrentDistinct ∧
      ∀ v ∈ adapter'.views, v.freed = false → UpToDate adapter'.pat v := by
  obtain ⟨hprimary, hdistinct, hviews⟩ := h
  refine ⟨hprimary.step heq, hdistinct.step hprimary (fun table ht => (hok table ht).1) heq,
    forall_views_step hprimary hviews (fun _ _ => .inl rfl) (fun _ _ hv => hv) ?_ heq⟩
  rintro - last table psi ht hlast rfl v hv hfreed hup
  obtain ⟨htable, hlisted⟩ := hok table ht
  have hpid := pidAfter_patUpdate (hdistinct.last hlast) htable v.pnr v.pmtpid
  suffices htracked : tracked v.pmtpid (last.map (listed · v.pnr)) (listed table v.pnr) = 0 ∨
      listed table v.pnr =
        some (tracked v.pmtpid (last.map (listed · v.pnr)) (listed table v.pnr)) by
    rw [← hpid] at htracked
    exact htracked.imp_right fun hnow => ⟨table, rfl, hnow⟩
  refine tracked_eq_zero_or (fun h0 hnone => ?_) fun h0 l hl => ?_
  · by_cases hnew : adapter.pat.klknewprog = true
    · exact hlisted hnew v hv hfreed h0
    · obtain ⟨t, hcurrent, -⟩ := hup.resolve_left h0
      simp [hlast, hnew, hcurrent] at hnone
  · obtain ⟨t, hcurrent, hpid⟩ := hup.resolve_left h0
    by_cases hnew : adapter.pat.klknewprog = true
    · simp [hlast, hnew] at hl
    · simpa [hlast, hnew, hcurrent, hpid, eq_comm] using hl

section

variable {budgetmode opened : Bool} {device : ℕ → Bool} {actions : List AdapterAction}

/-- A program never waits for its table on a pid that the current program association table does not
give it. -/
theorem upToDate_of_exec
    (h : exec step { demux := Demux.dvrInit budgetmode opened device } actions = some adapter)
    (hok : EachStep step Complete { demux := Demux.dvrInit budgetmode opened device } actions)
    {prog : Program} (hprog : prog ∈ adapter.pnrlist) (hfreed : prog.freed = false) :
    prog.pmtpid = 0 ∨ ∃ table, adapter.pat.current = some table ∧
      listed table prog.pnr = some prog.pmtpid := by
  have hinv := exec_induction_of_eachStep upToDate_step
    ⟨by simp [Primary, views], by simp [CurrentDistinct], by simp [views]⟩ hok h
  exact hinv.2.2 prog.view (List.mem_map_of_mem hprog) hfreed

/-- What holds of the table that a section leaves current. -/
theorem of_receives {adapter : Adapter} {pid : ℕ} {s : PsiSec} {pcb : PidCallback}
    {P : List PatProg → Bool} {table : List PatProg}
    (h : (patSectionCb adapter.pat s).all (·.1.current.all P) = true)
    (hreceives : adapter.Receives (.callback pid s pcb) table) : P table = true := by
  obtain ⟨_, _, _, pat, calls, ⟨⟩, -, hcb, hcurrent⟩ := hreceives
  rw [hcb, Option.all_some, hcurrent, Option.all_some] at h
  exact h

theorem upToDate_of_exec_joined : ∃ adapter prog,
    exec step { demux := Demux.dvrInit false true fun _ => true }
      [.join 1 7, .callback 0 patSec ⟨0, .section, .patSectionCb⟩] = some adapter ∧
    prog ∈ adapter.pnrlist ∧ prog.pmtpid ≠ 0 ∧
    (prog.pmtpid = 0 ∨ ∃ table, adapter.pat.current = some table ∧
      listed table prog.pnr = some prog.pmtpid) := by
  have hjoin : step { demux := Demux.dvrInit false true fun _ => true } (.join 1 7) =
      some joined := rfl
  have hrun : (step joined (.callback 0 patSec ⟨0, .section, .patSectionCb⟩)).any
      (·.pnrlist.any fun prog => prog.freed = false ∧ prog.pmtpid ≠ 0) = true := by decide +kernel
  have hdistinct : (patSectionCb joined.pat patSec).all
      (·.1.current.all (Distinct ·)) = true := by decide +kernel
  obtain ⟨adapter, h, hprogs⟩ := (Option.any_eq_true _ _).1 hrun
  obtain ⟨prog, hprog, hprog'⟩ := List.any_eq_true.1 hprogs
  obtain ⟨hfreed, hpmtpid⟩ := of_decide_eq_true hprog'
  have hexec : exec step { demux := Demux.dvrInit false true fun _ => true }
      [.join 1 7, .callback 0 patSec ⟨0, .section, .patSectionCb⟩] = some adapter := by
    rw [exec_cons, hjoin, Option.bind_some, exec_cons, h]
    rfl
  refine ⟨adapter, prog, hexec, hprog, hpmtpid, upToDate_of_exec hexec ?_ hprog hfreed⟩
  refine EachStep.cons hjoin ?_ fun _ _ => ⟨fun table htable => ?_, trivial⟩
  · rintro table ⟨_, _, _, _, _, ⟨⟩, -⟩
  · exact ⟨of_decide_eq_true (of_receives hdistinct htable), fun hnew => nomatch hnew⟩

/-- All tables have a program, and none has a program twice. -/
def Lists (pnr : ℕ) (adapter : Adapter) (action : AdapterAction) : Prop :=
  ∀ table, adapter.Receives action table → Distinct table ∧ (listed table pnr).isSome

/-- The next table is read as the first one, or the program has the pid of the current one. -/
def Restarted (pnr : ℕ) (pat : PatState) (v : ProgramView) : Prop :=
  v.pnr = pnr → pat.klknewprog = true ∨
    ∃ table, pat.current = some table ∧ Distinct table ∧ listed table pnr = some v.pmtpid

theorem tracked_of_listed {pmtpid pid : ℕ} {before : Option (Option ℕ)}
    (h : before = none ∨ before = some (some pmtpid)) : tracked pmtpid before (some pid) = pid := by
  obtain rfl | rfl := h
  · rfl
  · by_cases heq : pmtpid = pid <;> simp [tracked, heq]

theorem restarted_step {pnr : ℕ} {action : AdapterAction}
    (h : adapter.Primary ∧ (∃ v ∈ adapter.views, v.pnr = pnr) ∧
      ∀ v ∈ adapter.views, v.freed = false → Restarted pnr adapter.pat v)
    (hok : adapter.Lists pnr action) (heq : adapter.step action = some adapter') :
    adapter'.Primary ∧ (∃ v ∈ adapter'.views, v.pnr = pnr) ∧
      ∀ v ∈ adapter'.views, v.freed = false → Restarted pnr adapter'.pat v := by
  obtain ⟨hprimary, hthere, hviews⟩ := h
  refine ⟨hprimary.step heq, exists_pnr_step hprimary hthere heq,
    forall_views_step hprimary hviews (fun pnr' hne hpnr => ?_) (fun _ _ _ _ => .inl rfl) ?_ heq⟩
  · obtain ⟨v, hv, hvpnr⟩ := hthere
    exact absurd (hvpnr.trans hpnr.symm) (hne v hv)
  · rintro - last table psi ht hlast rfl v hv hfreed hrestarted hpnr
    obtain ⟨hdistinct, hlisted⟩ := hok table ht
    obtain ⟨pid, hpid⟩ := Option.isSome_iff_exists.1 hlisted
    have hpnr' : v.pnr = pnr := hpnr
    refine .inr ⟨table, rfl, hdistinct, hpid.trans (congrArg some ?_)⟩
    by_cases hnew : adapter.pat.klknewprog = true
    · rw [if_pos hnew] at hlast
      subst hlast
      exact ((pidAfter_patUpdate (by simp) hdistinct _ _).trans
        (by rw [hpnr', hpid, Option.map_none, tracked_of_listed (.inl rfl)])).symm
    · obtain ⟨t, hcurrent, htdistinct, htpid⟩ := (hrestarted hpnr').resolve_left hnew
      rw [if_neg hnew, hcurrent] at hlast
      subst hlast
      refine ((pidAfter_patUpdate (by simpa using htdistinct) hdistinct _ _).trans ?_).symm
      rw [hpnr', hpid, Option.map_some, htpid, tracked_of_listed (.inr rfl)]

/-- A program that all tables have since streams were added is received at the pid that the current
table gives it. -/
theorem listed_of_exec {actions' : List AdapterAction} {before : Adapter}
    (hbefore : exec step { demux := Demux.dvrInit budgetmode opened device } actions = some before)
    (hnew : before.pat.klknewprog = true) {pnr : ℕ}
    (hthere : ∃ prog ∈ before.pnrlist, prog.pnr = pnr)
    (h : exec step before actions' = some adapter)
    (hok : EachStep step (Lists pnr) before actions') (hread : adapter.pat.klknewprog = false)
    {prog : Program} (hprog : prog ∈ adapter.pnrlist) (hfreed : prog.freed = false)
    (hpnr : prog.pnr = pnr) :
    ∃ table, adapter.pat.current = some table ∧ listed table pnr = some prog.pmtpid := by
  have hinv := exec_induction_of_eachStep restarted_step
    ⟨primary_of_exec hbefore, by simpa [views, Program.view] using hthere,
      fun _ _ _ _ => .inl hnew⟩ hok h
  obtain hnew' | ⟨table, hcurrent, -, hlisted⟩ :=
    hinv.2.2 prog.view (List.mem_map_of_mem hprog) hfreed hpnr
  · exact absurd (hread.symm.trans hnew') Bool.false_ne_true
  · exact ⟨table, hcurrent, hlisted⟩

theorem listed_of_exec_newprog : ∃ adapter prog,
    exec step { joined with pat := { klknewprog := true } }
      [.callback 0 patSec ⟨0, .section, .patSectionCb⟩] = some adapter ∧
    prog ∈ adapter.pnrlist ∧ prog.pnr = 1 ∧
    ∃ table, adapter.pat.current = some table ∧ listed table 1 = some prog.pmtpid := by
  have hbefore : exec step { demux := Demux.dvrInit false true fun _ => true }
      [.join 1 7, .newprog] = some { joined with pat := { klknewprog := true } } := rfl
  have hrun : (exec step { joined with pat := { klknewprog := true } }
      [.callback 0 patSec ⟨0, .section, .patSectionCb⟩]).any (fun s =>
        s.pat.klknewprog = false ∧
          s.pnrlist.any fun prog => prog.freed = false ∧ prog.pnr = 1) = true := by decide +kernel
  have htables : (patSectionCb { klknewprog := true } patSec).all (·.1.current.all fun table =>
      Distinct table ∧ (listed table 1).isSome) = true := by decide +kernel
  obtain ⟨adapter, h, hadapter⟩ := (Option.any_eq_true _ _).1 hrun
  obtain ⟨hread, hprogs⟩ := of_decide_eq_true hadapter
  obtain ⟨prog, hprog, hprog'⟩ := List.any_eq_true.1 hprogs
  obtain ⟨hfreed, hpnr⟩ := of_decide_eq_true hprog'
  refine ⟨adapter, prog, h, hprog, hpnr,
    listed_of_exec hbefore rfl ⟨_, List.mem_singleton_self _, rfl⟩ h ?_ hread hprog hfreed hpnr⟩
  exact fun _ _ => ⟨fun table htable => of_decide_eq_true (of_receives htables htable), trivial⟩

/-- No streams are added, and the tables that have a program give it the same pid. -/
def OnlyAt (pnr pid : ℕ) (adapter : Adapter) (action : AdapterAction) : Prop :=
  action ≠ .newprog ∧ ∀ table, adapter.Receives action table →
    Distinct table ∧ ∀ pid', listed table pnr = some pid' → pid' = pid

/-- The current table does not give a program any other pid. -/
def StuckAt (pnr pid : ℕ) (pat : PatState) : Prop :=
  pat.klknewprog = false ∧ ∃ table, pat.current = some table ∧ Distinct table ∧
    ∀ pid', listed table pnr = some pid' → pid' = pid

theorem stuck_step {pnr pid : ℕ} {action : AdapterAction}
    (h : adapter.Primary ∧ StuckAt pnr pid adapter.pat ∧
      ∀ v ∈ adapter.views, v.freed = false → v.pnr = pnr → v.pmtpid = 0)
    (hok : adapter.OnlyAt pnr pid action) (heq : adapter.step action = some adapter') :
    adapter'.Primary ∧ StuckAt pnr pid adapter'.pat ∧
      ∀ v ∈ adapter'.views, v.freed = false → v.pnr = pnr → v.pmtpid = 0 := by
  obtain ⟨hprimary, hstuck, hviews⟩ := h
  refine ⟨hprimary.step heq, ?_, forall_views_step (P := fun _ v => v.pnr = pnr → v.pmtpid = 0)
    hprimary hviews (fun _ _ _ => rfl) (fun haction => absurd haction hok.1) ?_ heq⟩
  · obtain hpat | ⟨haction, -⟩ | ⟨last, table, psi, ht, -, hpat⟩ := pat_step hprimary heq
    · rwa [hpat]
    · exact absurd haction hok.1
    · obtain ⟨hdistinct, hpid⟩ := hok.2 table ht
      exact hpat ▸ ⟨rfl, table, rfl, hdistinct, hpid⟩
  · rintro - last table psi ht hlast rfl v hv hfreed hzero hpnr
    obtain ⟨hdistinct, hpid⟩ := hok.2 table ht
    obtain ⟨hnew, t, hcurrent, htdistinct, htpid⟩ := hstuck
    rw [hnew, if_neg Bool.false_ne_true, hcurrent] at hlast
    subst hlast
    have hpnr' : v.pnr = pnr := hpnr
    refine (pidAfter_patUpdate (by simpa using htdistinct) hdistinct _ _).trans ?_
    rw [hzero hpnr', hpnr', Option.map_some]
    cases hl : listed t pnr with
    | none => rfl
    | some pid₁ =>
      cases hl' : listed table pnr with
      | none => rfl
      | some pid₂ => rw [tracked, if_pos ((htpid pid₁ hl).trans (hpid pid₂ hl').symm)]

/-- A program that is not received stays so as long as the tables that have it give it the pid that
the current one does, if any. -/
theorem pmtpid_eq_zero_of_exec {actions' : List AdapterAction} {before : Adapter} {pnr pid : ℕ}
    (hbefore : exec step { demux := Demux.dvrInit budgetmode opened device } actions = some before)
    (hstuck : StuckAt pnr pid before.pat)
    (hzero : ∀ prog ∈ before.pnrlist, prog.freed = false → prog.pnr = pnr → prog.pmtpid = 0)
    (h : exec step before actions' = some adapter)
    (hok : EachStep step (OnlyAt pnr pid) before actions') :
    ∀ prog ∈ adapter.pnrlist, prog.freed = false → prog.pnr = pnr → prog.pmtpid = 0 := by
  have hinv := exec_induction_of_eachStep stuck_step
    ⟨primary_of_exec hbefore, hstuck, by simpa [views, Program.view] using hzero⟩ hok h
  exact fun prog hprog => hinv.2.2 prog.view (List.mem_map_of_mem hprog)

/-- A table without the program that was joined. -/
def patOther : PsiSec := { data := Block.ofList PSI_MAX_SIZE (patBytes [⟨2, 0x200⟩] 1 0) 0 }

/-- The first table has not got the program, and the second one has. -/
theorem pmtpid_eq_zero_of_exec_patOther : ∃ before adapter,
    exec step { demux := Demux.dvrInit false true fun _ => true }
      [.join 1 7, .callback 0 patOther ⟨0, .section, .patSectionCb⟩] = some before ∧
    exec step before [.callback 0 patSec ⟨0, .section, .patSectionCb⟩] = some adapter ∧
    adapter.pat.current.any (listed · 1 = some 0x100) = true ∧
    ∀ prog ∈ adapter.pnrlist, prog.freed = false → prog.pnr = 1 → prog.pmtpid = 0 := by
  have hjoin : step { demux := Demux.dvrInit false true fun _ => true } (.join 1 7) =
      some joined := rfl
  have hrun : (step joined (.callback 0 patOther ⟨0, .section, .patSectionCb⟩)).any (fun s =>
      s.pat.klknewprog = false ∧
        (s.pat.current.any fun table => Distinct table ∧ listed table 1 = none) ∧
        (s.pnrlist.all fun prog => prog.pmtpid = 0) ∧
        ((patSectionCb s.pat patSec).all fun r => r.1.current.all fun table =>
          Distinct table ∧ listed table 1 = some 0x100) ∧
        (exec step s [.callback 0 patSec ⟨0, .section, .patSectionCb⟩]).any fun s' =>
          s'.pat.current.any (listed · 1 = some 0x100)) = true := by decide +kernel
  obtain ⟨before, h, hbefore⟩ := (Option.any_eq_true _ _).1 hrun
  obtain ⟨hnew, hcurrent, hzero, htables, hnext⟩ := of_decide_eq_true hbefore
  obtain ⟨adapter, hexec, hthere⟩ := (Option.any_eq_true _ _).1 hnext
  obtain ⟨table, htable, hlisted⟩ := (Option.any_eq_true _ _).1 hcurrent
  obtain ⟨hdistinct, hnone⟩ := of_decide_eq_true hlisted
  have hexec₀ : exec step { demux := Demux.dvrInit false true fun _ => true }
      [.join 1 7, .callback 0 patOther ⟨0, .section, .patSectionCb⟩] = some before := by
    rw [exec_cons, hjoin, Option.bind_some, exec_cons, h]
    rfl
  have hstuck : StuckAt 1 0x100 before.pat :=
    ⟨hnew, table, htable, hdistinct, by simp [hnone]⟩
  refine ⟨before, adapter, hexec₀, hexec, hthere, pmtpid_eq_zero_of_exec hexec₀ hstuck
    (fun prog hprog _ _ => of_decide_eq_true (List.all_eq_true.1 hzero prog hprog)) hexec ?_⟩
  refine fun _ _ => ⟨⟨nofun, fun table htable => ?_⟩, trivial⟩
  obtain ⟨hdistinct, hpid⟩ := of_decide_eq_true (of_receives htables htable)
  exact ⟨hdistinct, fun pid' hpid' => Option.some.inj (hpid'.symm.trans hpid)⟩

end

end Adapter

end Kalinka.Getstream2
