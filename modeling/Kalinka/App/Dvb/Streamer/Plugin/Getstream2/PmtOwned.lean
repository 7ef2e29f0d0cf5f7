import Kalinka.App.Dvb.Streamer.Plugin.Getstream2.PmtCalls

/-!
# The callbacks of the programs that are there

`pmt_prog_del_cb` deletes the callbacks of a program only when the program has a pid for its table.
A program that the program association table no longer has, and that is left then, is freed with its
callbacks still in the demultiplexer.  In the runs without such a step a program that has been freed
holds nothing.
-/

namespace Kalinka.Getstream2

open Function Run

namespace Adapter

variable {adapter adapter' : Adapter} {budgetmode opened : Bool} {device : ℕ → Bool}

/-- The callbacks of the programs that are there, and the one of the adapter. -/
def owned (adapter : Adapter) (pid : ℕ) : List PidCallback :=
  (adapter.pnrlist.filter (!·.freed)).flatMap (·.held pid) ++
    if pid = 0 then adapter.patcbc.toList else []

/-- A program that is left has a pid for its table, or it gets no pid. -/
def leaveOk (adapter : Adapter) : AdapterAction → Bool
  | .leave pnr => adapter.pnrlist.all fun prog =>
    prog.pnr ≠ pnr || prog.freed || prog.pmtpid ≠ 0 ||
      (List.range PID_MAX).all fun pid => !prog.getsPid pid
  | _ => true

/-- A program that has been freed holds nothing. -/
def Released (adapter : Adapter) : Prop :=
  ∀ prog ∈ adapter.pnrlist, prog.freed = true → ∀ pid, prog.held pid = []

theorem Released.onProgram {pnr : ℕ} {f : Demux → Program → Option (Demux × Program)}
    (h : adapter.Released) (heq : adapter.onProgram pnr f = some adapter')
    (hf : ∀ prog ∈ adapter.pnrlist, prog.pnr = pnr → prog.freed = false → ∀ a a' prog',
      f a prog = some (a', prog') → prog'.freed = true → ∀ pid, prog'.held pid = []) :
    adapter'.Released := by
  obtain ⟨⟨demux, pnrlist⟩, hwith, ⟨⟩⟩ := Option.map_eq_some_iff.1 heq
  obtain ⟨front, prog, prog', back, hpl, rfl, -, hpnr, hfreed, hprog⟩ := withProgram_eq_some hwith
  unfold Released at h ⊢
  have hmem : prog ∈ adapter.pnrlist := by simp [hpl]
  rw [hpl] at h
  obtain ⟨hfront, hmid⟩ := List.forall_mem_append.1 h
  exact List.forall_mem_append.2 ⟨hfront, List.forall_mem_cons.2
    ⟨hf prog hmem hpnr hfreed _ _ _ hprog, (List.forall_mem_cons.1 hmid).2⟩⟩

/-- A function that frees no program. -/
theorem Released.onProgram_of_view {pnr : ℕ} {f : Demux → Program → Option (Demux × Program)}
    (h : adapter.Released) (heq : adapter.onProgram pnr f = some adapter')
    (hf : ∀ a prog a' prog', f a prog = some (a', prog') → prog'.freed = prog.freed) :
    adapter'.Released :=
  h.onProgram heq fun prog _ _ hfreed a a' prog' hprog hfreed' => by
    rw [hf a prog a' prog' hprog, hfreed] at hfreed'
    cases hfreed'

theorem Released.pidsFromPat {calls : List (ℕ × ℕ)} (h : adapter.Released)
    (heq : adapter.pidsFromPat calls = some adapter') : adapter'.Released := by
  induction calls generalizing adapter with
  | nil => exact Option.some.inj heq ▸ h
  | cons call calls ih =>
    obtain ⟨adapter₁, hcall, hcalls⟩ := Option.bind_eq_some_iff.1 heq
    obtain ⟨found, -, hcall⟩ := Option.bind_eq_some_iff.1 hcall
    refine ih ?_ hcalls
    cases found with
    | false => exact Option.some.inj hcall ▸ h
    | true =>
      exact h.onProgram_of_view hcall fun a prog a' prog' hprog =>
        congrArg ProgramView.freed (view_programPidfrompat hprog)

theorem Released.callback {s : PsiSec} {pcb : PidCallback} (h : adapter.Released)
    (heq : adapter.callback s pcb = some adapter') : adapter'.Released := by
  unfold Adapter.callback at heq
  split at heq
  · obtain ⟨⟨pat, calls⟩, -, hcalls⟩ := Option.bind_eq_some_iff.1 heq
    have hpat : Released { adapter with pat } := h
    exact hpat.pidsFromPat hcalls
  · exact h.onProgram_of_view heq fun a prog a' prog' hprog =>
      congrArg ProgramView.freed (view_pmtDvrPmtCb hprog)
  · exact Option.some.inj heq ▸ h

theorem Released.pmtJoinPnr {pnr stream : ℕ} (h : adapter.Released)
    (heq : adapter.pmtJoinPnr pnr stream = some adapter') : adapter'.Released := by
  obtain ⟨found, -, heq⟩ := Option.bind_eq_some_iff.1 heq
  obtain ⟨adapter₁, hprog, ⟨⟩⟩ := Option.bind_eq_some_iff.1 heq
  have hnew : (adapter.pmtProgNew pnr found).Released := by
    cases found with
    | true => exact h
    | false => exact List.forall_mem_append.2 ⟨h, List.forall_mem_singleton.2 nofun⟩
  have hjoin : adapter₁.Released := hnew.onProgram_of_view hprog <| by
    rintro a prog a' prog' ⟨⟩
    rfl
  unfold Adapter.patInit
  split <;> exact hjoin

/-- A program that is left leaves all of its pids, and forgets the callback for its table. -/
theorem held_eq_nil_of_leave {a a' : Demux} {prog prog' : Program} (hserved : prog.Served)
    (hok : prog.pmtpid = 0 → ∀ pid < PID_MAX, prog.pidtable pid = [])
    (h : (pmtProgDelCb a prog).bind (fun p => some (p.1, { p.2 with freed := true })) =
      some (a', prog')) (pid : ℕ) : prog'.held pid = [] := by
  obtain ⟨⟨a₁, prog₁⟩, hdel, ⟨⟩⟩ := Option.bind_eq_some_iff.1 h
  unfold pmtProgDelCb at hdel
  split at hdel
  · obtain ⟨⟨a₂, prog₂⟩, hall, hdel⟩ := Option.bind_eq_some_iff.1 hdel
    obtain ⟨pmtpidcb, -, hdel⟩ := Option.bind_eq_some_iff.1 hdel
    obtain ⟨a₃, -, ⟨⟩⟩ := Option.bind_eq_some_iff.1 hdel
    have hnone : prog₂.pidtable pid = [] := by
      by_contra hne
      obtain ⟨hpid, hout⟩ := ((turns_leaveAll hall).gets hserved pid).1 hne
      exact hout (List.mem_range.2 (hserved.lt pid hpid))
    simp [Program.held, Program.pmtHeld, hnone]
  next h0 =>
    obtain ⟨⟨⟩⟩ := hdel
    have hnone : prog.pidtable pid = [] := by
      by_contra hne
      exact hne (hok (not_not.1 h0) pid (hserved.lt pid hne))
    have hpmt : prog.pmtHeld pid = [] := Program.pmtHeld_eq_nil (not_not.1 h0) pid
    simpa [Program.held, Program.pmtHeld, hnone] using hpmt

theorem Released.step {action : AdapterAction} (h : adapter.Released) (hwired : adapter.Wired)
    (hok : adapter.leaveOk action = true) (heq : adapter.step action = some adapter') :
    adapter'.Released := by
  cases action with
  | join pnr stream => exact h.pmtJoinPnr heq
  | leave pnr =>
    obtain ⟨found, -, heq⟩ := Option.bind_eq_some_iff.1 heq
    cases found with
    | false => exact Option.some.inj heq ▸ h
    | true =>
      refine h.onProgram heq fun prog hprog hpnr hfreed a a' prog' hleave _ => ?_
      refine held_eq_nil_of_leave (hwired.programs prog hprog).served ?_ hleave
      intro h0 pid hpid
      have hall : ∀ pid < PID_MAX, prog.getsPid pid = false := by
        simpa [hpnr, hfreed, h0] using List.all_eq_true.1 hok prog hprog
      simpa [Program.getsPid] using hall pid hpid
  | newprog => exact Option.some.inj heq ▸ h
  | callback pid s pcb => exact h.callback (Option.ite_none_right_eq_some.1 heq).2

/-- The program that is played has gone from the table when it is left.  Its filter stays open. -/
example : (exec step { demux := Demux.dvrInit false true fun _ => true }
    (.join 1 7 :: play ++ [.callback 0 patOther ⟨0, .section, .patSectionCb⟩, .leave 1])).any
      (fun adapter => adapter.demux.filters 0x101 ∧ adapter.owned 0x101 = []) = true := by
  decide +kernel

end Adapter

end Kalinka.Getstream2
