import Kalinka.App.Dvb.Streamer.Plugin.Getstream2.Pmt
import Mathlib.Data.List.Perm.Basic

/-!
# The callbacks that programs hold

Each program remembers its callbacks in its own array, and the demultiplexer has them in its table.
`Holds` says that the table is the result of calls that are allowed, and which callbacks it has.
A function of `pmt.c` changes the callbacks of one program and leaves all others alone, so a program
never deletes a callback that is not there any more, and no callback is left without its program.
-/

namespace Kalinka.Getstream2

open Function Run

variable {budgetmode opened : Bool} {device : ℕ → Bool}

/-- The functions for packets, and those for sections. -/
def Callback.Suits : Callback → DvrCb → Prop
  | .streamSend _, type => type = .ts
  | .dvrSectionReassemble, _ => False
  | .patSectionCb, type => type = .section
  | .pmtDvrPmtCb _, type => type = .section

/-- What is added has a function that suits it. -/
def DvrCall.Ordinary : DvrCall → Prop
  | .add _ type callback => callback.Suits type
  | .del _ _ => True

/-- The demultiplexer has been called as it should be, and has these callbacks. -/
def Holds (budgetmode opened : Bool) (device : ℕ → Bool) (a : Demux)
    (held : ℕ → List PidCallback) : Prop :=
  ∃ calls t, (∀ call ∈ calls, call.Ordinary) ∧ exec Interest.step { device } calls = some t ∧
    exec Demux.step (Demux.dvrInit budgetmode opened device) calls = some a ∧
    ∀ pid, (t.subs pid).Perm (held pid)

namespace Holds

variable {a : Demux} {held held' : ℕ → List PidCallback} {pid : ℕ} {pcb : PidCallback}
variable {rest : List PidCallback}

theorem congr (h : Holds budgetmode opened device a held)
    (hperm : ∀ pid, (held pid).Perm (held' pid)) : Holds budgetmode opened device a held' := by
  obtain ⟨calls, t, hcalls, ht, ha, hsubs⟩ := h
  exact ⟨calls, t, hcalls, ht, ha, fun pid => (hsubs pid).trans (hperm pid)⟩

theorem init : Holds budgetmode opened device (Demux.dvrInit budgetmode opened device)
    fun _ => [] :=
  ⟨[], { device }, by simp, rfl, rfl, fun _ => .nil⟩

theorem exists_refines (h : Holds budgetmode opened device a held) :
    ∃ t, a.Refines t ∧ ∀ pid, (t.subs pid).Perm (held pid) := by
  obtain ⟨calls, t, -, ht, ha, hsubs⟩ := h
  obtain ⟨a', ha', href⟩ :=
    exec_simulation Demux.Refines.step (Demux.refines_init budgetmode opened device) ht
  exact ⟨t, Option.some.inj (ha'.symm.trans ha) ▸ href, hsubs⟩

/-- A callback is added. -/
theorem add (h : Holds budgetmode opened device a held) (hpid : pid ≤ PID_MAX + 1) {type : DvrCb}
    {callback : Callback} (hsuits : callback.Suits type) :
    Holds budgetmode opened device (a.dvrAddPcb pid type callback).1
      (update held pid ((a.dvrAddPcb pid type callback).2 :: held pid)) := by
  obtain ⟨calls, t, hcalls, ht, ha, hsubs⟩ := h
  obtain ⟨a', ha', href⟩ :=
    exec_simulation Demux.Refines.step (Demux.refines_init budgetmode opened device) ht
  obtain rfl := Option.some.inj (ha'.symm.trans ha)
  have hcall : t.step (.add pid type callback) = _ := if_pos hpid
  have hcall' : a'.step (.add pid type callback) = _ := if_pos hpid
  have hordinary : ∀ call ∈ calls ++ [.add pid type callback], call.Ordinary :=
    List.forall_mem_append.2 ⟨hcalls, List.forall_mem_singleton.2 hsuits⟩
  refine ⟨_, _, hordinary, exec_concat ht hcall, exec_concat ha hcall', fun pid' => ?_⟩
  rw [(href.dvrAddPcb hpid).1]
  by_cases heq : pid' = pid
  · subst heq
    rw [update_self]
    simpa [Interest.add] using (List.perm_append_singleton _ _).trans ((hsubs pid').cons _)
  · simpa [Interest.add, heq] using hsubs pid'

/-- A callback that is there is deleted. -/
theorem del (h : Holds budgetmode opened device a held) (hpid : pid ≤ PID_MAX)
    (hpcb : (held pid).Perm (pcb :: rest)) :
    ∃ a', a.dvrDelPcb pid pcb = some a' ∧
      Holds budgetmode opened device a' (update held pid rest) := by
  obtain ⟨calls, t, hcalls, ht, ha, hsubs⟩ := h
  obtain ⟨a₁, ha₁, href⟩ :=
    exec_simulation Demux.Refines.step (Demux.refines_init budgetmode opened device) ht
  obtain rfl := Option.some.inj (ha₁.symm.trans ha)
  have hperm := (hsubs pid).trans hpcb
  have hmem : pcb ∈ t.subs pid := hperm.mem_iff.2 List.mem_cons_self
  obtain ⟨a', ha', -⟩ := href.dvrDelPcb hpid hmem
  have hcall : t.step (.del pid pcb) = _ := if_pos ⟨hpid, hmem⟩
  have hcall' : a₁.step (.del pid pcb) = _ := (if_pos hpid).trans ha'
  have hordinary : ∀ call ∈ calls ++ [.del pid pcb], call.Ordinary :=
    List.forall_mem_append.2 ⟨hcalls, List.forall_mem_singleton.2 trivial⟩
  refine ⟨a', ha', _, _, hordinary, exec_concat ht hcall, exec_concat ha hcall', fun pid' => ?_⟩
  by_cases heq : pid' = pid
  · subst heq
    have hrest := hperm.erase pcb
    rw [List.erase_cons_head] at hrest
    simpa [Interest.del] using hrest
  · simpa [Interest.del, heq] using hsubs pid'

theorem joinStreams (h : Holds budgetmode opened device a held) (hpid : pid ≤ PID_MAX)
    (pcbl : List ℕ) :
    Holds budgetmode opened device (joinStreams a pid pcbl).1
      (update held pid ((joinStreams a pid pcbl).2 ++ held pid)) := by
  induction pcbl generalizing a held with
  | nil =>
    refine h.congr fun pid' => ?_
    by_cases heq : pid' = pid
    · subst heq
      simp [Getstream2.joinStreams]
    · simp [heq]
  | cons stream pcbl ih =>
    have hsuits : (Callback.streamSend stream).Suits .ts := rfl
    have hadd := h.add (Nat.le_succ_of_le hpid) hsuits
    refine (ih hadd).congr fun pid' => ?_
    by_cases heq : pid' = pid
    · subst heq
      simp [Getstream2.joinStreams, List.perm_middle]
    · simp [heq]

theorem leaveCallbacks {cbcl : List PidCallback} (h : Holds budgetmode opened device a held)
    (hpid : pid ≤ PID_MAX) (hperm : (held pid).Perm (cbcl ++ rest)) :
    ∃ a', leaveCallbacks a pid cbcl = some a' ∧
      Holds budgetmode opened device a' (update held pid rest) := by
  induction cbcl generalizing a held with
  | nil =>
    refine ⟨a, rfl, h.congr fun pid' => ?_⟩
    by_cases heq : pid' = pid
    · subst heq
      simpa using hperm
    · simp [heq]
  | cons cbc cbcl ih =>
    obtain ⟨a₁, ha₁, hdel⟩ := h.del hpid hperm
    obtain ⟨a', ha', hheld⟩ := ih hdel (by rw [update_self]; exact .refl _)
    refine ⟨a', ?_, ?_⟩
    · rw [Getstream2.leaveCallbacks, ha₁]
      exact ha'
    · rwa [update_idem] at hheld

end Holds

/-! ## The array of one program -/

/-- The callbacks in the array of a program, and those of everyone else. -/
def Program.tables (prog : Program) (rest : ℕ → List PidCallback) : ℕ → List PidCallback :=
  fun pid => prog.pidtable pid ++ rest pid

/-- A function changes nothing of a program but its array, and there it has what the demultiplexer
has. -/
def KeepsTables (budgetmode opened : Bool) (device : ℕ → Bool)
    (f : Demux → Program → Option (Demux × Program)) : Prop :=
  ∀ a prog a' prog' rest, Holds budgetmode opened device a (prog.tables rest) →
    f a prog = some (a', prog') →
      prog' = { prog with pidtable := prog'.pidtable } ∧
        Holds budgetmode opened device a' (prog'.tables rest)

section

variable {f g : Demux → Program → Option (Demux × Program)} {pid : ℕ}

theorem keepsTables_id : KeepsTables budgetmode opened device fun a prog => some (a, prog) := by
  rintro a prog a' prog' rest h ⟨⟩
  exact ⟨rfl, h⟩

theorem KeepsTables.bind (hf : KeepsTables budgetmode opened device f)
    (hg : KeepsTables budgetmode opened device g) :
    KeepsTables budgetmode opened device fun a prog =>
      (f a prog).bind fun p => g p.1 p.2 := by
  intro a prog a' prog' rest h heq
  obtain ⟨⟨a₁, prog₁⟩, h₁, h₂⟩ := Option.bind_eq_some_iff.1 heq
  obtain ⟨heq₁, hholds₁⟩ := hf _ _ _ _ _ h h₁
  obtain ⟨heq₂, hholds₂⟩ := hg _ _ _ _ _ hholds₁ h₂
  refine ⟨?_, hholds₂⟩
  rw [heq₂, heq₁]

theorem KeepsTables.ite (p : Program → Prop) [DecidablePred p]
    (hf : KeepsTables budgetmode opened device f) (hg : KeepsTables budgetmode opened device g) :
    KeepsTables budgetmode opened device fun a prog =>
      if p prog then f a prog else g a prog := by
  intro a prog a' prog' rest h heq
  dsimp only at heq
  split at heq
  · exact hf _ _ _ _ _ h heq
  · exact hg _ _ _ _ _ h heq

theorem tables_update {prog : Program} {rest : ℕ → List PidCallback} {cbcl : List PidCallback} :
    { prog with pidtable := update prog.pidtable pid cbcl : Program }.tables rest =
      update (prog.tables rest) pid (cbcl ++ rest pid) := by
  funext pid'
  by_cases heq : pid' = pid
  · subst heq
    simp [Program.tables]
  · simp [Program.tables, heq]

theorem keepsTables_pmtProgJoinPid :
    KeepsTables budgetmode opened device fun a prog => pmtProgJoinPid a prog pid := by
  intro a prog a' prog' rest h heq
  obtain ⟨hpid, ⟨⟩⟩ := Option.ite_none_right_eq_some.1 heq
  refine ⟨rfl, ?_⟩
  rw [tables_update]
  refine (h.joinStreams (Nat.le_of_lt hpid) prog.progcbl).congr fun pid' => ?_
  by_cases heq : pid' = pid
  · subst heq
    simp only [update_self, Program.tables]
    rw [← List.append_assoc]
    exact List.perm_append_comm.append_right _
  · simp [heq]

theorem pmtProgLeavePid_eq_some {a : Demux} {prog : Program} {rest : ℕ → List PidCallback}
    (hpid : pid ≤ PID_MAX) (h : Holds budgetmode opened device a (prog.tables rest)) :
    ∃ a', pmtProgLeavePid a prog pid =
        some (a', { prog with pidtable := update prog.pidtable pid [] }) ∧
      Holds budgetmode opened device a'
        ({ prog with pidtable := update prog.pidtable pid [] : Program }.tables rest) := by
  obtain ⟨a', ha', hholds⟩ := h.leaveCallbacks hpid (.refl _)
  refine ⟨a', by rw [pmtProgLeavePid, ha', Option.map_some], ?_⟩
  rwa [tables_update]

theorem keepsTables_pmtProgLeavePid (hpid : pid ≤ PID_MAX) :
    KeepsTables budgetmode opened device fun a prog => pmtProgLeavePid a prog pid := by
  intro a prog a' prog' rest h heq
  obtain ⟨a₁, h₁, hholds⟩ := pmtProgLeavePid_eq_some hpid h
  cases h₁.symm.trans heq
  exact ⟨rfl, hholds⟩

theorem keepsTables_joinNew :
    KeepsTables budgetmode opened device fun a prog => joinNew a prog pid :=
  .ite (fun prog => prog.getsPid pid = true) keepsTables_id keepsTables_pmtProgJoinPid

theorem keepsTables_joinEs (last : Option Pmt) (es : List ℕ) :
    KeepsTables budgetmode opened device fun a prog => joinEs last a prog es := by
  induction es with
  | nil => exact keepsTables_id
  | cons pid es ih =>
    exact (KeepsTables.ite (f := fun a prog => some (a, prog))
      (g := fun a prog => joinNew a prog pid)
      (fun _ => last.any (pid ∈ ·.es) = true) keepsTables_id keepsTables_joinNew).bind ih

theorem keepsTables_leaveOld (current : Pmt) {pids : List ℕ} (hpids : ∀ pid ∈ pids, pid ≤ PID_MAX) :
    KeepsTables budgetmode opened device fun a prog => leaveOld current a prog pids := by
  induction pids with
  | nil => exact keepsTables_id
  | cons pid pids ih =>
    obtain ⟨hpid, hpids⟩ := List.forall_mem_cons.1 hpids
    exact (KeepsTables.ite (f := fun a prog => pmtProgLeavePid a prog pid)
      (g := fun a prog => some (a, prog)) (fun prog => prog.getsPid pid ∧ !current.uses prog pid)
      (keepsTables_pmtProgLeavePid hpid) keepsTables_id).bind (ih hpids)

theorem keepsTables_leaveAll {pids : List ℕ} (hpids : ∀ pid ∈ pids, pid ≤ PID_MAX) :
    KeepsTables budgetmode opened device fun a prog => leaveAll a prog pids := by
  induction pids with
  | nil => exact keepsTables_id
  | cons pid pids ih =>
    obtain ⟨hpid, hpids⟩ := List.forall_mem_cons.1 hpids
    exact (keepsTables_pmtProgLeavePid hpid).bind (ih hpids)

theorem le_of_mem_range {pid : ℕ} (h : pid ∈ List.range PID_MAX) : pid ≤ PID_MAX :=
  Nat.le_of_lt (List.mem_range.1 h)

theorem keepsTables_pmtUpdate (current : Pmt) :
    KeepsTables budgetmode opened device fun a prog => pmtUpdate a prog current := by
  intro a prog
  refine ((keepsTables_joinEs prog.pmtlast current.es).bind
    ((KeepsTables.ite (f := fun a prog => joinNew a prog current.pcrpid)
      (g := fun a prog => some (a, prog)) (fun _ => current.pcrpid ≠ PID_MAX) keepsTables_joinNew
      keepsTables_id).bind
      (keepsTables_leaveOld current fun _ => le_of_mem_range))) a prog

end

/-! ## One program -/

namespace Program

/-- The callback for the table of a program; it is forgotten with the pid. -/
def pmtHeld (prog : Program) (pid : ℕ) : List PidCallback :=
  if prog.pmtpid = pid ∧ pid ≠ 0 then prog.pmtpidcb.toList else []

/-- The callbacks of a program for a pid. -/
def held (prog : Program) (pid : ℕ) : List PidCallback := prog.pmtHeld pid ++ prog.pidtable pid

/-- The callbacks of a program, and those of everyone else. -/
def beside (prog : Program) (rest : ℕ → List PidCallback) : ℕ → List PidCallback :=
  fun pid => prog.held pid ++ rest pid

/-- The pid of the table is in the array, and it has a callback. -/
structure Ok (prog : Program) : Prop where
  pmtpid_lt : prog.pmtpid < PID_MAX
  pmtpidcb : prog.pmtpid ≠ 0 → prog.pmtpidcb.isSome

variable {prog : Program} {rest : ℕ → List PidCallback}

theorem tables_pmtHeld (pid : ℕ) :
    (prog.tables (fun pid => prog.pmtHeld pid ++ rest pid) pid).Perm (prog.beside rest pid) := by
  change (prog.pidtable pid ++ (prog.pmtHeld pid ++ rest pid)).Perm
    (prog.pmtHeld pid ++ prog.pidtable pid ++ rest pid)
  rw [← List.append_assoc]
  exact List.perm_append_comm.append_right _

theorem beside_of_pmtHeld_eq_nil (h : ∀ pid, prog.pmtHeld pid = []) :
    prog.beside rest = prog.tables rest := by
  funext pid
  rw [beside, held, h pid, List.nil_append, tables]

theorem pmtHeld_eq_nil (h : prog.pmtpid = 0) (pid : ℕ) : prog.pmtHeld pid = [] :=
  if_neg fun hpid => hpid.2 (hpid.1.symm.trans h)

end Program

/-- A function changes the callbacks of one program only, which it may free. -/
def Keeps (budgetmode opened : Bool) (device : ℕ → Bool)
    (f : Demux → Program → Option (Demux × Program)) : Prop :=
  ∀ a prog a' prog' rest, prog.Ok → Holds budgetmode opened device a (prog.beside rest) →
    f a prog = some (a', prog') →
      (prog'.freed = false → prog'.Ok) ∧ Holds budgetmode opened device a' (prog'.beside rest)

section

variable {f : Demux → Program → Option (Demux × Program)}

theorem keeps_id : Keeps budgetmode opened device fun a prog => some (a, prog) := by
  rintro a prog a' prog' rest hok h ⟨⟩
  exact ⟨fun _ => hok, h⟩

theorem KeepsTables.keeps (hf : KeepsTables budgetmode opened device f) :
    Keeps budgetmode opened device f := by
  intro a prog a' prog' rest hok h heq
  obtain ⟨hsame, hholds⟩ := hf _ _ _ _ _ (h.congr fun pid => (Program.tables_pmtHeld pid).symm) heq
  rw [hsame] at hholds ⊢
  exact ⟨fun _ => ⟨hok.pmtpid_lt, hok.pmtpidcb⟩, hholds.congr Program.tables_pmtHeld⟩

theorem keeps_pmtDvrPmtCb (section_ : PsiSec) :
    Keeps budgetmode opened device fun a prog => pmtDvrPmtCb a prog section_ := by
  intro a prog a' prog' rest hok h heq
  dsimp only [pmtDvrPmtCb] at heq
  split at heq
  · exact keeps_id _ _ _ _ _ hok h heq
  split at heq
  · exact keeps_id _ _ _ _ _ hok h heq
  split at heq
  · exact keeps_id _ _ _ _ _ hok h heq
  obtain ⟨⟨psi, new⟩, -, heq⟩ := Option.bind_eq_some_iff.1 heq
  dsimp only at heq
  split at heq
  · exact keeps_id _ _ _ _ _ hok h heq
  obtain ⟨pmt, -, heq⟩ := Option.bind_eq_some_iff.1 heq
  have hok' : Program.Ok { prog with psi, pmtlast := prog.pmtcurrent, pmtcurrent := some pmt } :=
    ⟨hok.pmtpid_lt, hok.pmtpidcb⟩
  exact (keepsTables_pmtUpdate pmt).keeps _ _ _ _ _ hok' h heq

/-- The pid before is left: only the callbacks in the array are there. -/
theorem leavePmtPid_eq_some {a a' : Demux} {prog prog' : Program} {rest : ℕ → List PidCallback}
    (hok : prog.Ok) (h : Holds budgetmode opened device a (prog.beside rest))
    (heq : leavePmtPid a prog = some (a', prog')) :
    prog' = { prog with pidtable := prog'.pidtable } ∧
      Holds budgetmode opened device a' (prog'.tables rest) := by
  unfold leavePmtPid at heq
  split at heq
  next h0 =>
    obtain ⟨pmtpidcb, hcb, heq⟩ := Option.bind_eq_some_iff.1 heq
    obtain ⟨a₁, ha₁, heq⟩ := Option.bind_eq_some_iff.1 heq
    have hle := Nat.le_of_lt hok.pmtpid_lt
    have hheld : prog.beside rest prog.pmtpid = pmtpidcb :: prog.tables rest prog.pmtpid := by
      simp [Program.beside, Program.held, Program.pmtHeld, Program.tables, h0, hcb]
    obtain ⟨a₂, ha₂, hdel⟩ := h.del hle (List.Perm.of_eq hheld)
    obtain rfl := Option.some.inj (ha₁.symm.trans ha₂)
    refine keepsTables_pmtProgLeavePid hle _ _ _ _ _ (hdel.congr fun pid => ?_) heq
    by_cases hpid : pid = prog.pmtpid
    · rw [hpid, update_self]
    · simp [hpid, Ne.symm hpid, Program.beside, Program.held, Program.pmtHeld, Program.tables]
  next h0 =>
    obtain ⟨⟨⟩⟩ := heq
    rw [Program.beside_of_pmtHeld_eq_nil (Program.pmtHeld_eq_nil (not_not.1 h0))] at h
    exact ⟨rfl, h⟩

theorem joinPmtPid_eq_some {a a' : Demux} {prog prog' : Program} {rest : ℕ → List PidCallback}
    {pmtpid : ℕ} (h : Holds budgetmode opened device a (prog.tables rest))
    (heq : joinPmtPid a prog pmtpid = some (a', prog')) :
    { prog' with pmtpid : Program }.Ok ∧
      Holds budgetmode opened device a' ({ prog' with pmtpid : Program }.beside rest) := by
  unfold joinPmtPid at heq
  split at heq
  next h0 =>
    have hlt : pmtpid < PID_MAX := (Option.ite_none_right_eq_some.1 heq).1
    let pcb := (a.dvrAddPcb pmtpid .section (.pmtDvrPmtCb prog.pnr)).2
    have hadd : Holds budgetmode opened device
        (a.dvrAddPcb pmtpid .section (.pmtDvrPmtCb prog.pnr)).1
        (prog.tables (update rest pmtpid (pcb :: rest pmtpid))) := by
      have hsuits : (Callback.pmtDvrPmtCb prog.pnr).Suits .section := rfl
      refine (h.add (Nat.le_succ_of_le (Nat.le_of_lt hlt)) hsuits).congr fun pid => ?_
      by_cases hpid : pid = pmtpid
      · subst hpid
        simpa [Program.tables] using List.perm_middle.symm
      · simp [hpid, Program.tables]
    obtain ⟨hsame, hholds⟩ :=
      keepsTables_pmtProgJoinPid _ { prog with pmtpidcb := some pcb } _ _ _ hadd heq
    rw [hsame] at hholds ⊢
    refine ⟨⟨hlt, fun _ => rfl⟩, hholds.congr fun pid => ?_⟩
    by_cases hpid : pid = pmtpid
    · subst hpid
      simp only [Program.beside, Program.held, Program.pmtHeld, Program.tables, update_self, h0,
        ne_eq, not_false_eq_true, and_self, if_true, Option.toList_some, List.cons_append]
      exact List.perm_middle
    · simp [hpid, Ne.symm hpid, Program.beside, Program.held, Program.pmtHeld, Program.tables]
  next h0 =>
    obtain ⟨⟨⟩⟩ := heq
    have hzero := not_not.1 h0
    refine ⟨⟨hzero ▸ Nat.zero_lt_succ _, fun h => absurd h h0⟩, ?_⟩
    rw [Program.beside_of_pmtHeld_eq_nil (Program.pmtHeld_eq_nil hzero)]
    exact h

theorem keeps_programPidfrompat (pmtpid : ℕ) :
    Keeps budgetmode opened device fun a prog => programPidfrompat a prog pmtpid := by
  intro a prog a' prog' rest hok h heq
  dsimp only [programPidfrompat] at heq
  split at heq
  · exact keeps_id _ _ _ _ _ hok h heq
  obtain ⟨⟨a₁, prog₁⟩, hleave, heq⟩ := Option.bind_eq_some_iff.1 heq
  obtain ⟨⟨a₂, prog₂⟩, hjoin, ⟨⟩⟩ := Option.map_eq_some_iff.1 heq
  obtain ⟨hok', hholds⟩ := joinPmtPid_eq_some (leavePmtPid_eq_some hok h hleave).2 hjoin
  exact ⟨fun _ => hok', hholds⟩

/-- What a program holds when it has been freed stays with the demultiplexer. -/
theorem pmtProgDelCb_eq_some {a a' : Demux} {prog prog' : Program} {rest : ℕ → List PidCallback}
    (hok : prog.Ok) (h : Holds budgetmode opened device a (prog.beside rest))
    (heq : pmtProgDelCb a prog = some (a', prog')) :
    Holds budgetmode opened device a' (prog'.beside rest) := by
  unfold pmtProgDelCb at heq
  split at heq
  next h0 =>
    obtain ⟨⟨a₁, prog₁⟩, hall, heq⟩ := Option.bind_eq_some_iff.1 heq
    obtain ⟨pmtpidcb, hcb, heq⟩ := Option.bind_eq_some_iff.1 heq
    obtain ⟨a₂, ha₂, ⟨⟩⟩ := Option.bind_eq_some_iff.1 heq
    obtain ⟨hsame, hholds⟩ := keepsTables_leaveAll (fun _ => le_of_mem_range) _ _ _ _ _
      (h.congr fun pid => (Program.tables_pmtHeld pid).symm) hall
    have hpmt : prog₁.pmtpid = prog.pmtpid := by rw [hsame]
    have hcb' : prog.pmtpidcb = some pmtpidcb := by rw [← hcb, hsame]
    have hheld : prog₁.tables (fun pid => prog.pmtHeld pid ++ rest pid) prog.pmtpid =
        prog₁.pidtable prog.pmtpid ++ (pmtpidcb :: rest prog.pmtpid) := by
      simp [Program.tables, Program.pmtHeld, h0, hcb']
    rw [hpmt] at ha₂
    obtain ⟨a₃, ha₃, hdel⟩ := hholds.del (Nat.le_of_lt hok.pmtpid_lt)
      (hheld ▸ List.perm_middle)
    obtain rfl := Option.some.inj (ha₃.symm.trans ha₂)
    refine hdel.congr fun pid => ?_
    by_cases hpid : pid = prog.pmtpid
    · rw [hpid, update_self]
      simp [Program.beside, Program.held, Program.pmtHeld]
    · simp [hpid, Ne.symm hpid, Program.beside, Program.held, Program.pmtHeld, Program.tables]
  next h0 =>
    obtain ⟨⟨⟩⟩ := heq
    exact h

theorem keeps_leave : Keeps budgetmode opened device fun a prog =>
    (pmtProgDelCb a prog).bind fun (a, prog) => some (a, { prog with freed := true }) := by
  intro a prog a' prog' rest hok h heq
  obtain ⟨⟨a₁, prog₁⟩, hdel, ⟨⟩⟩ := Option.bind_eq_some_iff.1 heq
  have hholds := pmtProgDelCb_eq_some hok h hdel
  exact ⟨nofun, hholds⟩

end

/-! ## All programs -/

theorem Holds.withProgram {f : Demux → Program → Option (Demux × Program)} {pnr : ℕ}
    (hf : Keeps budgetmode opened device f) {a a' : Demux} {pl pl' : List Program}
    {rest : ℕ → List PidCallback} (hok : ∀ prog ∈ pl, prog.freed = false → prog.Ok)
    (h : Holds budgetmode opened device a fun pid => pl.flatMap (·.held pid) ++ rest pid)
    (heq : withProgram pnr f a pl = some (a', pl')) :
    (∀ prog ∈ pl', prog.freed = false → prog.Ok) ∧
      Holds budgetmode opened device a' fun pid => pl'.flatMap (·.held pid) ++ rest pid := by
  obtain ⟨front, prog, prog', back, rfl, rfl, -, -, hfreed, hprog⟩ := withProgram_eq_some heq
  -- everything else belongs to the others
  let others (pid : ℕ) := front.flatMap (·.held pid) ++ back.flatMap (·.held pid) ++ rest pid
  have hmid (prog : Program) (pid : ℕ) :
      ((front ++ prog :: back).flatMap (·.held pid) ++ rest pid).Perm (prog.beside others pid) := by
    simp only [Program.beside, others, List.flatMap_append, List.flatMap_cons, List.append_assoc]
    rw [← List.append_assoc, ← List.append_assoc (prog.held pid)]
    exact List.perm_append_comm.append_right _
  have hprogs := List.forall_mem_append.1 hok
  obtain ⟨hprog', hholds⟩ := hf _ _ _ _ others ((List.forall_mem_cons.1 hprogs.2).1 hfreed)
    (h.congr (hmid prog)) hprog
  refine ⟨List.forall_mem_append.2 ⟨hprogs.1, List.forall_mem_cons.2
    ⟨hprog', (List.forall_mem_cons.1 hprogs.2).2⟩⟩, hholds.congr fun pid => (hmid prog' pid).symm⟩

namespace Adapter

/-- All callbacks in the arrays, those of programs that have been freed included. -/
def held (adapter : Adapter) (pid : ℕ) : List PidCallback :=
  adapter.pnrlist.flatMap (·.held pid) ++ if pid = 0 then adapter.patcbc.toList else []

/-- The demultiplexer has the callbacks in the arrays. -/
structure Inv (budgetmode opened : Bool) (device : ℕ → Bool) (adapter : Adapter) : Prop where
  ok : ∀ prog ∈ adapter.pnrlist, prog.freed = false → prog.Ok
  holds : Holds budgetmode opened device adapter.demux adapter.held

variable {adapter adapter' : Adapter}

theorem Inv.onProgram {f : Demux → Program → Option (Demux × Program)} {pnr : ℕ}
    (h : adapter.Inv budgetmode opened device) (hf : Keeps budgetmode opened device f)
    (heq : adapter.onProgram pnr f = some adapter') : adapter'.Inv budgetmode opened device := by
  obtain ⟨⟨demux, pnrlist⟩, hwith, ⟨⟩⟩ := Option.map_eq_some_iff.1 heq
  obtain ⟨hok, hholds⟩ := h.holds.withProgram hf h.ok hwith
  exact ⟨hok, hholds⟩

theorem Inv.pidsFromPat {calls : List (ℕ × ℕ)} (h : adapter.Inv budgetmode opened device)
    (heq : adapter.pidsFromPat calls = some adapter') : adapter'.Inv budgetmode opened device := by
  induction calls generalizing adapter with
  | nil => exact Option.some.inj heq ▸ h
  | cons call calls ih =>
    obtain ⟨adapter₁, hcall, hcalls⟩ := Option.bind_eq_some_iff.1 heq
    obtain ⟨found, -, hcall⟩ := Option.bind_eq_some_iff.1 hcall
    refine ih ?_ hcalls
    cases found with
    | false => exact Option.some.inj hcall ▸ h
    | true => exact h.onProgram (keeps_programPidfrompat call.2) hcall

theorem Inv.patSection {s : PsiSec} (h : adapter.Inv budgetmode opened device)
    (heq : adapter.patSection s = some adapter') : adapter'.Inv budgetmode opened device := by
  obtain ⟨⟨pat, calls⟩, -, hcalls⟩ := Option.bind_eq_some_iff.1 heq
  have hpat : Inv budgetmode opened device { adapter with pat } := ⟨h.ok, h.holds⟩
  exact hpat.pidsFromPat hcalls

theorem Inv.patInit (h : adapter.Inv budgetmode opened device) :
    adapter.patInit.Inv budgetmode opened device := by
  unfold Adapter.patInit
  split
  · exact h
  next hnone =>
    have hsuits : Callback.patSectionCb.Suits .section := rfl
    refine ⟨h.ok, (h.holds.add (Nat.zero_le _) hsuits).congr fun pid => ?_⟩
    by_cases hpid : pid = 0
    · subst hpid
      simp [held, hnone, List.perm_append_singleton, List.Perm.symm]
    · simp [held, hpid]

theorem Inv.pmtProgNew {pnr : ℕ} (h : adapter.Inv budgetmode opened device) (found : Bool) :
    (adapter.pmtProgNew pnr found).Inv budgetmode opened device := by
  cases found with
  | true => exact h
  | false =>
    refine ⟨fun prog hprog hfreed => ?_, h.holds.congr fun pid => .of_eq ?_⟩
    · obtain hprog | hprog := List.mem_append.1 hprog
      · exact h.ok prog hprog hfreed
      · rw [List.mem_singleton.1 hprog]
        exact ⟨Nat.zero_lt_succ _, absurd rfl⟩
    · simp [held, Adapter.pmtProgNew, Program.held, Program.pmtHeld]

theorem keeps_progcbl (stream : ℕ) : Keeps budgetmode opened device fun a prog =>
    some (a, { prog with progcbl := prog.progcbl ++ [stream] }) := by
  rintro a prog a' prog' rest hok h ⟨⟩
  exact ⟨fun _ => ⟨hok.pmtpid_lt, hok.pmtpidcb⟩, h⟩

theorem Inv.callback {s : PsiSec} {pcb : PidCallback} (h : adapter.Inv budgetmode opened device)
    (heq : adapter.callback s pcb = some adapter') : adapter'.Inv budgetmode opened device := by
  unfold Adapter.callback at heq
  split at heq
  · exact h.patSection heq
  · exact h.onProgram (keeps_pmtDvrPmtCb s) heq
  · exact Option.some.inj heq ▸ h

theorem Inv.step {action : AdapterAction} (h : adapter.Inv budgetmode opened device)
    (heq : adapter.step action = some adapter') : adapter'.Inv budgetmode opened device := by
  cases action with
  | join pnr stream =>
    obtain ⟨found, -, heq⟩ := Option.bind_eq_some_iff.1 heq
    obtain ⟨adapter₁, hprog, ⟨⟩⟩ := Option.bind_eq_some_iff.1 heq
    exact ((h.pmtProgNew found).onProgram (keeps_progcbl stream) hprog).patInit
  | leave pnr =>
    obtain ⟨found, -, heq⟩ := Option.bind_eq_some_iff.1 heq
    cases found with
    | false => exact Option.some.inj heq ▸ h
    | true => exact h.onProgram keeps_leave heq
  | newprog => exact Option.some.inj heq ▸ ⟨h.ok, h.holds⟩
  | callback pid s pcb => exact h.callback (Option.ite_none_right_eq_some.1 heq).2

theorem inv_of_exec {actions : List AdapterAction}
    (h : exec step { demux := Demux.dvrInit budgetmode opened device } actions = some adapter) :
    adapter.Inv budgetmode opened device := by
  refine exec_induction Inv.step ⟨by simp, Holds.init.congr fun pid => .of_eq ?_⟩ h
  simp [held]

end Adapter

end Kalinka.Getstream2
