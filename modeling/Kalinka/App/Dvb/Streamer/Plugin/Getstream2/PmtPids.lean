import Kalinka.App.Dvb.Streamer.Plugin.Getstream2.PmtHeld

/-!
# The pids of a program

After each section a program has callbacks for the pids that its current table names and for the pid
of that table, and for no others.  This holds as long as a table does not name its own pid: the
program would lose such a pid with the next program association table that moves the table.

The pid of the program association table is an exception.  A table without a clock makes the program
join it, and it may stay.
-/

namespace Kalinka.Getstream2

open Function Run

namespace Program

/-- The current table names a pid. -/
def Names (prog : Program) (pid : ℕ) : Prop :=
  ∃ current, prog.pmtcurrent = some current ∧ (pid = current.pcrpid ∨ pid ∈ current.es)

/-- The pids that a program is made of. -/
def Wanted (prog : Program) (pid : ℕ) : Prop :=
  prog.Names pid ∨ prog.pmtpid ≠ 0 ∧ pid = prog.pmtpid

/-- The current table does not name its own pid. -/
def Plain (prog : Program) : Prop := prog.pmtpid ≠ 0 → ¬prog.Names prog.pmtpid

/-- Each row has callbacks for packets, and one for the first stream. -/
structure Served (prog : Program) : Prop where
  streams : prog.progcbl ≠ []
  lt : ∀ pid, prog.pidtable pid ≠ [] → pid < PID_MAX
  ts : ∀ pid, ∀ pcb ∈ prog.pidtable pid, pcb.type = .ts
  first : ∀ pid stream, prog.pidtable pid ≠ [] → prog.progcbl.head? = some stream →
    ∃ pcb ∈ prog.pidtable pid, pcb.callback = .streamSend stream

/-- The rows that are used are those of the pids that are wanted. -/
structure Follows (prog : Program) : Prop where
  served : prog.Served
  pcr_ne : ∀ current, prog.pmtcurrent = some current → current.pcrpid ≠ PID_MAX
  gets : ∀ pid ≠ 0, prog.pidtable pid ≠ [] ↔ prog.Wanted pid
  zero : prog.Wanted 0 → prog.pidtable 0 ≠ []

end Program

/-! ## What the functions do to the array -/

/-- Only the array changes, and afterwards it has callbacks for the pids in `gets`. -/
structure Turns (prog prog' : Program) (gets : ℕ → Prop) : Prop where
  same : prog' = { prog with pidtable := prog'.pidtable }
  served : prog.Served → prog'.Served
  gets : prog.Served → ∀ pid, prog'.pidtable pid ≠ [] ↔ gets pid

section

variable {a a' : Demux} {prog prog' prog'' : Program} {gets gets' : ℕ → Prop} {pid : ℕ}

theorem turns_self : Turns prog prog fun pid => prog.pidtable pid ≠ [] :=
  ⟨rfl, id, fun _ _ => Iff.rfl⟩

theorem Turns.congr (h : Turns prog prog' gets)
    (hgets : prog.Served → ∀ pid, gets pid ↔ gets' pid) : Turns prog prog' gets' :=
  ⟨h.same, h.served, fun hserved pid => (h.gets hserved pid).trans (hgets hserved pid)⟩

theorem Turns.trans (h : Turns prog prog' gets) (h' : Turns prog' prog'' gets') :
    Turns prog prog'' gets' :=
  ⟨by rw [h'.same, h.same], h'.served ∘ h.served, h'.gets ∘ h.served⟩

theorem Turns.pmtpid (h : Turns prog prog' gets) : prog'.pmtpid = prog.pmtpid := by rw [h.same]

theorem Turns.pmtcurrent (h : Turns prog prog' gets) : prog'.pmtcurrent = prog.pmtcurrent := by
  rw [h.same]

theorem Turns.freed (h : Turns prog prog' gets) : prog'.freed = prog.freed := by rw [h.same]

/-- The number and the streams stay too. -/
theorem Turns.pnr_progcbl (h : Turns prog prog' gets) :
    prog'.pnr = prog.pnr ∧ prog'.progcbl = prog.progcbl := by
  rw [h.same]
  exact ⟨rfl, rfl⟩

theorem map_joinStreams (a : Demux) (pid : ℕ) (pcbl : List ℕ) :
    (joinStreams a pid pcbl).2.map (fun pcb => (pcb.type, pcb.callback)) =
      pcbl.map fun stream => (.ts, .streamSend stream) := by
  induction pcbl generalizing a with
  | nil => rfl
  | cons stream pcbl ih => exact congrArg _ (ih _)

theorem type_of_mem_joinStreams {pcbl : List ℕ} {pcb : PidCallback}
    (h : pcb ∈ (joinStreams a pid pcbl).2) : pcb.type = .ts := by
  have hmem := List.mem_map_of_mem (f := fun pcb => (pcb.type, pcb.callback)) h
  rw [map_joinStreams] at hmem
  obtain ⟨stream, -, heq⟩ := List.mem_map.1 hmem
  exact (congrArg Prod.fst heq).symm

theorem exists_mem_joinStreams (a : Demux) (pid : ℕ) {pcbl : List ℕ} {stream : ℕ}
    (h : stream ∈ pcbl) :
    ∃ pcb ∈ (joinStreams a pid pcbl).2, pcb.callback = .streamSend stream := by
  have hmem := List.mem_map_of_mem (f := fun stream => (DvrCb.ts, Callback.streamSend stream)) h
  rw [← map_joinStreams a pid] at hmem
  obtain ⟨pcb, hpcb, heq⟩ := List.mem_map.1 hmem
  exact ⟨pcb, hpcb, congrArg Prod.snd heq⟩

/-- A pid is joined, or joined once more. -/
theorem turns_pmtProgJoinPid (h : pmtProgJoinPid a prog pid = some (a', prog')) :
    Turns prog prog' fun q => prog.pidtable q ≠ [] ∨ q = pid := by
  obtain ⟨hpid, ⟨⟩⟩ := Option.ite_none_right_eq_some.1 h
  refine ⟨rfl, fun hserved => ?_, fun hserved q => ?_⟩
  · refine ⟨hserved.streams, fun q hq => ?_, fun q pcb hpcb => ?_, fun q stream hq hstream => ?_⟩
    all_goals by_cases heq : q = pid
    · exact heq ▸ hpid
    · exact hserved.lt q (by simpa [heq] using hq)
    · subst heq
      obtain hpcb | hpcb := List.mem_append.1 (by simpa using hpcb)
      · exact hserved.ts q pcb hpcb
      · exact type_of_mem_joinStreams hpcb
    · exact hserved.ts q pcb (by simpa [heq] using hpcb)
    · subst heq
      obtain ⟨pcb, hpcb, hcb⟩ := exists_mem_joinStreams a q (List.mem_of_mem_head? hstream)
      exact ⟨pcb, by simp [hpcb], hcb⟩
    · simpa [heq] using hserved.first q stream (by simpa [heq] using hq) hstream
  · by_cases heq : q = pid
    · subst heq
      obtain ⟨stream, hstream⟩ := List.exists_mem_of_ne_nil _ hserved.streams
      obtain ⟨pcb, hpcb, -⟩ := exists_mem_joinStreams a q hstream
      simp [List.ne_nil_of_mem hpcb]
    · simp [heq]

theorem turns_pmtProgLeavePid (h : pmtProgLeavePid a prog pid = some (a', prog')) :
    Turns prog prog' fun q => prog.pidtable q ≠ [] ∧ q ≠ pid := by
  obtain ⟨a₁, -, ⟨⟩⟩ := Option.map_eq_some_iff.1 h
  refine ⟨rfl, fun hserved => ?_, fun _ q => ?_⟩
  · refine ⟨hserved.streams, fun q hq => ?_, fun q pcb hpcb => ?_, fun q stream hq hstream => ?_⟩
    all_goals by_cases heq : q = pid
    · simp [heq] at hq
    · exact hserved.lt q (by simpa [heq] using hq)
    · simp [heq] at hpcb
    · exact hserved.ts q pcb (by simpa [heq] using hpcb)
    · simp [heq] at hq
    · simpa [heq] using hserved.first q stream (by simpa [heq] using hq) hstream
  · by_cases heq : q = pid <;> simp [heq]

theorem turns_joinNew (h : joinNew a prog pid = some (a', prog')) :
    Turns prog prog' fun q => prog.pidtable q ≠ [] ∨ q = pid := by
  unfold joinNew at h
  split at h
  next hgets =>
    obtain ⟨⟨⟩⟩ := h
    refine turns_self.congr fun _ q => (or_iff_left_of_imp ?_).symm
    rintro rfl
    exact of_decide_eq_true hgets
  next => exact turns_pmtProgJoinPid h

/-- The elementary streams are joined, apart from those that were there before. -/
theorem turns_joinEs {last : Option Pmt} {es : List ℕ}
    (h : joinEs last a prog es = some (a', prog')) :
    Turns prog prog' fun q =>
      prog.pidtable q ≠ [] ∨ q ∈ es ∧ last.any (q ∈ ·.es) = false := by
  induction es generalizing a prog with
  | nil =>
    obtain ⟨⟨⟩⟩ := h
    exact turns_self.congr fun _ q => by simp
  | cons pid es ih =>
    obtain ⟨⟨a₁, prog₁⟩, hpid, hes⟩ := Option.bind_eq_some_iff.1 h
    unfold joinEsPid at hpid
    split at hpid
    next hlast =>
      obtain ⟨⟨⟩⟩ := hpid
      refine (ih hes).congr fun _ q => or_congr_right ?_
      rw [List.mem_cons]
      refine ⟨fun hq => ⟨.inr hq.1, hq.2⟩, fun ⟨hq, hnot⟩ => ⟨hq.resolve_left ?_, hnot⟩⟩
      rintro rfl
      exact Bool.false_ne_true (hnot.symm.trans hlast)
    next hlast =>
      have hfirst := turns_joinNew hpid
      refine (hfirst.trans (ih hes)).congr fun hserved q => ?_
      rw [hfirst.gets hserved, List.mem_cons]
      by_cases heq : q = pid
      · subst heq
        simp [Bool.eq_false_iff.2 hlast]
      · simp [heq]

theorem turns_joinPcr {current : Pmt} (h : joinPcr current a prog = some (a', prog')) :
    Turns prog prog' fun q =>
      prog.pidtable q ≠ [] ∨ q = current.pcrpid ∧ current.pcrpid ≠ PID_MAX := by
  unfold joinPcr at h
  split at h
  next hpcr => exact (turns_joinNew h).congr fun _ q => by simp [hpcr]
  next hpcr =>
    obtain ⟨⟨⟩⟩ := h
    exact turns_self.congr fun _ q => by simp [not_not.1 hpcr]

theorem turns_leaveUnused {current : Pmt} (h : leaveUnused current a prog pid = some (a', prog')) :
    Turns prog prog' fun q =>
      prog.pidtable q ≠ [] ∧ (q = pid → current.uses prog q = true) := by
  unfold leaveUnused at h
  split at h
  next hunused =>
    refine (turns_pmtProgLeavePid h).congr fun _ q => and_congr_right fun _ => ?_
    refine ⟨fun hne heq => absurd heq hne, ?_⟩
    rintro huses rfl
    exact absurd (huses rfl) (by simpa using hunused.2)
  next hused =>
    obtain ⟨⟨⟩⟩ := h
    refine turns_self.congr fun _ q => (and_iff_left_of_imp ?_).symm
    rintro hgets rfl
    by_contra huses
    exact hused ⟨decide_eq_true hgets, by simpa using huses⟩

/-- The pids that are not in use any more are left. -/
theorem turns_leaveOld {current : Pmt} {pids : List ℕ}
    (h : leaveOld current a prog pids = some (a', prog')) :
    Turns prog prog' fun q =>
      prog.pidtable q ≠ [] ∧ (q ∈ pids → current.uses prog q = true) := by
  induction pids generalizing a prog with
  | nil =>
    obtain ⟨⟨⟩⟩ := h
    exact turns_self.congr fun _ q => by simp
  | cons pid pids ih =>
    obtain ⟨⟨a₁, prog₁⟩, hpid, hpids⟩ := Option.bind_eq_some_iff.1 h
    have hfirst := turns_leaveUnused hpid
    have huses (q : ℕ) : current.uses prog₁ q = current.uses prog q := by
      rw [hfirst.same]
      rfl
    refine (hfirst.trans (ih hpids)).congr fun hserved q => ?_
    rw [hfirst.gets hserved, huses, and_assoc, ← or_imp, List.mem_cons]

theorem turns_leaveAll {pids : List ℕ} (h : leaveAll a prog pids = some (a', prog')) :
    Turns prog prog' fun q => prog.pidtable q ≠ [] ∧ q ∉ pids := by
  induction pids generalizing a prog with
  | nil =>
    obtain ⟨⟨⟩⟩ := h
    exact turns_self.congr fun _ q => by simp
  | cons pid pids ih =>
    obtain ⟨⟨a₁, prog₁⟩, hpid, hpids⟩ := Option.bind_eq_some_iff.1 h
    have hfirst := turns_pmtProgLeavePid hpid
    refine (hfirst.trans (ih hpids)).congr fun hserved q => ?_
    rw [hfirst.gets hserved, and_assoc, List.mem_cons, not_or]

theorem turns_pmtUpdate {current : Pmt} (h : pmtUpdate a prog current = some (a', prog')) :
    Turns prog prog' fun q =>
      ((prog.pidtable q ≠ [] ∨ q ∈ current.es ∧ prog.pmtlast.any (q ∈ ·.es) = false) ∨
          q = current.pcrpid ∧ current.pcrpid ≠ PID_MAX) ∧
        (q < PID_MAX → current.uses prog q = true) := by
  obtain ⟨⟨a₁, prog₁⟩, hes, h⟩ := Option.bind_eq_some_iff.1 h
  obtain ⟨⟨a₂, prog₂⟩, hpcr, hold⟩ := Option.bind_eq_some_iff.1 h
  have hes := turns_joinEs hes
  have hpcr := turns_joinPcr hpcr
  have hold := turns_leaveOld hold
  have huses (q : ℕ) : current.uses prog₂ q = current.uses prog q := by
    rw [hpcr.same, hes.same]
    rfl
  refine ((hes.trans hpcr).trans hold).congr fun hserved q => ?_
  rw [hpcr.gets (hes.served hserved), hes.gets hserved, huses, List.mem_range]

end

/-! ## One program -/

theorem pcrpid_ne_addSection {pmt pmt' : Pmt} {section_ : PsiSec} (hpmt : pmt.pcrpid ≠ PID_MAX)
    (h : pmt.addSection section_ = some pmt') : pmt'.pcrpid ≠ PID_MAX := by
  obtain ⟨pcr, -, h⟩ := Option.bind_eq_some_iff.1 h
  obtain ⟨first, -, h⟩ := Option.bind_eq_some_iff.1 h
  obtain ⟨es, -, ⟨⟩⟩ := Option.bind_eq_some_iff.1 h
  by_cases hpcr : pcr = PID_MAX
  · simpa [hpcr] using hpmt
  · simp [hpcr]

theorem pcrpid_ne_foldlM {pmt pmt' : Pmt} {sections : List PsiSec} (hpmt : pmt.pcrpid ≠ PID_MAX)
    (h : sections.foldlM Pmt.addSection pmt = some pmt') : pmt'.pcrpid ≠ PID_MAX := by
  induction sections generalizing pmt with
  | nil =>
    obtain ⟨⟨⟩⟩ := h
    exact hpmt
  | cons section_ sections ih =>
    rw [List.foldlM_cons] at h
    obtain ⟨pmt₁, hsection, hsections⟩ := Option.bind_eq_some_iff.1 h
    exact ih (pcrpid_ne_addSection hpmt hsection) hsections

/-- A table without a clock has the pid of the program association table for it. -/
theorem pcrpid_ne_pmtParse {psi : PsiTable} {pmt : Pmt} (h : pmtParse psi = some pmt) :
    pmt.pcrpid ≠ PID_MAX := by
  obtain ⟨first, -, h⟩ := Option.bind_eq_some_iff.1 h
  obtain ⟨-, h⟩ := Option.ite_none_right_eq_some.1 h
  exact pcrpid_ne_foldlM (by decide) h

namespace Program

variable {a a' : Demux} {prog prog' : Program}

theorem Follows.gets_of_wanted (h : prog.Follows) {pid : ℕ} (hwanted : prog.Wanted pid) :
    prog.pidtable pid ≠ [] := by
  by_cases h0 : pid = 0
  · subst h0
    exact h.zero hwanted
  · exact (h.gets pid h0).2 hwanted

/-- A new table takes the pids over that it shares with the one before. -/
theorem Follows.pmtUpdate (h : prog.Follows) {psi : PsiTable} {pmt : Pmt}
    (hpcr : pmt.pcrpid ≠ PID_MAX)
    (heq : pmtUpdate a
      { prog with psi, pmtlast := prog.pmtcurrent, pmtcurrent := some pmt } pmt =
        some (a', prog')) :
    prog'.Follows := by
  have hturns := turns_pmtUpdate heq
  have hserved : Served { prog with psi, pmtlast := prog.pmtcurrent, pmtcurrent := some pmt } :=
    ⟨h.served.streams, h.served.lt, h.served.ts, h.served.first⟩
  have hgets := hturns.gets hserved
  have hserved' := hturns.served hserved
  have hcurrent : prog'.pmtcurrent = some pmt := hturns.pmtcurrent
  have hpmtpid : prog'.pmtpid = prog.pmtpid := hturns.pmtpid
  have hnames (pid : ℕ) : prog'.Names pid ↔ pid = pmt.pcrpid ∨ pid ∈ pmt.es := by
    simp [Names, hcurrent]
  have hwanted (pid : ℕ) (hpid : prog'.Wanted pid) : prog'.pidtable pid ≠ [] := by
    rw [Wanted, hnames, hpmtpid] at hpid
    refine (hgets pid).2 ⟨?_, fun _ => ?_⟩
    · obtain (hpid | hpid) | hpid := hpid
      · exact .inr ⟨hpid, hpcr⟩
      · left
        by_cases hlast : prog.pmtcurrent.any (pid ∈ ·.es) = true
        · obtain ⟨current, hcurrent, hes⟩ := (Option.any_eq_true _ _).1 hlast
          exact .inl (h.gets_of_wanted (.inl ⟨current, hcurrent, .inr (of_decide_eq_true hes)⟩))
        · exact .inr ⟨hpid, Bool.eq_false_iff.2 hlast⟩
      · exact .inl (.inl (h.gets_of_wanted (.inr hpid)))
    · obtain (hpid | hpid) | hpid := hpid <;> simp [Pmt.uses, hpid]
  refine ⟨hserved', fun current hcur => ?_, fun pid h0 => ⟨fun hpid => ?_, hwanted pid⟩, hwanted 0⟩
  · rw [hcurrent] at hcur
    exact Option.some.inj hcur ▸ hpcr
  · -- what is still there is in use
    have huses := ((hgets pid).1 hpid).2 (hserved'.lt pid hpid)
    rw [Wanted, hnames, hpmtpid]
    obtain huses | huses | huses := of_decide_eq_true huses
    · exact .inl (.inl huses.symm)
    · exact .inr ⟨fun hzero => h0 (huses.symm.trans hzero), huses.symm⟩
    · exact .inl (.inr huses)

theorem Follows.pmtDvrPmtCb (h : prog.Follows) {section_ : PsiSec}
    (heq : pmtDvrPmtCb a prog section_ = some (a', prog')) :
    prog'.Follows ∧ prog'.pnr = prog.pnr ∧ prog'.progcbl = prog.progcbl := by
  unfold Getstream2.pmtDvrPmtCb at heq
  split at heq
  · obtain ⟨⟨⟩⟩ := heq
    exact ⟨h, rfl, rfl⟩
  split at heq
  · obtain ⟨⟨⟩⟩ := heq
    exact ⟨h, rfl, rfl⟩
  split at heq
  · obtain ⟨⟨⟩⟩ := heq
    exact ⟨h, rfl, rfl⟩
  obtain ⟨⟨psi, new⟩, -, heq⟩ := Option.bind_eq_some_iff.1 heq
  dsimp only at heq
  split at heq
  · obtain ⟨⟨⟩⟩ := heq
    exact ⟨h, rfl, rfl⟩
  obtain ⟨pmt, hpmt, heq⟩ := Option.bind_eq_some_iff.1 heq
  exact ⟨h.pmtUpdate (pcrpid_ne_pmtParse hpmt) heq, (turns_pmtUpdate heq).pnr_progcbl⟩

theorem turns_leavePmtPid (h : leavePmtPid a prog = some (a', prog')) :
    Turns prog prog' fun q => prog.pidtable q ≠ [] ∧ (prog.pmtpid ≠ 0 → q ≠ prog.pmtpid) := by
  unfold leavePmtPid at h
  split at h
  next h0 =>
    obtain ⟨pmtpidcb, -, h⟩ := Option.bind_eq_some_iff.1 h
    obtain ⟨a₁, -, h⟩ := Option.bind_eq_some_iff.1 h
    exact (turns_pmtProgLeavePid h).congr fun _ q => by simp [h0]
  next h0 =>
    obtain ⟨⟨⟩⟩ := h
    exact turns_self.congr fun _ q => by simp [not_not.1 h0]

theorem turns_joinPmtPid {pmtpid : ℕ} (h : joinPmtPid a prog pmtpid = some (a', prog')) :
    Turns { prog with pmtpidcb := prog'.pmtpidcb } prog'
      fun q => prog.pidtable q ≠ [] ∨ pmtpid ≠ 0 ∧ q = pmtpid := by
  unfold joinPmtPid at h
  split at h
  next h0 =>
    have hturns := turns_pmtProgJoinPid h
    have hcb : prog'.pmtpidcb = some ⟨a.calls, .section, .pmtDvrPmtCb prog.pnr⟩ := by
      rw [hturns.same]
    rw [hcb]
    exact hturns.congr fun _ q => by simp [h0]
  next h0 =>
    obtain ⟨⟨⟩⟩ := h
    exact turns_self.congr fun _ q => by simp [not_not.1 h0]

/-- The table moves to another pid, or is gone. -/
theorem Follows.programPidfrompat (h : prog.Follows) (hplain : prog.Plain) {pmtpid : ℕ}
    (heq : programPidfrompat a prog pmtpid = some (a', prog')) :
    prog'.Follows ∧ prog'.pnr = prog.pnr ∧ prog'.progcbl = prog.progcbl := by
  unfold Getstream2.programPidfrompat at heq
  split at heq
  · obtain ⟨⟨⟩⟩ := heq
    exact ⟨h, rfl, rfl⟩
  obtain ⟨⟨a₁, prog₁⟩, hleave, heq⟩ := Option.bind_eq_some_iff.1 heq
  obtain ⟨⟨a₂, prog₂⟩, hjoin, ⟨⟩⟩ := Option.map_eq_some_iff.1 heq
  have hleave := turns_leavePmtPid hleave
  have hjoin := turns_joinPmtPid hjoin
  have hserved₁ : Served { prog₁ with pmtpidcb := prog₂.pmtpidcb } := by
    have := hleave.served h.served
    exact ⟨this.streams, this.lt, this.ts, this.first⟩
  have hserved₂ := hjoin.served hserved₁
  have hcurrent : prog₂.pmtcurrent = prog.pmtcurrent := hjoin.pmtcurrent.trans hleave.pmtcurrent
  have hnames (pid : ℕ) : Names { prog₂ with pmtpid } pid ↔ prog.Names pid := by
    simp [Names, hcurrent]
  have hgets (pid : ℕ) : prog₂.pidtable pid ≠ [] ↔
      prog.pidtable pid ≠ [] ∧ (prog.pmtpid ≠ 0 → pid ≠ prog.pmtpid) ∨
        pmtpid ≠ 0 ∧ pid = pmtpid := by
    rw [hjoin.gets hserved₁, hleave.gets h.served]
  have hkept {pid : ℕ} (hpid : prog.Names pid) : prog.pmtpid ≠ 0 → pid ≠ prog.pmtpid := by
    rintro h0 rfl
    exact hplain h0 hpid
  refine ⟨⟨⟨hserved₂.streams, hserved₂.lt, hserved₂.ts, hserved₂.first⟩, ?_, fun pid h0 => ?_, ?_⟩,
    hjoin.pnr_progcbl.1.trans hleave.pnr_progcbl.1, hjoin.pnr_progcbl.2.trans hleave.pnr_progcbl.2⟩
  · rw [hcurrent]
    exact h.pcr_ne
  · rw [hgets, Wanted, hnames, h.gets pid h0, Wanted, or_and_right]
    refine or_congr_left ⟨fun hpid => ?_, fun hpid => .inl ⟨hpid, hkept hpid⟩⟩
    exact hpid.elim And.left fun hpid => absurd hpid.1.2 (hpid.2 hpid.1.1)
  · rintro (hpid | hpid)
    · rw [hnames] at hpid
      exact (hgets 0).2 (.inl ⟨h.zero (.inl hpid), hkept hpid⟩)
    · exact absurd hpid.2.symm hpid.1

/-- One more stream of a program that has one. -/
theorem Follows.join (h : prog.Follows) (stream : ℕ) :
    Follows { prog with progcbl := prog.progcbl ++ [stream] } where
  served := by
    refine ⟨by simp, h.served.lt, h.served.ts, fun pid stream' hpid hstream => ?_⟩
    rw [List.head?_append_of_ne_nil _ h.served.streams] at hstream
    exact h.served.first pid stream' hpid hstream
  pcr_ne := h.pcr_ne
  gets := h.gets
  zero := h.zero

theorem follows_new (pnr stream : ℕ) : Follows { pnr, progcbl := [stream] } where
  served := ⟨by simp, by simp, by simp, by simp⟩
  pcr_ne := by simp
  gets := by simp [Wanted, Names]
  zero := by simp [Wanted, Names]

end Program

/-! ## All programs -/

theorem pnr_ne_of_pmtProgFromPnr {pnr : ℕ} {pl : List Program}
    (h : pmtProgFromPnr pnr pl = some false) : ∀ prog ∈ pl, prog.pnr ≠ pnr := by
  induction pl with
  | nil => simp
  | cons prog pl ih =>
    unfold pmtProgFromPnr at h
    split at h
    · cases h
    split at h
    · cases h
    next hpnr => exact List.forall_mem_cons.2 ⟨hpnr, ih h⟩

theorem withProgram_concat {pnr : ℕ} {f : Demux → Program → Option (Demux × Program)} {a : Demux}
    {pl : List Program} {prog : Program} (hpl : ∀ p ∈ pl, p.pnr ≠ pnr) (hpnr : prog.pnr = pnr)
    (hfreed : prog.freed = false) :
    withProgram pnr f a (pl ++ [prog]) = (f a prog).map fun p => (p.1, pl ++ [p.2]) := by
  induction pl with
  | nil => simp [withProgram, hpnr, hfreed]
  | cons p pl ih =>
    obtain ⟨hp, hpl⟩ := List.forall_mem_cons.1 hpl
    rw [List.cons_append, withProgram, if_neg hp, ih hpl, Option.map_map]
    rfl

namespace Adapter

variable {adapter adapter' : Adapter}

/-- Each program that is there follows its tables. -/
def Follows (adapter : Adapter) : Prop :=
  ∀ prog ∈ adapter.pnrlist, prog.freed = false → prog.Follows

/-- No program has a table that names its own pid, and no program association table has a program
twice. -/
def Proper (adapter : Adapter) (action : AdapterAction) : Prop :=
  (∀ prog ∈ adapter.pnrlist, prog.freed = false → prog.Plain) ∧
    ∀ pid s pcb, action = .callback pid s pcb →
      ∀ pat calls, patSectionCb adapter.pat s = some (pat, calls) → (calls.map Prod.fst).Nodup

/-- One program changes. -/
theorem Follows.onProgram {pnr : ℕ} {f : Demux → Program → Option (Demux × Program)}
    (h : adapter.Follows) (heq : adapter.onProgram pnr f = some adapter')
    (hf : ∀ a prog a' prog', prog ∈ adapter.pnrlist → prog.pnr = pnr → prog.freed = false →
      prog.Follows → f a prog = some (a', prog') → prog'.freed = false → prog'.Follows) :
    adapter'.Follows := by
  obtain ⟨⟨demux, pnrlist⟩, hwith, ⟨⟩⟩ := Option.map_eq_some_iff.1 heq
  obtain ⟨front, prog, prog', back, hpl, rfl, -, hpnr, hfreed, hprog⟩ := withProgram_eq_some hwith
  have hmem (p : Program) (hp : p ∈ front ∨ p = prog ∨ p ∈ back) : p ∈ adapter.pnrlist := by
    simpa [hpl] using hp
  intro p hp hpfreed
  obtain hp | hp := List.mem_append.1 hp
  · exact h p (hmem p (.inl hp)) hpfreed
  obtain rfl | hp := List.mem_cons.1 hp
  · have hin := hmem prog (.inr (.inl rfl))
    exact hf _ _ _ _ hin hpnr hfreed (h prog hin hfreed) hprog hpfreed
  · exact h p (hmem p (.inr (.inr hp))) hpfreed

/-- A call changes the table of one program only. -/
theorem plain_of_pmtPidfrompat {pnr pmtpid : ℕ} {pnrs : List ℕ}
    (h : ∀ prog ∈ adapter.pnrlist, prog.freed = false → prog.pnr ∈ pnr :: pnrs → prog.Plain)
    (hpnr : pnr ∉ pnrs) (hfollows : adapter.Follows)
    (heq : adapter.pmtPidfrompat pnr pmtpid = some adapter') :
    adapter'.Follows ∧
      ∀ prog ∈ adapter'.pnrlist, prog.freed = false → prog.pnr ∈ pnrs → prog.Plain := by
  obtain ⟨found, -, heq⟩ := Option.bind_eq_some_iff.1 heq
  cases found with
  | false =>
    obtain rfl := Option.some.inj heq
    exact ⟨hfollows, fun prog hprog hfreed hin => h prog hprog hfreed (List.mem_cons_of_mem _ hin)⟩
  | true =>
    refine ⟨hfollows.onProgram heq fun a prog a' prog' hin hp hfreed hprog hcall _ => ?_, ?_⟩
    · exact (hprog.programPidfrompat (h prog hin hfreed (hp ▸ List.mem_cons_self)) hcall).1
    · obtain ⟨⟨demux, pnrlist⟩, hwith, ⟨⟩⟩ := Option.map_eq_some_iff.1 heq
      obtain ⟨front, prog, prog', back, hpl, rfl, -, hp, hfreed, hcall⟩ :=
        withProgram_eq_some hwith
      have hmem (p : Program) (hp : p ∈ front ∨ p = prog ∨ p ∈ back) : p ∈ adapter.pnrlist := by
        simpa [hpl] using hp
      have hin := hmem prog (.inr (.inl rfl))
      have hpnr' : prog'.pnr = pnr := by
        have hplain := h prog hin hfreed (hp ▸ List.mem_cons_self)
        exact ((hfollows prog hin hfreed).programPidfrompat hplain hcall).2.1.trans hp
      intro p hp hpfreed hpin
      obtain hp | hp := List.mem_append.1 hp
      · exact h p (hmem p (.inl hp)) hpfreed (List.mem_cons_of_mem _ hpin)
      obtain rfl | hp := List.mem_cons.1 hp
      · exact absurd (hpnr' ▸ hpin) hpnr
      · exact h p (hmem p (.inr (.inr hp))) hpfreed (List.mem_cons_of_mem _ hpin)

theorem Follows.pidsFromPat {calls : List (ℕ × ℕ)} (h : adapter.Follows)
    (hplain : ∀ prog ∈ adapter.pnrlist, prog.freed = false → prog.pnr ∈ calls.map Prod.fst →
      prog.Plain)
    (hnodup : (calls.map Prod.fst).Nodup) (heq : adapter.pidsFromPat calls = some adapter') :
    adapter'.Follows := by
  induction calls generalizing adapter with
  | nil => exact Option.some.inj heq ▸ h
  | cons call calls ih =>
    obtain ⟨adapter₁, hcall, hcalls⟩ := Option.bind_eq_some_iff.1 heq
    obtain ⟨hnot, hnodup⟩ := List.nodup_cons.1 hnodup
    obtain ⟨hfollows₁, hplain₁⟩ := plain_of_pmtPidfrompat hplain hnot h hcall
    exact ih hfollows₁ hplain₁ hnodup hcalls

theorem Follows.patInit (h : adapter.Follows) : adapter.patInit.Follows := by
  unfold Adapter.patInit
  split
  · exact h
  · exact h

theorem Follows.pmtJoinPnr {pnr stream : ℕ} (h : adapter.Follows)
    (heq : adapter.pmtJoinPnr pnr stream = some adapter') : adapter'.Follows := by
  obtain ⟨found, hfound, heq⟩ := Option.bind_eq_some_iff.1 heq
  obtain ⟨adapter₁, hprog, ⟨⟩⟩ := Option.bind_eq_some_iff.1 heq
  refine Follows.patInit ?_
  cases found with
  | true =>
    refine h.onProgram hprog ?_
    rintro a prog a' prog' - - - hfollows ⟨⟩ -
    exact hfollows.join stream
  | false =>
    have hpl := pnr_ne_of_pmtProgFromPnr hfound
    obtain ⟨⟨demux, pnrlist⟩, hwith, ⟨⟩⟩ := Option.map_eq_some_iff.1 hprog
    rw [show (adapter.pmtProgNew pnr false).pnrlist = adapter.pnrlist ++ [{ pnr }] from rfl,
      withProgram_concat hpl rfl rfl] at hwith
    obtain ⟨⟨⟩⟩ := hwith
    intro p hp hfreed
    obtain hp | hp := List.mem_append.1 hp
    · exact h p hp hfreed
    · rw [List.mem_singleton.1 hp]
      exact Program.follows_new pnr stream

theorem Follows.step {action : AdapterAction} (h : adapter.Follows)
    (hproper : adapter.Proper action) (heq : adapter.step action = some adapter') :
    adapter'.Follows := by
  cases action with
  | join pnr stream => exact h.pmtJoinPnr heq
  | leave pnr =>
    obtain ⟨found, -, heq⟩ := Option.bind_eq_some_iff.1 heq
    cases found with
    | false => exact Option.some.inj heq ▸ h
    | true =>
      refine h.onProgram heq fun a prog a' prog' _ _ _ _ hprog hfreed => ?_
      obtain ⟨⟨a₁, prog₁⟩, -, ⟨⟩⟩ := Option.bind_eq_some_iff.1 hprog
      cases hfreed
  | newprog => exact Option.some.inj heq ▸ h
  | callback pid s pcb =>
    obtain ⟨-, heq⟩ := Option.ite_none_right_eq_some.1 heq
    unfold Adapter.callback at heq
    split at heq
    · obtain ⟨⟨pat, calls⟩, hpat, hcalls⟩ := Option.bind_eq_some_iff.1 heq
      have hfollows : Follows { adapter with pat } := h
      exact hfollows.pidsFromPat (fun prog hprog hfreed _ => hproper.1 prog hprog hfreed)
        (hproper.2 pid s pcb rfl pat calls hpat) hcalls
    · exact h.onProgram heq fun a prog a' prog' _ _ _ hfollows hprog _ =>
        (hfollows.pmtDvrPmtCb hprog).1
    · exact Option.some.inj heq ▸ h

/-- A callback in the array of a program is one of the demultiplexer. -/
theorem Inv.mem_callback {budgetmode opened : Bool} {device : ℕ → Bool}
    (h : adapter.Inv budgetmode opened device) {prog : Program} (hprog : prog ∈ adapter.pnrlist)
    {pid : ℕ} (hpid : pid ≤ PID_MAX) {pcb : PidCallback} (hpcb : pcb ∈ prog.pidtable pid)
    (htype : pcb.type = .ts) : pcb ∈ (adapter.demux.pidtable pid).callback := by
  obtain ⟨t, href, hsubs⟩ := h.holds.exists_refines
  have hheld : pcb ∈ adapter.held pid :=
    List.mem_append_left _ (List.mem_flatMap.2 ⟨prog, hprog, List.mem_append_right _ hpcb⟩)
  exact ((href.serves pid hpid).mem_callback htype ((hsubs pid).mem_iff.2 hheld)).1

/-- The first stream of a program gets the packets of the pids that its tables name, and of no
others. -/
theorem exists_mem_callback_iff_wanted {budgetmode opened : Bool} {device : ℕ → Bool}
    {actions : List AdapterAction}
    (h : exec step { demux := Demux.dvrInit budgetmode opened device } actions = some adapter)
    (hproper : EachStep step Proper { demux := Demux.dvrInit budgetmode opened device } actions)
    {prog : Program} (hprog : prog ∈ adapter.pnrlist) (hfreed : prog.freed = false) {stream : ℕ}
    (hstream : prog.progcbl.head? = some stream) {pid : ℕ} (hpid : pid ≠ 0) :
    (∃ pcb ∈ (adapter.demux.pidtable pid).callback,
      pcb ∈ prog.pidtable pid ∧ pcb.callback = .streamSend stream) ↔ prog.Wanted pid := by
  have hfollows : adapter.Follows := exec_induction_of_eachStep Follows.step (by simp [Follows])
    hproper h
  have hprog' := hfollows prog hprog hfreed
  rw [← hprog'.gets pid hpid]
  constructor
  · rintro ⟨pcb, -, hpcb, -⟩
    exact List.ne_nil_of_mem hpcb
  · intro hgets
    obtain ⟨pcb, hpcb, hcb⟩ := hprog'.served.first pid stream hgets hstream
    have hle := Nat.le_of_lt (hprog'.served.lt pid hgets)
    exact ⟨pcb, (inv_of_exec h).mem_callback hprog hle hpcb (hprog'.served.ts pid pcb hpcb), hpcb,
      hcb⟩

/-- The table of a program with one elementary stream, which has the clock. -/
def pmtSec : PsiSec where
  data := Block.ofList PSI_MAX_SIZE
    [2, 0xb0, 18, 0, 1, 1, 0, 0, 0xe1, 1, 0xf0, 0, 2, 0xe1, 1, 0xf0, 0, 0, 0, 0, 0] 0

/-- A stream has joined the program. -/
def joined : Adapter where
  demux := ((Demux.dvrInit false true fun _ => true).dvrAddPcb 0 .section .patSectionCb).1
  patcbc := some ⟨0, .section, .patSectionCb⟩
  pnrlist := [{ pnr := 1, progcbl := [7] }]

/-- The sections that arrive then. -/
def play : List AdapterAction :=
  [.callback 0 patSec ⟨0, .section, .patSectionCb⟩,
    .callback 0x100 pmtSec ⟨1, .section, .pmtDvrPmtCb 1⟩]

theorem exists_mem_callback_iff_wanted_play : ∃ adapter prog,
    exec step { demux := Demux.dvrInit false true fun _ => true } (.join 1 7 :: play) =
      some adapter ∧ prog ∈ adapter.pnrlist ∧ prog.Wanted 0x101 ∧
    ∀ pid ≠ 0, (∃ pcb ∈ (adapter.demux.pidtable pid).callback,
      pcb ∈ prog.pidtable pid ∧ pcb.callback = .streamSend 7) ↔ prog.Wanted pid := by
  have hjoin : step { demux := Demux.dvrInit false true fun _ => true } (.join 1 7) =
      some joined := rfl
  have hrun : (exec step joined play).any (·.pnrlist.any fun prog => prog.freed = false ∧
      prog.progcbl = [7] ∧ prog.pmtcurrent = some ⟨0x101, [0x101]⟩) = true := by decide +kernel
  have hpat : (step joined (.callback 0 patSec ⟨0, .section, .patSectionCb⟩)).all
      (·.pnrlist.all (·.pmtcurrent.isNone)) = true := by decide +kernel
  have hcalls : (patSectionCb joined.pat patSec).all (fun r => (r.2.map Prod.fst).Nodup) = true :=
    by decide +kernel
  have htable : psiCurrentNext pmtSec = true ∧ psiTableId pmtSec ≠ PAT_TABLE_ID := by
    decide +kernel
  obtain ⟨adapter, h, hprogs⟩ := (Option.any_eq_true _ _).1 hrun
  obtain ⟨prog, hprog, hprog'⟩ := List.any_eq_true.1 hprogs
  obtain ⟨hfreed, hprogcbl, hcurrent⟩ := of_decide_eq_true hprog'
  have hexec : exec step { demux := Demux.dvrInit false true fun _ => true } (.join 1 7 :: play) =
      some adapter := by rw [exec_cons, hjoin, Option.bind_some, h]
  have hproper : EachStep step Proper { demux := Demux.dvrInit false true fun _ => true }
      (.join 1 7 :: play) := by
    refine EachStep.cons hjoin ⟨by simp, by simp⟩ fun s hs => ⟨⟨?_, ?_⟩, fun _ _ =>
      ⟨⟨?_, ?_⟩, trivial⟩⟩
    · simp [joined, Program.Plain]
    · rintro pid s pcb ⟨⟩ pat calls hcb
      rw [hcb] at hcalls
      exact of_decide_eq_true hcalls
    · rw [hs] at hpat
      rintro prog hprog - - ⟨current, hcurrent, -⟩
      have hnone := List.all_eq_true.1 hpat prog hprog
      rw [hcurrent] at hnone
      cases hnone
    · rintro pid s pcb ⟨⟩ pat calls hcb
      rw [patSectionCb, htable.1, Bool.not_true, if_neg Bool.false_ne_true, if_pos htable.2] at hcb
      cases hcb
      exact List.nodup_nil
  have hstream : prog.progcbl.head? = some 7 := by rw [hprogcbl]; rfl
  refine ⟨adapter, prog, hexec, hprog, .inl ⟨_, hcurrent, .inl rfl⟩, fun pid hpid => ?_⟩
  exact exists_mem_callback_iff_wanted hexec hproper hprog hfreed hstream hpid

end Adapter

end Kalinka.Getstream2
