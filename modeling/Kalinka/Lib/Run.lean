import Mathlib.Data.List.Basic
import Mathlib.Data.Nat.Notation
import Mathlib.Logic.Relation

/-!
# Runs of a partial step function

A system is a function `step : σ → α → Option σ`: the state after an action, or `none` when the
action is not enabled.  `exec` runs a schedule of actions.  `Throughout p` says that `p` holds in
every state a schedule visits, and `EachStep ok` that every step it takes meets `ok` in the state
before the step.

* `exec_induction`: an invariant holds at the end of every run.
* `exec_induction_of_eachStep`: the same for the runs whose steps all meet a condition.
* `reflTransGen_induction`: the same for the states that steps of one kind lead to.
* `exec_simulation`: a system that can follow each step of another one can follow its runs.
* `countP_add_rank_le`: a rank bounds how many steps of a kind a run takes.
* `throughout_iff_eachStep`: when one step keeps `p` exactly if it meets `ok`, a whole run keeps
  `p` exactly if all of its steps meet `ok`.
-/

namespace Run

variable {σ α : Type*} {step : σ → α → Option σ} {ok : σ → α → Prop} {p I : σ → Prop}
variable {s t u : σ} {a : α} {as : List α}

/-- The state after a schedule, or `none` if one of its actions is not enabled. -/
def exec (step : σ → α → Option σ) : σ → List α → Option σ
  | s, [] => some s
  | s, a :: as => (step s a).bind fun s' => exec step s' as

/-- `p` holds in every state the schedule visits, the first one included. -/
def Throughout (step : σ → α → Option σ) (p : σ → Prop) : σ → List α → Prop
  | s, [] => p s
  | s, a :: as => p s ∧ ∀ s', step s a = some s' → Throughout step p s' as

/-- Every step the schedule takes meets `ok` in the state before it. -/
def EachStep (step : σ → α → Option σ) (ok : σ → α → Prop) : σ → List α → Prop
  | _, [] => True
  | s, a :: as => ∀ s', step s a = some s' → ok s a ∧ EachStep step ok s' as

/-! ## Executing a schedule -/

theorem exec_cons (s : σ) (a : α) (as : List α) :
    exec step s (a :: as) = (step s a).bind fun s' => exec step s' as := rfl

theorem exec_cons_eq_some_iff :
    exec step s (a :: as) = some u ↔ ∃ t, step s a = some t ∧ exec step t as = some u := by
  rw [exec_cons, Option.bind_eq_some_iff]

theorem exec_append (s : σ) (as bs : List α) :
    exec step s (as ++ bs) = (exec step s as).bind fun t => exec step t bs := by
  induction as generalizing s with
  | nil => rfl
  | cons a as ih =>
    rw [List.cons_append, exec_cons, exec_cons, Option.bind_assoc]
    exact congrArg _ (funext ih)

/-- One more action behind a schedule. -/
theorem exec_concat (h : exec step s as = some t) (ha : step t a = some u) :
    exec step s (as ++ [a]) = some u := by
  rw [exec_append, h, Option.bind_some, exec_cons, ha, Option.bind_some]
  rfl

theorem Throughout.head (h : Throughout step p s as) : p s := by
  cases as with
  | nil => exact h
  | cons a as => exact h.1

/-! ## Invariants -/

/-- Induction along a run. -/
theorem exec_induction (hstep : ∀ {s a s'}, I s → step s a = some s' → I s') (hs : I s)
    (h : exec step s as = some t) : I t := by
  induction as generalizing s with
  | nil => exact Option.some.inj h ▸ hs
  | cons a as ih =>
    obtain ⟨s', ha, has⟩ := exec_cons_eq_some_iff.1 h
    exact ih (hstep hs ha) has

/-- Induction along a run whose steps all meet `ok`. -/
theorem exec_induction_of_eachStep
    (hstep : ∀ {s a s'}, I s → ok s a → step s a = some s' → I s') (hs : I s)
    (hok : EachStep step ok s as) (h : exec step s as = some t) : I t := by
  induction as generalizing s with
  | nil => exact Option.some.inj h ▸ hs
  | cons a as ih =>
    obtain ⟨s', ha, has⟩ := exec_cons_eq_some_iff.1 h
    obtain ⟨hoka, hokas⟩ := hok s' ha
    exact ih (hstep hs hoka ha) hokas has

/-- Induction along steps of one kind. -/
theorem reflTransGen_induction {kind : α → Bool}
    (hstep : ∀ {s a s'}, I s → kind a = true → step s a = some s' → I s') (hs : I s)
    (h : Relation.ReflTransGen (fun s t => ∃ a, kind a = true ∧ step s a = some t) s t) :
    I t := by
  induction h with
  | refl => exact hs
  | tail _ h ih =>
    obtain ⟨a, hkind, ha⟩ := h
    exact hstep ih hkind ha

/-- A run of an abstract system is one of a system that can follow each of its steps. -/
theorem exec_simulation {τ : Type*} {step' : τ → α → Option τ} {R : τ → σ → Prop}
    (hstep : ∀ {s s' x a}, R x s → step s a = some s' → ∃ x', step' x a = some x' ∧ R x' s')
    {x : τ} (hs : R x s) (h : exec step s as = some t) :
    ∃ y, exec step' x as = some y ∧ R y t := by
  induction as generalizing s x with
  | nil => exact ⟨x, rfl, Option.some.inj h ▸ hs⟩
  | cons a as ih =>
    obtain ⟨s', ha, has⟩ := exec_cons_eq_some_iff.1 h
    obtain ⟨x', hx', hR⟩ := hstep hs ha
    obtain ⟨y, hy, hRy⟩ := ih hR has
    exact ⟨y, exec_cons_eq_some_iff.2 ⟨x', hx', hy⟩, hRy⟩

/-- The steps of a concrete schedule, one by one. -/
theorem EachStep.cons (h : step s a = some t) (hok : ok s a) (has : EachStep step ok t as) :
    EachStep step ok s (a :: as) := fun _ hs' =>
  ⟨hok, Option.some.inj (h.symm.trans hs') ▸ has⟩

/-- A condition that can be tested is tested along a concrete schedule. -/
instance EachStep.decidable [∀ s a, Decidable (ok s a)] :
    ∀ s as, Decidable (EachStep step ok s as)
  | _, [] => .isTrue trivial
  | s, a :: as =>
    match ha : step s a with
    | none => .isTrue fun _ hs => nomatch ha.symm.trans hs
    | some t =>
      have := EachStep.decidable t as
      decidable_of_iff (ok s a ∧ EachStep step ok t as)
        ⟨fun h => .cons ha h.1 h.2, fun h => h t ha⟩

/-- A condition that implies another one, in the states that the steps which meet it lead to. -/
theorem EachStep.imp {ok' : σ → α → Prop}
    (hI : ∀ {s a s'}, I s → ok s a → step s a = some s' → I s')
    (hok : ∀ {s a s'}, I s → ok s a → step s a = some s' → ok' s a) (hs : I s)
    (h : EachStep step ok s as) : EachStep step ok' s as := by
  induction as generalizing s with
  | nil => trivial
  | cons a as ih =>
    intro s' ha
    obtain ⟨hoka, hokas⟩ := h s' ha
    exact ⟨hok hs hoka ha, ih (hI hs hoka ha) hokas⟩

theorem throughout_of_eachStep
    (hstep : ∀ {s a s'}, I s → ok s a → step s a = some s' → I s') (hp : ∀ {s}, I s → p s)
    (hs : I s) (hok : EachStep step ok s as) : Throughout step p s as := by
  induction as generalizing s with
  | nil => exact hp hs
  | cons a as ih =>
    refine ⟨hp hs, fun s' ha => ?_⟩
    obtain ⟨hoka, hokas⟩ := hok s' ha
    exact ih (hstep hs hoka ha) hokas

/-- A rank that no step raises while `p` holds, and that the steps with `q` lower, bounds how many
of these a run takes on which `p` holds. -/
theorem countP_add_rank_le (rank : σ → ℕ) {q : α → Bool}
    (hstep : ∀ {s a s'}, p s → p s' → step s a = some s' →
      rank s' + (if q a then 1 else 0) ≤ rank s)
    (h : exec step s as = some t) (hp : Throughout step p s as) :
    as.countP q + rank t ≤ rank s := by
  induction as generalizing s with
  | nil => exact Option.some.inj h ▸ Nat.le_of_eq (Nat.zero_add _)
  | cons a as ih =>
    obtain ⟨s', ha, has⟩ := exec_cons_eq_some_iff.1 h
    have hp' := hp.2 s' ha
    have hrank := hstep hp.1 hp'.head ha
    have hrun := ih has hp'
    rw [List.countP_cons]
    omega

theorem eachStep_of_forall_mem (hok : ∀ a ∈ as, ∀ s, ok s a) : EachStep step ok s as := by
  induction as generalizing s with
  | nil => trivial
  | cons a as ih =>
    exact fun s' _ => ⟨hok a List.mem_cons_self s, ih fun b hb => hok b (List.mem_cons_of_mem a hb)⟩

/-- Let no step make `p` hold again, and one that meets `ok` keep it.  Then `p` holds at the end of
a run exactly if it holds at the start and all steps meet `ok`. -/
theorem exec_iff_eachStep (hI : ∀ {s a s'}, I s → step s a = some s' → I s')
    (hp : ∀ {s a s'}, I s → step s a = some s' → (p s' ↔ p s ∧ ok s a)) (hIs : I s)
    (h : exec step s as = some t) : p t ↔ p s ∧ EachStep step ok s as := by
  induction as generalizing s with
  | nil => exact Option.some.inj h ▸ (and_iff_left trivial).symm
  | cons a as ih =>
    obtain ⟨s', ha, has⟩ := exec_cons_eq_some_iff.1 h
    rw [ih (hI hIs ha) has, hp hIs ha, and_assoc]
    refine and_congr_right fun _ => ⟨fun hok s'' hs'' => ?_, fun hok => hok s' ha⟩
    cases ha.symm.trans hs''
    exact hok

/-- Two conditions that are the same for the steps from a state with `I`, which the steps that meet
them keep. -/
theorem eachStep_congr_of_ok {ok' : σ → α → Prop}
    (hI : ∀ {s a s'}, I s → ok' s a → step s a = some s' → I s')
    (h : ∀ {s a s'}, I s → step s a = some s' → (ok s a ↔ ok' s a)) (hs : I s) :
    EachStep step ok s as ↔ EachStep step ok' s as := by
  induction as generalizing s with
  | nil => exact Iff.rfl
  | cons a as ih =>
    refine forall_congr' fun s' => forall_congr' fun ha => ?_
    rw [h hs ha]
    exact and_congr_right fun hok => ih (hI hs hok ha)

/-- The same with an invariant that every step keeps. -/
theorem eachStep_congr {ok' : σ → α → Prop} (hI : ∀ {s a s'}, I s → step s a = some s' → I s')
    (h : ∀ {s a s'}, I s → step s a = some s' → (ok s a ↔ ok' s a)) (hs : I s) :
    EachStep step ok s as ↔ EachStep step ok' s as :=
  eachStep_congr_of_ok (fun hI' _ ha => hI hI' ha) h hs

/-- Let one step from a state with `I` and `p` keep `p` exactly when it meets `ok`, and then keep
`I` too.  Then a run from such a state keeps `p` throughout exactly when its steps all meet `ok`. -/
theorem throughout_iff_eachStep_of_ok
    (hI : ∀ {s a s'}, I s → p s → ok s a → step s a = some s' → I s')
    (hp : ∀ {s a s'}, I s → p s → step s a = some s' → (p s' ↔ ok s a)) (hIs : I s) (hps : p s) :
    Throughout step p s as ↔ EachStep step ok s as := by
  induction as generalizing s with
  | nil => exact ⟨fun _ => trivial, fun _ => hps⟩
  | cons a as ih =>
    constructor
    · rintro ⟨-, h⟩ s' hs'
      have hps' : p s' := (h s' hs').head
      have hok := (hp hIs hps hs').1 hps'
      exact ⟨hok, (ih (hI hIs hps hok hs') hps').1 (h s' hs')⟩
    · intro h
      refine ⟨hps, fun s' hs' => ?_⟩
      obtain ⟨hok, has⟩ := h s' hs'
      exact (ih (hI hIs hps hok hs') ((hp hIs hps hs').2 hok)).2 has

/-- The same with an invariant that every step keeps. -/
theorem throughout_iff_eachStep (hI : ∀ {s a s'}, I s → step s a = some s' → I s')
    (hp : ∀ {s a s'}, I s → p s → step s a = some s' → (p s' ↔ ok s a)) (hIs : I s) (hps : p s) :
    Throughout step p s as ↔ EachStep step ok s as :=
  throughout_iff_eachStep_of_ok (fun hI' _ _ h => hI hI' h) hp hIs hps

end Run
