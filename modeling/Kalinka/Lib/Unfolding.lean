import Mathlib.Data.List.Basic
import Mathlib.Logic.Function.Basic
import Mathlib.Logic.Relation

/-!
# Unfoldings of nested containers

A container has other containers in it: `sub a` lists those of `a`, in order and with repetitions.
`Unfolds sub as v` says that the visit of all containers in `as`, each one followed by everything
below it, ends, and that `v` lists the containers in the order of the visits.  A container that is
reached in two ways is visited twice, and nothing unfolds below a container that contains itself.

* `Unfolds.unique`: there is one list of visits at most.
* `Unfolds.mem_iff`: what is visited is what can be reached.
* `not_unfolds_of_mem_below`: a container below itself has none.
* `Unfolds.attach`: what is visited after a container has been put into another one.
-/

open Function

variable {α : Type*} {sub sub' : α → List α} {a b c r : α} {as bs v v' w vr : List α}

inductive Unfolds (sub : α → List α) : List α → List α → Prop
  | nil : Unfolds sub [] []
  | cons {a : α} {as v w : List α} : Unfolds sub (sub a) v → Unfolds sub as w →
      Unfolds sub (a :: as) (a :: (v ++ w))

theorem Unfolds.unique (h : Unfolds sub as v) (h' : Unfolds sub as v') : v = v' := by
  induction h generalizing v' with
  | nil =>
    cases h'
    rfl
  | cons _ _ ihbelow ihrest =>
    cases h' with
    | cons hbelow hrest => rw [ihbelow hbelow, ihrest hrest]

theorem unfolds_cons_iff : Unfolds sub (a :: as) v ↔
    ∃ va w, Unfolds sub (sub a) va ∧ Unfolds sub as w ∧ v = a :: (va ++ w) := by
  constructor
  · intro h
    cases h with
    | cons hbelow hrest => exact ⟨_, _, hbelow, hrest, rfl⟩
  · rintro ⟨va, w, hbelow, hrest, rfl⟩
    exact .cons hbelow hrest

theorem unfolds_singleton_iff :
    Unfolds sub [a] v ↔ ∃ va, Unfolds sub (sub a) va ∧ v = a :: va := by
  rw [unfolds_cons_iff]
  constructor
  · rintro ⟨va, w, hbelow, hrest, rfl⟩
    cases hrest
    exact ⟨va, hbelow, by rw [List.append_nil]⟩
  · rintro ⟨va, hbelow, rfl⟩
    exact ⟨va, [], hbelow, .nil, by rw [List.append_nil]⟩

theorem unfolds_append_iff : Unfolds sub (as ++ bs) v ↔
    ∃ va vb, Unfolds sub as va ∧ Unfolds sub bs vb ∧ v = va ++ vb := by
  induction as generalizing v with
  | nil =>
    constructor
    · exact fun h => ⟨[], v, .nil, h, rfl⟩
    · rintro ⟨va, vb, ha, hb, rfl⟩
      cases ha
      exact hb
  | cons a as ih =>
    rw [List.cons_append, unfolds_cons_iff]
    constructor
    · rintro ⟨va, w, hbelow, hrest, rfl⟩
      obtain ⟨wa, wb, hwa, hwb, rfl⟩ := ih.1 hrest
      exact ⟨_, wb, .cons hbelow hwa, hwb, by simp⟩
    · rintro ⟨va, vb, ha, hb, rfl⟩
      obtain ⟨wa, w, hbelow, hrest, rfl⟩ := unfolds_cons_iff.1 ha
      exact ⟨wa, _, hbelow, ih.2 ⟨w, vb, hrest, hb, rfl⟩, by simp⟩

theorem Unfolds.mem_of_mem (h : Unfolds sub as v) (ha : a ∈ as) : a ∈ v := by
  obtain ⟨before, after, rfl⟩ := List.append_of_mem ha
  obtain ⟨_, _, -, hrest, rfl⟩ := unfolds_append_iff.1 h
  obtain ⟨_, _, -, -, rfl⟩ := unfolds_cons_iff.1 hrest
  exact List.mem_append_right _ List.mem_cons_self

/-- The visits depend on the containers that are visited only. -/
theorem Unfolds.of_eqOn (h : Unfolds sub as v) (heq : ∀ x ∈ v, sub' x = sub x) :
    Unfolds sub' as v := by
  induction h with
  | nil => exact .nil
  | cons _ _ ihbelow ihrest =>
    rw [List.forall_mem_cons, List.forall_mem_append] at heq
    obtain ⟨ha, hbelow, hrest⟩ := heq
    exact .cons (ha ▸ ihbelow hbelow) (ihrest hrest)

/-! ## Below a container -/

/-- The visit of a container below takes part in the whole one. -/
theorem Unfolds.exists_sublist (h : Unfolds sub as v) (hb : b ∈ v) :
    ∃ w, Unfolds sub [b] w ∧ w.Sublist v := by
  induction h with
  | nil => exact absurd hb List.not_mem_nil
  | @cons a as va w hbelow hrest ihbelow ihrest =>
    obtain rfl | hb := List.mem_cons.1 hb
    · refine ⟨b :: va, unfolds_singleton_iff.2 ⟨va, hbelow, rfl⟩, ?_⟩
      exact (List.sublist_append_left va w).cons_cons b
    · obtain hb | hb := List.mem_append.1 hb
      · obtain ⟨wb, hwb, hsub⟩ := ihbelow hb
        exact ⟨wb, hwb, .cons _ (hsub.trans (List.sublist_append_left va w))⟩
      · obtain ⟨wb, hwb, hsub⟩ := ihrest hb
        exact ⟨wb, hwb, .cons _ (hsub.trans (List.sublist_append_right va w))⟩

/-- A container below itself has no list of visits. -/
theorem not_unfolds_of_mem_below (hr : r ∈ sub c) (hw : Unfolds sub [r] w) (hc : c ∈ w) :
    ¬ Unfolds sub [c] v := by
  intro hv
  obtain ⟨vc, hvc, hsub⟩ := hw.exists_sublist hc
  obtain rfl := hv.unique hvc
  obtain ⟨below, hbelow, rfl⟩ := unfolds_singleton_iff.1 hv
  obtain ⟨wr, hwr, hsub'⟩ := hbelow.exists_sublist (hbelow.mem_of_mem hr)
  obtain rfl := hw.unique hwr
  have hle := (hsub.trans hsub').length_le
  rw [List.length_cons] at hle
  omega

/-- The visit shows what can be reached. -/
theorem Unfolds.mem_iff (h : Unfolds sub as v) :
    b ∈ v ↔ ∃ a ∈ as, Relation.ReflTransGen (fun x y => y ∈ sub x) a b := by
  constructor
  · intro hb
    induction h with
    | nil => cases hb
    | @cons a as va w _ _ ihbelow ihrest =>
      obtain rfl | hb := List.mem_cons.1 hb
      · exact ⟨b, List.mem_cons_self, .refl⟩
      · obtain hb | hb := List.mem_append.1 hb
        · obtain ⟨x, hx, hreach⟩ := ihbelow hb
          exact ⟨a, List.mem_cons_self, .head hx hreach⟩
        · obtain ⟨x, hx, hreach⟩ := ihrest hb
          exact ⟨x, List.mem_cons_of_mem _ hx, hreach⟩
  · rintro ⟨a, ha, hreach⟩
    induction hreach with
    | refl => exact h.mem_of_mem ha
    | tail _ hc ih =>
      obtain ⟨w, hw, hsub⟩ := h.exists_sublist ih
      obtain ⟨below, hbelow, rfl⟩ := unfolds_singleton_iff.1 hw
      exact hsub.subset (List.mem_cons_of_mem _ (hbelow.mem_of_mem hc))

/-- What was visited is visited still when the containers have got more. -/
theorem Unfolds.subset_of_extend (h : Unfolds sub as v) (h' : Unfolds sub' as v')
    (hext : ∀ x, ∃ more, sub' x = sub x ++ more) : v ⊆ v' := by
  induction h generalizing v' with
  | nil => exact List.nil_subset _
  | @cons a as va w _ _ ihbelow ihrest =>
    obtain ⟨va', w', hbelow, hrest, rfl⟩ := unfolds_cons_iff.1 h'
    obtain ⟨more, heq⟩ := hext a
    rw [heq, unfolds_append_iff] at hbelow
    obtain ⟨va₁, va₂, hva₁, -, rfl⟩ := hbelow
    refine List.cons_subset_cons a (List.append_subset.2 ⟨?_, ?_⟩)
    · exact List.Subset.trans (ihbelow hva₁) (by simp)
    · exact List.Subset.trans (ihrest hrest) (by simp)

/-! ## Putting a container into another one -/

section Attach

variable [DecidableEq α]

/-- `r` has been put into `c`, behind what was there. -/
def attached (sub : α → List α) (c r : α) : α → List α := update sub c (sub c ++ [r])

theorem attached_self : attached sub c r c = sub c ++ [r] := update_self ..

theorem attached_of_ne (h : a ≠ c) : attached sub c r a = sub a := update_of_ne h ..

theorem attached_extends (a : α) : ∃ more, attached sub c r a = sub a ++ more := by
  by_cases h : a = c
  · exact ⟨[r], h ▸ attached_self⟩
  · exact ⟨[], by rw [attached_of_ne h, List.append_nil]⟩

/-- Each visit of `c` is followed by one of all below `r`, if `c` is not there itself. -/
theorem Unfolds.attach (h : Unfolds sub as v) (hr : Unfolds sub [r] vr) (hc : c ∉ vr) :
    ∃ v', Unfolds (attached sub c r) as v' ∧ ∀ {β : Type} (own : α → List β) (p : β → Bool),
      (v'.flatMap own).countP p =
        (v.flatMap own).countP p + v.count c * (vr.flatMap own).countP p := by
  have hr' : Unfolds (attached sub c r) [r] vr :=
    hr.of_eqOn fun x hx => attached_of_ne (ne_of_mem_of_not_mem hx hc)
  induction h with
  | nil => exact ⟨[], .nil, fun own p => by simp⟩
  | @cons a as va w _ _ ihbelow ihrest =>
    obtain ⟨va', hbelow, hcount⟩ := ihbelow
    obtain ⟨w', hrest, hcount'⟩ := ihrest
    by_cases hac : a = c
    · subst hac
      have hall : Unfolds (attached sub a r) (attached sub a r a) (va' ++ vr) := by
        rw [attached_self]
        exact unfolds_append_iff.2 ⟨va', vr, hbelow, hr', rfl⟩
      refine ⟨a :: (va' ++ vr ++ w'), .cons hall hrest, fun own p => ?_⟩
      simp only [List.flatMap_cons, List.flatMap_append, List.countP_append, List.count_cons_self,
        List.count_append, hcount, hcount', Nat.add_mul]
      omega
    · have hall : Unfolds (attached sub c r) (attached sub c r a) va' := by
        rwa [attached_of_ne hac]
      refine ⟨a :: (va' ++ w'), .cons hall hrest, fun own p => ?_⟩
      simp only [List.flatMap_cons, List.flatMap_append, List.countP_append,
        List.count_cons_of_ne hac, List.count_append, hcount, hcount', Nat.add_mul]
      omega

end Attach
