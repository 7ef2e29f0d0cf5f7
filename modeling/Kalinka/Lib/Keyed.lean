import Mathlib.Algebra.BigOperators.Group.List.Basic
import Mathlib.Algebra.Group.Basic
import Mathlib.Data.List.Nodup
import Mathlib.Tactic.Abel

/-!
# Tables with a key

A table is a list of rows, no two of which have the same key.  A row is selected, updated and
deleted by its key.

* `of_select_eq_some`, `select_eq_some`, `forall_mem_update`, `mem_delete`: what the operations find
  and leave.
* `select_upsert_self`, `perm_of_select_eq`: the row that is changed or put in, and when two tables
  have the same rows.
* `mem_eraseFirsts_iff`: what is left of a list when the first row of each key in a list goes.
* `sum_update`, `sum_delete`: how they change a sum over the rows.
-/

namespace Keyed

variable {ρ κ M : Type*} {key : ρ → κ} {rows : List ρ} {r r' : ρ} {k : κ} {f : ρ → ρ} {g : ρ → M}

/-- No two rows have the same key. -/
def Primary (key : ρ → κ) (rows : List ρ) : Prop := (rows.map key).Nodup

/-! ## Keys -/

theorem eq_of_key_eq (h : Primary key rows) (hr : r ∈ rows) (hr' : r' ∈ rows)
    (hkey : key r = key r') : r = r' :=
  List.inj_on_of_nodup_map h hr hr' hkey

theorem Primary.append (h : Primary key rows) (hr : ∀ r' ∈ rows, key r' ≠ key r) :
    Primary key (rows ++ [r]) := by
  rw [Primary, List.map_append]
  apply List.Nodup.append h (List.nodup_singleton _)
  simpa [List.disjoint_singleton] using hr

theorem Primary.of_cons (h : Primary key (r :: rows)) :
    Primary key rows ∧ ∀ r' ∈ rows, key r' ≠ key r := by
  obtain ⟨hnot, hnodup⟩ := List.nodup_cons.1 h
  exact ⟨hnodup, fun r' hr' heq => hnot (heq ▸ List.mem_map_of_mem hr')⟩

theorem Primary.sublist {rows' : List ρ} (h : Primary key rows) (hsub : rows'.Sublist rows) :
    Primary key rows' :=
  List.Nodup.sublist (hsub.map key) h

/-- Where no two rows meet `p`, a row that does is the only one. -/
theorem filter_eq_singleton {p : ρ → Bool} (h : rows.Pairwise fun r r' => ¬(p r ∧ p r'))
    (hr : r ∈ rows) (hp : p r) : rows.filter p = [r] := by
  induction rows with
  | nil => cases hr
  | cons x rows ih =>
    obtain ⟨hx, hrows⟩ := List.pairwise_cons.1 h
    obtain rfl | hr := List.mem_cons.1 hr
    · have hnone : rows.filter p = [] :=
        List.filter_eq_nil_iff.2 fun r' hr' hp' => hx r' hr' ⟨hp, hp'⟩
      rw [List.filter_cons_of_pos hp, hnone]
    · rw [List.filter_cons_of_neg fun hpx => hx r hr ⟨hpx, hp⟩]
      exact ih hrows hr

theorem Primary.pairwise [DecidableEq κ] (h : Primary key rows) (k : κ) :
    rows.Pairwise fun r r' => ¬(decide (key r = k) = true ∧ decide (key r' = k) = true) := by
  refine (List.pairwise_map.1 h).imp fun hne => ?_
  rintro ⟨hr, hr'⟩
  exact hne ((of_decide_eq_true hr).trans (of_decide_eq_true hr').symm)

/-! ## Operations -/

variable [DecidableEq κ]

def select (key : ρ → κ) (k : κ) (rows : List ρ) : Option ρ := rows.find? fun r => key r = k

def update (key : ρ → κ) (k : κ) (f : ρ → ρ) (rows : List ρ) : List ρ :=
  rows.map fun r => if key r = k then f r else r

def delete (key : ρ → κ) (k : κ) (rows : List ρ) : List ρ := rows.filter fun r => key r ≠ k

theorem of_select_eq_some (h : select key k rows = some r) : r ∈ rows ∧ key r = k :=
  ⟨List.mem_of_find?_eq_some h, by simpa using List.find?_some h⟩

theorem select_eq_none_iff : select key k rows = none ↔ ∀ r ∈ rows, key r ≠ k := by
  simp [select, List.find?_eq_none]

theorem select_eq_some (h : Primary key rows) (hr : r ∈ rows) (hk : key r = k) :
    select key k rows = some r := by
  cases hsel : select key k rows with
  | none => exact absurd hk (select_eq_none_iff.1 hsel r hr)
  | some r' =>
    obtain ⟨hr', hk'⟩ := of_select_eq_some hsel
    rw [eq_of_key_eq h hr' hr (hk'.trans hk.symm)]

theorem forall_mem_update {p : ρ → Prop} :
    (∀ r ∈ update key k f rows, p r) ↔ ∀ r ∈ rows, p (if key r = k then f r else r) :=
  List.forall_mem_map

theorem mem_delete : r ∈ delete key k rows ↔ r ∈ rows ∧ key r ≠ k := by
  simp [delete]

theorem Primary.update (h : Primary key rows) (hf : ∀ r, key (f r) = key r) :
    Primary key (update key k f rows) := by
  have hkeys : (Keyed.update key k f rows).map key = rows.map key := by
    rw [Keyed.update, List.map_map]
    apply List.map_congr_left
    intro r _
    rw [Function.comp_apply, apply_ite key, hf, ite_self]
  rw [Primary, hkeys]
  exact h

theorem Primary.delete (h : Primary key rows) : Primary key (delete key k rows) :=
  h.sublist List.filter_sublist

theorem delete_update (hf : ∀ r, key (f r) = key r) :
    Keyed.delete key k (Keyed.update key k f rows) = Keyed.delete key k rows := by
  induction rows with
  | nil => rfl
  | cons r rows ih =>
    rw [Keyed.update, List.map_cons, ← Keyed.update]
    by_cases hr : key r = k
    · have hfr : key (f r) = k := (hf r).trans hr
      rw [if_pos hr, Keyed.delete, List.filter_cons_of_neg (by simpa using hfr), Keyed.delete,
        List.filter_cons_of_neg (by simpa using hr)]
      exact ih
    · rw [if_neg hr, Keyed.delete, List.filter_cons_of_pos (by simpa using hr), Keyed.delete,
        List.filter_cons_of_pos (by simpa using hr)]
      exact congrArg (r :: ·) ih

theorem update_of_fixed (h : ∀ r ∈ rows, key r = k → f r = r) : update key k f rows = rows := by
  have hid : update key k f rows = rows.map id := by
    apply List.map_congr_left
    intro r hr
    split
    · exact h r hr ‹_›
    · rfl
  rw [hid, List.map_id]

theorem update_eq_self (h : ∀ r ∈ rows, key r ≠ k) : update key k f rows = rows :=
  update_of_fixed fun r hr hk => absurd hk (h r hr)

theorem update_update {f' : ρ → ρ} (hf : ∀ r, key (f r) = key r) :
    update key k f' (update key k f rows) = update key k (f' ∘ f) rows := by
  rw [update, update, List.map_map]
  apply List.map_congr_left
  intro r _
  rw [Function.comp_apply, apply_ite key, hf, ite_self]
  split <;> rfl

theorem delete_eq_self (h : ∀ r ∈ rows, key r ≠ k) : delete key k rows = rows :=
  List.filter_eq_self.2 fun r hr => decide_eq_true (h r hr)

/-- The first row with the key is changed; where there is none, a new one is put at the end. -/
def upsert (key : ρ → κ) (k : κ) (f : ρ → ρ) (new : Option ρ) : List ρ → List ρ
  | [] => new.toList
  | r :: rows => if key r = k then f r :: rows else r :: upsert key k f new rows

theorem map_upsert {new : Option ρ} (hf : ∀ r, key (f r) = key r) (hnew : ∀ r ∈ new, key r = k) :
    (upsert key k f new rows).map key =
      if k ∈ rows.map key ∨ new = none then rows.map key else rows.map key ++ [k] := by
  induction rows with
  | nil =>
    cases new with
    | none => rfl
    | some r => simp [upsert, hnew r rfl]
  | cons r rows ih =>
    by_cases hr : key r = k
    · rw [upsert, if_pos hr, List.map_cons, hf, List.map_cons, hr,
        if_pos (.inl List.mem_cons_self)]
    have hmem : k ∈ (r :: rows).map key ↔ k ∈ rows.map key := by simp [Ne.symm hr]
    rw [upsert, if_neg hr, List.map_cons, ih]
    by_cases hk : k ∈ rows.map key ∨ new = none
    · rw [if_pos hk, if_pos (hk.imp_left hmem.2), List.map_cons]
    · rw [if_neg hk, if_neg (mt (Or.imp_left hmem.1) hk), List.map_cons, List.cons_append]

theorem Primary.upsert {new : Option ρ} (h : Primary key rows) (hf : ∀ r, key (f r) = key r)
    (hnew : ∀ r ∈ new, key r = k) : Primary key (upsert key k f new rows) := by
  rw [Primary, map_upsert hf hnew]
  split
  · exact h
  next hnot =>
    apply List.Nodup.append h (List.nodup_singleton k)
    rw [List.disjoint_singleton]
    exact fun hmem => hnot (.inl hmem)

theorem select_upsert_self {new : Option ρ} (hf : ∀ r, key (f r) = key r)
    (hnew : ∀ r ∈ new, key r = k) :
    select key k (upsert key k f new rows) = ((select key k rows).map f).or new := by
  induction rows with
  | nil =>
    cases new with
    | none => rfl
    | some r => simp [select, Keyed.upsert, hnew r rfl]
  | cons r rows ih =>
    rw [Keyed.upsert]
    by_cases hr : key r = k
    · have hfr : key (f r) = k := (hf r).trans hr
      rw [if_pos hr, select, List.find?_cons_of_pos (by simpa using hfr), select,
        List.find?_cons_of_pos (by simpa using hr)]
      rfl
    · rw [if_neg hr, select, List.find?_cons_of_neg (by simpa using hr), select,
        List.find?_cons_of_neg (by simpa using hr)]
      exact ih

theorem select_upsert_of_ne {new : Option ρ} {k' : κ} (hf : ∀ r, key (f r) = key r)
    (hnew : ∀ r ∈ new, key r = k) (hk : k ≠ k') :
    select key k' (upsert key k f new rows) = select key k' rows := by
  induction rows with
  | nil =>
    cases new with
    | none => rfl
    | some r => simp [select, Keyed.upsert, hnew r rfl, hk]
  | cons r rows ih =>
    rw [Keyed.upsert]
    by_cases hr : key r = k
    · have hne : key r ≠ k' := hr.trans_ne hk
      have hfne : key (f r) ≠ k' := (hf r).trans_ne hne
      rw [if_pos hr, select, List.find?_cons_of_neg (by simpa using hfne), select,
        List.find?_cons_of_neg (by simpa using hne)]
    · rw [if_neg hr]
      by_cases hr' : key r = k'
      · rw [select, List.find?_cons_of_pos (by simpa using hr'), select,
          List.find?_cons_of_pos (by simpa using hr')]
      · rw [select, List.find?_cons_of_neg (by simpa using hr'), select,
          List.find?_cons_of_neg (by simpa using hr')]
        exact ih

/-- Two tables in which the same row is found for every key have the same rows. -/
theorem perm_of_select_eq {rows' : List ρ} (h : Primary key rows) (h' : Primary key rows')
    (hsel : ∀ k, select key k rows = select key k rows') : rows.Perm rows' := by
  refine (List.perm_ext_iff_of_nodup (.of_map key h) (.of_map key h')).2 fun r => ?_
  constructor
  · exact fun hr => (of_select_eq_some ((hsel _).symm.trans (select_eq_some h hr rfl))).1
  · exact fun hr => (of_select_eq_some ((hsel _).trans (select_eq_some h' hr rfl))).1

/-! ## The first rows of some keys -/

/-- For each of the keys, the first row that is left with it goes. -/
def eraseFirsts (key : ρ → κ) (ks : List κ) (rows : List ρ) : List ρ :=
  ks.foldl (fun rows k => rows.eraseP fun r => key r = k) rows

theorem eraseFirsts_cons {ks : List κ} : eraseFirsts key (k :: ks) rows =
    eraseFirsts key ks (rows.eraseP fun r => key r = k) := rfl

theorem eraseFirsts_subset {ks : List κ} : eraseFirsts key ks rows ⊆ rows := by
  induction ks generalizing rows with
  | nil => exact fun _ hr => hr
  | cons k ks ih => exact fun r hr => List.eraseP_subset (ih hr)

theorem countP_eraseP {k' : κ} : (rows.eraseP fun r => key r = k).countP (fun r => key r = k') =
    rows.countP (fun r => key r = k') - if k = k' then 1 else 0 := by
  induction rows with
  | nil => simp
  | cons r rows ih =>
    by_cases hr : key r = k
    · rw [List.eraseP_cons_of_pos (p := fun r => decide (key r = k)) (decide_eq_true hr)]
      simp [List.countP_cons, hr]
    · rw [List.eraseP_cons_of_neg (by simpa using hr), List.countP_cons, List.countP_cons, ih]
      by_cases hk : k = k'
      · simp [← hk, hr]
      · simp [hk]

/-- A row stays if the rows with its key before it are as many as are to go. -/
theorem mem_eraseFirsts_iff {ks : List κ} {as bs : List ρ} (h : (as ++ r :: bs).Nodup) :
    r ∈ eraseFirsts key ks (as ++ r :: bs) ↔
      ks.countP (fun k => k = key r) ≤ as.countP fun a => key a = key r := by
  induction ks generalizing as bs with
  | nil => simp [eraseFirsts]
  | cons k ks ih =>
    rw [eraseFirsts_cons, List.countP_cons]
    by_cases hmem : ∃ a ∈ as, key a = k
    · obtain ⟨a, ha, hk⟩ := hmem
      have herase : ((as ++ r :: bs).eraseP fun r => key r = k) =
          (as.eraseP fun r => key r = k) ++ r :: bs :=
        List.eraseP_append_left (p := fun r => decide (key r = k)) (decide_eq_true hk) _ ha
      have hnodup := h.sublist (List.eraseP_sublist (p := fun r => decide (key r = k)))
      rw [herase] at hnodup ⊢
      rw [ih hnodup, countP_eraseP]
      by_cases hr : k = key r
      · have hpos : 0 < as.countP fun a => key a = key r :=
          List.countP_pos_iff.2 ⟨a, ha, decide_eq_true (hk.trans hr)⟩
        rw [if_pos hr, if_pos (decide_eq_true hr)]
        omega
      · simp [hr]
    · have hnone : ∀ a ∈ as, ¬(decide (key a = k) = true) := by simpa using hmem
      rw [List.eraseP_append_right _ hnone]
      by_cases hr : key r = k
      · -- the row goes, and no other one is equal to it
        subst hr
        have hcount : as.countP (fun a => key a = key r) = 0 := List.countP_eq_zero.2 hnone
        have hnot : r ∉ as ++ bs := (List.nodup_cons.1 (List.nodup_middle.1 h)).1
        rw [List.eraseP_cons_of_pos (p := fun r' => decide (key r' = key r)) (decide_eq_true rfl)]
        refine iff_of_false (fun hr' => hnot (eraseFirsts_subset hr')) ?_
        rw [hcount, if_pos (decide_eq_true rfl)]
        omega
      · have hnodup : (as ++ r :: bs.eraseP fun r => key r = k).Nodup :=
          h.sublist ((List.eraseP_sublist.cons_cons r).append_left as)
        rw [List.eraseP_cons_of_neg (by simpa using hr), ih hnodup]
        simp [Ne.symm hr]

/-! ## Sums -/

variable [AddCommGroup M]

/-- Updating a row replaces its share of the sum. -/
theorem sum_update (h : Primary key rows) (hr : r ∈ rows) (hk : key r = k) :
    ((update key k f rows).map g).sum = (rows.map g).sum - g r + g (f r) := by
  induction rows with
  | nil => cases hr
  | cons r' rows ih =>
    obtain ⟨hprim, hne⟩ := h.of_cons
    rw [update, List.map_cons, ← update]
    by_cases heq : key r' = k
    · have hrr' : r' = r := eq_of_key_eq h List.mem_cons_self hr (heq.trans hk.symm)
      subst hrr'
      rw [if_pos heq, update_eq_self fun r hr => heq ▸ hne r hr, List.map_cons, List.map_cons,
        List.sum_cons, List.sum_cons]
      abel
    · have hmem : r ∈ rows := (List.mem_cons.1 hr).resolve_left fun h => heq (h ▸ hk)
      rw [if_neg heq, List.map_cons, List.map_cons, List.sum_cons, List.sum_cons, ih hprim hmem]
      abel

/-- Deleting a row takes its share off the sum. -/
theorem sum_delete (h : Primary key rows) (hr : r ∈ rows) (hk : key r = k) :
    ((delete key k rows).map g).sum = (rows.map g).sum - g r := by
  induction rows with
  | nil => cases hr
  | cons r' rows ih =>
    obtain ⟨hprim, hne⟩ := h.of_cons
    by_cases heq : key r' = k
    · have hrr' : r' = r := eq_of_key_eq h List.mem_cons_self hr (heq.trans hk.symm)
      subst hrr'
      have hdel : delete key k (r' :: rows) = rows := by
        rw [delete, List.filter_cons_of_neg (by simpa using heq)]
        exact delete_eq_self fun r hr => heq ▸ hne r hr
      rw [hdel, List.map_cons, List.sum_cons]
      abel
    · have hmem : r ∈ rows := (List.mem_cons.1 hr).resolve_left fun h => heq (h ▸ hk)
      have hdel : delete key k (r' :: rows) = r' :: delete key k rows :=
        List.filter_cons_of_pos (by simpa using heq)
      rw [hdel, List.map_cons, List.map_cons, List.sum_cons, List.sum_cons, ih hprim hmem]
      abel

end Keyed
