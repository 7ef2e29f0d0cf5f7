import Mathlib.Data.Nat.Notation
import Mathlib.Logic.Function.Basic
import Mathlib.Tactic.ByContra

/-!
# Lease tables

A table of rows that say who has a key and until when, and beside it what the owners have been told:
`held` gives the end of the last lease that an owner was granted and has not released.  The writes
`grant` and `release` do not look at the row.  They keep the table and what was told in step when
they find the row `Free`: unowned, run out, or the owner's own.

* `Shown.exclusive`: no two owners count on one key.
* `Shown.grant`, `Shown.release`, `Shown.tick`: the operations keep `Shown`.
* `exclusive_grant_iff`: a grant is harmless exactly if it finds the row free.
-/

namespace Lease

open Function

variable {H K : Type*}

/-- One row: until when, and whose. -/
structure Row (H : Type*) where
  expires : ℕ := 0
  owner : Option H := none
  deriving DecidableEq, Repr

/-- The owner may take the row. -/
def Row.free [DecidableEq H] (row : Row H) (now : ℕ) (host : H) : Bool :=
  row.owner = none ∨ row.expires < now ∨ row.owner = some host

theorem Row.not_free_iff [DecidableEq H] {row : Row H} {now : ℕ} {host : H} :
    row.free now host ≠ true ↔
      ∃ other, row.owner = some other ∧ other ≠ host ∧ ¬ row.expires < now := by
  unfold Row.free
  cases row.owner <;> simp [and_comm]

structure Table (H K : Type*) where
  now : ℕ
  rows : K → Option (Row H)
  held : H → K → Option ℕ

namespace Table

def tick (t : Table H K) (n : ℕ) : Table H K := { t with now := t.now + n }

/-- The key goes to the host until the given time. -/
def grant [DecidableEq H] [DecidableEq K] (t : Table H K) (host : H) (key : K)
    (expires : ℕ) : Table H K :=
  match t.rows key with
  | none => t
  | some _ =>
    { t with
      rows := update t.rows key (some { expires, owner := some host })
      held := update t.held host (update (t.held host) key (some expires)) }

/-- The row is cleared, whoever has it. -/
def release [DecidableEq H] [DecidableEq K] (t : Table H K) (host : H) (key : K) :
    Table H K :=
  match t.rows key with
  | none => t
  | some _ =>
    { t with
      rows := update t.rows key (some {})
      held := update t.held host (update (t.held host) key none) }

/-- The owners that the rows show are those that have been told. -/
def start [DecidableEq H] (now : ℕ) (rows : K → Option (Row H)) : Table H K where
  now := now
  rows := rows
  held host key := match rows key with
    | some row => if row.owner = some host then some row.expires else none
    | none => none

/-- Who has the key, run out or not. -/
def owner (t : Table H K) (key : K) : Option H := (t.rows key).bind Row.owner

/-- The host counts on the key. -/
def Active (t : Table H K) (host : H) (key : K) : Prop :=
  ∃ expires, t.held host key = some expires ∧ ¬ expires < t.now

/-- No two hosts count on one key. -/
def Exclusive (t : Table H K) : Prop :=
  ∀ key host host', t.Active host key → t.Active host' key → host = host'

/-- The host may take the row as it is. -/
def Free [DecidableEq H] (t : Table H K) (host : H) (key : K) : Prop :=
  ∀ row, t.rows key = some row → row.free t.now host = true

/-- The table shows who holds what. -/
structure Shown (t : Table H K) : Prop where
  owner : ∀ host key row, t.rows key = some row → row.owner = some host →
    t.held host key = some row.expires
  active : ∀ host key, t.Active host key →
    ∃ row, t.rows key = some row ∧ row.owner = some host ∧ ¬ row.expires < t.now

variable {t : Table H K} {host host' : H} {key : K} {row : Row H} {expires : ℕ}

/-! ## The table as it is -/

theorem Shown.exclusive (h : Shown t) : t.Exclusive := by
  intro key host host' hact hact'
  obtain ⟨row, hrow, howner, -⟩ := h.active host key hact
  obtain ⟨row', hrow', howner', -⟩ := h.active host' key hact'
  obtain rfl := Option.some.inj (hrow.symm.trans hrow')
  exact Option.some.inj (howner.symm.trans howner')

theorem Shown.tick (h : Shown t) (n : ℕ) : (t.tick n).Shown := by
  refine ⟨h.owner, fun host key hact => ?_⟩
  obtain ⟨expires, hheld, hexp⟩ := hact
  have hlater : ¬ expires < t.now + n := hexp
  have hexp' : ¬ expires < t.now := by omega
  obtain ⟨row, hrow, howner, -⟩ := h.active host key ⟨expires, hheld, hexp'⟩
  obtain rfl := Option.some.inj (hheld.symm.trans (h.owner host key row hrow howner))
  exact ⟨row, hrow, howner, hexp⟩

section

variable [DecidableEq H]

/-- A row that is nobody else's is free. -/
theorem free_of_owner (h : ∀ other, t.owner key = some other → other = host) :
    t.Free host key := by
  intro row hrow
  by_contra hfree
  obtain ⟨other, howner, hne, -⟩ := Row.not_free_iff.1 hfree
  exact hne (h other (by rw [owner, hrow, Option.bind_some, howner]))

/-- With the table in order, only a host itself can count on a row that is free for it. -/
theorem Shown.eq_of_active (h : Shown t) (hfree : t.Free host key)
    (hact : t.Active host' key) : host' = host := by
  obtain ⟨row, hrow, howner, hexp⟩ := h.active host' key hact
  by_contra hne
  exact Row.not_free_iff.2 ⟨host', howner, hne, hexp⟩ (hfree row hrow)

theorem shown_start (now : ℕ) (rows : K → Option (Row H)) : (start now rows).Shown := by
  refine ⟨fun host key row hrow howner => ?_, fun host key hact => ?_⟩
  · simp only [start] at hrow ⊢
    simp [hrow, howner]
  · obtain ⟨expires, hheld, hexp⟩ := hact
    simp only [start] at hheld hexp ⊢
    split at hheld
    next row hrow =>
      split at hheld
      next howner =>
        obtain rfl := Option.some.inj hheld
        exact ⟨row, hrow, howner, hexp⟩
      · cases hheld
    · cases hheld

end

/-! ## The writes -/

variable [DecidableEq H] [DecidableEq K]

theorem grant_of_rows_eq_none (hrow : t.rows key = none) : t.grant host key expires = t := by
  rw [grant, hrow]

theorem release_of_rows_eq_none (hrow : t.rows key = none) : t.release host key = t := by
  rw [release, hrow]

theorem rows_grant (hrow : t.rows key = some row) :
    (t.grant host key expires).rows =
      update t.rows key (some { expires, owner := some host }) := by
  rw [grant, hrow]

theorem held_grant (hrow : t.rows key = some row) (host' : H) (key' : K) :
    (t.grant host key expires).held host' key' =
      if host' = host ∧ key' = key then some expires else t.held host' key' := by
  rw [grant, hrow]
  by_cases hh : host' = host
  · subst hh
    by_cases hk : key' = key <;> simp [hk]
  · simp [hh]

@[simp] theorem now_grant : (t.grant host key expires).now = t.now := by
  unfold grant
  split <;> rfl

theorem rows_release (hrow : t.rows key = some row) :
    (t.release host key).rows = update t.rows key (some {}) := by
  rw [release, hrow]

theorem held_release (hrow : t.rows key = some row) (host' : H) (key' : K) :
    (t.release host key).held host' key' =
      if host' = host ∧ key' = key then none else t.held host' key' := by
  rw [release, hrow]
  by_cases hh : host' = host
  · subst hh
    by_cases hk : key' = key <;> simp [hk]
  · simp [hh]

@[simp] theorem now_release : (t.release host key).now = t.now := by
  unfold release
  split <;> rfl

theorem owner_grant_of_ne {key' : K} (hne : key' ≠ key) :
    (t.grant host key expires).owner key' = t.owner key' := by
  cases hrow : t.rows key with
  | none => rw [grant_of_rows_eq_none hrow]
  | some row => rw [owner, owner, rows_grant hrow, update_of_ne hne]

theorem owner_grant (howner : t.owner key = some host') :
    (t.grant host key expires).owner key = some host := by
  obtain ⟨row, hrow, -⟩ := Option.bind_eq_some_iff.1 howner
  rw [owner, rows_grant hrow, update_self]
  rfl

/-- Whoever has the key after a grant has been granted it. -/
theorem eq_of_owner_grant (howner : (t.grant host key expires).owner key = some host') :
    host' = host := by
  cases hrow : t.rows key with
  | none =>
    rw [grant_of_rows_eq_none hrow, owner, hrow] at howner
    cases howner
  | some row =>
    rw [owner, rows_grant hrow, update_self] at howner
    exact (Option.some.inj howner).symm

theorem owner_release_of_ne {key' : K} (hne : key' ≠ key) :
    (t.release host key).owner key' = t.owner key' := by
  cases hrow : t.rows key with
  | none => rw [release_of_rows_eq_none hrow]
  | some row => rw [owner, owner, rows_release hrow, update_of_ne hne]

theorem owner_release : (t.release host key).owner key = none := by
  cases hrow : t.rows key with
  | none => rw [release_of_rows_eq_none hrow, owner, hrow, Option.bind_none]
  | some row =>
    rw [owner, rows_release hrow, update_self]
    rfl

/-! ## Exclusion -/

theorem Shown.grant (h : Shown t) (hfree : t.Free host key) (hnow : t.now ≤ expires) :
    (t.grant host key expires).Shown := by
  cases hrow : t.rows key with
  | none => rwa [grant_of_rows_eq_none hrow]
  | some row =>
  refine ⟨fun host' key' row' hrow' howner => ?_, fun host' key' hact => ?_⟩
  · rw [rows_grant hrow] at hrow'
    rw [held_grant hrow]
    by_cases hk : key' = key
    · subst hk
      rw [update_self] at hrow'
      obtain rfl := Option.some.inj hrow'
      rw [if_pos ⟨(Option.some.inj howner).symm, rfl⟩]
    · rw [update_of_ne hk] at hrow'
      rw [if_neg (fun hc => hk hc.2)]
      exact h.owner host' key' row' hrow' howner
  · obtain ⟨told, htold, hexp⟩ := hact
    rw [held_grant hrow] at htold
    rw [now_grant] at hexp ⊢
    rw [rows_grant hrow]
    by_cases hk : key' = key
    · subst hk
      have hhost : host' = host := by
        by_contra hne
        rw [if_neg (fun hc => hne hc.1)] at htold
        exact hne (h.eq_of_active hfree ⟨told, htold, hexp⟩)
      subst hhost
      exact ⟨_, update_self .., rfl, by simpa using hnow⟩
    · rw [if_neg (fun hc => hk hc.2)] at htold
      rw [update_of_ne hk]
      exact h.active host' key' ⟨told, htold, hexp⟩

theorem Shown.release (h : Shown t) (hfree : t.Free host key) : (t.release host key).Shown := by
  cases hrow : t.rows key with
  | none => rwa [release_of_rows_eq_none hrow]
  | some row =>
  refine ⟨fun host' key' row' hrow' howner => ?_, fun host' key' hact => ?_⟩
  · rw [rows_release hrow] at hrow'
    rw [held_release hrow]
    by_cases hk : key' = key
    · subst hk
      rw [update_self] at hrow'
      obtain rfl := Option.some.inj hrow'
      cases howner
    · rw [update_of_ne hk] at hrow'
      rw [if_neg (fun hc => hk hc.2)]
      exact h.owner host' key' row' hrow' howner
  · obtain ⟨told, htold, hexp⟩ := hact
    rw [held_release hrow] at htold
    rw [now_release] at hexp ⊢
    rw [rows_release hrow]
    have hother : ¬ (host' = host ∧ key' = key) := by
      intro hc
      rw [if_pos hc] at htold
      cases htold
    rw [if_neg hother] at htold
    have hk : key' ≠ key := by
      rintro rfl
      exact hother ⟨h.eq_of_active hfree ⟨told, htold, hexp⟩, rfl⟩
    rw [update_of_ne hk]
    exact h.active host' key' ⟨told, htold, hexp⟩

/-- A grant that takes the key from an owner leaves two hosts that count on it. -/
theorem exclusive_grant_iff (h : Shown t) (hnow : t.now ≤ expires) :
    (t.grant host key expires).Exclusive ↔ t.Free host key := by
  constructor
  · intro he row hrow
    by_contra hfree
    obtain ⟨other, howner, hne, hexp⟩ := Row.not_free_iff.1 hfree
    have hold : (t.grant host key expires).Active other key := by
      refine ⟨row.expires, ?_, by rwa [now_grant]⟩
      rw [held_grant hrow, if_neg (fun hc => hne hc.1)]
      exact h.owner other key row hrow howner
    have hnew : (t.grant host key expires).Active host key := by
      refine ⟨expires, ?_, by rw [now_grant]; omega⟩
      rw [held_grant hrow, if_pos ⟨rfl, rfl⟩]
    exact hne (he key other host hold hnew)
  · exact fun hfree => (h.grant hfree hnow).exclusive

end Table

end Lease
