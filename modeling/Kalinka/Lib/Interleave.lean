import Mathlib.Data.List.Basic

/-!
# Interleavings

An interleaving of two sequences is a list of `α ⊕ β`: `lefts` and `rights` are the sequences, each
in its own order.

* `foldl_eq_foldl_foldl`: where the steps of the one commute with those of the other, a run is the
  steps of the one behind those of the other.
* `foldl_eq_of_commute`: so two interleavings of the same sequences lead to the same state.
-/

namespace Interleave

variable {α β σ : Type*} {step : σ → α ⊕ β → σ} {s : σ} {l l' : List (α ⊕ β)}

def lefts (l : List (α ⊕ β)) : List α := l.filterMap Sum.getLeft?

def rights (l : List (α ⊕ β)) : List β := l.filterMap Sum.getRight?

@[simp] theorem lefts_cons_inl (a : α) : lefts (.inl a :: l) = a :: lefts l := rfl

@[simp] theorem lefts_cons_inr (b : β) : lefts (.inr b :: l) = lefts l := rfl

@[simp] theorem rights_cons_inl (a : α) : rights (.inl a :: l) = rights l := rfl

@[simp] theorem rights_cons_inr (b : β) : rights (.inr b :: l) = b :: rights l := rfl

/-- A step moves behind all those that it commutes with. -/
theorem foldl_inl_step (hcomm : ∀ s a b, step (step s (.inl a)) (.inr b) =
    step (step s (.inr b)) (.inl a)) (as : List α) (b : β) :
    as.foldl (fun s a => step s (.inl a)) (step s (.inr b)) =
      step (as.foldl (fun s a => step s (.inl a)) s) (.inr b) := by
  induction as generalizing s with
  | nil => rfl
  | cons a as ih => rw [List.foldl_cons, List.foldl_cons, ← hcomm, ih]

theorem foldl_eq_foldl_foldl (hcomm : ∀ s a b, step (step s (.inl a)) (.inr b) =
    step (step s (.inr b)) (.inl a)) :
    l.foldl step s = (rights l).foldl (fun s b => step s (.inr b))
      ((lefts l).foldl (fun s a => step s (.inl a)) s) := by
  induction l generalizing s with
  | nil => rfl
  | cons e l ih =>
    cases e with
    | inl a => rw [List.foldl_cons, ih, lefts_cons_inl, rights_cons_inl, List.foldl_cons]
    | inr b =>
      rw [List.foldl_cons, ih, lefts_cons_inr, rights_cons_inr, List.foldl_cons,
        foldl_inl_step hcomm]

theorem foldl_eq_of_commute (hcomm : ∀ s a b, step (step s (.inl a)) (.inr b) =
    step (step s (.inr b)) (.inl a)) (hleft : lefts l = lefts l') (hright : rights l = rights l') :
    l.foldl step s = l'.foldl step s := by
  rw [foldl_eq_foldl_foldl hcomm, foldl_eq_foldl_foldl hcomm, hleft, hright]

end Interleave
