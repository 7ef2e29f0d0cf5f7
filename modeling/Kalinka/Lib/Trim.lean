import Mathlib.Data.List.DropRight
import Mathlib.Data.List.TakeWhile

/-!
# Trimming

`trim p l` leaves out what satisfies `p` at both ends of `l`.  What it gives is `Trimmed`, and what
is trimmed it leaves alone.
-/

namespace Text

variable {α : Type*} {p : α → Bool} {l w : List α} {c : α}

/-- The list without the elements at its ends that satisfy `p`. -/
def trim (p : α → Bool) (l : List α) : List α := (l.dropWhile p).rdropWhile p

/-- Neither the first element nor the last one satisfies `p`. -/
structure Trimmed (p : α → Bool) (l : List α) : Prop where
  head : ∀ c ∈ l.head?, p c = false
  last : ∀ c ∈ l.getLast?, p c = false

theorem dropWhile_eq_self_iff_head : l.dropWhile p = l ↔ ∀ c ∈ l.head?, p c = false := by
  cases l with
  | nil => simp
  | cons a l =>
    rw [List.dropWhile_eq_self_iff]
    simp

theorem rdropWhile_eq_self_iff_last : l.rdropWhile p = l ↔ ∀ c ∈ l.getLast?, p c = false := by
  rw [List.rdropWhile_eq_self_iff]
  constructor
  · intro h c hc
    obtain ⟨hne, rfl⟩ := List.mem_getLast?_eq_getLast hc
    exact Bool.eq_false_iff.2 (h hne)
  · intro h hne
    exact Bool.eq_false_iff.1 (h _ (List.getLast?_eq_getLast_of_ne_nil hne))

theorem Trimmed.of_forall (h : ∀ c ∈ l, p c = false) : Trimmed p l where
  head c hc := h c (List.mem_of_head? hc)
  last c hc := h c (List.mem_of_getLast? hc)

theorem trim_eq_self (h : Trimmed p l) : trim p l = l := by
  rw [trim, dropWhile_eq_self_iff_head.2 h.head, rdropWhile_eq_self_iff_last.2 h.last]

theorem trimmed_trim (p : α → Bool) (l : List α) : Trimmed p (trim p l) where
  head c hc := by
    obtain ⟨t, ht⟩ := List.rdropWhile_prefix p (l.dropWhile p)
    have hhead : (trim p l).head? = some c := hc
    apply dropWhile_eq_self_iff_head.1 (List.dropWhile_idempotent p l) c
    rw [← ht, List.head?_append, ← trim, hhead]
    rfl
  last := rdropWhile_eq_self_iff_last.1 (List.rdropWhile_idempotent p _)

theorem trim_subset : trim p l ⊆ l :=
  List.Subset.trans (List.rdropWhile_prefix p _).subset (List.dropWhile_suffix p).subset

theorem length_trim_le : (trim p l).length ≤ l.length :=
  (List.rdropWhile_prefix p _).length_le.trans (List.dropWhile_suffix p).length_le

/-! ## Trimming what is put together -/

theorem trim_append_of_forall (h : ∀ c ∈ w, p c) : trim p (w ++ l) = trim p l := by
  rw [trim, List.dropWhile_append_of_pos h, trim]

theorem rdropWhile_append_of_forall (h : ∀ c ∈ w, p c) :
    (l ++ w).rdropWhile p = l.rdropWhile p := by
  rw [List.rdropWhile, List.reverse_append, List.dropWhile_append_of_pos (by simpa using h),
    List.rdropWhile]

/-- The end is trimmed up to what does not end with `p`. -/
theorem rdropWhile_append (h : ∀ c ∈ w.getLast?, p c = false) :
    (w ++ l).rdropWhile p = w ++ l.rdropWhile p := by
  have hw : w.reverse.dropWhile p = w.reverse := by
    rwa [dropWhile_eq_self_iff_head, List.head?_reverse]
  rw [List.rdropWhile, List.reverse_append, List.dropWhile_append]
  split
  next hnil =>
    have hrest : l.rdropWhile p = [] := List.reverse_eq_nil_iff.2 (List.isEmpty_iff.1 hnil)
    rw [hw, hrest, List.reverse_reverse, List.append_nil]
  next => rw [List.reverse_append, List.reverse_reverse, List.rdropWhile]

theorem trim_append (hne : w ≠ []) (hw : Trimmed p w) : trim p (w ++ l) = w ++ l.rdropWhile p := by
  have hhead : (w ++ l).dropWhile p = w ++ l := by
    rw [dropWhile_eq_self_iff_head]
    cases w with
    | nil => exact absurd rfl hne
    | cons c w => exact hw.head
  rw [trim, hhead, rdropWhile_append hw.last]

theorem trim_rdropWhile : trim p (l.rdropWhile p) = trim p l := by
  have hend : ∀ c ∈ l.rtakeWhile p, p c := fun c hc => List.mem_rtakeWhile_imp hc
  conv_rhs => rw [← List.rdropWhile_append_rtakeWhile (p := p) (l := l)]
  rw [trim, trim, List.dropWhile_append]
  split
  next hnil =>
    rw [List.isEmpty_iff.1 hnil, List.dropWhile_eq_nil_iff.2 hend]
  next => rw [rdropWhile_append_of_forall hend]

end Text
