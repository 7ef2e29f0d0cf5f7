import Mathlib.Data.Int.Notation
import Mathlib.Data.List.Basic

/-!
# Decimal numbers

`Denotes ds n` says that a text is a decimal numeral of `n`: digits, at least one, with a sign in
front or without.  `parse` reads it.
-/

namespace Decimal

/-- It looks at the characters of the list only, not at all that there are. -/
instance decidableForallMem {p : Char → Prop} [DecidablePred p] (l : List Char) :
    Decidable (∀ c ∈ l, p c) := List.decidableBAll p l

/-- Digits, at least one. -/
def IsDigits (ds : List Char) : Prop := ds ≠ [] ∧ ∀ c ∈ ds, c.isDigit

instance (ds : List Char) : Decidable (IsDigits ds) := inferInstanceAs (Decidable (_ ∧ _))

def value (ds : List Char) : ℕ := Nat.ofDigitChars 10 ds 0

/-- The text is a numeral of `n`. -/
inductive Denotes : List Char → ℤ → Prop
  | unsigned {ds : List Char} (h : IsDigits ds) : Denotes ds (value ds)
  | plus {ds : List Char} (h : IsDigits ds) : Denotes ('+' :: ds) (value ds)
  | minus {ds : List Char} (h : IsDigits ds) : Denotes ('-' :: ds) (-value ds)

/-- The value of digits, `none` if there is anything else or nothing. -/
def digits? (ds : List Char) : Option ℤ := if IsDigits ds then some (value ds) else none

def parse : List Char → Option ℤ
  | '+' :: ds => digits? ds
  | '-' :: ds => (digits? ds).map (- ·)
  | ds => digits? ds

variable {ds : List Char} {c : Char} {m n : ℤ}

theorem not_isDigits_cons (h : c.isDigit = false) : ¬ IsDigits (c :: ds) := fun hd => by
  simpa [h] using hd.2 c List.mem_cons_self

theorem digits?_eq_some_iff : digits? ds = some n ↔ IsDigits ds ∧ n = value ds := by
  unfold digits?
  split
  next h => exact ⟨fun he => ⟨h, (Option.some.inj he).symm⟩, fun he => congrArg some he.2.symm⟩
  next h => exact iff_of_false nofun fun he => h he.1

theorem Denotes.parse_eq (h : Denotes ds n) : parse ds = some n := by
  cases h with
  | unsigned h =>
    unfold parse
    split
    · exact absurd h (not_isDigits_cons rfl)
    · exact absurd h (not_isDigits_cons rfl)
    · exact if_pos h
  | plus h => exact if_pos h
  | minus h => exact congrArg (Option.map (- ·)) (if_pos h)

theorem parse_eq_some_iff : parse ds = some n ↔ Denotes ds n := by
  refine ⟨fun h => ?_, Denotes.parse_eq⟩
  unfold parse at h
  split at h
  · obtain ⟨hd, rfl⟩ := digits?_eq_some_iff.1 h
    exact .plus hd
  · obtain ⟨m, hm, rfl⟩ := Option.map_eq_some_iff.1 h
    obtain ⟨hd, rfl⟩ := digits?_eq_some_iff.1 hm
    exact .minus hd
  · obtain ⟨hd, rfl⟩ := digits?_eq_some_iff.1 h
    exact .unsigned hd

theorem Denotes.unique (h : Denotes ds m) (h' : Denotes ds n) : m = n :=
  Option.some.inj (h.parse_eq.symm.trans h'.parse_eq)

end Decimal
