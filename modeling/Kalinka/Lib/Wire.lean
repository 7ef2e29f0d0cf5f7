import Mathlib.Algebra.Group.Nat.Defs
import Mathlib.Data.List.Basic
import Mathlib.Data.Nat.Notation

/-!
# Numbers and strings on the wire

* `le k n` is the number `n` in `k` bytes, the lowest first, and `ofLE` reads such bytes back;
  `be` and `ofBE` have the highest byte first.
* `terminate z ss` are the strings `ss`, each with the terminator `z` behind it.  `readUntil` reads
  one string and stops behind its terminator.  What is `Terminated`, empty or with the terminator at
  the end, can be read to its end.
-/

namespace Wire

/-! ## Little-endian numbers -/

/-- The lowest `k` bytes of a number, the lowest first. -/
def le : ℕ → ℕ → List UInt8
  | 0, _ => []
  | k + 1, n => UInt8.ofNat n :: le k (n / 256)

def ofLE : List UInt8 → ℕ
  | [] => 0
  | b :: bs => b.toNat + 256 * ofLE bs

@[simp] theorem length_le (k n : ℕ) : (le k n).length = k := by
  induction k generalizing n with
  | zero => rfl
  | succ k ih => rw [le, List.length_cons, ih]

theorem ofLE_le {k n : ℕ} (h : n < 256 ^ k) : ofLE (le k n) = n := by
  induction k generalizing n with
  | zero =>
    have hn : n = 0 := by simpa using h
    rw [hn]
    rfl
  | succ k ih =>
    have hdiv : n / 256 < 256 ^ k := by
      rw [Nat.div_lt_iff_lt_mul (by decide), ← Nat.pow_succ]
      exact h
    rw [le, ofLE, ih hdiv, UInt8.toNat_ofNat']
    omega

theorem ofLE_lt (bs : List UInt8) : ofLE bs < 256 ^ bs.length := by
  induction bs with
  | nil => exact Nat.one_pos
  | cons b bs ih =>
    have hb := b.toNat_lt
    rw [ofLE, List.length_cons, Nat.pow_succ]
    omega

theorem le_ofLE (bs : List UInt8) : le bs.length (ofLE bs) = bs := by
  induction bs with
  | nil => rfl
  | cons b bs ih =>
    have hb := b.toNat_lt
    have hmod : UInt8.ofNat (b.toNat + 256 * ofLE bs) = b := by
      apply UInt8.toNat_inj.1
      rw [UInt8.toNat_ofNat']
      omega
    have hdiv : (b.toNat + 256 * ofLE bs) / 256 = ofLE bs := by omega
    rw [List.length_cons, ofLE, le, hmod, hdiv, ih]

/-! ## Big-endian numbers -/

/-- The lowest `k` bytes of a number, the highest first. -/
def be (k n : ℕ) : List UInt8 := (le k n).reverse

def ofBE (bs : List UInt8) : ℕ := bs.foldl (fun n b => 256 * n + b.toNat) 0

@[simp] theorem length_be (k n : ℕ) : (be k n).length = k :=
  List.length_reverse.trans (length_le k n)

theorem ofBE_reverse (bs : List UInt8) : ofBE bs.reverse = ofLE bs := by
  rw [ofBE, List.foldl_reverse]
  induction bs with
  | nil => rfl
  | cons b bs ih => rw [List.foldr_cons, ih, ofLE, Nat.add_comm]

theorem ofBE_be {k n : ℕ} (h : n < 256 ^ k) : ofBE (be k n) = n :=
  (ofBE_reverse _).trans (ofLE_le h)

/-! ## Terminated strings -/

variable {α : Type*} {z : α} {s l rest : List α} {ss ss' : List (List α)}

/-- The strings one after another, with `z` behind each. -/
def terminate (z : α) (ss : List (List α)) : List α := ss.flatMap (· ++ [z])

@[simp] theorem terminate_nil : terminate z [] = [] := rfl

@[simp] theorem terminate_cons : terminate z (s :: ss) = s ++ z :: terminate z ss := by
  simp [terminate]

@[simp] theorem terminate_append : terminate z (ss ++ ss') = terminate z ss ++ terminate z ss' :=
  List.flatMap_append

/-- Empty, or with the terminator at the end. -/
def Terminated (z : α) (l : List α) : Prop := l = [] ∨ l.getLast? = some z

theorem terminated_append_cons : Terminated z (s ++ z :: rest) ↔ Terminated z rest := by
  rw [Terminated, or_iff_right (by simp), List.getLast?_append]
  cases rest with
  | nil => exact iff_of_true rfl (.inl rfl)
  | cons b bs =>
    rw [Terminated, or_iff_right (List.cons_ne_nil b bs), List.getLast?_cons_cons,
      Option.or_of_isSome (by simp)]

theorem terminated_terminate_append : Terminated z (terminate z ss ++ l) ↔ Terminated z l := by
  induction ss with
  | nil => rfl
  | cons s ss ih => rw [terminate_cons, List.append_assoc, List.cons_append, terminated_append_cons,
      ih]

variable [DecidableEq α]

/-- The string up to the first `z`, and what is behind that; `none` if there is no `z`. -/
def readUntil (z : α) : List α → Option (List α × List α)
  | [] => none
  | b :: bs => if b = z then some ([], bs) else (readUntil z bs).map fun p => (b :: p.1, p.2)

theorem readUntil_append (h : z ∉ s) : readUntil z (s ++ z :: rest) = some (s, rest) := by
  induction s with
  | nil => exact if_pos rfl
  | cons b s ih =>
    obtain ⟨hb, hs⟩ := not_or.1 (List.mem_cons.not.1 h)
    rw [List.cons_append, readUntil, if_neg (Ne.symm hb), ih hs]
    rfl

theorem readUntil_eq_some_iff : readUntil z l = some (s, rest) ↔ z ∉ s ∧ l = s ++ z :: rest := by
  refine ⟨fun h => ?_, fun h => h.2 ▸ readUntil_append h.1⟩
  induction l generalizing s with
  | nil => cases h
  | cons b bs ih =>
    rw [readUntil] at h
    split at h
    next hb =>
      cases h
      exact ⟨List.not_mem_nil, hb ▸ rfl⟩
    next hb =>
      obtain ⟨⟨s', rest'⟩, hread, heq⟩ := Option.map_eq_some_iff.1 h
      cases heq
      obtain ⟨hs, rfl⟩ := ih hread
      exact ⟨List.mem_cons.not.2 (not_or.2 ⟨Ne.symm hb, hs⟩), rfl⟩

theorem readUntil_eq_none_iff : readUntil z l = none ↔ z ∉ l := by
  induction l with
  | nil => exact iff_of_true rfl List.not_mem_nil
  | cons b bs ih =>
    rw [readUntil, List.mem_cons, not_or]
    split
    next hb => exact iff_of_false nofun fun h => h.1 hb.symm
    next hb => rw [Option.map_eq_none_iff, ih, and_iff_right (Ne.symm hb)]

/-- The first string of what is terminated can be read. -/
theorem Terminated.exists_readUntil (h : Terminated z l) (hl : l ≠ []) :
    ∃ s rest, readUntil z l = some (s, rest) ∧ Terminated z rest := by
  cases hread : readUntil z l with
  | none =>
    have hmem : z ∈ l := List.mem_of_getLast? (h.resolve_left hl)
    exact absurd hmem (readUntil_eq_none_iff.1 hread)
  | some p =>
    obtain ⟨-, rfl⟩ := readUntil_eq_some_iff.1 hread
    exact ⟨p.1, p.2, rfl, terminated_append_cons.1 h⟩

end Wire
