import Mathlib.Data.BitVec
import Mathlib.Data.List.Basic
import Mathlib.Data.Nat.Notation
import Mathlib.Logic.Function.Iterate

/-!
# Cyclic redundancy checks

A register of `w` bits holds the remainder of the bytes that were fed to it, the highest bit of a
byte first.  `shift` is one step of the division by the polynomial, and `crc` feeds a string of
bytes.

* `byte_eq_table`: eight steps of the division are one look-up in a table of 256 remainders.
* `crc_left_injective` and `crc_right_injective`: if the polynomial has a constant term, then two
  registers never become equal, and neither do two strings that are no longer than the register.
* `crc_ne_of_burst`: so every change of a string that is no longer than the register is detected.
-/

namespace Crc

variable {w : ℕ} (poly : BitVec w)

/-- One step of the division: the remainder moves up, and when a bit falls out, the polynomial is
subtracted. -/
def shift (c : BitVec w) : BitVec w := (c <<< 1) ^^^ (if c.msb then poly else 0#w)

/-- A byte in the highest bits of the register. -/
def high (b : UInt8) : BitVec w := b.toBitVec.setWidth w <<< (w - 8)

/-- The remainder after one more byte. -/
def byte (c : BitVec w) (b : UInt8) : BitVec w := (shift poly)^[8] (c ^^^ high b)

/-- The remainder after a string of bytes. -/
def crc (c : BitVec w) (bs : List UInt8) : BitVec w := bs.foldl (byte poly) c

/-- The remainders of the bytes. -/
def table (b : UInt8) : BitVec w := (shift poly)^[8] (high b)

/-- The first bytes of a string in the highest bits of the register. -/
def word : List UInt8 → BitVec w
  | [] => 0#w
  | b :: bs => high b ^^^ (word bs >>> 8)

/-! ## Steps of the division -/

theorem shift_xor (a b : BitVec w) : shift poly (a ^^^ b) = shift poly a ^^^ shift poly b := by
  have hpoly (p q : BitVec w) : p ^^^ q = p ^^^ poly ^^^ (q ^^^ poly) := by
    rw [BitVec.xor_assoc p, BitVec.xor_comm q, ← BitVec.xor_assoc poly, BitVec.xor_self,
      BitVec.zero_xor]
  unfold shift
  rw [BitVec.msb_xor, BitVec.shiftLeft_xor_distrib]
  cases a.msb <;> cases b.msb
  · simp
  · simp [BitVec.xor_assoc]
  · simp only [Bool.true_xor, Bool.not_false, if_true, Bool.false_eq_true, if_false,
      BitVec.xor_zero]
    rw [BitVec.xor_assoc, BitVec.xor_comm (b <<< 1), ← BitVec.xor_assoc]
  · simpa using hpoly (a <<< 1) (b <<< 1)

@[simp] theorem shift_zero : shift poly 0#w = 0#w := by
  simp [shift]

theorem iterate_shift_xor (n : ℕ) (a b : BitVec w) :
    (shift poly)^[n] (a ^^^ b) = (shift poly)^[n] a ^^^ (shift poly)^[n] b := by
  induction n generalizing a b with
  | zero => rfl
  | succ n ih => rw [Function.iterate_succ_apply, shift_xor, ih]; rfl

/-- As long as no bit falls out, the steps only move the remainder up. -/
theorem iterate_shift_of_low {n : ℕ} {y : BitVec w} (hn : n ≤ w)
    (hy : ∀ i, w - n ≤ i → y.getLsbD i = false) : (shift poly)^[n] y = y <<< n := by
  induction n generalizing y with
  | zero => simp
  | succ n ih =>
    have hmsb : y.msb = false := by
      rw [BitVec.msb_eq_getLsbD_last]
      exact hy (w - 1) (by omega)
    have hshift : shift poly y = y <<< 1 := by simp [shift, hmsb]
    have hlow : ∀ i, w - n ≤ i → (y <<< 1).getLsbD i = false := by
      intro i hi
      rw [BitVec.getLsbD_shiftLeft]
      rw [hy (i - 1) (by omega), Bool.and_false]
    rw [Function.iterate_succ_apply, hshift, ih (by omega) hlow, ← BitVec.shiftLeft_add,
      Nat.add_comm]

variable {poly}

theorem eq_zero_of_shift_eq_zero (hpoly : poly.getLsbD 0 = true) {c : BitVec w}
    (hc : shift poly c = 0#w) : c = 0#w := by
  have hbit (i : ℕ) : (shift poly c).getLsbD i = false := by rw [hc, BitVec.getLsbD_zero]
  have hmsb : c.msb = false := by
    -- the constant term is the lowest bit after the subtraction
    cases hc : c.msb with
    | false => rfl
    | true =>
      have h0 := hbit 0
      rw [shift, hc, if_pos rfl, BitVec.getLsbD_xor, hpoly, BitVec.getLsbD_shiftLeft] at h0
      simp at h0
  apply BitVec.eq_of_getLsbD_eq
  intro i hi
  rw [BitVec.getLsbD_zero]
  by_cases hlast : i + 1 < w
  · have hnext := hbit (i + 1)
    rw [shift, hmsb, BitVec.getLsbD_xor, BitVec.getLsbD_shiftLeft] at hnext
    simpa only [hlast, decide_true, Nat.add_sub_cancel, Bool.true_and, Bool.false_eq_true, if_false,
      BitVec.getLsbD_zero, Bool.xor_false, Nat.not_lt.2 (Nat.le_add_left 1 i), decide_false,
      Bool.not_false] using hnext
  · rwa [BitVec.msb_eq_getLsbD_last, show w - 1 = i by omega] at hmsb

theorem shift_injective (hpoly : poly.getLsbD 0 = true) : Function.Injective (shift poly) := by
  intro a b hab
  have hxor : shift poly (a ^^^ b) = 0#w := by rw [shift_xor, hab, BitVec.xor_self]
  exact BitVec.xor_eq_zero_iff.1 (eq_zero_of_shift_eq_zero hpoly hxor)

/-! ## Bytes -/

theorem getLsbD_high (b : UInt8) (i : ℕ) :
    (high b : BitVec w).getLsbD i =
      (decide (i < w) && decide (w - 8 ≤ i) && b.toBitVec.getLsbD (i - (w - 8))) := by
  rw [high, BitVec.getLsbD_shiftLeft, BitVec.getLsbD_setWidth]
  by_cases hi : i < w
  · by_cases h8 : w - 8 ≤ i
    · simp [hi, h8, Nat.not_lt.2 h8, show i - (w - 8) < w by omega]
    · simp [hi, h8, Nat.lt_of_not_le h8]
  · simp [hi]

variable (poly)

/-- **Eight steps of the division are a look-up** of the byte that falls out. -/
theorem byte_eq_table (hw : 8 ≤ w) (c : BitVec w) (b : UInt8) :
    byte poly c b = table poly (UInt8.ofBitVec (c.extractLsb' (w - 8) 8) ^^^ b) ^^^ (c <<< 8) := by
  have hsplit : c ^^^ high b =
      high (UInt8.ofBitVec (c.extractLsb' (w - 8) 8) ^^^ b) ^^^
        (c &&& (BitVec.allOnes w >>> 8)) := by
    apply BitVec.eq_of_getLsbD_eq
    intro i hi
    simp only [BitVec.getLsbD_xor, getLsbD_high, BitVec.getLsbD_and, BitVec.getLsbD_ushiftRight,
      BitVec.getLsbD_allOnes, UInt8.toBitVec_xor, BitVec.getLsbD_extractLsb', hi, decide_true,
      Bool.true_and]
    by_cases h8 : w - 8 ≤ i
    · simp [h8, show ¬ 8 + i < w by omega, show i - (w - 8) < 8 by omega,
        show w - 8 + (i - (w - 8)) = i by omega]
    · simp [h8, show 8 + i < w by omega]
  have hlow : ∀ i, w - 8 ≤ i → (c &&& (BitVec.allOnes w >>> 8)).getLsbD i = false := by
    intro i hi
    simp [show ¬ 8 + i < w by omega]
  have hkeep : (c &&& (BitVec.allOnes w >>> 8)) <<< 8 = c <<< 8 := by
    apply BitVec.eq_of_getLsbD_eq
    intro i hi
    by_cases h8 : i < 8
    · simp [hi, h8]
    · simp [hi, h8, show 8 + (i - 8) < w by omega]
  rw [byte, hsplit, iterate_shift_xor, iterate_shift_of_low poly hw hlow, hkeep, table]

@[simp] theorem crc_nil (c : BitVec w) : crc poly c [] = c := rfl

@[simp] theorem crc_cons (c : BitVec w) (b : UInt8) (bs : List UInt8) :
    crc poly c (b :: bs) = crc poly (byte poly c b) bs := rfl

theorem crc_append (c : BitVec w) (xs ys : List UInt8) :
    crc poly c (xs ++ ys) = crc poly (crc poly c xs) ys := List.foldl_append

theorem getLsbD_word_of_lt {bs : List UInt8} {i : ℕ} (hi : i + 8 * bs.length < w) :
    (word bs : BitVec w).getLsbD i = false := by
  induction bs generalizing i with
  | nil => simp [word]
  | cons b bs ih =>
    rw [List.length_cons] at hi
    rw [word, BitVec.getLsbD_xor, getLsbD_high, BitVec.getLsbD_ushiftRight, ih (by omega)]
    simp [show ¬ w - 8 ≤ i by omega]

/-- A string that fits into the register is fed as one word. -/
theorem crc_eq_iterate_word (c : BitVec w) (bs : List UInt8) (hbs : 8 * bs.length ≤ w) :
    crc poly c bs = (shift poly)^[8 * bs.length] (c ^^^ word bs) := by
  induction bs generalizing c with
  | nil => simp [word]
  | cons b bs ih =>
    rw [List.length_cons] at hbs
    have hback : (word bs : BitVec w) >>> 8 <<< 8 = word bs := by
      apply BitVec.eq_of_getLsbD_eq
      intro i hi
      rw [BitVec.getLsbD_shiftLeft, BitVec.getLsbD_ushiftRight]
      by_cases h8 : i < 8
      · have hword : (word bs : BitVec w).getLsbD i = false := getLsbD_word_of_lt (by omega)
        simp [h8, hword]
      · simp [hi, h8, show 8 + (i - 8) = i by omega]
    have hlow : ∀ i, w - 8 ≤ i → ((word bs : BitVec w) >>> 8).getLsbD i = false := by
      intro i hi
      rw [BitVec.getLsbD_ushiftRight]
      exact BitVec.getLsbD_of_ge _ _ (by omega)
    have hword : (shift poly)^[8] (c ^^^ (high b ^^^ word bs >>> 8)) =
        byte poly c b ^^^ word bs := by
      rw [← BitVec.xor_assoc, iterate_shift_xor, iterate_shift_of_low poly (by omega) hlow, hback]
      rfl
    rw [crc_cons, ih _ (by omega), word, List.length_cons, Nat.mul_succ,
      Function.iterate_add_apply, hword]

/-! ## What a check detects -/

variable {poly}

theorem byte_left_injective (hpoly : poly.getLsbD 0 = true) (b : UInt8) :
    Function.Injective fun c => byte poly c b := fun _ _ h =>
  (BitVec.xor_left_inj (high b)).1 ((shift_injective hpoly).iterate 8 h)

theorem crc_left_injective (hpoly : poly.getLsbD 0 = true) (bs : List UInt8) :
    Function.Injective fun c => crc poly c bs := by
  induction bs with
  | nil => exact fun _ _ h => h
  | cons b bs ih => exact fun c d h => byte_left_injective hpoly b (ih h)

theorem word_injective {xs ys : List UInt8} (hlen : xs.length = ys.length)
    (hw : 8 * xs.length ≤ w) (h : (word xs : BitVec w) = word ys) : xs = ys := by
  induction xs generalizing ys with
  | nil => exact (List.length_eq_zero_iff.1 hlen.symm).symm
  | cons x xs ih =>
    cases ys with
    | nil => cases hlen
    | cons y ys =>
      rw [List.length_cons] at hw
      have hbit (i : ℕ) (hi : i < w) := congrArg (BitVec.getLsbD · i) h
      simp only [word, BitVec.getLsbD_xor, getLsbD_high, BitVec.getLsbD_ushiftRight] at hbit
      have hx : x = y := by
        -- the highest eight bits are those of the first byte
        apply UInt8.toBitVec_inj.1
        apply BitVec.eq_of_getLsbD_eq
        intro i hi
        have := hbit (w - 8 + i) (by omega)
        rw [BitVec.getLsbD_of_ge (word xs) _ (by omega),
          BitVec.getLsbD_of_ge (word ys) _ (by omega),
          show w - 8 + i - (w - 8) = i by omega] at this
        simpa [show w - 8 + i < w by omega] using this
      have hxs : (word xs : BitVec w) = word ys := by
        apply BitVec.eq_of_getLsbD_eq
        intro i hi
        by_cases h8 : i < 8
        · rw [getLsbD_word_of_lt (by omega), getLsbD_word_of_lt (by simp at hlen; omega)]
        · have := hbit (i - 8) (by omega)
          rwa [hx, Bool.xor_right_inj, show 8 + (i - 8) = i by omega] at this
      rw [hx, ih (by simpa using hlen) (by omega) hxs]

theorem crc_right_injective (hpoly : poly.getLsbD 0 = true) {xs ys : List UInt8}
    (hlen : xs.length = ys.length) (hw : 8 * xs.length ≤ w) {c : BitVec w}
    (h : crc poly c xs = crc poly c ys) : xs = ys := by
  rw [crc_eq_iterate_word poly c xs hw, crc_eq_iterate_word poly c ys (hlen ▸ hw), ← hlen] at h
  have hword := (shift_injective hpoly).iterate (8 * xs.length) h
  exact word_injective hlen hw ((BitVec.xor_right_inj c).1 hword)

/-- **A burst that is no longer than the register is detected**, wherever it is. -/
theorem crc_ne_of_burst (hpoly : poly.getLsbD 0 = true) {xs ys : List UInt8} (hne : xs ≠ ys)
    (hlen : xs.length = ys.length) (hw : 8 * xs.length ≤ w) (c : BitVec w)
    (front back : List UInt8) :
    crc poly c (front ++ xs ++ back) ≠ crc poly c (front ++ ys ++ back) := by
  intro h
  simp only [crc_append] at h
  exact hne (crc_right_injective hpoly hlen hw (crc_left_injective hpoly back h))

end Crc
