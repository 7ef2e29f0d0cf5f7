import Mathlib.Data.Int.Notation
import Mathlib.Data.List.Basic
import Mathlib.Data.List.TakeWhile
import Mathlib.Data.Nat.Notation

/-!
# The length of a UTF-8 string

`Utils::charLength` counts the code points of a string by the bytes that they begin with.

`charLength_spec` says that it reads nothing behind the terminator, whatever the bytes are, and that
its count is right for every valid string.
-/

namespace Kalinka.Utf8

/-- The end of a call; `overread` is a read behind the terminator. -/
inductive CharLength
  | returns (count : ℕ)
  | throws
  | overread
  deriving DecidableEq, Repr

/-! ## The code -/

/-- A `char`, which is signed. -/
def signed (b : UInt8) : ℤ := (b.toNat : ℤ).bmod 256

/-- `text.c_str()` -/
def cStr (text : List UInt8) : List UInt8 := text ++ [0]

/-- `while (s[i] > 0) i++`; `none` when it reads behind the end. -/
def skipAscii (s : List UInt8) (i : ℕ) : Option ℕ :=
  match _h : s[i]? with
  | none => none
  | some c => if 0 < signed c then skipAscii s (i + 1) else some i
termination_by s.length - i
decreasing_by
  have := (List.getElem?_eq_some_iff.1 _h).1
  omega

/-- What the second loop adds to `i`. -/
def width (c : UInt8) : ℕ :=
  if 0 < signed c then 1
  else if 0xF0 &&& c = 0xE0 then 3
  else if 0xF0 &&& c = 0xF0 then 4
  else 2

theorem width_pos (c : UInt8) : 0 < width c := by
  unfold width
  split
  · decide
  · split
    · decide
    · split <;> decide

/-- The second loop. -/
def countChars (text : List UInt8) (i count : ℕ) : CharLength :=
  match _h : (cStr text)[i]? with
  | none => .overread
  | some c =>
    if c = 0 then .returns count
    else if text.length < i + width c then .throws
    else countChars text (i + width c) (count + 1)
termination_by text.length - i
decreasing_by
  have := width_pos c
  omega

/-- `Utils::charLength` -/
def charLength (text : List UInt8) : CharLength :=
  match skipAscii (cStr text) 0 with
  | none => .overread
  | some i =>
    match (cStr text)[i]? with
    | none => .overread
    | some c => if signed c ≤ -65 then .throws else countChars text i i

variable {text pre rest : List UInt8} {i j count : ℕ} {b : UInt8} {c : Char} {cs : List Char}

/-! ## Any bytes -/

theorem cStr_getElem?_eq_none_iff : (cStr text)[i]? = none ↔ text.length < i := by
  rw [List.getElem?_eq_none_iff, cStr, List.length_append, List.length_singleton]
  omega

/-- A byte that is not the terminator stands before that. -/
theorem lt_length_of_ne_zero (h : (cStr text)[i]? = some b) (hb : b ≠ 0) : i < text.length := by
  obtain ⟨hlt, hget⟩ := List.getElem?_eq_some_iff.1 h
  rw [cStr, List.length_append, List.length_singleton] at hlt
  refine Nat.lt_of_le_of_ne (Nat.le_of_lt_succ hlt) fun heq => hb ?_
  subst heq
  rw [← hget]
  exact List.getElem_concat_length rfl _

theorem ne_zero_of_signed_pos (h : 0 < signed b) : b ≠ 0 := by
  rintro rfl
  exact absurd h (by decide)

theorem countChars_ne_overread (h : i ≤ text.length) : countChars text i count ≠ .overread := by
  induction hk : text.length - i using Nat.strongRecOn generalizing i count with
  | _ k ih =>
    rw [countChars]
    split
    next hnone => exact absurd (cStr_getElem?_eq_none_iff.1 hnone) (Nat.not_lt.2 h)
    next c hc =>
      split
      · nofun
      · split
        · nofun
        · have := width_pos c
          exact ih (text.length - (i + width c)) (by omega) (by omega) rfl

/-- The first loop ends at the terminator, or before. -/
theorem skipAscii_eq_some (h : i ≤ text.length) :
    ∃ j, skipAscii (cStr text) i = some j ∧ i ≤ j ∧ j ≤ text.length := by
  induction hk : text.length - i using Nat.strongRecOn generalizing i with
  | _ k ih =>
    rw [skipAscii]
    split
    next hnone => exact absurd (cStr_getElem?_eq_none_iff.1 hnone) (Nat.not_lt.2 h)
    next c hc =>
      split
      next hpos =>
        have hlt := lt_length_of_ne_zero hc (ne_zero_of_signed_pos hpos)
        obtain ⟨j, hj, hle, hlen⟩ := ih (text.length - (i + 1)) (by omega) hlt rfl
        exact ⟨j, hj, by omega, hlen⟩
      · exact ⟨i, rfl, Nat.le_refl i, h⟩

theorem charLength_ne_overread (text : List UInt8) : charLength text ≠ .overread := by
  obtain ⟨j, hj, -, hlen⟩ := skipAscii_eq_some (Nat.zero_le text.length)
  rw [charLength, hj]
  dsimp only
  split
  next hnone => exact absurd (cStr_getElem?_eq_none_iff.1 hnone) (Nat.not_lt.2 hlen)
  next =>
    split
    · nofun
    · exact countChars_ne_overread hlen

theorem skipAscii_eq {s : List UInt8} (h : s[i]? = some b) :
    skipAscii s i = if 0 < signed b then skipAscii s (i + 1) else some i := by
  rw [skipAscii]
  split
  next hnone => cases h.symm.trans hnone
  next hc =>
    cases h.symm.trans hc
    rfl

theorem skipAscii_of_pos {s : List UInt8} (h : s[i]? = some b) (hb : 0 < signed b) :
    skipAscii s i = skipAscii s (i + 1) := by
  rw [skipAscii_eq h, if_pos hb]

theorem skipAscii_of_not_pos {s : List UInt8} (h : s[i]? = some b) (hb : ¬0 < signed b) :
    skipAscii s i = some i := by
  rw [skipAscii_eq h, if_neg hb]

theorem countChars_eq (h : (cStr text)[i]? = some b) : countChars text i count =
    if b = 0 then .returns count
    else if text.length < i + width b then .throws
    else countChars text (i + width b) (count + 1) := by
  rw [countChars]
  split
  next hnone => cases h.symm.trans hnone
  next hc =>
    cases h.symm.trans hc
    rfl

theorem countChars_of_zero (h : (cStr text)[i]? = some 0) :
    countChars text i count = .returns count := by
  rw [countChars_eq h, if_pos rfl]

theorem countChars_of_getElem (h : (cStr text)[i]? = some b) (hb : b ≠ 0)
    (hle : i + width b ≤ text.length) :
    countChars text i count = countChars text (i + width b) (count + 1) := by
  rw [countChars_eq h, if_neg hb, if_neg (Nat.not_lt.2 hle)]

/-- What the first loop does, the second one would do as well. -/
theorem countChars_skipAscii (h : skipAscii (cStr text) i = some j) :
    countChars text i count = countChars text j (count + (j - i)) := by
  induction hk : text.length - i using Nat.strongRecOn generalizing i count with
  | _ k ih =>
    rw [skipAscii] at h
    split at h
    · cases h
    next c hc =>
      split at h
      next hpos =>
        have hb := ne_zero_of_signed_pos hpos
        have hlt := lt_length_of_ne_zero hc hb
        have hwidth : width c = 1 := if_pos hpos
        obtain ⟨j', hj', hle, -⟩ := skipAscii_eq_some (Nat.succ_le_of_lt hlt)
        obtain rfl : j' = j := Option.some.inj (hj'.symm.trans h)
        have hsum : count + 1 + (j' - (i + 1)) = count + (j' - i) := by omega
        rw [countChars_of_getElem hc hb (by omega), hwidth,
          ih (text.length - (i + 1)) (by omega) h rfl, hsum]
      · cases h
        rw [Nat.sub_self, Nat.add_zero]

/-! ## Valid strings -/

/-- The bytes of some code points. -/
def encode (cs : List Char) : List UInt8 := cs.flatMap String.utf8EncodeChar

@[simp] theorem encode_nil : encode [] = [] := rfl

@[simp] theorem encode_cons : encode (c :: cs) = String.utf8EncodeChar c ++ encode cs :=
  List.flatMap_cons

theorem signed_ofNat {n : ℕ} (h : n < 256) :
    signed (UInt8.ofNat n) = if n < 128 then (n : ℤ) else n - 256 := by
  have hn : (UInt8.ofNat n).toNat = n := by
    rw [UInt8.toNat_ofNat']
    omega
  unfold signed Int.bmod
  simp only [hn]
  omega

theorem width_ofNat : ∀ n : Fin 256, width (UInt8.ofNat n.val) =
    if 0 < n.val ∧ n.val < 0x80 then 1 else if n.val < 0xE0 then 2 else if n.val < 0xF0 then 3
    else 4 := by
  decide +kernel

/-- Where the encoding of a code point may begin. -/
theorem leading_byte {n : ℕ} (hn : n < 256) (hpos : 0 < n) (h : n < 0x80 ∨ 0xC0 ≤ n) :
    UInt8.ofNat n ≠ 0 ∧ -65 < signed (UInt8.ofNat n) ∧ (0 < signed (UInt8.ofNat n) ↔ n < 0x80) ∧
      width (UInt8.ofNat n) =
        if n < 0x80 then 1 else if n < 0xE0 then 2 else if n < 0xF0 then 3 else 4 := by
  have hwidth := width_ofNat ⟨n, hn⟩
  simp only [hpos, true_and] at hwidth
  refine ⟨fun hzero => ?_, ?_, ?_, hwidth⟩
  · have := congrArg UInt8.toNat hzero
    rw [UInt8.toNat_ofNat', Nat.mod_eq_of_lt hn, UInt8.toNat_zero] at this
    omega
  · rw [signed_ofNat hn]
    split <;> omega
  · rw [signed_ofNat hn]
    split <;> omega

/-- The first byte of an encoding says how long it is. -/
theorem exists_leading_byte (hc : c ≠ '\x00') : ∃ b l, String.utf8EncodeChar c = b :: l ∧ b ≠ 0 ∧
    -65 < signed b ∧ (0 < signed b → l = []) ∧ width b = l.length + 1 := by
  have hpos : 0 < c.val.toNat :=
    Nat.pos_of_ne_zero fun hzero => hc (Char.ext (UInt32.toNat_inj.1 hzero))
  unfold String.utf8EncodeChar
  dsimp only
  split
  next hle =>
    obtain ⟨hne, hsigned, hascii, hwidth⟩ := leading_byte (by omega) hpos (.inl (by omega))
    rw [if_pos (by omega)] at hwidth
    exact ⟨_, [], rfl, hne, hsigned, fun _ => rfl, hwidth⟩
  split
  next hle =>
    obtain ⟨hne, hsigned, hascii, hwidth⟩ :=
      @leading_byte (c.val.toNat / 64 % 0x20 + 0xc0) (by omega) (by omega) (.inr (by omega))
    rw [if_neg (by omega), if_pos (by omega)] at hwidth
    exact ⟨_, _, rfl, hne, hsigned, fun h => absurd (hascii.1 h) (by omega), hwidth⟩
  split
  next hle =>
    obtain ⟨hne, hsigned, hascii, hwidth⟩ :=
      @leading_byte (c.val.toNat / 4096 % 0x10 + 0xe0) (by omega) (by omega) (.inr (by omega))
    rw [if_neg (by omega), if_neg (by omega), if_pos (by omega)] at hwidth
    exact ⟨_, _, rfl, hne, hsigned, fun h => absurd (hascii.1 h) (by omega), hwidth⟩
  next hgt =>
    obtain ⟨hne, hsigned, hascii, hwidth⟩ :=
      @leading_byte (c.val.toNat / 262144 % 0x08 + 0xf0) (by omega) (by omega) (.inr (by omega))
    rw [if_neg (by omega), if_neg (by omega), if_neg (by omega)] at hwidth
    exact ⟨_, _, rfl, hne, hsigned, fun h => absurd (hascii.1 h) (by omega), hwidth⟩

theorem cStr_getElem?_append (pre l : List UInt8) :
    (cStr (pre ++ l))[pre.length]? = (cStr l)[0]? := by
  rw [cStr, List.append_assoc, List.getElem?_append_right (Nat.le_refl _), Nat.sub_self, cStr]

/-- The second loop counts up to a NUL. -/
theorem countChars_encode (pre : List UInt8) (cs : List Char) :
    countChars (pre ++ encode cs) pre.length count =
      .returns (count + (cs.takeWhile (· ≠ '\x00')).length) := by
  induction cs generalizing pre count with
  | nil =>
    have hget : (cStr (pre ++ encode []))[pre.length]? = some 0 := cStr_getElem?_append pre []
    exact countChars_of_zero hget
  | cons c cs ih =>
    by_cases hc : c = '\x00'
    · subst hc
      have hget : (cStr (pre ++ encode ('\x00' :: cs)))[pre.length]? = some 0 :=
        cStr_getElem?_append pre _
      exact countChars_of_zero hget
    · obtain ⟨b, l, henc, hb, -, -, hwidth⟩ := exists_leading_byte hc
      have hget : (cStr (pre ++ encode (c :: cs)))[pre.length]? = some b := by
        rw [cStr_getElem?_append, encode_cons, henc]
        rfl
      have hsplit : pre ++ encode (c :: cs) = (pre ++ b :: l) ++ encode cs := by
        rw [encode_cons, henc, List.append_assoc]
      have hlen : pre.length + width b = (pre ++ b :: l).length := by
        rw [hwidth, List.length_append, List.length_cons]
      have hle : pre.length + width b ≤ (pre ++ encode (c :: cs)).length := by
        rw [hlen, hsplit]
        exact (List.sublist_append_left _ _).length_le
      rw [countChars_of_getElem hget hb hle, hlen, hsplit, ih,
        List.takeWhile_cons_of_pos (by simpa using hc), List.length_cons, Nat.add_assoc,
        Nat.add_comm 1]

/-- The first loop does not end at a byte that no code point begins with. -/
theorem skipAscii_encode (pre : List UInt8) (cs : List Char) : ∃ j b,
    skipAscii (cStr (pre ++ encode cs)) pre.length = some j ∧
      (cStr (pre ++ encode cs))[j]? = some b ∧ -65 < signed b := by
  induction cs generalizing pre with
  | nil =>
    have hget : (cStr (pre ++ encode []))[pre.length]? = some 0 := cStr_getElem?_append pre []
    exact ⟨pre.length, 0, skipAscii_of_not_pos hget (by decide), hget, by decide⟩
  | cons c cs ih =>
    by_cases hc : c = '\x00'
    · subst hc
      have hget : (cStr (pre ++ encode ('\x00' :: cs)))[pre.length]? = some 0 :=
        cStr_getElem?_append pre _
      exact ⟨pre.length, 0, skipAscii_of_not_pos hget (by decide), hget, by decide⟩
    · obtain ⟨b, l, henc, hb, hsigned, hascii, -⟩ := exists_leading_byte hc
      have hget : (cStr (pre ++ encode (c :: cs)))[pre.length]? = some b := by
        rw [cStr_getElem?_append, encode_cons, henc]
        rfl
      by_cases hpos : 0 < signed b
      · have hsplit : pre ++ encode (c :: cs) = (pre ++ [b]) ++ encode cs := by
          rw [encode_cons, henc, hascii hpos, List.append_assoc]
        obtain ⟨j, b', hj, hb'⟩ := ih (pre ++ [b])
        rw [List.length_append, List.length_singleton, ← hsplit] at hj
        rw [← hsplit] at hb'
        exact ⟨j, b', (skipAscii_of_pos hget hpos).trans hj, hb'⟩
      · exact ⟨pre.length, b, skipAscii_of_not_pos hget hpos, hget, hsigned⟩

theorem charLength_encode (cs : List Char) :
    charLength (encode cs) = .returns (cs.takeWhile (· ≠ '\x00')).length := by
  obtain ⟨j, b, hj, hb, hsigned⟩ := skipAscii_encode [] cs
  rw [List.nil_append] at hj hb
  have hj' : skipAscii (cStr (encode cs)) 0 = some j := hj
  have hloop : countChars (encode cs) 0 0 = countChars (encode cs) j (0 + (j - 0)) :=
    countChars_skipAscii hj'
  have hcount : countChars (encode cs) 0 0 = .returns (0 + _) := countChars_encode [] cs
  rw [Nat.zero_add, Nat.sub_zero] at hloop
  rw [Nat.zero_add] at hcount
  simp only [charLength, hj', hb, if_neg (Int.not_le.2 hsigned), ← hloop, hcount]

/-- No byte behind the terminator is read, and the code points of a valid string, up to a NUL, are
counted. -/
theorem charLength_spec : (∀ text, charLength text ≠ .overread) ∧
    ∀ cs, charLength (encode cs) = .returns (cs.takeWhile (· ≠ '\x00')).length :=
  ⟨charLength_ne_overread, charLength_encode⟩

end Kalinka.Utf8
