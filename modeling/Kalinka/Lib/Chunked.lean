import Mathlib.Algebra.Group.Nat.Defs
import Mathlib.Data.List.Basic
import Mathlib.Data.Nat.Notation

/-!
# Chunked transfer coding

A chunk is its size in hexadecimal digits, a line end, the data, and another line end; a chunk of
size 0 is the last one.  `Chunked.decode` reads a body byte by byte: chunk extensions and the
trailer behind the last chunk are not read.

* `run_chunk`: a chunk of data is decoded to the data.
* `prefix_out_run`: what has been decoded is never taken back.
* `run_of_closed`: nothing is decoded behind the last chunk.
-/

namespace Chunked

def cr : UInt8 := 13

def lf : UInt8 := 10

def crlf : List UInt8 := [cr, lf]

/-! ## Hexadecimal digits -/

/-- The number in lower-case hexadecimal digits. -/
def hex (n : ℕ) : List UInt8 := (Nat.toDigits 16 n).map fun c => UInt8.ofNat c.toNat

/-- The value of a hexadecimal digit, in either case. -/
def hexVal (b : UInt8) : Option ℕ :=
  if 48 ≤ b ∧ b ≤ 57 then some (b.toNat - 48)
  else if 97 ≤ b ∧ b ≤ 102 then some (b.toNat - 87)
  else if 65 ≤ b ∧ b ≤ 70 then some (b.toNat - 55)
  else none

theorem hexVal_digitChar {d : ℕ} (h : d < 16) :
    hexVal (UInt8.ofNat d.digitChar.toNat) = some d := by
  have hall : ∀ d : Fin 16, hexVal (UInt8.ofNat d.val.digitChar.toNat) = some d.val := by decide
  exact hall ⟨d, h⟩

theorem hex_of_lt {n : ℕ} (h : n < 16) : hex n = [UInt8.ofNat n.digitChar.toNat] := by
  rw [hex, Nat.toDigits_of_lt_base h, List.map_singleton]

theorem hex_of_le {n : ℕ} (h : 16 ≤ n) :
    hex n = hex (n / 16) ++ [UInt8.ofNat (n % 16).digitChar.toNat] := by
  rw [hex, Nat.toDigits_of_base_le (by decide) h, List.map_append, List.map_singleton, hex]

/-- A number below `16 ^ k` has at most `k` digits. -/
theorem length_hex_le {n k : ℕ} (hk : 0 < k) (h : n < 16 ^ k) : (hex n).length ≤ k := by
  rw [hex, List.length_map]
  exact (Nat.length_toDigits_le_iff (by decide) hk).2 h

/-! ## Coding -/

def chunk (data : List UInt8) : List UInt8 := hex data.length ++ crlf ++ data ++ crlf

/-- Where the decoder is. -/
inductive State
  /-- in the digits of a size, with what they have been so far -/
  | size (n : Option ℕ)
  /-- before the `lf` behind a size -/
  | sizeEnd (n : ℕ)
  /-- in the data of a chunk, with one more byte than `n` to come -/
  | data (n : ℕ)
  /-- before the `cr` behind the data -/
  | dataCR
  | dataLF
  /-- behind the line of the last chunk -/
  | closed
  /-- the body is not well formed -/
  | broken
  deriving DecidableEq, Repr

/-- Behind the line with a size. -/
def State.sized : ℕ → State
  | 0 => .closed
  | n + 1 => .data n

structure Decoder where
  out : List UInt8 := []
  state : State := .size none
  deriving DecidableEq, Repr

namespace Decoder

def step (d : Decoder) (b : UInt8) : Decoder :=
  match d.state with
  | .size n =>
    match hexVal b, n with
    | some v, n => { d with state := .size (some (n.getD 0 * 16 + v)) }
    | none, some n => { d with state := if b = cr then .sizeEnd n else .broken }
    | none, none => { d with state := .broken }
  | .sizeEnd n => { d with state := if b = lf then .sized n else .broken }
  | .data 0 => { out := d.out ++ [b], state := .dataCR }
  | .data (n + 1) => { out := d.out ++ [b], state := .data n }
  | .dataCR => { d with state := if b = cr then .dataLF else .broken }
  | .dataLF => { d with state := if b = lf then .size none else .broken }
  | .closed => d
  | .broken => d

def run (d : Decoder) (bytes : List UInt8) : Decoder := bytes.foldl step d

end Decoder

open Decoder

/-- What is read of a body. -/
def decode (body : List UInt8) : Decoder := run {} body

variable {d : Decoder} {out a b data : List UInt8} {n : ℕ}

@[simp] theorem run_append : d.run (a ++ b) = (d.run a).run b := List.foldl_append

theorem decode_append : decode (a ++ b) = (decode a).run b := run_append

/-! ## One byte more -/

/-- A byte is decoded to itself or to nothing. -/
theorem out_step (d : Decoder) (b : UInt8) :
    (d.step b).out = d.out ∨ (d.step b).out = d.out ++ [b] := by
  unfold step
  split
  · split <;> exact .inl rfl
  · exact .inl rfl
  · exact .inr rfl
  · exact .inr rfl
  all_goals exact .inl rfl

theorem prefix_out_run (d : Decoder) (a : List UInt8) : d.out <+: (d.run a).out := by
  induction a generalizing d with
  | nil => exact List.prefix_refl _
  | cons b a ih =>
    refine List.IsPrefix.trans ?_ (ih (d.step b))
    obtain h | h := out_step d b
    · exact ⟨[], by rw [h, List.append_nil]⟩
    · exact ⟨[b], h.symm⟩

theorem length_out_run_le (d : Decoder) (a : List UInt8) :
    (d.run a).out.length ≤ d.out.length + a.length := by
  induction a generalizing d with
  | nil => exact Nat.le_refl _
  | cons b a ih =>
    have hrun := ih (d.step b)
    have hstep : (d.step b).out.length ≤ d.out.length + 1 := by
      obtain h | h := out_step d b <;> simp [h]
    rw [List.length_cons]
    exact Nat.le_trans hrun (by omega)

/-- Nothing is read behind the last chunk. -/
theorem run_of_closed (h : d.state = .closed) : d.run a = d := by
  induction a with
  | nil => rfl
  | cons b a ih =>
    have hstep : d.step b = d := by rw [step, h]
    rw [run, List.foldl_cons, hstep]
    exact ih

/-- What a part of a body is decoded to is part of what the body is decoded to, and a last chunk in
it is the last chunk of the body. -/
theorem run_of_prefix (h : a <+: b) :
    (d.run a).out <+: (d.run b).out ∧
      ((d.run b).state ≠ .closed → (d.run a).state ≠ .closed) := by
  obtain ⟨c, rfl⟩ := h
  rw [run_append]
  refine ⟨prefix_out_run _ _, fun hb ha => hb ?_⟩
  rw [run_of_closed ha]
  exact ha

/-! ## One chunk more -/

theorem run_hex (out : List UInt8) (n : ℕ) :
    run ⟨out, .size none⟩ (hex n) = ⟨out, .size (some n)⟩ := by
  induction n using Nat.strongRecOn with
  | ind n ih =>
    by_cases h : n < 16
    · simp [hex_of_lt h, run, step, hexVal_digitChar h]
    · have hdigit : n % 16 < 16 := Nat.mod_lt n (by decide)
      rw [hex_of_le (by omega), run_append, ih (n / 16) (by omega)]
      simp only [run, List.foldl_cons, List.foldl_nil, step, hexVal_digitChar hdigit,
        Option.getD_some]
      rw [show n / 16 * 16 + n % 16 = n by omega]

theorem run_size (out : List UInt8) (n : ℕ) :
    run ⟨out, .size none⟩ (hex n ++ crlf) = ⟨out, .sized n⟩ := by
  rw [run_append, run_hex]
  rfl

/-- The data of a chunk, and the line end behind it. -/
theorem run_data_crlf (h : data.length = n + 1) :
    run ⟨out, .data n⟩ (data ++ crlf) = ⟨out ++ data, .size none⟩ := by
  induction data generalizing out n with
  | nil => cases h
  | cons b data ih =>
    cases n with
    | zero =>
      obtain rfl := List.eq_nil_of_length_eq_zero (Nat.succ.inj h)
      rfl
    | succ n =>
      calc run ⟨out, .data (n + 1)⟩ (b :: data ++ crlf)
        _ = run ⟨out ++ [b], .data n⟩ (data ++ crlf) := rfl
        _ = ⟨out ++ [b] ++ data, .size none⟩ := ih (Nat.succ.inj h)
        _ = ⟨out ++ b :: data, .size none⟩ := by
          rw [List.append_assoc, List.singleton_append]

/-- A chunk is decoded to its data, and the next chunk may follow. -/
theorem run_chunk (hdata : data ≠ []) :
    run ⟨out, .size none⟩ (chunk data) = ⟨out ++ data, .size none⟩ := by
  obtain ⟨n, hn⟩ := Nat.exists_eq_succ_of_ne_zero (mt List.eq_nil_of_length_eq_zero hdata)
  have hsplit : chunk data = (hex (n + 1) ++ crlf) ++ (data ++ crlf) := by
    rw [chunk, hn, Nat.succ_eq_add_one]
    simp only [List.append_assoc]
  rw [hsplit, run_append, run_size]
  exact run_data_crlf hn

/-- Some data in a few chunks. -/
example : decode (chunk [1, 2] ++ chunk [3]) = { out := [1, 2, 3] } := by decide

end Chunked
