import Mathlib.Data.List.Basic
import Mathlib.Data.Nat.Notation

/-!
# Buffers of a fixed size

`Block n` is a buffer of `n` bytes.  `memcpy` copies a part of one buffer into another; it fails
when it would read or write outside them.
-/

/-- A buffer of `n` bytes. -/
@[ext] structure Block (n : ℕ) where
  bytes : List UInt8
  length_bytes : bytes.length = n
  deriving DecidableEq, Repr

namespace Block

variable {m n : ℕ}

/-- All bytes are `b`. -/
def fill (n : ℕ) (b : UInt8) : Block n := ⟨List.replicate n b, List.length_replicate⟩

/-- The first bytes of a string that is long enough, or padded with `b` to the size. -/
def ofList (n : ℕ) (bs : List UInt8) (b : UInt8) : Block n where
  bytes := (bs ++ List.replicate n b).take n
  length_bytes := by simp

/-- `len` bytes of `src` from `off` on are copied to `dst` from `pos` on. -/
def memcpy (dst : Block n) (pos : ℕ) (src : Block m) (off len : ℕ) : Option (Block n) :=
  if h : off + len ≤ m ∧ pos + len ≤ n then
    some
      { bytes := dst.bytes.take pos ++ (src.bytes.drop off).take len ++ dst.bytes.drop (pos + len)
        length_bytes := by simp [dst.length_bytes, src.length_bytes]; omega }
  else none

variable {dst d : Block n} {src : Block m} {pos off len : ℕ}

theorem ofList_bytes {bs : List UInt8} {b : UInt8} (h : bs.length ≤ n) :
    (ofList n bs b).bytes = bs ++ List.replicate (n - bs.length) b := by
  change (bs ++ List.replicate n b).take n = _
  rw [List.take_append, List.take_of_length_le h, List.take_replicate,
    Nat.min_eq_left (Nat.sub_le _ _)]

theorem memcpy_isSome_iff :
    (dst.memcpy pos src off len).isSome ↔ off + len ≤ m ∧ pos + len ≤ n := by
  unfold memcpy
  split <;> simp_all

theorem exists_memcpy (dst : Block n) (src : Block m) (hm : off + len ≤ m) (hn : pos + len ≤ n) :
    ∃ d, dst.memcpy pos src off len = some d :=
  Option.isSome_iff_exists.1 (memcpy_isSome_iff.2 ⟨hm, hn⟩)

theorem le_of_memcpy (h : dst.memcpy pos src off len = some d) :
    off + len ≤ m ∧ pos + len ≤ n :=
  memcpy_isSome_iff.1 (Option.isSome_iff_exists.2 ⟨d, h⟩)

/-- What is in front of the end of the copied part. -/
theorem take_memcpy (h : dst.memcpy pos src off len = some d) :
    d.bytes.take (pos + len) = dst.bytes.take pos ++ (src.bytes.drop off).take len := by
  obtain ⟨hm, hn⟩ := le_of_memcpy h
  unfold memcpy at h
  rw [dif_pos ⟨hm, hn⟩, Option.some.injEq] at h
  have hlen : (dst.bytes.take pos ++ (src.bytes.drop off).take len).length = pos + len := by
    simp [dst.length_bytes, src.length_bytes]
    omega
  rw [← h]
  exact List.take_left' hlen

end Block
