import Mathlib.Algebra.Ring.Nat
import Mathlib.Data.List.Forall2
import Kalinka.Common.CharLength

/-!
# Tables of the command line

`cli::Table` pads the cells of a column to its greatest size in bytes, and counts the code points of
a cell for that.

`format_aligned` says that each column begins at the same code point in every row.
-/

namespace Kalinka.CliTable

open Utf8

/-- A cell, by its bytes. -/
abbrev Cell := List UInt8

structure Table where
  mStorage : List (List Cell) := []
  mAlignment : List ℕ := []
  deriving DecidableEq

/-! ## The code -/

/-- The loop of `addRow`. -/
def updateAlignment : List Cell → List ℕ → List ℕ
  | item :: row, align :: alignment => max item.length align :: updateAlignment row alignment
  | _, alignment => alignment

namespace Table

/-- `none` when the assertion throws. -/
def addRow (t : Table) (row : List Cell) : Option Table :=
  match t.mStorage with
  | [] => some ⟨[row], updateAlignment row (List.replicate row.length 0)⟩
  | first :: _ =>
    if first.length = row.length then
      some ⟨t.mStorage ++ [row], updateAlignment row t.mAlignment⟩
    else none

end Table

/-- `Utils::align`; `none` when `charLength` throws. -/
def align (initial : Cell) (size : ℕ) : Option Cell :=
  match charLength initial with
  | .returns count => some (initial ++ List.replicate (size - count) 32)
  | _ => none

/-- The loop of `formatRow`, from the right. -/
def alignItems : List Cell → List ℕ → List UInt8 → Option (List UInt8)
  | item :: items, size :: alignment, result =>
    (align item size).bind fun cell => alignItems items alignment (cell ++ 32 :: result)
  | _, _, result => some result

/-- What `formatRow` makes of a row; the last item is not aligned. -/
def rowText (row : List Cell) (alignment : List ℕ) : Option (List UInt8) :=
  match row.reverse, alignment.reverse with
  | last :: items, _ :: alignment => alignItems items alignment (last ++ [10])
  | _, _ => none

namespace Table

/-- `none` when the assertion throws, or the row is empty. -/
def formatRow (t : Table) (initial : List UInt8) (row : List Cell) : Option (List UInt8) :=
  if row.length = t.mAlignment.length then (rowText row t.mAlignment).map (initial ++ ·) else none

def formatOutput (t : Table) : Option (List UInt8) := t.mStorage.foldlM t.formatRow []

end Table

/-! ## What is asked for -/

/-- The cells of a row stand where the columns begin, whole and one behind the other, and the line
ends behind the last one. -/
structure Aligned (offset : ℕ → ℕ) (row : List (List Char)) (line : List Char) : Prop where
  starts : ∀ j (h : j < row.length), row[j] <+: line.drop (offset j)
  order : ∀ j (h : j + 1 < row.length), offset j + row[j].length < offset (j + 1)
  last : ∀ c ∈ row.getLast?, line.drop (offset (row.length - 1)) = c ++ ['\n']

/-- The bytes of a row. -/
def encodeRow (row : List (List Char)) : List Cell := row.map encode

/-- The line of a row, by its code points. -/
def line : List (List Char) → List ℕ → List Char
  | [], _ => []
  | [c], _ => c ++ ['\n']
  | c :: row, width :: widths =>
    c ++ List.replicate (width - c.length) ' ' ++ ' ' :: line row widths
  | c :: row, [] => c ++ ' ' :: line row []

/-- Where a column begins. -/
def offsetOf (widths : List ℕ) (j : ℕ) : ℕ := ((widths.take j).map (· + 1)).sum

/-- No item of a row is wider than its column. -/
def Covers (row : List Cell) (widths : List ℕ) : Prop :=
  List.Forall₂ (fun item width => item.length ≤ width) row widths

variable {c : List Char} {cs cs' : List Char} {row row' : List (List Char)} {items : List Cell}
variable {width size : ℕ} {widths alignment : List ℕ} {text result : List UInt8} {t : Table}

/-! ## Encodings -/

theorem encode_append : encode (cs ++ cs') = encode cs ++ encode cs' := List.flatMap_append

theorem length_le_encode (cs : List Char) : cs.length ≤ (encode cs).length := by
  induction cs with
  | nil => exact Nat.le_refl _
  | cons c cs ih =>
    have hpos := List.length_pos_iff.2 (String.utf8EncodeChar_ne_nil (c := c))
    rw [encode_cons, List.length_append, List.length_cons]
    omega

theorem encode_replicate_space (k : ℕ) : encode (List.replicate k ' ') = List.replicate k 32 := by
  induction k with
  | zero => rfl
  | succ k ih =>
    rw [List.replicate_succ, encode_cons, ih, List.replicate_succ]
    rfl

/-- A valid cell gets as many spaces as code points are missing. -/
theorem align_encode (h : '\x00' ∉ c) (size : ℕ) :
    align (encode c) size = some (encode (c ++ List.replicate (size - c.length) ' ')) := by
  have htake : c.takeWhile (· ≠ '\x00') = c :=
    List.takeWhile_eq_self_iff.2 fun a ha => decide_eq_true fun heq => h (heq ▸ ha)
  rw [align, charLength_encode, htake, encode_append, encode_replicate_space]

/-! ## A row -/

/-- The loop comes to the first item last. -/
theorem alignItems_concat {item : Cell} (h : items.length = alignment.length) :
    alignItems (items ++ [item]) (alignment ++ [size]) result =
      (alignItems items alignment result).bind fun r =>
        (align item size).map fun cell => cell ++ 32 :: r := by
  induction items generalizing alignment result with
  | nil =>
    obtain rfl := List.length_eq_zero_iff.1 h.symm
    simp only [List.nil_append, alignItems, Option.bind_some]
    cases align item size <;> rfl
  | cons first items ih =>
    cases alignment with
    | nil => cases h
    | cons a alignment =>
      simp only [List.cons_append, alignItems]
      cases align first a with
      | none => rfl
      | some cell => exact ih (Nat.succ.inj h)

theorem rowText_cons {item : Cell} (hne : items ≠ []) (h : items.length = alignment.length) :
    rowText (item :: items) (size :: alignment) =
      (rowText items alignment).bind fun r =>
        (align item size).map fun cell => cell ++ 32 :: r := by
  obtain ⟨last, ritems, hritems⟩ := List.exists_cons_of_ne_nil (mt List.reverse_eq_nil_iff.1 hne)
  have hlen : items.reverse.length = alignment.reverse.length := by
    rw [List.length_reverse, List.length_reverse, h]
  rw [hritems] at hlen
  cases hral : alignment.reverse with
  | nil =>
    rw [hral] at hlen
    cases hlen
  | cons a ral =>
    rw [hral] at hlen
    simp only [rowText, List.reverse_cons, hritems, hral, List.cons_append]
    exact alignItems_concat (Nat.succ.inj hlen)

theorem rowText_encodeRow (hne : row ≠ []) (hlen : row.length = widths.length)
    (hnul : ∀ c ∈ row, '\x00' ∉ c) :
    rowText (encodeRow row) widths = some (encode (line row widths)) := by
  induction row generalizing widths with
  | nil => exact absurd rfl hne
  | cons c row ih =>
    cases widths with
    | nil => cases hlen
    | cons width widths =>
      cases row with
      | nil =>
        obtain rfl := List.length_eq_zero_iff.1 (Nat.succ.inj hlen).symm
        rw [line, encode_append]
        rfl
      | cons c' row =>
        obtain ⟨hc, hrow⟩ := List.forall_mem_cons.1 hnul
        have hlen' : (c' :: row).length = widths.length := Nat.succ.inj hlen
        have hrest := ih (List.cons_ne_nil c' row) hlen' hrow
        rw [encodeRow, List.map_cons, rowText_cons (by simp) (by simpa using hlen'),
          ← encodeRow, hrest, Option.bind_some, align_encode hc, Option.map_some, line]
        · simp only [encode_append, encode_cons]
          rfl
        · simp

/-! ## Columns -/

@[simp] theorem offsetOf_zero : offsetOf widths 0 = 0 := by simp [offsetOf]

@[simp] theorem offsetOf_succ (j : ℕ) :
    offsetOf (width :: widths) (j + 1) = width + 1 + offsetOf widths j := by
  simp [offsetOf]

/-- What is behind the first column. -/
theorem line_cons (hne : row ≠ []) : line (c :: row) (width :: widths) =
    (c ++ List.replicate (width - c.length) ' ' ++ [' ']) ++ line row widths := by
  cases row with
  | nil => exact absurd rfl hne
  | cons c' row =>
    rw [line, List.append_assoc _ [' '], List.singleton_append]
    simp

theorem drop_line_cons (hne : row ≠ []) (hle : c.length ≤ width) (k : ℕ) :
    (line (c :: row) (width :: widths)).drop (width + 1 + k) = (line row widths).drop k := by
  have hlen : (c ++ List.replicate (width - c.length) ' ' ++ [' ']).length = width + 1 := by
    simp only [List.length_append, List.length_replicate, List.length_singleton]
    omega
  rw [line_cons hne, ← hlen, List.drop_append, List.drop_of_length_le (by omega),
    Nat.add_sub_cancel_left, List.nil_append]

theorem aligned_line (hne : row ≠ []) (hcov : Covers (encodeRow row) widths) :
    Aligned (offsetOf widths) row (line row widths) := by
  induction row generalizing widths with
  | nil => exact absurd rfl hne
  | cons c row ih =>
    cases hcov with
    | @cons _ width _ widths hc hrest =>
      have hle : c.length ≤ width := (length_le_encode c).trans hc
      by_cases hnil : row = []
      · subst hnil
        refine ⟨fun j hj => ?_, fun j hj => ?_, fun a ha => ?_⟩
        · obtain rfl : j = 0 := by simpa using hj
          exact List.prefix_append c ['\n']
        · simp at hj
        · cases ha
          rfl
      · obtain ⟨hstarts, horder, hlast⟩ := ih hnil hrest
        refine ⟨fun j hj => ?_, fun j hj => ?_, fun a ha => ?_⟩
        · cases j with
          | zero =>
            rw [line_cons hnil, offsetOf_zero, List.drop_zero, List.append_assoc, List.append_assoc]
            exact List.prefix_append c _
          | succ j =>
            rw [offsetOf_succ, drop_line_cons hnil hle]
            exact hstarts j (Nat.lt_of_succ_lt_succ hj)
        · cases j with
          | zero =>
            rw [offsetOf_succ, offsetOf_zero, offsetOf_zero, List.getElem_cons_zero]
            omega
          | succ j =>
            have := horder j (Nat.lt_of_succ_lt_succ hj)
            rw [offsetOf_succ, offsetOf_succ, List.getElem_cons_succ]
            omega
        · obtain ⟨k, hk⟩ : ∃ k, row.length = k + 1 :=
            Nat.exists_eq_succ_of_ne_zero (mt List.length_eq_zero_iff.1 hnil)
          rw [List.getLast?_cons_of_ne_nil hnil] at ha
          have hrest := hlast a ha
          rw [hk, Nat.add_sub_cancel] at hrest
          rw [List.length_cons, Nat.add_sub_cancel, hk, offsetOf_succ, drop_line_cons hnil hle,
            hrest]

/-! ## Tables -/

theorem covers_updateAlignment (h : items.length = alignment.length) :
    Covers items (updateAlignment items alignment) := by
  induction items generalizing alignment with
  | nil =>
    obtain rfl := List.length_eq_zero_iff.1 h.symm
    exact .nil
  | cons item items ih =>
    cases alignment with
    | nil => cases h
    | cons a alignment => exact .cons (Nat.le_max_left _ _) (ih (Nat.succ.inj h))

/-- The columns only become wider. -/
theorem Covers.updateAlignment {items' : List Cell} (h : Covers items alignment) :
    Covers items (updateAlignment items' alignment) := by
  induction h generalizing items' with
  | nil => cases items' <;> exact .nil
  | @cons item width items widths hle _ ih =>
    cases items' with
    | nil => exact .cons hle ‹_›
    | cons item' items' => exact .cons (hle.trans (Nat.le_max_right _ _)) ih

/-- Rows of one length can be added, and the columns are wide enough for all of them. -/
theorem exists_addRows {n : ℕ} {rows : List (List Cell)} (hlen : ∀ row ∈ rows, row.length = n)
    (ht : ∀ row ∈ t.mStorage, row.length = n ∧ Covers row t.mAlignment) :
    ∃ t', rows.foldlM Table.addRow t = some t' ∧ t'.mStorage = t.mStorage ++ rows ∧
      ∀ row ∈ t'.mStorage, row.length = n ∧ Covers row t'.mAlignment := by
  induction rows generalizing t with
  | nil => exact ⟨t, rfl, (List.append_nil _).symm, ht⟩
  | cons row rows ih =>
    obtain ⟨hrow, hrows⟩ := List.forall_mem_cons.1 hlen
    obtain ⟨t₁, hadd, hstorage, ht₁⟩ : ∃ t₁, t.addRow row = some t₁ ∧
        t₁.mStorage = t.mStorage ++ [row] ∧
        ∀ row' ∈ t₁.mStorage, row'.length = n ∧ Covers row' t₁.mAlignment := by
      unfold Table.addRow
      split
      next hnil =>
        refine ⟨_, rfl, by rw [hnil, List.nil_append], List.forall_mem_singleton.2 ⟨hrow, ?_⟩⟩
        exact covers_updateAlignment (by rw [List.length_replicate])
      next first rest hcons =>
        obtain ⟨hfirst, hcov⟩ := ht first (hcons ▸ List.mem_cons_self)
        rw [if_pos (hfirst.trans hrow.symm)]
        refine ⟨_, rfl, rfl, fun row' hrow' => ?_⟩
        obtain hold | hnew := List.mem_append.1 hrow'
        · exact ⟨(ht row' hold).1, (ht row' hold).2.updateAlignment⟩
        · obtain rfl := List.mem_singleton.1 hnew
          refine ⟨hrow, covers_updateAlignment ?_⟩
          rw [hrow, ← hfirst, hcov.length_eq]
    obtain ⟨t', hfold, hstorage', ht'⟩ := ih hrows ht₁
    refine ⟨t', ?_, ?_, ht'⟩
    · rw [List.foldlM_cons, hadd]
      exact hfold
    · rw [hstorage', hstorage, List.append_assoc, List.singleton_append]

theorem foldlM_formatRow {rows : List (List (List Char))} (hne : ∀ row ∈ rows, row ≠ [])
    (hlen : ∀ row ∈ rows, row.length = t.mAlignment.length)
    (hnul : ∀ row ∈ rows, ∀ c ∈ row, '\x00' ∉ c) (initial : List Char) :
    (rows.map encodeRow).foldlM t.formatRow (encode initial) =
      some (encode (initial ++ (rows.map fun row => line row t.mAlignment).flatten)) := by
  induction rows generalizing initial with
  | nil => simp
  | cons row rows ih =>
    obtain ⟨hne, hnes⟩ := List.forall_mem_cons.1 hne
    obtain ⟨hlen, hlens⟩ := List.forall_mem_cons.1 hlen
    obtain ⟨hnul, hnuls⟩ := List.forall_mem_cons.1 hnul
    have hrow : t.formatRow (encode initial) (encodeRow row) =
        some (encode (initial ++ line row t.mAlignment)) := by
      rw [Table.formatRow, if_pos (by rw [encodeRow, List.length_map, hlen]),
        rowText_encodeRow hne hlen hnul, Option.map_some, encode_append]
    rw [List.map_cons, List.foldlM_cons, hrow]
    refine (ih hnes hlens hnuls _).trans ?_
    rw [List.map_cons, List.flatten_cons, List.append_assoc]

/-- In every row of a table each column begins at the same code point, and the cells are whole and
in order. -/
theorem format_aligned {n : ℕ} {rows : List (List (List Char))} (hn : 0 < n)
    (hlen : ∀ row ∈ rows, row.length = n) (hnul : ∀ row ∈ rows, ∀ c ∈ row, '\x00' ∉ c) :
    ∃ t, (rows.map encodeRow).foldlM Table.addRow {} = some t ∧ ∃ offset lines,
      t.formatOutput = some (encode lines.flatten) ∧
        List.Forall₂ (Aligned offset) rows lines := by
  obtain ⟨t, hfold, hstorage, ht⟩ := @exists_addRows {} n (rows.map encodeRow)
    (List.forall_mem_map.2 fun row hrow => (List.length_map _).trans (hlen row hrow)) nofun
  have hcov : ∀ row ∈ rows, Covers (encodeRow row) t.mAlignment := fun row hrow =>
    (ht _ (hstorage ▸ List.mem_append_right _ (List.mem_map_of_mem hrow))).2
  have hne : ∀ row ∈ rows, row ≠ [] := fun row hrow =>
    List.length_pos_iff.1 (hn.trans_eq (hlen row hrow).symm)
  have hwidths : ∀ row ∈ rows, row.length = t.mAlignment.length := fun row hrow =>
    (List.length_map _).symm.trans (hcov row hrow).length_eq
  refine ⟨t, hfold, offsetOf t.mAlignment, rows.map fun row => line row t.mAlignment, ?_, ?_⟩
  · rw [Table.formatOutput, hstorage]
    exact foldlM_formatRow hne hwidths hnul []
  · rw [List.forall₂_map_right_iff, List.forall₂_same]
    exact fun row hrow => aligned_line (hne row hrow) (hcov row hrow)

/-- A column with a cell of two bytes for one code point, and of no code points. -/
theorem format_aligned_umlaut :
    ∃ t, ([["ü".toList, "x".toList], ["".toList, "yz".toList]].map encodeRow).foldlM
        Table.addRow {} = some t ∧ ∃ offset lines,
      t.formatOutput = some (encode lines.flatten) ∧
        List.Forall₂ (Aligned offset) [["ü".toList, "x".toList], ["".toList, "yz".toList]] lines :=
  format_aligned (by decide : 0 < 2) (by decide) (by decide)

end Kalinka.CliTable
