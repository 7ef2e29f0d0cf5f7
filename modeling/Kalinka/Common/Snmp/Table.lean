import Mathlib.Data.List.ReduceOption
import Mathlib.Tactic.ByContra
import Kalinka.Lib.Wire

/-!
# SNMP tables

The agent gets a table from the daemon as bytes: the number of columns as a `size_t`, then the cells
row by row, each with a NUL behind it.  The number of rows is not sent; the rows end with the
buffer.

`deserialize_serialize`: a table with columns, and with no NUL in a cell, comes back as it was.
`deserialize_robust_iff` says for every buffer whether the constructor stays in it and makes a table
of it that has this serialization.
-/

namespace Kalinka.Snmp

open Wire

/-- `StringWrapper`: `none` if `m_null` is set. -/
abbrev StringWrapper := Option (List UInt8)

/-- A row: the size of a vector is a `size_t`. -/
@[ext]
structure TableRow where
  cells : List StringWrapper
  size_lt : cells.length < UInt64.size
  deriving DecidableEq

/-- The cells that are not null. -/
def TableRow.strs (row : TableRow) : List (List UInt8) := row.cells.reduceOption

/-- No cell is null or has a NUL in it. -/
def TableRow.Clean (row : TableRow) : Prop := ∀ cell ∈ row.cells, ∃ str, cell = some str ∧ 0 ∉ str

namespace TableRow

variable {row : TableRow}

theorem clean_iff_strs :
    row.Clean ↔ row.cells = row.strs.map some ∧ ∀ str ∈ row.strs, 0 ∉ str := by
  rw [Clean, strs]
  induction row.cells with
  | nil => exact iff_of_true (by simp) ⟨rfl, by simp [List.reduceOption]⟩
  | cons cell cells ih =>
    rw [List.forall_mem_cons, ih]
    cases cell with
    | none =>
      refine iff_of_false (fun h => ?_) fun h => ?_
      · obtain ⟨⟨str, heq, -⟩, -⟩ := h
        cases heq
      · obtain ⟨str, -, heq⟩ := List.mem_map.1 (h.1 ▸ List.mem_cons_self)
        cases heq
    | some str =>
      rw [List.reduceOption_cons_of_some, List.map_cons, List.forall_mem_cons, List.cons_inj_right]
      constructor
      · rintro ⟨⟨_, hsome, hstr⟩, heq, hstrs⟩
        cases hsome
        exact ⟨heq, hstr, hstrs⟩
      · rintro ⟨heq, hstr, hstrs⟩
        exact ⟨⟨str, rfl, hstr⟩, heq, hstrs⟩

theorem Clean.none_not_mem (h : row.Clean) : none ∉ row.cells := by
  intro hmem
  obtain ⟨str, heq, -⟩ := h none hmem
  cases heq

end TableRow

/-- `Table`: `addRow` lets in rows of one size only. -/
@[ext]
structure Table where
  mData : List TableRow := []
  size_eq : ∀ row ∈ mData, ∀ row' ∈ mData, row.cells.length = row'.cells.length := by simp
  deriving DecidableEq

namespace Table

/-- `addRow`: `none` when `BOOST_ASSERT` throws, the size being another one. -/
def addRow (t : Table) (row : TableRow) : Option Table :=
  if h : ∀ row' ∈ t.mData, row'.cells.length = row.cells.length then
    some
      { mData := t.mData ++ [row]
        size_eq := by
          intro r hr r' hr'
          obtain hr | hr := List.mem_append.1 hr <;> obtain hr' | hr' := List.mem_append.1 hr'
          · exact t.size_eq r hr r' hr'
          · rw [List.mem_singleton.1 hr', h r hr]
          · rw [List.mem_singleton.1 hr, h r' hr']
          · rw [List.mem_singleton.1 hr, List.mem_singleton.1 hr'] }
  else none

/-! ## Serialization -/

/-- The inner loop of `serialize`: `toString` throws for a null. -/
def addCells (data : List UInt8) : List StringWrapper → Option (List UInt8)
  | [] => some data
  | none :: _ => none
  | some value :: cells => addCells (data ++ (value ++ [0])) cells

/-- The outer loop, with `*row_size` and what is behind it. -/
def addRows (rowSize : ℕ) (data : List UInt8) : List TableRow → Option (List UInt8)
  | [] => some (le 8 rowSize ++ data)
  | row :: rows =>
    let rowSize := if rowSize = 0 then row.cells.length else rowSize
    if rowSize = row.cells.length then (addCells data row.cells).bind (addRows rowSize · rows)
    else none

/-- `serialize`: `none` when it throws. -/
def serialize (t : Table) : Option (List UInt8) := addRows 0 [] t.mData

/-! ## Deserialization -/

/-- How the constructor ends: with a value, with an exception, or with a read behind the buffer. -/
inductive Outcome (α : Type)
  | ok (a : α)
  | throws
  | overread
  deriving DecidableEq, Repr

/-- The inner loop of the constructor: `n` cells from `p` on.  `strlen` stops at a NUL only. -/
def readCells : ℕ → List UInt8 → Outcome (List StringWrapper × List UInt8)
  | 0, p => .ok ([], p)
  | n + 1, p =>
    if p = [] then .throws
    else
      match readUntil 0 p with
      | none => .overread
      | some (value, p) =>
        match readCells n p with
        | .ok (cells, p) => .ok (some value :: cells, p)
        | .throws => .throws
        | .overread => .overread

variable {n : ℕ} {p p' data : List UInt8} {cells : List StringWrapper} {t t' : Table}

theorem readCells_succ_of_ok {value : List UInt8} (hne : p ≠ [])
    (hread : readUntil 0 p = some (value, p')) : readCells (n + 1) p =
      match readCells n p' with
      | .ok (cells, p'') => .ok (some value :: cells, p'')
      | .throws => .throws
      | .overread => .overread := by
  rw [readCells, if_neg hne, hread]

/-- The cells that have been read, and what is behind them. -/
theorem readCells_eq_ok_iff : readCells n p = .ok (cells, p') ↔
    ∃ strs : List (List UInt8), cells = strs.map some ∧ strs.length = n ∧
      (∀ str ∈ strs, 0 ∉ str) ∧ p = terminate 0 strs ++ p' := by
  induction n generalizing p cells with
  | zero =>
    rw [readCells]
    constructor
    · intro h
      cases h
      exact ⟨[], rfl, rfl, by simp, rfl⟩
    · rintro ⟨strs, rfl, hlen, -, rfl⟩
      rw [List.length_eq_zero_iff.1 hlen]
      rfl
  | succ n ih =>
    constructor
    · intro h
      rw [readCells] at h
      split at h
      · cases h
      · split at h
        · cases h
        next value rest hread =>
          split at h
          next cells' rest' hcells =>
            cases h
            obtain ⟨strs, rfl, hlen, hstrs, rfl⟩ := ih.1 hcells
            obtain ⟨hvalue, rfl⟩ := readUntil_eq_some_iff.1 hread
            refine ⟨value :: strs, rfl, by rw [List.length_cons, hlen], ?_, by simp⟩
            exact List.forall_mem_cons.2 ⟨hvalue, hstrs⟩
          · cases h
          · cases h
    · rintro ⟨strs, rfl, hlen, hstrs, rfl⟩
      cases strs with
      | nil => cases hlen
      | cons value strs =>
        obtain ⟨hvalue, hstrs⟩ := List.forall_mem_cons.1 hstrs
        have hread : readUntil 0 (terminate 0 (value :: strs) ++ p') =
            some (value, terminate 0 strs ++ p') := by
          rw [terminate_cons, List.append_assoc, List.cons_append]
          exact readUntil_append hvalue
        have hcells := ih.2 ⟨strs, rfl, Nat.succ.inj hlen, hstrs, rfl⟩
        rw [readCells_succ_of_ok (by simp) hread, hcells]
        rfl

theorem length_of_readCells (h : readCells n p = .ok (cells, p')) : cells.length = n := by
  obtain ⟨strs, rfl, hlen, -⟩ := readCells_eq_ok_iff.1 h
  rw [List.length_map, hlen]

theorem length_lt_of_readCells (hn : n ≠ 0) (h : readCells n p = .ok (cells, p')) :
    p'.length < p.length := by
  obtain ⟨strs, -, hlen, -, rfl⟩ := readCells_eq_ok_iff.1 h
  cases strs with
  | nil => exact absurd hlen.symm hn
  | cons str strs => simp; omega

/-- The outer loop of the constructor, with the table that has been made up to `p`; where it ends,
`p == end` holds. -/
def readRows (n : ℕ) (hn : n ≠ 0) (hlt : n < UInt64.size) (t : Table) (p : List UInt8) :
    Outcome Table :=
  if p = [] then .ok t
  else
    match h : readCells n p with
    | .ok (cells, p') =>
      match t.addRow ⟨cells, length_of_readCells h ▸ hlt⟩ with
      | some t' => readRows n hn hlt t' p'
      | none => .throws
    | .throws => .throws
    | .overread => .overread
termination_by p.length
decreasing_by exact length_lt_of_readCells hn h

/-- The number of columns in a buffer. -/
def rowSize (data : List UInt8) : ℕ := ofLE (data.take 8)

theorem rowSize_lt (data : List UInt8) : rowSize data < UInt64.size :=
  calc rowSize data < 256 ^ (data.take 8).length := ofLE_lt _
    _ ≤ 256 ^ 8 := Nat.pow_le_pow_right (by decide) (List.length_take_le 8 data)

/-- The constructor that does deserialization. -/
def deserialize (data : List UInt8) : Outcome Table :=
  if data.length < 8 then .throws
  else if hn : rowSize data ≠ 0 then readRows (rowSize data) hn (rowSize_lt data) {} (data.drop 8)
  else .ok {}

/-! ## What is written -/

variable {rows : List TableRow} {row : TableRow} {d : List UInt8} {k : ℕ}

theorem addCells_eq_some_iff :
    addCells d cells = some data ↔ none ∉ cells ∧ data = d ++ terminate 0 cells.reduceOption := by
  induction cells generalizing d with
  | nil => simp [addCells, List.reduceOption, eq_comm]
  | cons cell cells ih =>
    cases cell with
    | none => simp [addCells]
    | some value =>
      rw [addCells, ih, List.reduceOption_cons_of_some, terminate_cons]
      simp

theorem addRows_eq_some_iff (hrows : ∀ row ∈ rows, row.cells.length = n) (hk : k = 0 ∨ k = n) :
    addRows k d rows = some data ↔ (∀ row ∈ rows, none ∉ row.cells) ∧
      data = le 8 (if rows = [] then k else n) ++
        (d ++ terminate 0 (rows.flatMap TableRow.strs)) := by
  induction rows generalizing k d with
  | nil => simp [addRows, eq_comm]
  | cons row rows ih =>
    obtain ⟨hrow, hrows⟩ := List.forall_mem_cons.1 hrows
    have hsize : (if k = 0 then row.cells.length else k) = n := by
      split
      · exact hrow
      next hne => exact hk.resolve_left hne
    have hadd : addRows k d (row :: rows) = (addCells d row.cells).bind (addRows n · rows) := by
      simp only [addRows]
      rw [hsize, if_pos hrow.symm]
    simp only [hadd, Option.bind_eq_some_iff, addCells_eq_some_iff, ih hrows (.inr rfl),
      List.forall_mem_cons, List.flatMap_cons, terminate_append]
    constructor
    · rintro ⟨_, ⟨hcells, rfl⟩, hall, rfl⟩
      exact ⟨⟨hcells, hall⟩, by simp [TableRow.strs]⟩
    · rintro ⟨⟨hcells, hall⟩, rfl⟩
      exact ⟨_, ⟨hcells, rfl⟩, hall, by simp [TableRow.strs]⟩

/-- The number of columns, or 0 if there is no row. -/
def columns (t : Table) : ℕ := (t.mData.head?.map (·.cells.length)).getD 0

theorem length_eq_columns (hrow : row ∈ t.mData) : row.cells.length = t.columns := by
  obtain ⟨row', rows, h⟩ := List.exists_cons_of_ne_nil (List.ne_nil_of_mem hrow)
  have hmem : row' ∈ t.mData := h ▸ List.mem_cons_self
  rw [t.size_eq row hrow row' hmem, columns, h]
  rfl

theorem serialize_eq_some_iff : t.serialize = some data ↔ (∀ row ∈ t.mData, none ∉ row.cells) ∧
    data = le 8 t.columns ++ terminate 0 (t.mData.flatMap TableRow.strs) := by
  rw [serialize, addRows_eq_some_iff (fun _ => length_eq_columns) (.inl rfl), List.nil_append]
  split
  next h => rw [columns, h]; rfl
  next => rfl

/-! ## What is read -/

/-- The cells of a clean row are read as they have been written. -/
theorem readCells_strs (h : row.Clean) (hlen : row.cells.length = n) :
    readCells n (terminate 0 row.strs ++ p) = .ok (row.cells, p) := by
  obtain ⟨heq, hstrs⟩ := TableRow.clean_iff_strs.1 h
  refine readCells_eq_ok_iff.2 ⟨row.strs, heq, ?_, hstrs, rfl⟩
  rw [← hlen, heq, List.length_map]

theorem clean_of_readCells (hlt : cells.length < UInt64.size)
    (h : readCells n p = .ok (cells, p')) :
    (TableRow.mk cells hlt).Clean ∧ p = terminate 0 (TableRow.mk cells hlt).strs ++ p' := by
  obtain ⟨strs, rfl, -, hstrs, rfl⟩ := readCells_eq_ok_iff.1 h
  refine ⟨fun cell hcell => ?_, ?_⟩
  · obtain ⟨str, hstr, rfl⟩ := List.mem_map.1 hcell
    exact ⟨str, rfl, hstrs str hstr⟩
  · rw [TableRow.strs, List.reduceOption, List.filterMap_map]
    simp

theorem addRow_eq_some (ht : ∀ row' ∈ t.mData, row'.cells.length = row.cells.length) :
    ∃ t', t.addRow row = some t' ∧ t'.mData = t.mData ++ [row] :=
  ⟨_, dif_pos ht, rfl⟩

variable {hn : n ≠ 0} {hlt : n < UInt64.size}

variable (hn hlt) in
/-- A row that can be read is added. -/
theorem readRows_of_ok (hp : p ≠ []) (ht : ∀ row ∈ t.mData, row.cells.length = n)
    (hcells : readCells n p = .ok (cells, p')) :
    ∃ (row : TableRow) (t' : Table), row.cells = cells ∧ t'.mData = t.mData ++ [row] ∧
      readRows n hn hlt t p = readRows n hn hlt t' p' := by
  have hlen := length_of_readCells hcells
  have hrows : ∀ row ∈ t.mData, row.cells.length = (TableRow.mk cells (hlen ▸ hlt)).cells.length :=
    fun row hrow => (ht row hrow).trans hlen.symm
  obtain ⟨t', hadd, hdata⟩ := addRow_eq_some hrows
  refine ⟨⟨cells, hlen ▸ hlt⟩, t', rfl, hdata, ?_⟩
  rw [readRows, if_neg hp]
  split
  next hread =>
    cases hcells.symm.trans hread
    simp only [hadd]
  next hread => cases hcells.symm.trans hread
  next hread => cases hcells.symm.trans hread

theorem readRows_of_throws (hp : p ≠ []) (hcells : readCells n p = .throws) :
    readRows n hn hlt t p = .throws := by
  rw [readRows, if_neg hp]
  split
  next hread => cases hcells.symm.trans hread
  next => rfl
  next hread => cases hcells.symm.trans hread

theorem readRows_of_overread (hp : p ≠ []) (hcells : readCells n p = .overread) :
    readRows n hn hlt t p = .overread := by
  rw [readRows, if_neg hp]
  split
  next hread => cases hcells.symm.trans hread
  next hread => cases hcells.symm.trans hread
  next => rfl

theorem readRows_nil : readRows n hn hlt t [] = .ok t := by
  rw [readRows, if_pos rfl]

variable (hn hlt) in
/-- Clean rows are read as they have been written. -/
theorem readRows_terminate (ht : ∀ row ∈ t.mData, row.cells.length = n)
    (hrows : ∀ row ∈ rows, row.cells.length = n ∧ row.Clean) :
    ∃ t', readRows n hn hlt t (terminate 0 (rows.flatMap TableRow.strs)) = .ok t' ∧
      t'.mData = t.mData ++ rows := by
  induction rows generalizing t with
  | nil => exact ⟨t, readRows_nil, (List.append_nil _).symm⟩
  | cons row rows ih =>
    obtain ⟨⟨hlen, hclean⟩, hrows⟩ := List.forall_mem_cons.1 hrows
    have hcells := readCells_strs (p := terminate 0 (rows.flatMap TableRow.strs)) hclean hlen
    have hne : terminate 0 ((row :: rows).flatMap TableRow.strs) ≠ [] := by
      intro h
      rw [List.flatMap_cons, terminate_append] at h
      rw [h, ← hlen] at hcells
      have := length_lt_of_readCells (by omega) hcells
      cases this
    rw [List.flatMap_cons, terminate_append] at hne ⊢
    obtain ⟨row', t₁, hrow', hdata, hread⟩ := readRows_of_ok hn hlt hne ht hcells
    have hrow : row' = row := TableRow.ext hrow'
    rw [hrow] at hdata
    have ht₁ : ∀ row ∈ t₁.mData, row.cells.length = n := by
      rw [hdata]
      exact List.forall_mem_append.2 ⟨ht, by simpa using hlen⟩
    obtain ⟨t', heq, hdata'⟩ := ih ht₁ hrows
    exact ⟨t', hread.trans heq, by rw [hdata', hdata]; simp⟩

/-- What has been read as rows is what is written for them. -/
theorem of_readRows_eq_ok (ht : ∀ row ∈ t.mData, row.cells.length = n)
    (h : readRows n hn hlt t p = .ok t') :
    ∃ rows, t'.mData = t.mData ++ rows ∧ (∀ row ∈ rows, row.cells.length = n ∧ row.Clean) ∧
      p = terminate 0 (rows.flatMap TableRow.strs) := by
  induction hlen : p.length using Nat.strongRecOn generalizing p t with
  | _ m ih =>
    by_cases hp : p = []
    · rw [hp, readRows_nil] at h
      cases h
      exact ⟨[], by simp, by simp, hp⟩
    · cases hcells : readCells n p with
      | throws => rw [readRows_of_throws hp hcells] at h; cases h
      | overread => rw [readRows_of_overread hp hcells] at h; cases h
      | ok r =>
        obtain ⟨cells, p'⟩ := r
        obtain ⟨row, t₁, rfl, hdata, hread⟩ := readRows_of_ok hn hlt hp ht hcells
        have hrow := length_of_readCells hcells
        obtain ⟨hclean, hpeq⟩ := clean_of_readCells row.size_lt hcells
        have ht₁ : ∀ row ∈ t₁.mData, row.cells.length = n := by
          rw [hdata]
          exact List.forall_mem_append.2 ⟨ht, by simpa using hrow⟩
        obtain ⟨rows, hdata', hrows, hp'⟩ :=
          ih _ (hlen ▸ length_lt_of_readCells hn hcells) ht₁ (hread ▸ h) rfl
        refine ⟨row :: rows, by rw [hdata', hdata]; simp, ?_, ?_⟩
        · exact List.forall_mem_cons.2 ⟨⟨hrow, hclean⟩, hrows⟩
        · rw [List.flatMap_cons, terminate_append, ← hp']
          exact hpeq

theorem terminated_of_throws (h : readCells n p = .throws) : Terminated 0 p := by
  induction n generalizing p with
  | zero => cases h
  | succ n ih =>
    by_cases hp : p = []
    · exact .inl hp
    · cases hread : readUntil 0 p with
      | none => rw [readCells, if_neg hp, hread] at h; cases h
      | some r =>
        obtain ⟨value, p'⟩ := r
        rw [readCells_succ_of_ok hp hread] at h
        obtain ⟨-, rfl⟩ := readUntil_eq_some_iff.1 hread
        rw [terminated_append_cons]
        cases hcells : readCells n p' with
        | throws => exact ih hcells
        | _ => rw [hcells] at h; cases h

theorem not_terminated_of_overread (h : readCells n p = .overread) : ¬Terminated 0 p := by
  induction n generalizing p with
  | zero => cases h
  | succ n ih =>
    rintro hterm
    have hp : p ≠ [] := by
      rintro rfl
      cases h
    obtain ⟨value, p', hread, hterm'⟩ := hterm.exists_readUntil hp
    rw [readCells_succ_of_ok hp hread] at h
    cases hcells : readCells n p' with
    | overread => exact ih hcells hterm'
    | _ => rw [hcells] at h; cases h

variable (hn hlt) in
/-- Reading goes on behind the buffer exactly if that does not end with a NUL. -/
theorem readRows_eq_overread_iff (ht : ∀ row ∈ t.mData, row.cells.length = n) :
    readRows n hn hlt t p = .overread ↔ ¬Terminated 0 p := by
  induction hlen : p.length using Nat.strongRecOn generalizing p t with
  | _ m ih =>
    by_cases hp : p = []
    · rw [hp, readRows_nil]
      exact iff_of_false nofun fun h => h (.inl rfl)
    · cases hcells : readCells n p with
      | throws =>
        rw [readRows_of_throws hp hcells]
        exact iff_of_false nofun fun h => h (terminated_of_throws hcells)
      | overread =>
        rw [readRows_of_overread hp hcells]
        exact iff_of_true rfl (not_terminated_of_overread hcells)
      | ok r =>
        obtain ⟨cells, p'⟩ := r
        obtain ⟨row, t₁, rfl, hdata, hread⟩ := readRows_of_ok hn hlt hp ht hcells
        have ht₁ : ∀ row ∈ t₁.mData, row.cells.length = n := by
          rw [hdata]
          exact List.forall_mem_append.2 ⟨ht, by simpa using length_of_readCells hcells⟩
        obtain ⟨-, hpeq⟩ := clean_of_readCells row.size_lt hcells
        rw [hread, ih _ (hlen ▸ length_lt_of_readCells hn hcells) ht₁ rfl, hpeq,
          terminated_terminate_append]

/-! ## Both ways -/

theorem columns_lt (t : Table) : t.columns < 256 ^ 8 := by
  cases hdata : t.mData with
  | nil => rw [columns, hdata]; decide
  | cons row rows =>
    have hrow : row ∈ t.mData := hdata ▸ List.mem_cons_self
    exact length_eq_columns hrow ▸ row.size_lt

theorem columns_eq_zero_iff (hcols : ∀ row ∈ t.mData, row.cells ≠ []) :
    t.columns = 0 ↔ t.mData = [] := by
  constructor
  · intro h
    by_contra hne
    obtain ⟨row, rows, hdata⟩ := List.exists_cons_of_ne_nil hne
    have hrow : row ∈ t.mData := hdata ▸ List.mem_cons_self
    exact hcols row hrow (List.length_eq_zero_iff.1 ((length_eq_columns hrow).trans h))
  · intro h
    rw [columns, h]
    rfl

theorem deserialize_of_size (hsize : ¬data.length < 8) (hn : rowSize data ≠ 0) :
    deserialize data = readRows (rowSize data) hn (rowSize_lt data) {} (data.drop 8) := by
  rw [deserialize, if_neg hsize, dif_pos hn]

theorem rowSize_le_append {body : List UInt8} (h : n < 256 ^ 8) : rowSize (le 8 n ++ body) = n := by
  rw [rowSize, List.take_left' (length_le 8 n), ofLE_le h]

/-- What is read is a clean table with columns, and the buffer is its serialization unless there is
no row. -/
theorem of_deserialize_eq_ok (h : deserialize data = .ok t) :
    (∀ row ∈ t.mData, row.cells ≠ [] ∧ row.Clean) ∧ 8 ≤ data.length ∧
      (t.mData ≠ [] → t.serialize = some data) ∧
      (t.mData = [] → rowSize data ≠ 0 → data.length = 8) := by
  by_cases hsize : data.length < 8
  · rw [deserialize, if_pos hsize] at h
    cases h
  by_cases hn : rowSize data = 0
  · rw [deserialize, if_neg hsize, dif_neg (not_not.2 hn)] at h
    cases h
    exact ⟨by simp, by omega, fun h => absurd rfl h, fun _ h => absurd hn h⟩
  rw [deserialize_of_size hsize hn] at h
  obtain ⟨rows, hdata, hrows, hbody⟩ := of_readRows_eq_ok (by simp) h
  rw [List.nil_append] at hdata
  rw [← hdata] at hrows hbody
  refine ⟨fun row hrow => ⟨?_, (hrows row hrow).2⟩, by omega, fun hne => ?_, fun hnil _ => ?_⟩
  · rintro hcells
    exact hn ((hrows row hrow).1.symm.trans (by rw [hcells]; rfl))
  · refine serialize_eq_some_iff.2 ⟨fun row hrow => (hrows row hrow).2.none_not_mem, ?_⟩
    obtain ⟨row, hrow⟩ := List.exists_mem_of_ne_nil _ hne
    have hle : le 8 (rowSize data) = data.take 8 := by
      have := le_ofLE (data.take 8)
      rwa [List.length_take_of_le (by omega)] at this
    rw [← length_eq_columns hrow, (hrows row hrow).1, hle, ← hbody, List.take_append_drop]
  · rw [hnil] at hbody
    have hdrop : (data.drop 8).length = 0 := by rw [hbody]; rfl
    rw [List.length_drop] at hdrop
    omega

theorem deserialize_of_serialize (hcols : ∀ row ∈ t.mData, row.cells ≠ [])
    (hclean : ∀ row ∈ t.mData, row.Clean) (h : t.serialize = some data) :
    deserialize data = .ok t := by
  obtain ⟨-, hdata⟩ := serialize_eq_some_iff.1 h
  have hsize : ¬data.length < 8 := by rw [hdata]; simp
  have hrowSize : rowSize data = t.columns := hdata ▸ rowSize_le_append (columns_lt t)
  by_cases hcol : t.columns = 0
  · rw [deserialize, if_neg hsize, dif_neg (by rw [hrowSize]; exact not_not.2 hcol)]
    exact congrArg _ (Table.ext ((columns_eq_zero_iff hcols).1 hcol).symm)
  · have hn : rowSize data ≠ 0 := by rwa [hrowSize]
    have hdrop : data.drop 8 = terminate 0 (t.mData.flatMap TableRow.strs) := by
      rw [hdata, List.drop_left' (length_le 8 _)]
    have hrows : ∀ row ∈ t.mData, row.cells.length = rowSize data ∧ row.Clean :=
      fun row hrow => ⟨(length_eq_columns hrow).trans hrowSize.symm, hclean row hrow⟩
    obtain ⟨t', hread, hmData⟩ :=
      readRows_terminate hn (rowSize_lt data) (t := {}) (by simp) hrows
    rw [deserialize_of_size hsize hn, hdrop, hread]
    exact congrArg _ (Table.ext (hmData.trans (List.nil_append _)))

/-- A table with columns, and without nulls and NULs in its cells, comes back. -/
theorem deserialize_serialize (hcols : ∀ row ∈ t.mData, row.cells ≠ [])
    (hclean : ∀ row ∈ t.mData, row.Clean) :
    ∃ data, t.serialize = some data ∧ deserialize data = .ok t ∧
      ∀ t', deserialize data = .ok t' → t'.serialize = some data := by
  have hser : t.serialize = some (le 8 t.columns ++ terminate 0 (t.mData.flatMap TableRow.strs)) :=
    serialize_eq_some_iff.2 ⟨fun row hrow => (hclean row hrow).none_not_mem, rfl⟩
  have hdes := deserialize_of_serialize hcols hclean hser
  refine ⟨_, hser, hdes, fun t' ht' => ?_⟩
  cases hdes.symm.trans ht'
  exact hser

/-- Two columns and two rows, with an empty cell. -/
theorem deserialize_serialize_empty_cell :
    ∃ data, (⟨[⟨[some [65], some []], by decide⟩, ⟨[some [66], some [67]], by decide⟩], by decide⟩ :
        Table).serialize = some data ∧
      deserialize data =
        .ok ⟨[⟨[some [65], some []], by decide⟩, ⟨[some [66], some [67]], by decide⟩], by decide⟩ :=
  have h := deserialize_serialize
    (t := ⟨[⟨[some [65], some []], by decide⟩, ⟨[some [66], some [67]], by decide⟩], by decide⟩)
    (by simp) (by simp [TableRow.Clean])
  h.imp fun _ h => ⟨h.1, h.2.1⟩

/-- The constructor reads only bytes of the buffer, and either it throws or it makes a table with
this serialization. -/
def Robust (data : List UInt8) : Prop :=
  deserialize data ≠ .overread ∧ ∀ t, deserialize data = .ok t → t.serialize = some data

theorem serialize_nil : serialize {} = some (le 8 0) := rfl

theorem robust_of_rowSize_ne_zero (hsize : 8 < data.length) (hn : rowSize data ≠ 0) :
    Robust data ↔ data.getLast? = some 0 := by
  have hread := readRows_eq_overread_iff hn (rowSize_lt data) (t := {}) (p := data.drop 8)
    (by simp)
  have hne : data.drop 8 ≠ [] := by simpa using hsize
  rw [← deserialize_of_size (by omega) hn, Terminated, or_iff_right hne, List.getLast?_drop,
    if_neg (by omega)] at hread
  constructor
  · intro h
    by_contra hlast
    exact h.1 (hread.2 hlast)
  · refine fun hlast => ⟨fun h => hread.1 h hlast, fun t ht => ?_⟩
    obtain ⟨-, -, hser, hnil⟩ := of_deserialize_eq_ok ht
    apply hser
    intro hdata
    have := hnil hdata hn
    omega

/-- A buffer with no columns is read as the empty table, whatever is behind the number. -/
theorem robust_of_rowSize_eq_zero (hsize : 8 ≤ data.length) (hn : rowSize data = 0) :
    Robust data ↔ data.length = 8 := by
  have hdes : deserialize data = .ok {} := by
    rw [deserialize, if_neg (by omega), dif_neg (not_not.2 hn)]
  have htake : data.take 8 = le 8 0 := by
    have hle := le_ofLE (data.take 8)
    rw [List.length_take_of_le hsize] at hle
    rw [← hle, ← hn, rowSize]
  constructor
  · intro h
    have hser := h.2 _ hdes
    rw [serialize_nil] at hser
    rw [← Option.some.inj hser]
    rfl
  · intro hlen
    refine ⟨by rw [hdes]; nofun, fun t ht => ?_⟩
    cases hdes.symm.trans ht
    rw [serialize_nil, ← htake, List.take_of_length_le (by omega)]

/-- A number of columns with no row behind it is read as the empty table. -/
theorem not_robust_of_length (hsize : data.length = 8) (hn : rowSize data ≠ 0) : ¬Robust data := by
  have hdes : deserialize data = .ok {} := by
    rw [deserialize_of_size (by omega) hn, List.drop_of_length_le (by omega), readRows_nil]
  intro h
  have hser := h.2 _ hdes
  rw [serialize_nil] at hser
  rw [← Option.some.inj hser] at hn
  exact hn rfl

/-- The constructor is robust for the buffers that are shorter than the number of columns, for the
serialization of the empty table, and for those with columns and a NUL at the end. -/
theorem deserialize_robust_iff (data : List UInt8) :
    Robust data ↔ data.length < 8 ∨ rowSize data = 0 ∧ data.length = 8 ∨
      rowSize data ≠ 0 ∧ 8 < data.length ∧ data.getLast? = some 0 := by
  by_cases hsize : data.length < 8
  · have hdes : deserialize data = .throws := if_pos hsize
    refine iff_of_true ⟨by rw [hdes]; nofun, fun t ht => ?_⟩ (.inl hsize)
    cases hdes.symm.trans ht
  by_cases hn : rowSize data = 0
  · rw [robust_of_rowSize_eq_zero (by omega) hn]
    simp [hsize, hn]
  by_cases hlen : data.length = 8
  · apply iff_of_false (not_robust_of_length hlen hn)
    simp [hlen, hn]
  · rw [robust_of_rowSize_ne_zero (by omega) hn]
    have h8 : 8 < data.length := by omega
    simp [hsize, hn, hlen, h8]

/-- A cell without its NUL. -/
theorem unterminated_not_robust :
    deserialize [1, 0, 0, 0, 0, 0, 0, 0, 65] = .overread ∧
      ¬Robust [1, 0, 0, 0, 0, 0, 0, 0, 65] := by
  have hread : deserialize [1, 0, 0, 0, 0, 0, 0, 0, 65] = .overread := by
    rw [deserialize_of_size (by decide) (by decide)]
    exact readRows_of_overread (by decide) (by decide)
  exact ⟨hread, fun h => h.1 hread⟩

end Table

end Kalinka.Snmp
