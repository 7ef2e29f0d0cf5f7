import Mathlib.Algebra.Group.Int.Defs
import Mathlib.Algebra.Group.Nat.Defs
import Kalinka.Lib.Decimal
import Kalinka.Lib.Trim
import Kalinka.Lib.Words

/-!
# Strings

What the parsers of configuration and schedules have in common: the string functions of `utils.cpp`,
and those of boost that they are made of.  A string is a list of its bytes.  The conversion of a
size to an `int`, on which the sockets rely, is here too.
-/

namespace Kalinka.Utils

open Decimal

variable {s l t rest : List Char} {n : ℤ} {ls : List (List Char)}

theorem bind_eq_ok_iff {α β : Type} {x : Except String α} {f : α → Except String β} {b : β} :
    x >>= f = .ok b ↔ ∃ a, x = .ok a ∧ f a = .ok b := by
  cases x with
  | error e => exact iff_of_false nofun fun ⟨_, h, _⟩ => nomatch h
  | ok a => exact ⟨fun h => ⟨a, rfl, h⟩, fun ⟨_, h, hf⟩ => by cases h; exact hf⟩

/-- `split`: what is between the delimiters, without the empty parts. -/
def split (data del : List Char) : List (List Char) := Text.words (fun c => decide (c ∈ del)) data

/-- `boost::lexical_cast<int>`: `none` for `bad_lexical_cast`. -/
def lexicalCastInt (s : List Char) : Option ℤ :=
  (parse s).filter fun n => -2 ^ 31 ≤ n ∧ n < 2 ^ 31

theorem lexicalCastInt_eq_some_iff :
    lexicalCastInt s = some n ↔ Denotes s n ∧ -2 ^ 31 ≤ n ∧ n < 2 ^ 31 := by
  rw [lexicalCastInt, Option.filter_eq_some_iff, parse_eq_some_iff, decide_eq_true_iff]

/-- `static_cast<int>` of a size -/
def toInt (n : ℕ) : ℤ :=
  if n % UInt32.size < 2 ^ 31 then n % UInt32.size else (n % UInt32.size : ℕ) - (UInt32.size : ℕ)

/-- An `int` where a `size_t` is expected. -/
def toSize (n : ℤ) : ℕ := (n % (2 ^ 64 : ℤ)).toNat

theorem toInt_of_lt {n : ℕ} (h : n < 2 ^ 31) : toInt n = n := by
  have hmod : n % UInt32.size = n := Nat.mod_eq_of_lt (Nat.lt_trans h (by decide))
  rw [toInt, hmod, if_pos h]
  exact congrArg _ hmod

theorem toInt_neg {n : ℕ} (h : 2 ^ 31 ≤ n) (hlt : n < UInt32.size) : toInt n < 0 := by
  rw [toInt, Nat.mod_eq_of_lt hlt, if_neg (Nat.not_lt.2 h)]
  omega

/-- `is_any_of(" \r\n\t")` -/
def isGarbage (c : Char) : Bool := c ∈ " \r\n\t".toList

/-- `boost::trim_if` with `is_any_of(" \r\n\t")`. -/
def trim (s : List Char) : List Char := Text.trim isGarbage s

/-- What a C string shows of the bytes. -/
def cString (s : List Char) : List Char := s.takeWhile (· ≠ '\x00')

/-- `replaceAll`, of one character. -/
def replaceAll (initial : List Char) (replaceWhat : Char) (replaceWithWhat : List Char) :
    List Char :=
  initial.flatMap fun c => if c = replaceWhat then replaceWithWhat else [c]

/-! ## Configuration files -/

/-- `sizeof(buff)` in `getConfig`. -/
def lineSize : ℕ := 1024

/-- What the loop of `getConfig` reads of the lines of a file: `getline` fails at a line that does
not fit, with the beginning of that in `buff`. -/
def getLines : List (List Char) → List (List Char)
  | [] => []
  | l :: ls => if l.length < lineSize then l :: getLines ls else [l.take (lineSize - 1)]

/-- The line up to its comment. -/
def uncomment (buff : List Char) : List Char := (cString buff).takeWhile (· ≠ '#')

/-- The line without its comment and the garbage around it. -/
def cleanLine (buff : List Char) : List Char := trim (uncomment buff)

/-- `getConfig`, by the text of the file. -/
def getConfig (file : List Char) : List (List Char) :=
  ((getLines (file.splitOn '\n')).map cleanLine).filter (· ≠ [])

theorem getLines_append (h : ∀ l ∈ ls, l.length < lineSize) (ls' : List (List Char)) :
    getLines (ls ++ ls') = ls ++ getLines ls' := by
  induction ls with
  | nil => rfl
  | cons l ls ih =>
    obtain ⟨hl, hls⟩ := List.forall_mem_cons.1 h
    rw [List.cons_append, getLines, if_pos hl, ih hls, List.cons_append]

theorem getConfig_nil : getConfig [] = [] := by decide

/-- A text of short lines, and what is below it. -/
theorem getConfig_append (h : ∀ l ∈ t.splitOn '\n', l.length < lineSize) (rest : List Char) :
    getConfig (t ++ '\n' :: rest) = getConfig t ++ getConfig rest := by
  have ht : getLines (t.splitOn '\n') = t.splitOn '\n' := by
    simpa [getLines] using getLines_append h []
  rw [getConfig, List.splitOn_append_cons_self, getLines_append h, List.map_append,
    List.filter_append, getConfig, getConfig, ht]

/-- Comments and blank lines are left out. -/
theorem getConfig_skip (h : ∀ l ∈ t.splitOn '\n', cleanLine l = [] ∧ l.length < lineSize)
    (rest : List Char) : getConfig (t ++ '\n' :: rest) = getConfig rest := by
  have hshort : ∀ l ∈ t.splitOn '\n', l.length < lineSize := fun l hl => (h l hl).2
  have hlines := getLines_append hshort []
  rw [List.append_nil] at hlines
  have hnil : getConfig t = [] := by
    rw [getConfig, hlines, getLines, List.append_nil, List.filter_eq_nil_iff]
    intro l hl
    obtain ⟨l', hl', rfl⟩ := List.mem_map.1 hl
    simp [(h l' hl').1]
  rw [getConfig_append hshort, hnil, List.nil_append]

/-- A line. -/
theorem getConfig_line (h : '\n' ∉ l) (hl : l.length < lineSize) (hne : cleanLine l ≠ [])
    (rest : List Char) : getConfig (l ++ '\n' :: rest) = cleanLine l :: getConfig rest := by
  have hlines : l.splitOn '\n' = [l] := List.splitOn_eq_singleton h
  rw [getConfig_append (by simpa [hlines] using hl), getConfig, hlines, getLines, if_pos hl]
  simp [getLines, hne]

/-- A line that does not fit is the last one, and cut. -/
theorem getConfig_long_line (h : '\n' ∉ l) (hl : ¬ l.length < lineSize)
    (hne : cleanLine (l.take (lineSize - 1)) ≠ []) (rest : List Char) :
    getConfig (l ++ '\n' :: rest) = [cleanLine (l.take (lineSize - 1))] := by
  rw [getConfig, List.splitOn_append_cons_self, List.splitOn_eq_singleton h, List.singleton_append,
    getLines, if_neg hl]
  simp [hne]

theorem newline_notMem_of_mem_splitOn (s : List Char) : ∀ l ∈ s.splitOn '\n', '\n' ∉ l := by
  induction s with
  | nil => simp
  | cons c s ih =>
    rw [List.splitOn_cons_eq_if_modifyHead]
    split
    next hc => exact List.forall_mem_cons.2 ⟨List.not_mem_nil, ih⟩
    next hc =>
      obtain ⟨l, ls, hls⟩ := List.exists_cons_of_ne_nil (List.splitOn_ne_nil '\n' s)
      rw [hls, List.forall_mem_cons] at ih
      rw [hls, List.modifyHead_cons, List.forall_mem_cons, List.mem_cons, not_or]
      exact ⟨⟨fun heq => hc (heq ▸ beq_self_eq_true c), ih.1⟩, ih.2⟩

theorem exists_of_mem_getLines (h : l ∈ getLines ls) : ∃ l' ∈ ls, l ⊆ l' := by
  induction ls with
  | nil => cases h
  | cons l' ls ih =>
    rw [getLines] at h
    split at h
    · obtain rfl | hmem := List.mem_cons.1 h
      · exact ⟨l, List.mem_cons_self, List.Subset.refl l⟩
      · obtain ⟨l'', hl'', hsub⟩ := ih hmem
        exact ⟨l'', List.mem_cons_of_mem _ hl'', hsub⟩
    · rw [List.mem_singleton.1 h]
      exact ⟨l', List.mem_cons_self, List.take_subset _ _⟩

theorem uncomment_isPrefix (l : List Char) : uncomment l <+: l :=
  (List.takeWhile_prefix _).trans (List.takeWhile_prefix _)

theorem mem_uncomment {c : Char} (h : c ∈ uncomment l) : c ≠ '\x00' ∧ c ≠ '#' := by
  constructor
  · simpa using List.mem_takeWhile_imp ((List.takeWhile_prefix _).subset h)
  · simpa using List.mem_takeWhile_imp h

theorem uncomment_append (h : ∀ c ∈ t, c ≠ '\x00' ∧ c ≠ '#') :
    uncomment (t ++ l) = t ++ uncomment l := by
  rw [uncomment, cString, List.takeWhile_append_of_pos fun c hc => decide_eq_true (h c hc).1,
    List.takeWhile_append_of_pos fun c hc => decide_eq_true (h c hc).2, uncomment, cString]

theorem cleanLine_subset : cleanLine l ⊆ l :=
  List.Subset.trans Text.trim_subset (uncomment_isPrefix l).subset

theorem length_cleanLine_le : (cleanLine l).length ≤ l.length :=
  Text.length_trim_le.trans (uncomment_isPrefix l).length_le

theorem newline_notMem_of_mem_getConfig (h : l ∈ getConfig s) : '\n' ∉ l := by
  obtain ⟨l₁, hl₁, rfl⟩ := List.mem_map.1 (List.mem_filter.1 h).1
  obtain ⟨l₂, hl₂, hsub⟩ := exists_of_mem_getLines hl₁
  exact fun hmem => newline_notMem_of_mem_splitOn s l₂ hl₂ (hsub (cleanLine_subset hmem))

/-- What a line that keeps its text is like. -/
theorem cleanLine_eq_self_iff :
    cleanLine l = l ↔ '#' ∉ l ∧ '\x00' ∉ l ∧ Text.Trimmed isGarbage l := by
  constructor
  · intro h
    have hsub : l ⊆ uncomment l := by
      conv_lhs => rw [← h]
      exact Text.trim_subset
    refine ⟨fun hmem => ?_, fun hmem => ?_, h ▸ Text.trimmed_trim isGarbage _⟩
    · exact (mem_uncomment (hsub hmem)).2 rfl
    · exact (mem_uncomment (hsub hmem)).1 rfl
  · rintro ⟨hhash, hnul, htrim⟩
    have huncomment := uncomment_append (t := l) (l := [])
      fun c hc => ⟨ne_of_mem_of_not_mem hc hnul, ne_of_mem_of_not_mem hc hhash⟩
    rw [List.append_nil, show uncomment [] = [] from rfl, List.append_nil] at huncomment
    rw [cleanLine, huncomment]
    exact Text.trim_eq_self htrim

end Kalinka.Utils
