import Mathlib.Data.List.Basic
import Mathlib.Tactic.SplitIfs

/-!
# The tokens of MySQL

The lexical structure of SQL texts as MySQL reads them in its default mode, one character at a time:
words, names in backquotes, comments, and string literals in single or double quotes.  In a literal,
a doubled quote stands for one, and a backslash escapes the next character, except that `\%` and
`\_` keep the backslash.  Literals next to each other are one literal.

The value of a literal is written plainly if no character of it is read as anything else.

* `run_quoted_of_plain`: a plain value is read back from its quotes.
* `sizes_le_of_tokenize`: tokens are no longer than the text they are read from, blanks aside.
* `plain_of_sizes_eq`: if they are as long as the text, the first literal has a plain value.
-/

namespace Sql

/-- A token; the quotes of a literal and of a quoted name are gone. -/
inductive Token
  | word (w : List Char)
  | str (v : List Char)
  | punct (c : Char)
  deriving DecidableEq, Repr

/-- The quotes around string literals. -/
inductive Quote
  | single
  | double
  deriving DecidableEq, Repr

def Quote.char : Quote → Char
  | single => '\''
  | double => '"'

inductive LexState
  | start
  | word (w : List Char)
  /-- in a literal, after a backslash in it, and after its quote in it -/
  | quoted (q : Quote) (v : List Char)
  | escape (q : Quote) (v : List Char)
  | closing (q : Quote) (v : List Char)
  /-- in backquotes, and after a backquote in them -/
  | ident (w : List Char)
  | identClosing (w : List Char)
  /-- after one dash, two dashes, a slash -/
  | dash
  | dashes
  | slash
  /-- in a comment to the end of the line -/
  | line
  /-- in a comment between slashes and stars: before its first character, in it, after a star -/
  | blockStart
  | block
  | star
  deriving DecidableEq, Repr

/-- A character of names without quotes; all characters beyond ASCII are. -/
def isIdentChar (c : Char) : Bool := c.isAlphanum || c = '_' || c = '$' || 128 ≤ c.toNat

def isBlank (c : Char) : Bool := c = ' ' || 9 ≤ c.toNat && c.toNat ≤ 13

/-- The characters that an escaped one stands for. -/
def unescape (c : Char) : List Char :=
  if c = '%' ∨ c = '_' then ['\\', c]
  else if c = '0' then ['\x00']
  else if c = 'b' then ['\x08']
  else if c = 'n' then ['\n']
  else if c = 'r' then ['\r']
  else if c = 't' then ['\t']
  else if c = 'Z' then ['\x1a']
  else [c]

/-- A character between two tokens. -/
def begin (c : Char) : List Token × LexState :=
  if isBlank c then ([], .start)
  else if isIdentChar c then ([], .word [c])
  else if c = '\'' then ([], .quoted .single [])
  else if c = '"' then ([], .quoted .double [])
  else if c = '`' then ([], .ident [])
  else if c = '#' then ([], .line)
  else if c = '-' then ([], .dash)
  else if c = '/' then ([], .slash)
  else ([.punct c], .start)

/-- The token is complete, and the character comes after it. -/
def after (t : Token) (c : Char) : List Token × LexState := (t :: (begin c).1, (begin c).2)

/-- The tokens that are complete when the character has been read, and the state then. -/
def step : LexState → Char → Option (List Token × LexState)
  | .start, c => some (begin c)
  | .word w, c => if isIdentChar c then some ([], .word (w ++ [c])) else some (after (.word w) c)
  | .quoted q v, c =>
    if c = q.char then some ([], .closing q v)
    else if c = '\\' then some ([], .escape q v)
    else some ([], .quoted q (v ++ [c]))
  | .escape q v, c => some ([], .quoted q (v ++ unescape c))
  | .closing q v, c =>
    if c = q.char then some ([], .quoted q (v ++ [c])) else some (after (.str v) c)
  | .ident w, c => if c = '`' then some ([], .identClosing w) else some ([], .ident (w ++ [c]))
  | .identClosing w, c =>
    if c = '`' then some ([], .ident (w ++ [c])) else some (after (.word w) c)
  | .dash, c => if c = '-' then some ([], .dashes) else some (after (.punct '-') c)
  | .dashes, c =>
    if c = '\n' then some ([], .start)
    else if isBlank c ∨ c.toNat < 32 then some ([], .line)
    else if c = '-' then some ([.punct '-'], .dashes)
    else some (.punct '-' :: (after (.punct '-') c).1, (begin c).2)
  | .slash, c => if c = '*' then some ([], .blockStart) else some (after (.punct '/') c)
  | .line, c => if c = '\n' then some ([], .start) else some ([], .line)
  -- what is in `/*! */` is code for some versions of the server and a comment for the others
  | .blockStart, c =>
    if c = '!' then none else if c = '*' then some ([], .star) else some ([], .block)
  | .block, c => if c = '*' then some ([], .star) else some ([], .block)
  | .star, c =>
    if c = '/' then some ([], .start) else if c = '*' then some ([], .star) else some ([], .block)

/-- The token at the end of the text. -/
def finish : LexState → Option (List Token)
  | .start => some []
  | .word w => some [.word w]
  | .quoted .. => none
  | .escape .. => none
  | .closing _ v => some [.str v]
  | .ident _ => none
  | .identClosing w => some [.word w]
  | .dash => some [.punct '-']
  | .dashes => some []
  | .slash => some [.punct '/']
  | .line => some []
  | .blockStart => none
  | .block => none
  | .star => none

/-- The tokens that are complete after a part of a text, and the state then. -/
def run : LexState → List Char → Option (List Token × LexState)
  | s, [] => some ([], s)
  | s, c :: cs => do
    let (ts, s') ← step s c
    let (ts', s'') ← run s' cs
    return (ts ++ ts', s'')

/-- The tokens of a text that is read from the state. -/
def lexFrom : LexState → List Char → Option (List Token)
  | s, [] => finish s
  | s, c :: cs => do
    let (ts, s') ← step s c
    let ts' ← lexFrom s' cs
    return ts ++ ts'

/-- Literals next to each other are put together. -/
def joinLiterals : List Token → List Token
  | [] => []
  | .str v :: ts =>
    match joinLiterals ts with
    | .str w :: ts' => .str (v ++ w) :: ts'
    | ts' => .str v :: ts'
  | t :: ts => t :: joinLiterals ts

/-- The tokens of a text, or `none` if it has an error. -/
def tokenize (text : List Char) : Option (List Token) := (lexFrom .start text).map joinLiterals

variable {s s' s'' : LexState} {q : Quote} {c : Char} {cs cs' v w : List Char}
variable {t : Token} {ts ts' : List Token}

/-! ## Reading a text in parts -/

theorem run_cons_eq_some_iff : run s (c :: cs) = some (ts, s'') ↔
    ∃ ts₁ s' ts₂, step s c = some (ts₁, s') ∧ run s' cs = some (ts₂, s'') ∧ ts = ts₁ ++ ts₂ := by
  simp only [run, Option.bind_eq_bind, Option.bind_eq_some_iff, Prod.exists, Option.pure_def,
    Option.some.injEq, Prod.mk.injEq]
  constructor
  · rintro ⟨ts₁, s', hstep, ts₂, s'', hrun, rfl, rfl⟩
    exact ⟨ts₁, s', ts₂, hstep, hrun, rfl⟩
  · rintro ⟨ts₁, s', ts₂, hstep, hrun, rfl⟩
    exact ⟨ts₁, s', hstep, ts₂, s'', hrun, rfl, rfl⟩

theorem run_append (h : run s cs = some (ts, s')) (h' : run s' cs' = some (ts', s'')) :
    run s (cs ++ cs') = some (ts ++ ts', s'') := by
  induction cs generalizing s ts with
  | nil =>
    obtain ⟨rfl, rfl⟩ := Prod.mk.inj (Option.some.inj h)
    exact h'
  | cons c cs ih =>
    obtain ⟨ts₁, s₁, ts₂, hstep, hrun, rfl⟩ := run_cons_eq_some_iff.1 h
    refine run_cons_eq_some_iff.2 ⟨ts₁, s₁, ts₂ ++ ts', hstep, ih hrun, ?_⟩
    rw [List.append_assoc]

theorem lexFrom_cons_eq_some_iff : lexFrom s (c :: cs) = some ts ↔
    ∃ ts₁ s' ts₂, step s c = some (ts₁, s') ∧ lexFrom s' cs = some ts₂ ∧ ts = ts₁ ++ ts₂ := by
  simp only [lexFrom, Option.bind_eq_bind, Option.bind_eq_some_iff, Prod.exists, Option.pure_def,
    Option.some.injEq]
  constructor
  · rintro ⟨ts₁, s', hstep, ts₂, hlex, rfl⟩
    exact ⟨ts₁, s', ts₂, hstep, hlex, rfl⟩
  · rintro ⟨ts₁, s', ts₂, hstep, hlex, rfl⟩
    exact ⟨ts₁, s', hstep, ts₂, hlex, rfl⟩

/-- A part that has been read matters for the rest by its tokens and by the state only. -/
theorem lexFrom_append (h : run s cs = some (ts, s')) :
    lexFrom s (cs ++ cs') = some ts' ↔ ∃ rest, lexFrom s' cs' = some rest ∧ ts' = ts ++ rest := by
  induction cs generalizing s ts ts' with
  | nil =>
    obtain ⟨rfl, rfl⟩ := Prod.mk.inj (Option.some.inj h)
    simp [eq_comm]
  | cons c cs ih =>
    obtain ⟨ts₁, s₁, ts₂, hstep, hrun, rfl⟩ := run_cons_eq_some_iff.1 h
    rw [List.cons_append, lexFrom_cons_eq_some_iff]
    constructor
    · rintro ⟨ts₁', s₁', ts₂', hstep', hlex, rfl⟩
      obtain ⟨rfl, rfl⟩ := Prod.mk.inj (Option.some.inj (hstep.symm.trans hstep'))
      obtain ⟨rest, hrest, rfl⟩ := (ih hrun).1 hlex
      exact ⟨rest, hrest, (List.append_assoc ..).symm⟩
    · rintro ⟨rest, hrest, rfl⟩
      exact ⟨ts₁, s₁, ts₂ ++ rest, hstep, (ih hrun).2 ⟨rest, hrest, rfl⟩, List.append_assoc ..⟩

theorem lexFrom_of_run (h : run s cs = some (ts, .start)) : lexFrom s cs = some ts := by
  have hlex := (lexFrom_append h).2 ⟨[], (rfl : lexFrom .start [] = some []), rfl⟩
  rwa [List.append_nil, List.append_nil] at hlex

/-! ## Plain values -/

/-- No quote is in the value, and every backslash is before a character that keeps it. -/
def plain (q : Quote) : List Char → Bool
  | [] => true
  | [c] => c ≠ q.char && c ≠ '\\'
  | c :: c' :: cs =>
    if c = '\\' then (c' = '%' || c' = '_') && plain q cs
    else c ≠ q.char && plain q (c' :: cs)

theorem Quote.char_ne_backslash (q : Quote) : q.char ≠ '\\' := by cases q <;> decide

theorem run_quoted_of_plain (h : plain q v = true) (w : List Char) :
    run (.quoted q w) (v ++ [q.char]) = some ([], .closing q (w ++ v)) := by
  induction v using plain.induct generalizing w with
  | case1 => simp [run, step]
  | case2 c =>
    simp only [plain, Bool.and_eq_true, decide_eq_true_eq] at h
    simp [run, step, h.1, h.2]
  | case3 c' cs ih =>
    simp only [plain, if_true, Bool.and_eq_true, Bool.or_eq_true, decide_eq_true_eq] at h
    have hkeep : unescape c' = ['\\', c'] := if_pos h.1
    have hne := q.char_ne_backslash.symm
    have hrun := ih h.2 (w ++ ['\\', c'])
    simp [run, step, hne, hkeep, hrun]
  | case4 c c' cs hc ih =>
    simp only [plain, if_neg hc, Bool.and_eq_true, decide_eq_true_eq] at h
    have hrun := ih h.2 (w ++ [c])
    rw [List.cons_append, run_cons_eq_some_iff]
    refine ⟨[], .quoted q (w ++ [c]), [], ?_, by simpa using hrun, rfl⟩
    simp [step, h.1, hc]

/-! ## The length of tokens -/

/-- The number of characters that are no spaces. -/
def weight (cs : List Char) : ℕ := cs.countP fun c => c ≠ ' '

/-- The weight of the shortest text of the token. -/
def Token.size : Token → ℕ
  | word w => weight w
  | str v => weight v + 2
  | punct _ => 1

def sizes : List Token → ℕ
  | [] => 0
  | t :: ts => t.size + sizes ts

/-- The weight of the shortest text that has been read of the token. -/
def LexState.size : LexState → ℕ
  | start => 0
  | word w => weight w
  | quoted _ v => weight v + 1
  | escape _ v => weight v + 2
  | closing _ v => weight v + 2
  | ident w => weight w + 1
  | identClosing w => weight w + 2
  | dash => 1
  | dashes => 2
  | slash => 1
  | line => 0
  | blockStart => 0
  | block => 0
  | star => 0

@[simp] theorem weight_nil : weight [] = 0 := rfl

theorem weight_append : weight (cs ++ cs') = weight cs + weight cs' := List.countP_append

theorem weight_cons : weight (c :: cs) = weight [c] + weight cs := by
  rw [← weight_append, List.singleton_append]

theorem weight_of_ne (h : c ≠ ' ') : weight [c] = 1 := by simp [weight, h]

theorem sizes_append : sizes (ts ++ ts') = sizes ts + sizes ts' := by
  induction ts with
  | nil => exact (Nat.zero_add _).symm
  | cons t ts ih =>
    rw [List.cons_append, sizes, sizes, ih]
    omega

theorem Quote.char_ne_space (q : Quote) : q.char ≠ ' ' := by cases q <;> decide

theorem weight_of_not_isBlank (h : ¬ isBlank c = true) : weight [c] = 1 :=
  weight_of_ne fun heq => h (heq ▸ by decide)

theorem begin_size_le (c : Char) : sizes (begin c).1 + (begin c).2.size ≤ weight [c] := by
  by_cases h : isBlank c = true
  · rw [begin, if_pos h]
    exact Nat.zero_le _
  · rw [weight_of_not_isBlank h, begin, if_neg h]
    have hc := weight_of_not_isBlank h
    split_ifs <;> simp [sizes, LexState.size, Token.size, hc]

theorem after_size_le (t : Token) (c : Char) :
    sizes (after t c).1 + (after t c).2.size ≤ t.size + weight [c] := by
  have h := begin_size_le c
  simp only [after, sizes]
  omega

theorem weight_unescape_le (c : Char) : weight (unescape c) ≤ weight [c] + 1 := by
  unfold unescape
  split_ifs with h
  · have hne : c ≠ ' ' := by
      rintro rfl
      exact absurd h (by decide)
    rw [weight_cons, weight_of_ne hne]
    exact Nat.le_refl _
  all_goals first
    | exact Nat.le_add_left 1 _
    | exact Nat.le_add_right _ 1

/-- Only an escape that keeps its backslash is as long as what it stands for. -/
theorem weight_unescape_lt (h : ¬ (c = '%' ∨ c = '_')) :
    weight (unescape c) < weight [c] + 1 := by
  rw [unescape, if_neg h]
  split_ifs
  all_goals first
    | exact Nat.lt_succ_self _
    | (subst c; decide)

/-- A character that is put to the text so far. -/
theorem weight_append_add_le {v w : List Char} {m n : ℕ} (h : weight w + m ≤ weight [c] + n) :
    weight (v ++ w) + m ≤ weight v + n + weight [c] := by
  rw [weight_append]
  omega

theorem step_size_le (h : step s c = some (ts, s')) :
    sizes ts + s'.size ≤ s.size + weight [c] := by
  have hmove {s₁ : LexState} (hp : some ([], s₁) = some (ts, s'))
      (hle : s₁.size ≤ s.size + weight [c]) : sizes ts + s'.size ≤ s.size + weight [c] := by
    obtain ⟨rfl, rfl⟩ := Prod.mk.inj (Option.some.inj hp)
    exact (Nat.zero_add _).symm ▸ hle
  have hafter (t : Token) (ht : some (after t c) = some (ts, s')) :
      sizes ts + s'.size ≤ t.size + weight [c] := by
    have hle := after_size_le t c
    rwa [Option.some.inj ht] at hle
  have hsolid {d : Char} (hc : c = d) (hd : d ≠ ' ') : weight [c] = 1 :=
    weight_of_ne fun hblank => hd (hc.symm.trans hblank)
  have hput {v : List Char} {m n : ℕ} (hmn : m ≤ n) :
      weight (v ++ [c]) + m ≤ weight v + n + weight [c] :=
    weight_append_add_le (Nat.add_le_add_left hmn _)
  cases s with
  | start =>
    have hle := begin_size_le c
    rw [Option.some.inj h] at hle
    exact Nat.le_trans hle (Nat.le_add_left _ _)
  | word w =>
    simp only [step] at h
    split_ifs at h
    · exact hmove h (hput (Nat.le_refl 0))
    · exact hafter _ h
  | quoted q v =>
    simp only [step] at h
    split_ifs at h with hq hb
    · have hc := hsolid hq q.char_ne_space
      apply hmove h
      show weight v + 2 ≤ weight v + 1 + weight [c]
      omega
    · have hc := hsolid hb (by decide)
      apply hmove h
      show weight v + 2 ≤ weight v + 1 + weight [c]
      omega
    · exact hmove h (hput (Nat.le_refl 1))
  | escape q v =>
    exact hmove h (weight_append_add_le (Nat.succ_le_succ (weight_unescape_le c)))
  | closing q v =>
    simp only [step] at h
    split_ifs at h
    · exact hmove h (hput (by decide))
    · exact hafter _ h
  | ident w =>
    simp only [step] at h
    split_ifs at h with hq
    · have hc := hsolid hq (by decide)
      apply hmove h
      show weight w + 2 ≤ weight w + 1 + weight [c]
      omega
    · exact hmove h (hput (Nat.le_refl 1))
  | identClosing w =>
    simp only [step] at h
    split_ifs at h
    · exact hmove h (hput (by decide))
    · have hle := hafter _ h
      show sizes ts + s'.size ≤ weight w + 2 + weight [c]
      have hword : (Token.word w).size = weight w := rfl
      omega
  | dash =>
    simp only [step] at h
    split_ifs at h with hd
    · have hc := hsolid hd (by decide)
      apply hmove h
      show 2 ≤ 1 + weight [c]
      omega
    · exact hafter _ h
  | dashes =>
    simp only [step] at h
    split_ifs at h with hn hb hd
    · exact hmove h (Nat.zero_le _)
    · exact hmove h (Nat.zero_le _)
    · obtain ⟨rfl, rfl⟩ := Prod.mk.inj (Option.some.inj h)
      have hc := hsolid hd (by decide)
      show 1 + 0 + 2 ≤ 2 + weight [c]
      omega
    · obtain ⟨rfl, rfl⟩ := Prod.mk.inj (Option.some.inj h)
      have hle := begin_size_le c
      show 1 + (1 + sizes (begin c).1) + (begin c).2.size ≤ 2 + weight [c]
      omega
  | slash =>
    simp only [step] at h
    split_ifs at h
    · exact hmove h (Nat.zero_le _)
    · exact hafter _ h
  | line | blockStart | block | star =>
    simp only [step] at h
    split_ifs at h
    all_goals exact hmove h (Nat.zero_le _)

theorem finish_size_le (h : finish s = some ts) : sizes ts ≤ s.size := by
  cases s with
  | quoted | escape | ident | blockStart | block | star => nomatch h
  | start | word | closing | identClosing | dash | dashes | slash | line =>
    obtain rfl := Option.some.inj h
    simp [sizes, Token.size, LexState.size]

/-- The tokens are not longer than the text. -/
theorem sizes_le_of_lexFrom (h : lexFrom s cs = some ts) : sizes ts ≤ s.size + weight cs := by
  induction cs generalizing s ts with
  | nil => exact finish_size_le h
  | cons c cs ih =>
    obtain ⟨ts₁, s', ts₂, hstep, hlex, rfl⟩ := lexFrom_cons_eq_some_iff.1 h
    have hle := step_size_le hstep
    have hle' := ih hlex
    rw [sizes_append, weight_cons]
    omega

theorem sizes_joinLiterals (ts : List Token) : sizes (joinLiterals ts) ≤ sizes ts ∧
    (sizes (joinLiterals ts) = sizes ts → joinLiterals ts = ts) := by
  induction ts with
  | nil => exact ⟨Nat.le_refl _, fun _ => rfl⟩
  | cons t ts ih =>
    obtain ⟨hle, heq⟩ := ih
    cases t with
    | word | punct =>
      simp only [joinLiterals, sizes]
      exact ⟨by omega, fun h => congrArg _ (heq (by omega))⟩
    | str v =>
      simp only [joinLiterals]
      split
      next w ts' hjoin =>
        rw [hjoin] at hle
        simp only [sizes, Token.size, weight_append] at hle ⊢
        exact ⟨by omega, fun h => by omega⟩
      next ts' hjoin =>
        simp only [sizes] at hle ⊢
        exact ⟨by omega, fun h => congrArg _ (heq (by omega))⟩

/-- A text with tokens as long as itself has no literals next to each other. -/
theorem lexFrom_of_tokenize (h : tokenize cs = some ts) (hsize : sizes ts = weight cs) :
    lexFrom .start cs = some ts := by
  obtain ⟨ts', hlex, rfl⟩ := Option.map_eq_some_iff.1 h
  obtain ⟨hle, heq⟩ := sizes_joinLiterals ts'
  have hle' := sizes_le_of_lexFrom hlex
  have hstart : LexState.start.size = 0 := rfl
  rw [heq (by omega)]
  exact hlex

theorem str_of_closing (h : lexFrom (.closing q w) cs = some ts)
    (hsize : sizes ts = weight w + 2 + weight cs) : ∃ ts', ts = .str w :: ts' := by
  cases cs with
  | nil => exact ⟨[], (Option.some.inj h).symm⟩
  | cons c cs =>
    obtain ⟨ts₁, s', ts₂, hstep, hlex, rfl⟩ := lexFrom_cons_eq_some_iff.1 h
    simp only [step] at hstep
    split_ifs at hstep with hq
    · obtain ⟨rfl, rfl⟩ := Prod.mk.inj (Option.some.inj hstep)
      -- a doubled quote is longer than the one it stands for
      have hle := sizes_le_of_lexFrom hlex
      have hc := weight_of_ne (hq ▸ q.char_ne_space)
      simp only [LexState.size, weight_append] at hle
      rw [List.nil_append, weight_cons] at hsize
      omega
    · obtain ⟨rfl, -⟩ := Prod.mk.inj (Option.some.inj hstep)
      exact ⟨_, rfl⟩

theorem lexFrom_escape (h : lexFrom (.escape q w) (c :: cs) = some ts)
    (hsize : sizes ts = weight w + 2 + weight (c :: cs)) :
    (c = '%' ∨ c = '_') ∧ lexFrom (.quoted q (w ++ ['\\', c])) cs = some ts := by
  obtain ⟨ts₁, s', ts₂, hstep, hlex, rfl⟩ := lexFrom_cons_eq_some_iff.1 h
  obtain ⟨rfl, rfl⟩ := Prod.mk.inj (Option.some.inj hstep)
  by_cases hc : c = '%' ∨ c = '_'
  · rw [unescape, if_pos hc] at hlex
    exact ⟨hc, hlex⟩
  · have hle := sizes_le_of_lexFrom hlex
    have hlt := weight_unescape_lt hc
    simp only [LexState.size, weight_append] at hle
    rw [List.nil_append, weight_cons] at hsize
    omega

/-- If the tokens of the rest of a text, read in a literal, are as long as the text, the rest of the
literal is plain. -/
theorem plain_of_sizes_eq (h : lexFrom (.quoted q w) cs = some ts)
    (hsize : sizes ts = weight w + 1 + weight cs) :
    ∃ v ts', plain q v = true ∧ ts = .str (w ++ v) :: ts' := by
  -- on the length: an escape takes two characters
  induction hn : cs.length using Nat.strongRecOn generalizing cs w ts with
  | _ n ih =>
  cases cs with
  | nil => nomatch h
  | cons c cs =>
    obtain ⟨ts₁, s', ts₂, hstep, hlex, rfl⟩ := lexFrom_cons_eq_some_iff.1 h
    rw [List.length_cons] at hn
    rw [weight_cons] at hsize
    simp only [step] at hstep
    split_ifs at hstep with hq hb
    · obtain ⟨rfl, rfl⟩ := Prod.mk.inj (Option.some.inj hstep)
      have hc := weight_of_ne (hq ▸ q.char_ne_space)
      obtain ⟨ts', rfl⟩ := str_of_closing hlex (by rw [List.nil_append] at hsize; omega)
      exact ⟨[], ts', rfl, by rw [List.append_nil]; rfl⟩
    · obtain ⟨rfl, rfl⟩ := Prod.mk.inj (Option.some.inj hstep)
      have hc := weight_of_ne (show c ≠ ' ' from hb ▸ by decide)
      rw [List.nil_append] at hsize
      cases cs with
      | nil => nomatch hlex
      | cons c' cs =>
        obtain ⟨hkeep, hlex'⟩ := lexFrom_escape hlex (by omega)
        have hc' : weight [c'] = 1 := by
          obtain rfl | rfl := hkeep <;> rfl
        have hw : weight (w ++ ['\\', c']) = weight w + 2 := by
          rw [weight_append, weight_cons, hc']
          rfl
        rw [weight_cons (c := c')] at hsize
        rw [List.length_cons] at hn
        obtain ⟨v, ts', hv, rfl⟩ := ih cs.length (by omega) hlex' (by omega) rfl
        refine ⟨'\\' :: c' :: v, ts', ?_, by simp⟩
        simp [plain, hkeep, hv]
    · obtain ⟨rfl, rfl⟩ := Prod.mk.inj (Option.some.inj hstep)
      rw [List.nil_append] at hsize
      have hw : weight (w ++ [c]) = weight w + weight [c] := weight_append
      obtain ⟨v, ts', hv, rfl⟩ := ih cs.length (by omega) hlex (by omega) rfl
      refine ⟨c :: v, ts', ?_, by simp⟩
      cases v <;> simp [plain, hq, hb, hv]

end Sql
