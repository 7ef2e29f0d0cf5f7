import Mathlib.Data.Int.Notation
import Kalinka.Lib.SqlLexer

/-!
# Database calls

`DB::createQuery` builds the text of a stored procedure call: a `SET` for every parameter, the
`CALL`, and a `SELECT` of the parameters, so that the answer has their values after the call.
`Parameters::add` puts a string between quotes as it is, and nothing escapes it.

`tokenize_createQuery_iff` says for which values the server reads these statements.
-/

namespace Kalinka

open Sql

/-- The name of a procedure or, without the `@`, of a parameter. -/
structure SqlName where
  chars : List Char
  ne_nil : chars ≠ []
  ident : chars.all isIdentChar = true
  deriving DecidableEq

/-- The values that the three `Parameters::add` take. -/
inductive SqlValue
  | null
  | string (param : List Char)
  | int (param : ℤ)
  deriving DecidableEq, Repr

/-- `Parameters`: the keys differ, and begin with `@`. -/
structure Parameters where
  mParams : List (SqlName × SqlValue) := []
  nodup : (mParams.map Prod.fst).Nodup := by decide

def keywordSet : List Char := ['S', 'E', 'T']
def keywordCall : List Char := ['C', 'A', 'L', 'L']
def keywordSelect : List Char := ['S', 'E', 'L', 'E', 'C', 'T']
def keywordNull : List Char := ['N', 'U', 'L', 'L']

/-- A key with its `@`. -/
def SqlName.key (name : SqlName) : List Char := '@' :: name.chars

/-- What `Parameters::add` puts into the list. -/
def SqlValue.text : SqlValue → List Char
  | null => keywordNull
  | string param => '\'' :: param ++ ['\'']
  | int param => (toString param).toList

/-- `SET key = value;` -/
def setText (param : SqlName × SqlValue) : List Char :=
  keywordSet ++ [' '] ++ param.1.key ++ [' ', '=', ' '] ++ param.2.text ++ [';']

/-- The keys with a comma between two of them. -/
def keysText : List (SqlName × SqlValue) → List Char
  | [] => []
  | [param] => param.1.key
  | param :: params => param.1.key ++ [',', ' '] ++ keysText params

def createQuery (query : SqlName) (params : Parameters) : List Char :=
  if params.mParams = [] then keywordCall ++ [' '] ++ query.chars ++ ['(', ')', ';']
  else
    params.mParams.flatMap setText ++
      (keywordCall ++ [' '] ++ query.chars ++ ['('] ++ keysText params.mParams ++ [')', ';']) ++
      (keywordSelect ++ [' '] ++ keysText params.mParams ++ [';'])

/-! ## The statements of a call -/

inductive SqlStatement
  | set (key : SqlName) (value : SqlValue)
  | call (query : SqlName) (keys : List SqlName)
  | select (keys : List SqlName)
  deriving DecidableEq

def SqlName.keyTokens (name : SqlName) : List Token := [.punct '@', .word name.chars]

def keysTokens : List SqlName → List Token
  | [] => []
  | [key] => key.keyTokens
  | key :: keys => key.keyTokens ++ .punct ',' :: keysTokens keys

/-- The literal of a string is one token, that of a negative number two. -/
def SqlValue.tokens : SqlValue → List Token
  | null => [.word keywordNull]
  | string param => [.str param]
  | int param =>
    (if param < 0 then [.punct '-'] else []) ++ [.word (toString param.natAbs).toList]

def SqlStatement.tokens : SqlStatement → List Token
  | set key value =>
    .word keywordSet :: key.keyTokens ++ .punct '=' :: value.tokens ++ [.punct ';']
  | call query keys =>
    .word keywordCall :: .word query.chars :: .punct '(' :: keysTokens keys ++
      [.punct ')', .punct ';']
  | select keys => .word keywordSelect :: keysTokens keys ++ [.punct ';']

/-- What the call consists of: a `SET` for every parameter, a `CALL`, and a `SELECT` if there are
parameters. -/
def statements (query : SqlName) (params : Parameters) : List SqlStatement :=
  let keys := params.mParams.map Prod.fst
  params.mParams.map (fun param => .set param.1 param.2) ++ .call query keys ::
    if params.mParams = [] then [] else [.select keys]

def ParamPlain (param : SqlName × SqlValue) : Prop :=
  ∀ v, param.2 = .string v → plain .single v = true

/-! ## Reading names and values -/

variable {name query : SqlName} {value : SqlValue} {param : SqlName × SqlValue} {c : Char}
variable {ps : List (SqlName × SqlValue)} {w v tail : List Char} {rest : List Token}

theorem isBlank_eq_false (h : isIdentChar c = true) : isBlank c = false := by
  by_contra hblank
  rw [Bool.not_eq_false, isBlank, Bool.or_eq_true, Bool.and_eq_true] at hblank
  simp only [decide_eq_true_eq] at hblank
  obtain rfl | ⟨hle, hge⟩ := hblank
  · exact absurd h (by decide)
  · have hc := Char.ofNat_toNat c
    obtain h9 | h9 | h9 | h9 | h9 : c.toNat = 9 ∨ c.toNat = 10 ∨ c.toNat = 11 ∨ c.toNat = 12 ∨
        c.toNat = 13 := by omega
    all_goals
      rw [h9] at hc
      rw [← hc] at h
      exact absurd h (by decide)

theorem run_word (h : w.all isIdentChar = true) (v : List Char) :
    run (.word v) w = some ([], .word (v ++ w)) := by
  induction w generalizing v with
  | nil => simp [run]
  | cons c w ih =>
    rw [List.all_cons, Bool.and_eq_true] at h
    have hrun := ih h.2 (v ++ [c])
    rw [List.append_assoc, List.singleton_append] at hrun
    exact run_cons_eq_some_iff.2 ⟨[], .word (v ++ [c]), [], if_pos h.1, hrun, rfl⟩

theorem run_start_word (h : w.all isIdentChar = true) (hw : w ≠ []) :
    run .start w = some ([], .word w) := by
  obtain ⟨c, w, rfl⟩ := List.exists_cons_of_ne_nil hw
  rw [List.all_cons, Bool.and_eq_true] at h
  have hbegin : step .start c = some ([], .word [c]) := by
    simp [step, begin, isBlank_eq_false h.1, h.1]
  exact run_cons_eq_some_iff.2 ⟨[], .word [c], [], hbegin, run_word h.2 [c], rfl⟩

/-- A word ends before a character that cannot be in it. -/
theorem run_start_word_end (h : w.all isIdentChar = true) (hw : w ≠ [])
    (hc : isIdentChar c = false) :
    run .start (w ++ [c]) = some (.word w :: (begin c).1, (begin c).2) := by
  have hend : run (.word w) [c] = some (.word w :: (begin c).1, (begin c).2) := by
    simp [run, step, hc, after]
  exact run_append (run_start_word h hw) hend

theorem run_key (name : SqlName) (hc : isIdentChar c = false) :
    run .start (name.key ++ [c]) = some (name.keyTokens ++ (begin c).1, (begin c).2) :=
  run_cons_eq_some_iff.2
    ⟨[.punct '@'], .start, _, rfl, run_start_word_end name.ident name.ne_nil hc, rfl⟩

theorem run_keysText (hps : ps ≠ []) (hc : isIdentChar c = false) :
    run .start (keysText ps ++ [c]) =
      some (keysTokens (ps.map Prod.fst) ++ (begin c).1, (begin c).2) := by
  induction ps with
  | nil => exact absurd rfl hps
  | cons p ps ih =>
    cases ps with
    | nil => exact run_key p.1 hc
    | cons p' ps =>
      have hcomma : run .start (p.1.key ++ [',']) = some (p.1.keyTokens ++ [.punct ','], .start) :=
        run_key p.1 (by decide)
      have hspace : run .start [' '] = some ([], .start) := by decide
      have hall := run_append (run_append hcomma hspace) (ih (by simp))
      simpa [keysText, keysTokens] using hall

theorem run_dash {cs : List Char} {ts : List Token} {s : LexState}
    (h : run .start (c :: cs) = some (ts, s)) (hc : c ≠ '-') :
    run .dash (c :: cs) = some (.punct '-' :: ts, s) := by
  obtain ⟨ts₁, s', ts₂, hstep, hrun, rfl⟩ := run_cons_eq_some_iff.1 h
  obtain ⟨rfl, rfl⟩ := Prod.mk.inj (Option.some.inj hstep)
  exact run_cons_eq_some_iff.2 ⟨.punct '-' :: _, _, ts₂, if_neg hc, hrun, rfl⟩

theorem toString_all_isIdentChar (n : ℕ) : (toString n).toList.all isIdentChar = true := by
  rw [Nat.toString_eq_ofList_toDigits, String.toList_ofList, List.all_eq_true]
  intro c hc
  have hdigit := Nat.isDigit_of_mem_toDigits (by decide) (by decide) hc
  simp [isIdentChar, Char.isAlphanum, hdigit]

theorem toString_toList_ne_nil (n : ℕ) : (toString n).toList ≠ [] := by
  rw [Nat.toString_eq_ofList_toDigits, String.toList_ofList]
  exact Nat.toDigits_ne_nil

theorem run_digits (n : ℕ) :
    run .start ((toString n).toList ++ [';']) =
      some ([.word (toString n).toList, .punct ';'], .start) :=
  run_start_word_end (toString_all_isIdentChar n) (toString_toList_ne_nil n) (by decide)

theorem text_negSucc (n : ℕ) :
    (SqlValue.int (.negSucc n)).text = '-' :: (toString (n + 1)).toList := by
  simp [SqlValue.text, toString, Int.repr]

theorem tokens_negSucc (n : ℕ) :
    (SqlValue.int (.negSucc n)).tokens = [.punct '-', .word (toString (n + 1)).toList] := by
  rw [SqlValue.tokens, if_pos (Int.negSucc_lt_zero n)]
  rfl

theorem run_value (h : ParamPlain (name, value)) :
    run .start (value.text ++ [';']) = some (value.tokens ++ [.punct ';'], .start) := by
  cases value with
  | null => decide
  | string v =>
    have hopen : run .start ['\''] = some ([], .quoted .single []) := by decide
    have hbody := run_quoted_of_plain (h v rfl) []
    have hend : run (.closing .single v) [';'] = some ([.str v, .punct ';'], .start) := by
      simp [run, step, after, begin, Quote.char]
      decide
    simpa [SqlValue.text, SqlValue.tokens, Quote.char] using
      run_append (run_append hopen hbody) hend
  | int n =>
    cases n with
    | ofNat n => exact run_digits n
    | negSucc n =>
      obtain ⟨c, cs, hcs⟩ := List.exists_cons_of_ne_nil (toString_toList_ne_nil (n + 1))
      have hdigits := run_digits (n + 1)
      have hc : c ≠ '-' := by
        rintro rfl
        have hident := toString_all_isIdentChar (n + 1)
        rw [hcs] at hident
        exact absurd hident (by simp [isIdentChar])
      rw [hcs, List.cons_append] at hdigits
      have hdash : step .start '-' = some ([], .dash) := by decide
      have hall := run_cons_eq_some_iff.2 ⟨[], .dash, _, hdash, run_dash hdigits hc, rfl⟩
      rw [text_negSucc, tokens_negSucc, hcs]
      exact hall

/-- The text of a `SET` before its value. -/
theorem run_setText_head (name : SqlName) :
    run .start (keywordSet ++ [' '] ++ name.key ++ [' ', '=', ' ']) =
      some (.word keywordSet :: name.keyTokens ++ [.punct '='], .start) := by
  have hset : run .start (keywordSet ++ [' ']) = some ([.word keywordSet], .start) := by decide
  have heq : run .start ['=', ' '] = some ([.punct '='], .start) := by decide
  have hkey : run .start (name.key ++ [' ']) = some (name.keyTokens ++ [], .start) :=
    run_key name (by decide)
  have hall := run_append (run_append hset hkey) heq
  simp only [List.append_assoc, List.cons_append, List.nil_append, List.append_nil] at hall ⊢
  exact hall

theorem run_setText (h : ParamPlain param) :
    run .start (setText param) = some ((SqlStatement.set param.1 param.2).tokens, .start) := by
  have hall := run_append (run_setText_head param.1) (run_value h)
  simp only [setText, SqlStatement.tokens, List.append_assoc, List.cons_append,
    List.nil_append] at hall ⊢
  exact hall

theorem run_flatMap_setText (h : ∀ p ∈ ps, ParamPlain p) :
    run .start (ps.flatMap setText) =
      some (ps.flatMap fun p => (SqlStatement.set p.1 p.2).tokens, .start) := by
  induction ps with
  | nil => rfl
  | cons p ps ih =>
    obtain ⟨hp, hps⟩ := List.forall_mem_cons.1 h
    exact run_append (run_setText hp) (ih hps)

/-- The text after the `SET`s. -/
def callText (query : SqlName) (ps : List (SqlName × SqlValue)) : List Char :=
  (keywordCall ++ [' '] ++ query.chars ++ ['('] ++ keysText ps ++ [')', ';']) ++
    (keywordSelect ++ [' '] ++ keysText ps ++ [';'])

def callTokens (query : SqlName) (keys : List SqlName) : List Token :=
  (SqlStatement.call query keys).tokens ++ (SqlStatement.select keys).tokens

theorem run_callText (query : SqlName) (hps : ps ≠ []) : run .start (callText query ps) =
    some (callTokens query (ps.map Prod.fst), .start) := by
  have hcall : run .start (keywordCall ++ [' ']) = some ([.word keywordCall], .start) := by
    decide
  have hquery : run .start (query.chars ++ ['(']) =
      some ([.word query.chars, .punct '('], .start) :=
    run_start_word_end query.ident query.ne_nil (by decide)
  have hkeys : run .start (keysText ps ++ [')']) =
      some (keysTokens (ps.map Prod.fst) ++ [.punct ')'], .start) :=
    run_keysText hps (by decide)
  have hend : run .start [';'] = some ([.punct ';'], .start) := by decide
  have hselect : run .start (keywordSelect ++ [' ']) = some ([.word keywordSelect], .start) := by
    decide
  have hkeys' : run .start (keysText ps ++ [';']) =
      some (keysTokens (ps.map Prod.fst) ++ [.punct ';'], .start) :=
    run_keysText hps (by decide)
  have hall := run_append (run_append (run_append (run_append hcall hquery) hkeys) hend)
    (run_append hselect hkeys')
  have htext : callText query ps =
      keywordCall ++ [' '] ++ (query.chars ++ ['(']) ++ (keysText ps ++ [')']) ++ [';'] ++
        (keywordSelect ++ [' '] ++ (keysText ps ++ [';'])) := by
    simp only [callText, List.append_assoc, List.cons_append, List.nil_append]
  have htokens : callTokens query (ps.map Prod.fst) =
      [.word keywordCall] ++ [.word query.chars, .punct '('] ++
        (keysTokens (ps.map Prod.fst) ++ [.punct ')']) ++ [.punct ';'] ++
        ([.word keywordSelect] ++ (keysTokens (ps.map Prod.fst) ++ [.punct ';'])) := by
    simp only [callTokens, SqlStatement.tokens, List.append_assoc, List.cons_append,
      List.nil_append]
  rw [htext, htokens]
  exact hall

/-! ## The length of the text -/

theorem weight_key (name : SqlName) : weight name.key = sizes name.keyTokens := by
  rw [SqlName.key, weight_cons]
  rfl

theorem weight_keysText (ps : List (SqlName × SqlValue)) :
    weight (keysText ps) = sizes (keysTokens (ps.map Prod.fst)) := by
  induction ps with
  | nil => rfl
  | cons p ps ih =>
    cases ps with
    | nil => exact weight_key p.1
    | cons p' ps =>
      have hcomma : weight [',', ' '] = 1 := by decide
      show weight (p.1.key ++ [',', ' '] ++ keysText (p' :: ps)) = sizes (p.1.keyTokens ++
        .punct ',' :: keysTokens ((p' :: ps).map Prod.fst))
      rw [weight_append, weight_append, ih, weight_key, hcomma, sizes_append, sizes]
      show _ = _ + (1 + _)
      omega

theorem weight_value (value : SqlValue) : weight value.text = sizes value.tokens := by
  cases value with
  | null => decide
  | string v =>
    show weight ('\'' :: (v ++ ['\''])) = weight v + 2 + 0
    rw [weight_cons, weight_append]
    show 1 + (weight v + 1) = _
    omega
  | int n =>
    cases n with
    | ofNat n => rfl
    | negSucc n =>
      rw [text_negSucc, tokens_negSucc, weight_cons]
      rfl

theorem weight_setText (param : SqlName × SqlValue) :
    weight (setText param) = sizes (SqlStatement.set param.1 param.2).tokens := by
  have hset : weight keywordSet = 3 := by decide
  have hspace : weight [' '] = 0 := by decide
  have heq : weight [' ', '=', ' '] = 1 := by decide
  have hend : weight [';'] = 1 := by decide
  simp only [setText, weight_append, hset, hspace, heq, hend, weight_key, weight_value,
    SqlStatement.tokens, List.cons_append, sizes, sizes_append, Token.size]
  omega

theorem weight_flatMap_setText (ps : List (SqlName × SqlValue)) :
    weight (ps.flatMap setText) =
      sizes (ps.flatMap fun p => (SqlStatement.set p.1 p.2).tokens) := by
  induction ps with
  | nil => rfl
  | cons p ps ih =>
    rw [List.flatMap_cons, List.flatMap_cons, weight_append, sizes_append, ih, weight_setText]

theorem weight_callText (query : SqlName) (ps : List (SqlName × SqlValue)) :
    weight (callText query ps) = sizes (callTokens query (ps.map Prod.fst)) := by
  have hcall : weight keywordCall = 4 := by decide
  have hselect : weight keywordSelect = 6 := by decide
  have hspace : weight [' '] = 0 := by decide
  have hopen : weight ['('] = 1 := by decide
  have hclose : weight [')', ';'] = 2 := by decide
  have hend : weight [';'] = 1 := by decide
  simp only [callText, weight_append, hcall, hselect, hspace, hopen, hclose, hend, weight_keysText,
    callTokens, SqlStatement.tokens, List.cons_append, sizes, sizes_append, Token.size]
  omega

/-! ## When the server reads the statements -/

theorem createQuery_of_ne_nil {params : Parameters} (h : params.mParams ≠ []) :
    createQuery query params = params.mParams.flatMap setText ++ callText query params.mParams := by
  rw [createQuery, if_neg h, List.append_assoc]
  rfl

theorem statements_of_ne_nil {params : Parameters} (h : params.mParams ≠ []) :
    (statements query params).flatMap SqlStatement.tokens =
      (params.mParams.flatMap fun p => (SqlStatement.set p.1 p.2).tokens) ++
        callTokens query (params.mParams.map Prod.fst) := by
  simp only [statements, if_neg h, List.flatMap_append, List.flatMap_map, List.flatMap_cons,
    List.flatMap_nil, List.append_nil, callTokens]

/-- Every literal that is read right is plain: the first one, and then the others. -/
theorem paramPlain_of_lexFrom
    (h : lexFrom .start (ps.flatMap setText ++ tail) =
      some ((ps.flatMap fun p => (SqlStatement.set p.1 p.2).tokens) ++ rest))
    (hsize : sizes rest = weight tail) : ∀ p ∈ ps, ParamPlain p := by
  induction ps with
  | nil => exact nofun
  | cons p ps ih =>
    have hsizes : sizes ((ps.flatMap fun p => (SqlStatement.set p.1 p.2).tokens) ++ rest) =
        weight (ps.flatMap setText ++ tail) := by
      rw [sizes_append, weight_append, hsize, weight_flatMap_setText]
    rw [List.flatMap_cons, List.flatMap_cons, List.append_assoc, List.append_assoc] at h
    have hp : ParamPlain p := by
      rintro v hv
      have hhead := run_append (run_setText_head p.1)
        (show run .start ['\''] = some ([], .quoted .single []) by decide)
      have htext : setText p ++ (ps.flatMap setText ++ tail) =
          keywordSet ++ [' '] ++ p.1.key ++ [' ', '=', ' '] ++ ['\''] ++
            (v ++ ['\'', ';'] ++ (ps.flatMap setText ++ tail)) := by
        simp only [setText, hv, SqlValue.text, List.append_assoc, List.cons_append, List.nil_append]
      rw [htext] at h
      obtain ⟨ts, hlex, hts⟩ := (lexFrom_append hhead).1 h
      have hts' : ts = .str v :: .punct ';' ::
          ((ps.flatMap fun p => (SqlStatement.set p.1 p.2).tokens) ++ rest) := by
        refine List.append_cancel_left (hts.symm.trans ?_)
        simp only [hv, SqlStatement.tokens, SqlValue.tokens, List.append_assoc, List.cons_append,
          List.nil_append, List.append_nil]
      have hend : weight ['\'', ';'] = 2 := by decide
      have hstr : sizes ts = weight ([] : List Char) + 1 +
          weight (v ++ ['\'', ';'] ++ (ps.flatMap setText ++ tail)) := by
        simp only [hts', sizes, hsizes, weight_append, hend, Token.size, weight_nil]
        omega
      obtain ⟨v', ts', hplain, heq⟩ := plain_of_sizes_eq hlex hstr
      rw [hts'] at heq
      have hvv : v = v' := by simpa using (List.cons.inj heq).1
      exact hvv ▸ hplain
    have hrest : lexFrom .start (ps.flatMap setText ++ tail) =
        some ((ps.flatMap fun p => (SqlStatement.set p.1 p.2).tokens) ++ rest) := by
      obtain ⟨ts, hlex, hts⟩ := (lexFrom_append (run_setText hp)).1 h
      rw [List.append_cancel_left hts]
      exact hlex
    exact List.forall_mem_cons.2 ⟨hp, ih hrest⟩

theorem joinLiterals_keysTokens (keys : List SqlName) (rest : List Token) :
    joinLiterals (keysTokens keys ++ rest) = keysTokens keys ++ joinLiterals rest := by
  induction keys with
  | nil => rfl
  | cons key keys ih =>
    cases keys with
    | nil => rfl
    | cons key' keys => exact congrArg (key.keyTokens ++ Token.punct ',' :: ·) ih

/-- No two literals are next to each other in the statements. -/
theorem joinLiterals_set (name : SqlName) (value : SqlValue) (rest : List Token) :
    joinLiterals ((SqlStatement.set name value).tokens ++ rest) =
      (SqlStatement.set name value).tokens ++ joinLiterals rest := by
  cases value with
  | null => rfl
  | string v => rfl
  | int n =>
    cases n with
    | ofNat n => rfl
    | negSucc n =>
      simp only [SqlStatement.tokens, tokens_negSucc, SqlName.keyTokens, List.cons_append,
        List.nil_append, joinLiterals]

theorem joinLiterals_flatMap_set (ps : List (SqlName × SqlValue)) (rest : List Token) :
    joinLiterals ((ps.flatMap fun p => (SqlStatement.set p.1 p.2).tokens) ++ rest) =
      (ps.flatMap fun p => (SqlStatement.set p.1 p.2).tokens) ++ joinLiterals rest := by
  induction ps with
  | nil => rfl
  | cons p ps ih =>
    rw [List.flatMap_cons, List.append_assoc, List.append_assoc, joinLiterals_set, ih]

theorem joinLiterals_callTokens (query : SqlName) (keys : List SqlName) :
    joinLiterals (callTokens query keys) = callTokens query keys := by
  have hselect : joinLiterals (SqlStatement.select keys).tokens =
      (SqlStatement.select keys).tokens :=
    congrArg (Token.word keywordSelect :: ·) (joinLiterals_keysTokens keys [.punct ';'])
  have hcall : callTokens query keys = .word keywordCall :: .word query.chars :: .punct '(' ::
      (keysTokens keys ++ .punct ')' :: .punct ';' :: (SqlStatement.select keys).tokens) := by
    simp only [callTokens, SqlStatement.tokens, List.append_assoc, List.cons_append,
      List.nil_append]
  rw [hcall]
  simp only [joinLiterals, joinLiterals_keysTokens, hselect]

/-- The server reads the text of a call as its statements, each literal with the value of its
parameter, exactly if no string has a quote in it, or a backslash that is not before `%` or `_`. -/
theorem tokenize_createQuery_iff (query : SqlName) (params : Parameters) :
    tokenize (createQuery query params) =
        some ((statements query params).flatMap SqlStatement.tokens) ↔
      ∀ param ∈ params.mParams, ∀ v, param.2 = .string v → plain .single v = true := by
  by_cases h : params.mParams = []
  · refine iff_of_true ?_ (h ▸ nofun)
    have hcall : run .start (keywordCall ++ [' ']) = some ([.word keywordCall], .start) := by decide
    have hquery : run .start (query.chars ++ ['(']) =
        some ([.word query.chars, .punct '('], .start) :=
      run_start_word_end query.ident query.ne_nil (by decide)
    have hend : lexFrom .start [')', ';'] = some [.punct ')', .punct ';'] := by decide
    have hlex := (lexFrom_append (run_append hcall hquery)).2 ⟨_, hend, rfl⟩
    simp only [createQuery, statements, h, if_true, List.map_nil, List.nil_append,
      List.flatMap_cons, List.flatMap_nil, List.append_nil]
    rw [tokenize, show keywordCall ++ [' '] ++ query.chars ++ ['(', ')', ';'] =
      keywordCall ++ [' '] ++ (query.chars ++ ['(']) ++ [')', ';'] by simp, hlex]
    rfl
  · rw [createQuery_of_ne_nil h, statements_of_ne_nil h]
    constructor
    · intro htokens
      have hsize := lexFrom_of_tokenize htokens
        (by rw [sizes_append, weight_append, weight_flatMap_setText, weight_callText])
      exact paramPlain_of_lexFrom hsize (weight_callText query params.mParams).symm
    · intro hplain
      have hlex := lexFrom_of_run (run_append (run_flatMap_setText hplain) (run_callText query h))
      rw [tokenize, hlex, Option.map_some, joinLiterals_flatMap_set, joinLiterals_callTokens]

/-- The name of a channel ends the literal, adds a statement of its own and makes a comment of the
call. -/
theorem createQuery_runs_value :
    let query : SqlName := ⟨['p'], by decide, by decide⟩
    let key : SqlName := ⟨['n'], by decide, by decide⟩
    let params : Parameters :=
      { mParams := [(key, .string ['a', '\'', ';', 'D', 'R', 'O', 'P', ' ', 'x', ';', '#'])] }
    tokenize (createQuery query params) =
        some ((SqlStatement.set key (.string ['a'])).tokens ++
          [.word ['D', 'R', 'O', 'P'], .word ['x'], .punct ';']) ∧
      tokenize (createQuery query params) ≠
        some ((statements query params).flatMap SqlStatement.tokens) :=
  ⟨by decide, by decide⟩

/-- A name with an apostrophe leaves the last literal open. -/
example : tokenize (createQuery ⟨['p'], by decide, by decide⟩
    { mParams := [(⟨['n'], by decide, by decide⟩, .string ['i', 't', '\'', 's'])] }) = none := by
  decide

end Kalinka
