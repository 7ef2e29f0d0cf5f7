import Kalinka.Common.Utils

/-!
# The address of the database

`DBInfo::setDBAddr` takes `user:password@host:port/name/` apart with `sscanf`, and sets the parts
that it finds.
-/

namespace Kalinka

open Utils

/-! ## Conversions of `sscanf` -/

namespace Scanf

/-- `isspace` -/
def isSpace (c : Char) : Bool := c ∈ [' ', '\t', '\n', '\x0b', '\x0c', '\r']

/-- `%s` -/
def string (s : List Char) : Option (List Char) :=
  match (s.dropWhile isSpace).takeWhile (!isSpace ·) with
  | [] => none
  | b => some b

/-- `%d`, before it is stored. -/
def int (s : List Char) : Option ℤ :=
  match s.dropWhile isSpace with
  | '+' :: ds => Decimal.digits? (ds.takeWhile Char.isDigit)
  | '-' :: ds => (Decimal.digits? (ds.takeWhile Char.isDigit)).map (- ·)
  | ds => Decimal.digits? (ds.takeWhile Char.isDigit)

/-- `%[^c]c%s` and `%[^c]c%d`: `none` if nothing is converted, else the text up to the separator `c`
and what the second conversion makes of the text behind it. -/
def pair {β : Type} (second : List Char → Option β) (c : Char) (s : List Char) :
    Option (List Char × Option β) :=
  match s.takeWhile (· ≠ c) with
  | [] => none
  | a => some (a, second ((s.dropWhile (· ≠ c)).drop 1))

variable {β : Type} {second : List Char → Option β} {c : Char} {l w : List Char}

theorem pair_append (hw : w ≠ []) (hc : c ∉ w) (l : List Char) :
    pair second c (w ++ c :: l) = some (w, second l) := by
  have hall : ∀ a ∈ w, decide (a ≠ c) = true := fun a ha =>
    decide_eq_true (ne_of_mem_of_not_mem ha hc)
  have htake : (w ++ c :: l).takeWhile (· ≠ c) = w := by
    rw [List.takeWhile_append_of_pos hall]
    simp
  have hdrop : (w ++ c :: l).dropWhile (· ≠ c) = c :: l := by
    rw [List.dropWhile_append_of_pos hall]
    simp
  rw [pair, htake, hdrop]
  cases w with
  | nil => exact absurd rfl hw
  | cons a w => rfl

theorem pair_of_notMem (hw : w ≠ []) (hc : c ∉ w) : pair second c w = some (w, second []) := by
  have hall : ∀ a ∈ w, decide (a ≠ c) = true := fun a ha =>
    decide_eq_true (ne_of_mem_of_not_mem ha hc)
  rw [pair, List.takeWhile_eq_self_iff.2 hall, List.dropWhile_eq_nil_iff.2 hall]
  cases w with
  | nil => exact absurd rfl hw
  | cons a w => rfl

theorem string_append (hw : w ≠ []) (h : ∀ a ∈ w, isSpace a = false) (l : List Char) :
    string (w ++ l) = some (w ++ l.takeWhile (!isSpace ·)) := by
  have hall : ∀ a ∈ w, (!isSpace a) = true := fun a ha => by rw [h a ha]; rfl
  have hdrop : (w ++ l).dropWhile isSpace = w ++ l := by
    cases w with
    | nil => exact absurd rfl hw
    | cons a w => simp [h a List.mem_cons_self]
  rw [string, hdrop, List.takeWhile_append_of_pos hall]
  cases w with
  | nil => exact absurd rfl hw
  | cons a w => rfl

theorem string_eq_self (hw : w ≠ []) (h : ∀ a ∈ w, isSpace a = false) : string w = some w := by
  simpa using string_append hw h []

/-- A number that begins with a digit. -/
theorem int_of_isDigit (hc : c.isDigit) (l : List Char) :
    int (c :: l) = some (Decimal.value ((c :: l).takeWhile Char.isDigit) : ℤ) := by
  have hspace : isSpace c = false := by
    apply Bool.eq_false_iff.2
    intro hmem
    have hcases : c ∈ [' ', '\t', '\n', '\x0b', '\x0c', '\r'] := of_decide_eq_true hmem
    simp only [List.mem_cons, List.not_mem_nil, or_false] at hcases
    obtain rfl | rfl | rfl | rfl | rfl | rfl := hcases <;> exact absurd hc (by decide)
  have hdigits : Decimal.IsDigits ((c :: l).takeWhile Char.isDigit) := by
    refine ⟨?_, fun a ha => List.mem_takeWhile_imp ha⟩
    rw [List.takeWhile_cons_of_pos hc]
    exact List.cons_ne_nil _ _
  rw [int, List.dropWhile_cons_of_neg (by simp [hspace])]
  split
  next heq =>
    cases heq
    exact absurd hc (by decide)
  next heq =>
    cases heq
    exact absurd hc (by decide)
  next => exact if_pos hdigits

end Scanf

/-! ## `DBInfo` -/

structure DBInfo where
  host : List Char
  dbname : List Char
  user : List Char
  pwd : List Char
  port : ℕ
  deriving DecidableEq, Repr

namespace DBInfo

/-- What a long converted by `%d` leaves in `m_port`, an `u_int`: `strtol` stops at the ends of a
long. -/
def toPort (n : ℤ) : ℕ := (max (-2 ^ 63) (min n (2 ^ 63 - 1)) % 2 ^ 32).toNat

/-- `strrchr(dbname, '/')` and the terminator written there. -/
def cutLast (dbname : List Char) : List Char :=
  if '/' ∈ dbname then (dbname.rdropWhile (· ≠ '/')).dropLast else dbname

/-- What `setDBAddr` finds in the text: an empty text is not set, and no port if there is none. -/
structure Parts where
  dbname : List Char := []
  dbuser : List Char := []
  dbpwd : List Char := []
  dbhost : List Char := []
  port : Option ℤ := none

/-- The host and the port. -/
def scanHost (hostname : List Char) (parts : Parts) : Parts :=
  match Scanf.pair Scanf.int ':' hostname with
  | none => parts
  | some (dbhost, port) => { parts with dbhost := dbhost, port := port }

/-- The user, with the host and the port behind it; without `@`, all is the host. -/
def scanHostInfo (hostinfo : List Char) (parts : Parts) : Parts :=
  match Scanf.pair Scanf.string '@' hostinfo with
  | none => parts
  | some (auth, none) => scanHost auth parts
  | some (auth, some hostname) =>
    match Scanf.pair Scanf.string ':' auth with
    | none => scanHost hostname parts
    | some (dbuser, dbpwd) =>
      scanHost hostname { parts with dbuser := dbuser, dbpwd := dbpwd.getD [] }

/-- The switches of `setDBAddr`. -/
def scan (opt : List Char) : Parts :=
  match Scanf.pair Scanf.string '/' (cString opt) with
  | none => {}
  | some (hostinfo, none) => scanHostInfo hostinfo {}
  | some (hostinfo, some dbname) => scanHostInfo hostinfo { dbname := cutLast dbname }

/-- An empty text leaves the member as it is. -/
def assign (member text : List Char) : List Char := if text = [] then member else trim text

/-- `setDBAddr` behind its assertion. -/
def setDBAddr (info : DBInfo) (opt : List Char) : DBInfo :=
  let parts := scan opt
  { host := assign info.host parts.dbhost
    dbname := assign info.dbname parts.dbname
    user := assign info.user parts.dbuser
    pwd := assign info.pwd parts.dbpwd
    port := (parts.port.map toPort).getD info.port }

theorem cutLast_of_notMem {d : List Char} (h : '/' ∉ d) : cutLast d = d := if_neg h

theorem cutLast_append {d t : List Char} (ht : '/' ∉ t) : cutLast (d ++ '/' :: t) = d := by
  have hall : ∀ a ∈ t, decide (a ≠ '/') = true := fun a ha =>
    decide_eq_true (ne_of_mem_of_not_mem ha ht)
  have hcut : (d ++ '/' :: t).rdropWhile (· ≠ '/') = d ++ ['/'] := by
    rw [List.append_cons, Text.rdropWhile_append_of_forall hall,
      List.rdropWhile_concat_neg _ _ _ (by simp)]
  rw [cutLast, if_pos (by simp), hcut, List.dropLast_concat]

theorem assign_eq {member text : List Char} (hne : text ≠ []) (h : Text.Trimmed isGarbage text) :
    assign member text = text := by
  rw [assign, if_neg hne]
  exact Text.trim_eq_self h

theorem toPort_natCast {n : ℕ} (h : n < 2 ^ 32) : toPort n = n := by
  unfold toPort
  omega

end DBInfo

end Kalinka
