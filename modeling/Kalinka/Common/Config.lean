import Mathlib.Data.Fintype.Defs
import Mathlib.Logic.Function.Basic
import Kalinka.Common.DBInfo

/-!
# The configuration

`Config` has four options.  `save` writes them to a file, each on a line of its own below a comment,
and `load` reads such a file line by line: the first option whose name the line begins with takes
the rest of the line, and its processor sets it up.
-/

namespace Kalinka

open Utils

/-! ## The options -/

/-- The options of `fillOptionList`. -/
inductive OptionName
  | dbaddr
  | hostname
  | snmpreceiver
  | snmpcommunity
  deriving DecidableEq, Repr

namespace OptionName

/-- The order of `m_options`. -/
def all : List OptionName := [.dbaddr, .hostname, .snmpreceiver, .snmpcommunity]

def getName : OptionName → List Char
  | .dbaddr => "Database".toList
  | .hostname => "HostName".toList
  | .snmpreceiver => "SNMPReceiver".toList
  | .snmpcommunity => "SNMPCommunity".toList

def getSummary : OptionName → List Char
  | .dbaddr => "Database connection setup".toList
  | .hostname => "Sets mediaserver host name".toList
  | .snmpreceiver => "Sets SNMP trap receiver address".toList
  | .snmpcommunity => "Sets SNMP trap community name".toList

def getDescription : OptionName → List Char
  | .dbaddr => "Usage :\n       DBUser[:DBPass]@]DBHost[:DBPort]]/DBName/".toList
  | .hostname => "Format :\n       string".toList
  | .snmpreceiver => "Format :\n       addr[:port]".toList
  | .snmpcommunity => "Format :\n       string".toList

def defvalue : OptionName → List Char
  | .dbaddr => "test:test@localhost/kalinka".toList
  | .hostname => "testserver".toList
  | .snmpreceiver => "localhost".toList
  | .snmpcommunity => "public".toList

end OptionName

/-! ## The state -/

structure SNMPInfo where
  receiver : List Char
  community : List Char
  port : ℤ
  deriving DecidableEq, Repr

structure Config where
  hostname : List Char
  dbinfo : DBInfo
  snmpinfo : SNMPInfo
  /-- `m_value` of the options -/
  value : OptionName → List Char

namespace Config

/-- `SNMP_TRAP_PORT` -/
def snmpTrapPort : ℤ := 162

/-- A new object, with the options that `fillOptionList` gives it. -/
def new : Config where
  hostname := []
  dbinfo := ⟨[], [], [], [], 0⟩
  snmpinfo := ⟨"localhost".toList, "public".toList, snmpTrapPort⟩
  value := OptionName.defvalue

/-! ## Setting an option -/

/-- What `setReceiver` takes for the port: `none` if it throws. -/
def receiverPort (receiver : List Char) : Option ℤ :=
  if ':' ∈ receiver then lexicalCastInt ((receiver.dropWhile (· ≠ ':')).drop 1)
  else some snmpTrapPort

/-- The processor of an option, behind the assertion that there is a value. -/
def process (c : Config) (option : OptionName) (value : List Char) : Except String Config :=
  match option with
  | .dbaddr => .ok { c with dbinfo := c.dbinfo.setDBAddr value }
  | .hostname => .ok { c with hostname := value }
  | .snmpreceiver =>
    match receiverPort value with
    | some port => .ok { c with snmpinfo := { c.snmpinfo with receiver := value, port := port } }
    | none => .error ("Could not get port from '" ++ String.ofList value ++
        "'. Default value will be used")
  | .snmpcommunity => .ok { c with snmpinfo := { c.snmpinfo with community := value } }

/-- `Option::setValue`.  A processor that throws is called again with the value before. -/
def setValue (c : Config) (option : OptionName) (value : List Char) : Except String Config :=
  if value = [] then .error "Failed assertion 'value.empty() == false' at setValue"
  else
    match c.process option value with
    | .ok c' => .ok { c' with value := Function.update c'.value option value }
    | .error err => .error ("Failed to set option '" ++ String.ofList option.getName ++ "' to '" ++
        String.ofList value ++ "': " ++ err)

/-! ## Loading -/

/-- `IsOptionMatch`: `strncasecmp` of the name and the beginning of the line. -/
def isOptionMatch (line name : List Char) : Bool :=
  (line.take name.length).map Char.toLower = name.map Char.toLower

/-- `setOptionValue`; what belongs to no option is logged. -/
def setOptionValue (c : Config) (line : List Char) : Except String Config :=
  match OptionName.all.find? fun option => isOptionMatch line option.getName with
  | none => .ok c
  | some option => c.setValue option (trim (line.drop option.getName.length))

/-- `load`, by the text of the file; `gethostname` is what the system says. -/
def load (c : Config) (file gethostname : List Char) : Except String Config := do
  let c ← (getConfig file).foldlM setOptionValue c
  return if c.hostname = [] then { c with hostname := gethostname } else c

/-! ## Saving -/

/-- What `getCurrentTime("%Y-%m-%d %H:%M:%S")` gives, with a year of four digits. -/
structure CurrentTime where
  text : List Char
  length_eq : text.length = 19
  newline_notMem : '\n' ∉ text

def saveHeader (now : CurrentTime) : List Char :=
  "#\n".toList ++ "# Kalinka configuration file\n".toList ++
    ("# Automatically generated at ".toList ++ now.text ++ "\n#\n\n".toList)

def saveOption (c : Config) (option : OptionName) : List Char :=
  "#\n".toList ++ ("# ".toList ++ option.getSummary ++ "\n".toList) ++
    ("# ".toList ++ replaceAll option.getDescription '\n' "\n#".toList ++ "\n".toList) ++
    "#\n".toList ++ (option.getName ++ "   ".toList ++ c.value option) ++ "\n\n".toList

/-- `save`, by the text that it writes. -/
def save (c : Config) (now : CurrentTime) : List Char :=
  saveHeader now ++ OptionName.all.flatMap c.saveOption

variable {c c₀ c₁ c' : Config} {o o' : OptionName} {v n line rest : List Char}

/-! ## Setting a value -/

/-- A processor sets up its own part of the configuration. -/
theorem process_frame (h : c.process o v = .ok c') : c'.value = c.value ∧
    (o ≠ .dbaddr → c'.dbinfo = c.dbinfo) ∧ (o ≠ .hostname → c'.hostname = c.hostname) := by
  cases o with
  | dbaddr =>
    cases h
    exact ⟨rfl, fun ho => absurd rfl ho, fun _ => rfl⟩
  | hostname =>
    cases h
    exact ⟨rfl, fun _ => rfl, fun ho => absurd rfl ho⟩
  | snmpreceiver =>
    unfold process at h
    cases hport : receiverPort v with
    | none => simp [hport] at h
    | some port =>
      simp only [hport, Except.ok.injEq] at h
      rw [← h]
      exact ⟨rfl, fun _ => rfl, fun _ => rfl⟩
  | snmpcommunity =>
    cases h
    exact ⟨rfl, fun _ => rfl, fun _ => rfl⟩

/-- Whether a value is taken does not depend on the values before. -/
theorem exists_process (h : c.process o v = .ok c') (c₀ : Config) :
    ∃ c₁, c₀.process o v = .ok c₁ := by
  cases o with
  | dbaddr => exact ⟨_, rfl⟩
  | hostname => exact ⟨_, rfl⟩
  | snmpreceiver =>
    unfold process at h ⊢
    cases hport : receiverPort v with
    | none => simp [hport] at h
    | some port => exact ⟨_, rfl⟩
  | snmpcommunity => exact ⟨_, rfl⟩

theorem setValue_eq_ok_iff : c.setValue o v = .ok c' ↔
    v ≠ [] ∧ ∃ c₁, c.process o v = .ok c₁ ∧
      c' = { c₁ with value := Function.update c.value o v } := by
  unfold setValue
  by_cases hv : v = []
  · rw [if_pos hv]
    exact iff_of_false nofun fun h => h.1 hv
  rw [if_neg hv, and_iff_right hv]
  cases hprocess : c.process o v with
  | error e => exact iff_of_false nofun fun ⟨_, h, _⟩ => nomatch h
  | ok c₁ =>
    rw [← (process_frame hprocess).1]
    constructor
    · intro h
      exact ⟨c₁, rfl, (Except.ok.inj h).symm⟩
    · rintro ⟨_, heq, rfl⟩
      cases heq
      rfl

theorem value_setValue (h : c.setValue o v = .ok c') : c'.value = Function.update c.value o v := by
  obtain ⟨-, c₁, -, rfl⟩ := setValue_eq_ok_iff.1 h
  rfl

theorem exists_setValue (h : c.setValue o v = .ok c') (c₀ : Config) :
    ∃ c₁, c₀.setValue o v = .ok c₁ := by
  obtain ⟨hv, c₁, hprocess, -⟩ := setValue_eq_ok_iff.1 h
  obtain ⟨c₂, hprocess₂⟩ := exists_process hprocess c₀
  exact ⟨_, setValue_eq_ok_iff.2 ⟨hv, c₂, hprocess₂, rfl⟩⟩

/-! ## The line of an option -/

/-- A character of a name in any case: no garbage, and no end of a text. -/
def NameChar (c : Char) : Prop :=
  isGarbage c = false ∧ c ≠ '\n' ∧ c ≠ '\x00' ∧ c ≠ '#'

instance (c : Char) : Decidable (NameChar c) := inferInstanceAs (Decidable (_ ∧ _))

theorem nameChar_of_toLower {a : Char} (h : NameChar a.toLower) : NameChar a := by
  have hgarbage : isGarbage a = false := by
    apply Bool.eq_false_iff.2
    intro hmem
    have hcases : a ∈ [' ', '\r', '\n', '\t'] := of_decide_eq_true hmem
    simp only [List.mem_cons, List.not_mem_nil, or_false] at hcases
    obtain rfl | rfl | rfl | rfl := hcases <;> exact absurd h (by decide)
  refine ⟨hgarbage, ?_, ?_, ?_⟩ <;> rintro rfl <;> exact absurd h (by decide)

/-- The name of the option, in any case. -/
def IsName (o : OptionName) (n : List Char) : Prop :=
  n.map Char.toLower = o.getName.map Char.toLower

theorem isName_getName (o : OptionName) : IsName o o.getName := rfl

theorem IsName.length_eq (h : IsName o n) : n.length = o.getName.length := by
  simpa using congrArg List.length h

theorem IsName.nameChar (h : IsName o n) : ∀ a ∈ n, NameChar a := by
  intro a ha
  have hall : ∀ b ∈ o.getName.map Char.toLower, NameChar b := by cases o <;> decide
  exact nameChar_of_toLower (hall _ (h ▸ List.mem_map_of_mem ha))

theorem IsName.ne_nil (h : IsName o n) : n ≠ [] := by
  rintro rfl
  have hnil := h.length_eq
  cases o <;> cases hnil

/-- Five characters tell the names apart. -/
theorem eq_of_take_getName
    (h : (o.getName.take 5).map Char.toLower = (o'.getName.take 5).map Char.toLower) : o = o' := by
  revert h
  cases o <;> cases o' <;> decide

theorem five_le_length_getName (o : OptionName) : 5 ≤ o.getName.length := by
  cases o <;> decide

theorem length_getName_le (o : OptionName) : o.getName.length ≤ 13 := by
  cases o <;> decide

theorem IsName.isOptionMatch_append (h : IsName o n) (u : List Char) :
    isOptionMatch (n ++ u) o'.getName ↔ o' = o := by
  rw [isOptionMatch, decide_eq_true_iff]
  constructor
  · intro hmatch
    have h5 := congrArg (List.take 5) hmatch
    rw [← List.map_take, ← List.map_take, List.take_take,
      Nat.min_eq_left (five_le_length_getName o'),
      List.take_append_of_le_length (h.length_eq ▸ five_le_length_getName o), List.map_take, h,
      ← List.map_take] at h5
    exact (eq_of_take_getName h5).symm
  · rintro rfl
    rw [← h.length_eq, List.take_left]
    exact h

/-- The option takes what is behind its name. -/
theorem IsName.setOptionValue_append (h : IsName o n) (c : Config) (u : List Char) :
    c.setOptionValue (n ++ u) = c.setValue o (trim u) := by
  have hmatch : (fun option => isOptionMatch (n ++ u) option.getName) =
      fun option => decide (option = o) := by
    funext option
    rw [Bool.eq_iff_iff, h.isOptionMatch_append, decide_eq_true_iff]
  have hfind : OptionName.all.find? (fun option => decide (option = o)) = some o := by
    cases o <;> rfl
  rw [setOptionValue, hmatch, hfind]
  show c.setValue o (trim ((n ++ u).drop o.getName.length)) = _
  rw [← h.length_eq, List.drop_left]

/-- The line begins with garbage and the name of the option; `rest` is behind that. -/
def HasRest (o : OptionName) (line rest : List Char) : Prop :=
  ∃ before n, line = before ++ (n ++ rest) ∧ (∀ a ∈ before, isGarbage a) ∧ IsName o n

theorem cleanLine_of_hasRest (h : HasRest o line rest) :
    ∃ n, IsName o n ∧ cleanLine line = n ++ (uncomment rest).rdropWhile isGarbage := by
  obtain ⟨before, n, rfl, hbefore, hn⟩ := h
  refine ⟨n, hn, ?_⟩
  have hgarbage : ∀ a ∈ before, a ≠ '\x00' ∧ a ≠ '#' := by
    intro a ha
    constructor <;> rintro rfl <;> exact absurd (hbefore _ ha) (by decide)
  have hname : ∀ a ∈ n, a ≠ '\x00' ∧ a ≠ '#' := fun a ha => (hn.nameChar a ha).2.2
  rw [cleanLine, uncomment_append hgarbage, uncomment_append hname, trim,
    Text.trim_append_of_forall hbefore]
  exact Text.trim_append hn.ne_nil (.of_forall fun a ha => (hn.nameChar a ha).1)

theorem cleanLine_ne_nil_of_hasRest (h : HasRest o line rest) : cleanLine line ≠ [] := by
  obtain ⟨n, hn, heq⟩ := cleanLine_of_hasRest h
  exact heq ▸ List.append_ne_nil_of_left_ne_nil hn.ne_nil _

/-- What `load` makes of a line that begins with the name of an option. -/
theorem setOptionValue_of_hasRest (h : HasRest o line rest) (c : Config) :
    c.setOptionValue (cleanLine line) = c.setValue o (cleanLine rest) := by
  obtain ⟨n, hn, heq⟩ := cleanLine_of_hasRest h
  rw [heq, hn.setOptionValue_append, trim, Text.trim_rdropWhile]
  rfl

end Config

end Kalinka
