import Kalinka.Common.Utils

/-!
# The configuration in Python

`config.py` reads the same file for the management tools: the host name, and the address of the
database.  It goes by regular expressions, each searched for from the left.
-/

namespace Kalinka.Python

open Utils

/-! ## Regular expressions -/

/-- `re.search`: the first place where the expression matches. -/
def search {β : Type} (re : List Char → Option β) : List Char → Option β
  | [] => re []
  | c :: text => (re (c :: text)).orElse fun _ => search re text

/-- `isBlank` is `[\t ]`. -/
def isBlank (c : Char) : Bool := c = '\t' || c = ' '

/-- `([^\t ]+)[\t ]+([^\t ]+)` -/
def optionRe (text : List Char) : Option (List Char × List Char) :=
  let first := text.takeWhile (!isBlank ·)
  let rest := text.dropWhile (!isBlank ·)
  let second := (rest.dropWhile isBlank).takeWhile (!isBlank ·)
  if first ≠ [] ∧ rest ≠ [] ∧ second ≠ [] then some (first, second) else none

/-- `([^@]+)@([^/]+)/([^/]+)` -/
def addressRe (text : List Char) : Option (List Char × List Char × List Char) :=
  let user := text.takeWhile (· ≠ '@')
  let behind := text.dropWhile (· ≠ '@')
  let connection := (behind.drop 1).takeWhile (· ≠ '/')
  let name := (((behind.drop 1).dropWhile (· ≠ '/')).drop 1).takeWhile (· ≠ '/')
  if user ≠ [] ∧ connection ≠ [] ∧ name ≠ [] then some (user, connection, name) else none

/-- `([^:]+):([^:]+)` -/
def userRe (text : List Char) : Option (List Char × List Char) :=
  let first := text.takeWhile (· ≠ ':')
  let second := ((text.dropWhile (· ≠ ':')).drop 1).takeWhile (· ≠ ':')
  if first ≠ [] ∧ second ≠ [] then some (first, second) else none

/-- `([^:]+):([\d]+)` -/
def connectionRe (text : List Char) : Option (List Char × List Char) :=
  let first := text.takeWhile (· ≠ ':')
  let second := ((text.dropWhile (· ≠ ':')).drop 1).takeWhile Char.isDigit
  if first ≠ [] ∧ second ≠ [] then some (first, second) else none

variable {β : Type} {re : List Char → Option β} {b : β} {text u w l : List Char} {c : Char}

theorem search_of_eq_some (h : re text = some b) : search re text = some b := by
  cases text with
  | nil => exact h
  | cons c text => rw [search, h]; rfl

theorem search_eq_none (h : ∀ s, s <:+ text → re s = none) : search re text = none := by
  induction text with
  | nil => exact h [] (List.suffix_refl [])
  | cons c text ih =>
    rw [search, h _ (List.suffix_refl _)]
    exact ih fun s hs => h s (hs.trans (List.suffix_cons c text))

/-- The text up to the first `c`, and the text from there. -/
theorem takeWhile_dropWhile_ne (hc : c ∉ u) :
    (u ++ c :: l).takeWhile (· ≠ c) = u ∧ (u ++ c :: l).dropWhile (· ≠ c) = c :: l := by
  have hall : ∀ a ∈ u, decide (a ≠ c) = true := fun a ha =>
    decide_eq_true (ne_of_mem_of_not_mem ha hc)
  rw [List.takeWhile_append_of_pos hall, List.dropWhile_append_of_pos hall]
  simp

theorem userRe_append (hu : u ≠ []) (hcu : ':' ∉ u) (hw : w ≠ []) (hcw : ':' ∉ w) :
    userRe (u ++ ':' :: w) = some (u, w) := by
  have hall : ∀ a ∈ w, decide (a ≠ ':') = true := fun a ha =>
    decide_eq_true (ne_of_mem_of_not_mem ha hcw)
  rw [userRe, (takeWhile_dropWhile_ne hcu).1, (takeWhile_dropWhile_ne hcu).2, List.drop_one,
    List.tail_cons, List.takeWhile_eq_self_iff.2 hall]
  exact if_pos ⟨hu, hw⟩

theorem search_userRe_of_notMem (h : ':' ∉ text) : search userRe text = none := by
  apply search_eq_none
  intro s hs
  have hall : ∀ a ∈ s, decide (a ≠ ':') = true := fun a ha =>
    decide_eq_true (ne_of_mem_of_not_mem (hs.subset ha) h)
  rw [userRe, List.dropWhile_eq_nil_iff.2 hall]
  exact if_neg fun hne => hne.2 rfl

theorem connectionRe_append (hu : u ≠ []) (hcu : ':' ∉ u) (hc : c.isDigit) (l : List Char) :
    connectionRe (u ++ ':' :: c :: l) = some (u, (c :: l).takeWhile Char.isDigit) := by
  rw [connectionRe, (takeWhile_dropWhile_ne hcu).1, (takeWhile_dropWhile_ne hcu).2, List.drop_one,
    List.tail_cons, List.takeWhile_cons_of_pos hc]
  exact if_pos ⟨hu, List.cons_ne_nil _ _⟩

theorem search_connectionRe_of_notMem (h : ':' ∉ text) : search connectionRe text = none := by
  apply search_eq_none
  intro s hs
  have hall : ∀ a ∈ s, decide (a ≠ ':') = true := fun a ha =>
    decide_eq_true (ne_of_mem_of_not_mem (hs.subset ha) h)
  rw [connectionRe, List.dropWhile_eq_nil_iff.2 hall]
  exact if_neg fun hne => hne.2 rfl

theorem addressRe_append {login place name : List Char} (hlogin : login ≠ []) (hat : '@' ∉ login)
    (hplace : place ≠ []) (hslash : '/' ∉ place) (hname : name ≠ []) (hslash' : '/' ∉ name)
    (hl : ∀ a ∈ l.head?, a = '/') :
    addressRe (login ++ '@' :: (place ++ '/' :: (name ++ l))) = some (login, place, name) := by
  have hall : ∀ a ∈ name, decide (a ≠ '/') = true := fun a ha =>
    decide_eq_true (ne_of_mem_of_not_mem ha hslash')
  have hend : (name ++ l).takeWhile (· ≠ '/') = name := by
    rw [List.takeWhile_append_of_pos hall]
    cases l with
    | nil => simp
    | cons a l => simp [hl a rfl]
  rw [addressRe, (takeWhile_dropWhile_ne hat).1, (takeWhile_dropWhile_ne hat).2, List.drop_one,
    List.tail_cons, (takeWhile_dropWhile_ne hslash).1, (takeWhile_dropWhile_ne hslash).2,
    List.drop_one, List.tail_cons, hend]
  exact if_pos ⟨hlogin, hplace, hname⟩

/-! ## `DBConfig` -/

structure DBConfig where
  hostName : List Char
  port : ℕ
  name : List Char
  userName : List Char
  userPassword : List Char
  deriving DecidableEq, Repr

namespace DBConfig

def new : DBConfig := ⟨"localhost".toList, 0, "kalinka".toList, "root".toList, []⟩

def setUserInfo (db : DBConfig) (text : List Char) : DBConfig :=
  match search userRe text with
  | some (user, password) => { db with userName := user, userPassword := password }
  | none => { db with userName := text, userPassword := [] }

def setConnectionInfo (db : DBConfig) (text : List Char) : DBConfig :=
  match search connectionRe text with
  | some (host, port) => { db with hostName := host, port := Decimal.value port }
  | none => { db with hostName := text, port := 0 }

def updateData (db : DBConfig) (text : List Char) : Except String DBConfig :=
  match search addressRe text with
  | some (user, connection, name) =>
    .ok { (db.setUserInfo user).setConnectionInfo connection with name := name }
  | none => .error ("Invalid Database setting value: " ++ String.ofList text)

end DBConfig

/-! ## `Config` -/

structure Config where
  server : List Char
  db : DBConfig
  deriving DecidableEq, Repr

namespace Config

def new : Config := ⟨[], DBConfig.new⟩

/-- One line in the loop of `load`. -/
def readLine (c : Config) (line : List Char) : Except String Config :=
  let item := trim line
  if item.take 1 = ['#'] then .ok c
  else
    match search optionRe item with
    | none => .ok c
    | some (option, value) =>
      if option.map Char.toLower = "Database".toList.map Char.toLower then
        (c.db.updateData value).map fun db => { c with db := db }
      else if option.map Char.toLower = "HostName".toList.map Char.toLower then
        .ok { c with server := value }
      else .ok c

/-- `load`, by the text of the file.  The last line of a file that ends with a newline is empty
here, and not read there. -/
def load (c : Config) (path : String) (file : List Char) : Except String Config :=
  ((file.splitOn '\n').foldlM readLine c).mapError fun exc =>
    "There was an error while retrive info from : " ++ path ++ ". " ++ exc

end Config

end Kalinka.Python
