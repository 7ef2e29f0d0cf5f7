import Kalinka.Common.DBInfo
import Kalinka.Common.Python.Config

/-!
# Addresses that both readers understand

The daemon takes the address of the database apart with `sscanf`, the tools with regular
expressions.  On a full address, `user:password@host:port/name`, they find the same parts.
-/

namespace Kalinka

open Utils Scanf

/-- `user:password@host:port/name`; the password and the port may be missing. -/
structure DBAddress where
  user : List Char
  pwd : Option (List Char)
  host : List Char
  port : Option (List Char)
  name : List Char

namespace DBAddress

/-- What is behind a `:`, with that. -/
def optional (part : Option (List Char)) : List Char := part.elim [] fun text => ':' :: text

def login (a : DBAddress) : List Char := a.user ++ optional a.pwd

def place (a : DBAddress) : List Char := a.host ++ optional a.port

def text (a : DBAddress) : List Char := a.login ++ '@' :: (a.place ++ '/' :: a.name)

/-- The number at the beginning of the port. -/
def portNumber (a : DBAddress) : ℕ :=
  a.port.elim 0 fun port => Decimal.value (port.takeWhile Char.isDigit)

/-- No part of an address contains a slash, or what ends a line or a word. -/
def PartChar (c : Char) : Prop := c ≠ '/' ∧ c ≠ '#' ∧ c ≠ '\x00' ∧ isSpace c = false

instance (c : Char) : Decidable (PartChar c) := inferInstanceAs (Decidable (_ ∧ _))

structure WellFormed (a : DBAddress) : Prop where
  user_ne_nil : a.user ≠ []
  user_trimmed : Text.Trimmed isGarbage a.user
  user : ∀ c ∈ a.user, c ∉ [':', '@', '/', '#', '\x00', '\t', ' ']
  pwd : ∀ w ∈ a.pwd, w ≠ [] ∧ ∀ c ∈ w, c ≠ ':' ∧ c ≠ '@' ∧ PartChar c
  host_ne_nil : a.host ≠ []
  host : ∀ c ∈ a.host, c ≠ ':' ∧ PartChar c
  port : ∀ p ∈ a.port, (∃ d ∈ p.head?, d.isDigit) ∧ ∀ c ∈ p, PartChar c
  port_lt : a.portNumber < 2 ^ 32
  name_ne_nil : a.name ≠ []
  name : ∀ c ∈ a.name, PartChar c

variable {a : DBAddress} {z : List Char}

/-! ## The parts -/

theorem mem_optional {part : Option (List Char)} {c : Char} (h : c ∈ optional part) :
    c = ':' ∨ ∃ text ∈ part, c ∈ text := by
  cases part with
  | none => cases h
  | some text => exact (List.mem_cons.1 h).imp_right fun hmem => ⟨text, rfl, hmem⟩

/-- What ends a line or a word is a space or is excluded. -/
theorem PartChar.ne_blank {c : Char} (h : PartChar c) : c ≠ '\t' ∧ c ≠ ' ' := by
  constructor <;> rintro rfl <;> exact absurd h.2.2.2 (by decide)

theorem PartChar.isGarbage {c : Char} (h : PartChar c) : isGarbage c = false := by
  apply Bool.eq_false_iff.2
  intro hmem
  have hcases : c ∈ [' ', '\r', '\n', '\t'] := of_decide_eq_true hmem
  simp only [List.mem_cons, List.not_mem_nil, or_false] at hcases
  obtain rfl | rfl | rfl | rfl := hcases <;> exact absurd h.2.2.2 (by decide)

theorem WellFormed.colon_notMem_user (h : a.WellFormed) : ':' ∉ a.user := fun hmem => by
  simpa using h.user _ hmem

theorem WellFormed.colon_notMem_host (h : a.WellFormed) : ':' ∉ a.host := fun hmem =>
  (h.host _ hmem).1 rfl

theorem WellFormed.slash_notMem_name (h : a.WellFormed) : '/' ∉ a.name := fun hmem =>
  (h.name _ hmem).1 rfl

theorem WellFormed.login_chars (h : a.WellFormed) :
    ∀ c ∈ a.login, c ≠ '@' ∧ c ≠ '/' ∧ c ≠ '#' ∧ c ≠ '\x00' ∧ c ≠ '\t' ∧ c ≠ ' ' := by
  intro c hc
  obtain huser | hpwd := List.mem_append.1 hc
  · have hchars := h.user c huser
    simp only [List.mem_cons, List.not_mem_nil, or_false, not_or] at hchars
    exact hchars.2
  · obtain rfl | ⟨w, hw, hmem⟩ := mem_optional hpwd
    · decide
    · obtain ⟨-, hat, hpart⟩ := (h.pwd w hw).2 c hmem
      exact ⟨hat, hpart.1, hpart.2.1, hpart.2.2.1, hpart.ne_blank⟩

theorem WellFormed.place_chars (h : a.WellFormed) : ∀ c ∈ a.place, PartChar c := by
  intro c hc
  obtain hhost | hport := List.mem_append.1 hc
  · exact (h.host c hhost).2
  · obtain rfl | ⟨p, hp, hmem⟩ := mem_optional hport
    · decide
    · exact (h.port p hp).2 c hmem

theorem WellFormed.login_ne_nil (h : a.WellFormed) : a.login ≠ [] :=
  List.append_ne_nil_of_left_ne_nil h.user_ne_nil _

theorem WellFormed.place_ne_nil (h : a.WellFormed) : a.place ≠ [] :=
  List.append_ne_nil_of_left_ne_nil h.host_ne_nil _

theorem WellFormed.at_notMem_login (h : a.WellFormed) : '@' ∉ a.login := fun hmem =>
  (h.login_chars _ hmem).1 rfl

theorem WellFormed.slash_notMem_place (h : a.WellFormed) : '/' ∉ a.place := fun hmem =>
  (h.place_chars _ hmem).1 rfl

/-- An address ends neither a line nor a word. -/
theorem WellFormed.text_chars (h : a.WellFormed) :
    ∀ c ∈ a.text, c ≠ '#' ∧ c ≠ '\x00' ∧ c ≠ '\t' ∧ c ≠ ' ' := by
  intro c hc
  have hpart : PartChar c → c ≠ '#' ∧ c ≠ '\x00' ∧ c ≠ '\t' ∧ c ≠ ' ' := fun hc =>
    ⟨hc.2.1, hc.2.2.1, hc.ne_blank⟩
  simp only [text, List.mem_append, List.mem_cons] at hc
  obtain hlogin | rfl | hplace | rfl | hname := hc
  · exact (h.login_chars c hlogin).2.2
  · decide
  · exact hpart (h.place_chars c hplace)
  · decide
  · exact hpart (h.name c hname)

theorem WellFormed.text_ne_nil (h : a.WellFormed) : a.text ≠ [] :=
  List.append_ne_nil_of_left_ne_nil h.login_ne_nil _

theorem WellFormed.text_trimmed (h : a.WellFormed) : Text.Trimmed isGarbage a.text := by
  have hname : Text.Trimmed isGarbage a.name := .of_forall fun c hc => (h.name c hc).isGarbage
  constructor
  · intro c hc
    rw [text, login, List.append_assoc, List.head?_append_of_ne_nil _ h.user_ne_nil] at hc
    exact h.user_trimmed.head c hc
  · intro c hc
    rw [text, List.append_cons, ← List.append_assoc, List.append_cons,
      List.getLast?_append_of_ne_nil _ h.name_ne_nil] at hc
    exact hname.last c hc

/-! ## `sscanf` -/

theorem WellFormed.scanHost_place (h : a.WellFormed) (parts : DBInfo.Parts) :
    DBInfo.scanHost a.place parts = { parts with
      dbhost := a.host
      port := a.port.map fun port => (Decimal.value (port.takeWhile Char.isDigit) : ℤ) } := by
  rw [DBInfo.scanHost, place]
  cases hport : a.port with
  | none =>
    rw [show optional none = [] from rfl, List.append_nil,
      pair_of_notMem h.host_ne_nil h.colon_notMem_host]
    rfl
  | some p =>
    obtain ⟨⟨d, hd, hdigit⟩, -⟩ := h.port p hport
    cases p with
    | nil => cases hd
    | cons d' ds =>
      cases hd
      rw [show optional (some (d :: ds)) = ':' :: d :: ds from rfl,
        pair_append h.host_ne_nil h.colon_notMem_host, int_of_isDigit hdigit]
      rfl

theorem WellFormed.scanHostInfo (h : a.WellFormed) (parts : DBInfo.Parts) :
    DBInfo.scanHostInfo (a.login ++ '@' :: a.place) parts = { parts with
      dbuser := a.user
      dbpwd := a.pwd.getD []
      dbhost := a.host
      port := a.port.map fun port => (Decimal.value (port.takeWhile Char.isDigit) : ℤ) } := by
  have hstring : string a.place = some a.place :=
    string_eq_self h.place_ne_nil fun c hc => (h.place_chars c hc).2.2.2
  rw [DBInfo.scanHostInfo, pair_append h.login_ne_nil h.at_notMem_login, hstring]
  cases hw : a.pwd with
  | none =>
    have hlogin : a.login = a.user := by rw [login, hw]; exact List.append_nil _
    have hpair : pair string ':' a.user = some (a.user, string []) :=
      pair_of_notMem h.user_ne_nil h.colon_notMem_user
    simp only [hlogin, hpair]
    exact h.scanHost_place _
  | some w =>
    obtain ⟨hne, hchars⟩ := h.pwd w hw
    have hlogin : a.login = a.user ++ ':' :: w := by rw [login, hw]; rfl
    have hpair : pair string ':' (a.user ++ ':' :: w) = some (a.user, string w) :=
      pair_append h.user_ne_nil h.colon_notMem_user w
    rw [string_eq_self hne fun c hc => (hchars c hc).2.2.2.2.2] at hpair
    simp only [hlogin, hpair]
    exact h.scanHost_place _

/-- What may be behind an address for `sscanf`: the name ends there, or with one more slash. -/
def NameEnd (z : List Char) : Prop :=
  z.takeWhile (!isSpace ·) = [] ∨ ∃ t, z.takeWhile (!isSpace ·) = '/' :: t ∧ '/' ∉ t

theorem WellFormed.scan_text (h : a.WellFormed) (hz : NameEnd z) (hnul : '\x00' ∉ z) :
    DBInfo.scan (a.text ++ z) = {
      dbname := a.name
      dbuser := a.user
      dbpwd := a.pwd.getD []
      dbhost := a.host
      port := a.port.map fun port => (Decimal.value (port.takeWhile Char.isDigit) : ℤ) } := by
  have hcString : cString (a.text ++ z) = a.text ++ z := by
    refine List.takeWhile_eq_self_iff.2 fun c hc => decide_eq_true ?_
    rintro rfl
    obtain htext | hz := List.mem_append.1 hc
    · exact (h.text_chars _ htext).2.1 rfl
    · exact hnul hz
  have hassoc : a.text ++ z = (a.login ++ '@' :: a.place) ++ '/' :: (a.name ++ z) := by
    simp [text]
  have hslash : '/' ∉ a.login ++ '@' :: a.place := by
    intro hmem
    obtain hlogin | hplace := List.mem_append.1 hmem
    · exact (h.login_chars _ hlogin).2.1 rfl
    · exact h.slash_notMem_place ((List.mem_cons.1 hplace).resolve_left (by decide))
  have hcut : DBInfo.cutLast (a.name ++ z.takeWhile (!isSpace ·)) = a.name := by
    obtain hnil | ⟨t, ht, hslash⟩ := hz
    · rw [hnil, List.append_nil, DBInfo.cutLast_of_notMem h.slash_notMem_name]
    · rw [ht, DBInfo.cutLast_append hslash]
  have hstring := string_append h.name_ne_nil (fun c hc => (h.name c hc).2.2.2) z
  rw [DBInfo.scan, hcString, hassoc,
    pair_append (List.append_ne_nil_of_left_ne_nil h.login_ne_nil _) hslash, hstring]
  show DBInfo.scanHostInfo _ { dbname := DBInfo.cutLast _ } = _
  rw [hcut, h.scanHostInfo]

/-- The password and the port stay as they were if the address has none. -/
theorem WellFormed.setDBAddr_text (h : a.WellFormed) (hz : NameEnd z) (hnul : '\x00' ∉ z)
    (info : DBInfo) (hpwd : a.pwd = none → info.pwd = []) (hport : a.port = none → info.port = 0) :
    info.setDBAddr (a.text ++ z) = ⟨a.host, a.name, a.user, a.pwd.getD [], a.portNumber⟩ := by
  have hhost : Text.Trimmed isGarbage a.host :=
    .of_forall fun c hc => (h.host c hc).2.isGarbage
  have hname : Text.Trimmed isGarbage a.name := .of_forall fun c hc => (h.name c hc).isGarbage
  have hassign : DBInfo.assign info.pwd (a.pwd.getD []) = a.pwd.getD [] := by
    cases hw : a.pwd with
    | none => exact hpwd hw
    | some w =>
      obtain ⟨hne, hchars⟩ := h.pwd w hw
      exact DBInfo.assign_eq hne (.of_forall fun c hc => (hchars c hc).2.2.isGarbage)
  have hportNumber : ((a.port.map fun port =>
      (Decimal.value (port.takeWhile Char.isDigit) : ℤ)).map DBInfo.toPort).getD info.port =
        a.portNumber := by
    have hlt := h.port_lt
    unfold portNumber at hlt ⊢
    cases hp : a.port with
    | none => exact hport hp
    | some p =>
      rw [hp] at hlt
      exact DBInfo.toPort_natCast hlt
  rw [DBInfo.setDBAddr, h.scan_text hz hnul]
  simp only [hassign, hportNumber, DBInfo.assign_eq h.host_ne_nil hhost,
    DBInfo.assign_eq h.name_ne_nil hname, DBInfo.assign_eq h.user_ne_nil h.user_trimmed]

/-! ## Regular expressions -/

theorem WellFormed.setUserInfo_login (h : a.WellFormed) (db : Python.DBConfig) :
    db.setUserInfo a.login = { db with userName := a.user, userPassword := a.pwd.getD [] } := by
  cases hw : a.pwd with
  | none =>
    have hlogin : a.login = a.user := by rw [login, hw]; exact List.append_nil _
    rw [Python.DBConfig.setUserInfo, hlogin,
      Python.search_userRe_of_notMem h.colon_notMem_user]
    rfl
  | some w =>
    obtain ⟨hne, hchars⟩ := h.pwd w hw
    have hlogin : a.login = a.user ++ ':' :: w := by rw [login, hw]; rfl
    have hcolon : ':' ∉ w := fun hmem => (hchars _ hmem).1 rfl
    rw [Python.DBConfig.setUserInfo, hlogin, Python.search_of_eq_some
      (Python.userRe_append h.user_ne_nil h.colon_notMem_user hne hcolon)]
    rfl

theorem WellFormed.setConnectionInfo_place (h : a.WellFormed) (db : Python.DBConfig) :
    db.setConnectionInfo a.place = { db with hostName := a.host, port := a.portNumber } := by
  rw [portNumber]
  cases hp : a.port with
  | none =>
    have hplace : a.place = a.host := by rw [place, hp]; exact List.append_nil _
    rw [Python.DBConfig.setConnectionInfo, hplace,
      Python.search_connectionRe_of_notMem h.colon_notMem_host]
    rfl
  | some p =>
    obtain ⟨⟨d, hd, hdigit⟩, -⟩ := h.port p hp
    cases p with
    | nil => cases hd
    | cons d' ds =>
      cases hd
      have hplace : a.place = a.host ++ ':' :: d :: ds := by rw [place, hp]; rfl
      rw [Python.DBConfig.setConnectionInfo, hplace, Python.search_of_eq_some
        (Python.connectionRe_append h.host_ne_nil h.colon_notMem_host hdigit ds)]
      rfl

theorem WellFormed.updateData_text (h : a.WellFormed) (hz : ∀ c ∈ z.head?, c = '/')
    (db : Python.DBConfig) : db.updateData (a.text ++ z) =
      .ok ⟨a.host, a.portNumber, a.name, a.user, a.pwd.getD []⟩ := by
  have hassoc : a.text ++ z = a.login ++ '@' :: (a.place ++ '/' :: (a.name ++ z)) := by
    simp [text]
  rw [Python.DBConfig.updateData, hassoc, Python.search_of_eq_some
    (Python.addressRe_append h.login_ne_nil h.at_notMem_login h.place_ne_nil h.slash_notMem_place
      h.name_ne_nil h.slash_notMem_name hz)]
  simp only [h.setUserInfo_login, h.setConnectionInfo_place]

end DBAddress

end Kalinka
