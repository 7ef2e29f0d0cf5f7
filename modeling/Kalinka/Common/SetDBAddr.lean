import Kalinka.Common.DBInfo

/-!
# What an address of the database sets

`DBInfo::setDBAddr` copies each part of the address to a buffer as large as the address, without
room for a terminator, and a part that it does not find keeps the value of an earlier call.

`fits_iff` says which addresses fit the buffers, and `setDBAddr_sound_iff` for which the result does
not depend on earlier calls either: those that name a user, a password, a host, a port and a
database.
-/

namespace Kalinka

open Utils

/-! ## Two conversions -/

namespace Scanf

variable {β : Type} {second : List Char → Option β} {c : Char} {s a : List Char} {v : β}

/-- Both conversions succeed. -/
theorem pair_eq_some_some_iff (hnil : second [] = none) : pair second c s = some (a, some v) ↔
    ∃ l, s = a ++ c :: l ∧ a ≠ [] ∧ c ∉ a ∧ second l = some v := by
  constructor
  · intro h
    have hsplit : s.takeWhile (· ≠ c) ++ s.dropWhile (· ≠ c) = s := List.takeWhile_append_dropWhile
    unfold pair at h
    split at h
    · cases h
    next hne =>
      obtain ⟨rfl, hsecond⟩ := Prod.mk.inj (Option.some.inj h)
      have hnot : c ∉ s.takeWhile (· ≠ c) := fun hmem => by simpa using List.mem_takeWhile_imp hmem
      cases hdrop : s.dropWhile (· ≠ c) with
      | nil =>
        rw [hdrop, List.drop_nil, hnil] at hsecond
        cases hsecond
      | cons x l =>
        obtain rfl : x = c := by
          have hhead := List.head?_dropWhile_not (fun x => decide (x ≠ c)) s
          rw [hdrop] at hhead
          simpa using hhead
        rw [hdrop] at hsplit hsecond
        exact ⟨l, hsplit.symm, hne, hnot, hsecond⟩
  · rintro ⟨l, rfl, hne, hnot, hsecond⟩
    rw [pair_append hne hnot, hsecond]

theorem eq_takeWhile_of_pair {b : Option β} (h : pair second c s = some (a, b)) :
    a = s.takeWhile (· ≠ c) := by
  unfold pair at h
  split at h <;> cases h
  rfl

theorem length_le_of_pair {b : Option β} (h : pair second c s = some (a, b)) :
    a.length ≤ s.length := by
  rw [eq_takeWhile_of_pair h]
  exact (List.takeWhile_sublist _).length_le

theorem length_le_of_string {w : List Char} (h : string s = some w) : w.length ≤ s.length := by
  unfold string at h
  split at h
  · cases h
  · cases h
    exact ((List.takeWhile_sublist _).trans (List.dropWhile_sublist _)).length_le

/-- The text behind the separator is shorter than all of it. -/
theorem length_lt_of_pair_string {w : List Char} (h : pair string c s = some (a, some w)) :
    w.length < s.length := by
  obtain ⟨l, rfl, -, -, hl⟩ := (pair_eq_some_some_iff rfl).1 h
  have hle := length_le_of_string hl
  rw [List.length_append, List.length_cons]
  omega

end Scanf

namespace DBInfo

/-! ## The buffers -/

/-- The texts that are copied from a `hostname`. -/
def copiesHost (hostname : List Char) : List (List Char) :=
  match Scanf.pair Scanf.int ':' hostname with
  | none => []
  | some (dbhost, _) => [dbhost]

/-- The texts that are copied from a `hostinfo`; without `@`, `strcpy(hostname, auth)`. -/
def copiesHostInfo (hostinfo : List Char) : List (List Char) :=
  match Scanf.pair Scanf.string '@' hostinfo with
  | none => []
  | some (auth, none) => auth :: auth :: copiesHost auth
  | some (auth, some hostname) =>
    match Scanf.pair Scanf.string ':' auth with
    | none => auth :: hostname :: copiesHost hostname
    | some (dbuser, dbpwd) =>
      auth :: hostname :: dbuser :: (dbpwd.toList ++ copiesHost hostname)

/-- The texts that `setDBAddr` copies to its buffers. -/
def copies (opt : List Char) : List (List Char) :=
  match Scanf.pair Scanf.string '/' (cString opt) with
  | none => []
  | some (hostinfo, dbname) => hostinfo :: (dbname.toList ++ copiesHostInfo hostinfo)

/-- Each text fits its buffer, of `opt.size()` bytes, with its terminator. -/
def Fits (opt : List Char) : Prop := ∀ text ∈ copies opt, text.length + 1 ≤ opt.length

/-- `setDBAddr`: `none` when the assertion throws. -/
def setDBAddr? (info : DBInfo) (opt : List Char) : Option DBInfo :=
  if opt = [] then none else some (info.setDBAddr opt)

/-- The call throws, or sets values that depend on the address alone and fit the buffers. -/
def Sound (opt : List Char) : Prop :=
  (∀ info : DBInfo, info.setDBAddr? opt = none) ∨
    (∃ info' : DBInfo, ∀ info : DBInfo, info.setDBAddr? opt = some info') ∧ Fits opt

/-- An address `user:password@host:port/name` of which `sscanf` finds all parts. -/
structure FullAddress (opt : List Char) where
  user : List Char
  pwd : List Char
  hostname : List Char
  name : List Char
  eq_append : cString opt = user ++ ':' :: pwd ++ '@' :: hostname ++ '/' :: name
  user_ne_nil : user ≠ []
  user_chars : ':' ∉ user ∧ '@' ∉ user ∧ '/' ∉ user
  pwd_chars : '@' ∉ pwd ∧ '/' ∉ pwd
  pwd_isSome : (Scanf.string pwd).isSome
  slash_notMem : '/' ∉ hostname
  dbhost : List Char
  port : List Char
  hostname_eq : Scanf.string hostname = some (dbhost ++ ':' :: port)
  dbhost_ne_nil : dbhost ≠ []
  colon_notMem : ':' ∉ dbhost
  port_isSome : (Scanf.int port).isSome
  dbname : List Char
  name_eq : Scanf.string name = some dbname
  dbname_ne_nil : cutLast dbname ≠ []

variable {opt hostinfo hostname text : List Char} {parts : Parts} {info : DBInfo}

theorem length_le_of_mem_copiesHost (h : text ∈ copiesHost hostname) :
    text.length ≤ hostname.length := by
  unfold copiesHost at h
  split at h
  · cases h
  next hpair =>
    obtain rfl := List.mem_singleton.1 h
    exact Scanf.length_le_of_pair hpair

theorem length_le_of_mem_copiesHostInfo (h : text ∈ copiesHostInfo hostinfo) :
    text.length ≤ hostinfo.length := by
  unfold copiesHostInfo at h
  split at h
  · cases h
  next auth hpair =>
    have hauth := Scanf.length_le_of_pair hpair
    obtain rfl | h := List.mem_cons.1 h
    · exact hauth
    obtain rfl | h := List.mem_cons.1 h
    · exact hauth
    exact (length_le_of_mem_copiesHost h).trans hauth
  next auth hostname hpair =>
    have hauth := Scanf.length_le_of_pair hpair
    have hhostname := (Scanf.length_lt_of_pair_string hpair).le
    split at h
    · simp only [List.mem_cons] at h
      obtain rfl | rfl | h := h
      · exact hauth
      · exact hhostname
      · exact (length_le_of_mem_copiesHost h).trans hhostname
    next dbuser dbpwd hlogin =>
      simp only [List.mem_cons, List.mem_append, Option.mem_toList] at h
      obtain rfl | rfl | rfl | hpwd | h := h
      · exact hauth
      · exact hhostname
      · exact (Scanf.length_le_of_pair hlogin).trans hauth
      · cases hpwd
        exact (Scanf.length_lt_of_pair_string hlogin).le.trans hauth
      · exact (length_le_of_mem_copiesHost h).trans hhostname

theorem length_cString_le (opt : List Char) : (cString opt).length ≤ opt.length :=
  (List.takeWhile_sublist _).length_le

/-- The first text is shorter than the address. -/
theorem length_hostinfo_lt {dbname : Option (List Char)}
    (hpair : Scanf.pair Scanf.string '/' (cString opt) = some (hostinfo, dbname))
    (h : '/' ∈ opt ∨ '\x00' ∈ opt) : hostinfo.length < opt.length := by
  have hle := (Scanf.length_le_of_pair hpair).trans (length_cString_le opt)
  refine Nat.lt_of_le_of_ne hle fun heq => ?_
  have htake := Scanf.eq_takeWhile_of_pair hpair
  have hprefix : hostinfo <+: opt :=
    htake ▸ (List.takeWhile_prefix _).trans (List.takeWhile_prefix _)
  have hopt : hostinfo = opt := hprefix.eq_of_length heq
  rw [← hopt] at h
  obtain hslash | hnul := h
  · rw [htake] at hslash
    simpa using List.mem_takeWhile_imp hslash
  · rw [htake] at hnul
    simpa using List.mem_takeWhile_imp ((List.takeWhile_sublist _).subset hnul)

/-- Only an address with a separator, or with a NUL, leaves room for the terminators. -/
theorem fits_iff (hne : opt ≠ []) : Fits opt ↔ '/' ∈ opt ∨ '\x00' ∈ opt := by
  constructor
  · intro hfits
    by_contra hnot
    rw [not_or] at hnot
    have hcString : cString opt = opt :=
      List.takeWhile_eq_self_iff.2 fun c hc => decide_eq_true fun h => hnot.2 (h ▸ hc)
    have hmem : opt ∈ copies opt := by
      rw [copies, hcString, Scanf.pair_of_notMem hne hnot.1]
      exact List.mem_cons_self
    have := hfits opt hmem
    omega
  · intro h text htext
    have hcString := length_cString_le opt
    unfold copies at htext
    split at htext
    · cases htext
    next hostinfo dbname hpair =>
      have hhostinfo := length_hostinfo_lt hpair h
      simp only [List.mem_cons, List.mem_append, Option.mem_toList] at htext
      obtain rfl | hdbname | htext := htext
      · exact hhostinfo
      · cases hdbname
        have := Scanf.length_lt_of_pair_string hpair
        omega
      · have := length_le_of_mem_copiesHostInfo htext
        omega

/-! ## What is set -/

/-- All members are set. -/
structure Parts.AllSet (parts : Parts) : Prop where
  dbname : parts.dbname ≠ []
  dbuser : parts.dbuser ≠ []
  dbpwd : parts.dbpwd ≠ []
  dbhost : parts.dbhost ≠ []
  port : parts.port.isSome

theorem assign_eq_assign_iff : assign [] text = assign ['x'] text ↔ text ≠ [] := by
  unfold assign
  split <;> simp [*]

/-- What is set depends on the address alone exactly if everything is set. -/
theorem forall_setDBAddr_eq_iff :
    (∃ info' : DBInfo, ∀ info : DBInfo, info.setDBAddr opt = info') ↔ (scan opt).AllSet := by
  constructor
  · rintro ⟨info', h⟩
    have hsame := (h ⟨[], [], [], [], 0⟩).trans (h ⟨['x'], ['x'], ['x'], ['x'], 1⟩).symm
    have hport := congrArg DBInfo.port hsame
    refine ⟨assign_eq_assign_iff.1 (congrArg DBInfo.dbname hsame),
      assign_eq_assign_iff.1 (congrArg DBInfo.user hsame),
      assign_eq_assign_iff.1 (congrArg DBInfo.pwd hsame),
      assign_eq_assign_iff.1 (congrArg DBInfo.host hsame), ?_⟩
    rw [Option.isSome_iff_ne_none]
    intro hnone
    simp [setDBAddr, hnone] at hport
  · rintro ⟨hdbname, hdbuser, hdbpwd, hdbhost, hport⟩
    obtain ⟨n, hn⟩ := Option.isSome_iff_exists.1 hport
    refine ⟨⟨trim (scan opt).dbhost, trim (scan opt).dbname, trim (scan opt).dbuser,
      trim (scan opt).dbpwd, toPort n⟩, fun info => ?_⟩
    simp [setDBAddr, assign, *]

/-! ## Full addresses -/

/-- The parts found by each `sscanf`. -/
theorem of_allSet_scanHost (h : (scanHost hostname parts).AllSet) (hport : parts.port = none) :
    ∃ dbhost n, Scanf.pair Scanf.int ':' hostname = some (dbhost, some n) ∧
      parts.dbname ≠ [] ∧ parts.dbuser ≠ [] ∧ parts.dbpwd ≠ [] := by
  unfold scanHost at h
  split at h
  · have := h.port
    rw [hport] at this
    cases this
  next dbhost port hpair =>
    obtain ⟨n, hn⟩ := Option.isSome_iff_exists.1 h.port
    obtain rfl : port = some n := hn
    exact ⟨dbhost, n, hpair, h.dbname, h.dbuser, h.dbpwd⟩

theorem of_allSet_scanHostInfo {d : List Char}
    (h : (scanHostInfo hostinfo { dbname := d }).AllSet) :
    d ≠ [] ∧ ∃ auth hostname dbuser dbpwd dbhost n,
      Scanf.pair Scanf.string '@' hostinfo = some (auth, some hostname) ∧
      Scanf.pair Scanf.string ':' auth = some (dbuser, some dbpwd) ∧
      Scanf.pair Scanf.int ':' hostname = some (dbhost, some n) := by
  unfold scanHostInfo at h
  split at h
  · exact absurd rfl h.dbuser
  next auth hpair =>
    obtain ⟨_, _, -, -, hdbuser, -⟩ := of_allSet_scanHost h rfl
    exact absurd rfl hdbuser
  next auth hostname hpair =>
    split at h
    · obtain ⟨_, _, -, -, hdbuser, -⟩ := of_allSet_scanHost h rfl
      exact absurd rfl hdbuser
    next dbuser dbpwd hlogin =>
      obtain ⟨dbhost, n, hhost, hd, -, hdbpwd⟩ := of_allSet_scanHost h rfl
      cases dbpwd with
      | none => exact absurd rfl hdbpwd
      | some dbpwd => exact ⟨hd, auth, hostname, dbuser, dbpwd, dbhost, n, hpair, hlogin, hhost⟩

theorem string_ne_nil {s w : List Char} (h : Scanf.string s = some w) : w ≠ [] := by
  unfold Scanf.string at h
  split at h
  · cases h
  next hne =>
    cases h
    exact hne

theorem nonempty_of_allSet (h : (scan opt).AllSet) : Nonempty (FullAddress opt) := by
  unfold scan at h
  split at h
  · exact absurd rfl h.dbname
  · exact absurd rfl (of_allSet_scanHostInfo h).1
  next hostinfo dbname hpair =>
    obtain ⟨hcut, auth, hostname, dbuser, dbpwd, dbhost, n, hauth, hlogin, hhost⟩ :=
      of_allSet_scanHostInfo h
    obtain ⟨name, hopt, -, hslash, hname⟩ := (Scanf.pair_eq_some_some_iff rfl).1 hpair
    obtain ⟨place, rfl, -, hat, hplace⟩ := (Scanf.pair_eq_some_some_iff rfl).1 hauth
    obtain ⟨pwd, rfl, huser, hcolon, hpwd⟩ := (Scanf.pair_eq_some_some_iff rfl).1 hlogin
    obtain ⟨port, rfl, hdbhost, hcolon', hport⟩ := (Scanf.pair_eq_some_some_iff rfl).1 hhost
    simp only [List.mem_append, List.mem_cons, not_or] at hslash hat
    exact ⟨{
      user := dbuser, pwd, hostname := place, name, dbhost, port, dbname
      eq_append := hopt
      user_ne_nil := huser
      user_chars := ⟨hcolon, hat.1, hslash.1.1⟩
      pwd_chars := ⟨hat.2.2, hslash.1.2.2⟩
      pwd_isSome := Option.isSome_of_eq_some hpwd
      slash_notMem := hslash.2.2
      hostname_eq := hplace
      dbhost_ne_nil := hdbhost
      colon_notMem := hcolon'
      port_isSome := Option.isSome_of_eq_some hport
      name_eq := hname
      dbname_ne_nil := hcut }⟩

theorem FullAddress.allSet (a : FullAddress opt) : (scan opt).AllSet := by
  obtain ⟨pwd, hpwd⟩ := Option.isSome_iff_exists.1 a.pwd_isSome
  obtain ⟨n, hn⟩ := Option.isSome_iff_exists.1 a.port_isSome
  have hlogin : Scanf.pair Scanf.string ':' (a.user ++ ':' :: a.pwd) = some (a.user, some pwd) :=
    (Scanf.pair_eq_some_some_iff rfl).2 ⟨a.pwd, rfl, a.user_ne_nil, a.user_chars.1, hpwd⟩
  have hauth : Scanf.pair Scanf.string '@' (a.user ++ ':' :: a.pwd ++ '@' :: a.hostname) =
      some (a.user ++ ':' :: a.pwd, some (a.dbhost ++ ':' :: a.port)) := by
    refine (Scanf.pair_eq_some_some_iff rfl).2 ⟨a.hostname, rfl, by simp, ?_, a.hostname_eq⟩
    simp [a.user_chars.2.1, a.pwd_chars.1]
  have hhost : Scanf.pair Scanf.int ':' (a.dbhost ++ ':' :: a.port) = some (a.dbhost, some n) :=
    (Scanf.pair_eq_some_some_iff rfl).2 ⟨a.port, rfl, a.dbhost_ne_nil, a.colon_notMem, hn⟩
  have hopt : Scanf.pair Scanf.string '/' (cString opt) =
      some (a.user ++ ':' :: a.pwd ++ '@' :: a.hostname, some a.dbname) := by
    refine (Scanf.pair_eq_some_some_iff rfl).2 ⟨a.name, a.eq_append, by simp, ?_, a.name_eq⟩
    simp [a.user_chars.2.2, a.pwd_chars.2, a.slash_notMem]
  have hscan : scan opt = ⟨cutLast a.dbname, a.user, pwd, a.dbhost, some n⟩ := by
    simp only [scan, hopt, scanHostInfo, hauth, hlogin, scanHost, hhost, Option.getD_some]
  rw [hscan]
  exact ⟨a.dbname_ne_nil, a.user_ne_nil, string_ne_nil hpwd, a.dbhost_ne_nil, rfl⟩

theorem FullAddress.fits (a : FullAddress opt) : Fits opt := by
  have hmem : '/' ∈ cString opt := by simp [a.eq_append]
  have hslash : '/' ∈ opt := (List.takeWhile_sublist _).subset hmem
  exact (fits_iff (List.ne_nil_of_mem hslash)).2 (.inl hslash)

/-- An address is handled as it should be exactly if it is empty, and rejected, or names all
parts. -/
theorem setDBAddr_sound_iff : Sound opt ↔ opt = [] ∨ Nonempty (FullAddress opt) := by
  by_cases hnil : opt = []
  · exact iff_of_true (.inl fun info => if_pos hnil) (.inl hnil)
  have hthrows : ¬∀ info : DBInfo, info.setDBAddr? opt = none := fun h => by
    have := h ⟨[], [], [], [], 0⟩
    simp [setDBAddr?, hnil] at this
  have hsets : (∃ info' : DBInfo, ∀ info : DBInfo, info.setDBAddr? opt = some info') ↔
      (scan opt).AllSet := by
    simp only [setDBAddr?, if_neg hnil, Option.some.injEq]
    exact forall_setDBAddr_eq_iff
  rw [Sound, or_iff_right hthrows, hsets, or_iff_right hnil]
  exact ⟨fun h => nonempty_of_allSet h.1, fun ⟨a⟩ => ⟨a.allSet, a.fits⟩⟩

/-- The second of two addresses has no user and no port: those of the first one stay. -/
theorem not_sound_hostOnly : ¬∀ opt : List Char, Sound opt := by
  intro h
  obtain hthrows | ⟨⟨info', hsame⟩, -⟩ := h ['h', '/', 'n']
  · cases hthrows ⟨[], [], [], [], 0⟩
  · have h₁ := hsame ⟨['a'], ['b'], ['c'], ['d'], 1⟩
    have h₂ := hsame ⟨['a'], ['b'], ['e'], ['d'], 1⟩
    exact absurd (h₁.trans h₂.symm) (by decide)

end DBInfo

end Kalinka
