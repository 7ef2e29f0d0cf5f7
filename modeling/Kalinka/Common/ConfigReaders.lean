import Kalinka.Common.Config
import Kalinka.Common.DBAddress
import Kalinka.Lib.Run

/-!
# The two readers of a configuration file

The daemon reads the file with `Config::load`, the tools with `config.py`.  `ReadAlike` says of a
line that both take it for the same option and find the same in it.  `agree_iff` says that on a file
of such lines they agree, if it has the address of the database and the host name at all.
-/

namespace Kalinka

open Run Utils

/-! ## Lines that are read alike -/

namespace Config

/-- `load`, on a line that fits. -/
def readLine (c : Config) (line : List Char) : Except String Config :=
  if cleanLine line = [] then .ok c else c.setOptionValue (cleanLine line)

def step (c : Config) (line : List Char) : Option Config := (c.readLine line).toOption

/-- `load` gives the line to the option, unless to one before that. -/
def Sets (o : OptionName) (line : List Char) : Prop := isOptionMatch (cleanLine line) o.getName

/-- Behind the name of an option there are blanks and the value, and `behind` follows that. -/
def Follows (rest value behind : List Char) : Prop :=
  ∃ blanks, rest = blanks ++ (value ++ behind) ∧ blanks ≠ [] ∧ ∀ a ∈ blanks, Python.isBlank a

structure IsWord (value : List Char) : Prop where
  ne_nil : value ≠ []
  trimmed : Text.Trimmed isGarbage value
  blank : ∀ a ∈ value, Python.isBlank a = false
  comment : ∀ a ∈ value, a ≠ '\x00' ∧ a ≠ '#'

/-- There is nothing behind the word, or a blank, and then at most a comment. -/
def WordEnd (behind : List Char) : Prop :=
  (∀ a ∈ behind, isGarbage a) ∨
    (∃ b ∈ behind.head?, Python.isBlank b) ∧ ∀ a ∈ uncomment behind, isGarbage a

/-- There is nothing behind the address, or a blank, or one slash. -/
def AddressEnd (behind : List Char) : Prop :=
  (∀ a ∈ behind, isGarbage a) ∨ (∃ b ∈ behind.head?, Python.isBlank b) ∨
    ∃ t, behind = '/' :: t ∧ '/' ∉ (uncomment t).takeWhile (!Scanf.isSpace ·)

/-- Both readers find the same in the line.  In the daemon, the password and the port of the address
before stay if this one has none. -/
inductive ReadAlike (c : Config) (line : List Char) : Prop
  | other (h : ∀ o, Sets o line → o ≠ .dbaddr ∧ o ≠ .hostname)
  | hostname {rest value behind : List Char} (hrest : HasRest .hostname line rest)
      (hvalue : Follows rest value behind) (hword : IsWord value) (hend : WordEnd behind)
  | dbaddr {rest behind : List Char} {a : DBAddress} (hrest : HasRest .dbaddr line rest)
      (hvalue : Follows rest a.text behind) (ha : a.WellFormed) (hend : AddressEnd behind)
      (hpwd : a.pwd = none → c.dbinfo.pwd = []) (hport : a.port = none → c.dbinfo.port = 0)

end Config

open Config

structure DBAgree (info : DBInfo) (db : Python.DBConfig) : Prop where
  host : info.host = db.hostName
  port : info.port = db.port
  dbname : info.dbname = db.name
  user : info.user = db.userName
  pwd : info.pwd = db.userPassword

/-- Both readers have obtained the same. -/
structure Agree (c : Config) (p : Python.Config) : Prop where
  dbinfo : DBAgree c.dbinfo p.db
  hostname : c.hostname = p.server

variable {c c' c₁ : Config} {p p' p₁ : Python.Config} {o o' : OptionName} {file : List Char}
variable {line rest value behind : List Char} {lines : List (List Char)}

/-! ## A line for the daemon -/

theorem sets_iff_of_hasRest (h : HasRest o line rest) : Sets o' line ↔ o' = o := by
  obtain ⟨n, hn, heq⟩ := cleanLine_of_hasRest h
  rw [Sets, heq, hn.isOptionMatch_append]

theorem readLine_of_hasRest (h : HasRest o line rest) :
    c.readLine line = c.setValue o (cleanLine rest) := by
  rw [readLine, if_neg (cleanLine_ne_nil_of_hasRest h), setOptionValue_of_hasRest h]

theorem isGarbage_of_isBlank {a : Char} (h : Python.isBlank a) : isGarbage a := by
  simp only [Python.isBlank, Bool.or_eq_true, decide_eq_true_iff] at h
  obtain rfl | rfl := h <;> decide

theorem cleanLine_of_follows (h : Follows rest value behind) (hne : value ≠ [])
    (htrim : Text.Trimmed isGarbage value) (hchars : ∀ a ∈ value, a ≠ '\x00' ∧ a ≠ '#') :
    cleanLine rest = value ++ (uncomment behind).rdropWhile isGarbage := by
  obtain ⟨blanks, rfl, -, hblanks⟩ := h
  have hgarbage : ∀ a ∈ blanks, isGarbage a := fun a ha => isGarbage_of_isBlank (hblanks a ha)
  have hcomment : ∀ a ∈ blanks, a ≠ '\x00' ∧ a ≠ '#' := by
    intro a ha
    constructor <;> rintro rfl <;> exact absurd (hblanks _ ha) (by decide)
  rw [cleanLine, uncomment_append hcomment, uncomment_append hchars, trim,
    Text.trim_append_of_forall hgarbage, Text.trim_append hne htrim]

/-! ## A line for the tools -/

theorem isBlank_of_not_isGarbage {a : Char} (h : isGarbage a = false) : Python.isBlank a = false :=
  Bool.eq_false_iff.2 fun hblank => by simp [isGarbage_of_isBlank hblank] at h

theorem Config.Follows.rdropWhile (h : Follows rest value behind) (hne : value ≠ [])
    (htrim : Text.Trimmed isGarbage value) :
    Follows (rest.rdropWhile isGarbage) value (behind.rdropWhile isGarbage) := by
  obtain ⟨blanks, rfl, hblanks⟩ := h
  refine ⟨blanks, ?_, hblanks⟩
  rw [← List.append_assoc, Text.rdropWhile_append, List.append_assoc]
  rw [List.getLast?_append_of_ne_nil _ hne]
  exact htrim.last

theorem optionRe_append {n : List Char} (hn : n ≠ []) (hchars : ∀ a ∈ n, Python.isBlank a = false)
    (h : Follows rest value behind) (hne : value ≠ [])
    (hblank : ∀ a ∈ value, Python.isBlank a = false) :
    Python.optionRe (n ++ rest) = some (n, value ++ behind.takeWhile (!Python.isBlank ·)) := by
  obtain ⟨blanks, rfl, hblanks, hall⟩ := h
  have hword : ∀ {w : List Char}, (∀ a ∈ w, Python.isBlank a = false) →
      ∀ a ∈ w, (!Python.isBlank a) = true := fun hw a ha => by rw [hw a ha]; rfl
  have hstop : (blanks ++ (value ++ behind)).takeWhile (!Python.isBlank ·) = [] ∧
      (blanks ++ (value ++ behind)).dropWhile (!Python.isBlank ·) =
        blanks ++ (value ++ behind) := by
    cases blanks with
    | nil => exact absurd rfl hblanks
    | cons b blanks => simp [hall b List.mem_cons_self]
  have hstart : (value ++ behind).dropWhile Python.isBlank = value ++ behind := by
    cases value with
    | nil => exact absurd rfl hne
    | cons a value => simp [hblank a List.mem_cons_self]
  rw [Python.optionRe, List.takeWhile_append_of_pos (hword hchars),
    List.dropWhile_append_of_pos (hword hchars), hstop.1, hstop.2,
    List.dropWhile_append_of_pos hall, hstart, List.takeWhile_append_of_pos (hword hblank),
    List.append_nil]
  exact if_pos ⟨hn, List.append_ne_nil_of_left_ne_nil hblanks _,
    List.append_ne_nil_of_left_ne_nil hne _⟩

theorem trim_of_hasRest (h : HasRest o line rest) :
    ∃ n, IsName o n ∧ trim line = n ++ rest.rdropWhile isGarbage := by
  obtain ⟨before, n, rfl, hbefore, hn⟩ := h
  refine ⟨n, hn, ?_⟩
  rw [trim, Text.trim_append_of_forall hbefore,
    Text.trim_append hn.ne_nil (.of_forall fun a ha => (hn.nameChar a ha).1)]

theorem Config.IsName.take_one_ne {n : List Char} (h : IsName o n) (l : List Char) :
    (n ++ l).take 1 ≠ ['#'] := by
  cases n with
  | nil => exact absurd rfl h.ne_nil
  | cons a n =>
    intro heq
    have ha : a = '#' := by simpa using heq
    exact (h.nameChar a List.mem_cons_self).2.2.2 ha

/-- The expression for an option finds its name and the word behind that. -/
theorem search_optionRe_of_hasRest (hrest : HasRest o line rest) (h : Follows rest value behind)
    (hne : value ≠ []) (htrim : Text.Trimmed isGarbage value)
    (hblank : ∀ a ∈ value, Python.isBlank a = false) :
    ∃ n, IsName o n ∧ (trim line).take 1 ≠ ['#'] ∧ Python.search Python.optionRe (trim line) =
      some (n, value ++ (behind.rdropWhile isGarbage).takeWhile (!Python.isBlank ·)) := by
  obtain ⟨n, hn, heq⟩ := trim_of_hasRest hrest
  refine ⟨n, hn, heq ▸ hn.take_one_ne _, ?_⟩
  rw [heq]
  apply Python.search_of_eq_some
  exact optionRe_append hn.ne_nil
    (fun a ha => isBlank_of_not_isGarbage (hn.nameChar a ha).1) (h.rdropWhile hne htrim) hne hblank

/-- Behind a blank in a trimmed line there is another word. -/
theorem takeWhile_dropWhile_ne_nil {l : List Char} (hl : l ≠ [])
    (hlast : ∀ a ∈ l.getLast?, Python.isBlank a = false) :
    (l.dropWhile Python.isBlank).takeWhile (!Python.isBlank ·) ≠ [] := by
  cases hdrop : l.dropWhile Python.isBlank with
  | nil =>
    have hall := List.dropWhile_eq_nil_iff.1 hdrop _ (List.getLast_mem hl)
    rw [hlast _ (List.getLast?_eq_some_getLast hl)] at hall
    cases hall
  | cons a rest =>
    have hhead := List.head_dropWhile_not Python.isBlank (hdrop ▸ List.cons_ne_nil a rest)
    simp only [hdrop, List.head_cons] at hhead
    rw [List.takeWhile_cons_of_pos (by simp [hhead])]
    exact List.cons_ne_nil _ _

/-- On a trimmed line, the expression for an option matches at the beginning or not at all. -/
theorem search_optionRe_of_trimmed {item : List Char} (h : Text.Trimmed isGarbage item) :
    Python.search Python.optionRe item = Python.optionRe item := by
  cases hre : Python.optionRe item with
  | some b => exact Python.search_of_eq_some hre
  | none =>
    refine Python.search_eq_none fun s hs => if_neg fun hmatch => ?_
    have hs_blank : ¬ ∀ a ∈ s, (!Python.isBlank a) = true := fun hall =>
      hmatch.2.1 (List.dropWhile_eq_nil_iff.2 hall)
    have hitem : item ≠ [] := fun hnil => by
      rw [hnil, List.suffix_nil] at hs
      exact hs_blank (hs ▸ nofun)
    have hfirst : item.takeWhile (!Python.isBlank ·) ≠ [] := by
      cases item with
      | nil => exact absurd rfl hitem
      | cons a item =>
        have ha := isBlank_of_not_isGarbage (h.head a rfl)
        rw [List.takeWhile_cons_of_pos (by simp [ha])]
        exact List.cons_ne_nil _ _
    have hrest : item.dropWhile (!Python.isBlank ·) ≠ [] := fun hnil =>
      hs_blank fun a ha => List.dropWhile_eq_nil_iff.1 hnil a (hs.subset ha)
    have hlast : ∀ a ∈ (item.dropWhile (!Python.isBlank ·)).getLast?, Python.isBlank a = false := by
      intro a ha
      obtain ⟨t, ht⟩ := List.dropWhile_suffix (!Python.isBlank ·) (l := item)
      apply isBlank_of_not_isGarbage
      apply h.last
      rw [← ht, List.getLast?_append_of_ne_nil _ hrest]
      exact ha
    have hsecond := takeWhile_dropWhile_ne_nil hrest hlast
    rw [Python.optionRe, if_pos ⟨hfirst, hrest, hsecond⟩] at hre
    cases hre

/-- What the tools take for an option, the daemon does. -/
theorem sets_of_search {n : List Char}
    (h : Python.search Python.optionRe (trim line) = some (n, value)) (hn : IsName o n) :
    Sets o line := by
  have htrimmed : Text.Trimmed isGarbage (trim line) := Text.trimmed_trim isGarbage line
  rw [search_optionRe_of_trimmed htrimmed, Python.optionRe, Option.ite_none_right_eq_some] at h
  have hfirst : (trim line).takeWhile (!Python.isBlank ·) = n :=
    (Prod.ext_iff.1 (Option.some.inj h.2)).1
  obtain ⟨t, ht⟩ := List.rdropWhile_prefix isGarbage (line.dropWhile isGarbage)
  have hitem : trim line ++ t = line.dropWhile isGarbage := ht
  rw [← List.takeWhile_append_dropWhile (p := (!Python.isBlank ·)) (l := trim line), hfirst,
    List.append_assoc] at hitem
  have hrest : HasRest o line ((trim line).dropWhile (!Python.isBlank ·) ++ t) := by
    refine ⟨line.takeWhile isGarbage, n, ?_, fun a ha => List.mem_takeWhile_imp ha, hn⟩
    rw [hitem, List.takeWhile_append_dropWhile]
  exact (sets_iff_of_hasRest hrest).2 rfl

/-! ## Both -/

/-- What two runs of the readers over the same lines do: what a line sets, both have set to the
same, and what no line sets stays. -/
structure Follow (c : Config) (p : Python.Config) (lines : List (List Char)) (c' : Config)
    (p' : Python.Config) : Prop where
  dbaddr : (∃ line ∈ lines, Sets .dbaddr line) → DBAgree c'.dbinfo p'.db
  dbaddr_eq : (¬ ∃ line ∈ lines, Sets .dbaddr line) → c'.dbinfo = c.dbinfo ∧ p'.db = p.db
  hostname : (∃ line ∈ lines, Sets .hostname line) → c'.hostname = p'.server ∧ c'.hostname ≠ []
  hostname_eq : (¬ ∃ line ∈ lines, Sets .hostname line) →
    c'.hostname = c.hostname ∧ p'.server = p.server

theorem follow_singleton
    (hdb : (Sets .dbaddr line → DBAgree c'.dbinfo p'.db) ∧
      (¬ Sets .dbaddr line → c'.dbinfo = c.dbinfo ∧ p'.db = p.db))
    (hhost : (Sets .hostname line → c'.hostname = p'.server ∧ c'.hostname ≠ []) ∧
      (¬ Sets .hostname line → c'.hostname = c.hostname ∧ p'.server = p.server)) :
    Follow c p [line] c' p' := by
  have hiff : ∀ o, (∃ l ∈ [line], Sets o l) ↔ Sets o line := fun o =>
    ⟨fun ⟨l, hl, hs⟩ => List.mem_singleton.1 hl ▸ hs,
      fun hs => ⟨line, List.mem_singleton_self _, hs⟩⟩
  exact ⟨fun h => hdb.1 ((hiff _).1 h), fun h => hdb.2 (h ∘ (hiff _).2),
    fun h => hhost.1 ((hiff _).1 h), fun h => hhost.2 (h ∘ (hiff _).2)⟩

/-- A line that neither reader takes for the host name or the address. -/
theorem follow_other (h : ∀ o, Sets o line → o ≠ .dbaddr ∧ o ≠ .hostname)
    (hc : c.readLine line = .ok c') (hp : p.readLine line = .ok p') :
    Follow c p [line] c' p' := by
  have hdaemon : c'.dbinfo = c.dbinfo ∧ c'.hostname = c.hostname := by
    unfold Config.readLine at hc
    split at hc
    · cases hc
      exact ⟨rfl, rfl⟩
    unfold setOptionValue at hc
    split at hc
    next =>
      cases hc
      exact ⟨rfl, rfl⟩
    next o hfind =>
      have hsets := List.find?_some hfind
      obtain ⟨hdbaddr, hhostname⟩ := h o hsets
      obtain ⟨-, c₁, hprocess, rfl⟩ := setValue_eq_ok_iff.1 hc
      exact ⟨(process_frame hprocess).2.1 hdbaddr, (process_frame hprocess).2.2 hhostname⟩
  have htools : p' = p := by
    unfold Python.Config.readLine at hp
    simp only at hp
    split at hp
    · exact (Except.ok.inj hp).symm
    split at hp
    · exact (Except.ok.inj hp).symm
    next n value hsearch =>
      split at hp
      next hn => exact absurd rfl (h .dbaddr (sets_of_search hsearch hn)).1
      split at hp
      next hn => exact absurd rfl (h .hostname (sets_of_search hsearch hn)).2
      · exact (Except.ok.inj hp).symm
  refine follow_singleton ⟨fun hs => ?_, fun _ => ⟨hdaemon.1, htools ▸ rfl⟩⟩
    ⟨fun hs => ?_, fun _ => ⟨hdaemon.2, htools ▸ rfl⟩⟩
  · exact absurd rfl (h .dbaddr hs).1
  · exact absurd rfl (h .hostname hs).2

theorem head?_of_isPrefix {l l' : List Char} (h : l <+: l') : ∀ a ∈ l.head?, a ∈ l'.head? := by
  obtain ⟨t, rfl⟩ := h
  intro a ha
  rw [List.head?_append, Option.mem_def.1 ha]
  rfl

/-- What ends at once. -/
theorem takeWhile_eq_nil_of_head? {q : Char → Bool} {l : List Char}
    (h : ∀ a ∈ l.head?, q a = false) : l.takeWhile q = [] := by
  cases l with
  | nil => rfl
  | cons a l => exact List.takeWhile_cons_of_neg (by simp [h a rfl])

/-- Behind a word nothing is read, by the daemon or the tools. -/
theorem Config.WordEnd.nothing (h : WordEnd behind) :
    (uncomment behind).rdropWhile isGarbage = [] ∧
      (behind.rdropWhile isGarbage).takeWhile (!Python.isBlank ·) = [] := by
  obtain hall | ⟨⟨b, hb, hblank⟩, hall⟩ := h
  · rw [List.rdropWhile_eq_nil_iff.2 hall, List.rdropWhile_eq_nil_iff.2
      fun a ha => hall a ((uncomment_isPrefix behind).subset ha)]
    exact ⟨rfl, rfl⟩
  · refine ⟨List.rdropWhile_eq_nil_iff.2 hall, takeWhile_eq_nil_of_head? fun a ha => ?_⟩
    have hmem := head?_of_isPrefix (List.rdropWhile_prefix isGarbage behind) a ha
    rw [Option.mem_unique hmem hb, hblank]
    rfl

theorem follow_hostname (hrest : HasRest .hostname line rest) (hvalue : Follows rest value behind)
    (hword : IsWord value) (hend : WordEnd behind) (hc : c.readLine line = .ok c')
    (hp : p.readLine line = .ok p') : Follow c p [line] c' p' := by
  obtain ⟨hdaemon, htools⟩ := hend.nothing
  have hc' : c'.hostname = value ∧ c'.dbinfo = c.dbinfo := by
    rw [readLine_of_hasRest hrest,
      cleanLine_of_follows hvalue hword.ne_nil hword.trimmed hword.comment, hdaemon,
      List.append_nil] at hc
    obtain ⟨-, c₁, hprocess, rfl⟩ := setValue_eq_ok_iff.1 hc
    cases hprocess
    exact ⟨rfl, rfl⟩
  have hp' : p' = { p with server := value } := by
    obtain ⟨n, hn, htake, hsearch⟩ :=
      search_optionRe_of_hasRest hrest hvalue hword.ne_nil hword.trimmed hword.blank
    rw [htools, List.append_nil] at hsearch
    unfold Python.Config.readLine at hp
    simp only [if_neg htake, hsearch] at hp
    rw [show n.map Char.toLower = _ from hn, if_neg (by decide), if_pos (by rfl)] at hp
    exact (Except.ok.inj hp).symm
  refine follow_singleton ?_ ?_
  · rw [sets_iff_of_hasRest hrest]
    exact ⟨nofun, fun _ => ⟨hc'.2, hp' ▸ rfl⟩⟩
  · rw [sets_iff_of_hasRest hrest]
    refine ⟨fun _ => ⟨hp' ▸ hc'.1, ?_⟩, fun hne => absurd rfl hne⟩
    rw [hc'.1]
    exact hword.ne_nil

theorem mem_takeWhile_of_isPrefix {q : Char → Bool} {l l' : List Char} {a : Char} (h : l <+: l')
    (ha : a ∈ l.takeWhile q) : a ∈ l'.takeWhile q := by
  obtain ⟨t, rfl⟩ := h
  rw [List.takeWhile_append]
  split
  · exact List.mem_append_left _ ((List.takeWhile_prefix q).subset ha)
  · exact ha

theorem head?_rdropWhile_of_isBlank {b : Char} {l : List Char} (hl : l <+: behind)
    (hb : b ∈ behind.head?) : ∀ a ∈ (l.rdropWhile isGarbage).head?, a = b := fun a ha =>
  Option.mem_unique
    (head?_of_isPrefix ((List.rdropWhile_prefix isGarbage l).trans hl) a ha) hb

/-- What the daemon reads behind an address. -/
theorem Config.AddressEnd.nameEnd (h : AddressEnd behind) :
    DBAddress.NameEnd ((uncomment behind).rdropWhile isGarbage) := by
  obtain hall | ⟨b, hb, hblank⟩ | ⟨t, rfl, hslash⟩ := h
  · rw [List.rdropWhile_eq_nil_iff.2 fun a ha => hall a ((uncomment_isPrefix behind).subset ha)]
    exact .inl rfl
  · refine .inl (takeWhile_eq_nil_of_head? fun a ha => ?_)
    rw [head?_rdropWhile_of_isBlank (uncomment_isPrefix behind) hb a ha]
    simp only [Python.isBlank, Bool.or_eq_true, decide_eq_true_iff] at hblank
    obtain rfl | rfl := hblank <;> rfl
  · have huncomment : uncomment ('/' :: t) = '/' :: uncomment t :=
      uncomment_append (t := ['/']) (by decide)
    have htrim : ('/' :: uncomment t).rdropWhile isGarbage =
        '/' :: (uncomment t).rdropWhile isGarbage :=
      Text.rdropWhile_append (w := ['/']) fun a ha => by cases ha; rfl
    refine .inr ⟨((uncomment t).rdropWhile isGarbage).takeWhile (!Scanf.isSpace ·), ?_, fun hmem =>
      hslash (mem_takeWhile_of_isPrefix (List.rdropWhile_prefix isGarbage _) hmem)⟩
    rw [huncomment, htrim]
    rfl

/-- What the tools read behind an address. -/
theorem Config.AddressEnd.head? (h : AddressEnd behind) :
    ∀ a ∈ ((behind.rdropWhile isGarbage).takeWhile (!Python.isBlank ·)).head?, a = '/' := by
  intro a ha
  have hhead := head?_of_isPrefix (List.takeWhile_prefix _) a ha
  have hword := List.mem_takeWhile_imp (List.mem_of_head? ha)
  obtain hall | ⟨b, hb, hblank⟩ | ⟨t, rfl, -⟩ := h
  · rw [List.rdropWhile_eq_nil_iff.2 hall] at hhead
    cases hhead
  · rw [head?_rdropWhile_of_isBlank (List.prefix_refl behind) hb a hhead, hblank] at hword
    cases hword
  · exact head?_rdropWhile_of_isBlank (List.prefix_refl ('/' :: t)) rfl a hhead

theorem follow_dbaddr {a : DBAddress} (hrest : HasRest .dbaddr line rest)
    (hvalue : Follows rest a.text behind) (ha : a.WellFormed) (hend : AddressEnd behind)
    (hpwd : a.pwd = none → c.dbinfo.pwd = []) (hport : a.port = none → c.dbinfo.port = 0)
    (hc : c.readLine line = .ok c') (hp : p.readLine line = .ok p') : Follow c p [line] c' p' := by
  have hcomment : ∀ b ∈ a.text, b ≠ '\x00' ∧ b ≠ '#' := fun b hb =>
    ⟨(ha.text_chars b hb).2.1, (ha.text_chars b hb).1⟩
  have hblank : ∀ b ∈ a.text, Python.isBlank b = false := fun b hb => by
    simp [Python.isBlank, (ha.text_chars b hb).2.2]
  have hnul : '\x00' ∉ (uncomment behind).rdropWhile isGarbage := fun hmem =>
    (mem_uncomment ((List.rdropWhile_prefix isGarbage _).subset hmem)).1 rfl
  have hc' : c'.dbinfo = ⟨a.host, a.name, a.user, a.pwd.getD [], a.portNumber⟩ ∧
      c'.hostname = c.hostname := by
    rw [readLine_of_hasRest hrest,
      cleanLine_of_follows hvalue ha.text_ne_nil ha.text_trimmed hcomment] at hc
    obtain ⟨-, c₁, hprocess, rfl⟩ := setValue_eq_ok_iff.1 hc
    cases hprocess
    exact ⟨ha.setDBAddr_text hend.nameEnd hnul c.dbinfo hpwd hport, rfl⟩
  have hp' : p' = { p with db := ⟨a.host, a.portNumber, a.name, a.user, a.pwd.getD []⟩ } := by
    obtain ⟨n, hn, htake, hsearch⟩ :=
      search_optionRe_of_hasRest hrest hvalue ha.text_ne_nil ha.text_trimmed hblank
    unfold Python.Config.readLine at hp
    simp only [if_neg htake, hsearch] at hp
    rw [show n.map Char.toLower = _ from hn, if_pos (by rfl), ha.updateData_text hend.head?] at hp
    exact (Except.ok.inj hp).symm
  refine follow_singleton ?_ ?_
  · rw [sets_iff_of_hasRest hrest]
    refine ⟨fun _ => ?_, fun hne => absurd rfl hne⟩
    rw [hc'.1, hp']
    exact ⟨rfl, rfl, rfl, rfl, rfl⟩
  · rw [sets_iff_of_hasRest hrest]
    exact ⟨nofun, fun _ => ⟨hc'.2, hp' ▸ rfl⟩⟩

theorem follow_of_readAlike (h : ReadAlike c line) (hc : c.readLine line = .ok c')
    (hp : p.readLine line = .ok p') : Follow c p [line] c' p' := by
  cases h with
  | other h => exact follow_other h hc hp
  | hostname hrest hvalue hword hend => exact follow_hostname hrest hvalue hword hend hc hp
  | dbaddr hrest hvalue ha hend hpwd hport =>
    exact follow_dbaddr hrest hvalue ha hend hpwd hport hc hp

/-! ## The whole file -/

theorem Follow.refl (c : Config) (p : Python.Config) : Follow c p [] c p where
  dbaddr h := by simp at h
  dbaddr_eq _ := ⟨rfl, rfl⟩
  hostname h := by simp at h
  hostname_eq _ := ⟨rfl, rfl⟩

theorem exists_sets_cons : (∃ l ∈ line :: lines, Sets o l) ↔
    (∃ l ∈ [line], Sets o l) ∨ ∃ l ∈ lines, Sets o l := by
  simp

/-- The later lines decide; where they set nothing, the earlier ones do. -/
theorem Follow.cons (h : Follow c p [line] c₁ p₁) (h' : Follow c₁ p₁ lines c' p') :
    Follow c p (line :: lines) c' p' where
  dbaddr hsets := by
    by_cases hlines : ∃ l ∈ lines, Sets .dbaddr l
    · exact h'.dbaddr hlines
    · obtain ⟨hc, hp⟩ := h'.dbaddr_eq hlines
      rw [hc, hp]
      exact h.dbaddr ((exists_sets_cons.1 hsets).resolve_right hlines)
  dbaddr_eq hsets := by
    obtain ⟨hline, hlines⟩ := not_or.1 (exists_sets_cons.not.1 hsets)
    obtain ⟨hc, hp⟩ := h'.dbaddr_eq hlines
    obtain ⟨hc₁, hp₁⟩ := h.dbaddr_eq hline
    exact ⟨hc.trans hc₁, hp.trans hp₁⟩
  hostname hsets := by
    by_cases hlines : ∃ l ∈ lines, Sets .hostname l
    · exact h'.hostname hlines
    · obtain ⟨hc, hp⟩ := h'.hostname_eq hlines
      rw [hc, hp]
      exact h.hostname ((exists_sets_cons.1 hsets).resolve_right hlines)
  hostname_eq hsets := by
    obtain ⟨hline, hlines⟩ := not_or.1 (exists_sets_cons.not.1 hsets)
    obtain ⟨hc, hp⟩ := h'.hostname_eq hlines
    obtain ⟨hc₁, hp₁⟩ := h.hostname_eq hline
    exact ⟨hc.trans hc₁, hp.trans hp₁⟩

theorem follow_of_eachStep (halike : EachStep step ReadAlike c lines)
    (hc : lines.foldlM Config.readLine c = .ok c')
    (hp : lines.foldlM Python.Config.readLine p = .ok p') : Follow c p lines c' p' := by
  induction lines generalizing c p with
  | nil =>
    cases hc
    cases hp
    exact .refl _ _
  | cons line lines ih =>
    rw [List.foldlM_cons, bind_eq_ok_iff] at hc hp
    obtain ⟨c₁, hcline, hclines⟩ := hc
    obtain ⟨p₁, hpline, hplines⟩ := hp
    obtain ⟨hline, hlines⟩ := halike c₁ (by rw [step, hcline]; rfl)
    exact (follow_of_readAlike hline hcline hpline).cons (ih hlines hclines hplines)

/-- `load` on a file whose lines all fit. -/
theorem foldlM_getConfig (h : ∀ line ∈ file.splitOn '\n', line.length < lineSize) (c : Config) :
    (getConfig file).foldlM setOptionValue c = (file.splitOn '\n').foldlM Config.readLine c := by
  have hlines := getLines_append h []
  rw [List.append_nil] at hlines
  rw [getConfig, hlines, getLines, List.append_nil]
  generalize file.splitOn '\n' = lines
  induction lines generalizing c with
  | nil => rfl
  | cons line lines ih =>
    rw [List.map_cons, List.foldlM_cons, Config.readLine]
    by_cases hclean : cleanLine line = []
    · rw [List.filter_cons_of_neg (by simp [hclean]), if_pos hclean, ih]
      rfl
    · rw [List.filter_cons_of_pos (by simp [hclean]), if_neg hclean, List.foldlM_cons]
      exact congrArg _ (funext ih)

theorem foldlM_of_load {path : String} (h : p.load path file = .ok p') :
    (file.splitOn '\n').foldlM Python.Config.readLine p = .ok p' := by
  unfold Python.Config.load at h
  cases hfold : (file.splitOn '\n').foldlM Python.Config.readLine p with
  | error e =>
    rw [hfold] at h
    cases h
  | ok p₁ =>
    rw [hfold] at h
    exact congrArg Except.ok (Except.ok.inj h)

/-- On a file of lines that are read alike, the readers agree if it sets the address and the host
name, and otherwise not: they have different defaults. -/
theorem agree_iff {path : String} {gethostname : List Char}
    (hc : Config.new.load file gethostname = .ok c)
    (hp : Python.Config.new.load path file = .ok p)
    (hshort : ∀ line ∈ file.splitOn '\n', line.length < lineSize)
    (halike : EachStep step ReadAlike .new (file.splitOn '\n')) :
    Agree c p ↔ (∃ line ∈ file.splitOn '\n', Sets .dbaddr line) ∧
      ((∃ line ∈ file.splitOn '\n', Sets .hostname line) ∨ gethostname = []) := by
  obtain ⟨c₁, hfold, hlast⟩ := bind_eq_ok_iff.1 hc
  rw [foldlM_getConfig hshort] at hfold
  have hfollow := follow_of_eachStep halike hfold (foldlM_of_load hp)
  have hdbinfo : c.dbinfo = c₁.dbinfo := by
    split at hlast <;> cases hlast <;> rfl
  constructor
  · intro hagree
    constructor
    · by_contra hnone
      obtain ⟨hdb, hpdb⟩ := hfollow.dbaddr_eq hnone
      have hhost := hagree.dbinfo.host
      rw [hdbinfo, hdb, hpdb] at hhost
      exact absurd hhost (by decide)
    · by_contra hnone
      obtain ⟨hset, hempty⟩ := not_or.1 hnone
      obtain ⟨hhost, hserver⟩ := hfollow.hostname_eq hset
      have hnil : c₁.hostname = [] := hhost
      rw [if_pos hnil] at hlast
      cases hlast
      exact hempty (hagree.hostname.trans hserver)
  · rintro ⟨hdb, hhost⟩
    refine ⟨hdbinfo ▸ hfollow.dbaddr hdb, ?_⟩
    by_cases hset : ∃ line ∈ file.splitOn '\n', Sets .hostname line
    · obtain ⟨heq, hne⟩ := hfollow.hostname hset
      rw [if_neg hne] at hlast
      cases hlast
      exact heq
    · obtain ⟨hfresh, hserver⟩ := hfollow.hostname_eq hset
      have hnil : c₁.hostname = [] := hfresh
      rw [if_pos hnil] at hlast
      cases hlast
      exact (hhost.resolve_left hset).trans hserver.symm

/-! ## Two files -/

/-- A file like that of the tests. -/
def testFile : List Char := "HostName  server\nDatabase  user:pwd@host:1234/name/\n".toList

def testAddress : DBAddress where
  user := "user".toList
  pwd := some "pwd".toList
  host := "host".toList
  port := some "1234".toList
  name := "name".toList

theorem testAddress_wellFormed : testAddress.WellFormed where
  user_ne_nil := by decide
  user_trimmed := .of_forall (by decide)
  user := by decide
  pwd := by
    rintro _ ⟨⟩
    decide
  host_ne_nil := by decide
  host := by decide
  port := by
    rintro _ ⟨⟩
    exact ⟨⟨'1', rfl, rfl⟩, by decide⟩
  port_lt := by decide
  name_ne_nil := by decide
  name := by decide

theorem testFile_readAlike : EachStep step ReadAlike .new (testFile.splitOn '\n') := by
  have hlines : testFile.splitOn '\n' = ["HostName  server".toList,
      "Database  user:pwd@host:1234/name/".toList, []] := by decide
  rw [hlines]
  refine fun _ _ => ⟨?_, fun _ _ => ⟨?_, fun _ _ => ⟨?_, trivial⟩⟩⟩
  · have hrest : HasRest .hostname "HostName  server".toList "  server".toList :=
      ⟨[], "HostName".toList, rfl, nofun, rfl⟩
    have hvalue : Follows "  server".toList "server".toList [] :=
      ⟨"  ".toList, rfl, by decide, by decide⟩
    exact .hostname hrest hvalue ⟨by decide, .of_forall (by decide), by decide, by decide⟩
      (.inl nofun)
  · have hrest : HasRest .dbaddr "Database  user:pwd@host:1234/name/".toList
        "  user:pwd@host:1234/name/".toList :=
      ⟨[], "Database".toList, rfl, nofun, rfl⟩
    have hvalue : Follows "  user:pwd@host:1234/name/".toList
        testAddress.text ['/'] := ⟨"  ".toList, rfl, by decide, by decide⟩
    exact .dbaddr hrest hvalue testAddress_wellFormed (.inr (.inr ⟨[], rfl, by decide⟩)) nofun nofun
  · refine .other fun o ho => ?_
    unfold Sets at ho
    cases o <;> exact absurd ho (by decide)

theorem exists_of_map_toOption {α β : Type} {x : Except String α} {f : α → β} {b : β}
    (h : x.toOption.map f = some b) : ∃ a, x = .ok a ∧ f a = b := by
  cases x with
  | error e => cases h
  | ok a => exact ⟨a, rfl, Option.some.inj h⟩

theorem agree_testFile : ∃ c p, Config.new.load testFile [] = .ok c ∧
    Python.Config.new.load "" testFile = .ok p ∧ Agree c p := by
  obtain ⟨c, hc, -⟩ := exists_of_map_toOption (x := Config.new.load testFile [])
    (f := fun _ => ()) (b := ()) (by decide)
  obtain ⟨p, hp, -⟩ := exists_of_map_toOption (x := Python.Config.new.load "" testFile)
    (f := fun _ => ()) (b := ()) (by decide)
  have hsets : ∀ o ∈ [OptionName.dbaddr, .hostname],
      ∃ line ∈ testFile.splitOn '\n', isOptionMatch (cleanLine line) o.getName := by decide
  exact ⟨c, p, hc, hp, (agree_iff hc hp (by decide) testFile_readAlike).2
    ⟨hsets .dbaddr (by decide), .inl (hsets .hostname (by decide))⟩⟩

/-- The second address has neither password nor port. -/
def staleFile : List Char := "Database a:b@h:1/n\nDatabase a@h/n\nHostName s\n".toList

theorem staleFile_not_agree : ∃ c p, Config.new.load staleFile [] = .ok c ∧
    Python.Config.new.load "" staleFile = .ok p ∧ ¬ Agree c p := by
  obtain ⟨c, hc, hport⟩ := exists_of_map_toOption (x := Config.new.load staleFile [])
    (f := fun c => c.dbinfo.port) (b := 1) (by decide)
  obtain ⟨p, hp, hport'⟩ := exists_of_map_toOption (x := Python.Config.new.load "" staleFile)
    (f := fun p => p.db.port) (b := 0) (by decide)
  refine ⟨c, p, hc, hp, fun h => ?_⟩
  have heq : c.dbinfo.port = p.db.port := h.dbinfo.port
  rw [hport, hport'] at heq
  cases heq

end Kalinka
