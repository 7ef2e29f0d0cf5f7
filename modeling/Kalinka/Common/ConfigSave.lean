import Kalinka.Common.Config

/-!
# Saving and loading the configuration

`save` writes the values as they are.  `load` cuts a line at a `#`, trims it, and reads no more than
fits into its buffer.  `roundTrip_iff` says exactly which values come back.
-/

namespace Kalinka

open Utils

namespace Config

/-- The configurations that the options and the files can lead to. -/
inductive Reachable : Config → Prop
  | new : Reachable new
  | setValue {c c' : Config} {option : OptionName} {value : List Char} (hc : Reachable c)
      (hvalue : '\n' ∉ value) (h : c.setValue option value = .ok c') : Reachable c'
  | load {c c' : Config} {file gethostname : List Char} (hc : Reachable c)
      (h : c.load file gethostname = .ok c') : Reachable c'

/-- The value comes back from the line of its option. -/
structure Plain (option : OptionName) (value : List Char) : Prop where
  hash : '#' ∉ value
  nul : '\x00' ∉ value
  trimmed : Text.Trimmed isGarbage value
  fits : option.getName.length + 3 + value.length < lineSize

variable {c c₀ c₁ c' : Config} {o o' : OptionName} {os : List OptionName} {v u rest : List Char}
  {now : CurrentTime} {gethostname : List Char}

/-! ## The file -/

/-- The comment above an option. -/
def comment (o : OptionName) : List Char :=
  "#\n".toList ++ ("# ".toList ++ o.getSummary ++ "\n".toList) ++
    ("# ".toList ++ replaceAll o.getDescription '\n' "\n#".toList ++ "\n".toList) ++ ['#']

theorem comment_skipped (o : OptionName) :
    ∀ l ∈ (comment o).splitOn '\n', cleanLine l = [] ∧ l.length < lineSize := by
  cases o <;> decide

/-- The line that is written for an option. -/
def line (c : Config) (o : OptionName) : List Char := o.getName ++ ("   ".toList ++ c.value o)

theorem saveOption_append (c : Config) (o : OptionName) (rest : List Char) :
    c.saveOption o ++ rest = comment o ++ '\n' :: (c.line o ++ '\n' :: '\n' :: rest) := by
  simp [saveOption, comment, line]

theorem newline_notMem_getName (o : OptionName) : '\n' ∉ o.getName := by
  cases o <;> decide

theorem newline_notMem_line (h : '\n' ∉ c.value o) : '\n' ∉ c.line o := by
  simp [line, h, newline_notMem_getName o]

theorem hasRest_line (o : OptionName) (v : List Char) :
    HasRest o (o.getName ++ ("   ".toList ++ v)) ("   ".toList ++ v) :=
  ⟨[], o.getName, rfl, nofun, isName_getName o⟩

/-- What `load` makes of a line of `save`. -/
theorem setOptionValue_line (c : Config) (o : OptionName) (v : List Char) :
    c.setOptionValue (cleanLine (o.getName ++ ("   ".toList ++ v))) =
      c.setValue o (cleanLine v) := by
  have hblanks : cleanLine ("   ".toList ++ v) = cleanLine v := by
    rw [cleanLine, uncomment_append (by decide), trim, Text.trim_append_of_forall (by decide)]
    rfl
  rw [setOptionValue_of_hasRest (hasRest_line o v), hblanks]

theorem getConfig_blank_line (rest : List Char) : getConfig ('\n' :: rest) = getConfig rest := by
  have h := getConfig_append (t := []) (by decide) rest
  rwa [getConfig_nil, List.nil_append] at h

/-- Loading what is written for an option that fits, and what is below it. -/
theorem foldlM_saveOption (hv : '\n' ∉ c.value o) (hfits : (c.line o).length < lineSize)
    (c₀ : Config) (rest : List Char) :
    (getConfig (c.saveOption o ++ rest)).foldlM setOptionValue c₀ =
      c₀.setValue o (cleanLine (c.value o)) >>= (getConfig rest).foldlM setOptionValue := by
  rw [saveOption_append, getConfig_skip (comment_skipped o),
    getConfig_line (newline_notMem_line hv) hfits (cleanLine_ne_nil_of_hasRest (hasRest_line o _)),
    getConfig_blank_line, List.foldlM_cons, line, setOptionValue_line]

/-- Of a line that does not fit, the value is cut, and nothing below it is read. -/
theorem foldlM_saveOption_long (hv : '\n' ∉ c.value o) (hfits : ¬ (c.line o).length < lineSize)
    (c₀ : Config) (rest : List Char) :
    (getConfig (c.saveOption o ++ rest)).foldlM setOptionValue c₀ =
      c₀.setValue o (cleanLine ((c.value o).take (lineSize - 4 - o.getName.length))) := by
  have hlen := length_getName_le o
  have htake : (c.line o).take (lineSize - 1) = o.getName ++ ("   ".toList ++
      (c.value o).take (lineSize - 4 - o.getName.length)) := by
    have hname : (lineSize - 1 - o.getName.length) = 3 + (lineSize - 4 - o.getName.length) := by
      unfold lineSize
      omega
    rw [line, List.take_append, List.take_of_length_le (by unfold lineSize; omega), hname,
      List.take_append, List.take_of_length_le (by simp)]
    simp
  rw [saveOption_append, getConfig_skip (comment_skipped o),
    getConfig_long_line (newline_notMem_line hv) hfits
      (htake ▸ cleanLine_ne_nil_of_hasRest (hasRest_line o _)),
    htake, List.foldlM_cons, setOptionValue_line]
  simp

theorem length_line (c : Config) (o : OptionName) :
    (c.line o).length = o.getName.length + 3 + (c.value o).length := by
  simp [line]
  omega

theorem plain_iff :
    Plain o (c.value o) ↔ (c.line o).length < lineSize ∧ cleanLine (c.value o) = c.value o := by
  rw [cleanLine_eq_self_iff, length_line]
  exact ⟨fun h => ⟨h.fits, h.hash, h.nul, h.trimmed⟩, fun h => ⟨h.2.1, h.2.2.1, h.2.2.2, h.1⟩⟩

/-- What is written for some options sets no other. -/
theorem value_foldlM_of_notMem (hv : ∀ o, '\n' ∉ c.value o) (ho : o ∉ os)
    (h : (getConfig (os.flatMap c.saveOption)).foldlM setOptionValue c₀ = .ok c') :
    c'.value o = c₀.value o := by
  induction os generalizing c₀ with
  | nil =>
    cases h
    rfl
  | cons o' os ih =>
    obtain ⟨hne, hos⟩ := not_or.1 (List.mem_cons.not.1 ho)
    rw [List.flatMap_cons] at h
    by_cases hfits : (c.line o').length < lineSize
    · rw [foldlM_saveOption (hv o') hfits] at h
      obtain ⟨c₁, hset, hrest⟩ := bind_eq_ok_iff.1 h
      rw [ih hos hrest, value_setValue hset, Function.update_of_ne hne]
    · rw [foldlM_saveOption_long (hv o') hfits] at h
      rw [value_setValue h, Function.update_of_ne hne]

/-- Loading what is written for some options. -/
theorem exists_foldlM_iff (hv : ∀ o, '\n' ∉ c.value o)
    (haccept : ∀ o c₀, ∃ c₁, setValue c₀ o (c.value o) = .ok c₁) (hos : os.Nodup) (c₀ : Config) :
    (∃ c', (getConfig (os.flatMap c.saveOption)).foldlM setOptionValue c₀ = .ok c' ∧
      ∀ o ∈ os, c'.value o = c.value o) ↔ ∀ o ∈ os, Plain o (c.value o) := by
  induction os generalizing c₀ with
  | nil => exact iff_of_true ⟨c₀, rfl, nofun⟩ nofun
  | cons o os ih =>
    obtain ⟨ho, hos⟩ := List.nodup_cons.1 hos
    rw [List.forall_mem_cons, plain_iff, List.flatMap_cons]
    by_cases hfits : (c.line o).length < lineSize
    · simp only [foldlM_saveOption (hv o) hfits, bind_eq_ok_iff, List.forall_mem_cons]
      constructor
      · rintro ⟨c', ⟨c₁, hset, hrest⟩, hvalue, hall⟩
        refine ⟨⟨hfits, ?_⟩, (ih hos c₁).1 ⟨c', hrest, hall⟩⟩
        have hback := value_foldlM_of_notMem hv ho hrest
        rw [hvalue, value_setValue hset, Function.update_self] at hback
        exact hback.symm
      · rintro ⟨⟨-, hclean⟩, hall⟩
        obtain ⟨c₁, hset⟩ := haccept o c₀
        obtain ⟨c', hrest, hvalues⟩ := (ih hos c₁).2 hall
        refine ⟨c', ⟨c₁, hclean.symm ▸ hset, hrest⟩, ?_, hvalues⟩
        rw [value_foldlM_of_notMem hv ho hrest, value_setValue hset, Function.update_self]
    · refine iff_of_false ?_ fun h => hfits h.1.1
      rintro ⟨c', hload, hall⟩
      rw [foldlM_saveOption_long (hv o) hfits] at hload
      have hvalue := hall o List.mem_cons_self
      rw [value_setValue hload, Function.update_self] at hvalue
      have hlen := length_line c o
      have hname := length_getName_le o
      have hcut := (congrArg List.length hvalue).symm.le.trans length_cleanLine_le
      rw [List.length_take] at hcut
      unfold lineSize at hfits hcut
      omega

theorem getConfig_saveHeader (now : CurrentTime) (rest : List Char) :
    getConfig (saveHeader now ++ rest) = getConfig rest := by
  have hheader : saveHeader now ++ rest = "#\n# Kalinka configuration file".toList ++ '\n' ::
      ('#' :: (" Automatically generated at ".toList ++ now.text) ++ '\n' ::
        ("#\n".toList ++ '\n' :: rest)) := by
    simp [saveHeader]
  have hnewline : '\n' ∉ '#' :: (" Automatically generated at ".toList ++ now.text) := by
    simpa using now.newline_notMem
  have hlength := now.length_eq
  rw [hheader, getConfig_skip (by decide), getConfig_skip, getConfig_skip (by decide)]
  rw [List.splitOn_eq_singleton hnewline]
  intro l hl
  rw [List.mem_singleton.1 hl]
  exact ⟨rfl, by simp [hlength, lineSize]⟩

/-! ## What has been set -/

/-- The invariant of the options: their processors have taken the values. -/
structure Valid (c : Config) : Prop where
  newline : ∀ o, '\n' ∉ c.value o
  accepted : ∀ o c₀, ∃ c₁, setValue c₀ o (c.value o) = .ok c₁

theorem Valid.setValue (hc : c.Valid) (hv : '\n' ∉ v) (h : c.setValue o v = .ok c') : c'.Valid := by
  constructor
  · intro o'
    rw [value_setValue h]
    by_cases heq : o' = o
    · rw [heq, Function.update_self]
      exact hv
    · rw [Function.update_of_ne heq]
      exact hc.newline o'
  · intro o' c₀
    rw [value_setValue h]
    by_cases heq : o' = o
    · rw [heq, Function.update_self]
      exact exists_setValue h c₀
    · rw [Function.update_of_ne heq]
      exact hc.accepted o' c₀

theorem Valid.setOptionValue {l : List Char} (hc : c.Valid) (hl : '\n' ∉ l)
    (h : c.setOptionValue l = .ok c') : c'.Valid := by
  unfold Config.setOptionValue at h
  split at h
  · cases h
    exact hc
  · exact hc.setValue (fun hmem => hl (List.mem_of_mem_drop (Text.trim_subset hmem))) h

theorem Valid.foldlM {lines : List (List Char)} (hc : c.Valid) (hlines : ∀ l ∈ lines, '\n' ∉ l)
    (h : lines.foldlM Config.setOptionValue c = .ok c') : c'.Valid := by
  induction lines generalizing c with
  | nil =>
    cases h
    exact hc
  | cons l lines ih =>
    obtain ⟨hl, hrest⟩ := List.forall_mem_cons.1 hlines
    obtain ⟨c₁, hset, hfold⟩ := bind_eq_ok_iff.1 h
    exact ih (hc.setOptionValue hl hset) hrest hfold

theorem valid_new : new.Valid := by
  constructor
  · intro o
    cases o <;> decide
  · intro o c₀
    cases o <;> exact ⟨_, rfl⟩

theorem value_load {file : List Char} (h : c.load file gethostname = .ok c') :
    ∃ c₁, (getConfig file).foldlM setOptionValue c = .ok c₁ ∧ c'.value = c₁.value := by
  obtain ⟨c₁, hfold, hhost⟩ := bind_eq_ok_iff.1 h
  refine ⟨c₁, hfold, ?_⟩
  split at hhost <;> cases hhost <;> rfl

theorem exists_load {file : List Char} (h : (getConfig file).foldlM setOptionValue c = .ok c₁)
    (gethostname : List Char) : ∃ c', c.load file gethostname = .ok c' ∧ c'.value = c₁.value := by
  refine ⟨_, bind_eq_ok_iff.2 ⟨c₁, h, rfl⟩, ?_⟩
  split <;> rfl

theorem Reachable.valid (h : Reachable c) : c.Valid := by
  induction h with
  | new => exact valid_new
  | setValue _ hvalue hset ih => exact ih.setValue hvalue hset
  | load _ hload ih =>
    obtain ⟨c₁, hfold, hvalue⟩ := value_load hload
    have hc₁ := ih.foldlM (fun l hl => newline_notMem_of_mem_getConfig hl) hfold
    exact ⟨fun o => hvalue ▸ hc₁.newline o, fun o => hvalue ▸ hc₁.accepted o⟩

theorem Valid.load_save_iff (h : c.Valid) (c₀ : Config) (now : CurrentTime)
    (gethostname : List Char) : (∃ c', c₀.load (c.save now) gethostname = .ok c' ∧
    c'.value = c.value) ↔ ∀ o, Plain o (c.value o) := by
  have hmem : ∀ o, o ∈ OptionName.all := by
    intro o
    cases o <;> decide
  have hiff := exists_foldlM_iff h.newline h.accepted (show OptionName.all.Nodup by decide) c₀
  simp only [hmem, forall_const] at hiff
  rw [← hiff, save]
  constructor
  · rintro ⟨c', hload, hvalue⟩
    obtain ⟨c₁, hfold, hvalue₁⟩ := value_load hload
    rw [getConfig_saveHeader] at hfold
    exact ⟨c₁, hfold, fun o => by rw [← hvalue₁, hvalue]⟩
  · rintro ⟨c₁, hfold, hvalue⟩
    rw [← getConfig_saveHeader now] at hfold
    obtain ⟨c', hload, hvalue'⟩ := exists_load hfold gethostname
    exact ⟨c', hload, hvalue'.trans (funext hvalue)⟩

/-- Whatever the object has been before, loading the saved file gives the values back exactly if all
of them are plain. -/
theorem roundTrip_iff (h : Reachable c) : (∃ c', c₀.load (c.save now) gethostname = .ok c' ∧
    c'.value = c.value) ↔ ∀ o, Plain o (c.value o) :=
  h.valid.load_save_iff c₀ now gethostname

def someTime : CurrentTime := ⟨"2012-02-03 12:00:00".toList, by decide, by decide⟩

/-- Every option gets a value that is not its default, and a new object reads it back. -/
theorem roundTrip_set : ∃ c c', [(.dbaddr, "klk:secret@db1/streams".toList),
      (.hostname, "node 1 = a".toList), (.snmpreceiver, "nms:1162".toList),
      (.snmpcommunity, "private".toList)].foldlM (fun c opt => setValue c opt.1 opt.2) new =
        .ok c ∧
      (∀ o, c.value o ≠ new.value o) ∧
      new.load (c.save someTime) [] = .ok c' ∧ c'.value = c.value := by
  have hdb := Reachable.new.setValue (by decide)
    (show new.setValue .dbaddr "klk:secret@db1/streams".toList = .ok _ from rfl)
  have hhost := hdb.setValue (by decide)
    (show setValue _ .hostname "node 1 = a".toList = .ok _ from rfl)
  have hreceiver := hhost.setValue (by decide)
    (show setValue _ .snmpreceiver "nms:1162".toList = .ok _ from rfl)
  have hc := hreceiver.setValue (by decide)
    (show setValue _ .snmpcommunity "private".toList = .ok _ from rfl)
  obtain ⟨c', hload, hvalue⟩ : ∃ c', new.load (save _ someTime) [] = .ok c' ∧ c'.value = _ :=
    (roundTrip_iff hc).2 fun o => plain_iff.2 (by cases o <;> decide)
  exact ⟨_, c', rfl, fun o => by cases o <;> decide, hload, hvalue⟩

/-- The host name comes back without what is behind the `#`. -/
theorem hash_not_roundTrip : ∃ c, new.setValue .hostname "a#b".toList = .ok c ∧
    ¬ ∃ c', new.load (c.save someTime) [] = .ok c' ∧ c'.value = c.value := by
  refine ⟨_, rfl, fun h => ?_⟩
  have hvalid := valid_new.setValue (o := .hostname) (v := "a#b".toList) (by decide) rfl
  have hplain := (hvalid.load_save_iff new someTime []).1 h .hostname
  exact absurd hplain.hash (by decide)

end Config

end Kalinka
