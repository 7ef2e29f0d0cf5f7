import Kalinka.Common.Utils

/-!
# Schedules

`CrontabParser` reads when a task is to be started, in the form of crontab(5): an alias, or five
fields of a minute, an hour, a day of the month, a month and a day of the week.  The constructor
checks the fields, and `isMatch` compares them with the components of a `struct tm`, which counts
the months from 0 and has no seventh day of the week.

`meetsCrontab_iff` says for which texts that does what crontab(5) says.
-/

namespace Kalinka.Trans

open Decimal Text Utils

/-! ## Time -/

/-- The days of a month that is counted from 0, in a leap year. -/
def daysIn : ℕ → ℕ
  | 1 => 29
  | 3 | 5 | 8 | 10 => 30
  | _ => 31

theorem daysIn_le (mon : ℕ) : daysIn mon ≤ 31 := by
  unfold daysIn
  split <;> decide

theorem one_le_daysIn (mon : ℕ) : 1 ≤ daysIn mon := by
  unfold daysIn
  split <;> decide

/-- Behind a short month comes a long one of the same year. -/
theorem daysIn_succ {mon : ℕ} (h : daysIn mon < 31) : mon + 1 < 12 ∧ daysIn (mon + 1) = 31 := by
  unfold daysIn at h
  split at h <;> first | decide | exact absurd h (Nat.lt_irrefl 31)

/-- The components of a `struct tm` that schedules are about. -/
structure Tm where
  min : ℕ
  hour : ℕ
  mday : ℕ
  mon : ℕ
  wday : ℕ
  min_lt : min < 60
  hour_lt : hour < 24
  mon_lt : mon < 12
  wday_lt : wday < 7
  mday_pos : 1 ≤ mday
  mday_le : mday ≤ daysIn mon

/-! ## The parser -/

namespace Schedule

def reboot : List Char := "@reboot".toList
def yearly : List Char := "@yearly".toList
def annually : List Char := "@annually".toList
def monthly : List Char := "@monthly".toList
def weekly : List Char := "@weekly".toList
def daily : List Char := "@daily".toList
def midnight : List Char := "@midnight".toList
def hourly : List Char := "@hourly".toList
def always : List Char := "@always".toList

end Schedule

/-- `ALIASES` -/
def aliases : List (List Char × List Char) :=
  [(Schedule.always, "* * * * *".toList),
   (Schedule.yearly, "0 0 1 1 *".toList),
   (Schedule.annually, "0 0 1 1 *".toList),
   (Schedule.monthly, "0 0 1 * *".toList),
   (Schedule.weekly, "0 0 * * 0".toList),
   (Schedule.daily, "0 0 * * *".toList),
   (Schedule.midnight, "0 0 * * *".toList),
   (Schedule.hourly, "0 * * * *".toList)]

/-- `"*"`, which stands for every value. -/
def asterisk : List Char := ['*']

structure CrontabParser where
  minute : List Char
  hour : List Char
  dayOfMonth : List Char
  month : List Char
  dayOfWeek : List Char
  deriving DecidableEq, Repr

namespace CrontabParser

/-- The check of a field in `init`. -/
def checkField (name interval : String) (lo hi : ℤ) (field : List Char) : Except String Unit :=
  if field = asterisk then .ok ()
  else
    match lexicalCastInt field with
    | none => .error "bad lexical cast"
    | some n =>
      if n < lo ∨ n > hi then
        .error ("Invalid " ++ name ++ " field: " ++ String.ofList field ++
          ". Should be a number in the following interval " ++ interval ++ " or asterisk (*)")
      else .ok ()

def checkMinute : List Char → Except String Unit := checkField "minute" "[0-59]" 0 59
def checkHour : List Char → Except String Unit := checkField "hour" "[0-23] " 0 23
def checkDayOfMonth : List Char → Except String Unit := checkField "day_of_month" "[1-31]" 1 31
def checkMonth : List Char → Except String Unit := checkField "month" "[1-12]" 1 12
def checkDayOfWeek : List Char → Except String Unit := checkField "day_of_week" "[0-7] " 0 7

def init (info : List Char) : Except String CrontabParser :=
  match split info " \t\r\n".toList with
  | [minute, hour, dayOfMonth, month, dayOfWeek] => do
    checkMinute minute
    checkHour hour
    checkDayOfMonth dayOfMonth
    checkMonth month
    checkDayOfWeek dayOfWeek
    return ⟨minute, hour, dayOfMonth, month, dayOfWeek⟩
  | _ => .error ("Incorrect format for crontab: " ++ String.ofList info ++
      ". There are should be 5 fields.")

/-- The constructor; the fields stay empty for `@reboot`. -/
def new (info : List Char) : Except String CrontabParser :=
  if info = Schedule.reboot then .ok ⟨[], [], [], [], []⟩
  else
    match aliases.lookup info with
    | some expansion => init expansion
    | none => init info

/-- `check`: a pattern that is no number is logged and does not match. -/
def check (pattern : List Char) (val : ℤ) : Bool :=
  pattern = asterisk || lexicalCastInt pattern = some val

def isMatch (p : CrontabParser) (checktime : Tm) : Bool :=
  check p.minute checktime.min && check p.hour checktime.hour &&
    check p.dayOfMonth checktime.mday && check p.month checktime.mon &&
    check p.dayOfWeek checktime.wday

end CrontabParser

/-- The members of `ScheduleInfo` that say when a task starts; `once` is whether it is `@reboot`. -/
structure StartInfo extends CrontabParser where
  once : Bool
  deriving DecidableEq, Repr

namespace StartInfo

def new (start : List Char) : Except String StartInfo := do
  let parser ← CrontabParser.new start
  return ⟨parser, start = Schedule.reboot⟩

/-- `needStart`, with what `getRunningCount()` and `getActualDuration()` give. -/
def needStart (info : StartInfo) (runningCount actualDuration : ℕ) (now : Tm) : Bool :=
  if info.once then
    if runningCount > 0 || actualDuration > 0 then false else true
  else info.isMatch now && actualDuration = 0

end StartInfo

/-! ## crontab(5) -/

namespace Crontab

def isBlank (c : Char) : Bool := c ∈ [' ', '\t', '\r', '\n']

/-- A field may be an asterisk or a number of its range. -/
def ValidField (lo hi : ℤ) (field : List Char) : Prop :=
  field = asterisk ∨ ∃ n, Denotes field n ∧ lo ≤ n ∧ n ≤ hi

/-- The fields of a text that is no alias. -/
structure Fields (text : List Char) (f : CrontabParser) : Prop where
  words : Words isBlank text [f.minute, f.hour, f.dayOfMonth, f.month, f.dayOfWeek]
  minute : ValidField 0 59 f.minute
  hour : ValidField 0 23 f.hour
  dayOfMonth : ValidField 1 31 f.dayOfMonth
  month : ValidField 1 12 f.month
  dayOfWeek : ValidField 0 7 f.dayOfWeek

/-- What an alias stands for; anything else stands for itself. -/
def expansion (text : List Char) : List Char := (aliases.lookup text).getD text

/-- The texts that are schedules. -/
def Schedule (text : List Char) : Prop :=
  text = Schedule.reboot ∨ (aliases.lookup text).isSome ∨ ∃ f, Fields text f

/-- A field stands for a value. -/
def Covers (field : List Char) (n : ℤ) : Prop := field = asterisk ∨ Denotes field n

/-- The time is one that the fields stand for: January is 1, and Sunday is 0 and 7. -/
structure Matches (f : CrontabParser) (tm : Tm) : Prop where
  minute : Covers f.minute tm.min
  hour : Covers f.hour tm.hour
  dayOfMonth : Covers f.dayOfMonth tm.mday
  month : Covers f.month (tm.mon + 1)
  dayOfWeek : Covers f.dayOfWeek tm.wday ∨ tm.wday = 0 ∧ Covers f.dayOfWeek 7

end Crontab

variable {name interval : String} {lo hi m n : ℤ} {field text : List Char} {f p : CrontabParser}
variable {tm : Tm}

/-! ## What the constructor accepts -/

open CrontabParser Crontab

theorem checkField_eq_ok_iff (hlo : -2 ^ 31 ≤ lo) (hhi : hi < 2 ^ 31) :
    checkField name interval lo hi field = .ok () ↔ ValidField lo hi field := by
  unfold checkField ValidField
  by_cases hast : field = asterisk
  · rw [if_pos hast]
    exact iff_of_true rfl (.inl hast)
  rw [if_neg hast, or_iff_right hast]
  cases hcast : lexicalCastInt field with
  | none =>
    apply iff_of_false nofun
    rintro ⟨n, hn, hge, hle⟩
    have hsome := lexicalCastInt_eq_some_iff.2 ⟨hn, by omega, by omega⟩
    rw [hcast] at hsome
    cases hsome
  | some n =>
    have hn := (lexicalCastInt_eq_some_iff.1 hcast).1
    show (if n < lo ∨ n > hi then _ else Except.ok ()) = .ok () ↔ _
    split
    next hout =>
      apply iff_of_false nofun
      rintro ⟨m, hm, hge, hle⟩
      have hmn := hm.unique hn
      omega
    next hin =>
      have hin : lo ≤ n ∧ n ≤ hi := by omega
      exact iff_of_true rfl ⟨n, hn, hin⟩

theorem check_iff (h : -2 ^ 31 ≤ n ∧ n < 2 ^ 31) : check field n ↔ Covers field n := by
  unfold check Covers
  rw [Bool.or_eq_true, decide_eq_true_iff, decide_eq_true_iff, lexicalCastInt_eq_some_iff,
    and_iff_left h]

theorem split_eq_iff {ws : List (List Char)} :
    split text " \t\r\n".toList = ws ↔ Words isBlank text ws := words_iff.symm

theorem bind_unit_eq_ok_iff {x : Except String Unit} {g : Unit → Except String CrontabParser} :
    x >>= g = .ok p ↔ x = .ok () ∧ g () = .ok p :=
  bind_eq_ok_iff.trans ⟨fun ⟨_, h⟩ => h, fun h => ⟨(), h⟩⟩

/-- `init` takes the texts of five fields in range. -/
theorem init_eq_ok_iff : init text = .ok p ↔ Fields text p := by
  unfold init
  split
  next minute hour dayOfMonth month dayOfWeek hsplit =>
    have hwords := split_eq_iff.1 hsplit
    simp only [bind_unit_eq_ok_iff, checkMinute, checkHour, checkDayOfMonth, checkMonth,
      checkDayOfWeek]
    rw [checkField_eq_ok_iff (by decide) (by decide), checkField_eq_ok_iff (by decide) (by decide),
      checkField_eq_ok_iff (by decide) (by decide), checkField_eq_ok_iff (by decide) (by decide),
      checkField_eq_ok_iff (by decide) (by decide)]
    constructor
    · rintro ⟨hminute, hhour, hday, hmonth, hweekday, heq⟩
      cases heq
      exact ⟨hwords, hminute, hhour, hday, hmonth, hweekday⟩
    · intro h
      have heq := hwords.unique h.words
      simp only [List.cons.injEq, and_true] at heq
      obtain ⟨rfl, rfl, rfl, rfl, rfl⟩ := heq
      exact ⟨h.minute, h.hour, h.dayOfMonth, h.month, h.dayOfWeek, rfl⟩
  next hsplit =>
    apply iff_of_false nofun
    intro h
    exact hsplit _ _ _ _ _ (split_eq_iff.2 h.words)

/-- Every alias stands for a schedule that the constructor takes. -/
theorem exists_init_of_lookup {expansion : List Char} (h : aliases.lookup text = some expansion) :
    ∃ p, init expansion = .ok p := by
  have hok : ∀ a ∈ aliases, (init a.2).isOk := by decide
  obtain ⟨l₁, l₂, heq, -⟩ := List.lookup_eq_some_iff.1 h
  have hmem : (text, expansion) ∈ aliases := by simp [heq]
  cases hinit : init expansion with
  | error e =>
    have hisOk := hok _ hmem
    rw [hinit] at hisOk
    cases hisOk
  | ok p => exact ⟨p, rfl⟩

theorem new_of_ne_reboot (h : text ≠ Schedule.reboot) : new text = init (expansion text) := by
  unfold new expansion
  rw [if_neg h]
  cases aliases.lookup text <;> rfl

/-- The constructor takes exactly the schedules of crontab(5) and the aliases. -/
theorem exists_new_iff : (∃ p, new text = .ok p) ↔ Crontab.Schedule text := by
  unfold Crontab.Schedule
  by_cases hreboot : text = Schedule.reboot
  · exact iff_of_true ⟨_, if_pos hreboot⟩ (.inl hreboot)
  rw [or_iff_right hreboot, new_of_ne_reboot hreboot, expansion]
  cases hlookup : aliases.lookup text with
  | none => simp [init_eq_ok_iff]
  | some expansion => exact iff_of_true (exists_init_of_lookup hlookup) (.inl rfl)

/-! ## What matches -/

/-- The constructor and `isMatch` do on a text what crontab(5) says. -/
structure MeetsCrontab (text : List Char) : Prop where
  accepts : (∃ p, new text = .ok p) ↔ Crontab.Schedule text
  isMatch : ∀ p, new text = .ok p → text ≠ Schedule.reboot → ∀ tm,
    p.isMatch tm ↔ ∃ f, Fields (expansion text) f ∧ Matches f tm

/-- The fields do not name what a `struct tm` numbers otherwise: neither a month nor the day 7 of
the week.  Or they name both, with a day that the month does not have, and so no time at all. -/
def Crontab.NumberedAlike (f : CrontabParser) : Prop :=
  f.month = asterisk ∧ ¬ Denotes f.dayOfWeek 7 ∨
    Denotes f.dayOfWeek 7 ∧
      ∃ mday mon : ℕ, Denotes f.dayOfMonth mday ∧ Denotes f.month (mon + 1) ∧ daysIn mon < mday

theorem isMatch_iff : f.isMatch tm ↔ Covers f.minute tm.min ∧ Covers f.hour tm.hour ∧
    Covers f.dayOfMonth tm.mday ∧ Covers f.month tm.mon ∧ Covers f.dayOfWeek tm.wday := by
  have hmin := tm.min_lt
  have hhour := tm.hour_lt
  have hmon := tm.mon_lt
  have hwday := tm.wday_lt
  have hmday : tm.mday ≤ 31 := tm.mday_le.trans (daysIn_le tm.mon)
  simp only [CrontabParser.isMatch, Bool.and_eq_true, and_assoc]
  rw [check_iff (by omega), check_iff (by omega), check_iff (by omega), check_iff (by omega),
    check_iff (by omega)]

theorem not_covers (h : Denotes field n) (hne : n ≠ m) : ¬ Covers field m := by
  rintro (rfl | hm)
  · have hnone : parse asterisk = none := by decide
    cases hnone.symm.trans h.parse_eq
  · exact hne (h.unique hm)

/-- A field of its range stands for some value of it. -/
theorem Crontab.ValidField.exists_covers (lo hi : ℕ) (h : ValidField lo hi field) (hle : lo ≤ hi) :
    ∃ k, lo ≤ k ∧ k ≤ hi ∧ Covers field k := by
  obtain hast | ⟨n, hn, hlo, hhi⟩ := h
  · exact ⟨lo, le_rfl, hle, .inl hast⟩
  · refine ⟨n.toNat, by omega, by omega, .inr ?_⟩
    rwa [Int.toNat_of_nonneg (by omega)]
/-- The fields that stand for a day stand for one that exists, if the month is long enough. -/
theorem Crontab.Fields.exists_tm (h : Fields text f) {mday mon wday : ℕ} (hmday : 1 ≤ mday)
    (hle : mday ≤ daysIn mon) (hmon : mon < 12) (hwday : wday < 7) :
    ∃ tm : Tm, Covers f.minute tm.min ∧ Covers f.hour tm.hour ∧ tm.mday = mday ∧ tm.mon = mon ∧
      tm.wday = wday := by
  obtain ⟨min, -, hmin, hcmin⟩ := h.minute.exists_covers 0 59 (by decide)
  obtain ⟨hour, -, hhour, hchour⟩ := h.hour.exists_covers 0 23 (by decide)
  exact ⟨⟨min, hour, mday, mon, wday, by omega, by omega, hmon, hwday, hmday, hle⟩, hcmin, hchour,
    rfl, rfl, rfl⟩

theorem Crontab.Fields.unique (h : Fields text f) (h' : Fields text p) : f = p :=
  Except.ok.inj ((init_eq_ok_iff.2 h).symm.trans (init_eq_ok_iff.2 h'))

theorem isMatch_iff_matches (h : NumberedAlike f) (tm : Tm) : f.isMatch tm ↔ Matches f tm := by
  rw [isMatch_iff]
  obtain ⟨hmonth, hwday⟩ | ⟨hwday, mday, mon, hmday, hmonth, hlt⟩ := h
  · constructor
    · rintro ⟨hmin, hhour, hday, -, hw⟩
      exact ⟨hmin, hhour, hday, .inl hmonth, .inl hw⟩
    · intro hm
      refine ⟨hm.minute, hm.hour, hm.dayOfMonth, .inl hmonth, ?_⟩
      obtain hw | ⟨hsunday, hast | hseven⟩ := hm.dayOfWeek
      · exact hw
      · exact .inl hast
      · exact absurd hseven hwday
  · refine iff_of_false (fun hc => ?_) fun hm => ?_
    · have hlt7 := tm.wday_lt
      exact not_covers hwday (by omega) hc.2.2.2.2
    · have hmon : mon = tm.mon := by
        by_contra hne
        exact not_covers hmonth (by omega) hm.month
      have hday : mday = tm.mday := by
        by_contra hne
        exact not_covers hmday (by omega) hm.dayOfMonth
      have hle := tm.mday_le
      rw [← hmon, ← hday] at hle
      exact absurd hle (Nat.not_le.2 hlt)

theorem Crontab.Fields.exists_weekday (h : Fields text f) :
    ∃ wday : ℕ, wday < 7 ∧ (Covers f.dayOfWeek wday ∨ wday = 0 ∧ Denotes f.dayOfWeek 7) := by
  obtain ⟨wday, -, hle, hast | hw⟩ := h.dayOfWeek.exists_covers 0 7 (by decide)
  · exact ⟨0, by decide, .inl (.inl hast)⟩
  · obtain hlt | rfl := Nat.lt_or_eq_of_le hle
    · exact ⟨wday, hlt, .inl (.inr hw)⟩
    · exact ⟨0, by decide, .inr ⟨rfl, hw⟩⟩

/-- Otherwise there is a time on which `isMatch` and crontab(5) differ. -/
theorem Crontab.Fields.numberedAlike (h : Fields text f)
    (hall : ∀ tm, f.isMatch tm ↔ Matches f tm) : NumberedAlike f := by
  obtain hmonth | ⟨n, hn, hlo, hhi⟩ := h.month
  · -- a Sunday in January
    refine .inl ⟨hmonth, fun hseven => ?_⟩
    obtain ⟨mday, hpos, hle, hday⟩ := h.dayOfMonth.exists_covers 1 31 (by decide)
    obtain ⟨tm, hmin, hhour, rfl, hmon, hwday⟩ :=
      h.exists_tm hpos (show mday ≤ daysIn 0 from hle) (by decide) (show 0 < 7 by decide)
    have hmatch := (hall tm).2 ⟨hmin, hhour, hday, .inl hmonth, .inr ⟨hwday, .inr hseven⟩⟩
    have hcovers := (isMatch_iff.1 hmatch).2.2.2.2
    rw [hwday] at hcovers
    exact absurd hcovers (not_covers hseven (by decide))
  obtain ⟨mon, rfl⟩ : ∃ mon : ℕ, n = mon + 1 := ⟨(n - 1).toNat, by omega⟩
  obtain ⟨wday, hlt7, hwday⟩ := h.exists_weekday
  by_cases hlong : ∃ mday, 1 ≤ mday ∧ mday ≤ daysIn mon ∧ Covers f.dayOfMonth mday
  · -- a day of the month itself
    obtain ⟨mday, hpos, hle, hday⟩ := hlong
    obtain ⟨tm, hmin, hhour, rfl, rfl, rfl⟩ := h.exists_tm hpos hle (by omega) hlt7
    have hcwday := hwday.imp_right fun h7 => And.intro h7.1 (Or.inr h7.2 : Covers f.dayOfWeek 7)
    have hmatch := (hall tm).2 ⟨hmin, hhour, hday, .inr hn, hcwday⟩
    have hcovers := (isMatch_iff.1 hmatch).2.2.2.1
    exact absurd hcovers (not_covers hn (by omega))
  · obtain ⟨mday, hpos, hle, hast | hday⟩ :=
      h.dayOfMonth.exists_covers 1 31 (by decide)
    · exact absurd ⟨1, le_rfl, one_le_daysIn mon, .inl hast⟩ hlong
    have hshort : daysIn mon < mday := by
      by_contra hge
      exact hlong ⟨mday, hpos, Nat.not_lt.1 hge, .inr hday⟩
    by_cases hseven : Denotes f.dayOfWeek 7
    · exact .inr ⟨hseven, mday, mon, hday, hn, hshort⟩
    -- the day in the month behind
    obtain ⟨hmon, hdays⟩ := daysIn_succ (Nat.lt_of_lt_of_le hshort hle)
    obtain ⟨tm, hmin, hhour, rfl, hmoneq, rfl⟩ := h.exists_tm hpos (hdays.symm ▸ hle) hmon hlt7
    have hcmonth : Covers f.month tm.mon := hmoneq ▸ .inr hn
    have hcwday := hwday.resolve_right fun h7 => hseven h7.2
    have hmatch := (hall tm).1 (isMatch_iff.2 ⟨hmin, hhour, .inr hday, hcmonth, hcwday⟩)
    exact absurd hmatch.month (not_covers hn (by omega))

/-- The texts that mean what crontab(5) says. -/
theorem meetsCrontab_iff : MeetsCrontab text ↔
    text = Schedule.reboot ∨ ∀ f, Fields (expansion text) f → NumberedAlike f := by
  by_cases hreboot : text = Schedule.reboot
  · refine iff_of_true ⟨exists_new_iff, ?_⟩ (.inl hreboot)
    exact fun _ _ hne => absurd hreboot hne
  rw [or_iff_right hreboot]
  have hnew : ∀ {p}, new text = .ok p ↔ Fields (expansion text) p := by
    rw [new_of_ne_reboot hreboot]
    exact init_eq_ok_iff
  have hmatches : ∀ {p tm}, Fields (expansion text) p →
      ((∃ f, Fields (expansion text) f ∧ Matches f tm) ↔ Matches p tm) := fun {p tm} hp =>
    ⟨fun ⟨f, hf, hm⟩ => hf.unique hp ▸ hm, fun hm => ⟨p, hp, hm⟩⟩
  constructor
  · intro h f hf
    exact hf.numberedAlike fun tm => (h.isMatch f (hnew.2 hf) hreboot tm).trans (hmatches hf)
  · intro h
    refine ⟨exists_new_iff, fun p hp _ tm => ?_⟩
    have hf := hnew.1 hp
    exact (isMatch_iff_matches (h p hf) tm).trans (hmatches hf).symm

/-- The first minute of a year that begins on a Monday. -/
def newYear : Tm :=
  ⟨0, 0, 1, 0, 1, by decide, by decide, by decide, by decide, by decide, by decide⟩

/-- A yearly task does not start in January. -/
theorem yearly_not_meetsCrontab : ¬ MeetsCrontab Schedule.yearly := by
  intro h
  have hnew : new Schedule.yearly = .ok ⟨['0'], ['0'], ['1'], ['1'], ['*']⟩ := by decide
  have hfields : Fields (expansion Schedule.yearly) ⟨['0'], ['0'], ['1'], ['1'], ['*']⟩ :=
    init_eq_ok_iff.1 (by decide)
  have hzero : Denotes ['0'] 0 := parse_eq_some_iff.1 (by decide)
  have hone : Denotes ['1'] 1 := parse_eq_some_iff.1 (by decide)
  have hmatches : Matches ⟨['0'], ['0'], ['1'], ['1'], ['*']⟩ newYear :=
    ⟨.inr hzero, .inr hzero, .inr hone, .inr hone, .inl (.inl rfl)⟩
  have hmatch := (h.isMatch _ hnew (by decide) newYear).2 ⟨_, hfields, hmatches⟩
  revert hmatch
  decide

end Kalinka.Trans
