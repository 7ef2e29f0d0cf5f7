import Kalinka.Common.Utils
import Kalinka.Lib.Rescan

/-!
# Replacement in strings

`Utils::replaceAll` goes on one behind the place where it has replaced.

* `returns_iff`: its loop is the search `Rescan`, and ends where that does.
* `replaces_iff_sound`: so it also replaces what begins in the text that it has put in, and leaves
  out what comes next where it has put nothing.
* `returns_replaceAll`: its one use is for a character, and the text for that holds it only in
  front.
-/

namespace Kalinka.ReplaceAll

open Replace

variable {initial replaceWhat replaceWithWhat p s t w r out : List Char} {c : Char} {fuel : ℕ}

/-! ## The code -/

/-- `std::string::find`, with `none` for `npos`. -/
def find (str what : List Char) (pos : ℕ) : Option ℕ :=
  (List.range' pos (str.length + 1 - pos)).find? fun i => what.isPrefixOf (str.drop i)

/-- `std::string::replace` -/
def replace (str : List Char) (pos n : ℕ) (withWhat : List Char) : List Char :=
  str.take pos ++ withWhat ++ str.drop (pos + n)

/-- The loop of `replaceAll`; `none` while it has not ended. -/
def replaceLoop (replaceWhat replaceWithWhat : List Char) : ℕ → List Char → ℕ → Option (List Char)
  | 0, _, _ => none
  | fuel + 1, result, pos =>
    match find result replaceWhat pos with
    | none => some result
    | some pos =>
      replaceLoop replaceWhat replaceWithWhat fuel
        (replace result pos replaceWhat.length replaceWithWhat) (pos + 1)

/-- `replaceAll` terminates, with `out`. -/
def Returns (initial replaceWhat replaceWithWhat out : List Char) : Prop :=
  ∃ fuel, replaceLoop replaceWhat replaceWithWhat fuel initial 0 = some out

/-- It terminates, and its result is the text with the leftmost occurrences that do not overlap
replaced once each. -/
def Replaces (initial replaceWhat replaceWithWhat : List Char) : Prop :=
  Returns initial replaceWhat replaceWithWhat (substitute replaceWhat replaceWithWhat initial)

/-! ## The loop is the search -/

theorem find_prefix (h : w <+: s) (p : List Char) : find (p ++ s) w p.length = some p.length := by
  have hlength : (p ++ s).length + 1 - p.length = s.length + 1 := by
    rw [List.length_append]
    omega
  rw [find, hlength, List.range'_succ, List.find?_cons_of_pos]
  rw [List.drop_left]
  exact List.isPrefixOf_iff_prefix.2 h

theorem find_cons (h : ¬ w <+: c :: s) (p : List Char) :
    find (p ++ c :: s) w p.length = find (p ++ [c] ++ s) w (p ++ [c]).length := by
  have hlength : (p ++ c :: s).length + 1 - p.length = s.length + 1 + 1 := by
    rw [List.length_append, List.length_cons]
    omega
  have hlength' : (p ++ [c] ++ s).length + 1 - (p ++ [c]).length = s.length + 1 := by
    rw [List.length_append]
    omega
  rw [find, hlength, List.range'_succ, List.find?_cons_of_neg, find, hlength', List.append_assoc,
    List.length_append]
  · rfl
  · rw [List.drop_left]
    exact mt List.isPrefixOf_iff_prefix.1 h

theorem find_end (hw : w ≠ []) (p : List Char) : find p w p.length = none := by
  have hlength : p.length + 1 - p.length = 0 + 1 := by omega
  rw [find, hlength, List.range'_succ, List.find?_cons_of_neg]
  · rfl
  · rw [List.drop_length]
    exact fun h => hw (List.prefix_nil.1 (List.isPrefixOf_iff_prefix.1 h))

theorem find_past (p : List Char) : find p w (p.length + 1) = none := by
  rw [find, Nat.sub_self]
  rfl

theorem replaceLoop_cons (h : ¬ w <+: c :: s) (p : List Char) :
    replaceLoop w r fuel (p ++ c :: s) p.length =
      replaceLoop w r fuel (p ++ [c] ++ s) (p ++ [c]).length := by
  cases fuel with
  | zero => rfl
  | succ fuel =>
    have hassoc : p ++ [c] ++ s = p ++ c :: s := by rw [List.append_assoc, List.singleton_append]
    rw [replaceLoop, replaceLoop, find_cons h, hassoc]

theorem replaceLoop_nil (hw : w ≠ []) (p : List Char) :
    replaceLoop w r (fuel + 1) p p.length = some p := by
  rw [replaceLoop, find_end hw]

/-- Behind the first character of what is left. -/
theorem replaceLoop_past (hw : w ≠ []) (p s : List Char) :
    replaceLoop w r fuel (p ++ s) (p.length + 1) =
      replaceLoop w r fuel (p ++ s.take 1 ++ s.drop 1) (p ++ s.take 1).length := by
  cases s with
  | nil =>
    rw [List.take_nil, List.drop_nil, List.append_nil, List.append_nil]
    cases fuel with
    | zero => rfl
    | succ fuel => rw [replaceLoop_nil hw, replaceLoop, find_past]
  | cons c s =>
    rw [List.append_assoc, List.take_append_drop, List.length_append]
    rfl

theorem replaceLoop_append (hw : w ≠ []) (p B : List Char) :
    replaceLoop w r (fuel + 1) (p ++ (w ++ B)) p.length =
      replaceLoop w r fuel (p ++ (r ++ B).take 1 ++ (r ++ B).drop 1)
        (p ++ (r ++ B).take 1).length := by
  have hreplace : replace (p ++ (w ++ B)) p.length w.length r = p ++ (r ++ B) := by
    rw [replace, List.take_left, ← List.append_assoc p w, ← List.length_append, List.drop_left,
      List.append_assoc]
  rw [replaceLoop, find_prefix (List.prefix_append w B), ← replaceLoop_past hw, ← hreplace]

theorem exists_rescan (hw : w ≠ []) (h : replaceLoop w r fuel (p ++ s) p.length = some out) :
    ∃ t, Rescan w r s t ∧ out = p ++ t := by
  induction fuel generalizing p s with
  | zero => cases h
  | succ fuel ih =>
    induction s generalizing p with
    | nil =>
      rw [List.append_nil, replaceLoop_nil hw] at h
      exact ⟨[], .nil, by rw [List.append_nil, Option.some.inj h]⟩
    | cons c s ihs =>
      by_cases hbegins : w <+: c :: s
      · obtain ⟨B, hB⟩ := hbegins
        rw [← hB, replaceLoop_append hw] at h
        obtain ⟨t, hscan, rfl⟩ := ih h
        exact ⟨(r ++ B).take 1 ++ t, hB ▸ .hit B t hscan, List.append_assoc _ _ _⟩
      · rw [replaceLoop_cons hbegins] at h
        obtain ⟨t, hscan, rfl⟩ := ihs h
        exact ⟨c :: t, .skip c s t hbegins hscan, by rw [List.append_assoc, List.singleton_append]⟩

theorem exists_replaceLoop (hw : w ≠ []) (h : Rescan w r s t) (p : List Char) :
    ∃ fuel, replaceLoop w r fuel (p ++ s) p.length = some (p ++ t) := by
  induction h generalizing p with
  | nil => exact ⟨1, by rw [List.append_nil, replaceLoop_nil hw]⟩
  | skip c s t hnot _ ih =>
    obtain ⟨fuel, hfuel⟩ := ih (p ++ [c])
    refine ⟨fuel, ?_⟩
    rw [replaceLoop_cons hnot, hfuel, List.append_assoc, List.singleton_append]
  | hit B t _ ih =>
    obtain ⟨fuel, hfuel⟩ := ih (p ++ (r ++ B).take 1)
    refine ⟨fuel + 1, ?_⟩
    rw [replaceLoop_append hw, hfuel, List.append_assoc]

/-- The loop ends with what the search makes of the text, and only where there is such a text. -/
theorem returns_iff (hw : w ≠ []) : Returns initial w r out ↔ Rescan w r initial out := by
  constructor
  · rintro ⟨fuel, hfuel⟩
    obtain ⟨t, hscan, rfl⟩ := exists_rescan (p := []) hw hfuel
    exact hscan
  · exact fun h => exists_replaceLoop hw h []

/-- It does not end where what is put in holds what is looked for behind its first character. -/
theorem not_returns (hw : w ≠ []) (hr : w <:+: r.tail) (hs : w <:+: initial) :
    ¬ Returns initial w r out :=
  fun h => ((returns_iff hw).1 h).not_isInfix hw hr hs

/-! ## What it replaces -/

/-- Nothing that is put in is looked at again, and nothing behind it left out; or it is what was
there. -/
def Sound (initial replaceWhat replaceWithWhat : List Char) : Prop :=
  replaceWithWhat = replaceWhat ∨ Clean replaceWhat replaceWithWhat initial

theorem Sound.replaces (hw : w ≠ []) (h : Sound initial w r) : Replaces initial w r := by
  refine (returns_iff hw).2 ?_
  rcases h with rfl | hclean
  · rw [substitute_self hw]
    exact rescan_self initial
  · exact rescan_substitute hw hclean

theorem Replaces.sound (hw : w ≠ []) (hr : r <+: w → r = w ∨ r.length = 1)
    (h : Replaces initial w r) : Sound initial w r := by
  by_cases hrw : r <+: w
  · refine (hr hrw).imp_right fun hone => ?_
    exact (inert_of_length_eq_one hone).clean hw initial
  · exact .inr (clean_of_rescan hw hrw ((returns_iff hw).1 h))

theorem inert_singleton (hr : r ≠ []) (hc : c ∉ r.tail) : Inert [c] r := by
  refine ⟨hr, fun v hv hsuffix => ⟨fun hfront => hc ?_, fun hfront => hc ?_⟩⟩
  · have hpos := List.length_pos_iff.2 hv
    have hv : v = [c] := hfront.eq_of_length (le_antisymm hfront.length_le hpos)
    exact hsuffix.subset (hv ▸ List.mem_singleton_self c)
  · exact hsuffix.subset (hfront.subset (List.mem_singleton_self c))

theorem substitute_singleton (c : Char) (r s : List Char) :
    substitute [c] r s = Utils.replaceAll s c r := by
  induction s using occurrence_induction (List.cons_ne_nil c []) with
  | nil => rw [substitute_nil]; rfl
  | hit B ih => rw [substitute_append (List.cons_ne_nil c []), ih]; simp [Utils.replaceAll]
  | skip d s h ih =>
    have hne : d ≠ c := fun heq => h (heq ▸ List.prefix_append [d] s)
    rw [substitute_cons h, ih]
    simp [Utils.replaceAll, hne]

/-- The one use of `replaceAll`. -/
theorem returns_replaceAll (hr : r ≠ []) (hc : c ∉ r.tail) (initial : List Char) :
    Returns initial [c] r (Utils.replaceAll initial c r) := by
  have hsound : Sound initial [c] r :=
    .inr ((inert_singleton hr hc).clean (List.cons_ne_nil c []) initial)
  exact substitute_singleton c r initial ▸ hsound.replaces (List.cons_ne_nil c [])

/-- For a text: where `replaceWithWhat` is a part of `replaceWhat` at its front, the two may come to
the same by chance.  For all texts: exactly. -/
theorem replaces_iff_sound (hw : replaceWhat ≠ []) :
    (∀ initial, Sound initial replaceWhat replaceWithWhat →
      Replaces initial replaceWhat replaceWithWhat) ∧
    ((replaceWithWhat <+: replaceWhat →
        replaceWithWhat = replaceWhat ∨ replaceWithWhat.length = 1) →
      ∀ initial, Replaces initial replaceWhat replaceWithWhat →
        Sound initial replaceWhat replaceWithWhat) ∧
    ((∀ initial, Replaces initial replaceWhat replaceWithWhat) ↔
      replaceWithWhat = replaceWhat ∨ Inert replaceWhat replaceWithWhat) := by
  refine ⟨fun initial h => h.replaces hw, fun hr initial h => h.sound hw hr, ?_⟩
  rw [← forall_rescan_iff hw]
  exact forall_congr' fun initial => returns_iff hw

theorem replaces_iff_sound_comment :
    "\n".toList ≠ [] ∧ ∀ initial, Replaces initial "\n".toList "\n#".toList := by
  have hinert : Inert "\n".toList "\n#".toList := inert_singleton (by decide) (by decide)
  exact ⟨by decide, (replaces_iff_sound (by decide)).2.2.2 (.inr hinert)⟩

/-- Of two characters that are to be deleted, the second stays. -/
theorem not_replaces_deleted :
    "a".toList ≠ [] ∧ Returns "aa".toList "a".toList [] "a".toList ∧
      ¬ Replaces "aa".toList "a".toList [] := by
  refine ⟨by decide, ⟨2, by decide⟩, fun h => ?_⟩
  exact not_rescan_nil (by decide) ((returns_iff (by decide)).1 h)

end Kalinka.ReplaceAll
