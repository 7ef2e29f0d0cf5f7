import Mathlib.Data.List.Basic
import Mathlib.Data.List.TakeWhile
import Mathlib.Data.Nat.Notation

/-!
# The words of a text

`Words sep l ws` says that the text `l` consists of the words `ws`: each non-empty, without
separators, and with separators around it.  `words_iff` finds them by splitting the text at every
separator and leaving out what is empty.
-/

namespace Text

variable {α : Type*} {sep : α → Bool} {l : List α} {ws ws' : List (List α)}

/-- The text `l` consists of the words `ws`. -/
inductive Words (sep : α → Bool) : List α → List (List α) → Prop
  | nil : Words sep [] []
  | skip {c : α} {l : List α} {ws : List (List α)} (hc : sep c) (h : Words sep l ws) :
      Words sep (c :: l) ws
  | last {w : List α} (hw : w ≠ []) (hsep : ∀ c ∈ w, sep c = false) : Words sep w [w]
  | word {w : List α} {c : α} {l : List α} {ws : List (List α)} (hw : w ≠ [])
      (hsep : ∀ c ∈ w, sep c = false) (hc : sep c) (h : Words sep l ws) :
      Words sep (w ++ c :: l) (w :: ws)

/-- The non-empty parts between the separators. -/
def words [DecidableEq α] (sep : α → Bool) (l : List α) : List (List α) :=
  (l.splitOnP sep).filter (· ≠ [])

/-- Every text consists of words. -/
theorem exists_words (sep : α → Bool) (l : List α) : ∃ ws, Words sep l ws := by
  induction hn : l.length using Nat.strong_induction_on generalizing l with
  | _ n ih =>
    subst hn
    have hsplit := List.takeWhile_append_dropWhile (p := fun c => !sep c) (l := l)
    have hsep : ∀ c ∈ l.takeWhile fun c => !sep c, sep c = false := fun c hc => by
      simpa using List.mem_takeWhile_imp hc
    cases hrest : l.dropWhile fun c => !sep c with
    | nil =>
      rw [hrest, List.append_nil] at hsplit
      by_cases hl : l = []
      · exact ⟨[], hl ▸ .nil⟩
      · exact ⟨[l], .last hl (hsplit ▸ hsep)⟩
    | cons c rest =>
      have hc : sep c := by
        have hhead := List.head_dropWhile_not (fun c => !sep c) (hrest ▸ List.cons_ne_nil c rest)
        simpa [hrest] using hhead
      rw [hrest] at hsplit
      have hlen := congrArg List.length hsplit
      rw [List.length_append, List.length_cons] at hlen
      obtain ⟨ws, hws⟩ := ih rest.length (by omega) rest rfl
      rw [← hsplit]
      by_cases hw : (l.takeWhile fun c => !sep c) = []
      · exact ⟨ws, hw ▸ .skip hc hws⟩
      · exact ⟨_, .word hw hsep hc hws⟩

variable [DecidableEq α]

theorem Words.eq_words (h : Words sep l ws) : words sep l = ws := by
  unfold words
  induction h with
  | nil => rfl
  | skip hc _ ih =>
    rw [List.splitOnP_cons_eq_if_modifyHead, if_pos hc]
    exact ih
  | last hw hsep =>
    rw [List.splitOnP_eq_singleton hsep]
    exact List.filter_eq_self.2 (by simpa using hw)
  | word hw hsep hc _ ih =>
    rw [List.splitOnP_append_cons_of_forall_mem hsep _ hc,
      List.filter_cons_of_pos (by simpa using hw), ih]

theorem words_iff : Words sep l ws ↔ words sep l = ws := by
  refine ⟨Words.eq_words, fun h => ?_⟩
  obtain ⟨ws', hws'⟩ := exists_words sep l
  rwa [← h, hws'.eq_words]

theorem Words.unique (h : Words sep l ws) (h' : Words sep l ws') : ws = ws' :=
  h.eq_words.symm.trans h'.eq_words

/-- Separators in front of a text are not part of its words. -/
theorem words_append_of_forall {lead : List α} (h : ∀ c ∈ lead, sep c) :
    words sep (lead ++ l) = words sep l := by
  induction lead with
  | nil => rfl
  | cons c lead ih =>
    obtain ⟨hc, hlead⟩ := List.forall_mem_cons.1 h
    refine Words.eq_words (.skip hc ?_)
    rw [words_iff]
    exact ih hlead

/-- A word that has ended is the first one, whatever comes behind it. -/
theorem words_append_cons {w : List α} {c : α} (hw : w ≠ []) (hsep : ∀ c ∈ w, sep c = false)
    (hc : sep c) : words sep (w ++ c :: l) = w :: words sep l :=
  Words.eq_words (.word hw hsep hc (words_iff.2 rfl))

end Text
