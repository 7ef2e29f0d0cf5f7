import Mathlib.Data.List.Infix

/-!
# Replacing a factor of a list

`substitute w r` puts `r` for the leftmost occurrences of `w` that do not overlap.  `Rescan w r` is
what a search makes of a list that goes on one behind where it has replaced, thus in what it has put
there, and not at all where it has put nothing.

* `rescan_substitute`: the two agree where no occurrence begins between the places where they go on,
  and where `r` is `w`.
* `clean_of_rescan`: only there, unless `r` is a prefix of `w`.
* `forall_rescan_iff`: the pairs `w`, `r` for which they agree on all lists.
-/

namespace Replace

variable {α : Type*} {w r u v x s t p B : List α} {c : α} {i m n : ℕ}

/-- The search goes on at the first element of what it has put in, or one behind the place where it
has put nothing. -/
inductive Rescan (w r : List α) : List α → List α → Prop
  | nil : Rescan w r [] []
  | skip (c : α) (s t : List α) (h : ¬ w <+: c :: s) :
      Rescan w r s t → Rescan w r (c :: s) (c :: t)
  | hit (B t : List α) :
      Rescan w r ((r ++ B).drop 1) t → Rescan w r (w ++ B) ((r ++ B).take 1 ++ t)

/-- Where `B` is behind an occurrence: none begins between one behind it and the end of what is put
there. -/
def Quiet (w r B : List α) : Prop :=
  ∀ i, min 1 r.length ≤ i → i < max 1 r.length → ¬ w <+: (r ++ B).drop i

/-! ## Recursion over the occurrences -/

theorem exists_cons_of_ne_nil (hw : w ≠ []) (B : List α) :
    ∃ c s, w ++ B = c :: s ∧ s.drop (w.length - 1) = B := by
  obtain ⟨c, w, rfl⟩ := List.exists_cons_of_ne_nil hw
  exact ⟨c, w ++ B, rfl, List.drop_left' rfl⟩

@[elab_as_elim]
theorem occurrence_induction {motive : List α → Prop} (hw : w ≠ []) (nil : motive [])
    (hit : ∀ B, motive B → motive (w ++ B))
    (skip : ∀ c s, ¬ w <+: c :: s → motive s → motive (c :: s)) (s : List α) : motive s := by
  induction hn : s.length using Nat.strong_induction_on generalizing s with
  | _ n ih =>
    subst hn
    cases s with
    | nil => exact nil
    | cons c s =>
      by_cases h : w <+: c :: s
      · obtain ⟨B, hB⟩ := h
        have hlength : B.length < (c :: s).length := by
          have hpos := List.length_pos_iff.2 hw
          rw [← hB, List.length_append]
          omega
        exact hB ▸ hit B (ih _ hlength B rfl)
      · exact skip c s h (ih _ (Nat.lt_succ_self _) s rfl)

section

variable [DecidableEq α]

def substitute (w r : List α) : List α → List α
  | [] => []
  | c :: s =>
    if w <+: c :: s then r ++ substitute w r (s.drop (w.length - 1)) else c :: substitute w r s
termination_by s => s.length
decreasing_by
  · rw [List.length_cons, List.length_drop]
    omega
  · exact Nat.lt_succ_self _

/-- `Quiet` at every occurrence that is substituted. -/
def Clean (w r : List α) : List α → Prop
  | [] => True
  | c :: s =>
    if w <+: c :: s then Quiet w r (s.drop (w.length - 1)) ∧ Clean w r (s.drop (w.length - 1))
    else Clean w r s
termination_by s => s.length
decreasing_by
  · rw [List.length_cons, List.length_drop]
    omega
  · exact Nat.lt_succ_self _

@[simp] theorem substitute_nil : substitute w r [] = [] := by rw [substitute]

theorem substitute_append (hw : w ≠ []) (B : List α) :
    substitute w r (w ++ B) = r ++ substitute w r B := by
  obtain ⟨c, s, hcons, hdrop⟩ := exists_cons_of_ne_nil hw B
  have hfront : w <+: c :: s := hcons ▸ List.prefix_append w B
  rw [hcons, substitute, if_pos hfront, hdrop]

theorem substitute_cons (h : ¬ w <+: c :: s) :
    substitute w r (c :: s) = c :: substitute w r s := by rw [substitute, if_neg h]

@[simp] theorem clean_nil : Clean w r [] := by rw [Clean]; trivial

theorem clean_append_iff (hw : w ≠ []) : Clean w r (w ++ B) ↔ Quiet w r B ∧ Clean w r B := by
  obtain ⟨c, s, hcons, hdrop⟩ := exists_cons_of_ne_nil hw B
  have hfront : w <+: c :: s := hcons ▸ List.prefix_append w B
  rw [hcons, Clean, if_pos hfront, hdrop]

theorem clean_cons_iff (h : ¬ w <+: c :: s) : Clean w r (c :: s) ↔ Clean w r s := by
  rw [Clean, if_neg h]

theorem substitute_self (hw : w ≠ []) (s : List α) : substitute w w s = s := by
  induction s using occurrence_induction hw with
  | nil => exact substitute_nil
  | hit B ih => rw [substitute_append hw, ih]
  | skip c s h ih => rw [substitute_cons h, ih]

end

/-! ## Steps of the search -/

theorem Rescan.of_cons (h : ¬ w <+: c :: s) (hscan : Rescan w r (c :: s) t) :
    ∃ t', t = c :: t' ∧ Rescan w r s t' := by
  generalize hs : c :: s = s' at hscan h
  cases hscan with
  | nil => cases hs
  | skip c' s' t _ hscan =>
    cases hs
    exact ⟨t, rfl, hscan⟩
  | hit B t _ => exact absurd (List.prefix_append w B) h

theorem Rescan.of_append (hw : w ≠ []) (hscan : Rescan w r (w ++ B) t) :
    ∃ t', t = (r ++ B).take 1 ++ t' ∧ Rescan w r ((r ++ B).drop 1) t' := by
  generalize hs : w ++ B = s at hscan
  cases hscan with
  | nil => exact absurd (List.append_eq_nil_iff.1 hs).1 hw
  | skip c s t h _ => exact absurd (hs ▸ List.prefix_append w B) h
  | hit B' t hscan =>
    obtain rfl := List.append_cancel_left hs
    exact ⟨t, rfl, hscan⟩

theorem Rescan.of_append_cons (hw : w ≠ []) (hscan : Rescan w (c :: r) (w ++ B) (c :: t)) :
    Rescan w (c :: r) (r ++ B) t := by
  obtain ⟨t', ht, hrest⟩ := hscan.of_append hw
  exact (List.cons.inj ht).2 ▸ hrest

/-- The search goes past what holds no beginning of an occurrence. -/
theorem Rescan.append_left (hscan : Rescan w r B t)
    (h : ∀ i < p.length, ¬ w <+: (p ++ B).drop i) : Rescan w r (p ++ B) (p ++ t) := by
  induction p with
  | nil => exact hscan
  | cons c p ih =>
    exact .skip c _ _ (h 0 (Nat.succ_pos _)) (ih fun i hi => h (i + 1) (Nat.succ_lt_succ hi))

theorem rescan_self (s : List α) : Rescan w w s s := by
  induction hn : s.length using Nat.strong_induction_on generalizing s with
  | _ n ih =>
    subst hn
    cases s with
    | nil => exact .nil
    | cons c s =>
      have htail := ih _ (Nat.lt_succ_self _) s rfl
      by_cases h : w <+: c :: s
      · obtain ⟨B, hB⟩ := h
        have hscan : Rescan w w ((w ++ B).drop 1) s := hB ▸ htail
        have hhit := Rescan.hit B s hscan
        rw [hB] at hhit
        exact hhit
      · exact .skip c s s h htail

/-- It does not end where `r` holds `w` behind its first element. -/
theorem Rescan.not_isInfix (hw : w ≠ []) (hr : w <:+: r.tail) (h : Rescan w r s t) :
    ¬ w <:+: s := by
  induction h with
  | nil => exact fun hinside => hw (List.infix_nil.1 hinside)
  | skip c s t hnot _ ih =>
    intro hinside
    exact ih ((List.infix_cons_iff.1 hinside).resolve_left hnot)
  | hit B t _ ih =>
    intro _
    have hne : r ≠ [] := by
      rintro rfl
      exact hw (List.infix_nil.1 hr)
    obtain ⟨c, r, rfl⟩ := List.exists_cons_of_ne_nil hne
    exact ih (hr.trans (List.prefix_append r B).isInfix)

/-! ## Where they agree -/

section

variable [DecidableEq α]

theorem rescan_substitute (hw : w ≠ []) (h : Clean w r s) : Rescan w r s (substitute w r s) := by
  induction s using occurrence_induction hw with
  | nil => rw [substitute_nil]; exact .nil
  | hit B ih =>
    obtain ⟨hquiet, hclean⟩ := (clean_append_iff hw).1 h
    rw [substitute_append hw]
    have hscan := ih hclean
    cases r with
    | nil =>
      cases B with
      | nil => exact .hit [] _ (by rw [substitute_nil]; exact .nil)
      | cons c B =>
        -- nothing is put there, and the search leaves out what comes next
        have hnot : ¬ w <+: c :: B := hquiet 0 (Nat.zero_le _) Nat.one_pos
        obtain ⟨t, ht, hscan⟩ := hscan.of_cons hnot
        rw [ht]
        exact .hit (c :: B) t hscan
    | cons c r =>
      refine .hit B (r ++ substitute w (c :: r) B) (hscan.append_left fun i hi => ?_)
      refine hquiet (i + 1) ((min_le_left _ _).trans (Nat.succ_pos i)) ?_
      exact (Nat.succ_lt_succ hi).trans_le (le_max_right _ _)
  | skip c s hnot ih =>
    rw [substitute_cons hnot]
    exact .skip c _ _ hnot (ih ((clean_cons_iff hnot).1 h))

/-! ## What begins both -/

omit [DecidableEq α] in
theorem take_append_congr (h : s.take n = t.take n) (p : List α) (hm : m ≤ p.length + n) :
    (p ++ s).take m = (p ++ t).take m := by
  have htake : ∀ l : List α, l.take (m - p.length) = (l.take n).take (m - p.length) := by
    intro l
    rw [List.take_take, min_eq_left (Nat.sub_le_iff_le_add'.2 hm)]
  rw [List.take_append, List.take_append, htake s, h, ← htake t]

omit [DecidableEq α] in
/-- What begins both `w` and `r` stays where it is. -/
theorem Rescan.take_eq (hxw : x <+: w) (hxr : x <+: r) (hscan : Rescan w r s t) :
    t.take x.length = s.take x.length := by
  induction hscan with
  | nil => rfl
  | skip c s t h _ ih => exact take_append_congr ih [c] (Nat.le_add_left _ _)
  | hit B t _ ih =>
    calc ((r ++ B).take 1 ++ t).take x.length
        = ((r ++ B).take 1 ++ (r ++ B).drop 1).take x.length :=
          take_append_congr ih _ (Nat.le_add_left _ _)
      _ = (r ++ B).take x.length := by rw [List.take_append_drop]
      _ = x := (List.prefix_iff_eq_take.1 (hxr.trans (List.prefix_append r B))).symm
      _ = (w ++ B).take x.length :=
          List.prefix_iff_eq_take.1 (hxw.trans (List.prefix_append w B))

omit [DecidableEq α] in
/-- Behind an occurrence, the element next to it as well, as `r` has it. -/
theorem Rescan.take_append_eq (hw : w ≠ []) (hr : r ≠ []) (hxw : x <+: w) (hxr : x <+: r)
    (hscan : Rescan w r (w ++ B) t) :
    t.take (x.length + 1) = (r ++ B).take (x.length + 1) := by
  obtain ⟨t', rfl, hrest⟩ := hscan.of_append hw
  have hlength : ((r ++ B).take 1).length = 1 := by
    obtain ⟨c, r, rfl⟩ := List.exists_cons_of_ne_nil hr
    rfl
  have htake := take_append_congr (m := x.length + 1) (hrest.take_eq hxw hxr) ((r ++ B).take 1)
    (by rw [hlength, Nat.add_comm])
  rw [htake, List.take_append_drop]

theorem take_substitute (hw : w ≠ []) (hxw : x <+: w) (hxr : x <+: r) (s : List α) :
    (substitute w r s).take x.length = s.take x.length := by
  induction s using occurrence_induction hw with
  | nil => rw [substitute_nil]
  | hit B ih =>
    have hbegins : ∀ {l : List α}, x <+: l → ∀ s : List α, (l ++ s).take x.length = x :=
      fun hl s => (List.prefix_iff_eq_take.1 (hl.trans (List.prefix_append _ s))).symm
    rw [substitute_append hw, hbegins hxr, hbegins hxw]
  | skip c s h ih =>
    rw [substitute_cons h]
    exact take_append_congr ih [c] (Nat.le_add_left _ _)

/-! ## Counting occurrences -/

/-- How many occurrences of `w` there are, those that overlap as well. -/
def occurrences (w s : List α) : ℕ := s.tails.countP fun l => w <+: l

theorem occurrences_nil (hw : w ≠ []) : occurrences w [] = 0 := by
  simp [occurrences, hw]

theorem occurrences_cons (h : ¬ w <+: c :: s) : occurrences w (c :: s) = occurrences w s := by
  rw [occurrences, List.tails_cons, List.countP_cons_of_neg (by simpa using h), occurrences]

theorem occurrences_cons_of_isPrefix (h : w <+: c :: s) :
    occurrences w (c :: s) = occurrences w s + 1 := by
  rw [occurrences, List.tails_cons, List.countP_cons_of_pos (by simpa using h), occurrences]

theorem occurrences_le_append (p s : List α) : occurrences w s ≤ occurrences w (p ++ s) := by
  induction p with
  | nil => exact le_rfl
  | cons c p ih =>
    by_cases h : w <+: c :: (p ++ s)
    · exact ih.trans ((Nat.le_succ _).trans_eq (occurrences_cons_of_isPrefix h).symm)
    · exact ih.trans_eq (occurrences_cons h).symm

theorem occurrences_lt_append (hp : p ≠ []) (h : w <+: p ++ s) :
    occurrences w s < occurrences w (p ++ s) := by
  obtain ⟨c, p, rfl⟩ := List.exists_cons_of_ne_nil hp
  have hcons : w <+: c :: (p ++ s) := h
  rw [List.cons_append, occurrences_cons_of_isPrefix hcons]
  exact Nat.lt_succ_of_le (occurrences_le_append p s)

/-- Where `r` begins with `w`, the search leaves an occurrence wherever it has put `r`. -/
theorem Rescan.length_eq (hw : w ≠ []) (h : Rescan w (w ++ u) s t) :
    t.length = s.length + occurrences w t * u.length := by
  have hwr : w <+: w ++ u := List.prefix_append w u
  induction h with
  | nil => rw [occurrences_nil hw, Nat.zero_mul, Nat.add_zero]
  | skip c s t hnot hscan ih =>
    have htake := (Rescan.skip c s t hnot hscan).take_eq List.prefix_rfl hwr
    have hnot' : ¬ w <+: c :: t := by
      rwa [List.prefix_iff_eq_take, htake, ← List.prefix_iff_eq_take]
    rw [List.length_cons, List.length_cons, occurrences_cons hnot', ih, Nat.add_right_comm]
  | hit B t hscan ih =>
    have htake := (Rescan.hit B t hscan).take_eq List.prefix_rfl hwr
    obtain ⟨c, w, rfl⟩ := List.exists_cons_of_ne_nil hw
    have hbegins : (c :: w) <+: c :: t := by
      rw [List.prefix_iff_eq_take]
      exact (List.prefix_iff_eq_take.1 (List.prefix_append _ B)).trans htake.symm
    have hrest : t.length = (w ++ u ++ B).length + occurrences (c :: w) t * u.length := ih
    calc (c :: t).length
        = ((c :: w) ++ B).length + (occurrences (c :: w) t + 1) * u.length := by
          rw [List.length_cons, hrest, Nat.succ_mul]
          simp only [List.length_append, List.length_cons]
          omega
      _ = ((c :: w) ++ B).length + occurrences (c :: w) (c :: t) * u.length := by
          rw [occurrences_cons_of_isPrefix hbegins]

theorem length_substitute_le (hw : w ≠ []) (u s : List α) :
    (substitute w (w ++ u) s).length ≤
      s.length + occurrences w (substitute w (w ++ u) s) * u.length := by
  induction s using occurrence_induction hw with
  | nil => rw [substitute_nil]; exact Nat.zero_le _
  | hit B ih =>
    have hbegins : w <+: w ++ u ++ substitute w (w ++ u) B :=
      (List.prefix_append w u).trans (List.prefix_append _ _)
    have hlt := occurrences_lt_append (by simp [hw]) hbegins
    have hmul := Nat.mul_le_mul_right u.length (Nat.succ_le_of_lt hlt)
    rw [Nat.succ_mul] at hmul
    rw [substitute_append hw]
    simp only [List.length_append] at ih ⊢
    omega
  | skip c s h ih =>
    have hle := Nat.mul_le_mul_right u.length
      (occurrences_le_append (w := w) [c] (substitute w (w ++ u) s))
    rw [substitute_cons h]
    simp only [List.length_cons, List.singleton_append] at hle ⊢
    omega

/-! ## Only there -/

/-- The search has changed what begins with an occurrence. -/
theorem not_prefix_of_prefix (hw : w ≠ []) (hu : u ≠ []) (hp : p ≠ [])
    (h : Rescan w (w ++ u) (p ++ B) (p ++ substitute w (w ++ u) B)) : ¬ w <+: p ++ B := by
  intro hbegins
  have hwr : w <+: w ++ u := List.prefix_append w u
  have hbegins' : w <+: p ++ substitute w (w ++ u) B := by
    rw [List.prefix_iff_eq_take, h.take_eq List.prefix_rfl hwr]
    exact List.prefix_iff_eq_take.1 hbegins
  have hlength := h.length_eq hw
  have hmul := Nat.mul_le_mul_right u.length
    (Nat.succ_le_of_lt (occurrences_lt_append hp hbegins'))
  have hle := length_substitute_le hw u B
  have hpos := List.length_pos_iff.2 hu
  rw [Nat.succ_mul] at hmul
  simp only [List.length_append] at hlength
  omega

omit [DecidableEq α] in
/-- Where two lists part. -/
theorem exists_diverge (hrw : ¬ r <+: w) (hwr : ¬ w <+: r) :
    ∃ x a b r' w', a ≠ b ∧ r = x ++ a :: r' ∧ w = x ++ b :: w' := by
  induction r generalizing w with
  | nil => exact absurd List.nil_prefix hrw
  | cons a r ih =>
    cases w with
    | nil => exact absurd List.nil_prefix hwr
    | cons b w =>
      by_cases hab : a = b
      · subst hab
        rw [List.cons_prefix_cons, not_and] at hrw hwr
        obtain ⟨x, c, d, r', w', hne, rfl, rfl⟩ := ih (hrw rfl) (hwr rfl)
        exact ⟨a :: x, c, d, r', w', hne, rfl, rfl⟩
      · exact ⟨[], a, b, r, w, hab, rfl, rfl⟩

theorem not_prefix_of_diverge (hrw : ¬ r <+: w) (hwr : ¬ w <+: r) (hp : p ≠ [])
    (h : Rescan w r (p ++ B) (p ++ substitute w r B)) : ¬ w <+: p ++ B := by
  rintro ⟨B', hB'⟩
  obtain ⟨x, a, b, r', w', hne, rfl, rfl⟩ := exists_diverge hrw hwr
  have hxw : x <+: x ++ b :: w' := List.prefix_append _ _
  have hxr : x <+: x ++ a :: r' := List.prefix_append _ _
  have hw : x ++ b :: w' ≠ [] := by simp
  have hr : x ++ a :: r' ≠ [] := by simp
  rw [← hB'] at h
  have hchanged := h.take_append_eq hw hr hxw hxr
  have hkept : (p ++ substitute (x ++ b :: w') (x ++ a :: r') B).take (x.length + 1) =
      (p ++ B).take (x.length + 1) :=
    take_append_congr (take_substitute hw hxw hxr B) p
      (by have := List.length_pos_iff.2 hp; omega)
  have htake : ∀ (c : α) (l : List α), (x ++ c :: l ++ B').take (x.length + 1) = x ++ [c] := by
    intro c l
    rw [List.append_assoc, List.take_append, List.take_of_length_le (Nat.le_succ _)]
    simp
  rw [hkept, ← hB', htake, htake, List.append_cancel_left_eq, List.singleton_inj] at hchanged
  exact hne hchanged.symm

theorem not_prefix_of_rescan (hw : w ≠ []) (hrw : ¬ r <+: w) (hp : p ≠ [])
    (h : Rescan w r (p ++ B) (p ++ substitute w r B)) : ¬ w <+: p ++ B := by
  by_cases hwr : w <+: r
  · obtain ⟨u, rfl⟩ := hwr
    have hu : u ≠ [] := fun hu => hrw (by rw [hu, List.append_nil])
    exact not_prefix_of_prefix hw hu hp h
  · exact not_prefix_of_diverge hrw hwr hp h

/-- What the search leaves as it is holds no beginning of an occurrence. -/
theorem rescan_drop (hw : w ≠ []) (hrw : ¬ r <+: w)
    (h : Rescan w r (p ++ B) (p ++ substitute w r B)) :
    (∀ i < p.length, ¬ w <+: (p ++ B).drop i) ∧ Rescan w r B (substitute w r B) := by
  induction p with
  | nil => exact ⟨fun i hi => absurd hi (Nat.not_lt_zero i), h⟩
  | cons c p ih =>
    have hnot : ¬ w <+: c :: (p ++ B) := not_prefix_of_rescan hw hrw (List.cons_ne_nil c p) h
    obtain ⟨t, ht, hscan⟩ := h.of_cons hnot
    rw [← (List.cons.inj ht).2] at hscan
    obtain ⟨hquiet, hrest⟩ := ih hscan
    refine ⟨fun i hi => ?_, hrest⟩
    cases i with
    | zero => exact hnot
    | succ i => exact hquiet i (Nat.lt_of_succ_lt_succ hi)

theorem clean_of_rescan (hw : w ≠ []) (hrw : ¬ r <+: w) (h : Rescan w r s (substitute w r s)) :
    Clean w r s := by
  induction s using occurrence_induction hw with
  | nil => exact clean_nil
  | hit B ih =>
    have hr : r ≠ [] := fun hr => hrw (hr ▸ List.nil_prefix)
    obtain ⟨c, r, rfl⟩ := List.exists_cons_of_ne_nil hr
    rw [substitute_append hw] at h
    obtain ⟨hquiet, hrest⟩ := rescan_drop hw hrw (h.of_append_cons hw)
    refine (clean_append_iff hw).2 ⟨fun i hi hlt => ?_, ih hrest⟩
    rw [List.length_cons] at hi hlt
    obtain ⟨i, rfl⟩ := Nat.exists_eq_succ_of_ne_zero (n := i) (by omega)
    exact hquiet i (by omega)
  | skip c s hnot ih =>
    rw [substitute_cons hnot] at h
    obtain ⟨t, ht, hscan⟩ := h.of_cons hnot
    rw [← (List.cons.inj ht).2] at hscan
    exact (clean_cons_iff hnot).2 (ih hscan)

/-! ## Where they agree on all lists -/

/-- No occurrence of `w` begins in `r` behind its first element, not even one that ends behind `r`.
-/
def Inert (w r : List α) : Prop :=
  r ≠ [] ∧ ∀ v ≠ [], v <:+ r.tail → ¬ v <+: w ∧ ¬ w <+: v

omit [DecidableEq α] in
theorem inert_of_length_eq_one (h : r.length = 1) : Inert w r := by
  obtain ⟨c, rfl⟩ := List.length_eq_one_iff.1 h
  exact ⟨List.cons_ne_nil c [], fun v hv hsuffix => absurd (List.suffix_nil.1 hsuffix) hv⟩

omit [DecidableEq α] in
theorem Inert.quiet (h : Inert w r) (B : List α) : Quiet w r B := by
  intro i hi hlt hbegins
  obtain ⟨hr, hsuffix⟩ := h
  have hpos := List.length_pos_iff.2 hr
  have hlt' : i < r.length := by omega
  rw [List.drop_append_of_le_length hlt'.le] at hbegins
  have hne : r.drop i ≠ [] := List.ne_nil_of_length_pos (by rw [List.length_drop]; omega)
  have hv : r.drop i <:+ r.tail := by
    rw [← List.drop_one]
    exact List.drop_suffix_drop_left r (by omega)
  obtain ⟨hvw, hwv⟩ := hsuffix _ hne hv
  exact (List.prefix_or_prefix_of_prefix hbegins (List.prefix_append _ B)).elim hwv hvw

theorem Inert.clean (hw : w ≠ []) (h : Inert w r) (s : List α) : Clean w r s := by
  induction s using occurrence_induction hw with
  | nil => exact clean_nil
  | hit B ih => exact (clean_append_iff hw).2 ⟨h.quiet B, ih⟩
  | skip c s hnot ih => exact (clean_cons_iff hnot).2 ih

theorem not_rescan_nil (hw : w ≠ []) : ¬ Rescan w [] (w ++ w) (substitute w [] (w ++ w)) := by
  intro h
  obtain ⟨t, ht, -⟩ := h.of_append hw
  obtain ⟨c, w, rfl⟩ := List.exists_cons_of_ne_nil hw
  have hnil : substitute (c :: w) [] (c :: w ++ c :: w) = [] := by
    have hone := substitute_append (r := []) hw (c :: w)
    have htwo := substitute_append (r := []) hw []
    rw [List.append_nil] at htwo
    rw [hone, htwo, substitute_nil]
    rfl
  rw [hnil] at ht
  cases ht

omit [DecidableEq α] in
/-- Where `r` is shorter than `w`, each replacement makes the list shorter. -/
theorem Rescan.length_lt (hlt : r.length < w.length) (h : Rescan w r s t) :
    t.length ≤ s.length ∧ (w <:+: s → t.length < s.length) := by
  induction h with
  | nil =>
    refine ⟨le_rfl, fun hinside => ?_⟩
    have hle := hinside.length_le
    rw [List.length_nil] at hle
    omega
  | skip c s t hnot _ ih =>
    refine ⟨Nat.succ_le_succ ih.1, fun hinside => ?_⟩
    exact Nat.succ_lt_succ (ih.2 ((List.infix_cons_iff.1 hinside).resolve_left hnot))
  | hit B t _ ih =>
    have hle := ih.1
    simp only [List.length_append, List.length_take, List.length_drop] at hle ⊢
    exact ⟨by omega, fun _ => by omega⟩

theorem substitute_eq_self (hw : w ≠ []) (hlt : s.length < w.length) : substitute w r s = s := by
  induction s using occurrence_induction hw with
  | nil => exact substitute_nil
  | hit B ih =>
    rw [List.length_append] at hlt
    omega
  | skip c s h ih => rw [substitute_cons h, ih (Nat.lt_of_succ_lt hlt)]

/-- An occurrence that begins in a shorter `r` is one more to replace. -/
theorem not_rescan_of_prefix (hw : w ≠ []) (hv : v ≠ []) (hr : v <:+ r.tail)
    (hlt : r.length < w.length) (hwv : w = v ++ u) :
    ¬ Rescan w r (w ++ u) (substitute w r (w ++ u)) := by
  intro h
  subst hwv
  obtain ⟨q, hq⟩ := hr
  cases r with
  | nil => exact hv (List.append_eq_nil_iff.1 hq).2
  | cons c r =>
    have hu : u.length < (v ++ u).length := by
      have hpos := List.length_pos_iff.2 hv
      rw [List.length_append]
      omega
    rw [substitute_append hw, substitute_eq_self hw hu] at h
    -- behind `c`, the search is to leave as it is what holds the occurrence `v ++ u`
    have hrest : Rescan (v ++ u) (c :: r) (r ++ u) (r ++ u) := h.of_append_cons hw
    have hinside : v ++ u <:+: r ++ u := ⟨q, [], by
      rw [List.append_nil, ← List.append_assoc, show q ++ v = r from hq]⟩
    exact absurd ((hrest.length_lt hlt).2 hinside) (lt_irrefl _)

theorem not_clean (hw : w ≠ []) (hv : v ≠ []) (hr : v <:+ r.tail) (hbegins : w <+: v ++ u) :
    ¬ Clean w r (w ++ u) := by
  intro hclean
  obtain ⟨q, hq⟩ := hr
  have hpos := List.length_pos_iff.2 hv
  cases r with
  | nil => exact hv (List.append_eq_nil_iff.1 hq).2
  | cons c r =>
    obtain rfl : q ++ v = r := hq
    have hdrop : (c :: (q ++ v) ++ u).drop (q.length + 1) = v ++ u := by simp
    refine ((clean_append_iff hw).1 hclean).1 (q.length + 1) ?_ ?_ (hdrop ▸ hbegins)
    · exact (min_le_left _ _).trans (Nat.succ_pos _)
    · refine lt_of_lt_of_le ?_ (le_max_right _ _)
      rw [List.length_cons, List.length_append]
      omega

theorem forall_rescan_iff (hw : w ≠ []) :
    (∀ s, Rescan w r s (substitute w r s)) ↔ r = w ∨ Inert w r := by
  constructor
  · intro h
    by_contra hcon
    obtain ⟨hne, hnot⟩ := not_or.1 hcon
    have hr : r ≠ [] := by
      rintro rfl
      exact not_rescan_nil hw (h _)
    obtain ⟨v, hv, hsuffix, hoverlap⟩ :
        ∃ v, v ≠ [] ∧ v <:+ r.tail ∧ (v <+: w ∨ w <+: v) := by
      by_contra hnone
      refine hnot ⟨hr, fun v hv hsuffix => not_or.1 fun hoverlap => ?_⟩
      exact hnone ⟨v, hv, hsuffix, hoverlap⟩
    by_cases hrw : r <+: w
    · have hlt : r.length < w.length :=
        hrw.length_le.lt_of_ne fun heq => hne (hrw.eq_of_length heq)
      rcases hoverlap with ⟨u, hu⟩ | hwv
      · exact not_rescan_of_prefix hw hv hsuffix hlt hu.symm (h _)
      · have hle := hwv.length_le.trans hsuffix.length_le
        rw [List.length_tail] at hle
        omega
    · rcases hoverlap with ⟨u, hu⟩ | hwv
      · exact not_clean hw hv hsuffix ⟨[], by rw [List.append_nil, hu]⟩
          (clean_of_rescan hw hrw (h _))
      · exact not_clean (u := []) hw hv hsuffix (hwv.trans (List.prefix_append v []))
          (clean_of_rescan hw hrw (h _))
  · rintro (rfl | hinert) s
    · rw [substitute_self hw]
      exact rescan_self s
    · exact rescan_substitute hw (hinert.clean hw s)

end

end Replace
