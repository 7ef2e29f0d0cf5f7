import Mathlib.Data.List.Nodup
import Mathlib.Data.List.TakeWhile
import Mathlib.Order.Lattice

/-!
# Sets sorted by a key

`SortedSet key` is a list whose keys increase strictly, so no two elements share one.  An element is
found, inserted and erased by its key alone, and `difference` merges two sets as an algorithm on
sorted ranges does.

* `mem_insert`, `mem_erase`, `mem_difference`: what the operations contain.
* `eq_of_key_eq`: an element is determined by its key.
* `nodup_keys`, `sorted_keys`: the keys.
-/

/-- A list with strictly increasing keys. -/
structure SortedSet {α K : Type*} [LinearOrder K] (key : α → K) where
  elems : List α := []
  sorted : elems.Pairwise fun a b => key a < key b := by exact .nil

namespace SortedSet

variable {α K : Type*} [LinearOrder K] {key : α → K}

instance : Membership α (SortedSet key) := ⟨fun s a => a ∈ s.elems⟩

variable {s t : SortedSet key} {a b : α} {k : K} {l l' : List α}

theorem mem_def : a ∈ s ↔ a ∈ s.elems := Iff.rfl

theorem eq_of_elems_eq (h : s.elems = t.elems) : s = t := by
  cases s
  cases t
  cases h
  rfl

/-- The keys of the elements, in order. -/
def keys (s : SortedSet key) : List K := s.elems.map key

theorem mem_keys : k ∈ s.keys ↔ ∃ a ∈ s, key a = k := List.mem_map

theorem sorted_keys (s : SortedSet key) : s.keys.Pairwise (· < ·) :=
  List.pairwise_map.2 s.sorted

theorem nodup_keys (s : SortedSet key) : s.keys.Nodup := s.sorted_keys.imp ne_of_lt

theorem eq_of_key_eq (ha : a ∈ s) (hb : b ∈ s) (h : key a = key b) : a = b :=
  List.inj_on_of_nodup_map s.nodup_keys ha hb h

/-! ## Searching -/

def find (s : SortedSet key) (k : K) : Option α := s.elems.find? fun a => key a = k

theorem find_eq_none_iff : s.find k = none ↔ k ∉ s.keys := by
  simp [find, List.find?_eq_none, keys]

theorem find_eq_some_iff : s.find k = some a ↔ a ∈ s ∧ key a = k := by
  constructor
  · intro h
    exact ⟨List.mem_of_find?_eq_some h, by simpa using List.find?_some h⟩
  · rintro ⟨ha, hk⟩
    cases hfind : s.find k with
    | none => exact absurd (mem_keys.2 ⟨a, ha, hk⟩) (find_eq_none_iff.1 hfind)
    | some b =>
      have hb : key b = k := by simpa using List.find?_some hfind
      exact congrArg some (eq_of_key_eq (List.mem_of_find?_eq_some hfind) ha (hb.trans hk.symm))

/-! ## Inserting -/

/-- The list with `a` in its place, unless its key is there. -/
def insertList (key : α → K) (a : α) : List α → List α
  | [] => [a]
  | b :: l =>
    if key a < key b then a :: b :: l
    else if key a = key b then b :: l
    else b :: insertList key a l

theorem mem_of_mem_insertList (h : b ∈ insertList key a l) : b = a ∨ b ∈ l := by
  induction l with
  | nil => exact .inl (List.mem_singleton.1 h)
  | cons c l ih =>
    rw [insertList] at h
    split_ifs at h
    · exact List.mem_cons.1 h
    · exact .inr h
    · obtain rfl | hmem := List.mem_cons.1 h
      · exact .inr List.mem_cons_self
      · exact (ih hmem).imp_right (List.mem_cons_of_mem c)

theorem insertList_sorted (h : l.Pairwise fun a b => key a < key b) :
    (insertList key a l).Pairwise fun a b => key a < key b := by
  induction l with
  | nil => exact List.pairwise_singleton _ _
  | cons c l ih =>
    obtain ⟨hc, hl⟩ := List.pairwise_cons.1 h
    rw [insertList]
    split_ifs with hlt heq
    · refine List.pairwise_cons.2 ⟨fun b hb => ?_, h⟩
      obtain rfl | hmem := List.mem_cons.1 hb
      · exact hlt
      · exact hlt.trans (hc b hmem)
    · exact h
    · refine List.pairwise_cons.2 ⟨fun b hb => ?_, ih hl⟩
      obtain rfl | hmem := mem_of_mem_insertList hb
      · exact lt_of_le_of_ne (not_lt.1 hlt) (Ne.symm heq)
      · exact hc b hmem

theorem mem_insertList (h : ∀ b ∈ l, key b ≠ key a) : b ∈ insertList key a l ↔ b = a ∨ b ∈ l := by
  refine ⟨mem_of_mem_insertList, fun hb => ?_⟩
  induction l with
  | nil => exact List.mem_singleton.2 (hb.resolve_right (List.not_mem_nil))
  | cons c l ih =>
    obtain ⟨hc, hl⟩ := List.forall_mem_cons.1 h
    rw [insertList]
    split_ifs with hlt heq
    · exact List.mem_cons.2 hb
    · exact absurd heq.symm hc
    · obtain rfl | hmem := hb
      · exact List.mem_cons_of_mem c (ih hl (.inl rfl))
      · obtain rfl | hmem' := List.mem_cons.1 hmem
        · exact List.mem_cons_self
        · exact List.mem_cons_of_mem c (ih hl (.inr hmem'))

def insert (s : SortedSet key) (a : α) : SortedSet key where
  elems := insertList key a s.elems
  sorted := insertList_sorted s.sorted

theorem mem_map_insertList : k ∈ (insertList key a l).map key ↔ k = key a ∨ k ∈ l.map key := by
  induction l with
  | nil => simp [insertList]
  | cons c l ih =>
    rw [insertList]
    split_ifs with hlt heq
    · rw [List.map_cons, List.mem_cons]
    · rw [heq, List.map_cons, List.mem_cons, ← or_assoc, or_self_iff]
    · rw [List.map_cons, List.mem_cons, ih, List.map_cons, List.mem_cons, or_left_comm]

theorem mem_keys_insert : k ∈ (s.insert a).keys ↔ k = key a ∨ k ∈ s.keys := mem_map_insertList

/-- An element with a new key is inserted, and nothing is lost. -/
theorem mem_insert (h : key a ∉ s.keys) : b ∈ s.insert a ↔ b = a ∨ b ∈ s :=
  mem_insertList fun b hb hkey => h (mem_keys.2 ⟨b, hb, hkey⟩)

theorem mem_of_mem_insert (h : b ∈ s.insert a) : b = a ∨ b ∈ s := mem_of_mem_insertList h

theorem insertList_eq_self (h : l.Pairwise fun a b => key a < key b) (ha : key a ∈ l.map key) :
    insertList key a l = l := by
  induction l with
  | nil => cases ha
  | cons b l ih =>
    obtain ⟨hb, hl⟩ := List.pairwise_cons.1 h
    rw [insertList]
    obtain heq | hmem := List.mem_cons.1 ha
    · rw [if_neg heq.not_lt, if_pos heq]
    · obtain ⟨c, hc, hkey⟩ := List.mem_map.1 hmem
      have hlt : key b < key a := hkey ▸ hb c hc
      rw [if_neg hlt.not_gt, if_neg hlt.ne', ih hl hmem]

/-- An element with a key that is there is not inserted. -/
theorem insert_eq_self (h : key a ∈ s.keys) : s.insert a = s :=
  eq_of_elems_eq (insertList_eq_self s.sorted h)

theorem insertList_of_forall_lt (h : ∀ b ∈ l, key b < key a) : insertList key a l = l ++ [a] := by
  induction l with
  | nil => rfl
  | cons b l ih =>
    obtain ⟨hb, hl⟩ := List.forall_mem_cons.1 h
    rw [insertList, if_neg hb.not_gt, if_neg hb.ne', ih hl, List.cons_append]

/-- An element whose key is above the others goes to the end. -/
theorem elems_insert_of_forall_lt (h : ∀ b ∈ s, key b < key a) :
    (s.insert a).elems = s.elems ++ [a] := insertList_of_forall_lt h

/-! ## Erasing -/

def erase (s : SortedSet key) (k : K) : SortedSet key where
  elems := s.elems.filter fun a => key a ≠ k
  sorted := s.sorted.sublist List.filter_sublist

theorem mem_erase : a ∈ s.erase k ↔ a ∈ s ∧ key a ≠ k := by
  simp [mem_def, erase]

theorem mem_keys_erase {k' : K} : k' ∈ (s.erase k).keys ↔ k' ∈ s.keys ∧ k' ≠ k := by
  simp only [mem_keys, mem_erase]
  constructor
  · rintro ⟨a, ⟨ha, hne⟩, rfl⟩
    exact ⟨⟨a, ha, rfl⟩, hne⟩
  · rintro ⟨⟨a, ha, rfl⟩, hne⟩
    exact ⟨a, ⟨ha, hne⟩, rfl⟩

theorem erase_eq_self (h : k ∉ s.keys) : s.erase k = s := by
  apply eq_of_elems_eq
  refine List.filter_eq_self.2 fun a ha => decide_eq_true fun hk => ?_
  exact h (mem_keys.2 ⟨a, ha, hk⟩)

/-! ## Difference -/

/-- The elements of the first list whose keys are not in the second, by a merge of the two: the
second list is read up to the key of the head of the first. -/
def differenceList (key : α → K) : List α → List α → List α
  | [], _ => []
  | a :: l, l' =>
    match l'.dropWhile fun b => key b < key a with
    | [] => a :: differenceList key l []
    | b :: l'' =>
      if key a < key b then a :: differenceList key l (b :: l'') else differenceList key l l''

theorem differenceList_sublist (l l' : List α) : (differenceList key l l').Sublist l := by
  induction l generalizing l' with
  | nil => exact .slnil
  | cons a l ih =>
    rw [differenceList]
    split
    · exact (ih []).cons_cons a
    · split_ifs
      · exact (ih _).cons_cons a
      · exact (ih _).cons a

/-- The part of the second list that has been read has smaller keys than what follows in the
first. -/
theorem forall_dropWhile_iff (h : key a ≤ key b) :
    (∀ c ∈ l.dropWhile fun c => key c < key a, key c ≠ key b) ↔ ∀ c ∈ l, key c ≠ key b := by
  constructor
  · intro hdrop c hc
    rw [← List.takeWhile_append_dropWhile (p := fun c => decide (key c < key a)) (l := l)] at hc
    obtain htake | hmem := List.mem_append.1 hc
    · have hlt : key c < key a := by simpa using List.mem_takeWhile_imp htake
      exact (hlt.trans_le h).ne
    · exact hdrop c hmem
  · exact fun hl c hc => hl c ((List.dropWhile_sublist _).mem hc)

/-- On sorted lists the merge is the difference. -/
theorem mem_differenceList (hl : l.Pairwise fun a b => key a < key b)
    (hl' : l'.Pairwise fun a b => key a < key b) :
    a ∈ differenceList key l l' ↔ a ∈ l ∧ ∀ b ∈ l', key b ≠ key a := by
  induction l generalizing l' with
  | nil => simp [differenceList]
  | cons c l ih =>
    obtain ⟨hc, hl⟩ := List.pairwise_cons.1 hl
    have hread : a ∈ c :: l → ((∀ b ∈ l', key b ≠ key a) ↔
        ∀ b ∈ l'.dropWhile fun b => key b < key c, key b ≠ key a) := by
      intro hmem
      refine (forall_dropWhile_iff ?_).symm
      obtain rfl | hmem := List.mem_cons.1 hmem
      · exact le_rfl
      · exact (hc a hmem).le
    rw [and_congr_right hread, differenceList]
    have hdrop := hl'.sublist (List.dropWhile_sublist fun b => decide (key b < key c))
    cases hrest : l'.dropWhile fun b => decide (key b < key c) with
    | nil => simp [ih hl .nil]
    | cons d rest =>
      rw [hrest] at hdrop
      obtain ⟨hd, hrest'⟩ := List.pairwise_cons.1 hdrop
      have hcd : key c ≤ key d := by
        have hhead := List.head_dropWhile_not (fun b => decide (key b < key c)) (l := l')
          (by simp [hrest])
        simpa [hrest] using hhead
      dsimp only
      split_ifs with hlt
      · rw [List.mem_cons, ih hl hdrop, List.mem_cons]
        have hhead : ∀ b ∈ d :: rest, key b ≠ key c :=
          List.forall_mem_cons.2 ⟨hlt.ne', fun b hb => (hlt.trans (hd b hb)).ne'⟩
        constructor
        · rintro (rfl | ⟨hmem, hne⟩)
          · exact ⟨.inl rfl, hhead⟩
          · exact ⟨.inr hmem, hne⟩
        · rintro ⟨rfl | hmem, hne⟩
          · exact .inl rfl
          · exact .inr ⟨hmem, hne⟩
      · -- the heads have one key
        have heq : key d = key c := le_antisymm (not_lt.1 hlt) hcd
        rw [ih hl hrest', List.mem_cons, List.forall_mem_cons]
        constructor
        · rintro ⟨hmem, hne⟩
          exact ⟨.inr hmem, (heq.trans_lt (hc a hmem)).ne, hne⟩
        · rintro ⟨rfl | hmem, hne, hne'⟩
          · exact absurd heq hne
          · exact ⟨hmem, hne'⟩

def difference (s t : SortedSet key) : SortedSet key where
  elems := differenceList key s.elems t.elems
  sorted := s.sorted.sublist (differenceList_sublist _ _)

theorem mem_difference : a ∈ s.difference t ↔ a ∈ s ∧ key a ∉ t.keys := by
  refine (mem_differenceList s.sorted t.sorted).trans (and_congr_right fun _ => ?_)
  simp [keys]

theorem mem_keys_difference : k ∈ (s.difference t).keys ↔ k ∈ s.keys ∧ k ∉ t.keys := by
  simp only [mem_keys (s := s.difference t), mem_keys (s := s), mem_difference]
  constructor
  · rintro ⟨a, ⟨ha, hnot⟩, rfl⟩
    exact ⟨⟨a, ha, rfl⟩, hnot⟩
  · rintro ⟨⟨a, ha, rfl⟩, hnot⟩
    exact ⟨a, ⟨ha, hnot⟩, rfl⟩

/-! ## The set of a list -/

/-- Insertion of one element after the other: of those with one key the first stays. -/
def ofList (key : α → K) (l : List α) : SortedSet key := l.foldl insert {}

theorem mem_keys_foldl_insert :
    k ∈ (l.foldl insert s).keys ↔ k ∈ s.keys ∨ k ∈ l.map key := by
  induction l generalizing s with
  | nil => simp
  | cons a l ih =>
    rw [List.foldl_cons, ih, mem_keys_insert, List.map_cons, List.mem_cons,
      or_comm (a := k = key a), or_assoc]

theorem mem_keys_ofList : k ∈ (ofList key l).keys ↔ k ∈ l.map key := by
  rw [ofList, mem_keys_foldl_insert]
  simp [keys]

end SortedSet
