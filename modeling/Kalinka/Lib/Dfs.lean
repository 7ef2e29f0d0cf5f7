import Mathlib.Data.List.Perm.Subperm
import Mathlib.Data.List.Nodup
import Kalinka.Lib.DirectedGraph

/-!
# Depth-first search for a back edge

`visit` goes through a graph given by its successor lists.  A vertex is gray while its successors
are being visited and black afterwards; an edge to a gray vertex is a back edge and ends the search.

* `search_eq_none_iff`: there is a back edge exactly if the graph has a cycle.
* `Ordered.of_search`: otherwise the black vertices, last one first, are in topological order.
-/

open Relation DirectedGraph

namespace Dfs

variable {V : Type*} {succ : V → List V} {fuel : ℕ} {gray black black' : List V}
variable {v w : V} {univ ws : List V}

/-- Visit `v`: the black vertices afterwards, or `none` for a back edge.  `fuel` bounds the number
of gray vertices. -/
def visit [DecidableEq V] (succ : V → List V) (fuel : ℕ) (gray black : List V) (v : V) :
    Option (List V) :=
  if v ∈ black then some black
  else if v ∈ gray then none
  else match fuel with
    | 0 => none
    | fuel + 1 => ((succ v).foldlM (visit succ fuel (v :: gray)) black).map (v :: ·)

/-- Visit all of `univ`. -/
def search [DecidableEq V] (succ : V → List V) (univ : List V) : Option (List V) :=
  univ.foldlM (visit succ univ.length []) []

/-- Each vertex stands before all of its successors, once. -/
def Ordered (succ : V → List V) : List V → Prop
  | [] => True
  | v :: rest => v ∉ rest ∧ (∀ w ∈ succ v, w ∈ rest) ∧ Ordered succ rest

/-! ## Ordered lists -/

theorem Ordered.sublist_pair (h : Ordered succ black) (hv : v ∈ black) (hw : w ∈ succ v) :
    [v, w].Sublist black := by
  induction black with
  | nil => cases hv
  | cons x rest ih =>
    obtain ⟨-, hx, hrest⟩ := h
    rcases List.mem_cons.1 hv with rfl | hv
    · exact (List.singleton_sublist.2 (hx w hw)).cons_cons v
    · exact (ih hrest hv).cons x

theorem Ordered.closed (h : Ordered succ black) (hv : v ∈ black) (hw : w ∈ succ v) : w ∈ black :=
  (h.sublist_pair hv hw).subset (List.mem_cons_of_mem v List.mem_cons_self)

theorem Ordered.closed_transGen (h : Ordered succ black) (hv : v ∈ black)
    (hvw : TransGen (fun v w => w ∈ succ v) v w) : w ∈ black := by
  induction hvw with
  | single hw => exact h.closed hv hw
  | tail _ hw ih => exact h.closed ih hw

theorem Ordered.not_cycle (h : Ordered succ black) (hv : v ∈ black) :
    ¬ TransGen (fun v w => w ∈ succ v) v v := by
  induction black with
  | nil => cases hv
  | cons x rest ih =>
    obtain ⟨hnot, hx, hrest⟩ := h
    rcases List.mem_cons.1 hv with rfl | hv
    · intro hcycle
      -- the first step leads behind `v`, and from there no step leads back
      rcases TransGen.head'_iff.1 hcycle with ⟨w, hw, hwv⟩
      rcases reflTransGen_iff_eq_or_transGen.1 hwv with rfl | hwv
      · exact hnot (hx _ hw)
      · exact hnot (hrest.closed_transGen (hx w hw) hwv)
    · exact ih hrest hv

theorem Ordered.nodup (h : Ordered succ black) : black.Nodup := by
  induction black with
  | nil => exact List.nodup_nil
  | cons x rest ih => exact List.nodup_cons.2 ⟨h.1, ih h.2.2⟩

/-! ## A search that finds no back edge -/

/-- What a part of the search does to the black vertices: it keeps them in order, adds to them, and
adds no gray one. -/
structure Extends (succ : V → List V) (gray black black' : List V) : Prop where
  ordered : Ordered succ black'
  subset : ∀ x ∈ black, x ∈ black'
  gray : ∀ x ∈ gray, x ∉ black → x ∉ black'

theorem Extends.foldlM {f : List V → V → Option (List V)}
    (hf : ∀ b b' w, Ordered succ b → f b w = some b' → Extends succ gray b b' ∧ w ∈ b')
    (hb : Ordered succ black) (h : ws.foldlM f black = some black') :
    Extends succ gray black black' ∧ ∀ w ∈ ws, w ∈ black' := by
  induction ws generalizing black with
  | nil =>
    obtain rfl := Option.some.inj h
    exact ⟨⟨hb, fun _ => id, fun _ _ => id⟩, fun _ hw => by cases hw⟩
  | cons w ws ih =>
    obtain ⟨b, hw, hws⟩ := Option.bind_eq_some_iff.1 h
    obtain ⟨hext, hmem⟩ := hf black b w hb hw
    obtain ⟨hext', hmem'⟩ := ih hext.ordered hws
    refine ⟨⟨hext'.ordered, fun x hx => hext'.subset x (hext.subset x hx),
      fun x hx hxb => hext'.gray x hx (hext.gray x hx hxb)⟩, fun x hx => ?_⟩
    rcases List.mem_cons.1 hx with rfl | hx
    · exact hext'.subset _ hmem
    · exact hmem' x hx

theorem exists_of_foldlM_eq_none {f : List V → V → Option (List V)}
    (h : ws.foldlM f black = none) : ∃ w ∈ ws, ∃ b, f b w = none := by
  induction ws generalizing black with
  | nil => cases h
  | cons w ws ih =>
    cases hw : f black w with
    | none => exact ⟨w, List.mem_cons_self, black, hw⟩
    | some b =>
      rw [List.foldlM_cons, hw] at h
      obtain ⟨w', hw', hb⟩ := ih h
      exact ⟨w', List.mem_cons_of_mem _ hw', hb⟩

theorem subset_of_foldlM {f : List V → V → Option (List V)} {p : V → Prop}
    (hf : ∀ b b' w, w ∈ ws → (∀ x ∈ b, p x) → f b w = some b' → ∀ x ∈ b', p x)
    (hb : ∀ x ∈ black, p x) (h : ws.foldlM f black = some black') : ∀ x ∈ black', p x := by
  induction ws generalizing black with
  | nil => exact Option.some.inj h ▸ hb
  | cons w ws ih =>
    obtain ⟨b, hw, hws⟩ := Option.bind_eq_some_iff.1 h
    exact ih (fun b b' x hx => hf b b' x (List.mem_cons_of_mem w hx))
      (hf black b w List.mem_cons_self hb hw) hws

variable [DecidableEq V]

theorem Extends.visit (hb : Ordered succ black) (h : visit succ fuel gray black v = some black') :
    Extends succ gray black black' ∧ v ∈ black' := by
  induction fuel generalizing gray black black' v with
  | zero =>
    unfold Dfs.visit at h
    split at h
    · obtain rfl := Option.some.inj h
      exact ⟨⟨hb, fun _ => id, fun _ _ => id⟩, ‹_›⟩
    · split at h <;> cases h
  | succ fuel ih =>
    unfold Dfs.visit at h
    split at h
    · obtain rfl := Option.some.inj h
      exact ⟨⟨hb, fun _ => id, fun _ _ => id⟩, ‹_›⟩
    rename_i hblack
    split at h
    · cases h
    rename_i hgray
    obtain ⟨b, hfold, rfl⟩ := Option.map_eq_some_iff.1 h
    obtain ⟨hext, hsucc⟩ := Extends.foldlM (fun _ _ _ hb hw => ih hb hw) hb hfold
    have hv : v ∉ b := hext.gray v List.mem_cons_self hblack
    refine ⟨⟨⟨hv, hsucc, hext.ordered⟩, fun x hx => List.mem_cons_of_mem _ (hext.subset x hx),
      fun x hx hxb => ?_⟩, List.mem_cons_self⟩
    rintro (_ | ⟨_, hxb'⟩)
    · exact hgray hx
    · exact hext.gray x (List.mem_cons_of_mem _ hx) hxb hxb'

/-- Without a back edge the black vertices are in topological order, and they are all there. -/
theorem Ordered.of_search (h : search succ univ = some black) :
    Ordered succ black ∧ ∀ v ∈ univ, v ∈ black := by
  obtain ⟨hext, hmem⟩ := Extends.foldlM (fun _ _ _ hb hw => Extends.visit hb hw)
    (show Ordered succ [] from trivial) h
  exact ⟨hext.ordered, hmem⟩

/-- The search adds only vertices that edges lead to. -/
theorem subset_of_visit {p : V → Prop} (hp : ∀ v, ∀ w ∈ succ v, p w) (hv : p v)
    (hb : ∀ x ∈ black, p x) (h : visit succ fuel gray black v = some black') :
    ∀ x ∈ black', p x := by
  induction fuel generalizing gray black black' v with
  | zero =>
    unfold visit at h
    split at h
    · exact Option.some.inj h ▸ hb
    · split at h <;> cases h
  | succ fuel ih =>
    unfold visit at h
    split at h
    · exact Option.some.inj h ▸ hb
    split at h
    · cases h
    obtain ⟨b, hfold, rfl⟩ := Option.map_eq_some_iff.1 h
    have hrest := subset_of_foldlM (fun _ _ w hw hb => ih (hp v w hw) hb) hb hfold
    exact fun x hx => (List.mem_cons.1 hx).elim (fun heq => heq ▸ hv) (hrest x)

theorem perm_of_search (hnodup : univ.Nodup) (hu : ∀ v, ∀ w ∈ succ v, w ∈ univ)
    (h : search succ univ = some black) : black.Perm univ := by
  obtain ⟨hord, hall⟩ := Ordered.of_search h
  have hsub : ∀ x ∈ black, x ∈ univ :=
    subset_of_foldlM (fun _ _ w hw hb => subset_of_visit hu hw hb) (by simp) h
  exact (List.perm_ext_iff_of_nodup hord.nodup hnodup).2 fun x => ⟨hsub x, hall x⟩

/-! ## A search that finds one -/

/-- The gray vertices lead to the one being visited, so a back edge closes a cycle. -/
theorem cycle_of_visit (hu : ∀ v, ∀ w ∈ succ v, w ∈ univ) (hv : v ∈ univ)
    (hnodup : gray.Nodup) (hgray : ∀ x ∈ gray, x ∈ univ ∧ TransGen (fun v w => w ∈ succ v) x v)
    (hfuel : univ.length ≤ fuel + gray.length) (h : visit succ fuel gray black v = none) :
    ∃ x, TransGen (fun v w => w ∈ succ v) x x := by
  induction fuel generalizing gray black v with
  | zero =>
    by_cases hvg : v ∈ gray
    · exact ⟨v, (hgray v hvg).2⟩
    · have hsub : v :: gray ⊆ univ :=
        List.cons_subset.2 ⟨hv, fun x hx => (hgray x hx).1⟩
      have hlen := ((List.nodup_cons.2 ⟨hvg, hnodup⟩).subperm hsub).length_le
      rw [List.length_cons] at hlen
      omega
  | succ fuel ih =>
    unfold visit at h
    split at h
    · cases h
    split at h
    · exact ⟨v, (hgray v ‹_›).2⟩
    rename_i hvg
    obtain ⟨w, hw, b, hb⟩ := exists_of_foldlM_eq_none (Option.map_eq_none_iff.1 h)
    refine ih (hu v w hw) (List.nodup_cons.2 ⟨hvg, hnodup⟩) (fun x hx => ?_) ?_ hb
    · rcases List.mem_cons.1 hx with rfl | hx
      · exact ⟨hv, .single hw⟩
      · exact ⟨(hgray x hx).1, (hgray x hx).2.tail hw⟩
    · rw [List.length_cons]
      omega

/-- The search of a graph with vertices `univ` finds a back edge exactly if there is a cycle. -/
theorem search_eq_none_iff (hu : ∀ v, ∀ w ∈ succ v, v ∈ univ ∧ w ∈ univ) :
    search succ univ = none ↔ ¬ Acyclic fun v w => w ∈ succ v := by
  constructor
  · intro h hacyc
    obtain ⟨v, hv, b, hb⟩ := exists_of_foldlM_eq_none h
    obtain ⟨x, hx⟩ := cycle_of_visit (fun v w hw => (hu v w hw).2) hv List.nodup_nil
      (fun _ hx => by cases hx) (Nat.le_add_right _ _) hb
    exact hacyc x hx
  · contrapose!
    intro h v hcycle
    obtain ⟨black, hblack⟩ := Option.ne_none_iff_exists'.1 h
    obtain ⟨hord, hall⟩ := Ordered.of_search hblack
    obtain ⟨w, hw, -⟩ := TransGen.head'_iff.1 hcycle
    exact hord.not_cycle (hall v (hu v w hw).1) hcycle

end Dfs
