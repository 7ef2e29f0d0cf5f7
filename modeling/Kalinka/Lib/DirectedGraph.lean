import Mathlib.Data.List.Nodup
import Mathlib.Logic.Relation

/-!
# Acyclic relations

A directed graph is a relation.  The first lemmas say how acyclicity fares when edges are taken
away and when one edge is added.  `Topological r l` says that the list `l` is in topological order;
`Topological.not_mem` is the rule for a walk through such a list.
-/

open Relation

namespace DirectedGraph

variable {V : Type*} {r r' : V → V → Prop} {a b x y : V}

/-- No vertex reaches itself over one or more edges. -/
def Acyclic (r : V → V → Prop) : Prop := ∀ v, ¬ TransGen r v v

/-- `r` with the edge from `a` to `b`. -/
def AddEdge (r : V → V → Prop) (a b x y : V) : Prop := r x y ∨ x = a ∧ y = b

theorem Acyclic.mono (h : Acyclic r) (hr : ∀ x y, r' x y → r x y) : Acyclic r' :=
  fun v hv => h v (TransGen.mono hr v v hv)

theorem Acyclic.irrefl (h : Acyclic r) (v : V) : ¬ r v v := fun hv => h v (.single hv)

/-- A path that may use the new edge either does not, or can be cut so as to use it once. -/
theorem transGen_addEdge (h : TransGen (AddEdge r a b) x y) :
    TransGen r x y ∨ ReflTransGen r x a ∧ ReflTransGen r b y := by
  induction h with
  | single h =>
    rcases h with h | ⟨rfl, rfl⟩
    · exact .inl (.single h)
    · exact .inr ⟨.refl, .refl⟩
  | tail _ h ih =>
    rcases h with h | ⟨rfl, rfl⟩
    · exact ih.imp (·.tail h) (And.imp_right (·.tail h))
    · exact .inr ⟨ih.elim TransGen.to_reflTransGen And.left, .refl⟩

/-- A new edge closes a cycle exactly when it leads back. -/
theorem Acyclic.addEdge_iff (h : Acyclic r) :
    Acyclic (AddEdge r a b) ↔ ¬ ReflTransGen r b a := by
  constructor
  · intro hacyc hba
    have hba' : ReflTransGen (AddEdge r a b) b a :=
      ReflTransGen.mono (fun _ _ => Or.inl) b a hba
    exact hacyc b (TransGen.tail' hba' (.inr ⟨rfl, rfl⟩))
  · intro hba v hv
    rcases transGen_addEdge hv with hv | ⟨hva, hbv⟩
    · exact h v hv
    · exact hba (hbv.trans hva)

/-- A vertex that a nonempty path ends in is the end of an edge, and the other way round. -/
theorem exists_edges_of_reflTransGen (h : ReflTransGen r x y) (hne : x ≠ y) :
    (∃ z, r x z) ∧ ∃ z, r z y := by
  obtain ⟨z, hxz, -⟩ := h.cases_head.resolve_left hne
  obtain ⟨w, -, hwy⟩ := h.cases_tail.resolve_left (Ne.symm hne)
  exact ⟨⟨z, hxz⟩, w, hwy⟩

/-! ## Topological order -/

/-- `l` has no vertex twice, and each edge leads to a later one. -/
structure Topological (r : V → V → Prop) (l : List V) : Prop where
  nodup : l.Nodup
  edge : ∀ a b, r a b → [a, b].Sublist l

theorem sublist_pair_trans {l : List V} {c : V} (hl : l.Nodup) (hab : [a, b].Sublist l)
    (hbc : [b, c].Sublist l) : [a, c].Sublist l := by
  induction l with
  | nil => cases hab
  | cons x l ih =>
    obtain ⟨hx, hl⟩ := List.nodup_cons.1 hl
    cases hab with
    | cons _ hab =>
      have hb : b ∈ l := hab.subset (by simp)
      cases hbc with
      | cons _ hbc => exact (ih hl hab hbc).cons x
      | cons_cons _ _ => exact absurd hb hx
    | cons_cons _ hb =>
      have hb : b ∈ l := hb.subset List.mem_cons_self
      cases hbc with
      | cons _ hbc =>
        have hc : c ∈ l := hbc.subset (by simp)
        exact (List.singleton_sublist.2 hc).cons_cons a
      | cons_cons _ _ => exact absurd hb hx

theorem Topological.transGen {l : List V} (h : Topological r l) : Topological (TransGen r) l where
  nodup := h.nodup
  edge a b hab := by
    induction hab with
    | single hab => exact h.edge _ _ hab
    | tail _ hbc ih => exact sublist_pair_trans h.nodup ih (h.edge _ _ hbc)

/-- What leads to the next vertex of a walk is behind it. -/
theorem Topological.not_mem {l rest : List V} (h : Topological r l) (hrest : b :: rest <:+ l)
    (hab : r a b) : a ∉ b :: rest := by
  intro ha
  have hedge := h.edge a b hab
  rcases List.mem_cons.1 ha with rfl | ha
  · have hnodup := h.nodup.sublist hedge
    simp at hnodup
  · -- then `b` stands before `a` as well
    have hba : [b, a].Sublist l :=
      ((List.singleton_sublist.2 ha).cons_cons b).trans hrest.sublist
    have hnodup := h.nodup.sublist (sublist_pair_trans h.nodup hedge hba)
    simp at hnodup

end DirectedGraph
