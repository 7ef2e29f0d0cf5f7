import Mathlib.Data.List.Induction
import Mathlib.Data.List.Nodup
import Kalinka.Lib.Run
import Kalinka.Lib.Dfs
import Kalinka.Common.Message

/-!
# Module dependencies

`Dependency` keeps the graph of the module dependencies in a boost adjacency list: the vertices in
a vector, each with its name and the vector of the descriptors its edges lead to.  A descriptor is
a position in the vertex vector.  Each call holds the object's own mutex.

`addDependency` adds the edge, looks for a cycle in the whole graph and takes the edge out again
when `boost::depth_first_search` reports a back edge.  That search is the parameter `backEdge`, of
which the results only use that it finds the cycles.
-/

namespace Kalinka

open Relation DirectedGraph Run

/-- A vertex: its `property_tag_t` and its out-edge list. -/
structure Vertex where
  tag : String
  out : List ℕ := []
  deriving DecidableEq, Repr

abbrev DependencyGraph := List Vertex

namespace DependencyGraph

/-- `getVertexID`, `none` when `BOOST_ASSERT` throws; also `hasVertex`, which makes the same
search. -/
def getVertexID (g : DependencyGraph) (name : String) : Option ℕ :=
  g.findIdx? (·.tag = name)

/-- `boost::add_edge`. -/
def addEdge (g : DependencyGraph) (u v : ℕ) : DependencyGraph :=
  g.modify u fun x => { x with out := x.out ++ [v] }

/-- `boost::remove_edge`, which removes all edges from `u` to `v`. -/
def removeEdge (g : DependencyGraph) (u v : ℕ) : DependencyGraph :=
  g.modify u fun x => { x with out := x.out.filter (· ≠ v) }

/-- The descriptors that the edges of `u` lead to. -/
def succ (g : DependencyGraph) (u : ℕ) : List ℕ :=
  match g[u]? with
  | some x => x.out
  | none => []

/-- There is an edge from `u` to `v`. -/
def Adj (g : DependencyGraph) (u v : ℕ) : Prop := v ∈ g.succ u

/-- `boost::depth_first_search` calls `back_edge` exactly on the graphs with a cycle. -/
def FindsCycles (backEdge : DependencyGraph → Bool) : Prop :=
  ∀ g, (∀ u v, Adj g u v → v < g.length) → (backEdge g = true ↔ ¬ Acyclic (Adj g))

/-- `boost::topological_sort` writes all vertices of a graph without a cycle in reverse topological
order: the end of an edge comes before its start. -/
def SortsReverse (topologicalSort : DependencyGraph → List ℕ) : Prop :=
  ∀ g, (∀ u v, Adj g u v → v < g.length) → Acyclic (Adj g) →
    (topologicalSort g).Perm (List.range g.length) ∧
      ∀ u v, Adj g u v → [v, u].Sublist (topologicalSort g)

end DependencyGraph

/-- `Dependency`. -/
structure Dependency where
  mGraph : DependencyGraph := []
  mCount : UInt32 := 0
  deriving DecidableEq, Repr

inductive DependencyAction
  | addDependency (child parent : String)
  | rmDependency (child parent : String)
  | clear
  deriving DecidableEq, Repr

namespace Dependency

open DependencyGraph

/-- `getDependency`. -/
def getDependency (d : Dependency) (modid : String) : List String :=
  match d.mGraph.find? (·.tag = modid) with
  | some x => x.out.filterMap fun v => d.mGraph[v]?.map Vertex.tag
  | none => []

/-- The descriptor of a vertex that is added unless it is there. -/
def vertexFor (d : Dependency) (name : String) : ℕ × Dependency :=
  match d.mGraph.getVertexID name with
  | some u => (u, d)
  | none => (d.mGraph.length, { mGraph := d.mGraph ++ [⟨name, []⟩], mCount := d.mCount + 1 })

/-- `addDependency`. -/
def addDependency (backEdge : DependencyGraph → Bool) (d : Dependency) (child parent : String) :
    Result × Dependency :=
  if child = parent then (.ok, d)
  else if parent ∈ d.getDependency child then (.ok, d)
  else
    let (childId, d) := d.vertexFor child
    let (parentId, d) := d.vertexFor parent
    let graph := d.mGraph.addEdge childId parentId
    if backEdge graph then (.error, { d with mGraph := graph.removeEdge childId parentId })
    else (.ok, { d with mGraph := graph })

/-- `rmDependency`. -/
def rmDependency (d : Dependency) (child parent : String) : Dependency :=
  match d.mGraph.getVertexID child, d.mGraph.getVertexID parent with
  | some u, some v => { d with mGraph := d.mGraph.removeEdge u v }
  | _, _ => d

/-- `getSortedList`. -/
def getSortedList (topologicalSort : DependencyGraph → List ℕ) (d : Dependency) : List String :=
  (topologicalSort d.mGraph).reverse.filterMap fun v => d.mGraph[v]?.map Vertex.tag

/-- `clear`. -/
def clear (_ : Dependency) : Dependency := {}

def step (backEdge : DependencyGraph → Bool) (d : Dependency) :
    DependencyAction → Option Dependency
  | .addDependency child parent => some (d.addDependency backEdge child parent).2
  | .rmDependency child parent => some (d.rmDependency child parent)
  | .clear => some d.clear

end Dependency

/-! ## Graphs -/

namespace DependencyGraph

variable {g : DependencyGraph} {u v x y : ℕ} {name : String}

theorem succ_append : succ (g ++ [⟨name, []⟩]) x = g.succ x := by
  unfold succ
  rcases Nat.lt_trichotomy x g.length with h | rfl | h
  · rw [List.getElem?_append_left h]
  · simp
  · rw [List.getElem?_eq_none (Nat.le_of_lt h), List.getElem?_eq_none]
    simpa using Nat.succ_le_of_lt h

theorem succ_addEdge (hu : u < g.length) :
    (g.addEdge u v).succ x = if x = u then g.succ u ++ [v] else g.succ x := by
  unfold succ
  rw [addEdge, List.getElem?_modify]
  by_cases hx : x = u
  · simp [hx, List.getElem?_eq_getElem hu]
  · simp [hx, Ne.symm hx]

theorem succ_removeEdge :
    (g.removeEdge u v).succ x = if x = u then (g.succ u).filter (· ≠ v) else g.succ x := by
  unfold succ
  rw [removeEdge, List.getElem?_modify]
  by_cases hx : x = u
  · cases hg : g[u]? <;> simp [hx, hg]
  · simp [hx, Ne.symm hx]

theorem Adj.lt (h : Adj g u v) : u < g.length := by
  by_contra hu
  rw [Adj, succ, List.getElem?_eq_none (Nat.le_of_not_lt hu)] at h
  cases h

theorem adj_addEdge (hu : u < g.length) : Adj (g.addEdge u v) x y ↔ AddEdge (Adj g) u v x y := by
  rw [Adj, succ_addEdge hu, AddEdge, Adj]
  by_cases hx : x = u <;> simp [hx]

theorem adj_removeEdge : Adj (g.removeEdge u v) x y ↔ Adj g x y ∧ ¬ (x = u ∧ y = v) := by
  rw [Adj, succ_removeEdge, Adj]
  by_cases hx : x = u <;> simp [hx]

theorem removeEdge_addEdge (h : ¬ Adj g u v) : (g.addEdge u v).removeEdge u v = g := by
  apply List.ext_getElem?
  intro x
  rw [removeEdge, addEdge, List.getElem?_modify, List.getElem?_modify]
  by_cases hx : u = x
  · subst hx
    cases hg : g[u]? with
    | none => rfl
    | some a =>
      have hv : v ∉ a.out := fun hv => h (by simpa [Adj, succ, hg] using hv)
      have hf : a.out.filter (· ≠ v) = a.out :=
        List.filter_eq_self.2 fun w hw => by simpa using fun heq : w = v => hv (heq ▸ hw)
      simp only [if_true, Option.map_eq_map, Option.map_some, List.filter_append, hf]
      simp
  · simp [hx]

/-- The names of the vertices. -/
def tags (g : DependencyGraph) : List String := g.map Vertex.tag

theorem tags_addEdge : (g.addEdge u v).tags = g.tags := by
  apply List.ext_getElem?
  intro x
  rw [tags, tags, addEdge, List.getElem?_map, List.getElem?_map, List.getElem?_modify]
  cases g[x]? <;> simp
  split <;> rfl

theorem tags_removeEdge : (g.removeEdge u v).tags = g.tags := by
  apply List.ext_getElem?
  intro x
  rw [tags, tags, removeEdge, List.getElem?_map, List.getElem?_map, List.getElem?_modify]
  cases g[x]? <;> simp
  split <;> rfl

theorem tags_append : tags (g ++ [⟨name, []⟩]) = g.tags ++ [name] := by
  rw [tags, List.map_append, tags]
  rfl

theorem length_tags : g.tags.length = g.length := List.length_map _

theorem getElem?_tags_of_getVertexID (h : g.getVertexID name = some u) :
    g.tags[u]? = some name := by
  obtain ⟨hu, hp, -⟩ := List.findIdx?_eq_some_iff_getElem.1 h
  simpa [tags, hu] using hp

theorem getVertexID_eq_none_iff : g.getVertexID name = none ↔ name ∉ g.tags := by
  simp [getVertexID, tags]

/-- What holds of the graph between the calls. -/
structure WellFormed (g : DependencyGraph) : Prop where
  unique : g.tags.Nodup
  inRange : ∀ u v, Adj g u v → v < g.length
  single : ∀ u, (g.succ u).Nodup
  acyclic : Acyclic (Adj g)

theorem WellFormed.vertex_unique (hw : WellFormed g) (hu : g.tags[u]? = some name)
    (hv : g.tags[v]? = some name) : u = v :=
  (List.getElem?_inj (List.getElem?_eq_some_iff.1 hu).1 hw.unique).1 (hu.trans hv.symm)

theorem WellFormed.getVertexID_iff (hw : WellFormed g) :
    g.getVertexID name = some u ↔ g.tags[u]? = some name := by
  refine ⟨getElem?_tags_of_getVertexID, fun hu => ?_⟩
  cases hid : g.getVertexID name with
  | none => exact absurd (List.mem_of_getElem? hu) (getVertexID_eq_none_iff.1 hid)
  | some v => rw [hw.vertex_unique hu (getElem?_tags_of_getVertexID hid)]

/-- An edge, by the names of its ends. -/
def Edge (g : DependencyGraph) (child parent : String) : Prop :=
  ∃ u v, g.tags[u]? = some child ∧ g.tags[v]? = some parent ∧ Adj g u v

/-- Paths between names are paths between the vertices that have them. -/
theorem WellFormed.reflTransGen_edge_iff (hw : WellFormed g) {a b : String}
    (hu : g.tags[u]? = some a) (hv : g.tags[v]? = some b) :
    ReflTransGen (Edge g) a b ↔ ReflTransGen (Adj g) u v := by
  constructor
  · intro h
    induction h generalizing v with
    | refl => rw [hw.vertex_unique hu hv]
    | tail _ he ih =>
      obtain ⟨x, y, hx, hy, hxy⟩ := he
      rw [hw.vertex_unique hv hy]
      exact (ih hx).tail hxy
  · intro h
    induction h generalizing b with
    | refl => rw [Option.some.inj (hu.symm.trans hv)]
    | tail _ he ih =>
      have hlt := he.lt
      rw [← length_tags] at hlt
      exact (ih (List.getElem?_eq_getElem hlt)).tail
        ⟨_, _, List.getElem?_eq_getElem hlt, hv, he⟩

/-! ## The operations keep graphs well formed -/

theorem wellFormed_nil : WellFormed [] where
  unique := List.nodup_nil
  inRange _ _ h := by cases h
  single _ := List.nodup_nil
  acyclic _ h := by
    obtain ⟨_, h, -⟩ := TransGen.head'_iff.1 h
    cases h

theorem WellFormed.append (hw : WellFormed g) (hname : name ∉ g.tags) :
    WellFormed (g ++ [⟨name, []⟩]) where
  unique := by
    rw [tags_append]
    exact hw.unique.append (List.nodup_singleton _) (by simpa using hname)
  inRange u v h := by
    rw [Adj, succ_append] at h
    exact Nat.lt_of_lt_of_le (hw.inRange u v h) (by simp)
  single u := by
    rw [succ_append]
    exact hw.single u
  acyclic := hw.acyclic.mono fun u v h => by rwa [Adj, succ_append] at h

theorem WellFormed.inRange_addEdge (hw : WellFormed g) (hu : u < g.length) (hv : v < g.length) :
    ∀ x y, Adj (g.addEdge u v) x y → y < (g.addEdge u v).length := by
  intro x y h
  rw [← length_tags, tags_addEdge, length_tags]
  rcases (adj_addEdge hu).1 h with h | ⟨-, rfl⟩
  · exact hw.inRange x y h
  · exact hv

theorem WellFormed.addEdge (hw : WellFormed g) (hu : u < g.length) (hv : v < g.length)
    (hnew : ¬ Adj g u v) (hback : ¬ ReflTransGen (Adj g) v u) : WellFormed (g.addEdge u v) where
  unique := by
    rw [tags_addEdge]
    exact hw.unique
  inRange := hw.inRange_addEdge hu hv
  single x := by
    rw [succ_addEdge hu]
    split
    · exact (hw.single u).append (List.nodup_singleton v) (by simpa [Adj] using hnew)
    · exact hw.single x
  acyclic := (hw.acyclic.addEdge_iff.2 hback).mono fun _ _ => (adj_addEdge hu).1

theorem WellFormed.removeEdge (hw : WellFormed g) : WellFormed (g.removeEdge u v) where
  unique := by
    rw [tags_removeEdge]
    exact hw.unique
  inRange x y h := by
    rw [← length_tags, tags_removeEdge, length_tags]
    exact hw.inRange x y (adj_removeEdge.1 h).1
  single x := by
    rw [succ_removeEdge]
    split
    · exact (hw.single u).filter _
    · exact hw.single x
  acyclic := hw.acyclic.mono fun _ _ h => (adj_removeEdge.1 h).1

end DependencyGraph

namespace Dependency

open DependencyGraph

variable {d d' : Dependency} {child parent name x y : String}
variable {backEdge : DependencyGraph → Bool}

theorem getDependency_eq (d : Dependency) (modid : String) :
    d.getDependency modid = match d.mGraph.getVertexID modid with
      | some u => (d.mGraph.succ u).filterMap fun v => d.mGraph.tags[v]?
      | none => [] := by
  rw [getDependency, List.find?_eq_bind_findIdx?_getElem?, getVertexID]
  cases hu : d.mGraph.findIdx? fun x => x.tag = modid with
  | none => rfl
  | some u =>
    have hlt := (List.findIdx?_eq_some_iff_getElem.1 hu).1
    simp [succ, tags, List.getElem?_eq_getElem hlt]

/-- `getDependency` returns the names that edges lead to. -/
theorem mem_getDependency_iff (hw : d.mGraph.WellFormed) :
    y ∈ d.getDependency x ↔ d.mGraph.Edge x y := by
  rw [getDependency_eq]
  cases hx : d.mGraph.getVertexID x with
  | none =>
    apply iff_of_false List.not_mem_nil
    rintro ⟨u, v, hu, -⟩
    exact getVertexID_eq_none_iff.1 hx (List.mem_of_getElem? hu)
  | some u =>
    rw [List.mem_filterMap]
    constructor
    · rintro ⟨v, hv, hy⟩
      exact ⟨u, v, getElem?_tags_of_getVertexID hx, hy, hv⟩
    · rintro ⟨u', v, hu', hv, hadj⟩
      rw [hw.getVertexID_iff] at hx
      rw [hw.vertex_unique hx hu']
      exact ⟨v, hadj, hv⟩

/-- What looking up or adding the vertex `name` gives. -/
structure HasVertex (d : Dependency) (name : String) (u : ℕ) (d' : Dependency) : Prop where
  wellFormed : d'.mGraph.WellFormed
  tag : d'.mGraph.tags[u]? = some name
  kept : ∀ {v : ℕ} {n : String}, d.mGraph.tags[v]? = some n → d'.mGraph.tags[v]? = some n
  succ : ∀ v, d'.mGraph.succ v = d.mGraph.succ v
  same : u < d.mGraph.length → d' = d

theorem hasVertex_vertexFor (hw : d.mGraph.WellFormed) (name : String) :
    HasVertex d name (d.vertexFor name).1 (d.vertexFor name).2 := by
  unfold vertexFor
  cases hu : d.mGraph.getVertexID name with
  | some u => exact ⟨hw, getElem?_tags_of_getVertexID hu, id, fun _ => rfl, fun _ => rfl⟩
  | none =>
    refine ⟨hw.append (getVertexID_eq_none_iff.1 hu), ?_, fun {v n} hv => ?_,
      fun _ => succ_append, fun h => absurd h (Nat.lt_irrefl _)⟩
    · rw [tags_append, List.getElem?_append_right (Nat.le_of_eq length_tags)]
      simp [length_tags]
    · rwa [tags_append, List.getElem?_append_left (List.getElem?_eq_some_iff.1 hv).1]

theorem HasVertex.adj {u : ℕ} (h : HasVertex d name u d') : Adj d'.mGraph = Adj d.mGraph := by
  funext a b
  rw [Adj, Adj, h.succ]

/-- A vertex that is an end of an edge was there already. -/
theorem HasVertex.edge_iff {u : ℕ} (h : HasVertex d name u d') (hw : d.mGraph.WellFormed) :
    d'.mGraph.Edge x y ↔ d.mGraph.Edge x y := by
  constructor
  · rintro ⟨a, b, ha, hb, hab⟩
    rw [h.adj] at hab
    have hla := hab.lt
    have hlb := hw.inRange a b hab
    rw [← length_tags] at hla hlb
    have ha' := h.kept (List.getElem?_eq_getElem hla)
    have hb' := h.kept (List.getElem?_eq_getElem hlb)
    refine ⟨a, b, ?_, ?_, hab⟩
    · rw [List.getElem?_eq_getElem hla, ← ha', ha]
    · rw [List.getElem?_eq_getElem hlb, ← hb', hb]
  · rintro ⟨a, b, ha, hb, hab⟩
    exact ⟨a, b, h.kept ha, h.kept hb, by rwa [h.adj]⟩

/-! ## `addDependency` -/

/-- Both vertices of a dependency between different modules, with what `addDependency` found. -/
structure Ends (d : Dependency) (child parent : String) (u v : ℕ) (d' : Dependency) : Prop where
  wellFormed : d'.mGraph.WellFormed
  child : d'.mGraph.tags[u]? = some child
  parent : d'.mGraph.tags[v]? = some parent
  edge : ∀ x y, d'.mGraph.Edge x y ↔ d.mGraph.Edge x y
  same : u < d.mGraph.length → v < d.mGraph.length → d' = d
  adj : Adj d'.mGraph = Adj d.mGraph

theorem ends_vertexFor (hw : d.mGraph.WellFormed) (child parent : String) :
    Ends d child parent (d.vertexFor child).1 ((d.vertexFor child).2.vertexFor parent).1
      ((d.vertexFor child).2.vertexFor parent).2 := by
  have hc := hasVertex_vertexFor hw child
  have hp := hasVertex_vertexFor hc.wellFormed parent
  exact {
    wellFormed := hp.wellFormed
    child := hp.kept hc.tag
    parent := hp.tag
    edge := fun x y => (hp.edge_iff hc.wellFormed).trans (hc.edge_iff hw)
    same := fun hu hv => by
      have hd := hc.same hu
      have hlen := congrArg (fun e : Dependency => e.mGraph.length) hd.symm
      exact (hp.same (Nat.lt_of_lt_of_eq hv hlen)).trans hd
    adj := hp.adj.trans hc.adj }

variable {u v : ℕ}

theorem Ends.reflTransGen_iff (h : Ends d child parent u v d') :
    ReflTransGen (Adj d'.mGraph) v u ↔ ReflTransGen d.mGraph.Edge parent child := by
  rw [← h.wellFormed.reflTransGen_edge_iff h.parent h.child]
  have hedge : d'.mGraph.Edge = d.mGraph.Edge := by
    funext x y
    exact propext (h.edge x y)
  rw [hedge]

/-- If the new edge closes a cycle, its ends were there before. -/
theorem Ends.eq_of_reflTransGen (h : Ends d child parent u v d') (hw : d.mGraph.WellFormed)
    (hne : child ≠ parent) (hback : ReflTransGen (Adj d'.mGraph) v u) : d' = d := by
  rw [h.adj] at hback
  have hvu : v ≠ u := by
    rintro rfl
    exact hne (Option.some.inj (h.child.symm.trans h.parent))
  obtain ⟨⟨w, hvw⟩, z, hzu⟩ := exists_edges_of_reflTransGen hback hvu
  exact h.same (hw.inRange z u hzu) hvw.lt

theorem Ends.edge_addEdge (h : Ends d child parent u v d') (hu : u < d'.mGraph.length)
    (x y : String) :
    (d'.mGraph.addEdge u v).Edge x y ↔ AddEdge d.mGraph.Edge child parent x y := by
  rw [AddEdge, ← h.edge, DependencyGraph.Edge, DependencyGraph.Edge, tags_addEdge]
  constructor
  · rintro ⟨a, b, ha, hb, hab⟩
    rcases (adj_addEdge hu).1 hab with hab | ⟨rfl, rfl⟩
    · exact .inl ⟨a, b, ha, hb, hab⟩
    · exact .inr ⟨Option.some.inj (ha.symm.trans h.child), Option.some.inj (hb.symm.trans h.parent)⟩
  · rintro (⟨a, b, ha, hb, hab⟩ | ⟨rfl, rfl⟩)
    · exact ⟨a, b, ha, hb, (adj_addEdge hu).2 (.inl hab)⟩
    · exact ⟨u, v, h.child, h.parent, (adj_addEdge hu).2 (.inr ⟨rfl, rfl⟩)⟩

/-- What `addDependency` does for two different modules: it fails exactly if the parent leads back
to the child, and then changes nothing; otherwise it adds the edge. -/
structure AddSpec (d : Dependency) (child parent : String) (out : Result × Dependency) : Prop where
  error : out.1 = .error ↔ ReflTransGen d.mGraph.Edge parent child
  unchanged : out.1 = .error → out.2 = d
  added : out.1 = .ok → ∀ x y, out.2.mGraph.Edge x y ↔ AddEdge d.mGraph.Edge child parent x y
  wellFormed : out.2.mGraph.WellFormed

theorem addDependency_self (backEdge : DependencyGraph → Bool) (d : Dependency) (name : String) :
    d.addDependency backEdge name name = (.ok, d) := if_pos rfl

theorem addSpec_addDependency (hback : FindsCycles backEdge)
    (hw : d.mGraph.WellFormed) (hne : child ≠ parent) :
    AddSpec d child parent (d.addDependency backEdge child parent) := by
  rw [addDependency, if_neg hne]
  by_cases hmem : parent ∈ d.getDependency child
  · rw [if_pos hmem]
    have hedge := (mem_getDependency_iff hw).1 hmem
    refine ⟨iff_of_false (by simp) fun hreach => ?_, fun _ => rfl, fun _ x y => ?_, hw⟩
    · obtain ⟨u, v, hu, hv, huv⟩ := hedge
      rw [hw.reflTransGen_edge_iff hv hu] at hreach
      exact hw.acyclic u (TransGen.head' huv hreach)
    · refine ⟨.inl, ?_⟩
      rintro (h | ⟨rfl, rfl⟩)
      · exact h
      · exact hedge
  · rw [if_neg hmem]
    have hends := ends_vertexFor hw child parent
    dsimp only
    generalize (d.vertexFor child).1 = u, ((d.vertexFor child).2.vertexFor parent).1 = v,
      ((d.vertexFor child).2.vertexFor parent).2 = d' at hends ⊢
    have hu : u < d'.mGraph.length := by
      rw [← length_tags]
      exact (List.getElem?_eq_some_iff.1 hends.child).1
    have hv : v < d'.mGraph.length := by
      rw [← length_tags]
      exact (List.getElem?_eq_some_iff.1 hends.parent).1
    have hnew : ¬ Adj d'.mGraph u v := fun h =>
      hmem ((mem_getDependency_iff hw).2 ((hends.edge _ _).1 ⟨u, v, hends.child, hends.parent, h⟩))
    have hcycle : backEdge (d'.mGraph.addEdge u v) = true ↔ ReflTransGen (Adj d'.mGraph) v u := by
      have hadj : Adj (d'.mGraph.addEdge u v) = AddEdge (Adj d'.mGraph) u v := by
        funext x y
        exact propext (adj_addEdge hu)
      rw [hback _ (hends.wellFormed.inRange_addEdge hu hv), hadj,
        hends.wellFormed.acyclic.addEdge_iff, not_not]
    by_cases hb : ReflTransGen (Adj d'.mGraph) v u
    · rw [if_pos (hcycle.2 hb), removeEdge_addEdge hnew, hends.eq_of_reflTransGen hw hne hb]
      exact ⟨iff_of_true rfl (hends.reflTransGen_iff.1 hb), fun _ => rfl, by simp, hw⟩
    · rw [if_neg (fun h => hb (hcycle.1 h))]
      refine ⟨iff_of_false (by simp) fun h => hb (hends.reflTransGen_iff.2 h), by simp,
        fun _ => hends.edge_addEdge hu, hends.wellFormed.addEdge hu hv hnew hb⟩

/-! ## Runs -/

theorem wellFormed_step (hback : FindsCycles backEdge)
    {a : DependencyAction} (hw : d.mGraph.WellFormed) (h : d.step backEdge a = some d') :
    d'.mGraph.WellFormed := by
  cases a with
  | addDependency child parent =>
    obtain rfl := Option.some.inj h
    by_cases hne : child = parent
    · subst hne
      rwa [addDependency_self]
    · exact (addSpec_addDependency hback hw hne).wellFormed
  | rmDependency child parent =>
    obtain rfl := Option.some.inj h
    unfold rmDependency
    split
    · exact hw.removeEdge
    · exact hw
  | clear =>
    obtain rfl := Option.some.inj h
    exact wellFormed_nil

/-- What holds of the graph and of `addDependency` between the calls. -/
structure GraphLaws (backEdge : DependencyGraph → Bool) (d : Dependency) : Prop where
  unique : d.mGraph.tags.Nodup
  parallel : ∀ u, (d.mGraph.succ u).Nodup
  selfEdge : ∀ u, ¬ Adj d.mGraph u u
  acyclic : Acyclic (Adj d.mGraph)
  addSelf : ∀ name, d.addDependency backEdge name name = (.ok, d)
  add : ∀ child parent, child ≠ parent →
    AddSpec d child parent (d.addDependency backEdge child parent)

/-- Any sequence of calls leaves a graph with these laws. -/
theorem graphLaws_of_exec (hback : FindsCycles backEdge) (as : List DependencyAction)
    (h : exec (step backEdge) {} as = some d) : GraphLaws backEdge d := by
  have hw : d.mGraph.WellFormed :=
    exec_induction (I := fun d : Dependency => d.mGraph.WellFormed) (wellFormed_step hback)
      wellFormed_nil h
  exact {
    unique := hw.unique
    parallel := hw.single
    selfEdge := hw.acyclic.irrefl
    acyclic := hw.acyclic
    addSelf := addDependency_self backEdge d
    add := fun _ _ => addSpec_addDependency hback hw }

/-! ## The sorted list -/

variable {topologicalSort : DependencyGraph → List ℕ}

theorem filterMap_range (g : DependencyGraph) :
    (List.range g.length).filterMap (fun v => g[v]?.map Vertex.tag) = g.tags := by
  induction g using List.reverseRecOn with
  | nil => rfl
  | append_singleton g x ih =>
    have hold : ∀ v ∈ List.range g.length,
        (g ++ [x])[v]?.map Vertex.tag = g[v]?.map Vertex.tag := by
      intro v hv
      rw [List.getElem?_append_left (List.mem_range.1 hv)]
    rw [List.length_append, List.length_singleton, List.range_succ, List.filterMap_append,
      List.filterMap_congr hold, ih]
    simp [tags]

theorem perm_getSortedList (hsort : SortsReverse topologicalSort) (hw : d.mGraph.WellFormed) :
    (d.getSortedList topologicalSort).Perm d.mGraph.tags := by
  have hperm := (hsort d.mGraph hw.inRange hw.acyclic).1
  rw [← filterMap_range]
  exact ((List.reverse_perm _).trans hperm).filterMap _

theorem topological_getSortedList (hsort : SortsReverse topologicalSort)
    (hw : d.mGraph.WellFormed) :
    Topological (TransGen d.mGraph.Edge) (d.getSortedList topologicalSort) := by
  have hedge : Topological d.mGraph.Edge (d.getSortedList topologicalSort) := {
    nodup := (perm_getSortedList hsort hw).nodup_iff.2 hw.unique
    edge := ?_ }
  · exact hedge.transGen
  · rintro x y ⟨u, v, hu, hv, huv⟩
    have hsub := ((hsort d.mGraph hw.inRange hw.acyclic).2 u v huv).reverse
    rw [tags, List.getElem?_map] at hu hv
    have hnames := hsub.filterMap fun v => d.mGraph[v]?.map Vertex.tag
    simpa only [getSortedList, List.reverse_cons, List.reverse_nil, List.nil_append,
      List.singleton_append, List.filterMap_cons, List.filterMap_nil, hu, hv] using hnames

/-- A depth-first search as `boost::depth_first_search` makes it. -/
def depthFirstSearch (g : DependencyGraph) : Bool :=
  (Dfs.search g.succ (List.range g.length)).isNone

theorem findsCycles_depthFirstSearch : FindsCycles depthFirstSearch := by
  intro g hrange
  rw [depthFirstSearch, Option.isNone_iff_eq_none]
  refine Dfs.search_eq_none_iff fun u v h => ⟨?_, ?_⟩
  · exact List.mem_range.2 (Adj.lt h)
  · exact List.mem_range.2 (hrange u v h)

/-- A `boost::topological_sort`: the vertices in the order in which the search leaves them. -/
def searchOrder (g : DependencyGraph) : List ℕ :=
  ((Dfs.search g.succ (List.range g.length)).getD []).reverse

theorem sortsReverse_searchOrder : SortsReverse searchOrder := by
  intro g hrange hacyclic
  have hu : ∀ u, ∀ v ∈ g.succ u, v ∈ List.range g.length := fun u v h =>
    List.mem_range.2 (hrange u v h)
  have hsearch : Dfs.search g.succ (List.range g.length) ≠ none := fun h =>
    (Dfs.search_eq_none_iff fun u v h => ⟨List.mem_range.2 (Adj.lt h), hu u v h⟩).1 h hacyclic
  obtain ⟨black, hblack⟩ := Option.ne_none_iff_exists'.1 hsearch
  obtain ⟨hord, hall⟩ := Dfs.Ordered.of_search hblack
  rw [searchOrder, hblack, Option.getD_some]
  refine ⟨(List.reverse_perm _).trans (Dfs.perm_of_search List.nodup_range hu hblack), ?_⟩
  intro u v huv
  exact (hord.sublist_pair (hall u (List.mem_range.2 huv.lt)) huv).reverse

/-- Three modules in a row; a fourth dependency that closes the circle is refused. -/
theorem graphLaws_chain :
    ∃ d, exec (step depthFirstSearch) {} [.addDependency "t1" "t3", .addDependency "t3" "t6",
        .addDependency "t6" "t7", .addDependency "t7" "t3"] = some d ∧
      GraphLaws depthFirstSearch d :=
  Exists.imp (fun _ h => ⟨h, graphLaws_of_exec findsCycles_depthFirstSearch _ h⟩) ⟨_, rfl⟩

/-- A module's dependency on itself is accepted, and adds no edge. -/
theorem self_dependency_adds_no_edge :
    ({} : Dependency).addDependency depthFirstSearch "t3" "t3" = (.ok, {}) ∧
      ¬ ({} : Dependency).mGraph.Edge "t3" "t3" :=
  ⟨rfl, fun ⟨_, _, h, _⟩ => by cases h⟩

end Dependency

end Kalinka
