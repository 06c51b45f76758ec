import Mathlib

/-!
# Property graphs

A finite directed multigraph with keyed nodes and labelled edges, over arbitrary types: `N` keys of
nodes, `V` what a node holds, `K` keys of edges (a key fixes both endpoints), `P` what an edge holds.
Several edges may share a key. No edge dangles: that is a field of the structure.

* `PropertyGraph.ext_at`: a graph is determined by the value at each node key and the edges at each edge key;
* `nodes_*` and `edgesAt_*`: what each operation does to one node key and to one edge key.
-/

set_option linter.unusedSectionVars false

open Std (ExtTreeMap TransOrd LawfulEqOrd)

/-- The endpoints an edge key fixes. -/
class Incidence (K N : Type) where
  source : K → N
  target : K → N

/-- **A property graph.** Nodes by key, a multiset of edges by key, and no dangling edge. -/
structure PropertyGraph (N V K P : Type) [Ord N] [TransOrd N] [Incidence K N] where
  nodes : ExtTreeMap N V
  edges : Multiset (K × P)
  closed : ∀ e ∈ edges, (Incidence.source e.1 : N) ∈ nodes ∧ (Incidence.target e.1 : N) ∈ nodes

namespace PropertyGraph

open Incidence

variable {N V K P : Type} [Ord N] [TransOrd N] [Incidence K N]

instance [LawfulEqOrd N] [DecidableEq V] [DecidableEq K] [DecidableEq P] : DecidableEq (PropertyGraph N V K P) :=
  fun g h => decidable_of_iff (g.nodes = h.nodes ∧ g.edges = h.edges)
    ⟨fun ⟨hn, he⟩ => by cases g; cases h; cases hn; cases he; rfl, fun hgh => by subst hgh; exact ⟨rfl, rfl⟩⟩

instance : EmptyCollection (PropertyGraph N V K P) := ⟨⟨∅, 0, by simp⟩⟩

@[simp] theorem empty_nodes : (∅ : PropertyGraph N V K P).nodes = ∅ := rfl

@[simp] theorem empty_edges : (∅ : PropertyGraph N V K P).edges = 0 := rfl

section Fibers

variable [DecidableEq K]

/-- What a multiset of pairs holds at one key. -/
def fiber (m : Multiset (K × P)) (k : K) : Multiset P :=
  (m.filter (·.1 = k)).map Prod.snd

@[simp] theorem fiber_zero (k : K) : fiber (0 : Multiset (K × P)) k = 0 := rfl

@[simp] theorem fiber_cons (e : K × P) (m : Multiset (K × P)) (k : K) :
    fiber (e ::ₘ m) k = if e.1 = k then e.2 ::ₘ fiber m k else fiber m k := by
  unfold fiber
  rw [Multiset.filter_cons]
  split
  · rw [Multiset.singleton_add, Multiset.map_cons]
  · rw [zero_add]

theorem mem_fiber {m : Multiset (K × P)} {k : K} {p : P} : p ∈ fiber m k ↔ (k, p) ∈ m := by
  simp [fiber]

theorem fiber_eq_zero {m : Multiset (K × P)} {k : K} : fiber m k = 0 ↔ ∀ e ∈ m, e.1 ≠ k := by
  simp only [fiber, Multiset.map_eq_zero, Multiset.filter_eq_nil]

/-- A multiset of pairs is determined by its fibers. -/
theorem ext_fiber [DecidableEq P] {m m' : Multiset (K × P)} (h : ∀ k, fiber m k = fiber m' k) : m = m' := by
  have hcount : ∀ (s : Multiset (K × P)) k p, s.count (k, p) = (fiber s k).count p := by
    intro s k p
    induction s using Multiset.induction with
    | empty => simp
    | cons e s ih =>
      obtain ⟨j, q⟩ := e
      rw [Multiset.count_cons, ih, fiber_cons]
      by_cases hj : j = k
      · subst hj; simp [Multiset.count_cons]
      · simp [hj, Ne.symm hj]
  ext ⟨k, p⟩
  rw [hcount, hcount, h]

/-- What the edges at one key hold. -/
def edgesAt (g : PropertyGraph N V K P) (k : K) : Multiset P := fiber g.edges k

@[simp] theorem empty_edgesAt (k : K) : (∅ : PropertyGraph N V K P).edgesAt k = 0 := rfl

theorem mem_edgesAt {g : PropertyGraph N V K P} {k : K} {p : P} : p ∈ g.edgesAt k ↔ (k, p) ∈ g.edges :=
  mem_fiber

/-- **Extensionality.** Equal at every node key and at every edge key. -/
theorem ext_at [LawfulEqOrd N] [DecidableEq P] {g h : PropertyGraph N V K P} (hn : ∀ n : N, g.nodes[n]? = h.nodes[n]?)
    (he : ∀ k, g.edgesAt k = h.edgesAt k) : g = h := by
  have h1 : g.nodes = h.nodes := ExtTreeMap.ext_getElem? hn
  have h2 : g.edges = h.edges := ext_fiber he
  cases g; cases h; cases h1; cases h2; rfl

theorem edgesAt_eq_zero_of_source {g : PropertyGraph N V K P} {k : K} (h : (source k : N) ∉ g.nodes) :
    g.edgesAt k = 0 :=
  Multiset.eq_zero_of_forall_notMem fun _ hp => h (g.closed _ (mem_edgesAt.1 hp)).1

theorem edgesAt_eq_zero_of_target {g : PropertyGraph N V K P} {k : K} (h : (target k : N) ∉ g.nodes) :
    g.edgesAt k = 0 :=
  Multiset.eq_zero_of_forall_notMem fun _ hp => h (g.closed _ (mem_edgesAt.1 hp)).2

end Fibers

variable [LawfulEqOrd N]

/-! ## Operations on nodes -/

/-- Set the node at `n` to `f` of what it holds, creating it when absent. -/
def setNode (g : PropertyGraph N V K P) (n : N) (f : Option V → V) : PropertyGraph N V K P where
  nodes := g.nodes.insert n (f g.nodes[n]?)
  edges := g.edges
  closed e he := by
    obtain ⟨hs, ht⟩ := g.closed e he
    exact ⟨ExtTreeMap.mem_insert.2 (.inr hs), ExtTreeMap.mem_insert.2 (.inr ht)⟩

/-- Change the node at `n`, when there is one. -/
def editNode (g : PropertyGraph N V K P) (n : N) (f : V → V) : PropertyGraph N V K P where
  nodes := g.nodes.modify n f
  edges := g.edges
  closed e he := by
    obtain ⟨hs, ht⟩ := g.closed e he
    exact ⟨ExtTreeMap.mem_modify.2 hs, ExtTreeMap.mem_modify.2 ht⟩

/-- Delete the node at `n` with the edges at it. -/
def deleteNode [DecidableEq N] (g : PropertyGraph N V K P) (n : N) : PropertyGraph N V K P where
  nodes := g.nodes.erase n
  edges := g.edges.filter fun e => source e.1 ≠ n ∧ target e.1 ≠ n
  closed e he := by
    obtain ⟨he, hs, ht⟩ := Multiset.mem_filter.1 he
    obtain ⟨gs, gt⟩ := g.closed e he
    exact ⟨ExtTreeMap.mem_erase.2 ⟨fun h => hs (Std.LawfulEqCmp.eq_of_compare h).symm, gs⟩,
      ExtTreeMap.mem_erase.2 ⟨fun h => ht (Std.LawfulEqCmp.eq_of_compare h).symm, gt⟩⟩

@[simp] theorem setNode_nodes (g : PropertyGraph N V K P) (n m : N) (f : Option V → V) [DecidableEq N] :
    (g.setNode n f).nodes[m]? = if n = m then some (f g.nodes[m]?) else g.nodes[m]? := by
  simp only [setNode, ExtTreeMap.getElem?_insert, Std.LawfulEqCmp.compare_eq_iff_eq]
  split
  · rename_i h; subst h; rfl
  · rfl

@[simp] theorem setNode_edgesAt [DecidableEq K] (g : PropertyGraph N V K P) (n : N) (f : Option V → V) (k : K) :
    (g.setNode n f).edgesAt k = g.edgesAt k := rfl

@[simp] theorem editNode_nodes (g : PropertyGraph N V K P) (n m : N) (f : V → V) [DecidableEq N] :
    (g.editNode n f).nodes[m]? = if n = m then g.nodes[m]?.map f else g.nodes[m]? := by
  simp only [editNode, ExtTreeMap.getElem?_modify, Std.LawfulEqCmp.compare_eq_iff_eq]
  split
  · rename_i h; subst h; rfl
  · rfl

@[simp] theorem editNode_edgesAt [DecidableEq K] (g : PropertyGraph N V K P) (n : N) (f : V → V) (k : K) :
    (g.editNode n f).edgesAt k = g.edgesAt k := rfl

@[simp] theorem deleteNode_nodes [DecidableEq N] (g : PropertyGraph N V K P) (n m : N) :
    (g.deleteNode n).nodes[m]? = if n = m then none else g.nodes[m]? := by
  simp only [deleteNode, ExtTreeMap.getElem?_erase, Std.LawfulEqCmp.compare_eq_iff_eq]

@[simp] theorem deleteNode_edgesAt [DecidableEq N] [DecidableEq K] (g : PropertyGraph N V K P) (n : N) (k : K) :
    (g.deleteNode n).edgesAt k = if source k = n ∨ target k = n then 0 else g.edgesAt k := by
  simp only [edgesAt, deleteNode]
  induction g.edges using Multiset.induction with
  | empty => simp
  | cons e m ih =>
    by_cases he : e.1 = k
    · subst he; rw [Multiset.filter_cons]; split <;> split <;> simp_all
    · rw [Multiset.filter_cons]; split <;> simp_all

/-! ## Operations on edges -/

section Edges

variable [DecidableEq N] [DecidableEq K]

/-- Whether both endpoints of an edge key exist. -/
def hasEnds (g : PropertyGraph N V K P) (k : K) : Bool :=
  (source k : N) ∈ g.nodes && (target k : N) ∈ g.nodes

/-- Change the edges at `k`; when there is none and both endpoints exist, create one from `new`. -/
def setEdge (g : PropertyGraph N V K P) (k : K) (new : P) (f : P → P) : PropertyGraph N V K P where
  nodes := g.nodes
  edges :=
    if g.hasEnds k ∧ ∀ e ∈ g.edges, e.1 ≠ k then (k, f new) ::ₘ g.edges
    else g.edges.map fun e => if e.1 = k then (k, f e.2) else e
  closed e he := by
    split at he
    · rename_i h
      rcases Multiset.mem_cons.1 he with rfl | he
      · simpa [hasEnds] using h.1
      · exact g.closed e he
    · obtain ⟨e', he', rfl⟩ := Multiset.mem_map.1 he
      have := g.closed e' he'
      split
      · rename_i h; subst h; exact this
      · exact this

/-- Delete the edges at `k`. -/
def deleteEdges (g : PropertyGraph N V K P) (k : K) : PropertyGraph N V K P where
  nodes := g.nodes
  edges := g.edges.filter (·.1 ≠ k)
  closed e he := g.closed e (Multiset.mem_filter.1 he).1

/-- Give the edges at `k` the key `k'`, which has the same endpoints. -/
def rekeyEdges (g : PropertyGraph N V K P) (k k' : K) (hs : (source k' : N) = source k)
    (ht : (target k' : N) = target k) : PropertyGraph N V K P where
  nodes := g.nodes
  edges := g.edges.map fun e => if e.1 = k then (k', e.2) else e
  closed e he := by
    obtain ⟨e', he', rfl⟩ := Multiset.mem_map.1 he
    have := g.closed e' he'
    split
    · rename_i h; subst h; simpa only [hs, ht] using this
    · exact this

@[simp] theorem setEdge_nodes (g : PropertyGraph N V K P) (k : K) (new : P) (f : P → P) :
    (g.setEdge k new f).nodes = g.nodes := rfl

@[simp] theorem deleteEdges_nodes (g : PropertyGraph N V K P) (k : K) :
    (g.deleteEdges k).nodes = g.nodes := rfl

@[simp] theorem rekeyEdges_nodes (g : PropertyGraph N V K P) (k k' : K) (hs ht) :
    (g.rekeyEdges k k' hs ht).nodes = g.nodes := rfl

/-- What an upsert does to the edges at its own key. -/
def upsertAt (ends : Bool) (new : P) (f : P → P) (m : Multiset P) : Multiset P :=
  if ends ∧ m.card = 0 then {f new} else m.map f

@[simp] theorem setEdge_edgesAt (g : PropertyGraph N V K P) (k j : K) (new : P) (f : P → P) :
    (g.setEdge k new f).edgesAt j =
      if k = j then upsertAt (g.hasEnds j) new f (g.edgesAt j) else g.edgesAt j := by
  have hmap : ∀ m : Multiset (K × P), fiber (m.map fun e => if e.1 = k then (k, f e.2) else e) j =
      if k = j then (fiber m j).map f else fiber m j := by
    intro m
    induction m using Multiset.induction with
    | empty => simp
    | cons e m ih =>
      rw [Multiset.map_cons, fiber_cons, fiber_cons, ih]
      by_cases hk : e.1 = k
      · by_cases hj : k = j <;> simp [hk, hj]
      · by_cases he : e.1 = j
        · subst he; simp [hk, Ne.symm hk]
        · simp [hk, he]
  simp only [edgesAt, setEdge, upsertAt, Multiset.card_eq_zero, fiber_eq_zero]
  by_cases hj : k = j
  · subst hj
    split
    · rename_i h; rw [fiber_cons, if_pos rfl, if_pos rfl, fiber_eq_zero.2 h.2]; rfl
    · rw [hmap]
  · simp only [if_neg hj]
    split
    · rw [fiber_cons, if_neg hj]
    · rw [hmap, if_neg hj]

@[simp] theorem deleteEdges_edgesAt (g : PropertyGraph N V K P) (k j : K) :
    (g.deleteEdges k).edgesAt j = if k = j then 0 else g.edgesAt j := by
  simp only [edgesAt, deleteEdges]
  induction g.edges using Multiset.induction with
  | empty => simp
  | cons e m ih => rw [Multiset.filter_cons]; split <;> split <;> simp_all

theorem rekeyEdges_edgesAt (g : PropertyGraph N V K P) (k k' : K) (hs ht) (hne : k ≠ k') (j : K) :
    (g.rekeyEdges k k' hs ht).edgesAt j =
      if k = j then 0 else if k' = j then g.edgesAt k' + g.edgesAt k else g.edgesAt j := by
  simp only [edgesAt, rekeyEdges]
  induction g.edges using Multiset.induction with
  | empty => simp
  | cons e m ih =>
    rw [Multiset.map_cons, fiber_cons, ih]
    by_cases hk : e.1 = k
    · by_cases hj : k = j
      · subst hj; simp [hk, Ne.symm hne]
      · by_cases hj' : k' = j
        · subst hj'; simp [hk, hne]
        · simp [hk, hj, hj']
    · by_cases hj : k = j
      · subst hj; simp [hk]
      · by_cases hj' : k' = j
        · subst hj'; by_cases he : e.1 = k' <;> simp [hk, hj, Ne.symm hj, he]
        · simp [hk, hj, hj']

end Edges

end PropertyGraph
