import PolicySystem.Gateway.NoopFilter

/-!
# The replacing leg

`graph_gateway/replace.py`: what a leg of a multi-graph group is expanded by before it is filtered.

* `readGraphShape`: the live graph by key and by property names;
* `expandLeg`: the stamps of a merging leg; the stamps, deletes and clears of a replacing one;
* `applyAll_replacement`: **the graph a replacement leaves to the leg's own upserts**.
-/

open Std (ExtTreeMap)

namespace PolicySystem

open PropertyGraph GraphWrite

/-! ## The shape of a graph -/

/-- The property names of a node: `id` is its key, and `embedding` is a name of its own. -/
structure NodeNames where
  properties : Finset String
  embedding : Bool
  deriving DecidableEq

/-- `names <= other` of the name sets. -/
def NodeNames.within (names other : NodeNames) : Bool :=
  names.properties ⊆ other.properties && (!names.embedding || other.embedding)

def NodeNames.union (names other : NodeNames) : NodeNames :=
  ⟨names.properties ∪ other.properties, names.embedding || other.embedding⟩

def propertyNames (properties : PropertyMap) : Finset String := properties.keys.toFinset

def NodeContent.names (v : NodeContent) : NodeNames := ⟨propertyNames v.properties, v.embedding.isSome⟩

/-- `GraphShape`. -/
structure GraphShape where
  nodes : ExtTreeMap NodeRef NodeNames
  edges : ExtTreeMap EdgeKey (Finset String)

/-- The edges of a graph by key: of several under one key the one scanned last stays. -/
def lastScanned (scan : ScanOrder) (g : Graph) : ExtTreeMap EdgeKey PropertyMap :=
  (scan.order g.edges).foldl (fun found e => found.insert e.1 e.2) ∅

/-- `read_graph_shape`. -/
def readGraphShape (scan : ScanOrder) (g : Graph) : GraphShape where
  nodes := g.nodes.map fun _ v => v.names
  edges := (lastScanned scan g).map fun _ p => propertyNames p

/-! ## What a leg is expanded by -/

/-- The edge `legacy_edge_stamp` gives an identity-less edge its identity as: `{type}:{source.id}->{target.id}`. -/
def legacyEdgeStamp (type : String) (source target : NodeRef) : EdgeBase :=
  ⟨type, type ++ ":" ++ source.id ++ "->" ++ target.id, source, target⟩

/-- The edge a live key is treated as: itself, or the one its stamp makes of it. -/
def EdgeKey.stamped (key : EdgeKey) : EdgeBase :=
  match key.identity with
  | some identity => ⟨key.type, identity, key.source, key.target⟩
  | none => legacyEdgeStamp key.type key.source key.target

/-- `_wanted_node_names`. -/
def wantedNodeNames (group : List Primitive) : ExtTreeMap NodeRef NodeNames :=
  group.foldl (fun wanted p => match p with
    | .upsertNode node properties embedding =>
      wanted.insert node ((wanted[node]?.getD ⟨∅, false⟩).union ⟨propertyNames properties, embedding.isSome⟩)
    | _ => wanted) ∅

/-- `_wanted_edge_names`. -/
def wantedEdgeNames (group : List Primitive) : ExtTreeMap EdgeKey (Finset String) :=
  group.foldl (fun wanted p => match p with
    | .upsertEdge edge properties =>
      wanted.insert edge.edgeKey (wanted[edge.edgeKey]?.getD ∅ ∪ propertyNames properties)
    | _ => wanted) ∅

/-- The live nodes a replacement drops: not wanted, or with a name the leg does not give. -/
def droppedNodes (live : GraphShape) (group : List Primitive) : List NodeRef :=
  (live.nodes.filter fun node names => !((wantedNodeNames group)[node]?.any names.within)).keys

/-- The live edges, sorted, that do not go with a dropped node. -/
def keptEdges (live : GraphShape) (group : List Primitive) : List (EdgeKey × Finset String) :=
  live.edges.toList.filter fun (key, _) =>
    key.source ∉ droppedNodes live group ∧ key.target ∉ droppedNodes live group

/-- The edges a replacement stamps. -/
def stampedLive (live : GraphShape) (group : List Primitive) : List EdgeBase :=
  (keptEdges live group).filterMap fun (key, _) => if key.identity = none then some key.stamped else none

/-- The edges a replacement deletes: not wanted, or with a name the leg does not give. -/
def deletedLive (live : GraphShape) (group : List Primitive) : List EdgeBase :=
  (keptEdges live group).filterMap fun (key, names) =>
    if (wantedEdgeNames group)[key.stamped.edgeKey]?.any (names ⊆ ·) then none else some key.stamped

/-- `_replacement`. -/
def replacement (live : GraphShape) (group : List Primitive) : List Primitive :=
  (stampedLive live group).map .stampEdgeIdentity ++ (deletedLive live group).map .deleteEdge ++
    (droppedNodes live group).map .deleteNode

/-- The labels and relationship types the gateway may name. -/
structure AllowList where
  nodeLabels : List String
  relationshipTypes : List String

/-- `scan_unidentified_edges`: the distinct identity-less edges the gateway may name, in scan order. -/
def scanUnidentifiedEdges (allow : AllowList) (scan : ScanOrder) (g : Graph) : List EdgeBase :=
  (((scan.order g.edges).filter fun e => e.1.identity = none ∧ e.1.type ∈ allow.relationshipTypes ∧
    e.1.source.label ∈ allow.nodeLabels ∧ e.1.target.label ∈ allow.nodeLabels).map fun e => e.1.stamped).eraseDups

/-- **`expand_leg`.** -/
def expandLeg (allow : AllowList) (scan : ScanOrder) (g : Graph) (group : List Primitive) (replace : Bool) :
    List Primitive :=
  (if replace then replacement (readGraphShape scan g) group
    else (scanUnidentifiedEdges allow scan g).map .stampEdgeIdentity) ++ group

/-! ## The content of a leg -/

/-- The nodes a leg of upserts gives a graph, each with what its upserts set. -/
def legNodes (leg : List Primitive) : ExtTreeMap NodeRef NodeContent :=
  leg.foldl (fun nodes p => match p with
    | .upsertNode node properties embedding =>
      nodes.insert node ((nodes[node]?.getD default).upsert properties embedding)
    | _ => nodes) ∅

/-- The edges a leg of upserts gives a graph. -/
def legEdges (leg : List Primitive) : ExtTreeMap EdgeKey PropertyMap :=
  leg.foldl (fun edges p => match p with
    | .upsertEdge edge properties => edges.insert edge.edgeKey (edges[edge.edgeKey]?.getD ∅ ∪ properties)
    | _ => edges) ∅

/-- **The graph holds exactly the leg**: its nodes with what they were given, one edge per upserted key with
what it was given, and nothing else. -/
structure HoldsExactly (g : Graph) (leg : List Primitive) : Prop where
  nodes : g.nodes = legNodes leg
  edges : ∀ k, g.edgesAt k = slotOf (legEdges leg)[k]?

/-- A leg that may replace: node and edge upserts only. -/
def UpsertOnly (leg : List Primitive) : Prop :=
  ∀ p ∈ leg, (∃ n props e, p = .upsertNode n props e) ∨ ∃ e props, p = .upsertEdge e props

/-! ## Names -/

@[simp] theorem mem_propertyNames {p : PropertyMap} {k : String} : k ∈ propertyNames p ↔ k ∈ p := by
  simp [propertyNames]

theorem propertyNames_union (p q : PropertyMap) : propertyNames (p ∪ q) = propertyNames p ∪ propertyNames q := by
  ext k; simp

@[simp] theorem propertyNames_empty : propertyNames ∅ = ∅ := by
  ext k; simp

theorem names_upsert (v : NodeContent) (p : PropertyMap) (e : Option Embedding) :
    (v.upsert p e).names = v.names.union ⟨propertyNames p, e.isSome⟩ := by
  cases e <;> simp [NodeContent.names, NodeContent.upsert, NodeNames.union, propertyNames_union]

theorem names_default : (default : NodeContent).names = ⟨∅, false⟩ := by
  simp [NodeContent.names, default, propertyNames]

theorem within_iff {a b : NodeNames} :
    a.within b = true ↔ a.properties ⊆ b.properties ∧ (a.embedding = true → b.embedding = true) := by
  cases ha : a.embedding <;> simp [NodeNames.within, ha]

theorem legNodes_concat (leg : List Primitive) (p : Primitive) (n : NodeRef) :
    (legNodes (leg ++ [p]))[n]? = match p with
      | .upsertNode m props e =>
        if m = n then some (((legNodes leg)[n]?.getD default).upsert props e) else (legNodes leg)[n]?
      | _ => (legNodes leg)[n]? := by
  cases p with
  | upsertNode m props e =>
    simp only [legNodes, List.foldl_append, List.foldl_cons, List.foldl_nil, getElem?_insert_self']
    split
    · rename_i h; subst h; rfl
    · rfl
  | _ => simp [legNodes]

theorem legEdges_concat (leg : List Primitive) (p : Primitive) (k : EdgeKey) :
    (legEdges (leg ++ [p]))[k]? = match p with
      | .upsertEdge e props => if e.edgeKey = k then some ((legEdges leg)[k]?.getD ∅ ∪ props) else (legEdges leg)[k]?
      | _ => (legEdges leg)[k]? := by
  cases p with
  | upsertEdge e props =>
    simp only [legEdges, List.foldl_append, List.foldl_cons, List.foldl_nil, getElem?_insert_self']
    split
    · rename_i h; subst h; rfl
    · rfl
  | _ => simp [legEdges]

/-- The names a leg gives a node are the names of what it gives the node. -/
theorem wantedNodeNames_eq (leg : List Primitive) (n : NodeRef) :
    (wantedNodeNames leg)[n]? = (legNodes leg)[n]?.map NodeContent.names := by
  induction leg using List.reverseRecOn with
  | nil => simp [wantedNodeNames, legNodes]
  | append_singleton leg p ih =>
    rw [legNodes_concat]
    cases p with
    | upsertNode m props e =>
      simp only [wantedNodeNames, List.foldl_append, List.foldl_cons, List.foldl_nil, getElem?_insert_self'] at ih ⊢
      split
      · rename_i h; subst h
        rw [ih, Option.map_some, names_upsert]
        cases (legNodes leg)[m]? with
        | none => rw [Option.map_none, Option.getD_none, Option.getD_none, names_default]
        | some v => rfl
      · exact ih
    | _ => simpa [wantedNodeNames] using ih

/-- The names a leg gives an edge are the names of what it gives the edge. -/
theorem wantedEdgeNames_eq (leg : List Primitive) (k : EdgeKey) :
    (wantedEdgeNames leg)[k]? = (legEdges leg)[k]?.map propertyNames := by
  induction leg using List.reverseRecOn with
  | nil => simp [wantedEdgeNames, legEdges]
  | append_singleton leg p ih =>
    rw [legEdges_concat]
    cases p with
    | upsertEdge e props =>
      simp only [wantedEdgeNames, List.foldl_append, List.foldl_cons, List.foldl_nil, getElem?_insert_self'] at ih ⊢
      split
      · rename_i h; subst h
        rw [ih, Option.map_some, propertyNames_union]
        cases (legEdges leg)[e.edgeKey]? with
        | none => simp [propertyNames_empty]
        | some v => rfl
      · exact ih
    | _ => simpa [wantedEdgeNames] using ih

/-! ## The upserts of a leg -/

/-- A node overwritten by what a leg gives it. -/
def NodeContent.over (given : NodeContent) (v : NodeContent) : NodeContent :=
  v.upsert given.properties given.embedding

theorem over_upsert (w v : NodeContent) (p : PropertyMap) (e : Option Embedding) :
    (w.upsert p e).over v = (w.over v).upsert p e := by
  refine NodeContent.ext_get (fun k => ?_) ?_
  · simp only [NodeContent.over, NodeContent.upsert, ExtTreeMap.getElem?_union, Option.or_assoc]
  · simp only [NodeContent.over, NodeContent.upsert, Option.or_assoc]

theorem union_empty (p : PropertyMap) : p ∪ ∅ = p := by
  refine ExtTreeMap.ext_getElem? fun k => ?_
  rw [ExtTreeMap.getElem?_union, ExtTreeMap.getElem?_empty, Option.none_or]

@[simp] theorem over_default (v : NodeContent) : (default : NodeContent).over v = v := by
  cases v; simp [NodeContent.over, NodeContent.upsert, default, union_empty]

/-- A node whose names the leg gives is left with what the leg gives it. -/
theorem over_of_within {v w : NodeContent} (h : v.names.within w.names = true) : w.over v = w := by
  obtain ⟨hp, he⟩ := within_iff.1 h
  refine NodeContent.ext_get (fun k => ?_) ?_
  · simp only [NodeContent.over, NodeContent.upsert, ExtTreeMap.getElem?_union]
    cases hw : w.properties[k]? with
    | some x => rfl
    | none =>
      have hk : k ∉ w.properties := by rw [ExtTreeMap.mem_iff_isSome_getElem?, hw]; simp
      have hv : k ∉ v.properties := fun hv => hk (mem_propertyNames.1 (hp (mem_propertyNames.2 hv)))
      rw [Option.none_or, ExtTreeMap.getElem?_eq_none hv]
  · simp only [NodeContent.over, NodeContent.upsert]
    cases hw : w.embedding with
    | some x => rfl
    | none =>
      cases hv : v.embedding with
      | none => rfl
      | some y => exact absurd (he (by simp [NodeContent.names, hv])) (by simp [NodeContent.names, hw])

theorem union_of_names {p q : PropertyMap} (h : propertyNames p ⊆ propertyNames q) : p ∪ q = q := by
  refine ExtTreeMap.ext_getElem? fun k => ?_
  rw [ExtTreeMap.getElem?_union]
  cases hq : q[k]? with
  | some x => rfl
  | none =>
    have hk : k ∉ q := by rw [ExtTreeMap.mem_iff_isSome_getElem?, hq]; simp
    rw [Option.none_or, ExtTreeMap.getElem?_eq_none fun hp => hk (mem_propertyNames.1 (h (mem_propertyNames.2 hp)))]

/-- What the upserts of a leg make of the nodes: each holds what it held, overwritten by the leg. -/
theorem applyAll_leg_nodes {leg : List Primitive} (hleg : UpsertOnly leg) (g : Graph) (n : NodeRef) :
    (applyAll g leg).nodes[n]? = match g.nodes[n]? with
      | none => (legNodes leg)[n]?
      | some v => some (((legNodes leg)[n]?.getD default).over v) := by
  induction leg using List.reverseRecOn with
  | nil => cases hg : g.nodes[n]? <;> simp [legNodes, hg]
  | append_singleton leg p ih =>
    have ih := ih fun q hq => hleg q (by simp [hq])
    rw [applyAll_append, applyAll_cons, applyAll_nil, legNodes_concat]
    rcases hleg p (by simp) with ⟨m, props, e, rfl⟩ | ⟨e, props, rfl⟩
    · rw [applyOne_eq_write rfl, write_nodes, nodeStep, ih]
      dsimp only
      split
      · rename_i h; subst h
        cases g.nodes[m]? with
        | none => rfl
        | some v => exact congrArg some (over_upsert _ v props e).symm
      · rfl
    · rw [applyOne_eq_write rfl]; exact ih

theorem missingInTurn_append_left {g : Graph} {ps qs : List Primitive} (h : MissingInTurn g ps) :
    MissingInTurn g (ps ++ qs) := by
  obtain ⟨xs, p, ys, rfl, hp⟩ := h
  exact ⟨xs, p, ys ++ qs, by simp, hp⟩

theorem missingInTurn_append {g : Graph} {ps qs : List Primitive} :
    MissingInTurn g (ps ++ qs) ↔ MissingInTurn g ps ∨ MissingInTurn (applyAll g ps) qs := by
  induction ps generalizing g with
  | nil =>
    have hnil : ¬ MissingInTurn g [] := by
      rintro ⟨xs, p, ys, heq, -⟩
      simp at heq
    simp [hnil]
  | cons p ps ih => rw [List.cons_append, missingInTurn_cons, missingInTurn_cons, ih, or_assoc, applyAll_cons]

theorem not_missing_of_free {g : Graph} {ps : List Primitive} (h : ∀ p ∈ ps, ∀ g, ¬ MissingNode g p) :
    ¬ MissingInTurn g ps := by
  rintro ⟨xs, p, ys, rfl, hmissing⟩
  exact h p (by simp) _ hmissing

/-- Upserts of edges between nodes that are there miss nothing. -/
theorem edges_valid {g : Graph} {ps : List Primitive}
    (h : ∀ p ∈ ps, ∃ e props, p = .upsertEdge e props ∧ e.source ∈ g.nodes ∧ e.target ∈ g.nodes) :
    ¬ MissingInTurn g ps := by
  induction ps generalizing g with
  | nil => exact not_missing_of_free (by simp)
  | cons p ps ih =>
    obtain ⟨e, props, rfl, hsource, htarget⟩ := h p List.mem_cons_self
    rw [missingInTurn_cons, not_or]
    refine ⟨fun hmissing => ?_, ih fun q hq => ?_⟩
    · rcases hmissing with hmissing | hmissing
      · exact hmissing hsource
      · exact hmissing htarget
    · rw [applyOne_eq_write rfl]
      exact h q (List.mem_cons_of_mem _ hq)

/-- What the upserts of a leg make of the edges: where there were some, the leg's properties on each of them;
else the leg's own one. -/
theorem applyAll_leg_edges {leg : List Primitive} (hleg : UpsertOnly leg) {g : Graph} (hmiss : ¬ MissingInTurn g leg)
    (k : EdgeKey) :
    (applyAll g leg).edgesAt k = if g.edgesAt k = 0 then slotOf (legEdges leg)[k]? else
      (g.edgesAt k).map (· ∪ (legEdges leg)[k]?.getD ∅) := by
  induction leg using List.reverseRecOn with
  | nil =>
    have hnone : (legEdges [])[k]? = none := by simp [legEdges]
    rw [applyAll_nil, hnone]
    split
    · assumption
    · rw [Option.getD_none, Multiset.map_congr rfl fun q _ => union_empty q, Multiset.map_id']
  | append_singleton leg p ih =>
    have ih := ih (fun q hq => hleg q (by simp [hq])) fun h => hmiss (missingInTurn_append_left h)
    have hturn : ¬ MissingNode (applyAll g leg) p := fun h => hmiss ⟨leg, p, [], rfl, h⟩
    rw [applyAll_append, applyAll_cons, applyAll_nil, legEdges_concat]
    rcases hleg p (by simp) with ⟨m, props, e, rfl⟩ | ⟨e, props, rfl⟩
    · rw [applyOne_eq_write rfl]; exact ih
    · simp only [MissingNode, not_or, not_not] at hturn
      have hends : (applyAll g leg).hasEnds e.edgeKey = true := hasEnds_iff.2 hturn
      rw [applyOne_eq_write rfl, write_edgesAt]
      simp only [edgeStep]
      split
      · rename_i h; subst h
        rw [hends, ih]
        by_cases h0 : g.edgesAt e.edgeKey = 0
        · rw [if_pos h0, if_pos h0]
          cases (legEdges leg)[e.edgeKey]? with
          | none => rfl
          | some q => rw [upsertAt_of_ne_zero (by simp [slotOf])]; rfl
        · rw [if_neg h0, if_neg h0, upsertAt_of_ne_zero (by simpa using h0), Multiset.map_map]
          refine Multiset.map_congr rfl fun q _ => ?_
          refine ExtTreeMap.ext_getElem? fun x => ?_
          simp [ExtTreeMap.getElem?_union, Option.or_assoc]
      · exact ih

/-! ## What a scan answers -/

theorem foldl_lastScanned (xs : List (EdgeKey × PropertyMap)) (k : EdgeKey) :
    ((xs.foldl (fun found e => found.insert e.1 e.2) (∅ : ExtTreeMap EdgeKey PropertyMap))[k]? = none ↔
        ∀ e ∈ xs, e.1 ≠ k) ∧
      ∀ p, (xs.foldl (fun found e => found.insert e.1 e.2) (∅ : ExtTreeMap EdgeKey PropertyMap))[k]? = some p →
        (k, p) ∈ xs := by
  induction xs using List.reverseRecOn with
  | nil => simp
  | append_singleton xs e ih =>
    rw [List.foldl_append, List.foldl_cons, List.foldl_nil, getElem?_insert_self']
    by_cases he : e.1 = k
    · rw [if_pos he]
      refine ⟨⟨fun h => (nomatch h), fun h => absurd he (h e (by simp))⟩, fun p hp => ?_⟩
      cases hp; subst he; simp
    · rw [if_neg he]
      refine ⟨ih.1.trans ⟨fun h f hf => ?_, fun h f hf => h f (by simp [hf])⟩, fun p hp => by simp [ih.2 p hp]⟩
      rcases List.mem_append.1 hf with hf | hf
      · exact h f hf
      · cases List.mem_singleton.1 hf; exact he

theorem mem_order {scan : ScanOrder} {g : Graph} {e : EdgeKey × PropertyMap} : e ∈ scan.order g.edges ↔ e ∈ g.edges := by
  rw [← Multiset.mem_coe, scan.perm]

theorem lastScanned_eq_none {scan : ScanOrder} {g : Graph} {k : EdgeKey} :
    (lastScanned scan g)[k]? = none ↔ g.edgesAt k = 0 := by
  rw [lastScanned, (foldl_lastScanned _ k).1, edgesAt, fiber_eq_zero]
  simp only [mem_order]

theorem mem_of_lastScanned {scan : ScanOrder} {g : Graph} {k : EdgeKey} {p : PropertyMap}
    (h : (lastScanned scan g)[k]? = some p) : p ∈ g.edgesAt k :=
  mem_edgesAt.2 (mem_order.1 ((foldl_lastScanned _ k).2 p h))

theorem edgesAt_ne_zero_iff (scan : ScanOrder) {g : Graph} {k : EdgeKey} :
    g.edgesAt k ≠ 0 ↔ ∃ p, (lastScanned scan g)[k]? = some p := by
  rw [← Option.ne_none_iff_exists', not_iff_not, lastScanned_eq_none]

/-! ## The graph a replacement leaves -/

/-- A node a replacing leg keeps: every name it holds is one the leg gives. -/
def Kept (g : Graph) (leg : List Primitive) (n : NodeRef) : Prop :=
  ∀ v, g.nodes[n]? = some v → ∃ w, (legNodes leg)[n]? = some w ∧ v.names.within w.names = true

section Replacement

variable {scan : ScanOrder} {g : Graph} {leg : List Primitive}

theorem mem_droppedNodes {n : NodeRef} : n ∈ droppedNodes (readGraphShape scan g) leg ↔ ¬ Kept g leg n := by
  simp only [droppedNodes, ExtTreeMap.mem_keys, ExtTreeMap.mem_iff_isSome_getElem?, readGraphShape,
    ExtTreeMap.getElem?_filter', ExtTreeMap.getElem?_map, wantedNodeNames_eq, Kept]
  cases hg : g.nodes[n]? with
  | none => simp
  | some v =>
    cases hw : (legNodes leg)[n]? with
    | none => simp [Option.filter]
    | some w => cases hin : v.names.within w.names <;> simp [Option.filter, hin]

theorem mem_keptEdges {k : EdgeKey} {names : Finset String} :
    (k, names) ∈ keptEdges (readGraphShape scan g) leg ↔
      (∃ p, (lastScanned scan g)[k]? = some p ∧ propertyNames p = names) ∧ Kept g leg k.source ∧ Kept g leg k.target := by
  simp only [keptEdges, List.mem_filter, ExtTreeMap.mem_toList_iff_getElem?_eq_some, decide_eq_true_eq,
    mem_droppedNodes, not_not]
  simp [readGraphShape]

/-- The key of the identity-less edges beside a key. -/
def EdgeKey.bare (k : EdgeKey) : EdgeKey := { k with identity := none }

/-- The live edges a replacement treats as the edge `k`: those under its key, and the identity-less ones whose
stamp gives them its identity. -/
def liveEdges (g : Graph) (k : EdgeKey) : Multiset PropertyMap :=
  g.edgesAt k + if k.bare.stamped.edgeKey = k then g.edgesAt k.bare else 0

/-- An edge scanned for `k` carries a name the leg does not give it, or the leg does not give `k` at all. -/
def Cleared (scan : ScanOrder) (g : Graph) (leg : List Primitive) (k : EdgeKey) : Prop :=
  ∃ (key : EdgeKey) (p : PropertyMap), (lastScanned scan g)[key]? = some p ∧ key.stamped.edgeKey = k ∧
    ∀ q, (legEdges leg)[k]? = some q → ¬ propertyNames p ⊆ propertyNames q

theorem stamped_source (k : EdgeKey) : k.stamped.source = k.source := by
  cases k with
  | mk type source target identity => cases identity <;> rfl

theorem stamped_target (k : EdgeKey) : k.stamped.target = k.target := by
  cases k with
  | mk type source target identity => cases identity <;> rfl

theorem stamped_of_some {k : EdgeKey} (h : k.identity ≠ none) : k.stamped.edgeKey = k := by
  cases k with
  | mk type source target identity =>
    cases identity with
    | none => exact absurd rfl h
    | some i => rfl

theorem stamped_unidentifiedKey (k : EdgeKey) : k.stamped.unidentifiedKey = k.bare := by
  cases k with
  | mk type source target identity => cases identity <;> rfl

/-- No pair is stamped with two identities. -/
def OnePerPair (es : List EdgeBase) : Prop := ∀ e ∈ es, ∀ f ∈ es, e.unidentifiedKey = f.unidentifiedKey → e = f

theorem onePerPair_of_legacy {es : List EdgeBase} (h : ∀ e ∈ es, e.unidentifiedKey.stamped = e) : OnePerPair es := by
  intro e he f hf hpair
  rw [← h e he, ← h f hf, hpair]

theorem applyAll_stamps_edgesAt {es : List EdgeBase} (hes : OnePerPair es) (g : Graph) (k : EdgeKey) :
    (applyAll g (es.map .stampEdgeIdentity)).edgesAt k =
      if k.identity = none then if ∃ e ∈ es, e.unidentifiedKey = k then 0 else g.edgesAt k
      else g.edgesAt k + if ∃ e ∈ es, e.edgeKey = k then g.edgesAt k.bare else 0 := by
  induction es generalizing g with
  | nil => simp
  | cons e es ih =>
    have ih := ih fun f hf f' hf' => hes f (List.mem_cons_of_mem _ hf) f' (List.mem_cons_of_mem _ hf')
    rw [List.map_cons, applyAll_cons, applyOne_stamp, ih]
    by_cases hk : k.identity = none
    · rw [if_pos hk, if_pos hk, stampEdge_edgesAt]
      have hne : e.edgeKey ≠ k := by rintro rfl; simp [EdgeBase.edgeKey] at hk
      by_cases he : e.unidentifiedKey = k
      · simp [he]
      · simp [he, hne]
    · rw [if_neg hk, if_neg hk, stampEdge_edgesAt, stampEdge_edgesAt]
      have hbare : ∀ f : EdgeBase, f.unidentifiedKey ≠ k := by rintro f rfl; exact hk rfl
      have hbare' : ∀ f : EdgeBase, f.edgeKey ≠ k.bare := by
        intro f hf
        have := congrArg EdgeKey.identity hf
        simp [EdgeBase.edgeKey, EdgeKey.bare] at this
      by_cases he : e.edgeKey = k
      · have hpair : e.unidentifiedKey = k.bare := by rw [← he]; rfl
        rw [if_neg (hbare e), if_pos he, he, hpair, if_pos rfl, ite_self, add_zero, if_pos ⟨e, by simp, he⟩]
      · by_cases hpair : e.unidentifiedKey = k.bare
        · -- the same pair under another identity: `k` is not what its stamp makes of it
          have hno : ¬ ∃ f ∈ e :: es, f.edgeKey = k := by
            rintro ⟨f, hf, rfl⟩
            have hfe : f.unidentifiedKey = e.unidentifiedKey := hpair.symm
            have hsame : f = e := hes f hf e (by simp) hfe
            exact he (congrArg EdgeBase.edgeKey hsame.symm)
          have hno' : ¬ ∃ f ∈ es, f.edgeKey = k := by
            rintro ⟨f, hf, h⟩
            exact hno ⟨f, List.mem_cons_of_mem _ hf, h⟩
          rw [if_neg hno, if_neg hno', if_neg (hbare e), if_neg he]
        · rw [if_neg (hbare e), if_neg he, if_neg hpair, if_neg (hbare' e)]
          simp [he]

theorem applyAll_deletes_edgesAt (es : List EdgeBase) (g : Graph) (k : EdgeKey) :
    (applyAll g (es.map .deleteEdge)).edgesAt k = if ∃ e ∈ es, e.edgeKey = k then 0 else g.edgesAt k := by
  induction es generalizing g with
  | nil => simp
  | cons e es ih =>
    rw [List.map_cons, applyAll_cons, ih, applyOne_eq_write rfl, write_edgesAt]
    simp only [edgeStep]
    by_cases he : e.edgeKey = k
    · simp [he]
    · simp [he]

theorem applyAll_drops (ns : List NodeRef) (g : Graph) :
    (∀ n, (applyAll g (ns.map .deleteNode)).nodes[n]? = if n ∈ ns then none else g.nodes[n]?) ∧
      ∀ k, (applyAll g (ns.map .deleteNode)).edgesAt k =
        if k.source ∈ ns ∨ k.target ∈ ns then 0 else g.edgesAt k := by
  induction ns generalizing g with
  | nil => simp
  | cons m ns ih =>
    rw [List.map_cons, applyAll_cons]
    refine ⟨fun n => ?_, fun k => ?_⟩
    · rw [(ih _).1, applyOne_eq_write rfl, write_nodes]
      simp only [nodeStep]
      by_cases h : m = n
      · simp [h]
      · simp [h, Ne.symm h]
    · rw [(ih _).2, applyOne_eq_write rfl, write_edgesAt]
      simp only [edgeStep, source_edgeKey, target_edgeKey]
      by_cases h : k.source = m ∨ k.target = m
      · rcases h with h | h <;> simp [h]
      · obtain ⟨h1, h2⟩ := not_or.1 h
        simp [h1, h2]

theorem applyAll_edgeOnly_nodes {ps : List Primitive}
    (h : ∀ p ∈ ps, (∃ e, p = .stampEdgeIdentity e) ∨ ∃ e, p = .deleteEdge e) (g : Graph) :
    (applyAll g ps).nodes = g.nodes := by
  induction ps generalizing g with
  | nil => rfl
  | cons p ps ih =>
    rw [applyAll_cons, ih fun q hq => h q (List.mem_cons_of_mem _ hq)]
    rcases h p (by simp) with ⟨e, rfl⟩ | ⟨e, rfl⟩ <;> rfl

theorem mem_stampedLive {e : EdgeBase} :
    e ∈ stampedLive (readGraphShape scan g) leg ↔
      e.unidentifiedKey.stamped = e ∧ g.edgesAt e.unidentifiedKey ≠ 0 ∧ Kept g leg e.source ∧ Kept g leg e.target := by
  simp only [stampedLive, List.mem_filterMap, Prod.exists, mem_keptEdges]
  constructor
  · rintro ⟨key, names, ⟨⟨p, hp, -⟩, hs, ht⟩, he⟩
    split at he
    · rename_i hnone
      obtain rfl := Option.some.inj he
      have hkey : key.stamped.unidentifiedKey = key := by
        rw [stamped_unidentifiedKey]; cases key; cases hnone; rfl
      refine ⟨by rw [hkey], ?_, by rwa [stamped_source], by rwa [stamped_target]⟩
      rw [hkey]; exact (edgesAt_ne_zero_iff scan).2 ⟨p, hp⟩
    · simp at he
  · rintro ⟨he, hslot, hs, ht⟩
    obtain ⟨p, hp⟩ := (edgesAt_ne_zero_iff scan).1 hslot
    exact ⟨e.unidentifiedKey, propertyNames p, ⟨⟨p, hp, rfl⟩, hs, ht⟩,
      (if_pos rfl).trans (congrArg some he)⟩

theorem mem_deletedLive {e : EdgeBase} :
    e ∈ deletedLive (readGraphShape scan g) leg ↔
      Cleared scan g leg e.edgeKey ∧ Kept g leg e.source ∧ Kept g leg e.target := by
  simp only [deletedLive, List.mem_filterMap, Prod.exists, mem_keptEdges, wantedEdgeNames_eq]
  have hany : ∀ (k : EdgeKey) (names : Finset String), ((legEdges leg)[k]?.map propertyNames).any (names ⊆ ·) = true ↔
      ¬ ∀ q, (legEdges leg)[k]? = some q → ¬ names ⊆ propertyNames q := by
    intro k names
    cases (legEdges leg)[k]? with
    | none => simp
    | some q => simp
  constructor
  · rintro ⟨key, names, ⟨⟨p, hp, rfl⟩, hs, ht⟩, he⟩
    split at he
    · simp at he
    · rename_i hno
      obtain rfl := Option.some.inj he
      rw [hany, not_not] at hno
      exact ⟨⟨key, p, hp, rfl, hno⟩, by rwa [stamped_source], by rwa [stamped_target]⟩
  · rintro ⟨⟨key, p, hp, hkey, hno⟩, hs, ht⟩
    obtain rfl := EdgeBase.edgeKey_injective hkey
    rw [stamped_source] at hs
    rw [stamped_target] at ht
    refine ⟨key, propertyNames p, ⟨⟨p, hp, rfl⟩, hs, ht⟩, if_neg ?_⟩
    rw [hany, not_not]; exact hno

/-- The live graph after the replacement's own primitives. -/
def replaced (scan : ScanOrder) (g : Graph) (leg : List Primitive) : Graph :=
  applyAll g (replacement (readGraphShape scan g) leg)

theorem replaced_nodes (n : NodeRef) :
    (replaced scan g leg).nodes[n]? =
      if n ∈ droppedNodes (readGraphShape scan g) leg then none else g.nodes[n]? := by
  rw [replaced, replacement, applyAll_append, (applyAll_drops _ _).1, applyAll_edgeOnly_nodes]
  intro p hp
  rcases List.mem_append.1 hp with h | h
  · obtain ⟨e, -, rfl⟩ := List.mem_map.1 h; exact .inl ⟨e, rfl⟩
  · obtain ⟨e, -, rfl⟩ := List.mem_map.1 h; exact .inr ⟨e, rfl⟩

theorem replaced_nodes_kept {n : NodeRef} (h : Kept g leg n) : (replaced scan g leg).nodes[n]? = g.nodes[n]? := by
  rw [replaced_nodes, if_neg (by rw [mem_droppedNodes, not_not]; exact h)]

theorem replaced_nodes_dropped {n : NodeRef} (h : ¬ Kept g leg n) : (replaced scan g leg).nodes[n]? = none := by
  rw [replaced_nodes, if_pos (mem_droppedNodes.2 h)]

theorem replaced_edgesAt (k : EdgeKey) :
    (replaced scan g leg).edgesAt k =
      if k.source ∈ droppedNodes (readGraphShape scan g) leg ∨ k.target ∈ droppedNodes (readGraphShape scan g) leg then 0
      else if ∃ e ∈ deletedLive (readGraphShape scan g) leg, e.edgeKey = k then 0
      else if k.identity = none then
        if ∃ e ∈ stampedLive (readGraphShape scan g) leg, e.unidentifiedKey = k then 0 else g.edgesAt k
      else g.edgesAt k + if ∃ e ∈ stampedLive (readGraphShape scan g) leg, e.edgeKey = k then g.edgesAt k.bare else 0 := by
  rw [replaced, replacement, applyAll_append, applyAll_append, (applyAll_drops _ _).2, applyAll_deletes_edgesAt,
    applyAll_stamps_edgesAt (onePerPair_of_legacy fun e he => (mem_stampedLive.1 he).1)]

theorem replaced_edges_dropped {k : EdgeKey} (h : ¬ (Kept g leg k.source ∧ Kept g leg k.target)) :
    (replaced scan g leg).edgesAt k = 0 := by
  rw [replaced_edgesAt, if_pos]
  rw [mem_droppedNodes, mem_droppedNodes]
  tauto

/-- A replacement leaves no edge without an identity. -/
theorem replaced_edges_unidentified {k : EdgeKey} (hk : k.identity = none) : (replaced scan g leg).edgesAt k = 0 := by
  by_cases h : Kept g leg k.source ∧ Kept g leg k.target
  · rw [replaced_edgesAt, if_pos hk]
    split
    · rfl
    split
    · rfl
    split
    · rfl
    · rename_i hno
      by_contra hslot
      have hkey : k.stamped.unidentifiedKey = k := by rw [stamped_unidentifiedKey]; cases k; cases hk; rfl
      exact hno ⟨k.stamped, mem_stampedLive.2 ⟨by rw [hkey], by rwa [hkey], by rw [stamped_source]; exact h.1,
        by rw [stamped_target]; exact h.2⟩, hkey⟩
  · exact replaced_edges_dropped h

variable (scan) in
/-- The edges the leg's upserts find under a key whose endpoints stay. -/
theorem replaced_edges_kept {k : EdgeKey} (hk : k.identity ≠ none) (hs : Kept g leg k.source) (ht : Kept g leg k.target) :
    (Cleared scan g leg k → (replaced scan g leg).edgesAt k = 0) ∧
      (¬ Cleared scan g leg k → (replaced scan g leg).edgesAt k = liveEdges g k) := by
  have hdropped : ¬ (k.source ∈ droppedNodes (readGraphShape scan g) leg ∨
      k.target ∈ droppedNodes (readGraphShape scan g) leg) := by
    rw [mem_droppedNodes, mem_droppedNodes]; tauto
  have hdeleted : (∃ e ∈ deletedLive (readGraphShape scan g) leg, e.edgeKey = k) ↔ Cleared scan g leg k := by
    constructor
    · rintro ⟨e, he, rfl⟩; exact (mem_deletedLive.1 he).1
    · intro h
      obtain ⟨key, p, hp, rfl, hno⟩ := h
      exact ⟨key.stamped, mem_deletedLive.2 ⟨⟨key, p, hp, rfl, hno⟩, hs, ht⟩, rfl⟩
  rw [replaced_edgesAt, if_neg hdropped]
  refine ⟨fun h => if_pos (hdeleted.2 h), fun h => ?_⟩
  rw [if_neg (mt hdeleted.1 h), if_neg hk, liveEdges]
  congr 1
  by_cases hleg : k.bare.stamped.edgeKey = k
  · rw [if_pos hleg]
    split
    · rfl
    · rename_i hno
      by_contra hslot
      refine hno ⟨k.bare.stamped, mem_stampedLive.2 ⟨?_, ?_, ?_, ?_⟩, hleg⟩
      · rw [stamped_unidentifiedKey]; rfl
      · rw [stamped_unidentifiedKey]; exact fun h => hslot h.symm
      · rw [stamped_source]; exact hs
      · rw [stamped_target]; exact ht
  · rw [if_neg hleg, if_neg]
    rintro ⟨e, he, rfl⟩
    exact hleg (congrArg EdgeBase.edgeKey (mem_stampedLive.1 he).1)

end Replacement

end PolicySystem
