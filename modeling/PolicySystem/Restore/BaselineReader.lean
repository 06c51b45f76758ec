import PolicySystem.CompanyMerge.GraphReader
import PolicySystem.Restore.LegPrimitives

/-!
# Reading a baseline from an artifact

`restore/baseline_reader.py`: the fixed queries of the baseline reader, answered from a parsed artifact.

* `leg_held`: a leg's primitives, applied to an empty graph, give the folded leg and nothing else;
* `artifact_read_iff`: **the artifact reads as that graph does exactly when the embeddings that are read are the
  floats they are stored as.**
-/

open Std (ExtTreeMap)

namespace PolicySystem.Restore

open CompanyMerge LastWins PropertyGraph

/-! ## The reader -/

/-- `_NODE_COLUMNS`. -/
def nodeColumns : BaselineQuery → Option (String × List String)
  | .role => some ("Role", ["id", "name", "confidence", "embedding"])
  | .requirement => some ("Requirement", ["id", "text", "type", "confidence", "role_id"])
  | .obligation => some ("Obligation", ["id", "text", "confidence"])
  | .capability => some ("Capability", ["id", "name", "confidence", "description", "embedding"])
  | .practiceArea => some ("PracticeArea", ["id", "name", "status", "description", "version", "owner_id"])
  | .riskPath => some ("RiskPath", ["id", "name", "status", "description", "risk_type", "version"])
  | _ => none

/-- `_WHOLE_NODES`. -/
def wholeNodes : BaselineQuery → Option String
  | .regulatoryInstrument => some "RegulatoryInstrument"
  | .policy => some "Policy"
  | .standard => some "Standard"
  | .control => some "Control"
  | _ => none

/-- `_PROVENANCE`. -/
def provenanceEdges : BaselineQuery → Option (String × String)
  | .defines => some ("DEFINES", "Role")
  | .expresses => some ("EXPRESSES", "Requirement")
  | _ => none

/-- `_BARE_EDGES`. -/
def bareEdges : BaselineQuery → Option (String × String × String)
  | .has => some ("HAS", "Role", "Obligation")
  | .satisfiedBy => some ("SATISFIED_BY", "Requirement", "Obligation")
  | .requires => some ("REQUIRES", "Obligation", "Capability")
  | .governedBy => some ("GOVERNED_BY", "Capability", "Policy")
  | .supportedBy => some ("SUPPORTED_BY", "Policy", "Standard")
  | .implementedBy => some ("IMPLEMENTED_BY", "Standard", "Control")
  | .covers => some ("COVERS", "PracticeArea", "Capability")
  | .owns => some ("OWNS", "PracticeArea", "Policy")
  | .mitigatedBy => some ("MITIGATED_BY", "RiskPath", "Capability")
  | .verifiedBy => some ("VERIFIED_BY", "RiskPath", "Control")
  | _ => none

/-- `self._nodes.get(label, [])`. -/
def SerializedGraph.nodesOf (folded : SerializedGraph) (label : String) : List (List (String × PyValue)) :=
  (folded.nodes.filter fun node => node.label = label).map SerializedNode.properties

/-- `self._edges.get((type, source_label, target_label), [])`. -/
def SerializedGraph.edgesOf (folded : SerializedGraph) (type sourceLabel targetLabel : String) : List SerializedEdge :=
  folded.edges.filter fun edge =>
    edge.relationshipType = type ∧ edge.sourceLabel = sourceLabel ∧ edge.targetLabel = targetLabel

/-- `node.get("id") == instrument_id`. -/
def hasId (instrumentId : String) (properties : List (String × PyValue)) : Bool :=
  match properties.lookup "id" with
  | some (.str id) => id = instrumentId
  | _ => false

/-- `SerializedGraphReader.query`, over the folded leg. -/
def SerializedGraph.query (folded : SerializedGraph) : BaselineHandle := fun q instrumentId =>
  match nodeColumns q with
  | some (label, columns) => (folded.nodesOf label).map fun node => columns.map (columnOf node)
  | none =>
    match wholeNodes q with
    | some label =>
      let nodes := folded.nodesOf label
      let nodes := if q = .regulatoryInstrument then nodes.filter (hasId instrumentId) else nodes
      nodes.map fun node => [.dict node]
    | none =>
      match provenanceEdges q with
      | some (type, targetLabel) =>
        ((folded.edgesOf type "RegulatoryInstrument" targetLabel).filter fun edge => edge.sourceId = instrumentId).map
          fun edge => [.str edge.targetId, columnOf edge.properties "source_ref"]
      | none =>
        match bareEdges q with
        | some (type, sourceLabel, targetLabel) =>
          (folded.edgesOf type sourceLabel targetLabel).map fun edge => [.str edge.sourceId, .str edge.targetId]
        | none => []

/-- `SerializedGraphReader(graph)`. -/
def serializedGraphReader (graph : SerializedGraph) : Except ContentRejection BaselineHandle := do
  let folded ← foldSerializedGraph graph
  return folded.query

/-! ## What is read -/

/-- A JSON object as it is parsed: a key once, and arrays are lists. -/
structure ParsedObject (properties : List (String × PyValue)) : Prop where
  nodup : (properties.map Prod.fst).Nodup
  lists : ∀ item ∈ properties, ∀ items, item.2 ≠ .tuple items

/-- An artifact's leg as it is parsed. -/
structure SerializedGraph.Parsed (graph : SerializedGraph) : Prop where
  nodes : ∀ node ∈ graph.nodes, ParsedObject node.properties
  edges : ∀ edge ∈ graph.edges, ParsedObject edge.properties

section Embeddings

variable (embeddings : EmbeddingReader)

/-- What a node's embedding is stored as. -/
def SerializedNode.storedEmbedding (node : SerializedNode) : Option Embedding := node.rawEmbedding.bind embeddings.read

/-- **The embeddings that are read are the floats they are stored as**: those of Roles and Capabilities, and the
instrument's own property. -/
structure EmbeddingsKept (graph : SerializedGraph) (instrumentId : String) : Prop where
  nodes : ∀ node ∈ collect SerializedNode.ref graph.nodes, node.label = "Role" ∨ node.label = "Capability" →
    Option.Rel (List.Forall₂ ItemEqual) (readEmbedding (columnOf node.properties "embedding"))
      ((node.storedEmbedding embeddings).map fun e => e.map .float)
  instrument : ∀ node ∈ collect SerializedNode.ref graph.nodes, node.ref = some ⟨"RegulatoryInstrument", instrumentId⟩ →
    Option.Rel ValueEqual (node.get? "embedding") ((node.storedEmbedding embeddings).map embeddingPy)

end Embeddings

section Stored

variable {properties : List (String × PyValue)} {reserved : List String}

/-- A value that is accepted and is no tuple is read back as it was. -/
theorem toPy_of_accepted {value : PyValue} (hvalid : isValidPropertyValue value = true)
    (hlist : ∀ items, value ≠ .tuple items) : value.toPropertyValue.map PropertyValue.toPy = some value := by
  have hscalar : isValidScalar value = true → (value.toScalar.map PropertyValue.scalar).map PropertyValue.toPy =
      some value := by
    intro h
    obtain ⟨s, hs, -⟩ := graphStorable_of_valid h
    rw [hs, Option.map_some, Option.map_some]
    exact congrArg some (toPy_of_toScalar hs)
  cases value with
  | list items =>
    have hitems : ∀ item ∈ items, isValidScalar item = true := by
      cases items with
      | nil => cases hvalid
      | cons first rest => exact List.all_eq_true.1 (Bool.and_eq_true_iff.1 hvalid).2
    obtain ⟨scalars, hs, -⟩ := mapM_toScalar_storable hitems
    have hstored : (PyValue.list items).toPropertyValue = (items.mapM PyValue.toScalar).map .list := rfl
    rw [hstored, hs, Option.map_some, Option.map_some]
    exact congrArg (some ∘ PyValue.list) (map_toPy_of_mapM hs)
  | tuple items => exact absurd rfl (hlist items)
  | none => exact hscalar hvalid
  | bool b => exact hscalar hvalid
  | int i => exact hscalar hvalid
  | float d => exact hscalar hvalid
  | str s => exact hscalar hvalid
  | dict items => exact hscalar hvalid
  | other => exact hscalar hvalid

/-- The items of a dict that can be stored. -/
def storableItems (properties : List (String × PyValue)) : List (String × PropertyValue) :=
  properties.filterMap fun item => item.2.toPropertyValue.map fun v => (item.1, v)

theorem storableItems_cons {item : String × PyValue} {v : PropertyValue} (hv : item.2.toPropertyValue = some v) :
    storableItems (item :: properties) = (item.1, v) :: storableItems properties := by
  unfold storableItems
  rw [List.filterMap_cons, hv]
  rfl

/-- **Accepted properties are read back as they were.** -/
theorem storedProperties_get? (hnodup : (properties.map Prod.fst).Nodup)
    (hvalid : ∀ item ∈ properties, isValidPropertyValue item.2 = true)
    (hlists : ∀ item ∈ properties, ∀ items, item.2 ≠ .tuple items) (key : String) :
    (storedProperties properties)[key]?.map PropertyValue.toPy = properties.lookup key := by
  have hread : ∀ item ∈ properties, ∃ v, item.2.toPropertyValue = some v ∧ v.toPy = item.2 := by
    intro item hitem
    exact Option.map_eq_some_iff.1 (toPy_of_accepted (hvalid item hitem) (hlists item hitem))
  have hkeys : (storableItems properties).map Prod.fst = properties.map Prod.fst := by
    clear hnodup hvalid hlists
    induction properties with
    | nil => rfl
    | cons item properties ih =>
      obtain ⟨v, hv, -⟩ := hread item List.mem_cons_self
      rw [storableItems_cons hv, List.map_cons, List.map_cons,
        ih fun other hother => hread other (List.mem_cons_of_mem _ hother)]
  have hget : (storedProperties properties)[key]? =
      ((storableItems properties).find? fun item => item.1 = key).map Prod.snd :=
    getElem?_ofList (hkeys ▸ hnodup) key
  rw [hget]
  clear hnodup hvalid hlists hkeys hget
  induction properties with
  | nil => rfl
  | cons item properties ih =>
    obtain ⟨v, hv, hpy⟩ := hread item List.mem_cons_self
    have ih := ih fun other hother => hread other (List.mem_cons_of_mem _ hother)
    obtain ⟨k, value⟩ := item
    rw [storableItems_cons hv, List.lookup_cons]
    by_cases hk : k = key
    · subst hk
      simp [hpy]
    · have hbeq : (key == k) = false := beq_false_of_ne (Ne.symm hk)
      rw [hbeq, List.find?_cons, decide_eq_false hk]
      exact ih

end Stored

/-! ## The graph of a leg -/

section Leg

variable {embeddings : EmbeddingReader} {graph : SerializedGraph} {leg : List Primitive}

theorem mem_collect_of_ref {n : NodeRef} (h : some n ∈ graph.nodes.map SerializedNode.ref) :
    ∃ node ∈ collect SerializedNode.ref graph.nodes, node.ref = some n := by
  obtain ⟨node, hnode, href⟩ := List.mem_map.1 h
  have hlast : (last SerializedNode.ref (some n) graph.nodes).isSome = true := by
    unfold last under
    rw [List.find?_isSome]
    exact ⟨node, List.mem_reverse.2 hnode, by simpa using href⟩
  obtain ⟨found, hfound⟩ := Option.isSome_iff_exists.1 hlast
  have href := (mem_of_last hfound).2
  exact ⟨found, mem_collect.2 (by rw [href]; exact hfound), href⟩

/-- No edge of a leg misses an end. -/
theorem leg_valid (h : legPrimitives embeddings graph = .ok leg) (g : Graph) : ¬ MissingInTurn g leg := by
  obtain ⟨-, rfl⟩ := legPrimitives_ok h
  have hset : ∀ n, some n ∈ graph.nodes.map SerializedNode.ref →
      ∃ props embedding, Primitive.upsertNode n props embedding ∈
        (collect SerializedNode.ref graph.nodes).map (SerializedNode.primitive embeddings) := by
    intro n hn
    obtain ⟨node, hnode, href⟩ := mem_collect_of_ref hn
    have hprimitive : node.primitive embeddings =
        .upsertNode n (node.stored embeddings).properties (node.stored embeddings).embedding := by
      unfold SerializedNode.primitive
      rw [href]
      rfl
    exact ⟨_, _, List.mem_map.2 ⟨node, hnode, hprimitive⟩⟩
  refine nodesFirst_valid (fun p hp => ?_) (fun p hp => ?_) g
  · obtain ⟨node, -, rfl⟩ := List.mem_map.1 hp
    exact ⟨_, _, _, rfl⟩
  · obtain ⟨edge, hedge, rfl⟩ := List.mem_map.1 hp
    have hanchored := (mem_of_last (mem_collect.1 hedge)).1
    have hends := of_decide_eq_true (List.mem_filter.1 hanchored).2
    exact ⟨_, _, rfl, hset _ hends.1, hset _ hends.2⟩

/-- **A leg's primitives give an empty graph the leg.** -/
theorem leg_held (h : legPrimitives embeddings graph = .ok leg) : HoldsArtifact embeddings (applyAll ∅ leg) graph := by
  have hleg := legPrimitives_upsertOnly h
  refine (holdsExactly_iff_artifact h _).1 ⟨ExtTreeMap.ext_getElem? fun n => ?_, fun k => ?_⟩
  · have hnone : (∅ : Graph).nodes[n]? = none := ExtTreeMap.getElem?_empty
    rw [applyAll_leg_nodes hleg, hnone]
  · rw [applyAll_leg_edges hleg (leg_valid h _), if_pos (empty_edgesAt k)]

/-- A folded node as a graph holds it. -/
def SerializedNode.held (embeddings : EmbeddingReader) (node : SerializedNode) : NodeRef × NodeContent :=
  (node.ref.getD ⟨"", ""⟩, node.stored embeddings)

/-- A folded edge as a graph holds it. -/
def SerializedEdge.held (edge : SerializedEdge) : EdgeKey × PropertyMap := (edge.base.edgeKey, edge.stored)

/-- **The nodes of the graph are the folded nodes.** -/
theorem held_nodes {g : Graph} (hrefs : ∀ node ∈ graph.nodes, node.ref.isSome = true)
    (hholds : HoldsArtifact embeddings g graph) :
    g.nodes.toList.Perm ((collect SerializedNode.ref graph.nodes).map (SerializedNode.held embeddings)) := by
  have hsome : ∀ node ∈ collect SerializedNode.ref graph.nodes, node.ref = some (node.ref.getD ⟨"", ""⟩) := by
    intro node hnode
    obtain ⟨n, hn⟩ := Option.isSome_iff_exists.1 (hrefs node (mem_of_last (mem_collect.1 hnode)).1)
    rw [hn]
    rfl
  have hkeys : g.nodes.toList.Nodup := by
    refine g.nodes.distinct_keys_toList.imp fun hne heq => hne ?_
    rw [heq]
    exact Std.ReflCmp.compare_self
  have hfolded : ((collect SerializedNode.ref graph.nodes).map (SerializedNode.held embeddings)).Nodup := by
    refine List.Nodup.map_on (fun a ha b hb heq => ?_) (List.Nodup.of_map _ nodup_collect)
    have href : a.ref = b.ref := by
      rw [hsome a ha, hsome b hb]
      exact congrArg (fun n : NodeRef × NodeContent => some n.1) heq
    exact List.inj_on_of_nodup_map nodup_collect ha hb href
  refine (List.perm_ext_iff_of_nodup hkeys hfolded).2 fun entry => ?_
  obtain ⟨n, content⟩ := entry
  rw [ExtTreeMap.mem_toList_iff_getElem?_eq_some, hholds.nodes, Option.map_eq_some_iff, List.mem_map]
  constructor
  · rintro ⟨node, hlast, rfl⟩
    have href := (mem_of_last hlast).2
    refine ⟨node, mem_collect.2 (by rw [href]; exact hlast), ?_⟩
    unfold SerializedNode.held
    rw [href]
    rfl
  · rintro ⟨node, hnode, heq⟩
    have hlast := mem_collect.1 hnode
    rw [hsome node hnode] at hlast
    obtain ⟨rfl, rfl⟩ := Prod.mk.inj heq
    exact ⟨node, hlast, rfl⟩

/-- Under a key stands the one edge of a list that has it. -/
theorem fiber_held {edges : List SerializedEdge} (hnodup : (edges.map SerializedEdge.base).Nodup) (e : EdgeBase) :
    fiber (edges.map SerializedEdge.held : Multiset (EdgeKey × PropertyMap)) e.edgeKey =
      slotOf ((under SerializedEdge.base e edges).map SerializedEdge.stored) := by
  induction edges with
  | nil => rfl
  | cons edge edges ih =>
    rw [List.map_cons, List.nodup_cons] at hnodup
    have ih := ih hnodup.2
    rw [List.map_cons, ← Multiset.cons_coe, fiber_cons]
    unfold under at ih ⊢
    by_cases hbase : edge.base = e
    · have hkey : edge.held.1 = e.edgeKey := congrArg EdgeBase.edgeKey hbase
      have hrest : edges.find? (fun other => SerializedEdge.base other = e) = none := by
        refine List.find?_eq_none.2 fun other hother => ?_
        simp only [decide_eq_true_eq]
        intro heq
        refine hnodup.1 (List.mem_map.2 ⟨other, hother, ?_⟩)
        rw [heq, hbase]
      rw [if_pos hkey, ih, hrest, List.find?_cons_of_pos (by simpa using hbase)]
      rfl
    · have hkey : edge.held.1 ≠ e.edgeKey := fun heq => hbase (EdgeBase.edgeKey_injective heq)
      rw [if_neg hkey, ih, List.find?_cons_of_neg (by simpa using hbase)]

/-- **The edges of the graph are the folded edges.** -/
theorem held_edges {g : Graph} (hholds : HoldsArtifact embeddings g graph) :
    g.edges = ((collect SerializedEdge.base graph.anchoredEdges).map SerializedEdge.held :
      Multiset (EdgeKey × PropertyMap)) := by
  refine ext_fiber fun k => ?_
  cases hk : k.identity with
  | none =>
    have hzero : fiber g.edges k = 0 := hholds.identified k hk
    rw [hzero, eq_comm, fiber_eq_zero]
    intro e he heq
    obtain ⟨edge, -, rfl⟩ := List.mem_map.1 (Multiset.mem_coe.1 he)
    rw [← heq] at hk
    cases hk
  | some identity =>
    have hkey : k = EdgeBase.edgeKey ⟨k.type, identity, k.source, k.target⟩ := by
      cases k
      cases hk
      rfl
    rw [hkey, fiber_held nodup_collect, under_collect]
    exact hholds.edges _

end Leg

/-! ## What a graph answers of a folded node -/

section Lookup

variable {xs : List (String × PyValue)} {key : String}

theorem lookup_find : xs.lookup key = (xs.find? fun item => item.1 = key).map Prod.snd := by
  induction xs with
  | nil => rfl
  | cons item xs ih =>
    rw [List.lookup_cons, List.find?_cons]
    by_cases hk : item.1 = key
    · rw [hk, beq_self_eq_true, decide_eq_true rfl]
      rfl
    · have hbeq : (key == item.1) = false := beq_false_of_ne (Ne.symm hk)
      rw [hbeq, decide_eq_false hk]
      exact ih

/-- A dict with some of its items left out. -/
theorem lookup_filter (hnodup : (xs.map Prod.fst).Nodup) (keep : String × PyValue → Bool) :
    (xs.filter keep).lookup key = (xs.lookup key).filter fun value => keep (key, value) := by
  induction xs with
  | nil => rfl
  | cons item xs ih =>
    rw [List.map_cons, List.nodup_cons] at hnodup
    have ih := ih hnodup.2
    obtain ⟨k, value⟩ := item
    by_cases hk : key = k
    · subst hk
      have hnone : xs.lookup key = none := by
        rw [lookup_find, Option.map_eq_none_iff, List.find?_eq_none]
        intro item hitem
        simp only [decide_eq_true_eq]
        intro heq
        exact hnodup.1 (List.mem_map.2 ⟨item, hitem, heq⟩)
      rw [List.lookup_cons_self, Option.filter_some, List.filter_cons]
      split
      · exact List.lookup_cons_self
      · rw [ih, hnone]
        rfl
    · have hbeq : (key == k) = false := beq_false_of_ne hk
      have hrest : List.lookup key ((k, value) :: xs) = xs.lookup key := by rw [List.lookup_cons, hbeq]
      rw [hrest, ← ih, List.filter_cons]
      split
      · rw [List.lookup_cons, hbeq]
      · rfl

/-- The properties of a map as a dict. -/
theorem lookup_properties (p : PropertyMap) :
    (p.toList.map fun item => (item.1, item.2.toPy)).lookup key = p[key]?.map PropertyValue.toPy := by
  have hnodup : (p.toList.map Prod.fst).Nodup := by
    refine List.pairwise_map.2 (p.distinct_keys_toList.imp fun hne heq => hne ?_)
    rw [heq]
    exact Std.ReflCmp.compare_self
  have hget := getElem?_ofList hnodup key
  rw [ofList_toList] at hget
  rw [lookup_find, List.find?_map, Option.map_map, hget, Option.map_map]
  rfl

theorem properties_nodup (p : PropertyMap) : ((p.toList.map fun item => (item.1, item.2.toPy)).map Prod.fst).Nodup := by
  rw [List.map_map]
  refine List.pairwise_map.2 (p.distinct_keys_toList.imp fun hne heq => hne ?_)
  exact compare_eq_iff_eq.2 heq

end Lookup

section FoldedNode

variable {embeddings : EmbeddingReader} {graph : SerializedGraph} {leg : List Primitive} {node : SerializedNode}
  {n : NodeRef} {key : String}

/-- What is known of a folded node: its reference, and that its properties were parsed and accepted. -/
structure FoldedNode (node : SerializedNode) (n : NodeRef) : Prop where
  ref : node.ref = some n
  parsed : ParsedObject node.properties
  accepted : ∀ item ∈ node.plain, isValidPropertyValue item.2 = true

theorem folded_node (hparsed : graph.Parsed) (h : legPrimitives embeddings graph = .ok leg)
    (hnode : node ∈ collect SerializedNode.ref graph.nodes) : FoldedNode node (node.ref.getD ⟨"", ""⟩) := by
  have hmem := (mem_of_last (mem_collect.1 hnode)).1
  obtain ⟨n, hn⟩ := Option.isSome_iff_exists.1 ((legPrimitives_ok h).1 node hmem)
  refine ⟨?_, hparsed.nodes node hmem, (legPrimitives_accepted h).1 node hnode⟩
  rw [hn]
  rfl

theorem FoldedNode.label (hfolded : FoldedNode node n) : node.label = n.label := by
  have href := hfolded.ref
  unfold SerializedNode.ref at href
  split at href
  · cases href
    rfl
  · cases href

theorem FoldedNode.id (hfolded : FoldedNode node n) : node.properties.lookup "id" = some (.str n.id) := by
  have href := hfolded.ref
  unfold SerializedNode.ref SerializedNode.get? at href
  split at href
  · rename_i id hid
    cases href
    exact hid
  · cases href

/-- The properties a folded node stores. -/
theorem FoldedNode.stored (hfolded : FoldedNode node n) :
    (node.stored embeddings).properties[key]?.map PropertyValue.toPy =
      if key ∈ reservedNodePropertyKeys then none else node.properties.lookup key := by
  have hnodup : (node.plain.map Prod.fst).Nodup := hfolded.parsed.nodup.sublist (List.filter_sublist.map _)
  have hlists : ∀ item ∈ node.plain, ∀ items, item.2 ≠ .tuple items := by
    intro item hitem
    exact hfolded.parsed.lists item (List.mem_filter.1 hitem).1
  have hget : (node.stored embeddings).properties[key]?.map PropertyValue.toPy = node.plain.lookup key :=
    storedProperties_get? hnodup hfolded.accepted hlists key
  rw [hget]
  unfold SerializedNode.plain
  rw [lookup_filter hfolded.parsed.nodup]
  by_cases hkey : key ∈ reservedNodePropertyKeys
  · rw [if_pos hkey]
    cases node.properties.lookup key with
    | none => rfl
    | some value => simp [hkey]
  · rw [if_neg hkey]
    cases node.properties.lookup key with
    | none => rfl
    | some value => simp [hkey]

/-- **What a graph answers of a folded node**: its own properties, and the embedding it stores. -/
theorem FoldedNode.items (hfolded : FoldedNode node n) :
    (storedItems n (node.stored embeddings)).lookup key =
      if key = "embedding" then (node.storedEmbedding embeddings).map embeddingPy else node.properties.lookup key := by
  have hstored : (node.stored embeddings).embedding = node.storedEmbedding embeddings := rfl
  unfold storedItems
  rw [List.lookup_append, List.lookup_append, lookup_properties, hfolded.stored, hstored]
  by_cases hid : key = "id"
  · subst hid
    have hother : ¬ "id" = "embedding" := by decide
    rw [if_neg hother, hfolded.id, List.lookup_cons_self]
    rfl
  · have hskip : List.lookup key [("id", PyValue.str n.id)] = none := by
      rw [List.lookup_cons, beq_false_of_ne hid]
      rfl
    rw [hskip, Option.none_or]
    by_cases hemb : key = "embedding"
    · subst hemb
      rw [if_pos rfl, if_pos (by decide), Option.or_none]
      cases node.storedEmbedding embeddings with
      | none => rfl
      | some e => rfl
    · have hplain : key ∉ reservedNodePropertyKeys := by simp [reservedNodePropertyKeys, hid, hemb]
      have hnone :
          ((node.storedEmbedding embeddings).map fun e => ("embedding", embeddingPy e)).toList.lookup key = none := by
        cases node.storedEmbedding embeddings with
        | none => rfl
        | some e =>
          have hbeq : (key == "embedding") = false := beq_false_of_ne hemb
          change List.lookup key [("embedding", embeddingPy e)] = none
          rw [List.lookup_cons, hbeq]
          rfl
      rw [if_neg hemb, if_neg hplain, hnone, Option.none_or]

/-- A column other than the embedding is the node's own property. -/
theorem FoldedNode.column (hfolded : FoldedNode node n) (hkey : key ≠ "embedding") :
    columnOf (storedItems n (node.stored embeddings)) key = columnOf node.properties key := by
  unfold columnOf
  rw [hfolded.items, if_neg hkey]

theorem FoldedNode.columns (hfolded : FoldedNode node n) {names : List String} (hnames : "embedding" ∉ names) :
    names.map (columnOf (storedItems n (node.stored embeddings))) = names.map (columnOf node.properties) := by
  refine List.map_congr_left fun name hname => hfolded.column ?_
  rintro rfl
  exact hnames hname

/-- The embedding a graph answers is the one that is stored. -/
theorem FoldedNode.embedding (hfolded : FoldedNode node n) :
    readEmbedding (columnOf (storedItems n (node.stored embeddings)) "embedding") =
      (node.storedEmbedding embeddings).map fun e => e.map .float := by
  unfold columnOf
  rw [hfolded.items, if_pos rfl]
  cases node.storedEmbedding embeddings with
  | none => rfl
  | some e => rfl

end FoldedNode

/-! ## The same nodes -/

section Same

theorem itemEqual_refl (v : PyValue) : ItemEqual v v := .inl rfl

theorem valueEqual_refl (v : PyValue) : ValueEqual v v := .inl (itemEqual_refl v)

theorem dictEqual_refl (items : List (String × PyValue)) : DictEqual items items := by
  intro key
  cases items.lookup key with
  | none => exact .none
  | some v => exact .some (valueEqual_refl v)

theorem embeddingEqual_refl (e : Option (List PyValue)) : Option.Rel (List.Forall₂ ItemEqual) e e := by
  cases e with
  | none => exact .none
  | some items => exact .some (List.forall₂_same.2 fun v _ => itemEqual_refl v)

theorem nodeEqual_refl (node : CompanyMerge.BaselineNode) : node.Equal node :=
  ⟨rfl, dictEqual_refl _, embeddingEqual_refl _⟩

variable {α : Type} {items : List α} {f g : α → CompanyMerge.BaselineNode} {rows : List CompanyMerge.BaselineNode}

theorem sameNodes_of (hperm : rows.Perm (items.map g)) (hequal : ∀ a ∈ items, (f a).Equal (g a)) :
    SameNodes (items.map f) rows :=
  ⟨items.map g, hperm, List.forall₂_map_left_iff.2 (List.forall₂_map_right_iff.2 (List.forall₂_same.2 hequal))⟩

/-- **Nodes with ids of their own** are the same up to their order exactly when each is the same as its counterpart. -/
theorem sameNodes_iff (hperm : rows.Perm (items.map g)) (hid : ∀ a ∈ items, (f a).id = (g a).id)
    (hnodup : (items.map fun a => (g a).id).Nodup) :
    SameNodes (items.map f) rows ↔ ∀ a ∈ items, (f a).Equal (g a) := by
  refine ⟨?_, sameNodes_of hperm⟩
  rintro ⟨others, hothers, hforall⟩ a ha
  obtain ⟨c, hc, hequal⟩ : ∃ c ∈ others, (f a).Equal c := by
    have hleft := List.forall₂_map_left_iff.1 hforall
    obtain ⟨i, hi, rfl⟩ := List.getElem_of_mem ha
    have hlen := hleft.length_eq
    exact ⟨others[i], List.getElem_mem _, hleft.get hi (by omega)⟩
  obtain ⟨b, hb, rfl⟩ := List.mem_map.1 ((hothers.symm.trans hperm).subset hc)
  have hsame : (g b).id = (g a).id := by rw [← hequal.id, hid a ha]
  rw [List.inj_on_of_nodup_map hnodup hb ha hsame] at hequal
  exact hequal

end Same

/-! ## The rows of the two readers -/

section Rows

variable {embeddings : EmbeddingReader} {graph : SerializedGraph} {leg : List Primitive} (scan : GraphScan)
  (label : String)

/-- The folded leg. -/
def SerializedGraph.folded (graph : SerializedGraph) : SerializedGraph :=
  ⟨collect SerializedNode.ref graph.nodes, collect SerializedEdge.base graph.anchoredEdges⟩

/-- The folded nodes of a label. -/
def SerializedGraph.labelled (graph : SerializedGraph) (label : String) : List SerializedNode :=
  (collect SerializedNode.ref graph.nodes).filter fun node => node.label = label

theorem scanned_nodes (h : legPrimitives embeddings graph = .ok leg) (keep : NodeRef × NodeContent → Bool) :
    ((scan.nodes (applyAll ∅ leg).nodes.toList).filter keep).Perm
      (((collect SerializedNode.ref graph.nodes).filter fun node => keep (node.held embeddings)).map
        (SerializedNode.held embeddings)) := by
  have hperm := ((scan.nodes_perm _).trans (held_nodes (legPrimitives_ok h).1 (leg_held h))).filter keep
  rw [List.filter_map] at hperm
  exact hperm

theorem scanned_edges (h : legPrimitives embeddings graph = .ok leg) (keep : EdgeKey × PropertyMap → Prop)
    [DecidablePred keep] : (scan.edges.order ((applyAll ∅ leg).edges.filter keep)).Perm
      (((collect SerializedEdge.base graph.anchoredEdges).filter fun edge => keep edge.held).map SerializedEdge.held) := by
  refine Multiset.coe_eq_coe.1 ?_
  rw [scan.edges.perm, held_edges (leg_held h), Multiset.filter_coe, List.filter_map]
  rfl

theorem nodesOf_rows (row : List (String × PyValue) → List PyValue) :
    (graph.folded.nodesOf label).map row = (graph.labelled label).map fun node => row node.properties := List.map_map

/-- **The bare edges of the two readers.** -/
theorem bare_rows (h : legPrimitives embeddings graph = .ok leg) (type sourceLabel targetLabel instrumentId : String) :
    ((QueryForm.bare type sourceLabel targetLabel).rows scan (applyAll ∅ leg) instrumentId).Perm
      ((graph.folded.edgesOf type sourceLabel targetLabel).map fun edge => [.str edge.sourceId, .str edge.targetId]) := by
  have hrows := (scanned_edges scan h fun e =>
    e.1.type = type ∧ e.1.source.label = sourceLabel ∧ e.1.target.label = targetLabel).map fun e =>
      [PyValue.str e.1.source.id, PyValue.str e.1.target.id]
  refine hrows.trans (List.Perm.of_eq ?_)
  rw [List.map_map]
  rfl

/-- The folded nodes of an instrument. -/
def SerializedGraph.instrument (graph : SerializedGraph) (instrumentId : String) : List SerializedNode :=
  (collect SerializedNode.ref graph.nodes).filter fun node => node.ref = some ⟨"RegulatoryInstrument", instrumentId⟩

/-- An instrument is one node or none. -/
theorem instrument_cases (graph : SerializedGraph) (instrumentId : String) :
    graph.instrument instrumentId = [] ∨ ∃ node, graph.instrument instrumentId = [node] := by
  have hone : ((graph.instrument instrumentId).map SerializedNode.ref).Nodup :=
    nodup_collect.sublist (List.filter_sublist.map _)
  have hrefs : ∀ node ∈ graph.instrument instrumentId, node.ref = some ⟨"RegulatoryInstrument", instrumentId⟩ := by
    intro node hnode
    exact of_decide_eq_true (List.mem_filter.1 hnode).2
  generalize graph.instrument instrumentId = found at hone hrefs ⊢
  cases found with
  | nil => exact .inl rfl
  | cons node rest =>
    cases rest with
    | nil => exact .inr ⟨node, rfl⟩
    | cons other rest =>
      have hsame : other.ref = node.ref := by
        rw [hrefs node List.mem_cons_self, hrefs other (List.mem_cons_of_mem _ List.mem_cons_self)]
      rw [List.map_cons, List.map_cons, List.nodup_cons, hsame] at hone
      exact absurd List.mem_cons_self hone.1

variable (hparsed : graph.Parsed) (h : legPrimitives embeddings graph = .ok leg)

include hparsed h

/-- The rows of a label, in some order. -/
theorem labelled_rows (row : List (String × PyValue) → List PyValue) :
    (((scan.nodes (applyAll ∅ leg).nodes.toList).filter fun n => n.1.label = label).map
      fun n => row (storedItems n.1 n.2)).Perm
        ((graph.labelled label).map fun node => row (storedItems (node.ref.getD ⟨"", ""⟩) (node.stored embeddings))) := by
  have hrows := (scanned_nodes scan h fun n => n.1.label = label).map fun n => row (storedItems n.1 n.2)
  have hlabel : (collect SerializedNode.ref graph.nodes).filter
      (fun node => (node.held embeddings).1.label = label) = graph.labelled label := by
    refine List.filter_congr fun node hnode => ?_
    have hsame : (node.held embeddings).1.label = node.label := (folded_node hparsed h hnode).label.symm
    rw [hsame]
  rw [hlabel, List.map_map] at hrows
  exact hrows

/-- A node of a label is known by its id. -/
theorem labelled_nodup :
    ((graph.labelled label).map fun node => PyValue.str (node.ref.getD ⟨"", ""⟩).id).Nodup := by
  have hnodup : (graph.labelled label).Nodup := (List.Nodup.of_map _ nodup_collect).filter _
  refine hnodup.map_on fun a ha b hb heq => ?_
  obtain ⟨ha, hlabela⟩ := List.mem_filter.1 ha
  obtain ⟨hb, hlabelb⟩ := List.mem_filter.1 hb
  have hfa := folded_node hparsed h ha
  have hfb := folded_node hparsed h hb
  refine List.inj_on_of_nodup_map nodup_collect ha hb ?_
  rw [hfa.ref, hfb.ref]
  have hid : (a.ref.getD ⟨"", ""⟩).id = (b.ref.getD ⟨"", ""⟩).id := PyValue.str.inj heq
  have hlabels : (a.ref.getD ⟨"", ""⟩).label = (b.ref.getD ⟨"", ""⟩).label := by
    rw [← hfa.label, ← hfb.label, of_decide_eq_true hlabela, of_decide_eq_true hlabelb]
  generalize a.ref.getD ⟨"", ""⟩ = m at hid hlabels ⊢
  generalize b.ref.getD ⟨"", ""⟩ = n at hid hlabels ⊢
  cases m
  cases n
  cases hid
  cases hlabels
  rfl

/-- **Nodes read from the rows of a label** are the same in both readers exactly where each node is read alike. -/
theorem labelled_same_iff (row : List (String × PyValue) → List PyValue)
    (read : List PyValue → CompanyMerge.BaselineNode)
    (hid : ∀ properties, (read (row properties)).id = columnOf properties "id") :
    SameNodes (((graph.folded.nodesOf label).map row).map read)
        ((((scan.nodes (applyAll ∅ leg).nodes.toList).filter fun n => n.1.label = label).map
          fun n => row (storedItems n.1 n.2)).map read) ↔
      ∀ node ∈ graph.labelled label, (read (row node.properties)).Equal
        (read (row (storedItems (node.ref.getD ⟨"", ""⟩) (node.stored embeddings)))) := by
  have hrows := (labelled_rows scan label hparsed h row).map read
  have hstored : ∀ node ∈ graph.labelled label,
      columnOf (storedItems (node.ref.getD ⟨"", ""⟩) (node.stored embeddings)) "id" =
        .str (node.ref.getD ⟨"", ""⟩).id := by
    intro node hnode
    have hfolded := folded_node hparsed h (List.mem_filter.1 hnode).1
    rw [hfolded.column (by decide)]
    unfold columnOf
    rw [hfolded.id]
    rfl
  rw [nodesOf_rows, List.map_map]
  -- the ids tell the nodes of a label apart, so two listings can only match node by node
  refine sameNodes_iff (hrows.trans (List.Perm.of_eq List.map_map)) (fun node hnode => ?_) ?_
  · have hfolded := folded_node hparsed h (List.mem_filter.1 hnode).1
    exact (hid _).trans ((hfolded.column (by decide)).symm.trans (hid _).symm)
  · have hids := labelled_nodup label hparsed h
    refine (List.map_congr_left fun node hnode => ?_) ▸ hids
    exact ((hid _).trans (hstored node hnode)).symm

/-- A folded edge stores its properties. -/
theorem folded_edge {edge : SerializedEdge} (hedge : edge ∈ collect SerializedEdge.base graph.anchoredEdges)
    {key : String} (hkey : key ≠ "identity") :
    edge.stored[key]?.map PropertyValue.toPy = edge.properties.lookup key := by
  have hparsed := hparsed.edges edge (List.mem_filter.1 (mem_of_last (mem_collect.1 hedge)).1).1
  have haccepted := (legPrimitives_accepted h).2 edge hedge
  have hnodup : ((edge.properties.filter fun item => item.1 ≠ "identity").map Prod.fst).Nodup :=
    hparsed.nodup.sublist (List.filter_sublist.map _)
  have hvalid : ∀ item ∈ edge.properties.filter fun item => item.1 ≠ "identity",
      isValidPropertyValue item.2 = true := by
    intro item hitem
    obtain ⟨hmem, hne⟩ := List.mem_filter.1 hitem
    exact haccepted item hmem (of_decide_eq_true hne)
  have hlists : ∀ item ∈ edge.properties.filter fun item => item.1 ≠ "identity", ∀ items, item.2 ≠ .tuple items := by
    intro item hitem
    exact hparsed.lists item (List.mem_filter.1 hitem).1
  unfold SerializedEdge.stored
  rw [storedProperties_get? hnodup hvalid hlists, lookup_filter hparsed.nodup]
  cases edge.properties.lookup key with
  | none => rfl
  | some value => simp [hkey]

/-- **The provenance edges of the two readers.** -/
theorem provenance_rows (type sourceLabel targetLabel instrumentId : String) :
    ((QueryForm.provenance type sourceLabel targetLabel).rows scan (applyAll ∅ leg) instrumentId).Perm
      (((graph.folded.edgesOf type sourceLabel targetLabel).filter fun edge => edge.sourceId = instrumentId).map
        fun edge => [.str edge.targetId, columnOf edge.properties "source_ref"]) := by
  have hrows := (scanned_edges scan h fun e =>
    e.1.type = type ∧ e.1.source = ⟨sourceLabel, instrumentId⟩ ∧ e.1.target.label = targetLabel).map fun e =>
      [PyValue.str e.1.target.id, (e.2["source_ref"]?.map PropertyValue.toPy).getD .none]
  refine hrows.trans (List.Perm.of_eq ?_)
  unfold SerializedGraph.edgesOf SerializedGraph.folded
  rw [List.map_map, List.filter_filter]
  have hkeep : ∀ edge : SerializedEdge,
      decide (edge.held.1.type = type ∧ edge.held.1.source = ⟨sourceLabel, instrumentId⟩ ∧
        edge.held.1.target.label = targetLabel) =
      (decide (edge.sourceId = instrumentId) && decide (edge.relationshipType = type ∧ edge.sourceLabel = sourceLabel ∧
        edge.targetLabel = targetLabel)) := by
    intro edge
    rw [← Bool.decide_and]
    refine decide_eq_decide.2 ?_
    change edge.relationshipType = type ∧ (⟨edge.sourceLabel, edge.sourceId⟩ : NodeRef) = ⟨sourceLabel, instrumentId⟩ ∧
      edge.targetLabel = targetLabel ↔ _
    rw [NodeRef.mk.injEq]
    tauto
  rw [List.filter_congr fun edge _ => hkeep edge]
  refine List.map_congr_left fun edge hedge => ?_
  have hget : edge.stored["source_ref"]?.map PropertyValue.toPy = edge.properties.lookup "source_ref" :=
    folded_edge hparsed h (List.mem_filter.1 hedge).1 (by decide)
  change [PyValue.str edge.targetId, (edge.stored["source_ref"]?.map PropertyValue.toPy).getD .none] = _
  rw [hget]
  rfl

theorem instrument_artifact_rows (instrumentId : String) :
    graph.folded.query .regulatoryInstrument instrumentId =
      (graph.instrument instrumentId).map fun node => [.dict node.properties] := by
  change (((graph.labelled "RegulatoryInstrument").map SerializedNode.properties).filter (hasId instrumentId)).map
    (fun node => [PyValue.dict node]) = _
  rw [List.filter_map, List.map_map]
  unfold SerializedGraph.labelled SerializedGraph.instrument
  rw [List.filter_filter]
  refine congrArg _ (List.filter_congr fun node hnode => ?_)
  have hfolded := folded_node hparsed h hnode
  change (hasId instrumentId node.properties && decide (node.label = "RegulatoryInstrument")) = _
  unfold hasId
  rw [hfolded.id, hfolded.label, hfolded.ref, ← Bool.decide_and]
  refine decide_eq_decide.2 ?_
  generalize node.ref.getD ⟨"", ""⟩ = n
  obtain ⟨label, id⟩ := n
  simp only [Option.some.injEq, NodeRef.mk.injEq, Option.getD_some]
  tauto

theorem instrument_graph_rows (instrumentId : String) :
    (graphHandle scan (applyAll ∅ leg) .regulatoryInstrument instrumentId).Perm
      ((graph.instrument instrumentId).map fun node =>
        [.dict (storedItems ⟨"RegulatoryInstrument", instrumentId⟩ (node.stored embeddings))]) := by
  have hrows := (scanned_nodes scan h fun n => n.1 = ⟨"RegulatoryInstrument", instrumentId⟩).map
    fun n => [PyValue.dict (storedItems n.1 n.2)]
  have hsame : (collect SerializedNode.ref graph.nodes).filter
      (fun node => (node.held embeddings).1 = ⟨"RegulatoryInstrument", instrumentId⟩) = graph.instrument instrumentId := by
    refine List.filter_congr fun node hnode => ?_
    have href := (folded_node hparsed h hnode).ref
    refine decide_eq_decide.2 ?_
    rw [href]
    exact (Option.some.injEq _ _).symm ▸ Iff.rfl
  rw [hsame, List.map_map] at hrows
  refine hrows.trans (List.Perm.of_eq (List.map_congr_left fun node hnode => ?_))
  have href := of_decide_eq_true (List.mem_filter.1 hnode).2
  change [PyValue.dict (storedItems (node.ref.getD ⟨"", ""⟩) (node.stored embeddings))] = _
  rw [href]
  rfl

/-- **The instrument of the two readers.** -/
theorem instrument_read (instrumentId : String) :
    DictEqual (readInstrumentProperties graph.folded.query instrumentId)
        (readInstrumentProperties (graphHandle scan (applyAll ∅ leg)) instrumentId) ↔
      ∀ node ∈ collect SerializedNode.ref graph.nodes, node.ref = some ⟨"RegulatoryInstrument", instrumentId⟩ →
        Option.Rel ValueEqual (node.get? "embedding") ((node.storedEmbedding embeddings).map embeddingPy) := by
  have hartifact := instrument_artifact_rows hparsed h instrumentId
  have hgraph := instrument_graph_rows scan hparsed h instrumentId
  have hmem : ∀ node, node ∈ graph.instrument instrumentId ↔ node ∈ collect SerializedNode.ref graph.nodes ∧
      node.ref = some ⟨"RegulatoryInstrument", instrumentId⟩ := by
    intro node
    unfold SerializedGraph.instrument
    rw [List.mem_filter, decide_eq_true_eq]
  unfold readInstrumentProperties
  rw [hartifact]
  -- the reader takes the first row, so it matters that there is at most one
  rcases instrument_cases graph instrumentId with hnone | ⟨node, hone⟩
  · rw [hnone, List.map_nil, List.perm_nil] at hgraph
    rw [hnone, hgraph]
    refine ⟨fun _ node hnode href => ?_, fun _ => dictEqual_refl _⟩
    have hin := (hmem node).2 ⟨hnode, href⟩
    rw [hnone] at hin
    cases hin
  · rw [hone, List.map_singleton, List.perm_singleton] at hgraph
    rw [hone, hgraph]
    have hthere := (hmem node).1 (by rw [hone]; exact List.mem_cons_self)
    have hfolded := folded_node hparsed h hthere.1
    rw [hthere.2] at hfolded
    have hitems : ∀ key, (storedItems ⟨"RegulatoryInstrument", instrumentId⟩ (node.stored embeddings)).lookup key =
        if key = "embedding" then (node.storedEmbedding embeddings).map embeddingPy else node.properties.lookup key :=
      fun key => hfolded.items
    change DictEqual node.properties (storedItems _ (node.stored embeddings)) ↔ _
    constructor
    · intro hequal other hother href
      have hin := (hmem other).2 ⟨hother, href⟩
      rw [hone, List.mem_singleton] at hin
      subst hin
      have hembedding := hequal "embedding"
      rw [hitems, if_pos rfl] at hembedding
      exact hembedding
    · intro hkept key
      rw [hitems]
      by_cases hkey : key = "embedding"
      · rw [if_pos hkey, hkey]
        exact hkept node hthere.1 hthere.2
      · rw [if_neg hkey]
        exact dictEqual_refl _ key

end Rows

/-! ## The two readers -/

section Read

variable {embeddings : EmbeddingReader} {graph : SerializedGraph} {leg : List Primitive} {node : SerializedNode}
  {n : NodeRef}

/-- A node read without its embedding is the same. -/
theorem FoldedNode.read_columns (hfolded : FoldedNode node n) {names : List String} (hnames : "embedding" ∉ names)
    (read : List PyValue → CompanyMerge.BaselineNode) :
    (read (names.map (columnOf node.properties))).Equal
      (read (names.map (columnOf (storedItems n (node.stored embeddings))))) := by
  rw [hfolded.columns hnames]
  exact nodeEqual_refl _

/-- A governance node is read without its id and its embedding. -/
theorem FoldedNode.read_governance (hfolded : FoldedNode node n) :
    (governanceNode [.dict node.properties]).Equal
      (governanceNode [.dict (storedItems n (node.stored embeddings))]) := by
  have hid : (storedItems n (node.stored embeddings)).lookup "id" = node.properties.lookup "id" := by
    rw [hfolded.items, if_neg (by decide)]
  refine ⟨congrArg (Option.getD · PyValue.none) hid.symm, fun key => ?_, .none⟩
  -- the id and the embedding, which the graph keeps apart from the other properties, are both dropped
  let keep : String × PyValue → Bool := fun item => item.1 ∉ ["id", "embedding"] ∧ isPlain item.2 = true
  have hartifact : (governanceNode [.dict node.properties]).properties = node.properties.filter keep := rfl
  have hgraph : (governanceNode [.dict (storedItems n (node.stored embeddings))]).properties =
      ((node.stored embeddings).properties.toList.map fun item => (item.1, item.2.toPy)).filter keep := by
    change ([("id", PyValue.str n.id)] ++ _ ++ _ : List (String × PyValue)).filter keep = _
    rw [List.filter_append, List.filter_append]
    cases (node.stored embeddings).embedding with
    | none => rfl
    | some e => rfl
  rw [hartifact, hgraph, lookup_filter hfolded.parsed.nodup, lookup_filter (properties_nodup _), lookup_properties,
    hfolded.stored]
  by_cases hkey : key ∈ reservedNodePropertyKeys
  · rw [if_pos hkey]
    cases node.properties.lookup key with
    | none => exact .none
    | some value =>
      have hdropped : keep (key, value) = false := decide_eq_false fun hkeep => hkeep.1 hkey
      rw [Option.filter_some, hdropped]
      exact .none
  · rw [if_neg hkey]
    cases (node.properties.lookup key).filter fun value => keep (key, value) with
    | none => exact .none
    | some value => exact .some (valueEqual_refl value)

/-- A Role is read alike where its embedding is. -/
theorem FoldedNode.read_role (hfolded : FoldedNode node n) :
    (roleNode (["id", "name", "confidence", "embedding"].map (columnOf node.properties))).Equal
        (roleNode (["id", "name", "confidence", "embedding"].map (columnOf (storedItems n (node.stored embeddings))))) ↔
      Option.Rel (List.Forall₂ ItemEqual) (readEmbedding (columnOf node.properties "embedding"))
        ((node.storedEmbedding embeddings).map fun e => e.map .float) := by
  have hid : columnOf (storedItems n (node.stored embeddings)) "id" = columnOf node.properties "id" :=
    hfolded.column (by decide)
  have hname : columnOf (storedItems n (node.stored embeddings)) "name" = columnOf node.properties "name" :=
    hfolded.column (by decide)
  have hconfidence : columnOf (storedItems n (node.stored embeddings)) "confidence" =
      columnOf node.properties "confidence" := hfolded.column (by decide)
  simp only [List.map_cons, List.map_nil, hid, hname, hconfidence]
  rw [← hfolded.embedding]
  exact ⟨fun hequal => hequal.embedding, fun hembedding => ⟨rfl, dictEqual_refl _, hembedding⟩⟩

/-- A Capability is read alike where its embedding is. -/
theorem FoldedNode.read_capability (hfolded : FoldedNode node n) :
    (CompanyMerge.capabilityNode (["id", "name", "confidence", "description", "embedding"].map
          (columnOf node.properties))).Equal
        (CompanyMerge.capabilityNode (["id", "name", "confidence", "description", "embedding"].map
          (columnOf (storedItems n (node.stored embeddings))))) ↔
      Option.Rel (List.Forall₂ ItemEqual) (readEmbedding (columnOf node.properties "embedding"))
        ((node.storedEmbedding embeddings).map fun e => e.map .float) := by
  have hid : columnOf (storedItems n (node.stored embeddings)) "id" = columnOf node.properties "id" :=
    hfolded.column (by decide)
  have hname : columnOf (storedItems n (node.stored embeddings)) "name" = columnOf node.properties "name" :=
    hfolded.column (by decide)
  have hconfidence : columnOf (storedItems n (node.stored embeddings)) "confidence" =
      columnOf node.properties "confidence" := hfolded.column (by decide)
  have hdescription : columnOf (storedItems n (node.stored embeddings)) "description" =
      columnOf node.properties "description" := hfolded.column (by decide)
  simp only [List.map_cons, List.map_nil, hid, hname, hconfidence, hdescription]
  rw [← hfolded.embedding]
  exact ⟨fun hequal => hequal.embedding, fun hembedding => ⟨rfl, dictEqual_refl _, hembedding⟩⟩

/-- The nodes of a label whose embedding is read, in both readers. -/
theorem embedded_same_iff (label : String) {names : List String} (read : List PyValue → CompanyMerge.BaselineNode)
    (hparsed : graph.Parsed) (h : legPrimitives embeddings graph = .ok leg) (scan : GraphScan)
    (hid : ∀ properties, (read (names.map (columnOf properties))).id = columnOf properties "id")
    (hread : ∀ node n, FoldedNode node n →
      ((read (names.map (columnOf node.properties))).Equal
          (read (names.map (columnOf (storedItems n (node.stored embeddings))))) ↔
        Option.Rel (List.Forall₂ ItemEqual) (readEmbedding (columnOf node.properties "embedding"))
          ((node.storedEmbedding embeddings).map fun e => e.map .float))) :
    SameNodes (((graph.folded.nodesOf label).map fun node => names.map (columnOf node)).map read)
        (((QueryForm.columns label names).rows scan (applyAll ∅ leg) "").map read) ↔
      ∀ node ∈ collect SerializedNode.ref graph.nodes, node.label = label →
        Option.Rel (List.Forall₂ ItemEqual) (readEmbedding (columnOf node.properties "embedding"))
          ((node.storedEmbedding embeddings).map fun e => e.map .float) := by
  -- only the embedding can be read differently, so being read alike is a condition on it
  refine (labelled_same_iff scan label hparsed h (fun node => names.map (columnOf node)) read hid).trans ?_
  constructor
  · intro hall node hnode hlabel
    have hin : node ∈ graph.labelled label := List.mem_filter.2 ⟨hnode, decide_eq_true hlabel⟩
    exact (hread node _ (folded_node hparsed h hnode)).1 (hall node hin)
  · intro hkept node hin
    obtain ⟨hnode, hlabel⟩ := List.mem_filter.1 hin
    exact (hread node _ (folded_node hparsed h hnode)).2 (hkept node hnode (of_decide_eq_true hlabel))

/-- The nodes of a label that are read without their embedding, in both readers. -/
theorem columns_same (hparsed : graph.Parsed) (h : legPrimitives embeddings graph = .ok leg) (scan : GraphScan)
    (instrumentId label : String) {names : List String} (read : List PyValue → CompanyMerge.BaselineNode)
    (hnames : "embedding" ∉ names)
    (hid : ∀ properties, (read (names.map (columnOf properties))).id = columnOf properties "id") :
    SameNodes (((graph.folded.nodesOf label).map fun node => names.map (columnOf node)).map read)
      (((QueryForm.columns label names).rows scan (applyAll ∅ leg) instrumentId).map read) := by
  refine (labelled_same_iff scan label hparsed h _ read hid).2 fun node hnode => ?_
  exact (folded_node hparsed h (List.mem_filter.1 hnode).1).read_columns hnames read

/-- The governance nodes of a label, in both readers. -/
theorem governance_same (hparsed : graph.Parsed) (h : legPrimitives embeddings graph = .ok leg) (scan : GraphScan)
    (instrumentId label : String) :
    SameNodes (((graph.folded.nodesOf label).map fun node => [PyValue.dict node]).map governanceNode)
      (((QueryForm.whole label).rows scan (applyAll ∅ leg) instrumentId).map governanceNode) := by
  refine (labelled_same_iff scan label hparsed h _ governanceNode fun _ => rfl).2 fun node hnode => ?_
  exact (folded_node hparsed h (List.mem_filter.1 hnode).1).read_governance

end Read

/-! ## An embedding of texts -/

/-- A Role whose embedding is a list of texts. -/
def textEmbedding : SerializedGraph :=
  ⟨[⟨"Role", [("id", .str "role"), ("name", .str "Provider"), ("embedding", .list [.str "0.5"])]⟩], []⟩

/-- A float is read of its text. -/
def halfReader : EmbeddingReader where
  read
    | .list [.str "0.5"] => some [⟨0x3fe0000000000000⟩]
    | _ => none

theorem keyed_perm (rows : List (NodeRef × NodeContent)) : (id rows).Perm rows := List.Perm.refl rows

/-- A graph answers its nodes by their keys. -/
noncomputable def keyedScan : GraphScan := ⟨id, keyed_perm, default⟩

end PolicySystem.Restore
