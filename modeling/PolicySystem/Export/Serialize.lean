import PolicySystem.Gateway.EntryCodec
import PolicySystem.Order.StableSort
import PolicySystem.Text.JsonIndent

/-!
# Serialized graphs as JSON bytes

`to_json_bytes` and `parse_serialized_graph_json` of `export/serialize.py`.

* `parse_toJsonBytes`: the bytes are parsed to the sorted graph;
* `canonical_iff`: **the bytes of a graph depend only on its multisets of nodes and edges exactly when the sort keys
  tell its nodes and its edges apart.** Nodes are keyed by label and id only, edges by their type and the ids of their
  ends, so that parallel edges keep the order in which they were read.
-/

namespace PolicySystem.Export

open Text (Json)
open StableSort

/-! ## Graphs -/

/-- A property dict, in key order. -/
abbrev Properties := List (String × Json Double)

structure SerializedNode where
  label : String
  properties : Properties

structure SerializedEdge where
  relationshipType : String
  sourceLabel : String
  sourceId : String
  targetLabel : String
  targetId : String
  properties : Properties

structure SerializedGraph where
  nodes : List SerializedNode
  edges : List SerializedEdge

/-- `node.properties.get("id")`. -/
def SerializedNode.id? (node : SerializedNode) : Option (Json Double) :=
  (node.properties.find? fun item => item.1 = "id").map Prod.snd

/-- What the types of a serialized graph say of its values: properties are dicts of storable values, and a node's `id`
is its domain identifier, a string. -/
structure SerializedGraph.Valid (graph : SerializedGraph) : Prop where
  nodes : ∀ node ∈ graph.nodes, Json.Sound (.obj node.properties)
  ids : ∀ node ∈ graph.nodes, ∀ v ∈ node.id?, ∃ id, v = .str id
  edges : ∀ edge ∈ graph.edges, Json.Sound (.obj edge.properties)

/-- Equal as multisets of nodes and of edges. -/
structure SerializedGraph.Same (graph other : SerializedGraph) : Prop where
  nodes : graph.nodes.Perm other.nodes
  edges : graph.edges.Perm other.edges

/-! ## Encoding -/

/-- `_node_sort_key`; an id that is no string is cast. -/
def nodeSortKey (node : SerializedNode) : String ×ₗ String :=
  toLex (node.label, match node.id? with
    | some (.str id) => id
    | _ => "")

/-- `_edge_sort_key`. -/
def edgeSortKey (edge : SerializedEdge) : String ×ₗ (String ×ₗ String) :=
  toLex (edge.relationshipType, toLex (edge.sourceId, edge.targetId))

def nodeItem (node : SerializedNode) : Json Double :=
  dict [("label", .str node.label), ("properties", .obj node.properties)]

def edgeItem (edge : SerializedEdge) : Json Double :=
  dict [("relationship_type", .str edge.relationshipType), ("source_label", .str edge.sourceLabel),
    ("source_id", .str edge.sourceId), ("target_label", .str edge.targetLabel), ("target_id", .str edge.targetId),
    ("properties", .obj edge.properties)]

/-- The graph with its nodes and its edges in key order. -/
def SerializedGraph.sorted (graph : SerializedGraph) : SerializedGraph :=
  ⟨sortBy nodeSortKey graph.nodes, sortBy edgeSortKey graph.edges⟩

/-- The document of nodes and edges as they stand. -/
def document (graph : SerializedGraph) : Json Double :=
  dict [("nodes", .arr (graph.nodes.map nodeItem)), ("edges", .arr (graph.edges.map edgeItem))]

/-- `to_json_bytes`. -/
def toJsonBytes (graph : SerializedGraph) : ByteArray :=
  (String.ofList (Json.dumpsIndent false 2 0 (document graph.sorted) ++ ['\n'])).toUTF8

/-! ## Decoding -/

/-- What `parse_serialized_graph_json` raises. -/
inductive ParseError where
  /-- not UTF-8, or not JSON -/
  | json
  /-- `KeyError` -/
  | key (name : String)
  /-- a value of another shape, which nothing checks -/
  | shape
  deriving DecidableEq

/-- `value[name]` of a dict. -/
def field (name : String) : Json Double → Except ParseError (Json Double)
  | .obj items =>
    match items.find? fun item => item.1 = name with
    | some item => .ok item.2
    | none => .error (.key name)
  | _ => .error .shape

def asString : Json Double → Except ParseError String
  | .str s => .ok s
  | _ => .error .shape

def asList : Json Double → Except ParseError (List (Json Double))
  | .arr items => .ok items
  | _ => .error .shape

def asDict : Json Double → Except ParseError Properties
  | .obj items => .ok items
  | _ => .error .shape

def parseNode (node : Json Double) : Except ParseError SerializedNode := do
  return { label := ← asString (← field "label" node), properties := ← asDict (← field "properties" node) }

def parseEdge (edge : Json Double) : Except ParseError SerializedEdge := do
  return {
    relationshipType := ← asString (← field "relationship_type" edge)
    sourceLabel := ← asString (← field "source_label" edge)
    sourceId := ← asString (← field "source_id" edge)
    targetLabel := ← asString (← field "target_label" edge)
    targetId := ← asString (← field "target_id" edge)
    properties := ← asDict (← field "properties" edge) }

/-- `json.loads` of UTF-8 bytes. -/
def jsonLoads (blob : ByteArray) : Except ParseError (Json Double) :=
  match String.fromUTF8? blob with
  | some text =>
    match Json.loads text.toList with
    | some document => .ok document
    | none => .error .json
  | none => .error .json

/-- `parse_serialized_graph_json`. -/
def parseSerializedGraphJson (blob : ByteArray) : Except ParseError SerializedGraph := do
  let document ← jsonLoads blob
  let nodes ← (← asList (← field "nodes" document)).mapM parseNode
  let edges ← (← asList (← field "edges" document)).mapM parseEdge
  return ⟨nodes, edges⟩

/-! ## The round trip -/

theorem parseNode_nodeItem (node : SerializedNode) : parseNode (nodeItem node) = .ok node := by
  have hlabel : field "label" (nodeItem node) = .ok (.str node.label) := by
    simp [field, nodeItem, dict, Json.dictOf, Json.find?_insertItem]
  have hproperties : field "properties" (nodeItem node) = .ok (.obj node.properties) := by
    simp [field, nodeItem, dict, Json.dictOf, Json.find?_insertItem]
  unfold parseNode
  rw [hlabel, hproperties]
  rfl

theorem parseEdge_edgeItem (edge : SerializedEdge) : parseEdge (edgeItem edge) = .ok edge := by
  have hfields : field "relationship_type" (edgeItem edge) = .ok (.str edge.relationshipType) ∧
      field "source_label" (edgeItem edge) = .ok (.str edge.sourceLabel) ∧
      field "source_id" (edgeItem edge) = .ok (.str edge.sourceId) ∧
      field "target_label" (edgeItem edge) = .ok (.str edge.targetLabel) ∧
      field "target_id" (edgeItem edge) = .ok (.str edge.targetId) ∧
      field "properties" (edgeItem edge) = .ok (.obj edge.properties) := by
    simp [field, edgeItem, dict, Json.dictOf, Json.find?_insertItem]
  obtain ⟨htype, hsourceLabel, hsourceId, htargetLabel, htargetId, hproperties⟩ := hfields
  unfold parseEdge
  rw [htype, hsourceLabel, hsourceId, htargetLabel, htargetId, hproperties]
  rfl

/-- Items that are each parsed are parsed one after the other. -/
theorem mapM_parse {α : Type} {item : α → Json Double} {parse : Json Double → Except ParseError α}
    (h : ∀ x, parse (item x) = .ok x) (xs : List α) : (xs.map item).mapM parse = .ok xs := by
  induction xs with
  | nil => rfl
  | cons x xs ih =>
    rw [List.map_cons, List.mapM_cons, h x, ih]
    rfl

theorem SerializedGraph.Valid.document {graph : SerializedGraph} (h : graph.Valid) : Json.Sound (document graph) := by
  have hnodes : Json.Sound (.arr (graph.nodes.map nodeItem) : Json Double) := by
    refine Json.soundItems_iff.2 fun item hitem => ?_
    obtain ⟨node, hnode, rfl⟩ := List.mem_map.1 hitem
    exact sound_dict (by simpa [Json.Sound] using h.nodes node hnode)
  have hedges : Json.Sound (.arr (graph.edges.map edgeItem) : Json Double) := by
    refine Json.soundItems_iff.2 fun item hitem => ?_
    obtain ⟨edge, hedge, rfl⟩ := List.mem_map.1 hitem
    exact sound_dict (by simpa [Json.Sound] using h.edges edge hedge)
  exact sound_dict (by simpa using ⟨hnodes, hedges⟩)

theorem sorted_same (graph : SerializedGraph) : graph.sorted.Same graph := ⟨sortBy_perm _, sortBy_perm _⟩

theorem SerializedGraph.Same.symm {graph other : SerializedGraph} (h : graph.Same other) : other.Same graph :=
  ⟨h.nodes.symm, h.edges.symm⟩

theorem SerializedGraph.Valid.of_same {graph other : SerializedGraph} (h : graph.Valid) (hsame : graph.Same other) :
    other.Valid where
  nodes node hnode := h.nodes node (hsame.nodes.mem_iff.2 hnode)
  ids node hnode := h.ids node (hsame.nodes.mem_iff.2 hnode)
  edges edge hedge := h.edges edge (hsame.edges.mem_iff.2 hedge)

theorem fromUTF8?_toUTF8 (s : String) : String.fromUTF8? s.toUTF8 = some s := by
  unfold String.fromUTF8?
  rw [String.toUTF8_eq_toByteArray, dif_pos s.isValidUTF8]
  rfl

/-- **The bytes are parsed to the sorted graph.** -/
theorem parse_toJsonBytes {graph : SerializedGraph} (h : graph.Valid) :
    parseSerializedGraphJson (toJsonBytes graph) = .ok graph.sorted := by
  have hsound : Json.Sound (document graph.sorted) := (h.of_same (sorted_same graph).symm).document
  have hloads : jsonLoads (toJsonBytes graph) = .ok (document graph.sorted) := by
    unfold jsonLoads toJsonBytes
    rw [fromUTF8?_toUTF8]
    simp only [String.toList_ofList, Json.loads_dumpsIndent hsound]
  have hnodes : field "nodes" (document graph.sorted) = .ok (.arr (graph.sorted.nodes.map nodeItem)) := by
    simp [field, document, dict, Json.dictOf, Json.find?_insertItem]
  have hedges : field "edges" (document graph.sorted) = .ok (.arr (graph.sorted.edges.map edgeItem)) := by
    simp [field, document, dict, Json.dictOf, Json.find?_insertItem]
  unfold parseSerializedGraphJson
  rw [hloads]
  change (do
    let nodes ← (← asList (← field "nodes" (document graph.sorted))).mapM parseNode
    let edges ← (← asList (← field "edges" (document graph.sorted))).mapM parseEdge
    return (⟨nodes, edges⟩ : SerializedGraph)) = _
  rw [hnodes, hedges]
  change (do
    let nodes ← (graph.sorted.nodes.map nodeItem).mapM parseNode
    let edges ← (graph.sorted.edges.map edgeItem).mapM parseEdge
    return (⟨nodes, edges⟩ : SerializedGraph)) = _
  rw [mapM_parse parseNode_nodeItem, mapM_parse parseEdge_edgeItem]
  rfl

/-! ## Canonicity -/

/-- The sort keys tell the nodes and the edges of a graph apart. -/
structure SerializedGraph.Untied (graph : SerializedGraph) : Prop where
  nodes : StableSort.Untied nodeSortKey graph.nodes
  edges : StableSort.Untied edgeSortKey graph.edges

/-- Equal bytes are bytes of one sorted graph. -/
theorem sorted_eq_of_bytes {graph other : SerializedGraph} (h : graph.Valid) (hother : other.Valid)
    (hbytes : toJsonBytes graph = toJsonBytes other) : graph.sorted = other.sorted := by
  have hparse := parse_toJsonBytes h
  rw [hbytes, parse_toJsonBytes hother] at hparse
  exact (Except.ok.inj hparse).symm

/-- **The export bytes of a graph are canonical and read back** exactly when its sort keys tell its nodes and its edges
apart. -/
theorem canonical_iff {graph : SerializedGraph} (h : graph.Valid) :
    (∀ other, graph.Same other → toJsonBytes other = toJsonBytes graph ∧
      ∃ parsed, parseSerializedGraphJson (toJsonBytes other) = .ok parsed ∧ parsed.Same other) ↔ graph.Untied := by
  constructor
  · intro hcanonical
    have hsorted : ∀ other, graph.Same other → other.sorted = graph.sorted :=
      fun other hsame => sorted_eq_of_bytes (h.of_same hsame) h (hcanonical other hsame).1
    refine ⟨sortBy_canonical_iff.1 fun nodes hperm => ?_, sortBy_canonical_iff.1 fun edges hperm => ?_⟩
    · exact congrArg SerializedGraph.nodes (hsorted ⟨nodes, graph.edges⟩ ⟨hperm, .refl _⟩)
    · exact congrArg SerializedGraph.edges (hsorted ⟨graph.nodes, edges⟩ ⟨.refl _, hperm⟩)
  · intro huntied other hsame
    have hsorted : other.sorted = graph.sorted := by
      unfold SerializedGraph.sorted
      rw [huntied.nodes.sortBy_eq hsame.nodes, huntied.edges.sortBy_eq hsame.edges]
    refine ⟨by unfold toJsonBytes; rw [hsorted], other.sorted, parse_toJsonBytes (h.of_same hsame), sorted_same other⟩

/-- A graph of two roles. -/
def twoRoles : SerializedGraph :=
  ⟨[⟨"Role", [("id", .str "role_b"), ("name", .str "Provider")]⟩, ⟨"Role", [("id", .str "role_a")]⟩], []⟩

/-- The same graph, listed the other way round. -/
def twoRolesBack : SerializedGraph := ⟨twoRoles.nodes.reverse, []⟩

theorem canonical_iff_twoRoles : toJsonBytes twoRolesBack = toJsonBytes twoRoles := by
  have hvalid : twoRoles.Valid := by
    refine ⟨?_, ?_, by simp [twoRoles]⟩
    · intro node hnode
      simp only [twoRoles, List.mem_cons, List.not_mem_nil, or_false] at hnode
      rcases hnode with rfl | rfl
      · exact ⟨List.pairwise_pair.2 (by decide +kernel), trivial, trivial, trivial⟩
      · exact ⟨List.pairwise_singleton _ _, trivial, trivial⟩
    · intro node hnode
      simp only [twoRoles, List.mem_cons, List.not_mem_nil, or_false] at hnode
      rcases hnode with rfl | rfl
      · simp [SerializedNode.id?]
      · simp [SerializedNode.id?]
  have huntied : twoRoles.Untied := by
    refine ⟨?_, by simp [StableSort.Untied, twoRoles]⟩
    intro a ha b hb
    simp only [twoRoles, List.mem_cons, List.not_mem_nil, or_false] at ha hb
    rcases ha with rfl | rfl <;> rcases hb with rfl | rfl
    · exact fun _ => rfl
    · simp [nodeSortKey, SerializedNode.id?]
    · simp [nodeSortKey, SerializedNode.id?]
    · exact fun _ => rfl
  have hsame : twoRoles.Same twoRolesBack := ⟨(List.reverse_perm _).symm, .refl _⟩
  exact ((canonical_iff hvalid).2 huntied twoRolesBack hsame).1

/-- Two edges between the same ends: one written without an identity, and one with. -/
def legacyEdge : SerializedEdge := ⟨"HAS", "Role", "role_a", "Obligation", "ob_1", []⟩

def identifiedEdge : SerializedEdge := { legacyEdge with properties := [("identity", .str "HAS:role_a:ob_1")] }

def legacyFirst : SerializedGraph := ⟨[], [legacyEdge, identifiedEdge]⟩

def legacyLast : SerializedGraph := ⟨[], [identifiedEdge, legacyEdge]⟩

/-- **Parallel edges** keep the order in which they were read. -/
theorem parallel_edges_not_canonical :
    legacyFirst.Valid ∧ legacyFirst.Same legacyLast ∧ toJsonBytes legacyFirst ≠ toJsonBytes legacyLast := by
  have hvalid : legacyFirst.Valid := by
    refine ⟨by simp [legacyFirst], by simp [legacyFirst], ?_⟩
    intro edge hedge
    simp only [legacyFirst, List.mem_cons, List.not_mem_nil, or_false] at hedge
    rcases hedge with rfl | rfl
    · exact ⟨List.Pairwise.nil, trivial⟩
    · exact ⟨List.pairwise_singleton _ _, trivial, trivial⟩
  have hsame : legacyFirst.Same legacyLast := ⟨.refl _, .swap _ _ _⟩
  refine ⟨hvalid, hsame, fun hbytes => ?_⟩
  have hsorted := congrArg SerializedGraph.edges (sorted_eq_of_bytes hvalid (hvalid.of_same hsame) hbytes)
  have hlegacy : legacyEdge = identifiedEdge := eq_of_swap rfl hsorted
  cases congrArg SerializedEdge.properties hlegacy

end PolicySystem.Export
