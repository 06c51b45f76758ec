import Mathlib
import PolicySystem.Dict.LastWins
import PolicySystem.Gateway.ReplaceExact
import PolicySystem.Gateway.Validation

/-!
# An artifact's leg as primitives

`restore/leg_primitives.py`, with what `restore/schema_allowlist.py` accepts.

* `foldSerializedGraph`: one node per reference and one edge per type and ends, the last occurrence of each;
* `HoldsArtifact`: what it is for a graph to hold an artifact's leg;
* `holdsExactly_iff_artifact`: **a graph holds the primitives of a leg exactly when it holds the leg.**
-/

open Std (ExtTreeMap)

namespace PolicySystem.Restore

open GraphWrite LastWins

/-! ## Serialized graphs -/

/-- `SerializedNode`; the properties are the items of a dict. -/
structure SerializedNode where
  label : String
  properties : List (String × PyValue)

/-- `SerializedEdge`. -/
structure SerializedEdge where
  relationshipType : String
  sourceLabel : String
  sourceId : String
  targetLabel : String
  targetId : String
  properties : List (String × PyValue)

/-- `SerializedGraph`. -/
structure SerializedGraph where
  nodes : List SerializedNode
  edges : List SerializedEdge

/-- Why an artifact is refused (`ArtifactContentRejectedError`). -/
inductive ContentRejection where
  | nodeLabel (label : String)
  | relationshipType (type : String)
  | sourceLabel (label : String)
  | targetLabel (label : String)
  /-- "has a missing or non-string 'id' property" -/
  | nodeId (label : String)
  /-- "has unsupported status" -/
  | capabilityStatus
  /-- "carries the identity" of another edge -/
  | foreignIdentity (type sourceId targetId : String)
  /-- "has a property the graph cannot store" -/
  | unstorableNode (label id : String)
  | unstorableEdge (type sourceId targetId : String)
  deriving DecidableEq

/-- `node.properties.get(key)`. -/
def SerializedNode.get? (node : SerializedNode) (key : String) : Option PyValue := node.properties.lookup key

/-- `_node_id`. -/
def SerializedNode.nodeId (node : SerializedNode) : Except ContentRejection String :=
  match node.get? "id" with
  | some (.str id) => .ok id
  | _ => .error (.nodeId node.label)

/-- The label and the string id of a node. -/
def SerializedNode.ref (node : SerializedNode) : Option NodeRef :=
  match node.get? "id" with
  | some (.str id) => some ⟨node.label, id⟩
  | _ => none

def SerializedEdge.source (edge : SerializedEdge) : NodeRef := ⟨edge.sourceLabel, edge.sourceId⟩

def SerializedEdge.target (edge : SerializedEdge) : NodeRef := ⟨edge.targetLabel, edge.targetId⟩

/-- `edge_identity`. -/
def SerializedEdge.identity (edge : SerializedEdge) : String :=
  edge.relationshipType ++ ":" ++ edge.sourceId ++ "->" ++ edge.targetId

/-- The edge as the gateway keys it. -/
def SerializedEdge.base (edge : SerializedEdge) : EdgeBase :=
  ⟨edge.relationshipType, edge.identity, edge.source, edge.target⟩

/-! ## The allow-lists -/

/-- `BASELINE_ALLOWED_LABELS`. -/
def baselineAllowedLabels : List String :=
  ["RegulatoryInstrument", "Role", "Requirement", "Obligation", "Capability", "Policy", "Standard", "Control",
    "PracticeArea", "RiskPath"]

/-- `BASELINE_ALLOWED_RELATIONSHIP_TYPES`. -/
def baselineAllowedRelationshipTypes : List String :=
  ["DEFINES", "EXPRESSES", "HAS", "SATISFIED_BY", "REQUIRES", "GOVERNED_BY", "SUPPORTED_BY", "IMPLEMENTED_BY",
    "VERIFIED_BY", "OWNS", "COVERS", "MITIGATED_BY"]

/-- `NATIVE_ALLOWED_LABELS`. -/
def nativeAllowedLabels : List String :=
  ["RegulatoryInstrument", "TITLE", "CHAPTER", "SECTION", "ARTICLE", "PARAGRAPH", "ANNEX", "RECITAL", "Role",
    "Requirement", "Obligation", "Capability", "Policy", "Standard", "Control", "PracticeArea", "RiskPath"]

/-- `NATIVE_ALLOWED_RELATIONSHIP_TYPES`. -/
def nativeAllowedRelationshipTypes : List String :=
  ["HAS", "DEFINES", "EXPRESSES", "SATISFIED_BY", "REQUIRES", "GOVERNED_BY", "SUPPORTED_BY", "IMPLEMENTED_BY",
    "VERIFIED_BY", "OWNS", "COVERS", "MITIGATED_BY"]

/-- `CAPABILITY_STATUSES`. -/
def capabilityStatuses : List String := ["active", "deprecated"]

/-- `_validate_capability_status`: a status that is there is one of the schema's. -/
def validateCapabilityStatus (node : SerializedNode) : Except ContentRejection Unit :=
  match node.get? "status" with
  | none | some .none => .ok ()
  | some (.str status) =>
    if node.label = "Capability" ∧ status ∉ capabilityStatuses then .error .capabilityStatus else .ok ()
  | some _ => if node.label = "Capability" then .error .capabilityStatus else .ok ()

def validateNode (allowedLabels : List String) (node : SerializedNode) : Except ContentRejection Unit := do
  if node.label ∉ allowedLabels then throw (.nodeLabel node.label)
  let _ ← node.nodeId
  validateCapabilityStatus node

def validateEdge (allowedLabels allowedTypes : List String) (edge : SerializedEdge) : Except ContentRejection Unit := do
  if edge.relationshipType ∉ allowedTypes then throw (.relationshipType edge.relationshipType)
  if edge.sourceLabel ∉ allowedLabels then throw (.sourceLabel edge.sourceLabel)
  if edge.targetLabel ∉ allowedLabels then throw (.targetLabel edge.targetLabel)

/-- `validate_serialized_graph`. -/
def validateSerializedGraph (graph : SerializedGraph) (allowedLabels allowedTypes : List String) :
    Except ContentRejection Unit := do
  graph.nodes.forM (validateNode allowedLabels)
  graph.edges.forM (validateEdge allowedLabels allowedTypes)

/-- `_validate_content`: both legs, native first. -/
def validateContent (native baseline : SerializedGraph) : Except ContentRejection Unit := do
  validateSerializedGraph native nativeAllowedLabels nativeAllowedRelationshipTypes
  validateSerializedGraph baseline baselineAllowedLabels baselineAllowedRelationshipTypes

/-! ## The fold -/

local instance refsLawful : LawfulBEq (Option NodeRef) := inferInstance

/-- The edges of a leg whose ends are among its nodes. -/
def SerializedGraph.anchoredEdges (graph : SerializedGraph) : List SerializedEdge :=
  graph.edges.filter fun edge =>
    some edge.source ∈ graph.nodes.map SerializedNode.ref ∧ some edge.target ∈ graph.nodes.map SerializedNode.ref

/-- `fold_serialized_graph`. -/
def foldSerializedGraph (graph : SerializedGraph) : Except ContentRejection SerializedGraph := do
  graph.nodes.forM fun node => do let _ ← node.nodeId
  return ⟨collect SerializedNode.ref graph.nodes, collect SerializedEdge.base graph.anchoredEdges⟩

/-! ## Primitives -/

/-- What a JSON value is as an embedding: the tuple of its items, each validated as a float. -/
structure EmbeddingReader where
  read : PyValue → Option Embedding

variable (embeddings : EmbeddingReader)

/-- `node.properties.get("embedding")`, where it is not null. -/
def SerializedNode.rawEmbedding (node : SerializedNode) : Option PyValue :=
  match node.get? "embedding" with
  | none | some .none => none
  | some raw => some raw

/-- The properties that are not the key and not the embedding. -/
def SerializedNode.plain (node : SerializedNode) : List (String × PyValue) :=
  node.properties.filter fun item => item.1 ∉ reservedNodePropertyKeys

/-- `_upsert_node`. -/
def upsertNode (node : SerializedNode) : Except ContentRejection Primitive := do
  let id ← node.nodeId
  let unstorable := ContentRejection.unstorableNode node.label id
  let embedding ← match node.rawEmbedding with
    | none => .ok none
    | some raw => match embeddings.read raw with
      | some embedding => .ok (some embedding)
      | none => .error unstorable
  match RawPrimitive.accept (.upsertNode node.label id node.plain embedding) with
  | some p => .ok p
  | none => .error unstorable

/-- `_upsert_edge`. -/
def upsertEdge (edge : SerializedEdge) : Except ContentRejection Primitive :=
  let properties := edge.properties.filter fun item => item.1 ≠ "identity"
  let foreign := match edge.properties.lookup "identity" with
    | none => false
    | some (.str authored) => authored ≠ edge.identity
    | some _ => true
  if foreign then .error (.foreignIdentity edge.relationshipType edge.sourceId edge.targetId)
  else match RawPrimitive.accept (.upsertEdge ⟨edge.relationshipType, edge.identity,
      (edge.sourceLabel, edge.sourceId), (edge.targetLabel, edge.targetId)⟩ properties) with
    | some p => .ok p
    | none => .error (.unstorableEdge edge.relationshipType edge.sourceId edge.targetId)

/-- **`leg_primitives`.** -/
def legPrimitives (graph : SerializedGraph) : Except ContentRejection (List Primitive) := do
  let folded ← foldSerializedGraph graph
  let nodes ← folded.nodes.mapM (upsertNode embeddings)
  let edges ← folded.edges.mapM upsertEdge
  return nodes ++ edges

/-! ## What the artifact says -/

/-- The properties of a dict as they are stored. -/
def storedProperties (properties : List (String × PyValue)) : PropertyMap :=
  ExtTreeMap.ofList (properties.filterMap fun (key, value) => value.toPropertyValue.map fun v => (key, v))

/-- A node as it is stored. -/
def SerializedNode.stored (node : SerializedNode) : NodeContent :=
  ⟨storedProperties node.plain, node.rawEmbedding.bind embeddings.read⟩

/-- An edge as it is stored; its key says its identity. -/
def SerializedEdge.stored (edge : SerializedEdge) : PropertyMap :=
  storedProperties (edge.properties.filter fun item => item.1 ≠ "identity")

/-- The primitive of a node that has a reference. -/
def SerializedNode.primitive (node : SerializedNode) : Primitive :=
  .upsertNode (node.ref.getD ⟨"", ""⟩) (node.stored embeddings).properties (node.stored embeddings).embedding

/-- The primitive of an edge. -/
def SerializedEdge.primitive (edge : SerializedEdge) : Primitive := .upsertEdge edge.base edge.stored

/-- **A graph holds an artifact's leg**: of each node the last occurrence, of each edge between two nodes of the
leg the last occurrence, once and under its identity, and nothing else. -/
structure HoldsArtifact (g : Graph) (graph : SerializedGraph) : Prop where
  nodes : ∀ n, g.nodes[n]? = (last SerializedNode.ref (some n) graph.nodes).map (SerializedNode.stored embeddings)
  edges : ∀ e : EdgeBase, g.edgesAt e.edgeKey = slotOf ((last SerializedEdge.base e graph.anchoredEdges).map SerializedEdge.stored)
  identified : ∀ k, k.identity = none → g.edgesAt k = 0

/-! ## The primitives of a leg -/

section Leg

variable {embeddings} {graph : SerializedGraph} {leg : List Primitive}

theorem nodeId_ok {node : SerializedNode} {id : String} : node.nodeId = .ok id ↔ node.ref = some ⟨node.label, id⟩ := by
  unfold SerializedNode.nodeId SerializedNode.ref
  split <;> simp

theorem storedProperties_of_valid {properties : List (String × PyValue)} {reserved : List String} {map : PropertyMap}
    (h : (validatePropertyMap properties reserved).toOption = some map) : map = storedProperties properties :=
  (validatePropertyMap_ok (toOption_eq_some h)).2

/-- A node's primitive is what the model accepts of its fields. -/
theorem upsertNode_accept {node : SerializedNode} {p : Primitive} (h : upsertNode embeddings node = .ok p) :
    ∃ id, node.nodeId = .ok id ∧
      RawPrimitive.accept (.upsertNode node.label id node.plain (node.rawEmbedding.bind embeddings.read)) = some p := by
  unfold upsertNode at h
  cases hid : node.nodeId with
  | error e => rw [hid] at h; cases h
  | ok id =>
    rw [hid] at h
    refine ⟨id, rfl, ?_⟩
    cases hraw : node.rawEmbedding with
    | none =>
      simp only [hraw, bind, Except.bind] at h
      split at h
      · rename_i hp; cases h; exact hp
      · cases h
    | some raw =>
      cases hread : embeddings.read raw with
      | none => simp [hraw, hread, bind, Except.bind] at h
      | some e =>
        simp only [hraw, hread, bind, Except.bind] at h
        rw [Option.bind_some, hread]
        split at h
        · rename_i hp; cases h; exact hp
        · cases h

/-- A node's primitive sets what the node stores. -/
theorem upsertNode_ok {node : SerializedNode} {p : Primitive} (h : upsertNode embeddings node = .ok p) :
    ∃ n, node.ref = some n ∧
      p = .upsertNode n (node.stored embeddings).properties (node.stored embeddings).embedding := by
  obtain ⟨id, hid, haccept⟩ := upsertNode_accept h
  simp only [RawPrimitive.accept, Option.bind_eq_bind, Option.bind_eq_some_iff] at haccept
  obtain ⟨n, hn, -, -, map, hmap, heq⟩ := haccept
  have hlabel : n = ⟨node.label, id⟩ := by
    unfold acceptNodeRef at hn
    split at hn
    · exact (Option.some.inj hn).symm
    · cases hn
  rw [storedProperties_of_valid hmap] at heq
  exact ⟨_, nodeId_ok.1 hid, by rw [← hlabel]; exact (Option.some.inj heq).symm⟩

/-- An edge's primitive is what the model accepts of its fields. -/
theorem upsertEdge_accept {edge : SerializedEdge} {p : Primitive} (h : upsertEdge edge = .ok p) :
    RawPrimitive.accept (.upsertEdge ⟨edge.relationshipType, edge.identity, (edge.sourceLabel, edge.sourceId),
      (edge.targetLabel, edge.targetId)⟩ (edge.properties.filter fun item => item.1 ≠ "identity")) = some p := by
  unfold upsertEdge at h
  dsimp only at h
  generalize (match edge.properties.lookup "identity" with
    | none => false
    | some (.str authored) => decide (authored ≠ edge.identity)
    | some _ => true) = foreign at h
  split at h
  · cases h
  split at h
  · rename_i haccept
    cases h
    exact haccept
  · cases h

/-- An edge's primitive sets what the edge stores, under its own identity. -/
theorem upsertEdge_ok {edge : SerializedEdge} {p : Primitive} (h : upsertEdge edge = .ok p) :
    p = .upsertEdge edge.base edge.stored := by
  have haccept := upsertEdge_accept h
  simp only [RawPrimitive.accept, Option.bind_eq_bind, Option.bind_eq_some_iff] at haccept
  obtain ⟨base, hbase, map, hmap, heq⟩ := haccept
  rw [storedProperties_of_valid hmap] at heq
  have hb : base = edge.base := by
    simp only [RawEdge.accept, acceptNodeRef, Option.bind_eq_bind, Option.bind_eq_some_iff] at hbase
    obtain ⟨-, -, source, hsource, target, htarget, hbase⟩ := hbase
    split at hsource
    · split at htarget
      · cases hsource; cases htarget; cases hbase; rfl
      · cases htarget
    · cases hsource
  rw [← hb]
  exact (Option.some.inj heq).symm

theorem mapM_except_ok {α β ε : Type} {f : α → Except ε β} {image : α → β} {xs : List α} {ys : List β}
    (hf : ∀ a b, f a = .ok b → b = image a) (h : xs.mapM f = .ok ys) : ys = xs.map image := by
  induction xs generalizing ys with
  | nil => cases h; rfl
  | cons x xs ih =>
    rw [List.mapM_cons] at h
    cases hx : f x with
    | error e => rw [hx] at h; cases h
    | ok y =>
      rw [hx] at h
      cases hxs : xs.mapM f with
      | error e => rw [hxs] at h; cases h
      | ok rest =>
        rw [hxs] at h
        cases h
        rw [List.map_cons, hf x y hx, ih hxs]

theorem forM_except_ok {α ε : Type} {f : α → Except ε PUnit} {xs : List α} (h : xs.forM f = .ok ⟨⟩) :
    ∀ x ∈ xs, f x = .ok ⟨⟩ := by
  induction xs with
  | nil => simp
  | cons x xs ih =>
    change (f x >>= fun _ => xs.forM f) = .ok ⟨⟩ at h
    cases hx : f x with
    | error e => rw [hx] at h; cases h
    | ok u =>
      rw [hx] at h
      intro y hy
      rcases List.mem_cons.1 hy with rfl | hy
      · exact hx
      · exact ih h y hy

theorem mapM_except_answers {α β ε : Type} {f : α → Except ε β} {xs : List α} {ys : List β} (h : xs.mapM f = .ok ys) :
    ∀ x ∈ xs, ∃ y, f x = .ok y := by
  induction xs generalizing ys with
  | nil => simp
  | cons x xs ih =>
    rw [List.mapM_cons] at h
    cases hx : f x with
    | error e => rw [hx] at h; cases h
    | ok y =>
      rw [hx] at h
      cases hxs : xs.mapM f with
      | error e => rw [hxs] at h; cases h
      | ok rest =>
        intro z hz
        rcases List.mem_cons.1 hz with rfl | hz
        · exact ⟨y, hx⟩
        · exact ih hxs z hz

/-- The steps that make a leg's primitives. -/
theorem legPrimitives_steps (h : legPrimitives embeddings graph = .ok leg) :
    (∀ node ∈ graph.nodes, node.ref.isSome = true) ∧
      foldSerializedGraph graph =
        .ok ⟨collect SerializedNode.ref graph.nodes, collect SerializedEdge.base graph.anchoredEdges⟩ ∧
      ∃ nodes edges, (collect SerializedNode.ref graph.nodes).mapM (upsertNode embeddings) = .ok nodes ∧
        (collect SerializedEdge.base graph.anchoredEdges).mapM upsertEdge = .ok edges ∧ leg = nodes ++ edges := by
  unfold legPrimitives at h
  have hfold : foldSerializedGraph graph = (do
      graph.nodes.forM fun node => do let _ ← node.nodeId
      return ⟨collect SerializedNode.ref graph.nodes, collect SerializedEdge.base graph.anchoredEdges⟩) := rfl
  rw [hfold] at h ⊢
  cases hids : graph.nodes.forM (m := Except ContentRejection) fun node => do let _ ← node.nodeId with
  | error e => rw [hids] at h; cases h
  | ok u =>
    rw [hids] at h
    dsimp only [bind, Except.bind, pure, Except.pure] at h
    cases hnodes : (collect SerializedNode.ref graph.nodes).mapM (upsertNode embeddings) with
    | error e => rw [hnodes] at h; cases h
    | ok nodes =>
      rw [hnodes] at h
      cases hedges : (collect SerializedEdge.base graph.anchoredEdges).mapM upsertEdge with
      | error e => rw [hedges] at h; cases h
      | ok edges =>
        rw [hedges] at h
        cases h
        refine ⟨fun node hnode => ?_, rfl, nodes, edges, rfl, rfl, rfl⟩
        have hid := forM_except_ok hids node hnode
        cases hn : node.nodeId with
        | error e => rw [hn] at hid; cases hid
        | ok id => rw [nodeId_ok.1 hn]; rfl

/-- **What a leg's primitives are**: each node of the folded leg and then each edge, with what it stores. -/
theorem legPrimitives_ok (h : legPrimitives embeddings graph = .ok leg) :
    (∀ node ∈ graph.nodes, node.ref.isSome = true) ∧
      leg = (collect SerializedNode.ref graph.nodes).map (SerializedNode.primitive embeddings) ++
        (collect SerializedEdge.base graph.anchoredEdges).map SerializedEdge.primitive := by
  obtain ⟨hrefs, -, nodes, edges, hnodes, hedges, rfl⟩ := legPrimitives_steps h
  refine ⟨hrefs, congrArg₂ _ ?_ ?_⟩
  · refine mapM_except_ok (fun node p hp => ?_) hnodes
    obtain ⟨n, hn, rfl⟩ := upsertNode_ok hp
    unfold SerializedNode.primitive
    rw [hn]
    rfl
  · exact mapM_except_ok (fun edge p hp => upsertEdge_ok hp) hedges

/-- The properties of a folded node and of a folded edge are accepted. -/
theorem legPrimitives_accepted (h : legPrimitives embeddings graph = .ok leg) :
    (∀ node ∈ collect SerializedNode.ref graph.nodes, ∀ item ∈ node.plain, isValidPropertyValue item.2 = true) ∧
      ∀ edge ∈ collect SerializedEdge.base graph.anchoredEdges, ∀ item ∈ edge.properties, item.1 ≠ "identity" →
        isValidPropertyValue item.2 = true := by
  obtain ⟨-, -, nodes, edges, hnodes, hedges, -⟩ := legPrimitives_steps h
  refine ⟨fun node hnode item hitem => ?_, fun edge hedge item hitem hkey => ?_⟩
  · obtain ⟨p, hp⟩ := mapM_except_answers hnodes node hnode
    obtain ⟨id, -, haccept⟩ := upsertNode_accept hp
    simp only [RawPrimitive.accept, Option.bind_eq_bind, Option.bind_eq_some_iff] at haccept
    obtain ⟨-, -, -, -, map, hmap, -⟩ := haccept
    exact validateProperty_ok ((validatePropertyMap_ok (toOption_eq_some hmap)).1 item hitem)
  · obtain ⟨p, hp⟩ := mapM_except_answers hedges edge hedge
    have haccept := upsertEdge_accept hp
    simp only [RawPrimitive.accept, Option.bind_eq_bind, Option.bind_eq_some_iff] at haccept
    obtain ⟨-, -, map, hmap, -⟩ := haccept
    have hitem : item ∈ edge.properties.filter fun item => item.1 ≠ "identity" := by simp [hitem, hkey]
    exact validateProperty_ok ((validatePropertyMap_ok (toOption_eq_some hmap)).1 item hitem)

/-- A leg is nodes and edges to set, and nothing else. -/
theorem legPrimitives_upsertOnly (h : legPrimitives embeddings graph = .ok leg) : UpsertOnly leg := by
  obtain ⟨-, rfl⟩ := legPrimitives_ok h
  intro p hp
  rcases List.mem_append.1 hp with hp | hp
  · obtain ⟨node, -, rfl⟩ := List.mem_map.1 hp
    exact .inl ⟨_, _, _, rfl⟩
  · obtain ⟨edge, -, rfl⟩ := List.mem_map.1 hp
    exact .inr ⟨_, _, rfl⟩

/-- A leg with no primitives is a leg with no nodes. -/
theorem legPrimitives_eq_nil (h : legPrimitives embeddings graph = .ok leg) : leg = [] ↔ graph.nodes = [] := by
  obtain ⟨-, rfl⟩ := legPrimitives_ok h
  rw [List.append_eq_nil_iff, List.map_eq_nil_iff, List.map_eq_nil_iff, collect_eq_nil, collect_eq_nil]
  refine ⟨fun h => h.1, fun h => ⟨h, ?_⟩⟩
  unfold SerializedGraph.anchoredEdges
  rw [h]
  simp

/-! ## The content of a leg's primitives -/

theorem empty_union (p : PropertyMap) : ∅ ∪ p = p := by
  refine ExtTreeMap.ext_getElem? fun k => ?_
  rw [ExtTreeMap.getElem?_union, ExtTreeMap.getElem?_empty, Option.or_none]

theorem upsert_default (p : PropertyMap) (e : Option Embedding) : (default : NodeContent).upsert p e = ⟨p, e⟩ := by
  show (⟨∅ ∪ p, e.or none⟩ : NodeContent) = ⟨p, e⟩
  rw [empty_union, Option.or_none]

/-- The node a primitive sets. -/
def nodeOf : Primitive → Option NodeRef
  | .upsertNode n _ _ => some n
  | _ => none

/-- The edge key a primitive sets. -/
def edgeOf : Primitive → Option EdgeKey
  | .upsertEdge e _ => some e.edgeKey
  | _ => none

/-- A node set once is given what it was set to. -/
theorem legNodes_of_once {ps : List Primitive} (h : (ps.filterMap nodeOf).Nodup) {n : NodeRef} {v : NodeContent} :
    (legNodes ps)[n]? = some v ↔ .upsertNode n v.properties v.embedding ∈ ps := by
  induction ps using List.reverseRecOn generalizing n v with
  | nil => simp [legNodes]
  | append_singleton ps p ih =>
    rw [List.filterMap_append] at h
    have ih := fun {n} {v} => @ih (List.nodup_append.1 h).1 n v
    rw [legNodes_concat]
    cases p with
    | upsertNode m props e =>
      have hfresh : (legNodes ps)[m]? = none := by
        refine Option.eq_none_iff_forall_ne_some.2 fun w hw => ?_
        have hm : m ∈ ps.filterMap nodeOf := List.mem_filterMap.2 ⟨_, ih.1 hw, rfl⟩
        exact (List.nodup_append.1 h).2.2 m hm m (by simp [nodeOf]) rfl
      by_cases hmn : m = n
      · subst hmn
        dsimp only
        rw [if_pos rfl, hfresh, Option.getD_none, upsert_default]
        constructor
        · intro heq
          cases heq
          simp
        · intro hmem
          rcases List.mem_append.1 hmem with hmem | hmem
          · rw [ih.2 hmem] at hfresh
            cases hfresh
          · cases List.mem_singleton.1 hmem
            rfl
      · dsimp only
        rw [if_neg hmn, ih, List.mem_append, List.mem_singleton]
        refine ⟨.inl, fun hmem => hmem.resolve_right fun heq => ?_⟩
        cases heq
        exact hmn rfl
    | _ => simpa using ih

/-- An edge set once is given what it was set to. -/
theorem legEdges_of_once {ps : List Primitive} (h : (ps.filterMap edgeOf).Nodup) {k : EdgeKey} {q : PropertyMap} :
    (legEdges ps)[k]? = some q ↔ ∃ e : EdgeBase, e.edgeKey = k ∧ .upsertEdge e q ∈ ps := by
  induction ps using List.reverseRecOn generalizing k q with
  | nil => simp [legEdges]
  | append_singleton ps p ih =>
    rw [List.filterMap_append] at h
    have ih := fun {k} {q} => @ih (List.nodup_append.1 h).1 k q
    rw [legEdges_concat]
    cases p with
    | upsertEdge e props =>
      have hfresh : (legEdges ps)[e.edgeKey]? = none := by
        refine Option.eq_none_iff_forall_ne_some.2 fun w hw => ?_
        obtain ⟨e', heq, hmem⟩ := ih.1 hw
        have hm : e.edgeKey ∈ ps.filterMap edgeOf := List.mem_filterMap.2 ⟨_, hmem, congrArg some heq⟩
        exact (List.nodup_append.1 h).2.2 _ hm _ (by simp [edgeOf]) rfl
      by_cases hk : e.edgeKey = k
      · subst hk
        dsimp only
        rw [if_pos rfl, hfresh, Option.getD_none, empty_union]
        constructor
        · intro heq
          cases heq
          exact ⟨e, rfl, by simp⟩
        · rintro ⟨e', heq, hmem⟩
          rcases List.mem_append.1 hmem with hmem | hmem
          · rw [ih.2 ⟨e', heq, hmem⟩] at hfresh
            cases hfresh
          · cases List.mem_singleton.1 hmem
            rfl
      · dsimp only
        rw [if_neg hk, ih]
        refine ⟨fun ⟨e', heq, hmem⟩ => ⟨e', heq, List.mem_append_left _ hmem⟩, fun ⟨e', heq, hmem⟩ => ⟨e', heq, ?_⟩⟩
        rcases List.mem_append.1 hmem with hmem | hmem
        · exact hmem
        · cases List.mem_singleton.1 hmem
          exact absurd heq hk
    | _ => simpa using ih

theorem nodeOf_primitive (node : SerializedNode) :
    nodeOf (node.primitive embeddings) = some (node.ref.getD ⟨"", ""⟩) := rfl

/-- A leg sets each node once. -/
theorem legPrimitives_nodes_once (h : legPrimitives embeddings graph = .ok leg) : (leg.filterMap nodeOf).Nodup := by
  obtain ⟨hrefs, rfl⟩ := legPrimitives_ok h
  have hnodes : ((collect SerializedNode.ref graph.nodes).map (SerializedNode.primitive embeddings)).filterMap nodeOf =
      (collect SerializedNode.ref graph.nodes).map fun node => node.ref.getD ⟨"", ""⟩ := by
    rw [List.filterMap_map, ← List.filterMap_eq_map]
    rfl
  have hedges : ((collect SerializedEdge.base graph.anchoredEdges).map SerializedEdge.primitive).filterMap nodeOf = [] := by
    rw [List.filterMap_map, List.filterMap_eq_nil_iff]
    exact fun edge _ => rfl
  rw [List.filterMap_append, hnodes, hedges, List.append_nil]
  refine List.Nodup.map_on (fun a ha b hb heq => ?_) (List.Nodup.of_map _ nodup_collect)
  -- the references are all there, and one node is under each
  have hsome : ∀ c ∈ collect SerializedNode.ref graph.nodes, c.ref = some (c.ref.getD ⟨"", ""⟩) := by
    intro c hc
    obtain ⟨n, hn⟩ := Option.isSome_iff_exists.1 (hrefs c (mem_of_last (mem_collect.1 hc)).1)
    rw [hn]
    rfl
  have href : a.ref = b.ref := by rw [hsome a ha, hsome b hb, heq]
  exact List.inj_on_of_nodup_map nodup_collect ha hb href

/-- A leg sets each edge once. -/
theorem legPrimitives_edges_once (h : legPrimitives embeddings graph = .ok leg) : (leg.filterMap edgeOf).Nodup := by
  obtain ⟨-, rfl⟩ := legPrimitives_ok h
  have hnodes : ((collect SerializedNode.ref graph.nodes).map (SerializedNode.primitive embeddings)).filterMap edgeOf =
      [] := by
    rw [List.filterMap_map, List.filterMap_eq_nil_iff]
    exact fun node _ => rfl
  have hedges : ((collect SerializedEdge.base graph.anchoredEdges).map SerializedEdge.primitive).filterMap edgeOf =
      (collect SerializedEdge.base graph.anchoredEdges).map fun edge => edge.base.edgeKey := by
    rw [List.filterMap_map, ← List.filterMap_eq_map]
    rfl
  rw [List.filterMap_append, hnodes, hedges, List.nil_append]
  refine List.Nodup.map_on (fun a ha b hb heq => ?_) (List.Nodup.of_map _ nodup_collect)
  exact List.inj_on_of_nodup_map nodup_collect ha hb (EdgeBase.edgeKey_injective heq)

theorem legPrimitives_legNodes (h : legPrimitives embeddings graph = .ok leg) (n : NodeRef) :
    (legNodes leg)[n]? = (last SerializedNode.ref (some n) graph.nodes).map (SerializedNode.stored embeddings) := by
  have honce := legPrimitives_nodes_once h
  obtain ⟨hrefs, hleg⟩ := legPrimitives_ok h
  refine Option.ext fun v => ?_
  rw [legNodes_of_once honce, Option.map_eq_some_iff, hleg, List.mem_append, List.mem_map, List.mem_map]
  constructor
  · rintro (⟨node, hnode, heq⟩ | ⟨edge, -, heq⟩)
    · have hlast := mem_collect.1 hnode
      obtain ⟨m, hm⟩ := Option.isSome_iff_exists.1 (hrefs node (mem_of_last hlast).1)
      unfold SerializedNode.primitive at heq
      rw [hm, Option.getD_some, Primitive.upsertNode.injEq] at heq
      obtain ⟨rfl, hprops, hemb⟩ := heq
      rw [hm] at hlast
      refine ⟨node, hlast, ?_⟩
      cases v
      exact congrArg₂ NodeContent.mk hprops hemb
    · cases heq
  · rintro ⟨node, hlast, rfl⟩
    have href := (mem_of_last hlast).2
    refine .inl ⟨node, mem_collect.2 (by rw [href]; exact hlast), ?_⟩
    unfold SerializedNode.primitive
    rw [href]
    rfl

theorem legPrimitives_legEdges (h : legPrimitives embeddings graph = .ok leg) (e : EdgeBase) :
    (legEdges leg)[e.edgeKey]? = (last SerializedEdge.base e graph.anchoredEdges).map SerializedEdge.stored := by
  have honce := legPrimitives_edges_once h
  obtain ⟨-, hleg⟩ := legPrimitives_ok h
  refine Option.ext fun q => ?_
  rw [legEdges_of_once honce, Option.map_eq_some_iff]
  constructor
  · rintro ⟨e', heq, hmem⟩
    cases EdgeBase.edgeKey_injective heq
    rw [hleg] at hmem
    rcases List.mem_append.1 hmem with hmem | hmem
    · obtain ⟨node, -, heq⟩ := List.mem_map.1 hmem
      cases heq
    · obtain ⟨edge, hedge, heq⟩ := List.mem_map.1 hmem
      unfold SerializedEdge.primitive at heq
      rw [Primitive.upsertEdge.injEq] at heq
      obtain ⟨rfl, hq⟩ := heq
      exact ⟨edge, mem_collect.1 hedge, hq⟩
  · rintro ⟨edge, hlast, rfl⟩
    have hbase := (mem_of_last hlast).2
    refine ⟨e, rfl, ?_⟩
    rw [hleg]
    refine List.mem_append_right _ (List.mem_map.2 ⟨edge, mem_collect.2 (by rw [hbase]; exact hlast), ?_⟩)
    unfold SerializedEdge.primitive
    rw [hbase]

/-- **A graph holds a leg's primitives exactly when it holds the leg.** -/
theorem holdsExactly_iff_artifact (h : legPrimitives embeddings graph = .ok leg) (g : Graph) :
    HoldsExactly g leg ↔ HoldsArtifact embeddings g graph := by
  constructor
  · intro hex
    refine ⟨fun n => ?_, fun e => ?_, fun k hk => ?_⟩
    · rw [hex.nodes, legPrimitives_legNodes h]
    · rw [hex.edges, legPrimitives_legEdges h]
    · rw [hex.edges, slotOf_eq_zero]
      refine Option.eq_none_iff_forall_ne_some.2 fun q hq => ?_
      exact legEdges_identified hq hk
  · intro hholds
    refine ⟨ExtTreeMap.ext_getElem? fun n => ?_, fun k => ?_⟩
    · rw [hholds.nodes, legPrimitives_legNodes h]
    · cases hk : k.identity with
      | none =>
        rw [hholds.identified k hk, eq_comm, slotOf_eq_zero]
        exact Option.eq_none_iff_forall_ne_some.2 fun q hq => legEdges_identified hq hk
      | some identity =>
        have hkey : k = EdgeBase.edgeKey ⟨k.type, identity, k.source, k.target⟩ := by
          cases k
          cases hk
          rfl
        rw [hkey, hholds.edges, legPrimitives_legEdges h]

end Leg

end PolicySystem.Restore
