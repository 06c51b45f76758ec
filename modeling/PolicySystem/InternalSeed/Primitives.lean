import PolicySystem.Cleanup.Model
import PolicySystem.InternalSeed.Minting

/-!
# The mutations of a seed

What a document writes to its two graphs (`build_native_primitives` and `build_baseline_primitives`,
`internal_seed/persist.py`): its nodes, then its edges.

* `SeedUpserts`: nodes and edges of the intake vocabulary, every edge between nodes of the group and under the identity
  its ends give it;
* `native_upserts`, `baseline_upserts`: **both groups are such.**
-/

namespace PolicySystem.InternalSeed

open Std (ExtTreeMap)
open DomainMapper PolicyLifecycle

/-! ## Properties -/

def SeedValue.toPy : SeedValue → PyValue
  | text s => .str s
  | number d => .float d

/-- `node.properties.get("confidence", _DEFAULT_CONFIDENCE)`. -/
def confidence (n : SeedNode) : String × PyValue :=
  ("confidence", ((n.properties["confidence"]?).map SeedValue.toPy).getD (.float ⟨0x3FF0000000000000⟩))

/-- The required texts of a node, what is set beside them, and the optional properties it has. -/
def nodeProperties (n : SeedNode) (required : List String) (beside : List (String × PyValue))
    (optional : List String) : Except SeedError (List (String × PyValue)) := do
  let texts ← required.mapM fun key => do return (key, PyValue.str (← requireStrProperty n key))
  return texts ++ beside ++ optional.filterMap fun key => (n.properties[key]?).map fun value => (key, value.toPy)

/-- `_regulatory_instrument_properties`. -/
def regulatoryInstrumentProperties (n : SeedNode) : Except SeedError (List (String × PyValue)) :=
  nodeProperties n ["title", "source_type", "effective_date", "version", "status"] [] ["jurisdiction"]

/-- `_role_properties`. -/
def roleProperties (n : SeedNode) : Except SeedError (List (String × PyValue)) :=
  nodeProperties n ["name"] [confidence n] ["description"]

/-- `_requirement_properties`; an ambiguous role is left out. -/
def requirementProperties (n : SeedNode) (roleId : Option String) : Except SeedError (List (String × PyValue)) :=
  nodeProperties n ["text", "type"] (confidence n :: (roleId.map fun id => ("role_id", PyValue.str id)).toList)
    ["status"]

/-- `_obligation_properties`. -/
def obligationProperties (n : SeedNode) : Except SeedError (List (String × PyValue)) :=
  nodeProperties n ["text"] [confidence n] []

/-- `_capability_properties`. -/
def capabilityProperties (n : SeedNode) : Except SeedError (List (String × PyValue)) :=
  nodeProperties n ["name"] [confidence n] ["description", "type"]

/-- `_policy_properties`. -/
def policyProperties (n : SeedNode) : Except SeedError (List (String × PyValue)) :=
  nodeProperties n ["title", "status"] []
    ["description", "owner_id", "version", "scope_in", "scope_out", "normative_commitments", "review_cadence",
      "exception_pathway", "measurable_outcomes", "capability_grouping_rationale"]

/-- `_practice_area_properties`. -/
def practiceAreaProperties (n : SeedNode) : Except SeedError (List (String × PyValue)) :=
  nodeProperties n ["name", "status"] [] ["description", "version", "owner_id"]

/-- `_risk_path_properties`. -/
def riskPathProperties (n : SeedNode) : Except SeedError (List (String × PyValue)) :=
  nodeProperties n ["name", "status"] [] ["description", "risk_type", "version"]

/-- `_standard_properties`: the governance status is its Policy's. -/
def standardProperties (n : SeedNode) (policyStatus : String) : Except SeedError (List (String × PyValue)) :=
  nodeProperties n ["title", "implementation_status"] [("status", .str policyStatus)]
    ["description", "version", "procedure", "implementer_role", "reviewer_role", "applicability_boundary",
      "verification_notes", "change_rationale"]

/-- `_control_properties`: the governance status is its Policy's. -/
def controlProperties (n : SeedNode) (policyStatus : String) : Except SeedError (List (String × PyValue)) :=
  nodeProperties n ["type", "title", "implementation_status"] [("status", .str policyStatus)]
    ["description", "execution_frequency", "last_test_date", "next_review_date", "evidence_ref", "pass_fail_criteria",
      "execution_method", "evidence_plan", "executor_role", "reviewer_role", "risk_alignment_rationale"]

/-! ## Primitives -/

/-- `_upsert_node`. -/
def upsertNode (label : NodeLabel) (id : String) (properties : List (String × PyValue)) :
    Except SeedError (NodeRef × PropertyMap) :=
  match (RawPrimitive.upsertNode label.name id properties none).accept with
  | some (.upsertNode node properties _) => .ok (node, properties)
  | _ => .error (.unstorableNode label id)

/-- `_upsert_edge`. -/
def upsertEdge (t : EdgeType) (source target : NodeLabel × String) (properties : List (String × PyValue)) :
    Except SeedError (EdgeBase × PropertyMap) :=
  let edge : RawEdge :=
    ⟨t.name, edgeIdentity t.name source.2 target.2, (source.1.name, source.2), (target.1.name, target.2)⟩
  match (RawPrimitive.upsertEdge edge properties).accept with
  | some (.upsertEdge edge properties) => .ok (edge, properties)
  | _ => .error (.unstorableEdge t source.2 target.2)

/-- `_without_dangling_edges`. -/
def withoutDanglingEdges (nodes : List (NodeRef × PropertyMap)) (edges : List (EdgeBase × PropertyMap)) :
    List (EdgeBase × PropertyMap) :=
  edges.filter fun e => e.1.source ∈ nodes.map Prod.fst ∧ e.1.target ∈ nodes.map Prod.fst

/-- Nodes, then the edges between them. -/
def seedPrimitives (nodes : List (NodeRef × PropertyMap)) (edges : List (EdgeBase × PropertyMap)) : List Primitive :=
  (nodes.map fun n => .upsertNode n.1 n.2 none) ++
    (withoutDanglingEdges nodes edges).map fun e => .upsertEdge e.1 e.2

/-- `build_native_primitives`: the submission as it is. -/
def buildNativePrimitives (seed : Seed) : Except SeedError (List Primitive) := do
  let nodes ← seed.nodes.mapM fun n => upsertNode n.label n.id (n.properties.toList.map fun p => (p.1, p.2.toPy))
  let edges ← seed.edges.mapM fun e =>
    upsertEdge e.type (e.source.label, e.source.id) (e.target.label, e.target.id)
      (e.properties.toList.map fun p => (p.1, .str p.2))
  return seedPrimitives nodes edges

/-- `_BaselineContext`. -/
structure BaselineContext where
  index : SeedIndex
  canonical : CanonicalIds
  policyStatus : Dict

/-- `_policy_status_by_local_id`. -/
def policyStatusByLocalId (seed : Seed) : Except SeedError Dict :=
  mintIds seed .policy fun n => requireStrProperty n "status"

/-- `_resolve_requirement_role_id`. -/
def resolveRequirementRoleId (index : SeedIndex) (roleIds : Dict) (requirement : String) : Option String :=
  match ((index.requirementObligationIds requirement).filterMap fun id => index.obligationBearer[id]?).dedup with
  | [bearer] => roleIds[bearer]?
  | _ => none

/-- The functions of the `_CONTENT` tables: the canonical id and the properties of a node. -/
def nodeContent (context : BaselineContext) (n : SeedNode) : Except SeedError (String × List (String × PyValue)) := do
  let id ← lookup (context.canonical.byLabel n.label) n.id
  match n.label with
  | .regulatoryInstrument => return (id, ← regulatoryInstrumentProperties n)
  | .role => return (id, ← roleProperties n)
  | .capability => return (id, ← capabilityProperties n)
  | .policy => return (id, ← policyProperties n)
  | .obligation => return (id, ← obligationProperties n)
  | .practiceArea => return (id, ← practiceAreaProperties n)
  | .riskPath => return (id, ← riskPathProperties n)
  | .requirement =>
    return (id, ← requirementProperties n (resolveRequirementRoleId context.index context.canonical.role n.id))
  | .standard =>
    let supportingPolicy ← lookup context.index.standardSupporter n.id
    return (id, ← standardProperties n (← lookup context.policyStatus supportingPolicy))
  | .control =>
    let implementedStandard ← lookup context.index.controlImplementer n.id
    let supportingPolicy ← lookup context.index.standardSupporter implementedStandard
    return (id, ← controlProperties n (← lookup context.policyStatus supportingPolicy))

/-- The labels of `_REFERENCE_CONTENT`. -/
def referenceContent : List NodeLabel := [.role, .capability, .policy, .standard, .control]

/-- The labels of `_DEPENDENT_CONTENT`. -/
def dependentContent : List NodeLabel := [.obligation, .requirement]

/-- The labels of `_CLASSIFICATION_CONTENT`. -/
def classificationContent : List NodeLabel := [.practiceArea, .riskPath]

/-- `_content_nodes`. -/
def contentNodes (seed : Seed) (context : BaselineContext) (labels : List NodeLabel) :
    Except SeedError (List (NodeRef × PropertyMap)) :=
  (seed.nodes.filter fun n => n.label ∈ labels).mapM fun n => do
    let content ← nodeContent context n
    upsertNode n.label content.1 content.2

/-- `_baseline_nodes`. -/
def baselineNodes (seed : Seed) (index : SeedIndex) (canonical : CanonicalIds) :
    Except SeedError (List (NodeRef × PropertyMap)) := do
  let context : BaselineContext := ⟨index, canonical, ← policyStatusByLocalId seed⟩
  let instrument ← upsertNode .regulatoryInstrument canonical.regulatoryInstrumentId
    (← regulatoryInstrumentProperties index.regulatoryInstrument)
  let reference ← contentNodes seed context referenceContent
  let dependent ← contentNodes seed context dependentContent
  let classification ← contentNodes seed context classificationContent
  return instrument :: (reference ++ dependent ++ classification)

/-- `canonical.resolve(ref)`. -/
def resolveOrRaise (canonical : CanonicalIds) (ref : SeedRef) : Except SeedError String :=
  match canonical.resolve ref with
  | some id => .ok id
  | none => .error .keyError

/-- Only `DEFINES` and `EXPRESSES` keep a source reference. -/
def baselineEdgeProperties (e : SeedEdge) : Except SeedError (List (String × PyValue)) :=
  if e.type = .defines ∨ e.type = .expresses then
    (lookup e.properties "source_ref").map fun value => [("source_ref", .str value)]
  else .ok []

/-- One item of `_baseline_edges`. -/
def baselineEdge (canonical : CanonicalIds) (e : SeedEdge) : Except SeedError (EdgeBase × PropertyMap) := do
  let source ← resolveOrRaise canonical e.source
  let target ← resolveOrRaise canonical e.target
  upsertEdge e.type (e.source.label, source) (e.target.label, target) (← baselineEdgeProperties e)

/-- `build_baseline_primitives`: the minted spine. -/
def buildBaselinePrimitives (seed : Seed) (index : SeedIndex) (canonical : CanonicalIds) :
    Except SeedError (List Primitive) := do
  let nodes ← baselineNodes seed index canonical
  let edges ← seed.edges.mapM (baselineEdge canonical)
  return seedPrimitives nodes edges

/-! ## What both groups are -/

/-- `SEED_NODE_LABELS`. -/
def seedNodeLabels : List String :=
  [NodeLabel.regulatoryInstrument, .role, .requirement, .obligation, .capability, .policy, .standard, .control,
    .practiceArea, .riskPath].map NodeLabel.name

/-- `SEED_EDGE_TYPES`. -/
def seedEdgeTypes : List String :=
  [EdgeType.defines, .expresses, .has, .satisfiedBy, .requires, .governedBy, .supportedBy, .implementedBy, .verifiedBy,
    .owns, .covers, .mitigatedBy].map EdgeType.name

theorem label_mem (label : NodeLabel) : label.name ∈ seedNodeLabels := by cases label <;> decide

theorem type_mem (t : EdgeType) : t.name ∈ seedEdgeTypes := by cases t <;> decide

/-- **The upserts of a submission**: nodes of the intake vocabulary, then edges of it between these nodes, each under
the identity its type and its ends give it. -/
structure SeedUpserts (nodes : List (NodeRef × PropertyMap)) (edges : List (EdgeBase × PropertyMap)) : Prop where
  label : ∀ n ∈ nodes, n.1.label ∈ seedNodeLabels
  type : ∀ e ∈ edges, e.1.type ∈ seedEdgeTypes
  identity : ∀ e ∈ edges, e.1.identity = edgeIdentity e.1.type e.1.source.id e.1.target.id
  ends : ∀ e ∈ edges, e.1.source ∈ nodes.map Prod.fst ∧ e.1.target ∈ nodes.map Prod.fst

section Forms

variable {seed : Seed}

theorem upsertNode_label {label : NodeLabel} {id : String} {properties : List (String × PyValue)}
    {n : NodeRef × PropertyMap} (h : upsertNode label id properties = .ok n) : n.1 = ⟨label.name, id⟩ := by
  unfold upsertNode at h
  split at h
  · rename_i node map embedding haccept
    cases h
    simp only [RawPrimitive.accept, Option.bind_eq_bind, Option.bind_eq_some_iff] at haccept
    obtain ⟨node', hnode, _, -, map', -, heq⟩ := haccept
    cases heq
    exact acceptNodeRef_eq hnode
  · cases h

theorem upsertEdge_form {t : EdgeType} {source target : NodeLabel × String} {properties : List (String × PyValue)}
    {e : EdgeBase × PropertyMap} (h : upsertEdge t source target properties = .ok e) :
    e.1 = ⟨t.name, edgeIdentity t.name source.2 target.2, ⟨source.1.name, source.2⟩, ⟨target.1.name, target.2⟩⟩ := by
  unfold upsertEdge at h
  dsimp only at h
  split at h
  · rename_i edge map haccept
    cases h
    simp only [RawPrimitive.accept, RawEdge.accept, Option.bind_eq_bind, Option.bind_eq_some_iff] at haccept
    obtain ⟨edge', ⟨_, -, s, hs, d, hd, hedge⟩, map', -, heq⟩ := haccept
    cases heq
    cases hedge
    rw [acceptNodeRef_eq hs, acceptNodeRef_eq hd]
  · cases h

/-- What `mapM` answers came from the list. -/
theorem mem_of_mapM {α β ε : Type} {f : α → Except ε β} {xs : List α} {ys : List β} (h : xs.mapM f = .ok ys) {y : β}
    (hy : y ∈ ys) : ∃ x ∈ xs, f x = .ok y := by
  induction xs generalizing ys with
  | nil =>
    cases h
    cases hy
  | cons x xs ih =>
    rw [List.mapM_cons] at h
    obtain ⟨first, hfirst, h⟩ := bind_ok.1 h
    obtain ⟨rest, hrest, h⟩ := bind_ok.1 h
    cases h
    rcases List.mem_cons.1 hy with rfl | hy
    · exact ⟨x, List.mem_cons_self, hfirst⟩
    · obtain ⟨x', hx', hok⟩ := ih hrest hy
      exact ⟨x', List.mem_cons_of_mem _ hx', hok⟩

/-- Edges built from edges of the vocabulary, those left that have both ends. -/
theorem seedUpserts_of {nodes : List (NodeRef × PropertyMap)} {edges : List (EdgeBase × PropertyMap)}
    (hnodes : ∀ n ∈ nodes, ∃ (label : NodeLabel) (id : String), n.1 = ⟨label.name, id⟩)
    (hedges : ∀ e ∈ edges, ∃ (t : EdgeType) (source target : NodeLabel × String),
      e.1 = ⟨t.name, edgeIdentity t.name source.2 target.2, ⟨source.1.name, source.2⟩, ⟨target.1.name, target.2⟩⟩) :
    SeedUpserts nodes (withoutDanglingEdges nodes edges) := by
  refine ⟨fun n hn => ?_, fun e he => ?_, fun e he => ?_, fun e he => ?_⟩
  · obtain ⟨label, id, heq⟩ := hnodes n hn
    rw [heq]
    exact label_mem label
  · obtain ⟨t, source, target, heq⟩ := hedges e (List.mem_filter.1 he).1
    rw [heq]
    exact type_mem t
  · obtain ⟨t, source, target, heq⟩ := hedges e (List.mem_filter.1 he).1
    rw [heq]
  · exact of_decide_eq_true (List.mem_filter.1 he).2

/-- **The group of the native graph.** -/
theorem native_upserts {ups : List Primitive} (h : buildNativePrimitives seed = .ok ups) :
    ∃ nodes edges, ups = seedPrimitives nodes edges ∧ SeedUpserts nodes (withoutDanglingEdges nodes edges) := by
  unfold buildNativePrimitives at h
  obtain ⟨nodes, hnodes, h⟩ := bind_ok.1 h
  obtain ⟨edges, hedges, h⟩ := bind_ok.1 h
  cases h
  refine ⟨nodes, edges, rfl, seedUpserts_of (fun n hn => ?_) fun e he => ?_⟩
  · obtain ⟨m, -, hm⟩ := mem_of_mapM hnodes hn
    exact ⟨m.label, m.id, upsertNode_label hm⟩
  · obtain ⟨f, -, hf⟩ := mem_of_mapM hedges he
    exact ⟨f.type, _, _, upsertEdge_form hf⟩

theorem contentNodes_form {context : BaselineContext} {labels : List NodeLabel} {nodes : List (NodeRef × PropertyMap)}
    (h : contentNodes seed context labels = .ok nodes) :
    ∀ n ∈ nodes, ∃ (label : NodeLabel) (id : String), n.1 = ⟨label.name, id⟩ := by
  intro n hn
  obtain ⟨m, -, hm⟩ := mem_of_mapM h hn
  obtain ⟨content, -, hm⟩ := bind_ok.1 hm
  exact ⟨m.label, content.1, upsertNode_label hm⟩

/-- **The group of the baseline graph.** -/
theorem baseline_upserts {index : SeedIndex} {canonical : CanonicalIds} {ups : List Primitive}
    (h : buildBaselinePrimitives seed index canonical = .ok ups) :
    ∃ nodes edges, ups = seedPrimitives nodes edges ∧ SeedUpserts nodes (withoutDanglingEdges nodes edges) := by
  unfold buildBaselinePrimitives at h
  obtain ⟨nodes, hnodes, h⟩ := bind_ok.1 h
  obtain ⟨edges, hedges, h⟩ := bind_ok.1 h
  cases h
  refine ⟨nodes, edges, rfl, seedUpserts_of (fun n hn => ?_) fun e he => ?_⟩
  · unfold baselineNodes at hnodes
    obtain ⟨status, -, hnodes⟩ := bind_ok.1 hnodes
    obtain ⟨properties, -, hnodes⟩ := bind_ok.1 hnodes
    obtain ⟨instrument, hinstrument, hnodes⟩ := bind_ok.1 hnodes
    obtain ⟨reference, hreference, hnodes⟩ := bind_ok.1 hnodes
    obtain ⟨dependent, hdependent, hnodes⟩ := bind_ok.1 hnodes
    obtain ⟨classification, hclassification, hnodes⟩ := bind_ok.1 hnodes
    cases hnodes
    rcases List.mem_cons.1 hn with rfl | hn
    · exact ⟨.regulatoryInstrument, _, upsertNode_label hinstrument⟩
    rcases List.mem_append.1 hn with hn | hn
    · rcases List.mem_append.1 hn with hn | hn
      · exact contentNodes_form hreference n hn
      · exact contentNodes_form hdependent n hn
    · exact contentNodes_form hclassification n hn
  · obtain ⟨f, -, hf⟩ := mem_of_mapM hedges he
    unfold baselineEdge at hf
    obtain ⟨source, -, hf⟩ := bind_ok.1 hf
    obtain ⟨target, -, hf⟩ := bind_ok.1 hf
    obtain ⟨properties, -, hf⟩ := bind_ok.1 hf
    exact ⟨f.type, (f.source.label, source), (f.target.label, target), upsertEdge_form hf⟩

end Forms

end PolicySystem.InternalSeed
