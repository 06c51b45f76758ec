import PolicySystem.DomainMapper.Identity

/-!
# Internal seeds

A submitted document (`internal_seed/models.py`) and the checks made of it before anything is written
(`internal_seed/persist.py`).

* `Seed.Valid`: what the checks leave of a document, and `validateAndIndex_valid`;
* `indexEdges_get`: the entry of an index where one edge has the key.
-/

namespace PolicySystem.InternalSeed

open Std (ExtTreeMap)

/-! ## The document -/

/-- `NodeLabel`. -/
inductive NodeLabel where
  | regulatoryInstrument
  | role
  | requirement
  | obligation
  | capability
  | policy
  | standard
  | control
  | practiceArea
  | riskPath
  deriving DecidableEq

def NodeLabel.name : NodeLabel → String
  | regulatoryInstrument => "RegulatoryInstrument"
  | role => "Role"
  | requirement => "Requirement"
  | obligation => "Obligation"
  | capability => "Capability"
  | policy => "Policy"
  | standard => "Standard"
  | control => "Control"
  | practiceArea => "PracticeArea"
  | riskPath => "RiskPath"

/-- `EdgeType`. -/
inductive EdgeType where
  | defines
  | expresses
  | has
  | satisfiedBy
  | requires
  | governedBy
  | supportedBy
  | implementedBy
  | verifiedBy
  | owns
  | covers
  | mitigatedBy
  deriving DecidableEq

def EdgeType.name : EdgeType → String
  | defines => "DEFINES"
  | expresses => "EXPRESSES"
  | has => "HAS"
  | satisfiedBy => "SATISFIED_BY"
  | requires => "REQUIRES"
  | governedBy => "GOVERNED_BY"
  | supportedBy => "SUPPORTED_BY"
  | implementedBy => "IMPLEMENTED_BY"
  | verifiedBy => "VERIFIED_BY"
  | owns => "OWNS"
  | covers => "COVERS"
  | mitigatedBy => "MITIGATED_BY"

/-- `_EDGE_ENDPOINT_LABELS`. -/
def EdgeType.endpointLabels : EdgeType → NodeLabel × NodeLabel
  | defines => (.regulatoryInstrument, .role)
  | expresses => (.regulatoryInstrument, .requirement)
  | has => (.role, .obligation)
  | satisfiedBy => (.requirement, .obligation)
  | requires => (.obligation, .capability)
  | governedBy => (.capability, .policy)
  | supportedBy => (.policy, .standard)
  | implementedBy => (.standard, .control)
  | verifiedBy => (.riskPath, .control)
  | covers => (.practiceArea, .capability)
  | owns => (.practiceArea, .policy)
  | mitigatedBy => (.riskPath, .capability)

/-- `SeedRef`. -/
structure SeedRef where
  label : NodeLabel
  id : String
  deriving DecidableEq

/-- `str | float`. -/
inductive SeedValue where
  | text (s : String)
  | number (d : Double)
  deriving DecidableEq

/-- `SeedNode`. -/
structure SeedNode where
  label : NodeLabel
  id : String
  properties : ExtTreeMap String SeedValue

def SeedNode.ref (n : SeedNode) : SeedRef := ⟨n.label, n.id⟩

/-- `SeedEdge`; `source` is its `from_`, `target` its `to`. -/
structure SeedEdge where
  type : EdgeType
  source : SeedRef
  target : SeedRef
  properties : ExtTreeMap String String

/-- `InternalRegulationSeed`. -/
structure Seed where
  nodes : List SeedNode
  edges : List SeedEdge

/-- The end of an edge that is checked. -/
inductive Side where
  | source
  | target
  deriving DecidableEq

/-- Why a document is refused: `InternalSeedError`, but for the `KeyError` of a lookup. -/
inductive SeedError where
  | instrumentCount (found : ℕ)
  | duplicateNode
  | undeclared (type : EdgeType) (ref : SeedRef) (side : Side)
  | wrongEndpoints (type : EdgeType) (source target : NodeLabel)
  | inbound (label : NodeLabel) (id : String) (type : EdgeType) (found : ℕ)
  | missingSourceRef (requirement : String)
  | governors (capability : String) (found : ℕ)
  | missingProperty (label : NodeLabel) (id key : String)
  | unstorableNode (label : NodeLabel) (id : String)
  | unstorableEdge (type : EdgeType) (source target : String)
  | unnameable
  | keyError
  deriving DecidableEq

/-! ## The checks -/

/-- A dict of texts. -/
abbrev Dict := ExtTreeMap String String

/-- `_SeedIndex`. -/
structure SeedIndex where
  regulatoryInstrument : SeedNode
  obligationBearer : Dict
  requirementSourceRef : Dict
  requirementObligationIds : String → List String
  policyGovernor : Dict
  standardSupporter : Dict
  controlImplementer : Dict

section Checks

variable (seed : Seed)

/-- `find_regulatory_instrument`. -/
def findRegulatoryInstrument : Except SeedError SeedNode :=
  match seed.nodes.filter fun n => n.label = .regulatoryInstrument with
  | [instrument] => .ok instrument
  | instruments => .error (.instrumentCount instruments.length)

/-- `_check_endpoint_declared`. -/
def checkEndpointDeclared (edge : SeedEdge) (ref : SeedRef) (side : Side) : Except SeedError Unit :=
  if ref ∈ seed.nodes.map SeedNode.ref then .ok () else .error (.undeclared edge.type ref side)

/-- One turn of the loop of `_check_referential_integrity`. -/
def checkEdge (edge : SeedEdge) : Except SeedError Unit := do
  checkEndpointDeclared seed edge edge.source .source
  checkEndpointDeclared seed edge edge.target .target
  if (edge.source.label, edge.target.label) = edge.type.endpointLabels then return ()
  else throw (.wrongEndpoints edge.type edge.source.label edge.target.label)

/-- `_check_referential_integrity`: a set of the keys as long as the list of nodes is a list without repetitions. -/
def checkReferentialIntegrity : Except SeedError Unit := do
  if ¬ (seed.nodes.map SeedNode.ref).Nodup then throw .duplicateNode
  seed.edges.forM (checkEdge seed)

/-- The edges of a type with a key. -/
def Seed.edgesWith (t : EdgeType) (key : SeedEdge → String) (k : String) : List SeedEdge :=
  seed.edges.filter fun e => e.type = t ∧ key e = k

/-- What a loop `found[key(edge)] = value(edge)` makes of the edges of a type. -/
def indexEdges (t : EdgeType) (key value : SeedEdge → String) : Dict :=
  (seed.edges.filter fun e => e.type = t).foldl (fun found e => found.insert (key e) (value e)) ∅

def fromId (e : SeedEdge) : String := e.source.id
def toId (e : SeedEdge) : String := e.target.id

/-- `edge.properties.get("source_ref")`; a missing one counts as an empty one. -/
def sourceRef (e : SeedEdge) : String := (e.properties["source_ref"]?).getD ""

/-- The loop that requires one inbound edge of a type for each node of a label. -/
def requireOneInbound (t : EdgeType) (label : NodeLabel) : Except SeedError Unit :=
  match seed.nodes.find? fun n => n.label = label ∧ (seed.edgesWith t toId n.id).length ≠ 1 with
  | some n => .error (.inbound label n.id t (seed.edgesWith t toId n.id).length)
  | none => .ok ()

/-- `_index_obligation_bearers`. -/
def indexObligationBearers : Except SeedError Dict := do
  requireOneInbound seed .has .obligation
  return indexEdges seed .has toId fromId

/-- `_index_requirement_source_refs`. -/
def indexRequirementSourceRefs : Except SeedError Dict := do
  match seed.edges.find? fun e => e.type = .expresses ∧ sourceRef e = "" with
  | some e => throw (.missingSourceRef e.target.id)
  | none =>
    requireOneInbound seed .expresses .requirement
    return indexEdges seed .expresses toId sourceRef

/-- `_index_policy_governors`. -/
def indexPolicyGovernors : Except SeedError Dict :=
  match seed.edges.find? fun e => e.type = .governedBy ∧ 1 < (seed.edgesWith .governedBy fromId e.source.id).length with
  | some e => .error (.governors e.source.id (seed.edgesWith .governedBy fromId e.source.id).length)
  | none => .ok (indexEdges seed .governedBy fromId toId)

/-- `_index_standard_supporters`. -/
def indexStandardSupporters : Except SeedError Dict := do
  requireOneInbound seed .supportedBy .standard
  return indexEdges seed .supportedBy toId fromId

/-- `_index_control_implementers`. -/
def indexControlImplementers : Except SeedError Dict := do
  requireOneInbound seed .implementedBy .control
  return indexEdges seed .implementedBy toId fromId

/-- `_index_requirement_obligations`, read with `.get(requirement, ())`. -/
def indexRequirementObligations (requirement : String) : List String :=
  (seed.edgesWith .satisfiedBy fromId requirement).map toId

/-- `_validate_and_index`. -/
def validateAndIndex : Except SeedError SeedIndex := do
  let instrument ← findRegulatoryInstrument seed
  checkReferentialIntegrity seed
  let bearers ← indexObligationBearers seed
  let sourceRefs ← indexRequirementSourceRefs seed
  let governors ← indexPolicyGovernors seed
  let supporters ← indexStandardSupporters seed
  let implementers ← indexControlImplementers seed
  return ⟨instrument, bearers, sourceRefs, indexRequirementObligations seed, governors, supporters, implementers⟩

end Checks

/-! ## What the checks leave -/

section Index

variable {seed : Seed} {t : EdgeType} {key value : SeedEdge → String} {k : String}

theorem foldl_insert_other {edges : List SeedEdge} (h : ∀ e ∈ edges, key e ≠ k) (found : Dict) :
    (edges.foldl (fun found e => found.insert (key e) (value e)) found)[k]? = found[k]? := by
  induction edges generalizing found with
  | nil => rfl
  | cons e edges ih =>
    have hne : key e ≠ k := h e List.mem_cons_self
    rw [List.foldl_cons, ih fun e' he' => h e' (List.mem_cons_of_mem _ he'), ExtTreeMap.getElem?_insert,
      if_neg (by simpa using hne)]

/-- Where one edge has the key, its value is the entry. -/
theorem indexEdges_get {e : SeedEdge} (h : seed.edgesWith t key k = [e]) :
    (indexEdges seed t key value)[k]? = some (value e) := by
  unfold indexEdges
  have hsame : (seed.edges.filter fun e => e.type = t).filter (fun e => key e = k) = [e] := by
    rw [List.filter_filter, ← h]
    refine List.filter_congr fun e' _ => ?_
    simp [and_comm]
  generalize seed.edges.filter (fun e => e.type = t) = edges at hsame
  generalize (∅ : Dict) = found
  induction edges generalizing found with
  | nil => simp at hsame
  | cons e' edges ih =>
    rw [List.foldl_cons]
    by_cases hkey : key e' = k
    · rw [List.filter_cons_of_pos (by simpa using hkey), List.cons.injEq] at hsame
      obtain ⟨rfl, hrest⟩ := hsame
      have hothers : ∀ f ∈ edges, key f ≠ k := by
        intro f hf
        simpa using List.filter_eq_nil_iff.1 hrest f hf
      rw [foldl_insert_other hothers, ExtTreeMap.getElem?_insert, if_pos (by simpa using hkey)]
    · rw [List.filter_cons_of_neg (by simpa using hkey)] at hsame
      exact ih hsame _

end Index

/-- **A document that passed**: one instrument, one node a key, edges between declared nodes of the right labels, one
inbound edge where one is required, and the indexes of its edges. -/
structure Seed.Valid (seed : Seed) (index : SeedIndex) : Prop where
  instrument : seed.nodes.filter (fun n => n.label = .regulatoryInstrument) = [index.regulatoryInstrument]
  nodup : (seed.nodes.map SeedNode.ref).Nodup
  declared : ∀ e ∈ seed.edges, (∃ n ∈ seed.nodes, n.ref = e.source) ∧ ∃ n ∈ seed.nodes, n.ref = e.target
  labels : ∀ e ∈ seed.edges, (e.source.label, e.target.label) = e.type.endpointLabels
  one : ∀ t ∈ [EdgeType.has, .expresses, .supportedBy, .implementedBy], ∀ n ∈ seed.nodes,
    n.label = t.endpointLabels.2 → ∃ e, seed.edgesWith t toId n.id = [e]
  sourceRefs : ∀ e ∈ seed.edges, e.type = .expresses → sourceRef e ≠ ""
  governors : ∀ e ∈ seed.edges, e.type = .governedBy → (seed.edgesWith .governedBy fromId e.source.id).length ≤ 1
  bearer : index.obligationBearer = indexEdges seed .has toId fromId
  sourceRef : index.requirementSourceRef = indexEdges seed .expresses toId sourceRef
  supporter : index.standardSupporter = indexEdges seed .supportedBy toId fromId
  implementer : index.controlImplementer = indexEdges seed .implementedBy toId fromId
  obligations : index.requirementObligationIds = indexRequirementObligations seed

section Validation

variable {seed : Seed} {index : SeedIndex}

theorem requireOneInbound_ok {t : EdgeType} {label : NodeLabel} (h : requireOneInbound seed t label = .ok ()) :
    ∀ n ∈ seed.nodes, n.label = label → ∃ e, seed.edgesWith t toId n.id = [e] := by
  unfold requireOneInbound at h
  split at h
  · cases h
  · rename_i hnone
    intro n hn hlabel
    have hcount := List.find?_eq_none.1 hnone n hn
    exact List.length_eq_one_iff.1 (by simpa [hlabel] using hcount)

theorem checkEdge_ok {e : SeedEdge} (h : checkEdge seed e = .ok ()) :
    (e.source ∈ seed.nodes.map SeedNode.ref ∧ e.target ∈ seed.nodes.map SeedNode.ref) ∧
      (e.source.label, e.target.label) = e.type.endpointLabels := by
  unfold checkEdge checkEndpointDeclared at h
  by_cases hs : e.source ∈ seed.nodes.map SeedNode.ref
  · by_cases ht : e.target ∈ seed.nodes.map SeedNode.ref
    · rw [if_pos hs, if_pos ht] at h
      refine ⟨⟨hs, ht⟩, ?_⟩
      by_contra hlabels
      simp [hlabels] at h
      cases h
    · rw [if_pos hs, if_neg ht] at h
      cases h
  · rw [if_neg hs] at h
    cases h

theorem forM_checked {α ε : Type} {f : α → Except ε Unit} {xs : List α} (h : xs.forM f = .ok ()) :
    ∀ x ∈ xs, f x = .ok () := by
  induction xs with
  | nil => simp
  | cons x xs ih =>
    change (f x >>= fun _ => xs.forM f) = .ok () at h
    obtain ⟨u, hx, hrest⟩ := bind_ok.1 h
    exact List.forall_mem_cons.2 ⟨hx, ih hrest⟩

/-- **A document that is accepted is valid.** -/
theorem validateAndIndex_valid (h : validateAndIndex seed = .ok index) : seed.Valid index := by
  unfold validateAndIndex at h
  obtain ⟨instrument, hinstrument, h⟩ := bind_ok.1 h
  obtain ⟨u, hintegrity, h⟩ := bind_ok.1 h
  obtain ⟨bearers, hbearers, h⟩ := bind_ok.1 h
  obtain ⟨sourceRefs, hsourceRefs, h⟩ := bind_ok.1 h
  obtain ⟨governors, hgovernors, h⟩ := bind_ok.1 h
  obtain ⟨supporters, hsupporters, h⟩ := bind_ok.1 h
  obtain ⟨implementers, himplementers, h⟩ := bind_ok.1 h
  cases h
  -- each of the loops, as what it leaves
  obtain ⟨_, hhas, hb⟩ := bind_ok.1 hbearers
  obtain ⟨_, hsupported, hs⟩ := bind_ok.1 hsupporters
  obtain ⟨_, himplemented, hi⟩ := bind_ok.1 himplementers
  cases hb; cases hs; cases hi
  have hrefs : (∀ e ∈ seed.edges, e.type = .expresses → InternalSeed.sourceRef e ≠ "") ∧
      requireOneInbound seed .expresses .requirement = .ok () ∧
      sourceRefs = indexEdges seed .expresses toId InternalSeed.sourceRef := by
    unfold indexRequirementSourceRefs at hsourceRefs
    split at hsourceRefs
    · cases hsourceRefs
    · rename_i hnone
      obtain ⟨_, hexpresses, hr⟩ := bind_ok.1 hsourceRefs
      cases hr
      refine ⟨fun e he ht hempty => ?_, hexpresses, rfl⟩
      exact absurd (List.find?_eq_none.1 hnone e he) (by simp [ht, hempty])
  have hgoverned : ∀ e ∈ seed.edges, e.type = .governedBy →
      (seed.edgesWith .governedBy fromId e.source.id).length ≤ 1 := by
    unfold indexPolicyGovernors at hgovernors
    split at hgovernors
    · cases hgovernors
    · rename_i hnone
      intro e he ht
      have := List.find?_eq_none.1 hnone e he
      simpa [ht] using this
  have hchecked : (seed.nodes.map SeedNode.ref).Nodup ∧ ∀ e ∈ seed.edges, checkEdge seed e = .ok () := by
    unfold checkReferentialIntegrity at hintegrity
    by_cases hnodup : (seed.nodes.map SeedNode.ref).Nodup
    · refine ⟨hnodup, forM_checked ?_⟩
      simpa [hnodup] using hintegrity
    · simp [hnodup] at hintegrity
      cases hintegrity
  refine ⟨?_, hchecked.1, fun e he => ?_, fun e he => (checkEdge_ok (hchecked.2 e he)).2, fun t ht => ?_, hrefs.1,
    hgoverned, rfl, hrefs.2.2, rfl, rfl, rfl⟩
  · unfold findRegulatoryInstrument at hinstrument
    split at hinstrument
    · rename_i found hfound
      cases hinstrument
      exact hfound
    · cases hinstrument
  · obtain ⟨hsource, htarget⟩ := (checkEdge_ok (hchecked.2 e he)).1
    exact ⟨List.mem_map.1 hsource, List.mem_map.1 htarget⟩
  · rcases List.mem_cons.1 ht with rfl | ht
    · exact requireOneInbound_ok hhas
    rcases List.mem_cons.1 ht with rfl | ht
    · exact requireOneInbound_ok hrefs.2.1
    rcases List.mem_cons.1 ht with rfl | ht
    · exact requireOneInbound_ok hsupported
    obtain rfl := List.mem_singleton.1 ht
    exact requireOneInbound_ok himplemented

end Validation

end PolicySystem.InternalSeed
