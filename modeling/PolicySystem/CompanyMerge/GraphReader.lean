import PolicySystem.Gateway.EntryCodec
import PolicySystem.Gateway.NoopFilter
import PolicySystem.Text.Binary64

/-!
# Reading a baseline graph

`read_baseline_graph` and its twenty-two fixed queries (`company_merge/graph_reader.py`), over anything that answers
them. A value is what Python reads it as; a query's parameter is the instrument id.

* `BaselineGraph.Same`: one baseline, up to the order of its rows.
-/

namespace PolicySystem.CompanyMerge

open Std (ExtTreeMap)

/-! ## The queries -/

/-- The keys of `BASELINE_QUERIES`. -/
inductive BaselineQuery where
  | regulatoryInstrument
  | role
  | requirement
  | obligation
  | capability
  | defines
  | expresses
  | has
  | satisfiedBy
  | requires
  | policy
  | standard
  | control
  | governedBy
  | supportedBy
  | implementedBy
  | practiceArea
  | riskPath
  | covers
  | owns
  | mitigatedBy
  | verifiedBy
  deriving DecidableEq

/-- What a query asks. -/
inductive QueryForm where
  /-- `MATCH (n:L {id: $regulatory_instrument_id}) RETURN n` -/
  | instrument (label : String)
  /-- `MATCH (n:L) RETURN n` -/
  | whole (label : String)
  /-- `MATCH (n:L) RETURN n.a, n.b` -/
  | columns (label : String) (names : List String)
  /-- `MATCH (r:S {id: $regulatory_instrument_id})-[e:T]->(n:L) RETURN n.id, e.source_ref` -/
  | provenance (relType sourceLabel targetLabel : String)
  /-- `MATCH (s:S)-[:T]->(t:L) RETURN s.id, t.id` -/
  | bare (relType sourceLabel targetLabel : String)
  deriving DecidableEq

/-- `BASELINE_QUERIES`. -/
def BaselineQuery.text : BaselineQuery → QueryForm
  | regulatoryInstrument => .instrument "RegulatoryInstrument"
  | role => .columns "Role" ["id", "name", "confidence", "embedding"]
  | requirement => .columns "Requirement" ["id", "text", "type", "confidence", "role_id"]
  | obligation => .columns "Obligation" ["id", "text", "confidence"]
  | capability => .columns "Capability" ["id", "name", "confidence", "description", "embedding"]
  | defines => .provenance "DEFINES" "RegulatoryInstrument" "Role"
  | expresses => .provenance "EXPRESSES" "RegulatoryInstrument" "Requirement"
  | has => .bare "HAS" "Role" "Obligation"
  | satisfiedBy => .bare "SATISFIED_BY" "Requirement" "Obligation"
  | requires => .bare "REQUIRES" "Obligation" "Capability"
  | policy => .whole "Policy"
  | standard => .whole "Standard"
  | control => .whole "Control"
  | governedBy => .bare "GOVERNED_BY" "Capability" "Policy"
  | supportedBy => .bare "SUPPORTED_BY" "Policy" "Standard"
  | implementedBy => .bare "IMPLEMENTED_BY" "Standard" "Control"
  | practiceArea => .columns "PracticeArea" ["id", "name", "status", "description", "version", "owner_id"]
  | riskPath => .columns "RiskPath" ["id", "name", "status", "description", "risk_type", "version"]
  | covers => .bare "COVERS" "PracticeArea" "Capability"
  | owns => .bare "OWNS" "PracticeArea" "Policy"
  | mitigatedBy => .bare "MITIGATED_BY" "RiskPath" "Capability"
  | verifiedBy => .bare "VERIFIED_BY" "RiskPath" "Control"

/-- A handle that answers the queries for an instrument id: the rows, each the list of its columns. -/
abbrev BaselineHandle := BaselineQuery → String → List (List PyValue)

/-! ## The baseline -/

/-- `BaselineNode`, as the reader builds it. -/
structure BaselineNode where
  id : PyValue
  properties : List (String × PyValue)
  embedding : Option (List PyValue) := none

/-- `ProvenanceEdge`. -/
structure ProvenanceEdge where
  relationshipType : String
  targetId : PyValue
  sourceRef : PyValue

/-- `BareEdge`. -/
structure BareEdge where
  relationshipType : String
  sourceId : PyValue
  targetId : PyValue

/-- `BaselineGraph`. -/
structure BaselineGraph where
  regulatoryInstrumentId : String
  regulatoryInstrumentProperties : List (String × PyValue)
  roleNodes : List BaselineNode
  requirementNodes : List BaselineNode
  obligationNodes : List BaselineNode
  capabilityNodes : List BaselineNode
  provenanceEdges : List ProvenanceEdge
  bareEdges : List BareEdge
  policyNodes : List BaselineNode
  standardNodes : List BaselineNode
  controlNodes : List BaselineNode
  governanceEdges : List BareEdge
  practiceAreaNodes : List BaselineNode
  riskPathNodes : List BaselineNode
  classificationEdges : List BareEdge

/-! ## The reads -/

/-- A column of a row; every fixed query answers rows of its own length. -/
def cell (row : List PyValue) (i : ℕ) : PyValue := row.getD i .none

/-- A property that is set only where the column is not `NULL`. -/
def optionalItem (key : String) : PyValue → List (String × PyValue)
  | .none => []
  | value => [(key, value)]

/-- `tuple(value)`. -/
def tupleItems : PyValue → List PyValue
  | .list items => items
  | .tuple items => items
  | .str s => s.toList.map fun c => .str (String.singleton c)
  | .dict items => items.map fun item => .str item.1
  | _ => []

/-- `tuple(raw_embedding) if raw_embedding is not None else None`. -/
def readEmbedding : PyValue → Option (List PyValue)
  | .none => none
  | raw => some (tupleItems raw)

/-- A row of `_read_role_nodes`. -/
def roleNode (row : List PyValue) : BaselineNode where
  id := cell row 0
  properties := [("name", cell row 1), ("confidence", cell row 2)]
  embedding := readEmbedding (cell row 3)

/-- A row of `_read_requirement_nodes`. -/
def requirementNode (row : List PyValue) : BaselineNode where
  id := cell row 0
  properties := [("text", cell row 1), ("type", cell row 2), ("confidence", cell row 3)] ++ optionalItem "role_id" (cell row 4)

/-- A row of `_read_obligation_nodes`. -/
def obligationNode (row : List PyValue) : BaselineNode where
  id := cell row 0
  properties := [("text", cell row 1), ("confidence", cell row 2)]

/-- A row of `_read_capability_nodes`. -/
def capabilityNode (row : List PyValue) : BaselineNode where
  id := cell row 0
  properties := [("name", cell row 1), ("confidence", cell row 2)] ++ optionalItem "description" (cell row 3)
  embedding := readEmbedding (cell row 4)

/-- A row of `_read_practice_area_nodes`. -/
def practiceAreaNode (row : List PyValue) : BaselineNode where
  id := cell row 0
  properties := [("name", cell row 1), ("status", cell row 2)] ++ optionalItem "description" (cell row 3) ++
    optionalItem "version" (cell row 4) ++ optionalItem "owner_id" (cell row 5)

/-- A row of `_read_risk_path_nodes`. -/
def riskPathNode (row : List PyValue) : BaselineNode where
  id := cell row 0
  properties := [("name", cell row 1), ("status", cell row 2)] ++ optionalItem "description" (cell row 3) ++
    optionalItem "risk_type" (cell row 4) ++ optionalItem "version" (cell row 5)

/-- `node.properties` of a `RETURN n` row. -/
def nodeProperties (row : List PyValue) : List (String × PyValue) :=
  match cell row 0 with
  | .dict items => items
  | _ => []

/-- `isinstance(value, str | int | float)`; a bool is an int. -/
def isPlain : PyValue → Bool
  | .str _ | .int _ | .float _ | .bool _ => true
  | _ => false

/-- A row of `_read_governance_nodes`. -/
def governanceNode (row : List PyValue) : BaselineNode where
  id := ((nodeProperties row).lookup "id").getD .none
  properties := (nodeProperties row).filter fun item => item.1 ∉ ["id", "embedding"] ∧ isPlain item.2 = true

section Read

variable (query : BaselineHandle) (instrumentId : String)

/-- `_read_regulatory_instrument_properties`. -/
def readInstrumentProperties : List (String × PyValue) :=
  match query .regulatoryInstrument instrumentId with
  | [] => []
  | row :: _ => nodeProperties row

def readProvenance (relType : String) (q : BaselineQuery) : List ProvenanceEdge :=
  (query q instrumentId).map fun row => ⟨relType, cell row 0, cell row 1⟩

def readBare (relType : String) (q : BaselineQuery) : List BareEdge :=
  (query q instrumentId).map fun row => ⟨relType, cell row 0, cell row 1⟩

/-- `read_baseline_graph`. -/
def readBaselineGraph : BaselineGraph where
  regulatoryInstrumentId := instrumentId
  regulatoryInstrumentProperties := readInstrumentProperties query instrumentId
  roleNodes := (query .role instrumentId).map roleNode
  requirementNodes := (query .requirement instrumentId).map requirementNode
  obligationNodes := (query .obligation instrumentId).map obligationNode
  capabilityNodes := (query .capability instrumentId).map capabilityNode
  provenanceEdges := readProvenance query instrumentId "DEFINES" .defines ++
    readProvenance query instrumentId "EXPRESSES" .expresses
  bareEdges := readBare query instrumentId "HAS" .has ++ readBare query instrumentId "SATISFIED_BY" .satisfiedBy ++
    readBare query instrumentId "REQUIRES" .requires
  policyNodes := (query .policy instrumentId).map governanceNode
  standardNodes := (query .standard instrumentId).map governanceNode
  controlNodes := (query .control instrumentId).map governanceNode
  governanceEdges := readBare query instrumentId "GOVERNED_BY" .governedBy ++
    readBare query instrumentId "SUPPORTED_BY" .supportedBy ++
    readBare query instrumentId "IMPLEMENTED_BY" .implementedBy
  practiceAreaNodes := (query .practiceArea instrumentId).map practiceAreaNode
  riskPathNodes := (query .riskPath instrumentId).map riskPathNode
  classificationEdges := readBare query instrumentId "COVERS" .covers ++ readBare query instrumentId "OWNS" .owns ++
    readBare query instrumentId "MITIGATED_BY" .mitigatedBy ++ readBare query instrumentId "VERIFIED_BY" .verifiedBy

end Read

/-! ## A graph's answers -/

/-- Orders in which a graph answers its nodes and its edges. -/
structure GraphScan where
  nodes : List (NodeRef × NodeContent) → List (NodeRef × NodeContent)
  nodes_perm : ∀ rows, (nodes rows).Perm rows
  edges : ScanOrder

/-- An embedding as the database answers it. -/
def embeddingPy (e : Embedding) : PyValue := .list (e.map .float)

/-- The properties of a stored node: its id, its embedding and its own. -/
def storedItems (n : NodeRef) (content : NodeContent) : List (String × PyValue) :=
  [("id", .str n.id)] ++ (content.embedding.map fun e => ("embedding", embeddingPy e)).toList ++
    content.properties.toList.map fun item => (item.1, item.2.toPy)

/-- `NULL` where there is no such property. -/
def columnOf (items : List (String × PyValue)) (name : String) : PyValue := (items.lookup name).getD .none

/-- A graph's answer to a query. -/
def QueryForm.rows (scan : GraphScan) (g : Graph) (instrumentId : String) : QueryForm → List (List PyValue)
  | .instrument label => ((scan.nodes g.nodes.toList).filter fun n => n.1 = ⟨label, instrumentId⟩).map fun n =>
    [.dict (storedItems n.1 n.2)]
  | .whole label => ((scan.nodes g.nodes.toList).filter fun n => n.1.label = label).map fun n =>
    [.dict (storedItems n.1 n.2)]
  | .columns label names => ((scan.nodes g.nodes.toList).filter fun n => n.1.label = label).map fun n =>
    names.map (columnOf (storedItems n.1 n.2))
  | .provenance relType sourceLabel targetLabel =>
    (scan.edges.order (g.edges.filter fun e =>
      e.1.type = relType ∧ e.1.source = ⟨sourceLabel, instrumentId⟩ ∧ e.1.target.label = targetLabel)).map fun e =>
        [.str e.1.target.id, (e.2["source_ref"]?.map PropertyValue.toPy).getD .none]
  | .bare relType sourceLabel targetLabel =>
    (scan.edges.order (g.edges.filter fun e =>
      e.1.type = relType ∧ e.1.source.label = sourceLabel ∧ e.1.target.label = targetLabel)).map fun e =>
        [.str e.1.source.id, .str e.1.target.id]

/-- A handle on a graph. -/
def graphHandle (scan : GraphScan) (g : Graph) : BaselineHandle := fun q instrumentId => q.text.rows scan g instrumentId

/-! ## One baseline -/

/-- The number a finite float is. -/
def doubleNumber (d : Double) : ℚ :=
  if Text.Binary64.isNegative d.bits.toNat then -Text.Binary64.magnitude d.bits.toNat
  else Text.Binary64.magnitude d.bits.toNat

/-- The number a value is to Python's `==`. -/
def pyNumber : PyValue → Option ℚ
  | .bool b => some (if b then 1 else 0)
  | .int i => some i
  | .float d => some (doubleNumber d)
  | _ => Option.none

/-- `==` of two items: the same value, or the same number. -/
def ItemEqual (v w : PyValue) : Prop := v = w ∨ ∃ q, pyNumber v = some q ∧ pyNumber w = some q

/-- `==` of two properties. -/
def ValueEqual (v w : PyValue) : Prop :=
  ItemEqual v w ∨ ∃ xs ys, v = .list xs ∧ w = .list ys ∧ List.Forall₂ ItemEqual xs ys

/-- `==` of two dicts. -/
def DictEqual (xs ys : List (String × PyValue)) : Prop :=
  ∀ key, Option.Rel ValueEqual (xs.lookup key) (ys.lookup key)

/-- `==` of two nodes. -/
structure BaselineNode.Equal (a b : BaselineNode) : Prop where
  id : a.id = b.id
  properties : DictEqual a.properties b.properties
  embedding : Option.Rel (List.Forall₂ ItemEqual) a.embedding b.embedding

/-- The same nodes, in some order. -/
def SameNodes (as bs : List BaselineNode) : Prop := ∃ cs, bs.Perm cs ∧ List.Forall₂ BaselineNode.Equal as cs

/-- **The same baseline**, up to the order of its rows. -/
structure BaselineGraph.Same (a b : BaselineGraph) : Prop where
  regulatoryInstrumentId : a.regulatoryInstrumentId = b.regulatoryInstrumentId
  regulatoryInstrumentProperties : DictEqual a.regulatoryInstrumentProperties b.regulatoryInstrumentProperties
  roleNodes : SameNodes a.roleNodes b.roleNodes
  requirementNodes : SameNodes a.requirementNodes b.requirementNodes
  obligationNodes : SameNodes a.obligationNodes b.obligationNodes
  capabilityNodes : SameNodes a.capabilityNodes b.capabilityNodes
  provenanceEdges : a.provenanceEdges.Perm b.provenanceEdges
  bareEdges : a.bareEdges.Perm b.bareEdges
  policyNodes : SameNodes a.policyNodes b.policyNodes
  standardNodes : SameNodes a.standardNodes b.standardNodes
  controlNodes : SameNodes a.controlNodes b.controlNodes
  governanceEdges : a.governanceEdges.Perm b.governanceEdges
  practiceAreaNodes : SameNodes a.practiceAreaNodes b.practiceAreaNodes
  riskPathNodes : SameNodes a.riskPathNodes b.riskPathNodes
  classificationEdges : a.classificationEdges.Perm b.classificationEdges

end PolicySystem.CompanyMerge
