import PolicySystem.Cleanup.GraphReader
import PolicySystem.Faults.RelyGuarantee
import PolicySystem.Gateway.Replace

/-!
# Reads and groups of the Policy lifecycle

What the lifecycle reads of the policy graph and the groups it submits (`policy_lifecycle/graph_writer.py`,
`policy_lifecycle/graph_submission.py`, `domain_schema`, `domain_mapper/identity.py`). A query reads one state of the
graph and a group is logged and applied in one step; between two of them other calls take theirs.

* `Gateway.carry`: what a submitted group does, and how it is answered;
* `mem_treeNodes`: the nodes of a Policy's tree are those its `SUPPORTED_BY` and `IMPLEMENTED_BY` edges reach.
-/

namespace PolicySystem.PolicyLifecycle

open Std (ExtTreeMap)
open Interleaved

/-! ## The graph and its log -/

/-- The policy graph with the last position of its log. -/
structure GraphState where
  graph : Graph
  position : ℕ

/-- A caller, `(subject, issuer)`. -/
structure Actor where
  subject : String
  issuer : String
  deriving DecidableEq

/-- The audited moves of a Policy's status. -/
inductive Transition where
  | propose
  | approve
  | reject
  | revert
  | autoDeprecate
  deriving DecidableEq

/-- What a call submits a group for: the action and actor of the audit row it is linked to, or the unaudited write and
the node whose status its gate read. -/
inductive Purpose where
  | stamp
  | backfill (policyId : String)
  | create (actor : Actor) (policyId : String)
  | transition (action : Transition) (actor : Actor) (policyId : String)
  | edit (gate : NodeRef)
  deriving DecidableEq

/-- A `MutationGroup` with its `ExpectedPosition`, where it has one. -/
structure Group where
  purpose : Purpose
  primitives : List Primitive
  expected : Option ℕ

/-- How a submit ends: applied; committed but reported as failed; `StaleGroupError`; or refused with nothing logged. -/
inductive Answer where
  | applied
  | unknown
  | stale
  | refused
  deriving DecidableEq

/-- The row order of the queries and the names a stamp may use. -/
structure Gateway where
  scan : ScanOrder
  allow : AllowList

/-- The graph and the log after a group, where the gateway takes it. -/
def Gateway.commit (gw : Gateway) (s : GraphState) (group : Group) : Option GraphState :=
  if group.expected.all (· = s.position) then
    match selectEffectivePrimitives gw.scan s.graph group.primitives with
    | .error _ => none
    | .ok effective => some ⟨applyAll s.graph group.primitives, s.position + effective.length⟩
  else none

/-- **One submit.** The answer is the environment's, as far as the gateway can give it. -/
def Gateway.carry (gw : Gateway) (s : GraphState) (group : Group) : Answer → Option GraphState
  | .applied => gw.commit s group
  | .unknown => gw.commit s group
  | .stale => if group.expected.any (· ≠ s.position) then some s else none
  | .refused => some s

/-- A lifecycle call over the graph. -/
abbrev Call := Flow GraphState Group Answer

/-! ## Identities -/

/-- Python's `str.lower` and the first six hex digits of SHA-1. -/
structure Hashing where
  lower : String → String
  hash : String → String

/-- `_slug`: the runs of `[a-z0-9]`, joined by underscores. -/
def Hashing.slug (h : Hashing) (text : String) : String :=
  let alnum (c : Char) : Bool := ('a' ≤ c && c ≤ 'z') || ('0' ≤ c && c ≤ '9')
  let runs := (((h.lower text).toList.splitOnP fun c => !alnum c).filter fun run => run ≠ []).map String.ofList
  "_".intercalate runs

/-- `policy_id`. -/
def Hashing.policyId (h : Hashing) (title : String) (prior : Option String) : String :=
  match prior with
  | none => "pol_" ++ h.slug title ++ "_" ++ h.hash (h.lower title)
  | some prior => "pol_" ++ h.slug title ++ "_" ++ h.hash (prior ++ ":" ++ h.lower title)

/-- `standard_id`. -/
def Hashing.standardId (h : Hashing) (policyId title : String) : String :=
  "std_" ++ h.slug title ++ "_" ++ h.hash (policyId ++ ":" ++ h.lower title)

/-- `control_id`. -/
def Hashing.controlId (h : Hashing) (standardId title : String) : String :=
  "ctrl_" ++ h.slug title ++ "_" ++ h.hash (standardId ++ ":" ++ h.lower title)

/-! ## Reads -/

def text (s : String) : PropertyValue := .scalar (.str s)

def policyRef (id : String) : NodeRef := ⟨"Policy", id⟩
def standardRef (id : String) : NodeRef := ⟨"Standard", id⟩
def controlRef (id : String) : NodeRef := ⟨"Control", id⟩
def capabilityRef (id : String) : NodeRef := ⟨"Capability", id⟩

/-- The stored properties of a node; none where it does not exist. -/
def columns (g : Graph) (n : NodeRef) : PropertyMap := (g.nodes[n]?.map NodeContent.properties).getD ∅

def supportedByPattern : EdgePattern := ⟨"SUPPORTED_BY", "Policy", "Standard"⟩
def implementedByPattern : EdgePattern := ⟨"IMPLEMENTED_BY", "Standard", "Control"⟩
def supersededByPattern : EdgePattern := ⟨"SUPERSEDED_BY", "Policy", "Policy"⟩

section Reads

variable (scan : ScanOrder) (g : Graph)

/-- `(:Policy {id})-[:SUPPORTED_BY]->(s:Standard)`. -/
def standardsOf (policyId : String) : List String :=
  (edgeRows scan g supportedByPattern fun e => e.sourceId = policyId).map EdgeRecord.targetId

/-- `(:Standard {id})-[:IMPLEMENTED_BY]->(c:Control)`. -/
def controlsOf (standardId : String) : List String :=
  (edgeRows scan g implementedByPattern fun e => e.sourceId = standardId).map EdgeRecord.targetId

/-- `OPTIONAL MATCH`: one row without the element where nothing matches. -/
def optionalMatch (ids : List String) : List (Option String) :=
  if ids = [] then [none] else ids.map some

/-- The Standard and Control columns of the rows of a tree query. -/
def treeRows (policyId : String) : List (Option String × Option String) :=
  (optionalMatch (standardsOf scan g policyId)).flatMap fun
    | none => [(none, none)]
    | some s => (optionalMatch (controlsOf scan g s)).map fun c => (some s, c)

/-- The Standards of the rows in the order of their first row, each with the Controls of its rows. -/
def groupRows (rows : List (Option String × Option String)) : List (String × List String) :=
  (rows.filterMap Prod.fst).eraseDups.map fun s =>
    (s, rows.filterMap fun row => if row.1 = some s then row.2 else none)

/-- `ControlRecord`. -/
structure ControlRecord where
  id : String
  title : Option PropertyValue
  status : Option PropertyValue
  controlType : Option PropertyValue

/-- `StandardRecord`. -/
structure StandardRecord where
  id : String
  title : Option PropertyValue
  status : Option PropertyValue
  controls : List ControlRecord

/-- `PolicyRecord`. -/
structure PolicyRecord where
  id : String
  title : Option PropertyValue
  status : Option PropertyValue
  version : Option PropertyValue
  ownerSubject : Option PropertyValue
  ownerIssuer : Option PropertyValue
  standards : List StandardRecord

def readControl (id : String) : ControlRecord :=
  let control := columns g (controlRef id)
  ⟨id, control["title"]?, control["status"]?, control["type"]?⟩

def readStandard (entry : String × List String) : StandardRecord :=
  let standard := columns g (standardRef entry.1)
  ⟨entry.1, standard["title"]?, standard["status"]?, entry.2.map (readControl g)⟩

/-- `read_policy_tree`. -/
def readPolicyTree (policyId : String) : Option PolicyRecord :=
  g.nodes[policyRef policyId]?.map fun p =>
    ⟨policyId, p.properties["title"]?, p.properties["status"]?, p.properties["version"]?,
      p.properties["owner_subject"]?, p.properties["owner_issuer"]?,
      (groupRows (treeRows scan g policyId)).map (readStandard g)⟩

/-- The nodes of the tree, the Policy first. -/
def PolicyRecord.treeNodes (r : PolicyRecord) : List NodeRef :=
  policyRef r.id :: r.standards.flatMap fun s => standardRef s.id :: s.controls.map fun c => controlRef c.id

/-- `find_existing_policy`: its title. -/
def findExistingPolicy (policyId : String) : Option (Option PropertyValue) :=
  g.nodes[policyRef policyId]?.map fun p => p.properties["title"]?

/-- `find_approved_prior`. -/
def findApprovedPrior (successor : String) : Option String :=
  ((edgeRows scan g supersededByPattern fun e => e.targetId = successor).map EdgeRecord.sourceId).find? fun prior =>
    (columns g (policyRef prior))["status"]? = some (text "approved")

/-- `ForkGovernance`. -/
structure ForkGovernance where
  priorId : String
  capabilityIds : List String

/-- `read_fork_governance`: the first prior, with the Capabilities of all its rows. -/
def readForkGovernance (policyId : String) : Option ForkGovernance :=
  let priors := (edgeRows scan g supersededByPattern fun e => e.targetId = policyId).map EdgeRecord.sourceId
  priors.head?.map fun prior =>
    ⟨prior, (priors.filter (· = prior)).flatMap fun _ =>
      (edgeRows scan g governorPattern fun e => e.targetId = prior).map EdgeRecord.sourceId⟩

/-- One entry of `read_capability_governors`; the outer `none` is a Capability that does not exist. -/
def readCapabilityGovernor (capabilityId : String) : Option (Option String) :=
  g.nodes[capabilityRef capabilityId]?.map fun _ =>
    ((edgeRows scan g governorPattern fun e => e.sourceId = capabilityId).map EdgeRecord.targetId).head?

/-- `StandardWithParent`. -/
structure StandardWithParent where
  policyId : String
  policyOwnerSubject : Option PropertyValue
  policyOwnerIssuer : Option PropertyValue
  policyStatus : Option PropertyValue
  standardStatus : Option PropertyValue
  standardTitle : Option PropertyValue

/-- `find_standard_with_parent`. -/
def findStandardWithParent (standardId : String) : Option StandardWithParent :=
  (edgeRows scan g supportedByPattern fun e => e.targetId = standardId).head?.map fun e =>
    let policy := columns g (policyRef e.sourceId)
    let standard := columns g (standardRef standardId)
    ⟨e.sourceId, policy["owner_subject"]?, policy["owner_issuer"]?, policy["status"]?, standard["status"]?,
      standard["title"]?⟩

/-- `ControlWithParent`. -/
structure ControlWithParent where
  standardId : String
  policyId : String
  policyOwnerSubject : Option PropertyValue
  policyOwnerIssuer : Option PropertyValue
  policyStatus : Option PropertyValue
  controlStatus : Option PropertyValue
  controlTitle : Option PropertyValue

/-- `find_control_with_parent`. -/
def findControlWithParent (controlId : String) : Option ControlWithParent :=
  ((edgeRows scan g implementedByPattern fun e => e.targetId = controlId).flatMap fun i =>
    (edgeRows scan g supportedByPattern fun e => e.targetId = i.sourceId).map fun e =>
      let policy := columns g (policyRef e.sourceId)
      let control := columns g (controlRef controlId)
      (⟨i.sourceId, e.sourceId, policy["owner_subject"]?, policy["owner_issuer"]?, policy["status"]?,
        control["status"]?, control["title"]?⟩ : ControlWithParent)).head?

/-- A forked node: what it holds, with the title as the copy takes it. -/
structure ForkedNode where
  title : Option PropertyValue
  content : NodeContent

def readForked (n : NodeRef) : ForkedNode :=
  let content := g.nodes[n]?.getD default
  ⟨content.properties["title"]?, content⟩

/-- `read_policy_tree_for_fork`: each Standard with its Controls. -/
def readPolicyTreeForFork (policyId : String) : List (ForkedNode × List ForkedNode) :=
  (groupRows (treeRows scan g policyId)).map fun entry =>
    (readForked g (standardRef entry.1), entry.2.map fun c => readForked g (controlRef c))

end Reads

/-! ## Groups -/

def statusIs (status : PropertyValue) : PropertyMap := (∅ : PropertyMap).insert "status" status

/-- The Standards and Controls of the rows without a status, each once. -/
def unsetNodes (g : Graph) (rows : List (Option String × Option String)) : List NodeRef :=
  ((rows.flatMap fun row => (row.1.map standardRef).toList ++ (row.2.map controlRef).toList).filter fun n =>
    (columns g n)["status"]? = none).eraseDups

/-- What `backfill_governance_status` submits. -/
def backfillPrimitives (scan : ScanOrder) (g : Graph) (policyId : String) : List Primitive :=
  match g.nodes[policyRef policyId]? with
  | none => []
  | some p =>
    (if p.properties["version"]? = none then
      [.mergeProperty (policyRef policyId) ((∅ : PropertyMap).insert "version" (text "1"))] else []) ++
    match p.properties["status"]? with
    | none => []
    | some status => (unsetNodes g (treeRows scan g policyId)).map fun n => .mergeProperty n (statusIs status)

/-- A `MergeProperty status` for each node. -/
def statusMerges (target : String) (nodes : List NodeRef) : List Primitive :=
  nodes.map fun n => .mergeProperty n (statusIs (text target))

/-- `_cascade_primitives`. -/
def cascadePrimitives (scan : ScanOrder) (g : Graph) (policyId target : String) : List Primitive :=
  match readPolicyTree scan g policyId with
  | none => []
  | some r => statusMerges target r.treeNodes.eraseDups

/-- An edge under the identity every writer gives it. -/
def edgeBetween (type : String) (source target : NodeRef) : EdgeBase :=
  ⟨type, edgeIdentity type source.id target.id, source, target⟩

/-- `ControlDraft`; the extra properties with the embedding they may hold. -/
structure ControlDraft where
  id : String
  title : String
  controlType : PropertyValue
  extra : NodeContent

/-- `StandardDraft`. -/
structure StandardDraft where
  id : String
  title : String
  controls : List ControlDraft
  extra : NodeContent

/-- `_child_primitives`. -/
def childPrimitives (parent child : NodeRef) (properties : PropertyMap) (edgeType : String) : List Primitive :=
  [.upsertNode child properties none, .upsertEdge (edgeBetween edgeType parent child) ∅]

def ControlDraft.properties (c : ControlDraft) : PropertyMap :=
  ((c.extra.properties.insert "title" (text c.title)).insert "type" c.controlType).insert "status" (text "draft")

def StandardDraft.properties (s : StandardDraft) : PropertyMap :=
  (s.extra.properties.insert "title" (text s.title)).insert "status" (text "draft")

def StandardDraft.primitives (policyId : String) (s : StandardDraft) : List Primitive :=
  childPrimitives (policyRef policyId) (standardRef s.id) s.properties "SUPPORTED_BY" ++
    s.controls.flatMap fun c => childPrimitives (standardRef s.id) (controlRef c.id) c.properties "IMPLEMENTED_BY"

/-- What `_create_primitives` is given. -/
structure NewPolicy where
  policyId : String
  title : String
  owner : Actor
  standards : List StandardDraft
  supersedes : Option String
  version : String

/-- The properties of a new Policy. -/
def NewPolicy.properties (new : NewPolicy) : PropertyMap :=
  ((((∅ : PropertyMap).insert "title" (text new.title)).insert "status" (text "draft")).insert "version"
    (text new.version)).insert "owner_subject" (text new.owner.subject) |>.insert "owner_issuer" (text new.owner.issuer)

/-- A value the gateway cannot store: only a copied embedding, under a reserved key. -/
def NewPolicy.storable (new : NewPolicy) : Bool :=
  new.standards.all fun s => s.extra.embedding.isNone && s.controls.all fun c => c.extra.embedding.isNone

/-- `_create_primitives`. -/
def NewPolicy.primitives (new : NewPolicy) : List Primitive :=
  .upsertNode (policyRef new.policyId) new.properties none ::
    (new.supersedes.map fun prior =>
      .upsertEdge (edgeBetween "SUPERSEDED_BY" (policyRef prior) (policyRef new.policyId)) ∅).toList ++
    new.standards.flatMap (StandardDraft.primitives new.policyId)

/-- The `GOVERNED_BY` edges a draft claims. -/
def claimPrimitives (policyId : String) (capabilityIds : List String) : List Primitive :=
  capabilityIds.map fun c => .upsertEdge (edgeBetween "GOVERNED_BY" (capabilityRef c) (policyRef policyId)) ∅

/-- The move of the governed Capabilities from a prior to its successor. -/
def repointPrimitives (policyId priorId : String) (capabilityIds : List String) : List Primitive :=
  (capabilityIds.eraseDups.map fun c =>
    .deleteEdge (edgeBetween "GOVERNED_BY" (capabilityRef c) (policyRef priorId))) ++
  claimPrimitives policyId capabilityIds.eraseDups

/-! ## Content fields -/

/-- One property of a node of the domain schema. -/
structure SchemaProperty where
  name : String
  isIdentityBearing : Bool := false
  isLifecycleManaged : Bool := false

/-- The properties the schema declares for the labels of the lifecycle. -/
def schemaProperties : String → List SchemaProperty
  | "Policy" =>
    [{ name := "title", isIdentityBearing := true }, { name := "description" },
      { name := "owner_id", isIdentityBearing := true }, { name := "owner_subject", isIdentityBearing := true },
      { name := "owner_issuer", isIdentityBearing := true }, { name := "status", isLifecycleManaged := true },
      { name := "version", isLifecycleManaged := true }, { name := "scope_in" }, { name := "scope_out" },
      { name := "normative_commitments" }, { name := "review_cadence" }, { name := "exception_pathway" },
      { name := "measurable_outcomes" }, { name := "capability_grouping_rationale" }]
  | "Standard" =>
    [{ name := "title", isIdentityBearing := true }, { name := "description" }, { name := "implementation_status" },
      { name := "status", isLifecycleManaged := true }, { name := "version", isLifecycleManaged := true },
      { name := "procedure" }, { name := "implementer_role" }, { name := "reviewer_role" },
      { name := "applicability_boundary" }, { name := "verification_notes" }, { name := "change_rationale" }]
  | "Control" =>
    [{ name := "type" }, { name := "title", isIdentityBearing := true }, { name := "description" },
      { name := "implementation_status" }, { name := "status", isLifecycleManaged := true },
      { name := "execution_frequency" }, { name := "last_test_date" }, { name := "next_review_date" },
      { name := "evidence_ref" }, { name := "pass_fail_criteria" }, { name := "execution_method" },
      { name := "evidence_plan" }, { name := "executor_role" }, { name := "reviewer_role" },
      { name := "risk_alignment_rationale" }]
  | _ => []

/-- `patchable_fields`. -/
def patchableFields (label : String) : List String :=
  ((schemaProperties label).filter fun p => !(p.isIdentityBearing || p.isLifecycleManaged)).map SchemaProperty.name

/-- A `fields` model of the boundary: a value or a null for some of the patchable fields of a label, no key twice. -/
structure ContentFields (label : String) where
  fields : List (String × Option String)
  nodup : (fields.map Prod.fst).Nodup
  patchable : ∀ f ∈ fields, f.1 ∈ patchableFields label

/-- The fields with a value. -/
def ContentFields.values {label : String} (fields : ContentFields label) : PropertyMap :=
  ExtTreeMap.ofList (fields.fields.filterMap fun f => f.2.map fun v => (f.1, text v))

/-- The fields to clear. -/
def ContentFields.nullKeys {label : String} (fields : ContentFields label) : List String :=
  fields.fields.filterMap fun f => if f.2 = none then some f.1 else none

/-- `_patch_primitives`. -/
def patchPrimitives {label : String} (id : String) (fields : ContentFields label) : List Primitive :=
  (if fields.values.isEmpty then [] else [.mergeProperty ⟨label, id⟩ fields.values]) ++
  (if fields.nullKeys = [] then [] else [.removeProperty ⟨label, id⟩ fields.nullKeys])

/-- The properties `add_standard_to_policy` writes. -/
def newStandardProperties (title : String) (fields : ContentFields "Standard") : PropertyMap :=
  let given := fields.values.insertIfNew "implementation_status" (text "draft")
  (given.insert "title" (text title)).insert "status" (text "draft")

/-- The properties `add_control_to_standard` writes. -/
def newControlProperties (title controlType : String) (fields : ContentFields "Control") : PropertyMap :=
  let given := fields.values.insertIfNew "implementation_status" (text "planned")
  ((given.insert "title" (text title)).insert "type" (text controlType)).insert "status" (text "draft")

/-- `add_standard_to_policy`. -/
def addStandardPrimitives (policyId standardId title : String) (fields : ContentFields "Standard") : List Primitive :=
  childPrimitives (policyRef policyId) (standardRef standardId) (newStandardProperties title fields) "SUPPORTED_BY"

/-- `add_control_to_standard`. -/
def addControlPrimitives (standardId controlId title controlType : String) (fields : ContentFields "Control") :
    List Primitive :=
  childPrimitives (standardRef standardId) (controlRef controlId) (newControlProperties title controlType fields)
    "IMPLEMENTED_BY"

end PolicySystem.PolicyLifecycle
