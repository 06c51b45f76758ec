import PolicySystem.Cleanup.GroupBuilders

/-!
# Unmerging a Capability

What a merge's audit record says to reverse, the live state an unmerge is planned against, its guard and its group
(`unmerge_planner.py`, `graph_reader.py` and `group_builders.py` of `graph_cleanup`). The preview, its snapshots and
its digest are not modelled.
-/

namespace PolicySystem

open Std (ExtTreeMap)

/-! ## What to reverse -/

/-- The fields of a `capability.merge` audit row that an unmerge reads. -/
structure CapabilityMergeDetails where
  survivorId : String
  absorbedId : String
  before : Option GraphSnapshot
  after : Option GraphSnapshot

/-- `CapabilityUnmergeInputs`. -/
structure CapabilityUnmergeInputs where
  survivorId : String
  absorbedId : String
  absorbedProperties : PropertyMap
  restore : EdgeClass → List String
  remove : EdgeClass → List String
  restorePolicyId : Option String
  removePolicyEdge : Bool

inductive UnmergeInputsError where
  /-- "the merge's audit record carries no snapshot, so it cannot be reversed" -/
  | noSnapshot
  /-- "the merge's audit record does not hold the absorbed capability, so it cannot be reversed" -/
  | noAbsorbed
  deriving DecidableEq

/-- The target of the first governing edge of a Capability. -/
def governedIn (edges : List EdgeRecord) (capabilityId : String) : Option String :=
  (edges.find? fun e => e.relType = "GOVERNED_BY" ∧ e.sourceId = capabilityId).map EdgeRecord.targetId

/-- `derive_capability_unmerge_inputs`. -/
def deriveCapabilityUnmergeInputs (details : CapabilityMergeDetails) :
    Except UnmergeInputsError CapabilityUnmergeInputs :=
  match details.before, details.after with
  | some before, some _ =>
    match before.nodes.find? fun n => n.label = "Capability" ∧ n.id = details.absorbedId with
    | none => .error .noAbsorbed
    | some absorbed =>
      let onAbsorbed (c : EdgeClass) := incomingSources before.edges c.relType details.absorbedId
      let onSurvivor (c : EdgeClass) := incomingSources before.edges c.relType details.survivorId
      let policy := governedIn before.edges details.absorbedId
      let survivorWasGoverned := (governedIn before.edges details.survivorId).isSome
      .ok {
        survivorId := details.survivorId
        absorbedId := details.absorbedId
        absorbedProperties := absorbed.properties.erase "status"
        restore := onAbsorbed
        remove := fun c => (onAbsorbed c).filter fun source => source ∉ onSurvivor c
        restorePolicyId := policy
        removePolicyEdge := policy.isSome && !survivorWasGoverned }
  | _, _ => .error .noSnapshot

/-! ## The live state -/

/-- `CapabilityUnmergeState`. -/
structure CapabilityUnmergeState where
  absorbedStatus : Option String
  survivor : Option CapabilityNodeState
  /-- `marker_targets.get(absorbed_id, ())`. -/
  absorbedTargets : List String
  /-- `marker_targets.get(survivor_id, ())`. -/
  survivorTargets : List String
  survivorEdges : List EdgeRecord
  survivorPolicyIds : List String
  existingEndpoints : EdgeClass → List String
  policyExists : Bool

/-- The `merged_into` of the `MergedCapability` markers of an id. -/
def readMarkerTargets (g : Graph) (id : String) : Option (List String) :=
  match g.nodes[(⟨"MergedCapability", id⟩ : NodeRef)]? with
  | none => some []
  | some content => (stringColumn content.properties["merged_into"]?).map fun target => [target]

/-- `read_capability_unmerge_state`; `none` where a row is refused. -/
def readCapabilityUnmergeState (scan : ScanOrder) (g : Graph) (inputs : CapabilityUnmergeInputs) :
    Option CapabilityUnmergeState := do
  let survivor ← readNode g "Capability" inputs.survivorId (nodeState inputs.survivorId)
  let absorbed ← readNode g "Capability" inputs.absorbedId (nodeState inputs.absorbedId)
  let absorbedTargets ← readMarkerTargets g inputs.absorbedId
  let survivorTargets ← readMarkerTargets g inputs.survivorId
  return {
    absorbedStatus := absorbed.map CapabilityNodeState.status
    survivor, absorbedTargets, survivorTargets
    survivorEdges := EdgeClass.all.flatMap fun c => edgeRows scan g c.pattern fun e => e.targetId = inputs.survivorId
    survivorPolicyIds := sortedList ((edgeRows scan g governorPattern fun e => e.sourceId = inputs.survivorId).map
      EdgeRecord.targetId)
    existingEndpoints := fun c =>
      sortedList ((inputs.restore c).filter fun id => (⟨c.sourceLabel, id⟩ : NodeRef) ∈ g.nodes)
    policyExists := inputs.restorePolicyId.all fun id => decide ((⟨"Policy", id⟩ : NodeRef) ∈ g.nodes) }

/-! ## Planning -/

/-- What `plan_capability_unmerge` refuses. -/
inductive CapabilityUnmergeError where
  /-- "capability ... already exists again; nothing to unmerge" -/
  | existsAgain
  /-- "capability ... exists with status ...; reset and re-ingest the graph, it cannot be unmerged" -/
  | existsWithStatus (status : String)
  /-- "capability ... was merged into ..., but its marker now points at ..., ..." -/
  | repointed (targets : List String)
  /-- "capability ... has no MergedCapability marker; there is nothing to unmerge" -/
  | noMarker
  /-- "the survivor capability ... no longer exists (it was merged into ...), so the merge cannot be reversed" -/
  | survivorMissing (movedTo : List String)
  /-- "the survivor capability ... is no longer active (status ...), so the merge cannot be reversed" -/
  | survivorNotActive (status : String)
  /-- "... no longer exists (it may have been merged into another node or removed), ..." -/
  | endpointsMissing (ids : List String)
  /-- "policy ... that governed ... no longer exists" -/
  | policyMissing (policyId : String)
  /-- "the survivor's governance changed since the merge: ..." -/
  | governanceChanged (now : List String)
  deriving DecidableEq

/-- `CapabilityUnmergeWrite`. -/
structure CapabilityUnmergeWrite where
  restore : EdgeClass → List String
  remove : EdgeClass → List String
  restorePolicyId : Option String
  removePolicyEdge : Bool
  properties : PropertyMap

/-- `_check_marker_state`. -/
def checkMarkerState (inputs : CapabilityUnmergeInputs) (state : CapabilityUnmergeState) :
    Except CapabilityUnmergeError Unit :=
  match state.absorbedStatus with
  | some status => .error (if status = "active" then .existsAgain else .existsWithStatus status)
  | none =>
    if inputs.survivorId ∈ state.absorbedTargets then .ok ()
    else .error (if state.absorbedTargets = [] then .noMarker else .repointed state.absorbedTargets)

/-- `_check_survivor`. -/
def checkSurvivor (state : CapabilityUnmergeState) : Except CapabilityUnmergeError Unit :=
  match state.survivor with
  | none => .error (.survivorMissing state.survivorTargets)
  | some survivor => refuseIf (survivor.status ≠ "active") (.survivorNotActive survivor.status)

/-- The endpoints to restore that are gone, sorted. -/
def missingEndpoints (inputs : CapabilityUnmergeInputs) (state : CapabilityUnmergeState) : List String :=
  sortedIds (EdgeClass.all.flatMap fun c =>
    (inputs.restore c).filter fun id => id ∉ state.existingEndpoints c).toFinset

/-- `_check_endpoints`. -/
def checkEndpoints (inputs : CapabilityUnmergeInputs) (state : CapabilityUnmergeState) :
    Except CapabilityUnmergeError Unit :=
  refuseIf (missingEndpoints inputs state ≠ []) (.endpointsMissing (missingEndpoints inputs state))

/-- `_check_governance`. -/
def checkGovernance (inputs : CapabilityUnmergeInputs) (state : CapabilityUnmergeState) :
    Except CapabilityUnmergeError Unit :=
  match inputs.restorePolicyId with
  | none => .ok ()
  | some policyId => do
    refuseIf (state.policyExists = false) (.policyMissing policyId)
    refuseIf (sortedList state.survivorPolicyIds ≠ [policyId]) (.governanceChanged (sortedList state.survivorPolicyIds))

/-- `plan_capability_unmerge`, its write: what was to be removed and still is on the survivor is removed. -/
def planCapabilityUnmerge (inputs : CapabilityUnmergeInputs) (state : CapabilityUnmergeState) :
    Except CapabilityUnmergeError CapabilityUnmergeWrite := do
  checkMarkerState inputs state
  checkSurvivor state
  checkEndpoints inputs state
  checkGovernance inputs state
  return {
    restore := inputs.restore
    remove := fun c => (inputs.remove c).filter fun source =>
      source ∈ incomingSources state.survivorEdges c.relType inputs.survivorId
    restorePolicyId := inputs.restorePolicyId
    removePolicyEdge := inputs.removePolicyEdge
    properties := inputs.absorbedProperties.insert "status" (.scalar (.str "active")) }

/-! ## The write -/

/-- `capability_unmerge_guard_holds`. -/
def capabilityUnmergeGuardHolds (state : CapabilityUnmergeState) (write : CapabilityUnmergeWrite)
    (survivorId : String) : Bool :=
  state.absorbedStatus.isNone && (state.survivor.any fun s => s.status = "active") &&
    survivorId ∈ state.absorbedTargets &&
    (EdgeClass.all.all fun c =>
      ((write.restore c).all fun id => id ∈ state.existingEndpoints c) &&
        (write.remove c).all fun source => source ∈ incomingSources state.survivorEdges c.relType survivorId) &&
    (write.restorePolicyId.isNone || state.policyExists) &&
    !(write.removePolicyEdge && state.survivorPolicyIds.count (write.restorePolicyId.getD "") ≠ 1)

/-- `DeleteEdge` by the standard identity. -/
def deleteRecord (e : EdgeRecord) : RawPrimitive := .deleteEdge e.raw

/-- The governing edge comes back, and leaves the survivor where the merge had moved it. -/
def governedPrimitives (write : CapabilityUnmergeWrite) (absorbedId survivorId : String) : List RawPrimitive :=
  match write.restorePolicyId with
  | none => []
  | some policyId => [upsertRecord (governedBy absorbedId policyId)] ++
      if write.removePolicyEdge then [deleteRecord (governedBy survivorId policyId)] else []

/-- The primitives `build_capability_unmerge_group` constructs. -/
def capabilityUnmergePrimitives (write : CapabilityUnmergeWrite) (absorbedId survivorId : String) : List RawPrimitive :=
  [.upsertNode "Capability" absorbedId (propertiesPy write.properties) none] ++
    (EdgeClass.all.flatMap fun c => (write.restore c).map fun source => upsertRecord (classEdge c source absorbedId)) ++
    (EdgeClass.all.flatMap fun c => (write.remove c).map fun source => deleteRecord (classEdge c source survivorId)) ++
    governedPrimitives write absorbedId survivorId ++
    [.deleteNode "MergedCapability" absorbedId]

end PolicySystem
