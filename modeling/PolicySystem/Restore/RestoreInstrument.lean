import Mathlib.Data.List.Sort
import PolicySystem.Gateway.Reachable
import PolicySystem.Restore.LegPrimitives

/-!
# Restoring an instrument

`restore/restore_instrument.py` and `restore/graph_submission.py`: an artifact verified, its legs built and
submitted as one group.

* `prepare`, `contentLegs`: the artifact verified, the native and the baseline leg each where it has content;
* `restoreGroup`: a group over the legs that are there, or a group on `policy_system` alone;
* `commitRestore`: attempts, until one is not refused as stale.
-/

namespace PolicySystem.Restore

open Faults Proc GraphWrite

/-! ## Artifacts -/

/-- `InstrumentManifest`. -/
structure InstrumentManifest where
  instrumentId : String
  shortName : String
  schemaVersion : String
  baselineSha256 : String
  nativeSha256 : String

/-- `RestoreArtifact`. -/
structure RestoreArtifact (Blob : Type) where
  manifest : InstrumentManifest
  nativeBlob : Blob
  baselineBlob : Blob

/-- `PolicySystemLeg`: never without a primitive, since the instrument's own upsert comes first. -/
structure PolicySystemLeg where
  primitives : List Primitive
  nonempty : primitives ≠ []

/-- What a restore uses of its surroundings: SHA-256 over a blob, `json.loads`, `str.lower`, how a float tuple is
validated, and the merge that builds the leg of `policy_system` over the graph it reads. -/
structure RestoreRuntime (Blob : Type) where
  checksumBytes : Blob → String
  loads : Blob → Option PyValue
  lower : String → String
  embeddings : EmbeddingReader
  buildPolicySystemLeg : SerializedGraph → String → Option (String × String) → Graph → Option PolicySystemLeg

/-- The exceptions of a restore. -/
inductive RestoreError where
  | artifactIntegrity (blob : String)
  | schemaVersionMismatch (version : String)
  /-- `parse_serialized_graph_json` raises. -/
  | malformedBlob
  | contentRejected (why : ContentRejection)
  | ownerRequired
  /-- `build_policy_system_leg` raises. -/
  | mergeFailed
  /-- "a multi-graph group names each graph once" -/
  | invalidGroup
  | stale
  | concurrencyConflict
  | groupRejected
  | graphWriteFailed
  | applyPending
  /-- What is not translated. -/
  | gateway (e : Err)
  deriving DecidableEq

/-- A program of a restore. -/
abbrev Restoring (α : Type) : Type := Proc World Fate RestoreError α

/-! ## Reading the blobs -/

def getItem (key : String) : PyValue → Option PyValue
  | .dict items => items.lookup key
  | _ => none

def asText : PyValue → Option String
  | .str s => some s
  | _ => none

def asList : PyValue → Option (List PyValue)
  | .list items => some items
  | _ => none

def asDict : PyValue → Option (List (String × PyValue))
  | .dict items => some items
  | _ => none

def parseNode (node : PyValue) : Option SerializedNode := do
  let label ← (getItem "label" node).bind asText
  let properties ← (getItem "properties" node).bind asDict
  return ⟨label, properties⟩

def parseEdge (edge : PyValue) : Option SerializedEdge := do
  let type ← (getItem "relationship_type" edge).bind asText
  let sourceLabel ← (getItem "source_label" edge).bind asText
  let sourceId ← (getItem "source_id" edge).bind asText
  let targetLabel ← (getItem "target_label" edge).bind asText
  let targetId ← (getItem "target_id" edge).bind asText
  let properties ← (getItem "properties" edge).bind asDict
  return ⟨type, sourceLabel, sourceId, targetLabel, targetId, properties⟩

/-- `parse_serialized_graph_json`; the shape of the document is trusted. -/
def parseSerializedGraphJson {Blob : Type} (rt : RestoreRuntime Blob) (blob : Blob) : Option SerializedGraph := do
  let document ← rt.loads blob
  let nodes ← (getItem "nodes" document).bind asList
  let edges ← (getItem "edges" document).bind asList
  return ⟨← nodes.mapM parseNode, ← edges.mapM parseEdge⟩

/-! ## Verification -/

section Program

variable {Blob : Type} (gw : GraphWriteGateway) (rt : RestoreRuntime Blob)

/-- `DOMAIN_SCHEMA_VERSION`. -/
def domainSchemaVersion : String := "2"

/-- `_verify_checksums`: baseline first. -/
def verifyChecksums (artifact : RestoreArtifact Blob) : Except RestoreError Unit := do
  if rt.checksumBytes artifact.baselineBlob ≠ artifact.manifest.baselineSha256 then throw (.artifactIntegrity "baseline")
  if rt.checksumBytes artifact.nativeBlob ≠ artifact.manifest.nativeSha256 then throw (.artifactIntegrity "native")

/-- `_verify_schema_version`. -/
def verifySchemaVersion (artifact : RestoreArtifact Blob) : Except RestoreError Unit :=
  if artifact.manifest.schemaVersion ≠ domainSchemaVersion then
    .error (.schemaVersionMismatch artifact.manifest.schemaVersion)
  else .ok ()

/-- `_require_owner_for_governance`. -/
def requireOwnerForGovernance (baseline : SerializedGraph) (owner : Option (String × String)) : Except RestoreError Unit :=
  if owner = none ∧ baseline.nodes.any fun node => node.label = "Policy" then .error .ownerRequired else .ok ()

/-- The leg that replaces a graph by an artifact's content, where there is content. -/
def contentLeg (graph : String) (serialized : SerializedGraph) : Except RestoreError (List GraphLeg) :=
  match hleg : legPrimitives rt.embeddings serialized with
  | .error why => .error (.contentRejected why)
  | .ok leg =>
    if hne : leg = [] then .ok []
    else .ok [⟨⟨graph, leg, [], true, hne⟩, true, fun _ => legPrimitives_upsertOnly hleg⟩]

/-- `_content_legs`. -/
def contentLegs (short : String) (native baseline : SerializedGraph) : Except RestoreError (List GraphLeg) := do
  let native ← contentLeg rt (short ++ "_native") native
  let baseline ← contentLeg rt (short ++ "_baseline") baseline
  return native ++ baseline

/-! ## The group -/

/-- What is submitted: a group over several graphs, or a group on one. -/
inductive RestoreGroup where
  | multi (group : MultiGraphGroup)
  | single (group : MutationGroup)

/-- `_restore_group`. -/
def restoreGroup (legs : List GraphLeg) : Except RestoreError (Option RestoreGroup) :=
  let sorted := legs.insertionSort fun a b => a.graph ≤ b.graph
  if two : 2 ≤ sorted.length then
    if distinct : sorted.Pairwise fun a b => a.graph < b.graph then .ok (some (.multi ⟨sorted, true, two, distinct⟩))
    else .error .invalidGroup
  else match legs with
    | leg :: _ => .ok (some (.single leg.toMutationGroup))
    | [] => .ok none

/-- `_GATEWAY_FAILURES`. -/
def gatewayFailure : Err → RestoreError
  | .logUnavailable | .logPersistence | .graphUnavailable | .graphApply _ | .applyBlocked _ => .graphWriteFailed
  | e => .gateway e

/-- What `submit_restore` raises for what the gateway raises. -/
def submitFailure : Err → RestoreError
  | .rejected (.staleGraphState _ _ _) => .stale
  | .rejected _ => .groupRejected
  | e => gatewayFailure e

/-- Whether an outcome is still to be applied. -/
def GroupOutcome.pending (outcome : GroupOutcome) : Bool := outcome.status = .committedApplyPending

/-- The submission of a group: whether it is committed but not applied. -/
def submitPending : RestoreGroup → Gw Bool
  | .multi group => do
    let outcomes ← submitMultiGraphGroup gw group
    return outcomes.any GroupOutcome.pending
  | .single group => do
    let outcome ← submitGroup gw group
    return GroupOutcome.pending outcome

/-- `submit_restore`. -/
def submitRestore (group : RestoreGroup) : Restoring Unit := do
  let pending ← (submitPending gw group).translate submitFailure
  if pending then raise .applyPending

/-- `is_caught_up`. -/
def isCaughtUp (g : String) : Gw Bool := do
  let applied ← readAppliedPosition g
  let last ← readLastPosition g
  return applied = last

/-- `ensure_caught_up`. -/
def ensureCaughtUp (g : String) : Restoring Unit := do
  let caughtUp ← (isCaughtUp g).translate gatewayFailure
  if caughtUp then return
  let result ← (catchUp gw g).translate gatewayFailure
  if result.caughtUp then return
  raise .graphWriteFailed

/-- `read_log_position`. -/
def readLogPosition (g : String) : Restoring ℕ := (readLastPosition g).translate gatewayFailure

def orRaise {α : Type} : Except RestoreError α → Restoring α
  | .ok a => pure a
  | .error e => raise e

/-- The leg of `policy_system`, built from reads of the live graph. -/
def readPolicySystemLeg (g : String) (build : Graph → Option PolicySystemLeg) : Restoring PolicySystemLeg := do
  let built ← (graphRead fun w => build (w.content g)).translate fun _ => .mergeFailed
  match built with
  | some leg => pure leg
  | none => raise .mergeFailed

/-- One attempt of `_commit_restore`. -/
def attemptRestore (content : List GraphLeg) (g : String) (build : Graph → Option PolicySystemLeg) : Restoring Unit := do
  ensureCaughtUp gw g
  let position ← readLogPosition g
  let leg ← readPolicySystemLeg g build
  let policySystem : GraphLeg := ⟨⟨g, leg.primitives, [position], true, leg.nonempty⟩, false, nofun⟩
  let group ← orRaise (restoreGroup (content ++ [policySystem]))
  match group with
  | some group => submitRestore gw group
  | none => pure ()

/-- `_commit_restore`, with this many attempts left; `MAX_POLICY_SYSTEM_ATTEMPTS` at first. -/
def commitRestore (content : List GraphLeg) (g : String) (build : Graph → Option PolicySystemLeg) : ℕ → Restoring Unit
  | 0 => raise .concurrencyConflict
  | attempts + 1 => (attemptRestore gw content g build).handle fun
    | .stale => commitRestore content g build attempts
    | e => raise e

/-- `MAX_POLICY_SYSTEM_ATTEMPTS`. -/
def maxPolicySystemAttempts : ℕ := 3

def orMalformed : Option SerializedGraph → Except RestoreError SerializedGraph
  | some graph => .ok graph
  | none => .error .malformedBlob

/-- What `restore_instrument` does before the gateway is opened: the baseline graph and the content legs. -/
def prepare (owner : Option (String × String)) (artifact : RestoreArtifact Blob) :
    Except RestoreError (SerializedGraph × List GraphLeg) := do
  verifyChecksums rt artifact
  verifySchemaVersion artifact
  let native ← orMalformed (parseSerializedGraphJson rt artifact.nativeBlob)
  let baseline ← orMalformed (parseSerializedGraphJson rt artifact.baselineBlob)
  (validateContent native baseline).mapError .contentRejected
  requireOwnerForGovernance baseline owner
  let content ← contentLegs rt (rt.lower artifact.manifest.shortName) native baseline
  return (baseline, content)

/-- **`restore_instrument`.** -/
def restoreInstrument (singleTenantGraphName : String) (owner : Option (String × String))
    (artifact : RestoreArtifact Blob) : Restoring Unit := do
  let (baseline, content) ← orRaise (prepare rt owner artifact)
  commitRestore gw content singleTenantGraphName
    (rt.buildPolicySystemLeg baseline artifact.manifest.instrumentId owner) maxPolicySystemAttempts

end Program

end PolicySystem.Restore
