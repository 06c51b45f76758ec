import PolicySystem.Cleanup.SplitPlanner
import PolicySystem.Cleanup.UnmergePlanner
import PolicySystem.Faults.Optimistic
import PolicySystem.PolicyLifecycle.Service

/-!
# The writers of governance

The cleanup writes of Capabilities (`write_release`, `write_capability_merge`, `write_capability_unmerge` and
`write_capability_split` of `graph_cleanup/group_builders.py`) beside the Policy lifecycle, over one graph. Each reads the
log position, reads its guard, stamps and submits one group at that position.

* `CleanupWrite.plan`: guard and group of each write;
* `Governance.step`: one read, one submit or the death of one writer.
-/

namespace PolicySystem.Governance

open Interleaved PolicyLifecycle

/-! ## Releasing -/

/-- `ReleaseState`. -/
structure ReleaseState where
  capability : Option CapabilityNodeState
  policies : List GoverningPolicy
  governedSet : List String

/-- `read_release_state`; `none` where a row is refused. -/
def readReleaseState (scan : ScanOrder) (g : Graph) (capabilityId : String) : Option ReleaseState := do
  let capability ← readNode g "Capability" capabilityId (nodeState capabilityId)
  let policies ← readPolicies scan g capabilityId
  let governedSet := policies.head?.elim [] fun p =>
    sortedIds ((edgeRows scan g governorPattern fun e => e.targetId = p.id).map EdgeRecord.sourceId).toFinset
  return ⟨capability, policies, governedSet⟩

/-- `release_guard_holds`. -/
def releaseGuardHolds (state : ReleaseState) (policyId : String) : Bool :=
  (state.capability.any fun c => c.status = "active") &&
    state.policies.any fun p => p.id = policyId ∧ p.status = "draft"

/-- The primitives `build_release_group` constructs. -/
def releasePrimitives (capabilityId policyId : String) : List RawPrimitive :=
  [deleteRecord (governedBy capabilityId policyId)]

/-! ## The cleanup writes -/

/-- A cleanup write with what was approved. A split also reads baselines, by a read of its own. -/
inductive CleanupWrite where
  | release (capabilityId policyId : String)
  | merge (survivorId absorbedId : String) (expected : ExpectedCounts) (reviewId : Option String)
  | unmerge (inputs : CapabilityUnmergeInputs) (write : CapabilityUnmergeWrite)
  | split (readState : Graph → Option CapabilitySplitState) (stateDigest createdAt : String)

variable (sha256 : Bytes → String)

/-- The group of a write, where its guard holds of the graph it reads. -/
def CleanupWrite.plan (scan : ScanOrder) (g : Graph) : CleanupWrite → Option (List Primitive)
  | release capabilityId policyId => do
    let state ← readReleaseState scan g capabilityId
    if releaseGuardHolds state policyId then buildGroup (releasePrimitives capabilityId policyId) else none
  | merge survivorId absorbedId expected reviewId => do
    let state ← readCapabilityMergeState scan g survivorId absorbedId
    if capabilityMergeGuardHolds state expected absorbedId then
      buildGroup (capabilityMergePrimitives state survivorId absorbedId reviewId)
    else none
  | unmerge inputs write => do
    let state ← readCapabilityUnmergeState scan g inputs
    if capabilityUnmergeGuardHolds state write inputs.survivorId then
      buildGroup (capabilityUnmergePrimitives write inputs.absorbedId inputs.survivorId)
    else none
  | split readState stateDigest createdAt => do
    let state ← readState g
    match planCapabilitySplit sha256 state with
    | .error _ => none
    | .ok plan => if plan.stateDigest = stateDigest then buildCapabilitySplitGroup plan createdAt else none

/-- The group of a cleanup write. -/
structure CleanupGroup where
  primitives : List Primitive
  expected : ℕ

/-- What the writers submit. -/
inductive Submission where
  | lifecycle (group : Group)
  | cleanup (group : CleanupGroup)

def Submission.primitives : Submission → List Primitive
  | lifecycle group => group.primitives
  | cleanup group => group.primitives

def Submission.expected : Submission → Option ℕ
  | lifecycle group => group.expected
  | cleanup group => some group.expected

/-- The group as the gateway takes it, which does not look at its purpose. -/
def Submission.group : Submission → Group
  | lifecycle group => group
  | cleanup group => ⟨.stamp, group.primitives, some group.expected⟩

/-- One submit. -/
def carry (gw : Gateway) (s : GraphState) (submission : Submission) (answer : Answer) : Option GraphState :=
  gw.carry s submission.group answer

/-- A writer over the graph. -/
abbrev Program := Flow GraphState Submission Answer

/-- `submit_cleanup_group` of a target that is stamped. -/
def submitCleanupGroup (primitives : List Primitive) (expected : ℕ) : Program Unit := do
  if primitives = [] then return ()
  match ← Flow.ask (.cleanup ⟨primitives, expected⟩) with
  | .applied => return ()
  | _ => .halt

/-- The write: position, guard, stamps, group. -/
def guardedWrite (gw : Gateway) (plan : Graph → Option (List Primitive)) : Program Unit := do
  let position ← Flow.get GraphState.position
  match ← Flow.get fun s => plan s.graph with
  | none => .halt
  | some primitives => do
    let stamped ← (ensureStamped gw).asking .lifecycle
    submitCleanupGroup primitives (position + stamped)

/-! ## The system -/

/-- One of the writers. -/
inductive Writer where
  | lifecycle (call : LifecycleCall)
  | cleanup (write : CleanupWrite)

/-- The program of a writer. -/
def Writer.flow (gw : Gateway) (h : Hashing) : Writer → Program Unit
  | lifecycle call => (call.flow gw h).asking .lifecycle
  | cleanup write => guardedWrite gw fun g => write.plan sha256 gw.scan g

/-- The graph and the writers still to do. -/
abbrev Governance := Callers GraphState Submission Answer

/-- Any number of writers, none begun. -/
def Governance.start (gw : Gateway) (h : Hashing) (s : GraphState) (writers : ℕ → Writer) : Governance :=
  ⟨s, fun c => (writers c).flow sha256 gw h⟩

/-- **One step**: a query of one writer, a submit with its answer, or the death of a writer. -/
def Governance.step (gw : Gateway) (w : Governance) (e : CallerStep Answer) : Option Governance :=
  Callers.step (carry gw) w e

end PolicySystem.Governance
