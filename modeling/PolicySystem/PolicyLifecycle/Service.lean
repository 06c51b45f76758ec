import PolicySystem.PolicyLifecycle.GraphWriter
import PolicySystem.Gateway.Validation

/-!
# The Policy lifecycle calls

`policy_lifecycle/service.py` and `policy_lifecycle/rules.py`: each call reads, decides by its gates and submits its
groups. A raised error ends the call. The `applied` audit row of a group is its purpose.

* `LifecycleCall.flow`: the program of every call;
* `Lifecycle.step`: one read, one submit or the death of one of the calls.
-/

namespace PolicySystem.PolicyLifecycle

open Std (ExtTreeMap)
open Interleaved

/-! ## Rules -/

inductive Action where
  | propose
  | approve
  | reject
  | revert
  | read
  | edit
  deriving DecidableEq

/-- `_REQUIRED_STATUS_BY_ACTION`. -/
def requiredStatus : Action → Option String
  | .propose => some "draft"
  | .approve => some "proposed"
  | .reject => some "proposed"
  | .revert => some "proposed"
  | .edit => some "draft"
  | .read => none

/-- The owner columns of a Policy. -/
abbrev Owner := Option PropertyValue × Option PropertyValue

/-- The columns that name a caller as the owner. -/
def Actor.asOwner (a : Actor) : Owner := (some (text a.subject), some (text a.issuer))

/-- `PolicyLifecycleRuleContext`. -/
structure RuleContext where
  actor : Actor
  owner : Owner
  action : Action
  currentStatus : Option PropertyValue

/-- `require_status`. -/
def requireStatus (ctx : RuleContext) : Bool :=
  (requiredStatus ctx.action).any fun status => ctx.currentStatus = some (text status)

/-- `require_owner`. -/
def requireOwner (ctx : RuleContext) : Bool := ctx.actor.asOwner = ctx.owner

/-- `block_self_approval`. -/
def blockSelfApproval (ctx : RuleContext) : Bool := ctx.actor.asOwner ≠ ctx.owner

/-- What the role store answers a call: whether a caller is a Policy manager, and whether a caller may edit any draft. -/
structure Access where
  enforcePolicyManager : Actor → Bool
  overrides : Actor → Bool

/-- `_authorize_draft_edit`. -/
def authorizeDraftEdit (access : Access) (ctx : RuleContext) : Bool :=
  (requireOwner ctx || access.overrides ctx.actor) && requireStatus ctx

/-- The status a transition sets. -/
def Transition.target : Transition → String
  | propose => "proposed"
  | approve => "approved"
  | reject => "draft"
  | revert => "draft"
  | autoDeprecate => "deprecated"

/-! ## Reads and submits -/

section Calls

variable {α : Type}

/-- One query. -/
def query (f : Graph → α) : Call α := Flow.get fun s => f s.graph

/-- `read_log_position`. -/
def readLogPosition : Call ℕ := Flow.get GraphState.position

/-- A gate that raises unless `allowed`. -/
def gate (allowed : Bool) : Call Unit := if allowed then pure () else .halt

/-- A value the call cannot go on without. -/
def need (found : Option α) : Call α :=
  match found with
  | some a => pure a
  | none => .halt

variable (gw : Gateway)

/-- `ensure_stamped` of a target that is not stamped yet: how many edges it found. -/
def ensureStamped : Call ℕ := do
  let found ← query (scanUnidentifiedEdges gw.allow gw.scan)
  if found = [] then return 0
  match ← Flow.ask ⟨.stamp, found.map .stampEdgeIdentity, none⟩ with
  | .applied => return found.length
  | _ => .halt

/-- The submit of `submit_group`; false where the precondition no longer held. -/
def submit (group : Group) : Call Bool := do
  match ← Flow.ask group with
  | .applied => return true
  | .stale => return false
  | _ => .halt

/-- `submit_group` of a target that is not stamped yet, without a precondition. -/
def submitGroup (purpose : Purpose) (primitives : List Primitive) : Call Unit := do
  if primitives = [] then return ()
  let _ ← ensureStamped gw
  let _ ← submit ⟨purpose, primitives, none⟩

/-- `backfill_governance_status`. -/
def backfillGovernanceStatus (policyId : String) : Call Unit := do
  let primitives ← query (backfillPrimitives gw.scan · policyId)
  submitGroup gw (.backfill policyId) primitives

/-- `_read_transition_target`. -/
def readTransitionTarget (policyId : String) : Call PolicyRecord := do
  backfillGovernanceStatus gw policyId
  need (← query (readPolicyTree gw.scan · policyId))

def PolicyRecord.owner (r : PolicyRecord) : Owner := (r.ownerSubject, r.ownerIssuer)

/-! ## Transitions -/

/-- `cascade_status`. -/
def cascadeStatus (action : Transition) (actor : Actor) (policyId : String) : Call Unit := do
  let primitives ← query (cascadePrimitives gw.scan · policyId action.target)
  submitGroup gw (.transition action actor policyId) primitives

/-- `_read_repoint`. -/
def readRepoint (scan : ScanOrder) (g : Graph) (policyId : String) : Option ForkGovernance :=
  (readForkGovernance scan g policyId).filter fun governance => governance.capabilityIds ≠ []

/-- The re-read of `approve_fork_repoint`: the same prior with the same Capabilities. -/
def ForkGovernance.unchanged (repoint : ForkGovernance) (now : Option ForkGovernance) : Bool :=
  now.any fun governance => governance.priorId = repoint.priorId ∧
    governance.capabilityIds.Perm repoint.capabilityIds

/-- `approve_fork_repoint`; false where the guard failed. -/
def approveForkRepoint (actor : Actor) (policyId : String) (repoint : ForkGovernance) : Call Bool := do
  let position ← readLogPosition
  let now ← query (readForkGovernance gw.scan · policyId)
  if !repoint.unchanged now then return false
  let stamped ← ensureStamped gw
  let cascade ← query (cascadePrimitives gw.scan · policyId Transition.approve.target)
  submit ⟨.transition .approve actor policyId,
    repointPrimitives policyId repoint.priorId repoint.capabilityIds ++ cascade, some (position + stamped)⟩

/-- `propose_policy`. -/
def proposePolicy (actor : Actor) (policyId : String) : Call Unit := do
  let record ← readTransitionTarget gw policyId
  let ctx : RuleContext := ⟨actor, record.owner, .propose, record.status⟩
  gate (requireOwner ctx)
  gate (requireStatus ctx)
  gate (record.standards ≠ [])
  cascadeStatus gw .propose actor policyId

/-- The write of an approval. -/
def writeApproval (actor : Actor) (policyId : String) : Option ForkGovernance → Call Unit
  | none => cascadeStatus gw .approve actor policyId
  | some repoint => do gate (← approveForkRepoint gw actor policyId repoint)

/-- The deprecation of the approved prior of an approved Policy. -/
def deprecatePrior (actor : Actor) (policyId : String) : Call Unit := do
  match ← query (findApprovedPrior gw.scan · policyId) with
  | none => return ()
  | some priorId =>
    match ← query (readPolicyTree gw.scan · priorId) with
    | none => return ()
    | some _ => cascadeStatus gw .autoDeprecate actor priorId

/-- `approve_policy`. -/
def approvePolicy (access : Access) (actor : Actor) (policyId : String) : Call Unit := do
  let record ← readTransitionTarget gw policyId
  let ctx : RuleContext := ⟨actor, record.owner, .approve, record.status⟩
  gate (access.enforcePolicyManager actor)
  gate (blockSelfApproval ctx)
  gate (requireStatus ctx)
  let repoint ← query (readRepoint gw.scan · policyId)
  writeApproval gw actor policyId repoint
  deprecatePrior gw actor policyId

/-- `reject_policy`. -/
def rejectPolicy (access : Access) (actor : Actor) (policyId : String) : Call Unit := do
  let record ← readTransitionTarget gw policyId
  let ctx : RuleContext := ⟨actor, record.owner, .reject, record.status⟩
  gate (access.enforcePolicyManager actor)
  gate (blockSelfApproval ctx)
  gate (requireStatus ctx)
  cascadeStatus gw .reject actor policyId

/-- `revert_policy_to_draft`. -/
def revertPolicyToDraft (actor : Actor) (policyId : String) : Call Unit := do
  let record ← readTransitionTarget gw policyId
  let ctx : RuleContext := ⟨actor, record.owner, .revert, record.status⟩
  gate (requireOwner ctx)
  gate (requireStatus ctx)
  cascadeStatus gw .revert actor policyId

/-! ## Create -/

/-- Python's `int` of a text: blanks around it, a sign, digits with single underscores between them. -/
def parseInt (s : String) : Option Int :=
  let trimmed := (s.toList.dropWhile isStripSpace).rdropWhile isStripSpace
  let digits (body : List Char) : Option Int :=
    let parts := body.splitOn '_'
    if parts.all fun part => part ≠ [] ∧ part.all Char.isDigit then
      some (parts.flatten.foldl (fun n c => 10 * n + (c.toNat - '0'.toNat)) 0)
    else none
  match trimmed with
  | '-' :: body => (digits body).map (- ·)
  | '+' :: body => digits body
  | body => digits body

/-- `str(int(version) + 1)`. -/
def nextVersion : Option PropertyValue → Option String
  | some (.scalar (.str s)) => (parseInt s).map fun n => toString (n + 1)
  | some (.scalar (.int n)) => some (toString (n + 1))
  | some (.scalar (.bool b)) => some (if b then "2" else "1")
  | _ => none

/-- `ControlDraftInput`. -/
structure ControlDraftInput where
  title : String
  controlType : String

/-- `StandardDraftInput`. -/
structure StandardDraftInput where
  title : String
  controls : List ControlDraftInput

variable (h : Hashing)

/-- `_build_standard_drafts`. -/
def buildStandardDrafts (policyId : String) (standards : List StandardDraftInput) : List StandardDraft :=
  standards.map fun s =>
    let standardId := h.standardId policyId s.title
    ⟨standardId, s.title, s.controls.map fun control =>
      ⟨h.controlId standardId control.title, control.title, text control.controlType, {}⟩, {}⟩

/-- `properties.get("title", "")`; a title that is no string cannot be hashed. -/
def forkedTitle (node : ForkedNode) : Option String :=
  match node.title with
  | none => some ""
  | some v => stringColumn (some v)

/-- A copied control. -/
def forkedControl (standardId : String) (node : ForkedNode) : Option ControlDraft := do
  let title ← forkedTitle node
  let kept := node.content.remove ["id", "title", "status", "type"]
  return ⟨h.controlId standardId title, title, node.content.properties["type"]?.getD (text "manual"), kept⟩

/-- A copied Standard with its Controls. -/
def forkedStandard (policyId : String) (node : ForkedNode × List ForkedNode) : Option StandardDraft := do
  let title ← forkedTitle node.1
  let standardId := h.standardId policyId title
  let controls ← node.2.mapM (forkedControl h standardId)
  return ⟨standardId, title, controls, node.1.content.remove ["id", "title", "status"]⟩

/-- `_build_forked_standard_drafts`. -/
def buildForkedStandardDrafts (scan : ScanOrder) (g : Graph) (policyId priorId : String) :
    Option (List StandardDraft) :=
  (readPolicyTreeForFork scan g priorId).mapM (forkedStandard h policyId)

/-- Every claimed Capability exists and none is governed. -/
def claimable (scan : ScanOrder) (g : Graph) (capabilityIds : List String) : Bool :=
  capabilityIds.all fun capability => readCapabilityGovernor scan g capability = some none

/-- The version of a new draft: one more than the approved prior's. -/
def newVersion (supersedes : Option String) : Call String :=
  match supersedes with
  | none => pure "1"
  | some priorId => do
    let prior ← readTransitionTarget gw priorId
    gate (prior.status = some (text "approved"))
    need (nextVersion prior.version)

/-- `graph_writer.create_policy_draft`. -/
def writeUnclaimed (new : NewPolicy) : Call Unit := do
  gate new.storable
  submitGroup gw (.create new.owner new.policyId) new.primitives

/-- `create_claimed_policy_draft`. -/
def writeClaimed (new : NewPolicy) (capabilityIds : List String) : Call Unit := do
  let position ← readLogPosition
  gate (← query (claimable gw.scan · capabilityIds))
  let stamped ← ensureStamped gw
  gate new.storable
  gate (← submit ⟨.create new.owner new.policyId, new.primitives ++ claimPrimitives new.policyId capabilityIds,
    some (position + stamped)⟩)

/-- `create_policy_draft`. -/
def createPolicyDraft (actor : Actor) (title : String) (standards : List StandardDraftInput)
    (supersedes : Option String) (capabilityIds : List String) : Call Unit := do
  let version ← newVersion gw supersedes
  let policyId := h.policyId title supersedes
  gate (← query (findExistingPolicy · policyId)).isNone
  let claimed := if supersedes.isSome then [] else capabilityIds.eraseDups
  gate (← query (claimable gw.scan · claimed))
  let drafts ← match supersedes with
    | none => pure (some (buildStandardDrafts h policyId standards))
    | some priorId => query (buildForkedStandardDrafts h gw.scan · policyId priorId)
  let drafts ← need drafts
  let new : NewPolicy := ⟨policyId, title, actor, drafts, supersedes, version⟩
  if claimed = [] then writeUnclaimed gw new else writeClaimed gw new claimed

/-! ## Draft edits -/

/-- `update_policy_draft`. -/
def updatePolicyDraft (access : Access) (actor : Actor) (policyId : String) (fields : ContentFields "Policy") :
    Call Unit := do
  let record ← readTransitionTarget gw policyId
  gate (authorizeDraftEdit access ⟨actor, record.owner, .edit, record.status⟩)
  submitGroup gw (.edit (policyRef policyId)) (patchPrimitives policyId fields)

/-- `add_standard_to_draft`. -/
def addStandardToDraft (access : Access) (actor : Actor) (policyId title : String)
    (fields : ContentFields "Standard") : Call Unit := do
  let record ← readTransitionTarget gw policyId
  gate (authorizeDraftEdit access ⟨actor, record.owner, .edit, record.status⟩)
  submitGroup gw (.edit (policyRef policyId)) (addStandardPrimitives policyId (h.standardId policyId title) title fields)

/-- `_read_standard_with_parent_backfilled`. -/
def readStandardWithParentBackfilled (standardId : String) : Call StandardWithParent := do
  let row ← need (← query (findStandardWithParent gw.scan · standardId))
  backfillGovernanceStatus gw row.policyId
  need (← query (findStandardWithParent gw.scan · standardId))

def StandardWithParent.policyOwner (r : StandardWithParent) : Owner := (r.policyOwnerSubject, r.policyOwnerIssuer)

/-- `update_standard_draft`. -/
def updateStandardDraft (access : Access) (actor : Actor) (standardId : String) (fields : ContentFields "Standard") :
    Call Unit := do
  let row ← readStandardWithParentBackfilled gw standardId
  gate (authorizeDraftEdit access ⟨actor, row.policyOwner, .edit, row.standardStatus⟩)
  submitGroup gw (.edit (standardRef standardId)) (patchPrimitives standardId fields)

/-- `add_control_to_draft`. -/
def addControlToDraft (access : Access) (actor : Actor) (standardId title controlType : String)
    (fields : ContentFields "Control") : Call Unit := do
  let row ← readStandardWithParentBackfilled gw standardId
  gate (authorizeDraftEdit access ⟨actor, row.policyOwner, .edit, row.standardStatus⟩)
  submitGroup gw (.edit (standardRef standardId))
    (addControlPrimitives standardId (h.controlId standardId title) title controlType fields)

/-- `_read_control_with_parent_backfilled`. -/
def readControlWithParentBackfilled (controlId : String) : Call ControlWithParent := do
  let row ← need (← query (findControlWithParent gw.scan · controlId))
  backfillGovernanceStatus gw row.policyId
  need (← query (findControlWithParent gw.scan · controlId))

def ControlWithParent.policyOwner (r : ControlWithParent) : Owner := (r.policyOwnerSubject, r.policyOwnerIssuer)

/-- `update_control_draft`. -/
def updateControlDraft (access : Access) (actor : Actor) (controlId : String) (fields : ContentFields "Control") :
    Call Unit := do
  let row ← readControlWithParentBackfilled gw controlId
  gate (authorizeDraftEdit access ⟨actor, row.policyOwner, .edit, row.controlStatus⟩)
  submitGroup gw (.edit (controlRef controlId)) (patchPrimitives controlId fields)

/-- `get_policy`. -/
def getPolicy (policyId : String) : Call Unit := do
  let _ ← readTransitionTarget gw policyId

end Calls

/-! ## The calls -/

/-- A lifecycle call with its arguments and what the role store answers it. -/
inductive LifecycleCall where
  | createPolicyDraft (actor : Actor) (title : String) (standards : List StandardDraftInput)
      (supersedes : Option String) (capabilityIds : List String)
  | getPolicy (policyId : String)
  | proposePolicy (actor : Actor) (policyId : String)
  | approvePolicy (access : Access) (actor : Actor) (policyId : String)
  | rejectPolicy (access : Access) (actor : Actor) (policyId : String)
  | revertPolicyToDraft (actor : Actor) (policyId : String)
  | updatePolicyDraft (access : Access) (actor : Actor) (policyId : String) (fields : ContentFields "Policy")
  | addStandardToDraft (access : Access) (actor : Actor) (policyId title : String) (fields : ContentFields "Standard")
  | updateStandardDraft (access : Access) (actor : Actor) (standardId : String) (fields : ContentFields "Standard")
  | addControlToDraft (access : Access) (actor : Actor) (standardId title controlType : String)
      (fields : ContentFields "Control")
  | updateControlDraft (access : Access) (actor : Actor) (controlId : String) (fields : ContentFields "Control")

/-- The program of a call. -/
def LifecycleCall.flow (gw : Gateway) (h : Hashing) : LifecycleCall → Call Unit
  | createPolicyDraft actor title standards supersedes capabilityIds =>
    PolicyLifecycle.createPolicyDraft gw h actor title standards supersedes capabilityIds
  | getPolicy policyId => PolicyLifecycle.getPolicy gw policyId
  | proposePolicy actor policyId => PolicyLifecycle.proposePolicy gw actor policyId
  | approvePolicy access actor policyId => PolicyLifecycle.approvePolicy gw access actor policyId
  | rejectPolicy access actor policyId => PolicyLifecycle.rejectPolicy gw access actor policyId
  | revertPolicyToDraft actor policyId => PolicyLifecycle.revertPolicyToDraft gw actor policyId
  | updatePolicyDraft access actor policyId fields => PolicyLifecycle.updatePolicyDraft gw access actor policyId fields
  | addStandardToDraft access actor policyId title fields =>
    PolicyLifecycle.addStandardToDraft gw h access actor policyId title fields
  | updateStandardDraft access actor standardId fields =>
    PolicyLifecycle.updateStandardDraft gw access actor standardId fields
  | addControlToDraft access actor standardId title controlType fields =>
    PolicyLifecycle.addControlToDraft gw h access actor standardId title controlType fields
  | updateControlDraft access actor controlId fields => PolicyLifecycle.updateControlDraft gw access actor controlId fields

/-- The graph and the calls still to do. -/
abbrev Lifecycle := Callers GraphState Group Answer

/-- Any number of calls, none begun. -/
def Lifecycle.start (gw : Gateway) (h : Hashing) (s : GraphState) (calls : ℕ → LifecycleCall) : Lifecycle :=
  ⟨s, fun c => (calls c).flow gw h⟩

/-- **One step**: a query of one call, a submit with its answer, or the death of a call. -/
def Lifecycle.step (gw : Gateway) (w : Lifecycle) (e : CallerStep Answer) : Option Lifecycle := Callers.step gw.carry w e

end PolicySystem.PolicyLifecycle
