import PolicySystem.Cleanup.GroupBuilders
import PolicySystem.Cleanup.StateDigest

/-!
# Near-miss batches

A hand-picked set of near-miss reviews merged under one approval: its request (`near_miss_batch.py`, with the reads of
`company_merge/pending_review.py`), and its execution item by item (`near_miss_batch_execution.py`, with the two merge
executors it runs).
-/

namespace PolicySystem

/-! ## Reviews -/

/-- The registered `ReviewableKind`s. -/
inductive ReviewKind where
  | capability
  | role
  deriving DecidableEq

def ReviewKind.label : ReviewKind → String
  | capability => "Capability"
  | role => "Role"

/-- `reviewable_kind`. -/
def reviewableKind (label : String) : Option ReviewKind :=
  if label = ReviewKind.capability.label then some .capability
  else if label = ReviewKind.role.label then some .role
  else none

/-- What a preview refuses a pair for. -/
inductive MergeRefusal where
  /-- `GraphCleanupPersistenceError` -/
  | unreadable
  | capability (error : CapabilityMergeError)
  | role (error : RoleMergeError)

/-- The state a `ReviewFinding` names. -/
inductive ReviewProblem where
  /-- "no unresolved near-miss review has this id" -/
  | unknownReview
  /-- "the review is stale: one of its nodes no longer exists (it was already merged or removed)" -/
  | staleReview
  /-- `UnknownReviewKindError` -/
  | unknownKind (kind : Option String)
  /-- "overlaps another selected review: shares ... with review ..." -/
  | overlaps (shared : List (String × List String))
  | refused (refusal : MergeRefusal)
  /-- "an acknowledgment was given for a review that is not among the selected reviews" -/
  | ackNotSelected
  /-- "an acknowledgment was given for a ... review, which has no governance change" -/
  | ackOnRole (kind : ReviewKind)
  /-- "an acknowledgment was given but this merge makes no governance change" -/
  | ackNotNeeded

/-- `ReviewFinding`. -/
structure ReviewFinding where
  reviewId : String
  state : ReviewProblem

/-- `ReviewMergeSides`. -/
structure ReviewMergeSides where
  reviewId : String
  kind : ReviewKind
  incomingId : String
  existingId : String
  incomingCreatedAt : Option PropertyValue
  existingCreatedAt : Option PropertyValue

/-- The ids a review names. -/
def ReviewMergeSides.ids (s : ReviewMergeSides) : Finset String := {s.incomingId, s.existingId}

def nodeProperty (g : Graph) (n : NodeRef) (name : String) : Option PropertyValue :=
  g.nodes[n]?.bind fun content => content.properties[name]?

def reviewRef (reviewId : String) : NodeRef := ⟨"PendingReview", reviewId⟩

/-- `read_review_merge_sides`: the review's kind, then its two sides under that kind's label. -/
def readReviewMergeSides (g : Graph) (reviewId : String) : Except ReviewProblem ReviewMergeSides :=
  if reviewRef reviewId ∉ g.nodes then .error .unknownReview
  else
    let kind := stringColumn (nodeProperty g (reviewRef reviewId) "kind")
    match kind.bind reviewableKind with
    | none => .error (.unknownKind kind)
    | some k =>
      match stringColumn (nodeProperty g (reviewRef reviewId) "incoming_id"),
        stringColumn (nodeProperty g (reviewRef reviewId) "nearest_existing_id") with
      | some incomingId, some existingId =>
        if (⟨k.label, incomingId⟩ : NodeRef) ∈ g.nodes ∧ (⟨k.label, existingId⟩ : NodeRef) ∈ g.nodes then
          .ok ⟨reviewId, k, incomingId, existingId, nodeProperty g ⟨k.label, incomingId⟩ "created_at",
            nodeProperty g ⟨k.label, existingId⟩ "created_at"⟩
        else .error .staleReview
      | _, _ => .error .staleReview

/-- `"" if created_at is None else created_at`; `none` where that is not text. -/
def createdAtText (createdAt : Option PropertyValue) : Option String :=
  match createdAt with
  | none => some ""
  | some v => stringColumn (some v)

/-- `_incoming_wins`. -/
def incomingWins (incomingCreatedAt existingCreatedAt : Option PropertyValue) : Bool :=
  match createdAtText incomingCreatedAt, createdAtText existingCreatedAt with
  | some incoming, some existing => incoming ≤ existing
  | _, _ => false

/-- `choose_survivor`: the survivor and the absorbed node. -/
def chooseSurvivor (sides : ReviewMergeSides) : String × String :=
  if incomingWins sides.incomingCreatedAt sides.existingCreatedAt then (sides.incomingId, sides.existingId)
  else (sides.existingId, sides.incomingId)

/-! ## The merge previews -/

/-- What a batch uses of a merge preview. -/
structure MergePreview where
  stateDigest : String
  /-- The Policy whose governed set changes, where the officer must acknowledge that. -/
  acknowledgment : Option GoverningPolicy

/-- The Policy of `_governance`, where its `acknowledgment_required` is set: exactly one side is governed. -/
def governanceAcknowledgment (state : MergeState) : Option GoverningPolicy :=
  match state.survivorPolicies.head?, state.absorbedPolicies.head? with
  | some p, none => some p
  | none, some p => some p
  | _, _ => none

section

variable (sha256 : Bytes → String) (rules : TextRules)

/-- `read_capability_merge_state`, then `plan_capability_merge`. -/
def plannedCapabilityMerge (scan : ScanOrder) (g : Graph) (survivorId absorbedId : String) :
    Except MergeRefusal (MergePlan ExpectedCounts × MergePreview) :=
  match readCapabilityMergeState scan g survivorId absorbedId with
  | none => .error .unreadable
  | some state =>
    match planCapabilityMerge state with
    | .error e => .error (.capability e)
    | .ok plan => .ok (plan, ⟨capabilityStateDigest sha256 plan.before, governanceAcknowledgment state⟩)

/-- `read_role_merge_state`, then `plan_role_merge`. -/
def plannedRoleMerge (scan : ScanOrder) (g : Graph) (survivorId absorbedId : String) :
    Except MergeRefusal (MergePlan RoleExpectedCounts × MergePreview) :=
  match readRoleMergeState scan g survivorId absorbedId with
  | none => .error .unreadable
  | some state =>
    match readObligationTexts g state with
    | none => .error .unreadable
    | some texts =>
      match planRoleMerge state with
      | .error e => .error (.role e)
      | .ok plan => .ok (plan, ⟨roleStateDigest sha256 plan.before state (duplicatePairs rules state texts), none⟩)

/-- `_previewers`. -/
def previewMerge (kind : ReviewKind) (scan : ScanOrder) (g : Graph) (survivorId absorbedId : String) :
    Except MergeRefusal MergePreview :=
  match kind with
  | .capability => (plannedCapabilityMerge sha256 scan g survivorId absorbedId).map Prod.snd
  | .role => (plannedRoleMerge sha256 rules scan g survivorId absorbedId).map Prod.snd

/-! ## The request -/

/-- `NearMissMergeItem`. -/
structure NearMissMergeItem where
  reviewId : String
  kind : ReviewKind
  survivorId : String
  absorbedId : String
  stateDigest : String
  acknowledged : Bool
  deriving DecidableEq

/-- The errors of `create_near_miss_merge_batch`. -/
inductive NearMissBatchError where
  /-- "no review ids were given; name at least one review to merge" -/
  | empty
  /-- "review ids given more than once: ..." -/
  | duplicates (reviewIds : List String)
  | refused (findings : List ReviewFinding)
  | acknowledgmentRequired (missing : List (String × GoverningPolicy))
  | unreadable

/-- `_check_shape`. -/
def checkShape (reviewIds : List String) : Except NearMissBatchError Unit := do
  refuseIf (reviewIds = []) .empty
  let duplicates := sortedIds (reviewIds.filter fun id => reviewIds.count id > 1).toFinset
  refuseIf (duplicates ≠ []) (.duplicates duplicates)

/-- What `_overlap_findings` says of one review: each id it shares, with the other reviews that name it. -/
def sharedIds (sides : List ReviewMergeSides) (s : ReviewMergeSides) : List (String × List String) :=
  ([s.incomingId, s.existingId].dedup.map fun id =>
    (id, (sides.filter fun t => t.reviewId ≠ s.reviewId ∧ id ∈ t.ids).map ReviewMergeSides.reviewId)).filter
      fun shared => shared.2 ≠ []

/-- The finding of one read, if any. -/
def sidesFinding (usable : List ReviewMergeSides) (read : String × Except ReviewProblem ReviewMergeSides) :
    Option ReviewFinding :=
  match read.2 with
  | .error problem => some ⟨read.1, problem⟩
  | .ok side => if sharedIds usable side = [] then none else some ⟨read.1, .overlaps (sharedIds usable side)⟩

/-- `_read_sides`. -/
def readSides (g : Graph) (reviewIds : List String) : Except NearMissBatchError (List ReviewMergeSides) :=
  let reads := reviewIds.map fun id => (id, readReviewMergeSides g id)
  let usable := reads.filterMap fun read => read.2.toOption
  match reads.filterMap (sidesFinding usable) with
  | [] => .ok usable
  | findings => .error (.refused findings)

/-- `_entry_and_item`. -/
def entryAndItem (scan : ScanOrder) (g : Graph) (acknowledged : Finset String) (sides : ReviewMergeSides) :
    Except MergeRefusal (MergePreview × NearMissMergeItem) := do
  let (survivorId, absorbedId) := chooseSurvivor sides
  let preview ← previewMerge sha256 rules sides.kind scan g survivorId absorbedId
  return (preview, ⟨sides.reviewId, sides.kind, survivorId, absorbedId, preview.stateDigest,
    sides.reviewId ∈ acknowledged⟩)

/-- `_acknowledgment_misuse` of one acknowledged review. -/
def acknowledgmentMisuse (entries : List (MergePreview × NearMissMergeItem)) (reviewId : String) : Option ReviewFinding :=
  match entries.find? fun e => e.2.reviewId = reviewId with
  | none => some ⟨reviewId, .ackNotSelected⟩
  | some (preview, item) =>
    match item.kind, preview.acknowledgment with
    | .role, _ => some ⟨reviewId, .ackOnRole .role⟩
    | .capability, none => some ⟨reviewId, .ackNotNeeded⟩
    | .capability, some _ => none

/-- The acknowledgment an entry still needs. -/
def missingAcknowledgment (entry : MergePreview × NearMissMergeItem) : Option (String × GoverningPolicy) :=
  if entry.2.acknowledged then none else entry.1.acknowledgment.map fun policy => (entry.2.reviewId, policy)

/-- The finding of one preview, if any; an unreadable graph is none. -/
def previewFinding (built : ReviewMergeSides × Except MergeRefusal (MergePreview × NearMissMergeItem)) :
    Option ReviewFinding :=
  match built.2 with
  | .error refusal => some ⟨built.1.reviewId, .refused refusal⟩
  | .ok _ => none

def isUnreadable : Except MergeRefusal (MergePreview × NearMissMergeItem) → Bool
  | .error .unreadable => true
  | _ => false

/-- `_build_all`. -/
def buildAll (scan : String → ScanOrder) (g : Graph) (acknowledged : Finset String) (sides : List ReviewMergeSides) :
    Except NearMissBatchError (List NearMissMergeItem) := do
  let built := sides.map fun s => (s, entryAndItem sha256 rules (scan s.reviewId) g acknowledged s)
  refuseIf (built.any (fun b => isUnreadable b.2) = true) .unreadable
  let entries := built.filterMap fun b => b.2.toOption
  let findings := built.filterMap previewFinding ++ (sortedIds acknowledged).filterMap (acknowledgmentMisuse entries)
  if findings.isEmpty then
    match entries.filterMap missingAcknowledgment with
    | [] => .ok (entries.map Prod.snd)
    | missing => .error (.acknowledgmentRequired missing)
  else .error (.refused findings)

/-- `create_near_miss_merge_batch`: the items it signs. `scan` orders the rows of each review's reads. -/
def createNearMissMergeBatch (scan : String → ScanOrder) (g : Graph) (reviewIds : List String)
    (acknowledged : Finset String) : Except NearMissBatchError (List NearMissMergeItem) := do
  checkShape reviewIds
  let sides ← readSides g reviewIds
  buildAll sha256 rules scan g acknowledged sides

/-! ## The execution -/

/-- Why an item is not merged: the `reason_code`s of its `failed` row. -/
inductive ItemFailure where
  /-- The approver's role, the audit trail or the gateway did not let the merge through. -/
  | notLetThrough
  | graphUnavailable
  | revalidationRejected
  | acknowledgmentMissing
  | stateDigestMismatch
  | reviewMissingOrChanged
  | graphGuardMissed
  | graphWriteFailed
  deriving DecidableEq

def MergeRefusal.failure : MergeRefusal → ItemFailure
  | unreadable => .graphUnavailable
  | capability _ => .revalidationRejected
  | role _ => .revalidationRejected

/-- `_review_still_names_pair`, `validate_role_review`. -/
def reviewNamesPair (g : Graph) (item : NearMissMergeItem) : Bool :=
  stringColumn (nodeProperty g (reviewRef item.reviewId) "kind") = some item.kind.label &&
    match stringColumn (nodeProperty g (reviewRef item.reviewId) "incoming_id"),
      stringColumn (nodeProperty g (reviewRef item.reviewId) "nearest_existing_id") with
    | some incomingId, some existingId => ({incomingId, existingId} : Finset String) = {item.survivorId, item.absorbedId}
    | _, _ => false

/-- `_stale_refusal` and the last checks of `_replan_role_merge`, whose merges need no acknowledgment. -/
def requireFresh (g : Graph) (item : NearMissMergeItem) (preview : MergePreview) : Except ItemFailure Unit := do
  refuseIf (preview.acknowledgment.isSome = true ∧ item.acknowledged = false) .acknowledgmentMissing
  refuseIf (preview.stateDigest ≠ item.stateDigest) .stateDigestMismatch
  refuseIf (reviewNamesPair g item = false) .reviewMissingOrChanged

/-- The primitives of the group, where each is accepted. -/
def builtGroup (primitives : List RawPrimitive) : Except ItemFailure (List Primitive) :=
  match buildGroup primitives with
  | none => .error .graphWriteFailed
  | some ps => .ok ps

/-- `write_capability_merge`: the group it submits. -/
def writeCapabilityMerge (scan : ScanOrder) (g : Graph) (item : NearMissMergeItem) (expected : ExpectedCounts) :
    Except ItemFailure (List Primitive) :=
  match readCapabilityMergeState scan g item.survivorId item.absorbedId with
  | none => .error .graphWriteFailed
  | some state =>
    if capabilityMergeGuardHolds state expected item.absorbedId then
      builtGroup (capabilityMergePrimitives state item.survivorId item.absorbedId (some item.reviewId))
    else .error .graphGuardMissed

/-- `write_role_merge`: the group it submits. -/
def writeRoleMerge (scan : ScanOrder) (g : Graph) (item : NearMissMergeItem) (expected : RoleExpectedCounts) :
    Except ItemFailure (List Primitive) :=
  match readRoleMergeState scan g item.survivorId item.absorbedId with
  | none => .error .graphWriteFailed
  | some state =>
    if roleMergeGuardHolds state expected item.survivorId item.absorbedId then
      builtGroup (roleMergePrimitives state item.survivorId item.absorbedId (some item.reviewId))
    else .error .graphGuardMissed

/-- `execute_capability_merge`, `execute_role_merge`: the group an item submits. The plan and the guard read the graph
each in an order of their own. -/
def itemGroup (letThrough : Bool) (scan scan' : ScanOrder) (g : Graph) (item : NearMissMergeItem) :
    Except ItemFailure (List Primitive) :=
  if letThrough then
    match item.kind with
    | .capability => do
      let (plan, preview) ← (plannedCapabilityMerge sha256 scan g item.survivorId item.absorbedId).mapError
        MergeRefusal.failure
      requireFresh g item preview
      writeCapabilityMerge scan' g item plan.expected
    | .role => do
      let (plan, preview) ← (plannedRoleMerge sha256 rules scan g item.survivorId item.absorbedId).mapError
        MergeRefusal.failure
      requireFresh g item preview
      writeRoleMerge scan' g item plan.expected
  else .error .notLetThrough

/-- **A batch executed in some order**, with no other write: an item that fails changes nothing. `letThrough` is what
the approver's role, the audit trail and the gateway answer for each item. -/
inductive BatchRun (letThrough : NearMissMergeItem → Bool) : Graph → List NearMissMergeItem → Graph → Prop where
  | done (g : Graph) : BatchRun letThrough g [] g
  | merged {g g' : Graph} {item : NearMissMergeItem} {items : List NearMissMergeItem} {ps : List Primitive}
      (scan scan' : ScanOrder) : itemGroup sha256 rules (letThrough item) scan scan' g item = .ok ps →
      BatchRun letThrough (applyAll g ps) items g' → BatchRun letThrough g (item :: items) g'
  | failed {g g' : Graph} {item : NearMissMergeItem} {items : List NearMissMergeItem} {failure : ItemFailure}
      (scan scan' : ScanOrder) : itemGroup sha256 rules (letThrough item) scan scan' g item = .error failure →
      BatchRun letThrough g items g' → BatchRun letThrough g (item :: items) g'

end

end PolicySystem
