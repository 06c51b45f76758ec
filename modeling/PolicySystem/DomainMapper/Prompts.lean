import PolicySystem.Dict.FirstWins
import PolicySystem.DomainMapper.Identity
import PolicySystem.Gateway.Validation

/-!
# Answers of the model

How a completion's text is read (`domain_mapper/prompts.py`): an Obligation for a Requirement, the Capabilities of an
Obligation, the verdict on a reuse. The text is untrusted: whatever does not fit is malformed.
-/

namespace PolicySystem.DomainMapper

open LastWins (under)

/-- What `json.loads` makes of a text: a value, a `JSONDecodeError`, or another exception, which ends the run. -/
inductive Loaded where
  | value (v : PyValue)
  | invalid
  | raised

/-- What an LLM call gives: a completion's text, or an `LlmProviderError`, which ends the run. -/
inductive Completion where
  | text (s : String)
  | failed

/-- Why an answer gives nothing: it is malformed (`DomainMapperDerivationError`), or the run ends. -/
inductive Failure where
  | malformed
  | fatal
  deriving DecidableEq

/-- The readers of an answer: `json.loads`, and pydantic's reading of a float within `[0, 1]`. -/
structure AnswerRules extends StringRules where
  loads : String → Loaded
  confidence : PyValue → Option Double

variable (rules : AnswerRules)

/-- `payload.get(key)`. -/
def field (key : String) (payload : List (String × PyValue)) : PyValue :=
  ((under Prod.fst key payload).map Prod.snd).getD .none

/-- The JSON object of a completion. -/
def loadObject : Completion → Except Failure (List (String × PyValue))
  | .failed => .error .fatal
  | .text s =>
    match rules.loads s with
    | .raised => .error .fatal
    | .value (.dict items) => .ok items
    | _ => .error .malformed

/-- `isinstance(value, str)`. -/
def textOf : PyValue → Option String
  | .str s => some s
  | _ => none

/-- A text that is not blank. -/
def fullText : PyValue → Option String
  | .str s => if rules.isBlank s then none else some s
  | _ => none

def readConfidence (v : PyValue) : Except Failure Double :=
  match rules.confidence v with
  | some c => .ok c
  | none => .error .malformed

/-! ## Obligations -/

structure ObligationAssignment where
  requirementId : String
  roleNodeId : String
  obligationNodeId : Option String
  obligationText : Option String
  confidence : Double

/-- `_resolve_proposed_obligation_text`: a match within the Role's own Obligations, else a new text. -/
def resolveProposedObligationText (payload : List (String × PyValue)) (roleView : List (String × String)) :
    Except Failure String :=
  let existing := (textOf (field "matched_existing_id" payload)).bind fun id => under Prod.fst id roleView
  match existing, fullText rules (field "new_text" payload) with
  | some entry, _ => .ok entry.2
  | none, some new => .ok new
  | none, none => .error .malformed

/-- `parse_obligation_response`. -/
def parseObligationResponse (completion : Completion) (requirementId roleNodeId : String)
    (roleView : List (String × String)) : Except Failure ObligationAssignment := do
  let payload ← loadObject rules completion
  match field "unmatchable" payload with
  | .bool true =>
    let confidence ← readConfidence rules (field "confidence" payload)
    return ⟨requirementId, roleNodeId, none, none, confidence⟩
  | _ =>
    let proposed ← resolveProposedObligationText rules payload roleView
    let confidence ← readConfidence rules (field "confidence" payload)
    return ⟨requirementId, roleNodeId, some (obligationId rules.toHashing roleNodeId proposed), some proposed, confidence⟩

/-! ## Capabilities -/

/-- A Capability of the run's registry. -/
structure CapabilityEntry where
  id : String
  name : String
  description : Option String
  deriving DecidableEq

structure CapabilityDecision where
  obligationNodeId : String
  capabilityNodeId : String
  name : String
  description : Option String
  confidence : Double
  isReuse : Bool
  deriving DecidableEq

/-- `_load_capability_items`. -/
def loadCapabilityItems (completion : Completion) : Except Failure (List PyValue) := do
  let payload ← loadObject rules completion
  match under Prod.fst "capabilities" payload with
  | some (_, .list items) => return items
  | _ => throw .malformed

/-- The mint of `_resolve_capability`; a name whose id is registered stands for the Capability there. -/
def mintCapability (item : List (String × PyValue)) (registry : List CapabilityEntry) :
    Except Failure (CapabilityEntry × Bool) :=
  match fullText rules (field "new_name" item) with
  | none => .error .malformed
  | some name =>
    let id := capabilityId rules.toHashing name
    match under CapabilityEntry.id id registry with
    | some existing => .ok (existing, true)
    | none => .ok (⟨id, name, textOf (field "new_description" item)⟩, false)

/-- `_resolve_capability`: an id, a name, a description, and whether the Capability exists already. -/
def resolveCapability (item : List (String × PyValue)) (registry : List CapabilityEntry) :
    Except Failure (CapabilityEntry × Bool) :=
  match (textOf (field "matched_existing_id" item)).bind fun id => under CapabilityEntry.id id registry with
  | some existing => .ok (existing, true)
  | none => mintCapability rules item registry

/-- `_build_capability_decision`. -/
def buildCapabilityDecision (obligationNodeId : String) (registry : List CapabilityEntry) :
    PyValue → Except Failure CapabilityDecision
  | .dict item => do
    let (entry, isReuse) ← resolveCapability rules item registry
    let confidence ← readConfidence rules (field "confidence" item)
    return ⟨obligationNodeId, entry.id, entry.name, entry.description, confidence, isReuse⟩
  | _ => .error .malformed

/-- `parse_capability_response`. -/
def parseCapabilityResponse (completion : Completion) (obligationNodeId : String) (registry : List CapabilityEntry) :
    Except Failure (List CapabilityDecision) := do
  let items ← loadCapabilityItems rules completion
  items.mapM (buildCapabilityDecision rules obligationNodeId registry)

/-! ## Verdicts on a reuse -/

/-- A complete `CapabilityReuseVerdict`: a rejection names the Capability to mint. -/
inductive CapabilityReuseVerdict where
  | accept
  | reject (newName newDescription : String) (confidence : Double)

/-- A field `str | None` that may be missing. -/
def optionalText : PyValue → Except Failure (Option String)
  | .none => .ok none
  | .str s => .ok (some s)
  | _ => .error .malformed

/-- A field `float | None` within `[0, 1]` that may be missing. -/
def optionalConfidence : PyValue → Except Failure (Option Double)
  | .none => .ok none
  | v => (readConfidence rules v).map some

/-- `_require_complete_reject`. -/
def requireCompleteReject (newName newDescription : Option String) (confidence : Option Double) :
    Except Failure CapabilityReuseVerdict :=
  match newName.filter (!rules.isBlank ·), newDescription.filter (!rules.isBlank ·), confidence with
  | some name, some description, some confidence => .ok (.reject name description confidence)
  | _, _, _ => .error .malformed

/-- `parse_capability_reuse_verdict`. -/
def parseCapabilityReuseVerdict (completion : Completion) : Except Failure CapabilityReuseVerdict := do
  let payload ← loadObject rules completion
  let newName ← optionalText (field "new_name" payload)
  let newDescription ← optionalText (field "new_description" payload)
  let confidence ← optionalConfidence rules (field "confidence" payload)
  match textOf (field "verdict" payload) with
  | some "accept" => return .accept
  | some "reject" => requireCompleteReject rules newName newDescription confidence
  | _ => throw .malformed

end PolicySystem.DomainMapper
