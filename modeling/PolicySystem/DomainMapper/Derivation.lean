import PolicySystem.DomainMapper.Prompts
import PolicySystem.Loop.Turns

/-!
# Derivation of Obligations and Capabilities

How one run derives Obligations from Requirements and Capabilities from Obligations (`domain_mapper/derivation.py`).
Each turn makes its LLM calls and then moves the state of the run. The completions are given by the call they answer:
one for each Requirement, one for each distinct Obligation, and one for each reuse that answer proposes.
-/

namespace PolicySystem.DomainMapper

open LastWins (under)

variable (rules : AnswerRules)

/-! ## Obligations -/

/-- `RoleRequirements`: the Requirements, `(id, text)`, of one Role. -/
structure RoleRequirements where
  roleNodeId : String
  roleName : String
  requirements : List (String × String)

structure ObligationNode where
  id : String
  text : String
  confidence : Double
  deriving DecidableEq

structure ObligationHasEdge where
  roleNodeId : String
  obligationNodeId : String
  deriving DecidableEq

structure RequirementSatisfiedByEdge where
  requirementId : String
  obligationNodeId : String
  deriving DecidableEq

/-- An Obligation of the run's registry, with the Role it is assigned to. -/
structure ObligationEntry where
  id : String
  text : String
  roleNodeId : String
  deriving DecidableEq

/-- `_DerivationState`. -/
structure DerivationState where
  registry : List ObligationEntry := []
  obligationNodes : List ObligationNode := []
  hasEdges : List ObligationHasEdge := []
  satisfiedByEdges : List RequirementSatisfiedByEdge := []
  unmatchedRequirementIds : List String := []
  deriving DecidableEq

/-- `_role_view`: the registered Obligations of one Role, with their texts. -/
def roleView (registry : List ObligationEntry) (roleNodeId : String) : List (String × String) :=
  (registry.filter fun entry => entry.roleNodeId = roleNodeId).map fun entry => (entry.id, entry.text)

/-- `_mark_unmatched`. -/
def markUnmatched (requirementId : String) (s : DerivationState) : DerivationState :=
  { s with unmatchedRequirementIds := s.unmatchedRequirementIds ++ [requirementId] }

/-- `_resolve_obligation_id`, with the node and the `HAS` edge of a mint. -/
def resolveObligation (roleNodeId id text : String) (confidence : Double) (s : DerivationState) : DerivationState :=
  match under ObligationEntry.id id s.registry with
  | some _ => s
  | none =>
    { s with
      registry := s.registry ++ [⟨id, text, roleNodeId⟩]
      obligationNodes := s.obligationNodes ++ [⟨id, text, confidence⟩]
      hasEdges := s.hasEdges ++ [⟨roleNodeId, id⟩] }

/-- What `_process_requirement` records of a duty text. -/
def recordObligation (roleNodeId requirementId proposed : String) (confidence : Double) (s : DerivationState) :
    DerivationState :=
  let id := obligationId rules.toHashing roleNodeId proposed
  let resolved := resolveObligation roleNodeId id proposed confidence s
  { resolved with satisfiedByEdges := resolved.satisfiedByEdges ++ [⟨requirementId, id⟩] }

/-- A Requirement to derive from: its Role, its id and its text. -/
structure RequirementTask where
  role : RoleRequirements
  requirementId : String
  requirementText : String

/-- The Requirements in the order they are processed. -/
def tasks (roles : List RoleRequirements) : List RequirementTask :=
  roles.flatMap fun role => role.requirements.map fun r => ⟨role, r.1, r.2⟩

/-- `_process_requirement`; `none` where the run ends. -/
def processRequirement (completions : ℕ → Completion) (k : ℕ) (s : DerivationState) (task : RequirementTask) :
    Option DerivationState :=
  match parseObligationResponse rules (completions k) task.requirementId task.role.roleNodeId
      (roleView s.registry task.role.roleNodeId) with
  | .error .fatal => none
  | .error .malformed => some (markUnmatched task.requirementId s)
  | .ok assignment =>
    match assignment.obligationNodeId, assignment.obligationText with
    | some _, some proposed =>
      some (recordObligation rules task.role.roleNodeId task.requirementId proposed assignment.confidence s)
    | _, _ => some (markUnmatched task.requirementId s)

/-- `_derive_obligations`. -/
def deriveObligations (completions : ℕ → Completion) (roles : List RoleRequirements) : Option DerivationState :=
  Loop.turns (processRequirement rules completions) {} (tasks roles)

/-! ## Capabilities -/

structure CapabilityNode where
  id : String
  name : String
  status : String
  confidence : Double
  description : Option String
  deriving DecidableEq

structure CapabilityRequiresEdge where
  obligationNodeId : String
  capabilityNodeId : String
  deriving DecidableEq

/-- `_CapabilityDerivationState`. -/
structure CapabilityDerivationState where
  registry : List CapabilityEntry := []
  capabilityNodes : List CapabilityNode := []
  requiresEdges : List CapabilityRequiresEdge := []
  unmatchedObligationIds : List String := []
  deriving DecidableEq

/-- The completions of one Obligation: of its answer, and of the verification of each decision of it. -/
structure ObligationAnswers where
  answer : Completion
  verification : ℕ → Completion

/-- `_distinct_obligations`: the first text of each id. -/
def distinctObligations (obligations : List ObligationNode) : List (String × String) :=
  FirstWins.collect Prod.fst (obligations.map fun o => (o.id, o.text))

/-- `_mint_verifier_capability`: malformed where the verifier's Capability exists already. -/
def mintVerifierCapability (decision : CapabilityDecision) (newName newDescription : String) (confidence : Double)
    (registry : List CapabilityEntry) : Except Failure CapabilityDecision :=
  let id := capabilityId rules.toHashing newName
  match under CapabilityEntry.id id registry with
  | some _ => .error .malformed
  | none => .ok ⟨decision.obligationNodeId, id, newName, some newDescription, confidence, false⟩

/-- `_verify_reuse`. -/
def verifyReuse (decision : CapabilityDecision) (registry : List CapabilityEntry) (completion : Completion) :
    Except Failure CapabilityDecision := do
  match ← parseCapabilityReuseVerdict rules completion with
  | .accept => return decision
  | .reject newName newDescription confidence =>
    mintVerifierCapability rules decision newName newDescription confidence registry

/-- The Resolve phase of `_process_obligation`: each proposed reuse is verified. -/
def resolveDecisions (obligationNodeId : String) (registry : List CapabilityEntry) (answers : ObligationAnswers) :
    Except Failure (List CapabilityDecision) := do
  let proposed ← parseCapabilityResponse rules answers.answer obligationNodeId registry
  proposed.zipIdx.mapM fun p =>
    if p.1.isReuse then verifyReuse rules p.1 registry (answers.verification p.2) else .ok p.1

/-- `_to_capability_node`. -/
def toCapabilityNode (decision : CapabilityDecision) : CapabilityNode :=
  ⟨decision.capabilityNodeId, decision.name, "active", decision.confidence, decision.description⟩

/-- A Capability whose id is new is registered. -/
def registerCapability (decision : CapabilityDecision) (s : CapabilityDerivationState) : CapabilityDerivationState :=
  match under CapabilityEntry.id decision.capabilityNodeId s.registry with
  | some _ => s
  | none =>
    { s with
      registry := s.registry ++ [⟨decision.capabilityNodeId, decision.name, decision.description⟩]
      capabilityNodes := s.capabilityNodes ++ [toCapabilityNode decision] }

/-- One turn of the Apply phase of `_process_obligation`. -/
def applyDecision (obligationNodeId : String) (s : CapabilityDerivationState) (decision : CapabilityDecision) :
    CapabilityDerivationState :=
  let registered := registerCapability decision s
  { registered with requiresEdges := registered.requiresEdges ++ [⟨obligationNodeId, decision.capabilityNodeId⟩] }

/-- `_mark_capability_unmatched`. -/
def markCapabilityUnmatched (obligationNodeId : String) (s : CapabilityDerivationState) : CapabilityDerivationState :=
  { s with unmatchedObligationIds := s.unmatchedObligationIds ++ [obligationNodeId] }

/-- `_process_obligation`; `none` where the run ends. -/
def processObligation (answers : ℕ → ObligationAnswers) (k : ℕ) (s : CapabilityDerivationState)
    (obligation : String × String) : Option CapabilityDerivationState :=
  match resolveDecisions rules obligation.1 s.registry (answers k) with
  | .error .fatal => none
  | .error .malformed => some (markCapabilityUnmatched obligation.1 s)
  | .ok decisions => some (decisions.foldl (applyDecision obligation.1) s)

/-- `_derive_capabilities`. -/
def deriveCapabilities (answers : ℕ → ObligationAnswers) (obligations : List ObligationNode) :
    Option CapabilityDerivationState :=
  Loop.turns (processObligation rules answers) {} (distinctObligations obligations)

/-- What `derive_obligations_and_capabilities` submits and reports. -/
structure Derivation where
  obligations : DerivationState
  capabilities : CapabilityDerivationState

/-- `derive_obligations_and_capabilities`, on the Requirements it reads. -/
def deriveObligationsAndCapabilities (completions : ℕ → Completion) (answers : ℕ → ObligationAnswers)
    (roles : List RoleRequirements) : Option Derivation := do
  let obligations ← deriveObligations rules completions roles
  let capabilities ← deriveCapabilities rules answers obligations.obligationNodes
  return ⟨obligations, capabilities⟩

end PolicySystem.DomainMapper
