import PolicySystem.Cleanup.GraphReader

/-!
# The merge planners

What a merge preview is computed from (`merge_planner.py`, `obligation_planner.py`, `role_planner.py` of
`graph_cleanup`): the before and after snapshots and what the guarded write pins. The preview's display fields
and its digest are not modelled.
-/

namespace PolicySystem

open Std (ExtTreeMap)

/-! ## Refusals -/

/-- `if condition: raise`. -/
def refuseIf {ε : Type} (condition : Prop) [Decidable condition] (e : ε) : Except ε Unit :=
  if condition then .error e else .ok ()

@[simp] theorem refuseIf_ok {ε : Type} {condition : Prop} [Decidable condition] {e : ε} {u : Unit} :
    refuseIf condition e = .ok u ↔ ¬ condition := by
  by_cases h : condition <;> simp [refuseIf, h]

/-! ## Snapshots -/

/-- The two nodes of a merge. -/
inductive MergeSide where
  | survivor
  | absorbed
  deriving DecidableEq

/-- The properties of a marker. -/
def mergedInto (survivorId : String) : PropertyMap := (∅ : PropertyMap).insert "merged_into" (.scalar (.str survivorId))

/-- `_sorted_edges`. -/
def sortedEdges (edges : List EdgeRecord) : List EdgeRecord := edges.insertionSort fun a b => a.sortKey ≤ b.sortKey

@[simp] theorem mem_sortedEdges {edges : List EdgeRecord} {e : EdgeRecord} : e ∈ sortedEdges edges ↔ e ∈ edges :=
  (List.perm_insertionSort _ edges).mem_iff

/-- The distinct sources of the edges of a type into a node, sorted. -/
def incomingSources (edges : List EdgeRecord) (relType targetId : String) : List String :=
  sortedIds ((edges.filter fun e => e.relType = relType ∧ e.targetId = targetId).map EdgeRecord.sourceId).toFinset

/-- The distinct targets of the edges of a type out of a node, sorted. -/
def outgoingTargets (edges : List EdgeRecord) (relType sourceId : String) : List String :=
  sortedIds ((edges.filter fun e => e.relType = relType ∧ e.sourceId = sourceId).map EdgeRecord.targetId).toFinset

theorem mem_incomingSources {edges : List EdgeRecord} {relType targetId source : String} :
    source ∈ incomingSources edges relType targetId ↔
      ∃ e ∈ edges, e.relType = relType ∧ e.targetId = targetId ∧ e.sourceId = source := by
  simp only [incomingSources, mem_sortedIds, List.mem_toFinset, List.mem_map, List.mem_filter, decide_eq_true_eq,
    and_assoc]

theorem mem_outgoingTargets {edges : List EdgeRecord} {relType sourceId target : String} :
    target ∈ outgoingTargets edges relType sourceId ↔
      ∃ e ∈ edges, e.relType = relType ∧ e.sourceId = sourceId ∧ e.targetId = target := by
  simp only [outgoingTargets, mem_sortedIds, List.mem_toFinset, List.mem_map, List.mem_filter, decide_eq_true_eq,
    and_assoc]

/-! ## Capabilities -/

/-- What `validate_capability_merge` refuses. -/
inductive CapabilityMergeError where
  /-- "a capability cannot be merged into itself" -/
  | selfMerge
  /-- "the ... capability does not exist" -/
  | missing (side : MergeSide)
  /-- "the ... capability ... is not active (status ...)" -/
  | notActive (side : MergeSide) (id status : String)
  /-- "a capability has more than one governing policy; this is a data fault" -/
  | severalPolicies
  /-- "cannot merge: capability ... is governed by policy ... and capability ... by policy ..." -/
  | differentPolicies (survivor absorbed : GoverningPolicy)
  deriving DecidableEq

/-- `ExpectedCounts`. -/
structure ExpectedCounts where
  requires : ℕ
  covers : ℕ
  mitigated : ℕ
  absorbedGoverned : ℕ := 0
  survivorGoverned : ℕ := 0
  absorbedPolicyId : Option String := none
  absorbedPolicyStatus : Option String := none
  survivorPolicyId : Option String := none
  survivorPolicyStatus : Option String := none
  deriving DecidableEq

/-- The snapshots and the pinned values of a plan. -/
structure MergePlan (Expected : Type) where
  expected : Expected
  before : GraphSnapshot
  after : GraphSnapshot

/-- `_require_active`. -/
def requireActive (node : CapabilityNodeState) (side : MergeSide) : Except CapabilityMergeError Unit :=
  refuseIf (node.status ≠ "active") (.notActive side node.id node.status)

/-- The last check of `validate_capability_merge`. -/
def requireSamePolicy (state : MergeState) : Except CapabilityMergeError Unit :=
  match state.survivorPolicies.head?, state.absorbedPolicies.head? with
  | some p, some q => refuseIf (p.id ≠ q.id) (.differentPolicies p q)
  | _, _ => .ok ()

/-- `validate_capability_merge`. -/
def validateCapabilityMerge (state : MergeState) :
    Except CapabilityMergeError (CapabilityNodeState × CapabilityNodeState) :=
  match state.survivor, state.absorbed with
  | none, _ => .error (.missing .survivor)
  | some _, none => .error (.missing .absorbed)
  | some survivor, some absorbed => do
    refuseIf (survivor.id = absorbed.id) .selfMerge
    requireActive survivor .survivor
    requireActive absorbed .absorbed
    refuseIf (state.survivorPolicies.length > 1 ∨ state.absorbedPolicies.length > 1) .severalPolicies
    requireSamePolicy state
    return (survivor, absorbed)

/-- `_snapshot_node` of a Capability. -/
def snapshotCapability (node : CapabilityNodeState) : NodeRecord :=
  ⟨"Capability", node.id,
    (node.properties.insert "name" (.scalar (.str node.name))).insert "status" (.scalar (.str node.status))⟩

/-- Adds or replaces the policy of this id. -/
def putPolicy (policies : List GoverningPolicy) (p : GoverningPolicy) : List GoverningPolicy :=
  if p.id ∈ policies.map GoverningPolicy.id then policies.map fun q => if q.id = p.id then p else q
  else policies ++ [p]

/-- `_distinct_policies`: `{policy.id: policy}`, in the order the ids were first met. -/
def distinctPolicies (policies : List GoverningPolicy) : List GoverningPolicy := policies.foldl putPolicy []

/-- The snapshot node of a Policy. -/
def snapshotPolicy (p : GoverningPolicy) : NodeRecord :=
  ⟨"Policy", p.id, ((∅ : PropertyMap).insert "title" (.scalar (.str p.title))).insert "status" (.scalar (.str p.status))⟩

/-- `sorted(on_survivor | set(on_absorbed))`. -/
def sortedUnion (a b : List String) : List String := sortedIds (a.toFinset ∪ b.toFinset)

/-- `_expected`. -/
def expectedCounts (state : MergeState) (requires covers mitigated : ℕ) : ExpectedCounts where
  requires := requires
  covers := covers
  mitigated := mitigated
  absorbedGoverned := state.absorbedPolicies.length
  survivorGoverned := state.survivorPolicies.length
  absorbedPolicyId := state.absorbedPolicies.head?.map GoverningPolicy.id
  absorbedPolicyStatus := state.absorbedPolicies.head?.map GoverningPolicy.status
  survivorPolicyId := state.survivorPolicies.head?.map GoverningPolicy.id
  survivorPolicyStatus := state.survivorPolicies.head?.map GoverningPolicy.status

/-- The plan of a validated merge. -/
def capabilityMergePlan (state : MergeState) (survivor absorbed : CapabilityNodeState) : MergePlan ExpectedCounts :=
  let incident := state.edges.filter fun e => e.targetId = survivor.id ∨ e.targetId = absorbed.id
  let moved (c : EdgeClass) := incomingSources incident c.relType absorbed.id
  let policies := distinctPolicies (state.survivorPolicies ++ state.absorbedPolicies)
  let governedBefore := state.survivorPolicies.map (fun p => governedBy survivor.id p.id) ++
    state.absorbedPolicies.map fun p => governedBy absorbed.id p.id
  let afterEdges := (EdgeClass.all.flatMap fun c =>
      (sortedUnion (incomingSources incident c.relType survivor.id) (moved c)).map fun source => classEdge c source survivor.id) ++
    policies.map fun p => governedBy survivor.id p.id
  { expected := expectedCounts state (moved .requires).length (moved .covers).length (moved .mitigatedBy).length
    before := ⟨[snapshotCapability survivor, snapshotCapability absorbed] ++ policies.map snapshotPolicy,
      sortedEdges (incident ++ governedBefore)⟩
    after := ⟨[snapshotCapability survivor, ⟨"MergedCapability", absorbed.id, mergedInto survivor.id⟩] ++
        policies.map snapshotPolicy,
      sortedEdges afterEdges⟩ }

/-- `plan_capability_merge`. -/
def planCapabilityMerge (state : MergeState) : Except CapabilityMergeError (MergePlan ExpectedCounts) := do
  let (survivor, absorbed) ← validateCapabilityMerge state
  return capabilityMergePlan state survivor absorbed

/-- What a validated state has. -/
structure CapabilityMergeValid (state : MergeState) (survivor absorbed : CapabilityNodeState) : Prop where
  hasSurvivor : state.survivor = some survivor
  hasAbsorbed : state.absorbed = some absorbed
  distinct : survivor.id ≠ absorbed.id
  survivorActive : survivor.status = "active"
  absorbedActive : absorbed.status = "active"
  onePolicy : state.survivorPolicies.length ≤ 1 ∧ state.absorbedPolicies.length ≤ 1
  samePolicy : ∀ p ∈ state.survivorPolicies, ∀ q ∈ state.absorbedPolicies, p.id = q.id

/-- A list of at most one element has it at its head. -/
theorem head?_of_mem {α : Type} {items : List α} {x : α} (hone : items.length ≤ 1) (h : x ∈ items) :
    items = [x] := by
  match items, hone, h with
  | [y], _, h => rw [List.mem_singleton.1 h]

theorem requireSamePolicy_ok {state : MergeState} {u : Unit}
    (hone : state.survivorPolicies.length ≤ 1 ∧ state.absorbedPolicies.length ≤ 1)
    (h : requireSamePolicy state = .ok u) : ∀ p ∈ state.survivorPolicies, ∀ q ∈ state.absorbedPolicies, p.id = q.id := by
  intro p hp q hq
  rw [requireSamePolicy, head?_of_mem hone.1 hp, head?_of_mem hone.2 hq] at h
  exact not_not.1 (refuseIf_ok.1 h)

theorem planCapabilityMerge_ok {state : MergeState} {plan : MergePlan ExpectedCounts}
    (h : planCapabilityMerge state = .ok plan) :
    ∃ survivor absorbed, CapabilityMergeValid state survivor absorbed ∧
      plan = capabilityMergePlan state survivor absorbed := by
  obtain ⟨⟨survivor, absorbed⟩, hvalid, hplan⟩ := bind_ok.1 h
  refine ⟨survivor, absorbed, ?_, (Except.ok.inj hplan).symm⟩
  unfold validateCapabilityMerge at hvalid
  split at hvalid
  · cases hvalid
  · cases hvalid
  · rename_i x y hs ha
    simp only [bind_ok, requireActive, refuseIf_ok, exists_and_left, exists_const, not_or, not_lt] at hvalid
    obtain ⟨hne, hsactive, haactive, hone, u, hpolicies, hresult⟩ := hvalid
    cases hresult
    refine ⟨hs, ha, hne, not_not.1 hsactive, not_not.1 haactive, hone, requireSamePolicy_ok hone hpolicies⟩

/-! ## Obligations -/

/-- What `validate_obligation_merge` refuses. -/
inductive ObligationMergeError where
  /-- "an obligation cannot be merged into itself" -/
  | selfMerge
  /-- "the ... obligation does not exist" -/
  | missing (side : MergeSide)
  /-- "the ... obligation ... is not borne by exactly one role" -/
  | notOneRole (side : MergeSide) (id : String)
  /-- "obligations under different roles cannot be merged: ..." -/
  | differentRoles (survivor absorbed : RoleRef)
  deriving DecidableEq

/-- `ObligationExpectedCounts`. -/
structure ObligationExpectedCounts where
  satisfied : ℕ
  requires : ℕ
  deriving DecidableEq

/-- `_single_role`. -/
def singleRole (roles : List RoleRef) (side : MergeSide) (nodeId : String) : Except ObligationMergeError RoleRef :=
  match roles with
  | [role] => .ok role
  | _ => .error (.notOneRole side nodeId)

/-- `validate_obligation_merge`. -/
def validateObligationMerge (state : ObligationMergeState) :
    Except ObligationMergeError (ObligationNodeState × ObligationNodeState × RoleRef) :=
  match state.survivor, state.absorbed with
  | none, _ => .error (.missing .survivor)
  | some _, none => .error (.missing .absorbed)
  | some survivor, some absorbed => do
    refuseIf (survivor.id = absorbed.id) .selfMerge
    let survivorRole ← singleRole state.survivorRoles .survivor survivor.id
    let absorbedRole ← singleRole state.absorbedRoles .absorbed absorbed.id
    refuseIf (survivorRole.id ≠ absorbedRole.id) (.differentRoles survivorRole absorbedRole)
    return (survivor, absorbed, survivorRole)

/-- `_snapshot_node` of an Obligation. -/
def snapshotObligation (node : ObligationNodeState) : NodeRecord :=
  ⟨"Obligation", node.id, node.properties.insert "text" (.scalar (.str node.text))⟩

/-- The plan of a validated merge. -/
def obligationMergePlan (state : ObligationMergeState) (survivor absorbed : ObligationNodeState) (role : RoleRef) :
    MergePlan ObligationExpectedCounts :=
  let incident := state.edges.filter fun e =>
    (survivor.id = e.sourceId ∨ survivor.id = e.targetId) ∨ (absorbed.id = e.sourceId ∨ absorbed.id = e.targetId)
  let satOnAbsorbed := incomingSources incident "SATISFIED_BY" absorbed.id
  let reqOnAbsorbed := outgoingTargets incident "REQUIRES" absorbed.id
  let afterEdges := [hasEdge role.id survivor.id] ++
    (sortedUnion (incomingSources incident "SATISFIED_BY" survivor.id) satOnAbsorbed).map
      (satisfiedByEdge · survivor.id) ++
    (sortedUnion (outgoingTargets incident "REQUIRES" survivor.id) reqOnAbsorbed).map (requiresEdge survivor.id ·)
  { expected := ⟨satOnAbsorbed.length, reqOnAbsorbed.length⟩
    before := ⟨[snapshotObligation survivor, snapshotObligation absorbed],
      sortedEdges ([hasEdge role.id survivor.id, hasEdge role.id absorbed.id] ++ incident)⟩
    after := ⟨[snapshotObligation survivor, ⟨"MergedObligation", absorbed.id, mergedInto survivor.id⟩],
      sortedEdges afterEdges⟩ }

/-- `plan_obligation_merge`. -/
def planObligationMerge (state : ObligationMergeState) :
    Except ObligationMergeError (MergePlan ObligationExpectedCounts) := do
  let (survivor, absorbed, role) ← validateObligationMerge state
  return obligationMergePlan state survivor absorbed role

/-- What a validated state has. -/
structure ObligationMergeValid (state : ObligationMergeState) (survivor absorbed : ObligationNodeState)
    (role : RoleRef) : Prop where
  hasSurvivor : state.survivor = some survivor
  hasAbsorbed : state.absorbed = some absorbed
  distinct : survivor.id ≠ absorbed.id
  survivorRole : state.survivorRoles = [role]
  absorbedRole : ∃ r, state.absorbedRoles = [r] ∧ r.id = role.id

theorem singleRole_ok {roles : List RoleRef} {side : MergeSide} {nodeId : String} {role : RoleRef}
    (h : singleRole roles side nodeId = .ok role) : roles = [role] := by
  unfold singleRole at h
  split at h
  · cases h
    rfl
  · cases h

theorem planObligationMerge_ok {state : ObligationMergeState} {plan : MergePlan ObligationExpectedCounts}
    (h : planObligationMerge state = .ok plan) :
    ∃ survivor absorbed role, ObligationMergeValid state survivor absorbed role ∧
      plan = obligationMergePlan state survivor absorbed role := by
  obtain ⟨⟨survivor, absorbed, role⟩, hvalid, hplan⟩ := bind_ok.1 h
  refine ⟨survivor, absorbed, role, ?_, (Except.ok.inj hplan).symm⟩
  unfold validateObligationMerge at hvalid
  split at hvalid
  · cases hvalid
  · cases hvalid
  · rename_i x y hs ha
    simp only [bind_ok, refuseIf_ok, exists_and_left] at hvalid
    obtain ⟨hne, -, r, hr, q, hq, hsame, -, hresult⟩ := hvalid
    cases hresult
    exact ⟨hs, ha, hne, singleRole_ok hr, q, singleRole_ok hq, (not_not.1 hsame).symm⟩

/-! ## Roles -/

/-- What `validate_role_merge` refuses. -/
inductive RoleMergeError where
  /-- "a role cannot be merged into itself" -/
  | selfMerge
  /-- "the ... id ... is a MergedRole marker, ..." -/
  | isMarker (side : MergeSide) (id : String)
  /-- "the ... role does not exist" -/
  | missing (side : MergeSide)
  /-- "the ... role ... is not defined by exactly one instrument (found ...)" -/
  | notOneInstrument (side : MergeSide) (id : String) (found : ℕ)
  /-- "roles defined by different instruments cannot be merged: ..." -/
  | differentInstruments (survivor absorbed : String)
  /-- "the absorbed role ... has edges other than DEFINES and HAS, ..." -/
  | otherEdges (id : String)
  /-- "the obligation ... is also borne by the role ...; ..." -/
  | foreignBearer (obligationId roleId : String)
  deriving DecidableEq

/-- `RoleExpectedCounts`. -/
structure RoleExpectedCounts where
  absorbedObligationIds : List String
  survivorObligationIds : List String
  deriving DecidableEq

/-- `_present`. -/
def present (state : RoleMergeState) (side : MergeSide) : Except RoleMergeError RoleState :=
  let (role, roleId) := match side with
    | .survivor => (state.survivor, state.survivorId)
    | .absorbed => (state.absorbed, state.absorbedId)
  match role with
  | some role => .ok role
  | none => if roleId ∈ state.markerIds then .error (.isMarker side roleId) else .error (.missing side)

/-- `_instrument_of`. -/
def instrumentOf (defines : List RoleDefines) (side : MergeSide) (roleId : String) : Except RoleMergeError String :=
  match defines with
  | [d] => .ok d.instrumentId
  | _ => .error (.notOneInstrument side roleId defines.length)

/-- The first of the foreign bearers by Obligation and Role. -/
def firstBearer (bearers : List EdgeRecord) : Option EdgeRecord :=
  (bearers.insertionSort fun a b => [a.targetId, a.sourceId] ≤ [b.targetId, b.sourceId]).head?

/-- The refusal of a foreign bearer. -/
def rejectForeignBearers (bearers : List EdgeRecord) : Except RoleMergeError Unit :=
  match firstBearer bearers with
  | some e => .error (.foreignBearer e.targetId e.sourceId)
  | none => .ok ()

/-- `_reject_edges_the_merge_cannot_move`. -/
def rejectEdgesTheMergeCannotMove (state : RoleMergeState) (absorbed : RoleState) : Except RoleMergeError Unit := do
  refuseIf (state.absorbedDegree ≠ state.absorbedDefines.length + state.absorbedObligationIds.length)
    (.otherEdges absorbed.id)
  rejectForeignBearers state.foreignBearers

/-- `validate_role_merge`. -/
def validateRoleMerge (state : RoleMergeState) : Except RoleMergeError (RoleState × RoleState × String) := do
  refuseIf (state.survivorId = state.absorbedId) .selfMerge
  let survivor ← present state .survivor
  let absorbed ← present state .absorbed
  let survivorInstrument ← instrumentOf state.survivorDefines .survivor survivor.id
  let absorbedInstrument ← instrumentOf state.absorbedDefines .absorbed absorbed.id
  refuseIf (survivorInstrument ≠ absorbedInstrument) (.differentInstruments survivorInstrument absorbedInstrument)
  rejectEdgesTheMergeCannotMove state absorbed
  return (survivor, absorbed, survivorInstrument)

/-- `snapshot_role_node`. -/
def snapshotRoleNode (role : RoleState) : NodeRecord :=
  ⟨"Role", role.id, (∅ : PropertyMap).insert "name" (.scalar (.str role.name)) ∪ role.properties⟩

/-- The plan of a validated merge. -/
def roleMergePlan (state : RoleMergeState) (survivor absorbed : RoleState) (instrumentId : String) :
    MergePlan RoleExpectedCounts :=
  let moved := sortedList state.absorbedObligationIds
  { expected := ⟨moved, sortedList state.survivorObligationIds⟩
    before := ⟨[snapshotRoleNode survivor, snapshotRoleNode absorbed],
      sortedEdges ([definesEdge instrumentId survivor.id, definesEdge instrumentId absorbed.id] ++
        moved.map (hasEdge absorbed.id ·))⟩
    after := ⟨[snapshotRoleNode survivor, ⟨"MergedRole", absorbed.id, mergedInto survivor.id⟩],
      sortedEdges ([definesEdge instrumentId survivor.id] ++ moved.map (hasEdge survivor.id ·))⟩ }

/-- `plan_role_merge`. -/
def planRoleMerge (state : RoleMergeState) : Except RoleMergeError (MergePlan RoleExpectedCounts) := do
  let (survivor, absorbed, instrumentId) ← validateRoleMerge state
  return roleMergePlan state survivor absorbed instrumentId

/-- What a validated state has. -/
structure RoleMergeValid (state : RoleMergeState) (survivor absorbed : RoleState) (instrumentId : String) : Prop where
  distinct : state.survivorId ≠ state.absorbedId
  hasSurvivor : state.survivor = some survivor
  hasAbsorbed : state.absorbed = some absorbed
  survivorDefines : ∃ d, state.survivorDefines = [d] ∧ d.instrumentId = instrumentId
  absorbedDefines : ∃ d, state.absorbedDefines = [d] ∧ d.instrumentId = instrumentId
  degree : state.absorbedDegree = state.absorbedDefines.length + state.absorbedObligationIds.length
  noForeign : state.foreignBearers = []

/-- The Role a side of the state has. -/
def RoleMergeState.side (state : RoleMergeState) : MergeSide → Option RoleState
  | .survivor => state.survivor
  | .absorbed => state.absorbed

theorem present_ok {state : RoleMergeState} {side : MergeSide} {role : RoleState} (h : present state side = .ok role) :
    state.side side = some role := by
  cases side
  all_goals
    simp only [present, RoleMergeState.side] at h ⊢
    split at h
    · cases h
      assumption
    · split at h <;> cases h

theorem instrumentOf_ok {defines : List RoleDefines} {side : MergeSide} {roleId instrumentId : String}
    (h : instrumentOf defines side roleId = .ok instrumentId) : ∃ d, defines = [d] ∧ d.instrumentId = instrumentId := by
  unfold instrumentOf at h
  split at h
  · rename_i d
    cases h
    exact ⟨d, rfl, rfl⟩
  · cases h

theorem rejectForeignBearers_ok {bearers : List EdgeRecord} {u : Unit} (h : rejectForeignBearers bearers = .ok u) :
    bearers = [] := by
  unfold rejectForeignBearers at h
  split at h
  · cases h
  · rename_i hnone
    have hlen := List.length_insertionSort (fun a b : EdgeRecord => [a.targetId, a.sourceId] ≤ [b.targetId, b.sourceId]) bearers
    rw [List.head?_eq_none_iff.1 hnone] at hlen
    exact List.length_eq_zero_iff.1 hlen.symm

theorem validateRoleMerge_ok {state : RoleMergeState} {survivor absorbed : RoleState} {instrumentId : String}
    (h : validateRoleMerge state = .ok (survivor, absorbed, instrumentId)) :
    RoleMergeValid state survivor absorbed instrumentId := by
  simp only [validateRoleMerge, rejectEdgesTheMergeCannotMove, bind_ok, refuseIf_ok, exists_and_left, exists_const] at h
  obtain ⟨hne, x, hx, y, hy, i, hi, j, hj, hsame, u, ⟨hdegree, hforeign⟩, hresult⟩ := h
  cases hresult
  rw [← not_not.1 hsame] at hj
  exact ⟨hne, present_ok hx, present_ok hy, instrumentOf_ok hi, instrumentOf_ok hj, not_not.1 hdegree,
    rejectForeignBearers_ok hforeign⟩

theorem planRoleMerge_ok {state : RoleMergeState} {plan : MergePlan RoleExpectedCounts}
    (h : planRoleMerge state = .ok plan) :
    ∃ survivor absorbed instrumentId, RoleMergeValid state survivor absorbed instrumentId ∧
      plan = roleMergePlan state survivor absorbed instrumentId := by
  obtain ⟨⟨survivor, absorbed, instrumentId⟩, hvalid, hplan⟩ := bind_ok.1 h
  exact ⟨survivor, absorbed, instrumentId, validateRoleMerge_ok hvalid, (Except.ok.inj hplan).symm⟩

end PolicySystem
