import PolicySystem.Cleanup.RoundTrip

/-!
# An Obligation merge and its unmerge

What the audit row of an Obligation merge says to reverse, the live state an unmerge is planned against, its guard and
its group (`unmerge_planner.py`, `graph_reader.py` and `group_builders.py` of `graph_cleanup`), run right after the
merge.

* `obligation_merge_unmerge_restores`: the absorbed Obligation comes back as it was, and the survivor loses nothing.
-/

namespace PolicySystem

open PropertyGraph GraphWrite Std

/-! ## What to reverse -/

/-- The fields of an `obligation.merge` audit row that an unmerge reads. -/
structure ObligationMergeDetails where
  survivorId : String
  absorbedId : String
  roleId : String
  before : Option GraphSnapshot
  after : Option GraphSnapshot

/-- `ObligationUnmergeInputs`. -/
structure ObligationUnmergeInputs where
  survivorId : String
  absorbedId : String
  roleId : String
  properties : PropertyMap
  satisfiedByIds : List String
  requiresIds : List String
  snapshotSurvivorEdges : List EdgeRecord
  survivorEdgesBeforeMerge : List EdgeRecord

/-- `_survivor_edges`. -/
def survivorEdgesOf (survivorId : String) (edges : List EdgeRecord) : List EdgeRecord :=
  sortedEdges (edges.filter fun e =>
    (e.relType = "SATISFIED_BY" ∧ e.targetId = survivorId) ∨ (e.relType = "REQUIRES" ∧ e.sourceId = survivorId))

/-- `derive_obligation_unmerge_inputs`. -/
def deriveObligationUnmergeInputs (details : ObligationMergeDetails) :
    Except UnmergeInputsError ObligationUnmergeInputs :=
  match details.before, details.after with
  | some before, some after =>
    match before.nodes.find? fun n => n.label = "Obligation" ∧ n.id = details.absorbedId with
    | none => .error .noAbsorbed
    | some node => .ok {
        survivorId := details.survivorId
        absorbedId := details.absorbedId
        roleId := details.roleId
        properties := node.properties
        satisfiedByIds := incomingSources before.edges "SATISFIED_BY" details.absorbedId
        requiresIds := outgoingTargets before.edges "REQUIRES" details.absorbedId
        snapshotSurvivorEdges := survivorEdgesOf details.survivorId after.edges
        survivorEdgesBeforeMerge := survivorEdgesOf details.survivorId before.edges }
  | _, _ => .error .noSnapshot

/-! ## The live state -/

/-- `ObligationUnmergeState`. -/
structure ObligationUnmergeState where
  absorbedExists : Bool
  survivorExists : Bool
  survivorText : String
  /-- `marker_targets.get(absorbed_id, ())`. -/
  absorbedTargets : List String
  /-- `marker_targets.get(survivor_id, ())`. -/
  survivorTargets : List String
  roleExists : Bool
  existingRequirements : List String
  existingCapabilities : List String
  mergedCapabilityTargets : List (String × List String)
  survivorEdges : List EdgeRecord

/-- The ids under which the graph has a node of the label. -/
def existingIds (g : Graph) (label : String) (ids : List String) : List String :=
  sortedList (ids.filter fun id => (⟨label, id⟩ : NodeRef) ∈ g.nodes)

/-- `read_obligation_unmerge_state`; `none` where a row is refused. -/
def readObligationUnmergeState (scan : ScanOrder) (g : Graph) (inputs : ObligationUnmergeInputs) :
    Option ObligationUnmergeState := do
  let survivor ← readNode g "Obligation" inputs.survivorId (obligationState inputs.survivorId)
  let absorbed ← readNode g "Obligation" inputs.absorbedId (obligationState inputs.absorbedId)
  let absorbedTargets ← readMarkers "MergedObligation" g inputs.absorbedId
  let survivorTargets ← readMarkers "MergedObligation" g inputs.survivorId
  let capabilities := existingIds g "Capability" inputs.requiresIds
  let gone := inputs.requiresIds.filter fun id => id ∉ capabilities
  let moved ← gone.mapM fun id => (readMarkers "MergedCapability" g id).map fun targets => (id, targets)
  return {
    absorbedExists := absorbed.isSome
    survivorExists := survivor.isSome
    survivorText := (survivor.map ObligationNodeState.text).getD ""
    absorbedTargets, survivorTargets
    roleExists := (⟨"Role", inputs.roleId⟩ : NodeRef) ∈ g.nodes
    existingRequirements := existingIds g "Requirement" inputs.satisfiedByIds
    existingCapabilities := capabilities
    mergedCapabilityTargets := moved
    survivorEdges := edgeRows scan g satisfiedByPattern (fun e => e.targetId = inputs.survivorId) ++
      edgeRows scan g requiresPattern fun e => e.sourceId = inputs.survivorId }

/-! ## Planning -/

/-- What `plan_obligation_unmerge` refuses. -/
inductive ObligationUnmergeError where
  /-- "obligation ... already exists again; there is nothing to unmerge" -/
  | existsAgain
  /-- "obligation ... was merged into ..., but its MergedObligation marker now points at ..., ..." -/
  | repointed (targets : List String)
  /-- "obligation ... has no MergedObligation marker, so it is not a merged obligation that can be unmerged" -/
  | noMarker
  /-- "the survivor obligation ... no longer exists (it was merged into ...), so the merge cannot be reversed" -/
  | survivorMissing (movedTo : List String)
  /-- "role ... that bore the obligation no longer exists" -/
  | roleMissing (roleId : String)
  /-- "requirement ... no longer exists; capability ... no longer exists (it was merged into ...), so its edge cannot
  be restored" -/
  | endpointsMissing (requirements : List String) (capabilities : List (String × List String))
  deriving DecidableEq

/-- `ObligationUnmergeWrite`. -/
structure ObligationUnmergeWrite where
  roleId : String
  satisfiedByIds : List String
  requiresIds : List String
  properties : PropertyMap

/-- The Capabilities to link that are gone, each with where a merge moved it. -/
def goneCapabilities (inputs : ObligationUnmergeInputs) (state : ObligationUnmergeState) :
    List (String × List String) :=
  (inputs.requiresIds.filter fun id => id ∉ state.existingCapabilities).map fun id =>
    (id, (state.mergedCapabilityTargets.lookup id).getD [])

/-- `_check_obligation_state`. -/
def checkObligationState (inputs : ObligationUnmergeInputs) (state : ObligationUnmergeState) :
    Except ObligationUnmergeError Unit := do
  refuseIf (state.absorbedExists = true) .existsAgain
  refuseIf (inputs.survivorId ∉ state.absorbedTargets)
    (if state.absorbedTargets = [] then .noMarker else .repointed state.absorbedTargets)
  refuseIf (state.survivorExists = false) (.survivorMissing state.survivorTargets)
  refuseIf (state.roleExists = false) (.roleMissing inputs.roleId)
  let missing := inputs.satisfiedByIds.filter fun id => id ∉ state.existingRequirements
  let gone := goneCapabilities inputs state
  refuseIf (missing ≠ [] ∨ gone ≠ []) (.endpointsMissing missing gone)

/-- `plan_obligation_unmerge`, its write. -/
def planObligationUnmerge (inputs : ObligationUnmergeInputs) (state : ObligationUnmergeState) :
    Except ObligationUnmergeError ObligationUnmergeWrite := do
  checkObligationState inputs state
  return ⟨inputs.roleId, inputs.satisfiedByIds, inputs.requiresIds, inputs.properties⟩

/-! ## The write -/

/-- `obligation_unmerge_guard_holds`: the survivor is not looked at again. -/
def obligationUnmergeGuardHolds (state : ObligationUnmergeState) (write : ObligationUnmergeWrite)
    (survivorId : String) : Bool :=
  survivorId ∈ state.absorbedTargets && !state.absorbedExists && state.roleExists &&
    (write.satisfiedByIds.all fun id => id ∈ state.existingRequirements) &&
    write.requiresIds.all fun id => id ∈ state.existingCapabilities

/-- The edges the group puts back. -/
def restoredObligationEdges (write : ObligationUnmergeWrite) (absorbedId : String) : List EdgeRecord :=
  [hasEdge write.roleId absorbedId] ++ write.satisfiedByIds.map (satisfiedByEdge · absorbedId) ++
    write.requiresIds.map (requiresEdge absorbedId ·)

/-- The primitives `build_obligation_unmerge_group` constructs. -/
def obligationUnmergePrimitives (write : ObligationUnmergeWrite) (absorbedId : String) : List RawPrimitive :=
  [.upsertNode "Obligation" absorbedId (propertiesPy write.properties) none] ++
    (restoredObligationEdges write absorbedId).map upsertRecord ++ [.deleteNode "MergedObligation" absorbedId]

/-! ## The merge -/

/-- `preview.role_id` of `plan_obligation_merge`. -/
def obligationMergeRoleId (state : ObligationMergeState) : Except ObligationMergeError String := do
  let (_, _, role) ← validateObligationMerge state
  return role.id

/-- **One Obligation merge** on a graph: previewed, read again, guarded, built and applied. -/
def ObligationMerged (g : Graph) (survivorId absorbedId roleId : String) (plan : MergePlan ObligationExpectedCounts)
    (g' : Graph) : Prop :=
  ∃ (scan scan' : ScanOrder) (state later : ObligationMergeState) (ps : List Primitive),
    readObligationMergeState scan g survivorId absorbedId = some state ∧ planObligationMerge state = .ok plan ∧
      obligationMergeRoleId state = .ok roleId ∧
      readObligationMergeState scan' g survivorId absorbedId = some later ∧
      obligationMergeGuardHolds later plan.expected survivorId absorbedId = true ∧
      buildGroup (obligationMergePrimitives later survivorId absorbedId) = some ps ∧ g' = applyAll g ps

/-- **One Obligation unmerge** on a graph: previewed, read again, guarded, built and applied. -/
def ObligationUnmerged (g : Graph) (inputs : ObligationUnmergeInputs) (g' : Graph) : Prop :=
  ∃ (scan scan' : ScanOrder) (state later : ObligationUnmergeState) (write : ObligationUnmergeWrite)
      (ps : List Primitive),
    readObligationUnmergeState scan g inputs = some state ∧ planObligationUnmerge inputs state = .ok write ∧
      readObligationUnmergeState scan' g inputs = some later ∧
      obligationUnmergeGuardHolds later write inputs.survivorId = true ∧
      buildGroup (obligationUnmergePrimitives write inputs.absorbedId) = some ps ∧ g' = applyAll g ps

/-- The properties of an Obligation. -/
def obligationProperties : List String := ["text", "confidence"]

/-- An edge of the bearer, a Requirement or a Capability of the Obligation. -/
def OfObligation (id : String) (r : EdgeRecord) : Prop :=
  (∃ roleId, r = hasEdge roleId id) ∨ (∃ requirementId, r = satisfiedByEdge requirementId id) ∨
    ∃ capabilityId, r = requiresEdge id capabilityId

/-- **What a merge did.** -/
structure ObligationMergedInto (g : Graph) (survivorId absorbedId roleId : String)
    (plan : MergePlan ObligationExpectedCounts) (g' : Graph) : Prop where
  distinct : survivorId ≠ absorbedId
  survivor : ∃ survivor, readNode g "Obligation" survivorId (obligationState survivorId) = some (some survivor)
  absorbed_mem : (⟨"Obligation", absorbedId⟩ : NodeRef) ∈ g.nodes
  bearer : ∀ id, Shows g (hasEdge id absorbedId) ↔ id = roleId
  nodes : ∀ n : NodeRef, n ≠ ⟨"Obligation", absorbedId⟩ → n ≠ ⟨"MergedObligation", absorbedId⟩ →
    g'.nodes[n]? = g.nodes[n]?
  gone : g'.nodes[(⟨"Obligation", absorbedId⟩ : NodeRef)]? = none
  marker : readMarkers "MergedObligation" g' absorbedId = some [survivorId]
  kept : ∀ k : EdgeKey, ¬ k.record.Touches ⟨"Obligation", absorbedId⟩ → g.edgesAt k ≤ g'.edgesAt k
  recorded : ∃ node, (plan.before.nodes.find? fun n => n.label = "Obligation" ∧ n.id = absorbedId) = some node ∧
    ∀ name, node.properties[name]? =
      if name ∈ obligationProperties then propertyOf g ⟨"Obligation", absorbedId⟩ name else none
  requirements : ∀ id, id ∈ incomingSources plan.before.edges "SATISFIED_BY" absorbedId ↔
    Shows g (satisfiedByEdge id absorbedId)
  capabilities : ∀ id, id ∈ outgoingTargets plan.before.edges "REQUIRES" absorbedId ↔
    Shows g (requiresEdge absorbedId id)

/-- The snapshot of an Obligation holds what the node holds. -/
theorem snapshotObligation_get {id : String} {properties : PropertyMap} {node : ObligationNodeState}
    (h : obligationState id properties = some node) (name : String) :
    (snapshotObligation node).properties[name]? = if name ∈ obligationProperties then properties[name]? else none := by
  simp only [obligationState, Option.bind_eq_bind, Option.bind_eq_some_iff, Option.pure_def, Option.some.injEq] at h
  obtain ⟨text, htext, columns, hcolumns, rfl⟩ := h
  have hget := scalarColumns_get hcolumns name
  have hsome := stringColumn_some htext
  rw [snapshotObligation, ExtTreeMap.getElem?_insert]
  by_cases heq : "text" = name
  · subst heq
    simp [obligationProperties, hsome]
  · have hmem : name ∈ obligationProperties ↔ name ∈ ["confidence"] := by
      simp [obligationProperties, Ne.symm heq]
    simp only [Std.compare_eq_iff_eq, if_neg heq, hget, hmem]

theorem obligationMergeRoleId_ok {state : ObligationMergeState} {survivor absorbed : ObligationNodeState}
    {role : RoleRef} (valid : ObligationMergeValid state survivor absorbed role) {roleId : String}
    (h : obligationMergeRoleId state = .ok roleId) : role.id = roleId := by
  obtain ⟨q, hq, hsame⟩ := valid.absorbedRole
  have hvalid : validateObligationMerge state = .ok (survivor, absorbed, role) := by
    simp only [validateObligationMerge, valid.hasSurvivor, valid.hasAbsorbed, valid.survivorRole, hq, singleRole,
      refuseIf, valid.distinct, hsame, bind, Except.bind, ne_eq, not_true, if_false]
    rfl
  rw [obligationMergeRoleId, hvalid] at h
  exact Except.ok.inj h

/-- What the merge puts on the survivor joins nodes that exist. -/
theorem obligationUpserts_ends {g : Graph} {survivorId absorbedId : String} {state : ObligationMergeState}
    (hof : ObligationStateOf g survivorId absorbedId state) (hsurvivor : (⟨"Obligation", survivorId⟩ : NodeRef) ∈ g.nodes)
    {k : EdgeKey} (h : k.record ∈ obligationUpserts state.edges survivorId absorbedId) : g.hasEnds k = true := by
  have hboth : k.record.source ∈ g.nodes ∧ k.record.target ∈ g.nodes := by
    rcases List.mem_append.1 h with h | h
    · obtain ⟨id, hid, heq⟩ := List.mem_map.1 h
      rw [← heq]
      exact ⟨((mem_incoming_satisfied hof).1 hid).ends.1, hsurvivor⟩
    · obtain ⟨id, hid, heq⟩ := List.mem_map.1 h
      rw [← heq]
      exact ⟨hsurvivor, ((mem_outgoing_requires hof).1 hid).ends.2⟩
  simpa [hasEnds] using hboth

theorem obligationMergedInto {g g' : Graph} {survivorId absorbedId roleId : String}
    {plan : MergePlan ObligationExpectedCounts} (h : ObligationMerged g survivorId absorbedId roleId plan g') :
    ObligationMergedInto g survivorId absorbedId roleId plan g' := by
  obtain ⟨scan, scan', state, later, ps, hread, hplan, hrole, hlater, -, hbuilt, rfl⟩ := h
  have hof := obligationStateOf_read hread
  obtain ⟨survivor, absorbed, role, valid, rfl⟩ := planObligationMerge_ok hplan
  obtain rfl := hof.survivor_id survivor valid.hasSurvivor
  obtain rfl := hof.absorbed_id absorbed valid.hasAbsorbed
  obtain rfl := obligationMergeRoleId_ok valid hrole
  obtain ⟨bearer, hbearer, hsame⟩ := valid.absorbedRole
  simp only [readObligationMergeState, Option.bind_eq_bind, Option.bind_eq_some_iff, Option.pure_def,
    Option.some.injEq] at hread
  obtain ⟨x, hx, y, hy, ps₁, -, ps₂, -, hstate⟩ := hread
  obtain rfl : x = some survivor := by rw [← valid.hasSurvivor, ← hstate]
  obtain rfl : y = some absorbed := by rw [← valid.hasAbsorbed, ← hstate]
  rw [obligationMergePrimitives_shape] at hbuilt
  have hshape : buildGroup (mergeShape (obligationUpserts later.edges survivor.id absorbed.id) "Obligation"
    "MergedObligation" survivor.id absorbed.id (deleteReview none)) = some ps := hbuilt
  have hnone : ∀ (id : String) (n : NodeRef), id ∈ (none : Option String) → n ≠ ⟨"PendingReview", id⟩ :=
    fun id n hid => absurd hid (by simp)
  refine ⟨valid.distinct, ⟨survivor, hx⟩, mem_of_readNode hy, ?_, fun n habsorbed hmarker =>
    mergeShape_nodes hshape habsorbed hmarker fun id hid => hnone id n hid, mergeShape_gone hshape (by decide),
    readMarkers_merged (mergeShape_marker hshape (by decide) (by decide)), fun k hk => ?_,
    ⟨snapshotObligation absorbed, ?_, fun name => ?_⟩, fun id => ?_, fun id => ?_⟩
  · intro id
    rw [← hof.absorbedRoles, hbearer]
    simp only [List.mem_singleton, exists_eq_left, hsame]
    exact eq_comm
  · rw [mergeShape_edgesAt hshape hk (fun id hid => absurd hid (by simp))
      (obligationUpserts_ends (obligationStateOf_read hlater) (mem_of_readNode hx))]
    split
    · exact le_settled _
    · exact le_rfl
  · simp [obligationMergePlan, snapshotObligation, valid.distinct]
  · obtain ⟨content, hcontent, node, hnode, rfl⟩ := readNode_some hy
    rw [propertyOf, hcontent]
    exact snapshotObligation_get hnode name
  · rw [mem_before_satisfied hof, mem_obligation_before]
    have hstate := hof.edges (satisfiedByEdge id absorbed.id)
    constructor
    · rintro ((h | h) | ⟨h, -⟩)
      · exact absurd (congrArg EdgeRecord.relType h) (by decide : "SATISFIED_BY" ≠ "HAS")
      · exact absurd (congrArg EdgeRecord.relType h) (by decide : "SATISFIED_BY" ≠ "HAS")
      · exact (hstate.1 h).1
    · intro h
      exact .inr ⟨hstate.2 ⟨h, .inl ⟨rfl, .inr rfl⟩⟩, .inr (.inr rfl)⟩
  · rw [mem_before_requires hof, mem_obligation_before]
    have hstate := hof.edges (requiresEdge absorbed.id id)
    constructor
    · rintro ((h | h) | ⟨h, -⟩)
      · exact absurd (congrArg EdgeRecord.relType h) (by decide : "REQUIRES" ≠ "HAS")
      · exact absurd (congrArg EdgeRecord.relType h) (by decide : "REQUIRES" ≠ "HAS")
      · exact (hstate.1 h).1
    · intro h
      exact .inr ⟨hstate.2 ⟨h, .inr ⟨rfl, .inr rfl⟩⟩, .inr (.inl rfl)⟩

/-! ## The record of the merge -/

/-- **What the record says to reverse.** -/
structure ReversesObligation (g : Graph) (survivorId absorbedId roleId : String) (inputs : ObligationUnmergeInputs) :
    Prop where
  survivor : inputs.survivorId = survivorId
  absorbed : inputs.absorbedId = absorbedId
  role : inputs.roleId = roleId
  properties : ∀ name, inputs.properties[name]? =
    if name ∈ obligationProperties then propertyOf g ⟨"Obligation", absorbedId⟩ name else none
  requirements : ∀ id, id ∈ inputs.satisfiedByIds ↔ Shows g (satisfiedByEdge id absorbedId)
  capabilities : ∀ id, id ∈ inputs.requiresIds ↔ Shows g (requiresEdge absorbedId id)

section Unmerge

variable {g g₁ g₂ : Graph} {survivorId absorbedId roleId : String} {plan : MergePlan ObligationExpectedCounts}
  {inputs : ObligationUnmergeInputs}

theorem reversesObligation (h : ObligationMergedInto g survivorId absorbedId roleId plan g₁) :
    ∃ inputs, deriveObligationUnmergeInputs ⟨survivorId, absorbedId, roleId, some plan.before, some plan.after⟩ =
      .ok inputs ∧ ReversesObligation g survivorId absorbedId roleId inputs := by
  obtain ⟨node, hfind, hproperties⟩ := h.recorded
  refine ⟨_, by simp only [deriveObligationUnmergeInputs, hfind]; rfl, ?_⟩
  exact ⟨rfl, rfl, rfl, hproperties, h.requirements, h.capabilities⟩

/-! ## The unmerge is accepted -/

theorem ObligationMergedInto.mem_nodes (h : ObligationMergedInto g survivorId absorbedId roleId plan g₁) {n : NodeRef}
    (hobligation : n.label ≠ "Obligation") (hmarker : n.label ≠ "MergedObligation") (hmem : n ∈ g.nodes) :
    n ∈ g₁.nodes := by
  have hsame := h.nodes n (fun heq => hobligation (congrArg NodeRef.label heq))
    fun heq => hmarker (congrArg NodeRef.label heq)
  rw [ExtTreeMap.mem_iff_isSome_getElem?, hsame]
  exact ExtTreeMap.mem_iff_isSome_getElem?.1 hmem

/-- The survivor after the merge: what it was. -/
theorem ObligationMergedInto.survivor_nodes (h : ObligationMergedInto g survivorId absorbedId roleId plan g₁)
    {label : String} : g₁.nodes[(⟨label, survivorId⟩ : NodeRef)]? = g.nodes[(⟨label, survivorId⟩ : NodeRef)]? :=
  h.nodes _ (fun heq => h.distinct (congrArg NodeRef.id heq)) fun heq => h.distinct (congrArg NodeRef.id heq)

theorem mem_existingIds {g : Graph} {label id : String} {ids : List String} :
    id ∈ existingIds g label ids ↔ id ∈ ids ∧ (⟨label, id⟩ : NodeRef) ∈ g.nodes := by
  simp [existingIds]

/-- What is read to plan the unmerge right after the merge. -/
structure ObligationReadAfter (inputs : ObligationUnmergeInputs) (state : ObligationUnmergeState) : Prop where
  gone : state.absorbedExists = false
  targets : inputs.survivorId ∈ state.absorbedTargets
  survivor : state.survivorExists = true
  role : state.roleExists = true
  requirements : ∀ id ∈ inputs.satisfiedByIds, id ∈ state.existingRequirements
  capabilities : ∀ id ∈ inputs.requiresIds, id ∈ state.existingCapabilities

theorem obligationReadAfter (h : ObligationMergedInto g survivorId absorbedId roleId plan g₁)
    (hr : ReversesObligation g survivorId absorbedId roleId inputs) {scan : ScanOrder} {state : ObligationUnmergeState}
    (hread : readObligationUnmergeState scan g₁ inputs = some state) : ObligationReadAfter inputs state := by
  simp only [readObligationUnmergeState, Option.bind_eq_bind, Option.bind_eq_some_iff, Option.pure_def,
    Option.some.injEq] at hread
  obtain ⟨x, hx, y, hy, ts, hts, us, -, moved, -, rfl⟩ := hread
  refine ⟨?_, ?_, ?_, ?_, fun id hid => ?_, fun id hid => ?_⟩
  · rw [hr.absorbed, readNode, h.gone] at hy
    cases hy
    rfl
  · rw [hr.absorbed, h.marker] at hts
    cases hts
    exact List.mem_singleton.2 hr.survivor
  · obtain ⟨survivor, hsurvivor⟩ := h.survivor
    rw [hr.survivor, readNode, h.survivor_nodes, ← readNode, hsurvivor] at hx
    cases hx
    rfl
  · have hshow := (h.bearer roleId).2 rfl
    rw [hr.role]
    exact decide_eq_true (h.mem_nodes (n := ⟨"Role", roleId⟩) (by simp) (by simp) hshow.ends.1)
  · have hshow := (hr.requirements id).1 hid
    exact mem_existingIds.2 ⟨hid, h.mem_nodes (n := ⟨"Requirement", id⟩) (by simp) (by simp) hshow.ends.1⟩
  · have hshow := (hr.capabilities id).1 hid
    exact mem_existingIds.2 ⟨hid, h.mem_nodes (n := ⟨"Capability", id⟩) (by simp) (by simp) hshow.ends.2⟩

/-- **The unmerge is accepted**: its plan, and the guard on what is read again. -/
theorem obligation_unmerge_accepted {state later : ObligationUnmergeState} (hnow : ObligationReadAfter inputs state)
    (hthen : ObligationReadAfter inputs later) : ∃ write, planObligationUnmerge inputs state = .ok write ∧
      obligationUnmergeGuardHolds later write inputs.survivorId = true := by
  have hmissing : (inputs.satisfiedByIds.filter fun id => id ∉ state.existingRequirements) = [] := by
    refine List.filter_eq_nil_iff.2 fun id hid => ?_
    simpa using hnow.requirements id hid
  have hgone : goneCapabilities inputs state = [] := by
    rw [goneCapabilities, List.map_eq_nil_iff]
    refine List.filter_eq_nil_iff.2 fun id hid => ?_
    simpa using hnow.capabilities id hid
  refine ⟨⟨inputs.roleId, inputs.satisfiedByIds, inputs.requiresIds, inputs.properties⟩, ?_, ?_⟩
  · simp only [planObligationUnmerge, checkObligationState, hnow.gone, hnow.targets, hnow.survivor, hnow.role, hmissing,
      hgone, refuseIf, bind, Except.bind, ne_eq, not_true, or_self, if_false, Bool.false_eq_true, Bool.true_eq_false]
    rfl
  · simp only [obligationUnmergeGuardHolds, hthen.gone, hthen.targets, hthen.role, decide_true, Bool.not_false,
      Bool.true_and, Bool.and_eq_true, List.all_eq_true, decide_eq_true_eq]
    exact ⟨hthen.requirements, hthen.capabilities⟩

/-- What the unmerge reads after the merge can be read. -/
theorem obligation_unmerge_readable (h : ObligationMergedInto g survivorId absorbedId roleId plan g₁)
    (hr : ReversesObligation g survivorId absorbedId roleId inputs) (hwritten : WrittenWith "MergedObligation" g)
    (scan : ScanOrder) : ∃ state, readObligationUnmergeState scan g₁ inputs = some state := by
  obtain ⟨survivor, hsurvivor⟩ := h.survivor
  have hx : readNode g₁ "Obligation" inputs.survivorId (obligationState inputs.survivorId) = some (some survivor) := by
    rw [hr.survivor, readNode, h.survivor_nodes, ← readNode, hsurvivor]
  have hy : readNode g₁ "Obligation" inputs.absorbedId (obligationState inputs.absorbedId) = some none := by
    rw [hr.absorbed, readNode, h.gone]
  have hmarker : readMarkers "MergedObligation" g₁ inputs.absorbedId = some [survivorId] := by
    rw [hr.absorbed]
    exact h.marker
  obtain ⟨targets, htargets⟩ := Option.isSome_iff_exists.1 (hwritten.markers survivorId)
  have hother : readMarkers "MergedObligation" g₁ inputs.survivorId = some targets := by
    rw [hr.survivor, readMarkers, h.survivor_nodes, ← readMarkers, htargets]
  have hgone : (inputs.requiresIds.filter fun id => id ∉ existingIds g₁ "Capability" inputs.requiresIds) = [] := by
    refine List.filter_eq_nil_iff.2 fun id hid => ?_
    have hshow := (hr.capabilities id).1 hid
    simpa [mem_existingIds, hid] using
      h.mem_nodes (n := ⟨"Capability", id⟩) (by simp) (by simp) hshow.ends.2
  simp only [readObligationUnmergeState, hx, hy, hmarker, hother, hgone]
  exact ⟨_, rfl⟩

/-- The edges that come back: those the absorbed Obligation had. -/
theorem mem_restoredObligationEdges (h : ObligationMergedInto g survivorId absorbedId roleId plan g₁)
    (hr : ReversesObligation g survivorId absorbedId roleId inputs) {state : ObligationUnmergeState}
    {write : ObligationUnmergeWrite} (hplan : planObligationUnmerge inputs state = .ok write) {r : EdgeRecord} :
    r ∈ restoredObligationEdges write absorbedId ↔ OfObligation absorbedId r ∧ Shows g r := by
  obtain ⟨-, -, hwrite⟩ := bind_ok.1 hplan
  cases hwrite
  simp only [restoredObligationEdges, List.mem_append, List.mem_singleton, List.mem_map, hr.role, hr.requirements,
    hr.capabilities]
  constructor
  · rintro ((rfl | ⟨id, hid, rfl⟩) | ⟨id, hid, rfl⟩)
    · exact ⟨.inl ⟨_, rfl⟩, (h.bearer roleId).2 rfl⟩
    · exact ⟨.inr (.inl ⟨id, rfl⟩), hid⟩
    · exact ⟨.inr (.inr ⟨id, rfl⟩), hid⟩
  · rintro ⟨⟨id, rfl⟩ | ⟨id, rfl⟩ | ⟨id, rfl⟩, hshow⟩
    · rw [(h.bearer id).1 hshow]
      exact .inl (.inl rfl)
    · exact .inl (.inr ⟨id, hshow, rfl⟩)
    · exact .inr ⟨id, hshow, rfl⟩

/-- **The unmerge group is built**, right after the merge. -/
theorem obligation_unmerge_built (h : ObligationMergedInto g survivorId absorbedId roleId plan g₁)
    (hr : ReversesObligation g survivorId absorbedId roleId inputs) (hwritten : WrittenWith "MergedObligation" g)
    {state : ObligationUnmergeState} {write : ObligationUnmergeWrite}
    (hplan : planObligationUnmerge inputs state = .ok write) :
    (buildGroup (obligationUnmergePrimitives write absorbedId)).isSome = true := by
  have hid := hwritten.ids _ h.absorbed_mem
  have hproperties : write.properties = inputs.properties := by
    obtain ⟨-, -, hwrite⟩ := bind_ok.1 hplan
    cases hwrite
    rfl
  refine buildGroup_isSome fun raw hraw => ?_
  simp only [obligationUnmergePrimitives, List.mem_append, List.mem_singleton, List.mem_map] at hraw
  rcases hraw with (rfl | ⟨e, he, rfl⟩) | rfl
  · refine accept_node_isSome obligationProperties (by decide) hid (by decide) fun name v hv => ?_
    rw [hproperties, hr.properties] at hv
    split at hv
    · exact ⟨‹_›, hwritten.values _ _ _ hv⟩
    · cases hv
  · -- each edge is between nodes of the graph
    obtain ⟨hof, hshow⟩ := (mem_restoredObligationEdges h hr hplan).1 he
    have hids : isNonBlank e.sourceId = true ∧ isNonBlank e.targetId = true :=
      ⟨hwritten.ids _ hshow.ends.1, hwritten.ids _ hshow.ends.2⟩
    have hlabels : isIdentifier e.relType = true ∧ isIdentifier e.sourceLabel = true ∧
        isIdentifier e.targetLabel = true := by
      rcases hof with ⟨id, rfl⟩ | ⟨id, rfl⟩ | ⟨id, rfl⟩
      all_goals
        simp only [hasEdge, satisfiedByEdge, requiresEdge]
        decide
    exact (accept_records_isSome (accept_edge_isSome hlabels.1 ⟨hlabels.2.1, hids.1⟩ ⟨hlabels.2.2, hids.2⟩)).1
  · exact accept_deleteNode_isSome (by decide) hid

/-! ## What comes back -/

/-- The unmerge's writes at the edges of the absorbed Obligation. -/
theorem build_obligationUnmerge {write : ObligationUnmergeWrite} {ps : List Primitive}
    (h : buildGroup (obligationUnmergePrimitives write absorbedId) = some ps) :
    ps = [.upsertNode ⟨"Obligation", absorbedId⟩ write.properties none] ++
      (restoredObligationEdges write absorbedId).map (fun e => .upsertEdge e.base ∅) ++
      [.deleteNode ⟨"MergedObligation", absorbedId⟩] := by
  obtain ⟨_, last, hfirst, hlast, rfl⟩ := buildGroup_append.1 h
  obtain ⟨first, _, hone, hedges, rfl⟩ := buildGroup_append.1 hfirst
  obtain ⟨node, rest, hnode, hnil, rfl⟩ := buildGroup_cons.1 hone
  obtain rfl : rest = [] := (Option.some.inj hnil).symm
  obtain ⟨del, rest, hdel, hnil', rfl⟩ := buildGroup_cons.1 hlast
  obtain rfl : rest = [] := (Option.some.inj hnil').symm
  rw [accept_node hnode, build_upserts hedges, accept_deleteNode hdel]

/-- Each edge is one edge without properties, under the standard identity. -/
def PlainEdge (g : Graph) (k : EdgeKey) : Prop := g.edgesAt k ≠ 0 → k.Standard ∧ g.edgesAt k = {∅}

/-- **The absorbed Obligation as before the merge, and nothing taken from the survivor.** -/
structure ObligationRestored (g g₂ : Graph) (survivorId absorbedId : String) : Prop where
  properties : ∀ name ∈ obligationProperties,
    propertyOf g₂ ⟨"Obligation", absorbedId⟩ name = propertyOf g ⟨"Obligation", absorbedId⟩ name
  /-- An Obligation has a text and a confidence, and is the same node again. -/
  node : (∀ content, g.nodes[(⟨"Obligation", absorbedId⟩ : NodeRef)]? = some content →
      content.embedding = none ∧ ∀ name ∉ obligationProperties, content.properties[name]? = none) →
    g₂.nodes[(⟨"Obligation", absorbedId⟩ : NodeRef)]? = g.nodes[(⟨"Obligation", absorbedId⟩ : NodeRef)]?
  bearer : ∃ roleId, ∀ id, (Shows g (hasEdge id absorbedId) ↔ id = roleId) ∧ (Shows g₂ (hasEdge id absorbedId) ↔ id = roleId)
  edges : ∀ r, OfObligation absorbedId r → (Shows g₂ r ↔ Shows g r)
  plainEdges : (∀ k : EdgeKey, OfObligation absorbedId k.record → PlainEdge g k) →
    ∀ k : EdgeKey, OfObligation absorbedId k.record → g₂.edgesAt k = g.edgesAt k
  survivorEdges : ∀ k : EdgeKey, OfObligation survivorId k.record → g.edgesAt k ≤ g₂.edgesAt k
  survivor : g₂.nodes[(⟨"Obligation", survivorId⟩ : NodeRef)]? = g.nodes[(⟨"Obligation", survivorId⟩ : NodeRef)]?
  marker : g₂.nodes[(⟨"MergedObligation", absorbedId⟩ : NodeRef)]? = none

theorem OfObligation.not_touches_marker {id markerId : String} {r : EdgeRecord} (h : OfObligation id r) :
    ¬ r.Touches ⟨"MergedObligation", markerId⟩ := by
  rcases h with ⟨x, rfl⟩ | ⟨x, rfl⟩ | ⟨x, rfl⟩
  all_goals
    rintro (heq | heq)
    all_goals exact absurd (congrArg NodeRef.label heq) (by simp [EdgeRecord.source, EdgeRecord.target, hasEdge,
      satisfiedByEdge, requiresEdge])

theorem OfObligation.not_touches {id otherId : String} {r : EdgeRecord} (h : OfObligation id r) (hne : id ≠ otherId) :
    ¬ r.Touches ⟨"Obligation", otherId⟩ := by
  rcases h with ⟨x, rfl⟩ | ⟨x, rfl⟩ | ⟨x, rfl⟩
  all_goals
    rintro (heq | heq)
    all_goals
      simp only [EdgeRecord.source, EdgeRecord.target, hasEdge, satisfiedByEdge, requiresEdge, NodeRef.mk.injEq] at heq
      first
      | exact absurd heq.1 (by decide)
      | exact hne heq.2

theorem OfObligation.touches {id : String} {r : EdgeRecord} (h : OfObligation id r) : r.Touches ⟨"Obligation", id⟩ := by
  rcases h with ⟨x, rfl⟩ | ⟨x, rfl⟩ | ⟨x, rfl⟩
  · exact .inr rfl
  · exact .inr rfl
  · exact .inl rfl

/-- What comes back joins nodes that exist by then. -/
theorem restoredObligation_ends (h : ObligationMergedInto g survivorId absorbedId roleId plan g₁) {k : EdgeKey}
    (hof : OfObligation absorbedId k.record) (hshow : Shows g k.record) (properties : PropertyMap) :
    (applyOne g₁ (.upsertNode ⟨"Obligation", absorbedId⟩ properties none)).hasEnds k = true := by
  set recreated := applyOne g₁ (.upsertNode ⟨"Obligation", absorbedId⟩ properties none) with hrecreated
  have hobligation : (⟨"Obligation", absorbedId⟩ : NodeRef) ∈ recreated.nodes := by
    rw [ExtTreeMap.mem_iff_isSome_getElem?, hrecreated, applyOne_eq_write rfl, write_nodes]
    simp [nodeStep]
  have hother : ∀ n : NodeRef, n ∈ g.nodes → n.label ≠ "Obligation" → n.label ≠ "MergedObligation" →
      n ∈ recreated.nodes := by
    intro n hn ho hm
    have hmem := h.mem_nodes ho hm hn
    rw [ExtTreeMap.mem_iff_isSome_getElem?, hrecreated,
      upsertNode_nodes _ _ _ fun heq => ho (congrArg NodeRef.label heq).symm]
    exact ExtTreeMap.mem_iff_isSome_getElem?.1 hmem
  have hboth : k.record.source ∈ recreated.nodes ∧ k.record.target ∈ recreated.nodes := by
    obtain ⟨hsource, htarget⟩ := hshow.ends
    rcases hof with ⟨id, heq⟩ | ⟨id, heq⟩ | ⟨id, heq⟩
    · rw [heq] at hsource ⊢
      exact ⟨hother ⟨"Role", id⟩ hsource (by simp) (by simp), hobligation⟩
    · rw [heq] at hsource ⊢
      exact ⟨hother ⟨"Requirement", id⟩ hsource (by simp) (by simp), hobligation⟩
    · rw [heq] at htarget ⊢
      exact ⟨hobligation, hother ⟨"Capability", id⟩ htarget (by simp) (by simp)⟩
  simpa [hasEnds] using hboth

/-- The edges after the unmerge, those of the marker apart. -/
theorem obligationUnmerged_edgesAt (h : ObligationMergedInto g survivorId absorbedId roleId plan g₁)
    (hr : ReversesObligation g survivorId absorbedId roleId inputs) {state : ObligationUnmergeState}
    {write : ObligationUnmergeWrite} (hplan : planObligationUnmerge inputs state = .ok write) {ps : List Primitive}
    (hps : buildGroup (obligationUnmergePrimitives write absorbedId) = some ps) {k : EdgeKey}
    (hmarker : ¬ k.record.Touches ⟨"MergedObligation", absorbedId⟩) :
    (applyAll g₁ ps).edgesAt k =
      if k.record ∈ restoredObligationEdges write absorbedId ∧ k.Standard then settled (g₁.edgesAt k)
      else g₁.edgesAt k := by
  have hends : k.record ∈ restoredObligationEdges write absorbedId →
      (applyOne g₁ (.upsertNode ⟨"Obligation", absorbedId⟩ write.properties none)).hasEnds k = true := by
    intro hin
    obtain ⟨hof, hshow⟩ := (mem_restoredObligationEdges h hr hplan).1 hin
    exact restoredObligation_ends h hof hshow _
  rw [build_obligationUnmerge hps, applyAll_append, applyAll_append, applyAll_cons, applyAll_nil, applyAll_cons,
    applyAll_nil, deleteNode_edgesAt_kept _ hmarker, upserts_edgesAt hends, upsertNode_edgesAt]

/-- **What an unmerge leaves**, right after the merge. -/
theorem obligationRestored (h : ObligationMergedInto g survivorId absorbedId roleId plan g₁)
    (hr : ReversesObligation g survivorId absorbedId roleId inputs) (hunmerged : ObligationUnmerged g₁ inputs g₂) :
    ObligationRestored g g₂ survivorId absorbedId := by
  obtain ⟨scan, scan', state, later, write, ps, -, hplan, -, -, hbuilt, rfl⟩ := hunmerged
  rw [hr.absorbed] at hbuilt
  have hproperties : write.properties = inputs.properties := by
    obtain ⟨-, -, hwrite⟩ := bind_ok.1 hplan
    cases hwrite
    rfl
  have hnode : (applyAll g₁ ps).nodes[(⟨"Obligation", absorbedId⟩ : NodeRef)]? = some ⟨inputs.properties, none⟩ := by
    rw [build_obligationUnmerge hbuilt, applyAll_append, applyAll_append, applyAll_cons, applyAll_nil, applyAll_cons,
      applyAll_nil, deleteNode_nodes_kept _ (by simp), upserts_nodes, applyOne_eq_write rfl, write_nodes, hproperties]
    simp only [nodeStep, if_true, h.gone, Option.getD_none, upsert_default]
  have hedgesAt : ∀ k : EdgeKey, OfObligation absorbedId k.record →
      (Shows g k.record ∧ k.Standard → (applyAll g₁ ps).edgesAt k = {∅}) ∧
        (¬ (Shows g k.record ∧ k.Standard) → (applyAll g₁ ps).edgesAt k = 0) := by
    intro k hof
    have hiff : k.record ∈ restoredObligationEdges write absorbedId ↔ Shows g k.record :=
      (mem_restoredObligationEdges h hr hplan).trans (and_iff_right hof)
    rw [obligationUnmerged_edgesAt h hr hplan hbuilt hof.not_touches_marker, edgesAt_eq_zero_of_gone h.gone hof.touches]
    exact ⟨fun hshown => if_pos ⟨hiff.2 hshown.1, hshown.2⟩, fun hnot => if_neg fun hin => hnot ⟨hiff.1 hin.1, hin.2⟩⟩
  have hedges : ∀ r, OfObligation absorbedId r → (Shows (applyAll g₁ ps) r ↔ Shows g r) := by
    intro r hof
    constructor
    · intro hshow
      obtain ⟨k, rfl, hk⟩ := shows_iff.1 hshow
      by_contra hnot
      exact hk ((hedgesAt k hof).2 fun hin => hnot hin.1)
    · intro hshow
      refine shows_of_base ?_
      rw [(hedgesAt r.base.edgeKey hof).1 ⟨hshow, rfl⟩]
      exact Multiset.singleton_ne_zero _
  refine ⟨fun name hname => ?_, fun honly => ?_, ⟨roleId, fun id => ⟨h.bearer id, ?_⟩⟩, hedges, ?_, ?_, ?_, ?_⟩
  · rw [propertyOf, hnode, Option.bind_some, hr.properties, if_pos hname]
  · obtain ⟨⟨properties, embedding⟩, hcontent⟩ := Option.isSome_iff_exists.1
      (ExtTreeMap.mem_iff_isSome_getElem?.1 h.absorbed_mem)
    obtain ⟨hembedding, hothers⟩ := honly _ hcontent
    obtain rfl : embedding = none := hembedding
    have hsame : inputs.properties = properties := by
      refine ExtTreeMap.ext_getElem? fun name => ?_
      rw [hr.properties, propertyOf, hcontent]
      split
      · rfl
      · exact (hothers name ‹_›).symm
    rw [hnode, hcontent, hsame]
  · exact (hedges _ (.inl ⟨id, rfl⟩)).trans (h.bearer id)
  · intro hplain k hof
    by_cases hin : Shows g k.record ∧ k.Standard
    · -- it was there, under the same identity
      obtain ⟨k', hrecord, hheld⟩ := shows_iff.1 hin.1
      obtain ⟨hstandard, hone⟩ := hplain k' (hrecord ▸ hof) hheld
      have hsame : k' = k := by
        rw [← hin.2, ← hrecord]
        exact hstandard.symm
      rw [(hedgesAt k hof).1 hin, ← hsame, hone]
    · rw [(hedgesAt k hof).2 hin]
      by_contra hne
      have hheld : g.edgesAt k ≠ 0 := fun heq => hne heq.symm
      exact hin ⟨shows_iff.2 ⟨k, rfl, hheld⟩, (hplain k hof hheld).1⟩
  · intro k hof
    rw [obligationUnmerged_edgesAt h hr hplan hbuilt hof.not_touches_marker]
    have hkept := h.kept k (hof.not_touches h.distinct)
    split
    · exact hkept.trans (le_settled _)
    · exact hkept
  · have hne : ∀ label : String, (⟨label, absorbedId⟩ : NodeRef) ≠ ⟨"Obligation", survivorId⟩ :=
      fun label heq => h.distinct (congrArg NodeRef.id heq).symm
    rw [build_obligationUnmerge hbuilt, applyAll_append, applyAll_append, applyAll_cons, applyAll_nil, applyAll_cons,
      applyAll_nil, deleteNode_nodes_kept _ (hne _), upserts_nodes, upsertNode_nodes _ _ _ (hne _), h.survivor_nodes]
  · rw [build_obligationUnmerge hbuilt, applyAll_append, applyAll_cons, applyAll_nil, applyOne_eq_write rfl, write_nodes]
    simp [nodeStep]

end Unmerge

/-- Two Obligations of one Role, of which "a" is satisfied by a Requirement and requires a Capability. -/
def dutyGraph : Graph :=
  (∅ : Graph).writeAll [
    .put ⟨"Role", "r"⟩ (·.merge ((∅ : PropertyMap).insert "name" (.scalar (.str "R")))),
    .put ⟨"Obligation", "s"⟩ (·.merge ((∅ : PropertyMap).insert "text" (.scalar (.str "S")))),
    .put ⟨"Obligation", "a"⟩ (·.merge ((∅ : PropertyMap).insert "text" (.scalar (.str "A")))),
    .put ⟨"Requirement", "q"⟩ id, .put ⟨"Capability", "c"⟩ id,
    .putEdge (hasEdge "r" "s").base.edgeKey id, .putEdge (hasEdge "r" "a").base.edgeKey id,
    .putEdge (satisfiedByEdge "q" "a").base.edgeKey id, .putEdge (requiresEdge "a" "c").base.edgeKey id]

/-- What is read of it. -/
def dutyState : ObligationMergeState :=
  ⟨some ⟨"s", "S", ∅⟩, some ⟨"a", "A", ∅⟩, [⟨"r", "R"⟩], [⟨"r", "R"⟩], [satisfiedByEdge "q" "a", requiresEdge "a" "c"]⟩

def dutyPlan : MergePlan ObligationExpectedCounts :=
  obligationMergePlan dutyState ⟨"s", "S", ∅⟩ ⟨"a", "A", ∅⟩ ⟨"r", "R"⟩

theorem read_dutyGraph : readObligationMergeState default dutyGraph "s" "a" = some dutyState := by
  have hs : readNode dutyGraph "Obligation" "s" (obligationState "s") = some (some ⟨"s", "S", ∅⟩) := rfl
  have ha : readNode dutyGraph "Obligation" "a" (obligationState "a") = some (some ⟨"a", "A", ∅⟩) := rfl
  have hrole : roleRef dutyGraph "r" = some ⟨"r", "R"⟩ := rfl
  have hrs : readRoles default dutyGraph "s" = some [⟨"r", "R"⟩] := by
    rw [readRoles, edgeRows_one (e := ((hasEdge "r" "s").base.edgeKey, ∅)) rfl, List.mapM_cons, List.mapM_nil]
    exact congrArg (fun o => o.bind fun x => some [x]) hrole
  have hra : readRoles default dutyGraph "a" = some [⟨"r", "R"⟩] := by
    rw [readRoles, edgeRows_one (e := ((hasEdge "r" "a").base.edgeKey, ∅)) rfl, List.mapM_cons, List.mapM_nil]
    exact congrArg (fun o => o.bind fun x => some [x]) hrole
  have hsatisfied : (edgeRows default dutyGraph satisfiedByPattern fun e => e.targetId = "s" || e.targetId = "a") =
      [satisfiedByEdge "q" "a"] := edgeRows_one (e := ((satisfiedByEdge "q" "a").base.edgeKey, ∅)) rfl
  have hrequires : (edgeRows default dutyGraph requiresPattern fun e => e.sourceId = "s" || e.sourceId = "a") =
      [requiresEdge "a" "c"] := edgeRows_one (e := ((requiresEdge "a" "c").base.edgeKey, ∅)) rfl
  rw [readObligationMergeState, hs, ha, hrs, hra]
  simp only [Option.bind_eq_bind, Option.bind_some, hsatisfied, hrequires]
  rfl

theorem merged_duty : ∃ g₁, ObligationMerged dutyGraph "s" "a" "r" dutyPlan g₁ := by
  have hsources : incomingSources [satisfiedByEdge "q" "a", requiresEdge "a" "c"] "SATISFIED_BY" "a" = ["q"] := by
    simp [incomingSources, sortedIds, satisfiedByEdge, requiresEdge]
  have htargets : outgoingTargets [satisfiedByEdge "q" "a", requiresEdge "a" "c"] "REQUIRES" "a" = ["c"] := by
    simp [outgoingTargets, sortedIds, satisfiedByEdge, requiresEdge]
  have hguard : obligationMergeGuardHolds dutyState dutyPlan.expected "s" "a" = true := by
    have hincident : ([satisfiedByEdge "q" "a", requiresEdge "a" "c"].filter fun e =>
        ("s" = e.sourceId ∨ "s" = e.targetId) ∨ ("a" = e.sourceId ∨ "a" = e.targetId)) =
        [satisfiedByEdge "q" "a", requiresEdge "a" "c"] := rfl
    simp only [dutyPlan, obligationMergePlan, dutyState, hincident, hsources, htargets]
    rfl
  have hbuilt : (buildGroup (obligationMergePrimitives dutyState "s" "a")).isSome = true := by
    simp only [obligationMergePrimitives, dutyState, hsources, htargets]
    decide +kernel
  obtain ⟨ps, hps⟩ := Option.isSome_iff_exists.1 hbuilt
  exact ⟨_, default, default, _, _, ps, read_dutyGraph, rfl, rfl, read_dutyGraph, hguard, hps, rfl⟩

end PolicySystem
