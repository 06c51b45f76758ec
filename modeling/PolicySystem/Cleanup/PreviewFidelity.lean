import PolicySystem.Cleanup.ObligationRoundTrip
import PolicySystem.Cleanup.SplitReader

/-!
# A preview and the write it stands for

The snapshots an officer is shown and the group that is executed come from different functions of one state
(`merge_planner.py`, `obligation_planner.py`, `split_planner.py` and `group_builders.py` of `graph_cleanup`).

* `preview_faithful`: the group turns every graph that matches the before snapshot into the after snapshot, on the
  edges of the two nodes it edits, and leaves each of their neighbours an edge.
-/

namespace PolicySystem

open PropertyGraph GraphWrite Std

/-! ## Edits -/

/-- A cleanup edit, with the state it is planned from. -/
inductive CleanupEdit where
  | capabilityMerge (survivorId absorbedId : String) (reviewId : Option String) (state : MergeState)
  | obligationMerge (survivorId absorbedId : String) (state : ObligationMergeState)
  | capabilitySplit (xId createdAt : String) (state : CapabilitySplitState)

/-- What the plan of an edit shows, the two nodes it edits, and what it executes. -/
structure EditPlan where
  before : GraphSnapshot
  after : GraphSnapshot
  edited : List NodeRef
  primitives : List RawPrimitive

/-- The state is what the edit's reader returns of the graph. -/
def CleanupEdit.ReadFrom (g : Graph) : CleanupEdit → Prop
  | .capabilityMerge survivorId absorbedId _ state =>
    ∃ scan, readCapabilityMergeState scan g survivorId absorbedId = some state
  | .obligationMerge survivorId absorbedId state =>
    ∃ scan, readObligationMergeState scan g survivorId absorbedId = some state
  | .capabilitySplit xId _ state => ∃ scan reads, readCapabilitySplitState scan g reads xId = some state

/-- The planner and the group builder, on the one state; `none` where the planner refuses. -/
def CleanupEdit.plan (sha256 : Bytes → String) : CleanupEdit → Option EditPlan
  | .capabilityMerge survivorId absorbedId reviewId state => (planCapabilityMerge state).toOption.map fun plan =>
    ⟨plan.before, plan.after, [⟨"Capability", survivorId⟩, ⟨"Capability", absorbedId⟩],
      capabilityMergePrimitives state survivorId absorbedId reviewId⟩
  | .obligationMerge survivorId absorbedId state => (planObligationMerge state).toOption.map fun plan =>
    ⟨plan.before, plan.after, [⟨"Obligation", survivorId⟩, ⟨"Obligation", absorbedId⟩],
      obligationMergePrimitives state survivorId absorbedId⟩
  | .capabilitySplit _ createdAt state => (planCapabilitySplit sha256 state).toOption.map fun plan =>
    ⟨plan.before, plan.after, [⟨"Capability", plan.preview.aId⟩, ⟨"Capability", plan.preview.xId⟩],
      splitPrimitives plan createdAt⟩

/-- The edges of a node that a cleanup edit looks at. -/
def EdgeOf (n : NodeRef) (r : EdgeRecord) : Prop :=
  (n.label = "Capability" ∧ OfCapability n.id r) ∨ (n.label = "Obligation" ∧ OfObligation n.id r)

def EditPlan.InScope (p : EditPlan) (r : EdgeRecord) : Prop := ∃ n ∈ p.edited, EdgeOf n r

/-- The end of an edge that is not the given one. -/
def EdgeRecord.other (r : EdgeRecord) (n : NodeRef) : NodeRef := if r.source = n then r.target else r.source

/-- **The graph matches the before snapshot**: it has its nodes and, in scope, its edges and no others. -/
structure EditPlan.Matches (p : EditPlan) (g : Graph) : Prop where
  nodes : ∀ n ∈ p.before.nodes, n.label = "Capability" ∨ n.label = "Obligation" → (⟨n.label, n.id⟩ : NodeRef) ∈ g.nodes
  edges : ∀ r, p.InScope r → (Shows g r ↔ r ∈ p.before.edges)

/-- What a split's write step sees to before its group is submitted: the held sources were read as nodes, and
`ensure_stamped` gave every edge its identity. -/
def CleanupEdit.Ready (g : Graph) : CleanupEdit → Prop
  | .capabilityMerge .. => True
  | .obligationMerge .. => True
  | .capabilitySplit _ _ state =>
    (∀ c, ∀ id ∈ (heldOf state c).heldX, (⟨EdgeClass.sourceLabel c, id⟩ : NodeRef) ∈ g.nodes) ∧
      ∀ k : EdgeKey, g.edgesAt k ≠ 0 → k.Standard

/-- **The graph is as previewed**: in scope it has the edges of the after snapshot, and whatever an edited node was
linked to, one of the two is still linked to in the same way. -/
structure EditPlan.Faithful (p : EditPlan) (g g' : Graph) : Prop where
  edges : ∀ r, p.InScope r → (Shows g' r ↔ r ∈ p.after.edges)
  linked : ∀ n ∈ p.edited, ∀ r, EdgeOf n r → Shows g r → ∃ m ∈ p.edited, ∃ q, EdgeOf m q ∧ Shows g' q ∧
    q.relType = r.relType ∧ q.other m = r.other n

/-- **The four sets of one class partition** the sources A has, and those X alone gains. -/
structure SplitEdgeSet.Partitions (e : SplitEdgeSet) (c : EdgeClass) (aId xId : String) (g g' : Graph) : Prop where
  disjoint : (e.moves ++ e.shared ++ e.added ++ e.stays).Nodup
  sources : ∀ id, Shows g (classEdge c id aId) ↔ id ∈ e.moves ∨ id ∈ e.shared ∨ id ∈ e.stays
  onA : ∀ id, Shows g' (classEdge c id aId) ↔ id ∈ e.shared ∨ id ∈ e.stays
  onX : ∀ id, Shows g' (classEdge c id xId) ↔ id ∈ e.moves ∨ id ∈ e.shared ∨ id ∈ e.added

/-- The classes of a split are partitioned by the sets its preview names. -/
def CleanupEdit.Partitioned (sha256 : Bytes → String) (g g' : Graph) : CleanupEdit → Prop
  | .capabilityMerge .. => True
  | .obligationMerge .. => True
  | .capabilitySplit _ _ state => ∀ plan, planCapabilitySplit sha256 state = .ok plan → ∀ c,
    (plan.preview.edges c).Partitions c plan.preview.aId plan.preview.xId g g'

/-! ## Neighbours -/

theorem edgeOf_capability {id : String} {r : EdgeRecord} : EdgeOf ⟨"Capability", id⟩ r ↔ OfCapability id r := by
  simp [EdgeOf]

theorem edgeOf_obligation {id : String} {r : EdgeRecord} : EdgeOf ⟨"Obligation", id⟩ r ↔ OfObligation id r := by
  simp [EdgeOf]

@[simp] theorem other_classEdge (c : EdgeClass) (source id : String) :
    (classEdge c source id).other ⟨"Capability", id⟩ = ⟨c.sourceLabel, source⟩ := by
  have hne : (classEdge c source id).source ≠ ⟨"Capability", id⟩ :=
    fun heq => sourceLabel_ne_capability c (congrArg NodeRef.label heq)
  rw [EdgeRecord.other, if_neg hne]
  rfl

@[simp] theorem other_governedBy (id policyId : String) :
    (governedBy id policyId).other ⟨"Capability", id⟩ = ⟨"Policy", policyId⟩ := if_pos rfl

@[simp] theorem other_satisfiedByEdge (requirementId id : String) :
    (satisfiedByEdge requirementId id).other ⟨"Obligation", id⟩ = ⟨"Requirement", requirementId⟩ := by
  have hne : (satisfiedByEdge requirementId id).source ≠ ⟨"Obligation", id⟩ :=
    fun heq => absurd (congrArg NodeRef.label heq) (by decide : "Requirement" ≠ "Obligation")
  rw [EdgeRecord.other, if_neg hne]
  rfl

@[simp] theorem other_hasEdge (roleId id : String) :
    (hasEdge roleId id).other ⟨"Obligation", id⟩ = ⟨"Role", roleId⟩ := by
  have hne : (hasEdge roleId id).source ≠ ⟨"Obligation", id⟩ :=
    fun heq => absurd (congrArg NodeRef.label heq) (by decide : "Role" ≠ "Obligation")
  rw [EdgeRecord.other, if_neg hne]
  rfl

@[simp] theorem other_requiresEdge (id capabilityId : String) :
    (requiresEdge id capabilityId).other ⟨"Obligation", id⟩ = ⟨"Capability", capabilityId⟩ := if_pos rfl

/-! ## A Capability merge -/

section Capability

variable {g g₀ : Graph} {state : MergeState} {survivor absorbed : CapabilityNodeState} {reviewId : Option String}
  {ps : List Primitive}

/-- The plan of a Capability merge, as one of a cleanup edit. -/
def capabilityEditPlan (state : MergeState) (survivor absorbed : CapabilityNodeState) (reviewId : Option String) : EditPlan :=
  ⟨(capabilityMergePlan state survivor absorbed).before, (capabilityMergePlan state survivor absorbed).after,
    [⟨"Capability", survivor.id⟩, ⟨"Capability", absorbed.id⟩],
    capabilityMergePrimitives state survivor.id absorbed.id reviewId⟩

theorem capability_inScope {r : EdgeRecord} : (capabilityEditPlan state survivor absorbed reviewId).InScope r ↔
    OfCapability survivor.id r ∨ OfCapability absorbed.id r := by
  simp [EditPlan.InScope, capabilityEditPlan, edgeOf_capability]

/-- A graph that matches the preview is one the state could have been read from. -/
theorem mergeStateOf_matches (hof : MergeStateOf g₀ survivor.id absorbed.id state)
    (hmatch : (capabilityEditPlan state survivor absorbed reviewId).Matches g) :
    MergeStateOf g survivor.id absorbed.id state := by
  have hedges : ∀ r, OfCapability survivor.id r ∨ OfCapability absorbed.id r →
      (Shows g r ↔ r ∈ (capabilityMergePlan state survivor absorbed).before.edges) :=
    fun r hr => hmatch.edges r (capability_inScope.2 hr)
  have hnodes := hmatch.nodes
  have hgoverned : ∀ id policyId : String, id = survivor.id ∨ id = absorbed.id →
      (Shows g (governedBy id policyId) ↔ Shows g₀ (governedBy id policyId)) := by
    intro id policyId hid
    have hscope : OfCapability survivor.id (governedBy id policyId) ∨ OfCapability absorbed.id (governedBy id policyId) := by
      rcases hid with rfl | rfl
      · exact .inl (.inr ⟨policyId, rfl⟩)
      · exact .inr (.inr ⟨policyId, rfl⟩)
    rw [hedges _ hscope, capability_before_iff hof]
    exact and_iff_left hscope
  refine ⟨hof.survivor_id, hof.absorbed_id, fun x hx => ?_, fun x hx => ?_, hof.shaped, fun c source target => ?_,
    fun id => ?_, fun id => ?_⟩
  · exact hnodes (snapshotCapability survivor) (by simp [capabilityEditPlan, capabilityMergePlan]) (.inl rfl)
  · exact hnodes (snapshotCapability absorbed) (by simp [capabilityEditPlan, capabilityMergePlan]) (.inl rfl)
  · constructor
    · intro hmem
      obtain ⟨-, htarget⟩ := (hof.edges c source target).1 hmem
      refine ⟨?_, htarget⟩
      have hscope : OfCapability survivor.id (classEdge c source target) ∨
          OfCapability absorbed.id (classEdge c source target) := by
        rcases htarget with rfl | rfl
        · exact .inl (.inl ⟨c, source, rfl⟩)
        · exact .inr (.inl ⟨c, source, rfl⟩)
      exact (hedges _ hscope).2 (classEdge_mem_before.2 ⟨hmem, htarget⟩)
    · rintro ⟨hshow, htarget⟩
      have hscope : OfCapability survivor.id (classEdge c source target) ∨
          OfCapability absorbed.id (classEdge c source target) := by
        rcases htarget with rfl | rfl
        · exact .inl (.inl ⟨c, source, rfl⟩)
        · exact .inr (.inl ⟨c, source, rfl⟩)
      exact (classEdge_mem_before.1 ((hedges _ hscope).1 hshow)).1
  · rw [hof.survivorPolicies, hgoverned survivor.id id (.inl rfl)]
  · rw [hof.absorbedPolicies, hgoverned absorbed.id id (.inr rfl)]

/-- The edges of the after snapshot: those the survivor has, and those the merge brings it. -/
theorem mem_capability_after (hof : MergeStateOf g survivor.id absorbed.id state)
    (valid : CapabilityMergeValid state survivor absorbed) {r : EdgeRecord} :
    r ∈ (capabilityMergePlan state survivor absorbed).after.edges ↔
      (OfCapability survivor.id r ∧ Shows g r) ∨ Brings g survivor.id absorbed.id r := by
  have hsources : ∀ (c : EdgeClass) (source id : String), id = survivor.id ∨ id = absorbed.id →
      (source ∈ incomingSources (state.edges.filter fun e => e.targetId = survivor.id ∨ e.targetId = absorbed.id)
        c.relType id ↔ Shows g (classEdge c source id)) := by
    intro c source id hid
    have hshape : ∀ r ∈ state.edges.filter (fun e => e.targetId = survivor.id ∨ e.targetId = absorbed.id),
        r.relType = c.relType → r = classEdge c r.sourceId r.targetId :=
      fun r hr => shaped_class hof.shaped c r (List.mem_of_mem_filter hr)
    rw [mem_incomingSources_class hshape, List.mem_filter, hof.edges, decide_eq_true_eq]
    exact ⟨fun h => h.1.1, fun h => ⟨⟨h, hid⟩, hid⟩⟩
  have hpolicies : ∀ id, (∃ p ∈ distinctPolicies (state.survivorPolicies ++ state.absorbedPolicies), p.id = id) ↔
      Shows g (governedBy survivor.id id) ∨ Shows g (governedBy absorbed.id id) := by
    intro id
    rw [distinctPolicies_ids, ← hof.survivorPolicies, ← hof.absorbedPolicies]
    simp only [List.mem_append]
    constructor
    · rintro ⟨p, hp | hp, rfl⟩
      · exact .inl ⟨p, hp, rfl⟩
      · exact .inr ⟨p, hp, rfl⟩
    · rintro (⟨p, hp, rfl⟩ | ⟨p, hp, rfl⟩)
      · exact ⟨p, .inl hp, rfl⟩
      · exact ⟨p, .inr hp, rfl⟩
  simp only [capabilityMergePlan, mem_sortedEdges, List.mem_append, List.mem_flatMap, List.mem_map, sortedUnion,
    mem_sortedIds, Finset.mem_union, List.mem_toFinset]
  constructor
  · rintro (⟨c, -, source, hsource | hsource, rfl⟩ | ⟨p, hp, rfl⟩)
    · exact .inl ⟨.inl ⟨c, source, rfl⟩, (hsources c source _ (.inl rfl)).1 hsource⟩
    · exact .inr (.inl ⟨c, source, rfl, (hsources c source _ (.inr rfl)).1 hsource⟩)
    · by_cases hsurvivor : Shows g (governedBy survivor.id p.id)
      · exact .inl ⟨.inr ⟨p.id, rfl⟩, hsurvivor⟩
      · have habsorbed := ((hpolicies p.id).1 ⟨p, hp, rfl⟩).resolve_left hsurvivor
        refine .inr (.inr ⟨p.id, rfl, ?_, habsorbed⟩)
        -- a governor of the survivor is the one of the absorbed Capability
        rintro ⟨other, hother⟩
        obtain ⟨x, hx, rfl⟩ := (hof.survivorPolicies other).2 hother
        obtain ⟨y, hy, hyid⟩ := (hof.absorbedPolicies p.id).2 habsorbed
        rw [valid.samePolicy x hx y hy, hyid] at hother
        exact hsurvivor hother
  · rintro (⟨⟨c, source, rfl⟩ | ⟨policyId, rfl⟩, hshow⟩ | ⟨c, source, rfl, hshow⟩ | ⟨policyId, rfl, -, hshow⟩)
    · exact .inl ⟨c, mem_all c, source, .inl ((hsources c source _ (.inl rfl)).2 hshow), rfl⟩
    · obtain ⟨p, hp, rfl⟩ := (hpolicies policyId).2 (.inl hshow)
      exact .inr ⟨p, hp, rfl⟩
    · exact .inl ⟨c, mem_all c, source, .inr ((hsources c source _ (.inr rfl)).2 hshow), rfl⟩
    · obtain ⟨p, hp, rfl⟩ := (hpolicies policyId).2 (.inr hshow)
      exact .inr ⟨p, hp, rfl⟩

theorem capability_faithful (hof : MergeStateOf g survivor.id absorbed.id state)
    (valid : CapabilityMergeValid state survivor absorbed)
    (hbuilt : buildGroup (capabilityMergePrimitives state survivor.id absorbed.id reviewId) = some ps) :
    (capabilityEditPlan state survivor absorbed reviewId).Faithful g (applyAll g ps) := by
  rw [capabilityMergePrimitives_shape, ← mergeUpserts] at hbuilt
  have hsurvivor := hof.survivor_mem survivor valid.hasSurvivor
  -- what the survivor shows afterwards
  have hshows : ∀ r, OfCapability survivor.id r →
      (Shows (applyAll g ps) r ↔ Shows g r ∨ Brings g survivor.id absorbed.id r) := by
    intro r hr
    rw [mergeShape_shows hbuilt (hr.not_touches valid.distinct) (fun id _ => hr.not_touches_label (.inl rfl) id) ?_,
      mem_mergeUpserts hof]
    intro hmem
    rcases (mem_mergeUpserts hof).1 hmem with ⟨c, source, rfl, hshow⟩ | ⟨policyId, rfl, -, hshow⟩
    · exact ⟨hshow.ends.1, hsurvivor⟩
    · exact ⟨hsurvivor, hshow.ends.2⟩
  have hgone : ∀ r, OfCapability absorbed.id r → ¬ Shows (applyAll g ps) r := by
    intro r hr
    refine mergeShape_not_shows hbuilt (by decide) ?_
    rcases hr with ⟨c, source, rfl⟩ | ⟨policyId, rfl⟩
    · exact .inr rfl
    · exact .inl rfl
  refine ⟨fun r hr => ?_, fun n hn r hr hshow => ?_⟩
  · rw [show (capabilityEditPlan state survivor absorbed reviewId).after =
      (capabilityMergePlan state survivor absorbed).after from rfl, mem_capability_after hof valid]
    rcases capability_inScope.1 hr with hr | hr
    · rw [hshows r hr, and_iff_right hr]
    · refine iff_of_false (hgone r hr) ?_
      rintro (⟨hs, -⟩ | hb)
      · exact valid.distinct (hs.eq hr)
      · exact valid.distinct (hb.shape.eq hr)
  · have hkeeps : ∀ q, OfCapability survivor.id q → Shows g q ∨ Brings g survivor.id absorbed.id q →
        ∃ m ∈ (capabilityEditPlan state survivor absorbed reviewId).edited, ∃ q', EdgeOf m q' ∧
          Shows (applyAll g ps) q' ∧ q'.relType = q.relType ∧ q'.other m = q.other ⟨"Capability", survivor.id⟩ :=
      fun q hq hold => ⟨_, List.mem_cons_self, q, edgeOf_capability.2 hq, (hshows q hq).2 hold, rfl, rfl⟩
    simp only [capabilityEditPlan, List.mem_cons, List.not_mem_nil, or_false] at hn
    rcases hn with rfl | rfl
    · exact hkeeps r (edgeOf_capability.1 hr) (.inl hshow)
    · rcases edgeOf_capability.1 hr with ⟨c, source, rfl⟩ | ⟨policyId, rfl⟩
      · have hmoved := hkeeps (classEdge c source survivor.id) (.inl ⟨c, source, rfl⟩) (.inr (.inl ⟨c, source, rfl, hshow⟩))
        rw [other_classEdge] at hmoved ⊢
        exact hmoved
      · have hnow : Shows g (governedBy survivor.id policyId) ∨
            Brings g survivor.id absorbed.id (governedBy survivor.id policyId) := by
          by_cases hgoverned : Governed g survivor.id
          · obtain ⟨other, hother⟩ := hgoverned
            obtain ⟨x, hx, rfl⟩ := (hof.survivorPolicies other).2 hother
            obtain ⟨y, hy, rfl⟩ := (hof.absorbedPolicies policyId).2 hshow
            rw [valid.samePolicy x hx y hy] at hother
            exact .inl hother
          · exact .inr (.inr ⟨policyId, rfl, hgoverned, hshow⟩)
        have hmoved := hkeeps (governedBy survivor.id policyId) (.inr ⟨policyId, rfl⟩) hnow
        rw [other_governedBy] at hmoved ⊢
        exact hmoved

end Capability

/-! ## An Obligation merge -/

section Obligation

variable {g g₀ : Graph} {state : ObligationMergeState} {survivor absorbed : ObligationNodeState} {role : RoleRef}
  {ps : List Primitive}

/-- The plan of an Obligation merge, as one of a cleanup edit. -/
def obligationEditPlan (state : ObligationMergeState) (survivor absorbed : ObligationNodeState) (role : RoleRef) :
    EditPlan :=
  ⟨(obligationMergePlan state survivor absorbed role).before, (obligationMergePlan state survivor absorbed role).after,
    [⟨"Obligation", survivor.id⟩, ⟨"Obligation", absorbed.id⟩],
    obligationMergePrimitives state survivor.id absorbed.id⟩

theorem obligation_inScope {r : EdgeRecord} : (obligationEditPlan state survivor absorbed role).InScope r ↔
    OfObligation survivor.id r ∨ OfObligation absorbed.id r := by
  simp [EditPlan.InScope, obligationEditPlan, edgeOf_obligation]

/-- What a merge state says of a graph, where the two are under the one Role. -/
structure UnderRole (g : Graph) (survivorId absorbedId roleId : String) (state : ObligationMergeState) : Prop where
  distinct : survivorId ≠ absorbedId
  survivor_mem : (⟨"Obligation", survivorId⟩ : NodeRef) ∈ g.nodes
  bearer : ∀ id, id = survivorId ∨ id = absorbedId → ∀ bearerId, Shows g (hasEdge bearerId id) ↔ bearerId = roleId
  satisfied : ∀ id, id = survivorId ∨ id = absorbedId → ∀ requirementId,
    satisfiedByEdge requirementId id ∈ state.edges ↔ Shows g (satisfiedByEdge requirementId id)
  requires : ∀ id, id = survivorId ∨ id = absorbedId → ∀ capabilityId,
    requiresEdge id capabilityId ∈ state.edges ↔ Shows g (requiresEdge id capabilityId)
  shaped : ∀ r ∈ state.edges, r = satisfiedByEdge r.sourceId r.targetId ∨ r = requiresEdge r.sourceId r.targetId

/-- The before snapshot, on the edges of the two. -/
theorem obligation_before_scope {id : String} (hid : id = survivor.id ∨ id = absorbed.id) :
    (∀ bearerId, hasEdge bearerId id ∈ (obligationMergePlan state survivor absorbed role).before.edges ↔
      bearerId = role.id ∨ hasEdge bearerId id ∈ state.edges) ∧
    (∀ requirementId, satisfiedByEdge requirementId id ∈ (obligationMergePlan state survivor absorbed role).before.edges ↔
      satisfiedByEdge requirementId id ∈ state.edges) ∧
    ∀ capabilityId, requiresEdge id capabilityId ∈ (obligationMergePlan state survivor absorbed role).before.edges ↔
      requiresEdge id capabilityId ∈ state.edges := by
  simp only [mem_obligation_before, hasEdge, satisfiedByEdge, requiresEdge, EdgeRecord.mk.injEq]
  refine ⟨fun bearerId => ?_, fun requirementId => ?_, fun capabilityId => ?_⟩
  · rcases hid with rfl | rfl <;> simp <;> tauto
  · rcases hid with rfl | rfl <;> simp
  · rcases hid with rfl | rfl <;> simp

theorem underRole_matches (hof : ObligationStateOf g₀ survivor.id absorbed.id state)
    (valid : ObligationMergeValid state survivor absorbed role)
    (hmatch : (obligationEditPlan state survivor absorbed role).Matches g) :
    UnderRole g survivor.id absorbed.id role.id state := by
  have hshaped : ∀ r ∈ state.edges, r = satisfiedByEdge r.sourceId r.targetId ∨ r = requiresEdge r.sourceId r.targetId :=
    fun r hr => ((hof.edges r).1 hr).2.imp And.left And.left
  have hscope : ∀ (id : String) (r : EdgeRecord), id = survivor.id ∨ id = absorbed.id → OfObligation id r →
      (Shows g r ↔ r ∈ (obligationMergePlan state survivor absorbed role).before.edges) := by
    intro id r hid hr
    refine hmatch.edges r (obligation_inScope.2 ?_)
    rcases hid with rfl | rfl
    · exact .inl hr
    · exact .inr hr
  refine ⟨valid.distinct, ?_, fun id hid bearerId => ?_, fun id hid requirementId => ?_, fun id hid capabilityId => ?_,
    hshaped⟩
  · exact hmatch.nodes (snapshotObligation survivor) (by simp [obligationEditPlan, obligationMergePlan]) (.inr rfl)
  · rw [hscope id _ hid (.inl ⟨bearerId, rfl⟩), (obligation_before_scope hid).1]
    refine or_iff_left fun hmem => ?_
    rcases hshaped _ hmem with h | h
    · exact absurd (congrArg EdgeRecord.relType h) (by decide : "HAS" ≠ "SATISFIED_BY")
    · exact absurd (congrArg EdgeRecord.relType h) (by decide : "HAS" ≠ "REQUIRES")
  · rw [hscope id _ hid (.inr (.inl ⟨requirementId, rfl⟩)), (obligation_before_scope hid).2.1]
  · rw [hscope id _ hid (.inr (.inr ⟨capabilityId, rfl⟩)), (obligation_before_scope hid).2.2]

/-- The merge puts the edge on the survivor. -/
def BringsDuty (g : Graph) (survivorId absorbedId : String) (r : EdgeRecord) : Prop :=
  (∃ id, r = satisfiedByEdge id survivorId ∧ Shows g (satisfiedByEdge id absorbedId)) ∨
    ∃ id, r = requiresEdge survivorId id ∧ Shows g (requiresEdge absorbedId id)

/-- The sources and targets of the edges of one of the two, among edges that are all in the state. -/
theorem UnderRole.sources {survivorId absorbedId roleId : String} (h : UnderRole g survivorId absorbedId roleId state)
    {edges : List EdgeRecord} (hedges : ∀ r, r ∈ edges → r ∈ state.edges) {id : String}
    (hid : id = survivorId ∨ id = absorbedId)
    (hmem : ∀ r, r ∈ state.edges → r.sourceId = id ∨ r.targetId = id → r ∈ edges) (other : String) :
    (other ∈ incomingSources edges "SATISFIED_BY" id ↔ Shows g (satisfiedByEdge other id)) ∧
      (other ∈ outgoingTargets edges "REQUIRES" id ↔ Shows g (requiresEdge id other)) := by
  rw [mem_incomingSources, mem_outgoingTargets, ← h.satisfied id hid, ← h.requires id hid]
  constructor
  · constructor
    · rintro ⟨r, hr, hrel, rfl, rfl⟩
      rcases h.shaped r (hedges r hr) with heq | heq
      · rw [← heq]
        exact hedges r hr
      · rw [heq] at hrel
        exact absurd hrel (by decide : "REQUIRES" ≠ "SATISFIED_BY")
    · intro hstate
      exact ⟨_, hmem _ hstate (.inr rfl), rfl, rfl, rfl⟩
  · constructor
    · rintro ⟨r, hr, hrel, rfl, rfl⟩
      rcases h.shaped r (hedges r hr) with heq | heq
      · rw [heq] at hrel
        exact absurd hrel (by decide : "SATISFIED_BY" ≠ "REQUIRES")
      · rw [← heq]
        exact hedges r hr
    · intro hstate
      exact ⟨_, hmem _ hstate (.inl rfl), rfl, rfl, rfl⟩

theorem UnderRole.mem_upserts {survivorId absorbedId roleId : String}
    (h : UnderRole g survivorId absorbedId roleId state) {r : EdgeRecord} :
    r ∈ obligationUpserts state.edges survivorId absorbedId ↔ BringsDuty g survivorId absorbedId r := by
  have hsources := h.sources (fun _ hr => hr) (.inr rfl) fun r hr _ => hr
  simp only [obligationUpserts, List.mem_append, List.mem_map, (hsources _).1, (hsources _).2, BringsDuty]
  constructor
  · rintro (⟨id, hshow, rfl⟩ | ⟨id, hshow, rfl⟩)
    · exact .inl ⟨id, rfl, hshow⟩
    · exact .inr ⟨id, rfl, hshow⟩
  · rintro (⟨id, rfl, hshow⟩ | ⟨id, rfl, hshow⟩)
    · exact .inl ⟨id, hshow, rfl⟩
    · exact .inr ⟨id, hshow, rfl⟩

/-- The edges of the after snapshot: those the survivor has, and those the merge brings it. -/
theorem mem_obligation_after (h : UnderRole g survivor.id absorbed.id role.id state) {r : EdgeRecord} :
    r ∈ (obligationMergePlan state survivor absorbed role).after.edges ↔
      (OfObligation survivor.id r ∧ Shows g r) ∨ BringsDuty g survivor.id absorbed.id r := by
  have hincident : ∀ id other, id = survivor.id ∨ id = absorbed.id → _ := fun id other hid =>
    @UnderRole.sources g state survivor.id absorbed.id role.id h
      (state.edges.filter fun e => (survivor.id = e.sourceId ∨ survivor.id = e.targetId) ∨
        (absorbed.id = e.sourceId ∨ absorbed.id = e.targetId)) (fun r hr => List.mem_of_mem_filter hr) id hid
      (fun r hr hends => List.mem_filter.2 ⟨hr, decide_eq_true (by
        rcases hid with rfl | rfl
        · exact .inl (hends.imp Eq.symm Eq.symm)
        · exact .inr (hends.imp Eq.symm Eq.symm))⟩) other
  have hbearer := h.bearer survivor.id (.inl rfl)
  simp only [obligationMergePlan, mem_sortedEdges, List.mem_append, List.mem_singleton, List.mem_map, sortedUnion,
    mem_sortedIds, Finset.mem_union, List.mem_toFinset, (hincident survivor.id _ (.inl rfl)).1,
    (hincident survivor.id _ (.inl rfl)).2, (hincident absorbed.id _ (.inr rfl)).1,
    (hincident absorbed.id _ (.inr rfl)).2]
  constructor
  · rintro ((rfl | ⟨id, hshow | hshow, rfl⟩) | ⟨id, hshow | hshow, rfl⟩)
    · exact .inl ⟨.inl ⟨role.id, rfl⟩, (hbearer role.id).2 rfl⟩
    · exact .inl ⟨.inr (.inl ⟨id, rfl⟩), hshow⟩
    · exact .inr (.inl ⟨id, rfl, hshow⟩)
    · exact .inl ⟨.inr (.inr ⟨id, rfl⟩), hshow⟩
    · exact .inr (.inr ⟨id, rfl, hshow⟩)
  · rintro (⟨⟨id, rfl⟩ | ⟨id, rfl⟩ | ⟨id, rfl⟩, hshow⟩ | ⟨id, rfl, hshow⟩ | ⟨id, rfl, hshow⟩)
    · rw [(hbearer id).1 hshow]
      exact .inl (.inl rfl)
    · exact .inl (.inr ⟨id, .inl hshow, rfl⟩)
    · exact .inr ⟨id, .inl hshow, rfl⟩
    · exact .inl (.inr ⟨id, .inr hshow, rfl⟩)
    · exact .inr ⟨id, .inr hshow, rfl⟩

theorem BringsDuty.shape {survivorId absorbedId : String} {r : EdgeRecord} (h : BringsDuty g survivorId absorbedId r) :
    OfObligation survivorId r := by
  rcases h with ⟨id, rfl, -⟩ | ⟨id, rfl, -⟩
  · exact .inr (.inl ⟨id, rfl⟩)
  · exact .inr (.inr ⟨id, rfl⟩)

theorem obligation_faithful (h : UnderRole g survivor.id absorbed.id role.id state)
    (hbuilt : buildGroup (obligationMergePrimitives state survivor.id absorbed.id) = some ps) :
    (obligationEditPlan state survivor absorbed role).Faithful g (applyAll g ps) := by
  rw [obligationMergePrimitives_shape] at hbuilt
  have hshape : buildGroup (mergeShape (obligationUpserts state.edges survivor.id absorbed.id) "Obligation"
    "MergedObligation" survivor.id absorbed.id (deleteReview none)) = some ps := hbuilt
  have hshows : ∀ r, OfObligation survivor.id r →
      (Shows (applyAll g ps) r ↔ Shows g r ∨ BringsDuty g survivor.id absorbed.id r) := by
    intro r hr
    rw [mergeShape_shows hshape (hr.not_touches h.distinct) (fun id hid => absurd hid (by simp)) ?_, h.mem_upserts]
    intro hmem
    rcases h.mem_upserts.1 hmem with ⟨id, rfl, hshow⟩ | ⟨id, rfl, hshow⟩
    · exact ⟨hshow.ends.1, h.survivor_mem⟩
    · exact ⟨h.survivor_mem, hshow.ends.2⟩
  have hgone : ∀ r, OfObligation absorbed.id r → ¬ Shows (applyAll g ps) r :=
    fun r hr => mergeShape_not_shows hshape (by decide) hr.touches
  refine ⟨fun r hr => ?_, fun n hn r hr hshow => ?_⟩
  · rw [show (obligationEditPlan state survivor absorbed role).after =
      (obligationMergePlan state survivor absorbed role).after from rfl, mem_obligation_after h]
    rcases obligation_inScope.1 hr with hr | hr
    · rw [hshows r hr, and_iff_right hr]
    · refine iff_of_false (hgone r hr) ?_
      rintro (⟨hs, -⟩ | hb)
      · exact hs.not_touches h.distinct hr.touches
      · exact hb.shape.not_touches h.distinct hr.touches
  · have hkeeps : ∀ q, OfObligation survivor.id q → Shows g q ∨ BringsDuty g survivor.id absorbed.id q →
        ∃ m ∈ (obligationEditPlan state survivor absorbed role).edited, ∃ q', EdgeOf m q' ∧
          Shows (applyAll g ps) q' ∧ q'.relType = q.relType ∧ q'.other m = q.other ⟨"Obligation", survivor.id⟩ :=
      fun q hq hold => ⟨_, List.mem_cons_self, q, edgeOf_obligation.2 hq, (hshows q hq).2 hold, rfl, rfl⟩
    simp only [obligationEditPlan, List.mem_cons, List.not_mem_nil, or_false] at hn
    rcases hn with rfl | rfl
    · exact hkeeps r (edgeOf_obligation.1 hr) (.inl hshow)
    · rcases edgeOf_obligation.1 hr with ⟨id, rfl⟩ | ⟨id, rfl⟩ | ⟨id, rfl⟩
      · -- both are under the one Role
        have hrole := (h.bearer absorbed.id (.inr rfl) id).1 hshow
        have hkept := hkeeps (hasEdge id survivor.id) (.inl ⟨id, rfl⟩) (.inl ((h.bearer survivor.id (.inl rfl) id).2 hrole))
        rw [other_hasEdge] at hkept ⊢
        exact hkept
      · have hmoved := hkeeps (satisfiedByEdge id survivor.id) (.inr (.inl ⟨id, rfl⟩)) (.inr (.inl ⟨id, rfl, hshow⟩))
        rw [other_satisfiedByEdge] at hmoved ⊢
        exact hmoved
      · have hmoved := hkeeps (requiresEdge survivor.id id) (.inr (.inr ⟨id, rfl⟩)) (.inr (.inr ⟨id, rfl, hshow⟩))
        rw [other_requiresEdge] at hmoved ⊢
        exact hmoved

end Obligation

/-! ## A split -/

/-- The edges a split shows, and the sets it previews; `governed` are those of A's Policy. -/
structure SplitShown (state : CapabilitySplitState) (plan : CapabilitySplitPlan) (a : CapabilityNodeState)
    (governed : List EdgeRecord) : Prop where
  terminal : state.terminal = some a
  aId : plan.preview.aId = a.id
  xId : plan.preview.xId = state.xId
  sets : ∀ c, plan.preview.edges c = splitEdgeSet state a.id c
  policy : ∀ r, r ∈ governed ↔ ∃ p ∈ state.terminalPolicies, r = governedBy a.id p.id
  snapshot : ∀ n ∈ plan.before.nodes, n.label = "Capability" ∨ n.label = "Obligation" → n.label = "Capability" ∧ n.id = a.id
  before : ∀ r, r ∈ plan.before.edges ↔ r ∈ state.terminalEdges ∨ r ∈ governed
  after : ∀ r, r ∈ plan.after.edges ↔
    (∃ c id, r = classEdge c id a.id ∧ id ∈ current state c a.id ∧ id ∉ moves state a.id c) ∨
      (∃ c id, r = classEdge c id state.xId ∧ id ∈ (heldOf state c).heldX) ∨ r ∈ governed

theorem validateSplit_policies {state : CapabilitySplitState} {a : CapabilityNodeState} {resolvesTo : String}
    (h : validateSplit state = .ok (a, resolvesTo)) : state.terminalPolicies.length ≤ 1 := by
  by_contra hmany
  unfold validateSplit at h
  split at h
  · cases h
  · split at h
    · cases h
    · split at h
      · split at h
        · cases h
        · rw [if_pos (Nat.lt_of_not_le hmany)] at h
          cases h
      · cases h

theorem SplitShown.of_policy {state : CapabilitySplitState} {plan : CapabilitySplitPlan} {a : CapabilityNodeState}
    {governed : List EdgeRecord} (h : SplitShown state plan a governed) {r : EdgeRecord} (hr : r ∈ governed) :
    ∃ policyId, r = governedBy a.id policyId := by
  obtain ⟨p, -, rfl⟩ := (h.policy r).1 hr
  exact ⟨p.id, rfl⟩

theorem splitShown_of_ok {sha256 : Bytes → String} {state : CapabilitySplitState} {plan : CapabilitySplitPlan}
    (h : planCapabilitySplit sha256 state = .ok plan) : ∃ a governed, SplitShown state plan a governed := by
  unfold planCapabilitySplit at h
  cases hvalid : validateSplit state with
  | error e =>
    rw [hvalid] at h
    cases h
  | ok result =>
    obtain ⟨a, resolvesTo⟩ := result
    have hterminal := validateSplit_ok hvalid
    cases hsource : sourceHolder state.holders with
    | none =>
      rw [hvalid, hsource] at h
      cases h
    | some source =>
      rw [hvalid, hsource] at h
      cases h
      have hmem : ∀ {edges : List EdgeRecord} {r : EdgeRecord}, r ∈ sortedSplitEdges edges ↔ r ∈ edges :=
        (List.perm_insertionSort _ _).mem_iff
      have hpolicies : ∀ p, p ∈ state.terminalPolicies.head?.toList ↔ p ∈ state.terminalPolicies := by
        have hone := validateSplit_policies hvalid
        match hlist : state.terminalPolicies, hone with
        | [], _ => simp
        | [q], _ => simp
      refine ⟨a, state.terminalPolicies.head?.toList.map fun p => governedBy a.id p.id, hterminal, rfl, rfl,
        fun c => rfl, fun r => ?_, fun n hn hlabel => ?_, fun r => ?_, fun r => ?_⟩
      · simp only [List.mem_map, hpolicies, eq_comm]
      · simp only [List.mem_append, List.mem_cons, List.not_mem_nil, or_false, List.mem_map] at hn
        rcases hn with (rfl | rfl) | ⟨p, -, rfl⟩
        · exact ⟨rfl, rfl⟩
        · simp at hlabel
        · simp at hlabel
      · rw [hmem, List.mem_append]
      · simp only [hmem, List.mem_append, List.mem_map, List.mem_flatMap, mem_sortedIds, Finset.mem_sdiff]
        rw [← or_assoc]
        refine or_congr_left ?_
        constructor
        · rintro ⟨c, -, ⟨id, hid, rfl⟩ | ⟨id, hid, rfl⟩⟩
          · exact .inl ⟨c, id, rfl, hid⟩
          · exact .inr ⟨c, id, rfl, hid⟩
        · rintro (⟨c, id, rfl, hid⟩ | ⟨c, id, rfl, hid⟩)
          · exact ⟨c, mem_all c, .inl ⟨id, hid, rfl⟩⟩
          · exact ⟨c, mem_all c, .inr ⟨id, hid, rfl⟩⟩

/-- The edges a split puts on X. -/
def splitUpserts (plan : CapabilitySplitPlan) : List EdgeRecord :=
  EdgeClass.all.flatMap fun c =>
    ((plan.preview.edges c).moves ++ (plan.preview.edges c).shared ++ (plan.preview.edges c).added).map
      (classEdge c · plan.preview.xId)

/-- The edges it takes off A. -/
def splitDeletes (plan : CapabilitySplitPlan) : List EdgeRecord :=
  EdgeClass.all.flatMap fun c => (plan.preview.edges c).moves.map (classEdge c · plan.preview.aId)

theorem splitPrimitives_shape (plan : CapabilitySplitPlan) (createdAt : String) : splitPrimitives plan createdAt =
    [.upsertNode "Capability" plan.preview.xId (mintedProperties plan.minted createdAt) plan.minted.embedding] ++
      (splitUpserts plan).map upsertRecord ++ (splitDeletes plan).map deleteRecord ++
        [.deleteNode "ResolvedCapability" plan.preview.xId] := by
  simp only [splitPrimitives, splitUpserts, splitDeletes, List.map_flatMap, List.map_map]
  rfl

section Split

variable {g g₀ : Graph} {state : CapabilitySplitState} {plan : CapabilitySplitPlan} {a : CapabilityNodeState}
  {createdAt : String} {ps : List Primitive}

/-- **The edges a split group leaves** on Capabilities, where it takes off only edges of standard identity. -/
theorem split_shows (hbuilt : buildGroup (splitPrimitives plan createdAt) = some ps) {r : EdgeRecord}
    (hof : ∃ id, OfCapability id r) (hstandard : ∀ k : EdgeKey, g.edgesAt k ≠ 0 → k.Standard)
    (hends : r ∈ splitUpserts plan → r.source ∈ g.nodes ∧ r.target = ⟨"Capability", plan.preview.xId⟩)
    (hdisjoint : r ∈ splitUpserts plan → r ∉ splitDeletes plan) :
    Shows (applyAll g ps) r ↔ (Shows g r ∧ r ∉ splitDeletes plan) ∨ r ∈ splitUpserts plan := by
  rw [splitPrimitives_shape] at hbuilt
  obtain ⟨main, last, hmain, hlast, rfl⟩ := buildGroup_append.1 hbuilt
  obtain ⟨front, dels, hfront, hdels, rfl⟩ := buildGroup_append.1 hmain
  obtain ⟨first, ups, hfirst, hups, rfl⟩ := buildGroup_append.1 hfront
  obtain ⟨node, none₁, hnode, hnil₁, rfl⟩ := buildGroup_cons.1 hfirst
  obtain ⟨del, none₂, hdel, hnil₂, rfl⟩ := buildGroup_cons.1 hlast
  obtain rfl : none₁ = [] := (Option.some.inj hnil₁).symm
  obtain rfl : none₂ = [] := (Option.some.inj hnil₂).symm
  obtain ⟨map, -, rfl⟩ := accept_upsertNode hnode
  obtain ⟨id, hid⟩ := hof
  -- the marker has no such edge
  have hmarker : ¬ r.Touches ⟨"ResolvedCapability", plan.preview.xId⟩ := by
    rcases hid with ⟨c, source, rfl⟩ | ⟨policyId, rfl⟩
    · rintro (h | h)
      · have := congrArg NodeRef.label h
        cases c <;> simp [classEdge, EdgeRecord.source, EdgeClass.sourceLabel] at this
      · exact absurd (congrArg NodeRef.label h) (by decide : "Capability" ≠ "ResolvedCapability")
    · rintro (h | h)
      · exact absurd (congrArg NodeRef.label h) (by decide : "Capability" ≠ "ResolvedCapability")
      · exact absurd (congrArg NodeRef.label h) (by decide : "Policy" ≠ "ResolvedCapability")
  have hedges : ∀ k : EdgeKey, k.record = r → (applyAll g
      ([.upsertNode ⟨"Capability", plan.preview.xId⟩ map plan.minted.embedding] ++ ups ++ dels ++ [del])).edgesAt k =
        if r ∈ splitDeletes plan ∧ k.Standard then 0
        else if r ∈ splitUpserts plan ∧ k.Standard then settled (g.edgesAt k) else g.edgesAt k := by
    rintro k rfl
    rw [accept_deleteNode hdel, build_upserts hups, build_deletes hdels, applyAll_append, applyAll_cons, applyAll_nil,
      deleteNode_edgesAt_kept _ hmarker, applyAll_append, deletes_edgesAt, applyAll_append, upserts_edgesAt ?_,
      applyAll_cons, applyAll_nil, upsertNode_edgesAt]
    intro hmem
    obtain ⟨hsource, htarget⟩ := hends hmem
    have hnodes : ∀ m : NodeRef, m = ⟨"Capability", plan.preview.xId⟩ ∨ m ∈ g.nodes →
        m ∈ (applyOne g (.upsertNode ⟨"Capability", plan.preview.xId⟩ map plan.minted.embedding)).nodes :=
      fun m => mem_upsertNode
    exact Bool.and_eq_true_iff.2 ⟨decide_eq_true (hnodes _ (.inr hsource)), decide_eq_true (hnodes _ (.inl htarget))⟩
  constructor
  · intro hshow
    obtain ⟨k, hk, hne⟩ := shows_iff.1 hshow
    rw [hedges k hk] at hne
    split at hne
    · exact absurd rfl hne
    · rename_i hkept
      by_cases hmem : r ∈ splitUpserts plan
      · exact .inr hmem
      · rw [if_neg fun hboth => hmem hboth.1] at hne
        exact .inl ⟨shows_iff.2 ⟨k, hk, hne⟩, fun hdel => hkept ⟨hdel, hstandard k hne⟩⟩
  · rintro (⟨hshow, hkept⟩ | hmem)
    · obtain ⟨k, hk, hne⟩ := shows_iff.1 hshow
      refine shows_iff.2 ⟨k, hk, ?_⟩
      rw [hedges k hk, if_neg fun hboth => hkept hboth.1]
      split
      · exact settled_ne_zero _
      · exact hne
    · refine shows_iff.2 ⟨r.base.edgeKey, rfl, ?_⟩
      rw [hedges _ rfl, if_neg fun hboth => hdisjoint hmem hboth.1, if_pos ⟨hmem, rfl⟩]
      exact settled_ne_zero _

variable {governed : List EdgeRecord}

theorem mem_splitUpserts (h : SplitShown state plan a governed) {r : EdgeRecord} : r ∈ splitUpserts plan ↔
    ∃ c id, r = classEdge c id state.xId ∧ id ∈ (heldOf state c).heldX := by
  have hheld : ∀ c id, (id ∈ (splitEdgeSet state a.id c).moves ∨ id ∈ (splitEdgeSet state a.id c).shared) ∨
      id ∈ (splitEdgeSet state a.id c).added ↔ id ∈ (heldOf state c).heldX := by
    intro c id
    simp only [splitEdgeSet, moves, mem_sortedIds, Finset.mem_sdiff, Finset.mem_inter]
    tauto
  simp only [splitUpserts, List.mem_flatMap, List.mem_map, List.mem_append, h.sets, h.xId, hheld]
  constructor
  · rintro ⟨c, -, id, hid, rfl⟩
    exact ⟨c, id, rfl, hid⟩
  · rintro ⟨c, id, rfl, hid⟩
    exact ⟨c, mem_all c, id, hid, rfl⟩

theorem mem_splitDeletes (h : SplitShown state plan a governed) {r : EdgeRecord} : r ∈ splitDeletes plan ↔
    ∃ c id, r = classEdge c id a.id ∧ id ∈ moves state a.id c := by
  simp only [splitDeletes, List.mem_flatMap, List.mem_map, h.sets, h.aId, splitEdgeSet, mem_sortedIds]
  constructor
  · rintro ⟨c, -, id, hid, rfl⟩
    exact ⟨c, id, rfl, hid⟩
  · rintro ⟨c, id, rfl, hid⟩
    exact ⟨c, mem_all c, id, hid, rfl⟩

/-- The plan of a split, as one of a cleanup edit. -/
def splitEditPlan (plan : CapabilitySplitPlan) (createdAt : String) : EditPlan :=
  ⟨plan.before, plan.after, [⟨"Capability", plan.preview.aId⟩, ⟨"Capability", plan.preview.xId⟩],
    splitPrimitives plan createdAt⟩

/-- What a split state says of a graph: A has these edges, X has none. -/
structure Splittable (g : Graph) (state : CapabilitySplitState) (a : CapabilityNodeState) (governed : List EdgeRecord) :
    Prop where
  distinct : a.id ≠ state.xId
  current : ∀ c id, id ∈ current state c a.id ↔ Shows g (classEdge c id a.id)
  governed : ∀ policyId, governedBy a.id policyId ∈ governed ↔ Shows g (governedBy a.id policyId)
  none : ∀ r, OfCapability state.xId r → ¬ Shows g r
  held : ∀ c, ∀ id ∈ (heldOf state c).heldX, (⟨EdgeClass.sourceLabel c, id⟩ : NodeRef) ∈ g.nodes
  standard : ∀ k : EdgeKey, g.edgesAt k ≠ 0 → k.Standard

theorem splittable_matches {xId : String} (h : SplitShown state plan a governed) (hof : SplitStateOf g₀ xId state a)
    (hmatch : (splitEditPlan plan createdAt).Matches g) (hready : (CleanupEdit.capabilitySplit xId createdAt state).Ready g) :
    Splittable g state a governed := by
  have hdistinct : a.id ≠ state.xId := hof.x ▸ hof.distinct
  have hscope : ∀ (id : String) (r : EdgeRecord), id = a.id ∨ id = state.xId → OfCapability id r →
      (Shows g r ↔ r ∈ state.terminalEdges ∨ r ∈ governed) := by
    intro id r hid hr
    rw [← h.before]
    refine hmatch.edges r ⟨⟨"Capability", id⟩, ?_, edgeOf_capability.2 hr⟩
    simp only [splitEditPlan, h.aId, h.xId]
    rcases hid with rfl | rfl
    · exact List.mem_cons_self
    · exact List.mem_cons_of_mem _ List.mem_cons_self
  have hterminal : ∀ r ∈ state.terminalEdges, OfCapability a.id r := by
    intro r hr
    obtain ⟨-, c, source, rfl⟩ := (hof.edges r).1 hr
    exact .inl ⟨c, source, rfl⟩
  have hpolicy : ∀ r ∈ governed, OfCapability a.id r := fun r hr => .inr (h.of_policy hr)
  refine ⟨hdistinct, fun c id => ?_, fun policyId => ?_, fun r hr hshow => ?_, hready.1, hready.2⟩
  · have hclass : ∀ r ∈ state.terminalEdges, r.relType = c.relType → r = classEdge c r.sourceId a.id := by
      intro r hr hrel
      obtain ⟨-, d, source, rfl⟩ := (hof.edges r).1 hr
      rw [relType_injective (show d.relType = c.relType from hrel)]
      rfl
    rw [hscope a.id _ (.inl rfl) (.inl ⟨c, id, rfl⟩)]
    simp only [PolicySystem.current, List.mem_toFinset, List.mem_map, List.mem_filter, decide_eq_true_eq]
    constructor
    · rintro ⟨r, ⟨hr, hrel, -⟩, rfl⟩
      rw [← hclass r hr hrel]
      exact .inl hr
    · rintro (hr | hr)
      · exact ⟨_, ⟨hr, rfl, rfl⟩, rfl⟩
      · obtain ⟨policyId, heq⟩ := h.of_policy hr
        exact absurd (congrArg EdgeRecord.relType heq) (relType_ne_governed c)
  · rw [hscope a.id _ (.inl rfl) (.inr ⟨policyId, rfl⟩)]
    refine ⟨.inr, fun hr => hr.resolve_left fun hedge => ?_⟩
    obtain ⟨-, c, source, heq⟩ := (hof.edges _).1 hedge
    exact relType_ne_governed c (congrArg EdgeRecord.relType heq).symm
  · have hona : OfCapability a.id r := by
      rcases (hscope state.xId r (.inr rfl) hr).1 hshow with hedge | hedge
      · exact hterminal r hedge
      · exact hpolicy r hedge
    exact hdistinct (hona.eq hr)

theorem split_shows_scope (h : SplitShown state plan a governed) (hs : Splittable g state a governed)
    (hbuilt : buildGroup (splitPrimitives plan createdAt) = some ps) {r : EdgeRecord} (hof : ∃ id, OfCapability id r) :
    Shows (applyAll g ps) r ↔ (Shows g r ∧ ¬ ∃ c id, r = classEdge c id a.id ∧ id ∈ moves state a.id c) ∨
      ∃ c id, r = classEdge c id state.xId ∧ id ∈ (heldOf state c).heldX := by
  rw [split_shows hbuilt hof hs.standard ?_ ?_, mem_splitDeletes h, mem_splitUpserts h]
  · intro hmem
    obtain ⟨c, id, rfl, hid⟩ := (mem_splitUpserts h).1 hmem
    exact ⟨hs.held c id hid, by rw [h.xId]; rfl⟩
  · intro hmem hdel
    obtain ⟨c, id, rfl, -⟩ := (mem_splitUpserts h).1 hmem
    obtain ⟨d, source, heq, -⟩ := (mem_splitDeletes h).1 hdel
    exact hs.distinct (congrArg EdgeRecord.targetId heq).symm

theorem split_faithful (h : SplitShown state plan a governed) (hs : Splittable g state a governed)
    (hbuilt : buildGroup (splitPrimitives plan createdAt) = some ps) :
    (splitEditPlan plan createdAt).Faithful g (applyAll g ps) := by
  have hscope : ∀ r, (splitEditPlan plan createdAt).InScope r ↔ OfCapability a.id r ∨ OfCapability state.xId r := by
    intro r
    simp [EditPlan.InScope, splitEditPlan, edgeOf_capability, h.aId, h.xId]
  have hshows := fun r hof => @split_shows_scope g state plan a createdAt ps governed h hs hbuilt r hof
  refine ⟨fun r hr => ?_, fun n hn r hr hshow => ?_⟩
  · rw [show (splitEditPlan plan createdAt).after = plan.after from rfl, h.after]
    rcases (hscope r).1 hr with hr | hr
    · rw [hshows r ⟨_, hr⟩]
      constructor
      · rintro (⟨hshow, hkept⟩ | hx)
        · rcases hr with ⟨c, id, rfl⟩ | ⟨policyId, rfl⟩
          · exact .inl ⟨c, id, rfl, (hs.current c id).2 hshow, fun hmoved => hkept ⟨c, id, rfl, hmoved⟩⟩
          · exact .inr (.inr ((hs.governed policyId).2 hshow))
        · exact .inr (.inl hx)
      · rintro (⟨c, id, rfl, hcurrent, hkept⟩ | hx | hgoverned)
        · refine .inl ⟨(hs.current c id).1 hcurrent, ?_⟩
          rintro ⟨d, source, heq, hmoved⟩
          obtain rfl := relType_injective (congrArg EdgeRecord.relType heq)
          obtain rfl : id = source := congrArg EdgeRecord.sourceId heq
          exact hkept hmoved
        · exact .inr hx
        · obtain ⟨policyId, rfl⟩ := h.of_policy hgoverned
          refine .inl ⟨(hs.governed policyId).1 hgoverned, ?_⟩
          rintro ⟨c, id, heq, -⟩
          exact relType_ne_governed c (congrArg EdgeRecord.relType heq).symm
    · rw [hshows r ⟨_, hr⟩]
      constructor
      · rintro (⟨hshow, -⟩ | hx)
        · exact absurd hshow (hs.none r hr)
        · exact .inr (.inl hx)
      · rintro (⟨c, id, rfl, -⟩ | hx | hgoverned)
        · exact absurd (OfCapability.eq (.inl ⟨c, id, rfl⟩) hr) hs.distinct
        · exact .inr hx
        · exact absurd (OfCapability.eq (.inr (h.of_policy hgoverned)) hr) hs.distinct
  · simp only [splitEditPlan, h.aId, h.xId, List.mem_cons, List.not_mem_nil, or_false] at hn ⊢
    rcases hn with rfl | rfl
    · have hr := edgeOf_capability.1 hr
      by_cases hmoved : ∃ c id, r = classEdge c id a.id ∧ id ∈ moves state a.id c
      · -- X has the edge now
        obtain ⟨c, id, rfl, hid⟩ := hmoved
        have hheld : id ∈ (heldOf state c).heldX := (Finset.mem_inter.1 (Finset.mem_sdiff.1 hid).1).1
        have hx : OfCapability state.xId (classEdge c id state.xId) := .inl ⟨c, id, rfl⟩
        refine ⟨_, .inr rfl, classEdge c id state.xId, edgeOf_capability.2 hx,
          (hshows _ ⟨_, hx⟩).2 (.inr ⟨c, id, rfl, hheld⟩), rfl, ?_⟩
        rw [other_classEdge, other_classEdge]
      · exact ⟨_, .inl rfl, r, edgeOf_capability.2 hr, (hshows r ⟨_, hr⟩).2 (.inl ⟨hshow, hmoved⟩), rfl, rfl⟩
    · exact absurd hshow (hs.none r (edgeOf_capability.1 hr))

theorem split_partitions (h : SplitShown state plan a governed) (hs : Splittable g state a governed)
    (hbuilt : buildGroup (splitPrimitives plan createdAt) = some ps) (c : EdgeClass) :
    (plan.preview.edges c).Partitions c plan.preview.aId plan.preview.xId g (applyAll g ps) := by
  rw [h.sets, h.aId, h.xId]
  have hshows := fun id target => @split_shows_scope g state plan a createdAt ps governed h hs hbuilt
    (classEdge c id target) ⟨target, .inl ⟨c, id, rfl⟩⟩
  have honly : ∀ (p : EdgeClass → String → Prop) (id target : String),
      (∃ d source, classEdge c id target = classEdge d source target ∧ p d source) ↔ p c id := by
    intro p id target
    constructor
    · rintro ⟨d, source, heq, hp⟩
      obtain rfl := relType_injective (congrArg EdgeRecord.relType heq)
      obtain rfl : id = source := congrArg EdgeRecord.sourceId heq
      exact hp
    · exact fun hp => ⟨c, id, rfl, hp⟩
  have hother : ∀ (p : EdgeClass → String → Prop) (id x y : String), x ≠ y →
      ¬ ∃ d source, classEdge c id x = classEdge d source y ∧ p d source := by
    rintro p id x y hne ⟨d, source, heq, -⟩
    exact hne (congrArg EdgeRecord.targetId heq)
  refine ⟨?_, fun id => ?_, fun id => ?_, fun id => ?_⟩
  · simp only [splitEdgeSet, moves, List.nodup_append, sortedIds, Finset.sort_nodup, true_and, List.mem_append,
      Finset.mem_sort, Finset.mem_sdiff, Finset.mem_inter]
    refine ⟨⟨?_, ?_⟩, ?_⟩
    all_goals
      rintro x hx y hy rfl
      tauto
  · rw [← hs.current]
    simp only [splitEdgeSet, moves, mem_sortedIds, Finset.mem_sdiff, Finset.mem_inter]
    tauto
  · rw [hshows, honly (fun c id => id ∈ moves state a.id c),
      or_iff_left (hother (fun c id => id ∈ (heldOf state c).heldX) id _ _ hs.distinct), ← hs.current]
    simp only [splitEdgeSet, moves, mem_sortedIds, Finset.mem_sdiff, Finset.mem_inter]
    tauto
  · rw [hshows, honly (fun c id => id ∈ (heldOf state c).heldX), or_iff_right]
    · simp only [splitEdgeSet, moves, mem_sortedIds, Finset.mem_sdiff, Finset.mem_inter]
      tauto
    · rintro ⟨hshow, -⟩
      exact hs.none _ (.inl ⟨c, id, rfl⟩) hshow

end Split

/-! ## Every edit -/

/-- The plan of an edit, by its kind. -/
theorem capability_plan_eq {sha256 : Bytes → String} {survivorId absorbedId : String} {reviewId : Option String}
    {state : MergeState} {p : EditPlan} {g : Graph} (hof : MergeStateOf g survivorId absorbedId state)
    (h : (CleanupEdit.capabilityMerge survivorId absorbedId reviewId state).plan sha256 = some p) :
    ∃ survivor absorbed, CapabilityMergeValid state survivor absorbed ∧ survivor.id = survivorId ∧
      absorbed.id = absorbedId ∧ p = capabilityEditPlan state survivor absorbed reviewId := by
  obtain ⟨plan, hplan, rfl⟩ := Option.map_eq_some_iff.1 h
  obtain ⟨survivor, absorbed, valid, rfl⟩ := planCapabilityMerge_ok (toOption_eq_some hplan)
  obtain rfl := hof.survivor_id survivor valid.hasSurvivor
  obtain rfl := hof.absorbed_id absorbed valid.hasAbsorbed
  exact ⟨survivor, absorbed, valid, rfl, rfl, rfl⟩

theorem obligation_plan_eq {sha256 : Bytes → String} {survivorId absorbedId : String} {state : ObligationMergeState}
    {p : EditPlan} {g : Graph} (hof : ObligationStateOf g survivorId absorbedId state)
    (h : (CleanupEdit.obligationMerge survivorId absorbedId state).plan sha256 = some p) :
    ∃ survivor absorbed role, ObligationMergeValid state survivor absorbed role ∧ survivor.id = survivorId ∧
      absorbed.id = absorbedId ∧ p = obligationEditPlan state survivor absorbed role := by
  obtain ⟨plan, hplan, rfl⟩ := Option.map_eq_some_iff.1 h
  obtain ⟨survivor, absorbed, role, valid, rfl⟩ := planObligationMerge_ok (toOption_eq_some hplan)
  obtain rfl := hof.survivor_id survivor valid.hasSurvivor
  obtain rfl := hof.absorbed_id absorbed valid.hasAbsorbed
  exact ⟨survivor, absorbed, role, valid, rfl, rfl, rfl⟩

/-- **The graph that was read matches the preview.** -/
theorem matches_of_read {sha256 : Bytes → String} {edit : CleanupEdit} {g : Graph} {p : EditPlan}
    (hread : edit.ReadFrom g) (hplan : edit.plan sha256 = some p) : p.Matches g := by
  cases edit with
  | capabilityMerge survivorId absorbedId reviewId state =>
    obtain ⟨scan, hread⟩ := hread
    have hof := mergeStateOf_read hread
    obtain ⟨survivor, absorbed, valid, rfl, rfl, rfl⟩ := capability_plan_eq hof hplan
    refine ⟨fun n hn hlabel => ?_, fun r hr => ?_⟩
    · simp only [capabilityEditPlan, capabilityMergePlan, List.mem_append, List.mem_cons, List.not_mem_nil, or_false,
        List.mem_map] at hn
      rcases hn with (rfl | rfl) | ⟨q, -, rfl⟩
      · exact hof.survivor_mem survivor valid.hasSurvivor
      · exact hof.absorbed_mem absorbed valid.hasAbsorbed
      · simp [snapshotPolicy] at hlabel
    · exact ((capability_before_iff hof r).trans (and_iff_left (capability_inScope.1 hr))).symm
  | obligationMerge survivorId absorbedId state =>
    obtain ⟨scan, hread⟩ := hread
    have hof := obligationStateOf_read hread
    obtain ⟨survivor, absorbed, role, valid, rfl, rfl, rfl⟩ := obligation_plan_eq hof hplan
    obtain ⟨other, hother, hsame⟩ := valid.absorbedRole
    simp only [readObligationMergeState, Option.bind_eq_bind, Option.bind_eq_some_iff, Option.pure_def,
      Option.some.injEq] at hread
    obtain ⟨x, hx, y, hy, roles, hroles, roles', hroles', rfl⟩ := hread
    obtain rfl : x = some survivor := valid.hasSurvivor
    obtain rfl : y = some absorbed := valid.hasAbsorbed
    obtain rfl : roles = [role] := valid.survivorRole
    obtain rfl : roles' = [other] := hother
    have hbearer : ∀ id, id = survivor.id ∨ id = absorbed.id → ∀ bearerId, Shows g (hasEdge bearerId id) ↔
        bearerId = role.id := by
      rintro id (rfl | rfl) bearerId
      · rw [← readRoles_ids hroles]
        simp [eq_comm]
      · rw [← readRoles_ids hroles']
        simp [hsame, eq_comm]
    refine ⟨fun n hn _ => ?_, fun r hr => ?_⟩
    · simp only [obligationEditPlan, obligationMergePlan, List.mem_cons, List.not_mem_nil, or_false] at hn
      rcases hn with rfl | rfl
      · exact mem_of_readNode hx
      · exact mem_of_readNode hy
    · have hof' : ∃ id, (id = survivor.id ∨ id = absorbed.id) ∧ OfObligation id r := by
        rcases obligation_inScope.1 hr with h | h
        · exact ⟨_, .inl rfl, h⟩
        · exact ⟨_, .inr rfl, h⟩
      obtain ⟨id, hid, ⟨bearerId, rfl⟩ | ⟨requirementId, rfl⟩ | ⟨capabilityId, rfl⟩⟩ := hof'
      · rw [hbearer id hid, show (obligationEditPlan _ survivor absorbed role).before.edges =
          (obligationMergePlan _ survivor absorbed role).before.edges from rfl, (obligation_before_scope hid).1]
        refine (or_iff_left fun hmem => ?_).symm
        rcases ((hof.edges _).1 hmem).2 with ⟨heq, -⟩ | ⟨heq, -⟩
        · exact absurd (congrArg EdgeRecord.relType heq) (by decide : "HAS" ≠ "SATISFIED_BY")
        · exact absurd (congrArg EdgeRecord.relType heq) (by decide : "HAS" ≠ "REQUIRES")
      · rw [show (obligationEditPlan _ survivor absorbed role).before.edges =
          (obligationMergePlan _ survivor absorbed role).before.edges from rfl, (obligation_before_scope hid).2.1, hof.edges]
        exact (and_iff_left (.inl ⟨rfl, hid⟩)).symm
      · rw [show (obligationEditPlan _ survivor absorbed role).before.edges =
          (obligationMergePlan _ survivor absorbed role).before.edges from rfl, (obligation_before_scope hid).2.2, hof.edges]
        exact (and_iff_left (.inr ⟨rfl, hid⟩)).symm
  | capabilitySplit xId createdAt state =>
    obtain ⟨scan, reads, hread⟩ := hread
    obtain ⟨plan, hsplit, rfl⟩ := Option.map_eq_some_iff.1 hplan
    obtain ⟨a, governed, h⟩ := splitShown_of_ok (toOption_eq_some hsplit)
    have hof := splitStateOf_read hread h.terminal
    refine ⟨fun n hn hlabel => ?_, fun r hr => ?_⟩
    · obtain ⟨hcapability, hid⟩ := h.snapshot n hn hlabel
      rw [hcapability, hid]
      exact hof.terminal
    · rw [h.before, hof.edges, h.policy]
      have hscope : OfCapability a.id r ∨ OfCapability state.xId r := by
        simpa [EditPlan.InScope, edgeOf_capability, h.aId, h.xId] using hr
      rcases hscope with hr | hr
      · rcases hr with ⟨c, id, rfl⟩ | ⟨policyId, rfl⟩
        · refine ⟨fun hshow => .inl ⟨hshow, c, id, rfl⟩, fun hmem => ?_⟩
          rcases hmem with ⟨hshow, -⟩ | ⟨q, -, heq⟩
          · exact hshow
          · exact absurd (congrArg EdgeRecord.relType heq) (relType_ne_governed c)
        · rw [← hof.policies]
          constructor
          · rintro ⟨q, hq, rfl⟩
            exact .inr ⟨q, hq, rfl⟩
          · rintro (⟨-, c, id, heq⟩ | ⟨q, hq, heq⟩)
            · exact absurd (congrArg EdgeRecord.relType heq).symm (relType_ne_governed c)
            · exact ⟨q, hq, (congrArg EdgeRecord.targetId heq).symm⟩
      · -- X is no node yet
        rw [hof.x] at hr
        have htouch : r.Touches ⟨"Capability", xId⟩ := by
          rcases hr with ⟨c, id, rfl⟩ | ⟨policyId, rfl⟩
          · exact .inr rfl
          · exact .inl rfl
        have hnot : ¬ Shows g r := by
          intro hshow
          rcases htouch with heq | heq
          · exact hof.absent (heq ▸ hshow.ends.1)
          · exact hof.absent (heq ▸ hshow.ends.2)
        refine iff_of_false hnot ?_
        rintro (⟨hshow, -⟩ | ⟨q, -, rfl⟩)
        · exact hnot hshow
        · exact hof.distinct (OfCapability.eq (.inr ⟨q.id, rfl⟩) hr)

/-- **The preview is what happens.** A Capability merge, an Obligation merge or a split that its state plans, applied to
any graph that matches the before snapshot: the edges in scope are those of the after snapshot, no neighbour of an edited
node loses its last link, and the sets of a split partition its edges. -/
theorem preview_faithful (sha256 : Bytes → String) {edit : CleanupEdit} {g₀ g : Graph} {p : EditPlan} {ps : List Primitive}
    (hread : edit.ReadFrom g₀) (hplan : edit.plan sha256 = some p) (hmatch : p.Matches g) (hready : edit.Ready g)
    (hbuilt : buildGroup p.primitives = some ps) :
    p.Faithful g (applyAll g ps) ∧ edit.Partitioned sha256 g (applyAll g ps) := by
  cases edit with
  | capabilityMerge survivorId absorbedId reviewId state =>
    obtain ⟨scan, hread⟩ := hread
    have hof := mergeStateOf_read hread
    obtain ⟨survivor, absorbed, valid, rfl, rfl, rfl⟩ := capability_plan_eq hof hplan
    exact ⟨capability_faithful (mergeStateOf_matches hof hmatch) valid hbuilt, trivial⟩
  | obligationMerge survivorId absorbedId state =>
    obtain ⟨scan, hread⟩ := hread
    have hof := obligationStateOf_read hread
    obtain ⟨survivor, absorbed, role, valid, rfl, rfl, rfl⟩ := obligation_plan_eq hof hplan
    exact ⟨obligation_faithful (underRole_matches hof valid hmatch) hbuilt, trivial⟩
  | capabilitySplit xId createdAt state =>
    obtain ⟨scan, reads, hread⟩ := hread
    obtain ⟨plan, hsplit, rfl⟩ := Option.map_eq_some_iff.1 hplan
    obtain ⟨a, governed, h⟩ := splitShown_of_ok (toOption_eq_some hsplit)
    have hs := splittable_matches h (splitStateOf_read hread h.terminal) hmatch hready
    refine ⟨split_faithful h hs hbuilt, fun other hother => ?_⟩
    obtain rfl : plan = other := Except.ok.inj ((toOption_eq_some hsplit).symm.trans hother)
    exact split_partitions h hs hbuilt

/-- The merge of "a" into "s", on a graph where one Obligation requires "a". -/
theorem preview_faithful_requires :
    ∃ (p : EditPlan) (ps : List Primitive),
      (CleanupEdit.capabilityMerge "s" "a" none (requiringState "S" "o1")).plan (fun _ => "") = some p ∧
      buildGroup p.primitives = some ps ∧
      p.Faithful (requiringGraph "S" "o1") (applyAll (requiringGraph "S" "o1") ps) ∧
      p.before.edges = [classEdge .requires "o1" "a"] := by
  obtain ⟨ps, hps⟩ := build_requiringState "S" (.inl rfl)
  have hread : (CleanupEdit.capabilityMerge "s" "a" none (requiringState "S" "o1")).ReadFrom (requiringGraph "S" "o1") :=
    ⟨default, read_requiringGraph default "S" "o1" (edges_requiringGraph _ (.inl rfl))⟩
  refine ⟨_, ps, rfl, hps, ?_, rfl⟩
  exact (preview_faithful (fun _ => "") hread rfl (@matches_of_read (fun _ => "") _ _ _ hread rfl) trivial hps).1

end PolicySystem
