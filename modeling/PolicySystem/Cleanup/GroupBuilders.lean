import PolicySystem.Cleanup.MergePlanner

/-!
# The merge guards and groups

The guard each merge write evaluates on a fresh read, and the group it then submits
(`graph_cleanup/group_builders.py`).
-/

namespace PolicySystem

/-- An edge to write, under the standard identity. -/
def EdgeRecord.raw (e : EdgeRecord) : RawEdge :=
  ⟨e.relType, edgeIdentity e.relType e.sourceId e.targetId, (e.sourceLabel, e.sourceId), (e.targetLabel, e.targetId)⟩

/-- `UpsertEdge` without properties. -/
def upsertRecord (e : EdgeRecord) : RawPrimitive := .upsertEdge e.raw []

/-- The `UpsertNode` of a marker. -/
def upsertMarker (label absorbedId survivorId : String) : RawPrimitive :=
  .upsertNode label absorbedId [("merged_into", .str survivorId)] none

/-- The delete of the resolved review, if any. -/
def deleteReview (reviewId : Option String) : List RawPrimitive :=
  (reviewId.map (RawPrimitive.deleteNode "PendingReview")).toList

/-! ## Capabilities -/

/-- The edges of a type into a node, parallel ones counted each. -/
def incomingCount (edges : List EdgeRecord) (relType targetId : String) : ℕ :=
  (edges.filter fun e => e.relType = relType ∧ e.targetId = targetId).length

/-- The Policies of one side are the previewed ones in the previewed status. -/
def policiesMatch (governing : List GoverningPolicy) (count : ℕ) (id status : Option String) : Bool :=
  governing.length = count && governing.all fun p => some p.id = id && some p.status = status

/-- `capability_merge_guard_holds`. -/
def capabilityMergeGuardHolds (state : MergeState) (expected : ExpectedCounts) (absorbedId : String) : Bool :=
  match state.survivor, state.absorbed with
  | some survivor, some absorbed =>
    let governingAbsorbed := distinctPolicies state.absorbedPolicies
    let governingSurvivor := distinctPolicies state.survivorPolicies
    survivor.status = "active" && absorbed.status = "active" &&
      incomingCount state.edges "REQUIRES" absorbedId = expected.requires &&
      incomingCount state.edges "COVERS" absorbedId = expected.covers &&
      incomingCount state.edges "MITIGATED_BY" absorbedId = expected.mitigated &&
      policiesMatch governingAbsorbed expected.absorbedGoverned expected.absorbedPolicyId expected.absorbedPolicyStatus &&
      policiesMatch governingSurvivor expected.survivorGoverned expected.survivorPolicyId expected.survivorPolicyStatus &&
      !(governingAbsorbed.length = 1 && governingSurvivor.length = 1 &&
        governingAbsorbed.head?.map GoverningPolicy.id ≠ governingSurvivor.head?.map GoverningPolicy.id)
  | _, _ => false

/-- The primitives `build_capability_merge_group` constructs. -/
def capabilityMergePrimitives (state : MergeState) (survivorId absorbedId : String) (reviewId : Option String) :
    List RawPrimitive :=
  (EdgeClass.all.flatMap fun c =>
    (incomingSources state.edges c.relType absorbedId).map fun source => upsertRecord (classEdge c source survivorId)) ++
  (if state.survivorPolicies = [] then
    (distinctPolicies state.absorbedPolicies).map fun p => upsertRecord (governedBy survivorId p.id)
  else []) ++
  [upsertMarker "MergedCapability" absorbedId survivorId, .deleteNode "Capability" absorbedId] ++ deleteReview reviewId

/-! ## Obligations -/

/-- `obligation_merge_guard_holds`. -/
def obligationMergeGuardHolds (state : ObligationMergeState) (expected : ObligationExpectedCounts)
    (survivorId absorbedId : String) : Bool :=
  state.survivor.isSome && state.absorbed.isSome && survivorId ≠ absorbedId &&
    (state.survivorRoles.any fun r => r.id ∈ state.absorbedRoles.map RoleRef.id) &&
    incomingCount state.edges "SATISFIED_BY" absorbedId = expected.satisfied &&
    (state.edges.filter fun e => e.relType = "REQUIRES" ∧ e.sourceId = absorbedId).length = expected.requires

/-- The primitives `build_obligation_merge_group` constructs. -/
def obligationMergePrimitives (state : ObligationMergeState) (survivorId absorbedId : String) : List RawPrimitive :=
  ((incomingSources state.edges "SATISFIED_BY" absorbedId).map fun id => upsertRecord (satisfiedByEdge id survivorId)) ++
  ((outgoingTargets state.edges "REQUIRES" absorbedId).map fun id => upsertRecord (requiresEdge survivorId id)) ++
  [upsertMarker "MergedObligation" absorbedId survivorId, .deleteNode "Obligation" absorbedId]

/-! ## Roles -/

/-- `role_merge_guard_holds`. -/
def roleMergeGuardHolds (state : RoleMergeState) (expected : RoleExpectedCounts) (survivorId absorbedId : String) : Bool :=
  state.survivor.isSome && state.absorbed.isSome && survivorId ≠ absorbedId &&
    state.survivorDefines.length = 1 && state.absorbedDefines.length = 1 &&
    ((state.survivorDefines ++ state.absorbedDefines).map RoleDefines.instrumentId).toFinset.card = 1 &&
    state.foreignBearers.isEmpty && state.absorbedObligationIds = expected.absorbedObligationIds &&
    state.survivorObligationIds = expected.survivorObligationIds

/-- The primitives `build_role_merge_group` constructs. -/
def roleMergePrimitives (state : RoleMergeState) (survivorId absorbedId : String) (reviewId : Option String) :
    List RawPrimitive :=
  ((sortedList state.absorbedObligationIds).map fun id => upsertRecord (hasEdge survivorId id)) ++
  [upsertMarker "MergedRole" absorbedId survivorId, .deleteNode "Role" absorbedId] ++ deleteReview reviewId

/-- A group's primitives are built one by one; `none` where one refuses a value. -/
def buildGroup (primitives : List RawPrimitive) : Option (List Primitive) := primitives.mapM RawPrimitive.accept

/-! ## What the built primitives are -/

@[simp] theorem buildGroup_nil : buildGroup [] = some [] := rfl

theorem buildGroup_cons {raw : RawPrimitive} {raws : List RawPrimitive} {ps : List Primitive} :
    buildGroup (raw :: raws) = some ps ↔ ∃ p rest, raw.accept = some p ∧ buildGroup raws = some rest ∧ ps = p :: rest := by
  simp only [buildGroup, List.mapM_cons, Option.bind_eq_bind, Option.bind_eq_some_iff, Option.pure_def, Option.some.injEq]
  constructor
  · rintro ⟨p, hp, rest, hrest, rfl⟩
    exact ⟨p, rest, hp, hrest, rfl⟩
  · rintro ⟨p, rest, hp, hrest, rfl⟩
    exact ⟨p, hp, rest, hrest, rfl⟩

theorem buildGroup_append {raws raws' : List RawPrimitive} {ps : List Primitive} :
    buildGroup (raws ++ raws') = some ps ↔
      ∃ ps₁ ps₂, buildGroup raws = some ps₁ ∧ buildGroup raws' = some ps₂ ∧ ps = ps₁ ++ ps₂ := by
  simp only [buildGroup, List.mapM_append, Option.bind_eq_bind, Option.bind_eq_some_iff, Option.pure_def,
    Option.some.injEq]
  constructor
  · rintro ⟨ps₁, h₁, ps₂, h₂, rfl⟩
    exact ⟨ps₁, ps₂, h₁, h₂, rfl⟩
  · rintro ⟨ps₁, ps₂, h₁, h₂, rfl⟩
    exact ⟨ps₁, h₁, ps₂, h₂, rfl⟩

theorem accept_deleteNode {label id : String} {p : Primitive} (h : RawPrimitive.accept (.deleteNode label id) = some p) :
    p = .deleteNode ⟨label, id⟩ := by
  simp only [RawPrimitive.accept, Option.bind_eq_bind, Option.bind_eq_some_iff] at h
  obtain ⟨node, hnode, heq⟩ := h
  cases heq
  rw [acceptNodeRef_eq hnode]

/-- The edge an accepted record names. -/
def EdgeRecord.base (e : EdgeRecord) : EdgeBase :=
  ⟨e.relType, edgeIdentity e.relType e.sourceId e.targetId, e.source, e.target⟩

@[simp] theorem EdgeRecord.base_record (e : EdgeRecord) : e.base.edgeKey.record = e := rfl

theorem accept_edge {e : EdgeRecord} {b : EdgeBase} (h : e.raw.accept = some b) : b = e.base := by
  simp only [RawEdge.accept, EdgeRecord.raw, Option.bind_eq_bind, Option.bind_eq_some_iff] at h
  obtain ⟨-, -, s, hs, t, ht, heq⟩ := h
  cases heq
  rw [acceptNodeRef_eq hs, acceptNodeRef_eq ht]
  rfl

theorem accept_upsertRecord {e : EdgeRecord} {p : Primitive} (h : (upsertRecord e).accept = some p) :
    p = .upsertEdge e.base ∅ := by
  simp only [upsertRecord, RawPrimitive.accept, Option.bind_eq_bind, Option.bind_eq_some_iff] at h
  obtain ⟨b, hb, map, hmap, heq⟩ := h
  cases heq
  cases hmap
  rw [accept_edge hb]
  rfl

theorem build_upserts {es : List EdgeRecord} {ps : List Primitive} (h : buildGroup (es.map upsertRecord) = some ps) :
    ps = es.map fun e => .upsertEdge e.base ∅ := by
  induction es generalizing ps with
  | nil =>
    cases h
    rfl
  | cons e es ih =>
    obtain ⟨p, rest, hp, hrest, rfl⟩ := buildGroup_cons.1 h
    rw [accept_upsertRecord hp, ih hrest, List.map_cons]

/-! ## What they do to a graph -/

open PropertyGraph GraphWrite

theorem shows_iff {g : Graph} {r : EdgeRecord} : Shows g r ↔ ∃ k : EdgeKey, k.record = r ∧ g.edgesAt k ≠ 0 := by
  constructor
  · rintro ⟨e, he, rfl⟩
    refine ⟨e.1, rfl, fun h => ?_⟩
    have hmem : e.2 ∈ g.edgesAt e.1 := mem_edgesAt.2 he
    rw [h] at hmem
    exact absurd hmem (Multiset.notMem_zero _)
  · rintro ⟨k, rfl, hk⟩
    obtain ⟨p, hp⟩ := Multiset.exists_mem_of_ne_zero hk
    exact ⟨(k, p), mem_edgesAt.1 hp, rfl⟩

/-- An upsert of an edge adds the one it names, where its endpoints exist. -/
theorem shows_upsertEdge {g : Graph} {e : EdgeBase} {properties : PropertyMap} {r : EdgeRecord} :
    Shows (applyOne g (.upsertEdge e properties)) r ↔ Shows g r ∨ (g.hasEnds e.edgeKey = true ∧ e.edgeKey.record = r) := by
  have hedges : ∀ k, (applyOne g (.upsertEdge e properties)).edgesAt k =
      if e.edgeKey = k then upsertAt (g.hasEnds k) ∅ (· ∪ properties) (g.edgesAt k) else g.edgesAt k := by
    intro k
    rw [applyOne_eq_write rfl, write_edgesAt]
    rfl
  simp only [shows_iff]
  constructor
  · rintro ⟨k, rfl, hk⟩
    rw [hedges] at hk
    split at hk
    · rename_i heq
      by_cases hold : g.edgesAt k = 0
      · rw [hold] at hk
        refine .inr ⟨?_, by rw [heq]⟩
        by_contra hends
        rw [heq, Bool.not_eq_true] at hends
        rw [hends] at hk
        simp [upsertAt] at hk
      · exact .inl ⟨k, rfl, hold⟩
    · exact .inl ⟨k, rfl, hk⟩
  · rintro (⟨k, rfl, hk⟩ | ⟨hends, rfl⟩)
    · refine ⟨k, rfl, ?_⟩
      rw [hedges]
      split
      · simpa [upsertAt, hk] using hk
      · exact hk
    · refine ⟨e.edgeKey, rfl, ?_⟩
      rw [hedges, if_pos rfl, hends]
      by_cases hold : g.edgesAt e.edgeKey = 0 <;> simp [upsertAt, hold]

theorem shows_upsertNode {g : Graph} {n : NodeRef} {properties : PropertyMap} {embedding : Option Embedding}
    {r : EdgeRecord} : Shows (applyOne g (.upsertNode n properties embedding)) r ↔ Shows g r := by
  have hedges : ∀ k, (applyOne g (.upsertNode n properties embedding)).edgesAt k = g.edgesAt k := by
    intro k
    rw [applyOne_eq_write rfl, write_edgesAt]
    rfl
  simp only [shows_iff, hedges]

/-- A delete of a node takes every edge that touches it. -/
theorem shows_deleteNode {g : Graph} {n : NodeRef} {r : EdgeRecord} :
    Shows (applyOne g (.deleteNode n)) r ↔ Shows g r ∧ ¬ r.Touches n := by
  have hedges : ∀ k : EdgeKey, (applyOne g (.deleteNode n)).edgesAt k =
      if k.source = n ∨ k.target = n then 0 else g.edgesAt k := by
    intro k
    rw [applyOne_eq_write rfl, write_edgesAt]
    rfl
  simp only [shows_iff, hedges]
  constructor
  · rintro ⟨k, rfl, hk⟩
    split at hk
    · exact absurd rfl hk
    · rename_i htouch
      exact ⟨⟨k, rfl, hk⟩, htouch⟩
  · rintro ⟨⟨k, rfl, hk⟩, htouch⟩
    have hends : ¬ (k.source = n ∨ k.target = n) := htouch
    refine ⟨k, rfl, ?_⟩
    rwa [if_neg hends]

theorem shows_upserts {g : Graph} {r : EdgeRecord} (h : Shows g r) (es : List EdgeRecord) :
    Shows (applyAll g (es.map fun e => .upsertEdge e.base ∅)) r := by
  induction es generalizing g with
  | nil => exact h
  | cons e es ih => exact ih (shows_upsertEdge.2 (.inl h))

/-- The shape every merge group has: edges onto the survivor, the marker, the delete. -/
def mergeShape (es : List EdgeRecord) (label marker survivorId absorbedId : String) (review : List RawPrimitive) :
    List RawPrimitive :=
  es.map upsertRecord ++ [upsertMarker marker absorbedId survivorId, .deleteNode label absorbedId] ++ review

theorem build_deleteReview {reviewId : Option String} {ps : List Primitive}
    (h : buildGroup (deleteReview reviewId) = some ps) :
    ps = (reviewId.map fun id => Primitive.deleteNode ⟨"PendingReview", id⟩).toList := by
  cases reviewId with
  | none => exact (Option.some.inj h).symm
  | some id =>
    obtain ⟨del, rest, hdel, hnil, rfl⟩ := buildGroup_cons.1 h
    obtain rfl : rest = [] := (Option.some.inj hnil).symm
    rw [accept_deleteNode hdel]
    rfl

/-- The primitives of a merge group. -/
theorem build_mergeShape {es : List EdgeRecord} {label marker survivorId absorbedId : String} {reviewId : Option String}
    {ps : List Primitive}
    (h : buildGroup (mergeShape es label marker survivorId absorbedId (deleteReview reviewId)) = some ps) :
    ps = es.map (fun e => .upsertEdge e.base ∅) ++
      [.upsertNode ⟨marker, absorbedId⟩ (mergedInto survivorId) none, .deleteNode ⟨label, absorbedId⟩] ++
      (reviewId.map fun id => Primitive.deleteNode ⟨"PendingReview", id⟩).toList := by
  obtain ⟨_, rev, hmain, hrev, rfl⟩ := buildGroup_append.1 h
  obtain ⟨ups, _, hups, htail, rfl⟩ := buildGroup_append.1 hmain
  obtain ⟨node, _, hnode, hlast, rfl⟩ := buildGroup_cons.1 htail
  obtain ⟨del, rest, hdel, hnil, rfl⟩ := buildGroup_cons.1 hlast
  obtain rfl : rest = [] := (Option.some.inj hnil).symm
  obtain ⟨map, hmap, rfl⟩ := accept_upsertNode hnode
  obtain ⟨-, rfl⟩ := validatePropertyMap_ok hmap
  rw [build_upserts hups, build_deleteReview hrev, accept_deleteNode hdel]
  rfl

/-- **What a merge group loses**: the edges of the absorbed node, and of the review it resolves. -/
theorem lost_iff {g : Graph} {es : List EdgeRecord} {label marker survivorId absorbedId : String}
    {reviewId : Option String} {ps : List Primitive}
    (h : buildGroup (mergeShape es label marker survivorId absorbedId (deleteReview reviewId)) = some ps) {r : EdgeRecord}
    (hr : Shows g r) :
    ¬ Shows (applyAll g ps) r ↔ r.Touches ⟨label, absorbedId⟩ ∨ ∃ id ∈ reviewId, r.Touches ⟨"PendingReview", id⟩ := by
  have hups := shows_upserts hr es
  rw [build_mergeShape h, applyAll_append, applyAll_append, applyAll_cons, applyAll_cons, applyAll_nil]
  cases reviewId with
  | none =>
    rw [Option.map_none, Option.toList_none, applyAll_nil, shows_deleteNode, shows_upsertNode, and_iff_right hups]
    simp
  | some id =>
    rw [Option.map_some, Option.toList_some, applyAll_cons, applyAll_nil, shows_deleteNode, shows_deleteNode,
      shows_upsertNode, and_iff_right hups]
    simp only [Option.mem_def, Option.some.injEq, exists_eq_left', not_and_or, not_not]

end PolicySystem
