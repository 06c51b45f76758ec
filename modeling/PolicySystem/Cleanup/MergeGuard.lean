import PolicySystem.Cleanup.GroupBuilders

/-!
# What a merge guard pins

The guard of each merge is computed from the previewed state and evaluated on a later one, from which the group
is built.

* `described`: the group the before and after snapshots describe;
* `merge_guard_pins_iff`: where the guard holds, the group is that one and loses no edge the officer was not shown,
  if and only if the absorbed node's edges are still those of the before snapshot. The guards pin less.
-/

namespace PolicySystem

open Std (ExtTreeMap)

/-! ## The three merges as one -/

/-- How a merge reads off a list of edges the ones it moves: their type, and the other ends, in group order. -/
structure MovedClass where
  edge : String → String → EdgeRecord
  others : List EdgeRecord → String → List String

/-- One kind of merge: its reader, planner, guard and builder. -/
structure MergeTool where
  State : Type
  Expected : Type
  label : String
  marker : String
  moved : List MovedClass
  review : Option String → Option String
  read : ScanOrder → Graph → String → String → Option State
  plan : State → Option (MergePlan Expected)
  guardHolds : State → Expected → String → String → Bool
  primitives : State → String → String → Option String → List RawPrimitive

inductive MergeKind where
  | capability
  | obligation
  | role
  deriving DecidableEq

/-- The targets of the edges of a type out of a node, sorted, parallel edges counted each. -/
def repeatedTargets (edges : List EdgeRecord) (relType sourceId : String) : List String :=
  sortedList ((edges.filter fun e => e.relType = relType ∧ e.sourceId = sourceId).map EdgeRecord.targetId)

/-- The merges: a moved edge is named by its other end and the Capability, Obligation or Role it moves onto. -/
def MergeKind.tool : MergeKind → MergeTool
  | capability => {
      State := MergeState
      Expected := ExpectedCounts
      label := "Capability"
      marker := "MergedCapability"
      moved := EdgeClass.all.map fun c => ⟨classEdge c, fun edges id => incomingSources edges c.relType id⟩
      review := fun id => id
      read := readCapabilityMergeState
      plan := fun state => (planCapabilityMerge state).toOption
      guardHolds := fun state expected _ absorbedId => capabilityMergeGuardHolds state expected absorbedId
      primitives := capabilityMergePrimitives }
  | obligation => {
      State := ObligationMergeState
      Expected := ObligationExpectedCounts
      label := "Obligation"
      marker := "MergedObligation"
      moved := [⟨satisfiedByEdge, fun edges id => incomingSources edges "SATISFIED_BY" id⟩,
        ⟨fun other id => requiresEdge id other, fun edges id => outgoingTargets edges "REQUIRES" id⟩]
      review := fun _ => none
      read := readObligationMergeState
      plan := fun state => (planObligationMerge state).toOption
      guardHolds := obligationMergeGuardHolds
      primitives := fun state survivorId absorbedId _ => obligationMergePrimitives state survivorId absorbedId }
  | role => {
      State := RoleMergeState
      Expected := RoleExpectedCounts
      label := "Role"
      marker := "MergedRole"
      moved := [⟨fun other id => hasEdge id other, fun edges id => repeatedTargets edges "HAS" id⟩]
      review := fun id => id
      read := readRoleMergeState
      plan := fun state => (planRoleMerge state).toOption
      guardHolds := roleMergeGuardHolds
      primitives := roleMergePrimitives }

/-! ## What the snapshots describe -/

/-- A snapshot node as an upsert. -/
def NodeRecord.raw (n : NodeRecord) : RawPrimitive := .upsertNode n.label n.id (propertiesPy n.properties) none

/-- The nodes of the first list that are not in the second. -/
def newNodes (nodes others : List NodeRecord) : List NodeRecord :=
  nodes.filter fun n => others.all fun m => decide ((m.label, m.id) ≠ (n.label, n.id))

/-- The edges a merge moves, on the survivor. -/
def movedEdges (moved : List MovedClass) (edges : List EdgeRecord) (survivorId absorbedId : String) : List EdgeRecord :=
  moved.flatMap fun c => (c.others edges absorbedId).map (c.edge · survivorId)

/-- The governing edges a merge adds. -/
def newGoverned (before after : GraphSnapshot) : List EdgeRecord :=
  after.edges.filter fun e => e.relType = "GOVERNED_BY" ∧ e ∉ before.edges

/-- **The group two snapshots describe.** The absorbed node's edges of the before snapshot move to the survivor, the
governing edges that only the after snapshot has are added, its new nodes are written, the nodes it lacks deleted. -/
def described (tool : MergeTool) (before after : GraphSnapshot) (survivorId absorbedId : String)
    (reviewId : Option String) : List RawPrimitive :=
  (movedEdges tool.moved before.edges survivorId absorbedId ++ newGoverned before after).map upsertRecord ++
    ((newNodes after.nodes before.nodes).map NodeRecord.raw ++
      (newNodes before.nodes after.nodes).map fun n => RawPrimitive.deleteNode n.label n.id) ++
    deleteReview reviewId

/-- **The group is the previewed one.** It is what the snapshots describe, and an edge it loses is in the before
snapshot, or only touches the resolved review. -/
structure AsPreviewed (tool : MergeTool) (plan : MergePlan tool.Expected) (g : Graph) (raws : List RawPrimitive)
    (ps : List Primitive) (survivorId absorbedId : String) (reviewId : Option String) : Prop where
  group : raws = described tool plan.before plan.after survivorId absorbedId reviewId
  lost : ∀ r, Shows g r → ¬ Shows (applyAll g ps) r → r ∈ plan.before.edges ∨
    ((∃ id ∈ reviewId, r.Touches ⟨"PendingReview", id⟩) ∧ ¬ r.Touches ⟨tool.label, absorbedId⟩)

/-- **The absorbed node's edges are those of the before snapshot**, by type and endpoints. -/
def EdgesAsShown (tool : MergeTool) (plan : MergePlan tool.Expected) (g : Graph) (absorbedId : String) : Prop :=
  ∀ r : EdgeRecord, r.Touches ⟨tool.label, absorbedId⟩ → (Shows g r ↔ r ∈ plan.before.edges)

theorem upsertRecord_injective : Function.Injective upsertRecord := by
  intro a b h
  simp only [upsertRecord, EdgeRecord.raw, RawPrimitive.upsertEdge.injEq, RawEdge.mk.injEq, Prod.mk.injEq] at h
  cases a
  cases b
  simp only [EdgeRecord.mk.injEq]
  simp only at h
  exact ⟨h.1.1, h.1.2.2.1.1, h.1.2.2.1.2, h.1.2.2.2.1, h.1.2.2.2.2⟩

section Shape

variable {tool : MergeTool} {plan : MergePlan tool.Expected} {g : Graph} {raws : List RawPrimitive} {ps : List Primitive}
  {survivorId absorbedId : String} {reviewId : Option String} {es es' : List EdgeRecord}

/-- The shape both groups have leaves the edges to compare, and the absorbed node's edges to look up. -/
theorem asPreviewed_iff
    (hraws : raws = mergeShape es' tool.label tool.marker survivorId absorbedId (deleteReview reviewId))
    (hdescribed : described tool plan.before plan.after survivorId absorbedId reviewId =
      mergeShape es tool.label tool.marker survivorId absorbedId (deleteReview reviewId))
    (hbuilt : buildGroup raws = some ps) :
    AsPreviewed tool plan g raws ps survivorId absorbedId reviewId ↔
      es' = es ∧ ∀ r : EdgeRecord, r.Touches ⟨tool.label, absorbedId⟩ → Shows g r → r ∈ plan.before.edges := by
  rw [hraws] at hbuilt
  constructor
  · rintro ⟨hgroup, hlost⟩
    constructor
    · rw [hraws, hdescribed, mergeShape, mergeShape, List.append_left_inj, List.append_left_inj] at hgroup
      exact List.map_injective_iff.2 upsertRecord_injective hgroup
    · intro r htouch hr
      rcases hlost r hr ((lost_iff hbuilt hr).2 (.inl htouch)) with h | ⟨-, h⟩
      · exact h
      · exact absurd htouch h
  · rintro ⟨rfl, hshown⟩
    refine ⟨by rw [hraws, hdescribed], fun r hr hlost => ?_⟩
    by_cases htouch : r.Touches ⟨tool.label, absorbedId⟩
    · exact .inl (hshown r htouch hr)
    · rcases (lost_iff hbuilt hr).1 hlost with h | h
      · exact absurd h htouch
      · exact .inr ⟨h, htouch⟩

end Shape

/-- The nodes of the snapshots: the two ends, the marker in the absorbed node's place, and nodes of another label. -/
theorem described_nodes {label marker survivorId absorbedId : String} {ps qs : PropertyMap} {rest : List NodeRecord}
    (hne : survivorId ≠ absorbedId) (hmarker : marker ≠ label) (hrest : ∀ n ∈ rest, n.label ≠ marker ∧ n.label ≠ label) :
    (newNodes ([⟨label, survivorId, ps⟩, ⟨marker, absorbedId, mergedInto survivorId⟩] ++ rest)
        ([⟨label, survivorId, ps⟩, ⟨label, absorbedId, qs⟩] ++ rest)).map NodeRecord.raw ++
      (newNodes ([⟨label, survivorId, ps⟩, ⟨label, absorbedId, qs⟩] ++ rest)
        ([⟨label, survivorId, ps⟩, ⟨marker, absorbedId, mergedInto survivorId⟩] ++ rest)).map
          (fun n => RawPrimitive.deleteNode n.label n.id) =
      [upsertMarker marker absorbedId survivorId, .deleteNode label absorbedId] := by
  have hkept : ∀ others : List NodeRecord, rest.filter (fun n => (others ++ rest).all fun m =>
      decide ((m.label, m.id) ≠ (n.label, n.id))) = [] := by
    intro others
    refine List.filter_eq_nil_iff.2 fun n hn hall => ?_
    have := List.all_eq_true.1 hall n (List.mem_append_right _ hn)
    simp at this
  have hm : ∀ n ∈ rest, ¬ n.label = marker ∨ ¬ n.id = absorbedId := fun n hn => .inl (hrest n hn).1
  have hl : ∀ n ∈ rest, ¬ n.label = label ∨ ¬ n.id = absorbedId := fun n hn => .inl (hrest n hn).2
  have hproperties : propertiesPy (mergedInto survivorId) = [("merged_into", .str survivorId)] := rfl
  simp only [newNodes, List.filter_append, hkept, List.append_nil]
  simp [List.filter_cons, hne, hne.symm, hmarker, hmarker.symm, NodeRecord.raw, upsertMarker, if_pos hm, if_pos hl, hproperties]

/-! ## Capabilities -/

theorem mem_putPolicy {policies : List GoverningPolicy} {p q : GoverningPolicy} (h : q ∈ putPolicy policies p) :
    q = p ∨ q ∈ policies := by
  unfold putPolicy at h
  split at h
  · obtain ⟨x, hx, heq⟩ := List.mem_map.1 h
    split at heq
    · exact .inl heq.symm
    · exact .inr (heq ▸ hx)
  · rcases List.mem_append.1 h with h | h
    · exact .inr h
    · exact .inl (List.mem_singleton.1 h)

theorem foldl_putPolicy_mem {policies acc : List GoverningPolicy} {q : GoverningPolicy}
    (h : q ∈ policies.foldl putPolicy acc) : q ∈ acc ∨ q ∈ policies := by
  induction policies generalizing acc with
  | nil => exact .inl h
  | cons p policies ih =>
    rcases ih h with h | h
    · rcases mem_putPolicy h with rfl | h
      · exact .inr List.mem_cons_self
      · exact .inl h
    · exact .inr (List.mem_cons_of_mem _ h)

theorem putPolicy_ne_nil (policies : List GoverningPolicy) (p : GoverningPolicy) : putPolicy policies p ≠ [] := by
  unfold putPolicy
  split
  · rename_i h
    rintro hnil
    rw [List.map_eq_nil_iff.1 hnil] at h
    exact absurd h (by simp)
  · simp

theorem foldl_putPolicy_ne_nil {acc : List GoverningPolicy} (h : acc ≠ []) (policies : List GoverningPolicy) :
    policies.foldl putPolicy acc ≠ [] := by
  induction policies generalizing acc with
  | nil => exact h
  | cons p policies ih => exact ih (putPolicy_ne_nil acc p)

theorem distinctPolicies_mem {policies : List GoverningPolicy} {q : GoverningPolicy} (h : q ∈ distinctPolicies policies) :
    q ∈ policies := by
  rcases foldl_putPolicy_mem h with h | h
  · exact absurd h List.not_mem_nil
  · exact h

theorem distinctPolicies_eq_nil {policies : List GoverningPolicy} : distinctPolicies policies = [] ↔ policies = [] := by
  constructor
  · intro h
    cases policies with
    | nil => rfl
    | cons p policies => exact absurd h (foldl_putPolicy_ne_nil (putPolicy_ne_nil [] p) policies)
  · rintro rfl
    rfl

/-- **The guard pins the governing Policy of a side**: none before, none after; one before, the same one after. -/
theorem policy_pinned {before later : List GoverningPolicy} (hone : before.length ≤ 1)
    (h : policiesMatch (distinctPolicies later) before.length (before.head?.map GoverningPolicy.id)
      (before.head?.map GoverningPolicy.status) = true) :
    (before = [] → later = []) ∧ ∀ p, before = [p] → ∃ q ∈ later, distinctPolicies later = [q] ∧ q.id = p.id := by
  obtain ⟨hlength, hall⟩ := Bool.and_eq_true_iff.1 h
  have hlength := of_decide_eq_true hlength
  constructor
  · rintro rfl
    exact distinctPolicies_eq_nil.1 (List.length_eq_zero_iff.1 hlength)
  · rintro p rfl
    obtain ⟨q, hq⟩ := List.length_eq_one_iff.1 hlength
    refine ⟨q, distinctPolicies_mem (by rw [hq]; exact List.mem_singleton_self q), hq, ?_⟩
    rw [hq] at hall
    simp only [List.all_cons, List.all_nil, Bool.and_true, Bool.and_eq_true, decide_eq_true_eq, List.head?_cons,
      Option.map_some, Option.some.injEq] at hall
    exact hall.1

/-- The governing edges the group adds. -/
def governedUpserts (state : MergeState) (survivorId : String) : List EdgeRecord :=
  if state.survivorPolicies = [] then (distinctPolicies state.absorbedPolicies).map fun p => governedBy survivorId p.id
  else []

/-- The moved edges of the group. -/
def classUpserts (edges : List EdgeRecord) (survivorId absorbedId : String) : List EdgeRecord :=
  EdgeClass.all.flatMap fun c => (incomingSources edges c.relType absorbedId).map (classEdge c · survivorId)

theorem capabilityMergePrimitives_shape (state : MergeState) (survivorId absorbedId : String) (reviewId : Option String) :
    capabilityMergePrimitives state survivorId absorbedId reviewId =
      mergeShape (classUpserts state.edges survivorId absorbedId ++ governedUpserts state survivorId)
        "Capability" "MergedCapability" survivorId absorbedId (deleteReview reviewId) := by
  have hgoverned : (if state.survivorPolicies = [] then
      (distinctPolicies state.absorbedPolicies).map fun p => upsertRecord (governedBy survivorId p.id) else []) =
      (governedUpserts state survivorId).map upsertRecord := by
    unfold governedUpserts
    split
    · rw [List.map_map]
      rfl
    · rfl
  rw [capabilityMergePrimitives, hgoverned, mergeShape, classUpserts, List.map_append, List.map_flatMap]
  simp only [List.map_map]
  rfl

theorem mem_classUpserts {edges : List EdgeRecord} {survivorId absorbedId : String} {c : EdgeClass} {source : String} :
    classEdge c source survivorId ∈ classUpserts edges survivorId absorbedId ↔
      source ∈ incomingSources edges c.relType absorbedId := by
  simp only [classUpserts, List.mem_flatMap, List.mem_map]
  constructor
  · rintro ⟨d, -, x, hx, heq⟩
    have hrel := congrArg EdgeRecord.relType heq
    have hsource : x = source := congrArg EdgeRecord.sourceId heq
    rw [← relType_injective hrel, ← hsource]
    exact hx
  · intro h
    exact ⟨c, mem_all c, source, h, rfl⟩

theorem sourceLabel_ne_capability (c : EdgeClass) : c.sourceLabel ≠ "Capability" := by cases c <;> decide

theorem relType_ne_governed (c : EdgeClass) : c.relType ≠ "GOVERNED_BY" := by cases c <;> decide

theorem governedUpserts_relType {state : MergeState} {survivorId : String} {e : EdgeRecord}
    (h : e ∈ governedUpserts state survivorId) : e.relType = "GOVERNED_BY" := by
  unfold governedUpserts at h
  split at h
  · obtain ⟨p, -, rfl⟩ := List.mem_map.1 h
    rfl
  · exact absurd h List.not_mem_nil

section Capability

variable {state later : MergeState} {survivor absorbed : CapabilityNodeState}

theorem mem_capability_before {r : EdgeRecord} :
    r ∈ (capabilityMergePlan state survivor absorbed).before.edges ↔
      (r ∈ state.edges ∧ (r.targetId = survivor.id ∨ r.targetId = absorbed.id)) ∨
        (∃ p ∈ state.survivorPolicies, governedBy survivor.id p.id = r) ∨
          ∃ p ∈ state.absorbedPolicies, governedBy absorbed.id p.id = r := by
  simp only [capabilityMergePlan, mem_sortedEdges, List.mem_append, List.mem_filter, List.mem_map, decide_eq_true_eq]

theorem classEdge_mem_before {c : EdgeClass} {source target : String} :
    classEdge c source target ∈ (capabilityMergePlan state survivor absorbed).before.edges ↔
      classEdge c source target ∈ state.edges ∧ (target = survivor.id ∨ target = absorbed.id) := by
  rw [mem_capability_before]
  constructor
  · rintro (h | ⟨p, -, h⟩ | ⟨p, -, h⟩)
    · exact h
    · exact absurd (congrArg EdgeRecord.relType h).symm (relType_ne_governed c)
    · exact absurd (congrArg EdgeRecord.relType h).symm (relType_ne_governed c)
  · exact .inl

/-- The governing edges of the after snapshot that the before snapshot lacks are those the group built from a later
state adds, where the guard holds on it. -/
theorem newGoverned_eq (valid : CapabilityMergeValid state survivor absorbed)
    (shaped : ∀ r ∈ state.edges, ∃ c, r = classEdge c r.sourceId r.targetId)
    (hsurvivor : (state.survivorPolicies = [] → later.survivorPolicies = []) ∧ ∀ p, state.survivorPolicies = [p] →
      ∃ q ∈ later.survivorPolicies, distinctPolicies later.survivorPolicies = [q] ∧ q.id = p.id)
    (habsorbed : (state.absorbedPolicies = [] → later.absorbedPolicies = []) ∧ ∀ p, state.absorbedPolicies = [p] →
      ∃ q ∈ later.absorbedPolicies, distinctPolicies later.absorbedPolicies = [q] ∧ q.id = p.id) :
    newGoverned (capabilityMergePlan state survivor absorbed).before (capabilityMergePlan state survivor absorbed).after =
      governedUpserts later survivor.id := by
  set before := (capabilityMergePlan state survivor absorbed).before with hbefore
  -- the class edges of the after snapshot do not count
  have hperm : (newGoverned before (capabilityMergePlan state survivor absorbed).after).Perm
      (((distinctPolicies (state.survivorPolicies ++ state.absorbedPolicies)).map fun p =>
        governedBy survivor.id p.id).filter fun e => e ∉ before.edges) := by
    refine ((List.perm_insertionSort _ _).filter _).trans ?_
    rw [List.filter_append]
    have hclass : ∀ (items : EdgeClass → List String), (EdgeClass.all.flatMap fun c =>
        (items c).map fun source => classEdge c source survivor.id).filter
          (fun e => e.relType = "GOVERNED_BY" ∧ e ∉ before.edges) = [] := by
      intro items
      refine List.filter_eq_nil_iff.2 fun e he hsel => ?_
      simp only [List.mem_flatMap, List.mem_map] at he
      obtain ⟨c, -, source, -, rfl⟩ := he
      exact relType_ne_governed c (of_decide_eq_true hsel).1
    rw [hclass, List.nil_append]
    refine List.Perm.of_eq (List.filter_congr fun e he => ?_)
    obtain ⟨p, -, rfl⟩ := List.mem_map.1 he
    exact decide_eq_decide.2 (and_iff_right rfl)
  have hgoverned : ∀ id, governedBy survivor.id id ∈ before.edges ↔ ∃ p ∈ state.survivorPolicies, p.id = id := by
    intro id
    rw [hbefore, mem_capability_before]
    constructor
    · rintro (⟨h, -⟩ | ⟨p, hp, h⟩ | ⟨p, -, h⟩)
      · obtain ⟨c, hc⟩ := shaped _ h
        exact absurd (congrArg EdgeRecord.relType hc).symm (relType_ne_governed c)
      · exact ⟨p, hp, congrArg EdgeRecord.targetId h⟩
      · exact absurd (congrArg EdgeRecord.sourceId h).symm valid.distinct
    · rintro ⟨p, hp, rfl⟩
      exact .inr (.inl ⟨p, hp, rfl⟩)
  have hnone : ∀ policies : List GoverningPolicy, (∀ p ∈ policies, ∃ q ∈ state.survivorPolicies, q.id = p.id) →
      ((policies.map fun p => governedBy survivor.id p.id).filter fun e => e ∉ before.edges) = [] := by
    intro policies hmem
    refine List.filter_eq_nil_iff.2 fun e he => ?_
    obtain ⟨p, hp, rfl⟩ := List.mem_map.1 he
    simpa using (hgoverned p.id).2 (hmem p hp)
  match hs : state.survivorPolicies, ha : state.absorbedPolicies with
  | [], [] =>
    rw [hs, ha] at hperm
    rw [List.perm_nil.1 hperm, governedUpserts, hsurvivor.1 hs, habsorbed.1 ha]
    rfl
  | [], [q] =>
    -- the absorbed node's policy comes onto the survivor
    obtain ⟨q', -, hq', hid⟩ := habsorbed.2 q ha
    have hnew : governedBy survivor.id q.id ∉ before.edges := by
      intro h
      obtain ⟨p, hp, -⟩ := (hgoverned q.id).1 h
      rw [hs] at hp
      exact absurd hp List.not_mem_nil
    rw [hs, ha] at hperm
    have hone : distinctPolicies ([] ++ [q]) = [q] := rfl
    rw [hone, List.map_singleton, List.filter_singleton, decide_eq_true hnew, cond_true] at hperm
    rw [List.perm_singleton.1 hperm, governedUpserts, if_pos (hsurvivor.1 hs), hq', List.map_singleton, hid]
  | [p], [] =>
    obtain ⟨p', -, hp', -⟩ := hsurvivor.2 p hs
    have hlater : later.survivorPolicies ≠ [] := by
      intro h
      rw [h] at hp'
      cases hp'
    rw [hnone _ fun q hq => ⟨q, by simpa [ha] using distinctPolicies_mem hq, rfl⟩] at hperm
    rw [List.perm_nil.1 hperm, governedUpserts, if_neg hlater]
  | [p], [q] =>
    obtain ⟨p', -, hp', -⟩ := hsurvivor.2 p hs
    have hlater : later.survivorPolicies ≠ [] := by
      intro h
      rw [h] at hp'
      cases hp'
    have hsame : p.id = q.id := valid.samePolicy p (by simp [hs]) q (by simp [ha])
    rw [hnone _ fun r hr => ⟨p, by simp [hs], ?_⟩] at hperm
    · rw [List.perm_nil.1 hperm, governedUpserts, if_neg hlater]
    · have hr := distinctPolicies_mem hr
      rw [hs, ha] at hr
      rcases List.mem_append.1 hr with h | h
      · rw [List.mem_singleton.1 h]
      · rw [List.mem_singleton.1 h, hsame]
  | _ :: _ :: _, _ =>
    have := valid.onePolicy.1
    rw [hs] at this
    simp at this
  | _, _ :: _ :: _ =>
    have := valid.onePolicy.2
    rw [ha] at this
    simp at this

/-- A source of a class edge, in a list whose edges of the class have its shape. -/
theorem mem_incomingSources_class {edges : List EdgeRecord} {c : EdgeClass} {target source : String}
    (hshape : ∀ r ∈ edges, r.relType = c.relType → r = classEdge c r.sourceId r.targetId) :
    source ∈ incomingSources edges c.relType target ↔ classEdge c source target ∈ edges := by
  rw [mem_incomingSources]
  constructor
  · rintro ⟨r, hr, hrel, rfl, rfl⟩
    rw [← hshape r hr hrel]
    exact hr
  · intro h
    exact ⟨_, h, rfl, rfl, rfl⟩

theorem shaped_class {edges : List EdgeRecord} (shaped : ∀ r ∈ edges, ∃ c, r = classEdge c r.sourceId r.targetId)
    (c : EdgeClass) : ∀ r ∈ edges, r.relType = c.relType → r = classEdge c r.sourceId r.targetId := by
  intro r hr hrel
  obtain ⟨d, hd⟩ := shaped r hr
  have : d = c := relType_injective (by rw [← hrel, hd]; rfl)
  rw [← this]
  exact hd

theorem shaped_before (shaped : ∀ r ∈ state.edges, ∃ c, r = classEdge c r.sourceId r.targetId) (c : EdgeClass) :
    ∀ r ∈ (capabilityMergePlan state survivor absorbed).before.edges, r.relType = c.relType →
      r = classEdge c r.sourceId r.targetId := by
  intro r hr hrel
  rcases mem_capability_before.1 hr with ⟨h, -⟩ | ⟨p, -, rfl⟩ | ⟨p, -, rfl⟩
  · exact shaped_class shaped c r h hrel
  · exact absurd hrel.symm (relType_ne_governed c)
  · exact absurd hrel.symm (relType_ne_governed c)

theorem capability_described (valid : CapabilityMergeValid state survivor absorbed) {reviewId : Option String}
    {governed : List EdgeRecord}
    (h : newGoverned (capabilityMergePlan state survivor absorbed).before
      (capabilityMergePlan state survivor absorbed).after = governed) :
    described MergeKind.capability.tool (capabilityMergePlan state survivor absorbed).before
        (capabilityMergePlan state survivor absorbed).after survivor.id absorbed.id reviewId =
      mergeShape (classUpserts (capabilityMergePlan state survivor absorbed).before.edges survivor.id absorbed.id ++
        governed) "Capability" "MergedCapability" survivor.id absorbed.id (deleteReview reviewId) := by
  have hmoved : ∀ edges, movedEdges MergeKind.capability.tool.moved edges survivor.id absorbed.id =
      classUpserts edges survivor.id absorbed.id := by
    intro edges
    simp only [movedEdges, MergeKind.tool, classUpserts, List.flatMap_map]
  rw [described, h, hmoved, mergeShape]
  congr 2
  refine described_nodes valid.distinct (by decide) fun n hn => ?_
  obtain ⟨p, -, rfl⟩ := List.mem_map.1 hn
  exact ⟨(by decide : "Policy" ≠ "MergedCapability"), (by decide : "Policy" ≠ "Capability")⟩

/-- The guard of a Capability merge, taken apart. -/
theorem capability_guard {expected : ExpectedCounts} {absorbedId : String}
    (h : capabilityMergeGuardHolds later expected absorbedId = true) :
    policiesMatch (distinctPolicies later.absorbedPolicies) expected.absorbedGoverned expected.absorbedPolicyId
        expected.absorbedPolicyStatus = true ∧
      policiesMatch (distinctPolicies later.survivorPolicies) expected.survivorGoverned expected.survivorPolicyId
        expected.survivorPolicyStatus = true := by
  unfold capabilityMergeGuardHolds at h
  split at h
  · simp only [Bool.and_eq_true] at h
    exact ⟨h.1.1.2, h.1.2⟩
  · cases h

theorem capability_pins {g g' : Graph} {survivorId absorbedId : String} {reviewId : Option String}
    {plan : MergePlan ExpectedCounts} {ps : List Primitive} (hof : MergeStateOf g survivorId absorbedId state)
    (hplan : planCapabilityMerge state = .ok plan) (hlater : MergeStateOf g' survivorId absorbedId later)
    (hguard : capabilityMergeGuardHolds later plan.expected absorbedId = true)
    (hbuilt : buildGroup (capabilityMergePrimitives later survivorId absorbedId reviewId) = some ps) :
    AsPreviewed MergeKind.capability.tool plan g' (capabilityMergePrimitives later survivorId absorbedId reviewId) ps
        survivorId absorbedId reviewId ↔ EdgesAsShown MergeKind.capability.tool plan g' absorbedId := by
  obtain ⟨survivor, absorbed, valid, rfl⟩ := planCapabilityMerge_ok hplan
  obtain rfl := hof.survivor_id survivor valid.hasSurvivor
  obtain rfl := hof.absorbed_id absorbed valid.hasAbsorbed
  obtain ⟨hga, hgs⟩ := capability_guard hguard
  have habsorbed := policy_pinned valid.onePolicy.2 hga
  have hsurvivor := policy_pinned valid.onePolicy.1 hgs
  have hgoverned := newGoverned_eq valid hof.shaped hsurvivor habsorbed
  rw [asPreviewed_iff (capabilityMergePrimitives_shape later survivor.id absorbed.id reviewId)
    (capability_described valid hgoverned) hbuilt]
  set before := (capabilityMergePlan state survivor absorbed).before with hbefore
  have hnow : ∀ c source, source ∈ incomingSources later.edges c.relType absorbed.id ↔
      Shows g' (classEdge c source absorbed.id) := by
    intro c source
    rw [mem_incomingSources_class (shaped_class hlater.shaped c), hlater.edges]
    exact and_iff_left (.inr rfl)
  have hthen : ∀ c source, source ∈ incomingSources before.edges c.relType absorbed.id ↔
      classEdge c source absorbed.id ∈ before.edges := by
    intro c source
    exact mem_incomingSources_class (shaped_before hof.shaped c)
  constructor
  · rintro ⟨hedges, hshown⟩ r htouch
    refine ⟨hshown r htouch, fun hr => ?_⟩
    rcases mem_capability_before.1 hr with ⟨hstate, hends⟩ | ⟨p, hp, rfl⟩ | ⟨p, hp, rfl⟩
    · -- a class edge of the absorbed node: both groups move its source
      obtain ⟨c, hc⟩ := hof.shaped r hstate
      rw [hc] at htouch hr ⊢
      have htarget : r.targetId = absorbed.id := by
        rcases htouch with h | h
        · exact absurd (congrArg NodeRef.label h) (sourceLabel_ne_capability c)
        · exact congrArg NodeRef.id h
      rw [htarget] at hr ⊢
      refine (hnow c r.sourceId).1 ?_
      have hmem : classEdge c r.sourceId survivor.id ∈ classUpserts before.edges survivor.id absorbed.id :=
        mem_classUpserts.2 ((hthen c r.sourceId).2 hr)
      have hmem' := List.mem_append_left (governedUpserts later survivor.id) hmem
      rw [← hedges] at hmem'
      rcases List.mem_append.1 hmem' with h | h
      · exact mem_classUpserts.1 h
      · exact absurd (governedUpserts_relType h) (relType_ne_governed c)
    · -- the survivor's policy does not touch the absorbed node
      rcases htouch with h | h
      · exact absurd (congrArg NodeRef.id h) valid.distinct
      · exact absurd (congrArg NodeRef.label h) (by decide : "Policy" ≠ "Capability")
    · obtain ⟨q, hq, -, hid⟩ := habsorbed.2 p (head?_of_mem valid.onePolicy.2 hp)
      exact (hlater.absorbedPolicies p.id).1 ⟨q, hq, hid⟩
  · intro hshown
    refine ⟨?_, fun r htouch => (hshown r htouch).1⟩
    have hids : ∀ c, incomingSources later.edges (EdgeClass.relType c) absorbed.id =
        incomingSources before.edges c.relType absorbed.id := by
      intro c
      refine congrArg sortedIds (Finset.ext fun source => ?_)
      have hsame := (hnow c source).trans ((hshown _ (.inr rfl)).trans (hthen c source).symm)
      simpa only [incomingSources, mem_sortedIds] using hsame
    simp only [classUpserts, hids]

end Capability

/-! ## Obligations -/

section Obligation

variable {state later : ObligationMergeState} {survivor absorbed : ObligationNodeState} {role : RoleRef}

/-- The edges of the group. -/
def obligationUpserts (edges : List EdgeRecord) (survivorId absorbedId : String) : List EdgeRecord :=
  (incomingSources edges "SATISFIED_BY" absorbedId).map (satisfiedByEdge · survivorId) ++
    (outgoingTargets edges "REQUIRES" absorbedId).map (requiresEdge survivorId ·)

theorem obligationMergePrimitives_shape (state : ObligationMergeState) (survivorId absorbedId : String) :
    obligationMergePrimitives state survivorId absorbedId =
      mergeShape (obligationUpserts state.edges survivorId absorbedId) "Obligation" "MergedObligation" survivorId
        absorbedId [] := by
  rw [obligationMergePrimitives, mergeShape, obligationUpserts, List.append_nil, List.map_append, List.map_map,
    List.map_map]
  rfl

theorem satisfied_mem_upserts {edges : List EdgeRecord} {survivorId absorbedId id : String} :
    satisfiedByEdge id survivorId ∈ obligationUpserts edges survivorId absorbedId ↔
      id ∈ incomingSources edges "SATISFIED_BY" absorbedId := by
  simp [obligationUpserts, satisfiedByEdge, requiresEdge]

theorem requires_mem_upserts {edges : List EdgeRecord} {survivorId absorbedId id : String} :
    requiresEdge survivorId id ∈ obligationUpserts edges survivorId absorbedId ↔
      id ∈ outgoingTargets edges "REQUIRES" absorbedId := by
  simp [obligationUpserts, satisfiedByEdge, requiresEdge]

theorem mem_obligation_before {r : EdgeRecord} :
    r ∈ (obligationMergePlan state survivor absorbed role).before.edges ↔
      (r = hasEdge role.id survivor.id ∨ r = hasEdge role.id absorbed.id) ∨
        (r ∈ state.edges ∧ ((survivor.id = r.sourceId ∨ survivor.id = r.targetId) ∨
          (absorbed.id = r.sourceId ∨ absorbed.id = r.targetId))) := by
  simp only [obligationMergePlan, mem_sortedEdges, List.mem_append, List.mem_filter, List.mem_cons, List.not_mem_nil,
    or_false, decide_eq_true_eq]

theorem newGoverned_nil {before after : GraphSnapshot} (h : ∀ e ∈ after.edges, e.relType ≠ "GOVERNED_BY") :
    newGoverned before after = [] := by
  refine List.filter_eq_nil_iff.2 fun e he hsel => ?_
  exact h e he (of_decide_eq_true hsel).1

theorem obligation_described (valid : ObligationMergeValid state survivor absorbed role) :
    described MergeKind.obligation.tool (obligationMergePlan state survivor absorbed role).before
        (obligationMergePlan state survivor absorbed role).after survivor.id absorbed.id none =
      mergeShape (obligationUpserts (obligationMergePlan state survivor absorbed role).before.edges survivor.id
        absorbed.id) "Obligation" "MergedObligation" survivor.id absorbed.id (deleteReview none) := by
  have hmoved : ∀ edges, movedEdges MergeKind.obligation.tool.moved edges survivor.id absorbed.id =
      obligationUpserts edges survivor.id absorbed.id := by
    intro edges
    simp only [movedEdges, MergeKind.tool, obligationUpserts, List.flatMap_cons, List.flatMap_nil, List.append_nil]
  have hgoverned : newGoverned (obligationMergePlan state survivor absorbed role).before
      (obligationMergePlan state survivor absorbed role).after = [] := by
    refine newGoverned_nil fun e he => ?_
    simp only [obligationMergePlan, mem_sortedEdges, List.mem_append, List.mem_singleton, List.mem_map] at he
    rcases he with (rfl | ⟨id, -, rfl⟩) | ⟨id, -, rfl⟩
    · exact (by decide : "HAS" ≠ "GOVERNED_BY")
    · exact (by decide : "SATISFIED_BY" ≠ "GOVERNED_BY")
    · exact (by decide : "REQUIRES" ≠ "GOVERNED_BY")
  rw [described, hgoverned, hmoved, mergeShape, List.append_nil]
  congr 2
  exact @described_nodes _ _ _ _ _ _ [] valid.distinct (by decide) fun n hn => absurd hn List.not_mem_nil

/-- The guard of an Obligation merge: the two sides still share a Role. -/
theorem obligation_guard {expected : ObligationExpectedCounts} {survivorId absorbedId : String}
    (h : obligationMergeGuardHolds later expected survivorId absorbedId = true) : ∃ r, r ∈ later.absorbedRoles := by
  simp only [obligationMergeGuardHolds, Bool.and_eq_true] at h
  obtain ⟨r, -, hr⟩ := List.any_eq_true.1 h.1.1.2
  obtain ⟨q, hq, -⟩ := List.mem_map.1 (of_decide_eq_true hr)
  exact ⟨q, hq⟩

/-- The edges of a merge state, on the absorbed side. -/
theorem mem_incoming_satisfied {g : Graph} {survivorId absorbedId : String} (hof : ObligationStateOf g survivorId absorbedId state)
    {id : String} : id ∈ incomingSources state.edges "SATISFIED_BY" absorbedId ↔ Shows g (satisfiedByEdge id absorbedId) := by
  rw [mem_incomingSources]
  constructor
  · rintro ⟨r, hr, hrel, rfl, rfl⟩
    obtain ⟨hshow, (⟨heq, -⟩ | ⟨heq, -⟩)⟩ := (hof.edges r).1 hr
    · rw [← heq]
      exact hshow
    · rw [heq] at hrel
      exact absurd hrel (by decide : "REQUIRES" ≠ "SATISFIED_BY")
  · intro h
    exact ⟨_, (hof.edges _).2 ⟨h, .inl ⟨rfl, .inr rfl⟩⟩, rfl, rfl, rfl⟩

theorem mem_outgoing_requires {g : Graph} {survivorId absorbedId : String} (hof : ObligationStateOf g survivorId absorbedId state)
    {id : String} : id ∈ outgoingTargets state.edges "REQUIRES" absorbedId ↔ Shows g (requiresEdge absorbedId id) := by
  rw [mem_outgoingTargets]
  constructor
  · rintro ⟨r, hr, hrel, rfl, rfl⟩
    obtain ⟨hshow, (⟨heq, -⟩ | ⟨heq, -⟩)⟩ := (hof.edges r).1 hr
    · rw [heq] at hrel
      exact absurd hrel (by decide : "SATISFIED_BY" ≠ "REQUIRES")
    · rw [← heq]
      exact hshow
  · intro h
    exact ⟨_, (hof.edges _).2 ⟨h, .inr ⟨rfl, .inr rfl⟩⟩, rfl, rfl, rfl⟩

/-- The same edges, in the before snapshot. -/
theorem mem_before_satisfied {g : Graph} (hof : ObligationStateOf g survivor.id absorbed.id state) {id : String} :
    id ∈ incomingSources (obligationMergePlan state survivor absorbed role).before.edges "SATISFIED_BY" absorbed.id ↔
      satisfiedByEdge id absorbed.id ∈ (obligationMergePlan state survivor absorbed role).before.edges := by
  rw [mem_incomingSources]
  constructor
  · rintro ⟨r, hr, hrel, htarget, rfl⟩
    have heq : r = satisfiedByEdge r.sourceId absorbed.id := by
      rcases mem_obligation_before.1 hr with (rfl | rfl) | ⟨hstate, -⟩
      · exact absurd hrel (by decide : "HAS" ≠ "SATISFIED_BY")
      · exact absurd hrel (by decide : "HAS" ≠ "SATISFIED_BY")
      · rcases ((hof.edges r).1 hstate).2 with ⟨heq, -⟩ | ⟨heq, -⟩
        · rw [← htarget]
          exact heq
        · rw [heq] at hrel
          exact absurd hrel (by decide : "REQUIRES" ≠ "SATISFIED_BY")
    rw [← heq]
    exact hr
  · intro h
    exact ⟨_, h, rfl, rfl, rfl⟩

theorem mem_before_requires {g : Graph} (hof : ObligationStateOf g survivor.id absorbed.id state) {id : String} :
    id ∈ outgoingTargets (obligationMergePlan state survivor absorbed role).before.edges "REQUIRES" absorbed.id ↔
      requiresEdge absorbed.id id ∈ (obligationMergePlan state survivor absorbed role).before.edges := by
  rw [mem_outgoingTargets]
  constructor
  · rintro ⟨r, hr, hrel, hsource, rfl⟩
    have heq : r = requiresEdge absorbed.id r.targetId := by
      rcases mem_obligation_before.1 hr with (rfl | rfl) | ⟨hstate, -⟩
      · exact absurd hrel (by decide : "HAS" ≠ "REQUIRES")
      · exact absurd hrel (by decide : "HAS" ≠ "REQUIRES")
      · rcases ((hof.edges r).1 hstate).2 with ⟨heq, -⟩ | ⟨heq, -⟩
        · rw [heq] at hrel
          exact absurd hrel (by decide : "SATISFIED_BY" ≠ "REQUIRES")
        · rw [← hsource]
          exact heq
    rw [← heq]
    exact hr
  · intro h
    exact ⟨_, h, rfl, rfl, rfl⟩

theorem obligation_pins {g g' : Graph} {survivorId absorbedId : String} {plan : MergePlan ObligationExpectedCounts}
    {ps : List Primitive} (hof : ObligationStateOf g survivorId absorbedId state)
    (hplan : planObligationMerge state = .ok plan) (hlater : ObligationStateOf g' survivorId absorbedId later)
    (hguard : obligationMergeGuardHolds later plan.expected survivorId absorbedId = true)
    (hbuilt : buildGroup (obligationMergePrimitives later survivorId absorbedId) = some ps) :
    AsPreviewed MergeKind.obligation.tool plan g' (obligationMergePrimitives later survivorId absorbedId) ps
        survivorId absorbedId none ↔ EdgesAsShown MergeKind.obligation.tool plan g' absorbedId := by
  obtain ⟨survivor, absorbed, role, valid, rfl⟩ := planObligationMerge_ok hplan
  obtain rfl := hof.survivor_id survivor valid.hasSurvivor
  obtain rfl := hof.absorbed_id absorbed valid.hasAbsorbed
  obtain ⟨sharing, hsharing⟩ := obligation_guard hguard
  rw [asPreviewed_iff (obligationMergePrimitives_shape later survivor.id absorbed.id) (obligation_described valid) hbuilt]
  have hsatisfied := fun id => @mem_before_satisfied state survivor absorbed role g hof id
  have hrequires := fun id => @mem_before_requires state survivor absorbed role g hof id
  have hbefore : ∀ r, r ∈ (obligationMergePlan state survivor absorbed role).before.edges → r.Touches ⟨"Obligation", absorbed.id⟩ →
      r = hasEdge role.id absorbed.id ∨ r = satisfiedByEdge r.sourceId absorbed.id ∨ r = requiresEdge absorbed.id r.targetId := by
    intro r hr htouch
    rcases mem_obligation_before.1 hr with (rfl | rfl) | ⟨hstate, -⟩
    · rcases htouch with h | h
      · exact absurd (congrArg NodeRef.label h) (by decide : "Role" ≠ "Obligation")
      · exact absurd (congrArg NodeRef.id h) valid.distinct
    · exact .inl rfl
    · rcases ((hof.edges r).1 hstate).2 with ⟨heq, -⟩ | ⟨heq, -⟩
      · rw [heq] at htouch
        rcases htouch with h | h
        · exact absurd (congrArg NodeRef.label h) (by decide : "Requirement" ≠ "Obligation")
        · have hid : r.targetId = absorbed.id := congrArg NodeRef.id h
          exact .inr (.inl (hid ▸ heq))
      · rw [heq] at htouch
        rcases htouch with h | h
        · have hid : r.sourceId = absorbed.id := congrArg NodeRef.id h
          exact .inr (.inr (hid ▸ heq))
        · exact absurd (congrArg NodeRef.label h) (by decide : "Capability" ≠ "Obligation")
  set before := (obligationMergePlan state survivor absorbed role).before
  constructor
  · rintro ⟨hedges, hshown⟩ r htouch
    refine ⟨hshown r htouch, fun hr => ?_⟩
    rcases hbefore r hr htouch with rfl | heq | heq
    · -- some Role bears the absorbed Obligation, and the before snapshot shows it
      have hshow := (hlater.absorbedRoles sharing.id).1 ⟨sharing, hsharing, rfl⟩
      rcases hbefore _ (hshown _ (.inr rfl) hshow) (.inr rfl) with h | h | h
      · rw [← h]
        exact hshow
      · exact absurd (congrArg EdgeRecord.relType h) (by decide : "HAS" ≠ "SATISFIED_BY")
      · exact absurd (congrArg EdgeRecord.relType h) (by decide : "HAS" ≠ "REQUIRES")
    · rw [heq] at hr ⊢
      have hmem : satisfiedByEdge r.sourceId survivor.id ∈ obligationUpserts before.edges survivor.id absorbed.id :=
        satisfied_mem_upserts.2 ((hsatisfied r.sourceId).2 hr)
      rw [← hedges] at hmem
      exact (mem_incoming_satisfied hlater).1 (satisfied_mem_upserts.1 hmem)
    · rw [heq] at hr ⊢
      have hmem : requiresEdge survivor.id r.targetId ∈ obligationUpserts before.edges survivor.id absorbed.id :=
        requires_mem_upserts.2 ((hrequires r.targetId).2 hr)
      rw [← hedges] at hmem
      exact (mem_outgoing_requires hlater).1 (requires_mem_upserts.1 hmem)
  · intro hshown
    refine ⟨?_, fun r htouch => (hshown r htouch).1⟩
    have hsources : incomingSources later.edges "SATISFIED_BY" absorbed.id =
        incomingSources before.edges "SATISFIED_BY" absorbed.id := by
      refine congrArg sortedIds (Finset.ext fun id => ?_)
      have hsame := (mem_incoming_satisfied hlater).trans ((hshown _ (.inr rfl)).trans (hsatisfied id).symm)
      simpa only [incomingSources, mem_sortedIds] using hsame
    have htargets : outgoingTargets later.edges "REQUIRES" absorbed.id =
        outgoingTargets before.edges "REQUIRES" absorbed.id := by
      refine congrArg sortedIds (Finset.ext fun id => ?_)
      have hsame := (mem_outgoing_requires hlater).trans ((hshown _ (.inl rfl)).trans (hrequires id).symm)
      simpa only [outgoingTargets, mem_sortedIds] using hsame
    rw [obligationUpserts, obligationUpserts, hsources, htargets]

end Obligation

/-! ## Roles -/

section Role

variable {state later : RoleMergeState} {survivor absorbed : RoleState} {instrumentId : String}

theorem roleMergePrimitives_shape (state : RoleMergeState) (survivorId absorbedId : String) (reviewId : Option String) :
    roleMergePrimitives state survivorId absorbedId reviewId =
      mergeShape ((sortedList state.absorbedObligationIds).map (hasEdge survivorId ·)) "Role" "MergedRole" survivorId
        absorbedId (deleteReview reviewId) := by
  rw [roleMergePrimitives, mergeShape, List.map_map]
  rfl

theorem sortedList_perm {ids ids' : List String} (h : ids.Perm ids') : sortedList ids = sortedList ids' := by
  refine List.Perm.eq_of_pairwise' (List.pairwise_insertionSort _ _) (List.pairwise_insertionSort _ _) ?_
  exact (List.perm_insertionSort _ _).trans (h.trans (List.perm_insertionSort _ _).symm)

@[simp] theorem sortedList_sortedList (ids : List String) : sortedList (sortedList ids) = sortedList ids :=
  sortedList_perm (List.perm_insertionSort _ _)

theorem mem_role_before {r : EdgeRecord} :
    r ∈ (roleMergePlan state survivor absorbed instrumentId).before.edges ↔
      (r = definesEdge instrumentId survivor.id ∨ r = definesEdge instrumentId absorbed.id) ∨
        ∃ id ∈ state.absorbedObligationIds, hasEdge absorbed.id id = r := by
  simp only [roleMergePlan, mem_sortedEdges, List.mem_append, List.mem_map, List.mem_cons, List.not_mem_nil, or_false,
    mem_sortedList]

/-- The `HAS` edges of the before snapshot, in group order. -/
theorem repeatedTargets_before :
    repeatedTargets (roleMergePlan state survivor absorbed instrumentId).before.edges "HAS" absorbed.id =
      sortedList state.absorbedObligationIds := by
  have hhas : ∀ ids : List String, ((ids.map (hasEdge absorbed.id ·)).filter fun e =>
      e.relType = "HAS" ∧ e.sourceId = absorbed.id) = ids.map (hasEdge absorbed.id ·) := by
    intro ids
    refine List.filter_eq_self.2 fun e he => ?_
    obtain ⟨id, -, rfl⟩ := List.mem_map.1 he
    exact decide_eq_true ⟨rfl, rfl⟩
  have hdefines : ([definesEdge instrumentId survivor.id, definesEdge instrumentId absorbed.id].filter fun e =>
      e.relType = "HAS" ∧ e.sourceId = absorbed.id) = [] := by
    refine List.filter_eq_nil_iff.2 fun e he hsel => ?_
    have hrel : e.relType = "DEFINES" := by
      simp only [List.mem_cons, List.not_mem_nil, or_false] at he
      rcases he with rfl | rfl <;> rfl
    exact absurd (hrel.symm.trans (of_decide_eq_true hsel).1) (by decide)
  have hperm := ((List.perm_insertionSort (fun a b : EdgeRecord => a.sortKey ≤ b.sortKey)
    ([definesEdge instrumentId survivor.id, definesEdge instrumentId absorbed.id] ++
      (sortedList state.absorbedObligationIds).map (hasEdge absorbed.id ·))).filter
        fun e => e.relType = "HAS" ∧ e.sourceId = absorbed.id).map EdgeRecord.targetId
  rw [List.filter_append, hdefines, hhas, List.nil_append, List.map_map] at hperm
  have htargets : (EdgeRecord.targetId ∘ (hasEdge absorbed.id ·)) = id := rfl
  rw [htargets, List.map_id] at hperm
  exact (sortedList_perm hperm).trans (sortedList_sortedList _)

theorem role_described (hne : survivor.id ≠ absorbed.id) {reviewId : Option String} :
    described MergeKind.role.tool (roleMergePlan state survivor absorbed instrumentId).before
        (roleMergePlan state survivor absorbed instrumentId).after survivor.id absorbed.id reviewId =
      mergeShape ((sortedList state.absorbedObligationIds).map (hasEdge survivor.id ·)) "Role" "MergedRole" survivor.id
        absorbed.id (deleteReview reviewId) := by
  have hmoved : movedEdges MergeKind.role.tool.moved (roleMergePlan state survivor absorbed instrumentId).before.edges
      survivor.id absorbed.id = (sortedList state.absorbedObligationIds).map (hasEdge survivor.id ·) := by
    simp only [movedEdges, MergeKind.tool, List.flatMap_cons, List.flatMap_nil, List.append_nil, repeatedTargets_before]
  have hgoverned : newGoverned (roleMergePlan state survivor absorbed instrumentId).before
      (roleMergePlan state survivor absorbed instrumentId).after = [] := by
    refine newGoverned_nil fun e he => ?_
    simp only [roleMergePlan, mem_sortedEdges, List.mem_append, List.mem_singleton, List.mem_map] at he
    rcases he with rfl | ⟨id, -, rfl⟩
    · exact (by decide : "DEFINES" ≠ "GOVERNED_BY")
    · exact (by decide : "HAS" ≠ "GOVERNED_BY")
  rw [described, hgoverned, hmoved, mergeShape, List.append_nil]
  congr 2
  exact @described_nodes _ _ _ _ _ _ [] hne (by decide) fun n hn => absurd hn List.not_mem_nil

/-- The guard of a Role merge: the absorbed Role is defined, and bears the previewed Obligations. -/
theorem role_guard {expected : RoleExpectedCounts} {survivorId absorbedId : String}
    (h : roleMergeGuardHolds later expected survivorId absorbedId = true) :
    (∃ d, d ∈ later.absorbedDefines) ∧ later.absorbedObligationIds = expected.absorbedObligationIds := by
  simp only [roleMergeGuardHolds, Bool.and_eq_true, decide_eq_true_eq] at h
  obtain ⟨d, hd⟩ := List.length_eq_one_iff.1 h.1.1.1.1.2
  exact ⟨⟨d, by simp [hd]⟩, h.1.2⟩

theorem role_pins {g g' : Graph} {survivorId absorbedId : String} {reviewId : Option String}
    {plan : MergePlan RoleExpectedCounts} {ps : List Primitive} (hof : RoleStateOf g survivorId absorbedId state)
    (hplan : planRoleMerge state = .ok plan) (hlater : RoleStateOf g' survivorId absorbedId later)
    (hguard : roleMergeGuardHolds later plan.expected survivorId absorbedId = true)
    (hbuilt : buildGroup (roleMergePrimitives later survivorId absorbedId reviewId) = some ps) :
    AsPreviewed MergeKind.role.tool plan g' (roleMergePrimitives later survivorId absorbedId reviewId) ps
        survivorId absorbedId reviewId ↔ EdgesAsShown MergeKind.role.tool plan g' absorbedId := by
  obtain ⟨survivor, absorbed, instrumentId, valid, rfl⟩ := planRoleMerge_ok hplan
  obtain rfl := hof.survivor_id survivor valid.hasSurvivor
  obtain rfl := hof.absorbed_id absorbed valid.hasAbsorbed
  have hne : survivor.id ≠ absorbed.id := by
    rw [← hof.ids.1, ← hof.ids.2]
    exact valid.distinct
  obtain ⟨⟨d, hd⟩, hobligations⟩ := role_guard hguard
  have hlist : sortedList later.absorbedObligationIds = sortedList state.absorbedObligationIds := by
    rw [hobligations]
    exact sortedList_sortedList _
  rw [asPreviewed_iff (roleMergePrimitives_shape later survivor.id absorbed.id reviewId) (role_described hne) hbuilt,
    hlist, and_iff_right rfl]
  constructor
  · intro hshown r htouch
    refine ⟨hshown r htouch, fun hr => ?_⟩
    rcases mem_role_before.1 hr with (rfl | rfl) | ⟨id, hid, rfl⟩
    · rcases htouch with h | h
      · exact absurd (congrArg NodeRef.label h) (by decide : "RegulatoryInstrument" ≠ "Role")
      · exact absurd (congrArg NodeRef.id h) hne
    · -- some instrument defines the absorbed Role, and the before snapshot shows it
      have hshow := (hlater.absorbedDefines d.instrumentId).1 ⟨d, hd, rfl⟩
      rcases mem_role_before.1 (hshown _ (.inr rfl) hshow) with (h | h) | ⟨id, -, h⟩
      · exact absurd (congrArg EdgeRecord.targetId h).symm hne
      · rw [← h]
        exact hshow
      · exact absurd (congrArg EdgeRecord.relType h) (by decide : "HAS" ≠ "DEFINES")
    · refine (hlater.absorbedObligations id).1 ?_
      rw [hobligations]
      exact mem_sortedList.2 hid
  · intro hshown r htouch
    exact (hshown r htouch).1

end Role

/-! ## The guards -/

/-- **Where a merge guard holds, the group is the previewed one if and only if the absorbed node's edges are those
that were shown.** A Capability or an Obligation guard counts edges, a Role guard does not look at edges of other
types: neither pins them. -/
theorem merge_guard_pins_iff (kind : MergeKind) {scan scan' : ScanOrder} {g g' : Graph} {survivorId absorbedId : String}
    {reviewId : Option String} {state later : kind.tool.State} {plan : MergePlan kind.tool.Expected} {ps : List Primitive}
    (hread : kind.tool.read scan g survivorId absorbedId = some state) (hplan : kind.tool.plan state = some plan)
    (hlater : kind.tool.read scan' g' survivorId absorbedId = some later)
    (hguard : kind.tool.guardHolds later plan.expected survivorId absorbedId = true)
    (hbuilt : buildGroup (kind.tool.primitives later survivorId absorbedId reviewId) = some ps) :
    AsPreviewed kind.tool plan g' (kind.tool.primitives later survivorId absorbedId reviewId) ps survivorId absorbedId
      (kind.tool.review reviewId) ↔ EdgesAsShown kind.tool plan g' absorbedId := by
  cases kind with
  | capability =>
    exact capability_pins (mergeStateOf_read hread) (toOption_eq_some hplan) (mergeStateOf_read hlater) hguard hbuilt
  | obligation =>
    exact obligation_pins (obligationStateOf_read hread) (toOption_eq_some hplan) (obligationStateOf_read hlater) hguard
      hbuilt
  | role =>
    exact role_pins (roleStateOf_read hread) (toOption_eq_some hplan) (roleStateOf_read hlater) hguard hbuilt

/-! ## An Obligation that changed since the preview -/

/-- Two Capabilities, two Obligations, and one `REQUIRES` edge onto the Capability "a". -/
def requiringGraph (survivorName obligationId : String) : Graph :=
  (∅ : Graph).writeAll [
    .put ⟨"Capability", "s"⟩ (·.merge ((∅ : PropertyMap).insert "name" (.scalar (.str survivorName)))),
    .put ⟨"Capability", "a"⟩ (·.merge ((∅ : PropertyMap).insert "name" (.scalar (.str "A")))),
    .put ⟨"Obligation", "o1"⟩ id, .put ⟨"Obligation", "o2"⟩ id,
    .putEdge (classEdge .requires obligationId "a").base.edgeKey id]

/-- What is read of it. -/
def requiringState (survivorName obligationId : String) : MergeState :=
  ⟨some ⟨"s", survivorName, "active", ∅⟩, some ⟨"a", "A", "active", ∅⟩, [classEdge .requires obligationId "a"], [], []⟩

theorem ScanOrder.order_zero (scan : ScanOrder) : scan.order 0 = [] := by
  have h := scan.perm 0
  rwa [← Multiset.coe_nil, Multiset.coe_eq_coe, List.perm_nil] at h

theorem edgeRows_singleton {scan : ScanOrder} {g : Graph} {e : EdgeKey × PropertyMap} (h : g.edges = {e})
    (p : EdgePattern) (sel : EdgeRecord → Bool) :
    edgeRows scan g p sel = if p.Selects e.1.record ∧ sel e.1.record = true then [e.1.record] else [] := by
  rw [edgeRows, storedRows, h, Multiset.filter_singleton]
  split
  · rw [scan.order_singleton, List.map_singleton]
  · rw [Multiset.empty_eq_zero, scan.order_zero, List.map_nil]

theorem read_requiringGraph (scan : ScanOrder) (survivorName obligationId : String)
    (h : (requiringGraph survivorName obligationId).edges = {((classEdge .requires obligationId "a").base.edgeKey, ∅)}) :
    readCapabilityMergeState scan (requiringGraph survivorName obligationId) "s" "a" =
      some (requiringState survivorName obligationId) := by
  have hs : readNode (requiringGraph survivorName obligationId) "Capability" "s" (nodeState "s") =
      some (some ⟨"s", survivorName, "active", ∅⟩) := rfl
  have ha : readNode (requiringGraph survivorName obligationId) "Capability" "a" (nodeState "a") =
      some (some ⟨"a", "A", "active", ∅⟩) := rfl
  have hpolicies : ∀ id, readPolicies scan (requiringGraph survivorName obligationId) id = some [] := by
    intro id
    rw [readPolicies, edgeRows_singleton h, if_neg]
    · rfl
    · rintro ⟨⟨hrel, -⟩, -⟩
      exact absurd hrel (by decide : "REQUIRES" ≠ "GOVERNED_BY")
  have hedges : (EdgeClass.all.flatMap fun c => edgeRows scan (requiringGraph survivorName obligationId) c.pattern fun e =>
      e.targetId = "s" || e.targetId = "a") = [classEdge .requires obligationId "a"] := by
    simp only [edgeRows_singleton h]
    rfl
  rw [readCapabilityMergeState, hs, ha, hpolicies, hpolicies]
  simp only [Option.bind_eq_bind, Option.bind_some, hedges]
  rfl

/-- Its plan. -/
def requiringPlan (survivorName obligationId : String) : MergePlan ExpectedCounts :=
  capabilityMergePlan (requiringState survivorName obligationId) ⟨"s", survivorName, "active", ∅⟩ ⟨"a", "A", "active", ∅⟩

theorem incomingSources_requires (obligationId : String) (c : EdgeClass) :
    incomingSources [classEdge .requires obligationId "a"] c.relType "a" =
      if c = .requires then [obligationId] else [] := by
  cases c <;> simp [incomingSources, sortedIds, classEdge, EdgeClass.relType]

/-- The guard counts one edge, whatever Obligation it comes from. -/
theorem guard_requiringState (survivorName obligationId survivorName' obligationId' : String) :
    capabilityMergeGuardHolds (requiringState survivorName' obligationId')
      (requiringPlan survivorName obligationId).expected "a" = true := by
  have hincident : ([classEdge .requires obligationId "a"].filter fun e => e.targetId = "s" ∨ e.targetId = "a") =
      [classEdge .requires obligationId "a"] := rfl
  simp only [requiringPlan, capabilityMergePlan, expectedCounts, requiringState, hincident, incomingSources_requires]
  rfl

theorem primitives_requiringState (survivorName obligationId : String) :
    capabilityMergePrimitives (requiringState survivorName obligationId) "s" "a" none =
      [upsertRecord (classEdge .requires obligationId "s"), upsertMarker "MergedCapability" "a" "s",
        .deleteNode "Capability" "a"] := by
  simp only [capabilityMergePrimitives, requiringState, incomingSources_requires]
  rfl

theorem edges_requiringGraph (survivorName : String) {obligationId : String} (h : obligationId = "o1" ∨ obligationId = "o2") :
    (requiringGraph survivorName obligationId).edges =
      {((classEdge .requires obligationId "a").base.edgeKey, (∅ : PropertyMap))} := by
  rcases h with rfl | rfl <;> rfl

theorem build_requiringState (survivorName : String) {obligationId : String} (h : obligationId = "o1" ∨ obligationId = "o2") :
    ∃ ps, buildGroup (capabilityMergePrimitives (requiringState survivorName obligationId) "s" "a" none) = some ps := by
  rw [primitives_requiringState]
  apply Option.isSome_iff_exists.1
  rcases h with rfl | rfl <;> decide +kernel

/-- The edge of the later graph is the one that was shown, if it is the same Obligation's. -/
theorem requiringGraph_shows {survivorName obligationId : String} (h : obligationId = "o1" ∨ obligationId = "o2")
    (r : EdgeRecord) : Shows (requiringGraph survivorName obligationId) r ↔ r = classEdge .requires obligationId "a" := by
  simp only [Shows, edges_requiringGraph survivorName h, Multiset.mem_singleton, exists_eq_left,
    EdgeRecord.base_record]
  exact eq_comm

theorem requiringPlan_before (survivorName obligationId : String) :
    (requiringPlan survivorName obligationId).before.edges = [classEdge .requires obligationId "a"] := rfl

/-- The survivor was renamed since the preview. -/
theorem merge_guard_pins_iff_renamed :
    ∃ ps, buildGroup (capabilityMergePrimitives (requiringState "T" "o1") "s" "a" none) = some ps ∧
      (AsPreviewed MergeKind.capability.tool (requiringPlan "S" "o1") (requiringGraph "T" "o1")
          (capabilityMergePrimitives (requiringState "T" "o1") "s" "a" none) ps "s" "a" none ↔
        EdgesAsShown MergeKind.capability.tool (requiringPlan "S" "o1") (requiringGraph "T" "o1") "a") ∧
      EdgesAsShown MergeKind.capability.tool (requiringPlan "S" "o1") (requiringGraph "T" "o1") "a" := by
  obtain ⟨ps, hps⟩ := build_requiringState "T" (.inl rfl)
  refine ⟨ps, hps, ?_, ?_⟩
  · exact @merge_guard_pins_iff .capability default default (requiringGraph "S" "o1") (requiringGraph "T" "o1") "s" "a"
      none (requiringState "S" "o1") (requiringState "T" "o1") (requiringPlan "S" "o1") ps
      (read_requiringGraph _ _ _ (edges_requiringGraph _ (.inl rfl))) rfl
      (read_requiringGraph _ _ _ (edges_requiringGraph _ (.inl rfl))) (guard_requiringState _ _ _ _) hps
  · intro r _
    rw [requiringGraph_shows (.inl rfl), requiringPlan_before, List.mem_singleton]

/-- **One edge away, one edge new**: the Obligation "o1" no longer requires the absorbed Capability, "o2" does. The
guard holds, and the group moves the edge nobody was shown. -/
theorem merge_guard_counts :
    ¬ ∀ (kind : MergeKind) (scan scan' : ScanOrder) (g g' : Graph) (survivorId absorbedId : String)
        (reviewId : Option String) (state later : kind.tool.State) (plan : MergePlan kind.tool.Expected)
        (ps : List Primitive), kind.tool.read scan g survivorId absorbedId = some state → kind.tool.plan state = some plan →
      kind.tool.read scan' g' survivorId absorbedId = some later →
      kind.tool.guardHolds later plan.expected survivorId absorbedId = true →
      buildGroup (kind.tool.primitives later survivorId absorbedId reviewId) = some ps →
      AsPreviewed kind.tool plan g' (kind.tool.primitives later survivorId absorbedId reviewId) ps survivorId absorbedId
        (kind.tool.review reviewId) := by
  intro h
  obtain ⟨ps, hps⟩ := build_requiringState "S" (.inr rfl)
  have hpreview := read_requiringGraph default "S" "o1" (edges_requiringGraph _ (.inl rfl))
  have hlater := read_requiringGraph default "S" "o2" (edges_requiringGraph _ (.inr rfl))
  have hguard := guard_requiringState "S" "o1" "S" "o2"
  have hpreviewed := h .capability default default (requiringGraph "S" "o1") (requiringGraph "S" "o2") "s" "a" none
    (requiringState "S" "o1") (requiringState "S" "o2") (requiringPlan "S" "o1") ps hpreview rfl hlater hguard hps
  have hshown := (capability_pins (mergeStateOf_read hpreview) rfl (mergeStateOf_read hlater) hguard hps).1 hpreviewed
  have hnew : classEdge .requires "o2" "a" ∈ (requiringPlan "S" "o1").before.edges :=
    (hshown _ (.inr rfl)).1 ((requiringGraph_shows (.inr rfl) _).2 rfl)
  rw [requiringPlan_before, List.mem_singleton] at hnew
  exact absurd (congrArg EdgeRecord.sourceId hnew) (by decide : "o2" ≠ "o1")

end PolicySystem
