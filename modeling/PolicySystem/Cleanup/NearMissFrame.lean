import PolicySystem.Cleanup.NearMissBatch
import PolicySystem.Cleanup.Unmerge

/-!
# What a near-miss merge reads

A merge of a pair reads the pair, its edges, and nodes no merge writes. On a graph that agrees with the previewed one
there, whatever the order of the rows, the plan, the digest, the guard and the group are the previewed ones.

* `previewMerge_framed`: the digest;
* `itemGroup_framed`: the outcome and the group.
-/

namespace PolicySystem

open PropertyGraph GraphWrite

/-! ## Rows in another order -/

theorem mapM_perm {α β : Type} {f : α → Option β} {xs ys : List α} (h : xs.Perm ys) {as : List β}
    (hx : xs.mapM f = some as) : ∃ bs, ys.mapM f = some bs ∧ as.Perm bs := by
  have hcons : ∀ {x : α} {xs : List α} {as : List β}, (x :: xs).mapM f = some as ↔
      ∃ a rest, f x = some a ∧ xs.mapM f = some rest ∧ as = a :: rest := by
    intro x xs as
    simp only [List.mapM_cons, Option.bind_eq_bind, Option.bind_eq_some_iff, Option.pure_def, Option.some.injEq]
    constructor
    · rintro ⟨a, ha, rest, hrest, rfl⟩
      exact ⟨a, rest, ha, hrest, rfl⟩
    · rintro ⟨a, rest, ha, hrest, rfl⟩
      exact ⟨a, ha, rest, hrest, rfl⟩
  induction h generalizing as with
  | nil => exact ⟨as, hx, .refl as⟩
  | cons x h ih =>
    obtain ⟨a, rest, ha, hrest, rfl⟩ := hcons.1 hx
    obtain ⟨bs, hbs, hperm⟩ := ih hrest
    exact ⟨a :: bs, hcons.2 ⟨a, bs, ha, hbs, rfl⟩, hperm.cons a⟩
  | swap x y l =>
    obtain ⟨a, tail, ha, htail, rfl⟩ := hcons.1 hx
    obtain ⟨b, rest, hb, hrest, rfl⟩ := hcons.1 htail
    exact ⟨b :: a :: rest, hcons.2 ⟨b, a :: rest, hb, hcons.2 ⟨a, rest, ha, hrest, rfl⟩, rfl⟩, .swap b a rest⟩
  | trans h₁ h₂ ih₁ ih₂ =>
    obtain ⟨bs, hbs, hperm⟩ := ih₁ hx
    obtain ⟨cs, hcs, hperm'⟩ := ih₂ hbs
    exact ⟨cs, hcs, hperm.trans hperm'⟩

theorem mapM_congr {α β : Type} {f f' : α → Option β} {xs : List α} (h : ∀ x ∈ xs, f x = f' x) :
    xs.mapM f = xs.mapM f' := by
  induction xs with
  | nil => rfl
  | cons x xs ih =>
    rw [List.mapM_cons, List.mapM_cons, h x List.mem_cons_self, ih fun y hy => h y (List.mem_cons_of_mem _ hy)]

theorem EdgeRecord.sortKey_injective {a b : EdgeRecord} (h : a.sortKey = b.sortKey) : a = b := by
  cases a
  cases b
  simp only [EdgeRecord.sortKey, List.cons.injEq, and_true] at h
  obtain ⟨rfl, rfl, rfl, rfl, rfl⟩ := h
  rfl

/-- Sorting forgets the order of the rows. -/
theorem sortedEdges_perm {xs ys : List EdgeRecord} (h : xs.Perm ys) : sortedEdges xs = sortedEdges ys := by
  have hsorted : ∀ es : List EdgeRecord, (sortedEdges es).Pairwise fun a b => a.sortKey ≤ b.sortKey := fun es =>
    @List.pairwise_insertionSort _ (fun a b : EdgeRecord => a.sortKey ≤ b.sortKey) _ ⟨fun a b => le_total _ _⟩
      ⟨fun a b c => le_trans⟩ es
  refine List.Perm.eq_of_pairwise (fun a b _ _ hab hba => EdgeRecord.sortKey_injective (le_antisymm hab hba))
    (hsorted xs) (hsorted ys) ?_
  exact (List.perm_insertionSort _ xs).trans (h.trans (List.perm_insertionSort _ ys).symm)

theorem incomingSources_perm {xs ys : List EdgeRecord} (h : xs.Perm ys) (relType targetId : String) :
    incomingSources xs relType targetId = incomingSources ys relType targetId := by
  rw [incomingSources, incomingSources, List.toFinset_eq_of_perm _ _ ((h.filter _).map _)]

theorem incomingCount_perm {xs ys : List EdgeRecord} (h : xs.Perm ys) (relType targetId : String) :
    incomingCount xs relType targetId = incomingCount ys relType targetId :=
  (h.filter _).length_eq

theorem eq_of_perm_of_length_le_one {α : Type} {xs ys : List α} (h : xs.Perm ys) (hone : xs.length ≤ 1) : ys = xs := by
  match xs, hone with
  | [], _ => exact h.symm.eq_nil
  | [x], _ => exact (List.perm_singleton.1 h.symm)

/-! ## The frame -/

/-- The nodes a merge of the item reads, and some it does not. -/
def FrameNode (item : NearMissMergeItem) (n : NodeRef) : Prop :=
  n = ⟨item.kind.label, item.survivorId⟩ ∨ n = ⟨item.kind.label, item.absorbedId⟩ ∨ n = reviewRef item.reviewId ∨
    n.label = "Policy" ∨ n.label = "Obligation"

/-- The edges it reads. The last are those of the other Roles that bear an Obligation to move. -/
def FrameEdge (g : Graph) (item : NearMissMergeItem) (r : EdgeRecord) : Prop :=
  match item.kind with
  | .capability => OfCapability item.survivorId r ∨ OfCapability item.absorbedId r
  | .role => (∃ id, r = definesEdge id item.survivorId) ∨ (∃ id, r = hasEdge item.survivorId id) ∨
      r.Touches ⟨"Role", item.absorbedId⟩ ∨ ∃ roleId id, r = hasEdge roleId id ∧ Shows g (hasEdge item.absorbedId id)

/-- **The graphs agree on what the item's merge reads.** -/
structure Framed (g g' : Graph) (item : NearMissMergeItem) : Prop where
  nodes : ∀ n, FrameNode item n → g'.nodes[n]? = g.nodes[n]?
  edges : ∀ k : EdgeKey, FrameEdge g item k.record → g'.edgesAt k = g.edgesAt k

theorem Framed.refl (g : Graph) (item : NearMissMergeItem) : Framed g g item := ⟨fun _ _ => rfl, fun _ _ => rfl⟩

theorem readNode_congr {α : Type} {g g' : Graph} {label id : String} {build : PropertyMap → Option α}
    (h : g'.nodes[(⟨label, id⟩ : NodeRef)]? = g.nodes[(⟨label, id⟩ : NodeRef)]?) :
    readNode g' label id build = readNode g label id build := by
  rw [readNode, readNode, h]

section Capability

variable {g g' : Graph} {scan scan' : ScanOrder} {survivorId absorbedId : String}

/-- The same state, its edges in another order. -/
theorem capabilityState_framed (hs : g'.nodes[(⟨"Capability", survivorId⟩ : NodeRef)]? = g.nodes[(⟨"Capability", survivorId⟩ : NodeRef)]?)
    (ha : g'.nodes[(⟨"Capability", absorbedId⟩ : NodeRef)]? = g.nodes[(⟨"Capability", absorbedId⟩ : NodeRef)]?)
    (hp : ∀ id, g'.nodes[(⟨"Policy", id⟩ : NodeRef)]? = g.nodes[(⟨"Policy", id⟩ : NodeRef)]?)
    (he : ∀ k : EdgeKey, OfCapability survivorId k.record ∨ OfCapability absorbedId k.record → g'.edgesAt k = g.edgesAt k)
    {state : MergeState} (hread : readCapabilityMergeState scan g survivorId absorbedId = some state)
    (hone : state.survivorPolicies.length ≤ 1 ∧ state.absorbedPolicies.length ≤ 1) :
    ∃ edges, readCapabilityMergeState scan' g' survivorId absorbedId = some { state with edges } ∧ state.edges.Perm edges := by
  have hpolicies : ∀ id, (∀ k : EdgeKey, OfCapability id k.record → g'.edgesAt k = g.edgesAt k) →
      ∀ policies, readPolicies scan g id = some policies → policies.length ≤ 1 → readPolicies scan' g' id = some policies := by
    intro id hedges policies hpolicies hlength
    have hrows : (edgeRows scan g governorPattern fun e => e.sourceId = id).Perm
        (edgeRows scan' g' governorPattern fun e => e.sourceId = id) := by
      refine edgeRows_perm fun k hsel hid => (hedges k ?_).symm
      have hsource : k.record.sourceId = id := of_decide_eq_true hid
      exact .inr ⟨k.record.targetId, by
        obtain ⟨htype, hlabel, htarget⟩ := hsel
        rw [← hsource]
        generalize k.record = r at *
        cases r
        cases htype
        cases hlabel
        cases htarget
        rfl⟩
    obtain ⟨others, hothers, hperm⟩ := mapM_perm hrows hpolicies
    have hsame : ∀ e : EdgeRecord, governingPolicy g' e.targetId = governingPolicy g e.targetId := fun e => by
      rw [governingPolicy, governingPolicy, hp]
    rw [readPolicies, mapM_congr fun e _ => hsame e, hothers, eq_of_perm_of_length_le_one hperm hlength]
  simp only [readCapabilityMergeState, Option.bind_eq_bind, Option.bind_eq_some_iff, Option.pure_def,
    Option.some.injEq] at hread
  obtain ⟨x, hx, y, hy, ps, hps, qs, hqs, rfl⟩ := hread
  refine ⟨EdgeClass.all.flatMap fun c => edgeRows scan' g' c.pattern fun e =>
    e.targetId = survivorId || e.targetId = absorbedId, ?_, List.Perm.flatMap_left _ fun c _ => edgeRows_perm ?_⟩
  · simp only [readCapabilityMergeState, readNode_congr hs, readNode_congr ha, hx, hy,
      hpolicies survivorId (fun k hk => he k (.inl hk)) ps hps hone.1,
      hpolicies absorbedId (fun k hk => he k (.inr hk)) qs hqs hone.2, Option.bind_eq_bind, Option.bind_some, Option.pure_def]
  · intro k hsel hends
    have hclass := pattern_selects.1 hsel
    simp only [Bool.or_eq_true, decide_eq_true_eq] at hends
    rcases hends with hend | hend <;> rw [hend] at hclass
    · exact (he k (.inl (.inl ⟨c, _, hclass⟩))).symm
    · exact (he k (.inr (.inl ⟨c, _, hclass⟩))).symm

/-- Only the edges of two such states differ, in their order: the plan, the guard and the group are one. -/
theorem planCapabilityMerge_perm {state : MergeState} {edges : List EdgeRecord} (h : state.edges.Perm edges) :
    planCapabilityMerge { state with edges } = planCapabilityMerge state := by
  have hvalid : validateCapabilityMerge { state with edges } = validateCapabilityMerge state := rfl
  have hplan : ∀ survivor absorbed, capabilityMergePlan { state with edges } survivor absorbed =
      capabilityMergePlan state survivor absorbed := by
    intro survivor absorbed
    have hincident := h.filter fun e => decide (e.targetId = survivor.id ∨ e.targetId = absorbed.id)
    have hsources : ∀ relType targetId, incomingSources (edges.filter fun e =>
        decide (e.targetId = survivor.id ∨ e.targetId = absorbed.id)) relType targetId =
        incomingSources (state.edges.filter fun e =>
          decide (e.targetId = survivor.id ∨ e.targetId = absorbed.id)) relType targetId :=
      fun relType targetId => (incomingSources_perm hincident relType targetId).symm
    simp only [capabilityMergePlan, hsources, expectedCounts, sortedEdges_perm (hincident.append_right _)]
  simp only [planCapabilityMerge, hvalid, hplan]

theorem capabilityGuard_perm {state : MergeState} {edges : List EdgeRecord} (h : state.edges.Perm edges)
    (expected : ExpectedCounts) (absorbedId : String) :
    capabilityMergeGuardHolds { state with edges } expected absorbedId =
      capabilityMergeGuardHolds state expected absorbedId := by
  simp only [capabilityMergeGuardHolds, incomingCount_perm h]

theorem capabilityPrimitives_perm {state : MergeState} {edges : List EdgeRecord} (h : state.edges.Perm edges)
    (survivorId absorbedId : String) (reviewId : Option String) :
    capabilityMergePrimitives { state with edges } survivorId absorbedId reviewId =
      capabilityMergePrimitives state survivorId absorbedId reviewId := by
  simp only [capabilityMergePrimitives, incomingSources_perm h]

end Capability

section Role

variable {g g' : Graph} {scan scan' : ScanOrder} {survivorId absorbedId : String}

theorem readDefines_framed {roleId : String}
    (he : ∀ k : EdgeKey, (∃ id, k.record = definesEdge id roleId) → g'.edgesAt k = g.edgesAt k)
    {defines : List RoleDefines} (h : readDefines scan g roleId = some defines) (hone : defines.length ≤ 1) :
    readDefines scan' g' roleId = some defines := by
  have hrows : (storedRows scan g definesPattern fun e => e.targetId = roleId).Perm
      (storedRows scan' g' definesPattern fun e => e.targetId = roleId) := by
    refine storedRows_perm fun k hsel hid => (he k ⟨k.record.sourceId, ?_⟩).symm
    have htarget : k.record.targetId = roleId := of_decide_eq_true hid
    obtain ⟨htype, hlabel, hend⟩ := hsel
    rw [← htarget]
    generalize k.record = r at *
    cases r
    cases htype
    cases hlabel
    cases hend
    rfl
  obtain ⟨others, hothers, hperm⟩ := mapM_perm hrows h
  rw [readDefines, hothers, eq_of_perm_of_length_le_one hperm hone]

theorem hasPattern_selects {r : EdgeRecord} : hasPattern.Selects r ↔ r = hasEdge r.sourceId r.targetId := by
  cases r
  simp [EdgePattern.Selects, hasPattern, hasEdge]

/-- The rows of the `HAS` edges out of a Role. -/
theorem hasRows_framed {roleId : String}
    (he : ∀ k : EdgeKey, (∃ id, k.record = hasEdge roleId id) → g'.edgesAt k = g.edgesAt k) :
    (edgeRows scan g hasPattern fun e => e.sourceId = roleId).Perm
      (edgeRows scan' g' hasPattern fun e => e.sourceId = roleId) := by
  refine edgeRows_perm fun k hsel hid => (he k ⟨k.record.targetId, ?_⟩).symm
  have hsource : k.record.sourceId = roleId := of_decide_eq_true hid
  rw [← hsource]
  exact hasPattern_selects.1 hsel

theorem obligationIds_framed {roleId : String}
    (he : ∀ k : EdgeKey, (∃ id, k.record = hasEdge roleId id) → g'.edgesAt k = g.edgesAt k) :
    sortedList (readObligationIds scan' g' roleId) = sortedList (readObligationIds scan g roleId) :=
  sortedList_perm ((hasRows_framed he).map _).symm

/-- The same state, apart from the markers: nothing an accepted merge is computed from changed. -/
theorem roleState_framed (hs : g'.nodes[(⟨"Role", survivorId⟩ : NodeRef)]? = g.nodes[(⟨"Role", survivorId⟩ : NodeRef)]?)
    (ha : g'.nodes[(⟨"Role", absorbedId⟩ : NodeRef)]? = g.nodes[(⟨"Role", absorbedId⟩ : NodeRef)]?)
    (he : ∀ k : EdgeKey, ((∃ id, k.record = definesEdge id survivorId) ∨ (∃ id, k.record = hasEdge survivorId id) ∨
      k.record.Touches ⟨"Role", absorbedId⟩ ∨
        ∃ roleId id, k.record = hasEdge roleId id ∧ Shows g (hasEdge absorbedId id)) → g'.edgesAt k = g.edgesAt k)
    {state : RoleMergeState} (hread : readRoleMergeState scan g survivorId absorbedId = some state)
    (hone : state.survivorDefines.length ≤ 1 ∧ state.absorbedDefines.length ≤ 1) (hforeign : state.foreignBearers = []) :
    ∃ markerIds, readRoleMergeState scan' g' survivorId absorbedId = some { state with markerIds } := by
  simp only [readRoleMergeState, Option.bind_eq_bind, Option.bind_eq_some_iff, Option.pure_def, Option.some.injEq] at hread
  obtain ⟨x, hx, y, hy, ps, hps, qs, hqs, rfl⟩ := hread
  have hdefines : readDefines scan' g' survivorId = some ps :=
    readDefines_framed (fun k hk => he k (.inl hk)) hps hone.1
  have htouch : ∀ r : EdgeRecord, (∃ id, r = definesEdge id absorbedId) ∨ (∃ id, r = hasEdge absorbedId id) →
      r.Touches ⟨"Role", absorbedId⟩ := by
    rintro r (⟨id, rfl⟩ | ⟨id, rfl⟩)
    · exact .inr rfl
    · exact .inl rfl
  have hdefines' : readDefines scan' g' absorbedId = some qs :=
    readDefines_framed (fun k hk => he k (.inr (.inr (.inl (htouch _ (.inl hk)))))) hqs hone.2
  have hrows : (edgeRows scan g hasPattern fun e => e.sourceId = absorbedId).Perm
      (edgeRows scan' g' hasPattern fun e => e.sourceId = absorbedId) :=
    hasRows_framed fun k hk => he k (.inr (.inr (.inl (htouch _ (.inr hk)))))
  -- an Obligation to move still has the absorbed Role alone
  have hnone : ((edgeRows scan' g' hasPattern fun e => e.sourceId = absorbedId).flatMap fun e =>
      edgeRows scan' g' hasPattern fun b => b.targetId = e.targetId && b.sourceId ≠ absorbedId) = [] := by
    refine List.flatMap_eq_nil_iff.2 fun e hmem => ?_
    have hold := hrows.symm.subset hmem
    have hempty := List.flatMap_eq_nil_iff.1 hforeign e hold
    obtain ⟨hshow, hsel, hsource⟩ := mem_edgeRows.1 hold
    have hborne : Shows g (hasEdge absorbedId e.targetId) := by
      have hform := hasPattern_selects.1 hsel
      rw [of_decide_eq_true hsource] at hform
      rwa [← hform]
    have hbearers : (edgeRows scan g hasPattern fun b => b.targetId = e.targetId && b.sourceId ≠ absorbedId).Perm
        (edgeRows scan' g' hasPattern fun b => b.targetId = e.targetId && b.sourceId ≠ absorbedId) := by
      refine edgeRows_perm fun k hsel hk => (he k (.inr (.inr (.inr ⟨k.record.sourceId, e.targetId, ?_, hborne⟩)))).symm
      have htarget : k.record.targetId = e.targetId := of_decide_eq_true (Bool.and_eq_true_iff.1 hk).1
      rw [← htarget]
      exact hasPattern_selects.1 hsel
    rw [hempty] at hbearers
    exact hbearers.symm.eq_nil
  have hdegree : (g'.edges.filter fun e => e.1.source = ⟨"Role", absorbedId⟩ ∨ e.1.target = ⟨"Role", absorbedId⟩) =
      g.edges.filter fun e => e.1.source = ⟨"Role", absorbedId⟩ ∨ e.1.target = ⟨"Role", absorbedId⟩ := by
    have hsame := @filter_edges_congr g' g
      (fun k => decide (k.source = ⟨"Role", absorbedId⟩ ∨ k.target = ⟨"Role", absorbedId⟩)) fun k hk =>
        he k (.inr (.inr (.inl (of_decide_eq_true hk))))
    simpa only [decide_eq_true_eq] using hsame
  have hkept : sortedList (readObligationIds scan' g' survivorId) = sortedList (readObligationIds scan g survivorId) :=
    obligationIds_framed fun k hk => he k (.inr (.inl hk))
  have hmoved : sortedList (readObligationIds scan' g' absorbedId) = sortedList (readObligationIds scan g absorbedId) :=
    obligationIds_framed fun k hk => he k (.inr (.inr (.inl (htouch _ (.inr hk)))))
  refine ⟨(sortedIds {survivorId, absorbedId}).filter fun id => (⟨"MergedRole", id⟩ : NodeRef) ∈ g'.nodes, ?_⟩
  simp only at hforeign
  simp only [readRoleMergeState, readNode_congr hs, readNode_congr ha, hx, hy, hdefines, hdefines', hnone, hforeign, hdegree,
    hkept, hmoved, Option.bind_eq_bind, Option.bind_some, Option.pure_def]

/-- The markers are read for the text of a refusal only. -/
theorem planRoleMerge_markers {state : RoleMergeState} {plan : MergePlan RoleExpectedCounts}
    (h : planRoleMerge state = .ok plan) (markerIds : List String) : planRoleMerge { state with markerIds } = .ok plan := by
  obtain ⟨survivor, absorbed, instrumentId, valid, -⟩ := planRoleMerge_ok h
  have hs := valid.hasSurvivor
  have ha := valid.hasAbsorbed
  cases state
  simp only at hs ha
  subst hs
  subst ha
  exact h

theorem readObligationTexts_framed (h : ∀ id, g'.nodes[(⟨"Obligation", id⟩ : NodeRef)]? = g.nodes[(⟨"Obligation", id⟩ : NodeRef)]?)
    (state : RoleMergeState) (markerIds : List String) :
    readObligationTexts g' { state with markerIds } = readObligationTexts g state := by
  have htext : ∀ id, obligationText g' id = obligationText g id := fun id => by rw [obligationText, obligationText, h]
  simp only [readObligationTexts, htext]

end Role

/-! ## One item -/

section Item

variable {sha256 : Bytes → String} {rules : TextRules} {g g' : Graph} {item : NearMissMergeItem}

/-- **A Capability item on a graph that agrees with the previewed one.** -/
theorem capability_framed (hkind : item.kind = .capability) (hframe : Framed g g' item) {scan : ScanOrder}
    {plan : MergePlan ExpectedCounts} {preview : MergePreview}
    (h : plannedCapabilityMerge sha256 scan g item.survivorId item.absorbedId = .ok (plan, preview)) :
    (∀ scan', plannedCapabilityMerge sha256 scan' g' item.survivorId item.absorbedId = .ok (plan, preview)) ∧
      ∀ scan' expected, writeCapabilityMerge scan' g' item expected = writeCapabilityMerge scan g item expected := by
  unfold plannedCapabilityMerge at h
  split at h
  · cases h
  · rename_i state hread
    split at h
    · cases h
    · rename_i plan' hplan
      cases h
      obtain ⟨survivor, absorbed, valid, -⟩ := planCapabilityMerge_ok hplan
      have hlabel : item.kind.label = "Capability" := by rw [hkind]; rfl
      have hstate := fun scan' => @capabilityState_framed g g' scan scan' item.survivorId item.absorbedId
        (hframe.nodes _ (.inl (by rw [hlabel]))) (hframe.nodes _ (.inr (.inl (by rw [hlabel]))))
        (fun id => hframe.nodes _ (.inr (.inr (.inr (.inl rfl)))))
        (fun k hk => hframe.edges k (by unfold FrameEdge; rw [hkind]; exact hk)) state hread valid.onePolicy
      constructor
      · intro scan'
        obtain ⟨edges, hread', hperm⟩ := hstate scan'
        have hack : governanceAcknowledgment { state with edges } = governanceAcknowledgment state := rfl
        simp only [plannedCapabilityMerge, hread', planCapabilityMerge_perm hperm, hplan, hack]
      · intro scan' expected
        obtain ⟨edges, hread', hperm⟩ := hstate scan'
        simp only [writeCapabilityMerge, hread', hread, capabilityGuard_perm hperm, capabilityPrimitives_perm hperm]

/-- **A Role item on a graph that agrees with the previewed one.** -/
theorem role_framed (hkind : item.kind = .role) (hframe : Framed g g' item) {scan : ScanOrder}
    {plan : MergePlan RoleExpectedCounts} {preview : MergePreview}
    (h : plannedRoleMerge sha256 rules scan g item.survivorId item.absorbedId = .ok (plan, preview)) :
    (∀ scan', plannedRoleMerge sha256 rules scan' g' item.survivorId item.absorbedId = .ok (plan, preview)) ∧
      ∀ scan' expected, writeRoleMerge scan' g' item expected = writeRoleMerge scan g item expected := by
  unfold plannedRoleMerge at h
  split at h
  · cases h
  · rename_i state hread
    split at h
    · cases h
    · rename_i texts htexts
      split at h
      · cases h
      · rename_i plan' hplan
        cases h
        obtain ⟨survivor, absorbed, instrumentId, valid, -⟩ := planRoleMerge_ok hplan
        have hlabel : item.kind.label = "Role" := by rw [hkind]; rfl
        have hone : state.survivorDefines.length ≤ 1 ∧ state.absorbedDefines.length ≤ 1 := by
          obtain ⟨d, hd, -⟩ := valid.survivorDefines
          obtain ⟨e, he, -⟩ := valid.absorbedDefines
          rw [hd, he]
          exact ⟨le_refl 1, le_refl 1⟩
        have hstate := fun scan' => @roleState_framed g g' scan scan' item.survivorId item.absorbedId
          (hframe.nodes _ (.inl (by rw [hlabel]))) (hframe.nodes _ (.inr (.inl (by rw [hlabel]))))
          (fun k hk => hframe.edges k (by unfold FrameEdge; rw [hkind]; exact hk)) state hread hone valid.noForeign
        have htexts' := readObligationTexts_framed (fun id => hframe.nodes ⟨"Obligation", id⟩ (.inr (.inr (.inr (.inr rfl))))) state
        constructor
        · intro scan'
          obtain ⟨markerIds, hread'⟩ := hstate scan'
          have hdigest : ∀ before pairs, roleStateDigest sha256 before { state with markerIds } pairs =
              roleStateDigest sha256 before state pairs := fun _ _ => rfl
          have hpairs : duplicatePairs rules { state with markerIds } texts = duplicatePairs rules state texts := rfl
          simp only [plannedRoleMerge, hread', htexts', htexts, planRoleMerge_markers hplan, hdigest, hpairs]
        · intro scan' expected
          obtain ⟨markerIds, hread'⟩ := hstate scan'
          have hguard : roleMergeGuardHolds { state with markerIds } expected item.survivorId item.absorbedId =
              roleMergeGuardHolds state expected item.survivorId item.absorbedId := rfl
          have hprimitives : roleMergePrimitives { state with markerIds } item.survivorId item.absorbedId (some item.reviewId) =
              roleMergePrimitives state item.survivorId item.absorbedId (some item.reviewId) := rfl
          simp only [writeRoleMerge, hread', hread, hguard, hprimitives]

/-- **The digest is the signed one** wherever the graphs agree on what the item reads. -/
theorem previewMerge_framed (hframe : Framed g g' item) {scan : ScanOrder} {preview : MergePreview}
    (h : previewMerge sha256 rules item.kind scan g item.survivorId item.absorbedId = .ok preview) (scan' : ScanOrder) :
    previewMerge sha256 rules item.kind scan' g' item.survivorId item.absorbedId = .ok preview := by
  cases hkind : item.kind with
  | capability =>
    rw [hkind] at h
    simp only [previewMerge] at h ⊢
    cases hplanned : plannedCapabilityMerge sha256 scan g item.survivorId item.absorbedId with
    | error e =>
      rw [hplanned] at h
      cases h
    | ok planned =>
      rw [(capability_framed hkind hframe hplanned).1 scan', ← hplanned]
      exact h
  | role =>
    rw [hkind] at h
    simp only [previewMerge] at h ⊢
    cases hplanned : plannedRoleMerge sha256 rules scan g item.survivorId item.absorbedId with
    | error e =>
      rw [hplanned] at h
      cases h
    | ok planned =>
      rw [(role_framed hkind hframe hplanned).1 scan', ← hplanned]
      exact h

theorem requireFresh_framed (hframe : Framed g g' item) (preview : MergePreview) :
    requireFresh g' item preview = requireFresh g item preview := by
  have hreview : ∀ name, nodeProperty g' (reviewRef item.reviewId) name = nodeProperty g (reviewRef item.reviewId) name :=
    fun name => by rw [nodeProperty, nodeProperty, hframe.nodes _ (.inr (.inr (.inl rfl)))]
  have hnames : reviewNamesPair g' item = reviewNamesPair g item := by simp only [reviewNamesPair, hreview]
  unfold requireFresh
  rw [hnames]

/-- **The outcome and the group are those on the previewed graph**, in whatever order the rows come. -/
theorem itemGroup_framed (hframe : Framed g g' item) {scan : ScanOrder} {preview : MergePreview}
    (h : previewMerge sha256 rules item.kind scan g item.survivorId item.absorbedId = .ok preview) (letThrough : Bool)
    (scan₁ scan₂ : ScanOrder) :
    itemGroup sha256 rules letThrough scan₁ scan₂ g' item = itemGroup sha256 rules letThrough scan scan g item := by
  unfold itemGroup
  split
  · split
    · rename_i hkind
      rw [hkind] at h
      simp only [previewMerge] at h
      cases hplanned : plannedCapabilityMerge sha256 scan g item.survivorId item.absorbedId with
      | error e =>
        rw [hplanned] at h
        cases h
      | ok planned =>
        obtain ⟨hplan, hwrite⟩ := capability_framed hkind hframe hplanned
        simp only [hplan scan₁, hwrite scan₂, requireFresh_framed hframe]
    · rename_i hkind
      rw [hkind] at h
      simp only [previewMerge] at h
      cases hplanned : plannedRoleMerge sha256 rules scan g item.survivorId item.absorbedId with
      | error e =>
        rw [hplanned] at h
        cases h
      | ok planned =>
        obtain ⟨hplan, hwrite⟩ := role_framed hkind hframe hplanned
        simp only [hplan scan₁, hwrite scan₂, requireFresh_framed hframe]
  · rfl

end Item

end PolicySystem
