import PolicySystem.Cleanup.GroupShape

/-!
# Two merges into one survivor, one taken back

Capabilities A and D are merged into S, then A is unmerged. Each write is previewed, re-read, guarded and applied.

* `CapabilityMerged`, `CapabilityUnmerged`: one such write;
* `unmerge_independent_iff`: what is left at S is what the merge of D alone leaves, exactly when A and D brought S
  nothing in common that it lacked.
-/

namespace PolicySystem

open PropertyGraph GraphWrite Std

/-! ## What one merge does -/

theorem distinctPolicies_ids {policies : List GoverningPolicy} {id : String} :
    (∃ q ∈ distinctPolicies policies, q.id = id) ↔ ∃ q ∈ policies, q.id = id := by
  have hput : ∀ (acc : List GoverningPolicy) (p : GoverningPolicy),
      ((∃ q ∈ acc, q.id = id) ∨ p.id = id) → ∃ q ∈ putPolicy acc p, q.id = id := by
    intro acc p h
    unfold putPolicy
    split
    · rename_i hin
      have hold : ∃ q ∈ acc, q.id = id := by
        rcases h with h | rfl
        · exact h
        · exact List.mem_map.1 hin
      obtain ⟨q, hq, rfl⟩ := hold
      refine ⟨_, List.mem_map.2 ⟨q, hq, rfl⟩, ?_⟩
      split
      · exact (‹q.id = p.id›).symm
      · rfl
    · rcases h with ⟨q, hq, rfl⟩ | rfl
      · exact ⟨q, List.mem_append_left _ hq, rfl⟩
      · exact ⟨p, by simp, rfl⟩
  have hfold : ∀ (policies acc : List GoverningPolicy), ((∃ q ∈ acc, q.id = id) ∨ ∃ q ∈ policies, q.id = id) →
      ∃ q ∈ policies.foldl putPolicy acc, q.id = id := by
    intro policies
    induction policies with
    | nil =>
      rintro acc (h | ⟨q, hq, -⟩)
      · exact h
      · exact absurd hq List.not_mem_nil
    | cons p policies ih =>
      rintro acc (h | ⟨q, hq, hid⟩)
      · exact ih _ (.inl (hput acc p (.inl h)))
      · rcases List.mem_cons.1 hq with rfl | hq
        · exact ih _ (.inl (hput acc q (.inr hid)))
        · exact ih _ (.inr ⟨q, hq, hid⟩)
  constructor
  · rintro ⟨q, hq, hid⟩
    exact ⟨q, distinctPolicies_mem hq, hid⟩
  · exact fun h => hfold policies [] (.inr h)

/-- **One Capability merge** on a graph: previewed, read again, guarded, built and applied. -/
def CapabilityMerged (g : Graph) (survivorId absorbedId : String) (plan : MergePlan ExpectedCounts) (g' : Graph) : Prop :=
  ∃ (scan scan' : ScanOrder) (state later : MergeState) (reviewId : Option String) (ps : List Primitive),
    readCapabilityMergeState scan g survivorId absorbedId = some state ∧ planCapabilityMerge state = .ok plan ∧
      readCapabilityMergeState scan' g survivorId absorbedId = some later ∧
      capabilityMergeGuardHolds later plan.expected absorbedId = true ∧
      buildGroup (capabilityMergePrimitives later survivorId absorbedId reviewId) = some ps ∧ g' = applyAll g ps

/-- The Capability has a governing Policy. -/
def Governed (g : Graph) (id : String) : Prop := ∃ policyId, Shows g (governedBy id policyId)

/-- The edges of the group a merge builds. -/
def mergeUpserts (state : MergeState) (survivorId absorbedId : String) : List EdgeRecord :=
  classUpserts state.edges survivorId absorbedId ++ governedUpserts state survivorId

/-- A class edge onto the Capability, or its governing edge. -/
def OfCapability (id : String) (r : EdgeRecord) : Prop :=
  (∃ c source, r = classEdge c source id) ∨ ∃ policyId, r = governedBy id policyId

/-- The merge of the absorbed Capability puts the edge on the survivor. -/
def Brings (g : Graph) (survivorId absorbedId : String) (r : EdgeRecord) : Prop :=
  (∃ c source, r = classEdge c source survivorId ∧ Shows g (classEdge c source absorbedId)) ∨
    ∃ policyId, r = governedBy survivorId policyId ∧ ¬ Governed g survivorId ∧ Shows g (governedBy absorbedId policyId)

theorem mem_mergeUpserts {g : Graph} {state : MergeState} {survivorId absorbedId : String}
    (hof : MergeStateOf g survivorId absorbedId state) {r : EdgeRecord} :
    r ∈ mergeUpserts state survivorId absorbedId ↔ Brings g survivorId absorbedId r := by
  have hmoved : ∀ c source, source ∈ incomingSources state.edges (EdgeClass.relType c) absorbedId ↔
      Shows g (classEdge c source absorbedId) := by
    intro c source
    rw [mem_incomingSources_class (shaped_class hof.shaped c), hof.edges]
    exact and_iff_left (.inr rfl)
  have hungoverned : state.survivorPolicies = [] ↔ ¬ Governed g survivorId := by
    simp only [Governed, ← hof.survivorPolicies]
    constructor
    · rintro h ⟨-, p, hp, -⟩
      rw [h] at hp
      exact absurd hp List.not_mem_nil
    · intro h
      exact List.eq_nil_iff_forall_not_mem.2 fun p hp => h ⟨p.id, p, hp, rfl⟩
  have hclass : r ∈ classUpserts state.edges survivorId absorbedId ↔
      ∃ c source, r = classEdge c source survivorId ∧ Shows g (classEdge c source absorbedId) := by
    simp only [classUpserts, List.mem_flatMap, List.mem_map, hmoved]
    constructor
    · rintro ⟨c, -, source, hshow, rfl⟩
      exact ⟨c, source, rfl, hshow⟩
    · rintro ⟨c, source, rfl, hshow⟩
      exact ⟨c, mem_all c, source, hshow, rfl⟩
  have hgoverned : r ∈ governedUpserts state survivorId ↔ ∃ policyId, r = governedBy survivorId policyId ∧
      ¬ Governed g survivorId ∧ Shows g (governedBy absorbedId policyId) := by
    have habsorbed : ∀ id, Shows g (governedBy absorbedId id) ↔ ∃ q ∈ distinctPolicies state.absorbedPolicies, q.id = id :=
      fun id => (hof.absorbedPolicies id).symm.trans distinctPolicies_ids.symm
    simp only [← hungoverned, habsorbed, governedUpserts]
    by_cases h : state.survivorPolicies = []
    · rw [if_pos h, List.mem_map]
      constructor
      · rintro ⟨p, hp, rfl⟩
        exact ⟨p.id, rfl, h, p, hp, rfl⟩
      · rintro ⟨-, rfl, -, p, hp, rfl⟩
        exact ⟨p, hp, rfl⟩
    · rw [if_neg h]
      constructor
      · intro hmem
        exact absurd hmem List.not_mem_nil
      · rintro ⟨_, _, hnil, _⟩
        exact absurd hnil h
  rw [mergeUpserts, List.mem_append, hclass, hgoverned, Brings]

theorem Brings.shape {g : Graph} {survivorId absorbedId : String} {r : EdgeRecord} (h : Brings g survivorId absorbedId r) :
    OfCapability survivorId r := by
  rcases h with ⟨c, source, rfl, -⟩ | ⟨policyId, rfl, -⟩
  · exact .inl ⟨c, source, rfl⟩
  · exact .inr ⟨policyId, rfl⟩

/-- **What a merge did.** -/
structure MergedInto (g : Graph) (survivorId absorbedId : String) (plan : MergePlan ExpectedCounts) (g' : Graph) :
    Prop where
  distinct : survivorId ≠ absorbedId
  absorbed_mem : (⟨"Capability", absorbedId⟩ : NodeRef) ∈ g.nodes
  nodes : ∀ n : NodeRef, n ≠ ⟨"Capability", absorbedId⟩ → n ≠ ⟨"MergedCapability", absorbedId⟩ →
    n.label ≠ "PendingReview" → g'.nodes[n]? = g.nodes[n]?
  gone : g'.nodes[(⟨"Capability", absorbedId⟩ : NodeRef)]? = none
  marker : g'.nodes[(⟨"MergedCapability", absorbedId⟩ : NodeRef)]? =
    some ((g.nodes[(⟨"MergedCapability", absorbedId⟩ : NodeRef)]?.getD default).upsert (mergedInto survivorId) none)
  brought : ∀ k : EdgeKey, ¬ k.record.Touches ⟨"Capability", absorbedId⟩ →
    (∀ id, ¬ k.record.Touches ⟨"PendingReview", id⟩) → Brings g survivorId absorbedId k.record → k.Standard →
    g'.edgesAt k = settled (g.edgesAt k)
  kept : ∀ k : EdgeKey, ¬ k.record.Touches ⟨"Capability", absorbedId⟩ →
    (∀ id, ¬ k.record.Touches ⟨"PendingReview", id⟩) → ¬ (Brings g survivorId absorbedId k.record ∧ k.Standard) →
    g'.edgesAt k = g.edgesAt k
  samePolicy : ∀ p q, Shows g (governedBy survivorId p) → Shows g (governedBy absorbedId q) → p = q
  onePolicy : ∀ p q, Shows g (governedBy absorbedId p) → Shows g (governedBy absorbedId q) → p = q
  before : ∀ r, r ∈ plan.before.edges ↔ Shows g r ∧ (OfCapability survivorId r ∨ OfCapability absorbedId r)

theorem capability_before_iff {g : Graph} {state : MergeState} {survivor absorbed : CapabilityNodeState}
    (hof : MergeStateOf g survivor.id absorbed.id state) (r : EdgeRecord) :
    r ∈ (capabilityMergePlan state survivor absorbed).before.edges ↔
      Shows g r ∧ (OfCapability survivor.id r ∨ OfCapability absorbed.id r) := by
  rw [mem_capability_before]
  constructor
  · rintro (⟨hr, hends⟩ | ⟨p, hp, rfl⟩ | ⟨p, hp, rfl⟩)
    · obtain ⟨c, hc⟩ := hof.shaped r hr
      rw [hc] at hr
      refine ⟨hc ▸ ((hof.edges c _ _).1 hr).1, ?_⟩
      rcases hends with h | h
      · exact .inl (.inl ⟨c, r.sourceId, h ▸ hc⟩)
      · exact .inr (.inl ⟨c, r.sourceId, h ▸ hc⟩)
    · exact ⟨(hof.survivorPolicies p.id).1 ⟨p, hp, rfl⟩, .inl (.inr ⟨p.id, rfl⟩)⟩
    · exact ⟨(hof.absorbedPolicies p.id).1 ⟨p, hp, rfl⟩, .inr (.inr ⟨p.id, rfl⟩)⟩
  · rintro ⟨hshow, (⟨c, source, rfl⟩ | ⟨policyId, rfl⟩) | (⟨c, source, rfl⟩ | ⟨policyId, rfl⟩)⟩
    · exact .inl ⟨(hof.edges c _ _).2 ⟨hshow, .inl rfl⟩, .inl rfl⟩
    · obtain ⟨p, hp, rfl⟩ := (hof.survivorPolicies policyId).2 hshow
      exact .inr (.inl ⟨p, hp, rfl⟩)
    · exact .inl ⟨(hof.edges c _ _).2 ⟨hshow, .inr rfl⟩, .inr rfl⟩
    · obtain ⟨p, hp, rfl⟩ := (hof.absorbedPolicies policyId).2 hshow
      exact .inr (.inr ⟨p, hp, rfl⟩)

theorem mergedInto_of_merged {g g' : Graph} {survivorId absorbedId : String} {plan : MergePlan ExpectedCounts}
    (h : CapabilityMerged g survivorId absorbedId plan g') : MergedInto g survivorId absorbedId plan g' := by
  obtain ⟨scan, scan', state, later, reviewId, ps, hread, hplan, hlater, hguard, hbuilt, rfl⟩ := h
  have hof := mergeStateOf_read hread
  have hnow := mergeStateOf_read hlater
  obtain ⟨survivor, absorbed, valid, rfl⟩ := planCapabilityMerge_ok hplan
  obtain rfl := hof.survivor_id survivor valid.hasSurvivor
  obtain rfl := hof.absorbed_id absorbed valid.hasAbsorbed
  have hsurvivor := hof.survivor_mem survivor valid.hasSurvivor
  rw [capabilityMergePrimitives_shape] at hbuilt
  rw [← mergeUpserts] at hbuilt
  -- the endpoints of what is brought exist
  have hends : ∀ k : EdgeKey, k.record ∈ mergeUpserts later survivor.id absorbed.id → g.hasEnds k = true := by
    intro k hk
    have hboth : k.record.source ∈ g.nodes ∧ k.record.target ∈ g.nodes := by
      rcases (mem_mergeUpserts hnow).1 hk with ⟨c, source, heq, hshow⟩ | ⟨policyId, heq, -, hshow⟩
      · rw [heq]
        exact ⟨hshow.ends.1, hsurvivor⟩
      · rw [heq]
        exact ⟨hsurvivor, hshow.ends.2⟩
    simpa [hasEnds] using hboth
  have hedges : ∀ k : EdgeKey, ¬ k.record.Touches ⟨"Capability", absorbed.id⟩ →
      (∀ id, ¬ k.record.Touches ⟨"PendingReview", id⟩) → (applyAll g ps).edgesAt k =
        if k.record ∈ mergeUpserts later survivor.id absorbed.id ∧ k.Standard then settled (g.edgesAt k)
        else g.edgesAt k :=
    fun k hk hreview => mergeShape_edgesAt hbuilt hk (fun id _ => hreview id) (hends k)
  refine ⟨valid.distinct, hof.absorbed_mem absorbed valid.hasAbsorbed, fun n hcapability hmarker hreview =>
    mergeShape_nodes hbuilt hcapability hmarker fun id _ heq => hreview (congrArg NodeRef.label heq),
    mergeShape_gone hbuilt (by decide), mergeShape_marker hbuilt (by decide) (by decide), ?_, ?_, ?_, ?_,
    capability_before_iff hof⟩
  · intro k hk hreview hbrings hstandard
    rw [hedges k hk hreview, if_pos ⟨(mem_mergeUpserts hnow).2 hbrings, hstandard⟩]
  · intro k hk hreview hnot
    rw [hedges k hk hreview, if_neg fun h => hnot ⟨(mem_mergeUpserts hnow).1 h.1, h.2⟩]
  · intro p q hp hq
    obtain ⟨x, hx, rfl⟩ := (hof.survivorPolicies p).2 hp
    obtain ⟨y, hy, rfl⟩ := (hof.absorbedPolicies q).2 hq
    exact valid.samePolicy x hx y hy
  · intro p q hp hq
    obtain ⟨x, hx, rfl⟩ := (hof.absorbedPolicies p).2 hp
    obtain ⟨y, hy, rfl⟩ := (hof.absorbedPolicies q).2 hq
    have hone := head?_of_mem valid.onePolicy.2 hx
    rw [hone] at hy
    rw [List.mem_singleton.1 hy]

/-! ## What an unmerge does -/

/-- **One Capability unmerge** on a graph: previewed, read again, guarded, built and applied. -/
def CapabilityUnmerged (g : Graph) (inputs : CapabilityUnmergeInputs) (g' : Graph) : Prop :=
  ∃ (scan scan' : ScanOrder) (state later : CapabilityUnmergeState) (write : CapabilityUnmergeWrite) (ps : List Primitive),
    readCapabilityUnmergeState scan g inputs = some state ∧ planCapabilityUnmerge inputs state = .ok write ∧
      readCapabilityUnmergeState scan' g inputs = some later ∧
      capabilityUnmergeGuardHolds later write inputs.survivorId = true ∧
      buildGroup (capabilityUnmergePrimitives write inputs.absorbedId inputs.survivorId) = some ps ∧ g' = applyAll g ps

/-- The unmerge takes the edge back from the survivor. -/
def TakesBack (inputs : CapabilityUnmergeInputs) (r : EdgeRecord) : Prop :=
  (∃ c source, r = classEdge c source inputs.survivorId ∧ source ∈ inputs.remove c) ∨
    ∃ policyId, r = governedBy inputs.survivorId policyId ∧ inputs.removePolicyEdge = true ∧
      inputs.restorePolicyId = some policyId

/-- The edges of the group, one list for each block. -/
def restoredClassEdges (write : CapabilityUnmergeWrite) (absorbedId : String) : List EdgeRecord :=
  EdgeClass.all.flatMap fun c => (write.restore c).map (classEdge c · absorbedId)

def removedClassEdges (write : CapabilityUnmergeWrite) (survivorId : String) : List EdgeRecord :=
  EdgeClass.all.flatMap fun c => (write.remove c).map (classEdge c · survivorId)

def restoredGoverned (write : CapabilityUnmergeWrite) (absorbedId : String) : List EdgeRecord :=
  write.restorePolicyId.toList.map (governedBy absorbedId ·)

def removedGoverned (write : CapabilityUnmergeWrite) (survivorId : String) : List EdgeRecord :=
  if write.removePolicyEdge then write.restorePolicyId.toList.map (governedBy survivorId ·) else []

theorem capabilityUnmergePrimitives_shape (write : CapabilityUnmergeWrite) (absorbedId survivorId : String) :
    capabilityUnmergePrimitives write absorbedId survivorId =
      [.upsertNode "Capability" absorbedId (propertiesPy write.properties) none] ++
        (restoredClassEdges write absorbedId).map upsertRecord ++ (removedClassEdges write survivorId).map deleteRecord ++
        ((restoredGoverned write absorbedId).map upsertRecord ++ (removedGoverned write survivorId).map deleteRecord) ++
        [.deleteNode "MergedCapability" absorbedId] := by
  have hgoverned : governedPrimitives write absorbedId survivorId =
      (restoredGoverned write absorbedId).map upsertRecord ++ (removedGoverned write survivorId).map deleteRecord := by
    unfold governedPrimitives restoredGoverned removedGoverned
    cases write.restorePolicyId <;> cases write.removePolicyEdge <;> rfl
  rw [capabilityUnmergePrimitives, hgoverned, restoredClassEdges, removedClassEdges, List.map_flatMap, List.map_flatMap]
  simp only [List.map_map]
  rfl

/-- The primitives of an unmerge group. -/
theorem build_unmerge {write : CapabilityUnmergeWrite} {absorbedId survivorId : String} {ps : List Primitive}
    (h : buildGroup (capabilityUnmergePrimitives write absorbedId survivorId) = some ps) :
    ps = [.upsertNode ⟨"Capability", absorbedId⟩ write.properties none] ++
      (restoredClassEdges write absorbedId).map (fun e => .upsertEdge e.base ∅) ++
      (removedClassEdges write survivorId).map (fun e => .deleteEdge e.base) ++
      ((restoredGoverned write absorbedId).map (fun e => .upsertEdge e.base ∅) ++
        (removedGoverned write survivorId).map (fun e => .deleteEdge e.base)) ++
      [.deleteNode ⟨"MergedCapability", absorbedId⟩] := by
  rw [capabilityUnmergePrimitives_shape] at h
  obtain ⟨_, last, hfour, hlast, rfl⟩ := buildGroup_append.1 h
  obtain ⟨_, _, hthree, hgoverned, rfl⟩ := buildGroup_append.1 hfour
  obtain ⟨_, _, htwo, hremoved, rfl⟩ := buildGroup_append.1 hthree
  obtain ⟨first, _, hfirst, hrestored, rfl⟩ := buildGroup_append.1 htwo
  obtain ⟨_, _, hgrestored, hgremoved, rfl⟩ := buildGroup_append.1 hgoverned
  obtain ⟨node, rest, hnode, hnil, rfl⟩ := buildGroup_cons.1 hfirst
  obtain rfl : rest = [] := (Option.some.inj hnil).symm
  obtain ⟨del, rest, hdel, hnil', rfl⟩ := buildGroup_cons.1 hlast
  obtain rfl : rest = [] := (Option.some.inj hnil').symm
  obtain ⟨map, hmap, rfl⟩ := accept_upsertNode hnode
  rw [propertiesPy_accepted hmap, build_upserts hrestored, build_deletes hremoved, build_upserts hgrestored, build_deletes hgremoved,
    accept_deleteNode hdel]

/-! ## The edges of a Capability -/

theorem OfCapability.not_touches {id absorbedId : String} {r : EdgeRecord} (h : OfCapability id r) (hne : id ≠ absorbedId) :
    ¬ r.Touches ⟨"Capability", absorbedId⟩ := by
  rcases h with ⟨c, source, rfl⟩ | ⟨policyId, rfl⟩
  · rintro (h | h)
    · exact sourceLabel_ne_capability c (congrArg NodeRef.label h)
    · exact hne (congrArg NodeRef.id h)
  · rintro (h | h)
    · exact hne (congrArg NodeRef.id h)
    · exact absurd (congrArg NodeRef.label h) (by decide : "Policy" ≠ "Capability")

theorem OfCapability.not_touches_label {id : String} {r : EdgeRecord} (h : OfCapability id r) {label : String}
    (hlabel : label = "PendingReview" ∨ label = "MergedCapability") (other : String) : ¬ r.Touches ⟨label, other⟩ := by
  have hlabels : r.sourceLabel ≠ label ∧ r.targetLabel ≠ label := by
    rcases h with ⟨c, source, rfl⟩ | ⟨policyId, rfl⟩
    · rcases hlabel with rfl | rfl <;> cases c <;> simp [classEdge, EdgeClass.sourceLabel]
    · rcases hlabel with rfl | rfl <;> simp [governedBy]
  rintro (h | h)
  · exact hlabels.1 (congrArg NodeRef.label h)
  · exact hlabels.2 (congrArg NodeRef.label h)

theorem OfCapability.eq {id id' : String} {r : EdgeRecord} (h : OfCapability id r) (h' : OfCapability id' r) : id = id' := by
  rcases h with ⟨c, source, rfl⟩ | ⟨policyId, rfl⟩ <;> rcases h' with ⟨c', source', heq⟩ | ⟨policyId', heq⟩
  · exact congrArg EdgeRecord.targetId heq
  · exact absurd (congrArg EdgeRecord.relType heq) (relType_ne_governed c)
  · exact absurd (congrArg EdgeRecord.relType heq).symm (relType_ne_governed c')
  · exact congrArg EdgeRecord.sourceId heq

/-- **What an unmerge did**, away from the Capability it recreates. -/
structure UnmergedFrom (g : Graph) (inputs : CapabilityUnmergeInputs) (g' : Graph) : Prop where
  nodes : ∀ n : NodeRef, n ≠ ⟨"Capability", inputs.absorbedId⟩ → n ≠ ⟨"MergedCapability", inputs.absorbedId⟩ →
    g'.nodes[n]? = g.nodes[n]?
  taken : ∀ k : EdgeKey, TakesBack inputs k.record → k.Standard → g'.edgesAt k = 0
  kept : ∀ k : EdgeKey, OfCapability inputs.survivorId k.record → ¬ (TakesBack inputs k.record ∧ k.Standard) →
    g'.edgesAt k = g.edgesAt k

theorem mem_survivorEdges {scan : ScanOrder} {g : Graph} {survivorId : String} {c : EdgeClass} {source : String} :
    source ∈ incomingSources (EdgeClass.all.flatMap fun c =>
        edgeRows scan g c.pattern fun e => e.targetId = survivorId) c.relType survivorId ↔
      Shows g (classEdge c source survivorId) := by
  rw [mem_incomingSources_class]
  · simp only [List.mem_flatMap, mem_edgeRows, pattern_selects, decide_eq_true_eq]
    constructor
    · rintro ⟨d, -, hshow, -⟩
      exact hshow
    · exact fun hshow => ⟨c, mem_all c, hshow, rfl, rfl⟩
  · intro r hr hrel
    simp only [List.mem_flatMap, mem_edgeRows, pattern_selects] at hr
    obtain ⟨d, -, -, hd, -⟩ := hr
    have : d = c := relType_injective (by rw [← hrel, hd]; rfl)
    rw [← this]
    exact hd

/-- An accepted plan removes what is to be taken back and is still there. -/
theorem mem_write_remove {scan : ScanOrder} {g : Graph} {inputs : CapabilityUnmergeInputs} {state : CapabilityUnmergeState}
    {write : CapabilityUnmergeWrite} (hread : readCapabilityUnmergeState scan g inputs = some state)
    (hplan : planCapabilityUnmerge inputs state = .ok write) :
    (∀ c source, source ∈ write.remove c ↔
      source ∈ inputs.remove c ∧ Shows g (classEdge c source inputs.survivorId)) ∧
      write.restorePolicyId = inputs.restorePolicyId ∧ write.removePolicyEdge = inputs.removePolicyEdge := by
  simp only [readCapabilityUnmergeState, Option.bind_eq_bind, Option.bind_eq_some_iff, Option.pure_def,
    Option.some.injEq] at hread
  obtain ⟨x, -, y, -, ts, -, us, -, rfl⟩ := hread
  simp only [planCapabilityUnmerge, bind_ok] at hplan
  obtain ⟨-, -, -, -, -, -, -, -, hwrite⟩ := hplan
  cases hwrite
  refine ⟨fun c source => ?_, rfl, rfl⟩
  rw [List.mem_filter, decide_eq_true_eq, mem_survivorEdges]

theorem mem_removed {scan : ScanOrder} {g : Graph} {inputs : CapabilityUnmergeInputs} {state : CapabilityUnmergeState}
    {write : CapabilityUnmergeWrite} (hread : readCapabilityUnmergeState scan g inputs = some state)
    (hplan : planCapabilityUnmerge inputs state = .ok write) (r : EdgeRecord) :
    r ∈ removedClassEdges write inputs.survivorId ++ removedGoverned write inputs.survivorId ↔
      TakesBack inputs r ∧ ((∃ c source, r = classEdge c source inputs.survivorId) → Shows g r) := by
  obtain ⟨hremove, hpolicy, hflag⟩ := mem_write_remove hread hplan
  have hgoverned : r ∈ removedGoverned write inputs.survivorId ↔ ∃ policyId, r = governedBy inputs.survivorId policyId ∧
      inputs.removePolicyEdge = true ∧ inputs.restorePolicyId = some policyId := by
    rw [removedGoverned, hpolicy, hflag]
    by_cases h : inputs.removePolicyEdge = true
    · rw [if_pos h]
      simp only [List.mem_map, Option.mem_toList, Option.mem_def, h, true_and]
      constructor
      · rintro ⟨policyId, hid, rfl⟩
        exact ⟨policyId, rfl, hid⟩
      · rintro ⟨policyId, rfl, hid⟩
        exact ⟨policyId, hid, rfl⟩
    · rw [if_neg h]
      exact ⟨fun hmem => absurd hmem List.not_mem_nil, fun ⟨_, _, hflag, _⟩ => absurd hflag h⟩
  rw [List.mem_append, hgoverned]
  simp only [removedClassEdges, List.mem_flatMap, List.mem_map, hremove, TakesBack]
  constructor
  · rintro (⟨c, -, source, ⟨hin, hshow⟩, rfl⟩ | ⟨policyId, rfl, hflag, hid⟩)
    · exact ⟨.inl ⟨c, source, rfl, hin⟩, fun _ => hshow⟩
    · refine ⟨.inr ⟨policyId, rfl, hflag, hid⟩, fun ⟨c, source, heq⟩ => ?_⟩
      exact absurd (congrArg EdgeRecord.relType heq).symm (relType_ne_governed c)
  · rintro ⟨⟨c, source, rfl, hin⟩ | hgov, hshow⟩
    · exact .inl ⟨c, mem_all c, source, ⟨hin, hshow ⟨c, source, rfl⟩⟩, rfl⟩
    · exact .inr hgov

theorem unmergedFrom_of_unmerged {g g' : Graph} {inputs : CapabilityUnmergeInputs} (h : CapabilityUnmerged g inputs g')
    (hne : inputs.survivorId ≠ inputs.absorbedId) : UnmergedFrom g inputs g' := by
  obtain ⟨scan, scan', state, later, write, ps, hread, hplan, -, -, hbuilt, rfl⟩ := h
  have hps := build_unmerge hbuilt
  have hmem := mem_removed hread hplan
  have hrestored : ∀ r, OfCapability inputs.survivorId r →
      r ∉ restoredClassEdges write inputs.absorbedId ∧ r ∉ restoredGoverned write inputs.absorbedId := by
    intro r hr
    constructor
    · intro hin
      simp only [restoredClassEdges, List.mem_flatMap, List.mem_map] at hin
      obtain ⟨c, -, source, -, rfl⟩ := hin
      exact hne (hr.eq (.inl ⟨c, source, rfl⟩))
    · intro hin
      obtain ⟨policyId, -, rfl⟩ := List.mem_map.1 hin
      exact hne (hr.eq (.inr ⟨policyId, rfl⟩))
  have hedges : ∀ k : EdgeKey, OfCapability inputs.survivorId k.record → (applyAll g ps).edgesAt k =
      if k.record ∈ removedClassEdges write inputs.survivorId ++ removedGoverned write inputs.survivorId ∧ k.Standard
      then 0 else g.edgesAt k := by
    intro k hk
    obtain ⟨hclass, hgoverned⟩ := hrestored _ hk
    rw [hps, applyAll_append, applyAll_append, applyAll_append, applyAll_append, applyAll_append, applyAll_cons,
      applyAll_cons, applyAll_nil, applyAll_nil, deleteNode_edgesAt_kept _ (hk.not_touches_label (.inr rfl) _),
      deletes_edgesAt, upserts_edgesAt_not_mem hgoverned, deletes_edgesAt, upserts_edgesAt_not_mem hclass,
      upsertNode_edgesAt]
    simp only [List.mem_append]
    by_cases hstandard : k.Standard <;> by_cases h : k.record ∈ removedGoverned write inputs.survivorId <;>
      simp [hstandard, h]
  have htakes : ∀ r, TakesBack inputs r → OfCapability inputs.survivorId r := by
    rintro r (⟨c, source, rfl, -⟩ | ⟨policyId, rfl, -⟩)
    · exact .inl ⟨c, source, rfl⟩
    · exact .inr ⟨policyId, rfl⟩
  refine ⟨fun n hcapability hmarker => ?_, fun k htaken hstandard => ?_, fun k hk hnot => ?_⟩
  · rw [hps, applyAll_append, applyAll_append, applyAll_append, applyAll_append, applyAll_append, applyAll_cons,
      applyAll_cons, applyAll_nil, applyAll_nil, deleteNode_nodes_kept _ hmarker.symm, deletes_nodes, upserts_nodes,
      deletes_nodes, upserts_nodes, upsertNode_nodes _ _ _ hcapability.symm]
  · rw [hedges k (htakes _ htaken)]
    split
    · rfl
    · rename_i hnot
      -- planned away: the edge was not there
      exact edgesAt_eq_zero_of_not_shows fun hshow => hnot ⟨(hmem _).2 ⟨htaken, fun _ => hshow⟩, hstandard⟩
  · rw [hedges k hk, if_neg fun h => hnot ⟨((hmem _).1 h.1).1, h.2⟩]

/-- The before snapshot of a merge, by class. -/
theorem MergedInto.before_sources {g g' : Graph} {survivorId absorbedId : String} {plan : MergePlan ExpectedCounts}
    (h : MergedInto g survivorId absorbedId plan g') (c : EdgeClass) (source : String) {id : String}
    (hid : id = survivorId ∨ id = absorbedId) :
    source ∈ incomingSources plan.before.edges c.relType id ↔ Shows g (classEdge c source id) := by
  rw [mem_incomingSources_class, h.before]
  · refine and_iff_left ?_
    rcases hid with rfl | rfl
    · exact .inl (.inl ⟨c, source, rfl⟩)
    · exact .inr (.inl ⟨c, source, rfl⟩)
  · intro r hr hrel
    have hof : ∀ id, OfCapability id r → r = classEdge c r.sourceId r.targetId := by
      rintro id (⟨d, source, rfl⟩ | ⟨policyId, rfl⟩)
      · rw [relType_injective hrel]
        rfl
      · exact absurd hrel.symm (relType_ne_governed c)
    rcases ((h.before r).1 hr).2 with h | h
    · exact hof _ h
    · exact hof _ h

/-- The before snapshot of a merge, by policy. -/
theorem MergedInto.before_governed {g g' : Graph} {survivorId absorbedId : String} {plan : MergePlan ExpectedCounts}
    (h : MergedInto g survivorId absorbedId plan g') {id : String} (hid : id = survivorId ∨ id = absorbedId) :
    (∀ policyId, governedIn plan.before.edges id = some policyId → Shows g (governedBy id policyId)) ∧
      (governedIn plan.before.edges id = none → ¬ Governed g id) := by
  have hgoverned : ∀ policyId, governedBy id policyId ∈ plan.before.edges ↔ Shows g (governedBy id policyId) := by
    intro policyId
    rw [h.before]
    refine and_iff_left ?_
    rcases hid with rfl | rfl
    · exact .inl (.inr ⟨policyId, rfl⟩)
    · exact .inr (.inr ⟨policyId, rfl⟩)
  have hshape : ∀ e ∈ plan.before.edges, e.relType = "GOVERNED_BY" → e = governedBy e.sourceId e.targetId := by
    intro e he hrel
    have hof : ∀ id, OfCapability id e → e = governedBy e.sourceId e.targetId := by
      rintro id (⟨c, source, rfl⟩ | ⟨policyId, rfl⟩)
      · exact absurd hrel (relType_ne_governed c)
      · rfl
    rcases ((h.before e).1 he).2 with h | h
    · exact hof _ h
    · exact hof _ h
  constructor
  · intro policyId hpolicy
    obtain ⟨e, he, rfl⟩ := Option.map_eq_some_iff.1 hpolicy
    have hselected := List.find?_some he
    obtain ⟨hrel, hsource⟩ := of_decide_eq_true hselected
    have hmem := List.mem_of_find?_eq_some he
    rw [hshape e hmem hrel, hsource] at hmem
    exact (hgoverned _).1 hmem
  · rintro hnone ⟨policyId, hshow⟩
    have := List.find?_eq_none.1 (Option.map_eq_none_iff.1 hnone) _ ((hgoverned policyId).2 hshow)
    exact this (decide_eq_true ⟨rfl, rfl⟩)

/-- **What an unmerge takes back**: what the merge brought and the survivor did not have. -/
theorem takesBack_iff {g g' : Graph} {survivorId absorbedId : String} {plan : MergePlan ExpectedCounts}
    {inputs : CapabilityUnmergeInputs} (h : MergedInto g survivorId absorbedId plan g')
    (hinputs : deriveCapabilityUnmergeInputs ⟨survivorId, absorbedId, some plan.before, some plan.after⟩ = .ok inputs) :
    inputs.survivorId = survivorId ∧ inputs.absorbedId = absorbedId ∧
      ∀ r, TakesBack inputs r ↔ Brings g survivorId absorbedId r ∧ ¬ Shows g r := by
  have hsurvivor := h.before_governed (.inl rfl)
  have habsorbed := h.before_governed (.inr rfl)
  unfold deriveCapabilityUnmergeInputs at hinputs
  simp only at hinputs
  split at hinputs
  · cases hinputs
  · cases hinputs
    refine ⟨rfl, rfl, fun r => ?_⟩
    simp only [TakesBack, List.mem_filter, decide_eq_true_eq, h.before_sources _ _ (.inr rfl),
      h.before_sources _ _ (.inl rfl), Bool.and_eq_true, Bool.not_eq_true']
    constructor
    · rintro (⟨c, source, rfl, hon, hnot⟩ | ⟨policyId, rfl, ⟨-, hungoverned⟩, hpolicy⟩)
      · exact ⟨.inl ⟨c, source, rfl, hon⟩, hnot⟩
      · have hnone : ¬ Governed g survivorId := hsurvivor.2 (by simpa using hungoverned)
        exact ⟨.inr ⟨policyId, rfl, hnone, habsorbed.1 policyId hpolicy⟩, fun hshow => hnone ⟨policyId, hshow⟩⟩
    · rintro ⟨⟨c, source, rfl, hon⟩ | ⟨policyId, rfl, hnone, hshow⟩, hnot⟩
      · exact .inl ⟨c, source, rfl, hon, hnot⟩
      · refine .inr ⟨policyId, rfl, ?_⟩
        cases hpolicy : governedIn plan.before.edges absorbedId with
        | none => exact absurd ⟨policyId, hshow⟩ (habsorbed.2 hpolicy)
        | some q =>
          have hq := h.onePolicy q policyId (habsorbed.1 q hpolicy) hshow
          cases hs : governedIn plan.before.edges survivorId with
          | none => exact ⟨⟨rfl, rfl⟩, by rw [hq]⟩
          | some p => exact absurd ⟨p, hsurvivor.1 p hs⟩ hnone

/-! ## Two merges and one unmerge -/

/-- **The same at S**: its node, D's marker, and every class and governing edge of S with all it holds. -/
structure SameAtSurvivor (g g' : Graph) (survivorId otherId : String) : Prop where
  survivor : g.nodes[(⟨"Capability", survivorId⟩ : NodeRef)]? = g'.nodes[(⟨"Capability", survivorId⟩ : NodeRef)]?
  marker : g.nodes[(⟨"MergedCapability", otherId⟩ : NodeRef)]? = g'.nodes[(⟨"MergedCapability", otherId⟩ : NodeRef)]?
  edges : ∀ k : EdgeKey, OfCapability survivorId k.record → g.edgesAt k = g'.edgesAt k

/-- **A and D bring S nothing in common that S lacked.** -/
def NothingShared (g : Graph) (survivorId absorbedId otherId : String) : Prop :=
  ∀ r, Brings g survivorId absorbedId r → Brings g survivorId otherId r → Shows g r

/-- **What A brings and S had, S holds under the standard identity**, unless D brings it too. -/
def HeldIdentified (g : Graph) (survivorId absorbedId otherId : String) : Prop :=
  ∀ r : EdgeRecord, Brings g survivorId absorbedId r → Shows g r → ¬ Brings g survivorId otherId r →
    g.edgesAt r.base.edgeKey ≠ 0

/-- The nodes a merge leaves alone. -/
theorem MergedInto.other_nodes {g g' : Graph} {survivorId absorbedId : String} {plan : MergePlan ExpectedCounts}
    (h : MergedInto g survivorId absorbedId plan g') {id : String} (hne : id ≠ absorbedId) :
    g'.nodes[(⟨"Capability", id⟩ : NodeRef)]? = g.nodes[(⟨"Capability", id⟩ : NodeRef)]? ∧
      g'.nodes[(⟨"MergedCapability", id⟩ : NodeRef)]? = g.nodes[(⟨"MergedCapability", id⟩ : NodeRef)]? := by
  constructor
  · exact h.nodes _ (by simp [hne]) (by simp) (by decide : "Capability" ≠ "PendingReview")
  · exact h.nodes _ (by simp) (by simp [hne]) (by decide : "MergedCapability" ≠ "PendingReview")

/-- The edges a merge writes at one key of another Capability or of S. -/
theorem MergedInto.edgesAt {g g' : Graph} {survivorId absorbedId : String} {plan : MergePlan ExpectedCounts}
    (h : MergedInto g survivorId absorbedId plan g') {k : EdgeKey} {id : String} (hof : OfCapability id k.record)
    (hne : id ≠ absorbedId) :
    (Brings g survivorId absorbedId k.record ∧ k.Standard → g'.edgesAt k = settled (g.edgesAt k)) ∧
      (¬ (Brings g survivorId absorbedId k.record ∧ k.Standard) → g'.edgesAt k = g.edgesAt k) := by
  have htouch := hof.not_touches hne
  have hreview := fun other => hof.not_touches_label (.inl rfl) other
  exact ⟨fun hb => h.brought k htouch hreview hb.1 hb.2, h.kept k htouch hreview⟩

theorem MergedInto.shows {g g' : Graph} {survivorId absorbedId : String} {plan : MergePlan ExpectedCounts}
    (h : MergedInto g survivorId absorbedId plan g') {r : EdgeRecord} {id : String} (hof : OfCapability id r)
    (hne : id ≠ absorbedId) : Shows g' r ↔ Shows g r ∨ Brings g survivorId absorbedId r := by
  constructor
  · intro hshow
    obtain ⟨k, rfl, hk⟩ := shows_iff.1 hshow
    obtain ⟨-, hkept⟩ := h.edgesAt hof hne
    by_cases hb : Brings g survivorId absorbedId k.record
    · exact .inr hb
    · rw [hkept fun hb' => hb hb'.1] at hk
      exact .inl (shows_iff.2 ⟨k, rfl, hk⟩)
  · rintro (hshow | hb)
    · obtain ⟨k, rfl, hk⟩ := shows_iff.1 hshow
      obtain ⟨hbrought, hkept⟩ := h.edgesAt hof hne
      refine shows_iff.2 ⟨k, rfl, ?_⟩
      by_cases hb : Brings g survivorId absorbedId k.record ∧ k.Standard
      · rw [hbrought hb]
        exact settled_ne_zero _
      · rwa [hkept hb]
    · have hof' : OfCapability id r.base.edgeKey.record := hof
      refine shows_iff.2 ⟨r.base.edgeKey, rfl, ?_⟩
      rw [(h.edgesAt hof' hne).1 ⟨hb, rfl⟩]
      exact settled_ne_zero _

section Independence

variable {g g₁ g₂ g₃ g' : Graph} {survivorId absorbedId otherId : String} {plan plan₁ plan' : MergePlan ExpectedCounts}
  {inputs : CapabilityUnmergeInputs}

/-- The edges of another Capability are not touched by a merge. -/
theorem MergedInto.shows_other (h : MergedInto g survivorId absorbedId plan g₁) {r : EdgeRecord} {id : String}
    (hof : OfCapability id r) (hne : id ≠ absorbedId) (hsurvivor : id ≠ survivorId) : Shows g₁ r ↔ Shows g r := by
  rw [h.shows hof hne]
  exact or_iff_left fun hb => hsurvivor (hof.eq hb.shape)

/-- What D brings after A was merged, D brought before. -/
theorem brings_before (h : MergedInto g survivorId absorbedId plan g₁) (hne : otherId ≠ absorbedId)
    (hsurvivor : otherId ≠ survivorId) {r : EdgeRecord} (hb : Brings g₁ survivorId otherId r) :
    Brings g survivorId otherId r := by
  rcases hb with ⟨c, source, rfl, hshow⟩ | ⟨policyId, rfl, hungoverned, hshow⟩
  · exact .inl ⟨c, source, rfl, (h.shows_other (.inl ⟨c, source, rfl⟩) hne hsurvivor).1 hshow⟩
  · refine .inr ⟨policyId, rfl, fun ⟨q, hq⟩ => hungoverned ⟨q, ?_⟩,
      (h.shows_other (.inr ⟨policyId, rfl⟩) hne hsurvivor).1 hshow⟩
    exact (h.shows (.inr ⟨q, rfl⟩) h.distinct).2 (.inl hq)

/-- What D brought before A was merged, D brings after, unless A has brought it and S lacked it. -/
theorem brings_after (h : MergedInto g survivorId absorbedId plan g₁) (h₁ : MergedInto g₁ survivorId otherId plan₁ g₂)
    (hne : otherId ≠ absorbedId) {r : EdgeRecord} (hb : Brings g survivorId otherId r) :
    Brings g₁ survivorId otherId r ∨ (Brings g survivorId absorbedId r ∧ ¬ Shows g r) := by
  have hsurvivor : otherId ≠ survivorId := h₁.distinct.symm
  rcases hb with ⟨c, source, rfl, hshow⟩ | ⟨policyId, rfl, hungoverned, hshow⟩
  · exact .inl (.inl ⟨c, source, rfl, (h.shows_other (.inl ⟨c, source, rfl⟩) hne hsurvivor).2 hshow⟩)
  · have hother := (h.shows_other (.inr ⟨policyId, rfl⟩) hne hsurvivor).2 hshow
    by_cases hnow : Governed g₁ survivorId
    · -- A brought the policy, and D's is the same
      obtain ⟨q, hq⟩ := hnow
      rcases (h.shows (.inr ⟨q, rfl⟩) h.distinct).1 hq with hold | hbrought
      · exact absurd ⟨q, hold⟩ hungoverned
      · rw [h₁.samePolicy q policyId hq hother] at hbrought
        exact .inr ⟨hbrought, fun hshow => hungoverned ⟨policyId, hshow⟩⟩
    · exact .inl (.inr ⟨policyId, rfl, hnow, hother⟩)

/-- A merged, then D, then A unmerged: S's edges are those of D merged alone. -/
theorem edges_absorbed_first (hA : MergedInto g survivorId absorbedId plan g₁)
    (hD : MergedInto g₁ survivorId otherId plan₁ g₂) (htakes : ∀ r, TakesBack inputs r ↔
      Brings g survivorId absorbedId r ∧ ¬ Shows g r) (hs : inputs.survivorId = survivorId)
    (hU : UnmergedFrom g₂ inputs g₃) (hne : otherId ≠ absorbedId) (hAlone : MergedInto g survivorId otherId plan' g') :
    (∀ k : EdgeKey, OfCapability survivorId k.record → g₃.edgesAt k = g'.edgesAt k) ↔
      NothingShared g survivorId absorbedId otherId ∧ HeldIdentified g survivorId absorbedId otherId := by
  have hsurvivor : otherId ≠ survivorId := hD.distinct.symm
  have hback := fun r => brings_before hA hne hsurvivor (r := r)
  have hforth := fun r => brings_after hA hD hne (r := r)
  constructor
  · intro hsame
    constructor
    · intro r ha hd
      by_contra hnot
      have hkey := hsame r.base.edgeKey ha.shape
      have hof : OfCapability survivorId r.base.edgeKey.record := hd.shape
      rw [hU.taken r.base.edgeKey ((htakes r).2 ⟨ha, hnot⟩) rfl, (hAlone.edgesAt hof hD.distinct).1 ⟨hd, rfl⟩] at hkey
      exact settled_ne_zero _ hkey.symm
    · intro r ha hshow hd hzero
      have hkey := hsame r.base.edgeKey ha.shape
      have hof : OfCapability survivorId r.base.edgeKey.record := ha.shape
      rw [hU.kept r.base.edgeKey (hs ▸ hof) fun h => ((htakes r).1 h.1).2 hshow,
        (hD.edgesAt hof hD.distinct).2 fun h => hd (hback r h.1), (hA.edgesAt hof hA.distinct).1 ⟨ha, rfl⟩, (hAlone.edgesAt hof hD.distinct).2 fun h => hd h.1, hzero] at hkey
      exact settled_ne_zero _ hkey
  · rintro ⟨hnothing, hidentified⟩ k hof
    obtain ⟨hA1, hA2⟩ := hA.edgesAt hof hA.distinct
    obtain ⟨hD1, hD2⟩ := hD.edgesAt hof hD.distinct
    obtain ⟨hL1, hL2⟩ := hAlone.edgesAt hof hD.distinct
    by_cases hstandard : k.Standard
    · by_cases ha : Brings g survivorId absorbedId k.record
      · by_cases hshow : Shows g k.record
        · rw [hU.kept k (hs ▸ hof) fun h => ((htakes _).1 h.1).2 hshow]
          by_cases hd : Brings g survivorId otherId k.record
          · have hd' := (hforth _ hd).resolve_right fun h => h.2 hshow
            rw [hD1 ⟨hd', hstandard⟩, hA1 ⟨ha, hstandard⟩, hL1 ⟨hd, hstandard⟩, settled_settled]
          · have hheld := hidentified _ ha hshow hd
            have hkey : k.record.base.edgeKey = k := hstandard
            rw [hkey] at hheld
            rw [hD2 fun h => hd (hback _ h.1), hA1 ⟨ha, hstandard⟩, hL2 fun h => hd h.1, settled, if_neg hheld]
        · have hd : ¬ Brings g survivorId otherId k.record := fun hd => hshow (hnothing _ ha hd)
          rw [hU.taken k ((htakes _).2 ⟨ha, hshow⟩) hstandard, hL2 fun h => hd h.1, edgesAt_eq_zero_of_not_shows hshow]
      · rw [hU.kept k (hs ▸ hof) fun h => ha ((htakes _).1 h.1).1]
        by_cases hd : Brings g survivorId otherId k.record
        · have hd' := (hforth _ hd).resolve_right fun h => ha h.1
          rw [hD1 ⟨hd', hstandard⟩, hA2 fun h => ha h.1, hL1 ⟨hd, hstandard⟩]
        · rw [hD2 fun h => hd (hback _ h.1), hA2 fun h => ha h.1, hL2 fun h => hd h.1]
    · rw [hU.kept k (hs ▸ hof) fun h => hstandard h.2, hD2 fun h => hstandard h.2, hA2 fun h => hstandard h.2,
        hL2 fun h => hstandard h.2]

/-- D merged, then A, then A unmerged: S's edges are those D left. -/
theorem edges_other_first (hD : MergedInto g survivorId otherId plan g₁)
    (hA : MergedInto g₁ survivorId absorbedId plan₁ g₂) (htakes : ∀ r, TakesBack inputs r ↔
      Brings g₁ survivorId absorbedId r ∧ ¬ Shows g₁ r) (hs : inputs.survivorId = survivorId)
    (hU : UnmergedFrom g₂ inputs g₃) (hne : absorbedId ≠ otherId) :
    (∀ k : EdgeKey, OfCapability survivorId k.record → g₃.edgesAt k = g₁.edgesAt k) ↔
      HeldIdentified g survivorId absorbedId otherId := by
  have hsurvivor : absorbedId ≠ survivorId := hA.distinct.symm
  have hback := fun r => brings_before hD hne hsurvivor (r := r)
  have hforth := fun r => brings_after hD hA hne (r := r)
  constructor
  · intro hsame r ha hshow hd hzero
    have hof : OfCapability survivorId r.base.edgeKey.record := ha.shape
    have ha' : Brings g₁ survivorId absorbedId r := (hforth r ha).resolve_right fun h => hd h.1
    have hshow' : Shows g₁ r := (hD.shows ha.shape hD.distinct).2 (.inl hshow)
    have hkey := hsame r.base.edgeKey ha.shape
    rw [hU.kept r.base.edgeKey (hs ▸ hof) fun h => ((htakes r).1 h.1).2 hshow',
      (hA.edgesAt hof hA.distinct).1 ⟨ha', rfl⟩, (hD.edgesAt hof hD.distinct).2 fun h => hd h.1, hzero] at hkey
    exact settled_ne_zero _ hkey
  · intro hidentified k hof
    obtain ⟨hA1, hA2⟩ := hA.edgesAt hof hA.distinct
    obtain ⟨hD1, hD2⟩ := hD.edgesAt hof hD.distinct
    by_cases ha : Brings g₁ survivorId absorbedId k.record ∧ k.Standard
    · by_cases hshow : Shows g₁ k.record
      · rw [hU.kept k (hs ▸ hof) fun h => ((htakes _).1 h.1).2 hshow, hA1 ha]
        by_cases hd : Brings g survivorId otherId k.record
        · rw [hD1 ⟨hd, ha.2⟩, settled_settled]
        · have hold := ((hD.shows hof hD.distinct).1 hshow).resolve_right hd
          have hheld := hidentified _ (hback _ ha.1) hold hd
          have hkey : k.record.base.edgeKey = k := ha.2
          rw [hkey] at hheld
          rw [hD2 fun h => hd h.1, settled, if_neg hheld]
      · rw [hU.taken k ((htakes _).2 ⟨ha.1, hshow⟩) ha.2, edgesAt_eq_zero_of_not_shows hshow]
    · rw [hU.kept k (hs ▸ hof) fun h => ha ⟨((htakes _).1 h.1).1, h.2⟩, hA2 ha]

/-- S's node and D's marker, which an unmerge of A leaves alone. -/
theorem UnmergedFrom.other_nodes (h : UnmergedFrom g inputs g') {id : String} (hne : id ≠ inputs.absorbedId) :
    g'.nodes[(⟨"Capability", id⟩ : NodeRef)]? = g.nodes[(⟨"Capability", id⟩ : NodeRef)]? ∧
      g'.nodes[(⟨"MergedCapability", id⟩ : NodeRef)]? = g.nodes[(⟨"MergedCapability", id⟩ : NodeRef)]? :=
  ⟨h.nodes _ (by simp [hne]) (by simp), h.nodes _ (by simp) (by simp [hne])⟩

/-- The absorbed Capability is gone, so a merge after it absorbs another one. -/
theorem MergedInto.distinct_next (h : MergedInto g survivorId absorbedId plan g₁)
    (h₁ : MergedInto g₁ survivorId otherId plan₁ g₂) : otherId ≠ absorbedId := by
  intro heq
  have hmem := h₁.absorbed_mem
  rw [heq, ← ExtTreeMap.isSome_getElem?_iff_mem, h.gone] at hmem
  exact absurd hmem (by simp)

end Independence

/-! ## One Policy shared by A and D -/

/-- A query that matches nothing. -/
theorem edgeRows_none {scan : ScanOrder} {g : Graph} {p : EdgePattern} {sel : EdgeRecord → Bool}
    (h : (g.edges.filter fun e => p.Selects e.1.record ∧ sel e.1.record = true) = 0) : edgeRows scan g p sel = [] := by
  rw [edgeRows, storedRows, h, scan.order_zero, List.map_nil]

/-- A query that matches one edge. -/
theorem edgeRows_one {scan : ScanOrder} {g : Graph} {p : EdgePattern} {sel : EdgeRecord → Bool}
    {e : EdgeKey × PropertyMap} (h : (g.edges.filter fun e => p.Selects e.1.record ∧ sel e.1.record = true) = {e}) :
    edgeRows scan g p sel = [e.1.record] := by
  rw [edgeRows, storedRows, h, scan.order_singleton, List.map_singleton]

/-- Three Capabilities, of which "a" and "d" are governed by one Policy. -/
def sharedPolicyGraph : Graph :=
  (∅ : Graph).writeAll [
    .put ⟨"Capability", "s"⟩ (·.merge ((∅ : PropertyMap).insert "name" (.scalar (.str "S")))),
    .put ⟨"Capability", "a"⟩ (·.merge ((∅ : PropertyMap).insert "name" (.scalar (.str "A")))),
    .put ⟨"Capability", "d"⟩ (·.merge ((∅ : PropertyMap).insert "name" (.scalar (.str "D")))),
    .put ⟨"Policy", "p"⟩ (·.merge (((∅ : PropertyMap).insert "title" (.scalar (.str "P"))).insert "status"
      (.scalar (.str "draft")))),
    .putEdge (governedBy "a" "p").base.edgeKey id, .putEdge (governedBy "d" "p").base.edgeKey id]

/-- What is read of "s" and "a" or "d": no class edge, and the Policy on the absorbed one. -/
def governedState (absorbedId absorbedName : String) (survivorPolicies : List GoverningPolicy) : MergeState :=
  ⟨some ⟨"s", "S", "active", ∅⟩, some ⟨absorbedId, absorbedName, "active", ∅⟩, [], survivorPolicies,
    [⟨"p", "P", "draft"⟩]⟩

def governedPlan (absorbedId absorbedName : String) (survivorPolicies : List GoverningPolicy) : MergePlan ExpectedCounts :=
  capabilityMergePlan (governedState absorbedId absorbedName survivorPolicies) ⟨"s", "S", "active", ∅⟩
    ⟨absorbedId, absorbedName, "active", ∅⟩

/-- What is written: the Policy's edge if "s" lacked it, the marker and the delete. -/
def governedWrites (absorbedId : String) (upserts : List Primitive) : List Primitive :=
  upserts ++ [.upsertNode ⟨"MergedCapability", absorbedId⟩ (mergedInto "s") none, .deleteNode ⟨"Capability", absorbedId⟩]

theorem incomingSources_nil (relType id : String) : incomingSources [] relType id = [] := by
  simp [incomingSources, sortedIds]

theorem merged_governed {g : Graph} {absorbedId absorbedName : String} {survivorPolicies : List GoverningPolicy}
    {upserts : List Primitive}
    (hs : readNode g "Capability" "s" (nodeState "s") = some (some ⟨"s", "S", "active", ∅⟩))
    (ha : readNode g "Capability" absorbedId (nodeState absorbedId) = some (some ⟨absorbedId, absorbedName, "active", ∅⟩))
    (hclass : ∀ c : EdgeClass, (g.edges.filter fun e => c.pattern.Selects e.1.record ∧
      (decide (e.1.record.targetId = "s") || decide (e.1.record.targetId = absorbedId)) = true) = 0)
    (hsurvivor : readPolicies default g "s" = some survivorPolicies)
    (habsorbed : readPolicies default g absorbedId = some [⟨"p", "P", "draft"⟩])
    (hplan : planCapabilityMerge (governedState absorbedId absorbedName survivorPolicies) =
      .ok (governedPlan absorbedId absorbedName survivorPolicies))
    (hguard : capabilityMergeGuardHolds (governedState absorbedId absorbedName survivorPolicies)
      (governedPlan absorbedId absorbedName survivorPolicies).expected absorbedId = true)
    (hbuilt : buildGroup (capabilityMergePrimitives (governedState absorbedId absorbedName survivorPolicies) "s" absorbedId
      none) = some (governedWrites absorbedId upserts)) :
    CapabilityMerged g "s" absorbedId (governedPlan absorbedId absorbedName survivorPolicies)
      (applyAll g (governedWrites absorbedId upserts)) := by
  have hedges : (EdgeClass.all.flatMap fun c => edgeRows default g c.pattern fun e =>
      e.targetId = "s" || e.targetId = absorbedId) = [] :=
    List.flatMap_eq_nil_iff.2 fun c _ => edgeRows_none (hclass c)
  have hread : readCapabilityMergeState default g "s" absorbedId =
      some (governedState absorbedId absorbedName survivorPolicies) := by
    rw [readCapabilityMergeState, hs, ha, hsurvivor, habsorbed]
    simp only [Option.bind_eq_bind, Option.bind_some, hedges]
    rfl
  exact ⟨default, default, _, _, none, _, hread, hplan, hread, hguard, hbuilt, rfl⟩

theorem readPolicies_none {g : Graph} {id : String}
    (h : (g.edges.filter fun e => governorPattern.Selects e.1.record ∧ decide (e.1.record.sourceId = id) = true) = 0) :
    readPolicies default g id = some [] := by
  rw [readPolicies, edgeRows_none h]
  rfl

theorem readPolicies_one {g : Graph} {id : String}
    (h : (g.edges.filter fun e => governorPattern.Selects e.1.record ∧ decide (e.1.record.sourceId = id) = true) =
      {((governedBy id "p").base.edgeKey, ∅)})
    (hpolicy : governingPolicy g "p" = some ⟨"p", "P", "draft"⟩) :
    readPolicies default g id = some [⟨"p", "P", "draft"⟩] := by
  rw [readPolicies, edgeRows_one h, List.mapM_cons, List.mapM_nil]
  have htarget : (governedBy id "p").base.edgeKey.record.targetId = "p" := rfl
  rw [htarget, hpolicy]
  rfl

/-- The governing edge "s" gets from the first merge. -/
def newGoverning : List Primitive := [.upsertEdge (governedBy "s" "p").base ∅]

theorem merged_first {absorbedId absorbedName : String}
    (h : absorbedId = "a" ∧ absorbedName = "A" ∨ absorbedId = "d" ∧ absorbedName = "D") :
    CapabilityMerged sharedPolicyGraph "s" absorbedId (governedPlan absorbedId absorbedName [])
      (applyAll sharedPolicyGraph (governedWrites absorbedId newGoverning)) := by
  have hguard : capabilityMergeGuardHolds (governedState absorbedId absorbedName [])
      (governedPlan absorbedId absorbedName []).expected absorbedId = true := by
    simp only [governedPlan, capabilityMergePlan, expectedCounts, governedState, List.filter_nil, incomingSources_nil]
    rfl
  have hbuilt : buildGroup (capabilityMergePrimitives (governedState absorbedId absorbedName []) "s" absorbedId none) =
      some (governedWrites absorbedId newGoverning) := by
    simp only [capabilityMergePrimitives, governedState, incomingSources_nil]
    rcases h with ⟨rfl, rfl⟩ | ⟨rfl, rfl⟩ <;> decide +kernel
  rcases h with ⟨rfl, rfl⟩ | ⟨rfl, rfl⟩
  · exact merged_governed rfl rfl (fun c => by cases c <;> rfl) (readPolicies_none rfl) (readPolicies_one rfl rfl) rfl
      hguard hbuilt
  · exact merged_governed rfl rfl (fun c => by cases c <;> rfl) (readPolicies_none rfl) (readPolicies_one rfl rfl) rfl
      hguard hbuilt

/-- "a" was merged. -/
def mergedA : Graph := applyAll sharedPolicyGraph (governedWrites "a" newGoverning)

/-- Then "d". -/
def mergedAD : Graph := applyAll mergedA (governedWrites "d" [])

theorem merged_second :
    CapabilityMerged mergedA "s" "d" (governedPlan "d" "D" [⟨"p", "P", "draft"⟩]) mergedAD := by
  have hguard : capabilityMergeGuardHolds (governedState "d" "D" [⟨"p", "P", "draft"⟩])
      (governedPlan "d" "D" [⟨"p", "P", "draft"⟩]).expected "d" = true := by
    simp only [governedPlan, capabilityMergePlan, expectedCounts, governedState, List.filter_nil, incomingSources_nil]
    rfl
  have hbuilt : buildGroup (capabilityMergePrimitives (governedState "d" "D" [⟨"p", "P", "draft"⟩]) "s" "d" none) =
      some (governedWrites "d" []) := by
    simp only [capabilityMergePrimitives, governedState, incomingSources_nil]
    decide +kernel
  exact merged_governed rfl rfl (fun c => by cases c <;> rfl) (readPolicies_one rfl rfl) (readPolicies_one rfl rfl) rfl
    hguard hbuilt

/-- What the record of the first merge says to reverse. -/
def sharedPolicyInputs : CapabilityUnmergeInputs :=
  ⟨"s", "a", (∅ : PropertyMap).insert "name" (.scalar (.str "A")), fun _ => [], fun _ => [], some "p", true⟩

theorem derive_sharedPolicy : deriveCapabilityUnmergeInputs
    ⟨"s", "a", some (governedPlan "a" "A" []).before, some (governedPlan "a" "A" []).after⟩ = .ok sharedPolicyInputs := by
  have hedges : (governedPlan "a" "A" []).before.edges = [governedBy "a" "p"] := rfl
  have hsources : ∀ (c : EdgeClass) (id : String), incomingSources [governedBy "a" "p"] c.relType id = [] := by
    intro c id
    cases c <;> simp [incomingSources, sortedIds, governedBy, EdgeClass.relType]
  simp only [deriveCapabilityUnmergeInputs, hedges, hsources]
  rfl

/-- What the unmerge writes. -/
def sharedPolicyWrite : CapabilityUnmergeWrite :=
  ⟨fun _ => [], fun _ => [], some "p", true, sharedPolicyInputs.absorbedProperties.insert "status" (.scalar (.str "active"))⟩

/-- What it is planned against. -/
def sharedPolicyState : CapabilityUnmergeState :=
  ⟨none, some ⟨"s", "S", "active", ∅⟩, ["s"], [], [], ["p"], fun _ => [], true⟩

theorem read_sharedPolicy {g : Graph} (h : g = mergedA ∨ g = mergedAD) :
    readCapabilityUnmergeState default g sharedPolicyInputs = some sharedPolicyState := by
  have hs : readNode g "Capability" sharedPolicyInputs.survivorId (nodeState sharedPolicyInputs.survivorId) =
      some (some ⟨"s", "S", "active", ∅⟩) := by rcases h with rfl | rfl <;> rfl
  have ha : readNode g "Capability" sharedPolicyInputs.absorbedId (nodeState sharedPolicyInputs.absorbedId) =
      some none := by rcases h with rfl | rfl <;> rfl
  have htargets : readMarkerTargets g sharedPolicyInputs.absorbedId = some ["s"] := by rcases h with rfl | rfl <;> rfl
  have hnone : readMarkerTargets g sharedPolicyInputs.survivorId = some [] := by rcases h with rfl | rfl <;> rfl
  have hclass : (EdgeClass.all.flatMap fun c => edgeRows default g c.pattern fun e =>
      e.targetId = sharedPolicyInputs.survivorId) = [] :=
    List.flatMap_eq_nil_iff.2 fun c _ => edgeRows_none (by rcases h with rfl | rfl <;> cases c <;> rfl)
  have hpolicy : (edgeRows default g governorPattern fun e => e.sourceId = sharedPolicyInputs.survivorId) =
      [governedBy "s" "p"] := by
    refine edgeRows_one (show _ = {((governedBy "s" "p").base.edgeKey, ∅)} from ?_)
    rcases h with rfl | rfl <;> rfl
  rw [readCapabilityUnmergeState, hs, ha, htargets, hnone]
  simp only [hclass, hpolicy, Option.bind_eq_bind, Option.bind_some]
  rcases h with rfl | rfl <;> rfl

theorem unmerged_sharedPolicy {g : Graph} (h : g = mergedA ∨ g = mergedAD) :
    ∃ g₃, CapabilityUnmerged g sharedPolicyInputs g₃ := by
  have hplan : planCapabilityUnmerge sharedPolicyInputs sharedPolicyState = .ok sharedPolicyWrite := by
    have hmissing : missingEndpoints sharedPolicyInputs sharedPolicyState = [] := by
      have hnil : (EdgeClass.all.flatMap fun c => (sharedPolicyInputs.restore c).filter fun id =>
          id ∉ sharedPolicyState.existingEndpoints c) = [] := rfl
      rw [missingEndpoints, hnil, sortedIds, List.toFinset_nil, Finset.sort_empty]
    rw [planCapabilityUnmerge, checkEndpoints, hmissing]
    rfl
  have hbuilt : (buildGroup (capabilityUnmergePrimitives sharedPolicyWrite "a" "s")).isSome = true := by
    decide +kernel
  obtain ⟨ps, hps⟩ := Option.isSome_iff_exists.1 hbuilt
  exact ⟨_, default, default, _, _, _, ps, read_sharedPolicy h, hplan, read_sharedPolicy h, rfl, hps, rfl⟩

end PolicySystem
