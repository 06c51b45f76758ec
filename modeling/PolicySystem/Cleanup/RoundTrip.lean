import PolicySystem.Cleanup.Unmerge

/-!
# A merge and its unmerge

A Capability merge followed by its unmerge, with no edit in between.

* `merge_unmerge_restores`: the unmerge is accepted, and gives both Capabilities back their edges and the absorbed one
  its properties.
-/

namespace PolicySystem

open PropertyGraph GraphWrite Std

/-! ## What is restored -/

/-- The scalar properties of a Capability, its status apart. -/
def capabilityProperties : List String := ["name", "description", "type", "confidence", "created_at"]

def propertyOf (g : Graph) (n : NodeRef) (name : String) : Option PropertyValue :=
  g.nodes[n]?.bind fun content => content.properties[name]?

/-- Each class or governing edge of the two is one edge without properties, under the standard identity. -/
def PlainEdges (g : Graph) (survivorId absorbedId : String) : Prop :=
  ∀ k : EdgeKey, OfCapability survivorId k.record ∨ OfCapability absorbedId k.record → g.edgesAt k ≠ 0 →
    k.Standard ∧ g.edgesAt k = {∅}

/-- **As before the merge.** -/
structure Restored (g g₂ : Graph) (survivorId absorbedId : String) : Prop where
  edges : ∀ r, OfCapability survivorId r ∨ OfCapability absorbedId r → (Shows g₂ r ↔ Shows g r)
  plainEdges : PlainEdges g survivorId absorbedId → ∀ k : EdgeKey,
    OfCapability survivorId k.record ∨ OfCapability absorbedId k.record → g₂.edgesAt k = g.edgesAt k
  properties : ∀ name ∈ capabilityProperties,
    propertyOf g₂ ⟨"Capability", absorbedId⟩ name = propertyOf g ⟨"Capability", absorbedId⟩ name
  active : propertyOf g₂ ⟨"Capability", absorbedId⟩ "status" = some (.scalar (.str "active"))
  marker : g₂.nodes[(⟨"MergedCapability", absorbedId⟩ : NodeRef)]? = none
  survivor : g₂.nodes[(⟨"Capability", survivorId⟩ : NodeRef)]? = g.nodes[(⟨"Capability", survivorId⟩ : NodeRef)]?

/-! ## The record of the merge -/

theorem scalarColumns_get {properties columns : PropertyMap} {names : List String}
    (h : scalarColumns properties names = some columns) (name : String) :
    columns[name]? = if name ∈ names then properties[name]? else none := by
  induction names generalizing columns with
  | nil =>
    obtain rfl : columns = ∅ := (Option.some.inj h).symm
    rfl
  | cons first names ih =>
    simp only [scalarColumns, Option.bind_eq_bind, Option.bind_eq_some_iff] at h
    obtain ⟨rest, hrest, h⟩ := h
    by_cases hname : name = first
    · subst hname
      rw [if_pos List.mem_cons_self]
      split at h
      · rename_i hnone
        cases h
        rw [ih hrest, hnone, ite_self]
      · rename_i s hsome
        cases h
        rw [hsome, ExtTreeMap.getElem?_insert_self]
      · cases h
    · have hmem : name ∈ first :: names ↔ name ∈ names := by simp [hname]
      simp only [hmem]
      split at h
      · cases h
        exact ih hrest
      · cases h
        rw [ExtTreeMap.getElem?_insert, if_neg (by simpa using fun heq => hname heq.symm)]
        exact ih hrest
      · cases h

/-- The snapshot of a Capability holds what the node holds. -/
theorem snapshotCapability_get {id : String} {properties : PropertyMap} {node : CapabilityNodeState}
    (h : nodeState id properties = some node) (name : String) :
    ((snapshotCapability node).properties.erase "status")[name]? =
      if name ∈ capabilityProperties then properties[name]? else none := by
  simp only [nodeState, Option.bind_eq_bind, Option.bind_eq_some_iff, Option.pure_def, Option.some.injEq] at h
  obtain ⟨nodeName, hnodeName, status, -, columns, hcolumns, rfl⟩ := h
  have hget := scalarColumns_get hcolumns name
  have hbase : ((snapshotCapability ⟨id, nodeName, status, columns⟩).properties.erase "status")[name]? =
      if "status" = name then none else if "name" = name then some (.scalar (.str nodeName)) else columns[name]? := by
    simp only [snapshotCapability, ExtTreeMap.getElem?_erase, ExtTreeMap.getElem?_insert, Std.compare_eq_iff_eq]
    by_cases hstatus : "status" = name <;> simp [hstatus]
  have hname : properties["name"]? = some (.scalar (.str nodeName)) := by
    unfold stringColumn at hnodeName
    split at hnodeName
    · rename_i hsome
      cases hnodeName
      exact hsome
    · cases hnodeName
  rw [hbase]
  by_cases hstatus : "status" = name
  · subst hstatus
    rfl
  · rw [if_neg hstatus]
    by_cases heq : "name" = name
    · subst heq
      exact hname.symm
    · rw [if_neg heq, hget]
      have hmem : name ∈ capabilityProperties ↔ name ∈ ["description", "type", "confidence", "created_at"] := by
        simp [capabilityProperties, Ne.symm heq]
      simp only [hmem]

/-- What the audit row of a merge says to reverse: nothing is missing from it. -/
theorem derive_of_merged {g g₁ : Graph} {survivorId absorbedId : String} {plan : MergePlan ExpectedCounts}
    (h : CapabilityMerged g survivorId absorbedId plan g₁) :
    ∃ inputs, deriveCapabilityUnmergeInputs ⟨survivorId, absorbedId, some plan.before, some plan.after⟩ = .ok inputs ∧
      inputs.restore = (fun c => incomingSources plan.before.edges (EdgeClass.relType c) absorbedId) ∧
      inputs.restorePolicyId = governedIn plan.before.edges absorbedId ∧
      inputs.removePolicyEdge = ((governedIn plan.before.edges absorbedId).isSome &&
        !(governedIn plan.before.edges survivorId).isSome) ∧
      (∀ c, ∀ source ∈ inputs.remove c, source ∈ inputs.restore c) ∧
      ∀ name, inputs.absorbedProperties[name]? =
        if name ∈ capabilityProperties then propertyOf g ⟨"Capability", absorbedId⟩ name else none := by
  obtain ⟨scan, -, state, -, -, -, hread, hplan, -, -, -, -⟩ := h
  have hof := mergeStateOf_read hread
  obtain ⟨survivor, absorbed, valid, rfl⟩ := planCapabilityMerge_ok hplan
  obtain rfl := hof.survivor_id survivor valid.hasSurvivor
  obtain rfl := hof.absorbed_id absorbed valid.hasAbsorbed
  have hfind : (capabilityMergePlan state survivor absorbed).before.nodes.find?
      (fun n => n.label = "Capability" ∧ n.id = absorbed.id) = some (snapshotCapability absorbed) := by
    simp [capabilityMergePlan, snapshotCapability, valid.distinct]
  refine ⟨_, by simp only [deriveCapabilityUnmergeInputs, hfind]; rfl, rfl, rfl, rfl,
    fun c source hsource => (List.mem_filter.1 hsource).1, fun name => ?_⟩
  -- the snapshot was built from the node
  simp only [readCapabilityMergeState, Option.bind_eq_bind, Option.bind_eq_some_iff, Option.pure_def,
    Option.some.injEq] at hread
  obtain ⟨x, -, y, hy, ps, -, qs, -, rfl⟩ := hread
  obtain rfl : y = some absorbed := valid.hasAbsorbed
  unfold readNode at hy
  split at hy
  · cases hy
  · rename_i content hcontent
    obtain ⟨node, hnode, heq⟩ := Option.map_eq_some_iff.1 hy
    cases heq
    rw [propertyOf, hcontent]
    exact snapshotCapability_get hnode name

/-! ## The unmerge is accepted -/

theorem filter_edges_singleton {g : Graph} {q : EdgeKey → Bool} {key : EdgeKey} {p : PropertyMap}
    (hkey : q key = true) (hone : g.edgesAt key = {p}) (hnone : ∀ k, q k = true → k ≠ key → g.edgesAt k = 0) :
    (g.edges.filter fun e => q e.1 = true) = {(key, p)} := by
  refine ext_fiber fun k => ?_
  rw [fiber_filter]
  have hsingle : fiber ({(key, p)} : Multiset (EdgeKey × PropertyMap)) k = if key = k then {p} else 0 := by
    rw [← Multiset.cons_zero, fiber_cons, fiber_zero]
    rfl
  rw [hsingle]
  by_cases hk : key = k
  · subst hk
    rw [if_pos hkey, if_pos rfl]
    exact hone
  · rw [if_neg hk]
    split
    · exact hnone k ‹_› (Ne.symm hk)
    · rfl

section Unmerge

variable {g g₁ g₂ : Graph} {survivorId absorbedId : String} {plan : MergePlan ExpectedCounts}
  {inputs : CapabilityUnmergeInputs}

/-- What the query of the survivor's governors selects. -/
def governs (survivorId : String) (k : EdgeKey) : Bool :=
  governorPattern.Selects k.record ∧ decide (k.record.sourceId = survivorId) = true

theorem governs_iff {k : EdgeKey} : governs survivorId k = true ↔ k.record = governedBy survivorId k.record.targetId := by
  rw [governs, decide_eq_true_eq, decide_eq_true_eq]
  generalize k.record = r
  cases r
  simp [EdgePattern.Selects, governorPattern, governedBy]
  tauto

/-- The governing edges of the survivor after the merge: one, to the Policy of the absorbed Capability. -/
theorem governing_rows (hmerged : CapabilityMerged g survivorId absorbedId plan g₁) {policyId : String}
    (hshow : Shows g (governedBy absorbedId policyId)) :
    ∃ e, (g₁.edges.filter fun e => governs survivorId e.1 = true) = {e} ∧ e.1.record.targetId = policyId := by
  have h := mergedInto_of_merged hmerged
  have hof : ∀ k : EdgeKey, governs survivorId k = true → OfCapability survivorId k.record :=
    fun k hk => .inr ⟨_, governs_iff.1 hk⟩
  by_cases hgoverned : Governed g survivorId
  · -- the survivor keeps the edge it had
    have hsame : ∀ k, governs survivorId k = true → g₁.edgesAt k = g.edgesAt k := by
      intro k hk
      refine (h.edgesAt (hof k hk) h.distinct).2 fun ⟨hbrings, _⟩ => ?_
      rcases hbrings with ⟨c, source, hclass, -⟩ | ⟨q, -, hnot, -⟩
      · rw [governs_iff.1 hk] at hclass
        exact relType_ne_governed c (congrArg EdgeRecord.relType hclass.symm)
      · exact hnot hgoverned
    rw [filter_edges_congr hsame]
    obtain ⟨scan, -, state, -, -, -, hread, hplan, -⟩ := hmerged
    obtain ⟨survivor, absorbed, valid, -⟩ := planCapabilityMerge_ok hplan
    simp only [readCapabilityMergeState, Option.bind_eq_bind, Option.bind_eq_some_iff, Option.pure_def,
      Option.some.injEq] at hread
    obtain ⟨x, -, y, -, ps, hps, qs, -, rfl⟩ := hread
    have hrows : (g.edges.filter fun e => governs survivorId e.1 = true) =
        (storedRows scan g governorPattern fun e => e.sourceId = survivorId : List (EdgeKey × PropertyMap)) := by
      rw [storedRows, scan.perm]
      refine Multiset.filter_congr fun e _ => ?_
      rw [governs, decide_eq_true_eq]
    have hlength := congrArg List.length (@map_eq_of_mapM _ _ _ _ (fun _ => ()) (fun _ => ()) _ _ hps fun _ _ _ => rfl)
    rw [List.length_map, List.length_map, edgeRows, List.length_map] at hlength
    have hcard : Multiset.card (g.edges.filter fun e => governs survivorId e.1 = true) ≤ 1 := by
      rw [hrows, Multiset.coe_card, ← hlength]
      exact valid.onePolicy.1
    obtain ⟨q, stored, hstored, hrecord⟩ := hgoverned
    have hmem : stored ∈ g.edges.filter fun e => governs survivorId e.1 = true := by
      refine Multiset.mem_filter.2 ⟨hstored, governs_iff.2 ?_⟩
      rw [hrecord]
      rfl
    obtain ⟨e, he⟩ := Multiset.card_eq_one.1 (Nat.le_antisymm hcard (Multiset.card_pos_iff_exists_mem.2 ⟨_, hmem⟩))
    refine ⟨e, he, ?_⟩
    rw [he, Multiset.mem_singleton] at hmem
    rw [← hmem, hrecord]
    exact h.samePolicy q policyId ⟨stored, hstored, hrecord⟩ hshow
  · -- the merge brings it
    have hbrings : Brings g survivorId absorbedId (governedBy survivorId policyId) := .inr ⟨policyId, rfl, hgoverned, hshow⟩
    have hnone : ∀ k, governs survivorId k = true → g.edgesAt k = 0 := by
      intro k hk
      refine edgesAt_eq_zero_of_not_shows fun hshow => hgoverned ⟨k.record.targetId, ?_⟩
      rw [← governs_iff.1 hk]
      exact hshow
    have hkey : governs survivorId (governedBy survivorId policyId).base.edgeKey = true := governs_iff.2 rfl
    refine ⟨((governedBy survivorId policyId).base.edgeKey, ∅), filter_edges_singleton hkey ?_ fun k hk hne => ?_, rfl⟩
    · rw [(h.edgesAt (hof _ hkey) h.distinct).1 ⟨hbrings, rfl⟩, hnone _ hkey]
      rfl
    · rw [(h.edgesAt (hof k hk) h.distinct).2, hnone k hk]
      rintro ⟨hb, hstandard⟩
      refine hne ?_
      rcases hb with ⟨c, source, hclass, -⟩ | ⟨q, heq, -, hq⟩
      · rw [governs_iff.1 hk] at hclass
        exact absurd (congrArg EdgeRecord.relType hclass.symm) (relType_ne_governed c)
      · rw [← h.onePolicy q policyId hq hshow, ← heq]
        exact hstandard.symm

/-- A node that the merge leaves alone is still there. -/
theorem MergedInto.mem_nodes (h : MergedInto g survivorId absorbedId plan g₁) {n : NodeRef}
    (hcapability : n ≠ ⟨"Capability", absorbedId⟩) (hmarker : n ≠ ⟨"MergedCapability", absorbedId⟩)
    (hreview : n.label ≠ "PendingReview") (hmem : n ∈ g.nodes) : n ∈ g₁.nodes := by
  rw [ExtTreeMap.mem_iff_isSome_getElem?, h.nodes n hcapability hmarker hreview]
  exact ExtTreeMap.mem_iff_isSome_getElem?.1 hmem

/-- The survivor of an accepted merge. -/
theorem CapabilityMerged.survivor (h : CapabilityMerged g survivorId absorbedId plan g₁) :
    ∃ survivor, readNode g "Capability" survivorId (nodeState survivorId) = some (some survivor) ∧
      survivor.status = "active" := by
  obtain ⟨scan, -, state, -, -, -, hread, hplan, -⟩ := h
  obtain ⟨survivor, absorbed, valid, -⟩ := planCapabilityMerge_ok hplan
  simp only [readCapabilityMergeState, Option.bind_eq_bind, Option.bind_eq_some_iff, Option.pure_def,
    Option.some.injEq] at hread
  obtain ⟨x, hx, y, -, ps, -, qs, -, rfl⟩ := hread
  obtain rfl : x = some survivor := valid.hasSurvivor
  exact ⟨survivor, hx, valid.survivorActive⟩

/-- The marker an accepted merge leaves. -/
theorem MergedInto.markerTargets (h : MergedInto g survivorId absorbedId plan g₁) :
    readMarkerTargets g₁ absorbedId = some [survivorId] :=
  readMarkers_merged h.marker

/-- What is read to plan the unmerge right after the merge. -/
structure ReadAfterMerge (g₁ : Graph) (inputs : CapabilityUnmergeInputs) (state : CapabilityUnmergeState) : Prop where
  absorbedGone : state.absorbedStatus = none
  survivorActive : ∃ survivor, state.survivor = some survivor ∧ survivor.status = "active"
  targets : inputs.survivorId ∈ state.absorbedTargets
  edges : ∀ c source, source ∈ incomingSources state.survivorEdges (EdgeClass.relType c) inputs.survivorId ↔
    Shows g₁ (classEdge c source inputs.survivorId)
  endpoints : ∀ c, ∀ source ∈ inputs.restore c, source ∈ state.existingEndpoints c
  policy : ∀ policyId, inputs.restorePolicyId = some policyId →
    state.policyExists = true ∧ state.survivorPolicyIds = [policyId]

theorem readAfterMerge (hmerged : CapabilityMerged g survivorId absorbedId plan g₁)
    (hinputs : deriveCapabilityUnmergeInputs ⟨survivorId, absorbedId, some plan.before, some plan.after⟩ = .ok inputs)
    {scan : ScanOrder} {state : CapabilityUnmergeState}
    (hread : readCapabilityUnmergeState scan g₁ inputs = some state) : ReadAfterMerge g₁ inputs state := by
  have h := mergedInto_of_merged hmerged
  obtain ⟨hs, ha, -⟩ := takesBack_iff h hinputs
  obtain ⟨inputs', hinputs', hrestore, hpolicy, -, -, -⟩ := derive_of_merged hmerged
  obtain rfl : inputs = inputs' := Except.ok.inj (hinputs.symm.trans hinputs')
  simp only [readCapabilityUnmergeState, Option.bind_eq_bind, Option.bind_eq_some_iff, Option.pure_def,
    Option.some.injEq] at hread
  obtain ⟨x, hx, y, hy, ts, hts, us, -, rfl⟩ := hread
  refine ⟨?_, ?_, ?_, fun c source => mem_survivorEdges, fun c source hsource => ?_, fun policyId hid => ⟨?_, ?_⟩⟩
  · rw [ha, readNode, h.gone] at hy
    cases hy
    rfl
  · -- the survivor is the one the merge was planned with
    obtain ⟨survivor, hsurvivor, hactive⟩ := hmerged.survivor
    rw [hs, readNode, (h.other_nodes h.distinct).1, ← readNode, hsurvivor] at hx
    exact ⟨survivor, (Option.some.inj hx).symm, hactive⟩
  · rw [ha, h.markerTargets] at hts
    cases hts
    exact List.mem_singleton.2 hs
  · rw [hrestore] at hsource
    have hshow := (h.before_sources c source (.inr rfl)).1 hsource
    have hmem := h.mem_nodes (n := ⟨c.sourceLabel, source⟩) (by cases c <;> simp [EdgeClass.sourceLabel])
      (by cases c <;> simp [EdgeClass.sourceLabel]) (by cases c <;> simp [EdgeClass.sourceLabel]) hshow.ends.1
    refine mem_sortedList.2 (List.mem_filter.2 ⟨?_, decide_eq_true hmem⟩)
    rw [hrestore]
    exact hsource
  · have hshow := (h.before_governed (.inr rfl)).1 policyId (hpolicy ▸ hid)
    have hmem := h.mem_nodes (n := ⟨"Policy", policyId⟩) (by simp) (by simp) (by simp) hshow.ends.2
    rw [hid]
    exact decide_eq_true hmem
  · have hshow := (h.before_governed (.inr rfl)).1 policyId (hpolicy ▸ hid)
    obtain ⟨e, he, htarget⟩ := governing_rows hmerged hshow
    have hrows : (edgeRows scan g₁ governorPattern fun e => e.sourceId = inputs.survivorId) = [e.1.record] := by
      refine edgeRows_one ?_
      rw [← he, hs]
      exact Multiset.filter_congr fun e _ => by simp only [governs, decide_eq_true_eq]
    rw [hrows, List.map_singleton, htarget]
    rfl

/-- **The unmerge is accepted**: its plan, and the guard on what is read again. -/
theorem unmerge_accepted (hmerged : CapabilityMerged g survivorId absorbedId plan g₁)
    (hinputs : deriveCapabilityUnmergeInputs ⟨survivorId, absorbedId, some plan.before, some plan.after⟩ = .ok inputs)
    {scan scan' : ScanOrder} {state later : CapabilityUnmergeState}
    (hread : readCapabilityUnmergeState scan g₁ inputs = some state)
    (hlater : readCapabilityUnmergeState scan' g₁ inputs = some later) :
    ∃ write, planCapabilityUnmerge inputs state = .ok write ∧
      capabilityUnmergeGuardHolds later write inputs.survivorId = true := by
  have hnow := readAfterMerge hmerged hinputs hread
  have hthen := readAfterMerge hmerged hinputs hlater
  obtain ⟨survivor, hsurvivor, hactive⟩ := hnow.survivorActive
  obtain ⟨survivor', hsurvivor', hactive'⟩ := hthen.survivorActive
  have hmissing : missingEndpoints inputs state = [] := by
    rw [missingEndpoints, sortedIds]
    have hnil : (EdgeClass.all.flatMap fun c => (inputs.restore c).filter fun id => id ∉ state.existingEndpoints c) = [] := by
      refine List.flatMap_eq_nil_iff.2 fun c _ => List.filter_eq_nil_iff.2 fun source hsource => ?_
      simpa using hnow.endpoints c source hsource
    rw [hnil, List.toFinset_nil, Finset.sort_empty]
  have hgovernance : checkGovernance inputs state = .ok () := by
    unfold checkGovernance
    split
    · rfl
    · rename_i policyId hid
      obtain ⟨hexists, hids⟩ := hnow.policy policyId hid
      have hsorted : sortedList state.survivorPolicyIds = [policyId] := by rw [hids]; rfl
      simp [refuseIf, hexists, hsorted, bind, Except.bind]
  refine ⟨⟨inputs.restore, fun c => (inputs.remove c).filter fun source =>
    source ∈ incomingSources state.survivorEdges c.relType inputs.survivorId, inputs.restorePolicyId,
    inputs.removePolicyEdge, inputs.absorbedProperties.insert "status" (.scalar (.str "active"))⟩, ?_, ?_⟩
  · simp only [planCapabilityUnmerge, checkMarkerState, checkSurvivor, checkEndpoints, hnow.absorbedGone, hnow.targets,
      hsurvivor, hactive, hmissing, hgovernance, refuseIf, if_true, ne_eq, not_true, if_false, bind, Except.bind]
    rfl
  · simp only [capabilityUnmergeGuardHolds, hthen.absorbedGone, hsurvivor', Option.isNone_none, Option.any_some, hactive',
      hthen.targets, decide_true, Bool.true_and, Bool.and_eq_true, List.all_eq_true, decide_eq_true_eq, List.mem_filter]
    refine ⟨⟨fun c _ => ⟨fun source hsource => hthen.endpoints c source hsource, fun source hsource => ?_⟩, ?_⟩, ?_⟩
    · exact (hthen.edges c source).2 ((hnow.edges c source).1 hsource.2)
    · cases hid : inputs.restorePolicyId with
      | none => rfl
      | some policyId => simp [(hthen.policy policyId hid).1]
    · cases hid : inputs.restorePolicyId with
      | none =>
        have hflag : inputs.removePolicyEdge = false := by
          obtain ⟨inputs', hinputs', -, hpolicy, hflag, -, -⟩ := derive_of_merged hmerged
          obtain rfl : inputs = inputs' := Except.ok.inj (hinputs.symm.trans hinputs')
          rw [hflag, ← hpolicy, hid]
          rfl
        simp [hflag]
      | some policyId => simp [(hthen.policy policyId hid).2]

/-! ## The unmerge is written -/

/-- **A company graph as the gateway writes it**: no blank id, no value it refuses, and markers that name a node. -/
structure GatewayWritten (g : Graph) : Prop where
  ids : ∀ n ∈ g.nodes, isNonBlank n.id = true
  values : ∀ (n : NodeRef) (name : String) (v : PropertyValue), propertyOf g n name = some v →
    isValidPropertyValue v.toPy = true
  markers : ∀ id, (readMarkerTargets g id).isSome = true

/-- **A company graph as the gateway writes it**, its markers of one kind included. -/
structure WrittenWith (marker : String) (g : Graph) : Prop where
  ids : ∀ n ∈ g.nodes, isNonBlank n.id = true
  values : ∀ (n : NodeRef) (name : String) (v : PropertyValue), propertyOf g n name = some v →
    isValidPropertyValue v.toPy = true
  markers : ∀ id, (readMarkers marker g id).isSome = true

/-- A graph without such markers, looked through node by node. -/
theorem writtenWith_of_all {marker : String} {g : Graph}
    (h : (g.nodes.toList.all fun n => isNonBlank n.1.id && decide (n.1.label ≠ marker) &&
      n.2.properties.toList.all fun p => isValidPropertyValue p.2.toPy) = true) : WrittenWith marker g := by
  have hnode : ∀ (n : NodeRef) (content : NodeContent), g.nodes[n]? = some content → isNonBlank n.id = true ∧
      n.label ≠ marker ∧ (content.properties.toList.all fun p => isValidPropertyValue p.2.toPy) = true := by
    intro n content hcontent
    have hthis := List.all_eq_true.1 h _ (ExtTreeMap.mem_toList_iff_getElem?_eq_some.2 hcontent)
    simp only [Bool.and_eq_true, decide_eq_true_eq] at hthis
    exact ⟨hthis.1.1, hthis.1.2, hthis.2⟩
  refine ⟨fun n hn => ?_, fun n name v hv => ?_, fun id => ?_⟩
  · obtain ⟨content, hcontent⟩ := Option.isSome_iff_exists.1 (ExtTreeMap.mem_iff_isSome_getElem?.1 hn)
    exact (hnode n content hcontent).1
  · obtain ⟨content, hcontent, hget⟩ := Option.bind_eq_some_iff.1 hv
    exact List.all_eq_true.1 (hnode n content hcontent).2.2 _ (ExtTreeMap.mem_toList_iff_getElem?_eq_some.2 hget)
  · unfold readMarkers
    split
    · rfl
    · rename_i content hcontent
      exact absurd rfl (hnode _ content hcontent).2.1

theorem accept_capability_isSome {id : String} {properties : PropertyMap} (hid : isNonBlank id = true)
    (hproperties : ∀ (name : String) (v : PropertyValue), properties[name]? = some v →
      name ∈ "status" :: capabilityProperties ∧ isValidPropertyValue v.toPy = true) :
    (RawPrimitive.upsertNode "Capability" id (propertiesPy properties) none).accept.isSome = true :=
  accept_node_isSome _ (by decide) hid (by decide) hproperties

/-- **The unmerge group is built**, right after the merge. -/
theorem unmerge_built (hmerged : CapabilityMerged g survivorId absorbedId plan g₁) (hwritten : GatewayWritten g)
    (hinputs : deriveCapabilityUnmergeInputs ⟨survivorId, absorbedId, some plan.before, some plan.after⟩ = .ok inputs)
    {state : CapabilityUnmergeState} {write : CapabilityUnmergeWrite}
    (hplan : planCapabilityUnmerge inputs state = .ok write) :
    (buildGroup (capabilityUnmergePrimitives write absorbedId survivorId)).isSome = true := by
  have h := mergedInto_of_merged hmerged
  obtain ⟨hs, ha, htakes⟩ := takesBack_iff h hinputs
  obtain ⟨inputs', hinputs', hrestore, hpolicy, -, hremove, hproperties⟩ := derive_of_merged hmerged
  obtain rfl : inputs = inputs' := Except.ok.inj (hinputs.symm.trans hinputs')
  simp only [planCapabilityUnmerge, bind_ok] at hplan
  obtain ⟨-, -, -, -, -, -, -, -, hwrite⟩ := hplan
  cases hwrite
  have habsorbed := hwritten.ids _ h.absorbed_mem
  have hsurvivor := hwritten.ids _ (mem_of_readNode hmerged.survivor.choose_spec.1)
  have hidentifiers : ∀ c : EdgeClass, isIdentifier c.relType = true ∧ isIdentifier c.sourceLabel = true := by
    intro c
    cases c <;> decide
  have hcapability : isIdentifier "Capability" = true := by decide
  have hgovernedBy : isIdentifier "GOVERNED_BY" = true := by decide
  have hpolicyLabel : isIdentifier "Policy" = true := by decide
  have hmarker : isIdentifier "MergedCapability" = true := by decide
  -- each edge is between nodes of the graph
  have hclass : ∀ c source id, id = survivorId ∨ id = absorbedId → source ∈ inputs.restore c →
      (classEdge c source id).raw.accept.isSome = true := by
    intro c source id hid hsource
    rw [hrestore] at hsource
    have hends := ((h.before_sources c source (.inr rfl)).1 hsource).ends
    refine accept_edge_isSome (hidentifiers c).1 ⟨(hidentifiers c).2, hwritten.ids _ hends.1⟩ ⟨hcapability, ?_⟩
    rcases hid with rfl | rfl
    · exact hsurvivor
    · exact habsorbed
  have hgoverned : ∀ policyId id, id = survivorId ∨ id = absorbedId → inputs.restorePolicyId = some policyId →
      (governedBy id policyId).raw.accept.isSome = true := by
    intro policyId id hid hrestored
    have hends := ((h.before_governed (.inr rfl)).1 policyId (hpolicy ▸ hrestored)).ends
    refine accept_edge_isSome hgovernedBy ⟨hcapability, ?_⟩ ⟨hpolicyLabel, hwritten.ids _ hends.2⟩
    rcases hid with rfl | rfl
    · exact hsurvivor
    · exact habsorbed
  refine buildGroup_isSome fun raw hraw => ?_
  simp only [capabilityUnmergePrimitives, List.mem_append, List.mem_flatMap, List.mem_map, List.mem_singleton] at hraw
  rcases hraw with (((rfl | ⟨c, -, source, hsource, rfl⟩) | ⟨c, -, source, hsource, rfl⟩) | hraw) | rfl
  · refine accept_capability_isSome habsorbed fun name v hv => ?_
    rw [ExtTreeMap.getElem?_insert] at hv
    split at hv
    · rename_i hstatus
      cases hv
      exact ⟨by simp [Std.compare_eq_iff_eq.1 hstatus], rfl⟩
    · rw [hproperties] at hv
      split at hv
      · exact ⟨List.mem_cons_of_mem _ ‹_›, hwritten.values _ _ _ hv⟩
      · cases hv
  · exact (accept_records_isSome (hclass c source absorbedId (.inr rfl) hsource)).1
  · have hmoved := hremove c source (List.mem_filter.1 hsource).1
    exact (accept_records_isSome (hclass c source survivorId (.inl rfl) hmoved)).2
  · unfold governedPrimitives at hraw
    split at hraw
    · exact absurd hraw List.not_mem_nil
    · rename_i policyId hid
      rcases List.mem_append.1 hraw with hraw | hraw
      · rw [List.mem_singleton.1 hraw]
        exact (accept_records_isSome (hgoverned policyId absorbedId (.inr rfl) hid)).1
      · split at hraw
        · rw [List.mem_singleton.1 hraw]
          exact (accept_records_isSome (hgoverned policyId survivorId (.inl rfl) hid)).2
        · exact absurd hraw List.not_mem_nil
  · simp only [RawPrimitive.accept, acceptNodeRef, hmarker, habsorbed]
    rfl

/-- What the unmerge reads after the merge can be read. -/
theorem unmerge_readable (hmerged : CapabilityMerged g survivorId absorbedId plan g₁) (hwritten : GatewayWritten g)
    (hinputs : deriveCapabilityUnmergeInputs ⟨survivorId, absorbedId, some plan.before, some plan.after⟩ = .ok inputs)
    (scan : ScanOrder) : ∃ state, readCapabilityUnmergeState scan g₁ inputs = some state := by
  have h := mergedInto_of_merged hmerged
  obtain ⟨hs, ha, -⟩ := takesBack_iff h hinputs
  obtain ⟨survivor, hsurvivor, -⟩ := hmerged.survivor
  have hx : readNode g₁ "Capability" inputs.survivorId (nodeState inputs.survivorId) = some (some survivor) := by
    rw [hs, readNode, (h.other_nodes h.distinct).1, ← readNode, hsurvivor]
  have hy : readNode g₁ "Capability" inputs.absorbedId (nodeState inputs.absorbedId) = some none := by
    rw [ha, readNode, h.gone]
  have hmarker : readMarkerTargets g₁ inputs.absorbedId = some [survivorId] := by
    rw [ha]
    exact h.markerTargets
  obtain ⟨targets, htargets⟩ := Option.isSome_iff_exists.1 (hwritten.markers survivorId)
  have hother : readMarkerTargets g₁ inputs.survivorId = some targets := by
    rw [hs, readMarkerTargets, (h.other_nodes h.distinct).2, ← readMarkerTargets, htargets]
  simp only [readCapabilityUnmergeState, hx, hy, hmarker, hother]
  exact ⟨_, rfl⟩

/-! ## The absorbed Capability comes back -/

/-- The unmerge puts the edge back on the absorbed Capability. -/
def Restores (inputs : CapabilityUnmergeInputs) (r : EdgeRecord) : Prop :=
  (∃ c source, r = classEdge c source inputs.absorbedId ∧ source ∈ inputs.restore c) ∨
    ∃ policyId, r = governedBy inputs.absorbedId policyId ∧ inputs.restorePolicyId = some policyId

/-- What is put back is what the absorbed Capability had. -/
theorem restores_iff (hmerged : CapabilityMerged g survivorId absorbedId plan g₁)
    (hinputs : deriveCapabilityUnmergeInputs ⟨survivorId, absorbedId, some plan.before, some plan.after⟩ = .ok inputs)
    (r : EdgeRecord) : Restores inputs r ↔ OfCapability absorbedId r ∧ Shows g r := by
  have h := mergedInto_of_merged hmerged
  obtain ⟨-, ha, -⟩ := takesBack_iff h hinputs
  obtain ⟨inputs', hinputs', hrestore, hpolicy, -, -, -⟩ := derive_of_merged hmerged
  obtain rfl : inputs = inputs' := Except.ok.inj (hinputs.symm.trans hinputs')
  have habsorbed := h.before_governed (.inr rfl)
  rw [Restores, hrestore, hpolicy, ha]
  simp only [h.before_sources _ _ (.inr rfl)]
  constructor
  · rintro (⟨c, source, rfl, hshow⟩ | ⟨policyId, rfl, hid⟩)
    · exact ⟨.inl ⟨c, source, rfl⟩, hshow⟩
    · exact ⟨.inr ⟨policyId, rfl⟩, habsorbed.1 policyId hid⟩
  · rintro ⟨⟨c, source, rfl⟩ | ⟨policyId, rfl⟩, hshow⟩
    · exact .inl ⟨c, source, rfl, hshow⟩
    · refine .inr ⟨policyId, rfl, ?_⟩
      cases hfound : governedIn plan.before.edges absorbedId with
      | none => exact absurd ⟨policyId, hshow⟩ (habsorbed.2 hfound)
      | some q => rw [h.onePolicy q policyId (habsorbed.1 q hfound) hshow]

/-- The unmerge's writes at a key of the absorbed Capability: nothing it removes is there. -/
theorem unmerge_absorbed_edgesAt {write : CapabilityUnmergeWrite} {k : EdgeKey} (hk : OfCapability absorbedId k.record)
    (hne : survivorId ≠ absorbedId)
    (hends : k.record ∈ restoredClassEdges write absorbedId ∨ k.record ∈ restoredGoverned write absorbedId →
      (applyOne g₁ (.upsertNode ⟨"Capability", absorbedId⟩ write.properties none)).hasEnds k = true)
    {ps : List Primitive} (hps : buildGroup (capabilityUnmergePrimitives write absorbedId survivorId) = some ps) :
    (applyAll g₁ ps).edgesAt k =
      if (k.record ∈ restoredClassEdges write absorbedId ∨ k.record ∈ restoredGoverned write absorbedId) ∧ k.Standard
      then settled (g₁.edgesAt k) else g₁.edgesAt k := by
  have hclass : ¬ (k.record ∈ removedClassEdges write survivorId ∧ k.Standard) := by
    rintro ⟨hin, -⟩
    simp only [removedClassEdges, List.mem_flatMap, List.mem_map] at hin
    obtain ⟨c, -, source, -, heq⟩ := hin
    exact hne.symm (hk.eq (.inl ⟨c, source, heq.symm⟩))
  have hgoverned : ¬ (k.record ∈ removedGoverned write survivorId ∧ k.Standard) := by
    rintro ⟨hin, -⟩
    unfold removedGoverned at hin
    split at hin
    · obtain ⟨policyId, -, heq⟩ := List.mem_map.1 hin
      exact hne.symm (hk.eq (.inr ⟨policyId, heq.symm⟩))
    · exact List.not_mem_nil hin
  have hlater : k.record ∈ restoredGoverned write absorbedId → (applyAll (applyAll (applyOne g₁ (.upsertNode
      ⟨"Capability", absorbedId⟩ write.properties none)) ((restoredClassEdges write absorbedId).map fun e =>
        .upsertEdge e.base ∅)) ((removedClassEdges write survivorId).map fun e => .deleteEdge e.base)).hasEnds k = true := by
    intro hin
    rw [hasEnds_congr ((deletes_nodes _ _).trans (upserts_nodes _ _))]
    exact hends (.inr hin)
  rw [build_unmerge hps, applyAll_append, applyAll_append, applyAll_append, applyAll_append, applyAll_append,
    applyAll_cons, applyAll_cons, applyAll_nil, applyAll_nil,
    deleteNode_edgesAt_kept _ (hk.not_touches_label (.inr rfl) _), deletes_edgesAt, if_neg hgoverned,
    upserts_edgesAt hlater, deletes_edgesAt, if_neg hclass, upserts_edgesAt fun hin => hends (.inl hin),
    upsertNode_edgesAt]
  by_cases hstandard : k.Standard
  · by_cases hc : k.record ∈ restoredClassEdges write absorbedId <;>
      by_cases hg : k.record ∈ restoredGoverned write absorbedId <;> simp [hc, hg, hstandard]
  · simp [hstandard]

/-- **What an unmerge writes of the absorbed Capability**, where it was gone. -/
theorem unmerged_absorbed (hmerged : CapabilityMerged g survivorId absorbedId plan g₁)
    (hinputs : deriveCapabilityUnmergeInputs ⟨survivorId, absorbedId, some plan.before, some plan.after⟩ = .ok inputs)
    (hunmerged : CapabilityUnmerged g₁ inputs g₂) :
    (∀ k : EdgeKey, OfCapability absorbedId k.record → (Shows g k.record ∧ k.Standard → g₂.edgesAt k = {∅}) ∧
        (¬ (Shows g k.record ∧ k.Standard) → g₂.edgesAt k = 0)) ∧
      g₂.nodes[(⟨"Capability", absorbedId⟩ : NodeRef)]? =
        some ⟨inputs.absorbedProperties.insert "status" (.scalar (.str "active")), none⟩ ∧
      g₂.nodes[(⟨"MergedCapability", absorbedId⟩ : NodeRef)]? = none := by
  have h := mergedInto_of_merged hmerged
  obtain ⟨hs, ha, -⟩ := takesBack_iff h hinputs
  have hrestores := restores_iff hmerged hinputs
  obtain ⟨scan, scan', state, later, write, ps, hread, hplan, -, -, hbuilt, rfl⟩ := hunmerged
  simp only [planCapabilityUnmerge, bind_ok] at hplan
  obtain ⟨-, -, -, -, -, -, -, -, hwrite⟩ := hplan
  have hrestore : write.restore = inputs.restore := by cases hwrite; rfl
  have hpolicy : write.restorePolicyId = inputs.restorePolicyId := by cases hwrite; rfl
  have hproperties : write.properties = inputs.absorbedProperties.insert "status" (.scalar (.str "active")) := by
    cases hwrite
    rfl
  rw [hs, ha] at hbuilt
  -- the two upsert blocks together are what is put back
  have hmem : ∀ r, (r ∈ restoredClassEdges write absorbedId ∨ r ∈ restoredGoverned write absorbedId) ↔
      Restores inputs r := by
    intro r
    simp only [restoredClassEdges, restoredGoverned, hrestore, hpolicy, List.mem_flatMap, List.mem_map,
      Option.mem_toList, Restores, ha]
    constructor
    · rintro (⟨c, -, source, hsource, rfl⟩ | ⟨policyId, hid, rfl⟩)
      · exact .inl ⟨c, source, rfl, hsource⟩
      · exact .inr ⟨policyId, rfl, hid⟩
    · rintro (⟨c, source, rfl, hsource⟩ | ⟨policyId, rfl, hid⟩)
      · exact .inl ⟨c, mem_all c, source, hsource, rfl⟩
      · exact .inr ⟨policyId, hid, rfl⟩
  -- all endpoints exist once the node is there
  have hends : ∀ k : EdgeKey, Restores inputs k.record →
      (applyOne g₁ (.upsertNode ⟨"Capability", absorbedId⟩ write.properties none)).hasEnds k = true := by
    intro k hk
    obtain ⟨hof, hshow⟩ := (hrestores k.record).1 hk
    set recreated := applyOne g₁ (.upsertNode ⟨"Capability", absorbedId⟩ write.properties none) with hrecreated
    have hcapability : (⟨"Capability", absorbedId⟩ : NodeRef) ∈ recreated.nodes := by
      rw [ExtTreeMap.mem_iff_isSome_getElem?, hrecreated, applyOne_eq_write rfl, write_nodes]
      simp [nodeStep]
    have hother : ∀ n : NodeRef, n ∈ g.nodes → n.label ≠ "Capability" → n.label ≠ "MergedCapability" →
        n.label ≠ "PendingReview" → n ∈ recreated.nodes := by
      intro n hn hc hm hr
      have hcapability : n ≠ ⟨"Capability", absorbedId⟩ := fun heq => hc (by rw [heq])
      have hmarker : n ≠ ⟨"MergedCapability", absorbedId⟩ := fun heq => hm (by rw [heq])
      have hmem := h.mem_nodes hcapability hmarker hr hn
      rw [ExtTreeMap.mem_iff_isSome_getElem?, hrecreated, upsertNode_nodes _ _ _ hcapability.symm]
      exact ExtTreeMap.mem_iff_isSome_getElem?.1 hmem
    have hboth : k.record.source ∈ recreated.nodes ∧ k.record.target ∈ recreated.nodes := by
      obtain ⟨hsource, htarget⟩ := hshow.ends
      rcases hof with ⟨c, source, heq⟩ | ⟨policyId, heq⟩
      · rw [heq] at hsource ⊢
        have hlabel : (classEdge c source absorbedId).source.label = c.sourceLabel := rfl
        exact ⟨hother _ hsource (by rw [hlabel]; cases c <;> decide) (by rw [hlabel]; cases c <;> decide)
          (by rw [hlabel]; cases c <;> decide), hcapability⟩
      · rw [heq] at htarget ⊢
        have hlabel : (governedBy absorbedId policyId).target.label = "Policy" := rfl
        exact ⟨hcapability, hother _ htarget (by rw [hlabel]; decide) (by rw [hlabel]; decide)
          (by rw [hlabel]; decide)⟩
    simpa [hasEnds] using hboth
  have hgone : (⟨"Capability", absorbedId⟩ : NodeRef) ∉ g₁.nodes := by
    rw [ExtTreeMap.mem_iff_isSome_getElem?, h.gone]
    exact Bool.false_ne_true
  have hnone : ∀ k : EdgeKey, OfCapability absorbedId k.record → g₁.edgesAt k = 0 := by
    intro k hk
    refine edgesAt_eq_zero_of_not_shows fun hshow => ?_
    rcases hk with ⟨c, source, heq⟩ | ⟨policyId, heq⟩
    · rw [heq] at hshow
      exact hgone hshow.ends.2
    · rw [heq] at hshow
      exact hgone hshow.ends.1
  refine ⟨fun k hk => ?_, ?_, ?_⟩
  · have hiff : (k.record ∈ restoredClassEdges write absorbedId ∨ k.record ∈ restoredGoverned write absorbedId) ↔
        Shows g k.record := ((hmem _).trans (hrestores _)).trans (and_iff_right hk)
    rw [unmerge_absorbed_edgesAt hk h.distinct (fun hin => hends k ((hmem _).1 hin)) hbuilt, hnone k hk]
    exact ⟨fun hshown => if_pos ⟨hiff.2 hshown.1, hshown.2⟩, fun hnot => if_neg fun hin => hnot ⟨hiff.1 hin.1, hin.2⟩⟩
  · rw [build_unmerge hbuilt, applyAll_append, applyAll_append, applyAll_append, applyAll_append, applyAll_append,
      applyAll_cons, applyAll_cons, applyAll_nil, applyAll_nil, deleteNode_nodes_kept _ (by simp), deletes_nodes,
      upserts_nodes, deletes_nodes, upserts_nodes, applyOne_eq_write rfl, write_nodes, hproperties]
    simp only [nodeStep, if_true, h.gone, Option.getD_none, upsert_default]
  · rw [build_unmerge hbuilt, applyAll_append, applyAll_cons, applyAll_nil, applyOne_eq_write rfl, write_nodes]
    simp [nodeStep]

/-! ## The round trip -/

/-- **The survivor's edges, after merge and unmerge.** -/
theorem survivor_edges (h : MergedInto g survivorId absorbedId plan g₁) (hs : inputs.survivorId = survivorId)
    (htakes : ∀ r, TakesBack inputs r ↔ Brings g survivorId absorbedId r ∧ ¬ Shows g r)
    (hU : UnmergedFrom g₁ inputs g₂) {r : EdgeRecord} (hof : OfCapability survivorId r) : Shows g₂ r ↔ Shows g r := by
  have hmerge := h.shows hof h.distinct
  by_cases htaken : TakesBack inputs r
  · -- brought by the merge: gone again, under every identity
    obtain ⟨-, hnot⟩ := (htakes r).1 htaken
    refine iff_of_false (fun hshow => ?_) hnot
    obtain ⟨k, rfl, hk⟩ := shows_iff.1 hshow
    by_cases hstandard : k.Standard
    · exact hk (hU.taken k htaken hstandard)
    · rw [hU.kept k (hs ▸ hof) fun hin => hstandard hin.2, (h.edgesAt hof h.distinct).2 fun hin => hstandard hin.2] at hk
      exact hnot (shows_iff.2 ⟨k, rfl, hk⟩)
  · have hsame : Shows g₂ r ↔ Shows g₁ r := by
      rw [shows_iff, shows_iff]
      constructor
      · rintro ⟨k, rfl, hk⟩
        rw [hU.kept k (hs ▸ hof) fun hin => htaken hin.1] at hk
        exact ⟨k, rfl, hk⟩
      · rintro ⟨k, rfl, hk⟩
        refine ⟨k, rfl, ?_⟩
        rwa [hU.kept k (hs ▸ hof) fun hin => htaken hin.1]
    rw [hsame, hmerge]
    refine or_iff_left_of_imp fun hbrings => ?_
    by_contra hnot
    exact htaken ((htakes r).2 ⟨hbrings, hnot⟩)

/-- With plain edges, key by key. -/
theorem survivor_edgesAt (h : MergedInto g survivorId absorbedId plan g₁) (hs : inputs.survivorId = survivorId)
    (htakes : ∀ r, TakesBack inputs r ↔ Brings g survivorId absorbedId r ∧ ¬ Shows g r)
    (hU : UnmergedFrom g₁ inputs g₂) (hplain : PlainEdges g survivorId absorbedId) {k : EdgeKey}
    (hof : OfCapability survivorId k.record) : g₂.edgesAt k = g.edgesAt k := by
  by_cases htaken : TakesBack inputs k.record ∧ k.Standard
  · rw [hU.taken k htaken.1 htaken.2, edgesAt_eq_zero_of_not_shows ((htakes _).1 htaken.1).2]
  · rw [hU.kept k (hs ▸ hof) htaken]
    by_cases hbrings : Brings g survivorId absorbedId k.record ∧ k.Standard
    · rw [(h.edgesAt hof h.distinct).1 hbrings]
      -- the survivor had it already, and under this identity
      have hshow : Shows g k.record := by
        by_contra hnot
        exact htaken ⟨(htakes _).2 ⟨hbrings.1, hnot⟩, hbrings.2⟩
      obtain ⟨k', hrecord, hheld⟩ := shows_iff.1 hshow
      have hsame : k' = k := by
        have hstandard := (hplain k' (.inl (hrecord ▸ hof)) hheld).1
        rw [← hbrings.2, ← hrecord]
        exact hstandard.symm
      rw [settled, if_neg (hsame ▸ hheld)]
    · exact (h.edgesAt hof h.distinct).2 hbrings

end Unmerge

end PolicySystem
