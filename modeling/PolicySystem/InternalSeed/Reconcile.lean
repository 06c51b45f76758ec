import PolicySystem.Gateway.Redo
import PolicySystem.Gateway.ReplaceExact
import PolicySystem.InternalSeed.Primitives

/-!
# Resubmitting a seed

A submission is the whole document: what its graph holds beyond it is retired with the group that writes it
(`internal_seed/reconcile.py`). The plan is read before legacy edges are stamped, and applied after.

* `retired_nodes`, `retired_edges`: what the retirements leave;
* `resubmission_reconciles`: **after a submission the graph holds the document**, and what other writers put there.
-/

namespace PolicySystem.InternalSeed

open Std (ExtTreeMap)
open PropertyGraph GraphWrite PolicyLifecycle

/-! ## The plan -/

/-- `PersistedElements`: three sets, each as the list of its elements in their order. -/
structure PersistedElements where
  nodes : List NodeRef
  edges : List EdgeKey
  legacyEdges : List EdgeKey

/-- `read_persisted_elements`. -/
def readPersistedElements (scan : ScanOrder) (g : Graph) : PersistedElements :=
  let keys := (lastScanned scan g).keys
  ⟨g.nodes.keys, keys.filter fun k => k.identity ≠ none, keys.filter fun k => k.identity = none⟩

/-- An edge the seed can carry. -/
def InVocabulary (k : EdgeKey) : Prop :=
  k.type ∈ seedEdgeTypes ∧ k.source.label ∈ seedNodeLabels ∧ k.target.label ∈ seedNodeLabels

instance (k : EdgeKey) : Decidable (InVocabulary k) := inferInstanceAs (Decidable (_ ∧ _))

def upsertedNode : Primitive → Option NodeRef
  | .upsertNode node _ _ => some node
  | _ => none

def upsertedEdge : Primitive → Option EdgeKey
  | .upsertEdge edge _ => some edge.edgeKey
  | _ => none

section Plan

variable (persisted : PersistedElements) (upserts : List Primitive)

/-- `submitted_nodes`. -/
def submittedNodes : List NodeRef := upserts.filterMap upsertedNode

/-- `submitted_edges`. -/
def submittedEdges : List EdgeKey := upserts.filterMap upsertedEdge

/-- `gone_nodes`. -/
def goneNodes : List NodeRef :=
  persisted.nodes.filter fun n => n.label ∈ seedNodeLabels ∧ n ∉ submittedNodes upserts

/-- `gone_edges`. -/
def goneEdges : List EdgeKey :=
  persisted.edges.filter fun k => InVocabulary k ∧ k ∉ submittedEdges upserts

/-- `gone_legacy`: what no submitted edge has the shape of. -/
def goneLegacy : List EdgeKey :=
  persisted.legacyEdges.filter fun k => InVocabulary k ∧ k ∉ (submittedEdges upserts).map EdgeKey.bare

/-- The fields of a persisted edge, with the identity it is named by. -/
def rawEdge (k : EdgeKey) : RawEdge :=
  ⟨k.type, k.stamped.identity, (k.source.label, k.source.id), (k.target.label, k.target.id)⟩

/-- `_stamp_then_delete`. -/
def stampThenDelete (k : EdgeKey) : List RawPrimitive := [.stampEdgeIdentity (rawEdge k), .deleteEdge (rawEdge k)]

/-- `retirement_primitives`. -/
def retirementPrimitives : Except SeedError (List Primitive) :=
  let retirements := (goneLegacy persisted upserts).flatMap stampThenDelete ++
    (goneEdges persisted upserts).map (fun k => .deleteEdge (rawEdge k)) ++
    (goneNodes persisted upserts).map fun n => .deleteNode n.label n.id
  match retirements.mapM RawPrimitive.accept with
  | some primitives => .ok primitives
  | none => .error .unnameable

/-- `prepare_group`: the upserts, then the retirements. -/
def prepareGroup (scan : ScanOrder) (g : Graph) : Except SeedError (List Primitive) := do
  return upserts ++ (← retirementPrimitives (readPersistedElements scan g) upserts)

end Plan

/-- The names of `label_allow_list.py`. -/
def gatewayAllowList : AllowList where
  nodeLabels := seedNodeLabels ++
    ["MergedCapability", "MergedObligation", "MergedRole", "ResolvedCapability", "PendingReview", "ReingestProgress",
      "TITLE", "CHAPTER", "SECTION", "ARTICLE", "PARAGRAPH", "ANNEX", "RECITAL"]
  relationshipTypes := seedEdgeTypes ++ ["SUPERSEDED_BY", "TRANSPOSES"]

/-- The graph once `stamp_legacy_edges_before_first_write` has run. -/
def stampedFirst (scan : ScanOrder) (g : Graph) : Graph :=
  applyAll g ((scanUnidentifiedEdges gatewayAllowList scan g).map .stampEdgeIdentity)

/-- What a submission makes of a graph. -/
def submitted (scan : ScanOrder) (g : Graph) (plan : List Primitive) : Graph := applyAll (stampedFirst scan g) plan

/-! ## The stamp -/

section Stamp

variable {scan : ScanOrder} {g : Graph}

theorem stampedFirst_nodes (n : NodeRef) : (stampedFirst scan g).nodes[n]? = g.nodes[n]? := by
  unfold stampedFirst
  rw [applyAll_stamps_nodes]

/-- An identity-less edge of the vocabulary is among those that are stamped. -/
theorem scanned_of_vocabulary {k : EdgeKey} (hk : k.identity = none) (hvocabulary : InVocabulary k)
    (hthere : g.edgesAt k ≠ 0) : k.stamped ∈ scanUnidentifiedEdges gatewayAllowList scan g := by
  have hkey := stamped_unidentified hk
  refine mem_scanUnidentifiedEdges.2 ⟨by rw [hkey], by rw [hkey]; exact hthere, ?_⟩
  have htype : k.stamped.type = k.type := by
    cases k
    cases hk
    rfl
  simp only [Primitive.isAllowed, stamped_source, stamped_target, htype, decide_eq_true_eq, gatewayAllowList,
    List.mem_append]
  exact ⟨.inl hvocabulary.2.1, .inl hvocabulary.2.2, .inl hvocabulary.1⟩

/-- **No edge of the vocabulary is without its identity once the stamp has run.** -/
theorem stampedFirst_legacy {k : EdgeKey} (hk : k.identity = none) (hvocabulary : InVocabulary k) :
    (stampedFirst scan g).edgesAt k = 0 := by
  by_cases hthere : g.edgesAt k = 0
  · exact applyAll_unidentified hk hthere _
  · have hscanned : k.stamped ∈ scanUnidentifiedEdges gatewayAllowList scan g :=
      scanned_of_vocabulary hk hvocabulary hthere
    have hclears := applyAll_clears (List.mem_map_of_mem hscanned) g
    rw [stamped_unidentified hk] at hclears
    exact hclears

/-- An edge of the vocabulary is joined by the legacy edges its identity is due to. -/
theorem stampedFirst_edges {k : EdgeKey} (hk : k.identity ≠ none) (hvocabulary : InVocabulary k) :
    (stampedFirst scan g).edgesAt k = liveEdges g k := by
  unfold stampedFirst liveEdges
  rw [applyAll_stamps_edgesAt (onePerPair_of_legacy fun e he => (mem_scanUnidentifiedEdges.1 he).1), if_neg hk]
  congr 1
  by_cases hdue : k.bare.stamped.edgeKey = k
  · rw [if_pos hdue]
    by_cases hlegacy : g.edgesAt k.bare = 0
    · rw [hlegacy, ite_self]
    · rw [if_pos ⟨k.bare.stamped, scanned_of_vocabulary rfl hvocabulary hlegacy, hdue⟩]
  · rw [if_neg hdue, if_neg]
    rintro ⟨e, he, rfl⟩
    have hstamped := (mem_scanUnidentifiedEdges.1 he).1
    exact hdue (congrArg EdgeBase.edgeKey hstamped)

end Stamp

/-! ## The upserts -/

section Upserts

variable {nodes : List (NodeRef × PropertyMap)} {edges : List (EdgeBase × PropertyMap)} {g : Graph}

/-- The primitives of nodes and edges. -/
def upsertsOf (nodes : List (NodeRef × PropertyMap)) (edges : List (EdgeBase × PropertyMap)) : List Primitive :=
  (nodes.map fun n => .upsertNode n.1 n.2 none) ++ edges.map fun e => .upsertEdge e.1 e.2

theorem submittedNodes_upsertsOf : submittedNodes (upsertsOf nodes edges) = nodes.map Prod.fst := by
  have hnodes : nodes.filterMap (fun n => upsertedNode (.upsertNode n.1 n.2 none)) = nodes.map Prod.fst :=
    congrFun List.filterMap_eq_map' nodes
  have hedges : edges.filterMap (fun e => upsertedNode (.upsertEdge e.1 e.2)) = [] :=
    List.filterMap_eq_nil_iff.2 fun _ _ => rfl
  unfold submittedNodes upsertsOf
  rw [List.filterMap_append, List.filterMap_map, List.filterMap_map]
  exact (congrArg₂ _ hnodes hedges).trans (List.append_nil _)

theorem submittedEdges_upsertsOf : submittedEdges (upsertsOf nodes edges) = edges.map fun e => e.1.edgeKey := by
  have hnodes : nodes.filterMap (fun n => upsertedEdge (.upsertNode n.1 n.2 none)) = [] :=
    List.filterMap_eq_nil_iff.2 fun _ _ => rfl
  have hedges : edges.filterMap (fun e => upsertedEdge (.upsertEdge e.1 e.2)) = edges.map fun e => e.1.edgeKey :=
    congrFun List.filterMap_eq_map' edges
  unfold submittedEdges upsertsOf
  rw [List.filterMap_append, List.filterMap_map, List.filterMap_map]
  exact congrArg₂ _ hnodes hedges

theorem upsertOnly_upsertsOf (nodes : List (NodeRef × PropertyMap)) (edges : List (EdgeBase × PropertyMap)) :
    UpsertOnly (upsertsOf nodes edges) := by
  intro p hp
  rcases List.mem_append.1 hp with hp | hp
  · obtain ⟨n, -, rfl⟩ := List.mem_map.1 hp
    exact .inl ⟨n.1, n.2, none, rfl⟩
  · obtain ⟨e, -, rfl⟩ := List.mem_map.1 hp
    exact .inr ⟨e.1, e.2, rfl⟩

/-- What a group of upserts gives is what it submits. -/
theorem legNodes_isSome {leg : List Primitive} (hleg : UpsertOnly leg) {n : NodeRef} :
    (legNodes leg)[n]?.isSome ↔ n ∈ submittedNodes leg := by
  constructor
  · intro hsome
    induction leg using List.reverseRecOn with
    | nil => simp [legNodes] at hsome
    | append_singleton leg p ih =>
      have ih := ih fun q hq => hleg q (by simp [hq])
      rw [legNodes_concat] at hsome
      unfold submittedNodes at ih ⊢
      rw [List.filterMap_append, List.mem_append]
      rcases hleg p (by simp) with ⟨m, props, e, rfl⟩ | ⟨e, props, rfl⟩
      · dsimp only at hsome
        by_cases hm : m = n
        · exact .inr (by simp [upsertedNode, hm])
        · rw [if_neg hm] at hsome
          exact .inl (ih hsome)
      · exact .inl (ih hsome)
  · intro hn
    obtain ⟨p, hp, hpn⟩ := List.mem_filterMap.1 hn
    rcases hleg p hp with ⟨m, props, e, rfl⟩ | ⟨e, props, rfl⟩
    · cases hpn
      obtain ⟨w, hw⟩ := legNodes_of_mem hp
      rw [hw]
      rfl
    · cases hpn

theorem legEdges_isSome {leg : List Primitive} (hleg : UpsertOnly leg) {k : EdgeKey} :
    (legEdges leg)[k]?.isSome ↔ k ∈ submittedEdges leg := by
  constructor
  · intro hsome
    induction leg using List.reverseRecOn with
    | nil => simp [legEdges] at hsome
    | append_singleton leg p ih =>
      have ih := ih fun q hq => hleg q (by simp [hq])
      rw [legEdges_concat] at hsome
      unfold submittedEdges at ih ⊢
      rw [List.filterMap_append, List.mem_append]
      rcases hleg p (by simp) with ⟨m, props, e, rfl⟩ | ⟨e, props, rfl⟩
      · exact .inl (ih hsome)
      · dsimp only at hsome
        by_cases hk : e.edgeKey = k
        · exact .inr (by simp [upsertedEdge, hk])
        · rw [if_neg hk] at hsome
          exact .inl (ih hsome)
  · intro hk
    obtain ⟨p, hp, hpk⟩ := List.mem_filterMap.1 hk
    rcases hleg p hp with ⟨m, props, e, rfl⟩ | ⟨e, props, rfl⟩
    · cases hpk
    · cases hpk
      obtain ⟨q, hq⟩ := legEdges_of_mem hp
      rw [hq]
      rfl

/-- **No upsert of a submission misses an end**: the nodes come first. -/
theorem upserts_valid (hseed : SeedUpserts nodes edges) (g : Graph) : ¬ MissingInTurn g (upsertsOf nodes edges) := by
  have hset : ∀ n ∈ nodes.map Prod.fst, ∃ props embedding,
      Primitive.upsertNode n props embedding ∈ nodes.map fun n => .upsertNode n.1 n.2 none := by
    intro n hn
    obtain ⟨m, hm, rfl⟩ := List.mem_map.1 hn
    exact ⟨m.2, none, List.mem_map.2 ⟨m, hm, rfl⟩⟩
  unfold upsertsOf
  refine nodesFirst_valid (fun p hp => ?_) (fun p hp => ?_) g
  · obtain ⟨n, -, rfl⟩ := List.mem_map.1 hp
    exact ⟨n.1, n.2, none, rfl⟩
  · obtain ⟨e, he, rfl⟩ := List.mem_map.1 hp
    exact ⟨e.1, e.2, rfl, hset _ (hseed.ends e he).1, hset _ (hseed.ends e he).2⟩

/-- A node the submission does not name is left as it was. -/
theorem upserts_other {leg : List Primitive} (hleg : UpsertOnly leg) {n : NodeRef} (hn : n ∉ submittedNodes leg) :
    (applyAll g leg).nodes[n]? = g.nodes[n]? := by
  have hnone : (legNodes leg)[n]? = none := by
    rw [← Option.not_isSome_iff_eq_none, legNodes_isSome hleg]
    exact hn
  rw [applyAll_leg_nodes hleg, hnone]
  cases g.nodes[n]? with
  | none => rfl
  | some v => exact congrArg some (over_default v)

/-- A node is there after the upserts where it was, or is submitted. -/
theorem upserts_mem {leg : List Primitive} (hleg : UpsertOnly leg) {n : NodeRef} :
    n ∈ (applyAll g leg).nodes ↔ n ∈ g.nodes ∨ n ∈ submittedNodes leg := by
  rw [ExtTreeMap.mem_iff_isSome_getElem?, ExtTreeMap.mem_iff_isSome_getElem?, applyAll_leg_nodes hleg,
    ← legNodes_isSome hleg]
  cases g.nodes[n]? with
  | none => simp
  | some v => simp

/-- Edges the submission does not name are left as they were. -/
theorem upserts_other_edges {leg : List Primitive} (hleg : UpsertOnly leg) (hvalid : ¬ MissingInTurn g leg)
    {k : EdgeKey} (hk : k ∉ submittedEdges leg) : (applyAll g leg).edgesAt k = g.edgesAt k := by
  have hnone : (legEdges leg)[k]? = none := by
    rw [← Option.not_isSome_iff_eq_none, legEdges_isSome hleg]
    exact hk
  rw [applyAll_leg_edges hleg hvalid, hnone]
  split
  · rename_i hzero
    rw [hzero]
    rfl
  · rw [Option.getD_none, Multiset.map_congr rfl fun q _ => union_empty q, Multiset.map_id']

/-- A submitted edge is there: as often as it was, once where it was not. -/
theorem upserts_edge_card {leg : List Primitive} (hleg : UpsertOnly leg) (hvalid : ¬ MissingInTurn g leg) {k : EdgeKey}
    (hk : k ∈ submittedEdges leg) : ((applyAll g leg).edgesAt k).card = max 1 (g.edgesAt k).card := by
  obtain ⟨q, hq⟩ := Option.isSome_iff_exists.1 ((legEdges_isSome hleg).2 hk)
  rw [applyAll_leg_edges hleg hvalid, hq]
  split
  · rename_i hzero
    rw [hzero]
    rfl
  · rename_i hsome
    have hpos : 0 < (g.edgesAt k).card := Multiset.card_pos.2 hsome
    rw [Multiset.card_map]
    omega

end Upserts

/-! ## The retirements -/

section Retirements

variable {scan : ScanOrder} {g : Graph} {upserts retirements : List Primitive}

/-- The retirements as primitives. -/
def retirementsOf (legacy edges : List EdgeKey) (nodes : List NodeRef) : List Primitive :=
  (legacy.flatMap fun k => [.stampEdgeIdentity k.stamped, .deleteEdge k.stamped]) ++
    (edges.map fun k => .deleteEdge k.stamped) ++ nodes.map .deleteNode

theorem rawEdge_accept {k : EdgeKey} {e : EdgeBase} (h : (rawEdge k).accept = some e) : e = k.stamped := by
  simp only [RawEdge.accept, rawEdge, Option.bind_eq_bind, Option.bind_eq_some_iff] at h
  obtain ⟨_, -, source, hsource, target, htarget, h⟩ := h
  cases h
  rw [acceptNodeRef_eq hsource, acceptNodeRef_eq htarget]
  cases k with
  | mk type source target identity => cases identity <;> rfl

theorem mapM_accept_append {xs ys : List RawPrimitive} {ps : List Primitive}
    (h : (xs ++ ys).mapM RawPrimitive.accept = some ps) :
    ∃ qs rs, xs.mapM RawPrimitive.accept = some qs ∧ ys.mapM RawPrimitive.accept = some rs ∧ ps = qs ++ rs := by
  rw [List.mapM_append] at h
  obtain ⟨qs, hqs, h⟩ := Option.bind_eq_some_iff.1 h
  obtain ⟨rs, hrs, h⟩ := Option.bind_eq_some_iff.1 h
  cases h
  exact ⟨qs, rs, hqs, hrs, rfl⟩

theorem mapM_accept_map {α : Type} {raw : α → RawPrimitive} {primitive : α → Primitive}
    (heach : ∀ x p, (raw x).accept = some p → p = primitive x) {xs : List α} {ps : List Primitive}
    (h : (xs.map raw).mapM RawPrimitive.accept = some ps) : ps = xs.map primitive := by
  induction xs generalizing ps with
  | nil =>
    cases h
    rfl
  | cons x xs ih =>
    rw [List.map_cons, List.mapM_cons] at h
    obtain ⟨p, hp, h⟩ := Option.bind_eq_some_iff.1 h
    obtain ⟨rest, hrest, h⟩ := Option.bind_eq_some_iff.1 h
    cases h
    rw [List.map_cons, heach x p hp, ih hrest]

/-- What can be named is retired as it is named. -/
theorem retirementPrimitives_ok {persisted : PersistedElements}
    (h : retirementPrimitives persisted upserts = .ok retirements) :
    retirements =
      retirementsOf (goneLegacy persisted upserts) (goneEdges persisted upserts) (goneNodes persisted upserts) := by
  unfold retirementPrimitives at h
  dsimp only at h
  split at h
  · rename_i primitives hall
    cases h
    obtain ⟨front, drops, hfront, hdrops, rfl⟩ := mapM_accept_append hall
    obtain ⟨stamps, deletes, hstamps, hdeletes, rfl⟩ := mapM_accept_append hfront
    have hdelete : ∀ (k : EdgeKey) p, (RawPrimitive.deleteEdge (rawEdge k)).accept = some p →
        p = .deleteEdge k.stamped := by
      intro k p hp
      obtain ⟨e, he, hp⟩ := Option.bind_eq_some_iff.1 hp
      cases hp
      rw [rawEdge_accept he]
    have hdrop : ∀ (n : NodeRef) p, (RawPrimitive.deleteNode n.label n.id).accept = some p → p = .deleteNode n := by
      intro n p hp
      obtain ⟨m, hm, hp⟩ := Option.bind_eq_some_iff.1 hp
      cases hp
      rw [acceptNodeRef_eq hm]
    have hpairs : ∀ (ks : List EdgeKey) ps, (ks.flatMap stampThenDelete).mapM RawPrimitive.accept = some ps →
        ps = ks.flatMap fun k => [.stampEdgeIdentity k.stamped, .deleteEdge k.stamped] := by
      intro ks
      induction ks with
      | nil =>
        intro ps hps
        cases hps
        rfl
      | cons k ks ih =>
        intro ps hps
        rw [List.flatMap_cons] at hps
        obtain ⟨pair, rest, hpair, hrest, rfl⟩ := mapM_accept_append hps
        rw [List.flatMap_cons, ih rest hrest]
        unfold stampThenDelete at hpair
        rw [List.mapM_cons] at hpair
        obtain ⟨stamp, hstamp, hpair⟩ := Option.bind_eq_some_iff.1 hpair
        obtain ⟨one, hone, hpair⟩ := Option.bind_eq_some_iff.1 hpair
        cases hpair
        obtain ⟨e, he, hstamp⟩ := Option.bind_eq_some_iff.1 hstamp
        cases hstamp
        have hdeleted : one = [k].map fun k => Primitive.deleteEdge k.stamped := mapM_accept_map hdelete hone
        rw [hdeleted, rawEdge_accept he]
        rfl
    unfold retirementsOf
    rw [hpairs _ _ hstamps, mapM_accept_map hdelete hdeletes, mapM_accept_map hdrop hdrops]
  · cases h

/-- Without a legacy edge to stamp, stamping and deleting is deleting. -/
theorem stamp_then_delete {legacy : List EdgeKey} (hnone : ∀ k ∈ legacy, g.edgesAt k.stamped.unidentifiedKey = 0) :
    applyAll g (legacy.flatMap fun k => [.stampEdgeIdentity k.stamped, .deleteEdge k.stamped]) =
      applyAll g (legacy.map fun k => .deleteEdge k.stamped) := by
  induction legacy generalizing g with
  | nil => rfl
  | cons k legacy ih =>
    rw [List.flatMap_cons, applyAll_append, applyAll_cons, applyAll_cons, applyAll_nil, List.map_cons, applyAll_cons,
      applyOne_stamp, stampEdge_noop (hnone k List.mem_cons_self)]
    refine ih fun k' hk' => ?_
    exact applyOne_unidentified rfl (hnone k' (List.mem_cons_of_mem _ hk')) _

/-- What the retirements leave of a graph that has no legacy edge they would stamp. -/
theorem retired {legacy : List EdgeKey} (edges : List EdgeKey) (nodes : List NodeRef)
    (hnone : ∀ k ∈ legacy, g.edgesAt k.stamped.unidentifiedKey = 0) :
    (∀ n, (applyAll g (retirementsOf legacy edges nodes)).nodes[n]? = if n ∈ nodes then none else g.nodes[n]?) ∧
      ∀ k, (applyAll g (retirementsOf legacy edges nodes)).edgesAt k =
        if k.source ∈ nodes ∨ k.target ∈ nodes then 0
        else if (∃ j ∈ legacy ++ edges, j.stamped.edgeKey = k) then 0 else g.edgesAt k := by
  have hfront : applyAll g (retirementsOf legacy edges nodes) =
      applyAll (applyAll g ((legacy ++ edges).map fun k => .deleteEdge k.stamped)) (nodes.map .deleteNode) := by
    unfold retirementsOf
    rw [applyAll_append, applyAll_append, stamp_then_delete hnone, List.map_append, applyAll_append]
  have hdeletes : ((legacy ++ edges).map fun k => Primitive.deleteEdge k.stamped) =
      ((legacy ++ edges).map EdgeKey.stamped).map .deleteEdge := by
    rw [List.map_map]
    rfl
  have hnodes : (applyAll g (((legacy ++ edges).map EdgeKey.stamped).map .deleteEdge)).nodes = g.nodes := by
    refine applyAll_edgeOnly_nodes (fun p hp => ?_) g
    obtain ⟨e, -, rfl⟩ := List.mem_map.1 hp
    exact .inr ⟨e, rfl⟩
  rw [hfront, hdeletes]
  refine ⟨fun n => ?_, fun k => ?_⟩
  · rw [(applyAll_drops nodes _).1, hnodes]
  · rw [(applyAll_drops nodes _).2, applyAll_deletes_edgesAt]
    simp only [List.mem_map, exists_exists_and_eq_and]

end Retirements

/-! ## What the plan names -/

section Reads

variable {scan : ScanOrder} {g : Graph} {upserts : List Primitive}

theorem mem_keys_lastScanned {k : EdgeKey} : k ∈ (lastScanned scan g).keys ↔ g.edgesAt k ≠ 0 := by
  rw [ExtTreeMap.mem_keys, ExtTreeMap.mem_iff_isSome_getElem?, Option.isSome_iff_exists, ← edgesAt_ne_zero_iff]

theorem mem_goneNodes {n : NodeRef} : n ∈ goneNodes (readPersistedElements scan g) upserts ↔
    n ∈ g.nodes ∧ n.label ∈ seedNodeLabels ∧ n ∉ submittedNodes upserts := by
  simp only [goneNodes, readPersistedElements, List.mem_filter, ExtTreeMap.mem_keys, decide_eq_true_eq]

theorem mem_goneEdges {k : EdgeKey} : k ∈ goneEdges (readPersistedElements scan g) upserts ↔
    g.edgesAt k ≠ 0 ∧ k.identity ≠ none ∧ InVocabulary k ∧ k ∉ submittedEdges upserts := by
  simp only [goneEdges, readPersistedElements, List.mem_filter, mem_keys_lastScanned, decide_eq_true_eq, and_assoc]

theorem mem_goneLegacy {k : EdgeKey} : k ∈ goneLegacy (readPersistedElements scan g) upserts ↔
    g.edgesAt k ≠ 0 ∧ k.identity = none ∧ InVocabulary k ∧ k ∉ (submittedEdges upserts).map EdgeKey.bare := by
  simp only [goneLegacy, readPersistedElements, List.mem_filter, mem_keys_lastScanned, decide_eq_true_eq, and_assoc]

end Reads

/-! ## The graph after a submission -/

/-- A node of an earlier submission. -/
def Retired (g : Graph) (upserts : List Primitive) (n : NodeRef) : Prop :=
  n ∈ g.nodes ∧ n.label ∈ seedNodeLabels ∧ n ∉ submittedNodes upserts

instance (g : Graph) (upserts : List Primitive) (n : NodeRef) : Decidable (Retired g upserts n) :=
  inferInstanceAs (Decidable (_ ∧ _))

/-- **What a submission makes of a graph.** -/
structure Reconciled (scan : ScanOrder) (g : Graph) (upserts plan : List Primitive) : Prop where
  /-- No primitive of the group is rejected at its turn. -/
  accepted : ¬ MissingInTurn (stampedFirst scan g) plan
  /-- Of the labels of a seed, exactly the submitted nodes. -/
  nodes : ∀ n : NodeRef, n.label ∈ seedNodeLabels → (n ∈ (submitted scan g plan).nodes ↔ n ∈ submittedNodes upserts)
  /-- Of the edges of a seed, exactly the submitted ones. -/
  edges : ∀ k : EdgeKey, InVocabulary k → ((submitted scan g plan).edgesAt k ≠ 0 ↔ k ∈ submittedEdges upserts)
  /-- A submitted edge is there as often as it was, with its identity or without; once where it was not. -/
  kept : ∀ k ∈ submittedEdges upserts, ((submitted scan g plan).edgesAt k).card = max 1 (liveEdges g k).card
  otherNodes : ∀ n : NodeRef, n.label ∉ seedNodeLabels → (submitted scan g plan).nodes[n]? = g.nodes[n]?
  /-- Any other edge is as the stamp left it, but for those of retired nodes. -/
  otherEdges : ∀ k : EdgeKey, ¬ InVocabulary k → (submitted scan g plan).edgesAt k =
    if Retired g upserts k.source ∨ Retired g upserts k.target then 0 else (stampedFirst scan g).edgesAt k

section Submission

variable {scan : ScanOrder} {g : Graph} {nodes : List (NodeRef × PropertyMap)} {edges : List (EdgeBase × PropertyMap)}
  {plan : List Primitive}

/-- A submitted edge is of the vocabulary, between submitted nodes, under the identity its ends give it. -/
theorem submittedEdge (hseed : SeedUpserts nodes edges) {k : EdgeKey}
    (hk : k ∈ submittedEdges (upsertsOf nodes edges)) :
    InVocabulary k ∧ k.source ∈ submittedNodes (upsertsOf nodes edges) ∧
      k.target ∈ submittedNodes (upsertsOf nodes edges) ∧ k.bare.stamped.edgeKey = k := by
  rw [submittedEdges_upsertsOf] at hk
  rw [submittedNodes_upsertsOf]
  obtain ⟨e, he, rfl⟩ := List.mem_map.1 hk
  obtain ⟨hsource, htarget⟩ := hseed.ends e he
  obtain ⟨n, hn, hsourceEq⟩ := List.mem_map.1 hsource
  obtain ⟨m, hm, htargetEq⟩ := List.mem_map.1 htarget
  refine ⟨⟨hseed.type e he, ?_, ?_⟩, hsource, htarget, ?_⟩
  · show e.1.source.label ∈ seedNodeLabels
    rw [← hsourceEq]
    exact hseed.label n hn
  · show e.1.target.label ∈ seedNodeLabels
    rw [← htargetEq]
    exact hseed.label m hm
  · have hidentity := hseed.identity e he
    show (legacyEdgeStamp e.1.type e.1.source e.1.target).edgeKey = e.1.edgeKey
    unfold legacyEdgeStamp EdgeBase.edgeKey
    rw [hidentity]
    rfl

/-- A submitted node is not retired. -/
theorem not_retired {n : NodeRef} (hn : n ∈ submittedNodes (upsertsOf nodes edges)) :
    ¬ Retired g (upsertsOf nodes edges) n := fun h => h.2.2 hn

/-- An edge that is deleted is not a submitted one. -/
theorem deleted_not_submitted {j k : EdgeKey}
    (hj : j ∈ goneLegacy (readPersistedElements scan g) (upsertsOf nodes edges) ++
      goneEdges (readPersistedElements scan g) (upsertsOf nodes edges)) (hjk : j.stamped.edgeKey = k) :
    k ∉ submittedEdges (upsertsOf nodes edges) := by
  intro hk
  rcases List.mem_append.1 hj with hj | hj
  · obtain ⟨-, hnone, -, hshape⟩ := mem_goneLegacy.1 hj
    have hbare : k.bare = j := by
      rw [← hjk]
      exact stamped_unidentified hnone
    exact hshape (hbare ▸ List.mem_map_of_mem hk)
  · obtain ⟨-, hsome, -, hnot⟩ := mem_goneEdges.1 hj
    rw [stamped_of_some hsome] at hjk
    exact hnot (hjk ▸ hk)

/-- An edge of the vocabulary that is not submitted is not there, or is deleted. -/
theorem live_deleted (hseed : SeedUpserts nodes edges) {k : EdgeKey} (hvocabulary : InVocabulary k)
    (hnot : k ∉ submittedEdges (upsertsOf nodes edges)) (hthere : (stampedFirst scan g).edgesAt k ≠ 0) :
    ∃ j ∈ goneLegacy (readPersistedElements scan g) (upsertsOf nodes edges) ++
      goneEdges (readPersistedElements scan g) (upsertsOf nodes edges), j.stamped.edgeKey = k := by
  by_cases hk : k.identity = none
  · exact absurd (stampedFirst_legacy hk hvocabulary) hthere
  rw [stampedFirst_edges hk hvocabulary] at hthere
  by_cases hidentified : g.edgesAt k = 0
  · -- only a legacy edge the identity is due to is left, and no submitted edge has its shape
    unfold liveEdges at hthere
    rw [hidentified, zero_add] at hthere
    by_cases hdue : k.bare.stamped.edgeKey = k
    · rw [if_pos hdue] at hthere
      refine ⟨k.bare, List.mem_append_left _ (mem_goneLegacy.2 ⟨hthere, rfl, hvocabulary, fun hshape => ?_⟩), hdue⟩
      obtain ⟨k', hk', hbare⟩ := List.mem_map.1 hshape
      have hsame : k' = k := by rw [← (submittedEdge hseed hk').2.2.2, hbare, hdue]
      exact hnot (hsame ▸ hk')
    · rw [if_neg hdue] at hthere
      exact absurd rfl hthere
  · exact ⟨k, List.mem_append_right _ (mem_goneEdges.2 ⟨hidentified, hk, hvocabulary, hnot⟩), stamped_of_some hk⟩

/-- What a submission leaves, element by element. -/
theorem submitted_elements (hseed : SeedUpserts nodes edges)
    (hplan : prepareGroup (upsertsOf nodes edges) scan g = .ok plan) :
    ¬ MissingInTurn (stampedFirst scan g) plan ∧
      (∀ n, (submitted scan g plan).nodes[n]? = if Retired g (upsertsOf nodes edges) n then none
        else (applyAll (stampedFirst scan g) (upsertsOf nodes edges)).nodes[n]?) ∧
      ∀ k, (submitted scan g plan).edgesAt k =
        if Retired g (upsertsOf nodes edges) k.source ∨ Retired g (upsertsOf nodes edges) k.target then 0
        else if (∃ j ∈ goneLegacy (readPersistedElements scan g) (upsertsOf nodes edges) ++
          goneEdges (readPersistedElements scan g) (upsertsOf nodes edges), j.stamped.edgeKey = k) then 0
        else (applyAll (stampedFirst scan g) (upsertsOf nodes edges)).edgesAt k := by
  obtain ⟨retirements, hretirements, hplan⟩ := bind_ok.1 hplan
  cases hplan
  rw [retirementPrimitives_ok hretirements]
  have hvalid := upserts_valid hseed (stampedFirst scan g)
  have hnone : ∀ k ∈ goneLegacy (readPersistedElements scan g) (upsertsOf nodes edges),
      (applyAll (stampedFirst scan g) (upsertsOf nodes edges)).edgesAt k.stamped.unidentifiedKey = 0 := by
    intro k hk
    obtain ⟨-, hidentity, hvocabulary, -⟩ := mem_goneLegacy.1 hk
    rw [stamped_unidentified hidentity]
    exact applyAll_unidentified hidentity (stampedFirst_legacy hidentity hvocabulary) _
  have hleft := retired (goneEdges (readPersistedElements scan g) (upsertsOf nodes edges))
    (goneNodes (readPersistedElements scan g) (upsertsOf nodes edges)) hnone
  have hgone : ∀ n, n ∈ goneNodes (readPersistedElements scan g) (upsertsOf nodes edges) ↔
      Retired g (upsertsOf nodes edges) n := fun n => mem_goneNodes
  unfold submitted
  rw [applyAll_append]
  refine ⟨?_, fun n => ?_, fun k => ?_⟩
  · rw [missingInTurn_append, not_or]
    refine ⟨hvalid, not_missing_of_free fun p hp g' => ?_⟩
    rcases List.mem_append.1 hp with hp | hp
    · rcases List.mem_append.1 hp with hp | hp
      · obtain ⟨k, -, hp⟩ := List.mem_flatMap.1 hp
        rcases List.mem_pair.1 hp with rfl | rfl <;> exact id
      · obtain ⟨k, -, rfl⟩ := List.mem_map.1 hp
        exact id
    · obtain ⟨n, -, rfl⟩ := List.mem_map.1 hp
      exact id
  · rw [hleft.1]
    simp only [hgone]
  · rw [hleft.2]
    simp only [hgone]

theorem submitted_reconciled (hseed : SeedUpserts nodes edges)
    (hplan : prepareGroup (upsertsOf nodes edges) scan g = .ok plan) :
    Reconciled scan g (upsertsOf nodes edges) plan := by
  obtain ⟨haccepted, hnodes, hedges⟩ := submitted_elements hseed hplan
  have hleg := upsertOnly_upsertsOf nodes edges
  have hvalid := upserts_valid hseed (stampedFirst scan g)
  have hstays : ∀ k ∈ submittedEdges (upsertsOf nodes edges), (submitted scan g plan).edgesAt k =
      (applyAll (stampedFirst scan g) (upsertsOf nodes edges)).edgesAt k := by
    intro k hk
    obtain ⟨-, hsource, htarget, -⟩ := submittedEdge hseed hk
    rw [hedges, if_neg (not_or.2 ⟨not_retired hsource, not_retired htarget⟩), if_neg]
    rintro ⟨j, hj, hjk⟩
    exact deleted_not_submitted hj hjk hk
  refine ⟨haccepted, fun n hn => ?_, fun k hk => ?_, fun k hk => ?_, fun n hn => ?_, fun k hk => ?_⟩
  · rw [ExtTreeMap.mem_iff_isSome_getElem?, hnodes]
    by_cases hretired : Retired g (upsertsOf nodes edges) n
    · rw [if_pos hretired]
      exact ⟨fun h => absurd h (by simp), fun h => absurd h hretired.2.2⟩
    · rw [if_neg hretired, ← ExtTreeMap.mem_iff_isSome_getElem?, upserts_mem hleg, ExtTreeMap.mem_iff_isSome_getElem?,
        stampedFirst_nodes, ← ExtTreeMap.mem_iff_isSome_getElem?]
      refine ⟨fun h => ?_, .inr⟩
      by_contra hnot
      exact hretired ⟨h.resolve_right hnot, hn, hnot⟩
  · constructor
    · intro hthere
      by_contra hnot
      rw [hedges] at hthere
      split at hthere
      · exact hthere rfl
      · split at hthere
        · exact hthere rfl
        · rename_i hkept
          rw [upserts_other_edges hleg hvalid hnot] at hthere
          exact hkept (live_deleted hseed hk hnot hthere)
    · intro hsubmitted
      have hcard := upserts_edge_card hleg hvalid hsubmitted
      rw [hstays k hsubmitted, ← Multiset.card_pos, hcard]
      omega
  · obtain ⟨hvocabulary, -, -, hdue⟩ := submittedEdge hseed hk
    have hidentity : k.identity ≠ none := by
      rw [← hdue]
      simp [EdgeBase.edgeKey]
    rw [hstays k hk, upserts_edge_card hleg hvalid hk, stampedFirst_edges hidentity hvocabulary]
  · have hnot : n ∉ submittedNodes (upsertsOf nodes edges) := by
      rw [submittedNodes_upsertsOf]
      intro hmem
      obtain ⟨m, hm, rfl⟩ := List.mem_map.1 hmem
      exact hn (hseed.label m hm)
    rw [hnodes, if_neg fun hretired => hn hretired.2.1, upserts_other hleg hnot, stampedFirst_nodes]
  · have hnot : k ∉ submittedEdges (upsertsOf nodes edges) := fun hmem => hk (submittedEdge hseed hmem).1
    rw [hedges, upserts_other_edges hleg hvalid hnot]
    congr 1
    refine if_neg ?_
    rintro ⟨j, hj, rfl⟩
    -- what is deleted is of the vocabulary
    have hj : InVocabulary j := by
      rcases List.mem_append.1 hj with hj | hj
      · exact (mem_goneLegacy.1 hj).2.2.1
      · exact (mem_goneEdges.1 hj).2.2.1
    refine hk ⟨?_, ?_, ?_⟩
    · have htype : j.stamped.edgeKey.type = j.type := by
        cases j with
        | mk type source target identity => cases identity <;> rfl
      rw [htype]
      exact hj.1
    · show j.stamped.source.label ∈ seedNodeLabels
      rw [stamped_source]
      exact hj.2.1
    · show j.stamped.target.label ∈ seedNodeLabels
      rw [stamped_target]
      exact hj.2.2

end Submission

/-- The upserts of a document that was accepted and minted, for one of its two graphs. -/
def SeedGroup (h : Hashing) (seed : Seed) (upserts : List Primitive) : Prop :=
  ∃ index canonical, validateAndIndex seed = .ok index ∧ mintCanonicalIds h seed index = .ok canonical ∧
    (buildNativePrimitives seed = .ok upserts ∨ buildBaselinePrimitives seed index canonical = .ok upserts)

/-- **Resubmitting a seed reconciles the graph to it**, whatever the graph held. -/
theorem resubmission_reconciles {h : Hashing} {seed : Seed} {upserts plan : List Primitive} (scan : ScanOrder)
    (g : Graph) (hgroup : SeedGroup h seed upserts) (hplan : prepareGroup upserts scan g = .ok plan) :
    Reconciled scan g upserts plan := by
  obtain ⟨index, canonical, -, -, hbuilt⟩ := hgroup
  have hform : ∃ nodes edges, upserts = seedPrimitives nodes edges ∧
      SeedUpserts nodes (withoutDanglingEdges nodes edges) := by
    rcases hbuilt with hnative | hbaseline
    · exact native_upserts hnative
    · exact baseline_upserts hbaseline
  obtain ⟨nodes, edges, rfl, hseed⟩ := hform
  exact submitted_reconciled hseed hplan

/-- What an earlier submission left: a Role that is gone, and an edge without an identity that is kept. -/
def earlierGraph : Graph :=
  (∅ : Graph).writeAll [.put ⟨"Policy", "pol-1"⟩ id, .put ⟨"Standard", "std-1"⟩ id, .put ⟨"Role", "role-1"⟩ id,
    .putEdge ⟨"SUPPORTED_BY", ⟨"Policy", "pol-1"⟩, ⟨"Standard", "std-1"⟩, none⟩ id]

theorem resubmission_reconciles_earlier : ∃ upserts plan, SeedGroup intakeHashing governedSeed upserts ∧
    prepareGroup upserts default earlierGraph = .ok plan ∧ Reconciled default earlierGraph upserts plan := by
  have hindexed : ((validateAndIndex governedSeed).toOption.bind fun index =>
      (mintCanonicalIds intakeHashing governedSeed index).toOption).isSome = true := by decide +kernel
  obtain ⟨canonical, hcanonical⟩ := Option.isSome_iff_exists.1 hindexed
  obtain ⟨index, hindex, hcanonical⟩ := Option.bind_eq_some_iff.1 hcanonical
  have hedges : earlierGraph.edges =
      {(⟨"SUPPORTED_BY", ⟨"Policy", "pol-1"⟩, ⟨"Standard", "std-1"⟩, none⟩, (∅ : PropertyMap))} := by decide
  have hplanned : ((buildNativePrimitives governedSeed).toOption.bind fun upserts =>
      (prepareGroup upserts default earlierGraph).toOption).isSome = true := by
    simp only [prepareGroup, readPersistedElements, lastScanned, hedges, ScanOrder.order_singleton]
    decide +kernel
  obtain ⟨plan, hplan⟩ := Option.isSome_iff_exists.1 hplanned
  obtain ⟨upserts, hupserts, hplan⟩ := Option.bind_eq_some_iff.1 hplan
  have hgroup : SeedGroup intakeHashing governedSeed upserts :=
    ⟨index, canonical, toOption_eq_some hindex, toOption_eq_some hcanonical, .inl (toOption_eq_some hupserts)⟩
  have hplan := toOption_eq_some hplan
  exact ⟨upserts, plan, hgroup, hplan, resubmission_reconciles default earlierGraph hgroup hplan⟩

end PolicySystem.InternalSeed
