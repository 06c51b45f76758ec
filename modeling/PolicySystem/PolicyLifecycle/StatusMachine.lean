import PolicySystem.PolicyLifecycle.Groups

/-!
# The status machine of a Policy

The statuses and owners of Policies over the runs of concurrent lifecycle calls. A transition's group carries no
precondition on what its gates read, so it may take effect on another status.

* `outcome`: what a group does to the status and the owner of every Policy;
* `legal_iff_timely`: a step is legal exactly where the group it commits still finds what its gates required;
* `status_machine_iff`: the same of runs.
-/

namespace PolicySystem.PolicyLifecycle

open Std (ExtTreeMap)
open Interleaved PropertyGraph GraphWrite

/-! ## What a group does to a Policy -/

/-- The Policy a group creates or moves. -/
def Purpose.policy : Purpose → Option String
  | create _ policyId => some policyId
  | transition _ _ policyId => some policyId
  | _ => none

/-- The columns the lifecycle decides by. -/
def governanceKeys : List String := ["status", "owner_subject", "owner_issuer"]

theorem applyOne_new {g : Graph} {p : Primitive} {n : NodeRef} (hn : n ∉ g.nodes) (h : n ∈ (applyOne g p).nodes) :
    ∃ properties embedding, p = .upsertNode n properties embedding := by
  rw [ExtTreeMap.mem_iff_isSome_getElem?] at h
  have hnone : g.nodes[n]? = none := by simpa using hn
  cases p with
  | stampEdgeIdentity e =>
    rw [applyOne_stamp, stampEdge_nodes, hnone] at h
    cases h
  | upsertEdge e props =>
    rw [applyOne_eq_write rfl, write_nodes, hnone] at h
    cases h
  | deleteEdge e =>
    rw [applyOne_eq_write rfl, write_nodes, hnone] at h
    cases h
  | upsertNode m props e =>
    rw [applyOne_eq_write rfl, write_nodes, nodeStep, hnone] at h
    split at h
    · rename_i hm
      exact ⟨props, e, by rw [hm]⟩
    · cases h
  | mergeProperty m props =>
    rw [applyOne_eq_write rfl, write_nodes, nodeStep, hnone] at h
    split at h <;> cases h
  | removeProperty m keys =>
    rw [applyOne_eq_write rfl, write_nodes, nodeStep, hnone] at h
    split at h <;> cases h
  | deleteNode m =>
    rw [applyOne_eq_write rfl, write_nodes, nodeStep, hnone] at h
    split at h <;> cases h

/-- A node that a list of primitives creates is upserted in it. -/
theorem applyAll_new {ps : List Primitive} {g : Graph} {n : NodeRef} (hn : n ∉ g.nodes)
    (h : n ∈ (applyAll g ps).nodes) : ∃ properties embedding, Primitive.upsertNode n properties embedding ∈ ps := by
  induction ps generalizing g with
  | nil => exact absurd h hn
  | cons p ps ih =>
    by_cases hmem : n ∈ (applyOne g p).nodes
    · obtain ⟨props, e, rfl⟩ := applyOne_new hn hmem
      exact ⟨props, e, List.mem_cons_self⟩
    · obtain ⟨props, e, hp⟩ := ih hmem h
      exact ⟨props, e, List.mem_cons_of_mem _ hp⟩

/-- The primitive leaves the Policy's status and owner and does not create it. -/
def Spares (id : String) (p : Primitive) : Prop :=
  (∀ key ∈ governanceKeys, ¬ Sets p (policyRef id) key) ∧ ∀ properties e, p ≠ .upsertNode (policyRef id) properties e

theorem spared {ps : List Primitive} {id : String} (h : ∀ p ∈ ps, Spares id p) (g : Graph) :
    statusOf (applyAll g ps) (policyRef id) = statusOf g (policyRef id) ∧
      policyOwner (applyAll g ps) id = policyOwner g id ∧
      (policyRef id ∈ (applyAll g ps).nodes → policyRef id ∈ g.nodes) := by
  have hkey : ∀ key ∈ governanceKeys,
      (columns (applyAll g ps) (policyRef id))[key]? = (columns g (policyRef id))[key]? := by
    intro key hkey
    exact applyAll_columns (fun p hp => (h p hp).1 key hkey) g
  refine ⟨hkey "status" (by decide), ?_, fun hmem => ?_⟩
  · unfold policyOwner
    rw [hkey "owner_subject" (by decide), hkey "owner_issuer" (by decide)]
  · by_contra hnot
    obtain ⟨props, e, hp⟩ := applyAll_new hnot hmem
    exact (h _ hp).2 props e rfl

/-! ## Which Policies a primitive spares -/

theorem spares_upsertEdge {id : String} {e : EdgeBase} {props : PropertyMap} : Spares id (.upsertEdge e props) :=
  ⟨fun _ _ hs => hs, fun _ _ heq => by cases heq⟩

theorem spares_of_governs {id : String} {p : Primitive} (h : Governs p) : Spares id p := by
  cases p with
  | upsertEdge e props => exact spares_upsertEdge
  | deleteEdge e => exact ⟨fun _ _ hs => hs, fun _ _ heq => by cases heq⟩
  | upsertNode _ _ _ => exact h.elim
  | mergeProperty _ _ => exact h.elim
  | removeProperty _ _ => exact h.elim
  | deleteNode _ => exact h.elim
  | stampEdgeIdentity _ => exact h.elim

/-- A write to a node that is no Policy, or to another Policy, spares it. -/
theorem spares_merge {id : String} {n : NodeRef} {props : PropertyMap}
    (h : n = policyRef id → ∀ key ∈ governanceKeys, key ∉ props) : Spares id (.mergeProperty n props) :=
  ⟨fun key hkey hs => h hs.1 key hkey hs.2, fun _ _ heq => by cases heq⟩

theorem spares_upsert {id : String} {n : NodeRef} {props : PropertyMap} {e : Option Embedding} (h : n ≠ policyRef id) :
    Spares id (.upsertNode n props e) :=
  ⟨fun _ _ hs => h hs.1, fun _ _ heq => h (Primitive.upsertNode.inj heq).1⟩

theorem spares_child {id : String} {parent child : NodeRef} {props : PropertyMap} {edgeType : String}
    (h : child ≠ policyRef id) : ∀ p ∈ childPrimitives parent child props edgeType, Spares id p := by
  intro p hp
  rcases List.mem_cons.1 hp with rfl | hp
  · exact spares_upsert h
  · obtain rfl := List.mem_singleton.1 hp
    exact spares_upsertEdge

theorem standardRef_ne {s id : String} : standardRef s ≠ policyRef id := by simp [standardRef, policyRef]

theorem controlRef_ne {k id : String} : controlRef k ≠ policyRef id := by simp [controlRef, policyRef]

theorem Under.ne_policy {g : Graph} {policyId id : String} {n : NodeRef} (h : Under g policyId n) : n ≠ policyRef id := by
  obtain ⟨s, -, rfl | ⟨k, -, rfl⟩⟩ := h
  · exact standardRef_ne
  · exact controlRef_ne

theorem spares_standards {id policyId : String} {standards : List StandardDraft} :
    ∀ p ∈ standards.flatMap (StandardDraft.primitives policyId), Spares id p := by
  intro p hp
  obtain ⟨draft, -, hp⟩ := List.mem_flatMap.1 hp
  rcases List.mem_append.1 hp with hp | hp
  · exact spares_child standardRef_ne p hp
  · obtain ⟨control, -, hp⟩ := List.mem_flatMap.1 hp
    exact spares_child controlRef_ne p hp

theorem spares_claims {id policyId : String} {capabilityIds : List String} :
    ∀ p ∈ claimPrimitives policyId capabilityIds, Spares id p := by
  intro p hp
  obtain ⟨capability, -, rfl⟩ := List.mem_map.1 hp
  exact spares_upsertEdge

/-- What a create writes after its Policy. -/
def NewPolicy.rest (new : NewPolicy) (capabilityIds : List String) : List Primitive :=
  (new.supersedes.map fun prior =>
    .upsertEdge (edgeBetween "SUPERSEDED_BY" (policyRef prior) (policyRef new.policyId)) ∅).toList ++
  (new.standards.flatMap (StandardDraft.primitives new.policyId) ++ claimPrimitives new.policyId capabilityIds)

theorem NewPolicy.primitives_claims (new : NewPolicy) (capabilityIds : List String) :
    new.primitives ++ claimPrimitives new.policyId capabilityIds =
      .upsertNode (policyRef new.policyId) new.properties none :: new.rest capabilityIds := by
  simp [NewPolicy.primitives, NewPolicy.rest]

theorem spares_rest {id : String} {new : NewPolicy} {capabilityIds : List String} :
    ∀ p ∈ new.rest capabilityIds, Spares id p := by
  intro p hp
  rcases List.mem_append.1 hp with hp | hp
  · obtain ⟨prior, -, rfl⟩ := Option.map_eq_some_iff.1 (Option.mem_toList.1 hp)
    exact spares_upsertEdge
  · rcases List.mem_append.1 hp with hp | hp
    · exact spares_standards p hp
    · exact spares_claims p hp

/-- No content field of any label is one of the columns the lifecycle decides by. -/
theorem patchable_not_governance {label key : String} (h : key ∈ patchableFields label) : key ∉ governanceKeys := by
  have hall : ∀ label ∈ ["Policy", "Standard", "Control"], ∀ key ∈ patchableFields label, key ∉ governanceKeys := by
    decide +kernel
  by_cases hlabel : label ∈ ["Policy", "Standard", "Control"]
  · exact hall label hlabel key h
  · have hempty : schemaProperties label = [] := by
      unfold schemaProperties
      split <;> simp_all
    simp [patchableFields, hempty] at h

theorem values_patchable {label : String} (fields : ContentFields label) {key : String} (h : key ∈ fields.values) :
    key ∈ patchableFields label := by
  obtain ⟨v, hv⟩ := ExtTreeMap.mem_iff_isSome_getElem?.1 h |> Option.isSome_iff_exists.1
  obtain ⟨f, hf, hmap⟩ := List.mem_filterMap.1 (mem_of_getElem?_ofList hv)
  obtain ⟨value, -, heq⟩ := Option.map_eq_some_iff.1 hmap
  cases heq
  exact fields.patchable f hf

theorem nullKeys_patchable {label : String} (fields : ContentFields label) {key : String} (h : key ∈ fields.nullKeys) :
    key ∈ patchableFields label := by
  obtain ⟨f, hf, hkey⟩ := List.mem_filterMap.1 h
  split at hkey
  · cases hkey
    exact fields.patchable f hf
  · cases hkey

theorem mem_patchPrimitives {label id : String} {fields : ContentFields label} {p : Primitive}
    (h : p ∈ patchPrimitives id fields) :
    p = .mergeProperty ⟨label, id⟩ fields.values ∨ p = .removeProperty ⟨label, id⟩ fields.nullKeys := by
  rcases List.mem_append.1 h with h | h
  · split at h
    · cases h
    · exact .inl (List.mem_singleton.1 h)
  · split at h
    · cases h
    · exact .inr (List.mem_singleton.1 h)

theorem spares_edit {id : String} {node : NodeRef} {ps : List Primitive} (h : Edits node ps) :
    ∀ p ∈ ps, Spares id p := by
  cases h with
  | patch nodeId fields =>
    intro p hp
    rcases mem_patchPrimitives hp with rfl | rfl
    · refine spares_merge fun _ key hkey hmem => ?_
      exact patchable_not_governance (values_patchable fields hmem) hkey
    · refine ⟨fun key hkey hs => ?_, fun _ _ heq => by cases heq⟩
      exact patchable_not_governance (nullKeys_patchable fields hs.2) hkey
  | addStandard => exact spares_child standardRef_ne
  | addControl => exact spares_child controlRef_ne

/-! ## The outcome of a group -/

theorem mem_single {key k : String} {v : PropertyValue} : key ∈ (∅ : PropertyMap).insert k v ↔ key = k := by
  rw [ExtTreeMap.mem_insert, Std.LawfulEqCmp.compare_eq_iff_eq]
  simp [eq_comm]

theorem not_sets_statuses {nodes : List NodeRef} {n : NodeRef} {key : String} {status : PropertyValue}
    (h : key ≠ "status" ∨ n ∉ nodes) : ∀ p ∈ nodes.map fun m => .mergeProperty m (statusIs status), ¬ Sets p n key := by
  intro p hp hs
  obtain ⟨m, hm, rfl⟩ := List.mem_map.1 hp
  obtain ⟨rfl, hkey⟩ := hs
  have hstatus : key = "status" := mem_single.1 hkey
  rcases h with h | h
  · exact h hstatus
  · exact h hm

theorem not_sets_statusMerges {nodes : List NodeRef} {n : NodeRef} {key target : String}
    (h : key ≠ "status" ∨ n ∉ nodes) : ∀ p ∈ statusMerges target nodes, ¬ Sets p n key :=
  not_sets_statuses h

/-- Merges of a status over nodes that are there set the status of each. -/
theorem statuses_set {nodes : List NodeRef} {n : NodeRef} {status : PropertyValue} (hn : n ∈ nodes) {g : Graph}
    (hstored : n ∈ g.nodes) :
    statusOf (applyAll g (nodes.map fun m => .mergeProperty m (statusIs status))) n = some status := by
  induction nodes generalizing g with
  | nil => cases hn
  | cons m nodes ih =>
    rw [List.map_cons, applyAll_cons]
    have hgrows : Grows (.mergeProperty m (statusIs status)) := trivial
    have hstays : n ∈ (applyOne g (.mergeProperty m (statusIs status))).nodes := applyOne_mem hgrows hstored
    by_cases hin : n ∈ nodes
    · exact ih hin hstays
    · obtain rfl : n = m := by
        rcases List.mem_cons.1 hn with h | h
        · exact h
        · exact absurd h hin
      unfold statusOf
      rw [applyAll_columns (not_sets_statuses (.inr hin)), columns_eq, applyOne_eq_write rfl, write_nodes]
      obtain ⟨v, hv⟩ := Option.isSome_iff_exists.1 (ExtTreeMap.mem_iff_isSome_getElem?.1 hstored)
      simp only [nodeStep, hv, if_true, Option.map_some, Option.bind_some, NodeContent.merge, statusIs,
        ExtTreeMap.getElem?_union, ExtTreeMap.getElem?_insert_self, Option.some_or]

/-- A cascade over nodes that are there sets the status of each. -/
theorem statusMerges_sets {nodes : List NodeRef} {n : NodeRef} {target : String} (hn : n ∈ nodes) {g : Graph}
    (hstored : n ∈ g.nodes) : statusOf (applyAll g (statusMerges target nodes)) n = some (text target) :=
  statuses_set hn hstored

/-- What a new Policy holds. -/
theorem newPolicy_columns {new : NewPolicy} :
    new.properties["status"]? = some (text "draft") ∧
      new.properties["owner_subject"]? = some (text new.owner.subject) ∧
      new.properties["owner_issuer"]? = some (text new.owner.issuer) := by
  simp only [NewPolicy.properties, ExtTreeMap.getElem?_insert, Std.LawfulEqCmp.compare_eq_iff_eq]
  refine ⟨?_, ?_, ?_⟩ <;> rfl

theorem upsert_columns {g : Graph} {n : NodeRef} {props : PropertyMap} {e : Option Embedding} {key : String}
    {v : PropertyValue} (h : props[key]? = some v) : (columns (applyOne g (.upsertNode n props e)) n)[key]? = some v := by
  rw [columns_eq, applyOne_eq_write rfl, write_nodes, nodeStep, if_pos rfl]
  simp [NodeContent.upsert, ExtTreeMap.getElem?_union, h]

/-- **What a group does** to the nodes, the tree edges, and the status and owner of every Policy. -/
structure Outcome (g g' : Graph) (purpose : Purpose) : Prop where
  nodes : ∀ n, n ∈ g.nodes → n ∈ g'.nodes
  edges : ∀ r : EdgeRecord, r.relType ≠ "GOVERNED_BY" → Shows g r → Shows g' r
  others : ∀ id, purpose.policy ≠ some id → statusOf g' (policyRef id) = statusOf g (policyRef id) ∧
    policyOwner g' id = policyOwner g id ∧ (policyRef id ∈ g'.nodes → policyRef id ∈ g.nodes)
  created : ∀ actor id, purpose = .create actor id →
    statusOf g' (policyRef id) = some (text "draft") ∧ policyOwner g' id = actor.asOwner
  moved : ∀ action actor id, purpose = .transition action actor id → policyRef id ∈ g.nodes ∧
    statusOf g' (policyRef id) = some (text action.target) ∧ policyOwner g' id = policyOwner g id ∧
    (action = .approve → actor.asOwner ≠ policyOwner g id)

theorem grows_statusMerges {target : String} {nodes : List NodeRef} : ∀ p ∈ statusMerges target nodes, Grows p := by
  intro p hp
  obtain ⟨n, -, rfl⟩ := List.mem_map.1 hp
  trivial

theorem grows_of_governs {p : Primitive} (h : Governs p) : Grows p := by
  cases p with
  | deleteEdge e => exact h
  | upsertEdge e props => trivial
  | _ => exact h.elim

theorem grows_child {parent child : NodeRef} {props : PropertyMap} {edgeType : String} :
    ∀ p ∈ childPrimitives parent child props edgeType, Grows p := by
  intro p hp
  rcases List.mem_cons.1 hp with rfl | hp
  · trivial
  · obtain rfl := List.mem_singleton.1 hp
    trivial

theorem grows_rest {new : NewPolicy} {capabilityIds : List String} : ∀ p ∈ new.rest capabilityIds, Grows p := by
  intro p hp
  simp only [NewPolicy.rest, List.mem_append, Option.mem_toList, Option.map_eq_some_iff, List.mem_flatMap,
    StandardDraft.primitives, claimPrimitives, List.mem_map] at hp
  rcases hp with ⟨_, -, rfl⟩ | ⟨s, -, hp | ⟨control, -, hp⟩⟩ | ⟨_, -, rfl⟩
  · trivial
  · exact grows_child p hp
  · exact grows_child p hp
  · trivial

theorem grows_edit {node : NodeRef} {ps : List Primitive} (h : Edits node ps) : ∀ p ∈ ps, Grows p := by
  cases h with
  | patch nodeId fields =>
    intro p hp
    rcases mem_patchPrimitives hp with rfl | rfl
    · trivial
    · trivial
  | addStandard => exact grows_child
  | addControl => exact grows_child

/-- No group takes a node or a tree edge away. -/
theorem Offers.grows {s : GraphState} {group : Group} (h : Offers s group) : ∀ p ∈ group.primitives, Grows p := by
  obtain ⟨purpose, ps, expected⟩ := group
  intro p hp
  cases purpose with
  | stamp =>
    obtain ⟨edges, heq⟩ := h
    obtain ⟨e, -, rfl⟩ := List.mem_map.1 (heq ▸ hp)
    trivial
  | backfill policyId =>
    rcases h p hp with rfl | ⟨n, status, -, rfl⟩
    · trivial
    · trivial
  | create actor policyId =>
    obtain ⟨new, capabilityIds, rfl, -, heq⟩ := h
    rw [show ps = _ from heq, NewPolicy.primitives_claims] at hp
    rcases List.mem_cons.1 hp with rfl | hp
    · trivial
    · exact grows_rest p hp
  | transition action actor policyId =>
    obtain ⟨moved, nodes, heq, hmoved, -, -⟩ := h.shape
    rw [show ps = _ from heq] at hp
    rcases List.mem_append.1 hp with hp | hp
    · exact grows_of_governs (hmoved p hp)
    · exact grows_statusMerges p hp
  | edit node => exact grows_edit h p hp

/-- A group spares every Policy but its own. -/
theorem Offers.spares {s : GraphState} {group : Group} (h : Offers s group) {id : String}
    (hother : group.purpose.policy ≠ some id) : ∀ p ∈ group.primitives, Spares id p := by
  obtain ⟨purpose, ps, expected⟩ := group
  intro p hp
  cases purpose with
  | stamp =>
    obtain ⟨edges, heq⟩ := h
    obtain ⟨e, -, rfl⟩ := List.mem_map.1 (heq ▸ hp)
    exact ⟨fun _ _ hs => hs, fun _ _ heq => by cases heq⟩
  | backfill policyId =>
    rcases h p hp with rfl | ⟨n, status, hn, rfl⟩
    · refine spares_merge fun _ key hkey hmem => ?_
      obtain rfl : key = "version" := mem_single.1 hmem
      exact absurd hkey (by decide)
    · exact spares_merge fun hpolicy => absurd hpolicy hn.ne_policy
  | create actor policyId =>
    obtain ⟨new, capabilityIds, rfl, -, heq⟩ := h
    rw [show ps = _ from heq, NewPolicy.primitives_claims] at hp
    rcases List.mem_cons.1 hp with rfl | hp
    · refine spares_upsert fun heq' => hother ?_
      exact congrArg some (NodeRef.mk.inj heq').2
    · exact spares_rest p hp
  | transition action actor policyId =>
    obtain ⟨moved, nodes, heq, hmoved, -, hnodes⟩ := h.shape
    rw [show ps = _ from heq] at hp
    rcases List.mem_append.1 hp with hp | hp
    · exact spares_of_governs (hmoved p hp)
    · obtain ⟨n, hn, rfl⟩ := List.mem_map.1 hp
      refine spares_merge fun hpolicy => absurd hpolicy ?_
      rcases hnodes n hn with rfl | hunder
      · exact fun heq' => hother (congrArg some (NodeRef.mk.inj heq').2)
      · exact hunder.ne_policy
  | edit node => exact spares_edit h p hp

/-- **The outcome** of every group of the calls. -/
theorem outcome {s : GraphState} {group : Group} (h : Offers s group) :
    Outcome s.graph (applyAll s.graph group.primitives) group.purpose where
  nodes n hn := applyAll_mem h.grows hn
  edges r hr hs := applyAll_shows h.grows hr hs
  others id hother := spared (h.spares hother) s.graph
  created actor id hpurpose := by
    unfold Offers at h
    rw [hpurpose] at h
    obtain ⟨new, capabilityIds, rfl, rfl, heq⟩ := h
    rw [heq, NewPolicy.primitives_claims, applyAll_cons]
    obtain ⟨hstatus, howner, -⟩ := spared (@spares_rest new.policyId new capabilityIds)
      (applyOne s.graph (.upsertNode (policyRef new.policyId) new.properties none))
    obtain ⟨h₁, h₂, h₃⟩ := @newPolicy_columns new
    rw [hstatus, howner]
    refine ⟨upsert_columns h₁, ?_⟩
    unfold policyOwner
    rw [upsert_columns h₂, upsert_columns h₃]
    rfl
  moved action actor id hpurpose := by
    unfold Offers at h
    rw [hpurpose] at h
    obtain ⟨⟨moved, nodes, heq, hmoved, hin, hnodes⟩, hstored, happrove⟩ := h
    rw [heq, applyAll_append]
    have hgrows : ∀ p ∈ moved, Grows p := fun p hp => grows_of_governs (hmoved p hp)
    obtain ⟨-, howner, -⟩ := spared (fun p hp => @spares_of_governs id p (hmoved p hp)) s.graph
    refine ⟨hstored, statusMerges_sets hin (applyAll_mem hgrows hstored), ?_, happrove⟩
    rw [← howner]
    unfold policyOwner
    rw [applyAll_columns (not_sets_statusMerges (.inl (by decide))),
      applyAll_columns (not_sets_statusMerges (.inl (by decide)))]

/-! ## Legal steps -/

/-- A status stays, or moves as the lifecycle says. -/
def StatusMove (a b : Option PropertyValue) : Prop :=
  a = b ∨
  (a = some (text "draft") ∧ b = some (text "proposed")) ∨
  (a = some (text "proposed") ∧ b = some (text "approved")) ∨
  (a = some (text "proposed") ∧ b = some (text "draft")) ∨
  (a = some (text "approved") ∧ b = some (text "deprecated"))

/-- The step commits the group: it is logged and applied, whatever the caller is told. -/
def Commits (gw : Gateway) (w : Lifecycle) (e : CallerStep Answer) (group : Group) (w' : Lifecycle) : Prop :=
  (∃ c answer k, (answer = .applied ∨ answer = .unknown) ∧ e = .request c answer ∧ w.flows c = .request group k) ∧
    w.step gw e = some w'

/-- **A legal step**: statuses move as they may, owners stay, and who approves is not the owner. -/
structure Legal (gw : Gateway) (w : Lifecycle) (e : CallerStep Answer) (w' : Lifecycle) : Prop where
  stored : ∀ id, policyRef id ∈ w.shared.graph.nodes → policyRef id ∈ w'.shared.graph.nodes
  move : ∀ id, policyRef id ∈ w.shared.graph.nodes →
    StatusMove (statusOf w.shared.graph (policyRef id)) (statusOf w'.shared.graph (policyRef id))
  owner : ∀ id, policyRef id ∈ w.shared.graph.nodes → policyOwner w'.shared.graph id = policyOwner w.shared.graph id
  approver : ∀ id, statusOf w.shared.graph (policyRef id) ≠ some (text "approved") →
    statusOf w'.shared.graph (policyRef id) = some (text "approved") →
    ∃ group actor, Commits gw w e group w' ∧ group.purpose = .transition .approve actor id ∧
      actor.asOwner ≠ policyOwner w.shared.graph id
  created : ∀ id, policyRef id ∉ w.shared.graph.nodes → policyRef id ∈ w'.shared.graph.nodes →
    statusOf w'.shared.graph (policyRef id) = some (text "draft")

/-- The status the gates of a transition require. -/
def Transition.required : Transition → String
  | propose => "draft"
  | approve => "proposed"
  | reject => "proposed"
  | revert => "proposed"
  | autoDeprecate => "approved"

/-- What a group's gates required still holds where it takes effect, or the write moves nothing: a transition finds the
status it requires or the one it sets, a create finds no such Policy or an open one of the same owner. -/
def Timely (g : Graph) : Purpose → Prop
  | .transition action _ id => statusOf g (policyRef id) = some (text action.required) ∨
      statusOf g (policyRef id) = some (text action.target)
  | .create actor id => policyRef id ∈ g.nodes → policyOwner g id = actor.asOwner ∧
      (statusOf g (policyRef id) = some (text "draft") ∨ statusOf g (policyRef id) = some (text "proposed"))
  | _ => True

section Runs

variable {gw : Gateway} {w w' : Lifecycle} {e : CallerStep Answer} {group : Group}

/-- A submit that is carried out leaves the state, or commits its group. -/
theorem carries_cases {s : GraphState} (h : w.Carries gw.carry e group s) :
    s = w.shared ∨ ∃ w', Commits gw w e group w' ∧ w'.shared = s := by
  obtain ⟨c, answer, k, rfl, hflow, hcarry⟩ := h
  have hstep : w.step gw (.request c answer) = some ⟨s, Function.update w.flows c (k answer)⟩ := by
    simp only [Lifecycle.step, Callers.step, hflow, hcarry, Option.map_some]
  cases answer with
  | applied => exact .inr ⟨_, ⟨⟨c, _, k, .inl rfl, rfl, hflow⟩, hstep⟩, rfl⟩
  | unknown => exact .inr ⟨_, ⟨⟨c, _, k, .inr rfl, rfl, hflow⟩, hstep⟩, rfl⟩
  | stale =>
    simp only [Gateway.carry] at hcarry
    split at hcarry
    · exact .inl (Option.some.inj hcarry).symm
    · cases hcarry
  | refused => exact .inl (Option.some.inj hcarry).symm

theorem commits_carries (h : Commits gw w e group w') : w.Carries gw.carry e group w'.shared := by
  obtain ⟨⟨c, answer, k, -, rfl, hflow⟩, hstep⟩ := h
  have hcarry : (gw.carry w.shared group answer).map (fun s => (⟨s, Function.update w.flows c (k answer)⟩ : Lifecycle)) =
      some w' := by
    simpa only [Lifecycle.step, Callers.step, hflow] using hstep
  obtain ⟨s, hs, rfl⟩ := Option.map_eq_some_iff.1 hcarry
  exact ⟨c, answer, k, rfl, hflow, hs⟩

theorem commits_graph (h : Commits gw w e group w') :
    w'.shared.graph = applyAll w.shared.graph group.primitives := by
  obtain ⟨c, answer, k, rfl, hflow, hcarry⟩ := commits_carries h
  obtain ⟨⟨c', answer', k', hanswer, heq, -⟩, -⟩ := h
  cases heq
  have hcommit : gw.commit w.shared group = some w'.shared := by
    rcases hanswer with rfl | rfl
    · exact hcarry
    · exact hcarry
  unfold Gateway.commit at hcommit
  split at hcommit
  · split at hcommit
    · cases hcommit
    · rw [← Option.some.inj hcommit]
  · cases hcommit

/-- A step that commits no group leaves the graph. -/
theorem step_graph (hstep : w.step gw e = some w') :
    w'.shared = w.shared ∨ ∃ group, Commits gw w e group w' := by
  rcases Callers.step_shared hstep with hsame | ⟨group, hcarries⟩
  · exact .inl hsame
  · obtain ⟨c, answer, k, rfl, hflow, hcarry⟩ := id hcarries
    cases answer with
    | applied => exact .inr ⟨group, ⟨c, _, k, .inl rfl, rfl, hflow⟩, hstep⟩
    | unknown => exact .inr ⟨group, ⟨c, _, k, .inr rfl, rfl, hflow⟩, hstep⟩
    | _ =>
      refine .inl ?_
      rcases carries_cases hcarries with hsame | ⟨w'', ⟨⟨_, _, _, hanswer, heq, -⟩, -⟩, -⟩
      · exact hsame
      · cases heq
        rcases hanswer with h | h <;> cases h

theorem commits_outcome (hw : w.Asks Rely Offers) (h : Commits gw w e group w') :
    Outcome w.shared.graph w'.shared.graph group.purpose := by
  rw [commits_graph h]
  exact outcome (hw.met Rely.refl (commits_carries h))

theorem Outcome.timely {g g' : Graph} {purpose : Purpose} (ho : Outcome g g' purpose)
    (hmove : ∀ id, policyRef id ∈ g.nodes → StatusMove (statusOf g (policyRef id)) (statusOf g' (policyRef id)))
    (howner : ∀ id, policyRef id ∈ g.nodes → policyOwner g' id = policyOwner g id) : Timely g purpose := by
  cases purpose with
  | create actor id =>
    intro hstored
    obtain ⟨hstatus, hactor⟩ := ho.created actor id rfl
    have hmoved := hmove id hstored
    rw [hstatus] at hmoved
    refine ⟨(howner id hstored).symm.trans hactor, ?_⟩
    rcases hmoved with h | ⟨h, -⟩ | ⟨h, -⟩ | ⟨h, -⟩ | ⟨-, h⟩
    · exact .inl h
    · exact .inl h
    · exact .inr h
    · exact .inr h
    · exact absurd h (by decide)
  | transition action actor id =>
    obtain ⟨hstored, hstatus, -, -⟩ := ho.moved action actor id rfl
    have hmoved := hmove id hstored
    rw [hstatus] at hmoved
    rcases hmoved with h | hmoved
    · exact .inr h
    · -- the four moves, against the target of each action
      left
      rcases hmoved with ⟨h, ht⟩ | ⟨h, ht⟩ | ⟨h, ht⟩ | ⟨h, ht⟩ <;> rw [h] <;> revert ht <;> cases action <;> decide
  | stamp => trivial
  | backfill => trivial
  | edit => trivial

theorem Outcome.legal (ho : Outcome w.shared.graph w'.shared.graph group.purpose) (hcommit : Commits gw w e group w')
    (ht : Timely w.shared.graph group.purpose) : Legal gw w e w' := by
  -- every Policy but the group's own is spared
  have hother : ∀ id, group.purpose.policy ≠ some id →
      statusOf w'.shared.graph (policyRef id) = statusOf w.shared.graph (policyRef id) ∧
      policyOwner w'.shared.graph id = policyOwner w.shared.graph id ∧
      (policyRef id ∈ w'.shared.graph.nodes → policyRef id ∈ w.shared.graph.nodes) := ho.others
  cases hpurpose : group.purpose with
  | create actor id =>
    rw [hpurpose] at ht
    obtain ⟨hstatus, howner⟩ := ho.created actor id hpurpose
    have hspared : ∀ id', id' ≠ id → group.purpose.policy ≠ some id' := by
      intro id' hne heq
      rw [hpurpose] at heq
      exact hne (Option.some.inj heq).symm
    refine ⟨fun id' => ho.nodes _, fun id' hstored => ?_, fun id' hstored => ?_, fun id' hbefore hafter => ?_,
      fun id' hnew hstored => ?_⟩
    · by_cases hid : id' = id
      · subst hid
        rw [hstatus]
        rcases (ht hstored).2 with hdraft | hproposed
        · exact .inl hdraft
        · exact .inr (.inr (.inr (.inl ⟨hproposed, rfl⟩)))
      · exact .inl (hother id' (hspared id' hid)).1.symm
    · by_cases hid : id' = id
      · subst hid
        rw [howner, (ht hstored).1]
      · exact (hother id' (hspared id' hid)).2.1
    · by_cases hid : id' = id
      · subst hid
        rw [hstatus] at hafter
        exact absurd hafter (by decide)
      · rw [(hother id' (hspared id' hid)).1] at hafter
        exact absurd hafter hbefore
    · by_cases hid : id' = id
      · subst hid
        exact hstatus
      · exact absurd ((hother id' (hspared id' hid)).2.2 hstored) hnew
  | transition action actor id =>
    rw [hpurpose] at ht
    obtain ⟨hold, hstatus, howner, happrove⟩ := ho.moved action actor id hpurpose
    have hspared : ∀ id', id' ≠ id → group.purpose.policy ≠ some id' := by
      intro id' hne heq
      rw [hpurpose] at heq
      exact hne (Option.some.inj heq).symm
    refine ⟨fun id' => ho.nodes _, fun id' hstored => ?_, fun id' hstored => ?_, fun id' hbefore hafter => ?_,
      fun id' hnew hstored => ?_⟩
    · by_cases hid : id' = id
      · subst hid
        rw [hstatus]
        rcases ht with h | h
        · rw [h]
          right
          cases action <;> decide
        · exact .inl h
      · exact .inl (hother id' (hspared id' hid)).1.symm
    · by_cases hid : id' = id
      · subst hid
        exact howner
      · exact (hother id' (hspared id' hid)).2.1
    · by_cases hid : id' = id
      · subst hid
        rw [hstatus] at hafter
        obtain rfl : action = .approve := by
          revert hafter
          cases action <;> decide
        exact ⟨group, actor, hcommit, hpurpose, happrove rfl⟩
      · rw [(hother id' (hspared id' hid)).1] at hafter
        exact absurd hafter hbefore
    · by_cases hid : id' = id
      · subst hid
        exact absurd hold hnew
      · exact absurd ((hother id' (hspared id' hid)).2.2 hstored) hnew
  | _ =>
    have hall : ∀ id, group.purpose.policy ≠ some id := by
      intro id heq
      rw [hpurpose] at heq
      cases heq
    exact ⟨fun id => ho.nodes _, fun id _ => .inl (hother id (hall id)).1.symm, fun id _ => (hother id (hall id)).2.1,
      fun id hbefore hafter => absurd ((hother id (hall id)).1.symm.trans hafter) hbefore,
      fun id hnew hstored => absurd ((hother id (hall id)).2.2 hstored) hnew⟩

/-- **One step** is legal exactly where the group it commits, if any, is timely. -/
theorem legal_iff_timely (hw : w.Asks Rely Offers) (hstep : w.step gw e = some w') :
    Legal gw w e w' ↔ ∀ group, Commits gw w e group w' → Timely w.shared.graph group.purpose := by
  constructor
  · intro hlegal group hcommit
    exact (commits_outcome hw hcommit).timely hlegal.move hlegal.owner
  · intro htimely
    rcases step_graph hstep with hsame | ⟨group, hcommit⟩
    · exact ⟨fun id h => by rw [hsame]; exact h, fun id _ => .inl (by rw [hsame]), fun id _ => by rw [hsame],
        fun id hbefore hafter => absurd (by rw [← hsame]; exact hafter) hbefore,
        fun id hnew hstored => absurd (by rw [← hsame]; exact hstored) hnew⟩
    · exact (commits_outcome hw hcommit).legal hcommit (htimely group hcommit)

/-- A legal step keeps what the calls ask. -/
theorem asks_step (hw : w.Asks Rely Offers) (hstep : w.step gw e = some w') (hlegal : Legal gw w e w') :
    w'.Asks Rely Offers := by
  refine hw.step Rely.refl Rely.trans hstep fun group s hcarries => ?_
  rcases carries_cases hcarries with rfl | ⟨w'', hcommit, rfl⟩
  · exact Rely.refl _
  · obtain rfl : w' = w'' := Option.some.inj (hstep.symm.trans hcommit.2)
    have ho := commits_outcome hw hcommit
    exact ⟨ho.nodes, ho.edges, hlegal.owner⟩

end Runs

/-! ## Runs -/

/-- The event of a history is a legal step at its turn. -/
def LegalAt (gw : Gateway) (w₀ : Lifecycle) (past : List (CallerStep Answer)) (e : CallerStep Answer) : Prop :=
  ∀ w w', after (Lifecycle.step gw) w₀ past = some w → w.step gw e = some w' → Legal gw w e w'

/-- The group the event of a history commits, if any, is timely. -/
def TimelyAt (gw : Gateway) (w₀ : Lifecycle) (past : List (CallerStep Answer)) (e : CallerStep Answer) : Prop :=
  ∀ w w' group, after (Lifecycle.step gw) w₀ past = some w → Commits gw w e group w' →
    Timely w.shared.graph group.purpose

theorem asks_after {gw : Gateway} {w₀ w : Lifecycle} {history : List (CallerStep Answer)} (hw₀ : w₀.Asks Rely Offers)
    (hlegal : Throughout (LegalAt gw w₀) history) (hrun : after (Lifecycle.step gw) w₀ history = some w) :
    w.Asks Rely Offers := by
  induction history using List.reverseRecOn generalizing w with
  | nil =>
    cases hrun
    exact hw₀
  | append_singleton past e ih =>
    obtain ⟨m, hm, hstep⟩ := after_snoc.1 hrun
    exact asks_step (ih hlegal.init hm) hstep (hlegal.last m w hm hstep)

/-- **The status machine under concurrency.** For every interleaving of any lifecycle calls from any graph, every step
is legal exactly where every group takes effect while what its gates required still holds. -/
theorem status_machine_iff (gw : Gateway) (h : Hashing) (s : GraphState) (calls : ℕ → LifecycleCall)
    (history : List (CallerStep Answer)) :
    Throughout (LegalAt gw (Lifecycle.start gw h s calls)) history ↔
      Throughout (TimelyAt gw (Lifecycle.start gw h s calls)) history := by
  have hstart : (Lifecycle.start gw h s calls).Asks Rely Offers := start_asks
  constructor
  · intro hlegal past e future heq w w' group hrun hcommit
    subst heq
    have hpast : Throughout (LegalAt gw (Lifecycle.start gw h s calls)) past := by
      intro past' f future' heq'
      exact hlegal past' f (future' ++ e :: future) (by simp [heq'])
    have hw := asks_after hstart hpast hrun
    exact (legal_iff_timely hw hcommit.2).1 (hlegal past e future rfl w w' hrun hcommit.2) group hcommit
  · intro htimely
    induction history using List.reverseRecOn with
    | nil => intro past e future heq; simp at heq
    | append_singleton past e ih =>
      refine (ih htimely.init).snoc fun w w' hrun hstep => ?_
      have hw := asks_after hstart (ih htimely.init) hrun
      exact (legal_iff_timely hw hstep).2 fun group hcommit => htimely.last w w' group hrun hcommit

/-! ## A race -/

def travelId : String := "pol_travel_8efd86"

/-- The one edge of the tree. -/
def expensesEdge : EdgeKey × PropertyMap :=
  ((edgeBetween "SUPPORTED_BY" (policyRef travelId) (standardRef "std_expenses_8efd86")).edgeKey, ∅)

/-- A gateway over a graph with that edge or none. -/
noncomputable def sampleGateway : Gateway where
  scan := ⟨fun m => if m = 0 then [] else if m = {expensesEdge} then [expensesEdge] else m.toList, fun m => by
    split
    · rename_i h
      rw [h]
      rfl
    · split
      · rename_i h
        rw [h]
        rfl
      · exact m.coe_toList⟩
  allow := ⟨["Policy", "Standard", "Control"], ["SUPPORTED_BY", "IMPLEMENTED_BY"]⟩

def sampleHashing : Hashing := ⟨String.toLower, fun _ => "8efd86"⟩

def alice : Actor := ⟨"alice", "idp"⟩
def bob : Actor := ⟨"bob", "idp"⟩
def carol : Actor := ⟨"carol", "idp"⟩

/-- The owner's create and propose; then one manager approves while another rejects. -/
def raceCalls : ℕ → LifecycleCall
  | 0 => .createPolicyDraft alice "Travel" [⟨"Expenses", []⟩] none []
  | 1 => .proposePolicy alice travelId
  | 2 => .approvePolicy ⟨fun _ => true, fun _ => false⟩ bob travelId
  | _ => .rejectPolicy ⟨fun _ => true, fun _ => false⟩ carol travelId

/-- The reads of one caller. -/
def reads (c n : ℕ) : List (CallerStep Answer) := List.replicate n (.read c)

/-- The submit of one caller, applied. -/
def applied (c : ℕ) : List (CallerStep Answer) := [.request c .applied]

/-- The approval has passed its gates and read its tree when the reject is written. -/
def rejectFirst : List (CallerStep Answer) :=
  reads 0 3 ++ applied 0 ++ reads 1 4 ++ applied 1 ++ reads 2 5 ++ reads 3 4 ++ applied 3

noncomputable def statusAfter (history : List (CallerStep Answer)) : Option (Option PropertyValue) :=
  (after (Lifecycle.step sampleGateway) (Lifecycle.start sampleGateway sampleHashing ⟨∅, 0⟩ raceCalls) history).map
    fun w => statusOf w.shared.graph (policyRef travelId)

theorem stored_of_status {g : Graph} {id : String} {v : PropertyValue} (h : statusOf g (policyRef id) = some v) :
    policyRef id ∈ g.nodes := by
  rw [statusOf, columns_eq] at h
  obtain ⟨content, hcontent, -⟩ := Option.bind_eq_some_iff.1 h
  exact ExtTreeMap.mem_iff_isSome_getElem?.2 (by rw [hcontent]; rfl)

/-- A rejected Policy, back in draft, is approved by the write of an approval that had passed its gates. -/
theorem approved_after_reject : ¬ Throughout
    (LegalAt sampleGateway (Lifecycle.start sampleGateway sampleHashing ⟨∅, 0⟩ raceCalls))
    (rejectFirst ++ [.request 2 .applied]) := by
  intro hlegal
  have hbefore : statusAfter rejectFirst = some (some (text "draft")) := by decide +kernel
  have hafter : statusAfter (rejectFirst ++ [.request 2 .applied]) = some (some (text "approved")) := by decide +kernel
  obtain ⟨w', hrun', happroved⟩ := Option.map_eq_some_iff.1 hafter
  obtain ⟨w, hrun, hstep⟩ := after_snoc.1 hrun'
  have hdraft : statusOf w.shared.graph (policyRef travelId) = some (text "draft") := by
    simpa [statusAfter, hrun] using hbefore
  have hmove := (hlegal.last w w' hrun hstep).move travelId (stored_of_status hdraft)
  rw [hdraft, happroved] at hmove
  revert hmove
  simp [StatusMove, text]

end PolicySystem.PolicyLifecycle
