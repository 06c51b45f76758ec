import PolicySystem.PolicyLifecycle.Versions

/-!
# Adding to a draft

`add_standard_to_draft` and `add_control_to_draft` against what an addition should leave alone. Before its own group a
call fills in what a legacy tree is missing and stamps legacy edges.

* `repaired`: the graph the group of an addition meets, and `repaired_columns`, `repaired_edgesAt`;
* `add_result`: what an accepted addition leaves;
* `adding_never_alters_iff`: an addition alters nothing exactly where the child is new, or is linked and holds already
  every value that is written.
-/

namespace PolicySystem.PolicyLifecycle

open Std (ExtTreeMap)
open Interleaved PropertyGraph GraphWrite

/-! ## Before the group -/

/-- The graph once its legacy edges are stamped. -/
def stampAll (gw : Gateway) (g : Graph) : Graph :=
  applyAll g ((scanUnidentifiedEdges gw.allow gw.scan g).map .stampEdgeIdentity)

/-- What `submit_group` leaves of a group that is taken. -/
def written (gw : Gateway) (g : Graph) (ps : List Primitive) : Graph := if ps = [] then g else applyAll (stampAll gw g) ps

/-- The graph once the tree of a Policy is backfilled and the legacy edges are stamped. -/
def repaired (gw : Gateway) (g : Graph) (policyId : String) : Graph :=
  stampAll gw (written gw g (backfillPrimitives gw.scan g policyId))

section Stamps

variable {g : Graph} {k : EdgeKey}

/-- A stamp fills the key of an edge from the key without an identity. -/
theorem stamps_edgesAt {edges : List EdgeBase} (hstamped : ∀ e ∈ edges, e.unidentifiedKey.stamped = e)
    (hk : k.identity ≠ none) :
    (applyAll g (edges.map .stampEdgeIdentity)).edgesAt k ≠ 0 ↔
      g.edgesAt k ≠ 0 ∨ ∃ e ∈ edges, e.edgeKey = k ∧ g.edgesAt e.unidentifiedKey ≠ 0 := by
  induction edges generalizing g with
  | nil => simp
  | cons e edges ih =>
    have hne : ∀ e' : EdgeBase, e'.unidentifiedKey ≠ k := by
      rintro e' rfl
      exact hk rfl
    rw [List.map_cons, applyAll_cons, applyOne_stamp, ih fun e' he' => hstamped e' (List.mem_cons_of_mem _ he'),
      stampEdge_edgesAt, if_neg (hne e)]
    have hothers : ∀ e' : EdgeBase, (stampEdge g e).edgesAt e'.unidentifiedKey ≠ 0 ↔
        e'.unidentifiedKey ≠ e.unidentifiedKey ∧ g.edgesAt e'.unidentifiedKey ≠ 0 := by
      intro e'
      rw [stampEdge_edgesAt]
      by_cases hsame : e.unidentifiedKey = e'.unidentifiedKey
      · rw [if_pos hsame]
        exact ⟨fun h => absurd rfl h, fun h => absurd hsame.symm h.1⟩
      · rw [if_neg hsame, if_neg fun heq => e'.unidentifiedKey_ne_edgeKey e heq.symm]
        exact ⟨fun h => ⟨fun heq => hsame heq.symm, h⟩, fun h => h.2⟩
    constructor
    · rintro (hnow | ⟨e', he', hkey, hlegacy⟩)
      · by_cases hkey : e.edgeKey = k
        · rw [if_pos hkey, ne_eq, add_eq_zero] at hnow
          by_cases hzero : g.edgesAt e.edgeKey = 0
          · exact .inr ⟨e, List.mem_cons_self, hkey, fun hlegacy => hnow ⟨hzero, hlegacy⟩⟩
          · exact .inl (hkey ▸ hzero)
        · rw [if_neg hkey] at hnow
          exact .inl hnow
      · exact .inr ⟨e', List.mem_cons_of_mem _ he', hkey, ((hothers e').1 hlegacy).2⟩
    · rintro (hold | ⟨e', he', hkey, hlegacy⟩)
      · left
        by_cases hkey : e.edgeKey = k
        · rw [if_pos hkey, hkey, ne_eq, add_eq_zero]
          exact fun h => hold h.1
        · rw [if_neg hkey]
          exact hold
      · by_cases hsame : e'.unidentifiedKey = e.unidentifiedKey
        · obtain rfl : e' = e := by rw [← hstamped e' he', hsame, hstamped e (by simp)]
          left
          rw [if_pos hkey, ne_eq, add_eq_zero]
          exact fun h => hlegacy h.2
        · rcases List.mem_cons.1 he' with rfl | he'
          · exact absurd rfl hsame
          · exact .inr ⟨e', he', hkey, (hothers e').2 ⟨hsame, hlegacy⟩⟩

theorem stampAll_edgesAt {gw : Gateway} {e : EdgeBase} :
    (stampAll gw g).edgesAt e.edgeKey ≠ 0 ↔ g.edgesAt e.edgeKey ≠ 0 ∨ e ∈ scanUnidentifiedEdges gw.allow gw.scan g := by
  unfold stampAll
  rw [stamps_edgesAt (fun e' he' => (mem_scanUnidentifiedEdges.1 he').1) (by simp [EdgeBase.edgeKey])]
  refine or_congr_right ⟨?_, fun he => ⟨e, he, rfl, (mem_scanUnidentifiedEdges.1 he).2.1⟩⟩
  rintro ⟨e', he', hkey, -⟩
  rw [← EdgeBase.edgeKey_injective hkey]
  exact he'

theorem restamped_stampAll (gw : Gateway) (g : Graph) : Restamped g (stampAll gw g) := restamped_stamps _ _

/-! ## The repaired graph -/

/-- The edges with their properties, whatever their identities. -/
def edgesOf (g : Graph) : Multiset (EdgeRecord × PropertyMap) := g.edges.map fun e => (e.1.record, e.2)

theorem stampEdge_edgesOf (g : Graph) (e : EdgeBase) : edgesOf (stampEdge g e) = edgesOf g := by
  show (g.edges.map _).map _ = g.edges.map _
  rw [Multiset.map_map]
  refine Multiset.map_congr rfl fun stored _ => ?_
  rw [Function.comp_apply]
  split
  · rename_i hkey
    rw [hkey]
    rfl
  · rfl

theorem stampAll_edgesOf (gw : Gateway) (g : Graph) : edgesOf (stampAll gw g) = edgesOf g := by
  unfold stampAll
  induction scanUnidentifiedEdges gw.allow gw.scan g generalizing g with
  | nil => rfl
  | cons e edges ih => rw [List.map_cons, applyAll_cons, applyOne_stamp, ih, stampEdge_edgesOf]

/-- The node holds what it held. -/
def Within (v w : NodeContent) : Prop :=
  (∀ (key : String) (x : PropertyValue), v.properties[key]? = some x → w.properties[key]? = some x) ∧
    ∀ e, v.embedding = some e → w.embedding = some e

end Stamps

section Backfill

variable {gw : Gateway} {scan : ScanOrder} {g : Graph} {id : String}

/-- Backfills leave the edges. -/
theorem backfill_edges (g' : Graph) : (applyAll g' (backfillPrimitives scan g id)).edges = g'.edges := by
  have hfills := @fills_backfill scan g id
  generalize backfillPrimitives scan g id = ps at hfills
  induction ps generalizing g' with
  | nil => rfl
  | cons p ps ih =>
    rw [applyAll_cons, ih _ fun q hq => hfills q (List.mem_cons_of_mem _ hq)]
    rcases hfills p List.mem_cons_self with rfl | ⟨n, status, -, rfl⟩ <;> rfl

/-- A backfill creates no node. -/
theorem backfill_mem (g' : Graph) {n : NodeRef} :
    n ∈ (applyAll g' (backfillPrimitives scan g id)).nodes ↔ n ∈ g'.nodes := by
  have hfills := @fills_backfill scan g id
  constructor
  · intro hmem
    by_contra hnot
    obtain ⟨props, e, hp⟩ := applyAll_new hnot hmem
    rcases hfills _ hp with heq | ⟨m, status, -, heq⟩ <;> cases heq
  · refine applyAll_mem fun p hp => ?_
    rcases hfills p hp with rfl | ⟨m, status, -, rfl⟩ <;> trivial

/-- What a backfill sets is missing. -/
theorem backfill_sets {p : Primitive} (hp : p ∈ backfillPrimitives scan g id) {n : NodeRef} {key : String}
    (hs : Sets p n key) : (columns g n)[key]? = none := by
  unfold backfillPrimitives at hp
  split at hp
  · cases hp
  · rename_i content hcontent
    rcases List.mem_append.1 hp with hp | hp
    · split at hp
      · rename_i hversion
        obtain rfl := List.mem_singleton.1 hp
        obtain ⟨rfl, hkey⟩ := hs
        obtain rfl : key = "version" := mem_single.1 hkey
        rw [columns_eq, hcontent]
        exact hversion
      · cases hp
    · split at hp
      · cases hp
      · obtain ⟨m, hm, rfl⟩ := List.mem_map.1 hp
        obtain ⟨rfl, hkey⟩ := hs
        obtain rfl : key = "status" := mem_single.1 hkey
        exact (mem_unsetNodes hm).2

/-- A node of the tree without a status is among those filled in. -/
theorem unset_of_under {n : NodeRef} (hunder : Under g id n) (hnone : (columns g n)["status"]? = none) :
    n ∈ unsetNodes g (treeRows scan g id) := by
  simp only [unsetNodes, List.mem_eraseDups, List.mem_filter, List.mem_flatMap, List.mem_append, Option.mem_toList,
    Option.map_eq_some_iff, decide_eq_true_eq]
  refine ⟨?_, hnone⟩
  obtain ⟨s, hs, rfl | ⟨k, hk, rfl⟩⟩ := hunder
  · obtain ⟨row, hrow, hfirst⟩ := @standard_row scan g id s hs
    exact ⟨row, hrow, .inl ⟨s, hfirst, rfl⟩⟩
  · exact ⟨_, control_row hs hk, .inr ⟨k, rfl, rfl⟩⟩

/-- A backfill leaves the embeddings. -/
theorem backfill_embedding (g' : Graph) (n : NodeRef) :
    (applyAll g' (backfillPrimitives scan g id)).nodes[n]?.map NodeContent.embedding =
      g'.nodes[n]?.map NodeContent.embedding := by
  have hfills := @fills_backfill scan g id
  have hmerge : ∀ (g' : Graph) (m : NodeRef) (props : PropertyMap),
      (applyOne g' (.mergeProperty m props)).nodes[n]?.map NodeContent.embedding = g'.nodes[n]?.map NodeContent.embedding := by
    intro g' m props
    rw [applyOne_eq_write rfl, write_nodes, nodeStep]
    split
    · rw [Option.map_map]
      rfl
    · rfl
  generalize backfillPrimitives scan g id = ps at hfills
  induction ps generalizing g' with
  | nil => rfl
  | cons p ps ih =>
    rw [applyAll_cons, ih _ fun q hq => hfills q (List.mem_cons_of_mem _ hq)]
    rcases hfills p List.mem_cons_self with rfl | ⟨m, status, -, rfl⟩ <;> exact hmerge _ _ _

/-- Once stamped, a graph has nothing to stamp. -/
theorem scan_stampAll {g' : Graph} (h : g'.edges = (stampAll gw g).edges) : scanUnidentifiedEdges gw.allow gw.scan g' = [] := by
  refine List.eq_nil_iff_forall_not_mem.2 fun e he => ?_
  obtain ⟨hstamped, hthere, hallowed⟩ := mem_scanUnidentifiedEdges.1 he
  have hat : (stampAll gw g).edgesAt e.unidentifiedKey ≠ 0 := by
    rw [PropertyGraph.edgesAt, ← h]
    exact hthere
  have hlegacy : g.edgesAt e.unidentifiedKey ≠ 0 := fun hnone => hat (applyAll_unidentified rfl hnone _)
  have hscan : e ∈ scanUnidentifiedEdges gw.allow gw.scan g := mem_scanUnidentifiedEdges.2 ⟨hstamped, hlegacy, hallowed⟩
  exact hat (applyAll_clears (List.mem_map_of_mem hscan) g)

/-- **The repaired graph**: stamped, then backfilled. -/
theorem repaired_eq (gw : Gateway) (g : Graph) (id : String) :
    repaired gw g id = applyAll (stampAll gw g) (backfillPrimitives gw.scan g id) := by
  unfold repaired written
  split
  · rename_i hnil
    rw [hnil]
    rfl
  · have hnone := @scan_stampAll gw g _ (@backfill_edges gw.scan g id (stampAll gw g))
    show applyAll _ ((scanUnidentifiedEdges gw.allow gw.scan
      (applyAll (stampAll gw g) (backfillPrimitives gw.scan g id))).map .stampEdgeIdentity) = _
    rw [hnone]
    rfl

theorem repaired_mem {n : NodeRef} : n ∈ (repaired gw g id).nodes ↔ n ∈ g.nodes := by
  rw [repaired_eq, backfill_mem]
  exact (restamped_stampAll gw g).mem

theorem repaired_edgesOf : edgesOf (repaired gw g id) = edgesOf g := by
  rw [repaired_eq, edgesOf, backfill_edges]
  exact stampAll_edgesOf gw g

theorem repaired_edgesAt {e : EdgeBase} : (repaired gw g id).edgesAt e.edgeKey ≠ 0 ↔
    g.edgesAt e.edgeKey ≠ 0 ∨ e ∈ scanUnidentifiedEdges gw.allow gw.scan g := by
  rw [repaired_eq, PropertyGraph.edgesAt, backfill_edges]
  exact stampAll_edgesAt

/-- What a node holds stays. -/
theorem repaired_keeps {n : NodeRef} {key : String} {x : PropertyValue} (h : (columns g n)[key]? = some x) :
    (columns (repaired gw g id) n)[key]? = some x := by
  rw [repaired_eq, applyAll_columns, (restamped_stampAll gw g).columns, h]
  intro p hp hs
  rw [backfill_sets hp hs] at h
  cases h

/-- A backfill merges the version of the Policy, then the statuses. -/
theorem backfill_split {content : NodeContent} (hcontent : g.nodes[policyRef id]? = some content) :
    ∃ merges, (∀ p ∈ merges, ∃ props, p = .mergeProperty (policyRef id) props) ∧
      backfillPrimitives scan g id = merges ++ (content.properties["status"]?.map fun status =>
        (unsetNodes g (treeRows scan g id)).map fun n => .mergeProperty n (statusIs status)).getD [] := by
  refine ⟨if content.properties["version"]? = none then
    [.mergeProperty (policyRef id) ((∅ : PropertyMap).insert "version" (text "1"))] else [], fun p hp => ?_, ?_⟩
  · split at hp
    · exact ⟨_, List.mem_singleton.1 hp⟩
    · cases hp
  · simp only [backfillPrimitives, hcontent]
    cases content.properties["status"]? <;> rfl

/-- A node of the tree gets the Policy's status where it has none, and nothing else. -/
theorem repaired_columns {n : NodeRef} (hunder : Under g id n) (key : String) :
    (columns (repaired gw g id) n)[key]? =
      if key = "status" ∧ (columns g n)["status"]? = none then statusOf g (policyRef id) else (columns g n)[key]? := by
  obtain ⟨content, hcontent⟩ := Option.isSome_iff_exists.1 (ExtTreeMap.mem_iff_isSome_getElem?.1 hunder.mem.1)
  obtain ⟨merges, hmerges, hsplit⟩ := @backfill_split gw.scan _ _ _ hcontent
  have hstatus : statusOf g (policyRef id) = content.properties["status"]? := by
    rw [statusOf, columns_eq, hcontent]
    rfl
  -- the version goes to the Policy itself
  have hversion : ∀ key : String, (columns (applyAll (stampAll gw g) merges) n)[key]? = (columns g n)[key]? := by
    intro key
    rw [applyAll_columns, (restamped_stampAll gw g).columns]
    intro p hp hs
    obtain ⟨props, rfl⟩ := hmerges p hp
    exact hunder.ne_policy hs.1.symm
  have hmem : n ∈ (applyAll (stampAll gw g) merges).nodes := by
    refine applyAll_mem (fun p hp => ?_) ((restamped_stampAll gw g).mem.2 hunder.mem.2)
    obtain ⟨props, rfl⟩ := hmerges p hp
    trivial
  rw [repaired_eq, hsplit, applyAll_append, hstatus]
  cases content.properties["status"]? with
  | none =>
    show (columns (applyAll (stampAll gw g) merges) n)[key]? = _
    rw [hversion]
    split
    · rename_i hnone
      rw [hnone.1, hnone.2]
    · rfl
  | some status =>
    rw [Option.map_some, Option.getD_some]
    split
    · rename_i hnone
      rw [hnone.1]
      exact statuses_set (unset_of_under hunder hnone.2) hmem
    · rename_i hnot
      rw [applyAll_columns (not_sets_statuses ?_), hversion]
      by_cases hkey : key = "status"
      · exact .inr fun hin => hnot ⟨hkey, (mem_unsetNodes hin).2⟩
      · exact .inl hkey

/-- A node holds in the repaired graph what it held. -/
theorem repaired_within {n : NodeRef} {v : NodeContent} (h : g.nodes[n]? = some v) :
    ∃ w, (repaired gw g id).nodes[n]? = some w ∧ Within v w := by
  have hmem : n ∈ g.nodes := ExtTreeMap.mem_iff_isSome_getElem?.2 (by rw [h]; rfl)
  obtain ⟨w, hw⟩ := Option.isSome_iff_exists.1 (ExtTreeMap.mem_iff_isSome_getElem?.1 (repaired_mem.2 hmem))
  refine ⟨w, hw, fun key x hx => ?_, fun e he => ?_⟩
  · have hold : (columns g n)[key]? = some x := by
      rw [columns_eq, h]
      exact hx
    have hkept := @repaired_keeps gw _ id _ _ _ hold
    rw [columns_eq, hw] at hkept
    exact hkept
  · have hsame := @backfill_embedding gw.scan g id (stampAll gw g) n
    rw [← repaired_eq, hw, (restamped_stampAll gw g).nodes, h] at hsame
    exact (Option.some.inj hsame).trans he

end Backfill

/-! ## What an addition is -/

/-- A child that a call adds under a parent, in the tree of a Policy. -/
structure Addition where
  policyId : String
  parent : NodeRef
  child : NodeRef
  edgeType : String
  properties : PropertyMap

def Addition.edge (a : Addition) : EdgeBase := edgeBetween a.edgeType a.parent a.child

/-- The edge, under whatever identity. -/
def Addition.link (a : Addition) : EdgeRecord := a.edge.edgeKey.record

def Addition.primitives (a : Addition) : List Primitive := childPrimitives a.parent a.child a.properties a.edgeType

/-- What `add_standard_to_draft` or `add_control_to_draft` adds. -/
def addition (gw : Gateway) (h : Hashing) (g : Graph) : LifecycleCall → Option Addition
  | .addStandardToDraft _ _ policyId title fields =>
    some ⟨policyId, policyRef policyId, standardRef (h.standardId policyId title), "SUPPORTED_BY",
      newStandardProperties title fields⟩
  | .addControlToDraft _ _ standardId title controlType fields =>
    (findStandardWithParent gw.scan g standardId).map fun row =>
      ⟨row.policyId, standardRef standardId, controlRef (h.controlId standardId title), "IMPLEMENTED_BY",
        newControlProperties title controlType fields⟩
  | _ => none

/-- The call returns. -/
def Accepted (gw : Gateway) (h : Hashing) (s : GraphState) (call : LifecycleCall) : Prop :=
  ((call.flow gw h).run gw.serve s).1 = some ()

/-- **Adding never alters.** Besides the missing versions, statuses and identities of a legacy tree, an addition whose
child is under the parent already changes nothing, and any other adds one node and one edge. -/
structure NeverAlters (gw : Gateway) (g f : Graph) (a : Addition) : Prop where
  nodes : ∀ (n : NodeRef) (v : NodeContent), g.nodes[n]? = some v → ∃ w, f.nodes[n]? = some w ∧ Within v w
  edges : edgesOf g ≤ edgesOf f
  again : Shows g a.link → f = repaired gw g a.policyId
  first : ¬ Shows g a.link → a.child ∉ g.nodes ∧ a.child ∈ f.nodes ∧
    (∀ n : NodeRef, n ≠ a.child → f.nodes[n]? = (repaired gw g a.policyId).nodes[n]?) ∧
    f.edges = (a.edge.edgeKey, ∅) ::ₘ (repaired gw g a.policyId).edges

/-- The edge is there under its identity or will be stamped, and the child holds every value that is written; a missing
status is filled in with the Policy's. -/
def AddedAlready (gw : Gateway) (g : Graph) (a : Addition) : Prop :=
  (g.edgesAt a.edge.edgeKey ≠ 0 ∨ a.edge ∈ scanUnidentifiedEdges gw.allow gw.scan g) ∧
    ∀ (key : String) (x : PropertyValue), a.properties[key]? = some x → (columns g a.child)[key]? = some x ∨
      key = "status" ∧ (columns g a.child)["status"]? = none ∧ statusOf g (policyRef a.policyId) = some x

/-- A child that is linked is added already, and one that is not is new. -/
def HarmlessAddition (gw : Gateway) (g : Graph) (a : Addition) : Prop :=
  (Shows g a.link → AddedAlready gw g a) ∧ (¬ Shows g a.link → a.child ∉ g.nodes)

/-! ## The group of an addition -/

section Child

variable {g : Graph} {a : Addition}

theorem shows_link (h : g.edgesAt a.edge.edgeKey ≠ 0) : Shows g a.link := shows_iff.2 ⟨a.edge.edgeKey, rfl, h⟩

theorem applyAll_primitives : applyAll g a.primitives =
    applyOne (applyOne g (.upsertNode a.child a.properties none)) (.upsertEdge a.edge ∅) := rfl

theorem upsertEdge_nodes (e : EdgeBase) (props : PropertyMap) (n : NodeRef) :
    (applyOne g (.upsertEdge e props)).nodes[n]? = g.nodes[n]? := by
  rw [applyOne_eq_write rfl, write_nodes]
  rfl

theorem child_nodes {n : NodeRef} (hne : n ≠ a.child) : (applyAll g a.primitives).nodes[n]? = g.nodes[n]? := by
  rw [applyAll_primitives, upsertEdge_nodes, applyOne_eq_write rfl, write_nodes, nodeStep, if_neg hne.symm]

theorem child_node : (applyAll g a.primitives).nodes[a.child]? =
    some ((g.nodes[a.child]?.getD default).upsert a.properties none) := by
  rw [applyAll_primitives, upsertEdge_nodes, applyOne_eq_write rfl, write_nodes, nodeStep, if_pos rfl]

/-- The edge is added where there is none under its identity, else all stay. -/
theorem child_edges (hparent : a.parent ∈ g.nodes) : (applyAll g a.primitives).edges =
    if g.edgesAt a.edge.edgeKey = 0 then (a.edge.edgeKey, ∅) ::ₘ g.edges else g.edges := by
  have hchild : a.child ∈ (applyOne g (.upsertNode a.child a.properties none)).nodes := creates_mem rfl
  have hstays : a.parent ∈ (applyOne g (.upsertNode a.child a.properties none)).nodes :=
    applyOne_stays (fun m hm => by cases hm) hparent
  have hends : hasEnds (applyOne g (.upsertNode a.child a.properties none)) a.edge.edgeKey = true := by
    simp only [hasEnds, Bool.and_eq_true, decide_eq_true_eq]
    exact ⟨hstays, hchild⟩
  have hedges : (applyOne g (.upsertNode a.child a.properties none)).edges = g.edges := by
    rw [applyOne_eq_write rfl]
    rfl
  have hunion : ∀ p : PropertyMap, p ∪ ∅ = p := by
    intro p
    refine ExtTreeMap.ext_getElem? fun key => ?_
    simp [ExtTreeMap.getElem?_union]
  have hset : (setEdge (applyOne g (.upsertNode a.child a.properties none)) a.edge.edgeKey ∅ (· ∪ ∅)).edges =
      if ∀ e ∈ g.edges, e.1 ≠ a.edge.edgeKey then (a.edge.edgeKey, ∅) ::ₘ g.edges else g.edges := by
    simp only [setEdge, hends, hedges, true_and, hunion]
    split
    · rfl
    · conv_rhs => rw [← Multiset.map_id g.edges]
      refine Multiset.map_congr rfl fun e _ => ?_
      split
      · rename_i hkey
        exact Prod.ext hkey.symm rfl
      · rfl
  rw [applyAll_primitives, applyOne_eq_write rfl]
  show (setEdge _ _ ∅ _).edges = _
  rw [hset]
  exact if_congr fiber_eq_zero.symm rfl rfl

/-- **An addition changes nothing** exactly where the edge is there and the child holds what is written. -/
theorem child_noop_iff (hparent : a.parent ∈ g.nodes) : applyAll g a.primitives = g ↔
    g.edgesAt a.edge.edgeKey ≠ 0 ∧
      ∀ (key : String) (x : PropertyValue), a.properties[key]? = some x → (columns g a.child)[key]? = some x := by
  constructor
  · intro hsame
    constructor
    · intro hnone
      have hedges := child_edges (a := a) hparent
      rw [hsame, if_pos hnone] at hedges
      have hcard := congrArg Multiset.card hedges
      rw [Multiset.card_cons] at hcard
      omega
    · intro key x hx
      have hnode := child_node (g := g) (a := a)
      rw [hsame] at hnode
      rw [columns_eq, hnode]
      simp [NodeContent.upsert, ExtTreeMap.getElem?_union, hx]
  · rintro ⟨hthere, hholds⟩
    have hmem : a.child ∈ g.nodes := (shows_ends (shows_link hthere)).2
    obtain ⟨v, hv⟩ := Option.isSome_iff_exists.1 (ExtTreeMap.mem_iff_isSome_getElem?.1 hmem)
    refine ext_at (fun n => ?_) fun k => ?_
    · by_cases hn : n = a.child
      · rw [hn, child_node, hv, Option.getD_some]
        refine congrArg some (NodeContent.ext_get (fun key => ?_) rfl)
        simp only [NodeContent.upsert, ExtTreeMap.getElem?_union]
        cases hx : a.properties[key]? with
        | none => rfl
        | some x =>
          have hold := hholds key x hx
          rw [columns_eq, hv] at hold
          exact hold.symm
      · exact child_nodes hn
    · rw [PropertyGraph.edgesAt, child_edges hparent, if_neg hthere]
      rfl

end Child

/-! ## The call -/

section Call

variable {gw : Gateway} {h : Hashing} {s : GraphState}

/-- What `submit_group` of a supplied group leaves. -/
theorem does_written {R : GraphState → Prop} {purpose : Purpose} {ps : List Primitive} {P : GraphState → Unit → Prop}
    (hsupplied : Supplied (· ∈ s.graph.nodes) ps) (hP : ∀ n, P ⟨written gw s.graph ps, n⟩ ()) :
    Does gw R (submitGroup gw purpose ps) P s := by
  unfold submitGroup
  unfold written at hP
  split
  · rename_i hnil
    rw [if_pos hnil] at hP
    exact hP s.position
  · rename_i hne
    rw [if_neg hne] at hP
    refine Flow.alone_bind (Flow.alone_bind (does_query ?_))
    have hstamped := restamped_stampAll gw s.graph
    split
    · rename_i hnone
      have hsame : stampAll gw s.graph = s.graph := by
        unfold stampAll
        rw [hnone]
        rfl
      rw [hsame] at hP
      exact Flow.alone_bind (does_submit hsupplied rfl hP)
    · refine Flow.alone_bind (Flow.alone_ask ?_)
      rw [serve_stamps]
      exact Flow.alone_bind (does_submit (hstamped.supplied hsupplied) rfl hP)

/-- **What an accepted addition leaves**: its group on the repaired graph. -/
theorem add_result {call : LifecycleCall} {a : Addition} (hadd : addition gw h s.graph call = some a) :
    Does gw (fun _ => True) (call.flow gw h) (fun s' _ => s'.graph = applyAll (repaired gw s.graph a.policyId) a.primitives ∧
      a.parent ∈ (repaired gw s.graph a.policyId).nodes) s := by
  have hwrite : ∀ (n : ℕ) (purpose : Purpose), a.parent ∈ s.graph.nodes →
      Does gw (fun _ => True) (submitGroup gw purpose a.primitives)
        (fun s' _ => s'.graph = applyAll (repaired gw s.graph a.policyId) a.primitives ∧
          a.parent ∈ (repaired gw s.graph a.policyId).nodes)
        ⟨written gw s.graph (backfillPrimitives gw.scan s.graph a.policyId), n⟩ := by
    intro n purpose hparent
    have hrepaired : a.parent ∈ (repaired gw s.graph a.policyId).nodes := repaired_mem.2 hparent
    refine does_written (supplied_child ?_) fun m => ⟨?_, hrepaired⟩
    · exact (restamped_stampAll gw _).mem.1 hrepaired
    · rw [written, if_neg (by simp [Addition.primitives, childPrimitives])]
      rfl
  cases call with
  | addStandardToDraft access actor policyId title fields =>
    obtain rfl := Option.some.inj hadd
    refine Flow.alone_bind (Flow.alone_bind (Flow.alone_bind (does_query (does_written supplied_backfill fun n => ?_))))
    refine Flow.alone_bind (does_query (does_need (fun _ => trivial) fun r hr => ?_))
    refine Flow.alone_bind (does_gate (fun _ => trivial) fun _ => ?_)
    refine hwrite n _ ?_
    exact repaired_mem.1 ((restamped_stampAll gw _).mem.2 (readPolicyTree_spec hr).1)
  | addControlToDraft access actor standardId title controlType fields =>
    obtain ⟨row, hrow, rfl⟩ := Option.map_eq_some_iff.1 hadd
    refine Flow.alone_bind (Flow.alone_bind (does_query ?_))
    rw [hrow]
    refine Flow.alone_bind (does_need (fun hno => by cases hno) fun row' hrow' => ?_)
    obtain rfl := Option.some.inj hrow'
    refine Flow.alone_bind (Flow.alone_bind (does_query (does_written supplied_backfill fun n => ?_)))
    refine Flow.alone_bind (does_query (does_need (fun _ => trivial) fun r hr => ?_))
    refine Flow.alone_bind (does_gate (fun _ => trivial) fun _ => ?_)
    exact hwrite n _ (supportedBy_ends (findStandardWithParent_spec hrow).1).2
  | _ => cases hadd

theorem accepted_result {call : LifecycleCall} {a : Addition} (hadd : addition gw h s.graph call = some a)
    (haccepted : Accepted gw h s call) :
    (callAlone gw h s call).graph = applyAll (repaired gw s.graph a.policyId) a.primitives ∧
      a.parent ∈ (repaired gw s.graph a.policyId).nodes :=
  (Flow.alone_run (add_result hadd)).1 () haccepted

/-- A child under the parent of an addition is under the Policy whose tree is backfilled. -/
theorem under_of_link {g : Graph} {call : LifecycleCall} {a : Addition} (hadd : addition gw h g call = some a)
    (hlink : Shows g a.link) : Under g a.policyId a.child := by
  cases call with
  | addStandardToDraft access actor policyId title fields =>
    obtain rfl := Option.some.inj hadd
    exact ⟨_, hlink, .inl rfl⟩
  | addControlToDraft access actor standardId title controlType fields =>
    obtain ⟨row, hrow, rfl⟩ := Option.map_eq_some_iff.1 hadd
    exact ⟨standardId, (findStandardWithParent_spec hrow).1, .inr ⟨_, hlink, rfl⟩⟩
  | _ => cases hadd

/-- The repaired graph holds what is written exactly where it is added already. -/
theorem addedAlready_iff {g : Graph} {a : Addition} (hunder : Under g a.policyId a.child) : AddedAlready gw g a ↔
    (repaired gw g a.policyId).edgesAt a.edge.edgeKey ≠ 0 ∧ ∀ (key : String) (x : PropertyValue),
      a.properties[key]? = some x → (columns (repaired gw g a.policyId) a.child)[key]? = some x := by
  unfold AddedAlready
  rw [repaired_edgesAt]
  refine and_congr_right fun _ => forall_congr' fun key => forall_congr' fun x => imp_congr_right fun _ => ?_
  rw [repaired_columns hunder]
  by_cases hfilled : key = "status" ∧ (columns g a.child)["status"]? = none
  · rw [if_pos hfilled, hfilled.1, hfilled.2]
    simp
  · rw [if_neg hfilled]
    exact ⟨fun hor => hor.resolve_right fun hno => hfilled ⟨hno.1, hno.2.1⟩, .inl⟩

end Call

/-- **An accepted addition alters nothing** exactly where its child is new, or is linked and holds already every value
that is written. -/
theorem adding_never_alters_iff (gw : Gateway) (h : Hashing) (s : GraphState) (call : LifecycleCall) {a : Addition}
    (hadd : addition gw h s.graph call = some a) (haccepted : Accepted gw h s call) :
    NeverAlters gw s.graph (callAlone gw h s call).graph a ↔ HarmlessAddition gw s.graph a := by
  obtain ⟨hresult, hparent⟩ := accepted_result hadd haccepted
  rw [hresult]
  constructor
  · intro hnever
    refine ⟨fun hlink => ?_, fun hlink => (hnever.first hlink).1⟩
    rw [addedAlready_iff (under_of_link hadd hlink)]
    exact (child_noop_iff hparent).1 (hnever.again hlink)
  · intro hharmless
    by_cases hlink : Shows s.graph a.link
    · have hsame : applyAll (repaired gw s.graph a.policyId) a.primitives = repaired gw s.graph a.policyId :=
        (child_noop_iff hparent).2 ((addedAlready_iff (under_of_link hadd hlink)).1 (hharmless.1 hlink))
      rw [hsame]
      exact ⟨fun n v hv => repaired_within hv, repaired_edgesOf.ge, fun _ => rfl, fun hno => absurd hlink hno⟩
    · have hnew : a.child ∉ s.graph.nodes := hharmless.2 hlink
      have hnone : (repaired gw s.graph a.policyId).edgesAt a.edge.edgeKey = 0 := by
        by_contra hthere
        rcases repaired_edgesAt.1 hthere with hold | hlegacy
        · exact hlink (shows_link hold)
        · exact hlink (shows_iff.2 ⟨a.edge.unidentifiedKey, rfl, (mem_scanUnidentifiedEdges.1 hlegacy).2.1⟩)
      have hedges := child_edges (a := a) hparent
      rw [if_pos hnone] at hedges
      refine ⟨fun n v hv => ?_, ?_, fun hyes => absurd hyes hlink, fun _ => ⟨hnew, ?_, fun n hn => child_nodes hn, hedges⟩⟩
      · obtain ⟨w, hw, hwithin⟩ := @repaired_within gw _ a.policyId _ _ hv
        refine ⟨w, ?_, hwithin⟩
        rw [child_nodes, hw]
        rintro rfl
        exact hnew (ExtTreeMap.mem_iff_isSome_getElem?.2 (by rw [hv]; rfl))
      · rw [← @repaired_edgesOf gw _ a.policyId, edgesOf, edgesOf, hedges, Multiset.map_cons]
        exact Multiset.le_cons_self _ _
      · exact ExtTreeMap.mem_iff_isSome_getElem?.2 (by rw [child_node]; rfl)

/-! ## A Standard that was edited -/

def noStandardFields : ContentFields "Standard" := ⟨[], by decide, by decide⟩

/-- The Standard is in use. -/
def implementedFields : ContentFields "Standard" :=
  ⟨[("implementation_status", some "implemented")], by decide, by decide +kernel⟩

/-- A draft without Standards. -/
noncomputable def bareTravel : GraphState :=
  callAlone sampleGateway sampleHashing ⟨∅, 0⟩ (.createPolicyDraft alice "Travel" [] none [])

/-- A draft with one Standard, whose owner has marked it as implemented. -/
noncomputable def implementedTravel : GraphState :=
  callsAlone sampleGateway sampleHashing ⟨∅, 0⟩ [.createPolicyDraft alice "Travel" [⟨"Expenses", []⟩] none [],
    .updateStandardDraft ⟨fun _ => false, fun _ => false⟩ alice "std_expenses_8efd86" implementedFields]

def addExpenses : LifecycleCall :=
  .addStandardToDraft ⟨fun _ => false, fun _ => false⟩ alice travelId "Expenses" noStandardFields

def expensesAddition : Addition := ⟨travelId, policyRef travelId, standardRef "std_expenses_8efd86", "SUPPORTED_BY",
  newStandardProperties "Expenses" noStandardFields⟩

theorem addition_addExpenses (g : Graph) : addition sampleGateway sampleHashing g addExpenses = some expensesAddition := by
  have hid : sampleHashing.standardId travelId "Expenses" = "std_expenses_8efd86" := by decide +kernel
  show some (Addition.mk _ _ (standardRef (sampleHashing.standardId travelId "Expenses")) _ _) = _
  rw [hid]
  rfl

/-- The first Standard of a draft alters nothing. -/
theorem adding_never_alters_first : NeverAlters sampleGateway bareTravel.graph
    (callAlone sampleGateway sampleHashing bareTravel addExpenses).graph expensesAddition := by
  have hnone : bareTravel.graph.edges = 0 := by decide +kernel
  have hnew : ¬ Shows bareTravel.graph expensesAddition.link := by
    rintro ⟨e, he, -⟩
    rw [hnone] at he
    exact Multiset.notMem_zero e he
  have haccepted : Accepted sampleGateway sampleHashing bareTravel addExpenses := by
    unfold Accepted
    decide +kernel
  exact (adding_never_alters_iff sampleGateway sampleHashing bareTravel addExpenses (addition_addExpenses _) haccepted).2
    ⟨fun hlink => absurd hlink hnew, fun _ => by decide +kernel⟩

/-- **Adding the Standard again** takes its implementation status back. -/
theorem added_again_reset : ¬ ∀ (gw : Gateway) (h : Hashing) (s : GraphState) (call : LifecycleCall) (a : Addition),
    addition gw h s.graph call = some a → Accepted gw h s call →
      NeverAlters gw s.graph (callAlone gw h s call).graph a := by
  intro hall
  have haccepted : Accepted sampleGateway sampleHashing implementedTravel addExpenses := by
    unfold Accepted
    decide +kernel
  have hnever := hall sampleGateway sampleHashing implementedTravel addExpenses expensesAddition
    (addition_addExpenses _) haccepted
  have hbefore : (columns implementedTravel.graph expensesAddition.child)["implementation_status"]? =
      some (text "implemented") := by decide +kernel
  have hafter : (columns (callAlone sampleGateway sampleHashing implementedTravel addExpenses).graph
      expensesAddition.child)["implementation_status"]? = some (text "draft") := by decide +kernel
  rw [columns_eq] at hbefore
  obtain ⟨v, hv, hvalue⟩ := Option.bind_eq_some_iff.1 hbefore
  obtain ⟨w, hw, hwithin⟩ := hnever.nodes _ v hv
  have hkept := hwithin.1 _ _ hvalue
  rw [columns_eq, hw] at hafter
  exact absurd (hkept.symm.trans hafter) (by decide)

end PolicySystem.PolicyLifecycle
