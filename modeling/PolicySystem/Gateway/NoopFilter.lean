import PolicySystem.Gateway.Query

/-!
# The no-op filter

`graph_gateway/noop_filter.py`: the state a group names is read once, the group is walked over an overlay of
it, and a primitive that leaves the overlay as it is is dropped.

* `selectEffectivePrimitives`: the filter, over the reads of `graph_gateway/graph_reader.py`;
* `Overlays`: the overlay shows, on what the group names, the graph the group has met so far;
* `overlay_apply`: one primitive on the overlay and on the graph;
* `select_sound_minimal`: **the selected primitives do what the group does, each changes what it meets, and a
  group is rejected exactly when a primitive's node is missing at its turn.**
-/

open Std (ExtTreeMap)

namespace PolicySystem

open PropertyGraph GraphWrite

/-! ## Reading the graph -/

/-- An order in which a scan answers the edges of a graph: nothing but a permutation is promised. -/
structure ScanOrder where
  order : Multiset (EdgeKey × PropertyMap) → List (EdgeKey × PropertyMap)
  perm : ∀ m, (order m : Multiset (EdgeKey × PropertyMap)) = m

/-- `read_nodes`: what each named node holds; absent nodes are not keys. -/
def readNodes (g : Graph) (nodes : List NodeRef) : ExtTreeMap NodeRef NodeContent :=
  g.nodes.filter fun node _ => node ∈ nodes

/-- `read_existing_nodes`, as the keys the filter adds: only their existence is used. -/
def readExistingNodes (g : Graph) (nodes : List NodeRef) : ExtTreeMap NodeRef NodeContent :=
  (g.nodes.filter fun node _ => node ∈ nodes).map fun _ _ => {}

/-- `read_edges`, and `read_unidentified_edges` for keys without an identity: the last answer for a key stays. -/
def readEdges (scan : ScanOrder) (g : Graph) (edges : List EdgeKey) : ExtTreeMap EdgeKey PropertyMap :=
  (scan.order g.edges).foldl (fun found e => if e.1 ∈ edges then found.insert e.1 e.2 else found) ∅

/-! ## The overlay -/

/-- The graph state a group sees: what was read, changed by the primitives walked so far. -/
structure Overlay where
  nodes : ExtTreeMap NodeRef NodeContent
  edges : ExtTreeMap EdgeKey PropertyMap

/-- `MissingTargetError`: an edge endpoint or a merge target of the primitive at `index` exists nowhere. -/
structure MissingTarget where
  index : ℕ
  deriving DecidableEq

def MissingTarget.message (e : MissingTarget) : String :=
  "primitive " ++ toString e.index ++ " names a node that does not exist"

/-- `_already_holds` of a node upsert: an absent embedding asks for nothing. -/
def NodeContent.alreadyHolds (current : NodeContent) (properties : PropertyMap) (embedding : Option Embedding) : Bool :=
  PolicySystem.alreadyHolds current.properties properties &&
    embedding.all fun wanted => current.embedding == some wanted

/-- The nodes and edges without a deleted node: the edges at it go with it. -/
def Overlay.deleteNode (o : Overlay) (node : NodeRef) : Overlay where
  nodes := o.nodes.erase node
  edges := o.edges.filter fun edge _ => edge.source ≠ node ∧ edge.target ≠ node

/-- `_Overlay.apply`: whether the primitive changed the overlay, and the overlay after it. -/
def Overlay.apply (o : Overlay) (index : ℕ) : Primitive → Except MissingTarget (Bool × Overlay)
  | .upsertNode node properties embedding =>
    match o.nodes[node]? with
    | some current =>
      if current.alreadyHolds properties embedding then .ok (false, o)
      else .ok (true, { o with nodes := o.nodes.insert node (current.upsert properties embedding) })
    | none => .ok (true, { o with nodes := o.nodes.insert node ((default : NodeContent).upsert properties embedding) })
  | .mergeProperty node properties =>
    match o.nodes[node]? with
    | none => .error ⟨index⟩
    | some current =>
      if alreadyHolds current.properties properties then .ok (false, o)
      else .ok (true, { o with nodes := o.nodes.insert node (current.merge properties) })
  | .removeProperty node keys =>
    match o.nodes[node]? with
    | none => .ok (false, o)
    | some current =>
      if keys.any fun key => key ∈ current.properties then
        .ok (true, { o with nodes := o.nodes.insert node (current.remove keys) })
      else .ok (false, o)
  | .deleteNode node => if node ∈ o.nodes then .ok (true, o.deleteNode node) else .ok (false, o)
  | .upsertEdge edge properties =>
    if edge.source ∈ o.nodes ∧ edge.target ∈ o.nodes then
      match o.edges[edge.edgeKey]? with
      | some current =>
        if alreadyHolds current properties then .ok (false, o)
        else .ok (true, { o with edges := o.edges.insert edge.edgeKey (current ∪ properties) })
      | none => .ok (true, { o with edges := o.edges.insert edge.edgeKey (∅ ∪ properties) })
    else .error ⟨index⟩
  | .deleteEdge edge =>
    if edge.edgeKey ∈ o.edges then .ok (true, { o with edges := o.edges.erase edge.edgeKey }) else .ok (false, o)
  | .stampEdgeIdentity edge =>
    match o.edges[edge.unidentifiedKey]? with
    | none => .ok (false, o)
    | some legacy =>
      let popped := o.edges.erase edge.unidentifiedKey
      .ok (true, { o with edges := if edge.edgeKey ∈ popped then popped else popped.insert edge.edgeKey legacy })

/-- The walk of a group over the overlay. -/
def selectFrom (o : Overlay) (index : ℕ) : List Primitive → Except MissingTarget (List Primitive)
  | [] => .ok []
  | p :: ps => do
    let (changed, o') ← o.apply index p
    let rest ← selectFrom o' (index + 1) ps
    return if changed then p :: rest else rest

/-- `_acted_on_nodes`: the nodes whose content decides the no-ops. -/
def actedOnNodes (group : List Primitive) : List NodeRef :=
  group.filterMap fun
    | .upsertNode node _ _ => some node
    | .mergeProperty node _ => some node
    | .removeProperty node _ => some node
    | .deleteNode node => some node
    | _ => none

/-- `_edge_endpoints`. -/
def edgeEndpoints (group : List Primitive) : List NodeRef :=
  group.flatMap fun
    | .upsertEdge edge _ => [edge.source, edge.target]
    | .deleteEdge edge => [edge.source, edge.target]
    | _ => []

/-- `_named_edges`. -/
def namedEdges (group : List Primitive) : List EdgeKey :=
  group.filterMap fun
    | .upsertEdge edge _ => some edge.edgeKey
    | .deleteEdge edge => some edge.edgeKey
    | _ => none

/-- `_stamped_edges`. -/
def stampedEdges (group : List Primitive) : List EdgeKey :=
  group.filterMap fun
    | .stampEdgeIdentity edge => some edge.unidentifiedKey
    | _ => none

/-- The overlay of the state a group names, before its first primitive. -/
def readOverlay (scan : ScanOrder) (g : Graph) (group : List Primitive) : Overlay :=
  let actedOn := actedOnNodes group
  let endpoints := (edgeEndpoints group).filter (· ∉ actedOn)
  { nodes := readNodes g actedOn ∪ readExistingNodes g endpoints
    edges := readEdges scan g (namedEdges group) ∪ readEdges scan g (stampedEdges group) }

/-- **`select_effective_primitives`.** -/
def selectEffectivePrimitives (scan : ScanOrder) (g : Graph) (group : List Primitive) :
    Except MissingTarget (List Primitive) :=
  selectFrom (readOverlay scan g group) 0 group

/-! ## What leaves an element as it is -/

theorem NodeContent.alreadyHolds_iff {v : NodeContent} {p : PropertyMap} {e : Option Embedding} :
    v.alreadyHolds p e = true ↔ v.upsert p e = v := by
  rw [NodeContent.alreadyHolds, Bool.and_eq_true, PolicySystem.alreadyHolds_iff]
  cases v with
  | mk props emb =>
    simp only [NodeContent.upsert, NodeContent.mk.injEq]
    refine and_congr_right fun _ => ?_
    cases e with
    | none => simp
    | some w => rw [Option.all_some, beq_iff_eq, Option.some_or]; exact eq_comm

theorem merge_eq_iff {v : NodeContent} {p : PropertyMap} :
    PolicySystem.alreadyHolds v.properties p = true ↔ v.merge p = v := by
  rw [PolicySystem.alreadyHolds_iff]
  cases v; simp [NodeContent.merge]

theorem remove_eq_iff {v : NodeContent} {keys : List String} :
    (keys.any fun key => key ∈ v.properties) = false ↔ v.remove keys = v := by
  constructor
  · intro h
    refine NodeContent.ext_get (fun k => ?_) rfl
    rw [NodeContent.remove_properties]
    split
    · rename_i hk
      have : ¬ k ∈ v.properties := by simpa using List.any_eq_false.1 h k hk
      rw [ExtTreeMap.mem_iff_isSome_getElem?, Option.not_isSome_iff_eq_none] at this
      exact this.symm
    · rfl
  · intro h
    rw [List.any_eq_false]
    intro k hk hin
    have hk' := NodeContent.remove_properties keys v k
    rw [h, if_pos hk] at hk'
    simp only [decide_eq_true_eq] at hin
    rw [ExtTreeMap.mem_iff_isSome_getElem?, hk'] at hin
    simp at hin

/-! ## The overlay shows the graph -/

/-- The edges an optional entry of the overlay stands for. -/
def slotOf : Option PropertyMap → Multiset PropertyMap
  | none => 0
  | some p => {p}

theorem slotOf_eq_zero {x : Option PropertyMap} : slotOf x = 0 ↔ x = none := by
  cases x <;> simp [slotOf]

/-- **The overlay shows the graph** on what the group names: contents where a node primitive acts, existence
at the endpoints, and the one edge, if any, at each named or stamped key. -/
structure Overlays (group : List Primitive) (o : Overlay) (g : Graph) : Prop where
  acted : ∀ n ∈ actedOnNodes group, o.nodes[n]? = g.nodes[n]?
  ends : ∀ n ∈ edgeEndpoints group, n ∈ o.nodes ↔ n ∈ g.nodes
  named : ∀ k ∈ namedEdges group ++ stampedEdges group, g.edgesAt k = slotOf o.edges[k]?

/-- An endpoint of an upserted edge or the target of a merge is absent. -/
def MissingNode (g : Graph) : Primitive → Prop
  | .upsertEdge edge _ => edge.source ∉ g.nodes ∨ edge.target ∉ g.nodes
  | .mergeProperty node _ => node ∉ g.nodes
  | _ => False

/-- A stamp finds an identity-less edge beside one that already carries its identity. -/
def Obstructed (g : Graph) : Primitive → Prop
  | .stampEdgeIdentity edge => g.edgesAt edge.unidentifiedKey ≠ 0 ∧ g.edgesAt edge.edgeKey ≠ 0
  | _ => False

section Step

variable {group : List Primitive} {o : Overlay} {g : Graph}

theorem getElem?_insert_self' {α β : Type} [Ord α] [Std.TransOrd α] [Std.LawfulEqOrd α] [DecidableEq α]
    (m : ExtTreeMap α β) (k a : α) (v : β) : (m.insert k v)[a]? = if k = a then some v else m[a]? := by
  simp only [ExtTreeMap.getElem?_insert, Std.LawfulEqCmp.compare_eq_iff_eq]

/-- Both sides set one node and leave the rest. -/
theorem Overlays.setNode (h : Overlays group o g) {g' : Graph} {n : NodeRef} {v : NodeContent}
    (hn : ∀ m, g'.nodes[m]? = if n = m then some v else g.nodes[m]?) (he : ∀ k, g'.edgesAt k = g.edgesAt k) :
    Overlays group { o with nodes := o.nodes.insert n v } g' where
  acted m hm := by rw [hn, getElem?_insert_self', h.acted m hm]
  ends m hm := by
    rw [ExtTreeMap.mem_iff_isSome_getElem?, ExtTreeMap.mem_iff_isSome_getElem?, hn, getElem?_insert_self']
    split
    · rfl
    · rw [← ExtTreeMap.mem_iff_isSome_getElem?, ← ExtTreeMap.mem_iff_isSome_getElem?]; exact h.ends m hm
  named k hk := by rw [he, h.named k hk]

/-- Both sides set the edge at one key and leave the rest. -/
theorem Overlays.setEdge (h : Overlays group o g) {g' : Graph} {edges : ExtTreeMap EdgeKey PropertyMap}
    (hn : g'.nodes = g.nodes)
    (he : ∀ k ∈ namedEdges group ++ stampedEdges group, g'.edgesAt k = slotOf edges[k]?) :
    Overlays group { o with edges := edges } g' where
  acted m hm := by rw [hn]; exact h.acted m hm
  ends m hm := by rw [hn]; exact h.ends m hm
  named := he

theorem mem_actedOn_upsertNode {n p e} (h : Primitive.upsertNode n p e ∈ group) : n ∈ actedOnNodes group :=
  List.mem_filterMap.2 ⟨_, h, rfl⟩

theorem mem_actedOn_mergeProperty {n p} (h : Primitive.mergeProperty n p ∈ group) : n ∈ actedOnNodes group :=
  List.mem_filterMap.2 ⟨_, h, rfl⟩

theorem mem_actedOn_removeProperty {n ks} (h : Primitive.removeProperty n ks ∈ group) : n ∈ actedOnNodes group :=
  List.mem_filterMap.2 ⟨_, h, rfl⟩

theorem mem_actedOn_deleteNode {n} (h : Primitive.deleteNode n ∈ group) : n ∈ actedOnNodes group :=
  List.mem_filterMap.2 ⟨_, h, rfl⟩

theorem mem_named_upsertEdge {e p} (h : Primitive.upsertEdge e p ∈ group) :
    e.edgeKey ∈ namedEdges group ++ stampedEdges group :=
  List.mem_append_left _ (List.mem_filterMap.2 ⟨_, h, rfl⟩)

theorem mem_named_deleteEdge {e} (h : Primitive.deleteEdge e ∈ group) :
    e.edgeKey ∈ namedEdges group ++ stampedEdges group :=
  List.mem_append_left _ (List.mem_filterMap.2 ⟨_, h, rfl⟩)

theorem mem_named_stamp {e} (h : Primitive.stampEdgeIdentity e ∈ group) :
    e.unidentifiedKey ∈ namedEdges group ++ stampedEdges group :=
  List.mem_append_right _ (List.mem_filterMap.2 ⟨_, h, rfl⟩)

/-- What the filter must know of one primitive: it answers "changed" exactly when the primitive changes the
graph, keeps showing the graph, and rejects exactly a missing node. -/
def StepFaithful (group : List Primitive) (o : Overlay) (g : Graph) (index : ℕ) (p : Primitive) : Prop :=
  match o.apply index p with
  | .error e => e.index = index ∧ MissingNode g p
  | .ok (changed, o') =>
    ¬ MissingNode g p ∧ Overlays group o' (applyOne g p) ∧ (changed = true ↔ applyOne g p ≠ g)

theorem getElem?_eq_none_of_notMem {n : NodeRef} (h : n ∉ g.nodes) : g.nodes[n]? = none := by
  rw [ExtTreeMap.mem_iff_isSome_getElem?] at h; simpa using h

/-- A write that sets the node `n` to `v`. -/
theorem setNode_faithful {changed : Bool} {n : NodeRef} {v : NodeContent} {g' : Graph} (h : Overlays group o g)
    (hn : ∀ m, g'.nodes[m]? = if n = m then some v else g.nodes[m]?) (he : ∀ k, g'.edgesAt k = g.edgesAt k)
    (hchanged : changed = true) (hv : g.nodes[n]? ≠ some v) :
    Overlays group { o with nodes := o.nodes.insert n v } g' ∧ (changed = true ↔ g' ≠ g) := by
  refine ⟨h.setNode hn he, ?_⟩
  have hne : g' ≠ g := by
    rintro rfl
    have := hn n
    rw [if_pos rfl] at this
    exact hv this
  exact ⟨fun _ => hne, fun _ => hchanged⟩

theorem unchanged_faithful {g' : Graph} (h : Overlays group o g) (heq : g' = g) :
    Overlays group o g' ∧ (false = true ↔ g' ≠ g) := by
  subst heq; exact ⟨h, by simp⟩

theorem upsertNode_faithful (h : Overlays group o g) (index : ℕ) {n : NodeRef} {p : PropertyMap}
    {e : Option Embedding} (hin : Primitive.upsertNode n p e ∈ group) :
    StepFaithful group o g index (.upsertNode n p e) := by
  have hnode := h.acted n (mem_actedOn_upsertNode hin)
  have hnodes : ∀ m, (applyOne g (.upsertNode n p e)).nodes[m]? =
      if n = m then some ((g.nodes[n]?.getD default).upsert p e) else g.nodes[m]? := by
    intro m
    rw [applyOne_eq_write rfl, write_nodes, nodeStep]
    split
    · rename_i hm; rw [hm]
    · rfl
  have hedges : ∀ k, (applyOne g (.upsertNode n p e)).edgesAt k = g.edgesAt k := fun k => by
    rw [applyOne_eq_write rfl]; rfl
  simp only [StepFaithful, Overlay.apply, hnode]
  cases hv : g.nodes[n]? with
  | none =>
    rw [hv] at hnodes
    exact ⟨id, setNode_faithful h hnodes hedges rfl (by rw [hv]; simp)⟩
  | some v =>
    rw [hv] at hnodes
    dsimp only
    by_cases hholds : v.alreadyHolds p e = true
    · rw [if_pos hholds]
      refine ⟨id, unchanged_faithful h (ext_at (fun m => ?_) hedges)⟩
      rw [hnodes]
      split
      · rename_i hm; subst hm
        rw [hv]; exact congrArg some (NodeContent.alreadyHolds_iff.1 hholds)
      · rfl
    · rw [if_neg hholds]
      refine ⟨id, setNode_faithful h hnodes hedges rfl ?_⟩
      rw [hv]
      exact fun heq => hholds (NodeContent.alreadyHolds_iff.2 (Option.some.inj heq).symm)

theorem mergeProperty_faithful (h : Overlays group o g) (index : ℕ) {n : NodeRef} {p : PropertyMap}
    (hin : Primitive.mergeProperty n p ∈ group) : StepFaithful group o g index (.mergeProperty n p) := by
  have hnode := h.acted n (mem_actedOn_mergeProperty hin)
  have hedges : ∀ k, (applyOne g (.mergeProperty n p)).edgesAt k = g.edgesAt k := fun k => by
    rw [applyOne_eq_write rfl]; rfl
  simp only [StepFaithful, Overlay.apply, hnode]
  cases hv : g.nodes[n]? with
  | none =>
    refine ⟨rfl, ?_⟩
    show n ∉ g.nodes
    rw [ExtTreeMap.mem_iff_isSome_getElem?, hv]; simp
  | some v =>
    have hin' : ¬ MissingNode g (.mergeProperty n p) := by
      show ¬ n ∉ g.nodes
      rw [not_not, ExtTreeMap.mem_iff_isSome_getElem?, hv]; rfl
    have hnodes : ∀ m, (applyOne g (.mergeProperty n p)).nodes[m]? =
        if n = m then some (v.merge p) else g.nodes[m]? := by
      intro m
      rw [applyOne_eq_write rfl, write_nodes, nodeStep]
      split
      · rename_i hm; rw [← hm, hv]; rfl
      · rfl
    dsimp only
    by_cases hholds : alreadyHolds v.properties p = true
    · rw [if_pos hholds]
      refine ⟨hin', unchanged_faithful h (ext_at (fun m => ?_) hedges)⟩
      rw [hnodes]
      split
      · rename_i hm; subst hm
        rw [hv]; exact congrArg some (merge_eq_iff.1 hholds)
      · rfl
    · rw [if_neg hholds]
      refine ⟨hin', setNode_faithful h hnodes hedges rfl ?_⟩
      rw [hv]
      exact fun heq => hholds (merge_eq_iff.2 (Option.some.inj heq).symm)

theorem removeProperty_faithful (h : Overlays group o g) (index : ℕ) {n : NodeRef} {keys : List String}
    (hin : Primitive.removeProperty n keys ∈ group) : StepFaithful group o g index (.removeProperty n keys) := by
  have hnode := h.acted n (mem_actedOn_removeProperty hin)
  have hedges : ∀ k, (applyOne g (.removeProperty n keys)).edgesAt k = g.edgesAt k := fun k => by
    rw [applyOne_eq_write rfl]; rfl
  have hnodes : ∀ m, (applyOne g (.removeProperty n keys)).nodes[m]? =
      if n = m then g.nodes[n]?.map (·.remove keys) else g.nodes[m]? := by
    intro m
    rw [applyOne_eq_write rfl, write_nodes, nodeStep]
    split
    · rename_i hm; rw [hm]
    · rfl
  simp only [StepFaithful, Overlay.apply, hnode]
  cases hv : g.nodes[n]? with
  | none =>
    refine ⟨id, unchanged_faithful h (ext_at (fun m => ?_) hedges)⟩
    rw [hnodes]
    split
    · rename_i hm; subst hm; rw [hv]; rfl
    · rfl
  | some v =>
    rw [hv] at hnodes
    dsimp only
    by_cases hany : (keys.any fun key => key ∈ v.properties) = true
    · rw [if_pos hany]
      refine ⟨id, setNode_faithful h hnodes hedges rfl ?_⟩
      rw [hv]
      intro heq
      rw [remove_eq_iff.2 (Option.some.inj heq).symm] at hany
      exact absurd hany (by simp)
    · rw [if_neg hany]
      refine ⟨id, unchanged_faithful h (ext_at (fun m => ?_) hedges)⟩
      rw [hnodes]
      split
      · rename_i hm; subst hm
        rw [hv]; exact congrArg some (remove_eq_iff.1 (by simpa using hany))
      · rfl

theorem deleteNode_faithful (h : Overlays group o g) (index : ℕ) {n : NodeRef}
    (hin : Primitive.deleteNode n ∈ group) : StepFaithful group o g index (.deleteNode n) := by
  have hnode := h.acted n (mem_actedOn_deleteNode hin)
  have hmem : n ∈ o.nodes ↔ n ∈ g.nodes := by
    rw [ExtTreeMap.mem_iff_isSome_getElem?, ExtTreeMap.mem_iff_isSome_getElem?, hnode]
  have hnodes : ∀ m, (applyOne g (.deleteNode n)).nodes[m]? = if n = m then none else g.nodes[m]? := by
    intro m; rw [applyOne_eq_write rfl, write_nodes, nodeStep]
  have hedges : ∀ k, (applyOne g (.deleteNode n)).edgesAt k =
      if k.source = n ∨ k.target = n then 0 else g.edgesAt k := by
    intro k; rw [applyOne_eq_write rfl, write_edgesAt, edgeStep]; rfl
  simp only [StepFaithful, Overlay.apply, hmem]
  by_cases hn : n ∈ g.nodes
  · rw [if_pos hn]
    refine ⟨id, ⟨fun m hm => ?_, fun m hm => ?_, fun k hk => ?_⟩, fun _ heq => ?_, fun _ => rfl⟩
    · simp only [Overlay.deleteNode, hnodes, ExtTreeMap.getElem?_erase, Std.LawfulEqCmp.compare_eq_iff_eq, h.acted m hm]
    · rw [ExtTreeMap.mem_iff_isSome_getElem?, ExtTreeMap.mem_iff_isSome_getElem?, hnodes]
      simp only [Overlay.deleteNode, ExtTreeMap.getElem?_erase, Std.LawfulEqCmp.compare_eq_iff_eq]
      split
      · rfl
      · rw [← ExtTreeMap.mem_iff_isSome_getElem?, ← ExtTreeMap.mem_iff_isSome_getElem?]; exact h.ends m hm
    · rw [hedges]
      simp only [Overlay.deleteNode, ExtTreeMap.getElem?_filter', h.named k hk]
      cases o.edges[k]? with
      | none => simp [slotOf]
      | some p =>
        by_cases hk : k.source = n ∨ k.target = n
        · rw [if_pos hk]; rcases hk with hk | hk <;> simp [slotOf, hk]
        · rw [if_neg hk, not_or] at *; simp [slotOf, hk.1, hk.2, Option.filter]
    · have := hnodes n
      rw [heq, if_pos rfl] at this
      rw [ExtTreeMap.mem_iff_isSome_getElem?, this] at hn
      exact absurd hn (by simp)
  · rw [if_neg hn]
    refine ⟨id, unchanged_faithful h (ext_at (fun m => ?_) fun k => ?_)⟩
    · rw [hnodes]
      split
      · rename_i hm; subst hm; exact (getElem?_eq_none_of_notMem hn).symm
      · rfl
    · rw [hedges]
      split
      · rename_i hk
        rcases hk with rfl | rfl
        · exact (edgesAt_eq_zero_of_source hn).symm
        · exact (edgesAt_eq_zero_of_target hn).symm
      · rfl

theorem mem_ends_upsertEdge {e p} (h : Primitive.upsertEdge e p ∈ group) {n : NodeRef}
    (hn : n = e.source ∨ n = e.target) : n ∈ edgeEndpoints group :=
  List.mem_flatMap.2 ⟨_, h, by simpa using hn⟩

theorem upsertEdge_faithful (h : Overlays group o g) (index : ℕ) {e : EdgeBase} {p : PropertyMap}
    (hin : Primitive.upsertEdge e p ∈ group) : StepFaithful group o g index (.upsertEdge e p) := by
  have hs := h.ends e.source (mem_ends_upsertEdge hin (.inl rfl))
  have ht := h.ends e.target (mem_ends_upsertEdge hin (.inr rfl))
  have hslot := h.named e.edgeKey (mem_named_upsertEdge hin)
  simp only [StepFaithful, Overlay.apply, hs, ht]
  by_cases hends : e.source ∈ g.nodes ∧ e.target ∈ g.nodes
  · rw [if_pos hends]
    have hmiss : ¬ MissingNode g (.upsertEdge e p) := by
      show ¬ (e.source ∉ g.nodes ∨ e.target ∉ g.nodes)
      rintro (h | h)
      · exact h hends.1
      · exact h hends.2
    have hg : g.hasEnds e.edgeKey = true := hasEnds_iff.2 hends
    have hat : ∀ v, upsertAt true ∅ (· ∪ p) (g.edgesAt e.edgeKey) = {v} →
        ∀ k, (applyOne g (.upsertEdge e p)).edgesAt k = if e.edgeKey = k then {v} else g.edgesAt k := by
      intro v hv k
      rw [applyOne_eq_write rfl, write_edgesAt]
      simp only [edgeStep]
      split
      · rename_i hk; subst hk; rw [hg]; exact hv
      · rfl
    have hsim : ∀ v, upsertAt true ∅ (· ∪ p) (g.edgesAt e.edgeKey) = {v} →
        Overlays group { o with edges := o.edges.insert e.edgeKey v } (applyOne g (.upsertEdge e p)) := by
      intro v hv
      refine h.setEdge (by rw [applyOne_eq_write rfl]; rfl) fun k hk => ?_
      rw [hat v hv, getElem?_insert_self', h.named k hk]
      split <;> rfl
    cases hv : o.edges[e.edgeKey]? with
    | none =>
      rw [hv] at hslot
      have hup : upsertAt true ∅ (· ∪ p) (g.edgesAt e.edgeKey) = {∅ ∪ p} := by rw [hslot]; rfl
      refine ⟨hmiss, hsim _ hup, fun _ heq => ?_, fun _ => rfl⟩
      have := hat _ hup e.edgeKey
      rw [heq, hslot, if_pos rfl] at this
      exact absurd this (by simp [slotOf])
    | some v =>
      rw [hv] at hslot
      have hup : upsertAt true ∅ (· ∪ p) (g.edgesAt e.edgeKey) = {v ∪ p} := by
        rw [hslot, upsertAt_of_ne_zero (by simp [slotOf])]; rfl
      dsimp only
      by_cases hholds : alreadyHolds v p = true
      · rw [if_pos hholds]
        refine ⟨hmiss, unchanged_faithful h (ext_at (fun m => by rw [applyOne_eq_write rfl]; rfl) fun k => ?_)⟩
        rw [hat _ hup]
        split
        · rename_i hk; subst hk; rw [hslot, alreadyHolds_iff.1 hholds]; rfl
        · rfl
      · rw [if_neg hholds]
        refine ⟨hmiss, hsim _ hup, fun _ heq => ?_, fun _ => rfl⟩
        have := hat _ hup e.edgeKey
        rw [heq, hslot, if_pos rfl] at this
        exact hholds (alreadyHolds_iff.2 (Multiset.singleton_inj.1 this).symm)
  · rw [if_neg hends]
    refine ⟨rfl, ?_⟩
    show e.source ∉ g.nodes ∨ e.target ∉ g.nodes
    by_cases h1 : e.source ∈ g.nodes
    · exact .inr fun h2 => hends ⟨h1, h2⟩
    · exact .inl h1

theorem deleteEdge_faithful (h : Overlays group o g) (index : ℕ) {e : EdgeBase}
    (hin : Primitive.deleteEdge e ∈ group) : StepFaithful group o g index (.deleteEdge e) := by
  have hslot := h.named e.edgeKey (mem_named_deleteEdge hin)
  have hat : ∀ k, (applyOne g (.deleteEdge e)).edgesAt k = if e.edgeKey = k then 0 else g.edgesAt k := by
    intro k; rw [applyOne_eq_write rfl, write_edgesAt, edgeStep]
  simp only [StepFaithful, Overlay.apply, ExtTreeMap.mem_iff_isSome_getElem?]
  cases hv : o.edges[e.edgeKey]? with
  | none =>
    rw [hv] at hslot
    refine ⟨id, unchanged_faithful h (ext_at (fun m => by rw [applyOne_eq_write rfl]; rfl) fun k => ?_)⟩
    rw [hat]
    split
    · rename_i hk; subst hk; rw [hslot]; rfl
    · rfl
  | some v =>
    rw [hv] at hslot
    refine ⟨id, h.setEdge (by rw [applyOne_eq_write rfl]; rfl) fun k hk => ?_, fun _ heq => ?_, fun _ => rfl⟩
    · simp only [hat, ExtTreeMap.getElem?_erase, Std.LawfulEqCmp.compare_eq_iff_eq, h.named k hk]
      split <;> rfl
    · have := hat e.edgeKey
      rw [heq, hslot, if_pos rfl] at this
      exact absurd this (by simp [slotOf])

theorem stamp_faithful (h : Overlays group o g) (index : ℕ) {e : EdgeBase}
    (hin : Primitive.stampEdgeIdentity e ∈ group) (hob : ¬ Obstructed g (.stampEdgeIdentity e)) :
    StepFaithful group o g index (.stampEdgeIdentity e) := by
  have hslot := h.named e.unidentifiedKey (mem_named_stamp hin)
  simp only [StepFaithful, Overlay.apply]
  cases hv : o.edges[e.unidentifiedKey]? with
  | none =>
    rw [hv] at hslot
    exact ⟨id, unchanged_faithful h (stampEdge_noop hslot)⟩
  | some v =>
    rw [hv] at hslot
    have hkey : g.edgesAt e.edgeKey = 0 := by
      by_contra hne
      exact hob ⟨by rw [hslot]; simp [slotOf], hne⟩
    have hne := e.unidentifiedKey_ne_edgeKey e
    refine ⟨id, h.setEdge rfl fun k hk => ?_, fun _ heq => ?_, fun _ => rfl⟩
    · rw [applyOne_stamp, stampEdge_edgesAt]
      have hpop : ∀ j, (o.edges.erase e.unidentifiedKey)[j]? = if e.unidentifiedKey = j then none else o.edges[j]? := by
        intro j; simp only [ExtTreeMap.getElem?_erase, Std.LawfulEqCmp.compare_eq_iff_eq]
      have hval := h.named k hk
      by_cases h1 : e.unidentifiedKey = k
      · subst h1
        rw [if_pos rfl]
        split
        · rw [hpop, if_pos rfl]; rfl
        · rw [getElem?_insert_self', if_neg hne.symm, hpop, if_pos rfl]; rfl
      · rw [if_neg h1]
        by_cases h2 : e.edgeKey = k
        · subst h2
          have hnone : o.edges[e.edgeKey]? = none := slotOf_eq_zero.1 (hval ▸ hkey)
          rw [if_pos rfl, hkey, hslot, zero_add, if_neg, getElem?_insert_self', if_pos rfl]
          rw [ExtTreeMap.mem_iff_isSome_getElem?, hpop, if_neg hne, hnone]; simp
        · rw [if_neg h2, hval]
          split
          · rw [hpop, if_neg h1]
          · rw [getElem?_insert_self', if_neg h2, hpop, if_neg h1]
    · have := stampEdge_clears g e
      rw [← applyOne_stamp, heq, hslot] at this
      exact absurd this (by simp [slotOf])

/-- **One primitive on the overlay and on the graph.** -/
theorem overlay_apply (h : Overlays group o g) (index : ℕ) {p : Primitive} (hin : p ∈ group)
    (hob : ¬ Obstructed g p) : StepFaithful group o g index p := by
  cases p with
  | upsertNode n q e => exact upsertNode_faithful h index hin
  | mergeProperty n q => exact mergeProperty_faithful h index hin
  | removeProperty n ks => exact removeProperty_faithful h index hin
  | deleteNode n => exact deleteNode_faithful h index hin
  | upsertEdge e q => exact upsertEdge_faithful h index hin
  | deleteEdge e => exact deleteEdge_faithful h index hin
  | stampEdgeIdentity e => exact stamp_faithful h index hin hob

end Step

/-! ## The walk -/

/-- Each primitive changes the graph it meets at its turn. -/
def AllEffective (g : Graph) : List Primitive → Prop
  | [] => True
  | p :: ps => applyOne g p ≠ g ∧ AllEffective (applyOne g p) ps

/-- Some primitive's node is missing at that primitive's turn. -/
def MissingInTurn (g : Graph) (ps : List Primitive) : Prop :=
  ∃ xs p ys, ps = xs ++ p :: ys ∧ MissingNode (applyAll g xs) p

/-- No stamp meets, at its turn, an edge that already carries its identity beside one without. -/
def Unobstructed (g : Graph) (ps : List Primitive) : Prop :=
  ∀ xs p ys, ps = xs ++ p :: ys → ¬ Obstructed (applyAll g xs) p

theorem missingInTurn_cons {g : Graph} {p : Primitive} {ps : List Primitive} :
    MissingInTurn g (p :: ps) ↔ MissingNode g p ∨ MissingInTurn (applyOne g p) ps := by
  constructor
  · rintro ⟨xs, q, ys, he, hq⟩
    cases xs with
    | nil => cases he; exact .inl hq
    | cons x xs => cases he; exact .inr ⟨xs, q, ys, rfl, hq⟩
  · rintro (h | ⟨xs, q, ys, rfl, hq⟩)
    · exact ⟨[], p, ps, rfl, h⟩
    · exact ⟨p :: xs, q, ys, rfl, hq⟩

/-- **What the filter promises** for one group on one graph. -/
structure FilterFaithful (g : Graph) (group : List Primitive) (answer : Except MissingTarget (List Primitive)) :
    Prop where
  sound : ∀ selected, answer = .ok selected → applyAll g selected = applyAll g group
  minimal : ∀ selected, answer = .ok selected → AllEffective g selected
  inOrder : ∀ selected, answer = .ok selected → selected.Sublist group
  rejects : (∃ e, answer = .error e) ↔ MissingInTurn g group

theorem selectFrom_faithful {group : List Primitive} {o : Overlay} {g : Graph} (h : Overlays group o g) (index : ℕ)
    {ps : List Primitive} (hin : ∀ p ∈ ps, p ∈ group) (hob : Unobstructed g ps) :
    FilterFaithful g ps (selectFrom o index ps) := by
  induction ps generalizing o g index with
  | nil =>
    refine ⟨?_, ?_, ?_, ⟨fun ⟨e, he⟩ => (nomatch he), ?_⟩⟩
    · rintro _ ⟨⟩; rfl
    · rintro _ ⟨⟩; trivial
    · rintro _ ⟨⟩; exact List.Sublist.refl _
    · rintro ⟨xs, p, ys, he, -⟩; simp at he
  | cons p ps ih =>
    have hstep := overlay_apply h index (hin p (by simp)) (hob [] p ps rfl)
    have hob' : Unobstructed (applyOne g p) ps := fun xs q ys he => hob (p :: xs) q ys (by rw [he]; rfl)
    unfold StepFaithful at hstep
    rw [selectFrom]
    cases ho : o.apply index p with
    | error e =>
      rw [ho] at hstep
      refine ⟨?_, ?_, ?_, ⟨fun _ => missingInTurn_cons.2 (.inl hstep.2), fun _ => ⟨e, rfl⟩⟩⟩ <;>
      · rintro _ ⟨⟩
    | ok r =>
      obtain ⟨changed, o'⟩ := r
      rw [ho] at hstep
      obtain ⟨hmiss, hsim, hchanged⟩ := hstep
      have hrec := ih hsim (index + 1) (fun q hq => hin q (List.mem_cons_of_mem _ hq)) hob'
      cases hrest : selectFrom o' (index + 1) ps with
      | error e =>
        rw [hrest] at hrec
        have hm := hrec.rejects.1 ⟨e, rfl⟩
        show FilterFaithful g (p :: ps) ((Except.ok (changed, o')).bind fun r => do
          let rest ← selectFrom r.2 (index + 1) ps
          return if r.1 then p :: rest else rest)
        simp only [Except.bind, hrest]
        refine ⟨?_, ?_, ?_, ⟨fun _ => missingInTurn_cons.2 (.inr hm), fun _ => ⟨e, rfl⟩⟩⟩ <;>
        · rintro _ ⟨⟩
      | ok rest =>
        rw [hrest] at hrec
        have hno : ¬ MissingInTurn g (p :: ps) := by
          rw [missingInTurn_cons, not_or]
          exact ⟨hmiss, fun hm => by obtain ⟨e, he⟩ := hrec.rejects.2 hm; cases he⟩
        show FilterFaithful g (p :: ps) ((Except.ok (changed, o')).bind fun r => do
          let rest ← selectFrom r.2 (index + 1) ps
          return if r.1 then p :: rest else rest)
        simp only [Except.bind, hrest]
        show FilterFaithful g (p :: ps) (.ok (if changed then p :: rest else rest))
        cases changed with
        | true =>
          refine ⟨?_, ?_, ?_, ⟨fun ⟨e, he⟩ => (nomatch he), fun hm => absurd hm hno⟩⟩
          · rintro _ ⟨⟩; exact hrec.sound rest rfl
          · rintro _ ⟨⟩; exact ⟨hchanged.1 rfl, hrec.minimal rest rfl⟩
          · rintro _ ⟨⟩; exact (hrec.inOrder rest rfl).cons_cons p
        | false =>
          have hsame : applyOne g p = g := by
            by_contra hne; exact absurd (hchanged.2 hne) (by simp)
          rw [hsame] at hrec
          refine ⟨?_, ?_, ?_, ⟨fun ⟨e, he⟩ => (nomatch he), fun hm => absurd hm hno⟩⟩
          · rintro _ ⟨⟩; rw [applyAll_cons, hsame]; exact hrec.sound rest rfl
          · rintro _ ⟨⟩; exact hrec.minimal rest rfl
          · rintro _ ⟨⟩; exact (hrec.inOrder rest rfl).cons p

/-! ## The reads -/

/-- At most one edge per type, endpoints and identity. -/
def OneEdgePerKey (g : Graph) : Prop := ∀ k, (g.edgesAt k).card ≤ 1

theorem readEdges_slot (scan : ScanOrder) {g : Graph} (ks : List EdgeKey) {k : EdgeKey}
    (h : (g.edgesAt k).card ≤ 1) : slotOf (readEdges scan g ks)[k]? = if k ∈ ks then g.edgesAt k else 0 := by
  have hgen : ∀ xs : List (EdgeKey × PropertyMap), (fiber (xs : Multiset (EdgeKey × PropertyMap)) k).card ≤ 1 →
      slotOf (xs.foldl (fun found e => if e.1 ∈ ks then found.insert e.1 e.2 else found)
        (∅ : ExtTreeMap EdgeKey PropertyMap))[k]? = if k ∈ ks then fiber (xs : Multiset (EdgeKey × PropertyMap)) k else 0 := by
    intro xs hxs
    induction xs using List.reverseRecOn with
    | nil => simp [slotOf]
    | append_singleton xs e ih =>
      have hcoe : ((xs ++ [e] : List _) : Multiset (EdgeKey × PropertyMap)) = e ::ₘ (xs : Multiset (EdgeKey × PropertyMap)) := by
        rw [← Multiset.coe_add, add_comm]; rfl
      rw [hcoe, fiber_cons] at hxs ⊢
      rw [List.foldl_append, List.foldl_cons, List.foldl_nil]
      by_cases he : e.1 = k
      · -- the one edge at `k`
        rw [if_pos he] at hxs ⊢
        have h0 : fiber (xs : Multiset (EdgeKey × PropertyMap)) k = 0 := by
          rw [Multiset.card_cons] at hxs; exact Multiset.card_eq_zero.1 (by omega)
        rw [h0] at ih ⊢
        subst he
        by_cases hk : e.1 ∈ ks
        · rw [if_pos hk, if_pos hk, getElem?_insert_self', if_pos rfl]; rfl
        · rw [if_neg hk, if_neg hk] at *; exact ih (by simp)
      · rw [if_neg he] at hxs ⊢
        split
        · rw [getElem?_insert_self', if_neg he]; exact ih hxs
        · exact ih hxs
  have hperm := scan.perm g.edges
  have := hgen (scan.order g.edges) (by rw [hperm]; exact h)
  rwa [hperm] at this

theorem readOverlay_nodes (scan : ScanOrder) (g : Graph) (group : List Primitive) :
    (∀ n ∈ actedOnNodes group, (readOverlay scan g group).nodes[n]? = g.nodes[n]?) ∧
      ∀ n ∈ edgeEndpoints group, n ∈ (readOverlay scan g group).nodes ↔ n ∈ g.nodes := by
  refine ⟨fun n hn => ?_, fun n hn => ?_⟩
  · simp only [readOverlay, readNodes, readExistingNodes, ExtTreeMap.getElem?_union, ExtTreeMap.getElem?_map,
      ExtTreeMap.getElem?_filter']
    have hend : n ∉ (edgeEndpoints group).filter (· ∉ actedOnNodes group) := by simp [hn]
    cases g.nodes[n]? with
    | none => rfl
    | some v => simp [Option.filter, hn]
  · simp only [readOverlay, readNodes, readExistingNodes, ExtTreeMap.mem_iff_isSome_getElem?, ExtTreeMap.getElem?_union,
      ExtTreeMap.getElem?_map, ExtTreeMap.getElem?_filter']
    cases g.nodes[n]? with
    | none => simp
    | some v => by_cases ha : n ∈ actedOnNodes group <;> simp [Option.filter, ha, hn]

theorem readOverlay_overlays (scan : ScanOrder) {g : Graph} (h : OneEdgePerKey g) (group : List Primitive) :
    Overlays group (readOverlay scan g group) g where
  acted := (readOverlay_nodes scan g group).1
  ends := (readOverlay_nodes scan g group).2
  named k hk := by
    have h1 := readEdges_slot scan (namedEdges group) (h k)
    have h2 := readEdges_slot scan (stampedEdges group) (h k)
    simp only [readOverlay, ExtTreeMap.getElem?_union]
    cases hs : (readEdges scan g (stampedEdges group))[k]? with
    | some p =>
      rw [hs] at h2
      split at h2
      · exact h2.symm
      · simp [slotOf] at h2
    | none =>
      rw [Option.none_or, h1]
      rw [hs] at h2
      rcases List.mem_append.1 hk with hk | hk
      · rw [if_pos hk]
      · rw [if_pos hk] at h2
        rw [← h2]; simp [slotOf]

/-- **The filter is sound and minimal**, when no stamp meets at its turn an edge that already carries the
identity being stamped. -/
theorem select_sound_minimal (scan : ScanOrder) (g : Graph) (group : List Primitive) (hone : OneEdgePerKey g)
    (hob : Unobstructed g group) : FilterFaithful g group (selectEffectivePrimitives scan g group) :=
  selectFrom_faithful (readOverlay_overlays scan hone group) 0 (fun _ h => h) hob

/-! ## Where the condition is needed -/

noncomputable instance : Inhabited ScanOrder := ⟨⟨Multiset.toList, Multiset.coe_toList⟩⟩

theorem ScanOrder.order_singleton (scan : ScanOrder) (e : EdgeKey × PropertyMap) : scan.order {e} = [e] := by
  have h := scan.perm {e}
  rw [← Multiset.coe_singleton, Multiset.coe_eq_coe] at h
  exact List.perm_singleton.1 h

instance (g : Graph) (p : Primitive) : Decidable (Obstructed g p) :=
  match p with
  | .stampEdgeIdentity e =>
    inferInstanceAs (Decidable (g.edgesAt e.unidentifiedKey ≠ 0 ∧ g.edgesAt e.edgeKey ≠ 0))
  | .upsertNode .. | .upsertEdge .. | .mergeProperty .. | .removeProperty .. | .deleteNode .. | .deleteEdge .. =>
    inferInstanceAs (Decidable False)

theorem unobstructed_cons {g : Graph} {p : Primitive} {ps : List Primitive} :
    Unobstructed g (p :: ps) ↔ ¬ Obstructed g p ∧ Unobstructed (applyOne g p) ps := by
  constructor
  · exact fun h => ⟨h [] p ps rfl, fun xs q ys he => h (p :: xs) q ys (by rw [he]; rfl)⟩
  · rintro ⟨hp, h⟩ xs q ys he
    cases xs with
    | nil => cases he; exact hp
    | cons x xs => cases he; exact h xs q ys rfl

theorem unobstructed_nil (g : Graph) : Unobstructed g [] := fun xs p ys he => by simp at he

theorem oneEdgePerKey_of_card {g : Graph} (h : g.edges.card ≤ 1) : OneEdgePerKey g := fun k => by
  have : (g.edgesAt k).card ≤ g.edges.card := by
    rw [edgesAt, fiber, Multiset.card_map]; exact Multiset.card_le_card (Multiset.filter_le _ _)
  omega

/-- An edge whose stored form carries no identity yet. -/
def legacyEdge : EdgeBase :=
  ⟨"REQUIRES", "REQUIRES:o->c", ⟨"Obligation", "o"⟩, ⟨"Capability", "c"⟩⟩

/-- Two nodes and one identity-less edge between them. -/
def legacyGraph : Graph :=
  (∅ : Graph).writeAll [.put legacyEdge.source id, .put legacyEdge.target id, .putEdge legacyEdge.unidentifiedKey id]

/-- Properties that mark an edge as reviewed. -/
def reviewed : PropertyMap := (∅ : PropertyMap).insert "reviewed" (.scalar (.bool true))

theorem select_sound_minimal_legacy :
    FilterFaithful legacyGraph [.stampEdgeIdentity legacyEdge, .upsertEdge legacyEdge reviewed]
      (selectEffectivePrimitives default legacyGraph
        [.stampEdgeIdentity legacyEdge, .upsertEdge legacyEdge reviewed]) :=
  select_sound_minimal _ _ _ (oneEdgePerKey_of_card (by decide))
    (unobstructed_cons.2 ⟨by decide, unobstructed_cons.2 ⟨by decide, unobstructed_nil _⟩⟩)

/-- An upsert before the stamp of the same edge, and once more after it. -/
def obstructedGroup : List Primitive :=
  [.upsertEdge legacyEdge reviewed, .stampEdgeIdentity legacyEdge, .upsertEdge legacyEdge reviewed]

/-- **The graph alone does not give soundness**: when the group itself creates the identified edge before it
stamps the other one, the second upsert is dropped, though it reaches the stamped edge too. -/
theorem select_unsound_when_obstructed :
    ¬ ∀ (scan : ScanOrder) (g : Graph) (group : List Primitive), OneEdgePerKey g →
      (∀ p ∈ group, ¬ Obstructed g p) → FilterFaithful g group (selectEffectivePrimitives scan g group) := by
  intro h
  have hf := h default legacyGraph obstructedGroup (oneEdgePerKey_of_card (by decide)) (by decide)
  have hedges : legacyGraph.edges = {(legacyEdge.unidentifiedKey, (∅ : PropertyMap))} := by decide
  have hsel : selectEffectivePrimitives default legacyGraph obstructedGroup =
      .ok [.upsertEdge legacyEdge reviewed, .stampEdgeIdentity legacyEdge] := by
    simp only [selectEffectivePrimitives, readOverlay, readEdges, hedges, ScanOrder.order_singleton]
    decide +kernel
  exact absurd (hf.sound _ hsel) (by decide)

end PolicySystem
