import PolicySystem.Gateway.Model

/-!
# The write queries

The `UNWIND` queries of `graph_gateway/cypher.py` and what FalkorDB does for them: the rows run in order,
`MERGE` creates at most one element per key, and the right-hand side of a `SET` reads the state before
the query.

* `Query.run`: the effect of one query, which is atomic;
* `applyOne`: one primitive as a query of one row, and `applyOne_eq_write`: the graph write it is.
-/

namespace PolicySystem

open PropertyGraph GraphWrite

/-- A row of an upsert of nodes. -/
structure UpsertNodeRow where
  id : String
  properties : PropertyMap
  embedding : Option Embedding

/-- A row of a merge of properties. -/
structure MergePropertyRow where
  id : String
  properties : PropertyMap

/-- A row of an upsert of edges. -/
structure UpsertEdgeRow where
  sourceId : String
  targetId : String
  identity : String
  properties : PropertyMap

/-- A row of a delete or of an identity stamp of edges. -/
structure DeleteEdgeRow where
  sourceId : String
  targetId : String
  identity : String

/-- The text an edge query is filled from: its type and the labels of its endpoints. -/
structure EdgeText where
  type : String
  sourceLabel : String
  targetLabel : String
  deriving DecidableEq

/-- One parameterized write query. -/
inductive Query where
  | upsertNode (label : String) (rows : List UpsertNodeRow)
  | mergeProperty (label : String) (rows : List MergePropertyRow)
  | removeProperty (label : String) (keys : List String) (rows : List String)
  | deleteNode (label : String) (rows : List String)
  | upsertEdge (text : EdgeText) (rows : List UpsertEdgeRow)
  | deleteEdge (text : EdgeText) (rows : List DeleteEdgeRow)
  | stampEdgeIdentity (text : EdgeText) (rows : List DeleteEdgeRow)

/-- The edge a row names. -/
def EdgeText.edge (text : EdgeText) (sourceId targetId identity : String) : EdgeBase :=
  ⟨text.type, identity, ⟨text.sourceLabel, sourceId⟩, ⟨text.targetLabel, targetId⟩⟩

/-- `MERGE (n:{L} {id: row.id}) SET n += row.properties
SET n.embedding = coalesce(row.embedding, n.embedding)`, the last read in the state before the query. -/
def upsertNodeRow (label : String) (before g : Graph) (row : UpsertNodeRow) : Graph :=
  let node : NodeRef := ⟨label, row.id⟩
  let merged := g.setNode node fun v => v.getD default
  let set := merged.editNode node (·.merge row.properties)
  set.editNode node fun v =>
    { v with embedding := row.embedding.or (before.nodes[node]?.bind NodeContent.embedding) }

/-- `MATCH (s), (t) MERGE (s)-[r:{T} {identity: row.identity}]->(t) SET r += row.properties`. -/
def upsertEdgeRow (text : EdgeText) (g : Graph) (row : UpsertEdgeRow) : Graph :=
  g.setEdge (text.edge row.sourceId row.targetId row.identity).edgeKey ∅ (· ∪ row.properties)

/-- `MATCH (s)-[r:{T}]->(t) WHERE r.identity IS NULL SET r.identity = row.identity`. -/
def stampEdge (g : Graph) (edge : EdgeBase) : Graph :=
  g.rekeyEdges edge.unidentifiedKey edge.edgeKey rfl rfl

/-- **The effect of one query.** -/
def Query.run (g : Graph) : Query → Graph
  | upsertNode label rows => rows.foldl (upsertNodeRow label g) g
  | mergeProperty label rows => rows.foldl (fun g row => g.editNode ⟨label, row.id⟩ (·.merge row.properties)) g
  | removeProperty label keys rows => rows.foldl (fun g id => g.editNode ⟨label, id⟩ (·.remove keys)) g
  | deleteNode label rows => rows.foldl (fun g id => g.deleteNode ⟨label, id⟩) g
  | upsertEdge text rows => rows.foldl (upsertEdgeRow text) g
  | deleteEdge text rows =>
    rows.foldl (fun g row => g.deleteEdges (text.edge row.sourceId row.targetId row.identity).edgeKey) g
  | stampEdgeIdentity text rows =>
    rows.foldl (fun g row => stampEdge g (text.edge row.sourceId row.targetId row.identity)) g

/-! ## Primitives as queries -/

/-- `upsert_node_rows`. -/
def upsertNodeRows (chunk : List Primitive) : List UpsertNodeRow :=
  chunk.filterMap fun
    | .upsertNode node properties embedding => some ⟨node.id, properties, embedding⟩
    | _ => none

/-- `merge_property_rows`. -/
def mergePropertyRows (chunk : List Primitive) : List MergePropertyRow :=
  chunk.filterMap fun
    | .mergeProperty node properties => some ⟨node.id, properties⟩
    | _ => none

/-- `node_id_rows` of the property removals. -/
def removePropertyRows (chunk : List Primitive) : List String :=
  chunk.filterMap fun
    | .removeProperty node _ => some node.id
    | _ => none

/-- `node_id_rows` of the node deletes. -/
def deleteNodeRows (chunk : List Primitive) : List String :=
  chunk.filterMap fun
    | .deleteNode node => some node.id
    | _ => none

/-- `upsert_edge_rows`. -/
def upsertEdgeRows (chunk : List Primitive) : List UpsertEdgeRow :=
  chunk.filterMap fun
    | .upsertEdge edge properties => some ⟨edge.source.id, edge.target.id, edge.identity, properties⟩
    | _ => none

/-- `delete_edge_rows` of the edge deletes. -/
def deleteEdgeRows (chunk : List Primitive) : List DeleteEdgeRow :=
  chunk.filterMap fun
    | .deleteEdge edge => some ⟨edge.source.id, edge.target.id, edge.identity⟩
    | _ => none

/-- `delete_edge_rows` of the identity stamps. -/
def stampEdgeRows (chunk : List Primitive) : List DeleteEdgeRow :=
  chunk.filterMap fun
    | .stampEdgeIdentity edge => some ⟨edge.source.id, edge.target.id, edge.identity⟩
    | _ => none

/-- The type and endpoint labels of an edge primitive. -/
def EdgeBase.text (edge : EdgeBase) : EdgeText := ⟨edge.type, edge.source.label, edge.target.label⟩

@[simp] theorem EdgeBase.text_edge (e : EdgeBase) : e.text.edge e.source.id e.target.id e.identity = e := rfl

/-- `_apply_chunk`: the query of one batch, with the label and text of its first member. -/
def chunkQuery (first : Primitive) (chunk : List Primitive) : Query :=
  match first with
  | .upsertNode node _ _ => .upsertNode node.label (upsertNodeRows chunk)
  | .mergeProperty node _ => .mergeProperty node.label (mergePropertyRows chunk)
  | .removeProperty node keys => .removeProperty node.label keys (removePropertyRows chunk)
  | .deleteNode node => .deleteNode node.label (deleteNodeRows chunk)
  | .upsertEdge edge _ => .upsertEdge edge.text (upsertEdgeRows chunk)
  | .deleteEdge edge => .deleteEdge edge.text (deleteEdgeRows chunk)
  | .stampEdgeIdentity edge => .stampEdgeIdentity edge.text (stampEdgeRows chunk)

/-- One primitive as a query of one row. -/
def applyOne (g : Graph) (p : Primitive) : Graph := (chunkQuery p [p]).run g

/-- Primitives one at a time, in order. -/
def applyAll (g : Graph) (ps : List Primitive) : Graph := ps.foldl applyOne g

@[simp] theorem applyAll_nil (g : Graph) : applyAll g [] = g := rfl

@[simp] theorem applyAll_cons (g : Graph) (p : Primitive) (ps : List Primitive) :
    applyAll g (p :: ps) = applyAll (applyOne g p) ps := rfl

theorem applyAll_append (g : Graph) (ps qs : List Primitive) :
    applyAll g (ps ++ qs) = applyAll (applyAll g ps) qs := List.foldl_append

/-- The graph write a primitive is; a stamp is none. -/
def Primitive.toWrite : Primitive → Option (GraphWrite NodeRef NodeContent EdgeKey PropertyMap)
  | upsertNode node properties embedding => some (.put node (·.upsert properties embedding))
  | mergeProperty node properties => some (.edit node (·.merge properties))
  | removeProperty node keys => some (.edit node (·.remove keys))
  | deleteNode node => some (.drop node)
  | upsertEdge edge properties => some (.putEdge edge.edgeKey (· ∪ properties))
  | deleteEdge edge => some (.dropEdges edge.edgeKey)
  | stampEdgeIdentity _ => none

/-- A row whose node the query has not touched yet upserts what is stored. -/
theorem upsertNodeRow_eq {label : String} {before g : Graph} {row : UpsertNodeRow}
    (h : g.nodes[(⟨label, row.id⟩ : NodeRef)]? = before.nodes[(⟨label, row.id⟩ : NodeRef)]?) :
    upsertNodeRow label before g row = g.write (.put ⟨label, row.id⟩ (·.upsert row.properties row.embedding)) := by
  refine ext_at (fun n => ?_) fun k => ?_
  · simp only [upsertNodeRow, write, editNode_nodes, setNode_nodes, ← h]
    split
    · rename_i hn; subst hn
      cases g.nodes[(⟨label, row.id⟩ : NodeRef)]? <;> simp [NodeContent.merge, NodeContent.upsert, default]
    · rfl
  · simp [upsertNodeRow, write]

theorem applyOne_eq_write {g : Graph} {p : Primitive} {w} (h : p.toWrite = some w) : applyOne g p = g.write w := by
  cases p with
  | upsertNode n props e => cases h; exact upsertNodeRow_eq rfl
  | mergeProperty n props => cases h; rfl
  | removeProperty n keys => cases h; rfl
  | deleteNode n => cases h; rfl
  | upsertEdge e props => cases h; rfl
  | deleteEdge e => cases h; rfl
  | stampEdgeIdentity e => cases h

@[simp] theorem applyOne_stamp (g : Graph) (e : EdgeBase) : applyOne g (.stampEdgeIdentity e) = stampEdge g e := rfl

theorem stampEdge_edgesAt (g : Graph) (e : EdgeBase) (k : EdgeKey) :
    (stampEdge g e).edgesAt k = if e.unidentifiedKey = k then 0 else
      if e.edgeKey = k then g.edgesAt e.edgeKey + g.edgesAt e.unidentifiedKey else g.edgesAt k :=
  rekeyEdges_edgesAt g e.unidentifiedKey e.edgeKey rfl rfl (e.unidentifiedKey_ne_edgeKey e) k

theorem stampEdge_clears (g : Graph) (e : EdgeBase) : (stampEdge g e).edgesAt e.unidentifiedKey = 0 := by
  rw [stampEdge_edgesAt, if_pos rfl]

@[simp] theorem stampEdge_nodes (g : Graph) (e : EdgeBase) : (stampEdge g e).nodes = g.nodes := rfl

/-! ## Lists of primitives as lists of writes -/

def isStamp : Primitive → Bool
  | .stampEdgeIdentity _ => true
  | _ => false

theorem toWrite_overwriting {p : Primitive} {w} (h : p.toWrite = some w) : Overwriting w := by
  cases p with
  | upsertNode n props e => cases h; exact overwrites_upsert props e
  | mergeProperty n props => cases h; exact overwrites_merge props
  | removeProperty n keys => cases h; exact overwrites_remove keys
  | deleteNode n => cases h; trivial
  | upsertEdge e props => cases h; exact overwrites_union props
  | deleteEdge e => cases h; trivial
  | stampEdgeIdentity e => cases h

/-- The writes of a list of primitives. -/
def writesOf (ps : List Primitive) : List (GraphWrite NodeRef NodeContent EdgeKey PropertyMap) :=
  ps.filterMap Primitive.toWrite

theorem mem_writesOf {ps : List Primitive} {w} : w ∈ writesOf ps ↔ ∃ p ∈ ps, p.toWrite = some w :=
  List.mem_filterMap

theorem writesOf_overwriting (ps : List Primitive) : ∀ w ∈ writesOf ps, Overwriting w := by
  intro w hw
  obtain ⟨p, -, hp⟩ := mem_writesOf.1 hw
  exact toWrite_overwriting hp

theorem applyAll_eq_writeAll {ps : List Primitive} (h : ∀ p ∈ ps, isStamp p = false) (g : Graph) :
    applyAll g ps = g.writeAll (writesOf ps) := by
  induction ps generalizing g with
  | nil => rfl
  | cons p ps ih =>
    have hp : ∃ w, p.toWrite = some w := by
      have := h p (by simp)
      cases p with
      | stampEdgeIdentity e => simp [isStamp] at this
      | _ => exact ⟨_, rfl⟩
    obtain ⟨w, hw⟩ := hp
    have hcons : writesOf (p :: ps) = w :: writesOf ps := List.filterMap_cons_some hw
    rw [applyAll_cons, applyOne_eq_write hw, ih (fun q hq => h q (List.mem_cons_of_mem _ hq)), hcons, writeAll_cons]

/-- No primitive makes an edge without an identity. -/
theorem applyOne_unidentified {g : Graph} {k : EdgeKey} (hk : k.identity = none) (h : g.edgesAt k = 0)
    (p : Primitive) : (applyOne g p).edgesAt k = 0 := by
  cases p with
  | stampEdgeIdentity e =>
    rw [applyOne_stamp, stampEdge_edgesAt]
    have hne : e.edgeKey ≠ k := by rintro rfl; simp [EdgeBase.edgeKey] at hk
    rw [if_neg hne, h, ite_self]
  | upsertEdge e props =>
    have hne : e.edgeKey ≠ k := by rintro rfl; simp [EdgeBase.edgeKey] at hk
    rw [applyOne_eq_write rfl, write_edgesAt, h]
    simp [edgeStep, hne]
  | upsertNode n props e => rw [applyOne_eq_write rfl, write_edgesAt, h]; rfl
  | mergeProperty n props => rw [applyOne_eq_write rfl, write_edgesAt, h]; rfl
  | removeProperty n keys => rw [applyOne_eq_write rfl, write_edgesAt, h]; rfl
  | deleteNode n => rw [applyOne_eq_write rfl, write_edgesAt, h]; simp [edgeStep]
  | deleteEdge e => rw [applyOne_eq_write rfl, write_edgesAt, h]; simp [edgeStep]

theorem applyAll_unidentified {g : Graph} {k : EdgeKey} (hk : k.identity = none) (h : g.edgesAt k = 0)
    (ps : List Primitive) : (applyAll g ps).edgesAt k = 0 := by
  induction ps generalizing g with
  | nil => exact h
  | cons p ps ih => exact ih (applyOne_unidentified hk h p)

/-- A stamp of a pair without an identity-less edge changes nothing. -/
theorem stampEdge_noop {g : Graph} {e : EdgeBase} (h : g.edgesAt e.unidentifiedKey = 0) : stampEdge g e = g := by
  refine ext_at (fun n => rfl) fun k => ?_
  rw [stampEdge_edgesAt]
  by_cases h1 : e.unidentifiedKey = k
  · subst h1; rw [if_pos rfl, h]
  · by_cases h2 : e.edgeKey = k
    · subst h2; rw [if_neg h1, if_pos rfl, h, add_zero]
    · rw [if_neg h1, if_neg h2]

/-- Stamps whose pairs have no identity-less edge are no-ops wherever they stand. -/
theorem applyAll_filter_stamps {g : Graph} {ps : List Primitive}
    (h : ∀ e, Primitive.stampEdgeIdentity e ∈ ps → g.edgesAt e.unidentifiedKey = 0) :
    applyAll g (ps.filter fun p => !isStamp p) = applyAll g ps := by
  induction ps generalizing g with
  | nil => rfl
  | cons p ps ih =>
    have hrest : ∀ e, Primitive.stampEdgeIdentity e ∈ ps → (applyOne g p).edgesAt e.unidentifiedKey = 0 :=
      fun e he => applyOne_unidentified rfl (h e (List.mem_cons_of_mem _ he)) p
    cases p with
    | stampEdgeIdentity e =>
      have hnoop : applyOne g (.stampEdgeIdentity e) = g := stampEdge_noop (h e (by simp))
      rw [List.filter_cons_of_neg (by simp [isStamp]), applyAll_cons, ← ih hrest, hnoop]
    | _ => rw [List.filter_cons_of_pos (by simp [isStamp]), applyAll_cons, applyAll_cons, ih hrest]

end PolicySystem
