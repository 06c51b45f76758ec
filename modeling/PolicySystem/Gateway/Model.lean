import PolicySystem.Graph.Reapply

/-!
# The gateway's data model

Property values, node references, edge keys, the mutation primitives and the graph they act on
(`graph_gateway/models.py`, `graph_gateway/graph_reader.py`).

* `PropertyValue.same_iff`: the value identity of the no-op filter is equality of stored values;
* `Graph`: one FalkorDB graph, a property graph keyed by label and id.
-/

set_option linter.unusedSectionVars false

open Std (ExtTreeMap TransOrd LawfulEqOrd)

namespace PolicySystem

/-- A binary64, by its bit pattern. -/
structure Double where
  bits : UInt64
  deriving DecidableEq

/-- A property scalar: str, bool, int64 or finite float. -/
inductive Scalar where
  | str (s : String)
  | bool (b : Bool)
  | int (i : Int)
  | float (d : Double)
  deriving DecidableEq

/-- A stored property value: a scalar or a flat list. -/
inductive PropertyValue where
  | scalar (s : Scalar)
  | list (items : List Scalar)
  deriving DecidableEq

abbrev PropertyMap := ExtTreeMap String PropertyValue

abbrev Embedding := List Double

/-- The same scalar by type and value; floats compare by `hex()`, so by bits. -/
def Scalar.same : Scalar → Scalar → Bool
  | str a, str b => a == b
  | bool a, bool b => a == b
  | int a, int b => a == b
  | float a, float b => a.bits == b.bits
  | _, _ => false

/-- `_same_value`: lists compare item by item, a list never equals a scalar. -/
def PropertyValue.same : PropertyValue → PropertyValue → Bool
  | list a, list b => a.length == b.length && (a.zip b).all fun p => p.1.same p.2
  | scalar a, scalar b => a.same b
  | _, _ => false

@[simp] theorem Scalar.same_iff {a b : Scalar} : a.same b = true ↔ a = b := by
  cases a <;> cases b <;> simp [Scalar.same]
  rename_i a b
  cases a; cases b; simp

@[simp] theorem PropertyValue.same_iff {a b : PropertyValue} : a.same b = true ↔ a = b := by
  have hlist : ∀ xs ys : List Scalar,
      (xs.length = ys.length ∧ ∀ p ∈ xs.zip ys, p.1 = p.2) ↔ xs = ys := by
    intro xs
    induction xs with
    | nil => intro ys; cases ys <;> simp
    | cons x xs ih =>
      intro ys
      cases ys with
      | nil => simp
      | cons y ys => simp [← ih ys, and_left_comm]
  cases a <;> cases b <;> simp [PropertyValue.same]
  simpa using hlist _ _

/-- `_already_holds`: every wanted property is stored with the same value. -/
def alreadyHolds (current wanted : PropertyMap) : Bool :=
  wanted.toList.all fun (key, value) => (current[key]?.map (·.same value)).getD false

theorem alreadyHolds_iff {current wanted : PropertyMap} :
    alreadyHolds current wanted = true ↔ current ∪ wanted = current := by
  simp only [alreadyHolds, List.all_eq_true, Prod.forall, ExtTreeMap.mem_toList_iff_getElem?_eq_some]
  constructor
  · intro h
    refine ExtTreeMap.ext_getElem? fun k => ?_
    rw [ExtTreeMap.getElem?_union]
    cases hw : wanted[k]? with
    | none => rfl
    | some v =>
      have := h k v hw
      cases hc : current[k]? with
      | none => rw [hc] at this; simp at this
      | some u => rw [hc] at this; simp at this; rw [this]; rfl
  · intro h k v hw
    have hk : (current ∪ wanted)[k]? = some v := by rw [ExtTreeMap.getElem?_union, hw]; rfl
    rw [h] at hk
    simp [hk]

/-- What a node holds. The gateway owns the key `embedding`: validation keeps it out of every caller's
property map, so it is a field of its own. -/
structure NodeContent where
  properties : PropertyMap := ∅
  embedding : Option Embedding := none
  deriving DecidableEq

instance : Inhabited NodeContent := ⟨{}⟩

/-- The caller-supplied identity of a node (`NodeRef`, and the reader's `NodeKey`). -/
structure NodeRef where
  label : String
  id : String
  deriving DecidableEq

instance : Ord NodeRef := ⟨compareLex (compareOn NodeRef.label) (compareOn NodeRef.id)⟩

instance : TransOrd NodeRef :=
  inferInstanceAs (Std.TransCmp (compareLex (compareOn NodeRef.label) (compareOn NodeRef.id)))

instance : LawfulEqOrd NodeRef where
  compare_self := Std.ReflCmp.compare_self
  eq_of_compare {a b} h := by
    obtain ⟨h1, h2⟩ := Ordering.then_eq_eq.1 h
    have hl : a.label = b.label := Std.LawfulEqCmp.eq_of_compare h1
    have hi : a.id = b.id := Std.LawfulEqCmp.eq_of_compare h2
    cases a; cases b; cases hl; cases hi; rfl

/-- The key of a stored edge. `identity = none` is the reader's `UNIDENTIFIED` slot: a caller's identity
is never blank. -/
structure EdgeKey where
  type : String
  source : NodeRef
  target : NodeRef
  identity : Option String
  deriving DecidableEq

instance : Ord EdgeKey := ⟨compareLex (compareOn EdgeKey.type) (compareLex (compareOn EdgeKey.source)
  (compareLex (compareOn EdgeKey.target) (compareOn EdgeKey.identity)))⟩

instance : TransOrd EdgeKey :=
  inferInstanceAs (Std.TransCmp (compareLex (compareOn EdgeKey.type) (compareLex (compareOn EdgeKey.source)
    (compareLex (compareOn EdgeKey.target) (compareOn EdgeKey.identity)))))

instance : LawfulEqOrd EdgeKey where
  compare_self := Std.ReflCmp.compare_self
  eq_of_compare {a b} h := by
    obtain ⟨h1, h⟩ := Ordering.then_eq_eq.1 h
    obtain ⟨h2, h⟩ := Ordering.then_eq_eq.1 h
    obtain ⟨h3, h4⟩ := Ordering.then_eq_eq.1 h
    have ht : a.type = b.type := Std.LawfulEqCmp.eq_of_compare h1
    have hs : a.source = b.source := Std.LawfulEqCmp.eq_of_compare h2
    have hg : a.target = b.target := Std.LawfulEqCmp.eq_of_compare h3
    have hi : a.identity = b.identity := Std.LawfulEqCmp.eq_of_compare h4
    cases a; cases b; cases ht; cases hs; cases hg; cases hi; rfl

instance : Incidence EdgeKey NodeRef := ⟨EdgeKey.source, EdgeKey.target⟩

@[simp] theorem source_edgeKey (k : EdgeKey) : (Incidence.source k : NodeRef) = k.source := rfl

@[simp] theorem target_edgeKey (k : EdgeKey) : (Incidence.target k : NodeRef) = k.target := rfl

/-- One FalkorDB graph: at most one node per label and id, any number of edges per key. -/
abbrev Graph := PropertyGraph NodeRef NodeContent EdgeKey PropertyMap

/-- What upserting, deleting and stamping an edge share (`_EdgeBase`). -/
structure EdgeBase where
  type : String
  identity : String
  source : NodeRef
  target : NodeRef
  deriving DecidableEq

/-- `_edge_key`. -/
def EdgeBase.edgeKey (e : EdgeBase) : EdgeKey := ⟨e.type, e.source, e.target, some e.identity⟩

/-- `_unidentified_key`: the identity-less edge a stamp targets. -/
def EdgeBase.unidentifiedKey (e : EdgeBase) : EdgeKey := ⟨e.type, e.source, e.target, none⟩

theorem EdgeBase.unidentifiedKey_ne_edgeKey (e f : EdgeBase) : e.unidentifiedKey ≠ f.edgeKey := by
  simp [EdgeBase.unidentifiedKey, EdgeBase.edgeKey]

theorem EdgeBase.edgeKey_injective {e f : EdgeBase} (h : e.edgeKey = f.edgeKey) : e = f := by
  cases e; cases f; simpa [EdgeBase.edgeKey, and_comm, and_left_comm, and_assoc] using h

/-- One graph mutation a caller may submit. -/
inductive Primitive where
  | upsertNode (node : NodeRef) (properties : PropertyMap) (embedding : Option Embedding)
  | upsertEdge (edge : EdgeBase) (properties : PropertyMap)
  | mergeProperty (node : NodeRef) (properties : PropertyMap)
  | removeProperty (node : NodeRef) (keys : List String)
  | deleteNode (node : NodeRef)
  | deleteEdge (edge : EdgeBase)
  | stampEdgeIdentity (edge : EdgeBase)
  deriving DecidableEq

/-! ## What the primitives write -/

/-- `properties` and `embedding` over what the node holds; an absent embedding keeps the stored one. -/
def NodeContent.upsert (properties : PropertyMap) (embedding : Option Embedding) (v : NodeContent) : NodeContent :=
  { properties := v.properties ∪ properties, embedding := embedding.or v.embedding }

/-- `properties` over what the node holds. -/
def NodeContent.merge (properties : PropertyMap) (v : NodeContent) : NodeContent :=
  { v with properties := v.properties ∪ properties }

/-- The node without the property `keys`. -/
def NodeContent.remove (keys : List String) (v : NodeContent) : NodeContent :=
  { v with properties := v.properties.filter fun key _ => key ∉ keys }

theorem NodeContent.remove_properties (keys : List String) (v : NodeContent) (k : String) :
    (v.remove keys).properties[k]? = if k ∈ keys then none else v.properties[k]? := by
  simp only [NodeContent.remove, ExtTreeMap.getElem?_filter']
  cases v.properties[k]? with
  | none => simp
  | some u => by_cases h : k ∈ keys <;> simp [h]

@[simp] theorem NodeContent.remove_embedding (keys : List String) (v : NodeContent) :
    (v.remove keys).embedding = v.embedding := rfl

theorem NodeContent.ext_get {v w : NodeContent} (h : ∀ k : String, v.properties[k]? = w.properties[k]?)
    (he : v.embedding = w.embedding) : v = w := by
  cases v; cases w; cases he; cases ExtTreeMap.ext_getElem? h; rfl

@[simp] theorem NodeContent.remove_default (keys : List String) : (default : NodeContent).remove keys = default :=
  NodeContent.ext_get (fun k => by rw [remove_properties]; simp [default]) rfl

/-- A reading of a node: its embedding, or one property. -/
abbrev NodeReading := Option PropertyValue ⊕ Option Embedding

instance : Readings NodeContent (Option String) NodeReading where
  read v
    | some k => .inl v.properties[k]?
    | none => .inr v.embedding
  ext h := NodeContent.ext_get (fun k => Sum.inl.inj (h (some k))) (Sum.inr.inj (h none))

instance : Readings PropertyMap String (Option PropertyValue) where
  read p k := p[k]?
  ext h := ExtTreeMap.ext_getElem? h

theorem overwrites_union (p : PropertyMap) : Overwrites fun v : PropertyMap => v ∪ p := by
  refine ⟨fun k => p[k]?.map some, fun v k => ?_⟩
  simp only [Readings.read, ExtTreeMap.getElem?_union]
  cases p[k]? <;> rfl

theorem overwrites_upsert (p : PropertyMap) (e : Option Embedding) :
    Overwrites fun v : NodeContent => v.upsert p e := by
  refine ⟨fun | some k => p[k]?.map fun u => .inl (some u) | none => e.map fun u => .inr (some u), fun v i => ?_⟩
  cases i with
  | none => cases e <;> rfl
  | some k =>
    simp only [Readings.read, NodeContent.upsert, ExtTreeMap.getElem?_union]
    cases p[k]? <;> rfl

theorem overwrites_merge (p : PropertyMap) : Overwrites fun v : NodeContent => v.merge p := by
  refine ⟨fun | some k => p[k]?.map fun u => .inl (some u) | none => none, fun v i => ?_⟩
  cases i with
  | none => rfl
  | some k =>
    simp only [Readings.read, NodeContent.merge, ExtTreeMap.getElem?_union]
    cases p[k]? <;> rfl

theorem overwrites_remove (keys : List String) : Overwrites fun v : NodeContent => v.remove keys := by
  refine ⟨fun | some k => if k ∈ keys then some (.inl none) else none | none => none, fun v i => ?_⟩
  cases i with
  | none => rfl
  | some k =>
    simp only [Readings.read, NodeContent.remove_properties]
    split <;> rfl

end PolicySystem
