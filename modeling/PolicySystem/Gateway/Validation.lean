import PolicySystem.Gateway.NoopFilter

/-!
# What the primitive models accept, and what can be stored

The boundary validation of `graph_gateway/models.py` over the Python values a caller hands in, and the
value encoding of the canonical digest (`graph_gateway/digest.py`).

* `accept_values`: an accepted property value is a scalar or a flat list the digest can encode;
* `logged_values_storable_iff`: every value of an accepted group can be stored exactly when every embedding
  component is finite, which nothing checks.
-/

namespace PolicySystem

open Std (ExtTreeMap)

/-! ## Values -/

/-- A Python value at the boundary. -/
inductive PyValue where
  | none
  | bool (b : Bool)
  | int (i : Int)
  | float (d : Double)
  | str (s : String)
  | list (items : List PyValue)
  | tuple (items : List PyValue)
  | dict (items : List (String × PyValue))
  | other

/-- `type(item)`. -/
inductive PyType where
  | none
  | bool
  | int
  | float
  | str
  | list
  | tuple
  | dict
  | other
  deriving DecidableEq

def PyValue.type : PyValue → PyType
  | none => .none
  | bool _ => .bool
  | int _ => .int
  | float _ => .float
  | str _ => .str
  | list _ => .list
  | tuple _ => .tuple
  | dict _ => .dict
  | other => .other

/-- `math.isfinite`: the exponent field is not all ones. -/
def Double.isFinite (d : Double) : Bool := d.bits.toNat / 2 ^ 52 % 2 ^ 11 ≠ 2 ^ 11 - 1

/-- `_INT64_MIN <= value <= _INT64_MAX`. -/
def isInt64 (i : Int) : Bool := -2 ^ 63 ≤ i ∧ i ≤ 2 ^ 63 - 1

/-- `_is_valid_scalar`. -/
def isValidScalar : PyValue → Bool
  | .bool _ | .str _ => true
  | .int i => isInt64 i
  | .float d => d.isFinite
  | _ => false

/-- `_is_valid_property_value`. -/
def isValidPropertyValue : PyValue → Bool
  | .list items | .tuple items =>
    match items with
    | [] => false
    | first :: rest => rest.all (fun item => item.type = first.type) && (first :: rest).all isValidScalar
  | value => isValidScalar value

/-- The scalar a valid Python scalar is stored as. -/
def PyValue.toScalar : PyValue → Option Scalar
  | bool b => some (.bool b)
  | int i => some (.int i)
  | float d => some (.float d)
  | str s => some (.str s)
  | _ => Option.none

/-- The stored value of a property; a tuple becomes a list. -/
def PyValue.toPropertyValue : PyValue → Option PropertyValue
  | list items | tuple items => (items.mapM toScalar).map .list
  | value => value.toScalar.map .scalar

/-- Whitespace of the pattern `\S`. -/
def isPatternSpace (c : Char) : Bool :=
  (9 ≤ c.toNat && c.toNat ≤ 13) || (0x2000 ≤ c.toNat && c.toNat ≤ 0x200a) ||
    [0x20, 0x85, 0xa0, 0x1680, 0x2028, 0x2029, 0x202f, 0x205f, 0x3000].contains c.toNat

/-- Whitespace of `str.strip`. -/
def isStripSpace (c : Char) : Bool := isPatternSpace c || (0x1c ≤ c.toNat && c.toNat ≤ 0x1f)

/-- `min_length=1, pattern=_NON_BLANK`. -/
def isNonBlank (s : String) : Bool := s.toList.any fun c => !isPatternSpace c

/-- `IDENTIFIER_PATTERN`. -/
def isIdentifier (s : String) : Bool :=
  match s.toList with
  | [] => false
  | first :: rest => (first.isAlpha || first == '_') && rest.length ≤ 63 && rest.all fun c => c.isAlphanum || c == '_'

/-- `RESERVED_NODE_PROPERTY_KEYS`. -/
def reservedNodePropertyKeys : List String := ["id", "embedding"]

/-- `RESERVED_EDGE_PROPERTY_KEYS`. -/
def reservedEdgePropertyKeys : List String := ["id", "embedding", "identity"]

/-- What `validate_property_map` raises. -/
inductive PropertyMapError where
  /-- "a property key is blank or reserved" -/
  | key
  /-- "property ... is not a scalar or a flat homogeneous list" -/
  | value (key : String)
  deriving DecidableEq

/-- One turn of the loop of `validate_property_map`. -/
def validateProperty (reserved : List String) (key : String) (value : PyValue) : Except PropertyMapError Unit :=
  if key.toList.all isStripSpace || reserved.contains key then .error .key
  else if isValidPropertyValue value then .ok ()
  else .error (.value key)

/-- `validate_property_map`: the map with its tuples made lists. -/
def validatePropertyMap (properties : List (String × PyValue)) (reserved : List String) :
    Except PropertyMapError PropertyMap := do
  for (key, value) in properties do
    validateProperty reserved key value
  return ExtTreeMap.ofList (properties.filterMap fun (key, value) => value.toPropertyValue.map fun v => (key, v))

/-! ## Primitives -/

/-- `NodeRef`. -/
def acceptNodeRef (label id : String) : Option NodeRef :=
  if isIdentifier label && isNonBlank id then some ⟨label, id⟩ else none

/-- The fields of `_EdgeBase`. -/
structure RawEdge where
  type : String
  identity : String
  source : String × String
  target : String × String

/-- `_EdgeBase`. -/
def RawEdge.accept (edge : RawEdge) : Option EdgeBase := do
  guard (isIdentifier edge.type && isNonBlank edge.identity)
  let source ← acceptNodeRef edge.source.1 edge.source.2
  let target ← acceptNodeRef edge.target.1 edge.target.2
  return ⟨edge.type, edge.identity, source, target⟩

/-- The fields of a primitive as the caller gives them; strings and embedding components are already of their
type, the property values are not looked at yet. -/
inductive RawPrimitive where
  | upsertNode (label id : String) (properties : List (String × PyValue)) (embedding : Option Embedding)
  | upsertEdge (edge : RawEdge) (properties : List (String × PyValue))
  | mergeProperty (label id : String) (properties : List (String × PyValue))
  | removeProperty (label id : String) (keys : List String)
  | deleteNode (label id : String)
  | deleteEdge (edge : RawEdge)
  | stampEdgeIdentity (edge : RawEdge)

/-- The primitive models: what each validates, and the primitive it becomes. -/
def RawPrimitive.accept : RawPrimitive → Option Primitive
  | upsertNode label id properties embedding => do
    let node ← acceptNodeRef label id
    -- `Field(default=None, min_length=1)`: the components are floats, finite or not
    guard (embedding ≠ some [])
    let properties ← (validatePropertyMap properties reservedNodePropertyKeys).toOption
    return .upsertNode node properties embedding
  | upsertEdge edge properties => do
    let edge ← edge.accept
    let properties ← (validatePropertyMap properties reservedEdgePropertyKeys).toOption
    return .upsertEdge edge properties
  | mergeProperty label id properties => do
    let node ← acceptNodeRef label id
    guard (properties ≠ [])
    let properties ← (validatePropertyMap properties reservedNodePropertyKeys).toOption
    return .mergeProperty node properties
  | removeProperty label id keys => do
    let node ← acceptNodeRef label id
    guard (keys ≠ [] ∧ keys.all isIdentifier ∧ keys.Nodup ∧ ∀ key ∈ keys, key ∉ reservedNodePropertyKeys)
    return .removeProperty node keys
  | deleteNode label id => return .deleteNode (← acceptNodeRef label id)
  | deleteEdge edge => return .deleteEdge (← edge.accept)
  | stampEdgeIdentity edge => return .stampEdgeIdentity (← edge.accept)

/-- `MutationGroup`. -/
def acceptGroup (graph : String) (primitives : List RawPrimitive) : Option (List Primitive) := do
  guard (isNonBlank graph && !primitives.isEmpty)
  primitives.mapM RawPrimitive.accept

/-! ## The digest's value encoding -/

/-- `_length`. -/
def encodeLength (size : Nat) : List UInt8 :=
  (List.range 8).reverse.map fun i => UInt8.ofNat (size / 256 ^ i)

/-- `_text`. -/
def encodeText (s : String) : List UInt8 := encodeLength s.utf8ByteSize ++ s.toUTF8.toList

/-- The type tag ahead of a value. -/
def tag (c : Char) : UInt8 := UInt8.ofNat c.toNat

/-- `encode_value` of a scalar: `_encode_bool`, `_encode_int`, `_encode_float` and the text case. -/
def encodeScalar : Scalar → Option (List UInt8)
  | .bool b => some [tag 'b', if b then 1 else 0]
  | .int i => if isInt64 i then some (tag 'i' :: encodeLength (i % 2 ^ 64).toNat) else none
  | .float d => if d.isFinite then some (tag 'f' :: encodeLength d.bits.toNat) else none
  | .str s => some (tag 's' :: encodeText s)

/-- `_encode_floats`. -/
def encodeFloats (items : List Double) : Option (List UInt8) :=
  if items.all Double.isFinite then some (items.flatMap fun d => tag 'f' :: encodeLength d.bits.toNat) else none

/-- The floats of a list that holds nothing else. -/
def allFloats : List Scalar → Option (List Double)
  | [] => some []
  | .float d :: items => (allFloats items).map (d :: ·)
  | _ :: _ => none

/-- `encode_value`, with `_encode_list`. -/
def encodeValue : PropertyValue → Option (List UInt8)
  | .scalar s => encodeScalar s
  | .list items => do
    let body ←
      match items, allFloats items with
      | _ :: _, some floats => encodeFloats floats
      | _, _ => (items.mapM encodeScalar).map List.flatten
    return tag 'l' :: encodeLength items.length ++ body

/-- A scalar FalkorDB can hold: str, bool, int64 or finite float. -/
def Scalar.graphStorable : Scalar → Bool
  | str _ | bool _ => true
  | int i => isInt64 i
  | float d => d.isFinite

/-- A value FalkorDB can hold. -/
def PropertyValue.graphStorable : PropertyValue → Bool
  | scalar s => s.graphStorable
  | list items => items.all Scalar.graphStorable

/-- The digest can encode the value and FalkorDB can hold it. -/
def PropertyValue.Storable (v : PropertyValue) : Prop := (encodeValue v).isSome = true ∧ v.graphStorable = true

/-- The values a primitive writes; an embedding is written as a list of floats. -/
def Primitive.values : Primitive → List PropertyValue
  | upsertNode _ properties embedding =>
    properties.toList.map Prod.snd ++ (embedding.map fun e => PropertyValue.list (e.map .float)).toList
  | upsertEdge _ properties | mergeProperty _ properties => properties.toList.map Prod.snd
  | _ => []

/-! ## Which values can be stored -/

theorem encodeScalar_isSome (s : Scalar) : (encodeScalar s).isSome = s.graphStorable := by
  cases s with
  | str s => rfl
  | bool b => rfl
  | int i => by_cases h : isInt64 i = true <;> simp [encodeScalar, Scalar.graphStorable, h]
  | float d => by_cases h : d.isFinite = true <;> simp [encodeScalar, Scalar.graphStorable, h]

theorem mapM_isSome {α β : Type} (f : α → Option β) (xs : List α) :
    (xs.mapM f).isSome = xs.all fun x => (f x).isSome := by
  induction xs with
  | nil => rfl
  | cons x xs ih =>
    rw [List.mapM_cons, List.all_cons, ← ih]
    cases f x <;> cases xs.mapM f <;> rfl

theorem allFloats_eq_some {items : List Scalar} {floats : List Double} (h : allFloats items = some floats) :
    items = floats.map .float := by
  induction items generalizing floats with
  | nil =>
    cases h
    rfl
  | cons item items ih =>
    cases item with
    | float d =>
      obtain ⟨rest, hrest, rfl⟩ := Option.map_eq_some_iff.1 h
      rw [ih hrest]
      rfl
    | str s => cases h
    | bool b => cases h
    | int i => cases h

/-- What FalkorDB can hold is what the digest can encode. -/
theorem storable_iff (v : PropertyValue) : v.Storable ↔ v.graphStorable = true := by
  refine ⟨fun h => h.2, fun h => ⟨?_, h⟩⟩
  cases v with
  | scalar s =>
    rw [← h]
    exact encodeScalar_isSome s
  | list items =>
    have hall : ∀ item ∈ items, item.graphStorable = true := List.all_eq_true.1 h
    have hmap : (items.mapM encodeScalar).isSome = true := by
      rw [mapM_isSome]
      exact List.all_eq_true.2 fun item hitem => by rw [encodeScalar_isSome]; exact hall item hitem
    unfold encodeValue
    dsimp only
    split
    · rename_i item rest floats hfloats
      rw [allFloats_eq_some hfloats] at hall
      have hfinite : floats.all Double.isFinite = true :=
        List.all_eq_true.2 fun d hd => hall _ (List.mem_map_of_mem hd)
      simp [encodeFloats, hfinite]
    · obtain ⟨bytes, hbytes⟩ := Option.isSome_iff_exists.1 hmap
      simp [hbytes]

theorem graphStorable_of_valid {v : PyValue} (h : isValidScalar v = true) :
    ∃ s, v.toScalar = some s ∧ s.graphStorable = true := by
  cases v with
  | bool b => exact ⟨_, rfl, rfl⟩
  | str s => exact ⟨_, rfl, rfl⟩
  | int i => exact ⟨_, rfl, h⟩
  | float d => exact ⟨_, rfl, h⟩
  | _ => cases h

theorem mapM_toScalar_storable {items : List PyValue} (h : ∀ item ∈ items, isValidScalar item = true) :
    ∃ scalars, items.mapM PyValue.toScalar = some scalars ∧ ∀ s ∈ scalars, s.graphStorable = true := by
  induction items with
  | nil => exact ⟨[], rfl, by simp⟩
  | cons item items ih =>
    obtain ⟨s, hs, hsok⟩ := graphStorable_of_valid (h item (by simp))
    obtain ⟨scalars, hrest, hok⟩ := ih fun x hx => h x (List.mem_cons_of_mem _ hx)
    refine ⟨s :: scalars, by simp [hs, hrest], ?_⟩
    intro x hx
    rcases List.mem_cons.1 hx with rfl | hx
    · exact hsok
    · exact hok x hx

/-- **An accepted property value can be stored.** -/
theorem toPropertyValue_storable {v : PyValue} (h : isValidPropertyValue v = true) :
    ∃ stored, v.toPropertyValue = some stored ∧ stored.Storable := by
  have hlist : ∀ items : List PyValue, isValidPropertyValue (.list items) = true →
      ∃ stored, (items.mapM PyValue.toScalar).map PropertyValue.list = some stored ∧ stored.Storable := by
    intro items h
    cases items with
    | nil => cases h
    | cons first rest =>
      simp only [isValidPropertyValue, Bool.and_eq_true] at h
      obtain ⟨scalars, hs, hok⟩ := mapM_toScalar_storable (List.all_eq_true.1 h.2)
      exact ⟨.list scalars, by rw [hs]; rfl, (storable_iff _).2 (List.all_eq_true.2 hok)⟩
  have hscalar : isValidScalar v = true → ∃ stored, v.toScalar.map PropertyValue.scalar = some stored ∧ stored.Storable := by
    intro h
    obtain ⟨s, hs, hok⟩ := graphStorable_of_valid h
    exact ⟨.scalar s, by rw [hs]; rfl, (storable_iff _).2 hok⟩
  cases v with
  | list items => exact hlist items h
  | tuple items => exact hlist items h
  | _ => exact hscalar h

theorem validateProperty_ok {reserved : List String} {key : String} {value : PyValue}
    (h : validateProperty reserved key value = .ok ()) : isValidPropertyValue value = true := by
  unfold validateProperty at h
  split at h
  · cases h
  · split at h
    · rename_i hvalid
      exact hvalid
    · cases h

/-- Accepted properties passed the loop one by one. -/
theorem validatePropertyMap_ok {properties : List (String × PyValue)} {reserved : List String} {map : PropertyMap}
    (h : validatePropertyMap properties reserved = .ok map) :
    (∀ item ∈ properties, validateProperty reserved item.1 item.2 = .ok ()) ∧
      map = ExtTreeMap.ofList
        (properties.filterMap fun item => item.2.toPropertyValue.map fun v => (item.1, v)) := by
  have hloop : ∀ (items : List (String × PyValue)) (e : Except PropertyMapError PUnit),
      (forIn items PUnit.unit fun item _ => do
        validateProperty reserved item.1 item.2
        pure (ForInStep.yield PUnit.unit)) = e → e = .ok PUnit.unit →
      ∀ item ∈ items, validateProperty reserved item.1 item.2 = .ok () := by
    intro items
    induction items with
    | nil => simp
    | cons item items ih =>
      intro e he hok x hx
      rw [List.forIn_cons] at he
      cases hitem : validateProperty reserved item.1 item.2 with
      | error err =>
        rw [hitem] at he
        rw [hok] at he
        cases he
      | ok u =>
        rw [hitem] at he
        rcases List.mem_cons.1 hx with rfl | hx
        · exact hitem
        · exact ih e he hok x hx
  unfold validatePropertyMap at h
  generalize hl : (forIn properties PUnit.unit fun item (_ : PUnit) => do
    validateProperty reserved item.1 item.2
    pure (ForInStep.yield PUnit.unit) : Except PropertyMapError PUnit) = e at h
  cases e with
  | error err => cases h
  | ok u =>
    cases h
    exact ⟨hloop properties _ hl rfl, rfl⟩

/-- What a map built from a list holds was in the list. -/
theorem mem_of_getElem?_ofList {items : List (String × PropertyValue)} {key : String} {v : PropertyValue}
    (h : (ExtTreeMap.ofList items : PropertyMap)[key]? = some v) : (key, v) ∈ items := by
  rw [ExtTreeMap.ofList_eq_insertMany_empty] at h
  have hinsert : ∀ (items : List (String × PropertyValue)) (map : PropertyMap), (map.insertMany items)[key]? = some v →
      (key, v) ∈ items ∨ map[key]? = some v := by
    intro items
    induction items with
    | nil => exact fun _ h => .inr h
    | cons item items ih =>
      obtain ⟨k, u⟩ := item
      intro map h
      rw [ExtTreeMap.insertMany_cons] at h
      rcases ih _ h with h | h
      · exact .inl (List.mem_cons_of_mem _ h)
      · rw [ExtTreeMap.getElem?_insert] at h
        split at h
        · rename_i heq
          rw [compare_eq_iff_eq] at heq
          cases h
          exact .inl (by rw [heq]; simp)
        · exact .inr h
  rcases hinsert items ∅ h with h | h
  · exact h
  · simp at h

/-- What a map built from distinct keys holds. -/
theorem getElem?_ofList {items : List (String × PropertyValue)} (hnodup : (items.map Prod.fst).Nodup) (key : String) :
    (ExtTreeMap.ofList items : PropertyMap)[key]? = (items.find? fun item => item.1 = key).map Prod.snd := by
  have hdistinct : items.Pairwise fun a b => ¬compare a.1 b.1 = .eq := by
    refine (List.pairwise_map.1 hnodup).imp fun hne heq => hne (compare_eq_iff_eq.1 heq)
  cases hfind : items.find? fun item => item.1 = key with
  | some item =>
    have hkey : item.1 = key := by simpa using List.find?_some hfind
    have hmem := List.mem_of_find?_eq_some hfind
    subst hkey
    exact ExtTreeMap.getElem?_ofList_of_mem Std.ReflCmp.compare_self hdistinct hmem
  | none =>
    cases hget : (ExtTreeMap.ofList items : PropertyMap)[key]? with
    | none => rfl
    | some v =>
      have := List.find?_eq_none.1 hfind _ (mem_of_getElem?_ofList hget)
      simp at this

/-- **Accepted values.** Every value of an accepted property map can be stored. -/
theorem accept_values {properties : List (String × PyValue)} {reserved : List String} {map : PropertyMap}
    (h : validatePropertyMap properties reserved = .ok map) : ∀ v ∈ map.toList.map Prod.snd, v.Storable := by
  intro v hv
  obtain ⟨hvalid, rfl⟩ := validatePropertyMap_ok h
  obtain ⟨⟨key, u⟩, hmem, rfl⟩ := List.mem_map.1 hv
  have hitem := mem_of_getElem?_ofList (ExtTreeMap.mem_toList_iff_getElem?_eq_some.1 hmem)
  obtain ⟨item, hin, hstored⟩ := List.mem_filterMap.1 hitem
  obtain ⟨w, hw, heq⟩ := Option.map_eq_some_iff.1 hstored
  obtain ⟨stored, hs, hok⟩ := toPropertyValue_storable (validateProperty_ok (hvalid item hin))
  rw [hw] at hs
  cases hs
  cases heq
  exact hok

/-- A finite embedding, or none. -/
def finiteEmbedding (embedding : Option Embedding) : Prop := ∀ e, embedding = some e → ∀ d ∈ e, d.isFinite = true

theorem embedding_storable {e : Embedding} :
    (PropertyValue.list (e.map .float)).Storable ↔ ∀ d ∈ e, d.isFinite = true := by
  rw [storable_iff]
  simp [PropertyValue.graphStorable, Scalar.graphStorable]

/-- The embedding the caller gives with a primitive. -/
def RawPrimitive.embedding : RawPrimitive → Option Embedding
  | upsertNode _ _ _ embedding => embedding
  | _ => none

theorem bind_ok {ε α β : Type} {x : Except ε α} {f : α → Except ε β} {b : β} :
    x >>= f = .ok b ↔ ∃ a, x = .ok a ∧ f a = .ok b := by
  cases x with
  | error e => exact ⟨fun h => (nomatch h), fun ⟨_, h, _⟩ => (nomatch h)⟩
  | ok a =>
    refine ⟨fun h => ⟨a, rfl, h⟩, fun ⟨_, h, hb⟩ => ?_⟩
    cases h
    exact hb

theorem toOption_eq_some {ε α : Type} {x : Except ε α} {a : α} (h : x.toOption = some a) : x = .ok a := by
  cases x with
  | error e => cases h
  | ok b =>
    cases h
    rfl

/-- **Per primitive.** An accepted primitive writes only storable values exactly when its embedding is finite. -/
theorem values_storable_iff {raw : RawPrimitive} {p : Primitive} (h : raw.accept = some p) :
    (∀ v ∈ p.values, v.Storable) ↔ finiteEmbedding raw.embedding := by
  have hnone : finiteEmbedding none := fun e he => by cases he
  cases raw with
  | upsertNode label id properties embedding =>
    simp only [RawPrimitive.accept, Option.bind_eq_bind, Option.bind_eq_some_iff] at h
    obtain ⟨node, -, -, -, map, hmap, heq⟩ := h
    cases heq
    have hvalues := accept_values (toOption_eq_some hmap)
    cases embedding with
    | none =>
      refine ⟨fun _ => hnone, fun _ v hv => hvalues v ?_⟩
      simpa [Primitive.values] using hv
    | some e =>
      constructor
      · intro hall e' he'
        cases he'
        exact embedding_storable.1 (hall _ (by simp [Primitive.values]))
      · intro hfinite v hv
        rcases List.mem_append.1 hv with hv | hv
        · exact hvalues v hv
        · have : v = PropertyValue.list (e.map .float) := by simpa using hv
          subst this
          exact embedding_storable.2 (hfinite e rfl)
  | upsertEdge edge properties =>
    simp only [RawPrimitive.accept, Option.bind_eq_bind, Option.bind_eq_some_iff] at h
    obtain ⟨edge, -, map, hmap, heq⟩ := h
    cases heq
    exact ⟨fun _ => hnone, fun _ => accept_values (toOption_eq_some hmap)⟩
  | mergeProperty label id properties =>
    simp only [RawPrimitive.accept, Option.bind_eq_bind, Option.bind_eq_some_iff] at h
    obtain ⟨node, -, -, -, map, hmap, heq⟩ := h
    cases heq
    exact ⟨fun _ => hnone, fun _ => accept_values (toOption_eq_some hmap)⟩
  | removeProperty label id keys =>
    simp only [RawPrimitive.accept, Option.bind_eq_bind, Option.bind_eq_some_iff] at h
    obtain ⟨node, -, -, -, heq⟩ := h
    cases heq
    exact ⟨fun _ => hnone, fun _ v hv => by cases hv⟩
  | deleteNode label id =>
    simp only [RawPrimitive.accept, Option.bind_eq_bind, Option.bind_eq_some_iff] at h
    obtain ⟨node, -, heq⟩ := h
    cases heq
    exact ⟨fun _ => hnone, fun _ v hv => by cases hv⟩
  | deleteEdge edge =>
    simp only [RawPrimitive.accept, Option.bind_eq_bind, Option.bind_eq_some_iff] at h
    obtain ⟨edge, -, heq⟩ := h
    cases heq
    exact ⟨fun _ => hnone, fun _ v hv => by cases hv⟩
  | stampEdgeIdentity edge =>
    simp only [RawPrimitive.accept, Option.bind_eq_bind, Option.bind_eq_some_iff] at h
    obtain ⟨edge, -, heq⟩ := h
    cases heq
    exact ⟨fun _ => hnone, fun _ v hv => by cases hv⟩

theorem forall_mem_mapM {α β : Type} {f : α → Option β} {P : β → Prop} {Q : α → Prop} {xs : List α} {ys : List β}
    (h : xs.mapM f = some ys) (hPQ : ∀ x y, f x = some y → (P y ↔ Q x)) : (∀ y ∈ ys, P y) ↔ ∀ x ∈ xs, Q x := by
  induction xs generalizing ys with
  | nil =>
    cases h
    simp
  | cons x xs ih =>
    simp only [List.mapM_cons, Option.bind_eq_bind, Option.bind_eq_some_iff] at h
    obtain ⟨y, hy, zs, hzs, heq⟩ := h
    cases heq
    simp [hPQ x y hy, ih hzs]

/-- **Nothing unstorable is logged, embeddings apart.** Every value an accepted group would log can be encoded by
the digest and held by FalkorDB if and only if every embedding component of the group is finite. -/
theorem logged_values_storable_iff {graph : String} {group : List RawPrimitive} {primitives : List Primitive}
    (h : acceptGroup graph group = some primitives) :
    (∀ p ∈ primitives, ∀ v ∈ p.values, v.Storable) ↔ ∀ raw ∈ group, finiteEmbedding raw.embedding := by
  unfold acceptGroup at h
  simp only [Option.bind_eq_bind, Option.bind_eq_some_iff] at h
  obtain ⟨-, -, hmap⟩ := h
  exact forall_mem_mapM hmap fun raw p => values_storable_iff

/-- A `Role` with a finite embedding and a list property. -/
theorem logged_values_storable_iff_finite :
    let group : List RawPrimitive := [.upsertNode "Role" "r" [("names", .tuple [.str "a"])] (some [⟨0x3FF0000000000000⟩])]
    ∃ primitives, acceptGroup "company" group = some primitives ∧ ∀ p ∈ primitives, ∀ v ∈ p.values, v.Storable := by
  intro group
  have hsome : (acceptGroup "company" group).isSome = true := by decide +kernel
  obtain ⟨primitives, hp⟩ := Option.isSome_iff_exists.1 hsome
  refine ⟨primitives, hp, (logged_values_storable_iff hp).2 fun raw hraw e he d hd => ?_⟩
  rw [List.mem_singleton.1 hraw] at he
  cases he
  rw [List.mem_singleton.1 hd]
  decide

/-- **A NaN embedding is accepted and effective.** It passes the models, the no-op filter keeps it over the
empty graph, and the digest cannot encode it. -/
theorem nan_embedding_logged :
    ∃ (group : List RawPrimitive) (primitives : List Primitive), acceptGroup "company" group = some primitives ∧
      (∀ scan, selectEffectivePrimitives scan ∅ primitives = .ok primitives) ∧
      ∃ p ∈ primitives, ∃ v ∈ p.values, ¬v.Storable := by
  let nan : Embedding := [⟨0x7FF8000000000000⟩]
  refine ⟨[.upsertNode "Role" "r" [] (some nan)], [.upsertNode ⟨"Role", "r"⟩ ∅ (some nan)], by decide +kernel,
    fun scan => ?_, _, List.mem_singleton_self _, .list (nan.map .float), by decide +kernel, ?_⟩
  · have horder : scan.order (∅ : Graph).edges = [] := Multiset.coe_eq_zero _ |>.1 (scan.perm _)
    simp only [selectEffectivePrimitives, readOverlay, readEdges, horder]
    decide +kernel
  · rw [embedding_storable]
    decide +kernel

end PolicySystem
