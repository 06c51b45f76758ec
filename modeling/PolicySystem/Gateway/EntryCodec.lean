import PolicySystem.Gateway.Validation
import PolicySystem.Text.Binary64

/-!
# The log entry codec

Primitives as log entries (`graph_gateway/entry_codec.py`), the exact bytes of payloads
(`graph_gateway/payloads.py`), and the row an entry is stored as and read back from (`graph_gateway/store.py`).
A Python dict is a `Json.obj` in key order: dicts compare without their order.

* `prepareEntry_encodePrimitive`: an accepted primitive's draft is always representable;
* `entry_codec_round_trip`: its stored form decodes to it, and content with a float is never stored inline.
-/

namespace PolicySystem

open Std (ExtTreeMap)
open Text (FloatText Json)

/-! ## Floats and bytes -/

theorem Double.isFinite_iff (d : Double) : d.isFinite = true ↔ Text.Binary64.isFinite d.bits.toNat = true := by
  unfold Double.isFinite Text.Binary64.isFinite Text.Binary64.biasedExponent
  norm_num

instance : FloatText Double where
  isFinite := Double.isFinite
  toNumeral d := Text.Binary64.toNumeral d.bits.toNat
  ofNumeral n := ⟨UInt64.ofNat (Text.Binary64.ofNumeral n)⟩
  wellFormed d _ := Text.Binary64.toNumeral_wellFormed _
  isFloat d _ := Text.Binary64.toNumeral_isFloat _
  ofNumeral_toNumeral d hd := by
    rw [Text.Binary64.ofNumeral_toNumeral d.bits.toNat_lt ((Double.isFinite_iff d).1 hd), UInt64.ofNat_toNat]

abbrev Bytes := List UInt8

/-- Eight bytes of a binary64, least significant first. -/
def packDouble (d : Double) : Bytes := (List.range 8).map fun i => UInt8.ofNat (d.bits.toNat / 256 ^ i)

/-- The number of bytes least significant first. -/
def littleEndian : Bytes → ℕ
  | [] => 0
  | b :: bytes => b.toNat + 256 * littleEndian bytes

/-- Eight-byte values, one after another. -/
def unpackDoubles : Bytes → List Double
  | b0 :: b1 :: b2 :: b3 :: b4 :: b5 :: b6 :: b7 :: rest =>
    ⟨UInt64.ofNat (littleEndian [b0, b1, b2, b3, b4, b5, b6, b7])⟩ :: unpackDoubles rest
  | _ => []

/-! ## Payloads -/

inductive PayloadKind where
  | embedding
  | json
  deriving DecidableEq

/-- `ValueError` of the payload encodings. -/
inductive PayloadError where
  /-- "an embedding must hold at least one value" -/
  | emptyEmbedding
  /-- "an embedding body must be a whole, non-zero number of 8-byte values" -/
  | embeddingBody
  /-- "content is not representable as canonical JSON" -/
  | notCanonical
  /-- not UTF-8, or not JSON -/
  | notJson
  deriving DecidableEq

/-- `StoredPayload`. -/
structure StoredPayload where
  hash : String
  kind : PayloadKind
  body : Bytes
  deriving DecidableEq

/-- `encode_embedding`. -/
def encodeEmbedding (values : Embedding) : Except PayloadError Bytes :=
  if values = [] then .error .emptyEmbedding else .ok (values.flatMap packDouble)

/-- `decode_embedding`. -/
def decodeEmbedding (body : Bytes) : Except PayloadError Embedding :=
  if body = [] ∨ body.length % 8 ≠ 0 then .error .embeddingBody else .ok (unpackDoubles body)

mutual

/-- No float JSON cannot carry: `allow_nan=False`. -/
def allFinite : Json Double → Bool
  | .float d => d.isFinite
  | .arr items => allFiniteItems items
  | .obj items => allFinitePairs items
  | _ => true

def allFiniteItems : List (Json Double) → Bool
  | [] => true
  | item :: items => allFinite item && allFiniteItems items

def allFinitePairs : List (String × Json Double) → Bool
  | [] => true
  | (_, value) :: items => allFinite value && allFinitePairs items

end

mutual

/-- `_holds_a_float`. -/
def holdsAFloat : Json Double → Bool
  | .float _ => true
  | .arr items => anyHoldsAFloat items
  | .obj items => anyValueHoldsAFloat items
  | _ => false

def anyHoldsAFloat : List (Json Double) → Bool
  | [] => false
  | item :: items => holdsAFloat item || anyHoldsAFloat items

def anyValueHoldsAFloat : List (String × Json Double) → Bool
  | [] => false
  | (_, value) :: items => holdsAFloat value || anyValueHoldsAFloat items

end

/-- A float, at any depth. -/
inductive FloatWithin : Json Double → Prop
  | float (d : Double) : FloatWithin (.float d)
  | arr {items : List (Json Double)} {item : Json Double} : item ∈ items → FloatWithin item → FloatWithin (.arr items)
  | obj {items : List (String × Json Double)} {key : String} {value : Json Double} :
    (key, value) ∈ items → FloatWithin value → FloatWithin (.obj items)

/-- `canonical_json_bytes`. -/
def canonicalJsonBytes (content : Json Double) : Except PayloadError Bytes :=
  if allFinite content then .ok (String.ofList (content.dumps false)).toUTF8.data.toList else .error .notCanonical

/-- `decode_json_content`. -/
def decodeJsonContent (body : Bytes) : Except PayloadError (Json Double) :=
  match String.fromUTF8? (ByteArray.mk body.toArray) with
  | none => .error .notJson
  | some text =>
    match Json.loads text.toList with
    | none => .error .notJson
    | some content => .ok content

/-- `INLINE_CONTENT_LIMIT_BYTES`. -/
def inlineContentLimitBytes : ℕ := 2048

section

variable (sha256 : Bytes → String)

/-- `embedding_payload`. -/
def embeddingPayload (values : Embedding) : Except PayloadError StoredPayload := do
  let body ← encodeEmbedding values
  return ⟨sha256 body, .embedding, body⟩

/-- `json_payload_if_large`. -/
def jsonPayloadIfLarge (content : Json Double) : Except PayloadError (Option StoredPayload) := do
  let body ← canonicalJsonBytes content
  if body.length ≤ inlineContentLimitBytes ∧ holdsAFloat content = false then return none
  return some ⟨sha256 body, .json, body⟩

end

/-! ## Entries -/

/-- `GraphLogEntryDraft`. -/
structure GraphLogEntryDraft where
  name : String
  identity : String
  content : Json Double
  embedding : Option Embedding := none

/-- `GraphLogEntry`. -/
structure GraphLogEntry where
  graph : String
  position : ℕ
  groupId : String
  name : String
  identity : String
  content : Json Double
  embedding : Option Embedding

def Scalar.toJson : Scalar → Json Double
  | str s => .str s
  | bool b => .bool b
  | int i => .int i
  | float d => .float d

def PropertyValue.toJson : PropertyValue → Json Double
  | scalar s => s.toJson
  | list items => .arr (items.map Scalar.toJson)

/-- `dict(primitive.properties)`. -/
def propertiesJson (properties : PropertyMap) : Json Double :=
  .obj (properties.toList.map fun item => (item.1, item.2.toJson))

/-- A dict display. -/
def dict (items : List (String × Json Double)) : Json Double := .obj (Json.dictOf items)

/-- `NodeRef.model_dump`. -/
def NodeRef.modelDump (node : NodeRef) : Json Double := dict [("label", .str node.label), ("id", .str node.id)]

/-- The op tag of a primitive's model. -/
def Primitive.op : Primitive → String
  | upsertNode .. => "upsert_node"
  | upsertEdge .. => "upsert_edge"
  | mergeProperty .. => "merge_property"
  | removeProperty .. => "remove_property"
  | deleteNode .. => "delete_node"
  | deleteEdge .. => "delete_edge"
  | stampEdgeIdentity .. => "stamp_edge_identity"

/-- The content of `DeleteEdge` and `StampEdgeIdentity`. -/
def edgeDraft (op : String) (edge : EdgeBase) : GraphLogEntryDraft where
  name := edge.type
  identity := edge.identity
  content := dict [("op", .str op), ("source", edge.source.modelDump), ("target", edge.target.modelDump)]

/-- `encode_primitive`. -/
def encodePrimitive (primitive : Primitive) : GraphLogEntryDraft :=
  match primitive with
  | .upsertNode node properties embedding =>
    { name := node.label, identity := node.id,
      content := dict [("op", .str primitive.op), ("properties", propertiesJson properties)], embedding }
  | .upsertEdge edge properties =>
    { name := edge.type, identity := edge.identity,
      content := dict [("op", .str primitive.op), ("source", edge.source.modelDump),
        ("target", edge.target.modelDump), ("properties", propertiesJson properties)] }
  | .mergeProperty node properties =>
    { name := node.label, identity := node.id,
      content := dict [("op", .str primitive.op), ("properties", propertiesJson properties)] }
  | .removeProperty node keys =>
    { name := node.label, identity := node.id,
      content := dict [("op", .str primitive.op), ("keys", .arr (keys.map .str))] }
  | .deleteNode node => { name := node.label, identity := node.id, content := dict [("op", .str primitive.op)] }
  | .deleteEdge edge | .stampEdgeIdentity edge => edgeDraft primitive.op edge

/-! ## Decoding -/

/-- `content.get(key)`. -/
def getItem? (key : String) : Json Double → Option (Json Double)
  | .obj items => (items.find? fun item => item.1 = key).map Prod.snd
  | _ => none

mutual

/-- The Python value of a JSON value. -/
def toPyValue : Json Double → PyValue
  | .null => .none
  | .bool b => .bool b
  | .int i => .int i
  | .float d => .float d
  | .str s => .str s
  | .arr items => .list (toPyValues items)
  | .obj items => .dict (toPyItems items)

def toPyValues : List (Json Double) → List PyValue
  | [] => []
  | item :: items => toPyValue item :: toPyValues items

def toPyItems : List (String × Json Double) → List (String × PyValue)
  | [] => []
  | (key, value) :: items => (key, toPyValue value) :: toPyItems items

end

/-- A value for a field `dict[str, object]`. -/
def asDict : Json Double → Option (List (String × PyValue))
  | .obj items => some (toPyItems items)
  | _ => none

/-- A value for a field `tuple[str, ...]`. -/
def asStrings : Json Double → Option (List String)
  | .arr items => items.mapM fun
    | .str s => some s
    | _ => none
  | _ => none

/-- A value for a field `NodeRef`: its two fields and no other. -/
def asNodeRef : Json Double → Option (String × String)
  | .obj items =>
    match items.length, getItem? "label" (.obj items), getItem? "id" (.obj items) with
    | 2, some (.str label), some (.str id) => some (label, id)
    | _, _, _ => none
  | _ => none

/-- `_failure_message`. -/
def failureMessage (entry : GraphLogEntry) : String :=
  "log entry " ++ toString entry.position ++ " of graph " ++ entry.graph ++ " does not decode"

/-- `_edge_fields`, without the properties. -/
def edgeFields (entry : GraphLogEntry) : Option RawEdge := do
  let source ← asNodeRef (← getItem? "source" entry.content)
  let target ← asNodeRef (← getItem? "target" entry.content)
  return ⟨entry.name, entry.identity, source, target⟩

/-- `_node_primitive`: a field the model does not have is refused. -/
def nodePrimitive (op : String) (entry : GraphLogEntry) : Option RawPrimitive :=
  match op, getItem? "properties" entry.content, getItem? "keys" entry.content with
  | "merge_property", some properties, none =>
    (asDict properties).map fun properties => .mergeProperty entry.name entry.identity properties
  | "remove_property", none, some keys => (asStrings keys).map fun keys => .removeProperty entry.name entry.identity keys
  | "delete_node", none, none => some (.deleteNode entry.name entry.identity)
  | _, _, _ => none

/-- The fields `decode_entry` hands to a model. -/
def entryFields (entry : GraphLogEntry) : Option RawPrimitive :=
  match getItem? "op" entry.content with
  | some (.str "upsert_node") => do
    return .upsertNode entry.name entry.identity (← asDict (← getItem? "properties" entry.content)) entry.embedding
  | some (.str "upsert_edge") => do
    return .upsertEdge (← edgeFields entry) (← asDict (← getItem? "properties" entry.content))
  | some (.str "delete_edge") => (edgeFields entry).map .deleteEdge
  | some (.str "stamp_edge_identity") => (edgeFields entry).map .stampEdgeIdentity
  | some (.str op) => nodePrimitive op entry
  | _ => none

/-- `decode_entry`. -/
def decodeEntry (entry : GraphLogEntry) : Except String Primitive :=
  match (entryFields entry).bind RawPrimitive.accept with
  | some primitive => .ok primitive
  | none => .error (failureMessage entry)

/-! ## The store -/

/-- What Postgres gives back from its columns, `none` where it refuses the value: a `jsonb` keeps content
without floats, a `text` keeps its text. -/
structure Columns where
  text : String → Option String
  jsonb : Json Double → Option (Json Double)
  text_exact : ∀ s s', text s = some s' → s' = s
  jsonb_exact : ∀ content content', jsonb content = some content' → ¬FloatWithin content → content' = content

/-- `graph_log.payloads`, with its check `payloads_hash_matches_body`. -/
structure Payloads (sha256 : Bytes → String) where
  rows : ExtTreeMap String Bytes
  addressed : ∀ hash body, rows[hash]? = some body → hash = sha256 body

/-- A row of `graph_log.entries`. -/
structure EntryRow where
  graph : String
  position : ℕ
  groupId : String
  name : String
  identity : String
  content : Option (Json Double)
  contentPayloadHash : Option String
  embeddingPayloadHash : Option String

/-- `_PreparedEntry`. -/
structure PreparedEntry where
  draft : GraphLogEntryDraft
  contentPayload : Option StoredPayload
  embeddingPayload : Option StoredPayload

section

variable {sha256 : Bytes → String}

/-- `_prepare_entry`. -/
def prepareEntry (sha256 : Bytes → String) (entry : GraphLogEntryDraft) : Except PayloadError PreparedEntry := do
  let contentPayload ← jsonPayloadIfLarge sha256 entry.content
  let embeddingPayload ← entry.embedding.mapM (embeddingPayload sha256)
  return ⟨entry, contentPayload, embeddingPayload⟩

/-- `_insert_payload`: `ON CONFLICT (payload_hash) DO NOTHING`. -/
def Payloads.insert (payloads : Payloads sha256) (body : Bytes) : Payloads sha256 where
  rows := payloads.rows.insertIfNew (sha256 body) body
  addressed hash found h := by
    rw [ExtTreeMap.getElem?_insertIfNew] at h
    split at h
    · rename_i heq
      cases h
      exact (Std.LawfulEqCmp.eq_of_compare heq.1).symm
    · exact payloads.addressed hash found h

def Payloads.insertIfSome (payloads : Payloads sha256) : Option StoredPayload → Payloads sha256
  | none => payloads
  | some payload => payloads.insert payload.body

/-- The column `content`: the content where it is no payload. -/
def inlineContent (columns : Columns) (entry : PreparedEntry) : Option (Option (Json Double)) :=
  match entry.contentPayload with
  | none => (columns.jsonb entry.draft.content).map some
  | some _ => some none

/-- `_insert_entry`: the payloads, then the row, as the columns hold it. -/
def insertEntry (columns : Columns) (payloads : Payloads sha256) (graph : String) (position : ℕ) (groupId : String)
    (entry : PreparedEntry) : Option (EntryRow × Payloads sha256) := do
  let payloads := (payloads.insertIfSome entry.contentPayload).insertIfSome entry.embeddingPayload
  let name ← columns.text entry.draft.name
  let identity ← columns.text entry.draft.identity
  let content ← inlineContent columns entry
  return (⟨graph, position, groupId, name, identity, content, entry.contentPayload.map StoredPayload.hash,
    entry.embeddingPayload.map StoredPayload.hash⟩, payloads)

/-- The content of a joined record: its payload's body, or the column. -/
def recordContent (payloads : Payloads sha256) (row : EntryRow) : Option (Json Double) :=
  match row.contentPayloadHash.bind fun hash => payloads.rows[hash]? with
  | none => row.content
  | some body => (decodeJsonContent body).toOption

def recordEmbedding (payloads : Payloads sha256) (row : EntryRow) : Option (Option Embedding) :=
  match row.embeddingPayloadHash.bind fun hash => payloads.rows[hash]? with
  | none => some none
  | some body => (decodeEmbedding body).toOption.map some

/-- `_ENTRY_SELECT` and `_entry_from_record`. -/
def entryFromRecord (payloads : Payloads sha256) (row : EntryRow) : Option GraphLogEntry := do
  let content ← recordContent payloads row
  let embedding ← recordEmbedding payloads row
  return ⟨row.graph, row.position, row.groupId, row.name, row.identity, content, embedding⟩

end

/-! ## Bytes are read back -/

theorem littleEndian_packDouble (d : Double) : littleEndian (packDouble d) = d.bits.toNat := by
  have hlt : d.bits.toNat < 2 ^ 64 := d.bits.toNat_lt
  have hbytes : packDouble d = [UInt8.ofNat (d.bits.toNat / 1), UInt8.ofNat (d.bits.toNat / 256),
      UInt8.ofNat (d.bits.toNat / 65536), UInt8.ofNat (d.bits.toNat / 16777216),
      UInt8.ofNat (d.bits.toNat / 4294967296), UInt8.ofNat (d.bits.toNat / 1099511627776),
      UInt8.ofNat (d.bits.toNat / 281474976710656), UInt8.ofNat (d.bits.toNat / 72057594037927936)] := by
    simp [packDouble, List.range_succ]
  rw [hbytes]
  simp only [littleEndian, UInt8.toNat_ofNat']
  omega

theorem unpackDoubles_append (d : Double) (rest : Bytes) :
    unpackDoubles (packDouble d ++ rest) = d :: unpackDoubles rest := by
  have hvalue := littleEndian_packDouble d
  simp only [packDouble, List.range_succ, List.range_zero, List.nil_append, List.cons_append, List.map_append,
    List.map_cons, List.map_nil, unpackDoubles] at hvalue ⊢
  rw [hvalue, UInt64.ofNat_toNat]

theorem unpackDoubles_flatMap (values : Embedding) : unpackDoubles (values.flatMap packDouble) = values := by
  induction values with
  | nil => rfl
  | cons d values ih => rw [List.flatMap_cons, unpackDoubles_append, ih]

theorem length_flatMap_packDouble (values : Embedding) : (values.flatMap packDouble).length = 8 * values.length := by
  induction values with
  | nil => rfl
  | cons d values ih =>
    rw [List.flatMap_cons, List.length_append, ih, List.length_cons]
    simp [packDouble]
    omega

/-- **Embeddings round-trip**, NaN payloads and signed zeros included. -/
theorem decodeEmbedding_encodeEmbedding {values : Embedding} {body : Bytes} (h : encodeEmbedding values = .ok body) :
    decodeEmbedding body = .ok values := by
  unfold encodeEmbedding at h
  split at h
  · cases h
  · rename_i hne
    cases h
    have hlen := length_flatMap_packDouble values
    have hpos : 0 < values.length := List.length_pos_iff.2 hne
    unfold decodeEmbedding
    rw [if_neg, unpackDoubles_flatMap]
    rintro (h | h)
    · rw [h, List.length_nil] at hlen
      omega
    · omega

theorem fromUTF8?_toUTF8 (s : String) : String.fromUTF8? (ByteArray.mk s.toUTF8.data.toList.toArray) = some s := by
  have hbytes : ByteArray.mk s.toUTF8.data.toList.toArray = s.toUTF8 := by
    rw [Array.toArray_toList]
  have hvalid : s.toUTF8.IsValidUTF8 := s.isValidUTF8
  rw [hbytes, String.fromUTF8?, dif_pos hvalid]
  rfl

mutual

theorem allFinite_of_sound : ∀ {content : Json Double}, content.Sound → allFinite content = true
  | .null, _ => rfl
  | .bool _, _ => rfl
  | .int _, _ => rfl
  | .float _, h => h
  | .str _, _ => rfl
  | .arr _, h => allFiniteItems_of_sound h
  | .obj _, h => allFinitePairs_of_sound h.2

theorem allFiniteItems_of_sound : ∀ {items : List (Json Double)}, Json.SoundItems items → allFiniteItems items = true
  | [], _ => rfl
  | _ :: _, h => by
    unfold allFiniteItems
    rw [allFinite_of_sound h.1, allFiniteItems_of_sound h.2]
    rfl

theorem allFinitePairs_of_sound :
    ∀ {items : List (String × Json Double)}, Json.SoundPairs items → allFinitePairs items = true
  | [], _ => rfl
  | (_, _) :: _, h => by
    unfold allFinitePairs
    rw [allFinite_of_sound h.1, allFinitePairs_of_sound h.2]
    rfl

end

/-- **Canonical bytes round-trip.** -/
theorem decodeJsonContent_canonicalJsonBytes {content : Json Double} (h : content.Sound) {body : Bytes}
    (hbody : canonicalJsonBytes content = .ok body) : decodeJsonContent body = .ok content := by
  unfold canonicalJsonBytes at hbody
  rw [if_pos (allFinite_of_sound h)] at hbody
  cases hbody
  simp only [decodeJsonContent, fromUTF8?_toUTF8, String.toList_ofList, Json.loads_dumps h]

theorem holdsAFloat_of_within {content : Json Double} (h : FloatWithin content) : holdsAFloat content = true := by
  induction h with
  | float d => rfl
  | @arr items item hmem _ ih =>
    unfold holdsAFloat
    induction items with
    | nil => cases hmem
    | cons x xs ihx =>
      unfold anyHoldsAFloat
      rcases List.mem_cons.1 hmem with rfl | hmem
      · rw [ih, Bool.true_or]
      · rw [ihx hmem, Bool.or_true]
  | @obj items key value hmem _ ih =>
    unfold holdsAFloat
    induction items with
    | nil => cases hmem
    | cons x xs ihx =>
      unfold anyValueHoldsAFloat
      rcases List.mem_cons.1 hmem with rfl | hmem
      · rw [ih, Bool.true_or]
      · rw [ihx hmem, Bool.or_true]

/-! ## Accepted primitives are accepted again -/

def Scalar.toPy : Scalar → PyValue
  | str s => .str s
  | bool b => .bool b
  | int i => .int i
  | float d => .float d

/-- The Python value a stored value is read back as. -/
def PropertyValue.toPy : PropertyValue → PyValue
  | scalar s => s.toPy
  | list items => .list (items.map Scalar.toPy)

def propertiesPy (properties : PropertyMap) : List (String × PyValue) :=
  properties.toList.map fun item => (item.1, item.2.toPy)

def EdgeBase.toRaw (edge : EdgeBase) : RawEdge :=
  ⟨edge.type, edge.identity, (edge.source.label, edge.source.id), (edge.target.label, edge.target.id)⟩

/-- The fields a primitive was validated from. -/
def Primitive.toRaw : Primitive → RawPrimitive
  | upsertNode node properties embedding => .upsertNode node.label node.id (propertiesPy properties) embedding
  | upsertEdge edge properties => .upsertEdge edge.toRaw (propertiesPy properties)
  | mergeProperty node properties => .mergeProperty node.label node.id (propertiesPy properties)
  | removeProperty node keys => .removeProperty node.label node.id keys
  | deleteNode node => .deleteNode node.label node.id
  | deleteEdge edge => .deleteEdge edge.toRaw
  | stampEdgeIdentity edge => .stampEdgeIdentity edge.toRaw

theorem Scalar.toScalar_toPy (s : Scalar) : s.toPy.toScalar = some s := by
  cases s <;> rfl

theorem toPy_of_toScalar {v : PyValue} {s : Scalar} (h : v.toScalar = some s) : s.toPy = v := by
  cases v <;> cases h <;> rfl

theorem map_toPy_of_mapM {items : List PyValue} {scalars : List Scalar} (h : items.mapM PyValue.toScalar = some scalars) :
    scalars.map Scalar.toPy = items := by
  induction items generalizing scalars with
  | nil =>
    cases h
    rfl
  | cons item items ih =>
    simp only [List.mapM_cons, Option.bind_eq_bind, Option.bind_eq_some_iff] at h
    obtain ⟨s, hs, rest, hrest, heq⟩ := h
    cases heq
    rw [List.map_cons, toPy_of_toScalar hs, ih hrest]

theorem toPropertyValue_toPy (v : PropertyValue) : v.toPy.toPropertyValue = some v := by
  cases v with
  | scalar s => cases s <;> rfl
  | list items =>
    have hitems : ∀ items : List Scalar, (items.map Scalar.toPy).mapM PyValue.toScalar = some items := by
      intro items
      induction items with
      | nil => rfl
      | cons s items ih => simp [Scalar.toScalar_toPy, ih]
    simp [PropertyValue.toPy, PyValue.toPropertyValue, hitems]

/-- The stored value is as valid as the one it was made from. -/
theorem isValid_toPy {value : PyValue} {v : PropertyValue} (h : isValidPropertyValue value = true)
    (hv : value.toPropertyValue = some v) : isValidPropertyValue v.toPy = true := by
  have hscalar : value.toScalar.map PropertyValue.scalar = some v → isValidPropertyValue v.toPy = true := by
    intro hv
    obtain ⟨s, hs, rfl⟩ := Option.map_eq_some_iff.1 hv
    rw [PropertyValue.toPy, toPy_of_toScalar hs]
    exact h
  have hlist : ∀ items : List PyValue, isValidPropertyValue (.list items) = true →
      (items.mapM PyValue.toScalar).map PropertyValue.list = some v → isValidPropertyValue v.toPy = true := by
    intro items hitems hv
    obtain ⟨scalars, hs, rfl⟩ := Option.map_eq_some_iff.1 hv
    rw [PropertyValue.toPy, map_toPy_of_mapM hs]
    exact hitems
  cases value with
  | list items => exact hlist items h hv
  | tuple items => exact hlist items h hv
  | _ => exact hscalar hv

theorem validateProperty_of {reserved : List String} {key : String} {value value' : PyValue}
    (h : validateProperty reserved key value = .ok ()) (hvalid : isValidPropertyValue value' = true) :
    validateProperty reserved key value' = .ok () := by
  unfold validateProperty at h ⊢
  split at h
  · cases h
  · rename_i hkey
    rw [if_neg hkey, if_pos hvalid]

theorem validatePropertyMap_of_forall {properties : List (String × PyValue)} {reserved : List String}
    (h : ∀ item ∈ properties, validateProperty reserved item.1 item.2 = .ok ()) :
    validatePropertyMap properties reserved = .ok (ExtTreeMap.ofList
      (properties.filterMap fun item => item.2.toPropertyValue.map fun v => (item.1, v))) := by
  have hloop : ∀ items : List (String × PyValue), (∀ item ∈ items, validateProperty reserved item.1 item.2 = .ok ()) →
      (forIn items PUnit.unit fun item (_ : PUnit) => do
        validateProperty reserved item.1 item.2
        pure (ForInStep.yield PUnit.unit) : Except PropertyMapError PUnit) = .ok PUnit.unit := by
    intro items
    induction items with
    | nil => intro _; rfl
    | cons item items ih =>
      intro hall
      rw [List.forIn_cons, hall item (by simp)]
      exact ih fun x hx => hall x (List.mem_cons_of_mem _ hx)
  have hdone := hloop properties h
  unfold validatePropertyMap
  simp only [hdone]
  rfl

theorem ofList_toList (map : PropertyMap) : ExtTreeMap.ofList map.toList = map := by
  refine ExtTreeMap.ext_getElem? fun key => ?_
  cases hkey : map[key]? with
  | some v =>
    exact ExtTreeMap.getElem?_ofList_of_mem (Std.ReflCmp.compare_self) map.distinct_keys_toList
      (ExtTreeMap.mem_toList_iff_getElem?_eq_some.2 hkey)
  | none =>
    cases hfound : (ExtTreeMap.ofList map.toList : PropertyMap)[key]? with
    | none => rfl
    | some v =>
      have := ExtTreeMap.mem_toList_iff_getElem?_eq_some.1 (mem_of_getElem?_ofList hfound)
      rw [hkey] at this
      cases this

theorem filterMap_propertiesPy (map : PropertyMap) :
    (propertiesPy map).filterMap (fun item => item.2.toPropertyValue.map fun v => (item.1, v)) = map.toList := by
  unfold propertiesPy
  rw [List.filterMap_map]
  have hf : ((fun item : String × PyValue => item.2.toPropertyValue.map fun v => (item.1, v)) ∘
      fun item : String × PropertyValue => (item.1, item.2.toPy)) = some := by
    funext item
    simp [toPropertyValue_toPy]
  rw [hf, List.filterMap_some]

/-- A stored map that is accepted is accepted as itself. -/
theorem propertiesPy_accepted {map accepted : PropertyMap} {reserved : List String}
    (h : validatePropertyMap (propertiesPy map) reserved = .ok accepted) : accepted = map := by
  rw [(validatePropertyMap_ok h).2, filterMap_propertiesPy, ofList_toList]

/-- **An accepted map is accepted again**, as itself. -/
theorem validatePropertyMap_propertiesPy {properties : List (String × PyValue)} {reserved : List String}
    {map : PropertyMap} (h : validatePropertyMap properties reserved = .ok map) :
    validatePropertyMap (propertiesPy map) reserved = .ok map := by
  obtain ⟨hvalid, hmap⟩ := validatePropertyMap_ok h
  have hall : ∀ item ∈ propertiesPy map, validateProperty reserved item.1 item.2 = .ok () := by
    intro item hitem
    obtain ⟨⟨key, v⟩, hmem, rfl⟩ := List.mem_map.1 hitem
    have hget := ExtTreeMap.mem_toList_iff_getElem?_eq_some.1 hmem
    rw [hmap] at hget
    obtain ⟨given, hgiven, hstored⟩ := List.mem_filterMap.1 (mem_of_getElem?_ofList hget)
    obtain ⟨w, hw, heq⟩ := Option.map_eq_some_iff.1 hstored
    cases heq
    have hok := hvalid given hgiven
    exact validateProperty_of hok (isValid_toPy (validateProperty_ok hok) hw)
  rw [validatePropertyMap_of_forall hall, filterMap_propertiesPy, ofList_toList]

theorem propertiesPy_ne_nil {properties : List (String × PyValue)} {reserved : List String} {map : PropertyMap}
    (h : validatePropertyMap properties reserved = .ok map) (hne : properties ≠ []) : propertiesPy map ≠ [] := by
  obtain ⟨hvalid, hmap⟩ := validatePropertyMap_ok h
  obtain ⟨item, rest, rfl⟩ := List.exists_cons_of_ne_nil hne
  obtain ⟨v, hv, -⟩ := toPropertyValue_storable (validateProperty_ok (hvalid item (by simp)))
  intro hnil
  have hlist : map.toList = [] := List.map_eq_nil_iff.1 hnil
  rw [ExtTreeMap.toList_eq_nil_iff, hmap, ExtTreeMap.ofList_eq_empty_iff, List.filterMap_eq_nil_iff] at hlist
  have := hlist item (by simp)
  rw [hv] at this
  cases this

theorem acceptNodeRef_eq {label id : String} {node : NodeRef} (h : acceptNodeRef label id = some node) :
    node = ⟨label, id⟩ := by
  unfold acceptNodeRef at h
  split at h
  · cases h
    rfl
  · cases h

theorem RawEdge.accept_toRaw {edge : RawEdge} {e : EdgeBase} (h : edge.accept = some e) : e.toRaw.accept = some e := by
  have hraw : e.toRaw = edge := by
    simp only [RawEdge.accept, Option.bind_eq_bind, Option.bind_eq_some_iff] at h
    obtain ⟨-, -, source, hs, target, ht, heq⟩ := h
    cases heq
    rw [acceptNodeRef_eq hs, acceptNodeRef_eq ht]
    rfl
  rw [hraw, h]

theorem toOption_ok {ε α : Type} (a : α) : (Except.ok a : Except ε α).toOption = some a := rfl

/-- **What was accepted is accepted again.** -/
theorem accept_toRaw {raw : RawPrimitive} {p : Primitive} (h : raw.accept = some p) : p.toRaw.accept = some p := by
  cases raw with
  | upsertNode label id properties embedding =>
    simp only [RawPrimitive.accept, Option.bind_eq_bind, Option.bind_eq_some_iff] at h
    obtain ⟨node, hnode, ⟨⟩, hguard, map, hmap, heq⟩ := h
    cases heq
    cases acceptNodeRef_eq hnode
    have hagain := validatePropertyMap_propertiesPy (toOption_eq_some hmap)
    simp only [Primitive.toRaw, RawPrimitive.accept, hnode, hguard, hagain, toOption_ok, Option.bind_eq_bind, Option.bind_some]
    rfl
  | upsertEdge edge properties =>
    simp only [RawPrimitive.accept, Option.bind_eq_bind, Option.bind_eq_some_iff] at h
    obtain ⟨e, hedge, map, hmap, heq⟩ := h
    cases heq
    have hagain := validatePropertyMap_propertiesPy (toOption_eq_some hmap)
    simp only [Primitive.toRaw, RawPrimitive.accept, RawEdge.accept_toRaw hedge, hagain, toOption_ok,
      Option.bind_eq_bind, Option.bind_some]
    rfl
  | mergeProperty label id properties =>
    simp only [RawPrimitive.accept, Option.bind_eq_bind, Option.bind_eq_some_iff] at h
    obtain ⟨node, hnode, ⟨⟩, hguard, map, hmap, heq⟩ := h
    cases heq
    cases acceptNodeRef_eq hnode
    have hagain := validatePropertyMap_propertiesPy (toOption_eq_some hmap)
    have hne : properties ≠ [] := by
      intro hnil
      rw [hnil] at hguard
      cases hguard
    simp only [Primitive.toRaw, RawPrimitive.accept, hnode, guard,
      if_pos (propertiesPy_ne_nil (toOption_eq_some hmap) hne), hagain, toOption_ok, Option.bind_eq_bind, Option.bind_some]
    rfl
  | removeProperty label id keys =>
    simp only [RawPrimitive.accept, Option.bind_eq_bind, Option.bind_eq_some_iff] at h
    obtain ⟨node, hnode, ⟨⟩, hguard, heq⟩ := h
    cases heq
    cases acceptNodeRef_eq hnode
    simp only [Primitive.toRaw, RawPrimitive.accept, hnode, hguard, Option.bind_eq_bind, Option.bind_some]
    rfl
  | deleteNode label id =>
    simp only [RawPrimitive.accept, Option.bind_eq_bind, Option.bind_eq_some_iff] at h
    obtain ⟨node, hnode, heq⟩ := h
    cases heq
    cases acceptNodeRef_eq hnode
    simp only [Primitive.toRaw, RawPrimitive.accept, hnode, Option.bind_eq_bind, Option.bind_some]
    rfl
  | deleteEdge edge =>
    simp only [RawPrimitive.accept, Option.bind_eq_bind, Option.bind_eq_some_iff] at h
    obtain ⟨e, hedge, heq⟩ := h
    cases heq
    simp only [Primitive.toRaw, RawPrimitive.accept, RawEdge.accept_toRaw hedge, Option.bind_eq_bind, Option.bind_some]
    rfl
  | stampEdgeIdentity edge =>
    simp only [RawPrimitive.accept, Option.bind_eq_bind, Option.bind_eq_some_iff] at h
    obtain ⟨e, hedge, heq⟩ := h
    cases heq
    simp only [Primitive.toRaw, RawPrimitive.accept, RawEdge.accept_toRaw hedge, Option.bind_eq_bind, Option.bind_some]
    rfl

/-! ## Content is read back -/

@[simp] theorem getItem?_insertItem (items : List (String × Json Double)) (key k : String) (value : Json Double) :
    getItem? k (.obj (Json.insertItem key value items)) = if key = k then some value else getItem? k (.obj items) := by
  simp only [getItem?, Json.find?_insertItem]
  split <;> rfl

@[simp] theorem getItem?_nil (k : String) : getItem? k (.obj []) = none := rfl

theorem asNodeRef_modelDump (node : NodeRef) : asNodeRef node.modelDump = some (node.label, node.id) := by
  have horder : compare "id" "label" = .lt := by decide +kernel
  have hdict : Json.dictOf [("label", .str node.label), ("id", .str node.id)] =
      [("id", (.str node.id : Json Double)), ("label", .str node.label)] := by
    simp [Json.dictOf, Json.insertItem, horder]
  simp [NodeRef.modelDump, dict, hdict, asNodeRef, getItem?]

theorem asStrings_map (keys : List String) : asStrings (.arr (keys.map .str)) = some keys := by
  simp only [asStrings]
  induction keys with
  | nil => rfl
  | cons key keys ih =>
    rw [List.map_cons, List.mapM_cons, ih]
    rfl

theorem toPyValue_toJson (v : PropertyValue) : toPyValue v.toJson = v.toPy := by
  have hscalar : ∀ s : Scalar, toPyValue s.toJson = s.toPy := by
    intro s
    cases s <;> rfl
  cases v with
  | scalar s => exact hscalar s
  | list items =>
    simp only [PropertyValue.toJson, PropertyValue.toPy, toPyValue, PyValue.list.injEq]
    induction items with
    | nil => rfl
    | cons s items ih => rw [List.map_cons, List.map_cons, toPyValues, hscalar, ih]

theorem asDict_propertiesJson (properties : PropertyMap) :
    asDict (propertiesJson properties) = some (propertiesPy properties) := by
  simp only [propertiesJson, asDict, propertiesPy, Option.some.injEq]
  induction properties.toList with
  | nil => rfl
  | cons item items ih =>
    rw [List.map_cons, List.map_cons, toPyItems, toPyValue_toJson, ih]

/-- The draft with the columns of a row. -/
def GraphLogEntryDraft.at (draft : GraphLogEntryDraft) (graph : String) (position : ℕ) (groupId : String) :
    GraphLogEntry :=
  ⟨graph, position, groupId, draft.name, draft.identity, draft.content, draft.embedding⟩

/-- **Encoded fields are read back**, whatever the primitive. -/
theorem entryFields_encodePrimitive (p : Primitive) (graph : String) (position : ℕ) (groupId : String) :
    entryFields ((encodePrimitive p).at graph position groupId) = some p.toRaw := by
  cases p <;>
    simp [entryFields, encodePrimitive, edgeDraft, edgeFields, nodePrimitive, GraphLogEntryDraft.at, dict, Json.dictOf,
      Primitive.op, Primitive.toRaw, EdgeBase.toRaw, asNodeRef_modelDump, asDict_propertiesJson, asStrings_map]

/-- **Codec.** The entry of an accepted primitive decodes to it. -/
theorem decodeEntry_encodePrimitive {raw : RawPrimitive} {p : Primitive} (h : raw.accept = some p) (graph : String)
    (position : ℕ) (groupId : String) : decodeEntry ((encodePrimitive p).at graph position groupId) = .ok p := by
  simp only [decodeEntry, entryFields_encodePrimitive, Option.bind_some, accept_toRaw h]

/-! ## Content is representable -/

theorem sound_toJson {v : PropertyValue} (h : v.graphStorable = true) : v.toJson.Sound := by
  have hscalar : ∀ s : Scalar, s.graphStorable = true → s.toJson.Sound := by
    intro s hs
    cases s with
    | float d => exact hs
    | _ => trivial
  cases v with
  | scalar s => exact hscalar s h
  | list items =>
    refine Json.soundItems_iff.2 fun item hitem => ?_
    obtain ⟨s, hs, rfl⟩ := List.mem_map.1 hitem
    exact hscalar s (List.all_eq_true.1 h s hs)

theorem sound_propertiesJson {properties : PropertyMap} (h : ∀ v ∈ properties.toList.map Prod.snd, v.Storable) :
    (propertiesJson properties).Sound := by
  constructor
  · exact List.pairwise_map.2 properties.ordered_keys_toList
  · refine Json.soundPairs_iff.2 fun item hitem => ?_
    obtain ⟨⟨key, v⟩, hmem, rfl⟩ := List.mem_map.1 hitem
    exact sound_toJson (h v (List.mem_map_of_mem hmem)).2

theorem sound_dict {items : List (String × Json Double)} (h : ∀ item ∈ items, item.2.Sound) : (dict items).Sound :=
  ⟨Json.inOrder_dictOf items, Json.soundPairs_iff.2 fun item hitem => h item (Json.mem_dictOf hitem)⟩

theorem sound_modelDump (node : NodeRef) : node.modelDump.Sound :=
  sound_dict (by simp [Json.Sound])

theorem sound_edgeDraft (op : String) (edge : EdgeBase) : (edgeDraft op edge).content.Sound :=
  sound_dict (by simp [Json.Sound, sound_modelDump])

/-- The properties a primitive writes. -/
def Primitive.written : Primitive → PropertyMap
  | upsertNode _ properties _ | upsertEdge _ properties | mergeProperty _ properties => properties
  | _ => ∅

theorem written_storable {raw : RawPrimitive} {p : Primitive} (h : raw.accept = some p) :
    ∀ v ∈ p.written.toList.map Prod.snd, v.Storable := by
  have hagain := accept_toRaw h
  cases p with
  | upsertNode node properties embedding =>
    simp only [Primitive.toRaw, RawPrimitive.accept, Option.bind_eq_bind, Option.bind_eq_some_iff] at hagain
    obtain ⟨node, -, -, -, map, hmap, heq⟩ := hagain
    cases heq
    exact accept_values (toOption_eq_some hmap)
  | upsertEdge edge properties =>
    simp only [Primitive.toRaw, RawPrimitive.accept, Option.bind_eq_bind, Option.bind_eq_some_iff] at hagain
    obtain ⟨edge, -, map, hmap, heq⟩ := hagain
    cases heq
    exact accept_values (toOption_eq_some hmap)
  | mergeProperty node properties =>
    simp only [Primitive.toRaw, RawPrimitive.accept, Option.bind_eq_bind, Option.bind_eq_some_iff] at hagain
    obtain ⟨node, -, -, -, map, hmap, heq⟩ := hagain
    cases heq
    exact accept_values (toOption_eq_some hmap)
  | _ => simp [Primitive.written]

theorem content_sound {raw : RawPrimitive} {p : Primitive} (h : raw.accept = some p) :
    (encodePrimitive p).content.Sound := by
  have hprops := sound_propertiesJson (written_storable h)
  cases p with
  | upsertNode node properties embedding => exact sound_dict (by simpa [Json.Sound, Primitive.written] using hprops)
  | upsertEdge edge properties =>
    refine sound_dict ?_
    simp only [List.mem_cons, List.not_mem_nil, or_false, forall_eq_or_imp, forall_eq]
    exact ⟨trivial, sound_modelDump _, sound_modelDump _, hprops⟩
  | mergeProperty node properties => exact sound_dict (by simpa [Json.Sound, Primitive.written] using hprops)
  | removeProperty node keys =>
    have hkeys : Json.SoundItems (keys.map fun key => (.str key : Json Double)) :=
      Json.soundItems_iff.2 fun item hitem => by
        obtain ⟨key, -, rfl⟩ := List.mem_map.1 hitem
        trivial
    exact sound_dict (by simpa [Json.Sound] using hkeys)
  | deleteNode node => exact sound_dict (by simp [Json.Sound])
  | deleteEdge edge => exact sound_edgeDraft _ edge
  | stampEdgeIdentity edge => exact sound_edgeDraft _ edge

/-! ## Rows are read back -/

section

variable {sha256 : Bytes → String}

/-- Every row of the one table is in the other: the table is only ever added to. -/
def Payloads.Extends (payloads later : Payloads sha256) : Prop :=
  ∀ (hash : String) (body : Bytes), payloads.rows[hash]? = some body → later.rows[hash]? = some body

/-- The stored bodies. -/
def Payloads.bodies (payloads : Payloads sha256) : Set Bytes := {body | ∃ hash : String, payloads.rows[hash]? = some body}

/-- The bodies of an entry. -/
def PreparedEntry.bodies (entry : PreparedEntry) : Set Bytes :=
  {body | ∃ payload, (entry.contentPayload = some payload ∨ entry.embeddingPayload = some payload) ∧ payload.body = body}

theorem Payloads.extends_insert (payloads : Payloads sha256) (body : Bytes) : payloads.Extends (payloads.insert body) := by
  intro hash found h
  have hmem : hash ∈ payloads.rows := ExtTreeMap.mem_iff_isSome_getElem?.2 (by rw [h]; rfl)
  simp only [Payloads.insert]
  rw [ExtTreeMap.getElem?_insertIfNew, if_neg, h]
  rintro ⟨heq, hnot⟩
  rw [Std.LawfulEqCmp.eq_of_compare heq] at hnot
  exact hnot hmem

theorem Payloads.extends_insertIfSome (payloads : Payloads sha256) (payload : Option StoredPayload) :
    payloads.Extends (payloads.insertIfSome payload) := by
  cases payload with
  | none => exact fun _ _ h => h
  | some payload => exact payloads.extends_insert payload.body

theorem Payloads.bodies_insertIfSome {payloads : Payloads sha256} {payload : Option StoredPayload} {body : Bytes}
    (h : body ∈ (payloads.insertIfSome payload).bodies) : body ∈ payloads.bodies ∨ payload.map StoredPayload.body = some body := by
  cases payload with
  | none => exact .inl h
  | some payload =>
    obtain ⟨hash, hrow⟩ := h
    simp only [Payloads.insertIfSome, Payloads.insert, ExtTreeMap.getElem?_insertIfNew] at hrow
    split at hrow
    · exact .inr hrow
    · exact .inl ⟨hash, hrow⟩

/-- An inserted body is found at its hash, when it collides with no stored one. -/
theorem Payloads.insert_found {payloads : Payloads sha256} {body : Bytes}
    (hfree : ∀ stored ∈ payloads.bodies, sha256 stored = sha256 body → stored = body) :
    (payloads.insert body).rows[sha256 body]? = some body := by
  simp only [Payloads.insert]
  rw [ExtTreeMap.getElem?_insertIfNew]
  split
  · rfl
  · rename_i hnew
    have hmem : sha256 body ∈ payloads.rows := by
      by_contra hnot
      exact hnew ⟨Std.ReflCmp.compare_self, hnot⟩
    obtain ⟨stored, hstored⟩ := Option.isSome_iff_exists.1 (ExtTreeMap.mem_iff_isSome_getElem?.1 hmem)
    rw [hstored, hfree stored ⟨_, hstored⟩ (payloads.addressed _ _ hstored).symm]

theorem jsonPayloadIfLarge_some {content : Json Double} {payload : StoredPayload}
    (h : jsonPayloadIfLarge sha256 content = .ok (some payload)) :
    payload.hash = sha256 payload.body ∧ canonicalJsonBytes content = .ok payload.body := by
  unfold jsonPayloadIfLarge at h
  cases hbody : canonicalJsonBytes content with
  | error e =>
    rw [hbody] at h
    cases h
  | ok body =>
    rw [hbody] at h
    change (if _ then Except.ok none else Except.ok (some _)) = _ at h
    split at h
    · cases h
    · cases h
      exact ⟨rfl, rfl⟩

/-- **Inline content holds no float.** -/
theorem jsonPayloadIfLarge_none {content : Json Double} (h : jsonPayloadIfLarge sha256 content = .ok none) :
    ¬FloatWithin content := by
  intro hwithin
  unfold jsonPayloadIfLarge at h
  cases hbody : canonicalJsonBytes content with
  | error e =>
    rw [hbody] at h
    cases h
  | ok body =>
    rw [hbody] at h
    change (if _ then Except.ok none else Except.ok (some _)) = _ at h
    split at h
    · rename_i hsmall
      rw [holdsAFloat_of_within hwithin] at hsmall
      cases hsmall.2
    · cases h

theorem embeddingPayload_some {values : Embedding} {payload : StoredPayload}
    (h : embeddingPayload sha256 values = .ok payload) :
    payload.hash = sha256 payload.body ∧ encodeEmbedding values = .ok payload.body := by
  unfold embeddingPayload at h
  cases hbody : encodeEmbedding values with
  | error e =>
    rw [hbody] at h
    cases h
  | ok body =>
    rw [hbody] at h
    cases h
    exact ⟨rfl, rfl⟩

/-- What preparing an entry decides. -/
structure Prepared (sha256 : Bytes → String) (entry : GraphLogEntryDraft) (prepared : PreparedEntry) : Prop where
  draft : prepared.draft = entry
  content : jsonPayloadIfLarge sha256 entry.content = .ok prepared.contentPayload
  embedding : entry.embedding.mapM (embeddingPayload sha256) = .ok prepared.embeddingPayload

theorem prepareEntry_ok {entry : GraphLogEntryDraft} {prepared : PreparedEntry}
    (h : prepareEntry sha256 entry = .ok prepared) : Prepared sha256 entry prepared := by
  unfold prepareEntry at h
  cases hcontent : jsonPayloadIfLarge sha256 entry.content with
  | error e =>
    rw [hcontent] at h
    cases h
  | ok contentPayload =>
    cases hembedding : entry.embedding.mapM (embeddingPayload sha256) with
    | error e =>
      rw [hcontent, hembedding] at h
      cases h
    | ok embeddingPayload =>
      rw [hcontent, hembedding] at h
      cases h
      exact ⟨rfl, hcontent, hembedding⟩

theorem content_found {payloads : Payloads sha256} {entry : PreparedEntry} {payload : StoredPayload}
    (hfree : Set.InjOn sha256 (payloads.bodies ∪ entry.bodies)) (h : entry.contentPayload = some payload) :
    ((payloads.insertIfSome entry.contentPayload).insertIfSome entry.embeddingPayload).rows[sha256 payload.body]? =
      some payload.body := by
  have hin : payload.body ∈ entry.bodies := ⟨payload, .inl h, rfl⟩
  have hfound := @Payloads.insert_found sha256 payloads payload.body
    fun stored hstored heq => hfree (.inl hstored) (.inr hin) heq
  rw [h]
  exact Payloads.extends_insertIfSome _ _ _ _ hfound

theorem embedding_found {payloads : Payloads sha256} {entry : PreparedEntry} {payload : StoredPayload}
    (hfree : Set.InjOn sha256 (payloads.bodies ∪ entry.bodies)) (h : entry.embeddingPayload = some payload) :
    ((payloads.insertIfSome entry.contentPayload).insertIfSome entry.embeddingPayload).rows[sha256 payload.body]? =
      some payload.body := by
  have hin : payload.body ∈ entry.bodies := ⟨payload, .inr h, rfl⟩
  rw [h]
  refine Payloads.insert_found fun stored hstored heq => ?_
  rcases Payloads.bodies_insertIfSome hstored with hold | hnew
  · exact hfree (.inl hold) (.inr hin) heq
  · obtain ⟨content, hcontent, hbody⟩ := Option.map_eq_some_iff.1 hnew
    exact hfree (.inr ⟨content, .inl hcontent, hbody⟩) (.inr hin) heq

/-- **A stored row is read back** as the draft it was written from. -/
theorem entryFromRecord_insertEntry {columns : Columns} {payloads stored later : Payloads sha256} {graph groupId : String}
    {position : ℕ} {entry : GraphLogEntryDraft} {prepared : PreparedEntry} {row : EntryRow} (hsound : entry.content.Sound)
    (hprepared : Prepared sha256 entry prepared)
    (hinsert : insertEntry columns payloads graph position groupId prepared = some (row, stored))
    (hfree : Set.InjOn sha256 (payloads.bodies ∪ prepared.bodies)) (hlater : stored.Extends later) :
    entryFromRecord later row = some (entry.at graph position groupId) := by
  simp only [insertEntry, Option.bind_eq_bind, Option.bind_eq_some_iff] at hinsert
  obtain ⟨name, hname, identity, hidentity, content, hcontent, heq⟩ := hinsert
  cases heq
  rw [hprepared.draft] at hname hidentity
  rw [columns.text_exact _ _ hname, columns.text_exact _ _ hidentity]
  -- the content, from the column or from its payload
  have hreadContent : ∀ name identity, recordContent later ⟨graph, position, groupId, name, identity, content,
      prepared.contentPayload.map StoredPayload.hash, prepared.embeddingPayload.map StoredPayload.hash⟩ =
        some entry.content := by
    intro name identity
    have hpayload := hprepared.content
    unfold inlineContent at hcontent
    unfold recordContent
    cases hcase : prepared.contentPayload with
    | none =>
      rw [hcase] at hcontent hpayload
      obtain ⟨kept, hkept, rfl⟩ := Option.map_eq_some_iff.1 hcontent
      rw [hprepared.draft] at hkept
      rw [columns.jsonb_exact _ _ hkept (jsonPayloadIfLarge_none hpayload)]
      rfl
    | some payload =>
      rw [hcase] at hpayload
      obtain ⟨hhash, hbody⟩ := jsonPayloadIfLarge_some hpayload
      have hfound := hlater _ _ (content_found hfree hcase)
      simp only [Option.map_some, Option.bind_some, hhash, hfound,
        decodeJsonContent_canonicalJsonBytes hsound hbody, toOption_ok]
  -- the embedding, from its payload
  have hreadEmbedding : ∀ name identity, recordEmbedding later ⟨graph, position, groupId, name, identity, content,
      prepared.contentPayload.map StoredPayload.hash, prepared.embeddingPayload.map StoredPayload.hash⟩ =
        some entry.embedding := by
    intro name identity
    have hembedding := hprepared.embedding
    unfold recordEmbedding
    cases hvalues : entry.embedding with
    | none =>
      rw [hvalues] at hembedding
      have hnone : prepared.embeddingPayload = none := (Except.ok.inj hembedding).symm
      rw [hnone]
      rfl
    | some values =>
      rw [hvalues] at hembedding
      cases hpayload : embeddingPayload sha256 values with
      | error e =>
        simp only [Option.mapM_some, hpayload] at hembedding
        cases hembedding
      | ok payload =>
        simp only [Option.mapM_some, hpayload] at hembedding
        have hsome : prepared.embeddingPayload = some payload := (Except.ok.inj hembedding).symm
        obtain ⟨hhash, hbody⟩ := embeddingPayload_some hpayload
        have hfound := hlater _ _ (embedding_found hfree hsome)
        simp only [hsome, Option.map_some, Option.bind_some, hhash, hfound, decodeEmbedding_encodeEmbedding hbody,
          toOption_ok]
  simp only [entryFromRecord, hreadContent, hreadEmbedding, Option.bind_eq_bind, Option.bind_some]
  rfl

/-- **An accepted primitive's draft is always representable.** -/
theorem prepareEntry_encodePrimitive {raw : RawPrimitive} {p : Primitive} (h : raw.accept = some p) :
    ∃ prepared, prepareEntry sha256 (encodePrimitive p) = .ok prepared := by
  have hfinite := allFinite_of_sound (content_sound h)
  have hcontent : ∃ payload, jsonPayloadIfLarge sha256 (encodePrimitive p).content = .ok payload := by
    unfold jsonPayloadIfLarge canonicalJsonBytes
    rw [if_pos hfinite]
    dsimp only [bind, Except.bind]
    split
    · exact ⟨_, rfl⟩
    · exact ⟨_, rfl⟩
  have hembedding : ∃ payload, (encodePrimitive p).embedding.mapM (embeddingPayload sha256) = .ok payload := by
    cases hvalues : (encodePrimitive p).embedding with
    | none => exact ⟨none, rfl⟩
    | some values =>
      have hne : values ≠ [] := by
        rintro rfl
        have hagain := accept_toRaw h
        cases p with
        | upsertNode node properties embedding =>
          cases hvalues
          simp only [Primitive.toRaw, RawPrimitive.accept, Option.bind_eq_bind, Option.bind_eq_some_iff] at hagain
          obtain ⟨node, -, ⟨⟩, hguard, -⟩ := hagain
          cases hguard
        | _ => cases hvalues
      refine ⟨some ⟨sha256 (values.flatMap packDouble), .embedding, values.flatMap packDouble⟩, ?_⟩
      simp only [Option.mapM_some, embeddingPayload, encodeEmbedding, if_neg hne]
      rfl
  obtain ⟨contentPayload, hcontent⟩ := hcontent
  obtain ⟨embeddingPayload, hembedding⟩ := hembedding
  refine ⟨⟨encodePrimitive p, contentPayload, embeddingPayload⟩, ?_⟩
  unfold prepareEntry
  rw [hcontent, hembedding]
  rfl

end

/-- **Log entry codec round trip.** The draft of an accepted primitive is representable; the row it is stored as,
inline or as payloads, is read back from this table and every later one as an entry that decodes to the primitive,
hash collisions apart; and no content with a float at any depth goes into the column. -/
theorem entry_codec_round_trip (columns : Columns) {sha256 : Bytes → String} (payloads : Payloads sha256)
    (graph : String) (position : ℕ) (groupId : String) {raw : RawPrimitive} {p : Primitive} (h : raw.accept = some p) :
    (∃ prepared, prepareEntry sha256 (encodePrimitive p) = .ok prepared ∧
      ∀ row stored later, Set.InjOn sha256 (payloads.bodies ∪ prepared.bodies) →
        insertEntry columns payloads graph position groupId prepared = some (row, stored) → stored.Extends later →
        ∃ entry, entryFromRecord later row = some entry ∧ decodeEntry entry = .ok p) ∧
    ∀ draft prepared row stored, prepareEntry sha256 draft = .ok prepared →
      insertEntry columns payloads graph position groupId prepared = some (row, stored) → FloatWithin draft.content →
      row.content = none := by
  constructor
  · obtain ⟨prepared, hprepared⟩ := @prepareEntry_encodePrimitive sha256 _ _ h
    refine ⟨prepared, hprepared, fun row stored later hfree hinsert hlater => ?_⟩
    have hread := entryFromRecord_insertEntry (content_sound h) (prepareEntry_ok hprepared) hinsert hfree hlater
    exact ⟨_, hread, decodeEntry_encodePrimitive h graph position groupId⟩
  · intro draft prepared row stored hprepared hinsert hwithin
    have hpayload := (prepareEntry_ok hprepared).content
    simp only [insertEntry, Option.bind_eq_bind, Option.bind_eq_some_iff] at hinsert
    obtain ⟨name, -, identity, -, content, hcontent, heq⟩ := hinsert
    cases heq
    unfold inlineContent at hcontent
    cases hcase : prepared.contentPayload with
    | none =>
      rw [hcase] at hpayload
      exact absurd hwithin (jsonPayloadIfLarge_none hpayload)
    | some payload =>
      rw [hcase] at hcontent
      exact (Option.some.inj hcontent).symm

/-- A `Role` with an inline name and a NaN embedding. -/
theorem entry_codec_round_trip_nan :
    let nan : Embedding := [⟨0x7FF8000000000000⟩]
    ∃ (columns : Columns) (sha256 : Bytes → String) (payloads : Payloads sha256) (p : Primitive) (row : EntryRow)
      (stored : Payloads sha256) (entry : GraphLogEntry),
      RawPrimitive.accept (.upsertNode "Role" "r" [("name", .str "x")] (some nan)) = some p ∧ row.content.isSome ∧
      (∃ prepared, prepareEntry sha256 (encodePrimitive p) = .ok prepared ∧
        insertEntry columns payloads "company" 1 "g" prepared = some (row, stored)) ∧
      entryFromRecord stored row = some entry ∧ decodeEntry entry = .ok p := by
  intro nan
  let columns : Columns :=
    { text := fun s => if s.toList.contains (Char.ofNat 0) then none else some s
      jsonb := fun content => if (content.dumps false).contains (Char.ofNat 0) then none else some content
      text_exact := fun s s' h => by
        split at h
        · cases h
        · exact (Option.some.inj h).symm
      jsonb_exact := fun content content' h _ => by
        split at h
        · cases h
        · exact (Option.some.inj h).symm }
  let sha256 : Bytes → String := fun body =>
    if body = nan.flatMap packDouble then "sha256:74999fd28ab18ccca2bee199f260d19764603a3c78353d773d16d215eebe8e19"
    else "sha256:"
  let payloads : Payloads sha256 := ⟨∅, fun hash body h => by simp at h⟩
  let p : Primitive := .upsertNode ⟨"Role", "r"⟩ (ExtTreeMap.ofList [("name", PropertyValue.scalar (.str "x"))]) (some nan)
  have haccept : RawPrimitive.accept (.upsertNode "Role" "r" [("name", .str "x")] (some nan)) = some p := by decide +kernel
  obtain ⟨⟨prepared, hprepared, hread⟩, -⟩ := entry_codec_round_trip columns payloads "company" 1 "g" haccept
  have hparts := prepareEntry_ok hprepared
  have hcontent : jsonPayloadIfLarge sha256 (encodePrimitive p).content = .ok none := by decide +kernel
  have hinline : prepared.contentPayload = none := Except.ok.inj (hparts.content.symm.trans hcontent)
  have hembedding : (encodePrimitive p).embedding.mapM (embeddingPayload sha256) =
      .ok (some ⟨sha256 (nan.flatMap packDouble), .embedding, nan.flatMap packDouble⟩) := by decide +kernel
  have hvalues := Except.ok.inj (hparts.embedding.symm.trans hembedding)
  -- one body only, so no two collide
  have hfree : Set.InjOn sha256 (payloads.bodies ∪ prepared.bodies) := by
    have hone : ∀ body ∈ payloads.bodies ∪ prepared.bodies, body = nan.flatMap packDouble := by
      rintro body (⟨hash, hrow⟩ | ⟨payload, hcase, rfl⟩)
      · simp [payloads] at hrow
      · rw [hinline, hvalues] at hcase
        rcases hcase with hcase | hcase
        · cases hcase
        · cases hcase
          rfl
    intro a ha b hb _
    rw [hone a ha, hone b hb]
  have hinsert : ∃ row stored, insertEntry columns payloads "company" 1 "g" prepared = some (row, stored) ∧
      row.content.isSome := by
    have hname : columns.text (encodePrimitive p).name = some "Role" := by decide +kernel
    have hidentity : columns.text (encodePrimitive p).identity = some "r" := by decide +kernel
    have hplain : ((encodePrimitive p).content.dumps false).contains (Char.ofNat 0) = false := by decide +kernel
    have hjsonb : columns.jsonb (encodePrimitive p).content = some (encodePrimitive p).content := by
      simp only [columns, hplain]
      rfl
    simp only [insertEntry, inlineContent, hparts.draft, hinline, hname, hidentity, hjsonb, Option.bind_eq_bind,
      Option.bind_some, Option.map_some]
    exact ⟨_, _, rfl, rfl⟩
  obtain ⟨row, stored, hinsert, hsome⟩ := hinsert
  obtain ⟨entry, hentry, hdecode⟩ := hread row stored stored hfree hinsert fun _ _ h => h
  exact ⟨columns, sha256, payloads, p, row, stored, entry, haccept, hsome, ⟨prepared, hprepared, hinsert⟩, hentry, hdecode⟩

end PolicySystem
