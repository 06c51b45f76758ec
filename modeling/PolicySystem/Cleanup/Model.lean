import Mathlib
import PolicySystem.Gateway.EntryCodec

/-!
# Cleanup records

What the cleanup planners read and show (`graph_cleanup/models.py`), and the canonical digest an approval is
bound to (`graph_cleanup/state_digest.py`).

* `canonicalDigest_injective`: equal digests of two payloads, collisions apart, are digests of one payload.
-/

namespace PolicySystem

open Text (FloatText Json)

/-- `EDGE_CLASSES`: the incoming edges of a Capability that a cleanup moves. -/
inductive EdgeClass where
  | requires
  | covers
  | mitigatedBy
  deriving DecidableEq

def EdgeClass.all : List EdgeClass := [.requires, .covers, .mitigatedBy]

def EdgeClass.relType : EdgeClass → String
  | requires => "REQUIRES"
  | covers => "COVERS"
  | mitigatedBy => "MITIGATED_BY"

def EdgeClass.sourceLabel : EdgeClass → String
  | requires => "Obligation"
  | covers => "PracticeArea"
  | mitigatedBy => "RiskPath"

/-- `edge_identity`. -/
def edgeIdentity (edgeType sourceId targetId : String) : String := edgeType ++ ":" ++ sourceId ++ "->" ++ targetId

/-- `GoverningPolicy`. -/
structure GoverningPolicy where
  id : String
  title : String
  status : String
  deriving DecidableEq

/-- `NodeRecord`. -/
structure NodeRecord where
  label : String
  id : String
  properties : PropertyMap
  deriving DecidableEq

/-- `EdgeRecord`. -/
structure EdgeRecord where
  relType : String
  sourceLabel : String
  sourceId : String
  targetLabel : String
  targetId : String
  deriving DecidableEq

/-- An edge of a class, as the planners show it. -/
def classEdge (c : EdgeClass) (sourceId targetId : String) : EdgeRecord :=
  ⟨c.relType, c.sourceLabel, sourceId, "Capability", targetId⟩

/-- The `GOVERNED_BY` edge of a Capability. -/
def governedBy (capabilityId policyId : String) : EdgeRecord := ⟨"GOVERNED_BY", "Capability", capabilityId, "Policy", policyId⟩

/-- `_has_edge`. -/
def hasEdge (roleId obligationId : String) : EdgeRecord := ⟨"HAS", "Role", roleId, "Obligation", obligationId⟩

def satisfiedByEdge (requirementId obligationId : String) : EdgeRecord :=
  ⟨"SATISFIED_BY", "Requirement", requirementId, "Obligation", obligationId⟩

def requiresEdge (obligationId capabilityId : String) : EdgeRecord :=
  ⟨"REQUIRES", "Obligation", obligationId, "Capability", capabilityId⟩

/-- `defines_edge`. -/
def definesEdge (instrumentId roleId : String) : EdgeRecord :=
  ⟨"DEFINES", "RegulatoryInstrument", instrumentId, "Role", roleId⟩

/-- An edge of a class onto a Capability, under the standard identity. -/
def classRawEdge (c : EdgeClass) (sourceId capabilityId : String) : RawEdge :=
  ⟨c.relType, edgeIdentity c.relType sourceId capabilityId, (c.sourceLabel, sourceId), ("Capability", capabilityId)⟩

/-- `GraphSnapshot`. -/
structure GraphSnapshot where
  nodes : List NodeRecord
  edges : List EdgeRecord
  deriving DecidableEq

/-- `CapabilityNodeState`. -/
structure CapabilityNodeState where
  id : String
  name : String
  status : String
  properties : PropertyMap
  deriving DecidableEq

/-- The order of snapshot edges. -/
def EdgeRecord.sortKey (e : EdgeRecord) : List String :=
  [e.relType, e.sourceId, e.targetId, e.sourceLabel, e.targetLabel]

local instance idsTransitive : IsTrans String (· ≤ ·) := inferInstance
local instance idsAntisymmetric : Std.Antisymm (fun a b : String => a ≤ b) := inferInstance
local instance idsTotal : Std.Total (fun a b : String => a ≤ b) := inferInstance

/-- `sorted(frozenset)`. -/
def sortedIds (ids : Finset String) : List String := ids.sort (· ≤ ·)

theorem sortedIds_injective {a b : Finset String} (h : sortedIds a = sortedIds b) : a = b := by
  rw [← Finset.sort_toFinset a (· ≤ ·), ← Finset.sort_toFinset b (· ≤ ·)]
  exact congrArg List.toFinset h

@[simp] theorem mem_sortedIds {a : Finset String} {id : String} : id ∈ sortedIds a ↔ id ∈ a :=
  Finset.mem_sort _

def optionJson (s : Option String) : Json Double := s.elim .null .str

def stringsJson (strings : List String) : Json Double := .arr (strings.map .str)

/-- `json.dumps(..., sort_keys=True, separators=(",", ":")).encode("utf-8")`. -/
def canonicalText (payload : Json Double) : Bytes := (String.ofList (payload.dumps true)).toUTF8.data.toList

/-- `canonical_digest`. -/
def canonicalDigest (sha256 : Bytes → String) (payload : Json Double) : String := sha256 (canonicalText payload)

theorem ofList_utf8_injective {a b : List Char}
    (h : (String.ofList a).toUTF8.data.toList = (String.ofList b).toUTF8.data.toList) : a = b := by
  have ha := fromUTF8?_toUTF8 (String.ofList a)
  rw [h, fromUTF8?_toUTF8] at ha
  have := congrArg String.toList (Option.some.inj ha)
  simpa using this.symm

/-- **The canonical text determines the payload.** -/
theorem canonicalText_injective {a b : Json Double} (ha : a.Sound) (hb : b.Sound)
    (h : canonicalText a = canonicalText b) : a = b := by
  have hload := @Json.loads_dumps _ _ true _ ha
  rw [ofList_utf8_injective h, Json.loads_dumps hb] at hload
  exact (Option.some.inj hload).symm

/-- **Equal digests, equal payloads**, where the hash does not collide. -/
theorem canonicalDigest_injective {sha256 : Bytes → String} {texts : Set Bytes} (hfree : Set.InjOn sha256 texts)
    {a b : Json Double} (ha : a.Sound) (hb : b.Sound) (hta : canonicalText a ∈ texts) (htb : canonicalText b ∈ texts)
    (h : canonicalDigest sha256 a = canonicalDigest sha256 b) : a = b :=
  canonicalText_injective ha hb (hfree hta htb h)

/-! ## What an accepted primitive is -/

theorem accept_upsertNode {label id : String} {properties : List (String × PyValue)} {embedding : Option Embedding}
    {p : Primitive} (h : RawPrimitive.accept (.upsertNode label id properties embedding) = some p) :
    ∃ map, validatePropertyMap properties reservedNodePropertyKeys = .ok map ∧ p = .upsertNode ⟨label, id⟩ map embedding := by
  simp only [RawPrimitive.accept, Option.bind_eq_bind, Option.bind_eq_some_iff] at h
  obtain ⟨node, hnode, -, -, map, hmap, heq⟩ := h
  cases heq
  exact ⟨map, toOption_eq_some hmap, by rw [acceptNodeRef_eq hnode]⟩

end PolicySystem
