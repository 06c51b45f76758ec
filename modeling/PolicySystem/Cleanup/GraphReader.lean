import PolicySystem.Cleanup.Model

/-!
# The merge-state reads

What the merge planners and guards read of the company graph (`graph_cleanup/graph_reader.py`). Each query
answers its rows in an order of its own.

* `mem_edgeRows`: a query's rows are the graph's edges of its type and endpoint labels.
-/

namespace PolicySystem

open Std (ExtTreeMap)
open PropertyGraph (fiber ext_fiber)

/-! ## Edges -/

/-- A stored edge as a snapshot shows it. -/
def EdgeKey.record (k : EdgeKey) : EdgeRecord := ⟨k.type, k.source.label, k.source.id, k.target.label, k.target.id⟩

def EdgeRecord.source (e : EdgeRecord) : NodeRef := ⟨e.sourceLabel, e.sourceId⟩

def EdgeRecord.target (e : EdgeRecord) : NodeRef := ⟨e.targetLabel, e.targetId⟩

@[simp] theorem EdgeKey.record_source (k : EdgeKey) : k.record.source = k.source := rfl

@[simp] theorem EdgeKey.record_target (k : EdgeKey) : k.record.target = k.target := rfl

/-- The edge ends at or leaves the node. -/
def EdgeRecord.Touches (e : EdgeRecord) (n : NodeRef) : Prop := e.source = n ∨ e.target = n

instance (e : EdgeRecord) (n : NodeRef) : Decidable (e.Touches n) := inferInstanceAs (Decidable (_ ∨ _))

/-- The graph has such an edge, under whatever identity. -/
def Shows (g : Graph) (e : EdgeRecord) : Prop := ∃ stored ∈ g.edges, stored.1.record = e

/-- The text of a `MATCH (s:S)-[r:T]->(t:L)`. -/
structure EdgePattern where
  relType : String
  sourceLabel : String
  targetLabel : String

def EdgePattern.Selects (p : EdgePattern) (e : EdgeRecord) : Prop :=
  e.relType = p.relType ∧ e.sourceLabel = p.sourceLabel ∧ e.targetLabel = p.targetLabel

instance (p : EdgePattern) (e : EdgeRecord) : Decidable (p.Selects e) := inferInstanceAs (Decidable (_ ∧ _ ∧ _))

/-- The stored edges a pattern matches, in the order the query answers them. -/
def storedRows (scan : ScanOrder) (g : Graph) (p : EdgePattern) (sel : EdgeRecord → Bool) :
    List (EdgeKey × PropertyMap) :=
  scan.order (g.edges.filter fun e => p.Selects e.1.record ∧ sel e.1.record = true)

/-- The rows of an edge query. -/
def edgeRows (scan : ScanOrder) (g : Graph) (p : EdgePattern) (sel : EdgeRecord → Bool) : List EdgeRecord :=
  (storedRows scan g p sel).map fun e => e.1.record

theorem mem_storedRows {scan : ScanOrder} {g : Graph} {p : EdgePattern} {sel : EdgeRecord → Bool}
    {e : EdgeKey × PropertyMap} :
    e ∈ storedRows scan g p sel ↔ e ∈ g.edges ∧ p.Selects e.1.record ∧ sel e.1.record = true := by
  rw [← Multiset.mem_coe, storedRows, scan.perm, Multiset.mem_filter]

theorem mem_edgeRows {scan : ScanOrder} {g : Graph} {p : EdgePattern} {sel : EdgeRecord → Bool} {r : EdgeRecord} :
    r ∈ edgeRows scan g p sel ↔ Shows g r ∧ p.Selects r ∧ sel r = true := by
  simp only [edgeRows, List.mem_map, mem_storedRows, Shows]
  constructor
  · rintro ⟨e, ⟨he, hp, hs⟩, rfl⟩
    exact ⟨⟨e, he, rfl⟩, hp, hs⟩
  · rintro ⟨⟨e, he, rfl⟩, hp, hs⟩
    exact ⟨e, ⟨he, hp, hs⟩, rfl⟩

theorem fiber_filter (m : Multiset (EdgeKey × PropertyMap)) (q : EdgeKey → Bool) (k : EdgeKey) :
    fiber (m.filter fun e => q e.1 = true) k = if q k = true then fiber m k else 0 := by
  unfold fiber
  rw [Multiset.filter_filter]
  split
  · rename_i hk
    congr 1
    refine Multiset.filter_congr fun e _ => and_iff_left_of_imp fun he => ?_
    rw [he]
    exact hk
  · rename_i hk
    rw [Multiset.filter_eq_nil.2, Multiset.map_zero]
    rintro e - ⟨rfl, he⟩
    exact hk he

theorem filter_edges_congr {g g' : Graph} {q : EdgeKey → Bool} (h : ∀ k, q k = true → g.edgesAt k = g'.edgesAt k) :
    (g.edges.filter fun e => q e.1 = true) = g'.edges.filter fun e => q e.1 = true := by
  refine ext_fiber fun k => ?_
  rw [fiber_filter, fiber_filter]
  split
  · exact h k ‹_›
  · rfl

/-- The rows of a query are the same, in some order, on a graph with the same edges where the query looks. -/
theorem storedRows_perm {scan scan' : ScanOrder} {g g' : Graph} {p : EdgePattern} {sel : EdgeRecord → Bool}
    (h : ∀ k : EdgeKey, p.Selects k.record → sel k.record = true → g.edgesAt k = g'.edgesAt k) :
    (storedRows scan g p sel).Perm (storedRows scan' g' p sel) := by
  have hsame := @filter_edges_congr g g' (fun k => decide (p.Selects k.record ∧ sel k.record = true)) fun k hk => by
    obtain ⟨hp, hs⟩ := of_decide_eq_true hk
    exact h k hp hs
  simp only [decide_eq_true_eq] at hsame
  rw [← Multiset.coe_eq_coe, storedRows, storedRows, scan.perm, scan'.perm, hsame]

theorem edgeRows_perm {scan scan' : ScanOrder} {g g' : Graph} {p : EdgePattern} {sel : EdgeRecord → Bool}
    (h : ∀ k : EdgeKey, p.Selects k.record → sel k.record = true → g.edgesAt k = g'.edgesAt k) :
    (edgeRows scan g p sel).Perm (edgeRows scan' g' p sel) :=
  (storedRows_perm h).map _

/-! ## Properties -/

/-- A column that must be a string. -/
def stringColumn (v : Option PropertyValue) : Option String :=
  match v with
  | some (.scalar (.str s)) => some s
  | _ => none

/-- `str | None`; the outer `none` is a refusal. -/
def optionalColumn (v : Option PropertyValue) : Option (Option String) :=
  match v with
  | none => some none
  | some v => (stringColumn (some v)).map some

/-- Python's falsy values. -/
def PropertyValue.falsy : PropertyValue → Bool
  | .scalar (.str s) => s = ""
  | .scalar (.bool b) => !b
  | .scalar (.int i) => i = 0
  | .scalar (.float d) => d.bits = 0 || d.bits = 0x8000000000000000
  | .list items => items = []

/-- `row[2] or active_capability_status()`. -/
def statusColumn (v : Option PropertyValue) : Option String :=
  match v with
  | none => some "active"
  | some v => if v.falsy then some "active" else stringColumn (some v)

/-- The present properties among `names`; a list is refused. -/
def scalarColumns (properties : PropertyMap) : List String → Option PropertyMap
  | [] => some ∅
  | name :: names => do
    let rest ← scalarColumns properties names
    match properties[name]? with
    | none => some rest
    | some (.scalar s) => some (rest.insert name (.scalar s))
    | some (.list _) => none

/-- The node dict's entry at `id`; the outer `none` is a refused row. -/
def readNode {α : Type} (g : Graph) (label id : String) (build : PropertyMap → Option α) : Option (Option α) :=
  match g.nodes[(⟨label, id⟩ : NodeRef)]? with
  | none => some none
  | some content => (build content.properties).map some

/-! ## Capabilities -/

/-- `MergeState`. -/
structure MergeState where
  survivor : Option CapabilityNodeState
  absorbed : Option CapabilityNodeState
  edges : List EdgeRecord
  survivorPolicies : List GoverningPolicy
  absorbedPolicies : List GoverningPolicy

/-- `_node_state`. -/
def nodeState (id : String) (properties : PropertyMap) : Option CapabilityNodeState := do
  let name ← stringColumn properties["name"]?
  let status ← statusColumn properties["status"]?
  let scalars ← scalarColumns properties ["description", "type", "confidence", "created_at"]
  return ⟨id, name, status, scalars⟩

def EdgeClass.pattern (c : EdgeClass) : EdgePattern := ⟨c.relType, c.sourceLabel, "Capability"⟩

def governorPattern : EdgePattern := ⟨"GOVERNED_BY", "Capability", "Policy"⟩

/-- A row of `_CAPABILITY_GOVERNORS_QUERY`. -/
def governingPolicy (g : Graph) (policyId : String) : Option GoverningPolicy := do
  let content ← g.nodes[(⟨"Policy", policyId⟩ : NodeRef)]?
  let title ← stringColumn content.properties["title"]?
  let status ← stringColumn content.properties["status"]?
  return ⟨policyId, title, status⟩

/-- The Policies governing a Capability, in row order. -/
def readPolicies (scan : ScanOrder) (g : Graph) (capabilityId : String) : Option (List GoverningPolicy) :=
  (edgeRows scan g governorPattern fun e => e.sourceId = capabilityId).mapM fun e => governingPolicy g e.targetId

/-- `read_capability_merge_state`; `none` where a row is refused. -/
def readCapabilityMergeState (scan : ScanOrder) (g : Graph) (survivorId absorbedId : String) : Option MergeState := do
  let survivor ← readNode g "Capability" survivorId (nodeState survivorId)
  let absorbed ← readNode g "Capability" absorbedId (nodeState absorbedId)
  let edges := EdgeClass.all.flatMap fun c =>
    edgeRows scan g c.pattern fun e => e.targetId = survivorId || e.targetId = absorbedId
  let survivorPolicies ← readPolicies scan g survivorId
  let absorbedPolicies ← readPolicies scan g absorbedId
  return ⟨survivor, absorbed, edges, survivorPolicies, absorbedPolicies⟩

theorem map_eq_of_mapM {α β γ : Type} {f : α → Option β} {key : β → γ} {key' : α → γ} {xs : List α} {ys : List β}
    (h : xs.mapM f = some ys) (hkey : ∀ x y, f x = some y → key y = key' x) : ys.map key = xs.map key' := by
  induction xs generalizing ys with
  | nil =>
    obtain rfl : ys = [] := (Option.some.inj h).symm
    rfl
  | cons x xs ih =>
    simp only [List.mapM_cons, Option.bind_eq_bind, Option.bind_eq_some_iff, Option.pure_def, Option.some.injEq] at h
    obtain ⟨y, hy, ys, hys, rfl⟩ := h
    rw [List.map_cons, List.map_cons, hkey x y hy, ih hys]

/-- A node that was read has the id it was read under. -/
theorem readNode_id {α : Type} {g : Graph} {label id : String} {build : PropertyMap → Option α} {found : Option α}
    (h : readNode g label id build = some found) {getId : α → String} (hid : ∀ properties x, build properties = some x → getId x = id) :
    ∀ x, found = some x → getId x = id := by
  rintro x rfl
  unfold readNode at h
  split at h
  · cases h
  · rename_i content _
    obtain ⟨y, hy, heq⟩ := Option.map_eq_some_iff.1 h
    cases heq
    exact hid _ _ hy

/-- A node that was found exists. -/
theorem readNode_mem {α : Type} {g : Graph} {label id : String} {build : PropertyMap → Option α} {x : α}
    (h : readNode g label id build = some (some x)) : (⟨label, id⟩ : NodeRef) ∈ g.nodes := by
  unfold readNode at h
  split at h
  · cases h
  · rename_i hget
    exact ExtTreeMap.mem_iff_isSome_getElem?.2 (by rw [hget]; rfl)

theorem nodeState_id {id : String} {properties : PropertyMap} {x : CapabilityNodeState}
    (h : nodeState id properties = some x) : x.id = id := by
  simp only [nodeState, Option.bind_eq_bind, Option.bind_eq_some_iff, Option.pure_def, Option.some.injEq] at h
  obtain ⟨-, -, -, -, -, -, rfl⟩ := h
  rfl

theorem pattern_selects {c : EdgeClass} {r : EdgeRecord} :
    c.pattern.Selects r ↔ r = classEdge c r.sourceId r.targetId := by
  cases r
  simp [EdgePattern.Selects, EdgeClass.pattern, classEdge]

theorem readPolicies_ids {scan : ScanOrder} {g : Graph} {capabilityId : String} {policies : List GoverningPolicy}
    (h : readPolicies scan g capabilityId = some policies) (id : String) :
    (∃ p ∈ policies, p.id = id) ↔ Shows g (governedBy capabilityId id) := by
  have hids := @map_eq_of_mapM _ _ _ _ GoverningPolicy.id EdgeRecord.targetId _ _ h fun e p hp => by
    simp only [governingPolicy, Option.bind_eq_bind, Option.bind_eq_some_iff, Option.pure_def, Option.some.injEq] at hp
    obtain ⟨-, -, -, -, -, -, rfl⟩ := hp
    rfl
  have hmem : (∃ p ∈ policies, p.id = id) ↔ id ∈ policies.map GoverningPolicy.id := by
    simp only [List.mem_map]
  rw [hmem, hids]
  simp only [List.mem_map, mem_edgeRows]
  constructor
  · rintro ⟨⟨t, sl, s, tl, x⟩, ⟨hshow, ⟨rfl, rfl, rfl⟩, hsource⟩, rfl⟩
    obtain rfl : s = capabilityId := of_decide_eq_true hsource
    exact hshow
  · intro hshow
    exact ⟨_, ⟨hshow, ⟨rfl, rfl, rfl⟩, decide_eq_true rfl⟩, rfl⟩

/-- What a merge state says of the graph it was read from. -/
structure MergeStateOf (g : Graph) (survivorId absorbedId : String) (state : MergeState) : Prop where
  survivor_id : ∀ x, state.survivor = some x → x.id = survivorId
  absorbed_id : ∀ x, state.absorbed = some x → x.id = absorbedId
  survivor_mem : ∀ x, state.survivor = some x → (⟨"Capability", survivorId⟩ : NodeRef) ∈ g.nodes
  absorbed_mem : ∀ x, state.absorbed = some x → (⟨"Capability", absorbedId⟩ : NodeRef) ∈ g.nodes
  shaped : ∀ r ∈ state.edges, ∃ c, r = classEdge c r.sourceId r.targetId
  edges : ∀ c source target, classEdge c source target ∈ state.edges ↔
    Shows g (classEdge c source target) ∧ (target = survivorId ∨ target = absorbedId)
  survivorPolicies : ∀ id, (∃ p ∈ state.survivorPolicies, p.id = id) ↔ Shows g (governedBy survivorId id)
  absorbedPolicies : ∀ id, (∃ p ∈ state.absorbedPolicies, p.id = id) ↔ Shows g (governedBy absorbedId id)

theorem mem_all (c : EdgeClass) : c ∈ EdgeClass.all := by cases c <;> simp [EdgeClass.all]

theorem relType_injective {c d : EdgeClass} (h : c.relType = d.relType) : c = d := by
  cases c <;> cases d <;> first | rfl | exact absurd h (by decide)

theorem mergeStateOf_read {scan : ScanOrder} {g : Graph} {survivorId absorbedId : String} {state : MergeState}
    (h : readCapabilityMergeState scan g survivorId absorbedId = some state) :
    MergeStateOf g survivorId absorbedId state := by
  simp only [readCapabilityMergeState, Option.bind_eq_bind, Option.bind_eq_some_iff, Option.pure_def,
    Option.some.injEq] at h
  obtain ⟨x, hx, y, hy, ps, hps, qs, hqs, rfl⟩ := h
  have hmem : ∀ r, (r ∈ EdgeClass.all.flatMap fun c => edgeRows scan g c.pattern fun e =>
      e.targetId = survivorId || e.targetId = absorbedId) ↔
      Shows g r ∧ (∃ c, r = classEdge c r.sourceId r.targetId) ∧ (r.targetId = survivorId ∨ r.targetId = absorbedId) := by
    intro r
    simp only [List.mem_flatMap, mem_edgeRows, pattern_selects, Bool.or_eq_true, decide_eq_true_eq]
    constructor
    · rintro ⟨c, -, hshow, hselect, hends⟩
      exact ⟨hshow, ⟨c, hselect⟩, hends⟩
    · rintro ⟨hshow, ⟨c, hselect⟩, hends⟩
      exact ⟨c, mem_all c, hshow, hselect, hends⟩
  refine ⟨readNode_id hx fun _ _ => nodeState_id, readNode_id hy fun _ _ => nodeState_id, ?_, ?_, ?_, ?_,
    readPolicies_ids hps, readPolicies_ids hqs⟩
  · rintro s rfl
    exact readNode_mem hx
  · rintro a rfl
    exact readNode_mem hy
  · intro r hr
    exact ((hmem r).1 hr).2.1
  · intro c source target
    rw [hmem]
    constructor
    · rintro ⟨hshow, -, hends⟩
      exact ⟨hshow, hends⟩
    · rintro ⟨hshow, hends⟩
      exact ⟨hshow, ⟨c, rfl⟩, hends⟩

/-! ## Obligations -/

/-- `RoleRef`. -/
structure RoleRef where
  id : String
  name : String
  deriving DecidableEq

/-- `ObligationNodeState`. -/
structure ObligationNodeState where
  id : String
  text : String
  properties : PropertyMap
  deriving DecidableEq

/-- `ObligationMergeState`. -/
structure ObligationMergeState where
  survivor : Option ObligationNodeState
  absorbed : Option ObligationNodeState
  survivorRoles : List RoleRef
  absorbedRoles : List RoleRef
  edges : List EdgeRecord

/-- `_obligation_state`. -/
def obligationState (id : String) (properties : PropertyMap) : Option ObligationNodeState := do
  let text ← stringColumn properties["text"]?
  let scalars ← scalarColumns properties ["confidence"]
  return ⟨id, text, scalars⟩

def hasPattern : EdgePattern := ⟨"HAS", "Role", "Obligation"⟩

def satisfiedByPattern : EdgePattern := ⟨"SATISFIED_BY", "Requirement", "Obligation"⟩

def requiresPattern : EdgePattern := ⟨"REQUIRES", "Obligation", "Capability"⟩

/-- A row of `_OBLIGATION_ROLES_QUERY`. -/
def roleRef (g : Graph) (roleId : String) : Option RoleRef := do
  let content ← g.nodes[(⟨"Role", roleId⟩ : NodeRef)]?
  let name ← stringColumn content.properties["name"]?
  return ⟨roleId, name⟩

/-- The Roles that `HAS` an Obligation, in row order. -/
def readRoles (scan : ScanOrder) (g : Graph) (obligationId : String) : Option (List RoleRef) :=
  (edgeRows scan g hasPattern fun e => e.targetId = obligationId).mapM fun e => roleRef g e.sourceId

/-- `read_obligation_merge_state`; `none` where a row is refused. -/
def readObligationMergeState (scan : ScanOrder) (g : Graph) (survivorId absorbedId : String) :
    Option ObligationMergeState := do
  let survivor ← readNode g "Obligation" survivorId (obligationState survivorId)
  let absorbed ← readNode g "Obligation" absorbedId (obligationState absorbedId)
  let survivorRoles ← readRoles scan g survivorId
  let absorbedRoles ← readRoles scan g absorbedId
  let edges :=
    edgeRows scan g satisfiedByPattern (fun e => e.targetId = survivorId || e.targetId = absorbedId) ++
      edgeRows scan g requiresPattern fun e => e.sourceId = survivorId || e.sourceId = absorbedId
  return ⟨survivor, absorbed, survivorRoles, absorbedRoles, edges⟩

theorem obligationState_id {id : String} {properties : PropertyMap} {x : ObligationNodeState}
    (h : obligationState id properties = some x) : x.id = id := by
  simp only [obligationState, Option.bind_eq_bind, Option.bind_eq_some_iff, Option.pure_def, Option.some.injEq] at h
  obtain ⟨-, -, -, -, rfl⟩ := h
  rfl

theorem readRoles_ids {scan : ScanOrder} {g : Graph} {obligationId : String} {roles : List RoleRef}
    (h : readRoles scan g obligationId = some roles) (id : String) :
    (∃ r ∈ roles, r.id = id) ↔ Shows g (hasEdge id obligationId) := by
  have hids := @map_eq_of_mapM _ _ _ _ RoleRef.id EdgeRecord.sourceId _ _ h fun e p hp => by
    simp only [roleRef, Option.bind_eq_bind, Option.bind_eq_some_iff, Option.pure_def, Option.some.injEq] at hp
    obtain ⟨-, -, -, -, rfl⟩ := hp
    rfl
  have hmem : (∃ r ∈ roles, r.id = id) ↔ id ∈ roles.map RoleRef.id := by
    simp only [List.mem_map]
  rw [hmem, hids]
  simp only [List.mem_map, mem_edgeRows]
  constructor
  · rintro ⟨⟨t, sl, s, tl, x⟩, ⟨hshow, ⟨rfl, rfl, rfl⟩, htarget⟩, rfl⟩
    obtain rfl : x = obligationId := of_decide_eq_true htarget
    exact hshow
  · intro hshow
    exact ⟨_, ⟨hshow, ⟨rfl, rfl, rfl⟩, decide_eq_true rfl⟩, rfl⟩

/-- What a merge state says of the graph it was read from. -/
structure ObligationStateOf (g : Graph) (survivorId absorbedId : String) (state : ObligationMergeState) : Prop where
  survivor_id : ∀ x, state.survivor = some x → x.id = survivorId
  absorbed_id : ∀ x, state.absorbed = some x → x.id = absorbedId
  edges : ∀ r, r ∈ state.edges ↔ Shows g r ∧
    ((r = satisfiedByEdge r.sourceId r.targetId ∧ (r.targetId = survivorId ∨ r.targetId = absorbedId)) ∨
      (r = requiresEdge r.sourceId r.targetId ∧ (r.sourceId = survivorId ∨ r.sourceId = absorbedId)))
  absorbedRoles : ∀ id, (∃ r ∈ state.absorbedRoles, r.id = id) ↔ Shows g (hasEdge id absorbedId)

theorem obligationStateOf_read {scan : ScanOrder} {g : Graph} {survivorId absorbedId : String}
    {state : ObligationMergeState} (h : readObligationMergeState scan g survivorId absorbedId = some state) :
    ObligationStateOf g survivorId absorbedId state := by
  simp only [readObligationMergeState, Option.bind_eq_bind, Option.bind_eq_some_iff, Option.pure_def,
    Option.some.injEq] at h
  obtain ⟨x, hx, y, hy, ps, hps, qs, hqs, rfl⟩ := h
  refine ⟨readNode_id hx fun _ _ => obligationState_id, readNode_id hy fun _ _ => obligationState_id, ?_,
    readRoles_ids hqs⟩
  intro r
  have hsatisfied : satisfiedByPattern.Selects r ↔ r = satisfiedByEdge r.sourceId r.targetId := by
    cases r
    simp [EdgePattern.Selects, satisfiedByPattern, satisfiedByEdge]
  have hrequires : requiresPattern.Selects r ↔ r = requiresEdge r.sourceId r.targetId := by
    cases r
    simp [EdgePattern.Selects, requiresPattern, requiresEdge]
  simp only [List.mem_append, mem_edgeRows, hsatisfied, hrequires, Bool.or_eq_true, decide_eq_true_eq]
  tauto

/-! ## Roles -/

/-- `RoleState`. -/
structure RoleState where
  id : String
  name : String
  properties : PropertyMap
  deriving DecidableEq

/-- `RoleDefines`. -/
structure RoleDefines where
  instrumentId : String
  sourceRef : Option String
  deriving DecidableEq

/-- `RoleMergeState`. -/
structure RoleMergeState where
  survivorId : String
  absorbedId : String
  survivor : Option RoleState
  absorbed : Option RoleState
  markerIds : List String
  survivorDefines : List RoleDefines
  absorbedDefines : List RoleDefines
  survivorObligationIds : List String
  absorbedObligationIds : List String
  foreignBearers : List EdgeRecord
  absorbedDegree : ℕ

/-- `_role_state`. -/
def roleState (id : String) (properties : PropertyMap) : Option RoleState := do
  let name ← stringColumn properties["name"]?
  let scalars ← scalarColumns properties ["description", "confidence"]
  return ⟨id, name, scalars⟩

def definesPattern : EdgePattern := ⟨"DEFINES", "RegulatoryInstrument", "Role"⟩

/-- A row of `_ROLE_DEFINES_QUERY`. -/
def roleDefines (e : EdgeKey × PropertyMap) : Option RoleDefines := do
  let sourceRef ← optionalColumn e.2["source_ref"]?
  return ⟨e.1.source.id, sourceRef⟩

def readDefines (scan : ScanOrder) (g : Graph) (roleId : String) : Option (List RoleDefines) :=
  (storedRows scan g definesPattern fun e => e.targetId = roleId).mapM roleDefines

/-- The Obligations a Role `HAS`, in row order. -/
def readObligationIds (scan : ScanOrder) (g : Graph) (roleId : String) : List String :=
  (edgeRows scan g hasPattern fun e => e.sourceId = roleId).map EdgeRecord.targetId

/-- `sorted` of ids that may repeat. -/
def sortedList (ids : List String) : List String := ids.insertionSort (· ≤ ·)

/-- `read_role_merge_state`; `none` where a row is refused. -/
def readRoleMergeState (scan : ScanOrder) (g : Graph) (survivorId absorbedId : String) : Option RoleMergeState := do
  let survivor ← readNode g "Role" survivorId (roleState survivorId)
  let absorbed ← readNode g "Role" absorbedId (roleState absorbedId)
  let markers := (sortedIds {survivorId, absorbedId}).filter fun id => (⟨"MergedRole", id⟩ : NodeRef) ∈ g.nodes
  let survivorDefines ← readDefines scan g survivorId
  let absorbedDefines ← readDefines scan g absorbedId
  let absorbedHas := edgeRows scan g hasPattern fun e => e.sourceId = absorbedId
  let foreign := absorbedHas.flatMap fun e =>
    edgeRows scan g hasPattern fun b => b.targetId = e.targetId && b.sourceId ≠ absorbedId
  return { survivorId, absorbedId, survivor, absorbed
           markerIds := markers
           survivorDefines, absorbedDefines
           survivorObligationIds := sortedList (readObligationIds scan g survivorId)
           absorbedObligationIds := sortedList (readObligationIds scan g absorbedId)
           foreignBearers := foreign
           absorbedDegree := (g.edges.filter fun e =>
             e.1.source = ⟨"Role", absorbedId⟩ ∨ e.1.target = ⟨"Role", absorbedId⟩).card }

theorem roleState_id {id : String} {properties : PropertyMap} {x : RoleState} (h : roleState id properties = some x) :
    x.id = id := by
  simp only [roleState, Option.bind_eq_bind, Option.bind_eq_some_iff, Option.pure_def, Option.some.injEq] at h
  obtain ⟨-, -, -, -, rfl⟩ := h
  rfl

@[simp] theorem mem_sortedList {ids : List String} {id : String} : id ∈ sortedList ids ↔ id ∈ ids :=
  (List.perm_insertionSort _ ids).mem_iff

/-- What a merge state says of the graph it was read from. -/
structure RoleStateOf (g : Graph) (survivorId absorbedId : String) (state : RoleMergeState) : Prop where
  survivor_id : ∀ x, state.survivor = some x → x.id = survivorId
  absorbed_id : ∀ x, state.absorbed = some x → x.id = absorbedId
  ids : state.survivorId = survivorId ∧ state.absorbedId = absorbedId
  absorbedDefines : ∀ id, (∃ d ∈ state.absorbedDefines, d.instrumentId = id) ↔ Shows g (definesEdge id absorbedId)
  absorbedObligations : ∀ id, id ∈ state.absorbedObligationIds ↔ Shows g (hasEdge absorbedId id)

theorem readDefines_ids {scan : ScanOrder} {g : Graph} {roleId : String} {defines : List RoleDefines}
    (h : readDefines scan g roleId = some defines) (id : String) :
    (∃ d ∈ defines, d.instrumentId = id) ↔ Shows g (definesEdge id roleId) := by
  have hids := @map_eq_of_mapM _ _ _ _ RoleDefines.instrumentId (fun e => e.1.source.id) _ _ h fun e d hd => by
    simp only [roleDefines, Option.bind_eq_bind, Option.bind_eq_some_iff, Option.pure_def, Option.some.injEq] at hd
    obtain ⟨-, -, rfl⟩ := hd
    rfl
  have hmem : (∃ d ∈ defines, d.instrumentId = id) ↔ id ∈ defines.map RoleDefines.instrumentId := by
    simp only [List.mem_map]
  rw [hmem, hids]
  simp only [List.mem_map, mem_storedRows]
  constructor
  · rintro ⟨⟨⟨t, ⟨sl, s⟩, ⟨tl, x⟩, i⟩, properties⟩, ⟨hedge, ⟨rfl, rfl, rfl⟩, htarget⟩, rfl⟩
    obtain rfl : x = roleId := of_decide_eq_true htarget
    exact ⟨_, hedge, rfl⟩
  · rintro ⟨⟨⟨t, ⟨sl, s⟩, ⟨tl, x⟩, i⟩, properties⟩, hedge, hrecord⟩
    cases hrecord
    exact ⟨_, ⟨hedge, ⟨rfl, rfl, rfl⟩, decide_eq_true rfl⟩, rfl⟩

theorem mem_readObligationIds {scan : ScanOrder} {g : Graph} {roleId id : String} :
    id ∈ readObligationIds scan g roleId ↔ Shows g (hasEdge roleId id) := by
  simp only [readObligationIds, List.mem_map, mem_edgeRows]
  constructor
  · rintro ⟨⟨t, sl, s, tl, x⟩, ⟨hshow, ⟨rfl, rfl, rfl⟩, hsource⟩, rfl⟩
    obtain rfl : s = roleId := of_decide_eq_true hsource
    exact hshow
  · intro hshow
    exact ⟨_, ⟨hshow, ⟨rfl, rfl, rfl⟩, decide_eq_true rfl⟩, rfl⟩

theorem roleStateOf_read {scan : ScanOrder} {g : Graph} {survivorId absorbedId : String} {state : RoleMergeState}
    (h : readRoleMergeState scan g survivorId absorbedId = some state) : RoleStateOf g survivorId absorbedId state := by
  simp only [readRoleMergeState, Option.bind_eq_bind, Option.bind_eq_some_iff, Option.pure_def, Option.some.injEq] at h
  obtain ⟨x, hx, y, hy, ps, hps, qs, hqs, rfl⟩ := h
  exact ⟨readNode_id hx fun _ _ => roleState_id, readNode_id hy fun _ _ => roleState_id, ⟨rfl, rfl⟩,
    readDefines_ids hqs, fun id => mem_sortedList.trans mem_readObligationIds⟩

end PolicySystem
