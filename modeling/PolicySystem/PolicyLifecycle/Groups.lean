import PolicySystem.PolicyLifecycle.Service

/-!
# What a lifecycle group holds

* `Offers`: the shape of a group by its purpose, and what of the graph it still relies on;
* `Rely`: what every such group leaves as it is, whatever the others do;
* `flow_asks`: every call submits only such groups.
-/

namespace PolicySystem.PolicyLifecycle

open Std (ExtTreeMap)
open Interleaved PropertyGraph GraphWrite

/-! ## What a primitive changes -/

/-- The primitive may change the property of the node. -/
def Sets (p : Primitive) (n : NodeRef) (key : String) : Prop :=
  match p with
  | .upsertNode m properties _ => m = n ∧ key ∈ properties
  | .mergeProperty m properties => m = n ∧ key ∈ properties
  | .removeProperty m keys => m = n ∧ key ∈ keys
  | .deleteNode m => m = n
  | _ => False

theorem columns_eq (g : Graph) (n : NodeRef) (key : String) :
    (columns g n)[key]? = g.nodes[n]?.bind fun v => v.properties[key]? := by
  unfold columns
  cases g.nodes[n]? <;> simp

theorem applyOne_columns {g : Graph} {p : Primitive} {n : NodeRef} {key : String} (h : ¬ Sets p n key) :
    (columns (applyOne g p) n)[key]? = (columns g n)[key]? := by
  rw [columns_eq, columns_eq]
  cases p with
  | stampEdgeIdentity e => rw [applyOne_stamp, stampEdge_nodes]
  | upsertEdge e props => rw [applyOne_eq_write rfl, write_nodes]; rfl
  | deleteEdge e => rw [applyOne_eq_write rfl, write_nodes]; rfl
  | upsertNode m props e =>
    rw [applyOne_eq_write rfl, write_nodes, nodeStep]
    split
    · rename_i hm
      have hkey : key ∉ props := fun hk => h ⟨hm, hk⟩
      have hnone : props[key]? = none := by simpa using hkey
      cases g.nodes[n]? with
      | none => simp [NodeContent.upsert, ExtTreeMap.getElem?_union, hnone, default]
      | some v => simp [NodeContent.upsert, ExtTreeMap.getElem?_union, hnone]
    · rfl
  | mergeProperty m props =>
    rw [applyOne_eq_write rfl, write_nodes, nodeStep]
    split
    · rename_i hm
      have hkey : key ∉ props := fun hk => h ⟨hm, hk⟩
      have hnone : props[key]? = none := by simpa using hkey
      cases g.nodes[n]? with
      | none => rfl
      | some v => simp [NodeContent.merge, ExtTreeMap.getElem?_union, hnone]
    · rfl
  | removeProperty m keys =>
    rw [applyOne_eq_write rfl, write_nodes, nodeStep]
    split
    · rename_i hm
      have hkey : key ∉ keys := fun hk => h ⟨hm, hk⟩
      cases g.nodes[n]? with
      | none => rfl
      | some v => simp [NodeContent.remove_properties, hkey]
    · rfl
  | deleteNode m =>
    have hne : m ≠ n := h
    rw [applyOne_eq_write rfl, write_nodes, nodeStep, if_neg hne]

theorem applyAll_columns {ps : List Primitive} {n : NodeRef} {key : String} (h : ∀ p ∈ ps, ¬ Sets p n key) (g : Graph) :
    (columns (applyAll g ps) n)[key]? = (columns g n)[key]? := by
  induction ps generalizing g with
  | nil => rfl
  | cons p ps ih =>
    rw [applyAll_cons, ih fun q hq => h q (List.mem_cons_of_mem _ hq)]
    exact applyOne_columns (h p (by simp))

/-- The primitive takes nothing away but, at most, a `GOVERNED_BY` edge. -/
def Grows : Primitive → Prop
  | .deleteNode _ => False
  | .deleteEdge e => e.type = "GOVERNED_BY"
  | _ => True

theorem shows_iff {g : Graph} {r : EdgeRecord} : Shows g r ↔ ∃ k, k.record = r ∧ g.edgesAt k ≠ 0 := by
  constructor
  · rintro ⟨⟨k, v⟩, he, rfl⟩
    refine ⟨k, rfl, fun h0 => ?_⟩
    have hv : v ∈ g.edgesAt k := mem_edgesAt.2 he
    rw [h0] at hv
    exact Multiset.notMem_zero v hv
  · rintro ⟨k, rfl, hk⟩
    obtain ⟨v, hv⟩ := Multiset.exists_mem_of_ne_zero hk
    exact ⟨(k, v), mem_edgesAt.1 hv, rfl⟩

theorem applyOne_stays {g : Graph} {p : Primitive} (hp : ∀ m, p ≠ .deleteNode m) {n : NodeRef} (hn : n ∈ g.nodes) :
    n ∈ (applyOne g p).nodes := by
  rw [ExtTreeMap.mem_iff_isSome_getElem?] at hn ⊢
  cases p with
  | stampEdgeIdentity e => exact hn
  | upsertEdge e props => rwa [applyOne_eq_write rfl, write_nodes]
  | deleteEdge e => rwa [applyOne_eq_write rfl, write_nodes]
  | deleteNode m => exact absurd rfl (hp m)
  | upsertNode m props e =>
    rw [applyOne_eq_write rfl, write_nodes, nodeStep]
    split
    · rfl
    · exact hn
  | mergeProperty m props =>
    rw [applyOne_eq_write rfl, write_nodes, nodeStep]
    split
    · simpa using hn
    · exact hn
  | removeProperty m keys =>
    rw [applyOne_eq_write rfl, write_nodes, nodeStep]
    split
    · simpa using hn
    · exact hn

theorem applyOne_mem {g : Graph} {p : Primitive} (hp : Grows p) {n : NodeRef} (hn : n ∈ g.nodes) :
    n ∈ (applyOne g p).nodes := by
  refine applyOne_stays (fun m heq => ?_) hn
  rw [heq] at hp
  exact hp

/-- A stamped edge is shown under its identity. -/
theorem stamp_shows {g : Graph} {e : EdgeBase} {r : EdgeRecord} (h : Shows g r) :
    Shows (applyOne g (.stampEdgeIdentity e)) r := by
  obtain ⟨k, rfl, hk⟩ := shows_iff.1 h
  by_cases hstamp : e.unidentifiedKey = k
  · refine shows_iff.2 ⟨e.edgeKey, by rw [← hstamp]; rfl, ?_⟩
    rw [applyOne_stamp, stampEdge_edgesAt, if_neg (e.unidentifiedKey_ne_edgeKey e), if_pos rfl, hstamp]
    intro h0
    exact hk (add_eq_zero.1 h0).2
  · refine shows_iff.2 ⟨k, rfl, ?_⟩
    rw [applyOne_stamp, stampEdge_edgesAt, if_neg hstamp]
    split
    · rename_i hkey
      rw [hkey]
      intro h0
      exact hk (add_eq_zero.1 h0).1
    · exact hk

/-- The primitive takes the edges of a record away. -/
def Takes : Primitive → EdgeRecord → Prop
  | .deleteNode _, _ => True
  | .deleteEdge e, r => e.edgeKey.record = r
  | _, _ => False

theorem Grows.takes {p : Primitive} (hp : Grows p) {r : EdgeRecord} (hr : r.relType ≠ "GOVERNED_BY") : ¬ Takes p r := by
  intro h
  cases p with
  | deleteNode m => exact hp
  | deleteEdge e =>
    obtain rfl : e.edgeKey.record = r := h
    exact hr hp
  | _ => exact h

theorem applyOne_keeps {g : Graph} {p : Primitive} {r : EdgeRecord} (hp : ¬ Takes p r) (h : Shows g r) :
    Shows (applyOne g p) r := by
  obtain ⟨k, rfl, hk⟩ := shows_iff.1 h
  cases p with
  | stampEdgeIdentity e => exact stamp_shows h
  | deleteEdge e =>
    refine shows_iff.2 ⟨k, rfl, ?_⟩
    rw [applyOne_eq_write rfl, write_edgesAt]
    simp only [edgeStep]
    rw [if_neg]
    · exact hk
    · rintro rfl
      exact hp rfl
  | deleteNode m => exact absurd trivial hp
  | upsertEdge e props =>
    refine shows_iff.2 ⟨k, rfl, ?_⟩
    rw [applyOne_eq_write rfl, write_edgesAt]
    simp only [edgeStep, upsertAt]
    split
    · split
      · exact Multiset.singleton_ne_zero _
      · simpa using hk
    · exact hk
  | upsertNode m props e =>
    refine shows_iff.2 ⟨k, rfl, ?_⟩
    rwa [applyOne_eq_write rfl, write_edgesAt]
  | mergeProperty m props =>
    refine shows_iff.2 ⟨k, rfl, ?_⟩
    rwa [applyOne_eq_write rfl, write_edgesAt]
  | removeProperty m keys =>
    refine shows_iff.2 ⟨k, rfl, ?_⟩
    rwa [applyOne_eq_write rfl, write_edgesAt]

theorem applyAll_mem {ps : List Primitive} (hp : ∀ p ∈ ps, Grows p) {g : Graph} {n : NodeRef} (hn : n ∈ g.nodes) :
    n ∈ (applyAll g ps).nodes := by
  induction ps generalizing g with
  | nil => exact hn
  | cons p ps ih =>
    have hhead : n ∈ (applyOne g p).nodes := applyOne_mem (hp p (by simp)) hn
    exact ih (fun q hq => hp q (List.mem_cons_of_mem _ hq)) hhead

theorem applyAll_keeps {ps : List Primitive} {r : EdgeRecord} (hp : ∀ p ∈ ps, ¬ Takes p r) {g : Graph} (h : Shows g r) :
    Shows (applyAll g ps) r := by
  induction ps generalizing g with
  | nil => exact h
  | cons p ps ih =>
    have hhead : Shows (applyOne g p) r := applyOne_keeps (hp p (by simp)) h
    exact ih (fun q hq => hp q (List.mem_cons_of_mem _ hq)) hhead

theorem applyAll_shows {ps : List Primitive} (hp : ∀ p ∈ ps, Grows p) {g : Graph} {r : EdgeRecord}
    (hr : r.relType ≠ "GOVERNED_BY") (h : Shows g r) : Shows (applyAll g ps) r :=
  applyAll_keeps (fun p hmem => (hp p hmem).takes hr) h

/-! ## The tree of a Policy -/

def supportedBy (policyId standardId : String) : EdgeRecord := ⟨"SUPPORTED_BY", "Policy", policyId, "Standard", standardId⟩

def implementedBy (standardId controlId : String) : EdgeRecord :=
  ⟨"IMPLEMENTED_BY", "Standard", standardId, "Control", controlId⟩

/-- A Standard of the Policy, or a Control of one. -/
def Under (g : Graph) (policyId : String) (n : NodeRef) : Prop :=
  ∃ s, Shows g (supportedBy policyId s) ∧ (n = standardRef s ∨ ∃ k, Shows g (implementedBy s k) ∧ n = controlRef k)

variable {scan : ScanOrder} {g : Graph}

theorem mem_standardsOf {policyId s : String} : s ∈ standardsOf scan g policyId ↔ Shows g (supportedBy policyId s) := by
  simp only [standardsOf, List.mem_map, mem_edgeRows]
  constructor
  · rintro ⟨⟨t, sl, x, tl, y⟩, ⟨hshow, ⟨rfl, rfl, rfl⟩, hsource⟩, rfl⟩
    obtain rfl : x = policyId := of_decide_eq_true hsource
    exact hshow
  · intro hshow
    exact ⟨_, ⟨hshow, ⟨rfl, rfl, rfl⟩, decide_eq_true rfl⟩, rfl⟩

theorem mem_controlsOf {s k : String} : k ∈ controlsOf scan g s ↔ Shows g (implementedBy s k) := by
  simp only [controlsOf, List.mem_map, mem_edgeRows]
  constructor
  · rintro ⟨⟨t, sl, x, tl, y⟩, ⟨hshow, ⟨rfl, rfl, rfl⟩, hsource⟩, rfl⟩
    obtain rfl : x = s := of_decide_eq_true hsource
    exact hshow
  · intro hshow
    exact ⟨_, ⟨hshow, ⟨rfl, rfl, rfl⟩, decide_eq_true rfl⟩, rfl⟩

theorem mem_optionalMatch {ids : List String} {x : Option String} :
    x ∈ optionalMatch ids ↔ (ids = [] ∧ x = none) ∨ ∃ id ∈ ids, x = some id := by
  unfold optionalMatch
  split
  · rename_i h
    simp [h]
  · rename_i h
    simp [h, eq_comm]

/-- A row names a Standard of the Policy, and a Control of that Standard where it names one. -/
theorem mem_treeRows {policyId : String} {row : Option String × Option String} (h : row ∈ treeRows scan g policyId) :
    row = (none, none) ∨ ∃ s, row.1 = some s ∧ Shows g (supportedBy policyId s) ∧
      ∀ k, row.2 = some k → Shows g (implementedBy s k) := by
  obtain ⟨first, hfirst, hrow⟩ := List.mem_flatMap.1 h
  rcases mem_optionalMatch.1 hfirst with ⟨-, rfl⟩ | ⟨s, hs, rfl⟩
  · exact .inl (List.mem_singleton.1 hrow)
  · obtain ⟨second, hsecond, rfl⟩ := List.mem_map.1 hrow
    refine .inr ⟨s, rfl, mem_standardsOf.1 hs, ?_⟩
    rintro k rfl
    rcases mem_optionalMatch.1 hsecond with ⟨-, hnone⟩ | ⟨id, hid, heq⟩
    · cases hnone
    · cases heq
      exact mem_controlsOf.1 hid

theorem standard_row {policyId s : String} (hs : Shows g (supportedBy policyId s)) :
    ∃ row ∈ treeRows scan g policyId, row.1 = some s := by
  have hmem : s ∈ standardsOf scan g policyId := mem_standardsOf.2 hs
  obtain ⟨second, hsecond⟩ : ∃ second, second ∈ optionalMatch (controlsOf scan g s) := by
    unfold optionalMatch
    split
    · exact ⟨none, by simp⟩
    · rename_i hne
      obtain ⟨k, hk⟩ := List.exists_mem_of_ne_nil _ hne
      exact ⟨some k, List.mem_map_of_mem hk⟩
  refine ⟨(some s, second), List.mem_flatMap.2 ⟨some s, ?_, List.mem_map_of_mem hsecond⟩, rfl⟩
  exact mem_optionalMatch.2 (.inr ⟨s, hmem, rfl⟩)

theorem control_row {policyId s k : String} (hs : Shows g (supportedBy policyId s)) (hk : Shows g (implementedBy s k)) :
    (some s, some k) ∈ treeRows scan g policyId := by
  refine List.mem_flatMap.2 ⟨some s, mem_optionalMatch.2 (.inr ⟨s, mem_standardsOf.2 hs, rfl⟩), ?_⟩
  exact List.mem_map_of_mem (mem_optionalMatch.2 (.inr ⟨k, mem_controlsOf.2 hk, rfl⟩))

theorem mem_groupRows {rows : List (Option String × Option String)} {entry : String × List String} :
    entry ∈ groupRows rows ↔ (∃ row ∈ rows, row.1 = some entry.1) ∧
      entry.2 = rows.filterMap fun row => if row.1 = some entry.1 then row.2 else none := by
  simp only [groupRows, List.mem_map, List.mem_eraseDups, List.mem_filterMap]
  constructor
  · rintro ⟨s, ⟨row, hrow, hs⟩, rfl⟩
    exact ⟨⟨row, hrow, hs⟩, rfl⟩
  · rintro ⟨⟨row, hrow, hs⟩, hcontrols⟩
    exact ⟨entry.1, ⟨row, hrow, hs⟩, Prod.ext rfl hcontrols.symm⟩

/-- **The tree that is read** is the Policy with the nodes under it. -/
theorem mem_treeNodes {policyId : String} {r : PolicyRecord} (h : readPolicyTree scan g policyId = some r) {n : NodeRef} :
    n ∈ r.treeNodes ↔ n = policyRef policyId ∨ Under g policyId n := by
  obtain ⟨p, -, rfl⟩ := Option.map_eq_some_iff.1 h
  simp only [PolicyRecord.treeNodes, List.mem_cons, List.flatMap_map, List.mem_flatMap, mem_groupRows, readStandard,
    List.map_map, List.mem_map]
  refine or_congr_right ⟨?_, ?_⟩
  · rintro ⟨⟨s, controls⟩, ⟨⟨row, hrow, hs⟩, hcontrols⟩, hn⟩
    rcases mem_treeRows hrow with rfl | ⟨s', hs', hshow, -⟩
    · cases hs
    obtain rfl : s' = s := Option.some.inj (hs'.symm.trans hs)
    refine ⟨s', hshow, ?_⟩
    rcases hn with rfl | ⟨k, hk, rfl⟩
    · exact .inl rfl
    · right
      simp only at hcontrols hk
      rw [hcontrols, List.mem_filterMap] at hk
      obtain ⟨row', hrow', hk⟩ := hk
      split at hk
      · rename_i hfirst
        rcases mem_treeRows hrow' with rfl | ⟨s'', hs'', -, hcontrol⟩
        · cases hfirst
        obtain rfl : s'' = s' := Option.some.inj (hs''.symm.trans hfirst)
        exact ⟨k, hcontrol k hk, rfl⟩
      · cases hk
  · rintro ⟨s, hs, hn⟩
    obtain ⟨row, hrow, hfirst⟩ := @standard_row scan g policyId s hs
    refine ⟨⟨s, (treeRows scan g policyId).filterMap fun row => if row.1 = some s then row.2 else none⟩,
      ⟨⟨row, hrow, hfirst⟩, rfl⟩, ?_⟩
    rcases hn with rfl | ⟨k, hk, rfl⟩
    · exact .inl rfl
    · right
      exact ⟨k, List.mem_filterMap.2 ⟨(some s, some k), control_row hs hk, if_pos rfl⟩, rfl⟩

/-- A fill goes to a node under the Policy. -/
theorem mem_unsetNodes {policyId : String} {n : NodeRef} (h : n ∈ unsetNodes g (treeRows scan g policyId)) :
    Under g policyId n ∧ (columns g n)["status"]? = none := by
  simp only [unsetNodes, List.mem_eraseDups, List.mem_filter, List.mem_flatMap, List.mem_append, Option.mem_toList,
    Option.map_eq_some_iff, decide_eq_true_eq] at h
  obtain ⟨⟨row, hrow, hn⟩, hunset⟩ := h
  refine ⟨?_, hunset⟩
  rcases mem_treeRows hrow with rfl | ⟨s, hs, hshow, hcontrol⟩
  · rcases hn with ⟨_, hcol, -⟩ | ⟨_, hcol, -⟩ <;> cases hcol
  rcases hn with ⟨s', hcol, rfl⟩ | ⟨k, hcol, rfl⟩
  · obtain rfl : s = s' := Option.some.inj (hs.symm.trans hcol)
    exact ⟨s, hshow, .inl rfl⟩
  · exact ⟨s, hshow, .inr ⟨k, hcontrol k hcol, rfl⟩⟩

/-! ## What a group offers -/

def policyOwner (g : Graph) (policyId : String) : Owner :=
  ((columns g (policyRef policyId))["owner_subject"]?, (columns g (policyRef policyId))["owner_issuer"]?)

def statusOf (g : Graph) (n : NodeRef) : Option PropertyValue := (columns g n)["status"]?

/-- **What other calls leave as it is**: nodes and tree edges stay, and so do the owners of Policies. -/
structure Rely (s s' : GraphState) : Prop where
  nodes : ∀ n, n ∈ s.graph.nodes → n ∈ s'.graph.nodes
  edges : ∀ r : EdgeRecord, r.relType ≠ "GOVERNED_BY" → Shows s.graph r → Shows s'.graph r
  owner : ∀ id, policyRef id ∈ s.graph.nodes → policyOwner s'.graph id = policyOwner s.graph id

theorem Rely.refl (s : GraphState) : Rely s s := ⟨fun _ h => h, fun _ _ h => h, fun _ _ => rfl⟩

theorem Rely.trans (a b c : GraphState) (h : Rely a b) (h' : Rely b c) : Rely a c where
  nodes n hn := h'.nodes n (h.nodes n hn)
  edges r hr hs := h'.edges r hr (h.edges r hr hs)
  owner id hid := (h'.owner id (h.nodes _ hid)).trans (h.owner id hid)

theorem Rely.under {s s' : GraphState} (h : Rely s s') {policyId : String} {n : NodeRef}
    (hn : Under s.graph policyId n) : Under s'.graph policyId n := by
  obtain ⟨x, hx, rfl | ⟨k, hk, rfl⟩⟩ := hn
  · exact ⟨x, h.edges _ (by simp [supportedBy]) hx, .inl rfl⟩
  · exact ⟨x, h.edges _ (by simp [supportedBy]) hx, .inr ⟨k, h.edges _ (by simp [implementedBy]) hk, rfl⟩⟩

/-- One fill of a backfill. -/
def Fills (g : Graph) (policyId : String) (p : Primitive) : Prop :=
  p = .mergeProperty (policyRef policyId) ((∅ : PropertyMap).insert "version" (text "1")) ∨
    ∃ n status, Under g policyId n ∧ p = .mergeProperty n (statusIs status)

/-- A primitive on a `GOVERNED_BY` edge. -/
def Governs : Primitive → Prop
  | .upsertEdge e _ => e.type = "GOVERNED_BY"
  | .deleteEdge e => e.type = "GOVERNED_BY"
  | _ => False

/-- The group of a transition: moved Capabilities, then the status of the Policy and of nodes under it. -/
structure Cascades (s : GraphState) (action : Transition) (actor : Actor) (policyId : String) (ps : List Primitive) :
    Prop where
  shape : ∃ moved nodes, ps = moved ++ statusMerges action.target nodes ∧
    (∀ p ∈ moved, Governs p) ∧ policyRef policyId ∈ nodes ∧
    ∀ n ∈ nodes, n = policyRef policyId ∨ Under s.graph policyId n
  stored : policyRef policyId ∈ s.graph.nodes
  approver : action = .approve → actor.asOwner ≠ policyOwner s.graph policyId

/-- The group of a draft edit, by the node its gate read. -/
inductive Edits : NodeRef → List Primitive → Prop where
  | patch {label : String} (id : String) (fields : ContentFields label) : Edits ⟨label, id⟩ (patchPrimitives id fields)
  | addStandard (policyId standardId title : String) (fields : ContentFields "Standard") :
    Edits (policyRef policyId) (addStandardPrimitives policyId standardId title fields)
  | addControl (standardId controlId title controlType : String) (fields : ContentFields "Control") :
    Edits (standardRef standardId) (addControlPrimitives standardId controlId title controlType fields)

/-- **The shape of a group**, and what of the graph it relies on, by its purpose. -/
def Offers (s : GraphState) (group : Group) : Prop :=
  match group.purpose with
  | .stamp => ∃ edges : List EdgeBase, group.primitives = edges.map .stampEdgeIdentity
  | .backfill policyId => ∀ p ∈ group.primitives, Fills s.graph policyId p
  | .create actor policyId => ∃ (new : NewPolicy) (capabilityIds : List String), new.policyId = policyId ∧
      new.owner = actor ∧ group.primitives = new.primitives ++ claimPrimitives policyId capabilityIds
  | .transition action actor policyId => Cascades s action actor policyId group.primitives
  | .edit gate => Edits gate group.primitives

/-! ## Rules of the calls -/

section Rules

variable {gw : Gateway} {h : Hashing} {α : Type} {s : GraphState}

/-- What a call asks and gives. -/
abbrev Asks (p : Call α) (P : GraphState → α → Prop) (s : GraphState) : Prop := p.wp Rely Offers P s

theorem asks_query {f : Graph → α} {P : GraphState → α → Prop} (hP : ∀ s', Rely s s' → P s' (f s'.graph)) :
    Asks (query f) P s := hP

theorem asks_gate {allowed : Bool} {P : GraphState → Unit → Prop} (hP : allowed = true → P s ()) :
    Asks (gate allowed) P s := by
  unfold gate
  split
  · rename_i hyes
    exact hP hyes
  · trivial

theorem asks_need {found : Option α} {P : GraphState → α → Prop} (hP : ∀ a, found = some a → P s a) :
    Asks (need found) P s := by
  cases found with
  | none => trivial
  | some a => exact hP a rfl

theorem asks_ensureStamped {P : GraphState → ℕ → Prop} (hP : ∀ s' n, Rely s s' → P s' n) :
    Asks (ensureStamped gw) P s := by
  refine Flow.wp_bind (asks_query fun s₁ h₁ => ?_)
  split
  · exact hP s₁ 0 h₁
  · refine Flow.wp_bind (Flow.wp_ask (fun s₂ _ => ⟨_, rfl⟩) fun answer s₂ s₃ h₂ h₃ => ?_)
    split
    · exact hP s₃ _ (Rely.trans _ _ _ h₁ (Rely.trans _ _ _ h₂ h₃))
    · trivial

theorem asks_submit {group : Group} {P : GraphState → Bool → Prop} (hoffer : ∀ s', Rely s s' → Offers s' group)
    (hP : ∀ s' applied, Rely s s' → P s' applied) : Asks (submit group) P s := by
  refine Flow.wp_bind (Flow.wp_ask hoffer fun answer s₁ s₂ h₁ h₂ => ?_)
  have h₀₂ : Rely s s₂ := Rely.trans _ _ _ h₁ h₂
  split
  · exact hP s₂ true h₀₂
  · exact hP s₂ false h₀₂
  · trivial

theorem asks_submitGroup {purpose : Purpose} {ps : List Primitive} {P : GraphState → Unit → Prop}
    (hoffer : ps ≠ [] → ∀ s', Rely s s' → Offers s' ⟨purpose, ps, none⟩) (hP : ∀ s', Rely s s' → P s' ()) :
    Asks (submitGroup gw purpose ps) P s := by
  unfold submitGroup
  split
  · exact hP s (Rely.refl s)
  · rename_i hne
    refine Flow.wp_bind (asks_ensureStamped fun s₁ n h₁ => ?_)
    refine Flow.wp_bind (asks_submit (fun s₂ h₂ => hoffer hne s₂ (Rely.trans _ _ _ h₁ h₂)) fun s₂ b h₂ => ?_)
    exact hP s₂ (Rely.trans _ _ _ h₁ h₂)

theorem fills_backfill {scan : ScanOrder} {g : Graph} {policyId : String} :
    ∀ p ∈ backfillPrimitives scan g policyId, Fills g policyId p := by
  intro p hp
  unfold backfillPrimitives at hp
  split at hp
  · cases hp
  · rcases List.mem_append.1 hp with hp | hp
    · split at hp
      · exact .inl (List.mem_singleton.1 hp)
      · cases hp
    · split at hp
      · cases hp
      · rename_i status _
        obtain ⟨n, hn, rfl⟩ := List.mem_map.1 hp
        exact .inr ⟨n, status, (mem_unsetNodes hn).1, rfl⟩

theorem asks_backfill {policyId : String} {P : GraphState → Unit → Prop} (hP : ∀ s', Rely s s' → P s' ()) :
    Asks (backfillGovernanceStatus gw policyId) P s := by
  refine Flow.wp_bind (asks_query fun s₁ h₁ => ?_)
  refine asks_submitGroup (fun _ s₂ h₂ => ?_) fun s₂ h₂ => hP s₂ (Rely.trans _ _ _ h₁ h₂)
  intro p hp
  rcases fills_backfill p hp with hp | ⟨n, status, hn, hp⟩
  · exact .inl hp
  · exact .inr ⟨n, status, h₂.under hn, hp⟩

/-- The record of a Policy is of the graph it was read from. -/
theorem readPolicyTree_spec {scan : ScanOrder} {g : Graph} {policyId : String} {r : PolicyRecord}
    (hr : readPolicyTree scan g policyId = some r) :
    policyRef policyId ∈ g.nodes ∧ r.owner = policyOwner g policyId ∧ r.status = statusOf g (policyRef policyId) := by
  obtain ⟨p, hp, rfl⟩ := Option.map_eq_some_iff.1 hr
  refine ⟨ExtTreeMap.mem_iff_isSome_getElem?.2 (by rw [hp]; rfl), ?_, ?_⟩
  · simp only [PolicyRecord.owner, policyOwner, columns_eq, hp, Option.bind_some]
  · simp only [statusOf, columns_eq, hp, Option.bind_some]

theorem asks_readTransitionTarget {policyId : String} {P : GraphState → PolicyRecord → Prop}
    (hP : ∀ s' r, Rely s s' → readPolicyTree gw.scan s'.graph policyId = some r → P s' r) :
    Asks (readTransitionTarget gw policyId) P s := by
  refine Flow.wp_bind (asks_backfill fun s₁ h₁ => ?_)
  refine Flow.wp_bind (asks_query fun s₂ h₂ => ?_)
  exact asks_need fun r hr => hP s₂ r (Rely.trans _ _ _ h₁ h₂) hr

theorem cascadePrimitives_shape {scan : ScanOrder} {g : Graph} {policyId target : String}
    (hstored : policyRef policyId ∈ g.nodes) :
    ∃ nodes, cascadePrimitives scan g policyId target = statusMerges target nodes ∧
      ∀ n, n ∈ nodes ↔ n = policyRef policyId ∨ Under g policyId n := by
  unfold cascadePrimitives
  split
  · rename_i hnone
    simp [readPolicyTree, hstored] at hnone
  · rename_i r hr
    refine ⟨_, rfl, fun n => ?_⟩
    rw [List.mem_eraseDups]
    exact mem_treeNodes hr

/-- A cascade read at one moment is offered at any later one. -/
theorem cascades_later {s s' : GraphState} {scan : ScanOrder} {action : Transition} {actor : Actor} {policyId : String}
    (moved : List Primitive) (hs : Rely s s') (hstored : policyRef policyId ∈ s.graph.nodes)
    (hmoved : ∀ p ∈ moved, Governs p) (happrove : action = .approve → actor.asOwner ≠ policyOwner s.graph policyId) :
    Cascades s' action actor policyId (moved ++ cascadePrimitives scan s.graph policyId action.target) where
  shape := by
    obtain ⟨nodes, heq, hmem⟩ := @cascadePrimitives_shape scan s.graph policyId action.target hstored
    refine ⟨moved, nodes, by rw [heq], hmoved, (hmem _).2 (.inl rfl), fun n hn => ?_⟩
    exact ((hmem n).1 hn).imp_right hs.under
  stored := hs.nodes _ hstored
  approver hact := by
    rw [hs.owner policyId hstored]
    exact happrove hact

theorem asks_cascadeStatus {action : Transition} {actor : Actor} {policyId : String} {P : GraphState → Unit → Prop}
    (hstored : policyRef policyId ∈ s.graph.nodes)
    (happrove : action = .approve → actor.asOwner ≠ policyOwner s.graph policyId) (hP : ∀ s', Rely s s' → P s' ()) :
    Asks (cascadeStatus gw action actor policyId) P s := by
  refine Flow.wp_bind (asks_query fun s₁ h₁ => ?_)
  refine asks_submitGroup (fun _ s₂ h₂ => ?_) fun s₂ h₂ => hP s₂ (Rely.trans _ _ _ h₁ h₂)
  exact cascades_later [] h₂ (h₁.nodes _ hstored) (by simp) fun hact => by
    rw [h₁.owner policyId hstored]
    exact happrove hact

theorem governs_repoint {policyId priorId : String} {capabilityIds : List String} :
    ∀ p ∈ repointPrimitives policyId priorId capabilityIds, Governs p := by
  intro p hp
  simp only [repointPrimitives, claimPrimitives, List.mem_append, List.mem_map] at hp
  rcases hp with ⟨_, -, rfl⟩ | ⟨_, -, rfl⟩
  · rfl
  · rfl

theorem asks_writeApproval {actor : Actor} {policyId : String} {repoint : Option ForkGovernance}
    {P : GraphState → Unit → Prop} (hstored : policyRef policyId ∈ s.graph.nodes)
    (hother : actor.asOwner ≠ policyOwner s.graph policyId) (hP : ∀ s', Rely s s' → P s' ()) :
    Asks (writeApproval gw actor policyId repoint) P s := by
  cases repoint with
  | none => exact asks_cascadeStatus hstored (fun _ => hother) hP
  | some repoint =>
    refine Flow.wp_bind ?_
    refine Flow.wp_bind (Flow.wp_get fun s₁ h₁ => ?_)
    refine Flow.wp_bind (asks_query fun s₂ h₂ => ?_)
    have h₀₂ : Rely s s₂ := Rely.trans _ _ _ h₁ h₂
    split
    · exact asks_gate fun hno => absurd hno (by simp)
    · refine Flow.wp_bind (asks_ensureStamped fun s₃ n h₃ => ?_)
      refine Flow.wp_bind (asks_query fun s₄ h₄ => ?_)
      have h₀₄ : Rely s s₄ := Rely.trans _ _ _ h₀₂ (Rely.trans _ _ _ h₃ h₄)
      refine asks_submit (fun s₅ h₅ => ?_) fun s₅ b h₅ => asks_gate fun _ => hP s₅ (Rely.trans _ _ _ h₀₄ h₅)
      refine cascades_later _ h₅ (h₀₄.nodes _ hstored) governs_repoint fun _ => ?_
      rw [h₀₄.owner policyId hstored]
      exact hother

theorem asks_deprecatePrior {actor : Actor} {policyId : String} :
    Asks (deprecatePrior gw actor policyId) (fun _ _ => True) s := by
  refine Flow.wp_bind (asks_query fun s₁ h₁ => ?_)
  split
  · trivial
  · refine Flow.wp_bind (asks_query fun s₂ h₂ => ?_)
    split
    · trivial
    · rename_i r hr
      exact asks_cascadeStatus (readPolicyTree_spec hr).1 (fun hact => by cases hact) fun _ _ => trivial

theorem owner_of_blockSelfApproval {ctx : RuleContext} (hgate : blockSelfApproval ctx = true) :
    ctx.actor.asOwner ≠ ctx.owner := of_decide_eq_true hgate

theorem asks_approvePolicy {access : Access} {actor : Actor} {policyId : String} :
    Asks (approvePolicy gw access actor policyId) (fun _ _ => True) s := by
  refine Flow.wp_bind (asks_readTransitionTarget fun s₁ r h₁ hr => ?_)
  obtain ⟨hstored, howner, -⟩ := readPolicyTree_spec hr
  refine Flow.wp_bind (asks_gate fun _ => ?_)
  refine Flow.wp_bind (asks_gate fun hblock => ?_)
  refine Flow.wp_bind (asks_gate fun _ => ?_)
  refine Flow.wp_bind (asks_query fun s₂ h₂ => ?_)
  have hother : actor.asOwner ≠ policyOwner s₂.graph policyId := by
    rw [h₂.owner policyId hstored, ← howner]
    exact owner_of_blockSelfApproval hblock
  exact Flow.wp_bind (asks_writeApproval (h₂.nodes _ hstored) hother fun _ _ => asks_deprecatePrior)

theorem asks_newVersion {supersedes : Option String} {P : GraphState → String → Prop}
    (hP : ∀ s' version, Rely s s' → P s' version) : Asks (newVersion gw supersedes) P s := by
  cases supersedes with
  | none => exact hP s _ (Rely.refl s)
  | some priorId =>
    refine Flow.wp_bind (asks_readTransitionTarget fun s₁ r h₁ _ => ?_)
    exact Flow.wp_bind (asks_gate fun _ => asks_need fun version _ => hP s₁ version h₁)

theorem asks_writeUnclaimed {new : NewPolicy} : Asks (writeUnclaimed gw new) (fun _ _ => True) s := by
  refine Flow.wp_bind (asks_gate fun _ => ?_)
  refine asks_submitGroup (fun _ s' _ => ⟨new, [], rfl, rfl, ?_⟩) fun _ _ => trivial
  exact (List.append_nil _).symm

theorem asks_writeClaimed {new : NewPolicy} {capabilityIds : List String} :
    Asks (writeClaimed gw new capabilityIds) (fun _ _ => True) s := by
  refine Flow.wp_bind (Flow.wp_get fun s₁ _ => ?_)
  refine Flow.wp_bind (asks_query fun s₂ _ => ?_)
  refine Flow.wp_bind (asks_gate fun _ => ?_)
  refine Flow.wp_bind (asks_ensureStamped fun s₃ n _ => ?_)
  refine Flow.wp_bind (asks_gate fun _ => ?_)
  refine Flow.wp_bind (asks_submit (fun _ _ => ?_) fun _ _ _ => asks_gate fun _ => trivial)
  exact ⟨new, capabilityIds, rfl, rfl, rfl⟩

theorem asks_createPolicyDraft {actor : Actor} {title : String} {standards : List StandardDraftInput}
    {supersedes : Option String} {capabilityIds : List String} :
    Asks (createPolicyDraft gw h actor title standards supersedes capabilityIds) (fun _ _ => True) s := by
  -- what it has read decides what it writes, never where its groups go
  have hend : ∀ (s' : GraphState) (version policyId : String) (claimed : List String) (drafts : Option (List StandardDraft)),
      Asks (do
        let drafts ← need drafts
        let new : NewPolicy := ⟨policyId, title, actor, drafts, supersedes, version⟩
        if claimed = [] then writeUnclaimed gw new else writeClaimed gw new claimed) (fun _ _ => True) s' := by
    intro s' version policyId claimed drafts
    refine Flow.wp_bind (asks_need fun drafts _ => ?_)
    simp only
    split
    · exact asks_writeUnclaimed
    · exact asks_writeClaimed
  refine Flow.wp_bind (asks_newVersion fun s₁ version _ => ?_)
  refine Flow.wp_bind (asks_query fun s₂ _ => ?_)
  refine Flow.wp_bind (asks_gate fun _ => ?_)
  refine Flow.wp_bind (asks_query fun s₃ _ => ?_)
  refine Flow.wp_bind (asks_gate fun _ => ?_)
  cases supersedes with
  | none => exact Flow.wp_bind (Flow.wp_pure (hend _ _ _ _ _))
  | some priorId => exact Flow.wp_bind (asks_query fun s₄ _ => hend _ _ _ _ _)

theorem asks_edit {node : NodeRef} {ps : List Primitive} (hedit : Edits node ps) :
    Asks (submitGroup gw (.edit node) ps) (fun _ _ => True) s :=
  asks_submitGroup (fun _ _ _ => hedit) fun _ _ => trivial

theorem asks_standardWithParent {standardId : String} {P : GraphState → StandardWithParent → Prop}
    (hP : ∀ s' row, P s' row) : Asks (readStandardWithParentBackfilled gw standardId) P s := by
  refine Flow.wp_bind (asks_query fun s₁ _ => ?_)
  refine Flow.wp_bind (asks_need fun row _ => ?_)
  refine Flow.wp_bind (asks_backfill fun s₂ _ => ?_)
  exact Flow.wp_bind (asks_query fun s₃ _ => asks_need fun row' _ => hP s₃ row')

theorem asks_controlWithParent {controlId : String} {P : GraphState → ControlWithParent → Prop}
    (hP : ∀ s' row, P s' row) : Asks (readControlWithParentBackfilled gw controlId) P s := by
  refine Flow.wp_bind (asks_query fun s₁ _ => ?_)
  refine Flow.wp_bind (asks_need fun row _ => ?_)
  refine Flow.wp_bind (asks_backfill fun s₂ _ => ?_)
  exact Flow.wp_bind (asks_query fun s₃ _ => asks_need fun row' _ => hP s₃ row')

/-- **Every call** submits only groups of these shapes, whatever the others do within the rely. -/
theorem flow_asks (call : LifecycleCall) : Asks (call.flow gw h) (fun _ _ => True) s := by
  cases call with
  | createPolicyDraft actor title standards supersedes capabilityIds => exact asks_createPolicyDraft
  | getPolicy policyId => exact Flow.wp_bind (asks_readTransitionTarget fun _ _ _ _ => trivial)
  | proposePolicy actor policyId =>
    refine Flow.wp_bind (asks_readTransitionTarget fun s₁ r h₁ hr => ?_)
    refine Flow.wp_bind (asks_gate fun _ => Flow.wp_bind (asks_gate fun _ => Flow.wp_bind (asks_gate fun _ => ?_)))
    exact asks_cascadeStatus (readPolicyTree_spec hr).1 (fun hact => by cases hact) fun _ _ => trivial
  | approvePolicy access actor policyId => exact asks_approvePolicy
  | rejectPolicy access actor policyId =>
    refine Flow.wp_bind (asks_readTransitionTarget fun s₁ r h₁ hr => ?_)
    refine Flow.wp_bind (asks_gate fun _ => Flow.wp_bind (asks_gate fun _ => Flow.wp_bind (asks_gate fun _ => ?_)))
    exact asks_cascadeStatus (readPolicyTree_spec hr).1 (fun hact => by cases hact) fun _ _ => trivial
  | revertPolicyToDraft actor policyId =>
    refine Flow.wp_bind (asks_readTransitionTarget fun s₁ r h₁ hr => ?_)
    refine Flow.wp_bind (asks_gate fun _ => Flow.wp_bind (asks_gate fun _ => ?_))
    exact asks_cascadeStatus (readPolicyTree_spec hr).1 (fun hact => by cases hact) fun _ _ => trivial
  | updatePolicyDraft access actor policyId fields =>
    refine Flow.wp_bind (asks_readTransitionTarget fun s₁ r _ _ => ?_)
    exact Flow.wp_bind (asks_gate fun _ => asks_edit (.patch policyId fields))
  | addStandardToDraft access actor policyId title fields =>
    refine Flow.wp_bind (asks_readTransitionTarget fun s₁ r _ _ => ?_)
    exact Flow.wp_bind (asks_gate fun _ => asks_edit (.addStandard policyId _ title fields))
  | updateStandardDraft access actor standardId fields =>
    refine Flow.wp_bind (asks_standardWithParent fun s₁ row => ?_)
    exact Flow.wp_bind (asks_gate fun _ => asks_edit (.patch standardId fields))
  | addControlToDraft access actor standardId title controlType fields =>
    refine Flow.wp_bind (asks_standardWithParent fun s₁ row => ?_)
    exact Flow.wp_bind (asks_gate fun _ => asks_edit (.addControl standardId _ title controlType fields))
  | updateControlDraft access actor controlId fields =>
    refine Flow.wp_bind (asks_controlWithParent fun s₁ row => ?_)
    exact Flow.wp_bind (asks_gate fun _ => asks_edit (.patch controlId fields))

theorem start_asks {calls : ℕ → LifecycleCall} : (Lifecycle.start gw h s calls).Asks Rely Offers :=
  fun c => flow_asks (calls c)

end Rules

end PolicySystem.PolicyLifecycle
