import PolicySystem.PolicyLifecycle.StatusMachine

/-!
# The content of a proposed Policy

Content edits and status cascades over the runs of concurrent lifecycle calls. An edit writes after its gate was
read, so it may take effect on a Policy that was proposed meanwhile.

* `Guarded`: no Standard or Control of a Policy past draft is itself a draft, and none has two parents;
* `guarded_step`, `frozen_step`: what a group keeps that takes effect while what its call read is still current;
* `content_frozen`: over a run of such steps, edits take effect on drafts only, and the tree of a Policy past draft
  keeps its content.
-/

namespace PolicySystem.PolicyLifecycle

open Std (ExtTreeMap)
open Interleaved PropertyGraph GraphWrite

/-! ## Links and touched nodes -/

/-- The node a primitive writes. -/
def Touches (p : Primitive) (n : NodeRef) : Prop :=
  match p with
  | .upsertNode m _ _ => m = n
  | .mergeProperty m _ => m = n
  | .removeProperty m _ => m = n
  | .deleteNode m => m = n
  | _ => False

theorem Sets.touches {p : Primitive} {n : NodeRef} {key : String} (h : Sets p n key) : Touches p n := by
  cases p with
  | upsertNode => exact h.1
  | mergeProperty => exact h.1
  | removeProperty => exact h.1
  | deleteNode => exact h
  | _ => exact h.elim

/-- The edges a list of primitives upserts. -/
def Links (ps : List Primitive) (r : EdgeRecord) : Prop :=
  ∃ e props, Primitive.upsertEdge e props ∈ ps ∧ e.edgeKey.record = r

theorem applyOne_shows_old {g : Graph} {p : Primitive} {r : EdgeRecord} (h : Shows (applyOne g p) r) :
    Shows g r ∨ Links [p] r := by
  obtain ⟨k, rfl, hk⟩ := shows_iff.1 h
  have hold : g.edgesAt k ≠ 0 → Shows g k.record := fun h0 => shows_iff.2 ⟨k, rfl, h0⟩
  cases p with
  | stampEdgeIdentity e =>
    left
    rw [applyOne_stamp, stampEdge_edgesAt] at hk
    split at hk
    · exact absurd rfl hk
    · split at hk
      · rename_i hkey
        subst hkey
        by_cases hedge : g.edgesAt e.edgeKey = 0
        · -- the edge was there without its identity
          rw [hedge, zero_add] at hk
          exact shows_iff.2 ⟨e.unidentifiedKey, rfl, hk⟩
        · exact hold hedge
      · exact hold hk
  | upsertEdge e props =>
    rw [applyOne_eq_write rfl, write_edgesAt] at hk
    simp only [edgeStep] at hk
    split at hk
    · rename_i hkey
      exact .inr ⟨e, props, List.mem_singleton.2 rfl, by rw [hkey]⟩
    · exact .inl (hold hk)
  | deleteEdge e =>
    rw [applyOne_eq_write rfl, write_edgesAt] at hk
    simp only [edgeStep] at hk
    split at hk
    · exact absurd rfl hk
    · exact .inl (hold hk)
  | deleteNode m =>
    rw [applyOne_eq_write rfl, write_edgesAt] at hk
    simp only [edgeStep] at hk
    split at hk
    · exact absurd rfl hk
    · exact .inl (hold hk)
  | upsertNode m props e =>
    rw [applyOne_eq_write rfl, write_edgesAt] at hk
    exact .inl (hold hk)
  | mergeProperty m props =>
    rw [applyOne_eq_write rfl, write_edgesAt] at hk
    exact .inl (hold hk)
  | removeProperty m keys =>
    rw [applyOne_eq_write rfl, write_edgesAt] at hk
    exact .inl (hold hk)

/-- An edge shown after was shown before, or is upserted. -/
theorem shows_after {ps : List Primitive} {g : Graph} {r : EdgeRecord} (h : Shows (applyAll g ps) r) :
    Shows g r ∨ Links ps r := by
  induction ps generalizing g with
  | nil => exact .inl h
  | cons p ps ih =>
    rcases ih h with hone | ⟨e, props, hmem, heq⟩
    · rcases applyOne_shows_old hone with hold | ⟨e, props, hmem, heq⟩
      · exact .inl hold
      · exact .inr ⟨e, props, List.mem_cons.2 (.inl (List.mem_singleton.1 hmem)), heq⟩
    · exact .inr ⟨e, props, List.mem_cons_of_mem _ hmem, heq⟩

/-- A property after is the one before, or is put there. -/
def Puts (p : Primitive) (n : NodeRef) (key : String) (v : PropertyValue) : Prop :=
  match p with
  | .upsertNode m properties _ => m = n ∧ properties[key]? = some v
  | .mergeProperty m properties => m = n ∧ properties[key]? = some v
  | _ => False

theorem applyOne_puts {g : Graph} {p : Primitive} {n : NodeRef} {key : String} {v : PropertyValue}
    (h : (columns (applyOne g p) n)[key]? = some v) : (columns g n)[key]? = some v ∨ Puts p n key v := by
  rw [columns_eq] at h ⊢
  obtain ⟨content, hcontent, hv⟩ := Option.bind_eq_some_iff.1 h
  cases p with
  | stampEdgeIdentity e => exact .inl h
  | upsertEdge e props =>
    rw [applyOne_eq_write rfl, write_nodes] at h
    exact .inl h
  | deleteEdge e =>
    rw [applyOne_eq_write rfl, write_nodes] at h
    exact .inl h
  | deleteNode m =>
    rw [applyOne_eq_write rfl, write_nodes, nodeStep] at h
    split at h
    · cases h
    · exact .inl h
  | removeProperty m keys =>
    left
    rw [applyOne_eq_write rfl, write_nodes, nodeStep] at hcontent
    split at hcontent
    · obtain ⟨old, hold, rfl⟩ := Option.map_eq_some_iff.1 hcontent
      rw [NodeContent.remove_properties] at hv
      split at hv
      · cases hv
      · rw [hold]
        exact hv
    · rw [hcontent]
      exact hv
  | mergeProperty m props =>
    rw [applyOne_eq_write rfl, write_nodes, nodeStep] at hcontent
    split at hcontent
    · rename_i hm
      obtain ⟨old, hold, rfl⟩ := Option.map_eq_some_iff.1 hcontent
      simp only [NodeContent.merge, ExtTreeMap.getElem?_union] at hv
      cases hp : props[key]? with
      | none =>
        rw [hp] at hv
        left
        rw [hold]
        exact hv
      | some u =>
        rw [hp] at hv
        exact .inr ⟨hm, by rw [hp]; exact hv⟩
    · left
      rw [hcontent]
      exact hv
  | upsertNode m props e =>
    rw [applyOne_eq_write rfl, write_nodes, nodeStep] at hcontent
    split at hcontent
    · rename_i hm
      obtain rfl := Option.some.inj hcontent
      simp only [NodeContent.upsert, ExtTreeMap.getElem?_union] at hv
      cases hp : props[key]? with
      | none =>
        rw [hp] at hv
        left
        cases hn : g.nodes[n]? with
        | none =>
          rw [hn] at hv
          simp [default] at hv
        | some old =>
          rw [hn] at hv
          exact hv
      | some u =>
        rw [hp] at hv
        exact .inr ⟨hm, by rw [hp]; exact hv⟩
    · left
      rw [hcontent]
      exact hv

theorem applyAll_puts {ps : List Primitive} {g : Graph} {n : NodeRef} {key : String} {v : PropertyValue}
    (h : (columns (applyAll g ps) n)[key]? = some v) : (columns g n)[key]? = some v ∨ ∃ p ∈ ps, Puts p n key v := by
  induction ps generalizing g with
  | nil => exact .inl h
  | cons p ps ih =>
    rcases ih h with hone | ⟨q, hq, hputs⟩
    · exact (applyOne_puts hone).imp_right fun hputs => ⟨p, by simp, hputs⟩
    · exact .inr ⟨q, List.mem_cons_of_mem _ hq, hputs⟩

/-! ## Trees -/

/-- The Policy or a node under it. -/
def InTree (g : Graph) (id : String) (n : NodeRef) : Prop := n = policyRef id ∨ Under g id n

theorem under_standard {g : Graph} {id s : String} : Under g id (standardRef s) ↔ Shows g (supportedBy id s) := by
  constructor
  · rintro ⟨s', hs, heq | ⟨k, -, heq⟩⟩
    · obtain rfl : s = s' := (NodeRef.mk.inj heq).2
      exact hs
    · exact absurd heq (by simp [standardRef, controlRef])
  · intro hs
    exact ⟨s, hs, .inl rfl⟩

theorem under_control {g : Graph} {id k : String} :
    Under g id (controlRef k) ↔ ∃ s, Shows g (supportedBy id s) ∧ Shows g (implementedBy s k) := by
  constructor
  · rintro ⟨s, hs, heq | ⟨k', hk, heq⟩⟩
    · exact absurd heq (by simp [standardRef, controlRef])
    · obtain rfl : k = k' := (NodeRef.mk.inj heq).2
      exact ⟨s, hs, hk⟩
  · rintro ⟨s, hs, hk⟩
    exact ⟨s, hs, .inr ⟨k, hk, rfl⟩⟩

theorem under_cases {g : Graph} {id : String} {n : NodeRef} (h : Under g id n) :
    (∃ s, n = standardRef s) ∨ ∃ k, n = controlRef k := by
  obtain ⟨s, -, rfl | ⟨k, -, rfl⟩⟩ := h
  · exact .inl ⟨s, rfl⟩
  · exact .inr ⟨k, rfl⟩

/-- The Policy is proposed, approved or deprecated. -/
def Closed (g : Graph) (id : String) : Prop :=
  statusOf g (policyRef id) = some (text "proposed") ∨ statusOf g (policyRef id) = some (text "approved") ∨
    statusOf g (policyRef id) = some (text "deprecated")

theorem Closed.not_draft {g : Graph} {id : String} (h : Closed g id) :
    statusOf g (policyRef id) ≠ some (text "draft") := by
  rcases h with h | h | h <;> rw [h] <;> decide

/-- **No gate of an edit is open under a Policy past draft**: its Standards and Controls are no drafts, and no node has
two parents. -/
structure Guarded (g : Graph) : Prop where
  standard : ∀ id id' s, Shows g (supportedBy id s) → Shows g (supportedBy id' s) → id = id'
  control : ∀ s s' k, Shows g (implementedBy s k) → Shows g (implementedBy s' k) → s = s'
  aligned : ∀ id n, Closed g id → Under g id n → statusOf g n ≠ some (text "draft")

/-- In a guarded graph a node is under one Policy. -/
theorem Guarded.root {g : Graph} (hg : Guarded g) {id id' : String} {n : NodeRef} (h : Under g id n)
    (h' : Under g id' n) : id = id' := by
  rcases under_cases h with ⟨s, rfl⟩ | ⟨k, rfl⟩
  · exact hg.standard _ _ _ (under_standard.1 h) (under_standard.1 h')
  · obtain ⟨s, hs, hk⟩ := under_control.1 h
    obtain ⟨s', hs', hk'⟩ := under_control.1 h'
    obtain rfl := hg.control _ _ _ hk hk'
    exact hg.standard _ _ _ hs hs'

/-! ## Current groups -/

/-- No Standard or Control the group links gets a second parent. -/
structure SoleParent (g : Graph) (ps : List Primitive) : Prop where
  standard : ∀ id id' s, Links ps (supportedBy id s) →
    Shows g (supportedBy id' s) ∨ Links ps (supportedBy id' s) → id = id'
  control : ∀ s s' k, Links ps (implementedBy s k) →
    Shows g (implementedBy s' k) ∨ Links ps (implementedBy s' k) → s = s'

/-- What the call of a group read is still current: an edit's gate is a draft, a create finds no such Policy, a cascade
past draft reaches the whole tree, a fill carries the Policy's status. -/
def Fresh (g : Graph) (group : Group) : Prop :=
  match group.purpose with
  | .stamp => True
  | .backfill id => ∀ n v, .mergeProperty n (statusIs v) ∈ group.primitives → statusOf g (policyRef id) = some v
  | .create _ id => policyRef id ∉ g.nodes
  | .transition action _ id => action.target ≠ "draft" →
      ∀ n, Under g id n → .mergeProperty n (statusIs (text action.target)) ∈ group.primitives
  | .edit gate => statusOf g gate = some (text "draft")

/-- **The group takes effect on what its call read**, and mints no id another tree has. -/
structure Current (g : Graph) (group : Group) : Prop where
  parents : SoleParent g group.primitives
  fresh : Fresh g group

/-! ## What a group links and touches -/

theorem links_child {parent child : NodeRef} {props : PropertyMap} {edgeType : String} {r : EdgeRecord}
    (h : Links (childPrimitives parent child props edgeType) r) :
    r = ⟨edgeType, parent.label, parent.id, child.label, child.id⟩ := by
  obtain ⟨e, props', hmem, rfl⟩ := h
  rcases List.mem_cons.1 hmem with heq | hmem
  · cases heq
  · obtain ⟨rfl, -⟩ := Primitive.upsertEdge.inj (List.mem_singleton.1 hmem)
    rfl

theorem touches_child {parent child : NodeRef} {props : PropertyMap} {edgeType : String} {p : Primitive} {n : NodeRef}
    (hp : p ∈ childPrimitives parent child props edgeType) (h : Touches p n) : n = child := by
  rcases List.mem_cons.1 hp with rfl | hp
  · exact h.symm
  · obtain rfl := List.mem_singleton.1 hp
    exact h.elim

theorem links_self {parent child : NodeRef} {props : PropertyMap} {edgeType : String} {ps : List Primitive}
    (h : ∀ p ∈ childPrimitives parent child props edgeType, p ∈ ps) :
    Links ps ⟨edgeType, parent.label, parent.id, child.label, child.id⟩ :=
  ⟨edgeBetween edgeType parent child, ∅, h _ (by simp [childPrimitives]), rfl⟩

/-- Which children a list of primitives comes from. -/
inductive MintedBy (id : String) (ps : List Primitive) (p : Primitive) : Prop where
  | policy (props : PropertyMap) (h : p = .upsertNode (policyRef id) props none)
  | other (e : EdgeBase) (props : PropertyMap) (h : p = .upsertEdge e props)
      (htype : e.type = "SUPERSEDED_BY" ∨ e.type = "GOVERNED_BY")
  | standard (s : String) (props : PropertyMap)
      (h : p ∈ childPrimitives (policyRef id) (standardRef s) props "SUPPORTED_BY")
      (hs : Links ps (supportedBy id s))
  | control (s k : String) (props : PropertyMap)
      (h : p ∈ childPrimitives (standardRef s) (controlRef k) props "IMPLEMENTED_BY")
      (hs : Links ps (supportedBy id s)) (hk : Links ps (implementedBy s k))

/-- Every primitive of a create mints its Policy, a Standard of it or a Control of one of these. -/
theorem mintedBy_create {new : NewPolicy} {capabilityIds : List String} {ps : List Primitive}
    (hps : ps = new.primitives ++ claimPrimitives new.policyId capabilityIds) {p : Primitive} (hp : p ∈ ps) :
    MintedBy new.policyId ps p := by
  -- the children of a draft are in the group as a whole
  have hin : ∀ d ∈ new.standards, ∀ q ∈ StandardDraft.primitives new.policyId d, q ∈ ps := by
    intro d hd q hq
    rw [hps, NewPolicy.primitives_claims]
    refine List.mem_cons_of_mem _ (List.mem_append_right _ (List.mem_append_left _ ?_))
    exact List.mem_flatMap.2 ⟨d, hd, hq⟩
  have hstandard : ∀ d ∈ new.standards, Links ps (supportedBy new.policyId d.id) := fun d hd =>
    links_self fun q hq => hin d hd q (List.mem_append_left _ hq)
  rw [hps, NewPolicy.primitives_claims] at hp
  rcases List.mem_cons.1 hp with rfl | hp
  · exact .policy _ rfl
  rcases List.mem_append.1 hp with hp | hp
  · obtain ⟨prior, -, rfl⟩ := Option.map_eq_some_iff.1 (Option.mem_toList.1 hp)
    exact .other _ _ rfl (.inl rfl)
  rcases List.mem_append.1 hp with hp | hp
  · obtain ⟨d, hd, hp⟩ := List.mem_flatMap.1 hp
    rcases List.mem_append.1 hp with hp | hp
    · exact .standard d.id _ hp (hstandard d hd)
    · obtain ⟨control, hcontrol, hp⟩ := List.mem_flatMap.1 hp
      have hlink : Links ps (implementedBy d.id control.id) :=
        @links_self (standardRef d.id) (controlRef control.id) control.properties "IMPLEMENTED_BY" ps fun q hq =>
          hin d hd q (List.mem_append_right _ (List.mem_flatMap.2 ⟨control, hcontrol, hq⟩))
      exact .control d.id control.id _ hp (hstandard d hd) hlink
  · obtain ⟨capability, -, rfl⟩ := List.mem_map.1 hp
    exact .other _ _ rfl (.inr rfl)

theorem links_patch {label id : String} {fields : ContentFields label} {r : EdgeRecord} :
    ¬ Links (patchPrimitives id fields) r := by
  rintro ⟨e, props, hmem, -⟩
  rcases mem_patchPrimitives hmem with h | h <;> cases h

/-! ## The tree of a Policy past draft -/

/-- The group neither links nor touches a node of the Policy's tree. -/
structure Foreign (g : Graph) (ps : List Primitive) (id : String) : Prop where
  standard : ∀ s, ¬ Links ps (supportedBy id s)
  control : ∀ s k, Shows g (supportedBy id s) → ¬ Links ps (implementedBy s k)
  touches : ∀ p ∈ ps, ∀ n, Touches p n → ¬ InTree g id n

theorem foreign_create {g : Graph} {new : NewPolicy} {capabilityIds : List String} {ps : List Primitive} {id : String}
    (hps : ps = new.primitives ++ claimPrimitives new.policyId capabilityIds) (hparents : SoleParent g ps)
    (hne : id ≠ new.policyId) : Foreign g ps id where
  standard s hlinks := by
    obtain ⟨e, props, hmem, heq⟩ := hlinks
    rcases mintedBy_create hps hmem with ⟨_, h⟩ | ⟨e', _, h, htype⟩ | ⟨s', _, h, -⟩ | ⟨s', k', _, h, -, -⟩
    · cases h
    · obtain ⟨rfl, -⟩ := Primitive.upsertEdge.inj h
      have : e.type = "SUPPORTED_BY" := congrArg EdgeRecord.relType heq
      rcases htype with ht | ht <;> rw [this] at ht <;> exact absurd ht (by decide)
    · have := links_child ⟨e, props, h, heq⟩
      exact hne (congrArg EdgeRecord.sourceId this)
    · have := congrArg EdgeRecord.relType (links_child ⟨e, props, h, heq⟩)
      exact absurd this (by simp [supportedBy])
  control s k hs hlinks := by
    obtain ⟨e, props, hmem, heq⟩ := hlinks
    rcases mintedBy_create hps hmem with ⟨_, h⟩ | ⟨e', _, h, htype⟩ | ⟨s', _, h, -⟩ | ⟨s', k', _, h, hs', -⟩
    · cases h
    · obtain ⟨rfl, -⟩ := Primitive.upsertEdge.inj h
      have : e.type = "IMPLEMENTED_BY" := congrArg EdgeRecord.relType heq
      rcases htype with ht | ht <;> rw [this] at ht <;> exact absurd ht (by decide)
    · have := congrArg EdgeRecord.relType (links_child ⟨e, props, h, heq⟩)
      exact absurd this (by simp [implementedBy])
    · obtain rfl : s = s' := congrArg EdgeRecord.sourceId (links_child ⟨e, props, h, heq⟩)
      exact hne (hparents.standard _ _ _ hs' (.inl hs)).symm
  touches p hp n hn htree := by
    rcases mintedBy_create hps hp with ⟨_, rfl⟩ | ⟨e', _, rfl, -⟩ | ⟨s', _, h, hs'⟩ | ⟨s', k', _, h, hs', hk'⟩
    · obtain rfl : policyRef new.policyId = n := hn
      rcases htree with heq | hunder
      · exact hne (NodeRef.mk.inj heq).2.symm
      · exact hunder.ne_policy rfl
    · exact hn
    · obtain rfl := touches_child h hn
      rcases htree with heq | hunder
      · exact standardRef_ne heq
      · exact hne (hparents.standard _ _ _ hs' (.inl (under_standard.1 hunder))).symm
    · obtain rfl := touches_child h hn
      rcases htree with heq | hunder
      · exact controlRef_ne heq
      · obtain ⟨s, hs, hk⟩ := under_control.1 hunder
        obtain rfl := hparents.control _ _ _ hk' (.inl hk)
        exact hne (hparents.standard _ _ _ hs' (.inl hs)).symm

theorem foreign_edit {g : Graph} {node : NodeRef} {ps : List Primitive} {id : String} (hedit : Edits node ps)
    (hg : Guarded g) (hparents : SoleParent g ps) (hdraft : statusOf g node = some (text "draft")) (hclosed : Closed g id) :
    Foreign g ps id := by
  -- the gate is in no tree past draft
  have hgate : ¬ InTree g id node := by
    rintro (rfl | hunder)
    · exact hclosed.not_draft hdraft
    · exact hg.aligned id node hclosed hunder hdraft
  cases hedit with
  | patch nodeId fields =>
    refine ⟨fun s => links_patch, fun s k _ => links_patch, fun p hp n hn htree => hgate ?_⟩
    rcases mem_patchPrimitives hp with rfl | rfl
    · obtain rfl : _ = n := hn
      exact htree
    · obtain rfl : _ = n := hn
      exact htree
  | addStandard policyId standardId title fields =>
    have hne : policyId ≠ id := fun heq => hgate (.inl (congrArg policyRef heq))
    have hlink : Links (addStandardPrimitives policyId standardId title fields) (supportedBy policyId standardId) :=
      links_self fun _ hq => hq
    refine ⟨fun s hlinks => ?_, fun s k _ hlinks => ?_, fun p hp n hn htree => ?_⟩
    · exact hne (congrArg EdgeRecord.sourceId (links_child hlinks)).symm
    · exact absurd (congrArg EdgeRecord.relType (links_child hlinks)) (by simp [implementedBy])
    · obtain rfl := touches_child hp hn
      rcases htree with heq | hunder
      · exact standardRef_ne heq
      · exact hne (hparents.standard _ _ _ hlink (.inl (under_standard.1 hunder)))
  | addControl standardId controlId title controlType fields =>
    have hnot : ¬ Shows g (supportedBy id standardId) := fun hs => hgate (.inr (under_standard.2 hs))
    have hlink : Links (addControlPrimitives standardId controlId title controlType fields)
        (implementedBy standardId controlId) := links_self fun _ hq => hq
    refine ⟨fun s hlinks => ?_, fun s k hs hlinks => ?_, fun p hp n hn htree => ?_⟩
    · exact absurd (congrArg EdgeRecord.relType (links_child hlinks)) (by simp [supportedBy])
    · obtain rfl : s = standardId := congrArg EdgeRecord.sourceId (links_child hlinks)
      exact hnot hs
    · obtain rfl := touches_child hp hn
      rcases htree with heq | hunder
      · exact controlRef_ne heq
      · obtain ⟨s, hs, hk⟩ := under_control.1 hunder
        obtain rfl := hparents.control _ _ _ hlink (.inl hk)
        exact hnot hs

theorem Foreign.under {g : Graph} {ps : List Primitive} {id : String} (hf : Foreign g ps id) {n : NodeRef}
    (h : Under (applyAll g ps) id n) : Under g id n := by
  obtain ⟨s, hs, hn⟩ := h
  have hold : Shows g (supportedBy id s) := (shows_after hs).resolve_right (hf.standard s)
  refine ⟨s, hold, hn.imp_right ?_⟩
  rintro ⟨k, hk, rfl⟩
  exact ⟨k, (shows_after hk).resolve_right (hf.control s k hold), rfl⟩

/-! ## Groups that leave trees and content -/

/-- The group links no tree and sets statuses and versions only. -/
structure Quiet (ps : List Primitive) : Prop where
  links : ∀ r : EdgeRecord, r.relType ≠ "GOVERNED_BY" → ¬ Links ps r
  sets : ∀ p ∈ ps, ∀ n key, Sets p n key → key = "status" ∨ key = "version"

theorem Quiet.under {g : Graph} {ps : List Primitive} (hq : Quiet ps) {id : String} {n : NodeRef}
    (h : Under (applyAll g ps) id n) : Under g id n := by
  obtain ⟨s, hs, hn⟩ := h
  refine ⟨s, (shows_after hs).resolve_right (hq.links _ (by simp [supportedBy])), hn.imp_right ?_⟩
  rintro ⟨k, hk, rfl⟩
  exact ⟨k, (shows_after hk).resolve_right (hq.links _ (by simp [implementedBy])), rfl⟩

/-- The purposes of the groups that leave trees and content. -/
def Purpose.IsQuiet : Purpose → Prop
  | stamp => True
  | backfill _ => True
  | transition _ _ _ => True
  | _ => False

theorem Offers.quiet {s : GraphState} {group : Group} (h : Offers s group) (hquiet : group.purpose.IsQuiet) :
    Quiet group.primitives := by
  obtain ⟨purpose, ps, expected⟩ := group
  cases purpose with
  | stamp =>
    obtain ⟨edges, rfl⟩ : ∃ edges : List EdgeBase, ps = edges.map .stampEdgeIdentity := h
    refine ⟨fun r _ hlinks => ?_, fun p hp n key hs => ?_⟩
    · obtain ⟨e, props, hmem, -⟩ := hlinks
      obtain ⟨_, -, heq⟩ := List.mem_map.1 hmem
      cases heq
    · obtain ⟨_, -, rfl⟩ := List.mem_map.1 hp
      exact hs.elim
  | backfill policyId =>
    refine ⟨fun r _ hlinks => ?_, fun p hp n key hs => ?_⟩
    · obtain ⟨e, props, hmem, -⟩ := hlinks
      rcases h _ hmem with heq | ⟨_, _, -, heq⟩ <;> cases heq
    · rcases h p hp with rfl | ⟨m, status, -, rfl⟩
      · exact .inr (mem_single.1 hs.2)
      · exact .inl (mem_single.1 hs.2)
  | transition action actor policyId =>
    obtain ⟨moved, nodes, heq, hmoved, -, -⟩ := h.shape
    obtain rfl : ps = moved ++ statusMerges action.target nodes := heq
    refine ⟨fun r hr hlinks => ?_, fun p hp n key hs => ?_⟩
    · obtain ⟨e, props, hmem, rfl⟩ := hlinks
      rcases List.mem_append.1 hmem with hmem | hmem
      · exact hr (hmoved _ hmem)
      · obtain ⟨_, -, heq⟩ := List.mem_map.1 hmem
        cases heq
    · rcases List.mem_append.1 hp with hp | hp
      · exact absurd hs.touches (by
          have hgov := hmoved p hp
          cases p with
          | upsertEdge => exact fun htouch => htouch
          | deleteEdge => exact fun htouch => htouch
          | _ => exact hgov.elim)
      · obtain ⟨m, -, rfl⟩ := List.mem_map.1 hp
        exact .inl (mem_single.1 hs.2)
  | create => exact hquiet.elim
  | edit => exact hquiet.elim

/-! ## One step -/

/-- The Policy's tree is the same, and so is what its nodes hold, but for statuses and versions. -/
structure SameTree (g g' : Graph) (id : String) : Prop where
  nodes : ∀ n, InTree g' id n ↔ InTree g id n
  content : ∀ n, InTree g id n → ∀ key, key ≠ "status" → key ≠ "version" → (columns g' n)[key]? = (columns g n)[key]?

theorem SameTree.refl (g : Graph) (id : String) : SameTree g g id := ⟨fun _ => .rfl, fun _ _ _ _ _ => rfl⟩

theorem SameTree.trans {g g' g'' : Graph} {id : String} (h : SameTree g g' id) (h' : SameTree g' g'' id) :
    SameTree g g'' id where
  nodes n := (h'.nodes n).trans (h.nodes n)
  content n hn key hs hv := (h'.content n ((h.nodes n).2 hn) key hs hv).trans (h.content n hn key hs hv)

section Step

variable {s : GraphState} {group : Group} {id : String}

/-- A group of the other purposes is foreign to the tree of a Policy past draft. -/
theorem foreign_of_closed (hg : Guarded s.graph) (hoffer : Offers s group) (hcurrent : Current s.graph group)
    (hnot : ¬ group.purpose.IsQuiet) (hclosed : Closed s.graph id) : Foreign s.graph group.primitives id := by
  obtain ⟨purpose, ps, expected⟩ := group
  obtain ⟨hparents, hfresh⟩ := hcurrent
  cases purpose with
  | create actor policyId =>
    obtain ⟨new, capabilityIds, rfl, -, heq⟩ := hoffer
    refine foreign_create heq hparents fun hid => ?_
    -- a Policy past draft is there, the created one is not
    rw [hid] at hclosed
    rcases hclosed with h | h | h <;> exact hfresh (stored_of_status h)
  | edit node => exact foreign_edit hoffer hg hparents hfresh hclosed
  | _ => exact absurd trivial hnot

/-- **The tree of a Policy past draft** keeps its nodes and their content. -/
theorem frozen_step (hg : Guarded s.graph) (hoffer : Offers s group) (hcurrent : Current s.graph group)
    (hclosed : Closed s.graph id) : SameTree s.graph (applyAll s.graph group.primitives) id := by
  have hrely : ∀ n, Under s.graph id n → Under (applyAll s.graph group.primitives) id n := by
    have ho := outcome hoffer
    rintro n ⟨x, hx, hn⟩
    refine ⟨x, ho.edges _ (by simp [supportedBy]) hx, hn.imp_right ?_⟩
    rintro ⟨k, hk, rfl⟩
    exact ⟨k, ho.edges _ (by simp [implementedBy]) hk, rfl⟩
  by_cases hquiet : group.purpose.IsQuiet
  · have hq := hoffer.quiet hquiet
    refine ⟨fun n => or_congr_right ⟨hq.under, hrely n⟩, fun n _ key hstatus hversion => ?_⟩
    refine applyAll_columns (fun p hp hs => ?_) s.graph
    rcases hq.sets p hp n key hs with h | h
    · exact hstatus h
    · exact hversion h
  · have hf := foreign_of_closed hg hoffer hcurrent hquiet hclosed
    refine ⟨fun n => or_congr_right ⟨hf.under, hrely n⟩, fun n hn key _ _ => ?_⟩
    exact applyAll_columns (fun p hp hs => hf.touches p hp n hs.touches hn) s.graph

/-- **An edit** takes effect on no tree of a Policy past draft. -/
theorem open_step (hg : Guarded s.graph) (hoffer : Offers s group) (hcurrent : Current s.graph group) {gate : NodeRef}
    (hedit : group.purpose = .edit gate) {p : Primitive} (hp : p ∈ group.primitives) {n : NodeRef} (hn : Touches p n)
    (htree : InTree s.graph id n ∨ InTree (applyAll s.graph group.primitives) id n) : ¬ Closed s.graph id := by
  intro hclosed
  have hf := foreign_of_closed hg hoffer hcurrent (by rw [hedit]; exact fun h => h) hclosed
  rcases htree with htree | htree
  · exact hf.touches p hp n hn htree
  · exact hf.touches p hp n hn (htree.imp_right hf.under)

theorem not_puts_of_governs {p : Primitive} (h : Governs p) {n : NodeRef} {key : String} {v : PropertyValue} :
    ¬ Puts p n key v := by
  cases p with
  | upsertEdge => exact fun hputs => hputs
  | deleteEdge => exact fun hputs => hputs
  | _ => exact h.elim

/-- No Standard or Control of a Policy past draft becomes a draft. -/
theorem aligned_step (hg : Guarded s.graph) (hoffer : Offers s group) (hcurrent : Current s.graph group) {n : NodeRef}
    (hclosed : Closed (applyAll s.graph group.primitives) id) (hunder : Under (applyAll s.graph group.primitives) id n) :
    statusOf (applyAll s.graph group.primitives) n ≠ some (text "draft") := by
  intro hdraft
  have ho := outcome hoffer
  -- only its own transition closes a Policy
  have hbefore : (∀ action actor, group.purpose ≠ .transition action actor id) → Closed s.graph id := by
    intro hnot
    by_cases hpolicy : group.purpose.policy = some id
    · cases hpurpose : group.purpose with
      | create actor policyId =>
        rw [hpurpose] at hpolicy
        obtain rfl : policyId = id := Option.some.inj hpolicy
        exact absurd (ho.created _ _ hpurpose).1 hclosed.not_draft
      | transition action actor policyId =>
        rw [hpurpose] at hpolicy
        obtain rfl : policyId = id := Option.some.inj hpolicy
        exact absurd hpurpose (hnot _ _)
      | _ =>
        rw [hpurpose] at hpolicy
        cases hpolicy
    · unfold Closed at hclosed ⊢
      rwa [(ho.others id hpolicy).1] at hclosed
  by_cases hquiet : group.purpose.IsQuiet
  · have hold := (hoffer.quiet hquiet).under hunder
    obtain ⟨purpose, ps, expected⟩ := group
    cases purpose with
    | stamp =>
      rcases applyAll_puts hdraft with h | ⟨p, hp, hputs⟩
      · exact hg.aligned id n (hbefore (fun _ _ heq => by cases heq)) hold h
      · obtain ⟨edges, heq⟩ := hoffer
        obtain ⟨e, -, rfl⟩ := List.mem_map.1 (heq ▸ hp)
        exact hputs
    | backfill policyId =>
      have hcl := hbefore fun _ _ heq => by cases heq
      rcases applyAll_puts hdraft with h | ⟨p, hp, hputs⟩
      · exact hg.aligned id n hcl hold h
      · rcases hoffer p hp with rfl | ⟨m, status, hm, rfl⟩
        · have hmem : "status" ∈ (∅ : PropertyMap).insert "version" (text "1") :=
            ExtTreeMap.mem_iff_isSome_getElem?.2 (by rw [hputs.2]; rfl)
          exact absurd (mem_single.1 hmem) (by decide)
        · -- the fill carries the Policy's own status, and it is past draft
          obtain ⟨rfl, hv⟩ := hputs
          obtain rfl : status = text "draft" := by simpa only [statusIs, ExtTreeMap.getElem?_insert_self, Option.some.injEq] using hv
          obtain rfl : policyId = id := hg.root hm hold
          exact hcl.not_draft (hcurrent.fresh m _ hp)
    | transition action actor policyId =>
      obtain ⟨moved, nodes, heq, hmoved, hin, hnodes⟩ := hoffer.shape
      obtain rfl : ps = moved ++ statusMerges action.target nodes := heq
      by_cases hid : policyId = id
      · subst hid
        obtain ⟨hstored, hstatus, -, -⟩ := ho.moved action actor policyId rfl
        have htarget : action.target ≠ "draft" := by
          intro ht
          exact hclosed.not_draft (hstatus.trans (by rw [ht]))
        have hmerge := hcurrent.fresh htarget n hold
        have hmem : n ∈ nodes := by
          rcases List.mem_append.1 hmerge with h | h
          · exact (hmoved _ h).elim
          · obtain ⟨m, hm, hmeq⟩ := List.mem_map.1 h
            rw [← (Primitive.mergeProperty.inj hmeq).1]
            exact hm
        have hthere : n ∈ s.graph.nodes := by
          obtain ⟨x, hx, rfl | ⟨k, hk, rfl⟩⟩ := hold
          · obtain ⟨e, he, hrec⟩ := hx
            have := (s.graph.closed e he).2
            rwa [show (Incidence.target e.1 : NodeRef) = standardRef x from congrArg EdgeRecord.target hrec] at this
          · obtain ⟨e, he, hrec⟩ := hk
            have := (s.graph.closed e he).2
            rwa [show (Incidence.target e.1 : NodeRef) = controlRef k from congrArg EdgeRecord.target hrec] at this
        have hset := @statusMerges_sets nodes n action.target hmem (applyAll s.graph moved)
          (applyAll_mem (fun p hp => grows_of_governs (hmoved p hp)) hthere)
        rw [applyAll_append, hset] at hdraft
        simp only [Option.some.injEq, text, PropertyValue.scalar.injEq, Scalar.str.injEq] at hdraft
        exact htarget hdraft
      · have hcl := hbefore fun _ _ heq => hid (Purpose.transition.inj heq).2.2
        rcases applyAll_puts hdraft with h | ⟨p, hp, hputs⟩
        · exact hg.aligned id n hcl hold h
        · rcases List.mem_append.1 hp with hp | hp
          · exact not_puts_of_governs (hmoved p hp) hputs
          · obtain ⟨m, hm, rfl⟩ := List.mem_map.1 hp
            obtain ⟨rfl, -⟩ := hputs
            rcases hnodes m hm with rfl | hunder'
            · exact hold.ne_policy rfl
            · exact hid (hg.root hunder' hold)
    | create => exact hquiet.elim
    | edit => exact hquiet.elim
  · have hcl : Closed s.graph id := by
      refine hbefore fun action actor heq => hquiet ?_
      rw [heq]
      trivial
    have hf := foreign_of_closed hg hoffer hcurrent hquiet hcl
    have hold := hf.under hunder
    have hsame : statusOf (applyAll s.graph group.primitives) n = statusOf s.graph n :=
      applyAll_columns (fun p hp hs => hf.touches p hp n hs.touches (.inr hold)) s.graph
    exact hg.aligned id n hcl hold (hsame ▸ hdraft)

/-- **A current group keeps the graph guarded.** -/
theorem guarded_step (hg : Guarded s.graph) (hoffer : Offers s group) (hcurrent : Current s.graph group) :
    Guarded (applyAll s.graph group.primitives) where
  standard id id' x h h' := by
    rcases shows_after h, shows_after h' with ⟨hold | hnew, hold' | hnew'⟩
    · exact hg.standard _ _ _ hold hold'
    · exact (hcurrent.parents.standard _ _ _ hnew' (.inl hold)).symm
    · exact hcurrent.parents.standard _ _ _ hnew (.inl hold')
    · exact hcurrent.parents.standard _ _ _ hnew (.inr hnew')
  control x x' k h h' := by
    rcases shows_after h, shows_after h' with ⟨hold | hnew, hold' | hnew'⟩
    · exact hg.control _ _ _ hold hold'
    · exact (hcurrent.parents.control _ _ _ hnew' (.inl hold)).symm
    · exact hcurrent.parents.control _ _ _ hnew (.inl hold')
    · exact hcurrent.parents.control _ _ _ hnew (.inr hnew')
  aligned id n hclosed hunder := aligned_step hg hoffer hcurrent hclosed hunder

end Step

/-! ## Runs -/

/-- The group the event of a history commits, if any, is current. -/
def CurrentAt (gw : Gateway) (w₀ : Lifecycle) (past : List (CallerStep Answer)) (e : CallerStep Answer) : Prop :=
  ∀ w w' group, after (Lifecycle.step gw) w₀ past = some w → Commits gw w e group w' → Current w.shared.graph group

/-- Where the event of a history commits an edit, every Policy whose tree holds a node it writes, before or after, is not
proposed, approved or deprecated. -/
def OpenAt (gw : Gateway) (w₀ : Lifecycle) (past : List (CallerStep Answer)) (e : CallerStep Answer) : Prop :=
  ∀ w w' group gate, after (Lifecycle.step gw) w₀ past = some w → Commits gw w e group w' →
    group.purpose = .edit gate → ∀ p ∈ group.primitives, ∀ n, Touches p n →
    ∀ id, InTree w.shared.graph id n ∨ InTree w'.shared.graph id n → ¬ Closed w.shared.graph id

/-- The Policy is proposed, approved or deprecated in every state the events pass, the first and the last included. -/
def ClosedOver (gw : Gateway) (w₀ : Lifecycle) (past mid : List (CallerStep Answer)) (id : String) : Prop :=
  ∀ done rest m, mid = done ++ rest → after (Lifecycle.step gw) w₀ (past ++ done) = some m → Closed m.shared.graph id

section Runs

variable {gw : Gateway} {w₀ w w' : Lifecycle} {e : CallerStep Answer} {past : List (CallerStep Answer)}

theorem rely_of_current {s : GraphState} {group : Group} {n : ℕ} (hoffer : Offers s group)
    (hcurrent : Current s.graph group) : Rely s ⟨applyAll s.graph group.primitives, n⟩ := by
  have ho := outcome hoffer
  refine ⟨ho.nodes, ho.edges, fun id hid => ?_⟩
  by_cases hpolicy : group.purpose.policy = some id
  · cases hpurpose : group.purpose with
    | create actor policyId =>
      rw [hpurpose] at hpolicy
      obtain rfl : policyId = id := Option.some.inj hpolicy
      have hfresh := hcurrent.fresh
      unfold Fresh at hfresh
      rw [hpurpose] at hfresh
      exact absurd hid hfresh
    | transition action actor policyId =>
      rw [hpurpose] at hpolicy
      obtain rfl : policyId = id := Option.some.inj hpolicy
      exact (ho.moved _ _ _ hpurpose).2.2.1
    | _ =>
      rw [hpurpose] at hpolicy
      cases hpolicy
  · exact (ho.others id hpolicy).2.1

/-- A run of current groups keeps what the calls ask and keeps the graph guarded. -/
theorem guarded_after {history : List (CallerStep Answer)} (hw₀ : w₀.Asks Rely Offers) (hg₀ : Guarded w₀.shared.graph)
    (hcurrent : Throughout (CurrentAt gw w₀) history) (hrun : after (Lifecycle.step gw) w₀ history = some w) :
    w.Asks Rely Offers ∧ Guarded w.shared.graph := by
  refine after_induct (C := CurrentAt gw w₀)
    (I := fun past w => after (Lifecycle.step gw) w₀ past = some w ∧ w.Asks Rely Offers ∧ Guarded w.shared.graph)
    ⟨rfl, hw₀, hg₀⟩ ?_ hcurrent hrun |>.2
  rintro past w e w' ⟨hpast, hw, hg⟩ hnow hstep
  refine ⟨after_snoc.2 ⟨w, hpast, hstep⟩, ?_, ?_⟩
  · refine hw.step Rely.refl Rely.trans hstep fun group s hcarries => ?_
    rcases carries_cases hcarries with rfl | ⟨w'', hcommit, rfl⟩
    · exact Rely.refl _
    · have hoffer := hw.met Rely.refl hcarries
      have hgraph := commits_graph hcommit
      have hshared : w''.shared = ⟨applyAll w.shared.graph group.primitives, w''.shared.position⟩ := by
        rw [← hgraph]
      rw [hshared]
      exact rely_of_current hoffer (hnow w w'' group hpast hcommit)
  · rcases step_graph hstep with hsame | ⟨group, hcommit⟩
    · rw [hsame]
      exact hg
    · rw [commits_graph hcommit]
      exact guarded_step hg (hw.met Rely.refl (commits_carries hcommit)) (hnow w w' group hpast hcommit)

/-- While a Policy is past draft, current groups leave its tree. -/
theorem frozen_over {mid : List (CallerStep Answer)} {id : String} (hw₀ : w₀.Asks Rely Offers)
    (hg₀ : Guarded w₀.shared.graph) (hcurrent : Throughout (CurrentAt gw w₀) (past ++ mid))
    (hrun : after (Lifecycle.step gw) w₀ past = some w) (hclosed : ClosedOver gw w₀ past mid id)
    (hrun' : after (Lifecycle.step gw) w₀ (past ++ mid) = some w') :
    SameTree w.shared.graph w'.shared.graph id := by
  induction mid using List.reverseRecOn generalizing w' with
  | nil =>
    rw [List.append_nil] at hrun'
    obtain rfl : w = w' := Option.some.inj (hrun.symm.trans hrun')
    exact SameTree.refl _ _
  | append_singleton mid e ih =>
    rw [← List.append_assoc] at hcurrent hrun'
    obtain ⟨m, hm, hstep⟩ := after_snoc.1 hrun'
    have hsame := ih hcurrent.init (fun done rest m' heq => hclosed done (rest ++ [e]) m' (by simp [heq])) hm
    obtain ⟨hasks, hg⟩ := guarded_after hw₀ hg₀ hcurrent.init hm
    rcases step_graph hstep with hstay | ⟨group, hcommit⟩
    · rw [hstay]
      exact hsame
    · have hnow := frozen_step hg (hasks.met Rely.refl (commits_carries hcommit)) (hcurrent.last m w' group hm hcommit)
        (hclosed mid [e] m rfl hm)
      rw [← commits_graph hcommit] at hnow
      exact hsame.trans hnow

end Runs

/-- **What is approved is what was proposed**, over every run whose groups take effect on what their calls read: edits
write to no tree of a proposed, approved or deprecated Policy, and from its proposal on, until it is a draft again, a
Policy's tree keeps its nodes and their content. -/
theorem content_frozen (gw : Gateway) (h : Hashing) (s : GraphState) (calls : ℕ → LifecycleCall)
    (history : List (CallerStep Answer)) (hg : Guarded s.graph)
    (hcurrent : Throughout (CurrentAt gw (Lifecycle.start gw h s calls)) history) :
    Throughout (OpenAt gw (Lifecycle.start gw h s calls)) history ∧
    ∀ past mid future id, history = past ++ mid ++ future → ∀ w w',
      after (Lifecycle.step gw) (Lifecycle.start gw h s calls) past = some w →
      after (Lifecycle.step gw) (Lifecycle.start gw h s calls) (past ++ mid) = some w' →
      ClosedOver gw (Lifecycle.start gw h s calls) past mid id → SameTree w.shared.graph w'.shared.graph id := by
  have hstart : (Lifecycle.start gw h s calls).Asks Rely Offers := start_asks
  constructor
  · intro past e future heq w w' group gate hrun hcommit hedit p hp n hn id htree
    have hpast : Throughout (CurrentAt gw (Lifecycle.start gw h s calls)) past := by
      intro past' f future' heq'
      exact hcurrent past' f (future' ++ e :: future) (by simp [heq, heq'])
    obtain ⟨hasks, hguarded⟩ := guarded_after hstart hg hpast hrun
    rw [commits_graph hcommit] at htree
    exact open_step hguarded (hasks.met Rely.refl (commits_carries hcommit))
      (hcurrent past e future heq w w' group hrun hcommit) hedit hp hn htree
  · intro past mid future id heq w w' hrun hrun' hclosed
    refine frozen_over hstart hg ?_ hrun hclosed hrun'
    intro past' f future' heq'
    exact hcurrent past' f (future' ++ future) (by simp [heq, heq'])

/-! ## Runs on a small graph -/

/-- The group a caller is about to submit. -/
def pending (w : Lifecycle) (c : ℕ) : Option (Purpose × List Primitive) :=
  match w.flows c with
  | .request group _ => some (group.purpose, group.primitives)
  | _ => none

theorem pending_of_commits {gw : Gateway} {w w' : Lifecycle} {c : ℕ} {answer : Answer} {group : Group}
    (h : Commits gw w (.request c answer) group w') : pending w c = some (group.purpose, group.primitives) := by
  obtain ⟨⟨c', answer', k, -, heq, hflow⟩, -⟩ := h
  cases heq
  unfold pending
  rw [hflow]

theorem currentAt_read {gw : Gateway} {w₀ : Lifecycle} (past : List (CallerStep Answer)) (c : ℕ) :
    CurrentAt gw w₀ past (.read c) := by
  rintro w w' group - ⟨⟨c', answer, k, -, heq, -⟩, -⟩
  cases heq

/-- The graph and the group a caller is about to submit, after a history of the sample calls. -/
noncomputable def viewAfter (calls : ℕ → LifecycleCall) (history : List (CallerStep Answer)) (c : ℕ) :
    Option (Graph × Option (Purpose × List Primitive)) :=
  (after (Lifecycle.step sampleGateway) (Lifecycle.start sampleGateway sampleHashing ⟨∅, 0⟩ calls) history).map
    fun w => (w.shared.graph, pending w c)

/-- Where the view says what is pending, a commit is judged by it. -/
theorem currentAt_view {calls : ℕ → LifecycleCall} {past : List (CallerStep Answer)} {c : ℕ} {g : Graph}
    {purpose : Purpose} {ps : List Primitive} (hview : viewAfter calls past c = some (g, some (purpose, ps)))
    (hcurrent : ∀ expected, Current g ⟨purpose, ps, expected⟩) :
    CurrentAt sampleGateway (Lifecycle.start sampleGateway sampleHashing ⟨∅, 0⟩ calls) past (.request c .applied) := by
  intro w w' group hrun hcommit
  have hpending := pending_of_commits hcommit
  have heq : (w.shared.graph, pending w c) = (g, some (purpose, ps)) := by
    simpa [viewAfter, hrun] using hview
  rw [hpending] at heq
  obtain ⟨hgraph, hgroup⟩ := Prod.mk.inj heq
  obtain ⟨hpurpose, hps⟩ := Prod.mk.inj (Option.some.inj hgroup)
  rw [hgraph]
  obtain ⟨purpose', ps', expected⟩ := group
  cases hpurpose
  cases hps
  exact hcurrent expected

def sampleFields : ContentFields "Policy" := ⟨[("description", some "No limit.")], by decide, by decide +kernel⟩

/-- The owner creates, edits and proposes a Policy. -/
def editCalls : ℕ → LifecycleCall
  | 0 => .createPolicyDraft alice "Travel" [⟨"Expenses", []⟩] none []
  | 1 => .proposePolicy alice travelId
  | _ => .updatePolicyDraft ⟨fun _ => false, fun _ => false⟩ alice travelId sampleFields

/-- The edit has passed its gate when the proposal is written. -/
def proposeFirst : List (CallerStep Answer) :=
  reads 0 3 ++ applied 0 ++ reads 2 3 ++ reads 1 4 ++ applied 1

noncomputable def editView (history : List (CallerStep Answer)) :
    Option (Option PropertyValue × Option (Purpose × List Primitive)) :=
  (after (Lifecycle.step sampleGateway) (Lifecycle.start sampleGateway sampleHashing ⟨∅, 0⟩ editCalls) history).map
    fun w => (statusOf w.shared.graph (policyRef travelId), pending w 2)

/-- A proposed Policy is edited by the write of an edit that had passed its gate. -/
theorem edited_while_proposed : ¬ Throughout
    (OpenAt sampleGateway (Lifecycle.start sampleGateway sampleHashing ⟨∅, 0⟩ editCalls))
    (proposeFirst ++ [.request 2 .applied]) := by
  intro hopen
  have hbefore : editView proposeFirst = some (some (text "proposed"),
      some (.edit (policyRef travelId), patchPrimitives travelId sampleFields)) := by decide +kernel
  have hafter : (editView (proposeFirst ++ [.request 2 .applied])).isSome = true := by decide +kernel
  rw [editView, Option.isSome_map] at hafter
  obtain ⟨w', hrun'⟩ := Option.isSome_iff_exists.1 hafter
  obtain ⟨w, hrun, hstep⟩ := after_snoc.1 hrun'
  obtain ⟨hstatus, hpending⟩ : statusOf w.shared.graph (policyRef travelId) = some (text "proposed") ∧
      pending w 2 = some (.edit (policyRef travelId), patchPrimitives travelId sampleFields) := by
    simpa [editView, hrun] using hbefore
  unfold pending at hpending
  split at hpending
  · rename_i group k hflow
    obtain ⟨hpurpose, hps⟩ := Prod.mk.inj (Option.some.inj hpending)
    have hcommit : Commits sampleGateway w (.request 2 .applied) group w' :=
      ⟨⟨2, .applied, k, .inl rfl, rfl, hflow⟩, hstep⟩
    have hmem : Primitive.mergeProperty (policyRef travelId) sampleFields.values ∈ group.primitives := by
      rw [hps]
      decide +kernel
    exact hopen.last w w' group _ hrun hcommit hpurpose _ hmem (policyRef travelId) rfl travelId (.inl (.inl rfl))
      (.inl hstatus)
  · cases hpending

theorem not_shows_empty {r : EdgeRecord} : ¬ Shows ∅ r := by
  rintro ⟨e, he, -⟩
  exact Multiset.notMem_zero e he

theorem guarded_empty : Guarded ∅ :=
  ⟨fun _ _ _ h => absurd h not_shows_empty, fun _ _ _ h => absurd h not_shows_empty,
    fun _ _ _ ⟨_, h, _⟩ => absurd h not_shows_empty⟩

def newTravel : NewPolicy := ⟨travelId, "Travel", alice, [⟨"std_expenses_8efd86", "Expenses", [], {}⟩], none, "1"⟩

theorem links_newTravel {r : EdgeRecord} (h : Links newTravel.primitives r) :
    r = supportedBy travelId "std_expenses_8efd86" := by
  obtain ⟨e, props, hmem, rfl⟩ := h
  simp only [newTravel, NewPolicy.primitives, StandardDraft.primitives, childPrimitives, Option.map_none,
    Option.toList_none, List.flatMap_cons, List.flatMap_nil, List.append_nil, List.mem_cons,
    List.not_mem_nil, or_false, false_or, reduceCtorEq, Primitive.upsertEdge.injEq, List.nil_append,
    List.cons_append] at hmem
  rw [hmem.1]
  rfl

/-- The edit, then the proposal, each with all its steps. -/
def editFirst : List (CallerStep Answer) :=
  reads 0 3 ++ applied 0 ++ reads 2 3 ++ applied 2 ++ reads 1 4 ++ applied 1

theorem current_newTravel (expected : Option ℕ) : Current ∅ ⟨.create alice travelId, newTravel.primitives, expected⟩ where
  parents := by
    refine ⟨fun id id' x h h' => ?_, fun x x' k h _ => ?_⟩
    · have hid := congrArg EdgeRecord.sourceId (links_newTravel h)
      rcases h' with h' | h'
      · exact absurd h' not_shows_empty
      · exact hid.trans (congrArg EdgeRecord.sourceId (links_newTravel h')).symm
    · exact absurd (congrArg EdgeRecord.relType (links_newTravel h)) (by simp [implementedBy, supportedBy])
  fresh := by
    show policyRef travelId ∉ (∅ : Graph).nodes
    simp

theorem current_sampleEdit (expected : Option ℕ) : Current (applyAll ∅ newTravel.primitives)
    ⟨.edit (policyRef travelId), patchPrimitives travelId sampleFields, expected⟩ where
  parents := ⟨fun _ _ _ h => absurd h links_patch, fun _ _ _ h => absurd h links_patch⟩
  fresh := by
    show statusOf (applyAll ∅ newTravel.primitives) (policyRef travelId) = some (text "draft")
    decide +kernel

/-- The draft after the edit. -/
def editedTravel : Graph := applyAll (applyAll ∅ newTravel.primitives) (patchPrimitives travelId sampleFields)

theorem shows_editedTravel {r : EdgeRecord} (h : Shows editedTravel r) :
    r = supportedBy travelId "std_expenses_8efd86" := by
  rcases shows_after h with h | h
  · rcases shows_after h with h | h
    · exact absurd h not_shows_empty
    · exact links_newTravel h
  · exact absurd h links_patch

theorem current_samplePropose (expected : Option ℕ) : Current editedTravel ⟨.transition .propose alice travelId,
    statusMerges "proposed" [policyRef travelId, standardRef "std_expenses_8efd86"], expected⟩ where
  parents := by
    have hnone : ∀ r, ¬ Links (statusMerges "proposed" [policyRef travelId, standardRef "std_expenses_8efd86"]) r := by
      rintro r ⟨e, props, hmem, -⟩
      obtain ⟨_, -, heq⟩ := List.mem_map.1 hmem
      cases heq
    exact ⟨fun _ _ _ h => absurd h (hnone _), fun _ _ _ h => absurd h (hnone _)⟩
  fresh := by
    intro _ n hn
    obtain ⟨x, hx, rfl | ⟨k, hk, rfl⟩⟩ := hn
    · obtain rfl : x = "std_expenses_8efd86" := congrArg EdgeRecord.targetId (shows_editedTravel hx)
      exact List.mem_map.2 ⟨standardRef "std_expenses_8efd86", by simp, rfl⟩
    · exact absurd (congrArg EdgeRecord.relType (shows_editedTravel hk)) (by simp [implementedBy, supportedBy])

theorem editFirst_current : Throughout
    (CurrentAt sampleGateway (Lifecycle.start sampleGateway sampleHashing ⟨∅, 0⟩ editCalls)) editFirst := by
  have hreads : ∀ (c n : ℕ), ∀ past, ∀ e ∈ reads c n,
      CurrentAt sampleGateway (Lifecycle.start sampleGateway sampleHashing ⟨∅, 0⟩ editCalls) past e := by
    intro c n past e he
    rw [List.eq_of_mem_replicate he]
    exact currentAt_read past c
  have hempty : Throughout (CurrentAt sampleGateway (Lifecycle.start sampleGateway sampleHashing ⟨∅, 0⟩ editCalls)) [] := by
    intro past e future heq
    simp at heq
  have hcreate : viewAfter editCalls (reads 0 3) 0 =
      some (∅, some (.create alice travelId, newTravel.primitives)) := by decide +kernel
  have hedit : viewAfter editCalls (reads 0 3 ++ applied 0 ++ reads 2 3) 2 =
      some (applyAll ∅ newTravel.primitives, some (.edit (policyRef travelId), patchPrimitives travelId sampleFields)) := by
    decide +kernel
  have hpropose : viewAfter editCalls (reads 0 3 ++ applied 0 ++ reads 2 3 ++ applied 2 ++ reads 1 4) 1 =
      some (editedTravel, some (.transition .propose alice travelId,
        statusMerges "proposed" [policyRef travelId, standardRef "std_expenses_8efd86"])) := by decide +kernel
  have hcreated := (hempty.append (hreads 0 3)).snoc (currentAt_view hcreate current_newTravel)
  have hedited := (hcreated.append (hreads 2 3)).snoc (currentAt_view hedit current_sampleEdit)
  exact (hedited.append (hreads 1 4)).snoc (currentAt_view hpropose current_samplePropose)

/-- The edit is done before the Policy is proposed. -/
theorem content_frozen_edit : Throughout
    (OpenAt sampleGateway (Lifecycle.start sampleGateway sampleHashing ⟨∅, 0⟩ editCalls)) editFirst :=
  (content_frozen sampleGateway sampleHashing ⟨∅, 0⟩ editCalls editFirst guarded_empty editFirst_current).1

end PolicySystem.PolicyLifecycle
