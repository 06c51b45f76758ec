import PolicySystem.PolicyLifecycle.Coherence
import PolicySystem.Succession.Lineage

/-!
# Approved versions of a Policy

The Policies of a graph as versions that succeed one another, over calls one after another. An approval deprecates the
Policy its Policy was forked from; several forks may have been made of one.

* `versions`: approved Policies, `SUPERSEDED_BY` and the Capabilities Policies govern;
* `call_moves`: what each call does to them;
* `one_approved_iff`: a run keeps one approved Policy a lineage, with the Capabilities of its approved Policies, exactly
  where no approval leaves another Policy of the lineage approved.
-/

namespace PolicySystem.PolicyLifecycle

open Std (ExtTreeMap)
open Interleaved PropertyGraph GraphWrite
open Succession (State Lineage AtMostOne Held Ordered Stays Enters)

/-! ## Versions -/

def supersededBy (a b : String) : EdgeRecord := ⟨"SUPERSEDED_BY", "Policy", a, "Policy", b⟩

def governedBy (c id : String) : EdgeRecord := ⟨"GOVERNED_BY", "Capability", c, "Policy", id⟩

/-- The Policies as versions. -/
def versions (g : Graph) : State String String where
  inForce id := statusOf g (policyRef id) = some (text "approved")
  prior a b := Shows g (supersededBy a b)
  holds id c := Shows g (governedBy c id)

section Reads

variable {scan : ScanOrder} {g : Graph}

theorem mem_priors {id prior : String} :
    prior ∈ (edgeRows scan g supersededByPattern fun e => e.targetId = id).map EdgeRecord.sourceId ↔
      Shows g (supersededBy prior id) := by
  simp only [List.mem_map, mem_edgeRows]
  constructor
  · rintro ⟨⟨t, sl, x, tl, y⟩, ⟨hshow, ⟨rfl, rfl, rfl⟩, htarget⟩, rfl⟩
    obtain rfl : y = id := of_decide_eq_true htarget
    exact hshow
  · intro hshow
    exact ⟨_, ⟨hshow, ⟨rfl, rfl, rfl⟩, decide_eq_true rfl⟩, rfl⟩

theorem mem_governed {id c : String} :
    c ∈ (edgeRows scan g governorPattern fun e => e.targetId = id).map EdgeRecord.sourceId ↔
      Shows g (governedBy c id) := by
  simp only [List.mem_map, mem_edgeRows]
  constructor
  · rintro ⟨⟨t, sl, x, tl, y⟩, ⟨hshow, ⟨rfl, rfl, rfl⟩, htarget⟩, rfl⟩
    obtain rfl : y = id := of_decide_eq_true htarget
    exact hshow
  · intro hshow
    exact ⟨_, ⟨hshow, ⟨rfl, rfl, rfl⟩, decide_eq_true rfl⟩, rfl⟩

theorem findApprovedPrior_some {id prior : String} (h : findApprovedPrior scan g id = some prior) :
    Shows g (supersededBy prior id) ∧ statusOf g (policyRef prior) = some (text "approved") := by
  have happroved := List.find?_some h
  exact ⟨mem_priors.1 (List.mem_of_find?_eq_some h), by simpa [statusOf] using happroved⟩

theorem findApprovedPrior_none {id prior : String} (h : findApprovedPrior scan g id = none)
    (hprior : Shows g (supersededBy prior id)) : statusOf g (policyRef prior) ≠ some (text "approved") := by
  have hno := List.find?_eq_none.1 h prior (mem_priors.2 hprior)
  simpa [statusOf] using hno

/-- The governance that is read is that of a prior. -/
theorem readForkGovernance_some {id : String} {governance : ForkGovernance}
    (h : readForkGovernance scan g id = some governance) :
    Shows g (supersededBy governance.priorId id) ∧
      ∀ c, c ∈ governance.capabilityIds ↔ Shows g (governedBy c governance.priorId) := by
  obtain ⟨prior, hprior, rfl⟩ := Option.map_eq_some_iff.1 h
  have hmem := List.mem_of_mem_head? hprior
  refine ⟨mem_priors.1 hmem, fun c => ?_⟩
  simp only [List.mem_flatMap, List.mem_filter, decide_eq_true_eq]
  constructor
  · rintro ⟨x, -, hc⟩
    exact mem_governed.1 hc
  · intro hc
    exact ⟨prior, ⟨hmem, rfl⟩, mem_governed.2 hc⟩

theorem readForkGovernance_none {id prior : String} (h : readForkGovernance scan g id = none) :
    ¬ Shows g (supersededBy prior id) := by
  intro hprior
  have hhead := Option.map_eq_none_iff.1 h
  rw [List.head?_eq_none_iff] at hhead
  have hmem := @mem_priors scan g id prior |>.2 hprior
  rw [hhead] at hmem
  cases hmem

end Reads

/-! ## What a group leaves of the Policies -/

/-- Every Policy as it was, with its priors and Capabilities. -/
structure SamePolicies (g g' : Graph) : Prop where
  status : ∀ id, statusOf g' (policyRef id) = statusOf g (policyRef id)
  nodes : ∀ id, policyRef id ∈ g'.nodes ↔ policyRef id ∈ g.nodes
  prior : ∀ a b, Shows g' (supersededBy a b) ↔ Shows g (supersededBy a b)
  governed : ∀ c id, Shows g' (governedBy c id) ↔ Shows g (governedBy c id)

/-- One Policy has another status, every other is as it was. -/
structure Moves (g g' : Graph) (id target : String) : Prop where
  moved : statusOf g' (policyRef id) = some (text target)
  status : ∀ x, x ≠ id → statusOf g' (policyRef x) = statusOf g (policyRef x)
  prior : ∀ a b, Shows g' (supersededBy a b) ↔ Shows g (supersededBy a b)

section Policies

variable {g g' g'' : Graph}

theorem SamePolicies.refl (g : Graph) : SamePolicies g g :=
  ⟨fun _ => rfl, fun _ => .rfl, fun _ _ => .rfl, fun _ _ => .rfl⟩

theorem SamePolicies.trans (h : SamePolicies g g') (h' : SamePolicies g' g'') : SamePolicies g g'' where
  status id := (h'.status id).trans (h.status id)
  nodes id := (h'.nodes id).trans (h.nodes id)
  prior a b := (h'.prior a b).trans (h.prior a b)
  governed c id := (h'.governed c id).trans (h.governed c id)

theorem Restamped.samePolicies (h : Restamped g g') : SamePolicies g g' where
  status id := by
    unfold statusOf
    rw [h.columns]
  nodes _ := h.mem
  prior _ _ := h.shows _
  governed _ _ := h.shows _

theorem SamePolicies.stays (h : SamePolicies g g') : Stays (versions g) (versions g') where
  inForce id := by
    show statusOf g' _ = _ ↔ statusOf g _ = _
    rw [h.status]
  prior := h.prior
  holds id c hc := (h.governed c id).2 hc

/-- A group that spares every Policy and takes and links no version's edges. -/
theorem samePolicies_of {ps : List Primitive} (hspares : ∀ id, ∀ p ∈ ps, Spares id p) (htakes : ∀ p ∈ ps, ∀ r, ¬ Takes p r)
    (hprior : ∀ a b, ¬ Links ps (supersededBy a b)) (hgoverned : ∀ c id, ¬ Links ps (governedBy c id)) :
    SamePolicies g (applyAll g ps) where
  status id := (spared (hspares id) g).1
  nodes id := by
    refine ⟨(spared (hspares id) g).2.2, applyAll_mem fun p hp => ?_⟩
    cases p with
    | deleteNode m => exact absurd trivial (htakes _ hp (supersededBy id id))
    | deleteEdge e => exact absurd rfl (htakes _ hp e.edgeKey.record)
    | _ => trivial
  prior a b := ⟨fun h => (shows_after h).resolve_right (hprior a b), applyAll_keeps fun p hp => htakes p hp _⟩
  governed c id := ⟨fun h => (shows_after h).resolve_right (hgoverned c id), applyAll_keeps fun p hp => htakes p hp _⟩

theorem takes_merge {n : NodeRef} {props : PropertyMap} {r : EdgeRecord} : ¬ Takes (.mergeProperty n props) r := id

theorem links_fills {id : String} {ps : List Primitive} (h : ∀ p ∈ ps, Fills g id p) {r : EdgeRecord} : ¬ Links ps r := by
  rintro ⟨e, props, hmem, -⟩
  rcases h _ hmem with heq | ⟨_, _, -, heq⟩ <;> cases heq

theorem samePolicies_backfill {scan : ScanOrder} {id : String} (h : Restamped g g') :
    SamePolicies g (applyAll g' (backfillPrimitives scan g id)) := by
  have hfills := @fills_backfill scan g id
  refine h.samePolicies.trans (samePolicies_of (fun x p hp => ?_) (fun p hp r => ?_) (fun _ _ => links_fills hfills)
    fun _ _ => links_fills hfills)
  · have hoffer : Offers ⟨g, 0⟩ ⟨.backfill id, backfillPrimitives scan g id, none⟩ := hfills
    exact hoffer.spares (by simp [Purpose.policy]) p hp
  · rcases hfills p hp with rfl | ⟨n, status, -, rfl⟩
    · exact takes_merge
    · exact takes_merge

theorem takes_edit {node : NodeRef} {ps : List Primitive} (h : Edits node ps) : ∀ p ∈ ps, ∀ r, ¬ Takes p r := by
  cases h with
  | patch nodeId fields =>
    intro p hp r
    rcases mem_patchPrimitives hp with rfl | rfl
    · exact id
    · exact id
  | addStandard policyId standardId title fields =>
    intro p hp r
    rcases List.mem_cons.1 hp with rfl | hp
    · exact id
    · obtain rfl := List.mem_singleton.1 hp
      exact id
  | addControl standardId controlId title controlType fields =>
    intro p hp r
    rcases List.mem_cons.1 hp with rfl | hp
    · exact id
    · obtain rfl := List.mem_singleton.1 hp
      exact id

/-- An edit links tree edges only. -/
theorem links_edit {node : NodeRef} {ps : List Primitive} (h : Edits node ps) {r : EdgeRecord} (hlinks : Links ps r) :
    TreeEdge r := by
  cases h with
  | patch id fields => exact absurd hlinks links_patch
  | addStandard policyId standardId title fields =>
    rw [links_child hlinks]
    exact .standard policyId standardId
  | addControl standardId controlId title controlType fields =>
    rw [links_child hlinks]
    exact .control standardId controlId

theorem not_tree_supersededBy {a b : String} : ¬ TreeEdge (supersededBy a b) := fun h =>
  h.relType_ne (show "SUPERSEDED_BY" ≠ "SUPPORTED_BY" by decide) (by decide) rfl

theorem not_tree_governedBy {c id : String} : ¬ TreeEdge (governedBy c id) := fun h =>
  h.relType_ne (show "GOVERNED_BY" ≠ "SUPPORTED_BY" by decide) (by decide) rfl

theorem samePolicies_edit {node : NodeRef} {ps : List Primitive} (hedit : Edits node ps) (h : Restamped g g') :
    SamePolicies g (applyAll g' ps) :=
  h.samePolicies.trans (samePolicies_of (fun _ => spares_edit hedit) (takes_edit hedit)
    (fun _ _ hlinks => not_tree_supersededBy (links_edit hedit hlinks))
    fun _ _ hlinks => not_tree_governedBy (links_edit hedit hlinks))

/-! ### Cascades -/

/-- A cascade, with what it moves of Capabilities, gives one Policy its status. -/
theorem moves_cascade {id target : String} {moved : List Primitive} {nodes : List NodeRef}
    (hmoved : ∀ p ∈ moved, Governs p) (hstored : policyRef id ∈ g.nodes)
    (hnodes : ∀ n, n ∈ nodes ↔ n = policyRef id ∨ Under g id n) :
    Moves g (applyAll g (moved ++ statusMerges target nodes)) id target where
  moved := by
    rw [applyAll_append]
    refine statusMerges_sets ((hnodes _).2 (.inl rfl)) (applyAll_mem (fun p hp => ?_) hstored)
    exact grows_of_governs (hmoved p hp)
  status x hx := by
    refine (spared (fun p hp => ?_) g).1
    rcases List.mem_append.1 hp with hp | hp
    · exact spares_of_governs (hmoved p hp)
    · obtain ⟨n, hn, rfl⟩ := List.mem_map.1 hp
      refine spares_merge fun hpolicy => absurd hpolicy ?_
      rcases (hnodes n).1 hn with rfl | hunder
      · exact fun heq => hx (NodeRef.mk.inj heq).2.symm
      · exact hunder.ne_policy
  prior a b := by
    constructor
    · intro hshow
      refine (shows_after hshow).resolve_right fun hlinks => ?_
      rcases links_append.1 hlinks with ⟨e, props, hmem, heq⟩ | hlinks
      · have htype : e.type = "GOVERNED_BY" := hmoved _ hmem
        rw [show e.type = "SUPERSEDED_BY" from congrArg EdgeRecord.relType heq] at htype
        exact absurd htype (by decide)
      · exact statusMerges_links hlinks
    · refine applyAll_shows (fun p hp => ?_) (by simp [supersededBy])
      rcases List.mem_append.1 hp with hp | hp
      · exact grows_of_governs (hmoved p hp)
      · exact grows_statusMerges p hp

theorem governed_statusMerges {target : String} {nodes : List NodeRef} {c id : String} :
    Shows (applyAll g (statusMerges target nodes)) (governedBy c id) ↔ Shows g (governedBy c id) := by
  constructor
  · intro hshow
    exact (shows_after hshow).resolve_right statusMerges_links
  · refine applyAll_keeps fun p hp => ?_
    obtain ⟨n, -, rfl⟩ := List.mem_map.1 hp
    exact takes_merge

/-- What a move of Capabilities to the approved Policy leaves and gives. -/
theorem governed_repoint {id prior target : String} {capabilityIds : List String} {nodes : List NodeRef}
    (hstored : policyRef id ∈ g.nodes) (hcapabilities : ∀ c ∈ capabilityIds, capabilityRef c ∈ g.nodes) :
    (∀ c x, Shows g (governedBy c x) → x ≠ prior →
        Shows (applyAll g (repointPrimitives id prior capabilityIds ++ statusMerges target nodes)) (governedBy c x)) ∧
      ∀ c ∈ capabilityIds,
        Shows (applyAll g (repointPrimitives id prior capabilityIds ++ statusMerges target nodes)) (governedBy c id) := by
  have htakes : ∀ c x, x ≠ prior → ∀ p ∈ repointPrimitives id prior capabilityIds, ¬ Takes p (governedBy c x) := by
    intro c x hx p hp
    rcases List.mem_append.1 hp with hp | hp
    · obtain ⟨c', -, rfl⟩ := List.mem_map.1 hp
      exact fun heq => hx (congrArg EdgeRecord.targetId heq).symm
    · obtain ⟨c', -, rfl⟩ := List.mem_map.1 hp
      exact fun h => h
  refine ⟨fun c x hshow hx => ?_, fun c hc => ?_⟩
  · rw [applyAll_append]
    exact governed_statusMerges.2 (applyAll_keeps (htakes c x hx) hshow)
  · rw [applyAll_append, repointPrimitives, applyAll_append]
    refine governed_statusMerges.2 (shows_linked ?_ ?_ ?_)
    · have hnodes : ∀ n, n ∈ g.nodes → n ∈ (applyAll g (capabilityIds.eraseDups.map fun c =>
          .deleteEdge (edgeBetween "GOVERNED_BY" (capabilityRef c) (policyRef prior)))).nodes := by
        intro n hn
        refine applyAll_mem (fun p hp => ?_) hn
        obtain ⟨_, -, rfl⟩ := List.mem_map.1 hp
        rfl
      refine supplied_of_needs (fun p hp n hn => ?_) fun p hp n => ?_
      · obtain ⟨c', hc', rfl⟩ := List.mem_map.1 hp
        rcases hn with rfl | rfl
        · exact hnodes _ (hcapabilities c' (List.mem_eraseDups.1 hc'))
        · exact hnodes _ hstored
      · obtain ⟨c', -, rfl⟩ := List.mem_map.1 hp
        simp
    · intro p hp
      obtain ⟨c', -, rfl⟩ := List.mem_map.1 hp
      exact fun h => h
    · exact ⟨edgeBetween "GOVERNED_BY" (capabilityRef c) (policyRef id), ∅,
        List.mem_map.2 ⟨c, List.mem_eraseDups.2 hc, rfl⟩, rfl⟩

end Policies

/-! ## What a call does to the versions -/

section Calls

variable {gw : Gateway} {h : Hashing} {s : GraphState} {R : GraphState → Prop} {g g' g'' : Graph}

theorem Moves.after (hsame : SamePolicies g g') {id target : String} (hmoves : Moves g' g'' id target) :
    Moves g g'' id target where
  moved := hmoves.moved
  status x hx := (hmoves.status x hx).trans (hsame.status x)
  prior a b := (hmoves.prior a b).trans (hsame.prior a b)

/-- A move between statuses other than approved. -/
theorem Moves.stays {id target status : String} (hmoves : Moves g g' id target)
    (hgoverned : ∀ c x, Shows g' (governedBy c x) ↔ Shows g (governedBy c x))
    (hold : statusOf g (policyRef id) = some (text status)) (hstatus : status ≠ "approved") (htarget : target ≠ "approved") :
    Stays (versions g) (versions g') where
  inForce x := by
    show statusOf g' _ = _ ↔ statusOf g _ = _
    by_cases hx : x = id
    · rw [hx, hmoves.moved, hold]
      simp [text, hstatus, htarget]
    · rw [hmoves.status x hx]
  prior := hmoves.prior
  holds x c hc := (hgoverned c x).2 hc

theorem supplied_backfill {scan : ScanOrder} {id : String} :
    Supplied (· ∈ g.nodes) (backfillPrimitives scan g id) := by
  have hfills := @fills_backfill scan g id
  refine supplied_of_needs (fun p hp n hn => ?_) fun p hp n => ?_
  · have hstored : policyRef id ∈ g.nodes := by
      unfold backfillPrimitives at hp
      split at hp
      · cases hp
      · rename_i content hcontent
        exact ExtTreeMap.mem_iff_isSome_getElem?.2 (by rw [hcontent]; rfl)
    rcases hfills p hp with rfl | ⟨m, status, hunder, rfl⟩
    · obtain rfl : n = policyRef id := hn
      exact hstored
    · obtain rfl : n = m := hn
      exact hunder.mem.2
  · rcases hfills p hp with rfl | ⟨m, status, -, rfl⟩ <;> simp

/-- A backfill leaves the Policies. -/
theorem does_fill {id : String} {P : GraphState → Unit → Prop} (hP : ∀ s', SamePolicies s.graph s'.graph → P s' ()) :
    Does gw R (backfillGovernanceStatus gw id) P s := by
  refine Flow.alone_bind (does_query ?_)
  exact does_submitGroup supplied_backfill fun g' n hstamped => hP ⟨_, n⟩ (samePolicies_backfill hstamped)

theorem does_target {id : String} {P : GraphState → PolicyRecord → Prop}
    (hno : ∀ s', SamePolicies s.graph s'.graph → R s')
    (hP : ∀ s' r, SamePolicies s.graph s'.graph → readPolicyTree gw.scan s'.graph id = some r → P s' r) :
    Does gw R (readTransitionTarget gw id) P s := by
  refine Flow.alone_bind (does_fill fun s' hsame => Flow.alone_bind (does_query ?_))
  exact does_need (fun _ => hno s' hsame) fun r hr => hP s' r hsame hr

theorem does_cascade {action : Transition} {actor : Actor} {id : String} {P : GraphState → Unit → Prop}
    (hstored : policyRef id ∈ s.graph.nodes)
    (hP : ∀ s', Moves s.graph s'.graph id action.target →
      (∀ c x, Shows s'.graph (governedBy c x) ↔ Shows s.graph (governedBy c x)) → P s' ()) :
    Does gw R (cascadeStatus gw action actor id) P s := by
  refine Flow.alone_bind (does_query ?_)
  obtain ⟨nodes, heq, hnodes⟩ := @cascadePrimitives_shape gw.scan s.graph id action.target hstored
  rw [heq]
  refine does_submitGroup (supplied_cascade hstored hnodes) fun g' n hstamped => ?_
  have hsame := hstamped.samePolicies
  have hnodes' : ∀ n, n ∈ nodes ↔ n = policyRef id ∨ Under g' id n := by
    intro n
    rw [hstamped.under]
    exact hnodes n
  have hmoves := @moves_cascade g' id action.target [] nodes (by simp) (hstamped.mem.2 hstored) hnodes'
  refine hP ⟨_, n⟩ (hmoves.after hsame) fun c x => ?_
  exact governed_statusMerges.trans (hsame.governed c x)

/-! ### Approvals -/

/-- What the first group of an approval leaves: the Policy approved, its prior's Capabilities with it. -/
structure Approves (g g' : Graph) (id : String) : Prop extends Moves g g' id "approved" where
  kept : ∀ c x, Shows g (governedBy c x) → ¬ Shows g (supersededBy x id) → Shows g' (governedBy c x)
  taken : ∀ c x, Shows g (governedBy c x) → Shows g (supersededBy x id) → Shows g' (governedBy c id)

theorem readRepoint_none {id c x : String} {scan : ScanOrder} (hordered : Ordered (versions g))
    (hread : readRepoint scan g id = none) (hprior : Shows g (supersededBy x id)) : ¬ Shows g (governedBy c x) := by
  intro hgoverned
  cases hfork : readForkGovernance scan g id with
  | none => exact readForkGovernance_none hfork hprior
  | some governance =>
    obtain ⟨hpriorId, hcapabilities⟩ := readForkGovernance_some hfork
    obtain rfl : governance.priorId = x := hordered.sole _ _ id hpriorId hprior
    have hmem := (hcapabilities c).2 hgoverned
    rw [readRepoint, hfork, Option.filter_some] at hread
    have hne : governance.capabilityIds ≠ [] := List.ne_nil_of_mem hmem
    simp [hne] at hread

theorem does_approval {actor : Actor} {id : String} {P : GraphState → Unit → Prop} (hordered : Ordered (versions s.graph))
    (hstored : policyRef id ∈ s.graph.nodes) (hP : ∀ s', Approves s.graph s'.graph id → P s' ()) :
    Does gw R (writeApproval gw actor id (readRepoint gw.scan s.graph id)) P s := by
  cases hrepoint : readRepoint gw.scan s.graph id with
  | none =>
    refine does_cascade hstored fun s' hmoves hgoverned => hP s' ⟨hmoves, fun c x hc _ => ?_, fun c x hc hprior => ?_⟩
    · exact (hgoverned c x).2 hc
    · exact absurd hc (readRepoint_none hordered hrepoint hprior)
  | some repoint =>
    have hread : readForkGovernance gw.scan s.graph id = some repoint := (Option.filter_eq_some_iff.1 hrepoint).1
    obtain ⟨hprior, hcapabilities⟩ := readForkGovernance_some hread
    have hunchanged : repoint.unchanged (readForkGovernance gw.scan s.graph id) = true := by
      simp [ForkGovernance.unchanged, hread]
    refine Flow.alone_bind (Flow.alone_bind (Flow.alone_get (Flow.alone_bind (does_query ?_))))
    simp only [hunchanged, Bool.not_true, Bool.false_eq_true, if_false]
    refine Flow.alone_bind (does_ensureStamped fun g' n hstamped => ?_)
    refine Flow.alone_bind (does_query ?_)
    have hstored' := hstamped.mem.2 hstored
    obtain ⟨nodes, heq, hnodes⟩ := @cascadePrimitives_shape gw.scan g' id Transition.approve.target hstored'
    simp only [heq]
    have hends : ∀ c ∈ repoint.capabilityIds, capabilityRef c ∈ g'.nodes := fun c hc =>
      hstamped.mem.2 (governed_ends hrepoint c hc)
    have hsame := hstamped.samePolicies
    have hmoves := @moves_cascade g' id Transition.approve.target (repointPrimitives id repoint.priorId repoint.capabilityIds)
      nodes governs_repoint hstored' hnodes
    obtain ⟨hkept, htaken⟩ :=
      @governed_repoint g' id repoint.priorId Transition.approve.target repoint.capabilityIds nodes hstored' hends
    refine does_submit ?_ (by simp) fun m => does_gate (fun hno => by cases hno) fun _ => hP ⟨_, m⟩ ?_
    · refine (supplied_repoint hstored' hends).append ?_
      exact (supplied_cascade hstored' hnodes).mono fun _ hn => .inl hn
    · refine ⟨hmoves.after hsame, fun c x hc hnot => ?_, fun c x hc hx => ?_⟩
      · refine hkept c x ((hsame.governed c x).2 hc) ?_
        rintro rfl
        exact hnot hprior
      · obtain rfl : x = repoint.priorId := hordered.sole _ _ id hx hprior
        exact htaken c ((hcapabilities c).2 hc)

/-- **An approval brings its Policy into force** in place of its prior. -/
theorem does_deprecation {actor : Actor} {id : String} {P : GraphState → Unit → Prop} (hordered : Ordered (versions g))
    (hidle : ¬ (versions g).inForce id) (happroves : Approves g s.graph id)
    (hP : ∀ s', Enters (versions g) (versions s'.graph) id → P s' ()) : Does gw R (deprecatePrior gw actor id) P s := by
  -- approved now: what was approved, and the Policy
  have hnow : ∀ x, statusOf s.graph (policyRef x) = some (text "approved") ↔ (versions g).inForce x ∨ x = id := by
    intro x
    by_cases hx : x = id
    · rw [hx]
      exact ⟨fun _ => .inr rfl, fun _ => happroves.moved⟩
    · rw [happroves.status x hx]
      simp [hx, versions]
  refine Flow.alone_bind (does_query ?_)
  split
  · rename_i hnone
    refine hP s ⟨hidle, fun x => ?_, happroves.prior, fun x c hc hnot => happroves.kept c x hc hnot,
      fun x c hc hx => happroves.taken c x hc hx⟩
    refine (hnow x).trans ⟨fun hx => ⟨hx, fun hprior => ?_⟩, fun hx => hx.1⟩
    exact findApprovedPrior_none hnone ((happroves.prior x id).2 hprior) ((hnow x).2 hx)
  · rename_i priorId hsome
    obtain ⟨hshow, happroved⟩ := findApprovedPrior_some hsome
    have hprior : Shows g (supersededBy priorId id) := (happroves.prior priorId id).1 hshow
    have hstored : policyRef priorId ∈ s.graph.nodes := stored_of_status happroved
    refine Flow.alone_bind (does_query ?_)
    split
    · rename_i hno
      simp [readPolicyTree, hstored] at hno
    · refine does_cascade hstored fun s' hmoves hgoverned => hP s' ⟨hidle, fun x => ?_, fun a b => ?_, fun x c hc hnot => ?_,
        fun x c hc hx => ?_⟩
      · show statusOf s'.graph _ = _ ↔ _
        by_cases hx : x = priorId
        · rw [hx, hmoves.moved]
          refine ⟨fun heq => absurd heq (by decide), fun hboth => absurd hprior hboth.2⟩
        · rw [hmoves.status x hx, hnow x]
          refine ⟨fun hin => ⟨hin, fun hother => hx (hordered.sole _ _ id hother hprior)⟩, fun hboth => hboth.1⟩
      · exact (hmoves.prior a b).trans (happroves.prior a b)
      · exact (hgoverned c x).2 (happroves.kept c x hc hnot)
      · exact (hgoverned c id).2 (happroves.taken c x hc hx)

/-! ### Creates -/

theorem takes_create {new : NewPolicy} {capabilityIds : List String} {r : EdgeRecord} :
    ∀ p ∈ new.primitives ++ claimPrimitives new.policyId capabilityIds, ¬ Takes p r := by
  have hchild : ∀ {parent child : NodeRef} {props : PropertyMap} {edgeType : String},
      ∀ p ∈ childPrimitives parent child props edgeType, ¬ Takes p r := by
    intro parent child props edgeType p hp
    rcases List.mem_cons.1 hp with rfl | hp
    · exact fun h => h
    · obtain rfl := List.mem_singleton.1 hp
      exact fun h => h
  intro p hp
  rcases mem_create.1 hp with rfl | ⟨_, -, rfl⟩ | ⟨d, -, h⟩ | ⟨d, -, c, -, h⟩ | ⟨_, -, rfl⟩
  · exact fun h => h
  · exact fun h => h
  · exact hchild p h
  · exact hchild p h
  · exact fun h => h

theorem links_supersedes {new : NewPolicy} {capabilityIds : List String} {a b : String} :
    Links (new.primitives ++ claimPrimitives new.policyId capabilityIds) (supersededBy a b) ↔
      new.supersedes = some a ∧ b = new.policyId := by
  constructor
  · rintro ⟨e, props, hmem, heq⟩
    rcases mem_create.1 hmem with h | ⟨prior, hprior, h⟩ | ⟨d, -, h⟩ | ⟨d, -, c, -, h⟩ | ⟨capability, -, h⟩
    · cases h
    · obtain ⟨rfl, -⟩ := Primitive.upsertEdge.inj h
      obtain rfl : prior = a := congrArg EdgeRecord.sourceId heq
      obtain rfl : new.policyId = b := congrArg EdgeRecord.targetId heq
      exact ⟨hprior, rfl⟩
    · have htype := congrArg EdgeRecord.relType (links_child ⟨e, props, h, heq⟩)
      exact absurd htype (by simp [supersededBy])
    · have htype := congrArg EdgeRecord.relType (links_child ⟨e, props, h, heq⟩)
      exact absurd htype (by simp [supersededBy])
    · obtain ⟨rfl, -⟩ := Primitive.upsertEdge.inj h
      have htype : "GOVERNED_BY" = "SUPERSEDED_BY" := congrArg EdgeRecord.relType heq
      exact absurd htype (by decide)
  · rintro ⟨hprior, rfl⟩
    exact ⟨_, _, mem_create.2 (.supersedes a hprior rfl), rfl⟩

/-- A create brings a new version, not in force. -/
theorem creates_create {new : NewPolicy} {capabilityIds : List String} (hstamped : Restamped g g')
    (hnew : policyRef new.policyId ∉ g.nodes)
    (hprior : ∀ prior, new.supersedes = some prior → policyRef prior ∈ g.nodes)
    (hclaims : ∀ c ∈ capabilityIds, capabilityRef c ∈ g.nodes) :
    Succession.Creates (versions g) (versions (applyAll g' (new.primitives ++ claimPrimitives new.policyId capabilityIds)))
      new.policyId new.supersedes := by
  have hadds := (adds_create hnew hprior hclaims).restamped hstamped
  have hsame := hstamped.samePolicies
  refine ⟨fun a hshow => hnew (shows_ends hshow).2, fun a hshow => hnew (shows_ends hshow).1,
    fun happroved => hnew (stored_of_status happroved), fun heq => hnew (hprior _ heq), fun x => ?_, fun a b => ?_,
    fun x c hc => ?_⟩
  · show statusOf _ _ = _ ↔ statusOf g _ = _
    by_cases hx : x = new.policyId
    · rw [hx, hadds.grafts.policy]
      exact ⟨fun heq => absurd heq (by decide), fun heq => absurd (stored_of_status heq) hnew⟩
    · have hoffer : Offers ⟨g', 0⟩ ⟨.create new.owner new.policyId,
          new.primitives ++ claimPrimitives new.policyId capabilityIds, none⟩ := ⟨new, capabilityIds, rfl, rfl, rfl⟩
      rw [(spared (hoffer.spares fun heq => hx (Option.some.inj heq).symm) g').1, hsame.status]
  · show Shows _ _ ↔ Shows g _ ∨ _
    rw [← hsame.prior a b]
    constructor
    · intro hshow
      exact (shows_after hshow).imp_right links_supersedes.1
    · rintro (hold | hlinks)
      · exact applyAll_keeps takes_create hold
      · exact shows_linked hadds.supplied takes_create (links_supersedes.2 hlinks)
  · exact applyAll_keeps takes_create ((hsame.governed c x).2 hc)

theorem does_unclaimed {new : NewPolicy} {P : GraphState → Unit → Prop} (hno : R s)
    (hnew : policyRef new.policyId ∉ s.graph.nodes)
    (hprior : ∀ prior, new.supersedes = some prior → policyRef prior ∈ s.graph.nodes)
    (hP : ∀ s', Succession.Creates (versions s.graph) (versions s'.graph) new.policyId new.supersedes → P s' ()) :
    Does gw R (writeUnclaimed gw new) P s := by
  refine Flow.alone_bind (does_gate (fun _ => hno) fun _ => ?_)
  have heq : new.primitives = new.primitives ++ claimPrimitives new.policyId [] := (List.append_nil _).symm
  rw [heq]
  refine does_submitGroup (supplied_create hprior (by simp)) fun g' n hstamped => hP ⟨_, n⟩ ?_
  exact creates_create hstamped hnew hprior (by simp)

theorem does_claimed {new : NewPolicy} {capabilityIds : List String} {P : GraphState → Unit → Prop} (hno : R s)
    (hnew : policyRef new.policyId ∉ s.graph.nodes)
    (hprior : ∀ prior, new.supersedes = some prior → policyRef prior ∈ s.graph.nodes) (hstorable : new.storable = true)
    (hP : ∀ s', Succession.Creates (versions s.graph) (versions s'.graph) new.policyId new.supersedes → P s' ()) :
    Does gw R (writeClaimed gw new capabilityIds) P s := by
  refine Flow.alone_bind (Flow.alone_get (Flow.alone_bind (does_query (Flow.alone_bind ?_))))
  refine does_gate (fun _ => hno) fun hclaimable => ?_
  have hclaims := claimable_mem hclaimable
  refine Flow.alone_bind (does_ensureStamped fun g' n hstamped => ?_)
  refine Flow.alone_bind (does_gate (fun hf => by rw [hstorable] at hf; cases hf) fun _ => Flow.alone_bind ?_)
  refine does_submit (hstamped.supplied (supplied_create hprior hclaims)) (by simp) fun m => ?_
  exact does_gate (fun hf => by cases hf) fun _ => hP ⟨_, m⟩ (creates_create hstamped hnew hprior hclaims)

theorem SamePolicies.versions_eq (hsame : SamePolicies g g') : versions g' = versions g := by
  unfold versions
  congr 1
  · funext id
    rw [hsame.status]
  · funext a b
    rw [hsame.prior]
  · funext id c
    rw [hsame.governed]

theorem does_create {actor : Actor} {title : String} {standards : List StandardDraftInput} {supersedes : Option String}
    {capabilityIds : List String} {P : GraphState → Unit → Prop} (hno : ∀ s', SamePolicies s.graph s'.graph → R s')
    (hP : ∀ s' new, Succession.Creates (versions s.graph) (versions s'.graph) new supersedes → P s' ()) :
    Does gw R (createPolicyDraft gw h actor title standards supersedes capabilityIds) P s := by
  cases supersedes with
  | none =>
    refine Flow.alone_bind (Flow.alone_pure (Flow.alone_bind (does_query (Flow.alone_bind ?_))))
    refine does_gate (fun _ => hno s (.refl _)) fun hexisting => Flow.alone_bind (does_query (Flow.alone_bind ?_))
    refine does_gate (fun _ => hno s (.refl _)) fun _ => ?_
    refine Flow.alone_bind (Flow.alone_pure (Flow.alone_bind (does_need (fun hf => by cases hf) fun drafts hdrafts => ?_)))
    obtain rfl := Option.some.inj hdrafts
    have hnew := not_stored_of_existing hexisting
    have hprior : ∀ prior, (none : Option String) = some prior → policyRef prior ∈ s.graph.nodes := by
      intro prior hsome
      cases hsome
    simp only [Option.isSome_none, Bool.false_eq_true, if_false]
    split
    · exact does_unclaimed (hno s (.refl _)) hnew hprior fun s' hcreates => hP s' _ hcreates
    · exact does_claimed (hno s (.refl _)) hnew hprior storable_built fun s' hcreates => hP s' _ hcreates
  | some prior =>
    refine Flow.alone_bind (Flow.alone_bind (does_target hno fun s₁ r hsame hr => Flow.alone_bind ?_))
    refine does_gate (fun _ => hno s₁ hsame) fun _ => does_need (fun _ => hno s₁ hsame) fun version _ => ?_
    refine Flow.alone_bind (does_query (Flow.alone_bind ?_))
    refine does_gate (fun _ => hno s₁ hsame) fun hexisting => Flow.alone_bind (does_query (Flow.alone_bind ?_))
    refine does_gate (fun _ => hno s₁ hsame) fun _ => Flow.alone_bind (does_query (Flow.alone_bind ?_))
    refine does_need (fun _ => hno s₁ hsame) fun drafts hdrafts => ?_
    simp only [Option.isSome_some, if_true]
    refine does_unclaimed (hno s₁ hsame) (not_stored_of_existing hexisting) ?_ fun s' hcreates => ?_
    · rintro prior' heq
      cases heq
      exact (readPolicyTree_spec hr).1
    · rw [hsame.versions_eq] at hcreates
      exact hP s' _ hcreates

/-! ### Every call -/

theorem does_standard {standardId : String} {P : GraphState → StandardWithParent → Prop}
    (hno : ∀ s', SamePolicies s.graph s'.graph → R s')
    (hP : ∀ s' row, SamePolicies s.graph s'.graph → findStandardWithParent gw.scan s'.graph standardId = some row →
      P s' row) : Does gw R (readStandardWithParentBackfilled gw standardId) P s := by
  refine Flow.alone_bind (does_query (Flow.alone_bind (does_need (fun _ => hno s (.refl _)) fun row _ => ?_)))
  refine Flow.alone_bind (does_fill fun s' hsame => Flow.alone_bind (does_query ?_))
  exact does_need (fun _ => hno s' hsame) fun row' hrow => hP s' row' hsame hrow

theorem does_control {controlId : String} {P : GraphState → ControlWithParent → Prop}
    (hno : ∀ s', SamePolicies s.graph s'.graph → R s')
    (hP : ∀ s' row, SamePolicies s.graph s'.graph → findControlWithParent gw.scan s'.graph controlId = some row →
      P s' row) : Does gw R (readControlWithParentBackfilled gw controlId) P s := by
  refine Flow.alone_bind (does_query (Flow.alone_bind (does_need (fun _ => hno s (.refl _)) fun row _ => ?_)))
  refine Flow.alone_bind (does_fill fun s' hsame => Flow.alone_bind (does_query ?_))
  exact does_need (fun _ => hno s' hsame) fun row' hrow => hP s' row' hsame hrow

/-- **What an accepted call does** to the versions. -/
def CallMoves (v v' : State String String) : LifecycleCall → Prop
  | .approvePolicy _ _ id => Enters v v' id
  | .createPolicyDraft _ _ _ supersedes _ => ∃ new, Succession.Creates v v' new supersedes
  | _ => Stays v v'

theorem status_of_required {ctx : RuleContext} {status : String} (hgate : requireStatus ctx = true)
    (hrequired : requiredStatus ctx.action = some status) : ctx.currentStatus = some (text status) := by
  rw [requireStatus, hrequired] at hgate
  exact of_decide_eq_true hgate

/-- A transition other than an approval leaves the versions. -/
theorem does_transition {action : Transition} {actor : Actor} {id status : String}
    {r : PolicyRecord} {s' : GraphState} (hsame : SamePolicies s.graph s'.graph)
    (hr : readPolicyTree gw.scan s'.graph id = some r) (hold : r.status = some (text status)) (hstatus : status ≠ "approved")
    (htarget : action.target ≠ "approved") :
    Does gw R (cascadeStatus gw action actor id) (fun s'' _ => Stays (versions s.graph) (versions s''.graph)) s' := by
  obtain ⟨hstored, -, hread⟩ := readPolicyTree_spec hr
  refine does_cascade hstored fun s'' hmoves hgoverned => ?_
  rw [← hsame.versions_eq]
  exact hmoves.stays hgoverned (hread.symm.trans hold) hstatus htarget

theorem call_moves (hordered : Ordered (versions s.graph)) (call : LifecycleCall) :
    Does gw (fun s' => Stays (versions s.graph) (versions s'.graph)) (call.flow gw h)
      (fun s' _ => CallMoves (versions s.graph) (versions s'.graph) call) s := by
  have hno : ∀ s' : GraphState, SamePolicies s.graph s'.graph → Stays (versions s.graph) (versions s'.graph) :=
    fun s' hsame => hsame.stays
  have hedit : ∀ (s' : GraphState) (node : NodeRef) (ps : List Primitive), SamePolicies s.graph s'.graph → Edits node ps →
      Supplied (· ∈ s'.graph.nodes) ps → Does gw (fun s' => Stays (versions s.graph) (versions s'.graph))
        (submitGroup gw (.edit node) ps) (fun s'' _ => Stays (versions s.graph) (versions s''.graph)) s' := by
    intro s' node ps hsame hedits hsupplied
    exact does_submitGroup hsupplied fun g' n hstamped => (hsame.trans (samePolicies_edit hedits hstamped)).stays
  cases call with
  | createPolicyDraft actor title standards supersedes capabilityIds =>
    exact does_create hno fun s' new hcreates => ⟨new, hcreates⟩
  | getPolicy policyId => exact Flow.alone_bind (does_target hno fun s' r hsame _ => Flow.alone_pure (hno s' hsame))
  | proposePolicy actor policyId =>
    refine Flow.alone_bind (does_target hno fun s' r hsame hr => Flow.alone_bind ?_)
    refine does_gate (fun _ => hno s' hsame) fun _ => Flow.alone_bind (does_gate (fun _ => hno s' hsame) fun hstatus => ?_)
    refine Flow.alone_bind (does_gate (fun _ => hno s' hsame) fun _ => ?_)
    exact does_transition hsame hr (status_of_required hstatus rfl) (by decide) (by decide)
  | approvePolicy access actor policyId =>
    refine Flow.alone_bind (does_target hno fun s' r hsame hr => Flow.alone_bind ?_)
    refine does_gate (fun _ => hno s' hsame) fun _ => Flow.alone_bind (does_gate (fun _ => hno s' hsame) fun _ => ?_)
    refine Flow.alone_bind (does_gate (fun _ => hno s' hsame) fun hstatus => Flow.alone_bind (does_query (Flow.alone_bind ?_)))
    obtain ⟨hstored, -, hread⟩ := readPolicyTree_spec hr
    have hordered' : Ordered (versions s'.graph) := hsame.versions_eq ▸ hordered
    have hidle : ¬ (versions s'.graph).inForce policyId := by
      have hproposed : statusOf s'.graph (policyRef policyId) = some (text "proposed") :=
        hread.symm.trans (status_of_required hstatus rfl)
      intro happroved
      exact absurd (hproposed.symm.trans happroved) (by decide)
    refine does_approval hordered' hstored fun s₁ happroves => ?_
    refine does_deprecation hordered' hidle happroves fun s₂ henters => ?_
    rw [← hsame.versions_eq]
    exact henters
  | rejectPolicy access actor policyId =>
    refine Flow.alone_bind (does_target hno fun s' r hsame hr => Flow.alone_bind ?_)
    refine does_gate (fun _ => hno s' hsame) fun _ => Flow.alone_bind (does_gate (fun _ => hno s' hsame) fun _ => ?_)
    refine Flow.alone_bind (does_gate (fun _ => hno s' hsame) fun hstatus => ?_)
    exact does_transition hsame hr (status_of_required hstatus rfl) (by decide) (by decide)
  | revertPolicyToDraft actor policyId =>
    refine Flow.alone_bind (does_target hno fun s' r hsame hr => Flow.alone_bind ?_)
    refine does_gate (fun _ => hno s' hsame) fun _ => Flow.alone_bind (does_gate (fun _ => hno s' hsame) fun hstatus => ?_)
    exact does_transition hsame hr (status_of_required hstatus rfl) (by decide) (by decide)
  | updatePolicyDraft access actor policyId fields =>
    refine Flow.alone_bind (does_target hno fun s' r hsame hr => Flow.alone_bind ?_)
    refine does_gate (fun _ => hno s' hsame) fun _ => hedit s' _ _ hsame (.patch policyId fields) ?_
    exact supplied_patch (readPolicyTree_spec hr).1
  | addStandardToDraft access actor policyId title fields =>
    refine Flow.alone_bind (does_target hno fun s' r hsame hr => Flow.alone_bind ?_)
    refine does_gate (fun _ => hno s' hsame) fun _ => hedit s' _ _ hsame (.addStandard policyId _ title fields) ?_
    exact supplied_child (readPolicyTree_spec hr).1
  | updateStandardDraft access actor standardId fields =>
    refine Flow.alone_bind (does_standard hno fun s' row hsame hrow => Flow.alone_bind ?_)
    refine does_gate (fun _ => hno s' hsame) fun _ => hedit s' _ _ hsame (.patch standardId fields) ?_
    exact supplied_patch (supportedBy_ends (findStandardWithParent_spec hrow).1).2
  | addControlToDraft access actor standardId title controlType fields =>
    refine Flow.alone_bind (does_standard hno fun s' row hsame hrow => Flow.alone_bind ?_)
    refine does_gate (fun _ => hno s' hsame) fun _ => hedit s' _ _ hsame (.addControl standardId _ title controlType fields) ?_
    exact supplied_child (supportedBy_ends (findStandardWithParent_spec hrow).1).2
  | updateControlDraft access actor controlId fields =>
    refine Flow.alone_bind (does_control hno fun s' row hsame hrow => Flow.alone_bind ?_)
    refine does_gate (fun _ => hno s' hsame) fun _ => hedit s' _ _ hsame (.patch controlId fields) ?_
    exact supplied_patch (findControlWithParent_spec hrow)

end Calls

/-! ## Runs -/

section Runs

variable (gw : Gateway) (h : Hashing) (s : GraphState)

/-- The versions after calls one after another. -/
def versionsAfter (calls : List LifecycleCall) : State String String := versions (graphAfter gw h s calls)

/-- **One approved Policy a lineage**, at the start and after every call; and what an approved Policy governs is from then
on governed by the approved Policy of its lineage. -/
structure OneApproved (calls : List LifecycleCall) : Prop where
  one : ∀ past future, calls = past ++ future → AtMostOne (versionsAfter gw h s past)
  governed : ∀ past mid future, calls = past ++ mid ++ future → ∀ id c, (versionsAfter gw h s past).inForce id →
    (versionsAfter gw h s past).holds id c → Held (versionsAfter gw h s (past ++ mid)) id c

/-- The call, where it is an accepted approval, leaves no other Policy of the lineage approved: what is approved there is
its prior. -/
def TimelyApproval (past : List LifecycleCall) (call : LifecycleCall) : Prop :=
  ∀ access actor id, call = .approvePolicy access actor id → ¬ Refused gw h (callsAlone gw h s past) call →
    Succession.Timely (versionsAfter gw h s past) id

variable {gw h s}

/-- An accepted call moves the versions, a refused one leaves them. -/
theorem versions_call (hordered : Ordered (versions s.graph)) (call : LifecycleCall) :
    (¬ Refused gw h s call → CallMoves (versions s.graph) (versions (callAlone gw h s call).graph) call) ∧
      (Refused gw h s call → Stays (versions s.graph) (versions (callAlone gw h s call).graph)) := by
  have hdoes : Does gw (fun s' => Stays (versions s.graph) (versions s'.graph)) (call.flow gw h)
      (fun s' _ => CallMoves (versions s.graph) (versions s'.graph) call) s := call_moves hordered call
  obtain ⟨hreturn, hrefused⟩ := Flow.alone_run hdoes
  refine ⟨fun hno => ?_, hrefused⟩
  obtain ⟨a, ha⟩ := Option.ne_none_iff_exists'.1 hno
  exact hreturn a ha

theorem versionsAfter_snoc {past : List LifecycleCall} {call : LifecycleCall} :
    versionsAfter gw h s (past ++ [call]) = versions (callAlone gw h (callsAlone gw h s past) call).graph := by
  unfold versionsAfter
  rw [graphAfter_snoc]

theorem CallMoves.ordered {v v' : State String String} {call : LifecycleCall} (hmoves : CallMoves v v' call)
    (hordered : Ordered v) : Ordered v' := by
  cases call with
  | createPolicyDraft actor title standards supersedes capabilityIds =>
    obtain ⟨new, hcreates⟩ := hmoves
    exact hcreates.ordered hordered
  | approvePolicy access actor id => exact Enters.ordered hmoves hordered
  | _ => exact Stays.ordered hmoves hordered

theorem CallMoves.held {v v' : State String String} {call : LifecycleCall} (hmoves : CallMoves v v' call)
    (hordered : Ordered v) {id c : String} (hheld : Held v id c) : Held v' id c := by
  cases call with
  | createPolicyDraft actor title standards supersedes capabilityIds =>
    obtain ⟨new, hcreates⟩ := hmoves
    exact hcreates.held hheld
  | approvePolicy access actor policyId => exact Enters.held hmoves hordered hheld
  | _ => exact Stays.held hmoves hheld

/-- One approved Policy stays one, where an approval is timely. -/
theorem CallMoves.atMostOne {v v' : State String String} {call : LifecycleCall} (hmoves : CallMoves v v' call)
    (hone : AtMostOne v) (htimely : ∀ access actor id, call = .approvePolicy access actor id → Succession.Timely v id) :
    AtMostOne v' := by
  cases call with
  | createPolicyDraft actor title standards supersedes capabilityIds =>
    obtain ⟨new, hcreates⟩ := hmoves
    exact hcreates.atMostOne hone
  | approvePolicy access actor id => exact Enters.atMostOne hmoves hone (htimely access actor id rfl)
  | _ => exact (Stays.atMostOne hmoves).2 hone

theorem ordered_after (hordered : Ordered (versions s.graph)) (calls : List LifecycleCall) :
    Ordered (versionsAfter gw h s calls) := by
  induction calls using List.reverseRecOn with
  | nil => exact hordered
  | append_singleton past call ih =>
    rw [versionsAfter_snoc]
    obtain ⟨haccepted, hrefused⟩ := @versions_call gw h (callsAlone gw h s past) ih call
    by_cases hno : Refused gw h (callsAlone gw h s past) call
    · exact (hrefused hno).ordered ih
    · exact (haccepted hno).ordered ih

/-- What a version in force holds, the one in force after it holds. -/
theorem held_after (hordered : Ordered (versions s.graph)) (past mid : List LifecycleCall) {id c : String}
    (hheld : Held (versionsAfter gw h s past) id c) : Held (versionsAfter gw h s (past ++ mid)) id c := by
  induction mid using List.reverseRecOn with
  | nil =>
    rw [List.append_nil]
    exact hheld
  | append_singleton mid call ih =>
    rw [← List.append_assoc, versionsAfter_snoc]
    have hnow : Ordered (versions (callsAlone gw h s (past ++ mid)).graph) := ordered_after hordered (past ++ mid)
    obtain ⟨haccepted, hrefused⟩ := @versions_call gw h (callsAlone gw h s (past ++ mid)) hnow call
    by_cases hno : Refused gw h (callsAlone gw h s (past ++ mid)) call
    · exact (hrefused hno).held ih
    · exact (haccepted hno).held hnow ih

/-- Timely approvals keep one approved Policy a lineage. -/
theorem atMostOne_after (hordered : Ordered (versions s.graph)) (hone : AtMostOne (versions s.graph))
    {calls : List LifecycleCall} (htimely : Throughout (TimelyApproval gw h s) calls) :
    AtMostOne (versionsAfter gw h s calls) := by
  induction calls using List.reverseRecOn with
  | nil => exact hone
  | append_singleton past call ih =>
    rw [versionsAfter_snoc]
    have hpast : AtMostOne (versionsAfter gw h s past) := ih htimely.init
    have hnow : Ordered (versions (callsAlone gw h s past).graph) := ordered_after hordered past
    obtain ⟨haccepted, hrefused⟩ := @versions_call gw h (callsAlone gw h s past) hnow call
    by_cases hno : Refused gw h (callsAlone gw h s past) call
    · exact (hrefused hno).atMostOne.2 hpast
    · exact (haccepted hno).atMostOne hpast fun access actor id heq => htimely.last access actor id heq hno

end Runs

/-- **One approved Policy a lineage.** Over calls one after another, from a graph where no Policy has two priors or is its
own, at most one Policy of a lineage is approved, and it governs what the approved Policies before it governed, exactly
where that is so at the start and every accepted approval finds no Policy of the lineage approved but its prior. -/
theorem one_approved_iff (gw : Gateway) (h : Hashing) (s : GraphState) (calls : List LifecycleCall)
    (hordered : Ordered (versions s.graph)) :
    OneApproved gw h s calls ↔ AtMostOne (versions s.graph) ∧ Throughout (TimelyApproval gw h s) calls := by
  constructor
  · intro hkept
    refine ⟨hkept.one [] calls rfl, ?_⟩
    rintro past call future heq access actor id rfl haccepted
    have hnow : Ordered (versions (callsAlone gw h s past).graph) := ordered_after hordered past
    have henters := (@versions_call gw h (callsAlone gw h s past) hnow (.approvePolicy access actor id)).1 haccepted
    have hafter : AtMostOne (versionsAfter gw h s (past ++ [.approvePolicy access actor id])) :=
      hkept.one _ future (by simp [heq])
    rw [versionsAfter_snoc] at hafter
    exact Enters.timely henters hnow hafter
  · rintro ⟨hone, htimely⟩
    refine ⟨fun past future heq => ?_, fun past mid future heq id c hforce hholds => ?_⟩
    · refine atMostOne_after hordered hone ?_
      intro past' call future' heq'
      exact htimely past' call (future' ++ future) (by simp [heq, heq'])
    · exact held_after hordered past mid ⟨id, .refl id, hforce, hholds⟩

/-! ## Two forks of one Policy -/

def firstTravel : String := "pol_travel_f7956b"

def travelAbroad : String := "pol_travel_abroad_8f02f0"

def travelAtHome : String := "pol_travel_at_home_d6004f"

/-- The first six digits of SHA-1 of the texts these calls hash. -/
def travelHashing : Hashing where
  lower := String.toLower
  hash
    | "travel" => "f7956b"
    | "pol_travel_f7956b:expenses" => "791219"
    | "pol_travel_f7956b:travel abroad" => "8f02f0"
    | "pol_travel_abroad_8f02f0:expenses" => "68ee08"
    | "pol_travel_f7956b:travel at home" => "d6004f"
    | "pol_travel_at_home_d6004f:expenses" => "70257c"
    | _ => ""

/-- An edge between two Policies, or a Policy and its Standard, as it is stored. -/
def storedEdge (type : String) (source target : NodeRef) : EdgeKey × PropertyMap := ((edgeBetween type source target).edgeKey, ∅)

def firstEdges : List (EdgeKey × PropertyMap) :=
  [storedEdge "SUPPORTED_BY" (policyRef firstTravel) (standardRef "std_expenses_791219")]

def abroadEdges : List (EdgeKey × PropertyMap) :=
  [storedEdge "SUPERSEDED_BY" (policyRef firstTravel) (policyRef travelAbroad),
    storedEdge "SUPPORTED_BY" (policyRef travelAbroad) (standardRef "std_expenses_68ee08")]

def homeEdges : List (EdgeKey × PropertyMap) :=
  [storedEdge "SUPERSEDED_BY" (policyRef firstTravel) (policyRef travelAtHome),
    storedEdge "SUPPORTED_BY" (policyRef travelAtHome) (standardRef "std_expenses_70257c")]

/-- A scan that answers the given edges in the order they are given. -/
noncomputable def listedScan (listed : List (EdgeKey × PropertyMap)) : ScanOrder where
  order m := if Multiset.ofList (listed.filter fun e => decide (e ∈ m)) = m then listed.filter fun e => decide (e ∈ m)
    else m.toList
  perm m := by
    by_cases hall : Multiset.ofList (listed.filter fun e => decide (e ∈ m)) = m
    · rw [if_pos hall]
      exact hall
    · rw [if_neg hall]
      exact m.coe_toList

noncomputable def travelGateway : Gateway where
  scan := listedScan (firstEdges ++ abroadEdges ++ homeEdges)
  allow := ⟨["Policy", "Standard", "Control"], ["SUPPORTED_BY", "IMPLEMENTED_BY", "SUPERSEDED_BY"]⟩

def managed : Access := ⟨fun _ => true, fun _ => false⟩

/-- A Policy is approved, forked twice, and both forks are approved. -/
def forkCalls : List LifecycleCall :=
  [.createPolicyDraft alice "Travel" [⟨"Expenses", []⟩] none [], .proposePolicy alice firstTravel,
    .approvePolicy managed bob firstTravel, .createPolicyDraft alice "Travel Abroad" [] (some firstTravel) [],
    .createPolicyDraft alice "Travel at Home" [] (some firstTravel) [], .proposePolicy alice travelAbroad,
    .proposePolicy alice travelAtHome, .approvePolicy managed bob travelAbroad, .approvePolicy managed bob travelAtHome]

theorem ordered_empty : Ordered (versions ∅) :=
  ⟨fun _ _ _ h => absurd h not_shows_empty, fun _ h => absurd h not_shows_empty⟩

/-- The first Policy alone is approved, before it is forked. -/
theorem one_approved_iff_first :
    OneApproved travelGateway travelHashing ⟨∅, 0⟩ (forkCalls.take 3) := by
  refine (one_approved_iff travelGateway travelHashing ⟨∅, 0⟩ (forkCalls.take 3) ordered_empty).2 ⟨?_, ?_⟩
  · intro a b _ happroved
    have hnone : statusOf ∅ (policyRef a) = none := by simp [statusOf, columns]
    exact absurd (hnone.symm.trans happroved) (by simp)
  · have hnil : Throughout (TimelyApproval travelGateway travelHashing ⟨∅, 0⟩) [] := by
      intro past call future heq
      simp at heq
    refine ((hnil.snoc (e := .createPolicyDraft alice "Travel" [⟨"Expenses", []⟩] none []) ?_).snoc
      (e := .proposePolicy alice firstTravel) ?_).snoc (e := .approvePolicy managed bob firstTravel) ?_
    · intro access actor id heq
      cases heq
    · intro access actor id heq
      cases heq
    · intro access actor id heq _ q hlineage hforce
      obtain ⟨rfl, rfl, rfl⟩ : access = managed ∧ actor = bob ∧ id = firstTravel := by
        simpa using heq.symm
      have hedges : (graphAfter travelGateway travelHashing ⟨∅, 0⟩ (forkCalls.take 2)).edges = .ofList firstEdges := by
        decide +kernel
      have hnone : ∀ a b, ¬ (versionsAfter travelGateway travelHashing ⟨∅, 0⟩ (forkCalls.take 2)).prior a b := by
        rintro a b ⟨e, he, hrecord⟩
        rw [hedges, Multiset.mem_coe, firstEdges, List.mem_singleton] at he
        rw [he] at hrecord
        have htype : "SUPPORTED_BY" = "SUPERSEDED_BY" := congrArg EdgeRecord.relType hrecord
        exact absurd htype (by decide)
      rw [Succession.lineage_alone hnone hlineage] at hforce
      have hproposed : statusOf (graphAfter travelGateway travelHashing ⟨∅, 0⟩ (forkCalls.take 2)) (policyRef firstTravel) ≠
          some (text "approved") := by decide +kernel
      exact absurd hforce hproposed

/-- Both forks are approved in the end: the second approval finds its prior deprecated by the first. -/
theorem both_forks_approved :
    Ordered (versions ∅) ∧ ¬ OneApproved travelGateway travelHashing ⟨∅, 0⟩ forkCalls := by
  refine ⟨ordered_empty, fun hkept => ?_⟩
  have hone := hkept.one forkCalls [] (by simp)
  obtain ⟨habroad, hhome, happroved, happroved'⟩ :
      storedEdge "SUPERSEDED_BY" (policyRef firstTravel) (policyRef travelAbroad) ∈
          (graphAfter travelGateway travelHashing ⟨∅, 0⟩ forkCalls).edges ∧
        storedEdge "SUPERSEDED_BY" (policyRef firstTravel) (policyRef travelAtHome) ∈
          (graphAfter travelGateway travelHashing ⟨∅, 0⟩ forkCalls).edges ∧
        statusOf (graphAfter travelGateway travelHashing ⟨∅, 0⟩ forkCalls) (policyRef travelAbroad) =
          some (text "approved") ∧
        statusOf (graphAfter travelGateway travelHashing ⟨∅, 0⟩ forkCalls) (policyRef travelAtHome) =
          some (text "approved") := by decide +kernel
  have habroad : (versionsAfter travelGateway travelHashing ⟨∅, 0⟩ forkCalls).prior firstTravel travelAbroad :=
    ⟨_, habroad, rfl⟩
  have hhome : (versionsAfter travelGateway travelHashing ⟨∅, 0⟩ forkCalls).prior firstTravel travelAtHome :=
    ⟨_, hhome, rfl⟩
  have hlineage : Lineage (versionsAfter travelGateway travelHashing ⟨∅, 0⟩ forkCalls) travelAbroad travelAtHome :=
    (Lineage.of_prior habroad).symm.trans (.of_prior hhome)
  have heq := hone _ _ hlineage happroved happroved'
  revert heq
  decide

end PolicySystem.PolicyLifecycle
