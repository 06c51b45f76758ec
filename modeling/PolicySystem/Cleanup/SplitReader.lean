import PolicySystem.Cleanup.GraphReader
import PolicySystem.Cleanup.SplitPlanner

/-!
# The split-state read

What a split is planned from (`graph_cleanup/split_reader.py`): the company graph, and what the reads of the markers
and of the `{short}_baseline` graphs answer.

* `splitStateOf_read`: what a split state says of the graph it was read from.
-/

namespace PolicySystem

open Std (ExtTreeMap)

/-! ## The reads -/

/-- `SplitMarkers`. -/
structure SplitMarkers where
  xMarkerLabel : Option CapabilityMarker
  markerResolvesTo : Option String
  chain : List String
  aAliases : List String

/-- What the reads of one `{short}_baseline` graph answer. -/
structure SplitBaseline where
  graphName : String
  /-- `read_baseline_capabilities`, at one id. -/
  capability : String → Option BaselineCapability
  /-- `read_baseline_incoming_edges`: source and target of each edge. -/
  incoming : EdgeClass → List (String × String)
  /-- `read_baseline_instrument_ids`. -/
  instruments : List String

/-- What a split reads besides the nodes and edges of the company graph. -/
structure SplitReads where
  markers : SplitMarkers
  baselines : List SplitBaseline
  /-- The end of an Obligation's `MergedObligation` chain. -/
  obligationTerminal : String → String

/-- `held_edges`. -/
def heldEdges (edges : List (String × String)) (xId : String) (aliases : List String) (sourceId : String → String)
    (existing : String → Bool) : HeldEdges where
  heldX := ((edges.filter fun e => e.2 = xId ∧ existing (sourceId e.1) = true).map fun e => sourceId e.1).toFinset
  heldA := ((edges.filter fun e => e.2 ≠ xId ∧ e.2 ∈ aliases).map fun e => sourceId e.1).toFinset
  skippedMissing := ((edges.filter fun e => e.2 = xId ∧ existing (sourceId e.1) = false).map fun e => sourceId e.1).toFinset

/-- `map_obligation_sources`; the other classes keep their ids. -/
def SplitReads.sourceId (reads : SplitReads) : EdgeClass → String → String
  | .requires => reads.obligationTerminal
  | .covers => id
  | .mitigatedBy => id

/-- `read_held_edges`, for the one id. -/
def readHeldEdges (g : Graph) (reads : SplitReads) (c : EdgeClass) (xId : String) : HeldEdges :=
  let aliases := reads.markers.aAliases
  let edges := reads.baselines.flatMap fun b => (b.incoming c).filter fun e => e.2 = xId ∨ e.2 ∈ aliases
  heldEdges edges xId aliases (reads.sourceId c) fun id => (⟨c.sourceLabel, id⟩ : NodeRef) ∈ g.nodes

/-- `read_held_by_baselines`, for the one id: in graph-name order. -/
def readHolders (reads : SplitReads) (xId : String) : List SplitHolder :=
  (reads.baselines.insertionSort fun a b => a.graphName ≤ b.graphName).filterMap fun b =>
    (b.capability xId).map fun node => ⟨b.graphName, node, b.instruments⟩

/-- The state of an id that is not, or not any more, an automatic resolution. -/
def splitRefused (markers : SplitMarkers) (xId : String) (xIsCapability : Bool) (policies : List GoverningPolicy) :
    CapabilitySplitState where
  xId := xId
  xMarkerLabel := markers.xMarkerLabel
  markerResolvesTo := markers.markerResolvesTo
  chain := markers.chain
  xIsCapability := xIsCapability
  terminal := none
  terminalPolicies := policies
  terminalEdges := []
  holders := []
  held _ := none
  terminal_last _ h := by cases h

/-- `read_capability_split_state`; `none` where a row is refused. -/
def readCapabilitySplitState (scan : ScanOrder) (g : Graph) (reads : SplitReads) (xId : String) :
    Option CapabilitySplitState :=
  let markers := reads.markers
  if (⟨"Capability", xId⟩ : NodeRef) ∈ g.nodes then some (splitRefused markers xId true [])
  else if markers.xMarkerLabel ≠ some .resolved then some (splitRefused markers xId false [])
  else
    match hlast : markers.chain.getLast? with
    | none => none -- not reached: the chain starts at X
    | some aId =>
      match hread : readNode g "Capability" aId (nodeState aId) with
      | none => none
      | some none => (readPolicies scan g aId).map (splitRefused markers xId false)
      | some (some a) => (readPolicies scan g aId).map fun policies => {
          xId := xId
          xMarkerLabel := markers.xMarkerLabel
          markerResolvesTo := markers.markerResolvesTo
          chain := markers.chain
          xIsCapability := false
          terminal := some a
          terminalPolicies := policies
          terminalEdges := EdgeClass.all.flatMap fun c => edgeRows scan g c.pattern fun e => e.targetId = aId
          holders := readHolders reads xId
          held c := if readHolders reads xId = [] then none else some (readHeldEdges g reads c xId)
          terminal_last x hx := by
            obtain rfl := Option.some.inj hx
            rw [hlast, readNode_id hread (fun _ _ => nodeState_id) a rfl] }

/-! ## What was read -/

theorem mem_heldX {g : Graph} {reads : SplitReads} {c : EdgeClass} {xId id : String}
    (h : id ∈ (readHeldEdges g reads c xId).heldX) : (⟨c.sourceLabel, id⟩ : NodeRef) ∈ g.nodes := by
  simp only [readHeldEdges, heldEdges, List.mem_toFinset, List.mem_map, List.mem_filter, decide_eq_true_eq] at h
  obtain ⟨e, ⟨-, -, hexists⟩, rfl⟩ := h
  exact hexists

/-- What a split state says of the graph it was read from, where it has a terminal A. -/
structure SplitStateOf (g : Graph) (xId : String) (state : CapabilitySplitState) (a : CapabilityNodeState) : Prop where
  x : state.xId = xId
  absent : (⟨"Capability", xId⟩ : NodeRef) ∉ g.nodes
  terminal : (⟨"Capability", a.id⟩ : NodeRef) ∈ g.nodes
  edges : ∀ r, r ∈ state.terminalEdges ↔ Shows g r ∧ ∃ c source, r = classEdge c source a.id
  policies : ∀ id, (∃ p ∈ state.terminalPolicies, p.id = id) ↔ Shows g (governedBy a.id id)
  held : ∀ c, ∀ id ∈ (heldOf state c).heldX, (⟨c.sourceLabel, id⟩ : NodeRef) ∈ g.nodes

theorem SplitStateOf.distinct {g : Graph} {xId : String} {state : CapabilitySplitState} {a : CapabilityNodeState}
    (h : SplitStateOf g xId state a) : a.id ≠ xId :=
  fun heq => h.absent (heq ▸ h.terminal)

theorem splitStateOf_read {scan : ScanOrder} {g : Graph} {reads : SplitReads} {xId : String}
    {state : CapabilitySplitState} {a : CapabilityNodeState}
    (h : readCapabilitySplitState scan g reads xId = some state) (hterminal : state.terminal = some a) :
    SplitStateOf g xId state a := by
  unfold readCapabilitySplitState at h
  simp only at h
  split at h
  · cases h
    cases hterminal
  rename_i hx
  split at h
  · cases h
    cases hterminal
  split at h
  · cases h
  rename_i aId hlast
  split at h
  · cases h
  · obtain ⟨policies, -, rfl⟩ := Option.map_eq_some_iff.1 h
    cases hterminal
  rename_i node hread
  obtain ⟨policies, hpolicies, rfl⟩ := Option.map_eq_some_iff.1 h
  obtain rfl := Option.some.inj hterminal
  have hid := readNode_id hread (fun _ _ => nodeState_id) node rfl
  subst hid
  refine ⟨rfl, hx, readNode_mem hread, fun r => ?_, readPolicies_ids hpolicies, fun c id hheld => ?_⟩
  · simp only [List.mem_flatMap, mem_edgeRows, pattern_selects, decide_eq_true_eq]
    constructor
    · rintro ⟨c, -, hshow, hclass, htarget⟩
      exact ⟨hshow, c, r.sourceId, by rw [← htarget]; exact hclass⟩
    · rintro ⟨hshow, c, source, rfl⟩
      exact ⟨c, mem_all c, hshow, rfl, rfl⟩
  · unfold heldOf at hheld
    by_cases hnone : readHolders reads xId = []
    · simp [hnone] at hheld
    · simp only [hnone, if_false, Option.getD_some] at hheld
      exact mem_heldX hheld

end PolicySystem
