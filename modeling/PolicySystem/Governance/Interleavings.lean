import PolicySystem.Governance.Programs
import PolicySystem.PolicyLifecycle.Versions

/-!
# One governor

The writers of governance in any interleaving: their guard reads and their submits are steps of their own.

* `Inv`: what every program asks of the graph as it is, and what the graph keeps;
* `one_governor`: **no Capability ever has two governors**, and an approved fork is the one governor of what it moves.
-/

namespace PolicySystem.Governance

open Std (ExtTreeMap)
open Interleaved PropertyGraph PolicyLifecycle

/-- The step commits the group: it is logged and applied, whatever its writer is told. -/
def Commits (gw : Gateway) (w : Governance) (e : CallerStep Answer) (submission : Submission) (w' : Governance) : Prop :=
  (∃ c answer k, (answer = .applied ∨ answer = .unknown) ∧ e = .request c answer ∧ w.flows c = .request submission k) ∧
    w.step gw e = some w'

/-- Every edge has the identity of its ends, as the gateway writes it, or none yet. -/
def Identified (g : Graph) : Prop := ∀ k ∈ edgeKeys g, k.identity = none ∨ k.Standard

/-- The programs ask for fit groups only, and the graph is governed. -/
structure Inv (gw : Gateway) (w : Governance) : Prop where
  safe : w.Safe (carry gw) (Drift gw) (Fit gw)
  governed : Governed w.shared.graph

section Runs

variable {gw : Gateway} {w w' : Governance} {e : CallerStep Answer} {sha256 : Bytes → String} {h : Hashing}

/-- **Every writer's program** asks for fit groups only. -/
theorem flow_safe (hallow : NamesGovernors gw) (writer : Writer) (s : GraphState) :
    (writer.flow sha256 gw h).safe (carry gw) (Drift gw) (Fit gw) (fun _ _ => True) s := by
  cases writer with
  | lifecycle call => exact Flow.safe_asking (calls_keep hallow call)
  | cleanup write => exact writes_keep fun g₀ g ps hplan hsame => plan_fair hplan hsame

theorem start_inv (hallow : NamesGovernors gw) {s : GraphState} (hone : ∀ c, (governors s.graph c).card ≤ 1)
    (hid : Identified s.graph) (writers : ℕ → Writer) : Inv gw (Governance.start sha256 gw h s writers) where
  safe c := flow_safe hallow (writers c) s
  governed := ⟨hone, fun _ k hk => hid k (mem_governorKeys.1 hk).1⟩

/-- **One step keeps the invariant.** -/
theorem Inv.step (hw : Inv gw w) (hstep : w.step gw e = some w') : Inv gw w' := by
  refine ⟨hw.safe.step (Drift.refl gw) Drift.trans (fun s q n s' hfit hcarry => carry_drift hfit hcarry) hstep, ?_⟩
  rcases Callers.step_shared hstep with hsame | ⟨submission, hcarries⟩
  · rw [hsame]
    exact hw.governed
  · have hfit := hw.safe.met (Drift.refl gw) hcarries
    obtain ⟨c, answer, k, -, -, hcarry⟩ := hcarries
    exact (carry_drift hfit hcarry).governed hw.governed

theorem Inv.after (hw : Inv gw w) {history : List (CallerStep Answer)}
    (hrun : after (Governance.step gw) w history = some w') : Inv gw w' :=
  after_keeps hw (fun _ _ _ hm hstep => Inv.step hm hstep) hrun

/-- A committed group was admitted at the position it names, and is applied. -/
theorem commits_commit {submission : Submission} (hcommit : Commits gw w e submission w') :
    w.Carries (carry gw) e submission w'.shared ∧ gw.commit w.shared submission.group = some w'.shared := by
  obtain ⟨⟨c, answer, k, hanswer, rfl, hflow⟩, hstep⟩ := hcommit
  have hcarry : (carry gw w.shared submission answer).map
      (fun s => (⟨s, Function.update w.flows c (k answer)⟩ : Governance)) = some w' := by
    simpa only [Governance.step, Callers.step, hflow] using hstep
  obtain ⟨s, hs, rfl⟩ := Option.map_eq_some_iff.1 hcarry
  refine ⟨⟨c, answer, k, rfl, hflow, hs⟩, ?_⟩
  rcases hanswer with rfl | rfl
  · exact hs
  · exact hs

/-- **A committed fork approval** leaves the Capabilities it moves to the Policy alone. -/
theorem Inv.approved (hw : Inv gw w) {group : Group} (hcommit : Commits gw w e (.lifecycle group) w') {actor : Actor}
    {id c : String} (hpurpose : group.purpose = .transition .approve actor id) (hmoves : ∃ p ∈ group.primitives, Gives c p) :
    governors w'.shared.graph c = {id} := by
  obtain ⟨hcarries, hcommitted⟩ := commits_commit hcommit
  obtain ⟨hexpected, effective, -, hshared⟩ := commit_some hcommitted
  have hfit := hw.safe.met (Drift.refl gw) hcarries hexpected
  have hexact := hfit.2 group actor id c rfl hpurpose hw.governed hmoves
  rw [hshared]
  exact hexact

end Runs

/-- **No Capability ever has two governors.** Claimed creates, fork approvals and every other lifecycle call, releases,
Capability merges, unmerges and splits, in any interleaving of their reads and submits, with any of them dying: every graph
reached has at most one `GOVERNED_BY` edge a Capability, and a committed approval of a fork leaves each Capability it gives
to the fork with the fork as its one governor. -/
theorem one_governor (sha256 : Bytes → String) (gw : Gateway) (h : Hashing) (s : GraphState) (writers : ℕ → Writer)
    (history : List (CallerStep Answer)) (w : Governance) (hallow : NamesGovernors gw)
    (hone : ∀ c, (governors s.graph c).card ≤ 1) (hid : Identified s.graph)
    (hrun : after (Governance.step gw) (Governance.start sha256 gw h s writers) history = some w) :
    (∀ c, (governors w.shared.graph c).card ≤ 1) ∧
      ∀ e w' group actor id c, Commits gw w e (.lifecycle group) w' → group.purpose = .transition .approve actor id →
        (∃ p ∈ group.primitives, Gives c p) → governors w'.shared.graph c = {id} := by
  have hw : Inv gw w := (start_inv hallow hone hid writers).after hrun
  refine ⟨hw.governed.one, fun e w' group actor id c hcommit hpurpose hmoves => ?_⟩
  exact hw.approved hcommit hpurpose hmoves

/-! ## A run -/

def loggingEdges : List (EdgeKey × PropertyMap) :=
  [storedEdge "GOVERNED_BY" (capabilityRef "cap_logging") (policyRef firstTravel),
    storedEdge "SUPERSEDED_BY" (policyRef firstTravel) (policyRef travelAbroad)]

/-- An approved Policy that governs a Capability, and its proposed fork. -/
def loggingGraph : Graph :=
  applyAll ∅ [.upsertNode (capabilityRef "cap_logging") ∅ none,
    .upsertNode (policyRef firstTravel) (.ofList [("status", text "approved"), ("version", text "1")]) none,
    .upsertNode (policyRef travelAbroad) (.ofList [("status", text "proposed"), ("version", text "2")]) none,
    .upsertEdge (edgeBetween "SUPERSEDED_BY" (policyRef firstTravel) (policyRef travelAbroad)) ∅,
    .upsertEdge (edgeBetween "GOVERNED_BY" (capabilityRef "cap_logging") (policyRef firstTravel)) ∅]

theorem loggingGraph_edges : loggingGraph.edges = .ofList loggingEdges := by decide +kernel

noncomputable def loggingGateway : Gateway where
  scan := listedScan loggingEdges
  allow := ⟨["Capability", "Policy", "Standard", "Control"],
    ["GOVERNED_BY", "SUPPORTED_BY", "IMPLEMENTED_BY", "SUPERSEDED_BY"]⟩

/-- The fork is approved while others release the Capability. -/
def loggingWriters : ℕ → Writer
  | 0 => .lifecycle (.approvePolicy managed bob travelAbroad)
  | _ => .cleanup (.release "cap_logging" firstTravel)

noncomputable def loggingRun : Option Governance :=
  after (Governance.step loggingGateway)
    (Governance.start (fun _ => "") loggingGateway travelHashing ⟨loggingGraph, 5⟩ loggingWriters)
    (reads 0 7 ++ reads 1 2 ++ [.request 0 .applied])

/-- The approval is committed, and the fork governs alone. -/
theorem one_governor_logging : ∃ w, loggingRun = some w ∧ governors w.shared.graph "cap_logging" = {travelAbroad} ∧
    ∀ c, (governors w.shared.graph c).card ≤ 1 := by
  have hmoved : (loggingRun.map fun w => governors w.shared.graph "cap_logging") = some {travelAbroad} := by
    decide +kernel
  obtain ⟨w, hrun, hgovernors⟩ := Option.map_eq_some_iff.1 hmoved
  have hkeys : edgeKeys loggingGraph = .ofList (loggingEdges.map Prod.fst) := by
    rw [edgeKeys, loggingGraph_edges]
    rfl
  have hone : ∀ c, (governors loggingGraph c).card ≤ 1 := by
    intro c
    -- at most the one edge of the type governs
    have htyped : governorKeys loggingGraph c ≤ (edgeKeys loggingGraph).filter fun k => k.type = "GOVERNED_BY" := by
      refine Multiset.monotone_filter_right _ fun k hk => ?_
      exact congrArg EdgeRecord.relType hk
    have hcard : ((edgeKeys loggingGraph).filter fun k => k.type = "GOVERNED_BY").card = 1 := by
      rw [hkeys]
      decide
    rw [card_governors, ← hcard]
    exact Multiset.card_le_card htyped
  have hid : Identified loggingGraph := by
    intro k hk
    rw [hkeys] at hk
    obtain ⟨e, he, rfl⟩ := List.mem_map.1 (Multiset.mem_coe.1 hk)
    rcases List.mem_cons.1 he with rfl | he
    · exact .inr rfl
    · rw [List.mem_singleton.1 he]
      exact .inr rfl
  exact ⟨w, hrun, hgovernors, (one_governor _ loggingGateway travelHashing _ loggingWriters _ w
    (by simp [NamesGovernors, loggingGateway]) hone hid hrun).1⟩

end PolicySystem.Governance
